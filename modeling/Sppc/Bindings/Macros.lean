import Sppc.Bindings.Names
import Sppc.CIntegers

/-!
# The constants of the bindings (`tools/main.py`)

What `parse_integer_literal` makes of the body of a macro, and the S++ constant that is written for it.
-/

namespace Sppc.Bindings

open CIntegers

/-! ### `parse_integer_literal` -/

/-- What Python raises. -/
inductive PyError
  | ValueError
  deriving DecidableEq, Repr

/-- `int(digits, base)`, of letters and digits.  A number in decimal has no more digits than the limit of the
interpreter, if it has one. -/
def pyInt (limit : Option Nat) (digits : List Char) (base : Nat) : Except PyError Nat :=
  if digits = [] ∨ digits.any fun c => base ≤ digitValue c then .error .ValueError
  else if base = 10 ∧ limit.any fun most => most < digits.length then .error .ValueError
  else .ok (ofDigits base digits)

/-- `int(digits, 0)`, of digits with the prefix of a base. -/
def pyIntPrefixed (limit : Option Nat) (digits : List Char) : Except PyError Nat :=
  match digits with
  | '0' :: c :: digits =>
    if c = 'x' ∨ c = 'X' then pyInt limit digits 16
    else if c = 'b' ∨ c = 'B' then pyInt limit digits 2
    else .error .ValueError
  | _ => .error .ValueError

/-- An alternative of the pattern: the characters it starts with, and a run of others, of so many at least. -/
structure Alternative where
  heads : List (Char → Bool)
  run : Char → Bool
  least : Nat

/-- `0[xX][0-9a-fA-F']+|0[bB][01']+|0[0-7']*|[1-9][0-9']*`. -/
def alternatives : List Alternative :=
  [⟨[fun c => c = '0', fun c => c = 'x' ∨ c = 'X'],
    fun c => ('0' ≤ c ∧ c ≤ '9') ∨ ('a' ≤ c ∧ c ≤ 'f') ∨ ('A' ≤ c ∧ c ≤ 'F') ∨ c = separator, 1⟩,
  ⟨[fun c => c = '0', fun c => c = 'b' ∨ c = 'B'], fun c => c = '0' ∨ c = '1' ∨ c = separator, 1⟩,
  ⟨[fun c => c = '0'], fun c => ('0' ≤ c ∧ c ≤ '7') ∨ c = separator, 0⟩,
  ⟨[fun c => '1' ≤ c ∧ c ≤ '9'], fun c => ('0' ≤ c ∧ c ≤ '9') ∨ c = separator, 0⟩]

/-- The rest after one character of a kind, if there is one. -/
def optional (p : Char → Bool) : List Char → List Char
  | [] => []
  | c :: s => if p c then s else c :: s

/-- `[uU]?[lL]{0,2}[uU]?`. -/
def isSuffix (s : List Char) : Bool :=
  let u : Char → Bool := fun c => c = 'u' ∨ c = 'U'
  let l : Char → Bool := fun c => c = 'l' ∨ c = 'L'
  optional u (optional l (optional l (optional u s))) = []

/-- The first group, where an alternative matches.  The run is the longest: a suffix has nothing of one. -/
def Alternative.group (a : Alternative) (s : List Char) : Option (List Char) :=
  let n := a.heads.length
  let run := (s.drop n).takeWhile a.run
  if n ≤ s.length ∧ (List.zipWith (fun p c => p c) a.heads s).all id ∧ a.least ≤ run.length ∧
      isSuffix ((s.drop n).dropWhile a.run) then
    some (s.take n ++ run)
  else none

/-- `m.group(1)` of `re.fullmatch`. -/
def fullmatch (s : List Char) : Option (List Char) := alternatives.findSome? fun a => a.group s

/-- The parentheses around a body that is as long as that at most. -/
def stripParens : Nat → List String → List String
  | 0, tokens => tokens
  | fuel + 1, tokens =>
    if 2 ≤ tokens.length ∧ tokens.head? = some "(" ∧ tokens.getLast? = some ")" then
      stripParens fuel (tokens.drop 1).dropLast
    else tokens

/-- `value` of the digits of a literal. -/
def literalValue (limit : Option Nat) (digits : List Char) : Except PyError Nat :=
  if (digits.take 2).map Char.toLower ∈ [['0', 'x'], ['0', 'b']] then pyIntPrefixed limit digits
  else if digits.head? = some '0' ∧ 1 < digits.length then pyInt limit digits 8
  else pyInt limit digits 10

/-- The literal of a sign and a literal, and the sign. -/
def splitSign (tokens : List String) : Int × List String :=
  match tokens with
  | [s, t] => if s = "-" then (-1, [t]) else if s = "+" then (1, [t]) else (1, tokens)
  | _ => (1, tokens)

/-- `parse_integer_literal`. -/
def parseIntegerLiteral (limit : Option Nat) (tokens : List String) : Except PyError (Option Int) :=
  match splitSign (stripParens tokens.length tokens) with
  | (sign, [t]) =>
    match fullmatch t.toList with
    | none => .ok none
    | some group => do
      let value ← literalValue limit (withoutSeparators group)
      return some (sign * value)
  | _ => .ok none

/-! ### `_visit_macro` -/

inductive SppInt
  | CInt | CInt64 | CUInt64
  deriving DecidableEq, Repr

/-- The value is one of the type. -/
def SppInt.Holds (v : Int) : SppInt → Prop
  | CInt => -2 ^ 31 ≤ v ∧ v < 2 ^ 31
  | CInt64 => -2 ^ 63 ≤ v ∧ v < 2 ^ 63
  | CUInt64 => 0 ≤ v ∧ v < 2 ^ 64

/-- The type of a constant. -/
def constantType (value : Int) : SppInt :=
  if -2 ^ 31 ≤ value ∧ value < 2 ^ 31 then .CInt else if -2 ^ 63 ≤ value ∧ value < 2 ^ 63 then .CInt64 else .CUInt64

/-- A macro of a header, with the tokens of its definition, its name first. -/
structure MacroCursor where
  spelling : Name
  functionLike : Bool
  tokens : List String

/-- What `_add_constant` is called with. -/
structure Constant where
  cName : Name
  sppType : SppInt
  value : Int
  deriving DecidableEq, Repr

/-- `Generator._visit_macro`. -/
def visitMacro (limit : Option Nat) (cursor : MacroCursor) : Except PyError (Option Constant) := do
  if cursor.spelling.head? = some '_' then return none
  if cursor.functionLike then return none
  let value ← parseIntegerLiteral limit (cursor.tokens.drop 1)
  return value.map fun v => ⟨cursor.spelling, constantType v, v⟩

/-! ### Literals -/

section literal

variable {limit : Option Nat} {base n : Nat} {r : Radix} {s digits mark suffix group : List Char} {p : Char → Bool}

private theorem forall_mem_of_optional {P : Char → Prop} (hp : ∀ c, p c → P c) (h : ∀ c ∈ optional p s, P c) :
    ∀ c ∈ s, P c := by
  cases s with
  | nil => exact h
  | cons c s =>
    rw [optional] at h
    split at h
    · rename_i hc
      exact List.forall_mem_cons.2 ⟨hp c hc, h⟩
    · exact h

private theorem isSuffix_chars (h : isSuffix s) : ∀ c ∈ s, c ∈ ['u', 'U', 'l', 'L'] := by
  have hu (c : Char) (hc : (decide (c = 'u' ∨ c = 'U')) = true) : c ∈ ['u', 'U', 'l', 'L'] := by
    rcases of_decide_eq_true hc with rfl | rfl <;> decide
  have hl (c : Char) (hc : (decide (c = 'l' ∨ c = 'L')) = true) : c ∈ ['u', 'U', 'l', 'L'] := by
    rcases of_decide_eq_true hc with rfl | rfl <;> decide
  unfold isSuffix at h
  refine forall_mem_of_optional hu
    (forall_mem_of_optional hl (forall_mem_of_optional hl (forall_mem_of_optional hu ?_)))
  rw [of_decide_eq_true h]
  exact List.forall_mem_nil _

/-- An alternative that matches splits the characters. -/
private theorem Alternative.group_some {a : Alternative} (h : a.group s = some group) :
    ∃ mark run suffix, s = mark ++ run ++ suffix ∧ group = mark ++ run ∧ mark.length = a.heads.length ∧
      (List.zipWith (fun p c => p c) a.heads mark).all id ∧ (∀ c ∈ run, a.run c) ∧ isSuffix suffix := by
  unfold Alternative.group at h
  dsimp only at h
  split at h
  · rename_i hcond
    obtain ⟨hlength, hheads, -, hsuffix⟩ := hcond
    cases h
    refine ⟨s.take a.heads.length, _, _, ?_, rfl, List.length_take_of_le hlength, ?_, ?_, hsuffix⟩
    · rw [List.append_assoc, List.takeWhile_append_dropWhile, List.take_append_drop]
    · have htake : List.zipWith (fun p c => p c) a.heads (s.take a.heads.length) =
          List.zipWith (fun p c => p c) a.heads s := by
        have hcut := (List.take_zipWith : (List.zipWith (fun p c => p c) a.heads s).take a.heads.length = _)
        rw [List.take_length, List.take_of_length_le] at hcut
        · exact hcut.symm
        · rw [List.length_zipWith]
          exact Nat.min_le_left _ _
      rw [htake]
      exact hheads
    · exact List.all_eq_true.1 List.all_takeWhile
  · cases h

/-- What matches is spelled as a constant, but for the places of its separators and the order of its suffix. -/
private theorem group_spelled (h : fullmatch s = some group) :
    ∃ r mark digits suffix, Spelled r s mark digits suffix ∧ group = mark ++ digits := by
  obtain ⟨a, ha, hgroup⟩ := List.exists_of_findSome?_eq_some h
  obtain ⟨mark, run, suffix, hs, hg, hlength, hheads, hrun, hsuffix⟩ := Alternative.group_some hgroup
  have hchars := isSuffix_chars hsuffix
  simp only [alternatives, List.mem_cons, List.not_mem_nil, or_false] at ha
  rcases ha with rfl | rfl | rfl | rfl
  · obtain ⟨c, d, rfl⟩ := List.length_eq_two.1 hlength
    refine ⟨.hexadecimal, [c, d], run, suffix, ⟨hs, ?_, ?_, nofun, hchars⟩, hg⟩
    · simp at hheads
      obtain ⟨rfl, rfl | rfl⟩ := hheads <;> decide
    · simpa [Radix.isRun, Radix.isDigit, or_assoc] using hrun
  · obtain ⟨c, d, rfl⟩ := List.length_eq_two.1 hlength
    refine ⟨.binary, [c, d], run, suffix, ⟨hs, ?_, ?_, nofun, hchars⟩, hg⟩
    · simp at hheads
      obtain ⟨rfl, rfl | rfl⟩ := hheads <;> decide
    · simpa [Radix.isRun, Radix.isDigit, or_assoc] using hrun
  · obtain ⟨c, rfl⟩ := List.length_eq_one_iff.1 hlength
    have hc : c = '0' := by simpa using hheads
    subst hc
    refine ⟨.octal, [], '0' :: run, suffix, ⟨hs, by decide, ?_, fun _ => rfl, hchars⟩, hg⟩
    refine List.forall_mem_cons.2 ⟨by decide, ?_⟩
    simpa [Radix.isRun, Radix.isDigit] using hrun
  · obtain ⟨c, rfl⟩ := List.length_eq_one_iff.1 hlength
    have hc : Radix.decimal.isFirst c := by simpa [Radix.isFirst] using hheads
    refine ⟨.decimal, [], c :: run, suffix, ⟨hs, by decide, ?_, fun _ => hc, hchars⟩, hg⟩
    refine List.forall_mem_cons.2 ⟨Radix.isRun_of_isFirst hc, ?_⟩
    simpa [Radix.isRun, Radix.isDigit] using hrun

private theorem pyInt_eq (h : pyInt limit digits base = .ok n) : n = ofDigits base digits := by
  unfold pyInt at h
  split at h
  · cases h
  · split at h
    · cases h
    · cases h
      rfl

private theorem toLower_of_le {c : Char} (h : c ≤ '9') : c.toLower = c := by
  unfold Char.toLower
  rw [dif_neg]
  intro hc
  have hupper : 'A' ≤ '9' := Char.le_trans hc.1 h
  exact absurd hupper (by decide)

private theorem withoutSeparators_cons {c : Char} (hc : c ≠ separator) :
    withoutSeparators (c :: s) = c :: withoutSeparators s := by
  rw [withoutSeparators, List.filter_cons_of_pos (by simpa using hc)]
  rfl

private theorem isDigit_of_mem (hruns : ∀ c ∈ digits, r.isRun c) {c : Char} (hc : c ∈ withoutSeparators digits) :
    r.isDigit c := by
  obtain ⟨hmem, hsep⟩ := List.mem_filter.1 hc
  have hrun := hruns c hmem
  simpa [Radix.isRun, of_decide_eq_true hsep] using hrun

/-- After a mark, the digits are read in its base. -/
private theorem literalValue_mark {c : Char} (hc : c ∈ ['x', 'X', 'b', 'B'])
    (h : literalValue limit (withoutSeparators (['0', c] ++ digits)) = .ok n) :
    n = ofDigits (if c = 'x' ∨ c = 'X' then 16 else 2) (withoutSeparators digits) := by
  have hc' : c ≠ separator ∧ ['0', c].map Char.toLower ∈ [['0', 'x'], ['0', 'b']] := by
    simp only [List.mem_cons, List.not_mem_nil, or_false] at hc
    rcases hc with rfl | rfl | rfl | rfl <;> exact ⟨by decide, by simp⟩
  obtain ⟨hsep, hlower⟩ := hc'
  have hdigits : withoutSeparators (['0', c] ++ digits) = '0' :: c :: withoutSeparators digits := by
    rw [List.cons_append, withoutSeparators_cons (by decide), List.singleton_append, withoutSeparators_cons hsep]
  have htake : ('0' :: c :: withoutSeparators digits).take 2 = ['0', c] := rfl
  rw [hdigits, literalValue, htake, if_pos hlower, pyIntPrefixed] at h
  split at h
  · rename_i hx
    rw [if_pos hx]
    exact pyInt_eq h
  · rename_i hx
    rw [if_neg hx]
    split at h
    · exact pyInt_eq h
    · cases h

/-- Without a mark, they are read in octal after a zero. -/
private theorem literalValue_plain (h9 : ∀ c ∈ s, c ≤ '9') :
    literalValue limit s = if s.head? = some '0' ∧ 1 < s.length then pyInt limit s 8 else pyInt limit s 10 := by
  have hlower : (s.take 2).map Char.toLower = s.take 2 :=
    (List.map_congr_left fun c hc => toLower_of_le (h9 c (List.mem_of_mem_take hc))).trans (List.map_id _)
  have hmark : s.take 2 ∉ [['0', 'x'], ['0', 'b']] := by
    intro hmem
    rcases List.mem_pair.1 hmem with htake | htake
    · have hx : 'x' ∈ s.take 2 := htake ▸ List.mem_cons_of_mem _ List.mem_cons_self
      exact absurd (h9 'x' (List.mem_of_mem_take hx)) (by decide)
    · have hb : 'b' ∈ s.take 2 := htake ▸ List.mem_cons_of_mem _ List.mem_cons_self
      exact absurd (h9 'b' (List.mem_of_mem_take hb)) (by decide)
  rw [literalValue, hlower, if_neg hmark]

/-- The base Python reads the digits in is that of the constant. -/
private theorem literalValue_eq (hspelled : Spelled r s mark digits suffix)
    (h : literalValue limit (withoutSeparators (mark ++ digits)) = .ok n) :
    n = ofDigits r.base (withoutSeparators digits) := by
  obtain ⟨rfl, hmark, hruns, hstarts, -⟩ := hspelled
  cases r with
  | decimal =>
    cases List.mem_singleton.1 hmark
    cases digits with
    | nil => exact absurd (hstarts rfl) (by simp)
    | cons c digits =>
      have hfirst : '1' ≤ c ∧ c ≤ '9' := by simpa [Radix.isFirst] using hstarts rfl
      have hzero : c ≠ '0' := by
        rintro rfl
        exact absurd hfirst (by decide)
      have hsep : c ≠ separator := by
        rintro rfl
        exact absurd hfirst (by decide)
      rw [List.nil_append, literalValue_plain, withoutSeparators_cons hsep, if_neg] at h
      · rw [withoutSeparators_cons hsep]
        exact pyInt_eq h
      · simp [hzero]
      · intro d hd
        have hdigit := isDigit_of_mem hruns hd
        simp only [Radix.isDigit, decide_eq_true_eq] at hdigit
        exact hdigit.2
  | octal =>
    cases List.mem_singleton.1 hmark
    cases digits with
    | nil => exact absurd (hstarts rfl) (by simp)
    | cons c digits =>
      have hc : c = '0' := by simpa [Radix.isFirst] using hstarts rfl
      subst hc
      rw [List.nil_append, literalValue_plain, withoutSeparators_cons (by decide)] at h
      · rw [withoutSeparators_cons (by decide)]
        split at h
        · exact pyInt_eq h
        · rename_i hshort
          -- a zero alone is the same in decimal
          have hnil : withoutSeparators digits = [] := by
            simpa using hshort
          rw [hnil] at h ⊢
          exact (pyInt_eq h).trans rfl
      · intro d hd
        have hdigit := isDigit_of_mem hruns hd
        simp only [Radix.isDigit, decide_eq_true_eq] at hdigit
        exact Char.le_trans hdigit.2 (by decide)
  | hexadecimal =>
    rcases List.mem_pair.1 hmark with rfl | rfl
    · exact literalValue_mark (by decide) h
    · exact literalValue_mark (by decide) h
  | binary =>
    rcases List.mem_pair.1 hmark with rfl | rfl
    · exact literalValue_mark (by decide) h
    · exact literalValue_mark (by decide) h

end literal

/-! ### Bodies -/

/-- Tokens in so many parentheses. -/
def wrap : Nat → List String → List String
  | 0, tokens => tokens
  | k + 1, tokens => "(" :: (wrap k tokens ++ [")"])

inductive Sign
  | absent | plus | minus
  deriving DecidableEq, Repr

namespace Sign

def tokens : Sign → List String
  | absent => []
  | plus => ["+"]
  | minus => ["-"]

def factor : Sign → Int
  | absent | plus => 1
  | minus => -1

end Sign

section body

variable {limit : Option Nat} {m : DataModel} {r : Radix} {k k' fuel n : Nat} {tokens tokens' : List String}
  {t t' : String} {sign sign' : Sign} {mark digits suffix : List Char} {v : Int}

private theorem stripParens_spec (fuel : Nat) (tokens : List String) :
    ∃ k, tokens = wrap k (stripParens fuel tokens) := by
  induction fuel generalizing tokens with
  | zero => exact ⟨0, rfl⟩
  | succ fuel ih =>
    rw [stripParens]
    split
    · rename_i hcond
      obtain ⟨hlength, hhead, hlast⟩ := hcond
      obtain ⟨k, hk⟩ := ih (tokens.drop 1).dropLast
      refine ⟨k + 1, ?_⟩
      rw [wrap, ← hk]
      cases tokens with
      | nil => cases hhead
      | cons token rest =>
        cases hhead
        have hrest : rest ≠ [] := by
          rintro rfl
          exact absurd hlength (by decide)
        rw [List.getLast?_cons_of_ne_nil hrest] at hlast
        rw [List.drop_one, List.tail_cons, List.dropLast_append_getLast? _ hlast]
    · exact ⟨0, rfl⟩

private theorem splitSign_spec (h : splitSign tokens = (v, [t])) :
    ∃ sign : Sign, tokens = sign.tokens ++ [t] ∧ v = sign.factor := by
  unfold splitSign at h
  split at h
  · split at h
    · rename_i hs
      cases h
      exact ⟨.minus, by rw [hs]; rfl, rfl⟩
    · split at h
      · rename_i hs
        cases h
        exact ⟨.plus, by rw [hs]; rfl, rfl⟩
      · cases h
  · cases h
    exact ⟨.absent, rfl, rfl⟩

/-- What is parsed is a literal, with a sign or without, in parentheses. -/
private theorem parse_spec (h : parseIntegerLiteral limit tokens = .ok (some v)) :
    ∃ k sign t r mark digits suffix, tokens = wrap k (Sign.tokens sign ++ [t]) ∧
      Spelled r t.toList mark digits suffix ∧ v = sign.factor * ofDigits r.base (withoutSeparators digits) := by
  obtain ⟨k, hk⟩ := stripParens_spec tokens.length tokens
  unfold parseIntegerLiteral at h
  split at h
  · rename_i sign t hsign
    obtain ⟨sign, hcore, rfl⟩ := splitSign_spec hsign
    split at h
    · cases h
    · rename_i group hgroup
      obtain ⟨r, mark, digits, suffix, hspelled, rfl⟩ := group_spelled hgroup
      cases hvalue : literalValue limit (withoutSeparators (mark ++ digits)) with
      | error e =>
        rw [hvalue] at h
        cases h
      | ok n =>
        rw [hvalue] at h
        cases h
        rw [literalValue_eq hspelled hvalue]
        exact ⟨k, sign, t, r, mark, digits, suffix, hcore ▸ hk, hspelled, rfl⟩
  · cases h

/-- No constant starts with a parenthesis. -/
private theorem ne_paren (h : Spelled r t.toList mark digits suffix) : t ≠ "(" := by
  rintro rfl
  have hradix : (Radix.decimal, []) = (r, mark) := h.radixOf_eq
  obtain ⟨rfl, rfl⟩ := Prod.mk.inj hradix
  have hspelling : ['('] = digits ++ suffix := h.spelling
  have hstarts := h.starts rfl
  cases digits with
  | nil => cases hstarts
  | cons c digits =>
    obtain ⟨rfl, -⟩ := List.cons.inj hspelling
    exact absurd hstarts (by simp [Radix.isFirst])

private theorem wrap_inj (hhead : tokens.head? ≠ some "(") (hhead' : tokens'.head? ≠ some "(")
    (h : wrap k tokens = wrap k' tokens') : k = k' ∧ tokens = tokens' := by
  induction k generalizing k' with
  | zero =>
    cases k' with
    | zero => exact ⟨rfl, h⟩
    | succ k' => exact absurd (congrArg List.head? h) hhead
  | succ k ih =>
    cases k' with
    | zero => exact absurd (congrArg List.head? h).symm hhead'
    | succ k' =>
      obtain ⟨hk, htokens⟩ := ih (List.append_cancel_right (List.cons.inj h).2)
      exact ⟨congrArg _ hk, htokens⟩

private theorem sign_inj (h : sign.tokens ++ [t] = sign'.tokens ++ [t']) : sign = sign' ∧ t = t' := by
  cases sign <;> cases sign' <;> simp_all [Sign.tokens]

private theorem constExpr_wrap {ty : IntType} : ConstExpr m (wrap k tokens) ty v ↔ ConstExpr m tokens ty v := by
  induction k with
  | zero => exact Iff.rfl
  | succ k ih => exact ⟨fun h => ih.1 h.of_paren, fun h => .paren (ih.2 h)⟩

private theorem head_ne_paren (h : Spelled r t.toList mark digits suffix) :
    (sign.tokens ++ [t]).head? ≠ some "(" := by
  cases sign with
  | absent => simpa [Sign.tokens] using ne_paren h
  | plus => simp [Sign.tokens]
  | minus => simp [Sign.tokens]

/-- The literal is a constant of C that a minus, if there is one, does not wrap. -/
def Plain (m : DataModel) (minus : Prop) (s : List Char) : Prop :=
  ∃ r mark digits suffix sfx, s = mark ++ digits ++ suffix ∧ mark ∈ Radix.marks r ∧ DigitSeq r digits ∧
    suffix ∈ Suffix.spellings sfx ∧ InRange r sfx (ofDigits r.base (withoutSeparators digits)) ∧
    (minus → ofDigits r.base (withoutSeparators digits) = 0 ∨
      ¬IsUnsigned m r sfx (ofDigits r.base (withoutSeparators digits)))

/-- The body of a macro is such a literal, with a sign or without, in parentheses. -/
def PlainBody (m : DataModel) (tokens : List String) : Prop :=
  ∃ k sign t, tokens = wrap k (Sign.tokens sign ++ [t]) ∧ Plain m (sign = .minus) t.toList

/-- A spelling has one constant. -/
private theorem constant_value {ty : IntType} (h : Spelled r t.toList mark digits suffix)
    (hconst : IntegerConstant m t.toList ty n) :
    n = ofDigits r.base (withoutSeparators digits) ∧ DigitSeq r digits ∧ ∃ sfx, suffix ∈ Suffix.spellings sfx ∧
      typeOf m r sfx n = some ty := by
  obtain ⟨r', mark', digits', suffix', sfx, hs, hmark, hdigits, hsuffix, hn, hty⟩ := hconst
  obtain ⟨rfl, rfl, rfl, rfl⟩ := h.unique (DigitSeq.spelled_constant hs hmark hdigits hsuffix)
  exact ⟨hn, hdigits, sfx, hsuffix, hty⟩

private theorem plain_of_constExpr {ty : IntType} (h : Spelled r t.toList mark digits suffix)
    (hexpr : ConstExpr m (sign.tokens ++ [t]) ty (sign.factor * ofDigits r.base (withoutSeparators digits))) :
    Plain m (sign = .minus) t.toList := by
  have hplain {n : Nat} (hconst : IntegerConstant m t.toList ty n)
      (hminus : sign = .minus → n = ofDigits r.base (withoutSeparators digits) → n = 0 ∨ ty.signed = true) :
      Plain m (sign = .minus) t.toList := by
    obtain ⟨hn, hdigits, sfx, hsuffix, hty⟩ := constant_value h hconst
    refine ⟨r, mark, digits, suffix, sfx, h.spelling, h.mark_mem, hdigits, hsuffix, ?_, fun hsign => ?_⟩
    · rw [← hn, ← typeOf_isSome_iff (m := m), hty]
      rfl
    · rw [← hn, ← typeOf_signed_iff hty, Bool.not_eq_false]
      exact hminus hsign hn
  cases sign with
  | absent =>
    obtain ⟨n, hconst, -⟩ := hexpr.of_constant
    exact hplain hconst nofun
  | plus =>
    obtain ⟨n, hconst, -⟩ := hexpr.of_plus.of_constant
    exact hplain hconst nofun
  | minus =>
    obtain ⟨u, hu, hv⟩ := hexpr.of_minus
    obtain ⟨n, hconst, rfl⟩ := hu.of_constant
    refine hplain hconst fun _ hn => ?_
    rw [← hn, Sign.factor, Int.neg_one_mul] at hv
    cases hty : ty.signed with
    | true => exact .inr rfl
    | false =>
      rw [hty, if_neg Bool.false_ne_true] at hv
      have hwrap := Int.emod_nonneg (-n : Int) (b := 2 ^ ty.bits m) (Int.pow_ne_zero (by decide))
      left
      omega

private theorem constExpr_of_plain (h : Spelled r t.toList mark digits suffix)
    (hplain : Plain m (sign = .minus) t.toList) :
    ∃ ty, ConstExpr m (sign.tokens ++ [t]) ty (sign.factor * ofDigits r.base (withoutSeparators digits)) := by
  obtain ⟨r', mark', digits', suffix', sfx, hs, hmark, hdigits, hsuffix, hrange, hminus⟩ := hplain
  obtain ⟨rfl, rfl, rfl, rfl⟩ := h.unique (DigitSeq.spelled_constant hs hmark hdigits hsuffix)
  obtain ⟨ty, hty⟩ := Option.isSome_iff_exists.1 (typeOf_isSome_iff (m := m).2 hrange)
  have hconst : ConstExpr m [t] ty (ofDigits r.base (withoutSeparators digits) : Nat) :=
    .constant ⟨r, mark, digits, suffix, sfx, hs, hmark, hdigits, hsuffix, rfl, hty⟩
  refine ⟨ty, ?_⟩
  cases sign with
  | absent =>
    rw [Sign.factor, Int.one_mul]
    exact hconst
  | plus =>
    rw [Sign.factor, Int.one_mul]
    exact .plus hconst
  | minus =>
    rw [Sign.factor, Int.neg_one_mul]
    have hsigned := typeOf_signed_iff hty
    cases hs : ty.signed with
    | true => exact .minus hconst hs (IntType.holds_neg hs (typeOf_holds hty))
    | false =>
      rcases hminus rfl with hzero | hsign
      · have hwrap := ConstExpr.minusUnsigned hconst hs
        rw [hzero] at hwrap ⊢
        exact hwrap
      · exact absurd (hsigned.1 hs) hsign

/-- A plain literal is one of the values of a type of S++. -/
private theorem constantType_holds (hl : -2 ^ 63 ≤ v) (hh : v < 2 ^ 64) : (constantType v).Holds v := by
  unfold constantType
  split
  · assumption
  · split
    · assumption
    · exact ⟨by omega, hh⟩

private theorem plain_bounds {n : Nat} {sfx : Suffix} (hrange : InRange r sfx n)
    (hminus : sign = .minus → n = 0 ∨ ¬IsUnsigned m r sfx n) :
    -2 ^ 63 ≤ sign.factor * n ∧ sign.factor * n < 2 ^ 64 := by
  have hn : n < 2 ^ 64 := by
    rcases hrange with hlt | ⟨hlt, -⟩
    · omega
    · exact hlt
  cases sign with
  | absent =>
    rw [Sign.factor]
    omega
  | plus =>
    rw [Sign.factor]
    omega
  | minus =>
    have hsmall : n < 2 ^ 63 := by
      rcases hminus rfl with hzero | hsigned
      · omega
      · unfold IsUnsigned at hsigned
        rcases hrange with hlt | ⟨-, hu | hr⟩
        · exact hlt
        · exact absurd (.inl hu) hsigned
        · by_contra hle
          exact hsigned (.inr ⟨hr, .inl (by omega)⟩)
    rw [Sign.factor]
    omega

/-- A macro with such a body is added under its name with that value, unless the name begins with `_` or the macro
takes arguments. -/
private theorem visitMacro_of_value {cursor : MacroCursor}
    (h : parseIntegerLiteral limit (cursor.tokens.drop 1) = .ok (some v)) :
    visitMacro limit cursor = .ok (if cursor.spelling.head? = some '_' ∨ cursor.functionLike = true then none
      else some ⟨cursor.spelling, constantType v, v⟩) := by
  unfold visitMacro
  by_cases hname : cursor.spelling.head? = some '_'
  · rw [if_pos hname, if_pos (Or.inl hname)]
    rfl
  rw [if_neg hname]
  by_cases hlike : cursor.functionLike = true
  · rw [if_pos hlike, if_pos (Or.inr hlike)]
    rfl
  · rw [if_neg hlike, if_neg fun hor => hor.elim hname hlike, h]
    rfl

/-- The value of the body of a macro is that of its expression in C, and is one of the type of the constant, exactly
for a literal of C without a minus that wraps; and the constant that is added has that value and that type. -/
theorem parse_integer_exact (m : DataModel) (limit : Option Nat) (tokens : List String) (v : Int)
    (h : parseIntegerLiteral limit tokens = .ok (some v)) :
    ((∃ ty, ConstExpr m tokens ty v) ∧ (constantType v).Holds v ↔ PlainBody m tokens) ∧
      ∀ cursor : MacroCursor, cursor.tokens.drop 1 = tokens → visitMacro limit cursor =
        .ok (if cursor.spelling.head? = some '_' ∨ cursor.functionLike = true then none
          else some ⟨cursor.spelling, constantType v, v⟩) := by
  refine ⟨?_, fun cursor htokens => visitMacro_of_value (by rw [htokens]; exact h)⟩
  obtain ⟨k, sign, t, r, mark, digits, suffix, rfl, hspelled, rfl⟩ := parse_spec h
  constructor
  · rintro ⟨⟨ty, hexpr⟩, -⟩
    exact ⟨k, sign, t, rfl, plain_of_constExpr hspelled (constExpr_wrap.1 hexpr)⟩
  · rintro ⟨k', sign', t', htokens, hplain⟩
    obtain ⟨r', mark', digits', suffix', sfx, hs, hmark, hdigits, hsuffix, hrange, hminus⟩ := hplain
    have hspelled' := DigitSeq.spelled_constant hs hmark hdigits hsuffix
    obtain ⟨rfl, hcore⟩ := wrap_inj (head_ne_paren hspelled) (head_ne_paren hspelled') htokens
    obtain ⟨rfl, rfl⟩ := sign_inj hcore
    obtain ⟨rfl, rfl, rfl, rfl⟩ := hspelled.unique hspelled'
    obtain ⟨ty, hexpr⟩ := constExpr_of_plain hspelled
      ⟨r, mark, digits, suffix, sfx, hs, hmark, hdigits, hsuffix, hrange, hminus⟩
    obtain ⟨hl, hh⟩ := plain_bounds hrange hminus
    exact ⟨⟨ty, constExpr_wrap.2 hexpr⟩, constantType_holds hl hh⟩

end body

/-- `(-0x10l)`, of a signed type. -/
theorem parse_integer_exact_hex :
    ((∃ ty, ConstExpr .long64 ["(", "-", "0x10l", ")"] ty (-16)) ∧ (constantType (-16)).Holds (-16) ↔
      PlainBody .long64 ["(", "-", "0x10l", ")"]) ∧
      visitMacro none ⟨"M".toList, false, ["M", "(", "-", "0x10l", ")"]⟩ = .ok (some ⟨"M".toList, .CInt, -16⟩) := by
  have hexact := parse_integer_exact .long64 none ["(", "-", "0x10l", ")"] (-16) (by decide +kernel)
  exact ⟨hexact.1, hexact.2 ⟨"M".toList, false, ["M", "(", "-", "0x10l", ")"]⟩ rfl⟩

/-- `-1u` is 4294967295. -/
theorem parse_integer_minus_unsigned :
    ¬∀ (m : DataModel) (limit : Option Nat) (tokens : List String) (v : Int),
      parseIntegerLiteral limit tokens = .ok (some v) → (∃ ty, ConstExpr m tokens ty v) ∧
      (constantType v).Holds v := by
  intro h
  obtain ⟨⟨ty, hexpr⟩, -⟩ := h .long64 none ["-", "1u"] (-1) (by decide +kernel)
  obtain ⟨u, hu, hv⟩ := hexpr.of_minus
  obtain ⟨n, hconst, rfl⟩ := hu.of_constant
  have hspelled : Spelled .decimal "1u".toList [] ['1'] ['u'] := by
    refine ⟨rfl, by decide, fun c hc => ?_, fun _ => by decide, fun c hc => ?_⟩
    · rw [List.mem_singleton.1 hc]
      decide
    · rw [List.mem_singleton.1 hc]
      decide
  obtain ⟨-, -, sfx, hsuffix, hty⟩ := constant_value hspelled hconst
  have hunsigned : ∀ unsigned long, ['u'] ∈ Suffix.spellings ⟨unsigned, long⟩ → unsigned = true := by
    intro unsigned long
    cases unsigned <;> cases long <;> decide
  have hsigned : ty.signed = false := (typeOf_signed_iff hty).2 (.inl (hunsigned sfx.unsigned sfx.long hsuffix))
  rw [hsigned, if_neg Bool.false_ne_true] at hv
  have hwrap := Int.emod_nonneg (-n : Int) (b := 2 ^ ty.bits .long64) (Int.pow_ne_zero (by decide))
  omega

end Sppc.Bindings
