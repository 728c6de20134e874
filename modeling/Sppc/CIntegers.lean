import Mathlib.Algebra.Group.Int.Defs
import Mathlib.Algebra.Group.Nat.Defs
import Mathlib.Data.List.Infix
import Mathlib.Order.Basic

/-!
# Integer constants of C

How an integer constant is spelled, its value and its type, where `int` has 32 bits and `long long` 64, and the
expressions of constants, signs and parentheses.
-/

namespace CIntegers

/-- Whether `long` has 32 bits or 64. -/
inductive DataModel
  | long32 | long64
  deriving DecidableEq, Repr

inductive IntType
  | int | uint | long | ulong | llong | ullong
  deriving DecidableEq, Repr

namespace IntType

def signed : IntType → Bool
  | int | long | llong => true
  | uint | ulong | ullong => false

def bits (m : DataModel) : IntType → Nat
  | int | uint => 32
  | long | ulong => if m = .long32 then 32 else 64
  | llong | ullong => 64

/-- The value is one of the type. -/
def Holds (m : DataModel) (ty : IntType) (v : Int) : Prop :=
  if ty.signed then -2 ^ (ty.bits m - 1) ≤ v ∧ v < 2 ^ (ty.bits m - 1) else 0 ≤ v ∧ v < 2 ^ ty.bits m

instance (m : DataModel) (ty : IntType) (v : Int) : Decidable (ty.Holds m v) := by
  unfold Holds
  infer_instance

end IntType

/-! ### Digits -/

inductive Radix
  | decimal | octal | hexadecimal | binary
  deriving DecidableEq, Repr

/-- What separates digits. -/
def separator : Char := Char.ofNat 39

namespace Radix

def base : Radix → Nat
  | decimal => 10
  | octal => 8
  | hexadecimal => 16
  | binary => 2

/-- What a constant of the radix starts with, before its digits. -/
def marks : Radix → List (List Char)
  | decimal | octal => [[]]
  | hexadecimal => [['0', 'x'], ['0', 'X']]
  | binary => [['0', 'b'], ['0', 'B']]

def isDigit (r : Radix) (c : Char) : Bool :=
  match r with
  | decimal => '0' ≤ c ∧ c ≤ '9'
  | octal => '0' ≤ c ∧ c ≤ '7'
  | hexadecimal => ('0' ≤ c ∧ c ≤ '9') ∨ ('a' ≤ c ∧ c ≤ 'f') ∨ ('A' ≤ c ∧ c ≤ 'F')
  | binary => c = '0' ∨ c = '1'

/-- The first digit tells an octal constant from a decimal one. -/
def isFirst (r : Radix) (c : Char) : Bool :=
  match r with
  | decimal => '1' ≤ c ∧ c ≤ '9'
  | octal => c = '0'
  | hexadecimal | binary => r.isDigit c

/-- A digit or a separator. -/
def isRun (r : Radix) (c : Char) : Bool := r.isDigit c || c = separator

end Radix

/-- The digits of a constant, with separators between some of them. -/
inductive DigitSeq (r : Radix) : List Char → Prop
  | first {c : Char} (hc : r.isFirst c) : DigitSeq r [c]
  | next {s : List Char} {c : Char} (hs : DigitSeq r s) (hc : r.isDigit c) : DigitSeq r (s ++ [c])
  | separated {s : List Char} {c : Char} (hs : DigitSeq r s) (hc : r.isDigit c) : DigitSeq r (s ++ [separator, c])

def digitValue (c : Char) : Nat :=
  if c ≤ '9' then c.toNat - 48 else if c ≤ 'F' then c.toNat - 55 else c.toNat - 87

/-- The number that digits stand for. -/
def ofDigits (base : Nat) (digits : List Char) : Nat := digits.foldl (fun v c => base * v + digitValue c) 0

def withoutSeparators (s : List Char) : List Char := s.filter (· ≠ separator)

/-! ### Constants -/

inductive LongSuffix
  | absent | l | ll
  deriving DecidableEq, Repr

structure Suffix where
  unsigned : Bool
  long : LongSuffix
  deriving DecidableEq, Repr

def LongSuffix.spellings : LongSuffix → List (List Char)
  | absent => [[]]
  | l => [['l'], ['L']]
  | ll => [['l', 'l'], ['L', 'L']]

def Suffix.spellings (sfx : Suffix) : List (List Char) :=
  if sfx.unsigned then sfx.long.spellings.flatMap fun s => ['u' :: s, 'U' :: s, s ++ ['u'], s ++ ['U']]
  else sfx.long.spellings

/-- The types a constant can have: it has the first that holds its value. -/
def candidates (r : Radix) (sfx : Suffix) : List IntType :=
  match sfx.unsigned, sfx.long with
  | false, .absent => if r = .decimal then [.int, .long, .llong] else [.int, .uint, .long, .ulong, .llong, .ullong]
  | false, .l => if r = .decimal then [.long, .llong] else [.long, .ulong, .llong, .ullong]
  | false, .ll => if r = .decimal then [.llong] else [.llong, .ullong]
  | true, .absent => [.uint, .ulong, .ullong]
  | true, .l => [.ulong, .ullong]
  | true, .ll => [.ullong]

def typeOf (m : DataModel) (r : Radix) (sfx : Suffix) (n : Nat) : Option IntType :=
  (candidates r sfx).find? fun ty => ty.Holds m n

/-- The characters are a constant of this type and value. -/
def IntegerConstant (m : DataModel) (s : List Char) (ty : IntType) (n : Nat) : Prop :=
  ∃ r mark digits suffix sfx, s = mark ++ digits ++ suffix ∧ mark ∈ Radix.marks r ∧ DigitSeq r digits ∧
    suffix ∈ Suffix.spellings sfx ∧ n = ofDigits r.base (withoutSeparators digits) ∧ typeOf m r sfx n = some ty

/-- The tokens are an expression of this type and value. -/
inductive ConstExpr (m : DataModel) : List String → IntType → Int → Prop
  | constant {t : String} {ty : IntType} {n : Nat} (h : IntegerConstant m t.toList ty n) : ConstExpr m [t] ty n
  | paren {ts : List String} {ty : IntType} {v : Int} (h : ConstExpr m ts ty v) :
    ConstExpr m ("(" :: (ts ++ [")"])) ty v
  | plus {ts : List String} {ty : IntType} {v : Int} (h : ConstExpr m ts ty v) : ConstExpr m ("+" :: ts) ty v
  | minus {ts : List String} {ty : IntType} {v : Int} (h : ConstExpr m ts ty v) (hty : ty.signed = true)
    (hv : ty.Holds m (-v)) : ConstExpr m ("-" :: ts) ty (-v)
  -- an unsigned value wraps
  | minusUnsigned {ts : List String} {ty : IntType} {v : Int} (h : ConstExpr m ts ty v) (hty : ty.signed = false) :
    ConstExpr m ("-" :: ts) ty (-v % 2 ^ ty.bits m)

section type

variable {m : DataModel} {r : Radix} {sfx : Suffix} {n : Nat} {ty : IntType}

/-- Whether a constant has a type. -/
def InRange (r : Radix) (sfx : Suffix) (n : Nat) : Prop :=
  n < 2 ^ 63 ∨ n < 2 ^ 64 ∧ (sfx.unsigned = true ∨ r ≠ .decimal)

/-- Whether the type of a constant is unsigned. -/
def IsUnsigned (m : DataModel) (r : Radix) (sfx : Suffix) (n : Nat) : Prop :=
  sfx.unsigned = true ∨ r ≠ .decimal ∧ (2 ^ 63 ≤ n ∨ 2 ^ 31 ≤ n ∧ n < 2 ^ 32 ∧
    (sfx.long = .absent ∨ sfx.long = .l ∧ m = .long32))

/-- What is above the values of the type. -/
def IntType.limit (m : DataModel) (ty : IntType) : Nat := 2 ^ (if ty.signed then ty.bits m - 1 else ty.bits m)

private theorem IntType.holds_iff (ty : IntType) : ty.Holds m n ↔ n < ty.limit m := by
  unfold Holds limit
  split
  · have hneg : -2 ^ (ty.bits m - 1) ≤ (n : Int) := by
      have hpos : (0 : Int) < 2 ^ (ty.bits m - 1) := Int.pow_pos (by decide)
      omega
    rw [and_iff_right hneg]
    exact_mod_cast Iff.rfl
  · rw [and_iff_right (Int.natCast_nonneg n)]
    exact_mod_cast Iff.rfl

/-- A minus does not overflow on a constant. -/
theorem IntType.holds_neg (hty : ty.signed = true) (h : ty.Holds m n) : ty.Holds m (-n) := by
  unfold Holds at *
  rw [if_pos hty] at *
  have hpos : (0 : Int) < 2 ^ (ty.bits m - 1) := Int.pow_pos (by decide)
  omega

private theorem IntType.limit_long (m : DataModel) : long.limit m = if m = .long32 then 2 ^ 31 else 2 ^ 63 := by
  cases m <;> rfl

private theorem IntType.limit_ulong (m : DataModel) : ulong.limit m = if m = .long32 then 2 ^ 32 else 2 ^ 64 := by
  cases m <;> rfl

theorem typeOf_isSome_iff : (typeOf m r sfx n).isSome ↔ InRange r sfx n := by
  have hint : IntType.int.limit m = 2 ^ 31 := rfl
  have huint : IntType.uint.limit m = 2 ^ 32 := rfl
  have hllong : IntType.llong.limit m = 2 ^ 63 := rfl
  have hullong : IntType.ullong.limit m = 2 ^ 64 := rfl
  obtain ⟨unsigned, long⟩ := sfx
  unfold typeOf candidates InRange
  simp only [IntType.holds_iff, List.find?_isSome, decide_eq_true_eq]
  by_cases hr : r = .decimal <;> cases unsigned <;> cases long <;> cases m <;>
    simp [hr, hint, huint, hllong, hullong, IntType.limit_long, IntType.limit_ulong] <;> omega

/-! ### The sign of the type -/

private theorem candidates_unsigned (h : sfx.unsigned = true) (hty : ty ∈ candidates r sfx) : ty.signed = false := by
  have hall : ∀ long, ∀ ty ∈ candidates r ⟨true, long⟩, ty.signed = false := by
    intro long
    cases long <;> simp [candidates, IntType.signed]
  obtain ⟨unsigned, long⟩ := sfx
  cases h
  exact hall long ty hty

private theorem candidates_decimal (h : sfx.unsigned = false) (hty : ty ∈ candidates .decimal sfx) :
    ty.signed = true := by
  have hall : ∀ long, ∀ ty ∈ candidates .decimal ⟨false, long⟩, ty.signed = true := by
    intro long
    cases long <;> simp [candidates, IntType.signed]
  obtain ⟨unsigned, long⟩ := sfx
  cases h
  exact hall long ty hty

private theorem find?_cons_if (p : IntType → Prop) [DecidablePred p] (ty : IntType) (l : List IntType) :
    (ty :: l).find? (fun ty => p ty) = if p ty then some ty else l.find? fun ty => p ty := by
  rw [List.find?_cons]
  split
  · rename_i hp
    rw [if_pos (of_decide_eq_true hp)]
  · rename_i hp
    rw [if_neg (of_decide_eq_false hp)]

/-- Not in decimal, signed types and unsigned ones take turns. -/
private theorem signed_iff_of_not_decimal (hr : r ≠ .decimal) (hu : sfx.unsigned = false)
    (h : typeOf m r sfx n = some ty) : ty.signed = false ↔ 2 ^ 63 ≤ n ∨ 2 ^ 31 ≤ n ∧ n < 2 ^ 32 ∧
    (sfx.long = .absent ∨ sfx.long = .l ∧ m = .long32) := by
  have hint : IntType.int.limit m = 2 ^ 31 := rfl
  have huint : IntType.uint.limit m = 2 ^ 32 := rfl
  have hllong : IntType.llong.limit m = 2 ^ 63 := rfl
  have hullong : IntType.ullong.limit m = 2 ^ 64 := rfl
  obtain ⟨unsigned, long⟩ := sfx
  cases hu
  unfold typeOf at h
  simp only [IntType.holds_iff] at h
  cases m <;> cases long <;>
    simp only [candidates, if_neg hr, find?_cons_if, hint, huint, hllong, hullong, IntType.limit_long,
      IntType.limit_ulong, reduceCtorEq, ↓reduceIte] at h <;>
    split_ifs at h <;> cases h <;> simp [IntType.signed] <;> omega

theorem typeOf_signed_iff (h : typeOf m r sfx n = some ty) : ty.signed = false ↔ IsUnsigned m r sfx n := by
  have hty := List.mem_of_find?_eq_some h
  unfold IsUnsigned
  cases hu : sfx.unsigned with
  | true => simp [candidates_unsigned hu hty]
  | false =>
    by_cases hr : r = .decimal
    · subst hr
      simp [candidates_decimal hu hty]
    · rw [signed_iff_of_not_decimal hr hu h]
      simp [hr]

theorem typeOf_holds (h : typeOf m r sfx n = some ty) : ty.Holds m n := by
  simpa using List.find?_some h

end type

section expr

variable {m : DataModel} {ts : List String} {t : String} {ty : IntType} {v : Int}

private theorem ConstExpr.ne_nil (h : ConstExpr m ts ty v) : ts ≠ [] := by
  cases h <;> exact List.cons_ne_nil _ _

theorem ConstExpr.of_paren (h : ConstExpr m ("(" :: (ts ++ [")"])) ty v) : ConstExpr m ts ty v := by
  generalize hts : "(" :: (ts ++ [")"]) = ts' at h
  cases h with
  | constant h =>
    obtain ⟨-, hnil⟩ := List.cons.inj hts
    exact absurd hnil (List.append_ne_nil_of_right_ne_nil ts (List.cons_ne_nil _ _))
  | paren h =>
    obtain ⟨-, htail⟩ := List.cons.inj hts
    rwa [List.append_cancel_right htail]
  | plus h => exact absurd (List.cons.inj hts).1 (by decide)
  | minus h => exact absurd (List.cons.inj hts).1 (by decide)
  | minusUnsigned h => exact absurd (List.cons.inj hts).1 (by decide)

theorem ConstExpr.of_constant (h : ConstExpr m [t] ty v) : ∃ n : Nat, IntegerConstant m t.toList ty n ∧ v = n := by
  generalize hts : [t] = ts at h
  cases h with
  | constant h =>
    cases hts
    exact ⟨_, h, rfl⟩
  | paren h =>
    obtain ⟨-, hnil⟩ := List.cons.inj hts
    exact absurd hnil.symm (List.append_ne_nil_of_right_ne_nil _ (List.cons_ne_nil _ _))
  | plus h => exact absurd (List.cons.inj hts).2.symm h.ne_nil
  | minus h => exact absurd (List.cons.inj hts).2.symm h.ne_nil
  | minusUnsigned h => exact absurd (List.cons.inj hts).2.symm h.ne_nil

theorem ConstExpr.of_plus (h : ConstExpr m ["+", t] ty v) : ConstExpr m [t] ty v := by
  generalize hts : ["+", t] = ts at h
  cases h with
  | constant h => cases hts
  | paren h => exact absurd (List.cons.inj hts).1 (by decide)
  | plus h =>
    cases hts
    exact h
  | minus h => exact absurd (List.cons.inj hts).1 (by decide)
  | minusUnsigned h => exact absurd (List.cons.inj hts).1 (by decide)

theorem ConstExpr.of_minus (h : ConstExpr m ["-", t] ty v) :
    ∃ u, ConstExpr m [t] ty u ∧ v = if ty.signed then -u else -u % 2 ^ ty.bits m := by
  generalize hts : ["-", t] = ts at h
  cases h with
  | constant h => cases hts
  | paren h => exact absurd (List.cons.inj hts).1 (by decide)
  | plus h => exact absurd (List.cons.inj hts).1 (by decide)
  | minus h hty =>
    cases hts
    exact ⟨_, h, (if_pos hty).symm⟩
  | minusUnsigned h hty =>
    cases hts
    exact ⟨_, h, (if_neg (Bool.eq_false_iff.1 hty)).symm⟩

end expr

/-! ### One spelling -/

/-- How a constant is spelled, but for the places of its separators and the order of its suffix. -/
structure Spelled (r : Radix) (s mark digits suffix : List Char) : Prop where
  spelling : s = mark ++ digits ++ suffix
  mark_mem : mark ∈ r.marks
  runs : ∀ c ∈ digits, r.isRun c
  starts : mark = [] → digits.head?.any r.isFirst
  suffixes : ∀ c ∈ suffix, c ∈ ['u', 'U', 'l', 'L']

section spelled

variable {r r' : Radix} {s mark digits suffix mark' digits' suffix' : List Char}

/-- The radix and its mark, from how a constant starts. -/
def radixOf (s : List Char) : Radix × List Char :=
  if s.head? ≠ some '0' then (.decimal, [])
  else if s[1]? = some 'x' ∨ s[1]? = some 'X' then (.hexadecimal, s.take 2)
  else if s[1]? = some 'b' ∨ s[1]? = some 'B' then (.binary, s.take 2)
  else (.octal, [])

private theorem not_isRun_suffix (r : Radix) {c : Char} (hc : c ∈ ['u', 'U', 'l', 'L']) : r.isRun c = false := by
  simp only [List.mem_cons, List.not_mem_nil, or_false] at hc
  rcases hc with rfl | rfl | rfl | rfl <;> cases r <;> rfl

/-- A constant without a mark does not look as if it had one. -/
private theorem notMem_marks_of_octal {c : Char} (h : Radix.octal.isRun c ∨ c ∈ ['u', 'U', 'l', 'L']) :
    c ∉ ['x', 'X', 'b', 'B'] := by
  intro hc
  simp only [List.mem_cons, List.not_mem_nil, or_false] at hc
  rcases hc with rfl | rfl | rfl | rfl <;> simp [Radix.isRun, Radix.isDigit, separator] at h

theorem Spelled.radixOf_eq (h : Spelled r s mark digits suffix) : radixOf s = (r, mark) := by
  obtain ⟨rfl, hmark, hruns, hstarts, hsuffixes⟩ := h
  cases r with
  | decimal =>
    cases List.mem_singleton.1 hmark
    cases digits with
    | nil => exact absurd (hstarts rfl) (by simp)
    | cons c digits =>
      have hc : c ≠ '0' := by
        rintro rfl
        have hzero : Radix.decimal.isFirst '0' = false := by decide
        simp [hzero] at hstarts
      simp [radixOf, hc]
  | octal =>
    cases List.mem_singleton.1 hmark
    cases digits with
    | nil => exact absurd (hstarts rfl) (by simp)
    | cons c digits =>
      have hc : c = '0' := by simpa [Radix.isFirst] using hstarts rfl
      have hrest : ∀ d ∈ digits ++ suffix, d ∉ ['x', 'X', 'b', 'B'] := by
        intro d hd
        rcases List.mem_append.1 hd with hd | hd
        · exact notMem_marks_of_octal (.inl (hruns d (List.mem_cons_of_mem c hd)))
        · exact notMem_marks_of_octal (.inr (hsuffixes d hd))
      have hnone : ∀ d ∈ ['x', 'X', 'b', 'B'], (digits ++ suffix)[0]? ≠ some d :=
        fun d hd hget => hrest d (List.mem_of_getElem? hget) hd
      have hx := hnone 'x' (by decide)
      have hX := hnone 'X' (by decide)
      have hb := hnone 'b' (by decide)
      have hB := hnone 'B' (by decide)
      simp [radixOf, hc, hx, hX, hb, hB]
  | hexadecimal =>
    rcases List.mem_pair.1 hmark with rfl | rfl <;> simp [radixOf]
  | binary =>
    rcases List.mem_pair.1 hmark with rfl | rfl <;> simp [radixOf]

/-- What is before the suffix is the longest run of digits. -/
private theorem Spelled.takeWhile_eq (h : Spelled r s mark digits suffix) :
    (digits ++ suffix).takeWhile r.isRun = digits := by
  have hsuffix : suffix.takeWhile r.isRun = [] := by
    cases suffix with
    | nil => rfl
    | cons c suffix =>
      rw [List.takeWhile_cons, not_isRun_suffix r (h.suffixes c List.mem_cons_self)]
      rfl
  rw [List.takeWhile_append_of_pos h.runs, hsuffix, List.append_nil]

theorem Spelled.unique (h : Spelled r s mark digits suffix) (h' : Spelled r' s mark' digits' suffix') :
    r = r' ∧ mark = mark' ∧ digits = digits' ∧ suffix = suffix' := by
  obtain ⟨rfl, rfl⟩ := Prod.mk.inj (h.radixOf_eq.symm.trans h'.radixOf_eq)
  have htail : digits ++ suffix = digits' ++ suffix' := by
    have heq := h.spelling.symm.trans h'.spelling
    rwa [List.append_assoc, List.append_assoc, List.append_cancel_left_eq] at heq
  have hdigits : digits = digits' := by
    rw [← h.takeWhile_eq, htail, h'.takeWhile_eq]
  subst hdigits
  exact ⟨rfl, rfl, rfl, List.append_cancel_left htail⟩

theorem Radix.isRun_of_isFirst {c : Char} (hc : r.isFirst c) : r.isRun c := by
  have hdigit : r.isDigit c := by
    cases r with
    | decimal =>
      simp only [isFirst, isDigit, decide_eq_true_eq] at hc ⊢
      exact ⟨Char.le_trans (by decide) hc.1, hc.2⟩
    | octal =>
      rw [show c = '0' by simpa [isFirst] using hc]
      decide
    | hexadecimal => exact hc
    | binary => exact hc
  simp [isRun, hdigit]

private theorem DigitSeq.spelled (h : DigitSeq r s) : (∀ c ∈ s, r.isRun c) ∧ s.head?.any r.isFirst := by
  have happend {s t : List Char} (hs : (∀ c ∈ s, r.isRun c) ∧ s.head?.any r.isFirst) (ht : ∀ c ∈ t, r.isRun c) :
      (∀ c ∈ s ++ t, r.isRun c) ∧ (s ++ t).head?.any r.isFirst := by
    obtain ⟨hruns, hhead⟩ := hs
    refine ⟨fun c hc => (List.mem_append.1 hc).elim (hruns c) (ht c), ?_⟩
    rw [List.head?_append_of_ne_nil]
    · exact hhead
    · rintro rfl
      cases hhead
  induction h with
  | first hc => exact ⟨by simpa using Radix.isRun_of_isFirst hc, by simpa using hc⟩
  | next hs hc ih => exact happend ih (by simp [Radix.isRun, hc])
  | separated hs hc ih => exact happend ih (by simp [Radix.isRun, hc])

private theorem Suffix.spelled (sfx : Suffix) (h : suffix ∈ sfx.spellings) :
    ∀ c ∈ suffix, c ∈ ['u', 'U', 'l', 'L'] := by
  have hall : ∀ unsigned long, ∀ suffix ∈ Suffix.spellings ⟨unsigned, long⟩, ∀ c ∈ suffix,
      c ∈ ['u', 'U', 'l', 'L'] := by
    intro unsigned long
    cases unsigned <;> cases long <;> simp [Suffix.spellings, LongSuffix.spellings]
  exact hall sfx.unsigned sfx.long suffix h

theorem DigitSeq.spelled_constant {sfx : Suffix} (hs : s = mark ++ digits ++ suffix) (hmark : mark ∈ r.marks)
    (hdigits : DigitSeq r digits) (hsuffix : suffix ∈ sfx.spellings) : Spelled r s mark digits suffix :=
  ⟨hs, hmark, hdigits.spelled.1, fun _ => hdigits.spelled.2, sfx.spelled hsuffix⟩

end spelled

end CIntegers
