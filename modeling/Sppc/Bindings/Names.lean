import Sppc.Renaming

/-!
# The names of the bindings (`tools/main.py`)

The names that the generator gives to the parameters of a C function and to the fields of a C record.  A name is a
list of characters, and what Python's `str` says of them is a parameter.
-/

namespace Sppc.Bindings

open Renaming

abbrev Name := List Char

instance lawfulBEqName : LawfulBEq Name := inferInstance

/-- `str`: `islower`, `isalpha` and `upper` of one character, and `lower`, for which its neighbours matter.  In ASCII
they are as one knows them. -/
class Unicode where
  isLower : Char → Bool
  isAlpha : Char → Bool
  upper : Char → Name
  lower : Name → Name
  isLower_ascii : ∀ c, c.toNat < 128 → isLower c = c.isLower
  isAlpha_ascii : ∀ c, c.toNat < 128 → isAlpha c = c.isAlpha
  upper_ascii : ∀ c, c.toNat < 128 → upper c = [c.toUpper]
  lower_ascii : ∀ name, (∀ c ∈ name, c.toNat < 128) → lower name = name.map Char.toLower

/-- `str` for ASCII alone. -/
@[reducible] def Unicode.ascii : Unicode where
  isLower := Char.isLower
  isAlpha := Char.isAlpha
  upper c := [c.toUpper]
  lower name := name.map Char.toLower
  isLower_ascii _ _ := rfl
  isAlpha_ascii _ _ := rfl
  upper_ascii _ _ := rfl
  lower_ascii _ _ := rfl

def SPP_KEYWORDS : List Name :=
  ["and", "as", "async", "await", "caps", "case", "cls", "cmp", "cor", "defer", "else", "exit", "ext", "false",
    "fun", "gen", "in", "is", "let", "loop", "mut", "not", "of", "or", "res", "ret", "self", "skip", "sup", "to",
    "true", "type", "use", "with"].map String.toList

/-- `sanitize`. -/
def sanitize (name : Name) : Name := if name ∈ SPP_KEYWORDS then name ++ ['_'] else name

/-- `strip_leading_underscores`. -/
def stripLeadingUnderscores (name : Name) : Name := name.dropWhile (· = '_')

/-- `lowercase_start`. -/
def lowercaseStart [Unicode] (name : Name) : Name :=
  let name := stripLeadingUnderscores name
  let name := if name.head?.any Unicode.isLower then name else Unicode.lower name
  if name.head?.any Unicode.isAlpha then name else []

/-- `os.path.commonprefix` of two names. -/
def commonprefix : Name → Name → Name
  | a :: as, b :: bs => if a = b then a :: commonprefix as bs else []
  | _, _ => []

/-- `common_field_prefix`. -/
def commonFieldPrefix : List Name → Name
  | [] | [_] => []
  | name :: names =>
    -- up to the last underscore, with it
    let shared := ((names.foldl commonprefix name).reverse.dropWhile (· ≠ '_')).reverse
    if shared ≠ [] ∧ ∀ n ∈ name :: names, shared.length < n.length then shared else []

/-- `f"{name}{i}"`. -/
def numbered (name : Name) (i : Nat) : Name := name ++ Nat.toDigits 10 i

/-- `name or fallback`. -/
def orElse (name fallback : Name) : Name := if name = [] then fallback else name

/-! ### Functions -/

/-- The name of a parameter before it is told apart from the others. -/
def paramBase [Unicode] (i : Nat) (spelling : Name) : Name :=
  sanitize (orElse (lowercaseStart spelling) (numbered "arg".toList i))

/-- `Unsupported`, with its message. -/
abbrev Unsupported := String

/-- What a function is declared with: a prototype, a variadic one, or none. -/
inductive Prototype
  | proto | variadic | none
  deriving DecidableEq, Repr

/-- The prototype that is written for a C function. -/
structure FfiFunction where
  symbol : Name
  sppName : Name
  params : List (Name × Name)
  ret : Name
  deriving DecidableEq, Repr

/-- `_render_function`: `ret` and the second part of an argument are what `map_type` makes of its type. -/
def renderFunction [Unicode] (symbol sppName : Name) (noreturn : Bool) (ret : Except Unsupported Name)
    (args : List (Name × Except Unsupported Name)) (prototype : Prototype) : Except Unsupported FfiFunction :=
  (if noreturn then .ok "!".toList else ret).bind fun ret =>
    (args.mapM Prod.snd).bind fun types =>
      let names := distinguish numbered (args.mapIdx fun i arg => paramBase i arg.1)
      if prototype = .variadic then .error "it is variadic; bind each prototype it is called with by hand"
      else .ok ⟨symbol, sppName, names.zip types, ret⟩

/-! ### Records -/

/-- A field of a class: `type` is what is written for its type. -/
structure SppField (τ : Type) where
  isPrivate : Bool
  name : Name
  type : τ
  deriving DecidableEq, Repr

/-- The body of a class: its fields, or a stand-in of `count` numbers of `unit` bytes, for a reason. -/
inductive ClsBody (τ : Type)
  | listed (fields : List (SppField τ))
  | standIn (reason : String) (unit count : Nat)
  deriving DecidableEq, Repr

/-- Whether C means a field to be left alone: its name starts with an underscore. -/
def isReserved (spelling : Name) : Bool := spelling.head? = some '_'

/-- What all fields of a record have in front (`strip`). -/
def fieldPrefix (spellings : List Name) : Name :=
  let names := spellings.map stripLeadingUnderscores
  let isPublic := (spellings.filter fun spelling => !isReserved spelling).map stripLeadingUnderscores
  commonFieldPrefix (if 2 ≤ isPublic.length then isPublic else names)

/-- The name of a field before it is told apart from the others. -/
def fieldBase [Unicode] (strip : Name) (i : Nat) (spelling : Name) : Name :=
  let name := stripLeadingUnderscores spelling
  let name := if strip.isPrefixOf name then name.drop strip.length else name
  sanitize (orElse (lowercaseStart name) (numbered "field".toList i))

/-- The names of the fields of a record before they are told apart. -/
def fieldBases [Unicode] (spellings : List Name) : List Name :=
  spellings.mapIdx fun i => fieldBase (fieldPrefix spellings) i

/-- The fields of `_render_record`, or the reason there are none: what is given with each field is what stands for its
type, or why nothing does. -/
def renderFields [Unicode] {τ : Type} (fields : List (Name × Except String τ)) : Except String (List (SppField τ)) :=
  (fields.mapM Prod.snd).map fun types =>
    let names := distinguish numbered (fieldBases (fields.map (·.1)))
    (fields.zip (names.zip types)).map fun f => ⟨isReserved f.1.1, f.2.1, f.2.2⟩

/-- `_render_record` of a complete record. -/
def renderRecord [Unicode] {τ : Type} (isUnion : Bool) (size align : Nat)
    (fields : List (Name × Except String τ)) : ClsBody τ :=
  let unit := min align 8
  if isUnion then .standIn "it is a union" unit (size / unit)
  else
    match renderFields fields with
    | .ok fields => .listed fields
    | .error reason => .standIn reason unit (size / unit)

/-- The names of the fields that a class has. -/
def ClsBody.names {τ : Type} : ClsBody τ → List Name
  | .listed fields => fields.map (·.name)
  | .standIn .. => ["bytes".toList]

/-! ### What the names are to be -/

/-- A name that S++ takes for a parameter or a field. -/
structure NameOk [Unicode] (name : Name) : Prop where
  nonempty : name ≠ []
  letter : name.head?.any Unicode.isAlpha
  keyword : name ∉ SPP_KEYWORDS

/-- The names are distinct, and each is a name. -/
def NamesOk [Unicode] (names : List Name) : Prop := names.Nodup ∧ ∀ name ∈ names, NameOk name

instance [Unicode] (name : Name) : Decidable (NameOk name) :=
  decidable_of_iff (name ≠ [] ∧ name.head?.any Unicode.isAlpha ∧ name ∉ SPP_KEYWORDS)
    ⟨fun h => ⟨h.1, h.2.1, h.2.2⟩, fun h => ⟨h.1, h.2, h.3⟩⟩

variable {name strip : Name} {i : Nat} {τ : Type}

/-- No keyword ends in an underscore or a digit. -/
private theorem keyword_getLast? : ∀ k ∈ SPP_KEYWORDS, ∀ c ∈ k.getLast?, c ≠ '_' ∧ ¬c.isDigit := by
  have hall : (SPP_KEYWORDS.all fun k => k.getLast?.all fun c => c != '_' && !c.isDigit) = true := by decide +kernel
  intro k hk c hc
  have hlast := List.all_eq_true.1 hall k hk
  rw [Option.mem_def.1 hc, Option.all_some, Bool.and_eq_true, bne_iff_ne, Bool.not_eq_true'] at hlast
  exact ⟨hlast.1, Bool.eq_false_iff.1 hlast.2⟩

private theorem append_not_keyword {suffix : Name} (hne : suffix ≠ []) (hsuffix : ∀ c ∈ suffix, c = '_' ∨ c.isDigit) :
    name ++ suffix ∉ SPP_KEYWORDS := by
  intro hmem
  have hlast : (name ++ suffix).getLast? = some (suffix.getLast hne) := by
    rw [List.getLast?_append, List.getLast?_eq_getLast_of_ne_nil hne, Option.some_or]
  obtain ⟨hunderscore, hdigit⟩ := keyword_getLast? _ hmem _ hlast
  rcases hsuffix _ (List.getLast_mem hne) with h | h
  · exact hunderscore h
  · exact hdigit h

private theorem length_mapM {ε α β : Type} {f : α → Except ε β} {l : List α} {l' : List β} (h : l.mapM f = .ok l') :
    l'.length = l.length := by
  induction l generalizing l' with
  | nil =>
    cases h
    rfl
  | cons a l ih =>
    rw [List.mapM_cons] at h
    cases ha : f a with
    | error e =>
      rw [ha] at h
      cases h
    | ok b =>
      rw [ha] at h
      cases hl : l.mapM f with
      | error e =>
        rw [hl] at h
        cases h
      | ok bs =>
        rw [hl] at h
        cases h
        rw [List.length_cons, List.length_cons, ih hl]

private theorem mapM_eq_ok {ε α β : Type} {f : α → Except ε β} {l : List α} :
    (∃ l', l.mapM f = .ok l') ↔ ∀ a ∈ l, ∃ b, f a = .ok b := by
  induction l with
  | nil => exact iff_of_true ⟨[], rfl⟩ fun _ h => absurd h List.not_mem_nil
  | cons a l ih =>
    rw [List.forall_mem_cons, ← ih, List.mapM_cons]
    constructor
    · rintro ⟨l', h⟩
      cases ha : f a with
      | error e =>
        rw [ha] at h
        cases h
      | ok b =>
        rw [ha] at h
        cases hl : l.mapM f with
        | error e =>
          rw [hl] at h
          cases h
        | ok bs => exact ⟨⟨b, rfl⟩, bs, rfl⟩
    · rintro ⟨⟨b, hb⟩, bs, hbs⟩
      rw [hb, hbs]
      exact ⟨b :: bs, rfl⟩

variable [Unicode]

private theorem isAlpha_ascii {c : Char} (hc : c.toNat < 128) (halpha : c.isAlpha) : Unicode.isAlpha c :=
  (Unicode.isAlpha_ascii c hc).trans halpha

private theorem numbered_ok (hletter : name.head?.any Unicode.isAlpha) (i : Nat) : NameOk (numbered name i) := by
  obtain ⟨c, name, rfl⟩ : ∃ c rest, name = c :: rest := by
    cases name with
    | nil => exact absurd hletter Bool.false_ne_true
    | cons c name => exact ⟨c, name, rfl⟩
  refine ⟨List.cons_ne_nil _ _, hletter, append_not_keyword Nat.toDigits_ne_nil fun d hd => Or.inr ?_⟩
  exact Nat.isDigit_of_mem_toDigits (by decide) (by decide) hd

private theorem sanitize_ok (hletter : name.head?.any Unicode.isAlpha) : NameOk (sanitize name) := by
  obtain ⟨c, name, rfl⟩ : ∃ c rest, name = c :: rest := by
    cases name with
    | nil => exact absurd hletter Bool.false_ne_true
    | cons c name => exact ⟨c, name, rfl⟩
  unfold sanitize
  split
  · exact ⟨List.cons_ne_nil _ _, hletter, append_not_keyword (List.cons_ne_nil _ _) fun d hd =>
      Or.inl (List.mem_singleton.1 hd)⟩
  · rename_i hkeyword
    exact ⟨List.cons_ne_nil _ _, hletter, hkeyword⟩

/-- A name starts with a letter, or is empty. -/
private theorem lowercaseStart_letter (h : lowercaseStart name ≠ []) :
    (lowercaseStart name).head?.any Unicode.isAlpha := by
  have hself : ∀ n : Name, (if n.head?.any Unicode.isAlpha then n else []) ≠ [] →
      (if n.head?.any Unicode.isAlpha then n else []).head?.any Unicode.isAlpha := by
    intro n hne
    by_cases hletter : n.head?.any Unicode.isAlpha
    · rw [if_pos hletter]
      exact hletter
    · rw [if_neg hletter] at hne
      exact absurd rfl hne
  exact hself _ h

/-- What stands for a name, or in its place, is a name. -/
private theorem base_ok {fallback : Name} (hfallback : fallback.head?.any Unicode.isAlpha) (name : Name) (i : Nat) :
    NameOk (sanitize (orElse (lowercaseStart name) (numbered fallback i))) := by
  apply sanitize_ok
  unfold orElse
  split
  · exact (numbered_ok hfallback i).letter
  · rename_i hne
    exact lowercaseStart_letter hne

/-- Names that are names stay so when they are told apart, and are distinct exactly if none that is repeated is there
already with its place. -/
private theorem namesOk_distinguish {bs : List Name} (hbs : ∀ b ∈ bs, NameOk b) :
    NamesOk (distinguish numbered bs) ↔ Apart numbered bs := by
  have hall : ∀ b ∈ distinguish numbered bs, NameOk b :=
    forall_distinguish hbs fun b i hb => numbered_ok hb.letter i
  rw [NamesOk, nodup_distinguish]
  exact and_iff_left hall

/-- The parameters of a function have the names of its arguments, told apart. -/
private theorem renderFunction_names {symbol sppName : Name} {noreturn : Bool} {ret : Except Unsupported Name}
    {args : List (Name × Except Unsupported Name)} {prototype : Prototype} {f : FfiFunction}
    (h : renderFunction symbol sppName noreturn ret args prototype = .ok f) :
    f.params.map (·.1) = distinguish numbered (args.mapIdx fun i arg => paramBase i arg.1) := by
  unfold renderFunction at h
  cases hret : (if noreturn then .ok "!".toList else ret : Except Unsupported Name) with
  | error e =>
    rw [hret] at h
    cases h
  | ok r =>
    rw [hret, Except.bind] at h
    cases htypes : args.mapM Prod.snd with
    | error e =>
      rw [htypes] at h
      cases h
    | ok types =>
      rw [htypes, Except.bind] at h
      by_cases hvariadic : prototype = .variadic
      · rw [if_pos hvariadic] at h
        cases h
      · rw [if_neg hvariadic, Except.ok.injEq] at h
        rw [← h]
        apply List.map_fst_zip
        have hlength := length_mapM htypes
        rw [length_distinguish, List.length_mapIdx]
        omega

private theorem renderFields_names {fields : List (Name × Except String τ)} {fs : List (SppField τ)}
    (h : renderFields fields = .ok fs) :
    fs.map (·.name) = distinguish numbered (fieldBases (fields.map (·.1))) := by
  unfold renderFields at h
  cases htypes : fields.mapM Prod.snd with
  | error e =>
    rw [htypes] at h
    cases h
  | ok types =>
    rw [htypes, Except.map, Except.ok.injEq] at h
    have hlength := length_mapM htypes
    have hnames : (distinguish numbered (fieldBases (fields.map (·.1)))).length = fields.length := by
      rw [length_distinguish, fieldBases, List.length_mapIdx, List.length_map]
    rw [← h, List.map_map]
    show (fields.zip ((distinguish numbered (fieldBases (fields.map (·.1)))).zip types)).map (Prod.fst ∘ Prod.snd) = _
    rw [← List.map_map, List.map_snd_zip, List.map_fst_zip]
    · omega
    · rw [List.length_zip]
      omega

/-- The types of the fields are those that were given with them. -/
theorem renderFields_types {fields : List (Name × Except String τ)} {fs : List (SppField τ)}
    (h : renderFields fields = .ok fs) : fields.mapM Prod.snd = .ok (fs.map SppField.type) := by
  unfold renderFields at h
  cases htypes : fields.mapM Prod.snd with
  | error e =>
    rw [htypes] at h
    cases h
  | ok types =>
    rw [htypes, Except.map, Except.ok.injEq] at h
    have hlength := length_mapM htypes
    have hnames : (distinguish numbered (fieldBases (fields.map (·.1)))).length = fields.length := by
      rw [length_distinguish, fieldBases, List.length_mapIdx, List.length_map]
    rw [← h, List.map_map]
    have htail : (fields.zip ((distinguish numbered (fieldBases (fields.map (·.1)))).zip types)).map
      (Prod.snd ∘ Prod.snd) =
        types := by
      rw [← List.map_map, List.map_snd_zip, List.map_snd_zip]
      · omega
      · rw [List.length_zip]
        omega
    exact congrArg Except.ok htail.symm

/-- The names of the parameters are names, and distinct exactly where no base name that is repeated is there already
with its place. -/
private theorem paramNames_ok_iff {symbol sppName : Name} {noreturn : Bool} {ret : Except Unsupported Name}
    {args : List (Name × Except Unsupported Name)} {prototype : Prototype} {f : FfiFunction}
    (h : renderFunction symbol sppName noreturn ret args prototype = .ok f) :
    NamesOk (f.params.map (·.1)) ↔ Apart numbered (args.mapIdx fun i arg => paramBase i arg.1) := by
  rw [renderFunction_names h]
  apply namesOk_distinguish
  intro b hb
  obtain ⟨i, hi, rfl⟩ := List.mem_mapIdx.1 hb
  exact base_ok (isAlpha_ascii (by decide) (by decide)) _ i

private theorem fieldBases_ok (spellings : List Name) : ∀ b ∈ fieldBases spellings, NameOk b := by
  intro b hb
  obtain ⟨i, hi, rfl⟩ := List.mem_mapIdx.1 hb
  exact base_ok (isAlpha_ascii (by decide) (by decide)) _ i

/-- Nothing of a record keeps its fields from being listed. -/
def Listed {τ : Type} (isUnion : Bool) (fields : List (Name × Except String τ)) : Prop :=
  isUnion = false ∧ ∀ f ∈ fields, ∃ type, f.2 = .ok type

/-- The fields are listed, or a stand-in is. -/
theorem renderRecord_cases (isUnion : Bool) (size align : Nat) (fields : List (Name × Except String τ)) :
    (Listed isUnion fields ∧ ∃ fs, renderFields fields = .ok fs ∧ renderRecord isUnion size align fields =
      .listed fs) ∨ (¬Listed isUnion fields ∧ ∃ reason,
        renderRecord isUnion size align fields = .standIn reason (min align 8) (size / min align 8)) := by
  unfold Listed renderRecord
  by_cases hunion : isUnion
  · rw [if_pos hunion]
    exact Or.inr ⟨fun h => absurd h.1 (by rw [hunion]; decide), _, rfl⟩
  · rw [if_neg hunion]
    have hfalse : isUnion = false := Bool.eq_false_iff.2 hunion
    cases hfields : fields.mapM Prod.snd with
    | ok types =>
      have hok := mapM_eq_ok.1 ⟨types, hfields⟩
      obtain ⟨fs, hfs⟩ : ∃ fs, renderFields fields = .ok fs := by
        rw [renderFields, hfields]
        exact ⟨_, rfl⟩
      refine Or.inl ⟨⟨hfalse, hok⟩, fs, hfs, ?_⟩
      rw [hfs]
    | error reason =>
      have hnot : ¬∀ f ∈ fields, ∃ type, f.2 = .ok type := by
        intro h
        obtain ⟨types, htypes⟩ := mapM_eq_ok.2 h
        rw [hfields] at htypes
        cases htypes
      refine Or.inr ⟨fun h => hnot h.2, reason, ?_⟩
      rw [renderFields, hfields]
      rfl

/-- The names of the fields are names, and distinct exactly where no base name that is repeated is there already with
its place, or the fields are not listed. -/
private theorem classNames_ok_iff (isUnion : Bool) (size align : Nat) (fields : List (Name × Except String τ)) :
    NamesOk (renderRecord isUnion size align fields).names ↔
      (Listed isUnion fields → Apart numbered (fieldBases (fields.map (·.1)))) := by
  rcases renderRecord_cases isUnion size align fields with ⟨hlisted, fs, hfs, hbody⟩ | ⟨hnot, reason, hbody⟩
  · rw [hbody, ClsBody.names, renderFields_names hfs, forall_prop_of_true hlisted]
    exact namesOk_distinguish (fieldBases_ok _)
  · have hbytes : NamesOk ["bytes".toList] := by
      refine ⟨List.nodup_singleton _, fun name hname => ?_⟩
      rw [List.mem_singleton.1 hname]
      exact ⟨by decide, isAlpha_ascii (by decide) (by decide), by decide +kernel⟩
    rw [hbody]
    exact iff_of_true hbytes fun h => absurd h hnot

/-- The names of functions' parameters and of records' fields, for any names in C. -/
theorem names_ok_iff {symbol sppName : Name} {noreturn : Bool} {ret : Except Unsupported Name}
    {args : List (Name × Except Unsupported Name)} {prototype : Prototype} {f : FfiFunction}
    (h : renderFunction symbol sppName noreturn ret args prototype = .ok f) (isUnion : Bool) (size align : Nat)
    (fields : List (Name × Except String τ)) :
    (NamesOk (f.params.map (·.1)) ↔ Apart numbered (args.mapIdx fun i arg => paramBase i arg.1)) ∧
      (NamesOk (renderRecord isUnion size align fields).names ↔
        (Listed isUnion fields → Apart numbered (fieldBases (fields.map (·.1))))) :=
  ⟨paramNames_ok_iff h, classNames_ok_iff isUnion size align fields⟩

omit [Unicode] in
private theorem toLower_ascii {c : Char} (hc : c.toNat < 128) : c.toLower.toNat < 128 := by
  unfold Char.toLower
  split
  · rename_i h
    have hle : c.val.toNat ≤ 90 := h.2
    have hsum : (c.val + ('a'.val - 'A'.val)).toNat = (c.val.toNat + 32) % 2 ^ 32 := UInt32.toNat_add _ _
    show (c.val + ('a'.val - 'A'.val)).toNat < 128
    omega
  · exact hc

/-- In ASCII it does not matter what else Python knows. -/
private theorem lowercaseStart_ascii (h : ∀ c ∈ name, c.toNat < 128) :
    lowercaseStart name = @lowercaseStart Unicode.ascii name := by
  have hany {P Q : Char → Bool} {n : Name} (hn : ∀ c ∈ n, c.toNat < 128) (hPQ : ∀ c : Char, c.toNat < 128 →
    P c = Q c) :
      n.head?.any P = n.head?.any Q := by
    cases n with
    | nil => rfl
    | cons c n => exact hPQ c (hn c List.mem_cons_self)
  unfold lowercaseStart
  dsimp only
  have hn : ∀ c ∈ stripLeadingUnderscores name, c.toNat < 128 :=
    fun c hc => h c ((List.dropWhile_sublist _).subset hc)
  generalize stripLeadingUnderscores name = n at hn
  rw [hany hn Unicode.isLower_ascii, Unicode.lower_ascii n hn]
  have hmid : ∀ c ∈ (if n.head?.any Char.isLower then n else n.map Char.toLower), c.toNat < 128 := by
    split
    · exact hn
    · intro c hc
      obtain ⟨d, hd, rfl⟩ := List.mem_map.1 hc
      exact toLower_ascii (hn d hd)
  rw [hany hmid Unicode.isAlpha_ascii]
  rfl

omit [Unicode] in
/-- `int f(int a, int A)` and `struct { int st_a; int st_b; }`. -/
theorem names_ok_iff_two : let _ := Unicode.ascii
    (NamesOk ["a".toList, "a1".toList] ↔ Apart numbered ["a".toList, "a".toList]) ∧
      (NamesOk ["a".toList, "b".toList] ↔
        (Listed false [("st_a".toList, .ok "CInt".toList),
          ("st_b".toList, (.ok "CInt".toList : Except String Name))] → Apart numbered ["a".toList, "b".toList])) := by
  intro U
  have hrender : renderFunction "f".toList "f".toList false (.ok "CInt".toList)
      [("a".toList, .ok "CInt".toList), ("A".toList, .ok "CInt".toList)] .proto =
      .ok ⟨"f".toList, "f".toList, [("a".toList, "CInt".toList), ("a1".toList, "CInt".toList)], "CInt".toList⟩ := by
    show @renderFunction Unicode.ascii _ _ _ _ _ _ = _
    rfl
  exact names_ok_iff hrender false 8 4
    [("st_a".toList, .ok "CInt".toList), ("st_b".toList, (.ok "CInt".toList : Except String Name))]

omit [Unicode] in
/-- Of `int b2, int b, int B` the last becomes the first, whatever Unicode says of other letters. -/
theorem names_clash :
    (∀ _ : Unicode, (renderFunction "f".toList "f".toList false (.ok "CInt".toList)
      [("b2".toList, .ok "CInt".toList), ("b".toList, .ok "CInt".toList), ("B".toList, .ok "CInt".toList)] .proto).map
        (fun f => f.params.map (·.1)) = .ok ["b2".toList, "b".toList, "b2".toList]) ∧
    ∀ _ : Unicode, ¬NamesOk ["b2".toList, "b".toList, "b2".toList] := by
  constructor
  · intro U
    have hbase {i : Nat} {spelling : Name} (h : spelling.all (fun c => c.toNat < 128) = true) :
        paramBase i spelling = @paramBase Unicode.ascii i spelling := by
      unfold paramBase
      rw [lowercaseStart_ascii fun c hc => of_decide_eq_true (List.all_eq_true.1 h c hc)]
    unfold renderFunction
    simp only [List.mapIdx_cons, List.mapIdx_nil]
    rw [hbase (by decide), hbase (by decide), hbase (by decide)]
    rfl
  · rintro U ⟨hnodup, -⟩
    exact absurd hnodup (by decide +kernel)

end Sppc.Bindings
