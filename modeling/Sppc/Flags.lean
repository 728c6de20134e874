import Sppc.Laminar
import Mathlib.Data.List.Nodup

/-!
# Flags (`platform/shared.h`, `platform/posix.h`)

The translation of a set of flags to the platform's and back, through a table of pairs, and `sppc_open`'s.
-/

namespace Sppc

open Laminar

/-- `_sppc_pair`. -/
structure Pair where
  sppc : BitVec 32
  os : BitVec 32
  deriving DecidableEq, Repr

/-- `_sppc_to_os_value`: `none` is `SPPC_EINVAL`. -/
def sppcToOsValue (value : BitVec 32) (table : List Pair) : Option (BitVec 32) :=
  (table.find? fun p => p.sppc = value).map Pair.os

/-- `_sppc_from_os_value`. -/
def sppcFromOsValue (value : BitVec 32) (table : List Pair) (fallback : BitVec 32) : BitVec 32 :=
  match table.find? fun p => p.os = value with
  | some p => p.sppc
  | none => fallback

/-- The loop of `_sppc_to_os_flags` and `_sppc_from_os_flags`, which take the flags of one side from `flags` and add
those of the other to `out`. -/
def takeFlags (side other : Pair → BitVec 32) : List Pair → BitVec 32 → BitVec 32 → BitVec 32 × BitVec 32
  | [], flags, out => (out, flags)
  | p :: table, flags, out =>
    if flags = 0 then (out, flags)
    else if side p ≠ 0 ∧ flags &&& side p = side p then
      takeFlags side other table (flags &&& ~~~side p) (out ||| other p)
    else takeFlags side other table flags out

/-- `_sppc_to_os_flags`: `none` is `SPPC_EINVAL`. -/
def sppcToOsFlags (flags : BitVec 32) (table : List Pair) : Option (BitVec 32) :=
  let r := takeFlags Pair.sppc Pair.os table flags 0
  if r.2 ≠ 0 then none else some r.1

/-- `_sppc_from_os_flags`. -/
def sppcFromOsFlags (flags : BitVec 32) (table : List Pair) : BitVec 32 :=
  (takeFlags Pair.os Pair.sppc table flags 0).1

/-! ### `sppc_open` -/

def SPPC_O_ACCMODE : BitVec 32 := 0o3
def SPPC_O_RDONLY : BitVec 32 := 0
def SPPC_O_WRONLY : BitVec 32 := 0o1
def SPPC_O_RDWR : BitVec 32 := 0o2
def SPPC_O_CREAT : BitVec 32 := 0o100
def SPPC_O_EXCL : BitVec 32 := 0o200
def SPPC_O_NOCTTY : BitVec 32 := 0o400
def SPPC_O_TRUNC : BitVec 32 := 0o1000
def SPPC_O_APPEND : BitVec 32 := 0o2000
def SPPC_O_NONBLOCK : BitVec 32 := 0o4000
def SPPC_O_DSYNC : BitVec 32 := 0o10000
def SPPC_O_ASYNC : BitVec 32 := 0o20000
def SPPC_O_DIRECT : BitVec 32 := 0o40000
def SPPC_O_DIRECTORY : BitVec 32 := 0o200000
def SPPC_O_NOFOLLOW : BitVec 32 := 0o400000
def SPPC_O_NOATIME : BitVec 32 := 0o1000000
def SPPC_O_CLOEXEC : BitVec 32 := 0o2000000
def SPPC_O_SYNC : BitVec 32 := 0o4010000
def SPPC_O_PATH : BitVec 32 := 0o10000000
def SPPC_O_TMPFILE : BitVec 32 := 0o20200000

/-- The flags of the platform, some of which not every platform has. -/
structure OsFlags where
  O_RDONLY : BitVec 32
  O_WRONLY : BitVec 32
  O_RDWR : BitVec 32
  O_TMPFILE : Option (BitVec 32)
  O_SYNC : BitVec 32
  O_CREAT : BitVec 32
  O_EXCL : BitVec 32
  O_NOCTTY : BitVec 32
  O_TRUNC : BitVec 32
  O_APPEND : BitVec 32
  O_NONBLOCK : BitVec 32
  O_DSYNC : BitVec 32
  O_ASYNC : BitVec 32
  O_DIRECT : Option (BitVec 32)
  O_DIRECTORY : BitVec 32
  O_NOFOLLOW : BitVec 32
  O_NOATIME : Option (BitVec 32)
  O_CLOEXEC : BitVec 32
  O_PATH : Option (BitVec 32)

/-- The entry of a flag, where the platform has it. -/
def pairIf (sppc : BitVec 32) (os : Option (BitVec 32)) : List Pair := (os.map (Pair.mk sppc)).toList

/-- `_sppc_open_flags_table`. -/
def sppcOpenFlagsTable (os : OsFlags) : List Pair :=
  pairIf SPPC_O_TMPFILE os.O_TMPFILE ++
  [⟨SPPC_O_SYNC, os.O_SYNC⟩, ⟨SPPC_O_CREAT, os.O_CREAT⟩, ⟨SPPC_O_EXCL, os.O_EXCL⟩, ⟨SPPC_O_NOCTTY, os.O_NOCTTY⟩,
    ⟨SPPC_O_TRUNC, os.O_TRUNC⟩, ⟨SPPC_O_APPEND, os.O_APPEND⟩, ⟨SPPC_O_NONBLOCK, os.O_NONBLOCK⟩,
    ⟨SPPC_O_DSYNC, os.O_DSYNC⟩, ⟨SPPC_O_ASYNC, os.O_ASYNC⟩] ++
  pairIf SPPC_O_DIRECT os.O_DIRECT ++
  [⟨SPPC_O_DIRECTORY, os.O_DIRECTORY⟩, ⟨SPPC_O_NOFOLLOW, os.O_NOFOLLOW⟩] ++
  pairIf SPPC_O_NOATIME os.O_NOATIME ++
  [⟨SPPC_O_CLOEXEC, os.O_CLOEXEC⟩] ++
  pairIf SPPC_O_PATH os.O_PATH

/-- The access modes. -/
def openModes (os : OsFlags) : List Pair :=
  [⟨SPPC_O_RDONLY, os.O_RDONLY⟩, ⟨SPPC_O_WRONLY, os.O_WRONLY⟩, ⟨SPPC_O_RDWR, os.O_RDWR⟩]

/-- `_sppc_to_os_open_flags`. -/
def sppcToOsOpenFlags (os : OsFlags) (flags : BitVec 32) : Option (BitVec 32) := do
  let mode ← sppcToOsValue (flags &&& SPPC_O_ACCMODE) (openModes os)
  let rest ← sppcToOsFlags (flags &&& ~~~SPPC_O_ACCMODE) (sppcOpenFlagsTable os)
  return mode ||| rest

/-- The bits of the platform's access modes. -/
def OsFlags.access (os : OsFlags) : BitVec 32 := os.O_RDONLY ||| os.O_WRONLY ||| os.O_RDWR

/-- `_sppc_from_os_open_flags`. -/
def sppcFromOsOpenFlags (os : OsFlags) (flags : BitVec 32) : BitVec 32 :=
  sppcFromOsValue (flags &&& os.access) (openModes os) 0 |||
    sppcFromOsFlags (flags &&& ~~~os.access) (sppcOpenFlagsTable os)

/-- Linux's values on x86_64 and most others. -/
def linuxFlags : OsFlags :=
  ⟨0, 0o1, 0o2, some 0o20200000, 0o4010000, 0o100, 0o200, 0o400, 0o1000, 0o2000, 0o4000, 0o10000, 0o20000,
    some 0o40000, 0o200000, 0o400000, some 0o1000000, 0o2000000, some 0o10000000⟩

/-- Linux's values on arm64. -/
def linuxFlagsArm64 : OsFlags :=
  { linuxFlags with
    O_TMPFILE := some 0o20040000, O_DIRECT := some 0o200000, O_DIRECTORY := 0o40000, O_NOFOLLOW := 0o100000 }

/-! ### Tables -/

/-- The flags `x` contain all of `y`. -/
def Contains (x y : BitVec 32) : Prop := x &&& y = y

instance Contains.decidable (x y : BitVec 32) : Decidable (Contains x y) := inferInstanceAs (Decidable (_ = _))

/-- The one side of a table: any two entries are disjoint or one contains the other, and comes first.  Each has a bit
that none of those it contains has. -/
structure SideOk (side : Pair → BitVec 32) (table : List Pair) : Prop where
  nonzero : ∀ p ∈ table, side p ≠ 0
  apart : ∀ (i j : Nat) p q, table[i]? = some p → table[j]? = some q → i ≠ j →
    side p &&& side q = 0 ∨ Contains (side p) (side q) ∨ Contains (side q) (side p)
  before : ∀ (i j : Nat) p q, table[i]? = some p → table[j]? = some q → i ≠ j → Contains (side p) (side q) → i < j
  own : ∀ (i : Nat) p, table[i]? = some p → ∃ n, (side p).getLsbD n ∧
    ∀ (j : Nat) q, table[j]? = some q → j ≠ i → Contains (side p) (side q) → ¬(side q).getLsbD n

/-- Both sides are such, and have one shape. -/
structure TableOk (table : List Pair) : Prop where
  sppc : SideOk Pair.sppc table
  os : SideOk Pair.os table
  same : ∀ p ∈ table, ∀ q ∈ table, Contains p.sppc q.sppc ↔ Contains p.os q.os

/-- The union of one side of some entries. -/
def unionOf (side : Pair → BitVec 32) (l : List Pair) : BitVec 32 := l.foldr (fun p u => side p ||| u) 0

/-- The entries contained in the flags. -/
def contained (table : List Pair) (flags : BitVec 32) : List Pair := table.filter fun p => Contains flags p.sppc

/-- Those of them that none of the others contains. -/
def maximal (table : List Pair) (flags : BitVec 32) : List Pair :=
  (contained table flags).filter fun p => ∀ q ∈ contained table flags, Contains q.sppc p.sppc → q = p

/-! ### Flags as sets of bits -/

/-- The bits of the flags. -/
def bits (x : BitVec 32) : Set Nat := { n | x.getLsbD n }

variable {x y z : BitVec 32} {table : List Pair} {side other : Pair → BitVec 32} {p q : Pair}

theorem bits_inj (h : bits x = bits y) : x = y := by
  refine BitVec.eq_of_getLsbD_eq fun n _ => ?_
  have hn : n ∈ bits x ↔ n ∈ bits y := by rw [h]
  exact Bool.eq_iff_iff.2 hn

theorem bits_zero : bits 0 = ∅ := by
  ext n
  simp [bits]

theorem bits_or (x y : BitVec 32) : bits (x ||| y) = bits x ∪ bits y := by
  ext n
  simp [bits]

theorem bits_and (x y : BitVec 32) : bits (x &&& y) = bits x ∩ bits y := by
  ext n
  simp [bits]

theorem bits_and_not (x y : BitVec 32) : bits (x &&& ~~~y) = bits x \ bits y := by
  ext n
  simp only [bits, BitVec.getLsbD_and, BitVec.getLsbD_not, Set.mem_ofPred_eq, Set.mem_sdiff, Bool.and_eq_true,
    decide_eq_true_eq, Bool.not_eq_true', Bool.not_eq_true]
  exact ⟨fun h => ⟨h.1, h.2.2⟩, fun h => ⟨h.1, BitVec.lt_of_getLsbD h.1, h.2⟩⟩

theorem contains_iff : Contains x y ↔ bits y ⊆ bits x := by
  rw [← Set.inter_eq_right, ← bits_and]
  exact ⟨fun h => congrArg bits h, bits_inj⟩

theorem disjoint_iff : x &&& y = 0 ↔ Disjoint (bits x) (bits y) := by
  rw [Set.disjoint_iff_inter_eq_empty, ← bits_and, ← bits_zero]
  exact ⟨fun h => congrArg bits h, bits_inj⟩

theorem bits_nonempty (h : x ≠ 0) : (bits x).Nonempty := by
  by_contra hne
  rw [Set.not_nonempty_iff_eq_empty, ← bits_zero] at hne
  exact h (bits_inj hne)

private theorem bits_unionOf (side : Pair → BitVec 32) (l : List Pair) :
    bits (unionOf side l) = union (bits ∘ side) l := by
  induction l with
  | nil =>
    rw [unionOf, List.foldr_nil, bits_zero]
    simp [union]
  | cons p l ih =>
    rw [union_cons, ← ih]
    exact bits_or (side p) (unionOf side l)

/-! ### The loop -/

/-- The loop takes the entries that `take` does, whichever side it reads. -/
theorem takeFlags_bits (other : Pair → BitVec 32) (hne : ∀ p ∈ table, side p ≠ 0) (flags out : BitVec 32) :
    bits (takeFlags side other table flags out).1 =
      bits out ∪ union (bits ∘ other) (take (bits ∘ side) table (bits flags)) ∧
    bits (takeFlags side other table flags out).2 =
      bits flags \ union (bits ∘ side) (take (bits ∘ side) table (bits flags)) := by
  induction table generalizing flags out with
  | nil => simp [takeFlags, take, union]
  | cons p table ih =>
    have hrest : ∀ q ∈ table, side q ≠ 0 := fun q hq => hne q (List.mem_cons_of_mem p hq)
    have hp : side p ≠ 0 := hne p List.mem_cons_self
    rw [takeFlags]
    by_cases hzero : flags = 0
    · rw [if_pos hzero, hzero, bits_zero, take_empty (s := bits ∘ side) fun q hq => bits_nonempty (hne q hq)]
      simp [union]
    · rw [if_neg hzero]
      by_cases hin : flags &&& side p = side p
      · have hsub : (bits ∘ side) p ⊆ bits flags := contains_iff.1 hin
        rw [if_pos ⟨hp, hin⟩, take_cons_of_subset hsub, union_cons, union_cons]
        obtain ⟨hout, hleft⟩ := ih hrest (flags &&& ~~~side p) (out ||| other p)
        rw [hout, hleft, bits_and_not, bits_or, Set.union_assoc]
        exact ⟨rfl, Set.sdiff_sdiff⟩
      · have hsub : ¬(bits ∘ side) p ⊆ bits flags := fun h => hin (contains_iff.2 h)
        rw [if_neg fun h => hin h.2, take_cons_of_not_subset hsub]
        exact ih hrest flags out

/-- A side of a table is a family of nested sets. -/
theorem SideOk.family (h : SideOk side table) : Family (bits ∘ side) table where
  nonempty p hp := bits_nonempty (h.nonzero p hp)
  nested := by
    refine List.pairwise_iff_getElem.2 fun i j hi hj hij => ?_
    have hp := List.getElem?_eq_getElem hi
    have hq := List.getElem?_eq_getElem hj
    rcases h.apart i j _ _ hp hq hij.ne with hd | hc | hc
    · exact Or.inl (disjoint_iff.1 hd)
    · refine Or.inr ⟨contains_iff.1 hc, fun hback => ?_⟩
      have := h.before j i _ _ hq hp hij.ne' (contains_iff.2 hback)
      omega
    · have := h.before j i _ _ hq hp hij.ne' hc
      omega

/-- An entry has a bit that those strictly inside it do not have. -/
private theorem SideOk.own_bit (h : SideOk side table) (hp : p ∈ table) :
    ∃ n ∈ bits (side p), ∀ q ∈ table, bits (side q) ⊂ bits (side p) → n ∉ bits (side q) := by
  obtain ⟨i, hi⟩ := List.getElem?_of_mem hp
  obtain ⟨n, hn, hown⟩ := h.own i p hi
  refine ⟨n, hn, fun q hq hsub => ?_⟩
  obtain ⟨j, hj⟩ := List.getElem?_of_mem hq
  refine hown j q hj ?_ (contains_iff.2 hsub.1)
  rintro rfl
  cases hi.symm.trans hj
  exact hsub.2 subset_rfl

private theorem TableOk.matched (h : TableOk table) : Matched (bits ∘ Pair.sppc) (bits ∘ Pair.os) table where
  left := h.sppc.family
  right := h.os.family
  same p hp q hq := by
    have hsame := h.same q hq p hp
    rw [contains_iff, contains_iff] at hsame
    exact hsame
  own p hp := h.os.own_bit hp

/-! ### The translation -/

section translation

variable {flags os further : BitVec 32}

/-- What the flags are translated to: the platform's bits of the largest entries in them, while those make them up. -/
private theorem sppcToOsFlags_eq (h : TableOk table) :
    (sppcToOsFlags flags table = some os ↔
      bits flags ⊆ union (bits ∘ Pair.sppc) (take (bits ∘ Pair.sppc) table (bits flags)) ∧
        bits os = union (bits ∘ Pair.os) (take (bits ∘ Pair.sppc) table (bits flags))) := by
  obtain ⟨hout, hleft⟩ := takeFlags_bits Pair.os h.sppc.nonzero flags 0
  rw [bits_zero, Set.empty_union] at hout
  have hzero : (takeFlags Pair.sppc Pair.os table flags 0).2 = 0 ↔
      bits flags ⊆ union (bits ∘ Pair.sppc) (take (bits ∘ Pair.sppc) table (bits flags)) := by
    rw [← Set.sdiff_eq_empty, ← hleft, ← bits_zero]
    exact ⟨fun h => congrArg bits h, bits_inj⟩
  rw [sppcToOsFlags, ← hzero, ← hout]
  by_cases h0 : (takeFlags Pair.sppc Pair.os table flags 0).2 = 0
  · rw [if_neg (not_not.2 h0), Option.some_inj]
    exact ⟨fun heq => ⟨h0, congrArg bits heq.symm⟩, fun heq => (bits_inj heq.2).symm⟩
  · rw [if_pos h0]
    exact ⟨fun heq => (nomatch heq), fun heq => absurd heq.1 h0⟩

/-- The flags are accepted exactly if the entries contained in them make them up. -/
private theorem TableOk.accepted (h : TableOk table) :
    bits flags ⊆ union (bits ∘ Pair.sppc) (take (bits ∘ Pair.sppc) table (bits flags)) ↔
      flags = unionOf Pair.sppc (contained table flags) := by
  have hunion : union (bits ∘ Pair.sppc) (take (bits ∘ Pair.sppc) table (bits flags)) =
      bits (unionOf Pair.sppc (contained table flags)) := by
    rw [h.matched.left.union_take, bits_unionOf]
    ext n
    simp only [Set.mem_ofPred_eq, mem_union, contained, List.mem_filter, decide_eq_true_eq, contains_iff, and_assoc,
      Function.comp_apply]
  constructor
  · intro hsub
    exact bits_inj ((hsub.antisymm union_take_subset).trans hunion)
  · intro heq
    rw [hunion, ← heq]

/-- The largest entries in the flags are the ones that are taken. -/
private theorem TableOk.mem_maximal (h : TableOk table) :
    p ∈ take (bits ∘ Pair.sppc) table (bits flags) ↔ p ∈ maximal table flags := by
  rw [h.matched.left.mem_take, maximal, List.mem_filter, decide_eq_true_eq]
  have hcontained (q : Pair) : q ∈ contained table flags ↔ q ∈ table ∧ bits q.sppc ⊆ bits flags := by
    rw [contained, List.mem_filter, decide_eq_true_eq, contains_iff]
  constructor
  · rintro ⟨hp, hsub, hlargest⟩
    refine ⟨(hcontained p).2 ⟨hp, hsub⟩, fun q hq hqp => ?_⟩
    obtain ⟨hqt, hqf⟩ := (hcontained q).1 hq
    have hpq := contains_iff.1 hqp
    exact h.matched.left.eq_of_subset hqt hp (hlargest q hqt hqf hpq) hpq
  · rintro ⟨hp, hmax⟩
    obtain ⟨hpt, hpf⟩ := (hcontained p).1 hp
    refine ⟨hpt, hpf, fun q hq hqf hpq => ?_⟩
    rw [hmax q ((hcontained q).2 ⟨hq, hqf⟩) (contains_iff.2 hpq)]

/-- Back from the platform's flags. -/
private theorem sppcFromOsFlags_bits (h : TableOk table) :
    bits (sppcFromOsFlags os table) = union (bits ∘ Pair.sppc) (take (bits ∘ Pair.os) table (bits os)) := by
  obtain ⟨hout, -⟩ := takeFlags_bits Pair.sppc h.os.nonzero os 0
  rw [bits_zero, Set.empty_union] at hout
  exact hout

/-- What the translation of flags and back comes to, with any table. -/
structure Translates (table : List Pair) (flags : BitVec 32) : Prop where
  accepted : (sppcToOsFlags flags table).isSome ↔ flags = unionOf Pair.sppc (contained table flags)
  result : ∀ os, sppcToOsFlags flags table = some os → os = unionOf Pair.os (maximal table flags)
  back : ∀ os, sppcToOsFlags flags table = some os → sppcFromOsFlags os table = flags
  further : ∀ os further, (∀ p ∈ table, p.os &&& further = 0) →
    sppcFromOsFlags (os ||| further) table = sppcFromOsFlags os table

private theorem TableOk.translates (h : TableOk table) (flags : BitVec 32) : Translates table flags where
  accepted := by
    rw [Option.isSome_iff_exists, ← h.accepted]
    constructor
    · rintro ⟨os, hos⟩
      exact ((sppcToOsFlags_eq h).1 hos).1
    · intro hsub
      refine ⟨unionOf Pair.os (take (bits ∘ Pair.sppc) table (bits flags)), (sppcToOsFlags_eq h).2 ⟨hsub, ?_⟩⟩
      exact bits_unionOf _ _
  result os hos := by
    obtain ⟨-, hbits⟩ := (sppcToOsFlags_eq h).1 hos
    refine bits_inj ?_
    rw [hbits, bits_unionOf]
    exact union_congr fun p => h.mem_maximal
  back os hos := by
    obtain ⟨hsub, hbits⟩ := (sppcToOsFlags_eq h).1 hos
    refine bits_inj ?_
    rw [sppcFromOsFlags_bits h, hbits, union_congr fun p => h.matched.mem_take]
    exact union_take_subset.antisymm hsub
  further os further hfurther := by
    refine bits_inj ?_
    rw [sppcFromOsFlags_bits h, sppcFromOsFlags_bits h, bits_or]
    rw [take_union (s := bits ∘ Pair.os) fun p hp => disjoint_iff.1 (hfurther p hp)]

end translation

/-! ### Open flags -/

/-- The access modes are apart from one another and from all the flags. -/
structure OsFlags.Ok (os : OsFlags) : Prop where
  table : TableOk (sppcOpenFlagsTable os)
  access : ∀ p ∈ sppcOpenFlagsTable os, p.os &&& os.access = 0
  modes : ((openModes os).map Pair.os).Nodup

private theorem OsFlags.access_of_mode {os : OsFlags} (hp : p ∈ openModes os) : p.os &&& os.access = p.os := by
  refine (BitVec.and_comm _ _).trans (contains_iff.2 ?_)
  rw [OsFlags.access, bits_or, bits_or]
  simp only [openModes, List.mem_cons, List.not_mem_nil, or_false] at hp
  rcases hp with rfl | rfl | rfl
  · exact fun n hn => Or.inl (Or.inl hn)
  · exact fun n hn => Or.inl (Or.inr hn)
  · exact fun n hn => Or.inr hn

/-- The platform's value of a mode is read back as that mode. -/
private theorem sppcFromOsValue_mode {os : OsFlags} (h : os.Ok) (hp : p ∈ openModes os) :
    sppcFromOsValue p.os (openModes os) 0 = p.sppc := by
  have hfind : (openModes os).find? (fun q => q.os = p.os) = some p := by
    obtain ⟨q, hq⟩ := Option.isSome_iff_exists.1
      (List.find?_isSome.2 ⟨p, hp, decide_eq_true rfl⟩ : ((openModes os).find? fun q => q.os = p.os).isSome)
    have hos : q.os = p.os := by simpa using List.find?_some hq
    rw [hq, List.inj_on_of_nodup_map h.modes (List.mem_of_find?_eq_some hq) hp hos]
  rw [sppcFromOsValue, hfind]

/-- Flags that have been accepted come back as they were. -/
private theorem OsFlags.Ok.back {os : OsFlags} (h : os.Ok) {flags r : BitVec 32}
    (hr : sppcToOsOpenFlags os flags = some r) : sppcFromOsOpenFlags os r = flags := by
  obtain ⟨mode, hmode, hr⟩ := Option.bind_eq_some_iff.1 hr
  obtain ⟨rest, hrest, hr⟩ := Option.bind_eq_some_iff.1 hr
  cases hr
  obtain ⟨p, hfind, rfl⟩ := Option.map_eq_some_iff.1 hmode
  have hp := List.mem_of_find?_eq_some hfind
  have hsppc : p.sppc = flags &&& SPPC_O_ACCMODE := by simpa using List.find?_some hfind
  have hin := OsFlags.access_of_mode hp
  -- the rest has no bit of an access mode
  have hout : rest &&& os.access = 0 := by
    rw [disjoint_iff, ((sppcToOsFlags_eq h.table).1 hrest).2, Set.disjoint_left]
    intro n hn
    obtain ⟨q, hq, hnq⟩ := mem_union.1 hn
    exact Set.disjoint_left.1 (disjoint_iff.1 (h.access q (mem_of_mem_take hq).1)) hnq
  have hmode' : (p.os ||| rest) &&& os.access = p.os := by
    refine bits_inj ?_
    rw [bits_and, bits_or, Set.union_inter_distrib_right, ← bits_and, ← bits_and, hin, hout, bits_zero,
      Set.union_empty]
  have hrest' : (p.os ||| rest) &&& ~~~os.access = rest := by
    refine bits_inj ?_
    rw [bits_and_not, bits_or, Set.union_sdiff_distrib, (disjoint_iff.1 hout).sdiff_eq_left,
      Set.sdiff_eq_empty.2 (contains_iff.1 ((BitVec.and_comm _ _).trans hin)), Set.empty_union]
  rw [sppcFromOsOpenFlags, hmode', hrest', sppcFromOsValue_mode h hp, (h.table.translates _).back rest hrest, hsppc]
  refine bits_inj ?_
  rw [bits_or, bits_and, bits_and_not]
  exact Set.inter_union_sdiff _ _

/-- A table whose entries are each disjoint from a later one or strictly contain it. -/
private theorem SideOk.of_pairwise (hne : ∀ p ∈ table, side p ≠ 0)
    (hnested : table.Pairwise fun p q =>
      side p &&& side q = 0 ∨ Contains (side p) (side q) ∧ ¬Contains (side q) (side p))
    (hown : ∀ p ∈ table, ∃ n ∈ List.range 32, (side p).getLsbD n ∧
      ∀ q ∈ table, q ≠ p → Contains (side p) (side q) → ¬(side q).getLsbD n) : SideOk side table := by
  have hlater {i j : Nat} {p q : Pair} (hi : table[i]? = some p) (hj : table[j]? = some q) (hij : i < j) :
      side p &&& side q = 0 ∨ Contains (side p) (side q) ∧ ¬Contains (side q) (side p) := by
    obtain ⟨hi', rfl⟩ := List.getElem?_eq_some_iff.1 hi
    obtain ⟨hj', rfl⟩ := List.getElem?_eq_some_iff.1 hj
    exact List.pairwise_iff_getElem.1 hnested i j hi' hj' hij
  have hbefore {i j : Nat} {p q : Pair} (hi : table[i]? = some p) (hj : table[j]? = some q) (hij : i ≠ j)
      (hc : Contains (side p) (side q)) : i < j := by
    rcases Nat.lt_or_gt_of_ne hij with hlt | hgt
    · exact hlt
    · rcases hlater hj hi hgt with hd | ⟨-, hnot⟩
      · refine absurd ?_ (hne q (List.mem_of_getElem? hj))
        rw [← hd, BitVec.and_comm]
        exact hc.symm
      · exact absurd hc hnot
  refine ⟨hne, fun i j p q hi hj hij => ?_, fun i j p q hi hj hij hc => hbefore hi hj hij hc, fun i p hi => ?_⟩
  · rcases Nat.lt_or_gt_of_ne hij with hlt | hgt
    · exact (hlater hi hj hlt).imp_right fun h => Or.inl h.1
    · rcases hlater hj hi hgt with hd | hc
      · rw [BitVec.and_comm] at hd
        exact Or.inl hd
      · exact Or.inr (Or.inr hc.1)
  · obtain ⟨n, -, hn, hnot⟩ := hown p (List.mem_of_getElem? hi)
    refine ⟨n, hn, fun j q hj hji hc => hnot q (List.mem_of_getElem? hj) ?_ hc⟩
    rintro rfl
    have h1 := hbefore hi hj hji.symm hc
    have h2 := hbefore hj hi hji hc
    omega

/-- The open flags with Linux's values. -/
private theorem linuxFlags_ok : ∀ os ∈ [linuxFlags, linuxFlagsArm64], os.Ok := by
  intro os hos
  simp only [List.mem_cons, List.not_mem_nil, or_false] at hos
  rcases hos with rfl | rfl
  all_goals
    refine ⟨⟨.of_pairwise ?_ ?_ ?_, .of_pairwise ?_ ?_ ?_, ?_⟩, ?_, ?_⟩
    all_goals decide +kernel

/-- Flags are translated to the platform's and back, with every table that is made as it should be; and the one of the
open flags is with Linux's values, so that these too come back. -/
theorem flags_translate : (∀ table flags, TableOk table → Translates table flags) ∧
    ∀ os ∈ [linuxFlags, linuxFlagsArm64], TableOk (sppcOpenFlagsTable os) ∧
      ∀ flags r, sppcToOsOpenFlags os flags = some r → sppcFromOsOpenFlags os r = flags :=
  ⟨fun _ flags h => h.translates flags,
    fun os hos => ⟨(linuxFlags_ok os hos).table, fun _ _ hr => (linuxFlags_ok os hos).back hr⟩⟩

theorem flags_translate_sync : Translates (sppcOpenFlagsTable linuxFlags) (SPPC_O_SYNC ||| SPPC_O_CREAT) ∧
    sppcFromOsOpenFlags linuxFlags 0o4010102 = SPPC_O_RDWR ||| SPPC_O_SYNC ||| SPPC_O_CREAT :=
  ⟨flags_translate.1 _ _ (flags_translate.2 linuxFlags (by simp)).1,
    (flags_translate.2 linuxFlags (by simp)).2 _ _ (by decide +kernel)⟩

end Sppc
