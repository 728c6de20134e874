import Mathlib.Data.List.Nodup
import Mathlib.Logic.Relation

/-!
# Names that are told apart by their places

A list of names is made distinct in one pass: a name that an earlier one has already is changed with its place in the
list. The changed name is not looked up again, so it can itself be one that an earlier name has.  `nodup_distinguish`
says, of the list as it was, when that happens.
-/

namespace Renaming

variable {α : Type*} [DecidableEq α] {mk : α → Nat → α} {bs : List α} {a b c : α} {i j : Nat}

/-- One turn of the pass: `used` are the names before, the last first. -/
def next (mk : α → Nat → α) (used : List α) (b : α) : List α := (if b ∈ used then mk b used.length else b) :: used

/-- The names after the pass, in their order. -/
def distinguish (mk : α → Nat → α) (bs : List α) : List α := (bs.foldl (next mk) []).reverse

/-! ### The list before the pass -/

/-- The name at `j` is an earlier one, that at `i`, with its place. -/
def Follows (mk : α → Nat → α) (bs : List α) (i j : Nat) : Prop :=
  i < j ∧ ∃ b, bs[i]? = some b ∧ bs[j]? = some (mk b i)

/-- The name at `j` is an earlier one, or is made of such a one by places. -/
def Repeated (mk : α → Nat → α) (bs : List α) (j : Nat) : Prop :=
  ∃ k, Relation.ReflTransGen (Follows mk bs) k j ∧ ∃ i < k, ∃ b, bs[i]? = some b ∧ bs[k]? = some b

/-- No name that is repeated is, with its place, an earlier name, or an earlier one that is repeated with its own
place. -/
def Apart (mk : α → Nat → α) (bs : List α) : Prop :=
  ∀ i j b c, i < j → bs[i]? = some b → bs[j]? = some c → Repeated mk bs j →
    b ≠ mk c j ∧ (Repeated mk bs i → mk b i ≠ mk c j)

omit [DecidableEq α] in
/-- What the last place is repeated by. -/
private theorem repeated_iff (hj : bs[j]? = some c) :
    Repeated mk bs j ↔ ∃ i < j, ∃ b, bs[i]? = some b ∧ (b = c ∨ (Repeated mk bs i ∧ mk b i = c)) := by
  constructor
  · rintro ⟨k, hchain, i, hik, b, hi, hk⟩
    rcases hchain.cases_tail with rfl | ⟨m, hchain', hmj, d, hm, hj'⟩
    · exact ⟨i, hik, b, hi, Or.inl (Option.some.inj (hk.symm.trans hj))⟩
    · exact ⟨m, hmj, d, hm, Or.inr ⟨⟨k, hchain', i, hik, b, hi, hk⟩, Option.some.inj (hj'.symm.trans hj)⟩⟩
  · rintro ⟨i, hij, b, hi, rfl | ⟨⟨k, hchain, hk⟩, rfl⟩⟩
    · exact ⟨j, .refl, i, hij, b, hi, hj⟩
    · exact ⟨k, hchain.tail ⟨hij, b, hi, hj⟩, hk⟩

/-! ### The pass -/

@[simp] theorem length_foldl (bs : List α) : (bs.foldl (next mk) []).length = bs.length := by
  have hfrom (used : List α) : (bs.foldl (next mk) used).length = used.length + bs.length := by
    induction bs generalizing used with
    | nil => rfl
    | cons b bs ih =>
      rw [List.foldl_cons, ih, next, List.length_cons, List.length_cons]
      omega
  rw [hfrom, List.length_nil, Nat.zero_add]

@[simp] theorem length_distinguish (bs : List α) : (distinguish mk bs).length = bs.length := by
  rw [distinguish, List.length_reverse, length_foldl]

/-- The pass over one place more. -/
private theorem foldl_take_succ (hj : bs[j]? = some c) : (bs.take (j + 1)).foldl (next mk) [] =
    (if c ∈ (bs.take j).foldl (next mk) [] then mk c j else c) :: (bs.take j).foldl (next mk) [] := by
  have hlt : j < bs.length := (List.getElem?_eq_some_iff.1 hj).1
  rw [List.take_add_one, hj, Option.toList_some, List.foldl_append, List.foldl_cons, List.foldl_nil, next,
    length_foldl, List.length_take, Nat.min_eq_left (Nat.le_of_lt hlt)]

/-- The names that the pass has given out over the first places. -/
private theorem mem_foldl_take (hj : j ≤ bs.length) : a ∈ (bs.take j).foldl (next mk) [] ↔
    ∃ i < j, ∃ b, bs[i]? = some b ∧ (b = a ∨ (Repeated mk bs i ∧ mk b i = a)) := by
  induction j generalizing a with
  | zero => exact iff_of_false List.not_mem_nil fun ⟨i, hi, _⟩ => absurd hi (Nat.not_lt_zero i)
  | succ j ih =>
    have hc : bs[j]? = some bs[j] := List.getElem?_eq_getElem hj
    have hle : j ≤ bs.length := Nat.le_of_succ_le hj
    have hrep : bs[j] ∈ (bs.take j).foldl (next mk) [] ↔ Repeated mk bs j := (ih hle).trans (repeated_iff hc).symm
    rw [foldl_take_succ hc, List.mem_cons]
    constructor
    · rintro (rfl | hmem)
      · refine ⟨j, Nat.lt_succ_self j, _, hc, ?_⟩
        split
        · exact Or.inr ⟨hrep.1 ‹_›, rfl⟩
        · exact Or.inl rfl
      · obtain ⟨i, hi, b, hb, h⟩ := (ih hle).1 hmem
        exact ⟨i, Nat.lt_succ_of_lt hi, b, hb, h⟩
    · rintro ⟨i, hi, b, hb, h⟩
      rcases Nat.lt_or_eq_of_le (Nat.le_of_lt_succ hi) with hi | rfl
      · exact Or.inr ((ih hle).2 ⟨i, hi, b, hb, h⟩)
      · obtain rfl := Option.some.inj (hc.symm.trans hb)
        by_cases hmem : bs[i] ∈ (bs.take i).foldl (next mk) []
        · rw [if_pos hmem]
          rcases h with rfl | ⟨-, rfl⟩
          · exact Or.inr hmem
          · exact Or.inl rfl
        · rw [if_neg hmem]
          rcases h with rfl | ⟨hrepeated, -⟩
          · exact Or.inl rfl
          · exact absurd (hrep.2 hrepeated) hmem

private theorem nodup_foldl_take (hj : j ≤ bs.length) : ((bs.take j).foldl (next mk) []).Nodup ↔
    ∀ k < j, ∀ c, bs[k]? = some c → Repeated mk bs k → mk c k ∉ (bs.take k).foldl (next mk) [] := by
  induction j with
  | zero => exact iff_of_true List.nodup_nil fun k hk => absurd hk (Nat.not_lt_zero k)
  | succ j ih =>
    have hc : bs[j]? = some bs[j] := List.getElem?_eq_getElem hj
    have hle : j ≤ bs.length := Nat.le_of_succ_le hj
    have hrep : bs[j] ∈ (bs.take j).foldl (next mk) [] ↔ Repeated mk bs j :=
      (mem_foldl_take hle).trans (repeated_iff hc).symm
    rw [foldl_take_succ hc, List.nodup_cons, ih hle]
    constructor
    · rintro ⟨hnew, hbefore⟩ k hk c hkc hrepeated
      rcases Nat.lt_or_eq_of_le (Nat.le_of_lt_succ hk) with hk | rfl
      · exact hbefore k hk c hkc hrepeated
      · obtain rfl := Option.some.inj (hc.symm.trans hkc)
        rwa [if_pos (hrep.2 hrepeated)] at hnew
    · intro h
      refine ⟨?_, fun k hk => h k (Nat.lt_succ_of_lt hk)⟩
      split
      · exact h j (Nat.lt_succ_self j) _ hc (hrep.1 ‹_›)
      · assumption

/-- The names are distinct after the pass exactly if none that is repeated is still there already with its place. -/
theorem nodup_distinguish : (distinguish mk bs).Nodup ↔ Apart mk bs := by
  have hall : (bs.foldl (next mk) []).Nodup ↔
      ∀ k < bs.length, ∀ c, bs[k]? = some c → Repeated mk bs k → mk c k ∉ (bs.take k).foldl (next mk) [] := by
    rw [← nodup_foldl_take (Nat.le_refl bs.length), List.take_length]
  rw [distinguish, List.nodup_reverse, hall]
  constructor
  · intro h i j b c hij hi hj hrepeated
    have hlt : j < bs.length := (List.getElem?_eq_some_iff.1 hj).1
    have hnot := mt (mem_foldl_take (Nat.le_of_lt hlt)).2 (h j hlt c hj hrepeated)
    exact ⟨fun heq => hnot ⟨i, hij, b, hi, Or.inl heq⟩, fun hrep heq => hnot ⟨i, hij, b, hi, Or.inr ⟨hrep, heq⟩⟩⟩
  · intro h j hlt c hj hrepeated hmem
    obtain ⟨i, hij, b, hi, heq⟩ := (mem_foldl_take (Nat.le_of_lt hlt)).1 hmem
    obtain ⟨hne, hne'⟩ := h i j b c hij hi hj hrepeated
    rcases heq with heq | ⟨hrep, heq⟩
    · exact hne heq
    · exact hne' hrep heq

/-- What holds of the names and is kept by the change holds of the names after the pass. -/
theorem forall_distinguish {P : α → Prop} (hbs : ∀ b ∈ bs, P b) (hmk : ∀ b i, P b → P (mk b i)) :
    ∀ b ∈ distinguish mk bs, P b := by
  intro b hb
  rw [distinguish, List.mem_reverse] at hb
  rw [← List.take_of_length_le (Nat.le_refl bs.length), mem_foldl_take (Nat.le_refl bs.length)] at hb
  obtain ⟨i, -, c, hc, rfl | ⟨-, rfl⟩⟩ := hb
  · exact hbs _ (List.mem_of_getElem? hc)
  · exact hmk _ _ (hbs _ (List.mem_of_getElem? hc))

end Renaming
