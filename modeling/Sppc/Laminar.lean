import Mathlib.Data.List.Pairwise
import Mathlib.Data.Set.Lattice
import Mathlib.Order.CompletePartialOrder

/-!
# Nested families of sets

A list of sets any two of which are disjoint or nested, the outer one first.  Who goes through the list and takes each
set that fits into what is left of `f` takes the largest sets inside `f`.  Where every set has an element that no set
inside it has, the sets taken can be told from their union.
-/

namespace Laminar

variable {ι β : Type*} {s o : ι → Set β} {l : List ι} {f g x : Set β} {i j : ι}

/-- Any two sets of the list are disjoint, or the later one is strictly inside the earlier one, and none is empty. -/
structure Family (s : ι → Set β) (l : List ι) : Prop where
  nonempty : ∀ i ∈ l, (s i).Nonempty
  nested : l.Pairwise fun i j => Disjoint (s i) (s j) ∨ s j ⊂ s i

open Classical in
/-- The sets that fit into what is left of `f`, one after the other. -/
noncomputable def take (s : ι → Set β) : List ι → Set β → List ι
  | [], _ => []
  | i :: l, f => if s i ⊆ f then i :: take s l (f \ s i) else take s l f

/-- The union of the sets of a list. -/
def union (s : ι → Set β) (l : List ι) : Set β := ⋃ i ∈ l, s i

theorem mem_union {b : β} : b ∈ union s l ↔ ∃ i ∈ l, b ∈ s i := by simp [union]

theorem subset_union (hi : i ∈ l) : s i ⊆ union s l := fun _ hb => mem_union.2 ⟨i, hi, hb⟩

theorem union_cons (s : ι → Set β) (i : ι) (l : List ι) : union s (i :: l) = s i ∪ union s l := by
  ext b
  simp [mem_union]

theorem union_congr {l' : List ι} (h : ∀ i, i ∈ l ↔ i ∈ l') : union s l = union s l' := by
  ext b
  simp [mem_union, h]

/-- Of the sets inside `f`, none is larger. -/
def Largest (s : ι → Set β) (l : List ι) (f : Set β) (i : ι) : Prop :=
  s i ⊆ f ∧ ∀ j ∈ l, s j ⊆ f → s i ⊆ s j → s j ⊆ s i

/-! ### What is taken -/

theorem take_cons_of_subset (h : s i ⊆ f) : take s (i :: l) f = i :: take s l (f \ s i) := by
  rw [take, if_pos h]

theorem take_cons_of_not_subset (h : ¬s i ⊆ f) : take s (i :: l) f = take s l f := by
  rw [take, if_neg h]

theorem take_empty (hne : ∀ i ∈ l, (s i).Nonempty) : take s l ∅ = [] := by
  induction l with
  | nil => rfl
  | cons i l ih =>
    have hnot : ¬s i ⊆ ∅ := fun h => (hne i List.mem_cons_self).ne_empty (Set.subset_empty_iff.1 h)
    rw [take_cons_of_not_subset hnot]
    exact ih fun j hj => hne j (List.mem_cons_of_mem i hj)

theorem mem_of_mem_take (h : i ∈ take s l f) : i ∈ l ∧ s i ⊆ f := by
  induction l generalizing f with
  | nil => cases h
  | cons j l ih =>
    by_cases hj : s j ⊆ f
    · rw [take_cons_of_subset hj] at h
      rcases List.mem_cons.1 h with rfl | h
      · exact ⟨List.mem_cons_self, hj⟩
      · obtain ⟨hmem, hsub⟩ := ih h
        exact ⟨List.mem_cons_of_mem j hmem, hsub.trans Set.sdiff_subset⟩
    · rw [take_cons_of_not_subset hj] at h
      obtain ⟨hmem, hsub⟩ := ih h
      exact ⟨List.mem_cons_of_mem j hmem, hsub⟩

/-- What is taken is apart. -/
private theorem take_disjoint : (take s l f).Pairwise fun i j => Disjoint (s i) (s j) := by
  induction l generalizing f with
  | nil => exact .nil
  | cons i l ih =>
    by_cases hi : s i ⊆ f
    · rw [take_cons_of_subset hi]
      refine List.pairwise_cons.2 ⟨fun j hj => ?_, ih⟩
      exact Set.disjoint_sdiff_right.mono_right (mem_of_mem_take hj).2
    · rw [take_cons_of_not_subset hi]
      exact ih

private theorem Family.tail (h : Family s (i :: l)) : Family s l :=
  ⟨fun j hj => h.nonempty j (List.mem_cons_of_mem i hj), (List.pairwise_cons.1 h.nested).2⟩

/-- Two sets of a family are disjoint or nested, and only a set is equal to itself. -/
theorem Family.cases (h : Family s l) (hi : i ∈ l) (hj : j ∈ l) :
    i = j ∨ Disjoint (s i) (s j) ∨ s j ⊂ s i ∨ s i ⊂ s j := by
  induction l with
  | nil => cases hi
  | cons k l ih =>
    have hk := (List.pairwise_cons.1 h.nested).1
    rcases List.mem_cons.1 hi with rfl | hi'
    · rcases List.mem_cons.1 hj with rfl | hj'
      · exact Or.inl rfl
      · rcases hk j hj' with hd | hs
        · exact Or.inr (Or.inl hd)
        · exact Or.inr (Or.inr (Or.inl hs))
    · rcases List.mem_cons.1 hj with rfl | hj'
      · rcases hk i hi' with hd | hs
        · exact Or.inr (Or.inl hd.symm)
        · exact Or.inr (Or.inr (Or.inr hs))
      · exact ih h.tail hi' hj'

theorem Family.eq_of_subset (h : Family s l) (hi : i ∈ l) (hj : j ∈ l) (hij : s i ⊆ s j) (hji : s j ⊆ s i) :
    i = j := by
  rcases h.cases hi hj with heq | hd | hs | hs
  · exact heq
  · exact absurd (hd.eq_bot_of_le hij) (h.nonempty i hi).ne_empty
  · exact absurd hij hs.2
  · exact absurd hji hs.2

/-- Every set inside `f` is inside one that is taken. -/
private theorem Family.exists_take (h : Family s l) (hi : i ∈ l) (hf : s i ⊆ f) : ∃ j ∈ take s l f, s i ⊆ s j := by
  induction l generalizing f with
  | nil => cases hi
  | cons k l ih =>
    by_cases hk : s k ⊆ f
    · rw [take_cons_of_subset hk]
      rcases List.mem_cons.1 hi with rfl | hi
      · exact ⟨i, List.mem_cons_self, subset_rfl⟩
      · rcases (List.pairwise_cons.1 h.nested).1 i hi with hd | hs
        · obtain ⟨j, hj, hij⟩ := ih h.tail hi (f := f \ s k) (Set.subset_sdiff.2 ⟨hf, hd.symm⟩)
          exact ⟨j, List.mem_cons_of_mem k hj, hij⟩
        · exact ⟨k, List.mem_cons_self, hs.1⟩
    · rw [take_cons_of_not_subset hk]
      rcases List.mem_cons.1 hi with rfl | hi
      · exact absurd hf hk
      · exact ih h.tail hi hf

/-- Of what is taken, no set is inside another. -/
private theorem Family.eq_of_take (h : Family s l) (hi : i ∈ take s l f) (hj : j ∈ take s l f)
    (hij : s i ⊆ s j) : i = j := by
  by_contra hne
  have hsymm : Std.Symm fun i j => Disjoint (s i) (s j) := ⟨fun _ _ hd => hd.symm⟩
  have hd : Disjoint (s i) (s j) := take_disjoint.forall hi hj hne
  exact (h.nonempty i (mem_of_mem_take hi).1).ne_empty (hd.eq_bot_of_le hij)

/-- The largest sets inside `f` are taken, and no others. -/
theorem Family.mem_take (h : Family s l) : i ∈ take s l f ↔ i ∈ l ∧ Largest s l f i := by
  constructor
  · intro hi
    obtain ⟨hmem, hsub⟩ := mem_of_mem_take hi
    refine ⟨hmem, hsub, fun j hj hjf hij => ?_⟩
    obtain ⟨k, hk, hjk⟩ := h.exists_take hj hjf
    rw [h.eq_of_take hi hk (hij.trans hjk)]
    exact hjk
  · rintro ⟨hmem, hsub, hlargest⟩
    obtain ⟨j, hj, hij⟩ := h.exists_take hmem hsub
    obtain ⟨hjl, hjf⟩ := mem_of_mem_take hj
    rw [h.eq_of_subset hmem hjl hij (hlargest j hjl hjf hij)]
    exact hj

/-- What is taken covers all that sets inside `f` do. -/
theorem Family.union_take (h : Family s l) : union s (take s l f) = { b | ∃ i ∈ l, s i ⊆ f ∧ b ∈ s i } := by
  ext b
  rw [mem_union]
  constructor
  · rintro ⟨i, hi, hb⟩
    obtain ⟨hmem, hsub⟩ := mem_of_mem_take hi
    exact ⟨i, hmem, hsub, hb⟩
  · rintro ⟨i, hi, hf, hb⟩
    obtain ⟨j, hj, hij⟩ := h.exists_take hi hf
    exact ⟨j, hj, hij hb⟩

theorem union_take_subset : union s (take s l f) ⊆ f := by
  intro b hb
  obtain ⟨i, hi, hbi⟩ := mem_union.1 hb
  exact (mem_of_mem_take hi).2 hbi

/-- Elements that no set has are of no account. -/
theorem take_union (hx : ∀ i ∈ l, Disjoint (s i) x) : take s l (f ∪ x) = take s l f := by
  induction l generalizing f with
  | nil => rfl
  | cons i l ih =>
    have hi := hx i List.mem_cons_self
    have hl : ∀ j ∈ l, Disjoint (s j) x := fun j hj => hx j (List.mem_cons_of_mem i hj)
    have hiff : s i ⊆ f ∪ x ↔ s i ⊆ f :=
      ⟨fun h => hi.subset_left_of_subset_union h, fun h => h.trans Set.subset_union_left⟩
    by_cases hf : s i ⊆ f
    · rw [take_cons_of_subset hf, take_cons_of_subset (hiff.2 hf), Set.union_sdiff_distrib, hi.symm.sdiff_eq_left,
        ih hl]
    · rw [take_cons_of_not_subset hf, take_cons_of_not_subset (mt hiff.1 hf), ih hl]

/-! ### Two families with the same shape -/

/-- The sets have one shape on both sides, and on the other side each has an element that no set inside it has. -/
structure Matched (s o : ι → Set β) (l : List ι) : Prop where
  left : Family s l
  right : Family o l
  same : ∀ i ∈ l, ∀ j ∈ l, s i ⊆ s j ↔ o i ⊆ o j
  own : ∀ i ∈ l, ∃ b ∈ o i, ∀ j ∈ l, o j ⊂ o i → b ∉ o j

/-- A set inside a union is inside one of the sets it is the union of. -/
private theorem Matched.exists_subset (h : Matched s o l) {m : List ι} (hm : ∀ j ∈ m, j ∈ l) (hi : i ∈ l)
    (hsub : o i ⊆ union o m) : ∃ j ∈ m, o i ⊆ o j := by
  obtain ⟨b, hb, hown⟩ := h.own i hi
  obtain ⟨j, hj, hbj⟩ := mem_union.1 (hsub hb)
  refine ⟨j, hj, ?_⟩
  rcases h.right.cases hi (hm j hj) with rfl | hd | hs | hs
  · exact subset_rfl
  · exact absurd hbj (Set.disjoint_left.1 hd hb)
  · exact absurd hbj (hown j (hm j hj) hs)
  · exact hs.1

/-- What was taken on the one side is what is taken from its union on the other. -/
theorem Matched.mem_take (h : Matched s o l) : i ∈ take o l (union o (take s l f)) ↔ i ∈ take s l f := by
  have hmem : ∀ j ∈ take s l f, j ∈ l := fun j hj => (mem_of_mem_take hj).1
  constructor
  · intro hi
    obtain ⟨hil, hsub, hlargest⟩ := h.right.mem_take.1 hi
    obtain ⟨k, hk, hik⟩ := h.exists_subset hmem hil hsub
    have hki := hlargest k (hmem k hk) (subset_union hk) hik
    rw [h.right.eq_of_subset hil (hmem k hk) hik hki]
    exact hk
  · intro hi
    refine h.right.mem_take.2 ⟨hmem i hi, subset_union hi, fun j hj hjsub hij => ?_⟩
    obtain ⟨k, hk, hjk⟩ := h.exists_subset hmem hj hjsub
    have hik := (h.same i (hmem i hi) k (hmem k hk)).2 (hij.trans hjk)
    rw [h.left.eq_of_take hi hk hik]
    exact hjk

/-! ### Sets that need not be strictly nested -/

/-- Any two sets of the list are disjoint, or the later one is inside the earlier one, to which it may be equal. -/
structure Nested (s : ι → Set β) (l : List ι) : Prop where
  nonempty : ∀ i ∈ l, (s i).Nonempty
  nested : l.Pairwise fun i j => Disjoint (s i) (s j) ∨ s j ⊆ s i

private theorem Nested.tail (h : Nested s (i :: l)) : Nested s l :=
  ⟨fun j hj => h.nonempty j (List.mem_cons_of_mem i hj), (List.pairwise_cons.1 h.nested).2⟩

/-- What is inside `f` fits into what the first set leaves of it, exactly if it is not inside that set. -/
private theorem Nested.subset_sdiff (h : Nested s (i :: l)) (hj : j ∈ l) (hf : s j ⊆ f) :
    s j ⊆ f \ s i ↔ ¬s j ⊆ s i := by
  constructor
  · intro hsub hin
    obtain ⟨b, hb⟩ := h.nonempty j (List.mem_cons_of_mem i hj)
    exact (hsub hb).2 (hin hb)
  · intro hnot
    rcases (List.pairwise_cons.1 h.nested).1 j hj with hd | hin
    · exact Set.subset_sdiff.2 ⟨hf, hd.symm⟩
    · exact absurd hin hnot

/-- The sets that are taken are those inside `f` that are not inside an earlier one inside `f`. -/
theorem Nested.mem_take {r : ι → ι → Prop} (hr : ∀ i j, r i j → ¬r j i) (h : Nested s l) (hl : l.Pairwise r) :
    i ∈ take s l f ↔ i ∈ l ∧ s i ⊆ f ∧ ∀ j ∈ l, r j i → s j ⊆ f → ¬s i ⊆ s j := by
  induction l generalizing f with
  | nil => simp [take]
  | cons k l ih =>
    obtain ⟨hk, hl⟩ := List.pairwise_cons.1 hl
    have hfirst (hi : i = k) (j : ι) (hj : j ∈ k :: l) : ¬r j i := by
      subst hi
      rcases List.mem_cons.1 hj with rfl | hj
      · intro hji
        exact hr _ _ hji hji
      · exact hr _ _ (hk j hj)
    by_cases hkf : s k ⊆ f
    · rw [take_cons_of_subset hkf, List.mem_cons, ih h.tail hl]
      constructor
      · rintro (rfl | ⟨hi, hsub, hnot⟩)
        · exact ⟨List.mem_cons_self, hkf, fun j hj hji => absurd hji (hfirst rfl j hj)⟩
        · have hif : s i ⊆ f := hsub.trans Set.sdiff_subset
          have hik : ¬s i ⊆ s k := (h.subset_sdiff hi hif).1 hsub
          refine ⟨List.mem_cons_of_mem k hi, hif, fun j hj hji hjf hij => ?_⟩
          rcases List.mem_cons.1 hj with rfl | hj
          · exact hik hij
          · have hjk : ¬s j ⊆ s k := fun hsub => hik (hij.trans hsub)
            exact hnot j hj hji ((h.subset_sdiff hj hjf).2 hjk) hij
      · rintro ⟨hi, hif, hnot⟩
        rcases List.mem_cons.1 hi with rfl | hi
        · exact Or.inl rfl
        · have hik : ¬s i ⊆ s k := hnot k List.mem_cons_self (hk i hi) hkf
          refine Or.inr ⟨hi, (h.subset_sdiff hi hif).2 hik, fun j hj hji hjf => ?_⟩
          exact hnot j (List.mem_cons_of_mem k hj) hji (hjf.trans Set.sdiff_subset)
    · rw [take_cons_of_not_subset hkf, ih h.tail hl]
      constructor
      · rintro ⟨hi, hif, hnot⟩
        refine ⟨List.mem_cons_of_mem k hi, hif, fun j hj hji hjf => ?_⟩
        rcases List.mem_cons.1 hj with rfl | hj
        · exact absurd hjf hkf
        · exact hnot j hj hji hjf
      · rintro ⟨hi, hif, hnot⟩
        rcases List.mem_cons.1 hi with rfl | hi
        · exact absurd hif hkf
        · exact ⟨hi, hif, fun j hj => hnot j (List.mem_cons_of_mem k hj)⟩

end Laminar
