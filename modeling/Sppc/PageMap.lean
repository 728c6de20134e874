import Mathlib.Logic.Basic
import Mathlib.Data.Set.Basic

/-!
# What is mapped where

The pages of a process's memory, with what each of them maps.  Parts that are mapped where nothing is can be told
apart again: what a page maps says which part it is of, and to unmap the parts of one owner leaves those of all
others.
-/

/-- What the pages map, where they map anything. -/
def PageMap (α : Type*) := Nat → Option α

namespace PageMap

variable {α ι : Type*} {m : PageMap α} {p : Nat} {x : α}

/-- Pages from `base` on, of which page `i` maps `use i`. -/
structure Part (α : Type*) where
  base : Nat
  n : Nat
  use : Nat → α

/-- What a part has at a page. -/
def Part.at (q : Part α) (p : Nat) : Option α :=
  if q.base ≤ p ∧ p < q.base + q.n then some (q.use (p - q.base)) else none

/-- Nothing is mapped where the part would be. -/
def Free (m : PageMap α) (q : Part α) : Prop := ∀ p, q.base ≤ p → p < q.base + q.n → m p = none

def map (m : PageMap α) (q : Part α) : PageMap α := fun p => (q.at p).orElse fun _ => m p

def unmap (m : PageMap α) (base n : Nat) : PageMap α := fun p => if base ≤ p ∧ p < base + n then none else m p

theorem Part.at_eq_some {q : Part α} : q.at p = some x ↔ q.base ≤ p ∧ p < q.base + q.n ∧ q.use (p - q.base) = x := by
  unfold Part.at
  split
  · rename_i hp
    rw [Option.some.injEq]
    exact ⟨fun h => ⟨hp.1, hp.2, h⟩, fun h => h.2.2⟩
  · rename_i hp
    exact ⟨fun h => (by cases h), fun h => absurd ⟨h.1, h.2.1⟩ hp⟩

/-- A part that is mapped where nothing is comes to what is mapped already. -/
private theorem map_eq_some {q : Part α} (hfree : m.Free q) :
    m.map q p = some x ↔ q.at p = some x ∨ m p = some x := by
  unfold map
  cases hat : q.at p with
  | some y =>
    obtain ⟨hle, hlt, -⟩ := Part.at_eq_some.1 hat
    simp [hfree p hle hlt]
  | none => simp

private theorem unmap_eq_some {base n : Nat} :
    m.unmap base n p = some x ↔ m p = some x ∧ ¬(base ≤ p ∧ p < base + n) := by
  unfold unmap
  split
  · rename_i hp
    exact ⟨fun h => (by cases h), fun h => absurd hp h.2⟩
  · rename_i hp
    exact ⟨fun h => ⟨h, hp⟩, fun h => h.1⟩

/-- Two parts have no page in common. -/
def Part.Apart (q r : Part α) : Prop := ∀ p, ¬((q.base ≤ p ∧ p < q.base + q.n) ∧ r.base ≤ p ∧ p < r.base + r.n)

/-- A place is free yet once a part elsewhere is mapped. -/
theorem Free.map {q r : Part α} (h : m.Free q) (hapart : q.Apart r) : (m.map r).Free q := by
  intro p hle hlt
  have hat : r.at p = none := if_neg fun hr => hapart p ⟨⟨hle, hlt⟩, hr⟩
  rw [PageMap.map, hat]
  exact h p hle hlt

/-- What is unmapped again leaves nothing. -/
theorem unmap_map {q : Part α} (hfree : m.Free q) : (m.map q).unmap q.base q.n = m := by
  funext p
  unfold unmap map Part.at
  split
  · rename_i hp
    exact (hfree p hp.1 hp.2).symm
  · simp

/-- The parts of each owner are all that is mapped. -/
def Owned (m : PageMap α) (parts : ι → List (Part α)) : Prop :=
  ∀ p x, m p = some x ↔ ∃ t, ∃ q ∈ parts t, q.at p = some x

section owned

variable [DecidableEq ι] {parts : ι → List (Part α)} {t : ι}

/-- An owner with no part maps one. -/
theorem Owned.map (h : m.Owned parts) {q : Part α} (hfree : m.Free q) :
    (m.map q).Owned (Function.update parts t (q :: parts t)) := by
  intro p x
  rw [map_eq_some hfree, h p x]
  constructor
  · rintro (hq | ⟨u, r, hr, hat⟩)
    · exact ⟨t, q, by simp, hq⟩
    · by_cases hu : u = t
      · subst hu
        exact ⟨u, r, by simp [hr], hat⟩
      · exact ⟨u, r, by simpa [hu] using hr, hat⟩
  · rintro ⟨u, r, hr, hat⟩
    by_cases hu : u = t
    · subst hu
      rw [Function.update_self, List.mem_cons] at hr
      rcases hr with rfl | hr
      · exact Or.inl hat
      · exact Or.inr ⟨u, r, hr, hat⟩
    · rw [Function.update_of_ne hu] at hr
      exact Or.inr ⟨u, r, hr, hat⟩

/-- The parts of an owner are unmapped, one after the other. -/
def unmapAll (m : PageMap α) (qs : List (Part α)) : PageMap α := qs.foldl (fun m q => m.unmap q.base q.n) m

private theorem unmapAll_eq_some {qs : List (Part α)} :
    m.unmapAll qs p = some x ↔ m p = some x ∧ ∀ q ∈ qs, ¬(q.base ≤ p ∧ p < q.base + q.n) := by
  induction qs generalizing m with
  | nil => simp [unmapAll]
  | cons q qs ih =>
    rw [unmapAll, List.foldl_cons, ← unmapAll, ih, unmap_eq_some, List.forall_mem_cons, and_assoc]

/-- An owner that unmaps its parts leaves those of the others, if what a page maps says whose it is. -/
theorem Owned.unmapAll (h : m.Owned parts) (hkeys : ∀ u ≠ t, ∀ q ∈ parts t, ∀ r ∈ parts u, ∀ i j, q.use i ≠ r.use j) :
    (m.unmapAll (parts t)).Owned (Function.update parts t []) := by
  intro p x
  rw [unmapAll_eq_some, h p x]
  constructor
  · rintro ⟨⟨u, r, hr, hat⟩, hout⟩
    by_cases hu : u = t
    · subst hu
      obtain ⟨hle, hlt, -⟩ := Part.at_eq_some.1 hat
      exact absurd ⟨hle, hlt⟩ (hout r hr)
    · exact ⟨u, r, by simpa [hu] using hr, hat⟩
  · rintro ⟨u, r, hr, hat⟩
    have hu : u ≠ t := by
      rintro rfl
      rw [Function.update_self] at hr
      cases hr
    rw [Function.update_of_ne hu] at hr
    refine ⟨⟨u, r, hr, hat⟩, fun q hq hp => ?_⟩
    -- the page would be of both
    have hmine : m p = some (q.use (p - q.base)) := (h p _).2 ⟨t, q, hq, Part.at_eq_some.2 ⟨hp.1, hp.2, rfl⟩⟩
    have htheirs : m p = some x := (h p x).2 ⟨u, r, hr, hat⟩
    obtain ⟨-, -, hx⟩ := Part.at_eq_some.1 hat
    rw [hmine, Option.some.injEq, ← hx] at htheirs
    exact hkeys u hu q hq r hr _ _ htheirs

end owned

end PageMap
