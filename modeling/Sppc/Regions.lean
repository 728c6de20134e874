import Mathlib.Data.List.Basic
import Mathlib.Order.MinMax

/-!
# Regions of pages

A map from pages to what they are, cut into regions, each a run of pages that are alike.  A query says where the
region of a page ends, and a change of a range cuts there first.  Regions next to one another that are alike may be
joined after any change.
-/

/-- The pages below `top`, of which those that are mapped are something, and where the regions start. -/
structure RegionMap (α : Type) where
  top : Nat
  val : Nat → Option α
  cut : Nat → Bool
  below : ∀ p v, val p = some v → p < top
  alike : ∀ p, cut (p + 1) = false → val (p + 1) = val p

namespace RegionMap

variable {α : Type} {m : RegionMap α} {p q a b z : Nat} {v : α}

/-! ### Queries -/

/-- The first page from `p` on, of at most `n`, that starts a region. -/
def stopFrom (m : RegionMap α) : Nat → Nat → Nat
  | 0, p => p
  | n + 1, p => if m.cut p then p else m.stopFrom n (p + 1)

/-- The end of the region of the page `p`. -/
def stop (m : RegionMap α) (p : Nat) : Nat := m.stopFrom (m.top - (p + 1)) (p + 1)

/-- The start of the region of a page. -/
def start (m : RegionMap α) : Nat → Nat
  | 0 => 0
  | p + 1 => if m.cut (p + 1) then p + 1 else m.start p

/-- The first mapped page from `p` on, of at most `n`. -/
def nextFrom (m : RegionMap α) : Nat → Nat → Option Nat
  | 0, _ => none
  | n + 1, p => if (m.val p).isSome then some p else m.nextFrom n (p + 1)

/-- The region of the page `p`, or the first one after it: where it starts, where it ends, and what it is. -/
def query (m : RegionMap α) (p : Nat) : Option (Nat × Nat × α) :=
  (m.nextFrom (m.top - p) p).bind fun q => (m.val q).map fun v => (m.start q, m.stop q, v)

private theorem le_stopFrom (m : RegionMap α) (n p : Nat) : p ≤ m.stopFrom n p := by
  induction n generalizing p with
  | zero => exact Nat.le_refl p
  | succ n ih =>
    rw [stopFrom]
    split
    · exact Nat.le_refl p
    · exact Nat.le_trans (Nat.le_succ p) (ih (p + 1))

private theorem stopFrom_le (m : RegionMap α) (n p : Nat) : m.stopFrom n p ≤ p + n := by
  induction n generalizing p with
  | zero => exact Nat.le_refl p
  | succ n ih =>
    rw [stopFrom]
    split
    · omega
    · have hle := ih (p + 1)
      omega

private theorem val_stopFrom {n x : Nat} (hx : p ≤ x) (hlt : x < m.stopFrom n (p + 1)) : m.val x = m.val p := by
  induction n generalizing p with
  | zero =>
    rw [stopFrom] at hlt
    rw [show x = p by omega]
  | succ n ih =>
    by_cases hxp : x = p
    · rw [hxp]
    · rw [stopFrom] at hlt
      split at hlt
      · omega
      · rename_i hcut
        rw [ih (by omega) hlt]
        exact m.alike p (by simpa using hcut)

private theorem lt_stop (m : RegionMap α) (p : Nat) : p < m.stop p := m.le_stopFrom _ _

private theorem stop_le (hp : p < m.top) : m.stop p ≤ m.top := by
  have hle := m.stopFrom_le (m.top - (p + 1)) (p + 1)
  unfold stop
  omega

private theorem start_le (m : RegionMap α) (p : Nat) : m.start p ≤ p := by
  induction p with
  | zero => exact Nat.le_refl 0
  | succ p ih =>
    rw [start]
    split
    · exact Nat.le_refl _
    · omega

private theorem val_start {x : Nat} (hx : m.start p ≤ x) (hle : x ≤ p) : m.val x = m.val p := by
  induction p with
  | zero => rw [show x = 0 by omega]
  | succ p ih =>
    rw [start] at hx
    split at hx
    · rw [show x = p + 1 by omega]
    · rename_i hcut
      by_cases hxp : x = p + 1
      · rw [hxp]
      · rw [ih hx (by omega)]
        exact (m.alike p (by simpa using hcut)).symm

private theorem nextFrom_some {n : Nat} (h : m.nextFrom n p = some q) : p ≤ q ∧ (m.val q).isSome ∧
    ∀ x, p ≤ x → x < q → m.val x = none := by
  induction n generalizing p with
  | zero => cases h
  | succ n ih =>
    rw [nextFrom] at h
    split at h
    · rename_i hval
      obtain rfl : p = q := Option.some.inj h
      exact ⟨Nat.le_refl p, hval, fun x _ _ => by omega⟩
    · rename_i hval
      obtain ⟨hle, hsome, hnone⟩ := ih h
      refine ⟨by omega, hsome, fun x hx hlt => ?_⟩
      by_cases hxp : x = p
      · rw [hxp]
        simpa using hval
      · exact hnone x (by omega) hlt

private theorem nextFrom_none {n : Nat} (h : m.nextFrom n p = none) : ∀ x, p ≤ x → x < p + n → m.val x = none := by
  induction n generalizing p with
  | zero =>
    intro x hx hlt
    omega
  | succ n ih =>
    rw [nextFrom] at h
    split at h
    · cases h
    · rename_i hval
      intro x hx hlt
      by_cases hxp : x = p
      · rw [hxp]
        simpa using hval
      · exact ih h x (by omega) (by omega)

theorem query_none (h : m.query p = none) : m.val p = none := by
  unfold query at h
  cases hnext : m.nextFrom (m.top - p) p with
  | none =>
    cases hval : m.val p with
    | none => rfl
    | some v =>
      have hlt := m.below p v hval
      have hnone := nextFrom_none hnext p (Nat.le_refl p) (by omega)
      rw [hval] at hnone
      cases hnone
  | some q =>
    obtain ⟨-, hsome, -⟩ := nextFrom_some hnext
    obtain ⟨v, hv⟩ := Option.isSome_iff_exists.1 hsome
    rw [hnext] at h
    simp only [Option.bind_some, hv, Option.map_some] at h
    cases h

/-- What a query says: the page's own region, or that the page is not mapped. -/
theorem query_some (h : m.query p = some (a, z, v)) :
    (a ≤ p ∧ p < z ∧ z ≤ m.top ∧ ∀ x, a ≤ x → x < z → m.val x = some v) ∨ (p < a ∧ m.val p = none) := by
  unfold query at h
  obtain ⟨q, hq, h⟩ := Option.bind_eq_some_iff.1 h
  obtain ⟨w, hw, heq⟩ := Option.map_eq_some_iff.1 h
  rw [Prod.mk.injEq, Prod.mk.injEq] at heq
  obtain ⟨rfl, rfl, rfl⟩ := heq
  obtain ⟨hle, -, hnone⟩ := nextFrom_some hq
  by_cases hpq : p = q
  · subst hpq
    refine Or.inl ⟨m.start_le p, m.lt_stop p, stop_le (m.below p w hw), fun x hx hlt => ?_⟩
    by_cases hxp : x ≤ p
    · rw [val_start hx hxp, hw]
    · rw [← hw]
      exact val_stopFrom (by omega) hlt
  · right
    have hp : m.val p = none := hnone p (Nat.le_refl p) (by omega)
    refine ⟨?_, hp⟩
    by_contra hstart
    have hval := val_start (m := m) (p := q) (Nat.le_of_not_lt hstart) hle
    rw [hp, hw] at hval
    cases hval

/-! ### Changes -/

variable [DecidableEq α]

/-- What the pages are after a change of those from `a` to `b`. -/
def changed (m : RegionMap α) (a b : Nat) (g : Option α → Option α) (p : Nat) : Option α :=
  if a ≤ p ∧ p < b then g (m.val p) else m.val p

/-- The pages from `a` to `b` are changed by `g`, and regions that are alike are joined where `joins` says so. -/
def change (m : RegionMap α) (joins : Nat → Bool) (a b : Nat) (g : Option α → Option α) : RegionMap α where
  top := max m.top b
  val := m.changed a b g
  cut p := if joins p ∧ m.changed a b g p = m.changed a b g (p - 1) then false else m.cut p || p = a || p = b
  below := by
    intro p v h
    unfold changed at h
    split at h
    · exact lt_max_of_lt_right (by omega)
    · exact lt_max_of_lt_left (m.below p v h)
  alike := by
    intro p h
    split at h
    · rename_i hjoin
      exact hjoin.2
    · simp only [Bool.or_eq_false_iff, decide_eq_false_iff_not] at h
      obtain ⟨⟨hcut, ha⟩, hb⟩ := h
      unfold changed
      rw [m.alike p hcut]
      exact if_congr (by omega) rfl rfl

variable {joins : Nat → Bool} {g : Option α → Option α}

theorem change_inside (ha : a ≤ p) (hb : p < b) : (m.change joins a b g).val p = g (m.val p) := by
  exact if_pos ⟨ha, hb⟩

theorem change_outside (h : ¬(a ≤ p ∧ p < b)) : (m.change joins a b g).val p = m.val p := by
  exact if_neg h

end RegionMap
