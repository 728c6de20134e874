import Mathlib.Data.List.Infix

/-!
# Where a list occurs in another

The offsets at which a list stands in another, the first from an offset on and the last of all.
-/

namespace Occurrences

section find

variable {P : Nat → Prop} {p q n k : Nat} {r : Option Nat}

/-- The first from `p` on, if there is one. -/
def IsFirst (P : Nat → Prop) (p : Nat) : Option Nat → Prop
  | none => ∀ k, p ≤ k → ¬P k
  | some k => p ≤ k ∧ P k ∧ ∀ j, p ≤ j → j < k → ¬P j

/-- The last of all, if there is one. -/
def IsLast (P : Nat → Prop) : Option Nat → Prop
  | none => ∀ k, ¬P k
  | some k => P k ∧ ∀ j, P j → j ≤ k

/-- What is not before `q` need not be looked for there. -/
theorem IsFirst.skip (hle : p ≤ q) (hnot : ∀ j, p ≤ j → j < q → ¬P j) (h : IsFirst P q r) : IsFirst P p r := by
  cases r with
  | none =>
    intro k hk
    rcases Nat.lt_or_ge k q with hlt | hge
    · exact hnot k hk hlt
    · exact h k hge
  | some k =>
    obtain ⟨hqk, hk, hbefore⟩ := h
    refine ⟨hle.trans hqk, hk, fun j hj hjk => ?_⟩
    rcases Nat.lt_or_ge j q with hlt | hge
    · exact hnot j hj hlt
    · exact hbefore j hge hjk

/-- The first of the `n` from `p` on. -/
def findFrom (P : Nat → Prop) [DecidablePred P] : Nat → Nat → Option Nat
  | _, 0 => none
  | p, n + 1 => if P p then some p else findFrom P (p + 1) n

variable [DecidablePred P]

theorem findFrom_some (h : findFrom P p n = some k) : k < p + n ∧ IsFirst P p (some k) := by
  induction n generalizing p with
  | zero => cases h
  | succ n ih =>
    rw [findFrom] at h
    split at h
    · rename_i hp
      cases h
      exact ⟨by omega, Nat.le_refl _, hp, fun j hj hjp => absurd hj (by omega)⟩
    · rename_i hp
      obtain ⟨hlt, hfirst⟩ := ih h
      refine ⟨by omega, hfirst.skip (Nat.le_succ p) fun j hj hjp => ?_⟩
      rwa [Nat.le_antisymm (Nat.le_of_lt_succ hjp) hj]

theorem findFrom_none (h : findFrom P p n = none) {j : Nat} (hj : p ≤ j) (hlt : j < p + n) : ¬P j := by
  induction n generalizing p with
  | zero => omega
  | succ n ih =>
    rw [findFrom] at h
    split at h
    · cases h
    · rename_i hp
      rcases Nat.eq_or_lt_of_le hj with rfl | hgt
      · exact hp
      · exact ih h hgt (by omega)

end find

section occurs

variable {α : Type} {needle l : List α} {k : Nat} {c : α}

/-- The needle stands in the list from offset `k` on. -/
def OccursAt (needle l : List α) (k : Nat) : Prop := k ≤ l.length ∧ needle <+: l.drop k

instance [DecidableEq α] (needle l : List α) : DecidablePred (OccursAt needle l) :=
  fun k => inferInstanceAs (Decidable (k ≤ l.length ∧ needle <+: l.drop k))

theorem occursAt_nil : OccursAt [] l k ↔ k ≤ l.length := and_iff_left List.nil_prefix

theorem OccursAt.le (h : OccursAt needle l k) : k + needle.length ≤ l.length := by
  have hle := h.2.length_le
  rw [List.length_drop] at hle
  have hk := h.1
  omega

/-- It stands there if as many elements as it has are the same. -/
theorem occursAt_iff_take (h : k + needle.length ≤ l.length) :
    OccursAt needle l k ↔ (l.drop k).take needle.length = needle := by
  constructor
  · intro hoccurs
    exact (List.prefix_iff_eq_take.1 hoccurs.2).symm
  · intro heq
    exact ⟨by omega, List.prefix_iff_eq_take.2 heq.symm⟩

/-- Its first element is there. -/
theorem OccursAt.head (h : OccursAt (c :: needle) l k) : l[k]? = some c := by
  obtain ⟨rest, hrest⟩ := h.2
  rw [← List.head?_drop, ← hrest]
  rfl

/-- What ends a string is found at its end. -/
theorem findIdx?_end [DecidableEq α] {s rest : List α} (hs : c ∉ s) :
    (s ++ c :: rest).findIdx? (· = c) = some s.length := by
  induction s with
  | nil => simp [List.findIdx?_cons]
  | cons b s ih =>
    rw [List.mem_cons, not_or] at hs
    obtain ⟨hb, hs⟩ := hs
    rw [List.cons_append, List.findIdx?_cons, ih hs]
    simp [Ne.symm hb]

end occurs

end Occurrences
