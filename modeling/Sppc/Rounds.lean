import Mathlib.Data.List.Nodup
import Mathlib.Logic.Function.Basic

/-!
# Rounds of arrivals

What a barrier is for, without the barrier.  Participants arrive in rounds; the one that fills a round opens it, and
whoever arrived in an opened round may leave it, once, the opener as the serial one.  `Rounds.Ok` is what this amounts
to, and each way in which the record grows keeps it.
-/

/-- The number of rounds opened, and by round who has arrived, who opened it, and who has left it as what. -/
structure Rounds (α : Type) where
  round : Nat
  arrived : Nat → List α
  opener : Nat → Option α
  left : Nat → List (α × Bool)

namespace Rounds

variable {α : Type}

/-- Nobody has arrived. -/
def start : Rounds α := ⟨0, fun _ => [], fun _ => none, fun _ => []⟩

/-- `a` arrives in the present round. -/
def arrive (R : Rounds α) (a : α) : Rounds α :=
  { R with arrived := Function.update R.arrived R.round (a :: R.arrived R.round) }

/-- `a` arrives in the present round and fills it. -/
def fill (R : Rounds α) (a : α) : Rounds α :=
  { R.arrive a with opener := Function.update R.opener R.round (some a) }

/-- The present round opens. -/
def opens (R : Rounds α) : Rounds α := { R with round := R.round + 1 }

/-- `a` leaves the round `k`. -/
def leave (R : Rounds α) (a : α) (k : Nat) (serial : Bool) : Rounds α :=
  { R with left := Function.update R.left k ((a, serial) :: R.left k) }

/-- Every opened round has had `count` arrivals, of different participants, one of them its opener; who has left a
round had arrived in it and left it once, after it had opened, and as the serial one exactly if he opened it. -/
structure Ok (count : Nat) (R : Rounds α) : Prop where
  full : ∀ k < R.round, (R.arrived k).length = count ∧ ∃ a ∈ R.arrived k, R.opener k = some a
  different : ∀ k, (R.arrived k).Nodup
  later : ∀ k > R.round, R.arrived k = []
  openers : ∀ k a, R.opener k = some a → a ∈ R.arrived k
  left : ∀ k, ∀ x ∈ R.left k, k < R.round ∧ x.1 ∈ R.arrived k ∧ (x.2 = true ↔ R.opener k = some x.1)
  once : ∀ k, ((R.left k).map Prod.fst).Nodup

variable {count : Nat} {R : Rounds α} {a : α} {k : Nat}

@[simp] theorem arrive_round : (R.arrive a).round = R.round := rfl

@[simp] theorem fill_round : (R.fill a).round = R.round := rfl

@[simp] theorem opens_round : R.opens.round = R.round + 1 := rfl

@[simp] theorem leave_round {serial : Bool} : (R.leave a k serial).round = R.round := rfl

theorem arrive_arrived : (R.arrive a).arrived R.round = a :: R.arrived R.round := by simp [arrive]

theorem arrive_arrived_of_ne (hk : k ≠ R.round) : (R.arrive a).arrived k = R.arrived k := by simp [arrive, hk]

theorem subset_arrive : R.arrived k ⊆ (R.arrive a).arrived k := by
  by_cases hk : k = R.round
  · subst hk
    rw [arrive_arrived]
    exact List.subset_cons_self a _
  · rw [arrive_arrived_of_ne hk]
    exact List.Subset.refl _

theorem leave_left {serial : Bool} : (R.leave a k serial).left k = (a, serial) :: R.left k := by simp [leave]

theorem leave_left_of_ne {serial : Bool} {j : Nat} (hj : j ≠ k) : (R.leave a k serial).left j = R.left j := by
  simp [leave, hj]

theorem start_ok : Ok count (start : Rounds α) where
  full := fun k hk => absurd hk (Nat.not_lt_zero k)
  different := fun _ => List.nodup_nil
  later := fun _ _ => rfl
  openers := fun _ _ ha => by cases ha
  left := fun _ x hx => by cases hx
  once := fun _ => List.nodup_nil

theorem Ok.arrive (h : R.Ok count) (ha : a ∉ R.arrived R.round) : (R.arrive a).Ok count where
  full := by
    intro k hk
    rw [arrive_arrived_of_ne (by rw [arrive_round] at hk; omega)]
    exact h.full k hk
  different := by
    intro k
    by_cases hk : k = R.round
    · subst hk
      rw [arrive_arrived]
      exact List.nodup_cons.2 ⟨ha, h.different _⟩
    · rw [arrive_arrived_of_ne hk]
      exact h.different k
  later := by
    intro k hk
    rw [arrive_arrived_of_ne (by rw [arrive_round] at hk; omega)]
    exact h.later k hk
  openers := fun k b hb => subset_arrive (h.openers k b hb)
  left := by
    intro k x hx
    obtain ⟨hk, hmem, hserial⟩ := h.left k x hx
    exact ⟨hk, subset_arrive hmem, hserial⟩
  once := h.once

theorem Ok.fill (h : R.Ok count) (ha : a ∉ R.arrived R.round) : (R.fill a).Ok count := by
  have hopener (k : Nat) (hk : k < R.round) : (R.fill a).opener k = R.opener k :=
    Function.update_of_ne (by omega) _ _
  have harrive := h.arrive ha
  constructor
  case full =>
    intro k hk
    rw [hopener k hk]
    exact harrive.full k hk
  case left =>
    intro k x hx
    obtain ⟨hk, hmem, hserial⟩ := harrive.left k x hx
    exact ⟨hk, hmem, by rw [hopener k hk]; exact hserial⟩
  case openers =>
    intro k b hb
    by_cases hk : k = R.round
    · subst hk
      have hb : a = b := by simpa [Rounds.fill] using hb
      rw [← hb]
      exact List.mem_of_mem_head? (by simp [Rounds.fill, arrive_arrived])
    · exact subset_arrive (h.openers k b (by simpa [Rounds.fill, hk] using hb))
  exacts [harrive.different, harrive.later, harrive.once]

theorem Ok.opens (h : R.Ok count) (hlen : (R.arrived R.round).length = count) (ha : a ∈ R.arrived R.round)
    (hopener : R.opener R.round = some a) : R.opens.Ok count where
  full := by
    intro k hk
    rcases Nat.lt_succ_iff_lt_or_eq.1 hk with hk | rfl
    · exact h.full k hk
    · exact ⟨hlen, a, ha, hopener⟩
  different := h.different
  later := fun k hk => h.later k (Nat.lt_of_succ_lt hk)
  openers := h.openers
  left := by
    intro k x hx
    obtain ⟨hk, hmem, hserial⟩ := h.left k x hx
    exact ⟨Nat.lt_succ_of_lt hk, hmem, hserial⟩
  once := h.once

theorem Ok.leave {serial : Bool} (h : R.Ok count) (hk : k < R.round) (ha : a ∈ R.arrived k)
    (hserial : serial = true ↔ R.opener k = some a) (honce : a ∉ (R.left k).map Prod.fst) :
    (R.leave a k serial).Ok count where
  full := h.full
  different := h.different
  later := h.later
  openers := h.openers
  left := by
    intro j x hx
    by_cases hj : j = k
    · subst hj
      rw [leave_left] at hx
      rcases List.mem_cons.1 hx with rfl | hx
      · exact ⟨hk, ha, hserial⟩
      · exact h.left j x hx
    · rw [leave_left_of_ne hj] at hx
      exact h.left j x hx
  once := by
    intro j
    by_cases hj : j = k
    · subst hj
      rw [leave_left]
      exact List.nodup_cons.2 ⟨honce, h.once j⟩
    · rw [leave_left_of_ne hj]
      exact h.once j

/-- Of those who have left a round, exactly one is the serial one once all have. -/
theorem Ok.serial (h : R.Ok count) (hk : k < R.round) (hall : ∀ a ∈ R.arrived k, a ∈ (R.left k).map Prod.fst) :
    ∃ a, (a, true) ∈ R.left k ∧ ∀ b serial, (b, serial) ∈ R.left k → (serial = true ↔ b = a) := by
  obtain ⟨-, a, ha, hopener⟩ := h.full k hk
  have hserial (b : α) (serial : Bool) (hb : (b, serial) ∈ R.left k) : serial = true ↔ b = a := by
    obtain ⟨-, -, hb⟩ := h.left k _ hb
    rw [hb, hopener, Option.some.injEq, eq_comm]
  obtain ⟨⟨b, serial⟩, hb, rfl⟩ := List.mem_map.1 (hall a ha)
  refine ⟨b, ?_, hserial⟩
  have htrue := (hserial b serial hb).2 rfl
  rw [htrue] at hb
  exact hb

end Rounds
