import Sppc.Sched
import Sppc.SignedWords

/-!
# Deadlines of timed locks and waits

`sppc_pthread_mutex_clocklock` and its siblings turn a time-out into a deadline with `_gt_deadline`, on which the
turns of `_gt_lock_until` and the platform's timed call then wait.  Seconds are signed 64-bit words; where a sum
overflows, which C leaves undefined, it is taken modulo the word.
-/

namespace Sppc

open SignedWords

/-- All of it in nanoseconds. -/
def Timespec.ns (t : Timespec) : Int := t.sec * 1000000000 + t.nsec

/-- What a clock reads: 64 bits of seconds, and normalised nanoseconds. -/
structure Timespec.Reading (t : Timespec) : Prop where
  sec : Fits t.sec
  nonneg : 0 ≤ t.nsec
  lt : t.nsec < 1000000000

/-- The furthest time there is. -/
def Timespec.furthest : Timespec := ⟨2 ^ 63 - 1, 999999999⟩

/-- `_sppc_to_os_timespec`. -/
def sppcToOsTimespec (sec nsec : Nat) : Option Timespec :=
  if nsec ≥ 1000000000 ∨ sec > 2 ^ 63 - 1 then none else some ⟨sec, nsec⟩

/-- `out` moved on by `by'`, with the carry of the nanoseconds. -/
def Timespec.plus (out by' : Timespec) : Timespec :=
  let out : Timespec := ⟨wrap64 (out.sec + by'.sec), out.nsec + by'.nsec⟩
  if out.nsec ≥ 1000000000 then ⟨wrap64 (out.sec + 1), out.nsec - 1000000000⟩ else out

/-- `_gt_deadline`, at the clock reading `now`. -/
def gtDeadline (now timeout : Timespec) : Timespec := now.plus timeout

/-- `_gt_remaining` in 64 bits. -/
def gtRemaining64 (now deadline : Timespec) : Timespec :=
  let left : Timespec := ⟨wrap64 (deadline.sec - now.sec), deadline.nsec - now.nsec⟩
  let left := if left.nsec < 0 then ⟨wrap64 (left.sec - 1), left.nsec + 1000000000⟩ else left
  if left.sec < 0 then ⟨0, 0⟩ else left

/-- `_gt_passed` in 64 bits. -/
def gtPassed64 (now deadline : Timespec) : Bool :=
  let left := gtRemaining64 now deadline
  left.sec = 0 ∧ left.nsec = 0

/-- One turn of `_gt_lock_until`: the non-blocking try's answer, whether the thread has other work, what the clock
reads when the deadline is looked at or the timed call ends, and the timed call's answer. -/
structure LockTurn where
  tried : Int
  otherWork : Bool
  reading : Timespec
  timed : Int
  deriving DecidableEq, Repr

/-- `_gt_lock_until` with a deadline, over its turns: its answer, with what the clock read then. -/
def gtLockUntilTurns (deadline : Timespec) : List LockTurn → Option (Int × Timespec)
  | [] => none
  | turn :: turns =>
    if turn.tried ≠ ebusy then some (turn.tried, turn.reading)
    else if turn.otherWork = false then some (turn.timed, turn.reading)
    else if gtPassed64 turn.reading deadline then some (etimedout, turn.reading)
    else gtLockUntilTurns deadline turns

/-- A turn that begins no earlier than `now`, its calls answering as they do: a try never `ETIMEDOUT`, and the timed
call only once the clock has reached the deadline. -/
structure LockTurn.Allowed (now deadline : Timespec) (turn : LockTurn) : Prop where
  reading : turn.reading.Reading
  later : now.ns ≤ turn.reading.ns
  tried : turn.tried ≠ etimedout
  timed : turn.timed = etimedout → deadline.ns ≤ turn.reading.ns

/-- The deadline is normalised, and no earlier than `timeout` after `now`, or else the furthest time. -/
structure DeadlineOk (now timeout deadline : Timespec) : Prop where
  nonneg : 0 ≤ deadline.nsec
  lt : deadline.nsec < 1000000000
  after : if now.ns + timeout.ns < 2 ^ 63 * 1000000000 then now.ns + timeout.ns ≤ deadline.ns
    else deadline = .furthest

/-! ### Normalised times -/

variable {now timeout r : Timespec} {sec nsec : Nat}

/-- A time-out that `_sppc_to_os_timespec` takes. -/
theorem Reading.of_timeout (h : sppcToOsTimespec sec nsec = some timeout) : timeout.Reading ∧ 0 ≤ timeout.sec := by
  unfold sppcToOsTimespec at h
  by_cases hc : nsec ≥ 1000000000 ∨ sec > 2 ^ 63 - 1
  · rw [if_pos hc] at h
    exact absurd h nofun
  · rw [if_neg hc] at h
    rw [← Option.some.inj h]
    push Not at hc
    refine ⟨⟨⟨?_, ?_⟩, ?_, ?_⟩, ?_⟩
    · show -2 ^ 63 ≤ (sec : Int)
      omega
    · show (sec : Int) < 2 ^ 63
      omega
    · show (0 : Int) ≤ nsec
      omega
    · show (nsec : Int) < 1000000000
      omega
    · show (0 : Int) ≤ sec
      omega

/-- The carry of the nanoseconds. -/
def Timespec.carry (now timeout : Timespec) : Int := if now.nsec + timeout.nsec ≥ 1000000000 then 1 else 0

/-- The seconds of the sum come round at the word, and its nanoseconds are normalised. -/
theorem Timespec.plus_eq (now timeout : Timespec) :
    now.plus timeout = ⟨wrap64 (now.sec + timeout.sec + now.carry timeout),
      now.nsec + timeout.nsec - 1000000000 * now.carry timeout⟩ := by
  unfold Timespec.plus Timespec.carry
  by_cases h : now.nsec + timeout.nsec ≥ 1000000000
  · simp only [if_pos h, wrap64_add, Int.mul_one]
  · simp only [if_neg h, Int.add_zero, Int.mul_zero, Int.sub_zero]

theorem Timespec.carry_cases (now timeout : Timespec) :
    (now.carry timeout = 1 ∧ 1000000000 ≤ now.nsec + timeout.nsec) ∨
      (now.carry timeout = 0 ∧ now.nsec + timeout.nsec < 1000000000) := by
  unfold Timespec.carry
  by_cases h : now.nsec + timeout.nsec ≥ 1000000000
  · exact Or.inl ⟨if_pos h, h⟩
  · exact Or.inr ⟨if_neg h, not_le.1 h⟩

/-- The sum's seconds fit when all of it in nanoseconds does. -/
theorem Timespec.sum_lt (hn : now.Reading) (ht : timeout.Reading) :
    now.ns + timeout.ns < 2 ^ 63 * 1000000000 ↔ now.sec + timeout.sec + now.carry timeout < 2 ^ 63 := by
  have h₁ := hn.nonneg
  have h₂ := hn.lt
  have h₃ := ht.nonneg
  have h₄ := ht.lt
  unfold Timespec.ns
  rcases now.carry_cases timeout with ⟨hc, hs⟩ | ⟨hc, hs⟩
  · rw [hc]
    omega
  · rw [hc]
    omega

/-- The sum is exact where its seconds fit. -/
theorem Timespec.ns_plus (h : Fits (now.sec + timeout.sec + now.carry timeout)) :
    (now.plus timeout).ns = now.ns + timeout.ns := by
  rw [Timespec.plus_eq, wrap64_of_fits h]
  simp only [Timespec.ns]
  omega

theorem Timespec.plus_normal (hn : now.Reading) (ht : timeout.Reading) :
    0 ≤ (now.plus timeout).nsec ∧ (now.plus timeout).nsec < 1000000000 := by
  have h₁ := hn.nonneg
  have h₂ := hn.lt
  have h₃ := ht.nonneg
  have h₄ := ht.lt
  rw [Timespec.plus_eq]
  show 0 ≤ now.nsec + timeout.nsec - _ ∧ now.nsec + timeout.nsec - _ < 1000000000
  rcases now.carry_cases timeout with ⟨hc, hs⟩ | ⟨hc, hs⟩
  · rw [hc]
    omega
  · rw [hc]
    omega

/-- The deadline is as it should be where the seconds of the sum fit, and only there. -/
theorem deadlineOk_plus (hn : now.Reading) (ht : timeout.Reading) (h0 : 0 ≤ timeout.sec) :
    DeadlineOk now timeout (now.plus timeout) ↔ now.sec + timeout.sec + now.carry timeout < 2 ^ 63 := by
  have hlo := hn.sec.1
  have hhi := hn.sec.2
  have hto := ht.sec.2
  have hc : 0 ≤ now.carry timeout ∧ now.carry timeout ≤ 1 := by
    rcases now.carry_cases timeout with ⟨hc, -⟩ | ⟨hc, -⟩
    · omega
    · omega
  constructor
  · intro h
    by_contra hover
    have hfar := h.after
    rw [if_neg (fun hlt => hover ((Timespec.sum_lt hn ht).1 hlt)), Timespec.plus_eq,
      wrap64_of_high (by omega) (by omega)] at hfar
    have hsec := congrArg Timespec.sec hfar
    simp only [Timespec.furthest] at hsec
    omega
  · intro h
    have hnorm := Timespec.plus_normal hn ht
    refine ⟨hnorm.1, hnorm.2, ?_⟩
    rw [if_pos ((Timespec.sum_lt hn ht).2 h), Timespec.ns_plus ⟨by omega, h⟩]

/-! ### Looking at the deadline -/

/-- A deadline that is ahead by a time that fits has not passed. -/
theorem gtPassed64_ahead {d : Timespec} (hd : 0 ≤ d.nsec ∧ d.nsec < 1000000000) (hr : r.Reading) (h : r.ns < d.ns)
    (hfit : d.sec - r.sec < 2 ^ 63) : gtPassed64 r d = false := by
  have h₁ := hr.nonneg
  have h₂ := hr.lt
  unfold Timespec.ns at h
  have hpos : 0 ≤ d.sec - r.sec := by omega
  unfold gtPassed64 gtRemaining64
  rw [wrap64_of_fits ⟨by omega, hfit⟩]
  by_cases hb : d.nsec - r.nsec < 0
  · have hone : Fits (d.sec - r.sec - 1) := ⟨by omega, by omega⟩
    simp only [if_pos hb, wrap64_of_fits hone, if_neg (show ¬d.sec - r.sec - 1 < 0 by omega)]
    exact decide_eq_false (by omega)
  · simp only [if_neg hb, if_neg (show ¬d.sec - r.sec < 0 by omega)]
    exact decide_eq_false (by omega)

/-- A timed lock that reports `ETIMEDOUT` has looked at the clock, or had the platform look, when the deadline was
over. -/
theorem gtLockUntilTurns_timedout {d : Timespec} {turns : List LockTurn}
    (hd : ∀ r, r.Reading → now.ns ≤ r.ns → gtPassed64 r d = true → d.ns ≤ r.ns)
    (hturns : ∀ turn ∈ turns, turn.Allowed now d) (h : gtLockUntilTurns d turns = some (etimedout, r)) :
    d.ns ≤ r.ns := by
  induction turns with
  | nil => exact absurd h nofun
  | cons turn turns ih =>
    have hturn := hturns turn (List.mem_cons_self ..)
    unfold gtLockUntilTurns at h
    by_cases htried : turn.tried ≠ ebusy
    · rw [if_pos htried] at h
      exact absurd (congrArg Prod.fst (Option.some.inj h)) hturn.tried
    rw [if_neg htried] at h
    by_cases hwork : turn.otherWork = false
    · rw [if_pos hwork] at h
      have heq := Option.some.inj h
      have hread : turn.reading = r := congrArg Prod.snd heq
      rw [← hread]
      exact hturn.timed (congrArg Prod.fst heq)
    rw [if_neg hwork] at h
    by_cases hpassed : gtPassed64 turn.reading d = true
    · rw [if_pos hpassed] at h
      have hread : turn.reading = r := congrArg Prod.snd (Option.some.inj h)
      rw [← hread]
      exact hd _ hturn.reading hturn.later hpassed
    rw [if_neg hpassed] at h
    exact ih (fun t ht => hturns t (List.mem_cons_of_mem _ ht)) h

end Sppc
