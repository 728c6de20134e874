import Sppc.Deadlines
import Sppc.Uring

/-!
# `_sppc_clock_nanosleep` on Windows

The loop reads the clock, and sleeps for what is left on a timer, a day at most at a time; a relative sleep's deadline
is its time added to a first reading of the monotonic clock.
-/

namespace Sppc.Windows

open SignedWords

/-- One turn of the loop: the ticks of 100 ns to sleep for, or none to return 0. -/
def nanosleepTurn (deadline now : Timespec) : Option Int :=
  let sec := wrap64 (deadline.sec - now.sec)
  if sec < 0 then none
  -- A day at most at a time, so the 100 ns count cannot overflow.
  else if sec ≥ 86400 then some (86400 * 10000000)
  else
    let ns := sec * 1000000000 + (deadline.nsec - now.nsec)
    if ns ≤ 0 then none else some ((ns + 99) / 100)

/-- The loop, over what the clock reads: the reading it returns on. -/
def nanosleepLoop (deadline : Timespec) : List Timespec → Option Timespec
  | [] => none
  | now :: readings =>
    match nanosleepTurn deadline now with
    | none => some now
    | some _ => nanosleepLoop deadline readings

/-- `_sppc_clock_nanosleep`, over what the clock reads: its error, or the reading on which it returns 0; none while it
has not returned. -/
def sppcClockNanosleep (clock : Int) (abstime : Bool) (request : Timespec) (readings : List Timespec) :
    Option (Except Int Timespec) :=
  if clock ≠ clockRealtime ∧ clock ≠ clockMonotonic then some (.error einval)
  else if request.nsec < 0 ∨ request.nsec ≥ 1000000000 ∨ request.sec < 0 then some (.error einval)
  else if abstime then (nanosleepLoop request readings).map .ok
  else
    match readings with
    | [] => none
    | now :: readings => (nanosleepLoop (request.plus now) readings).map .ok

/-- What a time-out accepted is to give at the clock reading `now`: a deadline that is as it should be, from
`_gt_deadline` and for a relative sleep; no `ETIMEDOUT` of a lock or a wait, and no end of a sleep, before the
time-out has elapsed. -/
structure TimeoutKept (now timeout : Timespec) : Prop where
  deadline : DeadlineOk now timeout (gtDeadline now timeout)
  sleepDeadline : DeadlineOk now timeout (timeout.plus now)
  lock : ∀ turns r, (∀ turn ∈ turns, turn.Allowed now (gtDeadline now timeout)) →
    gtLockUntilTurns (gtDeadline now timeout) turns = some (etimedout, r) → now.ns + timeout.ns ≤ r.ns
  wait : ∀ r : Timespec, r.Reading → now.ns ≤ r.ns → gtPassed64 r (gtDeadline now timeout) = true →
    now.ns + timeout.ns ≤ r.ns
  sleep : ∀ clock readings r, (∀ x ∈ readings, x.Reading ∧ now.ns ≤ x.ns) →
    sppcClockNanosleep clock false timeout (now :: readings) = some (.ok r) → now.ns + timeout.ns ≤ r.ns

variable {now timeout r : Timespec} {sec nsec : Nat}

/-! ### The loop -/

/-- A turn at a reading before the deadline sleeps, where the difference of the seconds fits. -/
private theorem nanosleepTurn_ahead {d : Timespec} (hd : 0 ≤ d.nsec ∧ d.nsec < 1000000000) (hr : r.Reading)
    (h : r.ns < d.ns) (hfit : d.sec - r.sec < 2 ^ 63) : ∃ ticks, nanosleepTurn d r = some ticks := by
  have h₁ := hr.nonneg
  have h₂ := hr.lt
  unfold Timespec.ns at h
  have hpos : 0 ≤ d.sec - r.sec := by omega
  unfold nanosleepTurn
  rw [wrap64_of_fits ⟨by omega, hfit⟩]
  simp only [if_neg (show ¬d.sec - r.sec < 0 by omega)]
  by_cases hday : d.sec - r.sec ≥ 86400
  · exact ⟨_, if_pos hday⟩
  · rw [if_neg hday, if_neg (by omega)]
    exact ⟨_, rfl⟩

/-- A sleep returns on a reading that has reached its deadline, where the differences fit. -/
private theorem nanosleepLoop_reached {d : Timespec} {readings : List Timespec}
    (hd : 0 ≤ d.nsec ∧ d.nsec < 1000000000) (hreadings : ∀ x ∈ readings, x.Reading ∧ d.sec - x.sec < 2 ^ 63)
    (h : nanosleepLoop d readings = some r) : d.ns ≤ r.ns := by
  induction readings with
  | nil => exact absurd h nofun
  | cons x readings ih =>
    obtain ⟨hx, hfit⟩ := hreadings x (List.mem_cons_self ..)
    unfold nanosleepLoop at h
    by_cases hns : x.ns < d.ns
    · obtain ⟨ticks, hticks⟩ := nanosleepTurn_ahead hd hx hns hfit
      rw [hticks] at h
      exact ih (fun y hy => hreadings y (List.mem_cons_of_mem _ hy)) h
    · cases hturn : nanosleepTurn d x with
      | none =>
        rw [hturn] at h
        rw [← Option.some.inj h]
        omega
      | some ticks =>
        rw [hturn] at h
        exact ih (fun y hy => hreadings y (List.mem_cons_of_mem _ hy)) h

/-- A sleep whose seconds are over by one returns at once. -/
private theorem nanosleepLoop_over {d : Timespec} {readings : List Timespec} (h : d.sec - now.sec = 2 ^ 63) :
    nanosleepLoop d (now :: readings) = some now := by
  have hturn : nanosleepTurn d now = none := by
    unfold nanosleepTurn
    rw [h, show wrap64 (2 ^ 63) = -2 ^ 63 by decide]
    exact if_pos (by decide)
  unfold nanosleepLoop
  rw [hturn]

/-! ### Time-outs -/

private theorem plus_comm (now timeout : Timespec) : timeout.plus now = now.plus timeout := by
  have hcarry : timeout.carry now = now.carry timeout := by
    unfold Timespec.carry
    rw [Int.add_comm]
  rw [Timespec.plus_eq, Timespec.plus_eq, hcarry, Int.add_comm timeout.sec, Int.add_comm timeout.nsec]

/-- A relative sleep on a clock that it takes. -/
private theorem sppcClockNanosleep_rel {readings : List Timespec} (ht : timeout.Reading) (h0 : 0 ≤ timeout.sec) :
    sppcClockNanosleep clockMonotonic false timeout (now :: readings) =
      (nanosleepLoop (now.plus timeout) readings).map .ok := by
  have h₁ := ht.nonneg
  have h₂ := ht.lt
  unfold sppcClockNanosleep
  rw [if_neg (by decide), if_neg (by omega), if_neg (by decide), ← plus_comm]

/-- On any clock, a relative sleep that returns 0 is that of its loop. -/
private theorem sppcClockNanosleep_ok {clock : Int} {readings : List Timespec}
    (h : sppcClockNanosleep clock false timeout (now :: readings) = some (.ok r)) :
    nanosleepLoop (now.plus timeout) readings = some r := by
  unfold sppcClockNanosleep at h
  by_cases hclock : clock ≠ clockRealtime ∧ clock ≠ clockMonotonic
  · rw [if_pos hclock] at h
    exact absurd (Option.some.inj h) nofun
  rw [if_neg hclock] at h
  by_cases hreq : timeout.nsec < 0 ∨ timeout.nsec ≥ 1000000000 ∨ timeout.sec < 0
  · rw [if_pos hreq] at h
    exact absurd (Option.some.inj h) nofun
  rw [if_neg hreq, if_neg (by decide)] at h
  have hmap : (nanosleepLoop (timeout.plus now) readings).map Except.ok = some (.ok r) := h
  rw [plus_comm] at hmap
  obtain ⟨r', hr', heq⟩ := Option.map_eq_some_iff.1 hmap
  rw [hr', Except.ok.inj heq]

/-- Where the seconds fit, those from any later reading on to the deadline do. -/
private theorem sec_sub_lt (hn : now.Reading) (hr : r.Reading) (hlater : now.ns ≤ r.ns)
    (hsum : Fits (now.sec + timeout.sec + now.carry timeout)) (hdiff : timeout.sec + now.carry timeout < 2 ^ 63) :
    (now.plus timeout).sec - r.sec < 2 ^ 63 := by
  have h₁ := hn.nonneg
  have h₂ := hr.lt
  unfold Timespec.ns at hlater
  rw [Timespec.plus_eq, wrap64_of_fits hsum]
  show now.sec + timeout.sec + now.carry timeout - r.sec < 2 ^ 63
  omega

/-- For every time-out that `_sppc_to_os_timespec` takes, at every clock reading: all of it is kept exactly where the
seconds of the reading, the time-out and the carry of their nanoseconds fit in 64 bits together, and the
last two do. -/
theorem timeout_kept_iff (h : sppcToOsTimespec sec nsec = some timeout) (hn : now.Reading) :
    TimeoutKept now timeout ↔
      now.sec + timeout.sec + now.carry timeout < 2 ^ 63 ∧ timeout.sec + now.carry timeout < 2 ^ 63 := by
  obtain ⟨ht, h0⟩ := Reading.of_timeout h
  have hlo := hn.sec.1
  have hcarry := now.carry_cases timeout
  constructor
  · intro hk
    have hsum := (deadlineOk_plus hn ht h0).1 hk.deadline
    refine ⟨hsum, ?_⟩
    by_contra hover
    -- The time-out is as long as can be and there is a carry: the loop's difference wraps.
    have hto := ht.sec.2
    have hfits : Fits (now.sec + timeout.sec + now.carry timeout) := ⟨by omega, hsum⟩
    have hloop : nanosleepLoop (now.plus timeout) [now] = some now := by
      apply nanosleepLoop_over
      rw [Timespec.plus_eq, wrap64_of_fits hfits]
      show now.sec + timeout.sec + now.carry timeout - now.sec = 2 ^ 63
      omega
    have hret : sppcClockNanosleep clockMonotonic false timeout [now, now] = some (.ok now) := by
      rw [sppcClockNanosleep_rel ht h0, hloop]
      rfl
    have hend := hk.sleep clockMonotonic [now] now
      (fun x hx => by
        rw [List.mem_singleton.1 hx]
        exact ⟨hn, le_refl _⟩) hret
    have hns := ht.nonneg
    simp only [Timespec.ns] at hend
    omega
  · rintro ⟨hsum, hdiff⟩
    have hfits : Fits (now.sec + timeout.sec + now.carry timeout) := ⟨by omega, hsum⟩
    have hexact := Timespec.ns_plus hfits
    have hnorm := Timespec.plus_normal hn ht
    have hpassed : ∀ r : Timespec, r.Reading → now.ns ≤ r.ns → gtPassed64 r (now.plus timeout) = true →
        (now.plus timeout).ns ≤ r.ns := by
      intro r hr hlater hp
      by_contra hlt
      rw [gtPassed64_ahead hnorm hr (not_le.1 hlt) (sec_sub_lt hn hr hlater hfits hdiff)] at hp
      cases hp
    refine ⟨(deadlineOk_plus hn ht h0).2 hsum, ?_, ?_, ?_, ?_⟩
    · rw [plus_comm]
      exact (deadlineOk_plus hn ht h0).2 hsum
    · intro turns r hturns hend
      rw [← hexact]
      exact gtLockUntilTurns_timedout hpassed hturns hend
    · intro r hr hlater hp
      rw [← hexact]
      exact hpassed r hr hlater hp
    · intro clock readings r hreadings hend
      rw [← hexact]
      apply nanosleepLoop_reached hnorm _ (sppcClockNanosleep_ok hend)
      intro x hx
      exact ⟨(hreadings x hx).1, sec_sub_lt hn (hreadings x hx).1 (hreadings x hx).2 hfits hdiff⟩

/-- A time-out of 1.5 s, ten seconds after the clock's start. -/
theorem timeout_kept_iff_short : TimeoutKept ⟨10, 700000000⟩ ⟨1, 500000000⟩ ↔
    (10 : Int) + 1 + Timespec.carry ⟨10, 700000000⟩ ⟨1, 500000000⟩ < 2 ^ 63 ∧
      (1 : Int) + Timespec.carry ⟨10, 700000000⟩ ⟨1, 500000000⟩ < 2 ^ 63 :=
  timeout_kept_iff (show sppcToOsTimespec 1 500000000 = some _ by decide) ⟨by decide, by decide, by decide⟩

/-- The longest time-out there is, ten seconds after the clock's start, gives a deadline long before it: the
platform's timed call says at once that it is over. -/
theorem longest_timeout_over :
    sppcToOsTimespec (2 ^ 63 - 1) 0 = some ⟨2 ^ 63 - 1, 0⟩ ∧ Timespec.Reading ⟨10, 0⟩ ∧
      gtDeadline ⟨10, 0⟩ ⟨2 ^ 63 - 1, 0⟩ = ⟨-2 ^ 63 + 9, 0⟩ ∧
      gtLockUntilTurns ⟨-2 ^ 63 + 9, 0⟩ [⟨ebusy, false, ⟨10, 0⟩, etimedout⟩] = some (etimedout, ⟨10, 0⟩) ∧
      LockTurn.Allowed ⟨10, 0⟩ ⟨-2 ^ 63 + 9, 0⟩ ⟨ebusy, false, ⟨10, 0⟩, etimedout⟩ ∧
      ¬TimeoutKept ⟨10, 0⟩ ⟨2 ^ 63 - 1, 0⟩ := by
  have hread : Timespec.Reading ⟨10, 0⟩ := ⟨by decide, by decide, by decide⟩
  have hturn : LockTurn.Allowed ⟨10, 0⟩ ⟨-2 ^ 63 + 9, 0⟩ ⟨ebusy, false, ⟨10, 0⟩, etimedout⟩ :=
    ⟨hread, by decide, by decide, by decide⟩
  refine ⟨by decide, hread, by decide, by decide, hturn, fun hk => ?_⟩
  have hdeadline : gtDeadline ⟨10, 0⟩ ⟨2 ^ 63 - 1, 0⟩ = ⟨-2 ^ 63 + 9, 0⟩ := by decide
  have hend := hk.lock [⟨ebusy, false, ⟨10, 0⟩, etimedout⟩] ⟨10, 0⟩
    (fun turn hmem => by
      rw [List.mem_singleton.1 hmem, hdeadline]
      exact hturn)
    (by
      rw [hdeadline]
      decide)
  exact absurd hend (by decide)

end Sppc.Windows
