import Sppc.Deadlines

/-!
# What is left until a deadline

`_gt_remaining` and `_gt_passed` of the runtime, Darwin's `_sppc_time_left` (`platform/darwin.h`), and the deadlines
by the real-time clock of `_sppc_realtime_deadline` (`platform/posix.h`).
-/

namespace Sppc

open SignedWords

/-- The errors of a timed lock or wait. -/
inductive TimedErr
  | EINVAL | ETIMEDOUT
  deriving DecidableEq, Repr

/-- What `_sppc_time_left` returns and stores. -/
structure TimeLeft where
  err : Option TimedErr
  out : Option Timespec
  deriving DecidableEq, Repr

/-- `_sppc_time_left`, where `reading` is what `clock_gettime` gives: none where a signed operation overflows. -/
def sppcTimeLeft (reading : Option Timespec) (deadline : Timespec) : Option TimeLeft :=
  match reading with
  | none => some ⟨some .EINVAL, none⟩
  | some now =>
    (checked (deadline.sec - now.sec)).bind fun sec =>
      let nsec := deadline.nsec - now.nsec
      let out : Option Timespec :=
        if nsec < 0 then (checked (sec - 1)).map fun sec => ⟨sec, nsec + 1000000000⟩ else some ⟨sec, nsec⟩
      out.map fun out => ⟨if out.sec < 0 ∨ (out.sec = 0 ∧ out.nsec = 0) then some .ETIMEDOUT else none, some out⟩

def SPPC_BACKOFF_MAX_NS : Int := 1000000

/-- `_sppc_backoff`: its error, or the nap and the next pause. -/
def sppcBackoff (reading : Option Timespec) (deadline : Timespec) (pauseNs : Int) :
    Option (Except TimedErr (Timespec × Int)) :=
  (sppcTimeLeft reading deadline).map fun left =>
    match left.err, left.out with
    | some err, _ => .error err
    | none, left =>
      let nap := match left with
        | some left => if left.sec = 0 ∧ left.nsec < pauseNs then left else ⟨0, pauseNs⟩
        | none => ⟨0, pauseNs⟩
      .ok (nap, if pauseNs < SPPC_BACKOFF_MAX_NS then pauseNs * 2 else pauseNs)

/-- The loop that raises the nanoseconds to 0. -/
def raiseNsec (out : Timespec) : Option Timespec :=
  if out.nsec < 0 then (checked (out.sec - 1)).bind fun sec => raiseNsec ⟨sec, out.nsec + 1000000000⟩ else some out
termination_by (-out.nsec).toNat
decreasing_by
  show (-(out.nsec + 1000000000)).toNat < (-out.nsec).toNat
  omega

/-- The loop that lowers them below a second. -/
def lowerNsec (out : Timespec) : Option Timespec :=
  if 1000000000 ≤ out.nsec then (checked (out.sec + 1)).bind fun sec =>
    lowerNsec ⟨sec, out.nsec - 1000000000⟩ else some out
termination_by out.nsec.toNat
decreasing_by
  show (out.nsec - 1000000000).toNat < out.nsec.toNat
  omega

/-- `_sppc_realtime_deadline`, where `now` and `real` are the readings of the clock and of the real-time clock: none
where a signed operation overflows. -/
def sppcRealtimeDeadline (isRealtime : Bool) (now real : Option Timespec) (deadline : Timespec) :
    Option (Except TimedErr Timespec) :=
  if isRealtime then some (.ok deadline)
  else
    match now, real with
    | some now, some real =>
      (checked (deadline.sec - now.sec)).bind fun ahead =>
        (checked (real.sec + ahead)).bind fun sec =>
          ((raiseNsec ⟨sec, real.nsec + (deadline.nsec - now.nsec)⟩).bind lowerNsec).map .ok
    | _, _ => some (.error .EINVAL)

/-- `_gt_passed_if_any` in 64 bits. -/
def gtPassedIfAny64 (now : Timespec) (deadline : Option Timespec) : Bool := deadline.any (gtPassed64 now)

/-! ### What is to be left -/

/-- A normalised time, with its seconds below 2^62 in absolute value. -/
structure Timespec.Moderate (t : Timespec) : Prop where
  low : -2 ^ 62 < t.sec
  high : t.sec < 2 ^ 62
  nonneg : 0 ≤ t.nsec
  lt : t.nsec < 1000000000

/-- The runtime and Darwin have the exact time that is left. -/
structure LeftExactly (now deadline : Timespec) : Prop where
  remaining : (gtRemaining64 now deadline).ns = max (deadline.ns - now.ns) 0
  remaining_normal : 0 ≤ (gtRemaining64 now deadline).nsec ∧ (gtRemaining64 now deadline).nsec < 1000000000
  passed : gtPassedIfAny64 now (some deadline) ↔ deadline.ns ≤ now.ns
  timeLeft : ∃ left out, sppcTimeLeft (some now) deadline = some left ∧ left.out = some out ∧
    left.err = (if deadline.ns ≤ now.ns then some .ETIMEDOUT else none) ∧
    out.ns = deadline.ns - now.ns ∧ 0 ≤ out.nsec ∧ out.nsec < 1000000000

/-- The deadline by the real-time clock is normalised, as far off as the other, and passes with it. -/
structure RealtimeExactly (now real deadline out : Timespec) : Prop where
  ns : out.ns = real.ns + (deadline.ns - now.ns)
  normal : 0 ≤ out.nsec ∧ out.nsec < 1000000000
  passed : out.ns ≤ real.ns ↔ deadline.ns ≤ now.ns

/-- The seconds of the deadline by the real-time clock, before the nanoseconds are carried. -/
def realtimeSec (now real deadline : Timespec) : Int := real.sec + (deadline.sec - now.sec)

/-- And its nanoseconds then. -/
def realtimeNsec (now real deadline : Timespec) : Int := real.nsec + (deadline.nsec - now.nsec)

/-- They are those of a signed word, before the carry and after it. -/
def RealtimeFits (now real deadline : Timespec) : Prop :=
  Fits (realtimeSec now real deadline) ∧
    Fits (realtimeSec now real deadline + realtimeNsec now real deadline / 1000000000)

instance (now real deadline : Timespec) : Decidable (RealtimeFits now real deadline) :=
  inferInstanceAs (Decidable (_ ∧ _))

variable {now real deadline t out : Timespec}

/-- In 64 bits `_gt_remaining` has the exact difference, or 0. -/
private theorem gtRemaining64_exact (hn : now.Moderate) (hd : deadline.Moderate) :
    (gtRemaining64 now deadline).ns = max (deadline.ns - now.ns) 0 ∧
      0 ≤ (gtRemaining64 now deadline).nsec ∧ (gtRemaining64 now deadline).nsec < 1000000000 := by
  obtain ⟨hnl, hnh, hn0, hn1⟩ := hn
  obtain ⟨hdl, hdh, hd0, hd1⟩ := hd
  unfold gtRemaining64
  rw [wrap64_of_fits (x := deadline.sec - now.sec) ⟨by omega, by omega⟩]
  dsimp only
  by_cases hb : deadline.nsec - now.nsec < 0
  · rw [if_pos hb, wrap64_of_fits ⟨by omega, by omega⟩]
    dsimp only
    split
    · simp only [Timespec.ns]
      omega
    · simp only [Timespec.ns]
      omega
  · rw [if_neg hb]
    dsimp only
    split
    · simp only [Timespec.ns]
      omega
    · simp only [Timespec.ns]
      omega

private theorem gtPassed64_exact (hn : now.Moderate) (hd : deadline.Moderate) :
    gtPassed64 now deadline ↔ deadline.ns ≤ now.ns := by
  obtain ⟨hns, hlo, hhi⟩ := gtRemaining64_exact hn hd
  unfold gtPassed64
  rw [decide_eq_true_iff]
  unfold Timespec.ns at hns ⊢
  omega

theorem sppcTimeLeft_exact (hn : now.Moderate) (hd : deadline.Moderate) :
    ∃ left out, sppcTimeLeft (some now) deadline = some left ∧ left.out = some out ∧
      left.err = (if deadline.ns ≤ now.ns then some .ETIMEDOUT else none) ∧
      out.ns = deadline.ns - now.ns ∧ 0 ≤ out.nsec ∧ out.nsec < 1000000000 := by
  obtain ⟨hnl, hnh, hn0, hn1⟩ := hn
  obtain ⟨hdl, hdh, hd0, hd1⟩ := hd
  have hfits : Fits (deadline.sec - now.sec) := ⟨by omega, by omega⟩
  simp only [sppcTimeLeft, checked_of_fits hfits, Option.bind_some]
  -- the deadline has passed where what is stored is negative or zero
  have herr : ∀ out : Timespec, out.ns = deadline.ns - now.ns → 0 ≤ out.nsec → out.nsec < 1000000000 →
      (out.sec < 0 ∨ (out.sec = 0 ∧ out.nsec = 0) ↔ deadline.ns ≤ now.ns) := by
    intro out hns hlo hhi
    unfold Timespec.ns at hns ⊢
    omega
  by_cases hb : deadline.nsec - now.nsec < 0
  · have hless : Fits (deadline.sec - now.sec - 1) := ⟨by omega, by omega⟩
    rw [if_pos hb, checked_of_fits hless, Option.map_some, Option.map_some]
    have hns : (⟨deadline.sec - now.sec - 1, deadline.nsec - now.nsec + 1000000000⟩ : Timespec).ns = deadline.ns -
        now.ns := by
      simp only [Timespec.ns]
      omega
    have hlo : 0 ≤ deadline.nsec - now.nsec + 1000000000 := by omega
    have hhi : deadline.nsec - now.nsec + 1000000000 < 1000000000 := by omega
    exact ⟨_, _, rfl, rfl, if_congr (herr _ hns hlo hhi) rfl rfl, hns, hlo, hhi⟩
  · rw [if_neg hb, Option.map_some]
    have hns : (⟨deadline.sec - now.sec, deadline.nsec - now.nsec⟩ : Timespec).ns = deadline.ns - now.ns := by
      simp only [Timespec.ns]
      omega
    have hlo : 0 ≤ deadline.nsec - now.nsec := by omega
    have hhi : deadline.nsec - now.nsec < 1000000000 := by omega
    exact ⟨_, _, rfl, rfl, if_congr (herr _ hns hlo hhi) rfl rfl, hns, hlo, hhi⟩

private theorem leftExactly (hn : now.Moderate) (hd : deadline.Moderate) : LeftExactly now deadline where
  remaining := (gtRemaining64_exact hn hd).1
  remaining_normal := (gtRemaining64_exact hn hd).2
  passed := by
    rw [gtPassedIfAny64, Option.any_some]
    exact gtPassed64_exact hn hd
  timeLeft := sppcTimeLeft_exact hn hd

/-! ### The loops -/

private theorem raiseNsec_of_nonneg (h : 0 ≤ t.nsec) : raiseNsec t = some t := by
  rw [raiseNsec, if_neg (by omega)]

private theorem lowerNsec_of_lt (h : t.nsec < 1000000000) : lowerNsec t = some t := by
  rw [lowerNsec, if_neg (by omega)]

/-- A part of three readings needs one turn of one of the loops at most. -/
private theorem carryNsec (hlo : -1000000000 < t.nsec) (hhi : t.nsec < 2000000000) (h : Fits t.sec) :
    (raiseNsec t).bind lowerNsec =
      (checked (t.sec + t.nsec / 1000000000)).map fun sec => ⟨sec, t.nsec % 1000000000⟩ := by
  by_cases hneg : t.nsec < 0
  · have hdiv : t.nsec / 1000000000 = -1 := by omega
    have hmod : t.nsec % 1000000000 = t.nsec + 1000000000 := by omega
    rw [raiseNsec, if_pos hneg, hdiv, hmod, Int.add_neg_one]
    by_cases hfits : Fits (t.sec - 1)
    · rw [checked_of_fits hfits, Option.bind_some, raiseNsec_of_nonneg (by dsimp only; omega), Option.bind_some,
        lowerNsec_of_lt (by dsimp only; omega)]
      rfl
    · rw [checked_of_not hfits]
      rfl
  · rw [raiseNsec_of_nonneg (by omega), Option.bind_some]
    by_cases hover : 1000000000 ≤ t.nsec
    · have hdiv : t.nsec / 1000000000 = 1 := by omega
      have hmod : t.nsec % 1000000000 = t.nsec - 1000000000 := by omega
      rw [lowerNsec, if_pos hover, hdiv, hmod]
      by_cases hfits : Fits (t.sec + 1)
      · rw [checked_of_fits hfits, Option.bind_some, lowerNsec_of_lt (by dsimp only; omega)]
        rfl
      · rw [checked_of_not hfits]
        rfl
    · have hdiv : t.nsec / 1000000000 = 0 := by omega
      have hmod : t.nsec % 1000000000 = t.nsec := by omega
      rw [lowerNsec_of_lt (by omega), hdiv, hmod, Int.add_zero, checked_of_fits h]
      rfl

/-- The deadline by the real-time clock is exact where it fits, and overflows where it does not. -/
private theorem sppcRealtimeDeadline_exact (hn : now.Moderate) (hr : real.Moderate) (hd : deadline.Moderate) :
    (RealtimeFits now real deadline → ∃ out, sppcRealtimeDeadline false (some now)
      (some real) deadline = some (.ok out) ∧ RealtimeExactly now real deadline out) ∧
    (¬RealtimeFits now real deadline → sppcRealtimeDeadline false (some now) (some real) deadline = none) := by
  obtain ⟨hnl, hnh, hn0, hn1⟩ := hn
  obtain ⟨hrl, hrh, hr0, hr1⟩ := hr
  obtain ⟨hdl, hdh, hd0, hd1⟩ := hd
  have hrun : sppcRealtimeDeadline false (some now) (some real) deadline =
      (checked (realtimeSec now real deadline)).bind fun sec =>
        ((raiseNsec ⟨sec, realtimeNsec now real deadline⟩).bind lowerNsec).map .ok := by
    rw [sppcRealtimeDeadline, if_neg Bool.false_ne_true, checked_of_fits ⟨by omega, by omega⟩, Option.bind_some]
    rfl
  rw [hrun]
  have hcarry : ∀ h : Fits (realtimeSec now real deadline),
      (raiseNsec ⟨realtimeSec now real deadline, realtimeNsec now real deadline⟩).bind lowerNsec =
      (checked (realtimeSec now real deadline + realtimeNsec now real deadline / 1000000000)).map fun sec =>
        ⟨sec, realtimeNsec now real deadline % 1000000000⟩ := by
    intro h
    apply carryNsec (t := ⟨realtimeSec now real deadline, realtimeNsec now real deadline⟩) _ _ h
    · unfold realtimeNsec
      dsimp only
      omega
    · unfold realtimeNsec
      dsimp only
      omega
  constructor
  · intro hfits
    rw [checked_of_fits hfits.1, Option.bind_some, hcarry hfits.1, checked_of_fits hfits.2, Option.map_some,
      Option.map_some]
    have hns : (⟨realtimeSec now real deadline + realtimeNsec now real deadline / 1000000000,
        realtimeNsec now real deadline % 1000000000⟩ : Timespec).ns = real.ns + (deadline.ns - now.ns) := by
      unfold Timespec.ns realtimeSec realtimeNsec
      dsimp only
      omega
    refine ⟨_, rfl, hns, ⟨?_, ?_⟩, ?_⟩
    · dsimp only
      omega
    · dsimp only
      omega
    · rw [hns]
      omega
  · intro hnot
    by_cases hsec : Fits (realtimeSec now real deadline)
    · rw [checked_of_fits hsec, Option.bind_some, hcarry hsec, checked_of_not (fun h => hnot ⟨hsec, h⟩)]
      rfl
    · rw [checked_of_not hsec]
      rfl

end Sppc
