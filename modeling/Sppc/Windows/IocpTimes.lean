import Sppc.Deadlines
import Sppc.Uring
import Sppc.Windows.Iocp

/-!
# Time arithmetic of the completion port

Nanoseconds in signed 64-bit words, where each operation is only defined if its value fits.  Limits are formed from
deadlines of locks and waits, which nothing caps, and from sleeps, whose seconds are capped at a century's.
-/

namespace Sppc

open SignedWords

/-- A time with the seconds at most a century's. -/
def Timespec.capped (t : Timespec) : Timespec := ⟨if t.sec < 3153600000 then t.sec else 3153600000, t.nsec⟩

/-- A clock reading of less than two centuries. -/
structure Timespec.Current (t : Timespec) : Prop where
  nonneg : 0 ≤ t.sec
  lt : t.sec < 6307200000
  nsec_nonneg : 0 ≤ t.nsec
  nsec_lt : t.nsec < 1000000000

/-- A time-out that `_sppc_to_os_timespec` gives. -/
def Timespec.Accepted (t : Timespec) : Prop := t.Reading ∧ 0 ≤ t.sec

namespace Timespec

variable {t : Timespec}

private theorem Current.reading (h : t.Current) : t.Reading := by
  obtain ⟨h₁, h₂, h₃, h₄⟩ := h
  exact ⟨⟨by omega, by omega⟩, h₃, h₄⟩

/-- A reading of less than two centuries, in nanoseconds. -/
private theorem Current.ns_bounds (h : t.Current) : 0 ≤ t.ns ∧ t.ns < 6307200000000000000 := by
  obtain ⟨h₁, h₂, h₃, h₄⟩ := h
  unfold Timespec.ns
  omega

/-- With at most a century's seconds it is a reading of less than two. -/
private theorem Accepted.capped (h : t.Accepted) : t.capped.Current := by
  obtain ⟨⟨-, h₁, h₂⟩, h₀⟩ := h
  unfold Timespec.capped
  by_cases hsec : t.sec < 3153600000
  · rw [if_pos hsec]
    exact ⟨h₀, show t.sec < 6307200000 by omega, h₁, h₂⟩
  · rw [if_neg hsec]
    exact ⟨show (0 : Int) ≤ 3153600000 by decide, show (3153600000 : Int) < 6307200000 by decide, h₁, h₂⟩

private theorem Accepted.capped_lt (h : t.Accepted) : t.capped.ns < 3153600001000000000 := by
  have hlt := h.1.lt
  unfold Timespec.capped Timespec.ns
  by_cases hsec : t.sec < 3153600000
  · rw [if_pos hsec]
    show t.sec * 1000000000 + t.nsec < _
    omega
  · rw [if_neg hsec]
    show 3153600000 * 1000000000 + t.nsec < _
    omega

/-- A century at most stays as it is. -/
private theorem capped_of_le (h : t.sec ≤ 3153600000) : t.capped = t := by
  unfold Timespec.capped
  by_cases hsec : t.sec < 3153600000
  · rw [if_pos hsec]
  · rw [if_neg hsec, show (3153600000 : Int) = t.sec by omega]

/-- What is longer loses by it. -/
private theorem capped_lt_of_lt (h : 3153600000 < t.sec) : t.capped.ns < t.ns := by
  unfold Timespec.capped Timespec.ns
  rw [if_neg (by omega)]
  show 3153600000 * 1000000000 + t.nsec < _
  omega

end Timespec

namespace Windows

/-! ### The arithmetic -/

/-- `_gt_iocp_now`, at a clock reading. -/
def gtIocpNow (now : Timespec) : Option Int := do
  let sec ← checked (now.sec * 1000000000)
  checked (sec + now.nsec)

/-- What `_gt_iocp_arm` sets the timer to. -/
def gtIocpArm (left : Int) : Option Int := do
  let up ← checked (left + 99)
  checked (-(up / 100))

/-- The port's own time-out. -/
def gtIocpMs (left : Int) : Option Nat :=
  if left ≥ 0xFFFFFFFE * 1000000 then some 0xFFFFFFFE
  else do
    let up ← checked (left + 999999)
    some (up / 1000000).toNat

/-- How a wait on the port is to end by itself: not, after some milliseconds, or by the timer set to `due`. -/
inductive PortLimit
  | infinite
  | ms (n : Nat)
  | timer (due : Int)
  deriving DecidableEq, Repr

/-- Until when a poll with the earliest sleeper's deadline `sleeper` waits. -/
def pollLimit (sleeper : Option Int) (limit : Int) : Int :=
  match sleeper with
  | some d => if d < limit then d else limit
  | none => limit

/-- `_gt_iocp_poll` up to the wait: `packet` is whether there are wait completion packets, `yes` whether the timer
could be set and tied, `now` the clock's reading. -/
def gtIocpLimit (packet yes : Bool) (sleeper : Option Int) (limit : Int) (now : Timespec) : Option PortLimit :=
  let until' := pollLimit sleeper limit
  if until' = iocpNever then some .infinite
  else if until' = iocpNow then some (.ms 0)
  else do
    let m ← gtIocpNow now
    let left ← checked (until' - m)
    if left ≤ 0 then some (.ms 0)
    else if packet then
      let due ← gtIocpArm left
      if yes then some (.timer due) else (gtIocpMs left).map .ms
    else (gtIocpMs left).map .ms

/-- `_gt_iocp_poll`: where there are sleepers, the clock is read again after the wait. -/
def gtIocpPoll (packet yes : Bool) (sleeper : Option Int) (limit : Int) (now after : Timespec) :
    Option PortLimit := do
  let port ← gtIocpLimit packet yes sleeper limit now
  match sleeper with
  | some _ => (gtIocpNow after).map fun _ => port
  | none => some port

/-- `_gt_io_poll_until` where there is a port: `at'` is the reading of the deadline's clock, `now` that of the
monotonic one.  The limit it forms, and how the wait is to end. -/
def gtIoPollUntil (packet yes : Bool) (sleeper : Option Int) (deadline at' now now' after : Timespec) :
    Option (Int × PortLimit) := do
  let left := gtRemaining64 at' deadline
  let m ← gtIocpNow now
  let sec ← checked (left.sec * 1000000000)
  let sum ← checked (m + sec)
  let limit ← checked (sum + left.nsec)
  (gtIocpPoll packet yes sleeper limit now' after).map fun port => (limit, port)

/-- What `_gt_try_sleep` does: leave it to the plain call, sleep until the monotonic clock reaches a time, or look at
the real-time clock until it has reached one, `ended` its reading then. -/
inductive TrySleep
  | plain
  | until (deadline : Int)
  | looked (ended : Option Timespec)
  deriving DecidableEq, Repr

/-- The loop on the real-time clock, over what that and the monotonic clock read at each look. -/
def sleepLooks (ns : Int) : List (Timespec × Timespec) → Option (Option Timespec)
  | [] => some none
  | (real, mono) :: looks => do
    let r ← gtIocpNow real
    let left ← checked (ns - r)
    if left ≤ 0 then some (some real)
    else
      let m ← gtIocpNow mono
      let _ ← checked (m + left)
      sleepLooks ns looks

/-- `_gt_try_sleep`, `now` the monotonic clock's reading. -/
def gtTrySleep (ready : Bool) (clock : Int) (abstime : Bool) (duration now : Timespec)
    (looks : List (Timespec × Timespec)) : Option TrySleep :=
  if ready = false ∨ (clock ≠ clockMonotonic ∧ clock ≠ clockRealtime) ∨ duration.sec < 0 ∨ duration.nsec < 0 ∨
    duration.nsec ≥ 1000000000 then some .plain
  else do
    -- At most a century ahead, so the ns count cannot overflow.
    let ns ← gtIocpNow (Timespec.capped duration)
    if abstime = false then
      let m ← gtIocpNow now
      (checked (m + ns)).map .until
    else if clock = clockMonotonic then some (.until ns)
    else (sleepLooks ns looks).map .looked

/-! ### What it is to do -/

/-- The wait ends no earlier than `until'`, the clock reading `m` at its start; the port's longest own time-out is the
exception. -/
def PortLimit.Covers (port : PortLimit) (until' m : Int) : Prop :=
  match port with
  | .infinite => True
  | .ms n => until' ≤ m + n * 1000000 ∨ n = 0xFFFFFFFE
  | .timer due => until' ≤ m + 100 * -due

/-- A call into the time arithmetic: a lock's or a condition's deadline, that `_gt_deadline` formed at the reading
`from'` and that is waited for with `_gt_io_poll_until`; the poll that waits for anything; a sleep. -/
inductive IocpCall
  | pollUntil (packet yes : Bool) (sleeper : Option Int) (from' timeout at' now now' after : Timespec)
  | poll (packet yes : Bool) (block : Bool) (sleeper : Option Int) (now after : Timespec)
  | sleep (ready : Bool) (clock : Int) (abstime : Bool) (duration now : Timespec) (looks : List (Timespec × Timespec))

/-- The earliest sleeper's deadline is a value of the clock's. -/
def SleeperOk (sleeper : Option Int) : Prop := ∀ d, sleeper = some d → 0 ≤ d ∧ d < 2 ^ 63

/-- `_gt_io_poll`'s limit. -/
def blockLimit (block : Bool) : Int := if block then iocpNever else iocpNow

namespace IocpCall

/-- The callers' arguments, at any current clock readings. -/
def Admitted : IocpCall → Prop
  | .pollUntil _ _ sleeper from' timeout at' now now' after =>
    SleeperOk sleeper ∧ timeout.Accepted ∧ from'.Current ∧ at'.Current ∧ now.Current ∧ now'.Current ∧ after.Current
  | .poll _ _ _ sleeper now after => SleeperOk sleeper ∧ now.Current ∧ after.Current
  | .sleep _ _ _ duration now looks =>
    duration.Accepted ∧ now.Current ∧ ∀ look ∈ looks, look.1.Current ∧ look.2.Current

/-- No operation overflows; the limit is no earlier than the deadline, nor is the end of the wait before it or the
earliest sleeper's; and no sleep ends before its deadline. -/
def Ok : IocpCall → Prop
  | .pollUntil packet yes sleeper from' timeout at' now now' after =>
    ∃ limit port, gtIoPollUntil packet yes sleeper (gtDeadline from' timeout) at' now now' after =
      some (limit, port) ∧ from'.ns + timeout.ns - at'.ns ≤ limit - now.ns ∧
      port.Covers (pollLimit sleeper limit) now'.ns
  | .poll packet yes block sleeper now after =>
    ∃ port, gtIocpPoll packet yes sleeper (blockLimit block) now after = some port ∧
      port.Covers (pollLimit sleeper (blockLimit block)) now.ns
  | .sleep ready clock abstime duration now looks =>
    ∃ slept, gtTrySleep ready clock abstime duration now looks = some slept ∧
      match slept with
      | .plain => True
      | .until d => ∀ woken, d ≤ woken → now.ns ≤ woken → (if abstime then 0 else now.ns) + duration.ns ≤ woken
      | .looked ended => ∀ real, ended = some real → duration.ns ≤ real.ns

/-- The call is a sleep that puts the deadline `d` among the sleepers'. -/
def Sleeps (d : Int) : IocpCall → Prop
  | .sleep ready clock abstime duration now looks =>
    gtTrySleep ready clock abstime duration now looks = some (.until d)
  | _ => False

/-- The time left, rounded up for the timer, fits. -/
def PollFits (packet : Bool) (sleeper : Option Int) (limit : Int) (now : Timespec) : Prop :=
  packet = true → pollLimit sleeper limit ≠ iocpNever → pollLimit sleeper limit - now.ns + 99 < 2 ^ 63

/-- When it does: the end of the time-out fits in the monotonic clock's nanoseconds, and so does the time left,
rounded up; a sleep is a century at most, or an absolute one whose time has come, and its end fits too. -/
def Within : IocpCall → Prop
  | .pollUntil packet _ sleeper from' timeout at' now now' _ =>
    let limit := now.ns + max 0 (from'.ns + timeout.ns - at'.ns)
    limit < 2 ^ 63 ∧ PollFits packet sleeper limit now'
  | .poll packet _ block sleeper now _ => PollFits packet sleeper (blockLimit block) now
  | .sleep ready clock abstime duration now looks =>
    ready = true → clock = clockMonotonic ∨ clock = clockRealtime →
      if abstime = false then duration.sec ≤ 3153600000 ∧ now.ns + duration.ns < 2 ^ 63
      else if clock = clockMonotonic then duration.sec ≤ 3153600000 ∨ duration.ns ≤ now.ns
      else
        let ns := (Timespec.capped duration).ns
        (∀ look ∈ looks.takeWhile fun look => look.1.ns < ns, look.2.ns + (ns - look.1.ns) < 2 ^ 63) ∧
          ∀ look, looks.find? (fun look => ns ≤ look.1.ns) = some look → duration.ns ≤ look.1.ns

end IocpCall

variable {now now' after at' from' timeout duration : Timespec} {packet yes : Bool} {sleeper : Option Int}
variable {limit left m : Int} {port : PortLimit}

/-! ### The clock -/

private theorem gtIocpNow_current (h : now.Current) : gtIocpNow now = some now.ns := by
  obtain ⟨h₁, h₂, h₃, h₄⟩ := h
  have hsec : Fits (now.sec * 1000000000) := ⟨by omega, by omega⟩
  have hsum : Fits (now.sec * 1000000000 + now.nsec) := ⟨by omega, by omega⟩
  unfold gtIocpNow
  rw [checked_of_fits hsec]
  exact checked_of_fits hsum

/-! ### A poll -/

/-- The port's time-out overflows nothing. -/
private theorem gtIocpMs_eq (h0 : 0 < left) : gtIocpMs left = some (Iocp.timeoutMs left) := by
  unfold gtIocpMs Iocp.timeoutMs
  by_cases hcap : left ≥ 0xFFFFFFFE * 1000000
  · rw [if_pos hcap, if_pos hcap]
  · have hup : Fits (left + 999999) := ⟨by omega, by omega⟩
    rw [if_neg hcap, if_neg hcap, checked_of_fits hup]
    rfl

private theorem timeoutMs_covers (h0 : 0 < left) :
    left ≤ Iocp.timeoutMs left * 1000000 ∨ Iocp.timeoutMs left = 0xFFFFFFFE := by
  unfold Iocp.timeoutMs
  by_cases hcap : left ≥ 0xFFFFFFFE * 1000000
  · exact Or.inr (if_pos hcap)
  · rw [if_neg hcap]
    left
    rw [Int.toNat_of_nonneg (by omega)]
    omega

/-- The timer can be set where the time left, rounded up, fits, and only there. -/
private theorem gtIocpArm_eq (h0 : 0 < left) :
    gtIocpArm left = if left + 99 < 2 ^ 63 then some (-Iocp.dueUnits left) else none := by
  unfold gtIocpArm Iocp.dueUnits
  by_cases hfit : left + 99 < 2 ^ 63
  · have hup : Fits (left + 99) := ⟨by omega, hfit⟩
    have hdue : Fits (-((left + 99) / 100)) := ⟨by omega, by omega⟩
    rw [if_pos hfit, checked_of_fits hup]
    exact checked_of_fits hdue
  · have hup : ¬Fits (left + 99) := fun hup => hfit hup.2
    rw [if_neg hfit, checked_of_not hup]
    rfl

/-- What is left of the wait for `until'`, handed to the port. -/
private theorem gtIocpLimit_iff (hnow : now.Current)
    (hlimit : pollLimit sleeper limit = iocpNow ∨ 0 ≤ pollLimit sleeper limit ∧ pollLimit sleeper limit < 2 ^ 63) :
    (∃ port, gtIocpLimit packet yes sleeper limit now = some port ∧ port.Covers (pollLimit sleeper limit) now.ns) ↔
      IocpCall.PollFits packet sleeper limit now := by
  obtain ⟨hm0, hm⟩ := hnow.ns_bounds
  unfold gtIocpLimit IocpCall.PollFits
  generalize pollLimit sleeper limit = u at hlimit
  by_cases hnever : u = iocpNever
  · simp only [if_pos hnever]
    exact ⟨fun _ _ hn => absurd hnever hn, fun _ => ⟨.infinite, rfl, trivial⟩⟩
  simp only [if_neg hnever]
  by_cases hiocp : u = iocpNow
  · simp only [if_pos hiocp]
    rw [hiocp]
    unfold iocpNow
    refine ⟨fun _ _ _ => by omega, fun _ => ⟨.ms 0, rfl, Or.inl ?_⟩⟩
    omega
  simp only [if_neg hiocp, gtIocpNow_current hnow]
  have hu := hlimit.resolve_left hiocp
  have hleft : Fits (u - now.ns) := ⟨by omega, by omega⟩
  simp only [Option.bind_eq_bind, Option.bind_some, checked_of_fits hleft]
  by_cases hover : u - now.ns ≤ 0
  · simp only [if_pos hover]
    refine ⟨fun _ _ _ => by omega, fun _ => ⟨.ms 0, rfl, Or.inl ?_⟩⟩
    omega
  simp only [if_neg hover]
  have hn := gtIocpMs_eq (not_le.1 hover)
  have hms : (PortLimit.ms (Iocp.timeoutMs (u - now.ns))).Covers u now.ns := by
    rcases timeoutMs_covers (not_le.1 hover) with hcovers | hcovers
    · exact Or.inl (by omega)
    · exact Or.inr hcovers
  by_cases hpacket : packet = true
  · simp only [if_pos hpacket, gtIocpArm_eq (not_le.1 hover)]
    by_cases hfit : u - now.ns + 99 < 2 ^ 63
    · simp only [if_pos hfit, Option.bind_some]
      refine ⟨fun _ _ _ => hfit, fun _ => ?_⟩
      by_cases hyes : yes = true
      · rw [if_pos hyes]
        refine ⟨_, rfl, ?_⟩
        show u ≤ now.ns + 100 * - -Iocp.dueUnits (u - now.ns)
        unfold Iocp.dueUnits
        omega
      · rw [if_neg hyes, hn]
        exact ⟨_, rfl, hms⟩
    · simp only [if_neg hfit, Option.bind_none]
      refine ⟨?_, fun h => absurd (h hpacket hnever) hfit⟩
      rintro ⟨port, hport, -⟩
      exact absurd hport nofun
  · simp only [if_neg hpacket, hn]
    exact ⟨fun _ h => absurd h hpacket, fun _ => ⟨_, rfl, hms⟩⟩

/-- The reading after the wait overflows nothing. -/
private theorem gtIocpPoll_eq (hafter : after.Current) :
    gtIocpPoll packet yes sleeper limit now after = gtIocpLimit packet yes sleeper limit now := by
  unfold gtIocpPoll
  generalize gtIocpLimit packet yes sleeper limit now = port
  cases sleeper with
  | none => cases port <;> rfl
  | some d =>
    rw [gtIocpNow_current hafter]
    cases port <;> rfl

private theorem pollLimit_bounds (hsleeper : SleeperOk sleeper)
    (hlimit : limit = iocpNow ∨ 0 ≤ limit ∧ limit < 2 ^ 63) :
    pollLimit sleeper limit = iocpNow ∨ 0 ≤ pollLimit sleeper limit ∧ pollLimit sleeper limit < 2 ^ 63 := by
  unfold pollLimit
  cases sleeper with
  | none => exact hlimit
  | some d =>
    by_cases hd : d < limit
    · simp only [if_pos hd]
      exact Or.inr (hsleeper d rfl)
    · simp only [if_neg hd]
      exact hlimit

/-- A poll with the reading after its wait. -/
private theorem gtIocpPoll_iff (hnow : now.Current) (hafter : after.Current) (hsleeper : SleeperOk sleeper)
    (hlimit : limit = iocpNow ∨ 0 ≤ limit ∧ limit < 2 ^ 63) :
    (∃ port, gtIocpPoll packet yes sleeper limit now after = some port ∧
      port.Covers (pollLimit sleeper limit) now.ns) ↔ IocpCall.PollFits packet sleeper limit now := by
  rw [gtIocpPoll_eq hafter]
  exact gtIocpLimit_iff hnow (pollLimit_bounds hsleeper hlimit)

/-! ### A deadline of a lock or a condition -/

/-- What is left until the deadline, where its seconds fit. -/
private theorem gtRemaining64_deadline (hfrom : from'.Current) (ht : timeout.Accepted) (hat : at'.Current)
    (hfit : from'.ns + timeout.ns - at'.ns < 2 ^ 63) :
    (gtRemaining64 at' (gtDeadline from' timeout)).ns = max 0 (from'.ns + timeout.ns - at'.ns) ∧
      0 ≤ (gtRemaining64 at' (gtDeadline from' timeout)).sec ∧
      0 ≤ (gtRemaining64 at' (gtDeadline from' timeout)).nsec := by
  have hsum := Timespec.sum_lt hfrom.reading ht.1
  have hcarry := from'.carry_cases timeout
  have hnorm := Timespec.plus_normal hfrom.reading ht.1
  obtain ⟨f₁, f₂, f₃, f₄⟩ := hfrom
  obtain ⟨⟨-, t₁, t₂⟩, t₀⟩ := ht
  obtain ⟨a₁, a₂, a₃, a₄⟩ := hat
  unfold Timespec.ns at hfit
  have hfits : Fits (from'.sec + timeout.sec + from'.carry timeout) := ⟨by omega, by omega⟩
  have hexact := Timespec.ns_plus hfits
  unfold gtDeadline
  generalize from'.plus timeout = d at hexact hnorm
  rw [← hexact]
  unfold Timespec.ns at hexact ⊢
  have hdiff : Fits (d.sec - at'.sec) := ⟨by omega, by omega⟩
  have hone : Fits (d.sec - at'.sec - 1) := ⟨by omega, by omega⟩
  unfold gtRemaining64
  simp only [wrap64_of_fits hdiff, wrap64_of_fits hone]
  by_cases hborrow : d.nsec - at'.nsec < 0
  · simp only [if_pos hborrow]
    by_cases hneg : d.sec - at'.sec - 1 < 0
    · simp only [if_pos hneg]
      omega
    · simp only [if_neg hneg]
      omega
  · simp only [if_neg hborrow]
    by_cases hneg : d.sec - at'.sec < 0
    · simp only [if_pos hneg]
      omega
    · simp only [if_neg hneg]
      omega

/-- The seconds and nanoseconds that are left are not negative. -/
private theorem gtRemaining64_nonneg {deadline : Timespec} (hd : 0 ≤ deadline.nsec ∧ deadline.nsec < 1000000000)
    (hat : at'.Current) : 0 ≤ (gtRemaining64 at' deadline).sec ∧ 0 ≤ (gtRemaining64 at' deadline).nsec := by
  obtain ⟨a₁, a₂, a₃, a₄⟩ := hat
  unfold gtRemaining64
  by_cases hborrow : deadline.nsec - at'.nsec < 0
  · simp only [if_pos hborrow]
    by_cases hneg : wrap64 (wrap64 (deadline.sec - at'.sec) - 1) < 0
    · simp only [if_pos hneg]
      omega
    · simp only [if_neg hneg]
      omega
  · simp only [if_neg hborrow]
    by_cases hneg : wrap64 (deadline.sec - at'.sec) < 0
    · simp only [if_pos hneg]
      omega
    · simp only [if_neg hneg]
      omega

/-- The limit overflows nothing where all of it fits, and only there. -/
private theorem gtIoPollUntil_eq {deadline : Timespec} (hnow : now.Current)
    (hsec : 0 ≤ (gtRemaining64 at' deadline).sec) (hnsec : 0 ≤ (gtRemaining64 at' deadline).nsec) :
    gtIoPollUntil packet yes sleeper deadline at' now now' after =
      if now.ns + (gtRemaining64 at' deadline).ns < 2 ^ 63 then
        (gtIocpPoll packet yes sleeper (now.ns + (gtRemaining64 at' deadline).ns) now' after).map fun port =>
          (now.ns + (gtRemaining64 at' deadline).ns, port)
      else none := by
  obtain ⟨hm0, hm⟩ := hnow.ns_bounds
  unfold gtIoPollUntil
  rw [gtIocpNow_current hnow]
  generalize gtRemaining64 at' deadline = l at hsec hnsec
  simp only [Option.bind_eq_bind, Option.bind_some]
  by_cases hfit : now.ns + l.ns < 2 ^ 63
  · have hall : now.ns + (l.sec * 1000000000 + l.nsec) < 2 ^ 63 := hfit
    have h₁ : Fits (l.sec * 1000000000) := ⟨by omega, by omega⟩
    have h₂ : Fits (now.ns + l.sec * 1000000000) := ⟨by omega, by omega⟩
    have h₃ : Fits (now.ns + l.sec * 1000000000 + l.nsec) := ⟨by omega, by omega⟩
    have hsum : now.ns + l.sec * 1000000000 + l.nsec = now.ns + l.ns := Int.add_assoc ..
    rw [hsum] at h₃
    simp only [if_pos hfit, checked_of_fits h₁, checked_of_fits h₂, hsum, checked_of_fits h₃, Option.bind_some]
  · have hall : ¬now.ns + (l.sec * 1000000000 + l.nsec) < 2 ^ 63 := hfit
    rw [if_neg hfit]
    by_cases h₁ : Fits (l.sec * 1000000000)
    · rw [checked_of_fits h₁, Option.bind_some]
      by_cases h₂ : Fits (now.ns + l.sec * 1000000000)
      · have h₃ : ¬Fits (now.ns + l.sec * 1000000000 + l.nsec) := fun h => hall (by
          have := h.2
          omega)
        rw [checked_of_fits h₂, Option.bind_some, checked_of_not h₃]
        rfl
      · rw [checked_of_not h₂]
        rfl
    · rw [checked_of_not h₁]
      rfl

/-- A deadline of `_gt_deadline` is waited for as it should be where the end of the time-out fits, and
the time left. -/
private theorem pollUntil_iff (hsleeper : SleeperOk sleeper) (ht : timeout.Accepted) (hfrom : from'.Current)
    (hat : at'.Current) (hnow : now.Current) (hnow' : now'.Current) (hafter : after.Current) :
    (IocpCall.pollUntil packet yes sleeper from' timeout at' now now' after).Ok ↔
      (IocpCall.pollUntil packet yes sleeper from' timeout at' now now' after).Within := by
  have hm0 := hnow.ns_bounds.1
  have hnorm : 0 ≤ (gtDeadline from' timeout).nsec ∧ (gtDeadline from' timeout).nsec < 1000000000 :=
    Timespec.plus_normal hfrom.reading ht.1
  obtain ⟨hsec, hnsec⟩ := gtRemaining64_nonneg hnorm hat
  have hl0 : 0 ≤ (gtRemaining64 at' (gtDeadline from' timeout)).ns := by
    unfold Timespec.ns
    omega
  simp only [IocpCall.Ok, IocpCall.Within]
  rw [gtIoPollUntil_eq hnow hsec hnsec]
  constructor
  · rintro ⟨limit, port, heq, hlimit, hcovers⟩
    by_cases hfit : now.ns + (gtRemaining64 at' (gtDeadline from' timeout)).ns < 2 ^ 63
    · rw [if_pos hfit] at heq
      obtain ⟨port', hport, hpair⟩ := Option.map_eq_some_iff.1 heq
      have hlim : now.ns + (gtRemaining64 at' (gtDeadline from' timeout)).ns = limit := congrArg Prod.fst hpair
      have hport' : port' = port := congrArg Prod.snd hpair
      -- What was handed on is no earlier than the deadline, so the difference fits and is what was left.
      have hrem := (gtRemaining64_deadline hfrom ht hat (by omega)).1
      rw [hrem] at hlim hfit hport
      rw [hlim] at hfit hport ⊢
      rw [hport'] at hport
      exact ⟨hfit, (gtIocpPoll_iff hnow' hafter hsleeper (Or.inr ⟨by omega, hfit⟩)).1 ⟨port, hport, hcovers⟩⟩
    · rw [if_neg hfit] at heq
      exact absurd heq nofun
  · rintro ⟨hfit, hpoll⟩
    have hrem := (gtRemaining64_deadline hfrom ht hat (by omega)).1
    rw [hrem, if_pos hfit]
    have hex : ∃ port, gtIocpPoll packet yes sleeper (now.ns + max 0 (from'.ns + timeout.ns - at'.ns)) now' after =
        some port ∧ port.Covers (pollLimit sleeper (now.ns + max 0 (from'.ns + timeout.ns - at'.ns))) now'.ns :=
      (gtIocpPoll_iff hnow' hafter hsleeper (Or.inr ⟨by omega, hfit⟩)).2 hpoll
    obtain ⟨port, hport, hcovers⟩ := hex
    refine ⟨_, port, ?_, ?_, hcovers⟩
    · rw [hport]
      rfl
    · omega

/-! ### Sleeps -/

/-- The loop on the real-time clock overflows nothing and ends in time where each look before the time it waits for
leaves a time that fits, and the first look from then on has reached the deadline `d`. -/
private theorem sleepLooks_iff {ns d : Int} {looks : List (Timespec × Timespec)} (hns0 : 0 ≤ ns)
    (hns : ns < 3153600001000000000) (hlooks : ∀ look ∈ looks, look.1.Current ∧ look.2.Current) :
    (∃ ended, sleepLooks ns looks = some ended ∧ ∀ real, ended = some real → d ≤ real.ns) ↔
      (∀ look ∈ looks.takeWhile fun look => look.1.ns < ns, look.2.ns + (ns - look.1.ns) < 2 ^ 63) ∧
        ∀ look, looks.find? (fun look => ns ≤ look.1.ns) = some look → d ≤ look.1.ns := by
  induction looks with
  | nil =>
    refine ⟨fun _ => ⟨nofun, nofun⟩, fun _ => ⟨none, rfl, nofun⟩⟩
  | cons look looks ih =>
    obtain ⟨real, mono⟩ := look
    obtain ⟨hreal, hmono⟩ := hlooks (real, mono) (List.mem_cons_self ..)
    have ih := ih fun l hl => hlooks l (List.mem_cons_of_mem _ hl)
    have hr : 0 ≤ real.ns ∧ real.ns < 6307200000000000000 := hreal.ns_bounds
    have hm : 0 ≤ mono.ns ∧ mono.ns < 6307200000000000000 := hmono.ns_bounds
    have hleft : Fits (ns - real.ns) := ⟨by omega, by omega⟩
    unfold sleepLooks
    simp only [gtIocpNow_current hreal, gtIocpNow_current hmono, Option.bind_eq_bind, Option.bind_some,
      checked_of_fits hleft]
    by_cases hover : ns - real.ns ≤ 0
    · rw [if_pos hover, List.takeWhile_cons_of_neg (by simpa using hover),
        List.find?_cons_of_pos (by simpa using hover)]
      constructor
      · rintro ⟨ended, hended, hd⟩
        refine ⟨nofun, fun look hlook => ?_⟩
        rw [← Option.some.inj hlook]
        exact hd real (Option.some.inj hended).symm
      · rintro ⟨-, hd⟩
        refine ⟨some real, rfl, fun r hr => ?_⟩
        rw [← Option.some.inj hr]
        exact hd (real, mono) rfl
    · rw [if_neg hover, List.takeWhile_cons_of_pos (by simpa using hover),
        List.find?_cons_of_neg (by simpa using hover)]
      simp only [List.forall_mem_cons]
      by_cases hfit : mono.ns + (ns - real.ns) < 2 ^ 63
      · have hsum : Fits (mono.ns + (ns - real.ns)) := ⟨by omega, hfit⟩
        rw [checked_of_fits hsum, Option.bind_some, ih]
        refine ⟨fun h => ⟨⟨hfit, h.1⟩, h.2⟩, fun h => ⟨h.1.2, h.2⟩⟩
      · rw [checked_of_not fun h => hfit h.2, Option.bind_none]
        constructor
        · rintro ⟨ended, hended, -⟩
          exact absurd hended nofun
        · rintro ⟨⟨h, -⟩, -⟩
          exact absurd h hfit

/-- The deadline that a sleep puts among the sleepers'. -/
private theorem gtTrySleep_sleeperOk {ready abstime : Bool} {clock d : Int} {looks : List (Timespec × Timespec)}
    (hd : duration.Accepted) (hnow : now.Current)
    (h : gtTrySleep ready clock abstime duration now looks = some (.until d)) : SleeperOk (some d) := by
  obtain ⟨hm0, -⟩ := hnow.ns_bounds
  have hcap := hd.capped
  obtain ⟨hc0, hc⟩ := hcap.ns_bounds
  intro d' hd'
  rw [← Option.some.inj hd']
  unfold gtTrySleep at h
  split at h
  · exact absurd (Option.some.inj h) nofun
  simp only [gtIocpNow_current hcap, gtIocpNow_current hnow, Option.bind_eq_bind, Option.bind_some] at h
  split at h
  · obtain ⟨sum, hsum, hdeadline⟩ := Option.map_eq_some_iff.1 h
    obtain ⟨hfits, heq⟩ := checked_eq_some.1 hsum
    have hsd : sum = d := TrySleep.until.inj hdeadline
    rw [← hsd, ← heq]
    exact ⟨by omega, hfits.2⟩
  · split at h
    · rw [← TrySleep.until.inj (Option.some.inj h)]
      exact ⟨hc0, by omega⟩
    · obtain ⟨ended, -, hlooked⟩ := Option.map_eq_some_iff.1 h
      exact absurd hlooked nofun

/-- A sleep is as it should be where it is a century at most, or an absolute one whose time has come, and its end
fits. -/
private theorem sleep_iff {ready abstime : Bool} {clock : Int} {looks : List (Timespec × Timespec)}
    (hd : duration.Accepted) (hnow : now.Current) (hlooks : ∀ look ∈ looks, look.1.Current ∧ look.2.Current) :
    (IocpCall.sleep ready clock abstime duration now looks).Ok ↔
      (IocpCall.sleep ready clock abstime duration now looks).Within := by
  obtain ⟨hm0, hm⟩ := hnow.ns_bounds
  have hcap := hd.capped
  obtain ⟨hc0, -⟩ := hcap.ns_bounds
  have hc := hd.capped_lt
  have hle : duration.sec ≤ 3153600000 ∨ 3153600000 < duration.sec := le_or_gt ..
  simp only [IocpCall.Ok, IocpCall.Within]
  unfold gtTrySleep
  by_cases hplain : ready = true ∧ (clock = clockMonotonic ∨ clock = clockRealtime)
  · obtain ⟨hready, hclock⟩ := hplain
    have h₀ := hd.2
    have h₁ := hd.1.nonneg
    have h₂ := hd.1.lt
    rw [if_neg (by
      rintro (h | ⟨h, h'⟩ | h | h | h)
      · exact absurd (hready.symm.trans h) (by decide)
      · exact hclock.elim h h'
      · omega
      · omega
      · omega)]
    simp only [gtIocpNow_current hcap, gtIocpNow_current hnow, Option.bind_eq_bind, Option.bind_some]
    by_cases habs : abstime = false
    · simp only [habs, if_true]
      by_cases hfit : now.ns + duration.capped.ns < 2 ^ 63
      · have hsum : Fits (now.ns + duration.capped.ns) := ⟨by omega, hfit⟩
        rw [checked_of_fits hsum]
        constructor
        · rintro ⟨slept, hslept, hend⟩ - -
          rw [← Option.some.inj hslept] at hend
          have hend := hend (now.ns + duration.capped.ns) le_rfl (by omega)
          rcases hle with hle | hgt
          · rw [Timespec.capped_of_le hle] at hfit
            exact ⟨hle, hfit⟩
          · have hlt := Timespec.capped_lt_of_lt hgt
            simp only [Bool.false_eq_true, if_false] at hend
            omega
        · intro h
          obtain ⟨hle, -⟩ := h hready hclock
          refine ⟨_, rfl, fun woken hwoken _ => ?_⟩
          rw [Timespec.capped_of_le hle] at hwoken
          simpa using hwoken
      · rw [checked_of_not fun h => hfit h.2]
        constructor
        · rintro ⟨slept, hslept, -⟩
          exact absurd hslept nofun
        · intro h
          obtain ⟨hle, hsum⟩ := h hready hclock
          rw [Timespec.capped_of_le hle] at hfit
          exact absurd hsum hfit
    · have habs' : abstime = true := by simpa using habs
      simp only [habs', if_true]
      by_cases hmono : clock = clockMonotonic
      · simp only [if_pos hmono]
        constructor
        · rintro ⟨slept, hslept, hend⟩ - -
          rw [← Option.some.inj hslept] at hend
          rcases hle with hle | hgt
          · exact Or.inl hle
          · have hlt := Timespec.capped_lt_of_lt hgt
            have hend := hend (max now.ns duration.capped.ns) (le_max_right ..) (le_max_left ..)
            exact Or.inr (by omega)
        · intro h
          refine ⟨_, rfl, fun woken hwoken hlater => ?_⟩
          rcases h hready hclock with hle | hpast
          · rw [Timespec.capped_of_le hle] at hwoken
            omega
          · omega
      · simp only [if_neg hmono]
        have hlooked := sleepLooks_iff (d := duration.ns) hc0 hc hlooks
        constructor
        · rintro ⟨slept, hslept, hend⟩ - -
          obtain ⟨ended, hended, hslept⟩ := Option.map_eq_some_iff.1 hslept
          rw [← hslept] at hend
          exact hlooked.1 ⟨ended, hended, hend⟩
        · intro h
          obtain ⟨ended, hended, hend⟩ := hlooked.2 (h hready hclock)
          exact ⟨.looked ended, by rw [hended]; rfl, hend⟩
  · rw [if_pos (by
      by_cases hready : ready = true
      · refine Or.inr (Or.inl ?_)
        constructor
        · exact fun h => hplain ⟨hready, Or.inl h⟩
        · exact fun h => hplain ⟨hready, Or.inr h⟩
      · exact Or.inl (by simpa using hready))]
    refine ⟨fun _ hready hclock => absurd ⟨hready, hclock⟩ hplain, fun _ => ⟨.plain, rfl, trivial⟩⟩

/-- In nothing that the callers admit, at any current readings, does an operation overflow, a limit come before its
deadline or a sleep end before it, exactly where the ends of time-outs and sleeps are within what the arithmetic is
made for; and the deadline that a sleep puts among the sleepers' is one that a poll may find there. -/
theorem iocp_times_iff (c : IocpCall) (h : c.Admitted) :
    (c.Ok ↔ c.Within) ∧ ∀ d, c.Sleeps d → SleeperOk (some d) := by
  cases c with
  | pollUntil packet yes sleeper from' timeout at' now now' after =>
    obtain ⟨hsleeper, ht, hfrom, hat, hnow, hnow', hafter⟩ := h
    exact ⟨pollUntil_iff hsleeper ht hfrom hat hnow hnow' hafter, fun d hd => hd.elim⟩
  | poll packet yes block sleeper now after =>
    obtain ⟨hsleeper, hnow, hafter⟩ := h
    have hlimit : blockLimit block = iocpNow ∨ 0 ≤ blockLimit block ∧ blockLimit block < 2 ^ 63 := by
      cases block with
      | false => exact Or.inl rfl
      | true => exact Or.inr ⟨by decide, by decide⟩
    exact ⟨gtIocpPoll_iff hnow hafter hsleeper hlimit, fun d hd => hd.elim⟩
  | sleep ready clock abstime duration now looks =>
    obtain ⟨hd, hnow, hlooks⟩ := h
    exact ⟨sleep_iff hd hnow hlooks, fun d hsleeps => gtTrySleep_sleeperOk hd hnow hsleeps⟩

/-- A lock's time-out of 1.5 s beside a sleeper, the clocks at ten seconds. -/
theorem iocp_times_iff_lock :
    let c := IocpCall.pollUntil true true (some 10900000000) ⟨10, 700000000⟩ ⟨1, 500000000⟩ ⟨10, 800000000⟩ ⟨10,
      800000000⟩ ⟨10, 800000100⟩ ⟨10, 900000100⟩
    c.Admitted ∧ (c.Ok ↔ c.Within) := by
  have hadmitted : (IocpCall.pollUntil true true (some 10900000000) ⟨10, 700000000⟩ ⟨1, 500000000⟩ ⟨10, 800000000⟩
      ⟨10, 800000000⟩ ⟨10, 800000100⟩ ⟨10, 900000100⟩).Admitted := by
    refine ⟨fun d hd => ?_, ⟨⟨by decide, by decide, by decide⟩, by decide⟩, ?_, ?_, ?_, ?_, ?_⟩
    · rw [← Option.some.inj hd]
      decide
    all_goals exact ⟨by decide, by decide, by decide, by decide⟩
  exact ⟨hadmitted, (iocp_times_iff _ hadmitted).1⟩

/-- A lock's time-out of three centuries overflows; and an absolute sleep that is to last until the real-time clock
reads 3200000000 s ends at 3153600000 s. -/
theorem centuries_overflow :
    let c := IocpCall.pollUntil true true none ⟨10, 0⟩ ⟨9460800000, 0⟩ ⟨10, 0⟩ ⟨10, 0⟩ ⟨10, 0⟩ ⟨10, 0⟩
    let look : Timespec := ⟨3153600000, 0⟩
    c.Admitted ∧ gtIoPollUntil true true none (gtDeadline ⟨10, 0⟩ ⟨9460800000, 0⟩) ⟨10, 0⟩ ⟨10, 0⟩ ⟨10, 0⟩ ⟨10, 0⟩ =
      none ∧ ¬c.Ok ∧
      (IocpCall.sleep true clockRealtime true ⟨3200000000, 0⟩ look [(look, look)]).Admitted ∧
      gtTrySleep true clockRealtime true ⟨3200000000, 0⟩ look [(look, look)] = some (.looked (some look)) ∧
      ¬(IocpCall.sleep true clockRealtime true ⟨3200000000, 0⟩ look [(look, look)]).Ok := by
  intro c look
  have hnone : gtIoPollUntil true true none (gtDeadline ⟨10, 0⟩ ⟨9460800000, 0⟩) ⟨10, 0⟩ ⟨10, 0⟩ ⟨10, 0⟩ ⟨10, 0⟩ =
      none := by
    decide
  have hlooked : gtTrySleep true clockRealtime true ⟨3200000000, 0⟩ look [(look, look)] =
      some (.looked (some look)) := by
    decide
  have hten : Timespec.Current ⟨10, 0⟩ := ⟨by decide, by decide, by decide, by decide⟩
  have hlook : look.Current := ⟨by decide, by decide, by decide, by decide⟩
  refine ⟨⟨nofun, ⟨⟨by decide, by decide, by decide⟩, by decide⟩, hten, hten, hten, hten, hten⟩, hnone, ?_, ?_,
    hlooked, ?_⟩
  · rintro ⟨limit, port, hpoll, -⟩
    rw [hnone] at hpoll
    exact absurd hpoll nofun
  · refine ⟨⟨⟨by decide, by decide, by decide⟩, by decide⟩, hlook, fun l hl => ?_⟩
    rw [List.mem_singleton.1 hl]
    exact ⟨hlook, hlook⟩
  · rintro ⟨slept, hslept, hend⟩
    rw [hlooked] at hslept
    rw [← Option.some.inj hslept] at hend
    exact absurd (hend look rfl) (by decide)

end Windows

end Sppc
