import Sppc.CallRuns
import Sppc.SignedWords
import Sppc.Windows.Cond
import Sppc.Windows.Rwlock

/-!
# Waits with a deadline (`platform/windows.h`)

The milliseconds of `_sppc_win_wait_ms`, and the loops that wait for them again and again.
-/

namespace Sppc.Windows

open SignedWords Threads

/-- A difference of two `long`s: none where it overflows. -/
def checkedLong (x : Int) : Option Int := if -2 ^ 31 ≤ x ∧ x < 2 ^ 31 then some x else none

/-- `_sppc_win_wait_ms` for a deadline: none where a signed operation overflows. -/
def waitMsChecked (now deadline : Timespec) : Option Nat :=
  (checked (deadline.tvSec - now.tvSec)).bind fun sec =>
    if sec < 0 then some 0
    else if (infinite / 1000 : Nat) ≤ sec then some (infinite - 1)
    else
      (checked (sec * 1000000000)).bind fun whole =>
        (checkedLong (deadline.tvNsec - now.tvNsec)).bind fun part =>
          (checked (whole + part)).bind fun ns =>
            if ns ≤ 0 then some 0 else (checked (ns + 999999)).map fun up => (up / 1000000).toNat % 2 ^ 32

/-- The time is one of a clock that started at 0. -/
structure Timespec.Normal (t : Timespec) : Prop where
  valid : t.Valid
  sec : 0 ≤ t.tvSec ∧ t.tvSec < 2 ^ 63

/-- What a wait before a deadline is to be, where the clock reads `now`. -/
structure WaitsFor (now deadline : Timespec) : Prop where
  passed : waitMs now (some deadline) = 0 ↔ deadline.ns ≤ now.ns
  before : now.ns < deadline.ns → 1 ≤ waitMs now (some deadline) ∧ waitMs now (some deadline) < infinite
  enough : deadline.ns ≤ now.ns + waitMs now (some deadline) * 1000000 ∨ waitMs now (some deadline) = infinite - 1
  exact : waitMsChecked now deadline = some (waitMs now (some deadline))

variable {now deadline : Timespec}

private theorem waitMs_lt_infinite (hnow : now.Valid) (hd : deadline.Valid) :
    waitMs now (some deadline) < infinite := by
  obtain ⟨hn, hn'⟩ := hnow
  obtain ⟨hd, hd'⟩ := hd
  have hinf : infinite = 4294967295 := rfl
  simp only [waitMs]
  split
  · omega
  split
  · omega
  split
  · omega
  · omega

private theorem waitMs_enough (hnow : now.Valid) (hd : deadline.Valid) :
    deadline.ns ≤ now.ns + waitMs now (some deadline) * 1000000 ∨ waitMs now (some deadline) = infinite - 1 := by
  obtain ⟨hn, hn'⟩ := hnow
  obtain ⟨hd, hd'⟩ := hd
  have hinf : infinite = 4294967295 := rfl
  simp only [waitMs, Timespec.ns]
  split
  · omega
  split
  · exact Or.inr rfl
  split
  · omega
  · omega

private theorem waitMsChecked_eq (hnow : now.Normal) (hd : deadline.Normal) :
    waitMsChecked now deadline = some (waitMs now (some deadline)) := by
  obtain ⟨⟨hn, hn'⟩, hs, hs'⟩ := hnow
  obtain ⟨⟨hd, hd'⟩, ht, ht'⟩ := hd
  have hinf : infinite = 4294967295 := rfl
  have hsec : Fits (deadline.tvSec - now.tvSec) := by
    unfold Fits
    omega
  rw [waitMsChecked, checked_of_fits hsec, Option.bind_some, waitMs]
  dsimp only
  split
  · rfl
  split
  · rfl
  have hwhole : Fits ((deadline.tvSec - now.tvSec) * 1000000000) := by
    unfold Fits
    omega
  have hpart : checkedLong (deadline.tvNsec - now.tvNsec) = some (deadline.tvNsec - now.tvNsec) := by
    rw [checkedLong, if_pos (by omega)]
  have hns : Fits ((deadline.tvSec - now.tvSec) * 1000000000 + (deadline.tvNsec - now.tvNsec)) := by
    unfold Fits
    omega
  rw [checked_of_fits hwhole, Option.bind_some, hpart, Option.bind_some, checked_of_fits hns, Option.bind_some]
  split
  · rfl
  · rw [checked_of_fits, Option.map_some]
    unfold Fits
    omega

private theorem waitsFor (hnow : now.Normal) (hd : deadline.Normal) : WaitsFor now deadline where
  passed := by
    rw [waitMs_eq_zero hnow.valid fun d h => by rw [← Option.some_inj.1 h]; exact hd.valid]
    exact ⟨fun ⟨d, h, hle⟩ => by rw [Option.some_inj.1 h]; exact hle, fun h => ⟨deadline, rfl, h⟩⟩
  before := by
    intro hlt
    refine ⟨?_, waitMs_lt_infinite hnow.valid hd.valid⟩
    rw [Nat.one_le_iff_ne_zero]
    intro hzero
    rw [waitMs_eq_zero hnow.valid fun d h => by rw [← Option.some_inj.1 h]; exact hd.valid] at hzero
    obtain ⟨d, h, hle⟩ := hzero
    rw [← Option.some_inj.1 h] at hle
    omega
  enough := waitMs_enough hnow.valid hd.valid
  exact := waitMsChecked_eq hnow hd

/-! ### The loops -/

variable {Tid : Type} [DecidableEq Tid] {t : Tid} {w : Until}

/-- A thread is in the middle of a call of the mutex. -/
def MutexLoc.Going (l : MutexLoc) : Prop := ∀ r, l ≠ .out r

def RwlockLoc.Going (l : RwlockLoc) : Prop := ∀ r, l ≠ .out r

def CondLoc.Going (l : CondLoc) : Prop := ∀ r, l ≠ .mutex (.out r)

/-- It is in a lock that waits until `w`. -/
def MutexLoc.Locks (w : Until) : MutexLoc → Prop
  | .relockOwner lock => lock = some w
  | .relockCount | .relockStore _ | .acquiredOwner | .acquiredCount => True
  | .lockCas w' | .lockExchange w' | .lockClock w' | .lockCompare w' | .lockAsleep w' => w' = w
  | _ => False

/-- It is in an unlock. -/
def MutexLoc.Unlocks : MutexLoc → Prop
  | .unlockOwner | .unlockCount | .unlockStore _ | .unlockClear | .unlockExchange | .unlockWake => True
  | _ => False

/-- It is in a read or a write lock that waits until `w`. -/
def RwlockLoc.Locks (w : Until) : RwlockLoc → Prop
  | .readState block | .readCas _ block | .writeCas block => block = some w
  | .readWriter w' | .writeState w' | .writeWriter _ w' | .waitClock _ _ w' | .waitCompare _ _ w'
    | .waitAsleep _ w' =>
    w' = w
  | .writeStore => True
  | _ => False

/-- It is in a wait until `w`, and has not timed out. -/
def CondLoc.Waits (w : Until) : CondLoc → Prop
  | .waitSeq w' => w' = w
  | .waitUnlock _ _ w' l => w' = w ∧ l.Unlocks
  | .waitLoad _ _ w' | .waitClock _ _ w' | .waitCompare _ _ w' | .waitAsleep _ _ w' => w' = w
  | .waitLock err l => err = .zero ∧ l.Locks ⟨w.clock, none⟩
  | _ => False

omit [DecidableEq Tid] in
private theorem Mutex.lock_locks (m : Mutex Tid) (w : Until) : (m.lock w).Locks w := by
  unfold Mutex.lock
  split
  · rfl
  · rfl

omit [DecidableEq Tid] in
private theorem Mutex.unlock_unlocks (m : Mutex Tid) : m.unlock.Unlocks := by
  unfold Mutex.unlock
  split
  · trivial
  · trivial

/-- A lock times out only where it has read that the deadline is past. -/
private theorem MutexLoc.Locks.act {l l' : MutexLoc} {h h' : MutexState Tid} {i : MutexInput Tid} (hl : l.Locks w)
    (hw : ∀ d, w.deadline = some d → d.Valid) (hact : mutexAct t i h l = some (h', l')) :
    (l = .lockClock w ∧ w.Passed h.now) ∨ l'.Locks w ∨ ∃ r, l' = .out r ∧ r ≠ .err .ETIMEDOUT := by
  cases l with
  | relockOwner lock =>
    obtain rfl : lock = some w := hl
    obtain ⟨-, rfl⟩ := Prod.mk.inj (Option.some_inj.1 hact)
    unfold Mutex.relock
    dsimp only
    split
    · exact Or.inr (Or.inl rfl)
    split
    · exact Or.inr (Or.inr ⟨_, rfl, by decide⟩)
    · exact Or.inr (Or.inl trivial)
  | relockCount =>
    obtain ⟨-, rfl⟩ := Prod.mk.inj (Option.some_inj.1 hact)
    split
    · exact Or.inr (Or.inr ⟨_, rfl, by decide⟩)
    · exact Or.inr (Or.inl trivial)
  | relockStore count =>
    obtain ⟨-, rfl⟩ := Prod.mk.inj (Option.some_inj.1 hact)
    exact Or.inr (Or.inr ⟨_, rfl, by decide⟩)
  | lockCas w' =>
    obtain rfl : w' = w := hl
    simp only [mutexAct] at hact
    split at hact
    · obtain ⟨-, rfl⟩ := Prod.mk.inj (Option.some_inj.1 hact)
      exact Or.inr (Or.inl trivial)
    · obtain ⟨-, rfl⟩ := Prod.mk.inj (Option.some_inj.1 hact)
      exact Or.inr (Or.inl rfl)
  | lockExchange w' =>
    obtain rfl : w' = w := hl
    simp only [mutexAct] at hact
    split at hact
    · obtain ⟨-, rfl⟩ := Prod.mk.inj (Option.some_inj.1 hact)
      exact Or.inr (Or.inl trivial)
    · obtain ⟨-, rfl⟩ := Prod.mk.inj (Option.some_inj.1 hact)
      exact Or.inr (Or.inl rfl)
  | lockClock w' =>
    obtain rfl : w' = w := hl
    obtain ⟨-, rfl⟩ := Prod.mk.inj (Option.some_inj.1 hact)
    split
    · rename_i hzero
      exact Or.inl ⟨rfl, (Until.passed_iff _ hw).2 hzero⟩
    · exact Or.inr (Or.inl rfl)
  | lockCompare w' =>
    obtain rfl : w' = w := hl
    simp only [mutexAct] at hact
    split at hact
    · obtain ⟨-, rfl⟩ := Prod.mk.inj (Option.some_inj.1 hact)
      exact Or.inr (Or.inl rfl)
    · obtain ⟨-, rfl⟩ := Prod.mk.inj (Option.some_inj.1 hact)
      exact Or.inr (Or.inl rfl)
  | lockAsleep w' =>
    obtain rfl : w' = w := hl
    obtain ⟨-, rfl⟩ := Prod.mk.inj (Option.some_inj.1 hact)
    exact Or.inr (Or.inl rfl)
  | acquiredOwner =>
    obtain ⟨-, rfl⟩ := Prod.mk.inj (Option.some_inj.1 hact)
    exact Or.inr (Or.inl trivial)
  | acquiredCount =>
    obtain ⟨-, rfl⟩ := Prod.mk.inj (Option.some_inj.1 hact)
    exact Or.inr (Or.inr ⟨_, rfl, by decide⟩)
  | _ => exact hl.elim

/-- An unlock never times out. -/
private theorem MutexLoc.Unlocks.act {l l' : MutexLoc} {h h' : MutexState Tid} {i : MutexInput Tid} (hl : l.Unlocks)
    (hact : mutexAct t i h l = some (h', l')) : l'.Unlocks ∨ ∃ r, l' = .out r ∧ r ≠ .err .ETIMEDOUT := by
  cases l with
  | unlockOwner =>
    obtain ⟨-, rfl⟩ := Prod.mk.inj (Option.some_inj.1 hact)
    split
    · exact Or.inr ⟨_, rfl, by decide⟩
    split
    · exact Or.inl trivial
    · exact Or.inl trivial
  | unlockCount =>
    obtain ⟨-, rfl⟩ := Prod.mk.inj (Option.some_inj.1 hact)
    exact Or.inl trivial
  | unlockStore count =>
    simp only [mutexAct] at hact
    split at hact
    · obtain ⟨-, rfl⟩ := Prod.mk.inj (Option.some_inj.1 hact)
      exact Or.inr ⟨_, rfl, by decide⟩
    · obtain ⟨-, rfl⟩ := Prod.mk.inj (Option.some_inj.1 hact)
      exact Or.inl trivial
  | unlockClear =>
    obtain ⟨-, rfl⟩ := Prod.mk.inj (Option.some_inj.1 hact)
    exact Or.inl trivial
  | unlockExchange =>
    obtain ⟨-, rfl⟩ := Prod.mk.inj (Option.some_inj.1 hact)
    split
    · exact Or.inl trivial
    · exact Or.inr ⟨_, rfl, by decide⟩
  | unlockWake =>
    refine Or.inr ⟨.zero, ?_, by decide⟩
    cases i with
    | wake u =>
      cases u with
      | none =>
        simp only [mutexAct, Option.ite_none_right_eq_some, Option.some_inj, Prod.mk.injEq] at hact
        exact hact.2.2.symm
      | some u =>
        simp only [mutexAct, Option.ite_none_right_eq_some, Option.some_inj, Prod.mk.injEq] at hact
        exact hact.2.2.symm
    | _ => exact absurd hact (Option.some_ne_none _).symm
  | _ => exact hl.elim

/-- A read or a write lock times out only where it has read that the deadline is past. -/
private theorem RwlockLoc.Locks.act {l l' : RwlockLoc} {h h' : RwlockState Tid} {i : RwlockInput} (hl : l.Locks w)
    (hw : ∀ d, w.deadline = some d → d.Valid) (hact : rwlockAct t i h l = some (h', l')) :
    ((∃ a seen, l = .waitClock a seen w) ∧ w.Passed h.now) ∨ l'.Locks w ∨ ∃ r, l' = .out r ∧ r ≠ .err .ETIMEDOUT := by
  have hretry : ∀ a : Access, (a.retry w).Locks w := by
    intro a
    cases a with
    | read => rfl
    | write => rfl
  cases l with
  | readState block =>
    obtain rfl : block = some w := hl
    obtain ⟨-, rfl⟩ := Prod.mk.inj (Option.some_inj.1 hact)
    split
    · exact Or.inr (Or.inl rfl)
    split
    · exact Or.inr (Or.inr ⟨_, rfl, by decide⟩)
    · exact Or.inr (Or.inl rfl)
  | readCas seen block =>
    obtain rfl : block = some w := hl
    simp only [rwlockAct] at hact
    split at hact
    · obtain ⟨-, rfl⟩ := Prod.mk.inj (Option.some_inj.1 hact)
      exact Or.inr (Or.inr ⟨_, rfl, by decide⟩)
    · obtain ⟨-, rfl⟩ := Prod.mk.inj (Option.some_inj.1 hact)
      exact Or.inr (Or.inl rfl)
  | readWriter w' =>
    obtain rfl : w' = w := hl
    obtain ⟨-, rfl⟩ := Prod.mk.inj (Option.some_inj.1 hact)
    split
    · exact Or.inr (Or.inr ⟨_, rfl, by decide⟩)
    · exact Or.inr (Or.inl rfl)
  | writeState w' =>
    obtain rfl : w' = w := hl
    obtain ⟨-, rfl⟩ := Prod.mk.inj (Option.some_inj.1 hact)
    split
    · exact Or.inr (Or.inl rfl)
    split
    · exact Or.inr (Or.inl rfl)
    · exact Or.inr (Or.inl rfl)
  | writeCas block =>
    obtain rfl : block = some w := hl
    simp only [rwlockAct] at hact
    split at hact
    · obtain ⟨-, rfl⟩ := Prod.mk.inj (Option.some_inj.1 hact)
      exact Or.inr (Or.inl trivial)
    · obtain ⟨-, rfl⟩ := Prod.mk.inj (Option.some_inj.1 hact)
      exact Or.inr (Or.inl rfl)
  | writeStore =>
    obtain ⟨-, rfl⟩ := Prod.mk.inj (Option.some_inj.1 hact)
    exact Or.inr (Or.inr ⟨_, rfl, by decide⟩)
  | writeWriter seen w' =>
    obtain rfl : w' = w := hl
    obtain ⟨-, rfl⟩ := Prod.mk.inj (Option.some_inj.1 hact)
    split
    · exact Or.inr (Or.inr ⟨_, rfl, by decide⟩)
    · exact Or.inr (Or.inl rfl)
  | waitClock a seen w' =>
    obtain rfl : w' = w := hl
    obtain ⟨-, rfl⟩ := Prod.mk.inj (Option.some_inj.1 hact)
    split
    · rename_i hzero
      exact Or.inl ⟨⟨a, seen, rfl⟩, (Until.passed_iff _ hw).2 hzero⟩
    · exact Or.inr (Or.inl rfl)
  | waitCompare a seen w' =>
    obtain rfl : w' = w := hl
    simp only [rwlockAct] at hact
    split at hact
    · obtain ⟨-, rfl⟩ := Prod.mk.inj (Option.some_inj.1 hact)
      exact Or.inr (Or.inl rfl)
    · obtain ⟨-, rfl⟩ := Prod.mk.inj (Option.some_inj.1 hact)
      exact Or.inr (Or.inl (hretry a))
  | waitAsleep a w' =>
    obtain rfl : w' = w := hl
    obtain ⟨-, rfl⟩ := Prod.mk.inj (Option.some_inj.1 hact)
    exact Or.inr (Or.inl (hretry a))
  | _ => exact hl.elim

omit [DecidableEq Tid] in
/-- The mutex is taken back without a deadline. -/
private theorem CondState.retake_waits (h : CondState Tid) (w : Until) : (h.retake .zero w).Waits w :=
  ⟨rfl, Mutex.lock_locks _ _⟩

omit [DecidableEq Tid] in
private theorem CondState.woken_waits (h : CondState Tid) (seen a : Nat) (w : Until) :
    (h.woken seen a w).Waits w := by
  unfold CondState.woken
  split
  · exact h.retake_waits w
  · rfl

/-- A wait times out only where it has read that the deadline is past. -/
private theorem CondLoc.Waits.act {l l' : CondLoc} {h h' : CondState Tid} {i : CondInput Tid} (hl : l.Waits w)
    (hw : ∀ d, w.deadline = some d → d.Valid) (hact : condAct t i h l = some (h', l')) :
    ((∃ seen a, l = .waitClock seen a w) ∧ w.Passed h.mutex.now) ∨ l'.Waits w ∨
      ∃ r, l' = .mutex (.out r) ∧ r ≠ .err .ETIMEDOUT := by
  cases l with
  | waitSeq w' =>
    obtain rfl : w' = w := hl
    obtain ⟨-, rfl⟩ := Prod.mk.inj (Option.some_inj.1 hact)
    exact Or.inr (Or.inl ⟨rfl, Mutex.unlock_unlocks _⟩)
  | waitUnlock seen a w' l =>
    obtain ⟨rfl, hunlocks⟩ := hl
    cases i with
    | mutex i =>
      simp only [condAct, Option.map_eq_some_iff, Prod.mk.injEq] at hact
      obtain ⟨⟨m, k⟩, hmutex, -, rfl⟩ := hact
      rcases hunlocks.act hmutex with hk | ⟨r, rfl, hr⟩
      · right
        left
        cases k with
        | out r => exact hk.elim
        | _ => exact ⟨rfl, hk⟩
      · cases r with
        | zero => exact Or.inr (Or.inl rfl)
        | err e => exact Or.inr (Or.inr ⟨_, rfl, hr⟩)
        | minusOne => exact Or.inr (Or.inr ⟨_, rfl, hr⟩)
    | _ => exact absurd hact (Option.some_ne_none _).symm
  | waitLoad seen a w' =>
    obtain rfl : w' = w := hl
    obtain ⟨-, rfl⟩ := Prod.mk.inj (Option.some_inj.1 hact)
    split
    · exact Or.inr (Or.inl rfl)
    · exact Or.inr (Or.inl (h.retake_waits w'))
  | waitClock seen a w' =>
    obtain rfl : w' = w := hl
    obtain ⟨-, rfl⟩ := Prod.mk.inj (Option.some_inj.1 hact)
    split
    · rename_i hzero
      exact Or.inl ⟨⟨seen, a, rfl⟩, (Until.passed_iff _ hw).2 hzero⟩
    · exact Or.inr (Or.inl rfl)
  | waitCompare seen a w' =>
    obtain rfl : w' = w := hl
    simp only [condAct] at hact
    split at hact
    · obtain ⟨-, rfl⟩ := Prod.mk.inj (Option.some_inj.1 hact)
      exact Or.inr (Or.inl rfl)
    · obtain ⟨-, rfl⟩ := Prod.mk.inj (Option.some_inj.1 hact)
      exact Or.inr (Or.inl (h.woken_waits seen a w'))
  | waitAsleep seen a w' =>
    obtain rfl : w' = w := hl
    obtain ⟨-, rfl⟩ := Prod.mk.inj (Option.some_inj.1 hact)
    exact Or.inr (Or.inl (h.woken_waits seen a w'))
  | waitLock err l =>
    obtain ⟨rfl, hlocks⟩ := hl
    cases i with
    | mutex i =>
      simp only [condAct, Option.map_eq_some_iff, Prod.mk.injEq] at hact
      obtain ⟨⟨m, k⟩, hmutex, -, rfl⟩ := hact
      rcases hlocks.act (by rintro d h; exact absurd h (Option.some_ne_none d).symm) hmutex with
        ⟨-, d, hd, -⟩ | hk | ⟨r, rfl, hr⟩
      · exact absurd hd (Option.some_ne_none d).symm
      · right
        left
        cases k with
        | out r => exact hk.elim
        | _ => exact ⟨rfl, hk⟩
      · cases r with
        | zero => exact Or.inr (Or.inr ⟨_, rfl, by decide⟩)
        | err e => exact Or.inr (Or.inr ⟨_, rfl, hr⟩)
        | minusOne => exact Or.inr (Or.inr ⟨_, rfl, hr⟩)
    | _ => exact absurd hact (Option.some_ne_none _).symm
  | _ => exact hl.elim

/-- Each of the loops that wait until `w` returns `ETIMEDOUT` only after a reading of the clock at the deadline or
past it: whatever the shared state and the clocks are at each access, and however the sleeps end. -/
structure TimesOutLate (Tid : Type) [DecidableEq Tid] (w : Until) : Prop where
  mutex : ∀ (t : Tid) (m : Mutex Tid) hs, CallRun mutexAct t MutexLoc.Going (m.lock w) hs (.out (.err .ETIMEDOUT)) →
    ∃ p ∈ hs, p.1 = .lockClock w ∧ w.Passed p.2.now
  rwlock : ∀ (t : Tid) (a : Access) (hs : List (RwlockLoc × RwlockState Tid)),
    CallRun rwlockAct t RwlockLoc.Going (a.retry w) hs (.out (.err .ETIMEDOUT)) →
    ∃ p ∈ hs, (∃ a seen, p.1 = .waitClock a seen w) ∧ w.Passed p.2.now
  cond : ∀ (t : Tid) (hs : List (CondLoc × CondState Tid)),
    CallRun condAct t CondLoc.Going (.waitSeq w) hs (.mutex (.out (.err .ETIMEDOUT))) →
    ∃ p ∈ hs, (∃ seen a, p.1 = .waitClock seen a w) ∧ w.Passed p.2.mutex.now

private theorem timesOutLate (hw : ∀ d, w.deadline = some d → d.Valid) : TimesOutLate Tid w where
  mutex := by
    intro t m hs hrun
    refine hrun.exists_read (MutexLoc.Locks w) (fun l => ∃ r, l = .out r ∧ r ≠ .err .ETIMEDOUT)
      (fun l h => l = .lockClock w ∧ w.Passed h.now) ?_ (m.lock_locks w) id ?_
    · intro i h l h' l' hl hact
      rcases hl.act hw hact with hread | hstay | hleft
      · exact Or.inl hread
      · exact Or.inr (Or.inl hstay)
      · exact Or.inr (Or.inr ⟨hleft, fun hgoing => hgoing _ hleft.choose_spec.1⟩)
    · rintro ⟨r, hr, hne⟩
      cases hr
      exact hne rfl
  rwlock := by
    intro t a hs hrun
    have hstart : (a.retry w).Locks w := by
      cases a with
      | read => rfl
      | write => rfl
    refine hrun.exists_read (RwlockLoc.Locks w) (fun l => ∃ r, l = .out r ∧ r ≠ .err .ETIMEDOUT)
      (fun l h => (∃ a seen, l = .waitClock a seen w) ∧ w.Passed h.now) ?_ hstart id ?_
    · intro i h l h' l' hl hact
      rcases hl.act hw hact with hread | hstay | hleft
      · exact Or.inl hread
      · exact Or.inr (Or.inl hstay)
      · exact Or.inr (Or.inr ⟨hleft, fun hgoing => hgoing _ hleft.choose_spec.1⟩)
    · rintro ⟨r, hr, hne⟩
      cases hr
      exact hne rfl
  cond := by
    intro t hs hrun
    refine hrun.exists_read (CondLoc.Waits w) (fun l => ∃ r, l = .mutex (.out r) ∧ r ≠ .err .ETIMEDOUT)
      (fun l h => (∃ seen a, l = .waitClock seen a w) ∧ w.Passed h.mutex.now) ?_ rfl id ?_
    · intro i h l h' l' hl hact
      rcases hl.act hw hact with hread | hstay | hleft
      · exact Or.inl hread
      · exact Or.inr (Or.inl hstay)
      · exact Or.inr (Or.inr ⟨hleft, fun hgoing => hgoing _ hleft.choose_spec.1⟩)
    · rintro ⟨r, hr, hne⟩
      cases hr
      exact hne rfl

/-- Every wait before a deadline lasts until it or as long as a wait can, and no loop times out before it. -/
theorem timedWaits_ok (clock : Clockid) (hd : deadline.Normal) :
    (∀ now : Timespec, now.Normal → WaitsFor now deadline) ∧ TimesOutLate Tid ⟨clock, some deadline⟩ := by
  constructor
  · intro now hnow
    exact waitsFor hnow hd
  · apply timesOutLate
    intro d h
    rw [← Option.some_inj.1 h]
    exact hd.valid

/-- A deadline half a second past the hundredth. -/
theorem timedWaits_ok_half :
    (∀ now : Timespec, now.Normal → WaitsFor now ⟨100, 500000000⟩) ∧
      TimesOutLate Nat ⟨.CLOCK_MONOTONIC, some ⟨100, 500000000⟩⟩ :=
  timedWaits_ok .CLOCK_MONOTONIC ⟨by decide, by decide⟩

end Sppc.Windows
