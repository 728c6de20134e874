import Mathlib.Algebra.Group.Nat.Defs

/-!
# Timed waits (`platform/windows.h`)

The deadlines that the locks wait until, and how long one Win32 wait may sleep before one.
-/

namespace Sppc.Windows

/-- The errors that the calls return. -/
inductive Errno
  | EPERM | EAGAIN | EBUSY | EINVAL | EDEADLK | ETIMEDOUT
  deriving DecidableEq, Repr

/-- What a call returns: 0, an error, or -1. -/
inductive Ret
  | zero | err (e : Errno) | minusOne
  deriving DecidableEq, Repr

/-- `clockid_t`.  The other clocks cannot time a wait. -/
inductive Clockid
  | CLOCK_REALTIME | CLOCK_MONOTONIC
  | other (id : Nat)
  deriving DecidableEq, Repr

structure Timespec where
  tvSec : Int
  tvNsec : Int
  deriving DecidableEq, Repr

/-- A real time: the nanoseconds are a part of a second. -/
def Timespec.Valid (t : Timespec) : Prop := 0 ≤ t.tvNsec ∧ t.tvNsec < 1000000000

instance (t : Timespec) : Decidable t.Valid := inferInstanceAs (Decidable (_ ∧ _))

/-- The time in nanoseconds. -/
def Timespec.ns (t : Timespec) : Int := t.tvSec * 1000000000 + t.tvNsec

/-- The clocks, as they read at one moment.  A reading is a real time. -/
structure Clocks where
  read : Clockid → Timespec
  valid : ∀ clock, (read clock).Valid

/-- Clocks that read 0. -/
def Clocks.zero : Clocks := ⟨fun _ => ⟨0, 0⟩, fun _ => by decide⟩

/-- Until when a wait lasts: `none` for as long as it takes. -/
structure Until where
  clock : Clockid
  deadline : Option Timespec
  deriving DecidableEq, Repr

/-- `lock` waits for as long as it takes. -/
def Until.woken : Until := ⟨.CLOCK_MONOTONIC, none⟩

/-- The deadline has passed. -/
def Until.Passed (w : Until) (now : Clocks) : Prop := ∃ d, w.deadline = some d ∧ d.ns ≤ (now.read w.clock).ns

/-- `_sppc_win_check_deadline`: `none` is 0. -/
def checkDeadline (w : Until) : Option Errno :=
  match w.clock, w.deadline with
  | .other _, _ => some .EINVAL
  | _, some d => if d.Valid then none else some .EINVAL
  | _, none => none

/-- `LONG_MAX`. -/
def longMax : Int := 0x7fffffff

/-- `UINT_MAX`. -/
def uintMax : Nat := 0xffffffff

/-- `INFINITE`. -/
def infinite : Nat := 0xffffffff

/-- `_sppc_win_wait_ms`, the clock reading `now`. -/
def waitMs (now : Timespec) : Option Timespec → Nat
  | none => infinite
  | some deadline =>
    let sec := deadline.tvSec - now.tvSec
    if sec < 0 then 0
    else if (infinite / 1000 : Nat) ≤ sec then infinite - 1
    else
      let ns := sec * 1000000000 + (deadline.tvNsec - now.tvNsec)
      if ns ≤ 0 then 0 else ((ns + 999999) / 1000000).toNat % 2 ^ 32

/-- A wait does not sleep exactly where there is a deadline and it has passed. -/
theorem waitMs_eq_zero {now : Timespec} {deadline : Option Timespec} (hnow : now.Valid)
    (hd : ∀ d, deadline = some d → d.Valid) : waitMs now deadline = 0 ↔ ∃ d, deadline = some d ∧ d.ns ≤ now.ns := by
  cases deadline with
  | none => simp [waitMs, infinite]
  | some d =>
    obtain ⟨hn, hn'⟩ := hnow
    obtain ⟨hd, hd'⟩ := hd d rfl
    have hinf : infinite = 4294967295 := rfl
    simp only [waitMs, Option.some.injEq, exists_eq_left', Timespec.ns]
    by_cases hpast : d.tvSec - now.tvSec < 0
    · rw [if_pos hpast]
      omega
    · rw [if_neg hpast]
      by_cases hfar : ((infinite / 1000 : Nat) : Int) ≤ d.tvSec - now.tvSec
      · rw [if_pos hfar]
        omega
      · rw [if_neg hfar]
        by_cases hns : (d.tvSec - now.tvSec) * 1000000000 + (d.tvNsec - now.tvNsec) ≤ 0
        · rw [if_pos hns]
          omega
        · rw [if_neg hns]
          omega

theorem checkDeadline_eq_none {w : Until} (h : checkDeadline w = none) : ∀ d, w.deadline = some d → d.Valid := by
  intro d hd
  by_cases hv : d.Valid
  · exact hv
  · unfold checkDeadline at h
    split at h <;> simp_all

/-- A wait that has been checked times out exactly where its deadline has passed. -/
theorem Until.passed_iff {w : Until} (now : Clocks) (hw : ∀ d, w.deadline = some d → d.Valid) :
    w.Passed now ↔ waitMs (now.read w.clock) w.deadline = 0 :=
  (waitMs_eq_zero (now.valid w.clock) hw).symm

end Sppc.Windows
