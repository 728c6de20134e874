import Sppc.Windows.Select
import Mathlib.Order.Bounds.Basic

/-!
# Times in milliseconds on Windows (`platform/windows.h`)

`sppc_setsockopt_timeval`, and the milliseconds of `sppc_select`.
-/

namespace Sppc.Windows

def SPPC_SOL_SOCKET : Int := 1
def SPPC_SO_RCVTIMEO : Int := 20
def SPPC_SO_SNDTIMEO : Int := 21

/-- `_sppc_win_is_timeout`. -/
def winIsTimeout (level name : Int) : Bool :=
  level == SPPC_SOL_SOCKET && (name == SPPC_SO_RCVTIMEO || name == SPPC_SO_SNDTIMEO)

/-- The socket and the option that `_sppc_win_sockopt` finds, as Windows numbers them. -/
structure WinSockopt where
  socket : Nat
  osLevel : Int
  osName : Int
  deriving DecidableEq, Repr

/-- The value of an option that is a time: a `DWORD`, or a `struct timeval` of two `long`s. -/
inductive WinTime
  | ms (value : BitVec 32)
  | timeval (tvSec tvUsec : BitVec 32)
  deriving DecidableEq, Repr

/-- How `sppc_setsockopt_timeval` fails: by itself, or with what Windows says. -/
inductive SockoptErr
  | EINVAL
  | os (e : Nat)
  deriving DecidableEq, Repr

/-- What `sppc_setsockopt_timeval` returns, and what it called `setsockopt` with. -/
structure SockoptReturn where
  err : Option SockoptErr
  call : Option (WinSockopt × WinTime)
  deriving DecidableEq, Repr

/-- The milliseconds of a timeout (`value`). -/
def sockoptMs (tv : Timeval) : BitVec 32 :=
  let ms := tv.sec * 1000 + (tv.usec + 999) / 1000
  (if 0xFFFFFFFE < ms then (0xFFFFFFFE : BitVec 64) else ms).setWidth 32

/-- `sppc_setsockopt_timeval`, where `_sppc_win_sockopt` finds `found` and `setsockopt` fails as `os` says. -/
def sppcSetsockoptTimeval (os : WinSockopt → WinTime → Option Nat) (found : Except Nat WinSockopt)
    (level optname : Int) (optval : Timeval) : SockoptReturn :=
  if 1000000 ≤ optval.usec then ⟨some .EINVAL, none⟩
  else
    match found with
    | .error e => ⟨some (.os e), none⟩
    | .ok s =>
      let value :=
        if winIsTimeout level optname then WinTime.ms (sockoptMs optval)
        else
          .timeval (if 2147483647 < optval.sec then 2147483647 else optval.sec.setWidth 32) (optval.usec.setWidth 32)
      ⟨(os s value).map .os, some (s, value)⟩

/-! ### What the milliseconds are to be -/

/-- A time in microseconds. -/
def micros (tv : Timeval) : Nat := tv.sec.toNat * 1000000 + tv.usec.toNat

/-- The milliseconds `ms` that a call takes for a time, of which `max` are the most. -/
structure Converts (max : Nat) (ms : Timeval → Int) (tv : Timeval) : Prop where
  least : ∃ n, IsLeast {n | micros tv ≤ n * 1000} n ∧ ms tv = (min n max : Nat)
  nonzero : micros tv ≠ 0 → ms tv ≠ 0
  longer : ∀ tv', tv'.usec.toNat < 1000000 → micros tv' ≤ micros tv → ms tv' ≤ ms tv

/-- The milliseconds, rounded up, without a bound. -/
def leastMs (tv : Timeval) : Nat := tv.sec.toNat * 1000 + (tv.usec.toNat + 999) / 1000

variable {tv tv' : Timeval}

private theorem roundUp_le {k usec n : Nat} (h : k * 1000 + usec ≤ n * 1000) : k + (usec + 999) / 1000 ≤ n := by
  omega

private theorem leastMs_le_iff {n : Nat} : leastMs tv ≤ n ↔ micros tv ≤ n * 1000 := by
  constructor
  · intro h
    exact micro_le h
  · intro h
    rw [micros, show tv.sec.toNat * 1000000 = tv.sec.toNat * 1000 * 1000 by rw [Nat.mul_assoc]] at h
    exact roundUp_le h

private theorem isLeast_leastMs : IsLeast {n | micros tv ≤ n * 1000} (leastMs tv) := by
  constructor
  · exact leastMs_le_iff.1 le_rfl
  · intro n hn
    exact leastMs_le_iff.2 hn

private theorem leastMs_mono (h : micros tv' ≤ micros tv) : leastMs tv' ≤ leastMs tv :=
  leastMs_le_iff.2 (h.trans (leastMs_le_iff.1 le_rfl))

private theorem leastMs_eq_zero : leastMs tv = 0 ↔ micros tv = 0 := by
  rw [← Nat.le_zero, leastMs_le_iff, Nat.zero_mul, Nat.le_zero]

/-- What is computed before the clamp. -/
private theorem wantMs_toNat (h : tv.usec.toNat < 1000000) :
    (tv.sec * 1000 + (tv.usec + 999) / 1000).toNat = leastMs tv % 2 ^ 64 := by
  have hround : (tv.usec + 999).toNat = tv.usec.toNat + 999 := by
    rw [BitVec.toNat_add, show (999 : BitVec 64).toNat = 999 from rfl]
    omega
  rw [BitVec.toNat_add, BitVec.toNat_mul, BitVec.toNat_udiv, hround, show (1000 : BitVec 64).toNat = 1000 from rfl,
    Nat.mod_add_mod, leastMs]

/-- A clamp of what has wrapped is exact where nothing wrapped, or what is left is over the clamp too. -/
private theorem converts_iff {max : Nat} {ms : Timeval → Int} (hpos : 0 < max)
    (hms : ∀ tv, tv.usec.toNat < 1000000 → ms tv = (min (leastMs tv % 2 ^ 64) max : Nat))
    (h : tv.usec.toNat < 1000000) (hmax : max < 2 ^ 64) :
    Converts max ms tv ↔ leastMs tv < 2 ^ 64 ∨ max ≤ leastMs tv % 2 ^ 64 := by
  constructor
  · rintro ⟨⟨n, hn, heq⟩, -, -⟩
    rw [hms tv h, hn.unique isLeast_leastMs, Int.ofNat_inj] at heq
    rw [or_iff_not_imp_left, Nat.not_lt]
    intro hwrap
    rw [Nat.min_eq_right (a := leastMs tv) (by omega)] at heq
    omega
  · intro hfits
    have hexact : min (leastMs tv % 2 ^ 64) max = min (leastMs tv) max := by
      rcases hfits with hfits | hfits
      · rw [Nat.mod_eq_of_lt hfits]
      · have hle := Nat.mod_le (leastMs tv) (2 ^ 64)
        rw [Nat.min_eq_right hfits, Nat.min_eq_right (hfits.trans hle)]
    refine ⟨⟨leastMs tv, isLeast_leastMs, by rw [hms tv h, hexact]⟩, fun hne => ?_, fun tv' h' hle => ?_⟩
    · rw [hms tv h, hexact]
      have := mt leastMs_eq_zero.1 hne
      omega
    · rw [hms tv h, hms tv' h', hexact]
      have hmono := leastMs_mono hle
      have := Nat.mod_le (leastMs tv') (2 ^ 64)
      omega

private theorem sockoptMs_eq (h : tv.usec.toNat < 1000000) :
    (sockoptMs tv).toNat = min (leastMs tv % 2 ^ 64) 0xFFFFFFFE := by
  have hwant := wantMs_toNat h
  by_cases hlt : 0xFFFFFFFE < tv.sec * 1000 + (tv.usec + 999) / 1000
  · have hlt' := BitVec.lt_def.1 hlt
    rw [hwant, show (0xFFFFFFFE : BitVec 64).toNat = 0xFFFFFFFE from rfl] at hlt'
    rw [sockoptMs, if_pos hlt, Nat.min_eq_right hlt'.le]
    rfl
  · have hlt' := mt BitVec.lt_def.2 hlt
    rw [hwant, show (0xFFFFFFFE : BitVec 64).toNat = 0xFFFFFFFE from rfl, Nat.not_lt] at hlt'
    rw [sockoptMs, if_neg hlt, BitVec.toNat_setWidth, hwant, Nat.min_eq_left hlt']
    omega

private theorem selectMs_eq (h : tv.usec.toNat < 1000000) :
    selectMs (some tv) = (min (leastMs tv % 2 ^ 64) 2147483647 : Nat) := by
  have hwant := wantMs_toNat h
  by_cases hlt : 2147483647 < tv.sec * 1000 + (tv.usec + 999) / 1000
  · have hlt' := BitVec.lt_def.1 hlt
    rw [hwant, show (2147483647 : BitVec 64).toNat = 2147483647 from rfl] at hlt'
    rw [selectMs, if_pos hlt, Nat.min_eq_right hlt'.le]
    rfl
  · have hlt' := mt BitVec.lt_def.2 hlt
    rw [hwant, show (2147483647 : BitVec 64).toNat = 2147483647 from rfl, Nat.not_lt] at hlt'
    rw [selectMs, if_neg hlt, hwant, Nat.min_eq_left hlt']

/-- Both conversions are exact where the milliseconds of the seconds do not wrap, or wrap to what is
over the clamp. -/
theorem timevals_iff (os : WinSockopt → WinTime → Option Nat) (found : WinSockopt) {level optname : Int}
    (hname : winIsTimeout level optname) (tv : Timeval) (h : tv.usec.toNat < 1000000) :
    (sppcSetsockoptTimeval os (.ok found) level optname tv).call = some (found, .ms (sockoptMs tv)) ∧
      (Converts 0xFFFFFFFE (fun tv => (sockoptMs tv).toNat) tv ∧
        Converts 2147483647 (fun tv => selectMs (some tv)) tv ↔ leastMs tv < 2 ^ 64 ∨
        0xFFFFFFFE ≤ leastMs tv % 2 ^ 64) := by
  constructor
  · have hvalid : ¬1000000 ≤ tv.usec := by
      rw [BitVec.le_def, show (1000000 : BitVec 64).toNat = 1000000 from rfl]
      omega
    rw [sppcSetsockoptTimeval, if_neg hvalid]
    simp only [hname, if_true]
  · rw [converts_iff (by decide) (fun tv h => by rw [sockoptMs_eq h]) h (by decide),
      converts_iff (by decide) (fun tv h => selectMs_eq h) h (by decide)]
    omega

/-- A timeout of 2^61 seconds is none, and a select of that time does not wait. -/
theorem timevals_wrap : sockoptMs ⟨2 ^ 61, 0⟩ = 0 ∧ selectMs (some ⟨2 ^ 61, 0⟩) = 0 ∧
    ¬∀ tv : Timeval, tv.usec.toNat < 1000000 →
      Converts 0xFFFFFFFE (fun tv => (sockoptMs tv).toNat) tv ∧
      Converts 2147483647 (fun tv => selectMs (some tv)) tv := by
  refine ⟨by decide +kernel, by decide +kernel, fun hall => ?_⟩
  exact (hall ⟨2 ^ 61, 0⟩ (by decide +kernel)).1.nonzero (by decide +kernel) (by decide +kernel)

/-- A receive timeout of one second and a half. -/
theorem timevals_iff_second :
    (sppcSetsockoptTimeval (fun _ _ => none) (.ok ⟨5, 0xFFFF, 0x1006⟩) 1 20 ⟨1, 500000⟩).call =
        some (⟨5, 0xFFFF, 0x1006⟩, .ms 1500) ∧
      (Converts 0xFFFFFFFE (fun tv => (sockoptMs tv).toNat) ⟨1, 500000⟩ ∧
          Converts 2147483647 (fun tv => selectMs (some tv)) ⟨1, 500000⟩ ↔
        leastMs ⟨1, 500000⟩ < 2 ^ 64 ∨ 0xFFFFFFFE ≤ leastMs ⟨1, 500000⟩ % 2 ^ 64) :=
  timevals_iff (fun _ _ => none) ⟨5, 0xFFFF, 0x1006⟩ rfl ⟨1, 500000⟩ (by decide +kernel)

end Sppc.Windows
