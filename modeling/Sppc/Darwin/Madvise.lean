import Sppc.Regions
import Mathlib.Data.BitVec

/-!
# Dropping memory on Darwin (`platform/darwin.h`)

`_sppc_madvise_dontneed`, which goes over the regions of a range twice: first to see that none of them refuses, and
then to map fresh pages over those that hold private anonymous memory.  Addresses are pages' numbers but for those
that the call is given.
-/

namespace Sppc.Darwin

/-- What `VM_REGION_EXTENDED_INFO` says of the sharing of a region. -/
inductive ShareMode
  | cow | priv | empty | shared | trueshared | privAliased | sharedAliased | largePage
  deriving DecidableEq, Repr

/-- Of these `VM_INHERIT_DEFAULT` is `copy`. -/
inductive VmInherit
  | share | copy | none
  deriving DecidableEq, Repr

/-- `VM_PROT_EXECUTE`, and `VM_PROT_ALL`. -/
def vmProtExecute : BitVec 3 := 4
def vmProtAll : BitVec 3 := 7

private theorem and_vmProtAll : ∀ protection : BitVec 3, protection &&& vmProtAll = protection := by decide

/-- What the kernel says of a region: `basic` and `extended` of `_sppc_dontneed_region`.  No region is given more than
its maximum protection. -/
structure VmInfo where
  protection : BitVec 3
  maxProtection : BitVec 3
  inheritance : VmInherit
  userWiredCount : Nat
  shareMode : ShareMode
  externalPager : Bool
  userTag : BitVec 8
  within : protection &&& maxProtection = protection
  deriving DecidableEq

/-- What a new private anonymous mapping is. -/
def VmInfo.anonymous (protection : BitVec 3) (userTag : BitVec 8) : VmInfo where
  protection := protection
  maxProtection := vmProtAll
  inheritance := .copy
  userWiredCount := 0
  shareMode := .empty
  externalPager := false
  userTag := userTag
  within := and_vmProtAll protection

def VmInfo.withMax (i : VmInfo) (max : BitVec 3) : VmInfo :=
  { i with
    maxProtection := max
    protection := i.protection &&& max
    within := by rw [BitVec.and_assoc, BitVec.and_self] }

/-- The regions of the process's memory, and what is in its pages. -/
structure Vm (C : Type) where
  map : RegionMap VmInfo
  contents : Nat → C

/-- How the kernel's calls go: the errors of the hint and of a new mapping at a page, if they fail, whether the other
two changes of the pages from there on succeed, and where it joins regions. -/
structure DontneedWorld where
  madvise : Option Nat
  mmap : Nat → Option Nat
  protect : Nat → Bool
  inherit : Nat → Bool
  joins : Nat → Bool

inductive DontneedErr
  | EINVAL | ENOMEM | EIO
  | os (errno : Nat)
  deriving DecidableEq, Repr

variable {C : Type}

/-! ### The kernel's calls -/

/-- `VM_MAKE_TAG`. -/
def vmMakeTag (tag : BitVec 8) : BitVec 32 := tag.setWidth 32 <<< 24

/-- The tag of a new anonymous mapping, by its file descriptor. -/
def fdTag (fd : BitVec 32) : BitVec 8 := if fd = -1 then 0 else (fd >>> 24).setWidth 8

/-- `mmap` of private anonymous memory at a fixed place. -/
def Vm.mmapFixed [Zero C] (V : Vm C) (joins : Nat → Bool) (start stop : Nat) (protection : BitVec 3)
    (fd : BitVec 32) : Vm C where
  map := V.map.change joins start stop fun _ => some (.anonymous protection (fdTag fd))
  contents p := if start ≤ p ∧ p < stop then 0 else V.contents p

/-- `vm_protect` of the maximum protection. -/
def Vm.protect (V : Vm C) (joins : Nat → Bool) (start stop : Nat) (max : BitVec 3) : Vm C :=
  { V with map := V.map.change joins start stop fun i => i.map fun i => i.withMax max }

/-- `vm_inherit`. -/
def Vm.inherit (V : Vm C) (joins : Nat → Bool) (start stop : Nat) (inheritance : VmInherit) : Vm C :=
  { V with map := V.map.change joins start stop fun i => i.map fun i => { i with inheritance := inheritance } }

/-! ### `_sppc_madvise_dontneed` -/

/-- Private anonymous memory. -/
def VmInfo.replace (i : VmInfo) : Bool :=
  i.inheritance ≠ .share ∧ i.externalPager = false ∧
    (i.shareMode = .priv ∨ i.shareMode = .cow ∨ i.shareMode = .privAliased ∨ i.shareMode = .empty)

/-- `_sppc_dontneed_region_at`: the end of the region, and what it is; `none` is `SPPC_ENOMEM`. -/
def sppcDontneedRegionAt (m : RegionMap VmInfo) (p : Nat) : Option (Nat × VmInfo) :=
  match m.query p with
  | some (start, stop, i) => if p < start then none else some (stop, i)
  | none => none

/-- The first pass over the pages from `p` to `till`, of at most so many rounds. -/
def dontneedCheck (m : RegionMap VmInfo) (till : Nat) : Nat → Nat → Option (Option DontneedErr)
  | 0, p => if p < till then none else some none
  | n + 1, p =>
    if ¬p < till then some none
    else
      match sppcDontneedRegionAt m p with
      | none => some (some .ENOMEM)
      | some (stop, i) =>
        if i.userWiredCount ≠ 0 then some (some .EINVAL)
        else if i.replace ∧ i.protection &&& vmProtExecute ≠ 0 then some (some .EINVAL)
        else dontneedCheck m till n stop

/-- Fresh pages over the pages from `p` to `stop`, which are of the region `i`. -/
def dontneedReplace [Zero C] (w : DontneedWorld) (V : Vm C) (p stop : Nat) (i : VmInfo) : Option DontneedErr × Vm C :=
  match w.mmap p with
  | some e => (some (.os e), V)
  | none =>
    let tag := if i.userTag ≠ 0 then vmMakeTag i.userTag else -1
    let V := V.mmapFixed w.joins p stop i.protection tag
    if i.maxProtection ≠ vmProtAll ∧ w.protect p = false then (some DontneedErr.EIO, V)
    else
      let V := if i.maxProtection ≠ vmProtAll then V.protect w.joins p stop i.maxProtection else V
      if i.inheritance ≠ .copy ∧ w.inherit p = false then (some DontneedErr.EIO, V)
      else (none, if i.inheritance ≠ .copy then V.inherit w.joins p stop i.inheritance else V)

/-- The second pass, likewise. -/
def dontneedWalk [Zero C] (w : DontneedWorld) (till : Nat) : Nat → Nat → Vm C → Option (Option DontneedErr × Vm C)
  | 0, p, V => if p < till then none else some (none, V)
  | n + 1, p, V =>
    if ¬p < till then some (none, V)
    else
      match sppcDontneedRegionAt V.map p with
      | none => some (some .ENOMEM, V)
      | some (stop, i) =>
        if i.replace = false then dontneedWalk w till n stop V
        else
          match dontneedReplace w V p (if stop < till then stop else till) i with
          | (some e, V) => some (some e, V)
          | (none, V) => dontneedWalk w till n stop V

/-- `_sppc_madvise_dontneed`: `none` if it does not end. -/
def sppcMadviseDontneed [Zero C] (w : DontneedWorld) (size : Nat) (V : Vm C) (addr length : BitVec 64) :
    Option (Option DontneedErr × Vm C) :=
  let page : BitVec 64 := BitVec.ofNat 64 size - 1
  if addr &&& page ≠ 0 then some (some .EINVAL, V)
  else if length = 0 then some (none, V)
  else
    let last := (addr + length + page) &&& ~~~page
    if last ≤ addr then some (some .EINVAL, V)
    else
      match w.madvise with
      | some e => some (some (.os e), V)
      | none =>
        let start := addr.toNat / size
        let till := last.toNat / size
        (dontneedCheck V.map till (till - start) start).bind fun
          | some e => some (some e, V)
          | none => dontneedWalk w till (till - start) start V

/-! ### What a call is to do -/

/-- Some byte of a page is in the range. -/
def Touched (size : Nat) (addr length : BitVec 64) (p : Nat) : Prop :=
  addr.toNat < (p + 1) * size ∧ p * size < addr.toNat + length.toNat

/-- Why a page refuses to be dropped, if it does: nothing maps it, it is locked, or it is private anonymous code. -/
def refusal : Option VmInfo → Option DontneedErr
  | none => some .ENOMEM
  | some i =>
    if i.userWiredCount ≠ 0 then some .EINVAL
    else if i.replace ∧ i.protection &&& vmProtExecute ≠ 0 then some .EINVAL
    else none

/-- The page `p` is fresh in `V'`: all that `V` says of it is kept but for how it is shared, and it is empty. -/
structure Fresh [Zero C] (V V' : Vm C) (p : Nat) (i : VmInfo) : Prop where
  old : V.map.val p = some i
  replace : i.replace
  new : V'.map.val p = some { i with shareMode := .empty }
  empty : V'.contents p = 0

/-- The page `p` is in `V'` as it was. -/
structure Same (V V' : Vm C) (p : Nat) : Prop where
  val : V'.map.val p = V.map.val p
  contents : V'.contents p = V.contents p

/-- A page of the range holds private anonymous memory. -/
def Dropping (touched : Nat → Prop) (V : Vm C) (p : Nat) : Prop := touched p ∧ ∃ i, V.map.val p = some i ∧ i.replace

/-- The page `p` is done with: fresh if it is to be dropped, and otherwise as it was. -/
structure Settled [Zero C] (touched : Nat → Prop) (V V' : Vm C) (p : Nat) : Prop where
  fresh : Dropping touched V p → ∃ i, Fresh V V' p i
  same : ¬Dropping touched V p → Same V V' p

/-- The kernel has failed with the pages from `a` to `z`, which hold private anonymous memory: they are as they were,
or they are empty and protected as before, under a higher ceiling or with another inheritance. -/
structure Failed [Zero C] (w : DontneedWorld) (V V' : Vm C) (a z : Nat) (e : DontneedErr) : Prop where
  why : (∃ n, w.mmap a = some n ∧ e = .os n ∧ ∀ p, a ≤ p → p < z → Same V V' p) ∨
    ((w.protect a = false ∨ w.inherit a = false) ∧ e = DontneedErr.EIO)
  pages : ∀ p, a ≤ p → p < z → Same V V' p ∨ ∃ i i', V.map.val p = some i ∧ V'.map.val p = some i' ∧
    i'.protection = i.protection ∧ i'.userTag = i.userTag ∧ V'.contents p = 0

/-- What a call does with a range that no page of refuses: all of it is done with, or that before some page is, where
the kernel has failed. -/
inductive Dropped [Zero C] (w : DontneedWorld) (touched : Nat → Prop) (V V' : Vm C) : Option DontneedErr → Prop
  | all (h : ∀ p, Settled touched V V' p) : Dropped w touched V V' none
  | some {a z : Nat} {e : DontneedErr} (haz : a < z) (hrun : ∀ p, a ≤ p → p < z → Dropping touched V p)
    (hbefore : ∀ p, p < a → Settled touched V V' p) (hfailed : Failed w V V' a z e)
    (hafter : ∀ p, z ≤ p → Same V V' p) : Dropped w touched V V' (some e)

/-- What a call does. -/
structure Madvised [Zero C] (w : DontneedWorld) (size : Nat) (V : Vm C) (addr length : BitVec 64)
    (r : Option DontneedErr) (V' : Vm C) : Prop where
  /-- A range that does not start with a page or does not end in the address space. -/
  invalid : addr.toNat % size ≠ 0 ∨ length ≠ 0 ∧ 2 ^ 64 < addr.toNat + length.toNat + size → r = some .EINVAL ∧ V' = V
  empty : addr.toNat % size = 0 → length = 0 → r = none ∧ V' = V
  hint : addr.toNat % size = 0 → length ≠ 0 → addr.toNat + length.toNat + size ≤ 2 ^ 64 → ∀ e, w.madvise = some e →
    r = some (.os e) ∧ V' = V
  /-- The first page that refuses says why, and nothing is dropped. -/
  refused : addr.toNat % size = 0 → length ≠ 0 → addr.toNat + length.toNat + size ≤ 2 ^ 64 → w.madvise = none →
    ∀ p e, Touched size addr length p → refusal (V.map.val p) = some e →
      (∀ q, q < p → Touched size addr length q → refusal (V.map.val q) = none) → r = some e ∧ V' = V
  dropped : addr.toNat % size = 0 → addr.toNat + length.toNat + size ≤ 2 ^ 64 → w.madvise = none →
    (∀ p, Touched size addr length p → refusal (V.map.val p) = none) → Dropped w (Touched size addr length) V V' r

/-! ### Page masks -/

section masks

variable {k : Nat} (hk : k < 64) (x : BitVec 64)
include hk

private theorem toNat_pageMask : (BitVec.ofNat 64 (2 ^ k) - 1).toNat = 2 ^ k - 1 := by
  have hlt : 2 ^ k < 2 ^ 64 := Nat.pow_lt_pow_right (by decide) hk
  have hpos : 0 < 2 ^ k := Nat.two_pow_pos k
  rw [BitVec.toNat_sub_of_le]
  · rw [BitVec.toNat_ofNat, Nat.mod_eq_of_lt hlt]
    rfl
  · rw [BitVec.le_def, BitVec.toNat_ofNat, Nat.mod_eq_of_lt hlt]
    exact hpos

private theorem toNat_and_pageMask : (x &&& (BitVec.ofNat 64 (2 ^ k) - 1)).toNat = x.toNat % 2 ^ k := by
  rw [BitVec.toNat_and, toNat_pageMask hk, Nat.and_two_pow_sub_one_eq_mod]

private theorem toNat_and_not_pageMask :
    (x &&& ~~~(BitVec.ofNat 64 (2 ^ k) - 1)).toNat = x.toNat / 2 ^ k * 2 ^ k := by
  have hshift : x &&& ~~~(BitVec.ofNat 64 (2 ^ k) - 1) = x >>> k <<< k := by
    ext i hi
    rw [BitVec.getElem_and, BitVec.getElem_not, ← BitVec.getLsbD_eq_getElem, ← BitVec.getLsbD_eq_getElem,
      ← BitVec.getLsbD_eq_getElem, BitVec.getLsbD_shiftLeft, BitVec.getLsbD_ushiftRight]
    rw [show (BitVec.ofNat 64 (2 ^ k) - 1).getLsbD i = decide (i < k) by
      rw [BitVec.getLsbD, toNat_pageMask hk, Nat.testBit_two_pow_sub_one]]
    by_cases hik : i < k
    · simp [hik]
    · simp [hik, hi, Nat.add_sub_cancel' (Nat.le_of_not_lt hik)]
  have hlt := x.isLt
  rw [hshift, BitVec.toNat_shiftLeft, BitVec.toNat_ushiftRight, Nat.shiftRight_eq_div_pow, Nat.shiftLeft_eq,
    Nat.mod_eq_of_lt (Nat.lt_of_le_of_lt (Nat.div_mul_le_self ..) hlt)]

/-- The end of a range, rounded up, in pages. -/
private theorem dontneedEnd_fits {addr length : BitVec 64} (hfit : addr.toNat + length.toNat + 2 ^ k ≤ 2 ^ 64) :
    ((addr + length + (BitVec.ofNat 64 (2 ^ k) - 1)) &&& ~~~(BitVec.ofNat 64 (2 ^ k) - 1)).toNat =
      (addr.toNat + length.toNat + (2 ^ k - 1)) / 2 ^ k * 2 ^ k := by
  have hpos : 0 < 2 ^ k := Nat.two_pow_pos k
  rw [toNat_and_not_pageMask hk, BitVec.toNat_add, BitVec.toNat_add, toNat_pageMask hk, Nat.mod_add_mod,
    Nat.mod_eq_of_lt (by omega)]

/-- The end of a range that runs over is not after its start. -/
private theorem dontneedEnd_runs_over {addr length : BitVec 64} (hrem : addr.toNat % 2 ^ k = 0)
    (hover : 2 ^ 64 < addr.toNat + length.toNat + 2 ^ k) :
    ((addr + length + (BitVec.ofNat 64 (2 ^ k) - 1)) &&& ~~~(BitVec.ofNat 64 (2 ^ k) - 1)).toNat ≤ addr.toNat := by
  have hpos : 0 < 2 ^ k := Nat.two_pow_pos k
  have hlt : 2 ^ k < 2 ^ 64 := Nat.pow_lt_pow_right (by decide) hk
  have hsize : 2 ^ k ∣ 2 ^ 64 := Nat.pow_dvd_pow 2 (by omega)
  have hroom : addr.toNat + 2 ^ k ≤ 2 ^ 64 := by
    have hmul := Nat.div_mul_cancel (Nat.dvd_of_mod_eq_zero hrem)
    obtain ⟨c, hc⟩ := hsize
    have haddr := addr.isLt
    have hq : addr.toNat / 2 ^ k < c := by
      rw [Nat.div_lt_iff_lt_mul hpos, Nat.mul_comm, ← hc]
      exact haddr
    have hle := Nat.mul_le_mul_right (2 ^ k) (Nat.succ_le_of_lt hq)
    rw [Nat.succ_mul, hmul, Nat.mul_comm c, ← hc] at hle
    exact hle
  have hlength := length.isLt
  rw [toNat_and_not_pageMask hk, BitVec.toNat_add, BitVec.toNat_add, toNat_pageMask hk, Nat.mod_add_mod,
    Nat.mod_eq_sub_mod (by omega), Nat.mod_eq_of_lt (by omega)]
  have hquot : (addr.toNat + length.toNat + (2 ^ k - 1) - 2 ^ 64) / 2 ^ k ≤ addr.toNat / 2 ^ k := by
    have hmul := Nat.div_mul_cancel (Nat.dvd_of_mod_eq_zero hrem)
    apply Nat.le_of_lt_succ
    rw [Nat.div_lt_iff_lt_mul hpos, Nat.succ_mul, hmul]
    omega
  calc _ ≤ addr.toNat / 2 ^ k * 2 ^ k := Nat.mul_le_mul_right _ hquot
    _ = addr.toNat := Nat.div_mul_cancel (Nat.dvd_of_mod_eq_zero hrem)

end masks

/-! ### The two passes -/

variable {m : RegionMap VmInfo} {p stop till n : Nat} {i : VmInfo}

private theorem sppcDontneedRegionAt_some (h : sppcDontneedRegionAt m p = some (stop, i)) :
    p < stop ∧ ∀ x, p ≤ x → x < stop → m.val x = some i := by
  unfold sppcDontneedRegionAt at h
  split at h
  case h_1 start stop' i' hquery =>
    split at h <;> cases h
    rename_i hstart
    rcases RegionMap.query_some hquery with ⟨hle, hlt, -, hval⟩ | ⟨hlt, -⟩
    · exact ⟨hlt, fun x hx => hval x (Nat.le_trans hle hx)⟩
    · exact absurd hlt hstart
  case h_2 => cases h

private theorem sppcDontneedRegionAt_none (h : sppcDontneedRegionAt m p = none) : m.val p = none := by
  unfold sppcDontneedRegionAt at h
  split at h
  case h_1 start stop' i' hquery =>
    split at h <;> cases h
    rename_i hstart
    rcases RegionMap.query_some hquery with ⟨hle, -⟩ | ⟨-, hval⟩
    · omega
    · exact hval
  case h_2 hquery => exact RegionMap.query_none hquery

/-- The first pass says why the first page refuses that does. -/
private theorem dontneedCheck_spec (hn : till ≤ n + p) : ∃ r, dontneedCheck m till n p = some r ∧
    (r = none → ∀ x, p ≤ x → x < till → refusal (m.val x) = none) ∧
      ∀ e, r = some e → ∃ x, p ≤ x ∧ x < till ∧ refusal (m.val x) = some e ∧
        ∀ y, p ≤ y → y < x → refusal (m.val y) = none := by
  induction n generalizing p with
  | zero =>
    rw [dontneedCheck, if_neg (by omega)]
    exact ⟨none, rfl, fun _ x hx hlt => by omega, fun e he => by cases he⟩
  | succ n ih =>
    rw [dontneedCheck]
    by_cases hp : p < till
    · rw [if_neg (not_not.2 hp)]
      have hfirst {e : DontneedErr} (he : refusal (m.val p) = some e) :
          ∃ r, some (some e) = some r ∧ (r = none → ∀ x, p ≤ x → x < till → refusal (m.val x) = none) ∧
            ∀ e, r = some e → ∃ x, p ≤ x ∧ x < till ∧ refusal (m.val x) = some e ∧
              ∀ y, p ≤ y → y < x → refusal (m.val y) = none := by
        refine ⟨some e, rfl, (fun h => by cases h), ?_⟩
        rintro _ ⟨⟩
        exact ⟨p, Nat.le_refl p, hp, he, fun y hy hlt => by omega⟩
      cases hat : sppcDontneedRegionAt m p with
      | none => exact hfirst (by rw [sppcDontneedRegionAt_none hat]; rfl)
      | some region =>
        obtain ⟨stop, i⟩ := region
        obtain ⟨hstop, hval⟩ := sppcDontneedRegionAt_some hat
        have hhere := hval p (Nat.le_refl p) hstop
        dsimp only
        split
        case isTrue hwired => exact hfirst (by rw [hhere, refusal, if_pos hwired])
        case isFalse hwired =>
          split
          case isTrue hcode => exact hfirst (by rw [hhere, refusal, if_neg hwired, if_pos hcode])
          case isFalse hcode =>
            have hregion : ∀ x, p ≤ x → x < stop → refusal (m.val x) = none := by
              intro x hx hlt
              rw [hval x hx hlt, refusal, if_neg hwired, if_neg hcode]
            obtain ⟨r, hr, hnone, hsome⟩ := ih (p := stop) (by omega)
            refine ⟨r, hr, ?_, ?_⟩
            · intro hrn x hx hlt
              by_cases hxs : x < stop
              · exact hregion x hx hxs
              · exact hnone hrn x (by omega) hlt
            · intro e he
              obtain ⟨x, hx, hlt, hbad, hbefore⟩ := hsome e he
              refine ⟨x, by omega, hlt, hbad, fun y hy hyx => ?_⟩
              by_cases hys : y < stop
              · exact hregion y hy hys
              · exact hbefore y (by omega) hyx
    · rw [if_pos hp]
      exact ⟨none, rfl, fun _ x hx hlt => by omega, fun e he => by cases he⟩

variable {V V' V₀ : Vm C}

private theorem Same.trans {V'' : Vm C} {x : Nat} (h : Same V V' x) (h' : Same V' V'' x) : Same V V'' x :=
  ⟨h'.val.trans h.val, h'.contents.trans h.contents⟩

/-- A change of the pages from `p` to `stop` only, which all become `i`. -/
structure Became (V V' : Vm C) (p stop : Nat) (i : VmInfo) : Prop where
  inside : ∀ x, p ≤ x → x < stop → V'.map.val x = some i
  outside : ∀ x, ¬(p ≤ x ∧ x < stop) → Same V V' x

private theorem Became.protect (h : Became V V' p stop i) (joins : Nat → Bool) (max : BitVec 3) :
    Became V (V'.protect joins p stop max) p stop (i.withMax max) := by
  constructor
  · intro x hx hlt
    refine (RegionMap.change_inside hx hlt).trans ?_
    rw [h.inside x hx hlt]
    rfl
  · exact fun x hx => (h.outside x hx).trans ⟨RegionMap.change_outside hx, rfl⟩

private theorem Became.inherit (h : Became V V' p stop i) (joins : Nat → Bool) (inheritance : VmInherit) :
    Became V (V'.inherit joins p stop inheritance) p stop { i with inheritance := inheritance } := by
  constructor
  · intro x hx hlt
    refine (RegionMap.change_inside hx hlt).trans ?_
    rw [h.inside x hx hlt]
    rfl
  · exact fun x hx => (h.outside x hx).trans ⟨RegionMap.change_outside hx, rfl⟩

variable [Zero C] {w : DontneedWorld} {touched : Nat → Prop} {e : DontneedErr} {r : Option DontneedErr}

private theorem fdTag_vmMakeTag : ∀ tag : BitVec 8, fdTag (if tag ≠ 0 then vmMakeTag tag else -1) = tag := by
    decide +kernel

private theorem mmapFixed_became (V : Vm C) (joins : Nat → Bool) (p stop : Nat) (protection : BitVec 3)
    (fd : BitVec 32) :
    Became V (V.mmapFixed joins p stop protection fd) p stop (.anonymous protection (fdTag fd)) :=
  ⟨fun _ hx hlt => RegionMap.change_inside hx hlt, fun _ hx => ⟨RegionMap.change_outside hx, if_neg hx⟩⟩

/-- Fresh pages over a run that refuses nothing, or the kernel fails. -/
private theorem dontneedReplace_spec (hval : ∀ x, p ≤ x → x < stop → V.map.val x = some i) (hi : i.replace)
    (hfree : refusal (some i) = none) (h : dontneedReplace w V p stop i = (r, V')) :
    (∀ x, ¬(p ≤ x ∧ x < stop) → Same V V' x) ∧
      (r = none → ∀ x, p ≤ x → x < stop → Fresh V V' x i) ∧ ∀ e, r = some e → Failed w V V' p stop e := by
  have hwired : i.userWiredCount = 0 := by
    by_contra hwired
    rw [refusal, if_pos hwired] at hfree
    cases hfree
  have hpager : i.externalPager = false := (of_decide_eq_true hi).2.1
  unfold dontneedReplace at h
  cases hmmap : w.mmap p with
  | some e =>
    rw [hmmap] at h
    cases h
    refine ⟨fun x _ => ⟨rfl, rfl⟩, (fun h => by cases h), ?_⟩
    rintro _ ⟨⟩
    exact ⟨Or.inl ⟨e, hmmap, rfl, fun x _ _ => ⟨rfl, rfl⟩⟩, fun x _ _ => Or.inl ⟨rfl, rfl⟩⟩
  | none =>
    rw [hmmap] at h
    dsimp only at h
    have hnew := mmapFixed_became V w.joins p stop i.protection (if i.userTag ≠ 0 then vmMakeTag i.userTag else -1)
    rw [fdTag_vmMakeTag] at hnew
    have hzero : ∀ x, p ≤ x → x < stop → (V.mmapFixed w.joins p stop i.protection
        (if i.userTag ≠ 0 then vmMakeTag i.userTag else -1)).contents x = 0 := fun x hx hlt => if_pos ⟨hx, hlt⟩
    generalize V.mmapFixed w.joins p stop i.protection (if i.userTag ≠ 0 then vmMakeTag i.userTag else -1) = V₁ at *
    have hfails {V₂ : Vm C} {j : VmInfo} (hb : Became V V₂ p stop j) (hz : ∀ x, p ≤ x → x < stop → V₂.contents x = 0)
        (hj : j.protection = i.protection ∧ j.userTag = i.userTag) (hw : w.protect p = false ∨ w.inherit p = false) :
        (∀ x, ¬(p ≤ x ∧ x < stop) → Same V V₂ x) ∧ (some DontneedErr.EIO = none → ∀ x, p ≤ x → x < stop →
          Fresh V V₂ x i) ∧ ∀ e, some DontneedErr.EIO = some e → Failed w V V₂ p stop e := by
      refine ⟨hb.outside, (fun h => by cases h), ?_⟩
      rintro _ ⟨⟩
      exact ⟨Or.inr ⟨hw, rfl⟩, fun x hx hlt =>
        Or.inr ⟨i, j, hval x hx hlt, hb.inside x hx hlt, hj.1, hj.2, hz x hx hlt⟩⟩
    split at h
    case isTrue hfail =>
      cases h
      exact hfails hnew hzero ⟨rfl, rfl⟩ (Or.inl hfail.2)
    case isFalse =>
      have hmax : Became V (if i.maxProtection ≠ vmProtAll then V₁.protect w.joins p stop i.maxProtection else V₁)
        p stop
          ((VmInfo.anonymous i.protection i.userTag).withMax i.maxProtection) := by
        split
        · exact hnew.protect w.joins i.maxProtection
        · rename_i hall
          rw [not_not.1 hall]
          have heq : (VmInfo.anonymous i.protection i.userTag).withMax vmProtAll =
              .anonymous i.protection i.userTag := by
            simp [VmInfo.withMax, VmInfo.anonymous, and_vmProtAll]
          rw [heq]
          exact hnew
      have hzero₂ : ∀ x, p ≤ x → x < stop →
          (if i.maxProtection ≠ vmProtAll then V₁.protect w.joins p stop i.maxProtection else V₁).contents x = 0 := by
        split
        · exact hzero
        · exact hzero
      generalize (if i.maxProtection ≠ vmProtAll then V₁.protect w.joins p stop i.maxProtection else V₁) = V₂ at *
      split at h
      case isTrue hfail =>
        cases h
        exact hfails hmax hzero₂ ⟨i.within, rfl⟩ (Or.inr hfail.2)
      case isFalse =>
        cases h
        have hlast : Became V (if i.inheritance ≠ .copy then V₂.inherit w.joins p stop i.inheritance else V₂) p stop
            { i with shareMode := .empty } := by
          have heq : { (VmInfo.anonymous i.protection i.userTag).withMax i.maxProtection with inheritance :=
            i.inheritance } =
              { i with shareMode := .empty } := by
            simp [VmInfo.withMax, VmInfo.anonymous, i.within, hwired, hpager]
          rw [← heq]
          split
          · exact hmax.inherit w.joins i.inheritance
          · rename_i hcopy
            rw [not_not.1 hcopy]
            exact hmax
        have hzero₃ : ∀ x, p ≤ x → x < stop →
            (if i.inheritance ≠ .copy then V₂.inherit w.joins p stop i.inheritance else V₂).contents x = 0 := by
          split
          · exact hzero₂
          · exact hzero₂
        refine ⟨hlast.outside, fun _ x hx hlt => ⟨hval x hx hlt, hi, hlast.inside x hx hlt, hzero₃ x hx hlt⟩, ?_⟩
        intro e he
        cases he

omit [Zero C] in
private theorem not_dropping (h : ¬touched p) : ¬Dropping touched V p := fun hd => h hd.1

/-- A page that is as it was is done with, unless it is to be dropped. -/
private theorem Same.settled (h : Same V V' p) (hd : ¬Dropping touched V p) : Settled touched V V' p :=
  ⟨fun hdrop => absurd hdrop hd, fun _ => h⟩

private theorem Settled.same_after {V'' : Vm C} (h : Settled touched V V' p) (hs : Same V' V'' p) :
    Settled touched V V'' p := by
  refine ⟨fun hd => ?_, fun hd => (h.same hd).trans hs⟩
  obtain ⟨i, hf⟩ := h.fresh hd
  exact ⟨i, hf.old, hf.replace, hs.val.trans hf.new, hs.contents.trans hf.empty⟩

/-- The second pass, from a page on before which all are done with. -/
private theorem dontneedWalk_spec (hn : till ≤ n + p) (hmem : ∀ x, p ≤ x → (touched x ↔ x < till))
    (hfree : ∀ x, touched x → refusal (V₀.map.val x) = none) (hbefore : ∀ x, x < p → Settled touched V₀ V x)
    (hafter : ∀ x, p ≤ x → Same V₀ V x) :
    ∃ r V', dontneedWalk w till n p V = some (r, V') ∧ Dropped w touched V₀ V' r := by
  have hend (hp : ¬p < till) : Dropped w touched V₀ V none := by
    refine .all fun x => ?_
    by_cases hx : x < p
    · exact hbefore x hx
    · refine (hafter x (by omega)).settled (not_dropping ?_)
      rw [hmem x (by omega)]
      omega
  induction n generalizing p V with
  | zero =>
    rw [dontneedWalk, if_neg (by omega)]
    exact ⟨none, V, rfl, hend (by omega)⟩
  | succ n ih =>
    rw [dontneedWalk]
    by_cases hp : p < till
    · rw [if_neg (not_not.2 hp)]
      have htouched : touched p := (hmem p (Nat.le_refl p)).2 hp
      have hfreep := hfree p htouched
      cases hat : sppcDontneedRegionAt V.map p with
      | none =>
        rw [← (hafter p (Nat.le_refl p)).val, sppcDontneedRegionAt_none hat] at hfreep
        cases hfreep
      | some region =>
        obtain ⟨stop, i⟩ := region
        obtain ⟨hstop, hval⟩ := sppcDontneedRegionAt_some hat
        have hold : ∀ x, p ≤ x → x < stop → V₀.map.val x = some i := by
          intro x hx hlt
          rw [← (hafter x hx).val]
          exact hval x hx hlt
        rw [hold p (Nat.le_refl p) hstop] at hfreep
        have hnext {V₁ : Vm C} (hb : ∀ x, x < stop → Settled touched V₀ V₁ x) (ha : ∀ x, stop ≤ x → Same V₀ V₁ x) :
            ∃ r V', dontneedWalk w till n stop V₁ = some (r, V') ∧ Dropped w touched V₀ V' r := by
          refine ih (by omega) (fun x hx => hmem x (by omega)) hb ha fun hs => .all fun x => ?_
          by_cases hx : x < stop
          · exact hb x hx
          · refine (ha x (by omega)).settled (not_dropping ?_)
            rw [hmem x (by omega)]
            omega
        dsimp only
        by_cases hi : i.replace
        · rw [if_neg (by simp [hi])]
          cases hr : dontneedReplace w V p (if stop < till then stop else till) i with
          | mk r V₁ =>
            have hto : (if stop < till then stop else till) = min stop till := by
              rw [min_def]
              split <;> split <;> omega
            rw [hto] at hr
            have hlast : p < min stop till := lt_min hstop hp
            obtain ⟨hsame, hfresh, hfailed⟩ := dontneedReplace_spec
              (fun x hx hlt => hval x hx (lt_of_lt_of_le hlt (min_le_left ..))) hi hfreep hr
            have hdrop : ∀ x, p ≤ x → x < min stop till → Dropping touched V₀ x := fun x hx hlt =>
              ⟨(hmem x hx).2 (lt_of_lt_of_le hlt (min_le_right ..)), i,
                hold x hx (lt_of_lt_of_le hlt (min_le_left ..)), hi⟩
            cases r with
            | some e =>
              refine ⟨some e, V₁, rfl, .some hlast hdrop ?_ ?_ ?_⟩
              · exact fun x hx => (hbefore x hx).same_after (hsame x (by omega))
              · obtain ⟨hwhy, hpages⟩ := hfailed e rfl
                constructor
                · refine hwhy.imp_left ?_
                  rintro ⟨k, hk, rfl, hkept⟩
                  exact ⟨k, hk, rfl, fun x hx hlt => (hafter x hx).trans (hkept x hx hlt)⟩
                · intro x hx hlt
                  rcases hpages x hx hlt with hkept | ⟨j, j', hj, hrest⟩
                  · exact Or.inl ((hafter x hx).trans hkept)
                  · exact Or.inr ⟨j, j', by rw [← (hafter x hx).val]; exact hj, hrest⟩
              · exact fun x hx => (hafter x (by omega)).trans (hsame x (by omega))
            | none =>
              refine hnext ?_ ?_
              · intro x hx
                by_cases hxp : x < p
                · exact (hbefore x hxp).same_after (hsame x (by omega))
                · by_cases hxt : x < till
                  · have hlt : x < min stop till := lt_min hx hxt
                    have hf := hfresh rfl x (by omega) hlt
                    refine ⟨fun _ => ⟨i, ?_⟩, fun hd => absurd (hdrop x (by omega) hlt) hd⟩
                    exact ⟨hold x (by omega) hx, hi, hf.new, hf.empty⟩
                  · refine ((hafter x (by omega)).trans (hsame x ?_)).settled (not_dropping ?_)
                    · exact fun h => hxt (lt_of_lt_of_le h.2 (min_le_right ..))
                    · rw [hmem x (by omega)]
                      exact hxt
              · exact fun x hx => (hafter x (by omega)).trans
                  (hsame x fun h => absurd (lt_of_lt_of_le h.2 (min_le_left ..)) (by omega))
        · rw [if_pos (by simpa using hi)]
          refine hnext ?_ fun x hx => hafter x (by omega)
          intro x hx
          by_cases hxp : x < p
          · exact hbefore x hxp
          · refine (hafter x (by omega)).settled ?_
            rintro ⟨-, j, hj, hrep⟩
            rw [hold x (by omega) hx] at hj
            cases hj
            exact hi hrep
    · rw [if_pos hp]
      exact ⟨none, V, rfl, hend hp⟩

omit [Zero C] in
/-- The pages touched by a range that starts with one. -/
private theorem touched_iff {k : Nat} {addr length : BitVec 64} (hrem : addr.toNat % 2 ^ k = 0) :
    Touched (2 ^ k) addr length p ↔
      addr.toNat / 2 ^ k ≤ p ∧ p < (addr.toNat + length.toNat + (2 ^ k - 1)) / 2 ^ k := by
  have hpos : 0 < 2 ^ k := Nat.two_pow_pos k
  unfold Touched
  have hround : p < (addr.toNat + length.toNat + (2 ^ k - 1)) / 2 ^ k ↔
      p * 2 ^ k + 2 ^ k ≤ addr.toNat + length.toNat + (2 ^ k - 1) := by
    rw [Nat.lt_iff_add_one_le, Nat.le_div_iff_mul_le hpos, Nat.succ_mul]
  rw [← Nat.div_lt_iff_lt_mul hpos, Nat.lt_succ_iff, hround]
  constructor
  · rintro ⟨h₁, h₂⟩
    exact ⟨h₁, by omega⟩
  · rintro ⟨h₁, h₂⟩
    exact ⟨h₁, by omega⟩

/-- Dropping memory always ends, and a range is dropped as a whole or refused as a whole, unless the kernel fails. -/
theorem sppcMadviseDontneed_spec (w : DontneedWorld) {k : Nat} (hk : k < 64) (V : Vm C) (addr length : BitVec 64) :
    ∃ r V', sppcMadviseDontneed w (2 ^ k) V addr length = some (r, V') ∧ Madvised w (2 ^ k) V addr length r V' := by
  have hpos : 0 < 2 ^ k := Nat.two_pow_pos k
  unfold sppcMadviseDontneed
  dsimp only
  have halign : addr &&& (BitVec.ofNat 64 (2 ^ k) - 1) ≠ 0 ↔ addr.toNat % 2 ^ k ≠ 0 := by
    rw [Ne, ← BitVec.toNat_inj, toNat_and_pageMask hk]
    rfl
  have hlen : length = 0 ↔ length.toNat = 0 := by
    rw [← BitVec.toNat_inj]
    rfl
  by_cases hrem : addr.toNat % 2 ^ k = 0
  case neg =>
    rw [if_pos (halign.2 hrem)]
    exact ⟨_, _, rfl, fun _ => ⟨rfl, rfl⟩, fun h => absurd h hrem, fun h => absurd h hrem, fun h => absurd h hrem,
      fun h => absurd h hrem⟩
  rw [if_neg (by rw [halign]; simp [hrem])]
  by_cases hzero : length = 0
  case pos =>
    have htouched (p : Nat) : ¬Touched (2 ^ k) addr length p := by
      unfold Touched
      rw [hlen.1 hzero, Nat.add_zero, ← Nat.div_lt_iff_lt_mul hpos, Nat.lt_succ_iff]
      rintro ⟨h₁, h₂⟩
      have hmul := Nat.div_mul_cancel (Nat.dvd_of_mod_eq_zero hrem)
      have hle := Nat.mul_le_mul_right (2 ^ k) h₁
      omega
    rw [if_pos hzero]
    refine ⟨_, _, rfl, ?_, fun _ _ => ⟨rfl, rfl⟩, fun _ h => absurd hzero h, fun _ h => absurd hzero h, ?_⟩
    · rintro (h | ⟨h, -⟩)
      · exact absurd hrem h
      · exact absurd hzero h
    · intro _ _ _ _
      exact .all fun p => (Same.mk rfl rfl).settled (not_dropping (htouched p))
  rw [if_neg hzero]
  by_cases hfit : addr.toNat + length.toNat + 2 ^ k ≤ 2 ^ 64
  case neg =>
    have hover := dontneedEnd_runs_over hk hrem (Nat.lt_of_not_le hfit)
    rw [if_pos (BitVec.le_def.2 hover)]
    exact ⟨_, _, rfl, fun _ => ⟨rfl, rfl⟩, fun _ h => absurd h hzero, fun _ _ h => absurd h hfit,
      fun _ _ h => absurd h hfit, fun _ h => absurd h hfit⟩
  have hend := dontneedEnd_fits hk hfit
  have hmul := Nat.div_mul_cancel (Nat.dvd_of_mod_eq_zero hrem)
  have hone : length.toNat ≠ 0 := fun h => hzero (hlen.2 h)
  have hafter : addr.toNat / 2 ^ k + 1 ≤ (addr.toNat + length.toNat + (2 ^ k - 1)) / 2 ^ k := by
    rw [Nat.le_div_iff_mul_le hpos, Nat.succ_mul, hmul]
    omega
  rw [if_neg]
  case hnc =>
    rw [BitVec.le_def, hend]
    have hle := Nat.mul_le_mul_right (2 ^ k) hafter
    rw [Nat.succ_mul, hmul] at hle
    omega
  rw [hend, Nat.mul_div_cancel _ hpos]
  have hvalid {P : Prop} : addr.toNat % 2 ^ k ≠ 0 ∨ length ≠ 0 ∧ 2 ^ 64 < addr.toNat + length.toNat + 2 ^ k → P := by
    rintro (h | ⟨-, h⟩)
    · exact absurd hrem h
    · omega
  cases hhint : w.madvise with
  | some e =>
    refine ⟨_, _, rfl, hvalid, fun _ h => absurd h hzero, ?_, ?_, ?_⟩
    · intro _ _ _ e' he'
      rw [hhint] at he'
      cases he'
      exact ⟨rfl, rfl⟩
    · intro _ _ _ h
      rw [hhint] at h
      cases h
    · intro _ _ h
      rw [hhint] at h
      cases h
  | none =>
    have htouched : ∀ p, Touched (2 ^ k) addr length p ↔
        addr.toNat / 2 ^ k ≤ p ∧ p < (addr.toNat + length.toNat + (2 ^ k - 1)) / 2 ^ k := fun _ => touched_iff hrem
    generalize addr.toNat / 2 ^ k = start at *
    generalize (addr.toNat + length.toNat + (2 ^ k - 1)) / 2 ^ k = till at *
    have hrounds : till ≤ till - start + start := by omega
    obtain ⟨r, hr, hnone, hsome⟩ := dontneedCheck_spec (m := V.map) hrounds
    rw [hr]
    cases r with
    | some e =>
      obtain ⟨x, hx, hlt, hbad, hfirst⟩ := hsome e rfl
      refine ⟨_, _, rfl, hvalid, fun _ h => absurd h hzero, ?_, ?_, ?_⟩
      · intro _ _ _ e' he'
        rw [hhint] at he'
        cases he'
      · intro _ _ _ _ p e' hp hpe hbefore
        rw [htouched] at hp
        have hpx : p = x := by
          rcases Nat.lt_trichotomy p x with h | h | h
          · rw [hfirst p hp.1 h] at hpe
            cases hpe
          · exact h
          · rw [hbefore x h ((htouched x).2 ⟨hx, hlt⟩)] at hbad
            cases hbad
        rw [hpx, hbad] at hpe
        exact ⟨hpe, rfl⟩
      · intro _ _ _ hfree
        rw [hfree x ((htouched x).2 ⟨hx, hlt⟩)] at hbad
        cases hbad
    | none =>
      have hfree : ∀ x, Touched (2 ^ k) addr length x → refusal (V.map.val x) = none := fun x hx =>
        hnone rfl x ((htouched x).1 hx).1 ((htouched x).1 hx).2
      obtain ⟨r, V', hwalk, hdropped⟩ := dontneedWalk_spec (w := w) hrounds
        (fun x hx => by rw [htouched]; exact ⟨fun h => h.2, fun h => ⟨hx, h⟩⟩) hfree
        (fun x hx => (Same.mk rfl rfl).settled (not_dropping (by rw [htouched]; omega)))
        (fun x _ => ⟨rfl, rfl⟩)
      refine ⟨r, V', hwalk, hvalid, fun _ h => absurd h hzero, ?_, ?_, fun _ _ _ _ => hdropped⟩
      · intro _ _ _ e' he'
        rw [hhint] at he'
        cases he'
      · intro _ _ _ _ p e' hp hpe
        rw [hfree p hp] at hpe
        cases hpe

/-- A page of private anonymous memory and a page of shared memory, which hold a 7 and a 9. -/
def twoPages : Vm Nat where
  map :=
    { top := 5
      val := fun p => if p = 3 then some ((VmInfo.anonymous 3 0).withMax 3) else
        if p = 4 then some { VmInfo.anonymous 3 0 with inheritance := .share, shareMode := .shared } else none
      cut := fun _ => true
      below := by
        intro p v h
        split at h
        · omega
        · split at h
          · omega
          · cases h
      alike := by
        intro p h
        cases h }
  contents p := if p = 3 then 7 else if p = 4 then 9 else 0

def kernelServes : DontneedWorld := ⟨none, fun _ => none, fun _ => true, fun _ => true, fun _ => true⟩

theorem sppcMadviseDontneed_spec_twoPages : ∃ r V',
    sppcMadviseDontneed kernelServes (2 ^ 12) twoPages 12288 8192 = some (r, V') ∧
      Madvised kernelServes (2 ^ 12) twoPages 12288 8192 r V' ∧ r = none ∧ V'.contents 3 = 0 ∧ V'.contents 4 = 9 := by
  obtain ⟨r, V', h, hm⟩ := sppcMadviseDontneed_spec kernelServes (k := 12) (by decide) twoPages 12288 8192
  have hrun : (sppcMadviseDontneed kernelServes (2 ^ 12) twoPages 12288 8192).map
      (fun r => (r.1, r.2.contents 3, r.2.contents 4)) = some (none, 0, 9) := by decide +kernel
  rw [h, Option.map_some, Option.some_inj, Prod.mk.injEq, Prod.mk.injEq] at hrun
  exact ⟨r, V', h, hm, hrun⟩

end Sppc.Darwin
