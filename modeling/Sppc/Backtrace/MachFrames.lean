import Sppc.Backtrace.Failures
import Sppc.Backtrace.MachO

/-!
# The frames of a stack by frame pointers (`backtrace/macho.h`)

The walk along the frame records of a stack, which the failure that is reported may have broken.
-/

namespace Sppc.Backtrace.MachO

/-- The machines, as far as they are told apart. -/
inductive MachArch
  | x86_64 | arm64 | other
  deriving DecidableEq, Repr

/-- The registers of a signal's context. -/
structure MachContext where
  pc : Nat
  fp : Nat
  lr : Nat
  deriving DecidableEq, Repr

/-- `_sppc_bt_strip`, where `xpaclri` takes the authentication off an address. -/
def MachArch.strip (xpaclri : Nat → Nat) : MachArch → Nat → Nat
  | arm64 => xpaclri
  | _ => id

/-- `_sppc_bt_read_frame`. -/
def readFrame (m : Memory) (fp : Nat) : Option (Nat × Nat) := do
  let saved ← m.read fp 8
  let ret ← m.read (fp + 8) 8
  some (saved, ret)

/-- The loop of `_sppc_bt_frames`, with room for `n` frames. -/
def walkFrames (m : Memory) (strip : Nat → Nat) : Nat → Nat → List Nat
  | 0, _ => []
  | n + 1, fp =>
    if fp ≠ 0 ∧ fp % 8 = 0 then
      match readFrame m fp with
      | none => []
      | some (saved, ret) =>
        if strip ret = 0 then [] else strip ret :: if saved ≤ fp then [] else walkFrames m strip n saved
    else []

/-- `_sppc_bt_frames`, with room for `max` frames, where `own` is the frame of its own; `none` if a name is looked for
in memory that is not mapped. -/
def frames (arch : MachArch) (xpaclri : Nat → Nat) (m : Memory) (dladdr : Nat → Option DlInfo) (max own : Nat)
    (uctx : Option MachContext) : Option (List Nat) :=
  match uctx with
  | none => some (walkFrames m (arch.strip xpaclri) max own)
  | some mc =>
    match arch with
    | .x86_64 => some (mc.pc :: walkFrames m id (max - 1) mc.fp)
    | .arm64 => do
      let pc := xpaclri mc.pc
      let lr := xpaclri mc.lr
      let next := ((readFrame m mc.fp).map fun record => xpaclri record.2).getD 0
      let pcName ← resolve m dladdr pc 0
      let lrName ← resolve m dladdr (sub64 lr 1) 0
      let same := pcName.name.isSome ∧ lrName.name.isSome ∧ pcName.start = lrName.start
      if lr ≠ 0 ∧ lr ≠ next ∧ ¬same ∧ 1 < max then some (pc :: lr :: walkFrames m xpaclri (max - 2) mc.fp)
      else some (pc :: walkFrames m xpaclri (max - 1) mc.fp)
    | .other => some []

/-! ### The records of a stack -/

/-- A frame record that has a return address is at `fp`. -/
structure RecordAt (m : Memory) (strip : Nat → Nat) (fp saved ret : Nat) : Prop where
  read : readFrame m fp = some (saved, ret)
  pointer : fp ≠ 0
  aligned : fp % 8 = 0
  returns : strip ret ≠ 0

/-- The return addresses of the records that chain from `fp` on, each of them above the last. -/
inductive Chain (m : Memory) (strip : Nat → Nat) : Nat → List Nat → Prop
  | ends {fp : Nat} (h : ∀ saved ret, ¬RecordAt m strip fp saved ret) : Chain m strip fp []
  | breaks {fp saved ret : Nat} (h : RecordAt m strip fp saved ret) (hle : saved ≤ fp) : Chain m strip fp [strip ret]
  | climbs {fp saved ret : Nat} {rets : List Nat} (h : RecordAt m strip fp saved ret) (hlt : fp < saved)
      (hrest : Chain m strip saved rets) : Chain m strip fp (strip ret :: rets)

section chain

variable {m : Memory} {strip : Nat → Nat} {fp : Nat} {rets : List Nat}

private theorem read_lt {a n v : Nat} (h : m.read a n = some v) : v < 256 ^ n := by
  unfold Memory.read at h
  split at h
  · rw [← Option.some.inj h]
    exact ByteOrder.load_lt .little _ a n
  · cases h

private theorem RecordAt.saved_lt {saved ret : Nat} (h : RecordAt m strip fp saved ret) : saved < 256 ^ 8 := by
  have hread := h.read
  unfold readFrame at hread
  obtain ⟨v, hv, hread⟩ := Option.bind_eq_some_iff.1 hread
  obtain ⟨w, -, hread⟩ := Option.bind_eq_some_iff.1 hread
  obtain ⟨rfl, -⟩ := Prod.mk.inj (Option.some.inj hread)
  exact read_lt hv

/-- Every chain ends, since it climbs. -/
private theorem exists_chain (m : Memory) (strip : Nat → Nat) (fp : Nat) : ∃ rets, Chain m strip fp rets := by
  induction hk : 256 ^ 8 - fp using Nat.strong_induction_on generalizing fp with
  | _ k ih =>
    by_cases hrecord : ∃ saved ret, RecordAt m strip fp saved ret
    · obtain ⟨saved, ret, h⟩ := hrecord
      by_cases hle : saved ≤ fp
      · exact ⟨_, .breaks h hle⟩
      · have hsaved := h.saved_lt
        obtain ⟨rets, hrest⟩ := ih (256 ^ 8 - saved) (by omega) saved rfl
        exact ⟨_, .climbs h (Nat.not_le.1 hle) hrest⟩
    · exact ⟨[], .ends fun saved ret h => hrecord ⟨saved, ret, h⟩⟩

private theorem walkFrames_record {saved ret : Nat} (h : RecordAt m strip fp saved ret) (n : Nat) :
    walkFrames m strip (n + 1) fp = strip ret :: if saved ≤ fp then [] else walkFrames m strip n saved := by
  rw [walkFrames, if_pos ⟨h.pointer, h.aligned⟩, h.read]
  dsimp only
  rw [if_neg h.returns]

private theorem walkFrames_end (h : ∀ saved ret, ¬RecordAt m strip fp saved ret) (n : Nat) :
    walkFrames m strip n fp = [] := by
  cases n with
  | zero => rfl
  | succ n =>
    rw [walkFrames]
    by_cases hfp : fp ≠ 0 ∧ fp % 8 = 0
    · rw [if_pos hfp]
      cases hread : readFrame m fp with
      | none => rfl
      | some record =>
        obtain ⟨saved, ret⟩ := record
        by_cases hret : strip ret = 0
        · exact if_pos hret
        · exact absurd ⟨hread, hfp.1, hfp.2, hret⟩ (h saved ret)
    · rw [if_neg hfp]

/-- The walk takes the chain, as far as there is room. -/
private theorem walkFrames_eq (h : Chain m strip fp rets) (n : Nat) : walkFrames m strip n fp = rets.take n := by
  induction h generalizing n with
  | ends h => rw [walkFrames_end h, List.take_nil]
  | breaks h hle =>
    cases n with
    | zero => rfl
    | succ n => rw [walkFrames_record h, if_pos hle, List.take_succ_cons, List.take_nil]
  | climbs h hlt hrest ih =>
    cases n with
    | zero => rfl
    | succ n => rw [walkFrames_record h, if_neg (Nat.not_le.2 hlt), ih, List.take_succ_cons]

private theorem Chain.unique {rets' : List Nat} (h : Chain m strip fp rets) (h' : Chain m strip fp rets') :
    rets = rets' := by
  have hleft := walkFrames_eq h (rets.length + rets'.length)
  have hright := walkFrames_eq h' (rets.length + rets'.length)
  rw [List.take_of_length_le (by omega)] at hleft hright
  exact hleft.symm.trans hright

end chain

/-- The return address in `lr` is a frame of its own: there is one, it is not that of the first record, and it does
not lead back into the function that was stopped. -/
structure LrIsFrame (m : Memory) (xpaclri : Nat → Nat) (mc : MachContext) (pcName lrName : Name) : Prop where
  returns : xpaclri mc.lr ≠ 0
  unsaved : ∀ saved ret, readFrame m mc.fp = some (saved, ret) → xpaclri ret ≠ xpaclri mc.lr
  elsewhere : ¬(pcName.name.isSome ∧ lrName.name.isSome ∧ pcName.start = lrName.start)

/-- What the frames are, where `rets` are the return addresses of the chain. -/
def FramesAre (arch : MachArch) (xpaclri : Nat → Nat) (m : Memory) (dladdr : Nat → Option DlInfo) (rets : List Nat)
    (out : List Nat → Prop) : Option MachContext → Prop
  | none => out rets
  | some mc =>
    match arch with
    | .x86_64 => out (mc.pc :: rets)
    | .arm64 => ∀ pcName lrName, resolve m dladdr (xpaclri mc.pc) 0 = some pcName →
        resolve m dladdr (sub64 (xpaclri mc.lr) 1) 0 = some lrName →
        (LrIsFrame m xpaclri mc pcName lrName → out (xpaclri mc.pc :: xpaclri mc.lr :: rets)) ∧
          (¬LrIsFrame m xpaclri mc pcName lrName → out (xpaclri mc.pc :: rets))
    | .other => out []

private theorem lrIsFrame_iff {m : Memory} {xpaclri : Nat → Nat} {mc : MachContext} {pcName lrName : Name} :
    LrIsFrame m xpaclri mc pcName lrName ↔ xpaclri mc.lr ≠ 0 ∧
      xpaclri mc.lr ≠ ((readFrame m mc.fp).map fun record => xpaclri record.2).getD 0 ∧
      ¬(pcName.name.isSome ∧ lrName.name.isSome ∧ pcName.start = lrName.start) := by
  constructor
  · rintro ⟨hreturns, hunsaved, helsewhere⟩
    refine ⟨hreturns, ?_, helsewhere⟩
    cases hread : readFrame m mc.fp with
    | none => exact hreturns
    | some record => exact (hunsaved record.1 record.2 hread).symm
  · rintro ⟨hreturns, hnext, helsewhere⟩
    refine ⟨hreturns, fun saved ret hread heq => hnext ?_, helsewhere⟩
    rw [hread]
    exact heq.symm

private theorem length_walkFrames_le (m : Memory) (strip : Nat → Nat) (n fp : Nat) :
    (walkFrames m strip n fp).length ≤ n := by
  obtain ⟨rets, hrets⟩ := exists_chain m strip fp
  rw [walkFrames_eq hrets]
  exact List.length_take_le n rets

/-- The frames stay within their array. -/
private theorem length_frames_le {arch : MachArch} {xpaclri : Nat → Nat} {m : Memory} {dladdr : Nat → Option DlInfo}
    {max own : Nat} {uctx : Option MachContext} {out : List Nat} (hmax : 0 < max)
    (h : frames arch xpaclri m dladdr max own uctx = some out) : out.length ≤ max := by
  unfold frames at h
  cases uctx with
  | none =>
    obtain rfl := Option.some.inj h
    exact length_walkFrames_le m _ max own
  | some mc =>
    cases arch with
    | x86_64 =>
      obtain rfl := Option.some.inj h
      have hwalk := length_walkFrames_le m id (max - 1) mc.fp
      rw [List.length_cons]
      omega
    | other =>
      obtain rfl := Option.some.inj h
      exact Nat.zero_le max
    | arm64 =>
      obtain ⟨pcName, -, h⟩ := Option.bind_eq_some_iff.1 h
      obtain ⟨lrName, -, h⟩ := Option.bind_eq_some_iff.1 h
      dsimp only at h
      split at h
      · rename_i hlr
        obtain rfl := Option.some.inj h
        have hwalk := length_walkFrames_le m xpaclri (max - 2) mc.fp
        have hroom : 1 < max := hlr.2.2.2
        rw [List.length_cons, List.length_cons]
        omega
      · obtain rfl := Option.some.inj h
        have hwalk := length_walkFrames_le m xpaclri (max - 1) mc.fp
        rw [List.length_cons]
        omega

private theorem exists_frames {out : List (BitVec (8 * WordSize.eight.sizeof))}
    (h : out.length ≤ SPPC_BT_MAX_FRAMES) : ∃ fs : Frames .eight, fs.stack = out := by
  refine ⟨⟨out ++ List.replicate (SPPC_BT_MAX_FRAMES - out.length) 0, out.length, ?_, h⟩, List.take_left⟩
  rw [List.length_append, List.length_replicate]
  omega

private theorem framesAre_take {arch : MachArch} {xpaclri : Nat → Nat} {m : Memory} {dladdr : Nat → Option DlInfo}
    {max own : Nat} {uctx : Option MachContext} {rets : List Nat} (hmax : 0 < max)
    (h : Chain m (arch.strip xpaclri) ((uctx.map MachContext.fp).getD own) rets) :
    FramesAre arch xpaclri m dladdr rets (fun all => frames arch xpaclri m dladdr max own uctx =
      some (all.take max)) uctx := by
  obtain ⟨n, rfl⟩ : ∃ n, max = n + 1 := ⟨max - 1, by omega⟩
  cases uctx with
  | none => exact congrArg some (walkFrames_eq h (n + 1))
  | some mc =>
    cases arch with
    | x86_64 => exact congrArg (fun rest => some (mc.pc :: rest)) (walkFrames_eq h n)
    | other => rfl
    | arm64 =>
      intro pcName lrName hpc hlr
      unfold frames
      dsimp only
      rw [hpc, hlr, Option.bind_eq_bind, Option.bind_some, Option.bind_some]
      have hwalk (k : Nat) : walkFrames m xpaclri k mc.fp = rets.take k := walkFrames_eq h k
      rw [lrIsFrame_iff]
      constructor
      · rintro ⟨hreturns, hnext, helsewhere⟩
        by_cases hroom : 1 < n + 1
        · obtain ⟨k, rfl⟩ : ∃ k, n = k + 1 := ⟨n - 1, by omega⟩
          rw [if_pos ⟨hreturns, hnext, helsewhere, hroom⟩, hwalk]
          rfl
        · obtain rfl : n = 0 := by omega
          rw [if_neg fun h => hroom h.2.2.2, hwalk]
          rfl
      · intro hnot
        rw [if_neg fun h => hnot ⟨h.1, h.2.1, h.2.2.1⟩, hwalk]
        rfl

/-- The frames are those of the stack from where it was stopped on, as far as there is room, whatever
the stack holds. -/
theorem frames_chain (arch : MachArch) (xpaclri : Nat → Nat) (m : Memory) (dladdr : Nat → Option DlInfo) {max : Nat}
    (own : Nat) (uctx : Option MachContext) (hmax : 0 < max) :
    ∃ rets, Chain m (arch.strip xpaclri) ((uctx.map MachContext.fp).getD own) rets ∧
      (∀ rets', Chain m (arch.strip xpaclri) ((uctx.map MachContext.fp).getD own) rets' → rets' = rets) ∧
      FramesAre arch xpaclri m dladdr rets (fun all => frames arch xpaclri m dladdr max own uctx =
        some (all.take max)) uctx ∧
      ∀ out, frames arch xpaclri m dladdr max own uctx = some out → max ≤ SPPC_BT_MAX_FRAMES →
        ∃ fs : Frames .eight, fs.stack = out.map (BitVec.ofNat (8 * WordSize.eight.sizeof)) := by
  obtain ⟨rets, hrets⟩ := exists_chain m (arch.strip xpaclri) ((uctx.map MachContext.fp).getD own)
  refine ⟨rets, hrets, fun rets' h => h.unique hrets, framesAre_take hmax hrets, fun out hout hfits => ?_⟩
  have hlength := length_frames_le hmax hout
  apply exists_frames
  rw [List.length_map]
  omega

/-- A stack with two records, the second at its outermost frame. -/
def smallStack : Memory :=
  Memory.image 4096 ([16, 16, 0, 0, 0, 0, 0, 0, 77] ++ List.replicate 15 0 ++ [88] ++ List.replicate 7 0)

example : frames .arm64 id smallStack (fun _ => none) 8 0 (some ⟨66, 4096, 99⟩) = some [66, 99, 77, 88] := by
    decide +kernel

theorem frames_chain_small :
    ∃ rets, Chain smallStack (MachArch.arm64.strip id)
      (((some ⟨66, 4096, 99⟩ : Option MachContext).map MachContext.fp).getD 0) rets ∧
      (∀ rets', Chain smallStack (MachArch.arm64.strip id)
        (((some ⟨66, 4096, 99⟩ : Option MachContext).map MachContext.fp).getD 0) rets' → rets' = rets) ∧
      FramesAre .arm64 id smallStack (fun _ => none) rets
        (fun all => frames .arm64 id smallStack (fun _ => none) 3 0 (some ⟨66, 4096, 99⟩) = some (all.take 3))
        (some ⟨66, 4096, 99⟩) ∧
      ∀ out, frames .arm64 id smallStack (fun _ => none) 3 0 (some ⟨66, 4096, 99⟩) = some out →
        3 ≤ SPPC_BT_MAX_FRAMES → ∃ fs : Frames .eight,
        fs.stack = out.map (BitVec.ofNat (8 * WordSize.eight.sizeof)) :=
  frames_chain .arm64 id smallStack (fun _ => none) 0 (some ⟨66, 4096, 99⟩) (by decide)

end Sppc.Backtrace.MachO
