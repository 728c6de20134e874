import Sppc.Interrupted
import Sppc.RegisterWindows

/-!
# The context switch of SPARC V9 (`asm/switch_sparc_v9.S`)

The system may save the windows that are in registers at any boundary of the code, as it does to run another process
or a handler of its own, and fills the current one again before the code goes on.  Memory is little-endian here:
nothing but the code below reads the save areas, and it reads each word as it was stored.
-/

namespace Sppc

open Bytes RegisterWindow Interrupted

/-- The current window, the outs, which are the ins of the functions it calls, the windows of its callers that are in
registers, the nearest first, and where `ret` goes to. -/
structure Sparc where
  w : Window
  o : Fin 8 → Word
  fsr : Word
  older : List Window
  mem : Bytes
  pc : Word

/-- The instructions of the switch: `%sp` is `%o6`, and windows are accessed at it. -/
inductive SparcInstr
  | save (n : Int) | flushw | stx (k : Fin 16) (off : Nat) | stxFsr (off : Nat) | stxSp
  | ldxSp | ldxFsr (off : Nat) | ldx (off : Nat) (k : Fin 16) | ret | restore
  deriving DecidableEq, Repr

namespace Sparc

/-- The address `[%sp + off]`. -/
def addr (m : Sparc) (off : Nat) : Nat := (m.o 6 + BitVec.ofNat 64 off).toNat

/-- The window that `save` begins: the ins are the outs of the caller, and nobody knows the locals. -/
def entered (m : Sparc) (junk : Window) : Window := fun k => if h : k < 8 then junk k else m.o ⟨k - 8, by omega⟩

/-- One instruction.  `junk` is what registers have that it gives no value. -/
def exec (junk : Window) (m : Sparc) : SparcInstr → Sparc
  | .save n => { m with
      w := m.entered junk
      o := fun k => if k = 6 then m.o 6 + BitVec.ofInt 64 n else junk (i k)
      older := m.w :: m.older }
  | .flushw => { m with mem := flush m.mem (m.w (i 6)) m.older, older := [] }
  | .stx k off => { m with mem := storeWord m.mem (m.addr off) (m.w k) }
  | .stxFsr off => { m with mem := storeWord m.mem (m.addr off) m.fsr }
  | .stxSp => { m with mem := storeWord m.mem (m.w (i 0)).toNat (m.o 6) }
  | .ldxSp => { m with o := Function.update m.o 6 (loadWord m.mem (m.w (i 1)).toNat) }
  | .ldxFsr off => { m with fsr := loadWord m.mem (m.addr off) }
  | .ldx off k => { m with w := Function.update m.w k (loadWord m.mem (m.addr off)) }
  | .ret => { m with pc := m.w (i 7) + 8 }
  | .restore =>
    let o := fun k => m.w (i k)
    match m.older with
    | w :: older => { m with w := w, o := o, older := older }
    | [] => { m with w := fill m.mem (m.w (i 6)), o := o }

/-- The system saves the windows that are in registers, and fills the current one. -/
def spilled (m : Sparc) : Sparc :=
  let mem := flush m.mem (m.o 6) (m.w :: m.older)
  { m with w := fill mem (m.o 6), older := [], mem := mem }

end Sparc

open SparcInstr in
/-- `switch_sparc_v9.S`. -/
def switchSparc : List SparcInstr := [
  save (-176),
  flushw,
  stx (l 0) (2047 + 0),
  stx (l 1) (2047 + 8),
  stx (l 2) (2047 + 16),
  stx (l 3) (2047 + 24),
  stx (l 4) (2047 + 32),
  stx (l 5) (2047 + 40),
  stx (l 6) (2047 + 48),
  stx (l 7) (2047 + 56),
  stx (i 0) (2047 + 64),
  stx (i 1) (2047 + 72),
  stx (i 2) (2047 + 80),
  stx (i 3) (2047 + 88),
  stx (i 4) (2047 + 96),
  stx (i 5) (2047 + 104),
  stx (i 6) (2047 + 112),
  stx (i 7) (2047 + 120),
  stxFsr (2047 + 128),
  stxSp,
  ldxSp,
  ldxFsr (2047 + 128),
  ldx (2047 + 0) (l 0),
  ldx (2047 + 8) (l 1),
  ldx (2047 + 16) (l 2),
  ldx (2047 + 24) (l 3),
  ldx (2047 + 32) (l 4),
  ldx (2047 + 40) (l 5),
  ldx (2047 + 48) (l 6),
  ldx (2047 + 56) (l 7),
  ldx (2047 + 64) (i 0),
  ldx (2047 + 72) (i 1),
  ldx (2047 + 80) (i 2),
  ldx (2047 + 88) (i 3),
  ldx (2047 + 96) (i 4),
  ldx (2047 + 104) (i 5),
  ldx (2047 + 112) (i 6),
  ldx (2047 + 120) (i 7),
  ret,
  restore]

/-- A window is stored and loaded in the order of its save area. -/
theorem switchSparc_eq : switchSparc =
    [.save (-176), .flushw] ++ List.ofFn (fun k : Fin 16 => .stx k (2047 + 8 * k)) ++
    [.stxFsr (2047 + 128), .stxSp, .ldxSp] ++
    ([.ldxFsr (2047 + 128)] ++ List.ofFn (fun k : Fin 16 => .ldx (2047 + 8 * k) k) ++ [.ret, .restore]) := by
  decide

namespace Sparc

/-- A call of `_gt_switch` from `link` on two slots. -/
def called (m : Sparc) (save load link : Word) : Sparc :=
  { m with o := Function.update (Function.update (Function.update m.o 0 save) 1 load) 7 link }

/-- `_gt_switch`, where `spills` says at which boundaries the system saves the windows. -/
def gtSwitch (junk : Window) (spills : Nat → Bool) (m : Sparc) : Sparc :=
  Interrupted.run (exec junk) spilled spills 0 m switchSparc

/-! ### Frames -/

variable {m m' : Sparc} {junk : Window} {lo hi n : Nat} {ws : List Window}

private theorem addr_eq (h : area (m.o 6) + n < 2 ^ 64) : m.addr (2047 + n) = area (m.o 6) + n := by
  unfold addr area at *
  have := (m.o 6).isLt
  simp only [BitVec.ofNat_eq_ofNat, BitVec.toNat_add, BitVec.toNat_ofNat] at *
  omega

private theorem area_save (sp : Word) (h : 176 ≤ area sp) : area (sp + BitVec.ofInt 64 (-176)) + 176 = area sp := by
  unfold area at *
  have := sp.isLt
  bv_omega

/-- The windows of the callers are in registers or saved, and those of the nearest ones in registers. -/
structure Chain (m : Sparc) (lo hi : Nat) (ws : List Window) : Prop where
  within : Within lo hi (m.o 6) (m.w :: ws)
  resident : ∃ rest, ws = m.older ++ rest ∧ Held m.mem (callerOf (m.w (i 6)) m.older) rest

/-- What a spill leaves. -/
structure SpilledBy (m : Sparc) (lo hi : Nat) (ws : List Window) (m' : Sparc) : Prop where
  w : m'.w = m.w
  o : m'.o = m.o
  fsr : m'.fsr = m.fsr
  pc : m'.pc = m.pc
  chain : m'.Chain lo hi ws
  frame : ∀ x, ¬(lo ≤ x ∧ x < hi) → m'.mem x = m.mem x

private theorem Chain.spilled (h : m.Chain lo hi ws) : m.SpilledBy lo hi ws m.spilled := by
  obtain ⟨rest, rfl, hrest⟩ := h.resident
  have hwithin : Within lo hi (m.o 6) ((m.w :: m.older) ++ rest) := h.within
  obtain ⟨hw, hheld⟩ := held_flush hwithin hrest
  have hframe := fun x hx => flush_of_not (m := m.mem) (x := x) hwithin.append.1 hx
  unfold Sparc.spilled
  dsimp only
  generalize flush m.mem (m.o 6) (m.w :: m.older) = mem at *
  rw [hw]
  exact ⟨rfl, rfl, rfl, rfl, ⟨h.within, m.older ++ rest, rfl, hheld⟩, hframe⟩

private theorem Chain.before (spills : Nat → Bool) (k : Nat) (h : m.Chain lo hi ws) :
    m.SpilledBy lo hi ws (before Sparc.spilled spills k m) :=
  before_induct ⟨rfl, rfl, rfl, rfl, h, fun _ _ => rfl⟩ fun _ _ => h.spilled

theorem entered_i (k : Fin 8) : m.entered junk (i k) = m.o k := by
  have hk : ¬(i k).val < 8 := Nat.not_lt.2 (Nat.le_add_right 8 k)
  rw [entered]
  exact (dif_neg hk).trans (congrArg m.o (Fin.ext (Nat.add_sub_cancel_left 8 k)))

private theorem Chain.save (junk : Window) (h : m.Chain lo hi ws) (hroom : lo + 176 ≤ area (m.o 6)) :
    (m.exec junk (.save (-176))).Chain lo hi (m.w :: ws) := by
  have hsp : m.entered junk (i 6) = m.o 6 := entered_i 6
  have harea := area_save (m.o 6) (by omega)
  obtain ⟨rest, hrest, hheld⟩ := h.resident
  obtain ⟨-, hhi, hwithin⟩ := h.within
  refine ⟨⟨?_, ?_, ?_⟩, rest, congrArg (m.w :: ·) hrest, ?_⟩
  · change lo ≤ area (m.o 6 + BitVec.ofInt 64 (-176))
    omega
  · change area (m.o 6 + BitVec.ofInt 64 (-176)) + 128 ≤ hi
    omega
  · change Within (area (m.o 6 + BitVec.ofInt 64 (-176)) + 128) hi (m.entered junk (i 6)) (m.w :: ws)
    rw [hsp]
    exact ⟨by omega, hhi, hwithin⟩
  · change Held m.mem (callerOf (m.entered junk (i 6)) (m.w :: m.older)) rest
    rw [hsp]
    exact hheld

/-- All of the windows of the callers are saved. -/
private theorem Chain.flushw (junk : Window) (h : m.Chain lo hi ws) : Held (m.exec junk .flushw).mem (m.w (i 6)) ws ∧
    ∀ x, ¬(lo ≤ x ∧ x < hi) → (m.exec junk .flushw).mem x = m.mem x := by
  obtain ⟨rest, rfl, hrest⟩ := h.resident
  have hwithin := h.within.2.2.mono (Nat.le_trans h.within.1 (Nat.le_add_right _ 128))
  exact ⟨held_flush hwithin hrest, fun x hx => flush_of_not hwithin.append.1 hx⟩

private theorem spilled_of_nil (h : m.older = []) : m.spilled = { m with mem := spill m.mem (m.o 6) m.w } := by
  unfold spilled
  rw [h]
  dsimp only [flush]
  rw [fill_spill]

/-! ### Saving the window -/

/-- The stack pointer of the switch. -/
def ownSp (m : Sparc) : Word := m.o 6 + BitVec.ofInt 64 (-176)

/-- A call of the switch from a stack with room for its frame: the callers are in the stack, and the slot is not. -/
structure Ready (m : Sparc) (lo hi : Nat) : Prop where
  room : lo + 176 ≤ area (m.o 6)
  within : Within lo hi (m.o 6) (m.w :: m.older)
  hi_lt : hi < 2 ^ 64
  slot : (m.o 0).toNat + 8 ≤ lo ∨ hi ≤ (m.o 0).toNat

/-- The callers' windows are saved, and `n` words of the switch's own are. -/
structure Saving (m₀ : Sparc) (junk : Window) (lo hi n : Nat) (m : Sparc) : Prop where
  w : m.w = m₀.entered junk
  sp : m.o 6 = m₀.ownSp
  fsr : m.fsr = m₀.fsr
  older : m.older = []
  held : Held m.mem (m₀.o 6) (m₀.w :: m₀.older)
  words : ∀ k : Fin 16, k < n → fill m.mem m₀.ownSp k = m₀.entered junk k
  frame : ∀ x, ¬(lo ≤ x ∧ x < hi) → m.mem x = m₀.mem x

section save

variable {m₀ : Sparc} {spills : Nat → Bool} {base k : Nat}

private theorem Ready.area_own (h : m₀.Ready lo hi) : area m₀.ownSp + 176 = area (m₀.o 6) :=
  area_save _ (by have := h.room; omega)

/-- The frame of the switch is in the stack, below those of the callers. -/
theorem Ready.own (h : m₀.Ready lo hi) : lo ≤ area m₀.ownSp ∧ area m₀.ownSp + 176 ≤ hi ∧
    Within (area m₀.ownSp + 176) hi (m₀.o 6) (m₀.w :: m₀.older) := by
  have hroom := h.room
  have harea := h.area_own
  obtain ⟨-, hhi, hwithin⟩ := h.within
  exact ⟨by omega, by omega, by omega, hhi, hwithin⟩

/-- A store to the frame of the switch. -/
private theorem Saving.store {n' : Nat} (hready : m₀.Ready lo hi) (h : m₀.Saving junk lo hi n m) (mem : Bytes)
    (hmem : ∀ x, ¬(area m₀.ownSp ≤ x ∧ x < area m₀.ownSp + 176) → mem x = m.mem x)
    (hwords : ∀ k : Fin 16, k < n' → fill mem m₀.ownSp k = m₀.entered junk k) :
    m₀.Saving junk lo hi n' { m with mem := mem } := by
  obtain ⟨hlo, hhi, hwithin⟩ := hready.own
  refine ⟨h.w, h.sp, h.fsr, h.older, h.held.congr hwithin fun x _ _ => hmem x (by omega), hwords, fun x hx => ?_⟩
  exact (hmem x (by omega)).trans (h.frame x hx)

private theorem Saving.before (spills : Nat → Bool) (k : Nat) (hready : m₀.Ready lo hi)
    (h : m₀.Saving junk lo hi n m) : m₀.Saving junk lo hi n (before Sparc.spilled spills k m) := by
  refine before_induct h fun _ h => ?_
  rw [spilled_of_nil h.older]
  refine h.store hready _ ?_ ?_
  all_goals rw [h.sp, h.w]
  · exact fun x hx => spill_of_not (by omega)
  · exact fun k _ => congrFun fill_spill k

private theorem Saving.before_fsr (spills : Nat → Bool) (k : Nat) (h : m₀.Saving junk lo hi n m)
    (hfsr : loadWord m.mem (area m₀.ownSp + 128) = m₀.fsr) :
    loadWord (Interrupted.before Sparc.spilled spills k m).mem (area m₀.ownSp + 128) = m₀.fsr := by
  unfold Interrupted.before
  split
  · rw [spilled_of_nil h.older, h.sp]
    exact (loadWord_congr (agree_spill (by omega))).trans hfsr
  · exact hfsr

private theorem Saving.addr (hready : m₀.Ready lo hi) (h : m₀.Saving junk lo hi n m) (off : Nat) (hoff : off ≤ 176) :
    m.addr (2047 + off) = area m₀.ownSp + off := by
  have := hready.hi_lt
  obtain ⟨-, hhi, -⟩ := hready.own
  rw [← h.sp]
  refine addr_eq ?_
  rw [h.sp]
  omega

private theorem Saving.stx (hready : m₀.Ready lo hi) (n : Fin 16) (h : m₀.Saving junk lo hi n m) :
    m₀.Saving junk lo hi (n + 1) (m.exec junk (.stx n (2047 + 8 * n))) := by
  have haddr := h.addr hready (8 * n) (by omega)
  refine h.store hready _ ?_ ?_
  all_goals rw [haddr, h.w]
  · exact fun x hx => storeWord_of_not (by omega)
  intro k hk
  by_cases hkn : k = n
  · subst hkn
    exact loadWord_storeWord
  · have hne : k.val ≠ n.val := fun h => hkn (Fin.ext h)
    exact (loadWord_congr (agree_storeWord (by omega))).trans (h.words k (by omega))

/-- The window of the switch, its stack pointer and the callers' windows are saved. -/
structure Saved (m₀ : Sparc) (junk : Window) (lo hi : Nat) (mem : Bytes) : Prop where
  held : Held mem (m₀.o 6) (m₀.w :: m₀.older)
  window : fill mem m₀.ownSp = m₀.entered junk
  fsr : loadWord mem (area m₀.ownSp + 128) = m₀.fsr
  slot : loadWord mem (m₀.o 0).toNat = m₀.ownSp
  frame : ∀ x, ¬(lo ≤ x ∧ x < hi) → ¬((m₀.o 0).toNat ≤ x ∧ x < (m₀.o 0).toNat + 8) → mem x = m₀.mem x

private theorem Saved.spill (hready : m₀.Ready lo hi) {mem : Bytes} (h : m₀.Saved junk lo hi mem) :
    m₀.Saved junk lo hi (RegisterWindow.spill mem m₀.ownSp (m₀.entered junk)) := by
  obtain ⟨hlo, hhi, hwithin⟩ := hready.own
  have hslot := hready.slot
  refine ⟨h.held.congr hwithin fun x _ _ => spill_of_not (by omega), fill_spill, ?_, ?_, fun x hx hx' => ?_⟩
  · exact (loadWord_congr (agree_spill (by omega))).trans h.fsr
  · exact (loadWord_congr (agree_spill (by omega))).trans h.slot
  · exact (spill_of_not (by omega)).trans (h.frame x hx hx')

private theorem Saved.before (spills : Nat → Bool) (k : Nat) (hready : m₀.Ready lo hi) (hw : m.w = m₀.entered junk)
    (hsp : m.o 6 = m₀.ownSp) (holder : m.older = []) (h : m₀.Saved junk lo hi m.mem) :
    (before spilled spills k m).w = m₀.entered junk ∧ (before spilled spills k m).older = [] ∧
    m₀.Saved junk lo hi (before spilled spills k m).mem := by
  unfold Interrupted.before
  split
  · rw [spilled_of_nil holder, hsp, hw]
    exact ⟨rfl, holder, h.spill hready⟩
  · exact ⟨hw, holder, h⟩

/-- The callers' windows are saved once `flushw` is done. -/
private theorem Ready.flushed (hready : m₀.Ready lo hi) :
    m₀.Saving junk lo hi 0 (Interrupted.run (exec junk) spilled spills 0 m₀ [.save (-176), .flushw]) := by
  have hchain : m₀.Chain lo hi m₀.older :=
    ⟨hready.within, [], (List.append_nil _).symm, trivial⟩
  unfold Interrupted.run
  have hb₀ := hchain.before spills 0
  generalize before spilled spills 0 m₀ = b₀ at *
  have hentered : b₀.entered junk = m₀.entered junk := by
    unfold entered
    rw [hb₀.o]
  have hchain₁ := hb₀.chain.save junk (by rw [hb₀.o]; exact hready.room)
  have hw₁ : (b₀.exec junk (.save (-176))).w = m₀.entered junk := hentered
  have hsp₁ : (b₀.exec junk (.save (-176))).o 6 = m₀.ownSp := by
    change b₀.o 6 + _ = _
    rw [hb₀.o]
    rfl
  have hfsr₁ : (b₀.exec junk (.save (-176))).fsr = m₀.fsr := hb₀.fsr
  have hmem₁ : (b₀.exec junk (.save (-176))).mem = b₀.mem := rfl
  generalize b₀.exec junk (.save (-176)) = m₁ at *
  unfold Interrupted.run
  have hb₁ := hchain₁.before spills (0 + 1)
  generalize before spilled spills (0 + 1) m₁ = b₁ at *
  obtain ⟨hheld, hframe⟩ := hb₁.chain.flushw junk
  have hcaller : b₁.w (i 6) = m₀.o 6 := by
    rw [hb₁.w, hw₁]
    exact entered_i 6
  rw [hcaller, hb₀.w] at hheld
  refine ⟨hb₁.w.trans hw₁, ?_, hb₁.fsr.trans hfsr₁, rfl, hheld, fun k hk => absurd hk (Nat.not_lt_zero _),
    fun x hx => ?_⟩
  · exact (congrFun hb₁.o 6).trans hsp₁
  · refine (hframe x hx).trans ((hb₁.frame x hx).trans ?_)
    rw [hmem₁]
    exact hb₀.frame x hx

/-- The window and the stack pointer of the switch are saved, and the stack pointer to switch to is loaded. -/
structure Exchanged (m₀ : Sparc) (junk : Window) (lo hi : Nat) (m : Sparc) : Prop where
  w : m.w = m₀.entered junk
  older : m.older = []
  saved : m₀.Saved junk lo hi m.mem
  sp : m.o 6 = loadWord m.mem (m₀.o 1).toNat

theorem Saving.exchanged (hready : m₀.Ready lo hi) (h : m₀.Saving junk lo hi 16 m) : m₀.Exchanged junk lo hi
    (Interrupted.run (exec junk) spilled spills k m [.stxFsr (2047 + 128), .stxSp, .ldxSp]) := by
  obtain ⟨hlo, hhi, hwithin⟩ := hready.own
  have hslot := hready.slot
  unfold Interrupted.run
  have hb := h.before spills k hready
  generalize Interrupted.before spilled spills k m = b at *
  have haddr := hb.addr hready 128 (by omega)
  have hfsr : m₀.Saving junk lo hi 16 (b.exec junk (.stxFsr (2047 + 128))) ∧
      loadWord (b.exec junk (.stxFsr (2047 + 128))).mem (area m₀.ownSp + 128) = m₀.fsr := by
    constructor
    · refine hb.store hready _ ?_ ?_
      all_goals rw [haddr]
      · exact fun x hx => storeWord_of_not (by omega)
      · exact fun k hk => (loadWord_congr (agree_storeWord (by omega))).trans (hb.words k hk)
    · change loadWord (storeWord b.mem (b.addr (2047 + 128)) b.fsr) (area m₀.ownSp + 128) = m₀.fsr
      rw [haddr, hb.fsr]
      exact loadWord_storeWord
  generalize b.exec junk (.stxFsr (2047 + 128)) = m₁ at *
  unfold Interrupted.run
  have hb₁ := hfsr.1.before spills (k + 1) hready
  have hfsr₁ := hfsr.1.before_fsr spills (k + 1) hfsr.2
  generalize Interrupted.before spilled spills (k + 1) m₁ = b₁ at *
  have hi₀ : b₁.w (i 0) = m₀.o 0 := by
    rw [hb₁.w]
    exact entered_i 0
  have hsaved : m₀.Saved junk lo hi (b₁.exec junk .stxSp).mem := by
    change m₀.Saved junk lo hi (storeWord b₁.mem (b₁.w (i 0)).toNat (b₁.o 6))
    rw [hi₀, hb₁.sp]
    refine ⟨?_, funext fun k => ?_, ?_, loadWord_storeWord, fun x hx hx' => ?_⟩
    · exact hb₁.held.congr hwithin fun x _ _ => storeWord_of_not (by omega)
    · exact (loadWord_congr (agree_storeWord (by omega))).trans (hb₁.words k k.isLt)
    · exact (loadWord_congr (agree_storeWord (by omega))).trans hfsr₁
    · exact (storeWord_of_not hx').trans (hb₁.frame x hx)
  have hw₂ : (b₁.exec junk .stxSp).w = m₀.entered junk := hb₁.w
  have hsp₂ : (b₁.exec junk .stxSp).o 6 = m₀.ownSp := hb₁.sp
  have holder₂ : (b₁.exec junk .stxSp).older = [] := hb₁.older
  generalize b₁.exec junk .stxSp = m₂ at *
  unfold Interrupted.run
  have hb₂ := hsaved.before spills (k + 1 + 1) hready hw₂ hsp₂ holder₂
  generalize Interrupted.before spilled spills (k + 1 + 1) m₂ = b₂ at *
  refine ⟨hb₂.1, hb₂.2.1, hb₂.2.2, ?_⟩
  have hi₁ : b₂.w (i 1) = m₀.o 1 := by
    rw [hb₂.1]
    exact entered_i 1
  change Function.update b₂.o 6 (loadWord b₂.mem (b₂.w (i 1)).toNat) 6 = loadWord b₂.mem (m₀.o 1).toNat
  rw [Function.update_self, hi₁]

/-- The first half of the switch. -/
theorem Ready.exchanged (junk : Window) (spills : Nat → Bool) (hready : m₀.Ready lo hi) :
    m₀.Exchanged junk lo hi (Interrupted.run (exec junk) spilled spills 0 m₀
      ([.save (-176), .flushw] ++ List.ofFn (fun k : Fin 16 => .stx k (2047 + 8 * k)) ++
        [.stxFsr (2047 + 128), .stxSp, .ldxSp])) := by
  rw [run_append, run_append]
  refine Saving.exchanged hready ?_
  refine run_ofFn (P := fun n => m₀.Saving junk lo hi n) (Q := fun n => m₀.Saving junk lo hi n)
    (fun n _ m h => h.before spills _ hready) (fun n m h => h.stx hready n) hready.flushed

end save

/-! ### Loading a window -/

/-- A spill has come after the stack pointer was loaded and before the window's `j`-th word was, at a boundary below
`k`: the stack pointer is loaded by the 20th instruction, and the word by the `22 + j`-th. -/
def Hit (spills : Nat → Bool) (k j : Nat) : Prop := ∃ b, 20 < b ∧ b < k ∧ b ≤ 22 + j ∧ spills b = true

section load

variable {m₁ : Sparc} {spills : Nat → Bool} {k j : Nat}

private theorem Hit.mono (h : Hit spills k j) : Hit spills (k + 1) j := by
  obtain ⟨b, hlo, hk, hj, hb⟩ := h
  exact ⟨b, hlo, Nat.lt_succ_of_lt hk, hj, hb⟩

private theorem hit_succ (h : spills k = false ∨ 22 + j < k) : Hit spills (k + 1) j ↔ Hit spills k j := by
  refine ⟨fun ⟨b, hlo, hk, hj, hb⟩ => ⟨b, hlo, ?_, hj, hb⟩, Hit.mono⟩
  have hne : b ≠ k := by
    rintro rfl
    rcases h with h | h
    · rw [h] at hb
      cases hb
    · omega
  omega

/-- What a save area has after the spills before the boundary `k`: the words that it had, and those of the window that
was there where a spill has come before they were loaded. -/
def Mixed (spills : Nat → Bool) (k : Nat) (saved old w : Window) : Prop :=
  ∀ j : Fin 16, (Hit spills k j → w j = old j) ∧ (¬Hit spills k j → w j = saved j)

/-- `n` words of the window at the stack pointer are loaded. -/
structure Loading (m₁ : Sparc) (spills : Nat → Bool) (k n : Nat) (m : Sparc) : Prop where
  sp : m.o 6 = m₁.o 6
  older : m.older = []
  mixed : Mixed spills k (fill m₁.mem (m₁.o 6)) m₁.w (fill m.mem (m₁.o 6))
  loaded : ∀ j : Fin 16, j < n → m.w j = fill m.mem (m₁.o 6) j
  kept : ∀ j : Fin 16, n ≤ j → m.w j = m₁.w j
  frame : ∀ x, ¬(area (m₁.o 6) ≤ x ∧ x < area (m₁.o 6) + 128) → m.mem x = m₁.mem x

/-- The boundary `k` is the one before the window's `n`-th word is loaded, or the one before that, or
all are loaded. -/
private theorem Loading.before {n : Nat} (hk : 20 < k) (hn : n = min (k - 22) 16) (h : m₁.Loading spills k n m) :
    m₁.Loading spills (k + 1) n (before spilled spills k m) := by
  unfold Interrupted.before
  split
  · rename_i hspill
    rw [spilled_of_nil h.older, h.sp]
    refine ⟨h.sp, h.older, fun j => ?_, fun j hj => ?_, h.kept, fun x hx => ?_⟩
    · rw [fill_spill]
      rcases Nat.lt_or_ge j n with hj | hj
      · rw [h.loaded j hj, hit_succ (.inr (by omega))]
        exact h.mixed j
      · rw [h.kept j hj]
        exact ⟨fun _ => rfl, fun hhit => absurd ⟨k, hk, Nat.lt_succ_self k, by omega, hspill⟩ hhit⟩
    · rw [fill_spill]
    · exact (spill_of_not hx).trans (h.frame x hx)
  · rename_i hspill
    refine ⟨h.sp, h.older, fun j => ?_, h.loaded, h.kept, h.frame⟩
    rw [hit_succ (.inl (Bool.eq_false_of_not_eq_true hspill))]
    exact h.mixed j

private theorem Loading.ldxFsr (junk : Window) {n : Nat} (htop : area (m₁.o 6) + 128 < 2 ^ 64)
    (h : m₁.Loading spills k n m) : m₁.Loading spills k n (m.exec junk (.ldxFsr (2047 + 128))) ∧
    (m.exec junk (.ldxFsr (2047 + 128))).fsr = loadWord m₁.mem (area (m₁.o 6) + 128) := by
  have haddr : m.addr (2047 + 128) = area (m₁.o 6) + 128 := by
    rw [← h.sp] at htop ⊢
    exact addr_eq htop
  unfold exec
  dsimp only
  rw [haddr]
  refine ⟨⟨h.sp, h.older, h.mixed, h.loaded, h.kept, h.frame⟩, ?_⟩
  exact loadWord_congr fun x hx _ => h.frame x (by omega)

theorem Loading.ldx (junk : Window) (htop : area (m₁.o 6) + 128 < 2 ^ 64) (n : Fin 16) (h : m₁.Loading spills k n m) :
    m₁.Loading spills k (n + 1) (m.exec junk (.ldx (2047 + 8 * n) n)) := by
  have haddr : m.addr (2047 + 8 * n) = area (m₁.o 6) + 8 * n := by
    rw [← h.sp] at htop ⊢
    exact addr_eq (by omega)
  refine ⟨h.sp, h.older, h.mixed, fun j hj => ?_, fun j hj => ?_, h.frame⟩
  · change Function.update m.w n (loadWord m.mem (m.addr (2047 + 8 * n))) j = _
    by_cases hjn : j = n
    · subst hjn
      rw [Function.update_self, haddr]
      rfl
    · have hne : j.val ≠ n.val := fun h => hjn (Fin.ext h)
      rw [Function.update_of_ne hjn]
      exact h.loaded j (by omega)
  · have hjn : j ≠ n := by
      rintro rfl
      omega
    exact (Function.update_of_ne hjn ..).trans (h.kept j (by omega))

private theorem before_fsr : (before spilled spills k m).fsr = m.fsr := by
  unfold Interrupted.before
  split
  · unfold spilled
    rfl
  · rfl

private theorem before_w (spills : Nat → Bool) (k : Nat) (h : m.older = []) :
    (before spilled spills k m).w = m.w ∧ (before spilled spills k m).pc = m.pc := by
  unfold Interrupted.before
  split
  · rw [spilled_of_nil h]
    exact ⟨rfl, rfl⟩
  · exact ⟨rfl, rfl⟩

private theorem Loading.ret {n : Nat} (junk : Window) (h : m₁.Loading spills k n m) :
    m₁.Loading spills k n (m.exec junk .ret) ∧ (m.exec junk .ret).pc = m.w (i 7) + 8 ∧ (m.exec junk .ret).w = m.w ∧
    (m.exec junk .ret).fsr = m.fsr := by
  unfold exec
  exact ⟨⟨h.sp, h.older, h.mixed, h.loaded, h.kept, h.frame⟩, rfl, rfl, rfl⟩

/-- The second half of the switch: `w` is the window that it has loaded. -/
structure Restored (m₁ : Sparc) (spills : Nat → Bool) (w : Window) (m : Sparc) : Prop where
  mixed : Mixed spills 40 (fill m₁.mem (m₁.o 6)) m₁.w w
  pc : m.pc = w (i 7) + 8
  sp : m.o 6 = w (i 6)
  window : m.w = fill m.mem (w (i 6))
  fsr : m.fsr = loadWord m₁.mem (area (m₁.o 6) + 128)
  frame : ∀ x, ¬(area (m₁.o 6) ≤ x ∧ x < area (m₁.o 6) + 128) → m.mem x = m₁.mem x

theorem restored (holder : m₁.older = []) (htop : area (m₁.o 6) + 136 < 2 ^ 64) : ∃ w, m₁.Restored spills w
    (Interrupted.run (exec junk) spilled spills 21 m₁
      ([.ldxFsr (2047 + 128)] ++ List.ofFn (fun k : Fin 16 => .ldx (2047 + 8 * k) k) ++ [.ret, .restore])) := by
  rw [run_append, run_append]
  have h₀ : m₁.Loading spills 21 0 m₁ := by
    refine ⟨rfl, holder, fun j => ⟨fun ⟨b, hlo, hhi, _⟩ => absurd hhi (by omega), fun _ => rfl⟩, ?_, fun _ _ => rfl,
      fun _ _ => rfl⟩
    exact fun j hj => absurd hj (Nat.not_lt_zero _)
  have h₁ : m₁.Loading spills 22 0 (Interrupted.run (exec junk) spilled spills 21 m₁ [.ldxFsr (2047 + 128)]) ∧
      (Interrupted.run (exec junk) spilled spills 21 m₁ [.ldxFsr (2047 + 128)]).fsr =
        loadWord m₁.mem (area (m₁.o 6) + 128) := by
    exact (h₀.before (by omega) (by decide)).ldxFsr junk (by omega)
  generalize Interrupted.run (exec junk) spilled spills 21 m₁ [.ldxFsr (2047 + 128)] = m₂ at *
  have h₂ := run_ofFn (k := 22)
    (P := fun n m => m₁.Loading spills (22 + n) n m ∧ m.fsr = loadWord m₁.mem (area (m₁.o 6) + 128))
    (Q := fun n m => m₁.Loading spills (22 + n + 1) n m ∧ m.fsr = loadWord m₁.mem (area (m₁.o 6) + 128))
    (fun n hn m h => ⟨h.1.before (by omega) (by omega), before_fsr.trans h.2⟩)
    (fun n m h => ⟨h.1.ldx junk (by omega) n, h.2⟩) h₁
  change ∃ w, m₁.Restored spills w (Interrupted.run (exec junk) spilled spills 38
    (Interrupted.run (exec junk) spilled spills 22 m₂ (List.ofFn fun k : Fin 16 => .ldx (2047 + 8 * k) k))
    [.ret, .restore])
  generalize Interrupted.run (exec junk) spilled spills 22 m₂ _ = m₃ at *
  obtain ⟨h₂, hfsr⟩ := h₂
  have hb₃ := h₂.before (by omega) (by decide)
  have hfsr₃ : (before spilled spills 38 m₃).fsr = loadWord m₁.mem (area (m₁.o 6) + 128) := before_fsr.trans hfsr
  unfold Interrupted.run
  generalize before spilled spills 38 m₃ = b₃ at *
  obtain ⟨h₄, hpc, hw, hfsr₄⟩ := hb₃.ret junk
  generalize b₃.exec junk .ret = m₄ at *
  have hb₄ := h₄.before (by omega) (by decide)
  have hfsr₅ : (before spilled spills 39 m₄).fsr = m₄.fsr := before_fsr
  obtain ⟨hw₅, hpc₅⟩ := before_w spills 39 h₄.older
  unfold Interrupted.run
  generalize before spilled spills 39 m₄ = b₄ at *
  refine ⟨b₄.w, ?_⟩
  unfold Interrupted.run exec
  rw [hb₄.older]
  refine ⟨fun j => ?_, ?_, rfl, rfl, ?_, hb₄.frame⟩
  · rw [hb₄.loaded j j.isLt]
    exact hb₄.mixed j
  · rw [hw₅, hw, ← hpc]
    exact hpc₅
  · exact hfsr₅.trans (hfsr₄.trans hfsr₃)

end load

end Sparc

end Sppc
