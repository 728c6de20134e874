import Mathlib.Logic.Function.Iterate
import Mathlib.Order.Nat
import Sppc.RunQueue
import Sppc.Quiet

/-!
# The slot table

What holds of the slot table in every run, whatever the tasks do: how large it grows, that a slot's block carries the
slot's index, and how its generation moves.  A slot keeps its index for good, and its generation moves on exactly
when it is retired.
-/

namespace Sppc

variable {Io : Type} {R R' R'' : GtRuntime Io}

/-- The table's size, indices and generations. -/
structure Table (R : GtRuntime Io) : Prop where
  size : ∃ k ≤ 13, R.cslots = 64 * 2 ^ k
  nslots_le : R.nslots ≤ R.cslots
  idx : ∀ i < R.nslots, (R.slots i).idx = i
  gen : ∀ i < R.nslots, 1 ≤ (R.slots i).gen ∧ (R.slots i).gen ≤ gtGenMask

theorem Table.cslots_le (h : Table R) : R.cslots ≤ 2 ^ 19 := by
  obtain ⟨k, hk, hc⟩ := h.size
  rw [hc]
  calc 64 * 2 ^ k ≤ 64 * 2 ^ 13 := Nat.mul_le_mul_left _ (Nat.pow_le_pow_right (by omega) hk)
    _ = 2 ^ 19 := by decide

theorem Table.nslots_le' (h : Table R) : R.nslots ≤ 2 ^ 19 := h.nslots_le.trans h.cslots_le

/-- Between `R` and `R'` the table has only grown, and the generation of each slot of `R` has moved on once for each
retirement logged. -/
structure Moved (R R' : GtRuntime Io) : Prop where
  nslots : R.nslots ≤ R'.nslots
  log : ∃ l, R'.log = l ++ R.log ∧
    ∀ i < R.nslots, (R'.slots i).gen = nextGen^[l.count (.retire i)] (R.slots i).gen

/-- The table is kept, and moves on as it should. -/
def Keeps (R R' : GtRuntime Io) : Prop := Table R → Table R' ∧ Moved R R'

theorem Moved.trans (h : Moved R R') (h' : Moved R' R'') : Moved R R'' := by
  obtain ⟨h1, l, h2, h3⟩ := h
  obtain ⟨h1', l', h2', h3'⟩ := h'
  refine ⟨h1.trans h1', l' ++ l, by rw [h2', h2, List.append_assoc], fun i hi => ?_⟩
  rw [h3' i (hi.trans_le h1), h3 i hi, List.count_append, Function.iterate_add_apply]

theorem Keeps.trans (h : Keeps R R') (h' : Keeps R' R'') : Keeps R R'' := fun ht =>
  ⟨(h' (h ht).1).1, (h ht).2.trans (h' (h ht).1).2⟩

/-! ### What leaves the table alone -/

/-- The events that retire no slot. -/
def Ev.noRetire : Ev → Bool
  | .retire _ => false
  | _ => true

/-- No slot was handed out or retired. -/
structure Still (R R' : GtRuntime Io) : Prop where
  cslots : R'.cslots = R.cslots
  nslots : R'.nslots = R.nslots
  idx : ∀ i, (R'.slots i).idx = (R.slots i).idx
  gen : ∀ i, (R'.slots i).gen = (R.slots i).gen
  log : ∃ l, R'.log = l ++ R.log ∧ ∀ e ∈ l, e.noRetire

theorem Still.refl (R : GtRuntime Io) : Still R R := ⟨rfl, rfl, fun _ => rfl, fun _ => rfl, [], rfl, by simp⟩

theorem Still.trans (h : Still R R') (h' : Still R' R'') : Still R R'' := by
  obtain ⟨h1, h2, h3, h4, l, h5, h6⟩ := h
  obtain ⟨h1', h2', h3', h4', l', h5', h6'⟩ := h'
  refine ⟨h1'.trans h1, h2'.trans h2, fun i => (h3' i).trans (h3 i), fun i => (h4' i).trans (h4 i), l' ++ l,
    by rw [h5', h5, List.append_assoc], fun e he => ?_⟩
  rcases List.mem_append.1 he with he | he
  · exact h6' e he
  · exact h6 e he

theorem Still.keeps (h : Still R R') : Keeps R R' := by
  obtain ⟨h1, h2, h3, h4, l, h5, h6⟩ := h
  intro ht
  refine ⟨⟨by rw [h1]; exact ht.size, by rw [h1, h2]; exact ht.nslots_le, ?_, ?_⟩, h2.ge, l, h5, fun i _ => ?_⟩
  · simpa only [h2, h3] using ht.idx
  · simpa only [h2, h4] using ht.gen
  · have : l.count (.retire i) = 0 := List.count_eq_zero.2 fun hm => by simpa [Ev.noRetire] using h6 _ hm
    rw [this, h4]
    rfl

theorem Keeps.refl (R : GtRuntime Io) : Keeps R R := (Still.refl R).keeps

/-- Writing to a block's other fields. -/
theorem Still.modify {g : GtTask → GtTask} {t : Nat} (hi : ∀ s, (g s).idx = s.idx) (hg : ∀ s, (g s).gen = s.gen) :
    Still R (R.modify t g) := by
  refine ⟨rfl, rfl, fun i => ?_, fun i => ?_, [], rfl, by simp⟩
  all_goals simp only [GtRuntime.modify, Function.update_apply]
  all_goals split
  · subst i; exact hi _
  · rfl
  · subst i; exact hg _
  · rfl

theorem Still.note {e : Ev} (he : e.noRetire) : Still R (R.note e) :=
  ⟨rfl, rfl, fun _ => rfl, fun _ => rfl, [e], rfl, by simpa using he⟩

private theorem Still.then_modify {g : GtTask → GtTask} {t : Nat} (h : Still R R') (hi : ∀ s, (g s).idx = s.idx)
    (hg : ∀ s, (g s).gen = s.gen) : Still R (R'.modify t g) := h.trans (.modify hi hg)

private theorem Still.then_note {e : Ev} (h : Still R R') (he : e.noRetire) : Still R (R'.note e) :=
  h.trans (.note he)

/-- Only other fields of the runtime differ. -/
theorem Still.of_eq (hc : R'.cslots = R.cslots) (hn : R'.nslots = R.nslots) (hs : R'.slots = R.slots)
    (hl : R'.log = R.log) : Still R R' :=
  ⟨hc, hn, fun i => by rw [hs], fun i => by rw [hs], [], by rw [hl]; rfl, by simp⟩

theorem Quiet.still (h : Quiet R R') : Still R R' := by
  obtain ⟨l, hl, hm⟩ := h.log
  refine ⟨h.cslots, h.nslots, fun i => (h.slots i).idx, fun i => (h.slots i).gen, l, hl, fun e he => ?_⟩
  have := hm e he
  cases e <;> first | rfl | cases this

/-! ### Slots -/

private theorem nextGen_bounds (g : Nat) : 1 ≤ nextGen g ∧ nextGen g ≤ gtGenMask := by
  unfold nextGen
  split
  · exact ⟨Nat.le_refl 1, by decide⟩
  · exact ⟨by omega, Nat.and_le_right⟩

private theorem gtSlotFree_keeps (R : GtRuntime Io) (t : Nat) : Keeps R (gtSlotFree R t) := by
  intro ht
  have hgen : ∀ i, ((gtSlotFree R t).slots i).gen = if i = t then nextGen (R.slots i).gen else (R.slots i).gen := by
    intro i
    simp only [gtSlotFree, GtRuntime.modify, GtRuntime.note, Function.update_apply]
    split
    · subst i; rfl
    · rfl
  refine ⟨⟨ht.size, ht.nslots_le, fun i hi => ?_, fun i hi => ?_⟩, Nat.le_refl _, [.retire t], rfl, fun i _ => ?_⟩
  · have := ht.idx i hi
    simp only [gtSlotFree, GtRuntime.modify, GtRuntime.note, Function.update_apply]
    split
    · subst i; exact this
    · exact this
  · rw [hgen]
    split
    · exact nextGen_bounds _
    · exact ht.gen i hi
  · rw [hgen]
    by_cases hit : i = t
    · subst hit; simp
    · simp [hit, Ne.symm hit]

private theorem gtSlotReuse_keeps (R : GtRuntime Io) (t : Nat) : Keeps R (gtSlotReuse R t) := by
  intro ht
  have hslots : ∀ i < R.nslots, ((gtSlotReuse R t).slots i).idx = (R.slots i).idx ∧
      ((gtSlotReuse R t).slots i).gen = (R.slots i).gen := by
    intro i hi
    simp only [gtSlotReuse, GtRuntime.modify, GtRuntime.note, Function.update_apply]
    split
    · subst i
      have : (R.slots t).gen ≠ 0 := by have := (ht.gen t hi).1; omega
      simp [this]
    · exact ⟨rfl, rfl⟩
  refine ⟨⟨ht.size, ht.nslots_le, fun i hi => ?_, fun i hi => ?_⟩, Nat.le_refl _, [.alloc t], rfl, fun i hi => ?_⟩
  · rw [(hslots i hi).1]
    exact ht.idx i hi
  · rw [(hslots i hi).2]
    exact ht.gen i hi
  · simpa using (hslots i hi).2

theorem gtSlotsGrow_table {ok : Bool} (ht : Table R) (h : gtSlotsGrow R ok = some R') :
    Table R' ∧ R'.nslots < R'.cslots ∧ R' = { R with cslots := R'.cslots } := by
  obtain ⟨k, hk, hc⟩ := ht.size
  have hpos : 0 < 2 ^ k := Nat.two_pow_pos k
  have hc19 := ht.cslots_le
  have hn := ht.nslots_le
  have hmod : R.cslots * 2 % 2 ^ 32 = 64 * 2 ^ (k + 1) := by
    rw [Nat.mod_eq_of_lt (by omega), hc, Nat.pow_succ]
    omega
  unfold gtSlotsGrow at h
  rw [if_pos (show R.cslots ≠ 0 by omega), hmod] at h
  by_cases hfull : R.nslots = R.cslots
  · rw [if_pos hfull] at h
    dsimp only at h
    by_cases hmax : 64 * 2 ^ (k + 1) > gtIdxMask
    · rw [if_pos hmax] at h
      cases h
    · rw [if_neg hmax] at h
      cases ok with
      | false => cases h
      | true =>
        cases h
        have hk' : k + 1 ≤ 13 := by
          by_contra hk'
          have : 2 ^ 14 ≤ 2 ^ (k + 1) := Nat.pow_le_pow_right (by omega) (by omega)
          simp only [gtIdxMask] at hmax
          omega
        refine ⟨⟨⟨k + 1, hk', rfl⟩, ?_, ht.idx, ht.gen⟩, ?_, rfl⟩
        all_goals simp only [Nat.pow_succ]
        all_goals omega
  · rw [if_neg hfull] at h
    cases h
    exact ⟨ht, by omega, rfl⟩

private theorem gtSlotsGrow_keeps {ok : Bool} (h : gtSlotsGrow R ok = some R') : Keeps R R' := by
  intro ht
  obtain ⟨ht', -, heq⟩ := gtSlotsGrow_table ht h
  rw [heq] at ht' ⊢
  exact ⟨ht', Nat.le_refl _, [], rfl, fun _ _ => rfl⟩

private theorem gtSlotFresh_keeps (R : GtRuntime Io) (hroom : Table R → R.nslots < R.cslots) :
    Keeps R (gtSlotFresh R) := by
  intro ht
  have hroom := hroom ht
  have hc := ht.cslots_le
  have hn : (gtSlotFresh R).nslots = R.nslots + 1 :=
    incr_of_lt (show R.nslots + 1 < 2 ^ 32 by omega)
  have hslots : ∀ i, (gtSlotFresh R).slots i =
      if i = R.nslots then { GtTask.zero with idx := R.nslots, gen := 1 } else R.slots i := by
    intro i
    simp only [gtSlotFresh, GtRuntime.modify, GtRuntime.note, Function.update_apply]
  refine ⟨⟨ht.size, ?_, fun i hi => ?_, fun i hi => ?_⟩, by omega, [.alloc R.nslots], rfl, fun i hi => ?_⟩
  · rw [hn]; exact hroom
  · rw [hslots]
    split
    · subst i; rfl
    · exact ht.idx i (by omega)
  · rw [hslots]
    split
    · exact ⟨Nat.le_refl 1, show 1 ≤ gtGenMask by decide⟩
    · exact ht.gen i (by omega)
  · rw [hslots, if_neg (by omega)]
    rfl

private theorem gtSlotAlloc_keeps (R : GtRuntime Io) (o : SpawnAnswer) : Keeps R (gtSlotAlloc R o).2 := by
  unfold gtSlotAlloc
  cases R.freeSlots with
  | some t => exact gtSlotReuse_keeps R t
  | none =>
    cases hg : gtSlotsGrow R o.realloc with
    | none => exact Keeps.refl R
    | some R' =>
      dsimp only
      split
      · intro ht
        have hroom := (gtSlotsGrow_table ht hg).2.1
        exact ((gtSlotsGrow_keeps hg).trans (gtSlotFresh_keeps R' fun _ => hroom)) ht
      · exact gtSlotsGrow_keeps hg

/-! ### The scheduler's parts -/

private theorem gtRqPush_still (R : GtRuntime Io) (t : Nat) : Still R (gtRqPush R t) := by
  rw [gtRqPush_eq]
  exact ⟨rfl, rfl, fun _ => rfl, fun _ => rfl, [], rfl, by simp⟩

private theorem gtRqPop_still (R : GtRuntime Io) : Still R (gtRqPop R).2 := by
  unfold gtRqPop
  cases R.rqHead with
  | none => exact .refl R
  | some t =>
    dsimp only
    split
    all_goals refine Still.then_modify ?_ (fun _ => rfl) fun _ => rfl
    all_goals exact .of_eq rfl rfl rfl rfl

private theorem gtRqRemoveFrom_still {t n : Nat} {prev cur : Option Nat}
    (h : gtRqRemoveFrom R t n prev cur = some R') : Still R R' := by
  induction n generalizing prev cur with
  | zero => cases h
  | succ n ih =>
    cases cur with
    | none => cases h
    | some cur =>
      unfold gtRqRemoveFrom at h
      split at h
      · exact ih h
      · cases h
        refine Still.then_modify ?_ (fun _ => rfl) fun _ => rfl
        cases prev with
        | none =>
          dsimp only
          split <;> exact .of_eq rfl rfl rfl rfl
        | some p =>
          have hp : Still R (R.modify p fun s => { s with next := (R.slots cur).next }) :=
            .modify (fun _ => rfl) fun _ => rfl
          dsimp only
          split
          · exact hp.trans (.of_eq rfl rfl rfl rfl)
          · exact hp

private theorem gtReapStacks_still (R : GtRuntime Io) (z : Nat) : Still R (gtReapStacks R z) := by
  unfold gtReapStacks
  refine Still.then_modify (Still.trans ?_ (gtStackFree_quiet _ _ _).still) (fun _ => rfl) fun _ => rfl
  refine Still.then_modify (Still.trans ?_ (gtStackFree_quiet _ _ _).still) (fun _ => rfl) fun _ => rfl
  exact .modify (fun _ => rfl) fun _ => rfl

private theorem gtReapFrom_keeps (n : Nat) (z : Option Nat) (R : GtRuntime Io) : Keeps R (gtReapFrom n z R) := by
  induction n generalizing z R with
  | zero => cases z <;> exact Keeps.refl R
  | succ n ih =>
    cases z with
    | none => exact Keeps.refl R
    | some z =>
      refine (gtReapStacks_still R z).keeps.trans ?_
      unfold gtReapFrom
      dsimp only
      split
      · exact (gtSlotFree_keeps _ _).trans (ih _ _)
      · exact ih _ _

private theorem gtReap_keeps (R : GtRuntime Io) : Keeps R (gtReap R) := by
  have h : Still R { R with zombies := none } := .of_eq rfl rfl rfl rfl
  exact h.keeps.trans (gtReapFrom_keeps _ _ _)

private theorem gtWakeFrom_still (t n : Nat) (w : Option Nat) (R : GtRuntime Io) : Still R (gtWakeFrom t n w R) := by
  induction n generalizing w R with
  | zero => cases w <;> exact Still.refl R
  | succ n ih =>
    cases w with
    | none => exact Still.refl R
    | some w =>
      unfold gtWakeFrom
      dsimp only
      refine Still.trans (Still.then_note (Still.trans ?_ (gtRqPush_still _ _)) rfl) (ih _ _)
      exact .modify (fun _ => rfl) fun _ => rfl

private theorem gtDeliver_still (R : GtRuntime Io) (c : Completion) : Still R (gtDeliver R c) := by
  unfold gtDeliver
  cases c.task with
  | none => exact .of_eq rfl rfl rfl rfl
  | some t =>
    have h : Still R (R.modify t fun s => { s with ioRes := c.res }) := .modify (fun _ => rfl) fun _ => rfl
    have h' := (h.then_note (e := .taken t c.op (R.slots t).state) rfl).trans (gtRqPush_still _ t)
    exact h'.trans (.of_eq rfl rfl rfl rfl)

private theorem gtIoPoll_still [IoBackend Io] (R : GtRuntime Io) (wait : Wait) : Still R (gtIoPoll R wait) := by
  have hfold (l : List Completion) (R : GtRuntime Io) : Still R (l.foldl gtDeliver R) := by
    induction l generalizing R with
    | nil => exact Still.refl R
    | cons c l ih => exact (gtDeliver_still R c).trans (ih _)
  have hio : Still R { R with io := (IoBackend.collect wait R.io).2 } := .of_eq rfl rfl rfl rfl
  unfold gtIoPoll
  split
  · exact .refl R
  · exact hio.trans (hfold (IoBackend.collect wait R.io).1 _)

private theorem gtIoPollNow_still [IoBackend Io] (R : GtRuntime Io) : Still R (gtIoPollNow R) := by
  unfold gtIoPollNow
  split
  · exact gtIoPoll_still R .now
  · exact .refl R

private theorem gtLockWaitAdd_still (R : GtRuntime Io) (w : Nat) : Still R (gtLockWaitAdd R w) := by
  unfold gtLockWaitAdd
  split <;> exact .of_eq rfl rfl rfl rfl

private theorem gtLockWaitRemove_still (R : GtRuntime Io) (w : Nat) : Still R (gtLockWaitRemove R w) := by
  unfold gtLockWaitRemove
  split
  · exact .refl R
  · split <;> exact .of_eq rfl rfl rfl rfl

private theorem gtLockReleasedFrom_still {lock n t : Nat} {e : Option Nat}
    (h : gtLockReleasedFrom R lock n e = some (t, R')) : Still R R' := by
  induction n generalizing e with
  | zero => cases e <;> cases h
  | succ n ih =>
    cases e with
    | none => cases h
    | some e =>
      unfold gtLockReleasedFrom at h
      dsimp only at h
      cases htask : (R.lockWaiter e).task with
      | none => exact ih (by simpa only [htask] using h)
      | some u =>
        simp only [htask] at h
        split at h
        · exact ih h
        · cases hrm : gtRqRemove R u with
          | none => exact ih (by simpa only [hrm] using h)
          | some R₁ =>
            simp only [hrm, Option.some.injEq, Prod.mk.injEq] at h
            obtain ⟨-, rfl⟩ := h
            exact gtRqRemoveFrom_still hrm

/-! ### The machine -/

private theorem gtLockUntilEnd_still (R : GtRuntime Io) (c : LockCall) (err : Int) :
    Still R (gtLockUntilEnd R c err).rt := by
  have hend : Still R (if c.queued then gtLockWaitRemove R R.current else R) := by
    split
    · exact gtLockWaitRemove_still _ _
    · exact .refl R
  unfold gtLockUntilEnd
  cases c.use with
  | call => exact hend
  | cond k =>
    dsimp only
    split <;> exact hend

private theorem gtLockUntil_still (R : GtRuntime Io) (lock : Nat) (clock : Int) (deadline : Option Timespec)
    (use : LockUse) : Still R (gtLockUntil R lock clock deadline use).rt := .of_eq rfl rfl rfl rfl

private theorem gtAwaitEnd_keeps (R : GtRuntime Io) (w t : Nat) : Keeps R (gtAwaitEnd R w t).rt := by
  have hnote : Still R (R.note (.collected w t)) := .note rfl
  refine hnote.keeps.trans ?_
  unfold gtAwaitEnd toCode
  dsimp only
  split
  · exact gtSlotFree_keeps _ _
  · exact Keeps.refl _

private theorem gtBodyStart_still (R : GtRuntime Io) : Still R (gtBodyStart R).rt := by
  have hnote : Still R (R.note (.started R.current)) := .note rfl
  refine hnote.trans ?_
  unfold gtBodyStart toCode noteCalled
  dsimp only
  split
  · exact .refl _
  · exact .note rfl

private theorem gtResume_keeps (R : GtRuntime Io) (f : Resume) : Keeps R (gtResume R f).rt := by
  cases f with
  | entry => exact (gtBodyStart_still R).keeps
  | joined t =>
    have h : Still R (R.modify t fun s => { s with njoiners := decr 32 s.njoiners }) :=
      .modify (fun _ => rfl) fun _ => rfl
    exact (h.then_note (e := .resumed R.current t) rfl).keeps.trans (gtAwaitEnd_keeps _ _ _)
  | condStepped k => exact (gtLockUntil_still ..).keeps
  | released k => cases k <;> exact Keeps.refl R
  | _ => exact Keeps.refl R

private theorem gtContextSwitch_keeps (R : GtRuntime Io) (self : Nat) (f : Resume) (next : Nat) :
    Keeps R (gtContextSwitch R self f next).rt := by
  have h : Still R (R.modify self fun s => { s with sp := some f }) := .modify (fun _ => rfl) fun _ => rfl
  refine h.keeps.trans ?_
  unfold gtContextSwitch
  dsimp only
  split
  · exact Keeps.refl _
  · exact Keeps.refl _
  · split
    · exact (gtReap_keeps _).trans (gtResume_keeps _ _)
    · exact gtResume_keeps _ _

private theorem gtSwitchTo_keeps (R : GtRuntime Io) (f : Resume) (next : Nat) : Keeps R (gtSwitchTo R f next).rt := by
  unfold gtSwitchTo
  dsimp only
  split
  · have h : Still R (R.modify R.current fun s => { s with state := .running }) := .modify (fun _ => rfl) fun _ => rfl
    exact h.keeps.trans (gtResume_keeps _ _)
  · have h₁ : Still R { R with current := next } := .of_eq rfl rfl rfl rfl
    have h₂ := h₁.then_modify (t := next) (g := fun s => { s with state := .running }) (fun _ => rfl) fun _ => rfl
    have h₃ := h₂.then_modify (t := R.current) (g := fun s => { s with usp := R.usp }) (fun _ => rfl) fun _ => rfl
    refine Keeps.trans ?_ (gtContextSwitch_keeps _ _ _ _)
    refine (h₃.trans ?_).keeps
    exact .of_eq rfl rfl rfl rfl

private theorem gtTaskRunSwitch_keeps (R : GtRuntime Io) (next : Nat) : Keeps R (gtTaskRunSwitch R next).rt := by
  have h₁ : Still R { R with current := next } := .of_eq rfl rfl rfl rfl
  have h₂ := h₁.then_modify (t := next) (g := fun s => { s with state := .running }) (fun _ => rfl) fun _ => rfl
  refine Keeps.trans ?_ (gtContextSwitch_keeps _ _ _ _)
  refine (h₂.trans ?_).keeps
  exact .of_eq rfl rfl rfl rfl

private theorem gtGiveWay_keeps (R : GtRuntime Io) (f : Resume) (t : Nat) : Keeps R (gtGiveWay R f t).rt :=
  (gtRqPush_still _ _).keeps.trans (gtSwitchTo_keeps _ _ _)

private theorem gtPick_keeps [IoBackend Io] (R : GtRuntime Io) (f : Resume) : Keeps R (gtPick R f).rt := by
  have h := (gtIoPollNow_still R).trans (gtRqPop_still _)
  unfold gtPick
  dsimp only
  split
  · rename_i t R' heq
    rw [heq] at h
    split
    · exact h.keeps.trans (gtTaskRunSwitch_keeps _ _)
    · exact h.keeps.trans (gtSwitchTo_keeps _ _ _)
  · rename_i R' heq
    rw [heq] at h
    split <;> exact h.keeps

private theorem gtYield_keeps [IoBackend Io] (R : GtRuntime Io) : Keeps R (gtYield R).rt := by
  have h := (gtIoPollNow_still R).trans (gtRqPop_still _)
  unfold gtYield
  dsimp only
  split
  · rename_i R' heq
    rw [heq] at h
    exact h.keeps
  · rename_i next R' heq
    rw [heq] at h
    exact h.keeps.trans (gtGiveWay_keeps _ _ _)

private theorem gtSpawnReady_still (R : GtRuntime Io) (t : Nat) (body : SppcClosure) (size stack : Nat)
    (ustack : Option Nat) : Still R (gtSpawnReady R t body size stack ustack).1 := by
  unfold gtSpawnReady
  refine Still.then_note (Still.trans ?_ (gtRqPush_still _ _)) rfl
  exact .modify (fun _ => rfl) fun _ => rfl

theorem gtSpawn_keeps (R : GtRuntime Io) (body : SppcClosure) (o : SpawnAnswer) :
    Keeps R (gtSpawn R body o).1 := by
  have halloc := gtSlotAlloc_keeps R o
  unfold gtSpawn
  split
  · rename_i R₁ heq
    rw [heq] at halloc
    exact halloc
  · rename_i t R₁ heq
    rw [heq] at halloc
    refine halloc.trans ?_
    have hstack := (gtStackAlloc_quiet R₁ R₁.stackSize o.stack).still
    dsimp only
    split
    · rename_i R₂ heq₂
      rw [heq₂] at hstack
      exact hstack.keeps.trans (gtSlotFree_keeps _ _)
    · rename_i stack R₂ heq₂
      rw [heq₂] at hstack
      refine hstack.keeps.trans ?_
      have hu := (gtStackAlloc_quiet R₂ R₁.stackSize o.ustack).still
      split
      · split
        · rename_i R₃ heq₃
          rw [heq₃] at hu
          exact (hu.trans (gtStackFree_quiet _ _ _).still).keeps.trans (gtSlotFree_keeps _ _)
        · rename_i ustack R₃ heq₃
          rw [heq₃] at hu
          exact (hu.trans (gtSpawnReady_still _ _ _ _ _ _)).keeps
      · exact (gtSpawnReady_still _ _ _ _ _ _).keeps

private theorem sppcEnvFree_still (R : GtRuntime Io) (env : Option SppcClosureEnv) : Still R (sppcEnvFree R env) := by
  cases env with
  | none => exact .refl R
  | some e => exact .note rfl

private theorem sppcClosureDiscard_still (R : GtRuntime Io) (body : SppcClosure) :
    Still R (sppcClosureDiscard R body) := by
  unfold sppcClosureDiscard
  cases body.env with
  | none => exact .refl R
  | some e =>
    have hdrop : Still R (if e.dropCaptures then R.note (.dropped e.id) else R) := by
      split
      · exact .note rfl
      · exact .refl R
    dsimp only
    split
    · exact hdrop.trans (sppcEnvFree_still _ _)
    · exact hdrop

private theorem sppcAsync_keeps (R : GtRuntime Io) (body : SppcClosure) (o : SpawnAnswer) :
    Keeps R (sppcAsync R body o).1 := by
  have hgiven : Still R (giveClosure R body) := by
    unfold giveClosure
    split
    · exact .refl R
    · exact .note rfl
  have hspawn := hgiven.keeps.trans (gtSpawn_keeps (giveClosure R body) body o)
  unfold sppcAsync
  split
  · rename_i R₂ err heq
    rw [heq] at hspawn
    exact hspawn.trans (sppcClosureDiscard_still _ _).keeps
  · rename_i R₂ handle heq
    rw [heq] at hspawn
    exact hspawn

private theorem gtBlock_still (R : GtRuntime Io) (state : GtState) (f : Resume) : Still R (gtBlock R state f).rt := by
  unfold gtBlock
  dsimp only
  exact .modify (fun _ => rfl) fun _ => rfl

private theorem gtAwait_keeps (R : GtRuntime Io) (handle : Int) : Keeps R (gtAwait R handle).rt := by
  unfold gtAwait
  split
  · exact Keeps.refl R
  · rename_i t _
    split
    · exact Keeps.refl R
    · split
      · exact Keeps.refl R
      · split
        · refine (Still.trans ?_ (gtBlock_still _ _ _)).keeps
          refine Still.then_note ?_ rfl
          refine Still.then_modify (Still.then_modify ?_ (fun _ => rfl) fun _ => rfl) (fun _ => rfl) fun _ => rfl
          exact .modify (fun _ => rfl) fun _ => rfl
        · have h : Still R (R.note (.late R.current t)) := .note rfl
          exact h.keeps.trans (gtAwaitEnd_keeps _ _ _)

private theorem gtDetach_keeps (R : GtRuntime Io) (handle : Int) : Keeps R (gtDetach R handle).rt := by
  unfold gtDetach
  split
  · exact Keeps.refl R
  · rename_i t _
    split
    · exact Keeps.refl R
    · split
      · exact Keeps.refl R
      · have h : Still R (R.modify t fun s => { s with detached := true }) := .modify (fun _ => rfl) fun _ => rfl
        refine (h.then_note (e := .detached t) rfl).keeps.trans ?_
        unfold toCode
        dsimp only
        split
        · exact gtSlotFree_keeps _ _
        · exact Keeps.refl _

private theorem gtTaskRunEnd_still (R : GtRuntime Io) : Still R (gtTaskRunEnd R).rt := by
  have hset {R' : GtRuntime Io} {z : Option Nat} (h : Still R R') : Still R { R' with zombies := z } :=
    h.trans (.of_eq rfl rfl rfl rfl)
  unfold gtTaskRunEnd
  refine hset (Still.then_modify (Still.trans ?_ (gtWakeFrom_still _ _ _ _)) (fun _ => rfl) fun _ => rfl)
  refine Still.then_modify ?_ (fun _ => rfl) fun _ => rfl
  unfold gtBodyEnd
  refine Still.then_modify (Still.then_modify (Still.trans ?_ (sppcEnvFree_still _ _)) ?_ ?_) ?_ ?_
  · exact .note rfl
  all_goals exact fun _ => rfl

private theorem gtIoCall_still [IoBackend Io] (R : GtRuntime Io) (req : IoBackend.Req Io) :
    Still R (gtIoCall R req).rt := by
  have hset (io : Io) (n : Nat) : Still R { R with io := io, inflight := n } := .of_eq rfl rfl rfl rfl
  unfold gtIoCall
  split
  · exact .refl R
  · split
    · exact .refl R
    · exact (hset _ _).then_note rfl
    · exact ((hset _ _).then_note rfl).trans (gtBlock_still _ _ _)

private theorem gtStep_keeps (R : GtRuntime Io) (f : Resume) (poll : Ctl) : Keeps R (gtStep R f poll).rt := by
  have h := gtRqPop_still R
  unfold gtStep
  split
  · rename_i next R' heq
    rw [heq] at h
    exact h.keeps.trans (gtGiveWay_keeps _ _ _)
  · rename_i R' heq
    rw [heq] at h
    exact h.keeps

private theorem gtLockTurn_keeps [IoBackend Io] (R : GtRuntime Io) (c : LockCall) (err : Int) (now : Timespec) :
    Keeps R (gtLockTurn R c err now).rt := by
  unfold gtLockTurn
  split
  · exact (gtLockUntilEnd_still R c err).keeps
  · refine (gtIoPollNow_still R).keeps.trans ?_
    generalize gtIoPollNow R = R₁
    dsimp only
    split
    · exact Keeps.refl _
    · split
      · exact (gtLockUntilEnd_still _ _ _).keeps
      · refine Keeps.trans (Still.keeps ?_) (gtStep_keeps _ _ _)
        split
        · exact .refl _
        · refine Still.then_note (Still.trans ?_ (gtLockWaitAdd_still _ _)) rfl
          exact .of_eq rfl rfl rfl rfl

private theorem gtLockReleased_keeps (R : GtRuntime Io) (lock : Nat) (f : Resume) :
    Keeps R (gtLockReleased R lock f).rt := by
  unfold gtLockReleased
  cases h : gtLockReleasedFrom R lock (loopBound R) R.lockWaiters with
  | none => exact gtResume_keeps R f
  | some p => exact (gtLockReleasedFrom_still h).keeps.trans (gtGiveWay_keeps _ _ _)

private theorem gtUnlock_keeps (R : GtRuntime Io) (lock : Nat) (err : Int) : Keeps R (gtUnlock R lock err).rt := by
  unfold gtUnlock
  split
  · exact gtLockReleased_keeps _ _ _
  · exact Keeps.refl R

private theorem gtCondWaitUntil_keeps [IoBackend Io] (R : GtRuntime Io) (k : CondWait) (err : Int) :
    Keeps R (gtCondWaitUntil R k err).rt := by
  refine (gtIoPollNow_still R).keeps.trans ?_
  unfold gtCondWaitUntil
  dsimp only
  split
  · exact Keeps.refl _
  · split
    · exact gtLockReleased_keeps _ _ _
    · exact Keeps.refl _

private theorem gtCondReleased_keeps [IoBackend Io] (R : GtRuntime Io) (k : CondWait) :
    Keeps R (gtCondReleased R k).rt := by
  refine (gtIoPollNow_still R).keeps.trans ?_
  unfold gtCondReleased
  dsimp only
  split
  · exact gtStep_keeps _ _ _
  · exact (gtLockUntil_still ..).keeps

private theorem gtDrain_keeps [IoBackend Io] (R : GtRuntime Io) : Keeps R (gtDrain R).rt := by
  have hreap : Keeps R (if R.zombies ≠ none then gtReap R else R) := by
    split
    · exact gtReap_keeps R
    · exact Keeps.refl R
  have h := gtRqPop_still R
  unfold gtDrain
  split
  · split
    · refine hreap.trans (Still.keeps ?_)
      exact .of_eq rfl rfl rfl rfl
    · exact Keeps.refl R
  · split
    · rename_i R' heq
      rw [heq] at h
      exact h.keeps
    · rename_i next R' heq
      rw [heq] at h
      exact h.keeps.trans (gtGiveWay_keeps _ _ _)

theorem gtTeardownStacks_quiet (live : Option Nat) (R : GtRuntime Io) (t : GtTask) :
    Quiet R (gtTeardownStacks live R t) := by
  have hstack (u : Nat) : Quiet R (if some u ≠ live then gtStackUnmap R u t.stackSize else R) := by
    split
    · exact gtStackUnmap_quiet _ _ _
    · exact .refl R
  unfold gtTeardownStacks
  cases t.ustack with
  | none =>
    cases t.stack with
    | none => exact .refl R
    | some u => exact hstack u
  | some u =>
    refine Quiet.trans ?_ (gtStackUnmap_quiet _ u t.ustackSize)
    cases t.stack with
    | none => exact .refl R
    | some u => exact hstack u

private theorem gtTeardownSlot_still (live : Option Nat) (R : GtRuntime Io) (i : Nat) :
    Still R (gtTeardownSlot live R i) := by
  have h := (gtTeardownStacks_quiet live R (R.slots i)).still
  unfold gtTeardownSlot
  dsimp only
  split
  · exact h.trans (sppcEnvFree_still _ _)
  · exact h

private theorem gtTeardown_keeps [IoBackend Io] (R : GtRuntime Io) : Keeps R (gtTeardown R).rt := by
  have hfold (l : List Nat) (live : Option Nat) (R : GtRuntime Io) : Still R (l.foldl (gtTeardownSlot live) R) := by
    induction l generalizing R with
    | nil => exact .refl R
    | cons i l ih => exact (gtTeardownSlot_still live R i).trans (ih _)
  have hio : Still R { R with io := IoBackend.teardown R.io, inflight := 0 } := .of_eq rfl rfl rfl rfl
  refine hio.keeps.trans ?_
  unfold gtTeardown
  dsimp only
  refine Keeps.trans ?_ ((hfold _ _ _).trans (gtStackFlush_quiet _ _).still).keeps
  split
  · exact gtReap_keeps _
  · exact Keeps.refl _

/-- Every step keeps the table. -/
theorem step_keeps [IoBackend Io] {s s' : Machine Io} {e : Event Io} (h : step s e = some s') : Keeps s.rt s'.rt := by
  cases e with
  | async body o =>
    have ha := sppcAsync_keeps s.rt body o
    simp only [step] at h
    split at h
    · split at h
      all_goals
        rename_i R₁ _ heq
        rw [heq] at ha
        cases h
        exact ha
    · cases h
  | yield =>
    simp only [step] at h
    split at h <;> cases h
    exact gtYield_keeps _
  | await handle =>
    simp only [step] at h
    split at h <;> cases h
    exact gtAwait_keeps _ _
  | detach handle =>
    simp only [step] at h
    split at h <;> cases h
    exact gtDetach_keeps _ _
  | io req =>
    simp only [step] at h
    split at h <;> cases h
    exact (gtIoCall_still _ _).keeps
  | finish =>
    simp only [step] at h
    split at h <;> cases h
    exact (gtTaskRunEnd_still _).keeps
  | turn =>
    simp only [step] at h
    split at h <;> cases h
    · exact gtPick_keeps _ _
    · exact gtDrain_keeps _
  | poll =>
    simp only [step] at h
    split at h <;> cases h
    · exact (gtIoPoll_still _ _).keeps
    · exact (gtIoPoll_still _ _).keeps
    · exact ((gtIoPoll_still _ _).trans (gtLockUntil_still ..)).keeps
    · exact (gtIoPoll_still _ _).keeps
  | lock lock clock deadline =>
    simp only [step] at h
    split at h <;> cases h
    exact (gtLockUntil_still ..).keeps
  | tried err now =>
    simp only [step] at h
    split at h <;> cases h
    exact gtLockTurn_keeps _ _ _ _
  | answered err =>
    simp only [step] at h
    split at h <;> cases h
    · exact (gtLockUntilEnd_still _ _ _).keeps
    · exact Keeps.refl _
  | unlock lock err =>
    simp only [step] at h
    split at h <;> cases h
    exact gtUnlock_keeps _ _ _
  | condWait k err =>
    simp only [step] at h
    split at h <;> cases h
    exact gtCondWaitUntil_keeps _ _ _
  | condGo now =>
    simp only [step] at h
    split at h <;> cases h
    · exact gtCondReleased_keeps _ _
    · exact Keeps.refl _
  | drain =>
    simp only [step] at h
    split at h <;> cases h
    exact Keeps.refl _
  | setStackSize bytes =>
    simp only [step] at h
    split at h <;> cases h
    exact (gtSetStackSize_quiet _ _).still.keeps
  | setGuardPages enabled =>
    simp only [step] at h
    split at h <;> cases h
    exact (gtSetGuardPages_quiet _ _).still.keeps
  | exit =>
    simp only [step] at h
    split at h <;> cases h
    exact gtTeardown_keeps _
  | kernel e =>
    simp only [step] at h
    split at h
    · cases h
    · split at h <;> cases h
      refine Still.keeps ?_
      exact .of_eq rfl rfl rfl rfl

/-- The table at the start. -/
theorem gtInit_table (io : Io) (page : Nat) (unsafeStackWanted : Bool) :
    Table (gtInit io page unsafeStackWanted).rt := by
  have hn : (gtInit io page unsafeStackWanted).rt.nslots = 1 := rfl
  have hc : (gtInit io page unsafeStackWanted).rt.cslots = 64 := rfl
  refine ⟨⟨0, by omega, rfl⟩, by omega, fun i hi => ?_, fun i hi => ?_⟩
  all_goals
    obtain rfl : i = 0 := by omega
  · rfl
  · exact ⟨Nat.le_refl 1, show 1 ≤ gtGenMask by decide⟩

/-- A run keeps the table. -/
theorem run_keeps [IoBackend Io] {s s' : Machine Io} (h : Transition.Reach step s s') : Keeps s.rt s'.rt :=
  h.induct (P := fun t => Keeps t.rt s'.rt) (Keeps.refl _) fun _ _ _ ht _ ih => (step_keeps ht).trans ih

/-- The table in every run. -/
theorem Reachable.table [IoBackend Io] {s : Machine Io} (h : Reachable s) : Table s.rt := by
  obtain ⟨io, page, unsafeStackWanted, -, hs⟩ := h
  exact (run_keeps hs (gtInit_table io page unsafeStackWanted)).1

end Sppc
