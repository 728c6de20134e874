import Sppc.Slots
import Sppc.Table

/-!
# Where a task goes on

Only a switch writes a saved stack pointer, that of the task it switches away, and a spawn that of its new task.  So a
task that is switched away stays at its place until it is switched to, and then goes on there.
-/

namespace Sppc

variable {Io : Type} {R R' R'' : GtRuntime Io} {m : Machine Io} {t : Nat} {f : Resume}

/-- The same task runs, and every other one is where it was. -/
structure SamePlaces (R R' : GtRuntime Io) : Prop where
  current : R'.current = R.current
  sp : ∀ i ≠ R.current, (R'.slots i).sp = (R.slots i).sp

/-- The backend is left alone, too. -/
structure Internal (R R' : GtRuntime Io) : Prop extends SamePlaces R R' where
  io : R'.io = R.io

/-- From `R` the same task goes on, or there is one switch. -/
inductive Leads (R : GtRuntime Io) : Machine Io → Prop
  | stays {m : Machine Io} (h : Internal R m.rt) : Leads R m
  | switches {R' : GtRuntime Io} {f : Resume} (hne : R'.current ≠ R.current)
      (hsp : ∀ i ≠ R.current, (R'.slots i).sp = (R.slots i).sp) (hio : R'.io = R.io) :
      Leads R (gtContextSwitch R' R.current f R'.current)

/-! ### What moves nobody -/

theorem SamePlaces.trans (h : SamePlaces R R') (h' : SamePlaces R' R'') : SamePlaces R R'' :=
  ⟨h'.current.trans h.current, fun i hi => (h'.sp i (by rw [h.current]; exact hi)).trans (h.sp i hi)⟩

theorem Internal.refl (R : GtRuntime Io) : Internal R R := ⟨⟨rfl, fun _ _ => rfl⟩, rfl⟩

theorem Internal.trans (h : Internal R R') (h' : Internal R' R'') : Internal R R'' :=
  ⟨h.toSamePlaces.trans h'.toSamePlaces, h'.io.trans h.io⟩

theorem Internal.note (h : Internal R R') (e : Ev) : Internal R (R'.note e) := ⟨⟨h.current, h.sp⟩, h.io⟩

theorem Internal.modify {a : GtTask → GtTask} (h : Internal R R') (ha : ∀ s, (a s).sp = s.sp) :
    Internal R (R'.modify t a) := by
  refine ⟨⟨h.current, ?_⟩, h.io⟩
  intro i hi
  rw [← h.sp i hi]
  dsimp only [GtRuntime.modify]
  by_cases hit : i = t
  · rw [hit, Function.update_self, ha]
  · rw [Function.update_of_ne hit]

theorem Internal.quiet (h : Internal R R') (hq : Quiet R' R'') : Internal R R'' :=
  h.trans ⟨⟨hq.current, fun i _ => (hq.slots i).sp⟩, hq.io⟩

theorem Internal.rqPush (h : Internal R R') (t : Nat) : Internal R (gtRqPush R' t) := by
  rw [gtRqPush_eq]
  exact ⟨⟨h.current, h.sp⟩, h.io⟩

private theorem Internal.slotFree (h : Internal R R') (t : Nat) : Internal R (gtSlotFree R' t) := by
  rw [gtSlotFree_eq]
  refine ⟨⟨h.current, ?_⟩, h.io⟩
  intro i hi
  rw [← h.sp i hi]
  dsimp only
  split
  · rename_i hit
    rw [hit]
  · rfl

theorem gtRqPop_none (h : gtRqPop R = (none, R')) : R' = R := by
  unfold gtRqPop at h
  split at h
  · exact (Prod.mk.inj h).2.symm
  · cases h

theorem gtRqPop_internal (h : gtRqPop R = (some t, R')) : Internal R R' := by
  unfold gtRqPop at h
  cases hhead : R.rqHead with
  | none =>
    rw [hhead] at h
    cases h
  | some u =>
    rw [hhead] at h
    dsimp only at h
    cases h
    apply Internal.modify
    · split <;> exact ⟨⟨rfl, fun _ _ => rfl⟩, rfl⟩
    · exact fun _ => rfl

private theorem gtRqRemoveFrom_internal {n : Nat} {prev cur : Option Nat}
    (h : gtRqRemoveFrom R t n prev cur = some R') : Internal R R' := by
  induction n generalizing prev cur with
  | zero => cases h
  | succ n ih =>
    cases cur with
    | none => cases h
    | some c =>
      unfold gtRqRemoveFrom at h
      dsimp only at h
      split at h
      · exact ih h
      · cases h
        clear ih
        refine Internal.modify ?_ fun _ => rfl
        cases prev with
        | none =>
          dsimp only
          split <;> exact ⟨⟨rfl, fun _ _ => rfl⟩, rfl⟩
        | some p =>
          have hprev : Internal R (R.modify p fun s => { s with next := (R.slots c).next }) := by
            apply (Internal.refl R).modify
            exact fun _ => rfl
          dsimp only
          split <;> exact ⟨⟨hprev.current, hprev.sp⟩, hprev.io⟩

theorem gtLockReleasedFrom_internal {lock n : Nat} {p : Option Nat}
    (h : gtLockReleasedFrom R lock n p = some (t, R')) : Internal R R' := by
  induction n generalizing p with
  | zero => cases h
  | succ n ih =>
    cases p with
    | none => cases h
    | some w =>
      unfold gtLockReleasedFrom at h
      dsimp only at h
      split at h
      · exact ih h
      · split at h
        · exact ih h
        · split at h
          · exact ih h
          · rename_i hremove
            cases h
            exact gtRqRemoveFrom_internal hremove

private theorem gtWakeFrom_internal (t n : Nat) (w : Option Nat) (R : GtRuntime Io) :
    Internal R (gtWakeFrom t n w R) := by
  induction n generalizing w R with
  | zero => exact Internal.refl R
  | succ n ih =>
    cases w with
    | none => exact Internal.refl R
    | some w =>
      unfold gtWakeFrom
      refine Internal.trans ?_ (ih _ _)
      refine (Internal.rqPush ?_ w).note _
      apply (Internal.refl R).modify
      exact fun _ => rfl

private theorem gtDeliver_places (R : GtRuntime Io) (c : Completion) : SamePlaces R (gtDeliver R c) := by
  unfold gtDeliver
  cases c.task with
  | none => exact ⟨rfl, fun _ _ => rfl⟩
  | some t =>
    have hres : Internal R (R.modify t fun s => { s with ioRes := c.res }) := by
      apply (Internal.refl R).modify
      exact fun _ => rfl
    have hpush := (hres.note (.taken t c.op (R.slots t).state)).rqPush t
    exact ⟨hpush.current, hpush.sp⟩

private theorem gtIoPoll_places [IoBackend Io] (R : GtRuntime Io) (wait : Wait) : SamePlaces R (gtIoPoll R wait) := by
  have hfold (l : List Completion) (R : GtRuntime Io) : SamePlaces R (l.foldl gtDeliver R) := by
    induction l generalizing R with
    | nil => exact (Internal.refl R).toSamePlaces
    | cons c l ih => exact (gtDeliver_places R c).trans (ih _)
  unfold gtIoPoll
  split
  · exact (Internal.refl R).toSamePlaces
  · have hio : SamePlaces R { R with io := (IoBackend.collect wait R.io).2 } := ⟨rfl, fun _ _ => rfl⟩
    exact hio.trans (hfold (IoBackend.collect wait R.io).1 _)

theorem gtIoPollNow_places [IoBackend Io] (R : GtRuntime Io) : SamePlaces R (gtIoPollNow R) := by
  unfold gtIoPollNow
  split
  · exact gtIoPoll_places R .now
  · exact (Internal.refl R).toSamePlaces

private theorem gtReapStacks_internal (R : GtRuntime Io) (z : Nat) : Internal R (gtReapStacks R z) := by
  have hfree {R₁ : GtRuntime Io} (h : Internal R R₁) (u : Option Nat) (size : Nat) {a : GtTask → GtTask}
      (ha : ∀ s, (a s).sp = s.sp) : Internal R ((gtStackFree R₁ u size).modify z a) :=
    (h.quiet (gtStackFree_quiet R₁ u size)).modify ha
  unfold gtReapStacks
  apply hfree
  · apply hfree
    · apply (Internal.refl R).modify
      exact fun _ => rfl
    · exact fun _ => rfl
  · exact fun _ => rfl

private theorem gtReapFrom_internal (n : Nat) (z : Option Nat) (R : GtRuntime Io) :
    Internal R (gtReapFrom n z R) := by
  induction n generalizing z R with
  | zero => exact Internal.refl R
  | succ n ih =>
    cases z with
    | none => exact Internal.refl R
    | some z =>
      unfold gtReapFrom
      dsimp only
      refine Internal.trans ?_ (ih _ _)
      have hstacks := gtReapStacks_internal R z
      split
      · exact hstacks.slotFree z
      · exact hstacks

private theorem Internal.reap (h : Internal R R') : Internal R (if R'.zombies ≠ none then gtReap R' else R') := by
  split
  · have hreap := gtReapFrom_internal (loopBound R') R'.zombies { R' with zombies := none }
    exact h.trans ⟨⟨hreap.current, hreap.sp⟩, hreap.io⟩
  · exact h

private theorem gtAwaitEnd_internal (R : GtRuntime Io) (w t : Nat) : Internal R (gtAwaitEnd R w t).rt := by
  have hnote := (Internal.refl R).note (.collected w t)
  unfold gtAwaitEnd toCode
  dsimp only
  split
  · exact hnote.slotFree t
  · exact hnote

/-- A task that goes on moves nobody. -/
theorem gtResume_internal (R : GtRuntime Io) (f : Resume) : Internal R (gtResume R f).rt := by
  cases f with
  | entry =>
    unfold gtResume gtBodyStart toCode noteCalled
    dsimp only
    split <;> exact ⟨⟨rfl, fun _ _ => rfl⟩, rfl⟩
  | joined t =>
    refine Internal.trans (Internal.note ?_ _) (gtAwaitEnd_internal _ _ _)
    apply (Internal.refl R).modify
    exact fun _ => rfl
  | released k => cases k <;> exact Internal.refl R
  | _ => exact ⟨⟨rfl, fun _ _ => rfl⟩, rfl⟩

theorem gtLockWaitAdd_internal (R : GtRuntime Io) (w : Nat) : Internal R (gtLockWaitAdd R w) := by
  unfold gtLockWaitAdd
  split <;> exact ⟨⟨rfl, fun _ _ => rfl⟩, rfl⟩

theorem gtLockWaitRemove_internal (R : GtRuntime Io) (w : Nat) : Internal R (gtLockWaitRemove R w) := by
  unfold gtLockWaitRemove
  split
  · exact Internal.refl R
  · split <;> exact ⟨⟨rfl, fun _ _ => rfl⟩, rfl⟩

theorem gtLockUntilEnd_internal (R : GtRuntime Io) (c : LockCall) (err : Int) :
    Internal R (gtLockUntilEnd R c err).rt := by
  have hremove : Internal R (if c.queued then gtLockWaitRemove R R.current else R) := by
    split
    · exact gtLockWaitRemove_internal R R.current
    · exact Internal.refl R
  unfold gtLockUntilEnd
  dsimp only
  split
  · exact hremove
  · split <;> exact hremove

private theorem sppcEnvFree_internal (R : GtRuntime Io) (e : Option SppcClosureEnv) :
    Internal R (sppcEnvFree R e) := by
  cases e <;> exact ⟨⟨rfl, fun _ _ => rfl⟩, rfl⟩

private theorem gtBlock_internal (R : GtRuntime Io) (state : GtState) (f : Resume) :
    Internal R (gtBlock R state f).rt := by
  unfold gtBlock
  dsimp only
  apply (Internal.refl R).modify
  exact fun _ => rfl

theorem gtAwait_internal (R : GtRuntime Io) (handle : Int) : Internal R (gtAwait R handle).rt := by
  unfold gtAwait
  split
  · exact Internal.refl R
  · split
    · exact Internal.refl R
    · split
      · exact Internal.refl R
      · split
        · refine Internal.trans (Internal.note ?_ _) (gtBlock_internal _ _ _)
          apply Internal.modify
          · apply Internal.modify
            · apply (Internal.refl R).modify
              exact fun _ => rfl
            · exact fun _ => rfl
          · exact fun _ => rfl
        · exact ((Internal.refl R).note _).trans (gtAwaitEnd_internal _ _ _)

theorem gtDetach_internal (R : GtRuntime Io) (handle : Int) : Internal R (gtDetach R handle).rt := by
  unfold gtDetach
  split
  · exact Internal.refl R
  · rename_i t ht
    split
    · exact Internal.refl R
    · split
      · exact Internal.refl R
      · have hmark : Internal R ((R.modify t fun s => { s with detached := true }).note (.detached t)) := by
          apply Internal.note
          apply (Internal.refl R).modify
          exact fun _ => rfl
        unfold toCode
        dsimp only
        split
        · exact hmark.slotFree t
        · exact hmark

theorem gtTaskRunEnd_internal (R : GtRuntime Io) : Internal R (gtTaskRunEnd R).rt := by
  have hend : Internal R (gtBodyEnd R) := by
    unfold gtBodyEnd
    apply Internal.modify
    · apply Internal.modify
      · exact ((Internal.refl R).note _).trans (sppcEnvFree_internal _ _)
      · exact fun _ => rfl
    · exact fun _ => rfl
  have hlink (R₁ : GtRuntime Io) (h : Internal R R₁) (z : Option Nat) : Internal R { R₁.modify R.current fun s =>
      { s with next := R₁.zombies } with zombies := z } := by
    have hmod : Internal R (R₁.modify R.current fun s => { s with next := R₁.zombies }) := by
      apply h.modify
      exact fun _ => rfl
    exact ⟨⟨hmod.current, hmod.sp⟩, hmod.io⟩
  unfold gtTaskRunEnd
  apply hlink
  refine Internal.trans ?_ (gtWakeFrom_internal _ _ _ _)
  apply hend.modify
  exact fun _ => rfl

/-! ### Switching -/

private theorem Leads.of_internal (h : Internal R R') (h' : Leads R' m) : Leads R m := by
  cases h' with
  | stays hs => exact Leads.stays (h.trans hs)
  | switches hne hsp hio =>
    rw [h.current]
    rw [h.current] at hne
    exact Leads.switches hne (fun i hi => (hsp i (by rw [h.current]; exact hi)).trans (h.sp i hi)) (hio.trans h.io)

private theorem gtSwitchTo_leads (R : GtRuntime Io) (f : Resume) (next : Nat) : Leads R (gtSwitchTo R f next) := by
  unfold gtSwitchTo
  dsimp only
  split
  case isTrue =>
    apply Leads.stays
    refine Internal.trans ?_ (gtResume_internal _ f)
    apply (Internal.refl R).modify
    exact fun _ => rfl
  case isFalse hne =>
    refine Leads.switches hne ?_ rfl
    intro i hi
    dsimp only [GtRuntime.modify]
    rw [Function.update_of_ne hi]
    by_cases hin : i = next
    · rw [hin, Function.update_self]
    · rw [Function.update_of_ne hin]

private theorem gtTaskRunSwitch_leads (R : GtRuntime Io) (t : Nat) : Leads R (gtTaskRunSwitch R t) := by
  unfold gtTaskRunSwitch
  dsimp only
  by_cases ht : t = R.current
  · -- nobody goes on where a task has finished
    rw [ht]
    apply Leads.stays
    unfold gtContextSwitch
    dsimp only [GtRuntime.modify]
    rw [Function.update_self]
    refine ⟨⟨rfl, ?_⟩, rfl⟩
    intro i hi
    dsimp only
    rw [Function.update_of_ne hi, Function.update_of_ne hi]
  · refine Leads.switches ht ?_ rfl
    intro i hi
    dsimp only [GtRuntime.modify]
    by_cases hit : i = t
    · rw [hit, Function.update_self]
    · rw [Function.update_of_ne hit]

theorem gtGiveWay_leads (R : GtRuntime Io) (f : Resume) (t : Nat) : Leads R (gtGiveWay R f t) :=
  Leads.of_internal ((Internal.refl R).rqPush R.current) (gtSwitchTo_leads _ f t)

private theorem gtStep_leads (R : GtRuntime Io) (f : Resume) (poll : Ctl) : Leads R (gtStep R f poll) := by
  unfold gtStep
  split
  · rename_i heq
    exact Leads.of_internal (gtRqPop_internal heq) (gtGiveWay_leads _ f _)
  · rename_i heq
    rw [gtRqPop_none heq]
    exact Leads.stays (Internal.refl R)

theorem gtLockReleased_leads (R : GtRuntime Io) (lock : Nat) (f : Resume) : Leads R (gtLockReleased R lock f) := by
  unfold gtLockReleased
  split
  · exact Leads.stays (gtResume_internal R f)
  · rename_i heq
    exact Leads.of_internal (gtLockReleasedFrom_internal heq) (gtGiveWay_leads _ f _)

/-- What a context switch leaves, wherever it lands. -/
theorem gtContextSwitch_internal (R : GtRuntime Io) (self : Nat) (f : Resume) (next : Nat) :
    Internal (R.modify self fun s => { s with sp := some f }) (gtContextSwitch R self f next).rt := by
  unfold gtContextSwitch
  dsimp only
  split
  · exact Internal.refl _
  · exact Internal.refl _
  · exact (Internal.refl _).reap.trans (gtResume_internal _ _)

theorem Leads.io (h : Leads R m) : m.rt.io = R.io := by
  cases h with
  | stays hs => exact hs.io
  | switches hne hsp hio => exact (gtContextSwitch_internal _ _ _ _).io.trans hio

/-- A task that is switched away stays at its place, or goes on there. -/
theorem Leads.other (h : Leads R m) (ht : t ≠ R.current) (hsp : (R.slots t).sp = some f) (hf : f ≠ .finished) :
    (m.rt.current ≠ t ∧ (m.rt.slots t).sp = some f) ∨ ∃ R', R'.current = t ∧ m = gtResume R' f := by
  cases h with
  | stays hs => exact Or.inl ⟨by rw [hs.current]; exact ht.symm, (hs.sp t ht).trans hsp⟩
  | @switches R' g hne hplaces hio =>
    have hmod (i : Nat) (hi : i ≠ R.current) :
        ((R'.modify R.current fun s => { s with sp := some g }).slots i).sp = (R.slots i).sp := by
      dsimp only [GtRuntime.modify]
      rw [Function.update_of_ne hi, hplaces i hi]
    have hreap := (Internal.refl (R'.modify R.current fun s => { s with sp := some g })).reap
    by_cases hnext : R'.current = t
    · right
      unfold gtContextSwitch
      dsimp only
      rw [hmod _ hne, hnext, hsp]
      refine ⟨_, hreap.current.trans hnext, ?_⟩
      cases f
      all_goals first | rfl | exact absurd rfl hf
    · have hland := gtContextSwitch_internal R' R.current g R'.current
      left
      refine ⟨by rw [hland.current]; exact hnext, ?_⟩
      rw [hland.sp t (Ne.symm hnext), hmod t ht]
      exact hsp

/-! ### The calls -/

variable [IoBackend Io]

theorem gtPick_leads (R : GtRuntime Io) (f : Resume) : Leads (gtIoPollNow R) (gtPick R f) := by
  unfold gtPick
  dsimp only
  split
  · rename_i heq
    apply Leads.of_internal (gtRqPop_internal heq)
    split
    · exact gtTaskRunSwitch_leads _ _
    · exact gtSwitchTo_leads _ f _
  · rename_i heq
    rw [gtRqPop_none heq]
    split <;> exact Leads.stays (Internal.refl _)

private theorem gtYield_leads (R : GtRuntime Io) : Leads (gtIoPollNow R) (gtYield R) := by
  unfold gtYield
  dsimp only
  split
  · rename_i heq
    rw [gtRqPop_none heq]
    exact Leads.stays (Internal.refl _)
  · rename_i heq
    exact Leads.of_internal (gtRqPop_internal heq) (gtGiveWay_leads _ .yielded _)

private theorem gtIoCall_places (R : GtRuntime Io) (req : IoBackend.Req Io) : SamePlaces R (gtIoCall R req).rt := by
  unfold gtIoCall
  split
  · exact (Internal.refl R).toSamePlaces
  · split
    · exact (Internal.refl R).toSamePlaces
    · exact ⟨rfl, fun _ _ => rfl⟩
    · refine SamePlaces.trans ?_ (gtBlock_internal _ _ _).toSamePlaces
      exact ⟨rfl, fun _ _ => rfl⟩

/-- A turn of the wait for a lock, after its poll. -/
private theorem gtLockTurn_leads (R : GtRuntime Io) (c : LockCall) (now : Timespec) :
    Leads (gtIoPollNow R) (gtLockTurn R c ebusy now) := by
  unfold gtLockTurn
  rw [if_neg (not_not.2 rfl)]
  dsimp only
  split
  · exact Leads.stays (Internal.refl _)
  · split
    · exact Leads.stays (gtLockUntilEnd_internal _ c etimedout)
    · refine Leads.of_internal ?_ (gtStep_leads _ _ _)
      split
      · exact Internal.refl _
      · apply Internal.note
        refine Internal.trans ?_ (gtLockWaitAdd_internal _ _)
        exact ⟨⟨rfl, fun _ _ => rfl⟩, rfl⟩

private theorem gtCondWaitUntil_leads (R : GtRuntime Io) (k : CondWait) (err : Int) :
    Leads (gtIoPollNow R) (gtCondWaitUntil R k err) := by
  unfold gtCondWaitUntil
  dsimp only
  split
  · exact Leads.stays (Internal.refl _)
  · split
    · exact gtLockReleased_leads _ _ _
    · exact Leads.stays (Internal.refl _)

private theorem gtCondReleased_leads (R : GtRuntime Io) (k : CondWait) :
    Leads (gtIoPollNow R) (gtCondReleased R k) := by
  unfold gtCondReleased
  dsimp only
  split
  · exact gtStep_leads _ _ _
  · exact Leads.stays ⟨⟨rfl, fun _ _ => rfl⟩, rfl⟩

/-- One turn of `_gt_drain` that finds a task. -/
private theorem gtDrain_leads (h : R.rqHead ≠ none) : Leads R (gtDrain R) := by
  unfold gtDrain
  rw [if_neg h]
  split
  · rename_i heq
    rw [gtRqPop_none heq]
    exact Leads.stays (Internal.refl R)
  · rename_i heq
    exact Leads.of_internal (gtRqPop_internal heq) (gtGiveWay_leads _ .drained _)

/-- After a poll or a change of the backend, if there is any, the same task goes on, or there is one switch. -/
def LeadsFrom (R : GtRuntime Io) (m : Machine Io) : Prop := ∃ R₁, SamePlaces R R₁ ∧ Leads R₁ m

omit [IoBackend Io] in
private theorem LeadsFrom.stays (h : SamePlaces R m.rt) : LeadsFrom R m := ⟨m.rt, h, Leads.stays (Internal.refl _)⟩

private theorem LeadsFrom.polled (h : Leads (gtIoPollNow R) m) : LeadsFrom R m := ⟨_, gtIoPollNow_places R, h⟩

/-- Every step of a machine that goes on, but a spawn. -/
theorem step_leads {s s' : Machine Io} {e : Event Io} (he : ∀ body o, e ≠ .async body o) (hstep : step s e = some s')
    (hexit : s'.ctl ≠ .exited) : LeadsFrom s.rt s' := by
  have hself : SamePlaces s.rt s.rt := (Internal.refl s.rt).toSamePlaces
  cases e with
  | async body o => exact absurd rfl (he body o)
  | yield =>
    simp only [step] at hstep
    split at hstep <;> cases hstep
    exact LeadsFrom.polled (gtYield_leads _)
  | await handle =>
    simp only [step] at hstep
    split at hstep <;> cases hstep
    exact LeadsFrom.stays (gtAwait_internal _ _).toSamePlaces
  | detach handle =>
    simp only [step] at hstep
    split at hstep <;> cases hstep
    exact LeadsFrom.stays (gtDetach_internal _ _).toSamePlaces
  | io req =>
    simp only [step] at hstep
    split at hstep <;> cases hstep
    exact LeadsFrom.stays (gtIoCall_places _ _)
  | finish =>
    simp only [step] at hstep
    split at hstep <;> cases hstep
    exact LeadsFrom.stays (gtTaskRunEnd_internal _).toSamePlaces
  | turn =>
    simp only [step] at hstep
    split at hstep <;> cases hstep
    · exact LeadsFrom.polled (gtPick_leads _ _)
    · by_cases hhead : s.rt.rqHead = none
      · apply LeadsFrom.stays
        unfold gtDrain
        rw [if_pos hhead]
        split
        · have hreap := (Internal.refl s.rt).reap
          exact ⟨hreap.current, hreap.sp⟩
        · exact hself
      · exact ⟨s.rt, hself, gtDrain_leads hhead⟩
  | poll =>
    simp only [step] at hstep
    split at hstep <;> cases hstep
    case h_3 k hctl =>
      have hpoll := gtIoPoll_places s.rt (stepWait k.clock k.deadline)
      exact LeadsFrom.stays ⟨hpoll.current, hpoll.sp⟩
    all_goals exact LeadsFrom.stays (gtIoPoll_places _ _)
  | tried err now =>
    simp only [step] at hstep
    split at hstep <;> cases hstep
    by_cases herr : err = ebusy
    · rw [herr]
      exact LeadsFrom.polled (gtLockTurn_leads _ _ _)
    · unfold gtLockTurn
      rw [if_pos herr]
      exact LeadsFrom.stays (gtLockUntilEnd_internal _ _ _).toSamePlaces
  | answered err =>
    simp only [step] at hstep
    split at hstep <;> cases hstep
    · exact LeadsFrom.stays (gtLockUntilEnd_internal _ _ _).toSamePlaces
    · exact LeadsFrom.stays hself
  | unlock lock err =>
    simp only [step] at hstep
    split at hstep <;> cases hstep
    unfold gtUnlock
    split
    · exact ⟨s.rt, hself, gtLockReleased_leads _ _ _⟩
    · exact LeadsFrom.stays hself
  | condWait k err =>
    simp only [step] at hstep
    split at hstep <;> cases hstep
    exact LeadsFrom.polled (gtCondWaitUntil_leads _ _ _)
  | condGo now =>
    simp only [step] at hstep
    split at hstep <;> cases hstep
    · exact LeadsFrom.polled (gtCondReleased_leads _ _)
    · exact LeadsFrom.stays hself
  | setStackSize bytes =>
    simp only [step] at hstep
    split at hstep <;> cases hstep
    exact LeadsFrom.stays ((Internal.refl _).quiet (gtSetStackSize_quiet _ _)).toSamePlaces
  | setGuardPages enabled =>
    simp only [step] at hstep
    split at hstep <;> cases hstep
    exact LeadsFrom.stays ((Internal.refl _).quiet (gtSetGuardPages_quiet _ _)).toSamePlaces
  | exit =>
    simp only [step] at hstep
    split at hstep <;> cases hstep
    exact absurd rfl hexit
  | kernel e =>
    simp only [step] at hstep
    split at hstep
    · cases hstep
    · split at hstep <;> cases hstep
      exact LeadsFrom.stays ⟨rfl, fun _ _ => rfl⟩
  | _ =>
    simp only [step] at hstep
    split at hstep <;> cases hstep
    exact LeadsFrom.stays ⟨rfl, fun _ _ => rfl⟩

omit [IoBackend Io] in
/-- A step leaves a task that is switched away at its place, or the task goes on there. -/
theorem LeadsFrom.other (h : LeadsFrom R m) (ht : t ≠ R.current) (hsp : (R.slots t).sp = some f)
    (hf : f ≠ .finished) :
    (m.rt.current ≠ t ∧ (m.rt.slots t).sp = some f) ∨ ∃ R', R'.current = t ∧ m = gtResume R' f := by
  obtain ⟨R₁, hsame, hleads⟩ := h
  exact hleads.other (by rw [hsame.current]; exact ht) ((hsame.sp t ht).trans hsp) hf

end Sppc
