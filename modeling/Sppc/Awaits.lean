import Sppc.Resuming
import Sppc.Retirement

/-!
# What an await promises

Where no task is both awaited and detached, an await returns once the body it waited for has run and returned, none of
its task's awaiters is lost or woken twice, and the slot is handed back by the last of them.  The promises are read
off the log, where `collected w t` is an await of `t` by `w` that returns 0.
-/

namespace Sppc

open LinkedList

variable {Io : Type} [IoBackend Io] [LawfulIoBackend Io] {v : Roster} {s : Machine Io} {log l : List Ev} {t w : Nat}

/-! ### What the log's lives say -/

private theorem life_of_suffix (h : life t log ≠ none) (hl : l <:+ log) : life t l ≠ none := by
  induction log with
  | nil =>
    rw [List.suffix_nil.1 hl]
    exact h
  | cons e log ih =>
    rcases List.suffix_cons_iff.1 hl with rfl | hl
    · exact h
    · refine ih (fun hnone => h ?_) hl
      rw [life, hnone]

/-- What led to the last event of a log is a life as well. -/
private theorem life_before {e : Ev} (h : life t log ≠ none) (hl : e :: l <:+ log) :
    ∃ L L', life t l = some L ∧ L.step t e = some L' := by
  have hcons := life_of_suffix h hl
  cases hlife : life t l with
  | none => rw [life, hlife] at hcons; exact absurd rfl hcons
  | some L =>
    rw [life_cons hlife] at hcons
    obtain ⟨L', hL'⟩ := Option.ne_none_iff_exists'.1 hcons
    exact ⟨L, L', rfl, hL'⟩

/-- An await of `t` returns 0 when the body of `t` has been called once and has returned. -/
private theorem collected_after (h : life t log ≠ none) (hl : .collected w t :: l <:+ log) :
    (occupancy t l).count (.started t) = 1 ∧ (occupancy t l).count (.returned t) = 1 := by
  obtain ⟨L, L', hL, hstep⟩ := life_before h hl
  have hstage : L.stage = .returned := by
    simp only [Life.step, ne_eq, not_true_eq_false, if_false] at hstep
    split at hstep
    case isTrue hc => exact hc.1
    case isFalse => cases hstep
  have hacc := accounts hL (by rw [hstage]; simp)
  exact ⟨by rw [hacc.started]; simp [hstage], by rw [hacc.returned]; simp [hstage]⟩

/-- The slot of a task that was awaited and not detached is handed back when its last awaiter has collected, all the
others having gone on. -/
private theorem retire_after (h : life t log ≠ none) (hl : .retire t :: l <:+ log)
    (hw : Ev.joined w t ∈ occupancy t l ∨ Ev.late w t ∈ occupancy t l) (hd : Ev.detached t ∉ occupancy t l) :
    (∃ u, (occupancy t l).find? (fun e => e.slot = some t) = some (.collected u t)) ∧
    ∀ u, (occupancy t l).count (.joined u t) = (occupancy t l).count (.resumed u t) := by
  obtain ⟨L, L', hL, hstep⟩ := life_before h hl
  have hstage : L.stage = .claimed ∨ L.stage = .spent ∨ L.stage = .returned ∧ L.detached = true := by
    simp only [Life.step, ne_eq, not_true_eq_false, if_false] at hstep
    split at hstep
    case isTrue hc => exact hc.imp id (Or.imp id fun hr => ⟨hr.1, hr.2.1⟩)
    case isFalse => cases hstep
  have hacc := accounts hL (by rintro hv; simp [hv] at hstage)
  have hspent : L.stage = .spent := by
    rcases hstage with hs | hs | ⟨-, hdet⟩
    · rcases hw with hw | hw
      · exact absurd hw (hacc.claimed hs w)
      · exact absurd hw (hacc.early (by simp [hs]) (by simp [hs]) w).2.2.1
    · exact hs
    · exact absurd (hacc.detached hdet) hd
  obtain ⟨hj, hk, hfind⟩ := hacc.spent hspent
  refine ⟨hfind, fun u => ?_⟩
  rw [hacc.joined, hacc.woken, hj, hk]
  simp

/-! ### The promises -/

/-- The task `w` is in the wait of its `_gt_await` of `t`: in `_gt_pick`, switched away, or where the process ends. -/
def AwaitsAt (s : Machine Io) (w t : Nat) : Prop :=
  (s.rt.current = w ∧ (s.ctl = .pick (.joined t) ∨ s.ctl = .pickWait (.joined t) ∨ ∃ p, s.ctl = .panic p)) ∨
    (s.rt.current ≠ w ∧ (s.rt.slots w).sp = some (.joined t))

/-- The task `w` is back from its `_gt_await` of `t`, which has gone on, collected and returned 0. -/
structure AwaitReturned (s : Machine Io) (w t : Nat) : Prop where
  ret : s.ret = 0
  collected : ∃ l, s.rt.log = .collected w t :: .resumed w t :: l ∨ s.rt.log = .retire t :: .collected w t ::
    .resumed w t :: l

/-- The awaits of a run. -/
structure AwaitsOk (s : Machine Io) : Prop where
  collected : ∀ w t l, .collected w t :: l <:+ s.rt.log →
    (occupancy t l).count (.started t) = 1 ∧ (occupancy t l).count (.returned t) = 1
  started : ∀ t, occupied t s.rt.log = some true → (occupancy t s.rt.log).count (.started t) ≤ 1
  /-- The end of the body wakes each awaiter that has registered, once. -/
  woken : s.ctl ≠ .exited → ∀ t w, occupied t s.rt.log = some true →
    (occupancy t s.rt.log).count (.joined w t) ≤ 1 ∧
    (occupancy t s.rt.log).count (.woken w t) =
      if Ev.returned t ∈ occupancy t s.rt.log then (occupancy t s.rt.log).count (.joined w t) else 0
  /-- An awaiter that has not gone on is parked until the body has returned, and ready from then on. -/
  parked : s.ctl ≠ .exited → ∀ t w, occupied t s.rt.log = some true → Ev.joined w t ∈ occupancy t s.rt.log →
    Ev.resumed w t ∉ occupancy t s.rt.log →
    (s.rt.slots w).state = if Ev.returned t ∈ occupancy t s.rt.log then .ready else .joining
  late : s.ctl = .code → ∀ handle t, gtResolve s.rt handle = some t → t ≠ s.rt.current →
    (s.rt.slots t).state = .done → ∃ s', step s (.await handle) = some s' ∧ s'.ctl = .code ∧ s'.ret = 0 ∧
      s'.rt.current = s.rt.current ∧ Ev.collected s.rt.current t ∈ s'.rt.log
  handedBack : ∀ t l, .retire t :: l <:+ s.rt.log →
    ∀ w, (Ev.joined w t ∈ occupancy t l ∨ Ev.late w t ∈ occupancy t l) →
    (∃ u, (occupancy t l).find? (fun e => e.slot = some t) = some (.collected u t)) ∧
    ∀ u, (occupancy t l).count (.joined u t) = (occupancy t l).count (.resumed u t)
  stale : s.ctl = .code → ∀ handle, occupied (asUint32 handle &&& gtIdxMask) s.rt.log = some false →
    step s (.await handle) = some (toCode s.rt einval)
  /-- An await of a task that has not finished joins it. -/
  joins : s.ctl = .code → ∀ handle t, gtResolve s.rt handle = some t → t ≠ s.rt.current →
    (s.rt.slots t).detached = false → (s.rt.slots t).state ≠ .done → ∃ s', step s (.await handle) = some s' ∧
      AwaitsAt s' s.rt.current t ∧ s'.rt.log = .joined s.rt.current t :: s.rt.log
  /-- Whoever has joined is in that wait until it goes on, and goes on by collecting. -/
  waits : s.ctl ≠ .exited → ∀ t w, occupied t s.rt.log = some true → Ev.joined w t ∈ occupancy t s.rt.log →
    Ev.resumed w t ∉ occupancy t s.rt.log → AwaitsAt s w t
  returns : ∀ e s' w t, AwaitsAt s w t → step s e = some s' → s'.rt.current = w → s'.ctl = .code →
    AwaitReturned s' w t

omit [IoBackend Io] [LawfulIoBackend Io] in
/-- A task whose body has returned has woken its awaiters. -/
private theorem joiners_returned {R : GtRuntime Io} (h : v.Ok) (hs : Steady R v none)
    (ht : (v.role t).stage = .returned ∨ (v.role t).stage = .spent) : v.joiners t = [] := by
  refine h.joiners_nil ?_
  have hrole := hs.role t (by simp)
  revert ht hrole
  cases v.role t with
  | ready f => cases f <;> simp [Role.stage]
  | popped f => simp [Role.steady]
  | _ => simp [Role.stage, Role.steady, Role.unfinished]

/-- The role of an awaiter that has not gone on. -/
private theorem parked_role {R : GtRuntime Io} (h : Models R v) (hs : Steady R v none)
    (hacc : Accounts t (occupancy t R.log)
      ⟨(v.role t).stage, (R.slots t).detached, v.joiners t, v.woken t, v.collects t⟩)
    (hj : Ev.joined w t ∈ occupancy t R.log) (hr : Ev.resumed w t ∉ occupancy t R.log) :
    v.role w = if Ev.returned t ∈ occupancy t R.log then .ready (.joined t) else .joining t := by
  have hjoined := hacc.joined w
  have hwoken := hacc.woken w
  dsimp only at hjoined hwoken
  have hpos := List.count_pos_iff.2 hj
  have hzero := List.count_eq_zero.2 hr
  split
  case isTrue hret =>
    rw [joiners_returned h.ok hs (hacc.returned_iff.1 hret), List.count_nil] at hjoined
    have hmem : w ∈ v.woken t := List.count_pos_iff.1 (by omega)
    rcases (h.ok.woken_iff w t).1 hmem with hw | hw
    · exact hw
    · have := hs.role w (by simp)
      rw [hw] at this
      cases this
  case isFalse hret =>
    rw [hacc.returned_iff, not_or] at hret
    have hnone := List.count_eq_zero.2 (hacc.early hret.1 hret.2 w).1
    have hmem : w ∈ v.joiners t := List.count_pos_iff.1 (by omega)
    exact (h.ok.joiners_iff w t).1 hmem

/-- A task with a place to go on at after the wait of its `_gt_await` is in that wait. -/
private theorem Live.awaitsAt (h : Live s v) (hframe : (v.role w).frame = some (.joined t)) : AwaitsAt s w t := by
  obtain ⟨hm, -, hctl⟩ := h
  by_cases hw : s.rt.current = w
  case neg => exact Or.inr ⟨hw, hm.lists.frame w _ (Ne.symm hw) hframe⟩
  case pos =>
    refine Or.inl ⟨hw, ?_⟩
    have hruns (hr : Runs s.rt v) : False := by
      have hrole := hr.role
      rw [hw] at hrole
      rw [hrole] at hframe
      cases hframe
    cases hc : s.ctl <;> rw [hc] at hctl
    case pick f =>
      have hf := hctl.1
      rw [hw, hframe] at hf
      cases hf
      exact Or.inl rfl
    case pickWait f =>
      have hf := hctl.1
      rw [hw, hframe] at hf
      cases hf
      exact Or.inr (Or.inl rfl)
    case panic p => exact Or.inr (Or.inr ⟨p, rfl⟩)
    case lost => exact hctl.elim
    case exited => exact hctl.elim
    all_goals exact (hruns hctl.1).elim

omit [IoBackend Io] [LawfulIoBackend Io] in
/-- What the task that is switched to does after the wait of its `_gt_await`. -/
private theorem AwaitReturned.of_resume {R : GtRuntime Io} (hcur : R.current = w) :
    AwaitReturned (gtResume R (.joined t)) w t := by
  subst hcur
  unfold gtResume gtAwaitEnd toCode
  dsimp only
  split
  case isTrue =>
    rw [gtSlotFree_eq]
    exact ⟨rfl, _, Or.inr rfl⟩
  case isFalse => exact ⟨rfl, _, Or.inl rfl⟩

omit [IoBackend Io] [LawfulIoBackend Io] in
/-- The task that is switched to runs. -/
private theorem gtSwitchTo_current {R : GtRuntime Io} {f : Resume} {next : Nat} :
    (gtSwitchTo R f next).rt.current = next := by
  unfold gtSwitchTo
  dsimp only
  split
  case isTrue heq =>
    rw [(gtResume_internal _ f).current]
    exact heq.symm
  case isFalse => exact (gtContextSwitch_internal _ _ _ _).current

omit [LawfulIoBackend Io] in
/-- A turn of `_gt_pick` after which the task that waits in it is back in its code. -/
private theorem AwaitReturned.of_pick {R : GtRuntime Io} (hcur : R.current = w)
    (hback : (gtPick R (.joined t)).rt.current = w) (hcode : (gtPick R (.joined t)).ctl = .code) :
    AwaitReturned (gtPick R (.joined t)) w t := by
  have hpolled : (gtIoPollNow R).current = w := (gtIoPollNow_places R).current.trans hcur
  unfold gtPick at hback hcode ⊢
  dsimp only at hback hcode ⊢
  split
  case h_1 u R' heq =>
    rw [heq] at hback hcode
    dsimp only at hback hcode
    rw [if_neg nofun] at hback hcode ⊢
    rw [gtSwitchTo_current] at hback
    have hself : u = R'.current := by
      rw [(gtRqPop_internal heq).current, hpolled, hback]
    unfold gtSwitchTo
    dsimp only
    rw [if_pos hself]
    exact AwaitReturned.of_resume (hself.symm.trans hback)
  case h_2 R' heq =>
    rw [heq] at hcode
    dsimp only at hcode
    split at hcode <;> cases hcode

omit [LawfulIoBackend Io] in
/-- Out of `_gt_pick` only a turn leads to a task's code. -/
private theorem step_inPick {e : Event Io} {s' : Machine Io} {f : Resume}
    (hctl : s.ctl = .pick f ∨ s.ctl = .pickWait f ∨ ∃ p, s.ctl = .panic p) (hstep : step s e = some s')
    (hcode : s'.ctl = .code) : s' = gtPick s.rt f := by
  have hne : s.ctl ≠ .code := by
    rcases hctl with h | h | ⟨p, h⟩
    all_goals
      rw [h]
      exact nofun
  cases e with
  | async body o =>
    rw [step, if_neg fun h => hne h.1] at hstep
    cases hstep
  | finish =>
    rw [step, if_neg fun h => hne h.1] at hstep
    cases hstep
  | turn =>
    simp only [step] at hstep
    rcases hctl with h | h | ⟨p, h⟩
    all_goals
      rw [h] at hstep
      cases hstep
    rfl
  | poll =>
    simp only [step] at hstep
    rcases hctl with h | h | ⟨p, h⟩
    all_goals
      rw [h] at hstep
      cases hstep
    cases hcode
  | tried err now | answered err | condGo now =>
    simp only [step] at hstep
    rcases hctl with h | h | ⟨p, h⟩
    all_goals
      rw [h] at hstep
      cases hstep
  | kernel e =>
    simp only [step] at hstep
    split at hstep
    · cases hstep
    · split at hstep <;> cases hstep
      exact absurd hcode hne
  | _ =>
    rw [step, if_neg hne] at hstep
    cases hstep

/-- A step from the wait of an `_gt_await` to the task's code. -/
private theorem Live.awaitReturned {e : Event Io} {s' : Machine Io} (h : Live s v) (htab : Table s.rt)
    (hat : AwaitsAt s w t) (hstep : step s e = some s') (hback : s'.rt.current = w) (hcode : s'.ctl = .code) :
    AwaitReturned s' w t := by
  rcases hat with ⟨hcur, hctl⟩ | ⟨hcur, hsp⟩
  · obtain rfl := step_inPick hctl hstep hcode
    exact AwaitReturned.of_pick hcur hback hcode
  · by_cases hasync : ∃ body o, e = .async body o
    case pos =>
      obtain ⟨body, o, rfl⟩ := hasync
      obtain ⟨hm, hs, hctl⟩ := h
      rw [step] at hstep
      split at hstep
      case isFalse => cases hstep
      case isTrue hcode' =>
        rw [hcode'.1] at hctl
        obtain ⟨-, -, -, -, -, hsame⟩ := Live.async hm hs hctl.1 hctl.2 htab hcode'.2 o
        have hstays : s'.rt.current = s.rt.current := by
          split at hstep
          all_goals
            rename_i heq
            rw [heq] at hsame
            cases hstep
            exact hsame
        exact absurd (hstays.symm.trans hback) hcur
    case neg =>
      have hexit : s'.ctl ≠ .exited := by
        intro hexit
        cases hcode.symm.trans hexit
      have hleads := step_leads (fun body o he => hasync ⟨body, o, he⟩) hstep hexit
      rcases hleads.other (Ne.symm hcur) hsp Resume.noConfusion with ⟨hother, -⟩ | ⟨R', hR', rfl⟩
      · exact absurd hback hother
      · exact AwaitReturned.of_resume hR'

private theorem Live.awaitsOk (h : Live s v) (htab : Table s.rt) (hboth : NeverBoth s.rt.log) : AwaitsOk s := by
  have hdue := (h.retirementOk htab).due
  have hlive := h
  obtain ⟨hm, hs, -⟩ := h
  have hst := hs.statesOk hm.lists
  have hacc (t : Nat) (ht : occupied t s.rt.log = some true) : Accounts t (occupancy t s.rt.log)
      ⟨(v.role t).stage, (s.rt.slots t).detached, v.joiners t, v.woken t, v.collects t⟩ := by
    have hlife := hm.logged.lives t (by simpa [hm.logged.occupied] using ht)
    rw [occupied_of_life hlife] at ht
    exact accounts hlife (by simpa using ht)
  refine ⟨fun w t l hl => collected_after (hm.lives t) hl, fun t ht => ?_, fun _ t w ht => ⟨(hacc t ht).once w, ?_⟩,
    fun _ t w ht hj hr => ?_, fun hc handle t hres hne hdone => ?_, fun t l hl w hw => ?_, fun hc handle hfree => ?_,
    fun hc handle t hres hne hdet hdone => ?_, fun _ t w ht hj hr => hlive.awaitsAt ?_,
    fun e s' w t hat hstep hback hcode => hlive.awaitReturned htab hat hstep hback hcode⟩
  · rw [(hacc t ht).started]
    split <;> omega
  · have hjoined := (hacc t ht).joined w
    split
    case isTrue hret =>
      rw [hjoined, joiners_returned hm.ok hs ((hacc t ht).returned_iff.1 hret), List.count_nil, Nat.zero_add]
    case isFalse hret =>
      rw [(hacc t ht).returned_iff, not_or] at hret
      exact List.count_eq_zero.2 ((hacc t ht).early hret.1 hret.2 w).1
  · have hrole := parked_role hm hs (hacc t ht) hj hr
    split at hrole
    · rename_i hret
      rw [if_pos hret]
      exact ((hst.ready w).1 ⟨_, hrole⟩).2
    · rename_i hret
      rw [if_neg hret]
      exact ((hst.joining w).1 ⟨_, hrole⟩).2
  · have htn : t < s.rt.nslots := by
      unfold gtResolve at hres
      dsimp only at hres
      split at hres
      · cases hres
      · split at hres <;> cases hres
        omega
    have hnd := (hdue hc t htn hdone).1
    refine ⟨gtAwait s.rt handle, by simp [step, hc], ?_⟩
    rw [gtAwait, hres]
    dsimp only
    rw [if_neg hne, if_neg (by simp [hnd]), if_neg (by simp [hdone])]
    refine ⟨rfl, rfl, ?_, ?_⟩
    · simp only [gtAwaitEnd, toCode]
      split
      · rw [gtSlotFree_eq]; rfl
      · rfl
    · simp only [gtAwaitEnd, toCode]
      split
      · rw [gtSlotFree_eq]; simp [GtRuntime.note]
      · simp [GtRuntime.note]
  · exact retire_after (hm.lives t) hl hw (hboth l ((List.suffix_cons _ _).trans hl) t w hw)
  · have hnone : gtResolve s.rt handle = none := by
      cases hres : gtResolve s.rt handle with
      | none => rfl
      | some t =>
        obtain ⟨hu, hf, -⟩ := hm.resolve hs hres
        have ht : asUint32 handle &&& gtIdxMask = t := by
          unfold gtResolve at hres
          dsimp only at hres
          split at hres
          · cases hres
          · split at hres <;> cases hres
            rfl
        rw [ht, hm.logged.occupied] at hfree
        revert hu hf hfree
        cases v.role t <;> simp [Role.occupied]
    simp [step, hc, gtAwait, hnone]
  · refine ⟨gtAwait s.rt handle, by simp [step, hc], ?_⟩
    rw [gtAwait, hres]
    dsimp only
    rw [if_neg hne, if_neg (by simp [hdet]), if_pos hdone]
    exact ⟨Or.inl ⟨rfl, Or.inl rfl⟩, rfl⟩
  · have hrole := parked_role hm hs (hacc t ht) hj hr
    rw [hrole]
    split <;> rfl

/-- The awaits of every run in which no task is both awaited and detached. -/
theorem awaits_ok (h : Reachable s) (hboth : NeverBoth s.rt.log) (hacc : AllAccepted s.rt.log) : AwaitsOk s := by
  rcases h.inv hboth hacc with ⟨v, hv⟩ | ⟨hexit, hend⟩
  · exact hv.awaitsOk h.table hboth
  · have hcode (hc : s.ctl = .code) : False := by
      rw [hc] at hexit
      cases hexit
    refine ⟨fun w t l hl => collected_after (hend.lives t) hl, fun t ht => ?_, fun hne => absurd hexit hne,
      fun hne => absurd hexit hne, fun hc => (hcode hc).elim, fun t l hl w hw => ?_, fun hc => (hcode hc).elim,
      fun hc => (hcode hc).elim, fun hne => absurd hexit hne, fun e s' w t _ hstep => ?_⟩
    · obtain ⟨L, hL⟩ := Option.ne_none_iff_exists'.1 (hend.lives t)
      rw [occupied_of_life hL] at ht
      rw [(accounts hL (by simpa using ht)).started]
      split <;> omega
    · exact retire_after (hend.lives t) hl hw (hboth l ((List.suffix_cons _ _).trans hl) t w hw)
    · rw [step_exited hexit] at hstep
      cases hstep

/-- Task 1 is awaited by the tasks 0 and 2, which collect after it has finished; task 0 awaits it once more. -/
theorem awaits_ok_two : ∃ s : Machine BlockingIo,
    Transition.run step (gtInit .unused 4096 false)
      [.async ⟨1, none⟩ spawnServed, .async ⟨2, none⟩ spawnServed, .await 1048577, .turn, .yield, .await 1048577,
        .turn, .finish, .turn, .yield] = some s ∧ AwaitsOk s := by
  have hrun : (Transition.run step (gtInit BlockingIo.unused 4096 false)
      [.async ⟨1, none⟩ spawnServed, .async ⟨2, none⟩ spawnServed, .await 1048577, .turn, .yield, .await 1048577,
        .turn, .finish, .turn, .yield]).map (·.rt.log) =
      some [.retire 1, .collected 0 1, .resumed 0 1, .collected 2 1, .resumed 2 1, .woken 0 1, .woken 2 1,
        .returned 1, .joined 2 1, .started 2, .started 1, .joined 0 1, .spawned 2,
        .mprotected 8192 131072 .readWrite, .mapped 4096 135168 .none, .alloc 2, .spawned 1,
        .mprotected 8192 131072 .readWrite, .mapped 4096 135168 .none, .alloc 1, .started 0, .spawned 0,
        .alloc 0] := by decide +kernel
  obtain ⟨s, hs, hlog⟩ := Option.map_eq_some_iff.1 hrun
  exact ⟨s, hs, awaits_ok ⟨.unused, 4096, false, trivial, _, hs⟩ (.of_not_detached fun t => by simp [hlog])
    fun t => by simp [hlog]⟩

end Sppc
