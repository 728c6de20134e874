import Sppc.Invariant

/-!
# Every run

Every step of the machine keeps the invariant, so it holds of every state of a run in which no task is both awaited
and detached and every submission is accepted.
-/

namespace Sppc

variable {Io : Type} [IoBackend Io] [LawfulIoBackend Io] {R R' : GtRuntime Io} {v v' : Roster} {s s' : Machine Io}

/-! ### The steps that are left -/

omit [IoBackend Io] [LawfulIoBackend Io] in
theorem Steady.other (h : Steady R v none) (hs : SameRun R R') (hhand : v'.hand = none) (ht : v'.taken = v.taken)
    (hc : v'.collecting = v.collecting)
    (hrole : ∀ i, v'.role i = v.role i ∨ (v'.role i).steady ∧ v'.role i ≠ .zombie) (hmain : (v'.role 0).holds) :
    Steady R' v' none := by
  refine ⟨hhand, ht.trans h.taken, hc.trans h.collecting, fun i hi => ?_, fun i hi => ?_, hmain⟩
  · rcases hrole i with hr | hr
    · rw [hr]; exact h.role i hi
    · exact hr.1
  · rcases hrole i with hr | hr
    · rw [hs.zombies]; exact h.zombie i (by rw [← hr, hi])
    · exact absurd hi hr.2

omit [IoBackend Io] [LawfulIoBackend Io] in
private theorem giveClosure_sameRun (body : SppcClosure) : SameRun R (giveClosure R body) := by
  unfold giveClosure
  split <;> exact ⟨rfl, rfl⟩

omit [IoBackend Io] [LawfulIoBackend Io] in
private theorem discard_sameRun (body : SppcClosure) : SameRun R (sppcClosureDiscard R body) := by
  unfold sppcClosureDiscard sppcEnvFree
  split
  · exact ⟨rfl, rfl⟩
  · dsimp only
    split <;> split <;> exact ⟨rfl, rfl⟩

/-- `sppc_async`: the closure is held by a new task, or it is discarded. -/
theorem Live.async {body : SppcClosure} (h : Models R v) (hs : Steady R v none) (hr : Runs R v) (hl : v.locker = none)
    (ht : Table R) (hfresh : FreshEnv R body) (o : SpawnAnswer) :
    ∃ v', Models (sppcAsync R body o).1 v' ∧ Steady (sppcAsync R body o).1 v' none ∧ Runs (sppcAsync R body o).1 v' ∧
      v'.locker = none ∧ (sppcAsync R body o).1.current = R.current := by
  have hgive := giveClosure_sameRun (R := R) body
  have ht' : Table (giveClosure R body) := by
    have hstill : Still R (giveClosure R body) := by
      unfold giveClosure
      split
      · exact .refl R
      · exact .note rfl
    exact (hstill.keeps ht).1
  obtain ⟨hsame, hspawn⟩ := (h.give hfresh hs.hand).spawn hs.collecting ht' (hgive.zombies.trans hr.zombies) o
  have hsame := hgive.trans hsame
  -- the current task is not the one whose slot the spawn takes
  have hcur (t : Nat) (hrole : v.role t = .free ∨ v.role t = .unused) : R.current ≠ t := by
    rintro rfl
    rw [hr.role] at hrole
    simp at hrole
  have hnotMain (t : Nat) (hrole : v.role t = .free ∨ v.role t = .unused) : t ≠ 0 := by
    rintro rfl
    have := hs.main
    rcases hrole with h | h <;> rw [h] at this <;> cases this
  have finish {R' : GtRuntime Io} {v' : Roster} (hR : SameRun R R') (hm : Models R' v') (hhand : v'.hand = none)
      (htaken : v'.taken = v.taken) (hcollecting : v'.collecting = v.collecting) (hlock : v'.locker = v.locker)
      (hself : v'.role R.current = .running) (hrole : ∀ i, v'.role i = v.role i ∨ (v'.role i).steady ∧
        v'.role i ≠ .zombie) (hmain : (v'.role 0).holds) :
      ∃ v', Models R' v' ∧ Steady R' v' none ∧ Runs R' v' ∧ v'.locker = none ∧ R'.current = R.current :=
    ⟨v', hm, hs.other hR hhand htaken hcollecting hrole hmain,
      ⟨by rw [hR.current]; exact hself, hR.zombies.trans hr.zombies⟩, hlock.trans hl, hR.current⟩
  unfold sppcAsync
  rcases hspawn with ⟨⟨err, herr⟩, hmod⟩ | ⟨⟨handle, hok⟩, t, hrole, hmod⟩
  · rw [show gtSpawn (giveClosure R body) body o = ((gtSpawn (giveClosure R body) body o).1, .error err) from
      Prod.ext rfl herr]
    dsimp only
    have howns : ∀ e, body.env = some e → e.owns = true := fun e he => (hfresh e he).1
    have hR := hsame.trans (discard_sameRun body)
    rcases hmod with hmod | ⟨t, hrole, hmod⟩
    · exact finish hR (hmod.discard howns) rfl rfl rfl rfl hr.role (fun _ => .inl rfl) hs.main
    · refine finish hR (hmod.discard howns) rfl rfl rfl rfl ?_ (fun i => ?_) ?_
      · simpa [Roster.holding, Roster.retire, Roster.alloc, hcur t hrole] using hr.role
      · simp only [Roster.holding, Roster.retire, Roster.alloc, Function.update_apply]
        split
        · exact .inr ⟨rfl, by simp⟩
        · exact .inl rfl
      · have hmain := hnotMain t hrole
        exact Role.holds_update (Role.holds_update hs.main fun h => absurd h hmain) fun h => absurd h hmain
  · rw [show gtSpawn (giveClosure R body) body o = ((gtSpawn (giveClosure R body) body o).1, .ok handle) from
      Prod.ext rfl hok]
    dsimp only
    refine finish hsame hmod rfl rfl rfl rfl ?_ (fun i => ?_) ?_
    · simpa [Roster.holding, Roster.spawn, Roster.alloc, hcur t hrole] using hr.role
    · simp only [Roster.holding, Roster.spawn, Roster.alloc, Function.update_apply]
      split
      · exact .inr ⟨rfl, by simp⟩
      · exact .inl rfl
    · have hmain := hnotMain t hrole
      exact Role.holds_update (Role.holds_update hs.main fun h => absurd h hmain) fun h => absurd h hmain

/-- A change of the settings. -/
private theorem Live.settings (h : Models R v) (hs : Steady R v none) (hr : Runs R v) (hl : v.locker = none)
    (hq : Quiet R R') (ret : Int) : Live (toCode R' ret) v :=
  ⟨h.quiet hq, hs.other hq.sameRun hs.hand rfl rfl (fun _ => .inl rfl) hs.main,
    ⟨by show v.role R'.current = _; rw [hq.current]; exact hr.role, hq.zombies.trans hr.zombies⟩, hl⟩

/-- The backend moves by itself. -/
theorem Live.kernel {m : Machine Io} {e : IoBackend.Env Io} {io : Io} (h : Live m v)
    (hio : IoBackend.kernel e m.rt.io = some io) : Live { m with rt := { m.rt with io := io } } v := by
  obtain ⟨hm, hs, hc⟩ := h
  obtain ⟨hok, hp⟩ := LawfulIoBackend.kernel m.rt.io io e hm.counts.io_ok hio
  have hmod : Models _ v :=
    hm.setIo hok (by rw [hs.taken]; exact hp.trans (by simpa [hs.taken] using hm.counts.pending)) rfl
  refine ⟨hmod, ⟨hs.1, hs.2, hs.3, hs.4, hs.5, hs.6⟩, ?_⟩
  revert hc
  cases m.ctl <;> first | exact id | exact fun hc => ⟨⟨hc.1.role, hc.1.zombies⟩, hc.2⟩

/-! ### The end of the thread -/

omit [IoBackend Io] [LawfulIoBackend Io] in
private theorem gtTeardownSlot_story (live : Option Nat) (R : GtRuntime Io) (i : Nat) :
    SameStory R.log (gtTeardownSlot live R i).log := by
  have h := (gtTeardownStacks_quiet live R (R.slots i)).sameStory
  unfold gtTeardownSlot sppcEnvFree
  dsimp only
  split
  · split
    · exact h
    · exact h.aside rfl
  · exact h

omit [LawfulIoBackend Io] in
/-- The end of the thread changes nothing of what happened to the slots. -/
private theorem gtTeardown_story (hz : R.zombies = none) : SameStory R.log (gtTeardown R).rt.log := by
  have hfold (l : List Nat) (live : Option Nat) (R : GtRuntime Io) :
      SameStory R.log (l.foldl (gtTeardownSlot live) R).log := by
    induction l generalizing R with
    | nil => exact .refl _
    | cons i l ih => exact (gtTeardownSlot_story live R i).trans (ih _)
  unfold gtTeardown
  dsimp only
  rw [if_neg (by simp [hz])]
  refine SameStory.trans ?_ (gtStackFlush_quiet _ _).sameStory
  exact hfold _ _ { R with io := IoBackend.teardown R.io, inflight := 0 }

/-- What is left of the runtime of a thread that has exited: its log. -/
structure Ended (log : List Ev) : Prop where
  lives : ∀ t, life t log ≠ none
  taken : EachTaken log

theorem Models.lives (h : Models R v) (t : Nat) : life t R.log ≠ none := by
  cases ht : (v.role t).occupied with
  | true => rw [h.logged.lives t ht]; simp
  | false =>
    obtain ⟨L, hL, -⟩ := h.logged.vacant t ht
    rw [hL]
    simp

/-! ### Every step -/

/-- The invariant of a run. -/
def Inv (s : Machine Io) : Prop := (∃ v, Live s v) ∨ s.ctl = .exited ∧ Ended s.rt.log

/-- A machine in some task's code. -/
theorem Live.at_code (h : Live s v) (hc : s.ctl = .code) : Runs s.rt v ∧ v.locker = none := by
  have := h.ctl
  rw [hc] at this
  exact this

private theorem Live.next_async {body : SppcClosure} {o : SpawnAnswer} (h : Live s v) (ht : Table s.rt)
    (hstep : step s (.async body o) = some s') : ∃ v', Live s' v' := by
  have hc := h.ctl
  obtain ⟨hm, hs, -⟩ := h
  simp only [step] at hstep
  split at hstep
  case isFalse => cases hstep
  case isTrue hcode =>
    rw [hcode.1] at hc
    obtain ⟨v', hm', hs', hr', hl', -⟩ := Live.async hm hs hc.1 hc.2 ht hcode.2 o
    split at hstep
    all_goals
      rename_i R₁ _ heq
      rw [heq] at hm' hs' hr'
      cases hstep
      exact ⟨v', .code hm' hs' hr' hl' _⟩

/-- The scheduler's turn: it picks a task, or drains. -/
private theorem Live.next_turn (h : Live s v) (hstep : step s .turn = some s') : ∃ v', Live s' v' := by
  have hc := h.ctl
  obtain ⟨hm, hs, -⟩ := h
  simp only [step] at hstep
  split at hstep <;> cases hstep
  · rename_i hctl
    rw [hctl] at hc
    exact Live.pick hm hs hc
  · rename_i hctl
    rw [hctl] at hc
    exact Live.drain hm hs hc.1 hc.2

/-- A poll, of the scheduler or of a call that waits. -/
private theorem Live.next_poll (h : Live s v) (hstep : step s .poll = some s') : ∃ v', Live s' v' := by
  have hc := h.ctl
  obtain ⟨hm, hs, -⟩ := h
  simp only [step] at hstep
  split at hstep <;> cases hstep
  · rename_i f hctl
    rw [hctl] at hc
    obtain ⟨hf, hl, hg, hz⟩ := hc
    obtain ⟨v', hm', hs', hp⟩ := Live.poll hm hs .block
    have hR := gtIoPoll_frame s.rt .block
    exact ⟨v', hm', hs', by rw [hR.current]; exact hp.frame hf, hp.locker.trans hl, hg,
      fun hne => hR.zombies.trans (hz hne)⟩
  · rename_i c hctl
    rw [hctl] at hc
    obtain ⟨hr, hl, hlock⟩ := hc
    obtain ⟨v', hm', hs', hp⟩ := Live.poll hm hs (stepWait c.clock c.deadline)
    have hR := gtIoPoll_frame s.rt (stepWait c.clock c.deadline)
    exact ⟨v', hm', hs', hr.poll hp hR, by rw [hR.current]; exact hp.locker.trans hl,
      by rw [hR.lockWaiter, hR.current]; exact hlock⟩
  · rename_i k hctl
    rw [hctl] at hc
    obtain ⟨v', hm', hs', hp⟩ := Live.poll hm hs (stepWait k.clock k.deadline)
    have hR := gtIoPoll_frame s.rt (stepWait k.clock k.deadline)
    exact ⟨v', Live.lockUntil hm' hs' (hc.1.poll hp hR) (hp.locker.trans hc.2)⟩
  · rename_i hctl
    rw [hctl] at hc
    obtain ⟨v', hm', hs', hp⟩ := Live.poll hm hs .block
    exact ⟨v', hm', hs', hc.1.poll hp (gtIoPoll_frame s.rt .block), hp.locker.trans hc.2⟩

/-- A lock's turn ends, or an unlock inside a wait has answered. -/
private theorem Live.next_answered {err : Int} (h : Live s v) (hstep : step s (.answered err) = some s') :
    ∃ v', Live s' v' := by
  have hc := h.ctl
  obtain ⟨hm, hs, -⟩ := h
  simp only [step] at hstep
  split at hstep <;> cases hstep
  · rename_i c hctl
    rw [hctl] at hc
    exact Live.lockUntilEnd hm hs hc.1 hc.2.1
  · rename_i k hctl
    rw [hctl] at hc
    exact ⟨v, .code hm hs hc.1 hc.2 _⟩

private theorem Live.next_condGo {now : Timespec} (h : Live s v) (hstep : step s (.condGo now) = some s') :
    ∃ v', Live s' v' := by
  have hc := h.ctl
  obtain ⟨hm, hs, -⟩ := h
  simp only [step] at hstep
  split at hstep <;> cases hstep
  · rename_i k hctl
    rw [hctl] at hc
    exact Live.condReleased hm hs hc.1 hc.2
  · rename_i k hctl
    rw [hctl] at hc
    exact ⟨v, .code hm hs hc.1 hc.2 _⟩

/-- The thread exits. -/
private theorem Live.next_exit (h : Live s v) (hstep : step s .exit = some s') :
    s'.ctl = .exited ∧ Ended s'.rt.log := by
  have hc := h.ctl
  obtain ⟨hm, hs, -⟩ := h
  simp only [step] at hstep
  split at hstep <;> cases hstep
  rename_i hcode
  rw [hcode] at hc
  have hstory := gtTeardown_story hc.1.zombies
  exact ⟨rfl, fun t => by rw [hstory.life]; exact hm.lives t, hstory.taken hm.logged.taken⟩

private theorem Live.next_kernel {e : IoBackend.Env Io} (h : Live s v) (hstep : step s (.kernel e) = some s') :
    Live s' v := by
  simp only [step] at hstep
  split at hstep
  · cases hstep
  · split at hstep <;> cases hstep
    rename_i hio
    exact Live.kernel h hio

/-- A step of a live machine. -/
theorem Live.next {e : Event Io} (h : Live s v) (ht : Table s.rt) (hstep : step s e = some s')
    (hboth : NeverBoth s'.rt.log) (hacc : AllAccepted s'.rt.log) : Inv s' := by
  cases e with
  | async body o => exact .inl (h.next_async ht hstep)
  | turn => exact .inl (h.next_turn hstep)
  | poll => exact .inl (h.next_poll hstep)
  | answered err => exact .inl (h.next_answered hstep)
  | condGo now => exact .inl (h.next_condGo hstep)
  | exit => exact .inr (h.next_exit hstep)
  | kernel e => exact .inl ⟨v, h.next_kernel hstep⟩
  | tried err now =>
    have hc := h.ctl
    obtain ⟨hm, hs, -⟩ := h
    simp only [step] at hstep
    split at hstep <;> cases hstep
    rename_i c hctl
    rw [hctl] at hc
    exact .inl (Live.lockTurn hm hs hc.1 hc.2.1 hc.2.2)
  | finish =>
    have hc := h.ctl
    obtain ⟨hm, hs, -⟩ := h
    simp only [step] at hstep
    split at hstep <;> cases hstep
    rename_i hcode
    rw [hcode.1] at hc
    exact .inl (Live.finish hm hs hc.1 hc.2 hcode.2)
  | yield =>
    simp only [step] at hstep
    split at hstep <;> cases hstep
    rename_i hcode
    obtain ⟨hr, hl⟩ := h.at_code hcode
    exact .inl (Live.yield h.models h.steady hr hl)
  | await handle =>
    simp only [step] at hstep
    split at hstep <;> cases hstep
    rename_i hcode
    obtain ⟨hr, hl⟩ := h.at_code hcode
    exact .inl (Live.await h.models h.steady hr hl)
  | detach handle =>
    simp only [step] at hstep
    split at hstep <;> cases hstep
    rename_i hcode
    obtain ⟨hr, hl⟩ := h.at_code hcode
    exact .inl (Live.detach h.models h.steady hr hl hboth)
  | io req =>
    simp only [step] at hstep
    split at hstep <;> cases hstep
    rename_i hcode
    obtain ⟨hr, hl⟩ := h.at_code hcode
    exact .inl (Live.io h.models h.steady hr hl hacc)
  | lock lock clock deadline =>
    simp only [step] at hstep
    split at hstep <;> cases hstep
    rename_i hcode
    obtain ⟨hr, hl⟩ := h.at_code hcode
    exact .inl ⟨v, Live.lockUntil h.models h.steady hr hl⟩
  | unlock lock err =>
    simp only [step] at hstep
    split at hstep <;> cases hstep
    rename_i hcode
    obtain ⟨hr, hl⟩ := h.at_code hcode
    exact .inl (Live.unlock h.models h.steady hr hl)
  | condWait k err =>
    simp only [step] at hstep
    split at hstep <;> cases hstep
    rename_i hcode
    obtain ⟨hr, hl⟩ := h.at_code hcode
    exact .inl (Live.condWaitUntil h.models h.steady hr hl)
  | drain =>
    simp only [step] at hstep
    split at hstep <;> cases hstep
    rename_i hcode
    obtain ⟨hr, hl⟩ := h.at_code hcode
    exact .inl ⟨v, h.models, h.steady, hr, hl⟩
  | setStackSize bytes =>
    simp only [step] at hstep
    split at hstep <;> cases hstep
    rename_i hcode
    obtain ⟨hr, hl⟩ := h.at_code hcode
    exact .inl ⟨v, Live.settings h.models h.steady hr hl (gtSetStackSize_quiet _ _) 0⟩
  | setGuardPages enabled =>
    simp only [step] at hstep
    split at hstep <;> cases hstep
    rename_i hcode
    obtain ⟨hr, hl⟩ := h.at_code hcode
    exact .inl ⟨v, Live.settings h.models h.steady hr hl (gtSetGuardPages_quiet _ _) 0⟩

omit [LawfulIoBackend Io] in
/-- An exited thread makes no step. -/
theorem step_exited {e : Event Io} (h : s.ctl = .exited) : step s e = none := by
  cases e <;> simp [step, h]

/-- Every step keeps the invariant. -/
theorem Inv.step {e : Event Io} (h : Inv s) (ht : Table s.rt) (hstep : Sppc.step s e = some s')
    (hboth : NeverBoth s'.rt.log) (hacc : AllAccepted s'.rt.log) : Inv s' := by
  rcases h with ⟨v, h⟩ | ⟨h, -⟩
  · exact h.next ht hstep hboth hacc
  · rw [step_exited h] at hstep
    cases hstep

/-! ### From the start -/

/-- The abstract state at the start: the thread's own task runs. -/
def Roster.start : Roster where
  role := fun i => if i = 0 then .running else .unused
  ready := []
  free := []
  joiners := fun _ => []
  woken := fun _ => []
  waiting := []
  taken := []
  queue := []
  locker := none
  hand := none
  collecting := none

private theorem Roster.start_ok : Roster.start.Ok := by
  constructor
  all_goals simp only [Roster.start]
  all_goals grind

theorem gtInit_live {io : Io} (hio : IoBackend.Started io) (page : Nat) (unsafeStackWanted : Bool) :
    Live (gtInit io page unsafeStackWanted) Roster.start := by
  obtain ⟨hok, hp⟩ := LawfulIoBackend.started io hio
  have hslot0 : (gtInit io page unsafeStackWanted).rt.slots 0 =
      { GtTask.zero with gen := 1, state := .running } := rfl
  have hlog : (gtInit io page unsafeStackWanted).rt.log = [.started 0, .spawned 0, .alloc 0] := rfl
  have hrole (i : Nat) : Roster.start.role i = if i = 0 then .running else .unused := rfl
  have hslot (i : Nat) : ((gtInit io page unsafeStackWanted).rt.slots i).state = if i = 0 then
      .running else .free := by
    by_cases hi : i = 0
    · subst hi; rfl
    · simp [gtInit, gtSlotFresh, GtRuntime.modify, GtRuntime.note, toCode, gtRuntimeZero, GtTask.zero, hi]
  have hrest (i : Nat) : ((gtInit io page unsafeStackWanted).rt.slots i).waiters = none ∧
      ((gtInit io page unsafeStackWanted).rt.slots i).njoiners = 0 ∧
      ((gtInit io page unsafeStackWanted).rt.slots i).detached = false ∧
      ((gtInit io page unsafeStackWanted).rt.slots i).body.env = none := by
    by_cases hi : i = 0
    · subst hi; exact ⟨rfl, rfl, rfl, rfl⟩
    · simp [gtInit, gtSlotFresh, GtRuntime.modify, GtRuntime.note, toCode, gtRuntimeZero, GtTask.zero, hi]
  refine ⟨⟨Roster.start_ok, ?_, ?_, ?_, ?_, ?_⟩, ⟨rfl, rfl, rfl, fun i _ => ?_, fun i hi => ?_, rfl⟩,
    ⟨rfl, rfl⟩, rfl⟩
  · refine ⟨fun i => ?_, fun i st hi => ?_, rfl, rfl, rfl, fun t => ?_, fun z hz => ?_, fun i hi => ?_,
      fun i f _ hi => ?_⟩
    · rw [hrole]
      show _ ↔ 1 ≤ i
      grind
    · rw [hslot]
      rw [hrole] at hi
      grind [Role.state]
    · rw [(hrest t).1]
      rfl
    · cases hz
    · show i = 0
      rw [hrole] at hi
      grind
    · rw [hrole] at hi
      grind [Role.frame]
  · refine ⟨rfl, (fun i hi => by cases hi), fun i c hi => ?_, .nil⟩
    rw [hrole] at hi
    grind
  · refine ⟨fun t _ => (hrest t).2.1, fun t _ _ => ⟨rfl, rfl⟩, fun t _ => (hrest t).2.2.1, rfl, ?_, rfl, hok, ?_⟩
    · show 1 ≤ 2 ^ 19
      omega
    · show ([] ++ LawfulIoBackend.pending io).Perm []
      rw [hp]
      exact .refl _
  · refine ⟨fun t ht => ?_, fun t ht => ?_, fun t w hw => ?_, fun i op hi => ?_, fun t op st l hl => ?_⟩
    · have ht0 : t = 0 := by rw [hrole] at ht; grind [Role.occupied]
      subst ht0
      rw [hlog, (hrest 0).2.2.1]
      rfl
    · have ht0 : t ≠ 0 := by rw [hrole] at ht; grind [Role.occupied]
      refine ⟨Life.start, ?_, rfl⟩
      rw [hlog, life_other (by simpa [Ev.slot] using ht0.symm), life_other (by simpa [Ev.slot] using ht0.symm),
        life_other (by simpa [Ev.slot] using ht0.symm)]
      rfl
    · rcases hw with hw | hw <;> cases hw
    · rw [hrole] at hi
      grind
    · have := hl.subset (List.mem_cons_self ..)
      rw [hlog] at this
      simp at this
  · refine ⟨fun t e _ he => ?_, fun t t' e e' _ _ he => ?_, (fun e he => by cases he),
      fun id => .inr (.inr (.inl rfl))⟩
    · rw [(hrest t).2.2.2] at he
      cases he
    · rw [(hrest t).2.2.2] at he
      cases he
  · rw [hrole]
    split <;> rfl
  · rw [hrole] at hi
    grind

omit [LawfulIoBackend Io] in
/-- Nothing is ever taken out of the log. -/
theorem step_log {e : Event Io} (h : step s e = some s') (ht : Table s.rt) : s.rt.log <:+ s'.rt.log := by
  obtain ⟨l, hl, -⟩ := (step_keeps h ht).2.log
  rw [hl]
  exact List.suffix_append _ _

omit [LawfulIoBackend Io] in
theorem Reachable.tail (h : Reachable s) (h' : Transition.Reach step s s') : Reachable s' := by
  obtain ⟨io, page, unsafeStackWanted, hio, hs⟩ := h
  exact ⟨io, page, unsafeStackWanted, hio, hs.trans h'⟩

/-- The invariant holds in every state of a run. -/
theorem Reachable.inv (h : Reachable s) (hboth : NeverBoth s.rt.log) (hacc : AllAccepted s.rt.log) : Inv s := by
  obtain ⟨io, page, unsafeStackWanted, hio, hs⟩ := h
  refine (hs.invariant_under (P := fun t => Inv t ∧ Table t.rt)
    (Q := fun t => Table t.rt → NeverBoth t.rt.log ∧ AllAccepted t.rt.log) ?_ ?_ ⟨.inl ⟨_, gtInit_live hio _ _⟩, ?_⟩
    fun _ => ⟨hboth, hacc⟩).1
  · intro t e t' hstep hq ht
    obtain ⟨hb, ha⟩ := hq (step_keeps hstep ht).1
    exact ⟨hb.of_suffix (step_log hstep ht), ha.of_suffix (step_log hstep ht)⟩
  · rintro t e t' ⟨hinv, ht⟩ hq hstep
    have ht' := (step_keeps hstep ht).1
    exact ⟨hinv.step ht hstep (hq ht').1 (hq ht').2, ht'⟩
  · exact gtInit_table io page unsafeStackWanted

end Sppc
