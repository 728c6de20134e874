import Sppc.Slots
import Sppc.Table

/-!
# Spawning

`sppc_async` takes a closure in hand, spawns a task that holds it, or discards it where that fails.
-/

namespace Sppc

open LinkedList

variable {Io : Type} [IoBackend Io] [LawfulIoBackend Io] {R R' : GtRuntime Io} {v : Roster} {t : Nat}
  {body : SppcClosure} {o : SpawnAnswer}

/-! ### The closure in hand -/

/-- The abstract state with an environment in hand, or none. -/
def Roster.holding (v : Roster) (e : Option SppcClosureEnv) : Roster := { v with hand := e }

/-- The log has been told of every environment that is not unknown. -/
private theorem given_of_envStage {id : Nat} {log : List Ev} (h : ∀ e, Ev.given e ∈ log → e.id ≠ id) :
    envStage id log = some .unknown ∨ envStage id log = none := by
  induction log with
  | nil => exact .inl rfl
  | cons e log ih =>
    rcases ih fun e' he' => h e' (List.mem_cons_of_mem _ he') with hlog | hlog
    · rw [envStage_cons hlog]
      cases e <;> simp only [EnvStage.step]
      case given e => simp [h e (List.mem_cons_self ..)]
      all_goals grind
    · exact .inr (by rw [envStage, hlog])

/-- Only the environments' part changes. -/
private theorem Models.setEnvs {v' : Roster} (h : Models R v) (hv : v' = { v with hand := v'.hand })
    (hR : R' = { R with log := R'.log }) (hs : SameStory R.log R'.log) (ha : ∀ w, arrival w R'.log = arrival w R.log)
    (henvs : EnvsOk R' v') : Models R' v' := by
  obtain ⟨⟨o1, o2, o3, o4, o5, o6, o7, o8, o9, o10, o11, o12⟩, ⟨h1, h2, h3, h4, h5, h6, h7, h8, h9⟩, hlocks,
    ⟨c1, c2, c3, c4, c5, c6, c7, c8⟩, hlog, -⟩ := h
  generalize v'.hand = e at hv
  generalize R'.log = l at hR hs ha
  subst hv hR
  refine ⟨⟨o1, o2, o3, o4, o5, o6, o7, o8, o9, o10, o11, o12⟩, ⟨h1, h2, h3, h4, h5, h6, h7, h8, h9⟩, ?_,
    ⟨c1, c2, c3, c4, c5, c6, c7, c8⟩, ?_, henvs⟩
  · exact hlocks.congr rfl rfl ha rfl fun _ _ h => h
  · exact hlog.congr hs (fun _ => rfl) (fun _ => rfl) (fun _ => rfl) rfl rfl rfl fun _ _ h => h

/-- `sppc_async` is handed a closure. -/
theorem Models.give (h : Models R v) (hfresh : FreshEnv R body) (hhand : v.hand = none) :
    Models (giveClosure R body) (v.holding body.env) := by
  unfold giveClosure
  cases he : body.env with
  | none =>
    have : v.holding none = v := by rw [Roster.holding, ← hhand]
    rw [this]
    exact h
  | some e =>
    obtain ⟨-, hnew⟩ := hfresh e he
    obtain ⟨h1, h2, h3, h4⟩ := h.envs
    have hunknown : envStage e.id R.log = some .unknown := by
      rcases given_of_envStage hnew with hu | hu
      · exact hu
      · rcases h4 e.id with ⟨e', he', hid⟩ | ⟨i, e', hi, he', hid⟩ | hr | hr
        · rw [← hid, (h3 e' he').1] at hu; cases hu
        · rw [← hid, h1 i e' hi he'] at hu; cases hu
        · exact hr
        · rw [hu] at hr; cases hr
    have hgiven : envStage e.id (R.note (.given e)).log = some (.given e.dropCaptures) := by
      simp [GtRuntime.note, envStage_cons hunknown, EnvStage.step]
    have hold : ∀ id, id ≠ e.id → envStage id (R.note (.given e)).log = envStage id R.log := fun id hid =>
      envStage_other (by simpa [Ev.env] using Ne.symm hid)
    have hheld : ∀ i e', (v.role i).holds → (R.slots i).body.env = some e' → e'.id ≠ e.id := fun i e' hi he' hid => by
      have := h1 i e' hi he'
      rw [hid, hunknown] at this
      split at this <;> cases this
    refine h.setEnvs rfl rfl ((SameStory.refl _).aside rfl) (fun w => arrival_cons (by simp)) ⟨?_, h2, ?_, ?_⟩
    · intro i e' hi he'
      rw [hold e'.id (hheld i e' hi he')]
      exact h1 i e' hi he'
    · rintro e' ⟨⟩
      exact ⟨hgiven, hheld⟩
    · intro id
      by_cases hid : id = e.id
      · exact .inl ⟨e, rfl, hid.symm⟩
      · rw [hold id hid]
        rcases h4 id with ⟨e', he', -⟩ | hr
        · rw [hhand] at he'; cases he'
        · exact .inr hr

/-- The closure in hand is discarded. -/
theorem Models.discard (h : Models R (v.holding body.env)) (howns : ∀ e, body.env = some e → e.owns = true) :
    Models (sppcClosureDiscard R body) (v.holding none) := by
  unfold sppcClosureDiscard
  cases he : body.env with
  | none => rw [he] at h; exact h
  | some e =>
    rw [he] at h
    obtain ⟨h1, h2, h3, h4⟩ := h.envs
    obtain ⟨hgiven, hheld⟩ := h3 e rfl
    -- the two notes a discard makes, as one log
    obtain ⟨l, hl, hother, hfreed, hstory, harr⟩ : ∃ l : List Ev,
        (if e.owns then sppcEnvFree (if e.dropCaptures then R.note (.dropped e.id) else R) (some e)
          else (if e.dropCaptures then R.note (.dropped e.id) else R)) = { R with log := l } ∧
        (∀ id, id ≠ e.id → envStage id l = envStage id R.log) ∧ envStage e.id l = some .freed ∧
        SameStory R.log l ∧ ∀ w, arrival w l = arrival w R.log := by
      rw [if_pos (howns e he)]
      cases hc : e.dropCaptures with
      | false =>
        rw [hc] at hgiven
        refine ⟨.freed e.id :: R.log, rfl, fun id hid => envStage_other (by simpa [Ev.env] using Ne.symm hid), ?_,
          (SameStory.refl _).aside rfl, fun w => arrival_cons (by simp)⟩
        rw [envStage_cons hgiven]
        simp [EnvStage.step]
      | true =>
        rw [hc] at hgiven
        refine ⟨.freed e.id :: .dropped e.id :: R.log, rfl, fun id hid => ?_, ?_,
          ((SameStory.refl _).aside rfl).aside rfl, fun w => ?_⟩
        · rw [envStage_other (by simpa [Ev.env] using Ne.symm hid),
            envStage_other (by simpa [Ev.env] using Ne.symm hid)]
        · have hdrop : envStage e.id (.dropped e.id :: R.log) = some .dropped := by
            rw [envStage_cons hgiven]
            simp [EnvStage.step]
          rw [envStage_cons hdrop]
          simp [EnvStage.step]
        · rw [arrival_cons (by simp), arrival_cons (by simp)]
    dsimp only
    rw [hl]
    refine h.setEnvs rfl rfl hstory harr ⟨?_, h2, ?_, ?_⟩
    · intro i e' hi he'
      show envStage e'.id l = _
      rw [hother e'.id (hheld i e' hi he')]
      exact h1 i e' hi he'
    · intro e' he'
      cases he'
    · intro id
      by_cases hid : id = e.id
      · subst hid
        exact .inr (.inr (.inr hfreed))
      · rcases h4 id with ⟨e', he', hid'⟩ | hr | hr
        · cases he'
          exact absurd hid'.symm hid
        · exact .inr (.inl hr)
        · exact .inr (.inr (by simpa only [hother id hid] using hr))

/-! ### The slot -/

private theorem Models.grow (h : Models R v) (n : Nat) : Models { R with cslots := n } v := by
  obtain ⟨hok, ⟨h1, h2, h3, h4, h5, h6, h7, h8, h9⟩, ⟨k1, k2, k3, k4⟩, ⟨c1, c2, c3, c4, c5, c6, c7, c8⟩,
    ⟨l1, l2, l3, l4, l5⟩, ⟨e1, e2, e3, e4⟩⟩ := h
  exact ⟨hok, ⟨h1, h2, h3, h4, h5, h6, h7, h8, h9⟩, ⟨k1, k2, k3, k4⟩, ⟨c1, c2, c3, c4, c5, c6, c7, c8⟩,
    ⟨l1, l2, l3, l4, l5⟩, ⟨e1, e2, e3, e4⟩⟩

/-- What a spawn leaves alone. -/
structure SameRun (R R' : GtRuntime Io) : Prop where
  current : R'.current = R.current
  zombies : R'.zombies = R.zombies

omit [IoBackend Io] [LawfulIoBackend Io] in
theorem SameRun.trans {R'' : GtRuntime Io} (h : SameRun R R') (h' : SameRun R' R'') : SameRun R R'' :=
  ⟨h'.1.trans h.1, h'.2.trans h.2⟩

omit [IoBackend Io] [LawfulIoBackend Io] in
theorem Quiet.sameRun (h : Quiet R R') : SameRun R R' := ⟨h.current, h.zombies⟩

/-- `_gt_slot_alloc`. -/
theorem Models.slotAlloc (h : Models R v) (hc : v.collecting = none) (ht : Table R) (o : SpawnAnswer) :
    (∃ R', gtSlotAlloc R o = (none, R') ∧ Models R' v ∧ SameRun R R') ∨
    ∃ t R', gtSlotAlloc R o = (some t, R') ∧ Models R' (v.alloc t) ∧ SameRun R R' ∧
      (v.role t = .free ∨ v.role t = .unused) := by
  unfold gtSlotAlloc
  cases hf : R.freeSlots with
  | some t =>
    have hlink := h.lists.free
    rw [hf] at hlink
    obtain ⟨l, hl, -⟩ := hlink.exists_cons
    have hrole : v.role t = .free := (h.ok.free_iff t).1 (by rw [hl]; exact List.mem_cons_self ..)
    refine .inr ⟨t, _, rfl, ?_, ⟨rfl, rfl⟩, .inl hrole⟩
    rw [gtSlotReuse_eq]
    exact h.alloc hc ht.nslots_le' (.inl ⟨hrole, hf, rfl, rfl⟩)
  | none =>
    cases hg : gtSlotsGrow R o.realloc with
    | none => exact .inl ⟨R, rfl, h, rfl, rfl⟩
    | some R' =>
      obtain ⟨ht', hroom, heq⟩ := gtSlotsGrow_table ht hg
      have hgrown : Models R' v := by rw [heq]; exact h.grow _
      have hsame : SameRun R R' := by rw [heq]; exact ⟨rfl, rfl⟩
      dsimp only
      split
      · have hrole : v.role R'.nslots = .unused := (hgrown.lists.unused_iff _).2 (Nat.le_refl _)
        have hincr : incr 32 R'.nslots = R'.nslots + 1 := by
          have := ht'.cslots_le
          exact incr_of_lt (show R'.nslots + 1 < 2 ^ 32 by omega)
        refine .inr ⟨R'.nslots, _, rfl, ?_, ?_, .inr hrole⟩
        · rw [gtSlotFresh_eq]
          have := ht'.cslots_le
          exact hgrown.alloc hc (by omega) (.inr ⟨hrole, rfl, rfl, hincr⟩)
        · rw [gtSlotFresh_eq]
          exact hsame.trans ⟨rfl, rfl⟩
      · exact .inl ⟨R', rfl, hgrown, hsame⟩

/-- A slot handed out to a spawn that fails is handed back. -/
private theorem models_giveUp (h : Models R v) (hrole : v.role t = .fresh) (hz : R.zombies ≠ some t)
    (hc : v.collecting = none) :
    Models (gtSlotFree R t) (v.retire t) := by
  refine h.retire (.inl hrole) (by simp [hrole]) (h.ok.woken_nil ?_) hz hc
  rw [hrole]
  simp [Role.stage]

/-! ### The task -/

omit [IoBackend Io] [LawfulIoBackend Io] in
/-- Writing to the fields of a block that is on no list, its links apart. -/
theorem ListsOk.modify {g : GtTask → GtTask} (h : ListsOk R v) (hn : ∀ s, (g s).next = s.next)
    (hwn : ∀ s, (g s).wnext = s.wnext) (hw : ∀ s, (g s).waiters = s.waiters) (hs : ∀ s, (g s).state = s.state)
    (hf : (v.role t).frame = none) : ListsOk (R.modify t g) v := by
  have hslots : ∀ i, ((R.modify t g).slots i).next = (R.slots i).next ∧
      ((R.modify t g).slots i).wnext = (R.slots i).wnext ∧
      ((R.modify t g).slots i).waiters = (R.slots i).waiters ∧
      ((R.modify t g).slots i).state = (R.slots i).state ∧
      (i ≠ t → ((R.modify t g).slots i).sp = (R.slots i).sp) := fun i => by
    simp only [GtRuntime.modify, Function.update_apply]
    split
    · subst i
      exact ⟨hn _, hwn _, hw _, hs _, fun h => absurd rfl h⟩
    · exact ⟨rfl, rfl, rfl, rfl, fun _ => rfl⟩
  have hnext : (fun i => ((R.modify t g).slots i).next) = fun i => (R.slots i).next := funext fun i => (hslots i).1
  have hwnext : (fun i => ((R.modify t g).slots i).wnext) = fun i => (R.slots i).wnext :=
    funext fun i => (hslots i).2.1
  obtain ⟨h1, h2, h3, h4, h5, h6, h7, h8, h9⟩ := h
  refine ⟨h1, fun i s hi => ?_, by rw [hnext]; exact h3, h4, by rw [hnext]; exact h5, fun u => ?_, fun z hz => ?_, h8,
    fun i f hi hif => ?_⟩
  · rw [(hslots i).2.2.2.1]
    exact h2 i s hi
  · rw [hwnext, (hslots u).2.2.1]
    exact h6 u
  · rw [(hslots z).1]
    exact h7 z hz
  · have hit : i ≠ t := by rintro rfl; rw [hf] at hif; cases hif
    rw [(hslots i).2.2.2.2 hit]
    exact h9 i f hi hif

/-- The end of a spawn: the task is ready, and holds the closure. -/
theorem Models.spawnReady {size stack : Nat} {ustack : Option Nat} (h : Models R (v.holding body.env))
    (hrole : v.role t = .fresh) : Models (gtSpawnReady R t body size stack ustack).1 ((v.spawn t).holding none) := by
  have hr : ((v.spawn t).holding none).role = Function.update v.role t (.ready .entry) := rfl
  have hslots : ∀ i, ((gtSpawnReady R t body size stack ustack).1.slots i).njoiners = (R.slots i).njoiners ∧
      ((gtSpawnReady R t body size stack ustack).1.slots i).detached = (R.slots i).detached ∧
      ((gtSpawnReady R t body size stack ustack).1.slots i).body = if i = t then body else (R.slots i).body :=
    fun i => by
      simp only [gtSpawnReady, gtRqPush_eq, GtRuntime.modify, GtRuntime.note, Function.update_apply]
      by_cases hi : i = t
      · subst hi; simp
      · simp [hi]
  have hlog : (gtSpawnReady R t body size stack ustack).1.log = .spawned t :: R.log := by
    simp [gtSpawnReady, gtRqPush_eq, GtRuntime.modify, GtRuntime.note]
  have hok : ((v.spawn t).holding none).Ok := by
    obtain ⟨o1, o2, o3, o4, o5, o6, o7, o8, o9, o10, o11, o12⟩ := h.ok.spawn hrole
    exact ⟨o1, o2, o3, o4, o5, o6, o7, o8, o9, o10, o11, o12⟩
  refine ⟨hok, ?_, ?_, ?_, ?_, ?_⟩
  · -- the new task's fields are written before it is pushed
    have hmod := h.lists.modify (t := t) (g := fun s =>
      { s with
        body := body
        stack := some stack
        stackSize := size
        ustack := ustack
        ustackSize := if ustack = none then 0 else size
        usp := ustack.map (· + size)
        sp := some .entry }) (fun _ => rfl) (fun _ => rfl) (fun _ => rfl) (fun _ => rfl)
      (by show (v.role t).frame = none; rw [hrole]; rfl)
    have hpush : ListsOk _ ((v.spawn t).holding none) := hmod.push (t := t) (f := .entry) h.ok.ready_iff h.ok.free_iff
      (by rw [h.ok.ready_iff]; simp [Roster.holding, hrole]) (by simp [Roster.holding, hrole])
      (by simp [Roster.holding, hrole]) (by simp [Roster.holding, hrole])
      (fun _ => by simp [GtRuntime.modify]) rfl rfl rfl rfl
    obtain ⟨h1, h2, h3, h4, h5, h6, h7, h8, h9⟩ := hpush
    exact ⟨h1, h2, h3, h4, h5, h6, h7, h8, h9⟩
  · refine h.locks.congr ?_ ?_ (fun w => by rw [hlog, arrival_cons (by simp)]) rfl ?_
    · simp [gtSpawnReady, gtRqPush_eq, GtRuntime.modify, GtRuntime.note]
    · simp [gtSpawnReady, gtRqPush_eq, GtRuntime.modify, GtRuntime.note]
    · simp only [Roster.holding, Roster.spawn, Function.update_apply]
      grind
  · refine h.counts.congr (fun i => (hslots i).1) (fun i => (hslots i).2.1) ?_ ?_ ?_ ?_ ?_ ?_ rfl rfl rfl rfl rfl
    · simp [gtSpawnReady, gtRqPush_eq, GtRuntime.modify, GtRuntime.note]
    · simp [gtSpawnReady, gtRqPush_eq, GtRuntime.modify, GtRuntime.note]
    · simp [gtSpawnReady, gtRqPush_eq, GtRuntime.modify, GtRuntime.note]
    · simp [gtSpawnReady, gtRqPush_eq, GtRuntime.modify, GtRuntime.note]
    · simp only [Roster.holding, Roster.spawn, Function.update_apply]
      grind [Role.occupied]
    · simp only [Roster.holding, Roster.spawn, Function.update_apply]
      grind
  · refine h.logged.cons (t := t) hlog rfl (by simp) (by simp [Roster.holding, hrole, Role.occupied]) ?_ ?_ ?_
      (fun i _ => (hslots i).2.1) (fun _ _ => rfl) (fun _ _ => rfl) (fun _ _ => rfl) ?_ (fun w hw => .inr hw) ?_
    · simp only [hr, Function.update_self, (hslots t).2.1]
      simp [Life.step, Roster.holding, Roster.spawn, hrole, Role.stage, Roster.collects]
    · simp only [Roster.holding, Roster.spawn, Function.update_apply]
      grind
    · simp only [Roster.holding, Roster.spawn, Function.update_apply]
      grind
    · simp [hr, Role.occupied]
    · simp only [Roster.holding, Roster.spawn, Function.update_apply]
      grind
  · have hstage : ∀ id, envStage id (gtSpawnReady R t body size stack ustack).1.log =
        envStage id R.log := fun id => by
      rw [hlog, envStage_other (by simp [Ev.env])]
    have hholds : ∀ i, (((v.spawn t).holding none).role i).holds = true ↔
        i = t ∨ (v.role i).holds = true := fun i => by
      simp only [hr, Function.update_apply]
      grind [Role.holds]
    have hnot : (v.role t).holds = false := by rw [hrole]; rfl
    obtain ⟨h1, h2, h3, h4⟩ := h.envs
    have hbody : ∀ i, i ≠ t → ((gtSpawnReady R t body size stack ustack).1.slots i).body = (R.slots i).body :=
      fun i hi => by rw [(hslots i).2.2, if_neg hi]
    have hbody' : ((gtSpawnReady R t body size stack ustack).1.slots t).body = body := by
      rw [(hslots t).2.2, if_pos rfl]
    constructor
    · intro i e hi he
      rw [hstage]
      by_cases hit : i = t
      · subst hit
        rw [hbody'] at he
        simpa [hr, Role.stage] using (h3 e he).1
      · rw [hbody i hit] at he
        have hri : ((v.spawn t).holding none).role i = v.role i := by simp [hr, hit]
        rw [hri]
        exact h1 i e (((hholds i).1 hi).resolve_left hit) he
    · intro i i' e e' hi hi' he he' hid
      by_cases hit : i = t <;> by_cases hit' : i' = t
      · rw [hit, hit']
      · subst hit
        rw [hbody'] at he
        rw [hbody i' hit'] at he'
        exact absurd hid.symm ((h3 e he).2 i' e' (((hholds i').1 hi').resolve_left hit') he')
      · subst hit'
        rw [hbody i hit] at he
        rw [hbody'] at he'
        exact absurd hid ((h3 e' he').2 i e (((hholds i).1 hi).resolve_left hit) he)
      · rw [hbody i hit] at he
        rw [hbody i' hit'] at he'
        exact h2 i i' e e' (((hholds i).1 hi).resolve_left hit) (((hholds i').1 hi').resolve_left hit') he he' hid
    · intro e he
      cases he
    · intro id
      rw [hstage]
      rcases h4 id with ⟨e, he, hid⟩ | ⟨i, e, hi, he, hid⟩ | hrest
      · exact .inr (.inl ⟨t, e, (hholds t).2 (.inl rfl), by rw [hbody']; exact he, hid⟩)
      · have hit : i ≠ t := by
          rintro rfl
          have : (v.role i).holds = true := hi
          rw [hnot] at this
          cases this
        exact .inr (.inl ⟨i, e, (hholds i).2 (.inr hi), by rw [hbody i hit]; exact he, hid⟩)
      · exact .inr (.inr hrest)

omit [IoBackend Io] [LawfulIoBackend Io] in
private theorem spawnReady_sameRun {size stack : Nat} {ustack : Option Nat} :
    SameRun R (gtSpawnReady R t body size stack ustack).1 := by
  constructor <;> simp [gtSpawnReady, gtRqPush_eq, GtRuntime.modify, GtRuntime.note]

/-! ### `sppc_async` -/

/-- `_gt_spawn`: it fails and leaves the abstract state, or a slot that was free or unused is ready. -/
theorem Models.spawn (h : Models R (v.holding body.env)) (hc : v.collecting = none) (ht : Table R)
    (hz : R.zombies = none) (o : SpawnAnswer) :
    SameRun R (gtSpawn R body o).1 ∧
    ((∃ err, (gtSpawn R body o).2 = .error err) ∧
        (Models (gtSpawn R body o).1 (v.holding body.env) ∨
          ∃ t, (v.role t = .free ∨ v.role t = .unused) ∧
            Models (gtSpawn R body o).1 (((v.alloc t).retire t).holding body.env)) ∨
      (∃ handle, (gtSpawn R body o).2 = .ok handle) ∧ ∃ t, (v.role t = .free ∨ v.role t = .unused) ∧
        Models (gtSpawn R body o).1 (((v.alloc t).spawn t).holding none)) := by
  unfold gtSpawn
  rcases h.slotAlloc hc ht o with ⟨R₁, heq, h₁, hs₁⟩ | ⟨t, R₁, heq, h₁, hs₁, hrole⟩
  · rw [heq]
    exact ⟨hs₁, .inl ⟨⟨_, rfl⟩, .inl h₁⟩⟩
  · rw [heq]
    have hfresh : ((v.alloc t).holding body.env).role t = .fresh := by simp [Roster.holding, Roster.alloc]
    -- every failure from here on hands the slot back
    have hback {R' : GtRuntime Io} (hq : Quiet R₁ R') : SameRun R (gtSlotFree R' t) ∧
        Models (gtSlotFree R' t) (((v.alloc t).retire t).holding body.env) := by
      have hz' : R'.zombies ≠ some t := by rw [hq.zombies, hs₁.zombies, hz]; simp
      refine ⟨hs₁.trans (hq.sameRun.trans ?_), models_giveUp (h₁.quiet hq) hfresh hz' hc⟩
      rw [gtSlotFree_eq]
      exact ⟨rfl, rfl⟩
    have hready {R' : GtRuntime Io} {size stack : Nat} {ustack : Option Nat} (hq : Quiet R₁ R') :
        SameRun R (gtSpawnReady R' t body size stack ustack).1 ∧
        Models (gtSpawnReady R' t body size stack ustack).1 (((v.alloc t).spawn t).holding none) := by
      refine ⟨hs₁.trans (hq.sameRun.trans spawnReady_sameRun), ?_⟩
      exact Models.spawnReady (v := v.alloc t) (h₁.quiet hq) hfresh
    have hstack := gtStackAlloc_quiet R₁ R₁.stackSize o.stack
    dsimp only
    split
    · rename_i R₂ heq₂
      rw [heq₂] at hstack
      exact ⟨(hback hstack).1, .inl ⟨⟨_, rfl⟩, .inr ⟨t, hrole, (hback hstack).2⟩⟩⟩
    · rename_i stack R₂ heq₂
      rw [heq₂] at hstack
      have hustack := hstack.trans (gtStackAlloc_quiet R₂ R₁.stackSize o.ustack)
      split
      · split
        · rename_i R₃ heq₃
          rw [heq₃] at hustack
          have hq := hustack.trans (gtStackFree_quiet R₃ (some stack) R₁.stackSize)
          exact ⟨(hback hq).1, .inl ⟨⟨_, rfl⟩, .inr ⟨t, hrole, (hback hq).2⟩⟩⟩
        · rename_i ustack R₃ heq₃
          rw [heq₃] at hustack
          exact ⟨(hready hustack).1, .inr ⟨⟨_, rfl⟩, t, hrole, (hready hustack).2⟩⟩
      · exact ⟨(hready hstack).1, .inr ⟨⟨_, rfl⟩, t, hrole, (hready hstack).2⟩⟩

end Sppc
