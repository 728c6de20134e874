import Sppc.Awaiting

/-!
# The end of a task

`_gt_task_run` wakes the awaiters of a task from a list it has already taken off the task.  In the loop the invariant
is that of the runtime with what is left of the list put back (`withWaiters`).
-/

namespace Sppc

open LinkedList

variable {Io : Type} {R : GtRuntime Io} {v : Roster} {t w s : Nat}

/-! ### The body has returned -/

/-- The runtime once the body of the running task has returned and its environment is freed. -/
def finished (R : GtRuntime Io) : GtRuntime Io :=
  let R' := sppcEnvFree (R.note (.returned R.current)) (R.slots R.current).body.env
  { R' with
    slots := fun i => { R.slots i with
      body := { (R.slots i).body with env := if i = R.current then none else (R.slots i).body.env }
      state := if i = R.current then .done else (R.slots i).state } }

/-- The runtime with `p` as the waiters of `s`. -/
def withWaiters (R : GtRuntime Io) (s : Nat) (p : Option Nat) : GtRuntime Io :=
  { R with slots := fun i => { R.slots i with waiters := if i = s then p else (R.slots i).waiters } }

private theorem withWaiters_self (R : GtRuntime Io) (s : Nat) : withWaiters R s (R.slots s).waiters = R := by
  have : (fun i => { R.slots i with waiters := if i = s then (R.slots s).waiters else (R.slots i).waiters }) =
      R.slots := by
    funext i
    split
    · subst i; rfl
    · rfl
  rw [withWaiters, this]

private theorem sppcEnvFree_eq (R : GtRuntime Io) (env : Option SppcClosureEnv) :
    sppcEnvFree R env = { R with log := (sppcEnvFree R env).log } := by
  cases env <;> rfl

variable [IoBackend Io] [LawfulIoBackend Io]

omit [IoBackend Io] [LawfulIoBackend Io] in
private theorem envs_finished (h : EnvsOk R v) (hrun : v.role R.current = .running) :
    EnvsOk (finished R) (v.finish R.current) := by
  obtain ⟨h1, h2, h3, h4⟩ := h
  have hself : (v.role R.current).holds := by rw [hrun]; rfl
  have hholds : ∀ i, ((v.finish R.current).role i).holds = true ↔
      i ≠ R.current ∧ (v.role i).holds = true := fun i => by
    simp only [Roster.finish, Function.update_apply]
    grind [Role.holds]
  have hstage : ∀ i, i ≠ R.current → (v.finish R.current).role i = v.role i := fun i hi => by
    simp [Roster.finish, hi]
  have hbody : ∀ i, i ≠ R.current → ((finished R).slots i).body.env = (R.slots i).body.env := fun i hi => by
    simp [finished, hi]
  have hnone (he : (R.slots R.current).body.env = none) : (finished R).log = .returned R.current :: R.log := by
    unfold finished sppcEnvFree GtRuntime.note
    rw [he]
  have hsome {e : SppcClosureEnv} (he : (R.slots R.current).body.env = some e) :
      (finished R).log = .freed e.id :: .returned R.current :: R.log := by
    unfold finished sppcEnvFree GtRuntime.note
    rw [he]
  have hold : ∀ id, (∀ e, (R.slots R.current).body.env = some e → e.id ≠ id) →
      envStage id (finished R).log = envStage id R.log := fun id hid => by
    cases he : (R.slots R.current).body.env with
    | none =>
      rw [hnone he]
      exact envStage_other (by simp [Ev.env])
    | some e =>
      rw [hsome he, envStage_other (by simpa [Ev.env] using hid e he), envStage_other (by simp [Ev.env])]
  have hnew : ∀ e, (R.slots R.current).body.env = some e → envStage e.id (finished R).log = some .freed :=
    fun e he => by
      have hcalled := h1 _ e hself he
      rw [hrun, if_pos (show Role.running.stage = .started from rfl)] at hcalled
      rw [hsome he, envStage_cons (by rw [envStage_other (by simp [Ev.env])]; exact hcalled)]
      simp [EnvStage.step]
  constructor
  · intro i e hi he
    obtain ⟨hne, hi⟩ := (hholds i).1 hi
    rw [hbody i hne] at he
    rw [hstage i hne, hold e.id fun e' he' hid => hne (h2 _ i e' e hself hi he' he hid).symm]
    exact h1 i e hi he
  · intro i i' e e' hi hi' he he'
    obtain ⟨hne, hi⟩ := (hholds i).1 hi
    obtain ⟨hne', hi'⟩ := (hholds i').1 hi'
    rw [hbody i hne] at he
    rw [hbody i' hne'] at he'
    exact h2 i i' e e' hi hi' he he'
  · intro e he
    obtain ⟨hgiven, hne⟩ := h3 e he
    refine ⟨?_, fun i e' hi he' => ?_⟩
    · rw [hold e.id fun e' he' => hne _ e' hself he']
      exact hgiven
    · obtain ⟨hic, hi⟩ := (hholds i).1 hi
      rw [hbody i hic] at he'
      exact hne i e' hi he'
  · intro id
    by_cases hid : ∃ e, (R.slots R.current).body.env = some e ∧ e.id = id
    · obtain ⟨e, he, rfl⟩ := hid
      exact .inr (.inr (.inr (hnew e he)))
    · rw [hold id fun e he heq => hid ⟨e, he, heq⟩]
      rcases h4 id with h | ⟨i, e, hi, he, heq⟩ | h
      · exact .inl h
      · have hic : i ≠ R.current := by
          rintro rfl
          exact hid ⟨e, he, heq⟩
        exact .inr (.inl ⟨i, e, (hholds i).2 ⟨hic, hi⟩, by rw [hbody i hic]; exact he, heq⟩)
      · exact .inr (.inr h)

/-- The body of the running task has returned. -/
theorem Models.finished (h : Models R v) (hrun : v.role R.current = .running) (hl : v.locker = none) :
    Models (finished R) (v.finish R.current) := by
  have heq := sppcEnvFree_eq (R.note (.returned R.current)) (R.slots R.current).body.env
  have hlog : LogOk (R.note (.returned R.current)) (v.finish R.current) := by
    refine h.logged.cons rfl rfl (by simp) (by rw [hrun]; rfl) ?_ ?_ ?_ (fun _ _ => rfl) (fun _ _ => rfl)
      (fun _ _ => rfl) (fun _ _ => rfl) ?_ (fun w hw => .inr hw) ?_
    all_goals simp only [Roster.finish, Function.update_apply]
    · simp [Life.step, hrun, Role.stage, GtRuntime.note, Roster.collects]
    · grind
    · grind
    · simp [Role.occupied]
    · grind
  have hsame : SameStory (R.note (.returned R.current)).log (Sppc.finished R).log := by
    unfold Sppc.finished sppcEnvFree
    cases (R.slots R.current).body.env with
    | none => exact .refl _
    | some e => exact (SameStory.refl _).aside rfl
  have harr : ∀ w, arrival w (Sppc.finished R).log = arrival w R.log := fun w => by
    unfold Sppc.finished sppcEnvFree
    cases (R.slots R.current).body.env with
    | none => exact arrival_cons (by simp)
    | some e =>
      dsimp only [GtRuntime.note]
      rw [arrival_cons (by simp), arrival_cons (by simp)]
  have henvs := envs_finished h.envs hrun
  unfold Sppc.finished at hsame harr henvs ⊢
  dsimp only at hsame harr henvs ⊢
  rw [heq] at hsame harr henvs ⊢
  refine ⟨h.ok.finish hrun hl, ?_, ?_, ?_, ?_, henvs⟩
  · obtain ⟨h1, h2, h3, h4, h5, h6, h7, h8, h9⟩ := h.lists
    refine ⟨?_, ?_, h3, h4, h5, h6, ?_, ?_, ?_⟩
    · simp only [Roster.finish, Function.update_apply]; grind [GtRuntime.note]
    · simp only [Roster.finish, Function.update_apply]; grind [Role.state]
    · simp only [Roster.finish, Function.update_apply]; grind [GtRuntime.note]
    · simp only [Roster.finish, Function.update_apply]; grind [GtRuntime.note]
    · simp only [Roster.finish, Function.update_apply]; grind [Role.frame, GtRuntime.note]
  · refine h.locks.congr rfl rfl harr rfl ?_
    simp only [Roster.finish, Function.update_apply]
    grind
  · refine h.counts.congr (fun _ => rfl) (fun _ => rfl) rfl rfl rfl rfl ?_ ?_ rfl rfl rfl rfl rfl
    all_goals simp only [Roster.finish, Function.update_apply]
    all_goals grind [Role.occupied]
  · exact hlog.congr hsame (fun _ => rfl) (fun _ => rfl) (fun _ => rfl) rfl rfl rfl fun _ _ h => h

/-! ### Waking the awaiters -/

/-- One awaiter is woken. -/
def woke (R : GtRuntime Io) (w s : Nat) : GtRuntime Io :=
  (gtRqPush (R.modify w fun b => { b with wnext := none }) w).note (.woken w s)

omit [IoBackend Io] [LawfulIoBackend Io] in
private theorem withWaiters_woke (R : GtRuntime Io) (w s : Nat) (p : Option Nat) :
    withWaiters (woke R w s) s p =
      (gtRqPush ((withWaiters R s p).modify w fun b => { b with wnext := none }) w).note (.woken w s) := by
  unfold woke withWaiters
  rw [gtRqPush_eq, gtRqPush_eq]
  simp only [GtRuntime.modify, GtRuntime.note, GtRuntime.mk.injEq, true_and, and_true]
  refine ⟨rfl, funext fun i => ?_⟩
  by_cases hi : i = w
  · subst hi
    simp
  · simp [hi]

private theorem models_woke {l : List Nat} {p : Option Nat} (h : Models (withWaiters R s (some w)) v)
    (hs : v.role s = .ending) (hj : v.joiners s = w :: l) (hp : p = (R.slots w).wnext) :
    Models (withWaiters (woke R w s) s p) (v.wake w s) := by
  have hmem : w ∈ v.joiners s := by rw [hj]; exact List.mem_cons_self ..
  have hw : v.role w = .joining s := (h.ok.joiners_iff w s).1 hmem
  have hws : w ≠ s := by rintro rfl; rw [hw] at hs; cases hs
  have hnd := (h.lists.joiners s).nodup
  have hfalse : (R.slots s).detached = false := by
    cases hd : (R.slots s).detached with
    | false => rfl
    | true =>
      have := (h.counts.detached s (by rw [hs]; rfl) (by simpa [withWaiters] using hd)).1
      rw [hj] at this
      cases this
  have herase : (v.joiners s).erase w = l := by rw [hj, List.erase_cons_head]
  have hrole : (v.wake w s).role = Function.update v.role w (.ready (.joined s)) := rfl
  have hslots : ∀ i, ((withWaiters R s p).modify w fun b => { b with wnext := none }).slots i =
      { R.slots i with
        wnext := if i = w then none else (R.slots i).wnext
        waiters := if i = s then p else (R.slots i).waiters } := fun i => by
    simp only [GtRuntime.modify, withWaiters, Function.update_apply]
    by_cases hi : i = w
    · subst hi; simp [hws]
    · simp [hi]
  -- first the awaiter comes off the list, then it is pushed
  have hoff : ListsOk ((withWaiters R s p).modify w fun b => { b with wnext := none })
      { v with joiners := Function.update v.joiners s l } := by
    obtain ⟨h1, h2, h3, h4, h5, h6, h7, h8, h9⟩ := h.lists
    refine ⟨h1, ?_, ?_, h4, ?_, ?_, ?_, h8, ?_⟩
    all_goals simp only [hslots]
    · exact h2
    · exact h3
    · exact h5
    · intro u
      by_cases hus : u = s
      · subst hus
        have h6u := h6 u
        rw [hj] at h6u hnd
        simp only [withWaiters, ↓reduceIte] at h6u
        simp only [↓reduceIte, Function.update_self, hp]
        refine h6u.pop_front fun b hb => ?_
        have hbw : b ≠ w := by
          rintro rfl
          exact (List.nodup_cons.1 hnd).1 hb
        simp [hbw]
      · have h6u := h6 u
        simp only [withWaiters, hus, ↓reduceIte] at h6u
        simp only [hus, ↓reduceIte, ne_eq, not_false_eq_true, Function.update_of_ne]
        refine h6u.congr fun b hb => ?_
        have hbw : b ≠ w := by
          rintro rfl
          have := (h.ok.joiners_iff b u).1 hb
          rw [hw] at this
          cases this
          exact hus rfl
        simp [hbw]
    · exact h7
    · exact h9
  refine ⟨h.ok.wake hw hs hnd, ?_, ?_, ?_, ?_, ?_⟩
  · rw [withWaiters_woke]
    have hsp : w ≠ R.current → (R.slots w).sp = some (.joined s) := fun hne =>
      h.lists.frame w _ hne (by rw [hw]; rfl)
    have hpush : ListsOk _ (v.wake w s) := hoff.push (t := w) (f := .joined s) h.ok.ready_iff h.ok.free_iff
      (by simp [h.ok.ready_iff, hw]) (by simp [hw]) (by simp [hw]) (by simp [hw])
      (fun hne => by simpa [GtRuntime.modify, withWaiters] using hsp hne) hrole rfl rfl (by rw [← herase]; rfl)
    obtain ⟨h1, h2, h3, h4, h5, h6, h7, h8, h9⟩ := hpush
    exact ⟨h1, h2, h3, h4, h5, h6, h7, h8, h9⟩
  all_goals rw [withWaiters_woke, gtRqPush_eq]
  · refine h.locks.congr rfl rfl (fun w => arrival_cons (by simp)) rfl ?_
    simp only [hrole, Function.update_apply]
    grind
  · obtain ⟨c1, c2, c3, c4, c5, c6, c7, c8⟩ := h.counts
    refine ⟨?_, ?_, ?_, c4, c5, c6, c7, c8⟩
    all_goals simp only [GtRuntime.note, hslots, Roster.wake, Function.update_apply]
    · intro i hi
      have hocc : (v.role i).occupied := by
        split at hi
        · subst i; rw [hw]; rfl
        · exact hi
      have hc := c1 i hocc
      simp only [withWaiters] at hc
      split
      · subst i
        rw [hc, hj, List.erase_cons_head]
        simp
        omega
      · exact hc
    · intro i hi hd
      have his : i ≠ s := by rintro rfl; rw [hfalse] at hd; cases hd
      simp only [his, ↓reduceIte]
      refine c2 i ?_ hd
      split at hi
      · subst i; rw [hw]; rfl
      · exact hi
    · intro i hi
      split at hi
      · cases hi
      · exact c3 i hi
  · refine h.logged.cons (t := s) rfl rfl (by simp) (by rw [hs]; rfl) ?_ ?_ ?_ ?_ ?_ ?_ (fun _ _ => rfl) ?_ ?_ ?_
    · simp only [GtRuntime.note, hslots, Roster.wake, Function.update_of_ne hws.symm, Function.update_self]
      simp [Life.step, hs, Role.stage, hmem, withWaiters, Roster.collects]
    · simp only [hrole, Function.update_apply]
      grind [Role.occupied]
    · simp only [hrole, Function.update_apply]
      grind [Role.stage]
    · intro i _
      simp only [GtRuntime.note, hslots]
      rfl
    · intro i hi
      simp [Roster.wake, hi]
    · intro i hi
      simp [Roster.wake, hi]
    · simp [Roster.wake, hws.symm, hs, Role.occupied]
    · intro u hu
      simp only [Roster.wake, Function.update_self, List.mem_append, List.mem_singleton] at hu
      rcases hu with hu | hu | rfl
      · exact .inr (.inl (List.mem_of_mem_erase hu))
      · exact .inr (.inr hu)
      · exact .inr (.inl hmem)
    · simp only [hrole, Function.update_apply]
      grind
  · refine h.envs.congr (fun id => envStage_other (by simp [Ev.env])) ?_ ?_ ?_ rfl
    · simp only [hrole, Function.update_apply]; grind [Role.holds]
    · simp only [hrole, Function.update_apply]; grind [Role.holds, Role.stage]
    · intro i _
      simp only [GtRuntime.note, hslots]
      rfl

/-- The abstract state once the awaiters `l` of `s` are woken, in order. -/
def wokenAll (v : Roster) (s : Nat) (l : List Nat) : Roster := l.foldl (fun v w => v.wake w s) v

theorem Models.wakeFrom {l : List Nat} {p : Option Nat} {n : Nat} (h : Models (withWaiters R s p) v)
    (hs : v.role s = .ending) (hj : v.joiners s = l) (hn : l.length < n) :
    Models (withWaiters (gtWakeFrom s n p R) s none) (wokenAll v s l) := by
  have hlink := h.lists.joiners s
  rw [hj] at hlink
  simp only [withWaiters, ↓reduceIte] at hlink
  induction l generalizing R v p n with
  | nil =>
    cases hlink
    cases n <;> exact h
  | cons w l ih =>
    obtain ⟨n, rfl⟩ : ∃ m, n = m + 1 := ⟨n - 1, by simp at hn; omega⟩
    obtain ⟨rfl, hlink⟩ := hlink
    have hw : v.role w = .joining s := (h.ok.joiners_iff w s).1 (by rw [hj]; exact List.mem_cons_self ..)
    have hws : s ≠ w := by rintro rfl; rw [hw] at hs; cases hs
    have hstep := models_woke h hs hj rfl
    have hl : (v.wake w s).joiners s = l := by simp [Roster.wake, hj]
    have hnext := hstep.lists.joiners s
    rw [hl] at hnext
    show Models (withWaiters (gtWakeFrom s n (R.slots w).wnext (woke R w s)) s none) (wokenAll (v.wake w s) s l)
    refine ih (R := woke R w s) (v := v.wake w s) hstep (by simp [Roster.wake, hws, hs]) hl (by simpa using hn) ?_
    simpa [withWaiters] using hnext

omit [IoBackend Io] [LawfulIoBackend Io] in
/-- Waking awaiters of `s` leaves every other role that is not an await of `s`. -/
private theorem wokenAll_role {l : List Nat} {i : Nat} (hi : i ∉ l) : (wokenAll v s l).role i = v.role i := by
  unfold wokenAll
  induction l generalizing v with
  | nil => rfl
  | cons w l ih =>
    rw [List.foldl_cons, ih fun h => hi (List.mem_cons_of_mem _ h)]
    have hiw : i ≠ w := by
      rintro rfl
      exact hi (List.mem_cons_self ..)
    simp [Roster.wake, hiw]

omit [IoBackend Io] [LawfulIoBackend Io] in
private theorem wokenAll_joiners {l : List Nat} (hj : v.joiners s = l) : (wokenAll v s l).joiners s = [] := by
  unfold wokenAll
  induction l generalizing v with
  | nil => exact hj
  | cons w l ih =>
    rw [List.foldl_cons]
    exact ih (by simp [Roster.wake, hj])

/-! ### Leaving the stack to be released -/

/-- The running task, which has woken its awaiters, becomes the zombie. -/
private theorem Models.bury (h : Models R v) (hs : v.role s = .ending) (hj : v.joiners s = [])
    (hz : R.zombies = none) :
    Models { R.modify s (fun b => { b with next := R.zombies }) with zombies := some s } (v.bury s) := by
  have hcur : s = R.current := h.lists.running s (.inr hs)
  have hready : s ∉ v.ready := by simp [h.ok.ready_iff, hs]
  have hfree : s ∉ v.free := by simp [h.ok.free_iff, hs]
  have hslots : ∀ i, (R.modify s fun b => { b with next := R.zombies }).slots i =
      { R.slots i with next := if i = s then none else (R.slots i).next } := fun i => by
    simp only [GtRuntime.modify, Function.update_apply, hz]
    split
    · subst i; rfl
    · rfl
  refine ⟨h.ok.bury hs hj, ?_, ?_, ?_, ?_, ?_⟩
  · obtain ⟨h1, h2, h3, h4, h5, h6, h7, h8, h9⟩ := h.lists
    refine ⟨?_, ?_, ?_, h4, ?_, ?_, ?_, ?_, ?_⟩
    all_goals simp only [hslots]
    · simp only [Roster.bury, Function.update_apply]; grind [GtRuntime.modify]
    · simp only [Roster.bury, Function.update_apply]; grind [Role.state]
    · refine h3.congr fun b hb => ?_
      have hbs : b ≠ s := by rintro rfl; exact hready hb
      simp [hbs]
    · refine h5.congr fun b hb => ?_
      have hbs : b ≠ s := by rintro rfl; exact hfree hb
      simp [hbs]
    · exact h6
    · rintro z hz
      cases hz
      simp [Roster.bury]
    · simp only [Roster.bury, Function.update_apply]; grind [GtRuntime.modify]
    · simp only [Roster.bury, Function.update_apply]; grind [GtRuntime.modify, Role.frame]
  · refine h.locks.congr rfl rfl (fun _ => rfl) rfl ?_
    simp only [Roster.bury, Function.update_apply]
    grind
  · refine h.counts.congr (fun i => by simp only [hslots]) (fun i => by simp only [hslots]) rfl rfl rfl rfl ?_ ?_
      rfl rfl rfl rfl rfl
    all_goals simp only [Roster.bury, Function.update_apply]
    all_goals grind [Role.occupied]
  · refine h.logged.congr (.refl _) (fun i => by simp only [hslots]) ?_ ?_ rfl rfl rfl ?_
    all_goals simp only [Roster.bury, Function.update_apply]
    all_goals grind [Role.occupied, Role.stage]
  · refine h.envs.congr (fun _ => rfl) ?_ ?_ (fun i _ => by simp only [hslots]) rfl
    all_goals simp only [Roster.bury, Function.update_apply]
    all_goals grind [Role.holds, Role.stage]

omit [IoBackend Io] [LawfulIoBackend Io] in
private theorem wakeFrom_frame (n : Nat) (p : Option Nat) (R : GtRuntime Io) :
    (gtWakeFrom s n p R).zombies = R.zombies ∧ (gtWakeFrom s n p R).current = R.current ∧
    ∀ i, ((gtWakeFrom s n p R).slots i).waiters = (R.slots i).waiters := by
  induction n generalizing p R with
  | zero => cases p <;> exact ⟨rfl, rfl, fun _ => rfl⟩
  | succ n ih =>
    cases p with
    | none => exact ⟨rfl, rfl, fun _ => rfl⟩
    | some w =>
      have hwoke : (woke R w s).zombies = R.zombies ∧ (woke R w s).current = R.current ∧
          ∀ i, ((woke R w s).slots i).waiters = (R.slots i).waiters := by
        unfold woke
        rw [gtRqPush_eq]
        refine ⟨rfl, rfl, fun i => ?_⟩
        simp only [GtRuntime.note, GtRuntime.modify, Function.update_apply]
        split
        · subst i; rfl
        · rfl
      obtain ⟨h1, h2, h3⟩ := ih (R.slots w).wnext (woke R w s)
      exact ⟨h1.trans hwoke.1, h2.trans hwoke.2.1, fun i => (h3 i).trans (hwoke.2.2 i)⟩

omit [IoBackend Io] [LawfulIoBackend Io] in
private theorem bodyEnd_eq (R : GtRuntime Io) : gtBodyEnd R = finished R := by
  unfold gtBodyEnd finished
  dsimp only
  cases (R.slots R.current).body.env
  all_goals simp only [sppcEnvFree, GtRuntime.modify, GtRuntime.note, GtRuntime.mk.injEq, true_and, and_true]
  all_goals funext i
  all_goals by_cases hi : i = R.current
  · subst hi; simp
  · simp [hi]
  · subst hi; simp
  · simp [hi]

omit [IoBackend Io] [LawfulIoBackend Io] in
private theorem modify_waiters (R : GtRuntime Io) (s : Nat) (p : Option Nat) :
    (R.modify s fun b => { b with waiters := p }) = withWaiters R s p := by
  unfold withWaiters GtRuntime.modify
  simp only [GtRuntime.mk.injEq, true_and, and_true]
  funext i
  by_cases hi : i = s
  · subst hi; simp
  · simp [hi]

omit [IoBackend Io] [LawfulIoBackend Io] in
private theorem taskRunEnd_eq (R : GtRuntime Io) : (gtTaskRunEnd R).rt =
    let R₁ := withWaiters (finished R) R.current none
    let R₂ := gtWakeFrom R.current (loopBound R₁) (R.slots R.current).waiters R₁
    { R₂.modify R.current (fun b => { b with next := R₂.zombies }) with zombies := some R.current } := by
  unfold gtTaskRunEnd
  dsimp only
  rw [modify_waiters, bodyEnd_eq]
  rfl

/-- The abstract state at the last `_gt_pick` of the task `s`. -/
def Roster.ended (v : Roster) (s : Nat) : Roster := (wokenAll (v.finish s) s (v.joiners s)).bury s

omit [IoBackend Io] [LawfulIoBackend Io] in
/-- The end of a task changes its own role and those of its awaiters. -/
theorem ended_same (v : Roster) (s : Nat) : (v.ended s).hand = v.hand ∧ (v.ended s).taken = v.taken ∧
    (v.ended s).collecting = v.collecting ∧ (v.ended s).locker = v.locker ∧ (v.ended s).role s = .zombie ∧
    ∀ i, i ≠ s → (v.ended s).role i = v.role i ∨ (v.ended s).role i = .ready (.joined s) := by
  have hall (l : List Nat) (v : Roster) : (wokenAll v s l).hand = v.hand ∧ (wokenAll v s l).taken = v.taken ∧
      (wokenAll v s l).collecting = v.collecting ∧ (wokenAll v s l).locker = v.locker ∧
      ∀ i, (wokenAll v s l).role i = v.role i ∨ (wokenAll v s l).role i = .ready (.joined s) := by
    induction l generalizing v with
    | nil => exact ⟨rfl, rfl, rfl, rfl, fun _ => .inl rfl⟩
    | cons w l ih =>
      obtain ⟨h1, h2, h3, h4, h5⟩ := ih (v.wake w s)
      refine ⟨h1, h2, h3, h4, fun i => ?_⟩
      rcases h5 i with h | h
      · by_cases hiw : i = w
        · subst hiw
          exact .inr (h.trans (by simp [Roster.wake]))
        · exact .inl (h.trans (by simp [Roster.wake, hiw]))
      · exact .inr h
  obtain ⟨h1, h2, h3, h4, h5⟩ := hall (v.joiners s) (v.finish s)
  refine ⟨h1, h2, h3, h4, by simp [Roster.ended, Roster.bury], fun i hi => ?_⟩
  simpa [Roster.ended, Roster.bury, Roster.finish, hi] using h5 i

/-- The end of `_gt_task_run`, up to its `_gt_pick`. -/
theorem Models.taskRunEnd (h : Models R v) (hrun : v.role R.current = .running) (hl : v.locker = none)
    (hz : R.zombies = none) :
    Models (gtTaskRunEnd R).rt (v.ended R.current) ∧ (gtTaskRunEnd R).rt.zombies = some R.current ∧
    (gtTaskRunEnd R).rt.current = R.current := by
  have hfin := h.finished hrun hl
  have hlen : (v.joiners R.current).length < loopBound (withWaiters (Sppc.finished R) R.current none) := by
    have hle : (v.joiners R.current).length ≤ R.nslots :=
      h.lists.length_le (h.lists.joiners _).nodup fun i hi => by simp [(h.ok.joiners_iff i _).1 hi]
    have hn : (Sppc.finished R).nslots = R.nslots := by
      unfold Sppc.finished sppcEnvFree
      cases (R.slots R.current).body.env <;> rfl
    simp only [loopBound, withWaiters, hn]
    omega
  have hback : withWaiters (withWaiters (Sppc.finished R) R.current none) R.current (R.slots R.current).waiters =
      Sppc.finished R := by
    have hw : ((Sppc.finished R).slots R.current).waiters = (R.slots R.current).waiters := rfl
    rw [← hw, ← withWaiters_self (Sppc.finished R) R.current]
    unfold withWaiters
    simp only [GtRuntime.mk.injEq, true_and, and_true]
    funext i
    by_cases hi : i = R.current <;> simp [hi]
  rw [← hback] at hfin
  have hwake := hfin.wakeFrom (n := loopBound (withWaiters (Sppc.finished R) R.current none))
    (l := v.joiners R.current) (by simp [Roster.finish]) rfl hlen
  obtain ⟨hz', hc', hw'⟩ := wakeFrom_frame (s := R.current)
    (loopBound (withWaiters (Sppc.finished R) R.current none)) (R.slots R.current).waiters
    (withWaiters (Sppc.finished R) R.current none)
  have hsame := withWaiters_self (gtWakeFrom R.current (loopBound (withWaiters (Sppc.finished R) R.current none))
    (R.slots R.current).waiters (withWaiters (Sppc.finished R) R.current none)) R.current
  rw [hw', show ((withWaiters (Sppc.finished R) R.current none).slots R.current).waiters = none by
    simp [withWaiters]] at hsame
  rw [hsame] at hwake
  have hnot : R.current ∉ v.joiners R.current := by rw [h.ok.joiners_iff, hrun]; simp
  have hzn : (Sppc.finished R).zombies = none := by
    rw [← hz]
    unfold Sppc.finished sppcEnvFree
    cases (R.slots R.current).body.env <;> rfl
  rw [taskRunEnd_eq]
  have hcn : (Sppc.finished R).current = R.current := by
    unfold Sppc.finished sppcEnvFree
    cases (R.slots R.current).body.env <;> rfl
  refine ⟨hwake.bury ?_ (wokenAll_joiners rfl) (hz'.trans hzn), rfl, hc'.trans hcn⟩
  rw [wokenAll_role hnot]
  simp [Roster.finish]

end Sppc
