import Sppc.FifoTraces
import Sppc.PlainRuns
import Sppc.SpawnAtomic

/-!
# The run queue is fair

The state bytes of the tasks say who becomes ready in a step and who is dispatched.  For tasks that only spawn, yield,
await and finish, what they say from the start of the thread on is a trace of a queue: nobody overtakes.
-/

namespace Sppc

open FifoTraces LinkedList

variable {Io : Type} {R R' : GtRuntime Io} {t : Nat} {log : List Ev} {L : Life}

/-- The task `t` is READY. -/
def IsReady (R : GtRuntime Io) (t : Nat) : Prop := t < R.nslots ∧ (R.slots t).state = .ready

/-- The task `t` is RUNNING. -/
def IsRunning (R : GtRuntime Io) (t : Nat) : Prop := t < R.nslots ∧ (R.slots t).state = .running

instance (R : GtRuntime Io) (t : Nat) : Decidable (IsReady R t) := inferInstanceAs (Decidable (_ ∧ _))

instance (R : GtRuntime Io) (t : Nat) : Decidable (IsRunning R t) := inferInstanceAs (Decidable (_ ∧ _))

/-- Those who began to wait for `t` since it was spawned, the last of them first. -/
def awaiters (t : Nat) (log : List Ev) : List Nat :=
  (occupancy t log).filterMap fun
    | .joined w u => if u = t then some w else none
    | _ => none

/-- Those whose state byte becomes READY in a step. -/
def becameReady (s s' : Machine Io) : List Nat :=
  (List.range s'.rt.nslots).filter fun t => ¬IsReady s.rt t ∧ IsReady s'.rt t

/-- Those who become READY in a step, in order: the awaiters of a task that finishes, the last of them first. -/
def readied [IoBackend Io] (s : Machine Io) (e : Event Io) (s' : Machine Io) : List Nat :=
  match e with
  | .finish => awaiters s.rt.current s.rt.log
  | _ => becameReady s s'

/-- Those who are dispatched in a step. -/
def dispatched (s s' : Machine Io) : List Nat :=
  (List.range s'.rt.nslots).filter fun t => ¬IsRunning s.rt t ∧ IsRunning s'.rt t

/-- What a step does to the run queue: a task is dispatched after the running one is off its way. -/
def acts [IoBackend Io] (s : Machine Io) (e : Event Io) (s' : Machine Io) : List (Act Nat) :=
  (readied s e s').map .enter ++ (dispatched s s').map .leave

/-- Who becomes READY and who is dispatched in a run. -/
def trace [IoBackend Io] (s : Machine Io) : List (Event Io) → List (Act Nat)
  | [] => []
  | e :: es => match step s e with
    | some s' => acts s e s' ++ trace s' es
    | none => []

/-- The run from `s₀` to `s` is fair: those who are READY at its end wait in its trace, which is a fair one, and in
each of its steps those become READY of whom it says so. -/
structure FairRun [IoBackend Io] (s₀ : Machine Io) (es : List (Event Io)) (s : Machine Io) : Prop where
  queue : ∃ q, replay [] (trace s₀ es) = some q ∧ RunQueue s.rt q
  ready : ∀ t, IsReady s.rt t ↔ Waits (trace s₀ es) t
  fair : Fair (trace s₀ es)
  readied : ∀ es₁ e es₂ s₁ s₂, es = es₁ ++ e :: es₂ → Transition.run step s₀ es₁ = some s₁ → step s₁ e = some s₂ →
    ∀ t, t ∈ readied s₁ e s₂ ↔ ¬IsReady s₁.rt t ∧ IsReady s₂.rt t

/-! ### Who waits for a task -/

/-- Before a task's end all who waited for it still do. -/
private theorem awaiters_eq (h : life t log = some L)
    (hL : L.stage = .claimed ∨ L.stage = .spawned ∨ L.stage = .started) : awaiters t log = L.joined := by
  induction log generalizing L with
  | nil =>
    rw [← Option.some.inj h]
    rfl
  | cons e log ih =>
    by_cases he : e.slot = some t
    · cases hlog : life t log with
      | none =>
        rw [life, hlog] at h
        cases h
      | some L₀ =>
        rw [life_cons hlog] at h
        have ih := ih hlog
        unfold awaiters at ih ⊢
        cases e
        all_goals simp only [Ev.slot, Option.some.injEq, reduceCtorEq] at he
        all_goals subst he
        all_goals
          simp only [Life.step, ne_eq, not_true_eq_false, if_false] at h
          split at h
          case isFalse => cases h
          rename_i hc
          rw [← Option.some.inj h] at hL ⊢
          simp only [occupancy, if_true, reduceCtorEq, if_false, List.filterMap_cons, List.filterMap_nil]
        all_goals grind
    · rw [life_other he] at h
      rw [← ih h hL]
      unfold awaiters
      rw [occupancy, if_neg (by rintro rfl; exact he rfl)]
      cases e with
      | joined w u =>
        rw [List.filterMap_cons]
        dsimp only
        rw [if_neg (fun hu => he (by rw [hu]; rfl))]
      | _ => rfl

/-! ### What the state bytes say -/

section

variable {s s' : Machine Io}

private theorem mem_becameReady : t ∈ becameReady s s' ↔ ¬IsReady s.rt t ∧ IsReady s'.rt t := by
  unfold becameReady
  rw [List.mem_filter, List.mem_range, decide_eq_true_eq]
  constructor
  · exact fun h => h.2
  · exact fun h => ⟨h.2.1, h⟩

theorem mem_dispatched : t ∈ dispatched s s' ↔ ¬IsRunning s.rt t ∧ IsRunning s'.rt t := by
  unfold dispatched
  rw [List.mem_filter, List.mem_range, decide_eq_true_eq]
  constructor
  · exact fun h => h.2
  · exact fun h => ⟨h.2.1, h⟩

private theorem becameReady_nodup (s s' : Machine Io) : (becameReady s s').Nodup := List.nodup_range.filter _

theorem dispatched_nodup (s s' : Machine Io) : (dispatched s s').Nodup := List.nodup_range.filter _

theorem eq_singleton {l : List Nat} {a : Nat} (hnd : l.Nodup) (h : ∀ i, i ∈ l ↔ i = a) : l = [a] := by
  apply List.perm_singleton.1
  rw [List.perm_ext_iff_of_nodup hnd (List.nodup_singleton a)]
  intro i
  rw [h i, List.mem_singleton]

variable [IoBackend Io] [LawfulIoBackend Io] {v v' : Roster} {e : Event Io}

theorem Live.isReady_iff (h : Live s v) : IsReady s.rt t ↔ t ∈ v.ready := by
  rw [h.models.ok.ready_iff]
  exact ((h.steady.statesOk h.models.lists).ready t).symm

/-- Between two switches the running task is in its code. -/
private theorem Live.isRunning_iff (h : Live s v) (hp : PlainRun s) :
    IsRunning s.rt t ↔ s.ctl = .code ∧ t = s.rt.current := by
  unfold IsRunning
  rw [← (h.steady.statesOk h.models.lists).running]
  constructor
  · intro hrun
    have hcur := h.models.lists.running t (Or.inl hrun)
    refine ⟨?_, hcur⟩
    have hctl := h.ctl
    have hplain := hp.ctl
    rw [hcur] at hrun
    cases hat : s.ctl with
    | code => rfl
    | pick f =>
      rw [hat] at hctl
      obtain ⟨hf, -⟩ := hctl
      rw [hrun] at hf
      exact absurd hf nofun
    | panic p =>
      rw [hat] at hctl
      obtain ⟨-, -, -, -, f, hf, -⟩ := hctl
      rw [hrun] at hf
      exact absurd hf nofun
    | lost =>
      rw [hat] at hctl
      exact hctl.elim
    | _ =>
      rw [hat] at hplain
      exact absurd hplain Bool.false_ne_true
  · rintro ⟨hcode, rfl⟩
    exact (h.at_code hcode).1.role

/-- After a switch that went right the task is in its code. -/
private theorem Live.landed_code (h : Live s v) (hp : PlainLanding s) : s.ctl = .code := by
  have hctl := h.ctl
  rcases hp.ctl with hat | hat | hat
  · exact hat
  · rw [hat] at hctl
    exact hctl.elim
  · rw [hat] at hctl
    exact absurd rfl hctl.1

private theorem becameReady_nil (h : Live s v) (h' : Live s' v') (hsub : v'.ready ⊆ v.ready) :
    becameReady s s' = [] := by
  apply List.eq_nil_iff_forall_not_mem.2
  intro t ht
  rw [mem_becameReady, h.isReady_iff, h'.isReady_iff] at ht
  exact ht.1 (hsub ht.2)

private theorem becameReady_one {a : Nat} {l : List Nat} (h : Live s v) (h' : Live s' v') (ha : a ∉ v.ready)
    (heq : v'.ready = l ++ [a]) (hsub : l ⊆ v.ready) : becameReady s s' = [a] := by
  apply eq_singleton (becameReady_nodup s s')
  intro t
  rw [mem_becameReady, h.isReady_iff, h'.isReady_iff, heq, List.mem_append, List.mem_singleton]
  constructor
  · rintro ⟨hold, hl | hta⟩
    · exact absurd (hsub hl) hold
    · exact hta
  · rintro rfl
    exact ⟨ha, Or.inr rfl⟩

private theorem dispatched_nil (h : Live s v) (hp : PlainRun s) (h' : Live s' v') (hp' : PlainRun s')
    (hsame : s'.ctl = .code → s.ctl = .code ∧ s'.rt.current = s.rt.current) : dispatched s s' = [] := by
  apply List.eq_nil_iff_forall_not_mem.2
  intro t ht
  rw [mem_dispatched, h.isRunning_iff hp, h'.isRunning_iff hp'] at ht
  obtain ⟨hold, hcode, rfl⟩ := ht
  exact hold (hsame hcode)

private theorem dispatched_one (h : Live s v) (hp : PlainRun s) (h' : Live s' v') (hp' : PlainRun s')
    (hcode : s'.ctl = .code) (hnew : s.ctl = .code → s'.rt.current ≠ s.rt.current) :
    dispatched s s' = [s'.rt.current] := by
  apply eq_singleton (dispatched_nodup s s')
  intro t
  rw [mem_dispatched, h.isRunning_iff hp, h'.isRunning_iff hp']
  constructor
  · exact fun ht => ht.2.2
  · rintro rfl
    exact ⟨fun hold => hnew hold.1 hold.2, hcode, rfl⟩

/-- The running task is not on the run queue. -/
private theorem Live.current_not_ready (h : Live s v) (hc : s.ctl = .code) : s.rt.current ∉ v.ready := by
  intro hmem
  obtain ⟨f, hf⟩ := (h.models.ok.ready_iff _).1 hmem
  rw [(h.at_code hc).1.role] at hf
  exact absurd hf nofun

/-- What a step does to the run queue `q`: its acts lead to `q'`. -/
structure Turns (s : Machine Io) (q : List Nat) (e : Event Io) (s' : Machine Io) (q' : List Nat) : Prop where
  queue : q ++ readied s e s' = dispatched s s' ++ q'
  bytes : ∀ t, t ∈ readied s e s' ↔ ¬IsReady s.rt t ∧ IsReady s'.rt t
  nodup : (readied s e s').Nodup

omit [LawfulIoBackend Io] in
/-- Where those become READY whose state byte does. -/
private theorem Turns.of_bytes {q q' : List Nat} (hr : readied s e s' = becameReady s s')
    (hq : q ++ becameReady s s' = dispatched s s' ++ q') : Turns s q e s' q' := by
  constructor
  · rw [hr]
    exact hq
  · rw [hr]
    exact fun t => mem_becameReady
  · rw [hr]
    exact becameReady_nodup s s'

/-- A step that moves nobody. -/
theorem Turns.still (h : Live s v) (hp : PlainRun s) (h' : Live s' v') (hp' : PlainRun s')
    (hr : readied s e s' = becameReady s s') (hready : v'.ready = v.ready)
    (hsame : s'.ctl = .code → s.ctl = .code ∧ s'.rt.current = s.rt.current) : Turns s v.ready e s' v'.ready := by
  apply Turns.of_bytes hr
  rw [dispatched_nil h hp h' hp' hsame, becameReady_nil h h' (by rw [hready]; exact List.Subset.refl _), hready,
    List.append_nil, List.nil_append]

/-! ### The steps -/

theorem Live.ready_eq {q : List Nat} (h : Live s v) (hq : RunQueue s.rt q) : v.ready = q :=
  h.models.lists.ready.unique hq.links

theorem Live.runQueue (h : Live s v) : RunQueue s.rt v.ready := ⟨h.models.lists.ready, h.models.lists.tail⟩

/-- A spawn that succeeds makes the new task READY. -/
private theorem Live.turns_async {body : SppcClosure} {o : SpawnAnswer} (h : Live s v) (hp : PlainRun s)
    (ht : Table s.rt) (hstep : step s (.async body o) = some s') (hp' : PlainRun s') :
    ∃ v', Live s' v' ∧ Turns s v.ready (.async body o) s' v'.ready := by
  have hok := (h.spawnable ht).spawnOk 0 body o
  rw [step] at hstep
  split at hstep
  case isFalse => cases hstep
  rename_i hcode
  obtain ⟨hr, hl⟩ := h.at_code hcode.1
  obtain ⟨v', hm', hs', hr', hl', hcur⟩ := Live.async h.models h.steady hr hl ht hcode.2 o
  obtain ⟨ret, rfl⟩ : ∃ ret, s' = toCode (sppcAsync s.rt body o).1 ret := by
    split at hstep
    · rename_i heq
      exact ⟨_, by rw [heq]; exact (Option.some.inj hstep).symm⟩
    · rename_i heq
      exact ⟨_, by rw [heq]; exact (Option.some.inj hstep).symm⟩
  have h' : Live (toCode (sppcAsync s.rt body o).1 ret) v' := .code hm' hs' hr' hl' ret
  refine ⟨v', h', ?_⟩
  have hinto : (sppcAsyncInto s.rt 0 body o).1 = (sppcAsync s.rt body o).1 := by
    unfold sppcAsyncInto
    split
    · rename_i heq
      rw [heq]
    · rename_i heq
      rw [heq]
  unfold SpawnOk at hok
  dsimp only at hok
  rw [hinto] at hok
  have hqueue : v'.ready = v.ready ∨ ∃ a, v'.ready = v.ready ++ [a] := by
    by_cases hret : (sppcAsyncInto s.rt 0 body o).2.1 = 0
    · obtain ⟨a, hdone⟩ := hok.2 hret
      obtain ⟨q, hq, hq'⟩ := hdone.queue
      exact Or.inr ⟨a, by rw [h.ready_eq hq]; exact h'.ready_eq hq'⟩
    · obtain ⟨q, hq, hq'⟩ := (hok.1 hret).2.queue
      exact Or.inl (by rw [h.ready_eq hq]; exact h'.ready_eq hq')
  rcases hqueue with hready | ⟨a, hready⟩
  · exact Turns.still h hp h' hp' rfl hready fun _ => ⟨hcode.1, hcur⟩
  · have ha : a ∉ v.ready := by
      have hnd := h'.models.lists.ready.nodup
      rw [hready] at hnd
      exact fun hmem => (List.nodup_append.1 hnd).2.2 a hmem a (List.mem_singleton_self a) rfl
    apply Turns.of_bytes rfl
    rw [dispatched_nil h hp h' hp' fun _ => ⟨hcode.1, hcur⟩,
      becameReady_one h h' ha hready (List.Subset.refl _), hready, List.nil_append]

/-- A task that yields becomes READY, and the first of the queue is dispatched. -/
private theorem Live.turns_yield (h : Live s v) (hp : PlainRun s) (hstep : step s .yield = some s')
    (hp' : PlainRun s') : ∃ v', Live s' v' ∧ Turns s v.ready .yield s' v'.ready := by
  rw [step] at hstep
  split at hstep
  case isFalse => cases hstep
  rename_i hcode
  obtain ⟨hr, hl⟩ := h.at_code hcode
  have hs' : gtYield s.rt = s' := Option.some.inj hstep
  have hland : ∀ t R, gtRqPop s.rt = (some t, R) → PlainLanding (gtGiveWay R .yielded t) := by
    intro t R heq
    have hpop := hp.rt.rqPop
    rw [heq] at hpop
    exact (hpop.rqPush _).switchTo t rfl
  unfold gtYield at hs'
  rw [hp.rt.pollNow] at hs'
  dsimp only at hs'
  rcases h.models.rqPop h.steady with ⟨hnil, heq⟩ | ⟨n, l, g, hcons, hg, heq, hpop, hsteady⟩
  · rw [heq] at hs'
    dsimp only at hs'
    subst hs'
    have h' : Live (toCode s.rt 0) v := .code h.models h.steady hr hl 0
    exact ⟨v, h', Turns.still h hp h' hp' rfl rfl fun _ => ⟨hcode, rfl⟩⟩
  · obtain ⟨v', hv'⟩ := hpop.giveWay (f := .yielded) (g := g) hsteady (runs_pop hr hg) (by simp [Roster.pop]) trivial
      (by simp [Roster.pop, hl]) (Or.inl hl) (by simp)
    rw [heq] at hs'
    have hcode' := hv'.live.landed_code (hland n _ heq)
    replace hs' : gtGiveWay (rqUnlink s.rt none n) .yielded n = s' := hs'
    rw [hs'] at hv' hcode'
    refine ⟨v', hv'.live, ?_⟩
    have hready : v'.ready = l ++ [s.rt.current] := by
      rw [hv'.ready]
      show v.ready.erase n ++ [s.rt.current] = _
      rw [hcons, List.erase_cons_head]
    have hcur := h.current_not_ready hcode
    have hne : n ≠ s.rt.current := by
      rintro rfl
      exact hcur (by rw [hcons]; exact List.mem_cons_self)
    apply Turns.of_bytes rfl
    rw [dispatched_one h hp hv'.live hp' hcode' (fun _ => by rw [hv'.current]; exact hne),
      becameReady_one h hv'.live hcur hready (by rw [hcons]; exact List.subset_cons_self n l), hready, hcons,
      hv'.current]
    rfl

omit [IoBackend Io] [LawfulIoBackend Io] in
/-- An await leaves the run queue as it is: a task that is handed back has finished. -/
theorem RunQueue.await {q : List Nat} {handle : Int} (hq : RunQueue R q)
    (hready : ∀ i ∈ q, (R.slots i).state = .ready) : RunQueue (gtAwait R handle).rt q := by
  cases ht : gtResolve R handle with
  | none =>
    rw [gtAwait, ht]
    exact hq
  | some t =>
    by_cases hcur : t = R.current
    · rw [gtAwait, ht]
      dsimp only
      rw [if_pos hcur]
      exact hq
    by_cases hd : (R.slots t).detached = true
    · rw [gtAwait, ht]
      dsimp only
      rw [if_neg hcur, if_pos hd]
      exact hq
    by_cases hst : (R.slots t).state = .done
    · rw [gtAwait, ht]
      dsimp only
      rw [if_neg hcur, if_neg hd, if_neg (not_not.2 hst)]
      unfold gtAwaitEnd toCode
      dsimp only
      split
      · rw [gtSlotFree_eq]
        refine ⟨hq.links.congr ?_, hq.tail⟩
        intro i hi
        have hne : i ≠ t := by
          rintro rfl
          rw [hready i hi] at hst
          cases hst
        dsimp only
        rw [if_neg hne]
        rfl
      · exact ⟨hq.links, hq.tail⟩
    · rw [gtAwait_join ht hcur (by simpa using hd) hst]
      exact ⟨hq.links, hq.tail⟩

omit [IoBackend Io] [LawfulIoBackend Io] in
/-- An await that does not block goes on in the same task. -/
private theorem gtAwait_current {handle : Int} (hcode : (gtAwait R handle).ctl = .code) :
    (gtAwait R handle).rt.current = R.current := by
  unfold gtAwait at hcode ⊢
  split
  · rfl
  · rename_i heq
    rw [heq] at hcode
    dsimp only at hcode
    split
    · rfl
    · rename_i hcur
      rw [if_neg hcur] at hcode
      split
      · rfl
      · rename_i hd
        rw [if_neg hd] at hcode
        split
        · rename_i hst
          rw [if_pos hst] at hcode
          exact absurd hcode nofun
        · unfold gtAwaitEnd toCode
          dsimp only
          split
          · rw [gtSlotFree_eq]
            rfl
          · rfl

/-- An await makes nobody READY. -/
private theorem Live.turns_await {handle : Int} (h : Live s v) (hp : PlainRun s)
    (hstep : step s (.await handle) = some s') (h' : Live s' v') (hp' : PlainRun s') :
    Turns s v.ready (.await handle) s' v'.ready := by
  rw [step] at hstep
  split at hstep
  case isFalse => cases hstep
  rename_i hcode
  have hs' : gtAwait s.rt handle = s' := Option.some.inj hstep
  have hqueue : RunQueue s'.rt v.ready := by
    rw [← hs']
    apply h.runQueue.await
    intro i hi
    exact (h.isReady_iff.2 hi).2
  apply Turns.still h hp h' hp' rfl (h'.ready_eq hqueue)
  intro hcode'
  refine ⟨hcode, ?_⟩
  rw [← hs'] at hcode' ⊢
  exact gtAwait_current hcode'

omit [IoBackend Io] [LawfulIoBackend Io] in
theorem wokenAll_ready {l : List Nat} : (wokenAll v t l).ready = v.ready ++ l := by
  unfold wokenAll
  induction l generalizing v with
  | nil => exact (List.append_nil _).symm
  | cons w l ih =>
    rw [List.foldl_cons, ih]
    show v.ready ++ [w] ++ l = _
    rw [List.append_assoc]
    rfl

/-- The end of a task makes its awaiters READY, the last of them first. -/
private theorem Live.turns_finish (h : Live s v) (hp : PlainRun s) (hstep : step s .finish = some s')
    (h' : Live s' v') (hp' : PlainRun s') : Turns s v.ready .finish s' v'.ready := by
  rw [step] at hstep
  split at hstep
  case isFalse => cases hstep
  rename_i hcode
  obtain ⟨hr, hl⟩ := h.at_code hcode.1
  obtain ⟨hmod, -, -⟩ := h.models.taskRunEnd hr.role hl hr.zombies
  have hs' : gtTaskRunEnd s.rt = s' := Option.some.inj hstep
  have hended : (v.ended s.rt.current).ready = v.ready ++ v.joiners s.rt.current :=
    wokenAll_ready (v := v.finish s.rt.current)
  have hqueue : v'.ready = v.ready ++ v.joiners s.rt.current := by
    apply h'.ready_eq
    rw [← hs', ← hended]
    exact ⟨hmod.lists.ready, hmod.lists.tail⟩
  have hawait : awaiters s.rt.current s.rt.log = v.joiners s.rt.current := by
    have hlife := h.models.logged.lives s.rt.current (by rw [hr.role]; rfl)
    rw [hr.role] at hlife
    exact awaiters_eq hlife (Or.inr (Or.inr rfl))
  have hnotReady : ∀ w ∈ v.joiners s.rt.current, w ∉ v.ready := by
    intro w hw hready
    obtain ⟨f, hf⟩ := (h.models.ok.ready_iff w).1 hready
    rw [(h.models.ok.joiners_iff w _).1 hw] at hf
    cases hf
  constructor
  · rw [dispatched_nil h hp h' hp' (fun hcode' => absurd hcode' (by rw [← hs']; exact fun h => by cases h)),
      List.nil_append, hqueue]
    exact congrArg _ hawait
  · intro w
    rw [h.isReady_iff, h'.isReady_iff, hqueue, List.mem_append]
    show w ∈ awaiters s.rt.current s.rt.log ↔ _
    rw [hawait]
    constructor
    · exact fun hw => ⟨hnotReady w hw, Or.inr hw⟩
    · rintro ⟨hold, hnew | hnew⟩
      · exact absurd hnew hold
      · exact hnew
  · show (awaiters s.rt.current s.rt.log).Nodup
    rw [hawait]
    exact (h.models.lists.joiners _).nodup

/-- A task that blocks or ends has the first of the queue dispatched. -/
private theorem Live.turns_pick {f : Resume} (h : Live s v) (hp : PlainRun s) (hpick : s.ctl = .pick f)
    (h' : Live s' v') (hs' : gtPick s.rt f = s') (hp' : PlainRun s') : Turns s v.ready .turn s' v'.ready := by
  have hctl := h.ctl
  rw [hpick] at hctl
  obtain ⟨hf, hl, -, hz⟩ := hctl
  have hplain := hp.ctl
  rw [hpick] at hplain
  have hpoprt := hp.rt.rqPop
  unfold gtPick at hs'
  rw [hp.rt.pollNow] at hs'
  dsimp only at hs'
  rcases h.models.rqPop h.steady with ⟨hnil, heq⟩ | ⟨n, l, g, hcons, hg, heq, hpop, hsteady⟩
  · rw [heq] at hs'
    dsimp only at hs'
    rw [if_neg (not_not.2 hp.rt.inflight)] at hs'
    subst hs'
    exact Turns.still h hp h' hp' rfl (h'.ready_eq ⟨h.runQueue.links, h.runQueue.tail⟩) nofun
  · obtain ⟨w, hw⟩ := h.models.pickNext hg hpop hsteady hf hl hz
    rw [heq] at hs' hpoprt
    dsimp only at hs' hpoprt
    have hland : PlainLanding s' := by
      rw [← hs']
      split
      · exact hpoprt.taskRunSwitch n
      · exact hpoprt.switchTo n hplain
    rw [hs'] at hw
    have hready : v'.ready = l := by
      rw [h'.ready_eq hw.live.runQueue, hw.ready]
      show v.ready.erase n = l
      rw [hcons, List.erase_cons_head]
    apply Turns.of_bytes rfl
    rw [dispatched_one h hp h' hp' (h'.landed_code hland) (by rw [hpick]; exact nofun),
      becameReady_nil h h' (by rw [hready, hcons]; exact List.subset_cons_self n l), hready, hcons, hw.current,
      List.append_nil]
    rfl

/-- Every step of tasks that only spawn, yield, await and finish. -/
theorem Live.turns (h : Live s v) (hp : PlainRun s) (ht : Table s.rt) (he : e.plain) (hstep : step s e = some s') :
    ∃ v', Live s' v' ∧ Turns s v.ready e s' v'.ready := by
  have hp' := hp.step he hstep
  have hidle := hp.idle
  have hnext : ∃ v', Live s' v' := by
    rcases h.next ht hstep hp'.calm.1 hp'.calm.2 with hlive | ⟨hexit, -⟩
    · exact hlive
    · have hctl := hp'.ctl
      rw [hexit] at hctl
      exact absurd hctl Bool.false_ne_true
  obtain ⟨v', h'⟩ := hnext
  cases e with
  | async body o => exact h.turns_async hp ht hstep hp'
  | yield => exact h.turns_yield hp hstep hp'
  | await handle => exact ⟨v', h', h.turns_await hp hstep h' hp'⟩
  | finish => exact ⟨v', h', h.turns_finish hp hstep h' hp'⟩
  | turn =>
    rw [step] at hstep
    split at hstep
    · rename_i f hpick
      exact ⟨v', h', h.turns_pick hp hpick h' (Option.some.inj hstep) hp'⟩
    · rename_i hdrain
      have hctl := hp.ctl
      rw [hdrain] at hctl
      exact absurd hctl Bool.false_ne_true
    · cases hstep
  | kernel e =>
    rw [step] at hstep
    split at hstep
    · cases hstep
    · split at hstep
      · have hs' := Option.some.inj hstep
        refine ⟨v', h', Turns.still h hp h' hp' rfl (h'.ready_eq ?_) ?_⟩
        · rw [← hs']
          exact ⟨h.runQueue.links, h.runQueue.tail⟩
        · rw [← hs']
          exact fun hcode => ⟨hcode, rfl⟩
      · cases hstep
  | poll =>
    rw [hidle.1] at hstep
    cases hstep
  | tried err now =>
    rw [hidle.2.1] at hstep
    cases hstep
  | answered err =>
    rw [hidle.2.2.1] at hstep
    cases hstep
  | condGo now =>
    rw [hidle.2.2.2] at hstep
    cases hstep
  | _ => exact absurd he Bool.false_ne_true

/-! ### Every run -/

/-- A run of such tasks, with all that is kept on the way. -/
private theorem Live.replays {es : List (Event Io)} (h : Live s v) (hp : PlainRun s) (ht : Table s.rt)
    (hes : ∀ e ∈ es, e.plain) (hrun : Transition.run step s es = some s') :
    ∃ v', Live s' v' ∧ PlainRun s' ∧ Table s'.rt ∧ replay v.ready (trace s es) = some v'.ready := by
  induction es generalizing s v with
  | nil =>
    rw [← Option.some.inj hrun]
    exact ⟨v, h, hp, ht, rfl⟩
  | cons e es ih =>
    rw [Transition.run] at hrun
    rw [trace]
    cases hstep : step s e with
    | none =>
      rw [hstep] at hrun
      cases hrun
    | some s₁ =>
      rw [hstep] at hrun
      have he := hes e List.mem_cons_self
      obtain ⟨v₁, h₁, hturns⟩ := h.turns hp ht he hstep
      obtain ⟨v', h', hp', ht', hreplay⟩ := ih h₁ (hp.step he hstep) (step_keeps hstep ht).1
        (fun e' he' => hes e' (List.mem_cons_of_mem e he')) hrun
      refine ⟨v', h', hp', ht', ?_⟩
      have hacts : replay v.ready (acts s e s₁) = some v₁.ready := by
        apply replay_enters_leaves hturns.queue
        rw [List.nodup_append]
        refine ⟨h.models.lists.ready.nodup, hturns.nodup, ?_⟩
        rintro a ha b hb rfl
        exact ((hturns.bytes a).1 hb).1 (h.isReady_iff.2 ha)
      dsimp only
      rw [replay_append, hacts]
      exact hreplay

/-- Every run of tasks that only spawn, yield, await and finish is fair. -/
theorem run_fair {io : Io} {page : Nat} {unsafeStackWanted : Bool} {es : List (Event Io)} (hio : IoBackend.Started io)
    (hes : ∀ e ∈ es, e.plain) (hrun : Transition.run step (gtInit io page unsafeStackWanted) es = some s) :
    FairRun (gtInit io page unsafeStackWanted) es s := by
  have hstart := gtInit_live hio page unsafeStackWanted
  have hplain := gtInit_plain io page unsafeStackWanted
  have htable := gtInit_table io page unsafeStackWanted
  obtain ⟨v, hv, -, -, hreplay⟩ := hstart.replays hplain htable hes hrun
  constructor
  · exact ⟨v.ready, hreplay, hv.runQueue⟩
  · intro t
    rw [hv.isReady_iff]
    exact mem_replay hreplay
  · exact fair_of_replay hreplay
  · intro es₁ e es₂ s₁ s₂ heq hrun₁ hstep t
    rw [heq] at hes
    obtain ⟨v₁, h₁, hp₁, ht₁, -⟩ := hstart.replays hplain htable
      (fun e' he' => hes e' (List.mem_append_left _ he')) hrun₁
    obtain ⟨v₂, -, hturns⟩ := h₁.turns hp₁ ht₁ (hes e (List.mem_append_right _ List.mem_cons_self)) hstep
    exact hturns.bytes t

end

/-- Tasks 1 and 2 await task 3, which then ends. -/
def twoAwaitThird : List (Event BlockingIo) :=
  [.async ⟨1, none⟩ spawnServed, .async ⟨2, none⟩ spawnServed, .async ⟨3, none⟩ spawnServed, .yield, .await 1048579,
    .turn, .await 1048579, .turn, .finish, .turn, .yield]

/-- They go on in the reverse of the order in which they began to wait. -/
theorem run_fair_third : ∃ s : Machine BlockingIo,
    Transition.run step (gtInit BlockingIo.unused 4096 false) twoAwaitThird = some s ∧
      FairRun (gtInit BlockingIo.unused 4096 false) twoAwaitThird s ∧
      trace (gtInit BlockingIo.unused 4096 false) twoAwaitThird =
        [.enter 1, .enter 2, .enter 3, .enter 0, .leave 1, .leave 2, .leave 3, .enter 2, .enter 1, .leave 0, .enter 0,
          .leave 2] := by
  have hrun : (Transition.run step (gtInit BlockingIo.unused 4096 false) twoAwaitThird).isSome := by decide +kernel
  obtain ⟨s, hs⟩ := Option.isSome_iff_exists.1 hrun
  have hplain : ∀ e ∈ twoAwaitThird, e.plain := List.all_eq_true.1 (by decide +kernel)
  exact ⟨s, hs, run_fair trivial hplain hs, by decide +kernel⟩

end Sppc
