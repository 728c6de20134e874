import Sppc.Fairness
import Sppc.LockHandoff
import Sppc.Resuming
import Sppc.WaitingLine

/-!
# The order in which tasks run

What any step of the machine does to the run queue.  Those who become READY join it at its end, and one at a time is
let out to run: the first of it, but for a release, which lets out the longest waiter for its lock.
-/

namespace Sppc

open LinkedList WaitingLine

variable {Io : Type} {R R' : GtRuntime Io} {t : Nat}

/-- The task `t` is WAITING. -/
def IsWaiting (R : GtRuntime Io) (t : Nat) : Prop := t < R.nslots ∧ (R.slots t).state = .waiting

/-- Those who join the run queue in a step: they become READY, and stay so or are dispatched at once. -/
def joined (s s' : Machine Io) : List Nat :=
  (List.range s'.rt.nslots).filter fun t => ¬IsReady s.rt t ∧ (IsReady s'.rt t ∨ t ∈ dispatched s s')

/-- The lock that a step releases. -/
def releases [IoBackend Io] : Event Io → Option Nat
  | .unlock lock _ => some lock
  | .condWait k _ => some k.mutex
  | _ => none

/-- The task `t` is the longest waiter for the lock that the step releases. -/
def HandedOn [IoBackend Io] (s : Machine Io) (e : Event Io) (t : Nat) : Prop :=
  ∃ lock q, releases e = some lock ∧ Linked (fun i => (s.rt.lockWaiter i).next) s.rt.lockWaiters q ∧
    earliest s.rt lock q = some t

/-- What a step does to the run queue `r`: those of `l` join it, `d` is let out and is the only one dispatched, and
then the one that ran joins it, `m`, unless it blocks. -/
structure QueueTurn [IoBackend Io] (s : Machine Io) (e : Event Io) (s' : Machine Io) (r l : List Nat) (d : Option Nat)
    (m r' : List Nat) : Prop where
  turn : Turn r l d m r'
  nodup : (r ++ l ++ m).Nodup
  waiting : ∀ t, IsWaiting s.rt t → IsWaiting s'.rt t ∨ t ∈ l
  dispatched : dispatched s s' = d.toList
  inTurn : ∀ t, d = some t → (r ++ l).head? = some t ∨ HandedOn s e t
  ran : d ≠ none → (∀ f, s.ctl ≠ .pick f) → m = [s.rt.current]

/-- What the steps of a run add up to. -/
def along [IoBackend Io] (f : Machine Io → Machine Io → List Nat) (s : Machine Io) : List (Event Io) → List Nat
  | [] => []
  | e :: es => match step s e with
    | some s' => f s s' ++ along f s' es
    | none => []

/-- How many steps of a run release a lock. -/
def releasesIn [IoBackend Io] (es : List (Event Io)) : Nat := es.countP fun e => (releases e).isSome

/-- In the run from `s₀` to `s` the run queue is kept, but for the releases, which may each let one out of turn run;
those who wait do so until they join it. -/
structure KeptRun [IoBackend Io] (s₀ : Machine Io) (es : List (Event Io)) (s : Machine Io) : Prop where
  kept : ∃ r₀ r, RunQueue s₀.rt r₀ ∧ RunQueue s.rt r ∧ (∀ t, t ∈ r₀ ↔ IsReady s₀.rt t) ∧
    (∀ t, t ∈ r ↔ IsReady s.rt t) ∧ r.Nodup ∧ LineKept r₀ (releasesIn es) (along joined s₀ es)
    (along dispatched s₀ es) r
  waiting : ∀ t, IsWaiting s₀.rt t → IsWaiting s.rt t ∨ t ∈ along joined s₀ es

/-- The run is orderly: every step is a turn of the queue, too. -/
structure OrderlyRun [IoBackend Io] (s₀ : Machine Io) (es : List (Event Io)) (s : Machine Io) : Prop
    extends KeptRun s₀ es s where
  turns : ∀ es₁ e es₂ s₁ s₂, es = es₁ ++ e :: es₂ → Transition.run step s₀ es₁ = some s₁ → step s₁ e = some s₂ →
    ∃ r l d m r', RunQueue s₁.rt r ∧ RunQueue s₂.rt r' ∧ QueueTurn s₁ e s₂ r l d m r'

/-! ### Where a switch lands -/

/-- The places where a switch can land. -/
def Ctl.landing : Ctl → Bool
  | .code | .lockTry _ | .condReleased _ | .drain | .lost | .panic .resumedFinished => true
  | _ => false

private theorem gtResume_landing (R : GtRuntime Io) (f : Resume) : (gtResume R f).ctl.landing := by
  cases f with
  | released k => cases k <;> rfl
  | _ => rfl

theorem gtContextSwitch_landing (R : GtRuntime Io) (self : Nat) (f : Resume) (next : Nat) :
    (gtContextSwitch R self f next).ctl.landing := by
  unfold gtContextSwitch
  dsimp only
  split
  · rfl
  · rfl
  · exact gtResume_landing _ _

private theorem gtSwitchTo_landing (R : GtRuntime Io) (f : Resume) (next : Nat) :
    (gtSwitchTo R f next).ctl.landing := by
  unfold gtSwitchTo
  dsimp only
  split
  · exact gtResume_landing _ f
  · exact gtContextSwitch_landing _ _ _ _

section

variable [IoBackend Io] [LawfulIoBackend Io] {s s' : Machine Io} {e : Event Io} {v v' v₁ v₂ : Roster}
  {R₁ R₂ : GtRuntime Io} {l m : List Nat} {f g : Resume} {op : Nat}

/-- Where a switch lands the task runs. -/
theorem Live.landed_runs (h : Live s v) (hland : s.ctl.landing) : Runs s.rt v := by
  have hctl := h.ctl
  cases hat : s.ctl
  all_goals rw [hat] at hctl hland
  case code => exact hctl.1
  case lockTry => exact hctl.1
  case condReleased => exact hctl.1
  case drain => exact hctl.1
  case lost => exact hctl.elim
  case panic p =>
    cases p with
    | resumedFinished => exact absurd rfl hctl.1
    | _ => exact absurd hland Bool.false_ne_true
  all_goals exact absurd hland Bool.false_ne_true

theorem Live.isRunning_role (h : Live s v) : IsRunning s.rt t ↔ v.role t = .running :=
  ((h.steady.statesOk h.models.lists).running t).symm

private theorem Live.isWaiting_role (h : Live s v) : IsWaiting s.rt t ↔ ∃ op, v.role t = .waiting op :=
  ((h.steady.statesOk h.models.lists).waiting t).symm

/-- Those who wait are those whose submissions the backend has. -/
private theorem Models.waiting_pending (h : Models R v) (hs : Steady R v none) :
    v.role t = .waiting op ↔ (t, op) ∈ LawfulIoBackend.pending R.io := by
  have hp := h.counts.pending
  rw [hs.taken, List.nil_append] at hp
  rw [hp.mem_iff, h.ok.waiting_iff]

/-- A task on the run queue does not run. -/
private theorem Models.ready_ne (h : Models R v) (hr : Runs R v) (ht : t ∈ v.ready) : t ≠ R.current := by
  rintro rfl
  obtain ⟨g, hg⟩ := (h.ok.ready_iff _).1 ht
  rw [hr.role] at hg
  cases hg

/-! ### Who joins and who is let out -/

/-- The runtime in the course of a step: those of `l` have joined the run queue, and of those who waited they alone do
no longer. -/
structure Arrived (s : Machine Io) (v : Roster) (l : List Nat) (R : GtRuntime Io) (v₁ : Roster) : Prop where
  models : Models R v₁
  steady : Steady R v₁ none
  current : R.current = s.rt.current
  ready : v₁.ready = v.ready ++ l
  waiting : ∀ t op, v.role t = .waiting op → t ∈ l ∨ (t, op) ∈ LawfulIoBackend.pending R.io

theorem Arrived.here (h : Live s v) : Arrived s v [] s.rt v where
  models := h.models
  steady := h.steady
  current := rfl
  ready := (List.append_nil _).symm
  waiting _ _ hw := Or.inr ((h.models.waiting_pending h.steady).1 hw)

private theorem Arrived.of_poll (h₁ : Models R₁ v₁) (hs₁ : Steady R₁ v₁ none) (hp : Polled v v₁)
    (hcur : R₁.current = s.rt.current) (hok : v.Ok) : ∃ l, Arrived s v l R₁ v₁ := by
  obtain ⟨l, hl⟩ := hp.ready
  refine ⟨l, h₁, hs₁, hcur, hl, ?_⟩
  intro t op hop
  rcases hp.role t with hsame | ⟨_, -, hready⟩
  · rw [hop, h₁.waiting_pending hs₁] at hsame
    exact Or.inr hsame
  · left
    have hmem : t ∈ v₁.ready := (h₁.ok.ready_iff t).2 ⟨_, hready⟩
    rw [hl, List.mem_append] at hmem
    apply hmem.resolve_left
    intro hold
    obtain ⟨f, hf⟩ := (hok.ready_iff t).1 hold
    rw [hop] at hf
    cases hf

theorem Arrived.poll (h : Live s v) (wait : Wait) : ∃ l v₁, Arrived s v l (gtIoPoll s.rt wait) v₁ ∧ Polled v v₁ := by
  obtain ⟨v₁, h₁, hs₁, hp⟩ := Live.poll h.models h.steady wait
  obtain ⟨l, ha⟩ := Arrived.of_poll h₁ hs₁ hp (gtIoPoll_frame s.rt wait).current h.models.ok
  exact ⟨l, v₁, ha, hp⟩

private theorem Arrived.pollNow (h : Live s v) : ∃ l v₁, Arrived s v l (gtIoPollNow s.rt) v₁ ∧ Polled v v₁ := by
  obtain ⟨v₁, h₁, hs₁, hp⟩ := Live.pollNow h.models h.steady
  obtain ⟨l, ha⟩ := Arrived.of_poll h₁ hs₁ hp (gtIoPollNow_frame s.rt).current h.models.ok
  exact ⟨l, v₁, ha, hp⟩

/-- Further changes that leave the run queue and the backend. -/
theorem Arrived.next (h : Arrived s v l R₁ v₁) (h₂ : Models R₂ v₂) (hs₂ : Steady R₂ v₂ none)
    (hcur : R₂.current = R₁.current) (hio : R₂.io = R₁.io) (hq : RunQueue R₂ v₁.ready) : Arrived s v l R₂ v₂ where
  models := h₂
  steady := hs₂
  current := hcur.trans h.current
  ready := by rw [← h.ready]; exact h₂.lists.ready.unique hq.links
  waiting t op hw := by rw [hio]; exact h.waiting t op hw

/-- Those who waited at the start of the step do so still, or have joined. -/
private theorem Arrived.still (h : Arrived s v l R₁ v₁) (hv : Live s v) (h' : Live s' v')
    (hio : LawfulIoBackend.pending R₁.io ⊆ LawfulIoBackend.pending s'.rt.io) (ht : IsWaiting s.rt t) :
    IsWaiting s'.rt t ∨ t ∈ l := by
  obtain ⟨op, hop⟩ := hv.isWaiting_role.1 ht
  rcases h.waiting t op hop with hl | hp
  · exact Or.inr hl
  · exact Or.inl (h'.isWaiting_role.2 ⟨op, (h'.models.waiting_pending h'.steady).2 (hio hp)⟩)

/-- Whatever a step does to the run queue. -/
def Turned (s : Machine Io) (e : Event Io) (s' : Machine Io) (v v' : Roster) : Prop :=
  ∃ l d m, QueueTurn s e s' v.ready l d m v'.ready

/-- A step in which nobody is let out. -/
private theorem Turned.joins (h : Live s v) (h' : Live s' v') (hready : v'.ready = v.ready ++ l)
    (hwait : ∀ t, IsWaiting s.rt t → IsWaiting s'.rt t ∨ t ∈ l) (hcur : s'.rt.current = s.rt.current)
    (hrun : v'.role s.rt.current = .running → v.role s.rt.current = .running) : Turned s e s' v v' := by
  refine ⟨l, none, [], ⟨?_, fun _ ht => by cases ht⟩, ?_, hwait, ?_, fun _ ht => (by cases ht),
    fun hd => absurd rfl hd⟩
  · rw [letOut, List.append_nil]
    exact hready
  · rw [List.append_nil, ← hready]
    exact h'.models.lists.ready.nodup
  · apply List.eq_nil_iff_forall_not_mem.2
    intro t ht
    rw [mem_dispatched, h.isRunning_role, h'.isRunning_role] at ht
    have heq := h'.models.lists.running t (Or.inl ht.2)
    rw [hcur] at heq
    rw [heq] at ht
    exact ht.1 (hrun ht.2)

/-- A step in which nobody is let out, after others have joined. -/
theorem Arrived.turned (ha : Arrived s v l R₁ v₁) (h : Live s v) (h' : Live s' v') (hq : RunQueue s'.rt v₁.ready)
    (hcur : s'.rt.current = R₁.current)
    (hio : LawfulIoBackend.pending R₁.io ⊆ LawfulIoBackend.pending s'.rt.io)
    (hrun : v'.role s.rt.current = .running → v.role s.rt.current = .running) : Turned s e s' v v' := by
  refine Turned.joins h h' ?_ (fun t ht => ha.still h h' hio ht) (hcur.trans ha.current) hrun
  rw [← ha.ready]
  exact h'.ready_eq hq

/-- A step in which the task `t` is let out. -/
private theorem Arrived.lets (ha : Arrived s v l R₁ v₁) (h : Live s v) (h' : Live s' v') (ht : t ∈ v₁.ready)
    (hready : v'.ready = v₁.ready.erase t ++ m) (hm : (v₁.ready ++ m).Nodup) (hcur : s'.rt.current = t)
    (hland : s'.ctl.landing) (hio : s'.rt.io = R₁.io) (hnot : v.role t ≠ .running)
    (hwho : v₁.ready.head? = some t ∨ HandedOn s e t) (hran : (∀ f, s.ctl ≠ .pick f) → m = [s.rt.current]) :
    Turned s e s' v v' := by
  refine ⟨l, some t, m, ⟨?_, ?_⟩, ?_, ?_, ?_, ?_, fun _ => hran⟩
  · rw [letOut, ← ha.ready]
    exact hready
  · rintro _ ⟨⟩
    rw [← ha.ready]
    exact ht
  · rw [← ha.ready]
    exact hm
  · exact fun t ht => ha.still h h' (by rw [hio]; exact List.Subset.refl _) ht
  · apply eq_singleton (dispatched_nodup s s')
    intro i
    rw [mem_dispatched, h.isRunning_role, h'.isRunning_role]
    constructor
    · intro hi
      rw [← hcur]
      exact h'.models.lists.running i (Or.inl hi.2)
    · rintro rfl
      exact ⟨hnot, by rw [← hcur]; exact (h'.landed_runs hland).role⟩
  · rintro _ ⟨⟩
    rw [← ha.ready]
    exact hwho

/-- The running task goes to the end of the run queue, and `t`, which is off it, goes on. -/
private theorem Arrived.givesWay_to (ha : Arrived s v l R₁ v₁) (h : Live s v) (h' : Live s' v') (hr₁ : Runs R₁ v₁)
    (ht : t ∈ v₁.ready) (hready : v'.ready = v₁.ready.erase t ++ [R₁.current])
    (hcur : s'.rt.current = t) (hland : s'.ctl.landing) (hio : s'.rt.io = R₁.io)
    (hwho : v₁.ready.head? = some t ∨ HandedOn s e t) : Turned s e s' v v' := by
  have hne := ha.models.ready_ne hr₁ ht
  refine ha.lets h h' ht hready ?_ hcur hland hio ?_ hwho fun _ => by rw [ha.current]
  · rw [List.nodup_append]
    refine ⟨ha.models.lists.ready.nodup, List.nodup_singleton _, ?_⟩
    intro a hmem b hb
    rw [List.mem_singleton.1 hb]
    exact ha.models.ready_ne hr₁ hmem
  · intro hrun
    have heq := h.models.lists.running t (Or.inl hrun)
    rw [ha.current] at hne
    exact hne heq

/-- The running task gives way to the first of the run queue. -/
private theorem Arrived.givesWay {k : List Nat} (ha : Arrived s v l R₁ v₁) (h : Live s v) (h' : Live s' v')
    (hr₁ : Runs R₁ v₁) (hf : Roster.GivesWay f) (hl : v₁.locker = some R₁.current ↔ ∃ c, f = .stepped c)
    (hl' : v₁.locker = none ∨ v₁.locker = some R₁.current)
    (hc : ∀ c, f = .stepped c → (R₁.lockWaiter R₁.current).lock = c.lock ∧ c.queued = true)
    (hcons : v₁.ready = t :: k) (hs' : s' = gtGiveWay (rqUnlink R₁ none t) f t) : Turned s e s' v v' := by
  rcases ha.models.rqPop ha.steady with ⟨hnil, -⟩ | ⟨u, k', g, hcons', hg, heq, hpop, hsteady⟩
  · rw [hcons] at hnil
    cases hnil
  · rw [hcons] at hcons'
    injection hcons' with htu
    subst htu
    obtain ⟨w, hw⟩ := hpop.giveWay (f := f) (g := g) hsteady (runs_pop hr₁ hg) (by simp [Roster.pop]) hf hl hl' hc
    rw [← hs'] at hw
    apply ha.givesWay_to h h' hr₁ (t := t)
    · rw [hcons]
      exact List.mem_cons_self
    · rw [h'.ready_eq hw.live.runQueue, hw.ready]
      rfl
    · exact hw.current
    · rw [hs']
      exact gtSwitchTo_landing _ _ _
    · rw [hs']
      exact (Leads.io (gtGiveWay_leads _ _ _)).trans rfl
    · rw [hcons]
      exact Or.inl rfl

/-- `_gt_step`: the first of the run queue is let out, or there is none and the task goes to a poll. -/
theorem Arrived.stepped {poll : Ctl} (ha : Arrived s v l R₁ v₁) (h : Live s v) (h' : Live s' v')
    (hr : v.role s.rt.current = .running) (hr₁ : Runs R₁ v₁) (hf : Roster.GivesWay f)
    (hl : v₁.locker = some R₁.current ↔ ∃ c, f = .stepped c) (hl' : v₁.locker = none ∨ v₁.locker = some R₁.current)
    (hc : ∀ c, f = .stepped c → (R₁.lockWaiter R₁.current).lock = c.lock ∧ c.queued = true)
    (hs' : s' = gtStep R₁ f poll) : Turned s e s' v v' := by
  unfold gtStep at hs'
  rcases ha.models.rqPop ha.steady with ⟨-, heq⟩ | ⟨n, k, g, hcons, -, heq, -⟩
  · rw [heq] at hs'
    subst hs'
    exact ha.turned h h' ⟨ha.models.lists.ready, ha.models.lists.tail⟩ rfl (List.Subset.refl _) fun _ => hr
  · rw [heq] at hs'
    exact ha.givesWay h h' hr₁ hf hl hl' hc hcons hs'

/-- A release: the longest waiter is let out, or the running task goes on. -/
theorem Arrived.released {lock : Nat} (ha : Arrived s v l R₁ v₁) (h : Live s v) (h' : Live s' v')
    (hr : v.role s.rt.current = .running) (hr₁ : Runs R₁ v₁) (hl : v₁.locker = none) (hf : Roster.GivesWay f)
    (hns : ∀ c, f ≠ .stepped c) (hgo : (gtResume R₁ f).rt = R₁) (he : releases e = some lock)
    (hqueue : v₁.queue = v.queue) (hlw : R₁.lockWaiter = s.rt.lockWaiter) (hs' : s' = gtLockReleased R₁ lock f) :
    Turned s e s' v v' := by
  have hio : s'.rt.io = R₁.io := by
    rw [hs']
    exact (gtLockReleased_leads R₁ lock f).io
  rcases ha.models.lockReleased lock ha.steady hr₁ hl hf hns with ⟨-, heq⟩ | ⟨t, ht, hmem, w, hw, hct, hready, -⟩
  · rw [heq] at hs'
    apply ha.turned h h'
    · rw [hs', hgo]
      exact ⟨ha.models.lists.ready, ha.models.lists.tail⟩
    · rw [hs', hgo]
    · rw [hio]
      exact List.Subset.refl _
    · exact fun _ => hr
  · have hland : s'.ctl.landing := by
      rw [hs']
      unfold gtLockReleased
      split
      · exact gtResume_landing _ _
      · exact gtSwitchTo_landing _ _ _
    rw [← hs'] at hw hct
    apply ha.givesWay_to h h' hr₁ hmem _ hct hland hio
    · right
      refine ⟨lock, v.queue, he, h.models.locks.queue, ?_⟩
      rw [earliest, ← hlw, ← hqueue]
      exact ht
    · rw [h'.ready_eq hw.runQueue]
      exact hready

/-! ### The steps -/

omit [IoBackend Io] [LawfulIoBackend Io] in
private theorem RunQueue.congr {q : List Nat} (h : RunQueue R q) (hhead : R'.rqHead = R.rqHead)
    (htail : R'.rqTail = R.rqTail) (hnext : ∀ i ∈ q, (R'.slots i).next = (R.slots i).next) : RunQueue R' q := by
  constructor
  · rw [hhead]
    exact h.links.congr hnext
  · rw [htail]
    exact h.tail

/-- A step in which the same task goes on and nobody joins or is let out. -/
private theorem Turned.still (h : Live s v) (h' : Live s' v') (hq : RunQueue s'.rt v.ready)
    (hin : Internal s.rt s'.rt) (hrun : v.role s.rt.current = .running) : Turned s e s' v v' :=
  (Arrived.here h).turned h h' hq hin.current (by rw [hin.io]; exact List.Subset.refl _) fun _ => hrun

omit [IoBackend Io] [LawfulIoBackend Io] in
/-- The run queue at the end of a lock call. -/
private theorem gtLockUntilEnd_queue {q : List Nat} (h : RunQueue R q) (c : LockCall) (err : Int) :
    RunQueue (gtLockUntilEnd R c err).rt q := by
  have hremove : RunQueue (if c.queued then gtLockWaitRemove R R.current else R) q := by
    split
    · unfold gtLockWaitRemove
      split
      · exact h
      · split <;> exact ⟨h.links, h.tail⟩
    · exact h
  unfold gtLockUntilEnd
  dsimp only
  split
  · exact hremove
  · split <;> exact hremove

/-- A spawn that succeeds makes its task join, and nobody else is moved. -/
private theorem Live.turned_async {body : SppcClosure} {o : SpawnAnswer} (h : Live s v) (ht : Table s.rt)
    (hstep : step s (.async body o) = some s') (h' : Live s' v') : Turned s (.async body o) s' v v' := by
  have hok := (h.spawnable ht).spawnOk 0 body o
  have hkeeps := step_keeps hstep ht
  rw [step] at hstep
  split at hstep
  case isFalse => cases hstep
  rename_i hcode
  obtain ⟨hr, hl⟩ := h.at_code hcode.1
  obtain ⟨-, -, -, -, -, hcur⟩ := Live.async h.models h.steady hr hl ht hcode.2 o
  have hrt : s'.rt = (sppcAsync s.rt body o).1 := by
    split at hstep
    · rename_i heq
      rw [heq, ← Option.some.inj hstep]
      rfl
    · rename_i heq
      rw [heq, ← Option.some.inj hstep]
      rfl
  have hinto : (sppcAsyncInto s.rt 0 body o).1 = s'.rt := by
    rw [hrt]
    unfold sppcAsyncInto
    split
    · rename_i heq
      rw [heq]
    · rename_i heq
      rw [heq]
  unfold SpawnOk at hok
  dsimp only at hok
  rw [hinto] at hok
  rw [← hrt] at hcur
  have hwait (hsame : ∀ i < s.rt.nslots, (s.rt.slots i).state = .waiting → (s'.rt.slots i).state = .waiting) (i : Nat)
      (hi : IsWaiting s.rt i) : IsWaiting s'.rt i := ⟨Nat.lt_of_lt_of_le hi.1 hkeeps.2.nslots, hsame i hi.1 hi.2⟩
  by_cases hret : (sppcAsyncInto s.rt 0 body o).2.1 = 0
  · obtain ⟨a, hdone⟩ := hok.2 hret
    obtain ⟨q, hq, hq'⟩ := hdone.queue
    refine Turned.joins h h' (l := [a]) ?_ (fun i hi => Or.inl (hwait ?_ i hi)) hcur fun _ => hr.role
    · rw [h.ready_eq hq]
      exact h'.ready_eq hq'
    · intro i hi hst
      rw [hdone.others i ?_]
      · exact hst
      · rintro rfl
        rcases hdone.vacant with hle | hfree
        · omega
        · rw [hst] at hfree
          cases hfree
  · obtain ⟨q, hq, hq'⟩ := (hok.1 hret).2.queue
    refine Turned.joins h h' (l := []) ?_ (fun i hi => Or.inl (hwait ?_ i hi)) hcur fun _ => hr.role
    · rw [List.append_nil, h.ready_eq hq]
      exact h'.ready_eq hq'
    · intro i hi hst
      rw [(hok.1 hret).2.slots i hi (by rw [hst]; decide)]
      exact hst

private theorem Live.turned_yield (h : Live s v) (hstep : step s .yield = some s') (h' : Live s' v') :
    Turned s .yield s' v v' := by
  rw [step] at hstep
  split at hstep
  case isFalse => cases hstep
  rename_i hcode
  obtain ⟨hr, hl⟩ := h.at_code hcode
  obtain ⟨l, v₁, ha, hp⟩ := Arrived.pollNow h
  have hr₁ := hr.poll hp (gtIoPollNow_frame s.rt)
  have hl₁ : v₁.locker = none := hp.locker.trans hl
  have hs' : s' = gtStep (gtIoPollNow s.rt) .yielded .code := by
    rw [← Option.some.inj hstep]
    unfold gtYield gtStep
    dsimp only
    rcases gtRqPop (gtIoPollNow s.rt) with ⟨_ | next, R⟩
    · rfl
    · rfl
  exact ha.stepped h h' hr.role hr₁ (f := .yielded) trivial (by simp [hl₁]) (Or.inl hl₁) (fun c hc => by cases hc) hs'

private theorem Live.turned_await {handle : Int} (h : Live s v) (hstep : step s (.await handle) = some s')
    (h' : Live s' v') : Turned s (.await handle) s' v v' := by
  rw [step] at hstep
  split at hstep
  case isFalse => cases hstep
  rename_i hcode
  have hs' : gtAwait s.rt handle = s' := Option.some.inj hstep
  subst hs'
  refine Turned.still h h' ?_ (gtAwait_internal _ _) (h.at_code hcode).1.role
  apply h.runQueue.await
  intro i hi
  exact (h.isReady_iff.2 hi).2

omit [IoBackend Io] [LawfulIoBackend Io] in
/-- A detach leaves the run queue as it is: a slot that is handed back has finished. -/
private theorem RunQueue.detach {q : List Nat} {handle : Int} (hq : RunQueue R q)
    (hready : ∀ i ∈ q, (R.slots i).state = .ready) : RunQueue (gtDetach R handle).rt q := by
  unfold gtDetach
  split
  · exact hq
  · rename_i t ht
    split
    · exact hq
    · split
      · exact hq
      · have hmark : RunQueue ((R.modify t fun s => { s with detached := true }).note (.detached t)) q := by
          refine hq.congr rfl rfl ?_
          intro i hi
          dsimp only [GtRuntime.modify, GtRuntime.note]
          by_cases hit : i = t
          · rw [hit, Function.update_self]
          · rw [Function.update_of_ne hit]
        unfold toCode
        dsimp only
        split
        · rename_i hdone
          rw [gtSlotFree_eq]
          refine hmark.congr rfl rfl ?_
          intro i hi
          have hit : i ≠ t := by
            rintro rfl
            dsimp only [GtRuntime.modify, GtRuntime.note] at hdone
            rw [Function.update_self, hready i hi] at hdone
            cases hdone
          dsimp only
          rw [if_neg hit]
        · exact hmark

private theorem Live.turned_detach {handle : Int} (h : Live s v) (hstep : step s (.detach handle) = some s')
    (h' : Live s' v') : Turned s (.detach handle) s' v v' := by
  rw [step] at hstep
  split at hstep
  case isFalse => cases hstep
  rename_i hcode
  have hs' : gtDetach s.rt handle = s' := Option.some.inj hstep
  subst hs'
  refine Turned.still h h' ?_ (gtDetach_internal _ _) (h.at_code hcode).1.role
  apply h.runQueue.detach
  intro i hi
  exact (h.isReady_iff.2 hi).2

private theorem Live.turned_io {req : IoBackend.Req Io} (h : Live s v) (hstep : step s (.io req) = some s')
    (h' : Live s' v') (hacc : AllAccepted s'.rt.log) : Turned s (.io req) s' v v' := by
  rw [step] at hstep
  split at hstep
  case isFalse => cases hstep
  rename_i hcode
  obtain ⟨hr, -⟩ := h.at_code hcode
  have hs' : gtIoCall s.rt req = s' := Option.some.inj hstep
  have ha := Arrived.here h
  unfold gtIoCall at hs'
  split at hs'
  · subst hs'
    exact ha.turned h h' h.runQueue rfl (List.Subset.refl _) fun _ => hr.role
  · split at hs'
    · subst hs'
      exact ha.turned h h' h.runQueue rfl (List.Subset.refl _) fun _ => hr.role
    · subst hs'
      exact absurd List.mem_cons_self (hacc s.rt.current)
    · rename_i io op hsub
      obtain ⟨-, hp⟩ := LawfulIoBackend.submit s.rt.io io req s.rt.current op h.models.counts.io_ok hsub
      subst hs'
      refine ha.turned h h' ?_ rfl ?_ fun _ => hr.role
      · refine h.runQueue.congr rfl rfl ?_
        intro i hi
        dsimp only [gtBlock, GtRuntime.modify, GtRuntime.note]
        by_cases hic : i = s.rt.current
        · rw [hic, Function.update_self]
        · rw [Function.update_of_ne hic]
      · intro x hx
        exact hp.symm.subset (List.mem_cons_of_mem _ hx)

/-- The end of a task makes its awaiters join. -/
private theorem Live.turned_finish (h : Live s v) (hstep : step s .finish = some s') (h' : Live s' v') :
    Turned s .finish s' v v' := by
  rw [step] at hstep
  split at hstep
  case isFalse => cases hstep
  rename_i hcode
  obtain ⟨hr, hl⟩ := h.at_code hcode.1
  obtain ⟨hmod, -, -⟩ := h.models.taskRunEnd hr.role hl hr.zombies
  have hs' : gtTaskRunEnd s.rt = s' := Option.some.inj hstep
  subst hs'
  have hin := gtTaskRunEnd_internal s.rt
  have hended : (v.ended s.rt.current).ready = v.ready ++ v.joiners s.rt.current :=
    wokenAll_ready (v := v.finish s.rt.current)
  refine Turned.joins h h' (l := v.joiners s.rt.current) ?_ ?_ hin.current fun _ => hr.role
  · apply h'.ready_eq
    rw [← hended]
    exact ⟨hmod.lists.ready, hmod.lists.tail⟩
  · intro t ht
    rcases (Arrived.here h).still h h' (by rw [hin.io]; exact List.Subset.refl _) ht with hw | hl
    · exact Or.inl hw
    · cases hl

omit [IoBackend Io] [LawfulIoBackend Io] in
/-- Where a task blocks it does not run. -/
private theorem CtlOk.pick_not_running {f : Resume} (h : CtlOk R v (.pick f)) : v.role R.current ≠ .running := by
  intro hrun
  have hf := h.1
  rw [hrun] at hf
  cases hf

private theorem Live.turned_pick {f : Resume} (h : Live s v) (hpick : s.ctl = .pick f) (h' : Live s' v')
    (hs' : gtPick s.rt f = s') : Turned s e s' v v' := by
  have hctl := h.ctl
  rw [hpick] at hctl
  have hnot := hctl.pick_not_running
  obtain ⟨hf, hl, hway, hz⟩ := hctl
  obtain ⟨l, v₁, ha, hp⟩ := Arrived.pollNow h
  have hR := gtIoPollNow_frame s.rt
  have hf₁ : (v₁.role (gtIoPollNow s.rt).current).frame = some f := by
    rw [hR.current]
    exact hp.frame hf
  have hl₁ : v₁.locker = none := hp.locker.trans hl
  have hz₁ : f ≠ .finished → (gtIoPollNow s.rt).zombies = none := fun hne => hR.zombies.trans (hz hne)
  have hio : s'.rt.io = (gtIoPollNow s.rt).io := by
    rw [← hs']
    exact (gtPick_leads s.rt f).io
  unfold gtPick at hs'
  dsimp only at hs'
  rcases ha.models.rqPop ha.steady with ⟨-, heq⟩ | ⟨n, k, g, hcons, hg, heq, hpop, hsteady⟩
  · rw [heq] at hs'
    dsimp only at hs'
    have hq : RunQueue (gtIoPollNow s.rt) v₁.ready := ⟨ha.models.lists.ready, ha.models.lists.tail⟩
    by_cases hinf : (gtIoPollNow s.rt).inflight ≠ 0
    · rw [if_pos hinf] at hs'
      subst hs'
      refine ha.turned h h' hq rfl (List.Subset.refl _) ?_
      rw [← ha.current]
      exact fun hrun => absurd hrun (CtlOk.pick_not_running (f := f) h'.ctl)
    · rw [if_neg hinf] at hs'
      subst hs'
      refine ha.turned h h' hq rfl (List.Subset.refl _) ?_
      rw [← ha.current]
      intro hrun
      obtain ⟨-, -, -, -, f', hf', -⟩ := h'.ctl
      dsimp only at hf'
      rw [hrun] at hf'
      cases hf'
  · obtain ⟨w, hw⟩ := ha.models.pickNext hg hpop hsteady hf₁ hl₁ hz₁
    rw [heq] at hs'
    dsimp only at hs'
    have hland : s'.ctl.landing := by
      rw [← hs']
      split
      · exact gtContextSwitch_landing _ _ _ _
      · exact gtSwitchTo_landing _ _ _
    rw [hs'] at hw
    refine ha.lets h h' (t := n) (m := []) ?_ ?_ ?_ hw.current hland hio ?_ ?_ fun hno => absurd hpick (hno f)
    · rw [hcons]
      exact List.mem_cons_self
    · rw [h'.ready_eq hw.live.runQueue, hw.ready, List.append_nil]
      rfl
    · rw [List.append_nil]
      exact ha.models.lists.ready.nodup
    · intro hrun
      rw [h.models.lists.running n (Or.inl hrun)] at hrun
      exact hnot hrun
    · rw [hcons]
      exact Or.inl rfl

private theorem Live.turned_drain (h : Live s v) (hdrain : s.ctl = .drain) (h' : Live s' v')
    (hs' : gtDrain s.rt = s') : Turned s e s' v v' := by
  have hctl := h.ctl
  rw [hdrain] at hctl
  obtain ⟨hr, hl⟩ := hctl
  have ha := Arrived.here h
  by_cases hhead : s.rt.rqHead = none
  · have hnil : v.ready = [] := by
      have hlist := h.models.lists.ready
      rw [hhead] at hlist
      exact hlist.eq_nil
    unfold gtDrain at hs'
    rw [if_pos hhead, if_neg (by simp [hr.zombies] : ¬s.rt.zombies ≠ none)] at hs'
    by_cases hinf : s.rt.inflight = 0
    · rw [if_pos hinf] at hs'
      subst hs'
      have hw : v.waiting = [] := List.eq_nil_of_length_eq_zero (h.models.counts.inflight ▸ hinf)
      refine Turned.joins h h' (l := []) ?_ ?_ rfl fun _ => hr.role
      · rw [List.append_nil]
        exact h'.ready_eq ⟨h.runQueue.links, h.runQueue.tail⟩
      · intro t ht
        obtain ⟨op, hop⟩ := h.isWaiting_role.1 ht
        rw [← h.models.ok.waiting_iff, hw] at hop
        cases hop
    · rw [if_neg hinf] at hs'
      subst hs'
      exact ha.turned h h' h.runQueue rfl (List.Subset.refl _) fun _ => hr.role
  · have hs' : s' = gtStep s.rt .drained .drain := by
      rw [← hs']
      unfold gtDrain gtStep
      rw [if_neg hhead]
      rcases gtRqPop s.rt with ⟨_ | next, R⟩
      · rfl
      · rfl
    exact ha.stepped h h' hr.role hr (f := .drained) trivial (by simp [hl]) (Or.inl hl) (fun c hc => by cases hc) hs'

/-- The end of a blocking poll. -/
private theorem Live.turned_poll {wait : Wait} (h : Live s v) (h' : Live s' v')
    (hq : ∀ q, RunQueue (gtIoPoll s.rt wait) q → RunQueue s'.rt q) (hin : Internal (gtIoPoll s.rt wait) s'.rt)
    (hrun : v'.role s.rt.current = .running → v.role s.rt.current = .running) : Turned s e s' v v' := by
  obtain ⟨l, v₁, ha, hp⟩ := Arrived.poll h wait
  refine ha.turned h h' (hq _ ⟨ha.models.lists.ready, ha.models.lists.tail⟩) hin.current ?_ hrun
  rw [hin.io]
  exact List.Subset.refl _

private theorem Live.turned_tried {c : LockCall} {err : Int} {now : Timespec} (h : Live s v)
    (htry : s.ctl = .lockTry c) (h' : Live s' v') (hs' : gtLockTurn s.rt c err now = s') : Turned s e s' v v' := by
  have hctl := h.ctl
  rw [htry] at hctl
  obtain ⟨hr, hl, hlock⟩ := hctl
  unfold gtLockTurn at hs'
  by_cases herr : err = ebusy
  · rw [if_neg (not_not.2 herr)] at hs'
    obtain ⟨l, v₁, ha, hp⟩ := Arrived.pollNow h
    have hR := gtIoPollNow_frame s.rt
    have hr₁ := hr.poll hp hR
    have hl₁ : v₁.locker = if c.queued then some (gtIoPollNow s.rt).current else none := by
      rw [hR.current]
      exact hp.locker.trans hl
    have hlock₁ : ((gtIoPollNow s.rt).lockWaiter (gtIoPollNow s.rt).current).lock = c.lock := by
      rw [hR.lockWaiter, hR.current]
      exact hlock
    have hq₁ : RunQueue (gtIoPollNow s.rt) v₁.ready := ⟨ha.models.lists.ready, ha.models.lists.tail⟩
    generalize gtIoPollNow s.rt = R₁ at ha hr₁ hl₁ hlock₁ hs' hq₁
    dsimp only at hs'
    split at hs'
    · subst hs'
      exact ha.turned h h' hq₁ rfl (List.Subset.refl _) fun _ => hr.role
    · split at hs'
      · subst hs'
        have hin := gtLockUntilEnd_internal R₁ c etimedout
        exact ha.turned h h' (gtLockUntilEnd_queue hq₁ c etimedout) hin.current
          (by rw [hin.io]; exact List.Subset.refl _) fun _ => hr.role
      · cases hqueued : c.queued with
        | true =>
          rw [hqueued] at hl₁ hs'
          exact ha.stepped h h' hr.role hr₁ (f := .stepped { c with queued := true }) trivial (by simp [hl₁])
            (Or.inr hl₁) (by rintro _ ⟨⟩; exact ⟨hlock₁, rfl⟩) hs'.symm
        | false =>
          rw [hqueued] at hl₁ hs'
          obtain ⟨v₂, h₂, hs₂, hr₂, hl₂, hlock₂⟩ := Live.lineUp ha.models ha.steady hr₁ hl₁ (x :=
            { R₁.lockWaiter R₁.current with task := some R₁.current }) rfl rfl
          have ha₂ := ha.next h₂ hs₂ (gtLockWaitAdd_internal _ _).current (gtLockWaitAdd_internal _ _).io (by
            unfold gtLockWaitAdd
            dsimp only [GtRuntime.note]
            split <;> exact ⟨hq₁.links, hq₁.tail⟩)
          exact ha₂.stepped h h' hr.role hr₂ (f := .stepped { c with queued := true }) trivial (by simp [hl₂])
            (Or.inr hl₂) (by rintro _ ⟨⟩; exact ⟨hlock₂.trans hlock₁, rfl⟩) hs'.symm
  · rw [if_pos herr] at hs'
    subst hs'
    exact Turned.still h h' (gtLockUntilEnd_queue h.runQueue c err) (gtLockUntilEnd_internal _ _ _) hr.role

private theorem Live.turned_condWait {k : CondWait} {err : Int} (h : Live s v)
    (hstep : step s (.condWait k err) = some s') (h' : Live s' v') : Turned s (.condWait k err) s' v v' := by
  rw [step] at hstep
  split at hstep
  case isFalse => cases hstep
  rename_i hcode
  obtain ⟨hr, hl⟩ := h.at_code hcode
  obtain ⟨l, v₁, ha, hp⟩ := Arrived.pollNow h
  have hR := gtIoPollNow_frame s.rt
  have hr₁ := hr.poll hp hR
  have hl₁ : v₁.locker = none := hp.locker.trans hl
  have hq₁ : RunQueue (gtIoPollNow s.rt) v₁.ready := ⟨ha.models.lists.ready, ha.models.lists.tail⟩
  have hs' : gtCondWaitUntil s.rt k err = s' := Option.some.inj hstep
  unfold gtCondWaitUntil at hs'
  dsimp only at hs'
  split at hs'
  · subst hs'
    exact ha.turned h h' hq₁ rfl (List.Subset.refl _) fun _ => hr.role
  · split at hs'
    · exact ha.released h h' hr.role hr₁ hl₁ (f := .released (some k)) trivial (fun c hc => by
        cases hc) rfl rfl hp.queue hR.lockWaiter hs'.symm
    · subst hs'
      exact ha.turned h h' hq₁ rfl (List.Subset.refl _) fun _ => hr.role

private theorem Live.turned_condReleased {k : CondWait} (h : Live s v) (hctl : s.ctl = .condReleased k)
    (h' : Live s' v') (hs' : gtCondReleased s.rt k = s') : Turned s e s' v v' := by
  have hok := h.ctl
  rw [hctl] at hok
  obtain ⟨hr, hl⟩ := hok
  obtain ⟨l, v₁, ha, hp⟩ := Arrived.pollNow h
  have hr₁ := hr.poll hp (gtIoPollNow_frame s.rt)
  have hl₁ : v₁.locker = none := hp.locker.trans hl
  unfold gtCondReleased at hs'
  dsimp only at hs'
  split at hs'
  · exact ha.stepped h h' hr.role hr₁ (f := .condStepped k) trivial (by simp [hl₁]) (Or.inl hl₁) (fun c hc => by
      cases hc) hs'.symm
  · subst hs'
    exact ha.turned h h' ⟨ha.models.lists.ready, ha.models.lists.tail⟩ rfl (List.Subset.refl _) fun _ => hr.role

/-- Every step of a machine that goes on. -/
theorem Live.turned (h : Live s v) (ht : Table s.rt) (hstep : step s e = some s') (h' : Live s' v')
    (hacc : AllAccepted s'.rt.log) : Turned s e s' v v' := by
  have hctl := h.ctl
  cases e with
  | async body o => exact h.turned_async ht hstep h'
  | yield => exact h.turned_yield hstep h'
  | await handle => exact h.turned_await hstep h'
  | detach handle => exact h.turned_detach hstep h'
  | io req => exact h.turned_io hstep h' hacc
  | finish => exact h.turned_finish hstep h'
  | turn =>
    rw [step] at hstep
    split at hstep
    · rename_i f hpick
      exact h.turned_pick hpick h' (Option.some.inj hstep)
    · rename_i hdrain
      exact h.turned_drain hdrain h' (Option.some.inj hstep)
    · cases hstep
  | poll =>
    rw [step] at hstep
    split at hstep
    · rename_i f hwait
      cases hstep
      refine h.turned_poll h' (fun q hq => hq) (Internal.refl _) ?_
      rw [← (gtIoPoll_frame s.rt .block).current]
      exact fun hrun => absurd hrun (CtlOk.pick_not_running (f := f) h'.ctl)
    · rename_i c hwait
      rw [hwait] at hctl
      cases hstep
      exact h.turned_poll h' (fun q hq => hq) (Internal.refl _) fun _ => hctl.1.role
    · rename_i k hpoll
      rw [hpoll] at hctl
      cases hstep
      exact h.turned_poll h' (fun q hq => ⟨hq.links, hq.tail⟩) ⟨⟨rfl, fun _ _ => rfl⟩, rfl⟩ fun _ => hctl.1.role
    · rename_i hwait
      rw [hwait] at hctl
      cases hstep
      exact h.turned_poll h' (fun q hq => hq) (Internal.refl _) fun _ => hctl.1.role
    · cases hstep
  | lock lock clock deadline =>
    rw [step] at hstep
    split at hstep <;> cases hstep
    rename_i hcode
    exact Turned.still h h' ⟨h.runQueue.links, h.runQueue.tail⟩ ⟨⟨rfl, fun _ _ => rfl⟩, rfl⟩ (h.at_code hcode).1.role
  | tried err now =>
    rw [step] at hstep
    split at hstep
    · rename_i c htry
      exact h.turned_tried htry h' (Option.some.inj hstep)
    · cases hstep
  | answered err =>
    rw [step] at hstep
    split at hstep <;> cases hstep
    · rename_i c hcall
      rw [hcall] at hctl
      exact Turned.still h h' (gtLockUntilEnd_queue h.runQueue c err) (gtLockUntilEnd_internal _ _ _) hctl.1.role
    · rename_i k hcall
      rw [hcall] at hctl
      exact Turned.still h h' h.runQueue (Internal.refl _) hctl.1.role
  | unlock lock err =>
    rw [step] at hstep
    split at hstep <;> cases hstep
    rename_i hcode
    obtain ⟨hr, hl⟩ := h.at_code hcode
    by_cases herr : err = 0
    · refine (Arrived.here h).released h h' hr.role hr hl (f := .released none) trivial (fun c hc => by
        cases hc) rfl rfl rfl rfl ?_
      unfold gtUnlock
      rw [if_pos herr]
    · refine Turned.still h h' ?_ ?_ hr.role
      · unfold gtUnlock
        rw [if_neg herr]
        exact h.runQueue
      · unfold gtUnlock
        rw [if_neg herr]
        exact Internal.refl _
  | condWait k err => exact h.turned_condWait hstep h'
  | condGo now =>
    rw [step] at hstep
    split at hstep
    · rename_i k hreleased
      exact h.turned_condReleased hreleased h' (Option.some.inj hstep)
    · rename_i k hlocked
      rw [hlocked] at hctl
      cases hstep
      exact Turned.still h h' h.runQueue (Internal.refl _) hctl.1.role
    · cases hstep
  | drain =>
    rw [step] at hstep
    split at hstep <;> cases hstep
    rename_i hcode
    exact Turned.still h h' h.runQueue (Internal.refl _) (h.at_code hcode).1.role
  | setStackSize bytes =>
    rw [step] at hstep
    split at hstep <;> cases hstep
    rename_i hcode
    have hq := gtSetStackSize_quiet s.rt bytes
    exact Turned.still h h' (h.runQueue.congr hq.rqHead hq.rqTail fun i _ => (hq.slots i).next)
      ((Internal.refl _).quiet hq) (h.at_code hcode).1.role
  | setGuardPages enabled =>
    rw [step] at hstep
    split at hstep <;> cases hstep
    rename_i hcode
    have hq := gtSetGuardPages_quiet s.rt enabled
    exact Turned.still h h' (h.runQueue.congr hq.rqHead hq.rqTail fun i _ => (hq.slots i).next)
      ((Internal.refl _).quiet hq) (h.at_code hcode).1.role
  | exit =>
    rw [step] at hstep
    split at hstep <;> cases hstep
    exact h'.ctl.elim
  | kernel e =>
    rw [step] at hstep
    split at hstep
    · cases hstep
    · split at hstep <;> cases hstep
      rename_i io hio
      obtain ⟨-, hp⟩ := LawfulIoBackend.kernel s.rt.io io e h.models.counts.io_ok hio
      refine (Arrived.here h).turned h h' ⟨h.runQueue.links, h.runQueue.tail⟩ rfl hp.symm.subset ?_
      rw [← h.isRunning_role, ← h'.isRunning_role]
      exact id

/-! ### Every run -/

omit [LawfulIoBackend Io] in
/-- Who joins and who is dispatched in a step, by its turn. -/
private theorem QueueTurn.perm_joined {d : Option Nat} {r r' : List Nat} (hq : QueueTurn s e s' r l d m r')
    (hr : ∀ t, t ∈ r ↔ IsReady s.rt t) (hr' : ∀ t, t ∈ r' ↔ IsReady s'.rt t) : (l ++ m).Perm (joined s s') := by
  have hnd := hq.nodup
  rw [List.append_assoc, List.nodup_append] at hnd
  obtain ⟨-, hlm, hdisj⟩ := hnd
  unfold joined
  rw [List.perm_ext_iff_of_nodup hlm (List.nodup_range.filter _)]
  intro t
  rw [List.mem_filter, List.mem_range, decide_eq_true_eq, hq.dispatched, Option.mem_toList, ← hr, ← hr']
  have hline : t ∈ r' ↔ t ∈ letOut (r ++ l) d ++ m := by rw [hq.turn.line]
  constructor
  · intro ht
    have hold : t ∉ r := fun hold => hdisj t hold t ht rfl
    have hnew : t ∈ r' ∨ d = some t := by
      by_cases hd : d = some t
      · exact Or.inr hd
      · left
        rw [hline, List.mem_append]
        rcases List.mem_append.1 ht with hl | hm
        · left
          have hmem : t ∈ r ++ l := List.mem_append_right r hl
          cases d with
          | none => exact hmem
          | some u => exact (List.mem_erase_of_ne fun h => hd (by rw [h])).2 hmem
        · exact Or.inr hm
    refine ⟨?_, hold, hnew⟩
    rcases hnew with hready | hd
    · exact ((hr' t).1 hready).1
    · have hmem : t ∈ Sppc.dispatched s s' := by
        rw [hq.dispatched, hd]
        exact List.mem_singleton_self t
      exact (mem_dispatched.1 hmem).2.1
  · rintro ⟨-, hold, hnew⟩
    rw [List.mem_append]
    have hout : t ∈ r ++ l ∨ t ∈ m := by
      rcases hnew with hready | hd
      · rcases List.mem_append.1 (hline.1 hready) with hrest | hm
        · left
          cases d with
          | none => exact hrest
          | some u => exact List.mem_of_mem_erase hrest
        · exact Or.inr hm
      · exact Or.inl (hq.turn.out t hd)
    rcases hout with hrl | hm
    · exact Or.inl ((List.mem_append.1 hrl).resolve_left hold)
    · exact Or.inr hm

omit [LawfulIoBackend Io] in
/-- A step that releases no lock lets out the first of the run queue. -/
theorem QueueTurn.first {d : Option Nat} {r r' : List Nat} (hq : QueueTurn s e s' r l d m r')
    (he : releases e = none) : ∀ t, d = some t → (r ++ l).head? = some t := by
  intro t ht
  rcases hq.inTurn t ht with hhead | ⟨lock, q, hlock, -⟩
  · exact hhead
  · rw [he] at hlock
    cases hlock

omit [LawfulIoBackend Io] in
/-- Nothing is taken out of the log in a run. -/
theorem run_log (h : Transition.Reach step s s') (ht : Table s.rt) : s.rt.log <:+ s'.rt.log := by
  refine (h.invariant (P := fun u => Table u.rt ∧ s.rt.log <:+ u.rt.log) ?_ ⟨ht, List.suffix_refl _⟩).2
  rintro u e u' ⟨htu, hlog⟩ hstep
  exact ⟨(step_keeps hstep htu).1, hlog.trans (step_log hstep htu)⟩

/-- A step of a run that goes on. -/
theorem Live.turned_next (h : Live s v) (ht : Table s.rt) (hstep : step s e = some s') {es : List (Event Io)}
    {s₂ : Machine Io} (hrun : Transition.run step s' es = some s₂) (hboth : NeverBoth s₂.rt.log)
    (hacc : AllAccepted s₂.rt.log) (hexit : s₂.ctl ≠ .exited) :
    ∃ v', Live s' v' ∧ Table s'.rt ∧ Turned s e s' v v' := by
  have ht' := (step_keeps hstep ht).1
  obtain ⟨hboth', hacc'⟩ : NeverBoth s'.rt.log ∧ AllAccepted s'.rt.log := by
    have hsuf := run_log ⟨es, hrun⟩ ht'
    exact ⟨hboth.of_suffix hsuf, hacc.of_suffix hsuf⟩
  rcases h.next ht hstep hboth' hacc' with ⟨v', h'⟩ | ⟨hexited, -⟩
  · exact ⟨v', h', ht', h.turned ht hstep h' hacc'⟩
  · cases es with
    | nil => exact absurd (by rw [← Option.some.inj hrun]; exact hexited) hexit
    | cons e' es =>
      rw [Transition.run, step_exited hexited] at hrun
      cases hrun

/-- A run, with all that is kept on the way. -/
private theorem Live.orderly {es : List (Event Io)} {s₂ : Machine Io} {r₀ j g : List Nat} {n : Nat} (h : Live s v)
    (ht : Table s.rt) (hrun : Transition.run step s es = some s₂) (hboth : NeverBoth s₂.rt.log)
    (hacc : AllAccepted s₂.rt.log) (hexit : s₂.ctl ≠ .exited) (hkept : LineKept r₀ n j g v.ready) :
    ∃ v₂, Live s₂ v₂ ∧ Table s₂.rt ∧
      LineKept r₀ (n + releasesIn es) (j ++ along joined s es) (g ++ along dispatched s es) v₂.ready ∧
      ∀ t, IsWaiting s.rt t → IsWaiting s₂.rt t ∨ t ∈ along joined s es := by
  induction es generalizing s v j g n with
  | nil =>
    rw [← Option.some.inj hrun]
    refine ⟨v, h, ht, ?_, fun _ hw => Or.inl hw⟩
    rw [along, along, List.append_nil, List.append_nil]
    exact hkept
  | cons e es ih =>
    rw [Transition.run] at hrun
    rw [along, along]
    cases hstep : step s e with
    | none =>
      rw [hstep] at hrun
      cases hrun
    | some s₁ =>
      rw [hstep] at hrun
      dsimp only at hrun ⊢
      obtain ⟨v₁, h₁, ht₁, l, d, m, hq⟩ := h.turned_next ht hstep hrun hboth hacc hexit
      have hperm := hq.perm_joined (fun t => h.isReady_iff.symm) fun t => h₁.isReady_iff.symm
      have hturn : LineKept r₀ (n + if (releases e).isSome then 1 else 0) (j ++ joined s s₁) (g ++ dispatched s s₁)
          v₁.ready := by
        rw [hq.dispatched]
        apply hkept.turn hq.turn hperm
        intro hk
        apply hq.first
        cases hrel : releases e with
        | none => rfl
        | some lock =>
          rw [hrel] at hk
          cases hk
      obtain ⟨v₂, h₂, ht₂, hkept₂, hwait⟩ := ih h₁ ht₁ hrun hturn
      refine ⟨v₂, h₂, ht₂, ?_, ?_⟩
      · rw [List.append_assoc, List.append_assoc] at hkept₂
        unfold releasesIn at hkept₂ ⊢
        rw [List.countP_cons]
        rw [Nat.add_assoc, Nat.add_comm (if (releases e).isSome then 1 else 0)] at hkept₂
        exact hkept₂
      · intro t hw
        rw [List.mem_append]
        rcases hq.waiting t hw with hw₁ | hl
        · rcases hwait t hw₁ with hw₂ | hj
          · exact Or.inl hw₂
          · exact Or.inr (Or.inr hj)
        · exact Or.inr (Or.inl (hperm.subset (List.mem_append_left m hl)))

/-- A state from which a run goes on that does not end the thread. -/
theorem Reachable.live {es : List (Event Io)} {s₀ : Machine Io} (h : Reachable s₀)
    (hrun : Transition.run step s₀ es = some s) (hboth : NeverBoth s.rt.log) (hacc : AllAccepted s.rt.log)
    (hexit : s.ctl ≠ .exited) : ∃ v, Live s₀ v := by
  have hsuf := run_log ⟨es, hrun⟩ h.table
  rcases h.inv (hboth.of_suffix hsuf) (hacc.of_suffix hsuf) with hlive | ⟨hexited, -⟩
  · exact hlive
  · cases es with
    | nil => exact absurd (by rw [← Option.some.inj hrun]; exact hexited) hexit
    | cons e es =>
      rw [Transition.run, step_exited hexited] at hrun
      cases hrun

theorem Reachable.keptRun {es : List (Event Io)} {s₀ : Machine Io} (h : Reachable s₀)
    (hrun : Transition.run step s₀ es = some s) (hboth : NeverBoth s.rt.log) (hacc : AllAccepted s.rt.log)
    (hexit : s.ctl ≠ .exited) : KeptRun s₀ es s := by
  obtain ⟨v₀, h₀⟩ := h.live hrun hboth hacc hexit
  obtain ⟨v, hv, -, hkept, hwait⟩ := h₀.orderly h.table hrun hboth hacc hexit (LineKept.refl v₀.ready)
  rw [Nat.zero_add, List.nil_append, List.nil_append] at hkept
  refine ⟨⟨v₀.ready, v.ready, h₀.runQueue, hv.runQueue, ?_, ?_, hv.models.lists.ready.nodup, hkept⟩, hwait⟩
  · exact fun t => h₀.isReady_iff.symm
  · exact fun t => hv.isReady_iff.symm

/-- Every run is orderly. -/
theorem run_orderly {es : List (Event Io)} {s₀ : Machine Io} (h : Reachable s₀)
    (hrun : Transition.run step s₀ es = some s) (hboth : NeverBoth s.rt.log) (hacc : AllAccepted s.rt.log)
    (hexit : s.ctl ≠ .exited) : OrderlyRun s₀ es s := by
  refine ⟨h.keptRun hrun hboth hacc hexit, ?_⟩
  rintro es₁ e es₂ s₁ s₂ rfl hrun₁ hstep
  have hreach₁ : Reachable s₁ := h.tail ⟨es₁, hrun₁⟩
  rw [Transition.run_append hrun₁] at hrun
  obtain ⟨v₁, h₁⟩ := hreach₁.live hrun hboth hacc hexit
  rw [Transition.run, hstep] at hrun
  obtain ⟨v₂, h₂, -, l, d, m, hq⟩ := h₁.turned_next hreach₁.table hstep hrun hboth hacc hexit
  exact ⟨v₁.ready, l, d, m, v₂.ready, h₁.runQueue, h₂.runQueue, hq⟩

end

/-- Task 0 holds the lock 100, for which task 2 has queued, and task 1 is the first of the run queue. -/
def waitsBehind : List (Event BlockingIo) :=
  [.async ⟨1, none⟩ spawnServed, .async ⟨2, none⟩ spawnServed, .lock 100 1 none, .tried 0 ⟨0, 0⟩, .yield, .yield,
    .lock 100 1 none, .tried ebusy ⟨0, 0⟩]

/-- The release lets task 2 run out of turn, and task 1 runs next. -/
theorem run_orderly_handoff : ∃ s₀ s : Machine BlockingIo,
    Transition.run step (gtInit BlockingIo.unused 4096 false) waitsBehind = some s₀ ∧
      Transition.run step s₀ [.unlock 100 0, .tried 0 ⟨0, 0⟩, .yield] = some s ∧
      OrderlyRun s₀ [.unlock 100 0, .tried 0 ⟨0, 0⟩, .yield] s ∧
      along dispatched s₀ [.unlock 100 0, .tried 0 ⟨0, 0⟩, .yield] = [2, 1] := by
  obtain ⟨s₀, s, hs₀, hs, hc, hlog, hdis⟩ : ∃ s₀ s : Machine BlockingIo,
      Transition.run step (gtInit BlockingIo.unused 4096 false) waitsBehind = some s₀ ∧
        Transition.run step s₀ [.unlock 100 0, .tried 0 ⟨0, 0⟩, .yield] = some s ∧ s.ctl = .code ∧
        s.rt.log = [.queued 2, .started 2, .started 1, .spawned 2, .mprotected 8192 131072 .readWrite,
          .mapped 4096 135168 .none, .alloc 2, .spawned 1, .mprotected 8192 131072 .readWrite,
          .mapped 4096 135168 .none, .alloc 1, .started 0, .spawned 0, .alloc 0] ∧
        along dispatched s₀ [.unlock 100 0, .tried 0 ⟨0, 0⟩, .yield] = [2, 1] :=
          ⟨_, _, rfl, rfl, rfl, rfl, by decide +kernel⟩
  refine ⟨s₀, s, hs₀, hs, run_orderly ⟨.unused, 4096, false, trivial, _, hs₀⟩ hs ?_ ?_ ?_, hdis⟩
  · exact NeverBoth.of_not_detached fun t => by simp [hlog]
  · exact fun t => by simp [hlog]
  · rw [hc]
    exact fun h => by cases h

end Sppc
