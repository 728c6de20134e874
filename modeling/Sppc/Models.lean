import Mathlib.Data.List.Perm.Subperm
import Sppc.Roster
import Sppc.LinkedList
import Sppc.Machine

/-!
# The runtime stands for an abstract state

`Models R v` says that the runtime's blocks, pointers and counters are those of the abstract state `v`, and that what
the log has recorded fits it.  It comes in parts, by what the parts read: the lists, the lock queue, the counters, the
log's account of the slots and its account of the environments.  It is stated for a backend of which it is known what
a poll delivers (`LawfulIoBackend`).
-/

namespace Sppc

open LinkedList

/-- What a backend must do for the scheduler: `pending` are the submissions accepted and not yet taken by a poll, each
with its task; `Ok` is what the backend relies on between calls.  Each accepted submission is delivered by one poll,
to the task that made it. -/
class LawfulIoBackend (Io : Type) [IoBackend Io] where
  Ok : Io → Prop
  pending : Io → List (Nat × Nat)
  started : ∀ io : Io, IoBackend.Started io → Ok io ∧ pending io = []
  submit : ∀ (io io' : Io) (req : IoBackend.Req Io) (t op : Nat), Ok io →
    IoBackend.submit req t io = .parked io' op → Ok io' ∧ (pending io').Perm ((t, op) :: pending io)
  collect : ∀ (io : Io) (wait : Wait), Ok io →
    Ok (IoBackend.collect wait io).2 ∧
    ∃ taken : List (Nat × Nat),
      (IoBackend.collect wait io).1.map (fun c => (c.task, c.op)) = taken.map (fun k => (some k.1, k.2)) ∧
      (pending io).Perm (taken ++ pending (IoBackend.collect wait io).2)
  kernel : ∀ (io io' : Io) (e : IoBackend.Env Io), Ok io → IoBackend.kernel e io = some io' →
    Ok io' ∧ (pending io').Perm (pending io)
  teardown : ∀ io : Io, Ok io → Ok (IoBackend.teardown io) ∧ pending (IoBackend.teardown io) = []

variable {Io : Type}

/-- The state bytes, the links and the saved stack pointers. -/
structure ListsOk (R : GtRuntime Io) (v : Roster) : Prop where
  unused_iff : ∀ i, v.role i = .unused ↔ R.nslots ≤ i
  state : ∀ i s, (v.role i).state = some s → (R.slots i).state = s
  ready : Linked (fun i => (R.slots i).next) R.rqHead v.ready
  tail : R.rqTail = v.ready.getLast?
  free : Linked (fun i => (R.slots i).next) R.freeSlots v.free
  joiners : ∀ t, Linked (fun i => (R.slots i).wnext) (R.slots t).waiters (v.joiners t)
  zombie : ∀ z, R.zombies = some z → v.role z = .zombie ∧ (R.slots z).next = none
  running : ∀ i, v.role i = .running ∨ v.role i = .ending → i = R.current
  frame : ∀ i f, i ≠ R.current → (v.role i).frame = some f → (R.slots i).sp = some f

/-- The tasks that wait for locks. -/
structure LocksOk (R : GtRuntime Io) (v : Roster) : Prop where
  queue : Linked (fun i => (R.lockWaiter i).next) R.lockWaiters v.queue
  entry : ∀ i ∈ v.queue, (R.lockWaiter i).task = some i
  entry_lock : ∀ i c, v.role i = .ready (.stepped c) ∨ v.role i = .popped (.stepped c) →
    (R.lockWaiter i).lock = c.lock ∧ c.queued = true
  order : v.queue.Pairwise fun a b => arrival a R.log < arrival b R.log

/-- The counters. -/
structure CountsOk [IoBackend Io] [LawfulIoBackend Io] (R : GtRuntime Io) (v : Roster) : Prop where
  njoiners : ∀ t, (v.role t).occupied → (R.slots t).njoiners = (v.joiners t).length + (v.woken t).length
  detached : ∀ t, (v.role t).occupied → (R.slots t).detached = true → v.joiners t = [] ∧ v.woken t = []
  collectable : ∀ t, v.role t = .done → (R.slots t).detached = false
  live : R.live + v.free.length = R.nslots
  nslots_le : R.nslots ≤ 2 ^ 19
  inflight : R.inflight = v.waiting.length
  io_ok : LawfulIoBackend.Ok R.io
  pending : (v.taken ++ LawfulIoBackend.pending R.io).Perm v.waiting

/-- The log's account of the slots and of the submissions. -/
structure LogOk (R : GtRuntime Io) (v : Roster) : Prop where
  lives : ∀ t, (v.role t).occupied →
    life t R.log = some ⟨(v.role t).stage, (R.slots t).detached, v.joiners t, v.woken t, v.collects t⟩
  vacant : ∀ t, (v.role t).occupied = false → ∃ L, life t R.log = some L ∧ L.stage = .vacant
  awaited : ∀ t w, w ∈ v.joiners t ∨ w ∈ v.woken t → Ev.joined w t ∈ occupancy t R.log
  waits : ∀ i op, v.role i = .waiting op → operation i R.log = some op
  taken : EachTaken R.log

/-- The log's account of the environments. -/
structure EnvsOk (R : GtRuntime Io) (v : Roster) : Prop where
  held : ∀ t e, (v.role t).holds → (R.slots t).body.env = some e →
    envStage e.id R.log = some (if (v.role t).stage = .started then .called else .given e.dropCaptures)
  inj : ∀ t t' e e', (v.role t).holds → (v.role t').holds → (R.slots t).body.env = some e →
    (R.slots t').body.env = some e' → e.id = e'.id → t = t'
  hand : ∀ e, v.hand = some e → envStage e.id R.log = some (.given e.dropCaptures) ∧
    ∀ t e', (v.role t).holds → (R.slots t).body.env = some e' → e'.id ≠ e.id
  rest : ∀ id, (∃ e, v.hand = some e ∧ e.id = id) ∨
    (∃ t e, (v.role t).holds ∧ (R.slots t).body.env = some e ∧ e.id = id) ∨
    envStage id R.log = some .unknown ∨ envStage id R.log = some .freed

/-- The runtime `R` stands for `v`. -/
structure Models [IoBackend Io] [LawfulIoBackend Io] (R : GtRuntime Io) (v : Roster) : Prop where
  ok : v.Ok
  lists : ListsOk R v
  locks : LocksOk R v
  counts : CountsOk R v
  logged : LogOk R v
  envs : EnvsOk R v

variable {R R' : GtRuntime Io} {v v' : Roster}

/-! ### What each part depends on -/

theorem LocksOk.congr (h : LocksOk R v) (hh : R'.lockWaiters = R.lockWaiters) (hw : R'.lockWaiter = R.lockWaiter)
    (ha : ∀ w, arrival w R'.log = arrival w R.log) (hq : v'.queue = v.queue)
    (hr : ∀ i c, v'.role i = .ready (.stepped c) ∨ v'.role i = .popped (.stepped c) →
      v.role i = .ready (.stepped c) ∨ v.role i = .popped (.stepped c)) : LocksOk R' v' := by
  obtain ⟨h1, h2, h3, h4⟩ := h
  constructor
  · rw [hh, hw, hq]; exact h1
  · rw [hw, hq]; exact h2
  · intro i c hc
    rw [hw]
    exact h3 i c (hr i c hc)
  · simpa only [hq, ha] using h4

theorem CountsOk.congr [IoBackend Io] [LawfulIoBackend Io] (h : CountsOk R v)
    (hn : ∀ t, (R'.slots t).njoiners = (R.slots t).njoiners) (hd : ∀ t, (R'.slots t).detached = (R.slots t).detached)
    (hl : R'.live = R.live) (hs : R'.nslots = R.nslots)
    (hi : R'.inflight = R.inflight) (hio : R'.io = R.io)
    (hocc : ∀ t, (v'.role t).occupied = (v.role t).occupied) (hdone : ∀ t, v'.role t = .done → v.role t = .done)
    (hj : v'.joiners = v.joiners) (hw : v'.woken = v.woken) (hf : v'.free = v.free) (hwt : v'.waiting = v.waiting)
    (htk : v'.taken = v.taken) : CountsOk R' v' := by
  obtain ⟨h1, h2, h3, h4, hle, h5, h6, h7⟩ := h
  constructor
  · simpa only [hn, hocc, hj, hw] using h1
  · simpa only [hd, hocc, hj, hw] using h2
  · intro t ht
    rw [hd]
    exact h3 t (hdone t ht)
  · rw [hl, hs, hf]; exact h4
  · rw [hs]; exact hle
  · rw [hi, hwt]; exact h5
  · rw [hio]; exact h6
  · rw [hio, hwt, htk]; exact h7

theorem LogOk.congr (h : LogOk R v) (hlog : SameStory R.log R'.log)
    (hd : ∀ t, (R'.slots t).detached = (R.slots t).detached)
    (hocc : ∀ t, (v'.role t).occupied = (v.role t).occupied) (hst : ∀ t, (v'.role t).stage = (v.role t).stage)
    (hj : v'.joiners = v.joiners) (hw : v'.woken = v.woken) (hc : v'.collecting = v.collecting)
    (hop : ∀ i op, v'.role i = .waiting op → v.role i = .waiting op) : LogOk R' v' := by
  obtain ⟨h1, h2, h3, h4, h5⟩ := h
  constructor
  · have hcol : ∀ t, v'.collects t = v.collects t := fun t => by rw [Roster.collects, Roster.collects, hc]
    simpa only [hd, hlog.life, hocc, hst, hj, hw, hcol] using h1
  · simpa only [hlog.life, hocc] using h2
  · intro t w hm
    rw [hj, hw] at hm
    exact hlog.occupancy t _ (h3 t w hm)
  · intro i op hi
    rw [hlog.operation]
    exact h4 i op (hop i op hi)
  · exact hlog.taken h5

/-- The log after an event about the life of `t`. -/
theorem LogOk.cons {e : Ev} {t : Nat} (h : LogOk R v) (hlog : R'.log = e :: R.log)
    (he : e.slot = some t) (halloc : e ≠ .alloc t)
    (ht : (v.role t).occupied)
    (hlife : Life.step t
        ⟨(v.role t).stage, (R.slots t).detached, v.joiners t, v.woken t, v.collects t⟩ e =
      some ⟨(v'.role t).stage, (R'.slots t).detached, v'.joiners t, v'.woken t, v'.collects t⟩)
    (hocc : ∀ i, i ≠ t → (v'.role i).occupied = (v.role i).occupied)
    (hst : ∀ i, i ≠ t → (v'.role i).stage = (v.role i).stage)
    (hd : ∀ i, i ≠ t → (R'.slots i).detached = (R.slots i).detached)
    (hj : ∀ i, i ≠ t → v'.joiners i = v.joiners i) (hw : ∀ i, i ≠ t → v'.woken i = v.woken i)
    (hc : ∀ i, i ≠ t → v'.collects i = v.collects i)
    (hocc' : (v'.role t).occupied)
    (haw : ∀ w, w ∈ v'.joiners t ∨ w ∈ v'.woken t → e = .joined w t ∨ w ∈ v.joiners t ∨ w ∈ v.woken t)
    (hop : ∀ i op, v'.role i = .waiting op → v.role i = .waiting op) : LogOk R' v' := by
  obtain ⟨h1, h2, h3, h4, h5⟩ := h
  have hother : ∀ i, i ≠ t → Sppc.life i R'.log = Sppc.life i R.log := fun i hi => by
    rw [hlog, life_other (by rw [he]; simpa using Ne.symm hi)]
  have hne : ∀ u, e ≠ .alloc u := fun u hu => by
    subst hu
    simp only [Ev.slot, Option.some.injEq] at he
    exact halloc (by rw [he])
  constructor
  · intro i hi
    by_cases hit : i = t
    · subst hit
      rw [hlog, life_cons (h1 i ht), hlife]
    · rw [hocc i hit] at hi
      rw [hother i hit, hst i hit, hd i hit, hj i hit, hw i hit, hc i hit]
      exact h1 i hi
  · intro i hi
    have hit : i ≠ t := by rintro rfl; rw [hocc'] at hi; cases hi
    rw [hocc i hit] at hi
    rw [hother i hit]
    exact h2 i hi
  · intro i w hm
    rw [hlog, mem_occupancy_cons (hne i)]
    by_cases hit : i = t
    · subst hit
      rcases haw w hm with hw | hw
      · exact .inl hw.symm
      · exact .inr (h3 i w hw)
    · rw [hj i hit, hw i hit] at hm
      exact .inr (h3 i w hm)
  · intro i op hi
    rw [hlog, ← h4 i op (hop i op hi)]
    cases e <;> first | rfl | cases he
  · rw [hlog]
    exact h5.cons fun t op st heq => by subst heq; cases he

theorem EnvsOk.congr (h : EnvsOk R v) (hlog : ∀ id, envStage id R'.log = envStage id R.log)
    (hholds : ∀ t, (v'.role t).holds = (v.role t).holds)
    (hst : ∀ t, (v.role t).holds → ((v'.role t).stage = .started ↔ (v.role t).stage = .started))
    (hb : ∀ t, (v.role t).holds → (R'.slots t).body.env = (R.slots t).body.env) (hh : v'.hand = v.hand) :
    EnvsOk R' v' := by
  obtain ⟨h1, h2, h3, h4⟩ := h
  constructor
  · intro t e ht he
    rw [hholds] at ht
    rw [hb t ht] at he
    simpa only [hlog, hst t ht] using h1 t e ht he
  · intro t t' e e' ht ht' he he'
    rw [hholds] at ht ht'
    rw [hb t ht] at he
    rw [hb t' ht'] at he'
    exact h2 t t' e e' ht ht' he he'
  · intro e he
    rw [hh] at he
    refine ⟨by rw [hlog]; exact (h3 e he).1, fun t e' ht he' => ?_⟩
    rw [hholds] at ht
    rw [hb t ht] at he'
    exact (h3 e he).2 t e' ht he'
  · intro id
    rw [hh, hlog]
    rcases h4 id with h | ⟨t, e, ht, he, hid⟩ | h
    · exact .inl h
    · exact .inr (.inl ⟨t, e, by rw [hholds]; exact ht, by rw [hb t ht]; exact he, hid⟩)
    · exact .inr (.inr h)

/-! ### Consequences -/

/-- A list of different slots of the table is not longer than the table. -/
theorem ListsOk.length_le (h : ListsOk R v) {l : List Nat} (hl : l.Nodup) (hu : ∀ i ∈ l, v.role i ≠ .unused) :
    l.length ≤ R.nslots := by
  have hsub : l ⊆ List.range R.nslots := fun i hi => by
    have := mt (h.unused_iff i).2 (hu i hi)
    rw [List.mem_range]
    omega
  simpa using (List.subperm_of_subset hl hsub).length_le

end Sppc
