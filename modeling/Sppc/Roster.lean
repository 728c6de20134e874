import Sppc.Life
import Mathlib.Data.List.Nodup

/-!
# The abstract scheduler

What the runtime's pointers and state bytes stand for: every slot plays one role, and each list is a list.  A role
carries what the rest of the runtime knows about the task in it: where it goes on (`ready`, `popped`), whom it awaits
(`joining`), which submission it waits for (`waiting`).  `Roster.Ok` says how the lists follow from the roles; every
operation below keeps it.
-/

namespace Sppc

/-- What a slot is being used for. -/
inductive Role
  /-- There is no such slot yet. -/
  | unused
  | free
  /-- Handed out to a spawn that has not put it on the run queue. -/
  | fresh
  | ready (f : Resume)
  /-- Taken off the run queue to be run. -/
  | popped (f : Resume)
  | running
  | joining (t : Nat)
  | waiting (op : Nat)
  /-- Finished and waking its awaiters. -/
  | ending
  /-- Finished, its stack not released yet. -/
  | zombie
  | done
  /-- Collected by its last awaiter, which hands the slot back. -/
  | spent
  deriving DecidableEq, Repr

namespace Role

/-- The state byte of a slot in this role; a task taken off the run queue turns from `READY` to `RUNNING`. -/
def state : Role → Option GtState
  | unused | free | fresh => some .free
  | ready _ => some .ready
  | popped _ => none
  | running => some .running
  | joining _ => some .joining
  | waiting _ => some .waiting
  | ending | zombie | done | spent => some .done

/-- Where a task that is not running goes on. -/
def frame : Role → Option Resume
  | ready f | popped f => some f
  | joining t => some (.joined t)
  | waiting op => some (.waited op)
  | zombie | done | spent => some .finished
  | _ => none

/-- The stage its occupant is at. -/
def stage : Role → Stage
  | unused | free => .vacant
  | fresh => .claimed
  | ready .entry | popped .entry => .spawned
  | ready _ | popped _ | running | joining _ | waiting _ => .started
  | ending | zombie | done => .returned
  | spent => .spent

def occupied : Role → Bool
  | unused | free => false
  | _ => true

/-- A task whose body has not returned, or that is still waking its awaiters. -/
def unfinished : Role → Bool
  | ready _ | popped _ | running | joining _ | waiting _ | ending => true
  | _ => false

/-- A task that holds its closure: its body has not returned. -/
def holds : Role → Bool
  | ready _ | popped _ | running | joining _ | waiting _ => true
  | _ => false

end Role

/-- The abstract state: the role of every slot, the run queue, the free slots, for every task its awaiters that are
parked (`joiners`) and those its end has woken that have not returned yet (`woken`), the tasks parked on the backend
with their submissions, of which a running poll has `taken` some from the backend, the tasks queued for thread locks,
of which `locker` is the running one, the environment a running `sppc_async` has in hand, and the finished task whose
result the running task is about to collect. -/
structure Roster where
  role : Nat → Role
  ready : List Nat
  free : List Nat
  joiners : Nat → List Nat
  woken : Nat → List Nat
  waiting : List (Nat × Nat)
  taken : List (Nat × Nat)
  queue : List Nat
  locker : Option Nat
  hand : Option SppcClosureEnv
  collecting : Option Nat

namespace Roster

/-- How the lists follow from the roles. -/
structure Ok (v : Roster) : Prop where
  ready_iff : ∀ i, i ∈ v.ready ↔ ∃ f, v.role i = .ready f
  free_iff : ∀ i, i ∈ v.free ↔ v.role i = .free
  joiners_iff : ∀ w t, w ∈ v.joiners t ↔ v.role w = .joining t
  woken_iff : ∀ w t, w ∈ v.woken t ↔ v.role w = .ready (.joined t) ∨ v.role w = .popped (.joined t)
  woken_nodup : ∀ t, (v.woken t).Nodup
  waiting_iff : ∀ i op, (i, op) ∈ v.waiting ↔ v.role i = .waiting op
  waiting_nodup : v.waiting.Nodup
  joinee : ∀ w t, v.role w = .joining t → (v.role t).unfinished
  woken_done : ∀ w t, w ∈ v.woken t → v.role t = .ending ∨ v.role t = .zombie ∨ v.role t = .done
  queue_iff : ∀ i, i ∈ v.queue ↔
    (∃ c, v.role i = .ready (.stepped c) ∨ v.role i = .popped (.stepped c)) ∨ v.locker = some i
  locker : ∀ i, v.locker = some i → v.role i = .running
  frame_ok : ∀ i f, v.role i = .ready f ∨ v.role i = .popped f → f ≠ .finished

variable {v : Roster} {t w : Nat} {f : Resume}

/-! ### Operations -/

/-- The running task `t` goes to the tail of the run queue, to go on at `f`. -/
def push (v : Roster) (t : Nat) (f : Resume) : Roster :=
  { v with
    role := Function.update v.role t (.ready f)
    ready := v.ready ++ [t]
    locker := if v.locker = some t then none else v.locker }

/-- The task `t`, waiting for `op`, goes to the tail of the run queue. -/
def complete (v : Roster) (t op : Nat) : Roster :=
  { v with
    role := Function.update v.role t (.ready (.waited op))
    ready := v.ready ++ [t]
    waiting := v.waiting.erase (t, op)
    taken := v.taken.erase (t, op) }

/-- A poll takes the completions of `l`. -/
def take (v : Roster) (l : List (Nat × Nat)) : Roster := { v with taken := l }

/-- The awaiter `w` of `t` goes to the tail of the run queue. -/
def wake (v : Roster) (w t : Nat) : Roster :=
  { v with
    role := Function.update v.role w (.ready (.joined t))
    ready := v.ready ++ [w]
    joiners := Function.update v.joiners t ((v.joiners t).erase w)
    woken := Function.update v.woken t (v.woken t ++ [w]) }

/-- The slot `t` of a spawn goes to the tail of the run queue. -/
def spawn (v : Roster) (t : Nat) : Roster :=
  { v with role := Function.update v.role t (.ready .entry), ready := v.ready ++ [t] }

/-- The task `t` comes off the run queue. -/
def pop (v : Roster) (t : Nat) (f : Resume) : Roster :=
  { v with role := Function.update v.role t (.popped f), ready := v.ready.erase t }

/-- The task `t` goes on at `f`. -/
def run (v : Roster) (t : Nat) : Resume → Roster
  | .joined s =>
    { v with
      role := Function.update v.role t .running
      woken := Function.update v.woken s ((v.woken s).erase t)
      collecting := some s }
  | .stepped _ => { v with role := Function.update v.role t .running, locker := some t }
  | _ => { v with role := Function.update v.role t .running }

/-- The slot `t` is handed out. -/
def alloc (v : Roster) (t : Nat) : Roster :=
  { v with role := Function.update v.role t .fresh, free := v.free.erase t }

/-- The slot `t` is retired. -/
def retire (v : Roster) (t : Nat) : Roster :=
  { v with role := Function.update v.role t .free, free := t :: v.free }

/-- The running task `w` awaits `t`. -/
def join (v : Roster) (w t : Nat) : Roster :=
  { v with
    role := Function.update v.role w (.joining t)
    joiners := Function.update v.joiners t (w :: v.joiners t) }

/-- The running task `t` parks on the submission `op`. -/
def park (v : Roster) (t op : Nat) : Roster :=
  { v with role := Function.update v.role t (.waiting op), waiting := (t, op) :: v.waiting }

/-- The body of `t` has returned. -/
def finish (v : Roster) (t : Nat) : Roster := { v with role := Function.update v.role t .ending }

/-- `t` has woken its awaiters. -/
def bury (v : Roster) (t : Nat) : Roster := { v with role := Function.update v.role t .zombie }

/-- The stack of `t` is released. -/
def reap (v : Roster) (t : Nat) : Roster := { v with role := Function.update v.role t .done }

/-- The running task awaits `t`, which has finished. -/
def late (v : Roster) (t : Nat) : Roster := { v with collecting := some t }

/-- The running task has the result of `t`. -/
def collect (v : Roster) : Roster := { v with collecting := none }

/-- The last awaiter of `t` has its result. -/
def spend (v : Roster) (t : Nat) : Roster :=
  { v with role := Function.update v.role t .spent, collecting := none }

/-- The running task `t` is queued for a lock. -/
def enqueue (v : Roster) (t : Nat) : Roster := { v with queue := v.queue ++ [t], locker := some t }

/-- The running task `t` no longer waits for a lock. -/
def dequeue (v : Roster) (t : Nat) : Roster := { v with queue := v.queue.erase t, locker := none }

/-- Whether the running task is about to collect the result of `t`. -/
def collects (v : Roster) (t : Nat) : Bool := v.collecting == some t

/-! ### Every operation keeps the lists in step with the roles -/

/-- A place where a running task can give way: not a primed stack, not an await's, not a dead end. -/
def GivesWay : Resume → Prop
  | .entry | .joined _ | .waited _ | .finished => False
  | _ => True

theorem Ok.push (h : v.Ok) (ht : v.role t = .running) (hf : GivesWay f)
    (hl : v.locker = some t ↔ ∃ c, f = .stepped c) : (v.push t f).Ok := by
  obtain ⟨h1, h2, h3, h4, h5, h6, h7, h8, h9, h10, h11, h12⟩ := h
  constructor
  all_goals simp only [Roster.push, Function.update_apply]
  all_goals grind -linarith [Role.unfinished, GivesWay]

theorem Ok.complete {op : Nat} (h : v.Ok) (ht : v.role t = .waiting op) : (v.complete t op).Ok := by
  obtain ⟨h1, h2, h3, h4, h5, h6, h7, h8, h9, h10, h11, h12⟩ := h
  constructor
  all_goals simp only [Roster.complete, Function.update_apply, h7.mem_erase_iff]
  all_goals grind -linarith [Role.unfinished, List.Nodup.erase]

theorem Ok.wake (h : v.Ok) (hw : v.role w = .joining t) (ht : v.role t = .ending) (hj : (v.joiners t).Nodup) :
    (v.wake w t).Ok := by
  obtain ⟨h1, h2, h3, h4, h5, h6, h7, h8, h9, h10, h11, h12⟩ := h
  constructor
  all_goals simp only [Roster.wake, Function.update_apply]
  all_goals grind -linarith [Role.unfinished, List.Nodup.mem_erase_iff, List.nodup_append]

theorem Ok.spawn (h : v.Ok) (ht : v.role t = .fresh) : (v.spawn t).Ok := by
  obtain ⟨h1, h2, h3, h4, h5, h6, h7, h8, h9, h10, h11, h12⟩ := h
  constructor
  all_goals simp only [Roster.spawn, Function.update_apply]
  all_goals grind -linarith [Role.unfinished]

theorem Ok.pop (h : v.Ok) (ht : v.role t = .ready f) (hr : v.ready.Nodup) : (v.pop t f).Ok := by
  obtain ⟨h1, h2, h3, h4, h5, h6, h7, h8, h9, h10, h11, h12⟩ := h
  constructor
  all_goals simp only [Roster.pop, Function.update_apply, hr.mem_erase_iff]
  all_goals grind -linarith [Role.unfinished]

theorem Ok.run (h : v.Ok) (ht : v.role t = .popped f) (hl : v.locker = none) : (v.run t f).Ok := by
  obtain ⟨h1, h2, h3, h4, h5, h6, h7, h8, h9, h10, h11, h12⟩ := h
  cases f
  all_goals constructor
  all_goals simp only [Roster.run, Function.update_apply]
  all_goals grind -linarith [Role.unfinished, List.Nodup.mem_erase_iff, List.Nodup.erase]

theorem Ok.alloc (h : v.Ok) (ht : v.role t = .free ∨ v.role t = .unused) (hf : v.free.Nodup) : (v.alloc t).Ok := by
  obtain ⟨h1, h2, h3, h4, h5, h6, h7, h8, h9, h10, h11, h12⟩ := h
  constructor
  all_goals simp only [Roster.alloc, Function.update_apply, hf.mem_erase_iff]
  all_goals grind -linarith [Role.unfinished]

theorem Ok.retire (h : v.Ok) (ht : v.role t = .fresh ∨ v.role t = .spent ∨ v.role t = .zombie) (hw : v.woken t = []) :
    (v.retire t).Ok := by
  obtain ⟨h1, h2, h3, h4, h5, h6, h7, h8, h9, h10, h11, h12⟩ := h
  constructor
  all_goals simp only [Roster.retire, Function.update_apply]
  all_goals grind -linarith [Role.unfinished]

theorem Ok.join (h : v.Ok) (hw : v.role w = .running) (hl : v.locker = none) (ht : (v.role t).unfinished) :
    (v.join w t).Ok := by
  obtain ⟨h1, h2, h3, h4, h5, h6, h7, h8, h9, h10, h11, h12⟩ := h
  constructor
  all_goals simp only [Roster.join, Function.update_apply]
  all_goals grind -linarith [Role.unfinished]

theorem Ok.park {op : Nat} (h : v.Ok) (ht : v.role t = .running) (hl : v.locker = none) : (v.park t op).Ok := by
  obtain ⟨h1, h2, h3, h4, h5, h6, h7, h8, h9, h10, h11, h12⟩ := h
  constructor
  all_goals simp only [Roster.park, Function.update_apply]
  all_goals grind -linarith [Role.unfinished]

theorem Ok.finish (h : v.Ok) (ht : v.role t = .running) (hl : v.locker = none) : (v.finish t).Ok := by
  obtain ⟨h1, h2, h3, h4, h5, h6, h7, h8, h9, h10, h11, h12⟩ := h
  constructor
  all_goals simp only [Roster.finish, Function.update_apply]
  all_goals grind -linarith [Role.unfinished]

theorem Ok.bury (h : v.Ok) (ht : v.role t = .ending) (hj : v.joiners t = []) : (v.bury t).Ok := by
  have hno : ∀ w, v.role w ≠ .joining t := fun w hw => by simpa [hj] using (h.joiners_iff w t).2 hw
  obtain ⟨h1, h2, h3, h4, h5, h6, h7, h8, h9, h10, h11, h12⟩ := h
  constructor
  all_goals simp only [Roster.bury, Function.update_apply]
  all_goals grind -linarith [Role.unfinished]

theorem Ok.reap (h : v.Ok) (ht : v.role t = .zombie) : (v.reap t).Ok := by
  obtain ⟨h1, h2, h3, h4, h5, h6, h7, h8, h9, h10, h11, h12⟩ := h
  constructor
  all_goals simp only [Roster.reap, Function.update_apply]
  all_goals grind -linarith [Role.unfinished]

theorem Ok.late (h : v.Ok) : (v.late t).Ok := by
  obtain ⟨h1, h2, h3, h4, h5, h6, h7, h8, h9, h10, h11, h12⟩ := h
  exact ⟨h1, h2, h3, h4, h5, h6, h7, h8, h9, h10, h11, h12⟩

theorem Ok.collect (h : v.Ok) : v.collect.Ok := by
  obtain ⟨h1, h2, h3, h4, h5, h6, h7, h8, h9, h10, h11, h12⟩ := h
  exact ⟨h1, h2, h3, h4, h5, h6, h7, h8, h9, h10, h11, h12⟩

theorem Ok.spend (h : v.Ok) (ht : v.role t = .done) (hw : v.woken t = []) : (v.spend t).Ok := by
  obtain ⟨h1, h2, h3, h4, h5, h6, h7, h8, h9, h10, h11, h12⟩ := h
  constructor
  all_goals simp only [Roster.spend, Function.update_apply]
  all_goals grind -linarith [Role.unfinished]

theorem Ok.enqueue (h : v.Ok) (ht : v.role t = .running) (hl : v.locker = none) : (v.enqueue t).Ok := by
  obtain ⟨h1, h2, h3, h4, h5, h6, h7, h8, h9, h10, h11, h12⟩ := h
  constructor
  all_goals simp only [Roster.enqueue]
  all_goals grind -linarith [Role.unfinished]

theorem Ok.dequeue (h : v.Ok) (hl : v.locker = some t) (hq : v.queue.Nodup) : (v.dequeue t).Ok := by
  obtain ⟨h1, h2, h3, h4, h5, h6, h7, h8, h9, h10, h11, h12⟩ := h
  constructor
  all_goals simp only [Roster.dequeue, hq.mem_erase_iff]
  all_goals grind -linarith [Role.unfinished]

end Roster

end Sppc
