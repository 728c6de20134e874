import Sppc.Threads
import Sppc.Runtime

/-!
# Once (`platform/common.h`)

Any number of tasks, each on one OS thread, call `sppc_pthread_once`, and do so inside the closures that it runs.
Whether the closure of a call has run is told in two thread-local variables, which every call on the OS thread writes.
 A step is what one task does between two points at which another can come in: the start of a call, the platform's
 once, the return of the closure, and the rest of the call.
-/

namespace Sppc

open Threads Transition

/-- What the platform knows of a once object. -/
inductive OnceState
  | init | running | done
  deriving DecidableEq, Repr

/-- How often an environment has been freed, and how often its captures have been dropped. -/
structure EnvUse where
  freed : Nat
  dropped : Nat
  deriving DecidableEq, Repr

/-- `_sppc_env_free`, which leaves a null pointer alone. -/
def EnvUse.free (u : EnvUse) (env : Option SppcClosureEnv) : EnvUse :=
  if env.isSome then { u with freed := u.freed + 1 } else u

/-- `_sppc_closure_discard`. -/
def EnvUse.discard (u : EnvUse) (closure : SppcClosure) : EnvUse :=
  match closure.env with
  | none => u
  | some env =>
    let u := if env.dropCaptures then { u with dropped := u.dropped + 1 } else u
    if env.owns then u.free env else u

/-- An environment that nobody has touched. -/
def EnvUse.untouched : EnvUse := ⟨0, 0⟩

/-- A call: its task, and its number among the calls of the task. -/
abbrev OnceCall (Task : Type) := Task × Nat

/-- Where a call is: before the platform's once, in its closure, or after the platform's once. -/
inductive OnceStage
  | platform | body | back
  deriving DecidableEq, Repr

/-- A call that has not returned. -/
structure OnceFrame (Obj : Type) where
  n : Nat
  once : Obj
  func : SppcClosure
  stage : OnceStage

/-- A call that has returned, and whether the last call to begin on its OS thread had run its closure by then. -/
structure OnceReturn (Task : Type) where
  call : OnceCall Task
  func : SppcClosure
  lastRan : Bool

/-- The once objects, and for each OS thread the task that it runs and its `_sppc_once_closure` and `_sppc_once_ran`.
The rest nobody stores: how often the closure of each call has run and what became of its environment, how many
closures have run for each object, the last call to begin on each OS thread, and the calls that have returned. -/
structure OnceShared (Os Task Obj : Type) where
  objects : Obj → OnceState
  running : Os → Task
  closure : Os → Option (OnceCall Task × SppcClosure)
  ran : Os → Bool
  next : Task → Nat
  runs : OnceCall Task → Nat
  uses : OnceCall Task → EnvUse
  closures : Obj → Nat
  last : Os → Option (OnceCall Task)
  returned : List (OnceReturn Task)

/-- A call, a turn of another task of the OS thread, the return of a closure, and what the platform's once does. -/
inductive OnceInput (Task Obj : Type)
  | call (once : Obj) (func : SppcClosure)
  | turn (u : Task)
  | finish
  | run | fail

variable {Os Task Obj : Type} [DecidableEq Os] [DecidableEq Task] [DecidableEq Obj]

/-- The last call to begin on the OS thread has run its closure. -/
def OnceShared.lastRan (h : OnceShared Os Task Obj) (T : Os) : Bool :=
  (h.last T).any fun c => 0 < h.runs c

/-- The start of `sppc_pthread_once`. -/
def OnceShared.begin (h : OnceShared Os Task Obj) (T : Os) (t : Task) (func : SppcClosure) : OnceShared Os Task Obj :=
  { h with
    closure := Function.update h.closure T (some ((t, h.next t), func))
    ran := Function.update h.ran T false
    next := Function.update h.next t (h.next t + 1)
    last := Function.update h.last T (some (t, h.next t)) }

/-- The platform's once calls `_sppc_once_entry`, which runs the closure `c`. -/
def OnceShared.entry (h : OnceShared Os Task Obj) (T : Os) (once : Obj) (c : OnceCall Task) :
    OnceShared Os Task Obj :=
  { h with
    objects := Function.update h.objects once .running
    ran := Function.update h.ran T true
    runs := Function.update h.runs c (h.runs c + 1)
    closures := Function.update h.closures once (h.closures once + 1) }

/-- The end of `sppc_pthread_once`. -/
def OnceShared.settle (h : OnceShared Os Task Obj) (T : Os) (c : OnceCall Task) (func : SppcClosure) :
    OnceShared Os Task Obj :=
  { h with
    uses := Function.update h.uses c (if h.ran T then (h.uses c).free func.env else (h.uses c).discard func)
    returned := h.returned ++ [⟨c, func, h.lastRan T⟩] }

/-- The next step of the task `t` with the calls `fs`, the innermost first, while its OS thread runs it. -/
def onceAct (os : Task → Os) (t : Task) (i : OnceInput Task Obj) (h : OnceShared Os Task Obj)
    (fs : List (OnceFrame Obj)) : Option (OnceShared Os Task Obj × List (OnceFrame Obj)) :=
  if h.running (os t) ≠ t then none else match i, fs with
  | .run, ⟨n, once, func, .platform⟩ :: fs => match h.objects once with
    | .init => (h.closure (os t)).map fun r => (h.entry (os t) once r.1, ⟨n, once, func, .body⟩ :: fs)
    | .done => some (h, ⟨n, once, func, .back⟩ :: fs)
    | .running => none
  | .fail, ⟨n, once, func, .platform⟩ :: fs => some (h, ⟨n, once, func, .back⟩ :: fs)
  | .finish, ⟨n, once, func, .body⟩ :: fs =>
    some ({ h with objects := Function.update h.objects once .done }, ⟨n, once, func, .back⟩ :: fs)
  | .run, ⟨n, _, func, .back⟩ :: fs => some (h.settle (os t) (t, n) func, fs)
  -- outside all calls, or in a closure
  | .call once func, fs =>
    if ∀ f ∈ fs.head?, f.stage = .body then
      some (h.begin (os t) t func, ⟨h.next t, once, func, .platform⟩ :: fs)
    else none
  | .turn u, fs =>
    if (∀ f ∈ fs.head?, f.stage = .body) ∧ os u = os t then
      some ({ h with running := Function.update h.running (os t) u }, fs)
    else none
  | _, _ => none

abbrev OnceSystem (Os Task Obj : Type) := Threads.State Task (OnceShared Os Task Obj) (List (OnceFrame Obj))

abbrev OnceEvent (Task Obj : Type) := Threads.Event Task (OnceInput Task Obj) Empty

/-- No call has been made, and the OS threads run the tasks `running`. -/
def OnceSystem.init (running : Os → Task) : OnceSystem Os Task Obj :=
  ⟨⟨fun _ => .init, running, fun _ => none, fun _ => false, fun _ => 0, fun _ => 0, fun _ => .untouched, fun _ => 0,
    fun _ => none, []⟩, fun _ => []⟩

/-- One step of a task. -/
def onceStep (os : Task → Os) : OnceSystem Os Task Obj → OnceEvent Task Obj → Option (OnceSystem Os Task Obj) :=
  Threads.step (onceAct os) fun e _ => e.elim

end Sppc
