import Sppc.Threads
import Mathlib.Data.Finset.Insert

/-!
# Thread-local keys (`platform/windows.h`)

Any number of threads create and delete keys, set values under them, and exit, which hands the values to the keys'
destructors.  A step is one access to the table of keys or to its lock, or one visit of a slot; the slots of a thread
are its own, and a destructor is the code of the thread that exits, and makes any calls.
-/

namespace Sppc.Windows

open Threads

/-- `PTHREAD_KEYS_MAX`. -/
def keysMax : Nat := 128

/-- `PTHREAD_DESTRUCTOR_ITERATIONS`. -/
def destructorIterations : Nat := 4

/-- `_sppc_win_key`.  The sequence number has 32 bits. -/
structure WinKey (Dtor : Type) where
  seq : Nat
  destructor : Option Dtor

/-- A key is in use while its sequence number is odd. -/
def WinKey.InUse {Dtor : Type} (key : WinKey Dtor) : Prop := key.seq % 2 = 1

instance {Dtor : Type} (key : WinKey Dtor) : Decidable key.InUse := inferInstanceAs (Decidable (_ = _))

/-- `InterlockedIncrement`. -/
def WinKey.increment {Dtor : Type} (key : WinKey Dtor) : WinKey Dtor := { key with seq := (key.seq + 1) % 2 ^ 32 }

/-- `_sppc_win_slot`. -/
structure WinSlot (Val : Type) where
  value : Option Val
  seq : Nat

/-- What a `setspecific` has set, under which incarnation of the key, which call it was, and in which round of its
thread's exit, if a destructor made it. -/
structure KeySet (Val : Type) where
  value : Option Val
  made : Nat
  id : Nat
  round : Option Nat

/-- A value that an exit has taken from its slot, and the incarnation of the key that it found. -/
structure KeyTaken (Tid Val : Type) where
  thread : Tid
  key : Nat
  set : KeySet Val
  found : Option Nat

/-- The call of a destructor, and the incarnation of the key at that time. -/
structure KeyHanded (Tid Val Dtor : Type) where
  taken : KeyTaken Tid Val
  value : Val
  destructor : Dtor
  made : Nat

/-- The keys, their lock and the slots of each thread, if it has a block.  Nobody stores the rest: how often each key
has been made and with which destructor, the keys that have been created and deleted, how many values have been set
and the last of each thread under each key, and what the exits have taken and handed to destructors. -/
structure KeyState (Tid Val Dtor : Type) where
  keys : Nat → WinKey Dtor
  writer : Option Tid
  readers : Finset Tid
  slots : Tid → Option (Nat → WinSlot Val)
  made : Nat → Nat
  given : Nat → Nat → Option Dtor
  created : List (Nat × Nat)
  deleted : List (Nat × Nat)
  sets : Nat
  last : Tid → Nat → Option (KeySet Val)
  taken : List (KeyTaken Tid Val)
  handed : List (KeyHanded Tid Val Dtor)

/-- What a call returns, and the key that a `key_create` has given. -/
inductive KeyRet
  | key (k : Nat)
  | zero | EAGAIN | EINVAL | ENOMEM
  deriving DecidableEq, Repr

/-- Where a thread is in a call, or what its last has returned. -/
inductive KeyCall (Val Dtor : Type)
  | out (r : Option KeyRet)
  | createLock (d : Option Dtor) | scan (d : Option Dtor) (k : Nat) | make (d : Option Dtor) (k : Nat)
  | createUnlock (r : KeyRet)
  | deleteLock (k : Nat) | check (k : Nat) | clear (k : Nat) | deleteUnlock (r : KeyRet)
  | store (k : Nat) (v : Option Val) (seq made : Nat)

/-- The variables of the two loops of `_sppc_win_run_destructors`. -/
structure WalkPos where
  round : Nat
  key : Nat
  ran : Bool
  deriving DecidableEq, Repr

/-- Where a thread is in its exit. -/
inductive KeyWalk (Tid Val Dtor : Type)
  | none
  | visit (p : WalkPos)
  | lock (p : WalkPos) (v : Val) | readSeq (p : WalkPos) (v : Val)
  | readDestructor (p : WalkPos) (v : Val) (seq : Nat) (found : Option Nat)
  | unlock (p : WalkPos) (v : Val) (seq : Nat) (d : Option Dtor) (found : Option Nat)
  | take (p : WalkPos) (v : Val) (seq : Nat) (d : Option Dtor) (found : Option Nat)
  | hand (p : WalkPos) (v : Val) (d : Dtor) (x : KeyTaken Tid Val)
  | calling (p : WalkPos)

structure KeyLoc (Tid Val Dtor : Type) where
  walk : KeyWalk Tid Val Dtor
  call : KeyCall Val Dtor

/-- The calls, a thread's exit and a destructor's return; whether there is memory to adopt a thread; and `run` for
everything else. -/
inductive KeyInput (Val Dtor : Type)
  | create (d : Option Dtor) | delete (k : Nat) | setspecific (k : Nat) (v : Option Val)
  | exit | ret
  | answer (yes : Bool)
  | run

/-- The round of the destructor that is running. -/
def KeyWalk.round {Tid Val Dtor : Type} : KeyWalk Tid Val Dtor → Option Nat
  | .calling p => some p.round
  | _ => Option.none

/-- The program's own code is running: the thread's, or a destructor's. -/
def KeyWalk.Own {Tid Val Dtor : Type} : KeyWalk Tid Val Dtor → Prop
  | .none | .calling _ => True
  | _ => False

instance {Tid Val Dtor : Type} : (w : KeyWalk Tid Val Dtor) → Decidable w.Own
  | .none | .calling _ => .isTrue trivial
  | .visit _ | .lock .. | .readSeq .. | .readDestructor .. | .unlock .. | .take .. | .hand .. => .isFalse id

variable {Tid Val Dtor : Type} [DecidableEq Tid]

/-- The slots of a thread: one without a block has nothing set. -/
def KeyState.block (h : KeyState Tid Val Dtor) (t : Tid) : Nat → WinSlot Val := (h.slots t).getD fun _ => ⟨none, 0⟩

/-- `_sppc_pthread_getspecific`, which reads the key's sequence number once. -/
def KeyState.getspecific (h : KeyState Tid Val Dtor) (t : Tid) (k : Nat) : Option Val :=
  if k < keysMax then if (h.block t k).seq = (h.keys k).seq then (h.block t k).value else none else none

/-- A slot of the thread as it is written. -/
def KeyState.write (h : KeyState Tid Val Dtor) (t : Tid) (k : Nat) (slot : WinSlot Val) : KeyState Tid Val Dtor :=
  { h with slots := Function.update h.slots t (some (Function.update (h.block t) k slot)) }

/-- The incarnation of the key, if it is in use. -/
def KeyState.incarnation (h : KeyState Tid Val Dtor) (k : Nat) : Option Nat :=
  if (h.keys k).InUse then some (h.made k) else none

/-- The next step of a call, made in the given round of destructors. -/
def callAct (t : Tid) (round : Option Nat) (i : KeyInput Val Dtor) (h : KeyState Tid Val Dtor)
    (c : KeyCall Val Dtor) : Option (KeyState Tid Val Dtor × KeyCall Val Dtor) :=
  match c, i with
  -- _sppc_pthread_key_create
  | .out _, .create d => some (h, .createLock d)
  | .createLock d, .run =>
    if h.writer = none ∧ h.readers = ∅ then some ({ h with writer := some t }, .scan d 0) else none
  | .scan d k, .run =>
    some (if k < keysMax then
      if (h.keys k).InUse then (h, .scan d (k + 1))
      else ({ h with keys := Function.update h.keys k { h.keys k with destructor := d } }, .make d k)
    else (h, .createUnlock .EAGAIN))
  | .make d k, .run =>
    some ({ h with
      keys := Function.update h.keys k (h.keys k).increment
      made := Function.update h.made k (h.made k + 1)
      given := Function.update h.given k (Function.update (h.given k) (h.made k + 1) d)
      created := h.created ++ [(k, h.made k + 1)] }, .createUnlock (.key k))
  | .createUnlock r, .run => some ({ h with writer := none }, .out (some r))
  -- _sppc_pthread_key_delete
  | .out _, .delete k => some (h, if k < keysMax then .deleteLock k else .out (some .EINVAL))
  | .deleteLock k, .run =>
    if h.writer = none ∧ h.readers = ∅ then some ({ h with writer := some t }, .check k) else none
  | .check k, .run =>
    some (if (h.keys k).InUse then
      ({ h with
        keys := Function.update h.keys k (h.keys k).increment
        deleted := h.deleted ++ [(k, h.made k)] }, .clear k)
    else (h, .deleteUnlock .EINVAL))
  | .clear k, .run =>
    some ({ h with keys := Function.update h.keys k { h.keys k with destructor := none } }, .deleteUnlock .zero)
  | .deleteUnlock r, .run => some ({ h with writer := none }, .out (some r))
  -- _sppc_pthread_setspecific
  | .out _, .setspecific k v =>
    some (h, if k < keysMax ∧ (h.keys k).InUse then .store k v (h.keys k).seq (h.made k) else .out (some .EINVAL))
  | .store k v seq made, .answer yes =>
    -- `_sppc_win_current` adopts a thread that has no block, if there is memory for one.
    some (if (h.slots t).isSome || yes then
      ({ h.write t k ⟨v, seq⟩ with
        sets := h.sets + 1
        last := Function.update h.last t (Function.update (h.last t) k (some ⟨v, made, h.sets, round⟩)) },
        .out (some .zero))
    else (h, .out (some .ENOMEM)))
  | _, _ => none

/-- The next step of an exit. -/
def walkAct (t : Tid) (i : KeyInput Val Dtor) (h : KeyState Tid Val Dtor) (w : KeyWalk Tid Val Dtor) :
    Option (KeyState Tid Val Dtor × KeyWalk Tid Val Dtor) :=
  match w, i with
  -- _sppc_win_finish
  | .none, .exit => if (h.slots t).isSome then some (h, .visit ⟨0, 0, false⟩) else none
  -- _sppc_win_run_destructors
  | .visit p, .run =>
    some (if p.key < keysMax then
      match (h.block t p.key).value with
      | none => (h, .visit { p with key := p.key + 1 })
      | some v => (h, .lock p v)
    else if p.ran ∧ p.round + 1 < destructorIterations then (h, .visit ⟨p.round + 1, 0, false⟩)
    -- `_sppc_win_self` is cleared, and the block let go of.
    else ({ h with slots := Function.update h.slots t none }, .none))
  | .lock p v, .run =>
    if h.writer = none then some ({ h with readers := insert t h.readers }, .readSeq p v) else none
  | .readSeq p v, .run => some (h, .readDestructor p v (h.keys p.key).seq (h.incarnation p.key))
  | .readDestructor p v seq found, .run => some (h, .unlock p v seq (h.keys p.key).destructor found)
  | .unlock p v seq d found, .run => some ({ h with readers := h.readers.erase t }, .take p v seq d found)
  | .take p v seq d found, .run =>
    let x : KeyTaken Tid Val := ⟨t, p.key, (h.last t p.key).getD ⟨some v, 0, 0, none⟩, found⟩
    some ({ h.write t p.key { h.block t p.key with value := none } with taken := h.taken ++ [x] }, match d with
      | some d => if (h.block t p.key).seq = seq then .hand p v d x else .visit { p with key := p.key + 1 }
      | none => .visit { p with key := p.key + 1 })
  | .hand p v d x, .run => some ({ h with handed := h.handed ++ [⟨x, v, d, h.made p.key⟩] }, .calling p)
  | .calling p, .ret => some (h, .visit ⟨p.round, p.key + 1, true⟩)
  | _, _ => none

/-- The next step of a thread. -/
def keyAct (t : Tid) (i : KeyInput Val Dtor) (h : KeyState Tid Val Dtor) (l : KeyLoc Tid Val Dtor) :
    Option (KeyState Tid Val Dtor × KeyLoc Tid Val Dtor) :=
  match callAct t l.walk.round i h l.call with
  | some (h', c) => if l.walk.Own then some (h', { l with call := c }) else none
  | none => match l.call with
    | .out _ => (walkAct t i h l.walk).map fun r => (r.1, { l with walk := r.2 })
    | _ => none

abbrev KeySystem (Tid Val Dtor : Type) := Threads.State Tid (KeyState Tid Val Dtor) (KeyLoc Tid Val Dtor)

abbrev KeyEvent (Tid Val Dtor : Type) := Threads.Event Tid (KeyInput Val Dtor) Empty

/-- No key has been made, and no thread has a block. -/
def KeySystem.init : KeySystem Tid Val Dtor :=
  ⟨⟨fun _ => ⟨0, none⟩, none, ∅, fun _ => none, fun _ => 0, fun _ _ => none, [], [], 0, fun _ _ => none, [], []⟩,
    fun _ => ⟨.none, .out none⟩⟩

/-- One step of a thread. -/
def keyStep : KeySystem Tid Val Dtor → KeyEvent Tid Val Dtor → Option (KeySystem Tid Val Dtor) :=
  Threads.step keyAct fun e _ => e.elim

end Sppc.Windows
