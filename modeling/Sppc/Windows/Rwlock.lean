import Sppc.Calls
import Sppc.Windows.Wait
import Mathlib.Data.List.Basic

/-!
# The Windows read-write lock (`platform/windows.h`)

Any number of threads read-lock and write-lock one lock, trying, waiting or waiting until a deadline, and unlock it.
A step is one access, as for the mutex.  A sleeper waits for the state it saw to change; every unlock that frees the
lock wakes all of them.
-/

namespace Sppc.Windows

open Threads

/-- `_sppc_pthread_rwlock_t`. -/
structure Rwlock (Tid : Type) where
  state : Int
  writer : Option Tid

/-- The lock, the threads asleep on its `state`, and the clocks.  `readers` has one entry for each read hold and
`writers` one for each write hold, and `stored` says whether the last call of a thread has changed `state`; the code
keeps none of them. -/
structure RwlockState (Tid : Type) where
  lock : Rwlock Tid
  sleepers : List Tid
  now : Clocks
  readers : List Tid
  writers : List Tid
  stored : Tid → Bool

/-- What a waiting thread wants. -/
inductive Access
  | read | write
  deriving DecidableEq, Repr

/-- Where a thread is: outside, its last call having returned `r`, or before an access.  `block` is `none`
in a try. -/
inductive RwlockLoc
  | out (r : Ret)
  | readState (block : Option Until) | readCas (seen : Int) (block : Option Until) | readWriter (w : Until)
  | writeState (w : Until) | writeCas (block : Option Until) | writeStore | writeWriter (seen : Int) (w : Until)
  | waitClock (a : Access) (seen : Int) (w : Until) | waitCompare (a : Access) (seen : Int) (w : Until)
  | waitAsleep (a : Access) (w : Until)
  | unlockState | unlockWriter | unlockClear | unlockExchange | unlockDecrement | unlockWake
  deriving DecidableEq, Repr

/-- The calls a thread outside may make, and `run` for everything else. -/
inductive RwlockInput
  | tryrdlock | trywrlock | rdlock | wrlock
  | clockrdlock (w : Until) | clockwrlock (w : Until)
  | unlock
  | run
  deriving DecidableEq, Repr

/-- Once more round the loop of a lock that waits. -/
def Access.retry (w : Until) : Access → RwlockLoc
  | .read => .readState (some w)
  | .write => .writeState w

/-- The clock read locks and write locks, up to their first access. -/
def Access.clocklock (a : Access) (w : Until) : RwlockLoc :=
  match checkDeadline w with
  | some e => .out (.err e)
  | none => a.retry w

variable {Tid : Type} [DecidableEq Tid]

/-- The next access of the thread `t`. -/
def rwlockAct (t : Tid) (i : RwlockInput) (h : RwlockState Tid) : RwlockLoc → Option (RwlockState Tid × RwlockLoc)
  | .out _ =>
    let h := { h with stored := Function.update h.stored t false }
    match i with
    | .tryrdlock => some (h, .readState none)
    | .trywrlock => some (h, .writeCas none)
    | .rdlock => some (h, .readState (some .woken))
    | .wrlock => some (h, .writeState .woken)
    | .clockrdlock w => some (h, Access.read.clocklock w)
    | .clockwrlock w => some (h, Access.write.clocklock w)
    | .unlock => some (h, .unlockState)
    | .run => none
  -- _sppc_pthread_rwlock_tryrdlock and _sppc_win_rwlock_rdlock
  | .readState block =>
    some (h, if h.lock.state < 0 then (match block with | none => .out (.err .EBUSY) | some w => .readWriter w)
      else if h.lock.state = longMax then .out (.err .EAGAIN) else .readCas h.lock.state block)
  | .readCas seen block =>
    if h.lock.state = seen then
      some ({ h with
        lock := { h.lock with state := seen + 1 }
        readers := t :: h.readers
        stored := Function.update h.stored t true }, .out .zero)
    else some (h, .readState block)
  | .readWriter w => some (h, if h.lock.writer = some t then .out (.err .EDEADLK) else .waitClock .read (-1) w)
  -- _sppc_pthread_rwlock_trywrlock and _sppc_win_rwlock_wrlock
  | .writeState w =>
    some (h, if h.lock.state = 0 then .writeCas (some w)
      else if h.lock.state < 0 then .writeWriter h.lock.state w else .waitClock .write h.lock.state w)
  | .writeCas block =>
    if h.lock.state = 0 then
      some ({ h with
        lock := { h.lock with state := -1 }
        writers := t :: h.writers
        stored := Function.update h.stored t true }, .writeStore)
    else some (h, match block with | none => .out (.err .EBUSY) | some w => .writeState w)
  | .writeStore => some ({ h with lock := { h.lock with writer := some t } }, .out .zero)
  | .writeWriter seen w => some (h, if h.lock.writer = some t then .out (.err .EDEADLK) else .waitClock .write seen w)
  -- _sppc_win_wait
  | .waitClock a seen w =>
    some (h, if waitMs (h.now.read w.clock) w.deadline = 0 then .out (.err .ETIMEDOUT) else .waitCompare a seen w)
  | .waitCompare a seen w =>
    if h.lock.state = seen then some ({ h with sleepers := h.sleepers ++ [t] }, .waitAsleep a w)
    else some (h, a.retry w)
  | .waitAsleep a w => some ({ h with sleepers := h.sleepers.filter (· ≠ t) }, a.retry w)
  -- _sppc_pthread_rwlock_unlock
  | .unlockState =>
    some (h, if h.lock.state = 0 then .out (.err .EPERM)
      else if h.lock.state < 0 then .unlockWriter else .unlockDecrement)
  | .unlockWriter => some (h, if h.lock.writer ≠ some t then .out (.err .EPERM) else .unlockClear)
  | .unlockClear => some ({ h with lock := { h.lock with writer := none } }, .unlockExchange)
  | .unlockExchange =>
    some ({ h with
      lock := { h.lock with state := 0 }
      writers := h.writers.erase t
      stored := Function.update h.stored t true }, .unlockWake)
  | .unlockDecrement =>
    some ({ h with
      lock := { h.lock with state := h.lock.state - 1 }
      readers := h.readers.erase t
      stored := Function.update h.stored t true }, if h.lock.state - 1 = 0 then .unlockWake else .out .zero)
  | .unlockWake => some ({ h with sleepers := [] }, .out .zero)

abbrev RwlockSystem (Tid : Type) := Threads.State Tid (RwlockState Tid) RwlockLoc

abbrev RwlockEvent (Tid : Type) := Threads.Event Tid RwlockInput Clocks

/-- After `_sppc_pthread_rwlock_init`. -/
def RwlockSystem.init (now : Clocks) : RwlockSystem Tid :=
  ⟨⟨⟨0, none⟩, [], now, [], [], fun _ => false⟩, fun _ => .out .zero⟩

/-- The thread holds the lock, for reading or for writing. -/
def RwlockState.Holds (h : RwlockState Tid) (t : Tid) : Prop := t ∈ h.readers ∨ t ∈ h.writers

instance RwlockState.decidableHolds (h : RwlockState Tid) (t : Tid) : Decidable (h.Holds t) :=
  inferInstanceAs (Decidable (_ ∨ _))

/-- A thread unlocks only what it holds. -/
def RwlockSystem.Proper (s : RwlockSystem Tid) : RwlockEvent Tid → Prop
  | .thread t .unlock => s.shared.Holds t
  | _ => True

instance RwlockSystem.decidableProper (s : RwlockSystem Tid) (e : RwlockEvent Tid) : Decidable (s.Proper e) :=
  match e with
  | .thread t .unlock => inferInstanceAs (Decidable (s.shared.Holds t))
  | .thread _ .tryrdlock | .thread _ .trywrlock | .thread _ .rdlock | .thread _ .wrlock | .thread _ (.clockrdlock _)
  | .thread _ (.clockwrlock _) | .thread _ .run | .env _ => isTrue trivial

/-- One step of a thread, or the clocks move on. -/
def rwlockStep (s : RwlockSystem Tid) (e : RwlockEvent Tid) : Option (RwlockSystem Tid) :=
  if s.Proper e then Threads.step rwlockAct (fun now h => some { h with now := now }) s e else none

/-- The fields speak of the thread that holds the lock for writing. -/
def RwlockState.Settled (h : RwlockState Tid) (t : Tid) : Prop := h.writers = [t] → h.lock.writer = some t

/-- What holds of a thread before its next access. -/
def RwlockLoc.Ok (h : RwlockState Tid) (t : Tid) : RwlockLoc → Prop
  | .out .zero => h.Settled t
  | .out (.err .EDEADLK) => h.writers = [t] ∧ h.Settled t ∧ h.stored t = false
  | .readCas seen _ => 0 ≤ seen ∧ h.Settled t ∧ h.stored t = false
  | .writeWriter seen _ | .waitClock _ seen _ | .waitCompare _ seen _ => seen ≠ 0 ∧ h.Settled t ∧ h.stored t = false
  | .unlockState => (t ∈ h.readers ∨ h.writers = [t]) ∧ h.Settled t ∧ h.stored t = false
  | .unlockWriter => h.writers = [t] ∧ h.Settled t ∧ h.stored t = false
  | .unlockDecrement => t ∈ h.readers ∧ h.Settled t ∧ h.stored t = false
  | .writeStore => h.writers = [t]
  | .unlockClear => h.writers = [t] ∧ h.lock.writer = some t
  | .unlockExchange => h.writers = [t] ∧ h.lock.writer ≠ some t
  | .unlockWake => h.Settled t
  | _ => h.Settled t ∧ h.stored t = false

structure RwlockInv (s : RwlockSystem Tid) : Prop where
  loc : ∀ t, (s.loc t).Ok s.shared t
  word : (s.shared.lock.state = -1 ∧ s.shared.readers = [] ∧ ∃ t, s.shared.writers = [t]) ∨
    (s.shared.lock.state = s.shared.readers.length ∧ s.shared.writers = [])
  writer : ∀ t, s.shared.lock.writer = some t → s.shared.writers = [t]
  stranded : s.shared.lock.state = 0 → s.shared.sleepers ≠ [] → ∃ t, s.loc t = .unlockWake

variable {s : RwlockSystem Tid} {t u : Tid} {h h' : RwlockState Tid} {l l' : RwlockLoc}

omit [DecidableEq Tid] in
/-- What holds of a thread depends on its own holds, on the writer's id where it holds the lock for writing, and on
what it has stored. -/
private theorem RwlockLoc.Ok.congr (hl : l.Ok h t) (hread : t ∈ h'.readers ↔ t ∈ h.readers)
    (hwrite : h'.writers = [t] ↔ h.writers = [t]) (hwriter : h.writers = [t] → h'.lock.writer = h.lock.writer)
    (hstored : h'.stored t = h.stored t) : l.Ok h' t := by
  have hsettled (hs : h.Settled t) : h'.Settled t := by
    intro hw
    rw [hwriter (hwrite.1 hw)]
    exact hs (hwrite.1 hw)
  cases l with
  | out r =>
    cases r with
    | zero => exact hsettled hl
    | err e => cases e <;> simp only [RwlockLoc.Ok, hwrite, hstored] at hl ⊢ <;> grind
    | minusOne => exact ⟨hsettled hl.1, hstored.trans hl.2⟩
  | _ => simp only [RwlockLoc.Ok, hwrite, hread, hstored] at hl ⊢; grind

private theorem RwlockInv.others (hi : RwlockInv s) (hread : ∀ u ≠ t, (u ∈ h'.readers ↔ u ∈ s.shared.readers))
    (hwrite : ∀ u ≠ t, (h'.writers = [u] ↔ s.shared.writers = [u]))
    (hwriter : ∀ u ≠ t, s.shared.writers = [u] → h'.lock.writer = s.shared.lock.writer)
    (hstored : ∀ u ≠ t, h'.stored u = s.shared.stored u) (hl : l'.Ok h' t) :
    ∀ u, ((s.put t h' l').loc u).Ok h' u :=
  State.put_forall hl fun u hu => (hi.loc u).congr (hread u hu) (hwrite u hu) (hwriter u hu) (hstored u hu)

/-- The others still owe the wakes they owed. -/
private theorem RwlockInv.owed (hloc : s.loc t ≠ .unlockWake) (h : ∃ u, s.loc u = .unlockWake) :
    ∃ u, (s.put t h' l').loc u = .unlockWake :=
  State.put_exists (P := fun _ l => l = RwlockLoc.unlockWake) h fun ht => absurd ht hloc

/-- A thread that moves on, or starts a call, without an access that changes anything. -/
private theorem RwlockInv.quiet (hi : RwlockInv s) {stored : Tid → Bool}
    (hstored : ∀ u ≠ t, stored u = s.shared.stored u) (hloc : s.loc t ≠ .unlockWake)
    (hl : l'.Ok { s.shared with stored := stored } t) :
    RwlockInv (s.put t { s.shared with stored := stored } l') where
  loc := hi.others (fun _ _ => Iff.rfl) (fun _ _ => Iff.rfl) (fun _ _ _ => rfl) hstored hl
  word := hi.word
  writer := hi.writer
  stranded := fun h0 hne => RwlockInv.owed hloc (hi.stranded h0 hne)

omit [DecidableEq Tid] in
/-- Where the state is not negative nobody holds the lock for writing, and the state counts the read holds. -/
private theorem RwlockInv.reading (hi : RwlockInv s) (hstate : 0 ≤ s.shared.lock.state) :
    s.shared.lock.state = s.shared.readers.length ∧ s.shared.writers = [] := by
  rcases hi.word with ⟨hneg, -⟩ | hpos
  · omega
  · exact hpos

omit [DecidableEq Tid] in
/-- Where a thread holds the lock for writing, nobody holds it for reading. -/
private theorem RwlockInv.writing (hi : RwlockInv s) (hw : s.shared.writers = [t]) :
    s.shared.lock.state = -1 ∧ s.shared.readers = [] := by
  rcases hi.word with ⟨hneg, hnil, -⟩ | ⟨-, hnil⟩
  · exact ⟨hneg, hnil⟩
  · rw [hnil] at hw
    cases hw

/-- A thread gets in to read. -/
theorem RwlockInv.readCas (hi : RwlockInv s) {seen : Int} {block : Option Until}
    (hloc : s.loc t = .readCas seen block) (hstate : s.shared.lock.state = seen) :
    RwlockInv (s.put t { s.shared with
      lock := { s.shared.lock with state := seen + 1 }
      readers := t :: s.shared.readers
      stored := Function.update s.shared.stored t true } (.out .zero)) := by
  have hok := hi.loc t
  rw [hloc] at hok
  obtain ⟨hseen, hsettled, -⟩ := hok
  obtain ⟨hcount, hnil⟩ := hi.reading (by omega)
  constructor
  case loc =>
    refine hi.others (fun u hu => ?_) (fun _ _ => Iff.rfl) (fun _ _ _ => rfl)
      (fun u hu => Function.update_of_ne hu _ _) ?_
    · simp [hu]
    · exact hsettled
  case word =>
    refine Or.inr ⟨?_, hnil⟩
    simp only [State.put_shared, List.length_cons]
    omega
  case writer => exact hi.writer
  case stranded =>
    intro h0
    simp only [State.put_shared] at h0
    omega

/-- A thread gets in to write. -/
theorem RwlockInv.writeCas (hi : RwlockInv s) (hstate : s.shared.lock.state = 0) :
    RwlockInv (s.put t { s.shared with
      lock := { s.shared.lock with state := -1 }
      writers := t :: s.shared.writers
      stored := Function.update s.shared.stored t true } .writeStore) := by
  obtain ⟨hcount, hnil⟩ := hi.reading (by omega)
  have hempty : s.shared.readers = [] := List.eq_nil_of_length_eq_zero (by omega)
  constructor
  case loc =>
    refine hi.others (fun _ _ => Iff.rfl) (fun u hu => ?_) (fun _ _ _ => rfl)
      (fun u hu => Function.update_of_ne hu _ _) ?_
    · simp [hnil, Ne.symm hu]
    · simp [RwlockLoc.Ok, hnil]
  case word => exact Or.inl ⟨rfl, hempty, t, by simp [hnil]⟩
  case writer =>
    intro u hu
    have := hi.writer u hu
    rw [hnil] at this
    cases this
  case stranded =>
    intro h0
    cases h0

/-- The thread that holds the lock for writing stores its id, or clears it. -/
private theorem RwlockInv.store (hi : RwlockInv s) {writer : Option Tid} (hw : s.shared.writers = [t])
    (hwriter : writer = none ∨ writer = some t) (hloc : s.loc t ≠ .unlockWake)
    (hl : l'.Ok { s.shared with lock := { s.shared.lock with writer := writer } } t) :
    RwlockInv (s.put t { s.shared with lock := { s.shared.lock with writer := writer } } l') where
  loc := by
    refine hi.others (fun _ _ => Iff.rfl) (fun _ _ => Iff.rfl) (fun u hu hwu => ?_) (fun _ _ => rfl) hl
    rw [hw] at hwu
    exact absurd (List.singleton_inj.1 hwu).symm hu
  word := hi.word
  writer := by
    intro u hu
    rcases hwriter with rfl | rfl
    · cases hu
    · cases hu
      exact hw
  stranded := fun h0 hne => RwlockInv.owed hloc (hi.stranded h0 hne)

/-- The writer's unlock, which owes a wake. -/
private theorem RwlockInv.exchange (hi : RwlockInv s) (hloc : s.loc t = .unlockExchange) :
    RwlockInv (s.put t { s.shared with
      lock := { s.shared.lock with state := 0 }
      writers := s.shared.writers.erase t
      stored := Function.update s.shared.stored t true } .unlockWake) := by
  have hok := hi.loc t
  rw [hloc] at hok
  obtain ⟨hw, hwriter⟩ := hok
  obtain ⟨-, hempty⟩ := hi.writing hw
  have hnil : s.shared.writers.erase t = [] := by simp [hw]
  constructor
  case loc =>
    refine hi.others (fun _ _ => Iff.rfl) (fun u hu => ?_) (fun _ _ _ => rfl)
      (fun u hu => Function.update_of_ne hu _ _) ?_
    · simp [hw, Ne.symm hu]
    · intro hwt
      simp [hnil] at hwt
  case word => exact Or.inr ⟨by simp [hempty], hnil⟩
  case writer =>
    intro u hu
    have hwu := hi.writer u hu
    rw [hw] at hwu
    exact absurd ((List.singleton_inj.1 hwu) ▸ hu) hwriter
  case stranded => exact fun _ _ => ⟨t, State.put_self⟩

/-- A reader's unlock, which owes a wake where it was the last. -/
private theorem RwlockInv.decrement (hi : RwlockInv s) (hloc : s.loc t = .unlockDecrement) :
    RwlockInv (s.put t { s.shared with
        lock := { s.shared.lock with state := s.shared.lock.state - 1 }
        readers := s.shared.readers.erase t
        stored := Function.update s.shared.stored t true }
      (if s.shared.lock.state - 1 = 0 then .unlockWake else .out .zero)) := by
  have hok := hi.loc t
  rw [hloc] at hok
  obtain ⟨hmem, hsettled, -⟩ := hok
  obtain ⟨hcount, hnil⟩ : s.shared.lock.state = s.shared.readers.length ∧ s.shared.writers = [] := by
    rcases hi.word with ⟨-, hempty, -⟩ | hpos
    · rw [hempty] at hmem
      cases hmem
    · exact hpos
  have hpos := List.length_pos_of_mem hmem
  constructor
  case loc =>
    refine hi.others (fun u hu => List.mem_erase_of_ne hu) (fun _ _ => Iff.rfl) (fun _ _ _ => rfl)
      (fun u hu => Function.update_of_ne hu _ _) ?_
    split
    · exact hsettled
    · exact hsettled
  case word =>
    refine Or.inr ⟨?_, hnil⟩
    simp only [State.put_shared, List.length_erase_of_mem hmem]
    omega
  case writer => exact hi.writer
  case stranded =>
    intro h0 _
    have h0 : s.shared.lock.state - 1 = 0 := h0
    exact ⟨t, by rw [State.put_self, if_pos h0]⟩

/-- The sleepers change while the lock is not free, or get fewer. -/
private theorem RwlockInv.sleepers (hi : RwlockInv s) {sleepers : List Tid} (hloc : s.loc t ≠ .unlockWake)
    (hsleep : s.shared.lock.state = 0 → sleepers ≠ [] → s.shared.sleepers ≠ [])
    (hl : l'.Ok { s.shared with sleepers := sleepers } t) :
    RwlockInv (s.put t { s.shared with sleepers := sleepers } l') where
  loc := hi.others (fun _ _ => Iff.rfl) (fun _ _ => Iff.rfl) (fun _ _ _ => rfl) (fun _ _ => rfl) hl
  word := hi.word
  writer := hi.writer
  stranded := fun h0 hne => RwlockInv.owed hloc (hi.stranded h0 (hsleep h0 hne))

/-- A thread outside makes a call. -/
private theorem RwlockInv.call {r : Ret} {i : RwlockInput} (hi : RwlockInv s) (hloc : s.loc t = .out r)
    (hproper : s.Proper (.thread t i)) (hact : rwlockAct t i s.shared (.out r) = some (h', l')) :
    RwlockInv (s.put t h' l') := by
  have hok := hi.loc t
  rw [hloc] at hok
  have hsettled : s.shared.Settled t := by
    cases r with
    | zero => exact hok
    | minusOne => exact hok.1
    | err e => cases e <;> first | exact hok.1 | exact hok.2.1
  have hfalse : Function.update s.shared.stored t false t = false := by simp
  have hquiet {l' : RwlockLoc} (hl : l'.Ok { s.shared with stored := Function.update s.shared.stored t false } t) :
      RwlockInv (s.put t { s.shared with stored := Function.update s.shared.stored t false } l') :=
    hi.quiet (fun u hu => Function.update_of_ne hu _ _) (by simp [hloc]) hl
  have hclock (a : Access) (w : Until) :
      (a.clocklock w).Ok { s.shared with stored := Function.update s.shared.stored t false } t := by
    unfold Access.clocklock
    split
    · rename_i e he
      have hinval : e = .EINVAL := by
        unfold checkDeadline at he
        split at he <;> simp_all
      rw [hinval]
      exact ⟨hsettled, hfalse⟩
    · cases a
      · exact ⟨hsettled, hfalse⟩
      · exact ⟨hsettled, hfalse⟩
  cases i with
  | clockrdlock w | clockwrlock w =>
    cases hact
    exact hquiet (hclock _ w)
  | unlock =>
    cases hact
    refine hquiet ⟨?_, hsettled, hfalse⟩
    refine (show s.shared.Holds t from hproper).imp_right fun hmem => ?_
    rcases hi.word with ⟨-, -, u, hu⟩ | ⟨-, hnil⟩
    · rw [hu] at hmem ⊢
      rw [List.mem_singleton.1 hmem]
    · rw [hnil] at hmem
      cases hmem
  | run => cases hact
  | _ =>
    cases hact
    exact hquiet ⟨hsettled, hfalse⟩

theorem RwlockInv.act {i : RwlockInput} (hi : RwlockInv s) (hproper : s.Proper (.thread t i))
    (hact : rwlockAct t i s.shared (s.loc t) = some (h', l')) : RwlockInv (s.put t h' l') := by
  have hok := hi.loc t
  cases hloc : s.loc t
  case out r => exact hi.call hloc hproper (hloc ▸ hact)
  case unlockWake =>
    rw [hloc] at hact hok
    cases hact
    exact ⟨hi.others (fun _ _ => Iff.rfl) (fun _ _ => Iff.rfl) (fun _ _ _ => rfl) (fun _ _ => rfl) hok, hi.word,
      hi.writer, fun _ hne => absurd rfl hne⟩
  all_goals
    have hwake : s.loc t ≠ .unlockWake := by simp [hloc]
    have hquiet {l' : RwlockLoc} (hl : l'.Ok s.shared t) : RwlockInv (s.put t s.shared l') :=
      hi.quiet (fun _ _ => rfl) hwake hl
    rw [hloc] at hact hok
  case readState block =>
    cases hact
    refine hquiet ?_
    split
    · cases block
      · exact hok
      · exact hok
    · split
      · exact hok
      · exact ⟨by omega, hok⟩
  case readCas seen block =>
    simp only [rwlockAct] at hact
    split at hact
    · rename_i hstate
      cases hact
      exact hi.readCas hloc hstate
    · cases hact
      exact hquiet hok.2
  case readWriter w =>
    cases hact
    refine hquiet ?_
    split
    · rename_i hwriter
      exact ⟨hi.writer t hwriter, hok⟩
    · exact ⟨by omega, hok⟩
  case writeState w =>
    cases hact
    refine hquiet ?_
    split
    · exact hok
    · split
      · exact ⟨by omega, hok⟩
      · exact ⟨by omega, hok⟩
  case writeCas block =>
    simp only [rwlockAct] at hact
    split at hact
    · rename_i hstate
      cases hact
      exact hi.writeCas hstate
    · cases hact
      refine hquiet ?_
      cases block
      · exact hok
      · exact hok
  case writeStore =>
    cases hact
    exact hi.store hok (Or.inr rfl) hwake fun _ => rfl
  case writeWriter seen w =>
    cases hact
    obtain ⟨hseen, hok⟩ := hok
    refine hquiet ?_
    split
    · rename_i hwriter
      exact ⟨hi.writer t hwriter, hok⟩
    · exact ⟨hseen, hok⟩
  case waitClock a seen w =>
    cases hact
    refine hquiet ?_
    split
    · exact hok.2
    · exact hok
  case waitCompare a seen w =>
    obtain ⟨hseen, hok⟩ := hok
    simp only [rwlockAct] at hact
    split at hact
    · rename_i hstate
      cases hact
      exact hi.sleepers hwake (fun h0 => absurd (hstate.symm.trans h0) hseen) hok
    · cases hact
      refine hquiet ?_
      cases a
      · exact hok
      · exact hok
  case waitAsleep a w =>
    cases hact
    refine hi.sleepers hwake (fun _ hne hnil => hne (by rw [hnil]; rfl)) ?_
    cases a
    · exact hok
    · exact hok
  case unlockState =>
    cases hact
    obtain ⟨hholds, hsettled, hfalse⟩ := hok
    refine hquiet ?_
    split
    · exact ⟨hsettled, hfalse⟩
    · split
      · rename_i hneg
        refine ⟨hholds.resolve_left fun hmem => ?_, hsettled, hfalse⟩
        rcases hi.word with ⟨-, hempty, -⟩ | ⟨hcount, -⟩
        · rw [hempty] at hmem
          cases hmem
        · omega
      · refine ⟨hholds.resolve_right fun hw => ?_, hsettled, hfalse⟩
        have := (hi.writing hw).1
        omega
  case unlockWriter =>
    cases hact
    obtain ⟨hw, hsettled, hfalse⟩ := hok
    refine hquiet ?_
    split
    · exact ⟨hsettled, hfalse⟩
    · rename_i hwriter
      exact ⟨hw, by simpa using hwriter⟩
  case unlockClear =>
    cases hact
    exact hi.store hok.1 (Or.inl rfl) hwake ⟨hok.1, by simp⟩
  case unlockExchange =>
    cases hact
    exact hi.exchange hloc
  case unlockDecrement =>
    cases hact
    exact hi.decrement hloc

omit [DecidableEq Tid] in
theorem RwlockInv.init (now : Clocks) : RwlockInv (RwlockSystem.init now : RwlockSystem Tid) where
  loc := by
    intro t ht
    cases ht
  word := Or.inr ⟨rfl, rfl⟩
  writer := by
    intro t ht
    cases ht
  stranded := fun _ hne => absurd rfl hne

omit [DecidableEq Tid] in
/-- The clocks move on. -/
private theorem RwlockInv.tick (hi : RwlockInv s) (now : Clocks) :
    RwlockInv { s with shared := { s.shared with now := now } } where
  loc := fun t => (hi.loc t).congr Iff.rfl Iff.rfl (fun _ => rfl) rfl
  word := hi.word
  writer := hi.writer
  stranded := hi.stranded

theorem RwlockInv.step {e : RwlockEvent Tid} {s' : RwlockSystem Tid} (hi : RwlockInv s)
    (hstep : rwlockStep s e = some s') : RwlockInv s' := by
  unfold rwlockStep at hstep
  split at hstep
  · rename_i hproper
    cases e with
    | thread t i =>
      obtain ⟨h', l', hact, rfl⟩ := step_thread.1 hstep
      exact hi.act hproper hact
    | env now =>
      cases hstep
      exact hi.tick now
  · cases hstep

/-! ### What a call returns -/

/-- The thread is outside. -/
def RwlockLoc.Out (l : RwlockLoc) : Prop := ∃ r, l = .out r

/-- How often a thread holds the lock, for reading and for writing. -/
def RwlockState.holds (h : RwlockState Tid) (t : Tid) : Access → Nat
  | .read => h.readers.count t
  | .write => h.writers.count t

/-- The holds of a thread in a call for `a` that it began with the holds `n`. -/
def RwlockLoc.InLock (a : Access) (n k : Access → Nat) : RwlockLoc → Prop
  | .out .zero => k = Function.update n a (n a + 1)
  | .writeStore => a = .write ∧ k = Function.update n a (n a + 1)
  | .out _ => k = n
  | .readState _ | .readCas _ _ | .readWriter _ => a = .read ∧ k = n
  | .writeState _ | .writeCas _ | .writeWriter _ _ => a = .write ∧ k = n
  | .waitClock b _ _ | .waitCompare b _ _ | .waitAsleep b _ => a = b ∧ k = n
  | _ => False

/-- One hold fewer. -/
def Access.Dropped (n k : Access → Nat) : Prop := ∃ a, n = Function.update k a (k a + 1)

/-- The holds of a thread in an unlock that it began with the holds `n`. -/
def RwlockLoc.InUnlock (n k : Access → Nat) : RwlockLoc → Prop
  | .out .zero | .unlockWake => Access.Dropped n k
  | .out _ | .unlockState | .unlockWriter | .unlockClear | .unlockExchange | .unlockDecrement => k = n
  | _ => False

/-- The call is a lock for `a`, which may try, wait or wait until a deadline. -/
def RwlockInput.Locks (a : Access) : RwlockInput → Prop
  | .tryrdlock | .rdlock | .clockrdlock _ => a = .read
  | .trywrlock | .wrlock | .clockwrlock _ => a = .write
  | _ => False

variable {a : Access} {n : Access → Nat}

private theorem holds_read (hread : h'.readers = t :: h.readers) (hwrite : h'.writers = h.writers) :
    h'.holds t = Function.update (h.holds t) .read (h.holds t .read + 1) := by
  funext b
  cases b with
  | read =>
    show h'.readers.count t = _
    rw [Function.update_self, hread, List.count_cons_self]
    rfl
  | write =>
    show h'.writers.count t = _
    rw [Function.update_of_ne (by decide), hwrite]
    rfl

private theorem holds_write (hread : h'.readers = h.readers) (hwrite : h'.writers = t :: h.writers) :
    h'.holds t = Function.update (h.holds t) .write (h.holds t .write + 1) := by
  funext b
  cases b with
  | read =>
    show h'.readers.count t = _
    rw [Function.update_of_ne (by decide), hread]
    rfl
  | write =>
    show h'.writers.count t = _
    rw [Function.update_self, hwrite, List.count_cons_self]
    rfl

private theorem Access.locking_clocklock (w : Until) : (a.clocklock w).InLock a n n := by
  unfold Access.clocklock
  split
  · rfl
  · cases a <;> exact ⟨rfl, rfl⟩

private theorem rwlock_locking_begins {i : RwlockInput} {r : Ret} (hi : i.Locks a)
    (hact : rwlockAct t i h (.out r) = some (h', l')) : l'.InLock a (h.holds t) (h'.holds t) := by
  cases i with
  | clockrdlock w | clockwrlock w =>
    cases hi
    cases hact
    exact Access.locking_clocklock w
  | unlock | run => exact hi.elim
  | _ =>
    cases hi
    cases hact
    exact ⟨rfl, rfl⟩

/-- The exchange that adds the hold is the last access but the one that stores the writer. -/
private theorem rwlock_locking_act {i : RwlockInput} (hl : l.InLock a n (h.holds t)) (hgoing : ¬l.Out)
    (hact : rwlockAct t i h l = some (h', l')) : l'.InLock a n (h'.holds t) := by
  have hretry {b : Access} (w : Until) (hl : a = b ∧ h.holds t = n) : (b.retry w).InLock a n (h.holds t) := by
    cases b <;> exact hl
  cases l
  case out r => exact absurd ⟨r, rfl⟩ hgoing
  case readState block =>
    cases hact
    split
    · cases block
      · exact hl.2
      · exact hl
    · split
      · exact hl.2
      · exact hl
  case readCas seen block =>
    simp only [rwlockAct] at hact
    split at hact <;> cases hact
    · obtain ⟨rfl, hn⟩ := hl
      rw [← hn]
      exact holds_read rfl rfl
    · exact hl
  case readWriter w =>
    cases hact
    split
    · exact hl.2
    · exact hl
  case writeState w =>
    cases hact
    split
    · exact hl
    · split <;> exact hl
  case writeCas block =>
    simp only [rwlockAct] at hact
    split at hact <;> cases hact
    · obtain ⟨rfl, hn⟩ := hl
      rw [← hn]
      exact ⟨rfl, holds_write rfl rfl⟩
    · cases block
      · exact hl.2
      · exact hl
  case writeStore =>
    cases hact
    exact hl.2
  case writeWriter seen w | waitClock b seen w =>
    cases hact
    split
    · exact hl.2
    · exact hl
  case waitCompare b seen w =>
    simp only [rwlockAct] at hact
    split at hact <;> cases hact
    · exact hl
    · exact hretry w hl
  case waitAsleep b w =>
    cases hact
    exact hretry w hl
  all_goals exact hl.elim

private theorem dropped_read (hmem : t ∈ h.readers) (hread : h'.readers = h.readers.erase t)
    (hwrite : h'.writers = h.writers) : Access.Dropped (h.holds t) (h'.holds t) := by
  have hpos := List.count_pos_iff.2 hmem
  refine ⟨.read, ?_⟩
  funext b
  cases b with
  | read =>
    rw [Function.update_self]
    show h.readers.count t = h'.readers.count t + 1
    rw [hread, List.count_erase_self]
    omega
  | write =>
    rw [Function.update_of_ne (by decide)]
    show h.writers.count t = h'.writers.count t
    rw [hwrite]

private theorem dropped_write (hmem : t ∈ h.writers) (hread : h'.readers = h.readers)
    (hwrite : h'.writers = h.writers.erase t) : Access.Dropped (h.holds t) (h'.holds t) := by
  have hpos := List.count_pos_iff.2 hmem
  refine ⟨.write, ?_⟩
  funext b
  cases b with
  | read =>
    rw [Function.update_of_ne (by decide)]
    show h.readers.count t = h'.readers.count t
    rw [hread]
  | write =>
    rw [Function.update_self]
    show h.writers.count t = h'.writers.count t + 1
    rw [hwrite, List.count_erase_self]
    omega

private theorem rwlock_unlocking_act {i : RwlockInput} (hok : l.Ok h t) (hl : l.InUnlock n (h.holds t))
    (hgoing : ¬l.Out) (hact : rwlockAct t i h l = some (h', l')) : l'.InUnlock n (h'.holds t) := by
  cases l
  case out r => exact absurd ⟨r, rfl⟩ hgoing
  case unlockState =>
    cases hact
    split
    · exact hl
    · split <;> exact hl
  case unlockWriter =>
    cases hact
    split <;> exact hl
  case unlockClear | unlockWake =>
    cases hact
    exact hl
  case unlockExchange =>
    have hn : h.holds t = n := hl
    have hmem : t ∈ h.writers := by
      rw [hok.1]
      exact List.mem_singleton.2 rfl
    cases hact
    rw [← hn]
    exact dropped_write hmem rfl rfl
  case unlockDecrement =>
    have hn : h.holds t = n := hl
    have hmem : t ∈ h.readers := hok.1
    cases hact
    rw [← hn]
    split
    · exact dropped_read hmem rfl rfl
    · exact dropped_read hmem rfl rfl
  all_goals exact hl.elim

/-- An access changes no holds but those of the thread that makes it. -/
private theorem rwlockAct_frame {i : RwlockInput} (hact : rwlockAct t i h l = some (h', l')) :
    ∀ u ≠ t, h'.holds u = h.holds u := by
  have hsame {h' : RwlockState Tid} (hread : ∀ u ≠ t, h'.readers.count u = h.readers.count u)
      (hwrite : ∀ u ≠ t, h'.writers.count u = h.writers.count u) : ∀ u ≠ t, h'.holds u = h.holds u := by
    intro u hu
    funext b
    cases b
    · exact hread u hu
    · exact hwrite u hu
  have hnone : ∀ u ≠ t, h.readers.count u = h.readers.count u := fun _ _ => rfl
  cases l
  case out r =>
    cases i <;> cases hact <;> exact fun _ _ => rfl
  case readCas seen block =>
    simp only [rwlockAct] at hact
    split at hact <;> cases hact
    · exact hsame (fun u hu => List.count_cons_of_ne (Ne.symm hu)) fun _ _ => rfl
    · exact fun _ _ => rfl
  case writeCas block =>
    simp only [rwlockAct] at hact
    split at hact <;> cases hact
    · exact hsame (fun _ _ => rfl) fun u hu => List.count_cons_of_ne (Ne.symm hu)
    · exact fun _ _ => rfl
  case waitCompare b seen w =>
    simp only [rwlockAct] at hact
    split at hact <;> cases hact <;> exact fun _ _ => rfl
  case unlockExchange =>
    cases hact
    exact hsame (fun _ _ => rfl) fun u hu => List.count_erase_of_ne hu
  case unlockDecrement =>
    cases hact
    exact hsame (fun u hu => List.count_erase_of_ne hu) fun _ _ => rfl
  all_goals
    cases hact
    exact fun _ _ => rfl

/-- A call of one thread, while it lasts. -/
private theorem RwlockInv.inCall {i : RwlockInput} {s' : RwlockSystem Tid} {P : (Access → Nat) → RwlockLoc → Prop}
    (hi : RwlockInv s) (hcall : InCall rwlockStep RwlockLoc.Out t i s s')
    (hbegins : ∀ h' l', rwlockAct t i s.shared (s.loc t) = some (h', l') → P (h'.holds t) l')
    (hacts : ∀ j (h h' : RwlockState Tid) l l', l.Ok h t → P (h.holds t) l → ¬l.Out →
      rwlockAct t j h l = some (h', l') → P (h'.holds t) l') : P (s'.shared.holds t) (s'.loc t) := by
  have hstep : ∀ (s : RwlockSystem Tid) e s', rwlockStep s e = some s' →
      Threads.step rwlockAct (fun now h => some { h with now := now }) s e = some s' := by
    intro s e s' h
    unfold rwlockStep at h
    split at h
    · exact h
    · cases h
  refine (InCall.rule (P := fun h l => P (h.holds t) l) hcall hstep (fun _ _ _ hi hs => RwlockInv.step hi hs) hi
    ?_ ?_ ?_ ?_).2
  · intro s' hs'
    obtain ⟨h', l', hact, rfl⟩ := step_thread.1 (hstep _ _ _ hs')
    rw [State.put_shared, State.put_self]
    exact hbegins h' l' hact
  · intro s j h' l' hi hP hgoing hact
    exact hacts j _ h' _ l' (hi.loc t) hP hgoing hact
  · intro s u j h' l' _ hut hP hact
    rw [rwlockAct_frame hact t (Ne.symm hut)]
    exact hP
  · intro s e h _ hP henv
    cases henv
    exact hP

/-- A lock that returns 0 has added one hold of its kind, an unlock that does has dropped one, and any other call has
left the holds of its thread. -/
structure RwlockReturns (s : RwlockSystem Tid) (t : Tid) : Prop where
  locks : ∀ a i s' r, RwlockInput.Locks a i → InCall rwlockStep RwlockLoc.Out t i s s' → s'.loc t = .out r →
    s'.shared.holds t = if r = .zero then Function.update (s.shared.holds t) a (s.shared.holds t a + 1)
      else s.shared.holds t
  unlocks : ∀ s' r, InCall rwlockStep RwlockLoc.Out t .unlock s s' → s'.loc t = .out r →
    if r = .zero then Access.Dropped (s.shared.holds t) (s'.shared.holds t) else s'.shared.holds t = s.shared.holds t

private theorem RwlockInv.returns (hi : RwlockInv s) (hout : (s.loc t).Out) : RwlockReturns s t := by
  obtain ⟨r₀, hout⟩ := hout
  constructor
  · intro a i s' r hlocks hcall hloc
    have hheld := hi.inCall (P := fun k l => l.InLock a (s.shared.holds t) k) hcall
      (fun h' l' hact => rwlock_locking_begins hlocks (hout ▸ hact))
      fun j h h' l l' _ hl hgoing hact => rwlock_locking_act hl hgoing hact
    rw [hloc] at hheld
    cases r <;> exact hheld
  · intro s' r hcall hloc
    have hheld := hi.inCall (P := fun k l => l.InUnlock (s.shared.holds t) k) hcall ?_
      fun j h h' l l' hok hl hgoing hact => rwlock_unlocking_act hok hl hgoing hact
    · rw [hloc] at hheld
      cases r <;> exact hheld
    · intro h' l' hact
      rw [hout] at hact
      cases hact
      rfl

/-- What the lock guarantees in every state of a run. -/
structure RwlockOk (s : RwlockSystem Tid) : Prop where
  alone : ∀ t ∈ s.shared.writers, s.shared.writers = [t] ∧ s.shared.readers = []
  readers : 0 < s.shared.lock.state → s.shared.lock.state = s.shared.readers.length ∧ s.shared.writers = []
  edeadlk : ∀ t, s.loc t = .out (.err .EDEADLK) → t ∈ s.shared.writers
  unchanged : ∀ t e, s.loc t = .out (.err e) → s.shared.stored t = false
  stranded : s.shared.lock.state = 0 → s.shared.sleepers ≠ [] → ∃ t, s.loc t = .unlockWake
  returns : ∀ t, (s.loc t).Out → RwlockReturns s t

private theorem RwlockInv.rwlockOk (hi : RwlockInv s) : RwlockOk s where
  alone := by
    intro t ht
    rcases hi.word with ⟨-, hempty, u, hu⟩ | ⟨-, hnil⟩
    · rw [hu] at ht ⊢
      rw [List.mem_singleton.1 ht]
      exact ⟨rfl, hempty⟩
    · rw [hnil] at ht
      cases ht
  readers := fun hpos => hi.reading (by omega)
  edeadlk := by
    intro t hloc
    have hok := hi.loc t
    rw [hloc] at hok
    rw [hok.1]
    exact List.mem_singleton.2 rfl
  unchanged := by
    intro t e hloc
    have hok := hi.loc t
    rw [hloc] at hok
    cases e <;> first | exact hok.2 | exact hok.2.2
  stranded := hi.stranded
  returns := fun t hout => hi.returns hout

theorem rwlock_ok {now : Clocks} (h : Transition.Reach rwlockStep (.init now) s) : RwlockOk s :=
  (h.invariant (P := RwlockInv) (fun _ _ _ hi hstep => hi.step hstep) (.init now)).rwlockOk

/-- A thread makes a call and takes the next `n` accesses. -/
def rwlockCalls (t : Tid) (i : RwlockInput) (n : Nat) : List (RwlockEvent Tid) :=
  .thread t i :: List.replicate n (.thread t .run)

/-- The lock has two readers while a writer goes to sleep, and one when it is asleep. -/
theorem rwlock_ok_reading : ∃ s : RwlockSystem Nat,
    (s.shared.lock.state = 1 ∧ s.shared.readers = [0] ∧ s.shared.sleepers = [2]) ∧ RwlockOk s := by
  have hrun : (Transition.run rwlockStep (.init .zero)
      (rwlockCalls 0 .rdlock 2 ++ rwlockCalls 1 .tryrdlock 2 ++ rwlockCalls 2 .wrlock 3 ++
        rwlockCalls 1 .unlock 2)).map (fun s : RwlockSystem Nat => (s.shared.lock.state, s.shared.readers,
        s.shared.sleepers)) = some (1, [0], [2]) := by
    decide +kernel
  obtain ⟨s, hs, heq⟩ := Option.map_eq_some_iff.1 hrun
  simp only [Prod.mk.injEq] at heq
  exact ⟨s, heq, rwlock_ok ⟨_, hs⟩⟩

end Sppc.Windows
