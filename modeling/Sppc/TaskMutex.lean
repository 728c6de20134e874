import Sppc.Calls
import Sppc.Windows.Mutex

/-!
# Mutexes between tasks (`async/sched.h`, `platform/common.h`)

Any number of tasks, each on one OS thread, call `lock`, `clocklock`, `trylock` and `unlock` on one mutex.  The
platform's mutex knows OS threads and no tasks.  A step is one call of the platform, or what `_gt_lock_until` does
between two of them.  Which task of an OS thread moves next is left open, and with it the queue of the lock's waiters,
which settles nothing else.
-/

namespace Sppc

open Threads Transition
open Windows (MutexKind Errno uintMax)

variable {Os Task : Type} [DecidableEq Os] [DecidableEq Task]

/-! ### The platform's mutex -/

/-- `pthread_mutex_t`: the OS thread that holds it, and how often. -/
structure PthreadMutex (Os : Type) where
  kind : MutexKind
  owner : Option Os
  count : Nat

/-- `pthread_mutex_init`. -/
def PthreadMutex.init (kind : MutexKind) : PthreadMutex Os := ⟨kind, none, 0⟩

/-- `pthread_mutex_trylock` on the OS thread `T`. -/
def PthreadMutex.trylock (m : PthreadMutex Os) (T : Os) : Except Errno (PthreadMutex Os) :=
  if m.owner = none then .ok { m with owner := some T, count := 1 }
  else if m.kind = .recursive ∧ m.owner = some T then
    if m.count = uintMax then .error .EAGAIN else .ok { m with count := m.count + 1 }
  else .error .EBUSY

/-- `pthread_mutex_lock` and `pthread_mutex_clocklock`: none while they block. -/
def PthreadMutex.lock (m : PthreadMutex Os) (T : Os) : Option (Except Errno (PthreadMutex Os)) :=
  match m.trylock T with
  | .error .EBUSY => if m.kind = .errorcheck ∧ m.owner = some T then some (.error .EDEADLK) else none
  | r => some r

/-- `pthread_mutex_unlock`.  A normal mutex that the OS thread does not hold is not to be unlocked. -/
def PthreadMutex.unlock (m : PthreadMutex Os) (T : Os) : Except Errno (PthreadMutex Os) :=
  if m.owner ≠ some T then .error .EPERM
  else .ok (if m.kind = .recursive ∧ m.count ≠ 1 then { m with count := m.count - 1 }
    else { m with owner := none, count := 0 })

section platform

variable {m m' : PthreadMutex Os} {T : Os}

theorem PthreadMutex.trylock_ok (h : m.trylock T = .ok m') :
    (m.owner = none ∧ m' = { m with owner := some T, count := 1 }) ∨
      (m.kind = .recursive ∧ m.owner = some T ∧ m' = { m with count := m.count + 1 }) := by
  rw [trylock] at h
  split at h
  case isTrue hfree =>
    cases h
    exact Or.inl ⟨hfree, rfl⟩
  case isFalse hheld =>
    split at h
    case isTrue hagain =>
      split at h <;> cases h
      exact Or.inr ⟨hagain.1, hagain.2, rfl⟩
    case isFalse => cases h

theorem PthreadMutex.lock_ok (h : m.lock T = some (.ok m')) : m.trylock T = .ok m' := by
  rw [lock] at h
  split at h
  · split at h <;> cases h
  · exact Option.some.inj h

theorem PthreadMutex.unlock_ok (h : m.unlock T = .ok m') : m.owner = some T ∧
    ((m.kind = .recursive ∧ m.count ≠ 1 ∧ m' = { m with count := m.count - 1 }) ∨
      (¬(m.kind = .recursive ∧ m.count ≠ 1) ∧ m' = { m with owner := none, count := 0 })) := by
  rw [unlock] at h
  split at h
  case isTrue => cases h
  case isFalse howner =>
    refine ⟨not_not.1 howner, ?_⟩
    split at h <;> cases h
    case isTrue hagain => exact Or.inl ⟨hagain.1, hagain.2, rfl⟩
    case isFalse hlast => exact Or.inr ⟨hlast, rfl⟩

end platform

/-! ### The calls -/

/-- The mutex, the task that each OS thread runs, and how often each task has acquired the mutex more than released
it, which nobody stores. -/
structure TaskMutexState (Os Task : Type) where
  mutex : PthreadMutex Os
  running : Os → Task
  held : Task → Nat

/-- Where a task is: outside, its last call having returned an error or none, or in a call.  `attempt`, `busy`,
`late`, `step` and `block` are those of `_gt_lock_until`, with a deadline or without. -/
inductive LockLoc
  | out (r : Option Errno)
  | attempt (timed : Bool) | busy (timed : Bool) | late (timed : Bool) | step (timed : Bool) | block (timed : Bool)
  | trylock
  | unlock
  deriving DecidableEq, Repr

/-- The calls of a task outside; what `_gt_has_other_work` and `_gt_passed_if_any` say; and whose turn it is next, the
task's own where the OS thread has waited for its backend. -/
inductive LockInput (Task : Type)
  | lock | clocklock (valid : Bool) | trylock | unlock
  | work (other : Bool) | passed (deadline : Bool)
  | turn (u : Task)
  | run

/-- The platform's call has acquired the mutex. -/
def TaskMutexState.acquire (h : TaskMutexState Os Task) (t : Task) (m : PthreadMutex Os) : TaskMutexState Os Task :=
  { h with mutex := m, held := Function.update h.held t (h.held t + 1) }

def TaskMutexState.release (h : TaskMutexState Os Task) (t : Task) (m : PthreadMutex Os) : TaskMutexState Os Task :=
  { h with mutex := m, held := Function.update h.held t (h.held t - 1) }

/-- The OS thread `T` goes on with the task `u`. -/
def TaskMutexState.switch (h : TaskMutexState Os Task) (T : Os) (u : Task) : TaskMutexState Os Task :=
  { h with running := Function.update h.running T u }

/-- The next step of the task `t`, while its OS thread runs it.  It unlocks only what it has locked. -/
def taskMutexAct (os : Task → Os) (t : Task) (i : LockInput Task) (h : TaskMutexState Os Task) (l : LockLoc) :
    Option (TaskMutexState Os Task × LockLoc) :=
  if h.running (os t) ≠ t then none else match l with
  | .out r => match i with
    | .lock => some (h, .attempt false)
    | .clocklock valid => some (h, if valid then .attempt true else .out (some .EINVAL))
    | .trylock => some (h, .trylock)
    | .unlock => if 0 < h.held t then some (h, .unlock) else none
    | .turn u => if os u = os t then some (h.switch (os t) u, .out r) else none
    | _ => none
  -- _gt_lock_until
  | .attempt timed => match h.mutex.trylock (os t) with
    | .ok m => some (h.acquire t m, .out none)
    | .error .EBUSY => some (h, .busy timed)
    | .error e => some (h, .out (some e))
  | .busy timed => match i with
    | .work other => some (h, if other then .late timed else .block timed)
    | _ => none
  | .late timed => match i with
    | .passed deadline => some (h, if timed ∧ deadline then .out (some .ETIMEDOUT) else .step timed)
    | _ => none
  | .step timed => match i with
    | .turn u => if os u = os t then some (h.switch (os t) u, .attempt timed) else none
    | _ => none
  | .block timed => match h.mutex.lock (os t) with
    | some (.ok m) => some (h.acquire t m, .out none)
    | some (.error e) => some (h, .out (some e))
    | none => match i with
      | .passed deadline => if timed ∧ deadline then some (h, .out (some .ETIMEDOUT)) else none
      | _ => none
  -- sppc_pthread_mutex_trylock
  | .trylock => match h.mutex.trylock (os t) with
    | .ok m => some (h.acquire t m, .out none)
    | .error e => some (h, .out (some e))
  -- _gt_mutex_unlock
  | .unlock => match h.mutex.unlock (os t) with
    | .ok m => some (h.release t m, .out none)
    | .error e => some (h, .out (some e))

abbrev TaskMutexSystem (Os Task : Type) := Threads.State Task (TaskMutexState Os Task) LockLoc

abbrev TaskMutexEvent (Task : Type) := Threads.Event Task (LockInput Task) Empty

/-- A new mutex, with `running` the tasks that the OS threads run. -/
def TaskMutexSystem.init (kind : MutexKind) (running : Os → Task) : TaskMutexSystem Os Task :=
  ⟨⟨.init kind, running, fun _ => 0⟩, fun _ => .out none⟩

/-- One step of a task. -/
def taskMutexStep (os : Task → Os) :
    TaskMutexSystem Os Task → TaskMutexEvent Task → Option (TaskMutexSystem Os Task) :=
  Threads.step (taskMutexAct os) fun e _ => e.elim

/-- A task asks the platform for a recursive mutex that its OS thread holds only if it holds the mutex itself. -/
def TaskMutexSystem.Proper (os : Task → Os) (s : TaskMutexSystem Os Task) (t : Task) : Prop :=
  match s.loc t with
  | .attempt _ | .block _ | .trylock =>
    s.shared.mutex.kind = .recursive → s.shared.mutex.owner = some (os t) → 0 < s.shared.held t
  | _ => True

instance TaskMutexSystem.decidableProper (os : Task → Os) (s : TaskMutexSystem Os Task) (t : Task) :
    Decidable (s.Proper os t) := by
  unfold TaskMutexSystem.Proper
  split <;> infer_instance

/-- A step in which no task asks for a recursive mutex that another task of its OS thread holds. -/
def taskMutexProperStep (os : Task → Os) (s : TaskMutexSystem Os Task) :
    TaskMutexEvent Task → Option (TaskMutexSystem Os Task)
  | .thread t i => if s.Proper os t then taskMutexStep os s (.thread t i) else none
  | .env e => e.elim

/-! ### Exclusion -/

/-- Whoever holds the mutex, one task does, on the OS thread that the platform knows. -/
structure TaskMutexInv (os : Task → Os) (s : TaskMutexSystem Os Task) : Prop where
  free : s.shared.mutex.owner = none → ∀ t, s.shared.held t = 0
  owned : ∀ T, s.shared.mutex.owner = some T → ∃ t, os t = T ∧ s.shared.held t = s.shared.mutex.count ∧
    0 < s.shared.held t ∧ (s.shared.mutex.kind ≠ .recursive → s.shared.held t = 1) ∧ ∀ u ≠ t, s.shared.held u = 0
  unlock : ∀ t, s.loc t = .unlock → 0 < s.shared.held t

variable {os : Task → Os} {s s' : TaskMutexSystem Os Task} {t u : Task} {i : LockInput Task}
  {h h' : TaskMutexState Os Task} {l l' : LockLoc} {m : PthreadMutex Os}

/-- What a step does: nothing to the mutex, or it acquires or releases it. -/
private theorem taskMutexAct_cases (hact : taskMutexAct os t i h l = some (h', l')) :
    (h'.mutex = h.mutex ∧ h'.held = h.held ∧ (l' = .unlock → 0 < h.held t)) ∨
    (∃ m, h.mutex.trylock (os t) = .ok m ∧ h' = h.acquire t m ∧ l' = .out none ∧
      (l = .trylock ∨ ∃ timed, l = .attempt timed ∨ l = .block timed)) ∨
    (∃ m, h.mutex.unlock (os t) = .ok m ∧ h' = h.release t m ∧ l' = .out none ∧ l = .unlock) := by
  unfold taskMutexAct at hact
  split at hact
  · cases hact
  cases l
  case out r =>
    refine Or.inl ?_
    cases i <;> simp only at hact
    case lock | trylock =>
      cases hact
      exact ⟨rfl, rfl, fun h => by cases h⟩
    case clocklock valid =>
      cases hact
      cases valid <;> exact ⟨rfl, rfl, fun h => by cases h⟩
    case unlock =>
      split at hact <;> cases hact
      rename_i hpos
      exact ⟨rfl, rfl, fun _ => hpos⟩
    case turn u =>
      split at hact <;> cases hact
      exact ⟨rfl, rfl, fun h => by cases h⟩
    all_goals cases hact
  case attempt timed =>
    simp only at hact
    split at hact <;> cases hact
    case h_1 m hm => exact Or.inr (Or.inl ⟨m, hm, rfl, rfl, Or.inr ⟨timed, Or.inl rfl⟩⟩)
    all_goals exact Or.inl ⟨rfl, rfl, fun h => by cases h⟩
  case block timed =>
    simp only at hact
    split at hact
    case h_1 m hm =>
      cases hact
      exact Or.inr (Or.inl ⟨m, PthreadMutex.lock_ok hm, rfl, rfl, Or.inr ⟨timed, Or.inr rfl⟩⟩)
    case h_2 =>
      cases hact
      exact Or.inl ⟨rfl, rfl, fun h => by cases h⟩
    case h_3 =>
      refine Or.inl ?_
      cases i <;> simp only at hact
      case passed =>
        split at hact <;> cases hact
        exact ⟨rfl, rfl, fun h => by cases h⟩
      all_goals cases hact
  case trylock =>
    simp only at hact
    split at hact <;> cases hact
    case h_1 m hm => exact Or.inr (Or.inl ⟨m, hm, rfl, rfl, Or.inl rfl⟩)
    case h_2 => exact Or.inl ⟨rfl, rfl, fun h => by cases h⟩
  case unlock =>
    simp only at hact
    split at hact <;> cases hact
    case h_1 m hm => exact Or.inr (Or.inr ⟨m, hm, rfl, rfl, rfl⟩)
    case h_2 => exact Or.inl ⟨rfl, rfl, fun h => by cases h⟩
  case busy timed =>
    refine Or.inl ?_
    cases i <;> simp only at hact
    case work other =>
      cases hact
      cases other <;> exact ⟨rfl, rfl, fun h => by cases h⟩
    all_goals cases hact
  case late timed =>
    refine Or.inl ?_
    cases i <;> simp only at hact
    case passed deadline =>
      cases hact
      exact ⟨rfl, rfl, fun h => by split at h <;> cases h⟩
    all_goals cases hact
  case step =>
    refine Or.inl ?_
    cases i <;> simp only at hact
    case turn =>
      split at hact <;> cases hact
      exact ⟨rfl, rfl, fun h => by cases h⟩
    all_goals cases hact

omit [DecidableEq Os] in
/-- The task that holds the mutex is the only one. -/
theorem TaskMutexInv.only {T : Os} (hi : TaskMutexInv os s) (howner : s.shared.mutex.owner = some T)
    (hpos : 0 < s.shared.held t) : s.shared.held t = s.shared.mutex.count ∧
      (s.shared.mutex.kind ≠ .recursive → s.shared.held t = 1) ∧ ∀ u ≠ t, s.shared.held u = 0 := by
  obtain ⟨v, -, hcount, -, hone, hzero⟩ := hi.owned T howner
  have hv : t = v := by
    by_contra hne
    have := hzero t hne
    omega
  subst hv
  exact ⟨hcount, hone, hzero⟩

omit [DecidableEq Os] in
private theorem TaskMutexInv.unlock_others (hi : TaskMutexInv os s) (hothers : ∀ u ≠ t, h'.held u = s.shared.held u)
    (u : Task) (hloc : (s.put t h' (.out none)).loc u = .unlock) : 0 < h'.held u := by
  have hu : u ≠ t := by
    rintro rfl
    rw [State.put_self] at hloc
    cases hloc
  rw [State.put_of_ne hu] at hloc
  rw [hothers u hu]
  exact hi.unlock u hloc

/-- A task acquires the mutex: it was free, or the task holds it alone. -/
theorem TaskMutexInv.acquire (hi : TaskMutexInv os s) (hm : s.shared.mutex.trylock (os t) = .ok m)
    (hproper : s.shared.mutex.kind = .recursive → s.shared.mutex.owner = some (os t) → 0 < s.shared.held t) :
    TaskMutexInv os (s.put t (s.shared.acquire t m) (.out none)) := by
  have hmine : (s.shared.acquire t m).held t = s.shared.held t + 1 := Function.update_self t _ _
  have hothers (u : Task) (hu : u ≠ t) : (s.shared.acquire t m).held u = s.shared.held u :=
    Function.update_of_ne hu _ _
  have hunlock := hi.unlock_others hothers
  rcases PthreadMutex.trylock_ok hm with ⟨hfree, rfl⟩ | ⟨hkind, howner, rfl⟩
  · have hnone := hi.free hfree
    refine ⟨fun hf => absurd hf (by simp [TaskMutexState.acquire]), fun T hT => ?_, hunlock⟩
    cases hT
    refine ⟨t, rfl, ?_, ?_, fun _ => ?_, fun u hu => ?_⟩
    · rw [State.put_shared, hmine, hnone t]
      rfl
    · rw [State.put_shared, hmine]
      omega
    · rw [State.put_shared, hmine, hnone t]
    · rw [State.put_shared, hothers u hu]
      exact hnone u
  · have hpos := hproper hkind howner
    refine ⟨fun hf => absurd (howner.symm.trans hf) (by simp), fun T hT => ?_, hunlock⟩
    have hT' : some T = some (os t) := hT.symm.trans howner
    cases hT'
    obtain ⟨hcount, -, hzero⟩ := hi.only howner hpos
    refine ⟨t, rfl, ?_, ?_, fun hk => absurd hkind hk, fun u hu => ?_⟩
    · rw [State.put_shared, hmine, hcount]
      rfl
    · rw [State.put_shared, hmine]
      omega
    · rw [State.put_shared, hothers u hu]
      exact hzero u hu

/-- The task that holds the mutex releases it. -/
theorem TaskMutexInv.release (hi : TaskMutexInv os s) (hloc : s.loc t = .unlock)
    (hm : s.shared.mutex.unlock (os t) = .ok m) :
    TaskMutexInv os (s.put t (s.shared.release t m) (.out none)) := by
  have hpos := hi.unlock t hloc
  have hmine : (s.shared.release t m).held t = s.shared.held t - 1 := Function.update_self t _ _
  have hothers (u : Task) (hu : u ≠ t) : (s.shared.release t m).held u = s.shared.held u :=
    Function.update_of_ne hu _ _
  have hunlock := hi.unlock_others hothers
  obtain ⟨howner, hcases⟩ := PthreadMutex.unlock_ok hm
  obtain ⟨hcount, hone, hzero⟩ := hi.only howner hpos
  rcases hcases with ⟨hkind, hne, rfl⟩ | ⟨hlast, rfl⟩
  · refine ⟨fun hf => absurd (howner.symm.trans hf) (by simp), fun T hT => ?_, hunlock⟩
    have hT' : some T = some (os t) := hT.symm.trans howner
    cases hT'
    refine ⟨t, rfl, ?_, ?_, fun hk => absurd hkind hk, fun u hu => ?_⟩
    · rw [State.put_shared, hmine, hcount]
      rfl
    · rw [State.put_shared, hmine]
      omega
    · rw [State.put_shared, hothers u hu]
      exact hzero u hu
  · refine ⟨fun _ u => ?_, fun T hT => (by cases hT), hunlock⟩
    rw [State.put_shared]
    by_cases hu : u = t
    · subst hu
      have hheld : s.shared.held u = 1 := by
        by_cases hkind : s.shared.mutex.kind = .recursive
        · rw [hcount]
          by_contra hne
          exact hlast ⟨hkind, hne⟩
        · exact hone hkind
      rw [hmine, hheld]
    · rw [hothers u hu]
      exact hzero u hu

theorem TaskMutexInv.act (hi : TaskMutexInv os s) (hproper : s.Proper os t)
    (hact : taskMutexAct os t i s.shared (s.loc t) = some (h', l')) : TaskMutexInv os (s.put t h' l') := by
  rcases taskMutexAct_cases hact with ⟨hmutex, hheld, hunlock⟩ | ⟨m, hm, rfl, rfl, hloc⟩ | ⟨m, hm, rfl, rfl, hloc⟩
  · refine ⟨?_, ?_, fun u hu => ?_⟩
    · rw [State.put_shared, hmutex, hheld]
      exact hi.free
    · rw [State.put_shared, hmutex, hheld]
      exact hi.owned
    · rw [State.put_shared, hheld]
      exact State.put_forall (P := fun u l => l = LockLoc.unlock → 0 < s.shared.held u) hunlock
        (fun u _ => hi.unlock u) u hu
  · refine hi.acquire hm ?_
    unfold TaskMutexSystem.Proper at hproper
    rcases hloc with hloc | ⟨timed, hloc | hloc⟩ <;> rw [hloc] at hproper <;> exact hproper
  · exact hi.release hloc hm

private theorem taskMutexProperStep_thread : taskMutexProperStep os s (.thread t i) = some s' ↔
    s.Proper os t ∧ ∃ h l, taskMutexAct os t i s.shared (s.loc t) = some (h, l) ∧ s' = s.put t h l := by
  simp only [taskMutexProperStep]
  split
  case isTrue hproper =>
    rw [taskMutexStep, step_thread]
    exact ⟨fun h => ⟨hproper, h⟩, fun h => h.2⟩
  case isFalse hproper => exact ⟨fun h => (nomatch h), fun h => absurd h.1 hproper⟩

theorem TaskMutexInv.step {e : TaskMutexEvent Task} (hi : TaskMutexInv os s)
    (hstep : taskMutexProperStep os s e = some s') : TaskMutexInv os s' := by
  cases e with
  | thread t i =>
    obtain ⟨hproper, h, l, hact, rfl⟩ := taskMutexProperStep_thread.1 hstep
    exact hi.act hproper hact
  | env e => exact e.elim

omit [DecidableEq Os] [DecidableEq Task] in
theorem TaskMutexInv.init (os : Task → Os) (kind : MutexKind) (running : Os → Task) :
    TaskMutexInv os (.init kind running) where
  free _ _ := rfl
  owned T hT := by cases hT
  unlock t ht := by cases ht

/-! ### The calls and what they return -/

/-- The task is not in a call. -/
def LockLoc.Out : LockLoc → Prop
  | .out _ => True
  | _ => False

/-- The calls that acquire the mutex. -/
def LockInput.Locks : LockInput Task → Prop
  | .lock | .clocklock _ | .trylock => True
  | _ => False

/-- In a call that acquires the mutex, or back from it: the task had it `n` times before, and has it `k` times. -/
def LockLoc.InLock (n k : Nat) : LockLoc → Prop
  | .out r => k = if r = none then n + 1 else n
  | .unlock => False
  | _ => k = n

/-- In an unlock, or back from it. -/
def LockLoc.InUnlock (n k : Nat) : LockLoc → Prop
  | .out r => if r = none then k + 1 = n else k = n
  | .unlock => k = n ∧ 0 < n
  | _ => False

/-- A task's step leaves what the others hold. -/
private theorem taskMutexAct_others (hact : taskMutexAct os t i h l = some (h', l')) (hu : u ≠ t) :
    h'.held u = h.held u := by
  rcases taskMutexAct_cases hact with ⟨-, hheld, -⟩ | ⟨m, -, rfl, -⟩ | ⟨m, -, rfl, -⟩
  · rw [hheld]
  · exact Function.update_of_ne hu _ _
  · exact Function.update_of_ne hu _ _

private theorem locking_step {n : Nat} (hl : l.InLock n (h.held t)) (hgoing : ¬l.Out)
    (hact : taskMutexAct os t i h l = some (h', l')) : l'.InLock n (h'.held t) := by
  have hraised (m : PthreadMutex Os) (hn : h.held t = n) : (h.acquire t m).held t = n + 1 := by
    rw [← hn]
    exact Function.update_self t _ _
  unfold taskMutexAct at hact
  split at hact
  · cases hact
  cases l
  case out r => exact absurd trivial hgoing
  case unlock => exact hl.elim
  case attempt timed =>
    simp only at hact
    split at hact <;> cases hact
    · exact hraised _ hl
    · exact hl
    · exact hl
  case busy timed =>
    cases i <;> simp only at hact
    case work other =>
      cases hact
      cases other <;> exact hl
    all_goals cases hact
  case late timed =>
    cases i <;> simp only at hact
    case passed deadline =>
      cases hact
      split <;> exact hl
    all_goals cases hact
  case step timed =>
    cases i <;> simp only at hact
    case turn u =>
      split at hact <;> cases hact
      exact hl
    all_goals cases hact
  case block timed =>
    simp only at hact
    split at hact
    · cases hact
      exact hraised _ hl
    · cases hact
      exact hl
    · cases i <;> simp only at hact
      case passed deadline =>
        split at hact <;> cases hact
        exact hl
      all_goals cases hact
  case trylock =>
    simp only at hact
    split at hact <;> cases hact
    · exact hraised _ hl
    · exact hl

private theorem unlocking_step {n : Nat} (hl : l.InUnlock n (h.held t)) (hgoing : ¬l.Out)
    (hact : taskMutexAct os t i h l = some (h', l')) : l'.InUnlock n (h'.held t) := by
  cases l
  case out r => exact absurd trivial hgoing
  case unlock =>
    obtain ⟨hheld, hpos⟩ := hl
    unfold taskMutexAct at hact
    split at hact
    · cases hact
    simp only at hact
    split at hact <;> cases hact
    · show Function.update h.held t (h.held t - 1) t + 1 = n
      rw [Function.update_self]
      omega
    · exact hheld
  all_goals exact hl.elim

/-- A call of one task, while it lasts. -/
private theorem inCall_held {P : Nat → LockLoc → Prop} (hcall : InCall (taskMutexStep os) LockLoc.Out t i s s')
    (hbegins : ∀ h' l', taskMutexAct os t i s.shared (s.loc t) = some (h', l') → P (h'.held t) l')
    (hacts : ∀ j (h h' : TaskMutexState Os Task) l l', P (h.held t) l → ¬l.Out →
      taskMutexAct os t j h l = some (h', l') → P (h'.held t) l') : P (s'.shared.held t) (s'.loc t) := by
  refine (InCall.rule (I := fun _ => True) (P := fun h l => P (h.held t) l) hcall (fun _ _ _ hs => hs)
    (fun _ _ _ hi _ => hi) trivial ?_ ?_ ?_ ?_).2
  · intro s' hs'
    obtain ⟨h', l', hact, rfl⟩ := step_thread.1 hs'
    rw [State.put_shared, State.put_self]
    exact hbegins h' l' hact
  · intro s j h' l' _ hP hgoing hact
    exact hacts j _ h' _ l' hP hgoing hact
  · intro s u j h' l' _ hut hP hact
    rw [taskMutexAct_others hact (Ne.symm hut)]
    exact hP
  · intro s e
    exact e.elim

/-- A call that returns 0 has raised or lowered the holds of its task by one, and any other has left them. -/
structure TaskMutexReturns (os : Task → Os) (s : TaskMutexSystem Os Task) (t : Task) : Prop where
  locks : ∀ i s' r, LockInput.Locks i → InCall (taskMutexStep os) LockLoc.Out t i s s' → s'.loc t = .out r →
    s'.shared.held t = if r = none then s.shared.held t + 1 else s.shared.held t
  unlocks : ∀ s' r, InCall (taskMutexStep os) LockLoc.Out t .unlock s s' → s'.loc t = .out r →
    if r = none then s'.shared.held t + 1 = s.shared.held t else s'.shared.held t = s.shared.held t

private theorem taskMutexReturns (hout : (s.loc t).Out) : TaskMutexReturns os s t := by
  obtain ⟨r₀, hout⟩ : ∃ r, s.loc t = .out r := by
    revert hout
    cases s.loc t with
    | out r => exact fun _ => ⟨r, rfl⟩
    | _ => exact fun h => h.elim
  constructor
  · intro i s' r hlocks hcall hloc
    have hheld := inCall_held (P := fun k l => l.InLock (s.shared.held t) k) hcall ?_
      fun j h h' l l' hl hgoing hact => locking_step hl hgoing hact
    · rw [hloc] at hheld
      exact hheld
    · intro h' l' hact
      rw [hout] at hact
      unfold taskMutexAct at hact
      split at hact
      · cases hact
      cases i <;> simp only at hact
      case lock | trylock =>
        cases hact
        rfl
      case clocklock valid =>
        cases hact
        cases valid <;> rfl
      all_goals exact hlocks.elim
  · intro s' r hcall hloc
    have hheld := inCall_held (P := fun k l => l.InUnlock (s.shared.held t) k) hcall ?_
      fun j h h' l l' hl hgoing hact => unlocking_step hl hgoing hact
    · rw [hloc] at hheld
      exact hheld
    · intro h' l' hact
      rw [hout] at hact
      unfold taskMutexAct at hact
      split at hact
      · cases hact
      simp only at hact
      split at hact <;> cases hact
      rename_i hpos
      exact ⟨rfl, hpos⟩

/-- A task that holds the mutex is alone in it, and its OS thread holds the platform's mutex as often; and what a task
holds is what its calls have returned. -/
structure TasksExclude (os : Task → Os) (s : TaskMutexSystem Os Task) : Prop where
  excl : ∀ t u, 0 < s.shared.held t → 0 < s.shared.held u → t = u
  owner : ∀ t, 0 < s.shared.held t → s.shared.mutex.owner = some (os t) ∧ s.shared.mutex.count = s.shared.held t
  returns : ∀ t, (s.loc t).Out → TaskMutexReturns os s t

private theorem TaskMutexInv.exclude (hi : TaskMutexInv os s) : TasksExclude os s := by
  have hholder (t : Task) (hpos : 0 < s.shared.held t) : ∃ T, s.shared.mutex.owner = some T := by
    cases howner : s.shared.mutex.owner with
    | none =>
      have := hi.free howner t
      omega
    | some T => exact ⟨T, rfl⟩
  refine ⟨?_, ?_, ?_⟩
  · intro t u ht hu
    obtain ⟨T, howner⟩ := hholder t ht
    obtain ⟨-, -, hzero⟩ := hi.only howner ht
    by_contra hne
    have := hzero u (Ne.symm hne)
    omega
  · intro t ht
    obtain ⟨T, howner⟩ := hholder t ht
    obtain ⟨v, hos, hcount, -, -, hzero⟩ := hi.owned T howner
    have hv : t = v := by
      by_contra hne
      have := hzero t hne
      omega
    subst hv
    rw [howner, hos, hcount]
    exact ⟨rfl, rfl⟩
  · exact fun t hout => taskMutexReturns hout

/-- Only a task that asks for a recursive mutex is kept to a condition. -/
private theorem taskMutexStep_proper {e : TaskMutexEvent Task} (hkind : s.shared.mutex.kind ≠ .recursive)
    (hstep : taskMutexStep os s e = some s') :
    taskMutexProperStep os s e = some s' ∧ s'.shared.mutex.kind ≠ .recursive := by
  cases e with
  | thread t i =>
    obtain ⟨h', l', hact, rfl⟩ := step_thread.1 hstep
    have hproper : s.Proper os t := by
      unfold TaskMutexSystem.Proper
      split
      all_goals first | exact fun hk => absurd hk hkind | trivial
    refine ⟨taskMutexProperStep_thread.2 ⟨hproper, h', l', hact, rfl⟩, ?_⟩
    rw [State.put_shared]
    rcases taskMutexAct_cases hact with ⟨hmutex, -⟩ | ⟨m, hm, rfl, -⟩ | ⟨m, hm, rfl, -⟩
    · rw [hmutex]
      exact hkind
    · rcases PthreadMutex.trylock_ok hm with ⟨-, rfl⟩ | ⟨hk, -⟩
      · exact hkind
      · exact absurd hk hkind
    · obtain ⟨-, ⟨hk, -⟩ | ⟨-, rfl⟩⟩ := PthreadMutex.unlock_ok hm
      · exact absurd hk hkind
      · exact hkind
  | env e => exact e.elim

/-- In every run on a mutex that is not recursive, and on a recursive one in every run in which no task asks for it
while another of its OS thread holds it, no two tasks hold the mutex. -/
theorem tasks_exclude {kind : MutexKind} {running : Os → Task}
    (h : (kind ≠ .recursive ∧ Reach (taskMutexStep os) (.init kind running) s) ∨
      Reach (taskMutexProperStep os) (.init kind running) s) : TasksExclude os s := by
  rcases h with ⟨hkind, h⟩ | h
  · have hboth := h.invariant (P := fun s => TaskMutexInv os s ∧ s.shared.mutex.kind ≠ .recursive)
      (fun s e s' hi hstep => by
        obtain ⟨hproper, hk⟩ := taskMutexStep_proper hi.2 hstep
        exact ⟨hi.1.step hproper, hk⟩)
      ⟨.init os kind running, hkind⟩
    exact hboth.1.exclude
  · exact (h.invariant (P := TaskMutexInv os) (fun _ _ _ hi hstep => hi.step hstep)
      (.init os kind running)).exclude

section runs

/-- A recursive mutex on two OS threads: a task takes it twice, and one of the other OS thread does not get it. -/
theorem tasks_exclude_two : ∃ s : TaskMutexSystem Bool (Fin 4), TasksExclude (fun t => decide (t.val < 2)) s ∧
    s.shared.held 0 = 2 ∧ s.loc 2 = .out (some .EBUSY) := by
  have hrun : (Transition.run (taskMutexProperStep fun t : Fin 4 => decide (t.val < 2))
      (.init .recursive fun T => if T then 0 else 2)
      [.thread 0 .lock, .thread 0 .run, .thread 0 .trylock, .thread 0 .run, .thread 0 (.turn 1), .thread 2 .trylock,
        .thread 2 .run]).map (fun s => (s.shared.held 0, s.loc 2)) = some (2, .out (some .EBUSY)) := by
    decide +kernel
  obtain ⟨s, hs, heq⟩ := Option.map_eq_some_iff.1 hrun
  simp only [Prod.mk.injEq] at heq
  exact ⟨s, tasks_exclude (Or.inr ⟨_, hs⟩), heq⟩

/-- A task takes a recursive mutex and awaits.  Another task of the OS thread takes it too. -/
theorem both_hold_recursive : ∃ s : TaskMutexSystem Unit (Fin 2),
    Reach (taskMutexStep fun _ => ()) (.init .recursive fun _ => 0) s ∧ 0 < s.shared.held 0 ∧
    0 < s.shared.held 1 := by
  have hrun : (Transition.run (taskMutexStep fun _ : Fin 2 => ()) (.init .recursive fun _ => 0)
      [.thread 0 .lock, .thread 0 .run, .thread 0 (.turn 1), .thread 1 .lock, .thread 1 .run]).map
        (fun s => (s.shared.held 0, s.shared.held 1)) = some (1, 1) := by
    decide +kernel
  obtain ⟨s, hs, heq⟩ := Option.map_eq_some_iff.1 hrun
  simp only [Prod.mk.injEq] at heq
  exact ⟨s, ⟨_, hs⟩, by omega, by omega⟩

end runs

end Sppc
