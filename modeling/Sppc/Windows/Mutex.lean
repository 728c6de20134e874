import Sppc.Calls
import Sppc.Windows.Wait
import Mathlib.Data.List.Basic

/-!
# The Windows mutex (`platform/windows.h`)

Any number of threads call `lock`, `clocklock`, `trylock` and `unlock` on one mutex.  A step is one access: a load or
a store of a field, an interlocked operation on `state`, the compare with which `WaitOnAddress` goes to sleep, its
return, or `WakeByAddressSingle`.
-/

namespace Sppc.Windows

open Threads

/-- `PTHREAD_MUTEX_NORMAL`, `_ERRORCHECK` and `_RECURSIVE`. -/
inductive MutexKind
  | normal | errorcheck | recursive
  deriving DecidableEq, Repr

/-- `_sppc_pthread_mutex_t`.  No thread has the id 0, so an owner of 0 is none. -/
structure Mutex (Tid : Type) where
  state : Int
  owner : Option Tid
  count : Nat
  kind : MutexKind

/-- The mutex, the threads asleep on its `state`, and the clocks.  `held` is how often each thread has acquired the
mutex more than released it, which the code does not store. -/
structure MutexState (Tid : Type) where
  mutex : Mutex Tid
  sleepers : List Tid
  now : Clocks
  held : Tid → Nat

/-- Where a thread is: outside, its last call having returned `r`, or before an access. -/
inductive MutexLoc
  | out (r : Ret)
  | relockOwner (lock : Option Until) | relockCount | relockStore (count : Nat)
  | lockCas (w : Until) | lockExchange (w : Until) | lockClock (w : Until) | lockCompare (w : Until)
    | lockAsleep (w : Until)
  | acquiredOwner | acquiredCount
  | tryOwner | tryCas
  | unlockOwner | unlockCount | unlockStore (count : Nat) | unlockClear | unlockExchange | unlockWake
  deriving DecidableEq, Repr

/-- The calls a thread outside may make; which sleeper a wake reaches; and `run` for everything else. -/
inductive MutexInput (Tid : Type)
  | lock | trylock | clocklock (w : Until) | unlock
  | wake (u : Option Tid)
  | run
  deriving DecidableEq, Repr

variable {Tid : Type} [DecidableEq Tid]

/-- `_sppc_pthread_mutex_init`. -/
def Mutex.init (kind : MutexKind) : Mutex Tid := ⟨0, none, 0, kind⟩

/-- The start of `_sppc_win_mutex_lock`: a normal mutex skips the question whether this thread holds it. -/
def Mutex.lock (m : Mutex Tid) (w : Until) : MutexLoc :=
  if m.kind = .normal then .lockCas w else .relockOwner (some w)

/-- The start of `_sppc_pthread_mutex_trylock`. -/
def Mutex.trylock (m : Mutex Tid) : MutexLoc :=
  if m.kind = .recursive then .tryOwner else .tryCas

/-- `_sppc_pthread_mutex_clocklock`, up to its first access. -/
def Mutex.clocklock (m : Mutex Tid) (w : Until) : MutexLoc :=
  match checkDeadline w with
  | some e => .out (.err e)
  | none => m.lock w

/-- The start of `_sppc_pthread_mutex_unlock`. -/
def Mutex.unlock (m : Mutex Tid) : MutexLoc :=
  if m.kind = .normal then .unlockClear else .unlockOwner

/-- `_sppc_win_mutex_relock` with the owner read: -1 sends a lock on, and is what a trylock would return. -/
def Mutex.relock (m : Mutex Tid) (t : Tid) : Option Until → MutexLoc
  | some w => if m.owner ≠ some t then .lockCas w else if m.kind = .errorcheck then
    .out (.err .EDEADLK) else .relockCount
  | none => if m.owner ≠ some t then .out .minusOne else if m.kind = .errorcheck then
    .out (.err .EDEADLK) else .relockCount

/-- The exchange that takes the mutex has succeeded. -/
def MutexState.acquire (h : MutexState Tid) (t : Tid) (state : Int) : MutexState Tid :=
  { h with mutex := { h.mutex with state := state }, held := Function.update h.held t (h.held t + 1) }

/-- The next access of the thread `t`. -/
def mutexAct (t : Tid) (i : MutexInput Tid) (h : MutexState Tid) : MutexLoc → Option (MutexState Tid × MutexLoc)
  | .out _ => match i with
    | .lock => some (h, h.mutex.lock .woken)
    | .trylock => some (h, h.mutex.trylock)
    | .clocklock w => some (h, h.mutex.clocklock w)
    | .unlock => some (h, h.mutex.unlock)
    | _ => none
  -- _sppc_win_mutex_relock
  | .relockOwner lock => some (h, h.mutex.relock t lock)
  | .relockCount =>
    some (h, if h.mutex.count = uintMax then .out (.err .EAGAIN) else .relockStore (h.mutex.count + 1))
  | .relockStore count =>
    some ({ h with mutex := { h.mutex with count := count }, held := Function.update h.held t (h.held t + 1) },
      .out .zero)
  -- _sppc_win_mutex_lock
  | .lockCas w => if h.mutex.state = 0 then some (h.acquire t 1, .acquiredOwner) else some (h, .lockExchange w)
  | .lockExchange w =>
    if h.mutex.state = 0 then some (h.acquire t 2, .acquiredOwner)
    else some ({ h with mutex := { h.mutex with state := 2 } }, .lockClock w)
  -- _sppc_win_wait
  | .lockClock w =>
    some (h, if waitMs (h.now.read w.clock) w.deadline = 0 then .out (.err .ETIMEDOUT) else .lockCompare w)
  | .lockCompare w =>
    if h.mutex.state = 2 then some ({ h with sleepers := h.sleepers ++ [t] }, .lockAsleep w)
    else some (h, .lockExchange w)
  -- woken where `t` is no sleeper any more, and otherwise timed out or spurious
  | .lockAsleep w => some ({ h with sleepers := h.sleepers.filter (· ≠ t) }, .lockExchange w)
  -- _sppc_win_mutex_acquired
  | .acquiredOwner => some ({ h with mutex := { h.mutex with owner := some t } }, .acquiredCount)
  | .acquiredCount => some ({ h with mutex := { h.mutex with count := 1 } }, .out .zero)
  -- _sppc_pthread_mutex_trylock
  | .tryOwner => some (h, if h.mutex.owner = some t then .relockOwner none else .tryCas)
  | .tryCas => if h.mutex.state = 0 then some (h.acquire t 1, .acquiredOwner) else some (h, .out (.err .EBUSY))
  -- _sppc_pthread_mutex_unlock
  | .unlockOwner =>
    some (h, if h.mutex.owner ≠ some t then .out (.err .EPERM)
      else if h.mutex.kind = .recursive then .unlockCount else .unlockClear)
  | .unlockCount => some (h, .unlockStore ((h.mutex.count + uintMax) % 2 ^ 32))
  | .unlockStore count =>
    let h' := { h with mutex := { h.mutex with count := count } }
    if count ≠ 0 then some ({ h' with held := Function.update h.held t (h.held t - 1) }, .out .zero)
    else some (h', .unlockClear)
  | .unlockClear => some ({ h with mutex := { h.mutex with owner := none } }, .unlockExchange)
  | .unlockExchange =>
    some ({ h with mutex := { h.mutex with state := 0 }, held := Function.update h.held t (h.held t - 1) },
      if h.mutex.state = 2 then .unlockWake else .out .zero)
  | .unlockWake => match i with
    | .wake none => if h.sleepers = [] then some (h, .out .zero) else none
    | .wake (some u) =>
      if u ∈ h.sleepers then some ({ h with sleepers := h.sleepers.filter (· ≠ u) }, .out .zero) else none
    | _ => none

abbrev MutexSystem (Tid : Type) := Threads.State Tid (MutexState Tid) MutexLoc

abbrev MutexEvent (Tid : Type) := Threads.Event Tid (MutexInput Tid) Clocks

def MutexSystem.init (kind : MutexKind) (now : Clocks) : MutexSystem Tid :=
  ⟨⟨.init kind, [], now, fun _ => 0⟩, fun _ => .out .zero⟩

/-- One step of a thread, or the clocks move on. -/
def mutexStep : MutexSystem Tid → MutexEvent Tid → Option (MutexSystem Tid) :=
  Threads.step mutexAct fun now h => some { h with now := now }

/-- The fields speak of the thread that holds the mutex. -/
def MutexState.Settled (h : MutexState Tid) (t : Tid) : Prop :=
  0 < h.held t → h.mutex.owner = some t ∧ h.mutex.count = h.held t ∧ h.held t ≤ uintMax

/-- What holds of a thread before its next access. -/
def MutexLoc.Ok (h : MutexState Tid) (t : Tid) : MutexLoc → Prop
  | .relockOwner _ | .unlockOwner => h.mutex.kind ≠ .normal ∧ h.Settled t
  | .tryOwner => h.mutex.kind = .recursive ∧ h.Settled t
  | .relockCount | .unlockCount => h.mutex.kind = .recursive ∧ 0 < h.held t ∧ h.Settled t
  | .relockStore count => h.mutex.kind = .recursive ∧ 0 < h.held t ∧ h.Settled t ∧ count = h.held t + 1 ∧
    count ≤ uintMax
  | .unlockStore count => h.mutex.kind = .recursive ∧ 0 < h.held t ∧ h.Settled t ∧ count + 1 = h.held t
  | .acquiredOwner => h.held t = 1
  | .acquiredCount => h.held t = 1 ∧ h.mutex.owner = some t
  | .unlockClear => h.held t = 1 ∧ h.mutex.owner = some t
  | .unlockExchange => h.held t = 1 ∧ h.mutex.owner ≠ some t
  | .unlockWake => h.held t = 0
  | _ => h.Settled t

/-- The thread is awake inside a lock, and its next access but the return from the wait is the exchange to 2. -/
def MutexLoc.Awake (h : MutexState Tid) (t : Tid) : MutexLoc → Prop
  | .lockExchange _ => True
  | .lockAsleep _ => t ∉ h.sleepers
  | _ => False

/-- The thread will see to it that the sleepers are woken. -/
def MutexLoc.Rouses (h : MutexState Tid) (t : Tid) (l : MutexLoc) : Prop := l.Awake h t ∨ l = .unlockWake

structure MutexInv (s : MutexSystem Tid) : Prop where
  loc : ∀ t, (s.loc t).Ok s.shared t
  owner : ∀ t, s.shared.mutex.owner = some t → 0 < s.shared.held t
  excl : ∀ t u, 0 < s.shared.held t → 0 < s.shared.held u → t = u
  free : s.shared.mutex.state = 0 → ∀ t, s.shared.held t = 0
  single : s.shared.mutex.kind ≠ .recursive → ∀ t, s.shared.held t ≤ 1
  asleep : ∀ t ∈ s.shared.sleepers, ∃ w, s.loc t = .lockAsleep w
  woken : s.shared.sleepers ≠ [] → s.shared.mutex.state = 2 ∨ ∃ t, (s.loc t).Rouses s.shared t

variable {s : MutexSystem Tid} {t u : Tid} {h h' : MutexState Tid} {l l' : MutexLoc}

omit [DecidableEq Tid] in
/-- What holds of a thread depends on the kind, on its own holds and, where it holds the mutex, on
the other fields. -/
theorem MutexLoc.Ok.congr (hl : l.Ok h t) (hkind : h'.mutex.kind = h.mutex.kind) (hheld : h'.held t = h.held t)
    (hfields : 0 < h.held t → h'.mutex.owner = h.mutex.owner ∧ h'.mutex.count = h.mutex.count) : l.Ok h' t := by
  have hsettled (hs : h.Settled t) : h'.Settled t := by
    intro hpos
    rw [hheld] at hpos ⊢
    rw [(hfields hpos).1, (hfields hpos).2]
    exact hs hpos
  cases l <;> simp only [MutexLoc.Ok, hkind, hheld] at hl ⊢
  all_goals grind

/-- The others keep what holds of them where a thread that does not hold the mutex leaves its fields alone. -/
theorem MutexInv.others (hi : MutexInv s) (hkind : h'.mutex.kind = s.shared.mutex.kind)
    (hheld : ∀ u ≠ t, h'.held u = s.shared.held u)
    (hfields : s.shared.held t = 0 → h'.mutex.owner = s.shared.mutex.owner ∧ h'.mutex.count = s.shared.mutex.count)
    (hl : l'.Ok h' t) : ∀ u, ((s.put t h' l').loc u).Ok h' u := by
  refine State.put_forall hl fun u hu => (hi.loc u).congr hkind (hheld u hu) fun hpos => hfields ?_
  by_contra h0
  exact hu (hi.excl u t hpos (by omega))

/-- Only a thread asleep or just woken stops sleeping, and only one that is to fall asleep starts. -/
private theorem MutexInv.sleeper (hi : MutexInv s) (hl : ∀ w, s.loc t ≠ .lockAsleep w) :
    ∀ u ∈ s.shared.sleepers, ∃ w, (s.put t h' l').loc u = .lockAsleep w := by
  intro u hu
  obtain ⟨w, hw⟩ := hi.asleep u hu
  refine ⟨w, ?_⟩
  rw [State.put_of_ne]
  · exact hw
  · rintro rfl
    exact hl w hw

/-- A thread that moves on without an access that changes anything. -/
theorem MutexInv.quiet (hi : MutexInv s) (hl : l'.Ok s.shared t) (hasleep : ∀ w, s.loc t ≠ .lockAsleep w)
    (hrouse : (s.loc t).Rouses s.shared t → s.shared.sleepers = [] ∨ l'.Rouses s.shared t) :
    MutexInv (s.put t s.shared l') where
  loc := hi.others rfl (fun _ _ => rfl) (fun _ => ⟨rfl, rfl⟩) hl
  owner := hi.owner
  excl := hi.excl
  free := hi.free
  single := hi.single
  asleep := hi.sleeper hasleep
  woken := by
    intro hne
    refine (hi.woken hne).imp_right fun hsome => ?_
    exact State.put_exists (P := fun u l => MutexLoc.Rouses s.shared u l) hsome fun h => (hrouse h).resolve_left hne

/-- A thread takes the free mutex.  Where it leaves a 1 it was none that the sleepers wait for. -/
theorem MutexInv.acquire (hi : MutexInv s) {state : Int} (hfree : s.shared.mutex.state = 0) (hstate : state ≠ 0)
    (hasleep : ∀ w, s.loc t ≠ .lockAsleep w) (hrouse : state = 2 ∨ ¬(s.loc t).Rouses s.shared t) :
    MutexInv (s.put t (s.shared.acquire t state) .acquiredOwner) where
  loc := by
    refine hi.others rfl (fun u hu => ?_) (fun _ => ⟨rfl, rfl⟩) ?_
    · exact Function.update_of_ne hu _ _
    · simp [MutexLoc.Ok, MutexState.acquire, hi.free hfree t]
  owner := by
    intro u hu
    exact absurd (hi.owner u hu) (by rw [hi.free hfree u]; omega)
  excl := by
    have hothers : ∀ u, 0 < (s.shared.acquire t state).held u → u = t := by
      intro u hu
      by_contra hut
      simp [MutexState.acquire, hut, hi.free hfree u] at hu
    intro u v hu hv
    exact (hothers u hu).trans (hothers v hv).symm
  free := fun h0 => absurd h0 hstate
  single := by
    intro hk u
    by_cases hut : u = t
    · subst hut
      simp [MutexState.acquire, hi.free hfree u]
    · simp [MutexState.acquire, Function.update_of_ne hut, hi.free hfree u]
  asleep := hi.sleeper hasleep
  woken := by
    intro hne
    rcases hrouse with h2 | hnot
    · exact Or.inl h2
    · rcases hi.woken hne with h2 | hsome
      · rw [hfree] at h2
        cases h2
      · refine Or.inr ?_
        exact State.put_exists (P := fun u l => MutexLoc.Rouses s.shared u l) hsome fun h => absurd h hnot

omit [DecidableEq Tid] in
private theorem MutexLoc.rouses_congr (hsleepers : h'.sleepers = h.sleepers) : l.Rouses h' t ↔ l.Rouses h t := by
  cases l <;> simp [MutexLoc.Rouses, MutexLoc.Awake, hsleepers]

/-- The thread that holds the mutex changes the fields that speak of it. -/
private theorem MutexInv.own (hi : MutexInv s) (hpos : 0 < s.shared.held t) (hheld : 0 < h'.held t)
    (hkind : h'.mutex.kind = s.shared.mutex.kind) (hstate : h'.mutex.state = s.shared.mutex.state)
    (hsleepers : h'.sleepers = s.shared.sleepers) (hothers : ∀ u ≠ t, h'.held u = s.shared.held u)
    (howner : ∀ u, h'.mutex.owner = some u → u = t) (hsingle : s.shared.mutex.kind ≠ .recursive → h'.held t ≤ 1)
    (hasleep : ∀ w, s.loc t ≠ .lockAsleep w) (hrouse : ¬(s.loc t).Rouses s.shared t) (hl : l'.Ok h' t) :
    MutexInv (s.put t h' l') := by
  have hnone : ∀ u ≠ t, h'.held u = 0 := by
    intro u hut
    rw [hothers u hut]
    by_contra h0
    exact hut (hi.excl u t (by omega) hpos)
  constructor
  case loc => exact hi.others hkind hothers (by omega) hl
  case owner =>
    intro u hu
    rw [howner u hu]
    exact hheld
  case excl =>
    have hholder : ∀ u, 0 < h'.held u → u = t := by
      intro u hu
      by_contra hut
      rw [hnone u hut] at hu
      omega
    intro u v hu hv
    exact (hholder u hu).trans (hholder v hv).symm
  case free =>
    intro h0
    have := hi.free (hstate.symm.trans h0) t
    omega
  case single =>
    intro hk u
    by_cases hut : u = t
    · subst hut
      exact hsingle (hkind ▸ hk)
    · rw [State.put_shared, hnone u hut]
      omega
  case asleep =>
    intro u hu
    exact hi.sleeper hasleep u (hsleepers ▸ hu)
  case woken =>
    intro hne
    rw [State.put_shared, hstate]
    refine (hi.woken (hsleepers ▸ hne)).imp_right fun hsome => ?_
    refine State.put_exists (P := fun u l => MutexLoc.Rouses h' u l) ?_ fun h => ?_
    · obtain ⟨u, hu⟩ := hsome
      exact ⟨u, (MutexLoc.rouses_congr hsleepers).2 hu⟩
    · exact absurd ((MutexLoc.rouses_congr hsleepers).1 h) hrouse

/-- The unlock that gives the mutex up.  Where it leaves sleepers it has read a 2 and is to wake one, or another
thread sees to it. -/
theorem MutexInv.release (hi : MutexInv s) (hloc : s.loc t = .unlockExchange) :
    MutexInv (s.put t { s.shared with
        mutex := { s.shared.mutex with state := 0 }, held := Function.update s.shared.held t (s.shared.held t - 1) }
      (if s.shared.mutex.state = 2 then .unlockWake else .out .zero)) := by
  have hok := hi.loc t
  rw [hloc] at hok
  obtain ⟨hone, howner⟩ : s.shared.held t = 1 ∧ s.shared.mutex.owner ≠ some t := hok
  have hnone : ∀ u, Function.update s.shared.held t (s.shared.held t - 1) u = 0 := by
    intro u
    by_cases hut : u = t
    · subst hut
      simp [hone]
    · rw [Function.update_of_ne hut]
      by_contra h0
      exact hut (hi.excl u t (by omega) (by omega))
  constructor
  case loc =>
    refine hi.others rfl (fun u hu => Function.update_of_ne hu _ _) (by omega) ?_
    have h0 := hnone t
    split
    · exact h0
    · intro hpos
      exact absurd hpos (by show ¬0 < Function.update s.shared.held t _ t; omega)
  case owner =>
    intro u hu
    have hpos := hi.owner u hu
    have hut := hi.excl u t hpos (by omega)
    exact absurd (hut ▸ hu) howner
  case excl =>
    intro u v hu
    have := hnone u
    exact absurd hu (by show ¬0 < Function.update s.shared.held t _ u; omega)
  case free => exact fun _ => hnone
  case single =>
    intro _ u
    show Function.update s.shared.held t _ u ≤ 1
    rw [hnone u]
    omega
  case asleep => exact hi.sleeper (by simp [hloc])
  case woken =>
    intro hne
    refine Or.inr ?_
    by_cases h2 : s.shared.mutex.state = 2
    · exact ⟨t, Or.inr (by simp [h2])⟩
    · have hsome := (hi.woken hne).resolve_left h2
      refine State.put_exists (P := fun u l => MutexLoc.Rouses s.shared u l) hsome fun h => ?_
      rw [hloc] at h
      simp [MutexLoc.Rouses, MutexLoc.Awake] at h

/-- A change of the sleepers, with the mutex marked as contended or another thread left to see to those asleep. -/
theorem MutexInv.sleepers (hi : MutexInv s) (state : Int) {sleepers : List Tid}
    (hstate : state = 0 → s.shared.mutex.state = 0)
    (hl : l'.Ok { s.shared with mutex := { s.shared.mutex with state := state }, sleepers := sleepers } t)
    (hasleep : ∀ u ∈ sleepers, ∃ w, (s.put t s.shared l').loc u = .lockAsleep w)
    (hwoken : sleepers ≠ [] → state = 2 ∨ ∃ u, ((s.put t s.shared l').loc u).Rouses
      { s.shared with mutex := { s.shared.mutex with state := state }, sleepers := sleepers } u) :
    MutexInv (s.put t { s.shared with mutex := { s.shared.mutex with state := state }, sleepers := sleepers } l')
      where
  loc := hi.others rfl (fun _ _ => rfl) (fun _ => ⟨rfl, rfl⟩) hl
  owner := hi.owner
  excl := hi.excl
  free := fun h0 => hi.free (hstate h0)
  single := hi.single
  asleep := hasleep
  woken := hwoken

/-- A thread unlocks a normal mutex only where it holds it: the code checks that of the other kinds. -/
def MutexSystem.Proper (s : MutexSystem Tid) : MutexEvent Tid → Prop
  | .thread t .unlock => s.shared.mutex.kind = .normal → 0 < s.shared.held t
  | _ => True

omit [DecidableEq Tid] in
theorem Mutex.lock_ok (hs : h.Settled t) (w : Until) : (h.mutex.lock w).Ok h t := by
  unfold Mutex.lock
  split
  · exact hs
  · exact ⟨by assumption, hs⟩

/-- A thread outside makes a call. -/
theorem MutexInv.call {r : Ret} {i : MutexInput Tid} (hi : MutexInv s) (hloc : s.loc t = .out r)
    (hproper : s.Proper (.thread t i)) (hact : mutexAct t i s.shared (.out r) = some (h', l')) :
    MutexInv (s.put t h' l') := by
  have hok := hi.loc t
  rw [hloc] at hok
  have hsettled : s.shared.Settled t := hok
  have hquiet {l' : MutexLoc} (hl : l'.Ok s.shared t) : MutexInv (s.put t s.shared l') :=
    hi.quiet hl (by simp [hloc]) (by simp [hloc, MutexLoc.Rouses, MutexLoc.Awake])
  cases i with
  | lock =>
    cases hact
    exact hquiet (Mutex.lock_ok hsettled _)
  | trylock =>
    cases hact
    refine hquiet ?_
    unfold Mutex.trylock
    split
    · exact ⟨by assumption, hsettled⟩
    · exact hsettled
  | clocklock w =>
    cases hact
    refine hquiet ?_
    unfold Mutex.clocklock
    split
    · exact hsettled
    · exact Mutex.lock_ok hsettled w
  | unlock =>
    cases hact
    refine hquiet ?_
    unfold Mutex.unlock
    split
    · rename_i hnormal
      have hpos := hproper hnormal
      have hle := hi.single (by rw [hnormal]; simp) t
      exact ⟨by omega, (hsettled hpos).1⟩
    · exact ⟨by assumption, hsettled⟩
  | wake u => cases hact
  | run => cases hact

/-- The returns of `_sppc_win_mutex_relock`. -/
theorem MutexInv.relock (hi : MutexInv s) {lock : Option Until} (hloc : s.loc t = .relockOwner lock) :
    MutexInv (s.put t s.shared (s.shared.mutex.relock t lock)) := by
  have hok := hi.loc t
  rw [hloc] at hok
  obtain ⟨hkind, hsettled⟩ : s.shared.mutex.kind ≠ .normal ∧ s.shared.Settled t := hok
  refine hi.quiet ?_ (by simp [hloc]) (by simp [hloc, MutexLoc.Rouses, MutexLoc.Awake])
  have hrec (ho : s.shared.mutex.owner = some t) (he : s.shared.mutex.kind ≠ .errorcheck) :
      MutexLoc.relockCount.Ok s.shared t := by
    refine ⟨?_, hi.owner t ho, hsettled⟩
    cases hk : s.shared.mutex.kind
    · exact absurd hk hkind
    · exact absurd hk he
    · rfl
  cases lock with
  | none =>
    simp only [Mutex.relock]
    split
    · exact hsettled
    · split
      · exact hsettled
      · exact hrec (by simp_all) (by assumption)
  | some w =>
    simp only [Mutex.relock]
    split
    · exact hsettled
    · split
      · exact hsettled
      · exact hrec (by simp_all) (by assumption)

/-- The wait on `state` and its end. -/
theorem MutexInv.wait (hi : MutexInv s) {w : Until}
    (hloc : s.loc t = .lockExchange w ∨ s.loc t = .lockCompare w ∨ s.loc t = .lockAsleep w)
    {i : MutexInput Tid} (hact : mutexAct t i s.shared (s.loc t) = some (h', l')) : MutexInv (s.put t h' l') := by
  have hok := hi.loc t
  rcases hloc with hloc | hloc | hloc
  all_goals
    rw [hloc] at hact hok
    have hsettled : s.shared.Settled t := hok
    simp only [mutexAct] at hact
  · split at hact
    · rename_i hfree
      cases hact
      exact hi.acquire hfree (by omega) (by simp [hloc]) (Or.inl rfl)
    · rename_i hbusy
      cases hact
      exact hi.sleepers 2 (by omega) hsettled (hi.sleeper (by simp [hloc])) fun _ => Or.inl rfl
  · split at hact
    · rename_i h2
      cases hact
      refine hi.sleepers s.shared.mutex.state id hsettled ?_ fun _ => Or.inl h2
      intro u hu
      rcases List.mem_append.1 hu with hu | hu
      · exact hi.sleeper (by simp [hloc]) u hu
      · rw [List.mem_singleton.1 hu]
        exact ⟨w, State.put_self⟩
    · cases hact
      exact hi.quiet hsettled (by simp [hloc]) fun _ => Or.inr (Or.inl trivial)
  · cases hact
    refine hi.sleepers s.shared.mutex.state id hsettled ?_ fun hne => Or.inr ⟨t, ?_⟩
    · intro u hu
      obtain ⟨hu, hut⟩ := List.mem_filter.1 hu
      obtain ⟨w', hw'⟩ := hi.asleep u hu
      exact ⟨w', by rw [State.put_of_ne (by simpa using hut)]; exact hw'⟩
    · rw [State.put_self]
      exact Or.inl trivial

/-- The wake that an unlock owes: whoever it reaches is awake. -/
theorem MutexInv.wake (hi : MutexInv s) (hloc : s.loc t = .unlockWake) {i : MutexInput Tid}
    (hact : mutexAct t i s.shared .unlockWake = some (h', l')) : MutexInv (s.put t h' l') := by
  have hok := hi.loc t
  rw [hloc] at hok
  have hzero : s.shared.held t = 0 := hok
  have hsettled : s.shared.Settled t := fun hpos => by omega
  cases i with
  | wake u =>
    cases u with
    | none =>
      simp only [mutexAct] at hact
      split at hact <;> cases hact
      rename_i hnil
      exact hi.quiet hsettled (by simp [hloc]) fun _ => Or.inl hnil
    | some u =>
      simp only [mutexAct] at hact
      split at hact <;> cases hact
      rename_i hu
      obtain ⟨w, hw⟩ := hi.asleep u hu
      have hut : u ≠ t := by
        rintro rfl
        rw [hloc] at hw
        cases hw
      refine hi.sleepers s.shared.mutex.state id hsettled ?_ fun _ => Or.inr ⟨u, ?_⟩
      · intro v hv
        exact hi.sleeper (by simp [hloc]) v (List.mem_filter.1 hv).1
      · rw [State.put_of_ne hut, hw]
        exact Or.inl (by simp [MutexLoc.Awake])
  | _ => cases hact

theorem MutexInv.act {i : MutexInput Tid} (hi : MutexInv s) (hproper : s.Proper (.thread t i))
    (hact : mutexAct t i s.shared (s.loc t) = some (h', l')) : MutexInv (s.put t h' l') := by
  have hok := hi.loc t
  cases hloc : s.loc t
  case out r => exact hi.call hloc hproper (hloc ▸ hact)
  case lockExchange w => exact hi.wait (Or.inl hloc) hact
  case lockCompare w => exact hi.wait (Or.inr (Or.inl hloc)) hact
  case lockAsleep w => exact hi.wait (Or.inr (Or.inr hloc)) hact
  case unlockWake => exact hi.wake hloc (hloc ▸ hact)
  all_goals
    rw [hloc] at hact hok
    have hasleep : ∀ w, s.loc t ≠ .lockAsleep w := by simp [hloc]
    have hrouse : ¬(s.loc t).Rouses s.shared t := by simp [hloc, MutexLoc.Rouses, MutexLoc.Awake]
    have hquiet {l' : MutexLoc} (hl : l'.Ok s.shared t) : MutexInv (s.put t s.shared l') :=
      hi.quiet hl hasleep fun h => absurd h hrouse
  case relockOwner lock =>
    cases hact
    exact hi.relock hloc
  case relockCount =>
    cases hact
    obtain ⟨hkind, hpos, hsettled⟩ := hok
    obtain ⟨-, hcount, hle⟩ := hsettled hpos
    refine hquiet ?_
    split
    · exact hsettled
    · exact ⟨hkind, hpos, hsettled, by omega, by omega⟩
  case relockStore count =>
    cases hact
    obtain ⟨hkind, hpos, hsettled, hcount, hle⟩ := hok
    refine hi.own hpos (by simp) rfl rfl rfl (fun u hu => Function.update_of_ne hu _ _) ?_ ?_ hasleep hrouse ?_
    · intro u hu
      exact hi.excl u t (hi.owner u hu) hpos
    · exact fun hk => absurd hkind hk
    · intro _
      simp only [Function.update_self]
      exact ⟨(hsettled hpos).1, hcount, by omega⟩
  case lockCas w =>
    simp only [mutexAct] at hact
    split at hact
    · rename_i hfree
      cases hact
      exact hi.acquire hfree (by omega) hasleep (Or.inr hrouse)
    · cases hact
      exact hquiet hok
  case lockClock w =>
    cases hact
    refine hquiet ?_
    split
    · exact hok
    · exact hok
  case acquiredOwner =>
    cases hact
    have hone : s.shared.held t = 1 := hok
    refine hi.own (by omega) (by show 0 < s.shared.held t; omega) rfl rfl rfl (fun _ _ => rfl) ?_ ?_ hasleep hrouse ?_
    · intro u hu
      cases hu
      rfl
    · exact fun _ => by show s.shared.held t ≤ 1; omega
    · exact ⟨hone, rfl⟩
  case acquiredCount =>
    cases hact
    obtain ⟨hone, howner⟩ := hok
    refine hi.own (by omega) (by show 0 < s.shared.held t; omega) rfl rfl rfl (fun _ _ => rfl) ?_ ?_ hasleep hrouse ?_
    · intro u hu
      rw [howner] at hu
      cases hu
      rfl
    · exact fun _ => by show s.shared.held t ≤ 1; omega
    · exact fun _ => ⟨howner, hone.symm, by show s.shared.held t ≤ uintMax; rw [hone, uintMax]; omega⟩
  case tryOwner =>
    cases hact
    obtain ⟨hkind, hsettled⟩ := hok
    refine hquiet ?_
    split
    · exact ⟨by rw [hkind]; simp, hsettled⟩
    · exact hsettled
  case tryCas =>
    simp only [mutexAct] at hact
    split at hact
    · rename_i hfree
      cases hact
      exact hi.acquire hfree (by omega) hasleep (Or.inr hrouse)
    · cases hact
      exact hquiet hok
  case unlockOwner =>
    cases hact
    obtain ⟨hkind, hsettled⟩ := hok
    refine hquiet ?_
    split
    · exact hsettled
    · rename_i howner
      have howner : s.shared.mutex.owner = some t := by simpa using howner
      have hpos := hi.owner t howner
      split
      · exact ⟨by assumption, hpos, hsettled⟩
      · have hle := hi.single (by assumption) t
        exact ⟨by omega, howner⟩
  case unlockCount =>
    cases hact
    obtain ⟨hkind, hpos, hsettled⟩ := hok
    obtain ⟨-, hcount, hle⟩ := hsettled hpos
    refine hquiet ⟨hkind, hpos, hsettled, ?_⟩
    rw [uintMax] at hle ⊢
    omega
  case unlockStore count =>
    obtain ⟨hkind, hpos, hsettled, hcount⟩ := hok
    obtain ⟨howner, -, hle⟩ := hsettled hpos
    have hlast : ∀ u, s.shared.mutex.owner = some u → u = t := fun u hu => hi.excl u t (hi.owner u hu) hpos
    simp only [mutexAct] at hact
    split at hact
    · rename_i hne
      cases hact
      refine hi.own hpos ?_ rfl rfl rfl (fun u hu => Function.update_of_ne hu _ _) hlast ?_ hasleep hrouse ?_
      · simp only [Function.update_self]
        omega
      · exact fun hk => absurd hkind hk
      · intro _
        simp only [Function.update_self]
        exact ⟨howner, by omega, by omega⟩
    · rename_i hzero
      cases hact
      refine hi.own hpos hpos rfl rfl rfl (fun _ _ => rfl) hlast ?_ hasleep hrouse ⟨?_, howner⟩
      · exact fun hk => absurd hkind hk
      · show s.shared.held t = 1
        omega
  case unlockClear =>
    cases hact
    obtain ⟨hone, howner⟩ := hok
    refine hi.own (by omega) (by show 0 < s.shared.held t; omega) rfl rfl rfl (fun _ _ => rfl) ?_ ?_ hasleep hrouse ?_
    · intro u hu
      cases hu
    · exact fun _ => by show s.shared.held t ≤ 1; omega
    · exact ⟨hone, by simp⟩
  case unlockExchange =>
    cases hact
    exact hi.release hloc

/-- An access changes no holds but those of the thread that makes it, and never the kind. -/
theorem mutexAct_frame {i : MutexInput Tid} (hact : mutexAct t i h l = some (h', l')) :
    h'.mutex.kind = h.mutex.kind ∧ ∀ u ≠ t, h'.held u = h.held u := by
  cases l
  case out r =>
    cases i <;> cases hact <;> exact ⟨rfl, fun _ _ => rfl⟩
  case unlockWake =>
    cases i with
    | wake u =>
      cases u <;> simp only [mutexAct] at hact <;> split at hact <;> cases hact <;> exact ⟨rfl, fun _ _ => rfl⟩
    | _ => cases hact
  all_goals simp only [mutexAct, MutexState.acquire] at hact
  all_goals try split at hact
  all_goals
    cases hact
    exact ⟨rfl, fun u hu => by first | rfl | exact Function.update_of_ne hu _ _⟩

instance MutexSystem.decidableProper (s : MutexSystem Tid) (e : MutexEvent Tid) : Decidable (s.Proper e) :=
  match e with
  | .thread t .unlock => inferInstanceAs (Decidable (s.shared.mutex.kind = .normal → 0 < s.shared.held t))
  | .thread _ .lock | .thread _ .trylock | .thread _ (.clocklock _) | .thread _ (.wake _) | .thread _ .run | .env _ =>
    isTrue trivial

/-- A step in which no thread unlocks a normal mutex that it does not hold. -/
def mutexProperStep (s : MutexSystem Tid) (e : MutexEvent Tid) : Option (MutexSystem Tid) :=
  if s.Proper e then mutexStep s e else none

omit [DecidableEq Tid] in
theorem MutexInv.init (kind : MutexKind) (now : Clocks) : MutexInv (MutexSystem.init kind now : MutexSystem Tid) where
  loc := by
    intro t hpos
    exact absurd hpos (Nat.lt_irrefl 0)
  owner := by
    intro t ht
    cases ht
  excl := by
    intro t u ht
    exact absurd ht (Nat.lt_irrefl 0)
  free := fun _ _ => rfl
  single := fun _ _ => Nat.zero_le 1
  asleep := by
    intro t ht
    cases ht
  woken := fun hne => absurd rfl hne

omit [DecidableEq Tid] in
/-- The clocks move on. -/
theorem MutexInv.tick (hi : MutexInv s) (now : Clocks) :
    MutexInv { s with shared := { s.shared with now := now } } where
  loc := fun t => (hi.loc t).congr rfl rfl fun _ => ⟨rfl, rfl⟩
  owner := hi.owner
  excl := hi.excl
  free := hi.free
  single := hi.single
  asleep := hi.asleep
  woken := fun hne => (hi.woken hne).imp_right fun ⟨t, ht⟩ => ⟨t, (MutexLoc.rouses_congr rfl).2 ht⟩

theorem MutexInv.step {e : MutexEvent Tid} {s' : MutexSystem Tid} (hi : MutexInv s)
    (hstep : mutexProperStep s e = some s') : MutexInv s' := by
  unfold mutexProperStep at hstep
  split at hstep
  · rename_i hproper
    cases e with
    | thread t i =>
      obtain ⟨h', l', hact, rfl⟩ := step_thread.1 hstep
      exact hi.act hproper hact
    | env now =>
      cases hstep
      exact hi.tick now
  · cases hstep

/-! ### What a call returns -/

/-- The thread is outside. -/
def MutexLoc.Out (l : MutexLoc) : Prop := ∃ r, l = .out r

/-- How often a thread holds the mutex in a lock or a trylock that it began with `n` holds. -/
def MutexLoc.InLock (n k : Nat) : MutexLoc → Prop
  | .out .zero | .acquiredOwner | .acquiredCount => k = n + 1
  | .unlockOwner | .unlockCount | .unlockStore _ | .unlockClear | .unlockExchange | .unlockWake => False
  | _ => k = n

/-- How often a thread holds the mutex in an unlock that it began with `n` holds. -/
def MutexLoc.InUnlock (n k : Nat) : MutexLoc → Prop
  | .out .zero | .unlockWake => k + 1 = n
  | .out _ | .unlockOwner | .unlockCount | .unlockStore _ | .unlockClear | .unlockExchange => k = n
  | _ => False

/-- A lock, a trylock or a clocklock. -/
def MutexInput.Locks (i : MutexInput Tid) : Prop := i = .lock ∨ i = .trylock ∨ ∃ w, i = .clocklock w

private theorem locking_begins {i : MutexInput Tid} {r : Ret} (hi : i.Locks)
    (hact : mutexAct t i h (.out r) = some (h', l')) : l'.InLock (h.held t) (h'.held t) := by
  rcases hi with rfl | rfl | ⟨w, rfl⟩
  · cases hact
    unfold Mutex.lock
    split <;> rfl
  · cases hact
    unfold Mutex.trylock
    split <;> rfl
  · cases hact
    unfold Mutex.clocklock Mutex.lock
    split
    · rfl
    · split <;> rfl

/-- The access that raises the holds is the last but those that store what the thread holds. -/
private theorem locking_act {i : MutexInput Tid} {n : Nat} (hl : l.InLock n (h.held t)) (hgoing : ¬l.Out)
    (hact : mutexAct t i h l = some (h', l')) : l'.InLock n (h'.held t) := by
  have hraised (state : Int) (hl : h.held t = n) : (h.acquire t state).held t = n + 1 := by
    show Function.update h.held t (h.held t + 1) t = n + 1
    rw [Function.update_self, hl]
  cases l
  case out r => exact absurd ⟨r, rfl⟩ hgoing
  case relockOwner lock =>
    cases hact
    cases lock
    all_goals
      simp only [Mutex.relock]
      split
      · exact hl
      · split <;> exact hl
  case relockStore count =>
    cases hact
    show Function.update h.held t (h.held t + 1) t = n + 1
    rw [Function.update_self, show h.held t = n from hl]
  case lockCas w | tryCas | lockExchange w =>
    simp only [mutexAct] at hact
    split at hact <;> cases hact
    · exact hraised _ hl
    · exact hl
  case lockCompare w =>
    simp only [mutexAct] at hact
    split at hact <;> cases hact <;> exact hl
  case relockCount | lockClock w | tryOwner =>
    cases hact
    split <;> exact hl
  case lockAsleep w | acquiredOwner | acquiredCount =>
    cases hact
    exact hl
  all_goals exact hl.elim

private theorem unlocking_act {i : MutexInput Tid} {n : Nat} (hok : l.Ok h t) (hl : l.InUnlock n (h.held t))
    (hgoing : ¬l.Out) (hact : mutexAct t i h l = some (h', l')) : l'.InUnlock n (h'.held t) := by
  cases l
  case out r => exact absurd ⟨r, rfl⟩ hgoing
  case unlockOwner =>
    cases hact
    split
    · exact hl
    · split <;> exact hl
  case unlockCount | unlockClear =>
    cases hact
    exact hl
  case unlockStore count =>
    have hpos : 0 < h.held t := hok.2.1
    have hheld : h.held t = n := hl
    simp only [mutexAct] at hact
    split at hact <;> cases hact
    · show Function.update h.held t (h.held t - 1) t + 1 = n
      rw [Function.update_self]
      omega
    · exact hl
  case unlockExchange =>
    have hone : h.held t = 1 := hok.1
    have hheld : h.held t = n := hl
    have hlowered : Function.update h.held t (h.held t - 1) t + 1 = n := by
      rw [Function.update_self]
      omega
    cases hact
    split <;> exact hlowered
  case unlockWake =>
    cases i with
    | wake u =>
      cases u <;> simp only [mutexAct] at hact <;> split at hact <;> cases hact
      · exact hl
      · exact hl
    | _ => cases hact
  all_goals exact hl.elim

/-- A call of one thread, while it lasts. -/
private theorem MutexInv.inCall {i : MutexInput Tid} {s' : MutexSystem Tid} {P : Nat → MutexLoc → Prop}
    (hi : MutexInv s) (hcall : InCall mutexProperStep MutexLoc.Out t i s s')
    (hbegins : ∀ h' l', mutexAct t i s.shared (s.loc t) = some (h', l') → P (h'.held t) l')
    (hacts : ∀ j (h h' : MutexState Tid) l l', l.Ok h t → P (h.held t) l → ¬l.Out → mutexAct t j h l = some (h', l') →
      P (h'.held t) l') : P (s'.shared.held t) (s'.loc t) := by
  have hstep : ∀ (s : MutexSystem Tid) e s', mutexProperStep s e = some s' → mutexStep s e = some s' := by
    intro s e s' h
    unfold mutexProperStep at h
    split at h
    · exact h
    · cases h
  refine (InCall.rule (P := fun h l => P (h.held t) l) hcall hstep (fun _ _ _ hi hs => MutexInv.step hi hs) hi ?_ ?_
    ?_ ?_).2
  · intro s' hs'
    obtain ⟨h', l', hact, rfl⟩ := step_thread.1 (hstep _ _ _ hs')
    rw [State.put_shared, State.put_self]
    exact hbegins h' l' hact
  · intro s j h' l' hi hP hgoing hact
    exact hacts j _ h' _ l' (hi.loc t) hP hgoing hact
  · intro s u j h' l' _ hut hP hact
    rw [(mutexAct_frame hact).2 t (Ne.symm hut)]
    exact hP
  · intro s e h _ hP henv
    cases henv
    exact hP

/-- A call that returns 0 has raised or lowered the holds of its thread by one, and any other has left them. -/
structure MutexReturns (s : MutexSystem Tid) (t : Tid) : Prop where
  locks : ∀ i s' r, MutexInput.Locks i → InCall mutexProperStep MutexLoc.Out t i s s' → s'.loc t = .out r →
    s'.shared.held t = if r = .zero then s.shared.held t + 1 else s.shared.held t
  unlocks : ∀ s' r, InCall mutexProperStep MutexLoc.Out t .unlock s s' → s'.loc t = .out r →
    if r = .zero then s'.shared.held t + 1 = s.shared.held t else s'.shared.held t = s.shared.held t

theorem MutexInv.returns (hi : MutexInv s) (hout : (s.loc t).Out) : MutexReturns s t := by
  obtain ⟨r₀, hout⟩ := hout
  constructor
  · intro i s' r hlocks hcall hloc
    have hheld := hi.inCall (P := fun k l => l.InLock (s.shared.held t) k) hcall
      (fun h' l' hact => locking_begins hlocks (hout ▸ hact)) fun j h h' l l' _ hl hgoing hact =>
      locking_act hl hgoing hact
    rw [hloc] at hheld
    cases r <;> exact hheld
  · intro s' r hcall hloc
    have hheld := hi.inCall (P := fun k l => l.InUnlock (s.shared.held t) k) hcall ?_
      fun j h h' l l' hok hl hgoing hact => unlocking_act hok hl hgoing hact
    · rw [hloc] at hheld
      cases r <;> exact hheld
    · intro h' l' hact
      rw [hout] at hact
      cases hact
      unfold Mutex.unlock
      split <;> rfl

/-- What the mutex guarantees in every state of a run. -/
structure MutexOk (s : MutexSystem Tid) : Prop where
  excl : ∀ t u, 0 < s.shared.held t → 0 < s.shared.held u → t = u
  last : s.shared.mutex.state = 0 → ∀ t, s.shared.held t = 0
  exact : ∀ t r, s.loc t = .out r → 0 < s.shared.held t →
    s.shared.mutex.owner = some t ∧ s.shared.mutex.count = s.shared.held t
  eperm : ∀ t, s.loc t = .unlockOwner → s.shared.held t = 0 →
    ∀ i, mutexAct t i s.shared (s.loc t) = some (s.shared, .out (.err .EPERM))
  roused : s.shared.mutex.state = 0 → s.shared.sleepers ≠ [] →
    ∃ t, (s.loc t).Awake s.shared t ∨ s.loc t = .unlockWake
  exchanges : ∀ t i h' l', (s.loc t).Awake s.shared t → mutexAct t i s.shared (s.loc t) = some (h', l') →
    l'.Awake h' t ∨ h'.mutex.state = 2
  returns : ∀ t, (s.loc t).Out → MutexReturns s t

private theorem MutexInv.mutexOk (hi : MutexInv s) : MutexOk s where
  excl := hi.excl
  last := hi.free
  exact := by
    intro t r hloc hpos
    have hok := hi.loc t
    rw [hloc] at hok
    obtain ⟨howner, hcount, -⟩ := hok hpos
    exact ⟨howner, hcount⟩
  eperm := by
    intro t hloc hzero i
    have howner : s.shared.mutex.owner ≠ some t := by
      intro ho
      have := hi.owner t ho
      omega
    rw [hloc, mutexAct, if_pos howner]
  roused := by
    intro h0 hne
    rcases hi.woken hne with h2 | hsome
    · rw [h0] at h2
      cases h2
    · exact hsome
  exchanges := by
    intro t i h' l' hawake hact
    cases hloc : s.loc t
    case lockExchange w =>
      rw [hloc, mutexAct] at hact
      split at hact <;> cases hact
      · exact Or.inr rfl
      · exact Or.inr rfl
    case lockAsleep w =>
      rw [hloc, mutexAct] at hact
      cases hact
      exact Or.inl trivial
    all_goals
      rw [hloc] at hawake
      exact hawake.elim
  returns := fun t hout => hi.returns hout

theorem mutex_ok {kind : MutexKind} {now : Clocks} (h : Transition.Reach mutexProperStep (.init kind now) s) :
    MutexOk s :=
  (h.invariant (P := MutexInv) (fun _ _ _ hi hstep => hi.step hstep) (.init kind now)).mutexOk

/-- A thread makes a call and takes the next `n` accesses. -/
def calls (t : Tid) (i : MutexInput Tid) (n : Nat) : List (MutexEvent Tid) :=
  .thread t i :: List.replicate n (.thread t .run)

theorem mutex_ok_recursive :
    ∃ s : MutexSystem Nat, (s.shared.mutex.count = 2 ∧ s.shared.sleepers = [1]) ∧ MutexOk s := by
  have hrun : (Transition.run mutexProperStep (.init .recursive .zero)
      (calls 0 .lock 4 ++ calls 0 .lock 3 ++ calls 1 .lock 5)).map
        (fun s : MutexSystem Nat => (s.shared.mutex.count, s.shared.sleepers)) = some (2, [1]) := by
    decide +kernel
  obtain ⟨s, hs, heq⟩ := Option.map_eq_some_iff.1 hrun
  exact ⟨s, Prod.mk.inj heq, mutex_ok ⟨_, hs⟩⟩

/-- A normal mutex that another thread unlocks is acquired twice; and between the exchange and the wake of an unlock
the mutex is free while the only caller of lock is asleep. -/
theorem mutex_unroused :
    (∃ s : MutexSystem Nat, Transition.Reach mutexStep (.init .normal .zero) s ∧
      0 < s.shared.held 0 ∧ 0 < s.shared.held 2) ∧
    ∃ s : MutexSystem (Fin 2), Transition.Reach mutexProperStep (.init .normal .zero) s ∧ s.shared.mutex.state = 0 ∧
      s.shared.sleepers = [1] ∧ s.loc 0 = .unlockWake ∧ ∀ t, ¬(s.loc t).Awake s.shared t := by
  constructor
  · have hrun : (Transition.run mutexStep (.init .normal .zero)
        (calls 0 .lock 3 ++ calls 1 .unlock 2 ++ calls 2 .lock 3)).map
          (fun s : MutexSystem Nat => (s.shared.held 0, s.shared.held 2)) = some (1, 1) := by
      decide +kernel
    obtain ⟨s, hs, heq⟩ := Option.map_eq_some_iff.1 hrun
    simp only [Prod.mk.injEq] at heq
    exact ⟨s, ⟨_, hs⟩, by omega, by omega⟩
  · have hrun : (Transition.run mutexProperStep (.init .normal .zero)
        (calls 0 .lock 3 ++ calls 1 .lock 4 ++ calls 0 .unlock 2)).map
          (fun s : MutexSystem (Fin 2) => (s.shared.mutex.state, s.shared.sleepers, s.loc 0, s.loc 1)) =
          some (0, [1], .unlockWake, .lockAsleep .woken) := by
      decide +kernel
    obtain ⟨s, hs, heq⟩ := Option.map_eq_some_iff.1 hrun
    simp only [Prod.mk.injEq] at heq
    obtain ⟨h0, hsleep, hloc0, hloc1⟩ := heq
    refine ⟨s, ⟨_, hs⟩, h0, hsleep, hloc0, Fin.forall_fin_two.2 ⟨?_, ?_⟩⟩
    · rw [hloc0]
      exact id
    · rw [hloc1]
      exact fun hawake => hawake (by rw [hsleep]; exact List.mem_singleton.2 rfl)

end Sppc.Windows
