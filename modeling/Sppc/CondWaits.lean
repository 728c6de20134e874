import Sppc.RunOrder
import Sppc.TaskMutex

/-!
# Condition waits of a task (`async/sched.h`)

The runtime of one OS thread, one of the mutexes that its tasks take, and the other OS threads that take it.  The
platform answers as POSIX says; in its condition wait the thread sleeps, without the mutex.  A task in
`_gt_cond_wait_until` is followed from the call to its return, through every switch in between.
-/

namespace Sppc

open Transition WaitingLine
open Windows (Errno)

variable {Io Os : Type} {R R' : GtRuntime Io} {t : Nat} {f : Resume}

/-! ### A task that is switched away -/

/-- The task `t` is READY, and goes on at `f`. -/
structure IsAt (R : GtRuntime Io) (t : Nat) (f : Resume) : Prop where
  ready : IsReady R t
  other : R.current ≠ t
  sp : (R.slots t).sp = some f

/-- A spawn leaves the other tasks at their places. -/
private theorem gtSpawn_places {q : List Nat} (hs : Spawnable R q) (body : SppcClosure) (o : SpawnAnswer)
    (ht : t < R.nslots) (hst : (R.slots t).state ≠ .free) :
    (gtSpawn R body o).1.current = R.current ∧ ((gtSpawn R body o).1.slots t).sp = (R.slots t).sp := by
  rcases gtSpawn_cases hs body o with ⟨R', heq, hundone⟩ | ⟨a, R₁, R₂, new, size, stack, ustack, htaken, honly, heq⟩
  · rw [heq]
    exact ⟨hundone.unmoved.current, by rw [hundone.unmoved.slots t ht hst]⟩
  · have hne : t ≠ a := by
      rintro rfl
      rcases hs.vacant htaken with hle | hfree
      · omega
      · exact hst hfree
    have hslots : R₂.slots t = R.slots t := by
      rw [honly.eq]
      exact htaken.others t hne
    have hcur : R₂.current = R.current := by
      rw [honly.eq, htaken.eq]
    rw [heq]
    unfold gtSpawnReady
    dsimp only [GtRuntime.note]
    rw [gtRqPush_eq]
    dsimp only [GtRuntime.modify]
    rw [Function.update_of_ne hne, hslots]
    exact ⟨hcur, rfl⟩

section

variable [IoBackend Io] [LawfulIoBackend Io] {s s' : Machine Io} {e : Event Io} {v v' : Roster}

private theorem sppcAsync_places (h : Live s v) (htab : Table s.rt) (body : SppcClosure) (o : SpawnAnswer)
    (ht : IsReady s.rt t) : (sppcAsync s.rt body o).1.current = s.rt.current ∧
      ((sppcAsync s.rt body o).1.slots t).sp = (s.rt.slots t).sp := by
  obtain ⟨given, hgiven, -⟩ := giveClosure_eq s.rt body
  have hplaces := gtSpawn_places (t := t) ((h.spawnable htab).setLog (given ++ s.rt.log)) body o ht.1
    (by rw [ht.2]; decide)
  unfold sppcAsync
  rw [hgiven]
  generalize gtSpawn { s.rt with log := given ++ s.rt.log } body o = x at hplaces
  rcases x with ⟨R', err | handle⟩
  · dsimp only
    rw [discard_eq]
    exact hplaces
  · exact hplaces

/-- A task that is switched away stays at its place, or goes on there. -/
private theorem IsAt.step (hat : IsAt s.rt t f) (hf : f ≠ .finished) (h : Live s v) (htab : Table s.rt)
    (hstep : step s e = some s') (h' : Live s' v') (hacc : AllAccepted s'.rt.log) :
    IsAt s'.rt t f ∨ ∃ R', R'.current = t ∧ s' = gtResume R' f := by
  have hexit : s'.ctl ≠ .exited := by
    intro hexit
    have hctl := h'.ctl
    rw [hexit] at hctl
    exact hctl
  have hplace : (s'.rt.current ≠ t ∧ (s'.rt.slots t).sp = some f) ∨ ∃ R', R'.current = t ∧ s' = gtResume R' f := by
    by_cases hasync : ∃ body o, e = .async body o
    case neg =>
      exact (step_leads (fun body o he => hasync ⟨body, o, he⟩) hstep hexit).other hat.other.symm hat.sp hf
    case pos =>
      left
      obtain ⟨body, o, rfl⟩ := hasync
      obtain ⟨hcur, hsp⟩ := sppcAsync_places h htab body o hat.ready
      rw [step] at hstep
      split at hstep
      case isFalse => cases hstep
      split at hstep
      all_goals
        rename_i heq
        cases hstep
        rw [heq] at hcur hsp
        exact ⟨by rw [show (toCode _ _ : Machine Io).rt.current = _ from hcur]; exact hat.other, hsp.trans hat.sp⟩
  rcases hplace with ⟨hother, hsp⟩ | hgo
  · left
    refine ⟨?_, hother, hsp⟩
    obtain ⟨l, d, m, hq⟩ := h.turned htab hstep h' hacc
    rw [h'.isReady_iff, hq.turn.line]
    have hmem : t ∈ v.ready ++ l := List.mem_append_left l (h.isReady_iff.1 hat.ready)
    cases d with
    | none => exact List.mem_append_left m hmem
    | some u =>
      have hdis := hq.dispatched
      have hu : IsRunning s'.rt u := by
        apply (mem_dispatched (s := s)).1 _ |>.2
        rw [hdis]
        exact List.mem_singleton_self u
      have hcur := h'.models.lists.running u (Or.inl (h'.isRunning_role.1 hu))
      have htu : t ≠ u := by
        rintro rfl
        exact hother hcur.symm
      exact List.mem_append_left m ((List.mem_erase_of_ne htu).2 hmem)
  · exact Or.inr hgo

end

/-! ### The running task gives way -/

/-- The running task goes on at `f`, or it is switched away there. -/
inductive Gives (R : GtRuntime Io) (f : Resume) (s : Machine Io) : Prop
  | goes {R' : GtRuntime Io} (hcur : R'.current = R.current) (heq : s = gtResume R' f)
  | leaves (hcur : s.rt.current ≠ R.current) (hsp : (s.rt.slots R.current).sp = some f) (hland : s.ctl.landing)

private theorem gtContextSwitch_left (R : GtRuntime Io) {self : Nat} (f : Resume) (next : Nat)
    (hne : R.current ≠ self) : ((gtContextSwitch R self f next).rt.slots self).sp = some f := by
  rw [(gtContextSwitch_internal R self f next).sp self hne.symm]
  unfold GtRuntime.modify
  dsimp only
  rw [Function.update_self]

private theorem gtGiveWay_gives (R : GtRuntime Io) (f : Resume) (t : Nat) : Gives R f (gtGiveWay R f t) := by
  have hpush := (Internal.refl R).rqPush R.current
  unfold gtGiveWay gtSwitchTo
  dsimp only
  by_cases hself : t = (gtRqPush R R.current).current
  · rw [if_pos hself]
    exact Gives.goes (by exact hpush.current) rfl
  · rw [if_neg hself]
    refine Gives.leaves ?_ ?_ (gtContextSwitch_landing _ _ _ _)
    · rw [(gtContextSwitch_internal _ _ f t).current]
      rw [hpush.current] at hself
      exact hself
    · rw [hpush.current] at hself ⊢
      exact gtContextSwitch_left _ f t hself

private theorem gtLockReleased_gives (R : GtRuntime Io) (lock : Nat) (f : Resume) :
    Gives R f (gtLockReleased R lock f) := by
  unfold gtLockReleased
  split
  · exact Gives.goes rfl rfl
  · rename_i t R' heq
    have hcur := (gtLockReleasedFrom_internal heq).current
    cases gtGiveWay_gives R' f t with
    | goes hcur' heq' => exact Gives.goes (hcur'.trans hcur) heq'
    | leaves hcur' hsp hland =>
      rw [hcur] at hcur' hsp
      exact Gives.leaves hcur' hsp hland

private theorem gtStep_gives (R : GtRuntime Io) (f : Resume) (poll : Ctl) :
    gtStep R f poll = ⟨R, poll, 0⟩ ∨ Gives R f (gtStep R f poll) := by
  unfold gtStep
  split
  · rename_i next R' heq
    right
    have hcur := (gtRqPop_internal heq).current
    cases gtGiveWay_gives R' f next with
    | goes hcur' heq' => exact Gives.goes (hcur'.trans hcur) heq'
    | leaves hcur' hsp hland =>
      rw [hcur] at hcur' hsp
      exact Gives.leaves hcur' hsp hland
  · rename_i heq
    rw [gtRqPop_none heq]
    exact Or.inl rfl

section

variable [IoBackend Io] [LawfulIoBackend Io] {s s' : Machine Io} {e : Event Io} {v v' : Roster}

/-- A task that gives way, which does not block, goes on or is at its place on the run queue. -/
private theorem Gives.isAt (hg : Gives R f s') (hcur : R.current = s.rt.current) (hpick : ∀ f, s.ctl ≠ .pick f)
    (h : Live s v) (htab : Table s.rt) (hstep : step s e = some s') (h' : Live s' v') (hacc : AllAccepted s'.rt.log) :
    IsAt s'.rt s.rt.current f ∨ ∃ R', R'.current = s.rt.current ∧ s' = gtResume R' f := by
  rw [← hcur]
  cases hg with
  | goes hcur' heq => exact Or.inr ⟨_, hcur', heq⟩
  | leaves hne hsp hland =>
    refine Or.inl ⟨?_, hne, hsp⟩
    obtain ⟨l, d, m, hq⟩ := h.turned htab hstep h' hacc
    have hlet : d ≠ none := by
      have hdis := hq.dispatched
      rintro rfl
      have hmem : s'.rt.current ∈ dispatched s s' := by
        rw [mem_dispatched, h'.isRunning_role, h.isRunning_role]
        refine ⟨?_, (h'.landed_runs hland).role⟩
        intro hrun
        rw [hcur] at hne
        exact hne (h.models.lists.running _ (Or.inl hrun))
      rw [hdis] at hmem
      cases hmem
    rw [h'.isReady_iff, hq.turn.line, hq.ran hlet hpick, hcur]
    exact List.mem_append_right _ (List.mem_singleton_self _)

end

/-! ### The platform -/

/-- The error's number. -/
def errnoCode : Errno → Int
  | .EPERM => 1
  | .EAGAIN => 11
  | .EBUSY => ebusy
  | .EINVAL => einval
  | .EDEADLK => edeadlk
  | .ETIMEDOUT => etimedout

/-- The runtime of one OS thread, a mutex, how often each task has acquired it more than released it, and whether the
thread sleeps in the platform's condition wait, without the mutex. -/
structure CondWaitSystem (Io Os : Type) where
  m : Machine Io
  mutex : PthreadMutex Os
  held : Nat → Nat
  asleep : Bool

/-- What happens next: a step of the runtime, while the clock reads `now`; `sppc_pthread_mutex_trylock`; the thread
falls asleep in the platform's condition wait; or another OS thread acquires or releases the mutex. -/
inductive CondWaitEvent (Io Os : Type) [IoBackend Io]
  | task (e : Event Io) (now : Timespec)
  | trylock (err : Int)
  | sleep
  | other (U : Os) (acquires : Bool)

/-- The step of the runtime, if it is one. -/
def CondWaitEvent.task? [IoBackend Io] : CondWaitEvent Io Os → Option (Event Io)
  | .task e _ => some e
  | _ => none

/-- The running task has acquired the mutex. -/
def CondWaitSystem.acquire (x : CondWaitSystem Io Os) (m : PthreadMutex Os) : CondWaitSystem Io Os :=
  { x with mutex := m, held := Function.update x.held x.m.rt.current (x.held x.m.rt.current + 1) }

/-- The running task has released the mutex. -/
def CondWaitSystem.release (x : CondWaitSystem Io Os) (m : PthreadMutex Os) : CondWaitSystem Io Os :=
  { x with mutex := m, held := Function.update x.held x.m.rt.current (x.held x.m.rt.current - 1) }

section

variable [DecidableEq Os] (T : Os) (lock : Nat)

/-- The platform answers `err` to a try. -/
def CondWaitSystem.tried (x : CondWaitSystem Io Os) (err : Int) : Option (CondWaitSystem Io Os) :=
  match x.mutex.trylock T with
  | .ok m => if err = 0 then some (x.acquire m) else none
  | .error e => if err = errnoCode e then some x else none

/-- The platform answers `err` to the blocking or the timed call. -/
def CondWaitSystem.locked (x : CondWaitSystem Io Os) (deadline : Option Timespec) (err : Int) (now : Timespec) :
    Option (CondWaitSystem Io Os) :=
  match x.mutex.lock T with
  | some (.ok m) => if err = 0 then some (x.acquire m) else none
  | some (.error e) => if err = errnoCode e then some x else none
  | none => if err = etimedout ∧ gtPassedIfAny now deadline then some x else none

/-- The platform answers `err` to an unlock. -/
def CondWaitSystem.unlocked (x : CondWaitSystem Io Os) (err : Int) : Option (CondWaitSystem Io Os) :=
  match x.mutex.unlock T with
  | .ok m => if err = 0 then some (x.release m) else none
  | .error e => if err = errnoCode e then some x else none

/-- The platform's condition wait returns `err`: it has failed and the thread has not slept, or the thread wakes, has
the mutex again, and the deadline has passed if it says so. -/
def CondWaitSystem.woken (x : CondWaitSystem Io Os) (k : CondWait) (err : Int) (now : Timespec) :
    Option (CondWaitSystem Io Os) :=
  if x.asleep then
    match x.mutex.lock T with
    | some (.ok m) =>
      if err = 0 ∨ err = etimedout ∧ gtPassedIfAny now k.deadline then some { x.acquire m with asleep := false }
        else none
    | _ => none
  else if err ≠ 0 ∧ err ≠ etimedout then some x
  else none

variable [IoBackend Io]

/-- What the platform answers in a step of the runtime; the calls on other locks are left open. -/
def CondWaitSystem.answers (x : CondWaitSystem Io Os) (e : Event Io) (now : Timespec) :
    Option (CondWaitSystem Io Os) :=
  match e, x.m.ctl with
  | .tried err _, .lockTry c => if c.lock = lock then x.tried T err else some x
  | .answered err, .lockCall c => if c.lock = lock then x.locked T c.deadline err now else some x
  | .answered err, .condCall k => if k.mutex = lock then x.woken T k err now else some x
  | .unlock l err, _ => if l = lock then x.unlocked T err else some x
  | .condWait k err, _ =>
    if k.mutex = lock ∧ gtHasOtherWork (gtIoPollNow x.m.rt) then x.unlocked T err else some x
  | _, _ => some x

/-- The clock reads `now` wherever the step reads it. -/
def Event.readsAt (now : Timespec) : Event Io → Bool
  | .tried _ n => n = now
  | .condGo n => n = now
  | _ => true

/-- The transitions. -/
def condWaitStep (x : CondWaitSystem Io Os) : CondWaitEvent Io Os → Option (CondWaitSystem Io Os)
  | .task e now =>
    if e.readsAt now then
      match step x.m e with
      | some m => (x.answers T lock e now).map fun y => { y with m := m }
      | none => none
    else none
  | .trylock err => if x.m.ctl = .code then x.tried T err else none
  | .sleep =>
    match x.m.ctl with
    | .condCall k =>
      if k.mutex = lock ∧ x.asleep = false then
        match x.mutex.unlock T with
        | .ok m => some { x.release m with asleep := true }
        | .error _ => none
      else none
    | _ => none
  | .other U acquires =>
    if U = T then none
    else
      match if acquires then x.mutex.trylock U else x.mutex.unlock U with
      | .ok m => some { x with mutex := m }
      | .error _ => none

/-! ### In the call -/

/-- The running task is in `_gt_cond_wait_until`. -/
def Ctl.inCondWait (k : CondWait) : Ctl → Bool
  | .condCall k' | .condReleased k' | .condPoll k' | .condLocked k' => k' = k
  | .lockTry c | .lockWait c | .lockCall c => c.use = .cond k
  | _ => false

/-- The place is in `_gt_cond_wait_until`. -/
def Resume.inCondWait (k : CondWait) : Resume → Bool
  | .released (some k') | .condStepped k' => k' = k
  | .stepped c => c.use = .cond k
  | _ => false

/-- The task `t` is in `_gt_cond_wait_until`. -/
def InCondWait (s : Machine Io) (t : Nat) (k : CondWait) : Prop :=
  (s.rt.current = t ∧ s.ctl.inCondWait k) ∨ ∃ f, IsAt s.rt t f ∧ f.inCondWait k

/-- The thread that had the mutex as in `x₀` has unlocked it. -/
def Freed (x₀ x : CondWaitSystem Io Os) : Prop := x₀.mutex.owner = some T → x₀.mutex.unlock T = .ok x.mutex

/-- What the call of the task `t`, which had the mutex as in `x₀`, has returned, while the clock reads `now`; in
between the mutex has been `freed`. -/
structure CondReturned (x₀ : CondWaitSystem Io Os) (t : Nat) (k : CondWait) (freed : Prop) (now : Timespec)
    (x : CondWaitSystem Io Os) : Prop where
  current : x.m.rt.current = t
  ctl : x.m.ctl = .code
  holds : x.m.ret = 0 ∨ x.m.ret = etimedout → x.mutex.owner = some T ∧ x.held t = x₀.held t ∧ freed
  timedOut : x.m.ret = etimedout → gtPassedIfAny now k.deadline
  fails : x.m.ret ≠ 0 → x.m.ret ≠ etimedout →
    (x.held t = x₀.held t ∧ (x₀.mutex.owner = some T → x.mutex = x₀.mutex)) ∨ (x.held t + 1 = x₀.held t ∧ freed)

/-- The running task `t` in the call: how the mutex is. -/
def CondHere (x₀ : CondWaitSystem Io Os) (t : Nat) (k : CondWait) (freed : Prop) (x : CondWaitSystem Io Os) : Ctl →
    Prop
  | .condCall k' =>
    k' = k ∧ if x.asleep then x.held t + 1 = x₀.held t ∧ freed
      else x.held t = x₀.held t ∧ (x₀.mutex.owner = some T → x.mutex = x₀.mutex)
  | .condReleased k' | .condPoll k' => k' = k ∧ x.held t + 1 = x₀.held t ∧ freed
  | .condLocked k' => k' = k ∧ x.held t = x₀.held t ∧ x.mutex.owner = some T ∧ freed
  | .lockTry c | .lockWait c | .lockCall c =>
    c.use = .cond k ∧ c.lock = lock ∧ c.deadline = none ∧ x.held t + 1 = x₀.held t ∧ freed
  | _ => False

/-- The task `t` in the call, running or switched away. -/
inductive CondPhase (x₀ : CondWaitSystem Io Os) (t : Nat) (k : CondWait) (freed : Prop)
    (x : CondWaitSystem Io Os) : Prop
  | here (hcur : x.m.rt.current = t) (h : CondHere T lock x₀ t k freed x x.m.ctl)
  | away {f : Resume} (hat : IsAt x.m.rt t f) (hf : f.inCondWait k)
      (hc : ∀ c, f = .stepped c → c.lock = lock ∧ c.deadline = none) (hheld : x.held t + 1 = x₀.held t)
      (hfreed : freed)

end

section

variable [DecidableEq Os] [IoBackend Io] {T : Os} {lock : Nat} {x₀ x x' y : CondWaitSystem Io Os} {k : CondWait}
  {freed freed' : Prop} {now : Timespec} {e : Event Io} {m : PthreadMutex Os} {err : Int}

omit [DecidableEq Os] [IoBackend Io] in
private theorem CondHere.mono (h : CondHere T lock x₀ t k freed x x.m.ctl) (hmono : freed → freed') :
    CondHere T lock x₀ t k freed' x x.m.ctl := by
  unfold CondHere at h ⊢
  split at h
  all_goals grind

omit [DecidableEq Os] [IoBackend Io] in
private theorem CondPhase.mono (h : CondPhase T lock x₀ t k freed x) (hmono : freed → freed') :
    CondPhase T lock x₀ t k freed' x := by
  cases h with
  | here hcur h => exact CondPhase.here hcur (h.mono hmono)
  | away hat hf hc hheld hfreed => exact CondPhase.away hat hf hc hheld (hmono hfreed)

omit [DecidableEq Os] [IoBackend Io] in
private theorem CondReturned.mono (h : CondReturned T x₀ t k freed now x) (hmono : freed → freed') :
    CondReturned T x₀ t k freed' now x := by
  refine ⟨h.current, h.ctl, fun hret => ?_, h.timedOut, fun hzero htimed => ?_⟩
  · obtain ⟨howner, hheld, hfreed⟩ := h.holds hret
    exact ⟨howner, hheld, hmono hfreed⟩
  · exact (h.fails hzero htimed).imp_right fun hrest => ⟨hrest.1, hmono hrest.2⟩

omit [DecidableEq Os] [IoBackend Io] in
private theorem CondPhase.inCondWait (h : CondPhase T lock x₀ t k freed x) : InCondWait x.m t k := by
  cases h with
  | here hcur h =>
    refine Or.inl ⟨hcur, ?_⟩
    unfold CondHere at h
    unfold Ctl.inCondWait
    split at h
    all_goals first | exact decide_eq_true h.1 | exact h.elim
  | away hat hf hc hheld hfreed => exact Or.inr ⟨_, hat, hf⟩

/-! ### The platform's answers -/

omit [IoBackend Io] [DecidableEq Os] in
private theorem acquire_held_self (x : CondWaitSystem Io Os) (m : PthreadMutex Os) (h : x.m.rt.current = t) :
    (x.acquire m).held t = x.held t + 1 := by
  rw [← h]
  exact Function.update_self ..

omit [IoBackend Io] [DecidableEq Os] in
private theorem release_held_self (x : CondWaitSystem Io Os) (m : PthreadMutex Os) (h : x.m.rt.current = t) :
    (x.release m).held t = x.held t - 1 := by
  rw [← h]
  exact Function.update_self ..

private theorem PthreadMutex.trylock_owner {U : Os} {m m' : PthreadMutex Os} (h : m.trylock U = .ok m') :
    m'.owner = some U := by
  rcases PthreadMutex.trylock_ok h with ⟨-, rfl⟩ | ⟨-, howner, rfl⟩
  · rfl
  · exact howner

private theorem PthreadMutex.trylock_error {U : Os} {m : PthreadMutex Os} {e : Errno} (h : m.trylock U = .error e) :
    e = .EAGAIN ∨ e = .EBUSY := by
  unfold trylock at h
  split at h
  · cases h
  · split at h
    · split at h <;> cases h
      exact Or.inl rfl
    · cases h
      exact Or.inr rfl

private theorem PthreadMutex.lock_error {U : Os} {m : PthreadMutex Os} {e : Errno} (h : m.lock U = some (.error e)) :
    e = .EAGAIN ∨ e = .EDEADLK := by
  unfold lock at h
  split at h
  · split at h <;> cases h
    exact Or.inr rfl
  · rename_i hno
    have htry := Option.some.inj h
    rcases PthreadMutex.trylock_error htry with rfl | rfl
    · exact Or.inl rfl
    · exact absurd htry (hno)

omit [IoBackend Io] [DecidableEq Os] in
private theorem acquire_held_other (x : CondWaitSystem Io Os) (m : PthreadMutex Os) (h : x.m.rt.current ≠ t) :
    (x.acquire m).held t = x.held t :=
  Function.update_of_ne h.symm ..

omit [IoBackend Io] [DecidableEq Os] in
private theorem release_held_other (x : CondWaitSystem Io Os) (m : PthreadMutex Os) (h : x.m.rt.current ≠ t) :
    (x.release m).held t = x.held t :=
  Function.update_of_ne h.symm ..

/-- What a call of the platform may do. -/
inductive Answered (x : CondWaitSystem Io Os) : CondWaitSystem Io Os → Prop
  | fails : Answered x x
  | acquires (m : PthreadMutex Os) (asleep : Bool) : Answered x { x.acquire m with asleep := asleep }
  | releases (m : PthreadMutex Os) : Answered x (x.release m)

omit [IoBackend Io] in
private theorem CondWaitSystem.tried_cases (h : x.tried T err = some y) :
    (∃ m, x.mutex.trylock T = .ok m ∧ err = 0 ∧ y = x.acquire m) ∨
      ∃ e, x.mutex.trylock T = .error e ∧ err = errnoCode e ∧ y = x := by
  unfold tried at h
  split at h
  · split at h <;> cases h
    exact Or.inl ⟨_, ‹_›, ‹_›, rfl⟩
  · split at h <;> cases h
    exact Or.inr ⟨_, ‹_›, ‹_›, rfl⟩

omit [IoBackend Io] in
private theorem CondWaitSystem.unlocked_cases (h : x.unlocked T err = some y) :
    (∃ m, x.mutex.unlock T = .ok m ∧ err = 0 ∧ y = x.release m) ∨
      ∃ e, x.mutex.unlock T = .error e ∧ err = errnoCode e ∧ y = x := by
  unfold unlocked at h
  split at h
  · split at h <;> cases h
    exact Or.inl ⟨_, ‹_›, ‹_›, rfl⟩
  · split at h <;> cases h
    exact Or.inr ⟨_, ‹_›, ‹_›, rfl⟩

omit [IoBackend Io] in
private theorem CondWaitSystem.locked_cases {deadline : Option Timespec} (h : x.locked T deadline err now = some y) :
    (∃ m, x.mutex.lock T = some (.ok m) ∧ err = 0 ∧ y = x.acquire m) ∨
      (∃ e, x.mutex.lock T = some (.error e) ∧ err = errnoCode e ∧ y = x) ∨
      (gtPassedIfAny now deadline ∧ err = etimedout ∧ y = x) := by
  unfold locked at h
  split at h
  · split at h <;> cases h
    exact Or.inl ⟨_, ‹_›, ‹_›, rfl⟩
  · split at h <;> cases h
    exact Or.inr (Or.inl ⟨_, ‹_›, ‹_›, rfl⟩)
  · split at h <;> cases h
    rename_i hpassed
    exact Or.inr (Or.inr ⟨hpassed.2, hpassed.1, rfl⟩)

omit [IoBackend Io] in
private theorem CondWaitSystem.woken_cases (h : x.woken T k err now = some y) :
    (∃ m, x.asleep ∧ x.mutex.lock T = some (.ok m) ∧ (err = 0 ∨ err = etimedout ∧ gtPassedIfAny now k.deadline) ∧
      y = { x.acquire m with asleep := false }) ∨
      (x.asleep = false ∧ err ≠ 0 ∧ err ≠ etimedout ∧ y = x) := by
  unfold woken at h
  split at h
  case isTrue hasleep =>
    split at h
    case h_1 m hm =>
      split at h <;> cases h
      exact Or.inl ⟨m, hasleep, hm, ‹_›, rfl⟩
    case h_2 => cases h
  case isFalse hawake =>
    split at h <;> cases h
    rename_i herr
    exact Or.inr ⟨by simpa using hawake, herr.1, herr.2, rfl⟩

/-- An answer is one call of the platform at most. -/
private theorem CondWaitSystem.answers_answered (h : x.answers T lock e now = some y) : Answered x y := by
  unfold answers at h
  split at h
  case h_1 =>
    split at h
    · rcases tried_cases h with ⟨m, -, -, rfl⟩ | ⟨e, -, -, rfl⟩
      · exact .acquires m x.asleep
      · exact .fails
    · cases h
      exact .fails
  case h_2 =>
    split at h
    · rcases locked_cases h with ⟨m, -, -, rfl⟩ | ⟨e, -, -, rfl⟩ | ⟨-, -, rfl⟩
      · exact .acquires m x.asleep
      · exact .fails
      · exact .fails
    · cases h
      exact .fails
  case h_3 =>
    split at h
    · rcases woken_cases h with ⟨m, -, -, -, rfl⟩ | ⟨-, -, -, rfl⟩
      · exact .acquires m false
      · exact .fails
    · cases h
      exact .fails
  case h_4 =>
    split at h
    · rcases unlocked_cases h with ⟨m, -, -, rfl⟩ | ⟨e, -, -, rfl⟩
      · exact .releases m
      · exact .fails
    · cases h
      exact .fails
  case h_5 =>
    split at h
    · rcases unlocked_cases h with ⟨m, -, -, rfl⟩ | ⟨e, -, -, rfl⟩
      · exact .releases m
      · exact .fails
    · cases h
      exact .fails
  case h_6 =>
    cases h
    exact .fails

omit [IoBackend Io] [DecidableEq Os] in
/-- A call changes nothing of what other tasks hold. -/
private theorem Answered.held (h : Answered x y) (ht : x.m.rt.current ≠ t) : y.held t = x.held t := by
  cases h with
  | fails => rfl
  | acquires m asleep => exact acquire_held_other x m ht
  | releases m => exact release_held_other x m ht

/-! ### One step of the call -/

/-- The task `t` is still in the call, or it has returned. -/
def CondNext (T : Os) (lock : Nat) (x₀ : CondWaitSystem Io Os) (t : Nat) (k : CondWait) (freed : Prop)
    (now : Timespec) (x : CondWaitSystem Io Os) : Prop :=
  CondPhase T lock x₀ t k freed x ∨ CondReturned T x₀ t k freed now x

omit [DecidableEq Os] [IoBackend Io] in
/-- Where a task that was switched away in the call goes on, the mutex released, it is in the call. -/
private theorem gtResume_phase {R' : GtRuntime Io} (hcur : R'.current = t) (hf : f.inCondWait k)
    (hc : ∀ c, f = .stepped c → c.lock = lock ∧ c.deadline = none) (hk : k.mutex = lock)
    (hheld : y.held t + 1 = x₀.held t) (hfreed : freed) :
    CondPhase T lock x₀ t k freed { y with m := gtResume R' f } := by
  cases f
  case stepped c =>
    obtain ⟨hlock, hnone⟩ := hc c rfl
    exact CondPhase.here hcur ⟨of_decide_eq_true hf, hlock, hnone, hheld, hfreed⟩
  case released k' =>
    cases k'
    case none => cases hf
    case some k' =>
      exact CondPhase.here hcur ⟨of_decide_eq_true hf, hheld, hfreed⟩
  case condStepped k' =>
    obtain rfl : k' = k := of_decide_eq_true hf
    exact CondPhase.here hcur ⟨rfl, hk, rfl, hheld, hfreed⟩
  all_goals cases hf

/-- What the runtime does next in a condition wait. -/
inductive StepOfCond (s : Machine Io) : Ctl → Event Io → Machine Io → Prop
  | kernel (ctl : Ctl) (ke : IoBackend.Env Io) (io : Io) :
    StepOfCond s ctl (.kernel ke) { s with rt := { s.rt with io := io } }
  | condCall (k : CondWait) (err : Int) : StepOfCond s (.condCall k) (.answered err) (toCode s.rt err)
  | condReleased (k : CondWait) (now : Timespec) :
    StepOfCond s (.condReleased k) (.condGo now) (gtCondReleased s.rt k)
  | condPoll (k : CondWait) :
    StepOfCond s (.condPoll k) .poll (gtCondRelock (gtIoPoll s.rt (stepWait k.clock k.deadline)) k)
  | condLocked (k : CondWait) (now : Timespec) :
    StepOfCond s (.condLocked k) (.condGo now) (toCode s.rt (if gtPassedIfAny now k.deadline then etimedout else 0))
  | lockTry (c : LockCall) (err : Int) (now : Timespec) :
    StepOfCond s (.lockTry c) (.tried err now) (gtLockTurn s.rt c err now)
  | lockWait (c : LockCall) :
    StepOfCond s (.lockWait c) .poll ⟨gtIoPoll s.rt (stepWait c.clock c.deadline), .lockTry c, 0⟩
  | lockCall (c : LockCall) (err : Int) : StepOfCond s (.lockCall c) (.answered err) (gtLockUntilEnd s.rt c err)

private theorem step_condWait {s s' : Machine Io} (hctl : s.ctl.inCondWait k) (hstep : step s e = some s') :
    StepOfCond s s.ctl e s' := by
  have hcode : s.ctl ≠ .code := by
    intro hcode
    rw [hcode] at hctl
    cases hctl
  cases e
  case kernel ke =>
    rw [step] at hstep
    split at hstep
    · cases hstep
    · split at hstep <;> cases hstep
      exact .kernel s.ctl ke _
  all_goals
    rw [step] at hstep
    first
      | rw [if_neg hcode] at hstep
        cases hstep
      | rw [if_neg fun h => hcode h.1] at hstep
        cases hstep
      | split at hstep
        all_goals
          first
            | cases hstep
              done
            | rename_i heq
              rw [heq] at hctl ⊢
              cases hstep
              first
                | constructor
                | cases hctl

omit [DecidableEq Os] [IoBackend Io] in
private theorem CondHere.inCondWait {ctl : Ctl} (h : CondHere T lock x₀ t k freed x ctl) : ctl.inCondWait k := by
  unfold CondHere at h
  unfold Ctl.inCondWait
  split at h
  all_goals first | exact decide_eq_true h.1 | exact h.elim

omit [DecidableEq Os] [IoBackend Io] in
/-- The end of the relocking, which answered `err`. -/
private theorem CondPhase.relocked {R : GtRuntime Io} {c : LockCall} (hcur : R.current = t) (huse : c.use = .cond k)
    (hy : y.held t + 1 = x₀.held t ∧ err ≠ 0 ∧ err ≠ etimedout ∨
      y.held t = x₀.held t ∧ y.mutex.owner = some T ∧ err = 0) (hfreed : freed) :
    CondNext T lock x₀ t k freed now { y with m := gtLockUntilEnd R c err } := by
  have hR : (if c.queued then gtLockWaitRemove R R.current else R).current = t := by
    split
    · exact (gtLockWaitRemove_internal R R.current).current.trans hcur
    · exact hcur
  unfold gtLockUntilEnd
  dsimp only
  generalize (if c.queued then gtLockWaitRemove R R.current else R) = R' at hR
  rw [huse]
  dsimp only
  rcases hy with ⟨hheld, herr, htimed⟩ | ⟨hheld, howner, rfl⟩
  · rw [if_pos herr]
    refine Or.inr ⟨hR, rfl, ?_, fun h => absurd h htimed, fun _ _ => Or.inr ⟨hheld, hfreed⟩⟩
    rintro (h | h)
    · exact absurd h herr
    · exact absurd h htimed
  · rw [if_neg (not_not.2 rfl)]
    exact Or.inl (CondPhase.here hR ⟨rfl, hheld, howner, hfreed⟩)

variable [LawfulIoBackend Io] {v v' : Roster} {m' : Machine Io}

omit [DecidableEq Os] in
/-- A task that has given way in the call, the mutex released, is in the call. -/
private theorem Gives.phase {R : GtRuntime Io} (hg : Gives R f m') (hR : R.current = x.m.rt.current)
    (hcur : x.m.rt.current = t) (hpick : ∀ f, x.m.ctl ≠ .pick f) (hl : Live x.m v) (htab : Table x.m.rt)
    (hstep : step x.m e = some m') (h' : Live m' v') (hacc : AllAccepted m'.rt.log) (hf : f.inCondWait k)
    (hc : ∀ c, f = .stepped c → c.lock = lock ∧ c.deadline = none) (hk : k.mutex = lock)
    (hheld : y.held t + 1 = x₀.held t) (hfreed : freed) : CondPhase T lock x₀ t k freed { y with m := m' } := by
  rcases hg.isAt hR hpick hl htab hstep h' hacc with hat | ⟨R', hR', rfl⟩
  · rw [hcur] at hat
    exact CondPhase.away hat hf hc hheld hfreed
  · exact gtResume_phase (hR'.trans hcur) hf hc hk hheld hfreed

/-- A try of the relocking. -/
private theorem CondNext.tried {c : LockCall} (hctl : x.m.ctl = .lockTry c) (huse : c.use = .cond k)
    (hlock : c.lock = lock) (hnone : c.deadline = none) (hheld : x.held t + 1 = x₀.held t) (hfreed : freed)
    (hcur : x.m.rt.current = t) (hk : k.mutex = lock) (hl : Live x.m v) (htab : Table x.m.rt)
    (hstep : step x.m (.tried err now) = some m') (h' : Live m' v') (hacc : AllAccepted m'.rt.log)
    (hans : x.answers T lock (.tried err now) now = some y) :
    CondNext T lock x₀ t k freed now { y with m := m' } := by
  have hm' : gtLockTurn x.m.rt c err now = m' := by
    rw [step, hctl] at hstep
    exact Option.some.inj hstep
  have hpick : ∀ f, x.m.ctl ≠ .pick f := by
    intro f hf
    rw [hctl] at hf
    cases hf
  unfold CondWaitSystem.answers at hans
  rw [hctl] at hans
  dsimp only at hans
  rw [if_pos hlock] at hans
  unfold gtLockTurn at hm'
  rcases CondWaitSystem.tried_cases hans with ⟨mx, hmx, rfl, rfl⟩ | ⟨e, he, rfl, hy⟩
  · rw [if_pos (by decide)] at hm'
    rw [← hm']
    refine CondPhase.relocked hcur huse (Or.inr ⟨?_, PthreadMutex.trylock_owner hmx, rfl⟩) hfreed
    rw [acquire_held_self x mx hcur]
    exact hheld
  · obtain rfl : x = y := hy.symm
    rcases PthreadMutex.trylock_error he with rfl | rfl
    · rw [if_pos (by decide)] at hm'
      rw [← hm']
      exact CondPhase.relocked hcur huse (Or.inl ⟨hheld, by decide, by decide⟩) hfreed
    · rw [if_neg (by decide)] at hm'
      dsimp only at hm'
      have hcur' : (gtIoPollNow x.m.rt).current = x.m.rt.current := (gtIoPollNow_frame x.m.rt).current
      split at hm'
      · rw [← hm']
        exact Or.inl (CondPhase.here (hcur'.trans hcur) ⟨huse, hlock, hnone, hheld, hfreed⟩)
      · have hpassed : ¬gtPassedIfAny now c.deadline := by
          rw [hnone]
          exact Bool.false_ne_true
        rw [if_neg hpassed] at hm'
        have hq : (if c.queued then gtIoPollNow x.m.rt
            else (gtLockWaitAdd { gtIoPollNow x.m.rt with
              lockWaiter := Function.update (gtIoPollNow x.m.rt).lockWaiter (gtIoPollNow x.m.rt).current
                { (gtIoPollNow x.m.rt).lockWaiter (gtIoPollNow x.m.rt).current with
                  task := some (gtIoPollNow x.m.rt).current } } (gtIoPollNow x.m.rt).current).note
                    (.queued (gtIoPollNow x.m.rt).current)).current = x.m.rt.current := by
          split
          · exact hcur'
          · exact (gtLockWaitAdd_internal _ _).current.trans hcur'
        generalize (if c.queued then gtIoPollNow x.m.rt else _) = R at hq hm'
        rcases gtStep_gives R (.stepped { c with queued := true }) (.lockWait { c with queued := true }) with heq | hg
        · rw [← hm', heq]
          exact Or.inl (CondPhase.here (hq.trans hcur) ⟨huse, hlock, hnone, hheld, hfreed⟩)
        · rw [hm'] at hg
          refine Or.inl (hg.phase hq hcur hpick hl htab hstep h' hacc (decide_eq_true huse) ?_ hk hheld hfreed)
          rintro _ ⟨⟩
          exact ⟨hlock, hnone⟩

omit [DecidableEq Os] [LawfulIoBackend Io] in
/-- After the release of the mutex. -/
private theorem CondReleased.gives (R : GtRuntime Io) (k : CondWait) :
    gtCondReleased R k = ⟨gtIoPollNow R, .condPoll k, 0⟩ ∨ Gives R (.condStepped k) (gtCondReleased R k) := by
  have hcur : (gtIoPollNow R).current = R.current := (gtIoPollNow_frame R).current
  unfold gtCondReleased
  dsimp only
  split
  · rcases gtStep_gives (gtIoPollNow R) (.condStepped k) (.condPoll k) with heq | hg
    · exact Or.inl heq
    · right
      cases hg with
      | goes hcur' heq => exact Gives.goes (hcur'.trans hcur) heq
      | leaves hcur' hsp hland =>
        rw [hcur] at hcur' hsp
        exact Gives.leaves hcur' hsp hland
  · exact Or.inr (Gives.goes hcur rfl)

/-- The running task in the call, its next step. -/
private theorem CondNext.task (h : CondHere T lock x₀ t k freed x x.m.ctl) (hcur : x.m.rt.current = t)
    (hk : k.mutex = lock) (hl : Live x.m v) (htab : Table x.m.rt) (hreads : e.readsAt now)
    (hstep : step x.m e = some m') (h' : Live m' v') (hacc : AllAccepted m'.rt.log)
    (hans : x.answers T lock e now = some y) : CondNext T lock x₀ t k freed now { y with m := m' } := by
  have hs := step_condWait h.inCondWait hstep
  generalize hctl : x.m.ctl = ctl at h hs
  have hans' := hans
  unfold CondWaitSystem.answers at hans'
  rw [hctl] at hans'
  have hpick (hin : ctl.inCondWait k) : ∀ f, x.m.ctl ≠ .pick f := by
    intro f hf
    rw [hctl] at hf
    rw [hf] at hin
    cases hin
  cases hs with
  | kernel _ ke io =>
    obtain rfl : x = y := Option.some.inj hans'
    refine Or.inl (CondPhase.here hcur ?_)
    rw [show x.m.ctl = ctl from hctl]
    exact h
  | condCall k' err =>
    obtain ⟨rfl, h⟩ := h
    dsimp only at hans'
    rw [if_pos hk] at hans'
    rcases CondWaitSystem.woken_cases hans' with ⟨mx, hasleep, hmx, herr, rfl⟩ | ⟨hawake, hzero, htimed, hy⟩
    · rw [if_pos hasleep] at h
      have hback : (x.acquire mx).held t = x₀.held t := (acquire_held_self x mx hcur).trans h.1
      refine Or.inr ⟨hcur, rfl, fun _ => ⟨?_, hback, h.2⟩, ?_, ?_⟩
      · exact PthreadMutex.trylock_owner (PthreadMutex.lock_ok hmx)
      · intro hret
        rcases herr with rfl | ⟨-, hpassed⟩
        · cases hret
        · exact hpassed
      · intro hzero htimed
        rcases herr with herr | ⟨herr, -⟩
        · exact absurd herr hzero
        · exact absurd herr htimed
    · obtain rfl : x = y := hy.symm
      rw [if_neg (by simp [hawake])] at h
      refine Or.inr ⟨hcur, rfl, ?_, fun h => absurd h htimed, fun _ _ => Or.inl h⟩
      rintro (h | h)
      · exact absurd h hzero
      · exact absurd h htimed
  | condReleased k' now' =>
    obtain ⟨rfl, hrest, hfreed⟩ := h
    obtain rfl : x = y := Option.some.inj hans'
    rcases CondReleased.gives x.m.rt k' with heq | hg
    · rw [heq]
      exact Or.inl (CondPhase.here ((gtIoPollNow_frame x.m.rt).current.trans hcur) ⟨rfl, hrest, hfreed⟩)
    · exact Or.inl (hg.phase rfl hcur (hpick (by simp [Ctl.inCondWait])) hl htab hstep h' hacc
        (by simp [Resume.inCondWait]) (fun c hc => by cases hc) hk hrest hfreed)
  | condPoll k' =>
    obtain ⟨rfl, hrest, hfreed⟩ := h
    obtain rfl : x = y := Option.some.inj hans'
    exact Or.inl (CondPhase.here ((gtIoPoll_frame x.m.rt _).current.trans hcur) ⟨rfl, hk, rfl, hrest, hfreed⟩)
  | condLocked k' now' =>
    obtain ⟨rfl, hheld', howner, hfreed⟩ := h
    obtain rfl : x = y := Option.some.inj hans'
    obtain rfl : now' = now := of_decide_eq_true hreads
    refine Or.inr ⟨hcur, rfl, fun _ => ⟨howner, hheld', hfreed⟩, ?_, ?_⟩
    · intro hret
      by_contra hpassed
      dsimp only [toCode] at hret
      rw [if_neg hpassed] at hret
      cases hret
    · intro hzero htimed
      dsimp only [toCode] at hzero htimed
      split at hzero
      · rename_i hpassed
        rw [if_pos hpassed] at htimed
        exact absurd rfl htimed
      · exact absurd rfl hzero
  | lockTry c err now' =>
    obtain ⟨huse, hlock, hnone, hrest, hfreed⟩ := h
    obtain rfl : now' = now := of_decide_eq_true hreads
    exact CondNext.tried hctl huse hlock hnone hrest hfreed hcur hk hl htab hstep h' hacc hans
  | lockWait c =>
    obtain ⟨huse, hlock, hnone, hrest, hfreed⟩ := h
    obtain rfl : x = y := Option.some.inj hans'
    exact Or.inl (CondPhase.here ((gtIoPoll_frame x.m.rt _).current.trans hcur) ⟨huse, hlock, hnone, hrest, hfreed⟩)
  | lockCall c err =>
    obtain ⟨huse, hlock, hnone, hrest, hfreed⟩ := h
    dsimp only at hans'
    rw [if_pos hlock] at hans'
    rcases CondWaitSystem.locked_cases hans' with ⟨mx, hmx, rfl, rfl⟩ | ⟨e, he, rfl, hy⟩ | ⟨hpassed, -, -⟩
    · refine CondPhase.relocked hcur huse (Or.inr ⟨?_, PthreadMutex.trylock_owner (PthreadMutex.lock_ok hmx), rfl⟩)
        hfreed
      rw [acquire_held_self x mx hcur]
      exact hrest
    · obtain rfl : x = y := hy.symm
      refine CondPhase.relocked hcur huse (Or.inl ⟨hrest, ?_⟩) hfreed
      rcases PthreadMutex.lock_error he with rfl | rfl
      · exact ⟨by decide, by decide⟩
      · exact ⟨by decide, by decide⟩
    · rw [hnone] at hpassed
      cases hpassed

/-- A step of the runtime. -/
private theorem CondPhase.task (h : CondPhase T lock x₀ t k freed x) (hk : k.mutex = lock) (hl : Live x.m v)
    (htab : Table x.m.rt) (hreads : e.readsAt now) (hstep : step x.m e = some m') (h' : Live m' v')
    (hacc : AllAccepted m'.rt.log) (hans : x.answers T lock e now = some y) :
    CondNext T lock x₀ t k freed now { y with m := m' } := by
  cases h with
  | here hcur h => exact CondNext.task h hcur hk hl htab hreads hstep h' hacc hans
  | away hat hf hc hheld hfreed =>
    have hheld' : y.held t + 1 = x₀.held t := by
      rw [(CondWaitSystem.answers_answered hans).held hat.other]
      exact hheld
    rename_i f
    have hlive : f ≠ .finished := by
      rintro rfl
      cases hf
    rcases hat.step hlive hl htab hstep h' hacc with hat' | ⟨R', hR', rfl⟩
    · exact Or.inl (CondPhase.away hat' hf hc hheld' hfreed)
    · exact Or.inl (gtResume_phase hR' hf hc hk hheld' hfreed)

omit [IoBackend Io] [LawfulIoBackend Io] in
/-- Another OS thread leaves a mutex alone that this one holds. -/
private theorem PthreadMutex.others_blocked {U : Os} {mx mx' : PthreadMutex Os} {acquires : Bool} (hU : U ≠ T)
    (hown : mx.owner = some T) (h : (if acquires then mx.trylock U else mx.unlock U) = .ok mx') : False := by
  cases acquires with
  | true =>
    rw [if_pos rfl] at h
    rcases PthreadMutex.trylock_ok h with ⟨hfree, -⟩ | ⟨-, howner, -⟩
    · rw [hown] at hfree
      cases hfree
    · rw [hown] at howner
      exact hU (Option.some.inj howner).symm
  | false =>
    rw [if_neg Bool.false_ne_true] at h
    have howner := (PthreadMutex.unlock_ok h).1
    rw [hown] at howner
    exact hU (Option.some.inj howner).symm

omit [LawfulIoBackend Io] in
/-- What the other OS threads do, and falling asleep. -/
private theorem CondPhase.outside {ev : CondWaitEvent Io Os} (h : CondPhase T lock x₀ t k freed x)
    (hheld : 0 < x₀.held t) (hev : ev.task? = none) (hstep : condWaitStep T lock x ev = some y) :
    CondPhase T lock x₀ t k (freed ∨ Freed T x₀ y) y := by
  cases ev with
  | task e now => cases hev
  | trylock err =>
    simp only [condWaitStep] at hstep
    split at hstep
    case isFalse => cases hstep
    rename_i hcode
    cases h with
    | here hcur h =>
      rw [hcode] at h
      exact h.elim
    | away hat hf hc hrest hfreed =>
      rcases CondWaitSystem.tried_cases hstep with ⟨mx, hmx, -, rfl⟩ | ⟨e, -, -, rfl⟩
      · exact CondPhase.away hat hf hc (by rw [acquire_held_other x mx hat.other]; exact hrest) (Or.inl hfreed)
      · exact CondPhase.away hat hf hc hrest (Or.inl hfreed)
  | sleep =>
    simp only [condWaitStep] at hstep
    split at hstep
    case h_2 => cases hstep
    rename_i k' hctl
    split at hstep
    case isFalse => cases hstep
    rename_i hawake
    split at hstep
    case h_2 => cases hstep
    rename_i mx hmx
    cases hstep
    cases h with
    | here hcur h =>
      rw [hctl] at h
      obtain ⟨rfl, h⟩ := h
      rw [if_neg (by simp [hawake.2])] at h
      refine CondPhase.here hcur ?_
      rw [show (x.release mx).m.ctl = .condCall k' from hctl]
      refine ⟨rfl, ?_⟩
      dsimp only
      rw [if_pos rfl, release_held_self x mx hcur, h.1]
      refine ⟨Nat.sub_add_cancel hheld, Or.inr fun howner => ?_⟩
      rw [← h.2 howner]
      exact hmx
    | away hat hf hc hrest hfreed =>
      refine CondPhase.away hat hf hc ?_ (Or.inl hfreed)
      exact (congrArg (· + 1) (release_held_other x mx hat.other)).trans hrest
  | other U acquires =>
    simp only [condWaitStep] at hstep
    split at hstep
    case isTrue => cases hstep
    rename_i hU
    split at hstep
    case h_2 => cases hstep
    rename_i mx hmx
    cases hstep
    cases h with
    | here hcur h =>
      refine CondPhase.here hcur ?_
      have hkeep (hown : x.mutex.owner = some T) : False := PthreadMutex.others_blocked hU hown hmx
      dsimp only
      unfold CondHere at h ⊢
      split at h
      · refine ⟨h.1, ?_⟩
        by_cases hasleep : x.asleep
        · rw [if_pos hasleep] at h ⊢
          exact ⟨h.2.1, Or.inl h.2.2⟩
        · rw [if_neg hasleep] at h ⊢
          refine ⟨h.2.1, fun howner => ?_⟩
          have hsame := h.2.2 howner
          rw [← hsame] at howner
          exact (hkeep howner).elim
      · exact ⟨h.1, h.2.1, Or.inl h.2.2⟩
      · exact ⟨h.1, h.2.1, Or.inl h.2.2⟩
      · exact (hkeep h.2.2.1).elim
      · exact ⟨h.1, h.2.1, h.2.2.1, h.2.2.2.1, Or.inl h.2.2.2.2⟩
      · exact ⟨h.1, h.2.1, h.2.2.1, h.2.2.2.1, Or.inl h.2.2.2.2⟩
      · exact ⟨h.1, h.2.1, h.2.2.1, h.2.2.2.1, Or.inl h.2.2.2.2⟩
      · exact h.elim
    | away hat hf hc hrest hfreed => exact CondPhase.away hat hf hc hrest (Or.inl hfreed)

omit [LawfulIoBackend Io] in
private theorem condWaitStep_task (h : condWaitStep T lock x (.task e now) = some y) : e.readsAt now ∧
    ∃ m' z, step x.m e = some m' ∧ x.answers T lock e now = some z ∧ y = { z with m := m' } := by
  simp only [condWaitStep] at h
  split at h
  case isFalse => cases h
  rename_i hreads
  split at h
  case h_2 => cases h
  rename_i m' hm'
  obtain ⟨z, hz, rfl⟩ := Option.map_eq_some_iff.1 h
  exact ⟨hreads, m', z, hm', hz, rfl⟩

omit [IoBackend Io] [LawfulIoBackend Io] in
private theorem CondWaitSystem.tried_m (h : x.tried T err = some y) : y.m = x.m := by
  rcases tried_cases h with ⟨mx, -, -, rfl⟩ | ⟨e, -, -, rfl⟩ <;> rfl

omit [LawfulIoBackend Io] in
private theorem condWaitStep_outside {ev : CondWaitEvent Io Os} (h : condWaitStep T lock x ev = some y)
    (hev : ev.task? = none) : y.m = x.m := by
  cases ev with
  | task e now => cases hev
  | trylock err =>
    simp only [condWaitStep] at h
    split at h
    · exact CondWaitSystem.tried_m h
    · cases h
  | sleep =>
    simp only [condWaitStep] at h
    split at h
    · split at h
      · split at h <;> cases h
        rfl
      · cases h
    · cases h
  | other U acquires =>
    simp only [condWaitStep] at h
    split at h
    · cases h
    · split at h <;> cases h
      rfl

omit [LawfulIoBackend Io] in
/-- The steps of the runtime are a run of its own. -/
private theorem condWaitStep_run {es : List (CondWaitEvent Io Os)}
    (h : Transition.run (condWaitStep T lock) x es = some y) :
    Transition.run step x.m (es.filterMap CondWaitEvent.task?) = some y.m := by
  induction es generalizing x with
  | nil =>
    cases h
    rfl
  | cons ev es ih =>
    rw [Transition.run] at h
    split at h
    case h_2 => cases h
    rename_i z hz
    cases hev : ev.task? with
    | none =>
      rw [List.filterMap_cons, hev, ← condWaitStep_outside hz hev]
      exact ih h
    | some e =>
      cases ev with
      | task e' now =>
        cases hev
        obtain ⟨-, m', w, hm', -, rfl⟩ := condWaitStep_task hz
        rw [List.filterMap_cons, show (CondWaitEvent.task e now : CondWaitEvent Io Os).task? = some e from rfl]
        dsimp only
        rw [Transition.run, hm']
        exact ih h
      | trylock err => cases hev
      | sleep => cases hev
      | other U acquires => cases hev

/-- The first step of the call. -/
private theorem CondNext.call (hcode : x.m.ctl = .code) (hcur : x.m.rt.current = t) (hawake : x.asleep = false)
    (hheld : 0 < x.held t) (hk : k.mutex = lock) (hl : Live x.m v) (htab : Table x.m.rt)
    (hstep : step x.m (.condWait k err) = some m') (h' : Live m' v') (hacc : AllAccepted m'.rt.log)
    (hans : x.answers T lock (.condWait k err) now = some y) :
    CondPhase T lock x t k (Freed T x { y with m := m' }) { y with m := m' } ∨
      CondReturned T x t k False now { y with m := m' } := by
  have hpick : ∀ f, x.m.ctl ≠ .pick f := by
    intro f hf
    rw [hcode] at hf
    cases hf
  have hm' : gtCondWaitUntil x.m.rt k err = m' := by
    rw [step, if_pos hcode] at hstep
    exact Option.some.inj hstep
  have hcur' : (gtIoPollNow x.m.rt).current = x.m.rt.current := (gtIoPollNow_frame x.m.rt).current
  unfold CondWaitSystem.answers at hans
  simp only [hk, true_and] at hans
  unfold gtCondWaitUntil at hm'
  dsimp only at hm'
  split at hm'
  case isTrue hidle =>
    rw [if_neg (by simp [hidle])] at hans
    obtain rfl : x = y := Option.some.inj hans
    rw [← hm']
    refine Or.inl (CondPhase.here (hcur'.trans hcur) ⟨rfl, ?_⟩)
    dsimp only
    rw [if_neg (by simp [hawake])]
    exact ⟨rfl, fun _ => rfl⟩
  case isFalse hbusy =>
    rw [if_pos (by simpa using hbusy)] at hans
    rcases CondWaitSystem.unlocked_cases hans with ⟨mx, hmx, rfl, rfl⟩ | ⟨e, he, rfl, hy⟩
    · rw [if_pos rfl] at hm'
      have hg := gtLockReleased_gives (gtIoPollNow x.m.rt) k.mutex (.released (some k))
      rw [hm'] at hg
      refine Or.inl (hg.phase hcur' hcur hpick hl htab hstep h' hacc (by simp [Resume.inCondWait]) (fun c hc => by
        cases hc) hk ?_ fun _ => hmx)
      rw [release_held_self x mx hcur]
      exact Nat.sub_add_cancel hheld
    · obtain rfl : x = y := hy.symm
      have hne : errnoCode e ≠ 0 ∧ errnoCode e ≠ etimedout := by
        unfold PthreadMutex.unlock at he
        split at he <;> cases he
        exact ⟨by decide, by decide⟩
      rw [if_neg hne.1] at hm'
      rw [← hm']
      refine Or.inr ⟨hcur'.trans hcur, rfl, ?_, fun h => absurd h hne.2, fun _ _ => Or.inl ⟨rfl, fun _ => rfl⟩⟩
      rintro (h | h)
      · exact absurd h hne.1
      · exact absurd h hne.2

/-! ### The whole call -/

/-- After every one of the events so far the task `t` is in the call. -/
def InsideCall (T : Os) (lock : Nat) (x₀ : CondWaitSystem Io Os) (t : Nat) (k : CondWait)
    (es : List (CondWaitEvent Io Os)) : Prop :=
  ∀ pre ≠ [], pre <+: es → ∃ z, Transition.run (condWaitStep T lock) x₀ pre = some z ∧ InCondWait z.m t k

/-- After one of the events the mutex has been freed. -/
def FreedIn (T : Os) (lock : Nat) (x₀ : CondWaitSystem Io Os) (es : List (CondWaitEvent Io Os)) : Prop :=
  ∃ pre z, pre <+: es ∧ Transition.run (condWaitStep T lock) x₀ pre = some z ∧ Freed T x₀ z

/-- The task is in the call all the time, or until it returns. -/
def CondOutcome (T : Os) (lock : Nat) (x₀ : CondWaitSystem Io Os) (t : Nat) (k : CondWait)
    (es : List (CondWaitEvent Io Os)) : Prop :=
  InsideCall T lock x₀ t k es ∨ ∃ before e now after y, es = before ++ .task e now :: after ∧
    InsideCall T lock x₀ t k before ∧ Transition.run (condWaitStep T lock) x₀ (before ++ [.task e now]) = some y ∧
    CondReturned T x₀ t k (FreedIn T lock x₀ before) now y

omit [LawfulIoBackend Io] in
private theorem InsideCall.concat {es : List (CondWaitEvent Io Os)} {ev : CondWaitEvent Io Os}
    (h : InsideCall T lock x₀ t k es) (hrun : Transition.run (condWaitStep T lock) x₀ (es ++ [ev]) = some x)
    (hin : InCondWait x.m t k) : InsideCall T lock x₀ t k (es ++ [ev]) := by
  intro pre hne hpre
  rcases List.prefix_concat_iff.1 hpre with rfl | hpre
  · exact ⟨x, hrun, hin⟩
  · exact h pre hne hpre

omit [LawfulIoBackend Io] in
private theorem FreedIn.append {es es' : List (CondWaitEvent Io Os)} (h : FreedIn T lock x₀ es) :
    FreedIn T lock x₀ (es ++ es') := by
  obtain ⟨pre, z, hpre, hz⟩ := h
  exact ⟨pre, z, hpre.trans (List.prefix_append es es'), hz⟩

/-- Every run from a point of the call on. -/
private theorem CondPhase.run {done es : List (CondWaitEvent Io Os)} {z : CondWaitSystem Io Os}
    (hk : k.mutex = lock) (hheld : 0 < x₀.held t) (hdone : Transition.run (condWaitStep T lock) x₀ done = some x)
    (hin : InsideCall T lock x₀ t k done) (h : CondPhase T lock x₀ t k (FreedIn T lock x₀ done) x) (hl : Live x.m v)
    (htab : Table x.m.rt) (hrun : Transition.run (condWaitStep T lock) x es = some z) (hboth : NeverBoth z.m.rt.log)
    (hacc : AllAccepted z.m.rt.log) (hexit : z.m.ctl ≠ .exited) : CondOutcome T lock x₀ t k (done ++ es) := by
  induction es generalizing done x v with
  | nil =>
    rw [List.append_nil]
    exact Or.inl hin
  | cons ev es ih =>
    rw [Transition.run] at hrun
    split at hrun
    case h_2 => cases hrun
    rename_i y hstep
    have hdone' : Transition.run (condWaitStep T lock) x₀ (done ++ [ev]) = some y := by
      rw [Transition.run_append hdone, Transition.run, hstep]
      rfl
    rw [show done ++ ev :: es = done ++ [ev] ++ es by rw [List.append_assoc]; rfl]
    cases hev : ev.task? with
    | none =>
      have hnext : CondPhase T lock x₀ t k (FreedIn T lock x₀ (done ++ [ev])) y := by
        apply (h.outside hheld hev hstep).mono
        rintro (hfreed | hfreed)
        · exact hfreed.append
        · exact ⟨done ++ [ev], y, List.prefix_rfl, hdone', hfreed⟩
      have hm := condWaitStep_outside hstep hev
      exact ih hdone' (hin.concat hdone' hnext.inCondWait) hnext (v := v) (by rw [hm]; exact hl)
        (by rw [hm]; exact htab) hrun
    | some e =>
      cases ev with
      | task e' now =>
        obtain rfl : e' = e := Option.some.inj hev
        obtain ⟨hreads, m', w, hm', hans, rfl⟩ := condWaitStep_task hstep
        obtain ⟨v', h', htab', hq⟩ := hl.turned_next htab hm' (condWaitStep_run hrun) hboth hacc hexit
        have hacc' : AllAccepted m'.rt.log := hacc.of_suffix (run_log ⟨_, condWaitStep_run hrun⟩ htab')
        rcases h.task hk hl htab hreads hm' h' hacc' hans with hnext | hret
        · exact ih hdone' (hin.concat hdone' hnext.inCondWait) (hnext.mono FreedIn.append) h' htab' hrun
        · exact Or.inr ⟨done, e', now, es, _, by rw [List.append_assoc]; rfl, hin, hdone', hret⟩
      | trylock err => cases hev
      | sleep => cases hev
      | other U acquires => cases hev

/-- The run that starts with the call of `_gt_cond_wait_until` in `x₀`. -/
structure CondWaitRun (T : Os) (x₀ : CondWaitSystem Io Os) (k : CondWait) (err : Int)
    (es : List (CondWaitEvent Io Os)) (x : CondWaitSystem Io Os) : Prop where
  outcome : CondOutcome T k.mutex x₀ x₀.m.rt.current k es
  /-- An unlock that fails ends the call. -/
  refused : gtHasOtherWork (gtIoPollNow x₀.m.rt) → err ≠ 0 →
    ∃ y, Transition.run (condWaitStep T k.mutex) x₀ (es.take 1) = some y ∧ y.m.rt.current = x₀.m.rt.current ∧
      y.m.ctl = .code ∧ y.m.ret = err ∧ y.mutex = x₀.mutex ∧ y.held = x₀.held
  /-- Whoever was READY or WAITING keeps its place. -/
  places : KeptRun x₀.m (es.filterMap CondWaitEvent.task?) x.m

end

/-- Task 0 holds the mutex 100, and task 1 is ready. -/
def holdsMutex : List (Event BlockingIo) :=
  [.async ⟨1, none⟩ spawnServed, .lock 100 clockMonotonic none, .tried 0 ⟨0, 0⟩]

/-- Task 0 waits until its deadline; task 1 takes the mutex and gives it back, and so does another OS thread. -/
def waitsUntil : List (CondWaitEvent BlockingIo Bool) :=
  [.task (.condWait ⟨100, clockMonotonic, some ⟨5, 0⟩⟩ 0) ⟨1, 0⟩, .task (.condGo ⟨2, 0⟩) ⟨2, 0⟩,
    .task (.lock 100 clockMonotonic none) ⟨3, 0⟩, .task (.tried 0 ⟨3, 0⟩) ⟨3, 0⟩, .task (.unlock 100 0) ⟨4, 0⟩,
    .other true true, .task .yield ⟨5, 0⟩, .other true false, .task (.tried 0 ⟨6, 0⟩) ⟨6, 0⟩,
    .task (.condGo ⟨7, 0⟩) ⟨7, 0⟩]

end Sppc
