import Sppc.Windows.Cond

/-!
# The mutex after a wait (`platform/windows.h`)

A wait that has released the mutex takes it back before it returns, whatever ended it, and nothing makes that fail.
-/

namespace Sppc.Windows

open Threads

variable {Tid : Type} {t u : Tid} {h h' : MutexState Tid} {l l' : MutexLoc}

/-- The thread can take the mutex: an error-checking one it does not hold, and the count of a recursive
one goes on. -/
def MutexState.Retakes (h : MutexState Tid) (t : Tid) : Prop :=
  h.mutex.kind ≠ .normal → h.held t < uintMax ∧ (h.mutex.kind = .errorcheck → h.held t = 0)

/-- The thread is inside an unlock. -/
def MutexLoc.Unlocking (h : MutexState Tid) (t : Tid) : MutexLoc → Prop
  | .unlockOwner | .unlockCount | .unlockStore _ | .unlockClear | .unlockExchange => True
  | .unlockWake => h.Retakes t
  | _ => False

/-- The thread is inside a lock that has no deadline and will succeed. -/
def MutexLoc.Retaking (h : MutexState Tid) (t : Tid) : MutexLoc → Prop
  | .relockOwner (some w) => w.deadline = none ∧ h.mutex.kind ≠ .normal ∧ h.Retakes t
  | .relockCount => h.mutex.kind ≠ .normal ∧ h.Retakes t
  | .relockStore _ => True
  | .lockCas w | .lockExchange w | .lockClock w | .lockCompare w | .lockAsleep w => w.deadline = none
  | .acquiredOwner | .acquiredCount => 0 < h.held t
  | _ => False

private theorem MutexState.Retakes.congr (hr : h.Retakes t) (hkind : h'.mutex.kind = h.mutex.kind)
    (hheld : h'.held t = h.held t) : h'.Retakes t := by
  unfold MutexState.Retakes
  rw [hkind, hheld]
  exact hr

private theorem MutexLoc.Unlocking.congr (hl : l.Unlocking h t) (hkind : h'.mutex.kind = h.mutex.kind)
    (hheld : h'.held t = h.held t) : l.Unlocking h' t := by
  cases l with
  | unlockWake => exact MutexState.Retakes.congr hl hkind hheld
  | _ => exact hl

private theorem MutexLoc.Retaking.congr (hl : l.Retaking h t) (hkind : h'.mutex.kind = h.mutex.kind)
    (hheld : h'.held t = h.held t) : l.Retaking h' t := by
  cases l with
  | relockOwner lock =>
    cases lock with
    | some w => exact ⟨hl.1, by rw [hkind]; exact hl.2.1, hl.2.2.congr hkind hheld⟩
    | none => exact hl
  | relockCount => exact ⟨by rw [hkind]; exact hl.1, hl.2.congr hkind hheld⟩
  | acquiredOwner | acquiredCount => exact Nat.lt_of_lt_of_eq hl hheld.symm
  | _ => exact hl

variable [DecidableEq Tid]

omit [DecidableEq Tid] in
private theorem Mutex.lock_retaking (hr : h.Retakes t) (clock : Clockid) :
    (h.mutex.lock ⟨clock, none⟩).Retaking h t := by
  unfold Mutex.lock
  split
  · rfl
  · exact ⟨rfl, by assumption, hr⟩

omit [DecidableEq Tid] in
private theorem Mutex.unlock_unlocking : h.mutex.unlock.Unlocking h t := by
  unfold Mutex.unlock
  split <;> trivial

/-- An access of an unlock: it goes on, or it fails, or the thread can take the mutex again. -/
private theorem MutexLoc.Unlocking.act {i : MutexInput Tid} (hl : l.Unlocking h t)
    (hok : h.mutex.kind ≠ .normal → l.Ok h t) (hact : mutexAct t i h l = some (h', l')) :
    l'.Unlocking h' t ∨ ∃ r, l' = .out r ∧ (r = .zero → h'.Retakes t) := by
  cases l
  case unlockOwner =>
    cases hact
    split
    · exact Or.inr ⟨_, rfl, by simp⟩
    · split
      · exact Or.inl trivial
      · exact Or.inl trivial
  case unlockCount =>
    cases hact
    exact Or.inl trivial
  case unlockStore count =>
    simp only [mutexAct] at hact
    split at hact <;> cases hact
    · refine Or.inr ⟨_, rfl, fun _ hkind => ?_⟩
      obtain ⟨hrec, hpos, hsettled, -⟩ := hok hkind
      obtain ⟨-, -, hle⟩ := hsettled hpos
      simp only [Function.update_self, hrec]
      exact ⟨by omega, fun h => by cases h⟩
    · exact Or.inl trivial
  case unlockClear =>
    cases hact
    exact Or.inl trivial
  case unlockExchange =>
    cases hact
    have hretakes : MutexState.Retakes { h with
        mutex := { h.mutex with state := 0 }, held := Function.update h.held t (h.held t - 1) } t := by
      intro hkind
      obtain ⟨hone, -⟩ := hok hkind
      simp [hone, uintMax]
    split
    · exact Or.inl hretakes
    · exact Or.inr ⟨_, rfl, fun _ => hretakes⟩
  case unlockWake =>
    have hout : l' = .out .zero ∧ h'.held = h.held ∧ h'.mutex.kind = h.mutex.kind := by
      cases i with
      | wake v =>
        cases v <;> simp only [mutexAct] at hact <;> split at hact <;> cases hact <;> exact ⟨rfl, rfl, rfl⟩
      | _ => cases hact
    obtain ⟨rfl, hheld, hkind⟩ := hout
    exact Or.inr ⟨_, rfl, fun _ => MutexState.Retakes.congr hl hkind (congrFun hheld t)⟩
  all_goals exact hl.elim

/-- An access of a lock that has no deadline: it goes on, or the thread holds the mutex. -/
private theorem MutexLoc.Retaking.act {i : MutexInput Tid} (hl : l.Retaking h t)
    (hok : h.mutex.kind ≠ .normal → l.Ok h t) (howner : h.mutex.kind ≠ .normal → h.mutex.owner = some t →
      0 < h.held t)
    (hact : mutexAct t i h l = some (h', l')) : l'.Retaking h' t ∨ l' = .out .zero ∧ 0 < h'.held t := by
  cases l
  case relockOwner lock =>
    cases lock with
    | none => exact hl.elim
    | some w =>
      obtain ⟨hnone, hkind, hretakes⟩ := hl
      cases hact
      refine Or.inl ?_
      simp only [Mutex.relock]
      split
      · exact hnone
      · rename_i hme
        have hpos := howner hkind (not_not.1 hme)
        split
        · rename_i hcheck
          have := (hretakes hkind).2 hcheck
          omega
        · exact ⟨hkind, hretakes⟩
  case relockCount =>
    obtain ⟨hkind, hretakes⟩ := hl
    obtain ⟨-, hpos, hsettled⟩ := hok hkind
    obtain ⟨-, hcount, -⟩ := hsettled hpos
    have hlt := (hretakes hkind).1
    cases hact
    rw [if_neg (by omega)]
    exact Or.inl trivial
  case relockStore count =>
    cases hact
    exact Or.inr ⟨rfl, by simp⟩
  case lockCas w =>
    simp only [mutexAct] at hact
    split at hact <;> cases hact
    · exact Or.inl (by simp [MutexLoc.Retaking, MutexState.acquire])
    · exact Or.inl hl
  case lockExchange w =>
    simp only [mutexAct] at hact
    split at hact <;> cases hact
    · exact Or.inl (by simp [MutexLoc.Retaking, MutexState.acquire])
    · exact Or.inl hl
  case lockClock w =>
    cases hact
    have hnone : w.deadline = none := hl
    rw [hnone, if_neg (by simp [waitMs, infinite])]
    exact Or.inl hl
  case lockCompare w =>
    simp only [mutexAct] at hact
    split at hact <;> cases hact
    · exact Or.inl hl
    · exact Or.inl hl
  case lockAsleep w =>
    cases hact
    exact Or.inl hl
  case acquiredOwner =>
    cases hact
    exact Or.inl hl
  case acquiredCount =>
    cases hact
    exact Or.inr ⟨rfl, hl⟩
  all_goals exact hl.elim

/-! ### The waits -/

/-- What a wait does with the mutex before its next access. -/
def CondLoc.Retake (h : CondState Tid) (t : Tid) : CondLoc → Prop
  | .waitUnlock _ _ _ l => l.Unlocking h.mutex t
  | .waitLoad _ _ _ | .waitClock _ _ _ | .waitCompare _ _ _ | .waitAsleep _ _ _ => h.mutex.Retakes t
  | .waitLock _ l => l.Retaking h.mutex t
  | _ => True

/-- The waits keep to the rules of the mutex, which checks those of a mutex that is not normal. -/
structure RetakeInv (s : CondSystem Tid) : Prop where
  mutex : s.shared.mutex.mutex.kind ≠ .normal → MutexInv s.toMutex
  loc : ∀ t, (s.loc t).Retake s.shared t

section waits

variable {s s' : CondSystem Tid} {h h' : CondState Tid} {l l' : CondLoc}

private theorem CondSystem.toMutex_put : CondSystem.toMutex (s.put t h l) = s.toMutex.put t h.mutex l.toMutex := by
  unfold CondSystem.toMutex State.put
  congr 1
  funext u
  by_cases hu : u = t
  · subst hu
    simp
  · simp [hu]

omit [DecidableEq Tid] in
private theorem CondState.woken_toMutex (h : CondState Tid) (seen a : Nat) (w : Until) :
    (∃ r, (h.woken seen a w).toMutex = .out r) ∨ ∃ w', (h.woken seen a w).toMutex = h.mutex.mutex.lock w' := by
  unfold CondState.woken
  split
  · exact Or.inr ⟨_, rfl⟩
  · exact Or.inl ⟨_, rfl⟩

/-- What a step is to the mutex: an access of one of its calls, whose return may be hidden, or the call of lock. -/
private theorem condAct_mutex {i : CondInput Tid} (hact : condAct t i h l = some (h', l')) :
    (∃ j m, mutexAct t j h.mutex l.toMutex = some (h'.mutex, m) ∧
      (l'.toMutex = m ∨ ∃ r r', m = .out r ∧ l'.toMutex = .out r')) ∨
    h'.mutex = h.mutex ∧ ∃ r, l.toMutex = .out r ∧
      ((∃ r', l'.toMutex = .out r') ∨ ∃ w, l'.toMutex = h.mutex.mutex.lock w) := by
  cases l
  case mutex l =>
    simp only [condAct] at hact
    split at hact
    · cases hact
      refine Or.inr ⟨rfl, _, rfl, Or.inl ?_⟩
      split
      · exact ⟨_, rfl⟩
      · exact ⟨_, rfl⟩
    · cases hact
      exact Or.inr ⟨rfl, _, rfl, Or.inl ⟨_, rfl⟩⟩
    · cases hact
      exact Or.inr ⟨rfl, _, rfl, Or.inl ⟨_, rfl⟩⟩
    · obtain ⟨r, hr, heq⟩ := Option.map_eq_some_iff.1 hact
      cases heq
      exact Or.inl ⟨_, _, hr, Or.inl rfl⟩
    · cases hact
  case waitSeq w =>
    cases hact
    exact Or.inl ⟨.unlock, _, rfl, Or.inl rfl⟩
  case waitUnlock seen a w l =>
    cases i with
    | mutex i =>
      obtain ⟨r, hr, heq⟩ := Option.map_eq_some_iff.1 hact
      cases heq
      refine Or.inl ⟨_, _, hr, Or.inl ?_⟩
      split
      · exact Eq.symm (by assumption)
      · exact Eq.symm (by assumption)
      · rfl
    | _ => cases hact
  case waitLoad seen a w =>
    cases hact
    refine Or.inr ⟨rfl, _, rfl, ?_⟩
    split
    · exact Or.inl ⟨_, rfl⟩
    · exact Or.inr ⟨_, rfl⟩
  case waitClock seen a w =>
    cases hact
    refine Or.inr ⟨rfl, _, rfl, ?_⟩
    split
    · exact Or.inr ⟨_, rfl⟩
    · exact Or.inl ⟨_, rfl⟩
  case waitCompare seen a w =>
    simp only [condAct] at hact
    split at hact <;> cases hact
    · exact Or.inr ⟨rfl, _, rfl, Or.inl ⟨_, rfl⟩⟩
    · exact Or.inr ⟨rfl, _, rfl, h.woken_toMutex seen a w⟩
  case waitAsleep seen a w =>
    cases hact
    exact Or.inr ⟨rfl, _, rfl, h.woken_toMutex seen a w⟩
  case waitLock err l =>
    cases i with
    | mutex i =>
      obtain ⟨r, hr, heq⟩ := Option.map_eq_some_iff.1 hact
      cases heq
      refine Or.inl ⟨_, _, hr, ?_⟩
      split
      · exact Or.inr ⟨_, _, by assumption, rfl⟩
      · exact Or.inl (Eq.symm (by assumption))
      · exact Or.inl rfl
    | _ => cases hact
  all_goals
    cases hact
    exact Or.inr ⟨rfl, _, rfl, Or.inl ⟨_, rfl⟩⟩

/-- A thread that has made a call, or returned from one, as it takes no access. -/
private theorem MutexInv.between {s : MutexSystem Tid} {r : Ret} {l' : MutexLoc} (hi : MutexInv s)
    (hloc : s.loc t = .out r) (hl : (∃ r', l' = .out r') ∨ ∃ w, l' = s.shared.mutex.lock w) :
    MutexInv (s.put t s.shared l') := by
  have hok := hi.loc t
  rw [hloc] at hok
  refine hi.quiet ?_ (by simp [hloc]) (by simp [hloc, MutexLoc.Rouses, MutexLoc.Awake])
  rcases hl with ⟨r', rfl⟩ | ⟨w, rfl⟩
  · exact hok
  · exact Mutex.lock_ok hok w

/-- Whatever a wait does keeps to the rules of the mutex. -/
private theorem RetakeInv.mutex_act {i : CondInput Tid} (hi : RetakeInv s)
    (hkind : s.shared.mutex.mutex.kind ≠ .normal) (hact : condAct t i s.shared (s.loc t) = some (h', l')) :
    MutexInv (CondSystem.toMutex (s.put t h' l')) := by
  have hm := hi.mutex hkind
  rw [CondSystem.toMutex_put]
  rcases condAct_mutex hact with ⟨j, m, hm', hl⟩ | ⟨hsame, r, hloc, hl⟩
  · have hproper : s.toMutex.Proper (.thread t j) := by
      cases j with
      | unlock => exact fun h => absurd h hkind
      | _ => trivial
    have hstep := hm.act hproper hm'
    rcases hl with hl | ⟨r, r', rfl, hl⟩
    · rw [hl]
      exact hstep
    · have := hstep.between State.put_self (Or.inl ⟨r', hl⟩)
      rwa [State.put_shared, State.put_put] at this
  · rw [hsame]
    exact hm.between hloc hl

omit [DecidableEq Tid] in
private theorem CondLoc.Retake.congr (hl : l.Retake h t) (hkind : h'.mutex.mutex.kind = h.mutex.mutex.kind)
    (hheld : h'.mutex.held t = h.mutex.held t) : l.Retake h' t := by
  cases l with
  | waitUnlock seen a w l => exact MutexLoc.Unlocking.congr hl hkind hheld
  | waitLoad seen a w | waitClock seen a w | waitCompare seen a w | waitAsleep seen a w =>
    exact MutexState.Retakes.congr hl hkind hheld
  | waitLock err l => exact MutexLoc.Retaking.congr hl hkind hheld
  | _ => trivial

/-- A step changes no holds but those of the thread that makes it, and never the kind. -/
private theorem condAct_frame {i : CondInput Tid} (hact : condAct t i h l = some (h', l')) :
    h'.mutex.mutex.kind = h.mutex.mutex.kind ∧ ∀ u ≠ t, h'.mutex.held u = h.mutex.held u := by
  rcases condAct_mutex hact with ⟨j, m, hm, -⟩ | ⟨hsame, -⟩
  · exact mutexAct_frame hm
  · rw [hsame]
    exact ⟨rfl, fun _ _ => rfl⟩

omit [DecidableEq Tid] in
private theorem CondState.woken_retake (hr : h.mutex.Retakes t) (hsame : h'.mutex = h.mutex) (seen a : Nat)
    (w : Until) : (h.woken seen a w).Retake h' t := by
  unfold CondState.woken
  split
  · show MutexLoc.Retaking h'.mutex t _
    rw [hsame]
    exact Mutex.lock_retaking hr _
  · show h'.mutex.Retakes t
    rw [hsame]
    exact hr

/-- What one access does with the mutex: a return from the lock at the end has it. -/
theorem RetakeInv.loc_act {i : CondInput Tid} (hi : RetakeInv s)
    (hact : condAct t i s.shared (s.loc t) = some (h', l')) :
    l'.Retake h' t ∧ ∀ err l, s.loc t = .waitLock err l →
      (∃ m, l' = .waitLock err m) ∨ l' = .mutex (.out err) ∧ 0 < h'.mutex.held t := by
  have hr := hi.loc t
  have hok (hkind : s.shared.mutex.mutex.kind ≠ .normal) : (s.loc t).toMutex.Ok s.shared.mutex t :=
    (hi.mutex hkind).loc t
  cases hloc : s.loc t <;> rw [hloc] at hact hr hok
  case waitLock err l =>
    cases i with
    | mutex i =>
      obtain ⟨r, hm, heq⟩ := Option.map_eq_some_iff.1 hact
      cases heq
      rcases MutexLoc.Retaking.act hr hok (fun hkind => (hi.mutex hkind).owner t) hm with hgo | ⟨hzero, hpos⟩
      · split
        · rename_i hout
          rw [hout] at hgo
          exact hgo.elim
        · rename_i hout
          rw [hout] at hgo
          exact hgo.elim
        · refine ⟨hgo, fun err' l' heq => ?_⟩
          cases heq
          exact Or.inl ⟨_, rfl⟩
      · rw [hzero]
        refine ⟨trivial, fun err' l' heq => ?_⟩
        cases heq
        exact Or.inr ⟨rfl, hpos⟩
    | _ => cases hact
  all_goals refine ⟨?_, fun err l => nofun⟩
  case mutex l =>
    simp only [condAct] at hact
    split at hact
    · cases hact
      split <;> trivial
    · cases hact
      trivial
    · cases hact
      trivial
    · obtain ⟨r, hm, heq⟩ := Option.map_eq_some_iff.1 hact
      cases heq
      trivial
    · cases hact
  case waitSeq w =>
    cases hact
    exact Mutex.unlock_unlocking
  case waitUnlock seen a w l =>
    cases i with
    | mutex i =>
      obtain ⟨r, hm, heq⟩ := Option.map_eq_some_iff.1 hact
      cases heq
      rcases MutexLoc.Unlocking.act hr hok hm with hgo | ⟨ret, hout, hzero⟩
      · split
        · rename_i hout
          rw [hout] at hgo
          exact hgo.elim
        · trivial
        · exact hgo
      · rw [hout]
        cases ret with
        | zero => exact hzero rfl
        | _ => trivial
    | _ => cases hact
  case waitLoad seen a w =>
    cases hact
    split
    · exact hr
    · exact Mutex.lock_retaking hr _
  case waitClock seen a w =>
    cases hact
    split
    · exact Mutex.lock_retaking hr _
    · exact hr
  case waitCompare seen a w =>
    simp only [condAct] at hact
    split at hact <;> cases hact
    · exact hr
    · exact CondState.woken_retake hr rfl seen a w
  case waitAsleep seen a w =>
    cases hact
    exact CondState.woken_retake hr rfl seen a w
  all_goals
    cases hact
    trivial

theorem RetakeInv.step {e : CondEvent Tid} (hi : RetakeInv s) (hstep : condStep s e = some s') : RetakeInv s' := by
  cases e with
  | thread t i =>
    obtain ⟨h', l', hact, rfl⟩ := step_thread.1 hstep
    obtain ⟨hkind, hheld⟩ := condAct_frame hact
    refine ⟨fun hne => hi.mutex_act (by rw [← hkind]; exact hne) hact, ?_⟩
    exact State.put_forall (P := fun u l => CondLoc.Retake h' u l) (hi.loc_act hact).1
      fun u hu => (hi.loc u).congr hkind (hheld u hu)
  | env now =>
    cases hstep
    exact ⟨fun hkind => (hi.mutex hkind).tick now, fun t => (hi.loc t).congr rfl rfl⟩

omit [DecidableEq Tid] in
theorem RetakeInv.init (kind : MutexKind) (now : Clocks) : RetakeInv (CondSystem.init kind now : CondSystem Tid) where
  mutex := fun _ => MutexInv.init kind now
  loc := fun _ => trivial

end waits

end Sppc.Windows
