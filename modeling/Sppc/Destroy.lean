import Sppc.Windows.Rwlock
import Sppc.Windows.Cond
import Sppc.Windows.Barrier

/-!
# Destroying a handle (`platform/common.h`)

`sppc_pthread_mutex_destroy`, `_rwlock_destroy`, `_cond_destroy` and `_barrier_destroy` are one: the platform destroys
its object, or refuses to, and the storage is freed.  The platform's objects are given by the steps that threads and
tasks take in their calls on them; those of Windows are the models of its mutex, read-write lock, condition and
barrier.
-/

namespace Sppc

open Threads Transition
open Windows (Errno MutexKind MutexSystem MutexEvent RwlockSystem RwlockEvent CondSystem CondEvent BarrierSystem
  BarrierEvent Clocks)

/-- An object of the platform, with all who use it.  `ends s e` is what a call of the platform's destroy returns that
ends with the step `e`, and `busy s e` says whether the platform finds the object in use there. -/
structure SyncObject where
  State : Type
  Event : Type
  step : State → Event → Option State
  ends : State → Event → Option (Option Errno)
  busy : State → Event → Bool
  refuses : ∀ s e r, ends s e = some r → (r.isSome ↔ busy s e)

/-- The platform's kinds of objects. -/
structure SyncPlatform where
  mutex : SyncObject
  rwlock : SyncObject
  cond : SyncObject
  barrier : SyncObject

/-- The object in a handle's storage, none once that is freed; how often it has been freed; what the calls of the
destroy have returned; and how often anyone has used the storage after it was freed. -/
structure Handle (K : SyncObject) where
  storage : Option K.State
  frees : Nat
  returned : List (Option Errno)
  faults : Nat

/-- After the initialisation. -/
def Handle.init {K : SyncObject} (s : K.State) : Handle K := ⟨some s, 0, [], 0⟩

/-- The end of a destroy, once the platform's has returned `err`: `free(obj)`, and the error. -/
def Handle.destroyed {K : SyncObject} (h : Handle K) (err : Option Errno) : Handle K :=
  { h with storage := none, frees := h.frees + 1, returned := h.returned ++ [err] }

/-- One step of one of those who use the handle.  What they would do with freed storage is a fault. -/
def handleStep (K : SyncObject) (h : Handle K) (e : K.Event) : Option (Handle K) :=
  match h.storage with
  | none => some { h with faults := h.faults + 1 }
  | some s => (K.step s e).map fun s' => match K.ends s e with
    | none => { h with storage := some s' }
    | some err => h.destroyed err

/-- A step in which the platform refuses no destroy, as it does for an object in use. -/
def handleProperStep (K : SyncObject) (h : Handle K) (e : K.Event) : Option (Handle K) :=
  if h.storage.any fun s => (K.ends s e).isSome && K.busy s e then none else handleStep K h e

/-! ### Windows -/

section windows

variable (Tid : Type) [DecidableEq Tid]

/-- `_sppc_pthread_mutex_destroy`, one read of the state. -/
def windowsMutex : SyncObject where
  State := MutexSystem Tid
  Event := MutexEvent Tid ⊕ Unit
  step s
    | .inl e => Windows.mutexStep s e
    | .inr () => some s
  ends s
    | .inl _ => none
    | .inr () => some (if s.shared.mutex.state ≠ 0 then some .EBUSY else none)
  busy s _ := s.shared.mutex.state ≠ 0
  refuses s e r h := by
    cases e with
    | inl e => cases h
    | inr u =>
      cases h
      by_cases h0 : s.shared.mutex.state = 0 <;> simp [h0]

/-- `_sppc_pthread_rwlock_destroy`, one read of the state. -/
def windowsRwlock : SyncObject where
  State := RwlockSystem Tid
  Event := RwlockEvent Tid ⊕ Unit
  step s
    | .inl e => Windows.rwlockStep s e
    | .inr () => some s
  ends s
    | .inl _ => none
    | .inr () => some (if s.shared.lock.state ≠ 0 then some .EBUSY else none)
  busy s _ := s.shared.lock.state ≠ 0
  refuses s e r h := by
    cases e with
    | inl e => cases h
    | inr u =>
      cases h
      by_cases h0 : s.shared.lock.state = 0 <;> simp [h0]

/-- `_sppc_pthread_cond_destroy`, which has nothing to do. -/
def windowsCond : SyncObject where
  State := CondSystem Tid
  Event := CondEvent Tid ⊕ Unit
  step s
    | .inl e => Windows.condStep s e
    | .inr () => some s
  ends _
    | .inl _ => none
    | .inr () => some none
  busy _ _ := false
  refuses s e r h := by
    cases e with
    | inl e => cases h
    | inr u =>
      cases h
      simp

/-- `_sppc_pthread_barrier_destroy`: the return of EBUSY, where it has found a round part-way, or of 0, where it finds
no thread inside any more. -/
def windowsBarrier : SyncObject where
  State := BarrierSystem Tid
  Event := BarrierEvent Tid
  step := Windows.barrierStep
  ends s
    | .thread t _ => match s.loc t with
      | .destroyRelease true _ => some (some .EBUSY)
      | .destroyLoad _ => if s.shared.barrier.waiters = 0 then some none else none
      | _ => none
    | .env e => e.elim
  busy s
    | .thread t _ => match s.loc t with
      | .destroyRelease busy _ => busy
      | _ => false
    | .env e => e.elim
  refuses s e r h := by
    cases e with
    | thread t i =>
      cases hloc : s.loc t <;> simp only [hloc] at h ⊢
      case destroyRelease busy k =>
        cases busy with
        | false => cases h
        | true =>
          cases h
          simp
      case destroyLoad k =>
        split at h <;> cases h
        simp
      all_goals cases h
    | env e => exact e.elim

/-- The objects of `platform/windows.h`. -/
def windowsPlatform : SyncPlatform := ⟨windowsMutex Tid, windowsRwlock Tid, windowsCond Tid, windowsBarrier Tid⟩

end windows

/-! ### What a destroy leaves -/

variable {K : SyncObject} {h h' : Handle K} {s : K.State} {e : K.Event}

/-- A destroy that returns an error leaves the storage, with what the platform has left in it, and frees nothing. -/
def Handle.Keeps (h : Handle K) (s : K.State) (e : K.Event) (h' : Handle K) : Prop :=
  ∀ err, K.ends s e = some (some err) → h'.storage = K.step s e ∧ h'.frees = h.frees

private theorem handleStep_eq (hs : h.storage = some s) : handleStep K h e = some h' ↔
    ∃ s', K.step s e = some s' ∧ h' = match K.ends s e with
      | none => { h with storage := some s' }
      | some err => h.destroyed err := by
  rw [handleStep, hs]
  dsimp only
  rw [Option.map_eq_some_iff]
  exact exists_congr fun s' => and_congr_right fun _ => eq_comm

/-- The storage is left as a failed destroy should leave it exactly if none fails. -/
private theorem handleStep_keeps (hs : h.storage = some s) (hstep : handleStep K h e = some h') :
    h.Keeps s e h' ↔ ¬((K.ends s e).isSome ∧ K.busy s e) := by
  obtain ⟨s', hs', rfl⟩ := (handleStep_eq hs).1 hstep
  unfold Handle.Keeps
  rw [hs']
  cases hends : K.ends s e with
  | none => simp
  | some r =>
    have hrefuses := K.refuses s e r hends
    cases r with
    | none =>
      have hbusy : ¬K.busy s e := fun h => absurd (hrefuses.2 h) (by simp)
      exact iff_of_true (fun err herr => by cases herr) fun h => hbusy h.2
    | some err =>
      have hbusy := hrefuses.1 rfl
      refine iff_of_false (fun hkeeps => ?_) fun h => h ⟨rfl, hbusy⟩
      have := (hkeeps err rfl).1
      cases this

/-- While no destroy has been refused, the storage has been freed once for the one that was granted, and nobody has
used it after that but past a destroy that returned 0. -/
structure Handle.Ok (h : Handle K) : Prop where
  granted : ∀ r ∈ h.returned, r = none
  frees : h.frees = h.returned.length
  storage : h.storage.isSome ↔ h.frees = 0
  once : h.frees ≤ 1
  faults : h.faults ≠ 0 → h.returned = [none]

private theorem Handle.Ok.step (hi : h.Ok) (hstep : handleProperStep K h e = some h') : h'.Ok := by
  rw [handleProperStep] at hstep
  split at hstep
  · cases hstep
  rename_i hnot
  cases hs : h.storage with
  | none =>
    rw [handleStep, hs] at hstep
    cases hstep
    have hstorage := hi.storage
    rw [hs] at hstorage
    have hfreed : h.frees ≠ 0 := fun hzero => by simpa using hstorage.2 hzero
    refine ⟨hi.granted, hi.frees, hstorage, hi.once, fun _ => ?_⟩
    have hone : h.returned.length = 1 := by
      have := hi.frees
      have := hi.once
      omega
    obtain ⟨r, hr⟩ := List.length_eq_one_iff.1 hone
    rw [hr, hi.granted r (hr ▸ List.mem_singleton_self r)]
  | some s =>
    rw [hs, Option.any_some, Bool.and_eq_true] at hnot
    have hzero : h.frees = 0 := hi.storage.1 (by rw [hs]; rfl)
    have hnil : h.returned = [] := List.length_eq_zero_iff.1 (hi.frees.symm.trans hzero)
    have hfaults : h.faults = 0 := by
      by_contra hne
      cases hnil.symm.trans (hi.faults hne)
    obtain ⟨s', -, rfl⟩ := (handleStep_eq hs).1 hstep
    cases hends : K.ends s e with
    | none => exact ⟨hi.granted, hi.frees, by simp [hzero], hi.once, fun hne => absurd hfaults hne⟩
    | some r =>
      have hnone : r = none := by
        rw [hends] at hnot
        cases r with
        | none => rfl
        | some err => exact absurd ⟨rfl, (K.refuses s e _ hends).1 rfl⟩ hnot
      subst hnone
      refine ⟨fun r hr => ?_, ?_, ?_, ?_, fun hne => absurd hfaults hne⟩
      · rcases List.mem_append.1 hr with hr | hr
        · exact hi.granted r hr
        · exact List.mem_singleton.1 hr
      · simp [Handle.destroyed, hi.frees]
      · simp [Handle.destroyed]
      · simp [Handle.destroyed, hzero]

/-- What the destroy of one kind of object comes to: each failed call leaves the object exactly if the object is not
in use, so that there is no failed call; and in a run without one a destroy frees the storage once, and nobody uses it
after that unless the destroy has returned 0. -/
structure DestroyOk (K : SyncObject) : Prop where
  keeps : ∀ h s e h', h.storage = some s → handleStep K h e = some h' →
    (h.Keeps s e h' ↔ ¬((K.ends s e).isSome ∧ K.busy s e))
  once : ∀ s h, Reach (handleProperStep K) (.init s) h → h.Ok

private theorem destroyOk (K : SyncObject) : DestroyOk K where
  keeps _ _ _ _ hs hstep := handleStep_keeps hs hstep
  once _ _ hreach := hreach.invariant (P := Handle.Ok) (fun _ _ _ hi hstep => hi.step hstep)
    ⟨fun _ hr => (List.not_mem_nil hr).elim, rfl, by simp [Handle.init], Nat.zero_le 1, fun hne => absurd rfl hne⟩

/-- For each of the four kinds of handles, on any platform. -/
theorem destroys_ok (P : SyncPlatform) :
    DestroyOk P.mutex ∧ DestroyOk P.rwlock ∧ DestroyOk P.cond ∧ DestroyOk P.barrier :=
  ⟨destroyOk _, destroyOk _, destroyOk _, destroyOk _⟩

/-- A thread holds the mutex, and another destroys it: it gets EBUSY, and the storage is gone, which the first then
uses for its unlock. -/
theorem destroy_frees_held : ∃ h h' h'' : Handle (windowsPlatform Nat).mutex,
    Reach (handleStep _) (.init (K := (windowsPlatform Nat).mutex) (MutexSystem.init .normal .zero)) h ∧
      handleStep _ h (Sum.inr ()) = some h' ∧ handleStep _ h' (Sum.inl (.thread 0 .unlock)) = some h'' ∧
        h.storage.isSome ∧ h'.returned = [some .EBUSY] ∧ h'.storage = none ∧ h'.frees = 1 ∧ h''.faults = 1 := by
  have hrun : ((Transition.run (handleStep (windowsMutex Nat))
      (.init (K := windowsMutex Nat) (MutexSystem.init .normal .zero))
      ((Windows.calls 0 .lock 3).map Sum.inl)).bind fun h =>
      (handleStep (windowsMutex Nat) h (Sum.inr ())).bind fun h' =>
        (handleStep (windowsMutex Nat) h' (Sum.inl (.thread 0 .unlock))).map fun h'' =>
          (h.storage.isSome, h'.returned, h'.storage.isNone, h'.frees, h''.faults)) =
      some (true, [some .EBUSY], true, 1, 1) := by
    decide +kernel
  obtain ⟨h, hh, hrest⟩ := Option.bind_eq_some_iff.1 hrun
  obtain ⟨h', hh', hrest'⟩ := Option.bind_eq_some_iff.1 hrest
  obtain ⟨h'', hh'', heq⟩ := Option.map_eq_some_iff.1 hrest'
  simp only [Prod.mk.injEq, Option.isNone_iff_eq_none] at heq
  exact ⟨h, h', h'', ⟨_, hh⟩, hh', hh'', heq⟩

end Sppc
