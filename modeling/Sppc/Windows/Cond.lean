import Sppc.Windows.Mutex
import Mathlib.Logic.Relation

/-!
# The Windows condition variable (`platform/windows.h`)

Any number of threads wait on one condition variable with one mutex, with deadlines or without, signal it and
broadcast to it.  A step is one access, those of the mutex included.  `WakeByAddressSingle` wakes the thread that has
been asleep longest, so the sleepers are in the order in which they fell asleep.
-/

namespace Sppc.Windows

open Threads

/-- The mutex, `seq` and the threads asleep on it.  `signals` is the number of signals and broadcasts so far, which
the code keeps in 32 bits only. -/
structure CondState (Tid : Type) where
  mutex : MutexState Tid
  seq : Nat
  sleepers : List Tid
  signals : Nat

/-- Where a thread is: in no call of the condition variable, or before an access of one.  `seen` is the sequence word
that a wait read, and `a` the number of signals at that time; a signal keeps its own number. -/
inductive CondLoc
  | mutex (l : MutexLoc)
  | waitSeq (w : Until) | waitUnlock (seen a : Nat) (w : Until) (l : MutexLoc)
  | waitLoad (seen a : Nat) (w : Until) | waitClock (seen a : Nat) (w : Until)
    | waitCompare (seen a : Nat) (w : Until)
  | waitAsleep (seen a : Nat) (w : Until) | waitLock (err : Ret) (l : MutexLoc)
  | signalSeq | signalWake (n : Nat) | broadcastSeq | broadcastWake (n : Nat)
  deriving DecidableEq, Repr

/-- The calls a thread outside may make, the inputs of the mutex, and `run` for everything else. -/
inductive CondInput (Tid : Type)
  | wait (w : Until) | signal | broadcast
  | mutex (i : MutexInput Tid)
  | run
  deriving DecidableEq, Repr

variable {Tid : Type} [DecidableEq Tid]

/-- The wait is over, and the mutex is taken back without a deadline. -/
def CondState.retake (h : CondState Tid) (err : Ret) (w : Until) : CondLoc :=
  .waitLock err (h.mutex.mutex.lock ⟨w.clock, none⟩)

/-- `_sppc_win_wait` has returned 0: without a deadline any wake ends the wait. -/
def CondState.woken (h : CondState Tid) (seen a : Nat) (w : Until) : CondLoc :=
  if w.deadline = none then h.retake .zero w else .waitLoad seen a w

/-- The next access of the thread `t`. -/
def condAct (t : Tid) (i : CondInput Tid) (h : CondState Tid) : CondLoc → Option (CondState Tid × CondLoc)
  | .mutex l => match i, l with
    | .wait w, .out _ =>
      some (h, match checkDeadline w with | some e => .mutex (.out (.err e)) | none => .waitSeq w)
    | .signal, .out _ => some (h, .signalSeq)
    | .broadcast, .out _ => some (h, .broadcastSeq)
    | .mutex i, l => (mutexAct t i h.mutex l).map fun r => ({ h with mutex := r.1 }, .mutex r.2)
    | _, _ => none
  -- _sppc_win_cond_wait
  | .waitSeq w => some (h, .waitUnlock h.seq h.signals w h.mutex.mutex.unlock)
  | .waitUnlock seen a w l => match i with
    | .mutex i => (mutexAct t i h.mutex l).map fun r => ({ h with mutex := r.1 }, match r.2 with
      | .out .zero => .waitLoad seen a w
      | .out r => .mutex (.out r)
      | l => .waitUnlock seen a w l)
    | _ => none
  | .waitLoad seen a w => some (h, if h.seq = seen then .waitClock seen a w else h.retake .zero w)
  | .waitClock seen a w =>
    some (h, if waitMs (h.mutex.now.read w.clock) w.deadline = 0 then h.retake (.err .ETIMEDOUT) w
      else .waitCompare seen a w)
  | .waitCompare seen a w =>
    if h.seq = seen then some ({ h with sleepers := h.sleepers ++ [t] }, .waitAsleep seen a w)
    else some (h, h.woken seen a w)
  -- woken where `t` is no sleeper any more, and otherwise timed out or spurious
  | .waitAsleep seen a w => some ({ h with sleepers := h.sleepers.filter (· ≠ t) }, h.woken seen a w)
  | .waitLock err l => match i with
    | .mutex i => (mutexAct t i h.mutex l).map fun r => ({ h with mutex := r.1 }, match r.2 with
      | .out .zero => .mutex (.out err)
      | .out r => .mutex (.out r)
      | l => .waitLock err l)
    | _ => none
  -- _sppc_pthread_cond_signal and _broadcast
  | .signalSeq => some ({ h with seq := (h.seq + 1) % 2 ^ 32, signals := h.signals + 1 }, .signalWake h.signals)
  | .signalWake _ => some ({ h with sleepers := h.sleepers.tail }, .mutex (.out .zero))
  | .broadcastSeq => some ({ h with seq := (h.seq + 1) % 2 ^ 32, signals := h.signals + 1 }, .broadcastWake h.signals)
  | .broadcastWake _ => some ({ h with sleepers := [] }, .mutex (.out .zero))

abbrev CondSystem (Tid : Type) := Threads.State Tid (CondState Tid) CondLoc

abbrev CondEvent (Tid : Type) := Threads.Event Tid (CondInput Tid) Clocks

def CondSystem.init (kind : MutexKind) (now : Clocks) : CondSystem Tid :=
  ⟨⟨⟨.init kind, [], now, fun _ => 0⟩, 0, [], 0⟩, fun _ => .mutex (.out .zero)⟩

/-- One step of a thread, or the clocks move on. -/
def condStep : CondSystem Tid → CondEvent Tid → Option (CondSystem Tid) :=
  Threads.step condAct fun now h => some { h with mutex := { h.mutex with now := now } }

/-- The number of signals when the wait that a thread is inside read the sequence word. -/
def CondLoc.stamp : CondLoc → Option Nat
  | .waitUnlock _ a _ _ | .waitLoad _ a _ | .waitClock _ a _ | .waitCompare _ a _ | .waitAsleep _ a _ => some a
  | _ => none

/-- The thread has released the mutex in a wait, and not stopped waiting. -/
def CondLoc.Waiting : CondLoc → Prop
  | .waitUnlock _ _ _ .unlockWake | .waitLoad _ _ _ | .waitClock _ _ _ | .waitCompare _ _ _ | .waitAsleep _ _ _ =>
    True
  | _ => False

/-- Fewer than 2^32 signals have come during any of the waits. -/
def CondSystem.Few (s : CondSystem Tid) : Prop := ∀ t a, (s.loc t).stamp = some a → s.shared.signals < a + 2 ^ 32

/-- Some run leads from `s` to `s'`, with fewer than 2^32 signals during any one wait. -/
def CondReach : CondSystem Tid → CondSystem Tid → Prop :=
  Relation.ReflTransGen fun s s' => (∃ e, condStep s e = some s') ∧ s'.Few

/-- The mutex that the threads use, and where they are in its calls. -/
def CondLoc.toMutex : CondLoc → MutexLoc
  | .mutex l | .waitUnlock _ _ _ l | .waitLock _ l => l
  | _ => .out .zero

def CondSystem.toMutex (s : CondSystem Tid) : MutexSystem Tid := ⟨s.shared.mutex, fun t => (s.loc t).toMutex⟩

/-! ### The order of the sleepers -/

/-- What a wait has read, and when. -/
structure CondState.Read (h : CondState Tid) (seen a : Nat) (w : Until) : Prop where
  le : a ≤ h.signals
  seen : seen = a % 2 ^ 32
  checked : checkDeadline w = none

/-- What holds of a thread before its next access. -/
def CondLoc.Ok (h : CondState Tid) : CondLoc → Prop
  | .waitSeq w => checkDeadline w = none
  | .waitUnlock seen a w _ | .waitLoad seen a w | .waitClock seen a w | .waitCompare seen a w
    | .waitAsleep seen a w =>
    h.Read seen a w
  | .waitLock err _ => err = .zero ∨ err = .err .ETIMEDOUT
  | .signalWake n | .broadcastWake n => n < h.signals
  | _ => True

/-- The sleepers are those asleep, and whoever fell asleep first had seen no more signals. -/
structure CondInv (s : CondSystem Tid) : Prop where
  seq : s.shared.seq = s.shared.signals % 2 ^ 32
  loc : ∀ t, (s.loc t).Ok s.shared
  asleep : ∀ t ∈ s.shared.sleepers, ∃ seen a w, s.loc t = .waitAsleep seen a w
  nodup : s.shared.sleepers.Nodup
  sorted : s.shared.sleepers.Pairwise fun t u => ∀ a b, (s.loc t).stamp = some a → (s.loc u).stamp = some b → a ≤ b

variable {s s' : CondSystem Tid} {t u : Tid} {h h' : CondState Tid} {l l' : CondLoc}

omit [DecidableEq Tid] in
private theorem CondLoc.Ok.mono (hl : l.Ok h) (hle : h.signals ≤ h'.signals) : l.Ok h' := by
  cases l with
  | waitUnlock seen a w l | waitLoad seen a w | waitClock seen a w | waitCompare seen a w | waitAsleep seen a w =>
    exact ⟨Nat.le_trans hl.le hle, hl.seen, hl.checked⟩
  | signalWake n | broadcastWake n => exact Nat.lt_of_lt_of_le hl hle
  | _ => exact hl

omit [DecidableEq Tid] in
private theorem CondState.woken_ok {seen a : Nat} {w : Until} (hread : h.Read seen a w) :
    (h.woken seen a w).Ok h := by
  unfold CondState.woken
  split
  · exact Or.inl rfl
  · exact hread

omit [DecidableEq Tid] in
/-- Where no 2^32 signals have come since, an unchanged word means that none has. -/
theorem CondInv.no_lap (hi : CondInv s) (hfew : s.Few) {seen a : Nat} {w : Until} (hstamp : (s.loc t).stamp = some a)
    (hread : s.shared.Read seen a w) (hseq : s.shared.seq = seen) : a = s.shared.signals := by
  have hlt := hfew t a hstamp
  have hle := hread.le
  rw [hi.seq, hread.seen] at hseq
  omega

/-- A thread that is no sleeper moves on, and does not fall asleep. -/
private theorem CondInv.move (hi : CondInv s) (hseq : h'.seq = h'.signals % 2 ^ 32)
    (hle : s.shared.signals ≤ h'.signals) (hsleepers : h'.sleepers.Sublist s.shared.sleepers)
    (hawake : t ∉ h'.sleepers) (hl : l'.Ok h') : CondInv (s.put t h' l') := by
  have hne (u : Tid) (hu : u ∈ h'.sleepers) : (s.put t h' l').loc u = s.loc u := by
    refine State.put_of_ne ?_
    rintro rfl
    exact hawake hu
  constructor
  case seq => exact hseq
  case loc => exact State.put_forall (P := fun _ l => CondLoc.Ok h' l) hl fun u _ => (hi.loc u).mono hle
  case asleep =>
    intro u hu
    rw [hne u hu]
    exact hi.asleep u (hsleepers.subset hu)
  case nodup => exact hi.nodup.sublist hsleepers
  case sorted =>
    refine (hi.sorted.sublist hsleepers).imp_of_mem fun {u v} hu hv hle => ?_
    rw [hne u hu, hne v hv]
    exact hle

/-- A thread falls asleep behind all others. -/
private theorem CondInv.fallAsleep (hi : CondInv s) (hfew : s.Few) {seen a : Nat} {w : Until}
    (hloc : s.loc t = .waitCompare seen a w) (hseq : s.shared.seq = seen) :
    CondInv (s.put t { s.shared with sleepers := s.shared.sleepers ++ [t] } (.waitAsleep seen a w)) := by
  have hread := hi.loc t
  rw [hloc] at hread
  have hnow := hi.no_lap hfew (t := t) (by rw [hloc]; rfl) hread hseq
  have hnot : t ∉ s.shared.sleepers := by
    intro hmem
    obtain ⟨seen', a', w', hasleep⟩ := hi.asleep t hmem
    rw [hloc] at hasleep
    cases hasleep
  have hne (h : CondState Tid) (l : CondLoc) (u : Tid) (hu : u ∈ s.shared.sleepers) :
      (s.put t h l).loc u = s.loc u := by
    refine State.put_of_ne ?_
    rintro rfl
    exact hnot hu
  constructor
  case seq => exact hi.seq
  case loc =>
    refine State.put_forall (P := fun _ l => CondLoc.Ok { s.shared with sleepers := s.shared.sleepers ++ [t] } l) ?_
      fun u _ => (hi.loc u).mono (Nat.le_refl _)
    exact ⟨hread.le, hread.seen, hread.checked⟩
  case asleep =>
    intro u hu
    rcases List.mem_append.1 hu with hu | hu
    · rw [hne _ _ u hu]
      exact hi.asleep u hu
    · rw [List.mem_singleton.1 hu]
      exact ⟨seen, a, w, State.put_self⟩
  case nodup =>
    refine List.nodup_append.2 ⟨hi.nodup, List.pairwise_singleton _ _, ?_⟩
    rintro u hu v hv rfl
    exact hnot (List.mem_singleton.1 hv ▸ hu)
  case sorted =>
    refine List.pairwise_append.2 ⟨?_, List.pairwise_singleton _ _, ?_⟩
    · refine hi.sorted.imp_of_mem fun {u v} hu hv hle => ?_
      rw [hne _ _ u hu, hne _ _ v hv]
      exact hle
    · intro u hu v hv a' b ha' hb
      rw [List.mem_singleton.1 hv, State.put_self] at hb
      cases hb
      -- whoever sleeps already has seen no more signals than there are
      rw [hne _ _ u hu] at ha'
      obtain ⟨seen', b, w', hasleep⟩ := hi.asleep u hu
      have hread' := hi.loc u
      rw [hasleep] at ha' hread'
      cases ha'
      rw [hnow]
      exact hread'.le

omit [DecidableEq Tid] in
/-- A thread that is not inside a sleep is no sleeper. -/
private theorem CondInv.not_mem (hi : CondInv s) (hloc : ∀ seen a w, s.loc t ≠ .waitAsleep seen a w) :
    t ∉ s.shared.sleepers := by
  intro hmem
  obtain ⟨seen, a, w, hasleep⟩ := hi.asleep t hmem
  exact hloc seen a w hasleep

theorem CondInv.act {i : CondInput Tid} (hi : CondInv s) (hfew : s.Few)
    (hact : condAct t i s.shared (s.loc t) = some (h', l')) : CondInv (s.put t h' l') := by
  have hok := hi.loc t
  cases hloc : s.loc t <;> rw [hloc] at hact hok
  case waitCompare seen a w =>
    simp only [condAct] at hact
    split at hact <;> cases hact
    · exact hi.fallAsleep hfew hloc (by assumption)
    · exact hi.move hi.seq (Nat.le_refl _) (List.Sublist.refl _) (hi.not_mem (by simp [hloc]))
        (CondState.woken_ok hok)
  case waitAsleep seen a w =>
    cases hact
    refine hi.move hi.seq (Nat.le_refl _) List.filter_sublist (by simp) ?_
    exact (CondState.woken_ok hok).mono (Nat.le_refl _)
  all_goals have hawake : t ∉ s.shared.sleepers := hi.not_mem (by simp [hloc])
  case mutex l =>
    simp only [condAct] at hact
    split at hact
    · cases hact
      refine hi.move hi.seq (Nat.le_refl _) (List.Sublist.refl _) hawake ?_
      split
      · trivial
      · assumption
    · cases hact
      exact hi.move hi.seq (Nat.le_refl _) (List.Sublist.refl _) hawake trivial
    · cases hact
      exact hi.move hi.seq (Nat.le_refl _) (List.Sublist.refl _) hawake trivial
    · obtain ⟨r, -, heq⟩ := Option.map_eq_some_iff.1 hact
      cases heq
      exact hi.move hi.seq (Nat.le_refl _) (List.Sublist.refl _) hawake trivial
    · cases hact
  case waitSeq w =>
    cases hact
    exact hi.move hi.seq (Nat.le_refl _) (List.Sublist.refl _) hawake ⟨Nat.le_refl _, hi.seq, hok⟩
  case waitUnlock seen a w l =>
    cases i with
    | mutex i =>
      obtain ⟨r, -, heq⟩ := Option.map_eq_some_iff.1 hact
      cases heq
      refine hi.move hi.seq (Nat.le_refl _) (List.Sublist.refl _) hawake ?_
      split
      · exact ⟨hok.le, hok.seen, hok.checked⟩
      · trivial
      · exact ⟨hok.le, hok.seen, hok.checked⟩
    | _ => cases hact
  case waitLoad seen a w =>
    cases hact
    refine hi.move hi.seq (Nat.le_refl _) (List.Sublist.refl _) hawake ?_
    split
    · exact hok
    · exact Or.inl rfl
  case waitClock seen a w =>
    cases hact
    refine hi.move hi.seq (Nat.le_refl _) (List.Sublist.refl _) hawake ?_
    split
    · exact Or.inr rfl
    · exact hok
  case waitLock err l =>
    cases i with
    | mutex i =>
      obtain ⟨r, -, heq⟩ := Option.map_eq_some_iff.1 hact
      cases heq
      refine hi.move hi.seq (Nat.le_refl _) (List.Sublist.refl _) hawake ?_
      split
      · trivial
      · trivial
      · exact hok
    | _ => cases hact
  case signalSeq | broadcastSeq =>
    cases hact
    refine hi.move ?_ (Nat.le_succ _) (List.Sublist.refl _) hawake (Nat.lt_succ_self _)
    simp only [hi.seq]
    omega
  case signalWake n =>
    cases hact
    exact hi.move hi.seq (Nat.le_refl _) (List.tail_sublist _)
      (fun hmem => hawake (List.mem_of_mem_tail hmem)) trivial
  case broadcastWake n =>
    cases hact
    exact hi.move hi.seq (Nat.le_refl _) (List.nil_sublist _) (List.not_mem_nil) trivial

theorem CondInv.step {e : CondEvent Tid} (hi : CondInv s) (hfew : s.Few) (hstep : condStep s e = some s') :
    CondInv s' := by
  cases e with
  | thread t i =>
    obtain ⟨h', l', hact, rfl⟩ := step_thread.1 hstep
    exact hi.act hfew hact
  | env now =>
    cases hstep
    exact ⟨hi.seq, fun t => (hi.loc t).mono (Nat.le_refl _), hi.asleep, hi.nodup, hi.sorted⟩

end Sppc.Windows
