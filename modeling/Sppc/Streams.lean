import Sppc.TaskMutex

/-!
# The standard streams (`platform/common.h`, `macros.h`)

Any number of tasks, each on one OS thread, call `sppc_stdin_read`, `sppc_stdout_write` and `sppc_stderr_write`.  A
step is one call of the platform's mutex, what `_gt_lock_until` does between two of them, the start or the end of the
read or the write inside, or its parking on the ring.
-/

namespace Sppc

open Threads Transition
open Windows (Errno)

inductive Stream
  | stdin | stdout | stderr
  deriving DecidableEq, Repr

/-- What a call returns: the error of its lock or of its unlock, what the read or the write inside returned where it
is not 0, or else what that has stored and the error where this is negative. -/
inductive StreamRes
  | lockErr (e : Errno) | unlockErr (e : Errno)
  | rc (rc : Int)
  | stored (n : Int) (err : Int)
  deriving DecidableEq, Repr

/-- A call that has returned, with how often it took the stream's lock, released it, and entered the read or the
write. -/
structure StreamCall (Task : Type) where
  task : Task
  stream : Stream
  took : Nat
  released : Nat
  entered : Nat
  res : StreamRes

/-- The streams' mutexes, the task that each OS thread runs, and the counts of each task's last call. -/
structure StreamState (Os Task : Type) where
  mutex : Stream → PthreadMutex Os
  running : Os → Task
  took : Task → Nat
  released : Task → Nat
  entered : Task → Nat
  returned : List (StreamCall Task)

/-- Where a task is: outside, in `_gt_lock_until`, before the read or the write, in it, or after it. -/
inductive StreamLoc
  | out
  | attempt (c : Stream) | busy (c : Stream) | step (c : Stream) | block (c : Stream)
  | call (c : Stream)
  | inside (c : Stream)
  | unlock (c : Stream) (rc n err : Int)
  deriving DecidableEq, Repr

/-- A call; what the platform's mutex and `_gt_has_other_work` say; whose turn it is next; and what the read or the
write returned and stored, with the error that its last failure left. -/
inductive StreamInput (Task : Type)
  | start (c : Stream)
  | fail (e : Errno) | run
  | work (other : Bool)
  | turn (u : Task)
  | ret (rc n err : Int)

variable {Os Task : Type} [DecidableEq Os] [DecidableEq Task]

/-- The lock has been taken. -/
def StreamState.lock (h : StreamState Os Task) (t : Task) (c : Stream) (m : PthreadMutex Os) : StreamState Os Task :=
  { h with mutex := Function.update h.mutex c m, took := Function.update h.took t (h.took t + 1) }

/-- The call returns. -/
def StreamState.ret (h : StreamState Os Task) (t : Task) (c : Stream) (res : StreamRes) : StreamState Os Task :=
  { h with returned := h.returned ++ [⟨t, c, h.took t, h.released t, h.entered t, res⟩] }

/-- The lock has been released. -/
def StreamState.unlock (h : StreamState Os Task) (t : Task) (c : Stream) (m : PthreadMutex Os) :
    StreamState Os Task :=
  { h with mutex := Function.update h.mutex c m, released := Function.update h.released t (h.released t + 1) }

/-- The end of a call that has got so far: `_return_if_guarded_err`, and then the store and the normalised error. -/
def guardedRes (rc n err : Int) : StreamRes :=
  if rc ≠ 0 then .rc rc else .stored (if n < 0 then -1 else n) (if n < 0 then err else 0)

/-- The next step of the task `t`, while its OS thread runs it. -/
def streamAct (os : Task → Os) (t : Task) (i : StreamInput Task) (h : StreamState Os Task) (l : StreamLoc) :
    Option (StreamState Os Task × StreamLoc) :=
  if h.running (os t) ≠ t then none else match l, i with
  | .out, .start c =>
    some ({ h with
      took := Function.update h.took t 0
      released := Function.update h.released t 0
      entered := Function.update h.entered t 0 }, .attempt c)
  -- _gt_lock_until
  | .attempt c, .run => match (h.mutex c).trylock (os t) with
    | .ok m => some (h.lock t c m, .call c)
    | .error .EBUSY => some (h, .busy c)
    | .error e => some (h.ret t c (.lockErr e), .out)
  | .busy c, .work other => some (h, if other then .step c else .block c)
  | .block c, .run => match (h.mutex c).lock (os t) with
    | some (.ok m) => some (h.lock t c m, .call c)
    | some (.error e) => some (h.ret t c (.lockErr e), .out)
    | none => none
  | .attempt c, .fail e | .block c, .fail e => some (h.ret t c (.lockErr e), .out)
  -- the read or the write
  | .call c, .run => some ({ h with entered := Function.update h.entered t (h.entered t + 1) }, .inside c)
  | .inside c, .ret rc n err => some (h, .unlock c rc n err)
  -- _gt_mutex_unlock
  | .unlock c rc n err, .run => match (h.mutex c).unlock (os t) with
    | .ok m => some ((h.unlock t c m).ret t c (guardedRes rc n err), .out)
    | .error e => some (h.ret t c (.unlockErr e), .out)
  -- where a task lets others move
  | .out, .turn u | .inside _, .turn u =>
    if os u = os t then some ({ h with running := Function.update h.running (os t) u }, l) else none
  | .step c, .turn u =>
    if os u = os t then some ({ h with running := Function.update h.running (os t) u }, .attempt c) else none
  | _, _ => none

abbrev StreamSystem (Os Task : Type) := Threads.State Task (StreamState Os Task) StreamLoc

abbrev StreamEvent (Task : Type) := Threads.Event Task (StreamInput Task) Empty

/-- The streams at the start, with `running` the tasks that the OS threads run. -/
def StreamSystem.init (running : Os → Task) : StreamSystem Os Task :=
  ⟨⟨fun _ => .init .normal, running, fun _ => 0, fun _ => 0, fun _ => 0, []⟩, fun _ => .out⟩

/-- One step of a task. -/
def streamStep (os : Task → Os) : StreamSystem Os Task → StreamEvent Task → Option (StreamSystem Os Task) :=
  Threads.step (streamAct os) fun e _ => e.elim

/-! ### The invariant -/

/-- The call has taken the lock of the stream and not released it. -/
def StreamLoc.Holds (c : Stream) : StreamLoc → Prop
  | .call c' | .inside c' | .unlock c' _ _ _ => c' = c
  | _ => False

/-- What the call of a task has done so far. -/
def StreamLoc.Ok (h : StreamState Os Task) (t : Task) : StreamLoc → Prop
  | .out => True
  | .attempt _ | .busy _ | .step _ | .block _ => h.took t = 0 ∧ h.released t = 0 ∧ h.entered t = 0
  | .call _ => h.took t = 1 ∧ h.released t = 0 ∧ h.entered t = 0
  | .inside _ | .unlock _ _ _ _ => h.took t = 1 ∧ h.released t = 0 ∧ h.entered t = 1

/-- A call that has returned released the lock as often as it took it, and read or wrote only if it took it. -/
structure StreamCall.Ok (r : StreamCall Task) : Prop where
  took : r.took ≤ 1
  released : r.released = r.took
  entered : r.entered = r.took

/-- Each stream's mutex is normal, and held by the OS thread of the one task that holds the stream. -/
structure StreamInv (os : Task → Os) (s : StreamSystem Os Task) : Prop where
  normal : ∀ c, (s.shared.mutex c).kind = .normal
  free : ∀ c, (s.shared.mutex c).owner = none → ∀ t, ¬(s.loc t).Holds c
  owned : ∀ c t, (s.loc t).Holds c → (s.shared.mutex c).owner = some (os t)
  held : ∀ c, (s.shared.mutex c).owner ≠ none → ∃ t, (s.loc t).Holds c
  one : ∀ c t u, (s.loc t).Holds c → (s.loc u).Holds c → t = u
  loc : ∀ t, (s.loc t).Ok s.shared t
  returned : ∀ r ∈ s.shared.returned, r.Ok

variable {os : Task → Os} {s s' : StreamSystem Os Task} {t u : Task} {i : StreamInput Task}
  {h h' : StreamState Os Task} {l l' : StreamLoc} {c : Stream} {m : PthreadMutex Os} {res : StreamRes}

/-- A step of the task `t` leaves what the other calls have counted. -/
structure StreamKeeps (t : Task) (h h' : StreamState Os Task) : Prop where
  took : ∀ u ≠ t, h'.took u = h.took u
  released : ∀ u ≠ t, h'.released u = h.released u
  entered : ∀ u ≠ t, h'.entered u = h.entered u

omit [DecidableEq Os] [DecidableEq Task] in
private theorem StreamLoc.Ok.others (hl : l.Ok h u) (hk : StreamKeeps t h h') (hu : u ≠ t) : l.Ok h' u := by
  cases l <;> simp only [StreamLoc.Ok, hk.took u hu, hk.released u hu, hk.entered u hu] at hl ⊢ <;> exact hl

omit [DecidableEq Os] in
/-- A task moves on, and holds what it held. -/
private theorem StreamInv.stay (hi : StreamInv os s) (hmutex : h'.mutex = s.shared.mutex)
    (hholds : ∀ c, l'.Holds c ↔ (s.loc t).Holds c) (hk : StreamKeeps t s.shared h') (hl : l'.Ok h' t)
    (hreturned : ∀ r ∈ h'.returned, r ∈ s.shared.returned ∨ r.Ok) : StreamInv os (s.put t h' l') := by
  have hsame (c : Stream) (u : Task) : ((s.put t h' l').loc u).Holds c ↔ (s.loc u).Holds c :=
    State.put_forall (P := fun u l => StreamLoc.Holds c l ↔ (s.loc u).Holds c) (hholds c) (fun _ _ => Iff.rfl) u
  refine ⟨?_, fun c hf u hu => ?_, fun c u hu => ?_, fun c hne => ?_, fun c u v hu hv => ?_, ?_, fun r hr => ?_⟩
  · rw [State.put_shared, hmutex]
    exact hi.normal
  · rw [State.put_shared, hmutex] at hf
    exact hi.free c hf u ((hsame c u).1 hu)
  · rw [State.put_shared, hmutex]
    exact hi.owned c u ((hsame c u).1 hu)
  · rw [State.put_shared, hmutex] at hne
    obtain ⟨u, hu⟩ := hi.held c hne
    exact ⟨u, (hsame c u).2 hu⟩
  · exact hi.one c u v ((hsame c u).1 hu) ((hsame c v).1 hv)
  · exact State.put_forall (P := fun u l => StreamLoc.Ok h' u l) hl fun u hu => (hi.loc u).others hk hu
  · rcases hreturned r hr with hold | hok
    · exact hi.returned r hold
    · exact hok

/-- A task takes the lock of a stream, which nobody has. -/
private theorem StreamInv.lock (hi : StreamInv os s) (hm : (s.shared.mutex c).trylock (os t) = .ok m)
    (hnot : ∀ c, ¬(s.loc t).Holds c)
    (hzero : s.shared.took t = 0 ∧ s.shared.released t = 0 ∧ s.shared.entered t = 0) :
    StreamInv os (s.put t (s.shared.lock t c m) (.call c)) := by
  rcases PthreadMutex.trylock_ok hm with ⟨hfree, rfl⟩ | ⟨hkind, -⟩
  swap
  · rw [hi.normal c] at hkind
    cases hkind
  have hnone := hi.free c hfree
  have hmutex (c' : Stream) (hne : c' ≠ c) : (s.shared.lock t c { s.shared.mutex c with
      owner := some (os t), count := 1 }).mutex c' = s.shared.mutex c' := Function.update_of_ne hne _ _
  have hself : (s.shared.lock t c { s.shared.mutex c with owner := some (os t), count := 1 }).mutex c =
      { s.shared.mutex c with owner := some (os t), count := 1 } := Function.update_self c _ _
  have hother (c' : Stream) (u : Task) (hu : u ≠ t) (hh : ((s.put t (s.shared.lock t c { s.shared.mutex c with
      owner := some (os t), count := 1 }) (.call c)).loc u).Holds c') : (s.loc u).Holds c' ∧ c' ≠ c := by
    rw [State.put_of_ne hu] at hh
    refine ⟨hh, ?_⟩
    rintro rfl
    exact hnone u hh
  refine ⟨fun c' => ?_, fun c' hf u hh => ?_, fun c' u hh => ?_, fun c' hne => ?_, fun c' u v hu hv => ?_, ?_,
    hi.returned⟩
  · rw [State.put_shared]
    by_cases hc : c' = c
    · subst hc
      rw [hself]
      exact hi.normal c'
    · rw [hmutex c' hc]
      exact hi.normal c'
  · rw [State.put_shared] at hf
    by_cases hc : c' = c
    · subst hc
      rw [hself] at hf
      cases hf
    · rw [hmutex c' hc] at hf
      by_cases hu : u = t
      · subst hu
        rw [State.put_self] at hh
        exact hc hh.symm
      · exact hi.free c' hf u (hother c' u hu hh).1
  · rw [State.put_shared]
    by_cases hu : u = t
    · subst hu
      rw [State.put_self] at hh
      cases hh
      rw [hself]
    · obtain ⟨hhold, hc⟩ := hother c' u hu hh
      rw [hmutex c' hc]
      exact hi.owned c' u hhold
  · by_cases hc : c' = c
    · subst hc
      exact ⟨t, by rw [State.put_self]; rfl⟩
    · rw [State.put_shared, hmutex c' hc] at hne
      obtain ⟨u, hu⟩ := hi.held c' hne
      refine ⟨u, ?_⟩
      rw [State.put_of_ne]
      · exact hu
      · rintro rfl
        exact hnot c' hu
  · by_cases hut : u = t
    · subst hut
      rw [State.put_self] at hu
      cases hu
      by_contra hne
      exact (hother c v (Ne.symm hne) hv).2 rfl
    · obtain ⟨hhold, hc⟩ := hother c' u hut hu
      by_cases hvt : v = t
      · subst hvt
        rw [State.put_self] at hv
        exact absurd hv.symm hc
      · exact hi.one c' u v hhold (hother c' v hvt hv).1
  · refine State.put_forall (P := fun u l => StreamLoc.Ok _ u l) ?_ fun u hu =>
      (hi.loc u).others ⟨fun v hv => Function.update_of_ne hv _ _, fun _ _ => rfl, fun _ _ => rfl⟩ hu
    exact ⟨(Function.update_self _ _ _).trans (congrArg (· + 1) hzero.1), hzero.2.1, hzero.2.2⟩

/-- A task releases the lock of its stream, and its call returns. -/
private theorem StreamInv.unlock {rc n err : Int} (hi : StreamInv os s) (hloc : s.loc t = .unlock c rc n err)
    (hm : (s.shared.mutex c).unlock (os t) = .ok m) :
    StreamInv os (s.put t ((s.shared.unlock t c m).ret t c res) .out) := by
  obtain ⟨-, ⟨hkind, -⟩ | ⟨-, rfl⟩⟩ := PthreadMutex.unlock_ok hm
  · rw [hi.normal c] at hkind
    cases hkind
  have hhold : (s.loc t).Holds c := by rw [hloc]; rfl
  have hok := hi.loc t
  rw [hloc] at hok
  obtain ⟨htook, hreleased, hentered⟩ := hok
  have hmutex (c' : Stream) (hne : c' ≠ c) : ((s.shared.unlock t c { s.shared.mutex c with
      owner := none, count := 0 }).ret t c res).mutex c' = s.shared.mutex c' := Function.update_of_ne hne _ _
  have hself : ((s.shared.unlock t c { s.shared.mutex c with owner := none, count := 0 }).ret t c res).mutex c =
      { s.shared.mutex c with owner := none, count := 0 } := Function.update_self c _ _
  have hother (c' : Stream) (u : Task) (hh : ((s.put t ((s.shared.unlock t c { s.shared.mutex c with
      owner := none, count := 0 }).ret t c res) .out).loc u).Holds c') : (s.loc u).Holds c' ∧ c' ≠ c := by
    have hu : u ≠ t := by
      rintro rfl
      rw [State.put_self] at hh
      exact hh
    rw [State.put_of_ne hu] at hh
    refine ⟨hh, ?_⟩
    rintro rfl
    exact hu (hi.one c' u t hh hhold)
  refine ⟨fun c' => ?_, fun c' hf u hh => ?_, fun c' u hh => ?_, fun c' hne => ?_, fun c' u v hu hv => ?_, ?_,
    fun r hr => ?_⟩
  · rw [State.put_shared]
    by_cases hc : c' = c
    · subst hc
      rw [hself]
      exact hi.normal c'
    · rw [hmutex c' hc]
      exact hi.normal c'
  · obtain ⟨hold, hc⟩ := hother c' u hh
    rw [State.put_shared, hmutex c' hc] at hf
    exact hi.free c' hf u hold
  · obtain ⟨hold, hc⟩ := hother c' u hh
    rw [State.put_shared, hmutex c' hc]
    exact hi.owned c' u hold
  · have hc : c' ≠ c := by
      rintro rfl
      rw [State.put_shared, hself] at hne
      exact hne rfl
    rw [State.put_shared, hmutex c' hc] at hne
    obtain ⟨u, hu⟩ := hi.held c' hne
    refine ⟨u, ?_⟩
    rw [State.put_of_ne]
    · exact hu
    · rintro rfl
      rw [hloc] at hu
      exact hc hu.symm
  · exact hi.one c' u v (hother c' u hu).1 (hother c' v hv).1
  · exact State.put_forall (P := fun u l => StreamLoc.Ok _ u l) trivial fun u hu =>
      (hi.loc u).others ⟨fun _ _ => rfl, fun v hv => Function.update_of_ne hv _ _, fun _ _ => rfl⟩ hu
  · rcases List.mem_append.1 hr with hr | hr
    · exact hi.returned r hr
    · rw [List.mem_singleton.1 hr]
      refine ⟨htook.le, ?_, hentered.trans htook.symm⟩
      exact (Function.update_self _ _ _).trans ((congrArg (· + 1) hreleased).trans htook.symm)

omit [DecidableEq Os] in
/-- A call returns that has not taken the lock. -/
private theorem StreamInv.lockErr {e : Errno} (hi : StreamInv os s) (hnot : ∀ c, ¬(s.loc t).Holds c)
    (hzero : s.shared.took t = 0 ∧ s.shared.released t = 0 ∧ s.shared.entered t = 0) :
    StreamInv os (s.put t (s.shared.ret t c (.lockErr e)) .out) := by
  refine hi.stay rfl (fun c => iff_of_false (fun h => h) (hnot c)) ⟨fun _ _ => rfl, fun _ _ => rfl, fun _ _ => rfl⟩
    trivial fun r hr => ?_
  rcases List.mem_append.1 hr with hr | hr
  · exact Or.inl hr
  · rw [List.mem_singleton.1 hr]
    obtain ⟨htook, hreleased, hentered⟩ := hzero
    exact Or.inr ⟨htook.le.trans (Nat.zero_le 1), hreleased.trans htook.symm, hentered.trans htook.symm⟩

private theorem StreamInv.act (hi : StreamInv os s) (hact : streamAct os t i s.shared (s.loc t) = some (h', l')) :
    StreamInv os (s.put t h' l') := by
  have hok := hi.loc t
  have hkeep : StreamKeeps t s.shared s.shared := ⟨fun _ _ => rfl, fun _ _ => rfl, fun _ _ => rfl⟩
  unfold streamAct at hact
  split at hact
  · cases hact
  split at hact
  case h_1 c hloc =>
    cases hact
    refine hi.stay rfl (fun c => ?_)
      ⟨fun v hv => Function.update_of_ne hv _ _, fun v hv => Function.update_of_ne hv _ _,
        fun v hv => Function.update_of_ne hv _ _⟩
      ⟨Function.update_self _ _ _, Function.update_self _ _ _, Function.update_self _ _ _⟩ fun r hr => Or.inl hr
    rw [hloc]
    rfl
  case h_2 c hloc =>
    have hnot (c : Stream) : ¬(s.loc t).Holds c := by rw [hloc]; exact id
    rw [hloc] at hok
    split at hact <;> cases hact
    case h_1 m hm => exact hi.lock hm hnot hok
    case h_2 =>
      refine hi.stay rfl (fun c => ?_) hkeep hok fun r hr => Or.inl hr
      rw [hloc]
      rfl
    case h_3 => exact hi.lockErr hnot hok
  case h_3 c other hloc =>
    rw [hloc] at hok
    cases hact
    refine hi.stay rfl (fun c => ?_) hkeep ?_ fun r hr => Or.inl hr
    · rw [hloc]
      cases other <;> rfl
    · cases other <;> exact hok
  case h_4 c hloc =>
    have hnot (c : Stream) : ¬(s.loc t).Holds c := by rw [hloc]; exact id
    rw [hloc] at hok
    split at hact <;> cases hact
    case h_1 m hm => exact hi.lock (PthreadMutex.lock_ok hm) hnot hok
    case h_2 => exact hi.lockErr hnot hok
  case h_5 c e hloc | h_6 c e hloc =>
    have hnot (c : Stream) : ¬(s.loc t).Holds c := by rw [hloc]; exact id
    rw [hloc] at hok
    cases hact
    exact hi.lockErr hnot hok
  case h_7 c hloc =>
    rw [hloc] at hok
    cases hact
    obtain ⟨htook, hreleased, hentered⟩ := hok
    refine hi.stay rfl (fun c => ?_) ⟨fun _ _ => rfl, fun _ _ => rfl, fun v hv => Function.update_of_ne hv _ _⟩
      ⟨htook, hreleased, (Function.update_self _ _ _).trans (congrArg (· + 1) hentered)⟩ fun r hr => Or.inl hr
    rw [hloc]
    rfl
  case h_8 c rc n err hloc =>
    rw [hloc] at hok
    cases hact
    refine hi.stay rfl (fun c => ?_) hkeep hok fun r hr => Or.inl hr
    rw [hloc]
    rfl
  case h_9 c rc n err hloc =>
    split at hact <;> cases hact
    case h_1 m hm => exact hi.unlock hloc hm
    case h_2 e he =>
      have howner := hi.owned c t (by rw [hloc]; rfl)
      rw [PthreadMutex.unlock, if_neg (not_not.2 howner)] at he
      cases he
  case h_10 u hloc | h_11 u hloc =>
    split at hact <;> cases hact
    refine hi.stay rfl (fun c => Iff.rfl) ⟨fun _ _ => rfl, fun _ _ => rfl, fun _ _ => rfl⟩ ?_ fun r hr => Or.inl hr
    rw [hloc] at hok ⊢
    exact hok
  case h_12 u hloc =>
    rw [hloc] at hok
    split at hact <;> cases hact
    refine hi.stay rfl (fun c => ?_) ⟨fun _ _ => rfl, fun _ _ => rfl, fun _ _ => rfl⟩ hok fun r hr => Or.inl hr
    rw [hloc]
    rfl
  case h_13 => cases hact

private theorem StreamInv.step {e : StreamEvent Task} (hi : StreamInv os s) (hstep : streamStep os s e = some s') :
    StreamInv os s' := by
  cases e with
  | thread t i =>
    obtain ⟨h, l, hact, rfl⟩ := step_thread.1 hstep
    exact hi.act hact
  | env e => exact e.elim

omit [DecidableEq Os] [DecidableEq Task] in
private theorem StreamInv.init (os : Task → Os) (running : Os → Task) : StreamInv os (.init running) where
  normal _ := rfl
  free _ _ _ h := h
  owned _ _ h := h.elim
  held _ h := absurd rfl h
  one _ _ _ h := h.elim
  loc _ := trivial
  returned _ hr := (List.not_mem_nil hr).elim

/-- At most one task reads or writes each stream, and has its lock; a stream's mutex is held just while a task is in a
call that has taken it and not released it.  A call that has returned took the lock at most once,
released it if it did, and read or wrote exactly then. -/
structure StreamsOk (s : StreamSystem Os Task) : Prop where
  one : ∀ c t u, s.loc t = .inside c → s.loc u = .inside c → t = u
  locked : ∀ c t, s.loc t = .inside c → s.shared.took t = 1 ∧ s.shared.released t = 0
  held : ∀ c, (s.shared.mutex c).owner ≠ none ↔ ∃ t, (s.loc t).Holds c
  returned : ∀ r ∈ s.shared.returned, r.took ≤ 1 ∧ r.released = r.took ∧ r.entered = r.took

omit [DecidableEq Os] [DecidableEq Task] in
private theorem StreamInv.ok (hi : StreamInv os s) : StreamsOk s where
  one c t u ht hu := hi.one c t u (by rw [ht]; rfl) (by rw [hu]; rfl)
  locked c t ht := by
    have hok := hi.loc t
    rw [ht] at hok
    exact ⟨hok.1, hok.2.1⟩
  held c := by
    refine ⟨hi.held c, fun ⟨t, ht⟩ hnone => ?_⟩
    exact hi.free c hnone t ht
  returned r hr := by
    obtain ⟨htook, hreleased, hentered⟩ := hi.returned r hr
    exact ⟨htook, hreleased, hentered⟩

/-- In every run of tasks that read and write the standard streams. -/
theorem streams_ok {running : Os → Task} (h : Reach (streamStep os) (.init running) s) : StreamsOk s :=
  (h.invariant (P := StreamInv os) (fun _ _ _ hi hstep => hi.step hstep) (.init os running)).ok

/-- Two tasks of one OS thread write: the second finds the stream held while the first is parked inside, and then gets
it. -/
theorem streams_ok_parked : ∃ s : StreamSystem Unit (Fin 2), StreamsOk s ∧ s.loc 1 = .inside .stdout ∧
    s.shared.returned.map (fun r => (r.task, r.res)) = [(0, .rc 5)] := by
  have hrun : (Transition.run (streamStep fun _ : Fin 2 => ()) (.init fun _ => 0)
      [.thread 0 (.start .stdout), .thread 0 .run, .thread 0 .run, .thread 0 (.turn 1), .thread 1 (.start .stdout),
        .thread 1 .run, .thread 1 (.work true), .thread 1 (.turn 0), .thread 0 (.ret 5 0 0), .thread 0 .run,
        .thread 0 (.turn 1), .thread 1 .run, .thread 1 .run]).map
          (fun s => (s.loc 1, s.shared.returned.map fun r => (r.task, r.res))) =
      some (.inside .stdout, [(0, .rc 5)]) := by
    decide +kernel
  obtain ⟨s, hs, heq⟩ := Option.map_eq_some_iff.1 hrun
  exact ⟨s, streams_ok ⟨_, hs⟩, Prod.mk.inj heq⟩

end Sppc
