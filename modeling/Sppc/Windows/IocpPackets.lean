import Mathlib.Data.List.Nodup
import Mathlib.Data.List.Perm.Basic
import Sppc.Transition
import Sppc.Windows.Iocp

/-!
# The packets of a completion port

Each task that waits for an operation has one packet to come, and `inflight` counts these and the sleepers.
-/

namespace Sppc.Windows

open Transition

namespace Iocp

variable {s s' : Iocp} {t : Nat}

/-! ### What the steps change -/

/-- The packets to come, and those on the port, but for the timer's. -/
def flight (s : Iocp) : List Nat := s.pending ++ operations s.port

/-- The task whose operation has started, and which is not yet parked. -/
def opening (s : Iocp) : List Nat := if s.phase = .starting then [s.current] else []

@[simp] theorem operations_append (p q : List (Option Nat)) : operations (p ++ q) = operations p ++ operations q :=
  List.filterMap_append

private theorem state_modify (f : IocpTask → IocpTask) :
    (s.modify t f).state = Function.update s.state t (f (s.slots t)).state := by
  funext u
  by_cases hu : u = t
  · subst hu
    simp [state, modify]
  · simp [state, modify, hu]

private theorem handle_modify (f : IocpTask → IocpTask) :
    (s.modify t f).handle = Function.update s.handle t (f (s.slots t)).handle := by
  funext u
  by_cases hu : u = t
  · subst hu
    simp [handle, modify]
  · simp [handle, modify, hu]

theorem deadline_modify (f : IocpTask → IocpTask) :
    (s.modify t f).deadline = Function.update s.deadline t (f (s.slots t)).deadline := by
  funext u
  by_cases hu : u = t
  · subst hu
    simp [deadline, modify]
  · simp [deadline, modify, hu]

@[simp] theorem state_setState (st : GtState) : (s.setState t st).state = Function.update s.state t st :=
  state_modify (s := s) (t := t) fun task => { task with state := st }

@[simp] theorem handle_setState (st : GtState) : (s.setState t st).handle = s.handle :=
  (handle_modify (s := s) (t := t) fun task => { task with state := st }).trans (Function.update_eq_self _ _)

@[simp] theorem state_push : (s.push t).state = Function.update s.state t .ready := state_setState _

@[simp] theorem handle_push : (s.push t).handle = s.handle := handle_setState _

end Iocp

/-! ### The tasks -/

/-- The run queue holds the ready tasks, and one task at most runs. -/
structure TasksOk (state : Nat → GtState) (nslots current : Nat) (rq : List Nat) : Prop where
  running : ∀ t, state t = .running → t = current
  nodup : rq.Nodup
  ready : ∀ t, t ∈ rq ↔ state t = .ready
  lt : ∀ t, state t ≠ .free → t < nslots

section tasks

variable {state : Nat → GtState} {nslots current t : Nat} {rq ts : List Nat} {st : GtState}

/-- A task that is not on the run queue changes its state, and does not get there. -/
private theorem TasksOk.move (h : TasksOk state nslots current rq) (ht : state t ≠ .ready) (hfree : state t ≠ .free)
    (hready : st ≠ .ready) (hrunning : st ≠ .running) : TasksOk (Function.update state t st) nslots current rq where
  running u hu := by
    by_cases hut : u = t
    · subst hut
      rw [Function.update_self] at hu
      exact absurd hu hrunning
    · rw [Function.update_of_ne hut] at hu
      exact h.running u hu
  nodup := h.nodup
  ready u := by
    by_cases hut : u = t
    · subst hut
      rw [Function.update_self]
      exact iff_of_false (fun hu => ht ((h.ready u).1 hu)) hready
    · rw [Function.update_of_ne hut]
      exact h.ready u
  lt u hu := by
    by_cases hut : u = t
    · subst hut
      exact h.lt u hfree
    · rw [Function.update_of_ne hut] at hu
      exact h.lt u hu

/-- A task goes to the end of the run queue. -/
theorem TasksOk.push (h : TasksOk state nslots current rq) (ht : state t ≠ .ready) (hlt : t < nslots) :
    TasksOk (Function.update state t .ready) nslots current (rq ++ [t]) where
  running u hu := by
    by_cases hut : u = t
    · subst hut
      rw [Function.update_self] at hu
      cases hu
    · rw [Function.update_of_ne hut] at hu
      exact h.running u hu
  nodup := by
    refine List.nodup_append.2 ⟨h.nodup, List.nodup_singleton t, fun a ha b hb heq => ?_⟩
    rw [List.mem_singleton] at hb
    rw [heq, hb] at ha
    exact ht ((h.ready t).1 ha)
  ready u := by
    rw [List.mem_append, List.mem_singleton]
    by_cases hut : u = t
    · subst hut
      simp
    · rw [Function.update_of_ne hut, h.ready u]
      simp [hut]
  lt u hu := by
    by_cases hut : u = t
    · subst hut
      exact hlt
    · rw [Function.update_of_ne hut] at hu
      exact h.lt u hu

/-- The head of the run queue runs. -/
private theorem TasksOk.pop (h : TasksOk state nslots current (t :: ts)) (hnone : state current ≠ .running) :
    TasksOk (Function.update state t .running) nslots t ts where
  running u hu := by
    by_contra hut
    rw [Function.update_of_ne hut] at hu
    rw [h.running u hu] at hu
    exact hnone hu
  nodup := (List.nodup_cons.1 h.nodup).2
  ready u := by
    by_cases hut : u = t
    · subst hut
      rw [Function.update_self]
      exact iff_of_false (List.nodup_cons.1 h.nodup).1 nofun
    · rw [Function.update_of_ne hut, ← h.ready u]
      simp [hut]
  lt u hu := by
    by_cases hut : u = t
    · subst hut
      exact h.lt u (by rw [(h.ready u).1 List.mem_cons_self]; exact nofun)
    · rw [Function.update_of_ne hut] at hu
      exact h.lt u hu

/-- The running task gives way. -/
theorem TasksOk.yield (h : TasksOk state nslots current (t :: ts)) (hrunning : state current = .running) :
    TasksOk (Function.update (Function.update state current .ready) t .running) nslots t (ts ++ [current]) := by
  have hpush := h.push (t := current) (by rw [hrunning]; exact nofun) (h.lt current (by rw [hrunning]; exact nofun))
  refine hpush.pop ?_
  rw [Function.update_self]
  exact nofun

/-- A slot is made a task's. -/
theorem TasksOk.spawn (h : TasksOk state nslots current rq) (ht : t < nslots ∧ state t = .done ∨ t = nslots) :
    TasksOk (Function.update state t .ready) (max nslots (t + 1)) current (rq ++ [t]) := by
  have hready : state t ≠ .ready := by
    intro hr
    rcases ht with ⟨-, hdone⟩ | rfl
    · rw [hr] at hdone
      cases hdone
    · exact absurd (h.lt t (by rw [hr]; exact nofun)) (Nat.lt_irrefl t)
  have h' : TasksOk state (max nslots (t + 1)) current rq :=
    ⟨h.running, h.nodup, h.ready, fun u hu => Nat.lt_of_lt_of_le (h.lt u hu) (Nat.le_max_left _ _)⟩
  exact h'.push hready (Nat.le_max_right _ _)

end tasks

/-! ### The packets -/

/-- A task that is parked waits for an operation, whose packet is to come, or sleeps, and `inflight` counts both; an
operation that has just started has its packet to come, and its task still runs. -/
structure PacketsOk (state : Nat → GtState) (handle : Nat → Bool) (sleepers : List Nat) (inflight : Nat)
    (opening flight : List Nat) : Prop where
  nodup : flight.Nodup
  mem : ∀ t, t ∈ flight ↔ handle t = true ∨ t ∈ opening
  opens : ∀ t ∈ opening, state t = .running
  handles : ∀ t, handle t = true → state t = .waiting ∧ t ∉ sleepers
  distinct : sleepers.Nodup
  asleep : ∀ t ∈ sleepers, state t = .waiting
  parked : ∀ t, state t = .waiting → handle t = true ∨ t ∈ sleepers
  count : inflight + opening.length = flight.length + sleepers.length

section packets

variable {state : Nat → GtState} {handle : Nat → Bool} {sleepers sleepers' opening flight flight' : List Nat}
  {inflight t : Nat} {st : GtState}

private theorem PacketsOk.perm (h : PacketsOk state handle sleepers inflight opening flight)
    (hp : flight'.Perm flight) : PacketsOk state handle sleepers inflight opening flight' :=
  { h with
    nodup := hp.nodup_iff.2 h.nodup
    mem := fun t => hp.mem_iff.trans (h.mem t)
    count := by rw [hp.length_eq]; exact h.count }

/-- A task that is not parked changes its state, and is not parked. -/
private theorem PacketsOk.move (h : PacketsOk state handle sleepers inflight [] flight) (ht : state t ≠ .waiting)
    (hst : st ≠ .waiting) : PacketsOk (Function.update state t st) handle sleepers inflight [] flight :=
  have hne {u : Nat} (hu : state u = .waiting) : u ≠ t := by
    rintro rfl
    exact ht hu
  { h with
    opens := nofun
    handles := fun u hu => by
      obtain ⟨hu1, hu2⟩ := h.handles u hu
      rw [Function.update_of_ne (hne hu1)]
      exact ⟨hu1, hu2⟩
    asleep := fun u hu => by
      rw [Function.update_of_ne (hne (h.asleep u hu))]
      exact h.asleep u hu
    parked := fun u hu => by
      have hut : u ≠ t := by
        rintro rfl
        rw [Function.update_self] at hu
        exact hst hu
      rw [Function.update_of_ne hut] at hu
      exact h.parked u hu }

/-- A running task starts an operation. -/
theorem PacketsOk.start (h : PacketsOk state handle sleepers inflight [] flight) (ht : state t = .running) :
    PacketsOk state handle sleepers inflight [t] (t :: flight) := by
  have hnot : t ∉ flight := by
    intro hmem
    rcases (h.mem t).1 hmem with hh | hh
    · rw [(h.handles t hh).1] at ht
      cases ht
    · cases hh
  exact { h with
    nodup := List.nodup_cons.2 ⟨hnot, h.nodup⟩
    mem := fun u => by
      rw [List.mem_cons, List.mem_singleton, h.mem u]
      simp [or_comm]
    opens := fun u hu => by
      rw [List.mem_singleton.1 hu]
      exact ht
    count := by
      have := h.count
      simp only [List.length_nil, List.length_cons] at this ⊢
      omega }

/-- It is parked. -/
theorem PacketsOk.wait (h : PacketsOk state handle sleepers inflight [t] flight) :
    PacketsOk (Function.update state t .waiting) (Function.update handle t true) sleepers (inflight + 1)
      [] flight := by
  have ht : state t = .running := h.opens t (List.mem_singleton_self t)
  have hnot : t ∉ sleepers := by
    intro hmem
    rw [h.asleep t hmem] at ht
    cases ht
  refine ⟨h.nodup, fun u => ?_, nofun, fun u hu => ?_, h.distinct, fun u hu => ?_, fun u hu => ?_, ?_⟩
  · rw [h.mem u, List.mem_singleton]
    by_cases hut : u = t
    · subst hut
      simp
    · simp [hut]
  · by_cases hut : u = t
    · subst hut
      exact ⟨Function.update_self .., hnot⟩
    · rw [Function.update_of_ne hut] at hu ⊢
      exact h.handles u hu
  · rw [Function.update_of_ne (ne_of_mem_of_not_mem hu hnot)]
    exact h.asleep u hu
  · by_cases hut : u = t
    · subst hut
      exact Or.inl (Function.update_self ..)
    · rw [Function.update_of_ne hut] at hu ⊢
      exact h.parked u hu
  · exact h.count

/-- A running task goes to sleep. -/
theorem PacketsOk.sleep (h : PacketsOk state handle sleepers inflight [] flight) (ht : state t = .running)
    (hp : sleepers'.Perm (t :: sleepers)) :
    PacketsOk (Function.update state t .waiting) handle sleepers' (inflight + 1) [] flight := by
  have hnot : t ∉ sleepers := by
    intro hmem
    rw [h.asleep t hmem] at ht
    cases ht
  have hhandle : ¬handle t = true := by
    intro hh
    rw [(h.handles t hh).1] at ht
    cases ht
  refine ⟨h.nodup, h.mem, nofun, fun u hu => ?_, ?_, fun u hu => ?_, fun u hu => ?_, ?_⟩
  · have hut : u ≠ t := by
      rintro rfl
      exact hhandle hu
    obtain ⟨hu1, hu2⟩ := h.handles u hu
    rw [Function.update_of_ne hut, hp.mem_iff, List.mem_cons]
    exact ⟨hu1, fun h => h.elim hut hu2⟩
  · exact hp.nodup_iff.2 (List.nodup_cons.2 ⟨hnot, h.distinct⟩)
  · rw [hp.mem_iff, List.mem_cons] at hu
    by_cases hut : u = t
    · subst hut
      exact Function.update_self ..
    · rw [Function.update_of_ne hut]
      exact h.asleep u (hu.resolve_left hut)
  · rw [hp.mem_iff, List.mem_cons]
    by_cases hut : u = t
    · exact Or.inr (Or.inl hut)
    · rw [Function.update_of_ne hut] at hu
      exact (h.parked u hu).imp_right Or.inr
  · rw [hp.length_eq, List.length_cons]
    have := h.count
    simp only [List.length_nil] at this ⊢
    omega

/-- The packet of a task that waits for an operation is taken. -/
theorem PacketsOk.take (h : PacketsOk state handle sleepers inflight [] (t :: flight)) :
    state t = .waiting ∧
    PacketsOk (Function.update state t .ready) (Function.update handle t false) sleepers (inflight - 1)
      [] flight := by
  have hhandle : handle t = true := ((h.mem t).1 List.mem_cons_self).resolve_right nofun
  obtain ⟨ht, hnot⟩ := h.handles t hhandle
  obtain ⟨hflight, hnodup⟩ := List.nodup_cons.1 h.nodup
  refine ⟨ht, hnodup, fun u => ?_, nofun, fun u hu => ?_, h.distinct, fun u hu => ?_, fun u hu => ?_, ?_⟩
  · by_cases hut : u = t
    · subst hut
      rw [Function.update_self]
      exact iff_of_false hflight (by simp)
    · rw [Function.update_of_ne hut, ← h.mem u, List.mem_cons]
      exact (or_iff_right hut).symm
  · by_cases hut : u = t
    · subst hut
      rw [Function.update_self] at hu
      cases hu
    · rw [Function.update_of_ne hut] at hu ⊢
      exact h.handles u hu
  · rw [Function.update_of_ne (ne_of_mem_of_not_mem hu hnot)]
    exact h.asleep u hu
  · by_cases hut : u = t
    · subst hut
      rw [Function.update_self] at hu
      cases hu
    · rw [Function.update_of_ne hut] at hu ⊢
      exact h.parked u hu
  · have := h.count
    simp only [List.length_nil, List.length_cons] at this ⊢
    omega

/-- The first sleeper is woken. -/
theorem PacketsOk.wake (h : PacketsOk state handle (t :: sleepers) inflight [] flight) :
    state t = .waiting ∧ PacketsOk (Function.update state t .ready) handle sleepers (inflight - 1) [] flight := by
  have ht : state t = .waiting := h.asleep t List.mem_cons_self
  obtain ⟨hnot, hnodup⟩ := List.nodup_cons.1 h.distinct
  refine ⟨ht, h.nodup, h.mem, nofun, fun u hu => ?_, hnodup, fun u hu => ?_, fun u hu => ?_, ?_⟩
  · obtain ⟨hu1, hu2⟩ := h.handles u hu
    rw [List.mem_cons, not_or] at hu2
    rw [Function.update_of_ne hu2.1]
    exact ⟨hu1, hu2.2⟩
  · rw [Function.update_of_ne (ne_of_mem_of_not_mem hu hnot)]
    exact h.asleep u (List.mem_cons_of_mem t hu)
  · have hut : u ≠ t := by
      rintro rfl
      rw [Function.update_self] at hu
      cases hu
    rw [Function.update_of_ne hut] at hu
    refine (h.parked u hu).imp_right fun hmem => ?_
    exact (List.mem_cons.1 hmem).resolve_left hut
  · have := h.count
    simp only [List.length_nil, List.length_cons] at this ⊢
    omega

end packets

/-- Each operation started has its packet to come, or has made its task ready, which was waiting for it. -/
structure LedgerOk (flight started : List Nat) (readied : List (Nat × GtState)) : Prop where
  waiting : ∀ x ∈ readied, x.2 = .waiting
  count : ∀ t, started.count t = (readied.map Prod.fst).count t + flight.count t

private theorem LedgerOk.perm {flight flight' started : List Nat} {readied : List (Nat × GtState)}
    (h : LedgerOk flight started readied) (hp : flight'.Perm flight) : LedgerOk flight' started readied where
  waiting := h.waiting
  count t := by
    rw [hp.count_eq]
    exact h.count t

/-! ### Every run -/

/-- Until the teardown. -/
structure IocpOk (s : Iocp) : Prop where
  tasks : TasksOk s.state s.nslots s.current s.rq
  packets : PacketsOk s.state s.handle s.sleepers s.inflight s.opening s.flight
  ledger : LedgerOk s.flight s.started s.readied

open Iocp

variable {s s' : Iocp} {t : Nat}

theorem IocpOk.init (packet : Bool) (now : Int) : IocpOk (init packet now) := by
  have hstate (u : Nat) : (Iocp.init packet now).state u = if u = 0 then .running else .free := rfl
  refine ⟨⟨fun u hu => ?_, List.nodup_nil, fun u => ?_, fun u hu => ?_⟩, ⟨List.nodup_nil, fun u => ?_, nofun, nofun,
    List.nodup_nil, nofun, fun u hu => ?_, rfl⟩, ⟨nofun, fun _ => rfl⟩⟩
  · rw [hstate] at hu
    by_contra h
    rw [if_neg (show ¬u = 0 from h)] at hu
    cases hu
  · rw [hstate]
    refine iff_of_false nofun ?_
    split <;> exact nofun
  · rw [hstate] at hu
    by_contra h
    rw [if_neg (fun h0 => h (by rw [h0]; exact Nat.zero_lt_one))] at hu
    exact hu rfl
  · exact iff_of_false nofun (fun h => h.elim nofun nofun)
  · rw [hstate] at hu
    split at hu <;> cases hu

/-- The program's part in it is the same. -/
theorem IocpOk.congr (h : IocpOk s) (hslots : s'.slots = s.slots) (hn : s'.nslots = s.nslots)
    (hcurrent : s'.current = s.current) (hrq : s'.rq = s.rq) (hsleepers : s'.sleepers = s.sleepers)
    (hinflight : s'.inflight = s.inflight) (hopening : s'.opening = s.opening) (hflight : s'.flight.Perm s.flight)
    (hstarted : s'.started = s.started) (hreadied : s'.readied = s.readied) : IocpOk s' := by
  have hstate : s'.state = s.state := by
    unfold state
    rw [hslots]
  have hhandle : s'.handle = s.handle := by
    unfold handle
    rw [hslots]
  refine ⟨?_, ?_, ?_⟩
  · rw [hstate, hn, hcurrent, hrq]
    exact h.tasks
  · rw [hstate, hhandle, hsleepers, hinflight, hopening]
    exact h.packets.perm hflight
  · rw [hstarted, hreadied]
    exact h.ledger.perm hflight

theorem Iocp.opening_of_ne (h : s.phase ≠ .starting) : s.opening = [] := if_neg h

/-- A step of the tasks that neither parks nor wakes one that is parked. -/
private theorem IocpOk.move (h : IocpOk s) (hopening : s.opening = []) (st : GtState) (ht : s.state t ≠ .waiting)
    (hst : st ≠ .waiting) (htasks : TasksOk (Function.update s.state t st) s'.nslots s'.current s'.rq)
    (hstate : s'.state = Function.update s.state t st) (hhandle : s'.handle = s.handle)
    (hsleepers : s'.sleepers = s.sleepers) (hinflight : s'.inflight = s.inflight) (hopening' : s'.opening = [])
    (hflight : s'.flight = s.flight) (hstarted : s'.started = s.started) (hreadied : s'.readied = s.readied) :
    IocpOk s' := by
  have hpackets := h.packets
  rw [hopening] at hpackets
  refine ⟨?_, ?_, ?_⟩
  · rw [hstate]
    exact htasks
  · rw [hstate, hhandle, hsleepers, hinflight, hopening', hflight]
    exact hpackets.move ht hst
  · rw [hflight, hstarted, hreadied]
    exact h.ledger

/-- A running task starts an operation. -/
theorem IocpOk.start (h : IocpOk s) (hidle : s.phase = .idle) (hrun : s.state s.current = .running) :
    IocpOk { s with pending := s.pending ++ [s.current], started := s.started ++
        [s.current], phase := .starting } := by
  have hpackets := h.packets
  rw [Iocp.opening_of_ne (by simp [hidle])] at hpackets
  have hflight : (s.pending ++ [s.current] ++ operations s.port).Perm (s.current :: s.flight) := by
    unfold Iocp.flight
    rw [List.append_assoc]
    exact List.perm_middle
  refine ⟨h.tasks, (hpackets.start hrun).perm hflight, h.ledger.waiting, fun t => ?_⟩
  have hcount := h.ledger.count t
  change (s.started ++ [s.current]).count t = (s.readied.map Prod.fst).count t +
    (s.pending ++ [s.current] ++ operations s.port).count t
  rw [hflight.count_eq, List.count_append, List.count_singleton, List.count_cons, hcount, Nat.add_assoc]

/-- It is parked. -/
private theorem IocpOk.waitOn (h : IocpOk s) (hstarting : s.phase = .starting) : IocpOk s.waitOn := by
  have hpackets := h.packets
  rw [show s.opening = [s.current] from if_pos hstarting] at hpackets
  have hrun : s.state s.current = .running := hpackets.opens _ (List.mem_singleton_self _)
  have hstate : s.waitOn.state = Function.update s.state s.current .waiting := by
    funext u
    by_cases hu : u = s.current <;> simp [Iocp.state, Iocp.waitOn, Iocp.modify, hu]
  have hhandle : s.waitOn.handle = Function.update s.handle s.current true := by
    funext u
    by_cases hu : u = s.current <;> simp [Iocp.handle, Iocp.waitOn, Iocp.modify, hu]
  refine ⟨?_, ?_, h.ledger⟩
  · rw [hstate]
    exact h.tasks.move (by simp [hrun]) (by simp [hrun]) nofun nofun
  · rw [hstate, hhandle]
    exact hpackets.wait

theorem insertSleeper_perm (deadline : Nat → Int) (t : Nat) (us : List Nat) :
    (insertSleeper deadline t us).Perm (t :: us) := by
  induction us with
  | nil => exact List.Perm.refl _
  | cons u us ih =>
    unfold insertSleeper
    split
    · exact (ih.cons u).trans (List.Perm.swap t u us)
    · exact List.Perm.refl _

/-- A running task goes to sleep. -/
theorem IocpOk.sleep (h : IocpOk s) (hidle : s.phase = .idle) (hrun : s.state s.current = .running) (d : Int) :
    IocpOk (s.sleepUntil d) := by
  have hpackets := h.packets
  rw [Iocp.opening_of_ne (by simp [hidle])] at hpackets
  have hstate : (s.sleepUntil d).state = Function.update s.state s.current .waiting := by
    funext u
    by_cases hu : u = s.current <;> simp [Iocp.state, Iocp.sleepUntil, Iocp.setState, Iocp.modify, hu]
  have hhandle : (s.sleepUntil d).handle = s.handle := by
    funext u
    by_cases hu : u = s.current <;> simp [Iocp.handle, Iocp.sleepUntil, Iocp.setState, Iocp.modify, hu]
  refine ⟨?_, ?_, h.ledger⟩
  · rw [hstate]
    exact h.tasks.move (by simp [hrun]) (by simp [hrun]) nofun nofun
  · rw [hstate, hhandle]
    rw [Iocp.opening_of_ne (s := s.sleepUntil d) (by simp [Iocp.sleepUntil, Iocp.setState, Iocp.modify, hidle])]
    exact hpackets.sleep hrun (insertSleeper_perm _ _ _)

/-- A poll does not change the tasks. -/
theorem IocpOk.poll (h : IocpOk s) (hidle : s.phase = .idle) (limit : Int) : IocpOk (s.poll limit) := by
  have hopening : s.opening = [] := Iocp.opening_of_ne (by simp [hidle])
  have hphase {phase : IocpPhase} (hne : phase ≠ .starting) : IocpOk { s with phase := phase } :=
    h.congr rfl rfl rfl rfl rfl rfl ((if_neg hne).trans hopening.symm) (List.Perm.refl _) rfl rfl
  unfold Iocp.poll
  dsimp only
  split
  · exact hphase nofun
  · split
    · exact hphase nofun
    · split
      · exact hphase nofun
      · exact hphase nofun

/-- What the program does between two polls. -/
theorem IocpOk.program {e : IocpEvent} (h : IocpOk s) (hidle : s.phase = .idle) (hstep : s.program e = some s')
    (hteardown : e ≠ .teardown) : IocpOk s' := by
  have hne : ¬s.phase = .starting := by simp [hidle]
  have hopening : s.opening = [] := if_neg hne
  cases e
  case start =>
    simp only [Iocp.program] at hstep
    split at hstep <;> cases hstep
    rename_i hrun
    exact h.start hidle hrun
  case sleep d =>
    simp only [Iocp.program] at hstep
    split at hstep <;> cases hstep
    rename_i hrun
    exact h.sleep hidle hrun d
  case block =>
    simp only [Iocp.program] at hstep
    split at hstep <;> cases hstep
    rename_i hrun
    exact h.move hopening .joining (by simp [hrun]) nofun
      (h.tasks.move (by simp [hrun]) (by simp [hrun]) nofun nofun) (state_setState _) (handle_setState _) rfl rfl
      hopening rfl rfl rfl
  case finish =>
    simp only [Iocp.program] at hstep
    split at hstep <;> cases hstep
    rename_i hrun
    exact h.move hopening .done (by simp [hrun]) nofun
      (h.tasks.move (by simp [hrun]) (by simp [hrun]) nofun nofun) (state_setState _) (handle_setState _) rfl rfl
      hopening rfl rfl rfl
  case yield =>
    simp only [Iocp.program] at hstep
    split at hstep
    · rename_i t ts hrq
      split at hstep <;> cases hstep
      rename_i hrun
      have htasks := h.tasks
      rw [hrq] at htasks
      have hnext : s.state t = .ready := (htasks.ready t).1 List.mem_cons_self
      -- The one that gives way, then the one that goes on.
      have hpush : IocpOk { s.push s.current with rq := t :: (ts ++ [s.current]) } :=
        h.move hopening .ready (by simp [hrun]) nofun
          (htasks.push (by simp [hrun]) (h.tasks.lt _ (by simp [hrun]))) state_push handle_push rfl rfl hopening rfl
          rfl rfl
      have hstate : Iocp.state { s.push s.current with rq := t :: (ts ++ [s.current]) } =
          Function.update s.state s.current .ready := state_push
      refine hpush.move hopening (t := t) .running ?_ nofun ?_ (state_setState _) (handle_setState _) rfl rfl
        (if_neg hne) rfl rfl rfl
      · rw [hstate]
        by_cases ht : t = s.current
        · simp [ht]
        · simp [ht, hnext]
      · rw [hstate]
        exact htasks.yield hrun
    · cases hstep
  case switch =>
    simp only [Iocp.program] at hstep
    split at hstep
    · rename_i t ts hrq
      split at hstep <;> cases hstep
      rename_i hnot
      have htasks := h.tasks
      rw [hrq] at htasks
      have hnext : s.state t = .ready := (htasks.ready t).1 List.mem_cons_self
      exact h.move hopening .running (by simp [hnext]) nofun (htasks.pop hnot) (state_setState _)
        (handle_setState _) rfl rfl (if_neg hne) rfl rfl rfl
    · cases hstep
  case wake t =>
    simp only [Iocp.program] at hstep
    split at hstep <;> cases hstep
    rename_i hcond
    exact h.move hopening .ready (by simp [hcond.2]) nofun (h.tasks.push (by simp [hcond.2]) hcond.1) state_push
      handle_push rfl rfl hopening rfl rfl rfl
  case spawn t =>
    simp only [Iocp.program] at hstep
    split at hstep <;> cases hstep
    rename_i hcond
    have hnot : s.state t ≠ .waiting := by
      rcases hcond with ⟨-, hdone⟩ | rfl
      · simp [hdone]
      · intro hw
        exact absurd (h.tasks.lt _ (by simp [hw])) (Nat.lt_irrefl _)
    have hhandle : s.handle t = false := by
      by_contra hh
      exact hnot (h.packets.handles t (by simpa using hh)).1
    have hstate : (Iocp.push { s.modify t fun _ => ⟨false, 0, .free⟩ with nslots := max s.nslots (t + 1) } t).state =
        Function.update s.state t .ready := by
      funext u
      by_cases hu : u = t <;> simp [Iocp.state, Iocp.push, Iocp.setState, Iocp.modify, hu]
    refine h.move hopening .ready hnot nofun (h.tasks.spawn hcond) hstate ?_ rfl rfl hopening rfl rfl rfl
    refine handle_push.trans ((handle_modify (s := s) (t := t) fun _ => ⟨false, 0, .free⟩).trans ?_)
    rw [← hhandle]
    exact Function.update_eq_self _ _
  case poll limit =>
    cases hstep
    exact h.poll hidle limit
  case teardown => exact absurd rfl hteardown
  all_goals cases hstep

/-! ### Polls -/

/-- A poll takes one packet. -/
theorem IocpOk.take {p : Option Nat} {rest : List (Option Nat)} (h : IocpOk { s with port := p :: rest })
    (hphase : s.phase ≠ .starting) : IocpOk { s.take p with port := rest } := by
  have hpackets := h.packets
  rw [Iocp.opening_of_ne (s := { s with port := p :: rest }) hphase] at hpackets
  cases p with
  | none =>
    exact h.congr rfl rfl rfl rfl rfl rfl rfl (List.Perm.refl _) rfl rfl
  | some t =>
    have hperm : (s.pending ++ operations (some t :: rest)).Perm (t :: (s.pending ++ operations rest)) :=
      List.perm_middle
    obtain ⟨ht, hpackets'⟩ := (hpackets.perm hperm.symm).take
    have hstate : Iocp.state { s.take (some t) with port := rest } = Function.update s.state t .ready := by
      funext u
      by_cases hu : u = t <;> simp [Iocp.state, Iocp.take, Iocp.push, Iocp.setState, Iocp.modify, hu]
    have hhandle : Iocp.handle { s.take (some t) with port := rest } = Function.update s.handle t false := by
      funext u
      by_cases hu : u = t <;> simp [Iocp.handle, Iocp.take, Iocp.push, Iocp.setState, Iocp.modify, hu]
    refine ⟨?_, ?_, ?_, fun u => ?_⟩
    · rw [hstate]
      exact h.tasks.push (fun hr => nomatch hr.symm.trans ht) (h.tasks.lt t (by simp [ht]))
    · rw [hstate, hhandle, Iocp.opening_of_ne (s := { s.take (some t) with port := rest }) hphase]
      exact hpackets'
    · intro x hx
      rcases List.mem_append.1 hx with hx | hx
      · exact h.ledger.waiting x hx
      · rw [List.mem_singleton.1 hx]
        exact ht
    · have hcount : s.started.count u = (s.readied.map Prod.fst).count u +
          (t :: (s.pending ++ operations rest)).count u := (h.ledger.perm hperm.symm).count u
      change s.started.count u = ((s.readied ++ [(t, s.state t)]).map Prod.fst).count u +
        (s.pending ++ operations rest).count u
      rw [List.map_append, List.count_append, hcount, List.count_cons]
      change _ = _ + [t].count u + _
      rw [List.count_singleton]
      omega

/-- It takes a batch. -/
private theorem IocpOk.takes (done rest : List (Option Nat)) (h : IocpOk { s with port := done ++ rest })
    (hphase : s.phase ≠ .starting) : IocpOk (done.foldl Iocp.take { s with port := rest }) := by
  induction done generalizing s with
  | nil => exact h
  | cons p done ih =>
    have hnext : Iocp.take { s with port := rest } p = { s.take p with port := rest } := by
      cases p <;> rfl
    rw [List.foldl_cons, hnext]
    refine ih (s := s.take p) (h.take hphase) ?_
    cases p <;> exact hphase

private theorem Iocp.takes_phase (done : List (Option Nat)) : (done.foldl Iocp.take s).phase = s.phase := by
  induction done generalizing s with
  | nil => rfl
  | cons p done ih =>
    rw [List.foldl_cons, ih]
    cases p <;> rfl

/-- It wakes the sleepers whose time has come. -/
theorem IocpOk.wakeFrom (ts : List Nat) (h : IocpOk { s with sleepers := ts }) (hphase : s.phase ≠ .starting) :
    IocpOk (s.wakeFrom ts) := by
  induction ts generalizing s with
  | nil => exact h
  | cons t ts ih =>
    unfold Iocp.wakeFrom
    split
    · have hpackets := h.packets
      rw [Iocp.opening_of_ne (s := { s with sleepers := t :: ts }) hphase] at hpackets
      obtain ⟨ht, hpackets'⟩ := hpackets.wake
      have hstate : Iocp.state { Iocp.push { s with inflight := s.inflight - 1 } t with sleepers := ts } =
          Function.update s.state t .ready := state_push (s := { s with inflight := s.inflight - 1 })
      have hhandle : Iocp.handle { Iocp.push { s with inflight := s.inflight - 1 } t with sleepers := ts } =
          s.handle :=
        handle_push (s := { s with inflight := s.inflight - 1 })
      have hopening : Iocp.opening { Iocp.push { s with inflight := s.inflight - 1 } t with sleepers := ts } = [] :=
        if_neg hphase
      refine ih (s := Iocp.push { s with inflight := s.inflight - 1 } t) ⟨?_, ?_, h.ledger⟩ hphase
      · rw [hstate]
        exact h.tasks.push (fun hr => nomatch hr.symm.trans ht) (h.tasks.lt t (by simp [ht]))
      · rw [hstate, hhandle, hopening]
        exact hpackets'
    · exact h

private theorem Iocp.wakeFrom_phase (ts : List Nat) : (s.wakeFrom ts).phase = s.phase := by
  induction ts generalizing s with
  | nil => rfl
  | cons t ts ih =>
    unfold Iocp.wakeFrom
    split
    · rw [ih]
      rfl
    · rfl

/-! ### The teardown -/

/-- The teardown counts the packets to come. -/
private theorem IocpOk.outstanding (h : IocpOk s) (hidle : s.phase = .idle) : s.outstanding = s.flight.length := by
  have hpackets := h.packets
  rw [Iocp.opening_of_ne (by simp [hidle])] at hpackets
  unfold Iocp.outstanding
  rw [List.countP_eq_length_filter]
  refine List.Perm.length_eq ((List.perm_ext_iff_of_nodup (List.nodup_range.filter _) hpackets.nodup).2 fun t => ?_)
  rw [List.mem_filter, List.mem_range, hpackets.mem t]
  constructor
  · exact fun ht => Or.inl ht.2
  · intro ht
    have hhandle := ht.resolve_right nofun
    exact ⟨h.tasks.lt t (by simp [(hpackets.handles t hhandle).1]), hhandle⟩

/-- What is left of the packets after a batch. -/
private theorem Iocp.flight_drop (n : Nat) :
    s.flight.Perm (operations (s.port.take n) ++ (s.pending ++ operations (s.port.drop n))) := by
  have hport : operations s.port = operations (s.port.take n) ++ operations (s.port.drop n) := by
    rw [← operations_append, List.take_append_drop]
  unfold Iocp.flight
  rw [hport, ← List.append_assoc, ← List.append_assoc]
  exact List.perm_append_comm.append_right _

/-- The teardown has not begun. -/
def Iocp.Live (s : Iocp) : Prop := s.phase ≠ .torn ∧ ∀ m, s.phase ≠ .teardown m

private theorem Iocp.poll_live (limit : Int) : (s.poll limit).Live := by
  unfold Iocp.poll
  dsimp only
  split
  · exact ⟨nofun, nofun⟩
  · split
    · exact ⟨nofun, nofun⟩
    · split <;> exact ⟨nofun, nofun⟩

private theorem Iocp.program_live {e : IocpEvent} (hidle : s.phase = .idle) (hstep : s.program e = some s')
    (hteardown : e ≠ .teardown) : s'.Live := by
  have hlive : s.Live := ⟨by simp [hidle], by simp [hidle]⟩
  unfold Iocp.program at hstep
  split at hstep
  case h_9 =>
    cases hstep
    exact poll_live _
  case h_10 => exact absurd rfl hteardown
  all_goals
    repeat' split at hstep
    all_goals
      cases hstep
      try first | exact hlive | exact ⟨nofun, nofun⟩

/-- The state, before the teardown and after it has begun. -/
inductive IocpInv (s : Iocp) : Prop
  | live (h : IocpOk s) (hphase : s.Live)
  | teardown (m : Nat) (hphase : s.phase = .teardown m) (hm : m = s.flight.length) (hnodup : s.flight.Nodup)
      (hreadied : ∀ x ∈ s.readied, x.2 = .waiting)
  | torn (hphase : s.phase = .torn) (hflight : s.flight = []) (hreadied : ∀ x ∈ s.readied, x.2 = .waiting)

/-- Windows does something by itself: the packets to come stay the same. -/
theorem IocpInv.kernel (h : IocpInv s) (hslots : s'.slots = s.slots) (hn : s'.nslots = s.nslots)
    (hcurrent : s'.current = s.current) (hrq : s'.rq = s.rq) (hsleepers : s'.sleepers = s.sleepers)
    (hinflight : s'.inflight = s.inflight) (hphase : s'.phase = s.phase) (hflight : s'.flight.Perm s.flight)
    (hstarted : s'.started = s.started) (hreadied : s'.readied = s.readied) : IocpInv s' := by
  cases h with
  | live h hlive =>
    have hopening : s'.opening = s.opening := by
      unfold Iocp.opening
      rw [hphase, hcurrent]
    exact .live (h.congr hslots hn hcurrent hrq hsleepers hinflight hopening hflight hstarted hreadied)
      (by unfold Iocp.Live; rwa [hphase])
  | teardown m hm hlen hnodup hwas =>
    exact .teardown m (hphase.trans hm) (hlen.trans hflight.length_eq.symm) (hflight.nodup_iff.2 hnodup)
      (by rwa [hreadied])
  | torn ht hempty hwas =>
    rw [hempty] at hflight
    exact .torn (hphase.trans ht) hflight.eq_nil (by rwa [hreadied])

theorem IocpInv.ok (h : IocpInv s) (hlive : s.Live) : IocpOk s := by
  cases h with
  | live h _ => exact h
  | teardown m hm _ _ _ => exact absurd hm (hlive.2 m)
  | torn ht _ _ => exact absurd ht hlive.1

/-- A poll goes on with the tasks as they are. -/
private theorem IocpInv.go (h : IocpInv s) (hlive : s.Live) (hphase : s.phase ≠ .starting)
    (hslots : s'.slots = s.slots) (hn : s'.nslots = s.nslots) (hcurrent : s'.current = s.current) (hrq : s'.rq = s.rq)
    (hsleepers : s'.sleepers = s.sleepers) (hinflight : s'.inflight = s.inflight) (hphase' : s'.phase ≠ .starting)
    (hlive' : s'.Live) (hflight : s'.flight = s.flight) (hstarted : s'.started = s.started)
    (hreadied : s'.readied = s.readied) : IocpInv s' :=
  .live ((h.ok hlive).congr hslots hn hcurrent hrq hsleepers hinflight
    ((Iocp.opening_of_ne hphase').trans (Iocp.opening_of_ne hphase).symm) (by rw [hflight]) hstarted hreadied) hlive'

/-- A poll's batch. -/
theorem IocpInv.batch (h : IocpInv s) (hlive : s.Live) (hphase : s.phase ≠ .starting) (n : Nat) :
    IocpInv ((s.port.take n).foldl Iocp.take { s with port := s.port.drop n, phase := .wake }) := by
  have hok := h.ok hlive
  have hwake : IocpOk { s with port := s.port.take n ++ s.port.drop n, phase := .wake } := by
    rw [List.take_append_drop]
    exact hok.congr rfl rfl rfl rfl rfl rfl
      ((Iocp.opening_of_ne (by simp)).trans (Iocp.opening_of_ne hphase).symm) (List.Perm.refl _) rfl rfl
  refine .live (hwake.takes (s := { s with phase := .wake }) _ _ (by simp)) ⟨?_, ?_⟩
  · rw [Iocp.takes_phase]
    simp
  · simp [Iocp.takes_phase]

/-- A batch in the teardown. -/
theorem IocpInv.drop {m n : Nat} (h : IocpInv s) (hphase : s.phase = .teardown m) :
    IocpInv { s with port := s.port.drop n, phase := .teardown (m - (operations (s.port.take n)).length) } := by
  cases h with
  | live _ hlive => exact absurd hphase (hlive.2 m)
  | teardown m' hm hlen hnodup hwas =>
    cases hm.symm.trans hphase
    have hperm := s.flight_drop n
    refine .teardown _ rfl ?_ (List.nodup_append.1 (hperm.nodup_iff.1 hnodup)).2.1 hwas
    have hlength := hperm.length_eq
    rw [List.length_append] at hlength
    show m - _ = (s.pending ++ operations (s.port.drop n)).length
    omega
  | torn ht _ _ => exact nomatch ht.symm.trans hphase

theorem IocpInv.thread {e : IocpEvent} (h : IocpInv s) (hstep : s.thread e = some s') : IocpInv s' := by
  have hlive {phase : IocpPhase} (hphase : s.phase = phase) (h1 : phase ≠ .torn) (h2 : ∀ m, phase ≠ .teardown m) :
      s.Live := by
    subst hphase
    exact ⟨h1, h2⟩
  unfold Iocp.thread at hstep
  split at hstep
  · rename_i e _ _ hidle
    have hok := h.ok (hlive hidle nofun nofun)
    by_cases he : e = .teardown
    · subst he
      cases hstep
      exact .teardown _ rfl (hok.outstanding hidle) hok.packets.nodup hok.ledger.waiting
    · exact .live (hok.program hidle hstep he) (Iocp.program_live hidle hstep he)
  · rename_i hstarting
    cases hstep
    exact .live ((h.ok (hlive hstarting nofun nofun)).waitOn hstarting) ⟨nofun, nofun⟩
  · rename_i read left yes harm
    cases hstep
    unfold Iocp.arm Iocp.waitMs
    split
    · dsimp only
      split
      · exact h.go (hlive harm nofun nofun) (by simp [harm]) rfl rfl rfl rfl rfl rfl nofun ⟨nofun, nofun⟩ rfl rfl rfl
      · exact h.go (hlive harm nofun nofun) (by simp [harm]) rfl rfl rfl rfl rfl rfl nofun ⟨nofun, nofun⟩ rfl rfl rfl
    · exact h.go (hlive harm nofun nofun) (by simp [harm]) rfl rfl rfl rfl rfl rfl nofun ⟨nofun, nofun⟩ rfl rfl rfl
  · rename_i read left yes hassociate
    cases hstep
    unfold Iocp.associate Iocp.waitMs
    split
    · split
      · exact h.go (hlive hassociate nofun nofun) (by simp [hassociate]) rfl rfl rfl rfl rfl rfl nofun ⟨nofun, nofun⟩
          (by simp [Iocp.flight, operations]) rfl rfl
      · exact h.go (hlive hassociate nofun nofun) (by simp [hassociate]) rfl rfl rfl rfl rfl rfl nofun ⟨nofun, nofun⟩
          rfl rfl rfl
    · exact h.go (hlive hassociate nofun nofun) (by simp [hassociate]) rfl rfl rfl rfl rfl rfl nofun ⟨nofun,
        nofun⟩ rfl rfl rfl
  · rename_i w n hwait
    split at hstep <;> cases hstep
    exact h.batch (hlive hwait nofun nofun) (by simp [hwait]) n
  · rename_i w hwait
    split at hstep
    · split at hstep <;> cases hstep
      exact h.go (hlive hwait nofun nofun) (by simp [hwait]) rfl rfl rfl rfl rfl rfl nofun ⟨nofun, nofun⟩ rfl rfl rfl
    · cases hstep
  · rename_i hwake
    cases hstep
    have hok := (h.ok (hlive hwake nofun nofun)).wakeFrom s.sleepers (by simp [hwake])
    refine .live (hok.congr rfl rfl rfl rfl rfl rfl ?_ (List.Perm.refl _) rfl rfl) ⟨nofun, nofun⟩
    exact (if_neg nofun).trans (Iocp.opening_of_ne (by simp [Iocp.wakeFrom_phase, hwake])).symm
  · rename_i m n hteardown
    split at hstep <;> cases hstep
    exact h.drop hteardown
  · rename_i hteardown
    cases hstep
    cases h with
    | live _ hl => exact absurd hteardown (hl.2 0)
    | teardown m hm hlen hnodup hwas =>
      cases hm.symm.trans hteardown
      exact .torn rfl (List.length_eq_zero_iff.1 hlen.symm) hwas
    | torn ht _ _ => exact nomatch ht.symm.trans hteardown
  · cases hstep

theorem IocpInv.step {e : IocpEvent} (h : IocpInv s) (hstep : s.step e = some s') : IocpInv s' := by
  unfold Iocp.step at hstep
  split at hstep
  · rename_i t
    split at hstep <;> cases hstep
    rename_i ht
    refine h.kernel rfl rfl rfl rfl rfl rfl rfl ?_ rfl rfl
    show (s.pending.erase t ++ operations (s.port ++ [some t])).Perm (s.pending ++ operations s.port)
    rw [operations_append, ← List.append_assoc]
    refine List.perm_append_comm.trans ?_
    exact (List.perm_cons_erase ht).symm.append_right (operations s.port)
  · split at hstep
    · split at hstep <;> cases hstep
      split
      · exact h.kernel rfl rfl rfl rfl rfl rfl rfl (by simp [Iocp.flight, operations]) rfl rfl
      · exact h.kernel rfl rfl rfl rfl rfl rfl rfl (List.Perm.refl _) rfl rfl
    · cases hstep
  · split at hstep <;> cases hstep
    exact h.kernel rfl rfl rfl rfl rfl rfl rfl (List.Perm.refl _) rfl rfl
  · exact h.thread hstep

/-- What a poll does with the packets that it has taken: the tasks of the operations are ready, and come last on the
run queue in the order of the packets, and no other task changes. -/
structure Iocp.Takes (done : List (Option Nat)) (s s' : Iocp) : Prop where
  rq : s'.rq = s.rq ++ operations done
  state : ∀ t, s'.state t = if t ∈ operations done then .ready else s.state t
  handle : ∀ t, s'.handle t = if t ∈ operations done then false else s.handle t
  inflight : s'.inflight = s.inflight - (operations done).length

private theorem Iocp.takes_takes (done : List (Option Nat)) (s : Iocp) :
    Iocp.Takes done s (done.foldl Iocp.take s) := by
  induction done generalizing s with
  | nil => exact ⟨(List.append_nil _).symm, fun _ => rfl, fun _ => rfl, rfl⟩
  | cons p done ih =>
    rw [List.foldl_cons]
    cases p with
    | none =>
      obtain ⟨hrq, hstate, hhandle, hinflight⟩ := ih (s.take none)
      exact ⟨hrq, hstate, hhandle, hinflight⟩
    | some t =>
      obtain ⟨hrq, hstate, hhandle, hinflight⟩ := ih (s.take (some t))
      have htake : (s.take (some t)).state = Function.update s.state t .ready := by
        unfold Iocp.take
        rw [state_push]
        funext u
        by_cases hu : u = t <;> simp [Iocp.state, Iocp.modify, hu]
      have hcleared : (s.take (some t)).handle = Function.update s.handle t false := by
        unfold Iocp.take
        rw [handle_push]
        funext u
        by_cases hu : u = t <;> simp [Iocp.handle, Iocp.modify, hu]
      have hoperations : operations (some t :: done) = t :: operations done := rfl
      refine ⟨?_, fun u => ?_, fun u => ?_, ?_⟩
      · rw [hrq, hoperations, List.append_cons]
        rfl
      · rw [hstate u, htake, hoperations]
        by_cases hu : u = t
        · subst hu
          rw [Function.update_self, if_pos List.mem_cons_self]
          exact ite_self _
        · rw [Function.update_of_ne hu]
          simp only [List.mem_cons, hu, false_or]
      · rw [hhandle u, hcleared, hoperations]
        by_cases hu : u = t
        · subst hu
          rw [Function.update_self, if_pos List.mem_cons_self]
          exact ite_self _
        · rw [Function.update_of_ne hu]
          simp only [List.mem_cons, hu, false_or]
      · rw [hinflight, hoperations, List.length_cons]
        show s.inflight - 1 - _ = _
        omega

/-- A batch, and the tasks whose packets it takes. -/
private theorem IocpInv.takes {w : PortWait} {n : Nat} (h : IocpInv s) (hwait : s.phase = .wait w)
    (hstep : s.step (.batch n) = some s') :
    s.Takes (s.port.take n) s' ∧ ∀ t ∈ operations (s.port.take n), s.handle t = true := by
  have hthread : s.thread (.batch n) = some s' := hstep
  unfold Iocp.thread at hthread
  rw [hwait] at hthread
  dsimp only at hthread
  split at hthread <;> cases hthread
  obtain ⟨hrq, hstate, hhandle, hinflight⟩ :=
    Iocp.takes_takes (s.port.take n) { s with port := s.port.drop n, phase := .wake }
  refine ⟨⟨hrq, hstate, hhandle, hinflight⟩, fun t ht => ?_⟩
  cases h with
  | live h hlive =>
    have hflight : t ∈ s.flight := by
      refine List.mem_append_right _ ?_
      rw [← List.take_append_drop n s.port, operations_append]
      exact List.mem_append_left _ ht
    have hopening : s.opening = [] := Iocp.opening_of_ne (by simp [hwait])
    have hpackets := h.packets
    rw [hopening] at hpackets
    exact ((hpackets.mem t).1 hflight).resolve_right nofun
  | teardown m hm hlen hnodup hwas => cases hm.symm.trans hwait
  | torn ht hempty hwas => cases ht.symm.trans hwait

/-- Every task has one packet to come while it waits for an operation, `inflight` counts these and the sleepers, and
each operation started has made its task ready once, which was waiting for it, or has its packet to come; a poll makes
the tasks of the packets that it takes ready, and no others; the teardown waits for the packets to come, and for no
others. -/
structure IocpPacketsOk (s : Iocp) : Prop where
  once : s.flight.Nodup
  handle : s.Live → ∀ t, s.handle t = true ↔ t ∈ s.flight ∧ t ∉ s.opening
  inflight : s.Live → s.inflight + s.opening.length = s.flight.length + s.sleepers.length
  waiting : s.Live → ∀ t, s.handle t = true → s.state t = .waiting
  readied : ∀ x ∈ s.readied, x.2 = .waiting
  count : s.Live → ∀ t, s.started.count t = (s.readied.map Prod.fst).count t + s.flight.count t
  teardown : ∀ m, s.phase = .teardown m → m = s.flight.length
  torn : s.phase = .torn → s.flight = []
  takes : ∀ w n s', s.phase = .wait w → s.step (.batch n) = some s' →
    s.Takes (s.port.take n) s' ∧ ∀ t ∈ operations (s.port.take n), s.handle t = true

private theorem IocpInv.packetsOk (h : IocpInv s) : IocpPacketsOk s := by
  have htakes (w n s') (hwait : s.phase = .wait w) (hstep : s.step (.batch n) = some s') :=
    IocpInv.takes h hwait hstep
  cases h with
  | live h hlive =>
    refine ⟨h.packets.nodup, fun _ t => ?_, fun _ => h.packets.count, fun _ t ht => (h.packets.handles t ht).1,
      h.ledger.waiting, fun _ => h.ledger.count, fun m hm => absurd hm (hlive.2 m), fun ht => absurd ht hlive.1,
      htakes⟩
    rw [h.packets.mem t]
    constructor
    · intro ht
      refine ⟨Or.inl ht, fun hopen => ?_⟩
      exact nomatch (h.packets.handles t ht).1.symm.trans (h.packets.opens t hopen)
    · exact fun ht => ht.1.resolve_right ht.2
  | teardown m hm hlen hnodup hwas =>
    have hnot {P : Prop} (hl : s.Live) : P := absurd hm (hl.2 m)
    exact ⟨hnodup, hnot, hnot, hnot, hwas, hnot, fun m' hm' => by cases hm.symm.trans hm'; exact hlen,
      fun ht => (nomatch ht.symm.trans hm), htakes⟩
  | torn ht hempty hwas =>
    have hnot {P : Prop} (hl : s.Live) : P := absurd ht hl.1
    exact ⟨by rw [hempty]; exact List.nodup_nil, hnot, hnot, hnot, hwas, hnot,
      fun m hm => (nomatch ht.symm.trans hm), fun _ => hempty, htakes⟩

private theorem iocp_inv {packet : Bool} {now : Int} (h : Reach Iocp.step (.init packet now) s) : IocpInv s :=
  h.invariant (P := IocpInv) (fun _ _ _ hi hstep => hi.step hstep) (.live (IocpOk.init packet now) ⟨nofun, nofun⟩)

/-- In every run. -/
theorem iocp_packets_ok {packet : Bool} {now : Int} (h : Reach Iocp.step (.init packet now) s) : IocpPacketsOk s :=
  (iocp_inv h).packetsOk

/-- The thread's own task starts an operation, and the other one sleeps; a poll takes the packet; and the teardown
takes the packet of a second operation off the port, and the timer's with it. -/
theorem iocp_packets_torn : ∃ s : Iocp, IocpPacketsOk s ∧ s.phase = .torn ∧ s.started = [0, 0] ∧
    s.readied = [(0, .waiting)] := by
  have hrun : (Transition.run Iocp.step (.init true 0)
      [.spawn 1, .start, .run, .switch, .sleep 100, .poll iocpNever, .answer true, .answer true, .complete 0,
        .batch 1, .run, .switch, .start, .run, .teardown, .complete 0, .tick 100, .fire, .batch 2, .run]).map
          (fun s => (s.phase, s.started, s.readied)) =
      some (.torn, [0, 0], [(0, .waiting)]) := by
    decide +kernel
  obtain ⟨s, hs, heq⟩ := Option.map_eq_some_iff.1 hrun
  obtain ⟨hphase, hrest⟩ := Prod.mk.inj heq
  exact ⟨s, iocp_packets_ok ⟨_, hs⟩, hphase, Prod.mk.inj hrest⟩

end Sppc.Windows
