import Sppc.Threads
import Sppc.Rounds
import Sppc.Windows.Wait

/-!
# The Windows barrier (`platform/windows.h`)

Any number of threads wait on one barrier, round after round, and may destroy it.  A step is one access, an
acquisition or release of the barrier's lock, the compare with which `WaitOnAddress` goes to sleep, its return, or a
wake.  No more threads wait than a `LONG` counts.
-/

namespace Sppc.Windows

open Threads

/-- `_sppc_pthread_barrier_t`.  `lock` is the thread that has the lock. -/
structure Barrier (Tid : Type) where
  lock : Option Tid
  count : Nat
  remaining : Nat
  generation : Nat
  waiters : Nat

/-- The barrier and the threads asleep on its `generation` and on its `waiters`.  `rounds` records the waits, and
`inside` the threads that `waiters` counts; the code keeps neither. -/
structure BarrierState (Tid : Type) where
  barrier : Barrier Tid
  sleepers : List Tid
  destroyers : List Tid
  rounds : Rounds Tid
  inside : List Tid

/-- Where a thread is: outside, its last call having returned `r`, or before an access.  `g` is the generation it
read, and `k` the round that it arrived in; a destroy keeps the round in which it looked whether one was part-way. -/
inductive BarrierLoc
  | out (r : Ret)
  | acquire | readGeneration | decrement (g : Nat)
  | refill (k : Nat) | openRound (k : Nat) | openRelease (k : Nat) | openWake (k : Nat)
  | enter (g k : Nat) | enterRelease (g k : Nat)
  | load (g k : Nat) | compare (g k : Nat) | asleep (g k : Nat) | leave (k : Nat) | leaveWake (k : Nat)
  | destroyAcquire | destroyLook | destroyRelease (busy : Bool) (k : Nat)
  | destroyLoad (k : Nat) | destroyCompare (waiters k : Nat) | destroyAsleep (k : Nat)
  deriving DecidableEq, Repr

/-- The calls a thread outside may make, and `run` for everything else. -/
inductive BarrierInput
  | wait | destroy
  | run
  deriving DecidableEq, Repr

variable {Tid : Type} [DecidableEq Tid]

/-- The next access of the thread `t`. -/
def barrierAct (t : Tid) (i : BarrierInput) (h : BarrierState Tid) :
    BarrierLoc → Option (BarrierState Tid × BarrierLoc)
  | .out _ => match i with
    | .wait => some (h, .acquire)
    | .destroy => some (h, .destroyAcquire)
    | .run => none
  -- _sppc_pthread_barrier_wait
  | .acquire =>
    if h.barrier.lock = none then some ({ h with barrier := { h.barrier with lock := some t } }, .readGeneration)
      else none
  | .readGeneration => some (h, .decrement h.barrier.generation)
  | .decrement g =>
    let h' := { h with barrier := { h.barrier with remaining := h.barrier.remaining - 1 } }
    if h.barrier.remaining - 1 = 0 then some ({ h' with rounds := h.rounds.fill t }, .refill h.rounds.round)
    else some ({ h' with rounds := h.rounds.arrive t }, .enter g h.rounds.round)
  | .refill k => some ({ h with barrier := { h.barrier with remaining := h.barrier.count } }, .openRound k)
  | .openRound k =>
    some ({ h with
      barrier := { h.barrier with generation := (h.barrier.generation + 1) % 2 ^ 32 }
      rounds := h.rounds.opens }, .openRelease k)
  | .openRelease k => some ({ h with barrier := { h.barrier with lock := none } }, .openWake k)
  | .openWake k => some ({ h with sleepers := [], rounds := h.rounds.leave t k true }, .out .minusOne)
  | .enter g k =>
    some ({ h with barrier := { h.barrier with waiters := h.barrier.waiters + 1 }, inside := t :: h.inside },
      .enterRelease g k)
  | .enterRelease g k => some ({ h with barrier := { h.barrier with lock := none } }, .load g k)
  | .load g k => some (h, if h.barrier.generation = g then .compare g k else .leave k)
  | .compare g k =>
    if h.barrier.generation = g then some ({ h with sleepers := h.sleepers ++ [t] }, .asleep g k)
      else some (h, .load g k)
  -- woken where `t` is no sleeper any more, and otherwise spuriously
  | .asleep g k => some ({ h with sleepers := h.sleepers.filter (· ≠ t) }, .load g k)
  | .leave k =>
    let h' := { h with barrier := { h.barrier with waiters := h.barrier.waiters - 1 }, inside := h.inside.erase t }
    if h.barrier.waiters - 1 = 0 then some (h', .leaveWake k)
    else some ({ h' with rounds := h.rounds.leave t k false }, .out .zero)
  | .leaveWake k => some ({ h with destroyers := [], rounds := h.rounds.leave t k false }, .out .zero)
  -- _sppc_pthread_barrier_destroy
  | .destroyAcquire =>
    if h.barrier.lock = none then some ({ h with barrier := { h.barrier with lock := some t } }, .destroyLook)
      else none
  | .destroyLook => some (h, .destroyRelease (h.barrier.remaining ≠ h.barrier.count) h.rounds.round)
  | .destroyRelease busy k =>
    some ({ h with barrier := { h.barrier with lock := none } }, if busy then .out (.err .EBUSY) else .destroyLoad k)
  | .destroyLoad k => some (h, if h.barrier.waiters = 0 then .out .zero else .destroyCompare h.barrier.waiters k)
  | .destroyCompare waiters k =>
    if h.barrier.waiters = waiters then some ({ h with destroyers := h.destroyers ++ [t] }, .destroyAsleep k)
    else some (h, .destroyLoad k)
  | .destroyAsleep k => some ({ h with destroyers := h.destroyers.filter (· ≠ t) }, .destroyLoad k)

abbrev BarrierSystem (Tid : Type) := Threads.State Tid (BarrierState Tid) BarrierLoc

abbrev BarrierEvent (Tid : Type) := Threads.Event Tid BarrierInput Empty

/-- `_sppc_pthread_barrier_init`. -/
def BarrierSystem.init (count : Nat) : Option (BarrierSystem Tid) :=
  if count = 0 ∨ longMax < count then none
  else some ⟨⟨⟨none, count, count, 0, 0⟩, [], [], .start, []⟩, fun _ => .out .zero⟩

/-- One step of a thread. -/
def barrierStep : BarrierSystem Tid → BarrierEvent Tid → Option (BarrierSystem Tid) :=
  Threads.step barrierAct fun e _ => nomatch e

/-- The round of the wait that a thread is inside, having arrived. -/
def BarrierLoc.wait : BarrierLoc → Option Nat
  | .refill k | .openRound k | .openRelease k | .openWake k | .enter _ k | .enterRelease _ k | .load _ k
    | .compare _ k
  | .asleep _ k | .leave k | .leaveWake k => some k
  | _ => none

/-- All that is left of the wait is a wake call. -/
def BarrierLoc.Waking : BarrierLoc → Prop
  | .openWake _ | .leaveWake _ => True
  | _ => False

/-- The thread has the lock. -/
def BarrierLoc.locks : BarrierLoc → Bool
  | .readGeneration | .decrement _ | .refill _ | .openRound _ | .openRelease _ | .enter _ _ | .enterRelease _ _
  | .destroyLook | .destroyRelease _ _ => true
  | _ => false

/-- The thread is counted by `waiters`. -/
def BarrierLoc.counted : BarrierLoc → Bool
  | .enterRelease _ _ | .load _ _ | .compare _ _ | .asleep _ _ | .leave _ => true
  | _ => false

/-- The thread has opened a round and is yet to wake those asleep. -/
def BarrierLoc.Opening : BarrierLoc → Prop
  | .openRelease _ | .openWake _ => True
  | _ => False

/-- The thread is to open the round that it has filled. -/
def BarrierLoc.filling : BarrierLoc → Bool
  | .refill _ | .openRound _ => true
  | _ => false

/-- The round in which a destroy looked. -/
def BarrierLoc.looked : BarrierLoc → Option Nat
  | .destroyRelease _ k | .destroyLoad k | .destroyCompare _ k | .destroyAsleep k => some k
  | _ => none

/-- What holds of a thread before its next access. -/
def BarrierLoc.Ok (h : BarrierState Tid) (t : Tid) : BarrierLoc → Prop
  | .decrement g => g = h.rounds.round % 2 ^ 32
  | .refill k => k = h.rounds.round ∧ h.rounds.opener k = some t ∧ (h.rounds.arrived k).length = h.barrier.count
  | .openRound k => k = h.rounds.round ∧ h.rounds.opener k = some t ∧ (h.rounds.arrived k).length = h.barrier.count ∧
    h.barrier.remaining = h.barrier.count
  | .openRelease k => k + 1 = h.rounds.round ∧ h.rounds.opener k = some t
  | .openWake k => k < h.rounds.round ∧ h.rounds.opener k = some t
  | .enter g k | .enterRelease g k => k = h.rounds.round ∧ g = k % 2 ^ 32 ∧ h.rounds.opener k ≠ some t
  | .load g k | .compare g k | .asleep g k => k ≤ h.rounds.round ∧ g = k % 2 ^ 32 ∧ h.rounds.opener k ≠ some t
  | .leave k | .leaveWake k => k < h.rounds.round ∧ h.rounds.opener k ≠ some t
  | .destroyRelease _ k | .destroyLoad k | .destroyCompare _ k | .destroyAsleep k => k ≤ h.rounds.round
  | _ => True

structure BarrierInv (s : BarrierSystem Tid) : Prop where
  pos : 0 < s.shared.barrier.count
  rounds : s.shared.rounds.Ok s.shared.barrier.count
  generation : s.shared.barrier.generation = s.shared.rounds.round % 2 ^ 32
  loc : ∀ t, (s.loc t).Ok s.shared t
  lock : ∀ t, (s.loc t).locks = true ↔ s.shared.barrier.lock = some t
  remaining : (∀ t, (s.loc t).filling = false) → 0 < s.shared.barrier.remaining ∧
    s.shared.barrier.remaining + (s.shared.rounds.arrived s.shared.rounds.round).length = s.shared.barrier.count
  waits : ∀ t k, (s.loc t).wait = some k → t ∈ s.shared.rounds.arrived k ∧ t ∉ (s.shared.rounds.left k).map Prod.fst
  present : ∀ t, t ∈ s.shared.rounds.arrived s.shared.rounds.round → (s.loc t).wait = some s.shared.rounds.round
  waiters : s.shared.barrier.waiters = s.shared.inside.length
  counted : ∀ t, t ∈ s.shared.inside ↔ (s.loc t).counted = true
  nodup : s.shared.inside.Nodup
  asleep : ∀ t ∈ s.shared.sleepers, ∃ g k, s.loc t = .asleep g k ∧
    (k < s.shared.rounds.round → s.shared.rounds.round < k + 2 ^ 32 → ∃ u, (s.loc u).Opening)
  looked : ∀ t u k j, (s.loc t).looked = some k → s.loc u = .openRelease j → k ≤ j

variable {s : BarrierSystem Tid} {t u : Tid} {h h' : BarrierState Tid} {l l' : BarrierLoc}

/-- A thread that fills a round has the lock. -/
private theorem BarrierLoc.locks_of_filling (h : l.filling = true) : l.locks = true := by
  cases l with
  | refill k | openRound k => rfl
  | _ => cases h

omit [DecidableEq Tid] in
/-- Where one thread has the lock, no other fills a round. -/
private theorem BarrierInv.remaining_of_locks (hi : BarrierInv s) (hlocks : (s.loc t).locks = true)
    (hfilling : (s.loc t).filling = false) : 0 < s.shared.barrier.remaining ∧
      s.shared.barrier.remaining + (s.shared.rounds.arrived s.shared.rounds.round).length =
      s.shared.barrier.count := by
  refine hi.remaining fun u => ?_
  by_cases hu : (s.loc u).filling = true
  · have hlock := (hi.lock u).1 (BarrierLoc.locks_of_filling hu)
    rw [(hi.lock t).1 hlocks, Option.some.injEq] at hlock
    rw [← hlock]
    exact hfilling
  · simpa using hu

private theorem BarrierInv.lock_same (hi : BarrierInv s) (hlocks : l'.locks = (s.loc t).locks)
    (hlock : h'.barrier.lock = s.shared.barrier.lock) (u : Tid) :
    ((s.put t h' l').loc u).locks = true ↔ h'.barrier.lock = some u := by
  rw [hlock]
  exact State.put_forall (P := fun u l => BarrierLoc.locks l = true ↔ s.shared.barrier.lock = some u)
    (hlocks ▸ hi.lock t) (fun u _ => hi.lock u) u

private theorem BarrierInv.lock_acquire (hi : BarrierInv s) (hfree : s.shared.barrier.lock = none)
    (hlocks : l'.locks = true) (hlock : h'.barrier.lock = some t) (u : Tid) :
    ((s.put t h' l').loc u).locks = true ↔ h'.barrier.lock = some u := by
  rw [hlock]
  refine State.put_forall (P := fun u l => BarrierLoc.locks l = true ↔ some t = some u) (by simp [hlocks])
    (fun u hu => ?_) u
  rw [hi.lock u, hfree]
  simp [Ne.symm hu]

private theorem BarrierInv.lock_release (hi : BarrierInv s) (hhad : (s.loc t).locks = true)
    (hlocks : l'.locks = false) (hlock : h'.barrier.lock = none) (u : Tid) :
    ((s.put t h' l').loc u).locks = true ↔ h'.barrier.lock = some u := by
  rw [hlock]
  refine State.put_forall (P := fun u l => BarrierLoc.locks l = true ↔ none = some u) (by simp [hlocks])
    (fun u hu => ?_) u
  rw [hi.lock u, (hi.lock t).1 hhad]
  simp [Ne.symm hu]

private theorem BarrierInv.counted_same (hi : BarrierInv s) (hcounted : l'.counted = (s.loc t).counted)
    (hinside : h'.inside = s.shared.inside) (u : Tid) :
    u ∈ h'.inside ↔ ((s.put t h' l').loc u).counted = true := by
  rw [hinside]
  exact State.put_forall (P := fun u l => u ∈ s.shared.inside ↔ BarrierLoc.counted l = true)
    (hcounted ▸ hi.counted t) (fun u _ => hi.counted u) u

/-- Those asleep stay so, and whoever owed them a wake still does. -/
private theorem BarrierInv.asleep_same (hi : BarrierInv s) (hround : h'.rounds.round = s.shared.rounds.round)
    (hasleep : ∀ g k, s.loc t ≠ .asleep g k) (hopening : (s.loc t).Opening → l'.Opening)
    (hu : u ∈ s.shared.sleepers) :
    ∃ g k, (s.put t h' l').loc u = .asleep g k ∧ (k < h'.rounds.round → h'.rounds.round < k + 2 ^ 32 →
      ∃ v, ((s.put t h' l').loc v).Opening) := by
  obtain ⟨g, k, hloc, hwake⟩ := hi.asleep u hu
  rw [hround]
  refine ⟨g, k, ?_, fun hk hk' => ?_⟩
  · rw [State.put_of_ne]
    · exact hloc
    · rintro rfl
      exact hasleep g k hloc
  · exact State.put_exists (P := fun _ l => BarrierLoc.Opening l) (hwake hk hk') hopening

private theorem BarrierInv.looked_same (hi : BarrierInv s)
    (hlooked : ∀ k, l'.looked = some k → (s.loc t).looked = some k)
    (hopen : ∀ j, l' = .openRelease j → s.loc t = .openRelease j) (v u : Tid) (k j : Nat)
    (hv : ((s.put t h' l').loc v).looked = some k) (hu : (s.put t h' l').loc u = .openRelease j) : k ≤ j := by
  refine hi.looked v u k j ?_ ?_
  · by_cases hvt : v = t
    · subst hvt
      rw [State.put_self] at hv
      exact hlooked k hv
    · rw [State.put_of_ne hvt] at hv
      exact hv
  · by_cases hut : u = t
    · subst hut
      rw [State.put_self] at hu
      exact hopen j hu
    · rw [State.put_of_ne hut] at hu
      exact hu

omit [DecidableEq Tid] in
/-- What holds of a thread depends on the rounds opened and on who opened them, and where it fills a round on more. -/
private theorem BarrierLoc.Ok.congr (hl : l.Ok h t) (hround : h'.rounds.round = h.rounds.round)
    (hnot : ∀ k, h.rounds.opener k ≠ some t → h'.rounds.opener k ≠ some t)
    (hopener : ∀ k < h.rounds.round, h.rounds.opener k = some t → h'.rounds.opener k = some t)
    (hfilling : l.filling = true → h'.rounds.arrived = h.rounds.arrived ∧ h'.rounds.opener = h.rounds.opener ∧
      h'.barrier.count = h.barrier.count ∧ h'.barrier.remaining = h.barrier.remaining) : l.Ok h' t := by
  cases l with
  | refill k | openRound k =>
    obtain ⟨harrived, hopener, hcount, hremaining⟩ := hfilling rfl
    simp only [BarrierLoc.Ok, hround, harrived, hopener, hcount, hremaining] at hl ⊢
    exact hl
  | openRelease k => exact ⟨hl.1.trans hround.symm, hopener k (by have := hl.1; omega) hl.2⟩
  | openWake k => exact ⟨hround ▸ hl.1, hopener k hl.1 hl.2⟩
  | enter g k | enterRelease g k => exact ⟨hl.1.trans hround.symm, hl.2.1, hnot k hl.2.2⟩
  | load g k | compare g k | asleep g k => exact ⟨hround ▸ hl.1, hl.2.1, hnot k hl.2.2⟩
  | leave k | leaveWake k => exact ⟨hround ▸ hl.1, hnot k hl.2⟩
  | decrement g | destroyRelease _ k | destroyLoad k | destroyCompare _ k | destroyAsleep k =>
    simp only [BarrierLoc.Ok, hround] at hl ⊢
    exact hl
  | _ => trivial

omit [DecidableEq Tid] in
/-- The same where no round changes. -/
private theorem BarrierLoc.Ok.congr_rounds (hl : l.Ok h t) (hrounds : h'.rounds = h.rounds)
    (hcount : h'.barrier.count = h.barrier.count)
    (hremaining : l.locks = true → h'.barrier.remaining = h.barrier.remaining) : l.Ok h' t :=
  hl.congr (by rw [hrounds]) (fun k => by rw [hrounds]; exact id) (fun k _ => by rw [hrounds]; exact id)
    fun hf => ⟨by rw [hrounds], by rw [hrounds], hcount, hremaining (locks_of_filling hf)⟩

omit [DecidableEq Tid] in
private theorem BarrierInv.locks_unique (hi : BarrierInv s) (ht : (s.loc t).locks = true)
    (hu : (s.loc u).locks = true) : u = t :=
  Option.some.inj (((hi.lock u).1 hu).symm.trans ((hi.lock t).1 ht))

/-- A thread moves on in its call, and no round changes. -/
private theorem BarrierInv.move (hi : BarrierInv s) (hrounds : h'.rounds = s.shared.rounds)
    (hcount : h'.barrier.count = s.shared.barrier.count) (hgen : h'.barrier.generation = s.shared.barrier.generation)
    (hrem : (s.loc t).locks = true ∨ h'.barrier.remaining = s.shared.barrier.remaining)
    (hfilling : l'.filling = false →
      (s.loc t).filling = false ∧ h'.barrier.remaining = s.shared.barrier.remaining)
    (hl : l'.Ok h' t) (hwait : l'.wait = (s.loc t).wait)
    (hlock : ∀ u, ((s.put t h' l').loc u).locks = true ↔ h'.barrier.lock = some u)
    (hwaiters : h'.barrier.waiters = h'.inside.length) (hnodup : h'.inside.Nodup)
    (hcounted : ∀ u, u ∈ h'.inside ↔ ((s.put t h' l').loc u).counted = true)
    (hasleep : ∀ u ∈ h'.sleepers, ∃ g k, (s.put t h' l').loc u = .asleep g k ∧
      (k < h'.rounds.round → h'.rounds.round < k + 2 ^ 32 → ∃ v, ((s.put t h' l').loc v).Opening))
    (hlooked : ∀ v u k j, ((s.put t h' l').loc v).looked = some k → (s.put t h' l').loc u = .openRelease j → k ≤ j) :
    BarrierInv (s.put t h' l') := by
  constructor
  case pos => exact hcount ▸ hi.pos
  case rounds =>
    rw [State.put_shared, hrounds, hcount]
    exact hi.rounds
  case generation =>
    rw [State.put_shared, hrounds, hgen]
    exact hi.generation
  case loc =>
    exact State.put_forall hl fun u hu => (hi.loc u).congr_rounds hrounds hcount fun hlocks =>
      hrem.resolve_left fun ht => hu (hi.locks_unique ht hlocks)
  case lock => exact hlock
  case remaining =>
    intro hnone
    have hself := hnone t
    rw [State.put_self] at hself
    obtain ⟨hself, hsame⟩ := hfilling hself
    rw [State.put_shared, hrounds, hcount, hsame]
    refine hi.remaining fun u => ?_
    by_cases hu : u = t
    · rw [hu]
      exact hself
    · have := hnone u
      rwa [State.put_of_ne hu] at this
  case waits =>
    intro u k
    rw [State.put_shared, hrounds]
    refine State.put_forall (P := fun u l => BarrierLoc.wait l = some k →
      u ∈ s.shared.rounds.arrived k ∧ u ∉ (s.shared.rounds.left k).map Prod.fst) ?_ (fun u _ => hi.waits u k) u
    rw [hwait]
    exact hi.waits t k
  case present =>
    intro u
    rw [State.put_shared, hrounds]
    refine State.put_forall (P := fun u l => u ∈ s.shared.rounds.arrived s.shared.rounds.round →
      BarrierLoc.wait l = some s.shared.rounds.round) ?_ (fun u _ => hi.present u) u
    rw [hwait]
    exact hi.present t
  case waiters => exact hwaiters
  case counted => exact hcounted
  case nodup => exact hnodup
  case asleep => exact hasleep
  case looked => exact hlooked

/-- A thread moves on without an access that changes anything. -/
private theorem BarrierInv.quiet (hi : BarrierInv s) (hl : l'.Ok s.shared t) (hwait : l'.wait = (s.loc t).wait)
    (hlocks : l'.locks = (s.loc t).locks) (hcounted : l'.counted = (s.loc t).counted)
    (hfilling : (s.loc t).filling = false) (hasleep : ∀ g k, s.loc t ≠ .asleep g k)
    (hopening : (s.loc t).Opening → l'.Opening)
    (hlooked : ∀ v u k j, ((s.put t s.shared l').loc v).looked = some k →
      (s.put t s.shared l').loc u = .openRelease j → k ≤ j) : BarrierInv (s.put t s.shared l') :=
  hi.move rfl rfl rfl (Or.inr rfl) (fun _ => ⟨hfilling, rfl⟩) hl hwait (hi.lock_same hlocks rfl) hi.waiters hi.nodup
    (hi.counted_same hcounted rfl) (fun _ hu => hi.asleep_same rfl hasleep hopening hu) hlooked

/-- A thread acquires the lock, which nobody has. -/
private theorem BarrierInv.acquire (hi : BarrierInv s) (hfree : s.shared.barrier.lock = none)
    (hl : l'.Ok s.shared t) (hwait : l'.wait = none) (hlocks : l'.locks = true) (hlooked : l'.looked = none)
    (hloc : s.loc t = .acquire ∨ s.loc t = .destroyAcquire) (hcounted : l'.counted = false)
    (hopen : ∀ j, l' ≠ .openRelease j) :
    BarrierInv (s.put t { s.shared with barrier := { s.shared.barrier with lock := some t } } l') := by
  refine hi.move rfl rfl rfl (Or.inr rfl) (fun _ => ⟨?_, rfl⟩) (hl.congr_rounds rfl rfl fun _ => rfl) ?_
    (hi.lock_acquire hfree hlocks rfl) hi.waiters hi.nodup (hi.counted_same ?_ rfl)
    (fun _ hu => hi.asleep_same rfl ?_ ?_ hu) (hi.looked_same ?_ fun j hj => absurd hj (hopen j))
  · rcases hloc with hloc | hloc <;> rw [hloc] <;> rfl
  · rcases hloc with hloc | hloc <;> rw [hloc] <;> exact hwait
  · rcases hloc with hloc | hloc <;> rw [hloc] <;> exact hcounted
  · rcases hloc with hloc | hloc <;> rw [hloc] <;> simp
  · rcases hloc with hloc | hloc <;> rw [hloc] <;> exact False.elim
  · intro k hk
    rw [hlooked] at hk
    cases hk

/-- A thread releases the lock. -/
private theorem BarrierInv.release (hi : BarrierInv s) (hl : l'.Ok s.shared t) (hwait : l'.wait = (s.loc t).wait)
    (hhad : (s.loc t).locks = true) (hfilling : (s.loc t).filling = false) (hlocks : l'.locks = false)
    (hcounted : l'.counted = (s.loc t).counted) (hopening : (s.loc t).Opening → l'.Opening)
    (hlooked : ∀ k, l'.looked = some k → (s.loc t).looked = some k) (hopen : ∀ j, l' ≠ .openRelease j) :
    BarrierInv (s.put t { s.shared with barrier := { s.shared.barrier with lock := none } } l') := by
  refine hi.move rfl rfl rfl (Or.inr rfl) (fun _ => ⟨hfilling, rfl⟩) (hl.congr_rounds rfl rfl fun _ => rfl) hwait
    (hi.lock_release hhad hlocks rfl) hi.waiters hi.nodup (hi.counted_same hcounted rfl)
    (fun _ hu => hi.asleep_same rfl ?_ hopening hu) (hi.looked_same hlooked fun j hj => absurd hj (hopen j))
  intro g k hloc
  rw [hloc] at hhad
  cases hhad

/-- A thread arrives in the present round, and perhaps fills it. -/
private theorem BarrierInv.arrives (hi : BarrierInv s) {g : Nat} (hloc : s.loc t = .decrement g)
    (hround : h'.rounds.round = s.shared.rounds.round)
    (harrived : h'.rounds.arrived = (s.shared.rounds.arrive t).arrived)
    (hleft : h'.rounds.left = s.shared.rounds.left) (hopener : ∀ k, h'.rounds.opener k = s.shared.rounds.opener k ∨
      k = s.shared.rounds.round ∧ h'.rounds.opener k = some t)
    (hrounds : h'.rounds.Ok s.shared.barrier.count)
    (hbarrier : h'.barrier = { s.shared.barrier with remaining := s.shared.barrier.remaining - 1 })
    (hinside : h'.inside = s.shared.inside) (hsleepers : h'.sleepers = s.shared.sleepers)
    (hl : l'.Ok h' t) (hwait : l'.wait = some s.shared.rounds.round) (hlocks : l'.locks = true)
    (hcounted : l'.counted = false) (hlooked : l'.looked = none) (hopen : ∀ j, l' ≠ .openRelease j)
    (hfilling : l'.filling = false → s.shared.barrier.remaining - 1 ≠ 0) : BarrierInv (s.put t h' l') := by
  have hhad : (s.loc t).locks = true := by rw [hloc]; rfl
  obtain ⟨hpos, hsum⟩ := hi.remaining_of_locks hhad (by rw [hloc]; rfl)
  constructor
  case pos =>
    rw [State.put_shared, hbarrier]
    exact hi.pos
  case rounds =>
    rw [State.put_shared, hbarrier]
    exact hrounds
  case generation =>
    rw [State.put_shared, hbarrier, hround]
    exact hi.generation
  case loc =>
    refine State.put_forall hl fun u hu => (hi.loc u).congr hround ?_ ?_ fun hf => ?_
    · intro k hk
      rcases hopener k with heq | ⟨-, heq⟩
      · rw [State.put_shared, heq]
        exact hk
      · rw [State.put_shared, heq, Ne, Option.some.injEq]
        exact Ne.symm hu
    · intro k hk hk'
      rcases hopener k with heq | ⟨rfl, -⟩
      · rw [State.put_shared, heq]
        exact hk'
      · exact absurd hk (Nat.lt_irrefl _)
    · exact absurd (hi.locks_unique hhad (BarrierLoc.locks_of_filling hf)) hu
  case lock =>
    refine hi.lock_same ?_ (by rw [hbarrier])
    rw [hhad, hlocks]
  case remaining =>
    intro hnone
    have hself := hnone t
    rw [State.put_self] at hself
    have hne := hfilling hself
    rw [State.put_shared, hbarrier, hround, harrived, Rounds.arrive_arrived, List.length_cons]
    show 0 < s.shared.barrier.remaining - 1 ∧ s.shared.barrier.remaining - 1 + _ = s.shared.barrier.count
    omega
  case waits =>
    intro u k
    rw [State.put_shared, harrived, hleft]
    refine State.put_forall (P := fun u l => BarrierLoc.wait l = some k →
      u ∈ (s.shared.rounds.arrive t).arrived k ∧ u ∉ (s.shared.rounds.left k).map Prod.fst) ?_ (fun u _ hu => ?_) u
    · rw [hwait]
      intro hk
      cases hk
      refine ⟨by rw [Rounds.arrive_arrived]; exact List.mem_cons_self, fun hmem => ?_⟩
      obtain ⟨x, hx, -⟩ := List.mem_map.1 hmem
      exact Nat.lt_irrefl _ (hi.rounds.left _ x hx).1
    · obtain ⟨hmem, hnot⟩ := hi.waits u k hu
      exact ⟨Rounds.subset_arrive hmem, hnot⟩
  case present =>
    intro u
    rw [State.put_shared, hround, harrived, Rounds.arrive_arrived]
    refine State.put_forall (P := fun u l => u ∈ t :: s.shared.rounds.arrived s.shared.rounds.round →
      BarrierLoc.wait l = some s.shared.rounds.round) (fun _ => hwait) (fun u hu hmem => ?_) u
    rcases List.mem_cons.1 hmem with heq | hmem
    · exact absurd heq hu
    · exact hi.present u hmem
  case waiters =>
    rw [State.put_shared, hbarrier, hinside]
    exact hi.waiters
  case counted => exact hi.counted_same (by rw [hcounted, hloc]; rfl) hinside
  case nodup =>
    rw [State.put_shared, hinside]
    exact hi.nodup
  case asleep =>
    intro u hu
    rw [State.put_shared, hsleepers] at hu
    exact hi.asleep_same hround (by simp [hloc]) (by rw [hloc]; exact False.elim) hu
  case looked =>
    refine hi.looked_same (fun k hk => ?_) fun j hj => absurd hj (hopen j)
    rw [hlooked] at hk
    cases hk

/-- The thread that filled the round opens it. -/
private theorem BarrierInv.opens (hi : BarrierInv s) {k : Nat} (hloc : s.loc t = .openRound k) :
    BarrierInv (s.put t { s.shared with
      barrier := { s.shared.barrier with generation := (s.shared.barrier.generation + 1) % 2 ^ 32 }
      rounds := s.shared.rounds.opens } (.openRelease k)) := by
  have hhad : (s.loc t).locks = true := by rw [hloc]; rfl
  have hok := hi.loc t
  rw [hloc] at hok
  obtain ⟨rfl, hopener, hlen, hremaining⟩ := hok
  obtain ⟨hmem, -⟩ := hi.waits t s.shared.rounds.round (by rw [hloc]; rfl)
  constructor
  case pos => exact hi.pos
  case rounds => exact hi.rounds.opens hlen hmem hopener
  case generation =>
    simp only [State.put_shared, Rounds.opens_round, hi.generation]
    omega
  case loc =>
    refine State.put_forall ⟨rfl, hopener⟩ fun u hu => ?_
    have hok := hi.loc u
    have hnot : (s.loc u).locks ≠ true := fun hlocks => hu (hi.locks_unique hhad hlocks)
    cases hl : s.loc u <;> rw [hl] at hok hnot <;> first | exact absurd rfl hnot | trivial | skip
    all_goals simp only [BarrierLoc.Ok] at hok ⊢
    case openWake k => exact ⟨Nat.lt_succ_of_lt hok.1, hok.2⟩
    case load g k | compare g k | asleep g k => exact ⟨Nat.le_succ_of_le hok.1, hok.2⟩
    case leave k | leaveWake k => exact ⟨Nat.lt_succ_of_lt hok.1, hok.2⟩
    case destroyLoad k | destroyCompare _ k | destroyAsleep k => exact Nat.le_succ_of_le hok
  case lock => exact hi.lock_same hhad.symm rfl
  case remaining =>
    intro _
    have hnil := hi.rounds.later (s.shared.rounds.round + 1) (Nat.lt_succ_self _)
    show 0 < s.shared.barrier.remaining ∧ s.shared.barrier.remaining +
      (s.shared.rounds.arrived (s.shared.rounds.round + 1)).length = s.shared.barrier.count
    rw [hnil, hremaining]
    exact ⟨hi.pos, rfl⟩
  case waits =>
    intro u k
    refine State.put_forall (P := fun u l => BarrierLoc.wait l = some k →
      u ∈ s.shared.rounds.arrived k ∧ u ∉ (s.shared.rounds.left k).map Prod.fst) ?_ (fun u _ => hi.waits u k) u
    intro hk
    exact hi.waits t k (by rw [hloc]; exact hk)
  case present =>
    intro u hu
    have hnil := hi.rounds.later (s.shared.rounds.round + 1) (Nat.lt_succ_self _)
    have hu : u ∈ s.shared.rounds.arrived (s.shared.rounds.round + 1) := hu
    rw [hnil] at hu
    cases hu
  case waiters => exact hi.waiters
  case counted => exact hi.counted_same (by rw [hloc]; rfl) rfl
  case nodup => exact hi.nodup
  case asleep =>
    intro u hu
    obtain ⟨g, k, hasleep, -⟩ := hi.asleep u hu
    refine ⟨g, k, ?_, fun _ _ => ⟨t, by rw [State.put_self]; exact trivial⟩⟩
    rw [State.put_of_ne]
    · exact hasleep
    · rintro rfl
      rw [hloc] at hasleep
      cases hasleep
  case looked =>
    intro v u k j hv hu
    have hvt : v ≠ t := by
      rintro rfl
      rw [State.put_self] at hv
      cases hv
    rw [State.put_of_ne hvt] at hv
    by_cases hut : u = t
    · subst hut
      rw [State.put_self] at hu
      cases hu
      have hok := hi.loc v
      cases hl : s.loc v <;> rw [hl] at hok hv <;> cases hv
      all_goals exact hok
    · rw [State.put_of_ne hut] at hu
      exact hi.looked v u k j hv hu

/-- A thread returns from its wait. -/
private theorem BarrierInv.leaves (hi : BarrierInv s) {k : Nat} {serial : Bool} {r : Ret}
    (hwait : (s.loc t).wait = some k) (hk : k < s.shared.rounds.round)
    (hserial : serial = true ↔ s.shared.rounds.opener k = some t) (hlocks : (s.loc t).locks = false)
    (hrounds : h'.rounds = s.shared.rounds.leave t k serial) (hcount : h'.barrier.count = s.shared.barrier.count)
    (hgen : h'.barrier.generation = s.shared.barrier.generation)
    (hremaining : h'.barrier.remaining = s.shared.barrier.remaining) (hlock : h'.barrier.lock = s.shared.barrier.lock)
    (hwaiters : h'.barrier.waiters = h'.inside.length) (hnodup : h'.inside.Nodup)
    (hcounted : ∀ u, u ∈ h'.inside ↔ ((s.put t h' (.out r)).loc u).counted = true)
    (hasleep : ∀ u ∈ h'.sleepers, u ∈ s.shared.sleepers ∧ (∀ g k, s.loc t ≠ .asleep g k) ∧ ¬(s.loc t).Opening) :
    BarrierInv (s.put t h' (.out r)) := by
  obtain ⟨harrived, hnot⟩ := hi.waits t k hwait
  constructor
  case pos => exact hcount ▸ hi.pos
  case rounds =>
    rw [State.put_shared, hrounds, hcount]
    exact hi.rounds.leave hk harrived hserial hnot
  case generation =>
    rw [State.put_shared, hrounds, hgen]
    exact hi.generation
  case loc =>
    refine State.put_forall trivial fun u hu => (hi.loc u).congr ?_ ?_ ?_ fun hf => ?_
    · rw [State.put_shared, hrounds, Rounds.leave_round]
    · rw [State.put_shared, hrounds]
      exact fun _ => id
    · rw [State.put_shared, hrounds]
      exact fun _ _ => id
    · rw [State.put_shared, hrounds]
      exact ⟨rfl, rfl, hcount, hremaining⟩
  case lock => exact hi.lock_same hlocks.symm hlock
  case remaining =>
    intro hnone
    rw [State.put_shared, hrounds, hcount, hremaining]
    refine hi.remaining fun u => ?_
    by_cases hu : u = t
    · by_contra hf
      rw [hu, Bool.not_eq_false] at hf
      rw [BarrierLoc.locks_of_filling hf] at hlocks
      cases hlocks
    · have := hnone u
      rwa [State.put_of_ne hu] at this
  case waits =>
    intro u j
    rw [State.put_shared, hrounds]
    refine State.put_forall (P := fun u l => BarrierLoc.wait l = some j →
      u ∈ s.shared.rounds.arrived j ∧ u ∉ ((s.shared.rounds.leave t k serial).left j).map Prod.fst)
      (fun h => by cases h) (fun u hu hj => ?_) u
    obtain ⟨hmem, hyet⟩ := hi.waits u j hj
    refine ⟨hmem, ?_⟩
    by_cases hjk : j = k
    · subst hjk
      rw [Rounds.leave_left, List.map_cons, List.mem_cons, not_or]
      exact ⟨hu, hyet⟩
    · rw [Rounds.leave_left_of_ne hjk]
      exact hyet
  case present =>
    intro u
    rw [State.put_shared, hrounds]
    refine State.put_forall (P := fun u l => u ∈ s.shared.rounds.arrived s.shared.rounds.round →
      BarrierLoc.wait l = some s.shared.rounds.round) (fun hmem => ?_) (fun u _ => hi.present u) u
    have := hi.present t hmem
    rw [hwait, Option.some.injEq] at this
    omega
  case waiters => exact hwaiters
  case counted => exact hcounted
  case nodup => exact hnodup
  case asleep =>
    intro u hu
    obtain ⟨hu, hloc, hopening⟩ := hasleep u hu
    exact hi.asleep_same (by rw [hrounds, Rounds.leave_round]) hloc (fun h => absurd h hopening) hu
  case looked =>
    refine hi.looked_same (fun k hk => ?_) fun j hj => ?_
    · cases hk
    · cases hj

/-- A thread outside, or in a destroy, moves on. -/
private theorem BarrierInv.aside (hi : BarrierInv s) (hl : l'.Ok s.shared t) (hwait : (s.loc t).wait = none)
    (hwait' : l'.wait = none) (hlocks : l'.locks = (s.loc t).locks) (hcounted : l'.counted = false)
    (hlooked : (s.loc t).locks = true ∨ ∀ k, l'.looked = some k → (s.loc t).looked = some k) :
    BarrierInv (s.put t s.shared l') := by
  have hfacts : (s.loc t).counted = false ∧ (s.loc t).filling = false ∧ (∀ g k, s.loc t ≠ .asleep g k) ∧
      ¬(s.loc t).Opening := by
    cases hloc : s.loc t <;> rw [hloc] at hwait <;> cases hwait
    all_goals exact ⟨rfl, rfl, by simp, id⟩
  obtain ⟨hcounted', hfilling, hasleep, hopening⟩ := hfacts
  have hopen : ∀ j, l' ≠ .openRelease j := by
    rintro j rfl
    cases hwait'
  refine hi.quiet hl (hwait'.trans hwait.symm) hlocks (hcounted.trans hcounted'.symm) hfilling hasleep
    (fun h => absurd h hopening) ?_
  rcases hlooked with hhad | hlooked
  · -- it has the lock, so that no round is being opened
    intro v u k j _ hu
    have hut : u ≠ t := by
      rintro rfl
      rw [State.put_self] at hu
      exact hopen j hu
    rw [State.put_of_ne hut] at hu
    exact absurd (hi.locks_unique hhad (by rw [hu]; rfl)) hut
  · exact hi.looked_same hlooked fun j hj => absurd hj (hopen j)

/-- A thread that waits for the round to open moves on. -/
private theorem BarrierInv.spin (hi : BarrierInv s) {g k : Nat} (hloc : s.loc t = .load g k ∨ s.loc t = .compare g k)
    (hl : l'.Ok s.shared t) (hwait : l'.wait = some k) (hcounted : l'.counted = true) (hlocks : l'.locks = false) :
    BarrierInv (s.put t s.shared l') := by
  have hfacts : (s.loc t).wait = some k ∧ (s.loc t).locks = false ∧ (s.loc t).counted = true ∧
      (s.loc t).filling = false ∧ (∀ g k, s.loc t ≠ .asleep g k) ∧ ¬(s.loc t).Opening := by
    rcases hloc with hloc | hloc <;> rw [hloc] <;> exact ⟨rfl, rfl, rfl, rfl, by simp, id⟩
  obtain ⟨hwait', hlocks', hcounted', hfilling, hasleep, hopening⟩ := hfacts
  refine hi.quiet hl (hwait.trans hwait'.symm) (hlocks.trans hlocks'.symm) (hcounted.trans hcounted'.symm) hfilling
    hasleep (fun h => absurd h hopening) (hi.looked_same (fun j hj => ?_) fun j hj => ?_)
  · cases l' <;> cases hwait <;> cases hj
  · rw [hj] at hlocks
    cases hlocks

/-- A thread falls asleep, where the generation it read is the present one, or wakes. -/
private theorem BarrierInv.sleepers (hi : BarrierInv s) {g k : Nat} {sleepers : List Tid}
    (hloc : s.loc t = .compare g k ∧ l' = .asleep g k ∨ s.loc t = .asleep g k ∧ l' = .load g k)
    (hsleep : ∀ u ∈ sleepers, u = t ∧ l' = .asleep g k ∧ s.shared.barrier.generation = g ∨
      u ≠ t ∧ u ∈ s.shared.sleepers) :
    BarrierInv (s.put t { s.shared with sleepers := sleepers } l') := by
  have hok := hi.loc t
  obtain ⟨hl, hwait, hlocks, hcounted, hfilling, hopening, hopen, hlooked⟩ : l'.Ok s.shared t ∧
      l'.wait = (s.loc t).wait ∧ l'.locks = (s.loc t).locks ∧ l'.counted = (s.loc t).counted ∧
      (s.loc t).filling = false ∧ ¬(s.loc t).Opening ∧ (∀ j, l' ≠ .openRelease j) ∧ l'.looked = none := by
    rcases hloc with ⟨hloc, rfl⟩ | ⟨hloc, rfl⟩ <;> rw [hloc] at hok ⊢ <;> exact ⟨hok, rfl, rfl, rfl, rfl, id, by
      simp, rfl⟩
  refine hi.move rfl rfl rfl (Or.inr rfl) (fun _ => ⟨hfilling, rfl⟩) (hl.congr_rounds rfl rfl fun _ => rfl) hwait
    (hi.lock_same hlocks rfl) hi.waiters hi.nodup (hi.counted_same hcounted rfl) ?_
    (hi.looked_same (fun k hk => ?_) fun j hj => absurd hj (hopen j))
  · intro u hu
    rcases hsleep u hu with ⟨rfl, rfl, hgen⟩ | ⟨hut, hu⟩
    · refine ⟨g, k, State.put_self, fun hk hk' => ?_⟩
      -- its round is the present one, or as many rounds back as the generation takes to come round
      have hg : g = k % 2 ^ 32 := hl.2.1
      rw [hi.generation, hg] at hgen
      have hk : k < s.shared.rounds.round := hk
      have hk' : s.shared.rounds.round < k + 2 ^ 32 := hk'
      omega
    · obtain ⟨g', k', hloc', hwake⟩ := hi.asleep u hu
      refine ⟨g', k', by rw [State.put_of_ne hut]; exact hloc', fun hk hk' => ?_⟩
      exact State.put_exists (P := fun _ l => BarrierLoc.Opening l) (hwake hk hk') fun h => absurd h hopening
  · rw [hlooked] at hk
    cases hk

/-- A thread is counted by `waiters`. -/
theorem BarrierInv.enter (hi : BarrierInv s) {g k : Nat} (hloc : s.loc t = .enter g k) :
    BarrierInv (s.put t { s.shared with
      barrier := { s.shared.barrier with waiters := s.shared.barrier.waiters + 1 }
      inside := t :: s.shared.inside } (.enterRelease g k)) := by
  have hok := hi.loc t
  have hnot : t ∉ s.shared.inside := fun hmem => by
    have := (hi.counted t).1 hmem
    rw [hloc] at this
    cases this
  rw [hloc] at hok
  refine hi.move rfl rfl rfl (Or.inr rfl) (fun _ => ⟨by rw [hloc]; rfl, rfl⟩) hok (by rw [hloc]; rfl)
    (hi.lock_same (by rw [hloc]; rfl) rfl) ?_ (List.nodup_cons.2 ⟨hnot, hi.nodup⟩) ?_
    (fun _ hu => hi.asleep_same rfl (by simp [hloc]) (by rw [hloc]; exact False.elim) hu)
    (hi.looked_same (fun j hj => by cases hj) fun j hj => by cases hj)
  · simp only [hi.waiters, List.length_cons]
  · refine State.put_forall (P := fun u l => u ∈ t :: s.shared.inside ↔ BarrierLoc.counted l = true) ?_ fun u hu => ?_
    · exact ⟨fun _ => rfl, fun _ => List.mem_cons_self⟩
    · rw [List.mem_cons, ← hi.counted u]
      simp [hu]

omit [DecidableEq Tid] in
/-- Where a thread has been counted, `waiters` counts it. -/
private theorem BarrierInv.waiters_pos (hi : BarrierInv s) (hcounted : (s.loc t).counted = true) :
    0 < s.shared.barrier.waiters := by
  rw [hi.waiters]
  exact List.length_pos_of_mem ((hi.counted t).2 hcounted)

/-- A thread is no longer counted. -/
private theorem BarrierInv.uncounted (hi : BarrierInv s) (hcounted : (s.loc t).counted = true)
    (hl : l.counted = false) :
    (s.shared.barrier.waiters - 1 = (s.shared.inside.erase t).length ∧ (s.shared.inside.erase t).Nodup) ∧
    ∀ h u, u ∈ s.shared.inside.erase t ↔ ((s.put t h l).loc u).counted = true := by
  rw [List.length_erase_of_mem ((hi.counted t).2 hcounted), hi.waiters]
  refine ⟨⟨rfl, hi.nodup.erase t⟩, fun h => ?_⟩
  refine State.put_forall (P := fun u l => u ∈ s.shared.inside.erase t ↔ BarrierLoc.counted l = true) ?_ fun u hu =>
    ?_
  · rw [hl]
    simp [hi.nodup.mem_erase_iff]
  · rw [List.mem_erase_of_ne hu]
    exact hi.counted u

private theorem BarrierInv.decrement (hi : BarrierInv s) {g : Nat} (hloc : s.loc t = .decrement g) {i : BarrierInput}
    (hact : barrierAct t i s.shared (.decrement g) = some (h', l')) : BarrierInv (s.put t h' l') := by
  have hok := hi.loc t
  rw [hloc] at hok
  have hg : g = s.shared.rounds.round % 2 ^ 32 := hok
  have hnew : t ∉ s.shared.rounds.arrived s.shared.rounds.round := by
    intro hmem
    have := hi.present t hmem
    rw [hloc] at this
    cases this
  have hopener : s.shared.rounds.opener s.shared.rounds.round ≠ some t := fun ho => hnew (hi.rounds.openers _ _ ho)
  obtain ⟨hpos, hsum⟩ := hi.remaining_of_locks (by rw [hloc]; rfl) (by rw [hloc]; rfl)
  simp only [barrierAct] at hact
  split at hact
  · rename_i hzero
    cases hact
    refine hi.arrives hloc rfl rfl rfl (fun k => ?_)
      (hi.rounds.fill hnew) rfl rfl rfl ⟨rfl, ?_, ?_⟩ rfl rfl rfl rfl (by simp) (fun h => by cases h)
    · by_cases hk : k = s.shared.rounds.round
      · exact Or.inr ⟨hk, by simp [Rounds.fill, hk]⟩
      · exact Or.inl (by simp [Rounds.fill, Rounds.arrive, hk])
    · simp [Rounds.fill]
    · show ((s.shared.rounds.arrive t).arrived s.shared.rounds.round).length = s.shared.barrier.count
      rw [Rounds.arrive_arrived, List.length_cons]
      omega
  · rename_i hne
    cases hact
    exact hi.arrives hloc rfl rfl rfl (fun _ => Or.inl rfl)
      (hi.rounds.arrive hnew) rfl rfl rfl ⟨rfl, hg, hopener⟩ rfl rfl rfl rfl (by simp) fun _ => hne

/-- The thread that fills a round starts the next. -/
private theorem BarrierInv.refill (hi : BarrierInv s) {k : Nat} (hloc : s.loc t = .refill k) :
    BarrierInv (s.put t { s.shared with barrier := { s.shared.barrier with remaining := s.shared.barrier.count } }
      (.openRound k)) := by
  have hok := hi.loc t
  rw [hloc] at hok
  exact hi.move rfl rfl rfl (Or.inl (by rw [hloc]; rfl)) (fun h => by cases h) ⟨hok.1, hok.2.1, hok.2.2, rfl⟩
    (by rw [hloc]; rfl)
    (hi.lock_same (by rw [hloc]; rfl) rfl) hi.waiters hi.nodup (hi.counted_same (by rw [hloc]; rfl) rfl)
    (fun _ hu => hi.asleep_same rfl (by simp [hloc]) (by rw [hloc]; exact False.elim) hu)
    (hi.looked_same (fun j hj => by cases hj) fun j hj => by cases hj)

private theorem BarrierInv.leave (hi : BarrierInv s) {k : Nat} (hloc : s.loc t = .leave k) {i : BarrierInput}
    (hact : barrierAct t i s.shared (.leave k) = some (h', l')) : BarrierInv (s.put t h' l') := by
  have hok := hi.loc t
  rw [hloc] at hok
  obtain ⟨hk, hopener⟩ := hok
  have hcounted : (s.loc t).counted = true := by rw [hloc]; rfl
  have hasleep : (∀ g k, s.loc t ≠ .asleep g k) ∧ ¬(s.loc t).Opening := by rw [hloc]; exact ⟨by simp, id⟩
  simp only [barrierAct] at hact
  split at hact
  · cases hact
    obtain ⟨⟨hwaiters, hnodup⟩, hcounted⟩ := hi.uncounted (l := .leaveWake k) hcounted rfl
    refine hi.move rfl rfl rfl (Or.inr rfl) (fun _ => ⟨by rw [hloc]; rfl, rfl⟩) ⟨hk, hopener⟩ (by rw [hloc]; rfl)
      (hi.lock_same (by rw [hloc]; rfl) rfl) hwaiters hnodup (hcounted _)
      (fun _ hu => hi.asleep_same rfl hasleep.1 (fun h => absurd h hasleep.2) hu)
      (hi.looked_same (fun j hj => by cases hj) fun j hj => by cases hj)
  · cases hact
    obtain ⟨⟨hwaiters, hnodup⟩, hcounted⟩ := hi.uncounted (l := .out .zero) hcounted rfl
    exact hi.leaves (by rw [hloc]; rfl) hk (by simpa using hopener)
      (by rw [hloc]; rfl) rfl rfl rfl rfl rfl hwaiters hnodup (hcounted _) fun u hu => ⟨hu, hasleep⟩

/-- A destroy falls asleep on `waiters`, or wakes. -/
private theorem BarrierInv.destroyer (hi : BarrierInv s) {k : Nat} {destroyers : List Tid}
    (hloc : (∃ waiters, s.loc t = .destroyCompare waiters k) ∨ s.loc t = .destroyAsleep k)
    (hl : l' = .destroyLoad k ∨ l' = .destroyAsleep k) :
    BarrierInv (s.put t { s.shared with destroyers := destroyers } l') := by
  have hok := hi.loc t
  have hfacts : k ≤ s.shared.rounds.round ∧ (s.loc t).wait = none ∧ (s.loc t).locks = false ∧
    (s.loc t).counted = false ∧
      (s.loc t).filling = false ∧ (∀ g k, s.loc t ≠ .asleep g k) ∧ ¬(s.loc t).Opening ∧
      (s.loc t).looked = some k := by
    rcases hloc with ⟨waiters, hloc⟩ | hloc <;> rw [hloc] at hok ⊢ <;> exact ⟨hok, rfl, rfl, rfl, rfl, by
      simp, id, rfl⟩
  obtain ⟨hk, hwait, hlocks, hcounted, hfilling, hasleep, hopening, hlooked⟩ := hfacts
  have hfacts : l'.Ok s.shared t ∧ l'.wait = none ∧ l'.locks = false ∧ l'.counted = false ∧ l'.looked = some k ∧
      ∀ j, l' ≠ .openRelease j := by
    rcases hl with rfl | rfl <;> exact ⟨hk, rfl, rfl, rfl, rfl, by simp⟩
  obtain ⟨hok', hwait', hlocks', hcounted', hlooked', hopen⟩ := hfacts
  exact hi.move rfl rfl rfl (Or.inr rfl) (fun _ => ⟨hfilling, rfl⟩) (hok'.congr_rounds rfl rfl fun _ => rfl)
    (hwait'.trans hwait.symm) (hi.lock_same (hlocks'.trans hlocks.symm) rfl) hi.waiters hi.nodup
    (hi.counted_same (hcounted'.trans hcounted.symm) rfl)
    (fun _ hu => hi.asleep_same rfl hasleep (fun h => absurd h hopening) hu)
    (hi.looked_same (fun j hj => by rw [hlooked, ← hlooked']; exact hj) fun j hj => absurd hj (hopen j))

private theorem BarrierInv.act {i : BarrierInput} (hi : BarrierInv s)
    (hact : barrierAct t i s.shared (s.loc t) = some (h', l')) : BarrierInv (s.put t h' l') := by
  have hok := hi.loc t
  cases hloc : s.loc t <;> rw [hloc] at hact hok
  case out r =>
    cases i with
    | wait | destroy =>
      cases hact
      exact hi.aside trivial (by rw [hloc]; rfl) rfl (by rw [hloc]; rfl) rfl (Or.inr fun k hk => by cases hk)
    | run => cases hact
  case acquire =>
    simp only [barrierAct] at hact
    split at hact <;> cases hact
    exact hi.acquire (by assumption) trivial rfl rfl rfl (Or.inl hloc) rfl (by simp)
  case readGeneration =>
    cases hact
    exact hi.aside hi.generation (by rw [hloc]; rfl) rfl (by rw [hloc]; rfl) rfl (Or.inr fun k hk => by cases hk)
  case decrement g => exact hi.decrement hloc hact
  case refill k =>
    cases hact
    exact hi.refill hloc
  case openRound k =>
    cases hact
    exact hi.opens hloc
  case openRelease k =>
    cases hact
    exact hi.release ⟨Nat.lt_of_lt_of_eq (Nat.lt_succ_self k) hok.1, hok.2⟩ (by rw [hloc]; rfl) (by rw [hloc]; rfl)
      (by rw [hloc]; rfl) rfl (by rw [hloc]; rfl) (fun _ => trivial) (fun k hk => by cases hk) (by simp)
  case openWake k =>
    cases hact
    refine hi.leaves (by rw [hloc]; rfl) hok.1 (by simp [hok.2])
      (by rw [hloc]; rfl) rfl rfl rfl rfl rfl hi.waiters hi.nodup (hi.counted_same (by rw [hloc]; rfl) rfl)
      fun u hu => by cases hu
  case enter g k =>
    cases hact
    exact hi.enter hloc
  case enterRelease g k =>
    cases hact
    exact hi.release ⟨Nat.le_of_eq hok.1, hok.2⟩ (by rw [hloc]; rfl) (by rw [hloc]; rfl) (by rw [hloc]; rfl) rfl
      (by rw [hloc]; rfl) (by rw [hloc]; exact False.elim) (fun k hk => by cases hk) (by simp)
  case load g k =>
    cases hact
    split
    · exact hi.spin (Or.inl hloc) hok rfl rfl rfl
    · rename_i hne
      refine hi.spin (Or.inl hloc) ⟨?_, hok.2.2⟩ rfl rfl rfl
      rw [hi.generation, hok.2.1] at hne
      have := hok.1
      rcases Nat.lt_or_eq_of_le hok.1 with hlt | rfl
      · exact hlt
      · exact absurd rfl hne
  case compare g k =>
    simp only [barrierAct] at hact
    split at hact <;> cases hact
    · rename_i hgen
      refine hi.sleepers (Or.inl ⟨hloc, rfl⟩) fun u hu => ?_
      rcases List.mem_append.1 hu with hu | hu
      · refine Or.inr ⟨?_, hu⟩
        obtain ⟨g', k', hasleep, -⟩ := hi.asleep u hu
        rintro rfl
        rw [hloc] at hasleep
        cases hasleep
      · exact Or.inl ⟨List.mem_singleton.1 hu, rfl, hgen⟩
    · exact hi.spin (Or.inr hloc) hok rfl rfl rfl
  case asleep g k =>
    cases hact
    refine hi.sleepers (Or.inr ⟨hloc, rfl⟩) fun u hu => Or.inr ?_
    obtain ⟨hu, hut⟩ := List.mem_filter.1 hu
    exact ⟨by simpa using hut, hu⟩
  case leave k => exact hi.leave hloc hact
  case leaveWake k =>
    cases hact
    exact hi.leaves (by rw [hloc]; rfl) hok.1 (by simpa using hok.2)
      (by rw [hloc]; rfl) rfl rfl rfl rfl rfl hi.waiters hi.nodup (hi.counted_same (by rw [hloc]; rfl) rfl)
      fun u hu => ⟨hu, by simp [hloc], by rw [hloc]; exact id⟩
  case destroyAcquire =>
    simp only [barrierAct] at hact
    split at hact <;> cases hact
    exact hi.acquire (by assumption) trivial rfl rfl rfl (Or.inr hloc) rfl (by simp)
  case destroyLook =>
    cases hact
    exact hi.aside (Nat.le_refl _) (by rw [hloc]; rfl) rfl (by rw [hloc]; rfl) rfl (Or.inl (by rw [hloc]; rfl))
  case destroyRelease busy k =>
    cases hact
    have hlocks : (s.loc t).locks = true := by rw [hloc]; rfl
    cases busy with
    | true =>
      exact hi.release trivial (by rw [hloc]; rfl) hlocks (by rw [hloc]; rfl) rfl (by rw [hloc]; rfl)
        (by rw [hloc]; exact False.elim) (fun k hk => by cases hk) (by simp)
    | false =>
      exact hi.release hok (by rw [hloc]; rfl) hlocks (by rw [hloc]; rfl) rfl (by rw [hloc]; rfl)
        (by rw [hloc]; exact False.elim) (fun j hj => by rw [hloc]; exact hj) (by simp)
  case destroyLoad k =>
    cases hact
    split
    · exact hi.aside trivial (by rw [hloc]; rfl) rfl (by rw [hloc]; rfl) rfl (Or.inr fun k hk => by cases hk)
    · exact hi.aside hok (by rw [hloc]; rfl) rfl (by rw [hloc]; rfl) rfl (Or.inr fun j hj => by rw [hloc]; exact hj)
  case destroyCompare waiters k =>
    simp only [barrierAct] at hact
    split at hact <;> cases hact
    · exact hi.destroyer (Or.inl ⟨waiters, hloc⟩) (Or.inr rfl)
    · exact hi.aside hok (by rw [hloc]; rfl) rfl (by rw [hloc]; rfl) rfl (Or.inr fun j hj => by rw [hloc]; exact hj)
  case destroyAsleep k =>
    cases hact
    exact hi.destroyer (Or.inr hloc) (Or.inl rfl)

theorem BarrierInv.step {e : BarrierEvent Tid} {s' : BarrierSystem Tid} (hi : BarrierInv s)
    (hstep : barrierStep s e = some s') : BarrierInv s' := by
  cases e with
  | thread t i =>
    obtain ⟨h', l', hact, rfl⟩ := step_thread.1 hstep
    exact hi.act hact
  | env e => cases e

omit [DecidableEq Tid] in
theorem BarrierInv.init {count : Nat} (h : BarrierSystem.init count = some s) :
    BarrierInv s ∧ s.shared.barrier.count = count := by
  unfold BarrierSystem.init at h
  split at h
  · cases h
  · rename_i hcount
    cases h
    refine ⟨⟨by show 0 < count; omega, Rounds.start_ok, rfl, fun _ => trivial, fun _ => ?_, fun _ => ?_,
      fun _ _ h => ?_, fun _ h => ?_, rfl, fun _ => ?_, List.nodup_nil, fun _ h => ?_, fun _ _ _ _ h => ?_⟩, rfl⟩
    · exact ⟨fun h => (by cases h), fun h => (by cases h)⟩
    · exact ⟨by show 0 < count; omega, rfl⟩
    · cases h
    · cases h
    · exact ⟨fun h => (by cases h), fun h => (by cases h)⟩
    · cases h
    · cases h

/-- `count` never changes. -/
private theorem barrierStep_count {e : BarrierEvent Tid} {s' : BarrierSystem Tid}
    (hstep : barrierStep s e = some s') : s'.shared.barrier.count = s.shared.barrier.count := by
  cases e with
  | env e => cases e
  | thread t i =>
    obtain ⟨h', l', hact, rfl⟩ := step_thread.1 hstep
    cases hloc : s.loc t <;> rw [hloc] at hact
    case out r => cases i <;> cases hact <;> rfl
    all_goals simp only [barrierAct] at hact
    all_goals try split at hact
    all_goals cases hact <;> rfl

/-- How many accesses a thread that need not wait any more is away from its return. -/
def BarrierLoc.togo : BarrierLoc → Nat
  | .openRelease _ | .leave _ => 2
  | .openWake _ | .leaveWake _ => 1
  | .load _ _ => 3
  | .compare _ _ | .asleep _ _ => 4
  | _ => 0

/-- The thread is in a destroy. -/
def BarrierLoc.InDestroy : BarrierLoc → Prop
  | .destroyAcquire | .destroyLook | .destroyRelease _ _ | .destroyLoad _ | .destroyCompare _ _
    | .destroyAsleep _ => True
  | _ => False

/-- What the barrier guarantees in every state of a run; what returns, but a destroy, is a wait.  A destroy that finds
no thread in `waiters` has looked in the round `k`, and not found it part-way. -/
structure BarrierOk (count : Nat) (s : BarrierSystem Tid) : Prop where
  rounds : s.shared.rounds.Ok count
  waits : ∀ t k, (s.loc t).wait = some k → k ≤ s.shared.rounds.round ∧ t ∈ s.shared.rounds.arrived k
  escapes : ∀ t k, (s.loc t).wait = some k → k < s.shared.rounds.round → s.shared.rounds.round < k + 2 ^ 32 →
    (t ∈ s.shared.sleepers → ∃ u, (s.loc u).Opening) ∧
    ∃ h' l', barrierAct t .run s.shared (s.loc t) = some (h', l') ∧ l'.togo < (s.loc t).togo
  returns : ∀ t i h' r, ¬(s.loc t).InDestroy → barrierAct t i s.shared (s.loc t) = some (h', .out r) →
    ∃ k serial, h'.rounds.left k = (t, serial) :: s.shared.rounds.left k ∧ (serial = true ↔ r = .minusOne)
  looks : ∀ t, s.loc t = .destroyLook → s.shared.barrier.remaining = s.shared.barrier.count →
    s.shared.rounds.arrived s.shared.rounds.round = []
  destroyed : ∀ t k, s.loc t = .destroyLoad k → s.shared.barrier.waiters = 0 →
    ∀ u j, (s.loc u).wait = some j → j < k → (s.loc u).Waking

omit [DecidableEq Tid] in
/-- A destroy looked in a round that has been reached. -/
private theorem BarrierInv.looked_le (hi : BarrierInv s) {k : Nat} (h : (s.loc t).looked = some k) :
    k ≤ s.shared.rounds.round := by
  have hok := hi.loc t
  cases hloc : s.loc t <;> rw [hloc] at h hok <;> cases h
  all_goals exact hok

omit [DecidableEq Tid] in
private theorem BarrierInv.wait_le (hi : BarrierInv s) {k : Nat} (h : (s.loc t).wait = some k) :
    k ≤ s.shared.rounds.round := by
  by_contra hlt
  have hmem := (hi.waits t k h).1
  rw [hi.rounds.later k (by omega)] at hmem
  cases hmem

/-- A thread whose round has opened, not 2^32 rounds ago, takes one access after another until it returns. -/
private theorem BarrierInv.escapes (hi : BarrierInv s) {k : Nat} (hwait : (s.loc t).wait = some k)
    (hk : k < s.shared.rounds.round) (hk' : s.shared.rounds.round < k + 2 ^ 32) :
    ∃ h' l', barrierAct t .run s.shared (s.loc t) = some (h', l') ∧ l'.togo < (s.loc t).togo := by
  have hok := hi.loc t
  have hgen := hi.generation
  cases hloc : s.loc t <;> rw [hloc] at hwait hok <;> cases hwait
  case refill | openRound | enter | enterRelease =>
    obtain ⟨rfl, -⟩ := hok
    exact absurd hk (Nat.lt_irrefl _)
  case load g | compare g =>
    have hne : s.shared.barrier.generation ≠ g := by
      rw [hgen, hok.2.1]
      omega
    exact ⟨_, _, by simp only [barrierAct, if_neg hne]; rfl, by simp [BarrierLoc.togo]⟩
  case leave =>
    by_cases hzero : s.shared.barrier.waiters - 1 = 0
    · exact ⟨_, _, by simp only [barrierAct, if_pos hzero]; rfl, by simp [BarrierLoc.togo]⟩
    · exact ⟨_, _, by simp only [barrierAct, if_neg hzero]; rfl, by simp [BarrierLoc.togo]⟩
  all_goals exact ⟨_, _, rfl, by simp [BarrierLoc.togo]⟩

private theorem BarrierInv.barrierOk (hi : BarrierInv s) : BarrierOk s.shared.barrier.count s where
  rounds := hi.rounds
  waits := fun t k h => ⟨hi.wait_le h, (hi.waits t k h).1⟩
  escapes := by
    intro t k hwait hk hk'
    refine ⟨fun hmem => ?_, hi.escapes hwait hk hk'⟩
    obtain ⟨g, j, hloc, hwake⟩ := hi.asleep t hmem
    rw [hloc] at hwait
    cases hwait
    exact hwake hk hk'
  returns := by
    intro t i h' r hnot hact
    cases hloc : s.loc t <;> rw [hloc] at hnot hact
    case openWake k =>
      cases hact
      exact ⟨k, true, Rounds.leave_left, by simp⟩
    case leave k =>
      simp only [barrierAct] at hact
      split at hact <;> cases hact
      exact ⟨k, false, Rounds.leave_left, by simp⟩
    case leaveWake k =>
      cases hact
      exact ⟨k, false, Rounds.leave_left, by simp⟩
    case destroyAcquire | destroyLook | destroyRelease | destroyLoad | destroyCompare | destroyAsleep =>
      exact absurd trivial hnot
    case out => cases i <;> cases hact
    case acquire | decrement | load | compare =>
      simp only [barrierAct] at hact
      split at hact <;> cases hact
    all_goals cases hact
  looks := by
    intro t hloc hcount
    obtain ⟨-, hsum⟩ := hi.remaining_of_locks (by rw [hloc]; rfl) (by rw [hloc]; rfl)
    exact List.eq_nil_of_length_eq_zero (by omega)
  destroyed := by
    intro t k hloc hzero u j hwait hlt
    have hlooked : (s.loc t).looked = some k := by rw [hloc]; rfl
    have hle := hi.looked_le hlooked
    have hnone : (s.loc u).counted ≠ true := by
      intro hcounted
      have := hi.waiters_pos hcounted
      omega
    have hok := hi.loc u
    cases hu : s.loc u <;> rw [hu] at hwait hok hnone <;> cases hwait
    case refill | openRound | enter =>
      obtain ⟨rfl, -⟩ := hok
      omega
    case openRelease =>
      have := hi.looked t u k j hlooked hu
      omega
    case openWake | leaveWake => trivial
    all_goals exact absurd rfl hnone

theorem barrier_run {count : Nat} {s₀ : BarrierSystem Tid} (h₀ : BarrierSystem.init count = some s₀)
    (h : Transition.Reach barrierStep s₀ s) : BarrierOk count s := by
  have hrun : BarrierInv s ∧ s.shared.barrier.count = count :=
    h.invariant (P := fun s => BarrierInv s ∧ s.shared.barrier.count = count)
      (fun _ _ _ hi hstep => ⟨hi.1.step hstep, (barrierStep_count hstep).trans hi.2⟩) (BarrierInv.init h₀)
  rw [← hrun.2]
  exact hrun.1.barrierOk

end Sppc.Windows
