import Sppc.ExactDeadlines

/-!
# Timed locks on Darwin (`platform/darwin.h`)

Darwin has no timed lock, so `_SPPC_TIMED_LOCK` tries, and naps between two tries.  A round is one try and what the
clock reads after it, where the try finds the lock taken.
-/

namespace Sppc.Darwin

open SignedWords

def SPPC_BACKOFF_MIN_NS : Int := 50000

/-- The error's number. -/
def timedErrno : TimedErr → Int
  | .EINVAL => einval
  | .ETIMEDOUT => etimedout

/-- What a try answers, and what the clock reads then, if it can be read. -/
structure TimedRound where
  tried : Int
  reading : Option Timespec
  deriving DecidableEq, Repr

/-- The naps of a timed lock so far, and what it has returned, if it has. -/
structure TimedRun where
  naps : List Timespec
  ret : Option Int
  deriving DecidableEq, Repr

/-- The loop of `_SPPC_TIMED_LOCK`, over its rounds: none where a signed operation overflows. -/
def sppcTimedLockFrom (deadline : Timespec) : Int → List TimedRound → Option TimedRun
  | _, [] => some ⟨[], none⟩
  | pause, round :: rounds =>
    if round.tried ≠ ebusy then some ⟨[], some round.tried⟩
    else
      (sppcBackoff round.reading deadline pause).bind fun
        | .error wait => some ⟨[], some (timedErrno wait)⟩
        | .ok (nap, pause) => (sppcTimedLockFrom deadline pause rounds).map fun run =>
          { run with naps := nap :: run.naps }

/-- `_SPPC_TIMED_LOCK`. -/
def sppcTimedLock (deadline : Timespec) (rounds : List TimedRound) : Option TimedRun :=
  sppcTimedLockFrom deadline SPPC_BACKOFF_MIN_NS rounds

/-- `_sppc_pthread_mutex_clocklock`, by what `pthread_mutex_trylock` answers. -/
def sppcPthreadMutexClocklock (deadline : Timespec) (rounds : List TimedRound) : Option TimedRun :=
  sppcTimedLock deadline rounds

/-- `_sppc_pthread_rwlock_tryrdlock` and `_sppc_pthread_rwlock_trywrlock`, by what the platform's try answers. -/
def sppcPthreadRwlockTry (err : Int) : Int := if err = edeadlk then ebusy else err

/-- `_sppc_pthread_rwlock_clockrdlock` and `_sppc_pthread_rwlock_clockwrlock`, by what the platform's try answers. -/
def sppcPthreadRwlockClocklock (deadline : Timespec) (rounds : List TimedRound) : Option TimedRun :=
  sppcTimedLock deadline (rounds.map fun round => { round with tried := sppcPthreadRwlockTry round.tried })

/-! ### What a timed lock is to do -/

/-- The pause after the try `k`: it doubles five times, the last time past `_SPPC_BACKOFF_MAX_NS`. -/
def pauseNs (k : Nat) : Int := SPPC_BACKOFF_MIN_NS * 2 ^ min k 5

/-- The clock does not read less than when the last nap was over. -/
def Steady (rounds : List TimedRound) (naps : List Timespec) : Prop :=
  ∀ (k : Nat) (nap now later : Timespec) (round round' : TimedRound), naps[k]? = some nap → rounds[k]? = some round →
    rounds[k + 1]? = some round' → round.reading = some now → round'.reading = some later → now.ns + nap.ns ≤ later.ns

/-- What a timed lock has done in its rounds. -/
structure TimedLockOk (deadline : Timespec) (rounds : List TimedRound) (run : TimedRun) : Prop where
  /-- A nap follows a try that found the lock taken before the deadline, and is not past it. -/
  napped : ∀ k nap, run.naps[k]? = some nap → ∃ now, rounds[k]? = some ⟨ebusy, some now⟩ ∧ now.ns < deadline.ns ∧
    nap.ns = min (pauseNs k) (deadline.ns - now.ns)
  going : run.ret = none → run.naps.length = rounds.length
  /-- It ends with a try that does not find the lock taken, or with a clock that cannot be read or is
  at the deadline. -/
  ended : ∀ err, run.ret = some err → ∃ round, rounds[run.naps.length]? = some round ∧
    ((round.tried ≠ ebusy ∧ err = round.tried) ∨ (round.tried = ebusy ∧ ((round.reading = none ∧ err = einval) ∨
      ∃ now, round.reading = some now ∧ deadline.ns ≤ now.ns ∧ err = etimedout)))
  /-- There are few naps, and so a timed lock ends. -/
  few : Steady rounds run.naps → ∀ first round, rounds[0]? = some round → round.reading = some first →
    (run.naps.length : Int) ≤ 6 + max (deadline.ns - first.ns) 0 / 1600000

/-! ### One round -/

variable {now deadline : Timespec} {pause : Int} {rounds : List TimedRound}

/-- A pause, or what is left. -/
private theorem sppcBackoff_exact (hn : now.Moderate) (hd : deadline.Moderate) (hpos : 0 < pause)
    (hpause : pause < 1000000000) : ∃ r, sppcBackoff (some now) deadline pause = some r ∧
      ((deadline.ns ≤ now.ns ∧ r = .error .ETIMEDOUT) ∨
        (now.ns < deadline.ns ∧ ∃ nap : Timespec, nap.ns = min pause (deadline.ns - now.ns) ∧
          r = .ok (nap, if pause < SPPC_BACKOFF_MAX_NS then pause * 2 else pause))) := by
  obtain ⟨left, out, hleft, hout, herr, hns, hlo, hhi⟩ := sppcTimeLeft_exact hn hd
  rw [sppcBackoff, hleft, Option.map_some]
  refine ⟨_, rfl, ?_⟩
  by_cases hpast : deadline.ns ≤ now.ns
  · rw [if_pos hpast] at herr
    rw [herr]
    exact Or.inl ⟨hpast, rfl⟩
  · rw [if_neg hpast] at herr
    rw [herr, hout]
    refine Or.inr ⟨lt_of_not_ge hpast, _, ?_, rfl⟩
    show (if out.sec = 0 ∧ out.nsec < pause then out else (⟨0, pause⟩ : Timespec)).ns = _
    rw [← hns]
    unfold Timespec.ns at hns hpast ⊢
    by_cases hshort : out.sec = 0 ∧ out.nsec < pause
    · rw [if_pos hshort, min_eq_right (by omega)]
    · rw [if_neg hshort, min_eq_left (by omega)]
      dsimp only
      omega

/-- The pauses there are. -/
private theorem pauseNs_cases (k : Nat) :
    (k < 5 ∧ pauseNs k < SPPC_BACKOFF_MAX_NS ∧ pauseNs (k + 1) = pauseNs k * 2) ∨
      (5 ≤ k ∧ pauseNs k = 1600000 ∧ pauseNs (k + 1) = 1600000) := by
  rcases Nat.lt_or_ge k 5 with hk | hk
  · left
    have hcases : k = 0 ∨ k = 1 ∨ k = 2 ∨ k = 3 ∨ k = 4 := by omega
    rcases hcases with rfl | rfl | rfl | rfl | rfl <;> decide
  · right
    have hmin : min k 5 = 5 := min_eq_right hk
    have hmin' : min (k + 1) 5 = 5 := min_eq_right (by omega)
    unfold pauseNs
    rw [hmin, hmin']
    exact ⟨hk, by decide, by decide⟩

private theorem pauseNs_pos (k : Nat) : 0 < pauseNs k := Int.mul_pos (by decide) (Int.pow_pos (by decide))

private theorem pauseNs_le (k : Nat) : pauseNs k ≤ 1600000 := by
  rcases pauseNs_cases k with ⟨-, hlt, -⟩ | ⟨-, heq, -⟩
  · exact le_of_lt (lt_trans hlt (by decide))
  · exact le_of_eq heq

/-- The next pause. -/
private theorem pauseNs_succ (k : Nat) :
    pauseNs (k + 1) = if pauseNs k < SPPC_BACKOFF_MAX_NS then pauseNs k * 2 else pauseNs k := by
  rcases pauseNs_cases k with ⟨-, hlt, hnext⟩ | ⟨-, heq, hnext⟩
  · rw [if_pos hlt, hnext]
  · rw [heq, if_neg (by decide), hnext]

/-! ### The rounds -/

/-- The rounds from the try `k` on, whatever the naps have been before it. -/
private theorem sppcTimedLockFrom_spec (hd : deadline.Moderate)
    (hr : ∀ round ∈ rounds, ∀ now, round.reading = some now → now.Moderate) (k : Nat) :
    ∃ run, sppcTimedLockFrom deadline (pauseNs k) rounds = some run ∧
      (∀ j nap, run.naps[j]? = some nap → ∃ now, rounds[j]? = some ⟨ebusy, some now⟩ ∧ now.ns < deadline.ns ∧
        nap.ns = min (pauseNs (k + j)) (deadline.ns - now.ns)) ∧
      (run.ret = none → run.naps.length = rounds.length) ∧
      ∀ err, run.ret = some err → ∃ round, rounds[run.naps.length]? = some round ∧
        ((round.tried ≠ ebusy ∧ err = round.tried) ∨ (round.tried = ebusy ∧ ((round.reading = none ∧ err = einval) ∨
          ∃ now, round.reading = some now ∧ deadline.ns ≤ now.ns ∧ err = etimedout))) := by
  induction rounds generalizing k with
  | nil => exact ⟨⟨[], none⟩, rfl, fun j nap h => by simp at h, fun _ => rfl, fun err h => by cases h⟩
  | cons round rounds ih =>
    rw [sppcTimedLockFrom]
    by_cases htried : round.tried = ebusy
    case neg =>
      rw [if_pos htried]
      refine ⟨_, rfl, fun j nap h => by simp at h, (fun h => by cases h), ?_⟩
      rintro _ ⟨⟩
      exact ⟨round, rfl, Or.inl ⟨htried, rfl⟩⟩
    rw [if_neg (not_not.2 htried)]
    cases hreading : round.reading with
    | none =>
      refine ⟨⟨[], some einval⟩, rfl, fun j nap h => by simp at h, (fun h => by cases h), ?_⟩
      rintro _ ⟨⟩
      exact ⟨round, rfl, Or.inr ⟨htried, Or.inl ⟨hreading, rfl⟩⟩⟩
    | some now =>
      have hn := hr round List.mem_cons_self now hreading
      have hpause : pauseNs k < 1000000000 := lt_of_le_of_lt (pauseNs_le k) (by decide)
      obtain ⟨r, hback, ⟨hpast, rfl⟩ | ⟨hahead, nap, hnap, rfl⟩⟩ := sppcBackoff_exact hn hd (pauseNs_pos k) hpause
      · rw [hback]
        refine ⟨⟨[], some etimedout⟩, rfl, fun j nap h => by simp at h, (fun h => by cases h), ?_⟩
        rintro _ ⟨⟩
        exact ⟨round, rfl, Or.inr ⟨htried, Or.inr ⟨now, hreading, hpast, rfl⟩⟩⟩
      · rw [hback, ← pauseNs_succ]
        obtain ⟨run, hrun, hnapped, hgoing, hended⟩ := ih (fun round h => hr round (List.mem_cons_of_mem _ h)) (k + 1)
        refine ⟨{ run with naps := nap :: run.naps }, ?_, ?_, ?_, ?_⟩
        · rw [Option.bind_some]
          dsimp only
          rw [hrun, Option.map_some]
        · intro j nap' hj
          cases j with
          | zero =>
            cases hj
            refine ⟨now, ?_, hahead, hnap⟩
            rw [← htried, ← hreading]
            rfl
          | succ j =>
            obtain ⟨now', hround, hlt, heq⟩ := hnapped j nap' hj
            rw [Nat.add_assoc, Nat.add_comm 1] at heq
            exact ⟨now', hround, hlt, heq⟩
        · intro hret
          exact congrArg (· + 1) (hgoing hret)
        · exact hended

/-- As long as it naps again, a timed lock has napped whole pauses. -/
private theorem naps_whole {naps : List Timespec} (hsteady : Steady rounds naps)
    (hnapped : ∀ j nap, naps[j]? = some nap → ∃ now, rounds[j]? = some ⟨ebusy, some now⟩ ∧ now.ns < deadline.ns ∧
      nap.ns = min (pauseNs j) (deadline.ns - now.ns)) {first : Timespec} {round : TimedRound}
    (hround : rounds[0]? = some round) (hfirst : round.reading = some first) :
    ∀ k, k < naps.length → ∃ now, rounds[k]? = some ⟨ebusy, some now⟩ ∧ now.ns < deadline.ns ∧
      (k ≤ 5 → first.ns + 50000 * (2 ^ k - 1) ≤ now.ns) ∧
        (5 ≤ k → first.ns + 1550000 + 1600000 * (k - 5 : Int) ≤ now.ns) := by
  intro k
  induction k with
  | zero =>
    intro hk
    obtain ⟨now, hnow, hlt, -⟩ := hnapped 0 _ (List.getElem?_eq_getElem hk)
    refine ⟨now, hnow, hlt, fun _ => ?_, fun h => by omega⟩
    rw [hround] at hnow
    cases hnow
    cases hfirst
    simp
  | succ k ih =>
    intro hk
    obtain ⟨now, hnow, hlt, hsmall, hlarge⟩ := ih (by omega)
    obtain ⟨now', hnow', hlt', -⟩ := hnapped (k + 1) _ (List.getElem?_eq_getElem hk)
    obtain ⟨now₁, hnow₁, -, hnap⟩ := hnapped k _ (List.getElem?_eq_getElem (by omega))
    rw [hnow] at hnow₁
    cases hnow₁
    have hlater := hsteady k _ now now' _ _ (List.getElem?_eq_getElem (by omega)) hnow hnow' rfl rfl
    rw [hnap] at hlater
    -- the nap was not cut short, or the deadline would have come
    have hwhole : now.ns + pauseNs k ≤ now'.ns := by omega
    refine ⟨now', hnow', hlt', ?_, ?_⟩
    · intro hk5
      have hpause : pauseNs k = 50000 * 2 ^ k := by
        rw [pauseNs, min_eq_left (by omega)]
        rfl
      have hbefore := hsmall (by omega)
      rw [hpause] at hwhole
      rw [pow_succ]
      omega
    · intro hk5
      rcases Nat.lt_or_ge k 5 with hlt5 | hge5
      · obtain rfl : k = 4 := by omega
        have hbefore := hsmall (by omega)
        rw [show pauseNs 4 = 800000 by decide] at hwhole
        push_cast
        omega
      · have hbefore := hlarge hge5
        rcases pauseNs_cases k with ⟨hlt5, -⟩ | ⟨-, hpause, -⟩
        · omega
        · rw [hpause] at hwhole
          push_cast
          omega

private theorem sppcTimedLock_ok (hd : deadline.Moderate) (hr : ∀ round ∈ rounds, ∀ now, round.reading = some now →
    now.Moderate) : ∃ run, sppcTimedLock deadline rounds = some run ∧ TimedLockOk deadline rounds run := by
  obtain ⟨run, hrun, hnapped, hgoing, hended⟩ := sppcTimedLockFrom_spec hd hr 0
  have hnapped₀ : ∀ k nap, run.naps[k]? = some nap → ∃ now, rounds[k]? = some ⟨ebusy, some now⟩ ∧
    now.ns < deadline.ns ∧
      nap.ns = min (pauseNs k) (deadline.ns - now.ns) := by
    intro k nap hk
    obtain ⟨now, hnow, hlt, hnap⟩ := hnapped k nap hk
    rw [Nat.zero_add] at hnap
    exact ⟨now, hnow, hlt, hnap⟩
  refine ⟨run, hrun, hnapped₀, hgoing, hended, ?_⟩
  intro hsteady first round hround hfirst
  by_cases hone : run.naps.length = 0
  · rw [hone]
    omega
  · obtain ⟨now, -, hlt, -, hlarge⟩ := naps_whole hsteady hnapped₀ hround hfirst (run.naps.length - 1) (by omega)
    rcases Nat.lt_or_ge (run.naps.length - 1) 5 with hfew | hmany
    · omega
    · have hlast := hlarge hmany
      omega

/-- Every timed lock; no lock of this thread is refused for being its own. -/
theorem timedLocks_ok (hd : deadline.Moderate) (hr : ∀ round ∈ rounds, ∀ now, round.reading = some now →
    now.Moderate) :
    (∃ run, sppcPthreadMutexClocklock deadline rounds = some run ∧ TimedLockOk deadline rounds run) ∧
      ∃ run, sppcPthreadRwlockClocklock deadline rounds = some run ∧ run.ret ≠ some edeadlk ∧
        TimedLockOk deadline (rounds.map fun round => { round with tried := sppcPthreadRwlockTry round.tried })
          run := by
  refine ⟨sppcTimedLock_ok hd hr, ?_⟩
  have htry (err : Int) : sppcPthreadRwlockTry err ≠ edeadlk := by
    unfold sppcPthreadRwlockTry
    split
    · decide
    · assumption
  have hr' : ∀ round ∈ rounds.map fun round => { round with tried := sppcPthreadRwlockTry round.tried },
      ∀ now, round.reading = some now → now.Moderate := by
    intro round hround now hnow
    obtain ⟨round', hmem, rfl⟩ := List.mem_map.1 hround
    exact hr round' hmem now hnow
  obtain ⟨run, hrun, hok⟩ := sppcTimedLock_ok hd hr'
  refine ⟨run, hrun, fun hret => ?_, hok⟩
  obtain ⟨round, hround, ⟨-, htried⟩ | ⟨-, ⟨-, herr⟩ | ⟨now, -, -, herr⟩⟩⟩ := hok.ended _ hret
  · obtain ⟨round', -, rfl⟩ := List.mem_map.1 (List.mem_of_getElem? hround)
    exact htry _ htried.symm
  · revert herr
    decide
  · revert herr
    decide

/-- A lock that is taken, and then refused as the thread's own at the deadline. -/
def ownRounds : List TimedRound := [⟨ebusy, some ⟨9, 999900000⟩⟩, ⟨edeadlk, some ⟨10, 0⟩⟩]

theorem timedLocks_ok_own :
    (∃ run, sppcPthreadMutexClocklock ⟨10, 0⟩ ownRounds = some run ∧ TimedLockOk ⟨10, 0⟩ ownRounds run) ∧
      ∃ run, sppcPthreadRwlockClocklock ⟨10, 0⟩ ownRounds = some run ∧ run.ret ≠ some edeadlk ∧
        TimedLockOk ⟨10, 0⟩ (ownRounds.map fun round => { round with tried := sppcPthreadRwlockTry round.tried })
          run := by
  refine timedLocks_ok ⟨by decide, by decide, by decide, by decide⟩ ?_
  intro round hround now hnow
  unfold ownRounds at hround
  simp only [List.mem_cons, List.not_mem_nil, or_false] at hround
  rcases hround with rfl | rfl
  · cases hnow
    exact ⟨by decide, by decide, by decide, by decide⟩
  · cases hnow
    exact ⟨by decide, by decide, by decide, by decide⟩

end Sppc.Darwin
