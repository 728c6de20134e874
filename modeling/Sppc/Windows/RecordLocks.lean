import Sppc.RangeLocks
import Sppc.SignedWords
import Sppc.Windows.Errors

/-!
# Record locks (`platform/windows.h`)

`sppc_fcntl_lock` on the byte-range locks of Windows, which belong to the handle of a description.
-/

namespace Sppc.Windows

open SignedWords RangeLock

def SPPC_F_GETLK : Int := 5
def SPPC_F_SETLK : Int := 6
def SPPC_F_SETLKW : Int := 7
def SPPC_F_RDLCK : Int := 0
def SPPC_F_WRLCK : Int := 1
def SPPC_F_UNLCK : Int := 2
def SPPC_SEEK_SET : Int := 0
def SPPC_SEEK_CUR : Int := 1
def SPPC_SEEK_END : Int := 2

def ERROR_LOCK_VIOLATION : WinError := ⟨33, by decide⟩
def ERROR_IO_PENDING : WinError := ⟨997, WSA_IO_PENDING.failed⟩

/-- `sppc_flock`. -/
structure Flock where
  start : Int
  len : Int
  pid : Int
  type : Int
  whence : Int
  deriving DecidableEq, Repr

/-- The description of a descriptor, with what `SetFilePointerEx` and `GetFileSizeEx` give for it. -/
structure LockOfd where
  disk : Bool
  read : Bool
  write : Bool
  pos : Int
  size : Int
  deriving DecidableEq, Repr

/-- How a record lock fails: with Windows' error as `win`. -/
inductive LockErr
  | EINVAL | EBADF | EAGAIN
  | win (e : WinError)
  deriving DecidableEq, Repr

/-- What a `LockFileEx` meets: its failure for want of something, what the other handles hold, and, where it waits,
what they hold from then on. -/
structure LockWorld where
  failure : Option WinError
  others : List RangeLock
  later : List (List RangeLock)
  deriving DecidableEq, Repr

/-- `LockFileEx`: its error, or what the handle holds from then on.  `none` is a call that waits for ever. -/
def lockFileEx (w : LockWorld) (own : List RangeLock) (l : RangeLock) (immediately : Bool) :
    Option (Except WinError (List RangeLock)) :=
  match w.failure with
  | some e => some (.error e)
  | none =>
    if Grantable own w.others l then some (.ok (l :: own))
    else if immediately then some (.error ERROR_LOCK_VIOLATION)
    else if ∃ others ∈ w.later, Grantable own others l then some (.ok (l :: own))
    else none

/-- What `sppc_fcntl_lock` returns and leaves. -/
structure LockReturn where
  err : Option LockErr
  lock : Flock
  own : List RangeLock
  deriving DecidableEq, Repr

/-- The value of an `int64_t` as a `uint64_t`. -/
def u64 (x : Int) : Nat := (x % 2 ^ 64).toNat

/-- Where the range of a lock starts. -/
def lockStart (ofd : LockOfd) (lock : Flock) : Int :=
  let start := if lock.whence = SPPC_SEEK_SET then lock.start
    else if lock.whence = SPPC_SEEK_CUR then wrap64 (lock.start + ofd.pos)
    else wrap64 (lock.start + ofd.size)
  if lock.len < 0 then wrap64 (start + lock.len) else start

/-- How many bytes it has. -/
def lockLength (ofd : LockOfd) (lock : Flock) : Nat :=
  if lock.len = 0 then 2 ^ 64 - 1 - (lockStart ofd lock).toNat
  else if lock.len < 0 then u64 (wrap64 (-lock.len))
  else u64 lock.len

/-- The arguments that are accepted whatever the descriptor is. -/
def LockArgs (cmd : Int) (lock : Flock) : Prop :=
  (cmd = SPPC_F_GETLK ∨ cmd = SPPC_F_SETLK ∨ cmd = SPPC_F_SETLKW) ∧
  (lock.type = SPPC_F_RDLCK ∨ lock.type = SPPC_F_WRLCK ∨ lock.type = SPPC_F_UNLCK) ∧
  (lock.whence = SPPC_SEEK_SET ∨ lock.whence = SPPC_SEEK_CUR ∨ lock.whence = SPPC_SEEK_END)

instance (cmd : Int) (lock : Flock) : Decidable (LockArgs cmd lock) := inferInstanceAs (Decidable (_ ∧ _))

/-- The checks of the descriptor. -/
def lockRefused (ofd : LockOfd) (lock : Flock) : Option LockErr :=
  if ¬ofd.disk then some .EINVAL
  else if (lock.type = SPPC_F_RDLCK ∧ ¬ofd.read) ∨ (lock.type = SPPC_F_WRLCK ∧ ¬ofd.write) then some .EBADF
  else if lockStart ofd lock < 0 then some .EINVAL
  else none

/-- The lock that is asked for. -/
def lockAsked (ofd : LockOfd) (lock : Flock) : RangeLock :=
  ⟨(lockStart ofd lock).toNat, lockLength ofd lock, lock.type = SPPC_F_WRLCK⟩

/-- The `errno` for a `LockFileEx` that failed. -/
def lockErr (win : WinError) : LockErr :=
  if win = ERROR_LOCK_VIOLATION ∨ win = ERROR_IO_PENDING then .EAGAIN else .win win

/-- `sppc_fcntl_lock`, where `ofd` is what `_sppc_fd_get` gives and `own` what its handle holds.  `none` is a call
that waits for ever. -/
def sppcFcntlLock (ofd : Option LockOfd) (w : LockWorld) (own : List RangeLock) (cmd : Int) (lock : Flock) :
    Option LockReturn :=
  if ¬LockArgs cmd lock then some ⟨some .EINVAL, lock, own⟩
  else
    match ofd with
    | none => some ⟨some .EBADF, lock, own⟩
    | some ofd =>
      match lockRefused ofd lock with
      | some e => some ⟨some e, lock, own⟩
      | none =>
        let l := lockAsked ofd lock
        if cmd = SPPC_F_GETLK then
          if lock.type = SPPC_F_UNLCK then some ⟨none, lock, own⟩
          else
            (lockFileEx w own l true).map fun
              | .ok own => ⟨none, { lock with type := SPPC_F_UNLCK }, release own l.start l.length⟩
              | .error _ => ⟨none, { lock with pid := 0 }, own⟩
        else
          -- what was held over exactly this range goes first
          let left := release own l.start l.length
          if lock.type = SPPC_F_UNLCK then some ⟨none, lock, left⟩
          else
            (lockFileEx w left l (cmd = SPPC_F_SETLK)).map fun
              | .ok own => ⟨none, lock, own⟩
              | .error e => ⟨some (lockErr e), lock, left⟩

/-! ### What a lock is to do -/

/-- What the bytes of the range are to be held as. -/
def lockWanted (lock : Flock) : Option Bool :=
  if lock.type = SPPC_F_UNLCK then none else some (decide (lock.type = SPPC_F_WRLCK))

/-- A call that returned has kept the locks that it is to keep: all, where it failed, and those outside the range,
where it did not. -/
def KeepsLocks (ofd : Option LockOfd) (own : List RangeLock) (lock : Flock) (r : LockReturn) : Prop :=
  (r.err.isSome → r.own = own) ∧
  (r.err = none → ∃ d, ofd = some d ∧
    Replaced own r.own (lockAsked d lock).start (lockAsked d lock).length (lockWanted lock))

/-- The lock that is asked for will not be had, once what was held over exactly its range is gone. -/
def LockInTheWay (w : LockWorld) (own : List RangeLock) (cmd : Int) (l : RangeLock) : Prop :=
  w.failure.isSome ∨ (cmd = SPPC_F_SETLK ∧ ¬Grantable (release own l.start l.length) w.others l)

/-- Nothing is held over exactly the range of a lock that will not be had; and none of the locks that remain overlaps
the range of one that is released or had, but for shared ones under a shared one. -/
structure LockFits (w : LockWorld) (own : List RangeLock) (cmd : Int) (lock : Flock) (l : RangeLock) : Prop where
  released : lock.type = SPPC_F_UNLCK → ∀ m ∈ release own l.start l.length, ¬m.Overlaps l
  refused : lock.type ≠ SPPC_F_UNLCK → LockInTheWay w own cmd l → ∀ m ∈ own,
    ¬(m.start = l.start ∧ m.length = l.length)
  shared : lock.type = SPPC_F_RDLCK → ¬LockInTheWay w own cmd l →
    ∀ m ∈ release own l.start l.length, m.exclusive → ¬m.Overlaps l

/-- Where the arguments are accepted, the lock fits. -/
def LockMet (ofd : Option LockOfd) (w : LockWorld) (own : List RangeLock) (cmd : Int) (lock : Flock) : Prop :=
  ∀ d, ofd = some d → LockArgs cmd lock → lockRefused d lock = none → LockFits w own cmd lock (lockAsked d lock)

variable {ofd : Option LockOfd} {d : LockOfd} {w : LockWorld} {own own' : List RangeLock} {cmd : Int} {lock : Flock}
  {l : RangeLock} {r : LockReturn}

/-- A `LockFileEx` that failed had something in its way, and one that did not fail has added the lock. -/
private theorem lockFileEx_error {e : WinError}
    (h : lockFileEx w (release own l.start l.length) l (cmd = SPPC_F_SETLK) = some (.error e)) :
    LockInTheWay w own cmd l := by
  unfold lockFileEx at h
  split at h
  · rename_i hfailure
    exact Or.inl (by rw [hfailure]; rfl)
  · split at h
    · cases h
    · rename_i hgrant
      split at h
      · rename_i hcmd
        exact Or.inr ⟨of_decide_eq_true hcmd, hgrant⟩
      · split at h <;> cases h

private theorem lockFileEx_ok (h : lockFileEx w (release own l.start l.length) l (cmd = SPPC_F_SETLK) =
  some (.ok own')) :
    ¬LockInTheWay w own cmd l ∧ own' = l :: release own l.start l.length := by
  unfold lockFileEx at h
  split at h
  · cases h
  · rename_i hfailure
    have hway : LockInTheWay w own cmd l ↔ cmd = SPPC_F_SETLK ∧
        ¬Grantable (release own l.start l.length) w.others l := by
      rw [LockInTheWay, hfailure]
      exact or_iff_right Bool.false_ne_true
    rw [hway]
    split at h
    · rename_i hgrant
      cases h
      exact ⟨fun hnot => hnot.2 hgrant, rfl⟩
    · split at h
      · cases h
      · rename_i hcmd
        split at h
        · cases h
          exact ⟨fun hnot => hcmd (decide_eq_true hnot.1), rfl⟩
        · cases h

private theorem keepsLocks_ok (h : r.err = none) : KeepsLocks (some d) own lock r ↔
    Replaced own r.own (lockAsked d lock).start (lockAsked d lock).length (lockWanted lock) := by
  constructor
  · intro hkeeps
    obtain ⟨d', hd, hrep⟩ := hkeeps.2 h
    cases hd
    exact hrep
  · intro hrep
    refine ⟨?_, fun _ => ⟨d, rfl, hrep⟩⟩
    rw [h]
    intro hsome
    exact absurd hsome Bool.false_ne_true

private theorem keepsLocks_error {e : LockErr} (h : r.err = some e) : KeepsLocks ofd own lock r ↔ r.own = own := by
  constructor
  · intro hkeeps
    apply hkeeps.1
    rw [h]
    rfl
  · intro hown
    refine ⟨fun _ => hown, ?_⟩
    rw [h]
    intro hnone
    exact absurd hnone (Option.some_ne_none e)

/-- A release keeps the other locks exactly if the lock fits. -/
private theorem keeps_unlock (hunlck : lock.type = SPPC_F_UNLCK) :
    Replaced own (release own l.start l.length) l.start l.length (lockWanted lock) ↔ LockFits w own cmd lock l := by
  rw [lockWanted, if_pos hunlck, replaced_release]
  constructor
  · intro h
    refine ⟨fun _ => h, fun hne => absurd hunlck hne, ?_⟩
    rw [hunlck]
    intro htype
    exact absurd htype (by decide)
  · intro h
    exact h.released hunlck

/-- A lock that was had keeps the others exactly if it fits. -/
private theorem keeps_granted (hrange : l.exclusive = decide (lock.type = SPPC_F_WRLCK))
    (hunlck : lock.type ≠ SPPC_F_UNLCK) (hargs : LockArgs cmd lock) (hway : ¬LockInTheWay w own cmd l) :
    Replaced own (l :: release own l.start l.length) l.start l.length (lockWanted lock) ↔
    LockFits w own cmd lock l := by
  obtain ⟨start, length, exclusive⟩ := l
  dsimp only at hrange
  rw [lockWanted, if_neg hunlck, ← hrange]
  by_cases hwrlck : lock.type = SPPC_F_WRLCK
  · rw [decide_eq_true hwrlck] at hrange
    rw [hrange]
    have hfits : LockFits w own cmd lock ⟨start, length, true⟩ := by
      refine ⟨fun h => absurd h hunlck, fun _ h => ?_, fun h => ?_⟩
      · rw [hrange] at hway
        exact absurd h hway
      · rw [hwrlck] at h
        exact absurd h (by decide)
    exact ⟨fun _ => hfits, fun _ => replaced_exclusive start length⟩
  · have hrdlck : lock.type = SPPC_F_RDLCK := by
      rcases hargs.2.1 with h | h | h
      · exact h
      · exact absurd h hwrlck
      · exact absurd h hunlck
    rw [decide_eq_false hwrlck] at hrange
    rw [hrange] at hway ⊢
    rw [replaced_shared]
    constructor
    · intro h
      exact ⟨fun h => absurd h hunlck, fun _ h => absurd h hway, fun _ _ => h⟩
    · intro h
      exact h.shared hrdlck hway

/-- A lock that was not had keeps the others exactly if none was over exactly its range. -/
private theorem keeps_refused (hunlck : lock.type ≠ SPPC_F_UNLCK) (hway : LockInTheWay w own cmd l) :
    release own l.start l.length = own ↔ LockFits w own cmd lock l := by
  rw [release_eq_self]
  constructor
  · intro h
    exact ⟨fun h => absurd h hunlck, fun _ _ => h, fun _ h => absurd hway h⟩
  · intro h
    exact h.refused hunlck hway

/-- What is left of the locks where the arguments are accepted. -/
private theorem sppcFcntlLock_accepted (hargs : LockArgs cmd lock) (hrefused : lockRefused d lock = none)
    (hcmd : cmd = SPPC_F_SETLK ∨ cmd = SPPC_F_SETLKW) (h : sppcFcntlLock (some d) w own cmd lock = some r) :
    KeepsLocks (some d) own lock r ↔ LockFits w own cmd lock (lockAsked d lock) := by
  have hget : cmd ≠ SPPC_F_GETLK := by rcases hcmd with rfl | rfl <;> decide
  rw [sppcFcntlLock, if_neg (not_not.2 hargs)] at h
  simp only [hrefused, if_neg hget] at h
  by_cases hunlck : lock.type = SPPC_F_UNLCK
  · rw [if_pos hunlck, Option.some_inj] at h
    rw [← h, keepsLocks_ok rfl]
    exact keeps_unlock hunlck
  · rw [if_neg hunlck, Option.map_eq_some_iff] at h
    obtain ⟨res, hres, hr⟩ := h
    cases res with
    | ok own' =>
      obtain ⟨hway, rfl⟩ := lockFileEx_ok hres
      rw [← hr, keepsLocks_ok rfl]
      exact keeps_granted rfl hunlck hargs hway
    | error e =>
      rw [← hr, keepsLocks_error rfl]
      exact keeps_refused hunlck (lockFileEx_error hres)

/-- A lock that is refused for its arguments changes nothing. -/
private theorem sppcFcntlLock_refused (h : sppcFcntlLock ofd w own cmd lock = some r)
    (hbad : ∀ d, ofd = some d → LockArgs cmd lock → lockRefused d lock ≠ none) : KeepsLocks ofd own lock r := by
  unfold sppcFcntlLock at h
  by_cases hargs : LockArgs cmd lock
  · rw [if_neg (not_not.2 hargs)] at h
    cases ofd with
    | none =>
      rw [← Option.some_inj.1 h, keepsLocks_error rfl]
    | some d =>
      dsimp only at h
      cases hd : lockRefused d lock with
      | none => exact absurd hd (hbad d rfl hargs)
      | some e =>
        rw [hd] at h
        rw [← Option.some_inj.1 h, keepsLocks_error rfl]
  · rw [if_pos hargs] at h
    rw [← Option.some_inj.1 h, keepsLocks_error rfl]

/-- A lock that returns has kept the locks it is to keep exactly if it was refused for its arguments or fits. -/
theorem sppcFcntlLock_keeps (hcmd : cmd = SPPC_F_SETLK ∨ cmd = SPPC_F_SETLKW)
    (h : sppcFcntlLock ofd w own cmd lock = some r) : KeepsLocks ofd own lock r ↔ LockMet ofd w own cmd lock := by
  by_cases hacc : ∃ d, ofd = some d ∧ LockArgs cmd lock ∧ lockRefused d lock = none
  · obtain ⟨d, rfl, hargs, hrefused⟩ := hacc
    rw [sppcFcntlLock_accepted hargs hrefused hcmd h]
    constructor
    · intro hfits d' hd _ _
      cases hd
      exact hfits
    · intro hmet
      exact hmet d rfl hargs hrefused
  · have hkeeps : KeepsLocks ofd own lock r := by
      apply sppcFcntlLock_refused h
      intro d hd hargs hrefused
      exact hacc ⟨d, hd, hargs, hrefused⟩
    refine iff_of_true hkeeps ?_
    intro d hd hargs hrefused
    exact absurd ⟨d, hd, hargs, hrefused⟩ hacc

/-- A file open for reading and writing. -/
def plainFile : LockOfd := ⟨true, true, true, 0, 100⟩

/-- Another handle has a shared lock on the first ten bytes too. -/
def readers : LockWorld := ⟨none, [⟨0, 10, false⟩], []⟩

/-- An exclusive lock is refused where there is another reader, and the lock that this one had to read is gone. -/
theorem sppcFcntlLock_upgrade :
    sppcFcntlLock (some plainFile) readers [⟨0, 10, false⟩] SPPC_F_SETLK ⟨0, 10, 0, SPPC_F_WRLCK, SPPC_SEEK_SET⟩ =
      some ⟨some .EAGAIN, ⟨0, 10, 0, SPPC_F_WRLCK, SPPC_SEEK_SET⟩, []⟩ ∧
    ¬KeepsLocks (some plainFile) [⟨0, 10, false⟩] ⟨0, 10, 0, SPPC_F_WRLCK, SPPC_SEEK_SET⟩
      ⟨some .EAGAIN, ⟨0, 10, 0, SPPC_F_WRLCK, SPPC_SEEK_SET⟩, []⟩ := by
  refine ⟨by decide +kernel, ?_⟩
  rw [keepsLocks_error rfl]
  exact fun h => nomatch h

/-- A lock to write is exchanged for one to read. -/
theorem sppcFcntlLock_keeps_downgrade :
    sppcFcntlLock (some plainFile) ⟨none, [], []⟩ [⟨0, 10, true⟩] SPPC_F_SETLK ⟨0, 10, 0, SPPC_F_RDLCK,
      SPPC_SEEK_SET⟩ = some ⟨none, ⟨0, 10, 0, SPPC_F_RDLCK, SPPC_SEEK_SET⟩, [⟨0, 10, false⟩]⟩ ∧
    KeepsLocks (some plainFile) [⟨0, 10, true⟩] ⟨0, 10, 0, SPPC_F_RDLCK, SPPC_SEEK_SET⟩
      ⟨none, ⟨0, 10, 0, SPPC_F_RDLCK, SPPC_SEEK_SET⟩, [⟨0, 10, false⟩]⟩ := by
  have hrun : sppcFcntlLock (some plainFile) ⟨none, [], []⟩ [⟨0, 10, true⟩] SPPC_F_SETLK
      ⟨0, 10, 0, SPPC_F_RDLCK, SPPC_SEEK_SET⟩ =
      some ⟨none, ⟨0, 10, 0, SPPC_F_RDLCK, SPPC_SEEK_SET⟩, [⟨0, 10, false⟩]⟩ := by decide +kernel
  refine ⟨hrun, (sppcFcntlLock_keeps (Or.inl rfl) hrun).2 ?_⟩
  intro d hd _ _
  cases hd
  have hleft : release [⟨0, 10, true⟩] 0 10 = [] := by decide
  refine ⟨fun h => absurd h (by decide), fun _ hway => ?_, fun _ _ m hm => ?_⟩
  · rcases hway with hfailure | ⟨-, hgrant⟩
    · exact absurd hfailure (by decide)
    · exact absurd (by decide) hgrant
  · have hasked : lockAsked plainFile ⟨0, 10, 0, SPPC_F_RDLCK, SPPC_SEEK_SET⟩ = ⟨0, 10, false⟩ := by decide +kernel
    rw [hasked, hleft] at hm
    exact absurd hm List.not_mem_nil

end Sppc.Windows
