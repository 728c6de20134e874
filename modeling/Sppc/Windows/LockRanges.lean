import Sppc.Windows.RecordLocks

/-!
# The ranges of record locks (`platform/windows.h`)

The range that `sppc_fcntl_lock` computes in signed and unsigned 64-bit arithmetic, and the one that POSIX gives.
-/

namespace Sppc.Windows

open SignedWords RangeLock

/-- The checks of the descriptor that come before the range is computed. -/
def lockAccess (ofd : LockOfd) (lock : Flock) : Option LockErr :=
  if ¬ofd.disk then some .EINVAL
  else if (lock.type = SPPC_F_RDLCK ∧ ¬ofd.read) ∨ (lock.type = SPPC_F_WRLCK ∧ ¬ofd.write) then some .EBADF
  else none

/-- Where a start is counted from (`at`). -/
def rangeBase (ofd : LockOfd) (lock : Flock) : Int :=
  if lock.whence = SPPC_SEEK_SET then 0 else if lock.whence = SPPC_SEEK_CUR then ofd.pos else ofd.size

/-- `start` once it is counted from there, which it is not where the descriptor was refused: none
where it overflows. -/
def checkedStart (ofd : LockOfd) (lock : Flock) : Option Int :=
  if lockAccess ofd lock ≠ none ∨ lock.whence = SPPC_SEEK_SET then some lock.start
  else checked (lock.start + rangeBase ofd lock)

/-- `length` as it is first set. -/
def checkedLength (lock : Flock) : Option Nat :=
  if lock.len = 0 then some (2 ^ 64 - 1)
  else if lock.len < 0 then (checked (-lock.len)).map u64
  else some (u64 lock.len)

/-- `start` and `length` at the end: none where a signed operation overflows on the way. -/
def lockChecked (ofd : LockOfd) (lock : Flock) : Option (Int × Nat) :=
  (checkedStart ofd lock).bind fun start =>
    (checkedLength lock).bind fun length =>
      (if lock.len < 0 then checked (start + lock.len) else some start).map fun start =>
        (start, if lock.len = 0 then length - start.toNat else length)

/-- What `sppc_fcntl_lock` does once it has the range. -/
def lockOver (w : LockWorld) (own : List RangeLock) (cmd : Int) (lock : Flock) (l : RangeLock) : Option LockReturn :=
  if cmd = SPPC_F_GETLK then
    if lock.type = SPPC_F_UNLCK then some ⟨none, lock, own⟩
    else
      (lockFileEx w own l true).map fun
        | .ok own => ⟨none, { lock with type := SPPC_F_UNLCK }, release own l.start l.length⟩
        | .error _ => ⟨none, { lock with pid := 0 }, own⟩
  else
    let left := release own l.start l.length
    if lock.type = SPPC_F_UNLCK then some ⟨none, lock, left⟩
    else
      (lockFileEx w left l (cmd = SPPC_F_SETLK)).map fun
        | .ok own => ⟨none, lock, own⟩
        | .error e => ⟨some (lockErr e), lock, left⟩

/-! ### The range that POSIX gives -/

/-- Its first byte. -/
def rangeFirst (ofd : LockOfd) (lock : Flock) : Int := rangeBase ofd lock + lock.start + min lock.len 0

/-- Its end, which is that of any file where the length is zero. -/
def rangeEnd (ofd : LockOfd) (lock : Flock) : Int :=
  if lock.len = 0 then 2 ^ 64 - 1 else rangeBase ofd lock + lock.start + max lock.len 0

/-- It starts at a position of a file, and ends by `limit`: 2^63 for ranges of an `off_t`, 2^64 for
those of Windows. -/
def Representable (limit : Int) (ofd : LockOfd) (lock : Flock) : Prop :=
  rangeFirst ofd lock < 2 ^ 63 ∧ (lock.len ≠ 0 → rangeEnd ofd lock ≤ limit)

/-- A record lock acts on the range that POSIX gives. -/
structure RangeLocked (limit : Int) (ofd : LockOfd) (cmd : Int) (lock : Flock) : Prop where
  overflow : (lockChecked ofd lock).isSome
  below : lockAccess ofd lock = none → rangeFirst ofd lock < 0 →
    ∀ w own, sppcFcntlLock (some ofd) w own cmd lock = some ⟨some .EINVAL, lock, own⟩
  beyond : lockAccess ofd lock = none → 0 ≤ rangeFirst ofd lock → ¬Representable limit ofd lock →
    ∀ w own, ∃ r, sppcFcntlLock (some ofd) w own cmd lock = some r ∧ r.err ≠ none
  exact : lockAccess ofd lock = none → 0 ≤ rangeFirst ofd lock → Representable limit ofd lock →
    ∃ l : RangeLock, (∀ b : Nat, l.Covers b ↔ rangeFirst ofd lock ≤ b ∧ b < rangeEnd ofd lock) ∧
      l.exclusive = decide (lock.type = SPPC_F_WRLCK) ∧
      ∀ w own, sppcFcntlLock (some ofd) w own cmd lock = lockOver w own cmd lock l

/-- The values are those of signed words, and a position or a size is not negative. -/
structure LockWords (ofd : LockOfd) (lock : Flock) : Prop where
  start : Fits lock.start
  len : Fits lock.len
  pos : 0 ≤ ofd.pos ∧ Fits ofd.pos
  size : 0 ≤ ofd.size ∧ Fits ofd.size

/-- What the start is counted from, as far as the call gets. -/
def countedFrom (ofd : LockOfd) (lock : Flock) : Int := if lockAccess ofd lock = none then rangeBase ofd lock else 0

/-- No signed operation overflows. -/
def NoOverflow (ofd : LockOfd) (lock : Flock) : Prop :=
  Fits (countedFrom ofd lock + lock.start) ∧
    (lock.len < 0 → Fits (-lock.len) ∧ Fits (countedFrom ofd lock + lock.start + lock.len))

instance (ofd : LockOfd) (lock : Flock) : Decidable (NoOverflow ofd lock) := inferInstanceAs (Decidable (_ ∧ _))

variable {ofd : LockOfd} {lock : Flock} {cmd limit : Int} {w : LockWorld} {own : List RangeLock}

private theorem LockWords.base (hin : LockWords ofd lock) : 0 ≤ rangeBase ofd lock ∧ rangeBase ofd lock < 2 ^ 63 := by
  unfold rangeBase
  split
  · omega
  split
  · exact ⟨hin.pos.1, hin.pos.2.2⟩
  · exact ⟨hin.size.1, hin.size.2.2⟩

private theorem checkedStart_eq (hin : LockWords ofd lock) :
    checkedStart ofd lock = checked (countedFrom ofd lock + lock.start) := by
  unfold checkedStart countedFrom
  by_cases hacc : lockAccess ofd lock = none
  · rw [if_pos hacc]
    by_cases hset : lock.whence = SPPC_SEEK_SET
    · rw [if_pos (Or.inr hset), rangeBase, if_pos hset, Int.zero_add, checked_of_fits hin.start]
    · rw [if_neg (by tauto), Int.add_comm]
  · rw [if_pos (Or.inl hacc), if_neg hacc, Int.zero_add, checked_of_fits hin.start]

private theorem checkedLength_isSome : (checkedLength lock).isSome ↔ (lock.len < 0 → Fits (-lock.len)) := by
  unfold checkedLength
  split
  · simp only [Option.isSome_some, true_iff]
    omega
  split
  · rename_i hneg
    rw [Option.isSome_map, isSome_checked]
    exact ⟨fun h _ => h, fun h => h hneg⟩
  · rename_i hneg
    simp only [Option.isSome_some, true_iff]
    exact fun h => absurd h hneg

/-- Where nothing overflows, the values are the exact ones. -/
private theorem lockChecked_of_noOverflow (hin : LockWords ofd lock) (h : NoOverflow ofd lock) :
    ∃ n, lockChecked ofd lock = some (countedFrom ofd lock + lock.start + min lock.len 0, n) := by
  obtain ⟨n, hn⟩ := Option.isSome_iff_exists.1 (checkedLength_isSome.2 fun hneg => (h.2 hneg).1)
  rw [lockChecked, checkedStart_eq hin, checked_of_fits h.1, hn, Option.bind_some, Option.bind_some]
  by_cases hneg : lock.len < 0
  · rw [if_pos hneg, checked_of_fits (h.2 hneg).2, Option.map_some, Int.min_eq_left (by omega)]
    exact ⟨_, rfl⟩
  · rw [if_neg hneg, Option.map_some, Int.min_eq_right (by omega), Int.add_zero]
    exact ⟨_, rfl⟩

private theorem lockChecked_isSome (hin : LockWords ofd lock) :
    (lockChecked ofd lock).isSome ↔ NoOverflow ofd lock := by
  constructor
  · intro h
    obtain ⟨⟨s, n⟩, hsome⟩ := Option.isSome_iff_exists.1 h
    rw [lockChecked, checkedStart_eq hin, Option.bind_eq_some_iff] at hsome
    obtain ⟨start, hstart, hsome⟩ := hsome
    obtain ⟨hfits, rfl⟩ := checked_eq_some.1 hstart
    rw [Option.bind_eq_some_iff] at hsome
    obtain ⟨length, hlength, hsome⟩ := hsome
    refine ⟨hfits, fun hneg => ⟨checkedLength_isSome.1 (Option.isSome_of_mem hlength) hneg, ?_⟩⟩
    rw [if_pos hneg, Option.map_eq_some_iff] at hsome
    obtain ⟨s', hs', -⟩ := hsome
    exact (checked_eq_some.1 hs').1
  · intro h
    obtain ⟨n, hn⟩ := lockChecked_of_noOverflow hin h
    rw [hn, Option.isSome_some]

private theorem lockRefused_eq : lockRefused ofd lock =
    (lockAccess ofd lock).or (if lockStart ofd lock < 0 then some .EINVAL else none) := by
  unfold lockRefused lockAccess
  split
  · rfl
  split
  · rfl
  · rfl

/-- The words of the call are then those of the range. -/
private theorem lockStart_eq (hacc : lockAccess ofd lock = none) (h : NoOverflow ofd lock) :
    lockStart ofd lock = rangeFirst ofd lock := by
  obtain ⟨hstart, hlen⟩ := h
  rw [countedFrom, if_pos hacc] at hstart hlen
  have hcounted : (if lock.whence = SPPC_SEEK_SET then lock.start
      else if lock.whence = SPPC_SEEK_CUR then wrap64 (lock.start + ofd.pos)
      else wrap64 (lock.start + ofd.size)) = rangeBase ofd lock + lock.start := by
    rw [rangeBase] at hstart ⊢
    split
    · rw [Int.zero_add]
    · rename_i hset
      rw [if_neg hset] at hstart
      split
      · rename_i hcur
        rw [if_pos hcur, Int.add_comm] at hstart
        rw [wrap64_of_fits hstart, Int.add_comm]
      · rename_i hcur
        rw [if_neg hcur, Int.add_comm] at hstart
        rw [wrap64_of_fits hstart, Int.add_comm]
  rw [lockStart, hcounted, rangeFirst]
  by_cases hneg : lock.len < 0
  · rw [if_pos hneg, wrap64_of_fits (hlen hneg).2, Int.min_eq_left (by omega)]
  · rw [if_neg hneg, Int.min_eq_right (by omega), Int.add_zero]

private theorem u64_of_nonneg {x : Int} (hpos : 0 ≤ x) (h : Fits x) : (u64 x : Int) = x := by
  rw [u64, Int.toNat_of_nonneg (by omega)]
  unfold Fits at h
  omega

private theorem lockAsked_covers (hin : LockWords ofd lock) (hacc : lockAccess ofd lock = none)
    (h : NoOverflow ofd lock) (hpos : 0 ≤ rangeFirst ofd lock) (b : Nat) :
    (lockAsked ofd lock).Covers b ↔ rangeFirst ofd lock ≤ b ∧ b < rangeEnd ofd lock := by
  have hstart := lockStart_eq hacc h
  have hlen : (rangeFirst ofd lock : Int) + (lockLength ofd lock : Int) = rangeEnd ofd lock := by
    have hfits := h.1
    rw [countedFrom, if_pos hacc] at hfits
    unfold Fits at hfits
    rw [lockLength, hstart, rangeEnd]
    unfold rangeFirst at hpos ⊢
    split
    · omega
    split
    · rename_i hzero hneg
      rw [wrap64_of_fits (h.2 hneg).1, u64_of_nonneg (by omega) (h.2 hneg).1]
      omega
    · rw [u64_of_nonneg (by omega) hin.len]
      omega
  unfold Covers lockAsked
  rw [hstart]
  dsimp only
  omega

private theorem sppcFcntlLock_over (hargs : LockArgs cmd lock) (hrefused : lockRefused ofd lock = none)
    (w : LockWorld) (own : List RangeLock) :
    sppcFcntlLock (some ofd) w own cmd lock = lockOver w own cmd lock (lockAsked ofd lock) := by
  rw [sppcFcntlLock, if_neg (not_not.2 hargs)]
  simp only [hrefused]
  rfl

/-- A call that no other lock and no failure is in the way of does not fail. -/
private theorem lockOver_free (cmd : Int) (lock : Flock) (l : RangeLock) :
    ∀ r, lockOver ⟨none, [], []⟩ [] cmd lock l = some r → r.err = none := by
  have hfree : ∀ immediately, lockFileEx ⟨none, [], []⟩ [] l immediately = some (.ok [l]) := by
    intro immediately
    have hgrant : Grantable [] [] l := by
      unfold Grantable
      split <;> simp
    simp only [lockFileEx, if_pos hgrant]
  have hnone : release [] l.start l.length = [] := by
    unfold release
    rw [if_neg List.not_mem_nil]
    rfl
  intro r h
  unfold lockOver at h
  simp only [hnone, hfree, Option.map_some] at h
  split at h <;> split at h <;> cases h <;> rfl

/-- A record lock acts on the range that POSIX gives exactly if no operation overflows, and the end of the range is
representable. -/
theorem rangeLocked_iff (hlow : 2 ^ 63 ≤ limit) (hin : LockWords ofd lock) (hargs : LockArgs cmd lock) :
    RangeLocked limit ofd cmd lock ↔
      NoOverflow ofd lock ∧ (lockAccess ofd lock = none → 0 < lock.len → rangeEnd ofd lock ≤ limit) := by
  have hbase := hin.base
  have hlenFits := hin.len
  constructor
  · intro h
    have hno := (lockChecked_isSome hin).1 h.overflow
    refine ⟨hno, fun hacc hlen => ?_⟩
    by_contra hend
    have hpos : 0 ≤ rangeFirst ofd lock := by
      unfold rangeEnd at hend
      unfold Fits at hlenFits
      rw [if_neg hlen.ne'] at hend
      unfold rangeFirst
      omega
    have hrefused : lockRefused ofd lock = none := by
      rw [lockRefused_eq, hacc, lockStart_eq hacc hno, if_neg (by omega)]
      rfl
    obtain ⟨r, hr, herr⟩ := h.beyond hacc hpos (fun hrep => hend (hrep.2 hlen.ne')) ⟨none, [], []⟩ []
    rw [sppcFcntlLock_over hargs hrefused] at hr
    exact herr (lockOver_free _ _ _ r hr)
  · rintro ⟨hno, hend⟩
    refine ⟨(lockChecked_isSome hin).2 hno, fun hacc hneg w own => ?_, fun hacc hpos hrep => ?_, fun hacc hpos _ =>
      ?_⟩
    · have hrefused : lockRefused ofd lock = some .EINVAL := by
        rw [lockRefused_eq, hacc, lockStart_eq hacc hno, if_pos hneg]
        rfl
      rw [sppcFcntlLock, if_neg (not_not.2 hargs)]
      simp only [hrefused]
    · -- such a range has overflowed, or its end was ruled out
      refine absurd ⟨?_, fun hlen => ?_⟩ hrep
      · have hfits := hno.1
        rw [countedFrom, if_pos hacc] at hfits
        unfold Fits at hfits
        unfold rangeFirst
        omega
      · rcases Int.lt_or_gt_of_ne hlen with hneg | hposlen
        · have hfits := hno.1
          rw [countedFrom, if_pos hacc] at hfits
          unfold Fits at hfits
          rw [rangeEnd, if_neg hlen]
          omega
        · exact hend hacc hposlen
    · have hrefused : lockRefused ofd lock = none := by
        rw [lockRefused_eq, hacc, lockStart_eq hacc hno, if_neg (by omega)]
        rfl
      exact ⟨lockAsked ofd lock, lockAsked_covers hin hacc hno hpos, rfl, sppcFcntlLock_over hargs hrefused⟩

/-- The last position of a file, counted from a position that is not the first. -/
def overEnd : Flock := ⟨2 ^ 63 - 1, 1, 0, SPPC_F_RDLCK, SPPC_SEEK_CUR⟩

/-- A start at the end of all positions, counted from position 1, overflows, and so does the least length there is. -/
theorem lockChecked_overflow :
    ¬RangeLocked (2 ^ 63) ⟨true, true, true, 1, 100⟩ SPPC_F_SETLK overEnd ∧
    ¬RangeLocked (2 ^ 63) ⟨true, true, true, 0, 100⟩ SPPC_F_SETLK ⟨2 ^ 63 - 1, -2 ^ 63, 0, SPPC_F_RDLCK,
      SPPC_SEEK_SET⟩ := by
  constructor
  · intro h
    exact absurd h.overflow (by decide +kernel)
  · intro h
    exact absurd h.overflow (by decide +kernel)

/-- Ten bytes before the position. -/
theorem rangeLocked_iff_back :
    RangeLocked (2 ^ 63) ⟨true, true, true, 50, 100⟩ SPPC_F_SETLK ⟨0, -10, 0, SPPC_F_RDLCK, SPPC_SEEK_CUR⟩ :=
  (rangeLocked_iff (by decide) ⟨by decide, by decide, by decide, by decide⟩ (by decide)).2
    ⟨by decide +kernel, fun _ h => absurd h (by decide)⟩

end Sppc.Windows
