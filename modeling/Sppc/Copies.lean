import Mathlib.Data.List.Basic

/-!
# Copies (`platform/posix.h`)

`_sppc_copy_range`, which copies through a buffer: what has been read and was not written is put back, where the
source has a position to put back.
-/

namespace Sppc

/-- How a destination answers a write: it takes up to so many bytes, or fails.  A file open to append jumps further
than the bytes before it takes them. -/
inductive WriteAns
  | wrote (k jump : Nat)
  | failed (e : Nat)
  deriving DecidableEq, Repr

/-- How many bytes the answer takes of those that are left. -/
def WriteAns.taken (w : WriteAns) (left : Nat) : Nat :=
  match w with
  | .wrote k _ => min k left
  | .failed _ => 0

def WriteAns.jump (w : WriteAns) : Nat :=
  match w with
  | .wrote _ jump => jump
  | .failed _ => 0

def WriteAns.err (w : WriteAns) : Option Nat :=
  match w with
  | .wrote _ _ => none
  | .failed e => some e

/-- How a source answers a read. -/
inductive ReadAns
  | bytes (bs : List UInt8)
  | failed (e : Nat)
  deriving DecidableEq, Repr

/-- Where the bytes come from: a file, which has a position, and may be the very description that they go to; or a
pipe. -/
inductive CopySource
  | disk (shared : Bool)
  | pipe
  deriving DecidableEq, Repr

/-- What a loop of writes leaves: the bytes taken, how far they moved the destination, and the last error. -/
structure PutRun where
  done : Nat
  far : Nat
  err : Option Nat
  deriving DecidableEq, Repr

/-- The loop of writes, where `again` says which answers that took nothing are tried again.  `none` is a loop that the
answers do not end. -/
def putLoop (again : WriteAns → Bool) (got : Nat) : Nat → Nat → List WriteAns → Option PutRun
  | done, far, [] => if done < got then none else some ⟨done, far, none⟩
  | done, far, w :: ws =>
    if done < got then
      if w.taken (got - done) = 0 then
        if again w then putLoop again got done far ws else some ⟨done, far, w.err⟩
      else putLoop again got (done + w.taken (got - done)) (far + w.taken (got - done) + w.jump) ws
    else some ⟨done, far, none⟩

/-- How far a source has moved once what was not written has been put back. -/
def CopySource.moved (source : CopySource) (got : Nat) (put : PutRun) : Int :=
  match source with
  | .disk shared => got + (if shared then put.far else 0 : Nat) - (if put.done < got then got - put.done else 0 : Nat)
  | .pipe => got

/-- What a copy returns and leaves: how far the source has moved, where each read was and what it gave, and what was
written. -/
structure CopyRun where
  result : Except Nat Nat
  moved : Int
  reads : List (Int × List UInt8)
  written : List UInt8

/-! ### `_sppc_copy_range` -/

def EINTR : Nat := 4

/-- `_SPPC_COPY_CHUNK`. -/
def SPPC_COPY_CHUNK : Nat := 4096

/-- An interrupted write is tried again, and so is one that took nothing. -/
def posixAgain (w : WriteAns) : Bool :=
  match w with
  | .wrote _ _ => true
  | .failed e => e = EINTR

/-- `_sppc_copy_range`, with the source at `start`. -/
def sppcCopyRange (source : CopySource) (start : Int) (len : Nat) (read : ReadAns) (writes : List WriteAns) :
    Option CopyRun :=
  if len = 0 then some ⟨.ok 0, 0, [], []⟩
  else
    match read with
    | .failed e => some ⟨.error e, 0, [], []⟩
    | .bytes bs =>
      let bs := bs.take (min len SPPC_COPY_CHUNK)
      if bs = [] then some ⟨.ok 0, 0, [(start, [])], []⟩
      else
        (putLoop posixAgain bs.length 0 0 writes).map fun put =>
          ⟨if put.done < bs.length ∧ put.done = 0 then .error (put.err.getD 0) else .ok put.done,
            source.moved bs.length put, [(start, bs)], bs.take put.done⟩

/-! ### What a copy is to do -/

/-- Each read starts where the one before has ended. -/
def Consecutive : Int → List (Int × List UInt8) → Prop
  | _, [] => True
  | start, (pos, bs) :: reads => pos = start ∧ Consecutive (start + bs.length) reads

/-- The source has moved by what was written, which is the next bytes that it had; so many are returned, and an error
only where it has not moved. -/
structure LosesNothing (start : Int) (r : CopyRun) : Prop where
  moved : r.moved = r.written.length
  order : Consecutive start r.reads
  next : r.written <+: r.reads.flatMap Prod.snd
  count : ∀ n, r.result = .ok n → n = r.written.length
  unmoved : ∀ e, r.result = .error e → r.moved = 0

/-- The answers take all that is left. -/
def TakesAll (again : WriteAns → Bool) : Nat → List WriteAns → Prop
  | left, [] => left = 0
  | left, w :: ws =>
    left = 0 ∨ if w.taken left = 0 then again w ∧ TakesAll again left ws else TakesAll again (left - w.taken left) ws

/-- The answers take nothing. -/
def TakesNone (again : WriteAns → Bool) : List WriteAns → Prop
  | [] => True
  | w :: ws => w.taken 1 = 0 ∧ (again w → TakesNone again ws)

/-! ### The loop of writes -/

variable {again : WriteAns → Bool} {got done far left : Nat} {w : WriteAns} {ws : List WriteAns} {put : PutRun}

private theorem WriteAns.taken_le (w : WriteAns) (left : Nat) : w.taken left ≤ left := by
  cases w with
  | wrote k jump => exact Nat.min_le_right k left
  | failed e => exact Nat.zero_le left

/-- Whether anything is taken does not depend on how much is left. -/
private theorem WriteAns.taken_eq_zero (w : WriteAns) (h : 0 < left) : w.taken left = 0 ↔ w.taken 1 = 0 := by
  cases w with
  | wrote k jump =>
    rw [taken, taken]
    omega
  | failed e => rfl

/-- What the loop has taken, and how far it has moved the destination. -/
theorem putLoop_bounds (h : putLoop again got done far ws = some put) (hle : done ≤ got) :
    done ≤ put.done ∧ put.done ≤ got ∧ far + (put.done - done) ≤ put.far ∧ (put.done = done → put.far = far) := by
  induction ws generalizing done far with
  | nil =>
    rw [putLoop] at h
    split at h
    · cases h
    · cases h
      exact ⟨Nat.le_refl _, hle, by simp, fun _ => rfl⟩
  | cons w ws ih =>
    rw [putLoop] at h
    split at h
    · split at h
      · split at h
        · exact ih h hle
        · cases h
          exact ⟨Nat.le_refl _, hle, by simp, fun _ => rfl⟩
      · rename_i hlt hpos
        have htaken := w.taken_le (got - done)
        obtain ⟨hlow, hhigh, hfar, -⟩ := ih h (by omega)
        exact ⟨by omega, hhigh, by omega, fun heq => by omega⟩
    · cases h
      exact ⟨Nat.le_refl _, hle, by simp, fun _ => rfl⟩

private theorem takesAll_zero (ws : List WriteAns) : TakesAll again 0 ws := by
  cases ws with
  | nil => rfl
  | cons w ws => exact Or.inl rfl

theorem putLoop_all (h : putLoop again got done far ws = some put) (hle : done ≤ got) :
    put.done = got ↔ TakesAll again (got - done) ws := by
  induction ws generalizing done far with
  | nil =>
    rw [putLoop] at h
    split at h
    · cases h
    · cases h
      rw [TakesAll]
      dsimp only
      omega
  | cons w ws ih =>
    rw [putLoop] at h
    by_cases hlt : done < got
    · have hleft : got - done ≠ 0 := by omega
      rw [if_pos hlt] at h
      rw [TakesAll, or_iff_right hleft]
      by_cases hzero : w.taken (got - done) = 0
      · rw [if_pos hzero] at h ⊢
        by_cases hagain : again w
        · rw [if_pos hagain] at h
          rw [and_iff_right hagain]
          exact ih h hle
        · rw [if_neg hagain] at h
          cases h
          refine iff_of_false (by dsimp only; omega) fun hall => hagain hall.1
      · have htaken := w.taken_le (got - done)
        rw [if_neg hzero] at h ⊢
        rw [ih h (by omega), Nat.sub_sub]
    · rw [if_neg hlt] at h
      cases h
      have hleft : got - done = 0 := by omega
      rw [hleft]
      exact iff_of_true (by dsimp only; omega) (takesAll_zero _)

theorem putLoop_none (h : putLoop again got 0 far ws = some put) (hpos : 0 < got) :
    put.done = 0 ↔ TakesNone again ws := by
  induction ws with
  | nil =>
    rw [putLoop, if_pos hpos] at h
    cases h
  | cons w ws ih =>
    rw [putLoop, if_pos hpos] at h
    rw [TakesNone, ← w.taken_eq_zero (Nat.sub_pos_of_lt hpos)]
    by_cases hzero : w.taken (got - 0) = 0
    · rw [if_pos hzero] at h
      rw [and_iff_right hzero]
      by_cases hagain : again w
      · rw [if_pos hagain] at h
        rw [ih h]
        exact ⟨fun hnone _ => hnone, fun hnone => hnone hagain⟩
      · rw [if_neg hagain] at h
        cases h
        exact iff_of_true rfl fun h => absurd h hagain
    · rw [if_neg hzero] at h
      have hle := w.taken_le (got - 0)
      obtain ⟨hlow, -⟩ := putLoop_bounds h (by omega)
      exact iff_of_false (by omega) fun hnone => hzero hnone.1

/-- A pipe has given all that was read; a file is back where what was written ends, unless the writes have moved it
too. -/
theorem CopySource.moved_eq (source : CopySource) (h : put.done ≤ got) : source.moved got put =
    match source with
    | .disk shared => (put.done : Int) + (if shared then put.far else 0 : Nat)
    | .pipe => got := by
  cases source with
  | pipe => rfl
  | disk shared =>
    rw [moved]
    dsimp only
    by_cases hput : put.done < got
    · rw [if_pos hput]
      omega
    · rw [if_neg hput]
      omega

/-! ### What a copy from each file's position loses -/

/-- The source is a pipe of which all that was read was taken, or a file, of which nothing was if it is the
destination too. -/
def PutFits (again : WriteAns → Bool) (source : CopySource) (got : Nat) (ws : List WriteAns) : Prop :=
  match source with
  | .pipe => TakesAll again got ws
  | .disk shared => shared → TakesNone again ws

/-- The source has moved by what was written. -/
theorem CopySource.moved_eq_done (source : CopySource) (h : putLoop again got 0 0 ws = some put) (hpos : 0 < got) :
    source.moved got put = put.done ↔ PutFits again source got ws := by
  obtain ⟨-, hle, hfar, hstill⟩ := putLoop_bounds h (Nat.zero_le got)
  rw [source.moved_eq hle]
  cases source with
  | pipe =>
    have hall := putLoop_all h (Nat.zero_le got)
    rw [PutFits, ← Nat.sub_zero got, ← hall]
    dsimp only
    omega
  | disk shared =>
    rw [PutFits]
    dsimp only
    by_cases hshared : shared
    · rw [if_pos hshared, ← putLoop_none h hpos]
      constructor
      · intro heq _
        omega
      · intro hnone
        have hzero := hnone hshared
        rw [hstill hzero]
        omega
    · rw [if_neg hshared]
      exact iff_of_true (by omega) fun h => absurd h hshared

/-- Nothing is read, or what is read fits. -/
def RangeFits (source : CopySource) (len : Nat) (read : ReadAns) (writes : List WriteAns) : Prop :=
  match read with
  | .failed _ => True
  | .bytes bs =>
    bs.take (min len SPPC_COPY_CHUNK) ≠ [] →
      PutFits posixAgain source (bs.take (min len SPPC_COPY_CHUNK)).length writes

theorem losesNothing_empty (start : Int) {r : CopyRun} (hmoved : r.moved = 0) (hreads : Consecutive start r.reads)
    (hwritten : r.written = []) (hcount : ∀ n, r.result = .ok n → n = 0) : LosesNothing start r where
  moved := by
    rw [hmoved, hwritten]
    rfl
  order := hreads
  next := by
    rw [hwritten]
    exact List.nil_prefix
  count n hn := by
    rw [hwritten]
    exact hcount n hn
  unmoved _ _ := hmoved

/-- A copy loses nothing exactly if what it reads fits. -/
theorem sppcCopyRange_losesNothing {source : CopySource} {start : Int} {len : Nat} {read : ReadAns}
    {writes : List WriteAns} {r : CopyRun} (h : sppcCopyRange source start len read writes = some r) :
    LosesNothing start r ↔ RangeFits source len read writes := by
  unfold sppcCopyRange at h
  by_cases hlen : len = 0
  · rw [if_pos hlen] at h
    cases h
    have hnothing : RangeFits source len read writes := by
      cases read with
      | failed e => trivial
      | bytes bs =>
        intro hne
        rw [hlen, Nat.zero_min, List.take_zero] at hne
        exact absurd rfl hne
    exact iff_of_true (losesNothing_empty start rfl trivial rfl fun n hn => (Except.ok.inj hn).symm) hnothing
  · rw [if_neg hlen] at h
    cases read with
    | failed e =>
      cases h
      exact iff_of_true (losesNothing_empty start rfl trivial rfl fun n hn => nomatch hn) trivial
    | bytes bs =>
      dsimp only at h
      rw [RangeFits]
      generalize bs.take (min len SPPC_COPY_CHUNK) = bs at h
      by_cases hempty : bs = []
      · rw [if_pos hempty] at h
        cases h
        refine iff_of_true (losesNothing_empty start rfl ⟨rfl, trivial⟩ rfl ?_) fun hne => absurd hempty hne
        exact fun n hn => (Except.ok.inj hn).symm
      · rw [if_neg hempty, Option.map_eq_some_iff] at h
        obtain ⟨put, hput, hr⟩ := h
        have hpos : 0 < bs.length := List.length_pos_iff.2 hempty
        have hmoved := source.moved_eq_done hput hpos
        obtain ⟨-, hle, -, -⟩ := putLoop_bounds hput (Nat.zero_le _)
        have hwritten : (bs.take put.done).length = put.done := by
          rw [List.length_take]
          omega
        rw [← hr]
        constructor
        · intro hloses _
          apply hmoved.1
          rw [← hwritten]
          exact hloses.moved
        · intro hfits
          have hmoved := hmoved.2 (hfits hempty)
          refine ⟨?_, ⟨rfl, trivial⟩, ?_, ?_, ?_⟩
          · dsimp only
            rw [hwritten]
            exact hmoved
          · simpa using List.take_prefix put.done bs
          · intro n hn
            dsimp only at hn ⊢
            split at hn
            · cases hn
            · rw [hwritten]
              exact (Except.ok.inj hn).symm
          · intro e he
            dsimp only at he ⊢
            split at he
            · rename_i hnone
              rw [hmoved, hnone.2]
              rfl
            · cases he

end Sppc
