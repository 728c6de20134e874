import Sppc.Copies
import Sppc.Windows.Errors

/-!
# Copies (`platform/windows.h`)

`_sppc_win_copy`, from an offset or from the position of the source, in rounds of one read and the writes of what it
gave.
-/

namespace Sppc.Windows

def SPPC_ENOMEM : Nat := 12

/-- How source and destination answer in a round. -/
structure CopyRound where
  read : ReadAns
  writes : List WriteAns
  deriving DecidableEq, Repr

/-- Where a copy is: the total, the last error, how far the position of the source has moved, and what has been read
and written. -/
structure WinCopy where
  total : Nat
  err : Option Nat
  moved : Int
  reads : List (Int × List UInt8)
  written : List UInt8

/-- A write that took nothing is not tried again. -/
def winAgain (_ : WriteAns) : Bool := false

/-- How much a round asks for. -/
def winWant (count total : Nat) : Nat := if count - total < 65536 then count - total else 65536

/-- Where a round reads: at the offset, or where the position of the source, which was `start`, has come to. -/
def WinCopy.at (s : WinCopy) (start : Int) (offset : Option Int) : Int :=
  match offset with
  | some offset => offset + s.total
  | none => start + s.moved

/-- What a round leaves whose read gave `bs`. -/
def WinCopy.put (s : WinCopy) (source : CopySource) (start : Int) (offset : Option Int) (bs : List UInt8)
    (put : PutRun) : WinCopy :=
  { total := s.total + put.done
    err := put.err
    moved := if offset.isSome then s.moved else s.moved + source.moved bs.length put
    reads := s.reads ++ [(s.at start offset, bs)]
    written := s.written ++ bs.take put.done }

/-- The loop of `_sppc_win_copy`: `none` is a loop that the rounds do not end. -/
def winCopyLoop (source : CopySource) (start : Int) (offset : Option Int) (count : Nat) :
    WinCopy → List CopyRound → Option WinCopy
  | s, [] => if s.total < count then none else some s
  | s, r :: rounds =>
    if s.total < count then
      match r.read with
      | .failed e => some { s with err := some e }
      | .bytes bs =>
        let bs := bs.take (winWant count s.total)
        if bs = [] then some { s with err := none, reads := s.reads ++ [(s.at start offset, [])] }
        else
          match putLoop winAgain bs.length 0 0 r.writes with
          | none => none
          | some put =>
            if put.done < bs.length then some (s.put source start offset bs put)
            else winCopyLoop source start offset count (s.put source start offset bs put) rounds
    else some s

/-- What `_sppc_win_copy` returns at the end of its loop. -/
def WinCopy.run (s : WinCopy) (offset : Option Int) : CopyRun :=
  { result := if s.err.isSome ∧ s.total = 0 then .error (s.err.getD 0) else .ok s.total
    moved := if offset.isSome then (if s.err.isSome ∧ s.total = 0 then 0 else s.total) else s.moved
    reads := s.reads
    written := s.written }

/-- `_sppc_win_copy`, where `opened` says whether both descriptors are, and `malloc` whether there is memory.  `moved`
is how far the offset has moved, if there is one. -/
def sppcWinCopy (opened malloc : Bool) (source : CopySource) (start : Int) (offset : Option Int) (count : Nat)
    (rounds : List CopyRound) : Option CopyRun :=
  if ¬opened then some ⟨.error SPPC_EBADF, 0, [], []⟩
  else if ¬malloc then some ⟨.error SPPC_ENOMEM, 0, [], []⟩
  else (winCopyLoop source start offset count ⟨0, none, 0, [], []⟩ rounds).map fun s => s.run offset

/-! ### What a copy loses -/

/-- Every round's writes take all that was read. -/
def RoundsTakeAll (count : Nat) : Nat → List CopyRound → Prop
  | _, [] => True
  | total, r :: rounds =>
    total < count → ∀ bs, r.read = .bytes bs → bs.take (winWant count total) ≠ [] →
      TakesAll winAgain (bs.take (winWant count total)).length r.writes ∧
        RoundsTakeAll count (total + (bs.take (winWant count total)).length) rounds

/-- The first round reads nothing, or its writes take nothing. -/
def FirstTakesNone (count : Nat) (rounds : List CopyRound) : Prop :=
  ∀ r, rounds.head? = some r → 0 < count → ∀ bs, r.read = .bytes bs → bs.take (winWant count 0) ≠ [] →
    TakesNone winAgain r.writes

/-- There is an offset; or the source is a pipe, of which all that is read is taken, or a file, of which nothing is if
it is the destination too. -/
def WinCopyFits (source : CopySource) (offset : Option Int) (count : Nat) (rounds : List CopyRound) : Prop :=
  match offset, source with
  | some _, _ => True
  | none, .pipe => RoundsTakeAll count 0 rounds
  | none, .disk shared => shared → FirstTakesNone count rounds

/-- So far, all that was read was written. -/
structure WinCopy.Even (s : WinCopy) (base : Int) : Prop where
  total : s.written.length = s.total
  same : s.written = s.reads.flatMap Prod.snd
  order : Consecutive base s.reads

/-- What was written is the next bytes of the source. -/
structure WinCopy.Ordered (s : WinCopy) (base : Int) : Prop where
  total : s.written.length = s.total
  next : s.written <+: s.reads.flatMap Prod.snd
  order : Consecutive base s.reads

variable {source : CopySource} {start base : Int} {offset : Option Int} {count : Nat} {s s' : WinCopy}
  {rounds : List CopyRound} {bs : List UInt8} {p : PutRun} {ws : List WriteAns}

private theorem WinCopy.Even.ordered (h : s.Even base) : s.Ordered base where
  total := h.total
  next := h.same ▸ List.prefix_rfl
  order := h.order

private theorem consecutive_append {reads : List (Int × List UInt8)} {pos : Int} (h : Consecutive base reads)
    (hpos : pos = base + (reads.flatMap Prod.snd).length) : Consecutive base (reads ++ [(pos, bs)]) := by
  induction reads generalizing base with
  | nil => exact ⟨by simpa using hpos, trivial⟩
  | cons r reads ih =>
    obtain ⟨at', bs'⟩ := r
    refine ⟨h.1, ih h.2 ?_⟩
    rw [hpos, List.flatMap_cons, List.length_append]
    push_cast
    omega

/-- A round that reads where the source has come to keeps the order, and, where all was taken, leaves it even. -/
private theorem WinCopy.Even.put (source : CopySource) (h : s.Even base) (hat : s.at start offset = base + s.total)
    (hle : p.done ≤ bs.length) : (s.put source start offset bs p).Ordered base ∧
      (p.done = bs.length → (s.put source start offset bs p).Even base) := by
  have hlength : (s.put source start offset bs p).written.length = (s.put source start offset bs p).total := by
    simp only [WinCopy.put, List.length_append, List.length_take, h.total]
    omega
  have horder : Consecutive base (s.put source start offset bs p).reads := by
    apply consecutive_append h.order
    rw [hat, ← h.total, h.same]
  have hreads : (s.put source start offset bs p).reads.flatMap Prod.snd = s.written ++ bs := by
    simp [WinCopy.put, h.same]
  refine ⟨⟨hlength, ?_, horder⟩, fun hall => ⟨hlength, ?_, horder⟩⟩
  · rw [hreads]
    exact (List.prefix_append_right_inj s.written).2 (List.take_prefix p.done bs)
  · rw [hreads]
    show s.written ++ bs.take p.done = s.written ++ bs
    rw [hall, List.take_length]

/-- A read that gives nothing keeps the order. -/
private theorem WinCopy.Even.read (h : s.Even base) (hat : s.at start offset = base + s.total) :
    ({ s with err := none, reads := s.reads ++ [(s.at start offset, [])] } : WinCopy).Ordered base where
  total := h.total
  next := by
    rw [List.flatMap_append, ← h.same]
    exact List.prefix_append s.written _
  order := by
    apply consecutive_append h.order
    rw [hat, ← h.total, h.same]

/-- Where the rounds from here on leave a source that nothing else moves. -/
def RoundsFit (source : CopySource) (count total : Nat) (rounds : List CopyRound) : Prop :=
  match source with
  | .pipe => RoundsTakeAll count total rounds
  | .disk _ => True

private theorem roundsFit_of_done (h : ¬s.total < count) : RoundsFit source count s.total rounds := by
  cases source with
  | disk shared => trivial
  | pipe =>
    cases rounds with
    | nil => trivial
    | cons r rounds => exact fun hlt => absurd hlt h

private theorem roundsFit_of_read {r : CopyRound}
    (h : ∀ bs, r.read = .bytes bs → bs.take (winWant count s.total) = []) :
    RoundsFit source count s.total (r :: rounds) := by
  cases source with
  | disk shared => trivial
  | pipe => exact fun _ bs hbs hne => absurd (h bs hbs) hne

/-- A round that read something fits exactly if its writes do and the rounds after it do. -/
private theorem roundsFit_cons {r : CopyRound} (hshared : source ≠ .disk true) (hlt : s.total < count)
    (hread : r.read = .bytes bs) (hne : bs.take (winWant count s.total) ≠ []) :
    RoundsFit source count s.total (r :: rounds) ↔
      PutFits winAgain source (bs.take (winWant count s.total)).length r.writes ∧
        RoundsFit source count (s.total + (bs.take (winWant count s.total)).length) rounds := by
  cases source with
  | disk shared =>
    refine iff_of_true trivial ⟨fun h => ?_, trivial⟩
    rw [h] at hshared
    exact absurd rfl hshared
  | pipe =>
    constructor
    · intro h
      exact h hlt bs hread hne
    · intro h _ bs' hbs' _
      rw [hread, ReadAns.bytes.injEq] at hbs'
      rw [← hbs']
      exact h

/-- All that was read was taken, exactly if the writes fit and not less was. -/
private theorem putFits_of_full (hput : putLoop winAgain bs.length 0 0 ws = some p) (hshared : source ≠ .disk true)
    (hfull : p.done = bs.length) : PutFits winAgain source bs.length ws := by
  cases source with
  | pipe => exact (putLoop_all hput (Nat.zero_le _)).1 hfull
  | disk shared =>
    intro h
    rw [h] at hshared
    exact absurd rfl hshared

private theorem roundsFit_of_short {total : Nat} (hput : putLoop winAgain bs.length 0 0 ws = some p)
    (hshort : p.done < bs.length) (hfits : PutFits winAgain source bs.length ws) :
    RoundsFit source count total rounds := by
  cases source with
  | disk shared => trivial
  | pipe =>
    have hfull := (putLoop_all hput (Nat.zero_le _)).2 hfits
    omega

/-- Where the source moves only by what is read of it, the loop keeps the order, and the source ends where what was
written does exactly if the rounds fit. -/
private theorem winCopyLoop_ordered (hshared : offset = none → source ≠ .disk true)
    (h : winCopyLoop source start offset count s rounds = some s') (heven : s.Even (offset.getD start))
    (hmoved : offset = none → s.moved = s.total) : s'.Ordered (offset.getD start) ∧
      (offset = none → (s'.moved = s'.total ↔ RoundsFit source count s.total rounds)) := by
  induction rounds generalizing s with
  | nil =>
    rw [winCopyLoop] at h
    split at h
    · cases h
    · rename_i hdone
      cases h
      exact ⟨heven.ordered, fun hnone => iff_of_true (hmoved hnone) (roundsFit_of_done hdone)⟩
  | cons r rounds ih =>
    have hat : s.at start offset = offset.getD start + s.total := by
      cases offset with
      | some o => rfl
      | none =>
        rw [WinCopy.at, hmoved rfl]
        rfl
    rw [winCopyLoop] at h
    by_cases hlt : s.total < count
    · rw [if_pos hlt] at h
      cases hread : r.read with
      | failed e =>
        rw [hread] at h
        cases h
        refine ⟨⟨heven.total, heven.ordered.next, heven.order⟩, fun hnone => iff_of_true (hmoved hnone) ?_⟩
        apply roundsFit_of_read
        intro bs hbs
        rw [hread] at hbs
        cases hbs
      | bytes bs =>
        rw [hread] at h
        dsimp only at h
        by_cases hempty : bs.take (winWant count s.total) = []
        · rw [if_pos hempty] at h
          cases h
          refine ⟨heven.read hat, fun hnone => iff_of_true (hmoved hnone) ?_⟩
          apply roundsFit_of_read
          intro bs' hbs'
          rw [hread, ReadAns.bytes.injEq] at hbs'
          rw [← hbs']
          exact hempty
        · rw [if_neg hempty] at h
          have hpos := List.length_pos_iff.2 hempty
          have hcons (hnone : offset = none) :=
            @roundsFit_cons source count s rounds bs r (hshared hnone) hlt hread hempty
          generalize bs.take (winWant count s.total) = bs at h hpos hcons
          cases hput : putLoop winAgain bs.length 0 0 r.writes with
          | none =>
            rw [hput] at h
            cases h
          | some p =>
            rw [hput] at h
            dsimp only at h
            obtain ⟨-, hle, -, -⟩ := putLoop_bounds hput (Nat.zero_le _)
            obtain ⟨hordered, hall⟩ := heven.put source hat hle
            have hmoves (hnone : offset = none) : (s.put source start offset bs p).moved = s.total +
                source.moved bs.length p := by
              rw [WinCopy.put, hnone, ← hmoved hnone]
              rfl
            have hdone := source.moved_eq_done hput hpos
            by_cases hshort : p.done < bs.length
            · rw [if_pos hshort] at h
              cases h
              refine ⟨hordered, fun hnone => ?_⟩
              have htotal : (s.put source start offset bs p).total = s.total + p.done := rfl
              rw [hmoves hnone, htotal, hcons hnone, and_iff_left_of_imp (roundsFit_of_short hput hshort), ← hdone]
              omega
            · rw [if_neg hshort] at h
              have hfull : p.done = bs.length := by omega
              have hfits (hnone : offset = none) := putFits_of_full hput (hshared hnone) hfull
              have htotal : (s.put source start offset bs p).total = s.total + bs.length :=
                congrArg (s.total + ·) hfull
              obtain ⟨hordered', hiff⟩ := ih h (hall hfull) fun hnone => by
                rw [hmoves hnone, hdone.2 (hfits hnone), htotal]
                omega
              refine ⟨hordered', fun hnone => ?_⟩
              rw [hiff hnone, htotal, hcons hnone]
              exact (and_iff_right (hfits hnone)).symm
    · rw [if_neg hlt] at h
      cases h
      exact ⟨heven.ordered, fun hnone => iff_of_true (hmoved hnone) (roundsFit_of_done hlt)⟩

/-! ### A file that is copied to its own position -/

/-- The source has moved further than what was written. -/
def WinCopy.Ahead (s : WinCopy) : Prop := s.written.length = s.total ∧ (s.total : Int) < s.moved

/-- The writes of a round move the source too. -/
private theorem WinCopy.Ahead.put (start : Int) (hlength : s.written.length = s.total) (hle : p.done ≤ bs.length)
    (hfar : p.done ≤ p.far) (h : (s.total : Int) < s.moved ∨ (s.total : Int) = s.moved ∧ 0 < p.done) :
    (s.put (.disk true) start none bs p).Ahead := by
  have hmoved : (CopySource.disk true).moved bs.length p = p.done + p.far := CopySource.moved_eq (.disk true) hle
  have htotal : (s.put (.disk true) start none bs p).total = s.total + p.done := rfl
  have hput : (s.put (.disk true) start none bs p).moved = s.moved + (p.done + p.far) := by
    rw [← hmoved]
    rfl
  constructor
  · simp only [WinCopy.put, List.length_append, List.length_take, hlength]
    omega
  · rw [hput, htotal]
    omega

/-- Once the source has moved further than what was written, it stays further. -/
private theorem winCopyLoop_ahead (h : winCopyLoop (.disk true) start none count s rounds = some s')
    (hahead : s.Ahead) : s'.Ahead := by
  induction rounds generalizing s with
  | nil =>
    rw [winCopyLoop] at h
    split at h
    · cases h
    · cases h
      exact hahead
  | cons r rounds ih =>
    rw [winCopyLoop] at h
    split at h
    · split at h
      · cases h
        exact hahead
      · dsimp only at h
        split at h
        · cases h
          exact hahead
        · split at h
          · cases h
          · rename_i p hput
            obtain ⟨-, hle, hfar, -⟩ := putLoop_bounds hput (Nat.zero_le _)
            have hahead' := WinCopy.Ahead.put start hahead.1 hle (by omega) (Or.inl hahead.2)
            split at h
            · cases h
              exact hahead'
            · exact ih h hahead'
    · cases h
      exact hahead

private theorem WinCopy.Ahead.loses (h : s.Ahead) : ¬LosesNothing start (s.run none) := by
  intro hloses
  have hmoved : s.moved = s.written.length := hloses.moved
  obtain ⟨hlength, hfar⟩ := h
  omega

/-- At the end of the loop. -/
private theorem WinCopy.Ordered.run (start : Int) (offset : Option Int) (h : s.Ordered (offset.getD start)) :
    LosesNothing (offset.getD start) (s.run offset) ↔ (offset = none → s.moved = s.total) := by
  constructor
  · intro hloses hnone
    have hmoved := hloses.moved
    rw [hnone] at hmoved
    rw [← h.total]
    exact hmoved
  · intro hmoved
    have hrun : (s.run offset).moved = s.total := by
      cases offset with
      | none => exact hmoved rfl
      | some o =>
        rw [WinCopy.run]
        dsimp only
        rw [if_pos (show (some o).isSome by rfl)]
        split
        · rename_i hnothing
          rw [hnothing.2]
          rfl
        · rfl
    refine ⟨?_, h.order, h.next, ?_, ?_⟩
    · rw [hrun, ← h.total]
      rfl
    · intro n hn
      rw [WinCopy.run] at hn
      dsimp only at hn
      split at hn
      · cases hn
      · rw [← Except.ok.inj hn]
        exact h.total.symm
    · intro e he
      rw [hrun]
      rw [WinCopy.run] at he
      dsimp only at he
      split at he
      · rename_i hnothing
        rw [hnothing.2]
        rfl
      · cases he

/-- Where a copy begins. -/
private theorem WinCopy.even_empty (base : Int) : (⟨0, none, 0, [], []⟩ : WinCopy).Even base := ⟨rfl, rfl, trivial⟩

private theorem WinCopy.at_empty (start : Int) : (⟨0, none, 0, [], []⟩ : WinCopy).at start none = start +
    ((0 : Nat) : Int) := rfl

/-- A file copied to its own position loses nothing exactly if the first round takes nothing. -/
private theorem winCopyLoop_shared (h : winCopyLoop (.disk true) start none count ⟨0, none, 0, [], []⟩ rounds =
  some s') :
    LosesNothing start (s'.run none) ↔ FirstTakesNone count rounds := by
  have heven := WinCopy.even_empty start
  cases rounds with
  | nil =>
    rw [winCopyLoop] at h
    split at h
    · cases h
    · cases h
      exact iff_of_true ((WinCopy.Ordered.run start none heven.ordered).2 fun _ => rfl) fun r hr => nomatch hr
  | cons r rounds =>
    have hfirst : FirstTakesNone count (r :: rounds) ↔ (0 < count → ∀ bs, r.read = .bytes bs →
        bs.take (winWant count 0) ≠ [] → TakesNone winAgain r.writes) := by
      constructor
      · intro hall
        exact hall r rfl
      · intro hall r' hr'
        rw [← Option.some_inj.1 hr']
        exact hall
    rw [hfirst]
    rw [winCopyLoop] at h
    dsimp only at h
    by_cases hlt : 0 < count
    · rw [if_pos hlt] at h
      cases hread : r.read with
      | failed e =>
        rw [hread] at h
        cases h
        have hordered : (⟨0, some e, 0, [], []⟩ : WinCopy).Ordered start := ⟨rfl, List.prefix_rfl, trivial⟩
        refine iff_of_true ((WinCopy.Ordered.run start none hordered).2 fun _ => rfl) ?_
        intro _ bs hbs
        cases hbs
      | bytes bs =>
        rw [hread] at h
        dsimp only at h
        have hbytes : (0 < count → ∀ bs', ReadAns.bytes bs = .bytes bs' → bs'.take (winWant count 0) ≠ [] →
            TakesNone winAgain r.writes) ↔ (bs.take (winWant count 0) ≠ [] → TakesNone winAgain r.writes) := by
          constructor
          · intro hall
            exact hall hlt bs rfl
          · intro hall _ bs' hbs'
            rw [← ReadAns.bytes.inj hbs']
            exact hall
        rw [hbytes]
        by_cases hempty : bs.take (winWant count 0) = []
        · rw [if_pos hempty] at h
          cases h
          have hordered := heven.read (WinCopy.at_empty start)
          exact iff_of_true ((WinCopy.Ordered.run start none hordered).2 fun _ => rfl) fun hne => absurd hempty hne
        · rw [if_neg hempty] at h
          have hpos := List.length_pos_iff.2 hempty
          rw [imp_iff_right hempty]
          generalize bs.take (winWant count 0) = bs at h hpos
          cases hput : putLoop winAgain bs.length 0 0 r.writes with
          | none =>
            rw [hput] at h
            cases h
          | some p =>
            rw [hput] at h
            dsimp only at h
            obtain ⟨-, hle, hfar, -⟩ := putLoop_bounds hput (Nat.zero_le _)
            rw [← putLoop_none hput hpos]
            by_cases hzero : p.done = 0
            · rw [if_pos (by omega)] at h
              cases h
              obtain ⟨hordered, -⟩ := heven.put (.disk true) (WinCopy.at_empty start) hle
              have hmoved := (CopySource.moved_eq_done (.disk true) hput hpos).2 fun _ =>
                (putLoop_none hput hpos).1 hzero
              refine iff_of_true ((WinCopy.Ordered.run start none hordered).2 fun _ => ?_) hzero
              show (0 : Int) + (CopySource.disk true).moved bs.length p = ((0 + p.done : Nat) : Int)
              rw [hmoved]
              omega
            · have hahead : ((⟨0, none, 0, [], []⟩ : WinCopy).put (.disk true) start none bs p).Ahead := by
                apply WinCopy.Ahead.put start rfl hle (by omega)
                exact Or.inr ⟨rfl, by omega⟩
              refine iff_of_false ?_ hzero
              split at h
              · cases h
                exact hahead.loses
              · exact (winCopyLoop_ahead h hahead).loses
    · rw [if_neg hlt] at h
      cases h
      exact iff_of_true ((WinCopy.Ordered.run start none heven.ordered).2 fun _ => rfl) fun hpos => absurd hpos hlt

/-- What `_sppc_win_copy` loses. -/
private theorem sppcWinCopy_losesNothing {opened malloc : Bool} {r : CopyRun}
    (h : sppcWinCopy opened malloc source start offset count rounds = some r) :
    LosesNothing (offset.getD start) r ↔ (opened → malloc → WinCopyFits source offset count rounds) := by
  unfold sppcWinCopy at h
  by_cases hopened : opened
  · rw [if_neg (not_not.2 hopened)] at h
    rw [imp_iff_right hopened]
    by_cases hmalloc : malloc
    · rw [if_neg (not_not.2 hmalloc), Option.map_eq_some_iff] at h
      rw [imp_iff_right hmalloc]
      obtain ⟨s', hloop, hr⟩ := h
      rw [← hr]
      by_cases hshared : offset = none ∧ source = .disk true
      · obtain ⟨rfl, rfl⟩ := hshared
        rw [Option.getD_none, winCopyLoop_shared hloop]
        exact (imp_iff_right rfl).symm
      · obtain ⟨hordered, hiff⟩ := winCopyLoop_ordered (fun hnone hdisk => hshared ⟨hnone, hdisk⟩) hloop
          (WinCopy.even_empty _) fun _ => rfl
        rw [hordered.run start offset]
        cases offset with
        | some o => exact iff_of_true (fun hnone => nomatch hnone) trivial
        | none =>
          rw [imp_iff_right rfl, hiff rfl]
          cases source with
          | pipe => rfl
          | disk shared =>
            refine iff_of_true trivial fun h => ?_
            rw [h] at hshared
            exact absurd ⟨rfl, rfl⟩ hshared
    · rw [if_pos hmalloc] at h
      cases h
      exact iff_of_true (losesNothing_empty _ rfl trivial rfl fun n hn => nomatch hn) fun hm => absurd hm hmalloc
  · rw [if_pos hopened] at h
    cases h
    exact iff_of_true (losesNothing_empty _ rfl trivial rfl fun n hn => nomatch hn) fun ho => absurd ho hopened

/-- Each copy loses nothing exactly if it fits. -/
theorem copies_loseNothing {opened malloc : Bool} {len : Nat} {read : ReadAns} {r r' : CopyRun}
    (h : sppcCopyRange source start len read ws = some r)
    (h' : sppcWinCopy opened malloc source start offset count rounds = some r') :
    (LosesNothing start r ↔ RangeFits source len read ws) ∧
      (LosesNothing (offset.getD start) r' ↔ (opened → malloc → WinCopyFits source offset count rounds)) :=
  ⟨sppcCopyRange_losesNothing h, sppcWinCopy_losesNothing h'⟩

/-- Three bytes come from a pipe, and the destination takes two of them before it fails with `ENOSPC`. -/
def pipeRound : CopyRound := ⟨.bytes [1, 2, 3], [.wrote 2 0, .failed 28]⟩

/-- The third byte is lost. -/
theorem copies_losePipe :
    sppcCopyRange .pipe 0 3 (.bytes [1, 2, 3]) [.wrote 2 0, .failed 28] = some ⟨.ok 2, 3, [(0, [1, 2, 3])], [1, 2]⟩ ∧
    sppcWinCopy true true .pipe 0 none 3 [pipeRound] = some ⟨.ok 2, 3, [(0, [1, 2, 3])], [1, 2]⟩ ∧
    ¬LosesNothing 0 ⟨.ok 2, 3, [(0, [1, 2, 3])], [1, 2]⟩ := by
  refine ⟨by rfl, by rfl, ?_⟩
  intro h
  exact absurd h.moved (by decide)

/-- From a file, it is put back. -/
theorem copies_loseNothing_disk :
    LosesNothing 0 ⟨.ok 2, 2, [(0, [1, 2, 3])], [1, 2]⟩ ∧ LosesNothing 0 ⟨.ok 2, 2, [(0, [1, 2, 3])], [1, 2]⟩ := by
  have hposix : sppcCopyRange (.disk false) 0 3 (.bytes [1, 2, 3]) [.wrote 2 0, .failed 28] =
      some ⟨.ok 2, 2, [(0, [1, 2, 3])], [1, 2]⟩ := by rfl
  have hwin : sppcWinCopy true true (.disk false) 0 none 3 [pipeRound] =
      some ⟨.ok 2, 2, [(0, [1, 2, 3])], [1, 2]⟩ := by rfl
  obtain ⟨hrange, hcopy⟩ := copies_loseNothing hposix hwin
  exact ⟨hrange.2 fun _ hshared => absurd hshared (by decide), hcopy.2 fun _ _ hshared => absurd hshared (by decide)⟩

end Sppc.Windows
