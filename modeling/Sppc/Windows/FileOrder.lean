import Sppc.Windows.Positions

/-!
# The order of the calls on one file

Every call takes effect in one step: a plain one in its Win32 call, a `pread` or a `pwrite` in its transfer, and a
record lock when it asks for the position.  While a transfer has moved the position, no other call but a record lock
can come to it.
-/

namespace Sppc.Windows

open Threads Histories Transition

variable {Tid : Type} [DecidableEq Tid]

/-- The result of a call that has taken effect and not returned. -/
def FileLoc.pending : FileLoc → Option (FileCall × FileRes)
  | .leave c r | .restore c _ r | .giveBack c r | .range c r => some (c, r)
  | _ => none

/-- The thread holds the description's lock, shared with others. -/
def FileLoc.Shares : FileLoc → Prop
  | .shared _ | .leave _ _ => True
  | _ => False

/-- The thread holds the description's lock alone. -/
def FileLoc.Alone : FileLoc → Prop
  | .borrow _ | .transfer _ _ | .restore _ _ _ | .giveBack _ _ => True
  | _ => False

/-- What holds of a call before its next step. -/
def FileLoc.Ok (o : DiskOfd) (f : DiskFile) : FileLoc → Prop
  | .enter c | .shared c | .borrow c => c.refused o = none
  | .transfer c was => c.refused o = none ∧ was = f.pos
  | _ => True

/-- The lock excludes, and what has taken effect so far has done so in some order. -/
structure FileInv (o : DiskOfd) (f : DiskFile) (s : FileSystem Tid) : Prop where
  shares : ∀ t, (s.loc t).Shares ↔ t ∈ s.shared.readers
  alone : ∀ t, (s.loc t).Alone ↔ s.shared.writer = some t
  apart : s.shared.writer ≠ none → s.shared.readers = []
  loc : ∀ t, (s.loc t).Ok o s.shared.file
  linear : Linear (fun f c r f' => FileCall.Whole o f c r f') f s.shared.returned (fun t => (s.loc t).pending)
    ⟨s.shared.file.data, s.position⟩

variable {o : DiskOfd} {f : DiskFile} {s s' : FileSystem Tid} {t u : Tid} {h h' : FileState Tid} {l l' : FileLoc}
  {c : FileCall} {r : FileRes}

/-! ### The position -/

omit [DecidableEq Tid] in
private theorem FileSystem.position_of_free (hw : s.shared.writer = none) : s.position = s.shared.file.pos := by
  simp [FileSystem.position, FileSystem.borrowed, hw]

/-- A step of a thread that does not hold the lock alone borrows nothing. -/
private theorem borrowed_put_of_ne (hw : s.shared.writer ≠ some t) (hsame : h'.writer = s.shared.writer) :
    FileSystem.borrowed (s.put t h' l') = s.borrowed := by
  unfold FileSystem.borrowed
  rw [State.put_shared, hsame]
  cases hwriter : s.shared.writer with
  | none => rfl
  | some u =>
    have hu : u ≠ t := by
      rintro rfl
      exact hw hwriter
    simp only [Option.bind_some, State.put_of_ne hu]

/-- The thread that holds the lock alone has borrowed the position exactly before it puts it back. -/
private theorem position_put_self (hw : h'.writer = some t) :
    FileSystem.position (s.put t h' l') = match l' with | .restore _ was _ => was | _ => h'.file.pos := by
  unfold FileSystem.position FileSystem.borrowed
  rw [State.put_shared, hw, Option.bind_some, State.put_self]
  cases l' <;> rfl

omit [DecidableEq Tid] in
private theorem position_self (hw : s.shared.writer = some t) :
    s.position = match s.loc t with | .restore _ was _ => was | _ => s.shared.file.pos := by
  unfold FileSystem.position FileSystem.borrowed
  rw [hw, Option.bind_some]
  cases s.loc t <;> rfl

/-! ### The lock -/

/-- Whoever shares the lock keeps all others from holding it alone. -/
private theorem FileInv.writer_none (hi : FileInv o f s) (hl : (s.loc t).Shares) : s.shared.writer = none := by
  by_contra hne
  have hmem := (hi.shares t).1 hl
  rw [hi.apart hne] at hmem
  cases hmem

/-- What holds of a call depends on the position only while it holds the lock alone. -/
private theorem FileInv.others (hi : FileInv o f s) (hw : s.shared.writer = none ∨ s.shared.writer = some t)
    (f' : DiskFile) (hu : u ≠ t) : (s.loc u).Ok o f' := by
  have hok := hi.loc u
  cases hloc : s.loc u <;> rw [hloc] at hok
  case transfer c was =>
    have halone := (hi.alone u).1 (by rw [hloc]; trivial)
    rcases hw with hw | hw
    · rw [hw] at halone
      cases halone
    · rw [hw] at halone
      exact absurd (Option.some.inj halone).symm hu
  all_goals exact hok

/-- A thread moves on, and the lock stays as it is. -/
private theorem FileInv.stay (hi : FileInv o f s) (hreaders : h'.readers = s.shared.readers)
    (hwriter : h'.writer = s.shared.writer) (hshares : l'.Shares ↔ (s.loc t).Shares)
    (halone : l'.Alone ↔ (s.loc t).Alone) (hl : l'.Ok o h'.file) (hothers : ∀ u ≠ t, (s.loc u).Ok o h'.file)
    (hlinear : Linear (fun f c r f' => FileCall.Whole o f c r f') f h'.returned
      (fun u => ((s.put t h' l').loc u).pending) ⟨h'.file.data, FileSystem.position (s.put t h' l')⟩) :
    FileInv o f (s.put t h' l') where
  shares := by
    intro u
    rw [State.put_shared, hreaders]
    exact State.put_forall (P := fun u l => FileLoc.Shares l ↔ u ∈ s.shared.readers)
      (hshares.trans (hi.shares t)) (fun u _ => hi.shares u) u
  alone := by
    intro u
    rw [State.put_shared, hwriter]
    exact State.put_forall (P := fun u l => FileLoc.Alone l ↔ s.shared.writer = some u)
      (halone.trans (hi.alone t)) (fun u _ => hi.alone u) u
  apart := by
    rw [State.put_shared, hwriter, hreaders]
    exact hi.apart
  loc := State.put_forall (P := fun _ l => FileLoc.Ok o h'.file l) hl hothers
  linear := hlinear

/-! ### What a step does to the order -/

private theorem pending_put_of_ne (hu : u ≠ t) : ((s.put t h' l').loc u).pending = (s.loc u).pending := by
  rw [State.put_of_ne hu]

private theorem pending_put (hl : l'.pending = (s.loc t).pending) :
    (fun u => ((s.put t h' l').loc u).pending) = fun u => (s.loc u).pending := by
  funext u
  by_cases hu : u = t
  · subst hu
    rw [State.put_self, hl]
  · exact pending_put_of_ne hu

/-- A step in which no call takes effect, and none returns. -/
private theorem FileInv.linear_same (hi : FileInv o f s) (hreturned : h'.returned = s.shared.returned)
    (hdata : h'.file.data = s.shared.file.data) (hpos : FileSystem.position (s.put t h' l') = s.position)
    (hpending : l'.pending = (s.loc t).pending) :
    Linear (fun f c r f' => FileCall.Whole o f c r f') f h'.returned (fun u => ((s.put t h' l').loc u).pending)
      ⟨h'.file.data, FileSystem.position (s.put t h' l')⟩ := by
  rw [hreturned, hdata, hpos, pending_put hpending]
  exact hi.linear

/-- A step in which a call takes effect. -/
private theorem FileInv.linear_effect {p p' : Nat} (hi : FileInv o f s) (hreturned : h'.returned = s.shared.returned)
    (hpos : s.position = p) (hpos' : FileSystem.position (s.put t h' l') = p')
    (hwhole : FileCall.Whole o ⟨s.shared.file.data, p⟩ c r ⟨h'.file.data, p'⟩)
    (hbefore : (s.loc t).pending = none) (hafter : l'.pending = some (c, r)) :
    Linear (fun f c r f' => FileCall.Whole o f c r f') f h'.returned (fun u => ((s.put t h' l').loc u).pending)
      ⟨h'.file.data, FileSystem.position (s.put t h' l')⟩ := by
  rw [hreturned, hpos']
  refine (hpos ▸ hi.linear).effect _ hwhole hbefore ?_ fun u hu => pending_put_of_ne hu
  rw [State.put_self]
  exact hafter

/-- A step in which a call returns that has been refused. -/
private theorem FileInv.linear_refused {e : FileErr} (hi : FileInv o f s)
    (hreturned : h'.returned = s.shared.returned ++ [(t, c, .err e)]) (hdata : h'.file.data = s.shared.file.data)
    (hpos : FileSystem.position (s.put t h' l') = s.position) (hrefused : c.refused o = some e)
    (hbefore : (s.loc t).pending = none) (hafter : l'.pending = none) :
    Linear (fun f c r f' => FileCall.Whole o f c r f') f h'.returned (fun u => ((s.put t h' l').loc u).pending)
      ⟨h'.file.data, FileSystem.position (s.put t h' l')⟩ := by
  rw [hreturned, hdata, hpos, pending_put (hafter.trans hbefore.symm)]
  exact hi.linear.atOnce (.refused hrefused) hbefore

/-- A step in which a call returns. -/
private theorem FileInv.linear_back (hi : FileInv o f s) (hreturned : h'.returned = s.shared.returned ++ [(t, c, r)])
    (hdata : h'.file.data = s.shared.file.data) (hpos : FileSystem.position (s.put t h' l') = s.position)
    (hbefore : (s.loc t).pending = some (c, r)) (hafter : l'.pending = none) :
    Linear (fun f c r f' => FileCall.Whole o f c r f') f h'.returned (fun u => ((s.put t h' l').loc u).pending)
      ⟨h'.file.data, FileSystem.position (s.put t h' l')⟩ := by
  rw [hreturned, hdata, hpos]
  refine hi.linear.back hbefore ?_ fun u hu => pending_put_of_ne hu
  rw [State.put_self]
  exact hafter

/-- A call that the lock has kept out takes the lock. -/
private theorem FileInv.enter (hi : FileInv o f s) (hloc : s.loc t = .enter c) (hok : c.refused o = none)
    (hw : s.shared.writer = none) :
    FileInv o f (s.put t { s.shared with readers := t :: s.shared.readers } (.shared c)) ∧
      (s.shared.readers = [] → FileInv o f (s.put t { s.shared with writer := some t } (.borrow c))) := by
  have hpending : (s.loc t).pending = none := by rw [hloc]; rfl
  have hpos := FileSystem.position_of_free hw
  constructor
  · refine ⟨fun u => ?_, fun u => ?_, fun hne => absurd hw hne, ?_, ?_⟩
    · rw [State.put_shared, List.mem_cons]
      by_cases hu : u = t
      · subst hu
        simp [FileLoc.Shares]
      · rw [State.put_of_ne hu, hi.shares u]
        exact ⟨Or.inr, fun h => h.resolve_left hu⟩
    · refine State.put_forall (P := fun u l => FileLoc.Alone l ↔ s.shared.writer = some u) ?_ (fun u _ =>
        hi.alone u) u
      rw [hw]
      simp [FileLoc.Alone]
    · exact State.put_forall (P := fun _ l => FileLoc.Ok o s.shared.file l) hok fun u _ => hi.loc u
    · refine hi.linear_same rfl rfl ?_ hpending.symm
      rw [hpos]
      exact FileSystem.position_of_free hw
  · intro hnil
    refine ⟨fun u => ?_, fun u => ?_, fun _ => hnil, ?_, ?_⟩
    · refine State.put_forall (P := fun u l => FileLoc.Shares l ↔ u ∈ s.shared.readers) ?_ (fun u _ => hi.shares u) u
      rw [hnil]
      simp [FileLoc.Shares]
    · by_cases hu : u = t
      · subst hu
        simp [FileLoc.Alone]
      · have hnot := hi.alone u
        rw [hw] at hnot
        rw [State.put_of_ne hu, State.put_shared, hnot]
        simp [Ne.symm hu]
    · exact State.put_forall (P := fun _ l => FileLoc.Ok o s.shared.file l) hok fun u _ => hi.loc u
    · refine hi.linear_same rfl rfl ?_ hpending.symm
      rw [hpos]
      exact position_put_self rfl

/-- A call lets go of the lock and returns. -/
private theorem FileInv.leave (hi : FileInv o f s) (hloc : s.loc t = .leave c r) :
    FileInv o f (s.put t { s.shared with
      readers := s.shared.readers.filter (· ≠ t), returned := s.shared.returned ++ [(t, c, r)] } .out) := by
  have hw := hi.writer_none (t := t) (by rw [hloc]; trivial)
  refine ⟨fun u => ?_, fun u => ?_, fun hne => absurd hw hne, ?_, ?_⟩
  · rw [State.put_shared]
    by_cases hu : u = t
    · subst hu
      simp [FileLoc.Shares]
    · rw [State.put_of_ne hu, hi.shares u]
      simp [hu]
  · refine State.put_forall (P := fun u l => FileLoc.Alone l ↔ s.shared.writer = some u) ?_ (fun u _ => hi.alone u) u
    rw [hw]
    simp [FileLoc.Alone]
  · exact State.put_forall (P := fun _ l => FileLoc.Ok o s.shared.file l) trivial fun u _ => hi.loc u
  · refine hi.linear_back rfl rfl ?_ (by rw [hloc]; rfl) rfl
    rw [FileSystem.position_of_free hw]
    exact FileSystem.position_of_free hw

private theorem FileInv.giveBack (hi : FileInv o f s) (hloc : s.loc t = .giveBack c r) :
    FileInv o f (s.put t { s.shared with writer := none, returned := s.shared.returned ++ [(t, c, r)] } .out) := by
  have hw := (hi.alone t).1 (by rw [hloc]; trivial)
  have hnil := hi.apart (by rw [hw]; simp)
  refine ⟨fun u => ?_, fun u => ?_, fun hne => absurd rfl hne, ?_, ?_⟩
  · refine State.put_forall (P := fun u l => FileLoc.Shares l ↔ u ∈ s.shared.readers) ?_ (fun u _ => hi.shares u) u
    rw [hnil]
    simp [FileLoc.Shares]
  · by_cases hu : u = t
    · subst hu
      simp [FileLoc.Alone]
    · have hnot := hi.alone u
      rw [hw] at hnot
      rw [State.put_of_ne hu, State.put_shared, hnot]
      simp [Ne.symm hu]
  · exact State.put_forall (P := fun _ l => FileLoc.Ok o s.shared.file l) trivial fun u _ => hi.loc u
  · refine hi.linear_back rfl rfl ?_ (by rw [hloc]; rfl) rfl
    rw [position_self hw, hloc]
    exact FileSystem.position_of_free rfl

private theorem FileInv.act {i : FileInput} (hi : FileInv o f s) (hproper : s.Proper t)
    (hact : fileAct o t i s.shared (s.loc t) = some (h', l')) : FileInv o f (s.put t h' l') := by
  have hok := hi.loc t
  have hothers (u : Tid) (_ : u ≠ t) : (s.loc u).Ok o s.shared.file := hi.loc u
  -- a thread that does not hold the lock alone
  have haside (hnot : ¬(s.loc t).Alone) (h' : FileState Tid) (l' : FileLoc) (hsame : h'.writer = s.shared.writer)
      (hpos : h'.file.pos = s.shared.file.pos) : FileSystem.position (s.put t h' l') = s.position := by
    unfold FileSystem.position
    rw [borrowed_put_of_ne (fun h => hnot ((hi.alone t).2 h)) hsame, State.put_shared, hpos]
  cases hloc : s.loc t
  case out =>
    rw [hloc] at hact haside
    have hpos := haside (fun h => h)
    cases i with
    | call c =>
      simp only [fileAct] at hact
      split at hact <;> cases hact
      · rename_i e hrefused
        refine hi.stay rfl rfl (by rw [hloc]) (by rw [hloc]) trivial hothers ?_
        exact hi.linear_refused rfl rfl (hpos _ _ rfl rfl) hrefused (by rw [hloc]; rfl) rfl
      · rename_i hrefused
        refine hi.stay rfl rfl (by rw [hloc]; rfl) (by rw [hloc]; rfl) hrefused hothers ?_
        exact hi.linear_same rfl rfl (hpos _ _ rfl rfl) (by rw [hloc]; rfl)
    | _ => cases hact
  case enter c =>
    rw [hloc] at hact haside hok
    cases c
    case lock type start len =>
      have hborrowed : s.borrowed = none := by
        unfold FileSystem.Proper at hproper
        rw [hloc] at hproper
        exact hproper
      have hposition : s.position = s.shared.file.pos := by
        unfold FileSystem.position
        rw [hborrowed]
        rfl
      cases hact
      refine hi.stay rfl rfl (by rw [hloc]; rfl) (by rw [hloc]; rfl) trivial hothers ?_
      exact hi.linear_effect rfl hposition ((haside (fun h => h) _ _ rfl rfl).trans hposition) (.lock hok rfl)
        (by rw [hloc]; rfl) rfl
    case pread | pwrite =>
      simp only [fileAct] at hact
      split at hact <;> cases hact
      rename_i hfree
      exact (hi.enter hloc hok hfree.1).2 hfree.2
    all_goals
      simp only [fileAct] at hact
      split at hact <;> cases hact
      rename_i hfree
      exact (hi.enter hloc hok hfree).1
  case shared c =>
    have hw := hi.writer_none (t := t) (by rw [hloc]; trivial)
    have hposition := FileSystem.position_of_free hw
    have hafter (h' : FileState Tid) (l' : FileLoc) (hsame : h'.writer = s.shared.writer) :
        FileSystem.position (s.put t h' l') = h'.file.pos := FileSystem.position_of_free (hsame.trans hw)
    rw [hloc] at hact hok
    cases i with
    | fail e pos =>
      cases hact
      refine hi.stay rfl rfl (by rw [hloc]; rfl) (by rw [hloc]; rfl) trivial hothers ?_
      exact hi.linear_effect rfl hposition (hafter _ _ rfl) (.failed hok) (by rw [hloc]; rfl) rfl
    | run =>
      obtain ⟨r, hplain, heq⟩ := Option.map_eq_some_iff.1 hact
      cases heq
      refine hi.stay rfl rfl (by rw [hloc]; rfl) (by rw [hloc]; rfl) trivial
        (fun u hu => hi.others (Or.inl hw) _ hu) ?_
      exact hi.linear_effect rfl hposition (hafter _ _ rfl) (.plain hok hplain) (by rw [hloc]; rfl) rfl
    | call c => cases hact
  case leave c r =>
    rw [hloc] at hact
    cases hact
    exact hi.leave hloc
  case range c r =>
    rw [hloc] at hact haside
    cases hact
    refine hi.stay rfl rfl (by rw [hloc]; rfl) (by rw [hloc]; rfl) trivial hothers ?_
    exact hi.linear_back rfl rfl (haside (fun h => h) _ _ rfl rfl) (by rw [hloc]; rfl) rfl
  all_goals
    have hw := (hi.alone t).1 (by rw [hloc]; trivial)
    have hposition := position_self hw
    rw [hloc] at hact hok hposition
  case borrow c =>
    cases hact
    refine hi.stay rfl rfl (by rw [hloc]; rfl) (by rw [hloc]; rfl) ⟨hok, rfl⟩ hothers ?_
    refine hi.linear_same rfl rfl ?_ (by rw [hloc]; rfl)
    rw [hposition]
    exact position_put_self hw
  case transfer c was =>
    obtain ⟨hrefused, rfl⟩ := hok
    cases i with
    | fail e pos =>
      cases hact
      refine hi.stay rfl rfl (by rw [hloc]; rfl) (by rw [hloc]; rfl) trivial
        (fun u hu => hi.others (Or.inr hw) _ hu) ?_
      exact hi.linear_effect rfl hposition (position_put_self hw) (.failed hrefused) (by rw [hloc]; rfl) rfl
    | run =>
      obtain ⟨r, hpositioned, heq⟩ := Option.map_eq_some_iff.1 hact
      cases heq
      refine hi.stay rfl rfl (by rw [hloc]; rfl) (by rw [hloc]; rfl) trivial
        (fun u hu => hi.others (Or.inr hw) _ hu) ?_
      exact hi.linear_effect rfl hposition (position_put_self hw) (.positioned hrefused hpositioned)
        (by rw [hloc]; rfl) rfl
    | call c => cases hact
  case restore c was r =>
    cases hact
    refine hi.stay rfl rfl (by rw [hloc]; rfl) (by rw [hloc]; rfl) trivial
      (fun u hu => hi.others (Or.inr hw) _ hu) ?_
    refine hi.linear_same rfl rfl ?_ (by rw [hloc]; rfl)
    rw [hposition]
    exact position_put_self hw
  case giveBack c r =>
    cases hact
    exact hi.giveBack hloc

private theorem fileProperStep_thread {i : FileInput} : fileProperStep o s (.thread t i) = some s' ↔
    s.Proper t ∧ ∃ h l, fileAct o t i s.shared (s.loc t) = some (h, l) ∧ s' = s.put t h l := by
  simp only [fileProperStep]
  split
  case isTrue hproper =>
    rw [fileStep, step_thread]
    exact ⟨fun h => ⟨hproper, h⟩, fun h => h.2⟩
  case isFalse hproper => exact ⟨fun h => (nomatch h), fun h => absurd h.1 hproper⟩

private theorem FileInv.step {e : FileEvent Tid} (hi : FileInv o f s) (hstep : fileProperStep o s e = some s') :
    FileInv o f s' := by
  cases e with
  | thread t i =>
    obtain ⟨hproper, h, l, hact, rfl⟩ := fileProperStep_thread.1 hstep
    exact hi.act hproper hact
  | env e => exact e.elim

omit [DecidableEq Tid] in
private theorem FileSystem.position_of_out (hout : ∀ t, s.loc t = .out) : s.position = s.shared.file.pos := by
  unfold FileSystem.position FileSystem.borrowed
  cases s.shared.writer with
  | none => rfl
  | some u => rw [Option.bind_some, hout u]; rfl

private theorem FileInv.init (o : DiskOfd) (f : DiskFile) : FileInv o f (.init f : FileSystem Tid) where
  shares t := by simp [FileSystem.init, FileLoc.Shares]
  alone t := by simp [FileSystem.init, FileLoc.Alone]
  apart _ := rfl
  loc _ := trivial
  linear := Linear.nil f

/-! ### Whole calls -/

omit [DecidableEq Tid] in
/-- Only a plain call moves the position. -/
private theorem FileCall.Whole.pos_eq {f f' : DiskFile} (h : FileCall.Whole o f c r f')
    (hc : ∀ f, c.plain o f = none) : f'.pos = f.pos := by
  cases h with
  | plain _ h =>
    rw [hc] at h
    cases h
  | _ => rfl

omit [DecidableEq Tid] in
private theorem FileCall.Whole.range_eq {f f' : DiskFile} {type : LockType} {start len : Int} {from_ length : Nat}
    (h : FileCall.Whole o f (.lock type start len) (.range from_ length) f') :
    rangeFrom f.pos start len = .range from_ length := by
  generalize hr : FileRes.range from_ length = r at h
  cases h with
  | lock _ h => cases h; rfl
  | plain _ h => cases h
  | positioned _ h => cases h
  | _ => cases hr

/-! ### What the order comes to -/

/-- A call that moves the file's position does so under the lock. -/
private theorem FileInv.file_of_alone {i : FileInput} (hi : FileInv o f s) (halone : (s.loc t).Alone) (hu : u ≠ t)
    (hstep : fileStep o s (.thread u i) = some s') : s'.shared.file = s.shared.file := by
  have hwriter := (hi.alone t).1 halone
  have hnot : ¬(s.loc u).Alone := by
    intro h
    rw [(hi.alone u).1 h] at hwriter
    exact hu (Option.some.inj hwriter)
  obtain ⟨h, l, hact, rfl⟩ := step_thread.1 hstep
  rw [State.put_shared]
  cases hloc : s.loc u <;> rw [hloc] at hact hnot
  case out =>
    cases i with
    | call c =>
      simp only [fileAct] at hact
      split at hact <;> cases hact <;> rfl
    | _ => cases hact
  case enter c =>
    cases c
    case lock => cases hact; rfl
    all_goals
      simp only [fileAct] at hact
      split at hact <;> cases hact
      rfl
  case shared c =>
    have hnone := hi.writer_none (t := u) (by rw [hloc]; trivial)
    rw [hnone] at hwriter
    cases hwriter
  case leave | range => cases hact; rfl
  all_goals exact absurd trivial hnot

/-- The calls return what they would as wholes in some order, and no other call comes to a borrowed position. -/
structure PositionsOk (o : DiskOfd) (f : DiskFile) (s : FileSystem Tid) : Prop where
  /-- The calls that have taken effect make the file what it is, the position apart while it is borrowed. -/
  order : Linear (fun f c r f' => FileCall.Whole o f c r f') f s.shared.returned (fun t => (s.loc t).pending)
    ⟨s.shared.file.data, s.position⟩
  /-- Once all have returned, they make it what it is. -/
  final : (∀ t, s.loc t = .out) →
    Linear (fun f c r f' => FileCall.Whole o f c r f') f s.shared.returned (fun _ => none) s.shared.file
  /-- A plain call acts from a position that nobody has borrowed, and so does one that borrows it. -/
  seen : ∀ t c, s.loc t = .shared c ∨ s.loc t = .borrow c → s.borrowed = none
  saved : ∀ t c was, s.loc t = .transfer c was → was = s.shared.file.pos
  /-- From where a call saves the position to where it has put it back, no other moves it. -/
  kept : ∀ t u i s', (s.loc t).Alone → u ≠ t → fileStep o s (.thread u i) = some s' → s'.shared.file = s.shared.file

private theorem FileInv.ok (hi : FileInv o f s) : PositionsOk o f s where
  order := hi.linear
  final hout := by
    have hlinear := hi.linear
    rw [FileSystem.position_of_out hout] at hlinear
    simpa only [hout, FileLoc.pending] using hlinear
  seen := by
    rintro t c (hloc | hloc)
    · have hw := hi.writer_none (t := t) (by rw [hloc]; trivial)
      unfold FileSystem.borrowed
      rw [hw, Option.bind_none]
    · have hw := (hi.alone t).1 (by rw [hloc]; trivial)
      unfold FileSystem.borrowed
      rw [hw, Option.bind_some, hloc]
  saved := by
    intro t c was hloc
    have hok := hi.loc t
    rw [hloc] at hok
    exact hok.2
  kept := fun t u i s' halone hu hstep => hi.file_of_alone halone hu hstep

/-- In every run in which no record lock asks for a borrowed position, the calls take effect in some order. -/
theorem positions_ok (h : Reach (fileProperStep o) (.init f) s) : PositionsOk o f s := by
  refine FileInv.ok (h.invariant (P := FileInv o f) ?_ (.init o f))
  exact fun s e s' hi hstep => hi.step hstep

section runs

private def tenBytes : DiskFile := ⟨[0, 1, 2, 3, 4, 5, 6, 7, 8, 9], 0⟩

private def readWrite : DiskOfd := ⟨true, true, false⟩

theorem positions_ok_lock : ∃ s : FileSystem (Fin 2), PositionsOk readWrite tenBytes s ∧
    s.shared.returned = [(0, .pread 2 5, .bytes [5, 6]), (1, .lock .wrlck 0 1, .range 0 1)] := by
  have hrun : (Transition.run (fileProperStep readWrite) (.init tenBytes)
      (.thread 0 (.call (.pread 2 5)) :: List.replicate 5 (.thread 0 .run) ++
        .thread 1 (.call (.lock .wrlck 0 1)) :: List.replicate 2 (.thread 1 .run))).map
          (fun s : FileSystem (Fin 2) => s.shared.returned) =
      some [(0, .pread 2 5, .bytes [5, 6]), (1, .lock .wrlck 0 1, .range 0 1)] := by
    decide +kernel
  obtain ⟨s, hs, heq⟩ := Option.map_eq_some_iff.1 hrun
  exact ⟨s, positions_ok ⟨_, hs⟩, heq⟩

/-- Thread 0 reads two bytes from the fifth on, and thread 1 asks for a lock on the byte at the position, which is 0.
It gets one on the byte at 7, where the `pread` has left the position for a while. -/
theorem lock_sees_borrowed : ∃ s : FileSystem (Fin 2), Reach (fileStep readWrite) (.init tenBytes) s ∧
    s.shared.returned = [(1, .lock .wrlck 0 1, .range 7 1), (0, .pread 2 5, .bytes [5, 6])] ∧
      ¬∃ order f, order.Perm s.shared.returned ∧
        Legal (fun f c r f' => FileCall.Whole readWrite f c r f') tenBytes order f := by
  have hrun : (Transition.run (fileStep readWrite) (.init tenBytes)
      (.thread 0 (.call (.pread 2 5)) :: List.replicate 3 (.thread 0 .run) ++
        .thread 1 (.call (.lock .wrlck 0 1)) :: List.replicate 2 (.thread 1 .run) ++
          List.replicate 2 (.thread 0 .run))).map (fun s : FileSystem (Fin 2) => s.shared.returned) =
      some [(1, .lock .wrlck 0 1, .range 7 1), (0, .pread 2 5, .bytes [5, 6])] := by
    decide +kernel
  obtain ⟨s, hs, heq⟩ := Option.map_eq_some_iff.1 hrun
  refine ⟨s, ⟨_, hs⟩, heq, ?_⟩
  rintro ⟨order, f, hperm, hlegal⟩
  rw [heq] at hperm
  -- neither call moves the position
  have hmade := hlegal.made (P := fun f => f.pos = 0) rfl fun e he x x' hx hwhole => by
    have hmem := hperm.mem_iff.1 he
    simp only [List.mem_cons, List.not_mem_nil, or_false] at hmem
    rcases hmem with rfl | rfl
    · exact (hwhole.pos_eq fun _ => rfl).trans hx
    · exact (hwhole.pos_eq fun _ => rfl).trans hx
  obtain ⟨x, x', hx, hwhole⟩ := hmade (1, .lock .wrlck 0 1, .range 7 1) (hperm.mem_iff.2 List.mem_cons_self)
  have hrange := hwhole.range_eq
  rw [hx] at hrange
  exact absurd hrange (by decide)

end runs

end Sppc.Windows
