import Sppc.Windows.FdRefs

/-!
# What a call that fails releases

A call on descriptors that fails has released the references that it has taken, and no others, unless it is a pipe
whose read end's fd names something else by the time the pipe closes it again.
-/

namespace Sppc.Windows

open Threads

variable {Tid : Type} [DecidableEq Tid]

/-- The description that a pipe has put into the table so far. -/
def FdThen.given : FdThen → List Nat
  | .ret | .pipeRead _ => []
  | .pipeWrite _ rd => [rd]

/-- The references that a call has still to release if it fails: `none` once it has succeeded. -/
def FdLoc.owes : FdLoc → Option (List Nat)
  | .out (.ok _) => none
  | .out (.error _) | .get _ _ | .close _ none => some []
  | .new _ _ k => some k.given
  | .install d _ _ k => some (d :: k.given)
  | .dup2 d _ | .setfd d _ _ => some [d]
  | .close _ (some (_, rd)) => some [rd]
  | .holding ds => some ds
  | .decrement d next => next.owes.map (d :: ·)
  | .closeHandle _ next | .free _ next => next.owes

/-- What a call has taken is what it has released and what it owes. -/
def FdLoc.Balanced (took released : List Nat) (l : FdLoc) : Prop :=
  ∀ ds, l.owes = some ds → took.Perm (ds ++ released)

/-- The close that ends a failed pipe finds what the pipe has put there. -/
def FdLoc.Proper (s : Files) : FdLoc → Prop
  | .close fd (some (_, rd)) => s.fdGet fd = some rd
  | _ => True

section balance

variable {h h' : FdState Tid} {l l' : FdLoc} {t : Tid} {i : FdInput} {d fd : Nat} {e : FdErr}

private theorem FdThen.failed_owes (k : FdThen) : (k.failed e).owes = some k.given := by cases k <;> rfl

/-- An installed description is owed only where it is the read end of a pipe that goes on. -/
private theorem FdThen.done_owes (k : FdThen) (d fd : Nat) :
    (k.done d fd).owes = none ∨ (k.done d fd).owes = some [d] ∧ k.given = [] := by
  cases k with
  | ret => exact Or.inl rfl
  | pipeRead w => exact Or.inr ⟨rfl, rfl⟩
  | pipeWrite rfd rd => exact Or.inl rfl

private theorem FdGot.found_owes (k : FdGot) (fd : Int) (d : Nat) :
    (k.found fd d).owes = none ∨ (k.found fd d).owes = some [d] := by
  cases k with
  | dup lowest c => exact Or.inr rfl
  | dup2 target =>
    rw [FdGot.found]
    split
    · exact Or.inr rfl
    · split
      · exact Or.inl rfl
      · exact Or.inr rfl
  | setfd c => exact Or.inr rfl

private theorem Files.closeLocked_eq (s : Files) (fd : Int) :
    s.closeLocked fd = (s.fdGet fd).map fun d => (d, s.set fd.toNat none false) := by
  unfold Files.closeLocked Files.fdGet
  split <;> rfl

/-- Each step keeps the balance of the call that makes it, where the close that ends a failed pipe finds its own. -/
private theorem fdAct_balanced (hb : l.Balanced (h.took t) (h.released t)) (hproper : l.Proper h.files)
    (hact : fdAct t i h l = some (h', l')) : l'.Balanced (h'.took t) (h'.released t) := by
  intro os howes
  cases l
  case out r =>
    have hbegin : (h.begin t).took t = [] ∧ (h.begin t).released t = [] :=
      ⟨Function.update_self _ _ _, Function.update_self _ _ _⟩
    cases i
    case pipe created =>
      cases created <;> cases hact <;> cases howes <;> rw [hbegin.1, hbegin.2] <;> exact List.Perm.refl _
    case setfd fd c others =>
      cases others <;> cases hact <;> cases howes <;> rw [hbegin.1, hbegin.2] <;> exact List.Perm.refl _
    all_goals first
      | cases hact; cases howes; rw [hbegin.1, hbegin.2]; exact List.Perm.refl _
      | cases hact
  case new handle c k =>
    have hown := hb _ rfl
    cases i with
    | mem ok =>
      cases ok <;> cases hact
      · rw [FdThen.failed_owes] at howes
        cases howes
        exact hown
      · cases howes
        simp only [FdState.take, Function.update_self]
        exact hown.cons _
    | _ => cases hact
  case get fd k =>
    have hown := hb _ rfl
    simp only [fdAct] at hact
    split at hact <;> cases hact
    · cases howes
      exact hown
    · rename_i d hget
      simp only [FdState.take, Function.update_self]
      rcases k.found_owes fd d with hnone | hsome
      · rw [hnone] at howes
        cases howes
      · rw [hsome] at howes
        cases howes
        exact hown.cons _
  case install d lowest c k =>
    have hown := hb _ rfl
    cases i with
    | mem realloc =>
      simp only [fdAct] at hact
      split at hact <;> cases hact
      · rename_i fd files hlocked
        rcases k.done_owes d fd with hnone | ⟨hsome, hgiven⟩
        · rw [hnone] at howes
          cases howes
        · rw [hsome] at howes
          cases howes
          rw [hgiven] at hown
          exact hown
      · rw [FdLoc.owes, FdThen.failed_owes] at howes
        cases howes
        exact hown
    | _ => cases hact
  case dup2 d target =>
    have hown := hb _ rfl
    cases i with
    | mem realloc =>
      simp only [fdAct] at hact
      split at hact <;> cases hact <;> cases howes
      exact hown
    | _ => cases hact
  case setfd d fd c =>
    cases hact
    cases howes
  case close fd pipe =>
    cases pipe with
    | none =>
      have hown := hb _ rfl
      simp only [fdAct] at hact
      split at hact <;> cases hact <;> cases howes
      exact hown
    | some r =>
      obtain ⟨e, rd⟩ := r
      have hown := hb _ rfl
      have hget : h.files.fdGet fd = some rd := hproper
      simp only [fdAct, Files.closeLocked_eq, hget, Option.map_some] at hact
      cases hact
      cases howes
      exact hown
  case holding ds =>
    have hown := hb _ rfl
    cases i with
    | get fd =>
      simp only [fdAct] at hact
      split at hact <;> cases hact <;> cases howes
      · exact hown
      · simp only [FdState.take, Function.update_self]
        exact hown.cons _
    | release d =>
      simp only [fdAct] at hact
      split at hact <;> cases hact
      rename_i hd
      cases howes
      exact hown.trans ((List.perm_cons_erase hd).append_right _)
    | leave r =>
      simp only [fdAct] at hact
      split at hact <;> cases hact
      rename_i hnil
      rw [hnil] at hown
      cases r <;> cases howes
      exact hown
    | _ => cases hact
  case decrement d next =>
    cases hact
    have hnext : next.owes = some os := by
      split at howes
      · exact howes
      · exact howes
    have hown := hb (d :: os) (by rw [FdLoc.owes, hnext]; rfl)
    simp only [Function.update_self]
    exact hown.trans List.perm_middle.symm
  case closeHandle d next =>
    cases hact
    exact hb os howes
  case free d next =>
    cases hact
    exact hb os howes

end balance

/-! ### Runs -/

section runs

variable {s s' : FdSystem Tid} {std : Nat → Handle} {calloc : Nat → Bool}

instance FdLoc.decidableProper (files : Files) (l : FdLoc) : Decidable (l.Proper files) := by
  unfold FdLoc.Proper
  split <;> infer_instance

/-- A step in which a pipe that fails closes nothing but the read end that it has opened. -/
def fdProperStep (s : FdSystem Tid) : FdEvent Tid → Option (FdSystem Tid)
  | .thread t i => if (s.loc t).Proper s.shared.files then fdStep s (.thread t i) else none
  | .env e => e.elim

private theorem fdProperStep_le {e : FdEvent Tid} (hstep : fdProperStep s e = some s') : fdStep s e = some s' := by
  cases e with
  | thread t i =>
    simp only [fdProperStep] at hstep
    split at hstep
    · exact hstep
    · cases hstep
  | env e => exact e.elim

/-- The calls of all threads balance. -/
def FdSystem.Balanced (s : FdSystem Tid) : Prop :=
  ∀ t, (s.loc t).Balanced (s.shared.took t) (s.shared.released t)

private theorem FdSystem.Balanced.step {e : FdEvent Tid} (hb : s.Balanced) (hstep : fdProperStep s e = some s') :
    FdSystem.Balanced s' := by
  cases e with
  | thread t i =>
    simp only [fdProperStep] at hstep
    split at hstep
    · rename_i hproper
      obtain ⟨h', l', hact, rfl⟩ := step_thread.1 hstep
      have hframe := fdAct_frame hact
      refine State.put_forall (P := fun u l => FdLoc.Balanced (h'.took u) (h'.released u) l) ?_ fun u hu => ?_
      · exact fdAct_balanced (hb t) hproper hact
      · rw [(hframe u hu).1, (hframe u hu).2]
        exact hb u
    · cases hstep
  | env e => exact e.elim

/-- What the references and the handles keep to in every state of a run. -/
structure FdOk [Fintype Tid] (s : FdSystem Tid) : Prop where
  refs : ∀ d, (s.shared.files.ofds d).refs = s.shared.files.names d + ∑ t, (s.loc t).held.count d
  once : ∀ d, s.shared.files.closed.count d ≤ 1
  last : ∀ d < s.shared.files.next, (s.shared.files.ofds d).refs = 0 ↔
    d ∈ s.shared.files.closed ∨ ∃ t, d ∈ (s.loc t).closing
  named : ∀ fd d, s.shared.files.ofdAt fd = some d → d ∉ s.shared.files.closed ∧ d ∉ s.shared.files.freed
  uses : ∀ t d, d ∈ (s.loc t).held ∨ d ∈ (s.loc t).closing → d ∉ s.shared.files.closed ∧ d ∉ s.shared.files.freed

variable [Fintype Tid]

omit [DecidableEq Tid] in
/-- A description that is in use, or is to be closed, has not been closed yet. -/
private theorem FdInv.open (hi : FdInv s) {d : Nat}
    (h : 0 < (s.shared.files.ofds d).refs ∨ 0 < s.total FdLoc.closing d) :
    d ∉ s.shared.files.closed ∧ d ∉ s.shared.files.freed := by
  have hclosed := hi.refs.closed d
  have hfreed := hi.refs.freed d
  have hended : s.shared.files.ended d ≤ 1 ∧ (0 < (s.shared.files.ofds d).refs → s.shared.files.ended d = 0) := by
    unfold Files.ended
    constructor
    · split <;> omega
    · intro hpos
      exact if_neg (by omega)
  have hzero : s.shared.files.closed.count d = 0 := by
    rcases h with h | h
    · have := hended.2 h
      omega
    · have := hended.1
      omega
  exact ⟨List.count_eq_zero.1 hzero, List.count_eq_zero.1 (by omega)⟩

private theorem FdInv.fdOk (hi : FdInv s) : FdOk s where
  refs := hi.refs.inv.counts
  once := by
    intro d
    have := hi.refs.closed d
    unfold Files.ended at this
    split at this <;> omega
  last := by
    intro d hd
    have hclosed := hi.refs.closed d
    constructor
    · intro hzero
      rw [Files.ended, if_pos ⟨hd, hzero⟩] at hclosed
      by_cases hin : d ∈ s.shared.files.closed
      · exact Or.inl hin
      · rw [List.count_eq_zero.2 hin] at hclosed
        exact Or.inr (FdSystem.exists_of_total_pos (by omega))
    · intro h
      by_contra hne
      rw [Files.ended, if_neg fun h => hne h.2] at hclosed
      rcases h with h | ⟨t, ht⟩
      · have := List.count_pos_iff.2 h
        omega
      · have := List.count_pos_iff.2 ht
        have := s.count_le_total FdLoc.closing t d
        omega
  named := fun _ _ hat => hi.open (Or.inl (hi.refs.inv.refs_pos hat))
  uses := by
    intro t d h
    refine hi.open (h.imp (fun h => ?_) fun h => ?_)
    · have := hi.refs.inv.counts d
      have := s.count_le_total FdLoc.held t d
      have := List.count_pos_iff.2 h
      omega
    · have := s.count_le_total FdLoc.closing t d
      have := List.count_pos_iff.2 h
      omega

/-- In every run the references are those of the entries and of the calls, and each handle is closed once.  Where
every pipe that fails finds the read end that it has opened, a call that fails has released what it has taken. -/
theorem fd_ok (h : Transition.Reach fdStep (.init std calloc) s) :
    FdOk s ∧ (Transition.Reach fdProperStep (.init std calloc) s →
      ∀ t e, s.loc t = .out (.error e) → (s.shared.took t).Perm (s.shared.released t)) := by
  constructor
  · exact (h.invariant (P := FdInv) (fun _ _ _ hi hstep => hi.step hstep) (.init std calloc)).fdOk
  · intro hproper t e hloc
    have hb := hproper.invariant (P := FdSystem.Balanced) (fun _ _ _ hb hstep => hb.step hstep) fun t ds hds => by
      cases hds
    exact hb t [] (by rw [hloc]; rfl)

theorem fd_ok_pipe : ∃ s : FdSystem (Fin 2), s.loc 0 = .out (.error .ENOMEM) ∧ FdOk s ∧
    (s.shared.took 0).Perm (s.shared.released 0) ∧ s.shared.files.closed = [0] := by
  have hrun : (Transition.run fdProperStep (.init (fun _ => .null) fun _ => true)
      ([.thread 0 (.pipe (.ok (.object 1, .object 2))), .thread 0 (.mem true), .thread 0 (.mem true),
        .thread 0 (.mem false)] ++ List.replicate 4 (.thread 0 .run))).map
          (fun s : FdSystem (Fin 2) => (decide (s.loc 0 = .out (.error .ENOMEM)), s.shared.files.closed)) =
      some (true, [0]) := by
    decide +kernel
  obtain ⟨s, hs, heq⟩ := Option.map_eq_some_iff.1 hrun
  simp only [Prod.mk.injEq, decide_eq_true_eq] at heq
  obtain ⟨hok, hbalanced⟩ := fd_ok (Transition.Reach.mono fdProperStep_le ⟨_, hs⟩)
  exact ⟨s, heq.1, hok, hbalanced ⟨_, hs⟩ 0 _ heq.1, heq.2⟩

/-- Thread 0 opens the read end of a pipe at the fd 1.  Thread 1 then puts its description 0 there, and there is no
memory for the write end: the pipe fails, and has released a reference to the description 0 where it took one to its
own. -/
theorem pipe_closes_other : ∃ s : FdSystem (Fin 2), Transition.Reach fdStep (.init (fun _ => .null) fun _ => true) s ∧
    s.loc 0 = .out (.error .ENOMEM) ∧ s.shared.took 0 = [1] ∧ s.shared.released 0 = [0] ∧
      s.loc 1 = .out (.ok []) ∧ s.shared.files.ofdAt 1 = none := by
  have hrun : (Transition.run fdStep (.init (fun _ => .null) fun _ => true)
      [.thread 1 (.adopt (.object 0) false), .thread 1 (.mem true), .thread 1 (.mem true),
        .thread 0 (.pipe (.ok (.object 1, .object 2))), .thread 0 (.mem true), .thread 0 (.mem true),
        .thread 1 (.dup2 0 1), .thread 1 .run, .thread 1 (.mem true), .thread 1 .run, .thread 1 .run, .thread 1 .run,
        .thread 0 (.mem false), .thread 0 .run, .thread 0 .run]).map
          (fun s : FdSystem (Fin 2) => ((s.loc 0, s.loc 1), s.shared.took 0, s.shared.released 0,
            s.shared.files.ofdAt 1)) =
      some ((.out (.error .ENOMEM), .out (.ok [])), [1], [0], none) := by
    decide +kernel
  obtain ⟨s, hs, heq⟩ := Option.map_eq_some_iff.1 hrun
  simp only [Prod.mk.injEq] at heq
  obtain ⟨⟨hloc0, hloc1⟩, htook, hreleased, hat⟩ := heq
  exact ⟨s, ⟨_, hs⟩, hloc0, htook, hreleased, hloc1, hat⟩

end runs

end Sppc.Windows
