import Sppc.Windows.FdCalls
import Sppc.Windows.FdMap

/-!
# The references of the calls on descriptors

Each step of a call keeps the references in balance, whatever the other calls hold, and leaves every description that
has lost its last reference to be closed and freed once.
-/

namespace Sppc.Windows

open Threads

variable {Tid : Type} [DecidableEq Tid]

/-! ### The references of a call -/

/-- The references that a call holds. -/
def FdLoc.held : FdLoc → List Nat
  | .install d _ _ _ | .dup2 d _ | .setfd d _ _ => [d]
  | .holding ds => ds
  | .decrement d next => d :: next.held
  | .closeHandle _ next | .free _ next => next.held
  | _ => []

/-- The descriptions whose handles a call is about to close. -/
def FdLoc.closing : FdLoc → List Nat
  | .closeHandle d next => d :: next.closing
  | .decrement _ next | .free _ next => next.closing
  | _ => []

/-- The descriptions that a call has closed and is about to free. -/
def FdLoc.freeing : FdLoc → List Nat
  | .free d next => d :: next.freeing
  | .decrement _ next | .closeHandle _ next => next.freeing
  | _ => []

/-- 1 for a description that has lost its last reference. -/
def Files.ended (s : Files) (d : Nat) : Nat := if d < s.next ∧ (s.ofds d).refs = 0 then 1 else 0

/-- How often a number is in a list. -/
def occurs (ds : List Nat) : Nat → Nat := fun d => ds.count d

/-- The references balance, and every description that has lost its last reference is closed and freed once. -/
structure Files.Refs (s : Files) (held closing freeing : Nat → Nat) : Prop where
  inv : s.Inv held
  closed : ∀ d, closing d + s.closed.count d = s.ended d
  freed : ∀ d, freeing d + s.freed.count d = s.closed.count d

/-- What holds of a call before its next step. -/
def FdLoc.Ok : FdLoc → Prop
  | .dup2 _ target => target < fdMax
  | .decrement _ next | .closeHandle _ next | .free _ next => next.Ok
  | _ => True

section calls

variable {k : FdThen} {d fd x : Nat} {ds : List Nat} {e : FdErr}

private theorem add_occurs_nil (held : Nat → Nat) : held + occurs [] = held := rfl

private theorem add_occurs_cons (held : Nat → Nat) :
    held + occurs (d :: ds) = held + occurs ds + Files.one (some d) := by
  funext x
  simp only [occurs, Files.one, List.count_cons, Pi.add_apply, Option.some.injEq, beq_iff_eq]
  omega

private theorem occurs_erase (hd : d ∈ ds) (held : Nat → Nat) :
    held + occurs ds = held + occurs (ds.erase d) + Files.one (some d) := by
  rw [← add_occurs_cons]
  funext x
  simp only [occurs, Pi.add_apply, (List.perm_cons_erase hd).count_eq]

@[simp] theorem FdThen.failed_held : (k.failed e).held = [] := by cases k <;> rfl

@[simp] theorem FdThen.failed_closing : (k.failed e).closing = [] := by cases k <;> rfl

@[simp] theorem FdThen.failed_freeing : (k.failed e).freeing = [] := by cases k <;> rfl

private theorem FdThen.failed_ok : (k.failed e).Ok := by cases k <;> trivial

@[simp] theorem FdThen.done_held : (k.done d fd).held = [] := by cases k <;> rfl

@[simp] theorem FdThen.done_closing : (k.done d fd).closing = [] := by cases k <;> rfl

@[simp] theorem FdThen.done_freeing : (k.done d fd).freeing = [] := by cases k <;> rfl

private theorem FdThen.done_ok : (k.done d fd).Ok := by cases k <;> trivial

/-- Whatever a call does with the description that it has found, it holds that one. -/
private theorem FdGot.found_spec (k : FdGot) (fd : Int) (d : Nat) :
    (k.found fd d).held = [d] ∧ (k.found fd d).closing = [] ∧ (k.found fd d).freeing = [] ∧ (k.found fd d).Ok := by
  cases k with
  | dup lowest c => exact ⟨rfl, rfl, rfl, trivial⟩
  | dup2 target =>
    rw [FdGot.found]
    split
    · exact ⟨rfl, rfl, rfl, trivial⟩
    · split
      · exact ⟨rfl, rfl, rfl, trivial⟩
      · refine ⟨rfl, rfl, rfl, ?_⟩
        show target.toNat < fdMax
        omega
  | setfd c => exact ⟨rfl, rfl, rfl, trivial⟩

end calls

namespace Files

variable {s s' : Files} {held closing freeing : Nat → Nat} {d fd : Nat} {o : Option Nat} {c : Bool}

/-- A step that ends no description. -/
private theorem Refs.quiet {held' : Nat → Nat} (hr : s.Refs held closing freeing) (hinv : s'.Inv held')
    (hended : ∀ d, s'.ended d = s.ended d) (hclosed : s'.closed = s.closed) (hfreed : s'.freed = s.freed) :
    s'.Refs held' closing freeing where
  inv := hinv
  closed := fun d => by rw [hended, hclosed, hr.closed]
  freed := fun d => by rw [hclosed, hfreed, hr.freed]

private theorem Refs.retain (hr : s.Refs held closing freeing) (hd : 0 < (s.ofds d).refs) :
    (s.ofdRetain d).Refs (held + one (some d)) closing freeing := by
  refine hr.quiet (hr.inv.retain hd) (fun x => ?_) rfl rfl
  unfold ended
  by_cases hx : x = d
  · subst hx
    rw [if_neg (by simp [ofdRetain]), if_neg (by omega)]
  · simp only [ofdRetain, Function.update_of_ne hx]

theorem Refs.get {fd : Int} (hr : s.Refs held closing freeing) (h : s.fdGet fd = some d) :
    (s.ofdRetain d).Refs (held + one (some d)) closing freeing := by
  unfold fdGet at h
  split at h
  · cases h
  · exact hr.retain (hr.inv.refs_pos h)

theorem Refs.new (hr : s.Refs held closing freeing) (handle : Handle) :
    (s.ofdNew handle).Refs (held + one (some s.next)) closing freeing := by
  refine hr.quiet (hr.inv.new handle) (fun x => ?_) rfl rfl
  unfold ended
  by_cases hx : x = s.next
  · subst hx
    rw [if_neg (by simp [ofdNew]), if_neg (by omega)]
  · simp only [ofdNew, Function.update_of_ne hx]
    by_cases hlt : x < s.next
    · simp only [hlt, show x < s.next + 1 by omega]
    · simp only [hlt, show ¬x < s.next + 1 by omega]

theorem Refs.install {lowest : Nat} {realloc : Bool} (hr : s.Refs (held + one (some d)) closing freeing)
    (h : s.installLocked d lowest c realloc = .ok (fd, s')) : s'.Refs held closing freeing := by
  obtain ⟨hleast, k, hlt, hmax, rfl⟩ := installFrom_ok hr.inv.pos hr.inv.le (Nat.le_refl _) h
  have hset := (hr.inv.grown hmax).set (c := c) hlt
  rw [ofdAt_grown, map_eq_none.1 hleast.free, add_one_none] at hset
  exact hr.quiet hset (fun _ => rfl) rfl rfl

theorem Refs.dup2 {target : Nat} {realloc : Bool} (hr : s.Refs (held + one (some d)) closing freeing)
    (hlt : target < fdMax) (h : s.dup2Locked d target realloc = some (o, s')) :
    s'.Refs (held + one o) closing freeing := by
  obtain ⟨t, hreserve, heq⟩ := Option.map_eq_some_iff.1 h
  cases heq
  obtain ⟨k, rfl, hfd, hmax⟩ := reserve_eq_some hr.inv.pos hr.inv.le hlt hreserve
  exact hr.quiet ((hr.inv.grown hmax).set hfd) (fun _ => rfl) rfl rfl

theorem Refs.close {fd : Int} (hr : s.Refs held closing freeing) (h : s.closeLocked fd = some (d, s')) :
    s'.Refs (held + one (some d)) closing freeing := by
  unfold closeLocked at h
  split at h
  · cases h
  · obtain ⟨old, hat, heq⟩ := Option.map_eq_some_iff.1 h
    cases heq
    have hset := (add_one_none.symm ▸ hr.inv : s.Inv (held + one none)).set (c := false) (lt_of_ofdAt hat)
    rw [hat] at hset
    exact hr.quiet hset (fun _ => rfl) rfl rfl

theorem Refs.setfd (hr : s.Refs (held + one (some d)) closing freeing) :
    (s.setfdLocked fd d c).Refs (held + one (some d)) closing freeing := by
  unfold setfdLocked
  split
  · rename_i hat
    have hentry := hr.inv.entry (c := c) (lt_of_ofdAt hat)
    rw [hat] at hentry
    exact hr.quiet hentry (fun _ => rfl) rfl rfl
  · exact hr

/-- The last reference to a description leaves its handle to be closed. -/
theorem Refs.decrement (hr : s.Refs (held + one (some d)) closing freeing) :
    (s.ofdDecrement d).Refs held
      (if ((s.ofdDecrement d).ofds d).refs ≠ 0 then closing else closing + one (some d)) freeing := by
  have hcounts := hr.inv.counts d
  simp only [Pi.add_apply, one_self] at hcounts
  have hnext : d < s.next := by
    by_contra hge
    have := hr.inv.fresh d (by omega)
    omega
  refine ⟨hr.inv.decrement, fun x => ?_, hr.freed⟩
  have hclosed := hr.closed x
  by_cases hx : x = d
  · subst hx
    have hbefore : s.ended x = 0 := if_neg (by omega)
    split
    · rename_i hne
      have hafter : (s.ofdDecrement x).ended x = 0 := if_neg fun h => hne h.2
      rw [hafter]
      exact hbefore ▸ hclosed
    · rename_i hzero
      have hafter : (s.ofdDecrement x).ended x = 1 := if_pos ⟨hnext, not_not.1 hzero⟩
      rw [hafter, Pi.add_apply, one_self]
      show closing x + 1 + s.closed.count x = 1
      omega
  · have hsame : (s.ofdDecrement d).ended x = s.ended x := by
      unfold ended
      simp only [ofdDecrement, Function.update_of_ne hx]
    rw [hsame]
    split
    · exact hclosed
    · rw [Pi.add_apply, one_of_ne hx]
      exact hclosed

theorem Refs.closeHandle (hr : s.Refs held (closing + one (some d)) freeing) :
    (s.ofdClose d).Refs held closing (freeing + one (some d)) := by
  have hcount (x : Nat) : (s.ofdClose d).closed.count x = s.closed.count x + one (some d) x := by
    simp only [ofdClose, List.count_cons, one, Option.some.injEq, beq_iff_eq]
  refine ⟨⟨hr.inv.pos, hr.inv.le, hr.inv.counts, hr.inv.fresh⟩, fun x => ?_, fun x => ?_⟩
  · have := hr.closed x
    rw [hcount]
    simp only [Pi.add_apply] at this
    show _ = s.ended x
    omega
  · have := hr.freed x
    rw [hcount, Pi.add_apply]
    show _ + _ + s.freed.count x = _
    omega

theorem Refs.free (hr : s.Refs held closing (freeing + one (some d))) : (s.ofdFree d).Refs held closing freeing := by
  refine ⟨⟨hr.inv.pos, hr.inv.le, hr.inv.counts, hr.inv.fresh⟩, hr.closed, fun x => ?_⟩
  have hcount : (s.ofdFree d).freed.count x = s.freed.count x + one (some d) x := by
    simp only [ofdFree, List.count_cons, one, Option.some.injEq, beq_iff_eq]
  have := hr.freed x
  rw [hcount]
  simp only [Pi.add_apply] at this
  show _ = s.closed.count x
  omega

end Files

section act

variable {h h' : FdState Tid} {l l' : FdLoc} {t : Tid} {i : FdInput} {held closing freeing : Nat → Nat}

/-- Each step of a call keeps the balance, whatever the others hold. -/
private theorem fdAct_refs
    (hr : h.files.Refs (held + occurs l.held) (closing + occurs l.closing) (freeing + occurs l.freeing)) (hok : l.Ok)
    (hact : fdAct t i h l = some (h', l')) :
    h'.files.Refs (held + occurs l'.held) (closing + occurs l'.closing) (freeing + occurs l'.freeing) ∧ l'.Ok := by
  cases l
  case out r =>
    cases i
    case pipe created =>
      cases created <;> cases hact <;> exact ⟨hr, trivial⟩
    case setfd fd c others =>
      cases hact
      cases others <;> exact ⟨hr, trivial⟩
    all_goals first | cases hact; exact ⟨hr, trivial⟩ | cases hact
  all_goals simp only [FdLoc.held, FdLoc.closing, FdLoc.freeing, add_occurs_nil, add_occurs_cons] at hr
  case new handle c k =>
    cases i with
    | mem ok =>
      cases ok <;> cases hact
      · simp only [FdThen.failed_held, FdThen.failed_closing, FdThen.failed_freeing, add_occurs_nil]
        exact ⟨hr, FdThen.failed_ok⟩
      · simp only [FdLoc.held, FdLoc.closing, FdLoc.freeing, add_occurs_nil, add_occurs_cons]
        exact ⟨hr.new handle, trivial⟩
    | _ => cases hact
  case get fd k =>
    simp only [fdAct] at hact
    split at hact <;> cases hact
    · exact ⟨hr, trivial⟩
    · rename_i d hget
      obtain ⟨hheld, hclosing, hfreeing, hok⟩ := k.found_spec fd d
      simp only [hheld, hclosing, hfreeing, add_occurs_nil, add_occurs_cons]
      exact ⟨hr.get hget, hok⟩
  case install d lowest c k =>
    cases i with
    | mem realloc =>
      simp only [fdAct] at hact
      split at hact <;> cases hact
      · rename_i hlocked
        simp only [FdThen.done_held, FdThen.done_closing, FdThen.done_freeing, add_occurs_nil]
        exact ⟨hr.install hlocked, FdThen.done_ok⟩
      · simp only [FdLoc.held, FdLoc.closing, FdLoc.freeing, FdThen.failed_held, FdThen.failed_closing,
          FdThen.failed_freeing, add_occurs_nil, add_occurs_cons]
        exact ⟨hr, FdThen.failed_ok⟩
    | _ => cases hact
  case dup2 d target =>
    cases i with
    | mem realloc =>
      simp only [fdAct] at hact
      split at hact <;> cases hact
      all_goals simp only [FdLoc.held, FdLoc.closing, FdLoc.freeing, add_occurs_nil, add_occurs_cons]
      · exact ⟨hr, trivial⟩
      · rename_i hlocked
        have := hr.dup2 hok hlocked
        rw [Files.add_one_none] at this
        exact ⟨this, trivial⟩
      · rename_i hlocked
        exact ⟨hr.dup2 hok hlocked, trivial⟩
    | _ => cases hact
  case setfd d fd c =>
    cases hact
    simp only [FdLoc.held, FdLoc.closing, FdLoc.freeing, add_occurs_nil, add_occurs_cons]
    exact ⟨hr.setfd, trivial⟩
  case close fd pipe =>
    simp only [fdAct] at hact
    split at hact <;> cases hact
    · exact ⟨hr, trivial⟩
    · rename_i hlocked
      simp only [FdLoc.held, FdLoc.closing, FdLoc.freeing, add_occurs_nil, add_occurs_cons]
      exact ⟨hr.close hlocked, trivial⟩
  case holding ds =>
    cases i with
    | get fd =>
      simp only [fdAct] at hact
      split at hact <;> cases hact
      all_goals simp only [FdLoc.held, FdLoc.closing, FdLoc.freeing, add_occurs_nil, add_occurs_cons]
      · exact ⟨hr, trivial⟩
      · rename_i d hget
        exact ⟨hr.get hget, trivial⟩
    | release d =>
      simp only [fdAct] at hact
      split at hact <;> cases hact
      rename_i hd
      rw [occurs_erase hd] at hr
      simp only [FdLoc.held, FdLoc.closing, FdLoc.freeing, add_occurs_nil, add_occurs_cons]
      exact ⟨hr, trivial⟩
    | leave r =>
      simp only [fdAct] at hact
      split at hact <;> cases hact
      rename_i hnil
      rw [hnil] at hr
      exact ⟨hr, trivial⟩
    | _ => cases hact
  case decrement d next =>
    cases hact
    have hdec := hr.decrement
    split
    · rename_i hne
      rw [if_pos hne] at hdec
      exact ⟨hdec, hok⟩
    · rename_i hzero
      rw [if_neg hzero] at hdec
      simp only [FdLoc.held, FdLoc.closing, FdLoc.freeing, add_occurs_cons]
      exact ⟨hdec, hok⟩
  case closeHandle d next =>
    cases hact
    simp only [FdLoc.held, FdLoc.closing, FdLoc.freeing, add_occurs_cons]
    exact ⟨hr.closeHandle, hok⟩
  case free d next =>
    cases hact
    exact ⟨hr.free, hok⟩

/-- A step changes what the thread that makes it has taken and released, and no more. -/
theorem fdAct_frame (hact : fdAct t i h l = some (h', l')) :
    ∀ u ≠ t, h'.took u = h.took u ∧ h'.released u = h.released u := by
  intro u hu
  cases l
  case out r =>
    cases i
    case pipe created =>
      cases created <;> cases hact <;> exact ⟨Function.update_of_ne hu _ _, Function.update_of_ne hu _ _⟩
    all_goals first | cases hact; exact ⟨Function.update_of_ne hu _ _, Function.update_of_ne hu _ _⟩ | cases hact
  case new handle c k =>
    cases i with
    | mem ok =>
      cases ok <;> cases hact
      · exact ⟨rfl, rfl⟩
      · exact ⟨Function.update_of_ne hu _ _, rfl⟩
    | _ => cases hact
  case get fd k =>
    simp only [fdAct] at hact
    split at hact <;> cases hact
    · exact ⟨rfl, rfl⟩
    · exact ⟨Function.update_of_ne hu _ _, rfl⟩
  case install d lowest c k =>
    cases i with
    | mem realloc =>
      simp only [fdAct] at hact
      split at hact <;> cases hact <;> exact ⟨rfl, rfl⟩
    | _ => cases hact
  case dup2 d target =>
    cases i with
    | mem realloc =>
      simp only [fdAct] at hact
      split at hact <;> cases hact <;> exact ⟨rfl, rfl⟩
    | _ => cases hact
  case close fd pipe =>
    simp only [fdAct] at hact
    split at hact <;> cases hact <;> exact ⟨rfl, rfl⟩
  case holding ds =>
    cases i with
    | get fd =>
      simp only [fdAct] at hact
      split at hact <;> cases hact
      · exact ⟨rfl, rfl⟩
      · exact ⟨Function.update_of_ne hu _ _, rfl⟩
    | release d =>
      simp only [fdAct] at hact
      split at hact <;> cases hact
      exact ⟨rfl, rfl⟩
    | leave r =>
      simp only [fdAct] at hact
      split at hact <;> cases hact
      exact ⟨rfl, rfl⟩
    | _ => cases hact
  case decrement d next =>
    cases hact
    exact ⟨rfl, Function.update_of_ne hu _ _⟩
  all_goals
    cases hact
    exact ⟨rfl, rfl⟩

end act

/-! ### All threads together -/

variable [Fintype Tid]

/-- How often a description is in the lists `f` of all threads. -/
def FdSystem.total (f : FdLoc → List Nat) (s : FdSystem Tid) : Nat → Nat := fun d => ∑ t, (f (s.loc t)).count d

/-- The same for all threads but `t`. -/
def FdSystem.others (f : FdLoc → List Nat) (s : FdSystem Tid) (t : Tid) : Nat → Nat :=
  fun d => ∑ u ∈ Finset.univ.erase t, (f (s.loc u)).count d

/-- The references of the table and of all calls balance. -/
structure FdInv (s : FdSystem Tid) : Prop where
  refs : s.shared.files.Refs (s.total FdLoc.held) (s.total FdLoc.closing) (s.total FdLoc.freeing)
  ok : ∀ t, (s.loc t).Ok

section system

variable {s s' : FdSystem Tid} {t : Tid} {h : FdState Tid} {l : FdLoc}

private theorem FdSystem.total_eq (f : FdLoc → List Nat) (s : FdSystem Tid) (t : Tid) :
    s.total f = s.others f t + occurs (f (s.loc t)) := by
  funext d
  exact (Finset.sum_erase_add _ _ (Finset.mem_univ t)).symm

private theorem FdSystem.total_put (f : FdLoc → List Nat) (s : FdSystem Tid) (t : Tid) :
    FdSystem.total f (s.put t h l) = s.others f t + occurs (f l) := by
  funext d
  exact State.sum_put (fun l => (f l).count d) s t h l

theorem FdSystem.count_le_total (f : FdLoc → List Nat) (s : FdSystem Tid) (t : Tid) (d : Nat) :
    (f (s.loc t)).count d ≤ s.total f d := by
  rw [s.total_eq f t]
  exact Nat.le_add_left _ _

omit [DecidableEq Tid] in
theorem FdSystem.exists_of_total_pos {f : FdLoc → List Nat} {d : Nat} (h : 0 < s.total f d) :
    ∃ t, d ∈ f (s.loc t) := by
  obtain ⟨t, -, ht⟩ := Finset.exists_ne_zero_of_sum_ne_zero (Nat.ne_of_gt h)
  exact ⟨t, List.count_pos_iff.1 (Nat.pos_of_ne_zero ht)⟩

theorem FdInv.step {e : FdEvent Tid} (hi : FdInv s) (hstep : fdStep s e = some s') : FdInv s' := by
  cases e with
  | thread t i =>
    obtain ⟨h', l', hact, rfl⟩ := step_thread.1 hstep
    have hr := hi.refs
    rw [s.total_eq FdLoc.held t, s.total_eq FdLoc.closing t, s.total_eq FdLoc.freeing t] at hr
    obtain ⟨hr', hok'⟩ := fdAct_refs hr (hi.ok t) hact
    refine ⟨?_, State.put_forall (P := fun _ l => FdLoc.Ok l) hok' fun u _ => hi.ok u⟩
    rw [FdSystem.total_put, FdSystem.total_put, FdSystem.total_put]
    exact hr'
  | env e => exact e.elim

end system

/-! ### The start -/

namespace Files

variable {s : Files} {fd : Nat} {calloc : Bool}

/-- No description has lost its last reference. -/
structure Unended (s : Files) : Prop where
  refs : ∀ d < s.next, 0 < (s.ofds d).refs
  closed : s.closed = []
  freed : s.freed = []

private theorem Unended.initStd (hs : s.Unended) : (s.initStd fd calloc).Unended := by
  unfold Files.initStd
  simp only
  split
  · exact hs
  · split
    · rename_i d hfind
      refine ⟨fun x hx => ?_, hs.closed, hs.freed⟩
      have := hs.refs x hx
      by_cases hxd : x = d
      · subst hxd
        simp [ofdRetain]
      · simp only [ofdRetain, Function.update_of_ne hxd]
        exact this
    · split
      · refine ⟨fun x hx => ?_, hs.closed, hs.freed⟩
        have hx : x < s.next + 1 := hx
        by_cases hxd : x = s.next
        · subst hxd
          simp [ofdNew]
        · simp only [ofdNew, Function.update_of_ne hxd]
          exact hs.refs x (by omega)
      · exact hs

theorem Unended.init (std : Nat → Handle) (calloc : Nat → Bool) : (Files.init std calloc).Unended := by
  have hempty : Unended ⟨List.replicate 16 .free, fun _ => ⟨0, .null⟩, 0, std, [], []⟩ :=
    ⟨fun d hd => absurd hd (Nat.not_lt_zero d), rfl, rfl⟩
  exact hempty.initStd.initStd.initStd

end Files

omit [DecidableEq Tid] in
theorem FdInv.init (std : Nat → Handle) (calloc : Nat → Bool) : FdInv (FdSystem.init std calloc : FdSystem Tid) := by
  have hun := Files.Unended.init std calloc
  have hzero (f : FdLoc → List Nat) (hf : f (.out (.ok [])) = []) :
      FdSystem.total f (FdSystem.init std calloc : FdSystem Tid) = 0 := by
    funext d
    refine Finset.sum_eq_zero fun t _ => ?_
    show (f (.out (.ok []))).count d = 0
    rw [hf]
    rfl
  refine ⟨?_, fun _ => trivial⟩
  rw [hzero FdLoc.held rfl, hzero FdLoc.closing rfl, hzero FdLoc.freeing rfl]
  refine ⟨(Files.Settled.init std calloc).inv, fun d => ?_, fun d => ?_⟩
  · have hend : (Files.init std calloc).ended d = 0 := by
      refine if_neg fun h => ?_
      have := hun.refs d h.1
      omega
    show 0 + (Files.init std calloc).closed.count d = (Files.init std calloc).ended d
    rw [hun.closed, hend]
    rfl
  · show 0 + (Files.init std calloc).freed.count d = (Files.init std calloc).closed.count d
    rw [hun.closed, hun.freed]
    rfl

end Sppc.Windows
