import Sppc.Windows.Joins

/-!
# References to a thread's block

The thread has one reference until it lets go of it, and the join that is owed another, which goes to the call that
takes it.  Whoever lets go last closes the handle and frees the block.
-/

namespace Sppc.Windows

open Threads

variable {User Val : Type}

/-! ### The two references -/

/-- The party has a reference to the block. -/
def ThreadLoc.holds : ThreadLoc Val → Bool
  | .start | .running | .store _ | .destructors | .wait _ | .read _ | .release _ => true
  | _ => false

/-- The party has let go of the last reference. -/
def ThreadLoc.closing : ThreadLoc Val → Bool
  | .close _ | .free _ => true
  | _ => false

/-- The handle is closed, and the block is still to be freed. -/
def ThreadLoc.freeing : ThreadLoc Val → Bool
  | .free _ => true
  | _ => false

/-- The references that `P`, `Q` and the join that is `owed` have, and the handle. -/
structure RefsOk (owed : Bool) (P Q : ThreadLoc Val) (refs : Nat) (opened : Bool) (closes : Nat) : Prop where
  count : refs = P.holds.toNat + Q.holds.toNat + owed.toNat
  last : refs = 0 ↔ P.closing = true ∨ Q.closing = true
  apart : ¬(P.closing = true ∧ Q.closing = true)
  opened : opened = !(P.freeing || Q.freeing)
  closes : closes = (P.freeing || Q.freeing).toNat

section refs

variable {owed opened : Bool} {P P' Q : ThreadLoc Val} {refs closes : Nat} {r : ThreadRet Val}

theorem RefsOk.symm (hr : RefsOk owed P Q refs opened closes) : RefsOk owed Q P refs opened closes where
  count := by rw [hr.count, Nat.add_comm P.holds.toNat]
  last := hr.last.trans or_comm
  apart h := hr.apart h.symm
  opened := by rw [hr.opened, Bool.or_comm]
  closes := by rw [hr.closes, Bool.or_comm]

/-- A party that goes on with its reference. -/
private theorem RefsOk.move (hr : RefsOk owed P Q refs opened closes) (hholds : P.holds = P'.holds)
    (hclosing : P.closing = P'.closing) (hfreeing : P.freeing = P'.freeing) :
    RefsOk owed P' Q refs opened closes := by
  obtain ⟨h1, h2, h3, h4, h5⟩ := hr
  rw [hholds] at h1
  rw [hclosing] at h2 h3
  rw [hfreeing] at h4 h5
  exact ⟨h1, h2, h3, h4, h5⟩

private theorem RefsOk.move_right {Q' : ThreadLoc Val} (hr : RefsOk owed P Q refs opened closes)
    (hholds : Q.holds = Q'.holds) (hclosing : Q.closing = Q'.closing) (hfreeing : Q.freeing = Q'.freeing) :
    RefsOk owed P Q' refs opened closes :=
  (hr.symm.move hholds hclosing hfreeing).symm

/-- The join that is owed goes to a call. -/
private theorem RefsOk.take (hr : RefsOk true P (.out none) refs opened closes) (hholds : Q.holds = true)
    (hclosing : Q.closing = false) (hfreeing : Q.freeing = false) : RefsOk false P Q refs opened closes := by
  obtain ⟨h1, h2, h3, h4, h5⟩ := hr
  refine ⟨?_, ?_, ?_, ?_, ?_⟩
  · rw [h1, hholds]
    simp [ThreadLoc.holds]
  · rw [h2, hclosing]
    simp [ThreadLoc.closing]
  · rw [hclosing]
    simp
  · rw [h4, hfreeing]
    simp [ThreadLoc.freeing]
  · rw [h5, hfreeing]
    simp [ThreadLoc.freeing]

/-- A party that has a reference lets go of it. -/
private theorem RefsOk.release (hr : RefsOk owed (.release r) Q refs opened closes) :
    (refs - 1 ≠ 0 → ∀ x, RefsOk owed (.out x) Q (refs - 1) opened closes) ∧
    (refs - 1 = 0 → RefsOk owed (.close r) Q (refs - 1) opened closes) := by
  have hcount : refs = 1 + Q.holds.toNat + owed.toNat := hr.count
  have hQ : Q.closing = false := by
    rw [Bool.eq_false_iff]
    intro h
    have := hr.last.2 (Or.inr h)
    omega
  constructor
  · intro hne x
    refine ⟨?_, ⟨fun h => absurd h hne, ?_⟩, (fun h => nomatch h.1), hr.opened, hr.closes⟩
    · change refs - 1 = 0 + Q.holds.toNat + owed.toNat
      omega
    · rintro (h | h)
      · exact nomatch h
      · exact nomatch hQ.symm.trans h
  · intro heq
    refine ⟨?_, ⟨fun _ => Or.inl rfl, fun _ => heq⟩, (fun h => nomatch hQ.symm.trans h.2), hr.opened, hr.closes⟩
    change refs - 1 = 0 + Q.holds.toNat + owed.toNat
    omega

/-- The party that has let go of the last reference is the only one left. -/
private theorem RefsOk.alone (hr : RefsOk owed P Q refs opened closes) (hP : P.closing = true) :
    owed = false ∧ P.holds = false ∧ Q.holds = false ∧ Q.closing = false ∧ Q.freeing = false := by
  have hQ : Q.closing = false := Bool.eq_false_iff.2 fun h => hr.apart ⟨hP, h⟩
  have h0 := hr.last.2 (Or.inl hP)
  have h1 := hr.count
  refine ⟨?_, ?_, ?_, hQ, ?_⟩
  · cases owed
    · rfl
    · rw [h0, Bool.toNat_true] at h1
      omega
  · cases hP' : P.holds
    · rfl
    · rw [h0, hP', Bool.toNat_true] at h1
      omega
  · cases hQ' : Q.holds
    · rfl
    · rw [h0, hQ', Bool.toNat_true] at h1
      omega
  · cases Q <;> simp_all [ThreadLoc.closing, ThreadLoc.freeing]

/-- While a party has a reference, the handle is open. -/
private theorem RefsOk.opened_of_holds (hr : RefsOk owed P Q refs opened closes) (hQ : Q.holds = true) :
    opened = true := by
  have hne : refs ≠ 0 := by
    rw [hr.count, hQ, Bool.toNat_true]
    omega
  have hnot {L : ThreadLoc Val} (hL : L.closing ≠ true) : L.freeing = false := by
    cases L <;> first | rfl | exact absurd rfl hL
  rw [hr.opened, hnot fun h => hne (hr.last.2 (Or.inl h)), hnot fun h => hne (hr.last.2 (Or.inr h))]
  rfl

/-- It closes the handle. -/
private theorem RefsOk.close (hr : RefsOk owed (.close r) Q refs opened closes) :
    opened = true ∧ RefsOk owed (.free r) Q refs false (closes + 1) := by
  obtain ⟨-, -, -, -, hfreeing⟩ := hr.alone rfl
  obtain ⟨h1, h2, h3, h4, h5⟩ := hr
  rw [hfreeing] at h4 h5
  exact ⟨h4, h1, h2, h3, rfl, by rw [h5]; rfl⟩

end refs

/-! ### The block -/

/-- The start function has returned, and what it returned is stored. -/
def ThreadLoc.stored : ThreadLoc Val → Bool
  | .destructors | .release _ | .close _ | .free _ | .out _ => true
  | _ => false

/-- Where the thread itself can be. -/
def ThreadLoc.IsThread (h : ThreadState User Val) : ThreadLoc Val → Prop
  | .start => h.ran = false ∧ h.result = none
  | .running => h.result = none
  | .store v => h.result = some v
  | .destructors | .release .zero | .close .zero | .free .zero | .out (some .zero) => h.result ≠ none
  | _ => False

/-- What a call that has taken the join can return. -/
def ThreadRet.Ok (h : ThreadState User Val) : ThreadRet Val → Prop
  | .zero => True
  | .joined want v => h.os = .ended ∧ h.result ≠ none ∧ (want = true → v = h.result)
  | .err _ => False

/-- Where such a call can be. -/
def ThreadLoc.IsTaker (h : ThreadState User Val) : ThreadLoc Val → Prop
  | .wait _ => True
  | .read _ => h.os = .ended
  | .release r | .close r | .free r => r.Ok h
  | _ => False

/-- The join is owed. -/
def JoinRef.isOwed : JoinRef User → Bool
  | .owed => true
  | _ => false

/-- The call has succeeded. -/
def ThreadRet.succeeds : ThreadRet Val → Bool
  | .err _ => false
  | _ => true

/-- How many joins and detaches have succeeded. -/
def ThreadState.successes (h : ThreadState User Val) : Nat := h.returned.countP fun r => r.2.succeeds

/-- The block is allocated. -/
structure BlockOk (h : ThreadState User Val) (T J : ThreadLoc Val) (b : ThreadBlock Val) : Prop where
  handle : b.handle = true
  frees : h.frees = 0
  joinable : b.joinable = h.join.isOwed
  retval : T.stored = true → b.retval = h.result
  refs : RefsOk h.join.isOwed T J b.refs h.opened h.closes

/-- The block has been freed. -/
structure BlockFreed (h : ThreadState User Val) (T : ThreadLoc Val) : Prop where
  frees : h.frees = 1
  closes : h.closes = 1
  thread : T = .out (some .zero)
  join : h.join = .gone

/-- The thread has been resumed.  `T` is where it is, and `J` where the call is that has taken the join. -/
structure Live (h : ThreadState User Val) (T J : ThreadLoc Val) : Prop where
  fault : h.fault = false
  os : h.os = .running ∨ h.os = .ended
  ended : h.os = .ended → T = .out (some .zero)
  thread : T.IsThread h
  taker : ∀ u, h.join = .taken u → J.IsTaker h
  idle : (∀ u, h.join ≠ .taken u) → J = .out none
  block : ∀ b, h.block = some b → BlockOk h T J b
  freed : h.block = none → BlockFreed h T
  returned : ∀ r ∈ h.returned, r.2 = .err .EINVAL ∨ r.2.Ok h
  once : h.successes ≤ 1
  due : h.join ≠ .gone → h.successes = 0

section live

variable {h h' : ThreadState User Val} {T T' J J' : ThreadLoc Val} {i : ThreadInput Val} {u : User} {detached : Bool}

/-- Whoever has a reference finds the block. -/
private theorem Live.block_of_holds (hl : Live h T J) (hh : T.holds = true ∨ T.closing = true ∨ h.join ≠ .gone) :
    ∃ b, h.block = some b ∧ BlockOk h T J b := by
  cases hb : h.block with
  | some b => exact ⟨b, rfl, hl.block b hb⟩
  | none =>
    obtain ⟨-, -, hT, hJ⟩ := hl.freed hb
    rcases hh with hh | hh | hh
    · rw [hT] at hh
      cases hh
    · rw [hT] at hh
      cases hh
    · exact absurd hJ hh

private theorem ThreadRet.Ok.keep {r : ThreadRet Val} (hr : r.Ok h) (hos : h'.os = h.os)
    (hresult : h.os = .ended → h'.result = h.result) : r.Ok h' := by
  cases r with
  | zero => trivial
  | joined want v =>
    obtain ⟨h1, h2, h3⟩ := hr
    refine ⟨hos.trans h1, ?_, ?_⟩ <;> rw [hresult h1]
    · exact h2
    · exact h3
  | err e => exact hr

private theorem ThreadLoc.IsThread.keep (hT : T.IsThread h) (hran : h'.ran = h.ran) (hresult : h'.result = h.result) :
    T.IsThread h' := by
  unfold ThreadLoc.IsThread at hT ⊢
  rw [hran, hresult]
  exact hT

/-- A thread that has let go of its reference, and of nothing else, has finished. -/
private theorem ThreadLoc.IsThread.finished (hT : T.IsThread h) (hholds : T.holds = false)
    (hclosing : T.closing = false) : T = .out (some .zero) := by
  cases T
  case out r =>
    cases r with
    | none => exact hT.elim
    | some r => cases r <;> first | rfl | exact hT.elim
  case close | free => exact nomatch hclosing
  all_goals first | exact hT.elim | exact nomatch hholds

private theorem ThreadRet.Ok.ends {r : ThreadRet Val} (hr : r.Ok h) : r.Ok { h with os := .ended } := by
  cases r with
  | joined want v => exact ⟨rfl, hr.2⟩
  | _ => exact hr

private theorem ThreadLoc.IsTaker.keep (hJ : J.IsTaker h) (hos : h'.os = h.os)
    (hresult : h.os = .ended → h'.result = h.result) : J.IsTaker h' := by
  cases J with
  | wait want => trivial
  | read want => exact hos.trans hJ
  | release r => exact ThreadRet.Ok.keep hJ hos hresult
  | close r => exact ThreadRet.Ok.keep hJ hos hresult
  | free r => exact ThreadRet.Ok.keep hJ hos hresult
  | _ => exact hJ

/-- A step that changes nothing of the joins. -/
structure ThreadKeeps (h h' : ThreadState User Val) : Prop where
  fault : h'.fault = h.fault
  os : h'.os = h.os
  join : h'.join = h.join
  returned : h'.returned = h.returned

theorem Live.running (hl : Live h T J) (hT : T ≠ .out (some .zero)) : h.os = .running :=
  hl.os.resolve_right fun h => hT (hl.ended h)

/-- A step of the thread, which has not finished. -/
private theorem Live.thread_put (hl : Live h T J) (hT : T ≠ .out (some .zero)) (hk : ThreadKeeps h h')
    (hthread : T'.IsThread h') (hblock : ∀ b, h'.block = some b → BlockOk h' T' J b)
    (hfreed : h'.block = none → BlockFreed h' T') : Live h' T' J := by
  have hrun := hl.running hT
  have hnot {P : Prop} (hos : h.os = .ended) : P := by
    rw [hrun] at hos
    cases hos
  refine ⟨hk.fault.trans hl.fault, Or.inl (hk.os.trans hrun), fun hos => hnot (hk.os.symm.trans hos), hthread,
    fun u hu => ?_, fun hu => ?_, hblock, hfreed, fun r hr => ?_, ?_, fun hj => ?_⟩
  · exact (hl.taker u (hk.join.symm.trans hu)).keep hk.os hnot
  · rw [hk.join] at hu
    exact hl.idle hu
  · rw [hk.returned] at hr
    exact (hl.returned r hr).imp_right fun hok => hok.keep hk.os hnot
  · unfold ThreadState.successes
    rw [hk.returned]
    exact hl.once
  · unfold ThreadState.successes
    rw [hk.returned]
    rw [hk.join] at hj
    exact hl.due hj

/-- The last to let go finds no join owed. -/
private theorem Live.gone_of_alone (hl : Live h T J) (howed : h.join.isOwed = false) (hholds : J.holds = false)
    (hclosing : J.closing = false) : h.join = .gone := by
  cases hj : h.join with
  | owed =>
    rw [hj] at howed
    cases howed
  | taken u =>
    have hJ := hl.taker u hj
    cases J
    case close | free => exact nomatch hclosing
    all_goals first | exact hJ.elim | exact nomatch hholds
  | gone => rfl

/-- The thread of Windows ends. -/
private theorem Live.ends (hl : Live h (.out (some .zero)) J) : Live { h with os := .ended }
    (.out (some .zero)) J where
  fault := hl.fault
  os := Or.inr rfl
  ended _ := rfl
  thread := hl.thread
  taker u hu := by
    have hJ := hl.taker u hu
    cases J <;> first | exact hJ | rfl | exact ThreadRet.Ok.ends hJ
  idle := hl.idle
  block b hb := ⟨(hl.block b hb).handle, (hl.block b hb).frees, (hl.block b hb).joinable, (hl.block b hb).retval,
    (hl.block b hb).refs⟩
  freed hb := ⟨(hl.freed hb).frees, (hl.freed hb).closes, rfl, (hl.freed hb).join⟩
  returned r hr := (hl.returned r hr).imp_right ThreadRet.Ok.ends
  once := hl.once
  due := hl.due

/-- A step of the call that has taken the join, which has not returned. -/
private theorem Live.taker_put (hl : Live h T J) (hu : h.join = .taken u) (hk : ThreadKeeps h h')
    (hran : h'.ran = h.ran) (hresult : h'.result = h.result) (htaker : J'.IsTaker h)
    (hblock : ∀ b, h'.block = some b → BlockOk h' T J' b) (hsome : h'.block.isSome = true) : Live h' T J' where
  fault := hk.fault.trans hl.fault
  os := by
    rw [hk.os]
    exact hl.os
  ended hos := hl.ended (hk.os.symm.trans hos)
  thread := hl.thread.keep hran hresult
  taker _ _ := htaker.keep hk.os fun _ => hresult
  idle hnot := absurd (hk.join.trans hu) (hnot u)
  block := hblock
  freed hb := by
    rw [hb] at hsome
    cases hsome
  returned r hr := by
    rw [hk.returned] at hr
    exact (hl.returned r hr).imp_right fun hok => hok.keep hk.os fun _ => hresult
  once := by
    unfold ThreadState.successes
    rw [hk.returned]
    exact hl.once
  due _ := by
    unfold ThreadState.successes
    rw [hk.returned]
    exact hl.due (by simp [hu])

/-- It returns. -/
private theorem Live.taker_ret (hl : Live h T J) (hu : h.join = .taken u) {r : ThreadRet Val} (hr : r.Ok h)
    (hfault : h'.fault = h.fault) (hos : h'.os = h.os) (hran : h'.ran = h.ran) (hresult : h'.result = h.result)
    (hjoin : h'.join = .gone) (hreturned : h'.returned = h.returned ++ [(u, r)])
    (hblock : ∀ b, h'.block = some b → BlockOk h' T (.out none) b) (hfreed : h'.block = none → BlockFreed h' T) :
    Live h' T (.out none) where
  fault := hfault.trans hl.fault
  os := by
    rw [hos]
    exact hl.os
  ended h := hl.ended (hos.symm.trans h)
  thread := hl.thread.keep hran hresult
  taker v hv := nomatch hjoin.symm.trans hv
  idle _ := rfl
  block := hblock
  freed := hfreed
  returned x hx := by
    rw [hreturned, List.mem_append, List.mem_singleton] at hx
    rcases hx with hx | rfl
    · exact (hl.returned x hx).imp_right fun hok => hok.keep hos fun _ => hresult
    · exact Or.inr (hr.keep hos fun _ => hresult)
  once := by
    have hdue : h.successes = 0 := hl.due (by simp [hu])
    unfold ThreadState.successes at hdue ⊢
    rw [hreturned, List.countP_append, hdue, Nat.zero_add]
    exact List.countP_le_length
  due h := absurd hjoin h

variable [DecidableEq User]

theorem Live.thread_act (hl : Live h T J) (hact : threadAct detached .thread i h T = some (h', T')) :
    Live h' T' J ∧ h'.join = h.join := by
  have hthread := hl.thread
  obtain ⟨block, os, opened, closes, frees, fault, ran, result, join, returned⟩ := h
  cases T
  case start =>
    obtain ⟨b, ⟨⟩, hok⟩ := hl.block_of_holds (Or.inl rfl)
    obtain rfl := hl.running (by simp)
    cases i <;> cases hact
    refine ⟨hl.thread_put (by simp) ⟨rfl, rfl, rfl, rfl⟩ hthread.2 ?_ (fun h => nomatch h), rfl⟩
    rintro _ ⟨⟩
    exact ⟨hok.handle, hok.frees, hok.joinable, (fun h => nomatch h), hok.refs.move rfl rfl rfl⟩
  case running =>
    obtain ⟨b, ⟨⟩, hok⟩ := hl.block_of_holds (Or.inl rfl)
    cases i <;> cases hact
    refine ⟨hl.thread_put (by simp) ⟨rfl, rfl, rfl, rfl⟩ rfl ?_ (fun h => nomatch h), rfl⟩
    rintro _ ⟨⟩
    exact ⟨hok.handle, hok.frees, hok.joinable, (fun h => nomatch h), hok.refs.move rfl rfl rfl⟩
  case store v =>
    obtain ⟨b, ⟨⟩, hok⟩ := hl.block_of_holds (Or.inl rfl)
    obtain rfl : result = some v := hthread
    cases i <;> cases hact
    refine ⟨hl.thread_put (by simp) ⟨rfl, rfl, rfl, rfl⟩ (by simp [ThreadLoc.IsThread]) ?_ (fun h => nomatch h), rfl⟩
    rintro _ ⟨⟩
    exact ⟨hok.handle, hok.frees, hok.joinable, (fun _ => rfl), hok.refs.move rfl rfl rfl⟩
  case destructors =>
    obtain ⟨b, ⟨⟩, hok⟩ := hl.block_of_holds (Or.inl rfl)
    cases i with
    | answer yes =>
      cases hact
      cases yes with
      | true => exact ⟨hl, rfl⟩
      | false =>
        refine ⟨hl.thread_put (by simp) ⟨rfl, rfl, rfl, rfl⟩ hthread ?_ (fun h => nomatch h), rfl⟩
        rintro _ ⟨⟩
        exact ⟨hok.handle, hok.frees, hok.joinable, hok.retval, hok.refs.move rfl rfl rfl⟩
    | _ => cases hact
  case release r =>
    obtain rfl : r = .zero := by
      cases r <;> simp_all [ThreadLoc.IsThread]
    obtain ⟨b, ⟨⟩, hok⟩ := hl.block_of_holds (Or.inl rfl)
    obtain ⟨hnot, hlast⟩ := hok.refs.release
    cases i with
    | run =>
      simp only [threadAct, ThreadState.access, ThreadState.ret, Option.some.injEq] at hact
      split at hact
      case isTrue hne =>
        cases hact
        refine ⟨hl.thread_put (by simp) ⟨rfl, rfl, rfl, rfl⟩ hthread ?_ (fun h => nomatch h), rfl⟩
        rintro _ ⟨⟩
        exact ⟨hok.handle, hok.frees, hok.joinable, hok.retval, hnot hne _⟩
      case isFalse heq =>
        cases hact
        refine ⟨hl.thread_put (by simp) ⟨rfl, rfl, rfl, rfl⟩ hthread ?_ (fun h => nomatch h), rfl⟩
        rintro _ ⟨⟩
        exact ⟨hok.handle, hok.frees, hok.joinable, hok.retval, hlast (not_not.1 heq)⟩
    | _ => cases hact
  case close r =>
    obtain rfl : r = .zero := by
      cases r <;> simp_all [ThreadLoc.IsThread]
    obtain ⟨b, ⟨⟩, hok⟩ := hl.block_of_holds (Or.inr (Or.inl rfl))
    obtain ⟨rfl, hrefs⟩ := hok.refs.close
    cases i with
    | run =>
      simp only [threadAct, ThreadState.access, hok.handle, ThreadState.close, ↓reduceIte, Option.some.injEq] at hact
      cases hact
      refine ⟨hl.thread_put (by simp) ⟨rfl, rfl, rfl, rfl⟩ hthread ?_ (fun h => nomatch h), rfl⟩
      rintro _ ⟨⟩
      exact ⟨hok.handle, hok.frees, hok.joinable, hok.retval, hrefs⟩
    | _ => cases hact
  case free r =>
    obtain rfl : r = .zero := by
      cases r <;> simp_all [ThreadLoc.IsThread]
    obtain ⟨b, ⟨⟩, hok⟩ := hl.block_of_holds (Or.inr (Or.inl rfl))
    cases i with
    | run =>
      cases hact
      refine ⟨hl.thread_put (by simp) ⟨rfl, rfl, rfl, rfl⟩ hthread (fun _ h => nomatch h) fun _ =>
        ⟨?_, ?_, rfl, ?_⟩, rfl⟩
      · exact congrArg (· + 1) hok.frees
      · exact hok.refs.closes
      · obtain ⟨howed, -, hholds, hclosing, -⟩ := hok.refs.alone rfl
        exact hl.gone_of_alone howed hholds hclosing
    | _ => cases hact
  case out r =>
    obtain rfl : r = some .zero := by
      cases r with
      | none => cases hthread
      | some r => cases r <;> simp_all [ThreadLoc.IsThread]
    cases i with
    | run =>
      simp only [threadAct, true_and] at hact
      split at hact <;> cases hact
      exact ⟨hl.ends, rfl⟩
    | _ => cases hact
  all_goals exact hthread.elim

/-- The call that has taken the join goes on, or returns. -/
theorem Live.taker_act (hl : Live h T J) (hu : h.join = .taken u)
    (hact : threadAct detached (.user u) i h J = some (h', J')) :
    h'.join = .taken u ∧ Live h' T J' ∨ h'.join = .gone ∧ (∃ r, J' = .out r) ∧ Live h' T (.out none) := by
  have htaker := hl.taker u hu
  obtain ⟨b, hb, hok⟩ := hl.block_of_holds (Or.inr (Or.inr (by simp [hu])))
  obtain ⟨block, os, opened, closes, frees, fault, ran, result, join, returned⟩ := h
  obtain rfl : block = some b := hb
  obtain rfl : join = .taken u := hu
  cases J
  case wait want =>
    obtain rfl : opened = true := hok.refs.opened_of_holds rfl
    cases i with
    | run =>
      simp only [threadAct, ThreadState.access, hok.handle, Bool.and_self, ↓reduceIte] at hact
      split at hact <;> cases hact
      rename_i hos
      refine Or.inl ⟨rfl, hl.taker_put rfl ⟨rfl, rfl, rfl, rfl⟩ rfl rfl hos ?_ rfl⟩
      rintro _ ⟨⟩
      exact ⟨hok.handle, hok.frees, hok.joinable, hok.retval, hok.refs.move_right rfl rfl rfl⟩
    | _ => cases hact
  case read want =>
    obtain rfl := hl.ended htaker
    have hretval : b.retval = result := hok.retval rfl
    cases i with
    | run =>
      cases hact
      have hr : ThreadLoc.IsTaker ⟨some b, os, opened, closes, frees, fault, ran, result, .taken u, returned⟩
          (.release (.joined want (if want then b.retval else none))) := by
        refine ⟨htaker, hl.thread, fun hwant => ?_⟩
        rw [hwant]
        exact hretval
      refine Or.inl ⟨rfl, hl.taker_put rfl ⟨rfl, rfl, rfl, rfl⟩ rfl rfl hr ?_ rfl⟩
      rintro _ ⟨⟩
      exact ⟨hok.handle, hok.frees, hok.joinable, hok.retval, hok.refs.move_right rfl rfl rfl⟩
    | _ => cases hact
  case release r =>
    obtain ⟨hnot, hlast⟩ := hok.refs.symm.release
    cases i with
    | run =>
      simp only [threadAct, ThreadState.access, ThreadState.ret, Option.some.injEq] at hact
      split at hact
      case isTrue hne =>
        cases hact
        refine Or.inr ⟨rfl, ⟨_, rfl⟩, hl.taker_ret rfl htaker rfl rfl rfl rfl rfl rfl ?_ (fun h => nomatch h)⟩
        rintro _ ⟨⟩
        exact ⟨hok.handle, hok.frees, hok.joinable, hok.retval, (hnot hne _).symm⟩
      case isFalse heq =>
        cases hact
        refine Or.inl ⟨rfl, hl.taker_put rfl ⟨rfl, rfl, rfl, rfl⟩ rfl rfl htaker ?_ rfl⟩
        rintro _ ⟨⟩
        exact ⟨hok.handle, hok.frees, hok.joinable, hok.retval, (hlast (not_not.1 heq)).symm⟩
    | _ => cases hact
  case close r =>
    obtain ⟨rfl, hrefs⟩ := hok.refs.symm.close
    cases i with
    | run =>
      simp only [threadAct, ThreadState.access, hok.handle, ThreadState.close, ↓reduceIte, Option.some.injEq] at hact
      cases hact
      refine Or.inl ⟨rfl, hl.taker_put rfl ⟨rfl, rfl, rfl, rfl⟩ rfl rfl htaker ?_ rfl⟩
      rintro _ ⟨⟩
      exact ⟨hok.handle, hok.frees, hok.joinable, hok.retval, hrefs.symm⟩
    | _ => cases hact
  case free r =>
    cases i with
    | run =>
      cases hact
      obtain ⟨-, -, hholds, hclosing, -⟩ := hok.refs.symm.alone rfl
      refine Or.inr ⟨rfl, ⟨_, rfl⟩, hl.taker_ret rfl htaker rfl rfl rfl rfl rfl rfl (fun _ h => nomatch h) fun _ =>
        ⟨congrArg (· + 1) hok.frees, hok.refs.symm.closes, hl.thread.finished hholds hclosing, rfl⟩⟩
    | _ => cases hact
  all_goals exact htaker.elim

omit [DecidableEq User] in
/-- A call on the thread begins, and takes the join that is owed, or returns `EINVAL`. -/
private theorem Live.exchange (hl : Live h T J) (hsome : h.block.isSome = true) {l l' : ThreadLoc Val}
    (hholds : l'.holds = true) (htaker : l'.IsTaker h) (hact : h.exchange u l l' = (h', J')) :
    h.join = .owed ∧ h'.join = .taken u ∧ Live h' T J' ∨ h'.join = h.join ∧ (∃ r, J' = .out r) ∧ Live h' T J := by
  obtain ⟨b, hb⟩ := Option.isSome_iff_exists.1 hsome
  have hok := hl.block b hb
  obtain ⟨block, os, opened, closes, frees, fault, ran, result, join, returned⟩ := h
  obtain rfl : block = some b := hb
  have hjoinable : b.joinable = join.isOwed := hok.joinable
  simp only [ThreadState.exchange, ThreadState.access] at hact
  split at hact
  case isTrue hyes =>
    cases hact
    obtain rfl : join = .owed := by
      rw [hjoinable] at hyes
      cases join <;> first | rfl | cases hyes
    obtain rfl : J = .out none := hl.idle fun _ h => nomatch h
    refine Or.inl ⟨rfl, rfl, hl.fault, hl.os, hl.ended, hl.thread, fun _ _ => ?_, fun h => absurd rfl (h u), ?_,
      (fun h => nomatch h), fun r hr => ?_, hl.once, fun _ => hl.due (by simp)⟩
    · exact htaker.keep rfl fun _ => rfl
    · rintro _ ⟨⟩
      have hQ : J'.closing = false ∧ J'.freeing = false := by
        cases J' <;> first | exact ⟨rfl, rfl⟩ | cases hholds
      exact ⟨hok.handle, hok.frees, rfl, hok.retval, hok.refs.take hholds hQ.1 hQ.2⟩
    · exact (hl.returned r hr).imp_right fun hok => hok.keep rfl fun _ => rfl
  case isFalse hno =>
    cases hact
    have hcount : ThreadState.successes ⟨some b, os, opened, closes, frees, fault, ran, result, join,
        returned ++ [(u, .err .EINVAL)]⟩ = returned.countP fun r => r.2.succeeds := by
      simp [ThreadState.successes, ThreadRet.succeeds]
    refine Or.inr ⟨rfl, ⟨_, rfl⟩, hl.fault, hl.os, hl.ended, hl.thread, fun v hv => ?_, hl.idle, ?_,
      (fun h => nomatch h), fun r hr => ?_, ?_, fun hj => ?_⟩
    · exact (hl.taker v hv).keep rfl fun _ => rfl
    · rintro _ ⟨⟩
      exact ⟨hok.handle, hok.frees, hok.joinable, hok.retval, hok.refs⟩
    · rw [List.mem_append, List.mem_singleton] at hr
      rcases hr with hr | rfl
      · exact (hl.returned r hr).imp_right fun hok => hok.keep rfl fun _ => rfl
      · exact Or.inl rfl
    · rw [hcount]
      exact hl.once
    · rw [hcount]
      exact hl.due hj

theorem Live.begin_act (hl : Live h T J) {r : Option (ThreadRet Val)}
    (hact : threadAct detached (.user u) i h (.out r) = some (h', J')) :
    h.join = .owed ∧ h'.join = .taken u ∧ Live h' T J' ∨ h'.join = h.join ∧ (∃ r, J' = .out r) ∧ Live h' T J := by
  cases i with
  | join want =>
    simp only [threadAct] at hact
    split at hact
    case isTrue hcond => exact hl.exchange hcond.1 rfl (by exact trivial) (Option.some.inj hact)
    case isFalse => cases hact
  | detach =>
    simp only [threadAct] at hact
    split at hact
    case isTrue hcond => exact hl.exchange hcond.1 rfl (by exact trivial) (Option.some.inj hact)
    case isFalse => cases hact
  | run =>
    cases r with
    | none => cases hact
    | some r =>
      simp only [threadAct, reduceCtorEq, false_and, ↓reduceIte] at hact
  | _ => cases hact

end live

end Sppc.Windows
