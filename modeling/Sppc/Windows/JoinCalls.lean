import Sppc.Windows.JoinRefs

/-!
# Create, join and detach

Before the thread is resumed its creator has the block to itself, and the state follows from where the creator is.
Then the two references decide.
-/

namespace Sppc.Windows

open Threads Transition

variable {User Val : Type} {detached : Bool}

/-! ### Before the thread runs -/

/-- The block as it has been allocated, and the handle. -/
def ThreadState.made (detached handle : Bool) (os : OsThread) (opened : Bool) (closes : Nat) : ThreadState User Val :=
  ⟨some ⟨handle, none, if detached then 1 else 2, !detached⟩, os, opened, closes, 0, false, false, none,
    if detached then .gone else .owed, []⟩

/-- The creation has failed, and nothing of it is left. -/
structure CreateFailed (h : ThreadState User Val) : Prop where
  fault : h.fault = false
  block : h.block = none
  opened : h.opened = false
  ran : h.ran = false
  result : h.result = none
  returned : h.returned = []
  frees : h.frees ≤ 1
  closes : h.closes ≤ 1
  os : h.os = .none ∨ h.os = .terminated

/-- Where the creator can be until then. -/
def ThreadState.Creating (detached : Bool) (h : ThreadState User Val) : ThreadLoc Val → Prop
  | .create => h = (ThreadSystem.init : ThreadSystem User Val).shared
  | .begin => h = .made detached false .none false 0
  | .storeHandle => h = .made detached false .suspended true 0
  | .resume | .terminate => h = .made detached true .suspended true 0
  | .closeUnrun => h = .made detached true .terminated true 0
  | .freeUnrun => h = .made detached false .none false 0 ∨ h = .made detached true .terminated false 1
  | .out (some (.err .EAGAIN)) => CreateFailed h
  | _ => False

variable {h h' : ThreadState User Val} {l l' J : ThreadLoc Val} {i : ThreadInput Val} {u : User}

private theorem ThreadState.Creating.os (hc : h.Creating detached l) : h.os ≠ .running ∧ h.os ≠ .ended := by
  cases l
  case out r =>
    match r, hc with
    | some (.err .EAGAIN), hc => rcases hc.os with hos | hos <;> simp [hos]
  case freeUnrun => rcases hc with rfl | rfl <;> exact ⟨nofun, nofun⟩
  all_goals first | exact hc.elim | (obtain rfl := hc; exact ⟨nofun, nofun⟩)

private theorem ThreadState.Creating.quiet (hc : h.Creating detached l) :
    h.fault = false ∧ h.frees ≤ 1 ∧ h.closes ≤ 1 ∧ h.returned = [] ∧
      ∀ r, l = .out r → r ≠ some .zero ∧ h.block = none ∧ h.opened = false ∧ h.ran = false := by
  cases l
  case out r =>
    match r, hc with
    | some (.err .EAGAIN), hc =>
      refine ⟨hc.fault, hc.frees, hc.closes, hc.returned, ?_⟩
      rintro _ ⟨⟩
      exact ⟨by simp, hc.block, hc.opened, hc.ran⟩
  case freeUnrun =>
    rcases hc with rfl | rfl
    · exact ⟨rfl, Nat.zero_le 1, Nat.zero_le 1, rfl, nofun⟩
    · exact ⟨rfl, Nat.zero_le 1, le_rfl, rfl, nofun⟩
  all_goals first | exact hc.elim | (obtain rfl := hc; exact ⟨rfl, Nat.zero_le 1, Nat.zero_le 1, rfl, nofun⟩)

/-- The thread as it is resumed. -/
private theorem Live.start :
    Live (.made detached true .running true 0 : ThreadState User Val) .start (.out none) where
  fault := rfl
  os := Or.inl rfl
  ended := nofun
  thread := ⟨rfl, rfl⟩
  taker u hu := by cases detached <;> cases hu
  idle _ := rfl
  block := by
    rintro _ ⟨⟩
    cases detached
    · exact ⟨rfl, rfl, rfl, nofun, rfl, ⟨nofun, nofun⟩, nofun, rfl, rfl⟩
    · exact ⟨rfl, rfl, rfl, nofun, rfl, ⟨nofun, nofun⟩, nofun, rfl, rfl⟩
  freed := nofun
  returned _ hr := (List.not_mem_nil hr).elim
  once := Nat.zero_le 1
  due _ := rfl

variable [DecidableEq User]

/-- The creator goes on, or has resumed the thread. -/
private theorem ThreadState.Creating.act (hc : h.Creating detached l)
    (hact : threadAct detached .creator i h l = some (h', l')) :
    h'.Creating detached l' ∨ l' = .out (some .zero) ∧ Live h' .start (.out none) := by
  cases l
  case create =>
    obtain rfl := hc
    cases i with
    | answer yes =>
      cases yes with
      | true =>
        cases hact
        exact Or.inl rfl
      | false =>
        cases hact
        exact Or.inl ⟨rfl, rfl, rfl, rfl, rfl, rfl, Nat.zero_le 1, Nat.zero_le 1, Or.inl rfl⟩
    | _ => cases hact
  case begin =>
    obtain rfl := hc
    cases i with
    | answer yes =>
      cases yes with
      | true =>
        cases hact
        exact Or.inl rfl
      | false =>
        cases hact
        exact Or.inl (Or.inl rfl)
    | _ => cases hact
  case storeHandle =>
    obtain rfl := hc
    cases i <;> cases hact
    exact Or.inl rfl
  case resume =>
    obtain rfl := hc
    cases i with
    | answer yes =>
      cases yes with
      | true =>
        cases hact
        exact Or.inr ⟨rfl, Live.start⟩
      | false =>
        cases hact
        exact Or.inl rfl
    | _ => cases hact
  case terminate =>
    obtain rfl := hc
    cases i <;> cases hact
    exact Or.inl rfl
  case closeUnrun =>
    obtain rfl := hc
    cases i <;> cases hact
    exact Or.inl (Or.inr rfl)
  case freeUnrun =>
    rcases hc with rfl | rfl
    · cases i <;> cases hact
      exact Or.inl ⟨rfl, rfl, rfl, rfl, rfl, rfl, le_rfl, Nat.zero_le 1, Or.inl rfl⟩
    · cases i <;> cases hact
      exact Or.inl ⟨rfl, rfl, rfl, rfl, rfl, rfl, le_rfl, le_rfl, Or.inr rfl⟩
  case out r =>
    match r, hc with
    | some (.err .EAGAIN), _ =>
      cases i <;> simp [threadAct] at hact
  all_goals exact hc.elim

/-! ### Every run -/

variable {s s' : ThreadSystem User Val}

/-- The thread has not been resumed, and nobody but its creator has done anything; or it has, and the calls are those
that the references know of. -/
inductive ThreadInv (detached : Bool) (s : ThreadSystem User Val) : Prop
  | creating (hc : s.shared.Creating detached (s.loc .creator)) (ht : s.loc .thread = .start)
      (hu : ∀ u, s.loc (.user u) = .out none)
  | live (hc : s.loc .creator = .out (some .zero)) (J : ThreadLoc Val) (hl : Live s.shared (s.loc .thread) J)
      (htaken : ∀ u, s.shared.join = .taken u → s.loc (.user u) = J)
      (hout : ∀ u, s.shared.join ≠ .taken u → ∃ r, s.loc (.user u) = .out r)

private theorem ThreadInv.creating_step {p : Party User} (hc : s.shared.Creating detached (s.loc .creator))
    (ht : s.loc .thread = .start) (hu : ∀ u, s.loc (.user u) = .out none)
    (hact : threadAct detached p i s.shared (s.loc p) = some (h', l')) : ThreadInv detached (s.put p h' l') := by
  obtain ⟨hrunning, hended⟩ := hc.os
  cases p with
  | creator =>
    rcases hc.act hact with hc' | ⟨rfl, hl⟩
    · exact .creating (by simpa using hc') (by simpa using ht) (by simpa using hu)
    · refine .live (by simp) (.out none) (by simpa [ht] using hl) ?_ ?_
      · simpa using fun u _ => hu u
      · simpa using fun u _ => ⟨none, hu u⟩
  | thread =>
    rw [ht] at hact
    cases i <;> simp [threadAct, hrunning] at hact
  | user u =>
    rw [hu u] at hact
    cases i <;> simp [threadAct, hrunning, hended] at hact

private theorem ThreadInv.live_step {p : Party User} (hc : s.loc .creator = .out (some .zero))
    (hl : Live s.shared (s.loc .thread) J) (htaken : ∀ u, s.shared.join = .taken u → s.loc (.user u) = J)
    (hout : ∀ u, s.shared.join ≠ .taken u → ∃ r, s.loc (.user u) = .out r)
    (hact : threadAct detached p i s.shared (s.loc p) = some (h', l')) : ThreadInv detached (s.put p h' l') := by
  cases p with
  | creator =>
    rw [hc] at hact
    cases i <;> simp [threadAct] at hact
  | thread =>
    obtain ⟨hl', hjoin⟩ := hl.thread_act hact
    refine .live (by simpa using hc) J (by simpa using hl') (fun u hu => ?_) fun u hu => ?_
    · simpa using htaken u (hjoin.symm.trans hu)
    · rw [State.put_shared, hjoin] at hu
      simpa using hout u hu
  | user u =>
    by_cases hu : s.shared.join = .taken u
    · rw [htaken u hu] at hact
      rcases hl.taker_act hu hact with ⟨hjoin, hl'⟩ | ⟨hjoin, ⟨r, rfl⟩, hl'⟩
      · refine .live (by simpa using hc) l' (by simpa using hl') (fun v hv => ?_) fun v hv => ?_
        · cases hjoin.symm.trans hv
          exact State.put_self
        · have hne : v ≠ u := by
            rintro rfl
            exact hv hjoin
          rw [State.put_of_ne (by simpa using hne)]
          exact hout v fun h => hne (JoinRef.taken.inj (h.symm.trans hu))
      · refine .live (by simpa using hc) (.out none) (by simpa using hl') (fun v hv => ?_) fun v hv => ?_
        · cases hjoin.symm.trans hv
        · by_cases hne : v = u
          · subst hne
            exact ⟨r, State.put_self⟩
          · rw [State.put_of_ne (by simpa using hne)]
            exact hout v fun h => hne (JoinRef.taken.inj (h.symm.trans hu))
    · obtain ⟨r, hr⟩ := hout u hu
      rw [hr] at hact
      rcases hl.begin_act hact with ⟨howed, hjoin, hl'⟩ | ⟨hjoin, ⟨r', rfl⟩, hl'⟩
      · refine .live (by simpa using hc) l' (by simpa using hl') (fun v hv => ?_) fun v hv => ?_
        · cases hjoin.symm.trans hv
          exact State.put_self
        · have hne : v ≠ u := by
            rintro rfl
            exact hv hjoin
          rw [State.put_of_ne (by simpa using hne)]
          exact hout v (by simp [howed])
      · refine .live (by simpa using hc) J (by simpa using hl') (fun v hv => ?_) fun v hv => ?_
        · have hv' := hjoin.symm.trans hv
          have hne : v ≠ u := by
            rintro rfl
            exact hu hv'
          rw [State.put_of_ne (by simpa using hne)]
          exact htaken v hv'
        · by_cases hne : v = u
          · subst hne
            exact ⟨r', State.put_self⟩
          · rw [State.put_of_ne (by simpa using hne)]
            exact hout v fun h => hv (hjoin.trans h)

private theorem ThreadInv.step {e : ThreadEvent User Val} (hi : ThreadInv detached s)
    (hstep : threadStep detached s e = some s') : ThreadInv detached s' := by
  cases e with
  | thread p i =>
    obtain ⟨h, l, hact, rfl⟩ := step_thread.1 hstep
    cases hi with
    | creating hc ht hu => exact ThreadInv.creating_step hc ht hu hact
    | live hc J hl htaken hout => exact ThreadInv.live_step hc hl htaken hout hact
  | env e => exact e.elim

/-! ### What the calls come to -/

/-- Nothing has used the block after it was freed, and nothing the handle after it was closed; the block is freed
once, when the thread has finished with it and the call that took the join has returned, and the handle is closed
once; and it is, when the calls have returned and no join is owed.  At most one call has succeeded, and the others
have returned `EINVAL`; a join that has succeeded has what the thread returned.  A creation that fails leaves nothing,
and runs nothing. -/
structure ThreadsOk (s : ThreadSystem User Val) : Prop where
  fault : s.shared.fault = false
  frees : s.shared.frees ≤ 1
  closes : s.shared.closes ≤ 1
  freed : s.loc .creator = .out (some .zero) → s.shared.frees = 1 →
    s.loc .thread = .out (some .zero) ∧ s.shared.join = .gone ∧ s.shared.closes = 1
  settled : (∀ p, ∃ r, s.loc p = .out r) → s.shared.join ≠ .owed → s.shared.frees = 1 ∧ s.shared.closes = 1
  once : s.shared.successes ≤ 1
  returned : ∀ r ∈ s.shared.returned, r.2 = .err .EINVAL ∨ r.2.Ok s.shared
  failed : ∀ e, s.loc .creator = .out (some (.err e)) →
    s.shared.block = none ∧ s.shared.opened = false ∧ s.shared.ran = false

omit [DecidableEq User] in
private theorem ThreadState.Creating.ok (hc : s.shared.Creating detached (s.loc .creator))
    (ht : s.loc .thread = .start) : ThreadsOk s := by
  obtain ⟨hfault, hfrees, hcloses, hreturned, hout⟩ := hc.quiet
  refine ⟨hfault, hfrees, hcloses, fun h => absurd rfl (hout _ h).1, fun h => ?_, ?_, fun r hr => ?_, fun e he =>
    (hout _ he).2⟩
  · obtain ⟨r, hr⟩ := h .thread
    exact nomatch ht.symm.trans hr
  · simp [ThreadState.successes, hreturned]
  · rw [hreturned] at hr
    exact (List.not_mem_nil hr).elim

omit [DecidableEq User] in
private theorem Live.ok (hl : Live s.shared (s.loc .thread) J) (hc : s.loc .creator = .out (some .zero))
    (htaken : ∀ u, s.shared.join = .taken u → s.loc (.user u) = J) : ThreadsOk s where
  fault := hl.fault
  frees := by
    cases hb : s.shared.block with
    | some b => exact (hl.block b hb).frees.trans_le (Nat.zero_le 1)
    | none => exact (hl.freed hb).frees.le
  closes := by
    cases hb : s.shared.block with
    | some b => exact (hl.block b hb).refs.closes.trans_le (Bool.toNat_le _)
    | none => exact (hl.freed hb).closes.le
  freed _ hfrees := by
    cases hb : s.shared.block with
    | some b => exact nomatch (hl.block b hb).frees.symm.trans hfrees
    | none => exact ⟨(hl.freed hb).thread, (hl.freed hb).join, (hl.freed hb).closes⟩
  settled hout hjoin := by
    cases hb : s.shared.block with
    | none => exact ⟨(hl.freed hb).frees, (hl.freed hb).closes⟩
    | some b =>
      have hrefs := (hl.block b hb).refs
      obtain ⟨r, hr⟩ := hout .thread
      rw [hr] at hrefs
      -- All are outside, the call that has taken the join too, so nobody has a reference, or has let go of the last.
      obtain ⟨r', rfl⟩ : ∃ r', J = .out r' := by
        cases hj : s.shared.join with
        | owed => exact absurd hj hjoin
        | taken u =>
          rw [← htaken u hj]
          exact hout (.user u)
        | gone => exact ⟨none, hl.idle (by simp [hj])⟩
      have howed : s.shared.join.isOwed = false := by
        cases hj : s.shared.join <;> first | rfl | exact absurd hj hjoin
      rcases hrefs.last.1 (by rw [hrefs.count, howed]; rfl) with h | h
      · cases h
      · cases h
  once := hl.once
  returned := hl.returned
  failed e he := nomatch hc.symm.trans he

omit [DecidableEq User] in
private theorem ThreadInv.ok (hi : ThreadInv detached s) : ThreadsOk s := by
  cases hi with
  | creating hc ht _ => exact hc.ok ht
  | live hc J hl htaken _ => exact hl.ok hc htaken

/-- In every run. -/
theorem threads_ok (h : Reach (threadStep detached) .init s) : ThreadsOk s :=
  (h.invariant (P := ThreadInv detached) (fun _ _ _ hi hstep => hi.step hstep) (.creating rfl rfl fun _ => rfl)).ok

/-- A join, and a detach that comes after it, of a thread that is still running. -/
theorem threads_ok_joined : ∃ s : ThreadSystem (Fin 2) Nat, ThreadsOk s ∧ s.shared.frees = 1 ∧
    s.shared.returned = [(1, .err .EINVAL), (0, .joined true (some 7))] := by
  have hrun : (Transition.run (threadStep false) .init
      [.thread .creator (.answer true), .thread .creator (.answer true), .thread .creator .run,
        .thread .creator (.answer true), .thread .thread .run, .thread (.user 0) (.join true),
        .thread (.user 1) .detach, .thread .thread (.ret 7), .thread .thread .run, .thread .thread (.answer false),
        .thread .thread .run, .thread .thread .run, .thread (.user 0) .run, .thread (.user 0) .run,
        .thread (.user 0) .run, .thread (.user 0) .run, .thread (.user 0) .run]).map
          (fun s : ThreadSystem (Fin 2) Nat => (s.shared.frees, s.shared.returned)) =
      some (1, [(1, .err .EINVAL), (0, .joined true (some 7))]) := by
    decide +kernel
  obtain ⟨s, hs, heq⟩ := Option.map_eq_some_iff.1 hrun
  exact ⟨s, threads_ok ⟨_, hs⟩, Prod.mk.inj heq⟩

end Sppc.Windows
