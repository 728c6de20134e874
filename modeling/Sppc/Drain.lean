import Sppc.Awaits

/-!
# Draining

`_gt_drain` returns when nothing is left to run and no i/o is pending.  Whatever could run at any time before that has
come to its end by then, or has blocked in an await.  That it has is read off the log: a task leaves the run queue and
the backend for good only by returning or by registering on another task.
-/

namespace Sppc

variable {Io : Type} [IoBackend Io] [LawfulIoBackend Io] {v v' : Roster} {m s s' : Machine Io} {l log : List Ev}
  {t w : Nat} {L L' : Life}

/-! ### What changes a life -/

/-- Only the return of its body ends a task. -/
private theorem life_unreturned (h : life t log = some L) (hL : L.stage = .spawned ∨ L.stage = .started)
    (h' : life t (l ++ log) = some L') (hno : Ev.returned t ∉ l) : L'.stage = .spawned ∨ L'.stage = .started := by
  induction l generalizing L' with
  | nil =>
    rw [List.nil_append, h] at h'
    cases h'
    exact hL
  | cons e l ih =>
    cases hl : life t (l ++ log) with
    | none => rw [List.cons_append, life, hl] at h'; cases h'
    | some L₁ =>
      have hL₁ := ih hl fun hm => hno (List.mem_cons_of_mem _ hm)
      rw [List.cons_append, life_cons hl] at h'
      have he : e ≠ .returned t := fun he => hno (by rw [he]; exact List.mem_cons_self ..)
      cases e
      all_goals simp only [Life.step] at h'
      all_goals grind

/-- Only an await registers an awaiter. -/
private theorem life_joined (h : life t log = some L) (hw : w ∉ L.joined) (h' : life t (l ++ log) = some L')
    (hw' : w ∈ L'.joined) : Ev.joined w t ∈ l := by
  induction l generalizing L' with
  | nil =>
    rw [List.nil_append, h] at h'
    cases h'
    exact absurd hw' hw
  | cons e l ih =>
    cases hl : life t (l ++ log) with
    | none => rw [List.cons_append, life, hl] at h'; cases h'
    | some L₁ =>
      rw [List.cons_append, life_cons hl] at h'
      by_cases hm : w ∈ L₁.joined
      · exact List.mem_cons_of_mem _ (ih hl hm)
      · cases e
        all_goals simp only [Life.step] at h'
        all_goals grind [List.mem_of_mem_erase]

/-- A vacant slot has no awaiters. -/
private theorem life_vacant (h : life t log = some L)
    (hL : L.stage = .vacant ∨ L.stage = .claimed ∨ L.stage = .spent) : L.joined = [] := by
  induction log generalizing L with
  | nil => cases h; rfl
  | cons e log ih =>
    cases hl : life t log with
    | none => rw [life, hl] at h; cases h
    | some L₁ =>
      rw [life_cons hl] at h
      have hL₁ := ih hl
      cases e
      all_goals simp only [Life.step] at h
      all_goals grind

/-! ### The end of a drain -/

/-- Nothing is left but the task `c`, which runs, and those that await. -/
structure Drained (R : GtRuntime Io) (c : Nat) : Prop where
  rqHead : R.rqHead = none
  rqTail : R.rqTail = none
  inflight : R.inflight = 0
  zombies : R.zombies = none
  current : R.current = c
  running : (R.slots c).state = .running
  others : ∀ i < R.nslots, i ≠ c →
    (R.slots i).state = .free ∨ (R.slots i).state = .done ∨ (R.slots i).state = .joining

/-- Since `m` the task `i` has returned, or it has blocked in an await that has not returned. -/
structure RanOut (m s : Machine Io) (i : Nat) : Prop where
  log : ∃ l, s.rt.log = l ++ m.rt.log ∧
    (Ev.returned i ∈ l ∨ (s.rt.slots i).state = .joining ∧ ∃ u, Ev.joined i u ∈ l)

/-- The drain returns where nothing is ready and nothing is pending. -/
private theorem drain_returned (h : Live s v) (hc : s.ctl = .drain) (hturn : step s .turn = some s')
    (hret : s'.ctl = .code) (hcur : s'.rt.current = s.rt.current) :
    s.rt.rqHead = none ∧ s.rt.inflight = 0 ∧ s'.rt.rqHead = none ∧ s'.rt.rqTail = s.rt.rqTail ∧
    s'.rt.inflight = 0 := by
  have hctl := h.ctl
  rw [hc] at hctl
  obtain ⟨hr, hl⟩ := hctl
  obtain ⟨hm, hs, -⟩ := h
  have heq : s' = gtDrain s.rt := by simpa [step, hc, eq_comm] using hturn
  subst heq
  unfold gtDrain at hret hcur ⊢
  by_cases hq : s.rt.rqHead = none
  · rw [if_pos hq] at hret hcur ⊢
    by_cases hi : s.rt.inflight = 0
    · rw [if_pos hi]
      refine ⟨hq, hi, ?_⟩
      rw [if_neg (by simp [hr.zombies])]
      exact ⟨hq, rfl, rfl⟩
    · rw [if_neg hi] at hret
      cases hret
  · rw [if_neg hq] at hret hcur
    rcases hm.rqPop hs with ⟨-, heq⟩ | ⟨t, l, g, -, hg, heq, hpop, hsteady⟩
    · rw [heq] at hret
      cases hret
    · -- a switch lands on another task
      rw [heq] at hcur
      have hne : s.rt.current ≠ t := by
        rintro hct
        have := hr.role
        rw [hct, hg] at this
        cases this
      have hruns : Runs (rqUnlink s.rt none t) (v.pop t g) :=
        ⟨by simpa [Roster.pop, rqUnlink, hne] using hr.role, hr.zombies⟩
      have hlock : (v.pop t g).locker = none := hl
      obtain ⟨v', hv'⟩ := hpop.giveWay (f := .drained) (g := g) hsteady hruns (by simp [Roster.pop]) trivial
        (by simp [hlock]) (.inl hlock) (by simp)
      exact absurd (hcur.symm.trans hv'.current) hne

/-- What could run in `m` and cannot in `s` has run out. -/
private theorem Live.ranOut {i : Nat} (hm : Live m v) (hs : Live s v') (hlog : s.rt.log = l ++ m.rt.log)
    (hi : i < m.rt.nslots) (hbusy : (m.rt.slots i).state = .ready ∨ (m.rt.slots i).state = .waiting ∨
      (m.rt.slots i).state = .running)
    (hidle : (s.rt.slots i).state = .free ∨ (s.rt.slots i).state = .done ∨ (s.rt.slots i).state = .joining) :
    RanOut m s i := by
  refine ⟨l, hlog, ?_⟩
  have hstm := hm.steady.statesOk hm.models.lists
  have hsts := hs.steady.statesOk hs.models.lists
  have hrole : (v.role i).occupied ∧ ((v.role i).stage = .spawned ∨ (v.role i).stage = .started) ∧
      ∀ u, v.role i ≠ .joining u := by
    rcases hbusy with hb | hb | hb
    · obtain ⟨f, hf⟩ := (hstm.ready i).2 ⟨hi, hb⟩
      rw [hf]
      cases f <;> simp [Role.occupied, Role.stage]
    · obtain ⟨op, hop⟩ := (hstm.waiting i).2 ⟨hi, hb⟩
      simp [hop, Role.occupied, Role.stage]
    · simp [(hstm.running i).2 ⟨hi, hb⟩, Role.occupied, Role.stage]
  obtain ⟨hocc, hstage, hnj⟩ := hrole
  have hlife := hm.models.logged.lives i hocc
  by_cases hret : Ev.returned i ∈ l
  · exact .inl hret
  · obtain ⟨L', hL'⟩ := Option.ne_none_iff_exists'.1 (hs.models.lives i)
    have hstage' := life_unreturned hlife hstage (hlog ▸ hL') hret
    -- the slot is occupied by the same task, which cannot but be awaiting
    have hocc' : (v'.role i).occupied := by
      have := occupied_of_life hL'
      rw [hs.models.logged.occupied] at this
      rcases hstage' with h | h <;> simpa [h] using this
    rw [hs.models.logged.lives i hocc'] at hL'
    cases hL'
    have hjoining : ∃ u, v'.role i = .joining u := by
      have hstate := hs.steady.state hs.models.lists i
      rcases hidle with hi | hi | hi
      all_goals
        rw [hi] at hstate
        revert hstage' hstate
        cases v'.role i with
        | ready f => simp [Role.state]
        | popped f => simp [Role.state]
        | _ => simp [Role.stage, Role.state]
    obtain ⟨u, hu⟩ := hjoining
    refine .inr ⟨((hsts.joining i).1 ⟨u, hu⟩).2, u, ?_⟩
    have hmem : i ∈ v'.joiners u := (hs.models.ok.joiners_iff i u).2 hu
    have hoccu : (v'.role u).occupied := by
      have := hs.models.ok.joinee i u hu
      revert this
      cases v'.role u <;> simp [Role.unfinished, Role.occupied]
    have hlifeu := hs.models.logged.lives u hoccu
    rw [hlog] at hlifeu
    cases hou : (v.role u).occupied with
    | true =>
      refine life_joined (hm.models.logged.lives u hou) (fun hmem' => ?_) hlifeu hmem
      exact hnj u ((hm.models.ok.joiners_iff i u).1 hmem')
    | false =>
      obtain ⟨L, hL, hvac⟩ := hm.models.logged.vacant u hou
      exact life_joined hL (by simp [life_vacant hL (.inl hvac)]) hlifeu hmem

/-- Where a drain returns, nothing is left to run, and what could run in any earlier state `m` of the run, at the call
of the drain or since, has run out. -/
theorem drain_ok (h : Reachable m) (hms : Transition.Reach step m s) (hc : s.ctl = .drain)
    (hturn : step s .turn = some s') (hret : s'.ctl = .code) (hcur : s'.rt.current = s.rt.current)
    (hboth : NeverBoth s'.rt.log) (hacc : AllAccepted s'.rt.log) :
    Drained s'.rt s.rt.current ∧ ∀ i < m.rt.nslots, i ≠ s.rt.current →
      ((m.rt.slots i).state = .ready ∨ (m.rt.slots i).state = .waiting ∨ (m.rt.slots i).state = .running) →
      RanOut m s' i := by
  have htm := h.table
  obtain ⟨hts, hmoved⟩ := run_keeps hms htm
  obtain ⟨l, hl, -⟩ := hmoved.log
  have hss' := step_log hturn hts
  have hms' : m.rt.log <:+ s.rt.log := by
    rw [hl]
    exact List.suffix_append _ _
  obtain ⟨l', hl'⟩ := hms'.trans hss'
  have hne : s.ctl ≠ .exited := by simp [hc]
  obtain ⟨vs, hs⟩ : ∃ vs, Live s vs :=
    (Reachable.inv (h.tail hms) (hboth.of_suffix hss') (hacc.of_suffix hss')).resolve_right fun hx => hne hx.1
  obtain ⟨v', hs'⟩ : ∃ v', Live s' v' :=
    (hs.next hts hturn hboth hacc).resolve_right fun hx => by rw [hret] at hx; cases hx.1
  obtain ⟨vm, hm⟩ : ∃ vm, Live m vm := by
    refine (h.inv (hboth.of_suffix ⟨l', hl'⟩) (hacc.of_suffix ⟨l', hl'⟩)).resolve_right fun hx => ?_
    -- an exited thread goes nowhere
    obtain ⟨es, hes⟩ := hms
    cases es with
    | nil => cases hes; exact hne hx.1
    | cons e es => rw [Transition.run, step_exited hx.1] at hes; cases hes
  obtain ⟨-, -, hhead, -, hinf⟩ := drain_returned hs hc hturn hret hcur
  have hq := hs'.queuesOk hret
  have hready : v'.ready = [] := by
    have := hq.rqHead
    rw [hhead] at this
    exact this.eq_nil
  have hothers : ∀ i < s'.rt.nslots, i ≠ s.rt.current →
      (s'.rt.slots i).state = .free ∨ (s'.rt.slots i).state = .done ∨ (s'.rt.slots i).state = .joining := by
    intro i hi hic
    cases hst : (s'.rt.slots i).state with
    | free => exact .inl rfl
    | done => exact .inr (.inl rfl)
    | joining => exact .inr (.inr rfl)
    | ready =>
      have := (hq.ready_iff i).2 ⟨hi, hst⟩
      rw [hready] at this
      cases this
    | running => exact absurd (((hq.running i hi).1 hst).trans hcur) hic
    | waiting =>
      have hcount := hq.inflight
      rw [hinf, eq_comm, List.countP_eq_zero] at hcount
      exact absurd (decide_eq_true hst) (hcount i (List.mem_range.2 hi))
  refine ⟨⟨hhead, ?_, hinf, hq.zombies, hcur, ?_, hothers⟩, fun i hi hic hbusy => ?_⟩
  · rw [hq.rqTail, hready]
    rfl
  · rw [← hcur]
    exact (hq.running _ hq.current_lt).2 rfl
  · have hn : m.rt.nslots ≤ s'.rt.nslots := (run_keeps (hms.tail hturn) htm).2.nslots
    exact hm.ranOut hs' hl'.symm hi hbusy (hothers i (by omega) hic)

/-- Task 0 drains: task 1 parks on a read, task 2 finishes, the kernel completes the read and task 1 finishes. -/
theorem drain_ok_two : ∃ m s s' : Machine UringIo,
    Transition.run step (gtInit (UringIo.setup 3 4 7 9) 4096 false)
      [.async ⟨1, none⟩ spawnServed, .async ⟨2, none⟩ spawnServed, .drain] = some m ∧
    Transition.run step m [.turn, .io ⟨.read 0 512 8, false, none⟩, .turn, .finish, .turn, .turn,
      .kernel (.complete 0 8), .poll, .turn, .finish, .turn] = some s ∧
    step s .turn = some s' ∧
    Drained s'.rt s.rt.current ∧ ∀ i < m.rt.nslots, i ≠ s.rt.current →
      ((m.rt.slots i).state = .ready ∨ (m.rt.slots i).state = .waiting ∨ (m.rt.slots i).state = .running) →
      RanOut m s' i := by
  have hrun : ((Transition.run step (gtInit (UringIo.setup 3 4 7 9) 4096 false)
      [.async ⟨1, none⟩ spawnServed, .async ⟨2, none⟩ spawnServed, .drain]).bind fun m =>
        (Transition.run step m [.turn, .io ⟨.read 0 512 8, false, none⟩, .turn, .finish, .turn, .turn,
          .kernel (.complete 0 8), .poll, .turn, .finish, .turn]).bind fun s =>
            (step s .turn).map fun s' => ((s.ctl, s'.ctl), (s'.rt.current, s.rt.current), s'.rt.log)) =
      some ((.drain, .code), (0, 0), [.returned 1, .taken 1 0 .waiting, .returned 2, .started 2, .parked 1 0,
        .started 1, .spawned 2, .mprotected 8192 131072 .readWrite, .mapped 4096 135168 .none, .alloc 2, .spawned 1,
        .mprotected 8192 131072 .readWrite, .mapped 4096 135168 .none, .alloc 1, .started 0,
        .spawned 0, .alloc 0]) := by decide +kernel
  obtain ⟨m, hm, hrun⟩ := Option.bind_eq_some_iff.1 hrun
  obtain ⟨s, hs, hrun⟩ := Option.bind_eq_some_iff.1 hrun
  obtain ⟨s', hs', hend⟩ := Option.map_eq_some_iff.1 hrun
  simp only [Prod.mk.injEq] at hend
  obtain ⟨⟨hc, hret⟩, ⟨hcur', hcur⟩, hlog⟩ := hend
  have hstarted : IoBackend.Started (UringIo.setup 3 4 7 9) :=
    .inr ⟨3, 4, 7, 9, by decide, by decide, by decide, by decide, rfl⟩
  exact ⟨m, s, s', hm, hs, hs', drain_ok ⟨_, 4096, false, hstarted, _, hm⟩ ⟨_, hs⟩ hc hs' hret (hcur'.trans hcur.symm)
    (.of_not_detached fun t => by simp [hlog]) fun t => by simp [hlog]⟩

end Sppc
