import Sppc.Windows.IocpPackets

/-!
# The sleepers of a completion port

The sleepers are sorted by deadline, a poll wakes those whose time has come, and a wait on the port ends in time for
the first of them, by the timer's packet or by its own time-out.
-/

namespace Sppc.Windows

open Transition Iocp

/-- `t` comes before `u`: its deadline is earlier, or the same and it went to sleep first. -/
def Before (deadline : Nat → Int) (slept : Nat → Nat) (t u : Nat) : Prop :=
  deadline t < deadline u ∨ deadline t = deadline u ∧ slept t < slept u

/-! ### The list -/

/-- The sleepers are in order, and each went to sleep already. -/
structure SleepersOk (deadline : Nat → Int) (slept : Nat → Nat) (naps : Nat) (sleepers : List Nat) : Prop where
  sorted : sleepers.Pairwise (Before deadline slept)
  slept : ∀ t ∈ sleepers, slept t < naps

section list

variable {deadline deadline' : Nat → Int} {slept slept' : Nat → Nat} {naps t u : Nat}
  {ts sleepers sleepers' : List Nat}

private theorem Before.le (h : Before deadline slept t u) : deadline t ≤ deadline u := by
  rcases h with h | ⟨h, -⟩
  · exact Int.le_of_lt h
  · exact Int.le_of_eq h

private theorem SleepersOk.congr (h : SleepersOk deadline slept naps sleepers)
    (hdeadline : ∀ t ∈ sleepers, deadline' t = deadline t) (hslept : ∀ t ∈ sleepers, slept' t = slept t) :
    SleepersOk deadline' slept' naps sleepers where
  sorted := by
    refine h.sorted.imp_of_mem fun {t u} ht hu hb => ?_
    unfold Before
    rw [hdeadline t ht, hdeadline u hu, hslept t ht, hslept u hu]
    exact hb
  slept t ht := by
    rw [hslept t ht]
    exact h.slept t ht

private theorem SleepersOk.sublist (h : SleepersOk deadline slept naps sleepers) (hs : sleepers'.Sublist sleepers) :
    SleepersOk deadline slept naps sleepers' :=
  ⟨h.sorted.sublist hs, fun t ht => h.slept t (hs.subset ht)⟩

private theorem insertSleeper_sorted (h : ts.Pairwise (Before deadline slept)) (hlast : ∀ u ∈ ts, slept u < slept t) :
    (insertSleeper deadline t ts).Pairwise (Before deadline slept) := by
  induction ts with
  | nil => exact List.pairwise_singleton _ _
  | cons u us ih =>
    obtain ⟨hu, hus⟩ := List.pairwise_cons.1 h
    unfold insertSleeper
    split
    · rename_i hle
      refine List.pairwise_cons.2 ⟨fun v hv => ?_, ih hus fun v hv => hlast v (List.mem_cons_of_mem u hv)⟩
      rcases List.mem_cons.1 ((insertSleeper_perm deadline t us).mem_iff.1 hv) with rfl | hv
      · exact (Int.lt_or_eq_of_le hle).imp_right fun heq => ⟨heq, hlast u List.mem_cons_self⟩
      · exact hu v hv
    · rename_i hlt
      refine List.pairwise_cons.2 ⟨fun v hv => ?_, h⟩
      rcases List.mem_cons.1 hv with rfl | hv
      · exact Or.inl (Int.not_le.1 hlt)
      · exact Or.inl (Int.lt_of_lt_of_le (Int.not_le.1 hlt) (hu v hv).le)

/-- A task that is not asleep goes to sleep. -/
private theorem SleepersOk.insert (h : SleepersOk deadline slept naps sleepers) (ht : t ∉ sleepers) (d : Int) :
    SleepersOk (Function.update deadline t d) (Function.update slept t naps) (naps + 1)
      (insertSleeper (Function.update deadline t d) t sleepers) := by
  have hne {u : Nat} (hu : u ∈ sleepers) : u ≠ t := by
    rintro rfl
    exact ht hu
  have h' : SleepersOk (Function.update deadline t d) (Function.update slept t naps) naps sleepers :=
    h.congr (fun u hu => Function.update_of_ne (hne hu) ..) (fun u hu => Function.update_of_ne (hne hu) ..)
  refine ⟨insertSleeper_sorted h'.sorted fun u hu => ?_, fun u hu => ?_⟩
  · rw [Function.update_self]
    exact h'.slept u hu
  · rcases List.mem_cons.1 ((insertSleeper_perm _ t sleepers).mem_iff.1 hu) with rfl | hu
    · rw [Function.update_self]
      exact Nat.lt_succ_self _
    · exact Nat.lt_succ_of_lt (h'.slept u hu)

end list

namespace Iocp

variable {s s' : Iocp} {t : Nat}

/-! ### The sleepers woken -/

/-- What a poll's last loop does, from the state in which it reads the clock. -/
structure Woken (s s' : Iocp) : Prop where
  rq : s'.rq = s.rq ++ s.sleepers.filter (s.deadline · ≤ s.now)
  sleepers : s'.sleepers = s.sleepers.filter (s.now < s.deadline ·)
  state : ∀ t, s'.state t = if t ∈ s.sleepers ∧ s.deadline t ≤ s.now then .ready else s.state t

private theorem deadline_push : (s.push t).deadline = s.deadline := by
  change (s.modify t fun task => { task with state := .ready }).deadline = s.deadline
  rw [deadline_modify]
  exact Function.update_eq_self ..

private theorem wakeFrom_frame (ts : List Nat) : ∃ slots rq sleepers inflight,
    s.wakeFrom ts = { s with slots := slots, rq := rq, sleepers := sleepers, inflight := inflight } := by
  induction ts generalizing s with
  | nil => exact ⟨_, _, _, _, rfl⟩
  | cons t ts ih =>
    unfold wakeFrom
    split
    · obtain ⟨slots, rq, sleepers, inflight, h⟩ := ih (s := Iocp.push { s with inflight := s.inflight - 1 } t)
      exact ⟨slots, rq, sleepers, inflight, h⟩
    · exact ⟨_, _, _, _, rfl⟩

private theorem wakeFrom_deadline (ts : List Nat) : (s.wakeFrom ts).deadline = s.deadline := by
  induction ts generalizing s with
  | nil => rfl
  | cons t ts ih =>
    unfold wakeFrom
    split
    · rw [ih]
      exact deadline_push (s := { s with inflight := s.inflight - 1 })
    · rfl

/-- The loop stops at the first sleeper whose time has not come, and so have the times of those behind it not. -/
private theorem wakeFrom_woken {ts : List Nat} {slept : Nat → Nat} (h : ts.Pairwise (Before s.deadline slept)) :
    Woken { s with sleepers := ts } (s.wakeFrom ts) := by
  induction ts generalizing s with
  | nil => exact ⟨(List.append_nil _).symm, rfl, fun t => (if_neg fun ht => nomatch ht.1).symm⟩
  | cons t ts ih =>
    obtain ⟨ht, hts⟩ := List.pairwise_cons.1 h
    unfold wakeFrom
    split
    · rename_i hle
      have hdeadline : Iocp.deadline (Iocp.push { s with inflight := s.inflight - 1 } t) = s.deadline :=
        deadline_push (s := { s with inflight := s.inflight - 1 })
      have hstate : Iocp.state (Iocp.push { s with inflight := s.inflight - 1 } t) =
          Function.update s.state t .ready :=
        state_push (s := { s with inflight := s.inflight - 1 })
      have hlist : ts.Pairwise (Before (Iocp.deadline (Iocp.push { s with inflight := s.inflight - 1 } t))
          slept) := by
        rw [hdeadline]
        exact hts
      obtain ⟨hrq, hsleepers, hwoken⟩ := ih (s := Iocp.push { s with inflight := s.inflight - 1 } t) hlist
      refine ⟨?_, ?_, fun u => ?_⟩
      · rw [hrq]
        change (s.rq ++ [t]) ++
          ts.filter (Iocp.deadline (Iocp.push { s with inflight := s.inflight - 1 } t) · ≤ s.now) =
          s.rq ++ (t :: ts).filter (s.deadline · ≤ s.now)
        rw [hdeadline, List.filter_cons_of_pos (by simpa using hle), List.append_assoc, List.singleton_append]
      · rw [hsleepers]
        change ts.filter (s.now < Iocp.deadline (Iocp.push { s with inflight := s.inflight - 1 } t) ·) =
          (t :: ts).filter (s.now < s.deadline ·)
        rw [hdeadline, List.filter_cons_of_neg (by simpa using hle)]
      · rw [hwoken u]
        change (if u ∈ ts ∧ Iocp.deadline (Iocp.push { s with inflight := s.inflight - 1 } t) u ≤ s.now then
          GtState.ready else Iocp.state (Iocp.push { s with inflight := s.inflight - 1 } t) u) =
          if u ∈ t :: ts ∧ s.deadline u ≤ s.now then GtState.ready else s.state u
        rw [hdeadline, hstate]
        by_cases hut : u = t
        · subst hut
          simp [hle]
        · simp [hut]
    · rename_i hlt
      have hlater : ∀ u ∈ t :: ts, s.now < s.deadline u := by
        intro u hu
        rcases List.mem_cons.1 hu with rfl | hu
        · exact Int.not_le.1 hlt
        · exact Int.lt_of_lt_of_le (Int.not_le.1 hlt) (ht u hu).le
      refine ⟨?_, ?_, fun u => ?_⟩
      · change s.rq = s.rq ++ (t :: ts).filter (s.deadline · ≤ s.now)
        rw [List.filter_eq_nil_iff.2 fun u hu => by simpa using hlater u hu, List.append_nil]
      · exact (List.filter_eq_self.2 fun u hu => decide_eq_true (hlater u hu)).symm
      · exact (if_neg fun hu => absurd hu.2 (Int.not_le.2 (hlater u hu.1))).symm

/-! ### The sleepers left alone -/

/-- The sleepers and what is in their blocks stay as they are. -/
structure Aside (s s' : Iocp) : Prop where
  sleepers : s'.sleepers = s.sleepers
  slots : ∀ t ∈ s.sleepers, s'.slots t = s.slots t
  slept : s'.slept = s.slept
  naps : s'.naps = s.naps

private theorem Aside.of_update {task : IocpTask} (ht : t ∉ s.sleepers)
    (hslots : s'.slots = Function.update s.slots t task) (hsleepers : s'.sleepers = s.sleepers)
    (hslept : s'.slept = s.slept) (hnaps : s'.naps = s.naps) : Aside s s' where
  sleepers := hsleepers
  slots u hu := by
    rw [hslots]
    exact Function.update_of_ne (ne_of_mem_of_not_mem hu ht) ..
  slept := hslept
  naps := hnaps

private theorem Aside.of_slots (hslots : s'.slots = s.slots) (hsleepers : s'.sleepers = s.sleepers)
    (hslept : s'.slept = s.slept) (hnaps : s'.naps = s.naps) : Aside s s' :=
  ⟨hsleepers, fun t _ => congrFun hslots t, hslept, hnaps⟩

private theorem poll_aside (limit : Int) : Aside s (s.poll limit) := by
  unfold poll
  dsimp only
  split
  · exact .of_slots rfl rfl rfl rfl
  · split
    · exact .of_slots rfl rfl rfl rfl
    · split
      · exact .of_slots rfl rfl rfl rfl
      · exact .of_slots rfl rfl rfl rfl

/-- The program leaves the sleepers alone, but for the tasks that go to sleep. -/
private theorem program_aside {e : IocpEvent} (h : IocpOk s) (hstep : s.program e = some s')
    (he : ∀ d, e ≠ .sleep d) : Aside s s' := by
  have hnot {t : Nat} {st : GtState} (ht : s.state t = st) (hst : st ≠ .waiting) : t ∉ s.sleepers := by
    intro hmem
    exact hst (ht.symm.trans (h.packets.asleep t hmem))
  cases e
  case start =>
    simp only [program] at hstep
    split at hstep <;> cases hstep
    exact .of_slots rfl rfl rfl rfl
  case sleep d => exact absurd rfl (he d)
  case block =>
    simp only [program] at hstep
    split at hstep <;> cases hstep
    rename_i hrun
    exact .of_update (hnot hrun (fun h => by cases h)) rfl rfl rfl rfl
  case finish =>
    simp only [program] at hstep
    split at hstep <;> cases hstep
    rename_i hrun
    exact .of_update (hnot hrun (fun h => by cases h)) rfl rfl rfl rfl
  case yield =>
    simp only [program] at hstep
    split at hstep
    · rename_i t ts hrq
      split at hstep <;> cases hstep
      rename_i hrun
      have ht : s.state t = .ready := (h.tasks.ready t).1 (by rw [hrq]; exact List.mem_cons_self)
      refine ⟨rfl, fun u hu => ?_, rfl, rfl⟩
      refine (Function.update_of_ne (ne_of_mem_of_not_mem hu (hnot ht (fun h => by cases h))) ..).trans ?_
      exact Function.update_of_ne (ne_of_mem_of_not_mem hu (hnot hrun (fun h => by cases h))) ..
    · cases hstep
  case switch =>
    simp only [program] at hstep
    split at hstep
    · rename_i t ts hrq
      split at hstep <;> cases hstep
      have ht : s.state t = .ready := (h.tasks.ready t).1 (by rw [hrq]; exact List.mem_cons_self)
      exact .of_update (hnot ht (fun h => by cases h)) rfl rfl rfl rfl
    · cases hstep
  case wake t =>
    simp only [program] at hstep
    split at hstep <;> cases hstep
    rename_i ht
    exact .of_update (hnot ht.2 (fun h => by cases h)) rfl rfl rfl rfl
  case spawn t =>
    simp only [program] at hstep
    split at hstep <;> cases hstep
    rename_i ht
    have hmem : t ∉ s.sleepers := by
      rcases ht with ht | rfl
      · exact hnot ht.2 (fun h => by cases h)
      · intro hmem
        refine absurd (h.tasks.lt _ ?_) (Nat.lt_irrefl s.nslots)
        rw [h.packets.asleep _ hmem]
        exact fun h => by cases h
    refine ⟨rfl, fun u hu => ?_, rfl, rfl⟩
    have hut : u ≠ t := ne_of_mem_of_not_mem hu hmem
    exact (Function.update_of_ne hut ..).trans (Function.update_of_ne hut ..)
  case poll limit =>
    cases hstep
    exact poll_aside limit
  case teardown =>
    cases hstep
    exact .of_slots rfl rfl rfl rfl
  case run => cases hstep
  case answer => cases hstep
  case batch => cases hstep
  case timeout => cases hstep
  case complete => cases hstep
  case fire => cases hstep
  case tick => cases hstep

private theorem takes_frame (done : List (Option Nat)) : ∃ slots rq inflight readied, done.foldl take s =
    { s with
      slots := slots, rq := rq, inflight := inflight, readied := readied
      armed := s.armed && decide (none ∉ done) } := by
  induction done generalizing s with
  | nil => exact ⟨s.slots, s.rq, s.inflight, s.readied, by simp⟩
  | cons p done ih =>
    obtain ⟨slots, rq, inflight, readied, h⟩ := ih (s := s.take p)
    refine ⟨slots, rq, inflight, readied, ?_⟩
    rw [List.foldl_cons, h]
    cases p with
    | none => simp [take]
    | some t => simp [take, push, setState, modify]

private theorem takes_slots {done : List (Option Nat)} (h : some t ∉ done) :
    (done.foldl take s).slots t = s.slots t := by
  induction done generalizing s with
  | nil => rfl
  | cons p done ih =>
    rw [List.mem_cons, not_or] at h
    rw [List.foldl_cons, ih h.2]
    cases p with
    | none => rfl
    | some u =>
      have htu : t ≠ u := fun heq => h.1 (congrArg some heq)
      exact (Function.update_of_ne htu ..).trans (Function.update_of_ne htu ..)

private theorem thread_aside {e : IocpEvent} (h : IocpInv s) (hstep : s.thread e = some s') (he : ∀ d, e ≠ .sleep d)
    (hwake : s.phase ≠ .wake) (htorn : ¬(s.phase = .teardown 0 ∧ e = .run)) : Aside s s' := by
  unfold thread at hstep
  split at hstep
  · rename_i e _ _ hidle
    exact program_aside (h.ok ⟨by simp [hidle], by simp [hidle]⟩) hstep he
  · rename_i hstarting
    cases hstep
    have hok := h.ok ⟨by simp [hstarting], by simp [hstarting]⟩
    have hrun : s.state s.current = .running := by
      refine hok.packets.opens _ ?_
      rw [opening, if_pos hstarting]
      exact List.mem_singleton_self _
    exact .of_update (fun hmem => nomatch hrun.symm.trans (hok.packets.asleep _ hmem)) rfl rfl rfl rfl
  · cases hstep
    unfold arm waitMs
    split
    · dsimp only
      split
      · exact .of_slots rfl rfl rfl rfl
      · exact .of_slots rfl rfl rfl rfl
    · exact .of_slots rfl rfl rfl rfl
  · cases hstep
    unfold associate waitMs
    split
    · split
      · exact .of_slots rfl rfl rfl rfl
      · exact .of_slots rfl rfl rfl rfl
    · exact .of_slots rfl rfl rfl rfl
  · rename_i w n hwait
    split at hstep <;> cases hstep
    have hok := h.ok ⟨by simp [hwait], by simp [hwait]⟩
    obtain ⟨slots, rq, inflight, readied, heq⟩ :=
      takes_frame (s := { s with port := s.port.drop n, phase := .wake }) (s.port.take n)
    have hslots (t : Nat) (ht : t ∈ s.sleepers) :
        ((s.port.take n).foldl take { s with port := s.port.drop n, phase := .wake }).slots t = s.slots t := by
      refine takes_slots (s := { s with port := s.port.drop n, phase := .wake }) fun hmem => ?_
      have hflight : t ∈ s.flight :=
        List.mem_append_right _ (List.mem_filterMap.2 ⟨some t, List.mem_of_mem_take hmem, rfl⟩)
      rcases (hok.packets.mem t).1 hflight with hhandle | hopening
      · exact (hok.packets.handles t hhandle).2 ht
      · rw [opening_of_ne (by simp [hwait])] at hopening
        cases hopening
    rw [heq] at hslots ⊢
    exact ⟨rfl, hslots, rfl, rfl⟩
  · split at hstep
    · split at hstep <;> cases hstep
      exact .of_slots rfl rfl rfl rfl
    · cases hstep
  · rename_i h
    exact absurd h hwake
  · split at hstep <;> cases hstep
    exact .of_slots rfl rfl rfl rfl
  · rename_i hteardown
    exact absurd ⟨hteardown, rfl⟩ htorn
  · cases hstep

/-- The sleepers and their blocks stay as they are, but in a call that goes to sleep, in the last loop of a poll, and
at the thread's end. -/
private theorem step_aside {e : IocpEvent} (h : IocpInv s) (hstep : s.step e = some s') (he : ∀ d, e ≠ .sleep d)
    (hwake : ¬(s.phase = .wake ∧ e = .run)) (htorn : ¬(s.phase = .teardown 0 ∧ e = .run)) : Aside s s' := by
  unfold step at hstep
  split at hstep
  · split at hstep <;> cases hstep
    exact .of_slots rfl rfl rfl rfl
  · split at hstep
    · split at hstep <;> cases hstep
      split
      · exact .of_slots rfl rfl rfl rfl
      · exact .of_slots rfl rfl rfl rfl
    · cases hstep
  · split at hstep <;> cases hstep
    exact .of_slots rfl rfl rfl rfl
  · refine thread_aside h hstep he (fun hphase => ?_) htorn
    have hrun : e ≠ .run := fun heq => hwake ⟨hphase, heq⟩
    unfold thread at hstep
    rw [hphase] at hstep
    cases e <;> first | exact hrun rfl | cases hstep

/-! ### The timer -/

/-- While the thread thinks that the timer is armed, its packet is on the port or is to come; and it goes
off in time. -/
structure TimerOk (s : Iocp) : Prop where
  armed : s.armed = true → none ∈ s.port ∨ s.tied = true
  due : ∀ d ∈ s.due, s.now ≤ d

/-- The wait on the port is over by `d`: there is a packet, or its own time-out ends then, or the timer goes off then
and posts its packet. -/
def Ends (s : Iocp) (w : PortWait) (d : Int) : Prop :=
  s.now ≤ d ∧ (s.port ≠ [] ∨ (∃ ms ∈ w.limit, w.start + ms * 1000000 = d) ∨
    w.limit = none ∧ s.tied = true ∧ s.due = some d)

/-- The wait is over as soon as it begins, or when the time left to a deadline is, to the millisecond. -/
def InTime (s : Iocp) (w : PortWait) (deadline : Int) : Prop :=
  ∃ d, (d = w.start ∨ d < w.start + (deadline - w.read) + 1000000) ∧ s.Ends w d

/-- No poll waits longer than the sleepers' deadlines allow.  One of `_GT_IOCP_NEVER` or more never comes. -/
structure Timed (s : Iocp) : Prop where
  arm : ∀ read left, s.phase = .arm read left → read ≤ s.now ∧ 0 < left ∧ ∀ t ∈ s.sleepers, left ≤ s.deadline t - read
  associate : ∀ read left, s.phase = .associate read left → read ≤ s.now ∧ 0 < left ∧
    (∀ t ∈ s.sleepers, left ≤ s.deadline t - read) ∧
    (s.signaled = true ∨ none ∈ s.port ∨ ∃ d ∈ s.due, d < s.now + left + 100)
  wait : ∀ w, s.phase = .wait w → w.read ≤ w.start ∧
    ∀ t ∈ s.sleepers, s.deadline t < iocpNever → s.InTime w (s.deadline t)

private theorem TimerOk.congr (h : TimerOk s) (harmed : s'.armed = s.armed) (hport : s'.port = s.port)
    (htied : s'.tied = s.tied) (hdue : s'.due = s.due) (hnow : s'.now = s.now) : TimerOk s' where
  armed := by
    rw [harmed, hport, htied]
    exact h.armed
  due := by
    rw [hdue, hnow]
    exact h.due

private theorem Timed.of_phase {phase : IocpPhase} (h : s.phase = phase) (harm : ∀ read left, phase ≠ .arm read left)
    (hassociate : ∀ read left, phase ≠ .associate read left) (hwait : ∀ w, phase ≠ .wait w) : Timed s where
  arm read left h' := absurd (h.symm.trans h') (harm read left)
  associate read left h' := absurd (h.symm.trans h') (hassociate read left)
  wait w h' := absurd (h.symm.trans h') (hwait w)

private theorem Timed.of_wait {w : PortWait} (h : s.phase = .wait w) (hread : w.read ≤ w.start)
    (hw : ∀ t ∈ s.sleepers, s.deadline t < iocpNever → s.InTime w (s.deadline t)) : Timed s where
  arm _ _ h' := nomatch h.symm.trans h'
  associate _ _ h' := nomatch h.symm.trans h'
  wait w' h' := by
    cases h.symm.trans h'
    exact ⟨hread, hw⟩

private theorem waitUntil_le {slept : Nat → Nat} (h : s.sleepers.Pairwise (Before s.deadline slept)) (limit : Int)
    (ht : t ∈ s.sleepers) : s.waitUntil limit ≤ s.deadline t := by
  unfold waitUntil
  split
  · rename_i u us hsleepers
    rw [hsleepers] at h ht
    have hle : s.deadline u ≤ s.deadline t := by
      rcases List.mem_cons.1 ht with rfl | ht
      · exact Int.le_refl _
      · exact ((List.pairwise_cons.1 h).1 t ht).le
    split <;> omega
  · rename_i hsleepers
    rw [hsleepers] at ht
    cases ht

/-- A wait whose time-out is no longer than the time left to the deadline, to the millisecond. -/
private theorem InTime.of_limit {w : PortWait} {ms : Nat} {deadline : Int} (hlimit : w.limit = some ms)
    (hnow : s.now = w.start) (hms : ms = 0 ∨ (ms : Int) * 1000000 < deadline - w.read + 1000000) :
    s.InTime w deadline := by
  refine ⟨w.start + ms * 1000000, ?_, by omega, Or.inr (Or.inl ⟨ms, hlimit, rfl⟩)⟩
  rcases hms with rfl | hms
  · exact Or.inl (by simp)
  · exact Or.inr (by omega)

private theorem timeoutMs_lt {left : Int} (h : 0 < left) : (timeoutMs left : Int) * 1000000 < left + 1000000 := by
  unfold timeoutMs
  split <;> omega

/-- `_gt_iocp_poll` up to `_gt_iocp_arm`. -/
private theorem poll_timed {slept : Nat → Nat} (h : s.sleepers.Pairwise (Before s.deadline slept)) (limit : Int) :
    Timed (s.poll limit) := by
  unfold poll
  dsimp only
  split
  · rename_i hnever
    refine .of_wait rfl (Int.le_refl _) fun t ht hlt => ?_
    have hle : s.waitUntil limit ≤ s.deadline t := waitUntil_le h limit ht
    rw [hnever] at hle
    exact absurd hlt (Int.not_lt.2 hle)
  · split
    · exact .of_wait rfl (Int.le_refl _) fun t _ _ => .of_limit rfl rfl (Or.inl rfl)
    · split
      · exact .of_wait rfl (Int.le_refl _) fun t _ _ => .of_limit rfl rfl (Or.inl rfl)
      · rename_i hleft
        refine ⟨fun read left heq => ?_, nofun, nofun⟩
        cases heq
        exact ⟨Int.le_refl _, Int.not_le.1 hleft, fun t ht => Int.sub_le_sub_right (waitUntil_le h limit ht) _⟩

/-- The wait after `_gt_iocp_arm` has returned false. -/
private theorem waitMs_timed {read left : Int} (hread : read ≤ s.now) (hleft : 0 < left)
    (hle : ∀ t ∈ s.sleepers, left ≤ s.deadline t - read) : Timed (s.waitMs read left) := by
  refine .of_wait rfl hread fun t ht _ => .of_limit rfl rfl (Or.inr ?_)
  exact Int.lt_of_lt_of_le (timeoutMs_lt hleft) (Int.add_le_add_right (hle t ht) _)

private theorem arm_timed {read left : Int} {yes : Bool} (h : TimerOk s) (ht : Timed s)
    (hphase : s.phase = .arm read left) : TimerOk (s.arm read left yes) ∧ Timed (s.arm read left yes) := by
  obtain ⟨hread, hleft, hle⟩ := ht.arm read left hphase
  have hdue : s.now ≤ s.now + 100 * dueUnits left ∧ s.now + 100 * dueUnits left < s.now + left + 100 := by
    unfold dueUnits
    omega
  have htimer : TimerOk { s with due := some (s.now + 100 * dueUnits left), signaled := false } := by
    refine ⟨h.armed, fun d hd => ?_⟩
    cases hd
    exact hdue.1
  unfold arm
  split
  · dsimp only
    split
    · rename_i harmed
      refine ⟨htimer.congr rfl rfl rfl rfl rfl, .of_wait rfl hread fun t ht _ => ?_⟩
      -- the packet of an earlier arming may still be on the port
      rcases h.armed harmed with hport | htied
      · exact ⟨s.now, Or.inl rfl, Int.le_refl _, Or.inl (List.ne_nil_of_mem hport)⟩
      · refine ⟨s.now + 100 * dueUnits left, Or.inr ?_, hdue.1, Or.inr (Or.inr ⟨rfl, htied, rfl⟩)⟩
        have := hle t ht
        show s.now + 100 * dueUnits left < s.now + (s.deadline t - read) + 1000000
        omega
    · refine ⟨htimer.congr rfl rfl rfl rfl rfl, nofun, fun read' left' heq => ?_, nofun⟩
      cases heq
      exact ⟨hread, hleft, hle, Or.inr (Or.inr ⟨_, rfl, hdue.2⟩)⟩
  · exact ⟨h.congr rfl rfl rfl rfl rfl, waitMs_timed hread hleft hle⟩

private theorem associate_timed {read left : Int} {yes : Bool} (h : TimerOk s) (ht : Timed s)
    (hphase : s.phase = .associate read left) :
    TimerOk (s.associate read left yes) ∧ Timed (s.associate read left yes) := by
  obtain ⟨hread, hleft, hle, hgone⟩ := ht.associate read left hphase
  unfold associate
  split
  · split
    · refine ⟨⟨fun _ => Or.inl ?_, h.due⟩, ?_⟩
      · exact List.mem_append_right _ (List.mem_singleton_self _)
      · exact waitMs_timed (s := { s with signaled := false, port := s.port ++ [none] }) hread hleft hle
    · rename_i hsignaled
      refine ⟨⟨fun _ => Or.inr rfl, h.due⟩, .of_wait rfl hread fun t ht _ => ?_⟩
      rcases hgone.resolve_left hsignaled with hport | ⟨d, hd, hlt⟩
      · exact ⟨s.now, Or.inl rfl, Int.le_refl _, Or.inl (List.ne_nil_of_mem hport)⟩
      · refine ⟨d, Or.inr ?_, h.due d hd, Or.inr (Or.inr ⟨rfl, rfl, hd⟩)⟩
        have := hle t ht
        show d < s.now + (s.deadline t - read) + 1000000
        omega
  · exact ⟨h.congr rfl rfl rfl rfl rfl, waitMs_timed hread hleft hle⟩

private theorem program_timed {e : IocpEvent} {slept : Nat → Nat} (h : TimerOk s) (hidle : s.phase = .idle)
    (hs : s.sleepers.Pairwise (Before s.deadline slept)) (hstep : s.program e = some s') : TimerOk s' ∧ Timed s' := by
  have hquiet {s' : Iocp} (harmed : s'.armed = s.armed) (hport : s'.port = s.port) (htied : s'.tied = s.tied)
      (hdue : s'.due = s.due) (hnow : s'.now = s.now) (hphase : s'.phase = s.phase) : TimerOk s' ∧ Timed s' :=
    ⟨h.congr harmed hport htied hdue hnow, .of_phase (hphase.trans hidle) (fun _ _ h => by cases h)
      (fun _ _ h => by cases h) (fun _ h => by cases h)⟩
  cases e
  case start =>
    simp only [program] at hstep
    split at hstep <;> cases hstep
    exact ⟨h.congr rfl rfl rfl rfl rfl, .of_phase rfl (fun _ _ h => by cases h) (fun _ _ h => by cases h)
      (fun _ h => by cases h)⟩
  case teardown =>
    cases hstep
    exact ⟨h.congr rfl rfl rfl rfl rfl, .of_phase rfl (fun _ _ h => by cases h) (fun _ _ h => by cases h)
      (fun _ h => by cases h)⟩
  case poll limit =>
    cases hstep
    refine ⟨?_, poll_timed hs limit⟩
    unfold poll
    dsimp only
    split
    · exact h.congr rfl rfl rfl rfl rfl
    · split
      · exact h.congr rfl rfl rfl rfl rfl
      · split
        · exact h.congr rfl rfl rfl rfl rfl
        · exact h.congr rfl rfl rfl rfl rfl
  case yield | switch =>
    simp only [program] at hstep
    split at hstep
    · split at hstep <;> cases hstep
      exact hquiet rfl rfl rfl rfl rfl rfl
    · cases hstep
  case sleep | block | finish | wake | spawn =>
    simp only [program] at hstep
    split at hstep <;> cases hstep
    exact hquiet rfl rfl rfl rfl rfl rfl
  case run | answer | batch | timeout | complete | fire | tick => cases hstep

private theorem thread_timed {e : IocpEvent} {slept : Nat → Nat} (h : TimerOk s) (ht : Timed s) (hlive : s.Live)
    (hs : s.sleepers.Pairwise (Before s.deadline slept)) (hstep : s.thread e = some s') : TimerOk s' ∧ Timed s' := by
  unfold thread at hstep
  split at hstep
  · rename_i hidle
    exact program_timed h hidle hs hstep
  · cases hstep
    exact ⟨h.congr rfl rfl rfl rfl rfl, .of_phase rfl nofun nofun nofun⟩
  · rename_i hphase
    cases hstep
    exact arm_timed h ht hphase
  · rename_i hphase
    cases hstep
    exact associate_timed h ht hphase
  · rename_i w n hwait
    split at hstep <;> cases hstep
    obtain ⟨slots, rq, inflight, readied, heq⟩ :=
      takes_frame (s := { s with port := s.port.drop n, phase := .wake }) (s.port.take n)
    rw [heq]
    refine ⟨⟨fun harmed => ?_, h.due⟩, .of_phase rfl nofun nofun nofun⟩
    rw [Bool.and_eq_true, decide_eq_true_eq] at harmed
    refine (h.armed harmed.1).imp_left fun hport => ?_
    rw [← List.take_append_drop n s.port] at hport
    exact (List.mem_append.1 hport).resolve_left harmed.2
  · split at hstep
    · split at hstep <;> cases hstep
      exact ⟨h.congr rfl rfl rfl rfl rfl, .of_phase rfl nofun nofun nofun⟩
    · cases hstep
  · cases hstep
    obtain ⟨slots, rq, sleepers, inflight, heq⟩ := wakeFrom_frame (s := s) s.sleepers
    rw [heq]
    exact ⟨h.congr rfl rfl rfl rfl rfl, .of_phase rfl nofun nofun nofun⟩
  · rename_i hteardown
    exact absurd hteardown (hlive.2 _)
  · rename_i hteardown
    exact absurd hteardown (hlive.2 0)
  · cases hstep

private theorem InTime.of_port {w : PortWait} {deadline : Int} {port : List (Option Nat)} (h : s.InTime w deadline)
    (hport : port ≠ []) (hnow : s'.now = s.now) (hport' : s'.port = port) : s'.InTime w deadline := by
  obtain ⟨d, hd, hle, -⟩ := h
  refine ⟨d, hd, ?_, Or.inl ?_⟩
  · rw [hnow]
    exact hle
  · rw [hport']
    exact hport

private theorem complete_timed {pending : List Nat} (h : Timed s) :
    Timed { s with pending := pending, port := s.port ++ [some t] } where
  arm := h.arm
  associate read left hphase := by
    obtain ⟨hread, hleft, hle, hgone⟩ := h.associate read left hphase
    exact ⟨hread, hleft, hle, hgone.imp_right (Or.imp_left (List.mem_append_left _))⟩
  wait w hw := by
    obtain ⟨hread, hin⟩ := h.wait w hw
    exact ⟨hread, fun t ht hlt => (hin t ht hlt).of_port (List.concat_ne_nil _ _) rfl rfl⟩

private theorem fire_timed (h : Timed s) : Timed { s with due := none, tied := false, port := s.port ++ [none] } where
  arm := h.arm
  associate read left hphase := by
    obtain ⟨hread, hleft, hle, -⟩ := h.associate read left hphase
    exact ⟨hread, hleft, hle, Or.inr (Or.inl (List.mem_append_right _ (List.mem_singleton_self _)))⟩
  wait w hw := by
    obtain ⟨hread, hin⟩ := h.wait w hw
    exact ⟨hread, fun t ht hlt => (hin t ht hlt).of_port (List.concat_ne_nil _ _) rfl rfl⟩

private theorem signal_timed (h : Timed s) (htied : ¬s.tied = true) :
    Timed { s with due := none, signaled := true } where
  arm := h.arm
  associate read left hphase := by
    obtain ⟨hread, hleft, hle, -⟩ := h.associate read left hphase
    exact ⟨hread, hleft, hle, Or.inl rfl⟩
  wait w hw := by
    obtain ⟨hread, hin⟩ := h.wait w hw
    refine ⟨hread, fun t ht hlt => ?_⟩
    obtain ⟨d, hd, hnow, hends⟩ := hin t ht hlt
    exact ⟨d, hd, hnow, hends.imp_right (Or.imp_right fun h' => absurd h'.2.1 htied)⟩

private theorem tick_timed {ns : Nat} (h : Timed s) (hlasts : s.Lasts ns) : Timed { s with now := s.now + ns } where
  arm read left hphase := by
    obtain ⟨hread, hleft, hle⟩ := h.arm read left hphase
    exact ⟨show read ≤ s.now + ns by omega, hleft, hle⟩
  associate read left hphase := by
    obtain ⟨hread, hleft, hle, hgone⟩ := h.associate read left hphase
    refine ⟨show read ≤ s.now + ns by omega, hleft, hle, hgone.imp_right (Or.imp_right ?_)⟩
    rintro ⟨d, hd, hlt⟩
    exact ⟨d, hd, show d < s.now + ns + left + 100 by omega⟩
  wait w hw := by
    obtain ⟨hread, hin⟩ := h.wait w hw
    refine ⟨hread, fun t ht hlt => ?_⟩
    obtain ⟨d, hd, -, hends⟩ := hin t ht hlt
    have hlasts' := hlasts.2
    rw [hw] at hlasts'
    refine ⟨d, hd, ?_, hends⟩
    show s.now + ns ≤ d
    rcases hends with hport | ⟨ms, hms, rfl⟩ | ⟨-, -, hdue⟩
    · exact absurd hlasts'.1 hport
    · exact hlasts'.2 ms hms
    · exact hlasts.1 d hdue

private theorem step_timed {e : IocpEvent} {slept : Nat → Nat} (h : TimerOk s) (ht : Timed s) (hlive : s.Live)
    (hs : s.sleepers.Pairwise (Before s.deadline slept)) (hstep : s.step e = some s') : TimerOk s' ∧ Timed s' := by
  unfold step at hstep
  split at hstep
  · split at hstep <;> cases hstep
    exact ⟨⟨fun harmed => (h.armed harmed).imp_left (List.mem_append_left _), h.due⟩, complete_timed ht⟩
  · split at hstep
    · split at hstep <;> cases hstep
      split
      · exact ⟨⟨fun _ => Or.inl (List.mem_append_right _ (List.mem_singleton_self _)), nofun⟩, fire_timed ht⟩
      · rename_i htied
        exact ⟨⟨h.armed, nofun⟩, signal_timed ht htied⟩
    · cases hstep
  · split at hstep <;> cases hstep
    rename_i ns hlasts
    exact ⟨⟨h.armed, hlasts.1⟩, tick_timed ht hlasts⟩
  · exact thread_timed h ht hlive hs hstep

/-! ### Every run -/

private theorem thread_live {e : IocpEvent} (hstep : s.thread e = some s') (hlive : s'.Live) : s.Live := by
  refine ⟨fun htorn => ?_, fun m hm => ?_⟩
  · unfold thread at hstep
    rw [htorn] at hstep
    cases e <;> cases hstep
  · unfold thread at hstep
    rw [hm] at hstep
    cases e
    case batch n =>
      cases m with
      | zero => cases hstep
      | succ m =>
        dsimp only at hstep
        split at hstep <;> cases hstep
        exact hlive.2 _ rfl
    case run =>
      cases m with
      | zero =>
        cases hstep
        exact hlive.1 rfl
      | succ m => cases hstep
    all_goals cases m <;> cases hstep

/-- The teardown is the last thing that happens. -/
private theorem step_live {e : IocpEvent} (hstep : s.step e = some s') (hlive : s'.Live) : s.Live := by
  unfold step at hstep
  split at hstep
  · split at hstep <;> cases hstep
    exact hlive
  · split at hstep
    · split at hstep <;> cases hstep
      split at hlive
      · exact hlive
      · exact hlive
    · cases hstep
  · split at hstep <;> cases hstep
    exact hlive
  · exact thread_live hstep hlive

private theorem sleep_eq {d : Int} (hstep : s.step (.sleep d) = some s') :
    s.phase = .idle ∧ s.state s.current = .running ∧ s' = s.sleepUntil d := by
  change s.thread (.sleep d) = some s' at hstep
  cases hphase : s.phase
  all_goals
    unfold thread at hstep
    rw [hphase] at hstep
  case idle =>
    change s.program (.sleep d) = some s' at hstep
    simp only [program] at hstep
    split at hstep <;> cases hstep
    rename_i hrun
    exact ⟨rfl, hrun, rfl⟩
  case teardown m => cases m <;> cases hstep
  all_goals cases hstep

private theorem wake_eq (hphase : s.phase = .wake) (hstep : s.step .run = some s') :
    s' = { s.wakeFrom s.sleepers with phase := .idle } := by
  change s.thread .run = some s' at hstep
  unfold thread at hstep
  rw [hphase] at hstep
  exact (Option.some.inj hstep).symm

private theorem torn_eq (hphase : s.phase = .teardown 0) (hstep : s.step .run = some s') : s'.sleepers = [] := by
  change s.thread .run = some s' at hstep
  unfold thread at hstep
  rw [hphase] at hstep
  cases hstep
  rfl

private theorem sleepUntil_deadline (d : Int) :
    (s.sleepUntil d).deadline = Function.update s.deadline s.current d := by
  funext u
  by_cases hu : u = s.current
  · subst hu
    simp [deadline, sleepUntil, setState, modify]
  · simp [deadline, sleepUntil, setState, modify, hu]

private theorem sleepUntil_sleepers (d : Int) : (s.sleepUntil d).sleepers =
    insertSleeper (Function.update s.deadline s.current d) s.current s.sleepers := by
  change insertSleeper (s.modify s.current fun task => { task with deadline := d }).deadline s.current s.sleepers = _
  rw [deadline_modify]

private theorem step_sleepers {e : IocpEvent} (h : IocpInv s) (hs : SleepersOk s.deadline s.slept s.naps s.sleepers)
    (hstep : s.step e = some s') : SleepersOk s'.deadline s'.slept s'.naps s'.sleepers := by
  by_cases hwake : s.phase = .wake ∧ e = .run
  · obtain ⟨hphase, rfl⟩ := hwake
    rw [wake_eq hphase hstep]
    have hdeadline := wakeFrom_deadline (s := s) s.sleepers
    have hsleepers := (wakeFrom_woken hs.sorted).sleepers
    obtain ⟨slots, rq, sleepers, inflight, heq⟩ := wakeFrom_frame (s := s) s.sleepers
    rw [heq] at hdeadline hsleepers ⊢
    have hsub : sleepers.Sublist s.sleepers := by
      rw [show sleepers = _ from hsleepers]
      exact List.filter_sublist
    exact (hs.sublist hsub).congr (fun t _ => congrFun hdeadline t) fun _ _ => rfl
  by_cases htorn : s.phase = .teardown 0 ∧ e = .run
  · obtain ⟨hphase, rfl⟩ := htorn
    rw [torn_eq hphase hstep]
    exact ⟨List.Pairwise.nil, nofun⟩
  by_cases hsleep : ∃ d, e = .sleep d
  · obtain ⟨d, rfl⟩ := hsleep
    obtain ⟨hidle, hrun, rfl⟩ := sleep_eq hstep
    have hok := h.ok ⟨by simp [hidle], by simp [hidle]⟩
    rw [sleepUntil_deadline, sleepUntil_sleepers]
    exact hs.insert (fun hmem => nomatch hrun.symm.trans (hok.packets.asleep _ hmem)) d
  · have haside := step_aside h hstep (fun d hd => hsleep ⟨d, hd⟩) hwake htorn
    rw [haside.slept, haside.naps, haside.sleepers]
    exact hs.congr (fun t ht => congrArg IocpTask.deadline (haside.slots t ht)) fun _ _ => rfl

/-- What the proof keeps. -/
structure SleepsInv (s : Iocp) : Prop where
  packets : IocpInv s
  sleepers : SleepersOk s.deadline s.slept s.naps s.sleepers
  timer : s.Live → TimerOk s ∧ Timed s

private theorem SleepsInv.init (packet : Bool) (now : Int) : SleepsInv (init packet now) where
  packets := .live (IocpOk.init packet now) ⟨nofun, nofun⟩
  sleepers := ⟨List.Pairwise.nil, nofun⟩
  timer _ := ⟨⟨nofun, nofun⟩, .of_phase rfl nofun nofun nofun⟩

private theorem SleepsInv.step {e : IocpEvent} (h : SleepsInv s) (hstep : s.step e = some s') : SleepsInv s' where
  packets := h.packets.step hstep
  sleepers := step_sleepers h.packets h.sleepers hstep
  timer hlive := by
    obtain ⟨htimer, htimed⟩ := h.timer (step_live hstep hlive)
    exact step_timed htimer htimed (step_live hstep hlive) h.sleepers.sorted hstep

end Iocp

/-- The sleepers are sorted by deadline, and those of one deadline as they went to sleep; a task that sleeps is one of
them, once; the last loop of a poll, and no other step, wakes those whose time has come, in order; and a wait on the
port ends in time for every one. -/
structure IocpSleepsOk (s : Iocp) : Prop where
  sorted : s.sleepers.Pairwise (Before s.deadline s.slept)
  once : s.Live → ∀ t, s.sleepers.count t = if s.state t = .waiting ∧ s.handle t = false then 1 else 0
  wakes : s.phase = .wake → ∀ s', s.step .run = some s' → s.Woken s'
  keeps : ∀ e s', s.step e = some s' → ¬(s.phase = .wake ∧ e = .run) → ¬(s.phase = .teardown 0 ∧ e = .run) →
    ∀ t ∈ s.sleepers, t ∈ s'.sleepers ∧ s'.state t = s.state t ∧ s'.deadline t = s.deadline t
  waits : ∀ w, s.phase = .wait w → w.read ≤ w.start ∧
    ∀ t ∈ s.sleepers, s.deadline t < iocpNever → s.InTime w (s.deadline t)

section runs

variable {s s' : Iocp} {t : Nat}

private theorem Iocp.SleepsInv.once (h : SleepsInv s) (hlive : s.Live) (t : Nat) :
    s.sleepers.count t = if s.state t = .waiting ∧ s.handle t = false then 1 else 0 := by
  have hpackets := (h.packets.ok hlive).packets
  rw [hpackets.distinct.count]
  refine if_congr ⟨fun ht => ⟨hpackets.asleep t ht, ?_⟩, fun ht => ?_⟩ rfl rfl
  · exact Bool.eq_false_iff.2 fun hhandle => (hpackets.handles t hhandle).2 ht
  · exact (hpackets.parked t ht.1).resolve_left (by simp [ht.2])

private theorem Iocp.SleepsInv.wakes (h : SleepsInv s) (hphase : s.phase = .wake) (hstep : s.step .run = some s') :
    s.Woken s' := by
  have hwoken := wakeFrom_woken h.sleepers.sorted
  rw [wake_eq hphase hstep]
  exact ⟨hwoken.rq, hwoken.sleepers, hwoken.state⟩

private theorem Iocp.SleepsInv.keeps {e : IocpEvent} (h : SleepsInv s) (hstep : s.step e = some s')
    (hwake : ¬(s.phase = .wake ∧ e = .run)) (htorn : ¬(s.phase = .teardown 0 ∧ e = .run)) (ht : t ∈ s.sleepers) :
    t ∈ s'.sleepers ∧ s'.state t = s.state t ∧ s'.deadline t = s.deadline t := by
  by_cases hsleep : ∃ d, e = .sleep d
  · obtain ⟨d, rfl⟩ := hsleep
    obtain ⟨hidle, hrun, rfl⟩ := sleep_eq hstep
    have hok := h.packets.ok ⟨by simp [hidle], by simp [hidle]⟩
    have hne : t ≠ s.current := by
      rintro rfl
      exact nomatch hrun.symm.trans (hok.packets.asleep _ ht)
    have hslots : (s.sleepUntil d).slots t = s.slots t :=
      (Function.update_of_ne hne ..).trans (Function.update_of_ne hne ..)
    rw [sleepUntil_sleepers]
    exact ⟨(insertSleeper_perm _ _ _).mem_iff.2 (List.mem_cons_of_mem _ ht), congrArg IocpTask.state hslots,
      congrArg IocpTask.deadline hslots⟩
  · have haside := step_aside h.packets hstep (fun d hd => hsleep ⟨d, hd⟩) hwake htorn
    rw [haside.sleepers]
    exact ⟨ht, congrArg IocpTask.state (haside.slots t ht), congrArg IocpTask.deadline (haside.slots t ht)⟩

/-- In every run. -/
theorem iocp_sleeps_ok {packet : Bool} {now : Int} (h : Reach Iocp.step (.init packet now) s) : IocpSleepsOk s := by
  have hinv : SleepsInv s := h.invariant (fun _ _ _ hi hstep => hi.step hstep) (.init packet now)
  refine ⟨hinv.sleepers.sorted, hinv.once, fun hphase _ hstep => hinv.wakes hphase hstep,
    fun _ _ hstep hwake htorn _ ht => hinv.keeps hstep hwake htorn ht, fun w hw => ?_⟩
  exact (hinv.timer ⟨by simp [hw], by simp [hw]⟩).2.wait w hw

/-- The timer is armed for the task with the later deadline, and aimed again for the other; its packet ends the wait,
and of the two with one deadline the first to sleep stays first. -/
theorem iocp_sleeps_ok_armed : ∃ s : Iocp, IocpSleepsOk s ∧ s.now = 100 ∧ s.rq = [1] ∧ s.sleepers = [0, 2] := by
  have hrun : (Transition.run Iocp.step (.init true 0)
      [.spawn 1, .spawn 2, .sleep 200, .switch, .start, .run, .switch, .poll iocpNever, .answer true, .answer true,
        .complete 1, .batch 1, .run, .sleep 200, .switch, .sleep 100, .poll iocpNever, .answer true, .tick 100, .fire,
        .batch 1, .run]).map (fun s => (s.now, s.rq, s.sleepers)) = some (100, [1], [0, 2]) := by
    decide +kernel
  obtain ⟨s, hs, heq⟩ := Option.map_eq_some_iff.1 hrun
  obtain ⟨hnow, hrest⟩ := Prod.mk.inj heq
  exact ⟨s, iocp_sleeps_ok ⟨_, hs⟩, hnow, Prod.mk.inj hrest⟩

end runs

end Sppc.Windows
