import Sppc.Windows.Retake

/-!
# Signals and waits (`platform/windows.h`)

A signal first moves the sequence word on and then wakes the thread that has been asleep longest.  Whoever is awake by
then sees that the word has changed, and whoever falls asleep in between has read the word after the signal and sleeps
behind those that have not.
-/

namespace Sppc.Windows

open Threads

variable {Tid : Type} [DecidableEq Tid] {s s' s'' : CondSystem Tid} {t u : Tid} {h h' : CondState Tid}
  {l l' : CondLoc}

/-- The thread has read the sequence word before the signal of number `n`, and released the mutex. -/
def CondSystem.Before (s : CondSystem Tid) (n : Nat) (t : Tid) : Prop :=
  (s.loc t).Waiting ∧ ∃ a, (s.loc t).stamp = some a ∧ a ≤ n

/-- The wait of `t` ends in the step from `s` to `s'`: with 0, or with its deadline passed. -/
def CondSystem.Ends (s s' : CondSystem Tid) (t : Tid) : Prop :=
  (s.loc t).Waiting ∧ ((∃ l, s'.loc t = .waitLock .zero l) ∨
    ∃ seen a w l, s.loc t = .waitClock seen a w ∧ w.Passed s.shared.mutex.now ∧
      s'.loc t = .waitLock (.err .ETIMEDOUT) l)

/-- The wait of `t` has ended on the way from `s` to `s'`. -/
def CondSystem.Ended (s s' : CondSystem Tid) (t : Tid) : Prop :=
  ∃ p e q, CondReach s p ∧ condStep p e = some q ∧ CondReach q s' ∧ p.Ends q t

/-- The accesses left to a thread that is awake and that a signal has come for. -/
def CondLoc.togo : CondLoc → Nat
  | .waitLoad _ _ _ => 1
  | .waitUnlock _ _ _ _ | .waitCompare _ _ _ | .waitAsleep _ _ _ => 2
  | .waitClock _ _ _ => 3
  | _ => 0

/-- The thread is inside a wait. -/
def CondLoc.InWait : CondLoc → Prop
  | .mutex _ | .signalSeq | .signalWake _ | .broadcastSeq | .broadcastWake _ => False
  | _ => True

omit [DecidableEq Tid] in
private theorem CondState.woken_or (h : CondState Tid) (seen a : Nat) (w : Until) :
    (∃ l, h.woken seen a w = .waitLock .zero l) ∨ h.woken seen a w = .waitLoad seen a w := by
  unfold CondState.woken
  split
  · exact Or.inl ⟨_, rfl⟩
  · exact Or.inr rfl

/-- Whoever is asleep after a step was so before, and has not moved, or has just found the word unchanged. -/
private theorem condAct_sleepers {i : CondInput Tid} (hact : condAct t i h l = some (h', l')) (hu : u ∈ h'.sleepers) :
    u ∈ h.sleepers ∧ (u = t → ∀ seen a w, l ≠ .waitAsleep seen a w) ∨
      u = t ∧ ∃ seen a w, l = .waitCompare seen a w ∧ l' = .waitAsleep seen a w ∧ h.seq = seen := by
  cases l
  case mutex l =>
    simp only [condAct] at hact
    split at hact
    · cases hact
      exact Or.inl ⟨hu, fun _ _ _ _ h => by cases h⟩
    · cases hact
      exact Or.inl ⟨hu, fun _ _ _ _ h => by cases h⟩
    · cases hact
      exact Or.inl ⟨hu, fun _ _ _ _ h => by cases h⟩
    · obtain ⟨r, -, heq⟩ := Option.map_eq_some_iff.1 hact
      cases heq
      exact Or.inl ⟨hu, fun _ _ _ _ h => by cases h⟩
    · cases hact
  case waitUnlock seen a w l | waitLock err l =>
    cases i with
    | mutex i =>
      obtain ⟨r, -, heq⟩ := Option.map_eq_some_iff.1 hact
      cases heq
      exact Or.inl ⟨hu, fun _ _ _ _ h => by cases h⟩
    | _ => cases hact
  case waitCompare seen a w =>
    simp only [condAct] at hact
    split at hact <;> cases hact
    · rcases List.mem_append.1 hu with hu | hu
      · exact Or.inl ⟨hu, fun _ _ _ _ h => by cases h⟩
      · exact Or.inr ⟨List.mem_singleton.1 hu, seen, a, w, rfl, rfl, by assumption⟩
    · exact Or.inl ⟨hu, fun _ _ _ _ h => by cases h⟩
  case waitAsleep seen a w =>
    cases hact
    obtain ⟨hu, hne⟩ := List.mem_filter.1 hu
    exact Or.inl ⟨hu, fun heq => absurd heq (by simpa using hne)⟩
  case signalWake n =>
    cases hact
    exact Or.inl ⟨List.mem_of_mem_tail hu, fun _ _ _ _ h => by cases h⟩
  case broadcastWake n =>
    cases hact
    cases hu
  all_goals
    cases hact
    exact Or.inl ⟨hu, fun _ _ _ _ h => by cases h⟩

omit [DecidableEq Tid] in
private theorem CondLoc.Ok.read {a : Nat} (hok : l.Ok h) (hstamp : l.stamp = some a) :
    ∃ seen w, h.Read seen a w := by
  cases l with
  | waitUnlock seen b w l | waitLoad seen b w | waitClock seen b w | waitCompare seen b w | waitAsleep seen b w =>
    cases hstamp
    exact ⟨seen, w, hok⟩
  | _ => cases hstamp

omit [DecidableEq Tid] in
private theorem CondLoc.Waiting.stamp (hl : l.Waiting) : ∃ a, l.stamp = some a := by
  cases l with
  | waitUnlock seen a w l | waitLoad seen a w | waitClock seen a w | waitCompare seen a w | waitAsleep seen a w =>
    exact ⟨a, rfl⟩
  | _ => exact hl.elim

omit [DecidableEq Tid] in
/-- A thread that has not seen the last signals finds the sequence word changed. -/
private theorem CondInv.changed (hi : CondInv s) (hfew : s.Few) {seen a : Nat} {w : Until}
    (hstamp : (s.loc t).stamp = some a) (hread : s.shared.Read seen a w) (hlt : a < s.shared.signals) :
    s.shared.seq ≠ seen := by
  intro hseq
  have := hi.no_lap hfew hstamp hread hseq
  omega

/-- An access of a thread that waits, after a signal it has not seen: it ends the wait, or is nearer to that. -/
private theorem CondInv.ends_act (hi : CondInv s) (hfew : s.Few) {n : Nat} (hn : n < s.shared.signals)
    (hb : s.Before n t) {i : CondInput Tid} (hact : condAct t i s.shared (s.loc t) = some (h', l')) :
    (CondSystem.Before (s.put t h' l') n t ∧ l'.togo < (s.loc t).togo) ∨ s.Ends (s.put t h' l') t := by
  obtain ⟨hwait, a, hstamp, hle⟩ := hb
  have hok := hi.loc t
  have hchanged {seen : Nat} {w : Until} (hread : s.shared.Read seen a w) : s.shared.seq ≠ seen :=
    hi.changed hfew hstamp hread (by omega)
  unfold CondSystem.Before CondSystem.Ends
  rw [State.put_self]
  cases hloc : s.loc t <;> rw [hloc] at hact hok hwait hstamp
  case waitUnlock seen b w l =>
    cases hstamp
    cases l with
    | unlockWake =>
      cases i with
      | mutex i =>
        obtain ⟨r, hm, heq⟩ := Option.map_eq_some_iff.1 hact
        have hout : r.2 = .out .zero := by
          cases i with
          | wake v =>
            cases v <;> simp only [mutexAct] at hm <;> split at hm <;> cases hm <;> rfl
          | _ => cases hm
        rw [hout] at heq
        cases heq
        exact Or.inl ⟨⟨trivial, _, rfl, hle⟩, by simp [CondLoc.togo]⟩
      | _ => cases hact
    | _ => exact hwait.elim
  case waitLoad seen b w =>
    cases hstamp
    cases hact
    rw [if_neg (hchanged hok)]
    exact Or.inr ⟨trivial, Or.inl ⟨_, rfl⟩⟩
  case waitClock seen b w =>
    cases hstamp
    cases hact
    split
    · rename_i hzero
      refine Or.inr ⟨trivial, Or.inr ⟨seen, a, w, _, rfl, ?_, rfl⟩⟩
      exact (Until.passed_iff _ (checkDeadline_eq_none hok.checked)).2 hzero
    · exact Or.inl ⟨⟨trivial, _, rfl, hle⟩, by simp [CondLoc.togo]⟩
  case waitCompare seen b w =>
    cases hstamp
    simp only [condAct] at hact
    rw [if_neg (hchanged hok)] at hact
    cases hact
    rcases s.shared.woken_or seen a w with ⟨l, hl⟩ | hl <;> rw [hl]
    · exact Or.inr ⟨trivial, Or.inl ⟨_, rfl⟩⟩
    · exact Or.inl ⟨⟨trivial, _, rfl, hle⟩, by simp [CondLoc.togo]⟩
  case waitAsleep seen b w =>
    cases hstamp
    cases hact
    rcases s.shared.woken_or seen a w with ⟨l, hl⟩ | hl <;> rw [hl]
    · exact Or.inr ⟨trivial, Or.inl ⟨_, rfl⟩⟩
    · exact Or.inl ⟨⟨trivial, _, rfl, hle⟩, by simp [CondLoc.togo]⟩
  all_goals exact hwait.elim

/-- The same for a step of anyone: the others leave a thread where it is, and do not send it to sleep. -/
private theorem CondInv.ends (hi : CondInv s) (hfew : s.Few) {n : Nat} (hn : n < s.shared.signals) (hb : s.Before n t)
    {e : CondEvent Tid} (hstep : condStep s e = some s') :
    (s'.Before n t ∧ (s'.loc t = s.loc t ∨ (s'.loc t).togo < (s.loc t).togo)) ∨ s.Ends s' t := by
  cases e with
  | thread u i =>
    obtain ⟨h', l', hact, rfl⟩ := step_thread.1 hstep
    by_cases hut : u = t
    · subst hut
      rw [State.put_self]
      exact (hi.ends_act hfew hn hb hact).imp_left fun h => ⟨h.1, Or.inr h.2⟩
    · have hloc : (s.put u h' l').loc t = s.loc t := State.put_of_ne (Ne.symm hut)
      refine Or.inl ⟨?_, Or.inl hloc⟩
      unfold CondSystem.Before
      rw [hloc]
      exact hb
  | env now =>
    cases hstep
    exact Or.inl ⟨hb, Or.inl rfl⟩

/-- Whoever is asleep and has not seen the signal `n` was asleep before the step. -/
private theorem CondInv.asleep_step (hi : CondInv s) (hfew : s.Few) {n : Nat} (hn : n < s.shared.signals)
    {e : CondEvent Tid} (hstep : condStep s e = some s') (hmem : t ∈ s'.shared.sleepers) (hb : s'.Before n t) :
    t ∈ s.shared.sleepers ∧ s.Before n t := by
  cases e with
  | thread u i =>
    obtain ⟨h', l', hact, rfl⟩ := step_thread.1 hstep
    rcases condAct_sleepers hact hmem with ⟨hmem', hne⟩ | ⟨rfl, seen, a, w, hloc, hl, hseq⟩
    · refine ⟨hmem', ?_⟩
      have hut : t ≠ u := by
        intro hut
        obtain ⟨seen, a, w, hasleep⟩ := hi.asleep t hmem'
        exact hne hut seen a w (hut ▸ hasleep)
      unfold CondSystem.Before at hb
      rwa [State.put_of_ne hut] at hb
    · -- it would have read the word after the signal
      have hread := hi.loc t
      rw [hloc] at hread
      have hnow := hi.no_lap hfew (t := t) (by rw [hloc]; rfl) hread hseq
      obtain ⟨-, b, hstamp, hle⟩ := hb
      rw [State.put_self, hl] at hstamp
      cases hstamp
      omega
  | env now =>
    cases hstep
    exact ⟨hmem, hb⟩

private theorem condStep_signals {e : CondEvent Tid} (hstep : condStep s e = some s') :
    s.shared.signals ≤ s'.shared.signals := by
  cases e with
  | thread t i =>
    obtain ⟨h', l', hact, rfl⟩ := step_thread.1 hstep
    cases hloc : s.loc t <;> rw [hloc] at hact
    case mutex l =>
      simp only [condAct] at hact
      split at hact
      · cases hact
        exact Nat.le_refl _
      · cases hact
        exact Nat.le_refl _
      · cases hact
        exact Nat.le_refl _
      · obtain ⟨r, -, heq⟩ := Option.map_eq_some_iff.1 hact
        cases heq
        exact Nat.le_refl _
      · cases hact
    case waitUnlock seen a w l | waitLock err l =>
      cases i with
      | mutex i =>
        obtain ⟨r, -, heq⟩ := Option.map_eq_some_iff.1 hact
        cases heq
        exact Nat.le_refl _
      | _ => cases hact
    case waitCompare seen a w =>
      simp only [condAct] at hact
      split at hact <;> cases hact <;> exact Nat.le_refl _
    case signalSeq | broadcastSeq =>
      cases hact
      exact Nat.le_succ _
    all_goals
      cases hact
      exact Nat.le_refl _
  | env now =>
    cases hstep
    exact Nat.le_refl _

/-! ### Runs -/

private theorem CondReach.few (h : CondReach s s') (hfew : s.Few) : s'.Few := by
  cases h with
  | refl => exact hfew
  | tail _ hstep => exact hstep.2

private theorem CondReach.signals (h : CondReach s s') : s.shared.signals ≤ s'.shared.signals := by
  induction h with
  | refl => exact Nat.le_refl _
  | tail _ hstep ih =>
    obtain ⟨⟨e, he⟩, -⟩ := hstep
    exact Nat.le_trans ih (condStep_signals he)

private theorem CondReach.inv (h : CondReach s s') (hfew : s.Few) (hi : CondInv s) : CondInv s' := by
  induction h with
  | refl => exact hi
  | tail hreach hstep ih =>
    obtain ⟨⟨e, he⟩, -⟩ := hstep
    exact ih.step (CondReach.few hreach hfew) he

private theorem CondReach.retake (h : CondReach s s') (hi : RetakeInv s) : RetakeInv s' := by
  induction h with
  | refl => exact hi
  | tail _ hstep ih =>
    obtain ⟨⟨e, he⟩, -⟩ := hstep
    exact ih.step he

/-- A thread that a signal has come for still waits, or its wait has ended since. -/
private theorem CondReach.ended (h : CondReach s s') (hfew : s.Few) (hi : CondInv s) {n : Nat}
    (hn : n < s.shared.signals) (hb : s.Before n t) : s'.Before n t ∨ s.Ended s' t := by
  induction h with
  | refl => exact Or.inl hb
  | tail hreach hstep ih =>
    obtain ⟨⟨e, he⟩, hfew'⟩ := id hstep
    rcases ih with ih | ⟨p, e', q, hp, hpq, hq, hends⟩
    · have hn' := Nat.lt_of_lt_of_le hn (CondReach.signals hreach)
      rcases (CondReach.inv hreach hfew hi).ends (CondReach.few hreach hfew) hn' ih he with ⟨hb', -⟩ | hends
      · exact Or.inl hb'
      · exact Or.inr ⟨_, e, _, hreach, he, Relation.ReflTransGen.refl, hends⟩
    · exact Or.inr ⟨p, e', q, hp, hpq, hq.tail hstep, hends⟩

/-- Whoever is asleep and has not seen the signal `n` was asleep when it came. -/
private theorem CondReach.asleep (h : CondReach s s') (hfew : s.Few) (hi : CondInv s) {n : Nat}
    (hn : n < s.shared.signals) (hmem : t ∈ s'.shared.sleepers) (hb : s'.Before n t) :
    t ∈ s.shared.sleepers ∧ s.Before n t := by
  induction h with
  | refl => exact ⟨hmem, hb⟩
  | tail hreach hstep ih =>
    obtain ⟨⟨e, he⟩, -⟩ := hstep
    have hn' := Nat.lt_of_lt_of_le hn (CondReach.signals hreach)
    obtain ⟨hmem', hb'⟩ := (CondReach.inv hreach hfew hi).asleep_step (CondReach.few hreach hfew) hn' he hmem hb
    exact ih hmem' hb'

/-- The thread is not in a call. -/
def CondLoc.Out (l : CondLoc) : Prop := ∃ r, l = .mutex (.out r)

/-- A signal or a broadcast of `u`, begun in `s`, has returned 0 in `s'`: it has moved the word on, which it was about
to do at `seq`, and made its wake, at `wake`. -/
def CondSystem.Gives (s s' : CondSystem Tid) (u : Tid) (seq : CondLoc) (wake : Nat → CondLoc) : Prop :=
  ∃ p i p₁ p₂ j, Transition.Reach condStep s p ∧ p.loc u = seq ∧ condStep p (.thread u i) = some p₁ ∧
    Transition.Reach condStep p₁ p₂ ∧ p₂.loc u = wake p.shared.signals ∧ condStep p₂ (.thread u j) = some s' ∧
    s'.loc u = .mutex (.out .zero)

/-- What the condition variable guarantees from every state of a run.  The signal `s.shared.signals` is the one that
the thread `u` is about to give in `s`; it has moved the word on in `s₁`, and is about to wake in `s₂`. -/
structure CondOk (s : CondSystem Tid) : Prop where
  signal : ∀ u i j s₁ s₂ s₃, s.loc u = .signalSeq → condStep s (.thread u i) = some s₁ → s₁.Few → CondReach s₁ s₂ →
    s₂.loc u = .signalWake s.shared.signals → condStep s₂ (.thread u j) = some s₃ → s₃.Few →
    (∃ t seen a w, (s.loc t).Waiting ∧ t ∈ s₂.shared.sleepers ∧ t ∉ s₃.shared.sleepers ∧
      s₃.loc t = .waitAsleep seen a w ∧ a ≤ s.shared.signals) ∨
    ∀ t, (s.loc t).Waiting → (s₃.Before s.shared.signals t ∧ t ∉ s₃.shared.sleepers) ∨ s₁.Ended s₃ t
  broadcast : ∀ u i j s₁ s₂ s₃, s.loc u = .broadcastSeq → condStep s (.thread u i) = some s₁ → s₁.Few →
    CondReach s₁ s₂ → s₂.loc u = .broadcastWake s.shared.signals → condStep s₂ (.thread u j) = some s₃ → s₃.Few →
    ∀ t, (s.loc t).Waiting → (s₃.Before s.shared.signals t ∧ t ∉ s₃.shared.sleepers) ∨ s₁.Ended s₃ t
  moves : ∀ n t, s.Before n t → ∃ i s', condStep s (.thread t i) = some s'
  stops : ∀ n t, n < s.shared.signals → s.Before n t → t ∉ s.shared.sleepers → ∀ e s', condStep s e = some s' →
    (s'.Before n t ∧ t ∉ s'.shared.sleepers ∧ (s'.loc t = s.loc t ∨ (s'.loc t).togo < (s.loc t).togo)) ∨ s.Ends s' t
  timed : ∀ t e s' l, condStep s e = some s' → s'.loc t = .waitLock (.err .ETIMEDOUT) l →
    (∃ l', s.loc t = .waitLock (.err .ETIMEDOUT) l') ∨
      ∃ seen a w, s.loc t = .waitClock seen a w ∧ w.Passed s.shared.mutex.now
  holds : ∀ t i s' r, (s.loc t).InWait → condStep s (.thread t i) = some s' → s'.loc t = .mutex (.out r) →
    (∃ seen a w l, s.loc t = .waitUnlock seen a w l ∧ r ≠ .zero) ∨
      (r = .zero ∨ r = .err .ETIMEDOUT) ∧ 0 < s'.shared.mutex.held t ∧ ∃ l, s.loc t = .waitLock r l
  signals : ∀ u s', (s.loc u).Out → InCall condStep CondLoc.Out u .signal s s' → (s'.loc u).Out →
    s.Gives s' u .signalSeq .signalWake
  broadcasts : ∀ u s', (s.loc u).Out → InCall condStep CondLoc.Out u .broadcast s s' → (s'.loc u).Out →
    s.Gives s' u .broadcastSeq .broadcastWake

/-- Where the wake of a signal or a broadcast leaves no one asleep that has not seen it, all have stopped or will. -/
private theorem CondInv.all_stop (hi : CondInv s) (hfew : s.Few) {e : CondEvent Tid} {s₁ s₃ : CondSystem Tid}
    (hfirst : condStep s e = some s₁) (hfew₁ : s₁.Few) (hn : s.shared.signals < s₁.shared.signals)
    (hloc : ∀ t, (s.loc t).Waiting → s₁.loc t = s.loc t) (hreach : CondReach s₁ s₃)
    (hawake : ∀ t ∈ s₃.shared.sleepers, ¬s₃.Before s.shared.signals t) (hwait : (s.loc t).Waiting) :
    (s₃.Before s.shared.signals t ∧ t ∉ s₃.shared.sleepers) ∨ s₁.Ended s₃ t := by
  have hb : s₁.Before s.shared.signals t := by
    unfold CondSystem.Before
    rw [hloc t hwait]
    obtain ⟨a, hstamp⟩ := hwait.stamp
    obtain ⟨seen, w, hread⟩ := (hi.loc t).read hstamp
    exact ⟨hwait, a, hstamp, hread.le⟩
  rcases hreach.ended hfew₁ (hi.step hfew hfirst) hn hb with hb' | hended
  · exact Or.inl ⟨hb', fun hmem => hawake t hmem hb'⟩
  · exact Or.inr hended

/-- What the first access of a signal or a broadcast does. -/
private theorem condStep_seq {i : CondInput Tid} (hloc : s.loc u = .signalSeq ∨ s.loc u = .broadcastSeq)
    (hstep : condStep s (.thread u i) = some s') :
    s'.shared.sleepers = s.shared.sleepers ∧ s.shared.signals < s'.shared.signals ∧
      ∀ t, (s.loc t).Waiting → s'.loc t = s.loc t := by
  obtain ⟨h', l', hact, rfl⟩ := step_thread.1 hstep
  have hne (t : Tid) (hwait : (s.loc t).Waiting) : (s.put u h' l').loc t = s.loc t := by
    refine State.put_of_ne ?_
    rintro rfl
    rcases hloc with hloc | hloc <;> rw [hloc] at hwait <;> exact hwait
  rcases hloc with hloc | hloc
  all_goals
    rw [hloc] at hact
    cases hact
    exact ⟨rfl, Nat.lt_succ_self _, hne⟩

/-- The wake of a signal ends the sleep of one that waited when it came, or finds none of them asleep. -/
private theorem CondInv.signal (hi : CondInv s) (hfew : s.Few) {i j : CondInput Tid} {s₁ s₂ s₃ : CondSystem Tid}
    (hloc : s.loc u = .signalSeq) (hfirst : condStep s (.thread u i) = some s₁) (hfew₁ : s₁.Few)
    (hreach : CondReach s₁ s₂) (hwake : s₂.loc u = .signalWake s.shared.signals)
    (hlast : condStep s₂ (.thread u j) = some s₃) (hfew₃ : s₃.Few) :
    (∃ t seen a w, (s.loc t).Waiting ∧ t ∈ s₂.shared.sleepers ∧ t ∉ s₃.shared.sleepers ∧
      s₃.loc t = .waitAsleep seen a w ∧ a ≤ s.shared.signals) ∨
    ∀ t, (s.loc t).Waiting → (s₃.Before s.shared.signals t ∧ t ∉ s₃.shared.sleepers) ∨ s₁.Ended s₃ t := by
  obtain ⟨hsleepers, hn, hwaiting⟩ := condStep_seq (Or.inl hloc) hfirst
  have hi₁ := hi.step hfew hfirst
  have hi₂ := hreach.inv hfew₁ hi₁
  have hreach₃ : CondReach s₁ s₃ := hreach.tail ⟨⟨_, hlast⟩, hfew₃⟩
  obtain ⟨htail, hothers⟩ : s₃.shared.sleepers = s₂.shared.sleepers.tail ∧ ∀ x ≠ u, s₃.loc x = s₂.loc x := by
    obtain ⟨h', l', hact, rfl⟩ := step_thread.1 hlast
    rw [hwake] at hact
    cases hact
    exact ⟨rfl, fun x hx => State.put_of_ne hx⟩
  have hasleep (x : Tid) (hx : x ∈ s₂.shared.sleepers) :
      x ≠ u ∧ ∃ seen a w, s₂.loc x = .waitAsleep seen a w := by
    obtain ⟨seen, a, w, hsleep⟩ := hi₂.asleep x hx
    refine ⟨?_, seen, a, w, hsleep⟩
    rintro rfl
    rw [hwake] at hsleep
    cases hsleep
  have hnodup := hi₂.nodup
  have hsorted := hi₂.sorted
  cases hlist : s₂.shared.sleepers with
  | nil =>
    refine Or.inr fun t hwait => hi.all_stop hfew hfirst hfew₁ hn hwaiting hreach₃ (fun x hx => ?_) hwait
    rw [htail, hlist] at hx
    cases hx
  | cons v vs =>
    rw [hlist] at hasleep hnodup hsorted htail
    obtain ⟨hvu, seen, a, w, hv⟩ := hasleep v (by simp)
    by_cases hle : a ≤ s.shared.signals
    · -- the one that has been asleep longest was asleep when the signal came
      have hb : s₂.Before s.shared.signals v := by
        unfold CondSystem.Before
        rw [hv]
        exact ⟨trivial, a, rfl, hle⟩
      obtain ⟨hmem, -⟩ := hreach.asleep hfew₁ hi₁ hn (by simp [hlist]) hb
      obtain ⟨seen', a', w', hv'⟩ := hi.asleep v (hsleepers ▸ hmem)
      refine Or.inl ⟨v, seen, a, w, ?_, by simp, ?_, ?_, hle⟩
      · rw [hv']
        trivial
      · rw [htail]
        exact (List.nodup_cons.1 hnodup).1
      · rw [hothers v hvu]
        exact hv
    · -- all that are asleep have read the word after it
      refine Or.inr fun t hwait => hi.all_stop hfew hfirst hfew₁ hn hwaiting hreach₃ (fun x hx => ?_) hwait
      rw [htail] at hx
      rintro ⟨-, b, hstamp, hble⟩
      rw [hothers x (hasleep x (List.mem_cons_of_mem _ hx)).1] at hstamp
      have := (List.pairwise_cons.1 hsorted).1 x hx a b (by rw [hv]; rfl) hstamp
      omega

private theorem CondInv.broadcast (hi : CondInv s) (hfew : s.Few) {i j : CondInput Tid} {s₁ s₂ s₃ : CondSystem Tid}
    (hloc : s.loc u = .broadcastSeq) (hfirst : condStep s (.thread u i) = some s₁) (hfew₁ : s₁.Few)
    (hreach : CondReach s₁ s₂) (hwake : s₂.loc u = .broadcastWake s.shared.signals)
    (hlast : condStep s₂ (.thread u j) = some s₃) (hfew₃ : s₃.Few) (hwait : (s.loc t).Waiting) :
    (s₃.Before s.shared.signals t ∧ t ∉ s₃.shared.sleepers) ∨ s₁.Ended s₃ t := by
  obtain ⟨-, hn, hwaiting⟩ := condStep_seq (Or.inr hloc) hfirst
  have hreach₃ : CondReach s₁ s₃ := hreach.tail ⟨⟨_, hlast⟩, hfew₃⟩
  obtain ⟨h', l', hact, rfl⟩ := step_thread.1 hlast
  rw [hwake] at hact
  cases hact
  exact hi.all_stop hfew hfirst hfew₁ hn hwaiting hreach₃ (fun v hv => by cases hv) hwait

/-- A thread that waits always has a next access. -/
private theorem CondSystem.Before.moves {n : Nat} (hb : s.Before n t) :
    ∃ i s', condStep s (.thread t i) = some s' := by
  have hmove (i : CondInput Tid) (r : CondState Tid × CondLoc) (hact : condAct t i s.shared (s.loc t) = some r) :
      ∃ i s', condStep s (.thread t i) = some s' := ⟨i, _, step_thread.2 ⟨r.1, r.2, hact, rfl⟩⟩
  obtain ⟨hwait, -⟩ := hb
  cases hloc : s.loc t <;> rw [hloc] at hwait hmove
  case waitUnlock seen a w l =>
    cases l with
    | unlockWake =>
      cases hlist : s.shared.mutex.sleepers with
      | nil => exact hmove (.mutex (.wake none)) (s.shared, .waitLoad seen a w) (by simp [condAct, mutexAct, hlist])
      | cons v vs => exact hmove (.mutex (.wake (some v))) _ (by simp [condAct, mutexAct, hlist]; rfl)
    | _ => exact hwait.elim
  case waitLoad seen a w | waitClock seen a w | waitAsleep seen a w => exact hmove .run _ rfl
  case waitCompare seen a w =>
    by_cases hseq : s.shared.seq = seen
    · exact hmove .run _ (by simp [condAct, hseq]; rfl)
    · exact hmove .run _ (by simp [condAct, hseq]; rfl)
  all_goals exact hwait.elim

/-- Only a deadline that has passed makes a wait time out. -/
private theorem CondInv.timed (hi : CondInv s) {e : CondEvent Tid} {l : MutexLoc} (hstep : condStep s e = some s')
    (hloc' : s'.loc t = .waitLock (.err .ETIMEDOUT) l) : (∃ l', s.loc t = .waitLock (.err .ETIMEDOUT) l') ∨
      ∃ seen a w, s.loc t = .waitClock seen a w ∧ w.Passed s.shared.mutex.now := by
  cases e with
  | env now =>
    cases hstep
    exact Or.inl ⟨l, hloc'⟩
  | thread u i =>
    obtain ⟨h', l', hact, rfl⟩ := step_thread.1 hstep
    by_cases hut : u = t
    · subst hut
      rw [State.put_self] at hloc'
      subst hloc'
      have hok := hi.loc u
      have hwoken (h : CondState Tid) (seen a : Nat) (w : Until) :
          h.woken seen a w ≠ .waitLock (.err .ETIMEDOUT) l := by
        intro heq
        rcases h.woken_or seen a w with ⟨l', hl⟩ | hl
        · rw [hl] at heq
          cases heq
        · rw [hl] at heq
          cases heq
      cases hloc : s.loc u <;> rw [hloc] at hact hok
      case waitClock seen a w =>
        simp only [condAct, Option.some.injEq, Prod.mk.injEq] at hact
        obtain ⟨-, hact⟩ := hact
        split at hact
        · rename_i hzero
          exact Or.inr ⟨seen, a, w, rfl, (Until.passed_iff _ (checkDeadline_eq_none hok.checked)).2 hzero⟩
        · cases hact
      case waitLock err m =>
        cases i with
        | mutex i =>
          obtain ⟨r, -, heq⟩ := Option.map_eq_some_iff.1 hact
          simp only [Prod.mk.injEq] at heq
          obtain ⟨-, heq⟩ := heq
          split at heq <;> cases heq
          exact Or.inl ⟨m, rfl⟩
        | _ => cases hact
      case waitCompare seen a w =>
        simp only [condAct] at hact
        split at hact
        · cases hact
        · exact absurd (Prod.mk.inj (Option.some.inj hact)).2 (hwoken _ seen a w)
      case waitAsleep seen a w => exact absurd (Prod.mk.inj (Option.some.inj hact)).2 (hwoken _ seen a w)
      case waitLoad seen a w =>
        simp only [condAct, Option.some.injEq, Prod.mk.injEq] at hact
        obtain ⟨-, hact⟩ := hact
        split at hact <;> cases hact
      case waitUnlock seen a w m =>
        cases i with
        | mutex i =>
          obtain ⟨r, -, heq⟩ := Option.map_eq_some_iff.1 hact
          simp only [Prod.mk.injEq] at heq
          obtain ⟨-, heq⟩ := heq
          split at heq <;> cases heq
        | _ => cases hact
      case mutex m =>
        simp only [condAct] at hact
        split at hact
        · simp only [Option.some.injEq, Prod.mk.injEq] at hact
          obtain ⟨-, hact⟩ := hact
          split at hact <;> cases hact
        · cases hact
        · cases hact
        · obtain ⟨r, -, heq⟩ := Option.map_eq_some_iff.1 hact
          cases heq
        · cases hact
      all_goals cases hact
    · rw [State.put_of_ne (Ne.symm hut)] at hloc'
      exact Or.inl ⟨l, hloc'⟩

/-- A return from a wait that has let the mutex go. -/
private theorem RetakeInv.holds (hi : RetakeInv s) (hc : CondInv s) {i : CondInput Tid} {r : Ret}
    (hwait : (s.loc t).InWait) (hstep : condStep s (.thread t i) = some s') (hloc' : s'.loc t = .mutex (.out r)) :
    (∃ seen a w l, s.loc t = .waitUnlock seen a w l ∧ r ≠ .zero) ∨
      (r = .zero ∨ r = .err .ETIMEDOUT) ∧ 0 < s'.shared.mutex.held t ∧ ∃ l, s.loc t = .waitLock r l := by
  obtain ⟨h', l', hact, rfl⟩ := step_thread.1 hstep
  rw [State.put_self] at hloc'
  subst hloc'
  have hok := hc.loc t
  have hret := (hi.loc_act hact).2
  cases hloc : s.loc t <;> rw [hloc] at hact hok hwait hret
  case waitLock err l =>
    rcases hret err l rfl with ⟨m, hm⟩ | ⟨hout, hpos⟩
    · cases hm
    · cases hout
      exact Or.inr ⟨hok, hpos, l, rfl⟩
  case waitUnlock seen a w l =>
    cases i with
    | mutex i =>
      obtain ⟨x, -, heq⟩ := Option.map_eq_some_iff.1 hact
      simp only [Prod.mk.injEq] at heq
      obtain ⟨-, heq⟩ := heq
      split at heq
      · cases heq
      · rename_i hne _
        cases heq
        exact Or.inl ⟨seen, a, w, l, rfl, fun h => hne (by assumption)⟩
      · cases heq
    | _ => cases hact
  case waitCompare seen a w =>
    simp only [condAct] at hact
    split at hact
    · cases hact
    · have heq := (Prod.mk.inj (Option.some.inj hact)).2
      rcases s.shared.woken_or seen a w with ⟨m, hm⟩ | hm <;> rw [hm] at heq <;> cases heq
  case waitAsleep seen a w =>
    have heq := (Prod.mk.inj (Option.some.inj hact)).2
    rcases s.shared.woken_or seen a w with ⟨m, hm⟩ | hm <;> rw [hm] at heq <;> cases heq
  case waitLoad seen a w | waitClock seen a w =>
    simp only [condAct, Option.some.injEq, Prod.mk.injEq] at hact
    obtain ⟨-, hact⟩ := hact
    split at hact <;> cases hact
  case waitSeq w => cases hact
  all_goals exact hwait.elim

/-- Where a signal or a broadcast is, in a state on the way from `s`. -/
def CondSystem.Giving (s : CondSystem Tid) (u : Tid) (seq : CondLoc) (wake : Nat → CondLoc)
    (q : CondSystem Tid) : Prop :=
  q.loc u = seq ∨
    (∃ p i p₁, Transition.Reach condStep s p ∧ p.loc u = seq ∧ condStep p (.thread u i) = some p₁ ∧
      Transition.Reach condStep p₁ q ∧ q.loc u = wake p.shared.signals) ∨
    s.Gives q u seq wake

/-- A call whose two accesses are at `seq` and at `wake`. -/
private theorem CondSystem.Gives.of_call {i : CondInput Tid} {seq : CondLoc} {wake : Nat → CondLoc}
    (hbegins : ∀ s', condStep s (.thread u i) = some s' → s'.loc u = seq)
    (hseq : ∀ p j p₁, p.loc u = seq → condStep p (.thread u j) = some p₁ → p₁.loc u = wake p.shared.signals)
    (hwake : ∀ n p j p₁, p.loc u = wake n → condStep p (.thread u j) = some p₁ → p₁.loc u = .mutex (.out .zero))
    (hnot : ¬seq.Out ∧ ∀ n, ¬(wake n).Out) (hcall : InCall condStep CondLoc.Out u i s s') (hout : (s'.loc u).Out) :
    s.Gives s' u seq wake := by
  have hrule := Transition.During.rule (I := fun q => Transition.Reach condStep s q) (P := s.Giving u seq wake) hcall
    (fun q e q' hq hstep => hq.tail hstep) (.refl s) (fun q hq => Or.inl (hbegins q hq)) ?_
  · rcases hrule.2 with hat | ⟨p, i, p₁, -, -, -, -, hat⟩ | hgives
    · rw [hat] at hout
      exact absurd hout hnot.1
    · rw [hat] at hout
      exact absurd hout (hnot.2 _)
    · exact hgives
  · intro q e q' hq hgiving hgoing hstep
    by_cases hown : ∃ j, e = .thread u j
    case neg =>
      have hstays : q'.loc u = q.loc u := by
        cases e with
        | thread v j =>
          obtain ⟨h', l', -, rfl⟩ := step_thread.1 hstep
          exact State.put_of_ne fun huv => hown ⟨j, by rw [huv]⟩
        | env now =>
          cases hstep
          rfl
      rcases hgiving with hat | ⟨p, i, p₁, hp, hat, hfirst, hreach, hat'⟩ | ⟨p, i, p₁, p₂, j, -, -, -, -, -, -, hzero⟩
      · exact Or.inl (hstays.trans hat)
      · exact Or.inr (Or.inl ⟨p, i, p₁, hp, hat, hfirst, hreach.tail hstep, hstays.trans hat'⟩)
      · exact absurd ⟨_, hzero⟩ hgoing
    case pos =>
      obtain ⟨j, rfl⟩ := hown
      rcases hgiving with hat | ⟨p, i, p₁, hp, hat, hfirst, hreach, hat'⟩ | ⟨p, i, p₁, p₂, j, -, -, -, -, -, -, hzero⟩
      · exact Or.inr (Or.inl ⟨q, j, q', hq, hat, hstep, .refl q', hseq q j q' hat hstep⟩)
      · exact Or.inr (Or.inr ⟨p, i, p₁, q, j, hp, hat, hfirst, hreach, hat', hstep, hwake _ q j q' hat' hstep⟩)
      · exact absurd ⟨_, hzero⟩ hgoing

/-- Where a step of its own leads a thread. -/
private theorem condStep_own {i : CondInput Tid} (hat : s.loc u = l) (hstep : condStep s (.thread u i) = some s')
    (hact : ∀ r, condAct u i s.shared l = some r → r.2 = l') : s'.loc u = l' := by
  obtain ⟨h', l'', hthis, rfl⟩ := step_thread.1 hstep
  rw [hat] at hthis
  rw [State.put_self]
  exact hact _ hthis

omit [DecidableEq Tid] in
private theorem CondLoc.not_out (hl : ∀ r, l ≠ .mutex (.out r)) : ¬l.Out := by
  rintro ⟨r, h⟩
  exact hl r h

private theorem CondSystem.gives_signal (hout : (s.loc u).Out) (hcall : InCall condStep CondLoc.Out u .signal s s')
    (hback : (s'.loc u).Out) : s.Gives s' u .signalSeq .signalWake := by
  obtain ⟨r, hout⟩ := hout
  have hnot : ¬(CondLoc.signalSeq).Out ∧ ∀ n, ¬(CondLoc.signalWake n).Out :=
    ⟨CondLoc.not_out fun r h => (by cases h), fun n => CondLoc.not_out fun r h => (by cases h)⟩
  refine CondSystem.Gives.of_call ?_ ?_ ?_ hnot hcall hback
  · exact fun s' hstep => condStep_own hout hstep fun r h => by
      cases h
      rfl
  · exact fun p j p₁ hat hstep => condStep_own hat hstep fun r h => by
      cases h
      rfl
  · exact fun n p j p₁ hat hstep => condStep_own hat hstep fun r h => by
      cases h
      rfl

private theorem CondSystem.gives_broadcast (hout : (s.loc u).Out)
    (hcall : InCall condStep CondLoc.Out u .broadcast s s') (hback : (s'.loc u).Out) :
    s.Gives s' u .broadcastSeq .broadcastWake := by
  obtain ⟨r, hout⟩ := hout
  have hnot : ¬(CondLoc.broadcastSeq).Out ∧ ∀ n, ¬(CondLoc.broadcastWake n).Out :=
    ⟨CondLoc.not_out fun r h => (by cases h), fun n => CondLoc.not_out fun r h => (by cases h)⟩
  refine CondSystem.Gives.of_call ?_ ?_ ?_ hnot hcall hback
  · exact fun s' hstep => condStep_own hout hstep fun r h => by
      cases h
      rfl
  · exact fun p j p₁ hat hstep => condStep_own hat hstep fun r h => by
      cases h
      rfl
  · exact fun n p j p₁ hat hstep => condStep_own hat hstep fun r h => by
      cases h
      rfl

omit [DecidableEq Tid] in
private theorem CondSystem.few_of_lt (h : s.shared.signals < 2 ^ 32) : s.Few := by
  intro t a _
  omega

omit [DecidableEq Tid] in
private theorem CondInv.init (kind : MutexKind) (now : Clocks) :
    CondInv (CondSystem.init kind now : CondSystem Tid) where
  seq := rfl
  loc := fun _ => trivial
  asleep := fun _ ht => absurd ht List.not_mem_nil
  nodup := List.nodup_nil
  sorted := List.Pairwise.nil

theorem cond_ok {kind : MutexKind} {now : Clocks} (h : CondReach (.init kind now) s) : CondOk s := by
  have hfew₀ : (CondSystem.init kind now : CondSystem Tid).Few := CondSystem.few_of_lt (Nat.two_pow_pos 32)
  have hfew : s.Few := h.few hfew₀
  have hi : CondInv s := h.inv hfew₀ (CondInv.init kind now)
  have hr : RetakeInv s := h.retake (RetakeInv.init kind now)
  constructor
  case signal =>
    intro u i j s₁ s₂ s₃ hloc hfirst hfew₁ hreach hwake hlast hfew₃
    exact hi.signal hfew hloc hfirst hfew₁ hreach hwake hlast hfew₃
  case broadcast =>
    intro u i j s₁ s₂ s₃ hloc hfirst hfew₁ hreach hwake hlast hfew₃ t hwait
    exact hi.broadcast hfew hloc hfirst hfew₁ hreach hwake hlast hfew₃ hwait
  case moves => exact fun n t hb => hb.moves
  case stops =>
    intro n t hn hb hawake e s' hstep
    refine (hi.ends hfew hn hb hstep).imp_left fun ⟨hb', hgo⟩ => ⟨hb', fun hmem => ?_, hgo⟩
    exact hawake (hi.asleep_step hfew hn hstep hmem hb').1
  case timed => exact fun t e s' l hstep hloc' => hi.timed hstep hloc'
  case holds => exact fun t i s' r hwait hstep hloc' => hr.holds hi hwait hstep hloc'
  case signals => exact fun u s' hout hcall hback => CondSystem.gives_signal hout hcall hback
  case broadcasts => exact fun u s' hout hcall hback => CondSystem.gives_broadcast hout hcall hback

private theorem CondReach.of_run {es : List (CondEvent Tid)} (hrun : Transition.run condStep s es = some s')
    (hlt : s'.shared.signals < 2 ^ 32) : CondReach s s' := by
  have hreach : Transition.Reach condStep s s' := ⟨es, hrun⟩
  refine (hreach.induct (P := fun q => CondReach q s' ∧ q.shared.signals ≤ s'.shared.signals)
    ⟨Relation.ReflTransGen.refl, Nat.le_refl _⟩ fun p e q hstep _ ⟨ih, hle⟩ => ⟨?_, ?_⟩).1
  · exact Relation.ReflTransGen.head ⟨⟨e, hstep⟩, CondSystem.few_of_lt (by omega)⟩ ih
  · exact Nat.le_trans (condStep_signals hstep) hle

/-- A thread locks the free mutex and begins a wait, up to the load of the sequence word in its loop. -/
def begins (t : Tid) (w : Until) : List (CondEvent Tid) :=
  .thread t (.mutex .lock) :: List.replicate 3 (.thread t (.mutex .run)) ++
    [.thread t (.wait w), .thread t .run, .thread t (.mutex .run), .thread t (.mutex .run)]

theorem cond_ok_waiting : ∃ s : CondSystem Nat, (s.loc 1 = .signalSeq ∧ s.shared.sleepers = [0]) ∧ CondOk s := by
  have hrun : (Transition.run condStep (.init .normal .zero)
      (begins 0 .woken ++ List.replicate 3 (.thread 0 .run) ++ [.thread 1 .signal])).map
        (fun s : CondSystem Nat => (s.loc 1, s.shared.sleepers, s.shared.signals)) = some (.signalSeq, [0], 0) := by
    decide +kernel
  obtain ⟨s, hs, heq⟩ := Option.map_eq_some_iff.1 hrun
  simp only [Prod.mk.injEq] at heq
  obtain ⟨hloc, hsleepers, hsignals⟩ := heq
  exact ⟨s, ⟨hloc, hsleepers⟩, cond_ok (CondReach.of_run hs (by omega))⟩

/-- The only thread that waits when a signal comes times out, and the wake reaches one that has begun
to wait since. -/
theorem cond_absorbed : ∃ s s₁ s₂ s₃ : CondSystem (Fin 3), CondReach (.init .normal .zero) s ∧
    s.loc 1 = .signalSeq ∧ (s.loc 0).Waiting ∧ (∀ t, (s.loc t).Waiting → t = 0) ∧
    condStep s (.thread 1 .run) = some s₁ ∧ CondReach s₁ s₂ ∧ s₂.loc 1 = .signalWake s.shared.signals ∧
    s₂.loc 0 = .mutex (.out (.err .ETIMEDOUT)) ∧ s₂.shared.sleepers = [2] ∧
    condStep s₂ (.thread 1 .run) = some s₃ ∧ s₃.shared.sleepers = [] := by
  have hrun : ((Transition.run condStep (.init .normal .zero)
      (begins 0 ⟨.CLOCK_MONOTONIC, some ⟨0, 0⟩⟩ ++ [.thread 0 .run, .thread 1 .signal])).bind fun s =>
        (condStep s (.thread 1 .run)).bind fun s₁ =>
          (Transition.run condStep s₁ (begins 2 .woken ++ List.replicate 3 (.thread 2 .run) ++
            .thread 0 .run :: List.replicate 3 (.thread 0 (.mutex .run)))).bind fun s₂ =>
            (condStep s₂ (.thread 1 .run)).map fun s₃ : CondSystem (Fin 3) =>
              ([s.loc 0, s.loc 1, s.loc 2, s₂.loc 0, s₂.loc 1], [s₂.shared.sleepers, s₃.shared.sleepers],
                [s.shared.signals, s₂.shared.signals])) =
      some ([.waitClock 0 0 ⟨.CLOCK_MONOTONIC, some ⟨0, 0⟩⟩, .signalSeq, .mutex (.out .zero),
        .mutex (.out (.err .ETIMEDOUT)), .signalWake 0], [[2], []], [0, 1]) := by
    decide +kernel
  obtain ⟨s, hs, hrun⟩ := Option.bind_eq_some_iff.1 hrun
  obtain ⟨s₁, hs₁, hrun⟩ := Option.bind_eq_some_iff.1 hrun
  obtain ⟨s₂, hs₂, hrun⟩ := Option.bind_eq_some_iff.1 hrun
  obtain ⟨s₃, hs₃, heq⟩ := Option.map_eq_some_iff.1 hrun
  simp only [Prod.mk.injEq, List.cons.injEq, and_true] at heq
  obtain ⟨⟨hloc0, hloc1, hloc2, hout, hwake⟩, ⟨hsleepers, hnil⟩, hsignals, hsignals₂⟩ := heq
  refine ⟨s, s₁, s₂, s₃, CondReach.of_run hs (by omega), hloc1, by rw [hloc0]; trivial, ?_, hs₁,
    CondReach.of_run hs₂ (by omega), by rw [hwake, hsignals], hout, hsleepers, hs₃, hnil⟩
  intro t hwait
  match t with
  | 0 => rfl
  | 1 =>
    rw [hloc1] at hwait
    exact hwait.elim
  | 2 =>
    rw [hloc2] at hwait
    exact hwait.elim

end Sppc.Windows
