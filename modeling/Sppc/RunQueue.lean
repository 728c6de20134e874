import Sppc.Models

/-!
# The run queue

`_gt_rq_push`, `_gt_rq_pop` and `_gt_rq_remove` on the runtime are `push` and its variants, and `pop`, on the abstract
state.
-/

namespace Sppc

open LinkedList

variable {Io : Type} {R : GtRuntime Io} {v : Roster} {t : Nat} {f : Resume}

/-! ### Pushing -/

/-- The fields `_gt_rq_push` writes. -/
theorem gtRqPush_eq (R : GtRuntime Io) (t : Nat) : gtRqPush R t =
    { R with
      slots := fun i => { R.slots i with
        state := if i = t then .ready else (R.slots i).state
        next := if R.rqTail = some i then some t else if i = t then none else (R.slots i).next }
      rqHead := if R.rqTail = none then some t else R.rqHead
      rqTail := some t } := by
  unfold gtRqPush GtRuntime.modify
  cases h : R.rqTail with
  | none =>
    simp only [reduceCtorEq, ↓reduceIte, GtRuntime.mk.injEq, true_and, and_true]
    funext i
    by_cases hi : i = t
    · subst hi; simp
    · simp [hi]
  | some z =>
    simp only [reduceCtorEq, ↓reduceIte, GtRuntime.mk.injEq, true_and, and_true, Option.some.injEq]
    funext i
    by_cases hi : i = t <;> by_cases hz : i = z
    all_goals simp_all [eq_comm]

/-- The lists after a push of `t`, which was on none of the lists that use its link. -/
theorem ListsOk.push {v' : Roster} (h : ListsOk R v) (hready : ∀ i, i ∈ v.ready ↔ ∃ f, v.role i = .ready f)
    (hfree : ∀ i, i ∈ v.free ↔ v.role i = .free) (ht : t ∉ v.ready)
    (hu : v.role t ≠ .unused) (hf : v.role t ≠ .free) (hd : v.role t ≠ .zombie)
    (hsp : t ≠ R.current → (R.slots t).sp = some f)
    (hrole : v'.role = Function.update v.role t (.ready f)) (hr : v'.ready = v.ready ++ [t])
    (hfr : v'.free = v.free) (hj : v'.joiners = v.joiners) : ListsOk (gtRqPush R t) v' := by
  obtain ⟨h1, h2, h3, h4, h5, h6, h7, h8, h9⟩ := h
  -- the tail is a ready task, so its link is nobody else's
  have htail : ∀ z, R.rqTail = some z → z ∈ v.ready := fun z hz => by
    rw [h4] at hz
    exact List.mem_of_getLast? hz
  rw [gtRqPush_eq]
  constructor
  · simp only [hrole, Function.update_apply]; grind
  · simp only [hrole, Function.update_apply]; grind [Role.state]
  · rw [hr]
    exact h3.snoc h4 (by grind) rfl (by grind) (by grind)
  · rw [hr]; simp
  · rw [hfr]
    refine h5.congr fun b hb => ?_
    have hbr : b ∉ v.ready := fun hb' => by grind
    grind
  · rw [hj]; exact h6
  · intro z hz
    have := h7 z hz
    have hzr : z ∉ v.ready := fun hz' => by grind
    simp only [hrole, Function.update_apply]
    grind
  · simp only [hrole, Function.update_apply]; grind
  · simp only [hrole, Function.update_apply]; grind [Role.frame]

variable [IoBackend Io] [LawfulIoBackend Io]

/-- The running task gives way. -/
theorem Models.push (h : Models R v) (ht : v.role t = .running) (hf : Roster.GivesWay f)
    (hl : v.locker = some t ↔ ∃ c, f = .stepped c)
    (hc : ∀ c, f = .stepped c → (R.lockWaiter t).lock = c.lock ∧ c.queued = true) :
    Models (gtRqPush R t) (v.push t f) := by
  obtain ⟨hok, hlists, hlocks, hcounts, hlog, henvs⟩ := h
  have hrun : t = R.current := hlists.running t (.inl ht)
  have hstage : ∀ i, ((v.push t f).role i).stage = (v.role i).stage := fun i => by
    simp only [Roster.push, Function.update_apply]
    split
    · subst i
      rw [ht]
      cases f <;> first | rfl | cases hf
    · rfl
  have heq := gtRqPush_eq R t
  refine ⟨hok.push ht hf hl, ?_, ?_, ?_, ?_, ?_⟩
  · exact hlists.push hok.ready_iff hok.free_iff (by simp [hok.ready_iff, ht]) (by simp [ht]) (by simp [ht])
      (by simp [ht]) (fun hne => absurd hrun hne) rfl rfl rfl rfl
  · obtain ⟨h1, h2, h3, h4⟩ := hlocks
    rw [heq]
    refine ⟨h1, h2, ?_, h4⟩
    simp only [Roster.push, Function.update_apply]
    grind
  · rw [heq]
    refine hcounts.congr (fun _ => rfl) (fun _ => rfl) rfl rfl rfl rfl ?_ ?_ rfl rfl rfl rfl rfl
    all_goals simp only [Roster.push, Function.update_apply]
    all_goals grind [Role.occupied]
  · rw [heq]
    refine hlog.congr (.refl _) (fun _ => rfl) ?_ hstage rfl rfl rfl ?_
    all_goals simp only [Roster.push, Function.update_apply]
    all_goals grind [Role.occupied]
  · rw [heq]
    refine henvs.congr (fun _ => rfl) ?_ (fun i _ => by rw [hstage]) (fun _ _ => rfl) rfl
    simp only [Roster.push, Function.update_apply]
    grind [Role.holds]

/-! ### Taking off -/

/-- The run queue without `t`, which comes after `prev`. -/
def rqUnlink (R : GtRuntime Io) (prev : Option Nat) (t : Nat) : GtRuntime Io :=
  { R with
    slots := fun i => { R.slots i with
      next := if i = t then none else if prev = some i then (R.slots t).next else (R.slots i).next }
    rqHead := if prev = none then (R.slots t).next else R.rqHead
    rqTail := if R.rqTail = some t then prev else R.rqTail }

omit [IoBackend Io] [LawfulIoBackend Io] in
private theorem rq_next {l₁ l₂ : List Nat} (h : ListsOk R v) (hr : v.ready = l₁ ++ t :: l₂) :
    (R.slots t).next = l₂.head? := by
  have h3 := h.ready
  rw [hr] at h3
  exact (linked_append h3).2.head

omit [IoBackend Io] [LawfulIoBackend Io] in
/-- `_gt_rq_pop`. -/
theorem gtRqPop_cons {l : List Nat} (h : ListsOk R v) (hr : v.ready = t :: l) :
    gtRqPop R = (some t, rqUnlink R none t) := by
  have hhead : R.rqHead = some t := by rw [h.ready.head, hr]; rfl
  have hnext : (R.slots t).next = l.head? := rq_next h (show v.ready = [] ++ t :: l from hr)
  have htail : R.rqTail = some t ↔ l.head? = none := by
    rw [h.tail, hr]
    cases l with
    | nil => simp
    | cons a l =>
      have hnd := h.ready.nodup
      rw [hr] at hnd
      simp only [List.getLast?_cons_cons, List.head?_cons, reduceCtorEq, iff_false]
      intro he
      exact (List.nodup_cons.1 hnd).1 (List.mem_of_getLast? he)
  unfold gtRqPop rqUnlink GtRuntime.modify
  simp only [hhead, hnext, reduceCtorEq, ↓reduceIte, Prod.mk.injEq, true_and]
  by_cases hl : l.head? = none
  · simp only [hl, htail.2 hl, ↓reduceIte, GtRuntime.mk.injEq, true_and, and_true]
    funext i
    by_cases hi : i = t <;> simp [hi]
  · simp only [hl, mt htail.1 hl, ↓reduceIte, GtRuntime.mk.injEq, true_and, and_true]
    funext i
    by_cases hi : i = t <;> simp [hi]

omit [IoBackend Io] [LawfulIoBackend Io] in
theorem gtRqPop_nil (h : ListsOk R v) (hr : v.ready = []) : gtRqPop R = (none, R) := by
  have hhead : R.rqHead = none := by rw [h.ready.head, hr]; rfl
  rw [gtRqPop, hhead]

omit [IoBackend Io] [LawfulIoBackend Io] in
private theorem gtRqRemoveFrom_eq {l₁ l₂ l : List Nat} {n : Nat} (h : ListsOk R v) (hr : v.ready = l ++ l₁ ++ t :: l₂)
    (hn : l₁.length < n) (ht : t ∉ l₁) :
    gtRqRemoveFrom R t n l.getLast? (l₁ ++ [t]).head? = some (rqUnlink R (l ++ l₁).getLast? t) := by
  induction l₁ generalizing l n with
  | nil =>
    obtain ⟨n, rfl⟩ : ∃ m, n = m + 1 := ⟨n - 1, by simp at hn; omega⟩
    have hlt : l.getLast? ≠ some t := fun hl => by
      have hnd := h.ready.nodup
      rw [hr, List.append_nil] at hnd
      exact (List.nodup_append.1 hnd).2.2 t (List.mem_of_getLast? hl) t (List.mem_cons_self ..) rfl
    rw [List.append_nil, List.nil_append, List.head?_cons]
    unfold gtRqRemoveFrom
    simp only [ne_eq, not_true_eq_false, ↓reduceIte, Option.some.injEq]
    unfold rqUnlink GtRuntime.modify
    cases hl : l.getLast? with
    | none =>
      rw [hl] at hlt
      by_cases hz : R.rqTail = some t
      all_goals simp only [hz, ↓reduceIte, reduceCtorEq, GtRuntime.mk.injEq, true_and, and_true]
      all_goals funext i
      all_goals by_cases hi : i = t <;> simp [hi]
    | some p =>
      rw [hl] at hlt
      by_cases hz : R.rqTail = some t
      all_goals simp only [hz, ↓reduceIte, reduceCtorEq, GtRuntime.mk.injEq, true_and, and_true]
      all_goals funext i
      all_goals by_cases hi : i = t <;> by_cases hp : i = p
      all_goals simp_all [eq_comm]
  | cons a l₁ ih =>
    obtain ⟨n, rfl⟩ : ∃ m, n = m + 1 := ⟨n - 1, by simp at hn; omega⟩
    have hr' : v.ready = (l ++ [a]) ++ l₁ ++ t :: l₂ := by rw [hr]; simp
    have hnext : (R.slots a).next = (l₁ ++ [t]).head? := by
      have := rq_next h (show v.ready = l ++ a :: (l₁ ++ t :: l₂) by rw [hr]; simp)
      rw [this]
      cases l₁ <;> rfl
    rw [List.cons_append, List.head?_cons]
    have hat : a ≠ t := fun he => ht (by rw [he]; exact List.mem_cons_self ..)
    unfold gtRqRemoveFrom
    rw [if_pos hat, hnext]
    have := ih (l := l ++ [a]) hr' (by simpa using hn) (fun h => ht (List.mem_cons_of_mem _ h))
    simpa using this

omit [IoBackend Io] [LawfulIoBackend Io] in
/-- `_gt_rq_remove` of a task on the queue. -/
theorem gtRqRemove_eq {l₁ l₂ : List Nat} (h : ListsOk R v) (hr : v.ready = l₁ ++ t :: l₂)
    (hlen : v.ready.length ≤ R.nslots) : gtRqRemove R t = some (rqUnlink R l₁.getLast? t) := by
  have hnd := h.ready.nodup
  rw [hr] at hnd
  have ht : t ∉ l₁ := fun ht => (List.nodup_append.1 hnd).2.2 t ht t (List.mem_cons_self ..) rfl
  have hhead : R.rqHead = (l₁ ++ [t]).head? := by rw [h.ready.head, hr]; cases l₁ <;> rfl
  have := gtRqRemoveFrom_eq (l := []) (n := loopBound R) h hr (by rw [hr] at hlen; simp [loopBound] at *; omega) ht
  rw [gtRqRemove, hhead]
  exact this

/-- A task comes off the run queue. -/
theorem Models.pop {l₁ l₂ : List Nat} (h : Models R v) (ht : v.role t = .ready f) (hr : v.ready = l₁ ++ t :: l₂) :
    Models (rqUnlink R l₁.getLast? t) (v.pop t f) := by
  obtain ⟨hok, hlists, hlocks, hcounts, hlog, henvs⟩ := h
  have hnd := hlists.ready.nodup
  have herase : v.ready.erase t = l₁ ++ l₂ := by
    rw [hr] at hnd ⊢
    have ht : t ∉ l₁ := fun ht => (List.nodup_append.1 hnd).2.2 t ht t (List.mem_cons_self ..) rfl
    rw [List.erase_append_right _ ht, List.erase_cons_head]
  have hnext := rq_next hlists hr
  refine ⟨hok.pop ht hnd, ?_, ?_, ?_, ?_, ?_⟩
  · obtain ⟨h1, h2, h3, h4, h5, h6, h7, h8, h9⟩ := hlists
    have hprev : ∀ p, l₁.getLast? = some p → p ∈ v.ready := fun p hp => by
      rw [hr]
      exact List.mem_append_left _ (List.mem_of_getLast? hp)
    have hrole : ∀ i ∈ v.ready, ∃ f, v.role i = .ready f := fun i => (hok.ready_iff i).1
    constructor
    · simp only [Roster.pop, Function.update_apply]; grind [rqUnlink]
    · simp only [Roster.pop, Function.update_apply]; grind [rqUnlink, Role.state]
    · rw [Roster.pop, herase]
      rw [hr] at h3 hnd
      refine h3.unlink ?_ ?_ ?_
      · simp [rqUnlink]
      · intro b hb
        have hbt : b ≠ t := by
          rintro rfl
          exact (List.nodup_append.1 hnd).2.2 b (List.mem_of_getLast? hb) b (List.mem_cons_self ..) rfl
        simp [rqUnlink, hbt, hb]
      · intro c hc hne
        have hct : c ≠ t := by
          rintro rfl
          rw [List.nodup_append] at hnd
          grind
        simp [rqUnlink, hct, hne]
    · rw [Roster.pop, herase]
      simp only [rqUnlink, h4, hr, List.getLast?_append, List.getLast?_cons]
      rw [hr] at hnd
      cases hl : l₂.getLast? with
      | none =>
        rw [List.getLast?_eq_none_iff] at hl
        subst hl
        simp
      | some z =>
        have hzt : z ≠ t := by
          rintro rfl
          rw [List.nodup_append] at hnd
          exact (List.nodup_cons.1 hnd.2.1).1 (List.mem_of_getLast? hl)
        simp [hzt]
    · refine h5.congr fun b hb => ?_
      have hbr : b ∉ v.ready := fun hb' => by
        obtain ⟨f, hf⟩ := hrole b hb'
        rw [(hok.free_iff b).1 hb] at hf
        cases hf
      have hbt : b ≠ t := by
        rintro rfl
        exact hbr (by rw [hr]; simp)
      have : l₁.getLast? ≠ some b := fun he => hbr (hprev b he)
      simp [rqUnlink, hbt, this]
    · exact h6
    · intro z hz
      have hzd := h7 z hz
      have hzr : z ∉ v.ready := fun hz' => by
        obtain ⟨f, hf⟩ := hrole z hz'
        rw [hzd.1] at hf
        cases hf
      have hzt : z ≠ t := by
        rintro rfl
        exact hzr (by rw [hr]; simp)
      have : l₁.getLast? ≠ some z := fun he => hzr (hprev z he)
      simp [rqUnlink, Roster.pop, hzt, hzd, this]
    · simp only [Roster.pop, Function.update_apply]; grind [rqUnlink]
    · simp only [Roster.pop, Function.update_apply]; grind [rqUnlink, Role.frame]
  · refine hlocks.congr rfl rfl (fun _ => rfl) rfl ?_
    simp only [Roster.pop, Function.update_apply]
    grind
  · refine hcounts.congr (fun _ => rfl) (fun _ => rfl) rfl rfl rfl rfl ?_ ?_ rfl rfl rfl rfl rfl
    all_goals simp only [Roster.pop, Function.update_apply]
    all_goals grind [Role.occupied]
  · refine hlog.congr (.refl _) (fun _ => rfl) ?_ ?_ rfl rfl rfl ?_
    all_goals simp only [Roster.pop, Function.update_apply]
    · grind [Role.occupied]
    · intro i
      split
      · subst i
        rw [ht]
        cases f <;> rfl
      · rfl
    · grind
  · refine henvs.congr (fun _ => rfl) ?_ ?_ (fun _ _ => rfl) rfl
    all_goals simp only [Roster.pop, Function.update_apply]
    · grind [Role.holds]
    · intro i _
      split
      · subst i
        rw [ht]
        cases f <;> rfl
      · rfl

end Sppc
