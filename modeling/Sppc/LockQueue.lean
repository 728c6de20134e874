import Sppc.RunQueue

/-!
# The queue of tasks waiting for thread locks

`_gt_lock_wait_add` and `_gt_lock_wait_remove` on the entries' links are `enqueue` and `dequeue`, and the loop of
`_gt_lock_released` finds the earliest entry for its lock.
-/

namespace Sppc

open LinkedList

variable {Io : Type} {R : GtRuntime Io} {v : Roster} {w lock : Nat} {lw : Nat → GtLockWaiter}

/-! ### The links -/

private theorem addFrom_eq {a n : Nat} {l : List Nat} (h : Linked (fun i => (lw i).next) (some a) (a :: l))
    (hw : w ∉ a :: l) (hn : l.length < n) :
    gtLockWaitAddFrom w n a lw = fun i => { lw i with
      next := if i = w then none else if (a :: l).getLast? = some i then some w else (lw i).next } := by
  induction l generalizing a n with
  | nil =>
    obtain ⟨n, rfl⟩ : ∃ m, n = m + 1 := ⟨n - 1, by simp at hn; omega⟩
    have hnext : (lw a).next = none := h.2
    have hwa : w ≠ a := fun he => hw (by simp [he])
    unfold gtLockWaitAddFrom
    rw [hnext]
    funext i
    simp only [Function.update_apply, List.getLast?_singleton, Option.some.injEq]
    by_cases hia : i = a
    · subst hia
      simp [hwa.symm]
    · by_cases hiw : i = w
      · subst hiw
        simp [hia]
      · simp [hia, hiw, Ne.symm hia]
  | cons b l ih =>
    obtain ⟨n, rfl⟩ : ∃ m, n = m + 1 := ⟨n - 1, by simp at hn; omega⟩
    have hnext : (lw a).next = some b := h.2.1
    unfold gtLockWaitAddFrom
    rw [hnext, List.getLast?_cons_cons]
    have htail : Linked (fun i => (lw i).next) (some b) (b :: l) := ⟨rfl, h.2.2⟩
    exact ih htail (fun h => hw (List.mem_cons_of_mem _ h)) (by simpa using hn)

/-- The entries once `w` is linked after the last of `l`. -/
private theorem linked_lockWaitAdd {l : List Nat} (h : Linked (fun i => (R.lockWaiter i).next) R.lockWaiters l)
    (hw : w ∉ l) (hn : l.length ≤ R.nslots) :
    Linked (fun i => ((gtLockWaitAdd R w).lockWaiter i).next) (gtLockWaitAdd R w).lockWaiters (l ++ [w]) ∧
    ∀ i, ((gtLockWaitAdd R w).lockWaiter i).task = (R.lockWaiter i).task ∧
      ((gtLockWaitAdd R w).lockWaiter i).lock = (R.lockWaiter i).lock := by
  cases l with
  | nil =>
    have hnone : R.lockWaiters = none := h
    unfold gtLockWaitAdd
    rw [hnone]
    refine ⟨⟨rfl, by simp⟩, fun i => ?_⟩
    simp only [Function.update_apply]
    split
    · subst i; exact ⟨rfl, rfl⟩
    · exact ⟨rfl, rfl⟩
  | cons a l =>
    have hsome : R.lockWaiters = some a := h.1
    have heq := addFrom_eq (n := loopBound R) (hsome ▸ h) hw (by simp [loopBound] at hn ⊢; omega)
    unfold gtLockWaitAdd
    rw [hsome]
    dsimp only
    rw [heq]
    refine ⟨?_, fun _ => ⟨rfl, rfl⟩⟩
    rw [hsome] at h
    refine h.snoc rfl (by simp) (by simp) (fun b hb => ?_) fun c hc hne => ?_
    · have hbw : b ≠ w := by
        rintro rfl
        exact hw (List.mem_of_getLast? hb)
      simp [hbw, hb]
    · have hcw : c ≠ w := by
        rintro rfl
        exact hw hc
      simp [hcw, hne]

private theorem removeFrom_eq {a n : Nat} {l₁ l₂ : List Nat}
    (h : Linked (fun i => (lw i).next) (some a) (a :: (l₁ ++ w :: l₂))) (hn : l₁.length < n) :
    gtLockWaitRemoveFrom w n a lw = fun i => { lw i with
      next := if (a :: l₁).getLast? = some i then (lw w).next else (lw i).next } := by
  have hnd := h.nodup
  induction l₁ generalizing a n with
  | nil =>
    obtain ⟨n, rfl⟩ : ∃ m, n = m + 1 := ⟨n - 1, by simp at hn; omega⟩
    have hnext : (lw a).next = some w := h.2.1
    unfold gtLockWaitRemoveFrom
    rw [hnext]
    simp only [↓reduceIte, List.getLast?_singleton, Option.some.injEq]
    funext i
    by_cases hia : i = a
    · subst hia
      simp
    · simp [hia, Ne.symm hia]
  | cons b l₁ ih =>
    obtain ⟨n, rfl⟩ : ∃ m, n = m + 1 := ⟨n - 1, by simp at hn; omega⟩
    have hnext : (lw a).next = some b := h.2.1
    have hbw : b ≠ w := by
      rintro rfl
      simp at hnd
    have htail : Linked (fun i => (lw i).next) (some b) (b :: (l₁ ++ w :: l₂)) := ⟨rfl, h.2.2⟩
    unfold gtLockWaitRemoveFrom
    rw [hnext, List.getLast?_cons_cons]
    dsimp only
    rw [if_neg hbw]
    exact ih htail (by simpa using hn) (List.nodup_cons.1 hnd).2

/-- The entries once `w` is unlinked. -/
private theorem linked_lockWaitRemove {l : List Nat} (h : Linked (fun i => (R.lockWaiter i).next) R.lockWaiters l)
    (hw : w ∈ l) (hn : l.length ≤ R.nslots) :
    Linked (fun i => ((gtLockWaitRemove R w).lockWaiter i).next) (gtLockWaitRemove R w).lockWaiters (l.erase w) ∧
    ∀ i, ((gtLockWaitRemove R w).lockWaiter i).task = (R.lockWaiter i).task ∧
      ((gtLockWaitRemove R w).lockWaiter i).lock = (R.lockWaiter i).lock := by
  have hnd := h.nodup
  cases l with
  | nil => cases hw
  | cons a l =>
    have hsome : R.lockWaiters = some a := h.1
    unfold gtLockWaitRemove
    rw [hsome]
    dsimp only
    by_cases haw : a = w
    · subst haw
      rw [if_pos rfl, List.erase_cons_head]
      exact ⟨h.2, fun _ => ⟨rfl, rfl⟩⟩
    · have hwl : w ∈ l := by
        rcases List.mem_cons.1 hw with hw | hw
        · exact absurd hw.symm haw
        · exact hw
      obtain ⟨l₁, l₂, rfl⟩ := List.append_of_mem hwl
      have hw₁ : w ∉ l₁ := fun hm => by
        have := (List.nodup_cons.1 hnd).2
        exact (List.nodup_append.1 this).2.2 w hm w (List.mem_cons_self ..) rfl
      have herase : (a :: (l₁ ++ w :: l₂)).erase w = (a :: l₁) ++ l₂ := by
        rw [List.erase_cons_tail (by simpa using haw), List.erase_append_right _ hw₁, List.erase_cons_head]
        rfl
      rw [hsome] at h
      have heq := removeFrom_eq (n := loopBound R) h (by simp [loopBound] at hn ⊢; omega)
      rw [if_neg haw]
      dsimp only
      rw [heq, herase]
      refine ⟨?_, fun _ => ⟨rfl, rfl⟩⟩
      have h' : Linked (fun i => (R.lockWaiter i).next) (some a) ((a :: l₁) ++ w :: l₂) := h
      refine h'.unlink (by simp) (fun b hb => by simp [hb]) fun c _ hne => by simp [hne]

/-! ### Entering and leaving the queue -/

variable [IoBackend Io] [LawfulIoBackend Io]

omit [IoBackend Io] [LawfulIoBackend Io] in
/-- There are no more entries than slots. -/
theorem ListsOk.queue_le (h : ListsOk R v) (hok : v.Ok) (hnd : v.queue.Nodup) : v.queue.length ≤ R.nslots := by
  refine h.length_le hnd fun i hi => ?_
  rcases (hok.queue_iff i).1 hi with ⟨c, hc | hc⟩ | hc
  · simp [hc]
  · simp [hc]
  · simp [hok.locker i hc]

/-- The entries change and nothing else. -/
private theorem Models.setLocks {R' : GtRuntime Io} {v' : Roster} (h : Models R v) (hok : v'.Ok)
    (hR : R' = { R with lockWaiters := R'.lockWaiters, lockWaiter := R'.lockWaiter })
    (hv : v' = { v with queue := v'.queue, locker := v'.locker }) (hlocks : LocksOk R' v') : Models R' v' := by
  obtain ⟨-, ⟨h1, h2, h3, h4, h5, h6, h7, h8, h9⟩, -, ⟨c1, c2, c3, c4, c5, c6, c7, c8⟩, hlog, henvs⟩ := h
  generalize R'.lockWaiters = a at hR
  generalize R'.lockWaiter = b at hR
  generalize v'.queue = c at hv
  generalize v'.locker = d at hv
  subst hR hv
  refine ⟨hok, ⟨h1, h2, h3, h4, h5, h6, h7, h8, h9⟩, hlocks, ⟨c1, c2, c3, c4, c5, c6, c7, c8⟩, ?_, ?_⟩
  · exact hlog.congr (.refl _) (fun _ => rfl) (fun _ => rfl) (fun _ => rfl) rfl rfl rfl fun _ _ h => h
  · exact henvs.congr (fun _ => rfl) (fun _ => rfl) (fun _ _ => Iff.rfl) (fun _ _ => rfl) rfl

/-- The running task that is not queued sets its entry up. -/
theorem Models.setEntry (h : Models R v) (hw : v.role w = .running) (hl : v.locker = none) (x : GtLockWaiter) :
    Models { R with lockWaiter := Function.update R.lockWaiter w x } v := by
  have hnot : w ∉ v.queue := by rw [h.ok.queue_iff, hw, hl]; simp
  refine h.setLocks h.ok rfl rfl ?_
  obtain ⟨h1, h2, h3, h4⟩ := h.locks
  refine ⟨h1.congr fun b hb => ?_, fun i hi => ?_, fun i c hc => ?_, h4⟩
  · have : b ≠ w := by rintro rfl; exact hnot hb
    simp [this]
  · have : i ≠ w := by rintro rfl; exact hnot hi
    simpa [this] using h2 i hi
  · have : i ≠ w := by rintro rfl; rw [hw] at hc; rcases hc with hc | hc <;> cases hc
    simpa [this] using h3 i c hc

/-- The running task is queued. -/
theorem Models.enqueue (h : Models R v) (hw : v.role w = .running) (hl : v.locker = none)
    (htask : (R.lockWaiter w).task = some w) : Models ((gtLockWaitAdd R w).note (.queued w)) (v.enqueue w) ∧
    ∀ i, (((gtLockWaitAdd R w).note (.queued w)).lockWaiter i).lock = (R.lockWaiter i).lock := by
  have hnot : w ∉ v.queue := by rw [h.ok.queue_iff, hw, hl]; simp
  have hnd := h.locks.queue.nodup
  obtain ⟨hlink, hsame⟩ := linked_lockWaitAdd h.locks.queue hnot (h.lists.queue_le h.ok hnd)
  obtain ⟨-, h2, h3, h4⟩ := h.locks
  have hR : gtLockWaitAdd R w = { R with
      lockWaiters := (gtLockWaitAdd R w).lockWaiters, lockWaiter := (gtLockWaitAdd R w).lockWaiter } := by
    unfold gtLockWaitAdd
    split <;> rfl
  have hlog : (gtLockWaitAdd R w).log = R.log := by rw [hR]
  refine ⟨?_, fun i => (hsame i).2⟩
  obtain ⟨hok, ⟨l1, l2, l3, l4, l5, l6, l7, l8, l9⟩, -, ⟨c1, c2, c3, c4, c5, c6, c7, c8⟩, hlogged, henvs⟩ := h
  have hlocks : LocksOk ((gtLockWaitAdd R w).note (.queued w)) (v.enqueue w) := by
    refine ⟨hlink, fun i hi => ?_, fun i c hc => ?_, ?_⟩
    · rcases List.mem_append.1 hi with hi | hi
      · exact (hsame i).1.trans (h2 i hi)
      · cases List.mem_singleton.1 hi
        exact (hsame w).1.trans htask
    · exact ⟨(hsame i).2.trans (h3 i c hc).1, (h3 i c hc).2⟩
    · show List.Pairwise (fun a b => arrival a (.queued w :: (gtLockWaitAdd R w).log) <
        arrival b (.queued w :: (gtLockWaitAdd R w).log)) (v.queue ++ [w])
      rw [hlog]
      refine List.pairwise_append.2 ⟨h4.imp_of_mem fun {a b} ha hb hab => ?_, List.pairwise_singleton _ _,
        fun a ha b hb => ?_⟩
      · have haw : a ≠ w := by rintro rfl; exact hnot ha
        have hbw : b ≠ w := by rintro rfl; exact hnot hb
        rw [arrival_cons (by simpa using Ne.symm haw), arrival_cons (by simpa using Ne.symm hbw)]
        exact hab
      · cases List.mem_singleton.1 hb
        have haw : a ≠ w := by rintro rfl; exact hnot ha
        rw [arrival_cons (by simpa using Ne.symm haw)]
        have := arrival_le a R.log
        simp only [arrival, ↓reduceIte]
        omega
  generalize (gtLockWaitAdd R w).lockWaiters = a at hR
  generalize (gtLockWaitAdd R w).lockWaiter = b at hR
  rw [hR] at hlocks ⊢
  refine ⟨hok.enqueue hw hl, ⟨l1, l2, l3, l4, l5, l6, l7, l8, l9⟩, hlocks, ⟨c1, c2, c3, c4, c5, c6, c7, c8⟩, ?_, ?_⟩
  · exact hlogged.congr ((SameStory.refl _).aside rfl) (fun _ => rfl) (fun _ => rfl) (fun _ => rfl) rfl rfl rfl
      fun _ _ h => h
  · exact henvs.congr (fun id => envStage_other (by simp [Ev.env])) (fun _ => rfl) (fun _ _ => Iff.rfl)
      (fun _ _ => rfl) rfl

/-- The running task leaves the queue. -/
theorem Models.dequeue (h : Models R v) (hl : v.locker = some w) :
    Models (gtLockWaitRemove R w) (v.dequeue w) := by
  have hmem : w ∈ v.queue := (h.ok.queue_iff w).2 (.inr hl)
  have hnd := h.locks.queue.nodup
  obtain ⟨hlink, hsame⟩ := linked_lockWaitRemove h.locks.queue hmem (h.lists.queue_le h.ok hnd)
  have hR : gtLockWaitRemove R w = { R with
      lockWaiters := (gtLockWaitRemove R w).lockWaiters, lockWaiter := (gtLockWaitRemove R w).lockWaiter } := by
    unfold gtLockWaitRemove
    split
    · rfl
    · split <;> rfl
  refine h.setLocks (h.ok.dequeue hl hnd) hR rfl ?_
  obtain ⟨-, h2, h3, h4⟩ := h.locks
  refine ⟨hlink, fun i hi => ?_, fun i c hc => ?_, ?_⟩
  · exact (hsame i).1.trans (h2 i (List.mem_of_mem_erase hi))
  · exact ⟨(hsame i).2.trans (h3 i c hc).1, (h3 i c hc).2⟩
  · rw [hR]
    exact h4.sublist List.erase_sublist

/-! ### Handing on -/

/-- The entry a release finds: the earliest for its lock. -/
def nextWaiter (R : GtRuntime Io) (v : Roster) (lock : Nat) : Option Nat :=
  v.queue.find? fun i => (R.lockWaiter i).lock = lock

/-- The loop of `_gt_lock_released`, where every entry's task is on the run queue. -/
theorem gtLockReleasedFrom_eq (lock : Nat) {l : List Nat} {n : Nat} {p : Option Nat} (h : Models R v)
    (hl : Linked (fun i => (R.lockWaiter i).next) p l) (hq : ∀ i ∈ l, (R.lockWaiter i).task = some i)
    (hready : ∀ i ∈ l, ∃ f, v.role i = .ready f) (hn : l.length < n) :
    (l.find? (fun i => (R.lockWaiter i).lock = lock) = none ∧ gtLockReleasedFrom R lock n p = none) ∨
    ∃ t l₁ l₂, l.find? (fun i => (R.lockWaiter i).lock = lock) = some t ∧ v.ready = l₁ ++ t :: l₂ ∧
      gtLockReleasedFrom R lock n p = some (t, rqUnlink R l₁.getLast? t) := by
  induction l generalizing p n with
  | nil =>
    cases hl
    cases n <;> exact .inl ⟨rfl, rfl⟩
  | cons e l ih =>
    obtain ⟨n, rfl⟩ : ∃ m, n = m + 1 := ⟨n - 1, by simp at hn; omega⟩
    obtain ⟨rfl, hl⟩ := hl
    have htask := hq e (List.mem_cons_self ..)
    obtain ⟨f, hf⟩ := hready e (List.mem_cons_self ..)
    have hstate : (R.slots e).state = .ready := h.lists.state e _ (by rw [hf]; rfl)
    unfold gtLockReleasedFrom
    dsimp only
    rw [htask]
    by_cases hlock : (R.lockWaiter e).lock = lock
    · have hmem : e ∈ v.ready := (h.ok.ready_iff e).2 ⟨f, hf⟩
      obtain ⟨l₁, l₂, hr⟩ := List.append_of_mem hmem
      have hrm := gtRqRemove_eq h.lists hr (h.lists.length_le h.lists.ready.nodup fun i hi => by
        obtain ⟨g, hg⟩ := (h.ok.ready_iff i).1 hi
        simp [hg])
      refine .inr ⟨e, l₁, l₂, by simp [hlock], hr, ?_⟩
      simp only [hlock, hstate, ne_eq, not_true_eq_false, or_self, ↓reduceIte, hrm]
    · have hfind : (e :: l).find? (fun i => decide ((R.lockWaiter i).lock = lock)) =
          l.find? fun i => (R.lockWaiter i).lock = lock := by simp [hlock]
      rw [hfind]
      simp only [hlock, ne_eq, not_false_eq_true, true_or, ↓reduceIte]
      exact ih hl (fun i hi => hq i (List.mem_cons_of_mem _ hi)) (fun i hi => hready i (List.mem_cons_of_mem _ hi))
        (by simpa using hn)

end Sppc
