import Mathlib.Data.List.Induction
import Mathlib.Data.List.Nodup

/-!
# Traces of a queue

A trace says who entered a queue and who left it, in the order it happened.  `replay` runs a trace on a queue and
fails where somebody leaves who is not the first, or enters twice.  A trace that replays is `Fair`: those who leave do
so in the order in which they came, and while somebody waits only those leave who were there before, each once.
-/

namespace FifoTraces

/-- Somebody enters the queue or leaves it. -/
inductive Act (α : Type*)
  | enter (a : α)
  | leave (a : α)
  deriving DecidableEq, Repr

variable {α : Type*} {a t u : α} {q q' : List α} {as bs m p : List (Act α)}

/-- Those who entered, in order. -/
def entered : List (Act α) → List α
  | [] => []
  | .enter a :: as => a :: entered as
  | .leave _ :: as => entered as

/-- Those who left, in order. -/
def left : List (Act α) → List α
  | [] => []
  | .enter _ :: as => left as
  | .leave a :: as => a :: left as

/-- Whether `u` has entered and not left since. -/
def Waits (as : List (Act α)) (u : α) : Prop := ∃ p m, as = p ++ .enter u :: m ∧ Act.leave u ∉ m

/-- Those who leave do so in the order in which they entered; while `t` waits nobody leaves who was not waiting when
`t` entered, and nobody twice; when `t` leaves all of these have left. -/
structure Fair (as : List (Act α)) : Prop where
  order : left as <+: entered as
  before : ∀ p t m, as = p ++ .enter t :: m → Act.leave t ∉ m → (left m).Nodup ∧ ∀ u ∈ left m, Waits p u
  between : ∀ p t m r, as = p ++ .enter t :: (m ++ .leave t :: r) → Act.leave t ∉ m →
    (left m).Nodup ∧ ∀ u, u ∈ left m ↔ Waits p u

/-! ### Who waits -/

private theorem waits_snoc_enter : Waits (p ++ [.enter a]) u ↔ Waits p u ∨ u = a := by
  constructor
  · rintro ⟨p₁, m, heq, hm⟩
    rcases List.eq_nil_or_concat' m with rfl | ⟨m', x, rfl⟩
    · obtain ⟨-, h⟩ := List.append_inj' heq rfl
      injection h with h
      injection h with h
      exact Or.inr h.symm
    · rw [← List.cons_append, ← List.append_assoc] at heq
      obtain ⟨h, -⟩ := List.append_inj' heq rfl
      exact Or.inl ⟨p₁, m', h, fun hl => hm (List.mem_append_left _ hl)⟩
  · rintro (⟨p₁, m, rfl, hm⟩ | rfl)
    · refine ⟨p₁, m ++ [.enter a], by simp, ?_⟩
      simpa using hm
    · exact ⟨p, [], rfl, List.not_mem_nil⟩

private theorem waits_snoc_leave : Waits (p ++ [.leave a]) u ↔ Waits p u ∧ u ≠ a := by
  constructor
  · rintro ⟨p₁, m, heq, hm⟩
    rcases List.eq_nil_or_concat' m with rfl | ⟨m', x, rfl⟩
    · obtain ⟨-, h⟩ := List.append_inj' heq rfl
      injection h with h
      injection h
    · rw [← List.cons_append, ← List.append_assoc] at heq
      obtain ⟨h, hx⟩ := List.append_inj' heq rfl
      injection hx with hx
      refine ⟨⟨p₁, m', h, fun hl => hm (List.mem_append_left _ hl)⟩, ?_⟩
      rintro rfl
      exact hm (List.mem_append_right _ (by rw [hx]; exact List.mem_singleton_self _))
  · rintro ⟨⟨p₁, m, rfl, hm⟩, hne⟩
    refine ⟨p₁, m ++ [.leave a], by simp, ?_⟩
    simpa [hne] using hm

/-! ### Replaying -/

variable [DecidableEq α]

/-- The queue after a trace; nobody enters who is in it, and only the first leaves. -/
def replay : List α → List (Act α) → Option (List α)
  | q, [] => some q
  | q, .enter a :: as => if a ∈ q then none else replay (q ++ [a]) as
  | [], .leave _ :: _ => none
  | b :: q, .leave a :: as => if a = b then replay q as else none

private theorem replay_enter (h : replay q (.enter a :: as) = some q') : a ∉ q ∧ replay (q ++ [a]) as = some q' := by
  rw [replay] at h
  split at h
  · exact absurd h nofun
  · rename_i hmem
    exact ⟨hmem, h⟩

private theorem replay_leave (h : replay q (.leave a :: as) = some q') : ∃ k, q = a :: k ∧ replay k as = some q' := by
  cases q with
  | nil => exact absurd h nofun
  | cons b k =>
    rw [replay] at h
    split at h
    · rename_i hab
      exact ⟨k, by rw [hab], h⟩
    · exact absurd h nofun

theorem replay_append (q : List α) (as bs : List (Act α)) :
    replay q (as ++ bs) = (replay q as).bind (replay · bs) := by
  induction as generalizing q with
  | nil => rfl
  | cons x as ih =>
    cases x with
    | enter a =>
      rw [List.cons_append, replay, replay]
      split
      · rfl
      · exact ih _
    | leave a =>
      cases q with
      | nil => rfl
      | cons b q =>
        rw [List.cons_append, replay, replay]
        split
        · exact ih _
        · rfl

/-- Some enter, then some leave. -/
theorem replay_enters_leaves {l d : List α} (heq : q ++ l = d ++ q') (hnd : (q ++ l).Nodup) :
    replay q (l.map .enter ++ d.map .leave) = some q' := by
  induction l generalizing q with
  | nil =>
    rw [List.append_nil] at heq
    rw [heq, List.map_nil, List.nil_append]
    clear heq hnd
    induction d with
    | nil => rfl
    | cons a d ih =>
      rw [List.map_cons, List.cons_append, replay, if_pos rfl]
      exact ih
  | cons a l ih =>
    have ha : a ∉ q := by
      intro hmem
      exact (List.nodup_append.1 hnd).2.2 a hmem a List.mem_cons_self rfl
    rw [List.map_cons, List.cons_append, replay, if_neg ha]
    apply ih
    · rw [List.append_assoc]
      exact heq
    · rw [List.append_assoc]
      exact hnd

/-- A trace that replays, cut in two. -/
private theorem replay_split (h : replay q (as ++ bs) = some q') :
    ∃ k, replay q as = some k ∧ replay k bs = some q' := by
  rw [replay_append] at h
  exact Option.bind_eq_some_iff.1 h

/-- Nobody is lost, and nobody overtakes. -/
private theorem replay_conserves (h : replay q as = some q') : q ++ entered as = left as ++ q' := by
  induction as generalizing q with
  | nil =>
    rw [← Option.some.inj h]
    exact List.append_nil q
  | cons x as ih =>
    cases x with
    | enter a =>
      obtain ⟨-, h⟩ := replay_enter h
      rw [entered, left, ← ih h, List.append_assoc]
      rfl
    | leave a =>
      obtain ⟨k, rfl, hk⟩ := replay_leave h
      rw [entered, left, List.cons_append, List.cons_append, ih hk]

private theorem replay_nodup (h : replay q as = some q') (hq : q.Nodup) : q'.Nodup := by
  induction as generalizing q with
  | nil =>
    rw [← Option.some.inj h]
    exact hq
  | cons x as ih =>
    cases x with
    | enter a =>
      obtain ⟨ha, h⟩ := replay_enter h
      apply ih h
      rw [List.nodup_append]
      refine ⟨hq, List.nodup_singleton a, ?_⟩
      intro b hb c hc hbc
      rw [List.mem_singleton] at hc
      exact ha (by rw [← hc, ← hbc]; exact hb)
    | leave a =>
      obtain ⟨k, rfl, hk⟩ := replay_leave h
      exact ih hk (List.nodup_cons.1 hq).2

/-- While `t` waits, those leave who are before it, and others line up behind it. -/
private theorem replay_waiting {k : List α} (h : replay (q ++ t :: k) m = some q') (ht : Act.leave t ∉ m) :
    ∃ q₀, q = left m ++ q₀ ∧ q' = q₀ ++ t :: (k ++ entered m) := by
  induction m generalizing q k with
  | nil =>
    refine ⟨q, rfl, ?_⟩
    rw [← Option.some.inj h, entered, List.append_nil]
  | cons x m ih =>
    rw [List.mem_cons, not_or] at ht
    cases x with
    | enter a =>
      obtain ⟨-, h⟩ := replay_enter h
      rw [List.append_assoc, List.cons_append] at h
      obtain ⟨q₀, hq, hq'⟩ := ih h ht.2
      refine ⟨q₀, hq, ?_⟩
      rw [hq', List.append_assoc]
      rfl
    | leave a =>
      obtain ⟨l, hl, hrest⟩ := replay_leave h
      cases q with
      | nil =>
        injection hl with hta
        exact absurd (by rw [hta]) ht.1
      | cons b q =>
        rw [List.cons_append] at hl
        injection hl with hba hl
        rw [← hl] at hrest
        obtain ⟨q₀, hq, hq'⟩ := ih hrest ht.2
        refine ⟨q₀, ?_, hq'⟩
        rw [hba, hq]
        rfl

/-- The queue holds those who wait. -/
theorem mem_replay (h : replay [] p = some q) : u ∈ q ↔ Waits p u := by
  induction p using List.reverseRecOn generalizing q with
  | nil =>
    rw [← Option.some.inj h]
    refine ⟨nofun, ?_⟩
    rintro ⟨p₁, m, heq, -⟩
    exact absurd heq (by simp)
  | append_singleton p x ih =>
    obtain ⟨k, hk, hx⟩ := replay_split h
    have hk' := ih hk
    cases x with
    | enter a =>
      obtain ⟨-, hx⟩ := replay_enter hx
      rw [← Option.some.inj hx, List.mem_append, List.mem_singleton, hk', waits_snoc_enter]
    | leave a =>
      obtain ⟨l, rfl, hl⟩ := replay_leave hx
      have hnd := List.nodup_cons.1 (replay_nodup hk List.nodup_nil)
      rw [← Option.some.inj hl, waits_snoc_leave, ← hk', List.mem_cons]
      constructor
      · intro hu
        refine ⟨Or.inr hu, ?_⟩
        rintro rfl
        exact hnd.1 hu
      · rintro ⟨rfl | hu, hne⟩
        · exact absurd rfl hne
        · exact hu

/-- A trace that replays from an empty queue is fair. -/
theorem fair_of_replay (h : replay [] as = some q) : Fair as := by
  constructor
  · exact ⟨q, (replay_conserves h).symm⟩
  · intro p t m heq hm
    rw [heq] at h
    obtain ⟨k, hk, h⟩ := replay_split h
    obtain ⟨-, h⟩ := replay_enter h
    obtain ⟨k₀, hk₀, -⟩ := replay_waiting h hm
    have hnd := replay_nodup hk List.nodup_nil
    rw [hk₀] at hnd
    refine ⟨(List.nodup_append.1 hnd).1, ?_⟩
    intro u hu
    exact (mem_replay hk).1 (by rw [hk₀]; exact List.mem_append_left _ hu)
  · intro p t m r heq hm
    rw [heq] at h
    obtain ⟨k, hk, h⟩ := replay_split h
    obtain ⟨ht, h⟩ := replay_enter h
    obtain ⟨l, hl, h⟩ := replay_split h
    obtain ⟨k₀, hk₀, hl'⟩ := replay_waiting hl hm
    obtain ⟨l', hl'', -⟩ := replay_leave h
    -- `t` is the first of the queue when it leaves, so nobody is left before it
    have hnil : k₀ = [] := by
      cases k₀ with
      | nil => rfl
      | cons b k₀ =>
        rw [hl', List.cons_append] at hl''
        injection hl'' with hbt
        exact absurd (by rw [hk₀, hbt]; exact List.mem_append_right _ List.mem_cons_self) ht
    rw [hnil, List.append_nil] at hk₀
    rw [← hk₀]
    exact ⟨replay_nodup hk List.nodup_nil, fun u => mem_replay hk⟩

end FifoTraces
