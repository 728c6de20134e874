import Mathlib.Data.List.Nodup

/-!
# Singly linked lists in a heap

A heap is seen through one link field, `next : α → Option α`.  `Linked next p l` says that following `next` from
the pointer `p` visits the nodes of `l` in order and then ends.  The nodes of such a list are determined by the
heap (`Linked.unique`) and pairwise different (`Linked.nodup`), so a list that ends has no cycle.  The other lemmas
say what the usual pointer updates do: each asks for the links of the new heap node by node, so that it applies to
any record of nodes.
-/

namespace LinkedList

variable {α : Type*} {next next' : α → Option α} {p p' : Option α} {l l₁ l₂ : List α} {a b : α}

/-- Following `next` from `p` visits the nodes of `l`, in order, and ends. -/
def Linked (next : α → Option α) : Option α → List α → Prop
  | p, [] => p = none
  | p, a :: l => p = some a ∧ Linked next (next a) l

@[simp] theorem linked_nil : Linked next p [] ↔ p = none := Iff.rfl

@[simp] theorem linked_cons : Linked next p (a :: l) ↔ p = some a ∧ Linked next (next a) l := Iff.rfl

private theorem linked_none : Linked next none l ↔ l = [] := by
  cases l <;> simp

theorem Linked.eq_nil (h : Linked next none l) : l = [] := linked_none.1 h

theorem Linked.head (h : Linked next p l) : p = l.head? := by
  cases l with
  | nil => exact h
  | cons a l => exact h.1

theorem Linked.exists_cons (h : Linked next (some a) l) : ∃ l', l = a :: l' ∧ Linked next (next a) l' := by
  cases l with
  | nil => cases h
  | cons b l =>
    obtain ⟨hb, hl⟩ := h
    cases hb
    exact ⟨l, rfl, hl⟩

/-- The heap determines the list. -/
theorem Linked.unique (h₁ : Linked next p l₁) (h₂ : Linked next p l₂) : l₁ = l₂ := by
  induction l₁ generalizing p l₂ with
  | nil =>
    cases h₁
    exact h₂.eq_nil.symm
  | cons a l₁ ih =>
    obtain ⟨rfl, h₁⟩ := h₁
    obtain ⟨l', rfl, h'⟩ := h₂.exists_cons
    rw [ih h₁ h']

theorem linked_append : Linked next p (l₁ ++ a :: l₂) → Linked next (some a) (a :: l₂) := by
  induction l₁ generalizing p with
  | nil =>
    intro h
    exact ⟨rfl, h.2⟩
  | cons b l₁ ih => exact fun h => ih h.2

/-- A list that ends is acyclic: no node is on it twice. -/
theorem Linked.nodup (h : Linked next p l) : l.Nodup := by
  induction l generalizing p with
  | nil => exact List.nodup_nil
  | cons a l ih =>
    refine List.nodup_cons.2 ⟨fun ha => ?_, ih h.2⟩
    obtain ⟨s, t, rfl⟩ := List.append_of_mem ha
    have h₁ : Linked next (some a) (a :: (s ++ a :: t)) := ⟨rfl, h.2⟩
    have hlen := congrArg List.length (h₁.unique (linked_append h.2))
    simp at hlen
    omega

/-- Only the links of the nodes on the list matter. -/
theorem Linked.congr (h : Linked next p l) (hn : ∀ b ∈ l, next' b = next b) : Linked next' p l := by
  induction l generalizing p with
  | nil => exact h
  | cons a l ih =>
    refine ⟨h.1, ?_⟩
    rw [hn a (List.mem_cons_self ..)]
    exact ih h.2 fun b hb => hn b (List.mem_cons_of_mem _ hb)

/-- A node pushed in front of the list. -/
theorem Linked.push_front (h : Linked next p l) (ha : next' a = p) (hn : ∀ b ∈ l, next' b = next b) :
    Linked next' (some a) (a :: l) := by
  refine ⟨rfl, ?_⟩
  rw [ha]
  exact h.congr hn

/-- The first node taken off. -/
theorem Linked.pop_front (h : Linked next (some a) (a :: l)) (hn : ∀ b ∈ l, next' b = next b) :
    Linked next' (next a) l :=
  h.2.congr hn

private theorem linked_snoc_aux (h : Linked next p l) (hl : l.getLast? = some b) (hb : next' b = some a)
    (ha : next' a = none) (hn : ∀ c ∈ l, c ≠ b → next' c = next c) : Linked next' p (l ++ [a]) := by
  have hnd := h.nodup
  induction l generalizing p with
  | nil => cases hl
  | cons c l ih =>
    refine ⟨h.1, ?_⟩
    cases l with
    | nil =>
      cases hl
      exact ⟨hb, ha⟩
    | cons d l =>
      rw [List.getLast?_cons_cons] at hl
      have hcb : c ≠ b := by
        rintro rfl
        exact (List.nodup_cons.1 hnd).1 (List.mem_of_getLast? hl)
      rw [hn c (List.mem_cons_self ..) hcb]
      exact ih h.2 hl (fun e he => hn e (List.mem_cons_of_mem _ he)) (List.nodup_cons.1 hnd).2

/-- A node appended at the tail: `tail` is the last node before, and is linked to the new one. -/
theorem Linked.snoc {tail : Option α} (h : Linked next p l) (ht : tail = l.getLast?) (ha : next' a = none)
    (hp : p' = if tail = none then some a else p) (hb : ∀ b, tail = some b → next' b = some a)
    (hn : ∀ c ∈ l, tail ≠ some c → next' c = next c) : Linked next' p' (l ++ [a]) := by
  subst ht hp
  cases hl : l.getLast? with
  | none =>
    rw [List.getLast?_eq_none_iff] at hl
    subst hl
    exact ⟨by simp, ha⟩
  | some b =>
    simp only [reduceCtorEq, ↓reduceIte]
    exact linked_snoc_aux h hl (hb b hl) ha fun c hc hcb => hn c hc fun he => hcb (by rw [hl] at he; cases he; rfl)

/-- A node unlinked from the middle (or the front) of the list. -/
theorem Linked.unlink (h : Linked next p (l₁ ++ a :: l₂))
    (hp : p' = if l₁ = [] then next a else p)
    (hb : ∀ b, l₁.getLast? = some b → next' b = next a)
    (hn : ∀ c ∈ l₁ ++ l₂, l₁.getLast? ≠ some c → next' c = next c) : Linked next' p' (l₁ ++ l₂) := by
  have hnd := h.nodup
  induction l₁ generalizing p p' with
  | nil =>
    subst hp
    exact h.2.congr fun c hc => hn c hc (by simp)
  | cons c l₁ ih =>
    have hpc : p' = some c := by rw [hp, if_neg (List.cons_ne_nil _ _)]; exact h.1
    refine ⟨hpc, ?_⟩
    have hnd' := (List.nodup_cons.1 hnd).2
    cases l₁ with
    | nil =>
      rw [hb c rfl]
      refine h.2.2.congr fun d hd => hn d (List.mem_cons_of_mem _ hd) ?_
      simp only [List.getLast?_singleton, ne_eq, Option.some.injEq]
      rintro rfl
      exact (List.nodup_cons.1 hnd).1 (List.mem_cons_of_mem _ hd)
    | cons d l₁ =>
      have hc : next' c = next c := by
        refine hn c (List.mem_cons_self ..) fun he => ?_
        rw [List.getLast?_cons_cons] at he
        exact (List.nodup_cons.1 hnd).1 (List.mem_append_left _ (List.mem_of_getLast? he))
      refine ih h.2 (by rw [if_neg (List.cons_ne_nil _ _), hc]) (fun b hb' => hb b ?_) (fun e he hne => ?_) hnd'
      · rw [List.getLast?_cons_cons]; exact hb'
      · refine hn e (List.mem_cons_of_mem _ he) ?_
        rw [List.getLast?_cons_cons]; exact hne

end LinkedList
