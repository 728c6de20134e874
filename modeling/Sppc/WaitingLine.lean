import Mathlib.Data.List.Perm.Basic

/-!
# A waiting line

Some join a line at its end, and one by one they are let out, the first of them or one from further back.  `LineKept`
says what has become of a line: nobody is lost and nobody let out more often than he joined, those who still wait do
so in the order in which they did, before all who came later, and how many have overtaken each of them.
-/

namespace WaitingLine

variable {α : Type*} [DecidableEq α] {q q' q'' joined joined' gone l m : List α} {d : Option α} {a t : α}

/-- The line without the one who is let out, if anybody is. -/
def letOut (q : List α) : Option α → List α
  | none => q
  | some t => q.erase t

/-- Those of `l` join the line `q`, then `d` is let out, and then those of `m` join. -/
structure Turn (q l : List α) (d : Option α) (m q' : List α) : Prop where
  line : q' = letOut (q ++ l) d ++ m
  out : ∀ t, d = some t → t ∈ q ++ l

/-- Those of `q` who were not let out are the first of `q'`, in the same order. -/
def Ordered (q gone q' : List α) : Prop :=
  ∃ rest new, rest.Sublist q ∧ q' = rest ++ new ∧ ∀ a ∈ q, a ∈ rest ∨ a ∈ gone

omit [DecidableEq α] in
private theorem Ordered.join (h : Ordered q gone q') (l : List α) : Ordered q gone (q' ++ l) := by
  obtain ⟨rest, new, hsub, heq, hgone⟩ := h
  exact ⟨rest, new ++ l, hsub, by rw [heq, List.append_assoc], hgone⟩

/-- Whoever is let out was one of the first line, or joined later. -/
theorem Ordered.letOut (h : Ordered q gone q') (d : Option α) : Ordered q (gone ++ d.toList) (letOut q' d) := by
  obtain ⟨rest, new, hsub, heq, hgone⟩ := h
  cases d with
  | none =>
    refine ⟨rest, new, hsub, heq, ?_⟩
    intro a ha
    rw [Option.toList_none, List.append_nil]
    exact hgone a ha
  | some t =>
    by_cases ht : t ∈ rest
    · refine ⟨rest.erase t, new, List.erase_sublist.trans hsub, ?_, ?_⟩
      · rw [WaitingLine.letOut, heq, List.erase_append_left _ ht]
      · intro a ha
        by_cases hat : a = t
        · rw [hat]
          exact Or.inr (List.mem_append_right _ (List.mem_singleton_self t))
        · rcases hgone a ha with hrest | hg
          · exact Or.inl ((List.mem_erase_of_ne hat).2 hrest)
          · exact Or.inr (List.mem_append_left _ hg)
    · refine ⟨rest, new.erase t, hsub, ?_, ?_⟩
      · rw [WaitingLine.letOut, heq, List.erase_append_right _ ht]
      · intro a ha
        rcases hgone a ha with hrest | hg
        · exact Or.inl hrest
        · exact Or.inr (List.mem_append_left _ hg)

private theorem perm_letOut (h : ∀ t, d = some t → t ∈ q) : q.Perm (d.toList ++ letOut q d) := by
  cases d with
  | none => exact List.Perm.refl q
  | some t => exact List.perm_cons_erase (h t rfl)

/-! ### First come, first served -/

/-- Those of `gone` were let out in the order in which they stood in the line and then joined it. -/
def InOrder (q joined gone q' : List α) : Prop := ∃ l, l.Perm joined ∧ gone ++ q' = q ++ l

/-- The first of the line is let out, if anybody is. -/
private theorem letOut_head (h : ∀ t, d = some t → q.head? = some t) : d.toList ++ letOut q d = q := by
  cases d with
  | none => rfl
  | some t =>
    obtain ⟨q₁, rfl⟩ := List.head?_eq_some_iff.1 (h t rfl)
    rw [letOut, List.erase_cons_head]
    rfl

theorem InOrder.turn (h : InOrder q joined gone q') (ht : Turn q' l d m q'') (hj : (l ++ m).Perm joined')
    (hd : ∀ t, d = some t → (q' ++ l).head? = some t) : InOrder q (joined ++ joined') (gone ++ d.toList) q'' := by
  obtain ⟨k, hk, heq⟩ := h
  refine ⟨k ++ (l ++ m), hk.append hj, ?_⟩
  rw [ht.line]
  calc gone ++ d.toList ++ (letOut (q' ++ l) d ++ m)
    _ = gone ++ (d.toList ++ letOut (q' ++ l) d) ++ m := by simp only [List.append_assoc]
    _ = gone ++ q' ++ (l ++ m) := by rw [letOut_head hd]; simp only [List.append_assoc]
    _ = q ++ (k ++ (l ++ m)) := by rw [heq, List.append_assoc]

private theorem idxOf_erase_le (h : a ≠ t) (q : List α) : (q.erase t).idxOf a ≤ q.idxOf a := by
  induction q with
  | nil => exact Nat.le_refl _
  | cons b q ih =>
    by_cases hbt : b = t
    · subst hbt
      rw [List.erase_cons_head, List.idxOf_cons_ne _ (Ne.symm h)]
      exact Nat.le_succ _
    · rw [List.erase_cons_tail (by simpa using hbt)]
      by_cases hba : b = a
      · rw [hba, List.idxOf_cons_self]
        exact Nat.zero_le _
      · rw [List.idxOf_cons_ne _ hba, List.idxOf_cons_ne _ hba]
        exact Nat.succ_le_succ ih

/-- One who is not let out comes forward by one place, unless one from further back is. -/
private theorem Turn.forward {n : Nat} (ht : Turn q l d m q') (ha : a ∈ q) (hd : d ≠ some a)
    (hn : n = 0 → ∀ t, d = some t → (q ++ l).head? = some t) :
    a ∈ q' ∧ q'.idxOf a + d.toList.length ≤ q.idxOf a + n := by
  have hal : a ∈ q ++ l := List.mem_append_left l ha
  have hfront : (q ++ l).idxOf a = q.idxOf a := List.idxOf_append_of_mem ha
  rw [ht.line, ← hfront]
  cases d with
  | none =>
    refine ⟨List.mem_append_left m hal, ?_⟩
    rw [letOut, List.idxOf_append_of_mem hal]
    exact Nat.le_add_right _ _
  | some t =>
    have hat : a ≠ t := by
      rintro rfl
      exact hd rfl
    have hmem : a ∈ (q ++ l).erase t := (List.mem_erase_of_ne hat).2 hal
    refine ⟨List.mem_append_left m hmem, ?_⟩
    rw [letOut, List.idxOf_append_of_mem hmem, Option.toList_some, List.length_singleton]
    by_cases h0 : n = 0
    · obtain ⟨k, hk⟩ := List.head?_eq_some_iff.1 (hn h0 t rfl)
      rw [hk, List.erase_cons_head, List.idxOf_cons_ne _ (Ne.symm hat)]
      omega
    · have := idxOf_erase_le hat (q ++ l)
      omega

/-! ### What has become of a line -/

/-- What has become of the line `q` since those of `joined` joined it and those of `gone` were let out, at most `n` of
them out of turn. -/
structure LineKept (q : List α) (n : Nat) (joined gone q' : List α) : Prop where
  conserved : (q ++ joined).Perm (gone ++ q')
  order : Ordered q gone q'
  inOrder : n = 0 → InOrder q joined gone q'
  forward : ∀ a ∈ q, a ∉ gone → a ∈ q' ∧ q'.idxOf a + gone.length ≤ q.idxOf a + n

theorem LineKept.refl (q : List α) : LineKept q 0 [] [] q where
  conserved := by rw [List.append_nil, List.nil_append]
  order := ⟨q, [], List.Sublist.refl q, (List.append_nil q).symm, fun _ ha => Or.inl ha⟩
  inOrder _ := ⟨[], List.Perm.refl _, by rw [List.nil_append, List.append_nil]⟩
  forward _ ha _ := ⟨ha, Nat.le_refl _⟩

/-- One more turn of the line. -/
theorem LineKept.turn {n k : Nat} (h : LineKept q n joined gone q') (ht : Turn q' l d m q'')
    (hj : (l ++ m).Perm joined') (hk : k = 0 → ∀ t, d = some t → (q' ++ l).head? = some t) :
    LineKept q (n + k) (joined ++ joined') (gone ++ d.toList) q'' where
  conserved := by
    rw [ht.line]
    calc q ++ (joined ++ joined')
      _ = q ++ joined ++ joined' := (List.append_assoc ..).symm
      List.Perm _ (gone ++ q' ++ (l ++ m)) := h.conserved.append hj.symm
      _ = gone ++ ((q' ++ l) ++ m) := by simp only [List.append_assoc]
      List.Perm _ (gone ++ ((d.toList ++ letOut (q' ++ l) d) ++ m)) :=
        ((perm_letOut ht.out).append_right m).append_left gone
      _ = gone ++ d.toList ++ (letOut (q' ++ l) d ++ m) := by simp only [List.append_assoc]
  order := by
    rw [ht.line]
    exact ((h.order.join l).letOut d).join m
  inOrder hnk := by
    obtain ⟨hn0, hk0⟩ := Nat.add_eq_zero_iff.1 hnk
    exact (h.inOrder hn0).turn ht hj (hk hk0)
  forward a ha hgone := by
    rw [List.mem_append, not_or, Option.mem_toList] at hgone
    obtain ⟨ha', hrank⟩ := h.forward a ha hgone.1
    obtain ⟨ha'', hrank'⟩ := ht.forward ha' hgone.2 hk
    refine ⟨ha'', ?_⟩
    rw [List.length_append]
    omega

end WaitingLine
