import Mathlib.Logic.Function.Basic

/-!
# Calls in some order

Threads make calls on one object.  `whole x c r x'` says that the call `c`, made as a whole on the object `x`, may
return `r` and leave `x'`.  `Linear` says that calls that were not made as wholes returned what they would have in
some order, in which each thread's calls stand as it made them.
-/

namespace Histories

variable {Tid Call Res Object : Type*} {whole : Object → Call → Res → Object → Prop}

/-- Calls made as wholes, one after the other, lead from the one object to the other. -/
def Legal (whole : Object → Call → Res → Object → Prop) : Object → List (Tid × Call × Res) → Object → Prop
  | x, [], y => x = y
  | x, (_, c, r) :: es, y => ∃ x', whole x c r x' ∧ Legal whole x' es y

private theorem Legal.snoc {x y z : Object} {es : List (Tid × Call × Res)} {t : Tid} {c : Call} {r : Res}
    (h : Legal whole x es y) (hlast : whole y c r z) : Legal whole x (es ++ [(t, c, r)]) z := by
  induction es generalizing x with
  | nil =>
    cases h
    exact ⟨z, hlast, rfl⟩
  | cons e es ih =>
    obtain ⟨x', hfirst, hrest⟩ := h
    exact ⟨x', hfirst, ih hrest⟩

/-- Where calls keep a property of the object, each of them was made on an object with it. -/
theorem Legal.made {P : Object → Prop} {x y : Object} {es : List (Tid × Call × Res)} (h : Legal whole x es y)
    (hx : P x) (hkeep : ∀ e ∈ es, ∀ x x', P x → whole x e.2.1 e.2.2 x' → P x') :
    ∀ e ∈ es, ∃ x x', P x ∧ whole x e.2.1 e.2.2 x' := by
  induction es generalizing x with
  | nil => exact fun e he => (List.not_mem_nil he).elim
  | cons e es ih =>
    obtain ⟨x', hfirst, hrest⟩ := h
    intro d hd
    rcases List.mem_cons.1 hd with rfl | hd
    · exact ⟨x, x', hx, hfirst⟩
    · exact ih hrest (hkeep e List.mem_cons_self x x' hx hfirst)
        (fun e' he' => hkeep e' (List.mem_cons_of_mem e he')) d hd

variable [DecidableEq Tid]

/-- The calls of one thread. -/
def of (t : Tid) (es : List (Tid × Call × Res)) : List (Tid × Call × Res) := es.filter fun e => e.1 = t

/-- The calls that have returned, and those that have taken effect and not returned, in some order. -/
def Linear (whole : Object → Call → Res → Object → Prop) (start : Object) (returned : List (Tid × Call × Res))
    (pending : Tid → Option (Call × Res)) (now : Object) : Prop :=
  ∃ order, Legal whole start order now ∧
    ∀ t, of t order = of t returned ++ ((pending t).map (t, ·)).toList

section linear

variable {x now now' : Object} {returned : List (Tid × Call × Res)} {pending pending' : Tid → Option (Call × Res)}
  {t : Tid} {c : Call} {r : Res}

private theorem of_append (t : Tid) (es es' : List (Tid × Call × Res)) : of t (es ++ es') = of t es ++ of t es' :=
  List.filter_append _ _

private theorem of_self (t : Tid) (c : Call) (r : Res) : of t [(t, c, r)] = [(t, c, r)] := by simp [of]

private theorem of_other {u : Tid} (h : u ≠ t) (c : Call) (r : Res) : of u [(t, c, r)] = [] := by simp [of, Ne.symm h]

theorem Linear.nil (x : Object) : Linear whole x [] (fun _ : Tid => none) x :=
  ⟨[], rfl, fun _ => rfl⟩

/-- A call takes effect. -/
theorem Linear.effect (h : Linear whole x returned pending now) (pending' : Tid → Option (Call × Res))
    (hwhole : whole now c r now') (hbefore : pending t = none) (hafter : pending' t = some (c, r))
    (hothers : ∀ u ≠ t, pending' u = pending u) : Linear whole x returned pending' now' := by
  obtain ⟨order, hlegal, horder⟩ := h
  refine ⟨order ++ [(t, c, r)], hlegal.snoc hwhole, fun u => ?_⟩
  rw [of_append, horder]
  by_cases hu : u = t
  · subst hu
    rw [of_self, hbefore, hafter]
    simp
  · rw [of_other hu, hothers u hu, List.append_nil]

/-- A call that has taken effect returns. -/
theorem Linear.back (h : Linear whole x returned pending now) (hbefore : pending t = some (c, r))
    (hafter : pending' t = none) (hothers : ∀ u ≠ t, pending' u = pending u) :
    Linear whole x (returned ++ [(t, c, r)]) pending' now := by
  obtain ⟨order, hlegal, horder⟩ := h
  refine ⟨order, hlegal, fun u => ?_⟩
  rw [horder, of_append]
  by_cases hu : u = t
  · subst hu
    rw [of_self, hbefore, hafter]
    simp
  · rw [of_other hu, hothers u hu, List.append_nil]

/-- A call returns at once. -/
theorem Linear.atOnce (h : Linear whole x returned pending now) (hwhole : whole now c r now')
    (hnone : pending t = none) : Linear whole x (returned ++ [(t, c, r)]) pending now' := by
  have heffect := h.effect (Function.update pending t (some (c, r))) hwhole hnone
    (Function.update_self _ _ _) fun u hu => Function.update_of_ne hu _ _
  exact heffect.back (Function.update_self _ _ _) hnone fun u hu => (Function.update_of_ne hu _ _).symm

end linear

end Histories
