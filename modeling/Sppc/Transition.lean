import Mathlib.Init

/-!
# Runs of a transition system

`step s e` is the state after the event `e`, or `none` where `e` cannot happen in `s`.  `Reach step s s'` says that
some sequence of events leads from `s` to `s'`.  `Reach.invariant` is the invariant rule; `Reach.invariant_under` is
the same rule under an assumption on the last state that every earlier state inherits, which is how an assumption
about a whole run (no event of some kind in it) is used.  `Reach.simulation` is the rule for two systems, of which one
simulates the other.
-/

namespace Transition

variable {σ ε : Type*} {step : σ → ε → Option σ} {s s' s'' : σ}

/-- The state after a sequence of events. -/
def run (step : σ → ε → Option σ) (s : σ) : List ε → Option σ
  | [] => some s
  | e :: es => match step s e with
    | some s' => run step s' es
    | none => none

theorem run_append {es es' : List ε} (h : run step s es = some s') : run step s (es ++ es') = run step s' es' := by
  induction es generalizing s with
  | nil =>
    cases h
    rfl
  | cons e es ih =>
    rw [List.cons_append]
    rw [run] at h ⊢
    split at h
    · exact ih h
    · cases h

/-- Some sequence of events leads from `s` to `s'`. -/
def Reach (step : σ → ε → Option σ) (s s' : σ) : Prop := ∃ es, run step s es = some s'

theorem Reach.refl (s : σ) : Reach step s s := ⟨[], rfl⟩

theorem Reach.head {e : ε} (h : step s e = some s') (h' : Reach step s' s'') : Reach step s s'' := by
  obtain ⟨es, hes⟩ := h'
  exact ⟨e :: es, by rw [run, h]; exact hes⟩

/-- The induction on a run: a property of the end holds of the start and goes back through every step. -/
theorem Reach.induct {P : σ → Prop} (h : Reach step s s') (hrefl : P s')
    (hstep : ∀ t e t', step t e = some t' → Reach step t' s' → P t' → P t) : P s := by
  obtain ⟨es, hes⟩ := h
  induction es generalizing s with
  | nil => cases hes; exact hrefl
  | cons e es ih =>
    rw [run] at hes
    split at hes
    · rename_i t ht
      exact hstep s e t ht ⟨es, hes⟩ (ih hes)
    · cases hes

theorem Reach.trans (h : Reach step s s') (h' : Reach step s' s'') : Reach step s s'' :=
  h.induct (P := fun t => Reach step t s'') h' fun _ _ _ ht _ ih => Reach.head ht ih

theorem Reach.tail {e : ε} (h : Reach step s s') (h' : step s' e = some s'') : Reach step s s'' :=
  h.trans ((Reach.refl s'').head h')

/-- A run of one system is a run of any that allows its steps. -/
theorem Reach.mono {step' : σ → ε → Option σ} (h : ∀ {s e s'}, step s e = some s' → step' s e = some s')
    (hs : Reach step s s') : Reach step' s s' :=
  hs.induct (P := fun t => Reach step' t s') (Reach.refl s') fun _ _ _ ht _ ih => Reach.head (h ht) ih

/-- The invariant rule under an assumption `Q` on the last state that the state before each step inherits. -/
theorem Reach.invariant_under {P Q : σ → Prop} (h : Reach step s s')
    (hQ : ∀ t e t', step t e = some t' → Q t' → Q t)
    (hP : ∀ t e t', P t → Q t' → step t e = some t' → P t') (hs : P s) (hs' : Q s') : P s' := by
  obtain ⟨es, hes⟩ := h
  have back : ∀ (es : List ε) (t : σ), run step t es = some s' → Q t := by
    intro es
    induction es with
    | nil => intro t ht; cases ht; exact hs'
    | cons e es ih =>
      intro t ht
      rw [run] at ht
      split at ht
      · rename_i t' ht'
        exact hQ t e t' ht' (ih t' ht)
      · cases ht
  induction es generalizing s with
  | nil => cases hes; exact hs
  | cons e es ih =>
    rw [run] at hes
    split at hes
    · rename_i t ht
      exact ih (hP s e t hs (back es t hes) ht) hes
    · cases hes

/-- The invariant rule. -/
theorem Reach.invariant {P : σ → Prop} (h : Reach step s s') (hP : ∀ t e t', P t → step t e = some t' → P t')
    (hs : P s) : P s' :=
  h.invariant_under (Q := fun _ => True) (fun _ _ _ _ _ => trivial) (fun t e t' ht _ => hP t e t' ht) hs trivial

/-- The simulation rule: each step of the one system is matched by steps of the other, or by none. -/
theorem Reach.simulation {σ' ε' : Type*} {step' : σ' → ε' → Option σ'} {R : σ → σ' → Prop} {a : σ'}
    (h : Reach step s s') (hR : ∀ t e t' b, R t b → step t e = some t' → ∃ b', Reach step' b b' ∧ R t' b')
    (hs : R s a) : ∃ a', Reach step' a a' ∧ R s' a' := by
  refine h.invariant (P := fun t => ∃ b, Reach step' a b ∧ R t b) ?_ ⟨a, Reach.refl a, hs⟩
  rintro t e t' ⟨b, hab, hb⟩ hstep
  obtain ⟨b', hbb', hb'⟩ := hR t e t' b hb hstep
  exact ⟨b', hab.trans hbb', hb'⟩

end Transition
