import Sppc.Threads

/-!
# Observed runs

`obs s e s'` is what is seen of the step from `s` to `s'` by the event `e`.  `Traced.simulation` is the rule for two
systems of which one does whatever the other is seen to do: each step of the other is matched by a run of which the
same is seen. Of a thread its calls are seen, and what they return.
-/

namespace Transition

variable {σ ε ο : Type*} {step : σ → ε → Option σ} {obs : σ → ε → σ → List ο} {s s' s'' : σ} {os os' : List ο}

/-- What is seen of a sequence of events, and the state after it. -/
def trace (step : σ → ε → Option σ) (obs : σ → ε → σ → List ο) (s : σ) : List ε → Option (List ο × σ)
  | [] => some ([], s)
  | e :: es => match step s e with
    | some s' => (trace step obs s' es).map fun r => (obs s e s' ++ r.1, r.2)
    | none => none

/-- Some sequence of events of which `os` is seen leads from `s` to `s'`. -/
def Traced (step : σ → ε → Option σ) (obs : σ → ε → σ → List ο) (s : σ) (os : List ο) (s' : σ) : Prop :=
  ∃ es, trace step obs s es = some (os, s')

theorem Traced.refl (s : σ) : Traced step obs s [] s := ⟨[], rfl⟩

private theorem Traced.head {e : ε} (h : step s e = some s') (h' : Traced step obs s' os s'') :
    Traced step obs s (obs s e s' ++ os) s'' := by
  obtain ⟨es, hes⟩ := h'
  refine ⟨e :: es, ?_⟩
  rw [trace, h]
  dsimp only
  rw [hes]
  rfl

theorem Traced.single {e : ε} (h : step s e = some s') : Traced step obs s (obs s e s') s' := by
  have hnone : Traced step obs s' [] s' := Traced.refl s'
  have h' := Traced.head h hnone
  rw [List.append_nil] at h'
  exact h'

/-- The induction on an observed run. -/
private theorem Traced.induct {P : σ → List ο → Prop} (h : Traced step obs s os s') (hrefl : P s' [])
    (hstep : ∀ t e t' os, step t e = some t' → Traced step obs t' os s' → P t' os → P t (obs t e t' ++ os)) : P
    s os := by
  obtain ⟨es, hes⟩ := h
  induction es generalizing s os with
  | nil =>
    cases hes
    exact hrefl
  | cons e es ih =>
    rw [trace] at hes
    split at hes
    · rename_i t ht
      obtain ⟨⟨os', u⟩, hrest, heq⟩ := Option.map_eq_some_iff.1 hes
      cases heq
      exact hstep s e t os' ht ⟨es, hrest⟩ (ih hrest)
    · cases hes

theorem Traced.trans (h : Traced step obs s os s') (h' : Traced step obs s' os' s'') :
    Traced step obs s (os ++ os') s'' := by
  refine h.induct (P := fun t os => Traced step obs t (os ++ os') s'') h' fun t e t' os ht _ ih => ?_
  rw [List.append_assoc]
  exact Traced.head ht ih

/-- The simulation rule. -/
theorem Traced.simulation {σ' ε' : Type*} {step' : σ' → ε' → Option σ'} {obs' : σ' → ε' → σ' → List ο}
    {R : σ → σ' → Prop} {a : σ'} (h : Traced step obs s os s')
    (hR : ∀ t e t' b, R t b → step t e = some t' → ∃ b', Traced step' obs' b (obs t e t') b' ∧ R t' b') (hs : R s a) :
    ∃ a', Traced step' obs' a os a' ∧ R s' a' := by
  refine h.induct (P := fun t os => ∀ b, R t b → ∃ b', Traced step' obs' b os b' ∧ R s' b')
    (fun b hb => ⟨b, Traced.refl b, hb⟩) ?_ a hs
  intro t e t' os ht _ ih b hb
  obtain ⟨b', hbb', hb'⟩ := hR t e t' b hb ht
  obtain ⟨b'', hb'b'', hb''⟩ := ih b' hb'
  exact ⟨b'', hbb'.trans hb'b'', hb''⟩

end Transition

namespace Threads

variable {Tid Shared Loc Input Env Ret : Type*}

/-- What is seen of a thread. -/
inductive Seen (Tid Input Ret : Type*)
  | call (t : Tid) (i : Input)
  | ret (t : Tid) (r : Ret)
  deriving DecidableEq, Repr

/-- A thread that is outside calls, and one that gets outside returns. -/
def seen (out : Loc → Option Ret) (s : State Tid Shared Loc) : Event Tid Input Env → State Tid Shared Loc →
    List (Seen Tid Input Ret)
  | .thread t i, s' => match out (s.loc t), out (s'.loc t) with
    | none, none => []
    | none, some r => [.ret t r]
    | some _, none => [.call t i]
    | some _, some r => [.call t i, .ret t r]
  | .env _, _ => []

end Threads
