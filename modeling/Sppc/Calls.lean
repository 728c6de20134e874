import Sppc.Threads

/-!
# Calls within runs

A call begins with an event and lasts, whatever else happens meanwhile, until it is over.  `InCall.rule` is the rule
for the calls of one thread among others: what holds of the thread after the first step of its call, and is kept by
its own steps under an invariant of the system and by everybody else's, holds of it until the call is over.
-/

namespace Transition

variable {σ ε : Type*} {step : σ → ε → Option σ} {ended : σ → Prop} {s s' : σ} {e : ε}

/-- The states of a call that the event `e` begins in `s`, up to the one in which it is over. -/
inductive During (step : σ → ε → Option σ) (ended : σ → Prop) (s : σ) (e : ε) : σ → Prop
  | begins {s' : σ} (h : step s e = some s') : During step ended s e s'
  | goes {s' s'' : σ} {e' : ε} (h : During step ended s e s') (hgoing : ¬ended s') (hstep : step s' e' = some s'') :
    During step ended s e s''

/-- The rule for the states of a call, where `I` is an invariant of the system. -/
theorem During.rule {I P : σ → Prop} (h : During step ended s e s') (hI : ∀ t e t', I t → step t e = some t' → I t')
    (hs : I s) (hbegins : ∀ t, step s e = some t → P t)
    (hgoes : ∀ t e t', I t → P t → ¬ended t → step t e = some t' → P t') : I s' ∧ P s' := by
  induction h with
  | begins h => exact ⟨hI _ _ _ hs h, hbegins _ h⟩
  | goes _ hgoing hstep ih => exact ⟨hI _ _ _ ih.1 hstep, hgoes _ _ _ ih.1 ih.2 hgoing hstep⟩

end Transition

namespace Threads

open Transition

variable {Tid Shared Loc Input Env : Type*} [DecidableEq Tid]
  {act : Tid → Input → Shared → Loc → Option (Shared × Loc)} {env : Env → Shared → Option Shared}
  {step : State Tid Shared Loc → Event Tid Input Env → Option (State Tid Shared Loc)} {ended : Loc →
    Prop} {s s' : State Tid Shared Loc} {t : Tid} {i : Input}

/-- The thread `t` is in the call that it has begun with `i` in `s`, or just back from it. -/
abbrev InCall (step : State Tid Shared Loc → Event Tid Input Env → Option (State Tid Shared Loc)) (ended : Loc → Prop)
    (t : Tid) (i : Input) (s s' : State Tid Shared Loc) : Prop :=
  During step (fun s => ended (s.loc t)) s (.thread t i) s'

/-- The rule for a call of one thread, in a system that may allow fewer steps than its threads could make. -/
theorem InCall.rule {I : State Tid Shared Loc → Prop} {P : Shared → Loc → Prop} (h : InCall step ended t i s s')
    (hstep : ∀ s e s', step s e = some s' → Threads.step act env s e = some s')
    (hI : ∀ s e s', I s → step s e = some s' → I s') (hs : I s)
    (hbegins : ∀ s', step s (.thread t i) = some s' → P s'.shared (s'.loc t))
    (hown : ∀ s j h l, I s → P s.shared (s.loc t) → ¬ended (s.loc t) → act t j s.shared (s.loc t) = some (h, l) →
      P h l)
    (hothers : ∀ s u j h l, I s → u ≠ t → P s.shared (s.loc t) → act u j s.shared (s.loc u) = some (h, l) →
      P h (s.loc t))
    (henv : ∀ s e h, I s → P s.shared (s.loc t) → env e s.shared = some h → P h (s.loc t)) :
    I s' ∧ P s'.shared (s'.loc t) := by
  refine During.rule (P := fun s => P s.shared (s.loc t)) h hI hs hbegins ?_
  intro s e s' hi hP hgoing hs'
  have hthreads := hstep s e s' hs'
  cases e with
  | thread u j =>
    obtain ⟨h', l', hact, rfl⟩ := step_thread.1 hthreads
    by_cases hut : u = t
    · subst hut
      rw [State.put_shared, State.put_self]
      exact hown s j h' l' hi hP hgoing hact
    · rw [State.put_shared, State.put_of_ne (Ne.symm hut)]
      exact hothers s u j h' l' hi hut hP hact
  | env e =>
    obtain ⟨h', henv', rfl⟩ := Option.map_eq_some_iff.1 hthreads
    exact henv s e h' hi hP henv'

end Threads
