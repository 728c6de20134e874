import Sppc.Life
import Mathlib.Data.List.Count

/-!
# What a life adds up to

The automaton of `life` rules out single events; this file counts what it lets through.  In one occupancy of a slot
the body starts and returns at most once, an awaiter registers at most once and is woken as often as it registered
once the body has returned, and it goes on as often as it was woken once the slot is handed back.
-/

namespace Sppc

/-- What the events `o` of an occupancy of the slot `t` add up to when its life is `L`. -/
structure Accounts (t : Nat) (o : List Ev) (L : Life) : Prop where
  started : o.count (.started t) = if L.stage = .claimed ∨ L.stage = .spawned then 0 else 1
  returned : o.count (.returned t) = if L.stage = .returned ∨ L.stage = .spent then 1 else 0
  joined : ∀ w, o.count (.joined w t) = L.joined.count w + o.count (.woken w t)
  once : ∀ w, o.count (.joined w t) ≤ 1
  woken : ∀ w, o.count (.woken w t) = L.woken.count w + o.count (.resumed w t)
  early : L.stage ≠ .returned → L.stage ≠ .spent →
    ∀ w, Ev.woken w t ∉ o ∧ Ev.resumed w t ∉ o ∧ Ev.late w t ∉ o ∧ Ev.collected w t ∉ o
  claimed : L.stage = .claimed → ∀ w, Ev.joined w t ∉ o
  detached : L.detached = true → Ev.detached t ∈ o
  left : L.stage = .returned → ∀ w, Ev.collected w t ∈ o → L.joined ≠ [] ∨ L.woken ≠ [] ∨ L.collecting = true
  spent : L.stage = .spent → L.joined = [] ∧ L.woken = [] ∧
    ∃ w, o.find? (fun e => e.slot = some t) = some (.collected w t)

/-- An event about another slot, or about none. -/
theorem Accounts.other {t : Nat} {o : List Ev} {L : Life} {e : Ev} (h : Accounts t o L) (he : e.slot ≠ some t) :
    Accounts t (e :: o) L := by
  have hne (e' : Ev) (he' : e'.slot = some t) : e ≠ e' := fun heq => he (heq ▸ he')
  have hcount (e' : Ev) (he' : e'.slot = some t) : (e :: o).count e' = o.count e' :=
    List.count_cons_of_ne (hne e' he')
  have hmem (e' : Ev) (he' : e'.slot = some t) : e' ∈ e :: o ↔ e' ∈ o := by
    simp [Ne.symm (hne e' he')]
  obtain ⟨h1, h2, h3, h4, h5, h6, h7, h8, h9, h10⟩ := h
  constructor
  · rw [hcount _ rfl]; exact h1
  · rw [hcount _ rfl]; exact h2
  · intro w; rw [hcount _ rfl, hcount _ rfl]; exact h3 w
  · intro w; rw [hcount _ rfl]; exact h4 w
  · intro w; rw [hcount _ rfl, hcount _ rfl]; exact h5 w
  · intro hr hs w
    rw [hmem _ rfl, hmem _ rfl, hmem _ rfl, hmem _ rfl]
    exact h6 hr hs w
  · intro hc w; rw [hmem _ rfl]; exact h7 hc w
  · intro hd; rw [hmem _ rfl]; exact h8 hd
  · intro hr w hw; rw [hmem _ rfl] at hw; exact h9 hr w hw
  · intro hs
    rw [List.find?_cons_of_neg (by simpa using he)]
    exact h10 hs

/-- An event about the slot. -/
theorem Accounts.step {t : Nat} {o : List Ev} {L L' : Life} {e : Ev} (h : Accounts t o L)
    (hstep : L.step t e = some L') (he : e.slot = some t) (halloc : e ≠ .alloc t) (hv : L'.stage ≠ .vacant) :
    Accounts t (e :: o) L' := by
  obtain ⟨h1, h2, h3, h4, h5, h6, h7, h8, h9, h10⟩ := h
  cases e
  all_goals simp only [Ev.slot, Option.some.injEq, reduceCtorEq] at he
  all_goals subst he
  case alloc => exact absurd rfl halloc
  all_goals
    simp only [Life.step, ne_eq, not_true_eq_false, if_false] at hstep
    split at hstep
    case isFalse => cases hstep
    rename_i hc
    cases hstep
    constructor
  -- whoever was woken last has not gone on
  case woken.isTrue.refl.left => simp
  case collected.isTrue.refl.spent w _ =>
    intro hs
    have hnone : L.joined = [] ∧ L.woken = [] := by
      by_contra hne
      rw [if_neg hne] at hs
      cases hs
    exact ⟨hnone.1, hnone.2, w, by simp [Ev.slot]⟩
  all_goals simp only [List.count_cons, List.mem_cons, List.count_append, List.count_erase, List.find?_cons]
  all_goals grind -linarith

/-- The body has returned where the log says so. -/
theorem Accounts.returned_iff {t : Nat} {o : List Ev} {L : Life} (h : Accounts t o L) :
    Ev.returned t ∈ o ↔ L.stage = .returned ∨ L.stage = .spent := by
  rw [← List.count_pos_iff, h.returned]
  split <;> simp_all

/-- What the events of the present occupancy add up to. -/
theorem accounts {t : Nat} {log : List Ev} {L : Life} (h : life t log = some L) (hv : L.stage ≠ .vacant) :
    Accounts t (occupancy t log) L := by
  induction log generalizing L with
  | nil =>
    cases h
    exact absurd rfl hv
  | cons e log ih =>
    by_cases he : e.slot = some t
    · cases hlog : life t log with
      | none => rw [life, hlog] at h; cases h
      | some L₀ =>
        rw [life_cons hlog] at h
        by_cases halloc : e = .alloc t
        · subst halloc
          rw [occupancy, if_pos rfl]
          simp only [Life.step, ne_eq, not_true_eq_false, if_false] at h
          split at h <;> cases h
          constructor <;> simp
        · rw [occupancy, if_neg halloc]
          refine (ih hlog ?_).step h he halloc hv
          -- only a new occupancy starts from a vacant slot
          rintro hv₀
          cases e <;> simp_all [Life.step, Ev.slot]
    · have halloc : e ≠ .alloc t := by rintro rfl; exact he rfl
      rw [life_other he] at h
      rw [occupancy, if_neg halloc]
      exact (ih h hv).other he

end Sppc
