import Mathlib.Data.Bool.Basic
import Sppc.Runtime

/-!
# What a slot and a closure go through

The log of a run says what happened in the order it happened.  `life t` reads from it what the slot `t` has gone
through since the start: an automaton that goes from one occupancy of the slot to the next and has no transition for
anything that must not happen (a second retirement, an awaiter woken twice, a result collected before the body has
returned, a slot retired while an awaiter has not returned).  `envStage e` does the same for a closure's environment.
Both are `none` once the log contains something that must not happen.  This is the purpose of the code, stated apart
from it.
-/

namespace Sppc

/-! ### Slots -/

/-- How far the occupant of a slot has come. -/
inductive Stage
  | vacant
  /-- Handed out, no handle given out yet. -/
  | claimed
  | spawned
  | started
  | returned
  /-- Its last awaiter has collected. -/
  | spent
  deriving DecidableEq, Repr

/-- What a slot has gone through: the stage of its occupant, whether that was detached, its awaiters that are parked,
those woken that have not returned, and whether one is about to collect. -/
structure Life where
  stage : Stage
  detached : Bool
  joined : List Nat
  woken : List Nat
  collecting : Bool
  deriving DecidableEq, Repr

/-- A slot before its first occupant. -/
def Life.start : Life := ⟨.vacant, false, [], [], false⟩

/-- The life of `t` after the event `e`; `none` where `e` must not happen. -/
def Life.step (t : Nat) (L : Life) : Ev → Option Life
  | .alloc u =>
    if u ≠ t then some L else if L.stage = .vacant then some ⟨.claimed, false, [], [], false⟩ else none
  | .spawned u =>
    if u ≠ t then some L else if L.stage = .claimed then some { L with stage := .spawned } else none
  | .started u =>
    if u ≠ t then some L else if L.stage = .spawned then some { L with stage := .started } else none
  | .returned u =>
    if u ≠ t then some L else if L.stage = .started then some { L with stage := .returned } else none
  -- an await registers before the body returns, once, and not on a detached task
  | .joined w u =>
    if u ≠ t then some L
    else if (L.stage = .spawned ∨ L.stage = .started) ∧ L.detached = false ∧ w ∉ L.joined then
      some { L with joined := w :: L.joined }
    else none
  -- the end of the body wakes a registered awaiter, which is then no longer registered
  | .woken w u =>
    if u ≠ t then some L
    else if L.stage = .returned ∧ w ∈ L.joined then
      some { L with joined := L.joined.erase w, woken := L.woken ++ [w] }
    else none
  -- only a woken awaiter goes on
  | .resumed w u =>
    if u ≠ t then some L
    else if L.stage = .returned ∧ w ∈ L.woken ∧ L.collecting = false then
      some { L with woken := L.woken.erase w, collecting := true }
    else none
  | .late _ u =>
    if u ≠ t then some L
    else if L.stage = .returned ∧ L.detached = false ∧ L.collecting = false then some { L with collecting := true }
    else none
  -- a result is collected after the body has returned, by nobody who still waits
  | .collected w u =>
    if u ≠ t then some L
    else if L.stage = .returned ∧ L.collecting = true ∧ w ∉ L.joined ∧ w ∉ L.woken then
      some { L with
        stage := if L.joined = [] ∧ L.woken = [] then .spent else .returned
        collecting := false }
    else none
  | .detached u =>
    if u ≠ t then some L
    else if (L.stage = .spawned ∨ L.stage = .started ∨ L.stage = .returned) ∧ L.detached = false then
      some { L with detached := true }
    else none
  -- the slot is handed back when its spawn failed, after the last awaiter, or when it is detached and nobody waits
  | .retire u =>
    if u ≠ t then some L
    else if L.stage = .claimed ∨ L.stage = .spent ∨
        L.stage = .returned ∧ L.detached = true ∧ L.joined = [] ∧ L.woken = [] ∧ L.collecting = false then
      some { L with stage := .vacant }
    else none
  | _ => some L

/-- What the slot `t` has gone through in a log (newest event first). -/
def life (t : Nat) : List Ev → Option Life
  | [] => some Life.start
  | e :: log => match life t log with
    | some L => L.step t e
    | none => none

/-- Whether the occupancies of the slot `t` and its retirements alternate in a log, and if they do, whether it is
occupied at the end. -/
def occupied (t : Nat) : List Ev → Option Bool
  | [] => some false
  | .alloc u :: log => if u ≠ t then occupied t log else if occupied t log = some false then some true else none
  | .retire u :: log => if u ≠ t then occupied t log else if occupied t log = some true then some false else none
  | _ :: log => occupied t log

/-- The events since the slot `t` was last handed out. -/
def occupancy (t : Nat) : List Ev → List Ev
  | [] => []
  | e :: log => if e = .alloc t then [] else e :: occupancy t log

/-- When the task `w` last put its entry on `lock_waiters`, as a position in the log. -/
def arrival (w : Nat) : List Ev → Nat
  | [] => 0
  | e :: log => if e = .queued w then log.length + 1 else arrival w log

/-- The submission the task `t` last parked on, where no completion was taken for it since. -/
def operation (t : Nat) : List Ev → Option Nat
  | [] => none
  | .parked u op :: log => if u = t then some op else operation t log
  | .taken u _ _ :: log => if u = t then none else operation t log
  | _ :: log => operation t log

/-- Every completion a poll took was of the submission that its task was waiting for. -/
def EachTaken (log : List Ev) : Prop :=
  ∀ t op st l, Ev.taken t op st :: l <:+ log → st = .waiting ∧ operation t l = some op

/-- No task is both awaited and detached, in any occupancy of any slot: an await counts where it registers or finds
the task finished, a detach where it takes effect. -/
def NeverBoth (log : List Ev) : Prop :=
  ∀ l, l <:+ log → ∀ t w, (Ev.joined w t ∈ occupancy t l ∨ Ev.late w t ∈ occupancy t l) →
    Ev.detached t ∉ occupancy t l

/-- Every submission was accepted by the backend. -/
def AllAccepted (log : List Ev) : Prop := ∀ t, Ev.refused t ∉ log

theorem NeverBoth.of_suffix {l l' : List Ev} (h : NeverBoth l') (hl : l <:+ l') : NeverBoth l :=
  fun k hk => h k (hk.trans hl)

theorem AllAccepted.of_suffix {l l' : List Ev} (h : AllAccepted l') (hl : l <:+ l') : AllAccepted l :=
  fun t ht => h t (hl.subset ht)

private theorem occupancy_subset {t : Nat} {log : List Ev} : occupancy t log ⊆ log := by
  induction log with
  | nil => exact List.Subset.refl _
  | cons e log ih =>
    rw [occupancy]
    split
    · exact List.nil_subset _
    · exact List.cons_subset_cons e ih

/-- Where no slot is ever both awaited and detached, no task is. -/
theorem NeverBoth.of_slots {log : List Ev}
    (h : ∀ t w, Ev.detached t ∈ log → Ev.joined w t ∉ log ∧ Ev.late w t ∉ log) : NeverBoth log := by
  intro l hl t w hw ht
  have hsub : occupancy t l ⊆ log := fun e he => hl.subset (occupancy_subset he)
  obtain ⟨hj, hlate⟩ := h t w (hsub ht)
  exact hw.elim (fun hw => hj (hsub hw)) fun hw => hlate (hsub hw)

theorem NeverBoth.of_not_detached {log : List Ev} (h : ∀ t, Ev.detached t ∉ log) : NeverBoth log :=
  .of_slots fun t _ ht => absurd ht (h t)

theorem life_cons {t : Nat} {e : Ev} {log : List Ev} {L : Life} (h : life t log = some L) :
    life t (e :: log) = L.step t e := by
  rw [life, h]

/-- The slot an event of some slot's life is about. -/
def Ev.slot : Ev → Option Nat
  | .alloc t | .retire t | .spawned t | .started t | .returned t | .joined _ t | .late _ t | .woken _ t
  | .resumed _ t | .collected _ t | .detached t => some t
  | _ => none

theorem life_other {t : Nat} {e : Ev} {log : List Ev} (h : e.slot ≠ some t) : life t (e :: log) = life t log := by
  cases hlog : life t log with
  | none => rw [life, hlog]
  | some L =>
    rw [life_cons hlog]
    cases e <;> simp_all [Life.step, Ev.slot]

theorem mem_occupancy_cons {t : Nat} {e e' : Ev} {log : List Ev} (h : e ≠ .alloc t) :
    e' ∈ occupancy t (e :: log) ↔ e' = e ∨ e' ∈ occupancy t log := by
  simp [occupancy, h]

theorem arrival_cons {w : Nat} {e : Ev} {log : List Ev} (h : e ≠ .queued w) :
    arrival w (e :: log) = arrival w log := by
  simp [arrival, h]

theorem arrival_le (w : Nat) (log : List Ev) : arrival w log ≤ log.length := by
  induction log with
  | nil => exact Nat.le_refl 0
  | cons e log ih =>
    rw [arrival, List.length_cons]
    split <;> omega

theorem EachTaken.cons {e : Ev} {log : List Ev} (h : EachTaken log)
    (he : ∀ t op st, e = .taken t op st → st = .waiting ∧ operation t log = some op) : EachTaken (e :: log) := by
  intro t op st l hl
  rcases List.suffix_cons_iff.1 hl with heq | hl
  · cases heq
    exact he t op st rfl
  · exact h t op st l hl

/-- The log `l'` says of the slots and the submissions what `l` says. -/
structure SameStory (l l' : List Ev) : Prop where
  life : ∀ t, life t l' = Sppc.life t l
  occupancy : ∀ t e, e ∈ occupancy t l → e ∈ Sppc.occupancy t l'
  operation : ∀ t, operation t l' = Sppc.operation t l
  taken : EachTaken l → EachTaken l'

theorem SameStory.refl (l : List Ev) : SameStory l l := ⟨fun _ => rfl, fun _ _ h => h, fun _ => rfl, id⟩

theorem SameStory.trans {l l' l'' : List Ev} (h : SameStory l l') (h' : SameStory l' l'') : SameStory l l'' :=
  ⟨fun t => (h'.life t).trans (h.life t), fun t e he => h'.occupancy t e (h.occupancy t e he),
    fun t => (h'.operation t).trans (h.operation t), fun ht => h'.taken (h.taken ht)⟩

/-- The events that are about no slot and no submission. -/
def Ev.aside : Ev → Bool
  | .queued _ | .refused _ | .given _ | .called _ | .dropped _ | .freed _ | .mapped .. | .mprotected ..
  | .unmapped .. => true
  | _ => false

theorem SameStory.aside {l l' : List Ev} {e : Ev} (h : SameStory l l') (he : e.aside) : SameStory l (e :: l') := by
  obtain ⟨h1, h2, h3, h4⟩ := h
  constructor
  · intro t
    rw [life_other, h1]
    cases e <;> simp_all [Ev.aside, Ev.slot]
  · intro t e' he'
    rw [mem_occupancy_cons (by rintro rfl; cases he)]
    exact .inr (h2 t e' he')
  · intro t
    rw [← h3 t]
    cases e <;> first | rfl | cases he
  · intro h
    exact (h4 h).cons fun t op st heq => by subst heq; cases he

/-- The automaton keeps count of what it was told: a slot's occupancies and retirements alternate in every log it
accepts. -/
theorem occupied_of_life {t : Nat} {log : List Ev} {L : Life} (h : life t log = some L) :
    occupied t log = some (decide (L.stage ≠ .vacant)) := by
  induction log generalizing L with
  | nil => cases h; rfl
  | cons e log ih =>
    cases hlog : life t log with
    | none => rw [life, hlog] at h; cases h
    | some L' =>
      rw [life_cons hlog] at h
      have ih := ih hlog
      cases e
      all_goals simp only [Life.step, occupied, ih] at h ⊢
      all_goals grind

/-! ### Environments -/

/-- How far a closure's environment has come. -/
inductive EnvStage
  | unknown
  /-- Given to `sppc_async`; `caps` is whether it has captures to drop. -/
  | given (caps : Bool)
  | called
  | dropped
  | freed
  deriving DecidableEq, Repr

/-- The stage of the environment `id` after the event `e`; `none` where `e` must not happen: storage is freed once,
after the body was called or else after the captures, if any, were dropped. -/
def EnvStage.step (id : Nat) (S : EnvStage) : Ev → Option EnvStage
  | .given e => if e.id ≠ id then some S else if S = .unknown then some (.given e.dropCaptures) else none
  | .called i =>
    if i ≠ id then some S else if S = .given true ∨ S = .given false then some .called else none
  | .dropped i => if i ≠ id then some S else if S = .given true then some .dropped else none
  | .freed i =>
    if i ≠ id then some S else if S = .called ∨ S = .dropped ∨ S = .given false then some .freed else none
  | _ => some S

/-- What the environment `id` has gone through in a log (newest event first). -/
def envStage (id : Nat) : List Ev → Option EnvStage
  | [] => some .unknown
  | e :: log => match envStage id log with
    | some S => S.step id e
    | none => none

theorem envStage_cons {id : Nat} {e : Ev} {log : List Ev} {S : EnvStage} (h : envStage id log = some S) :
    envStage id (e :: log) = S.step id e := by
  rw [envStage, h]

/-- The environment an event is about. -/
def Ev.env : Ev → Option Nat
  | .given e => some e.id
  | .called id | .dropped id | .freed id => some id
  | _ => none

theorem envStage_other {id : Nat} {e : Ev} {log : List Ev} (h : e.env ≠ some id) :
    envStage id (e :: log) = envStage id log := by
  cases hlog : envStage id log with
  | none => rw [envStage, hlog]
  | some S =>
    rw [envStage_cons hlog]
    cases e <;> simp_all [EnvStage.step, Ev.env]

theorem Ev.env_of_slot {e : Ev} {t : Nat} (h : e.slot = some t) : e.env = none := by
  cases e <;> first | rfl | cases h

end Sppc
