import Sppc.Runtime
import Sppc.Traces

/-!
# Spin locks (`platform/darwin.h`, `platform/windows.h`)

A spin lock is one word, and Darwin and Windows use it alike.  A step is one access to the word, and a thread unlocks
only what it has locked.
-/

namespace Sppc

open Threads Transition

/-- The calls of a thread, each of them for a lock, and the next step of the call it is in. -/
inductive SpinInput (Lock : Type)
  | lock (l : Lock)
  | trylock (l : Lock)
  | unlock (l : Lock)
  | run
  deriving DecidableEq, Repr

/-- Where a thread is: outside, its last call having returned `ret`, or before an access to the word of `l`. -/
inductive SpinStage (Lock : Type)
  | out (ret : Int)
  | locks (l : Lock)
  | looks (l : Lock) (spins : BitVec 32)
  | tries (l : Lock)
  | unlocks (l : Lock)
  deriving DecidableEq, Repr

/-- A thread.  The locks it holds, how often it has looked at the word since its last exchange, and how often it has
given up the cpu since, are not stored by the code. -/
structure SpinThread (Lock : Type) where
  stage : SpinStage Lock
  held : Finset Lock
  looks : Nat
  yields : Nat

variable {Tid Lock : Type} [DecidableEq Tid] [DecidableEq Lock]

/-- What the last call of a thread that is outside has returned. -/
def SpinThread.back (c : SpinThread Lock) : Option Int :=
  match c.stage with
  | .out ret => some ret
  | _ => none

/-- A lock has been acquired. -/
def SpinThread.took (c : SpinThread Lock) (l : Lock) : SpinThread Lock :=
  { c with stage := .out 0, held := insert l c.held }

/-- `_sppc_pthread_spin_init`. -/
def sppcPthreadSpinInit : Int := 0

/-- The next step of a thread. -/
def spinAct (i : SpinInput Lock) (word : Lock → Int) (c : SpinThread Lock) :
    Option ((Lock → Int) × SpinThread Lock) :=
  match i, c.stage with
  | .lock l, .out _ => some (word, { c with stage := .locks l })
  | .trylock l, .out _ => some (word, { c with stage := .tries l })
  | .unlock l, .out _ => if l ∈ c.held then some (word, { c with stage := .unlocks l }) else none
  -- _sppc_pthread_spin_lock
  | .run, .locks l =>
    some (Function.update word l 1,
      if word l ≠ 0 then { c with stage := .looks l 1, looks := 0, yields := 0 } else c.took l)
  | .run, .looks l spins =>
    some (word,
      if word l ≠ 0 then
        { c with
          stage := .looks l (spins + 1)
          looks := c.looks + 1
          yields := if spins.toNat % 1024 = 0 then c.yields + 1 else c.yields }
      else { c with stage := .locks l })
  -- _sppc_pthread_spin_trylock
  | .run, .tries l =>
    some (Function.update word l 1, if word l = 0 then c.took l else { c with stage := .out ebusy })
  -- _sppc_pthread_spin_unlock
  | .run, .unlocks l => some (Function.update word l 0, { c with stage := .out 0, held := c.held.erase l })
  | _, _ => none

abbrev SpinSystem (Tid Lock : Type) := Threads.State Tid (Lock → Int) (SpinThread Lock)

/-- Every lock has just been made, and every thread is outside. -/
def SpinSystem.init : SpinSystem Tid Lock := ⟨fun _ => sppcPthreadSpinInit, fun _ => ⟨.out 0, ∅, 0, 0⟩⟩

/-- One step of a thread. -/
def spinStep : SpinSystem Tid Lock → Event Tid (SpinInput Lock) Empty → Option (SpinSystem Tid Lock) :=
  Threads.step (fun _ => spinAct) fun e _ => e.elim

/-- What is seen of a step. -/
abbrev spinSeen : SpinSystem Tid Lock → Event Tid (SpinInput Lock) Empty → SpinSystem Tid Lock →
    List (Seen Tid (SpinInput Lock) Int) :=
  seen SpinThread.back

/-! ### What a lock is to do -/

/-- A call, or what the last call has returned. -/
inductive OwnerCall (Lock : Type)
  | back (ret : Int)
  | lock (l : Lock)
  | trylock (l : Lock)
  | unlock (l : Lock)
  deriving DecidableEq, Repr

/-- Locks that have an owner: a call takes effect at once, and to lock waits until there is no owner. -/
def ownerAct (t : Tid) (i : SpinInput Lock) (owner : Lock → Option Tid) (c : OwnerCall Lock) :
    Option ((Lock → Option Tid) × OwnerCall Lock) :=
  match i, c with
  | .lock l, .back _ => some (owner, .lock l)
  | .trylock l, .back _ => some (owner, .trylock l)
  | .unlock l, .back _ => if owner l = some t then some (owner, .unlock l) else none
  | .run, .lock l => if owner l = none then some (Function.update owner l (some t), .back 0) else none
  | .run, .trylock l =>
    if owner l = none then some (Function.update owner l (some t), .back 0) else some (owner, .back ebusy)
  | .run, .unlock l => some (Function.update owner l none, .back 0)
  | _, _ => none

abbrev OwnerSystem (Tid Lock : Type) := Threads.State Tid (Lock → Option Tid) (OwnerCall Lock)

/-- No lock has an owner. -/
def OwnerSystem.init : OwnerSystem Tid Lock := ⟨fun _ => none, fun _ => .back 0⟩

/-- One step of a thread. -/
def ownerStep : OwnerSystem Tid Lock → Event Tid (SpinInput Lock) Empty → Option (OwnerSystem Tid Lock) :=
  Threads.step ownerAct fun e _ => e.elim

/-- What the last call of a thread that is outside has returned. -/
def OwnerCall.told : OwnerCall Lock → Option Int
  | back ret => some ret
  | _ => none

/-- What is seen of a step. -/
abbrev ownerSeen : OwnerSystem Tid Lock → Event Tid (SpinInput Lock) Empty → OwnerSystem Tid Lock →
    List (Seen Tid (SpinInput Lock) Int) :=
  seen OwnerCall.told

/-- The call a thread is in. -/
def SpinStage.call : SpinStage Lock → OwnerCall Lock
  | out ret => .back ret
  | locks l | looks l _ => .lock l
  | tries l => .trylock l
  | unlocks l => .unlock l

/-- What holds of a thread: it gives up the cpu at every 1024th look, also past the end of `spins`. -/
structure SpinThread.Ok (c : SpinThread Lock) : Prop where
  unlocks : ∀ l, c.stage = .unlocks l → l ∈ c.held
  spins : ∀ l spins, c.stage = .looks l spins → spins = BitVec.ofNat 32 (c.looks + 1) ∧ c.yields = c.looks / 1024

/-- The words are those of locks with these owners. -/
structure SpinRel (s : SpinSystem Tid Lock) (b : OwnerSystem Tid Lock) : Prop where
  word : ∀ l, s.shared l = if b.shared l = none then 0 else 1
  held : ∀ t l, l ∈ (s.loc t).held ↔ b.shared l = some t
  calls : ∀ t, b.loc t = (s.loc t).stage.call
  ok : ∀ t, (s.loc t).Ok

section

variable {s s' : SpinSystem Tid Lock} {b b' : OwnerSystem Tid Lock} {t : Tid} {l : Lock} {i : SpinInput Lock}
  {word : Lock → Int} {c : SpinThread Lock}

omit [DecidableEq Lock] in
/-- A thread has moved on; the others keep their locks. -/
private theorem SpinRel.move (hr : SpinRel s b) (hword : ∀ l, word l = if b'.shared l = none then 0 else 1)
    (hheld : ∀ l, l ∈ c.held ↔ b'.shared l = some t)
    (hothers : ∀ u ≠ t, ∀ l, b'.shared l = some u ↔ b.shared l = some u)
    (hcall : b'.loc t = c.stage.call) (hcalls : ∀ u ≠ t, b'.loc u = b.loc u) (hok : c.Ok) :
    SpinRel (s.put t word c) b' where
  word := hword
  held u l := by
    by_cases hu : u = t
    · subst hu
      rw [State.put_self]
      exact hheld l
    · rw [State.put_of_ne hu, hothers u hu l]
      exact hr.held u l
  calls u := by
    by_cases hu : u = t
    · subst hu
      rw [State.put_self]
      exact hcall
    · rw [State.put_of_ne hu, hcalls u hu]
      exact hr.calls u
  ok := State.put_forall hok fun u _ => hr.ok u

omit [DecidableEq Lock] in
/-- A step that the locks with owners do not notice. -/
private theorem SpinRel.still (hr : SpinRel s b) (hword : word = s.shared) (hheld : c.held = (s.loc t).held)
    (hcall : c.stage.call = (s.loc t).stage.call) (hok : c.Ok) : SpinRel (s.put t word c) b := by
  refine hr.move ?_ ?_ (fun _ _ _ => Iff.rfl) ?_ (fun _ _ => rfl) hok
  · rw [hword]
    exact hr.word
  · rw [hheld]
    exact hr.held t
  · rw [hcall]
    exact hr.calls t

/-- A step that gives a lock another owner, or none. -/
private theorem SpinRel.own (hr : SpinRel s b) (owner : Option Tid)
    (hheld : ∀ k, k ∈ c.held ↔ Function.update b.shared l owner k = some t)
    (howner : ∀ u ≠ t, owner ≠ some u ∧ b.shared l ≠ some u) (hok : c.Ok) :
    SpinRel (s.put t (Function.update s.shared l (if owner = none then 0 else 1)) c)
      (b.put t (Function.update b.shared l owner) c.stage.call) := by
  refine hr.move ?_ hheld ?_ State.put_self (fun u hu => State.put_of_ne hu) hok
  · intro k
    rw [State.put_shared]
    by_cases hk : k = l
    · subst hk
      rw [Function.update_self, Function.update_self]
    · rw [Function.update_of_ne hk, Function.update_of_ne hk]
      exact hr.word k
  · intro u hu k
    rw [State.put_shared]
    by_cases hk : k = l
    · subst hk
      rw [Function.update_self]
      exact ⟨fun h => absurd h (howner u hu).1, fun h => absurd h (howner u hu).2⟩
    · rw [Function.update_of_ne hk]

omit [DecidableEq Lock] in
/-- A step that gives no lock another owner. -/
private theorem SpinRel.calling (hr : SpinRel s b) (hword : word = s.shared) (hheld : c.held = (s.loc t).held)
    (hok : c.Ok) : SpinRel (s.put t word c) (b.put t b.shared c.stage.call) := by
  refine hr.move ?_ ?_ (fun _ _ _ => Iff.rfl) State.put_self (fun u hu => State.put_of_ne hu) hok
  · rw [hword]
    exact hr.word
  · rw [hheld]
    exact hr.held t

omit [DecidableEq Lock] in
/-- What is seen of a step of a thread. -/
private theorem SpinRel.seen (hr : SpinRel s b) (owner : Lock → Option Tid) :
    ownerSeen b (.thread t i) (b.put t owner c.stage.call) =
      spinSeen s (.thread t i) (s.put t word c) := by
  have htold (c : SpinThread Lock) : c.stage.call.told = c.back := by
    unfold SpinThread.back
    cases c.stage <;> rfl
  simp only [ownerSeen, spinSeen, Threads.seen, State.put_self, hr.calls t, htold]

/-- The locks with owners do what the thread does. -/
private theorem SpinRel.mirror (hr : SpinRel s b) {owner : Lock → Option Tid}
    (hact : ownerAct t i b.shared (b.loc t) = some (owner, c.stage.call))
    (hrel : SpinRel (s.put t word c) (b.put t owner c.stage.call)) :
    ∃ b', Traced ownerStep ownerSeen b (spinSeen s (.thread t i) (s.put t word c)) b' ∧
      SpinRel (s.put t word c) b' := by
  have hstep : ownerStep b (.thread t i) = some (b.put t owner c.stage.call) := step_thread.2 ⟨_, _, hact, rfl⟩
  exact ⟨_, hr.seen owner ▸ Traced.single hstep, hrel⟩

/-- The locks with owners wait while the thread goes on inside its call. -/
private theorem SpinRel.wait (hinside : (s.loc t).back = none) (hback : c.back = none)
    (hrel : SpinRel (s.put t word c) b) :
    ∃ b', Traced ownerStep ownerSeen b (spinSeen s (.thread t i) (s.put t word c)) b' ∧
      SpinRel (s.put t word c) b' := by
  refine ⟨b, ?_, hrel⟩
  have hnothing : spinSeen s (.thread t i) (s.put t word c) = [] := by
    simp only [spinSeen, Threads.seen, State.put_self, hinside, hback]
  rw [hnothing]
  exact Traced.refl b

private theorem SpinRel.took (hr : SpinRel s b) (hfree : s.shared l = 0) : b.shared l = none ∧
    SpinRel (s.put t (Function.update s.shared l 1) ((s.loc t).took l))
      (b.put t (Function.update b.shared l (some t)) (.back 0)) := by
  have hnone : b.shared l = none := by
    have hword := hr.word l
    rw [hfree] at hword
    by_contra h
    rw [if_neg h] at hword
    cases hword
  refine ⟨hnone, hr.own (some t) (c := (s.loc t).took l) ?_ ?_ ?_⟩
  · intro k
    show k ∈ insert l (s.loc t).held ↔ _
    rw [Finset.mem_insert, hr.held]
    by_cases hk : k = l
    · subst hk
      rw [Function.update_self]
      exact iff_of_true (Or.inl rfl) rfl
    · rw [Function.update_of_ne hk]
      exact or_iff_right hk
  · intro u hu
    rw [hnone]
    exact ⟨fun h => hu (Option.some.inj h).symm, fun h => by cases h⟩
  · exact ⟨(fun l h => by cases h), fun l spins h => by cases h⟩

omit [DecidableEq Tid] in
/-- Whoever finds the word not 0 leaves it as it is. -/
private theorem SpinRel.busy (hr : SpinRel s b) (hbusy : s.shared l ≠ 0) :
    b.shared l ≠ none ∧ Function.update s.shared l 1 = s.shared := by
  have hword := hr.word l
  by_cases h : b.shared l = none
  · rw [if_pos h] at hword
    exact absurd hword hbusy
  · rw [if_neg h] at hword
    exact ⟨h, by rw [← hword, Function.update_eq_self]⟩

omit [DecidableEq Lock] in
private theorem SpinThread.Ok.of_stage {stage : SpinStage Lock}
    (h : (∃ ret, stage = .out ret) ∨ (∃ l, stage = .locks l) ∨ ∃ l, stage = .tries l) :
    SpinThread.Ok { c with stage := stage } := by
  rcases h with ⟨ret, rfl⟩ | ⟨l, rfl⟩ | ⟨l, rfl⟩
  · exact ⟨(fun l h => by cases h), fun l spins h => by cases h⟩
  · exact ⟨(fun l h => by cases h), fun l spins h => by cases h⟩
  · exact ⟨(fun l h => by cases h), fun l spins h => by cases h⟩

omit [DecidableEq Lock] in
/-- One more look, where `spins` may wrap around. -/
private theorem SpinThread.Ok.look {spins : BitVec 32} (hok : c.Ok) (hstage : c.stage = .looks l spins) :
    SpinThread.Ok { c with
      stage := .looks l (spins + 1)
      looks := c.looks + 1
      yields := if spins.toNat % 1024 = 0 then c.yields + 1 else c.yields } := by
  obtain ⟨hspins, hyields⟩ := hok.spins l spins hstage
  refine ⟨(fun l h => by cases h), ?_⟩
  rintro _ _ ⟨⟩
  constructor
  · rw [hspins]
    exact (BitVec.ofNat_add (c.looks + 1) 1).symm
  · have hcount : spins.toNat = (c.looks + 1) % 2 ^ 32 := by rw [hspins, BitVec.toNat_ofNat]
    dsimp only
    split <;> omega

private theorem SpinRel.act {h : Lock → Int} (hr : SpinRel s b) (hact : spinAct i s.shared (s.loc t) = some (h, c)) :
    ∃ b', Traced ownerStep ownerSeen b (spinSeen s (.thread t i) (s.put t h c)) b' ∧
      SpinRel (s.put t h c) b' := by
  have hcall := hr.calls t
  have hok := hr.ok t
  unfold spinAct at hact
  split at hact
  · rename_i l ret hstage
    cases hact
    rw [hstage] at hcall
    refine hr.mirror (by rw [hcall]; rfl) (hr.calling rfl rfl ?_)
    exact .of_stage (Or.inr (Or.inl ⟨l, rfl⟩))
  · rename_i l ret hstage
    cases hact
    rw [hstage] at hcall
    refine hr.mirror (by rw [hcall]; rfl) (hr.calling rfl rfl ?_)
    exact .of_stage (Or.inr (Or.inr ⟨l, rfl⟩))
  · rename_i l ret hstage
    split at hact
    · rename_i hmem
      cases hact
      rw [hstage] at hcall
      have howner := (hr.held t l).1 hmem
      refine hr.mirror (by rw [hcall]; exact if_pos howner) (hr.calling rfl rfl ?_)
      refine ⟨?_, fun l spins h => by cases h⟩
      rintro _ ⟨⟩
      exact hmem
    · cases hact
  · rename_i l hstage
    cases hact
    rw [hstage] at hcall
    have hinside : (s.loc t).back = none := by rw [SpinThread.back, hstage]
    split
    · rename_i hbusy
      refine SpinRel.wait hinside rfl (hr.still (hr.busy hbusy).2 rfl ?_ ?_)
      · rw [hstage]
        rfl
      · refine ⟨(fun l h => by cases h), ?_⟩
        rintro _ _ ⟨⟩
        exact ⟨rfl, (Nat.zero_div 1024).symm⟩
    · rename_i hfree
      obtain ⟨hnone, hrel⟩ := hr.took (t := t) (not_not.1 hfree)
      exact hr.mirror (by rw [hcall]; exact if_pos hnone) hrel
  · rename_i l spins hstage
    cases hact
    have hinside : (s.loc t).back = none := by rw [SpinThread.back, hstage]
    refine SpinRel.wait hinside (by split <;> rfl) (hr.still rfl ?_ ?_ ?_)
    · split <;> rfl
    · rw [hstage]
      split <;> rfl
    · split
      · exact hok.look hstage
      · exact .of_stage (Or.inr (Or.inl ⟨l, rfl⟩))
  · rename_i l hstage
    cases hact
    rw [hstage] at hcall
    split
    · rename_i hfree
      obtain ⟨hnone, hrel⟩ := hr.took (t := t) hfree
      exact hr.mirror (by rw [hcall]; exact if_pos hnone) hrel
    · rename_i hbusy
      obtain ⟨hsome, hword⟩ := hr.busy hbusy
      refine hr.mirror (by rw [hcall]; exact if_neg hsome) (hr.calling hword rfl ?_)
      exact .of_stage (Or.inl ⟨ebusy, rfl⟩)
  · rename_i l hstage
    cases hact
    rw [hstage] at hcall
    have howner := (hr.held t l).1 (hok.unlocks l hstage)
    refine hr.mirror (by rw [hcall]; rfl) (hr.own none ?_ ?_ ?_)
    · intro k
      rw [Finset.mem_erase, hr.held]
      by_cases hk : k = l
      · subst hk
        rw [Function.update_self]
        exact iff_of_false (fun h => h.1 rfl) (fun h => by cases h)
      · rw [Function.update_of_ne hk]
        exact and_iff_right hk
    · intro u hu
      rw [howner]
      exact ⟨(fun h => by cases h), fun h => hu (Option.some.inj h).symm⟩
    · exact SpinThread.Ok.of_stage (c := { s.loc t with held := (s.loc t).held.erase l }) (Or.inl ⟨0, rfl⟩)
  · cases hact

omit [DecidableEq Tid] [DecidableEq Lock] in
private theorem SpinRel.init : SpinRel (.init : SpinSystem Tid Lock) .init where
  word l := rfl
  held t l := iff_of_false (Finset.notMem_empty l) (fun h => by cases h)
  calls t := rfl
  ok t := ⟨(fun l h => by cases h), fun l spins h => by cases h⟩

omit [DecidableEq Tid] [DecidableEq Lock] in
/-- A lock has one holder at most, and its word says whether it has one. -/
private theorem SpinRel.exclusive (hr : SpinRel s b) (l : Lock) :
    (s.shared l = 0 ∧ ∀ t, l ∉ (s.loc t).held) ∨ (s.shared l = 1 ∧ ∃! t, l ∈ (s.loc t).held) := by
  cases howner : b.shared l with
  | none =>
    refine Or.inl ⟨by rw [hr.word, if_pos howner], fun t hmem => ?_⟩
    cases howner.symm.trans ((hr.held t l).1 hmem)
  | some t =>
    refine Or.inr ⟨by rw [hr.word, howner]; rfl, t, (hr.held t l).2 howner, fun u hmem => ?_⟩
    exact Option.some.inj (((hr.held u l).1 hmem).symm.trans howner)

/-- The exchange that finds the lock free. -/
private theorem spinStep_locks (hstage : (s.loc t).stage = .locks l) (hfree : s.shared l = 0) :
    ∃ s', spinStep s (.thread t .run) = some s' ∧ l ∈ (s'.loc t).held ∧ (s'.loc t).stage = .out 0 := by
  refine ⟨s.put t (Function.update s.shared l 1) ((s.loc t).took l), step_thread.2 ⟨_, _, ?_, rfl⟩, ?_⟩
  · unfold spinAct
    rw [hstage]
    dsimp only
    rw [if_neg (not_not.2 hfree)]
  · rw [State.put_self]
    exact ⟨Finset.mem_insert_self l _, rfl⟩

/-- The look that finds the lock free. -/
private theorem spinStep_looks {spins : BitVec 32} (hstage : (s.loc t).stage = .looks l spins)
    (hfree : s.shared l = 0) :
    ∃ s', spinStep s (.thread t .run) = some s' ∧ (s'.loc t).stage = .locks l ∧ s'.shared = s.shared := by
  refine ⟨s.put t s.shared { s.loc t with stage := .locks l }, step_thread.2 ⟨_, _, ?_, rfl⟩, ?_, rfl⟩
  · unfold spinAct
    rw [hstage]
    dsimp only
    rw [if_neg (not_not.2 hfree)]
  · rw [State.put_self]

/-- Who waits for a free lock has it after two steps of its own. -/
private theorem spin_takes (hcall : (s.loc t).stage.call = .lock l) (hfree : s.shared l = 0) :
    ∃ n ≤ 2, ∃ s', run spinStep s (List.replicate n (.thread t .run)) = some s' ∧ l ∈ (s'.loc t).held ∧
      (s'.loc t).stage = .out 0 := by
  cases hstage : (s.loc t).stage with
  | locks k =>
    rw [hstage] at hcall
    cases hcall
    obtain ⟨s', hs', htook⟩ := spinStep_locks hstage hfree
    refine ⟨1, by decide, s', ?_, htook⟩
    rw [List.replicate_one, run, hs']
    rfl
  | looks k spins =>
    rw [hstage] at hcall
    cases hcall
    obtain ⟨s', hs', hlocks, hword⟩ := spinStep_looks hstage hfree
    obtain ⟨s'', hs'', htook⟩ := spinStep_locks hlocks (hword ▸ hfree)
    refine ⟨2, le_refl 2, s'', ?_, htook⟩
    rw [List.replicate_succ, List.replicate_one, run, hs']
    dsimp only
    rw [run, hs'']
    rfl
  | out ret =>
    rw [hstage] at hcall
    cases hcall
  | tries k =>
    rw [hstage] at hcall
    cases hcall
  | unlocks k =>
    rw [hstage] at hcall
    cases hcall

end

/-! ### Every run -/

/-- What holds of spin locks after a run of which the calls and returns `os` are seen: locks whose calls take effect
at once can be seen to do the same, with the same holders; a lock has one holder at most; who waits for a free lock
has it after two steps of its own; and who waits gives up the cpu at every 1024th look. -/
structure SpinOk (os : List (Seen Tid (SpinInput Lock) Int)) (s : SpinSystem Tid Lock) : Prop where
  atomic : ∃ b, Traced ownerStep ownerSeen .init os b ∧ (∀ t, b.loc t = (s.loc t).stage.call) ∧
    ∀ t l, l ∈ (s.loc t).held ↔ b.shared l = some t
  exclusive : ∀ l, (s.shared l = 0 ∧ ∀ t, l ∉ (s.loc t).held) ∨ (s.shared l = 1 ∧ ∃! t, l ∈ (s.loc t).held)
  takes : ∀ t l, (s.loc t).stage.call = .lock l → s.shared l = 0 → ∃ n ≤ 2, ∃ s',
    run spinStep s (List.replicate n (.thread t .run)) = some s' ∧ l ∈ (s'.loc t).held ∧ (s'.loc t).stage = .out 0
  yields : ∀ t l spins, (s.loc t).stage = .looks l spins → (s.loc t).yields = (s.loc t).looks / 1024

theorem spin_ok {os : List (Seen Tid (SpinInput Lock) Int)} {s : SpinSystem Tid Lock}
    (h : Traced spinStep spinSeen .init os s) : SpinOk os s := by
  have hsim : ∀ (s : SpinSystem Tid Lock) e s' b, SpinRel s b → spinStep s e = some s' →
      ∃ b', Traced ownerStep ownerSeen b (spinSeen s e s') b' ∧ SpinRel s' b' := by
    intro s e s' b hr hstep
    cases e with
    | thread t i =>
      obtain ⟨word, c, hact, rfl⟩ := step_thread.1 hstep
      exact hr.act hact
    | env e => exact e.elim
  obtain ⟨b, hb, hr⟩ := h.simulation hsim SpinRel.init
  refine ⟨⟨b, hb, hr.calls, hr.held⟩, hr.exclusive, fun t l => spin_takes, fun t l spins hstage => ?_⟩
  exact ((hr.ok t).spins l spins hstage).2

/-- A thread waits until the other unlocks, and a third does not get the lock meanwhile. -/
theorem spin_ok_wait : ∃ s : SpinSystem (Fin 3) Unit,
    SpinOk [.call 0 (.lock ()), .ret 0 0, .call 1 (.lock ()), .call 2 (.trylock ()), .ret 2 ebusy,
      .call 0 (.unlock ()), .ret 0 0, .ret 1 0] s ∧ s.shared () = 1 ∧ (s.loc 1).held = {()} ∧ (s.loc 0).held = ∅ := by
  have hrun : (trace spinStep spinSeen .init
      [.thread 0 (.lock ()), .thread 0 .run, .thread 1 (.lock ()), .thread 1 .run, .thread 2 (.trylock ()),
        .thread 1 .run, .thread 2 .run, .thread 0 (.unlock ()), .thread 0 .run, .thread 1 .run, .thread 1 .run]).map
          (fun r : _ × SpinSystem (Fin 3) Unit => (r.1, r.2.shared (), (r.2.loc 1).held, (r.2.loc 0).held)) =
      some ([.call 0 (.lock ()), .ret 0 0, .call 1 (.lock ()), .call 2 (.trylock ()), .ret 2 ebusy,
        .call 0 (.unlock ()), .ret 0 0, .ret 1 0], 1, {()}, ∅) := by
    decide +kernel
  obtain ⟨⟨os, s⟩, hs, heq⟩ := Option.map_eq_some_iff.1 hrun
  rw [Prod.mk.injEq] at heq
  obtain ⟨hos, heq⟩ := heq
  dsimp only at hos
  subst hos
  rw [Prod.mk.injEq, Prod.mk.injEq] at heq
  exact ⟨s, spin_ok ⟨_, hs⟩, heq⟩

end Sppc
