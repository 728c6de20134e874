import Sppc.Queues
import Mathlib.Data.List.Count

/-!
# The environments of closures

Four places dispose of a closure's environment: a spawn that fails, the end of a body, and the teardown of a thread
with tasks left, for those that were started and for those that were not.  The last one frees the storage and leaves
the captures undropped.
-/

namespace Sppc

variable {Io : Type} [IoBackend Io] [LawfulIoBackend Io] {R : GtRuntime Io} {v : Roster} {s : Machine Io}
  {log : List Ev} {id : Nat}

/-! ### What the stages add up to -/

/-- What a log adds up to when it leaves the environment `id` at the stage `S`. -/
structure EnvAccounts (id : Nat) (log : List Ev) (S : EnvStage) : Prop where
  freed : log.count (.freed id) = if S = .freed then 1 else 0
  dropped : log.count (.dropped id) ≤ 1
  notBoth : Ev.called id ∈ log → Ev.dropped id ∉ log
  unknown : S = .unknown → Ev.called id ∉ log ∧ Ev.dropped id ∉ log ∧ ∀ e, .given e ∈ log → e.id ≠ id
  untouched : ∀ caps, S = .given caps → Ev.called id ∉ log ∧ Ev.dropped id ∉ log
  called : S = .called → Ev.called id ∈ log
  wasDropped : S = .dropped → Ev.dropped id ∈ log
  given : ∀ e, .given e ∈ log → e.id = id → (∀ caps, S = .given caps → caps = e.dropCaptures) ∧
    (Ev.dropped id ∈ log → e.dropCaptures = true) ∧
    (S = .freed → Ev.called id ∈ log ∨ Ev.dropped id ∈ log ∨ e.dropCaptures = false)
  before : ∀ l, .freed id :: l <:+ log → Ev.called id ∈ l ∨ Ev.dropped id ∈ l ∨
    ∀ e, .given e ∈ log → e.id = id → e.dropCaptures = false
  known : S ≠ .unknown → ∃ e, .given e ∈ log ∧ e.id = id

/-- An event about another environment, or about none. -/
private theorem EnvAccounts.other {S : EnvStage} {e : Ev} (h : EnvAccounts id log S) (he : e.env ≠ some id) :
    EnvAccounts id (e :: log) S := by
  have hne (e' : Ev) (he' : e'.env = some id) : e ≠ e' := fun heq => he (heq ▸ he')
  have hcount (e' : Ev) (he' : e'.env = some id) : (e :: log).count e' = log.count e' :=
    List.count_cons_of_ne (hne e' he')
  have hmem (e' : Ev) (he' : e'.env = some id) : e' ∈ e :: log ↔ e' ∈ log := by
    simp [Ne.symm (hne e' he')]
  have hgiven (e' : SppcClosureEnv) (hid : e'.id = id) : Ev.given e' ∈ e :: log ↔ Ev.given e' ∈ log :=
    hmem _ (by rw [← hid]; rfl)
  obtain ⟨h1, h2, h3, h4, h5, h6, h7, h8, h9, h10⟩ := h
  constructor
  · rw [hcount _ rfl]; exact h1
  · rw [hcount _ rfl]; exact h2
  · rw [hmem _ rfl, hmem _ rfl]; exact h3
  · intro hS
    rw [hmem _ rfl, hmem _ rfl]
    refine ⟨(h4 hS).1, (h4 hS).2.1, fun e' he' hid => ?_⟩
    rw [hgiven e' hid] at he'
    exact (h4 hS).2.2 e' he' hid
  · intro caps hS; rw [hmem _ rfl, hmem _ rfl]; exact h5 caps hS
  · intro hS; rw [hmem _ rfl]; exact h6 hS
  · intro hS; rw [hmem _ rfl]; exact h7 hS
  · intro e' he' hid
    rw [hgiven e' hid] at he'
    rw [hmem _ rfl, hmem _ rfl]
    exact h8 e' he' hid
  · intro l hl
    rcases List.suffix_cons_iff.1 hl with heq | hl
    · exact absurd (List.cons.inj heq).1.symm (hne _ rfl)
    · refine (h9 l hl).imp (fun h => h) (Or.imp (fun h => h) fun hcaps e' he' hid => ?_)
      rw [hgiven e' hid] at he'
      exact hcaps e' he' hid
  · intro hS
    obtain ⟨e', he', hid⟩ := h10 hS
    exact ⟨e', List.mem_cons_of_mem _ he', hid⟩

/-- An event about the environment. -/
private theorem EnvAccounts.step {S S' : EnvStage} {e : Ev} (h : EnvAccounts id log S) (hstep : S.step id e = some S')
    (he : e.env = some id) : EnvAccounts id (e :: log) S' := by
  obtain ⟨h1, h2, h3, h4, h5, h6, h7, h8, h9, h10⟩ := h
  have hbefore : ∀ l, .freed id :: l <:+ e :: log → Ev.called id ∈ l ∨ Ev.dropped id ∈ l ∨
      ∀ e', .given e' ∈ e :: log → e'.id = id → e'.dropCaptures = false := by
    intro l hl
    rcases List.suffix_cons_iff.1 hl with heq | hl
    · cases heq
      simp only [EnvStage.step] at hstep
      grind
    · -- what is given later is another environment
      have hfreed : S = .freed := by
        by_contra hne
        rw [if_neg hne] at h1
        exact List.count_eq_zero.1 h1 (hl.subset (List.mem_cons_self ..))
      refine (h9 l hl).imp (fun h => h) (Or.imp (fun h => h) fun hcaps e' he' hid => ?_)
      rcases List.mem_cons.1 he' with heq | he'
      · subst heq
        simp [EnvStage.step, hid, hfreed] at hstep
      · exact hcaps e' he' hid
  cases e
  all_goals simp only [Ev.env, Option.some.injEq, reduceCtorEq] at he
  all_goals subst he
  all_goals
    simp only [EnvStage.step, ne_eq, not_true_eq_false, if_false] at hstep
    split at hstep
    case isFalse => cases hstep
    cases hstep
    refine ⟨?_, ?_, ?_, ?_, ?_, ?_, ?_, ?_, hbefore, ?_⟩
  all_goals simp only [List.count_cons, List.mem_cons]
  all_goals grind

private theorem envAccounts {S : EnvStage} (h : envStage id log = some S) : EnvAccounts id log S := by
  induction log generalizing S with
  | nil =>
    cases h
    constructor <;> simp
  | cons e log ih =>
    by_cases he : e.env = some id
    · cases hlog : envStage id log with
      | none => rw [envStage, hlog] at h; cases h
      | some S₀ =>
        rw [envStage_cons hlog] at h
        exact (ih hlog).step h he
    · rw [envStage_other he] at h
      exact (ih h).other he

/-- The environment of `e` is disposed of: its storage was freed once, and its captures were dropped once before that
unless the body was called or there were none to drop. -/
structure Disposed (e : SppcClosureEnv) (log : List Ev) : Prop where
  freed : log.count (.freed e.id) = 1
  dropped : log.count (.dropped e.id) = if Ev.called e.id ∈ log ∨ e.dropCaptures = false then 0 else 1
  before : ∀ l, .freed e.id :: l <:+ log → Ev.called e.id ∈ l ∨ Ev.dropped e.id ∈ l ∨ e.dropCaptures = false

private theorem disposed_of_freed {e : SppcClosureEnv} (h : envStage e.id log = some .freed) (he : .given e ∈ log) :
    Disposed e log := by
  obtain ⟨h1, h2, h3, -, -, -, -, h8, h9, -⟩ := envAccounts h
  obtain ⟨-, hcaps, hor⟩ := h8 e he rfl
  refine ⟨by simpa using h1, ?_, fun l hl => (h9 l hl).imp id (Or.imp id fun hall => hall e he rfl)⟩
  split
  case isTrue hc =>
    refine List.count_eq_zero.2 fun hd => ?_
    rcases hc with hc | hc
    · exact h3 hc hd
    · rw [hcaps hd] at hc
      cases hc
  case isFalse hc =>
    rw [not_or] at hc
    have hd : Ev.dropped e.id ∈ log := by simpa [hc.1, hc.2] using hor rfl
    have := List.count_pos_iff.2 hd
    omega

/-! ### The end of the thread -/

/-- The end of the thread frees the environment `id` with the slot `i`. -/
def Frees (R : GtRuntime Io) (id i : Nat) : Prop :=
  (R.slots i).state ≠ .free ∧ (R.slots i).state ≠ .done ∧ ∃ e, (R.slots i).body.env = some e ∧ e.id = id

omit [IoBackend Io] [LawfulIoBackend Io] in
private theorem gtTeardownSlot_same (live : Option Nat) (R : GtRuntime Io) (i j : Nat) :
    SameTask (R.slots j) ((gtTeardownSlot live R i).slots j) := by
  have h := (gtTeardownStacks_quiet live R (R.slots i)).slots j
  unfold gtTeardownSlot sppcEnvFree
  dsimp only
  split
  · split <;> exact h
  · exact h

omit [IoBackend Io] [LawfulIoBackend Io] in
private theorem Frees.congr {R R' : GtRuntime Io} {i : Nat} (h : SameTask (R.slots i) (R'.slots i)) :
    Frees R' id i ↔ Frees R id i := by
  unfold Frees
  rw [h.state, h.body]

omit [IoBackend Io] [LawfulIoBackend Io] in
private theorem gtTeardownSlot_other {live : Option Nat} {i : Nat} (h : ¬Frees R id i) :
    envStage id (gtTeardownSlot live R i).log = envStage id R.log := by
  have hq := (gtTeardownStacks_quiet live R (R.slots i)).envStage id
  unfold gtTeardownSlot sppcEnvFree
  dsimp only
  split
  case isFalse => exact hq
  case isTrue hst =>
    cases he : (R.slots i).body.env with
    | none => exact hq
    | some e =>
      rw [← hq]
      exact envStage_other fun hid => h ⟨hst.1, hst.2, e, he, by simpa [Ev.env] using hid⟩

omit [IoBackend Io] [LawfulIoBackend Io] in
private theorem gtTeardownSlot_freed {live : Option Nat} {i : Nat} {S : EnvStage} (h : Frees R id i)
    (hS : envStage id R.log = some S) : envStage id (gtTeardownSlot live R i).log = S.step id (.freed id) := by
  obtain ⟨hf, hd, e, he, rfl⟩ := h
  have hq := (gtTeardownStacks_quiet live R (R.slots i)).envStage e.id
  rw [hS] at hq
  unfold gtTeardownSlot sppcEnvFree
  dsimp only
  rw [if_pos ⟨hf, hd⟩, he]
  exact envStage_cons hq

omit [IoBackend Io] [LawfulIoBackend Io] in
private theorem teardown_other {live : Option Nat} {l : List Nat} (h : ∀ i ∈ l, ¬Frees R id i) :
    envStage id (l.foldl (gtTeardownSlot live) R).log = envStage id R.log := by
  induction l generalizing R with
  | nil => rfl
  | cons i l ih =>
    rw [List.foldl_cons, ih fun j hj => ?_]
    · exact gtTeardownSlot_other (h i (List.mem_cons_self ..))
    · rw [Frees.congr (gtTeardownSlot_same live R i j)]
      exact h j (List.mem_cons_of_mem _ hj)

omit [IoBackend Io] [LawfulIoBackend Io] in
private theorem teardown_freed {live : Option Nat} {l : List Nat} {i : Nat} {S : EnvStage} (hl : l.Nodup) (hi : i ∈ l)
    (h : Frees R id i) (hone : ∀ j, Frees R id j → j = i) (hS : envStage id R.log = some S) :
    envStage id (l.foldl (gtTeardownSlot live) R).log = S.step id (.freed id) := by
  induction l generalizing R with
  | nil => cases hi
  | cons j l ih =>
    obtain ⟨hj, hl⟩ := List.nodup_cons.1 hl
    have hsame (k : Nat) : Frees (gtTeardownSlot live R j) id k ↔ Frees R id k :=
      Frees.congr (gtTeardownSlot_same live R j k)
    rw [List.foldl_cons]
    by_cases hij : i = j
    · subst hij
      rw [teardown_other fun k hk hf => hj (hone k ((hsame k).1 hf) ▸ hk)]
      exact gtTeardownSlot_freed h hS
    · refine ih hl (by simpa [hij] using hi) ((hsame i).2 h) (fun k hk => hone k ((hsame k).1 hk)) ?_
      rw [gtTeardownSlot_other fun hf => hij (hone j hf).symm]
      exact hS

/-- No task that was never started is left with captures to drop. -/
def NoneAbandoned (R : GtRuntime Io) : Prop :=
  ∀ i < R.nslots, (R.slots i).state = .ready → (R.slots i).sp = some .entry →
    ∀ e, (R.slots i).body.env = some e → e.dropCaptures = false

omit [IoBackend Io] [LawfulIoBackend Io] in
private theorem gtTeardownSlot_log (live : Option Nat) (R : GtRuntime Io) (i : Nat) {e : Ev}
    (he : e ∈ (gtTeardownSlot live R i).log) (hm : e.mapping = false) (hf : ∀ id, e ≠ .freed id) : e ∈ R.log := by
  obtain ⟨l, hl, hlm⟩ := (gtTeardownStacks_quiet live R (R.slots i)).log
  have hstacks (he : e ∈ (gtTeardownStacks live R (R.slots i)).log) : e ∈ R.log := by
    rw [hl, List.mem_append] at he
    refine he.resolve_left fun he => ?_
    rw [hlm e he] at hm
    cases hm
  unfold gtTeardownSlot sppcEnvFree at he
  dsimp only at he
  split at he
  · split at he
    · exact hstacks he
    · exact hstacks (List.mem_of_ne_of_mem (hf _) he)
  · exact hstacks he

omit [LawfulIoBackend Io] in
/-- The end of the thread records unmapped stacks and freed environments. -/
private theorem gtTeardown_log (hz : R.zombies = none) {e : Ev} (he : e ∈ (gtTeardown R).rt.log)
    (hm : e.mapping = false) (hf : ∀ id, e ≠ .freed id) : e ∈ R.log := by
  have hfold (l : List Nat) (live : Option Nat) (R : GtRuntime Io) (he : e ∈ (l.foldl (gtTeardownSlot live) R).log) :
      e ∈ R.log := by
    induction l generalizing R with
    | nil => exact he
    | cons i l ih => exact gtTeardownSlot_log live R i (ih _ he) hm hf
  unfold gtTeardown at he
  dsimp only at he
  rw [if_neg (by simp [hz])] at he
  obtain ⟨l, hl, hlm⟩ := (gtStackFlush_quiet ((List.range R.nslots).foldl _ _) _).log
  rw [hl, List.mem_append] at he
  refine hfold _ _ { R with io := IoBackend.teardown R.io, inflight := 0 } (he.resolve_left fun he => ?_)
  rw [hlm e he] at hm
  cases hm

omit [LawfulIoBackend Io] in
private theorem gtTeardown_envStage (hz : R.zombies = none) (id : Nat) :
    envStage id (gtTeardown R).rt.log =
      envStage id ((List.range R.nslots).foldl (gtTeardownSlot (R.slots R.current).stack)
        { R with io := IoBackend.teardown R.io, inflight := 0 }).log := by
  unfold gtTeardown
  dsimp only
  rw [if_neg (by simp [hz])]
  exact (gtStackFlush_quiet _ _).envStage id

/-- Where the thread exits, the environments it was given are disposed of if and only if no task that was never
started has captures to drop. -/
private theorem Live.disposed_at_exit (h : Live s v) (ht : Table s.rt) (hc : s.ctl = .code) :
    (∀ e, .given e ∈ (gtTeardown s.rt).rt.log → Disposed e (gtTeardown s.rt).rt.log) ↔ NoneAbandoned s.rt := by
  obtain ⟨hr, -⟩ := h.at_code hc
  obtain ⟨hm, hs, -⟩ := h
  have hst := hs.statesOk hm.lists
  have hstate := hs.state hm.lists
  have hend := gtTeardown_envStage (R := s.rt) hr.zombies
  have hsuf : s.rt.log <:+ (gtTeardown s.rt).rt.log :=
    step_log (show step s .exit = some (gtTeardown s.rt) by simp [step, hc]) ht
  -- a slot's environment is freed where its task holds it
  have hfrees (id i : Nat) (hi : i < s.rt.nslots) : Frees s.rt id i ↔
      (v.role i).holds ∧ ∃ e, (s.rt.slots i).body.env = some e ∧ e.id = id := by
    have hrole := hs.role i (by simp)
    have hi' := hstate i
    unfold Frees
    rw [← and_assoc]
    refine and_congr_left fun _ => ?_
    have hne : v.role i ≠ .unused := fun hu => by have := (hm.lists.unused_iff i).1 hu; omega
    revert hrole hi' hne
    generalize (s.rt.slots i).state = st
    cases v.role i <;> simp +contextual [Role.steady, Role.holds, Role.state, eq_comm (b := st)]
  have hlt {id i : Nat} (hf : Frees s.rt id i) : i < s.rt.nslots := by
    by_contra hge
    have hi' := hstate i
    rw [(hm.lists.unused_iff i).2 (by omega)] at hi'
    exact hf.1 (Option.some.inj hi'.symm)
  have hnone (id : Nat) (hno : ∀ i, ¬Frees s.rt id i) :
      envStage id (gtTeardown s.rt).rt.log = envStage id s.rt.log := by
    rw [hend]
    exact teardown_other (R := { s.rt with io := IoBackend.teardown s.rt.io, inflight := 0 }) fun i _ => hno i
  have hone (t : Nat) (e : SppcClosureEnv) (ht : (v.role t).holds) (he : (s.rt.slots t).body.env = some e) :
      envStage e.id (gtTeardown s.rt).rt.log =
        (if (v.role t).stage = .started then EnvStage.called else .given e.dropCaptures).step e.id (.freed e.id) := by
    have htn : t < s.rt.nslots := by
      by_contra hge
      rw [(hm.lists.unused_iff t).2 (by omega)] at ht
      cases ht
    rw [hend]
    refine teardown_freed (R := { s.rt with io := IoBackend.teardown s.rt.io, inflight := 0 }) List.nodup_range
      (List.mem_range.2 htn) ((hfrees _ t htn).2 ⟨ht, e, he, rfl⟩) (fun j hj => ?_) (hm.envs.held t e ht he)
    obtain ⟨hj', e', he', hid⟩ := (hfrees _ j (hlt hj)).1 hj
    exact hm.envs.inj j t e' e hj' ht he' he hid
  constructor
  · intro hall i hi hready hsp e he
    obtain ⟨f, hf⟩ := (hst.ready i).2 ⟨hi, hready⟩
    have hne : i ≠ s.rt.current := by
      rintro rfl
      rw [hr.role] at hf
      cases hf
    have hentry : f = .entry := by
      have := hm.lists.frame i f hne (by rw [hf]; rfl)
      rw [hsp] at this
      exact (Option.some.inj this).symm
    subst hentry
    have hstage := hm.envs.held i e (by rw [hf]; rfl) he
    rw [hf, if_neg (by simp [Role.stage])] at hstage
    obtain ⟨-, -, -, -, h5, -, -, h8, -, h10⟩ := envAccounts hstage
    obtain ⟨e', hgiven, hid⟩ := h10 (by simp)
    by_contra hcaps
    have hcaps' : e'.dropCaptures = true := by
      rw [← (h8 e' hgiven hid).1 _ rfl]
      simpa using hcaps
    have hdisposed := hall e' (hsuf.subset hgiven)
    rw [← hid] at h5
    obtain ⟨hcalled, hdropped⟩ := h5 _ rfl
    have hcalled' : Ev.called e'.id ∉ (gtTeardown s.rt).rt.log :=
      fun h => hcalled (gtTeardown_log hr.zombies h rfl (by simp))
    have hdropped' : Ev.dropped e'.id ∉ (gtTeardown s.rt).rt.log :=
      fun h => hdropped (gtTeardown_log hr.zombies h rfl (by simp))
    have hcount := hdisposed.dropped
    rw [if_neg (by simp [hcalled', hcaps']), List.count_eq_zero.2 hdropped'] at hcount
    cases hcount
  · intro hsafe e he
    have he' : .given e ∈ s.rt.log := gtTeardown_log hr.zombies he rfl (by simp)
    refine disposed_of_freed ?_ he
    rcases hm.envs.rest e.id with ⟨e', hhand, -⟩ | ⟨t, e', ht, henv, hid⟩ | hrest
    · rw [hs.hand] at hhand
      cases hhand
    · have hfinal := hone t e' ht henv
      rw [← hid, hfinal]
      split
      · simp [EnvStage.step]
      · rename_i hstage
        -- a task that holds its closure and was never started is on the run queue
        have hentry : v.role t = .ready .entry := by
          have hrole := hs.role t (by simp)
          revert ht hstage hrole
          cases v.role t with
          | ready f => cases f <;> simp [Role.stage]
          | _ => simp [Role.stage, Role.holds, Role.steady]
        obtain ⟨htn, hready⟩ := (hst.ready t).1 ⟨_, hentry⟩
        have hne : t ≠ s.rt.current := by
          rintro rfl
          rw [hr.role] at hentry
          cases hentry
        have hsp := hm.lists.frame t .entry hne (by rw [hentry]; rfl)
        simp [EnvStage.step, hsafe t htn hready hsp e' henv]
    · have hno (i : Nat) : ¬Frees s.rt e.id i := fun hf => by
        obtain ⟨hh, e', henv, hid⟩ := (hfrees _ i (hlt hf)).1 hf
        have hheld := hm.envs.held i e' hh henv
        rw [hid] at hheld
        rcases hrest with hrest | hrest
        all_goals
          rw [hheld] at hrest
          split at hrest <;> cases hrest
      rw [hnone e.id hno]
      rcases hrest with hrest | hrest
      · exact absurd rfl (((envAccounts hrest).unknown rfl).2.2 e he')
      · exact hrest

/-- In every run of a thread up to its exit, the environments it was given are disposed of if and only if no task that
was never started is left with captures to drop. -/
theorem disposed_iff (h : Reachable s) (hboth : NeverBoth s.rt.log) (hacc : AllAccepted s.rt.log)
    (hc : s.ctl = .code) : ∃ s', step s .exit = some s' ∧
      ((∀ e, .given e ∈ s'.rt.log → Disposed e s'.rt.log) ↔ NoneAbandoned s.rt) := by
  rcases h.inv hboth hacc with ⟨v, hv⟩ | ⟨hexit, -⟩
  · exact ⟨gtTeardown s.rt, by simp [step, hc], hv.disposed_at_exit h.table hc⟩
  · rw [hc] at hexit
    cases hexit

/-- Task 1 has run, task 2 is parked, task 3 was never started and has nothing to drop. -/
theorem disposed_iff_three : ∃ s : Machine BlockingIo,
    Transition.run step (gtInit .unused 4096 false)
      [.async ⟨1, some ⟨11, true, true⟩⟩ spawnServed, .yield, .finish, .turn,
        .async ⟨2, some ⟨12, true, true⟩⟩ spawnServed, .yield, .yield,
        .async ⟨3, some ⟨13, true, false⟩⟩ spawnServed] =
      some s ∧
    ∃ s', step s .exit = some s' ∧
      ((∀ e, .given e ∈ s'.rt.log → Disposed e s'.rt.log) ↔ NoneAbandoned s.rt) := by
  have hrun : (Transition.run step (gtInit BlockingIo.unused 4096 false)
      [.async ⟨1, some ⟨11, true, true⟩⟩ spawnServed, .yield, .finish, .turn,
        .async ⟨2, some ⟨12, true, true⟩⟩ spawnServed, .yield, .yield,
        .async ⟨3, some ⟨13, true, false⟩⟩ spawnServed]).map (fun s => (s.ctl, s.rt.log)) =
      some (.code, [.spawned 3, .mprotected 8192 131072 .readWrite, .mapped 4096 135168 .none, .alloc 3,
        .given ⟨13, true, false⟩, .called 12, .started 2, .spawned 2, .alloc 2, .given ⟨12, true, true⟩, .freed 11,
        .returned 1, .called 11, .started 1, .spawned 1, .mprotected 8192 131072 .readWrite,
        .mapped 4096 135168 .none, .alloc 1, .given ⟨11, true, true⟩, .started 0, .spawned 0, .alloc 0]) := by
    decide +kernel
  obtain ⟨s, hs, hlog⟩ := Option.map_eq_some_iff.1 hrun
  simp only [Prod.mk.injEq] at hlog
  exact ⟨s, hs, disposed_iff ⟨.unused, 4096, false, trivial, _, hs⟩ (.of_not_detached fun t => by simp [hlog])
    (fun t => by simp [hlog]) hlog.1⟩

/-- A thread that is not drained exits before the task it spawned has started: the captures of its closure are never
dropped. -/
theorem captures_abandoned : ¬∀ s s' : Machine BlockingIo, Reachable s → NeverBoth s.rt.log →
    step s .exit = some s' → ∀ e, .given e ∈ s'.rt.log → Disposed e s'.rt.log := by
  intro hall
  have hrun : (Transition.run step (gtInit BlockingIo.unused 4096 false)
      [.async ⟨1, some ⟨11, true, true⟩⟩ spawnServed]).map (fun s => (s.rt.log, (step s .exit).map (·.rt.log))) =
      some ([.spawned 1, .mprotected 8192 131072 .readWrite, .mapped 4096 135168 .none, .alloc 1,
        .given ⟨11, true, true⟩, .started 0, .spawned 0, .alloc 0], some [.freed 11, .unmapped 4096 135168,
        .spawned 1, .mprotected 8192 131072 .readWrite, .mapped 4096 135168 .none, .alloc 1, .given ⟨11, true, true⟩,
          .started 0, .spawned 0, .alloc 0]) := by decide +kernel
  obtain ⟨s, hs, hlog⟩ := Option.map_eq_some_iff.1 hrun
  simp only [Prod.mk.injEq] at hlog
  obtain ⟨hlog, hexit⟩ := hlog
  obtain ⟨s', hs', hlog'⟩ := Option.map_eq_some_iff.1 hexit
  have hd := (hall s s' ⟨.unused, 4096, false, trivial, _, hs⟩ (.of_not_detached fun t => by simp [hlog]) hs'
    ⟨11, true, true⟩ (by simp [hlog'])).dropped
  simp [hlog'] at hd

end Sppc
