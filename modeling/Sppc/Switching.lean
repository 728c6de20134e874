import Sppc.Slots

/-!
# Switching

A switch leaves the abstract state as it is: the task that is switched away is already where it waits to be resumed,
and the one that is switched to is off the run queue.  Where it lands, the task that finished last is released
(`settled`), and the task goes on (`run`).
-/

namespace Sppc

open LinkedList

variable {Io : Type} [IoBackend Io] [LawfulIoBackend Io] {R : GtRuntime Io} {v : Roster} {t : Nat} {f g : Resume}

/-! ### The switch -/

/-- The runtime after a switch to `next`, the task that ran to go on at `f`. -/
def switched (R : GtRuntime Io) (f : Resume) (next : Nat) : GtRuntime Io :=
  { R with
    current := next
    slots := fun i => { R.slots i with
      sp := if i = R.current then some f else (R.slots i).sp
      state := if i = next then .running else (R.slots i).state } }

theorem Models.switch {next : Nat} (h : Models R v) (hcur : (v.role R.current).frame = some f)
    (hnext : v.role next = .popped g) : Models (switched R f next) v := by
  obtain ⟨hok, ⟨h1, h2, h3, h4, h5, h6, h7, h8, h9⟩, hlocks, hcounts, hlog, henvs⟩ := h
  refine ⟨hok, ⟨h1, ?_, h3, h4, h5, h6, h7, ?_, ?_⟩, ?_, ?_, ?_, ?_⟩
  · simp only [switched]; grind [Role.state]
  · simp only [switched]; grind [Role.frame]
  · simp only [switched]; grind
  · exact hlocks.congr rfl rfl (fun _ => rfl) rfl fun _ _ h => h
  · exact hcounts.congr (fun _ => rfl) (fun _ => rfl) rfl rfl rfl rfl (fun _ => rfl) (fun _ h => h) rfl rfl rfl rfl
      rfl
  · exact hlog.congr (.refl _) (fun _ => rfl) (fun _ => rfl) (fun _ => rfl) rfl rfl rfl fun _ _ h => h
  · exact henvs.congr (fun _ => rfl) (fun _ => rfl) (fun _ _ => Iff.rfl) (fun _ _ => rfl) rfl

/-! ### Landing -/

/-- The abstract state once the task that finished last is released. -/
def settled (R : GtRuntime Io) (v : Roster) : Roster :=
  match R.zombies with
  | none => v
  | some z => if (R.slots z).detached then v.retire z else v.reap z

omit [IoBackend Io] [LawfulIoBackend Io] in
/-- Only the role of the finished task changes. -/
theorem settled_same (R : GtRuntime Io) (v : Roster) :
    (settled R v).ready = v.ready ∧ (settled R v).joiners = v.joiners ∧ (settled R v).woken = v.woken ∧
    (settled R v).queue = v.queue ∧ (settled R v).locker = v.locker ∧ (settled R v).hand = v.hand ∧
    ∀ i, R.zombies ≠ some i → (settled R v).role i = v.role i := by
  unfold settled
  cases R.zombies with
  | none => exact ⟨rfl, rfl, rfl, rfl, rfl, rfl, fun _ _ => rfl⟩
  | some z =>
    dsimp only
    split
    all_goals refine ⟨rfl, rfl, rfl, rfl, rfl, rfl, fun i hi => ?_⟩
    all_goals
      have hiz : i ≠ z := fun h => hi (by rw [h])
      simp [Roster.retire, Roster.reap, hiz]

omit [IoBackend Io] [LawfulIoBackend Io] in
theorem settled_no_zombie (hz : ∀ i, v.role i = .zombie → R.zombies = some i) (i : Nat) :
    (settled R v).role i ≠ .zombie := by
  by_cases hi : R.zombies = some i
  · unfold settled
    rw [hi]
    dsimp only
    split <;> simp [Roster.retire, Roster.reap]
  · rw [(settled_same R v).2.2.2.2.2.2 i hi]
    exact mt (hz i) hi

/-- Where a switch lands. -/
theorem Models.settle (h : Models R v) (hc : v.collecting = none) :
    Models (if R.zombies ≠ none then gtReap R else R) (settled R v) ∧
    (if R.zombies ≠ none then gtReap R else R).zombies = none ∧
    (if R.zombies ≠ none then gtReap R else R).current = R.current ∧
    ∀ i, R.zombies ≠ some i → SameTask (R.slots i) ((if R.zombies ≠ none then gtReap R else R).slots i) := by
  unfold settled
  cases hz : R.zombies with
  | none => exact ⟨h, hz, rfl, fun _ _ => .refl _⟩
  | some z =>
    obtain ⟨h1, h2, h3, h4⟩ := h.reaped hc hz
    refine ⟨h1, h2, h3, fun i hi => h4 i fun h => hi (by rw [h])⟩

/-! ### Going on -/

/-- A task that goes on in the middle of a call that is not an await. -/
theorem Models.run (h : Models R v) (ht : v.role t = .popped f) (hcur : R.current = t)
    (hst : (R.slots t).state = .running) (hl : v.locker = none) (hf : f ≠ .entry) (hj : ∀ s, f ≠ .joined s) :
    Models R (v.run t f) := by
  obtain ⟨hok, ⟨h1, h2, h3, h4, h5, h6, h7, h8, h9⟩, hlocks, hcounts, hlog, henvs⟩ := h
  have hrole : (v.run t f).role = Function.update v.role t .running := by cases f <;> rfl
  have hjoin : (v.run t f).joiners = v.joiners := by cases f <;> rfl
  have hwoken : (v.run t f).woken = v.woken := by
    cases f <;> first | rfl | exact absurd rfl (hj _)
  have hready : (v.run t f).ready = v.ready := by cases f <;> rfl
  have hfree : (v.run t f).free = v.free := by cases f <;> rfl
  have hqueue : (v.run t f).queue = v.queue := by cases f <;> rfl
  have hwait : (v.run t f).waiting = v.waiting := by cases f <;> rfl
  have htaken : (v.run t f).taken = v.taken := by cases f <;> rfl
  have hhand : (v.run t f).hand = v.hand := by cases f <;> rfl
  have hcollecting : (v.run t f).collecting = v.collecting := by
    cases f <;> first | rfl | exact absurd rfl (hj _)
  have hstage : (v.role t).stage = .started := by
    rw [ht]
    cases f <;> first | rfl | exact absurd rfl hf
  refine ⟨hok.run ht hl, ⟨?_, ?_, ?_, ?_, ?_, ?_, ?_, ?_, ?_⟩, ?_, ?_, ?_, ?_⟩
  · simp only [hrole, Function.update_apply]; grind
  · simp only [hrole, Function.update_apply]; grind [Role.state]
  · rw [hready]; exact h3
  · rw [hready]; exact h4
  · rw [hfree]; exact h5
  · rw [hjoin]; exact h6
  · simp only [hrole, Function.update_apply]; grind
  · simp only [hrole, Function.update_apply]; grind
  · simp only [hrole, Function.update_apply]; grind [Role.frame]
  · refine hlocks.congr rfl rfl (fun _ => rfl) hqueue ?_
    simp only [hrole, Function.update_apply]
    grind
  · refine hcounts.congr (fun _ => rfl) (fun _ => rfl) rfl rfl rfl rfl ?_ ?_ hjoin hwoken hfree hwait
      htaken
    all_goals simp only [hrole, Function.update_apply]
    all_goals grind [Role.occupied]
  · refine hlog.congr (.refl _) (fun _ => rfl) ?_ ?_ hjoin hwoken hcollecting ?_
    all_goals simp only [hrole, Function.update_apply]
    all_goals grind [Role.occupied, Role.stage]
  · refine henvs.congr (fun _ => rfl) ?_ ?_ (fun _ _ => rfl) hhand
    all_goals simp only [hrole, Function.update_apply]
    all_goals grind [Role.holds, Role.stage]

omit [IoBackend Io] [LawfulIoBackend Io] in
/-- The environments once the body of `t` is called. -/
private theorem envs_called (h : EnvsOk R v) (ht : v.role t = .popped .entry) :
    EnvsOk (noteCalled (R.note (.started t)) (R.slots t).body) (v.run t .entry) := by
  obtain ⟨h1, h2, h3, h4⟩ := h
  have hslots : (noteCalled (R.note (.started t)) (R.slots t).body).slots = R.slots := by
    unfold noteCalled
    split <;> rfl
  have hholds : ∀ i, ((v.run t .entry).role i).holds = (v.role i).holds := fun i => by
    simp only [Roster.run, Function.update_apply]
    grind [Role.holds]
  have hself : (v.role t).holds := by rw [ht]; rfl
  have hold : ∀ id, (∀ e, (R.slots t).body.env = some e → e.id ≠ id) →
      envStage id (noteCalled (R.note (.started t)) (R.slots t).body).log = envStage id R.log := fun id hid => by
    unfold noteCalled
    cases he : (R.slots t).body.env with
    | none => exact envStage_other (by simp [Ev.env])
    | some e =>
      have hne := hid e he
      simp only [GtRuntime.note]
      rw [envStage_other (by simpa [Ev.env] using hne), envStage_other (by simp [Ev.env])]
  have hnew : ∀ e, (R.slots t).body.env = some e →
      envStage e.id (noteCalled (R.note (.started t)) (R.slots t).body).log = some .called := fun e he => by
    have hgiven := h1 t e hself he
    rw [ht, if_neg (by simp [Role.stage])] at hgiven
    simp only [noteCalled, he, GtRuntime.note]
    rw [envStage_cons (by rw [envStage_other (by simp [Ev.env])]; exact hgiven)]
    cases e.dropCaptures <;> simp [EnvStage.step]
  constructor
  · intro i e hi he
    rw [hholds] at hi
    rw [hslots] at he
    by_cases hit : i = t
    · subst hit
      rw [hnew e he]
      simp [Roster.run, Role.stage]
    · rw [hold e.id fun e' he' hid => hit (h2 t i e' e hself hi he' he hid).symm]
      simpa [Roster.run, hit] using h1 i e hi he
  · intro i i' e e' hi hi' he he'
    rw [hholds] at hi hi'
    rw [hslots] at he he'
    exact h2 i i' e e' hi hi' he he'
  · intro e he
    obtain ⟨hgiven, hne⟩ := h3 e he
    refine ⟨?_, fun i e' hi he' => ?_⟩
    · rw [hold e.id fun e' he' => hne t e' hself he']
      exact hgiven
    · rw [hholds] at hi
      rw [hslots] at he'
      exact hne i e' hi he'
  · intro id
    rcases h4 id with h | ⟨i, e, hi, he, hid⟩ | h
    · exact .inl h
    · exact .inr (.inl ⟨i, e, by rw [hholds]; exact hi, by rw [hslots]; exact he, hid⟩)
    · refine .inr (.inr ?_)
      rw [hold id fun e he hid => ?_]
      · exact h
      · have hheld := h1 t e hself he
        rw [hid, ht, if_neg (by simp [Role.stage])] at hheld
        rcases h with h | h <;> rw [hheld] at h <;> cases h

/-- The body of the running task is called. -/
theorem Models.start (h : Models R v) (ht : v.role t = .popped .entry) (hcur : R.current = t)
    (hst : (R.slots t).state = .running) (hl : v.locker = none) :
    Models (noteCalled (R.note (.started t)) (R.slots t).body) (v.run t .entry) := by
  have hlists : ListsOk R (v.run t .entry) := by
    obtain ⟨h1, h2, h3, h4, h5, h6, h7, h8, h9⟩ := h.lists
    refine ⟨?_, ?_, h3, h4, h5, h6, ?_, ?_, ?_⟩
    · simp only [Roster.run, Function.update_apply]; grind
    · simp only [Roster.run, Function.update_apply]; grind [Role.state]
    · simp only [Roster.run, Function.update_apply]; grind
    · simp only [Roster.run, Function.update_apply]; grind
    · simp only [Roster.run, Function.update_apply]; grind [Role.frame]
  have hlog : LogOk (R.note (.started t)) (v.run t .entry) := by
    refine h.logged.cons rfl rfl (by simp) (by rw [ht]; rfl) ?_ ?_ ?_ (fun _ _ => rfl) (fun _ _ => rfl)
      (fun _ _ => rfl) (fun _ _ => rfl) ?_ (fun w hw => .inr hw) ?_
    all_goals simp only [Roster.run, Function.update_apply]
    · simp [Life.step, ht, Role.stage, GtRuntime.note, Roster.collects]
    · grind
    · grind
    · simp [Role.occupied]
    · grind
  have hlocks : LocksOk (R.note (.started t)) (v.run t .entry) := by
    refine h.locks.congr rfl rfl (fun w => arrival_cons (by simp)) rfl ?_
    simp only [Roster.run, Function.update_apply]
    grind
  have hcounts : CountsOk (R.note (.started t)) (v.run t .entry) := by
    refine h.counts.congr (fun _ => rfl) (fun _ => rfl) rfl rfl rfl rfl ?_ ?_ rfl rfl rfl rfl rfl
    all_goals simp only [Roster.run, Function.update_apply]
    all_goals grind [Role.occupied]
  have henvs := envs_called h.envs ht
  have hok := h.ok.run ht hl
  unfold noteCalled at henvs ⊢
  obtain ⟨h1, h2, h3, h4, h5, h6, h7, h8, h9⟩ := hlists
  cases he : (R.slots t).body.env with
  | none =>
    simp only [he] at henvs ⊢
    exact ⟨hok, ⟨h1, h2, h3, h4, h5, h6, h7, h8, h9⟩, hlocks, hcounts, hlog, henvs⟩
  | some e =>
    simp only [he] at henvs ⊢
    refine ⟨hok, ⟨h1, h2, h3, h4, h5, h6, h7, h8, h9⟩, ?_, ?_, ?_, henvs⟩
    · exact hlocks.congr rfl rfl (fun w => arrival_cons (by simp)) rfl fun _ _ h => h
    · exact hcounts.congr (fun _ => rfl) (fun _ => rfl) rfl rfl rfl rfl (fun _ => rfl) (fun _ h => h) rfl rfl rfl
        rfl rfl
    · exact hlog.congr ((SameStory.refl _).aside rfl) (fun _ => rfl) (fun _ => rfl) (fun _ => rfl) rfl rfl rfl
        fun _ _ h => h

end Sppc
