import Sppc.Finishing
import Sppc.Parking
import Sppc.LockQueue
import Sppc.Spawning

/-!
# The invariant of a run

`Live m v` says that the machine `m` stands for the abstract state `v`, with nothing half done and the running task
where `m.ctl` says.  Every step keeps it, as long as no task is both awaited and detached and every submission is
accepted; an exit ends it.
-/

namespace Sppc

variable {Io : Type} [IoBackend Io] [LawfulIoBackend Io] {R : GtRuntime Io} {v : Roster} {f g : Resume} {next : Nat}

/-- A role a slot keeps from one step to the next. -/
def Role.steady : Role → Bool
  | popped _ | fresh | ending | spent => false
  | _ => true

/-- Nothing is half done, except that `next` may be off the run queue to be switched to; the thread's own task has not
finished. -/
structure Steady (R : GtRuntime Io) (v : Roster) (next : Option Nat) : Prop where
  hand : v.hand = none
  taken : v.taken = []
  collecting : v.collecting = none
  role : ∀ i, next ≠ some i → (v.role i).steady
  zombie : ∀ i, v.role i = .zombie → R.zombies = some i
  main : (v.role 0).holds

theorem Role.holds_update {role : Nat → Role} {t : Nat} {r : Role} (h : (role 0).holds) (hr : t = 0 → r.holds) :
    (Function.update role t r 0).holds := by
  rw [Function.update_apply]
  split
  · rename_i ht
    exact hr ht.symm
  · exact h

/-- The current task runs, and no finished task's stack is left to release. -/
structure Runs (R : GtRuntime Io) (v : Roster) : Prop where
  role : v.role R.current = .running
  zombies : R.zombies = none

/-- Where the running task stands in the abstract state. -/
def CtlOk (R : GtRuntime Io) (v : Roster) : Ctl → Prop
  | .code | .condCall _ | .condReleased _ | .condPoll _ | .condLocked _ | .drain | .drainWait =>
    Runs R v ∧ v.locker = none
  | .lockTry c | .lockWait c | .lockCall c =>
    Runs R v ∧ v.locker = (if c.queued then some R.current else none) ∧ (R.lockWaiter R.current).lock = c.lock
  | .pick f | .pickWait f =>
    (v.role R.current).frame = some f ∧ v.locker = none ∧ ¬Roster.GivesWay f ∧ (f ≠ .finished → R.zombies = none)
  | .panic p =>
    p ≠ .resumedFinished ∧ v.locker = none ∧ v.ready = [] ∧ v.waiting = [] ∧
      ∃ f, (v.role R.current).frame = some f ∧ ¬Roster.GivesWay f
  | .lost | .exited => False

/-- The machine stands for `v`. -/
structure Live (m : Machine Io) (v : Roster) : Prop where
  models : Models m.rt v
  steady : Steady m.rt v none
  ctl : CtlOk m.rt v m.ctl

/-- The machine after a switch to `next`: the run queue and the lock queue are those of `v`. -/
structure Landed (m : Machine Io) (v : Roster) (next : Nat) (v' : Roster) : Prop where
  live : Live m v'
  current : m.rt.current = next
  ready : v'.ready = v.ready
  queue : v'.queue = v.queue

/-! ### The end of an await -/

/-- The running task collects the result of `s`, which has finished. -/
theorem Live.awaitEnd {s : Nat} (h : Models R v) (hs : Steady R v.collect none) (hr : Runs R v) (hl : v.locker = none)
    (hd : v.role s = .done) (hc : v.collecting = some s) :
    ∃ v', Landed (gtAwaitEnd R R.current s) v R.current v' := by
  have hend := h.awaitEnd hd hr.role hc hr.zombies
  have hcur : s ≠ R.current := by
    rintro rfl
    rw [hr.role] at hd
    cases hd
  unfold collectedBy gtAwaitEnd toCode at hend
  dsimp only at hend
  unfold gtAwaitEnd toCode
  dsimp only
  have hslots : (R.note (.collected R.current s)).slots s = R.slots s := rfl
  rw [hslots] at hend ⊢
  split
  case isTrue hn =>
    simp only [if_pos hn] at hend
    have heq := gtSlotFree_eq (R.note (.collected R.current s)) s
    have hcur' : (gtSlotFree (R.note (.collected R.current s)) s).current = R.current := by rw [heq]; rfl
    have hz' : (gtSlotFree (R.note (.collected R.current s)) s).zombies = R.zombies := by rw [heq]; rfl
    have hrole (i : Nat) : ((v.spend s).retire s).role i = if i = s then .free else v.role i := by
      simp only [Roster.retire, Roster.spend, Function.update_apply]
      split <;> rfl
    have hmain : s ≠ 0 := by
      rintro rfl
      have := hs.main
      rw [show v.collect.role 0 = _ from hd] at this
      cases this
    refine ⟨(v.spend s).retire s, ⟨hend, ⟨hs.hand, hs.taken, rfl, fun i _ => ?_, fun i hi => ?_, ?_⟩, ⟨?_, ?_⟩, hl⟩,
      hcur', rfl, rfl⟩
    · rw [hrole]
      split
      · rfl
      · exact hs.role i (by simp)
    · rw [hz']
      rw [hrole] at hi
      split at hi
      · cases hi
      · exact hs.zombie i hi
    · rw [hrole, if_neg hmain.symm]
      exact hs.main
    · rw [hcur', hrole, if_neg hcur.symm]
      exact hr.role
    · rw [hz']; exact hr.zombies
  case isFalse hn =>
    simp only [if_neg hn] at hend
    exact ⟨v.collect, ⟨hend, ⟨hs.hand, hs.taken, rfl, hs.role, hs.zombie, hs.main⟩, ⟨hr.role, hr.zombies⟩, hl⟩, rfl,
      rfl, rfl⟩

/-! ### Landing -/

omit [IoBackend Io] [LawfulIoBackend Io] in
private theorem run_same (v : Roster) (t : Nat) (f : Resume) : (v.run t f).ready = v.ready ∧
    (v.run t f).queue = v.queue ∧ (v.run t f).hand = v.hand ∧ (v.run t f).taken = v.taken ∧
    (v.run t f).role = Function.update v.role t .running ∧
    ((∀ s, f ≠ .joined s) → (v.run t f).collecting = v.collecting) := by
  cases f <;> refine ⟨rfl, rfl, rfl, rfl, rfl, fun h => ?_⟩ <;> first | rfl | exact absurd rfl (h _)

/-- A task that is switched to goes on, from a state with nothing else half done. -/
theorem Models.resume (h : Models R v) (hs : Steady R v (some R.current)) (hr : v.role R.current = .popped g)
    (hst : (R.slots R.current).state = .running) (hl : v.locker = none) (hz : R.zombies = none) :
    ∃ v', Landed (gtResume R g) v R.current v' := by
  obtain ⟨hready, hqueue, hhand, htaken, hrole, hcollecting⟩ := run_same v R.current g
  have hself : (v.run R.current g).role R.current = .running := by simp [hrole]
  have hsteady : Steady R (v.run R.current g).collect none := by
    refine ⟨hhand.trans hs.hand, htaken.trans hs.taken, rfl, fun i _ => ?_, fun i hi => ?_, ?_⟩
    all_goals rw [show (v.run R.current g).collect.role = _ from hrole] at *
    · by_cases hic : i = R.current
      · rw [hic, Function.update_self]; rfl
      · rw [Function.update_of_ne hic]
        exact hs.role i (by simpa using Ne.symm hic)
    · by_cases hic : i = R.current
      · rw [hic, Function.update_self] at hi; cases hi
      · rw [Function.update_of_ne hic] at hi
        exact hs.zombie i hi
    · exact Role.holds_update hs.main fun _ => rfl
  -- only an await has a result to collect
  have hrest (hj : ∀ s, g ≠ .joined s) : Steady R (v.run R.current g) none :=
    ⟨hsteady.hand, hsteady.taken, (hcollecting hj).trans hs.collecting, hsteady.role, hsteady.zombie, hsteady.main⟩
  have hruns : Runs R (v.run R.current g) := ⟨hself, hz⟩
  have hfin := h.ok.frame_ok R.current g (.inr hr)
  -- the places in the middle of a call that is not an await
  have plain (hg : g ≠ .entry) (hj : ∀ s, g ≠ .joined s) (ctl : Ctl) (ret : Int)
      (hctl : CtlOk R (v.run R.current g) ctl) : ∃ v', Landed ⟨R, ctl, ret⟩ v R.current v' :=
    ⟨v.run R.current g, ⟨h.run hr rfl hst hl hg hj, hrest hj, hctl⟩, rfl, hready, hqueue⟩
  cases g with
  | entry =>
    refine ⟨v.run R.current .entry, ⟨h.start hr rfl hst hl, ?_, ?_⟩, ?_, hready, hqueue⟩
    all_goals simp only [gtResume, gtBodyStart, toCode, noteCalled]
    · obtain ⟨s1, s2, s3, s4, s5, s6⟩ := hrest (by simp)
      split <;> exact ⟨s1, s2, s3, s4, s5, s6⟩
    · split <;> exact ⟨⟨hself, hz⟩, hl⟩
    · split <;> rfl
  | joined s =>
    have hmod := h.resumed hr rfl hst hl hs.collecting
    have hmem : R.current ∈ v.woken s := (h.ok.woken_iff _ s).2 (.inr hr)
    have hne : s ≠ R.current := by
      rintro rfl
      rcases h.ok.woken_done _ _ hmem with hd | hd | hd <;> rw [hr] at hd <;> cases hd
    have hdone : v.role s = .done := by
      rcases h.ok.woken_done _ _ hmem with hd | hd | hd
      · have := hs.role s (by simpa using Ne.symm hne)
        rw [hd] at this
        cases this
      · have := hs.zombie s hd
        rw [hz] at this
        cases this
      · exact hd
    have hsteady' : Steady ((R.modify s fun b => { b with njoiners := decr 32 b.njoiners }).note
      (.resumed R.current s))
        (v.run R.current (.joined s)).collect none :=
      ⟨hsteady.hand, hsteady.taken, hsteady.collecting, hsteady.role, hsteady.zombie, hsteady.main⟩
    obtain ⟨v', hv', hc, hrd, hq⟩ := Live.awaitEnd hmod hsteady' ⟨hself, hz⟩ hl (s := s)
      (by simp [Roster.run, hne, hdone]) rfl
    exact ⟨v', hv', hc, hrd, hq⟩
  | yielded => exact plain (by simp) (by simp) .code 0 ⟨hruns, hl⟩
  | waited op => exact plain (by simp) (by simp) .code _ ⟨hruns, hl⟩
  | stepped c =>
    refine plain (by simp) (by simp) (.lockTry c) 0 ⟨hruns, ?_⟩
    obtain ⟨hlock, hq⟩ := h.locks.entry_lock R.current c (.inr hr)
    exact ⟨by simp [Roster.run, hq], hlock⟩
  | released k =>
    cases k with
    | none => exact plain (by simp) (by simp) .code 0 ⟨hruns, hl⟩
    | some k => exact plain (by simp) (by simp) (.condReleased k) 0 ⟨hruns, hl⟩
  | condStepped k =>
    have hmod := h.run hr rfl hst hl (by simp) (by simp)
    refine ⟨v.run R.current (.condStepped k), ⟨hmod.setEntry hself hl ⟨k.mutex, none, none⟩, ?_, ?_⟩, rfl, hready,
      hqueue⟩
    · obtain ⟨s1, s2, s3, s4, s5, s6⟩ := hrest (by simp)
      exact ⟨s1, s2, s3, s4, s5, s6⟩
    · exact ⟨⟨hself, hz⟩, hl, by simp [gtResume, gtCondRelock, gtLockUntil]⟩
  | drained => exact plain (by simp) (by simp) .drain 0 ⟨hruns, hl⟩
  | finished => exact absurd rfl hfin

/-! ### Switching -/

/-- A switch to a task off the run queue lands where that task goes on. -/
private theorem Models.land {R₁ : GtRuntime Io} {self : Nat} (h : Models R v) (hs : Steady R v (some next))
    (hcur : (v.role R.current).frame = some f) (hnext : v.role next = .popped g) (hne : next ≠ R.current)
    (hl : v.locker = none) (hq : Quiet (switched R f next) (R₁.modify self fun s => { s with sp := some f })) :
    ∃ v', Landed (gtContextSwitch R₁ self f next) v next v' := by
  generalize hR' : (R₁.modify self fun s => { s with sp := some f }) = R' at hq
  have hmod : Models R' v := (h.switch hcur hnext).quiet hq
  have hsp : (R'.slots next).sp = some g := by
    rw [(hq.slots next).sp]
    simpa [switched, hne] using h.lists.frame next g hne (by rw [hnext]; rfl)
  have hst : (R'.slots next).state = .running := by
    rw [(hq.slots next).state]
    simp [switched]
  have hz : R'.zombies = R.zombies := hq.zombies
  have hcur' : R'.current = next := hq.current
  have hnz : R'.zombies ≠ some next := fun hzn => by
    have := (hmod.lists.zombie next hzn).1
    rw [hnext] at this
    cases this
  obtain ⟨hset, hsz, hsc, hss⟩ := hmod.settle hs.collecting
  obtain ⟨hready, -, -, hqueue, hlock, hhand, hrole⟩ := settled_same R' v
  have hkept : (settled R' v).taken = v.taken ∧ (settled R' v).collecting = v.collecting := by
    unfold settled
    split
    · exact ⟨rfl, rfl⟩
    · split <;> exact ⟨rfl, rfl⟩
  have hfin := h.ok.frame_ok next g (.inr hnext)
  have hnozombie := settled_no_zombie (R := R') (v := v) fun i hi => by rw [hz]; exact hs.zombie i hi
  generalize hR₂ : (if R'.zombies ≠ none then gtReap R' else R') = R₂ at hset hsz hsc hss
  rw [hcur'] at hsc
  have hsteady : Steady R₂ (settled R' v) (some R₂.current) := by
    refine ⟨hhand.trans hs.hand, hkept.1.trans hs.taken, hkept.2.trans hs.collecting, fun i hi => ?_,
      fun i hi => absurd hi (hnozombie i), ?_⟩
    rw [hsc] at hi
    by_cases hzi : R'.zombies = some i
    · unfold settled
      rw [hzi]
      dsimp only
      split <;> simp [Roster.retire, Roster.reap, Role.steady]
    · rw [hrole i hzi]
      exact hs.role i hi
    · rw [hrole 0 fun hz0 => by
        have := (hmod.lists.zombie 0 hz0).1
        have hmain := hs.main
        rw [this] at hmain
        cases hmain]
      exact hs.main
  obtain ⟨v', hv', hc, hrd, hqu⟩ := hset.resume hsteady (g := g)
    (by rw [hsc, hrole next hnz]; exact hnext) (by rw [hsc, (hss next hnz).state]; exact hst) (hlock.trans hl) hsz
  have heq : gtContextSwitch R₁ self f next = gtResume R₂ g := by
    unfold gtContextSwitch
    rw [hR', ← hR₂]
    dsimp only
    rw [hsp]
    cases g <;> first | rfl | exact absurd rfl hfin
  rw [heq]
  exact ⟨v', hv', hc.trans hsc, hrd.trans hready, hqu.trans hqueue⟩

omit [IoBackend Io] [LawfulIoBackend Io] in
private theorem switchTo_quiet (R : GtRuntime Io) (hne : next ≠ R.current) :
    Quiet (switched R f next) (({ ((({ R with current := next }).modify next fun s =>
      { s with state := .running }).modify R.current fun s => { s with usp := R.usp }) with
        usp := ((((({ R with current := next }).modify next fun s => { s with state := .running }).modify R.current
          fun s => { s with usp := R.usp }).slots next).usp) } : GtRuntime Io).modify R.current fun s =>
      { s with sp := some f }) := by
  refine ⟨rfl, rfl, rfl, rfl, rfl, fun i => ?_, rfl, rfl, rfl, rfl, rfl, rfl, rfl, [], rfl, by simp⟩
  simp only [switched, GtRuntime.modify, Function.update_apply]
  by_cases hi : i = R.current
  · subst hi
    constructor <;> simp [hne.symm]
  · by_cases hin : i = next
    · subst hin
      constructor <;> simp [hi]
    · constructor <;> simp [hi, hin]

/-- `_gt_switch_to`: from a task that is already where it waits to be resumed, to another or to itself. -/
theorem Models.switchTo (h : Models R v) (hs : Steady R v (some next)) (hnext : v.role next = .popped g)
    (hcur : (next ≠ R.current ∧ (v.role R.current).frame = some f) ∨
      (next = R.current ∧ g = f ∧ R.zombies = none)) (hl : v.locker = none) :
    ∃ v', Landed (gtSwitchTo R f next) v next v' := by
  unfold gtSwitchTo
  dsimp only
  rcases hcur with ⟨hne, hcur⟩ | ⟨rfl, rfl, hz⟩
  · rw [if_neg hne]
    exact h.land hs hcur hnext hne hl (switchTo_quiet R hne)
  · rw [if_pos rfl]
    have hmod : Models (R.modify R.current fun s => { s with state := .running }) v := by
      have hsl : ∀ i, (R.modify R.current fun s => { s with state := .running }).slots i =
          { R.slots i with state := if i = R.current then .running else (R.slots i).state } := fun i => by
        simp only [GtRuntime.modify, Function.update_apply]
        split
        · subst i; rfl
        · rfl
      obtain ⟨h1, h2, h3, h4, h5, h6, h7, h8, h9⟩ := h.lists
      refine ⟨h.ok, ⟨h1, ?_, ?_, h4, ?_, ?_, ?_, h8, ?_⟩, ?_, ?_, ?_, ?_⟩
      · simp only [hsl]; grind [Role.state]
      · simp only [hsl]; exact h3
      · simp only [hsl]; exact h5
      · simp only [hsl]; exact h6
      · simp only [hsl]; exact h7
      · simp only [hsl]; exact h9
      · exact h.locks.congr rfl rfl (fun _ => rfl) rfl fun _ _ h => h
      · exact h.counts.congr (fun i => by simp only [hsl]) (fun i => by simp only [hsl]) rfl rfl rfl rfl (fun _ =>
          rfl) (fun _ h => h) rfl rfl rfl rfl rfl
      · exact h.logged.congr (.refl _) (fun i => by simp only [hsl]) (fun _ => rfl) (fun _ => rfl) rfl rfl rfl
          fun _ _ h => h
      · exact h.envs.congr (fun _ => rfl) (fun _ => rfl) (fun _ _ => Iff.rfl) (fun i _ => by simp only [hsl]) rfl
    exact hmod.resume (g := g) ⟨hs.1, hs.2, hs.3, hs.4, hs.5, hs.6⟩ hnext (by simp [GtRuntime.modify]) hl hz

omit [IoBackend Io] [LawfulIoBackend Io] in
private theorem taskRunSwitch_quiet (R : GtRuntime Io) (hne : next ≠ R.current) :
    Quiet (switched R .finished next) (({ (({ R with current := next }).modify next fun s =>
      { s with state := .running }) with
        usp := (((({ R with current := next }).modify next fun s => { s with state := .running }).slots next).usp) } :
          GtRuntime Io).modify R.current fun s => { s with sp := some .finished }) := by
  refine ⟨rfl, rfl, rfl, rfl, rfl, fun i => ?_, rfl, rfl, rfl, rfl, rfl, rfl, rfl, [], rfl, by simp⟩
  simp only [switched, GtRuntime.modify, Function.update_apply]
  by_cases hi : i = R.current
  · subst hi
    constructor <;> simp [hne.symm]
  · by_cases hin : i = next
    · subst hin
      constructor <;> simp [hi]
    · constructor <;> simp [hi, hin]

/-- The last switch of a finished task. -/
theorem Models.taskRunSwitch (h : Models R v) (hs : Steady R v (some next)) (hnext : v.role next = .popped g)
    (hcur : (v.role R.current).frame = some .finished) (hl : v.locker = none) :
    ∃ v', Landed (gtTaskRunSwitch R next) v next v' := by
  have hne : next ≠ R.current := by
    rintro rfl
    rw [hnext] at hcur
    exact h.ok.frame_ok _ g (.inr hnext) (by simpa [Role.frame] using hcur)
  exact h.land hs hcur hnext hne hl (taskRunSwitch_quiet R hne)

/-! ### Giving way -/

/-- The running task goes to the tail of the run queue and `next`, which is off it, goes on. -/
theorem Models.giveWay (h : Models R v) (hs : Steady R v (some next)) (hr : Runs R v)
    (hnext : v.role next = .popped g) (hf : Roster.GivesWay f) (hl : v.locker = some R.current ↔ ∃ c, f = .stepped c)
    (hl' : v.locker = none ∨ v.locker = some R.current)
    (hc : ∀ c, f = .stepped c → (R.lockWaiter R.current).lock = c.lock ∧ c.queued = true) :
    ∃ v', Landed (gtGiveWay R f next) (v.push R.current f) next v' := by
  have hne : next ≠ R.current := by
    rintro rfl
    have := hr.role
    rw [hnext] at this
    cases this
  have heq := gtRqPush_eq R R.current
  have hcur : (gtRqPush R R.current).current = R.current := by rw [heq]
  have hpush := h.push hr.role hf hl hc
  refine Models.switchTo (g := g) hpush ⟨hs.hand, hs.taken, hs.collecting, fun i hi => ?_, fun i hi => ?_,
    Role.holds_update hs.main fun _ => rfl⟩ ?_ (.inl ⟨?_, ?_⟩) ?_
  · simp only [Roster.push, Function.update_apply]
    split
    · rfl
    · exact hs.role i hi
  · rw [heq]
    simp only [Roster.push, Function.update_apply] at hi
    split at hi
    · cases hi
    · exact hs.zombie i hi
  · simpa [Roster.push, hne] using hnext
  · rw [hcur]; exact hne
  · rw [hcur]
    simp [Roster.push, Role.frame]
  · rcases hl' with hl' | hl' <;> simp [Roster.push, hl']

/-! ### Polls and the run queue -/

omit [IoBackend Io] [LawfulIoBackend Io] in
theorem Steady.poll {R' : GtRuntime Io} {v' : Roster} (h : Steady R v none) (hp : Polled v v') (ht : v'.taken = [])
    (hR : SameFrame R R') : Steady R' v' none := by
  refine ⟨hp.hand.trans h.hand, ht, hp.collecting.trans h.collecting, fun i _ => ?_, fun i hi => ?_, ?_⟩
  · rcases hp.role i with hi | ⟨op, -, hi⟩
    · rw [hi]; exact h.role i (by simp)
    · rw [hi]; rfl
  · rw [hR.zombies]
    rcases hp.role i with hi' | ⟨op, -, hi'⟩
    · exact h.zombie i (by rw [← hi', hi])
    · rw [hi'] at hi; cases hi
  · rcases hp.role 0 with hi | ⟨op, -, hi⟩
    · rw [hi]; exact h.main
    · rw [hi]; rfl

omit [IoBackend Io] [LawfulIoBackend Io] in
theorem Runs.poll {R' : GtRuntime Io} {v' : Roster} (h : Runs R v) (hp : Polled v v') (hR : SameFrame R R') :
    Runs R' v' := by
  refine ⟨?_, hR.zombies.trans h.zombies⟩
  rw [hR.current, hp.role_eq fun op ho => by rw [h.role] at ho; cases ho]
  exact h.role

/-- `_gt_rq_pop`, where nothing is half done. -/
theorem Models.rqPop (h : Models R v) (hs : Steady R v none) :
    (v.ready = [] ∧ gtRqPop R = (none, R)) ∨
    ∃ t l g, v.ready = t :: l ∧ v.role t = .ready g ∧ gtRqPop R = (some t, rqUnlink R none t) ∧
      Models (rqUnlink R none t) (v.pop t g) ∧ Steady (rqUnlink R none t) (v.pop t g) (some t) := by
  cases hr : v.ready with
  | nil => exact .inl ⟨rfl, gtRqPop_nil h.lists hr⟩
  | cons t l =>
    obtain ⟨g, hg⟩ := (h.ok.ready_iff t).1 (by rw [hr]; exact List.mem_cons_self ..)
    refine .inr ⟨t, l, g, rfl, hg, gtRqPop_cons h.lists hr, h.pop hg (show v.ready = [] ++ t :: l from hr), hs.hand,
      hs.taken, hs.collecting, fun i hi => ?_, fun i hi => ?_, Role.holds_update hs.main fun _ => rfl⟩
    · have hit : i ≠ t := by rintro rfl; exact hi rfl
      simpa [Roster.pop, hit] using hs.role i (by simp)
    · have hit : i ≠ t := by rintro rfl; simp [Roster.pop] at hi
      exact hs.zombie i (by simpa [Roster.pop, hit] using hi)

omit [IoBackend Io] [LawfulIoBackend Io] in
theorem runs_pop {t : Nat} (h : Runs R v) (ht : v.role t = .ready g) :
    Runs (rqUnlink R none t) (v.pop t g) := by
  have hne : R.current ≠ t := by rintro rfl; have := h.role; rw [ht] at this; cases this
  exact ⟨by simpa [Roster.pop, rqUnlink, hne] using h.role, h.zombies⟩

/-- The running task gives way to the first of the run queue, or there is none. -/
theorem Models.step (h : Models R v) (hs : Steady R v none) (hr : Runs R v) (hf : Roster.GivesWay f)
    (hl : v.locker = some R.current ↔ ∃ c, f = .stepped c) (hl' : v.locker = none ∨ v.locker = some R.current)
    (hc : ∀ c, f = .stepped c → (R.lockWaiter R.current).lock = c.lock ∧ c.queued = true) (m : Machine Io)
    (hm : ∃ v', Live m v') :
    ∃ v', Live (match gtRqPop R with
      | (some next, R) => gtGiveWay R f next
      | (none, _) => m) v' := by
  rcases h.rqPop hs with ⟨-, heq⟩ | ⟨t, l, g, -, hg, heq, hpop, hsteady⟩
  · rw [heq]; exact hm
  · rw [heq]
    obtain ⟨v', hv'⟩ := hpop.giveWay (f := f) (g := g) hsteady (runs_pop hr hg) (by simp [Roster.pop]) hf hl hl' hc
    exact ⟨v', hv'.live⟩

/-! ### The steps -/

/-- A poll of a live machine. -/
theorem Live.poll (h : Models R v) (hs : Steady R v none) (wait : Wait) :
    ∃ v', Models (gtIoPoll R wait) v' ∧ Steady (gtIoPoll R wait) v' none ∧ Polled v v' := by
  obtain ⟨v', hm, ht, hp⟩ := h.poll hs.taken wait
  exact ⟨v', hm, hs.poll hp ht (gtIoPoll_frame R wait), hp⟩

theorem Live.pollNow (h : Models R v) (hs : Steady R v none) :
    ∃ v', Models (gtIoPollNow R) v' ∧ Steady (gtIoPollNow R) v' none ∧ Polled v v' := by
  obtain ⟨v', hm, ht, hp⟩ := h.pollNow hs.taken
  exact ⟨v', hm, hs.poll hp ht (gtIoPollNow_frame R), hp⟩

/-- A task in its own code. -/
theorem Live.code (h : Models R v) (hs : Steady R v none) (hr : Runs R v) (hl : v.locker = none) (ret : Int) :
    Live (toCode R ret) v := ⟨h, hs, hr, hl⟩

theorem Live.yield (h : Models R v) (hs : Steady R v none) (hr : Runs R v) (hl : v.locker = none) :
    ∃ v', Live (gtYield R) v' := by
  obtain ⟨v₁, h₁, hs₁, hp⟩ := Live.pollNow h hs
  have hr₁ := hr.poll hp (gtIoPollNow_frame R)
  have hl₁ : v₁.locker = none := hp.locker.trans hl
  have hstep := h₁.step (f := .yielded) hs₁ hr₁ trivial (by simp [hl₁]) (.inl hl₁) (by simp)
    (toCode (gtIoPollNow R) 0) ⟨v₁, .code h₁ hs₁ hr₁ hl₁ 0⟩
  obtain ⟨v', hv'⟩ := hstep
  refine ⟨v', ?_⟩
  unfold gtYield
  rcases h₁.rqPop hs₁ with ⟨-, heq⟩ | ⟨t, l, g, -, -, heq, -⟩
  all_goals
    dsimp only
    rw [heq] at hv' ⊢
    exact hv'

/-- The first of the run queue is switched to. -/
theorem Models.pickNext {t : Nat} (h : Models R v) (hg : v.role t = .ready g)
    (hpop : Models (rqUnlink R none t) (v.pop t g)) (hsteady : Steady (rqUnlink R none t) (v.pop t g) (some t))
    (hf : (v.role R.current).frame = some f) (hl : v.locker = none) (hz : f ≠ .finished → R.zombies = none) :
    ∃ v', Landed (if f = .finished then gtTaskRunSwitch (rqUnlink R none t) t else gtSwitchTo (rqUnlink R none t) f t)
      (v.pop t g) t v' := by
  have hself : (v.pop t g).role t = .popped g := by simp [Roster.pop]
  split
  case isTrue hfin =>
    subst hfin
    have hne : R.current ≠ t := by
      rintro hct
      rw [hct, hg] at hf
      exact h.ok.frame_ok t g (.inl hg) (by simpa [Role.frame] using hf)
    exact hpop.taskRunSwitch hsteady hself (by simpa [Roster.pop, rqUnlink, hne] using hf) hl
  case isFalse hfin =>
    by_cases hct : t = R.current
    · have hgf : g = f := by
        rw [← hct, hg] at hf
        simpa [Role.frame] using hf
      exact hpop.switchTo (f := f) hsteady hself (.inr ⟨hct, hgf, hz hfin⟩) hl
    · exact hpop.switchTo (f := f) hsteady hself
        (.inl ⟨hct, by simpa [Roster.pop, rqUnlink, Ne.symm hct] using hf⟩) hl

theorem Live.pick (h : Models R v) (hs : Steady R v none) (hc : CtlOk R v (.pick f)) :
    ∃ v', Live (gtPick R f) v' := by
  obtain ⟨hf, hl, hp', hz⟩ := hc
  obtain ⟨v₁, h₁, hs₁, hp⟩ := Live.pollNow h hs
  have hR := gtIoPollNow_frame R
  have hf₁ : (v₁.role (gtIoPollNow R).current).frame = some f := by rw [hR.current]; exact hp.frame hf
  have hl₁ : v₁.locker = none := hp.locker.trans hl
  have hz₁ : f ≠ .finished → (gtIoPollNow R).zombies = none := fun hne => hR.zombies.trans (hz hne)
  unfold gtPick
  dsimp only
  rcases h₁.rqPop hs₁ with ⟨hready, heq⟩ | ⟨t, l, g, -, hg, heq, hpop, hsteady⟩
  · rw [heq]
    dsimp only
    split
    · exact ⟨v₁, h₁, hs₁, hf₁, hl₁, hp', hz₁⟩
    · rename_i hinf
      have hwait : v₁.waiting = [] := by
        rw [ne_eq, not_not, h₁.counts.inflight] at hinf
        exact List.eq_nil_of_length_eq_zero hinf
      refine ⟨v₁, h₁, hs₁, ?_, hl₁, hready, hwait, f, hf₁, hp'⟩
      split <;> simp
  · rw [heq]
    obtain ⟨v', hv'⟩ := h₁.pickNext hg hpop hsteady hf₁ hl₁ hz₁
    exact ⟨v', hv'.live⟩

/-- A handle resolves to a slot whose task is alive or waits to be collected. -/
theorem Models.resolve {handle : Int} {t : Nat} (h : Models R v) (hs : Steady R v none)
    (ht : gtResolve R handle = some t) : v.role t ≠ .unused ∧ v.role t ≠ .free ∧ v.role t ≠ .fresh := by
  unfold gtResolve at ht
  dsimp only at ht
  split at ht
  · cases ht
  · split at ht
    · cases ht
    · cases ht
      rename_i hlt hst
      refine ⟨fun hu => ?_, fun hf => ?_, fun hf => ?_⟩
      · have := (h.lists.unused_iff _).1 hu
        omega
      · exact hst (.inr (h.lists.state _ _ (by rw [hf]; rfl)))
      · have := hs.role (asUint32 handle &&& gtIdxMask) (by simp)
        rw [hf] at this
        cases this

theorem Live.await {handle : Int} (h : Models R v) (hs : Steady R v none) (hr : Runs R v) (hl : v.locker = none) :
    ∃ v', Live (gtAwait R handle) v' := by
  cases ht : gtResolve R handle with
  | none =>
    rw [gtAwait, ht]
    exact ⟨v, .code h hs hr hl _⟩
  | some t =>
    obtain ⟨hu, hfree, hfresh⟩ := h.resolve hs ht
    have hnz : v.role t ≠ .zombie := fun hzt => by
      have := hs.zombie t hzt
      rw [hr.zombies] at this
      cases this
    by_cases hcur : t = R.current
    · rw [gtAwait, ht]
      dsimp only
      rw [if_pos hcur]
      exact ⟨v, .code h hs hr hl _⟩
    · by_cases hd : (R.slots t).detached = true
      · rw [gtAwait, ht]
        dsimp only
        rw [if_neg hcur, if_pos hd]
        exact ⟨v, .code h hs hr hl _⟩
      · by_cases hst : (R.slots t).state = .done
        · have hdone : v.role t = .done := by
            have hrole := hs.role t (by simp)
            have hstate := h.lists.state t
            revert hu hfree hnz hrole hstate
            cases v.role t <;> simp [Role.steady, Role.state, hst]
          rw [gtAwait, ht]
          dsimp only
          rw [if_neg hcur, if_neg hd, if_neg (by simpa using hst)]
          obtain ⟨v', hv'⟩ := Live.awaitEnd (s := t) (h.late (w := R.current) hdone hs.collecting)
            ⟨hs.hand, hs.taken, rfl, hs.role, hs.zombie, hs.main⟩ ⟨hr.role, hr.zombies⟩ hl hdone rfl
          exact ⟨v', hv'.live⟩
        · have hunf : (v.role t).unfinished := by
            have hrole := hs.role t (by simp)
            have hstate := h.lists.state t
            revert hu hfree hfresh hnz hrole hstate
            cases v.role t <;> simp [Role.steady, Role.state, Role.unfinished, eq_comm, Ne.symm hst]
          rw [gtAwait_join ht hcur (by simpa using hd) hst]
          refine ⟨v.join R.current t, h.join hr.role hl hunf hcur (by simpa using hd), ⟨hs.hand, hs.taken,
            hs.collecting, fun i hi => ?_, fun i hi => ?_, Role.holds_update hs.main fun _ => rfl⟩, ?_, hl, id,
            fun _ => hr.zombies⟩
          · simp only [Roster.join, Function.update_apply]
            split
            · rfl
            · exact hs.role i hi
          · simp only [Roster.join, Function.update_apply] at hi
            split at hi
            · cases hi
            · exact hs.zombie i hi
          · simp [awaiting, Roster.join, Role.frame]

omit [IoBackend Io] [LawfulIoBackend Io] in
/-- A task that is never both awaited and detached has no awaiters when it is detached. -/
private theorem LogOk.alone {t : Nat} {log : List Ev} (h : LogOk R v) (hlog : NeverBoth log)
    (hsuf : .detached t :: R.log <:+ log) : v.joiners t = [] ∧ v.woken t = [] := by
  have hno : ∀ w, ¬(w ∈ v.joiners t ∨ w ∈ v.woken t) := fun w hw => by
    refine hlog _ hsuf t w (.inl ?_) ?_
    · rw [mem_occupancy_cons (by simp)]
      exact .inr (h.awaited t w hw)
    · rw [mem_occupancy_cons (by simp)]
      exact .inl rfl
  exact ⟨List.eq_nil_iff_forall_not_mem.2 fun w hw => hno w (.inl hw),
    List.eq_nil_iff_forall_not_mem.2 fun w hw => hno w (.inr hw)⟩

theorem Live.detach {handle : Int} (h : Models R v) (hs : Steady R v none) (hr : Runs R v) (hl : v.locker = none)
    (hlog : NeverBoth (gtDetach R handle).rt.log) : ∃ v', Live (gtDetach R handle) v' := by
  unfold gtDetach at hlog ⊢
  cases ht : gtResolve R handle with
  | none => exact ⟨v, .code h hs hr hl _⟩
  | some t =>
    rw [ht] at hlog
    obtain ⟨hu, hfree, hfresh⟩ := h.resolve hs ht
    have hnz : v.role t ≠ .zombie := fun hzt => by
      have := hs.zombie t hzt
      rw [hr.zombies] at this
      cases this
    dsimp only at hlog ⊢
    split
    · exact ⟨v, .code h hs hr hl _⟩
    · rename_i hcur
      rw [if_neg hcur] at hlog
      split
      · exact ⟨v, .code h hs hr hl _⟩
      · rename_i hd
        rw [if_neg hd] at hlog
        have hd' : (R.slots t).detached = false := by simpa using hd
        have hstate : (((R.modify t fun s => { s with detached := true }).note (.detached t)).slots t).state =
            (R.slots t).state := by simp [GtRuntime.modify, GtRuntime.note]
        rw [hstate] at hlog ⊢
        have hocc : (v.role t).occupied := by
          revert hu hfree
          cases v.role t <;> simp [Role.occupied]
        by_cases hst : (R.slots t).state = .done
        · have hdone : v.role t = .done := by
            have hrole := hs.role t (by simp)
            have hstate := h.lists.state t
            revert hu hfree hnz hrole hstate
            cases v.role t <;> simp [Role.steady, Role.state, hst]
          rw [if_pos hst] at hlog ⊢
          have heq := gtSlotFree_eq ((R.modify t fun s => { s with detached := true }).note (.detached t)) t
          obtain ⟨-, hw⟩ := h.logged.alone hlog (t := t) (by
            show _ <:+ (gtSlotFree _ t).log
            rw [heq]
            exact List.suffix_cons _ _)
          have hmod := h.detachDone hdone hw hr.zombies hs.collecting
          have hmain : t ≠ 0 := by
            rintro rfl
            have := hs.main
            rw [hdone] at this
            cases this
          refine ⟨v.retire t, hmod, ⟨hs.hand, hs.taken, hs.collecting, fun i hi => ?_, fun i hi => ?_,
            Role.holds_update hs.main fun h => absurd h hmain⟩, ⟨?_, ?_⟩, hl⟩
          · simp only [Roster.retire, Function.update_apply]
            split
            · rfl
            · exact hs.role i hi
          · simp only [Roster.retire, Function.update_apply] at hi
            split at hi
            · cases hi
            · show (gtSlotFree _ t).zombies = some i
              rw [heq]
              exact hs.zombie i hi
          · show (v.retire t).role (gtSlotFree _ t).current = .running
            rw [heq]
            simpa [Roster.retire, GtRuntime.note, GtRuntime.modify, Ne.symm hcur] using hr.role
          · show (gtSlotFree _ t).zombies = none
            rw [heq]
            exact hr.zombies
        · have hdone : v.role t ≠ .done := fun hdt => hst (h.lists.state t _ (by rw [hdt]; rfl))
          rw [if_neg hst] at hlog ⊢
          obtain ⟨hj, hw⟩ := h.logged.alone hlog (t := t) (List.suffix_refl _)
          have hspent : v.role t ≠ .spent := fun hsp => by
            have := hs.role t (by simp)
            rw [hsp] at this
            cases this
          exact ⟨v, h.detach hocc hfresh hdone hspent hd' hj hw, ⟨hs.1, hs.2, hs.3, hs.4, hs.5, hs.6⟩,
            ⟨hr.role, hr.zombies⟩, hl⟩

theorem Live.finish (h : Models R v) (hs : Steady R v none) (hr : Runs R v) (hl : v.locker = none)
    (hmain : R.current ≠ 0) : ∃ v', Live (gtTaskRunEnd R) v' := by
  obtain ⟨hmod, hz, hcur⟩ := h.taskRunEnd hr.role hl hr.zombies
  obtain ⟨hhand, htaken, hcollecting, hlock, hself, hrole⟩ := ended_same v R.current
  refine ⟨_, hmod, ⟨hhand.trans hs.hand, htaken.trans hs.taken, hcollecting.trans hs.collecting, fun i hi => ?_,
    fun i hi => ?_, ?_⟩, ?_, hlock.trans hl, id, fun h => absurd rfl h⟩
  · by_cases hic : i = R.current
    · rw [hic, hself]; rfl
    · rcases hrole i hic with hri | hri
      · rw [hri]; exact hs.role i hi
      · rw [hri]; rfl
  · by_cases hic : i = R.current
    · rw [hic]; exact hz
    · rcases hrole i hic with hri | hri
      · have := hs.zombie i (by rw [← hri, hi])
        rw [hr.zombies] at this
        cases this
      · rw [hri] at hi; cases hi
  · rcases hrole 0 hmain.symm with hri | hri
    · rw [hri]; exact hs.main
    · rw [hri]; rfl
  · rw [hcur, hself]; rfl

theorem Live.io {req : IoBackend.Req Io} (h : Models R v) (hs : Steady R v none) (hr : Runs R v)
    (hl : v.locker = none) (hlog : AllAccepted (gtIoCall R req).rt.log) : ∃ v', Live (gtIoCall R req) v' := by
  by_cases hrdy : IoBackend.ready R.io = true
  · cases hsub : IoBackend.submit req R.current R.io with
    | declined =>
      unfold gtIoCall
      simp only [hrdy, hsub, Bool.true_eq_false, ↓reduceIte]
      exact ⟨v, .code h hs hr hl 0⟩
    | refused io errno =>
      unfold gtIoCall at hlog
      simp only [hrdy, hsub, Bool.true_eq_false, ↓reduceIte] at hlog
      exact absurd (List.mem_cons_self ..) (hlog R.current)
    | parked io op =>
      obtain ⟨hio, hp⟩ := LawfulIoBackend.submit R.io io req R.current op h.counts.io_ok hsub
      rw [gtIoCall_parked hrdy hsub]
      refine ⟨v.park R.current op, h.park hr.role hl hs.taken hio hp,
        ⟨hs.hand, hs.taken, hs.collecting, fun i hi => ?_, fun i hi => ?_, Role.holds_update hs.main fun _ => rfl⟩,
        ?_, hl, id, fun _ => hr.zombies⟩
      · simp only [Roster.park, Function.update_apply]
        split
        · rfl
        · exact hs.role i hi
      · simp only [Roster.park, Function.update_apply] at hi
        split at hi
        · cases hi
        · exact hs.zombie i hi
      · simp [parked, Roster.park, Role.frame]
  · unfold gtIoCall
    rw [if_pos (by simpa using hrdy)]
    exact ⟨v, .code h hs hr hl 0⟩

/-! ### Locks -/

theorem Live.lockUntil {lock : Nat} {clock : Int} {deadline : Option Timespec} {use : LockUse} (h : Models R v)
    (hs : Steady R v none) (hr : Runs R v) (hl : v.locker = none) :
    Live (gtLockUntil R lock clock deadline use) v :=
  ⟨h.setEntry hr.role hl _, ⟨hs.1, hs.2, hs.3, hs.4, hs.5, hs.6⟩, ⟨hr.role, hr.zombies⟩, hl, by simp [gtLockUntil]⟩

theorem Live.lockUntilEnd {c : LockCall} {err : Int} (h : Models R v) (hs : Steady R v none) (hr : Runs R v)
    (hl : v.locker = if c.queued then some R.current else none) : ∃ v', Live (gtLockUntilEnd R c err) v' := by
  obtain ⟨v₁, h₁, hs₁, hr₁, hl₁⟩ : ∃ v₁, Models (if c.queued then gtLockWaitRemove R R.current else R) v₁ ∧
      Steady (if c.queued then gtLockWaitRemove R R.current else R) v₁ none ∧
      Runs (if c.queued then gtLockWaitRemove R R.current else R) v₁ ∧ v₁.locker = none := by
    cases hq : c.queued with
    | false =>
      rw [hq] at hl
      exact ⟨v, h, hs, hr, hl⟩
    | true =>
      rw [hq] at hl
      have hR : (gtLockWaitRemove R R.current).current = R.current ∧
          (gtLockWaitRemove R R.current).zombies = R.zombies := by
        unfold gtLockWaitRemove
        split
        · exact ⟨rfl, rfl⟩
        · split <;> exact ⟨rfl, rfl⟩
      refine ⟨v.dequeue R.current, h.dequeue hl, ⟨hs.hand, hs.taken, hs.collecting, hs.role, fun i hi => ?_, hs.main⟩,
        ⟨?_, ?_⟩, rfl⟩
      · exact hR.2.trans (hs.zombie i hi)
      · exact (congrArg v.role hR.1).trans hr.role
      · exact hR.2.trans hr.zombies
  unfold gtLockUntilEnd
  dsimp only
  split
  · exact ⟨v₁, .code h₁ hs₁ hr₁ hl₁ _⟩
  · split
    · exact ⟨v₁, .code h₁ hs₁ hr₁ hl₁ _⟩
    · exact ⟨v₁, h₁, hs₁, hr₁, hl₁⟩

/-- The running task, about to wait for a lock, puts its entry on the queue. -/
theorem Live.lineUp {x : GtLockWaiter} (h : Models R v) (hs : Steady R v none) (hr : Runs R v) (hl : v.locker = none)
    (hx : x.task = some R.current) {R' : GtRuntime Io}
    (hR' : R' = (gtLockWaitAdd { R with lockWaiter := Function.update R.lockWaiter R.current x } R.current).note
      (.queued R.current)) :
    ∃ v', Models R' v' ∧ Steady R' v' none ∧ Runs R' v' ∧ v'.locker = some R'.current ∧
      (R'.lockWaiter R'.current).lock = x.lock := by
  obtain ⟨hadd, hsame⟩ := (h.setEntry hr.role hl x).enqueue hr.role hl (by simpa using hx)
  have hfields : R'.current = R.current ∧ R'.zombies = R.zombies := by
    rw [hR']
    unfold gtLockWaitAdd
    dsimp only [GtRuntime.note]
    split <;> exact ⟨rfl, rfl⟩
  rw [← hR'] at hadd hsame
  refine ⟨v.enqueue R.current, hadd, ⟨hs.hand, hs.taken, hs.collecting, hs.role, fun i hi => ?_, hs.main⟩, ⟨?_, ?_⟩,
    ?_, ?_⟩
  · exact hfields.2.trans (hs.zombie i hi)
  · exact (congrArg v.role hfields.1).trans hr.role
  · exact hfields.2.trans hr.zombies
  · exact (congrArg some hfields.1).symm
  · rw [hfields.1, hsame]
    simp

/-- A turn of the wait, with the entry on the queue. -/
private theorem Live.lockStep {c : LockCall} (h : Models R v) (hs : Steady R v none) (hr : Runs R v)
    (hl : v.locker = some R.current) (hlock : (R.lockWaiter R.current).lock = c.lock) (hc : c.queued = true) :
    ∃ v', Live (gtStep R (.stepped c) (.lockWait c)) v' := by
  obtain ⟨v', hv'⟩ := h.step (f := .stepped c) hs hr trivial (by simp [hl]) (.inr hl)
    (by rintro c' ⟨⟩; exact ⟨hlock, hc⟩) ⟨R, .lockWait c, 0⟩ ⟨v, h, hs, hr, by rw [hc]; exact hl, hlock⟩
  refine ⟨v', ?_⟩
  unfold gtStep
  rcases h.rqPop hs with ⟨-, heq⟩ | ⟨t, l, g, -, -, heq, -⟩
  all_goals
    rw [heq] at hv' ⊢
    exact hv'

theorem Live.lockTurn {c : LockCall} {err : Int} {now : Timespec} (h : Models R v) (hs : Steady R v none)
    (hr : Runs R v) (hl : v.locker = if c.queued then some R.current else none)
    (hlock : (R.lockWaiter R.current).lock = c.lock) : ∃ v', Live (gtLockTurn R c err now) v' := by
  unfold gtLockTurn
  split
  · exact Live.lockUntilEnd h hs hr hl
  · obtain ⟨v₁, h₁, hs₁, hp⟩ := Live.pollNow h hs
    have hR := gtIoPollNow_frame R
    have hr₁ := hr.poll hp hR
    have hl₁ : v₁.locker = if c.queued then some (gtIoPollNow R).current else none := by
      rw [hR.current]
      exact hp.locker.trans hl
    have hlock₁ : ((gtIoPollNow R).lockWaiter (gtIoPollNow R).current).lock = c.lock := by
      rw [hR.lockWaiter, hR.current]
      exact hlock
    generalize gtIoPollNow R = R₁ at h₁ hs₁ hr₁ hl₁ hlock₁
    dsimp only
    split
    · exact ⟨v₁, h₁, hs₁, hr₁, hl₁, hlock₁⟩
    · split
      · exact Live.lockUntilEnd h₁ hs₁ hr₁ hl₁
      · cases hq : c.queued with
        | true =>
          rw [hq] at hl₁
          exact Live.lockStep h₁ hs₁ hr₁ hl₁ hlock₁ rfl
        | false =>
          rw [hq] at hl₁
          obtain ⟨v₂, h₂, hs₂, hr₂, hl₂, hlock₂⟩ := Live.lineUp h₁ hs₁ hr₁ hl₁ (x :=
            { R₁.lockWaiter R₁.current with task := some R₁.current }) rfl rfl
          exact Live.lockStep h₂ hs₂ hr₂ hl₂ (hlock₂.trans hlock₁) rfl

/-- The release of a lock: the earliest waiter of that lock runs next, or the running task goes on. -/
theorem Models.lockReleased (h : Models R v) (lock : Nat) (hs : Steady R v none) (hr : Runs R v)
    (hl : v.locker = none) (hf : Roster.GivesWay f) (hns : ∀ c, f ≠ .stepped c) :
    (nextWaiter R v lock = none ∧ gtLockReleased R lock f = gtResume R f) ∨
    ∃ t, nextWaiter R v lock = some t ∧ t ∈ v.ready ∧ ∃ v', Live (gtLockReleased R lock f) v' ∧
      (gtLockReleased R lock f).rt.current = t ∧ v'.ready = v.ready.erase t ++ [R.current] ∧ v'.queue = v.queue := by
  have hready : ∀ i ∈ v.queue, ∃ g, v.role i = .ready g := fun i hi => by
    rcases (h.ok.queue_iff i).1 hi with ⟨c, hc | hc⟩ | hc
    · exact ⟨_, hc⟩
    · have := hs.role i (by simp)
      rw [hc] at this
      cases this
    · rw [hl] at hc
      cases hc
  have hlen := h.lists.queue_le h.ok h.locks.queue.nodup
  unfold gtLockReleased
  rcases gtLockReleasedFrom_eq lock (n := loopBound R) h h.locks.queue h.locks.entry hready
    (by simp [loopBound]; omega) with ⟨hnone, heq⟩ | ⟨t, l₁, l₂, hsome, hr', heq⟩
  · rw [heq]
    exact .inl ⟨hnone, rfl⟩
  · rw [heq]
    have hmem : t ∈ v.ready := by rw [hr']; simp
    obtain ⟨g, hg⟩ := (h.ok.ready_iff t).1 hmem
    have hne : R.current ≠ t := by rintro rfl; have := hr.role; rw [hg] at this; cases this
    have hsteady : Steady (rqUnlink R l₁.getLast? t) (v.pop t g) (some t) := by
      refine ⟨hs.hand, hs.taken, hs.collecting, fun i hi => ?_, fun i hi => ?_, Role.holds_update hs.main fun _ =>
        rfl⟩
      · have hit : i ≠ t := by rintro rfl; exact hi rfl
        simpa [Roster.pop, hit] using hs.role i (by simp)
      · have hit : i ≠ t := by rintro rfl; simp [Roster.pop] at hi
        exact hs.zombie i (by simpa [Roster.pop, hit] using hi)
    have hruns : Runs (rqUnlink R l₁.getLast? t) (v.pop t g) :=
      ⟨by simpa [Roster.pop, rqUnlink, hne] using hr.role, hr.zombies⟩
    have hlock : (v.pop t g).locker = none := hl
    obtain ⟨v', hv'⟩ := (h.pop hg hr').giveWay (f := f) (g := g) hsteady hruns (by simp [Roster.pop]) hf
      (by simp [hlock, hns]) (.inl hlock) (fun c hc => absurd hc (hns c))
    exact .inr ⟨t, hsome, hmem, v', hv'.live, hv'.current, hv'.ready, hv'.queue⟩

theorem Live.lockReleased {lock : Nat} (h : Models R v) (hs : Steady R v none) (hr : Runs R v) (hl : v.locker = none)
    (hf : Roster.GivesWay f) (hns : ∀ c, f ≠ .stepped c) (hgo : Live (gtResume R f) v) :
    ∃ v', Live (gtLockReleased R lock f) v' := by
  rcases h.lockReleased lock hs hr hl hf hns with ⟨-, heq⟩ | ⟨t, -, -, v', hv', -⟩
  · rw [heq]
    exact ⟨v, hgo⟩
  · exact ⟨v', hv'⟩

theorem Live.unlock {lock : Nat} {err : Int} (h : Models R v) (hs : Steady R v none) (hr : Runs R v)
    (hl : v.locker = none) : ∃ v', Live (gtUnlock R lock err) v' := by
  unfold gtUnlock
  split
  · exact Live.lockReleased h hs hr hl trivial (by simp) (.code h hs hr hl 0)
  · exact ⟨v, .code h hs hr hl err⟩

theorem Live.condWaitUntil {k : CondWait} {err : Int} (h : Models R v) (hs : Steady R v none) (hr : Runs R v)
    (hl : v.locker = none) : ∃ v', Live (gtCondWaitUntil R k err) v' := by
  obtain ⟨v₁, h₁, hs₁, hp⟩ := Live.pollNow h hs
  have hr₁ := hr.poll hp (gtIoPollNow_frame R)
  have hl₁ : v₁.locker = none := hp.locker.trans hl
  unfold gtCondWaitUntil
  dsimp only
  split
  · exact ⟨v₁, h₁, hs₁, hr₁, hl₁⟩
  · split
    · exact Live.lockReleased h₁ hs₁ hr₁ hl₁ trivial (by simp) ⟨h₁, hs₁, hr₁, hl₁⟩
    · exact ⟨v₁, .code h₁ hs₁ hr₁ hl₁ err⟩

theorem Live.condReleased {k : CondWait} (h : Models R v) (hs : Steady R v none) (hr : Runs R v)
    (hl : v.locker = none) : ∃ v', Live (gtCondReleased R k) v' := by
  obtain ⟨v₁, h₁, hs₁, hp⟩ := Live.pollNow h hs
  have hr₁ := hr.poll hp (gtIoPollNow_frame R)
  have hl₁ : v₁.locker = none := hp.locker.trans hl
  unfold gtCondReleased
  dsimp only
  split
  · have hstep := h₁.step (f := .condStepped k) hs₁ hr₁ trivial (by simp [hl₁]) (.inl hl₁) (by simp)
      ⟨gtIoPollNow R, .condPoll k, 0⟩ ⟨v₁, h₁, hs₁, hr₁, hl₁⟩
    obtain ⟨v', hv'⟩ := hstep
    refine ⟨v', ?_⟩
    unfold gtStep
    rcases h₁.rqPop hs₁ with ⟨-, heq⟩ | ⟨t, l, g, -, -, heq, -⟩
    all_goals
      rw [heq] at hv' ⊢
      exact hv'
  · exact ⟨v₁, Live.lockUntil h₁ hs₁ hr₁ hl₁⟩

/-! ### Draining -/

theorem Live.drain (h : Models R v) (hs : Steady R v none) (hr : Runs R v) (hl : v.locker = none) :
    ∃ v', Live (gtDrain R) v' := by
  unfold gtDrain
  split
  · split
    · rename_i hinf
      have hw : v.waiting = [] := List.eq_nil_of_length_eq_zero (h.counts.inflight ▸ hinf)
      obtain ⟨hio, hp⟩ := LawfulIoBackend.teardown R.io h.counts.io_ok
      have hmod : Models _ v := h.setIo hio (by rw [hp, hs.taken, hw]; exact .refl _) rfl
      rw [if_neg (by simp [hr.zombies])]
      refine ⟨v, ?_, ⟨hs.1, hs.2, hs.3, hs.4, hs.5, hs.6⟩, ⟨hr.role, hr.zombies⟩, hl⟩
      have hset : ({ R with io := IoBackend.teardown R.io, inflight := 0 } : GtRuntime Io) =
          { R with io := IoBackend.teardown R.io } := by rw [← hinf]
      simpa [toCode, hset] using hmod
    · exact ⟨v, h, hs, hr, hl⟩
  · have hstep := h.step (f := .drained) hs hr trivial (by simp [hl]) (.inl hl) (by simp)
      ⟨R, .drain, 0⟩ ⟨v, h, hs, hr, hl⟩
    obtain ⟨v', hv'⟩ := hstep
    refine ⟨v', ?_⟩
    rcases h.rqPop hs with ⟨-, heq⟩ | ⟨t, l, g, -, -, heq, -⟩
    all_goals
      rw [heq] at hv' ⊢
      exact hv'

end Sppc
