import Sppc.Switching

/-!
# Awaiting and finishing

An await registers (`join`), its task finishes (`finish`), wakes its awaiters (`wake`) and leaves its stack to be
released (`bury`); a woken awaiter goes on (`run`) and collects.
-/

namespace Sppc

open LinkedList

variable {Io : Type} [IoBackend Io] [LawfulIoBackend Io] {R : GtRuntime Io} {v : Roster} {t w s : Nat}

/-! ### The awaiter's end -/

/-- There are no more awaiters of a task than slots. -/
private theorem Models.njoiners_le (h : Models R v) (hocc : (v.role s).occupied) :
    (R.slots s).njoiners ≤ 2 ^ 20 := by
  have h1 : (v.joiners s).length ≤ R.nslots := h.lists.length_le (h.lists.joiners s).nodup fun i hi => by
    simp [(h.ok.joiners_iff i s).1 hi]
  have h2 : (v.woken s).length ≤ R.nslots := h.lists.length_le (h.ok.woken_nodup s) fun i hi => by
    rcases (h.ok.woken_iff i s).1 hi with hi | hi <;> simp [hi]
  have := h.counts.nslots_le
  rw [h.counts.njoiners s hocc]
  omega

/-- A woken awaiter goes on. -/
theorem Models.resumed (h : Models R v) (ht : v.role t = .popped (.joined s)) (hcur : R.current = t)
    (hst : (R.slots t).state = .running) (hl : v.locker = none) (hc : v.collecting = none) :
    Models ((R.modify s fun b => { b with njoiners := decr 32 b.njoiners }).note (.resumed t s))
      (v.run t (.joined s)) := by
  have hmem : t ∈ v.woken s := (h.ok.woken_iff t s).2 (.inr ht)
  have hdone := h.ok.woken_done t s hmem
  have hocc : (v.role s).occupied := by rcases hdone with hd | hd | hd <;> rw [hd] <;> rfl
  have hstage : (v.role s).stage = .returned := by rcases hdone with hd | hd | hd <;> rw [hd] <;> rfl
  have hst' : s ≠ t := by rintro rfl; rcases hdone with hd | hd | hd <;> rw [ht] at hd <;> cases hd
  have hnj := h.counts.njoiners s hocc
  have hle := h.njoiners_le hocc
  have hpos := List.length_pos_of_mem hmem
  have hdecr : decr 32 (R.slots s).njoiners = (R.slots s).njoiners - 1 := decr_of_pos (by omega) (by omega)
  have hlen := List.length_erase_of_mem hmem
  have hslots : ∀ i, ((R.modify s fun b => { b with njoiners := decr 32 b.njoiners }).note (.resumed t s)).slots i =
      { R.slots i with njoiners := if i = s then decr 32 (R.slots s).njoiners
        else (R.slots i).njoiners } := fun i => by
    simp only [GtRuntime.modify, GtRuntime.note, Function.update_apply]
    split
    · subst i; rfl
    · rfl
  have hrole : (v.run t (.joined s)).role = Function.update v.role t .running := rfl
  refine ⟨h.ok.run ht hl, ?_, ?_, ?_, ?_, ?_⟩
  · obtain ⟨h1, h2, h3, h4, h5, h6, h7, h8, h9⟩ := h.lists
    refine ⟨?_, ?_, ?_, h4, ?_, ?_, ?_, ?_, ?_⟩
    all_goals simp only [hslots, hrole, Function.update_apply]
    · grind [GtRuntime.note, GtRuntime.modify]
    · grind [Role.state]
    · exact h3
    · exact h5
    · exact h6
    · intro z hz
      have := h7 z hz
      grind
    · grind [GtRuntime.note, GtRuntime.modify]
    · grind [GtRuntime.note, GtRuntime.modify, Role.frame]
  · refine h.locks.congr rfl rfl (fun w => arrival_cons (by simp)) rfl ?_
    simp only [hrole, Function.update_apply]
    grind
  · obtain ⟨c1, c2, c3, c4, c5, c6, c7, c8⟩ := h.counts
    refine ⟨?_, ?_, ?_, c4, c5, c6, c7, c8⟩
    all_goals simp only [hslots, Roster.run, Function.update_apply]
    · intro i hi
      by_cases his : i = s
      · subst his
        simp only [↓reduceIte]
        omega
      · simp only [his, ↓reduceIte]
        exact c1 i (by split at hi <;> simp_all [Role.occupied])
    · intro i hi hd
      have := c2 i (by split at hi <;> simp_all [Role.occupied]) hd
      split
      · subst i
        simp [this]
      · exact this
    · intro i hi
      split at hi
      · cases hi
      · exact c3 i hi
  · refine h.logged.cons rfl rfl (by simp) hocc ?_ ?_ ?_ (fun i _ => by rw [hslots]) (fun _ _ => rfl) ?_ ?_ ?_ ?_ ?_
    · simp only [Roster.run, Function.update_of_ne hst', Function.update_self, hslots]
      simp [Life.step, hstage, hmem, Roster.collects, hc]
    · intro i _
      simp only [hrole, Function.update_apply]
      grind [Role.occupied]
    · intro i _
      simp only [hrole, Function.update_apply]
      grind [Role.stage]
    · intro i hi
      simp [Roster.run, hi]
    · intro i hi
      simp [Roster.run, Roster.collects, hc, Ne.symm hi]
    · rw [hrole, Function.update_of_ne hst']
      exact hocc
    · intro w hw
      simp only [Roster.run, Function.update_self] at hw
      exact .inr (hw.imp id List.mem_of_mem_erase)
    · simp only [hrole, Function.update_apply]
      grind
  · refine h.envs.congr (fun id => envStage_other (by simp [Ev.env])) ?_ ?_ ?_ rfl
    · simp only [hrole, Function.update_apply]; grind [Role.holds]
    · simp only [hrole, Function.update_apply]; grind [Role.holds, Role.stage]
    · intro i _
      rw [hslots]

/-- An event about a slot's life that changes nothing but who is about to collect. -/
private theorem Models.note_life {e : Ev} {c : Option Nat} (h : Models R v) (he : e.slot = some s)
    (halloc : e ≠ .alloc s) (hocc : (v.role s).occupied) (hc : ∀ i, i ≠ s → v.collecting ≠ some i ∧ c ≠ some i)
    (hlife : Life.step s ⟨(v.role s).stage, (R.slots s).detached, v.joiners s, v.woken s, v.collects s⟩ e =
      some ⟨(v.role s).stage, (R.slots s).detached, v.joiners s, v.woken s, c == some s⟩) :
    Models (R.note e) { v with collecting := c } := by
  obtain ⟨⟨o1, o2, o3, o4, o5, o6, o7, o8, o9, o10, o11, o12⟩, ⟨h1, h2, h3, h4, h5, h6, h7, h8, h9⟩, hlocks, hcounts,
    hlog, henvs⟩ := h
  refine ⟨⟨o1, o2, o3, o4, o5, o6, o7, o8, o9, o10, o11, o12⟩, ⟨h1, h2, h3, h4, h5, h6, h7, h8, h9⟩, ?_, ?_, ?_, ?_⟩
  · exact hlocks.congr rfl rfl (fun w => arrival_cons (by rintro rfl; cases he)) rfl fun _ _ h => h
  · exact hcounts.congr (fun _ => rfl) (fun _ => rfl) rfl rfl rfl rfl (fun _ => rfl) (fun _ h => h) rfl rfl rfl rfl
      rfl
  · refine hlog.cons rfl he halloc hocc hlife (fun _ _ => rfl) (fun _ _ => rfl) (fun _ _ => rfl) (fun _ _ => rfl)
      (fun _ _ => rfl) (fun i hi => ?_) hocc (fun w hw => .inr hw) fun _ _ h => h
    obtain ⟨hv, hc⟩ := hc i hi
    simp [Roster.collects, hv, hc]
  · exact henvs.congr (fun id => envStage_other (by simp [Ev.env_of_slot he])) (fun _ => rfl) (fun _ _ => Iff.rfl)
      (fun _ _ => rfl) rfl

/-- The running task awaits `s`, which has finished. -/
theorem Models.late (h : Models R v) (hs : v.role s = .done) (hc : v.collecting = none) :
    Models (R.note (.late w s)) (v.late s) := by
  refine h.note_life rfl (by simp) (by rw [hs]; rfl) (fun i hi => ⟨by simp [hc], by simpa using Ne.symm hi⟩) ?_
  simp [Life.step, hs, Role.stage, h.counts.collectable s hs, Roster.collects, hc]

/-- The running task has the result of `s`, for which others wait. -/
theorem Models.collected (h : Models R v) (hs : v.role s = .done) (hw : v.role w = .running)
    (hc : v.collecting = some s) (hk : v.woken s ≠ []) : Models (R.note (.collected w s)) v.collect := by
  have hwj : w ∉ v.joiners s := by rw [h.ok.joiners_iff, hw]; simp
  have hwk : w ∉ v.woken s := by rw [h.ok.woken_iff, hw]; simp
  refine h.note_life rfl (by simp) (by rw [hs]; rfl) (fun i hi => ⟨by simpa [hc] using Ne.symm hi, by simp⟩) ?_
  simp [Life.step, hs, Role.stage, hwj, hwk, hk, Roster.collects, hc]

/-- The running task has the result of `s`, for which nobody waits any more. -/
theorem Models.spent (h : Models R v) (hs : v.role s = .done) (hc : v.collecting = some s) (hk : v.woken s = []) :
    Models (R.note (.collected w s)) (v.spend s) := by
  have hj : v.joiners s = [] := h.ok.joiners_nil (by rw [hs]; rfl)
  have hrole : (v.spend s).role = Function.update v.role s .spent := rfl
  refine ⟨h.ok.spend hs hk, ?_, ?_, ?_, ?_, ?_⟩
  · obtain ⟨h1, h2, h3, h4, h5, h6, h7, h8, h9⟩ := h.lists
    refine ⟨?_, ?_, h3, h4, h5, h6, ?_, ?_, ?_⟩
    all_goals simp only [hrole, Function.update_apply]
    · grind [GtRuntime.note]
    · grind [Role.state, GtRuntime.note]
    · intro z hz
      have := h7 z hz
      grind [GtRuntime.note]
    · grind [GtRuntime.note]
    · grind [Role.frame, GtRuntime.note]
  · refine h.locks.congr rfl rfl (fun w => arrival_cons (by simp)) rfl ?_
    simp only [hrole, Function.update_apply]
    grind
  · refine h.counts.congr (fun _ => rfl) (fun _ => rfl) rfl rfl rfl rfl ?_ ?_ rfl rfl rfl rfl rfl
    all_goals simp only [hrole, Function.update_apply]
    all_goals grind [Role.occupied]
  · refine h.logged.cons (t := s) rfl rfl (by simp) (by rw [hs]; rfl) ?_ ?_ ?_ (fun _ _ => rfl) (fun _ _ => rfl)
      (fun _ _ => rfl) ?_ ?_ (fun w hw => .inr hw) ?_
    · have hstage : ((v.spend s).role s).stage = .spent := by simp [hrole, Role.stage]
      rw [hstage]
      simp [Life.step, hs, Role.stage, hj, hk, Roster.collects, hc, Roster.spend, GtRuntime.note]
    · intro i hi
      simp [hrole, hi]
    · intro i hi
      simp [hrole, hi]
    · intro i hi
      simp [Roster.collects, Roster.spend, hc, Ne.symm hi]
    · simp [hrole, Role.occupied]
    · simp only [hrole, Function.update_apply]
      grind
  · refine h.envs.congr (fun id => envStage_other (by simp [Ev.env])) ?_ ?_ (fun _ _ => rfl) rfl
    all_goals simp only [hrole, Function.update_apply]
    all_goals grind [Role.holds, Role.stage]

/-- The abstract state once an awaiter of `s` has collected: the last one hands the slot back. -/
def collectedBy (R : GtRuntime Io) (v : Roster) (s : Nat) : Roster :=
  if (R.slots s).njoiners = 0 then (v.spend s).retire s else v.collect

/-- The end of an await. -/
theorem Models.awaitEnd (h : Models R v) (hs : v.role s = .done) (hw : v.role w = .running)
    (hc : v.collecting = some s) (hz : R.zombies = none) :
    Models (gtAwaitEnd R w s).rt (collectedBy R v s) := by
  have hj : v.joiners s = [] := h.ok.joiners_nil (by rw [hs]; rfl)
  have hnj := h.counts.njoiners s (by rw [hs]; rfl)
  unfold gtAwaitEnd toCode collectedBy
  have hslots : (R.note (.collected w s)).slots s = R.slots s := rfl
  dsimp only
  rw [hslots]
  split
  case isTrue hn =>
    have hk : v.woken s = [] := List.eq_nil_of_length_eq_zero (by omega)
    have hrole : (v.spend s).role s = .spent := by simp [Roster.spend]
    refine (h.spent hs hc hk).retire (.inr (.inl hrole)) (by simp [hrole]) hk ?_ rfl
    simp [GtRuntime.note, hz]
  case isFalse hn =>
    refine h.collected hs hw hc fun hk => hn ?_
    rw [hnj, hj, hk]
    rfl

/-! ### Registering -/

/-- The runtime once the running task has registered on `t`. -/
def awaiting (R : GtRuntime Io) (t : Nat) : GtRuntime Io :=
  { R with
    slots := fun i => { R.slots i with
      wnext := if i = R.current then (R.slots t).waiters else (R.slots i).wnext
      waiters := if i = t then some R.current else (R.slots i).waiters
      njoiners := if i = t then incr 32 (R.slots i).njoiners else (R.slots i).njoiners
      state := if i = R.current then .joining else (R.slots i).state }
    log := .joined R.current t :: R.log }

omit [IoBackend Io] [LawfulIoBackend Io] in
/-- What an await of an unfinished task does. -/
theorem gtAwait_join {handle : Int} (ht : gtResolve R handle = some t) (hne : t ≠ R.current)
    (hd : (R.slots t).detached = false) (hst : (R.slots t).state ≠ .done) :
    gtAwait R handle = ⟨awaiting R t, .pick (.joined t), 0⟩ := by
  unfold gtAwait
  simp only [ht, hne, hd, hst, ↓reduceIte, ne_eq, not_false_eq_true, Bool.false_eq_true]
  unfold gtBlock awaiting GtRuntime.modify GtRuntime.note
  simp only [Machine.mk.injEq, GtRuntime.mk.injEq, true_and, and_true]
  funext i
  simp only [Function.update_apply]
  by_cases hi : i = R.current
  · subst hi
    simp [hne.symm]
  · by_cases hit : i = t
    · subst hit
      simp [hi]
    · simp [hi, hit]

theorem Models.join (h : Models R v) (hrun : v.role R.current = .running) (hl : v.locker = none)
    (ht : (v.role t).unfinished) (hne : t ≠ R.current) (hd : (R.slots t).detached = false) :
    Models (awaiting R t) (v.join R.current t) := by
  have hself : R.current ∉ v.joiners t := by rw [h.ok.joiners_iff, hrun]; simp
  have hocc : (v.role t).occupied := by
    revert ht
    cases v.role t <;> simp [Role.unfinished, Role.occupied]
  have hstage : (v.role t).stage = .spawned ∨ (v.role t).stage = .started := by
    have hend : v.role t ≠ .ending := fun he => hne (h.lists.running t (.inr he))
    revert ht hend
    cases v.role t with
    | ready f => cases f <;> simp [Role.stage]
    | popped f => cases f <;> simp [Role.stage]
    | _ => simp [Role.unfinished, Role.stage]
  have hle := h.njoiners_le hocc
  have hincr : incr 32 (R.slots t).njoiners = (R.slots t).njoiners + 1 := incr_of_lt (by omega)
  have hrole : (v.join R.current t).role = Function.update v.role R.current (.joining t) := rfl
  refine ⟨h.ok.join hrun hl ht, ?_, ?_, ?_, ?_, ?_⟩
  · obtain ⟨h1, h2, h3, h4, h5, h6, h7, h8, h9⟩ := h.lists
    refine ⟨?_, ?_, h3, h4, h5, ?_, ?_, ?_, ?_⟩
    · simp only [hrole, Function.update_apply, awaiting]; grind
    · simp only [hrole, Function.update_apply, awaiting]; grind [Role.state]
    · intro u
      have hother : ∀ b ∈ v.joiners u, ((awaiting R t).slots b).wnext = (R.slots b).wnext := fun b hb => by
        have hbc : b ≠ R.current := by
          rintro rfl
          rw [(h.ok.joiners_iff _ u).1 hb] at hrun
          cases hrun
        simp [awaiting, hbc]
      by_cases hut : u = t
      · subst hut
        have hlink : Linked (fun i => ((awaiting R u).slots i).wnext) (some R.current) (R.current :: v.joiners u) :=
          (h6 u).push_front (by simp [awaiting]) hother
        simpa [awaiting, Roster.join] using hlink
      · have hlink : Linked (fun i => ((awaiting R t).slots i).wnext) (R.slots u).waiters (v.joiners u) :=
          (h6 u).congr hother
        simpa [awaiting, Roster.join, hut] using hlink
    · simp only [hrole, Function.update_apply, awaiting]; grind
    · simp only [hrole, Function.update_apply, awaiting]; grind
    · simp only [hrole, Function.update_apply, awaiting]; grind [Role.frame]
  · refine h.locks.congr rfl rfl (fun w => arrival_cons (by simp)) rfl ?_
    simp only [hrole, Function.update_apply]
    grind
  · obtain ⟨c1, c2, c3, c4, c5, c6, c7, c8⟩ := h.counts
    refine ⟨?_, ?_, ?_, c4, c5, c6, c7, c8⟩
    all_goals simp only [awaiting, Roster.join, Function.update_apply]
    · intro i hi
      have hocci : (v.role i).occupied := by split at hi <;> simp_all [Role.occupied]
      have := c1 i hocci
      split
      · subst i
        simp only [List.length_cons]
        omega
      · exact this
    · intro i hi hdi
      have hit : i ≠ t := by rintro rfl; rw [hd] at hdi; cases hdi
      rw [if_neg hit]
      exact c2 i (by split at hi <;> simp_all [Role.occupied]) hdi
    · intro i hi
      split at hi
      · cases hi
      · exact c3 i hi
  · refine h.logged.cons rfl rfl (by simp) hocc ?_ ?_ ?_ (fun _ _ => rfl) ?_ (fun _ _ => rfl) (fun _ _ => rfl) ?_ ?_
      ?_
    · have hstep : ((v.join R.current t).role t).stage = (v.role t).stage := by simp [hrole, hne]
      rw [hstep]
      simp [Life.step, hstage, hd, hself, Roster.join, awaiting, Roster.collects]
    · simp only [hrole, Function.update_apply]
      grind [Role.occupied]
    · simp only [hrole, Function.update_apply]
      grind [Role.stage]
    · intro i hi
      simp [Roster.join, hi]
    · simpa [hrole, hne] using hocc
    · intro w hw
      simp only [Roster.join, Function.update_self, List.mem_cons] at hw
      rcases hw with (rfl | hw) | hw
      · exact .inl rfl
      · exact .inr (.inl hw)
      · exact .inr (.inr hw)
    · simp only [hrole, Function.update_apply]
      grind
  · refine h.envs.congr (fun id => envStage_other (by simp [Ev.env])) ?_ ?_ (fun _ _ => rfl) rfl
    · simp only [hrole, Function.update_apply]; grind [Role.holds]
    · simp only [hrole, Function.update_apply]; grind [Role.holds, Role.stage]

/-! ### Detaching -/

/-- A task that nobody awaits is detached. -/
theorem Models.detach (h : Models R v) (hocc : (v.role t).occupied) (hfresh : v.role t ≠ .fresh)
    (hdone : v.role t ≠ .done) (hspent : v.role t ≠ .spent) (hd : (R.slots t).detached = false)
    (hj : v.joiners t = []) (hw : v.woken t = []) :
    Models ((R.modify t fun s => { s with detached := true }).note (.detached t)) v := by
  have hslots : ∀ i, ((R.modify t fun s => { s with detached := true }).note (.detached t)).slots i =
      { R.slots i with detached := if i = t then true else (R.slots i).detached } := fun i => by
    simp only [GtRuntime.modify, GtRuntime.note, Function.update_apply]
    split
    · subst i; rfl
    · rfl
  refine ⟨h.ok, ?_, ?_, ?_, ?_, ?_⟩
  · obtain ⟨h1, h2, h3, h4, h5, h6, h7, h8, h9⟩ := h.lists
    refine ⟨h1, ?_, ?_, h4, ?_, ?_, ?_, h8, ?_⟩
    all_goals simp only [hslots]
    · exact h2
    · exact h3
    · exact h5
    · exact h6
    · exact h7
    · exact h9
  · exact h.locks.congr rfl rfl (fun w => arrival_cons (by simp)) rfl fun _ _ h => h
  · obtain ⟨c1, c2, c3, c4, c5, c6, c7, c8⟩ := h.counts
    refine ⟨?_, ?_, ?_, c4, c5, c6, c7, c8⟩
    all_goals simp only [hslots]
    · exact c1
    · intro i hi hdi
      split at hdi
      · subst i
        exact ⟨hj, hw⟩
      · exact c2 i hi hdi
    · intro i hi
      have hit : i ≠ t := by rintro rfl; exact hdone hi
      rw [if_neg hit]
      exact c3 i hi
  · refine h.logged.cons (t := t) rfl rfl (by simp) hocc ?_ (fun _ _ => rfl) (fun _ _ => rfl) ?_ (fun _ _ => rfl)
      (fun _ _ => rfl) (fun _ _ => rfl) hocc (fun w hw => .inr hw) fun _ _ h => h
    · have hstage : (v.role t).stage = .spawned ∨ (v.role t).stage = .started ∨ (v.role t).stage = .returned := by
        revert hocc hfresh hspent
        cases v.role t with
        | ready f => cases f <;> simp [Role.stage]
        | popped f => cases f <;> simp [Role.stage]
        | _ => simp [Role.stage, Role.occupied]
      rw [hslots]
      simp [Life.step, hstage, hd]
    · intro i hi
      rw [hslots, if_neg hi]
  · refine h.envs.congr (fun id => envStage_other (by simp [Ev.env])) (fun _ => rfl) (fun _ _ => Iff.rfl)
      (fun i _ => ?_) rfl
    rw [hslots]

/-- A finished task whose stack is released is as good as one whose stack is not. -/
private theorem Models.unreap (h : Models R v) (hs : v.role s = .done) : Models R (v.bury s) := by
  have hrole : (v.bury s).role = Function.update v.role s .zombie := rfl
  have hok : (v.bury s).Ok := by
    obtain ⟨o1, o2, o3, o4, o5, o6, o7, o8, o9, o10, o11, o12⟩ := h.ok
    constructor
    all_goals simp only [Roster.bury, Function.update_apply]
    all_goals grind [Role.unfinished]
  refine ⟨hok, ?_, ?_, ?_, ?_, ?_⟩
  · obtain ⟨h1, h2, h3, h4, h5, h6, h7, h8, h9⟩ := h.lists
    refine ⟨?_, ?_, h3, h4, h5, h6, ?_, ?_, ?_⟩
    all_goals simp only [hrole, Function.update_apply]
    · grind
    · grind [Role.state]
    · grind
    · grind
    · grind [Role.frame]
  · refine h.locks.congr rfl rfl (fun _ => rfl) rfl ?_
    simp only [hrole, Function.update_apply]
    grind
  · refine h.counts.congr (fun _ => rfl) (fun _ => rfl) rfl rfl rfl rfl ?_ ?_ rfl rfl rfl rfl rfl
    all_goals simp only [hrole, Function.update_apply]
    all_goals grind [Role.occupied]
  · refine h.logged.congr (.refl _) (fun _ => rfl) ?_ ?_ rfl rfl rfl ?_
    all_goals simp only [hrole, Function.update_apply]
    all_goals grind [Role.occupied, Role.stage]
  · refine h.envs.congr (fun _ => rfl) ?_ ?_ (fun _ _ => rfl) rfl
    all_goals simp only [hrole, Function.update_apply]
    all_goals grind [Role.holds, Role.stage]

/-- A finished task that nobody awaits is detached, and so retired. -/
theorem Models.detachDone (h : Models R v) (hs : v.role s = .done) (hw : v.woken s = []) (hz : R.zombies = none)
    (hc : v.collecting = none) :
    Models (gtSlotFree ((R.modify s fun b => { b with detached := true }).note (.detached s)) s) (v.retire s) := by
  have hj : v.joiners s = [] := h.ok.joiners_nil (by rw [hs]; rfl)
  have hrole : (v.bury s).role s = .zombie := by simp [Roster.bury]
  have hdet := (h.unreap hs).detach (t := s) (by rw [hrole]; rfl) (by simp [hrole]) (by simp [hrole])
    (by simp [hrole]) (h.counts.collectable s hs) hj hw
  have hret := hdet.retire (.inr (.inr hrole)) (fun _ => by simp [GtRuntime.note, GtRuntime.modify]) hw
    (by simp [GtRuntime.note, GtRuntime.modify, hz]) hc
  have : (v.bury s).retire s = v.retire s := by simp [Roster.bury, Roster.retire]
  rwa [this] at hret

end Sppc
