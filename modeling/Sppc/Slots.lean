import Sppc.RunQueue
import Sppc.Quiet

/-!
# Task slots

Handing a slot out is `alloc` on the abstract state and handing it back is `retire`.  A slot is handed back where
nobody waits for its task any more, which is what the conditions of `Models.retire` say.
-/

namespace Sppc

open LinkedList

variable {Io : Type} [IoBackend Io] [LawfulIoBackend Io] {R : GtRuntime Io} {v : Roster} {t : Nat}

/-! ### Who waits for a slot's task -/

theorem Roster.Ok.joiners_nil (h : v.Ok) (ht : (v.role t).unfinished = false) : v.joiners t = [] := by
  refine List.eq_nil_iff_forall_not_mem.2 fun w hw => ?_
  have := h.joinee w t ((h.joiners_iff w t).1 hw)
  rw [ht] at this
  cases this

theorem Roster.Ok.woken_nil (h : v.Ok) (ht : (v.role t).stage ≠ .returned) : v.woken t = [] := by
  refine List.eq_nil_iff_forall_not_mem.2 fun w hw => ht ?_
  rcases h.woken_done w t hw with he | he | he <;> rw [he] <;> rfl

/-! ### Handing back -/

omit [IoBackend Io] [LawfulIoBackend Io] in
theorem gtSlotFree_eq (R : GtRuntime Io) (t : Nat) : gtSlotFree R t =
    { R with
      slots := fun i => if i = t then
          { R.slots i with state := .free, gen := nextGen (R.slots i).gen, next := R.freeSlots }
        else R.slots i
      freeSlots := some t
      live := decr 64 R.live
      log := .retire t :: R.log } := by
  unfold gtSlotFree GtRuntime.modify GtRuntime.note
  simp only [GtRuntime.mk.injEq, true_and, and_true]
  funext i
  by_cases hi : i = t
  · subst hi; simp
  · simp [hi]

/-- A slot nobody waits for is handed back. -/
theorem Models.retire (h : Models R v) (ht : v.role t = .fresh ∨ v.role t = .spent ∨ v.role t = .zombie)
    (hd : v.role t = .zombie → (R.slots t).detached = true) (hw : v.woken t = []) (hz : R.zombies ≠ some t)
    (hc : v.collecting = none) : Models (gtSlotFree R t) (v.retire t) := by
  obtain ⟨hok, hlists, hlocks, hcounts, hlog, henvs⟩ := h
  have hj : v.joiners t = [] := hok.joiners_nil (by rcases ht with ht | ht | ht <;> rw [ht] <;> rfl)
  have hfree : t ∉ v.free := by rw [hok.free_iff]; rcases ht with ht | ht | ht <;> simp [ht]
  have hready : t ∉ v.ready := by rw [hok.ready_iff]; rcases ht with ht | ht | ht <;> simp [ht]
  have hlive : v.free.length + 1 ≤ R.nslots := by
    refine hlists.length_le (l := t :: v.free) (List.nodup_cons.2 ⟨hfree, hlists.free.nodup⟩) fun i hi => ?_
    rcases List.mem_cons.1 hi with rfl | hi
    · rcases ht with ht | ht | ht <;> simp [ht]
    · simp [(hok.free_iff i).1 hi]
  refine ⟨hok.retire ht hw, ?_, ?_, ?_, ?_, ?_⟩
  · obtain ⟨h1, h2, h3, h4, h5, h6, h7, h8, h9⟩ := hlists
    rw [gtSlotFree_eq]
    constructor
    · simp only [Roster.retire, Function.update_apply]; grind
    · simp only [Roster.retire, Function.update_apply]; grind [Role.state]
    · refine h3.congr fun b hb => ?_
      have hbt : b ≠ t := by rintro rfl; exact hready hb
      simp [hbt]
    · exact h4
    · refine h5.push_front (by simp) fun b hb => ?_
      have hbt : b ≠ t := by rintro rfl; exact hfree hb
      simp [hbt]
    · intro u
      have hwn : (fun i => (if i = t then { R.slots i with
          state := .free, gen := nextGen (R.slots i).gen, next := R.freeSlots } else R.slots i).wnext) =
          fun i => (R.slots i).wnext := by
        funext i
        split <;> rfl
      have := h6 u
      simp only [hwn]
      split <;> exact this
    · intro z hz'
      have hzt : z ≠ t := by rintro rfl; exact hz hz'
      simpa [Roster.retire, hzt] using h7 z hz'
    · simp only [Roster.retire, Function.update_apply]; grind
    · simp only [Roster.retire, Function.update_apply]; grind [Role.frame]
  · rw [gtSlotFree_eq]
    refine hlocks.congr rfl rfl (fun w => arrival_cons (by simp)) rfl ?_
    simp only [Roster.retire, Function.update_apply]
    grind
  · obtain ⟨h1, h2, h3, h4, hle, h5, h6, h7⟩ := hcounts
    rw [gtSlotFree_eq]
    have hdecr : decr 64 R.live = R.live - 1 := decr_of_pos (by omega) (by omega)
    constructor
    · simp only [Roster.retire, Function.update_apply]; grind [Role.occupied]
    · simp only [Roster.retire, Function.update_apply]; grind [Role.occupied]
    · simp only [Roster.retire, Function.update_apply]; grind
    · simp only [Roster.retire, List.length_cons, hdecr]; omega
    · exact hle
    · exact h5
    · exact h6
    · exact h7
  · obtain ⟨h1, h2, h3, h4, h5⟩ := hlog
    have hlife : ∃ L, life t (.retire t :: R.log) = some L ∧ L.stage = .vacant := by
      have := h1 t (by rcases ht with ht | ht | ht <;> rw [ht] <;> rfl)
      rw [life_cons this, hj, hw]
      rcases ht with ht | ht | ht <;> simp [Life.step, ht, hd, hc, Role.stage, Roster.collects]
    rw [gtSlotFree_eq]
    constructor
    · intro u hu
      simp only [Roster.retire, Function.update_apply] at hu ⊢
      have hut : u ≠ t := by rintro rfl; simp [Role.occupied] at hu
      rw [if_neg hut] at hu ⊢
      rw [life_other (by simpa [Ev.slot] using hut.symm)]
      simp only [if_neg hut]
      exact h1 u hu
    · intro u hu
      simp only [Roster.retire, Function.update_apply] at hu
      by_cases hut : u = t
      · subst hut
        exact hlife
      · rw [if_neg hut] at hu
        simp only [life_other (show (Ev.retire t).slot ≠ some u by simpa [Ev.slot] using Ne.symm hut)]
        exact h2 u hu
    · intro u w hm
      rw [mem_occupancy_cons (by simp)]
      exact .inr (h3 u w hm)
    · simp only [Roster.retire, Function.update_apply]
      intro i op hi
      split at hi
      · cases hi
      · exact h4 i op hi
    · exact h5.cons (by simp)
  · rw [gtSlotFree_eq]
    refine henvs.congr (fun id => envStage_other (by simp [Ev.env])) ?_ ?_ ?_ rfl
    · simp only [Roster.retire, Function.update_apply]; grind [Role.holds]
    · simp only [Roster.retire, Function.update_apply]; grind [Role.holds]
    · intro i _
      dsimp only
      split <;> rfl

/-! ### Handing out -/

/-- The runtime with the block `t` zeroed and handed out. -/
def slotTaken (R : GtRuntime Io) (t idx gen nslots : Nat) (freeSlots : Option Nat) : GtRuntime Io :=
  { R with
    slots := fun i => if i = t then { GtTask.zero with idx := idx, gen := gen } else R.slots i
    freeSlots := freeSlots
    nslots := nslots
    live := incr 64 R.live
    log := .alloc t :: R.log }

omit [IoBackend Io] [LawfulIoBackend Io] in
theorem gtSlotReuse_eq (R : GtRuntime Io) (t : Nat) : gtSlotReuse R t =
    slotTaken R t (R.slots t).idx (if (R.slots t).gen ≠ 0 then (R.slots t).gen else 1) R.nslots (R.slots t).next := by
  unfold gtSlotReuse slotTaken GtRuntime.modify GtRuntime.note
  simp only [GtRuntime.mk.injEq, true_and, and_true]
  funext i
  by_cases hi : i = t
  · subst hi; simp
  · simp [hi]

omit [IoBackend Io] [LawfulIoBackend Io] in
theorem gtSlotFresh_eq (R : GtRuntime Io) :
    gtSlotFresh R = slotTaken R R.nslots R.nslots 1 (incr 32 R.nslots) R.freeSlots := by
  unfold gtSlotFresh slotTaken GtRuntime.modify GtRuntime.note
  simp only [GtRuntime.mk.injEq, true_and, and_true]
  funext i
  by_cases hi : i = R.nslots
  · subst hi; simp
  · simp [hi]

/-- A slot is handed out: the first free one, or the next of the table. -/
theorem Models.alloc {idx gen n : Nat} {p : Option Nat} (h : Models R v) (hc : v.collecting = none) (hn : n ≤ 2 ^ 19)
    (ht : (v.role t = .free ∧ R.freeSlots = some t ∧ p = (R.slots t).next ∧ n = R.nslots) ∨
      (v.role t = .unused ∧ t = R.nslots ∧ p = R.freeSlots ∧ n = R.nslots + 1)) :
    Models (slotTaken R t idx gen n p) (v.alloc t) := by
  obtain ⟨hok, hlists, hlocks, hcounts, hlog, henvs⟩ := h
  have hrole : v.role t = .free ∨ v.role t = .unused := ht.imp And.left And.left
  have hj : v.joiners t = [] := hok.joiners_nil (by rcases hrole with ht | ht <;> rw [ht] <;> rfl)
  have hw : v.woken t = [] := hok.woken_nil (by rcases hrole with ht | ht <;> simp [ht, Role.stage])
  have hready : t ∉ v.ready := by rw [hok.ready_iff]; rcases hrole with ht | ht <;> simp [ht]
  have hnd := hlists.free.nodup
  have hlen := hcounts.live
  refine ⟨hok.alloc hrole hnd, ?_, ?_, ?_, ?_, ?_⟩
  · obtain ⟨h1, h2, h3, h4, h5, h6, h7, h8, h9⟩ := hlists
    have hnot : ∀ b ∈ v.free.erase t, b ≠ t := fun b hb => (hnd.mem_erase_iff.1 hb).1
    constructor
    · simp only [Roster.alloc, slotTaken, Function.update_apply]; grind
    · simp only [Roster.alloc, slotTaken, Function.update_apply]; grind [Role.state, GtTask.zero]
    · refine h3.congr fun b hb => ?_
      have hbt : b ≠ t := by rintro rfl; exact hready hb
      simp [slotTaken, hbt]
    · exact h4
    · have hcongr : ∀ b ∈ v.free.erase t, ((slotTaken R t idx gen n p).slots b).next = (R.slots b).next :=
        fun b hb => by simp [slotTaken, hnot b hb]
      rcases ht with ⟨ht, hhead, rfl, -⟩ | ⟨ht, -, rfl, -⟩
      · rw [hhead] at h5
        obtain ⟨l, hl, hl'⟩ := h5.exists_cons
        simp only [Roster.alloc, hl, List.erase_cons_head] at hcongr ⊢
        exact hl'.congr hcongr
      · have : t ∉ v.free := by rw [hok.free_iff]; simp [ht]
        simp only [Roster.alloc, List.erase_of_not_mem this] at hcongr ⊢
        exact h5.congr hcongr
    · intro u
      by_cases hut : u = t
      · subst hut
        simp [slotTaken, Roster.alloc, hj, GtTask.zero]
      · have hwu : ∀ b ∈ v.joiners u, b ≠ t := by
          rintro b hb rfl
          rcases hrole with hr | hr <;> simp [(hok.joiners_iff b u).1 hb] at hr
        have : Linked (fun i => ((slotTaken R t idx gen n p).slots i).wnext) (R.slots u).waiters (v.joiners u) :=
          (h6 u).congr fun b hb => by simp [slotTaken, hwu b hb]
        simpa [slotTaken, Roster.alloc, hut] using this
    · intro z hz
      have := h7 z hz
      have hzt : z ≠ t := by
        rintro rfl
        rcases hrole with hr | hr <;> simp [hr] at this
      simpa [Roster.alloc, slotTaken, hzt] using this
    · simp only [Roster.alloc, slotTaken, Function.update_apply]; grind
    · simp only [Roster.alloc, slotTaken, Function.update_apply]; grind [Role.frame]
  · refine hlocks.congr rfl rfl (fun w => arrival_cons (by simp)) rfl ?_
    simp only [Roster.alloc, Function.update_apply]
    grind
  · obtain ⟨h1, h2, h3, h4, hle, h5, h6, h7⟩ := hcounts
    have hincr : incr 64 R.live = R.live + 1 := incr_of_lt (by omega)
    constructor
    · simp only [Roster.alloc, slotTaken, Function.update_apply]; grind [Role.occupied, GtTask.zero]
    · simp only [Roster.alloc, slotTaken, Function.update_apply]; grind [Role.occupied, GtTask.zero]
    · simp only [Roster.alloc, slotTaken, Function.update_apply]; grind
    · simp only [Roster.alloc, slotTaken, hincr]
      rcases ht with ⟨ht, -, -, rfl⟩ | ⟨ht, -, -, rfl⟩
      · have hm := (hok.free_iff t).2 ht
        have := List.length_pos_of_mem hm
        rw [List.length_erase_of_mem hm]
        omega
      · rw [List.erase_of_not_mem (by rw [hok.free_iff]; simp [ht])]
        omega
    · exact hn
    · exact h5
    · exact h6
    · exact h7
  · obtain ⟨h1, h2, h3, h4, h5⟩ := hlog
    obtain ⟨L, hL, hvac⟩ := h2 t (by rcases hrole with ht | ht <;> rw [ht] <;> rfl)
    constructor
    · intro u hu
      by_cases hut : u = t
      · subst hut
        simp only [slotTaken, Roster.alloc, Function.update_self, ↓reduceIte]
        rw [life_cons hL]
        simp [Life.step, hvac, Role.stage, GtTask.zero, hj, hw, hc, Roster.collects]
      · simp only [Roster.alloc, Function.update_of_ne hut, slotTaken, hut, ↓reduceIte] at hu ⊢
        rw [life_other (by simpa [Ev.slot] using Ne.symm hut)]
        exact h1 u hu
    · intro u hu
      have hut : u ≠ t := by rintro rfl; simp [Roster.alloc, Role.occupied] at hu
      simp only [Roster.alloc, Function.update_of_ne hut] at hu
      simp only [slotTaken, life_other (show (Ev.alloc t).slot ≠ some u by simpa [Ev.slot] using Ne.symm hut)]
      exact h2 u hu
    · intro u w hm
      have hut : u ≠ t := by rintro rfl; simp [Roster.alloc, hj, hw] at hm
      simp only [slotTaken]
      rw [mem_occupancy_cons (by simpa using Ne.symm hut)]
      exact .inr (h3 u w hm)
    · simp only [Roster.alloc, Function.update_apply]
      intro i op hi
      split at hi
      · cases hi
      · exact h4 i op hi
    · exact h5.cons (by simp)
  · refine henvs.congr (fun id => envStage_other (by simp [Ev.env])) ?_ ?_ ?_ rfl
    · simp only [Roster.alloc, Function.update_apply]; grind [Role.holds]
    · simp only [Roster.alloc, Function.update_apply]; grind [Role.holds]
    · intro i hi
      have hit : i ≠ t := by
        rintro rfl
        rcases hrole with hr | hr <;> simp [hr, Role.holds] at hi
      simp [slotTaken, hit]

/-! ### Releasing what a finished task leaves -/

omit [IoBackend Io] [LawfulIoBackend Io] in
/-- A task that is on no list by its link has nothing to lose when the link is cleared. -/
private theorem gtReapStacks_quiet {z : Nat} (h : (R.slots z).next = none) : Quiet R (gtReapStacks R z) := by
  unfold gtReapStacks
  refine Quiet.trans (Quiet.trans ?_ (gtStackFree_quiet _ _ _)) (.modify ?_)
  · refine Quiet.trans (Quiet.trans ?_ (gtStackFree_quiet _ _ _)) (.modify ?_)
    · exact .modify ⟨rfl, h.symm, rfl, rfl, rfl, rfl, rfl, rfl, rfl, rfl⟩
    · exact ⟨rfl, rfl, rfl, rfl, rfl, rfl, rfl, rfl, rfl, rfl⟩
  · exact ⟨rfl, rfl, rfl, rfl, rfl, rfl, rfl, rfl, rfl, rfl⟩

private theorem Models.zombies_none (h : Models R v) : Models { R with zombies := none } v := by
  obtain ⟨hok, ⟨h1, h2, h3, h4, h5, h6, h7, h8, h9⟩, hlocks, hcounts, hlog, henvs⟩ := h
  refine ⟨hok, ⟨h1, h2, h3, h4, h5, h6, by simp, h8, h9⟩, ?_, ?_, ?_, ?_⟩
  · exact hlocks.congr rfl rfl (fun _ => rfl) rfl fun _ _ h => h
  · exact hcounts.congr (fun _ => rfl) (fun _ => rfl) rfl rfl rfl rfl (fun _ => rfl) (fun _ h => h) rfl rfl rfl rfl
      rfl
  · exact hlog.congr (.refl _) (fun _ => rfl) (fun _ => rfl) (fun _ => rfl) rfl rfl rfl fun _ _ h => h
  · exact henvs.congr (fun _ => rfl) (fun _ => rfl) (fun _ _ => Iff.rfl) (fun _ _ => rfl) rfl

/-- The stack of a finished task that was not detached is released: it waits to be collected. -/
theorem Models.reap {z : Nat} (h : Models R v) (hz : v.role z = .zombie) (hnone : R.zombies = none)
    (hd : (R.slots z).detached = false) : Models R (v.reap z) := by
  obtain ⟨hok, ⟨h1, h2, h3, h4, h5, h6, h7, h8, h9⟩, hlocks, hcounts, hlog, henvs⟩ := h
  refine ⟨hok.reap hz, ⟨?_, ?_, h3, h4, h5, h6, by simp [hnone], ?_, ?_⟩, ?_, ?_, ?_, ?_⟩
  · simp only [Roster.reap, Function.update_apply]; grind
  · simp only [Roster.reap, Function.update_apply]; grind [Role.state]
  · simp only [Roster.reap, Function.update_apply]; grind
  · simp only [Roster.reap, Function.update_apply]; grind [Role.frame]
  · refine hlocks.congr rfl rfl (fun _ => rfl) rfl ?_
    simp only [Roster.reap, Function.update_apply]
    grind
  · obtain ⟨c1, c2, c3, c4, c5, c6, c7, c8⟩ := hcounts
    refine ⟨?_, ?_, ?_, c4, c5, c6, c7, c8⟩
    all_goals simp only [Roster.reap, Function.update_apply]
    all_goals grind [Role.occupied]
  · refine hlog.congr (.refl _) (fun _ => rfl) ?_ ?_ rfl rfl rfl ?_
    all_goals simp only [Roster.reap, Function.update_apply]
    all_goals grind [Role.occupied, Role.stage]
  · refine henvs.congr (fun _ => rfl) ?_ ?_ (fun _ _ => rfl) rfl
    all_goals simp only [Roster.reap, Function.update_apply]
    all_goals grind [Role.holds, Role.stage]

omit [IoBackend Io] [LawfulIoBackend Io] in
private theorem gtReap_eq {z : Nat} (hz : R.zombies = some z) (hn : (R.slots z).next = none) : gtReap R =
    let R' := gtReapStacks { R with zombies := none } z
    if (R'.slots z).detached then gtSlotFree R' z else R' := by
  unfold gtReap loopBound
  rw [hz]
  unfold gtReapFrom
  dsimp only
  rw [hn]
  cases R.nslots <;> rfl

/-- `_gt_reap`, where one task has finished since the last. -/
theorem Models.reaped {z : Nat} (h : Models R v) (hc : v.collecting = none) (hz : R.zombies = some z) :
    Models (gtReap R) (if (R.slots z).detached then v.retire z else v.reap z) ∧
    (gtReap R).zombies = none ∧ (gtReap R).current = R.current ∧
    ∀ i, i ≠ z → SameTask (R.slots i) ((gtReap R).slots i) := by
  obtain ⟨hrole, hnext⟩ := h.lists.zombie z hz
  have hq : Quiet { R with zombies := none } (gtReapStacks { R with zombies := none } z) := gtReapStacks_quiet hnext
  have hmod := h.zombies_none.quiet hq
  have hdet : ((gtReapStacks { R with zombies := none } z).slots z).detached = (R.slots z).detached :=
    (hq.slots z).detached
  rw [gtReap_eq hz hnext]
  dsimp only
  rw [hdet]
  split
  case isTrue hd =>
    have hw := (h.counts.detached z (by rw [hrole]; rfl) hd).2
    refine ⟨hmod.retire (.inr (.inr hrole)) (fun _ => hdet.trans hd) hw (by rw [hq.zombies]; simp) hc, hq.zombies,
      hq.current, fun i hi => ?_⟩
    rw [gtSlotFree_eq]
    simpa [hi] using hq.slots i
  case isFalse hd =>
    refine ⟨hmod.reap hrole hq.zombies (by rw [hdet]; simpa using hd), hq.zombies, hq.current, fun i _ => hq.slots i⟩

end Sppc
