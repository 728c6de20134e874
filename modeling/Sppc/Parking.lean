import Sppc.RunQueue
import Sppc.Quiet

/-!
# Parking on the backend

An accepted submission parks its task (`park`); a poll takes completions from the backend (`take`) and makes each
one's task runnable (`complete`).
-/

namespace Sppc

open LinkedList

variable {Io : Type} [IoBackend Io] [LawfulIoBackend Io] {R : GtRuntime Io} {v v' : Roster} {t op : Nat}

/-- There are no more tasks parked than slots. -/
private theorem Models.waiting_le (h : Models R v) : v.waiting.length ≤ R.nslots := by
  have hnd : (v.waiting.map Prod.fst).Nodup := by
    refine h.ok.waiting_nodup.map_on fun a ha b hb hab => ?_
    have ha' := (h.ok.waiting_iff a.1 a.2).1 ha
    have hb' := (h.ok.waiting_iff b.1 b.2).1 hb
    rw [hab, hb', Role.waiting.injEq] at ha'
    exact Prod.ext hab ha'.symm
  have hle := h.lists.length_le hnd fun i hi => by
    obtain ⟨a, ha, rfl⟩ := List.mem_map.1 hi
    simp [(h.ok.waiting_iff a.1 a.2).1 ha]
  simpa using hle

/-- The backend's part is replaced by one with the same submissions. -/
theorem Models.setIo {io : Io} (h : Models R v) (hio : LawfulIoBackend.Ok io)
    (hp : (v'.taken ++ LawfulIoBackend.pending io).Perm v.waiting) (hv : v' = { v with taken := v'.taken }) :
    Models { R with io := io } v' := by
  obtain ⟨hok, ⟨h1, h2, h3, h4, h5, h6, h7, h8, h9⟩, hlocks, hcounts, hlog, henvs⟩ := h
  obtain ⟨o1, o2, o3, o4, o5, o6, o7, o8, o9, o10, o11, o12⟩ := hok
  obtain ⟨c1, c2, c3, c4, c5, c6, -, -⟩ := hcounts
  generalize v'.taken = l at hp hv
  subst hv
  refine ⟨⟨o1, o2, o3, o4, o5, o6, o7, o8, o9, o10, o11, o12⟩, ⟨h1, h2, h3, h4, h5, h6, h7, h8, h9⟩, ?_,
    ⟨c1, c2, c3, c4, c5, c6, hio, hp⟩, ?_, ?_⟩
  · exact hlocks.congr rfl rfl (fun _ => rfl) rfl fun _ _ h => h
  · exact hlog.congr (.refl _) (fun _ => rfl) (fun _ => rfl) (fun _ => rfl) rfl rfl rfl fun _ _ h => h
  · exact henvs.congr (fun _ => rfl) (fun _ => rfl) (fun _ _ => Iff.rfl) (fun _ _ => rfl) rfl

/-! ### Parking -/

/-- The runtime once the running task has parked on `op`. -/
def parked (R : GtRuntime Io) (io : Io) (op : Nat) : GtRuntime Io :=
  { R with
    io := io
    inflight := incr 32 R.inflight
    slots := fun i => { R.slots i with state := if i = R.current then .waiting else (R.slots i).state }
    log := .parked R.current op :: R.log }

omit [LawfulIoBackend Io] in
theorem gtIoCall_parked {req : IoBackend.Req Io} {io : Io} (hr : IoBackend.ready R.io = true)
    (hs : IoBackend.submit req R.current R.io = .parked io op) :
    gtIoCall R req = ⟨parked R io op, .pick (.waited op), 0⟩ := by
  unfold gtIoCall gtBlock parked
  simp only [hr, hs, Bool.true_eq_false, ↓reduceIte, GtRuntime.modify, GtRuntime.note, Machine.mk.injEq,
    GtRuntime.mk.injEq, true_and, and_true]
  funext i
  by_cases hi : i = R.current
  · subst hi; simp
  · simp [hi]

theorem Models.park {io : Io} (h : Models R v) (hrun : v.role R.current = .running) (hl : v.locker = none)
    (htaken : v.taken = []) (hio : LawfulIoBackend.Ok io)
    (hp : (LawfulIoBackend.pending io).Perm ((R.current, op) :: LawfulIoBackend.pending R.io)) :
    Models (parked R io op) (v.park R.current op) := by
  have hrole : (v.park R.current op).role = Function.update v.role R.current (.waiting op) := rfl
  refine ⟨h.ok.park hrun hl, ?_, ?_, ?_, ?_, ?_⟩
  · obtain ⟨h1, h2, h3, h4, h5, h6, h7, h8, h9⟩ := h.lists
    refine ⟨?_, ?_, h3, h4, h5, h6, ?_, ?_, ?_⟩
    all_goals simp only [hrole, Function.update_apply, parked]
    · grind
    · grind [Role.state]
    · grind
    · grind
    · grind [Role.frame]
  · refine h.locks.congr rfl rfl (fun w => arrival_cons (by simp)) rfl ?_
    simp only [hrole, Function.update_apply]
    grind
  · have hle := h.waiting_le
    obtain ⟨c1, c2, c3, c4, c5, c6, c7, c8⟩ := h.counts
    refine ⟨?_, ?_, ?_, c4, c5, ?_, hio, ?_⟩
    · simp only [hrole, Function.update_apply]; grind [Role.occupied, parked, Roster.park]
    · simp only [hrole, Function.update_apply]; grind [Role.occupied, parked, Roster.park]
    · simp only [hrole, Function.update_apply]; grind [parked]
    · have : incr 32 R.inflight = R.inflight + 1 := incr_of_lt (by omega)
      simp only [parked, Roster.park, this, List.length_cons]
      omega
    · simp only [Roster.park, htaken, List.nil_append, parked] at c8 ⊢
      exact hp.trans (c8.cons _)
  · obtain ⟨l1, l2, l3, l4, l5⟩ := h.logged
    have hlife : ∀ i, life i (parked R io op).log = life i R.log := fun i => life_other (by simp [Ev.slot])
    refine ⟨?_, ?_, ?_, ?_, l5.cons (by simp)⟩
    · intro i hi
      rw [hlife]
      simp only [Function.update_apply, parked, Roster.park] at hi ⊢
      split
      · subst i
        rw [l1 R.current (by rw [hrun]; rfl), hrun]
        rfl
      · exact l1 i (by simp_all)
    · intro i hi
      rw [hlife]
      simp only [hrole, Function.update_apply] at hi
      split at hi
      · cases hi
      · exact l2 i hi
    · intro i w hw
      simp only [parked]
      rw [mem_occupancy_cons (by simp)]
      exact .inr (l3 i w hw)
    · simp only [hrole, Function.update_apply]
      intro i op' hi
      split at hi
      · subst i
        cases hi
        simp [parked, operation]
      · rename_i hne
        simpa [parked, operation, Ne.symm hne] using l4 i op' hi
  · refine h.envs.congr (fun id => envStage_other (by simp [Ev.env])) ?_ ?_ (fun _ _ => rfl) rfl
    · simp only [hrole, Function.update_apply]; grind [Role.holds]
    · simp only [hrole, Function.update_apply]; grind [Role.holds, Role.stage]

/-! ### Completions -/

/-- One completion is delivered. -/
private theorem Models.deliver (h : Models R v) (res : Int) (hm : (t, op) ∈ v.taken) :
    Models (gtDeliver R ⟨some t, res, op⟩) (v.complete t op) := by
  have hwait : (t, op) ∈ v.waiting := h.counts.pending.subset (List.mem_append_left _ hm)
  have ht : v.role t = .waiting op := (h.ok.waiting_iff t op).1 hwait
  have hst : (R.slots t).state = .waiting := h.lists.state t _ (by rw [ht]; rfl)
  have hop := h.logged.waits t op ht
  have hrole : (v.complete t op).role = Function.update v.role t (.ready (.waited op)) := rfl
  have hq : Quiet R (R.modify t fun s => { s with ioRes := res }) :=
    .modify ⟨rfl, rfl, rfl, rfl, rfl, rfl, rfl, rfl, rfl, rfl⟩
  have hslots : ∀ i, (gtDeliver R ⟨some t, res, op⟩).slots i = { R.slots i with
      state := if i = t then .ready else (R.slots i).state
      next := if R.rqTail = some i then some t else if i = t then none else (R.slots i).next
      ioRes := if i = t then res else (R.slots i).ioRes } := fun i => by
    simp only [gtDeliver, gtRqPush_eq, GtRuntime.modify, GtRuntime.note, Function.update_apply]
    by_cases hi : i = t
    · subst hi; simp
    · simp [hi]
  have hlog : (gtDeliver R ⟨some t, res, op⟩).log = .taken t op .waiting :: R.log := by
    simp [gtDeliver, gtRqPush_eq, GtRuntime.modify, GtRuntime.note, hst]
  refine ⟨h.ok.complete ht, ?_, ?_, ?_, ?_, ?_⟩
  · have hpush : ListsOk _ (v.complete t op) := (h.lists.quiet hq).push (t := t) (f := .waited op) h.ok.ready_iff
      h.ok.free_iff (by simp [h.ok.ready_iff, ht]) (by simp [ht]) (by simp [ht]) (by simp [ht])
      (fun hne => by rw [(hq.slots t).sp]; exact h.lists.frame t _ hne (by rw [ht]; rfl)) rfl rfl rfl rfl
    have hnote : gtDeliver R ⟨some t, res, op⟩ =
        { gtRqPush (R.modify t fun s => { s with ioRes := res }) t with
          log := .taken t op (R.slots t).state :: R.log
          inflight := decr 32 R.inflight } := by
      simp only [gtDeliver, gtRqPush_eq, GtRuntime.note, GtRuntime.modify]
    obtain ⟨h1, h2, h3, h4, h5, h6, h7, h8, h9⟩ := hpush
    rw [hnote]
    exact ⟨h1, h2, h3, h4, h5, h6, h7, h8, h9⟩
  · refine h.locks.congr ?_ ?_ (fun w => by rw [hlog, arrival_cons (by simp)]) rfl ?_
    · simp [gtDeliver, gtRqPush_eq, GtRuntime.modify, GtRuntime.note]
    · simp [gtDeliver, gtRqPush_eq, GtRuntime.modify, GtRuntime.note]
    · simp only [hrole, Function.update_apply]
      grind
  · have hle := h.waiting_le
    have hpos := List.length_pos_of_mem hwait
    obtain ⟨c1, c2, c3, c4, c5, c6, c7, c8⟩ := h.counts
    have hfields : (gtDeliver R ⟨some t, res, op⟩).live = R.live ∧ (gtDeliver R ⟨some t, res, op⟩).nslots = R.nslots ∧
        (gtDeliver R ⟨some t, res, op⟩).io = R.io ∧ (gtDeliver R ⟨some t, res, op⟩).inflight =
        decr 32 R.inflight := by
      simp [gtDeliver, gtRqPush_eq, GtRuntime.modify, GtRuntime.note]
    obtain ⟨hlive, hn, hio, hinf⟩ := hfields
    refine ⟨?_, ?_, ?_, ?_, ?_, ?_, ?_, ?_⟩
    · simp only [hslots, hrole, Function.update_apply]; grind [Role.occupied, Roster.complete]
    · simp only [hslots, hrole, Function.update_apply]; grind [Role.occupied, Roster.complete]
    · simp only [hslots, hrole, Function.update_apply]; grind
    · rw [hlive, hn]; exact c4
    · rw [hn]; exact c5
    · have : decr 32 R.inflight = R.inflight - 1 := decr_of_pos (by omega) (by omega)
      have hlen := List.length_erase_of_mem hwait
      simp only [Roster.complete, hinf, this, hlen]
      omega
    · rw [hio]; exact c7
    · rw [hio]
      have := c8.erase (t, op)
      rw [List.erase_append_left _ hm] at this
      exact this
  · obtain ⟨l1, l2, l3, l4, l5⟩ := h.logged
    have hlife : ∀ i, life i (gtDeliver R ⟨some t, res, op⟩).log = life i R.log := fun i => by
      rw [hlog, life_other (by simp [Ev.slot])]
    refine ⟨?_, ?_, ?_, ?_, ?_⟩
    · intro i hi
      rw [hlife, hslots]
      simp only [Function.update_apply, Roster.complete] at hi ⊢
      split
      · subst i
        rw [l1 t (by rw [ht]; rfl), ht]
        rfl
      · exact l1 i (by simp_all)
    · intro i hi
      rw [hlife]
      simp only [hrole, Function.update_apply] at hi
      split at hi
      · cases hi
      · exact l2 i hi
    · intro i w hw
      rw [hlog, mem_occupancy_cons (by simp)]
      exact .inr (l3 i w hw)
    · simp only [hrole, Function.update_apply]
      intro i op' hi
      split at hi
      · cases hi
      · rename_i hne
        rw [hlog]
        simpa [operation, Ne.symm hne] using l4 i op' hi
    · rw [hlog]
      refine l5.cons fun t' op' st heq => ?_
      cases heq
      exact ⟨rfl, hop⟩
  · refine h.envs.congr (fun id => by rw [hlog, envStage_other (by simp [Ev.env])]) ?_ ?_ ?_ rfl
    · simp only [hrole, Function.update_apply]; grind [Role.holds]
    · simp only [hrole, Function.update_apply]; grind [Role.holds, Role.stage]
    · intro i _
      rw [hslots]

/-! ### A poll -/

/-- A poll only makes waiting tasks ready, behind those that are. -/
structure Polled (v v' : Roster) : Prop where
  ready : ∃ l, v'.ready = v.ready ++ l
  role : ∀ i, v'.role i = v.role i ∨ ∃ op, v.role i = .waiting op ∧ v'.role i = .ready (.waited op)
  joiners : v'.joiners = v.joiners
  woken : v'.woken = v.woken
  free : v'.free = v.free
  queue : v'.queue = v.queue
  locker : v'.locker = v.locker
  hand : v'.hand = v.hand
  collecting : v'.collecting = v.collecting

theorem Polled.refl (v : Roster) : Polled v v :=
  ⟨⟨[], by simp⟩, fun _ => .inl rfl, rfl, rfl, rfl, rfl, rfl, rfl, rfl⟩

theorem Polled.trans {v'' : Roster} (h : Polled v v') (h' : Polled v' v'') : Polled v v'' := by
  obtain ⟨⟨l, h1⟩, h2, h3, h4, h5, h6, h7, h8, h9⟩ := h
  obtain ⟨⟨l', h1'⟩, h2', h3', h4', h5', h6', h7', h8', h9'⟩ := h'
  refine ⟨⟨l ++ l', by rw [h1', h1, List.append_assoc]⟩, fun i => ?_, h3'.trans h3, h4'.trans h4, h5'.trans h5,
    h6'.trans h6, h7'.trans h7, h8'.trans h8, h9'.trans h9⟩
  rcases h2 i with h | ⟨op, h, hr⟩
  · rw [← h]
    exact h2' i
  · refine .inr ⟨op, h, ?_⟩
    rcases h2' i with h' | ⟨op', h', -⟩
    · rw [h', hr]
    · rw [hr] at h'
      cases h'

/-- A poll leaves a role that is not waiting. -/
theorem Polled.role_eq {i : Nat} (h : Polled v v') (hi : ∀ op, v.role i ≠ .waiting op) : v'.role i = v.role i := by
  rcases h.role i with h | ⟨op, h, -⟩
  · exact h
  · exact absurd h (hi op)

theorem Polled.frame {i : Nat} {f : Resume} (h : Polled v v') (hi : (v.role i).frame = some f) :
    (v'.role i).frame = some f := by
  rcases h.role i with h | ⟨op, h, hr⟩
  · rw [h, hi]
  · rw [h] at hi
    rw [hr]
    exact hi

/-- What a poll does not touch. -/
structure SameFrame (R R' : GtRuntime Io) : Prop where
  current : R'.current = R.current
  zombies : R'.zombies = R.zombies
  lockWaiters : R'.lockWaiters = R.lockWaiters
  lockWaiter : R'.lockWaiter = R.lockWaiter
  nslots : R'.nslots = R.nslots

omit [IoBackend Io] [LawfulIoBackend Io] in
theorem SameFrame.trans {R' R'' : GtRuntime Io} (h : SameFrame R R') (h' : SameFrame R' R'') : SameFrame R R'' :=
  ⟨h'.1.trans h.1, h'.2.trans h.2, h'.3.trans h.3, h'.4.trans h.4, h'.5.trans h.5⟩

omit [IoBackend Io] [LawfulIoBackend Io] in
private theorem gtDeliver_frame (R : GtRuntime Io) (c : Completion) : SameFrame R (gtDeliver R c) := by
  unfold gtDeliver
  cases c.task with
  | none => exact ⟨rfl, rfl, rfl, rfl, rfl⟩
  | some t =>
    simp only [gtRqPush_eq]
    exact ⟨rfl, rfl, rfl, rfl, rfl⟩

omit [LawfulIoBackend Io] in
theorem gtIoPoll_frame (R : GtRuntime Io) (wait : Wait) : SameFrame R (gtIoPoll R wait) := by
  have hfold (l : List Completion) (R : GtRuntime Io) : SameFrame R (l.foldl gtDeliver R) := by
    induction l generalizing R with
    | nil => exact ⟨rfl, rfl, rfl, rfl, rfl⟩
    | cons c l ih => exact (gtDeliver_frame R c).trans (ih _)
  unfold gtIoPoll
  split
  · exact ⟨rfl, rfl, rfl, rfl, rfl⟩
  · have hio : SameFrame R { R with io := (IoBackend.collect wait R.io).2 } := ⟨rfl, rfl, rfl, rfl, rfl⟩
    exact hio.trans (hfold (IoBackend.collect wait R.io).1 _)

/-- The completions a poll has taken are delivered one by one. -/
private theorem models_fold {cs : List Completion} {l : List (Nat × Nat)} (h : Models R v) (hl : v.taken = l)
    (hcs : cs.map (fun c => (c.task, c.op)) = l.map fun k => (some k.1, k.2)) :
    ∃ v', Models (cs.foldl gtDeliver R) v' ∧ v'.taken = [] ∧ Polled v v' := by
  induction cs generalizing R v l with
  | nil =>
    have : l = [] := by cases l <;> simp_all
    exact ⟨v, h, hl.trans this, .refl v⟩
  | cons c cs ih =>
    cases l with
    | nil => cases hcs
    | cons k l =>
      simp only [List.map_cons, List.cons.injEq, Prod.mk.injEq] at hcs
      obtain ⟨⟨ht, hop⟩, hcs⟩ := hcs
      obtain ⟨task, res, op⟩ := c
      dsimp only at ht hop
      subst ht hop
      have hm : (k.1, k.2) ∈ v.taken := by rw [hl]; exact List.mem_cons_self ..
      have hrole : v.role k.1 = .waiting k.2 :=
        (h.ok.waiting_iff _ _).1 (h.counts.pending.subset (List.mem_append_left _ hm))
      have hstep := h.deliver res hm
      have htaken : (v.complete k.1 k.2).taken = l := by simp [Roster.complete, hl]
      obtain ⟨v', hv', hnil, hp⟩ := ih hstep htaken hcs
      have hone : Polled v (v.complete k.1 k.2) := by
        refine ⟨⟨[k.1], rfl⟩, fun i => ?_, rfl, rfl, rfl, rfl, rfl, rfl, rfl⟩
        simp only [Roster.complete, Function.update_apply]
        split
        · subst i
          exact .inr ⟨k.2, hrole, rfl⟩
        · exact .inl rfl
      exact ⟨v', hv', hnil, hone.trans hp⟩

/-- A poll. -/
theorem Models.poll (h : Models R v) (htaken : v.taken = []) (wait : Wait) :
    ∃ v', Models (gtIoPoll R wait) v' ∧ v'.taken = [] ∧ Polled v v' := by
  unfold gtIoPoll
  split
  · exact ⟨v, h, htaken, .refl v⟩
  · obtain ⟨hio, l, hl, hp⟩ := LawfulIoBackend.collect R.io wait h.counts.io_ok
    have hpend := h.counts.pending
    rw [htaken, List.nil_append] at hpend
    have htake : Models { R with io := (IoBackend.collect wait R.io).2 } (v.take l) :=
      h.setIo hio (hp.symm.trans hpend) rfl
    obtain ⟨v', hv', hnil, hpolled⟩ := models_fold htake rfl hl
    have htook : Polled v (v.take l) :=
      ⟨⟨[], by simp [Roster.take]⟩, fun _ => .inl rfl, rfl, rfl, rfl, rfl, rfl, rfl, rfl⟩
    exact ⟨v', hv', hnil, htook.trans hpolled⟩

theorem Models.pollNow (h : Models R v) (htaken : v.taken = []) :
    ∃ v', Models (gtIoPollNow R) v' ∧ v'.taken = [] ∧ Polled v v' := by
  unfold gtIoPollNow
  split
  · exact h.poll htaken .now
  · exact ⟨v, h, htaken, .refl v⟩

omit [LawfulIoBackend Io] in
theorem gtIoPollNow_frame (R : GtRuntime Io) : SameFrame R (gtIoPollNow R) := by
  unfold gtIoPollNow
  split
  · exact gtIoPoll_frame R .now
  · exact ⟨rfl, rfl, rfl, rfl, rfl⟩

end Sppc
