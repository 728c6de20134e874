import Sppc.Models

/-!
# Operations the scheduler does not notice

`Quiet R R'` says that `R'` differs from `R` only in what the scheduler's lists, counters and closures do not depend
on: the stacks, the stack cache and the settings.  Everything that maps, caches or unmaps stacks is quiet.
-/

namespace Sppc

variable {Io : Type} {R R' R'' : GtRuntime Io} {v : Roster}

/-- The events that record a mapping. -/
def Ev.mapping : Ev → Bool
  | .mapped .. | .mprotected .. | .unmapped .. => true
  | _ => false

private theorem Ev.aside_of_mapping {e : Ev} (h : e.mapping) : e.aside := by
  cases e <;> first | rfl | cases h

private theorem Ev.env_of_mapping {e : Ev} (h : e.mapping) : e.env = none := by
  cases e <;> first | rfl | cases h

/-- The block `t'` agrees with `t` on everything but its stacks and its last i/o result. -/
structure SameTask (t t' : GtTask) : Prop where
  sp : t'.sp = t.sp
  next : t'.next = t.next
  waiters : t'.waiters = t.waiters
  wnext : t'.wnext = t.wnext
  body : t'.body = t.body
  njoiners : t'.njoiners = t.njoiners
  idx : t'.idx = t.idx
  gen : t'.gen = t.gen
  state : t'.state = t.state
  detached : t'.detached = t.detached

theorem SameTask.refl (t : GtTask) : SameTask t t := ⟨rfl, rfl, rfl, rfl, rfl, rfl, rfl, rfl, rfl, rfl⟩

/-- `R'` is `R` with other stacks or settings. -/
structure Quiet (R R' : GtRuntime Io) : Prop where
  current : R'.current = R.current
  rqHead : R'.rqHead = R.rqHead
  rqTail : R'.rqTail = R.rqTail
  freeSlots : R'.freeSlots = R.freeSlots
  zombies : R'.zombies = R.zombies
  slots : ∀ i, SameTask (R.slots i) (R'.slots i)
  nslots : R'.nslots = R.nslots
  cslots : R'.cslots = R.cslots
  live : R'.live = R.live
  io : R'.io = R.io
  inflight : R'.inflight = R.inflight
  lockWaiters : R'.lockWaiters = R.lockWaiters
  lockWaiter : R'.lockWaiter = R.lockWaiter
  log : ∃ l, R'.log = l ++ R.log ∧ ∀ e ∈ l, e.mapping

theorem Quiet.refl (R : GtRuntime Io) : Quiet R R :=
  ⟨rfl, rfl, rfl, rfl, rfl, fun _ => .refl _, rfl, rfl, rfl, rfl, rfl, rfl, rfl, [], rfl, by simp⟩

theorem Quiet.trans (h : Quiet R R') (h' : Quiet R' R'') : Quiet R R'' := by
  obtain ⟨a1, a2, a3, a4, a5, a6, a7, a8, a9, a10, a11, a12, a13, l, a14, a15⟩ := h
  obtain ⟨b1, b2, b3, b4, b5, b6, b7, b8, b9, b10, b11, b12, b13, l', b14, b15⟩ := h'
  refine ⟨b1.trans a1, b2.trans a2, b3.trans a3, b4.trans a4, b5.trans a5, fun i => ?_, b7.trans a7, b8.trans a8,
    b9.trans a9, b10.trans a10, b11.trans a11, b12.trans a12, b13.trans a13, l' ++ l, by simp [b14, a14], ?_⟩
  · obtain ⟨c1, c2, c3, c4, c5, c6, c7, c8, c9, c10⟩ := a6 i
    obtain ⟨d1, d2, d3, d4, d5, d6, d7, d8, d9, d10⟩ := b6 i
    exact ⟨d1.trans c1, d2.trans c2, d3.trans c3, d4.trans c4, d5.trans c5, d6.trans c6, d7.trans c7, d8.trans c8,
      d9.trans c9, d10.trans c10⟩
  · intro e he
    rcases List.mem_append.1 he with he | he
    · exact b15 e he
    · exact a15 e he

/-- Writing to fields of a block that the scheduler does not depend on. -/
theorem Quiet.modify {g : GtTask → GtTask} {t : Nat} (hg : SameTask (R.slots t) (g (R.slots t))) :
    Quiet R (R.modify t g) := by
  refine ⟨rfl, rfl, rfl, rfl, rfl, fun i => ?_, rfl, rfl, rfl, rfl, rfl, rfl, rfl, [], rfl, by simp⟩
  simp only [GtRuntime.modify, Function.update_apply]
  split
  · subst i
    exact hg
  · exact .refl _

theorem Quiet.note {e : Ev} (he : e.mapping) : Quiet R (R.note e) :=
  ⟨rfl, rfl, rfl, rfl, rfl, fun _ => .refl _, rfl, rfl, rfl, rfl, rfl, rfl, rfl, [e], rfl, by simpa using he⟩

private theorem sameStory_mappings {l log : List Ev} (h : ∀ e ∈ l, e.mapping) : SameStory log (l ++ log) := by
  induction l with
  | nil => exact .refl _
  | cons e l ih =>
    exact (ih fun e' he' => h e' (List.mem_cons_of_mem _ he')).aside
      (Ev.aside_of_mapping (h e (List.mem_cons_self ..)))

private theorem envStage_mappings {l log : List Ev} (h : ∀ e ∈ l, e.mapping) (id : Nat) :
    envStage id (l ++ log) = envStage id log := by
  induction l with
  | nil => rfl
  | cons e l ih =>
    rw [List.cons_append, envStage_other (by simp [Ev.env_of_mapping (h e (List.mem_cons_self ..))])]
    exact ih fun e' he' => h e' (List.mem_cons_of_mem _ he')

private theorem arrival_mappings {l log : List Ev} (h : ∀ e ∈ l, e.mapping) (w : Nat) :
    arrival w (l ++ log) = arrival w log := by
  induction l with
  | nil => rfl
  | cons e l ih =>
    rw [List.cons_append, arrival_cons (by rintro rfl; simpa [Ev.mapping] using h (.queued w))]
    exact ih fun e' he' => h e' (List.mem_cons_of_mem _ he')

theorem Quiet.sameStory (h : Quiet R R') : SameStory R.log R'.log := by
  obtain ⟨l, hl, hm⟩ := h.log
  rw [hl]
  exact sameStory_mappings hm

theorem Quiet.envStage (h : Quiet R R') (id : Nat) : envStage id R'.log = Sppc.envStage id R.log := by
  obtain ⟨l, hl, hm⟩ := h.log
  rw [hl]
  exact envStage_mappings hm id

theorem Quiet.arrival (h : Quiet R R') (w : Nat) : arrival w R'.log = Sppc.arrival w R.log := by
  obtain ⟨l, hl, hm⟩ := h.log
  rw [hl]
  exact arrival_mappings hm w

theorem ListsOk.quiet (h : ListsOk R v) (hq : Quiet R R') : ListsOk R' v := by
  have hnext : (fun i => (R'.slots i).next) = fun i => (R.slots i).next := funext fun i => (hq.slots i).next
  have hwnext : (fun i => (R'.slots i).wnext) = fun i => (R.slots i).wnext := funext fun i => (hq.slots i).wnext
  obtain ⟨h1, h2, h3, h4, h5, h6, h7, h8, h9⟩ := h
  constructor
  · simpa only [hq.nslots] using h1
  · simpa only [(hq.slots _).state] using h2
  · rw [hnext, hq.rqHead]; exact h3
  · rw [hq.rqTail]; exact h4
  · rw [hnext, hq.freeSlots]; exact h5
  · intro t
    rw [hwnext, (hq.slots t).waiters]
    exact h6 t
  · simpa only [hq.zombies, (hq.slots _).next] using h7
  · simpa only [hq.current] using h8
  · simpa only [hq.current, (hq.slots _).sp] using h9

/-- A quiet operation leaves the abstract state as it is. -/
theorem Models.quiet [IoBackend Io] [LawfulIoBackend Io] (h : Models R v) (hq : Quiet R R') : Models R' v := by
  obtain ⟨hok, hlists, hlocks, hcounts, hlog, henvs⟩ := h
  refine ⟨hok, hlists.quiet hq, ?_, ?_, ?_, ?_⟩
  · exact hlocks.congr hq.lockWaiters hq.lockWaiter hq.arrival rfl fun _ _ h => h
  · exact hcounts.congr (fun t => (hq.slots t).njoiners) (fun t => (hq.slots t).detached) hq.live hq.nslots
      hq.inflight hq.io (fun _ => rfl) (fun _ h => h) rfl rfl rfl rfl
      rfl
  · exact hlog.congr hq.sameStory (fun t => (hq.slots t).detached) (fun _ => rfl) (fun _ => rfl) rfl rfl rfl
      fun _ _ h => h
  · exact henvs.congr hq.envStage (fun _ => rfl) (fun _ _ => Iff.rfl) (fun t _ => by rw [(hq.slots t).body]) rfl

/-! ### The quiet functions -/

/-- Only the cache, the settings or the thread's unsafe stack pointer change. -/
theorem Quiet.settings (R : GtRuntime Io) (stackSize cachedSize : Nat) (guard : Bool) (stackCache : List Nat)
    (usp : Option Nat) :
    Quiet R { R with
      stackSize := stackSize
      guard := guard
      stackCache := stackCache
      cachedSize := cachedSize
      usp := usp } :=
  ⟨rfl, rfl, rfl, rfl, rfl, fun _ => .refl _, rfl, rfl, rfl, rfl, rfl, rfl, rfl, [], rfl, by simp⟩

private theorem gtStackMap_quiet (R : GtRuntime Io) (size : Nat) (m : MapAnswer) :
    Quiet R (gtStackMap R size m).2 := by
  have hnote (R : GtRuntime Io) {e : Ev} (he : e.mapping) : Quiet R (R.note e) := .note he
  unfold gtStackMap
  split
  · dsimp only
    split
    · exact .refl R
    · split
      · exact (hnote R rfl).trans (hnote _ rfl)
      · exact (hnote R rfl).trans (hnote _ rfl)
  · split
    · exact .refl R
    · exact hnote R rfl

theorem gtStackAlloc_quiet (R : GtRuntime Io) (size : Nat) (m : MapAnswer) : Quiet R (gtStackAlloc R size m).2 := by
  unfold gtStackAlloc
  split
  · split
    · exact .settings R ..
    · exact gtStackMap_quiet R size m
  · exact gtStackMap_quiet R size m

theorem gtStackUnmap_quiet (R : GtRuntime Io) (usable size : Nat) : Quiet R (gtStackUnmap R usable size) := by
  unfold gtStackUnmap
  split <;> exact .note rfl

theorem gtStackFree_quiet (R : GtRuntime Io) (usable : Option Nat) (size : Nat) :
    Quiet R (gtStackFree R usable size) := by
  unfold gtStackFree
  cases usable with
  | none => exact .refl R
  | some u =>
    dsimp only
    split
    · exact .settings R ..
    · exact gtStackUnmap_quiet R u size

theorem gtStackFlush_quiet (R : GtRuntime Io) (l : List Nat) : Quiet R (gtStackFlush R l) := by
  induction l generalizing R with
  | nil => exact .settings R ..
  | cons u l ih => exact (gtStackUnmap_quiet R u _).trans (ih _)

theorem gtSetGuardPages_quiet (R : GtRuntime Io) (enabled : Bool) : Quiet R (gtSetGuardPages R enabled) := by
  unfold gtSetGuardPages
  split
  · exact .refl R
  · exact (gtStackFlush_quiet R R.stackCache).trans (.settings _ ..)

theorem gtSetStackSize_quiet (R : GtRuntime Io) (bytes : Nat) : Quiet R (gtSetStackSize R bytes) := .settings R ..

end Sppc
