import Sppc.TaskStacks
import Sppc.Queues
import Sppc.Handles

/-!
# A spawn succeeds, or nothing has happened

`sppc_async` can fail at the slot table, at the slot, at the stack and at the unsafe stack.  Whatever it has done by
then is undone: the slot goes back to the free ones with the next generation, a stack to the cache or to the system,
and the closure is discarded.
-/

namespace Sppc

open LinkedList

variable {Io : Type} {R R' R'' : GtRuntime Io} {body : SppcClosure} {o : SpawnAnswer} {t u size : Nat} {m : MapAnswer}
  {l new new' : List Ev}

/-- The run queue, by its links. -/
structure RunQueue (R : GtRuntime Io) (q : List Nat) : Prop where
  links : Linked (fun i => (R.slots i).next) R.rqHead q
  tail : R.rqTail = q.getLast?

/-- What a discard of the closure records, latest first. -/
def discards (body : SppcClosure) : List Ev :=
  match body.env with
  | none => []
  | some e => (if e.owns then [.freed e.id] else []) ++ if e.dropCaptures then [.dropped e.id] else []

/-- The events that dispose of an environment. -/
def Ev.disposes : Ev → Bool
  | .dropped _ | .freed _ => true
  | _ => false

/-- Of the mappings made in `new` only those of cached stacks are left. -/
def LeavesCached (R : GtRuntime Io) (new : List Ev) : Prop :=
  ∃ l, mappings new = some l ∧ ∀ x ∈ l, ∃ u ∈ R.stackCache, x = stackExtent R R.cachedSize u

/-- A spawn that has failed: the tasks and what handles stand for are as before, nothing that it mapped is left
outside the cache, and the closure was discarded once. -/
structure SpawnFailed (R R' : GtRuntime Io) (body : SppcClosure) : Prop where
  queue : ∃ q, RunQueue R q ∧ RunQueue R' q
  current : R'.current = R.current
  live : R'.live = R.live
  slots : ∀ i < R.nslots, (R.slots i).state ≠ .free → R'.slots i = R.slots i
  handles : ∀ handle, gtResolve R' handle = gtResolve R handle
  log : ∃ new, R'.log = new ++ R.log ∧ LeavesCached R' new ∧ new.filter Ev.disposes = discards body

/-- A spawn that has succeeded: one new task with the closure is ready, at the tail of the run queue, and the handle
stands for it; the closure was not discarded. -/
structure SpawnDone (R R' : GtRuntime Io) (body : SppcClosure) (handle : Int) (t : Nat) : Prop where
  vacant : R.nslots ≤ t ∨ (R.slots t).state = .free
  queue : ∃ q, RunQueue R q ∧ RunQueue R' (q ++ [t])
  ready : (R'.slots t).state = .ready ∧ (R'.slots t).body = body
  others : ∀ i ≠ t, (R'.slots i).state = (R.slots i).state
  handle : gtResolve R' handle = some t
  log : ∃ new, R'.log = new ++ R.log ∧ new.filter Ev.disposes = []

/-- `sppc_async` with the cell for the handle: what it returns, and what the cell holds then. -/
def sppcAsyncInto (R : GtRuntime Io) (out : Int) (body : SppcClosure) (o : SpawnAnswer) : GtRuntime Io × Int × Int :=
  match sppcAsync R body o with
  | (R, .error err) => (R, err, out)
  | (R, .ok handle) => (R, 0, handle)

/-- `sppc_async` is atomic. -/
def SpawnOk (R : GtRuntime Io) (out : Int) (body : SppcClosure) (o : SpawnAnswer) : Prop :=
  let after := sppcAsyncInto R out body o
  (after.2.1 ≠ 0 → after.2.2 = out ∧ SpawnFailed R after.1 body) ∧
    (after.2.1 = 0 → ∃ t, SpawnDone R after.1 body after.2.2 t)

/-! ### What a call has mapped -/

/-- Only mappings and unmappings matter for what is mapped. -/
private theorem mappings_filter (log : List Ev) : mappings (log.filter Ev.mapping) = mappings log := by
  induction log with
  | nil => rfl
  | cons e log ih =>
    cases e with
    | mapped base len prot =>
      rw [List.filter_cons_of_pos rfl, mappings, mappings, ih]
    | mprotected base len prot =>
      rw [List.filter_cons_of_pos rfl]
      exact ih
    | unmapped base len =>
      rw [List.filter_cons_of_pos rfl, mappings, mappings, ih]
    | _ =>
      rw [List.filter_cons_of_neg Bool.false_ne_true, ih]
      rfl

/-- One call's mappings after another's. -/
private theorem mappings_append {l l' : List (Nat × Nat)} (h : mappings new = some l) (h' : mappings new' = some l') :
    mappings (new ++ new') = some (l ++ l') := by
  induction new generalizing l with
  | nil =>
    rw [← Option.some.inj h]
    exact h'
  | cons e new ih =>
    rw [List.cons_append]
    cases e with
    | mapped base len prot =>
      rw [mappings] at h ⊢
      obtain ⟨k, hk, heq⟩ := Option.map_eq_some_iff.1 h
      rw [ih hk, ← heq]
      rfl
    | unmapped base len =>
      rw [mappings] at h ⊢
      obtain ⟨k, hk, heq⟩ := Option.bind_eq_some_iff.1 h
      rw [ih hk, Option.bind_some]
      by_cases hmem : (base, len) ∈ k
      · rw [if_pos hmem] at heq
        rw [if_pos (List.mem_append_left _ hmem), List.erase_append_left _ hmem, Option.some.inj heq]
      · rw [if_neg hmem] at heq
        cases heq
    | _ => exact ih h

/-- `R'` is `R` with other stacks in the cache, `new` the mappings made and given back in between. -/
structure StackOnly (R R' : GtRuntime Io) (new : List Ev) : Prop where
  eq : R' = { R with stackCache := R'.stackCache, cachedSize := R'.cachedSize, log := new ++ R.log }
  mapping : ∀ e ∈ new, e.mapping

theorem StackOnly.trans (h : StackOnly R R' new) (h' : StackOnly R' R'' new') : StackOnly R R'' (new' ++ new) := by
  constructor
  · rw [h'.eq, h.eq, List.append_assoc]
  · intro e he
    rcases List.mem_append.1 he with he | he
    · exact h'.mapping e he
    · exact h.mapping e he

theorem StackOnly.refl (R : GtRuntime Io) : StackOnly R R [] := ⟨rfl, nofun⟩

theorem StackOnly.note {e : Ev} (h : e.mapping) : StackOnly R (R.note e) [e] :=
  ⟨rfl, fun e' he' => by rwa [List.mem_singleton.1 he']⟩

theorem StackOnly.mapped (R : GtRuntime Io) (size u : Nat) :
    StackOnly R { R with log := stackEvents R size u ++ R.log } (stackEvents R size u) := by
  refine ⟨rfl, ?_⟩
  unfold stackEvents
  split
  · exact fun e he => by rcases List.mem_pair.1 he with rfl | rfl <;> rfl
  · exact fun e he => by rw [List.mem_singleton.1 he]; rfl

/-- A stack that is not from the cache: there is none, and what was mapped for it is unmapped; or it is mapped. -/
private theorem gtStackMap_only (R : GtRuntime Io) (size : Nat) (m : MapAnswer) :
    (∃ R' new, gtStackMap R size m = (none, R') ∧ StackOnly R R' new ∧ mappings new = some [] ∧ SameCache R R') ∨
      ∃ u, gtStackMap R size m = (some u, { R with log := stackEvents R size u ++ R.log }) := by
  unfold gtStackMap stackEvents
  by_cases hg : R.guard
  · simp only [if_pos hg]
    cases hm : m.mmap with
    | none => exact Or.inl ⟨R, [], rfl, .refl R, rfl, rfl, rfl, rfl, rfl⟩
    | some p =>
      by_cases hp : m.mprotect
      · refine Or.inr ⟨p + R.page, ?_⟩
        dsimp only
        rw [if_pos hp, Nat.add_sub_cancel]
        rfl
      · refine Or.inl ⟨_, _, if_neg hp, (StackOnly.note rfl).trans (StackOnly.note rfl), ?_, rfl, rfl, rfl, rfl⟩
        exact mappings_undone _ _ _ []
  · simp only [if_neg hg]
    cases hm : m.mmap with
    | none => exact Or.inl ⟨R, [], rfl, .refl R, rfl, rfl, rfl, rfl, rfl⟩
    | some p => exact Or.inr ⟨p, rfl⟩

/-- What `_gt_stack_alloc` gives: nothing, with the cache as it was and not of this size; a cached stack; or a new
one. -/
inductive StackGiven (R R' : GtRuntime Io) (size : Nat) (new : List Ev) : Option Nat → Prop
  | none (hm : mappings new = some []) (hcache : R'.stackCache = R.stackCache) (hsize : R'.cachedSize = R.cachedSize)
      (hno : R.stackCache = [] ∨ R.cachedSize ≠ size) : StackGiven R R' size new none
  | cached {u : Nat} (hnew : new = []) (hcache : R.stackCache = u :: R'.stackCache) (hsize : R.cachedSize = size)
      (hsize' : R'.cachedSize = R.cachedSize) : StackGiven R R' size new (some u)
  | mapped {u : Nat} (hnew : new = stackEvents R size u)
      (hcache : R'.stackCache = R.stackCache) (hsize : R'.cachedSize = R.cachedSize) :
      StackGiven R R' size new (some u)

private theorem gtStackAlloc_only (R : GtRuntime Io) (size : Nat) (m : MapAnswer) :
    ∃ new, StackOnly R (gtStackAlloc R size m).2 new ∧
      StackGiven R (gtStackAlloc R size m).2 size new (gtStackAlloc R size m).1 := by
  have hmap (hno : R.stackCache = [] ∨ R.cachedSize ≠ size) : ∃ new, StackOnly R (gtStackMap R size m).2 new ∧
      StackGiven R (gtStackMap R size m).2 size new (gtStackMap R size m).1 := by
    rcases gtStackMap_only R size m with ⟨R', new, heq, honly, hm, hsame⟩ | ⟨u, heq⟩
    · rw [heq]
      exact ⟨new, honly, .none hm hsame.cache hsame.cachedSize hno⟩
    · rw [heq]
      exact ⟨_, .mapped R size u, .mapped rfl rfl rfl⟩
  unfold gtStackAlloc
  split
  · rename_i top rest hcache
    by_cases hsize : R.cachedSize = size
    · rw [if_pos hsize]
      exact ⟨[], ⟨rfl, nofun⟩, .cached rfl hcache hsize rfl⟩
    · rw [if_neg hsize]
      exact hmap (Or.inr hsize)
  · rename_i hnil
    exact hmap (Or.inl hnil)

private theorem gtStackUnmap_note (R : GtRuntime Io) (u size : Nat) :
    gtStackUnmap R u size = R.note (.unmapped (stackExtent R size u).1 (stackExtent R size u).2) := by
  unfold gtStackUnmap stackExtent
  by_cases hg : R.guard = true
  · rw [if_pos hg, if_pos hg]
  · rw [if_neg hg, if_neg hg]

/-- A stack is given back after the unsafe stack's allocation has failed: it was cached, is cached now, or is
unmapped. -/
private theorem stacks_undone {R₂ R₃ : GtRuntime Io} {m' : MapAnswer} (h₂ : gtStackAlloc R size m = (some u, R₂))
    (h₃ : gtStackAlloc R₂ size m' = (none, R₃)) :
    ∃ new, StackOnly R (gtStackFree R₃ (some u) size) new ∧ LeavesCached (gtStackFree R₃ (some u) size) new := by
  obtain ⟨new₂, honly₂, hgiven₂⟩ := gtStackAlloc_only R size m
  obtain ⟨new₃, honly₃, hgiven₃⟩ := gtStackAlloc_only R₂ size m'
  rw [h₂] at honly₂ hgiven₂
  rw [h₃] at honly₃ hgiven₃
  dsimp only at honly₂ honly₃ hgiven₂ hgiven₃
  have honly := honly₂.trans honly₃
  have hextent : stackExtent R₃ size u = stackExtent R size u := by
    rw [honly.eq]
    rfl
  cases hgiven₃ with
  | none hm₃ hcache₃ hsize₃ hno =>
    unfold gtStackFree
    dsimp only
    by_cases hroom : R₃.stackCache.length < gtStackCache ∧ (R₃.stackCache = [] ∨ R₃.cachedSize = size)
    · rw [if_pos hroom]
      refine ⟨new₃ ++ new₂, ⟨?_, honly.mapping⟩, ?_⟩
      · rw [honly.eq]
      · cases hgiven₂ with
        | cached hnew =>
          exact ⟨[], mappings_append hm₃ (by rw [hnew]; rfl), nofun⟩
        | mapped hnew =>
          refine ⟨[stackExtent R size u],
            mappings_append hm₃ (by rw [hnew, ← List.append_nil (stackEvents R size u), mappings_stackEvents]; rfl),
            fun x hx => ?_⟩
          refine ⟨u, List.mem_cons_self, ?_⟩
          rw [List.mem_singleton.1 hx, ← hextent]
          rfl
    · rw [if_neg hroom, gtStackUnmap_note, hextent]
      have hunmap := honly.trans (StackOnly.note (R := R₃)
        (e := .unmapped (stackExtent R size u).1 (stackExtent R size u).2) rfl)
      refine ⟨_, hunmap, ?_⟩
      cases hgiven₂ with
      | cached hnew hcache hsize hsize' =>
        -- the cache had one stack of this size, so it has room for it again
        refine absurd ⟨?_, Or.inr ?_⟩ hroom
        · have hnil := hno.resolve_right (by rw [hsize', hsize]; exact fun h => h rfl)
          rw [hcache₃, hnil]
          decide
        · rw [hsize₃, hsize', hsize]
      | mapped hnew =>
        refine ⟨[], ?_, nofun⟩
        have hlog : mappings (new₃ ++ new₂) = some [stackExtent R size u] :=
          mappings_append hm₃ (by rw [hnew, ← List.append_nil (stackEvents R size u), mappings_stackEvents]; rfl)
        show mappings (.unmapped _ _ :: (new₃ ++ new₂)) = _
        rw [mappings, hlog, Option.bind_some, if_pos List.mem_cons_self, List.erase_cons_head]

/-! ### The tasks -/

variable {q : List Nat}

/-- The runtime as a spawn finds it: `q` is its run queue, of tasks, and the free slots are free. -/
structure Spawnable (R : GtRuntime Io) (q : List Nat) : Prop where
  queue : RunQueue R q
  queued : ∀ i ∈ q, i < R.nslots ∧ (R.slots i).state ≠ .free
  free : ∀ t, R.freeSlots = some t → t < R.nslots ∧ (R.slots t).state = .free
  live : R.live + 1 < 2 ^ 64
  table : Table R

/-- The tasks are as they were; the table may have grown by free slots. -/
structure Unmoved (R R' : GtRuntime Io) : Prop where
  current : R'.current = R.current
  rqHead : R'.rqHead = R.rqHead
  rqTail : R'.rqTail = R.rqTail
  live : R'.live = R.live
  nslots : R.nslots ≤ R'.nslots
  slots : ∀ i < R.nslots, (R.slots i).state ≠ .free → R'.slots i = R.slots i
  vacant : ∀ i < R'.nslots, R.nslots ≤ i ∨ (R.slots i).state = .free → (R'.slots i).state = .free

theorem Unmoved.queue (h : Unmoved R R') (hs : Spawnable R q) : RunQueue R' q := by
  constructor
  · rw [h.rqHead]
    apply hs.queue.links.congr
    intro i hi
    obtain ⟨hlt, hst⟩ := hs.queued i hi
    show (R'.slots i).next = (R.slots i).next
    rw [h.slots i hlt hst]
  · rw [h.rqTail]
    exact hs.queue.tail

/-- Handles stand for what they stood for. -/
private theorem Unmoved.handles (h : Unmoved R R') (handle : Int) : gtResolve R' handle = gtResolve R handle := by
  have hle := h.nslots
  unfold gtResolve
  generalize asUint32 handle &&& gtIdxMask = i
  dsimp only
  by_cases hpos : handle ≤ 0
  · rw [if_pos (Or.inl hpos), if_pos (Or.inl hpos)]
  by_cases hi' : i ≥ R'.nslots
  · rw [if_pos (Or.inr hi'), if_pos (Or.inr (by omega))]
  rw [if_neg (by omega : ¬(handle ≤ 0 ∨ i ≥ R'.nslots))]
  by_cases hi : i ≥ R.nslots
  · rw [if_pos (Or.inr hi), if_pos (Or.inr (h.vacant i (by omega) (Or.inl hi)))]
  rw [if_neg (by omega : ¬(handle ≤ 0 ∨ i ≥ R.nslots))]
  by_cases hst : (R.slots i).state = .free
  · rw [if_pos (Or.inr hst), if_pos (Or.inr (h.vacant i (by omega) (Or.inr hst)))]
  · rw [h.slots i (by omega) hst]

/-- `_gt_slot_alloc` has handed out the slot `t`. -/
structure SlotTaken (R R' : GtRuntime Io) (t : Nat) : Prop where
  eq : R' = { R with
    slots := R'.slots, freeSlots := R'.freeSlots, nslots := R'.nslots, cslots := R'.cslots,
    live := incr 64 R.live, log := .alloc t :: R.log }
  place : R.freeSlots = some t ∧ R'.nslots = R.nslots ∨ t = R.nslots ∧ R'.nslots = R.nslots + 1
  others : ∀ i ≠ t, R'.slots i = R.slots i

private theorem gtSlotAlloc_cases (ht : Table R) (o : SpawnAnswer) :
    (∃ c, gtSlotAlloc R o = (none, { R with cslots := c })) ∨
      ∃ t R', gtSlotAlloc R o = (some t, R') ∧ SlotTaken R R' t := by
  unfold gtSlotAlloc
  split
  · rename_i t hf
    refine Or.inr ⟨t, _, rfl, ?_⟩
    rw [gtSlotReuse_eq]
    exact ⟨rfl, Or.inl ⟨hf, rfl⟩, fun i hi => if_neg hi⟩
  · split
    · exact Or.inl ⟨R.cslots, rfl⟩
    · rename_i R₁ hg
      obtain ⟨ht₁, hroom, heq⟩ := gtSlotsGrow_table ht hg
      by_cases hcalloc : o.calloc = true
      · rw [if_pos hcalloc, heq]
        refine Or.inr ⟨R.nslots, _, rfl, ?_⟩
        have hlt : R.nslots + 1 < 2 ^ 32 := by
          have := ht.nslots_le'
          omega
        rw [gtSlotFresh_eq]
        exact ⟨rfl, Or.inr ⟨rfl, incr_of_lt hlt⟩, fun i hi => if_neg hi⟩
      · rw [if_neg hcalloc, heq]
        exact Or.inl ⟨_, rfl⟩

theorem Spawnable.vacant (hs : Spawnable R q) (h : SlotTaken R R' t) : R.nslots ≤ t ∨ (R.slots t).state = .free := by
  rcases h.place with ⟨hfree, -⟩ | ⟨rfl, -⟩
  · exact Or.inr (hs.free t hfree).2
  · exact Or.inl (Nat.le_refl _)

private theorem Spawnable.lt (hs : Spawnable R q) (h : SlotTaken R R' t) : t < R'.nslots := by
  rcases h.place with ⟨hfree, hn⟩ | ⟨rfl, hn⟩
  · rw [hn]
    exact (hs.free t hfree).1
  · rw [hn]
    exact Nat.lt_succ_self _

private theorem SlotTaken.nslots_le (h : SlotTaken R R' t) : R.nslots ≤ R'.nslots := by
  rcases h.place with ⟨-, hn⟩ | ⟨-, hn⟩
  · omega
  · omega

/-- The slot is handed back. -/
private theorem Spawnable.handedBack (hs : Spawnable R q) (h : SlotTaken R R' t) (honly : StackOnly R' R'' new) :
    Unmoved R (gtSlotFree R'' t) := by
  have hslots : R''.slots = R'.slots := by rw [honly.eq]
  have hn : R''.nslots = R'.nslots := by rw [honly.eq]
  have hlive : R''.live = incr 64 R.live := by rw [honly.eq, h.eq]
  rw [gtSlotFree_eq]
  constructor
  · rw [honly.eq, h.eq]
  · rw [honly.eq, h.eq]
  · rw [honly.eq, h.eq]
  · show decr 64 R''.live = R.live
    rw [hlive, incr_of_lt hs.live, decr_of_pos (Nat.succ_pos _) (Nat.le_of_lt hs.live)]
    rfl
  · show R.nslots ≤ R''.nslots
    rw [hn]
    exact h.nslots_le
  · intro i hi hst
    have hne : i ≠ t := by
      rintro rfl
      rcases hs.vacant h with hv | hv
      · omega
      · exact hst hv
    show (if i = t then _ else R''.slots i) = R.slots i
    rw [if_neg hne, hslots, h.others i hne]
  · intro i hi hv
    show (if i = t then _ else R''.slots i : GtTask).state = .free
    by_cases hit : i = t
    · rw [if_pos hit]
    · rw [if_neg hit, hslots, h.others i hit]
      refine hv.resolve_left fun hle => ?_
      have hi' : i < R'.nslots := by
        rw [← hn]
        exact hi
      rcases h.place with ⟨-, hn'⟩ | ⟨ht, hn'⟩
      · omega
      · omega

/-! ### A spawn that fails -/

/-- The tasks are as they were, only cached stacks are still mapped, and no environment was disposed of. -/
structure Undone (R R' : GtRuntime Io) : Prop where
  unmoved : Unmoved R R'
  log : ∃ new, R'.log = new ++ R.log ∧ LeavesCached R' new ∧ new.filter Ev.disposes = []

private theorem filter_mapping {p : Ev → Bool} (h : ∀ e ∈ new, e.mapping) (hp : ∀ e : Ev, e.mapping → p e = false) :
    new.filter p = [] :=
  List.filter_eq_nil_iff.2 fun e he => by rw [hp e (h e he)]; exact Bool.false_ne_true

private theorem disposes_of_mapping (e : Ev) (h : e.mapping) : e.disposes = false := by
  cases e with
  | dropped => exact absurd h Bool.false_ne_true
  | freed => exact absurd h Bool.false_ne_true
  | _ => rfl

/-- The slot is handed back and the stacks are too. -/
private theorem Spawnable.undone (hs : Spawnable R q) (h : SlotTaken R R' t) (honly : StackOnly R' R'' new)
    (hleaves : LeavesCached R'' new) : Undone R (gtSlotFree R'' t) := by
  refine ⟨hs.handedBack h honly, .retire t :: (new ++ [.alloc t]), ?_, ?_, ?_⟩
  · rw [gtSlotFree_eq, honly.eq, h.eq]
    simp
  · obtain ⟨l, hl, hcached⟩ := hleaves
    refine ⟨l, ?_, hcached⟩
    rw [← mappings_filter, List.filter_cons_of_neg Bool.false_ne_true, List.filter_append,
      List.filter_cons_of_neg Bool.false_ne_true, List.filter_nil, List.append_nil, mappings_filter, hl]
  · rw [List.filter_cons_of_neg Bool.false_ne_true, List.filter_append,
      filter_mapping honly.mapping disposes_of_mapping]
    rfl

/-- `_gt_spawn` fails with `ENOMEM`, and has undone what it did; or it ends with the new task's stacks allocated. -/
theorem gtSpawn_cases (hs : Spawnable R q) (body : SppcClosure) (o : SpawnAnswer) :
    (∃ R', gtSpawn R body o = (R', .error enomem) ∧ Undone R R') ∨
      ∃ t R' R'' new size stack ustack, SlotTaken R R' t ∧ StackOnly R' R'' new ∧
        gtSpawn R body o = gtSpawnReady R'' t body size stack ustack := by
  unfold gtSpawn
  rcases gtSlotAlloc_cases hs.table o with ⟨c, heq⟩ | ⟨t, R₁, heq, htaken⟩
  · rw [heq]
    refine Or.inl ⟨_, rfl, ⟨rfl, rfl, rfl, rfl, Nat.le_refl _, fun _ _ _ => rfl, fun i hi hv => ?_⟩, ?_⟩
    · exact hv.resolve_left (Nat.not_le.2 hi)
    · exact ⟨[], rfl, ⟨[], rfl, nofun⟩, rfl⟩
  rw [heq]
  dsimp only
  obtain ⟨new₂, honly₂, hgiven₂⟩ := gtStackAlloc_only R₁ R₁.stackSize o.stack
  cases hstack : gtStackAlloc R₁ R₁.stackSize o.stack with
  | mk p R₂ =>
  rw [hstack] at honly₂ hgiven₂
  dsimp only at honly₂ hgiven₂
  cases p with
  | none =>
    refine Or.inl ⟨_, rfl, hs.undone htaken honly₂ ?_⟩
    cases hgiven₂ with
    | none hm => exact ⟨[], hm, nofun⟩
  | some stack =>
    dsimp only
    by_cases hwanted : R₂.unsafeStackWanted = true
    · rw [if_pos hwanted]
      obtain ⟨new₃, honly₃, -⟩ := gtStackAlloc_only R₂ R₁.stackSize o.ustack
      cases hustack : gtStackAlloc R₂ R₁.stackSize o.ustack with
      | mk p R₃ =>
      rw [hustack] at honly₃
      cases p with
      | none =>
        obtain ⟨new, honly, hleaves⟩ := stacks_undone hstack hustack
        exact Or.inl ⟨_, rfl, hs.undone htaken honly hleaves⟩
      | some ustack =>
        exact Or.inr ⟨t, R₁, R₃, _, _, stack, some ustack, htaken, honly₂.trans honly₃, rfl⟩
    · rw [if_neg hwanted]
      exact Or.inr ⟨t, R₁, R₂, _, _, stack, none, htaken, honly₂, rfl⟩

/-! ### A spawn that succeeds -/

private theorem Spawnable.not_mem (hs : Spawnable R q) (h : SlotTaken R R' t) : t ∉ q := by
  intro hmem
  obtain ⟨hlt, hst⟩ := hs.queued t hmem
  rcases hs.vacant h with hv | hv
  · omega
  · exact hst hv

/-- The task `t` with the closure is ready, at the tail of the run queue. -/
structure Readied (R R' : GtRuntime Io) (t : Nat) (body : SppcClosure) : Prop where
  rqHead : R'.rqHead = if R.rqTail = none then some t else R.rqHead
  rqTail : R'.rqTail = some t
  nslots : R'.nslots = R.nslots
  log : R'.log = .spawned t :: R.log
  state : ∀ i, (R'.slots i).state = if i = t then .ready else (R.slots i).state
  next : ∀ i, (R'.slots i).next = if R.rqTail = some i then some t else if i = t then none else (R.slots i).next
  body : (R'.slots t).body = body

private theorem gtSpawnReady_readied (R : GtRuntime Io) (t : Nat) (body : SppcClosure) (size stack : Nat)
    (ustack : Option Nat) : Readied R (gtSpawnReady R t body size stack ustack).1 t body := by
  unfold gtSpawnReady
  dsimp only
  rw [gtRqPush_eq]
  refine ⟨rfl, rfl, rfl, rfl, fun i => ?_, fun i => ?_, ?_⟩
  · simp only [GtRuntime.note, GtRuntime.modify, Function.update_apply]
    split
    · rfl
    · rfl
  · simp only [GtRuntime.note, GtRuntime.modify, Function.update_apply]
    split
    · rfl
    · split
      · rfl
      · rfl
  · simp only [GtRuntime.note, GtRuntime.modify, Function.update_self]

/-- The new task is pushed, and the table is as it should be. -/
theorem Spawnable.done {stack : Nat} {ustack : Option Nat} (hs : Spawnable R q) (h : SlotTaken R R' t)
    (honly : StackOnly R' R'' new) (ht : Table (gtSpawnReady R'' t body size stack ustack).1) :
    ∃ handle, (gtSpawnReady R'' t body size stack ustack).2 = .ok handle ∧
      SpawnDone R (gtSpawnReady R'' t body size stack ustack).1 body handle t := by
  have hslots : R''.slots = R'.slots := by rw [honly.eq]
  have hhead : R''.rqHead = R.rqHead := by rw [honly.eq, h.eq]
  have htail : R''.rqTail = R.rqTail := by rw [honly.eq, h.eq]
  have hn : R''.nslots = R'.nslots := by rw [honly.eq]
  have hlog : R''.log = new ++ .alloc t :: R.log := by rw [honly.eq, h.eq]
  have hready := gtSpawnReady_readied R'' t body size stack ustack
  have hhandle : (gtSpawnReady R'' t body size stack ustack).2 =
      .ok (gtHandle ((gtSpawnReady R'' t body size stack ustack).1.slots t)) := rfl
  generalize gtSpawnReady R'' t body size stack ustack = S at ht hready hhandle ⊢
  have hq := hs.not_mem h
  have hlast : R.rqTail ≠ some t := by
    rw [hs.queue.tail]
    exact fun hl => hq (List.mem_of_getLast? hl)
  have hlt : t < S.1.nslots := by
    rw [hready.nslots, hn]
    exact hs.lt h
  refine ⟨_, hhandle, ?_⟩
  constructor
  · exact hs.vacant h
  · refine ⟨q, hs.queue, ?_, ?_⟩
    · apply hs.queue.links.snoc hs.queue.tail
      · show (S.1.slots t).next = none
        rw [hready.next, htail, if_neg hlast, if_pos rfl]
      · rw [hready.rqHead, htail, hhead]
      · intro b hb
        show (S.1.slots b).next = some t
        rw [hready.next, htail, if_pos hb]
      · intro c hc hcb
        have hne : c ≠ t := fun heq => hq (heq ▸ hc)
        show (S.1.slots c).next = (R.slots c).next
        rw [hready.next, htail, if_neg hcb, if_neg hne, hslots, h.others c hne]
    · rw [hready.rqTail]
      exact List.getLast?_concat.symm
  · constructor
    · rw [hready.state, if_pos rfl]
    · exact hready.body
  · intro i hi
    rw [hready.state, if_neg hi, hslots, h.others i hi]
  · obtain ⟨hpacked, hlt31⟩ := ht.gtHandle_eq hlt
    apply (gtResolve_eq_some ht _).2
    · refine ⟨hlt, ?_, rfl⟩
      rw [hready.state, if_pos rfl]
      decide
    · rw [hpacked]
      omega
  · refine ⟨.spawned t :: (new ++ [.alloc t]), ?_, ?_⟩
    · rw [hready.log, hlog]
      simp
    · rw [List.filter_cons_of_neg Bool.false_ne_true, List.filter_append,
        filter_mapping honly.mapping disposes_of_mapping]
      rfl

/-! ### The closure in hand -/

theorem discard_eq (R : GtRuntime Io) (body : SppcClosure) :
    sppcClosureDiscard R body = { R with log := discards body ++ R.log } := by
  unfold sppcClosureDiscard discards sppcEnvFree
  cases body.env with
  | none => rfl
  | some e =>
    dsimp only
    by_cases howns : e.owns = true
    · by_cases hdrop : e.dropCaptures = true
      · simp only [if_pos howns, if_pos hdrop]
        rfl
      · simp only [if_pos howns, if_neg hdrop]
        rfl
    · by_cases hdrop : e.dropCaptures = true
      · simp only [if_neg howns, if_pos hdrop]
        rfl
      · simp only [if_neg howns, if_neg hdrop]
        rfl

private theorem discards_disposes (body : SppcClosure) :
    (discards body).filter Ev.disposes = discards body ∧ (discards body).filter Ev.mapping = [] := by
  unfold discards
  cases body.env with
  | none => exact ⟨rfl, rfl⟩
  | some e =>
    dsimp only
    by_cases howns : e.owns = true
    · by_cases hdrop : e.dropCaptures = true
      · rw [if_pos howns, if_pos hdrop]
        exact ⟨rfl, rfl⟩
      · rw [if_pos howns, if_neg hdrop]
        exact ⟨rfl, rfl⟩
    · by_cases hdrop : e.dropCaptures = true
      · rw [if_neg howns, if_pos hdrop]
        exact ⟨rfl, rfl⟩
      · rw [if_neg howns, if_neg hdrop]
        exact ⟨rfl, rfl⟩

theorem giveClosure_eq (R : GtRuntime Io) (body : SppcClosure) :
    ∃ l, giveClosure R body = { R with log := l ++ R.log } ∧ l.filter Ev.disposes = [] ∧
      l.filter Ev.mapping = [] := by
  unfold giveClosure
  cases body.env with
  | none => exact ⟨[], rfl, rfl, rfl⟩
  | some e => exact ⟨[.given e], rfl, rfl, rfl⟩

theorem Spawnable.setLog (h : Spawnable R q) (l : List Ev) : Spawnable { R with log := l } q :=
  ⟨⟨h.queue.links, h.queue.tail⟩, h.queued, h.free, h.live,
    ⟨h.table.size, h.table.nslots_le, h.table.idx, h.table.gen⟩⟩

/-- Where a spawn finds the runtime as it should, it succeeds or nothing has happened. -/
theorem Spawnable.spawnOk (hs : Spawnable R q) (out : Int) (body : SppcClosure) (o : SpawnAnswer) :
    SpawnOk R out body o := by
  obtain ⟨given, hgiven, hno, hnomap⟩ := giveClosure_eq R body
  have hs₀ : Spawnable (giveClosure R body) q := by
    rw [hgiven]
    exact hs.setLog _
  have hkeeps := (gtSpawn_keeps (giveClosure R body) body o hs₀.table).1
  unfold SpawnOk sppcAsyncInto sppcAsync
  rcases gtSpawn_cases hs₀ body o with ⟨R', heq, hundone⟩ | ⟨t, R₁, R₂, new, size, stack, ustack, htaken, honly, heq⟩
  · rw [heq]
    dsimp only
    refine ⟨fun _ => ⟨rfl, ?_⟩, fun h0 => absurd h0 (by decide)⟩
    obtain ⟨hunmoved, new, hlog, ⟨l, hl, hcached⟩, hnew⟩ := hundone
    have hqueue := hunmoved.queue hs₀
    have hhandles := hunmoved.handles
    rw [hgiven] at hunmoved hlog hhandles
    rw [discard_eq]
    refine ⟨⟨q, hs.queue, hqueue.links, hqueue.tail⟩, hunmoved.current, hunmoved.live, hunmoved.slots, hhandles, ?_⟩
    obtain ⟨hdisp, hdispmap⟩ := discards_disposes body
    refine ⟨discards body ++ (new ++ given), ?_, ⟨l, ?_, hcached⟩, ?_⟩
    · show discards body ++ R'.log = _
      rw [hlog, List.append_assoc, List.append_assoc]
    · rw [← mappings_filter, List.filter_append, List.filter_append, hdispmap, hnomap, List.nil_append,
        List.append_nil, mappings_filter, hl]
    · rw [List.filter_append, List.filter_append, hdisp, hnew, hno, List.append_nil, List.append_nil]
  · rw [heq] at hkeeps ⊢
    obtain ⟨handle, hhandle, hdone⟩ := hs₀.done htaken honly hkeeps
    rw [← Prod.mk.eta (p := gtSpawnReady R₂ t body size stack ustack), hhandle]
    dsimp only
    refine ⟨fun h0 => absurd rfl h0, fun _ => ⟨t, ?_⟩⟩
    obtain ⟨hvacant, ⟨k, hk, hk'⟩, hready, hothers, hresolves, new', hlog, hnew⟩ := hdone
    rw [hgiven] at hvacant hk hothers hlog
    refine ⟨hvacant, ⟨k, ⟨hk.links, hk.tail⟩, hk'⟩, hready, hothers, hresolves, new' ++ given, ?_, ?_⟩
    · rw [hlog, List.append_assoc]
    · rw [List.filter_append, hnew, hno, List.append_nil]

section
variable [IoBackend Io] [LawfulIoBackend Io] {v : Roster} {s : Machine Io}

theorem Live.spawnable (h : Live s v) (ht : Table s.rt) : Spawnable s.rt v.ready := by
  obtain ⟨hm, -, -⟩ := h
  constructor
  · exact ⟨hm.lists.ready, hm.lists.tail⟩
  · intro i hi
    obtain ⟨f, hf⟩ := (hm.ok.ready_iff i).1 hi
    constructor
    · by_contra hlt
      rw [(hm.lists.unused_iff i).2 (Nat.not_lt.1 hlt)] at hf
      exact absurd hf nofun
    · rw [hm.lists.state i .ready (by rw [hf]; rfl)]
      decide
  · intro t hf
    have hlink := hm.lists.free
    rw [hf] at hlink
    obtain ⟨l, hl, -⟩ := hlink.exists_cons
    have hrole : v.role t = .free := (hm.ok.free_iff t).1 (by rw [hl]; exact List.mem_cons_self)
    constructor
    · by_contra hlt
      rw [(hm.lists.unused_iff t).2 (Nat.not_lt.1 hlt)] at hrole
      exact absurd hrole nofun
    · exact hm.lists.state t .free (by rw [hrole]; rfl)
  · have hlive := hm.counts.live
    have hle := hm.counts.nslots_le
    omega
  · exact ht

/-- In every run in which no task is both awaited and detached and every submission is accepted, a call of
`sppc_async` with any closure, whatever the allocations answer, has a new task ready at the tail of the run queue or
has undone all it did. -/
theorem async_atomic (h : Reachable s) (hboth : NeverBoth s.rt.log) (hacc : AllAccepted s.rt.log) (hc : s.ctl = .code)
    (out : Int) (body : SppcClosure) (o : SpawnAnswer) : SpawnOk s.rt out body o := by
  rcases h.inv hboth hacc with ⟨v, hv⟩ | ⟨hexit, -⟩
  · exact (hv.spawnable h.table).spawnOk out body o
  · rw [hc] at hexit
    exact absurd hexit nofun

end

/-- Task 1 runs and spawns; there is no memory for a stack. -/
theorem async_atomic_starved : ∃ s : Machine BlockingIo,
    Transition.run step (gtInit BlockingIo.unused 4096 false) [.async ⟨1, none⟩ spawnServed, .yield] = some s ∧
      SpawnOk s.rt 0 ⟨2, some ⟨5, true, true⟩⟩ spawnStarved := by
  have hrun : (Transition.run step (gtInit BlockingIo.unused 4096 false) [.async ⟨1, none⟩ spawnServed, .yield]).map
      (fun s => (s.ctl, s.rt.log)) =
      some (.code, [.started 1, .spawned 1, .mprotected 8192 131072 .readWrite, .mapped 4096 135168 .none, .alloc 1,
        .started 0, .spawned 0, .alloc 0]) := by decide +kernel
  obtain ⟨s, hs, hpair⟩ := Option.map_eq_some_iff.1 hrun
  obtain ⟨hc, hlog⟩ : s.ctl = .code ∧ s.rt.log = [.started 1, .spawned 1, .mprotected 8192 131072 .readWrite,
    .mapped 4096 135168 .none, .alloc 1, .started 0,
      .spawned 0, .alloc 0] := by simpa only [Prod.mk.injEq] using hpair
  have hreach : Reachable s := ⟨.unused, 4096, false, trivial, _, hs⟩
  have hboth : NeverBoth s.rt.log := .of_slots fun t w ht => by simp [hlog] at ht
  exact ⟨s, hs, async_atomic hreach hboth (fun t => by simp [hlog]) hc 0 _ _⟩

/-- Task 1 was awaited and detached, so that its slot was retired twice and is still the first free one when it has
been given to another task: a spawn that fails takes the slot of that task, and hands it back. -/
theorem spawn_frees_ready : ¬∀ s : Machine BlockingIo, Reachable s → s.ctl = .code → ∀ out body o,
    SpawnOk s.rt out body o := by
  intro hall
  have hrun : (Transition.run step (gtInit BlockingIo.unused 4096 false)
      [.async ⟨1, none⟩ spawnServed, .async ⟨2, none⟩ spawnServed, .yield, .yield, .await 1048577, .turn,
        .detach 1048577, .yield, .finish, .turn, .yield, .async ⟨3, none⟩ spawnServed]).map (fun s =>
      (s.ctl, s.rt.nslots, (s.rt.slots 1).state, (sppcAsyncInto s.rt 0 ⟨4, none⟩ spawnStarved).2.1,
        ((sppcAsyncInto s.rt 0 ⟨4, none⟩ spawnStarved).1.slots 1).state)) =
      some (.code, 3, .ready, enomem, .free) := by decide +kernel
  obtain ⟨s, hs, hvals⟩ := Option.map_eq_some_iff.1 hrun
  obtain ⟨hc, hn, hready, herr, hfree⟩ :
      s.ctl = .code ∧ s.rt.nslots = 3 ∧ (s.rt.slots 1).state = .ready ∧
        (sppcAsyncInto s.rt 0 ⟨4, none⟩ spawnStarved).2.1 = enomem ∧
        ((sppcAsyncInto s.rt 0 ⟨4, none⟩ spawnStarved).1.slots 1).state = .free := by
    simpa only [Prod.mk.injEq] using hvals
  have hok := hall s ⟨.unused, 4096, false, trivial, _, hs⟩ hc 0 ⟨4, none⟩ spawnStarved
  unfold SpawnOk at hok
  dsimp only at hok
  rw [herr] at hok
  obtain ⟨-, hfailed⟩ := hok.1 (by decide)
  have hsame := hfailed.slots 1 (by rw [hn]; decide) (by rw [hready]; decide)
  rw [hsame, hready] at hfree
  exact absurd hfree nofun

end Sppc
