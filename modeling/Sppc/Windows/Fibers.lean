import Sppc.Runtime
import Mathlib.Data.List.Perm.Basic

/-!
# Fibers (`async/context.h`)

On Windows a task's own stack is a fiber's, and the fibers of finished tasks are kept for the next ones.  What
`CreateFiberEx` answers is an argument; fibers made and deleted are logged.
-/

namespace Sppc

/-! ### Things of one size that are kept -/

/-- What is in use, and what is kept, each with its size. -/
def heldBy (live : List (Nat × Nat)) (cache : List Nat) (size : Nat) : List (Nat × Nat) :=
  live ++ cache.map (·, size)

section

variable {live : List (Nat × Nat)} {cache : List Nat} {size u : Nat} {x : Nat × Nat}

theorem mem_heldBy_live (h : x ∈ live) : x ∈ heldBy live cache size := List.mem_append_left _ h

theorem mem_heldBy_cache (h : u ∈ cache) : (u, size) ∈ heldBy live cache size :=
  List.mem_append_right _ (List.mem_map_of_mem h)

/-- One that is kept comes into use. -/
theorem heldBy_take : (heldBy live (u :: cache) size).Perm ((u, size) :: heldBy live cache size) := List.perm_middle

/-- One that was in use is no longer held. -/
theorem heldBy_drop (hx : x ∈ live) : (heldBy live cache size).Perm (x :: heldBy (live.erase x) cache size) :=
  (List.perm_cons_erase hx).append_right _

/-- One that was in use is kept. -/
theorem heldBy_keep (hx : x ∈ live) (h : cache = [] ∨ size = x.2) :
    (heldBy live cache size).Perm (heldBy (live.erase x) (x.1 :: cache) x.2) := by
  have hsame : heldBy live cache size = heldBy live cache x.2 := by
    rcases h with rfl | rfl
    · rfl
    · rfl
  rw [hsame]
  exact (heldBy_drop hx).trans heldBy_take.symm

end

/-! ### The fibers of a thread -/

/-- What has been done with fibers. -/
inductive FiberEv
  | created (fiber size : Nat)
  | deleted (fiber : Nat)
  deriving DecidableEq, Repr

/-- The fibers that the runtime keeps, all of one size, and the log. -/
structure GtFibers where
  fiberCache : List Nat
  fiberCachedSize : Nat
  log : List FiberEv

/-- `_gt_task_stack_alloc` where the cache has nothing to give, and `CreateFiberEx` answers `created`. -/
def gtTaskStackNew (F : GtFibers) (size : Nat) (created : Option Nat) : Option Nat × GtFibers :=
  match created with
  | none => (none, F)
  | some f => (some f, { F with log := .created f size :: F.log })

/-- `_gt_task_stack_alloc`. -/
def gtTaskStackAlloc (F : GtFibers) (size : Nat) (created : Option Nat) : Option Nat × GtFibers :=
  match F.fiberCache with
  | top :: rest =>
    if F.fiberCachedSize = size then (some top, { F with fiberCache := rest }) else gtTaskStackNew F size created
  | [] => gtTaskStackNew F size created

/-- `_gt_task_stack_unmap`. -/
def gtTaskStackUnmap (F : GtFibers) (fiber _size : Nat) : GtFibers := { F with log := .deleted fiber :: F.log }

/-- `_gt_task_stack_free`. -/
def gtTaskStackFree (F : GtFibers) (fiber : Option Nat) (size : Nat) : GtFibers :=
  match fiber with
  | none => F
  | some f =>
    if F.fiberCache.length < gtStackCache ∧ (F.fiberCache = [] ∨ F.fiberCachedSize = size) then
      { F with fiberCachedSize := size, fiberCache := f :: F.fiberCache }
    else gtTaskStackUnmap F f size

/-- `_gt_task_stacks_flush`: every kept fiber is deleted, the last one freed first. -/
def gtTaskStacksFlush (F : GtFibers) : List Nat → GtFibers
  | [] => { F with fiberCache := [] }
  | f :: rest => gtTaskStacksFlush (gtTaskStackUnmap F f F.fiberCachedSize) rest

/-- The fibers that a log leaves, each with its size: `none` once one is deleted that is not there. -/
def fibersLeft : List FiberEv → Option (List (Nat × Nat))
  | [] => some []
  | .created f size :: log => (fibersLeft log).map fun l => (f, size) :: l
  | .deleted f :: log =>
    (fibersLeft log).bind fun l => if ∃ x ∈ l, x.1 = f then some (l.eraseP fun x => x.1 = f) else none

/-- What the system answers: a new fiber is none of those that are there. -/
def GtFibers.Answers (F : GtFibers) (created : Option Nat) : Prop :=
  ∀ f, created = some f → ∀ l, fibersLeft F.log = some l → ∀ x ∈ l, x.1 ≠ f

/-- What is to hold of the fibers, those in use being `live`: each has been deleted at most once; those in use are
there, with their sizes, and no two of them are the same; a kept fiber is not in use, and has the size that all have;
and whoever asks for a fiber gets one of that size that is not in use. -/
structure FibersOk (F : GtFibers) (live : List (Nat × Nat)) : Prop where
  left : ∃ l, fibersLeft F.log = some l ∧ (∀ x ∈ live, x ∈ l) ∧ ∀ f ∈ F.fiberCache, (f, F.fiberCachedSize) ∈ l
  distinct : (live.map Prod.fst).Nodup
  cached : ∀ f ∈ F.fiberCache, ∀ x ∈ live, x.1 ≠ f
  alloc : ∀ size created f, F.Answers created → (gtTaskStackAlloc F size created).1 = some f →
    (∀ x ∈ live, x.1 ≠ f) ∧ ∃ l, fibersLeft (gtTaskStackAlloc F size created).2.log = some l ∧ (f, size) ∈ l

/-- The fibers that are there are those in use and those kept. -/
structure FibersHeld (F : GtFibers) (held l : List (Nat × Nat)) : Prop where
  log : fibersLeft F.log = some l
  perm : held.Perm l
  nodup : (l.map Prod.fst).Nodup

variable {F F' : GtFibers} {live held l : List (Nat × Nat)} {x : Nat × Nat} {size f : Nat}
  {created fiber : Option Nat}

theorem FibersHeld.of_perm {held' : List (Nat × Nat)} (h : FibersHeld F held l) (hp : held.Perm held') :
    FibersHeld F held' l :=
  ⟨h.log, hp.symm.trans h.perm, h.nodup⟩

/-- Fibers that are held are not the same. -/
private theorem FibersHeld.distinct (h : FibersHeld F held l) : (held.map Prod.fst).Nodup :=
  (h.perm.map Prod.fst).nodup_iff.2 h.nodup

/-- A fiber is deleted. -/
theorem FibersHeld.unmap (h : FibersHeld F (x :: held) l) :
    ∃ l', FibersHeld (gtTaskStackUnmap F x.1 x.2) held l' := by
  have hmem : x ∈ l := h.perm.subset List.mem_cons_self
  have hpair : (x :: held).Pairwise fun a b => decide (a.1 = x.1) → decide (b.1 = x.1) → False := by
    refine (List.pairwise_map.1 h.distinct).imp fun hne ha hb => hne ?_
    rw [of_decide_eq_true ha, of_decide_eq_true hb]
  have hperm := h.perm.eraseP (fun y => decide (y.1 = x.1)) hpair
  rw [List.eraseP_cons_of_pos (by exact decide_eq_true rfl)] at hperm
  refine ⟨l.eraseP fun y => y.1 = x.1, ?_, hperm, ?_⟩
  · rw [gtTaskStackUnmap]
    dsimp only
    rw [fibersLeft, h.log, Option.bind_some, if_pos ⟨x, hmem, rfl⟩]
  · exact h.nodup.sublist (List.eraseP_sublist.map _)

/-- Every kept fiber is deleted. -/
theorem FibersHeld.flush (cache : List Nat) (h : FibersHeld F (heldBy live cache F.fiberCachedSize) l) :
    ∃ l', FibersHeld (gtTaskStacksFlush F cache) live l' ∧ (gtTaskStacksFlush F cache).fiberCache = [] := by
  induction cache generalizing F l with
  | nil =>
    rw [heldBy, List.map_nil, List.append_nil] at h
    exact ⟨l, ⟨h.log, h.perm, h.nodup⟩, rfl⟩
  | cons f cache ih =>
    obtain ⟨l', hl'⟩ := (h.of_perm heldBy_take).unmap
    exact ih hl'

/-- A fiber is asked for. -/
theorem FibersHeld.alloc (h : FibersHeld F (heldBy live F.fiberCache F.fiberCachedSize) l) (ha : F.Answers created)
    {p : Option Nat} (heq : gtTaskStackAlloc F size created = (p, F')) :
    ∃ l', FibersHeld F' (heldBy ((p.map fun f => (f, size)).toList ++ live) F'.fiberCache F'.fiberCachedSize) l' := by
  have hnew (heq : gtTaskStackNew F size created = (p, F')) :
      ∃ l', FibersHeld F' (heldBy ((p.map fun f => (f, size)).toList ++ live) F'.fiberCache F'.fiberCachedSize)
        l' := by
    cases created with
    | none =>
      obtain ⟨rfl, rfl⟩ := Prod.mk.inj heq
      exact ⟨l, h⟩
    | some f =>
      obtain ⟨rfl, rfl⟩ := Prod.mk.inj heq
      refine ⟨(f, size) :: l, ?_, h.perm.cons _, ?_⟩
      · dsimp only
        rw [fibersLeft, h.log]
        rfl
      · refine List.nodup_cons.2 ⟨fun hmem => ?_, h.nodup⟩
        obtain ⟨x, hx, hxf⟩ := List.mem_map.1 hmem
        exact ha f rfl l h.log x hx hxf
  rw [gtTaskStackAlloc] at heq
  split at heq
  · rename_i top rest hcache
    split at heq
    · rename_i hsize
      obtain ⟨rfl, rfl⟩ := Prod.mk.inj heq
      rw [hcache, hsize] at h
      refine ⟨l, h.log, ?_, h.nodup⟩
      show (heldBy ((top, size) :: live) rest F.fiberCachedSize).Perm l
      rw [hsize]
      exact (h.of_perm heldBy_take).perm
    · exact hnew heq
  · exact hnew heq

/-- A fiber is given back. -/
theorem FibersHeld.free (h : FibersHeld F (heldBy live F.fiberCache F.fiberCachedSize) l) (hx : x ∈ live) :
    ∃ l', FibersHeld (gtTaskStackFree F (some x.1) x.2) (heldBy (live.erase x)
      (gtTaskStackFree F (some x.1) x.2).fiberCache (gtTaskStackFree F (some x.1) x.2).fiberCachedSize) l' := by
  rw [gtTaskStackFree]
  split
  · rename_i hroom
    have hheld := h.of_perm (heldBy_keep hx hroom.2)
    exact ⟨l, hheld.log, hheld.perm, hheld.nodup⟩
  · exact (h.of_perm (heldBy_drop hx)).unmap

theorem FibersHeld.ok (h : FibersHeld F (heldBy live F.fiberCache F.fiberCachedSize) l) : FibersOk F live := by
  have hapart {live : List (Nat × Nat)} {cache : List Nat} {size : Nat}
    (hnodup : ((heldBy live cache size).map Prod.fst).Nodup) :
      (live.map Prod.fst).Nodup ∧ ∀ f ∈ cache, ∀ x ∈ live, x.1 ≠ f := by
    rw [heldBy, List.map_append] at hnodup
    obtain ⟨hlive, -, hcross⟩ := List.nodup_append.1 hnodup
    refine ⟨hlive, fun f hf x hx => hcross x.1 (List.mem_map_of_mem hx) f ?_⟩
    rw [List.map_map]
    exact List.mem_map.2 ⟨f, hf, rfl⟩
  obtain ⟨hdistinct, hcached⟩ := hapart h.distinct
  refine ⟨⟨l, h.log, fun x hx => h.perm.subset (mem_heldBy_live hx), fun f hf => h.perm.subset (mem_heldBy_cache hf)⟩,
    hdistinct, hcached, fun size created f ha hf => ?_⟩
  obtain ⟨l', hl'⟩ := h.alloc ha (Prod.eta (gtTaskStackAlloc F size created)).symm
  rw [hf] at hl'
  obtain ⟨hnodup, -⟩ := hapart hl'.distinct
  obtain ⟨hnew, -⟩ := List.nodup_cons.1 hnodup
  refine ⟨fun x hx heq => hnew (List.mem_map.2 ⟨x, hx, heq⟩), l', hl'.log, hl'.perm.subset (mem_heldBy_live ?_)⟩
  exact List.mem_cons_self

end Sppc
