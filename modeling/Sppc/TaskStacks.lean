import Sppc.Machine
import Sppc.Windows.Fibers

/-!
# The mappings of task stacks

Stacks are allocated and given back in any order, and the size and the guard setting change in between.  The extent of
a mapping is made up anew from the guard setting whenever it is unmapped, so the setting has to be the one that the
stack was mapped with: it must not change while a stack is in use.  On Windows the fibers come beside them, which no
setting is about.
-/

namespace Sppc

variable {Io : Type}

/-- The mappings that a log leaves, each with its base and length: `none` once one is unmapped that is not there. -/
def mappings : List Ev → Option (List (Nat × Nat))
  | [] => some []
  | .mapped base len _ :: log => (mappings log).map fun l => (base, len) :: l
  | .unmapped base len :: log =>
    (mappings log).bind fun l => if (base, len) ∈ l then some (l.erase (base, len)) else none
  | _ :: log => mappings log

/-- The protection of the byte at `a`, if it is mapped. -/
def protAt : List Ev → Nat → Option Prot
  | [], _ => none
  | .mapped base len prot :: log, a => if base ≤ a ∧ a < base + len then some prot else protAt log a
  | .mprotected base len prot :: log, a => if base ≤ a ∧ a < base + len then some prot else protAt log a
  | .unmapped base len :: log, a => if base ≤ a ∧ a < base + len then none else protAt log a
  | _ :: log, a => protAt log a

/-- The whole stack can be read and written. -/
def Usable (log : List Ev) (s : Nat × Nat) : Prop := ∀ a, s.1 ≤ a → a < s.1 + s.2 → protAt log a = some .readWrite

/-- The stack at `u` has a guard page: the page below it is mapped, and cannot be accessed. -/
def Guarded (log : List Ev) (page u : Nat) : Prop := page ≤ u ∧ ∀ a, u - page ≤ a → a < u → protAt log a = some .none

/-- Two regions, each a base and a length, have no byte in common. -/
def Apart (a b : Nat × Nat) : Prop := a.1 + a.2 ≤ b.1 ∨ b.1 + b.2 ≤ a.1

instance Apart.decidable (a b : Nat × Nat) : Decidable (Apart a b) := inferInstanceAs (Decidable (_ ∨ _))

/-- The mapping of a stack, its usable part and the guard page below it, if it has one. -/
def extent (guard : Bool) (page : Nat) (s : Nat × Nat) : Nat × Nat :=
  if guard then (s.1 - page, s.2 + page) else s

/-- The mapping of a stack is not empty, and the guard page is within the address space. -/
structure Sized (guard : Bool) (page : Nat) (s : Nat × Nat) : Prop where
  pos : 0 < (extent guard page s).2
  fits : guard → page ≤ s.1 ∧ s.2 + page < 2 ^ 64

/-- The runtime with its fibers, and the stacks and fibers that are in use, each with its address or handle and its
size. -/
structure StackRun (Io : Type) where
  rt : GtRuntime Io
  live : List (Nat × Nat)
  fibers : GtFibers
  liveFibers : List (Nat × Nat)

/-- A call.  Stacks in use are unmapped, and kept ones flushed, when the thread ends. -/
inductive StackOp
  | alloc (size : Nat) (m : MapAnswer)
  | free (s : Nat × Nat)
  | unmap (s : Nat × Nat)
  | flush
  | setStackSize (bytes : Nat)
  | setGuardPages (enabled : Bool)
  | taskAlloc (size : Nat) (created : Option Nat)
  | taskFree (f : Nat × Nat)
  | taskUnmap (f : Nat × Nat)
  | tasksFlush
  deriving DecidableEq, Repr

namespace StackRun

/-- What a call does: only a stack that is in use is given back, with its own size. -/
def step (s : StackRun Io) : StackOp → Option (StackRun Io)
  | .alloc size m =>
    let (p, rt) := gtStackAlloc s.rt size m
    some { s with rt := rt, live := (p.map fun u => (u, size)).toList ++ s.live }
  | .free x =>
    if x ∈ s.live then some { s with rt := gtStackFree s.rt (some x.1) x.2, live := s.live.erase x } else none
  | .unmap x => if x ∈ s.live then some { s with rt := gtStackUnmap s.rt x.1 x.2, live := s.live.erase x } else none
  | .flush => some { s with rt := gtStackFlush s.rt s.rt.stackCache }
  | .setStackSize bytes => some { s with rt := gtSetStackSize s.rt bytes }
  | .setGuardPages enabled => some { s with rt := gtSetGuardPages s.rt enabled }
  | .taskAlloc size created =>
    let (p, fibers) := gtTaskStackAlloc s.fibers size created
    some { s with fibers := fibers, liveFibers := (p.map fun f => (f, size)).toList ++ s.liveFibers }
  | .taskFree x =>
    if x ∈ s.liveFibers then
      some { s with fibers := gtTaskStackFree s.fibers (some x.1) x.2, liveFibers := s.liveFibers.erase x }
    else none
  | .taskUnmap x =>
    if x ∈ s.liveFibers then
      some { s with fibers := gtTaskStackUnmap s.fibers x.1 x.2, liveFibers := s.liveFibers.erase x }
    else none
  | .tasksFlush => some { s with fibers := gtTaskStacksFlush s.fibers s.fibers.fiberCache }

/-- What the system answers: a mapping is not empty, ends within the address space and has no byte in common with
another; only mapped memory is opened; and a new fiber is none of those that are there. -/
def Answers (s : StackRun Io) : StackOp → Prop
  | .alloc size m =>
    size < 2 ^ 64 ∧ ∀ p, m.mmap = some p →
      let total := if s.rt.guard then (size + s.rt.page) % 2 ^ 64 else size
      0 < total ∧ p + total ≤ 2 ^ 64 ∧ (∀ l, mappings s.rt.log = some l → ∀ q ∈ l, Apart (p, total) q) ∧
        (s.rt.guard → m.mprotect → s.rt.page + size ≤ total)
  | .taskAlloc _ created => s.fibers.Answers created
  | _ => True

/-- The guard setting does not change while a stack is in use. -/
def KeepsGuard (s : StackRun Io) : StackOp → Prop
  | .setGuardPages enabled => enabled = s.rt.guard ∨ s.live = []
  | _ => True

/-- A runtime that has mapped nothing yet. -/
structure Fresh (s : StackRun Io) : Prop where
  live : s.live = []
  cache : s.rt.stackCache = []
  log : mappings s.rt.log = some []
  bare : ∀ a, protAt s.rt.log a = none
  page : 0 < s.rt.page
  liveFibers : s.liveFibers = []
  fiberCache : s.fibers.fiberCache = []
  fibers : fibersLeft s.fibers.log = some []

/-- A state that a run reaches, each of whose calls meets `P`. -/
inductive Reaches (P : StackRun Io → StackOp → Prop) (s₀ : StackRun Io) : StackRun Io → Prop
  | refl : Reaches P s₀ s₀
  | next {s s' : StackRun Io} (op : StackOp) (h : Reaches P s₀ s) (hp : P s op) (hs : s.step op = some s') :
      Reaches P s₀ s'

/-- A stack is as it should be: it has a mapping of its size, all of it can be used, and below it is a guard page
exactly if guard pages are enabled. -/
structure StackOk (R : GtRuntime Io) (x : Nat × Nat) : Prop where
  mapped : ∃ l, mappings R.log = some l ∧ extent R.guard R.page x ∈ l
  usable : Usable R.log x
  guarded : Guarded R.log R.page x.1 ↔ R.guard

/-- A stack that is allocated is as it should be with the guard setting at that moment. -/
def AllocOk (s : StackRun Io) : Prop :=
  ∀ size m u, s.Answers (.alloc size m) → (gtStackAlloc s.rt size m).1 = some u →
    (gtStackAlloc s.rt size m).2.guard = s.rt.guard ∧ StackOk (gtStackAlloc s.rt size m).2 (u, size)

/-- What is to hold of the stacks: each mapping has been unmapped at most once, with its own base and length; no two
stacks in use overlap; a cached stack is not in use; those in use and the cached ones, which have the cached size, are
as they should be; stacks are allocated as they should; and so are the fibers. -/
structure Ok (s : StackRun Io) : Prop where
  mapped : ∃ l, mappings s.rt.log = some l
  apart : s.live.Pairwise Apart
  cached : ∀ u ∈ s.rt.stackCache, ∀ x ∈ s.live, x.1 ≠ u
  inUse : ∀ x ∈ s.live, StackOk s.rt x
  kept : ∀ u ∈ s.rt.stackCache, StackOk s.rt (u, s.rt.cachedSize)
  alloc : s.AllocOk
  fibers : FibersOk s.fibers s.liveFibers

end StackRun

open StackRun

variable {s s' : StackRun Io} {op : StackOp} {R R' : GtRuntime Io} {l xs : List (Nat × Nat)} {x : Nat × Nat}

/-! ### What is mapped -/

/-- The stack `a` is a byte of is given by its extent. -/
def InExtent (R : GtRuntime Io) (x : Nat × Nat) (a : Nat) : Prop :=
  (extent R.guard R.page x).1 ≤ a ∧ a < (extent R.guard R.page x).1 + (extent R.guard R.page x).2

/-- The mappings are those of the stacks `xs`, with the guard setting as it is, and are protected as
they should be. -/
structure Mapped (R : GtRuntime Io) (xs l : List (Nat × Nat)) : Prop where
  log : mappings R.log = some l
  perm : (xs.map (extent R.guard R.page)).Perm l
  apart : l.Pairwise Apart
  sized : ∀ x ∈ xs, Sized R.guard R.page x
  usable : ∀ x ∈ xs, Usable R.log x
  guarded : R.guard → ∀ x ∈ xs, Guarded R.log R.page x.1
  rest : ∀ a, protAt R.log a ≠ none → ∃ x ∈ xs, InExtent R x a

/-- The stacks in use and the cached ones are those that are mapped, and so are the fibers. -/
structure StackRun.Held (s : StackRun Io) : Prop where
  mapped : ∃ l, Mapped s.rt (heldBy s.live s.rt.stackCache s.rt.cachedSize) l
  fibers : ∃ l, FibersHeld s.fibers (heldBy s.liveFibers s.fibers.fiberCache s.fibers.fiberCachedSize) l

theorem Apart.symm {a b : Nat × Nat} (h : Apart a b) : Apart b a := Or.symm h

private theorem pairwise_apart_perm {l' : List (Nat × Nat)} (h : l.Pairwise Apart) (hp : l.Perm l') :
    l'.Pairwise Apart :=
  (hp.pairwise_iff fun h => Apart.symm h).1 h

/-! ### Bytes -/

variable {a u size page : Nat} {guard : Bool} {y : Nat × Nat} {live : List (Nat × Nat)}

private theorem InExtent.of_usable (h : x.1 ≤ a ∧ a < x.1 + x.2) : InExtent R x a := by
  unfold InExtent extent
  split
  · dsimp only
    omega
  · exact h

private theorem InExtent.of_guard (hg : R.guard) (hpage : R.page ≤ x.1) (h : x.1 - R.page ≤ a ∧ a < x.1) :
    InExtent R x a := by
  unfold InExtent extent
  rw [if_pos hg]
  dsimp only
  omega

private theorem InExtent.not_of_apart (h : InExtent R y a)
    (hxy : Apart (extent R.guard R.page x) (extent R.guard R.page y)) : ¬InExtent R x a := by
  unfold InExtent Apart at *
  omega

/-- A stack that is mapped has no byte in common with the others. -/
private theorem Mapped.cons_apart (h : Mapped R (x :: xs) l) (hy : y ∈ xs) :
    Apart (extent R.guard R.page x) (extent R.guard R.page y) := by
  have hpairs := pairwise_apart_perm h.apart h.perm.symm
  rw [List.map_cons] at hpairs
  exact (List.pairwise_cons.1 hpairs).1 _ (List.mem_map_of_mem hy)

private theorem Mapped.of_perm {xs' : List (Nat × Nat)} (h : Mapped R xs l) (hp : xs.Perm xs') : Mapped R xs' l where
  log := h.log
  perm := (hp.map _).symm.trans h.perm
  apart := h.apart
  sized x hx := h.sized x (hp.symm.subset hx)
  usable x hx := h.usable x (hp.symm.subset hx)
  guarded hg x hx := h.guarded hg x (hp.symm.subset hx)
  rest a ha := by
    obtain ⟨x, hx, hin⟩ := h.rest a ha
    exact ⟨x, hp.subset hx, hin⟩

/-- The cache and the other settings do not matter. -/
theorem Mapped.congr (h : Mapped R xs l) (hguard : R'.guard = R.guard) (hpage : R'.page = R.page)
    (hmap : mappings R'.log = mappings R.log) (hprot : ∀ a, protAt R'.log a = protAt R.log a) : Mapped R' xs l where
  log := hmap.trans h.log
  perm := by
    rw [hguard, hpage]
    exact h.perm
  apart := h.apart
  sized x hx := by
    rw [hguard, hpage]
    exact h.sized x hx
  usable x hx a ha ha' := (hprot a).trans (h.usable x hx a ha ha')
  guarded hg x hx := by
    obtain ⟨hle, hbelow⟩ := h.guarded (hguard ▸ hg) x hx
    rw [hpage]
    exact ⟨hle, fun a ha ha' => (hprot a).trans (hbelow a ha ha')⟩
  rest a ha := by
    rw [hprot] at ha
    unfold InExtent
    rw [hguard, hpage]
    exact h.rest a ha

/-! ### Unmapping -/

/-- A stack is unmapped with the extent that it has with the guard setting as it is. -/
private theorem gtStackUnmap_eq {u n : Nat} (h : R.guard → n + R.page < 2 ^ 64) : gtStackUnmap R u n =
    R.note (.unmapped (extent R.guard R.page (u, n)).1 (extent R.guard R.page (u, n)).2) := by
  rw [gtStackUnmap]
  cases hg : R.guard with
  | false => rfl
  | true =>
    rw [if_pos rfl, Nat.mod_eq_of_lt (h hg)]
    rfl

private theorem mappings_note_unmapped {x : Nat × Nat} (hl : mappings R.log = some l) (hx : x ∈ l) :
    mappings (R.note (.unmapped x.1 x.2)).log = some (l.erase x) := by
  rw [GtRuntime.note]
  dsimp only
  rw [mappings, hl, Option.bind_some, if_pos hx]

/-- One mapping of some less. -/
private theorem erase_perm {x : Nat × Nat} {rest : List (Nat × Nat)} (h : (x :: rest).Perm l) :
    x ∈ l ∧ rest.Perm (l.erase x) := by
  refine ⟨h.subset List.mem_cons_self, ?_⟩
  have herase := h.erase x
  rwa [List.erase_cons_head] at herase

private theorem protAt_unmapped {log : List Ev} {base len : Nat} (h : ¬(base ≤ a ∧ a < base + len)) :
    protAt (.unmapped base len :: log) a = protAt log a := by
  rw [protAt, if_neg h]

/-- The same stacks are cached, with the same settings. -/
structure SameCache (R R' : GtRuntime Io) : Prop where
  guard : R'.guard = R.guard
  page : R'.page = R.page
  cache : R'.stackCache = R.stackCache
  cachedSize : R'.cachedSize = R.cachedSize

/-- A stack is unmapped; the others stay. -/
theorem Mapped.unmap (h : Mapped R (x :: xs) l) :
    SameCache R (gtStackUnmap R x.1 x.2) ∧ ∃ l', Mapped (gtStackUnmap R x.1 x.2) xs l' := by
  have hcons : (extent R.guard R.page x :: xs.map (extent R.guard R.page)).Perm l := h.perm
  obtain ⟨hmem, hperm⟩ := erase_perm hcons
  have hstays {y : Nat × Nat} (hy : y ∈ xs) {a : Nat} (ha : InExtent R y a) :
      protAt (R.note (.unmapped (extent R.guard R.page x).1 (extent R.guard R.page x).2)).log a = protAt R.log a :=
    protAt_unmapped (ha.not_of_apart (h.cons_apart hy))
  rw [gtStackUnmap_eq fun hg => ((h.sized x List.mem_cons_self).fits hg).2]
  refine ⟨⟨rfl, rfl, rfl, rfl⟩, l.erase (extent R.guard R.page x), mappings_note_unmapped h.log hmem, hperm,
    h.apart.sublist List.erase_sublist, fun y hy => h.sized y (List.mem_cons_of_mem x hy), ?_, ?_, ?_⟩
  · intro y hy a ha ha'
    rw [hstays hy (.of_usable ⟨ha, ha'⟩)]
    exact h.usable y (List.mem_cons_of_mem x hy) a ha ha'
  · intro hg y hy
    obtain ⟨hle, hbelow⟩ := h.guarded hg y (List.mem_cons_of_mem x hy)
    refine ⟨hle, fun a ha ha' => ?_⟩
    rw [hstays hy (.of_guard hg hle ⟨ha, ha'⟩)]
    exact hbelow a ha ha'
  · intro a ha
    by_cases hx : InExtent R x a
    · exact absurd (if_pos hx) ha
    · rw [show protAt (R.note _).log a = protAt R.log a from protAt_unmapped hx] at ha
      obtain ⟨y, hy, hin⟩ := h.rest a ha
      rcases List.mem_cons.1 hy with rfl | hy
      · exact absurd hin hx
      · exact ⟨y, hy, hin⟩

/-- The cached stacks are unmapped. -/
theorem Mapped.flush (cache : List Nat) (h : Mapped R (heldBy live cache size) l) (hsize : R.cachedSize = size) :
    ∃ l', Mapped (gtStackFlush R cache) live l' ∧ (gtStackFlush R cache).page = R.page ∧
      (gtStackFlush R cache).guard = R.guard ∧ (gtStackFlush R cache).stackCache = [] := by
  induction cache generalizing R l with
  | nil =>
    rw [heldBy, List.map_nil, List.append_nil] at h
    exact ⟨l, h.congr rfl rfl rfl fun _ => rfl, rfl, rfl, rfl⟩
  | cons u cache ih =>
    obtain ⟨hsame, l₁, h₁⟩ := (h.of_perm heldBy_take).unmap
    obtain ⟨l', hl', hpage, hguard, hcache⟩ := ih h₁ (hsame.cachedSize.trans hsize)
    rw [gtStackFlush, hsize]
    exact ⟨l', hl', hpage.trans hsame.page, hguard.trans hsame.guard, hcache⟩

/-! ### Mapping -/

/-- The mapping of a stack. -/
def stackExtent (R : GtRuntime Io) (size u : Nat) : Nat × Nat :=
  if R.guard then (u - R.page, (size + R.page) % 2 ^ 64) else (u, size)

/-- What is logged of a stack that is mapped, the last event first. -/
def stackEvents (R : GtRuntime Io) (size u : Nat) : List Ev :=
  if R.guard then [.mprotected u size .readWrite, .mapped (u - R.page) ((size + R.page) % 2 ^ 64) .none]
  else [.mapped u size .readWrite]

private theorem stackExtent_eq (h : R.guard → size + R.page < 2 ^ 64) :
    stackExtent R size u = extent R.guard R.page (u, size) := by
  unfold stackExtent extent
  by_cases hg : R.guard
  · rw [if_pos hg, if_pos hg, Nat.mod_eq_of_lt (h hg)]
  · rw [if_neg hg, if_neg hg]

theorem mappings_stackEvents (R : GtRuntime Io) (size u : Nat) (log : List Ev) :
    mappings (stackEvents R size u ++ log) = (mappings log).map fun l => stackExtent R size u :: l := by
  unfold stackEvents stackExtent
  split <;> rfl

/-- A new stack can be used. -/
private theorem protAt_stackEvents_usable {log : List Ev} (ha : u ≤ a ∧ a < u + size) :
    protAt (stackEvents R size u ++ log) a = some .readWrite := by
  unfold stackEvents
  split <;> exact if_pos ha

/-- A new stack has its guard page. -/
private theorem protAt_stackEvents_guard {log : List Ev} (hg : R.guard) (hfits : size + R.page < 2 ^ 64)
    (hpage : R.page ≤ u) (ha : u - R.page ≤ a ∧ a < u) : protAt (stackEvents R size u ++ log) a = some .none := by
  unfold stackEvents
  rw [if_pos hg, Nat.mod_eq_of_lt hfits]
  show protAt (.mprotected u size .readWrite :: .mapped (u - R.page) (size + R.page) .none :: log) a = _
  rw [protAt, if_neg (by omega), protAt, if_pos (by omega)]

/-- Elsewhere a new stack changes nothing. -/
private theorem protAt_stackEvents_other {log : List Ev} (hfits : R.guard → R.page ≤ u ∧ size + R.page < 2 ^ 64)
    (ha : ¬InExtent R (u, size) a) : protAt (stackEvents R size u ++ log) a = protAt log a := by
  unfold InExtent extent at ha
  unfold stackEvents
  split
  · rename_i hg
    obtain ⟨hpage, hlt⟩ := hfits hg
    rw [if_pos hg] at ha
    dsimp only at ha
    show protAt (.mprotected u size .readWrite :: .mapped (u - R.page) ((size + R.page) % 2 ^ 64) .none :: log) a = _
    rw [Nat.mod_eq_of_lt hlt, protAt, if_neg (by omega), protAt, if_neg ha]
  · rename_i hg
    rw [if_neg hg] at ha
    show protAt (.mapped u size .readWrite :: log) a = _
    rw [protAt, if_neg ha]

/-- A stack is mapped. -/
theorem Mapped.map (h : Mapped R xs l) (hsized : Sized R.guard R.page (u, size))
    (hapart : ∀ q ∈ l, Apart (extent R.guard R.page (u, size)) q) :
    Mapped { R with log := stackEvents R size u ++ R.log } ((u, size) :: xs)
    (extent R.guard R.page (u, size) :: l) := by
  have hother {y : Nat × Nat} (hy : y ∈ xs) {a : Nat} (ha : InExtent R y a) :
      protAt (stackEvents R size u ++ R.log) a = protAt R.log a := by
    refine protAt_stackEvents_other hsized.fits (ha.not_of_apart (hapart _ ?_))
    exact h.perm.subset (List.mem_map_of_mem hy)
  refine ⟨?_, h.perm.cons _, List.pairwise_cons.2 ⟨hapart, h.apart⟩, ?_, ?_, ?_, ?_⟩
  · show mappings (stackEvents R size u ++ R.log) = _
    rw [mappings_stackEvents, h.log, stackExtent_eq fun hg => (hsized.fits hg).2]
    rfl
  · intro y hy
    rcases List.mem_cons.1 hy with rfl | hy
    · exact hsized
    · exact h.sized y hy
  · intro y hy a ha ha'
    rcases List.mem_cons.1 hy with rfl | hy
    · exact protAt_stackEvents_usable ⟨ha, ha'⟩
    · exact (hother hy (.of_usable ⟨ha, ha'⟩)).trans (h.usable y hy a ha ha')
  · intro hg y hy
    rcases List.mem_cons.1 hy with rfl | hy
    · obtain ⟨hle, hlt⟩ := hsized.fits hg
      exact ⟨hle, fun a ha ha' => protAt_stackEvents_guard hg hlt hle ⟨ha, ha'⟩⟩
    · obtain ⟨hle, hbelow⟩ := h.guarded hg y hy
      exact ⟨hle, fun a ha ha' => (hother hy (.of_guard hg hle ⟨ha, ha'⟩)).trans (hbelow a ha ha')⟩
  · intro a ha
    by_cases hin : InExtent R (u, size) a
    · exact ⟨(u, size), List.mem_cons_self, hin⟩
    · rw [show protAt (stackEvents R size u ++ R.log) a = _ from protAt_stackEvents_other hsized.fits hin] at ha
      obtain ⟨y, hy, hiny⟩ := h.rest a ha
      exact ⟨y, List.mem_cons_of_mem _ hy, hiny⟩

theorem mappings_undone (base len : Nat) (prot : Prot) (log : List Ev) :
    mappings (.unmapped base len :: .mapped base len prot :: log) = mappings log := by
  rw [mappings, mappings]
  cases mappings log with
  | none => rfl
  | some l =>
    rw [Option.map_some, Option.bind_some, if_pos List.mem_cons_self, List.erase_cons_head]

/-- What was mapped has been unmapped again. -/
theorem Mapped.undone {p total : Nat} (h : Mapped R xs l) (hapart : ∀ q ∈ l, Apart (p, total) q) :
    Mapped ((R.note (.mapped p total .none)).note (.unmapped p total)) xs l := by
  refine h.congr rfl rfl (mappings_undone p total .none R.log) fun a => ?_
  show protAt (.unmapped p total :: .mapped p total .none :: R.log) a = _
  by_cases hin : p ≤ a ∧ a < p + total
  · -- nothing was mapped there
    rw [protAt, if_pos hin]
    by_contra hne
    obtain ⟨y, hy, hiny⟩ := h.rest a (Ne.symm hne)
    have hq := hapart _ (h.perm.subset (List.mem_map_of_mem hy))
    unfold InExtent at hiny
    unfold Apart at hq
    dsimp only at hq
    omega
  · rw [protAt_unmapped hin, protAt, if_neg hin]

/-! ### The calls -/

/-- A stack that is not from the cache: there is none, and what was mapped for it has been unmapped; or it is mapped
apart from the others. -/
theorem gtStackMap_cases {size : Nat} {m : MapAnswer} (ha : s.Answers (.alloc size m)) :
    gtStackMap s.rt size m = (none, s.rt) ∨
    (∃ p total, gtStackMap s.rt size m = (none, (s.rt.note (.mapped p total .none)).note (.unmapped p total)) ∧
      ∀ l, mappings s.rt.log = some l → ∀ q ∈ l, Apart (p, total) q) ∨
    ∃ u, gtStackMap s.rt size m = (some u, { s.rt with log := stackEvents s.rt size u ++ s.rt.log }) ∧
      Sized s.rt.guard s.rt.page (u, size) ∧ u + size ≤ 2 ^ 64 ∧
      ∀ l, mappings s.rt.log = some l → ∀ q ∈ l, Apart (extent s.rt.guard s.rt.page (u, size)) q := by
  obtain ⟨hsize, hmap⟩ := ha
  rw [gtStackMap]
  by_cases hg : s.rt.guard
  · rw [if_pos hg]
    dsimp only
    cases hm : m.mmap with
    | none => exact Or.inl rfl
    | some p =>
      obtain ⟨hpos, hend, hapart, hopen⟩ := hmap p hm
      rw [if_pos hg] at hpos hend hapart hopen
      by_cases hprot : m.mprotect
      · have hle := hopen hg hprot
        have htotal : (size + s.rt.page) % 2 ^ 64 = size + s.rt.page := Nat.mod_eq_of_lt (by omega)
        have hext : extent s.rt.guard s.rt.page (p + s.rt.page, size) = (p, size + s.rt.page) := by
          rw [extent, if_pos hg, Nat.add_sub_cancel]
        refine Or.inr (Or.inr ⟨p + s.rt.page, ?_, ⟨?_, fun _ => ⟨Nat.le_add_left _ _, by omega⟩⟩, by omega, ?_⟩)
        · dsimp only
          rw [if_pos hprot, stackEvents, if_pos hg, Nat.add_sub_cancel]
          rfl
        · rw [hext]
          omega
        · rw [hext, ← htotal]
          exact hapart
      · exact Or.inr (Or.inl ⟨p, _, if_neg hprot, hapart⟩)
  · rw [if_neg hg]
    cases hm : m.mmap with
    | none => exact Or.inl rfl
    | some p =>
      obtain ⟨hpos, hend, hapart, -⟩ := hmap p hm
      rw [if_neg hg] at hpos hend hapart
      have hext : extent s.rt.guard s.rt.page (p, size) = (p, size) := by rw [extent, if_neg hg]
      refine Or.inr (Or.inr ⟨p, ?_, ⟨?_, fun h => absurd h hg⟩, hend, ?_⟩)
      · rw [stackEvents, if_neg hg]
        rfl
      · rw [hext]
        exact hpos
      · rw [hext]
        exact hapart

/-- The stacks after an allocation. -/
theorem Mapped.alloc {size : Nat} {m : MapAnswer} (h : Mapped s.rt (heldBy s.live s.rt.stackCache s.rt.cachedSize) l)
    (ha : s.Answers (.alloc size m)) {p : Option Nat} (heq : gtStackAlloc s.rt size m = (p, R')) :
    R'.page = s.rt.page ∧ R'.guard = s.rt.guard ∧
      ∃ l', Mapped R' (heldBy ((p.map fun u => (u, size)).toList ++ s.live) R'.stackCache R'.cachedSize) l' := by
  have hmap (heq : gtStackMap s.rt size m = (p, R')) : R'.page = s.rt.page ∧ R'.guard = s.rt.guard ∧
      ∃ l', Mapped R' (heldBy ((p.map fun u => (u, size)).toList ++ s.live) R'.stackCache R'.cachedSize) l' := by
    rcases gtStackMap_cases ha with h' | ⟨q, total, h', hapart⟩ | ⟨u, h', hsized, -, hapart⟩
    · obtain ⟨rfl, rfl⟩ := Prod.mk.inj (h'.symm.trans heq)
      exact ⟨rfl, rfl, l, h⟩
    · obtain ⟨rfl, rfl⟩ := Prod.mk.inj (h'.symm.trans heq)
      exact ⟨rfl, rfl, l, h.undone (hapart l h.log)⟩
    · obtain ⟨rfl, rfl⟩ := Prod.mk.inj (h'.symm.trans heq)
      exact ⟨rfl, rfl, _, h.map hsized (hapart l h.log)⟩
  rw [gtStackAlloc] at heq
  split at heq
  · rename_i top rest hcache
    split at heq
    · rename_i hsize
      obtain ⟨rfl, rfl⟩ := Prod.mk.inj heq
      rw [hcache, hsize] at h
      refine ⟨rfl, rfl, l, ?_⟩
      show Mapped { s.rt with stackCache := rest } (heldBy ((top, size) :: s.live) rest s.rt.cachedSize) l
      rw [hsize]
      exact (h.of_perm heldBy_take).congr rfl rfl rfl fun _ => rfl
    · exact hmap heq
  · exact hmap heq

/-- A stack is given back. -/
theorem Mapped.free (h : Mapped R (heldBy live R.stackCache R.cachedSize) l) (hx : x ∈ live) :
    (gtStackFree R (some x.1) x.2).page = R.page ∧ ∃ l', Mapped (gtStackFree R (some x.1) x.2)
      (heldBy (live.erase x) (gtStackFree R (some x.1) x.2).stackCache (gtStackFree R (some x.1) x.2).cachedSize)
      l' := by
  rw [gtStackFree]
  split
  · rename_i hroom
    exact ⟨rfl, l, (h.of_perm (heldBy_keep hx hroom.2)).congr rfl rfl rfl fun _ => rfl⟩
  · obtain ⟨hsame, l', hl'⟩ := (h.of_perm (heldBy_drop hx)).unmap
    rw [hsame.cache, hsame.cachedSize]
    exact ⟨hsame.page, l', hl'⟩

/-- The guard setting is changed with no stack in use. -/
theorem Mapped.setGuardPages {enabled : Bool} (h : Mapped R (heldBy live R.stackCache R.cachedSize) l)
    (hk : enabled = R.guard ∨ live = []) :
    (gtSetGuardPages R enabled).page = R.page ∧ ∃ l', Mapped (gtSetGuardPages R enabled)
      (heldBy live (gtSetGuardPages R enabled).stackCache (gtSetGuardPages R enabled).cachedSize) l' := by
  rw [gtSetGuardPages]
  by_cases hsame : enabled = R.guard
  · rw [if_pos hsame]
    exact ⟨rfl, l, h⟩
  · obtain rfl : live = [] := hk.resolve_left hsame
    obtain ⟨l', hl', hpage, -, hcache⟩ := h.flush R.stackCache rfl
    obtain rfl : l' = [] := List.nil_perm.1 hl'.perm
    rw [if_neg hsame]
    dsimp only
    rw [hcache]
    refine ⟨hpage, [], hl'.log, List.Perm.refl [], List.Pairwise.nil, nofun, nofun, nofun, fun a ha => ?_⟩
    obtain ⟨x, hx, -⟩ := hl'.rest a ha
    cases hx

/-- A call. -/
theorem StackRun.Held.step (hs : s.Held) (ha : s.Answers op) (hk : s.KeepsGuard op) (h : s.step op = some s') :
    s'.rt.page = s.rt.page ∧ s'.Held := by
  obtain ⟨⟨l, hl⟩, ⟨k, hf⟩⟩ := hs
  cases op with
  | alloc size m =>
    obtain ⟨hpage, -, hl'⟩ := hl.alloc ha rfl
    rw [← Option.some_inj.1 h]
    exact ⟨hpage, hl', k, hf⟩
  | free x =>
    rw [StackRun.step] at h
    split at h <;> cases h
    rename_i hx
    obtain ⟨hpage, hl'⟩ := hl.free hx
    exact ⟨hpage, hl', k, hf⟩
  | unmap x =>
    rw [StackRun.step] at h
    split at h <;> cases h
    rename_i hx
    obtain ⟨hsame, l', hl'⟩ := (hl.of_perm (heldBy_drop hx)).unmap
    rw [← hsame.cache, ← hsame.cachedSize] at hl'
    exact ⟨hsame.page, ⟨l', hl'⟩, k, hf⟩
  | flush =>
    obtain ⟨l', hl', hpage, -, hcache⟩ := hl.flush s.rt.stackCache rfl
    rw [← Option.some_inj.1 h]
    refine ⟨hpage, ⟨l', ?_⟩, k, hf⟩
    dsimp only
    rw [hcache, heldBy, List.map_nil, List.append_nil]
    exact hl'
  | setStackSize bytes =>
    rw [← Option.some_inj.1 h]
    exact ⟨rfl, ⟨l, hl.congr rfl rfl rfl fun _ => rfl⟩, k, hf⟩
  | setGuardPages enabled =>
    obtain ⟨hpage, hl'⟩ := hl.setGuardPages hk
    rw [← Option.some_inj.1 h]
    exact ⟨hpage, hl', k, hf⟩
  | taskAlloc size created =>
    rw [← Option.some_inj.1 h]
    exact ⟨rfl, ⟨l, hl⟩, hf.alloc ha rfl⟩
  | taskFree x =>
    rw [StackRun.step] at h
    split at h <;> cases h
    rename_i hx
    exact ⟨rfl, ⟨l, hl⟩, hf.free hx⟩
  | taskUnmap x =>
    rw [StackRun.step] at h
    split at h <;> cases h
    rename_i hx
    exact ⟨rfl, ⟨l, hl⟩, (hf.of_perm (heldBy_drop hx)).unmap⟩
  | tasksFlush =>
    obtain ⟨k', hk', hcache⟩ := hf.flush s.fibers.fiberCache
    rw [← Option.some_inj.1 h]
    refine ⟨rfl, ⟨l, hl⟩, k', ?_⟩
    dsimp only
    rw [hcache, heldBy, List.map_nil, List.append_nil]
    exact hk'

theorem StackRun.Fresh.held (h : s.Fresh) : s.Held := by
  refine ⟨⟨[], ?_⟩, [], ?_⟩
  · rw [h.live, h.cache]
    exact ⟨h.log, List.Perm.refl [], List.Pairwise.nil, nofun, nofun, nofun, fun a ha => absurd (h.bare a) ha⟩
  · rw [h.liveFibers, h.fiberCache]
    exact ⟨h.fibers, List.Perm.refl [], List.nodup_nil⟩

/-- A run of calls. -/
theorem StackRun.Reaches.held {s₀ : StackRun Io} (h₀ : s₀.Fresh)
    (h : Reaches (fun s op => s.Answers op ∧ s.KeepsGuard op) s₀ s) : 0 < s.rt.page ∧ s.Held := by
  induction h with
  | refl => exact ⟨h₀.page, h₀.held⟩
  | next op h hp hs ih =>
    obtain ⟨hpos, hheld⟩ := ih
    obtain ⟨hpage, hheld'⟩ := hheld.step hp.1 hp.2 hs
    exact ⟨hpage ▸ hpos, hheld'⟩

/-! ### What holds of the stacks -/

/-- Stacks whose mappings are apart are apart. -/
private theorem Sized.apart {a b : Nat × Nat} (ha : Sized guard page a) (hb : Sized guard page b)
    (h : Apart (extent guard page a) (extent guard page b)) : Apart a b := by
  cases guard with
  | false => exact h
  | true =>
    have ha' := (ha.fits rfl).1
    have hb' := (hb.fits rfl).1
    simp only [Apart, extent, if_pos] at h
    rw [Apart]
    omega

/-- Two stacks whose mappings are apart have two addresses. -/
private theorem Sized.ne {a b : Nat × Nat} (ha : Sized guard page a) (hb : Sized guard page b)
    (h : Apart (extent guard page a) (extent guard page b)) : a.1 ≠ b.1 := by
  intro heq
  have ha' := ha.pos
  have hb' := hb.pos
  cases guard with
  | false =>
    simp only [Apart, extent, Bool.false_eq_true, if_false] at h ha' hb'
    omega
  | true =>
    simp only [Apart, extent, if_pos] at h ha' hb'
    omega

/-- Without guard pages, whatever is mapped can be used. -/
private theorem Mapped.unguarded (h : Mapped R xs l) (hg : ¬R.guard) : protAt R.log a ≠ some .none := by
  intro ha
  obtain ⟨y, hy, hin⟩ := h.rest a (by rw [ha]; exact Option.some_ne_none _)
  rw [InExtent, extent, if_neg hg] at hin
  cases (h.usable y hy a hin.1 hin.2).symm.trans ha

private theorem Mapped.stackOk (h : Mapped R xs l) (hpage : 0 < R.page) (hx : x ∈ xs) : StackOk R x := by
  refine ⟨⟨l, h.log, h.perm.subset (List.mem_map_of_mem hx)⟩, h.usable x hx, fun hbelow => ?_,
    fun hg => h.guarded hg x hx⟩
  by_contra hg
  obtain ⟨hle, hnone⟩ := hbelow
  exact h.unguarded hg (hnone (x.1 - 1) (by omega) (by omega))

theorem StackRun.Held.ok (hs : s.Held) (hpage : 0 < s.rt.page) : s.Ok := by
  obtain ⟨⟨l, h⟩, ⟨k, hf⟩⟩ := hs
  have hpairs := pairwise_apart_perm h.apart h.perm.symm
  rw [List.pairwise_map, heldBy] at hpairs
  obtain ⟨hlive, -, hcross⟩ := List.pairwise_append.1 hpairs
  have hin : ∀ x ∈ s.live, x ∈ heldBy s.live s.rt.stackCache s.rt.cachedSize := fun x hx => mem_heldBy_live hx
  have hkept : ∀ u ∈ s.rt.stackCache, (u, s.rt.cachedSize) ∈ heldBy s.live s.rt.stackCache s.rt.cachedSize :=
    fun u hu => mem_heldBy_cache hu
  refine ⟨⟨l, h.log⟩, ?_, fun u hu x hx => ?_, fun x hx => h.stackOk hpage (hin x hx),
    fun u hu => h.stackOk hpage (hkept u hu), fun size m u ha hu => ?_, hf.ok⟩
  · exact hlive.imp_of_mem fun ha hb h' => (h.sized _ (hin _ ha)).apart (h.sized _ (hin _ hb)) h'
  · exact (h.sized x (hin x hx)).ne (h.sized _ (hkept u hu)) (hcross x hx _ (List.mem_map_of_mem hu))
  · obtain ⟨hpage', hguard, l', hl'⟩ := h.alloc ha (Prod.eta (gtStackAlloc s.rt size m)).symm
    rw [hu] at hl'
    refine ⟨hguard, hl'.stackOk (hpage' ▸ hpage) (mem_heldBy_live ?_)⟩
    exact List.mem_cons_self

/-- In a run in which the guard setting does not change while a stack is in use, the mappings of stacks and the cache
are as they should be in every state. -/
theorem task_stacks_ok (s₀ s : StackRun Io) (h₀ : s₀.Fresh)
    (h : Reaches (fun s op => s.Answers op ∧ s.KeepsGuard op) s₀ s) : s.Ok := by
  obtain ⟨hpage, hheld⟩ := h.held h₀
  exact hheld.ok hpage

/-- A runtime that has just started. -/
def freshRun : StackRun Unit := ⟨gtRuntimeZero () 4096 false, [], ⟨[], 0, []⟩, []⟩

theorem freshRun_fresh : freshRun.Fresh := ⟨rfl, rfl, rfl, fun _ => rfl, by decide, rfl, rfl, rfl⟩

/-- A mapping that the system may give, where `l` are there already. -/
theorem answers_alloc {p : Nat} {opens : Bool} (hl : mappings s.rt.log = some l) (hsize : size < 2 ^ 64)
    (h : let total := if s.rt.guard then (size + s.rt.page) % 2 ^ 64 else size
      0 < total ∧ p + total ≤ 2 ^ 64 ∧ (∀ q ∈ l, Apart (p, total) q) ∧
      (s.rt.guard → opens → s.rt.page + size ≤ total)) :
    s.Answers (.alloc size ⟨some p, opens⟩) := by
  refine ⟨hsize, fun q hq => ?_⟩
  obtain rfl := Option.some_inj.1 hq
  obtain ⟨hpos, hend, hapart, hopen⟩ := h
  refine ⟨hpos, hend, fun l' hl' => ?_, hopen⟩
  obtain rfl := Option.some_inj.1 (hl.symm.trans hl')
  exact hapart

/-- A stack of 16 KiB, mapped at 4096 with its guard page. -/
def allocOp : StackOp := .alloc 16384 ⟨some 4096, true⟩

private theorem allocOp_answers : freshRun.Answers allocOp := answers_alloc rfl (by decide) (by decide)

/-- Two stacks are mapped with guard pages, and one given back and taken again; with none in use, guard pages are
disabled, which flushes the cache, and a third is mapped without one.  A fiber is made, kept and taken again. -/
theorem task_stacks_ok_run : ∃ s : StackRun Unit, s.Ok ∧ s.live = [(4096, 16384)] ∧ s.rt.stackCache = [] ∧
    s.rt.log = [.mapped 4096 16384 .readWrite, .unmapped 65536 20480, .unmapped 4096 20480,
      .mprotected 69632 16384 .readWrite, .mapped 65536 20480 .none, .mprotected 8192 16384 .readWrite,
      .mapped 4096 20480 .none] ∧
    s.liveFibers = [(1, 65536)] ∧ s.fibers.log = [.created 1 65536] := by
  let P : StackRun Unit → StackOp → Prop := fun s op => s.Answers op ∧ s.KeepsGuard op
  have h₁ := (Reaches.refl : Reaches P freshRun freshRun).next _ ⟨allocOp_answers, trivial⟩ rfl
  have h₂ := h₁.next (.alloc 16384 ⟨some 65536, true⟩) ⟨answers_alloc rfl (by decide) (by decide), trivial⟩ rfl
  have h₃ := h₂.next (.free (8192, 16384)) ⟨trivial, trivial⟩ rfl
  have h₄ := h₃.next (.alloc 16384 ⟨none, false⟩) ⟨⟨by decide, nofun⟩, trivial⟩ rfl
  have h₅ := h₄.next (.free (69632, 16384)) ⟨trivial, trivial⟩ rfl
  have h₆ := h₅.next (.free (8192, 16384)) ⟨trivial, trivial⟩ rfl
  have h₇ := h₆.next (.setGuardPages false) ⟨trivial, Or.inr rfl⟩ rfl
  have h₈ := h₇.next (.alloc 16384 ⟨some 4096, false⟩) ⟨answers_alloc rfl (by decide) (by decide), trivial⟩ rfl
  have h₉ := h₈.next (.taskAlloc 65536 (some 1)) ⟨fun f _ l hl => by cases hl; exact nofun, trivial⟩ rfl
  have h₁₀ := h₉.next (.taskFree (1, 65536)) ⟨trivial, trivial⟩ rfl
  have h₁₁ := h₁₀.next (.taskAlloc 65536 none) ⟨nofun, trivial⟩ rfl
  exact ⟨_, task_stacks_ok freshRun _ freshRun_fresh h₁₁, rfl, rfl, rfl, rfl, rfl⟩

/-- A stack is in use while guard pages are disabled, and cached.  The next stack that is allocated is this one, which
has a guard page; and when guard pages are enabled again, something else is unmapped than was mapped. -/
theorem guard_toggled : ∃ s s' : StackRun Unit, Reaches Answers freshRun s ∧ ¬s.AllocOk ∧
    Reaches Answers freshRun s' ∧ s'.rt.log = [.unmapped 8192 16384, .mprotected 8192 16384 .readWrite,
      .mapped 4096 20480 .none] ∧ ¬s'.Ok := by
  have h₁ := (Reaches.refl : Reaches Answers freshRun freshRun).next _ allocOp_answers rfl
  have h₂ := h₁.next (.setGuardPages false) trivial rfl
  have h₃ := h₂.next (.free (8192, 16384)) trivial rfl
  have h₄ := h₃.next (.setGuardPages true) trivial rfl
  refine ⟨_, _, h₃, fun hok => ?_, h₄, rfl, fun hok => ?_⟩
  · obtain ⟨-, -, -, hguard⟩ := hok 16384 ⟨none, false⟩ 8192 ⟨by decide, nofun⟩ rfl
    -- the page below is still the guard page it was mapped with
    refine absurd (hguard.1 ⟨by decide, fun a ha ha' => ?_⟩) (by decide)
    show protAt [.mprotected 8192 16384 .readWrite, .mapped 4096 20480 .none] a = _
    replace ha : 8192 - 4096 ≤ a := ha
    rw [protAt, if_neg (by omega), protAt, if_pos (by omega)]
  · obtain ⟨l, hl⟩ := hok.mapped
    cases hl

end Sppc
