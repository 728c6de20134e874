import Mathlib.Data.Sum.Basic
import Mathlib.Logic.Relation
import Sppc.PageMap

/-!
# The rings' mappings (`async/io_uring.h`)

How a thread's rings are set up and torn down, in a process whose other threads have rings too, and where other code
maps and opens what it likes.  What the kernel answers is part of each call.
-/

namespace Sppc

open PageMap

/-- What is mapped of a ring. -/
inductive RingRegion
  | sqRing | cqRing | sqes
  deriving DecidableEq, Repr

/-- What a page maps: page `index` of a region of a ring, or of something else. -/
inductive RingPage
  | ring (fd : Nat) (region : RingRegion) (index : Nat)
  | other (id index : Nat)
  deriving DecidableEq, Repr

/-- `struct io_uring_params`, as the kernel fills it. -/
structure UringParams where
  sqEntries : Nat
  cqEntries : Nat
  sqHead : Nat
  sqTail : Nat
  sqRingMask : Nat
  sqArray : Nat
  cqHead : Nat
  cqTail : Nat
  cqRingMask : Nat
  cqCqes : Nat
  /-- `IORING_FEAT_SINGLE_MMAP`. -/
  single : Bool
  deriving DecidableEq, Repr

/-- The `gt_io` of io_uring: descriptor, mappings and pointers into them. -/
structure GtRingIo where
  ok : Bool
  fd : Nat
  sqMmap : Nat
  cqMmap : Option Nat
  sqBytes : Nat
  cqBytes : Nat
  sqeBytes : Nat
  sqEntries : Nat
  sqes : Nat
  sqHead : Nat
  sqTail : Nat
  sqMask : Nat
  sqArray : Nat
  cqHead : Nat
  cqTail : Nat
  cqMask : Nat
  cqes : Nat
  deriving DecidableEq, Repr

def GtRingIo.zero : GtRingIo := ⟨false, 0, 0, none, 0, 0, 0, 0, 0, 0, 0, 0, 0, 0, 0, 0, 0⟩

/-- What the system answers to a setup: the descriptor, if it gives one, and the first page of each
mapping it makes. -/
structure SetupAnswers where
  fd : Option Nat
  params : UringParams
  sq : Option Nat
  cq : Option Nat
  sqes : Option Nat
  deriving DecidableEq, Repr

/-- The memory and the descriptors of the process. -/
structure RingWorld where
  pages : PageMap RingPage
  fds : Nat → Bool

def sizeofUnsigned : Nat := 4
def sizeofIoUringCqe : Nat := 16
def sizeofIoUringSqe : Nat := 64

/-- The pages of so many bytes. -/
def pagesOf (P bytes : Nat) : Nat := (bytes + P - 1) / P

/-- A region of a ring that is mapped from the address `addr` on. -/
def ringPart (P fd : Nat) (region : RingRegion) (addr bytes : Nat) : PageMap.Part RingPage :=
  ⟨addr / P, pagesOf P bytes, .ring fd region⟩

def RingWorld.map (w : RingWorld) (q : PageMap.Part RingPage) : RingWorld := { w with pages := w.pages.map q }

/-- `munmap`. -/
def RingWorld.unmap (w : RingWorld) (P addr bytes : Nat) : RingWorld :=
  { w with pages := w.pages.unmap (addr / P) (pagesOf P bytes) }

def RingWorld.opened (w : RingWorld) (fd : Nat) : RingWorld := { w with fds := Function.update w.fds fd true }

/-- `close`. -/
def RingWorld.close (w : RingWorld) (fd : Nat) : RingWorld := { w with fds := Function.update w.fds fd false }

/-- `sq_bytes` and `cq_bytes` before they are made one. -/
def UringParams.sqLen (p : UringParams) : Nat := p.sqArray + p.sqEntries * sizeofUnsigned

def UringParams.cqLen (p : UringParams) : Nat := p.cqCqes + p.cqEntries * sizeofIoUringCqe

def UringParams.sqBytes (p : UringParams) : Nat :=
  if p.single then (if p.cqLen > p.sqLen then p.cqLen else p.sqLen) else p.sqLen

def UringParams.cqBytes (p : UringParams) : Nat := if p.single then p.sqBytes else p.cqLen

def UringParams.sqeBytes (p : UringParams) : Nat := p.sqEntries * sizeofIoUringSqe

/-- The rings as a setup leaves them. -/
def UringParams.io (p : UringParams) (fd sq cq sqes : Nat) : GtRingIo where
  ok := true
  fd := fd
  sqMmap := sq
  cqMmap := if p.single then none else some cq
  sqBytes := p.sqBytes
  cqBytes := p.cqBytes
  sqeBytes := p.sqeBytes
  sqEntries := p.sqEntries
  sqes := sqes
  sqHead := sq + p.sqHead
  sqTail := sq + p.sqTail
  sqMask := sq + p.sqRingMask
  sqArray := sq + p.sqArray
  cqHead := cq + p.cqHead
  cqTail := cq + p.cqTail
  cqMask := cq + p.cqRingMask
  cqes := cq + p.cqCqes

/-- `_gt_io_setup`. -/
def gtIoSetup (P : Nat) (a : SetupAnswers) (w : RingWorld) (io : GtRingIo) : RingWorld × GtRingIo :=
  let p := a.params
  match a.fd with
  | none => (w, { io with ok := false })
  | some fd =>
    let w := w.opened fd
    match a.sq.map (· * P) with
    | none => (w.close fd, { io with ok := false })
    | some sq =>
      let w := w.map (ringPart P fd .sqRing sq p.sqBytes)
      match if p.single then some sq else a.cq.map (· * P) with
      | none => ((w.unmap P sq p.sqBytes).close fd, { io with ok := false })
      | some cq =>
        let w := if p.single then w else w.map (ringPart P fd .cqRing cq p.cqBytes)
        match a.sqes.map (· * P) with
        | none =>
          let w := if p.single then w else w.unmap P cq p.cqBytes
          ((w.unmap P sq p.sqBytes).close fd, { io with ok := false })
        | some sqes => (w.map (ringPart P fd .sqes sqes p.sqeBytes), p.io fd sq cq sqes)

/-- `_gt_io_teardown`. -/
def gtIoTeardown (P : Nat) (w : RingWorld) (io : GtRingIo) : RingWorld × GtRingIo :=
  if !io.ok then (w, io)
  else
    let w := w.unmap P io.sqes io.sqeBytes
    let w := match io.cqMmap with
      | some cq => w.unmap P cq io.cqBytes
      | none => w
    let w := w.unmap P io.sqMmap io.sqBytes
    (w.close io.fd, GtRingIo.zero)

/-! ### The process -/

/-- The system gives a descriptor that is not open, maps where nothing is, and lays a ring's members out within its
size. -/
structure SetupAnswers.Possible (P : Nat) (a : SetupAnswers) (w : RingWorld) : Prop where
  fd : ∀ fd, a.fd = some fd → w.fds fd = false
  sq : ∀ fd sq, a.sq = some sq → w.pages.Free (ringPart P fd .sqRing (sq * P) a.params.sqBytes)
  cq : ∀ fd cq, a.params.single = false → a.cq = some cq →
    w.pages.Free (ringPart P fd .cqRing (cq * P) a.params.cqBytes) ∧ ∀ sq, a.sq = some sq →
      (ringPart P fd .cqRing (cq * P) a.params.cqBytes).Apart (ringPart P fd .sqRing (sq * P) a.params.sqBytes)
  sqes : ∀ fd sqes, a.sqes = some sqes → w.pages.Free (ringPart P fd .sqes (sqes * P) a.params.sqeBytes) ∧
    (∀ sq, a.sq = some sq →
      (ringPart P fd .sqes (sqes * P) a.params.sqeBytes).Apart (ringPart P fd .sqRing (sq * P) a.params.sqBytes)) ∧
    ∀ cq, a.params.single = false → a.cq = some cq →
      (ringPart P fd .sqes (sqes * P) a.params.sqeBytes).Apart (ringPart P fd .cqRing (cq * P) a.params.cqBytes)
  sqMembers : a.params.sqHead + sizeofUnsigned ≤ a.params.sqLen ∧ a.params.sqTail + sizeofUnsigned ≤ a.params.sqLen ∧
    a.params.sqRingMask + sizeofUnsigned ≤ a.params.sqLen
  cqMembers : a.params.cqHead + sizeofUnsigned ≤ a.params.cqLen ∧ a.params.cqTail + sizeofUnsigned ≤ a.params.cqLen ∧
    a.params.cqRingMask + sizeofUnsigned ≤ a.params.cqLen

/-- The process: what it has mapped and opened, each thread's `gt_io` with the parameters that its setup was given,
and what other code has mapped and opened. -/
structure RingProcess (Tid : Type) where
  world : RingWorld
  io : Tid → GtRingIo
  params : Tid → UringParams
  others : Nat → List (PageMap.Part RingPage)
  otherFds : Nat → Bool

variable {Tid : Type} [DecidableEq Tid]

/-- A step of the process. -/
inductive RingSetupStep (P : Nat) (s : RingProcess Tid) : RingProcess Tid → Prop
  | setup (t : Tid) (a : SetupAnswers) (hanswers : a.Possible P s.world) (hio : (s.io t).ok = false) :
    RingSetupStep P s { s with
      world := (gtIoSetup P a s.world (s.io t)).1
      io := Function.update s.io t (gtIoSetup P a s.world (s.io t)).2
      params := Function.update s.params t a.params }
  | teardown (t : Tid) :
    RingSetupStep P s { s with
      world := (gtIoTeardown P s.world (s.io t)).1
      io := Function.update s.io t (gtIoTeardown P s.world (s.io t)).2 }
  /-- Other code maps something. -/
  | maps (id base n : Nat) (hfree : s.world.pages.Free ⟨base, n, .other id⟩) (hid : s.others id = []) :
    RingSetupStep P s { s with
      world := s.world.map ⟨base, n, .other id⟩
      others := Function.update s.others id [⟨base, n, .other id⟩] }
  | unmaps (id : Nat) :
    RingSetupStep P s { s with
      world := { s.world with pages := s.world.pages.unmapAll (s.others id) }
      others := Function.update s.others id [] }
  | opens (fd : Nat) (hfd : s.world.fds fd = false) :
    RingSetupStep P s { s with world := s.world.opened fd, otherFds := Function.update s.otherFds fd true }
  | closes (fd : Nat) (hfd : s.otherFds fd = true) :
    RingSetupStep P s { s with world := s.world.close fd, otherFds := Function.update s.otherFds fd false }

/-- No thread has rings. -/
def RingProcess.start (Tid : Type) (params : UringParams) : RingProcess Tid :=
  ⟨⟨fun _ => none, fun _ => false⟩, fun _ => GtRingIo.zero, fun _ => params, fun _ => [], fun _ => false⟩

/-- What is mapped for a thread's rings. -/
def GtRingIo.parts (P : Nat) (io : GtRingIo) : List (PageMap.Part RingPage) :=
  if io.ok then
    ringPart P io.fd .sqes io.sqes io.sqeBytes ::
      (io.cqMmap.map fun cq => ringPart P io.fd .cqRing cq io.cqBytes).toList ++
      [ringPart P io.fd .sqRing io.sqMmap io.sqBytes]
  else []

/-- All that is mapped: of the rings of each thread, and of other code. -/
def RingProcess.parts (P : Nat) (s : RingProcess Tid) : Tid ⊕ Nat → List (PageMap.Part RingPage) :=
  Sum.elim (fun t => (s.io t).parts P) s.others

section setup

variable {P : Nat} {a : SetupAnswers} {w : RingWorld} {io : GtRingIo}

private theorem RingWorld.close_opened {fd : Nat} (h : w.fds fd = false) : (w.opened fd).close fd = w := by
  simp [RingWorld.close, RingWorld.opened, ← h]

private theorem RingWorld.unmap_map {fd : Nat} {region : RingRegion} {addr bytes : Nat}
    (h : w.pages.Free (ringPart P fd region addr bytes)) :
    (w.map (ringPart P fd region addr bytes)).unmap P addr bytes = w := by
  have hpages := PageMap.unmap_map h
  simp only [RingWorld.unmap, RingWorld.map]
  cases w
  exact congrArg (RingWorld.mk · _) hpages

/-- A setup that fails leaves nothing mapped and nothing open; one that does not has mapped its three
regions, or two. -/
private theorem gtIoSetup_spec (io : GtRingIo) (h : a.Possible P w) :
    gtIoSetup P a w io = (w, { io with ok := false }) ∨
      ∃ fd sq cq sqes, gtIoSetup P a w io = ((gtIoSetup P a w io).1, a.params.io fd (sq * P) (cq * P) (sqes * P)) ∧
        (gtIoSetup P a w io).1.fds = Function.update w.fds fd true ∧ w.fds fd = false ∧
        (a.params.single = true → cq = sq) ∧ ∀ {ι : Type} [DecidableEq ι] (parts : ι → List (PageMap.Part RingPage))
        (t : ι), w.pages.Owned parts → parts t = [] →
          (gtIoSetup P a w io).1.pages.Owned
            (Function.update parts t ((a.params.io fd (sq * P) (cq * P) (sqes * P)).parts P)) := by
  obtain ⟨hfd, hsq, hcq, hsqes, -, -⟩ := h
  unfold gtIoSetup
  dsimp only
  cases hafd : a.fd with
  | none => exact .inl rfl
  | some fd =>
    have hclosed := hfd fd hafd
    cases hasq : a.sq with
    | none =>
      left
      simp [RingWorld.close_opened hclosed]
    | some sq =>
      have hfreesq := hsq fd sq hasq
      cases hsingle : a.params.single with
      | true =>
        cases hasqes : a.sqes with
        | none =>
          left
          simp [RingWorld.unmap_map (w := w.opened fd) hfreesq, RingWorld.close_opened hclosed]
        | some sqes =>
          right
          obtain ⟨hfree, hapart, -⟩ := hsqes fd sqes hasqes
          refine ⟨fd, sq, sq, sqes, by simp, by simp [RingWorld.map, RingWorld.opened], hclosed, fun _ => rfl,
            fun parts t howned ht => ?_⟩
          have hmapped := ((howned.map (t := t) hfreesq).map (t := t) (hfree.map (hapart sq hasq)))
          simpa [GtRingIo.parts, UringParams.io, hsingle, ht, RingWorld.map, RingWorld.opened] using hmapped
      | false =>
        cases hacq : a.cq with
        | none =>
          left
          simp [RingWorld.unmap_map (w := w.opened fd) hfreesq, RingWorld.close_opened hclosed]
        | some cq =>
          obtain ⟨hfreecq, hapartcq⟩ := hcq fd cq hsingle hacq
          have hfree2 := hfreecq.map (hapartcq sq hasq)
          cases hasqes : a.sqes with
          | none =>
            left
            simp [RingWorld.unmap_map (w := (w.opened fd).map (ringPart P fd .sqRing (sq * P) a.params.sqBytes))
              hfree2, RingWorld.unmap_map (w := w.opened fd) hfreesq, RingWorld.close_opened hclosed]
          | some sqes =>
            right
            obtain ⟨hfree, hapartsq, hapartcq'⟩ := hsqes fd sqes hasqes
            have hfree3 := (hfree.map (hapartsq sq hasq)).map (hapartcq' cq hsingle hacq)
            refine ⟨fd, sq, cq, sqes, by simp, by simp [RingWorld.map, RingWorld.opened], hclosed, by simp,
              fun parts t howned ht => ?_⟩
            have hmapped := ((howned.map (t := t) hfreesq).map (t := t) hfree2).map (t := t) hfree3
            simpa [GtRingIo.parts, UringParams.io, hsingle, ht, RingWorld.map, RingWorld.opened] using hmapped

private theorem gtIoTeardown_zero (h : io.ok = false) : gtIoTeardown P w io = (w, io) := by simp [gtIoTeardown, h]

/-- A teardown unmaps what is mapped for the rings, and closes their descriptor. -/
private theorem gtIoTeardown_spec (h : io.ok = true) :
    gtIoTeardown P w io = (⟨w.pages.unmapAll (io.parts P), Function.update w.fds io.fd false⟩, GtRingIo.zero) := by
  cases hcq : io.cqMmap <;>
    simp [gtIoTeardown, h, hcq, GtRingIo.parts, RingWorld.unmap, RingWorld.close, unmapAll, ringPart]

private theorem parts_use {q : PageMap.Part RingPage} (hq : q ∈ io.parts P) :
    ∃ region, q.use = .ring io.fd region := by
  unfold GtRingIo.parts at hq
  split at hq
  · cases hcq : io.cqMmap <;> simp [hcq] at hq
    · rcases hq with rfl | rfl <;> exact ⟨_, rfl⟩
    · rcases hq with rfl | rfl | rfl <;> exact ⟨_, rfl⟩
  · cases hq

end setup

/-! ### Runs -/

/-- The members of a ring are within its size. -/
structure UringParams.LaidOut (p : UringParams) : Prop where
  sq : p.sqHead + sizeofUnsigned ≤ p.sqLen ∧ p.sqTail + sizeofUnsigned ≤ p.sqLen ∧
    p.sqRingMask + sizeofUnsigned ≤ p.sqLen
  cq : p.cqHead + sizeofUnsigned ≤ p.cqLen ∧ p.cqTail + sizeofUnsigned ≤ p.cqLen ∧
    p.cqRingMask + sizeofUnsigned ≤ p.cqLen

/-- A thread's rings are as its setup left them. -/
def SetUp (P : Nat) (p : UringParams) (io : GtRingIo) : Prop :=
  p.LaidOut ∧ ∃ fd sq cq sqes, io = p.io fd (sq * P) (cq * P) (sqes * P) ∧ (p.single = true → cq = sq)

/-- What is mapped and open is of the threads' rings, or of other code. -/
structure RingSetupInv (P : Nat) (s : RingProcess Tid) : Prop where
  owned : s.world.pages.Owned (s.parts P)
  others : ∀ id, ∀ q ∈ s.others id, q.use = .other id
  fds : ∀ fd, s.world.fds fd = true ↔ (∃ t, (s.io t).ok = true ∧ (s.io t).fd = fd) ∨ s.otherFds fd = true
  alone : ∀ t u, (s.io t).ok = true → (s.io u).ok = true → (s.io t).fd = (s.io u).fd → t = u
  mine : ∀ t, (s.io t).ok = true → s.otherFds (s.io t).fd = false
  setUp : ∀ t, (s.io t).ok = true → SetUp P (s.params t) (s.io t)

section inv

variable {P : Nat} {s s' : RingProcess Tid} {t : Tid} {io : GtRingIo}

private theorem parts_update (P : Nat) (s : RingProcess Tid) (world : RingWorld) (t : Tid) (io : GtRingIo)
    (params : Tid → UringParams) :
    RingProcess.parts P { s with world := world, io := Function.update s.io t io, params := params } =
      Function.update (s.parts P) (.inl t) (io.parts P) := by
  rw [RingProcess.parts, RingProcess.parts, Sum.update_elim_inl]
  congr 1
  funext u
  by_cases hu : u = t
  · subst hu
    simp
  · simp [hu]

private theorem parts_others (P : Nat) (s : RingProcess Tid) (world : RingWorld) (id : Nat)
    (qs : List (PageMap.Part RingPage)) :
    RingProcess.parts P { s with world := world, others := Function.update s.others id qs } =
      Function.update (s.parts P) (.inr id) qs := by
  rw [RingProcess.parts, RingProcess.parts, Sum.update_elim_inr]

omit [DecidableEq Tid] in
/-- What a page maps says whose it is. -/
private theorem RingSetupInv.keys (hs : RingSetupInv P s) {o o' : Tid ⊕ Nat} (hne : o' ≠ o) :
    ∀ q ∈ s.parts P o, ∀ r ∈ s.parts P o', ∀ i j, q.use i ≠ r.use j := by
  intro q hq r hr i j heq
  cases o with
  | inl t =>
    obtain ⟨region, hregion⟩ := parts_use hq
    rw [hregion] at heq
    cases o' with
    | inl u =>
      obtain ⟨region', hregion'⟩ := parts_use hr
      rw [hregion', RingPage.ring.injEq] at heq
      have hok {v : Tid} {r : PageMap.Part RingPage} (hr : r ∈ (s.io v).parts P) : (s.io v).ok = true := by
        by_contra hnot
        rw [GtRingIo.parts, if_neg hnot] at hr
        cases hr
      exact hne (congrArg Sum.inl (hs.alone u t (hok hr) (hok hq) heq.1.symm))
    | inr id =>
      rw [hs.others id r hr] at heq
      cases heq
  | inr id =>
    rw [hs.others id q hq] at heq
    cases o' with
    | inl u =>
      obtain ⟨region', hregion'⟩ := parts_use hr
      rw [hregion'] at heq
      cases heq
    | inr id' =>
      rw [hs.others id' r hr, RingPage.other.injEq] at heq
      exact hne (congrArg Sum.inr heq.1.symm)

omit [DecidableEq Tid] in
private theorem RingSetupInv.start (P : Nat) (params : UringParams) : RingSetupInv P (.start Tid params) where
  owned p x := by
    constructor
    · intro h
      cases h
    · rintro ⟨o, q, hq, -⟩
      cases o <;> cases hq
  others id q hq := by cases hq
  fds fd := by simp [RingProcess.start, GtRingIo.zero]
  alone t u ht := by cases ht
  mine t ht := by cases ht
  setUp t ht := by cases ht

omit [DecidableEq Tid] in
/-- A descriptor that is not open is of no thread's rings, and of no other code. -/
private theorem RingSetupInv.closed (hs : RingSetupInv P s) {fd : Nat} (hclosed : s.world.fds fd = false) :
    (∀ u, (s.io u).ok = true → (s.io u).fd ≠ fd) ∧ s.otherFds fd = false := by
  constructor
  · rintro u hu rfl
    have hopen := (hs.fds (s.io u).fd).2 (.inl ⟨u, hu, rfl⟩)
    rw [hclosed] at hopen
    cases hopen
  · cases hfd : s.otherFds fd with
    | false => rfl
    | true =>
      rw [(hs.fds fd).2 (.inr hfd)] at hclosed
      cases hclosed

/-- A setup that fails: what it was given is noted, for a thread that has no rings. -/
private theorem RingSetupInv.refused (hs : RingSetupInv P s) (hio : (s.io t).ok = false) (params : UringParams) :
    RingSetupInv P { s with params := Function.update s.params t params } := by
  refine ⟨hs.owned, hs.others, hs.fds, hs.alone, hs.mine, fun u hu => ?_⟩
  have hne : u ≠ t := by
    rintro rfl
    rw [hio] at hu
    cases hu
  have hset := hs.setUp u hu
  rwa [← Function.update_of_ne hne params s.params] at hset

/-- A setup that succeeds: the thread has rings, with a descriptor that was not open. -/
private theorem RingSetupInv.gives {w : RingWorld} {params : UringParams} (hs : RingSetupInv P s)
    (hio : (s.io t).ok = false) (hclosed : s.world.fds io.fd = false)
    (hfds : w.fds = Function.update s.world.fds io.fd true)
    (howned : w.pages.Owned (Function.update (s.parts P) (.inl t) (io.parts P))) (hok : io.ok = true)
    (hset : SetUp P params io) : RingSetupInv P { s with
      world := w, io := Function.update s.io t io, params := Function.update s.params t params } := by
  obtain ⟨hnotmine, hother⟩ := hs.closed hclosed
  refine ⟨?_, hs.others, fun fd => ?_, fun u v hu hv huv => ?_, fun u hu => ?_, fun u hu => ?_⟩
  · rw [parts_update]
    exact howned
  · dsimp only
    rw [hfds]
    by_cases hfd : fd = io.fd
    · subst hfd
      rw [Function.update_self]
      exact iff_of_true rfl (.inl ⟨t, by rw [Function.update_self]; exact ⟨hok, rfl⟩⟩)
    · rw [Function.update_of_ne hfd, hs.fds]
      refine or_congr_left ⟨?_, ?_⟩
      · rintro ⟨u, hu, rfl⟩
        have hut : u ≠ t := by
          rintro rfl
          rw [hio] at hu
          cases hu
        exact ⟨u, by rw [Function.update_of_ne hut]; exact ⟨hu, rfl⟩⟩
      · rintro ⟨u, hu⟩
        by_cases hut : u = t
        · subst hut
          rw [Function.update_self] at hu
          exact absurd hu.2.symm hfd
        · rw [Function.update_of_ne hut] at hu
          exact ⟨u, hu⟩
  · dsimp only at hu hv huv
    by_cases hut : u = t <;> by_cases hvt : v = t
    · rw [hut, hvt]
    · subst hut
      rw [Function.update_of_ne hvt] at hv huv
      rw [Function.update_self] at huv
      exact absurd huv.symm (hnotmine v hv)
    · subst hvt
      rw [Function.update_of_ne hut] at hu huv
      rw [Function.update_self] at huv
      exact absurd huv (hnotmine u hu)
    · rw [Function.update_of_ne hut] at hu huv
      rw [Function.update_of_ne hvt] at hv huv
      exact hs.alone u v hu hv huv
  · dsimp only at hu ⊢
    by_cases hut : u = t
    · subst hut
      rw [Function.update_self]
      exact hother
    · rw [Function.update_of_ne hut] at hu ⊢
      exact hs.mine u hu
  · dsimp only at hu ⊢
    by_cases hut : u = t
    · subst hut
      rw [Function.update_self, Function.update_self]
      exact hset
    · rw [Function.update_of_ne hut] at hu
      rw [Function.update_of_ne hut, Function.update_of_ne hut]
      exact hs.setUp u hu

/-- A teardown: the thread's rings are unmapped, and their descriptor is closed. -/
private theorem RingSetupInv.tornDown (hs : RingSetupInv P s) (hok : (s.io t).ok = true) :
    RingSetupInv P { s with
      world := ⟨s.world.pages.unmapAll ((s.io t).parts P), Function.update s.world.fds (s.io t).fd false⟩
      io := Function.update s.io t GtRingIo.zero } := by
  have hlive {u : Tid} (hu : (Function.update s.io t GtRingIo.zero u).ok = true) :
      u ≠ t ∧ Function.update s.io t GtRingIo.zero u = s.io u := by
    have hut : u ≠ t := by
      rintro rfl
      rw [Function.update_self] at hu
      cases hu
    exact ⟨hut, Function.update_of_ne hut _ _⟩
  refine ⟨?_, hs.others, fun fd => ?_, fun u v hu hv huv => ?_, fun u hu => ?_, fun u hu => ?_⟩
  · rw [show RingProcess.parts P { s with world := _, io := _ } = _ from parts_update P s _ t GtRingIo.zero s.params]
    exact hs.owned.unmapAll (t := (.inl t : Tid ⊕ Nat)) fun o ho => hs.keys ho
  · dsimp only
    by_cases hfd : fd = (s.io t).fd
    · subst hfd
      rw [Function.update_self]
      refine iff_of_false (by simp) ?_
      rintro (⟨u, hu, huv⟩ | hother)
      · obtain ⟨hut, heq⟩ := hlive hu
        rw [heq] at hu huv
        exact hut (hs.alone u t hu hok huv)
      · rw [hs.mine t hok] at hother
        cases hother
    · rw [Function.update_of_ne hfd, hs.fds]
      refine or_congr_left ⟨?_, ?_⟩
      · rintro ⟨u, hu, rfl⟩
        have hut : u ≠ t := by
          rintro rfl
          exact hfd rfl
        exact ⟨u, by rw [Function.update_of_ne hut]; exact ⟨hu, rfl⟩⟩
      · rintro ⟨u, hu, hufd⟩
        obtain ⟨-, heq⟩ := hlive hu
        rw [heq] at hu hufd
        exact ⟨u, hu, hufd⟩
  · dsimp only at hu hv huv
    obtain ⟨-, hequ⟩ := hlive hu
    obtain ⟨-, heqv⟩ := hlive hv
    rw [hequ] at hu huv
    rw [heqv] at hv huv
    exact hs.alone u v hu hv huv
  · dsimp only at hu ⊢
    obtain ⟨-, heq⟩ := hlive hu
    rw [heq] at hu ⊢
    exact hs.mine u hu
  · dsimp only at hu ⊢
    obtain ⟨-, heq⟩ := hlive hu
    rw [heq] at hu ⊢
    exact hs.setUp u hu

/-- What other code maps is noted as its own. -/
private theorem RingSetupInv.maps {id base n : Nat} (hs : RingSetupInv P s)
    (hfree : s.world.pages.Free ⟨base, n, .other id⟩) (hid : s.others id = []) :
    RingSetupInv P { s with
      world := s.world.map ⟨base, n, .other id⟩
      others := Function.update s.others id [⟨base, n, .other id⟩] } := by
  refine ⟨?_, fun id' q hq => ?_, hs.fds, hs.alone, hs.mine, hs.setUp⟩
  · rw [parts_others]
    have hmapped := hs.owned.map (t := (.inr id : Tid ⊕ Nat)) hfree
    rwa [show s.parts P (.inr id) = [] from hid] at hmapped
  · dsimp only at hq
    by_cases hid' : id' = id
    · subst hid'
      rw [Function.update_self, List.mem_singleton] at hq
      rw [hq]
    · rw [Function.update_of_ne hid'] at hq
      exact hs.others id' q hq

private theorem RingSetupInv.unmaps (hs : RingSetupInv P s) (id : Nat) :
    RingSetupInv P { s with
      world := { s.world with pages := s.world.pages.unmapAll (s.others id) }
      others := Function.update s.others id [] } := by
  refine ⟨?_, fun id' q hq => ?_, hs.fds, hs.alone, hs.mine, hs.setUp⟩
  · rw [parts_others]
    exact hs.owned.unmapAll (t := (.inr id : Tid ⊕ Nat)) fun o ho => hs.keys ho
  · dsimp only at hq
    by_cases hid' : id' = id
    · subst hid'
      rw [Function.update_self] at hq
      cases hq
    · rw [Function.update_of_ne hid'] at hq
      exact hs.others id' q hq

omit [DecidableEq Tid] in
/-- What other code opens is noted as its own. -/
private theorem RingSetupInv.opens {fd : Nat} (hs : RingSetupInv P s) (hfd : s.world.fds fd = false) :
    RingSetupInv P { s with world := s.world.opened fd, otherFds := Function.update s.otherFds fd true } := by
  refine ⟨hs.owned, hs.others, fun fd' => ?_, hs.alone, fun t ht => ?_, hs.setUp⟩
  · by_cases hfd' : fd' = fd
    · subst hfd'
      simp [RingWorld.opened]
    · simpa [RingWorld.opened, hfd'] using hs.fds fd'
  · dsimp only
    rw [Function.update_of_ne ((hs.closed hfd).1 t ht)]
    exact hs.mine t ht

omit [DecidableEq Tid] in
private theorem RingSetupInv.closes {fd : Nat} (hs : RingSetupInv P s) (hfd : s.otherFds fd = true) :
    RingSetupInv P { s with world := s.world.close fd, otherFds := Function.update s.otherFds fd false } := by
  have hnot : ¬∃ t, (s.io t).ok = true ∧ (s.io t).fd = fd := by
    rintro ⟨t, ht, rfl⟩
    rw [hs.mine t ht] at hfd
    cases hfd
  refine ⟨hs.owned, hs.others, fun fd' => ?_, hs.alone, fun t ht => ?_, hs.setUp⟩
  · by_cases hfd' : fd' = fd
    · subst hfd'
      simpa [RingWorld.close] using hnot
    · simpa [RingWorld.close, hfd'] using hs.fds fd'
  · by_cases hfd' : (s.io t).fd = fd
    · dsimp only
      rw [hfd', Function.update_self]
    · dsimp only
      rw [Function.update_of_ne hfd']
      exact hs.mine t ht

private theorem RingSetupInv.step (hs : RingSetupInv P s) (hstep : RingSetupStep P s s') : RingSetupInv P s' := by
  cases hstep with
  | setup t a hanswers hio =>
    rcases gtIoSetup_spec (s.io t) hanswers with heq | ⟨fd, sq, cq, sqes, heq, hfds, hclosed, hsingle, howned⟩
    · have hsame : { s.io t with ok := false } = s.io t := by
        rw [← hio]
      rw [heq, hsame, Function.update_eq_self]
      exact hs.refused hio a.params
    · rw [heq]
      have hnil : s.parts P (.inl t) = [] := by
        show (s.io t).parts P = []
        rw [GtRingIo.parts, if_neg (by simp [hio])]
      exact hs.gives hio hclosed hfds (howned _ _ hs.owned hnil) rfl
        ⟨⟨hanswers.sqMembers, hanswers.cqMembers⟩, fd, sq, cq, sqes, rfl, hsingle⟩
  | teardown t =>
    cases hok : (s.io t).ok with
    | false =>
      rw [gtIoTeardown_zero hok, Function.update_eq_self]
      exact ⟨hs.owned, hs.others, hs.fds, hs.alone, hs.mine, hs.setUp⟩
    | true =>
      rw [gtIoTeardown_spec hok]
      exact hs.tornDown hok
  | maps id base n hfree hid => exact hs.maps hfree hid
  | unmaps id => exact hs.unmaps id
  | opens fd hfd => exact hs.opens hfd
  | closes fd hfd => exact hs.closes hfd

end inv

/-! ### What the code reaches -/

/-- The `n` bytes at `addr` are of a region of a ring that is mapped at `start`, each where the region has it. -/
def InRegion (P : Nat) (pages : PageMap RingPage) (fd : Nat) (region : RingRegion) (start addr n : Nat) : Prop :=
  ∀ b, addr ≤ b → b < addr + n → start ≤ b ∧ pages (b / P) = some (.ring fd region ((b - start) / P))

/-- Where the completion ring is: in a mapping of its own, or in that of the submission ring. -/
def GtRingIo.cqRegion (io : GtRingIo) : RingRegion × Nat :=
  match io.cqMmap with
  | some cq => (.cqRing, cq)
  | none => (.sqRing, io.sqMmap)

/-- All that the rings' pointers lead to is mapped. -/
structure RingMapped (P : Nat) (w : RingWorld) (cqEntries : Nat) (io : GtRingIo) : Prop where
  sqHead : InRegion P w.pages io.fd .sqRing io.sqMmap io.sqHead sizeofUnsigned
  sqTail : InRegion P w.pages io.fd .sqRing io.sqMmap io.sqTail sizeofUnsigned
  sqMask : InRegion P w.pages io.fd .sqRing io.sqMmap io.sqMask sizeofUnsigned
  sqArray : ∀ j < io.sqEntries, InRegion P w.pages io.fd .sqRing io.sqMmap (io.sqArray + j * sizeofUnsigned)
    sizeofUnsigned
  sqes : ∀ j < io.sqEntries, InRegion P w.pages io.fd .sqes io.sqes (io.sqes + j * sizeofIoUringSqe) sizeofIoUringSqe
  cqHead : InRegion P w.pages io.fd io.cqRegion.1 io.cqRegion.2 io.cqHead sizeofUnsigned
  cqTail : InRegion P w.pages io.fd io.cqRegion.1 io.cqRegion.2 io.cqTail sizeofUnsigned
  cqMask : InRegion P w.pages io.fd io.cqRegion.1 io.cqRegion.2 io.cqMask sizeofUnsigned
  cqes : ∀ j < cqEntries,
    InRegion P w.pages io.fd io.cqRegion.1 io.cqRegion.2 (io.cqes + j * sizeofIoUringCqe) sizeofIoUringCqe

/-- Every thread's rings are mapped whole and apart from all else; every page of a ring and every descriptor is of
some thread's rings, or of other code, which has what it mapped. -/
structure RingsKept (P : Nat) (s : RingProcess Tid) : Prop where
  mapped : ∀ t, (s.io t).ok = true → RingMapped P s.world (s.params t).cqEntries (s.io t)
  apart : ∀ t u, (s.io t).ok = true → (s.io u).ok = true → t ≠ u → (s.io t).fd ≠ (s.io u).fd
  pages : ∀ p fd region i, s.world.pages p = some (.ring fd region i) → ∃ t, (s.io t).ok = true ∧ (s.io t).fd = fd
  fds : ∀ fd, s.world.fds fd = true ↔ (∃ t, (s.io t).ok = true ∧ (s.io t).fd = fd) ∨ s.otherFds fd = true
  others : ∀ p id i, s.world.pages p = some (.other id i) ↔ ∃ q ∈ s.others id, q.at p = some (.other id i)

section kept

variable {P : Nat} {s : RingProcess Tid} {t : Tid} {pages : PageMap RingPage} {fd start bytes addr n : Nat}
  {region : RingRegion}

private theorem div_lt_pagesOf (hP : 0 < P) {x : Nat} (hx : x < bytes) : x / P < pagesOf P bytes := by
  have hle : (x + P) / P ≤ (bytes + P - 1) / P := Nat.div_le_div_right (by omega)
  rw [Nat.add_div_right x hP] at hle
  exact hle

private theorem inRegion_of_part (hP : 0 < P)
    (hpart : ∀ p x, (ringPart P fd region (start * P) bytes).at p = some x → pages p = some x)
    (hle : start * P ≤ addr) (hlt : addr + n ≤ start * P + bytes) :
    InRegion P pages fd region (start * P) addr n := by
  intro b hb hbn
  have hoff : b = (b - start * P) + start * P := by omega
  have hdiv : b / P = (b - start * P) / P + start := by
    conv_lhs => rw [hoff]
    exact Nat.add_mul_div_right _ _ hP
  have hindex := div_lt_pagesOf (P := P) hP (show b - start * P < bytes by omega)
  refine ⟨by omega, hpart _ _ (PageMap.Part.at_eq_some.2 ⟨?_, ?_, ?_⟩)⟩
  · show start * P / P ≤ b / P
    rw [Nat.mul_div_cancel _ hP, hdiv]
    exact Nat.le_add_left _ _
  · show b / P < start * P / P + pagesOf P bytes
    rw [Nat.mul_div_cancel _ hP, hdiv, Nat.add_comm]
    exact Nat.add_lt_add_left hindex start
  · show RingPage.ring fd region (b / P - start * P / P) = _
    rw [Nat.mul_div_cancel _ hP, hdiv, Nat.add_sub_cancel]

omit [DecidableEq Tid] in
private theorem RingSetupInv.mapped (hP : 0 < P) (hs : RingSetupInv P s) (ht : (s.io t).ok = true) :
    RingMapped P s.world (s.params t).cqEntries (s.io t) := by
  obtain ⟨⟨hsq, hcq⟩, fd, sq, cq, sqes, hio, hsingle⟩ := hs.setUp t ht
  have hpart {q : PageMap.Part RingPage} (hq : q ∈ (s.io t).parts P) (p : Nat) (x : RingPage)
    (hat : q.at p = some x) :
      s.world.pages p = some x := (hs.owned p x).2 ⟨.inl t, q, hq, hat⟩
  rw [GtRingIo.parts, if_pos ht] at hpart
  rw [hio] at hpart ⊢
  generalize s.params t = p at *
  have hsqlen : p.sqLen ≤ p.sqBytes := by
    unfold UringParams.sqBytes
    split
    · split <;> omega
    · exact Nat.le_refl _
  have hcqlen : p.cqLen ≤ p.cqBytes := by
    unfold UringParams.cqBytes UringParams.sqBytes
    split
    · split <;> omega
    · exact Nat.le_refl _
  have hsqpart := hpart (q := ringPart P fd .sqRing (sq * P) p.sqBytes) (by simp [UringParams.io])
  have hsqepart := hpart (q := ringPart P fd .sqes (sqes * P) p.sqeBytes) (by simp [UringParams.io])
  have hsqarray : p.sqArray + p.sqEntries * sizeofUnsigned ≤ p.sqBytes := hsqlen
  have hcqes : p.cqCqes + p.cqEntries * sizeofIoUringCqe ≤ p.cqBytes := hcqlen
  have hcqpart : ∀ addr n, cq * P ≤ addr → addr + n ≤ cq * P + p.cqBytes →
      InRegion P s.world.pages fd (p.io fd (sq * P) (cq * P) (sqes * P)).cqRegion.1
        (p.io fd (sq * P) (cq * P) (sqes * P)).cqRegion.2 addr n := by
    intro addr n hle hlt
    cases hone : p.single with
    | true =>
      rw [hsingle hone, UringParams.cqBytes, if_pos hone] at hlt
      rw [hsingle hone] at hle
      simpa [GtRingIo.cqRegion, UringParams.io, hone] using inRegion_of_part hP hsqpart hle hlt
    | false =>
      have hcqpart := hpart (q := ringPart P fd .cqRing (cq * P) p.cqBytes) (by simp [UringParams.io, hone])
      simpa [GtRingIo.cqRegion, UringParams.io, hone] using inRegion_of_part hP hcqpart hle hlt
  have helem (width : Nat) {j k : Nat} (hj : j < k) : j * width + width ≤ k * width := by
    have hmul := Nat.mul_le_mul_right width (show j + 1 ≤ k from hj)
    rwa [Nat.add_mul, Nat.one_mul] at hmul
  refine ⟨?_, ?_, ?_, fun j hj => ?_, fun j hj => ?_, ?_, ?_, ?_, fun j hj => ?_⟩
  · exact inRegion_of_part hP hsqpart (Nat.le_add_right _ _) (by simp only [UringParams.io]; omega)
  · exact inRegion_of_part hP hsqpart (Nat.le_add_right _ _) (by simp only [UringParams.io]; omega)
  · exact inRegion_of_part hP hsqpart (Nat.le_add_right _ _) (by simp only [UringParams.io]; omega)
  · have hj' := helem sizeofUnsigned hj
    exact inRegion_of_part hP hsqpart (by simp only [UringParams.io]; omega)
      (by simp only [UringParams.io] at *; omega)
  · have hj' := helem sizeofIoUringSqe hj
    exact inRegion_of_part hP hsqepart (Nat.le_add_right _ _)
      (by simp only [UringParams.io, UringParams.sqeBytes] at *; omega)
  · exact hcqpart _ _ (Nat.le_add_right _ _) (by simp only [UringParams.io]; omega)
  · exact hcqpart _ _ (Nat.le_add_right _ _) (by simp only [UringParams.io]; omega)
  · exact hcqpart _ _ (Nat.le_add_right _ _) (by simp only [UringParams.io]; omega)
  · have hj' := helem sizeofIoUringCqe hj
    exact hcqpart _ _ (by simp only [UringParams.io]; omega) (by simp only [UringParams.io] at *; omega)

end kept

end Sppc
