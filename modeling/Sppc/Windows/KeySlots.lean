import Sppc.Windows.Keys

/-!
# Incarnations of a key

While a thread has the lock, the key it reads stays as it is; a slot that has a value has the sequence number of the
incarnation that it was set under; and an exit leaves a slot it has passed empty, unless a destructor has set it
again.
-/

namespace Sppc.Windows

open Threads

variable {Tid Val Dtor : Type}

/-! ### Sequence numbers -/

/-- The sequence number of the `n`-th incarnation of a key. -/
def seqOf (n : Nat) : Nat := (2 * n - 1) % 2 ^ 32

theorem seqOf_odd {n : Nat} (hn : 0 < n) : seqOf n % 2 = 1 := by
  unfold seqOf
  omega

/-- Incarnations up to the 2³¹-st are told apart. -/
theorem seqOf_inj {m n : Nat} (hm : 0 < m) (hn : 0 < n) (hm' : m ≤ 2 ^ 31) (hn' : n ≤ 2 ^ 31)
    (h : seqOf m = seqOf n) : m = n := by
  unfold seqOf at h
  omega

/-- A key in use has the sequence number and the destructor of its last incarnation. -/
structure KeyOk (h : KeyState Tid Val Dtor) (k : Nat) : Prop where
  used : (h.keys k).InUse → (h.keys k).seq = seqOf (h.made k) ∧ 0 < h.made k ∧
    (h.keys k).destructor = h.given k (h.made k)
  free : ¬(h.keys k).InUse → (h.keys k).seq = 2 * h.made k % 2 ^ 32

/-- The keys that have been created are those in use and those that have been deleted, each of them once. -/
structure CreatedOk (keys : Nat → WinKey Dtor) (made : Nat → Nat) (created deleted : List (Nat × Nat)) : Prop where
  nodup : created.Nodup
  le : ∀ c ∈ created, c.2 ≤ made c.1
  deletedLe : ∀ c ∈ deleted, c.2 ≤ made c.1
  inUse : ∀ c ∈ created, (keys c.1).InUse ∧ made c.1 = c.2 ↔ c ∉ deleted

/-! ### Where a thread can be -/

/-- The call has the lock. -/
def KeyCall.exclusive : KeyCall Val Dtor → Bool
  | .scan .. | .make .. | .createUnlock _ | .check _ | .clear _ | .deleteUnlock _ => true
  | _ => false

/-- The exit has the lock. -/
def KeyWalk.shared : KeyWalk Tid Val Dtor → Bool
  | .readSeq .. | .readDestructor .. | .unlock .. => true
  | _ => false

def KeyCall.Ok (h : KeyState Tid Val Dtor) : KeyCall Val Dtor → Prop
  | .make d k => k < keysMax ∧ ¬(h.keys k).InUse ∧ (h.keys k).destructor = d
  | .createUnlock (.key k) => (h.keys k).InUse ∧ (k, h.made k) ∈ h.created
  | .clear k => ¬(h.keys k).InUse
  | .store k _ seq made => k < keysMax ∧ seq = seqOf made ∧ 0 < made ∧ made ≤ h.made k
  | _ => True

/-- What an exit has found of a key, when the incarnation `found` was there. -/
structure SeenOk (h : KeyState Tid Val Dtor) (k seq : Nat) (d : Option Dtor) (found : Option Nat) : Prop where
  used : ∀ n, found = some n → seq = seqOf n ∧ 0 < n ∧ n ≤ h.made k ∧ d = h.given k n
  free : found = none → seq % 2 = 0

/-- The slots before `n` are empty, but for those that destructors have set in this round. -/
def Passed (h : KeyState Tid Val Dtor) (t : Tid) (p : WalkPos) (n : Nat) : Prop :=
  ∀ k < n, (h.block t k).value ≠ none → ∃ r, h.last t k = some r ∧ r.round = some p.round

/-- What an exit has found a value in. -/
structure VisitOk (h : KeyState Tid Val Dtor) (t : Tid) (p : WalkPos) : Prop where
  round : p.round < destructorIterations
  passed : Passed h t p p.key
  ran : p.ran = false → ∀ k < p.key, (h.block t k).value = none

/-- The value that an exit hands to a destructor. -/
structure HandOk (h : KeyState Tid Val Dtor) (t : Tid) (p : WalkPos) (v : Val) (d : Dtor) (x : KeyTaken Tid Val) :
    Prop where
  round : p.round < destructorIterations
  passed : Passed h t p (p.key + 1)
  cleared : (h.block t p.key).value = none
  taken : x ∈ h.taken
  thread : x.thread = t
  key : x.key = p.key
  value : x.set.value = some v
  found : x.found = some x.set.made
  made : x.set.made ≤ h.made p.key
  given : h.given p.key x.set.made = some d
  handed : ∀ y ∈ h.handed, y.taken.thread = t → y.taken.key = p.key → y.taken.set.id ≠ x.set.id

def KeyWalk.Ok (h : KeyState Tid Val Dtor) (t : Tid) : KeyWalk Tid Val Dtor → Prop
  | .none => True
  | .visit p => VisitOk h t p
  | .lock p v | .readSeq p v => VisitOk h t p ∧ (h.block t p.key).value = some v
  | .readDestructor p v seq found => (VisitOk h t p ∧ (h.block t p.key).value = some v) ∧ seq = (h.keys p.key).seq ∧
      found = h.incarnation p.key
  | .unlock p v seq d found => (VisitOk h t p ∧ (h.block t p.key).value = some v) ∧ SeenOk h p.key seq d found
  | .take p v seq d found => (VisitOk h t p ∧ (h.block t p.key).value = some v) ∧ SeenOk h p.key seq d found
  | .hand p v d x => HandOk h t p v d x
  | .calling p => p.round < destructorIterations ∧ Passed h t p (p.key + 1)

/-- The value in the slot is the last that its thread has set, under the incarnation whose sequence number the slot
has, and no exit has taken it. -/
structure SetOk (h : KeyState Tid Val Dtor) (t : Tid) (k : Nat) (v : Val) (r : KeySet Val) : Prop where
  last : h.last t k = some r
  value : r.value = some v
  key : k < keysMax
  seq : (h.block t k).seq = seqOf r.made
  pos : 0 < r.made
  made : r.made ≤ h.made k
  id : r.id < h.sets
  taken : ∀ x ∈ h.taken, x.thread = t → x.key = k → x.set.id ≠ r.id

/-- What a thread has set is in its slot, until an exit has taken it, or left it there after the last round. -/
def KeptOk (h : KeyState Tid Val Dtor) (t : Tid) (k : Nat) : Prop :=
  ∀ r v, h.last t k = some r → r.value = some v → (h.block t k).value = some v ∨
    (∃ x ∈ h.taken, x.thread = t ∧ x.key = k ∧ x.set = r) ∨ r.round = some (destructorIterations - 1)

/-- What an exit has taken and found current has been handed to its destructor, or is just being. -/
def EachOk (h : KeyState Tid Val Dtor) (t : Tid) (w : KeyWalk Tid Val Dtor) : Prop :=
  ∀ x ∈ h.taken, x.thread = t → x.found = some x.set.made → ∀ d, h.given x.key x.set.made = some d →
    (∃ y ∈ h.handed, y.taken = x) ∨ ∃ p v, w = .hand p v d x

structure KeyThreadOk (h : KeyState Tid Val Dtor) (t : Tid) (l : KeyLoc Tid Val Dtor) : Prop where
  call : l.call.Ok h
  walk : l.walk.Ok h t
  slots : ∀ k v, (h.block t k).value = some v → ∃ r, SetOk h t k v r
  kept : ∀ k, KeptOk h t k
  each : EachOk h t l.walk
  writer : h.writer = some t ↔ l.call.exclusive = true
  reader : t ∈ h.readers ↔ l.walk.shared = true

/-- A call of a destructor. -/
structure HandedOk (h : KeyState Tid Val Dtor) (y : KeyHanded Tid Val Dtor) : Prop where
  taken : y.taken ∈ h.taken
  found : y.taken.found = some y.taken.set.made
  given : h.given y.taken.key y.taken.set.made = some y.destructor
  value : y.taken.set.value = some y.value

/-- The table of keys, and the records of what has happened. -/
structure KeySharedOk (h : KeyState Tid Val Dtor) : Prop where
  keys : ∀ k, KeyOk h k
  excl : h.writer ≠ none → h.readers = ∅
  created : CreatedOk h.keys h.made h.created h.deleted
  takenMade : ∀ x ∈ h.taken, x.set.made ≤ h.made x.key
  takenId : ∀ x ∈ h.taken, x.set.id < h.sets
  handed : ∀ y ∈ h.handed, HandedOk h y
  once : (h.handed.map fun y => (y.taken.thread, y.taken.key, y.taken.set.id)).Nodup

/-! ### What a step leaves to the others -/

variable {h h' : KeyState Tid Val Dtor} {t u : Tid} {l l' : KeyLoc Tid Val Dtor}

/-- What a step of `t` leaves to the other threads. -/
structure KeyKeeps (t : Tid) (h h' : KeyState Tid Val Dtor) : Prop where
  keys : h.writer ≠ some t → h'.keys = h.keys ∧ h'.made = h.made
  made : ∀ k, h.made k ≤ h'.made k
  given : ∀ k n, n ≤ h.made k → h'.given k n = h.given k n
  created : ∀ c ∈ h.created, c ∈ h'.created
  block : ∀ u ≠ t, h'.block u = h.block u
  last : ∀ u ≠ t, h'.last u = h.last u
  sets : h.sets ≤ h'.sets
  taken : ∀ x ∈ h.taken, x ∈ h'.taken
  takes : ∀ x ∈ h'.taken, x ∈ h.taken ∨ x.thread = t
  handed : ∀ y ∈ h.handed, y ∈ h'.handed
  hands : ∀ y ∈ h'.handed, y ∈ h.handed ∨ y.taken.thread = t
  writer : ∀ u ≠ t, h'.writer = some u ↔ h.writer = some u
  reader : ∀ u ≠ t, u ∈ h'.readers ↔ u ∈ h.readers

theorem Passed.keep {p : WalkPos} {n : Nat} (hp : Passed h u p n) (hblock : h'.block u = h.block u)
    (hlast : h'.last u = h.last u) : Passed h' u p n := by
  unfold Passed
  rw [hblock, hlast]
  exact hp

theorem VisitOk.keep {p : WalkPos} (hp : VisitOk h u p) (hblock : h'.block u = h.block u)
    (hlast : h'.last u = h.last u) : VisitOk h' u p where
  round := hp.round
  passed := hp.passed.keep hblock hlast
  ran := by
    rw [hblock]
    exact hp.ran

theorem SeenOk.keep {k seq : Nat} {d : Option Dtor} {found : Option Nat} (hs : SeenOk h k seq d found)
    (hmade : h.made k ≤ h'.made k) (hgiven : ∀ n, n ≤ h.made k → h'.given k n = h.given k n) :
    SeenOk h' k seq d found where
  used n hn := by
    obtain ⟨hseq, hpos, hle, hd⟩ := hs.used n hn
    exact ⟨hseq, hpos, hle.trans hmade, hd.trans (hgiven n hle).symm⟩
  free := hs.free

theorem HandOk.keep {p : WalkPos} {v : Val} {d : Dtor} {x : KeyTaken Tid Val} (hx : HandOk h u p v d x) (hu : u ≠ t)
    (hk : KeyKeeps t h h') : HandOk h' u p v d x where
  round := hx.round
  passed := hx.passed.keep (hk.block u hu) (hk.last u hu)
  cleared := by
    rw [hk.block u hu]
    exact hx.cleared
  taken := hk.taken x hx.taken
  thread := hx.thread
  key := hx.key
  value := hx.value
  found := hx.found
  made := hx.made.trans (hk.made p.key)
  given := (hk.given p.key _ hx.made).trans hx.given
  handed y hy hyu hyk := by
    rcases hk.hands y hy with hy | hyt
    · exact hx.handed y hy hyu hyk
    · exact absurd (hyu.symm.trans hyt) hu

theorem SetOk.keep {k : Nat} {v : Val} {r : KeySet Val} (hr : SetOk h u k v r) (hu : u ≠ t) (hk : KeyKeeps t h h') :
    SetOk h' u k v r where
  last := by
    rw [hk.last u hu]
    exact hr.last
  value := hr.value
  key := hr.key
  seq := by
    rw [hk.block u hu]
    exact hr.seq
  pos := hr.pos
  made := hr.made.trans (hk.made k)
  id := hr.id.trans_le hk.sets
  taken x hx hxu hxk := by
    rcases hk.takes x hx with hx | hxt
    · exact hr.taken x hx hxu hxk
    · exact absurd (hxu.symm.trans hxt) hu

theorem KeyCall.Ok.keep {c : KeyCall Val Dtor} (hc : c.Ok h)
    (hkeys : c.exclusive = true → h'.keys = h.keys ∧ h'.made = h.made) (hmade : ∀ k, h.made k ≤ h'.made k)
    (hcreated : ∀ c ∈ h.created, c ∈ h'.created) : c.Ok h' := by
  cases c with
  | make d k | clear k =>
    unfold KeyCall.Ok
    rw [(hkeys rfl).1]
    exact hc
  | createUnlock r =>
    cases r with
    | key k =>
      obtain ⟨hkeys, hmade⟩ := hkeys rfl
      unfold KeyCall.Ok
      rw [hkeys, hmade]
      exact ⟨hc.1, hcreated _ hc.2⟩
    | _ => trivial
  | store k v seq made => exact ⟨hc.1, hc.2.1, hc.2.2.1, hc.2.2.2.trans (hmade k)⟩
  | _ => trivial

theorem KeyWalk.Ok.keep {w : KeyWalk Tid Val Dtor} (hw : w.Ok h u) (hu : u ≠ t) (hk : KeyKeeps t h h')
    (hkeys : w.shared = true → h'.keys = h.keys ∧ h'.made = h.made) : w.Ok h' u := by
  have hvisit {p : WalkPos} {v : Val} (hp : VisitOk h u p ∧ (h.block u p.key).value = some v) :
      VisitOk h' u p ∧ (h'.block u p.key).value = some v := by
    refine ⟨hp.1.keep (hk.block u hu) (hk.last u hu), ?_⟩
    rw [hk.block u hu]
    exact hp.2
  cases w with
  | none => trivial
  | visit p => exact VisitOk.keep hw (hk.block u hu) (hk.last u hu)
  | lock p v => exact hvisit hw
  | readSeq p v => exact hvisit hw
  | readDestructor p v seq found =>
    obtain ⟨hkeys, hmade⟩ := hkeys rfl
    refine ⟨hvisit hw.1, ?_⟩
    unfold KeyState.incarnation
    rw [hkeys, hmade]
    exact hw.2
  | unlock p v seq d found => exact ⟨hvisit hw.1, hw.2.keep (hk.made _) (hk.given _)⟩
  | take p v seq d found => exact ⟨hvisit hw.1, hw.2.keep (hk.made _) (hk.given _)⟩
  | hand p v d x => exact HandOk.keep hw hu hk
  | calling p => exact ⟨hw.1, hw.2.keep (hk.block u hu) (hk.last u hu)⟩

theorem KeyThreadOk.keep (hok : KeyThreadOk h u l) (hu : u ≠ t) (hk : KeyKeeps t h h') (hs : KeySharedOk h) :
    KeyThreadOk h' u l where
  call := hok.call.keep (fun hc => hk.keys fun ht => hu (Option.some.inj (ht.symm.trans (hok.writer.2 hc))).symm)
    hk.made hk.created
  walk := by
    refine hok.walk.keep hu hk fun hw => ?_
    have hne : h.writer ≠ some t := by
      intro ht
      have hmem := hok.reader.2 hw
      rw [hs.excl (by simp [ht])] at hmem
      simp at hmem
    exact hk.keys hne
  slots k v hv := by
    rw [hk.block u hu] at hv
    obtain ⟨r, hr⟩ := hok.slots k v hv
    exact ⟨r, hr.keep hu hk⟩
  kept k r v hr hv := by
    rw [hk.last u hu] at hr
    rw [hk.block u hu]
    rcases hok.kept k r v hr hv with h | ⟨x, hx, hx'⟩ | h
    · exact Or.inl h
    · exact Or.inr (Or.inl ⟨x, hk.taken x hx, hx'⟩)
    · exact Or.inr (Or.inr h)
  each x hx hxu hfound d hd := by
    rcases hk.takes x hx with hx | hxt
    · rw [hk.given _ _ (hs.takenMade x hx)] at hd
      rcases hok.each x hx hxu hfound d hd with ⟨y, hy, hyx⟩ | h
      · exact Or.inl ⟨y, hk.handed y hy, hyx⟩
      · exact Or.inr h
    · exact absurd (hxu.symm.trans hxt) hu
  writer := (hk.writer u hu).trans hok.writer
  reader := (hk.reader u hu).trans hok.reader

end Sppc.Windows
