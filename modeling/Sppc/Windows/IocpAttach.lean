import Sppc.Threads

/-!
# Tying a socket to a completion port (`async/iocp.h`)

Any number of threads set their runtimes up, call `_gt_iocp_attach` on one description, and end.  A step is one access
to what they share: an interlocked operation on `owner` or on the last id, or a call of Windows.  An id is a `LONG64`,
of which the last is never handed out.
-/

namespace Sppc.Windows

open Threads

/-- `_gt_R.io` of a thread. -/
structure RuntimeIo where
  port : Nat
  id : Int
  ok : Bool
  deriving DecidableEq, Repr

/-- All of it zero. -/
def RuntimeIo.zero : RuntimeIo := ⟨0, 0, false⟩

/-- What has happened to the description: a port that it was tied to, an association that failed, and what a call
returned to the runtime of an id and a port. -/
inductive AttachEntry
  | tied (port : Nat)
  | refused
  | returned (id : Int) (port : Nat) (b : Bool)
  deriving DecidableEq, Repr

/-- The `owner` of the description and what has happened to it, the last first; the last id, and the number of ports
made. -/
structure AttachShared where
  owner : Int
  log : List AttachEntry
  ids : Nat
  ports : Nat

/-- Where a thread is: outside, or before an access or the return of a call. -/
inductive AttachPc
  | out | setupId
  | compare | associate | exchange
  | ret (b : Bool)
  deriving DecidableEq, Repr

structure AttachLoc where
  io : RuntimeIo
  pc : AttachPc
  deriving DecidableEq, Repr

/-- The calls of a thread, whether Windows makes a port, and whether it ties the socket to one. -/
inductive AttachInput
  | setup (made : Bool) | teardown | attach
  | tie (ok : Bool)
  | run
  deriving DecidableEq, Repr

/-- `LONG64`'s maximum. -/
def long64Max : Nat := 2 ^ 63 - 1

/-- The next access of a thread. -/
def attachAct {Tid : Type} (_ : Tid) (i : AttachInput) (h : AttachShared) (l : AttachLoc) :
    Option (AttachShared × AttachLoc) :=
  match l.pc, i with
  -- _gt_io_setup
  | .out, .setup made =>
    if made then some ({ h with ports := h.ports + 1 }, ⟨⟨h.ports + 1, 0, false⟩, .setupId⟩)
    else some (h, ⟨.zero, .out⟩)
  | .setupId, .run =>
    -- InterlockedIncrement64 would wrap
    if h.ids = long64Max then none
    else some ({ h with ids := h.ids + 1 }, ⟨⟨l.io.port, h.ids + 1, true⟩, .out⟩)
  -- _gt_io_teardown
  | .out, .teardown => some (h, ⟨.zero, .out⟩)
  -- _gt_iocp_attach
  | .out, .attach => some (h, ⟨l.io, if l.io.ok then .compare else .ret false⟩)
  | .compare, .run =>
    if h.owner = 0 then some ({ h with owner := -1 }, ⟨l.io, .associate⟩)
    else some (h, ⟨l.io, .ret (decide (h.owner = l.io.id))⟩)
  | .associate, .tie ok =>
    if ok then some ({ h with log := .tied l.io.port :: h.log }, ⟨l.io, .exchange⟩)
    else some ({ h with log := .refused :: h.log }, ⟨l.io, .ret false⟩)
  | .exchange, .run => some ({ h with owner := l.io.id }, ⟨l.io, .ret true⟩)
  | .ret b, .run => some ({ h with log := .returned l.io.id l.io.port b :: h.log }, ⟨l.io, .out⟩)
  | _, _ => none

abbrev AttachSystem (Tid : Type) := Threads.State Tid AttachShared AttachLoc

abbrev AttachEvent (Tid : Type) := Threads.Event Tid AttachInput Empty

/-- A new description, and no runtime yet. -/
def AttachSystem.init (Tid : Type) : AttachSystem Tid := ⟨⟨0, [], 0, 0⟩, fun _ => ⟨.zero, .out⟩⟩

variable {Tid : Type} [DecidableEq Tid]

/-- One step of a thread. -/
def attachStep : AttachSystem Tid → AttachEvent Tid → Option (AttachSystem Tid) :=
  Threads.step attachAct fun e _ => nomatch e

/-! ### What the calls are to return -/

/-- What happens to a description may come after `before`, the last of it first. -/
def AttachEntry.After (before : List AttachEntry) : AttachEntry → Prop
  | .tied _ => .refused ∉ before ∧ ∀ port, .tied port ∉ before
  | .refused => .refused ∉ before ∧ ∀ port, .tied port ∉ before
  | .returned id port b =>
    (b = true → .tied port ∈ before) ∧ (.refused ∈ before → b = false) ∧
      ∀ id' port', .returned id' port' true ∈ before → (b = true ↔ id = id')

/-- Every entry may come after those before it. -/
def AttachedWell (log : List AttachEntry) : Prop := ∀ later e before, log = later ++ e :: before → e.After before

/-! ### The invariant -/

/-- No association has been asked for yet. -/
def Untied (log : List AttachEntry) : Prop := .refused ∉ log ∧ ∀ port, .tied port ∉ log

/-- What holds of each thread. -/
structure AttachLoc.Ok (h : AttachShared) (l : AttachLoc) : Prop where
  id : 0 ≤ l.io.id ∧ l.io.id ≤ h.ids
  ready : l.io.ok ↔ 0 < l.io.id
  inside : l.pc = .compare ∨ l.pc = .associate ∨ l.pc = .exchange ∨ l.pc = .ret true → 0 < l.io.id
  truth : l.pc = .ret true → h.owner = l.io.id
  falsity : l.pc = .ret false → 0 < l.io.id → h.owner ≠ l.io.id
  associate : l.pc = .associate → h.owner = -1 ∧ Untied h.log
  exchange : l.pc = .exchange → h.owner = -1 ∧ .refused ∉ h.log ∧ .tied l.io.port ∈ h.log
  owned : 0 < l.io.id → h.owner = l.io.id → .tied l.io.port ∈ h.log

/-- The thread has set `owner` to -1, and is not done with the association. -/
def AttachLoc.Tying (l : AttachLoc) : Prop := l.pc = .associate ∨ l.pc = .exchange

/-- What holds of what they share. -/
structure AttachShared.Ok (h : AttachShared) : Prop where
  bound : -1 ≤ h.owner ∧ h.owner ≤ h.ids
  last : h.ids ≤ long64Max
  free : h.owner = 0 → Untied h.log
  refused : .refused ∈ h.log → h.owner = -1
  returned : ∀ id port, .returned id port true ∈ h.log → 0 < id ∧ h.owner = id
  log : AttachedWell h.log

structure AttachInv (s : AttachSystem Tid) : Prop where
  loc : ∀ t, (s.loc t).Ok s.shared
  ids : ∀ t u, t ≠ u → 0 < (s.loc t).io.id → (s.loc t).io.id ≠ (s.loc u).io.id
  tying : ∀ t u, (s.loc t).Tying → (s.loc u).Tying → t = u
  shared : s.shared.Ok

variable {s s' : AttachSystem Tid} {t u : Tid} {h : AttachShared} {l : AttachLoc} {log : List AttachEntry}

private theorem attachedWell_nil : AttachedWell [] := by
  intro later e before h
  exact absurd h (by simp)

private theorem attachedWell_cons {e : AttachEntry} : AttachedWell (e :: log) ↔ e.After log ∧ AttachedWell log := by
  constructor
  · intro h
    refine ⟨h [] e log rfl, fun later e' before heq => h (e :: later) e' before (by rw [heq]; rfl)⟩
  · rintro ⟨he, hlog⟩ later e' before heq
    cases later with
    | nil =>
      obtain ⟨rfl, rfl⟩ := List.cons.inj heq
      exact he
    | cons e'' later =>
      obtain ⟨-, rfl⟩ := List.cons.inj heq
      exact hlog later e' before rfl

omit [DecidableEq Tid] in
private theorem AttachInv.init : AttachInv (AttachSystem.init Tid) where
  loc t := by
    have hnone : ¬(0 : Int) < 0 := lt_irrefl 0
    refine ⟨⟨le_rfl, le_rfl⟩, iff_of_false nofun hnone, ?_, nofun, nofun, nofun, nofun, fun h => absurd h hnone⟩
    rintro (h | h | h | h) <;> cases h
  ids t u _ hpos := absurd hpos (lt_irrefl 0)
  tying t u ht := by rcases ht with h | h <;> cases h
  shared := ⟨⟨show (-1 : Int) ≤ 0 by decide, le_rfl⟩, Nat.zero_le _, fun _ => ⟨nofun, nofun⟩, nofun, nofun,
    attachedWell_nil⟩

/-- A thread has moved on: its id is still its own, and if it is tying, no other is. -/
private theorem AttachInv.put (hi : AttachInv s) {h' : AttachShared} {l' : AttachLoc} (hshared : h'.Ok)
    (ht : l'.Ok h') (hu : ∀ u ≠ t, (s.loc u).Ok h') (hids : ∀ u ≠ t, 0 < l'.io.id → l'.io.id ≠ (s.loc u).io.id)
    (htying : l'.Tying → ∀ u ≠ t, ¬(s.loc u).Tying) : AttachInv (s.put t h' l') where
  loc := State.put_forall ht hu
  ids := by
    intro a b hab hpos
    by_cases ha : a = t
    · subst ha
      rw [State.put_self] at hpos ⊢
      rw [State.put_of_ne (Ne.symm hab)]
      exact hids b (Ne.symm hab) hpos
    · rw [State.put_of_ne ha] at hpos ⊢
      by_cases hb : b = t
      · subst hb
        rw [State.put_self]
        intro heq
        exact hids a ha (heq ▸ hpos) heq.symm
      · rw [State.put_of_ne hb]
        exact hi.ids a b hab hpos
  tying := by
    intro a b hta htb
    by_cases ha : a = t
    · by_cases hb : b = t
      · rw [ha, hb]
      · subst ha
        rw [State.put_self] at hta
        rw [State.put_of_ne hb] at htb
        exact absurd htb (htying hta b hb)
    · rw [State.put_of_ne ha] at hta
      by_cases hb : b = t
      · subst hb
        rw [State.put_self] at htb
        exact absurd hta (htying htb a ha)
      · rw [State.put_of_ne hb] at htb
        exact hi.tying a b hta htb
  shared := hshared

/-- A thread has moved on by itself, and is not tying. -/
private theorem AttachInv.quiet (hi : AttachInv s) {l' : AttachLoc} (ht : l'.Ok s.shared)
    (hio : l'.io = (s.loc t).io ∨ l'.io.id = 0) (htying : ¬l'.Tying) : AttachInv (s.put t s.shared l') := by
  refine hi.put hi.shared ht (fun u _ => hi.loc u) (fun u hne hpos => ?_) (fun h => absurd h htying)
  rcases hio with hio | hio
  · rw [hio] at hpos ⊢
    exact hi.ids t u (Ne.symm hne) hpos
  · omega

/-- A thread that is outside. -/
private theorem AttachLoc.ok_out {io : RuntimeIo} (hid : 0 ≤ io.id ∧ io.id ≤ h.ids) (hready : io.ok ↔ 0 < io.id)
    (howned : 0 < io.id → h.owner = io.id → .tied io.port ∈ h.log) : AttachLoc.Ok h ⟨io, .out⟩ := by
  refine ⟨hid, hready, ?_, nofun, nofun, nofun, nofun, howned⟩
  rintro (h | h | h | h) <;> cases h

private theorem AttachLoc.ok_zero (h : AttachShared) {pc : AttachPc} (hpc : pc = .out ∨ pc = .ret false)
    {port : Nat} : AttachLoc.Ok h ⟨⟨port, 0, false⟩, pc⟩ := by
  have hnone : ¬(0 : Int) < 0 := lt_irrefl 0
  refine ⟨⟨le_rfl, Int.natCast_nonneg _⟩, iff_of_false nofun hnone, ?_, ?_, fun _ h0 => absurd h0 hnone, ?_, ?_,
    fun h0 => absurd h0 hnone⟩
  all_goals rcases hpc with rfl | rfl <;> simp

/-- The first to find `owner` at 0 has it. -/
private theorem AttachInv.claim (hi : AttachInv s) (hpc : (s.loc t).pc = .compare) (hfree : s.shared.owner = 0) :
    AttachInv (s.put t { s.shared with owner := -1 } ⟨(s.loc t).io, .associate⟩) := by
  have hok := hi.loc t
  have hpos := hok.inside (Or.inl hpc)
  have huntied := hi.shared.free hfree
  have hnone : ∀ u, ¬(s.loc u).Tying := by
    rintro u (h | h)
    · have := ((hi.loc u).associate h).1
      omega
    · have := ((hi.loc u).exchange h).1
      omega
  refine hi.put ?_ ?_ (fun u _ => ?_) (fun u hne hpos => hi.ids t u (Ne.symm hne) hpos) (fun _ u _ => hnone u)
  · refine ⟨⟨le_rfl, by dsimp only; omega⟩, hi.shared.last, fun h => absurd h (by dsimp only; omega), fun _ => rfl,
      fun id port hret => ?_, hi.shared.log⟩
    have := hi.shared.returned id port hret
    omega
  · exact ⟨hok.id, hok.ready, fun _ => hpos, nofun, nofun, fun _ => ⟨rfl, huntied⟩, nofun, fun h heq => by
      dsimp only at h heq
      omega⟩
  · have hu := hi.loc u
    refine ⟨hu.id, hu.ready, hu.inside, fun h => ?_, fun _ h => by dsimp only; omega, fun h => ?_, fun h => ?_,
      fun h heq => by dsimp only at heq; omega⟩
    · have := hu.truth h
      have := hu.inside (Or.inr (Or.inr (Or.inr h)))
      omega
    · exact absurd (Or.inl h) (hnone u)
    · exact absurd (Or.inr h) (hnone u)

/-- Windows has tied the socket to a port, or has not. -/
private theorem AttachInv.tie (hi : AttachInv s) (hpc : (s.loc t).pc = .associate) (ok : Bool) :
    AttachInv (if ok then s.put t { s.shared with log := .tied (s.loc t).io.port :: s.shared.log } ⟨(s.loc t).io,
      .exchange⟩ else s.put t { s.shared with log := .refused :: s.shared.log } ⟨(s.loc t).io, .ret false⟩) := by
  have hok := hi.loc t
  obtain ⟨howner, huntied⟩ := hok.associate hpc
  have hpos := hok.inside (Or.inr (Or.inl hpc))
  have hnone : ∀ u ≠ t, ¬(s.loc u).Tying := fun u hne h => hne (hi.tying u t h (Or.inl hpc))
  have hidle : ∀ u ≠ t, ∀ e : AttachEntry, (s.loc u).Ok { s.shared with log := e :: s.shared.log } := by
    intro u hne e
    have hu := hi.loc u
    exact ⟨hu.id, hu.ready, hu.inside, hu.truth, hu.falsity, fun h => absurd (Or.inl h) (hnone u hne),
      fun h => absurd (Or.inr h) (hnone u hne), fun h heq => List.mem_cons_of_mem _ (hu.owned h heq)⟩
  cases ok with
  | true =>
    refine hi.put ?_ ?_ (fun u hne => hidle u hne _) (fun u hne hpos => hi.ids t u (Ne.symm hne) hpos)
      (fun _ => hnone)
    · refine ⟨hi.shared.bound, hi.shared.last, fun h => absurd h (by dsimp only; omega), fun _ => howner,
        fun id port hret => ?_, attachedWell_cons.2 ⟨huntied, hi.shared.log⟩⟩
      rcases List.mem_cons.1 hret with h | h
      · cases h
      · exact hi.shared.returned id port h
    · refine ⟨hok.id, hok.ready, fun _ => hpos, nofun, nofun, nofun,
        fun _ => ⟨howner, fun h => ?_, List.mem_cons_self⟩, fun _ _ => List.mem_cons_self⟩
      rcases List.mem_cons.1 h with h | h
      · cases h
      · exact huntied.1 h
  | false =>
    refine hi.put ?_ ?_ (fun u hne => hidle u hne _) (fun u hne hpos => hi.ids t u (Ne.symm hne) hpos) ?_
    · refine ⟨hi.shared.bound, hi.shared.last, fun h => absurd h (by dsimp only; omega), fun _ => howner,
        fun id port hret => ?_, attachedWell_cons.2 ⟨huntied, hi.shared.log⟩⟩
      rcases List.mem_cons.1 hret with h | h
      · cases h
      · exact hi.shared.returned id port h
    · exact ⟨hok.id, hok.ready, fun _ => hpos, nofun, fun _ h => by dsimp only; omega, nofun, nofun,
        fun h heq => by dsimp only at h heq; omega⟩
    · rintro (h | h) <;> cases h

/-- The owner is the runtime that tied the socket. -/
private theorem AttachInv.own (hi : AttachInv s) (hpc : (s.loc t).pc = .exchange) :
    AttachInv (s.put t { s.shared with owner := (s.loc t).io.id } ⟨(s.loc t).io, .ret true⟩) := by
  have hok := hi.loc t
  obtain ⟨howner, hrefused, htied⟩ := hok.exchange hpc
  have hpos := hok.inside (Or.inr (Or.inr (Or.inl hpc)))
  have hnone : ∀ u ≠ t, ¬(s.loc u).Tying := fun u hne h => hne (hi.tying u t h (Or.inr hpc))
  refine hi.put ?_ ?_ (fun u hne => ?_) (fun u hne hpos => hi.ids t u (Ne.symm hne) hpos) ?_
  · refine ⟨⟨by dsimp only; omega, hok.id.2⟩, hi.shared.last, fun h => absurd h (by dsimp only; omega),
      fun h => absurd h hrefused, fun id port hret => ?_, hi.shared.log⟩
    have := hi.shared.returned id port hret
    omega
  · exact ⟨hok.id, hok.ready, fun _ => hpos, fun _ => rfl, nofun, nofun, nofun, fun _ _ => htied⟩
  · have hu := hi.loc u
    refine ⟨hu.id, hu.ready, hu.inside, fun h => ?_, fun _ _ => hi.ids t u (Ne.symm hne) hpos,
      fun h => absurd (Or.inl h) (hnone u hne), fun h => absurd (Or.inr h) (hnone u hne),
      fun _ heq => absurd heq (hi.ids t u (Ne.symm hne) hpos)⟩
    have := hu.truth h
    have := hu.inside (Or.inr (Or.inr (Or.inr h)))
    omega
  · rintro (h | h) <;> cases h

/-- A call returns. -/
private theorem AttachInv.ret (hi : AttachInv s) {b : Bool} (hpc : (s.loc t).pc = .ret b) :
    AttachInv (s.put t { s.shared with log := .returned (s.loc t).io.id (s.loc t).io.port b :: s.shared.log }
      ⟨(s.loc t).io, .out⟩) := by
  have hok := hi.loc t
  have hmem : ∀ e : AttachEntry, (∀ id port b, e ≠ .returned id port b) →
      (e ∈ AttachEntry.returned (s.loc t).io.id (s.loc t).io.port b :: s.shared.log ↔ e ∈ s.shared.log) := by
    intro e he
    rw [List.mem_cons, or_iff_right (he _ _ _)]
  have hrefused := hmem .refused nofun
  have htied : ∀ port, _ := fun port => hmem (.tied port) nofun
  have huntied : Untied (AttachEntry.returned (s.loc t).io.id (s.loc t).io.port b :: s.shared.log) ↔
      Untied s.shared.log := by
    unfold Untied
    rw [hrefused]
    simp only [htied]
  refine hi.put ?_ ?_ (fun u _ => ?_) (fun u hne hpos => hi.ids t u (Ne.symm hne) hpos) ?_
  · refine ⟨hi.shared.bound, hi.shared.last, fun h => huntied.2 (hi.shared.free h),
      fun h => hi.shared.refused (hrefused.1 h), fun id port hret =>
      ?_, attachedWell_cons.2 ⟨⟨fun hb => ?_, fun h => ?_, fun id' port' hret => ?_⟩, hi.shared.log⟩⟩
    · rcases List.mem_cons.1 hret with h | h
      · obtain ⟨rfl, -, rfl⟩ := AttachEntry.returned.inj h
        exact ⟨hok.inside (Or.inr (Or.inr (Or.inr hpc))), hok.truth hpc⟩
      · exact hi.shared.returned id port h
    · subst hb
      exact hok.owned (hok.inside (Or.inr (Or.inr (Or.inr hpc)))) (hok.truth hpc)
    · cases b with
      | true =>
        have := hi.shared.refused h
        have := hok.truth hpc
        have := hok.inside (Or.inr (Or.inr (Or.inr hpc)))
        omega
      | false => rfl
    · obtain ⟨hpos, howner⟩ := hi.shared.returned id' port' hret
      cases b with
      | true =>
        rw [← howner, hok.truth hpc]
        exact iff_of_true rfl rfl
      | false =>
        refine iff_of_false Bool.false_ne_true fun heq => ?_
        rw [← heq] at hpos howner
        exact hok.falsity hpc hpos howner
  · exact AttachLoc.ok_out hok.id hok.ready fun hpos howner => List.mem_cons_of_mem _ (hok.owned hpos howner)
  · have hu := hi.loc u
    exact ⟨hu.id, hu.ready, hu.inside, hu.truth, hu.falsity,
      fun h => ⟨(hu.associate h).1, huntied.2 (hu.associate h).2⟩, fun h =>
      ⟨(hu.exchange h).1, fun hr => (hu.exchange h).2.1 (hrefused.1 hr),
        List.mem_cons_of_mem _ (hu.exchange h).2.2⟩,
      fun h heq => List.mem_cons_of_mem _ (hu.owned h heq)⟩
  · rintro (h | h) <;> cases h

/-- What the threads share has only had its counts go up. -/
private theorem AttachLoc.Ok.mono {ids ports : Nat} (hl : l.Ok h) (hle : h.ids ≤ ids) :
    l.Ok { h with ids := ids, ports := ports } :=
  ⟨⟨hl.id.1, hl.id.2.trans (Int.ofNat_le.2 hle)⟩, hl.ready, hl.inside, hl.truth, hl.falsity, hl.associate,
    hl.exchange, hl.owned⟩

private theorem AttachShared.Ok.mono {ids ports : Nat} (hh : h.Ok) (hle : h.ids ≤ ids) (hlast : ids ≤ long64Max) :
    AttachShared.Ok { h with ids := ids, ports := ports } :=
  ⟨⟨hh.bound.1, hh.bound.2.trans (Int.ofNat_le.2 hle)⟩, hlast, hh.free, hh.refused, hh.returned, hh.log⟩

private theorem AttachInv.step {e : AttachEvent Tid} (hi : AttachInv s) (hstep : attachStep s e = some s') :
    AttachInv s' := by
  cases e with
  | env e => exact nomatch e
  | thread t i =>
    obtain ⟨h', l', hact, rfl⟩ := Threads.step_thread.1 hstep
    have hok := hi.loc t
    unfold attachAct at hact
    split at hact
    · -- setting up
      split at hact
      · obtain ⟨rfl, rfl⟩ := Prod.mk.inj (Option.some_inj.1 hact)
        refine hi.put (hi.shared.mono le_rfl hi.shared.last) ?_ (fun u _ => (hi.loc u).mono le_rfl)
          (fun u _ h => absurd h (lt_irrefl 0)) ?_
        · refine ⟨⟨le_rfl, Int.natCast_nonneg _⟩, iff_of_false nofun (lt_irrefl 0), ?_, nofun, nofun, nofun, nofun,
            fun h => absurd h (lt_irrefl 0)⟩
          rintro (h | h | h | h) <;> cases h
        · rintro (h | h) <;> cases h
      · obtain ⟨rfl, rfl⟩ := Prod.mk.inj (Option.some_inj.1 hact)
        exact hi.quiet (AttachLoc.ok_zero _ (Or.inl rfl)) (Or.inr rfl) (by rintro (h | h) <;> cases h)
    · -- a new id
      split at hact
      · cases hact
      rename_i hlast
      obtain ⟨rfl, rfl⟩ := Prod.mk.inj (Option.some_inj.1 hact)
      have hnew : (0 : Int) < s.shared.ids + 1 := by omega
      refine hi.put (hi.shared.mono (Nat.le_succ _) (Nat.lt_of_le_of_ne hi.shared.last hlast)) ?_ (fun u _ =>
        (hi.loc u).mono (Nat.le_succ _)) (fun u _ _ => ?_) ?_
      · apply AttachLoc.ok_out
        · exact ⟨hnew.le, le_rfl⟩
        · exact iff_of_true rfl hnew
        · intro _ howner
          have := hi.shared.bound.2
          dsimp only at howner
          omega
      · have := (hi.loc u).id.2
        dsimp only
        omega
      · rintro (h | h) <;> cases h
    · -- tearing down
      obtain ⟨rfl, rfl⟩ := Prod.mk.inj (Option.some_inj.1 hact)
      exact hi.quiet (AttachLoc.ok_zero _ (Or.inl rfl)) (Or.inr rfl) (by rintro (h | h) <;> cases h)
    · -- a call
      rename_i hpc
      obtain ⟨rfl, rfl⟩ := Prod.mk.inj (Option.some_inj.1 hact)
      refine hi.quiet ?_ (Or.inl rfl) ?_
      · split
        · rename_i hready
          exact ⟨hok.id, hok.ready, fun _ => hok.ready.1 hready, nofun, nofun, nofun, nofun, hok.owned⟩
        · rename_i hready
          have hnone := mt hok.ready.2 hready
          refine ⟨hok.id, hok.ready, ?_, nofun, fun _ h => absurd h hnone, nofun, nofun, hok.owned⟩
          rintro (h | h | h | h) <;> cases h
      · split <;> rintro (h | h) <;> cases h
    · -- the exchange of `owner` where it is 0
      rename_i hpc
      split at hact
      · rename_i hfree
        obtain ⟨rfl, rfl⟩ := Prod.mk.inj (Option.some_inj.1 hact)
        exact hi.claim hpc hfree
      · obtain ⟨rfl, rfl⟩ := Prod.mk.inj (Option.some_inj.1 hact)
        refine hi.quiet ?_ (Or.inl rfl) (by rintro (h | h) <;> cases h)
        refine ⟨hok.id, hok.ready, fun _ => hok.inside (Or.inl hpc), fun h => ?_, fun h _ => ?_, nofun, nofun,
          hok.owned⟩
        · exact of_decide_eq_true (AttachPc.ret.inj h)
        · exact of_decide_eq_false (AttachPc.ret.inj h)
    · -- the association
      rename_i ok hpc
      have htie := hi.tie hpc ok
      split at hact
      · rename_i hyes
        obtain ⟨rfl, rfl⟩ := Prod.mk.inj (Option.some_inj.1 hact)
        rw [if_pos hyes] at htie
        exact htie
      · rename_i hno
        obtain ⟨rfl, rfl⟩ := Prod.mk.inj (Option.some_inj.1 hact)
        rw [if_neg hno] at htie
        exact htie
    · rename_i hpc
      obtain ⟨rfl, rfl⟩ := Prod.mk.inj (Option.some_inj.1 hact)
      exact hi.own hpc
    · rename_i b hpc
      obtain ⟨rfl, rfl⟩ := Prod.mk.inj (Option.some_inj.1 hact)
      exact hi.ret hpc
    · cases hact

/-- However the calls of any number of runtimes interleave, the socket is tied to one port at most, and a call returns
true to the runtime of that port once it is, from the first time for good, and to no other; after a failed
association, to none; and the ids stay within a `LONG64`. -/
theorem attach_ok (hs : Transition.Reach attachStep (AttachSystem.init Tid) s) :
    AttachedWell s.shared.log ∧ s.shared.ids ≤ long64Max := by
  have hi := (hs.invariant (fun _ _ _ hi hstep => AttachInv.step hi hstep) AttachInv.init).shared
  exact ⟨hi.log, hi.last⟩

/-- Two runtimes and one call of each, of which the first ties the socket. -/
theorem attach_ok_two : ∃ s : AttachSystem Nat,
    s.shared.log = [.returned 2 2 false, .returned 1 1 true, .tied 1] ∧ AttachedWell s.shared.log ∧
      s.shared.ids ≤ long64Max := by
  have hrun : ∃ s, Transition.run attachStep (AttachSystem.init Nat)
      [.thread 0 (.setup true), .thread 0 .run, .thread 1 (.setup true), .thread 1 .run, .thread 0 .attach,
        .thread 0 .run, .thread 1 .attach, .thread 0 (.tie true), .thread 1 .run, .thread 0 .run, .thread 0 .run,
        .thread 1 .run] = some s ∧
      s.shared.log = [.returned 2 2 false, .returned 1 1 true, .tied 1] := ⟨_, rfl, rfl⟩
  obtain ⟨s, hs, hlog⟩ := hrun
  exact ⟨s, hlog, attach_ok ⟨_, hs⟩⟩

end Sppc.Windows
