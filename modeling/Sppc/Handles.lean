import Sppc.Table
import Sppc.Blocking

/-!
# Handles

A handle packs a slot's index below a generation.  `gtResolve_eq_some` says what the packing is worth: an int resolves
exactly to the occupied slot whose handle it is.  What it says about a handle that was given out earlier depends on
how often the slot was retired since, as the generation has only 11 bits and skips 0.
-/

namespace Sppc

variable {Io : Type} {R : GtRuntime Io} {t : Nat}

/-! ### The packing -/

/-- A handle's bits. -/
def packed (gen idx : Nat) : Nat := gen * 2 ^ 20 + idx

private theorem packed_eq {gen idx : Nat} (hi : idx < 2 ^ 20) : gen <<< gtIdxBits ||| idx = packed gen idx := by
  rw [gtIdxBits, ← Nat.shiftLeft_add_eq_or_of_lt hi, Nat.shiftLeft_eq]
  rfl

theorem Table.gtHandle_eq (h : Table R) (ht : t < R.nslots) :
    gtHandle (R.slots t) = (packed (R.slots t).gen t : Nat) ∧ packed (R.slots t).gen t < 2 ^ 31 := by
  have hidx : t < 2 ^ 20 := by have := h.nslots_le'; omega
  have hgen : (R.slots t).gen ≤ 2047 := (h.gen t ht).2
  have hlt : packed (R.slots t).gen t < 2 ^ 31 := by unfold packed; omega
  refine ⟨?_, hlt⟩
  rw [gtHandle, h.idx t ht, packed_eq hidx, Nat.mod_eq_of_lt (by omega), asInt32, if_pos hlt]

/-- A positive int is the index and the generation `_gt_resolve` reads from it. -/
private theorem unpack {handle : Int} (hpos : 0 < handle) (hlt : handle < 2 ^ 31) :
    handle = (packed ((asUint32 handle >>> gtIdxBits) &&& gtGenMask) (asUint32 handle &&& gtIdxMask) : Nat) := by
  obtain ⟨n, rfl⟩ : ∃ n : Nat, handle = n := ⟨handle.toNat, by omega⟩
  have hn : asUint32 n = n := by
    unfold asUint32
    omega
  have hmask : n &&& gtIdxMask = n % 2 ^ 20 := Nat.and_two_pow_sub_one_eq_mod n 20
  have hgen : (n >>> gtIdxBits) &&& gtGenMask = n / 2 ^ 20 % 2 ^ 11 := by
    rw [gtIdxBits, Nat.shiftRight_eq_div_pow]
    exact Nat.and_two_pow_sub_one_eq_mod _ 11
  rw [hn, hmask, hgen, Int.ofNat_inj, packed]
  omega

private theorem packed_inj {gen gen' idx idx' : Nat} (hi : idx < 2 ^ 20) (hi' : idx' < 2 ^ 20)
    (h : packed gen idx = packed gen' idx') : gen = gen' ∧ idx = idx' := by
  unfold packed at h
  omega

/-- An int resolves exactly to the occupied slot whose handle it is. -/
theorem gtResolve_eq_some {handle : Int} (h : Table R) (hlt : handle < 2 ^ 31) :
    gtResolve R handle = some t ↔ t < R.nslots ∧ (R.slots t).state ≠ .free ∧ handle = gtHandle (R.slots t) := by
  have hle := h.nslots_le'
  constructor
  · intro hr
    unfold gtResolve at hr
    dsimp only at hr
    split at hr
    · cases hr
    · rename_i hbounds
      split at hr
      · cases hr
      · rename_i hslot
        cases hr
        simp only [not_or, not_not, not_le] at hbounds hslot
        obtain ⟨hpos, hidx⟩ := hbounds
        obtain ⟨hgen, hst⟩ := hslot
        refine ⟨hidx, hst, ?_⟩
        rw [(h.gtHandle_eq hidx).1, hgen]
        exact unpack (by omega) hlt
  · rintro ⟨ht, hst, heq⟩
    obtain ⟨hh, hbound⟩ := h.gtHandle_eq ht
    obtain ⟨hgen, -⟩ := h.gen t ht
    have hpos : 0 < handle := by rw [heq, hh]; unfold packed; omega
    have hunpack := unpack hpos hlt
    rw [heq, hh, Int.ofNat_inj] at hunpack
    have hmask : ∀ n : Nat, n &&& gtIdxMask < 2 ^ 20 := fun n => by
      rw [show n &&& gtIdxMask = n % 2 ^ 20 from Nat.and_two_pow_sub_one_eq_mod n 20]
      exact Nat.mod_lt _ (by decide)
    obtain ⟨hg, hi⟩ := packed_inj (by omega) (hmask _) hunpack
    rw [heq] at hpos
    unfold gtResolve
    dsimp only
    rw [heq, hh, ← hg, ← hi, if_neg (by rw [← hh]; omega), if_neg (by simp [hst])]

/-! ### The generation -/

private theorem nextGen_eq {g : Nat} (h : 1 ≤ g) (h' : g ≤ 2047) : nextGen g = (g - 1 + 1) % 2047 + 1 := by
  have hmask : g + 1 &&& gtGenMask = (g + 1) % 2 ^ 11 := Nat.and_two_pow_sub_one_eq_mod _ 11
  rw [nextGen, hmask]
  split <;> omega

/-- The generation after `k` retirements. -/
private theorem nextGen_iterate {g : Nat} (h : 1 ≤ g) (h' : g ≤ 2047) (k : Nat) :
    nextGen^[k] g = (g - 1 + k) % 2047 + 1 := by
  induction k with
  | zero =>
    rw [Function.iterate_zero_apply]
    omega
  | succ k ih =>
    rw [Function.iterate_succ_apply', ih, nextGen_eq (by omega) (by omega)]
    omega

/-- A generation comes back after 2047 retirements and not before. -/
private theorem nextGen_iterate_eq {g : Nat} (h : 1 ≤ g) (h' : g ≤ 2047) (k : Nat) :
    nextGen^[k] g = g ↔ k % 2047 = 0 := by
  rw [nextGen_iterate h h']
  omega

/-- The allocations of a spawn all succeed. -/
def spawnServed : SpawnAnswer := ⟨true, true, ⟨some 4096, true⟩, ⟨some 8192, true⟩⟩

/-- The stack of a spawn cannot be mapped. -/
def spawnStarved : SpawnAnswer := ⟨true, true, ⟨none, false⟩, ⟨none, false⟩⟩

/-! ### Handles of one state -/

/-- What the handles of a state are good for. -/
structure HandlesOk (R : GtRuntime Io) : Prop where
  positive : ∀ t < R.nslots, 0 < gtHandle (R.slots t)
  resolve : ∀ t < R.nslots, (R.slots t).state ≠ .free → gtResolve R (gtHandle (R.slots t)) = some t
  distinct : ∀ t < R.nslots, ∀ u < R.nslots, (R.slots t).state ≠ .free → (R.slots u).state ≠ .free →
    gtHandle (R.slots t) = gtHandle (R.slots u) → t = u
  idx : ∀ t < R.nslots, (R.slots t).idx = t ∧ t < 2 ^ 19
  gen : ∀ t < R.nslots, 1 ≤ (R.slots t).gen ∧ (R.slots t).gen ≤ 0x7FF
  other : ∀ handle : Int, -2 ^ 31 ≤ handle → handle < 2 ^ 31 →
    (∀ t < R.nslots, (R.slots t).state ≠ .free → handle ≠ gtHandle (R.slots t)) → gtResolve R handle = none

private theorem Table.handlesOk (h : Table R) : HandlesOk R := by
  have hlt : ∀ t < R.nslots, gtHandle (R.slots t) < 2 ^ 31 := fun t ht => by
    obtain ⟨heq, hb⟩ := h.gtHandle_eq ht
    rw [heq]
    exact_mod_cast hb
  have hresolve : ∀ t < R.nslots, (R.slots t).state ≠ .free → gtResolve R (gtHandle (R.slots t)) = some t :=
    fun t ht hst => (gtResolve_eq_some h (hlt t ht)).2 ⟨ht, hst, rfl⟩
  refine ⟨fun t ht => ?_, hresolve, fun t ht u hu hst hsu heq => ?_, fun t ht => ⟨h.idx t ht, ?_⟩, h.gen,
    fun handle _ hb hno => ?_⟩
  · rw [(h.gtHandle_eq ht).1]
    have := (h.gen t ht).1
    unfold packed
    omega
  · have htu := hresolve t ht hst
    rw [heq, hresolve u hu hsu] at htu
    cases htu
    rfl
  · exact ht.trans_le h.nslots_le'
  · cases hr : gtResolve R handle with
    | none => rfl
    | some t =>
      obtain ⟨ht, hst, heq⟩ := (gtResolve_eq_some h hb).1 hr
      exact absurd heq (hno t ht hst)

/-- In every state of a run each occupied slot has a handle of its own, and nothing else resolves. -/
theorem handles_ok [IoBackend Io] {s : Machine Io} (h : Reachable s) : HandlesOk s.rt := h.table.handlesOk

theorem handles_ok_three : ∃ s : Machine BlockingIo, Transition.run step (gtInit .unused 4096 false)
    [.async ⟨1, none⟩ spawnServed, .async ⟨2, none⟩ spawnStarved, .async ⟨3, none⟩ spawnServed] = some s ∧
    HandlesOk s.rt := by
  obtain ⟨s, hs⟩ : ∃ s : Machine BlockingIo, Transition.run step (gtInit .unused 4096 false)
    [.async ⟨1, none⟩ spawnServed, .async ⟨2, none⟩ spawnStarved, .async ⟨3, none⟩ spawnServed] = some s := ⟨_, rfl⟩
  exact ⟨s, hs, handles_ok ⟨.unused, 4096, false, trivial, _, hs⟩⟩

/-! ### Handles given out earlier -/

/-- A handle given out in `s` is refused in `s'`. -/
structure Refused [IoBackend Io] (s' : Machine Io) (handle : Int) : Prop where
  resolve : gtResolve s'.rt handle = none
  await : gtAwait s'.rt handle = toCode s'.rt einval
  detach : gtDetach s'.rt handle = toCode s'.rt einval

private theorem refused_iff [IoBackend Io] {s : Machine Io} {handle : Int} :
    Refused s handle ↔ gtResolve s.rt handle = none := by
  refine ⟨fun h => h.resolve, fun h => ⟨h, ?_, ?_⟩⟩
  · rw [gtAwait, h]
  · rw [gtDetach, h]

/-- What an earlier handle resolves to: only its own slot, occupied, after a multiple of 2047 retirements. -/
private theorem stale_resolve_iff [IoBackend Io] {s s' : Machine Io} {u : Nat} (h : Reachable s)
    (hs : Transition.Reach step s s') (ht : t < s.rt.nslots) {l : List Ev} (hl : s'.rt.log = l ++ s.rt.log) :
    gtResolve s'.rt (gtHandle (s.rt.slots t)) = some u ↔
      u = t ∧ (s'.rt.slots t).state ≠ .free ∧ l.count (.retire t) % 2047 = 0 := by
  have htab := h.table
  obtain ⟨htab', hmoved⟩ := run_keeps hs htab
  obtain ⟨heq, hb⟩ := htab.gtHandle_eq ht
  have ht' : t < s'.rt.nslots := ht.trans_le hmoved.nslots
  have hlt : gtHandle (s.rt.slots t) < 2 ^ 31 := by rw [heq]; exact_mod_cast hb
  have hgen : (s'.rt.slots t).gen = (s.rt.slots t).gen ↔ l.count (.retire t) % 2047 = 0 := by
    obtain ⟨l', hl', hmove⟩ := hmoved.log
    have hll : l' = l := List.append_cancel_right (hl'.symm.trans hl)
    rw [hmove t ht, hll]
    exact nextGen_iterate_eq (htab.gen t ht).1 (htab.gen t ht).2 _
  rw [gtResolve_eq_some htab' hlt, ← hgen]
  constructor
  · rintro ⟨hu, hst, hh⟩
    rw [heq, (htab'.gtHandle_eq hu).1, Int.ofNat_inj] at hh
    have hle := htab.nslots_le'
    have hle' := htab'.nslots_le'
    obtain ⟨hg, rfl⟩ := packed_inj (by omega) (by omega) hh
    exact ⟨rfl, hst, hg.symm⟩
  · rintro ⟨rfl, hst, hg⟩
    refine ⟨ht', hst, ?_⟩
    rw [heq, (htab'.gtHandle_eq ht').1, hg]

/-- The handle of a task that was retired since is refused exactly while its slot is free or the number of the slot's
retirements since is no multiple of 2047. -/
theorem stale_refused_iff [IoBackend Io] {s s' : Machine Io} (h : Reachable s) (hs : Transition.Reach step s s')
    (ht : t < s.rt.nslots) {l : List Ev} (hl : s'.rt.log = l ++ s.rt.log) (_ : .retire t ∈ l) :
    Refused s' (gtHandle (s.rt.slots t)) ↔ (s'.rt.slots t).state = .free ∨ l.count (.retire t) % 2047 ≠ 0 := by
  have hiff := fun u => stale_resolve_iff (u := u) h hs ht hl
  rw [refused_iff]
  constructor
  · intro hnone
    by_contra hno
    simp only [not_or, ne_eq, not_not] at hno
    rw [(hiff t).2 ⟨rfl, hno⟩] at hnone
    cases hnone
  · intro hor
    cases hr : gtResolve s'.rt (gtHandle (s.rt.slots t)) with
    | none => rfl
    | some u =>
      obtain ⟨-, hst, hc⟩ := (hiff u).1 hr
      rcases hor with hor | hor
      · exact absurd hor hst
      · exact absurd hc hor

theorem stale_refused_reused : ∃ s s' : Machine BlockingIo,
    Transition.run step (gtInit .unused 4096 false) [.async ⟨1, none⟩ spawnServed] = some s ∧
    Transition.run step s [.detach 1048577, .yield, .finish, .turn, .async ⟨2, none⟩ spawnServed] = some s' ∧
    (Refused s' (gtHandle (s.rt.slots 1)) ↔ (s'.rt.slots 1).state = .free ∨
      [Ev.spawned 1, .alloc 1, .retire 1, .returned 1, .started 1, .detached 1].count (.retire 1) % 2047 ≠ 0) := by
  obtain ⟨s, s', hs, hs', hn, hl⟩ : ∃ s s' : Machine BlockingIo,
      Transition.run step (gtInit .unused 4096 false) [.async ⟨1, none⟩ spawnServed] = some s ∧
      Transition.run step s [.detach 1048577, .yield, .finish, .turn, .async ⟨2, none⟩ spawnServed] = some s' ∧
      1 < s.rt.nslots ∧
      s'.rt.log = [.spawned 1, .alloc 1, .retire 1, .returned 1, .started 1, .detached 1] ++ s.rt.log :=
    ⟨_, _, rfl, rfl, by decide, rfl⟩
  have hmem : Ev.retire 1 ∈ [Ev.spawned 1, .alloc 1, .retire 1, .returned 1, .started 1, .detached 1] := by simp
  have hreach : Reachable s := ⟨.unused, 4096, false, trivial, _, hs⟩
  have hrun : Transition.Reach step s s' := ⟨_, hs'⟩
  have hiff := stale_refused_iff hreach hrun hn hl hmem
  exact ⟨s, s', hs, hs', hiff⟩

/-! ### A handle that comes back -/

/-- The slot `t` is the next one handed out, to a stack that must be mapped. -/
structure NextSlot (s : Machine Io) (t : Nat) : Prop where
  ctl : s.ctl = .code
  free : s.rt.freeSlots = some t
  cache : s.rt.stackCache = []
  unsafeStack : s.rt.unsafeStackWanted = false

/-- A spawn that fails uses up one generation. -/
private theorem NextSlot.starved [IoBackend Io] {s : Machine Io} (h : NextSlot s t) (n : Nat) :
    ∃ s' l, Transition.Reach step s s' ∧ NextSlot s' t ∧ s'.rt.log = l ++ s.rt.log ∧ l.count (.retire t) = n := by
  induction n with
  | zero => exact ⟨s, [], .refl s, h, rfl, rfl⟩
  | succ n ih =>
    obtain ⟨s', l, hr, ⟨hc, hf, hcache, hu⟩, hl, hcount⟩ := ih
    refine ⟨toCode (gtSlotFree (gtSlotReuse s'.rt t) t) enomem, .retire t :: .alloc t :: l,
      hr.tail (e := .async ⟨0, none⟩ spawnStarved) ?_, ⟨rfl, rfl, ?_, ?_⟩, ?_, ?_⟩
    · have hfresh : FreshEnv s'.rt ⟨0, none⟩ := fun e he => nomatch he
      have hsp : gtSpawn s'.rt ⟨0, none⟩ spawnStarved = (gtSlotFree (gtSlotReuse s'.rt t) t, .error enomem) := by
        have hstack : gtStackAlloc (gtSlotReuse s'.rt t) (gtSlotReuse s'.rt t).stackSize spawnStarved.stack =
            (none, gtSlotReuse s'.rt t) := by
          rw [gtStackAlloc, show (gtSlotReuse s'.rt t).stackCache = [] from hcache]
          dsimp only
          rw [gtStackMap]
          split <;> rfl
        rw [gtSpawn, gtSlotAlloc, hf]
        dsimp only
        rw [hstack]
      simp only [step, hc, hfresh, sppcAsync, giveClosure, hsp, sppcClosureDiscard, and_self, ↓reduceIte]
    · exact hcache
    · exact hu
    · show _ = _ ++ _
      rw [List.cons_append, List.cons_append, ← hl]
      rfl
    · rw [List.count_cons_self, List.count_cons_of_ne (by simp), hcount]

/-- A spawn that is served takes the slot. -/
private theorem NextSlot.served [IoBackend Io] {s : Machine Io} (h : NextSlot s t) :
    ∃ s' l, Transition.Reach step s s' ∧ (s'.rt.slots t).state = .ready ∧ s'.rt.log = l ++ s.rt.log ∧
      l.count (.retire t) = 0 := by
  obtain ⟨hc, hf, hcache, hu⟩ := h
  have hfresh : FreshEnv s.rt ⟨0, none⟩ := fun e he => nomatch he
  obtain ⟨p, new, hstack, hnew⟩ : ∃ p new, gtStackAlloc (gtSlotReuse s.rt t) (gtSlotReuse s.rt t).stackSize
      spawnServed.stack = (some p, { gtSlotReuse s.rt t with log := new ++ (gtSlotReuse s.rt t).log }) ∧
        new.count (.retire t) = 0 := by
    rw [gtStackAlloc, show (gtSlotReuse s.rt t).stackCache = [] from hcache]
    dsimp only
    rw [gtStackMap]
    split
    · exact ⟨_, [_, _], rfl, rfl⟩
    · exact ⟨_, [_], rfl, rfl⟩
  have hsp : gtSpawn s.rt ⟨0, none⟩ spawnServed =
      gtSpawnReady { gtSlotReuse s.rt t with log := new ++ (gtSlotReuse s.rt t).log } t ⟨0, none⟩
        (gtSlotReuse s.rt t).stackSize p none := by
    rw [gtSpawn, gtSlotAlloc, hf]
    dsimp only
    rw [hstack]
    dsimp only
    rw [if_neg (by rw [show (gtSlotReuse s.rt t).unsafeStackWanted = false from hu]; simp)]
  refine ⟨toCode (gtSpawn s.rt ⟨0, none⟩ spawnServed).1 0, .spawned t :: (new ++ [.alloc t]),
    (Transition.Reach.refl s).tail (e := .async ⟨0, none⟩ spawnServed) ?_, ?_, ?_, ?_⟩
  · rw [hsp]
    simp only [step, hc, hfresh, sppcAsync, giveClosure, hsp, gtSpawnReady, and_self, ↓reduceIte]
  · rw [hsp]
    simp [toCode, gtSpawnReady, gtRqPush_eq, GtRuntime.note]
  · rw [hsp]
    simp [toCode, gtSpawnReady, gtRqPush_eq, GtRuntime.note, GtRuntime.modify, gtSlotReuse]
  · simp [hnew]

/-- After 2047 retirements of its slot an old handle resolves to whatever task is in the slot then. -/
theorem stale_resolves : ¬∀ (s s' : Machine BlockingIo) (t : Nat) (l : List Ev), Reachable s →
    Transition.Reach step s s' → t < s.rt.nslots → s'.rt.log = l ++ s.rt.log → .retire t ∈ l →
    Refused s' (gtHandle (s.rt.slots t)) := by
  intro hall
  -- a task is spawned; it is detached, runs and ends
  obtain ⟨s, s₁, l₁, hs, hs₁, hn, hnext, hl₁, hc₁⟩ : ∃ (s s₁ : Machine BlockingIo) (l₁ : List Ev),
      Transition.run step (gtInit .unused 4096 false) [.async ⟨1, none⟩ spawnServed] = some s ∧
      Transition.run step s [.detach 1048577, .yield, .finish, .turn, .setGuardPages false] = some s₁ ∧
      1 < s.rt.nslots ∧ NextSlot s₁ 1 ∧ s₁.rt.log = l₁ ++ s.rt.log ∧ l₁.count (.retire 1) = 1 :=
    ⟨_, _, [.unmapped 4096 135168, .retire 1, .returned 1, .started 1, .detached 1], rfl, rfl, by decide,
      ⟨rfl, rfl, rfl, rfl⟩, rfl, rfl⟩
  obtain ⟨s₂, l₂, hs₂, hnext₂, hl₂, hc₂⟩ := hnext.starved 2046
  obtain ⟨s₃, l₃, hs₃, hst, hl₃, hc₃⟩ := hnext₂.served
  have hreach : Reachable s := ⟨.unused, 4096, false, trivial, _, hs⟩
  have hrun : Transition.Reach step s s₃ := (Transition.Reach.trans ⟨_, hs₁⟩ hs₂).trans hs₃
  have hlog : s₃.rt.log = (l₃ ++ (l₂ ++ l₁)) ++ s.rt.log := by
    rw [hl₃, hl₂, hl₁]
    simp only [List.append_assoc]
  have hcount : (l₃ ++ (l₂ ++ l₁)).count (.retire 1) = 2047 := by
    rw [List.count_append, List.count_append, hc₁, hc₂, hc₃]
  have hmem : Ev.retire 1 ∈ l₃ ++ (l₂ ++ l₁) := List.count_pos_iff.1 (by rw [hcount]; decide)
  have hnone := (hall s s₃ 1 _ hreach hrun hn hlog hmem).resolve
  rw [(stale_resolve_iff hreach hrun hn hlog).2 ⟨rfl, by rw [hst]; decide, by rw [hcount]⟩] at hnone
  cases hnone

end Sppc
