import Sppc.Windows.KeyCalls

/-!
# Exits and their destructors

An exit takes each value that it finds, and hands it to the key's destructor if the key was, when it was read under
the lock, in the incarnation that the value had been set under.
-/

namespace Sppc.Windows

open Threads Transition

variable {Tid Val Dtor : Type} [DecidableEq Tid]
  {h h' : KeyState Tid Val Dtor} {t : Tid} {w w' : KeyWalk Tid Val Dtor} {r : Option KeyRet} {p : WalkPos} {v : Val}

omit [DecidableEq Tid] in
private theorem EachOk.move (he : EachOk h t w) (hw : ∀ p v d x, w ≠ .hand p v d x) : EachOk h t w' := by
  intro x hx hxt hfound d hd
  rcases he x hx hxt hfound d hd with hy | ⟨p, v, rfl⟩
  · exact Or.inl hy
  · exact absurd rfl (hw p v d x)

omit [DecidableEq Tid] in
private theorem KeyKeeps.refl : KeyKeeps t h h where
  keys _ := ⟨rfl, rfl⟩
  made _ := le_rfl
  given _ _ _ := rfl
  created _ := id
  block _ _ := rfl
  last _ _ := rfl
  sets := le_rfl
  taken _ hx := hx
  takes _ hx := Or.inl hx
  handed _ hy := hy
  hands _ hy := Or.inl hy
  writer _ _ := Iff.rfl
  reader _ _ := Iff.rfl

omit [DecidableEq Tid] in
/-- An exit goes on with everything as it is. -/
private theorem KeyThreadOk.go (hok : KeyThreadOk h t ⟨w, .out r⟩) (hs : KeySharedOk h) (hw : w'.Ok h t)
    (hshared : w'.shared = w.shared) (hhand : ∀ p v d x, w ≠ .hand p v d x) :
    KeyThreadOk h t ⟨w', .out r⟩ ∧ KeySharedOk h ∧ KeyKeeps t h h := by
  refine ⟨⟨hok.call, hw, hok.slots, hok.kept, hok.each.move hhand, hok.writer, ?_⟩, hs, KeyKeeps.refl⟩
  rw [show KeyWalk.shared _ = _ from hshared]
  exact hok.reader

omit [DecidableEq Tid] in
/-- The next slot, when this one is empty. -/
private theorem VisitOk.next (hp : VisitOk h t p) (hnone : (h.block t p.key).value = none) :
    VisitOk h t { p with key := p.key + 1 } := by
  refine ⟨hp.round, fun k hk hne => ?_, fun hran k hk => ?_⟩
  · rcases Nat.lt_succ_iff_lt_or_eq.1 hk with hk | rfl
    · exact hp.passed k hk hne
    · exact absurd hnone hne
  · rcases Nat.lt_succ_iff_lt_or_eq.1 hk with hk | rfl
    · exact hp.ran hran k hk
    · exact hnone

omit [DecidableEq Tid] in
private theorem HandedOk.keep {y : KeyHanded Tid Val Dtor} (hy : HandedOk h y) (htaken : ∀ x ∈ h.taken, x ∈ h'.taken)
    (hgiven : h'.given = h.given) : HandedOk h' y :=
  ⟨htaken _ hy.taken, hy.found, by rw [hgiven]; exact hy.given, hy.value⟩

/-! ### The end of an exit -/

/-- The block is let go of, after a round that ran no destructor, or the last. -/
private theorem KeyThreadOk.finish (hok : KeyThreadOk h t ⟨.visit p, .out r⟩) (hs : KeySharedOk h)
    (hkey : ¬p.key < keysMax) (hlast : ¬(p.ran = true ∧ p.round + 1 < destructorIterations)) :
    KeyThreadOk { h with slots := Function.update h.slots t none } t ⟨.none, .out r⟩ ∧
      KeySharedOk { h with slots := Function.update h.slots t none } ∧
      KeyKeeps t h { h with slots := Function.update h.slots t none } := by
  have hvisit : VisitOk h t p := hok.walk
  have hblock : KeyState.block { h with slots := Function.update h.slots t none } t = fun _ => ⟨none, 0⟩ := by
    simp [KeyState.block]
  refine ⟨⟨trivial, trivial, fun k v hv => ?_, fun k r v hr hv => ?_, ?_, hok.writer, hok.reader⟩,
    ⟨fun k => (hs.keys k).congr rfl rfl rfl, hs.excl, hs.created, hs.takenMade, hs.takenId,
      fun y hy => (hs.handed y hy).keep (fun _ hx => hx) rfl, hs.once⟩,
    { KeyKeeps.refl with block := fun u hu => by simp [KeyState.block, hu] }⟩
  · rw [hblock] at hv
    cases hv
  · rcases hok.kept k r v hr hv with hslot | hx
    · -- What is left has been set by a destructor, in the last round.
      obtain ⟨r', hr'⟩ := hok.slots k v hslot
      have hk : k < p.key := hr'.key.trans_le (not_lt.1 hkey)
      have hran : p.ran = true := by
        by_contra hran
        rw [hvisit.ran (Bool.eq_false_iff.2 hran) k hk] at hslot
        cases hslot
      obtain ⟨r'', hr'', hround⟩ := hvisit.passed k hk (by simp [hslot])
      cases hr''.symm.trans hr
      have hle := hvisit.round
      have hnot : ¬p.round + 1 < destructorIterations := fun h => hlast ⟨hran, h⟩
      have heq : p.round = destructorIterations - 1 := by omega
      exact Or.inr (Or.inr (hround.trans (congrArg some heq)))
    · exact Or.inr hx
  · exact hok.each.move fun _ _ _ _ h => by cases h

/-! ### The lock -/

/-- An exit takes the lock. -/
private theorem KeyThreadOk.walk_lock (hok : KeyThreadOk h t ⟨.lock p v, .out r⟩) (hs : KeySharedOk h)
    (hwriter : h.writer = none) :
    KeyThreadOk { h with readers := insert t h.readers } t ⟨.readSeq p v, .out r⟩ ∧
      KeySharedOk { h with readers := insert t h.readers } ∧
      KeyKeeps t h { h with readers := insert t h.readers } := by
  have hw : VisitOk h t p ∧ (h.block t p.key).value = some v := hok.walk
  refine ⟨⟨trivial, ⟨hw.1.keep rfl rfl, hw.2⟩, fun k v hv => ?_, fun k => ?_, ?_, hok.writer, ?_⟩,
    ⟨fun k => (hs.keys k).congr rfl rfl rfl, fun h => absurd hwriter h, hs.created, hs.takenMade,
      hs.takenId, fun y hy => (hs.handed y hy).keep (fun _ hx => hx) rfl, hs.once⟩,
    { KeyKeeps.refl with reader := fun u hu => by simp [hu] }⟩
  · obtain ⟨r, hr⟩ := hok.slots k v hv
    exact ⟨r, { hr with }⟩
  · exact hok.kept k
  · exact hok.each.move fun _ _ _ _ h => by cases h
  · exact ⟨fun _ => rfl, fun _ => Finset.mem_insert_self _ _⟩

/-- It lets go of it. -/
private theorem KeyThreadOk.walk_unlock {seq : Nat} {d : Option Dtor} {found : Option Nat}
    (hok : KeyThreadOk h t ⟨.unlock p v seq d found, .out r⟩) (hs : KeySharedOk h) :
    KeyThreadOk { h with readers := h.readers.erase t } t ⟨.take p v seq d found, .out r⟩ ∧
      KeySharedOk { h with readers := h.readers.erase t } ∧ KeyKeeps t h { h with readers := h.readers.erase t } := by
  have hw : (VisitOk h t p ∧ (h.block t p.key).value = some v) ∧ SeenOk h p.key seq d found := hok.walk
  refine ⟨⟨trivial, ⟨⟨hw.1.1.keep rfl rfl, hw.1.2⟩, hw.2.keep le_rfl fun _ _ => rfl⟩, fun k v hv => ?_, fun k => ?_,
    ?_,
      hok.writer, ?_⟩,
    ⟨fun k => (hs.keys k).congr rfl rfl rfl, fun h => ?_, hs.created, hs.takenMade, hs.takenId,
      fun y hy => (hs.handed y hy).keep (fun _ hx => hx) rfl, hs.once⟩,
    { KeyKeeps.refl with reader := fun u hu => by simp [hu] }⟩
  · obtain ⟨r, hr⟩ := hok.slots k v hv
    exact ⟨r, { hr with }⟩
  · exact hok.kept k
  · exact hok.each.move fun _ _ _ _ h => by cases h
  · exact ⟨fun h => absurd h (Finset.notMem_erase _ _), nofun⟩
  · rw [hs.excl h]
    rfl

omit [DecidableEq Tid] in
/-- What it has read of the key under the lock. -/
private theorem SeenOk.read (hk : KeyOk h p.key) {seq : Nat} {found : Option Nat} (hseq : seq = (h.keys p.key).seq)
    (hfound : found = h.incarnation p.key) : SeenOk h p.key seq (h.keys p.key).destructor found := by
  unfold KeyState.incarnation at hfound
  refine ⟨fun n hn => ?_, fun hn => ?_⟩
  · split at hfound
    · rename_i huse
      cases hfound.symm.trans hn
      obtain ⟨h1, h2, h3⟩ := hk.used huse
      exact ⟨hseq.trans h1, h2, le_rfl, h3⟩
    · cases hfound.symm.trans hn
  · split at hfound
    · cases hfound.symm.trans hn
    · rename_i hnot
      unfold WinKey.InUse at hnot
      omega

/-! ### Taking and handing a value -/

omit [DecidableEq Tid] in
/-- The value is current if the sequence number read is the slot's. -/
private theorem SeenOk.current {seq : Nat} {d : Option Dtor} {found : Option Nat} {s : KeySet Val}
    (hseen : SeenOk h p.key seq d found) (hset : SetOk h t p.key v s) (hmade : h.made p.key ≤ 2 ^ 31) :
    (h.block t p.key).seq = seq ↔ found = some s.made := by
  rw [hset.seq]
  cases found with
  | none =>
    have hodd := seqOf_odd hset.pos
    have heven := hseen.free rfl
    refine ⟨fun heq => ?_, nofun⟩
    rw [heq] at hodd
    omega
  | some n =>
    obtain ⟨rfl, hpos, hle, -⟩ := hseen.used n rfl
    constructor
    · intro heq
      rw [seqOf_inj hset.pos hpos (hset.made.trans hmade) (hle.trans hmade) heq]
    · intro heq
      rw [Option.some.inj heq]

/-- The slot is emptied, and the value goes to the destructor that has been read, if it is current. -/
private theorem KeyThreadOk.take {seq : Nat} {d : Option Dtor} {found : Option Nat} {s : KeySet Val}
    (hok : KeyThreadOk h t ⟨.take p v seq d found, .out r⟩) (hs : KeySharedOk h) (hmade : h.made p.key ≤ 2 ^ 31)
    (hset : SetOk h t p.key v s)
    (hh : h' = { h.write t p.key { h.block t p.key with value := none } with
      taken := h.taken ++ [⟨t, p.key, s, found⟩] })
    (hw' : w' = match d with
      | some d => if (h.block t p.key).seq = seq then .hand p v d ⟨t, p.key, s, found⟩
        else .visit { p with key := p.key + 1 }
      | none => .visit { p with key := p.key + 1 }) :
    KeyThreadOk h' t ⟨w', .out r⟩ ∧ KeySharedOk h' ∧ KeyKeeps t h h' := by
  obtain ⟨⟨hvisit, -⟩, hseen⟩ : (VisitOk h t p ∧ (h.block t p.key).value = some v) ∧ SeenOk h p.key seq d found :=
    hok.walk
  have hcurrent := hseen.current hset hmade
  have hblock : h'.block t = Function.update (h.block t) p.key { h.block t p.key with value := none } := by
    rw [hh]
    exact KeyState.write_block_self p.key _
  have hblock' (u : Tid) (hu : u ≠ t) : h'.block u = h.block u := by
    rw [hh]
    exact KeyState.write_block_of_ne hu p.key _
  have htaken : h'.taken = h.taken ++ [⟨t, p.key, s, found⟩] := by
    rw [hh]
  have hsame : h'.keys = h.keys ∧ h'.made = h.made ∧ h'.given = h.given ∧ h'.handed = h.handed ∧ h'.last = h.last ∧
      h'.sets = h.sets ∧ h'.writer = h.writer ∧ h'.readers = h.readers ∧ h'.created = h.created ∧
      h'.deleted = h.deleted := by
    rw [hh]
    exact ⟨rfl, rfl, rfl, rfl, rfl, rfl, rfl, rfl, rfl, rfl⟩
  clear hh
  obtain ⟨hkeys', hmade', hgiven', hhanded', hlast', hsets', hwriter', hreaders', hcreated',
    hdeleted'⟩ := hsame
  have hempty : (h'.block t p.key).value = none := by
    rw [hblock, Function.update_self]
  have hvisit' : VisitOk h' t p := by
    refine ⟨hvisit.round, fun k hk hne => ?_, fun hran k hk => ?_⟩
    · rw [hblock, Function.update_of_ne hk.ne] at hne
      rw [hlast']
      exact hvisit.passed k hk hne
    · rw [hblock, Function.update_of_ne hk.ne]
      exact hvisit.ran hran k hk
  have hnext : VisitOk h' t { p with key := p.key + 1 } := hvisit'.next hempty
  -- The value is handed on exactly if it is current and there is a destructor.
  have hcases : (w' = .visit { p with key := p.key + 1 } ∧ ¬(found = some s.made ∧ d ≠ none)) ∨
      ∃ d', w' = .hand p v d' ⟨t, p.key, s, found⟩ ∧ found = some s.made ∧ d = some d' := by
    cases d with
    | none => exact Or.inl ⟨hw', fun h => h.2 rfl⟩
    | some d' =>
      by_cases heq : (h.block t p.key).seq = seq
      · exact Or.inr ⟨d', by rw [hw']; exact if_pos heq, hcurrent.1 heq, rfl⟩
      · exact Or.inl ⟨by rw [hw']; exact if_neg heq, fun h => heq (hcurrent.2 h.1)⟩
  refine ⟨⟨trivial, ?_, fun k x hx => ?_, fun k q x hq hx => ?_, ?_, ?_, ?_⟩, ⟨fun k => ?_, ?_, ?_, ?_, ?_, ?_, ?_⟩,
    { keys := fun _ => ⟨hkeys', hmade'⟩
      created := by simp [hcreated']
      made := by simp [hmade']
      given := by simp [hgiven']
      block := hblock'
      last := by simp [hlast']
      sets := hsets'.ge
      taken := by simp +contextual [htaken]
      takes := fun x hx => ?_
      handed := by simp [hhanded']
      hands := by simp +contextual [hhanded']
      writer := by simp [hwriter']
      reader := by simp [hreaders'] }⟩
  · rcases hcases with ⟨rfl, -⟩ | ⟨d', rfl, hfound, rfl⟩
    · exact hnext
    · obtain ⟨-, -, hle, hgiven⟩ := hseen.used _ hfound
      refine ⟨hvisit.round, hnext.passed, hempty, ?_, rfl, rfl, hset.value, hfound, ?_, ?_, fun y hy hyt hyk => ?_⟩
      · rw [htaken]
        exact List.mem_append_right _ (List.mem_singleton_self _)
      · rw [hmade']
        exact hle
      · rw [hgiven']
        exact hgiven.symm
      · rw [hhanded'] at hy
        exact hset.taken _ (hs.handed y hy).taken hyt hyk
  · rw [hblock] at hx
    have hk : k ≠ p.key := by
      rintro rfl
      rw [Function.update_self] at hx
      cases hx
    rw [Function.update_of_ne hk] at hx
    obtain ⟨q, hq⟩ := hok.slots k x hx
    refine ⟨q, by rw [hlast']; exact hq.last, hq.value, hq.key, ?_, hq.pos, by rw [hmade']; exact hq.made,
      by rw [hsets']; exact hq.id, fun y hy hyt hyk => ?_⟩
    · rw [hblock, Function.update_of_ne hk]
      exact hq.seq
    · rw [htaken, List.mem_append, List.mem_singleton] at hy
      rcases hy with hy | rfl
      · exact hq.taken y hy hyt hyk
      · exact absurd hyk.symm hk
  · rw [hlast'] at hq
    by_cases hk : k = p.key
    · subst hk
      cases hset.last.symm.trans hq
      exact Or.inr (Or.inl ⟨_, by rw [htaken]; exact List.mem_append_right _ (List.mem_singleton_self _), rfl, rfl,
        rfl⟩)
    · rw [hblock, Function.update_of_ne hk]
      rcases hok.kept k q x hq hx with h | ⟨y, hy, hy'⟩ | h
      · exact Or.inl h
      · exact Or.inr (Or.inl ⟨y, by rw [htaken]; exact List.mem_append_left _ hy, hy'⟩)
      · exact Or.inr (Or.inr h)
  · intro y hy hyt hfound d' hd
    rw [htaken, List.mem_append, List.mem_singleton] at hy
    rw [hgiven'] at hd
    rw [hhanded']
    rcases hy with hy | rfl
    · have heach : EachOk _ t w' := hok.each.move fun _ _ _ _ h => nomatch h
      exact heach y hy hyt hfound d' hd
    · obtain ⟨-, -, -, hgiven⟩ := hseen.used _ hfound
      have hd' : d = some d' := hgiven.trans hd
      rcases hcases with ⟨-, hnot⟩ | ⟨d'', hw, -, hd''⟩
      · exact absurd ⟨hfound, by simp [hd']⟩ hnot
      · cases hd''.symm.trans hd'
        exact Or.inr ⟨p, v, hw⟩
  · rw [hwriter']
    exact hok.writer
  · rw [hreaders']
    refine hok.reader.trans ?_
    rcases hcases with ⟨rfl, -⟩ | ⟨d', rfl, -⟩
    · exact Iff.rfl
    · exact Iff.rfl
  · exact (hs.keys k).congr (by rw [hkeys']) (by rw [hmade']) (by rw [hgiven'])
  · rw [hwriter', hreaders']
    exact hs.excl
  · rw [hkeys', hmade', hcreated', hdeleted']
    exact hs.created
  · intro y hy
    rw [htaken, List.mem_append, List.mem_singleton] at hy
    rw [hmade']
    rcases hy with hy | rfl
    · exact hs.takenMade y hy
    · exact hset.made
  · intro y hy
    rw [htaken, List.mem_append, List.mem_singleton] at hy
    rw [hsets']
    rcases hy with hy | rfl
    · exact hs.takenId y hy
    · exact hset.id
  · intro y hy
    rw [hhanded'] at hy
    exact (hs.handed y hy).keep (by simp +contextual [htaken]) hgiven'
  · rw [hhanded']
    exact hs.once
  · rw [htaken, List.mem_append, List.mem_singleton] at hx
    rcases hx with hx | rfl
    · exact Or.inl hx
    · exact Or.inr rfl

omit [DecidableEq Tid] in
/-- The destructor is called. -/
private theorem KeyThreadOk.hand {d : Dtor} {x : KeyTaken Tid Val} (hok : KeyThreadOk h t ⟨.hand p v d x, .out r⟩)
    (hs : KeySharedOk h) (hh : h' = { h with handed := h.handed ++ [⟨x, v, d, h.made p.key⟩] }) :
    KeyThreadOk h' t ⟨.calling p, .out r⟩ ∧ KeySharedOk h' ∧ KeyKeeps t h h' := by
  subst hh
  have hw : HandOk h t p v d x := hok.walk
  refine ⟨⟨trivial, ⟨hw.round, hw.passed⟩, fun k v hv => ?_, fun k => ?_, fun y hy hyt hfound d' hd => ?_, hok.writer,
      hok.reader⟩,
    ⟨fun k => (hs.keys k).congr rfl rfl rfl, hs.excl, hs.created, hs.takenMade, hs.takenId,
      fun y hy => ?_, ?_⟩,
    { KeyKeeps.refl with
      handed := fun y hy => List.mem_append_left _ hy
      hands := fun y hy => ?_ }⟩
  · obtain ⟨q, hq⟩ := hok.slots k v hv
    exact ⟨q, { hq with }⟩
  · exact hok.kept k
  · rcases hok.each y hy hyt hfound d' hd with ⟨z, hz, hzy⟩ | ⟨p', v', heq⟩
    · exact Or.inl ⟨z, List.mem_append_left _ hz, hzy⟩
    · cases heq
      exact Or.inl ⟨_, List.mem_append_right _ (List.mem_singleton_self _), rfl⟩
  · rcases List.mem_append.1 hy with hy | hy
    · exact (hs.handed y hy).keep (fun _ hx => hx) rfl
    · rw [List.mem_singleton] at hy
      subst hy
      exact ⟨hw.taken, hw.found, by rw [hw.key]; exact hw.given, hw.value⟩
  · rw [List.map_append, List.nodup_append]
    refine ⟨hs.once, List.nodup_singleton _, fun a ha b hb heq => ?_⟩
    obtain ⟨y, hy, rfl⟩ := List.mem_map.1 ha
    rw [List.map_singleton, List.mem_singleton] at hb
    rw [hb, Prod.mk.injEq, Prod.mk.injEq] at heq
    exact hw.handed y hy (heq.1.trans hw.thread) (heq.2.1.trans hw.key) heq.2.2
  · rcases List.mem_append.1 hy with hy | hy
    · exact Or.inl hy
    · rw [List.mem_singleton] at hy
      subst hy
      exact Or.inr hw.thread

/-- A step of an exit. -/
private theorem KeyThreadOk.walk_act {i : KeyInput Val Dtor} (hok : KeyThreadOk h t ⟨w, .out r⟩) (hs : KeySharedOk h)
    (hmade : ∀ k, h.made k ≤ 2 ^ 31) (hact : walkAct t i h w = some (h', w')) :
    KeyThreadOk h' t ⟨w', .out r⟩ ∧ KeySharedOk h' ∧ KeyKeeps t h h' := by
  have hwalk := hok.walk
  unfold walkAct at hact
  split at hact
  · split at hact <;> cases hact
    exact hok.go hs ⟨Nat.zero_lt_succ _, fun _ h => absurd h (Nat.not_lt_zero _),
      fun _ _ h => absurd h (Nat.not_lt_zero _)⟩ rfl fun _ _ _ _ h => nomatch h
  · have hvisit : VisitOk h t _ := hwalk
    split at hact
    · split at hact <;> cases hact
      · rename_i hnone
        exact hok.go hs (hvisit.next hnone) rfl fun _ _ _ _ h => nomatch h
      · rename_i hsome
        exact hok.go hs ⟨hvisit, hsome⟩ rfl fun _ _ _ _ h => nomatch h
    · split at hact <;> cases hact
      · rename_i hcond
        exact hok.go hs ⟨hcond.2, fun _ h => absurd h (Nat.not_lt_zero _),
          fun _ _ h => absurd h (Nat.not_lt_zero _)⟩ rfl fun _ _ _ _ h => nomatch h
      · rename_i hkey hlast
        exact hok.finish hs hkey hlast
  · split at hact <;> cases hact
    rename_i hwriter
    exact hok.walk_lock hs hwriter
  · cases hact
    exact hok.go hs ⟨hwalk, rfl, rfl⟩ rfl fun _ _ _ _ h => nomatch h
  · cases hact
    exact hok.go hs ⟨hwalk.1, SeenOk.read (hs.keys _) hwalk.2.1 hwalk.2.2⟩ rfl fun _ _ _ _ h => nomatch h
  · cases hact
    exact hok.walk_unlock hs
  · rename_i p v seq d found
    cases hact
    obtain ⟨s, hset⟩ := hok.slots _ _ hwalk.1.2
    have hlast := hset.last
    refine hok.take hs (hmade _) hset ?_ ?_
    · rw [hlast, Option.getD_some]
    · cases d with
      | none => rfl
      | some d => simp only [hlast, Option.getD_some]
  · cases hact
    exact hok.hand hs rfl
  · cases hact
    rename_i p
    have hcalling : p.round < destructorIterations ∧ Passed h t p (p.key + 1) := hwalk
    exact hok.go hs ⟨hcalling.1, hcalling.2, nofun⟩ rfl fun _ _ _ _ h => nomatch h
  · cases hact

/-- No key has been made again 2³¹ times. -/
def KeyState.Bounded (h : KeyState Tid Val Dtor) : Prop := ∀ k, h.made k ≤ 2 ^ 31

/-- A step of a thread. -/
private theorem KeyThreadOk.act {l l' : KeyLoc Tid Val Dtor} {i : KeyInput Val Dtor} (hok : KeyThreadOk h t l)
    (hs : KeySharedOk h) (hb : h.Bounded) (hact : keyAct t i h l = some (h', l')) :
    KeyThreadOk h' t l' ∧ KeySharedOk h' ∧ KeyKeeps t h h' := by
  obtain ⟨w, c⟩ := l
  unfold keyAct at hact
  split at hact
  · rename_i hcall
    split at hact <;> cases hact
    rename_i hown
    exact hok.call_act hs hown hcall
  · split at hact
    · rename_i hout
      obtain rfl := hout
      obtain ⟨⟨h'', w'⟩, hwalk, heq⟩ := Option.map_eq_some_iff.1 hact
      cases heq
      exact hok.walk_act hs hb hwalk
    · cases hact

/-! ### Every run -/

private theorem callAct_made {round : Option Nat} {i : KeyInput Val Dtor} {c c' : KeyCall Val Dtor}
    (hact : callAct t round i h c = some (h', c')) (k : Nat) : h.made k ≤ h'.made k := by
  unfold callAct at hact
  split at hact
  case h_4 =>
    rename_i d n
    cases hact
    by_cases hk : k = n
    · subst hk
      simp
    · simp [hk]
  all_goals
    repeat' split at hact
    all_goals
      cases hact
      try exact le_rfl

private theorem walkAct_made {i : KeyInput Val Dtor} (hact : walkAct t i h w = some (h', w')) : h'.made = h.made := by
  unfold walkAct at hact
  split at hact
  all_goals
    repeat' split at hact
    all_goals
      cases hact
      try rfl

private theorem walkAct_created {i : KeyInput Val Dtor} (hact : walkAct t i h w = some (h', w')) :
    h'.created = h.created := by
  unfold walkAct at hact
  split at hact
  all_goals
    repeat' split at hact
    all_goals
      cases hact
      try rfl

private theorem keyAct_made {l l' : KeyLoc Tid Val Dtor} {i : KeyInput Val Dtor}
    (hact : keyAct t i h l = some (h', l')) (k : Nat) : h.made k ≤ h'.made k := by
  unfold keyAct at hact
  split at hact
  · rename_i hcall
    split at hact <;> cases hact
    exact callAct_made hcall k
  · split at hact
    · obtain ⟨⟨h'', w'⟩, hwalk, heq⟩ := Option.map_eq_some_iff.1 hact
      cases heq
      exact (congrFun (walkAct_made hwalk) k).ge
    · cases hact

/-- Only a `key_create` adds to the keys that have been created, and one that was not in use. -/
private theorem KeyThreadOk.fresh {l l' : KeyLoc Tid Val Dtor} {i : KeyInput Val Dtor} (hok : KeyThreadOk h t l)
    (hact : keyAct t i h l = some (h', l')) {c : Nat × Nat} (hc : c ∈ h'.created) (hnew : c ∉ h.created) :
    ¬(h.keys c.1).InUse := by
  have hcall {round : Option Nat} {c₀ c₁ : KeyCall Val Dtor} (hcall : callAct t round i h c₀ = some (h', c₁))
      (hok : c₀.Ok h) : ¬(h.keys c.1).InUse := by
    unfold callAct at hcall
    split at hcall
    case h_4 =>
      cases hcall
      rw [List.mem_append, List.mem_singleton] at hc
      rw [hc.resolve_left hnew]
      exact hok.2.1
    all_goals
      repeat' split at hcall
      all_goals
        cases hcall
        try exact absurd hc hnew
  unfold keyAct at hact
  split at hact
  · rename_i hstep
    split at hact <;> cases hact
    exact hcall hstep hok.call
  · split at hact
    · obtain ⟨⟨h'', w'⟩, hwalk, heq⟩ := Option.map_eq_some_iff.1 hact
      cases heq
      rw [walkAct_created hwalk] at hc
      exact absurd hc hnew
    · cases hact

variable {s s' : KeySystem Tid Val Dtor}

structure KeyInv (s : KeySystem Tid Val Dtor) : Prop where
  threads : ∀ t, KeyThreadOk s.shared t (s.loc t)
  shared : KeySharedOk s.shared

private theorem KeyInv.step {e : KeyEvent Tid Val Dtor} (hi : KeyInv s) (hb : s.shared.Bounded)
    (hstep : keyStep s e = some s') : KeyInv s' := by
  cases e with
  | thread t i =>
    obtain ⟨h, l, hact, rfl⟩ := step_thread.1 hstep
    obtain ⟨ht, hs, hk⟩ := (hi.threads t).act hi.shared hb hact
    exact ⟨State.put_forall ht fun u hu => (hi.threads u).keep hu hk hi.shared, hs⟩
  | env e => exact e.elim

private theorem KeyState.Bounded.back {e : KeyEvent Tid Val Dtor} (hstep : keyStep s e = some s')
    (hb : s'.shared.Bounded) : s.shared.Bounded := by
  cases e with
  | thread t i =>
    obtain ⟨h, l, hact, rfl⟩ := step_thread.1 hstep
    exact fun k => (keyAct_made hact k).trans (hb k)
  | env e => exact e.elim

omit [DecidableEq Tid] in
private theorem KeyInv.init : KeyInv (KeySystem.init : KeySystem Tid Val Dtor) where
  threads _ := ⟨trivial, trivial, nofun, nofun, nofun, ⟨nofun, nofun⟩, ⟨nofun, nofun⟩⟩
  shared := ⟨fun _ => ⟨nofun, fun _ => rfl⟩, fun h => absurd rfl h, ⟨List.nodup_nil, nofun, nofun, nofun⟩, nofun,
    nofun, nofun, List.nodup_nil⟩

/-! ### What the calls come to -/

/-- The key `c.1` is in use in the incarnation that one `key_create` has made. -/
def KeyState.InUse (h : KeyState Tid Val Dtor) (c : Nat × Nat) : Prop := (h.keys c.1).InUse ∧ h.made c.1 = c.2

/-- A value is returned only if its thread has set it, last, under the key's incarnation.  A destructor is handed a
value only if it is that of the incarnation that the value was set under, and that incarnation was there when the key
was read under the lock; the slot has been emptied before, and no value is handed twice.  Every value that a thread
has set last under a key is still in the slot or has been taken by its exit, and handed on if it was found current and
there is a destructor, or it has been set in the last of four rounds.  A `key_create` gives a key that was not in use,
which is in use until it is deleted; and so two that have not been deleted are not the same. -/
structure KeysOk (s : KeySystem Tid Val Dtor) : Prop where
  get : ∀ t k v, s.shared.getspecific t k = some v →
    ∃ r, s.shared.last t k = some r ∧ r.value = some v ∧ s.shared.InUse (k, r.made)
  handed : ∀ y ∈ s.shared.handed, HandedOk s.shared y
  once : (s.shared.handed.map fun y => (y.taken.thread, y.taken.key, y.taken.set.id)).Nodup
  cleared : ∀ t p v d x, (s.loc t).walk = .hand p v d x → (s.shared.block t p.key).value = none
  kept : ∀ t k, KeptOk s.shared t k
  each : ∀ t, EachOk s.shared t (s.loc t).walk
  rounds : ∀ t p, (s.loc t).walk = .visit p ∨ (s.loc t).walk = .calling p → p.round < destructorIterations
  gives : ∀ t k, (s.loc t).call = .createUnlock (.key k) → (k, s.shared.made k) ∈ s.shared.created ∧
    (k, s.shared.made k) ∉ s.shared.deleted
  fresh : ∀ t i s', keyStep s (.thread t i) = some s' → ∀ c ∈ s'.shared.created, c ∉ s.shared.created →
    ¬(s.shared.keys c.1).InUse
  inUse : ∀ c ∈ s.shared.created, s.shared.InUse c ↔ c ∉ s.shared.deleted
  created : s.shared.created.Nodup
  distinct : ∀ c ∈ s.shared.created, ∀ c' ∈ s.shared.created, c ∉ s.shared.deleted → c' ∉ s.shared.deleted →
    c.1 = c'.1 → c = c'

private theorem KeyInv.ok (hi : KeyInv s) (hb : s.shared.Bounded) : KeysOk s where
  get t k v hv := by
    unfold KeyState.getspecific at hv
    split at hv
    · split at hv
      · rename_i heq
        obtain ⟨r, hr⟩ := (hi.threads t).slots k v hv
        have hodd : (s.shared.keys k).InUse := by
          unfold WinKey.InUse
          rw [← heq, hr.seq]
          exact seqOf_odd hr.pos
        obtain ⟨hseq, hpos, -⟩ := (hi.shared.keys k).used hodd
        refine ⟨r, hr.last, hr.value, hodd, seqOf_inj hpos hr.pos (hb k) (hr.made.trans (hb k)) ?_⟩
        rw [← hseq, ← heq, hr.seq]
      · cases hv
    · cases hv
  handed := hi.shared.handed
  once := hi.shared.once
  cleared t p v d x hw := by
    have hok := (hi.threads t).walk
    rw [hw] at hok
    exact hok.cleared
  kept t := (hi.threads t).kept
  each t := (hi.threads t).each
  rounds t p hw := by
    have hok := (hi.threads t).walk
    rcases hw with hw | hw
    · rw [hw] at hok
      exact hok.round
    · rw [hw] at hok
      exact hok.1
  gives t k hcall := by
    have hok := (hi.threads t).call
    rw [hcall] at hok
    exact ⟨hok.2, (hi.shared.created.inUse _ hok.2).1 ⟨hok.1, rfl⟩⟩
  fresh t i s' hstep c hc hnew := by
    obtain ⟨h', l', hact, rfl⟩ := step_thread.1 hstep
    exact (hi.threads t).fresh hact hc hnew
  inUse := hi.shared.created.inUse
  created := hi.shared.created.nodup
  distinct c hc c' hc' hdel hdel' heq := by
    refine Prod.ext heq ?_
    rw [← ((hi.shared.created.inUse c hc).2 hdel).2, ← ((hi.shared.created.inUse c' hc').2 hdel').2, heq]

/-- In every run in which no key is made again 2³¹ times. -/
theorem keys_ok (h : Reach keyStep KeySystem.init s) (hb : s.shared.Bounded) : KeysOk s :=
  (h.invariant_under (P := KeyInv) (Q := fun s => s.shared.Bounded) (fun _ _ _ hstep hb => hb.back hstep)
    (fun _ _ _ hi hb hstep => hi.step (hb.back hstep) hstep) KeyInv.init hb).ok hb

section runs

omit [DecidableEq Tid] in
private theorem KeyState.bounded_of_update {h : KeyState Tid Val Dtor} {k n : Nat} (hn : n ≤ 2 ^ 31)
    (hmade : h.made = Function.update (fun _ => 0) k n) : h.Bounded := by
  intro k'
  rw [hmade]
  by_cases hk : k' = k
  · subst hk
    rwa [Function.update_self]
  · rw [Function.update_of_ne hk]
    exact Nat.zero_le _

/-- `true` makes a key, `false` sets a value under it, and its exit hands it over. -/
theorem keys_ok_exit : ∃ s : KeySystem Bool Nat Nat, KeysOk s ∧ s.shared.handed.length = 1 := by
  have hrun : ∃ s : KeySystem Bool Nat Nat, Transition.run keyStep KeySystem.init
      [.thread true (.create (some 0)), .thread true .run, .thread true .run, .thread true .run, .thread true .run,
        .thread false (.setspecific 0 (some 7)), .thread false (.answer true), .thread false .exit,
        .thread false .run, .thread false .run, .thread false .run, .thread false .run, .thread false .run,
        .thread false .run, .thread false .run] = some s ∧
      s.shared.made = Function.update (fun _ => 0) 0 1 ∧ s.shared.handed.length = 1 :=
    ⟨_, rfl, rfl, rfl⟩
  obtain ⟨s, hs, hmade, hhanded⟩ := hrun
  exact ⟨s, keys_ok ⟨_, hs⟩ (KeyState.bounded_of_update (by decide) hmade), hhanded⟩

/-- `false` exits, and has read the key under the lock; `true` deletes the key and makes it again; then `false` hands
the value that was set under the first incarnation to the first destructor. -/
theorem keys_hand_earlier : ∃ s : KeySystem Bool Nat Nat, Reach keyStep KeySystem.init s ∧ s.shared.Bounded ∧
    s.shared.handed.map (fun y => (y.taken.set.made, y.made, y.destructor)) = [(1, 2, 0)] := by
  have hrun : ∃ s : KeySystem Bool Nat Nat, Transition.run keyStep KeySystem.init
      [.thread true (.create (some 0)), .thread true .run, .thread true .run, .thread true .run, .thread true .run,
        .thread false (.setspecific 0 (some 7)), .thread false (.answer true), .thread false .exit,
        .thread false .run, .thread false .run, .thread false .run, .thread false .run, .thread false .run,
        .thread false .run, .thread true (.delete 0), .thread true .run, .thread true .run, .thread true .run,
        .thread true .run, .thread true (.create (some 1)), .thread true .run, .thread true .run, .thread true .run,
        .thread true .run, .thread false .run] = some s ∧
      s.shared.made = Function.update (Function.update (fun _ => 0) 0 1) 0 2 ∧
      s.shared.handed.map (fun y => (y.taken.set.made, y.made, y.destructor)) = [(1, 2, 0)] :=
    ⟨_, rfl, rfl, rfl⟩
  obtain ⟨s, hs, hmade, hhanded⟩ := hrun
  rw [Function.update_idem] at hmade
  exact ⟨s, ⟨_, hs⟩, KeyState.bounded_of_update (by decide) hmade, hhanded⟩

end runs

end Sppc.Windows
