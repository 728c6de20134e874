import Sppc.Windows.KeySlots

/-!
# Calls on keys

A call changes the table of keys only while it has the lock, or a slot of its own thread.
-/

namespace Sppc.Windows

open Threads

variable {Tid Val Dtor : Type}
  {h h' : KeyState Tid Val Dtor} {t : Tid} {w : KeyWalk Tid Val Dtor} {c c' : KeyCall Val Dtor}

/-! ### The table -/

/-- A step that changes the table of keys, or who writes it, and nothing else. -/
structure TableStep (t : Tid) (h h' : KeyState Tid Val Dtor) : Prop where
  keys : h.writer ≠ some t → h'.keys = h.keys ∧ h'.made = h.made
  made : ∀ k, h.made k ≤ h'.made k
  given : ∀ k n, n ≤ h.made k → h'.given k n = h.given k n
  created : ∀ c ∈ h.created, c ∈ h'.created
  slots : h'.slots = h.slots
  last : h'.last = h.last
  sets : h'.sets = h.sets
  taken : h'.taken = h.taken
  handed : h'.handed = h.handed
  writer : ∀ u ≠ t, h'.writer = some u ↔ h.writer = some u
  readers : h'.readers = h.readers

theorem TableStep.block (hk : TableStep t h h') : h'.block = h.block := by
  funext u
  unfold KeyState.block
  rw [hk.slots]

private theorem TableStep.keeps (hk : TableStep t h h') : KeyKeeps t h h' where
  keys := hk.keys
  made := hk.made
  given := hk.given
  created := hk.created
  block u _ := by rw [hk.block]
  last u _ := by rw [hk.last]
  sets := hk.sets.ge
  taken x hx := by rwa [hk.taken]
  takes x hx := by
    rw [hk.taken] at hx
    exact Or.inl hx
  handed y hy := by rwa [hk.handed]
  hands y hy := by
    rw [hk.handed] at hy
    exact Or.inl hy
  writer := hk.writer
  reader u _ := by rw [hk.readers]

theorem TableStep.thread (hk : TableStep t h h') (hok : KeyThreadOk h t ⟨w, c⟩) (hs : KeySharedOk h) (hown : w.Own)
    (hc : c'.Ok h') (hwriter : h'.writer = some t ↔ c'.exclusive = true) : KeyThreadOk h' t ⟨w, c'⟩ where
  call := hc
  walk := by
    have hw := hok.walk
    cases w with
    | none => trivial
    | calling p => exact ⟨hw.1, hw.2.keep (by rw [hk.block]) (by rw [hk.last])⟩
    | _ => exact hown.elim
  slots k v hv := by
    rw [hk.block] at hv
    obtain ⟨r, hr⟩ := hok.slots k v hv
    refine ⟨r, ?_, hr.value, hr.key, ?_, hr.pos, hr.made.trans (hk.made k), ?_, ?_⟩
    · rw [hk.last]
      exact hr.last
    · rw [hk.block]
      exact hr.seq
    · rw [hk.sets]
      exact hr.id
    · rw [hk.taken]
      exact hr.taken
  kept k := by
    unfold KeptOk
    rw [hk.block, hk.last, hk.taken]
    exact hok.kept k
  each x hx hxt hfound d hd := by
    rw [hk.taken] at hx
    rw [hk.given _ _ (hs.takenMade x hx)] at hd
    rw [hk.handed]
    exact hok.each x hx hxt hfound d hd
  writer := hwriter
  reader := by
    rw [hk.readers]
    exact hok.reader

theorem TableStep.shared (hk : TableStep t h h') (hs : KeySharedOk h) (hkeys : ∀ k, KeyOk h' k)
    (hexcl : h'.writer ≠ none → h'.readers = ∅) (hcreated : CreatedOk h'.keys h'.made h'.created h'.deleted) :
    KeySharedOk h' where
  keys := hkeys
  excl := hexcl
  created := hcreated
  takenMade x hx := by
    rw [hk.taken] at hx
    exact (hs.takenMade x hx).trans (hk.made _)
  takenId x hx := by
    rw [hk.taken] at hx
    rw [hk.sets]
    exact hs.takenId x hx
  handed y hy := by
    rw [hk.handed] at hy
    have hyok := hs.handed y hy
    refine ⟨by rw [hk.taken]; exact hyok.taken, hyok.found, ?_, hyok.value⟩
    rw [hk.given _ _ (hs.takenMade _ hyok.taken)]
    exact hyok.given
  once := by
    rw [hk.handed]
    exact hs.once

/-- Every call but a set. -/
private theorem TableStep.all (hk : TableStep t h h') (hok : KeyThreadOk h t ⟨w, c⟩) (hs : KeySharedOk h)
    (hown : w.Own) (hc : c'.Ok h') (hwriter : h'.writer = some t ↔ c'.exclusive = true) (hkeys : ∀ k, KeyOk h' k)
    (hexcl : h'.writer ≠ none → h'.readers = ∅) (hcreated : CreatedOk h'.keys h'.made h'.created h'.deleted) :
    KeyThreadOk h' t ⟨w, c'⟩ ∧ KeySharedOk h' ∧ KeyKeeps t h h' :=
  ⟨hk.thread hok hs hown hc hwriter, hk.shared hs hkeys hexcl hcreated, hk.keeps⟩

/-- A call that goes on with the table as it is. -/
theorem KeyThreadOk.move (hok : KeyThreadOk h t ⟨w, c⟩) (hs : KeySharedOk h) (hown : w.Own) (hc : c'.Ok h)
    (hexclusive : c'.exclusive = c.exclusive) : KeyThreadOk h t ⟨w, c'⟩ ∧ KeySharedOk h ∧ KeyKeeps t h h :=
  TableStep.all ⟨fun _ => ⟨rfl, rfl⟩, fun _ => le_rfl, fun _ _ _ => rfl, fun _ => id, rfl, rfl, rfl, rfl, rfl,
    fun _ _ => Iff.rfl, rfl⟩ hok hs hown hc (by rw [hexclusive]; exact hok.writer) hs.keys hs.excl hs.created

/-! ### The table's entries -/

theorem KeyOk.congr {k : Nat} (hk : KeyOk h k) (hkey : h'.keys k = h.keys k) (hmade : h'.made k = h.made k)
    (hgiven : h'.given k = h.given k) : KeyOk h' k := by
  obtain ⟨hused, hfree⟩ := hk
  refine ⟨?_, ?_⟩ <;> rw [hkey, hmade]
  · rw [hgiven]
    exact hused
  · exact hfree

/-- A key that is not in use keeps its sequence number under any destructor. -/
theorem KeyOk.destructor {k : Nat} (hs : ∀ k, KeyOk h k) (hnot : ¬(h.keys k).InUse) (d : Option Dtor) (n : Nat) :
    KeyOk { h with keys := Function.update h.keys k { h.keys k with destructor := d } } n := by
  by_cases hn : n = k
  · subst hn
    refine ⟨?_, ?_⟩ <;> simp only [Function.update_self]
    · exact fun h => absurd h hnot
    · exact fun _ => (hs n).free hnot
  · exact (hs n).congr (Function.update_of_ne hn _ _) rfl rfl

/-- The next sequence number of a key that is not in use. -/
private theorem KeyOk.increment_seq {k : Nat} (hs : KeyOk h k) (hnot : ¬(h.keys k).InUse) :
    (h.keys k).increment.seq = seqOf (h.made k + 1) := by
  simp only [WinKey.increment, hs.free hnot, seqOf]
  omega

/-- A key is made. -/
private theorem KeyOk.make {k : Nat} {d : Option Dtor} (hs : ∀ k, KeyOk h k) (hnot : ¬(h.keys k).InUse)
    (hd : (h.keys k).destructor = d) (n : Nat) :
    KeyOk { h with
      keys := Function.update h.keys k (h.keys k).increment
      made := Function.update h.made k (h.made k + 1)
      given := Function.update h.given k (Function.update (h.given k) (h.made k + 1) d)
      created := h.created ++ [(k, h.made k + 1)] } n := by
  by_cases hn : n = k
  · subst hn
    have hseq := (hs n).increment_seq hnot
    refine ⟨?_, ?_⟩ <;> simp only [Function.update_self]
    · exact fun _ => ⟨hseq, Nat.succ_pos _, hd⟩
    · refine fun h => absurd ?_ h
      unfold WinKey.InUse
      rw [hseq]
      exact seqOf_odd (Nat.succ_pos _)
  · exact (hs n).congr (Function.update_of_ne hn _ _) (Function.update_of_ne hn _ _) (Function.update_of_ne hn _ _)

/-- A key is deleted. -/
theorem KeyOk.delete {k : Nat} (hs : ∀ k, KeyOk h k) (huse : (h.keys k).InUse) :
    ¬(h.keys k).increment.InUse ∧ ∀ n, KeyOk { h with keys := Function.update h.keys k (h.keys k).increment } n := by
  obtain ⟨hseq, hpos, -⟩ := (hs k).used huse
  have hnot : ¬(h.keys k).increment.InUse := by
    simp only [WinKey.InUse, WinKey.increment, hseq, seqOf]
    omega
  refine ⟨hnot, fun n => ?_⟩
  by_cases hn : n = k
  · subst hn
    refine ⟨?_, ?_⟩ <;> simp only [Function.update_self]
    · exact fun h => absurd h hnot
    · intro _
      simp only [WinKey.increment, hseq, seqOf]
      omega
  · exact (hs n).congr (Function.update_of_ne hn _ _) rfl rfl

/-- A destructor is stored or cleared. -/
theorem CreatedOk.destructor (hs : CreatedOk h.keys h.made h.created h.deleted) (k : Nat) (d : Option Dtor) :
    CreatedOk (Function.update h.keys k { h.keys k with destructor := d }) h.made h.created h.deleted where
  nodup := hs.nodup
  le := hs.le
  deletedLe := hs.deletedLe
  inUse c hc := by
    have hsame : (Function.update h.keys k { h.keys k with destructor := d } c.1).InUse ↔ (h.keys c.1).InUse := by
      by_cases hk : c.1 = k
      · rw [hk, Function.update_self]
        exact Iff.rfl
      · rw [Function.update_of_ne hk]
    rw [hsame]
    exact hs.inUse c hc

/-- A key that is not in use is made: those made before under its number have been deleted. -/
private theorem CreatedOk.make {k : Nat} (hs : CreatedOk h.keys h.made h.created h.deleted)
    (huse : (h.keys k).increment.InUse) (hnot : ¬(h.keys k).InUse) :
    CreatedOk (Function.update h.keys k (h.keys k).increment) (Function.update h.made k (h.made k + 1))
      (h.created ++ [(k, h.made k + 1)]) h.deleted := by
  have hle (n : Nat) : h.made n ≤ Function.update h.made k (h.made k + 1) n := by
    by_cases hn : n = k
    · subst hn
      simp
    · simp [hn]
  refine ⟨?_, fun c hc => ?_, fun c hc => (hs.deletedLe c hc).trans (hle _), fun c hc => ?_⟩
  · refine List.nodup_append.2 ⟨hs.nodup, List.nodup_singleton _, fun c hc c' hc' heq => ?_⟩
    rw [List.mem_singleton] at hc'
    have hcle := hs.le c hc
    rw [heq, hc'] at hcle
    exact absurd hcle (Nat.not_succ_le_self _)
  · rw [List.mem_append, List.mem_singleton] at hc
    rcases hc with hc | rfl
    · exact (hs.le c hc).trans (hle _)
    · simp
  · rw [List.mem_append, List.mem_singleton] at hc
    rcases hc with hc | rfl
    · by_cases hk : c.1 = k
      · have hgone : c ∈ h.deleted := by
          by_contra hmem
          have hold := ((hs.inUse c hc).2 hmem).1
          rw [hk] at hold
          exact hnot hold
        have hcle := hs.le c hc
        rw [hk] at hcle ⊢
        rw [Function.update_self, Function.update_self]
        exact iff_of_false (fun h => by omega) (not_not.2 hgone)
      · rw [Function.update_of_ne hk, Function.update_of_ne hk]
        exact hs.inUse c hc
    · rw [Function.update_self, Function.update_self]
      refine iff_of_true ⟨huse, rfl⟩ fun hmem => ?_
      exact Nat.not_succ_le_self _ (hs.deletedLe _ hmem)

/-- A key in use is deleted. -/
theorem CreatedOk.delete {k : Nat} (hs : CreatedOk h.keys h.made h.created h.deleted)
    (hnot : ¬(h.keys k).increment.InUse) :
    CreatedOk (Function.update h.keys k (h.keys k).increment) h.made h.created (h.deleted ++ [(k, h.made k)]) := by
  refine ⟨hs.nodup, hs.le, fun c hc => ?_, fun c hc => ?_⟩
  · rw [List.mem_append, List.mem_singleton] at hc
    rcases hc with hc | rfl
    · exact hs.deletedLe c hc
    · exact le_rfl
  · rw [List.mem_append, List.mem_singleton, not_or]
    by_cases hk : c.1 = k
    · rw [hk, Function.update_self]
      refine iff_of_false (fun h => hnot h.1) fun ⟨hmem, hne⟩ => ?_
      obtain ⟨-, hmade⟩ := (hs.inUse c hc).2 hmem
      rw [hk] at hmade
      exact hne (Prod.ext hk hmade.symm)
    · rw [Function.update_of_ne hk, hs.inUse c hc]
      refine (and_iff_left ?_).symm
      rintro rfl
      exact hk rfl

/-! ### Calls -/

/-- A call takes the lock. -/
theorem KeyThreadOk.lock (hok : KeyThreadOk h t ⟨w, c⟩) (hs : KeySharedOk h) (hown : w.Own)
    (hwriter : h.writer = none) (hreaders : h.readers = ∅) (hc : c'.Ok h) (hexclusive : c'.exclusive = true) :
    KeyThreadOk { h with writer := some t } t ⟨w, c'⟩ ∧ KeySharedOk { h with writer := some t } ∧
      KeyKeeps t h { h with writer := some t } := by
  refine TableStep.all ⟨fun _ => ⟨rfl, rfl⟩, fun _ => le_rfl, fun _ _ _ => rfl, fun _ => id, rfl, rfl, rfl, rfl,
    rfl, fun u hu => ?_, rfl⟩ hok hs hown ?_ ⟨fun _ => hexclusive, fun _ => rfl⟩ (fun k =>
    (hs.keys k).congr rfl rfl rfl) (fun _ => hreaders) hs.created
  · simp [hwriter, Ne.symm hu]
  · cases c' <;> exact hc

/-- A call lets go of the lock, and returns. -/
theorem KeyThreadOk.unlock (hok : KeyThreadOk h t ⟨w, c⟩) (hs : KeySharedOk h) (hown : w.Own)
    (hexclusive : c.exclusive = true) (r : Option KeyRet) :
    KeyThreadOk { h with writer := none } t ⟨w, .out r⟩ ∧ KeySharedOk { h with writer := none } ∧
      KeyKeeps t h { h with writer := none } := by
  refine TableStep.all ⟨fun _ => ⟨rfl, rfl⟩, fun _ => le_rfl, fun _ _ _ => rfl, fun _ => id, rfl, rfl, rfl, rfl,
    rfl, fun u hu => ?_, rfl⟩ hok hs hown trivial ⟨nofun, nofun⟩ (fun k => (hs.keys k).congr rfl rfl rfl) (fun h =>
    absurd rfl h) hs.created
  have ht := hok.writer.2 hexclusive
  simp [ht, Ne.symm hu]

/-- A call that has the lock changes the table, without making a key. -/
private theorem KeyThreadOk.change (hok : KeyThreadOk h t ⟨w, c⟩) (hs : KeySharedOk h) (hown : w.Own)
    (hexclusive : c.exclusive = true) {keys : Nat → WinKey Dtor} {deleted : List (Nat × Nat)}
    (hkeys : ∀ k, KeyOk { h with keys := keys, deleted := deleted } k)
    (hcreated : CreatedOk keys h.made h.created deleted) (hc : c'.Ok { h with keys := keys, deleted := deleted })
    (hexclusive' : c'.exclusive = true) :
    KeyThreadOk { h with keys := keys, deleted := deleted } t ⟨w, c'⟩ ∧
      KeySharedOk { h with keys := keys, deleted := deleted } ∧
      KeyKeeps t h { h with keys := keys, deleted := deleted } := by
  have ht := hok.writer.2 hexclusive
  exact TableStep.all ⟨fun h => absurd ht h, fun _ => le_rfl, fun _ _ _ => rfl, fun _ => id, rfl, rfl, rfl, rfl, rfl,
    fun _ _ => Iff.rfl, rfl⟩ hok hs hown hc ⟨fun _ => hexclusive', fun _ => ht⟩ hkeys hs.excl hcreated

variable [DecidableEq Tid]

/-- A key is made. -/
private theorem KeyThreadOk.make {d : Option Dtor} {k : Nat} (hok : KeyThreadOk h t ⟨w, .make d k⟩)
    (hs : KeySharedOk h) (hown : w.Own) (hact : callAct t w.round .run h (.make d k) = some (h', c')) :
    KeyThreadOk h' t ⟨w, c'⟩ ∧ KeySharedOk h' ∧ KeyKeeps t h h' := by
  cases hact
  have ht := hok.writer.2 rfl
  obtain ⟨-, hnot, hd⟩ := hok.call
  have hle (n : Nat) : h.made n ≤ Function.update h.made k (h.made k + 1) n := by
    by_cases hn : n = k
    · subst hn
      simp
    · simp [hn]
  have huse : (h.keys k).increment.InUse := by
    rw [WinKey.InUse, (hs.keys k).increment_seq hnot]
    exact seqOf_odd (Nat.succ_pos _)
  refine TableStep.all ⟨fun h => absurd ht h, hle, fun n m hm => ?_, fun c hc => List.mem_append_left _ hc, rfl,
    rfl, rfl, rfl, rfl, fun _ _ => Iff.rfl, rfl⟩ hok hs hown ⟨?_, ?_⟩ ⟨fun _ => rfl, fun _ =>
    ht⟩ (KeyOk.make hs.keys hnot hd) hs.excl (hs.created.make huse hnot)
  · by_cases hn : n = k
    · subst hn
      have hne : m ≠ h.made n + 1 := by omega
      simp [hne]
    · simp [hn]
  · dsimp only
    rw [Function.update_self]
    exact huse
  · dsimp only
    rw [Function.update_self]
    exact List.mem_append_right _ (List.mem_singleton_self _)

@[simp] theorem KeyState.write_block_self (k : Nat) (slot : WinSlot Val) :
    (h.write t k slot).block t = Function.update (h.block t) k slot := by
  simp [KeyState.block, KeyState.write]

@[simp] theorem KeyState.write_block_of_ne {u : Tid} (hu : u ≠ t) (k : Nat) (slot : WinSlot Val) :
    (h.write t k slot).block u = h.block u := by
  simp [KeyState.block, KeyState.write, hu]

/-- A value is set. -/
private theorem KeyThreadOk.store {k seq made : Nat} {v : Option Val} (hok : KeyThreadOk h t ⟨w, .store k v seq made⟩)
    (hs : KeySharedOk h) (hown : w.Own)
    (hh : h' = { h.write t k ⟨v, seq⟩ with
      sets := h.sets + 1
      last := Function.update h.last t (Function.update (h.last t) k (some ⟨v, made, h.sets, w.round⟩)) }) :
    KeyThreadOk h' t ⟨w, .out (some .zero)⟩ ∧ KeySharedOk h' ∧ KeyKeeps t h h' := by
  obtain ⟨hkey, hseq, hpos, hmade⟩ := hok.call
  have hblock : h'.block t = Function.update (h.block t) k ⟨v, seq⟩ := by
    rw [hh]
    exact KeyState.write_block_self k _
  have hlast : h'.last t = Function.update (h.last t) k (some ⟨v, made, h.sets, w.round⟩) := by
    rw [hh]
    exact Function.update_self ..
  have hblock' (u : Tid) (hu : u ≠ t) : h'.block u = h.block u := by
    rw [hh]
    exact KeyState.write_block_of_ne hu k _
  have hlast' (u : Tid) (hu : u ≠ t) : h'.last u = h.last u := by
    rw [hh]
    exact Function.update_of_ne hu ..
  have hsets : h'.sets = h.sets + 1 := by
    rw [hh]
  have hsame : h'.taken = h.taken ∧ h'.made = h.made ∧ h'.given = h.given ∧ h'.handed = h.handed ∧ h'.keys = h.keys ∧
      h'.writer = h.writer ∧ h'.readers = h.readers ∧ h'.created = h.created ∧ h'.deleted = h.deleted := by
    rw [hh]
    exact ⟨rfl, rfl, rfl, rfl, rfl, rfl, rfl, rfl, rfl⟩
  clear hh
  obtain ⟨htaken', hmade', hgiven', hhanded', hkeys', hwriter', hreaders', hcreated', hdeleted'⟩ := hsame
  refine ⟨⟨trivial, ?_, fun n x hx => ?_, fun n r x hr hx => ?_, ?_, ?_, ?_⟩, ⟨fun n => ?_, ?_, ?_, ?_, ?_, ?_, ?_⟩,
    ⟨fun _ => ⟨hkeys', hmade'⟩, ?_, ?_, ?_, hblock', hlast', ?_, ?_, ?_, ?_, ?_, ?_, ?_⟩⟩
  · have hw := hok.walk
    cases w with
    | none => trivial
    | calling p =>
      refine ⟨hw.1, fun n hn hne => ?_⟩
      rw [hblock] at hne
      rw [hlast]
      by_cases hnk : n = k
      · subst hnk
        exact ⟨_, Function.update_self .., rfl⟩
      · rw [Function.update_of_ne hnk] at hne ⊢
        exact hw.2 n hn hne
    | _ => exact hown.elim
  · rw [hblock] at hx
    by_cases hnk : n = k
    · subst hnk
      rw [Function.update_self] at hx
      refine ⟨_, by rw [hlast]; exact Function.update_self .., hx, hkey, ?_, hpos, by rw [hmade']; exact hmade, ?_,
        fun y hy _ _ => ?_⟩
      · rw [hblock, Function.update_self]
        exact hseq
      · rw [hsets]
        exact Nat.lt_succ_self _
      · rw [htaken'] at hy
        exact (hs.takenId y hy).ne
    · rw [Function.update_of_ne hnk] at hx
      obtain ⟨r, hr⟩ := hok.slots n x hx
      refine ⟨r, ?_, hr.value, hr.key, ?_, hr.pos, by rw [hmade']; exact hr.made, ?_, ?_⟩
      · rw [hlast, Function.update_of_ne hnk]
        exact hr.last
      · rw [hblock, Function.update_of_ne hnk]
        exact hr.seq
      · rw [hsets]
        exact hr.id.trans (Nat.lt_succ_self _)
      · rw [htaken']
        exact hr.taken
  · rw [hlast] at hr
    rw [hblock, htaken']
    by_cases hnk : n = k
    · subst hnk
      rw [Function.update_self] at hr ⊢
      cases hr
      exact Or.inl hx
    · rw [Function.update_of_ne hnk] at hr ⊢
      exact hok.kept n r x hr hx
  · unfold EachOk
    rw [htaken', hgiven', hhanded']
    exact hok.each
  · rw [hwriter']
    exact hok.writer
  · rw [hreaders']
    exact hok.reader
  · exact (hs.keys n).congr (by rw [hkeys']) (by rw [hmade']) (by rw [hgiven'])
  · rw [hwriter', hreaders']
    exact hs.excl
  · rw [hkeys', hmade', hcreated', hdeleted']
    exact hs.created
  · rw [htaken', hmade']
    exact hs.takenMade
  · intro x hx
    rw [htaken'] at hx
    rw [hsets]
    exact (hs.takenId x hx).trans (Nat.lt_succ_self _)
  · intro y hy
    rw [hhanded'] at hy
    have hyok := hs.handed y hy
    exact ⟨by rw [htaken']; exact hyok.taken, hyok.found, by rw [hgiven']; exact hyok.given, hyok.value⟩
  · rw [hhanded']
    exact hs.once
  · simp [hmade']
  · simp [hgiven']
  · simp [hcreated']
  · simp [hsets]
  · simp [htaken']
  · simp +contextual [htaken']
  · simp [hhanded']
  · simp +contextual [hhanded']
  · simp [hwriter']
  · simp [hreaders']

/-- A step of a call. -/
theorem KeyThreadOk.call_act {i : KeyInput Val Dtor} (hok : KeyThreadOk h t ⟨w, c⟩) (hs : KeySharedOk h)
    (hown : w.Own) (hact : callAct t w.round i h c = some (h', c')) :
    KeyThreadOk h' t ⟨w, c'⟩ ∧ KeySharedOk h' ∧ KeyKeeps t h h' := by
  unfold callAct at hact
  split at hact
  · cases hact
    exact hok.move hs hown trivial rfl
  · split at hact <;> cases hact
    rename_i hcond
    exact hok.lock hs hown hcond.1 hcond.2 trivial rfl
  · split at hact
    · split at hact <;> cases hact
      · exact hok.move hs hown trivial rfl
      · rename_i hk hnot
        refine hok.change hs hown rfl (KeyOk.destructor hs.keys hnot _) (hs.created.destructor _ _) ⟨hk, ?_, ?_⟩ rfl
        · simpa [WinKey.InUse] using hnot
        · simp
    · cases hact
      exact hok.move hs hown trivial rfl
  · exact hok.make hs hown hact
  · cases hact
    exact hok.unlock hs hown rfl _
  · cases hact
    split
    · exact hok.move hs hown trivial rfl
    · exact hok.move hs hown trivial rfl
  · split at hact <;> cases hact
    rename_i hcond
    exact hok.lock hs hown hcond.1 hcond.2 trivial rfl
  · split at hact <;> cases hact
    · rename_i huse
      obtain ⟨hnot, hkeys⟩ := KeyOk.delete hs.keys huse
      refine hok.change hs hown rfl (fun n => (hkeys n).congr rfl rfl rfl) (hs.created.delete hnot) ?_ rfl
      simpa [KeyCall.Ok] using hnot
    · exact hok.move hs hown trivial rfl
  · cases hact
    exact hok.change hs hown rfl (KeyOk.destructor hs.keys hok.call _) (hs.created.destructor _ _) trivial rfl
  · cases hact
    exact hok.unlock hs hown rfl _
  · cases hact
    split
    · rename_i hcond
      obtain ⟨hseq, hpos, -⟩ := (hs.keys _).used hcond.2
      exact hok.move hs hown ⟨hcond.1, hseq, hpos, le_rfl⟩ rfl
    · exact hok.move hs hown trivial rfl
  · split at hact <;> cases hact
    · exact hok.store hs hown rfl
    · exact hok.move hs hown trivial rfl
  · cases hact

end Sppc.Windows
