import Mathlib.Data.List.Basic
import Mathlib.Order.Lattice

/-!
# Locks over ranges of bytes

The locks that a holder has over ranges of a file's bytes, shared or exclusive, and what they come to at each byte.  A
lock is released as a whole, by its exact range.
-/

/-- A lock over the bytes from `start`. -/
structure RangeLock where
  start : Nat
  length : Nat
  exclusive : Bool
  deriving DecidableEq, Repr

namespace RangeLock

/-- A byte is in the range. -/
def Covers (l : RangeLock) (b : Nat) : Prop := l.start ≤ b ∧ b < l.start + l.length

instance (l : RangeLock) (b : Nat) : Decidable (l.Covers b) := inferInstanceAs (Decidable (_ ∧ _))

/-- The ranges have a byte in common. -/
def Overlaps (l m : RangeLock) : Prop :=
  l.start < m.start + m.length ∧ m.start < l.start + l.length ∧ 0 < l.length ∧ 0 < m.length

instance (l m : RangeLock) : Decidable (l.Overlaps m) := inferInstanceAs (Decidable (_ ∧ _))

/-- What a byte is held as: exclusively (`some true`), shared, or not at all. -/
def held (locks : List RangeLock) (b : Nat) : Option Bool :=
  if ∃ l ∈ locks, l.Covers b ∧ l.exclusive then some true
  else if ∃ l ∈ locks, l.Covers b then some false
  else none

/-- The locks after a release of exactly this range: an exclusive one goes before a shared one. -/
def release (locks : List RangeLock) (start length : Nat) : List RangeLock :=
  if ⟨start, length, true⟩ ∈ locks then locks.erase ⟨start, length, true⟩ else locks.erase ⟨start, length, false⟩

/-- Whether a lock is granted: an exclusive one overlaps no other, and a shared one no exclusive one of another
holder. -/
def Grantable (own others : List RangeLock) (l : RangeLock) : Prop :=
  if l.exclusive then ∀ m ∈ own ++ others, ¬m.Overlaps l else ∀ m ∈ others, m.exclusive → ¬m.Overlaps l

instance (own others : List RangeLock) (l : RangeLock) : Decidable (Grantable own others l) := by
  unfold Grantable
  infer_instance

/-- Each byte of the range is held as wanted, and each other one as before. -/
def Replaced (own own' : List RangeLock) (start length : Nat) (want : Option Bool) : Prop :=
  ∀ b, held own' b = if start ≤ b ∧ b < start + length then want else held own b

variable {own own' others locks : List RangeLock} {l m : RangeLock} {b start length : Nat} {want : Option Bool}

private theorem overlaps_iff : l.Overlaps m ↔ ∃ b, l.Covers b ∧ m.Covers b := by
  unfold Overlaps Covers
  constructor
  · intro h
    refine ⟨max l.start m.start, ?_, ?_⟩ <;> omega
  · rintro ⟨b, hl, hm⟩
    omega

private theorem held_congr (h : ∀ l, l.Covers b → (l ∈ own' ↔ l ∈ own)) : held own' b = held own b := by
  have hcover : (∃ l ∈ own', l.Covers b) ↔ ∃ l ∈ own, l.Covers b := by
    apply exists_congr
    intro l
    constructor
    · rintro ⟨hl, hb⟩
      exact ⟨(h l hb).1 hl, hb⟩
    · rintro ⟨hl, hb⟩
      exact ⟨(h l hb).2 hl, hb⟩
  have hexcl : (∃ l ∈ own', l.Covers b ∧ l.exclusive) ↔ ∃ l ∈ own, l.Covers b ∧ l.exclusive := by
    apply exists_congr
    intro l
    constructor
    · rintro ⟨hl, hb, he⟩
      exact ⟨(h l hb).1 hl, hb, he⟩
    · rintro ⟨hl, hb, he⟩
      exact ⟨(h l hb).2 hl, hb, he⟩
  unfold held
  simp only [hcover, hexcl]

private theorem held_eq_none : held locks b = none ↔ ∀ l ∈ locks, ¬l.Covers b := by
  unfold held
  split
  · rename_i h
    obtain ⟨l, hl, hb, -⟩ := h
    simp only [reduceCtorEq, false_iff, not_forall, not_not]
    exact ⟨l, hl, hb⟩
  · split
    · rename_i h
      simpa using h
    · rename_i h
      simpa using h

/-- Whether a byte is held exclusively. -/
private theorem held_eq_true : held locks b = some true ↔ ∃ l ∈ locks, l.Covers b ∧ l.exclusive := by
  unfold held
  split
  · rename_i h
    simp only [true_iff]
    exact h
  · rename_i h
    split
    · simpa using h
    · simpa using h

private theorem held_cons_of_not (h : ¬l.Covers b) : held (l :: locks) b = held locks b := by
  apply held_congr
  intro m hm
  rw [List.mem_cons, or_iff_right]
  rintro rfl
  exact h hm

private theorem held_cons_exclusive (h : l.Covers b) (hl : l.exclusive) : held (l :: locks) b = some true :=
  held_eq_true.2 ⟨l, List.mem_cons_self, h, hl⟩

/-- A shared lock of the holder's own says nothing where it holds an exclusive one. -/
private theorem held_cons_shared (h : l.Covers b) (hl : ¬l.exclusive) :
    held (l :: locks) b = some false ↔ ∀ m ∈ locks, m.exclusive → ¬m.Covers b := by
  have hcover : ∃ m ∈ l :: locks, m.Covers b := ⟨l, List.mem_cons_self, h⟩
  rw [held, if_pos hcover]
  split
  · rename_i hexcl
    obtain ⟨m, hm, hmb, hme⟩ := hexcl
    simp only [Option.some.injEq, Bool.true_eq_false, false_iff, not_forall, not_not]
    rcases List.mem_cons.1 hm with rfl | hm
    · exact absurd hme hl
    · exact ⟨m, hm, hme, hmb⟩
  · rename_i hexcl
    simp only [true_iff]
    intro m hm hme hmb
    exact hexcl ⟨m, List.mem_cons_of_mem l hm, hmb, hme⟩

/-- A release leaves every other lock. -/
private theorem mem_release (h : ¬(m.start = start ∧ m.length = length)) :
    m ∈ release locks start length ↔ m ∈ locks := by
  have hne : ∀ e : Bool, m ≠ ⟨start, length, e⟩ := by
    rintro e rfl
    exact h ⟨rfl, rfl⟩
  unfold release
  split
  · exact List.mem_erase_of_ne (hne true)
  · exact List.mem_erase_of_ne (hne false)

private theorem held_release (h : ¬(start ≤ b ∧ b < start + length)) :
    held (release locks start length) b = held locks b := by
  apply held_congr
  intro m hm
  apply mem_release
  rintro ⟨rfl, rfl⟩
  exact h hm

/-- A release changes nothing exactly if no lock has this range. -/
theorem release_eq_self :
    release locks start length = locks ↔ ∀ m ∈ locks, ¬(m.start = start ∧ m.length = length) := by
  constructor
  · intro h m hm hrange
    obtain ⟨s, n, e⟩ := m
    obtain ⟨rfl, rfl⟩ := hrange
    have hlt : (release locks s n).length < locks.length := by
      unfold release
      split
      · rename_i hmem
        rw [List.length_erase_of_mem hmem]
        have := List.length_pos_of_mem hmem
        omega
      · rename_i hmem
        have he : e = false := by
          cases e with
          | true => exact absurd hm hmem
          | false => rfl
        rw [he] at hm
        rw [List.length_erase_of_mem hm]
        have := List.length_pos_of_mem hm
        omega
    rw [h] at hlt
    exact Nat.lt_irrefl _ hlt
  · intro h
    have hnot : ∀ e : Bool, (⟨start, length, e⟩ : RangeLock) ∉ locks := fun e hmem => h _ hmem ⟨rfl, rfl⟩
    unfold release
    rw [if_neg (hnot true), List.erase_of_not_mem (hnot false)]

/-! ### What a release, and a lock after it, come to -/

theorem replaced_release (start length : Nat) : Replaced own (release own start length) start length none ↔
    ∀ l ∈ release own start length, ¬l.Overlaps ⟨start, length, true⟩ := by
  constructor
  · intro h l hl hover
    obtain ⟨b, hb, hr⟩ := overlaps_iff.1 hover
    have hnone := (h b).trans (if_pos hr)
    exact held_eq_none.1 hnone l hl hb
  · intro h b
    by_cases hr : start ≤ b ∧ b < start + length
    · rw [if_pos hr]
      apply held_eq_none.2
      intro l hl hb
      exact h l hl (overlaps_iff.2 ⟨b, hb, hr⟩)
    · rw [if_neg hr]
      exact held_release hr

theorem replaced_exclusive (start length : Nat) :
    Replaced own (⟨start, length, true⟩ :: release own start length) start length (some true) := by
  intro b
  by_cases hr : start ≤ b ∧ b < start + length
  · rw [if_pos hr]
    exact held_cons_exclusive hr rfl
  · rw [if_neg hr, held_cons_of_not (l := ⟨start, length, true⟩) hr]
    exact held_release hr

theorem replaced_shared (start length : Nat) :
    Replaced own (⟨start, length, false⟩ :: release own start length) start length (some false) ↔
      ∀ l ∈ release own start length, l.exclusive → ¬l.Overlaps ⟨start, length, false⟩ := by
  constructor
  · intro h l hl he hover
    obtain ⟨b, hb, hr⟩ := overlaps_iff.1 hover
    have hshared := (h b).trans (if_pos hr)
    exact (held_cons_shared hr Bool.false_ne_true).1 hshared l hl he hb
  · intro h b
    by_cases hr : start ≤ b ∧ b < start + length
    · rw [if_pos hr, held_cons_shared (l := ⟨start, length, false⟩) hr Bool.false_ne_true]
      intro l hl he hb
      exact h l hl he (overlaps_iff.2 ⟨b, hb, hr⟩)
    · rw [if_neg hr, held_cons_of_not (l := ⟨start, length, false⟩) hr]
      exact held_release hr

end RangeLock
