import Mathlib.Data.List.Basic

/-!
# Streams of blocks

A stream made of blocks, each a head that says how long the block is and as many elements that continue it.  What has
come of a stream is some whole blocks and the start of one more.
-/

namespace Framing

variable {α : Type*} {B : List α → Prop} {cont : α → Prop} {len : α → Nat} {l p r t : List α} {h : α}

/-- The blocks `B` are such: a head, and the elements that continue it. -/
structure Framed (B : List α → Prop) (cont : α → Prop) (len : α → Nat) : Prop where
  shape : ∀ b, B b → ∃ h t, b = h :: t ∧ ¬cont h ∧ (∀ x ∈ t, cont x) ∧ t.length + 1 = len h

/-- Whole blocks. -/
def Whole (B : List α → Prop) (l : List α) : Prop := ∃ bs : List (List α), (∀ b ∈ bs, B b) ∧ l = bs.flatten

/-- The start of a block: nothing, or a head and fewer elements than continue it. -/
def Unfinished (cont : α → Prop) (len : α → Nat) (l : List α) : Prop :=
  l = [] ∨ ∃ h t, l = h :: t ∧ ¬cont h ∧ (∀ x ∈ t, cont x) ∧ t.length + 1 < len h

theorem Whole.nil : Whole B [] := ⟨[], nofun, rfl⟩

theorem Whole.one (hl : B l) : Whole B l := by
  refine ⟨[l], fun b hb => ?_, ?_⟩
  · rw [List.mem_singleton.1 hb]
    exact hl
  · simp

private theorem Whole.append (hl : Whole B l) (hr : Whole B r) : Whole B (l ++ r) := by
  obtain ⟨bs, hbs, rfl⟩ := hl
  obtain ⟨cs, hcs, rfl⟩ := hr
  refine ⟨bs ++ cs, fun b hb => ?_, List.flatten_append.symm⟩
  rcases List.mem_append.1 hb with hb | hb
  · exact hbs b hb
  · exact hcs b hb

/-- Whole blocks that start with a head start with the block of that head. -/
theorem Whole.split (hB : Framed B cont len) (hw : Whole B (h :: t ++ r)) (hlen : t.length + 1 ≤ len h) :
    ∃ u s, r = u ++ s ∧ (∀ x ∈ u, cont x) ∧ t.length + u.length + 1 = len h ∧ B (h :: t ++ u) ∧ Whole B s := by
  obtain ⟨bs, hbs, heq⟩ := hw
  cases bs with
  | nil => simp at heq
  | cons b bs =>
    obtain ⟨h', t', hb, hh', ht', hlen'⟩ := hB.shape b (hbs b List.mem_cons_self)
    rw [hb, List.flatten_cons, List.cons_append, List.cons_append, List.cons.injEq] at heq
    obtain ⟨rfl, heq⟩ := heq
    have hrest : Whole B bs.flatten := ⟨bs, fun c hc => hbs c (List.mem_cons_of_mem b hc), rfl⟩
    -- the elements there are of the block are the first that continue it
    rcases List.append_eq_append_iff.1 heq with ⟨u, hu, hr⟩ | ⟨u, hu, hr⟩
    · refine ⟨u, bs.flatten, hr, fun x hx => ht' x ?_, ?_, ?_, hrest⟩
      · rw [hu]
        exact List.mem_append_right t hx
      · rw [hu, List.length_append] at hlen'
        omega
      · rw [List.cons_append, ← hu, ← hb]
        exact hbs b List.mem_cons_self
    · have hempty : u = [] := by
        rw [← List.length_eq_zero_iff]
        rw [hu, List.length_append] at hlen
        omega
      subst hempty
      rw [List.append_nil] at hu
      rw [List.nil_append] at hr
      refine ⟨[], r, rfl, nofun, ?_, ?_, hr ▸ hrest⟩
      · rw [hu, List.length_nil]
        omega
      · rw [List.append_nil, hu, ← hb]
        exact hbs b List.mem_cons_self

/-- A block is whole where it is as long as its head says, or where an element comes that does not continue it. -/
theorem Whole.split_stop (hB : Framed B cont len) (hw : Whole B (h :: t ++ r)) (hlen : t.length + 1 ≤ len h)
    (hstop : t.length + 1 = len h ∨ ∃ x s, r = x :: s ∧ ¬cont x) : B (h :: t) ∧ Whole B r := by
  obtain ⟨u, s, rfl, hu, hlen', hb, hs⟩ := hw.split hB hlen
  have hempty : u = [] := by
    rcases hstop with heq | ⟨x, s', heq, hx⟩
    · rw [← List.length_eq_zero_iff]
      omega
    · by_contra hne
      obtain ⟨y, u', rfl⟩ := List.exists_cons_of_ne_nil hne
      rw [List.cons_append, List.cons.injEq] at heq
      rw [← heq.1] at hx
      exact hx (hu y List.mem_cons_self)
  rw [hempty, List.append_nil] at hb
  rw [hempty, List.nil_append]
  exact ⟨hb, hs⟩

/-- What has come of whole blocks is whole blocks and the start of another. -/
theorem Whole.split_prefix (hB : Framed B cont len) (hw : Whole B (l ++ r)) :
    ∃ w p, l = w ++ p ∧ Whole B w ∧ Unfinished cont len p ∧ Whole B (p ++ r) := by
  obtain ⟨bs, hbs, heq⟩ := hw
  induction bs generalizing l with
  | nil =>
    obtain ⟨rfl, rfl⟩ := List.append_eq_nil_iff.1 heq
    exact ⟨[], [], rfl, Whole.nil, Or.inl rfl, Whole.nil⟩
  | cons b bs ih =>
    have hb : B b := hbs b List.mem_cons_self
    have hrest : ∀ c ∈ bs, B c := fun c hc => hbs c (List.mem_cons_of_mem b hc)
    have hwhole : Whole B (l ++ r) := ⟨b :: bs, hbs, heq⟩
    rw [List.flatten_cons] at heq
    rcases List.append_eq_append_iff.1 heq with ⟨u, hu, -⟩ | ⟨u, hu, hr⟩
    · -- the first block is not all there, or just so
      by_cases hempty : u = []
      · rw [hempty, List.append_nil] at hu
        refine ⟨l, [], (List.append_nil l).symm, hu ▸ Whole.one hb, Or.inl rfl, ?_⟩
        rw [hu] at heq
        rw [List.nil_append, List.append_cancel_left heq]
        exact ⟨bs, hrest, rfl⟩
      · refine ⟨[], l, rfl, Whole.nil, ?_, hwhole⟩
        obtain ⟨h, t, hbt, hh, ht, hlen⟩ := hB.shape b hb
        cases l with
        | nil => exact Or.inl rfl
        | cons x xs =>
          rw [hu, List.cons_append, List.cons.injEq] at hbt
          obtain ⟨rfl, rfl⟩ := hbt
          refine Or.inr ⟨x, xs, rfl, hh, fun y hy => ht y (List.mem_append_left u hy), ?_⟩
          have hpos : 0 < u.length := List.length_pos_iff.2 hempty
          rw [List.length_append] at hlen
          omega
    · obtain ⟨w, p, rfl, hw, hp, hpr⟩ := ih (l := u) hrest hr.symm
      refine ⟨b ++ w, p, ?_, (Whole.one hb).append hw, hp, hpr⟩
      rw [hu, List.append_assoc]

end Framing
