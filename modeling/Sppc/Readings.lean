import Sppc.MappedFile

/-!
# What a computation reads

A value together with the places that were read for it, in their order: from where, and how many bytes.  A computation
is safe if it reads only where it may.  What is read elsewhere counts for nothing, since it is a fault to read it.
-/

/-- A value, and what was read for it. -/
structure Reading (α : Type) where
  value : α
  reads : List (Nat × Nat)

namespace Reading

variable {α β σ : Type} {may : Nat → Nat → Prop} {p : Reading α} {f : α → Reading β}

instance : Monad Reading where
  pure a := ⟨a, []⟩
  bind p f := ⟨(f p.value).value, p.reads ++ (f p.value).reads⟩

/-- What is read may be. -/
def Safe (may : Nat → Nat → Prop) (p : Reading α) : Prop := ∀ r ∈ p.reads, may r.1 r.2

@[simp] theorem value_pure (a : α) : (pure a : Reading α).value = a := rfl

@[simp] theorem value_bind (p : Reading α) (f : α → Reading β) : (p >>= f).value = (f p.value).value := rfl

@[simp] theorem safe_pure (a : α) : (pure a : Reading α).Safe may := fun _ h => (List.not_mem_nil h).elim

@[simp] theorem safe_bind : (p >>= f).Safe may ↔ p.Safe may ∧ (f p.value).Safe may := List.forall_mem_append

/-! ### Loops -/

variable {step : Nat → σ → Reading (ForInStep σ)} {i n : Nat} {s : σ}

/-- A loop over `n` numbers from `i` on, that may stop at any. -/
def loop (step : Nat → σ → Reading (ForInStep σ)) : Nat → Nat → σ → Reading σ
  | _, 0, s => pure s
  | i, n + 1, s => do
    match ← step i s with
    | .done s => pure s
    | .yield s => loop step (i + 1) n s

/-- A loop is safe if each step is that it comes to, where neither the steps' safety nor where it stops depends on its
state. -/
theorem safe_loop {S D : Nat → Prop} (hsafe : ∀ j s, (step j s).Safe may ↔ S j)
    (hdone : ∀ j s, (∃ t, (step j s).value = .done t) ↔ D j) :
    (loop step i n s).Safe may ↔ ∀ j, i ≤ j → j < i + n → (∀ k, i ≤ k → k < j → ¬D k) → S j := by
  induction n generalizing i s with
  | zero => exact iff_of_true (safe_pure s) fun j hi hj => absurd hj (by omega)
  | succ n ih =>
    rw [loop, safe_bind, hsafe]
    cases hstep : (step i s).value with
    | done t =>
      have hD : D i := (hdone i s).1 ⟨t, hstep⟩
      constructor
      · rintro ⟨hS, -⟩ j hi hj hbefore
        rcases Nat.eq_or_lt_of_le hi with rfl | hlt
        · exact hS
        · exact absurd hD (hbefore i (Nat.le_refl i) hlt)
      · intro h
        exact ⟨h i (Nat.le_refl i) (by omega) fun k hk hlt => absurd hlt (by omega), safe_pure t⟩
    | yield t =>
      have hD : ¬D i := by
        intro hD
        obtain ⟨t', ht'⟩ := (hdone i s).2 hD
        rw [hstep] at ht'
        cases ht'
      constructor
      · rintro ⟨hS, hrest⟩ j hi hj hbefore
        rcases Nat.eq_or_lt_of_le hi with rfl | hlt
        · exact hS
        · exact ih.1 hrest j hlt (by omega) fun k hk => hbefore k (by omega)
      · intro h
        refine ⟨h i (Nat.le_refl i) (by omega) fun k hk hlt => absurd hlt (by omega), ih.2 fun j hi hj hbefore => ?_⟩
        refine h j (by omega) (by omega) fun k hk hlt => ?_
        rcases Nat.eq_or_lt_of_le hk with rfl | hk
        · exact hD
        · exact hbefore k hk hlt

/-- What holds of the state before each step and does not stop the loop holds after it, or the loop was stopped. -/
theorem loop_value (step : Nat → σ → Reading (ForInStep σ)) (I : Nat → σ → Prop) (R : σ → Prop) (hstart : I i s)
    (hdone : ∀ j s t, j < i + n → I j s → (step j s).value = .done t → R t)
    (hyield : ∀ j s t, j < i + n → I j s → (step j s).value = .yield t → I (j + 1) t) :
    R (loop step i n s).value ∨ I (i + n) (loop step i n s).value := by
  induction n generalizing i s with
  | zero => exact Or.inr hstart
  | succ n ih =>
    rw [loop, value_bind]
    cases hvalue : (step i s).value with
    | done t => exact Or.inl (hdone i s t (by omega) hstart hvalue)
    | yield t =>
      have hrest := ih (hyield i s t (by omega) hstart hvalue) (fun j s t hj => hdone j s t (by omega))
        fun j s t hj => hyield j s t (by omega)
      rw [Nat.add_right_comm] at hrest
      exact hrest

/-! ### Searches -/

variable {search : Nat → Reading (Option α)}

/-- The first of the `n` least numbers for which there is something. -/
def first (search : Nat → Reading (Option α)) (n : Nat) : Reading (Option α) :=
  loop (fun j _ => do
    match ← search j with
    | some a => pure (.done (some a))
    | none => pure (.yield none)) 0 n none

theorem safe_first : (first search n).Safe may ↔
    ∀ j, j < n → (∀ k, k < j → (search k).value = none) → (search j).Safe may := by
  have hsafe : ∀ j (s : Option α), ((do
      match ← search j with
      | some a => pure (.done (some a))
      | none => pure (.yield none) : Reading (ForInStep (Option α))).Safe may ↔ (search j).Safe may) := by
    intro j s
    rw [safe_bind]
    cases (search j).value <;> exact and_iff_left (safe_pure _)
  have hdone : ∀ j (s : Option α), ((∃ t, (do
      match ← search j with
      | some a => pure (.done (some a))
      | none => pure (.yield none) : Reading (ForInStep (Option α))).value = .done t) ↔ (search j).value ≠ none) := by
    intro j s
    rw [value_bind]
    cases (search j).value with
    | none => exact iff_of_false (fun ⟨_, h⟩ => nomatch h) fun h => h rfl
    | some a => exact iff_of_true ⟨some a, rfl⟩ nofun
  rw [first, safe_loop hsafe hdone, Nat.zero_add]
  simp only [Nat.zero_le, true_implies, not_ne_iff]

/-- What is found is for the first number that is looked for. -/
theorem value_first {found : Nat → Bool} {get : Nat → α}
    (h : ∀ j, (search j).value = if found j then some (get j) else none) :
    (first search n).value = ((List.range n).find? found).map get := by
  have hloop : ∀ i n : Nat, (loop (fun j (_ : Option α) => do
      match ← search j with
      | some a => pure (.done (some a))
      | none => pure (.yield none)) i n none).value = ((List.range' i n).find? found).map get := by
    intro i n
    induction n generalizing i with
    | zero => rfl
    | succ n ih =>
      rw [loop, value_bind, value_bind, h, List.range'_succ, List.find?_cons]
      cases found i with
      | true => rfl
      | false => exact ih (i + 1)
  rw [first, hloop, List.range_eq_range']

end Reading

namespace MappedFile

/-- The number in the `n` bytes from an offset on. -/
def get (m : MappedFile) (o : ByteOrder) (off n : Nat) : Reading Nat := ⟨m.peek o off n, [(off, n)]⟩

@[simp] theorem safe_get {m : MappedFile} {o : ByteOrder} {off n : Nat} :
    (m.get o off n).Safe m.Inside ↔ m.Inside off n := List.forall_mem_singleton

/-! ### Tables

A table of `bytes` bytes at `start`, whose entries of `width` bytes are come to one after the other until one is what
is looked for.  `S` says of an entry that what is read of it is of the file, `D` that it is the one that is looked
for. -/

section tables

variable {m : MappedFile} {start bytes width : Nat} {S D : Nat → Prop}

/-- The entries of a table that does not wrap are of the file. -/
theorem table_inside (hpos : 0 < width) (h : start + bytes ≤ m.size) {j : Nat} (hj : j < bytes / width) :
    start + j * width + width ≤ m.size := by
  have hmul : (j + 1) * width ≤ bytes := (Nat.le_div_iff_mul_le hpos).1 hj
  rw [Nat.add_mul, Nat.one_mul] at hmul
  omega

/-- A table that starts in the file and wraps is read to the end of the file, unless the entry is found before it. -/
theorem table_wraps_iff (hsize : m.size < 2 ^ 63) (hpos : 0 < width) (hwidth : width < 2 ^ 32)
    (hstart : start < m.size) (hwraps : 2 ^ 64 ≤ start + bytes) (hin : ∀ j, start + j * width + width ≤ m.size → S j)
    (hout : ∀ j, m.size ≤ start + j * width → start + j * width < 2 ^ 63 + 2 ^ 32 → ¬S j)
    (hfound : ∀ j, start + j * width < m.size → S j → D j → start + j * width + width ≤ m.size) :
    (∀ j, j < bytes / width → (∀ k, k < j → ¬D k) → S j) ↔ ∃ j, start + j * width + width ≤ m.size ∧ D j := by
  constructor
  · intro h
    by_contra hnot
    have hnone : ∀ j, start + j * width + width ≤ m.size → ¬D j := fun j hle hD => hnot ⟨j, hle, hD⟩
    -- the first entry that starts after the file
    obtain ⟨last, hafter, hbefore⟩ : ∃ j, m.size ≤ start + j * width ∧ start + j * width < m.size + width := by
      refine ⟨(m.size - start + width - 1) / width, ?_, ?_⟩
      · have hceil := Nat.lt_div_mul_add (a := m.size - start + width - 1) hpos
        omega
      · have hfloor := Nat.div_mul_le_self (m.size - start + width - 1) width
        omega
    have hlast : last < bytes / width := by
      refine (Nat.le_div_iff_mul_le hpos).2 ?_
      rw [Nat.succ_mul]
      omega
    have hD : ∀ j, j < last → ¬D j := by
      intro j
      induction j using Nat.strong_induction_on with
      | h j ih =>
        intro hj hDj
        have hS : S j := h j (hj.trans hlast) fun k hk => ih k hk (hk.trans hj)
        have hmul : (j + 1) * width ≤ last * width := Nat.mul_le_mul_right width hj
        rw [Nat.add_mul, Nat.one_mul] at hmul
        rcases Nat.lt_or_ge (start + j * width) m.size with hlt | hge
        · exact hnone j (hfound j hlt hS hDj) hDj
        · exact hout j hge (by omega) hS
    exact hout last hafter (by omega) (h last hlast hD)
  · rintro ⟨found, hle, hD⟩ j hj hbefore
    have hj : j ≤ found := by
      by_contra hgt
      exact hbefore found (by omega) hD
    have hmul := Nat.mul_le_mul_right width hj
    exact hin j (by omega)

end tables

end MappedFile
