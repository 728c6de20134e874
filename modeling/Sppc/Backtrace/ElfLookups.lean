import Sppc.Backtrace.ElfReads

/-!
# What is read of an ELF file to name a function (`backtrace/elf.h`)

Every byte that is read for a backtrace is of the file exactly if no sum of an offset and a size that is compared with
the size of the file wraps, as far as what it stands for is read, and the name that is found ends in the file.
-/

namespace Sppc.Backtrace.Elf

open Reading

variable {e : Elf} {n : Nat}

/-! ### What is read to look up a trap -/

section traps

variable {t : Traps} {addr pc : Nat} {obj : Object}

/-- The trap `i` is at this link-time address. -/
def IsTrapAt (e : Elf) (t : Traps) (addr i : Nat) : Prop :=
  (t.vaddr + i * 4 + extend32 (e.member (t.start + i * 4) ⟨0, 4⟩)) % 2 ^ 64 = addr

private theorem safe_trapAt {i : Nat} : (e.trapAt t addr i).Safe e.Inside ↔ e.Inside (t.start + i * 4) 4 := by
  rw [trapAt, safe_bind, safe_read]
  exact and_iff_left (safe_pure _)

private theorem value_trapAt {i : Nat} : (e.trapAt t addr i).value = none ↔ ¬e.IsTrapAt t addr i := by
  rw [trapAt, value_bind, value_pure, ite_eq_right_iff]
  exact ⟨fun h htrap => absurd (h htrap) nofun, fun h htrap => absurd htrap h⟩

/-- A trap is looked up in the file exactly if the table of the traps does not wrap, is empty, or has the trap that is
looked for in the file. -/
private theorem safe_findTrap (hsize : e.size < 2 ^ 63) {bytes : Nat} (hstart : t.start < 2 ^ 64)
    (hsum : sum64 t.start bytes ≤ e.size) : (first (e.trapAt t addr) (bytes / 4)).Safe e.Inside ↔
      (t.start + bytes < 2 ^ 64 ∨ bytes < 4 ∨ ∃ i, t.start + i * 4 + 4 ≤ e.size ∧ e.IsTrapAt t addr i) := by
  have hread : (first (e.trapAt t addr) (bytes / 4)).Safe e.Inside ↔
      ∀ j, j < bytes / 4 → (∀ k, k < j → ¬e.IsTrapAt t addr k) → e.Inside (t.start + j * 4) 4 := by
    rw [safe_first]
    exact forall₂_congr fun j _ => imp_congr (forall₂_congr fun k _ => value_trapAt) safe_trapAt
  rw [hread]
  rcases Nat.lt_or_ge (t.start + bytes) (2 ^ 64) with hno | hwraps
  · rw [sum64, Nat.mod_eq_of_lt hno] at hsum
    exact iff_of_true (fun j hj _ => MappedFile.inside_of_le (MappedFile.table_inside (by decide) hsum hj))
      (Or.inl hno)
  · rw [or_iff_right (Nat.not_lt.2 hwraps)]
    rcases Nat.lt_or_ge bytes 4 with hfew | hmany
    · exact iff_of_true (fun j hj => absurd hj (by omega)) (Or.inl hfew)
    · rw [or_iff_right (Nat.not_lt.2 hmany)]
      rcases Nat.lt_or_ge t.start e.size with hlt | hge
      · refine MappedFile.table_wraps_iff hsize (by decide) (by decide) hlt hwraps (fun j =>
          MappedFile.inside_of_le) ?_ ?_
        · exact fun j hle hfar => not_inside_of_le (by decide) hle (by omega)
        · intro j hj hinside _
          unfold MappedFile.Inside at hinside
          rwa [Nat.mod_eq_of_lt (by omega)] at hinside
      · refine iff_of_false (fun h => ?_) ?_
        · have hfirst := h 0 (by omega) fun k hk => absurd hk (Nat.not_lt_zero k)
          exact not_inside_of_le (by decide) (show e.size ≤ t.start + 0 * 4 by omega) (by omega) hfirst
        · rintro ⟨i, hle, -⟩
          omega

end traps

/-! ### What is read to look up a symbol -/

section symbols

variable {opd : Option (Nat → Nat)} {bias addr i : Nat} {t : Tables} {best : Option (Nat × Nat)}

/-- A member of the symbol `i`. -/
def sym (e : Elf) (t : Tables) (i : Nat) (c : Member) : Nat := e.member (t.syms + i * sizeofSym) c

/-- Where its code starts, as a link-time address. -/
def code (e : Elf) (opd : Option (Nat → Nat)) (bias : Nat) (t : Tables) (i : Nat) : Nat :=
  symCode opd bias (e.sym t i stValue)

/-- The symbol `i` is a function. -/
def IsFunction (e : Elf) (t : Tables) (i : Nat) : Prop :=
  e.sym t i stInfo % 16 = STT_FUNC ∨ e.sym t i stInfo % 16 = STT_GNU_IFUNC

/-- It is defined in the object. -/
def Defined (e : Elf) (t : Tables) (i : Nat) : Prop := e.IsFunction t i ∧ e.sym t i stShndx ≠ 0

/-- Its name is of the strings. -/
def Named (e : Elf) (t : Tables) (i : Nat) : Prop := e.Defined t i ∧ e.sym t i stName < t.strtabSize

/-- It starts at or below the link-time address `addr`. -/
def Below (e : Elf) (opd : Option (Nat → Nat)) (bias : Nat) (t : Tables) (addr i : Nat) : Prop :=
  e.Named t i ∧ e.code opd bias t i ≤ addr

/-- It ends above it. -/
def Covers (e : Elf) (opd : Option (Nat → Nat)) (bias : Nat) (t : Tables) (addr i : Nat) : Prop :=
  e.Below opd bias t addr i ∧ addr < sum64 (e.code opd bias t i) (e.sym t i stSize)

/-- It has no size. -/
def Sizeless (e : Elf) (opd : Option (Nat → Nat)) (bias : Nat) (t : Tables) (addr i : Nat) : Prop :=
  e.Below opd bias t addr i ∧ e.sym t i stSize = 0

instance : Decidable (e.IsFunction t i) := inferInstanceAs (Decidable (_ ∨ _))
instance : Decidable (e.Defined t i) := inferInstanceAs (Decidable (_ ∧ _))
instance : Decidable (e.Named t i) := inferInstanceAs (Decidable (_ ∧ _))
instance : Decidable (e.Below opd bias t addr i) := inferInstanceAs (Decidable (_ ∧ _))
instance : Decidable (e.Covers opd bias t addr i) := inferInstanceAs (Decidable (_ ∧ _))
instance : Decidable (e.Sizeless opd bias t addr i) := inferInstanceAs (Decidable (_ ∧ _))

private theorem value_read_sym (e : Elf) (t : Tables) (i : Nat) (c : Member) :
    (e.read (t.syms + i * sizeofSym) c).value = e.sym t i c := rfl

private theorem symCode_sym (e : Elf) (opd : Option (Nat → Nat)) (bias : Nat) (t : Tables) (i : Nat) :
    symCode opd bias (e.sym t i stValue) = e.code opd bias t i := rfl

/-- What is read of a symbol depends on what has been read of it. -/
def SymInside (e : Elf) (opd : Option (Nat → Nat)) (bias : Nat) (t : Tables) (addr i : Nat) : Prop :=
  e.Inside (t.syms + i * sizeofSym + stInfo.start) stInfo.width ∧
    (e.IsFunction t i → e.Inside (t.syms + i * sizeofSym + stShndx.start) stShndx.width) ∧
    (e.Defined t i → e.Inside (t.syms + i * sizeofSym + stName.start) stName.width) ∧
    (e.Named t i → e.Inside (t.syms + i * sizeofSym + stValue.start) stValue.width) ∧
    (e.Below opd bias t addr i → e.Inside (t.syms + i * sizeofSym + stSize.start) stSize.width)

/-- A step reads no further than it has to, and stops at a symbol that covers the address.  Otherwise it may take one
without a size. -/
private theorem considerSym_spec :
    ((e.considerSym opd bias t addr i best).Safe e.Inside ↔ e.SymInside opd bias t addr i) ∧
    (e.considerSym opd bias t addr i best).value =
      if e.Covers opd bias t addr i then .done (some (i, e.code opd bias t i))
      else if e.Sizeless opd bias t addr i ∧ best.all (fun b => b.2 < e.code opd bias t i) then
        .yield (some (i, e.code opd bias t i))
      else .yield best := by
  have hskip (hnot : ¬e.Below opd bias t addr i) :
    (if e.Covers opd bias t addr i then .done (some (i, e.code opd bias t i))
      else if e.Sizeless opd bias t addr i ∧ best.all (fun b => b.2 < e.code opd bias t i) then
        .yield (some (i, e.code opd bias t i))
      else .yield best : ForInStep (Option (Nat × Nat))) = .yield best := by
    rw [if_neg fun h => hnot h.1, if_neg fun h => hnot h.1.1]
  unfold SymInside
  rw [considerSym, safe_bind, safe_read, value_bind, value_read_sym]
  by_cases hfunction : e.IsFunction t i
  · rw [if_neg fun h => not_or.2 h hfunction, safe_bind, safe_read, value_bind, value_read_sym,
      forall_prop_of_true hfunction]
    by_cases hshndx : e.sym t i stShndx = 0
    · rw [if_pos hshndx, hskip fun h => h.1.1.2 hshndx]
      refine ⟨and_congr_right fun _ => and_congr_right fun _ => iff_of_true (safe_pure _) ?_, rfl⟩
      exact ⟨fun h => absurd hshndx h.2, fun h => absurd hshndx h.1.2, fun h => absurd hshndx h.1.1.2⟩
    · have hdefined : e.Defined t i := ⟨hfunction, hshndx⟩
      rw [if_neg hshndx, safe_bind, safe_read, value_bind, value_read_sym, forall_prop_of_true hdefined]
      by_cases hname : e.sym t i stName < t.strtabSize
      · have hnamed : e.Named t i := ⟨hdefined, hname⟩
        rw [if_neg (Nat.not_le.2 hname), safe_bind, safe_read, value_bind, value_read_sym, symCode_sym,
          forall_prop_of_true hnamed]
        by_cases hcode : e.code opd bias t i ≤ addr
        · have hbelow : e.Below opd bias t addr i := ⟨hnamed, hcode⟩
          rw [if_neg (Nat.not_lt.2 hcode), safe_bind, safe_read, value_bind, value_read_sym,
            forall_prop_of_true hbelow]
          by_cases hend : addr < sum64 (e.code opd bias t i) (e.sym t i stSize)
          · have hcovers : e.Covers opd bias t addr i := ⟨hbelow, hend⟩
            rw [if_pos hend, if_pos hcovers, and_iff_left (safe_pure _)]
            exact ⟨Iff.rfl, rfl⟩
          · have hcovers : ¬e.Covers opd bias t addr i := fun h => hend h.2
            rw [if_neg hend, if_neg hcovers]
            by_cases htake : e.sym t i stSize = 0 ∧ best.all fun b => b.2 < e.code opd bias t i
            · have hsizeless : e.Sizeless opd bias t addr i ∧ best.all fun b => b.2 < e.code opd bias t i :=
                ⟨⟨hbelow, htake.1⟩, htake.2⟩
              rw [if_pos htake, if_pos hsizeless, and_iff_left (safe_pure _)]
              exact ⟨Iff.rfl, rfl⟩
            · have hsizeless : ¬(e.Sizeless opd bias t addr i ∧ best.all fun b => b.2 < e.code opd bias t i) :=
                fun h => htake ⟨h.1.2, h.2⟩
              rw [if_neg htake, if_neg hsizeless, and_iff_left (safe_pure _)]
              exact ⟨Iff.rfl, rfl⟩
        · rw [if_pos (Nat.lt_of_not_le hcode), hskip fun h => hcode h.2]
          refine ⟨and_congr_right fun _ => and_congr_right fun _ => and_congr_right fun _ =>
            and_congr_right fun _ => ?_, rfl⟩
          exact iff_of_true (safe_pure _) fun h => absurd h.2 hcode
      · rw [if_pos (Nat.le_of_not_lt hname), hskip fun h => hname h.1.2]
        refine ⟨and_congr_right fun _ => and_congr_right fun _ => and_congr_right fun _ =>
          iff_of_true (safe_pure _) ?_, rfl⟩
        exact ⟨fun h => absurd h.2 hname, fun h => absurd h.1.2 hname⟩
  · rw [if_pos (not_or.1 hfunction), hskip fun h => hfunction h.1.1.1]
    refine ⟨and_congr_right fun _ => iff_of_true (safe_pure _) ?_, rfl⟩
    exact ⟨fun h => absurd h hfunction, fun h => absurd h.1 hfunction, fun h => absurd h.1.1 hfunction,
      fun h => absurd h.1.1.1 hfunction⟩

/-- A symbol is in the file as a whole. -/
private theorem symInside_of_le (h : t.syms + i * sizeofSym + sizeofSym ≤ e.size) :
    e.SymInside opd bias t addr i := by
  have hinside (c : Member) (hc : c.start + c.width ≤ sizeofSym) :
      e.Inside (t.syms + i * sizeofSym + c.start) c.width :=
    MappedFile.inside_of_le (by omega)
  exact ⟨hinside stInfo (by decide), fun _ => hinside stShndx (by decide), fun _ => hinside stName (by decide),
    fun _ => hinside stValue (by decide), fun _ => hinside stSize (by decide)⟩

/-- The symbols are searched in the file exactly if their table does not wrap, is empty, has no more before the file
than the name of a first symbol whose name is not read, or has a symbol in the file that covers the address. -/
private theorem symsInside_iff (hsize : e.size < 2 ^ 63) {bytes : Nat} (hstart : t.syms < 2 ^ 64)
    (hbytes : bytes < 2 ^ 64) (hsum : sum64 t.syms bytes ≤ e.size) :
    (∀ j, j < bytes / sizeofSym → (∀ k, k < j → ¬e.Covers opd bias t addr k) → e.SymInside opd bias t addr j) ↔
      (t.syms + bytes < 2 ^ 64 ∨ bytes < sizeofSym ∨ (2 ^ 64 ≤ t.syms + 4 ∧ ¬e.Defined t 0) ∨
        ∃ i, t.syms + i * sizeofSym + sizeofSym ≤ e.size ∧ e.Covers opd bias t addr i) := by
  rcases Nat.lt_or_ge (t.syms + bytes) (2 ^ 64) with hno | hwraps
  · rw [sum64, Nat.mod_eq_of_lt hno] at hsum
    exact iff_of_true (fun j hj _ => symInside_of_le (MappedFile.table_inside (by decide) hsum hj)) (Or.inl hno)
  · rw [or_iff_right (Nat.not_lt.2 hwraps)]
    rcases Nat.lt_or_ge bytes sizeofSym with hfew | hmany
    · refine iff_of_true (fun j hj => absurd hj ?_) (Or.inl hfew)
      rw [Nat.div_eq_of_lt hfew]
      exact Nat.not_lt_zero j
    · rw [or_iff_right (Nat.not_lt.2 hmany)]
      have hpos : 0 < bytes / sizeofSym := Nat.div_pos hmany (by decide)
      rcases Nat.lt_or_ge t.syms e.size with hlt | hge
      · have hbefore : ¬(2 ^ 64 ≤ t.syms + 4 ∧ ¬e.Defined t 0) := fun h => absurd h.1 (by omega)
        rw [or_iff_right hbefore]
        refine MappedFile.table_wraps_iff hsize (by decide) (by decide) hlt hwraps (fun j => symInside_of_le) ?_ ?_
        · intro j hle hfar hinside
          exact not_inside_of_le (by decide) (show e.size ≤ t.syms + j * sizeofSym + 4 by omega) (by omega) hinside.1
        · intro j hj hinside hcovers
          have hlast : e.Inside (t.syms + j * sizeofSym + 16) 8 := hinside.2.2.2.2 hcovers.1
          unfold MappedFile.Inside at hlast
          rw [Nat.mod_eq_of_lt (by omega)] at hlast
          unfold sizeofSym at hlast ⊢
          omega
      · have hnone : ¬∃ i, t.syms + i * sizeofSym + sizeofSym ≤ e.size ∧ e.Covers opd bias t addr i := by
          rintro ⟨i, hle, -⟩
          unfold sizeofSym at hle
          omega
        rw [or_iff_left hnone]
        rcases Nat.lt_or_ge (t.syms + 4) (2 ^ 64) with hfour | hfour
        · refine iff_of_false (fun h => ?_) fun h => absurd h.1 (by omega)
          have hfirst := (h 0 hpos fun k hk => absurd hk (Nat.not_lt_zero k)).1
          rw [Nat.zero_mul] at hfirst
          exact not_inside_of_le (by decide) (show e.size ≤ t.syms + 4 by omega) hfour hfirst
        · rw [and_iff_right hfour]
          -- only the name of the first symbol is before the file
          have hafter {j : Nat} (hj : j < bytes / sizeofSym) (c : Member) (hc : c.start + c.width ≤ sizeofSym)
              (hname : 0 < j ∨ 4 ≤ c.start) : e.Inside (t.syms + j * sizeofSym + c.start) c.width := by
            have hmul := (Nat.le_div_iff_mul_le (show 0 < sizeofSym by decide)).1 hj
            unfold sum64 at hsum
            unfold sizeofSym at hmul hc ⊢
            unfold MappedFile.Inside
            omega
          constructor
          · intro h hdefined
            have hfirst := (h 0 hpos fun k hk => absurd hk (Nat.not_lt_zero k)).2.2.1 hdefined
            rw [Nat.zero_mul] at hfirst
            exact not_inside_of_le (by decide) hge hstart hfirst
          · intro hnot j hj _
            refine ⟨hafter hj stInfo (by decide) (Or.inr (by decide)),
              fun _ => hafter hj stShndx (by decide) (Or.inr (by decide)), fun hdefined =>
              hafter hj stName (by decide) (Or.inl ?_), fun _ => hafter hj stValue (by decide) (Or.inr (by decide)),
              fun _ => hafter hj stSize (by decide) (Or.inr (by decide))⟩
            by_contra hzero
            rw [Nat.eq_zero_of_not_pos hzero] at hdefined
            exact hnot hdefined

/-- The symbol that is found: the first that covers the address, or the nearest below it of those without a size if
none does. -/
def Found (e : Elf) (opd : Option (Nat → Nat)) (bias : Nat) (t : Tables) (addr i : Nat) : Prop :=
  i < t.nsyms ∧ ((e.Covers opd bias t addr i ∧ ∀ k, k < i → ¬e.Covers opd bias t addr k) ∨
    ((∀ k, k < t.nsyms → ¬e.Covers opd bias t addr k) ∧ e.Sizeless opd bias t addr i ∧
      ∀ k, k < t.nsyms → e.Sizeless opd bias t addr k →
        e.code opd bias t k < e.code opd bias t i ∨ e.code opd bias t k = e.code opd bias t i ∧ i ≤ k))

private theorem Found.unique {j : Nat} (hi : e.Found opd bias t addr i) (hj : e.Found opd bias t addr j) : i = j := by
  obtain ⟨hilt, ⟨hicovers, hifirst⟩ | ⟨hinone, hisizeless, hinearest⟩⟩ := hi <;>
    obtain ⟨hjlt, ⟨hjcovers, hjfirst⟩ | ⟨hjnone, hjsizeless, hjnearest⟩⟩ := hj
  · rcases Nat.lt_trichotomy i j with hlt | heq | hgt
    · exact absurd hicovers (hjfirst i hlt)
    · exact heq
    · exact absurd hjcovers (hifirst j hgt)
  · exact absurd hicovers (hjnone i hilt)
  · exact absurd hjcovers (hinone j hjlt)
  · have hle := hinearest j hjlt hjsizeless
    have hge := hjnearest i hilt hisizeless
    omega

/-- No symbol before one that is found covers the address. -/
private theorem Found.before (hi : e.Found opd bias t addr i) :
    e.Named t i ∧ ∀ k, k < i → ¬e.Covers opd bias t addr k := by
  obtain ⟨hlt, ⟨hcovers, hfirst⟩ | ⟨hnone, hsizeless, -⟩⟩ := hi
  · exact ⟨hcovers.1.1, hfirst⟩
  · exact ⟨hsizeless.1.1, fun k hk => hnone k (hk.trans hlt)⟩

/-- What the search has after `n` symbols none of which covers the address. -/
def Nearest (e : Elf) (opd : Option (Nat → Nat)) (bias : Nat) (t : Tables) (addr n : Nat) : Option (Nat × Nat) → Prop
  | none => ∀ k, k < n → ¬e.Sizeless opd bias t addr k
  | some (i, c) => i < n ∧ c = e.code opd bias t i ∧ e.Sizeless opd bias t addr i ∧
      ∀ k, k < n → e.Sizeless opd bias t addr k →
        e.code opd bias t k < e.code opd bias t i ∨ e.code opd bias t k = e.code opd bias t i ∧ i ≤ k

private theorem Nearest.take (h : e.Nearest opd bias t addr n best) (hsizeless : e.Sizeless opd bias t addr n)
    (hless : best.all fun b => b.2 < e.code opd bias t n) :
    e.Nearest opd bias t addr (n + 1) (some (n, e.code opd bias t n)) := by
  refine ⟨Nat.lt_succ_self n, rfl, hsizeless, fun k hk hsizeless' => ?_⟩
  rcases Nat.lt_succ_iff_lt_or_eq.1 hk with hlt | rfl
  · cases best with
    | none => exact absurd hsizeless' (h k hlt)
    | some b =>
      obtain ⟨-, hcode, -, hnearest⟩ := h
      have hb : b.2 < e.code opd bias t n := of_decide_eq_true hless
      have hk := hnearest k hlt hsizeless'
      omega
  · exact Or.inr ⟨rfl, Nat.le_refl k⟩

private theorem Nearest.skip (h : e.Nearest opd bias t addr n best)
    (hnot : ¬(e.Sizeless opd bias t addr n ∧ best.all fun b => b.2 < e.code opd bias t n)) :
    e.Nearest opd bias t addr (n + 1) best := by
  cases best with
  | none =>
    intro k hk hsizeless
    rcases Nat.lt_succ_iff_lt_or_eq.1 hk with hlt | rfl
    · exact h k hlt hsizeless
    · exact hnot ⟨hsizeless, rfl⟩
  | some b =>
    obtain ⟨hlt, hcode, hsizeless, hnearest⟩ := h
    refine ⟨Nat.lt_succ_of_lt hlt, hcode, hsizeless, fun k hk hsizeless' => ?_⟩
    rcases Nat.lt_succ_iff_lt_or_eq.1 hk with hk | rfl
    · exact hnearest k hk hsizeless'
    · have hle : ¬b.2 < e.code opd bias t k := fun h => hnot ⟨hsizeless', decide_eq_true h⟩
      omega

/-- The search gives the symbol that is to be found. -/
private theorem value_search (e : Elf) (opd : Option (Nat → Nat)) (bias : Nat) (t : Tables) (addr : Nat) :
    (∃ i, e.Found opd bias t addr i ∧
      (loop (e.considerSym opd bias t addr) 0 t.nsyms none).value = some (i, e.code opd bias t i)) ∨
    ((∀ i, ¬e.Found opd bias t addr i) ∧ (loop (e.considerSym opd bias t addr) 0 t.nsyms none).value = none) := by
  have hdone : ∀ j best b, j < 0 + t.nsyms →
      (∀ k, k < j → ¬e.Covers opd bias t addr k) ∧ e.Nearest opd bias t addr j best →
      (e.considerSym opd bias t addr j best).value = .done b →
      ∃ i, i < t.nsyms ∧ e.Covers opd bias t addr i ∧ (∀ k, k < i → ¬e.Covers opd bias t addr k) ∧
        b = some (i, e.code opd bias t i) := by
    rintro j best b hj ⟨hbefore, -⟩ hb
    rw [Nat.zero_add] at hj
    rw [considerSym_spec.2] at hb
    by_cases hcovers : e.Covers opd bias t addr j
    · rw [if_pos hcovers] at hb
      cases hb
      exact ⟨j, hj, hcovers, hbefore, rfl⟩
    · rw [if_neg hcovers] at hb
      split at hb <;> cases hb
  have hyield : ∀ j best b, j < 0 + t.nsyms →
      (∀ k, k < j → ¬e.Covers opd bias t addr k) ∧ e.Nearest opd bias t addr j best →
      (e.considerSym opd bias t addr j best).value = .yield b →
      (∀ k, k < j + 1 → ¬e.Covers opd bias t addr k) ∧ e.Nearest opd bias t addr (j + 1) b := by
    rintro j best b - ⟨hbefore, hnearest⟩ hb
    rw [considerSym_spec.2] at hb
    by_cases hcovers : e.Covers opd bias t addr j
    · rw [if_pos hcovers] at hb
      cases hb
    · rw [if_neg hcovers] at hb
      refine ⟨fun k hk => ?_, ?_⟩
      · rcases Nat.lt_succ_iff_lt_or_eq.1 hk with hlt | rfl
        · exact hbefore k hlt
        · exact hcovers
      · by_cases htake : e.Sizeless opd bias t addr j ∧ best.all fun b => b.2 < e.code opd bias t j
        · rw [if_pos htake] at hb
          cases hb
          exact hnearest.take htake.1 htake.2
        · rw [if_neg htake] at hb
          cases hb
          exact hnearest.skip htake
  have hstart : (∀ k, k < 0 → ¬e.Covers opd bias t addr k) ∧ e.Nearest opd bias t addr 0 none :=
    ⟨fun k hk => absurd hk (Nat.not_lt_zero k), fun k hk => absurd hk (Nat.not_lt_zero k)⟩
  have hloop := loop_value (e.considerSym opd bias t addr)
    (fun j best => (∀ k, k < j → ¬e.Covers opd bias t addr k) ∧ e.Nearest opd bias t addr j best)
    (fun best => ∃ i, i < t.nsyms ∧ e.Covers opd bias t addr i ∧ (∀ k, k < i → ¬e.Covers opd bias t addr k) ∧
      best = some (i, e.code opd bias t i))
    hstart hdone hyield
  rw [Nat.zero_add] at hloop
  rcases hloop with ⟨i, hi, hcovers, hfirst, hvalue⟩ | ⟨hnone, hnearest⟩
  · exact Or.inl ⟨i, ⟨hi, Or.inl ⟨hcovers, hfirst⟩⟩, hvalue⟩
  · cases hvalue : (loop (e.considerSym opd bias t addr) 0 t.nsyms none).value with
    | none =>
      rw [hvalue] at hnearest
      refine Or.inr ⟨fun i hi => ?_, rfl⟩
      obtain ⟨hlt, ⟨hcovers, -⟩ | ⟨-, hsizeless, -⟩⟩ := hi
      · exact hnone i hlt hcovers
      · exact hnearest i hlt hsizeless
    | some b =>
      rw [hvalue] at hnearest
      obtain ⟨hlt, hcode, hsizeless, hmax⟩ := hnearest
      exact Or.inl ⟨b.1, ⟨hlt, Or.inr ⟨hnone, hsizeless, hmax⟩⟩, by rw [← hcode]⟩

/-- A function is resolved in the file exactly if the symbols are searched there. -/
private theorem safe_resolve (e : Elf) (opd : Option (Nat → Nat)) (obj : Object) (pc : Nat)
    (ht : obj.tables = some t) : (e.resolve opd obj pc).Safe e.Inside ↔ ∀ j, j < t.nsyms →
      (∀ k, k < j → ¬e.Covers opd obj.bias t (sub64 pc obj.bias) k) →
      e.SymInside opd obj.bias t (sub64 pc obj.bias) j := by
  have hdone (j : Nat) (best : Option (Nat × Nat)) :
      (∃ b, (e.considerSym opd obj.bias t (sub64 pc obj.bias) j best).value = .done b) ↔
        e.Covers opd obj.bias t (sub64 pc obj.bias) j := by
    rw [considerSym_spec.2]
    by_cases hcovers : e.Covers opd obj.bias t (sub64 pc obj.bias) j
    · rw [if_pos hcovers]
      exact iff_of_true ⟨_, rfl⟩ hcovers
    · rw [if_neg hcovers]
      refine iff_of_false (fun ⟨b, hb⟩ => ?_) hcovers
      split at hb <;> cases hb
  have hloop : (loop (e.considerSym opd obj.bias t (sub64 pc obj.bias)) 0 t.nsyms none).Safe e.Inside ↔ ∀ j, 0 ≤ j →
      j < 0 + t.nsyms → (∀ k, 0 ≤ k → k < j → ¬e.Covers opd obj.bias t (sub64 pc obj.bias) k) →
      e.SymInside opd obj.bias t (sub64 pc obj.bias) j := safe_loop (fun _ _ => considerSym_spec.1) hdone
  simp only [Nat.zero_le, true_implies, Nat.zero_add] at hloop
  rw [resolve, ht]
  dsimp only
  rw [safe_bind, hloop]
  refine and_iff_left_of_imp fun h => ?_
  rcases value_search e opd obj.bias t (sub64 pc obj.bias) with ⟨i, hfound, hvalue⟩ | ⟨-, hvalue⟩
  · rw [hvalue]
    dsimp only
    rw [safe_bind, safe_read]
    have hbefore := hfound.before
    exact ⟨(h i hfound.1 hbefore.2).2.2.1 hbefore.1.1, safe_pure _⟩
  · rw [hvalue]
    exact safe_pure _

end symbols

/-! ### A whole lookup -/

section lookup

variable {opd : Option (Nat → Nat)} {fbase pc room i : Nat}

/-- What is read of the file of an object to look `pc` up in it, and to print the name of its function, is of the
file. -/
structure ReadsInside (e : Elf) (opd : Option (Nat → Nat)) (fbase pc room : Nat) : Prop where
  load : (e.load fbase).Safe e.Inside
  trap : (e.isCfiTrap (e.load fbase).value pc).Safe e.Inside
  resolve : (e.resolve opd (e.load fbase).value pc).Safe e.Inside
  name : ∀ name start, (e.resolve opd (e.load fbase).value pc).value = some (name, start) →
    e.Terminated name ∧ (e.putSymbol name room).Safe e.Inside

/-- No sum that is compared with the size of the file wraps, where it matters, and the name that is found ends in the
file. -/
structure Sound (e : Elf) (opd : Option (Nat → Nat)) (fbase pc : Nat) : Prop where
  programHeaders : e.eh ePhoff + e.eh ePhnum * sizeofPhdr < 2 ^ 64
  sectionHeaders : e.eh eShoff + e.eh eShnum * sizeofShdr < 2 ^ 64 ∨ 2 ^ 64 ≤ e.eh eShoff + 4 ∧ ¬e.NamesUsed
  names : e.NamesUsed → e.NamesInside
  traps : ∀ i ∈ e.trapsSection, e.sh i shOffset + e.sh i shSize < 2 ^ 64 ∨ e.sh i shSize < 4 ∨
    ∃ j, e.sh i shOffset + j * 4 + 4 ≤ e.size ∧ e.IsTrapAt (e.trapsOf i) (sub64 pc (e.biasAt fbase)) j
  symbols : ∀ i ∈ e.tablesSection, e.sh i shOffset + e.sh i shSize < 2 ^ 64 ∨ e.sh i shSize < sizeofSym ∨
    (2 ^ 64 ≤ e.sh i shOffset + 4 ∧ ¬e.Defined (e.tablesOf i) 0) ∨
    ∃ j, e.sh i shOffset + j * sizeofSym + sizeofSym ≤ e.size ∧
      e.Covers opd (e.biasAt fbase) (e.tablesOf i) (sub64 pc (e.biasAt fbase)) j
  name : ∀ i ∈ e.tablesSection, ∀ j, e.Found opd (e.biasAt fbase) (e.tablesOf i) (sub64 pc (e.biasAt fbase)) j →
    e.Terminated ((e.tablesOf i).strtab + e.sym (e.tablesOf i) j stName)

private theorem trapsSection_passes (h : i ∈ e.trapsSection) : e.Passes i := by
  unfold trapsSection at h
  split at h
  · have htraps := List.find?_some h
    exact (of_decide_eq_true htraps : e.IsTraps i).1.2
  · cases h

private theorem tablesSection_passes (h : i ∈ e.tablesSection) : e.Passes i := by
  have hpasses {wanted : Nat} (hfind : ((List.range (e.eh eShnum)).find? fun i => e.IsTables wanted i) = some i) :
      e.Passes i := by
    have htables := List.find?_some hfind
    exact (of_decide_eq_true htables : e.IsTables wanted i).2.2.2.1
  rcases Option.or_eq_some_iff.1 h with hsymtab | ⟨-, hdynsym⟩
  · exact hpasses hsymtab
  · exact hpasses hdynsym

private theorem safe_load (fbase : Nat) (h64 : sizeofEhdr ≤ e.size) (hsize : e.size < 2 ^ 63)
    (haccepted : e.Accepted) : (e.load fbase).Safe e.Inside ↔ e.eh ePhoff + e.eh ePhnum * sizeofPhdr < 2 ^ 64 ∧
      (e.eh eShoff + e.eh eShnum * sizeofShdr < 2 ^ 64 ∨ 2 ^ 64 ≤ e.eh eShoff + 4 ∧ ¬e.NamesUsed) ∧
      (e.NamesUsed → e.NamesInside) := by
  have hsum := haccepted.2.2.2
  rw [safe_load_iff h64, forall_prop_of_true haccepted, safe_headerVaddr hsize haccepted.2.1]
  refine and_congr_right fun _ => ⟨?_, ?_⟩
  · rintro ⟨htraps, htables⟩
    have hwrap := (safe_findTables hsize hsum).1 htables
    have hnames := (safe_findTraps h64 hsize hsum hwrap).1 htraps
    refine ⟨?_, fun hused => (hnames hused).2⟩
    by_cases hused : e.NamesUsed
    · exact Or.inl (hnames hused).1
    · exact hwrap.imp_right fun h => ⟨h, hused⟩
  · rintro ⟨hsections, hnames⟩
    have hwrap := hsections.imp_right And.left
    refine ⟨(safe_findTraps h64 hsize hsum hwrap).2 fun hused => ⟨?_, hnames hused⟩,
      (safe_findTables hsize hsum).2 hwrap⟩
    exact hsections.resolve_right fun h => h.2 hused

private theorem safe_isCfiTrap (pc : Nat) (hsize : e.size < 2 ^ 63) {obj : Object}
    (hobj : obj.traps = e.trapsSection.map e.trapsOf) :
    (e.isCfiTrap obj pc).Safe e.Inside ↔ ∀ i ∈ e.trapsSection, e.sh i shOffset + e.sh i shSize < 2 ^ 64 ∨
    e.sh i shSize < 4 ∨
      ∃ j, e.sh i shOffset + j * 4 + 4 ≤ e.size ∧ e.IsTrapAt (e.trapsOf i) (sub64 pc obj.bias) j := by
  rw [isCfiTrap, hobj]
  cases htraps : e.trapsSection with
  | none => exact iff_of_true (safe_pure _) fun i hi => nomatch hi
  | some i =>
    have hstart : (e.trapsOf i).start < 2 ^ 64 := e.member_lt _ (by decide)
    rw [Option.map_some]
    dsimp only
    rw [safe_bind, and_iff_left (safe_pure _)]
    refine (safe_findTrap hsize hstart (trapsSection_passes htraps)).trans ⟨fun h j hj => ?_, fun h => h i rfl⟩
    cases hj
    exact h

private theorem safe_resolve_iff (opd : Option (Nat → Nat)) (pc : Nat) (hsize : e.size < 2 ^ 63) {obj : Object}
    (hobj : obj.tables = e.tablesSection.map e.tablesOf) :
    (e.resolve opd obj pc).Safe e.Inside ↔ ∀ i ∈ e.tablesSection, e.sh i shOffset + e.sh i shSize < 2 ^ 64 ∨
      e.sh i shSize < sizeofSym ∨ (2 ^ 64 ≤ e.sh i shOffset + 4 ∧ ¬e.Defined (e.tablesOf i) 0) ∨
      ∃ j, e.sh i shOffset + j * sizeofSym + sizeofSym ≤ e.size ∧
        e.Covers opd obj.bias (e.tablesOf i) (sub64 pc obj.bias) j := by
  cases htables : e.tablesSection with
  | none =>
    rw [htables] at hobj
    rw [resolve, hobj]
    exact iff_of_true (safe_pure _) fun i hi => nomatch hi
  | some i =>
    have hstart : (e.tablesOf i).syms < 2 ^ 64 := e.member_lt _ (by decide)
    have hbytes : e.sh i shSize < 2 ^ 64 := e.member_lt _ (by decide)
    rw [htables] at hobj
    rw [safe_resolve e opd obj pc hobj]
    refine (symsInside_iff hsize hstart hbytes (tablesSection_passes htables)).trans ⟨fun h j hj => ?_,
      fun h => h i rfl⟩
    cases hj
    exact h

/-- The name that is found is that of the symbol that is to be found. -/
private theorem terminated_iff (opd : Option (Nat → Nat)) (pc : Nat) {obj : Object}
    (hobj : obj.tables = e.tablesSection.map e.tablesOf) :
    (∀ name start, (e.resolve opd obj pc).value = some (name, start) → e.Terminated name) ↔
      ∀ i ∈ e.tablesSection, ∀ j, e.Found opd obj.bias (e.tablesOf i) (sub64 pc obj.bias) j →
        e.Terminated ((e.tablesOf i).strtab + e.sym (e.tablesOf i) j stName) := by
  rw [resolve, hobj]
  cases e.tablesSection with
  | none => exact iff_of_true (fun _ _ h => nomatch h) fun i hi => nomatch hi
  | some i =>
    rw [Option.map_some]
    dsimp only
    rw [value_bind]
    rcases value_search e opd obj.bias (e.tablesOf i) (sub64 pc obj.bias) with ⟨k, hfound, hvalue⟩ | ⟨hnone, hvalue⟩
    · rw [hvalue]
      constructor
      · intro h l hl j hj
        cases hl
        rw [hj.unique hfound]
        exact h _ _ rfl
      · intro h name start heq
        cases heq
        exact h i rfl k hfound
    · rw [hvalue]
      refine iff_of_true (fun _ _ h => nomatch h) fun l hl j hj => ?_
      cases hl
      exact absurd hj (hnone j)

/-- A file is loaded and read for a backtrace without a byte from outside of it exactly if it is not accepted, or what
it says of itself is sound. -/
theorem readsInside_iff (h64 : sizeofEhdr ≤ e.size) (hsize : e.size < 2 ^ 63) (opd : Option (Nat → Nat))
    (fbase pc room : Nat) : e.ReadsInside opd fbase pc room ↔ (e.Accepted → e.Sound opd fbase pc) := by
  by_cases haccepted : e.Accepted
  · have hvalue : (e.load fbase).value =
        ⟨e.biasAt fbase, e.trapsSection.map e.trapsOf, e.tablesSection.map e.tablesOf⟩ := by
      rw [value_load, if_pos haccepted]
    have hbias : (e.load fbase).value.bias = e.biasAt fbase := congrArg Object.bias hvalue
    have hload := safe_load fbase h64 hsize haccepted
    have htrap := safe_isCfiTrap pc hsize (congrArg Object.traps hvalue)
    have hresolve := safe_resolve_iff opd pc hsize (congrArg Object.tables hvalue)
    have hname := terminated_iff opd pc (congrArg Object.tables hvalue)
    rw [hbias] at htrap hresolve hname
    rw [forall_prop_of_true haccepted]
    constructor
    · intro h
      obtain ⟨hph, hsh, hnames⟩ := hload.1 h.load
      exact ⟨hph, hsh, hnames, htrap.1 h.trap, hresolve.1 h.resolve, hname.1 fun name start hfound =>
        (h.name name start hfound).1⟩
    · intro h
      refine ⟨hload.2 ⟨h.programHeaders, h.sectionHeaders, h.names⟩, htrap.2 h.traps, hresolve.2 h.symbols, ?_⟩
      intro name start hfound
      have hterminated := hname.2 h.name name start hfound
      exact ⟨hterminated, (safe_putSymbol hsize name room).2 hterminated⟩
  · have hvalue : (e.load fbase).value = ⟨0, none, none⟩ := by rw [value_load, if_neg haccepted]
    refine iff_of_true ⟨?_, ?_, ?_, ?_⟩ fun h => absurd h haccepted
    · exact (safe_load_iff h64 fbase).2 fun h => absurd h haccepted
    · rw [hvalue]
      exact safe_pure _
    · rw [hvalue]
      exact safe_pure _
    · rw [hvalue]
      exact fun _ _ h => nomatch h

/-- A number of `width` bytes, the lowest first. -/
def word (n width : Nat) : List UInt8 := (List.range width).map fun k => UInt8.ofNat (n / 256 ^ k)

/-- The header of a file, with what is read of it. -/
def header (phoff shoff phnum shnum shstrndx : Nat) : List UInt8 :=
  elfMag ++ List.replicate 28 0 ++ word phoff 8 ++ word shoff 8 ++ List.replicate 8 0 ++ word phnum 2 ++ word 0 2 ++
    word shnum 2 ++ word shstrndx 2

def sectionHeader (type offset size link entsize : Nat) : List UInt8 :=
  word 0 4 ++ word type 4 ++ List.replicate 16 0 ++ word offset 8 ++ word size 8 ++ word link 4 ++
    List.replicate 12 0 ++ word entsize 8

/-- A file with the function `f` from 16 to 32. -/
def oneFunction : Elf where
  bytes := header 0 64 0 2 2 ++ sectionHeader SHT_SYMTAB 192 24 1 24 ++ sectionHeader 3 216 2 0 0 ++
    (word 0 4 ++ word STT_FUNC 2 ++ word 1 2 ++ word 16 8 ++ word 16 8) ++ [102, 0]
  order := .little

theorem readsInside_iff_function : oneFunction.ReadsInside none 0 24 64 ∧
    (oneFunction.resolve none (oneFunction.load 0).value 24).value = some (216, 16) := by
  refine ⟨(readsInside_iff (by decide +kernel) (by decide +kernel) none 0 24 64).2 fun _ => ?_, by decide +kernel⟩
  have hused : ¬oneFunction.NamesUsed := by decide +kernel
  have htraps : oneFunction.trapsSection = none := by decide +kernel
  have htables : oneFunction.tablesSection = some 0 := by decide +kernel
  refine ⟨by decide +kernel, Or.inl (by decide +kernel), fun h => absurd h hused, fun i hi => ?_,
    fun i hi => Or.inl ?_, fun i hi j hj => ?_⟩
  · rw [htraps] at hi
    cases hi
  · rw [htables] at hi
    cases hi
    decide +kernel
  · rw [htables] at hi
    cases hi
    have hcount : (oneFunction.tablesOf 0).nsyms = 1 := by decide +kernel
    have hzero : j = 0 := Nat.lt_one_iff.1 (hcount ▸ hj.1)
    subst hzero
    exact ⟨217, by decide +kernel, by decide +kernel, by decide +kernel⟩

/-- The end of one program header, 56 bytes before the file, wraps to the start of the file. -/
def wrapping : Elf where
  bytes := header (2 ^ 64 - 56) 1 1 0 0
  order := .little

theorem wrapping_not_inside : sizeofEhdr ≤ wrapping.size ∧ ¬wrapping.ReadsInside none 0 0 64 := by
  refine ⟨by decide +kernel, fun h => ?_⟩
  have hload := (safe_load 0 (by decide +kernel) (by decide +kernel) (by decide +kernel)).1 h.load
  exact absurd hload.1 (by decide +kernel)

end lookup

end Sppc.Backtrace.Elf
