import Sppc.Backtrace.Elf

/-!
# What is read to load an ELF file (`backtrace/elf.h`)

What `_sppc_bt_load` makes of a file, and when all that it reads is of the file; and when the name of a function is.
-/

namespace Sppc.Backtrace.Elf

open Reading

variable {e : Elf} {base off n name : Nat} {c : Member}

/-! ### Members and characters -/

@[simp] theorem safe_read : (e.read base c).Safe e.Inside ↔ e.Inside (base + c.start) c.width := MappedFile.safe_get

@[simp] theorem value_char (e : Elf) (off : Nat) : (e.char off).value = e.byte (off % 2 ^ 64) := rfl

@[simp] theorem safe_char : (e.char off).Safe e.Inside ↔ e.Inside off 1 := List.forall_mem_singleton

/-- What starts after the file and does not wrap is not in it. -/
theorem not_inside_of_le (hn : 0 < n) (h : e.size ≤ off) (hoff : off < 2 ^ 64) : ¬e.Inside off n := by
  unfold MappedFile.Inside
  rw [Nat.mod_eq_of_lt hoff]
  omega

private theorem inside_one (h : off % 2 ^ 64 < e.size) : e.Inside off 1 := h

private theorem safe_chars : (e.chars off n).Safe e.Inside ↔ ∀ k, k < n → e.Inside (off + k) 1 := by
  induction n generalizing off with
  | zero => exact iff_of_true (safe_pure _) fun k hk => absurd hk (Nat.not_lt_zero k)
  | succ n ih =>
    rw [chars, safe_bind, safe_char, safe_bind, ih]
    constructor
    · rintro ⟨hfirst, hrest, -⟩ k hk
      cases k with
      | zero => exact hfirst
      | succ k =>
        have hinside := hrest k (by omega)
        rwa [Nat.add_assoc, Nat.add_comm 1 k] at hinside
    · intro h
      refine ⟨h 0 (by omega), fun k hk => ?_, safe_pure _⟩
      rw [Nat.add_assoc, Nat.add_comm 1 k]
      exact h (k + 1) (by omega)

/-! ### Names -/

/-- The name ends in the file. -/
def Terminated (e : Elf) (name : Nat) : Prop := ∃ a, name % 2 ^ 64 ≤ a ∧ a < e.size ∧ e.byte a = 0

/-- Where a name starts in the file, what follows is there too, as far as the file goes. -/
private theorem name_mod (hsize : e.size < 2 ^ 63) {k : Nat} (h : name % 2 ^ 64 + k ≤ e.size) :
    (name + k) % 2 ^ 64 = name % 2 ^ 64 + k := by
  rw [Nat.add_mod, Nat.mod_eq_of_lt (show k < 2 ^ 64 by omega), Nat.mod_eq_of_lt (by omega)]

private theorem value_endsAt (e : Elf) (name k : Nat) :
    (e.endsAt name k).value = if decide (e.byte ((name + k) % 2 ^ 64) = 0) then some k else none := by
  rw [endsAt, value_bind, value_char, value_pure]
  by_cases hend : e.byte ((name + k) % 2 ^ 64) = 0
  · rw [if_pos hend, if_pos (decide_eq_true hend)]
  · rw [if_neg hend, if_neg fun h => hend (of_decide_eq_true h)]

private theorem safe_strlen (hsize : e.size < 2 ^ 63) : (e.strlen name).Safe e.Inside ↔ e.Terminated name := by
  have hstop : (e.strlen name).Safe e.Inside ↔ ∀ j, j < 2 ^ 64 → (∀ k, k < j → e.byte ((name + k) % 2 ^ 64) ≠ 0) →
      e.Inside (name + j) 1 := by
    rw [strlen, safe_bind, safe_first, and_iff_left (safe_pure _)]
    refine forall₂_congr fun j hj => imp_congr (forall₂_congr fun k hk => ?_) ?_
    · rw [value_endsAt]
      by_cases hend : e.byte ((name + k) % 2 ^ 64) = 0
      · exact iff_of_false (by rw [if_pos (decide_eq_true hend)]; exact nofun) fun h => h hend
      · exact iff_of_true (if_neg fun h => hend (of_decide_eq_true h)) hend
    · rw [endsAt, safe_bind, safe_char]
      exact and_iff_left (safe_pure _)
  rw [hstop]
  have hmod := Nat.mod_lt name (show 0 < 2 ^ 64 by decide)
  constructor
  · intro h
    by_contra hnot
    have hnonzero : ∀ a, name % 2 ^ 64 ≤ a → a < e.size → e.byte a ≠ 0 := fun a hle hlt heq => hnot ⟨a, hle, hlt, heq⟩
    -- the first byte after the file is come to
    rcases Nat.lt_or_ge (name % 2 ^ 64) e.size with hlt | hge
    · have hsum : name % 2 ^ 64 + (e.size - name % 2 ^ 64) = e.size := by omega
      have hinside := h (e.size - name % 2 ^ 64) (by omega) fun k hk => by
        rw [name_mod hsize (by omega)]
        exact hnonzero _ (by omega) (by omega)
      unfold MappedFile.Inside at hinside
      rw [name_mod hsize (by omega), hsum] at hinside
      omega
    · have hinside := h 0 (by decide) fun k hk => absurd hk (Nat.not_lt_zero k)
      unfold MappedFile.Inside at hinside
      rw [Nat.add_zero] at hinside
      omega
  · rintro ⟨a, hle, hlt, hzero⟩ j hj hbefore
    have hja : name % 2 ^ 64 + j ≤ a := by
      by_contra hgt
      refine hbefore (a - name % 2 ^ 64) (by omega) ?_
      rw [name_mod hsize (by omega), show name % 2 ^ 64 + (a - name % 2 ^ 64) = a by omega]
      exact hzero
    apply inside_one
    rw [name_mod hsize (by omega)]
    omega

/-- The name is of the file as far as its length goes. -/
private theorem strlen_inside (hsize : e.size < 2 ^ 63) (h : e.Terminated name) {k : Nat}
    (hk : k ≤ (e.strlen name).value) : e.Inside (name + k) 1 := by
  obtain ⟨a, hle, hlt, hzero⟩ := h
  have hvalue : (e.strlen name).value =
      ((List.range (2 ^ 64)).find? fun k => decide (e.byte ((name + k) % 2 ^ 64) = 0)).getD 0 := by
    rw [strlen, value_bind, value_pure, value_first (value_endsAt e name), Option.map_id']
  have hka : name % 2 ^ 64 + k ≤ a := by
    rw [hvalue] at hk
    cases hfind : (List.range (2 ^ 64)).find? fun k => decide (e.byte ((name + k) % 2 ^ 64) = 0) with
    | none =>
      rw [hfind] at hk
      have hzero : k = 0 := Nat.le_zero.1 hk
      omega
    | some l =>
      rw [hfind] at hk
      obtain ⟨-, -, hbefore⟩ := List.find?_range_eq_some.1 hfind
      by_contra hgt
      have hl := hbefore (a - name % 2 ^ 64) (lt_of_lt_of_le (by omega) hk)
      rw [name_mod hsize (by omega), show name % 2 ^ 64 + (a - name % 2 ^ 64) = a by omega, hzero] at hl
      exact absurd hl (by decide)
  apply inside_one
  rw [name_mod hsize (by omega)]
  omega

/-- A name is printed without a byte that is not of the file exactly if it ends there. -/
theorem safe_putSymbol (hsize : e.size < 2 ^ 63) (name room : Nat) :
    (e.putSymbol name room).Safe e.Inside ↔ e.Terminated name := by
  rw [putSymbol, safe_bind, safe_strlen hsize]
  refine and_iff_left_of_imp fun h => ?_
  have hinside {k : Nat} (hk : k ≤ (e.strlen name).value) : e.Inside (name + k) 1 := strlen_inside hsize h hk
  have hhash : (e.hasHash name (e.strlen name).value).Safe e.Inside := by
    unfold hasHash
    split
    · exact safe_pure _
    · rw [safe_bind, safe_char]
      refine ⟨hinside (by omega), ?_⟩
      split
      · exact safe_pure _
      · rw [safe_bind, safe_char]
        refine ⟨hinside (by omega), ?_⟩
        split
        · exact safe_pure _
        · rw [safe_bind, safe_chars]
          refine ⟨fun k hk => ?_, safe_pure _⟩
          rw [Nat.add_assoc]
          exact hinside (by omega)
  rw [safe_bind]
  refine ⟨hhash, ?_⟩
  split
  · exact safe_chars.2 fun k hk => hinside (by omega)
  · rw [safe_bind, safe_strlen hsize]
    exact ⟨h, safe_chars.2 fun k hk => hinside (by omega)⟩

/-! ### What the file says -/

/-- A member of the header of the file, of the program header `i` and of the section header `i`. -/
def eh (e : Elf) (c : Member) : Nat := e.member 0 c
def ph (e : Elf) (i : Nat) (c : Member) : Nat := e.member (e.eh ePhoff + i * sizeofPhdr) c
def sh (e : Elf) (i : Nat) (c : Member) : Nat := e.member (e.eh eShoff + i * sizeofShdr) c

/-- The file looks like ELF to `_sppc_bt_load`. -/
def Accepted (e : Elf) : Prop :=
  (e.chars 0 4).value = elfMag ∧ sum64 (e.eh ePhoff) (e.eh ePhnum * sizeofPhdr) ≤ e.size ∧
    e.eh eShoff ≠ 0 ∧ sum64 (e.eh eShoff) (e.eh eShnum * sizeofShdr) ≤ e.size

/-- The offset and the size of the section `i` pass as lying in the file. -/
def Passes (e : Elf) (i : Nat) : Prop := sum64 (e.sh i shOffset) (e.sh i shSize) ≤ e.size

/-- The names of the sections are looked at. -/
def NamesUsed (e : Elf) : Prop := e.eh eShstrndx < e.eh eShnum ∧ e.Passes (e.eh eShstrndx)

/-- The section of the names. -/
def names (e : Elf) (c : Member) : Nat := e.sh (e.eh eShstrndx) c

/-- The name of the section `i` is compared. -/
def Compared (e : Elf) (i : Nat) : Prop := e.sh i shName < e.names shSize ∧ e.Passes i

/-- The section `i` has the name of the traps' section. -/
def IsTraps (e : Elf) (i : Nat) : Prop :=
  e.Compared i ∧ (e.strncmp (e.names shOffset + e.sh i shName) kcfiTraps (e.names shSize - e.sh i shName)).value =
    true

/-- The section `i` is a symbol table of this type, with its strings. -/
def IsTables (e : Elf) (wanted i : Nat) : Prop :=
  e.sh i shType = wanted ∧ e.sh i shEntsize = sizeofSym ∧ e.sh i shLink < e.eh eShnum ∧ e.Passes i ∧
    e.Passes (e.sh i shLink)

instance (e : Elf) : Decidable e.Accepted := inferInstanceAs (Decidable (_ ∧ _ ∧ _ ∧ _))
instance (e : Elf) (i : Nat) : Decidable (e.Passes i) := inferInstanceAs (Decidable (_ ≤ _))
instance (e : Elf) : Decidable e.NamesUsed := inferInstanceAs (Decidable (_ ∧ _))
instance (e : Elf) (i : Nat) : Decidable (e.Compared i) := inferInstanceAs (Decidable (_ ∧ _))
instance (e : Elf) (i : Nat) : Decidable (e.IsTraps i) := inferInstanceAs (Decidable (_ ∧ _))
instance (e : Elf) (wanted i : Nat) : Decidable (e.IsTables wanted i) :=
  inferInstanceAs (Decidable (_ ∧ _ ∧ _ ∧ _ ∧ _))

/-- The section of the traps: the first with the name. -/
def trapsSection (e : Elf) : Option Nat :=
  if e.NamesUsed then (List.range (e.eh eShnum)).find? fun i => e.IsTraps i else none

/-- The section of the symbols: the first of either type. -/
def tablesSection (e : Elf) : Option Nat :=
  ((List.range (e.eh eShnum)).find? fun i => e.IsTables SHT_SYMTAB i).or
    ((List.range (e.eh eShnum)).find? fun i => e.IsTables SHT_DYNSYM i)

/-- The first segment at the start of the file. -/
def headerSegment (e : Elf) : Option Nat :=
  (List.range (e.eh ePhnum)).find? fun i => e.ph i pType = PT_LOAD ∧ e.ph i pOffset = 0

/-- The bias of an object of this file at `fbase`. -/
def biasAt (e : Elf) (fbase : Nat) : Nat := sub64 fbase ((e.headerSegment.map fun i => e.ph i pVaddr).getD 0)

def trapsOf (e : Elf) (i : Nat) : Traps := ⟨e.sh i shOffset, e.sh i shAddr, e.sh i shSize / 4⟩

def tablesOf (e : Elf) (i : Nat) : Tables :=
  ⟨e.sh i shOffset, e.sh i shSize / sizeofSym, e.sh (e.sh i shLink) shOffset, e.sh (e.sh i shLink) shSize⟩

/-! ### What is loaded -/

private theorem value_read_eh (e : Elf) (c : Member) : (e.read 0 c).value = e.eh c := rfl

private theorem value_read_ph (e : Elf) (i : Nat) (c : Member) :
    (e.read (e.eh ePhoff + i * sizeofPhdr) c).value = e.ph i c := rfl

private theorem value_read_sh (e : Elf) (i : Nat) (c : Member) :
    (e.read (e.eh eShoff + i * sizeofShdr) c).value = e.sh i c := rfl

private theorem value_segmentIn (e : Elf) (i : Nat) : (e.segmentIn (e.eh ePhoff) i).value =
    if decide (e.ph i pType = PT_LOAD ∧ e.ph i pOffset = 0) then some (e.ph i pVaddr) else none := by
  rw [segmentIn, value_bind, value_read_ph]
  by_cases htype : e.ph i pType = PT_LOAD
  · rw [if_pos htype, value_bind, value_read_ph]
    by_cases hoffset : e.ph i pOffset = 0
    · rw [if_pos hoffset, if_pos (decide_eq_true ⟨htype, hoffset⟩)]
      rfl
    · rw [if_neg hoffset, if_neg fun h => hoffset (of_decide_eq_true h).2]
      rfl
  · rw [if_neg htype, if_neg fun h => htype (of_decide_eq_true h).1]
    rfl

private theorem value_headerVaddr (e : Elf) :
    (e.headerVaddr (e.eh ePhoff) (e.eh ePhnum)).value = (e.headerSegment.map fun i => e.ph i pVaddr).getD 0 := by
  rw [headerVaddr, value_bind, value_pure, value_first (value_segmentIn e)]
  rfl

private theorem value_trapsIn (e : Elf) (i : Nat) :
    (e.trapsIn (e.eh eShoff) (e.names shOffset) (e.names shSize) i).value = if decide (e.IsTraps i) then
      some (e.trapsOf i) else none := by
  rw [trapsIn, value_bind, value_read_sh]
  by_cases hname : e.sh i shName < e.names shSize
  · rw [if_neg (Nat.not_le.2 hname), value_bind, value_bind, value_read_sh, value_read_sh]
    by_cases hpasses : e.Passes i
    · rw [if_neg (Nat.not_lt.2 hpasses), value_bind]
      by_cases hsame :
        (e.strncmp (e.names shOffset + e.sh i shName) kcfiTraps (e.names shSize - e.sh i shName)).value = true
      · rw [if_pos hsame, if_pos (decide_eq_true ⟨⟨hname, hpasses⟩, hsame⟩)]
        rfl
      · rw [if_neg hsame, if_neg fun h => hsame (of_decide_eq_true h).2]
        rfl
    · rw [if_pos (Nat.lt_of_not_le hpasses), if_neg fun h => hpasses (of_decide_eq_true h).1.2]
      rfl
  · rw [if_pos (Nat.le_of_not_lt hname), if_neg fun h => hname (of_decide_eq_true h).1.1]
    rfl

private theorem value_findTraps (e : Elf) :
    (e.findTraps (e.eh eShoff) (e.eh eShnum)).value = e.trapsSection.map e.trapsOf := by
  rw [findTraps, trapsSection, value_bind, value_read_eh]
  by_cases hindex : e.eh eShstrndx < e.eh eShnum
  · rw [if_pos hindex, value_bind, value_bind, value_read_sh, value_read_sh]
    by_cases hpasses : sum64 (e.names shOffset) (e.names shSize) ≤ e.size
    · rw [if_pos (show e.NamesUsed from ⟨hindex, hpasses⟩)]
      exact (congrArg value (if_pos hpasses)).trans (value_first (value_trapsIn e))
    · rw [if_neg (show ¬e.NamesUsed from fun h => hpasses h.2)]
      exact congrArg value (if_neg hpasses)
  · rw [if_neg hindex, if_neg (show ¬e.NamesUsed from fun h => hindex h.1)]
    rfl

private theorem value_tablesIn (e : Elf) (wanted i : Nat) : (e.tablesIn (e.eh eShoff) (e.eh eShnum) wanted i).value =
    if decide (e.IsTables wanted i) then some (e.tablesOf i) else none := by
  rw [tablesIn, value_bind, value_read_sh]
  by_cases htype : e.sh i shType = wanted
  · rw [if_neg (not_not.2 htype), value_bind, value_read_sh]
    by_cases hentsize : e.sh i shEntsize = sizeofSym
    · rw [if_neg (not_not.2 hentsize), value_bind, value_read_sh]
      by_cases hlink : e.sh i shLink < e.eh eShnum
      · rw [if_neg (Nat.not_le.2 hlink), value_bind, value_bind, value_read_sh, value_read_sh]
        by_cases hpasses : e.Passes i
        · rw [if_neg (Nat.not_lt.2 hpasses), value_bind, value_bind, value_read_sh, value_read_sh]
          by_cases hstr : e.Passes (e.sh i shLink)
          · rw [if_neg (Nat.not_lt.2 hstr), if_pos (decide_eq_true ⟨htype, hentsize, hlink, hpasses, hstr⟩)]
            rfl
          · rw [if_pos (Nat.lt_of_not_le hstr), if_neg fun h => hstr (of_decide_eq_true h).2.2.2.2]
            rfl
        · rw [if_pos (Nat.lt_of_not_le hpasses), if_neg fun h => hpasses (of_decide_eq_true h).2.2.2.1]
          rfl
      · rw [if_pos (Nat.le_of_not_lt hlink), if_neg fun h => hlink (of_decide_eq_true h).2.2.1]
        rfl
    · rw [if_pos hentsize, if_neg fun h => hentsize (of_decide_eq_true h).2.1]
      rfl
  · rw [if_pos htype, if_neg fun h => htype (of_decide_eq_true h).1]
    rfl

private theorem value_findTables (e : Elf) :
    (e.findTables (e.eh eShoff) (e.eh eShnum)).value = e.tablesSection.map e.tablesOf := by
  have hfirst (wanted : Nat) : (first (e.tablesIn (e.eh eShoff) (e.eh eShnum) wanted) (e.eh eShnum)).value =
      ((List.range (e.eh eShnum)).find? fun i => e.IsTables wanted i).map e.tablesOf :=
      value_first (value_tablesIn e wanted)
  rw [findTables, tablesSection, value_bind, hfirst]
  cases (List.range (e.eh eShnum)).find? fun i => e.IsTables SHT_SYMTAB i with
  | some i => rfl
  | none => exact hfirst SHT_DYNSYM

/-- What `_sppc_bt_load` makes of the file. -/
theorem value_load (e : Elf) (fbase : Nat) : (e.load fbase).value =
    if e.Accepted then ⟨e.biasAt fbase, e.trapsSection.map e.trapsOf, e.tablesSection.map e.tablesOf⟩
    else ⟨0, none, none⟩ := by
  rw [load, value_bind]
  by_cases hident : (e.chars 0 4).value = elfMag
  · rw [if_neg (not_not.2 hident), value_bind, value_bind, value_read_eh, value_read_eh]
    by_cases hph : sum64 (e.eh ePhoff) (e.eh ePhnum * sizeofPhdr) ≤ e.size
    · rw [if_neg (Nat.not_lt.2 hph), value_bind, value_bind, value_read_eh, value_read_eh]
      by_cases hsh : e.eh eShoff ≠ 0 ∧ sum64 (e.eh eShoff) (e.eh eShnum * sizeofShdr) ≤ e.size
      · have haccepted : e.Accepted := ⟨hident, hph, hsh⟩
        have hnot : ¬(e.eh eShoff = 0 ∨ e.size < sum64 (e.eh eShoff) (e.eh eShnum * sizeofShdr)) :=
          not_or.2 ⟨hsh.1, Nat.not_lt.2 hsh.2⟩
        rw [if_pos haccepted, if_neg hnot, value_bind, value_bind, value_bind, value_pure, value_headerVaddr,
          value_findTraps, value_findTables]
        rfl
      · have hfails : e.eh eShoff = 0 ∨ e.size < sum64 (e.eh eShoff) (e.eh eShnum * sizeofShdr) := by
          rw [not_and_or, not_not, Nat.not_le] at hsh
          exact hsh
        rw [if_neg fun h : e.Accepted => hsh h.2.2, if_pos hfails]
        rfl
    · rw [if_neg fun h : e.Accepted => hph h.2.1, if_pos (Nat.lt_of_not_le hph)]
      rfl
  · rw [if_neg fun h : e.Accepted => hident h.1, if_pos hident]
    rfl

/-! ### What is read to load it -/

/-- A name in the file is compared with that of the traps' section, of `n` bytes at most, as far as it is
of the file. -/
def ComparedInside (e : Elf) (off n : Nat) : Prop :=
  ∀ j, j < n → j < kcfiTraps.length → (∀ k, k < j → e.byte ((off + k) % 2 ^ 64) = kcfiTraps.getD k 0) →
    e.Inside (off + j) 1

/-- The names of the sections are compared as far as they are of the file. -/
def NamesInside (e : Elf) : Prop :=
  e.names shOffset + e.names shSize < 2 ^ 64 ∨ ∀ i, i < e.eh eShnum → (∀ k, k < i → ¬e.IsTraps k) → e.Compared i →
    e.ComparedInside (e.names shOffset + e.sh i shName) (e.names shSize - e.sh i shName)

theorem member_lt (e : Elf) (base : Nat) {c : Member} (h : c.width ≤ 8) : e.member base c < 2 ^ 64 :=
  lt_of_lt_of_le (ByteOrder.load_lt e.order e.byte _ c.width) (Nat.pow_le_pow_right (show 0 < 256 by decide) h)

private theorem member_lt_word (e : Elf) (base : Nat) {c : Member} (h : c.width ≤ 2) : e.member base c < 2 ^ 16 :=
  lt_of_lt_of_le (ByteOrder.load_lt e.order e.byte _ c.width) (Nat.pow_le_pow_right (show 0 < 256 by decide) h)

/-- The members of the entries of a table in the file are of the file. -/
private theorem entry_inside {size i : Nat} (h : base + n * size ≤ e.size) (hi : i < n)
    (hc : c.start + c.width ≤ size) : e.Inside (base + i * size + c.start) c.width := by
  have hmul : (i + 1) * size ≤ n * size := Nat.mul_le_mul_right size hi
  rw [Nat.add_mul, Nat.one_mul] at hmul
  exact MappedFile.inside_of_le (by omega)

/-- A table whose end wraps has entries, and the first is after the file where its start does not wrap. -/
private theorem wraps_outside {size k : Nat} (hsize : e.size < 2 ^ 63) (hwraps : 2 ^ 64 ≤ base + n * size)
    (hn : n < 2 ^ 16) (hentry : size ≤ 64) (hstart : base + k < 2 ^ 64) :
    0 < n ∧ ∀ width, 0 < width → ¬e.Inside (base + k) width := by
  have hmul : n * size ≤ 2 ^ 16 * 64 := Nat.mul_le_mul hn.le hentry
  refine ⟨Nat.pos_of_ne_zero ?_, fun width hwidth => not_inside_of_le hwidth (by omega) hstart⟩
  rintro rfl
  rw [Nat.zero_mul] at hwraps
  omega

private theorem safe_strncmp {string : List UInt8} : (e.strncmp off string n).Safe e.Inside ↔
    ∀ j, j < n → j < string.length → (∀ k, k < j → e.byte ((off + k) % 2 ^ 64) = string.getD k 0) →
    e.Inside (off + j) 1 := by
  induction string generalizing off n with
  | nil =>
    rw [strncmp]
    exact iff_of_true (safe_pure _) fun j _ hj => absurd hj (Nat.not_lt_zero j)
  | cons c string ih =>
    cases n with
    | zero =>
      rw [strncmp]
      exact iff_of_true (safe_pure _) fun j hj => absurd hj (Nat.not_lt_zero j)
    | succ n =>
      rw [strncmp, safe_bind, safe_char, value_char]
      constructor
      · rintro ⟨hfirst, hrest⟩ j hj hlength hsame
        cases j with
        | zero => exact hfirst
        | succ j =>
          have hc : e.byte (off % 2 ^ 64) = c := hsame 0 (Nat.succ_pos j)
          rw [if_pos hc, ih] at hrest
          have hinside := hrest j (by omega) (Nat.lt_of_succ_lt_succ hlength) fun k hk => by
            have hk' := hsame (k + 1) (by omega)
            rwa [← Nat.add_assoc, Nat.add_right_comm] at hk'
          rwa [Nat.add_right_comm] at hinside
      · intro h
        refine ⟨h 0 (Nat.succ_pos n) (Nat.succ_pos _) fun k hk => absurd hk (Nat.not_lt_zero k), ?_⟩
        split
        · rename_i hc
          refine ih.2 fun j hj hlength hsame => ?_
          rw [Nat.add_right_comm]
          refine h (j + 1) (by omega) (Nat.succ_lt_succ hlength) fun k hk => ?_
          cases k with
          | zero => exact hc
          | succ k =>
            have hk' := hsame k (by omega)
            rwa [Nat.add_right_comm] at hk'
        · exact safe_pure _

private theorem safe_segmentIn {phoff i : Nat}
    (h : ∀ c : Member, c.start + c.width ≤ sizeofPhdr → e.Inside (phoff + i * sizeofPhdr + c.start) c.width) :
    (e.segmentIn phoff i).Safe e.Inside := by
  rw [segmentIn, safe_bind, safe_read]
  refine ⟨h pType (by decide), ?_⟩
  split
  · rw [safe_bind, safe_read]
    refine ⟨h pOffset (by decide), ?_⟩
    split
    · rw [safe_bind, safe_read]
      exact ⟨h pVaddr (by decide), safe_pure _⟩
    · exact safe_pure _
  · exact safe_pure _

/-- The program headers are read in the file exactly if their end does not wrap. -/
theorem safe_headerVaddr (hsize : e.size < 2 ^ 63) (hsum : sum64 (e.eh ePhoff) (e.eh ePhnum * sizeofPhdr) ≤ e.size) :
    (e.headerVaddr (e.eh ePhoff) (e.eh ePhnum)).Safe e.Inside ↔ e.eh ePhoff + e.eh ePhnum * sizeofPhdr < 2 ^ 64 := by
  have hoff : e.eh ePhoff < 2 ^ 64 := e.member_lt 0 (by decide)
  have hnum : e.eh ePhnum < 2 ^ 16 := e.member_lt_word 0 (by decide)
  rw [headerVaddr, safe_bind, and_iff_left (safe_pure _), safe_first]
  constructor
  · intro h
    by_contra hwrap
    obtain ⟨hpos, houtside⟩ := wraps_outside (k := 0) hsize (Nat.le_of_not_lt hwrap) hnum (by decide) hoff
    have hfirst := h 0 hpos fun k hk => absurd hk (Nat.not_lt_zero k)
    rw [segmentIn, safe_bind, safe_read, Nat.zero_mul] at hfirst
    exact houtside pType.width (by decide) hfirst.1
  · intro hno i hi _
    rw [sum64, Nat.mod_eq_of_lt hno] at hsum
    exact safe_segmentIn fun c hc => entry_inside hsum hi hc

/-- The members of the section headers are of the file, but for the name of the first. -/
private theorem section_inside (hsize : e.size < 2 ^ 63)
    (hsum : sum64 (e.eh eShoff) (e.eh eShnum * sizeofShdr) ≤ e.size)
    (hwrap : e.eh eShoff + e.eh eShnum * sizeofShdr < 2 ^ 64 ∨ 2 ^ 64 ≤ e.eh eShoff + 4) {i : Nat}
    (hi : i < e.eh eShnum) (hstart : 4 ≤ c.start) (hc : c.start + c.width ≤ sizeofShdr) :
    e.Inside (e.eh eShoff + i * sizeofShdr + c.start) c.width := by
  rcases Nat.lt_or_ge (e.eh eShoff + e.eh eShnum * sizeofShdr) (2 ^ 64) with hno | hge
  · rw [sum64, Nat.mod_eq_of_lt hno] at hsum
    exact entry_inside hsum hi hc
  · have hoff : e.eh eShoff < 2 ^ 64 := e.member_lt 0 (by decide)
    have hnum : e.eh eShnum < 2 ^ 16 := e.member_lt_word 0 (by decide)
    have hafter : 2 ^ 64 ≤ e.eh eShoff + 4 := hwrap.resolve_left (Nat.not_lt.2 hge)
    unfold sum64 at hsum
    unfold sizeofShdr at hsum hge hc ⊢
    unfold MappedFile.Inside
    omega

private theorem safe_tablesIn {shoff shnum wanted i : Nat} (hi : i < shnum)
    (h : ∀ k (c : Member), k < shnum → 4 ≤ c.start → c.start + c.width ≤ sizeofShdr →
      e.Inside (shoff + k * sizeofShdr + c.start) c.width) :
    (e.tablesIn shoff shnum wanted i).Safe e.Inside := by
  rw [tablesIn, safe_bind, safe_read]
  refine ⟨h i shType hi (by decide) (by decide), ?_⟩
  split
  · exact safe_pure _
  · rw [safe_bind, safe_read]
    refine ⟨h i shEntsize hi (by decide) (by decide), ?_⟩
    split
    · exact safe_pure _
    · rw [safe_bind, safe_read]
      refine ⟨h i shLink hi (by decide) (by decide), ?_⟩
      split
      · exact safe_pure _
      · rename_i hlink
        rw [safe_bind, safe_read, safe_bind, safe_read]
        refine ⟨h i shOffset hi (by decide) (by decide), h i shSize hi (by decide) (by decide), ?_⟩
        split
        · exact safe_pure _
        · have hlink' := Nat.lt_of_not_le hlink
          rw [safe_bind, safe_read, safe_bind, safe_read]
          refine ⟨h _ shOffset hlink' (by decide) (by decide), h _ shSize hlink' (by decide) (by decide), ?_⟩
          split <;> exact safe_pure _

/-- The symbol tables are looked for in the file exactly if the end of the section headers does not wrap, or no more
of them is before the file than the name of the first. -/
theorem safe_findTables (hsize : e.size < 2 ^ 63) (hsum : sum64 (e.eh eShoff) (e.eh eShnum * sizeofShdr) ≤ e.size) :
    (e.findTables (e.eh eShoff) (e.eh eShnum)).Safe e.Inside ↔
      (e.eh eShoff + e.eh eShnum * sizeofShdr < 2 ^ 64 ∨ 2 ^ 64 ≤ e.eh eShoff + 4) := by
  have hoff : e.eh eShoff < 2 ^ 64 := e.member_lt 0 (by decide)
  have hnum : e.eh eShnum < 2 ^ 16 := e.member_lt_word 0 (by decide)
  rw [findTables, safe_bind, safe_first]
  constructor
  · rintro ⟨h, -⟩
    by_contra hwrap
    rw [not_or, Nat.not_lt, Nat.not_le] at hwrap
    obtain ⟨hpos, houtside⟩ := wraps_outside (k := 4) hsize hwrap.1 hnum (by decide) hwrap.2
    have hfirst := h 0 hpos fun k hk => absurd hk (Nat.not_lt_zero k)
    rw [tablesIn, safe_bind, safe_read, Nat.zero_mul] at hfirst
    exact houtside shType.width (by decide) hfirst.1
  · intro hwrap
    have hinside : ∀ k (c : Member), k < e.eh eShnum → 4 ≤ c.start → c.start + c.width ≤ sizeofShdr →
        e.Inside (e.eh eShoff + k * sizeofShdr + c.start) c.width :=
      fun k c hk hstart hc => section_inside hsize hsum hwrap hk hstart hc
    refine ⟨fun i hi _ => safe_tablesIn hi hinside, ?_⟩
    split
    · exact safe_pure _
    · exact safe_first.2 fun i hi _ => safe_tablesIn hi hinside

private theorem safe_trapsIn {i : Nat} (h : ∀ c : Member, 4 ≤ c.start → c.start + c.width ≤ sizeofShdr →
      e.Inside (e.eh eShoff + i * sizeofShdr + c.start) c.width) :
    (e.trapsIn (e.eh eShoff) (e.names shOffset) (e.names shSize) i).Safe e.Inside ↔
      e.Inside (e.eh eShoff + i * sizeofShdr) 4 ∧ (e.Compared i →
        e.ComparedInside (e.names shOffset + e.sh i shName) (e.names shSize - e.sh i shName)) := by
  rw [trapsIn, safe_bind, safe_read, value_read_sh]
  refine and_congr_right fun _ => ?_
  by_cases hname : e.sh i shName < e.names shSize
  · rw [if_neg (Nat.not_le.2 hname), safe_bind, safe_read, safe_bind, safe_read, value_read_sh, value_read_sh,
      and_iff_right (h shOffset (by decide) (by decide)), and_iff_right (h shSize (by decide) (by decide))]
    by_cases hpasses : e.Passes i
    · have hcompared : e.Compared i := ⟨hname, hpasses⟩
      rw [if_neg (Nat.not_lt.2 hpasses), safe_bind, safe_strncmp, forall_prop_of_true hcompared]
      refine and_iff_left ?_
      split
      · rw [safe_bind, safe_read]
        exact ⟨h shAddr (by decide) (by decide), safe_pure _⟩
      · exact safe_pure _
    · rw [if_pos (Nat.lt_of_not_le hpasses)]
      exact iff_of_true (safe_pure _) fun hcompared => absurd hcompared.2 hpasses
  · rw [if_pos (Nat.le_of_not_lt hname)]
    exact iff_of_true (safe_pure _) fun hcompared => absurd hcompared.1 hname

/-- A name that is compared is of the file if the section of the names does not wrap. -/
private theorem comparedInside_of_lt {i : Nat} (hused : e.NamesUsed)
    (hno : e.names shOffset + e.names shSize < 2 ^ 64) (hcompared : e.Compared i) :
    e.ComparedInside (e.names shOffset + e.sh i shName) (e.names shSize - e.sh i shName) := by
  have hpasses : sum64 (e.names shOffset) (e.names shSize) ≤ e.size := hused.2
  rw [sum64, Nat.mod_eq_of_lt hno] at hpasses
  have hname := hcompared.1
  exact fun j hj _ _ => MappedFile.inside_of_le (by omega)

/-- The section of the traps is looked for in the file exactly if it is not looked for, or the end of the section
headers does not wrap and the names are compared in the file. -/
theorem safe_findTraps (h64 : sizeofEhdr ≤ e.size) (hsize : e.size < 2 ^ 63)
    (hsum : sum64 (e.eh eShoff) (e.eh eShnum * sizeofShdr) ≤ e.size)
    (hwrap : e.eh eShoff + e.eh eShnum * sizeofShdr < 2 ^ 64 ∨ 2 ^ 64 ≤ e.eh eShoff + 4) :
    (e.findTraps (e.eh eShoff) (e.eh eShnum)).Safe e.Inside ↔
      (e.NamesUsed → e.eh eShoff + e.eh eShnum * sizeofShdr < 2 ^ 64 ∧ e.NamesInside) := by
  have hoff : e.eh eShoff < 2 ^ 64 := e.member_lt 0 (by decide)
  have hnum : e.eh eShnum < 2 ^ 16 := e.member_lt_word 0 (by decide)
  have hindex : e.Inside (0 + eShstrndx.start) eShstrndx.width := MappedFile.inside_of_le (le_trans (by decide) h64)
  have hinside {k : Nat} (hk : k < e.eh eShnum) (c : Member) (hstart : 4 ≤ c.start)
    (hc : c.start + c.width ≤ sizeofShdr) :
      e.Inside (e.eh eShoff + k * sizeofShdr + c.start) c.width := section_inside hsize hsum hwrap hk hstart hc
  rw [findTraps, safe_bind, safe_read, value_read_eh, and_iff_right hindex]
  by_cases hlt : e.eh eShstrndx < e.eh eShnum
  · rw [if_pos hlt, safe_bind, safe_read, safe_bind, safe_read, value_read_sh, value_read_sh,
      and_iff_right (hinside hlt shOffset (by decide) (by decide)),
      and_iff_right (hinside hlt shSize (by decide) (by decide))]
    by_cases hpasses : e.Passes (e.eh eShstrndx)
    · have hused : e.NamesUsed := ⟨hlt, hpasses⟩
      rw [forall_prop_of_true hused, if_pos (show sum64 _ _ ≤ e.size from hpasses)]
      have hfirst : (first (e.trapsIn (e.eh eShoff) (e.names shOffset) (e.names shSize)) (e.eh eShnum)).Safe
        e.Inside ↔
          ∀ i, i < e.eh eShnum → (∀ k, k < i → ¬e.IsTraps k) → e.Inside (e.eh eShoff + i * sizeofShdr) 4 ∧
          (e.Compared i →
            e.ComparedInside (e.names shOffset + e.sh i shName) (e.names shSize - e.sh i shName)) := by
        rw [safe_first]
        refine forall₂_congr fun i hi => imp_congr (forall₂_congr fun k _ => ?_) (safe_trapsIn (hinside hi))
        rw [value_trapsIn]
        by_cases htraps : e.IsTraps k
        · exact iff_of_false (by rw [if_pos (decide_eq_true htraps)]; exact nofun) fun h => h htraps
        · exact iff_of_true (if_neg fun h => htraps (of_decide_eq_true h)) htraps
      refine hfirst.trans ⟨fun h => ⟨?_, Or.inr fun i hi hbefore => (h i hi hbefore).2⟩, ?_⟩
      · by_contra hge
        obtain ⟨hpos, houtside⟩ := wraps_outside (k := 0) hsize (Nat.le_of_not_lt hge) hnum (by decide) hoff
        have hname := (h 0 hpos fun k hk => absurd hk (Nat.not_lt_zero k)).1
        rw [Nat.zero_mul] at hname
        exact houtside shName.width (by decide) hname
      · rintro ⟨hno, hnames⟩ i hi hbefore
        rw [sum64, Nat.mod_eq_of_lt hno] at hsum
        refine ⟨entry_inside (c := shName) hsum hi (by decide), fun hcompared => ?_⟩
        rcases hnames with hnames | hnames
        · exact comparedInside_of_lt hused hnames hcompared
        · exact hnames i hi hbefore hcompared
    · rw [if_neg (show ¬sum64 _ _ ≤ e.size from hpasses)]
      exact iff_of_true (safe_pure _) fun hused => absurd hused.2 hpasses
  · rw [if_neg hlt]
    exact iff_of_true (safe_pure _) fun hused => absurd hused.1 hlt

/-- `_sppc_bt_load` reads the file only, apart from what it reads of the headers that it has accepted. -/
theorem safe_load_iff (h64 : sizeofEhdr ≤ e.size) (fbase : Nat) : (e.load fbase).Safe e.Inside ↔
    (e.Accepted → (e.headerVaddr (e.eh ePhoff) (e.eh ePhnum)).Safe e.Inside ∧
      (e.findTraps (e.eh eShoff) (e.eh eShnum)).Safe e.Inside ∧
      (e.findTables (e.eh eShoff) (e.eh eShnum)).Safe e.Inside) := by
  have hheader (c : Member) (hc : c.start + c.width ≤ sizeofEhdr) : (e.read 0 c).Safe e.Inside :=
    safe_read.2 (MappedFile.inside_of_le (by rw [Nat.zero_add]; exact hc.trans h64))
  have hident : (e.chars 0 4).Safe e.Inside := safe_chars.2 fun k hk => MappedFile.inside_of_le (by
    unfold sizeofEhdr at h64
    omega)
  rw [load, safe_bind, and_iff_right hident]
  by_cases hmag : (e.chars 0 4).value = elfMag
  · rw [if_neg (not_not.2 hmag), safe_bind, safe_bind, value_read_eh, value_read_eh,
      and_iff_right (hheader ePhoff (by decide)), and_iff_right (hheader ePhnum (by decide))]
    by_cases hph : sum64 (e.eh ePhoff) (e.eh ePhnum * sizeofPhdr) ≤ e.size
    · rw [if_neg (Nat.not_lt.2 hph), safe_bind, safe_bind, value_read_eh, value_read_eh,
        and_iff_right (hheader eShoff (by decide)), and_iff_right (hheader eShnum (by decide))]
      by_cases hsh : e.eh eShoff ≠ 0 ∧ sum64 (e.eh eShoff) (e.eh eShnum * sizeofShdr) ≤ e.size
      · have haccepted : e.Accepted := ⟨hmag, hph, hsh⟩
        have hnot : ¬(e.eh eShoff = 0 ∨ e.size < sum64 (e.eh eShoff) (e.eh eShnum * sizeofShdr)) :=
          not_or.2 ⟨hsh.1, Nat.not_lt.2 hsh.2⟩
        rw [forall_prop_of_true haccepted, if_neg hnot, safe_bind, safe_bind, safe_bind, and_iff_left (safe_pure _)]
      · have hfails : e.eh eShoff = 0 ∨ e.size < sum64 (e.eh eShoff) (e.eh eShnum * sizeofShdr) := by
          rw [not_and_or, not_not, Nat.not_le] at hsh
          exact hsh
        rw [if_pos hfails]
        exact iff_of_true (safe_pure _) fun h => absurd h.2.2 hsh
    · rw [if_pos (Nat.lt_of_not_le hph)]
      exact iff_of_true (safe_pure _) fun h => absurd h.2.1 hph
  · rw [if_pos hmag]
    exact iff_of_true (safe_pure _) fun h => absurd h.1 hmag

end Sppc.Backtrace.Elf
