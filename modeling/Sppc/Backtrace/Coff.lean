import Sppc.MappedFile

/-!
# The names of functions by COFF symbols (`backtrace/pe.h`)

`_sppc_bt_win_coff_resolve`, on the file of a module that is mapped and the headers of the module in memory.  What is
`none` here reads outside of the file or of the section table, writes outside of the buffer of the name, or does not
end.
-/

namespace Sppc.Backtrace

/-- What is read of the headers in memory: the address of the module, where each section is in it, and what they say
of the symbol table. -/
structure Image where
  module : Nat
  sections : List Nat
  pointerToSymbolTable : Nat
  numberOfSymbols : Nat

def IMAGE_SIZEOF_SYMBOL : Nat := 18
def IMAGE_SYM_CLASS_EXTERNAL : Nat := 2
def IMAGE_SYM_CLASS_STATIC : Nat := 3

/-- `sizeof _sppc_bt_win_name`. -/
def winNameSize : Nat := 512

/-- `IMAGE_SYMBOL`.  The name is eight bytes, or two numbers. -/
structure ImageSymbol where
  shortName : List UInt8
  short : Nat
  long : Nat
  value : Nat
  sectionNumber : Int
  type : Nat
  storageClass : Nat
  numberOfAuxSymbols : Nat
  deriving DecidableEq, Repr

/-- A number of 16 bits with a sign. -/
def signed16 (n : Nat) : Int := if n < 2 ^ 15 then n else n - 2 ^ 16

/-- The symbol in the 18 bytes from an offset on. -/
def ImageSymbol.peek (file : MappedFile) (off : Nat) : ImageSymbol where
  shortName := (List.range 8).map fun k => file.byte (off + k)
  short := file.peek .little off 4
  long := file.peek .little (off + 4) 4
  value := file.peek .little (off + 8) 4
  sectionNumber := signed16 (file.peek .little (off + 12) 2)
  type := file.peek .little (off + 14) 2
  storageClass := file.peek .little (off + 16) 1
  numberOfAuxSymbols := file.peek .little (off + 17) 1

/-- `memcpy` of it. -/
def ImageSymbol.read (file : MappedFile) (off : Nat) : Option ImageSymbol :=
  if file.Inside off IMAGE_SIZEOF_SYMBOL then some (.peek file off) else none

/-- `ISFCN`. -/
def isFcn (type : Nat) : Bool := type &&& 0x30 = 2 <<< 4

/-- An external or static function of an existing section. -/
def ImageSymbol.isFunction (sym : ImageSymbol) (nsections : Nat) : Bool :=
  (sym.storageClass = IMAGE_SYM_CLASS_EXTERNAL ∨ sym.storageClass = IMAGE_SYM_CLASS_STATIC) ∧ isFcn sym.type ∧
    0 < sym.sectionNumber ∧ sym.sectionNumber ≤ nsections

namespace Image

/-- Where the symbol `i` is in the file. -/
def offset (img : Image) (i : Nat) : Nat := img.pointerToSymbolTable + i * IMAGE_SIZEOF_SYMBOL

/-- Where the symbols end, and the strings start. -/
def strings (img : Image) : Nat := img.offset img.numberOfSymbols

/-- The best function until now, after a symbol: where it starts, and which it is. -/
def consider (img : Image) (pc : Nat) (sym : ImageSymbol) (i best : Nat) (found : Option Nat) :
    Option (Nat × Option Nat) :=
  if sym.isFunction img.sections.length then
    match img.sections[(sym.sectionNumber - 1).toNat]? with
    | none => none
    | some virtualAddress =>
      let start := (img.module + virtualAddress + sym.value) % 2 ^ 64
      if start ≤ pc ∧ best ≤ start then some (start, some i) else some (best, found)
  else some (best, found)

/-- The loop over the symbols, with a counter of 32 bits. -/
def search (file : MappedFile) (img : Image) (pc : Nat) : Nat → Nat → Nat → Option Nat → Option (Nat × Option Nat)
  | 0, _, _, _ => none
  | fuel + 1, i, best, found =>
    if i < img.numberOfSymbols then
      match ImageSymbol.read file (img.offset i) with
      | none => none
      | some sym =>
        match img.consider pc sym i best found with
        | none => none
        | some (best, found) =>
          search file img pc fuel (((i + sym.numberOfAuxSymbols) % 2 ^ 32 + 1) % 2 ^ 32) best found
    else some (best, found)

/-- The loop over a name in the string table of `size` bytes, with so much room in the buffer. -/
def longLength (file : MappedFile) (strings size start : Nat) : Nat → Nat → Option Nat
  | 0, len => if start + len < size then (file.read .little (strings + start + len) 1).map fun _ => len else some len
  | room + 1, len =>
    if start + len < size then
      match file.read .little (strings + start + len) 1 with
      | none => none
      | some c => if c ≠ 0 then longLength file strings size start room (len + 1) else some len
    else some len

/-- `memcpy` into `_sppc_bt_win_name`, and the end of it. -/
def putName (name : List UInt8) : Option (List UInt8) := if name.length < winNameSize then some name else none

/-- The name of a symbol. -/
def nameOf (file : MappedFile) (img : Image) (sym : ImageSymbol) : Option (List UInt8) :=
  if sym.short ≠ 0 then putName (sym.shortName.takeWhile (· ≠ 0))
  else
    match longLength file img.strings (file.size - img.strings) sym.long (winNameSize - 1) 0 with
    | none => none
    | some len => putName ((List.range len).map fun k => file.byte (img.strings + sym.long + k))

/-- The table is of the file, with the size of the strings after it. -/
def HasSymbols (file : MappedFile) (img : Image) : Prop :=
  img.pointerToSymbolTable ≠ 0 ∧ img.numberOfSymbols ≠ 0 ∧ img.strings + 4 ≤ file.size

instance (file : MappedFile) (img : Image) : Decidable (img.HasSymbols file) :=
  inferInstanceAs (Decidable (_ ∧ _ ∧ _))

/-- `_sppc_bt_win_coff_resolve`: the start and the name of the function that `pc` is in. -/
def resolve (file : MappedFile) (img : Image) (pc fuel : Nat) : Option (Option (Nat × List UInt8)) :=
  if img.HasSymbols file then
    match img.search file pc fuel 0 0 none with
    | none => none
    | some (_, none) => some none
    | some (best, some i) =>
      match ImageSymbol.read file (img.offset i) with
      | none => none
      | some sym => (img.nameOf file sym).map fun name => some (best, name)
  else some none

/-! ### What is to be found -/

variable {file : MappedFile} {img : Image} {pc i j best : Nat} {found : Option Nat}

/-- The symbol `i` of the table. -/
def symbol (file : MappedFile) (img : Image) (i : Nat) : ImageSymbol := .peek file (img.offset i)

/-- Where it starts in memory. -/
def start (file : MappedFile) (img : Image) (i : Nat) : Nat :=
  (img.module + img.sections.getD ((img.symbol file i).sectionNumber - 1).toNat 0 + (img.symbol file i).value) % 2 ^
    64

/-- The symbols from `i` on, without the auxiliary records between them. -/
inductive Primary (file : MappedFile) (img : Image) : Nat → Nat → Prop
  | here {k : Nat} : k < img.numberOfSymbols → Primary file img k k
  | next {k l : Nat} : k < img.numberOfSymbols → Primary file img (k + (img.symbol file k).numberOfAuxSymbols + 1) l →
      Primary file img k l

/-- A function at or below `pc`. -/
def IsBelow (file : MappedFile) (img : Image) (pc i : Nat) : Prop :=
  (img.symbol file i).isFunction img.sections.length ∧ img.start file i ≤ pc

/-- A primary symbol that is one. -/
def Candidate (file : MappedFile) (img : Image) (pc i : Nat) : Prop := Primary file img 0 i ∧ img.IsBelow file pc i

/-- The name of a symbol: of its own bytes, or of the strings as far as they go and the buffer has room. -/
def nameIn (file : MappedFile) (img : Image) (sym : ImageSymbol) : List UInt8 :=
  if sym.short ≠ 0 then sym.shortName.takeWhile (· ≠ 0)
  else ((file.bytes.drop (img.strings + sym.long)).takeWhile (· ≠ 0)).take (winNameSize - 1)

/-- The greatest of the values, and the last place where it is. -/
def LastGreatest (value : Nat → Nat) (P : Nat → Prop) (best : Nat) : Option Nat → Prop
  | none => best = 0 ∧ ∀ j, ¬P j
  | some k => best = value k ∧ P k ∧ ∀ j, P j → value j < value k ∨ value j = value k ∧ j ≤ k

private theorem LastGreatest.congr {value : Nat → Nat} {P Q : Nat → Prop} (hPQ : ∀ j, P j ↔ Q j)
    (h : LastGreatest value P best found) : LastGreatest value Q best found := by
  rwa [← show P = Q from funext fun j => propext (hPQ j)]

/-- A later place takes over unless its value is less. -/
private theorem LastGreatest.add {value : Nat → Nat} {P : Nat → Prop} (h : LastGreatest value P best found)
    (hP : ∀ j, P j → j < i) (hle : best ≤ value i) :
    LastGreatest value (fun j => P j ∨ j = i) (value i) (some i) := by
  refine ⟨rfl, Or.inr rfl, ?_⟩
  rintro j (hj | rfl)
  · cases found with
    | none => exact absurd hj (h.2 j)
    | some k =>
      obtain ⟨rfl, -, hmax⟩ := h
      have hlt := hP j hj
      rcases hmax j hj with hless | ⟨heq, -⟩ <;> omega
  · exact Or.inr ⟨rfl, Nat.le_refl j⟩

private theorem LastGreatest.keep {value : Nat → Nat} {P : Nat → Prop} (h : LastGreatest value P best found)
    (hlt : value i < best) : LastGreatest value (fun j => P j ∨ j = i) best found := by
  cases found with
  | none =>
    obtain ⟨rfl, -⟩ := h
    exact absurd hlt (Nat.not_lt_zero _)
  | some k =>
    obtain ⟨rfl, hk, hmax⟩ := h
    refine ⟨rfl, Or.inl hk, ?_⟩
    rintro j (hj | rfl)
    · exact hmax j hj
    · exact Or.inl hlt

/-! ### The loop over the symbols -/

private theorem offset_inside (h : img.strings ≤ file.size) (hi : i < img.numberOfSymbols) :
    file.Inside (img.offset i) IMAGE_SIZEOF_SYMBOL := by
  apply MappedFile.inside_of_le
  refine le_trans ?_ h
  unfold strings offset IMAGE_SIZEOF_SYMBOL
  omega

private theorem read_symbol (h : img.strings ≤ file.size) (hi : i < img.numberOfSymbols) :
    ImageSymbol.read file (img.offset i) = some (img.symbol file i) := if_pos (offset_inside h hi)

private theorem Primary.lt (h : Primary file img i j) : j < img.numberOfSymbols := by
  induction h with
  | here hlt => exact hlt
  | next _ _ ih => exact ih

private theorem aux_lt (file : MappedFile) (img : Image) (i : Nat) : (img.symbol file i).numberOfAuxSymbols < 256 :=
  ByteOrder.load_lt .little file.byte _ 1

private theorem consider_spec (pc : Nat) {P : Nat → Prop} (hbest : LastGreatest (img.start file) P best found)
    (hP : ∀ j, P j → j < i) :
    ∃ best' found', img.consider pc (img.symbol file i) i best found = some (best', found') ∧
      LastGreatest (img.start file) (fun j => P j ∨ (j = i ∧ img.IsBelow file pc i)) best' found' := by
  have hskip (hnot : ¬img.IsBelow file pc i) :
      LastGreatest (img.start file) (fun j => P j ∨ (j = i ∧ img.IsBelow file pc i)) best found :=
    hbest.congr fun j => ⟨Or.inl, fun h => h.resolve_right fun h => hnot h.2⟩
  unfold consider
  by_cases hfunction : (img.symbol file i).isFunction img.sections.length
  · rw [if_pos hfunction]
    obtain ⟨-, -, hpos, hsection⟩ := of_decide_eq_true hfunction
    have hlt : ((img.symbol file i).sectionNumber - 1).toNat < img.sections.length := by omega
    rw [List.getElem?_eq_getElem hlt]
    have hstart : (img.module + img.sections[((img.symbol file i).sectionNumber - 1).toNat] +
      (img.symbol file i).value) % 2 ^ 64 =
        img.start file i := by
      rw [start, List.getD_eq_getElem _ _ hlt]
    dsimp only
    rw [hstart]
    by_cases htake : img.start file i ≤ pc ∧ best ≤ img.start file i
    · rw [if_pos htake]
      refine ⟨_, _, rfl, (hbest.add hP htake.2).congr fun j => or_congr_right ?_⟩
      exact (and_iff_left (⟨hfunction, htake.1⟩ : img.IsBelow file pc i)).symm
    · rw [if_neg htake]
      refine ⟨_, _, rfl, ?_⟩
      by_cases hbelow : img.start file i ≤ pc
      · have hless : img.start file i < best := Nat.lt_of_not_le fun hle => htake ⟨hbelow, hle⟩
        refine (hbest.keep hless).congr fun j => or_congr_right ?_
        exact (and_iff_left (⟨hfunction, hbelow⟩ : img.IsBelow file pc i)).symm
      · exact hskip fun h => hbelow h.2
  · rw [if_neg hfunction]
    exact ⟨_, _, rfl, hskip fun h => hfunction h.1⟩

/-- The loop ends, reads what it may, and finds the last of the functions that start nearest below. -/
private theorem search_spec (pc : Nat) (hstrings : img.strings ≤ file.size)
    (hcount : img.numberOfSymbols + 256 ≤ 2 ^ 32) {P : Nat → Prop} {fuel : Nat}
    (hfuel : img.numberOfSymbols < i + fuel) (hpos : 0 < fuel) (hbest : LastGreatest (img.start file) P best found)
    (hP : ∀ j, P j → j < i) : ∃ best' found', img.search file pc fuel i best found = some (best', found') ∧
      LastGreatest (img.start file) (fun j => P j ∨ (Primary file img i j ∧ img.IsBelow file pc j)) best' found' := by
  induction fuel generalizing i P best found with
  | zero => exact absurd hpos (Nat.lt_irrefl 0)
  | succ fuel ih =>
    rw [search]
    by_cases hi : i < img.numberOfSymbols
    · rw [if_pos hi, read_symbol hstrings hi]
      obtain ⟨best', found', hconsider, hbest'⟩ := consider_spec pc hbest hP
      dsimp only
      rw [hconsider]
      have haux := aux_lt file img i
      have hnext : ((i + (img.symbol file i).numberOfAuxSymbols) % 2 ^ 32 + 1) % 2 ^ 32 =
          i + (img.symbol file i).numberOfAuxSymbols + 1 := by
        rw [Nat.mod_eq_of_lt (by omega), Nat.mod_eq_of_lt (by omega)]
      dsimp only
      rw [hnext]
      have hP' : ∀ j, P j ∨ (j = i ∧ img.IsBelow file pc i) → j < i + (img.symbol file i).numberOfAuxSymbols + 1 := by
        rintro j (hj | ⟨rfl, -⟩)
        · exact lt_of_lt_of_le (hP j hj) (by omega)
        · omega
      obtain ⟨best'', found'', hsearch, hbest''⟩ := ih (by omega) (by omega) hbest' hP'
      refine ⟨best'', found'', hsearch, hbest''.congr fun j => ?_⟩
      rw [or_assoc]
      refine or_congr_right ⟨?_, ?_⟩
      · rintro (⟨rfl, hbelow⟩ | ⟨hprimary, hbelow⟩)
        · exact ⟨.here hi, hbelow⟩
        · exact ⟨.next hi hprimary, hbelow⟩
      · rintro ⟨hprimary, hbelow⟩
        cases hprimary with
        | here => exact Or.inl ⟨rfl, hbelow⟩
        | next _ hprimary => exact Or.inr ⟨hprimary, hbelow⟩
    · rw [if_neg hi]
      refine ⟨best, found, rfl, hbest.congr fun j => ⟨Or.inl, fun h => h.resolve_right ?_⟩⟩
      rintro ⟨hprimary, -⟩
      cases hprimary with
      | here hlt => exact hi hlt
      | next hlt => exact hi hlt

/-! ### The name -/

/-- The loop over a name stops at its end, at the end of the strings or where the buffer has no more room. -/
private theorem longLength_eq {strings start room len : Nat} (hsize : file.size < 2 ^ 32)
    (hstrings : strings ≤ file.size) : longLength file strings (file.size - strings) start room len =
      some (len + (((file.bytes.drop (strings + start + len)).takeWhile (· ≠ 0)).take room).length) := by
  have hread {len : Nat} (hlt : start + len < file.size - strings) :
      file.read .little (strings + start + len) 1 = some (file.byte (strings + start + len)).toNat := by
    rw [MappedFile.read_of_inside (MappedFile.inside_of_le (by omega)), MappedFile.peek_one (by omega)]
  induction room generalizing len with
  | zero =>
    rw [longLength]
    split
    · rename_i hlt
      rw [hread hlt]
      rfl
    · rfl
  | succ room ih =>
    rw [longLength]
    split
    · rename_i hlt
      rw [hread hlt, MappedFile.drop_eq_cons (by omega)]
      dsimp only
      by_cases hend : file.byte (strings + start + len) = 0
      · rw [hend, List.takeWhile_cons_of_neg (by decide)]
        rfl
      · have hne : (file.byte (strings + start + len)).toNat ≠ 0 := fun h => hend (UInt8.toNat_inj.1 h)
        have hkeep : decide (file.byte (strings + start + len) ≠ 0) = true := decide_eq_true hend
        rw [if_pos hne, ih, List.takeWhile_cons, if_pos hkeep, List.take_succ_cons, List.length_cons,
          ← Nat.add_assoc _ len 1]
        congr 1
        omega
    · rename_i hend
      rw [MappedFile.drop_eq_nil (by omega)]
      rfl

/-- The name fits in the buffer. -/
private theorem nameOf_eq (hsize : file.size < 2 ^ 32) (hstrings : img.strings ≤ file.size) (i : Nat) :
    img.nameOf file (img.symbol file i) = some (img.nameIn file (img.symbol file i)) := by
  unfold nameOf nameIn
  split
  · refine if_pos ?_
    have hlength : (img.symbol file i).shortName.length = 8 := by
      rw [symbol, ImageSymbol.peek, List.length_map, List.length_range]
    have hle := (List.takeWhile_prefix (· ≠ 0) (l := (img.symbol file i).shortName)).length_le
    exact lt_of_le_of_lt hle (by rw [hlength]; decide)
  · rw [longLength_eq hsize hstrings, Nat.zero_add, Nat.add_zero]
    dsimp only
    generalize hname :
      ((file.bytes.drop (img.strings + (img.symbol file i).long)).takeWhile (· ≠ 0)).take (winNameSize - 1) = name
    have hprefix : name <+: file.bytes.drop (img.strings + (img.symbol file i).long) :=
      hname ▸ (List.take_prefix _ _).trans (List.takeWhile_prefix _)
    have hroom : name.length < winNameSize := by
      rw [← hname, List.length_take]
      exact lt_of_le_of_lt (Nat.min_le_left _ _) (by decide)
    have hcopy : (List.range name.length).map (fun k => file.byte (img.strings + (img.symbol file i).long + k)) =
        name := by
      rcases Nat.lt_or_ge (img.strings + (img.symbol file i).long) file.size with hlt | hge
      · have hle := hprefix.length_le
        rw [List.length_drop] at hle
        have hinside : img.strings + (img.symbol file i).long + name.length ≤ file.size := by
          unfold MappedFile.size at hlt ⊢
          omega
        rw [MappedFile.map_byte_range hinside]
        exact (List.prefix_iff_eq_take.1 hprefix).symm
      · rw [MappedFile.drop_eq_nil hge] at hprefix
        rw [List.prefix_nil.1 hprefix]
        rfl
    rw [hcopy]
    exact if_pos hroom

/-- `_sppc_bt_win_coff_resolve` ends, reads and writes what it may, and gives NULL exactly if the file has no symbol
table or no function of it is at or below `pc`.  Otherwise it gives the last of those that start nearest, and its
name. -/
theorem resolve_spec (hsize : file.size < 2 ^ 32) (img : Image) (pc : Nat) {fuel : Nat}
    (hfuel : img.numberOfSymbols < fuel) :
    ∃ r, img.resolve file pc fuel = some r ∧ (r = none ↔ ¬img.HasSymbols file ∨ ∀ i, ¬img.Candidate file pc i) ∧
      ∀ best name, r = some (best, name) → ∃ i, img.Candidate file pc i ∧ best = img.start file i ∧
        name = img.nameIn file (img.symbol file i) ∧
        ∀ j, img.Candidate file pc j → img.start file j < best ∨ img.start file j = best ∧ j ≤ i := by
  unfold resolve
  by_cases hsymbols : img.HasSymbols file
  · rw [if_pos hsymbols]
    have hfits := hsymbols.2.2
    have hstrings : img.strings ≤ file.size := by omega
    have hcount : img.numberOfSymbols + 256 ≤ 2 ^ 32 := by
      have hbytes : img.numberOfSymbols * 18 ≤ img.strings := Nat.le_add_left _ _
      omega
    have hnone : LastGreatest (img.start file) (fun _ => False) 0 none := ⟨rfl, fun _ h => h⟩
    have hbefore : ∀ j, False → j < 0 := fun _ h => h.elim
    obtain ⟨best, found, hsearch, hbest⟩ :=
      search_spec pc hstrings hcount (show _ < 0 + fuel by omega) (by omega) hnone hbefore
    have hcandidate : LastGreatest (img.start file) (img.Candidate file pc) best found :=
      hbest.congr fun j => iff_of_eq (false_or _)
    rw [hsearch]
    cases found with
    | none => exact ⟨none, rfl, iff_of_true rfl (Or.inr hcandidate.2), fun _ _ h => nomatch h⟩
    | some i =>
      obtain ⟨rfl, hi, hmax⟩ := hcandidate
      have hlt : i < img.numberOfSymbols := hi.1.lt
      dsimp only
      rw [read_symbol hstrings hlt]
      dsimp only
      rw [nameOf_eq hsize hstrings]
      refine ⟨_, rfl, iff_of_false nofun ?_, ?_⟩
      · rintro (hnot | hnone)
        · exact hnot hsymbols
        · exact hnone i hi
      · intro best name heq
        cases heq
        exact ⟨i, hi, rfl, rfl, hmax⟩
  · rw [if_neg hsymbols]
    exact ⟨none, rfl, iff_of_true rfl (Or.inl hsymbols), fun _ _ h => nomatch h⟩

/-- A file with one symbol from byte 1 on, the function `f` at 16 of the first section, and what comes after it. -/
def oneFunction (rest : List UInt8) : MappedFile where
  bytes := 0 :: ([102, 0, 0, 0, 0, 0, 0, 0] ++ [16, 0, 0, 0] ++ [1, 0] ++ [32, 0] ++ [2] ++ [0]) ++ rest

def oneSection : Image := ⟨0x1000, [0x100], 1, 1⟩

private theorem oneFunction_below {rest : List UInt8} (h : rest ∈ [[], [4, 0, 0, 0]]) :
    oneSection.Candidate (oneFunction rest) 0x1120 0 := by
  have hbelow : ∀ rest ∈ [[], [4, 0, 0, 0]], ((oneSection.symbol (oneFunction rest) 0).isFunction 1 ∧
      oneSection.start (oneFunction rest) 0 ≤ 0x1120) := by decide +kernel
  exact ⟨.here Nat.one_pos, hbelow rest h⟩

theorem resolve_spec_function :
    ∃ best name, oneSection.resolve (oneFunction [4, 0, 0, 0]) 0x1120 2 = some (some (best, name)) := by
  obtain ⟨r, hr, hnull, -⟩ := resolve_spec (show (oneFunction [4, 0, 0, 0]).size < 2 ^ 32 by decide) oneSection 0x1120
    (show oneSection.numberOfSymbols < 2 by decide)
  cases r with
  | none =>
    rcases hnull.1 rfl with hnot | hnone
    · exact absurd (by decide) hnot
    · exact absurd (oneFunction_below (by decide)) (hnone 0)
  | some found => exact ⟨found.1, found.2, hr⟩

/-- Without the size of the strings there are no names, though all of the symbols are there. -/
theorem resolve_without_strings :
    (∀ fuel, oneSection.resolve (oneFunction []) 0x1120 fuel = some none) ∧
      oneSection.Candidate (oneFunction []) 0x1120 0 :=
  ⟨fun _ => if_neg (by decide), oneFunction_below (by decide)⟩

end Image

end Sppc.Backtrace
