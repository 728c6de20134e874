import Sppc.Search
import Sppc.Utf8
import Sppc.Windows.ConsoleIn
import Sppc.Windows.Copies

/-!
# Text as Windows has it (`platform/windows.h`)

The strings that cross to Windows' calls, and those that come back.
-/

namespace Sppc.Windows

def SPPC_ERANGE : Nat := 34
def SPPC_EILSEQ : Nat := 84

/-- A string of wide characters. -/
structure WString where
  units : List UInt16
  noEnd : 0 ∉ units
  deriving DecidableEq, Repr

/-- Characters as wide characters. -/
def wide (cs : List Char) : List UInt16 := cs.flatMap Utf16.encode

private theorem toNat_of_zero_mem_encode {c : Char} (h : 0 ∈ Utf16.encode c) : c.toNat = 0 := by
  have hvalid : c.toNat < 0xD800 ∨ 0xDFFF < c.toNat ∧ c.toNat < 0x110000 := c.valid
  have hunit {n : Nat} (hn : n < 65536) (h : (0 : UInt16) = UInt16.ofNat n) : n = 0 := by
    have hnat := congrArg UInt16.toNat h
    rw [UInt16.toNat_ofNat_of_lt' hn] at hnat
    exact hnat.symm
  unfold Utf16.encode at h
  split at h
  · exact hunit (by omega) (List.mem_singleton.1 h)
  · rcases List.mem_cons.1 h with h | h
    · have hfirst := hunit (by omega) h
      omega
    · have hsecond := hunit (by omega) (List.mem_singleton.1 h)
      omega

/-- The end is not among the wide characters of a string. -/
private theorem wide_noEnd {bytes : List UInt8} {cs : List Char} (h : Utf8.decode bytes = some cs)
    (hbytes : 0 ∉ bytes) : 0 ∉ wide cs := by
  obtain rfl := Utf8.decode_eq_some_iff.1 h
  intro hmem
  obtain ⟨c, hc, hunit⟩ := List.mem_flatMap.1 hmem
  obtain rfl : c = Char.ofNat 0 := by rw [← toNat_of_zero_mem_encode hunit, Char.ofNat_toNat]
  exact hbytes (List.mem_flatMap.2 ⟨_, hc, by decide +kernel⟩)

/-- `MultiByteToWideChar` with `CP_UTF8` and `MB_ERR_INVALID_CHARS`. -/
def multiByteToWideChar (s : CString) : Option WString :=
  match h : Utf8.decode s.chars with
  | none => none
  | some cs => some ⟨wide cs, wide_noEnd h s.noEnd⟩

/-- `_sppc_win_wpath`, where there is memory for what it makes or there is not. -/
def sppcWinWpath (path : CString) (malloc : Bool) : Except Nat WString :=
  if path.chars = [] then .error SPPC_ENOENT
  else
    match multiByteToWideChar path with
    | none => .error SPPC_EILSEQ
    | some w => if malloc then .ok w else .error SPPC_ENOMEM

/-- What is written into a buffer with room for a string and its end. -/
def putString (buffer text : List UInt8) : List UInt8 := text ++ 0 :: buffer.drop (text.length + 1)

theorem multiByteToWideChar_eq {s : CString} {cs : List Char} (h : s.chars = Utf8.encode cs) :
    ∃ w, multiByteToWideChar s = some w ∧ w.units = wide cs := by
  unfold multiByteToWideChar
  split
  · rename_i hnone
    rw [h, Utf8.decode_encode] at hnone
    cases hnone
  · rename_i cs' hsome
    rw [h, Utf8.decode_encode] at hsome
    obtain rfl := Option.some.inj hsome
    exact ⟨_, rfl, rfl⟩

theorem multiByteToWideChar_eq_none {s : CString} :
    multiByteToWideChar s = none ↔ ∀ cs, s.chars ≠ Utf8.encode cs := by
  constructor
  · intro h cs hcs
    obtain ⟨w, hw, -⟩ := multiByteToWideChar_eq hcs
    rw [h] at hw
    cases hw
  · intro h
    unfold multiByteToWideChar
    split
    · rfl
    · rename_i cs hsome
      exact absurd (Utf8.decode_eq_some_iff.1 hsome) (h cs)

/-- An error is never taken for success. -/
theorem sppcErrnoWin32_ne_zero (e : WinError) : sppcErrnoWin32 e.code ≠ 0 := by
  have hall : ∀ p ∈ win32Errnos, p.1 ≠ 0 → p.2 ≠ 0 := by decide
  unfold sppcErrnoWin32
  cases hfind : win32Errnos.find? fun p => p.1 = e.code with
  | none => decide
  | some p =>
    have hp : p.1 = e.code := by simpa using List.find?_some hfind
    exact hall p (List.mem_of_find?_eq_some hfind) (hp ▸ e.failed)

/-- Text that crosses to Windows and back is what it was. -/
theorem wideCharToMultiByte_wide (cs : List Char) : wideCharToMultiByte (wide cs) = Utf8.encode cs := by
  rw [wideCharToMultiByte, wide, Utf16.decode_encode, Utf8.encode]

end Sppc.Windows
