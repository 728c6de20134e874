import Sppc.Occurrences

/-!
# Searches in memory and in strings (`platform/windows.h`, `platform/common.h`)

`_sppc_memmem` and `_sppc_strrstr`.  A pointer into the haystack is an offset from its start; what is `none` here
reads outside of the haystack, or does not end.
-/

namespace Sppc

open Occurrences

/-- `memchr` of `c` in the `n` bytes from `h` on. -/
def memchr (haystack : List UInt8) (h : Nat) (c : UInt8) (n : Nat) : Option (Option Nat) :=
  if h + n ≤ haystack.length then some (findFrom (fun k => haystack[k]? = some c) h n) else none

/-- Whether `memcmp` of the bytes from `h` on with the needle gives 0. -/
def memcmp (haystack : List UInt8) (h : Nat) (needle : List UInt8) : Option Bool :=
  if h + needle.length ≤ haystack.length then some ((haystack.drop h).take needle.length = needle) else none

/-- The loop of `_sppc_memmem`, from `h` to `last`. -/
def memmemFrom (haystack needle : List UInt8) (first : UInt8) (last : Nat) : Nat → Nat → Option (Option Nat)
  | 0, _ => none
  | fuel + 1, h =>
    if h ≤ last then
      match memchr haystack h first (last - h + 1) with
      | none => none
      | some none => some none
      | some (some hit) =>
        match memcmp haystack hit needle with
        | none => none
        | some true => some (some hit)
        | some false => memmemFrom haystack needle first last fuel (hit + 1)
    else some none

/-- `_sppc_memmem`. -/
def sppcMemmem (haystack needle : List UInt8) (fuel : Nat) : Option (Option Nat) :=
  match needle with
  | [] => some (some 0)
  | first :: _ =>
    if haystack.length < needle.length then some none
    else memmemFrom haystack needle first (haystack.length - needle.length) fuel 0

/-- A string, which ends where its first zero is. -/
structure CString where
  chars : List UInt8
  noEnd : 0 ∉ chars

/-- Its bytes, with the end. -/
def CString.bytes (s : CString) : List UInt8 := s.chars ++ [0]

/-- `strstr` in the string from `p` on. -/
def strstr (haystack : CString) (p : Nat) (needle : CString) : Option (Option Nat) :=
  if p ≤ haystack.chars.length then
    some (findFrom (OccursAt needle.chars haystack.chars) p (haystack.chars.length - p + 1))
  else none

/-- The loop of `_sppc_strrstr`. -/
def strrstrFrom (haystack needle : CString) : Nat → Nat → Option Nat → Option (Option Nat)
  | 0, _, _ => none
  | fuel + 1, p, last =>
    match strstr haystack p needle with
    | none => none
    | some none => some last
    | some (some p) => strrstrFrom haystack needle fuel (p + 1) (some p)

/-- `_sppc_strrstr`. -/
def sppcStrrstr (haystack needle : CString) (fuel : Nat) : Option (Option Nat) :=
  if needle.chars = [] then some (some haystack.chars.length) else strrstrFrom haystack needle fuel 0 none

section memmem

variable {haystack needle : List UInt8} {first : UInt8} {fuel h : Nat}

/-- The bytes `memchr` is asked about are those an occurrence can start at. -/
private theorem memchr_spec (first : UInt8) (hn : needle.length + 1 ≤ haystack.length)
    (hh : h ≤ haystack.length - (needle.length + 1)) :
    ∃ hit, memchr haystack h first (haystack.length - (needle.length + 1) - h + 1) = some hit ∧
      match hit with
      | none => ∀ k, h ≤ k → ¬OccursAt (first :: needle) haystack k
      | some hit => h ≤ hit ∧ hit ≤ haystack.length - (needle.length + 1) ∧
          ∀ k, h ≤ k → k < hit → ¬OccursAt (first :: needle) haystack k := by
  unfold memchr
  rw [if_pos (by omega)]
  cases hfind : findFrom (fun k => haystack[k]? = some first) h (haystack.length - (needle.length + 1) - h + 1) with
  | none =>
    refine ⟨none, rfl, fun k hk hoccurs => ?_⟩
    have hend := hoccurs.le
    rw [List.length_cons] at hend
    exact findFrom_none hfind hk (by omega) hoccurs.head
  | some hit =>
    obtain ⟨hlt, hle, -, hbefore⟩ := findFrom_some hfind
    exact ⟨some hit, rfl, hle, by omega, fun k hk hkh hoccurs => hbefore k hk hkh hoccurs.head⟩

private theorem memcmp_spec (hh : h + needle.length ≤ haystack.length) :
    memcmp haystack h needle = some (decide (OccursAt needle haystack h)) := by
  unfold memcmp
  rw [if_pos hh, decide_eq_decide.2 (occursAt_iff_take hh)]

/-- From any place on, the loop finds the first occurrence. -/
private theorem memmemFrom_spec (hn : needle.length + 1 ≤ haystack.length)
    (hh : h ≤ haystack.length - (needle.length + 1) + 1)
    (hfuel : haystack.length - (needle.length + 1) + 1 < h + fuel) :
    ∃ r, memmemFrom haystack (first :: needle) first (haystack.length - (needle.length + 1)) fuel h = some r ∧
      IsFirst (OccursAt (first :: needle) haystack) h r := by
  induction fuel generalizing h with
  | zero => omega
  | succ fuel ih =>
    rw [memmemFrom]
    split
    · rename_i hlast
      obtain ⟨hit, hmemchr, hspec⟩ := memchr_spec first hn hlast
      rw [hmemchr]
      cases hit with
      | none => exact ⟨none, rfl, hspec⟩
      | some hit =>
        obtain ⟨hle, hhit, hbefore⟩ := hspec
        have hfits : hit + (first :: needle).length ≤ haystack.length := by
          rw [List.length_cons]
          omega
        have hcmp := memcmp_spec hfits
        by_cases hoccurs : OccursAt (first :: needle) haystack hit
        · rw [decide_eq_true hoccurs] at hcmp
          exact ⟨some hit, by simp only [hcmp], hle, hoccurs, hbefore⟩
        · rw [decide_eq_false hoccurs] at hcmp
          obtain ⟨r, hr, hfirst⟩ := ih (h := hit + 1) (by omega) (by omega)
          refine ⟨r, by simp only [hcmp, hr], hfirst.skip (by omega) fun j hj hjh => ?_⟩
          rcases Nat.eq_or_lt_of_le (Nat.le_of_lt_succ hjh) with rfl | hlt
          · exact hoccurs
          · exact hbefore j hj hlt
    · refine ⟨none, rfl, fun k hk hoccurs => ?_⟩
      have hend := hoccurs.le
      rw [List.length_cons] at hend
      omega

/-- `_sppc_memmem` finds the first occurrence. -/
private theorem sppcMemmem_spec (hfuel : haystack.length < fuel) :
    ∃ r, sppcMemmem haystack needle fuel = some r ∧ IsFirst (OccursAt needle haystack) 0 r := by
  cases needle with
  | nil => exact ⟨some 0, rfl, Nat.le_refl 0, occursAt_nil.2 (Nat.zero_le _),
    fun j _ hj => absurd hj (Nat.not_lt_zero j)⟩
  | cons first needle =>
    rw [sppcMemmem]
    split
    · rename_i hshort
      exact ⟨none, rfl, fun k _ hoccurs => absurd hoccurs.le (by omega)⟩
    · rename_i hlong
      rw [List.length_cons] at hlong
      exact memmemFrom_spec (by omega) (Nat.zero_le _) (by omega)

end memmem

section strrstr

variable {haystack needle : CString} {last : Option Nat} {fuel p : Nat}

private theorem strstr_spec (needle : CString) (hp : p ≤ haystack.chars.length) :
    ∃ hit, strstr haystack p needle = some hit ∧ IsFirst (OccursAt needle.chars haystack.chars) p hit := by
  unfold strstr
  rw [if_pos hp]
  cases hfind : findFrom (OccursAt needle.chars haystack.chars) p (haystack.chars.length - p + 1) with
  | none =>
    refine ⟨none, rfl, fun k hk hoccurs => findFrom_none hfind hk ?_ hoccurs⟩
    have hend := hoccurs.1
    omega
  | some k => exact ⟨some k, rfl, (findFrom_some hfind).2⟩

/-- The last occurrence before `p` is what the loop has so far. -/
private theorem strrstrFrom_spec (hneedle : needle.chars ≠ []) (hp : p ≤ haystack.chars.length)
    (hlast : IsLast (fun k => OccursAt needle.chars haystack.chars k ∧ k < p) last)
    (hfuel : haystack.chars.length < p + fuel) :
    ∃ r, strrstrFrom haystack needle fuel p last = some r ∧ IsLast (OccursAt needle.chars haystack.chars) r := by
  induction fuel generalizing p last with
  | zero => omega
  | succ fuel ih =>
    obtain ⟨hit, hstrstr, hfirst⟩ := strstr_spec needle hp
    rw [strrstrFrom, hstrstr]
    cases hit with
    | none =>
      have hbefore {k : Nat} (hoccurs : OccursAt needle.chars haystack.chars k) : k < p :=
        Nat.lt_of_not_le fun hk => hfirst k hk hoccurs
      refine ⟨last, rfl, ?_⟩
      cases last with
      | none => exact fun k hoccurs => hlast k ⟨hoccurs, hbefore hoccurs⟩
      | some k => exact ⟨hlast.1.1, fun j hoccurs => hlast.2 j ⟨hoccurs, hbefore hoccurs⟩⟩
    | some k =>
      obtain ⟨hpk, hoccurs, -⟩ := hfirst
      have hend := hoccurs.le
      have hpos := List.length_pos_iff.2 hneedle
      exact ih (by omega) ⟨⟨hoccurs, Nat.lt_succ_self k⟩, fun j hj => Nat.le_of_lt_succ hj.2⟩ (by omega)

/-- `_sppc_strrstr` finds the last occurrence. -/
private theorem sppcStrrstr_spec (hfuel : haystack.chars.length < fuel) :
    ∃ r, sppcStrrstr haystack needle fuel = some r ∧ IsLast (OccursAt needle.chars haystack.chars) r := by
  unfold sppcStrrstr
  split
  · rename_i hnil
    rw [hnil]
    exact ⟨_, rfl, occursAt_nil.2 (Nat.le_refl _), fun j hj => occursAt_nil.1 hj⟩
  · rename_i hneedle
    exact strrstrFrom_spec hneedle (Nat.zero_le _) (fun k hk => absurd hk.2 (Nat.not_lt_zero k)) (by omega)

end strrstr

/-- Both searches end, read nothing outside of the haystack, and find what they are for. -/
theorem searches_exact :
    (∀ (haystack needle : List UInt8) (fuel : Nat), haystack.length < fuel →
      ∃ r, sppcMemmem haystack needle fuel = some r ∧ IsFirst (OccursAt needle haystack) 0 r) ∧
    ∀ (haystack needle : CString) (fuel : Nat), haystack.chars.length < fuel →
      ∃ r, sppcStrrstr haystack needle fuel = some r ∧ IsLast (OccursAt needle.chars haystack.chars) r :=
  ⟨fun _ _ _ => sppcMemmem_spec, fun _ _ _ => sppcStrrstr_spec⟩

/-- A needle with a zero byte behind a partial hit, and one that overlaps itself. -/
theorem searches_exact_overlap :
    (∃ r, sppcMemmem [97, 97, 0, 98] [97, 0] 5 = some r ∧
      IsFirst (OccursAt ([97, 0] : List UInt8) [97, 97, 0, 98]) 0 r) ∧
    ∃ r, sppcStrrstr ⟨[97, 97, 97], by decide⟩ ⟨[97, 97], by decide⟩ 4 = some r ∧
      IsLast (OccursAt ([97, 97] : List UInt8) [97, 97, 97]) r :=
  ⟨searches_exact.1 _ _ _ (by decide), searches_exact.2 ⟨_, _⟩ ⟨_, _⟩ _ (by decide)⟩

example : sppcMemmem [97, 97, 0, 98] [97, 0] 5 = some (some 1) := by decide

example : sppcStrrstr ⟨[97, 97, 97], by decide⟩ ⟨[97, 97], by decide⟩ 4 = some (some 1) := by decide

end Sppc
