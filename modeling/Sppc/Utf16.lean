import Mathlib.Data.List.Basic

/-!
# UTF-16

Units to characters, as a decoder does it that takes each half of a pair that has no other half for U+FFFD; and what
comes of units that are decoded in two parts.
-/

namespace Utf16

/-- The first half of a pair. -/
def IsHigh (u : UInt16) : Prop := 0xD800 ≤ u ∧ u ≤ 0xDBFF

/-- The second half of a pair. -/
def IsLow (u : UInt16) : Prop := 0xDC00 ≤ u ∧ u ≤ 0xDFFF

instance IsHigh.decidable (u : UInt16) : Decidable (IsHigh u) := inferInstanceAs (Decidable (_ ∧ _))

instance IsLow.decidable (u : UInt16) : Decidable (IsLow u) := inferInstanceAs (Decidable (_ ∧ _))

/-- The character of a unit that is not in a pair. -/
def single (u : UInt16) : Char := if IsHigh u ∨ IsLow u then Char.ofNat 0xFFFD else Char.ofNat u.toNat

/-- The character of a pair. -/
def pair (u v : UInt16) : Char := Char.ofNat (0x10000 + (u.toNat - 0xD800) * 0x400 + (v.toNat - 0xDC00))

/-- The characters of some units. -/
def decode : List UInt16 → List Char
  | [] => []
  | [u] => [single u]
  | u :: v :: rest => if IsHigh u ∧ IsLow v then pair u v :: decode rest else single u :: decode (v :: rest)

/-- The units of a character. -/
def encode (c : Char) : List UInt16 :=
  if c.toNat < 0x10000 then [UInt16.ofNat c.toNat]
  else [UInt16.ofNat (0xD800 + (c.toNat - 0x10000) / 0x400), UInt16.ofNat (0xDC00 + (c.toNat - 0x10000) % 0x400)]

variable {x y : List UInt16} {u v : UInt16}

private theorem isHigh_iff : IsHigh u ↔ 0xD800 ≤ u.toNat ∧ u.toNat ≤ 0xDBFF := by
  rw [IsHigh, UInt16.le_iff_toNat_le, UInt16.le_iff_toNat_le]
  rfl

private theorem isLow_iff : IsLow u ↔ 0xDC00 ≤ u.toNat ∧ u.toNat ≤ 0xDFFF := by
  rw [IsLow, UInt16.le_iff_toNat_le, UInt16.le_iff_toNat_le]
  rfl

private theorem not_low_of_high (h : IsHigh u) : ¬IsLow u := by
  rw [isHigh_iff] at h
  rw [isLow_iff]
  omega

private theorem decode_pair (hu : IsHigh u) (hv : IsLow v) (rest : List UInt16) :
    decode (u :: v :: rest) = pair u v :: decode rest := by
  rw [decode, if_pos ⟨hu, hv⟩]

private theorem decode_single (h : ¬(IsHigh u ∧ ∃ v ∈ x.head?, IsLow v)) :
    decode (u :: x) = single u :: decode x := by
  cases x with
  | nil => rfl
  | cons v x => rw [decode, if_neg fun hp => h ⟨hp.1, v, rfl, hp.2⟩]

/-- The two parts of some units, where a pair is not cut, are decoded apart. -/
theorem decode_append (h : ¬((∃ u ∈ x.getLast?, IsHigh u) ∧ ∃ v ∈ y.head?, IsLow v)) :
    decode (x ++ y) = decode x ++ decode y := by
  fun_induction decode x with
  | case1 => rfl
  | case2 u =>
    rw [List.singleton_append, List.singleton_append, decode_single]
    rintro ⟨hu, hv⟩
    exact h ⟨⟨u, rfl, hu⟩, hv⟩
  | case3 u v rest hpair ih =>
    rw [List.cons_append, List.cons_append, decode_pair hpair.1 hpair.2, List.cons_append, ih]
    rintro ⟨⟨w, hw, hhigh⟩, hlow⟩
    refine h ⟨⟨w, ?_, hhigh⟩, hlow⟩
    cases rest with
    | nil => cases hw
    | cons z rest => rwa [List.getLast?_cons_cons, List.getLast?_cons_cons]
  | case4 u v rest hpair ih =>
    rw [List.cons_append, List.cons_append, decode, if_neg hpair, List.cons_append]
    congr 1
    apply ih
    rwa [← List.getLast?_cons_cons (a := u)]

/-- A cut pair. -/
theorem decode_cut (hu : IsHigh u) (hv : IsLow v) (x y : List UInt16) :
    decode (x ++ [u]) = decode x ++ [Char.ofNat 0xFFFD] ∧ decode (v :: y) = Char.ofNat 0xFFFD :: decode y ∧
      decode (x ++ u :: v :: y) = decode x ++ pair u v :: decode y := by
  have hbefore (z : List UInt16) : ¬((∃ w ∈ x.getLast?, IsHigh w) ∧ ∃ w ∈ (u :: z).head?, IsLow w) := by
    rintro ⟨-, w, hw, hlow⟩
    obtain rfl := Option.some_inj.1 hw
    exact not_low_of_high hu hlow
  refine ⟨?_, ?_, ?_⟩
  · rw [decode_append (hbefore []), decode, single, if_pos (Or.inl hu)]
  · rw [decode_single fun h => not_low_of_high h.1 hv, single, if_pos (Or.inr hv)]
  · rw [decode_append (hbefore _), decode_pair hu hv]

/-- What was encoded comes back. -/
theorem decode_encode (cs : List Char) : decode (cs.flatMap encode) = cs := by
  induction cs with
  | nil => rfl
  | cons c cs ih =>
    have hvalid : c.toNat < 0xD800 ∨ 0xDFFF < c.toNat ∧ c.toNat < 0x110000 := c.valid
    rw [List.flatMap_cons]
    by_cases hsmall : c.toNat < 0x10000
    · have hnat : (UInt16.ofNat c.toNat).toNat = c.toNat := UInt16.toNat_ofNat_of_lt' hsmall
      have hhigh : ¬IsHigh (UInt16.ofNat c.toNat) := by
        rw [isHigh_iff, hnat]
        omega
      have hlow : ¬IsLow (UInt16.ofNat c.toNat) := by
        rw [isLow_iff, hnat]
        omega
      rw [encode, if_pos hsmall, List.singleton_append, decode_single fun h => hhigh h.1, ih, single,
        if_neg (not_or.2 ⟨hhigh, hlow⟩), hnat, Char.ofNat_toNat]
    · have hu : (UInt16.ofNat (0xD800 + (c.toNat - 0x10000) / 0x400)).toNat = 0xD800 + (c.toNat - 0x10000) / 0x400 :=
        UInt16.toNat_ofNat_of_lt' (show _ < 65536 by omega)
      have hv : (UInt16.ofNat (0xDC00 + (c.toNat - 0x10000) % 0x400)).toNat = 0xDC00 + (c.toNat - 0x10000) % 0x400 :=
        UInt16.toNat_ofNat_of_lt' (show _ < 65536 by omega)
      have hhigh : IsHigh (UInt16.ofNat (0xD800 + (c.toNat - 0x10000) / 0x400)) := by
        rw [isHigh_iff, hu]
        omega
      have hlow : IsLow (UInt16.ofNat (0xDC00 + (c.toNat - 0x10000) % 0x400)) := by
        rw [isLow_iff, hv]
        omega
      rw [encode, if_neg hsmall, List.cons_append, List.singleton_append, decode_pair hhigh hlow, ih, pair, hu, hv]
      have hchar : 0x10000 + (0xD800 + (c.toNat - 0x10000) / 0x400 - 0xD800) * 0x400 +
          (0xDC00 + (c.toNat - 0x10000) % 0x400 - 0xDC00) = c.toNat := by omega
      rw [hchar, Char.ofNat_toNat]

end Utf16
