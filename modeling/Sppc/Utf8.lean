import Mathlib.Data.List.Basic

/-!
# UTF-8

Bytes to characters, as a decoder does it that takes no bytes but those of characters.
-/

namespace Utf8

/-- The bytes of some characters. -/
def encode (cs : List Char) : List UInt8 := cs.flatMap String.utf8EncodeChar

/-- The characters of some bytes, of which there are `n` at most. -/
def decodeFrom : Nat → List UInt8 → Option (List Char)
  | _, [] => some []
  | 0, _ :: _ => none
  | n + 1, b :: bytes => do
    let c ← (b :: bytes).toByteArray.utf8DecodeChar? 0
    let cs ← decodeFrom n ((b :: bytes).drop c.utf8Size)
    some (c :: cs)

def decode (bytes : List UInt8) : Option (List Char) := decodeFrom bytes.length bytes

theorem encode_cons (c : Char) (cs : List Char) : encode (c :: cs) = String.utf8EncodeChar c ++ encode cs :=
  List.flatMap_cons

private theorem decodeFrom_nil (n : Nat) : decodeFrom n [] = some [] := by cases n <;> rfl

private theorem decodeFrom_cons {n : Nat} {bytes : List UInt8} (hbytes : bytes ≠ []) :
    decodeFrom (n + 1) bytes = (bytes.toByteArray.utf8DecodeChar? 0).bind fun c =>
      (decodeFrom n (bytes.drop c.utf8Size)).map (c :: ·) := by
  cases bytes with
  | nil => exact absurd rfl hbytes
  | cons b bytes =>
    rw [decodeFrom]
    cases (b :: bytes).toByteArray.utf8DecodeChar? 0 with
    | none => rfl
    | some c =>
      simp only [Option.bind_eq_bind, Option.bind_some]
      cases decodeFrom n ((b :: bytes).drop c.utf8Size) <;> rfl

private theorem decodeFrom_encode {n : Nat} (cs : List Char) (hn : (encode cs).length ≤ n) :
    decodeFrom n (encode cs) = some cs := by
  induction cs generalizing n with
  | nil => exact decodeFrom_nil n
  | cons c cs ih =>
    rw [encode_cons, List.length_append, String.length_utf8EncodeChar] at hn
    have hpos := c.utf8Size_pos
    obtain ⟨n, rfl⟩ : ∃ k, n = k + 1 := ⟨n - 1, by omega⟩
    have hne : encode (c :: cs) ≠ [] := by
      rw [encode_cons]
      exact fun h => String.utf8EncodeChar_ne_nil (List.append_eq_nil_iff.1 h).1
    have hfirst : (encode (c :: cs)).toByteArray.utf8DecodeChar? 0 = some c := by
      rw [encode_cons, List.toByteArray_append]
      exact ByteArray.utf8DecodeChar?_utf8EncodeChar_append
    have hrest : (encode (c :: cs)).drop c.utf8Size = encode cs := by
      rw [encode_cons, ← String.length_utf8EncodeChar c, List.drop_left]
    rw [decodeFrom_cons hne, hfirst, Option.bind_some, hrest, ih (by omega)]
    rfl

theorem decode_encode (cs : List Char) : decode (encode cs) = some cs := decodeFrom_encode cs (Nat.le_refl _)

private theorem encode_decodeFrom {n : Nat} {bytes : List UInt8} {cs : List Char} (h : decodeFrom n bytes = some cs) :
    encode cs = bytes := by
  induction n generalizing bytes cs with
  | zero =>
    cases bytes with
    | nil =>
      obtain rfl := Option.some.inj h
      rfl
    | cons b bytes => cases h
  | succ n ih =>
    by_cases hbytes : bytes = []
    · subst hbytes
      obtain rfl := Option.some.inj h
      rfl
    · rw [decodeFrom_cons hbytes] at h
      obtain ⟨c, hc, h⟩ := Option.bind_eq_some_iff.1 h
      obtain ⟨rest, hrest, rfl⟩ := Option.map_eq_some_iff.1 h
      obtain ⟨tail, htail⟩ := ByteArray.exists_of_utf8DecodeChar?_eq_some hc
      have hsplit : bytes = String.utf8EncodeChar c ++ tail.data.toList := by
        simpa using congrArg (fun b : ByteArray => b.data.toList) htail
      rw [encode_cons, ih hrest, hsplit, ← String.length_utf8EncodeChar c, List.drop_left]

/-- The bytes of characters are taken, and no others. -/
theorem decode_eq_some_iff {bytes : List UInt8} {cs : List Char} : decode bytes = some cs ↔ bytes = encode cs :=
  ⟨fun h => (encode_decodeFrom h).symm, fun h => h ▸ decode_encode cs⟩

end Utf8
