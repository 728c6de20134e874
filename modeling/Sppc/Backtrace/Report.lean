import Sppc.Backtrace.Elf
import Sppc.Search

/-!
# The buffer of a crash report (`backtrace/common.h`)

A pointer to a string is the bytes from there on, as far as they may be read.  What is `none` here is out of the
bounds of the report, of a string or of a buffer for digits.
-/

namespace Sppc.Backtrace

def SPPC_BT_BUF_SIZE : Nat := 64 * 1024

/-- The size of a word of the platform. -/
inductive WordSize
  | four | eight
  deriving DecidableEq, Repr

/-- `sizeof(uintptr_t)`, which is that of a `size_t`. -/
def WordSize.sizeof : WordSize → Nat
  | four => 4
  | eight => 8

/-- `_sppc_bt_buf` and `_sppc_bt_len`. -/
structure Report where
  buf : List UInt8
  len : Nat
  deriving DecidableEq

/-! ### Pieces -/

/-- `_sppc_bt_put_n`. -/
def Report.putN (w : WordSize) (r : Report) (s : List UInt8) (n : Nat) : Option Report :=
  let room := (2 ^ (8 * w.sizeof) + SPPC_BT_BUF_SIZE - r.len) % 2 ^ (8 * w.sizeof)
  let take := if n < room then n else room
  if take ≤ s.length ∧ r.len + take ≤ r.buf.length then
    some ⟨r.buf.take r.len ++ s.take take ++ r.buf.drop (r.len + take), r.len + take⟩
  else none

/-- `strlen`. -/
def strlen (s : List UInt8) : Option Nat := s.findIdx? (· = 0)

/-- `_sppc_bt_put`. -/
def Report.put (w : WordSize) (r : Report) (s : List UInt8) : Option Report := do
  let n ← strlen s
  r.putN w s n

/-- `_sppc_bt_put_symbol`. -/
def Report.putSymbol (w : WordSize) (r : Report) (name : List UInt8) : Option Report := do
  let n ← strlen name
  if 18 ≤ n ∧ name[n - 18]? = some 36 ∧ name[n - 17]? = some 104 ∧ ((name.take n).drop (n - 16)).all Elf.isHex then
    r.putN w name (n - 18)
  else r.put w name

/-! ### Digits -/

/-- A buffer that is filled from its end: the index that is filled last, and what is in it from there on. -/
structure Filled where
  i : Nat
  tail : List UInt8

/-- `buf[--i] = c`. -/
def Filled.push (b : Filled) (c : UInt8) : Option Filled :=
  match b.i with
  | 0 => none
  | i + 1 => some ⟨i, c :: b.tail⟩

/-- A loop that puts a digit of `v` and goes on with the others, until there are none. -/
def digitsFrom (low : Nat → UInt8) (others : Nat → Nat) : Nat → List UInt8 → Nat → Option Filled
  | 0, _, _ => none
  | i + 1, tail, v =>
    if others v = 0 then some ⟨i, low v :: tail⟩ else digitsFrom low others i (low v :: tail) (others v)

/-- `"0123456789abcdef"`. -/
def hexDigits : List UInt8 := [48, 49, 50, 51, 52, 53, 54, 55, 56, 57, 97, 98, 99, 100, 101, 102]

/-- `_sppc_bt_put_hex`. -/
def Report.putHex (w : WordSize) (r : Report) (v : BitVec (8 * w.sizeof)) : Option Report := do
  let b ← digitsFrom (fun v => hexDigits.getD (v &&& 0xf) 0) (fun v => v >>> 4) (2 + 2 * w.sizeof + 1 - 1) [0] v.toNat
  let b ← b.push 120
  let b ← b.push 48
  r.put w b.tail

/-- `_sppc_bt_put_dec`. -/
def Report.putDec (w : WordSize) (r : Report) (v : UInt64) : Option Report := do
  let b ← digitsFrom (fun v => UInt8.ofNat (48 + v % 10)) (fun v => v / 10) (21 - 1) [0] v.toNat
  r.put w b.tail

/-! ### Writes -/

/-- What a call to `write` or `WriteFile` gives: how many bytes it wrote, of those it was asked to, or
that it failed. -/
inductive WriteAns
  | wrote (n : Nat)
  | interrupted
  | failed
  deriving DecidableEq, Repr

/-- What has been written by a flush, or by a run, that has returned, or that waits for a write. -/
structure Written where
  report : Report
  out : List UInt8
  returned : Bool
  deriving DecidableEq

/-- The loop of `_sppc_bt_flush`, from `done` on. -/
def Report.flushFrom (windows : Bool) (r : Report) : List WriteAns → Nat → Option Written
  | [], done => if done < r.len then some ⟨r, [], false⟩ else some ⟨{ r with len := 0 }, [], true⟩
  | ans :: answers, done =>
    let asked := if windows then (r.len - done) % 2 ^ 32 else r.len - done
    if done < r.len then
      if done + asked ≤ r.buf.length then
        match ans with
        | .wrote n =>
          if min n asked = 0 then some ⟨{ r with len := 0 }, [], true⟩
          else (r.flushFrom windows answers (done + min n asked)).map fun f =>
            { f with out := (r.buf.drop done).take (min n asked) ++ f.out }
        | .interrupted =>
          -- `WriteFile` has no such failure
          if windows then some ⟨{ r with len := 0 }, [], true⟩ else r.flushFrom windows answers done
        | .failed => some ⟨{ r with len := 0 }, [], true⟩
      else none
    else some ⟨{ r with len := 0 }, [], true⟩

/-- `_sppc_bt_flush`. -/
def Report.flush (windows : Bool) (r : Report) (answers : List WriteAns) : Option Written :=
  r.flushFrom windows answers 0

/-! ### Runs -/

/-- A call on the report, with what it is given or how its writes go. -/
inductive ReportCall (w : WordSize)
  | putN (s : List UInt8) (n : Nat) (h : n ≤ s.length)
  | put (s : CString)
  | putSymbol (name : CString)
  | putHex (v : BitVec (8 * w.sizeof))
  | putDec (v : UInt64)
  | flush (answers : List WriteAns)

variable {w : WordSize}

/-- A call. -/
def Report.call (windows : Bool) (r : Report) : ReportCall w → Option Written
  | .putN s n _ => (r.putN w s n).map fun r => ⟨r, [], true⟩
  | .put s => (r.put w s.bytes).map fun r => ⟨r, [], true⟩
  | .putSymbol name => (r.putSymbol w name.bytes).map fun r => ⟨r, [], true⟩
  | .putHex v => (r.putHex w v).map fun r => ⟨r, [], true⟩
  | .putDec v => (r.putDec w v).map fun r => ⟨r, [], true⟩
  | .flush answers => r.flush windows answers

/-- Calls, one after the other, up to one that waits. -/
def Report.calls (windows : Bool) (r : Report) : List (ReportCall w) → Option Written
  | [] => some ⟨r, [], true⟩
  | c :: cs =>
    match r.call windows c with
    | none => none
    | some f =>
      if f.returned then (f.report.calls windows cs).map fun g => { g with out := f.out ++ g.out } else some f

/-! ### What a run puts -/

/-- The digits of a number, as bytes. -/
def digitBytes (base n : Nat) : List UInt8 := (Nat.toDigits base n).map fun c => UInt8.ofNat c.toNat

/-- The name ends in `$h` and 16 lowercase hex digits. -/
def HasHash (name : List UInt8) : Prop :=
  ∃ stem hash, name = stem ++ 36 :: 104 :: hash ∧ hash.length = 16 ∧ ∀ c ∈ hash, Elf.isHex c

section hash

variable {name : List UInt8}

private theorem hasHash_iff :
    HasHash name ↔ 18 ≤ name.length ∧ name[name.length - 18]? = some 36 ∧ name[name.length - 17]? = some 104 ∧
      (name.drop (name.length - 16)).all Elf.isHex := by
  constructor
  · rintro ⟨stem, hash, rfl, hlength, hhex⟩
    have hname : (stem ++ 36 :: 104 :: hash).length = stem.length + 18 := by simp [hlength]
    rw [hname]
    refine ⟨by omega, ?_, ?_, ?_⟩
    · simp
    · rw [show stem.length + 18 - 17 = stem.length + 1 by omega, List.getElem?_append_right (by omega)]
      simp
    · rw [show stem.length + 18 - 16 = stem.length + 2 by omega, List.drop_length_add_append]
      exact List.all_eq_true.2 hhex
  · rintro ⟨hlength, hdollar, hh, hhex⟩
    refine ⟨name.take (name.length - 18), name.drop (name.length - 16), ?_, ?_, ?_⟩
    · have hdollar' : name.drop (name.length - 18) = 36 :: name.drop (name.length - 17) := by
        obtain ⟨hlt, hget⟩ := List.getElem?_eq_some_iff.1 hdollar
        rw [List.drop_eq_getElem_cons hlt, hget, show name.length - 18 + 1 = name.length - 17 by omega]
      have hh' : name.drop (name.length - 17) = 104 :: name.drop (name.length - 16) := by
        obtain ⟨hlt, hget⟩ := List.getElem?_eq_some_iff.1 hh
        rw [List.drop_eq_getElem_cons hlt, hget, show name.length - 17 + 1 = name.length - 16 by omega]
      rw [← hh', ← hdollar', List.take_append_drop]
    · rw [List.length_drop]
      omega
    · exact List.all_eq_true.1 hhex

instance (name : List UInt8) : Decidable (HasHash name) := decidable_of_iff _ hasHash_iff.symm

end hash

/-- The name without its hash. -/
def withoutHash (name : List UInt8) : List UInt8 := if HasHash name then name.take (name.length - 18) else name

/-- The bytes a call puts. -/
def ReportCall.piece : ReportCall w → List UInt8
  | putN s n _ => s.take n
  | put s => s.chars
  | putSymbol name => withoutHash name.chars
  | putHex v => 48 :: 120 :: digitBytes 16 v.toNat
  | putDec v => digitBytes 10 v.toNat
  | flush _ => []

/-- What has been put since the last flush, after one more call. -/
def ReportCall.after (pieces : List UInt8) : ReportCall w → List UInt8
  | flush _ => []
  | c => pieces ++ c.piece

/-- What a run has put since its last flush. -/
def pending (cs : List (ReportCall w)) : List UInt8 := cs.foldl ReportCall.after []

/-- The report holds the start of the pieces. -/
structure Report.Holds (r : Report) (pieces : List UInt8) : Prop where
  size : r.buf.length = SPPC_BT_BUF_SIZE
  len : r.len = min pieces.length SPPC_BT_BUF_SIZE
  content : r.buf.take r.len = pieces.take SPPC_BT_BUF_SIZE

section put

variable {r : Report} {pieces s tail : List UInt8} {n : Nat}

theorem Report.Holds.len_le (h : r.Holds pieces) : r.len ≤ SPPC_BT_BUF_SIZE := h.len ▸ Nat.min_le_right _ _

private theorem SPPC_BT_BUF_SIZE_lt (w : WordSize) : SPPC_BT_BUF_SIZE < 2 ^ (8 * w.sizeof) := by
  cases w <;> decide

/-- A piece goes behind the others, as far as there is room. -/
theorem putN_spec (w : WordSize) (h : r.Holds pieces) (hn : n ≤ s.length) :
    ∃ r', r.putN w s n = some r' ∧ r'.Holds (pieces ++ s.take n) := by
  have hlen := h.len_le
  have hsize := h.size
  have hword := SPPC_BT_BUF_SIZE_lt w
  have hroom : (2 ^ (8 * w.sizeof) + SPPC_BT_BUF_SIZE - r.len) % 2 ^ (8 * w.sizeof) = SPPC_BT_BUF_SIZE - r.len := by
    rw [Nat.add_sub_assoc hlen, Nat.add_mod_left, Nat.mod_eq_of_lt (by omega)]
  have htake : (if n < SPPC_BT_BUF_SIZE - r.len then n else SPPC_BT_BUF_SIZE - r.len) =
      min n (SPPC_BT_BUF_SIZE - r.len) := by
    split <;> omega
  unfold Report.putN
  simp only [hroom, htake]
  rw [if_pos (by omega)]
  refine ⟨_, rfl, ?_, ?_, ?_⟩
  · simp
    omega
  · have hpieces := h.len
    simp
    omega
  · have hpieces : SPPC_BT_BUF_SIZE - r.len = SPPC_BT_BUF_SIZE - pieces.length := by
      have hmin := h.len
      omega
    have hfront : (r.buf.take r.len ++ s.take (min n (SPPC_BT_BUF_SIZE - r.len))).length =
        r.len + min n (SPPC_BT_BUF_SIZE - r.len) := by
      simp
      omega
    calc
      _ = r.buf.take r.len ++ s.take (min n (SPPC_BT_BUF_SIZE - r.len)) := List.take_left' hfront
      _ = pieces.take SPPC_BT_BUF_SIZE ++ (s.take n).take (SPPC_BT_BUF_SIZE - pieces.length) := by
        rw [h.content, List.take_take, hpieces, Nat.min_comm]
      _ = (pieces ++ s.take n).take SPPC_BT_BUF_SIZE := List.take_append.symm

private theorem strlen_append (hs : 0 ∉ s) : strlen (s ++ 0 :: tail) = some s.length := Occurrences.findIdx?_end hs

theorem put_spec (w : WordSize) (h : r.Holds pieces) (hs : 0 ∉ s) :
    ∃ r', r.put w (s ++ [0]) = some r' ∧ r'.Holds (pieces ++ s) := by
  obtain ⟨r', hput, hholds⟩ := putN_spec w h (s := s ++ [0]) (n := s.length) (by simp)
  rw [List.take_left] at hholds
  refine ⟨r', ?_, hholds⟩
  rw [Report.put, strlen_append hs, Option.bind_eq_bind, Option.bind_some, hput]

theorem putSymbol_spec (w : WordSize) (h : r.Holds pieces) (hs : 0 ∉ s) :
    ∃ r', r.putSymbol w (s ++ [0]) = some r' ∧ r'.Holds (pieces ++ withoutHash s) := by
  unfold Report.putSymbol withoutHash
  rw [strlen_append hs, Option.bind_eq_bind, Option.bind_some, List.take_left]
  have hcond : (18 ≤ s.length ∧ (s ++ [0])[s.length - 18]? = some 36 ∧ (s ++ [0])[s.length - 17]? = some 104 ∧
      (s.drop (s.length - 16)).all Elf.isHex) ↔ HasHash s := by
    rw [hasHash_iff]
    refine and_congr_right fun hlength => ?_
    rw [List.getElem?_append_left (by omega), List.getElem?_append_left (by omega)]
  by_cases hhash : HasHash s
  · obtain ⟨r', hput, hholds⟩ := putN_spec w h (s := s ++ [0]) (n := s.length - 18) (by simp; omega)
    rw [List.take_append_of_le_length (by omega)] at hholds
    rw [if_pos (hcond.2 hhash), if_pos hhash]
    exact ⟨r', hput, hholds⟩
  · rw [if_neg (mt hcond.1 hhash), if_neg hhash]
    exact put_spec w h hs

end put

section digits

variable {base i v : Nat} {tail : List UInt8} {low : Nat → UInt8} {others : Nat → Nat}

private theorem digitBytes_eq (hbase : 1 < base) (v : Nat) :
    digitBytes base v =
      if v < base then [UInt8.ofNat (Nat.digitChar v).toNat]
      else digitBytes base (v / base) ++ [UInt8.ofNat (Nat.digitChar (v % base)).toNat] := by
  unfold digitBytes
  rw [Nat.toDigits_eq_if hbase]
  split
  · rfl
  · rw [List.map_append, List.map_singleton]

private theorem digitBytes_length_le (hbase : 1 < base) (hi : 0 < i) (hv : v < base ^ i) :
    (digitBytes base v).length ≤ i := by
  rw [digitBytes, List.length_map]
  exact (Nat.length_toDigits_le_iff hbase hi).2 hv

/-- No digit ends a string. -/
private theorem zero_notMem_digitBytes (hbase : 1 < base) (h16 : base ≤ 16) (v : Nat) : 0 ∉ digitBytes base v := by
  have hdigit : ∀ d < 16, UInt8.ofNat (Nat.digitChar d).toNat ≠ 0 := by decide
  induction v using Nat.strong_induction_on with
  | _ v ih =>
    rw [digitBytes_eq hbase]
    split
    · rename_i hlt
      rw [List.mem_singleton]
      exact (hdigit v (by omega)).symm
    · rename_i hle
      have hmod := Nat.mod_lt v (Nat.lt_of_succ_lt hbase)
      rw [List.mem_append, List.mem_singleton, not_or]
      exact ⟨ih (v / base) (Nat.div_lt_self (by omega) hbase), (hdigit _ (by omega)).symm⟩

/-- The loop puts the digits of the value, if the buffer has as many. -/
private theorem digitsFrom_spec (hbase : 1 < base) (hlow : ∀ v, low v = UInt8.ofNat (Nat.digitChar (v % base)).toNat)
    (hothers : ∀ v, others v = v / base) (hi : 0 < i) (hv : v < base ^ i) :
    digitsFrom low others i tail v = some ⟨i - (digitBytes base v).length, digitBytes base v ++ tail⟩ := by
  induction i generalizing v tail with
  | zero => omega
  | succ i ih =>
    rw [digitsFrom, hothers, digitBytes_eq hbase, hlow]
    have hiff : v / base = 0 ↔ v < base := Nat.div_eq_zero_iff_lt (Nat.lt_of_succ_lt hbase)
    by_cases hlt : v < base
    · rw [if_pos (hiff.2 hlt), if_pos hlt, Nat.mod_eq_of_lt hlt]
      rfl
    · rw [if_neg (mt hiff.1 hlt), if_neg hlt, ih, List.length_append, List.length_singleton, List.append_assoc]
      · rw [Nat.add_sub_add_right]
        rfl
      · rcases Nat.eq_zero_or_pos i with rfl | hpos
        · rw [Nat.zero_add, Nat.pow_one] at hv
          exact absurd hv hlt
        · exact hpos
      · exact Nat.div_lt_of_lt_mul (by rwa [Nat.pow_succ, Nat.mul_comm] at hv)

end digits

section put

variable {r : Report} {pieces : List UInt8}

example : digitBytes 16 0xbeef = [98, 101, 101, 102] := by decide

theorem putHex_spec (h : r.Holds pieces) (v : BitVec (8 * w.sizeof)) :
    ∃ r', r.putHex w v = some r' ∧ r'.Holds (pieces ++ 48 :: 120 :: digitBytes 16 v.toNat) := by
  have hlow (v : Nat) : hexDigits.getD (v &&& 0xf) 0 = UInt8.ofNat (Nat.digitChar (v % 16)).toNat := by
    have hdigit : ∀ d < 16, hexDigits.getD d 0 = UInt8.ofNat (Nat.digitChar d).toNat := by decide
    rw [show v &&& 0xf = v % 16 from Nat.and_two_pow_sub_one_eq_mod v 4]
    exact hdigit _ (Nat.mod_lt v (by decide))
  have hothers (v : Nat) : v >>> 4 = v / 16 := Nat.shiftRight_eq_div_pow v 4
  have hpos : 0 < 2 * w.sizeof := by cases w <;> decide
  have hv : v.toNat < 16 ^ (2 * w.sizeof) :=
    calc
      _ < 2 ^ (8 * w.sizeof) := v.isLt
      _ = 16 ^ (2 * w.sizeof) := by cases w <;> rfl
  have hlength := digitBytes_length_le (by decide) hpos hv
  have hindex : 2 + 2 * w.sizeof + 1 - 1 - (digitBytes 16 v.toNat).length =
      2 * w.sizeof - (digitBytes 16 v.toNat).length + 1 + 1 := by
    omega
  have hroom : v.toNat < 16 ^ (2 + 2 * w.sizeof + 1 - 1) := hv.trans_le (Nat.pow_le_pow_right (by decide) (by omega))
  have hzero : 0 ∉ 48 :: 120 :: digitBytes 16 v.toNat := by
    simp [zero_notMem_digitBytes]
  unfold Report.putHex
  rw [digitsFrom_spec (by decide) hlow hothers (by omega) hroom, hindex]
  exact put_spec w h hzero

theorem putDec_spec (w : WordSize) (h : r.Holds pieces) (v : UInt64) :
    ∃ r', r.putDec w v = some r' ∧ r'.Holds (pieces ++ digitBytes 10 v.toNat) := by
  have hlow (v : Nat) : UInt8.ofNat (48 + v % 10) = UInt8.ofNat (Nat.digitChar (v % 10)).toNat := by
    have hdigit : ∀ d < 10, UInt8.ofNat (48 + d) = UInt8.ofNat (Nat.digitChar d).toNat := by decide
    exact hdigit _ (Nat.mod_lt v (by decide))
  have hv : v.toNat < 10 ^ 20 := v.toNat_lt.trans (by decide)
  unfold Report.putDec
  rw [digitsFrom_spec (by decide) hlow (fun _ => rfl) (by decide) hv, Option.bind_eq_bind, Option.bind_some]
  exact put_spec w h (zero_notMem_digitBytes (by decide) (by decide) _)

end put

section flush

variable {r : Report} {pieces : List UInt8} {windows : Bool} {answers : List WriteAns} {done : Nat}

/-- A write that writes something, or that is to be made again. -/
def WriteAns.Goes (windows : Bool) : WriteAns → Prop
  | wrote n => 0 < n
  | interrupted => windows = false
  | failed => False

/-- What a flush does, where `rest` is still to be written. -/
structure Flushes (windows : Bool) (r : Report) (answers : List WriteAns) (rest : List UInt8)
    (f : Written) : Prop where
  buf : f.report.buf = r.buf
  empty : f.returned = true → f.report.len = 0
  waits : f.returned = false → f.report = r
  out_le : f.out <+: rest
  whole : (∀ ans ∈ answers, ans.Goes windows) → f.returned = true → f.out = rest

/-- A flush that gives up. -/
private theorem Flushes.gives_up {ans : WriteAns} {rest : List UInt8} (h : ¬ans.Goes windows) :
    Flushes windows r (ans :: answers) rest ⟨{ r with len := 0 }, [], true⟩ :=
  ⟨rfl, fun _ => rfl, nofun, List.nil_prefix, fun hgoes => absurd (hgoes ans List.mem_cons_self) h⟩

/-- A flush that is done. -/
theorem Flushes.ends (h : ¬done < r.len) :
    Flushes windows r answers ((r.buf.take r.len).drop done) ⟨{ r with len := 0 }, [], true⟩ := by
  have hrest : (r.buf.take r.len).drop done = [] := by
    rw [List.drop_eq_nil_iff, List.length_take]
    omega
  rw [hrest]
  exact ⟨rfl, fun _ => rfl, nofun, List.nil_prefix, fun _ _ => rfl⟩

/-- A flush that goes on behind a write that is to be made again. -/
private theorem Flushes.again {ans : WriteAns} {rest : List UInt8} {f : Written}
    (h : Flushes windows r answers rest f) : Flushes windows r (ans :: answers) rest f :=
  { h with whole := fun hgoes => h.whole fun ans hans => hgoes ans (List.mem_cons_of_mem _ hans) }

/-- A flush that goes on behind `k` bytes. -/
theorem Flushes.more {ans : WriteAns} {rest : List UInt8} {f : Written} {k : Nat}
    (h : Flushes windows r answers (rest.drop k) f) :
    Flushes windows r (ans :: answers) rest { f with out := rest.take k ++ f.out } := by
  refine ⟨h.buf, h.empty, h.waits, ?_, fun hgoes hret => ?_⟩
  · obtain ⟨left, hleft⟩ := h.out_le
    exact ⟨left, by rw [List.append_assoc, hleft, List.take_append_drop]⟩
  · have hout := h.whole (fun ans hans => hgoes ans (List.mem_cons_of_mem _ hans)) hret
    rw [hout, List.take_append_drop]

theorem flushFrom_spec (hsize : r.buf.length = SPPC_BT_BUF_SIZE) (hlen : r.len ≤ SPPC_BT_BUF_SIZE)
    (hdone : done ≤ r.len) :
    ∃ f, r.flushFrom windows answers done = some f ∧ Flushes windows r answers ((r.buf.take r.len).drop done) f := by
  induction answers generalizing done with
  | nil =>
    rw [Report.flushFrom]
    split
    · exact ⟨_, rfl, rfl, nofun, fun _ => rfl, List.nil_prefix, nofun⟩
    · rename_i hend
      exact ⟨_, rfl, .ends hend⟩
  | cons ans answers ih =>
    have hasked : (if windows then (r.len - done) % 2 ^ 32 else r.len - done) = r.len - done := by
      have hsmall : r.len - done < 2 ^ 32 := by
        unfold SPPC_BT_BUF_SIZE at hlen
        omega
      rw [Nat.mod_eq_of_lt hsmall, ite_self]
    unfold Report.flushFrom
    simp only [hasked]
    split
    · rename_i hlt
      rw [if_pos (by omega)]
      cases ans with
      | wrote n =>
        dsimp only
        split
        · rename_i hnone
          refine ⟨_, rfl, .gives_up fun hgoes => ?_⟩
          rw [WriteAns.Goes] at hgoes
          omega
        · have hdone' : done + min n (r.len - done) ≤ r.len := by omega
          obtain ⟨f, hf, hflushes⟩ := ih hdone'
          have htaken : (r.buf.drop done).take (min n (r.len - done)) =
              ((r.buf.take r.len).drop done).take (min n (r.len - done)) := by
            rw [List.drop_take, List.take_take, Nat.min_eq_left (Nat.min_le_right _ _)]
          rw [hf, htaken]
          rw [← List.drop_drop] at hflushes
          exact ⟨_, rfl, hflushes.more⟩
      | interrupted =>
        dsimp only
        split
        · rename_i hwindows
          exact ⟨_, rfl, .gives_up (by simp [WriteAns.Goes, hwindows])⟩
        · obtain ⟨f, hf, hflushes⟩ := ih hdone
          exact ⟨f, hf, hflushes.again⟩
      | failed => exact ⟨_, rfl, .gives_up id⟩
    · rename_i hend
      exact ⟨_, rfl, .ends hend⟩

/-- A flush writes what the report holds. -/
theorem flush_spec (windows : Bool) (h : r.Holds pieces) (answers : List WriteAns) :
    ∃ f, r.flush windows answers = some f ∧ Flushes windows r answers (pieces.take SPPC_BT_BUF_SIZE) f := by
  rw [← h.content]
  exact flushFrom_spec h.size h.len_le (Nat.zero_le _)

end flush

section calls

variable {r : Report} {pieces : List UInt8}

/-- `_sppc_bt_buf` and `_sppc_bt_len` as the program starts with them. -/
def Report.start : Report := ⟨List.replicate SPPC_BT_BUF_SIZE 0, 0⟩

theorem Report.start_holds : Report.start.Holds [] := by
  refine ⟨?_, rfl, rfl⟩
  rw [Report.start, List.length_replicate]

theorem holds_nil (hsize : r.buf.length = SPPC_BT_BUF_SIZE) (hlen : r.len = 0) : r.Holds [] := by
  refine ⟨hsize, ?_, ?_⟩
  · rw [hlen]
    rfl
  · rw [hlen]
    rfl

/-- A call stays in its bounds, and leaves the report as it was while it waits. -/
private theorem call_spec (windows : Bool) (h : r.Holds pieces) (c : ReportCall w) :
    ∃ f, r.call windows c = some f ∧ (f.returned = true → f.report.Holds (c.after pieces)) ∧
      (f.returned = false → f.report = r) := by
  -- the calls that put a piece return
  have hput {put : Option Report} {piece : List UInt8} (hspec : ∃ r', put = some r' ∧ r'.Holds (pieces ++ piece)) :
      ∃ f, put.map (fun r => (⟨r, [], true⟩ : Written)) = some f ∧
        (f.returned = true → f.report.Holds (pieces ++ piece)) ∧ (f.returned = false → f.report = r) := by
    obtain ⟨r', rfl, hholds⟩ := hspec
    exact ⟨_, rfl, fun _ => hholds, nofun⟩
  cases c with
  | putN s n hn => exact hput (putN_spec w h hn)
  | put s => exact hput (put_spec w h s.noEnd)
  | putSymbol name => exact hput (putSymbol_spec w h name.noEnd)
  | putHex v => exact hput (putHex_spec h v)
  | putDec v => exact hput (putDec_spec w h v)
  | flush answers =>
    obtain ⟨f, hf, hflushes⟩ := flush_spec windows h answers
    exact ⟨f, hf, fun hret => holds_nil (hflushes.buf ▸ h.size) (hflushes.empty hret), hflushes.waits⟩

/-- What the report holds is what the calls that are done have put. -/
private theorem calls_spec (windows : Bool) (h : r.Holds pieces) (cs : List (ReportCall w)) :
    ∃ f, r.calls windows cs = some f ∧ ∃ before, before <+: cs ∧ (f.returned = true → before = cs) ∧
      f.report.Holds (before.foldl ReportCall.after pieces) := by
  induction cs generalizing r pieces with
  | nil => exact ⟨_, rfl, [], List.nil_prefix, fun _ => rfl, h⟩
  | cons c cs ih =>
    obtain ⟨f, hf, hreturned, hwaits⟩ := call_spec windows h c
    rw [Report.calls, hf]
    cases hret : f.returned with
    | false =>
      refine ⟨f, by simp [hret], [], List.nil_prefix, fun hret' => ?_, ?_⟩
      · rw [hret] at hret'
        cases hret'
      · rw [hwaits hret]
        exact h
    | true =>
      obtain ⟨g, hg, before, hbefore, hdone, hholds⟩ := ih (hreturned hret)
      refine ⟨{ g with out := f.out ++ g.out }, by simp [hret, hg], c :: before, ?_, ?_, hholds⟩
      · exact List.cons_prefix_cons.2 ⟨rfl, hbefore⟩
      · exact fun hret => congrArg (c :: ·) (hdone hret)

end calls

end Sppc.Backtrace
