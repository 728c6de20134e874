import Sppc.Utf16

/-!
# Reading from a console (`platform/windows.h`)

`_sppc_console_read`: what is typed comes from Windows in chunks of UTF-16, each of which is converted as a whole and
handed out over as many reads as it takes.
-/

namespace Sppc.Windows

open Utf16

/-- `L'\r'`. -/
def CR : UInt16 := 0x0D

/-- `L'\n'`. -/
def LF : UInt16 := 0x0A

/-- Ctrl+Z. -/
def ctrlZ : UInt16 := 0x1A

/-- The units that the loop keeps: all but a `CR` before an `LF`. -/
def keepUnits : List UInt16 → List UInt16
  | [] => []
  | [u] => [u]
  | u :: v :: rest => if u = CR ∧ v = LF then keepUnits (v :: rest) else u :: keepUnits (v :: rest)

/-- `WideCharToMultiByte` with `CP_UTF8` and no flags. -/
def wideCharToMultiByte (units : List UInt16) : List UInt8 := (decode units).flatMap String.utf8EncodeChar

/-- A console's description: `in[0..in_len)` and `in_pos`; and the chunks that `ReadConsoleW` has still to give. -/
structure ConsoleIn where
  input : List UInt8
  inPos : Nat
  chunks : List (List UInt16)
  deriving DecidableEq, Repr

/-- A console's description at the start. -/
def ConsoleIn.new (chunks : List (List UInt16)) : ConsoleIn := ⟨[], 0, chunks⟩

/-- A read: its size; whether `ReadConsoleW` fails, with which error, if the read calls it; and whether there is
memory. -/
structure ReadCall where
  n : Nat
  fails : Option Nat
  memory : Bool
  deriving DecidableEq, Repr

/-- `ERROR_NOT_ENOUGH_MEMORY`. -/
def ERROR_NOT_ENOUGH_MEMORY : Nat := 8

/-- The last part of a read: as many of the bytes that are left as fit are handed out. -/
def handOut (ofd : ConsoleIn) (n : Nat) : List UInt8 × ConsoleIn :=
  let left := ofd.input.length - ofd.inPos
  let take := if left < n then left else n
  ((ofd.input.drop ofd.inPos).take take, { ofd with inPos := ofd.inPos + take })

/-- `_sppc_console_read`, with the bytes or the Win32 error: `none` while nothing is typed. -/
def consoleRead (ofd : ConsoleIn) (call : ReadCall) : Option (Except Nat (List UInt8) × ConsoleIn) :=
  if ofd.inPos = ofd.input.length ∧ 0 < call.n then
    match call.fails, ofd.chunks with
    | some err, _ => some (.error err, ofd)
    | none, [] => none
    | none, line :: chunks =>
      if line = [] ∨ line.head? = some ctrlZ then some (.ok [], { ofd with chunks })
      else if ¬call.memory then some (.error ERROR_NOT_ENOUGH_MEMORY, { ofd with chunks })
      else
        let (out, ofd) := handOut ⟨wideCharToMultiByte (keepUnits line), 0, chunks⟩ call.n
        some (.ok out, ofd)
  else
    let (out, ofd) := handOut ofd call.n
    some (.ok out, ofd)

/-- The reads from a console, with what each gives. -/
def consoleReads : ConsoleIn → List ReadCall → Option (List (Except Nat (List UInt8)) × ConsoleIn)
  | ofd, [] => some ([], ofd)
  | ofd, call :: calls =>
    (consoleRead ofd call).bind fun (ret, ofd) =>
      (consoleReads ofd calls).map fun (rets, ofd) => (ret :: rets, ofd)

/-- The bytes of a read. -/
def bytesOf : Except Nat (List UInt8) → List UInt8
  | .ok out => out
  | .error _ => []

/-- The bytes that the reads deliver. -/
def delivered (rets : List (Except Nat (List UInt8))) : List UInt8 := rets.flatMap bytesOf

/-! ### What is to be delivered -/

/-- A text with each `CR LF` replaced by `LF`. -/
def lfText : List Char → List Char
  | [] => []
  | [c] => [c]
  | c :: d :: rest => if c = '\r' ∧ d = '\n' then lfText (d :: rest) else c :: lfText (d :: rest)

/-- The bytes of a text that is typed. -/
def typedBytes (text : List Char) : List UInt8 := (lfText text).flatMap String.utf8EncodeChar

/-- The start of a line. -/
def AtLineStart (before : List UInt16) : Prop := before = [] ∨ ∃ line, before = line ++ [CR, LF]

/-- No line of the text begins with Ctrl+Z. -/
def NoCtrlZLine (units : List UInt16) : Prop := ∀ before after, units = before ++ ctrlZ :: after → ¬AtLineStart before

/-- However a text, and after it perhaps a chunk `z` that begins with Ctrl+Z, is read, as long as there is memory:
what is delivered is the start of the text's bytes, and all of them once it has all been read; and a read of some
bytes gives none only where that chunk is next. -/
def Delivers (text : List Char) (chunks : List (List UInt16)) (z : Option (List UInt16)) : Prop :=
  ∀ calls : List ReadCall, (∀ call ∈ calls, call.memory) → ∀ rets ofd,
    consoleReads (.new (chunks ++ z.toList)) calls = some (rets, ofd) →
      delivered rets <+: typedBytes text ∧
      (ofd.chunks = [] → ofd.inPos = ofd.input.length → delivered rets = typedBytes text) ∧
      ∀ (call : ReadCall) ofd', 0 < call.n → call.memory → consoleRead ofd call = some (.ok [], ofd') →
        ∃ c ∈ z, ofd.chunks = [c]

/-- A boundary between `CR` and `LF`, or between the halves of a pair. -/
def BadCut (before after : List UInt16) : Prop :=
  (before.getLast? = some CR ∧ after.head? = some LF) ∨
    (∃ u ∈ before.getLast?, IsHigh u) ∧ ∃ v ∈ after.head?, IsLow v

/-- No chunk begins within a `CR LF` or a pair, or with Ctrl+Z. -/
def CutsOk (chunks : List (List UInt16)) : Prop :=
  ∀ before c after, chunks = before ++ c :: after → ¬BadCut before.flatten c ∧ c.head? ≠ some ctrlZ

/-- What is typed: a text of which no line begins with Ctrl+Z, cut into chunks; and after it perhaps a chunk of a line
that does. -/
structure Typed (text : List Char) (chunks : List (List UInt16)) (z : Option (List UInt16)) : Prop where
  noCtrlZ : NoCtrlZLine (text.flatMap encode)
  cut : chunks.flatten = text.flatMap encode
  nonempty : ∀ c ∈ chunks, c ≠ []
  ends : ∀ c ∈ z, c.head? = some ctrlZ ∧ AtLineStart (text.flatMap encode)

/-! ### Units that are kept -/

variable {a b : List UInt16} {u v : UInt16}

private theorem keepUnits_append (h : ¬(a.getLast? = some CR ∧ b.head? = some LF)) :
    keepUnits (a ++ b) = keepUnits a ++ keepUnits b := by
  fun_induction keepUnits a with
  | case1 => rfl
  | case2 u =>
    cases b with
    | nil => rfl
    | cons v b =>
      rw [List.singleton_append, List.singleton_append, keepUnits, if_neg]
      rintro ⟨rfl, rfl⟩
      exact h ⟨rfl, rfl⟩
  | case3 u v rest hcut ih =>
    rw [List.cons_append, List.cons_append, keepUnits, if_pos hcut, ← List.cons_append, ih]
    rwa [← List.getLast?_cons_cons (a := u)]
  | case4 u v rest hcut ih =>
    rw [List.cons_append, List.cons_append, keepUnits, if_neg hcut, ← List.cons_append, ih, List.cons_append]
    rwa [← List.getLast?_cons_cons (a := u)]

private theorem keepUnits_getLast? (a : List UInt16) : (keepUnits a).getLast? = a.getLast? := by
  fun_induction keepUnits a with
  | case1 => rfl
  | case2 u => rfl
  | case3 u v rest hcut ih => rw [ih, List.getLast?_cons_cons]
  | case4 u v rest hcut ih =>
    rw [List.getLast?_cons_cons, ← ih]
    cases hkeep : keepUnits (v :: rest) with
    | nil =>
      rw [hkeep, List.getLast?_nil] at ih
      exact absurd (List.getLast?_eq_none_iff.1 ih.symm) (List.cons_ne_nil v rest)
    | cons w l => rw [List.getLast?_cons_cons]

private theorem keepUnits_cons_of_ne (hu : u ≠ CR) (a : List UInt16) : keepUnits (u :: a) = u :: keepUnits a := by
  cases a with
  | nil => rfl
  | cons v a => rw [keepUnits, if_neg fun h => hu h.1]

/-- What is kept begins with the second half of a pair only if the units do. -/
private theorem keepUnits_head_low (b : List UInt16) :
    (∃ v ∈ (keepUnits b).head?, IsLow v) ↔ ∃ v ∈ b.head?, IsLow v := by
  have hcr : ¬IsLow CR := by decide
  have hlf : ¬IsLow LF := by decide
  have hne : LF ≠ CR := by decide
  cases b with
  | nil => rfl
  | cons u b =>
    by_cases hu : u = CR
    · subst hu
      cases b with
      | nil => rfl
      | cons v b =>
        rw [keepUnits]
        split
        · rename_i hcut
          rw [hcut.2, keepUnits_cons_of_ne hne]
          simp [hcr, hlf]
        · rfl
    · rw [keepUnits_cons_of_ne hu]
      rfl

/-! ### Chunks that are converted -/

/-- What is handed out of a chunk. -/
def convert (line : List UInt16) : List UInt8 := wideCharToMultiByte (keepUnits line)

private theorem wideCharToMultiByte_append (h : ¬((∃ u ∈ a.getLast?, IsHigh u) ∧ ∃ v ∈ b.head?, IsLow v)) :
    wideCharToMultiByte (a ++ b) = wideCharToMultiByte a ++ wideCharToMultiByte b := by
  rw [wideCharToMultiByte, decode_append h, List.flatMap_append]
  rfl

private theorem convert_append (h : ¬BadCut a b) : convert (a ++ b) = convert a ++ convert b := by
  rw [convert, keepUnits_append fun hc => h (Or.inl hc), wideCharToMultiByte_append]
  · rfl
  · rw [keepUnits_getLast?, keepUnits_head_low]
    exact fun hc => h (Or.inr hc)

/-- A unit that is neither a `CR` nor part of a pair is converted by itself. -/
private theorem wideChar_append_of_not_low (hb : ¬∃ v ∈ b.head?, IsLow v) :
    wideCharToMultiByte (a ++ b) = wideCharToMultiByte a ++ wideCharToMultiByte b :=
  wideCharToMultiByte_append fun h => hb h.2

/-- A cut between `CR` and `LF` leaves the `CR`. -/
private theorem convert_cut_crlf (a b : List UInt16) :
    (convert (a ++ CR :: LF :: b)).length + 1 = (convert (a ++ [CR])).length + (convert (LF :: b)).length := by
  have hcr : ¬IsLow CR := by decide
  have hlf : ¬IsLow LF := by decide
  have hne : LF ≠ CR := by decide
  have hone : wideCharToMultiByte [CR] = [0x0D] := by decide +kernel
  have hbefore (x : List UInt16) : ¬(a.getLast? = some CR ∧ (CR :: x).head? = some LF) := fun h =>
    hne (Option.some_inj.1 h.2).symm
  have hlow {u : UInt16} (x : List UInt16) (hx : ¬IsLow u) : ¬∃ v ∈ (u :: x).head?, IsLow v := by
    rintro ⟨w, hw, hl⟩
    rw [← Option.some_inj.1 hw] at hl
    exact hx hl
  have h1 : convert (a ++ CR :: LF :: b) =
      wideCharToMultiByte (keepUnits a) ++ wideCharToMultiByte (keepUnits (LF :: b)) := by
    rw [convert, keepUnits_append (hbefore _), keepUnits, if_pos ⟨rfl, rfl⟩, keepUnits_cons_of_ne hne,
      wideChar_append_of_not_low (hlow _ hlf)]
  have h2 : convert (a ++ [CR]) = wideCharToMultiByte (keepUnits a) ++ [0x0D] := by
    rw [convert, keepUnits_append (hbefore []), keepUnits, wideChar_append_of_not_low (hlow _ hcr), hone]
  rw [h1, h2, List.length_append, List.length_append, List.length_singleton, convert]
  omega

/-- A cut within a pair leaves two characters, of three bytes each. -/
private theorem convert_cut_pair (hu : IsHigh u) (hv : IsLow v) (a b : List UInt16) :
    (convert (a ++ u :: v :: b)).length < (convert (a ++ [u])).length + (convert (v :: b)).length := by
  have hucr : u ≠ CR := by
    rintro rfl
    exact absurd hu (by decide)
  have hvcr : v ≠ CR := by
    rintro rfl
    exact absurd hv (by decide)
  have hulf : u ≠ LF := by
    rintro rfl
    exact absurd hu (by decide)
  have hbefore (x : List UInt16) : ¬(a.getLast? = some CR ∧ (u :: x).head? = some LF) := fun h =>
    hulf (Option.some_inj.1 h.2)
  obtain ⟨hleft, hright, hwhole⟩ := decode_cut hu hv (keepUnits a) (keepUnits b)
  have hthree : (String.utf8EncodeChar (Char.ofNat 0xFFFD)).length = 3 := by decide +kernel
  have hfour : (String.utf8EncodeChar (pair u v)).length ≤ 4 := by
    rw [String.length_utf8EncodeChar]
    exact Char.utf8Size_le_four _
  rw [convert, convert, convert, keepUnits_append (hbefore _), keepUnits_append (hbefore _),
    keepUnits_cons_of_ne hucr, keepUnits_cons_of_ne hucr, keepUnits_cons_of_ne hvcr, keepUnits, wideCharToMultiByte,
    wideCharToMultiByte, wideCharToMultiByte, hleft, hright, hwhole, List.flatMap_append, List.flatMap_append,
    List.flatMap_cons, List.flatMap_cons, List.flatMap_cons, List.flatMap_nil, List.append_nil, List.length_append,
    List.length_append, List.length_append, List.length_append, hthree]
  omega

private theorem convert_cut (h : BadCut a b) :
    (convert (a ++ b)).length < (convert a).length + (convert b).length := by
  rcases h with ⟨hlast, hhead⟩ | ⟨⟨u, hlast, hu⟩, v, hhead, hv⟩
  · obtain ⟨a, rfl⟩ := List.getLast?_eq_some_iff.1 hlast
    obtain ⟨b, rfl⟩ := List.head?_eq_some_iff.1 hhead
    have hcut := convert_cut_crlf a b
    rw [List.append_assoc, List.singleton_append]
    omega
  · obtain ⟨a, rfl⟩ := List.getLast?_eq_some_iff.1 hlast
    obtain ⟨b, rfl⟩ := List.head?_eq_some_iff.1 hhead
    rw [List.append_assoc, List.singleton_append]
    exact convert_cut_pair hu hv a b

/-- Chunks are converted to what the whole is converted to, exactly if none begins at a bad cut; and else to more. -/
private theorem convert_chunks (a : List UInt16) (chunks : List (List UInt16)) :
    (convert (a ++ chunks.flatten)).length ≤ (convert a ++ chunks.flatMap convert).length ∧
    (convert (a ++ chunks.flatten) = convert a ++ chunks.flatMap convert ↔
      ∀ before c after, chunks = before ++ c :: after → ¬BadCut (a ++ before.flatten) c) := by
  induction chunks generalizing a with
  | nil =>
    refine ⟨?_, ?_⟩
    · simp
    · simp
  | cons c chunks ih =>
    obtain ⟨hle, hiff⟩ := ih (a ++ c)
    have hsplit : (∀ before c' after, c :: chunks = before ++ c' :: after → ¬BadCut (a ++ before.flatten) c') ↔
        ¬BadCut a c ∧ ∀ before c' after, chunks = before ++ c' :: after → ¬BadCut (a ++ c ++ before.flatten) c' := by
      constructor
      · intro h
        refine ⟨?_, fun before c' after heq => ?_⟩
        · have hfirst := h [] c chunks rfl
          rwa [List.flatten_nil, List.append_nil] at hfirst
        · have hnext := h (c :: before) c' after (by rw [heq, List.cons_append])
          rwa [List.flatten_cons, ← List.append_assoc] at hnext
      · rintro ⟨hfirst, hnext⟩ before c' after heq
        cases before with
        | nil =>
          rw [List.nil_append, List.cons.injEq] at heq
          rw [← heq.1, List.flatten_nil, List.append_nil]
          exact hfirst
        | cons d before =>
          rw [List.cons_append, List.cons.injEq] at heq
          rw [List.flatten_cons, ← heq.1, ← List.append_assoc]
          exact hnext before c' after heq.2
    rw [hsplit, List.flatten_cons, List.flatMap_cons, ← List.append_assoc, ← List.append_assoc]
    by_cases hcut : BadCut a c
    · have hlt := convert_cut hcut
      rw [List.length_append] at hle
      have hmore : (convert (a ++ c ++ chunks.flatten)).length <
          (convert a ++ convert c ++ chunks.flatMap convert).length := by
        rw [List.length_append, List.length_append]
        omega
      refine ⟨Nat.le_of_lt hmore, fun heq => ?_, fun h => absurd hcut h.1⟩
      rw [heq] at hmore
      exact absurd hmore (Nat.lt_irrefl _)
    · rw [← convert_append hcut]
      refine ⟨hle, ?_⟩
      rw [hiff]
      exact ⟨fun h => ⟨hcut, h⟩, fun h => h.2⟩

/-! ### The bytes of a text -/

private theorem encode_last_cr {c : Char} (h : (encode c).getLast? = some CR) : c = '\r' := by
  have hvalid : c.toNat < 0xD800 ∨ 0xDFFF < c.toNat ∧ c.toNat < 0x110000 := c.valid
  have hcr : CR.toNat = 13 := by decide
  rw [encode] at h
  split at h
  · rename_i hsmall
    rw [List.getLast?_singleton] at h
    have hnat := congrArg UInt16.toNat (Option.some_inj.1 h)
    rw [UInt16.toNat_ofNat_of_lt' hsmall, hcr] at hnat
    exact Char.toNat_inj.1 hnat
  · rw [List.getLast?_cons_cons, List.getLast?_singleton] at h
    have hnat := congrArg UInt16.toNat (Option.some_inj.1 h)
    rw [UInt16.toNat_ofNat_of_lt' (show _ < 65536 by omega), hcr] at hnat
    omega

private theorem encode_head_lf {c : Char} {x : List UInt16} (h : (encode c ++ x).head? = some LF) : c = '\n' := by
  have hvalid : c.toNat < 0xD800 ∨ 0xDFFF < c.toNat ∧ c.toNat < 0x110000 := c.valid
  have hlf : LF.toNat = 10 := by decide
  rw [encode] at h
  split at h
  · rename_i hsmall
    have hnat := congrArg UInt16.toNat (Option.some_inj.1 h)
    rw [UInt16.toNat_ofNat_of_lt' hsmall, hlf] at hnat
    exact Char.toNat_inj.1 hnat
  · have hnat := congrArg UInt16.toNat (Option.some_inj.1 h)
    rw [UInt16.toNat_ofNat_of_lt' (show _ < 65536 by omega), hlf] at hnat
    omega

/-- The units of a character are kept. -/
private theorem keepUnits_encode (c : Char) : keepUnits (encode c) = encode c := by
  have hvalid : c.toNat < 0xD800 ∨ 0xDFFF < c.toNat ∧ c.toNat < 0x110000 := c.valid
  rw [encode]
  split
  · rfl
  · rw [keepUnits_cons_of_ne, keepUnits]
    intro h
    have hnat := congrArg UInt16.toNat h
    have hcr : CR.toNat = 13 := by decide
    rw [UInt16.toNat_ofNat_of_lt' (show _ < 65536 by omega), hcr] at hnat
    omega

/-- The units of a text that are kept are those of the text with `LF` for `CR LF`. -/
private theorem keepUnits_text (text : List Char) :
    keepUnits (text.flatMap encode) = (lfText text).flatMap encode := by
  have hcr : encode '\r' = [CR] := by decide +kernel
  have hlf : encode '\n' = [LF] := by decide +kernel
  fun_induction lfText text with
  | case1 => rfl
  | case2 c =>
    rw [List.flatMap_singleton]
    exact keepUnits_encode c
  | case3 c d rest hcut ih =>
    rw [List.flatMap_cons, hcut.1, hcr, List.singleton_append]
    rw [hcut.2, List.flatMap_cons, hlf, List.singleton_append] at ih
    rw [List.flatMap_cons, hcut.2, hlf, List.singleton_append, keepUnits, if_pos ⟨rfl, rfl⟩]
    exact ih
  | case4 c d rest hcut ih =>
    rw [List.flatMap_cons, keepUnits_append, keepUnits_encode, ih, List.flatMap_cons]
    rintro ⟨hlast, hhead⟩
    rw [List.flatMap_cons] at hhead
    exact hcut ⟨encode_last_cr hlast, encode_head_lf hhead⟩

private theorem convert_text (text : List Char) : convert (text.flatMap encode) = typedBytes text := by
  rw [convert, keepUnits_text, wideCharToMultiByte, decode_encode, typedBytes]

/-! ### Reads -/

/-- What comes of a chunk: nothing, if it begins with Ctrl+Z. -/
def chunkBytes (line : List UInt16) : List UInt8 :=
  if line = [] ∨ line.head? = some ctrlZ then [] else convert line

/-- What is still to come. -/
def toCome (ofd : ConsoleIn) : List UInt8 := ofd.input.drop ofd.inPos ++ ofd.chunks.flatMap chunkBytes

variable {ofd ofd' : ConsoleIn} {call : ReadCall} {ret : Except Nat (List UInt8)}

private theorem convert_ne_nil (h : a ≠ []) : convert a ≠ [] := by
  have hkeep : keepUnits a ≠ [] := by
    intro hnil
    have hlast := keepUnits_getLast? a
    rw [hnil, List.getLast?_nil] at hlast
    exact h (List.getLast?_eq_none_iff.1 hlast.symm)
  obtain ⟨u, x, hux⟩ := List.exists_cons_of_ne_nil hkeep
  have hdecode : ∃ c cs, decode (u :: x) = c :: cs := by
    cases x with
    | nil => exact ⟨_, _, rfl⟩
    | cons v x =>
      rw [decode]
      split
      · exact ⟨_, _, rfl⟩
      · exact ⟨_, _, rfl⟩
  obtain ⟨c, cs, hcs⟩ := hdecode
  rw [convert, hux, wideCharToMultiByte, hcs, List.flatMap_cons]
  exact fun hnil => String.utf8EncodeChar_ne_nil (List.append_eq_nil_iff.1 hnil).1

private theorem handOut_eq (ofd : ConsoleIn) (n : Nat) (hpos : ofd.inPos ≤ ofd.input.length) :
    (handOut ofd n).1 ++ (handOut ofd n).2.input.drop (handOut ofd n).2.inPos = ofd.input.drop ofd.inPos ∧
      (handOut ofd n).2.inPos ≤ (handOut ofd n).2.input.length ∧ (handOut ofd n).2.chunks = ofd.chunks ∧
      ((handOut ofd n).1 = [] → 0 < n → ofd.inPos = ofd.input.length) := by
  rw [handOut]
  dsimp only
  refine ⟨?_, ?_, rfl, fun hnil hn => ?_⟩
  · rw [← List.drop_drop]
    exact List.take_append_drop _ _
  · split <;> omega
  · have hlen := congrArg List.length hnil
    rw [List.length_take, List.length_drop, List.length_nil] at hlen
    split at hlen <;> omega

/-- What a read does to what is to come. -/
private theorem consoleRead_spec (hpos : ofd.inPos ≤ ofd.input.length) (hmemory : call.memory)
    (h : consoleRead ofd call = some (ret, ofd')) :
    bytesOf ret ++ toCome ofd' = toCome ofd ∧ ofd'.inPos ≤ ofd'.input.length ∧ ofd'.chunks <:+ ofd.chunks ∧
      (0 < call.n → ret = .ok [] → ∃ line, ofd.chunks = line :: ofd'.chunks ∧
        (line = [] ∨ line.head? = some ctrlZ)) := by
  have hout (s : ConsoleIn) (hs : s.inPos ≤ s.input.length) (hcome : toCome s = toCome ofd)
      (hchunks : s.chunks <:+ ofd.chunks) (hsome : 0 < call.n → s.inPos ≠ s.input.length)
      (heq : some (Except.ok (handOut s call.n).1, (handOut s call.n).2) = some (ret, ofd')) :
      bytesOf ret ++ toCome ofd' = toCome ofd ∧ ofd'.inPos ≤ ofd'.input.length ∧ ofd'.chunks <:+ ofd.chunks ∧
        (0 < call.n → ret = .ok [] → ∃ line, ofd.chunks = line :: ofd'.chunks ∧
          (line = [] ∨ line.head? = some ctrlZ)) := by
    obtain ⟨hret, hofd⟩ := Prod.mk.inj (Option.some_inj.1 heq)
    obtain ⟨hbytes, hpos', hsame, hnil⟩ := handOut_eq s call.n hs
    rw [← hret, ← hofd]
    refine ⟨?_, hpos', ?_, fun hn hempty => absurd (hnil (Except.ok.inj hempty) hn) (hsome hn)⟩
    · rw [← hcome, toCome, toCome, hsame, bytesOf, ← List.append_assoc, hbytes]
    · rw [hsame]
      exact hchunks
  rw [consoleRead] at h
  by_cases hempty : ofd.inPos = ofd.input.length ∧ 0 < call.n
  · rw [if_pos hempty] at h
    cases hfails : call.fails with
    | some err =>
      rw [hfails] at h
      obtain ⟨rfl, rfl⟩ := Prod.mk.inj (Option.some_inj.1 h)
      exact ⟨rfl, hpos, List.suffix_rfl, fun _ => nofun⟩
    | none =>
      rw [hfails] at h
      cases hchunks : ofd.chunks with
      | nil =>
        rw [hchunks] at h
        cases h
      | cons line chunks =>
        rw [hchunks] at h hout
        have hdrop : ofd.input.drop ofd.inPos = [] := by rw [hempty.1, List.drop_length]
        dsimp only at h
        by_cases hend : line = [] ∨ line.head? = some ctrlZ
        · rw [if_pos hend] at h
          obtain ⟨rfl, rfl⟩ := Prod.mk.inj (Option.some_inj.1 h)
          refine ⟨?_, hpos, List.suffix_cons line chunks, fun _ _ => ⟨line, rfl, hend⟩⟩
          rw [toCome, toCome, hchunks, List.flatMap_cons, chunkBytes, if_pos hend]
          rfl
        · rw [if_neg hend, if_neg (not_not.2 hmemory)] at h
          have hne : convert line ≠ [] := convert_ne_nil fun hl => hend (Or.inl hl)
          refine hout ⟨convert line, 0, chunks⟩ (Nat.zero_le _) ?_ (List.suffix_cons line chunks) ?_ h
          · rw [toCome, toCome, hdrop, hchunks, List.flatMap_cons, chunkBytes, if_neg hend]
            rfl
          · intro _ hlen
            exact hne (List.length_eq_zero_iff.1 hlen.symm)
  · rw [if_neg hempty] at h
    exact hout ofd hpos rfl List.suffix_rfl (fun hn hlen => hempty ⟨hlen, hn⟩) h

private theorem consoleReads_spec {calls : List ReadCall} {rets : List (Except Nat (List UInt8))}
    (hcalls : ∀ call ∈ calls, call.memory) (hpos : ofd.inPos ≤ ofd.input.length)
    (h : consoleReads ofd calls = some (rets, ofd')) :
    delivered rets ++ toCome ofd' = toCome ofd ∧ ofd'.inPos ≤ ofd'.input.length ∧ ofd'.chunks <:+ ofd.chunks := by
  induction calls generalizing ofd rets with
  | nil =>
    obtain ⟨rfl, rfl⟩ := Prod.mk.inj (Option.some_inj.1 h)
    exact ⟨rfl, hpos, List.suffix_rfl⟩
  | cons call calls ih =>
    rw [consoleReads] at h
    obtain ⟨⟨ret, ofd₁⟩, hread, h⟩ := Option.bind_eq_some_iff.1 h
    obtain ⟨⟨rets₁, ofd₂⟩, hreads, h⟩ := Option.map_eq_some_iff.1 h
    obtain ⟨rfl, rfl⟩ := Prod.mk.inj h
    have hmemory := hcalls call List.mem_cons_self
    obtain ⟨hbytes, hpos₁, hsuffix, -⟩ := consoleRead_spec hpos hmemory hread
    obtain ⟨hbytes', hpos', hsuffix'⟩ := ih (fun c hc => hcalls c (List.mem_cons_of_mem call hc)) hpos₁ hreads
    refine ⟨?_, hpos', hsuffix'.trans hsuffix⟩
    rw [delivered, List.flatMap_cons, List.append_assoc, ← hbytes, ← hbytes']
    rfl

/-- A read that is large enough hands out all of the next chunk. -/
private theorem consoleRead_all {line : List UInt16} {chunks : List (List UInt16)}
    (hpos : ofd.inPos = ofd.input.length) (hchunks : ofd.chunks = line :: chunks) : ∃ ret ofd',
      consoleRead ofd ⟨(convert line).length + 1, none, true⟩ = some (ret, ofd') ∧
        ofd'.inPos = ofd'.input.length ∧ ofd'.chunks = chunks := by
  rw [consoleRead, if_pos ⟨hpos, Nat.succ_pos _⟩, hchunks]
  dsimp only
  by_cases hend : line = [] ∨ line.head? = some ctrlZ
  · rw [if_pos hend]
    exact ⟨_, _, rfl, hpos, rfl⟩
  · rw [if_neg hend, if_neg (not_not.2 rfl)]
    refine ⟨_, _, rfl, ?_, rfl⟩
    rw [handOut]
    dsimp only
    rw [← convert]
    split <;> omega

private theorem consoleReads_all (before : List (List UInt16)) {after : List (List UInt16)} (ofd : ConsoleIn)
    (hpos : ofd.inPos = ofd.input.length) (hchunks : ofd.chunks = before ++ after) : ∃ calls rets ofd',
      (∀ call ∈ calls, call.memory) ∧ consoleReads ofd calls = some (rets, ofd') ∧
        ofd'.inPos = ofd'.input.length ∧ ofd'.chunks = after := by
  induction before generalizing ofd with
  | nil => exact ⟨[], [], ofd, nofun, rfl, hpos, hchunks⟩
  | cons line before ih =>
    obtain ⟨ret, ofd₁, hread, hpos₁, hchunks₁⟩ := consoleRead_all hpos hchunks
    obtain ⟨calls, rets, ofd', hcalls, hreads, hpos', hchunks'⟩ := ih ofd₁ hpos₁ hchunks₁
    refine ⟨⟨(convert line).length + 1, none, true⟩ :: calls, ret :: rets, ofd', ?_, ?_, hpos', hchunks'⟩
    · rw [List.forall_mem_cons]
      exact ⟨rfl, hcalls⟩
    · rw [consoleReads, hread, Option.bind_some]
      dsimp only
      rw [hreads]
      rfl

/-! ### What is delivered -/

section delivers

variable {text : List Char} {chunks : List (List UInt16)} {z : Option (List UInt16)}

/-- Chunks of which none begins with Ctrl+Z give all their bytes. -/
private theorem flatMap_chunkBytes (hne : ∀ c ∈ chunks, c ≠ []) (hz : ∀ c ∈ chunks, c.head? ≠ some ctrlZ) :
    chunks.flatMap chunkBytes = chunks.flatMap convert := by
  apply List.flatMap_congr
  intro c hc
  rw [chunkBytes, if_neg]
  exact not_or.2 ⟨hne c hc, hz c hc⟩

private theorem Typed.bytes_z (h : Typed text chunks z) : z.toList.flatMap chunkBytes = [] := by
  cases z with
  | none => rfl
  | some c =>
    rw [Option.toList_some, List.flatMap_singleton, chunkBytes, if_pos (Or.inr (h.ends c rfl).1)]

/-- A chunk that is not one of the text's is the last. -/
private theorem last_of_not_mem {before after : List (List UInt16)} {line : List UInt16} (hnot : line ∉ chunks)
    (h : before ++ line :: after = chunks ++ z.toList) : ∃ c ∈ z, line :: after = [c] := by
  have hfirst : ∃ l, z.toList = l ++ line :: after := by
    rcases List.append_eq_append_iff.1 h with ⟨l, hchunks, hl⟩ | ⟨l, -, hl⟩
    · cases l with
      | nil => exact ⟨[], hl.symm⟩
      | cons c l =>
        rw [List.cons_append, List.cons.injEq] at hl
        refine absurd ?_ hnot
        rw [hchunks, hl.1]
        exact List.mem_append_right before List.mem_cons_self
    · exact ⟨l, hl⟩
  obtain ⟨l, hl⟩ := hfirst
  cases z with
  | none => simp at hl
  | some c =>
    rw [Option.toList_some] at hl
    cases l with
    | nil =>
      rw [List.nil_append] at hl
      exact ⟨c, rfl, hl.symm⟩
    | cons d l => simp at hl

private theorem toCome_new (chunks : List (List UInt16)) : toCome (.new chunks) = chunks.flatMap chunkBytes := rfl

private theorem Typed.delivers_iff (h : Typed text chunks z) : Delivers text chunks z ↔ CutsOk chunks := by
  obtain ⟨hle, hiff⟩ := convert_chunks [] chunks
  have hnil : convert [] = [] := rfl
  rw [List.nil_append, hnil, List.nil_append, h.cut, convert_text] at hle hiff
  constructor
  · intro hdelivers
    -- chunk after chunk is read until the one in question is next
    have hz : ∀ before c after, chunks = before ++ c :: after → c.head? ≠ some ctrlZ := by
      intro before c after hsplit hc
      obtain ⟨calls, rets, ofd, hcalls, hreads, hpos, hchunks⟩ :=
        consoleReads_all before (.new (chunks ++ z.toList)) rfl (by rw [hsplit, List.append_assoc]; rfl)
      have hread : consoleRead ofd ⟨1, none, true⟩ = some (.ok [], { ofd with chunks := after ++ z.toList }) := by
        rw [consoleRead, if_pos ⟨hpos, Nat.one_pos⟩, hchunks]
        exact if_pos (Or.inr hc)
      obtain ⟨c', hc', hlast⟩ := (hdelivers calls hcalls rets ofd hreads).2.2 ⟨1, none, true⟩ _ Nat.one_pos rfl hread
      rw [hchunks, Option.mem_def.1 hc'] at hlast
      have hlen := congrArg List.length hlast
      simp at hlen
    obtain ⟨calls, rets, ofd, hcalls, hreads, hpos, hchunks⟩ :=
      consoleReads_all chunks (.new (chunks ++ z.toList)) rfl rfl
    obtain ⟨hpre, -, -⟩ := hdelivers calls hcalls rets ofd hreads
    obtain ⟨hbytes, -, -⟩ := consoleReads_spec hcalls (Nat.zero_le _) hreads
    have hall : delivered rets = chunks.flatMap convert := by
      have hmem : ∀ c ∈ chunks, c.head? ≠ some ctrlZ := by
        intro c hc
        obtain ⟨before, after, hsplit⟩ := List.append_of_mem hc
        exact hz before c after hsplit
      rw [toCome_new, toCome, hpos, List.drop_length, hchunks, List.flatMap_append, h.bytes_z, List.append_nil,
        List.append_nil, List.append_nil, flatMap_chunkBytes h.nonempty hmem] at hbytes
      exact hbytes
    rw [hall] at hpre
    have heq := hiff.1 (hpre.eq_of_length_le hle).symm
    intro before c after hsplit
    have hcut := heq before c after hsplit
    rw [List.nil_append] at hcut
    exact ⟨hcut, hz before c after hsplit⟩
  · intro hok
    have hmem : ∀ c ∈ chunks, c.head? ≠ some ctrlZ := by
      intro c hc
      obtain ⟨before, after, hsplit⟩ := List.append_of_mem hc
      exact (hok before c after hsplit).2
    have htext : typedBytes text = chunks.flatMap convert := by
      refine hiff.2 fun before c after hsplit => ?_
      rw [List.nil_append]
      exact (hok before c after hsplit).1
    intro calls hcalls rets ofd hreads
    obtain ⟨hbytes, hpos, hsuffix⟩ := consoleReads_spec hcalls (Nat.zero_le _) hreads
    rw [toCome_new, List.flatMap_append, h.bytes_z, List.append_nil, flatMap_chunkBytes h.nonempty hmem,
      ← htext] at hbytes
    refine ⟨⟨_, hbytes⟩, fun hend hin => ?_, fun call ofd' hn hmemory hread => ?_⟩
    · rw [toCome, hin, List.drop_length, hend, List.flatMap_nil, List.append_nil, List.append_nil] at hbytes
      exact hbytes
    · obtain ⟨-, -, -, hzero⟩ := consoleRead_spec hpos hmemory hread
      obtain ⟨line, hline, hlz⟩ := hzero hn rfl
      -- the chunk is not one of the text's
      have hnot : line ∉ chunks := by
        intro hin
        rcases hlz with hnil | hz
        · exact h.nonempty line hin hnil
        · exact hmem line hin hz
      obtain ⟨before, hbefore⟩ := hsuffix
      rw [hline] at hbefore ⊢
      exact last_of_not_mem hnot hbefore

end delivers

/-- What a console delivers is the bytes of the text, and a read gives none only for a Ctrl+Z at the start of a line,
exactly if no chunk begins within a `CR LF` or a pair, or with a Ctrl+Z that is not at the start of a line. -/
theorem console_read_iff (text : List Char) (chunks : List (List UInt16)) (z : Option (List UInt16))
    (h : Typed text chunks z) : Delivers text chunks z ↔ CutsOk chunks :=
  h.delivers_iff

theorem console_read_iff_hi : Delivers ['h', 'i', '\r', '\n'] [[104, 105, CR, LF]] none ↔
    CutsOk [[104, 105, CR, LF]] := by
  refine console_read_iff _ _ none ⟨?_, by decide +kernel, by decide, nofun⟩
  intro before after heq hline
  have hmem : ctrlZ ∈ ['h', 'i', '\r', '\n'].flatMap encode := by
    rw [heq]
    simp
  exact absurd hmem (by decide +kernel)

/-- A line of 4097 units, the last of which does not fit the buffer. -/
def longLine : List Char := List.replicate 4095 'x' ++ ['\r', '\n']

/-- How it is cut. -/
def longChunks : List (List UInt16) := [List.replicate 4095 120 ++ [CR], [LF]]

private theorem longLine_units : longLine.flatMap encode = List.replicate 4095 120 ++ [CR, LF] := by
  have hx : encode 'x' = [120] := by decide +kernel
  have hend : ['\r', '\n'].flatMap encode = [CR, LF] := by decide +kernel
  rw [longLine, List.flatMap_append, hend, List.flatMap_replicate, hx, List.flatten_replicate_singleton]

private theorem longLine_typed : Typed longLine longChunks none where
  noCtrlZ := by
    intro before after heq hline
    have hmem : ctrlZ ∈ longLine.flatMap encode := by
      rw [heq]
      simp
    rw [longLine_units, List.mem_append, List.mem_replicate] at hmem
    rcases hmem with ⟨-, h⟩ | h
    · exact absurd h (by decide)
    · exact absurd h (by decide)
  cut := by
    rw [longLine_units, longChunks, List.flatten_cons, List.flatten_singleton, List.append_assoc]
    rfl
  nonempty := by
    intro c hc
    rw [longChunks, List.mem_cons, List.mem_singleton] at hc
    rcases hc with rfl | rfl
    · exact List.append_ne_nil_of_right_ne_nil _ (List.cons_ne_nil _ _)
    · exact List.cons_ne_nil _ _
  ends := nofun

/-- A line that is longer than the buffer by its `LF` is not delivered as it was typed. -/
theorem long_line_not_delivered : Typed longLine longChunks none ∧ (∀ c ∈ longChunks, c.length ≤ 4096) ∧
    ¬Delivers longLine longChunks none := by
  refine ⟨longLine_typed, fun c hc => ?_, fun h => ?_⟩
  · rw [longChunks, List.mem_cons, List.mem_singleton] at hc
    rcases hc with rfl | rfl
    · rw [List.length_append, List.length_replicate]
      decide
    · decide
  · have hok := longLine_typed.delivers_iff.1 h
    refine (hok [List.replicate 4095 120 ++ [CR]] [LF] [] rfl).1 (Or.inl ⟨?_, rfl⟩)
    rw [List.flatten_singleton, List.getLast?_append]
    rfl

end Sppc.Windows
