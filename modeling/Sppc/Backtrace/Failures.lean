import Mathlib.Data.List.DropRight
import Mathlib.Data.List.Forall2
import Sppc.Backtrace.Report

/-!
# What a crash report says (`backtrace/common.h`, `backtrace/posix.h`, `backtrace/pe.h`, `platform/common.h`)

The calls on the report that each failure makes, and the text that they come to.  The frames of the stack are what
`_sppc_bt_frames` gives, and the names what `_sppc_bt_resolve` finds.
-/

namespace Sppc.Backtrace

/-- A literal, as far as its first zero. -/
def literal (s : String) : CString where
  chars := (s.toList.map fun c => UInt8.ofNat c.toNat).takeWhile (· ≠ 0)
  noEnd h := by simpa using List.mem_takeWhile_imp h

/-- `strrchr`. -/
def strrchr (s : CString) (c : UInt8) : Option Nat :=
  (s.chars.reverse.findIdx? (· = c)).map fun k => s.chars.length - 1 - k

/-- The string from `p` on. -/
def stringFrom (s : CString) (p : Nat) : CString := ⟨s.chars.drop p, fun h => s.noEnd (List.mem_of_mem_drop h)⟩

variable {w : WordSize}

/-- `_sppc_bt_put` of a literal. -/
def say (s : String) : ReportCall w := .put (literal s)

/-! ### The backtrace -/

def SPPC_BT_MAX_FRAMES : Nat := 128

/-- What `_sppc_bt_frames` leaves in `frames`, and how many it returns. -/
structure Frames (w : WordSize) where
  slots : List (BitVec (8 * w.sizeof))
  n : Nat
  size : slots.length = SPPC_BT_MAX_FRAMES
  n_le : n ≤ SPPC_BT_MAX_FRAMES

/-- The return addresses on the stack. -/
def Frames.stack (frames : Frames w) : List (BitVec (8 * w.sizeof)) := frames.slots.take frames.n

/-- What `_sppc_bt_resolve` finds: a name, where the function starts, and the file of the object. -/
structure Resolved (w : WordSize) where
  name : Option CString
  start : BitVec (8 * w.sizeof)
  object : Option CString

/-- The machines whose return addresses are told apart. -/
inductive TraceArch
  | arm | sparc64 | other
  deriving DecidableEq, Repr

/-- What the reports of a process go by. -/
structure Tracer (w : WordSize) where
  windows : Bool
  arch : TraceArch
  /-- `_sppc_bt_enabled`. -/
  enabled : Bool
  /-- `_sppc_bt_off_note`. -/
  offNote : CString
  resolve : BitVec (8 * w.sizeof) → Resolved w
  /-- `_sppc_bt_is_cfi_trap`. -/
  isCfiTrap : BitVec (8 * w.sizeof) → Bool
  /-- The string at an address. -/
  string : BitVec (8 * w.sizeof) → CString

/-- `want`. -/
def TraceArch.want (arch : TraceArch) (firstIsFault : Bool) (firstPc : BitVec (8 * w.sizeof)) :
    BitVec (8 * w.sizeof) :=
  match arch with
  | arm => firstPc &&& ~~~1#(8 * w.sizeof)
  | sparc64 => if firstIsFault then firstPc else firstPc + 8#(8 * w.sizeof)
  | other => firstPc

/-- The object's file without the directories. -/
def fileName (windows : Bool) (object : CString) : CString :=
  let slash := strrchr object 47
  let slash :=
    if windows then
      match strrchr object 92, slash with
      | some back, some slash => if slash < back then some back else some slash
      | some back, none => some back
      | none, slash => slash
    else slash
  match slash with
  | some slash => stringFrom object (slash + 1)
  | none => object

/-- The line of frame `k`. -/
def Tracer.line (T : Tracer w) (k : Nat) (pc lookup : BitVec (8 * w.sizeof)) : List (ReportCall w) :=
  let found := T.resolve lookup
  [say "  #", .putDec (UInt64.ofNat k), say (if k < 10 then "  " else " ")] ++
    (match found.name with
      | some name => [.putSymbol name, say "+", .putHex (pc - found.start)]
      | none => [say "?? ", .putHex pc]) ++
    (match found.object with
      | some object => if object.chars ≠ [] then [say "  (", .put (fileName T.windows object), say ")"] else []
      | none => []) ++
    [say "\n"]

/-- The loop of `_sppc_bt_print` over the frames, `n` of them from `i` on. -/
def Tracer.lines (T : Tracer w) (slots : List (BitVec (8 * w.sizeof))) (start : Nat) (isExact : Bool) :
    Nat → Nat → Option (List (ReportCall w))
  | 0, _ => some []
  | n + 1, i => do
    let pc ← slots[i]?
    let lookup := if i = start ∧ isExact then pc else pc - 1#(8 * w.sizeof)
    let rest ← T.lines slots start isExact n (i + 1)
    pure (T.line (i - start) pc lookup ++ rest)

/-- The lines of `_sppc_bt_print`, where its loops go over the frames. -/
def Tracer.traceLines (T : Tracer w) (firstIsFault : Bool) (frames : Frames w) (firstPc : BitVec (8 * w.sizeof)) :
    Option (List (ReportCall w)) :=
  let want := T.arch.want firstIsFault firstPc
  let isExact := firstIsFault ∧ firstPc ≠ 0
  match frames.stack.findIdx? (· = want) with
  | some start => T.lines frames.slots start isExact (frames.n - start) start
  | none =>
    if firstPc ≠ 0 then T.lines (frames.slots.set 0 want) 0 isExact 1 0
    else T.lines frames.slots 0 isExact frames.n 0

/-- `_sppc_bt_print`. -/
def Tracer.print (T : Tracer w) (firstIsFault : Bool) (frames : Frames w) (firstPc : BitVec (8 * w.sizeof))
    (answers : List WriteAns) : Option (List (ReportCall w)) := do
  let lines ← T.traceLines firstIsFault frames firstPc
  pure (.flush answers :: say "stack backtrace:\n" :: lines)

/-! ### Failures -/

/-- The signals the handler is put on. -/
inductive FatalSignal
  | SIGSEGV | SIGBUS | SIGILL | SIGFPE | SIGTRAP | SIGABRT
  deriving DecidableEq, Repr

/-- `_sppc_bt_signal_name`. -/
def FatalSignal.name : FatalSignal → String
  | SIGSEGV => "SIGSEGV (segmentation fault)"
  | SIGBUS => "SIGBUS (bus error)"
  | SIGILL => "SIGILL (illegal instruction)"
  | SIGFPE => "SIGFPE (arithmetic exception)"
  | SIGTRAP => "SIGTRAP (trap)"
  | SIGABRT => "SIGABRT (aborted)"

def EXCEPTION_ACCESS_VIOLATION : UInt32 := 0xC0000005
def EXCEPTION_IN_PAGE_ERROR : UInt32 := 0xC0000006

/-- The cases of `_sppc_bt_win_exception_name`. -/
def exceptionNames : List (UInt32 × String) :=
  [(EXCEPTION_ACCESS_VIOLATION, "access violation"), (EXCEPTION_IN_PAGE_ERROR, "in-page error"),
    (0xC00000FD, "stack overflow"), (0xC000001D, "illegal instruction"), (0xC0000096, "privileged instruction"),
    (0xC0000094, "integer divide by zero"), (0xC0000095, "integer overflow"),
    (0xC000008E, "floating-point divide by zero"), (0xC0000090, "floating-point invalid operation"),
    (0xC0000091, "floating-point overflow"), (0xC0000093, "floating-point underflow"),
    (0xC000008F, "floating-point inexact result"), (0xC000008D, "floating-point denormal operand"),
    (0xC0000092, "floating-point stack check"), (0x80000002, "misaligned access"),
    (0xC000008C, "array bounds exceeded"), (0x80000003, "breakpoint"), (0x80000004, "single step"),
    (0xC0000025, "noncontinuable exception"), (0xC0000026, "invalid disposition"), (0x80000001, "guard page"),
    (0xC0000008, "invalid handle"), (0xE06D7363, "unhandled C++ exception")]

/-- `_sppc_bt_win_exception_name`. -/
def exceptionName (code : UInt32) : String := (exceptionNames.lookup code).getD "exception"

/-- A failure that is reported, with the stack it is reported from. -/
inductive Failure (w : WordSize)
  /-- `sppc_abort`. -/
  | aborted (callerPc : BitVec (8 * w.sizeof)) (frames : Frames w)
  /-- `sppc_check_failed`. -/
  | check (check : UInt32) (a b : UInt64) (callerPc : BitVec (8 * w.sizeof)) (frames : Frames w)
  /-- A signal, with its address and the pc of its context. -/
  | signal (sig : FatalSignal) (addr pc : BitVec (8 * w.sizeof)) (frames : Frames w)
  /-- A Windows exception, with its parameters and the pc of its context. -/
  | exception (code : UInt32) (parameters : List (BitVec (8 * w.sizeof))) (pc : BitVec (8 * w.sizeof))
    (frames : Frames w)
  /-- `SIGABRT` of Windows' C library. -/
  | winAbort (callerPc : BitVec (8 * w.sizeof)) (frames : Frames w)

/-- The message of a check. -/
def Tracer.checkCalls (T : Tracer w) (check : UInt32) (a b : UInt64) : List (ReportCall w) :=
  match check with
  | 1 => [say "index ", .putDec a, say " out of bounds for length ", .putDec b]
  | 2 => [say "integer conversion reached for a width pair it is not defined for"]
  | 3 => [say "generator 'send' was reached directly; it is lowered through the '.res()' operator"]
  | 4 => [say "slice ", .putDec a, say "..", .putDec b, say " ends before it starts"]
  | 5 => [say "slice end ", .putDec a, say " out of bounds for length ", .putDec b]
  | 6 => [say "float out of range for ", say (if b ≠ 0 then "S" else "U"), .putDec a, say ", or NaN"]
  | 7 => [say "an exception unwound into s++ from '", .put (T.string (BitVec.ofNat _ a.toNat)),
      say "'; foreign code must not unwind through s++ frames"]
  | 0x10 => [say "signed add overflowed"]
  | 0x11 => [say "unsigned add overflowed"]
  | 0x12 => [say "signed subtract overflowed"]
  | 0x13 => [say "unsigned subtract underflowed"]
  | 0x14 => [say "signed multiply overflowed"]
  | 0x15 => [say "unsigned multiply overflowed"]
  | _ => [say "unknown check ", .putDec (check.toUInt64)]

/-- Whether the handler takes the signal for a failed control-flow-integrity check. -/
def Tracer.isCfi (T : Tracer w) (sig : FatalSignal) (pc : BitVec (8 * w.sizeof)) : Bool :=
  (sig = .SIGILL ∨ sig = .SIGTRAP) ∧ T.isCfiTrap pc

/-- What a report says before its backtrace. -/
def Failure.head (T : Tracer w) : Failure w → List (ReportCall w)
  | aborted _ _ => [say "\n[sppc] aborted\n"]
  | check c a b _ _ => say "\n[sppc] check failed: " :: T.checkCalls c a b ++ [say "\n"]
  | signal sig addr pc _ =>
    if T.isCfi sig pc then
      [say "\n[sppc] check failed: control-flow integrity: an indirect call reached a function of another type\n"]
    else
      [say "\n[sppc] fatal signal: ", say sig.name] ++
        (if sig = .SIGSEGV ∨ sig = .SIGBUS then [say " at address ", .putHex addr] else []) ++ [say "\n"]
  | exception code parameters _ _ =>
    [say "\n[sppc] fatal exception: ", say (exceptionName code)] ++
      (match parameters with
        | how :: addr :: _ =>
          if code = EXCEPTION_ACCESS_VIOLATION ∨ code = EXCEPTION_IN_PAGE_ERROR then
            [say (if how = 0 then " reading" else if how = 1 then " writing" else if how = 8 then
              " executing" else " at"), say " address ", .putHex addr]
          else []
        | _ => []) ++
      [say " (", .putHex (BitVec.ofNat _ code.toNat), say ")\n"]
  | winAbort _ _ => [say "\n[sppc] fatal signal: SIGABRT (aborted)\n"]

/-- Whether there is a context. -/
def Failure.isFault : Failure w → Bool
  | signal .. | exception .. => true
  | _ => false

def Failure.firstPc : Failure w → BitVec (8 * w.sizeof)
  | aborted pc _ | check _ _ _ pc _ | signal _ _ pc _ | exception _ _ pc _ | winAbort pc _ => pc

def Failure.frames : Failure w → Frames w
  | aborted _ frames | check _ _ _ _ frames | signal _ _ _ frames | exception _ _ _ frames | winAbort _ frames =>
    frames

/-- The calls of a report, with how the writes of its flushes go. -/
def Failure.report (T : Tracer w) (f : Failure w) (first last : List WriteAns) : Option (List (ReportCall w)) := do
  let trace ← if T.enabled then T.print f.isFault f.frames f.firstPc first else pure [.put T.offNote]
  pure (f.head T ++ trace ++ [.flush last])

/-! ### The text -/

/-- What may end a directory in the path of an object's file. -/
def isSeparator (windows : Bool) (c : UInt8) : Bool := c = 47 ∨ windows ∧ c = 92

/-- The frames that are told: from the first one at `want` on; where none is, `want` alone, if it is given. -/
def Tracer.traced (T : Tracer w) (f : Failure w) : List (BitVec (8 * w.sizeof)) :=
  let want := T.arch.want f.isFault f.firstPc
  if want ∈ f.frames.stack then f.frames.stack.dropWhile (· ≠ want)
  else if f.firstPc = 0 then f.frames.stack
  else [want]

/-- A number in hex. -/
def hexText (v : BitVec (8 * w.sizeof)) : List UInt8 := 48 :: 120 :: digitBytes 16 v.toNat

/-- The line of frame `k` at `pc`, where `isExact` tells the address of a fault from one to return to. -/
def Tracer.lineText (T : Tracer w) (isExact : Bool) (k : Nat) (pc : BitVec (8 * w.sizeof)) : List UInt8 :=
  let found := T.resolve (if isExact then pc else pc - 1#(8 * w.sizeof))
  (literal "  #").chars ++ digitBytes 10 k ++ (literal (if k < 10 then "  " else " ")).chars ++
    (match found.name with
      | some name => withoutHash name.chars ++ (literal "+").chars ++ hexText (pc - found.start)
      | none => (literal "?? ").chars ++ hexText pc) ++
    (match found.object with
      | some object =>
        if object.chars = [] then []
        else (literal "  (").chars ++ object.chars.rtakeWhile (!isSeparator T.windows ·) ++ (literal ")").chars
      | none => []) ++
    (literal "\n").chars

/-- The backtrace of a failure. -/
def Tracer.traceText (T : Tracer w) (f : Failure w) : List UInt8 :=
  (literal "stack backtrace:\n").chars ++
    (T.traced f).zipIdx.flatMap fun l => T.lineText (l.2 = 0 ∧ f.isFault ∧ f.firstPc ≠ 0) l.2 l.1

/-- What a report says before its backtrace. -/
def Failure.headText (T : Tracer w) (f : Failure w) : List UInt8 := (f.head T).flatMap ReportCall.piece

/-- The texts that a report flushes. -/
def Failure.texts (T : Tracer w) (f : Failure w) : List (List UInt8) :=
  if T.enabled then [f.headText T, T.traceText f] else [f.headText T ++ T.offNote.chars]

section file

variable {windows : Bool} {object : CString} {c : UInt8} {i : Nat}

private theorem strrchr_some (h : strrchr object c = some i) :
    ∃ hi : i < object.chars.length, object.chars[i] = c ∧ c ∉ object.chars.drop (i + 1) := by
  obtain ⟨k, hk, hi⟩ := Option.map_eq_some_iff.1 h
  obtain ⟨hlt, hc, hbefore⟩ := List.findIdx?_eq_some_iff_getElem.1 hk
  rw [List.length_reverse] at hlt
  rw [List.getElem_reverse, decide_eq_true_eq] at hc
  subst hi
  refine ⟨by omega, hc, fun hmem => ?_⟩
  obtain ⟨j, hj, hget⟩ := List.getElem_of_mem hmem
  rw [List.length_drop] at hj
  -- a later one would be met sooner from the end
  refine hbefore (object.chars.length - 1 - (object.chars.length - 1 - k + 1 + j)) (by omega) ?_
  rw [List.getElem_reverse, decide_eq_true_eq, ← hget, List.getElem_drop]
  congr 1
  omega

private theorem strrchr_none (h : strrchr object c = none) : c ∉ object.chars := by
  rw [strrchr, Option.map_eq_none_iff, List.findIdx?_eq_none_iff] at h
  intro hmem
  have hc := h c (List.mem_reverse.2 hmem)
  simp at hc

/-- What is behind the last separator, where nothing behind it is one. -/
private theorem rtakeWhile_eq_drop {chars : List UInt8} (hi : i < chars.length) (hsep : isSeparator windows chars[i])
    (hrest : ∀ c ∈ chars.drop (i + 1), ¬isSeparator windows c) :
    chars.rtakeWhile (!isSeparator windows ·) = chars.drop (i + 1) := by
  have hsplit : chars = chars.take i ++ chars[i] :: chars.drop (i + 1) := by
    rw [← List.drop_eq_getElem_cons hi, List.take_append_drop]
  have hback : ∀ c ∈ (chars.drop (i + 1)).reverse, (!isSeparator windows c) = true := fun c hc => by
    simp [hrest c (List.mem_reverse.1 hc)]
  calc chars.rtakeWhile (!isSeparator windows ·)
      = (chars.take i ++ chars[i] :: chars.drop (i + 1)).rtakeWhile (!isSeparator windows ·) := congrArg _ hsplit
    _ = chars.drop (i + 1) := by
        simp only [List.rtakeWhile, List.reverse_append, List.reverse_cons, List.append_assoc]
        rw [List.takeWhile_append_of_pos hback]
        simp [hsep]

/-- The file's name is what is behind the last separator of its path. -/
private theorem fileName_chars (windows : Bool) (object : CString) :
    (fileName windows object).chars = object.chars.rtakeWhile (!isSeparator windows ·) := by
  have hself (h47 : 47 ∉ object.chars) (h92 : windows = true → 92 ∉ object.chars) :
      object.chars = object.chars.rtakeWhile (!isSeparator windows ·) := by
    refine (List.rtakeWhile_eq_self_iff.2 fun c hc => ?_).symm
    grind [isSeparator]
  have hbehind {i : Nat} {c : UInt8} (hi : i < object.chars.length) (hc : object.chars[i] = c)
      (hsep : isSeparator windows c) (h47 : 47 ∉ object.chars.drop (i + 1))
      (h92 : windows = true → 92 ∉ object.chars.drop (i + 1)) :
      (stringFrom object (i + 1)).chars = object.chars.rtakeWhile (!isSeparator windows ·) := by
    refine (rtakeWhile_eq_drop hi (hc ▸ hsep) fun c hc => ?_).symm
    grind [isSeparator]
  have hlater {i j : Nat} {c : UInt8} (hij : i < j) (h : c ∉ object.chars.drop (i + 1)) :
      c ∉ object.chars.drop (j + 1) :=
    fun hmem => h (List.drop_subset_drop_left _ (by omega) hmem)
  unfold fileName
  cases windows with
  | false =>
    cases hslash : strrchr object 47 with
    | none => exact hself (strrchr_none hslash) (by simp)
    | some slash =>
      obtain ⟨hlt, hc, hrest⟩ := strrchr_some hslash
      exact hbehind hlt hc rfl hrest (by simp)
  | true =>
    cases hback : strrchr object 92 with
    | none =>
      cases hslash : strrchr object 47 with
      | none => exact hself (strrchr_none hslash) fun _ => strrchr_none hback
      | some slash =>
        obtain ⟨hlt, hc, hrest⟩ := strrchr_some hslash
        exact hbehind hlt hc rfl hrest fun _ hmem => strrchr_none hback (List.mem_of_mem_drop hmem)
    | some back =>
      obtain ⟨hlt', hc', hrest'⟩ := strrchr_some hback
      cases hslash : strrchr object 47 with
      | none => exact hbehind hlt' hc' rfl (fun hmem => strrchr_none hslash (List.mem_of_mem_drop hmem)) fun _ =>
        hrest'
      | some slash =>
        obtain ⟨hlt, hc, hrest⟩ := strrchr_some hslash
        rcases Nat.lt_trichotomy slash back with hlt'' | heq | hgt
        · simp only [if_true, if_pos hlt'']
          exact hbehind hlt' hc' rfl (hlater hlt'' hrest) fun _ => hrest'
        · subst heq
          rw [hc] at hc'
          cases hc'
        · simp only [if_true, if_neg (Nat.lt_asymm hgt)]
          exact hbehind hlt hc rfl hrest fun _ => hlater hgt hrest'

end file

section text

variable {T : Tracer w} {frames : Frames w} {start n i k : Nat}

private theorem line_text (T : Tracer w) (isExact : Bool) (hk : k < 2 ^ 64) (pc : BitVec (8 * w.sizeof)) :
    (T.line k pc (if isExact then pc else pc - 1#(8 * w.sizeof))).flatMap ReportCall.piece =
      T.lineText isExact k pc := by
  have hdec : (UInt64.ofNat k).toNat = k := UInt64.toNat_ofNat_of_lt' hk
  unfold Tracer.line Tracer.lineText
  rcases T.resolve (if isExact then pc else pc - 1#(8 * w.sizeof)) with ⟨name, start, object⟩
  have hobject : (match object with
      | some object => if object.chars ≠ [] then [say "  (", .put (fileName T.windows object), say ")"] else []
      | none => ([] : List (ReportCall w))).flatMap ReportCall.piece =
      match object with
      | some object =>
        if object.chars = [] then []
        else (literal "  (").chars ++ object.chars.rtakeWhile (!isSeparator T.windows ·) ++ (literal ")").chars
      | none => [] := by
    cases object with
    | none => rfl
    | some object => by_cases hempty : object.chars = [] <;> simp [say, ReportCall.piece, hempty, fileName_chars]
  rw [List.flatMap_append, List.flatMap_append, List.flatMap_append, hobject]
  cases name <;> simp [say, ReportCall.piece, hexText, hdec]

/-- No call of a line flushes. -/
def ReportCall.Puts : ReportCall w → Prop
  | flush _ => False
  | _ => True

private theorem line_puts (T : Tracer w) (k : Nat) (pc lookup : BitVec (8 * w.sizeof)) :
    ∀ c ∈ T.line k pc lookup, c.Puts := by
  unfold Tracer.line
  rcases T.resolve lookup with ⟨name, start, object⟩
  cases name <;> cases object <;> grind [say, ReportCall.Puts]

/-- Calls that put the text, and flush nothing. -/
structure PutsText (cs : List (ReportCall w)) (text : List UInt8) : Prop where
  puts : ∀ c ∈ cs, c.Puts
  text : cs.flatMap ReportCall.piece = text

theorem PutsText.append {cs cs' : List (ReportCall w)} {text text' : List UInt8} (h : PutsText cs text)
    (h' : PutsText cs' text') : PutsText (cs ++ cs') (text ++ text') :=
  ⟨fun c hc => (List.mem_append.1 hc).elim (h.puts c) (h'.puts c), by rw [List.flatMap_append, h.text, h'.text]⟩

/-- The loop prints the frames it is given, as long as they are in the array. -/
private theorem lines_spec (T : Tracer w) (isExact : Bool) {slots : List (BitVec (8 * w.sizeof))} (hstart : start ≤ i)
    (hn : i + n ≤ slots.length) (hsize : slots.length ≤ SPPC_BT_MAX_FRAMES) :
    ∃ cs, T.lines slots start isExact n i = some cs ∧
      PutsText cs ((((slots.drop i).take n).zipIdx (i - start)).flatMap fun l =>
        T.lineText (l.2 = 0 ∧ isExact) l.2 l.1) := by
  induction n generalizing i with
  | zero => exact ⟨[], rfl, by simp, by simp⟩
  | succ n ih =>
    obtain ⟨cs, hcs, htext⟩ := @ih (i + 1) (by omega) (by omega)
    have hi : i < slots.length := by omega
    have hfirst : (i = start ∧ isExact = true) ↔ (i - start = 0 ∧ isExact = true) := by
      constructor <;> rintro ⟨h, he⟩ <;> exact ⟨by omega, he⟩
    rw [Tracer.lines, List.getElem?_eq_getElem hi]
    refine ⟨T.line (i - start) slots[i]
      (if i = start ∧ isExact = true then slots[i] else slots[i] - 1#(8 * w.sizeof)) ++ cs,
      by simp only [hcs, Option.bind_eq_bind, Option.bind_some, Option.pure_def], ?_⟩
    rw [List.drop_eq_getElem_cons hi, List.take_succ_cons, List.zipIdx_cons, List.flatMap_cons,
      show i - start + 1 = i + 1 - start by omega]
    refine PutsText.append ⟨line_puts T _ _ _, ?_⟩ htext
    have hk : i - start < 2 ^ 64 := by
      unfold SPPC_BT_MAX_FRAMES at hsize
      omega
    have hline := line_text T (decide (i - start = 0 ∧ isExact = true)) hk slots[i]
    simp only [decide_eq_true_eq] at hline
    simp only [hfirst]
    exact hline

/-- From the first frame at `want` on, the frames are what is left of the stack. -/
private theorem stack_drop {want : BitVec (8 * w.sizeof)} (h : frames.stack.findIdx? (· = want) = some start) :
    (frames.slots.drop start).take (frames.n - start) = frames.stack.dropWhile (· ≠ want) := by
  obtain ⟨hlt, hfind⟩ := List.findIdx?_eq_some_iff_findIdx_eq.1 h
  rw [List.dropWhile_eq_drop_findIdx_not, ← List.drop_take, Frames.stack]
  congr 1
  rw [← hfind, Frames.stack]
  congr 1
  funext pc
  simp

/-- The loops stay in the array of the frames, and print those that are told. -/
private theorem traceLines_spec (T : Tracer w) (f : Failure w) :
    ∃ cs, T.traceLines f.isFault f.frames f.firstPc = some cs ∧ PutsText cs
      ((T.traced f).zipIdx.flatMap fun l => T.lineText (l.2 = 0 ∧ f.isFault ∧ f.firstPc ≠ 0) l.2 l.1) := by
  have hsize := f.frames.size
  have hn := f.frames.n_le
  have hspec (slots : List (BitVec (8 * w.sizeof))) (start n : Nat) (hn : start + n ≤ slots.length)
      (hsize : slots.length ≤ SPPC_BT_MAX_FRAMES) :
      ∃ cs, T.lines slots start (f.isFault ∧ f.firstPc ≠ 0) n start = some cs ∧ PutsText cs
        (((slots.drop start).take n).zipIdx.flatMap fun l =>
          T.lineText (l.2 = 0 ∧ f.isFault ∧ f.firstPc ≠ 0) l.2 l.1) := by
    obtain ⟨cs, hcs, htext⟩ := lines_spec T (f.isFault ∧ f.firstPc ≠ 0) (Nat.le_refl start) hn hsize
    simp only [Nat.sub_self, decide_eq_true_eq] at htext
    exact ⟨cs, hcs, htext⟩
  unfold Tracer.traceLines Tracer.traced
  dsimp only
  cases hfind : f.frames.stack.findIdx? (· = T.arch.want f.isFault f.firstPc) with
  | some start =>
    obtain ⟨hlt, hwant, -⟩ := List.findIdx?_eq_some_iff_getElem.1 hfind
    rw [decide_eq_true_eq] at hwant
    have hlength : f.frames.stack.length = f.frames.n := by
      rw [Frames.stack, List.length_take]
      omega
    have hmem : T.arch.want f.isFault f.firstPc ∈ f.frames.stack := by
      rw [← hwant]
      exact List.getElem_mem hlt
    rw [if_pos hmem, ← stack_drop hfind]
    exact hspec _ _ _ (by omega) hsize.le
  | none =>
    have hmem : T.arch.want f.isFault f.firstPc ∉ f.frames.stack := by
      intro hmem
      have hne := List.findIdx?_eq_none_iff.1 hfind _ hmem
      simp at hne
    rw [if_neg hmem]
    by_cases hpc : f.firstPc = 0
    · rw [if_pos hpc]
      dsimp only
      rw [if_neg (not_not.2 hpc)]
      exact hspec f.frames.slots 0 f.frames.n (by omega) hsize.le
    · rw [if_neg hpc]
      dsimp only
      rw [if_pos hpc]
      have hset : ((f.frames.slots.set 0 (T.arch.want f.isFault f.firstPc)).drop 0).take 1 =
          [T.arch.want f.isFault f.firstPc] := by
        cases hslots : f.frames.slots with
        | nil =>
          rw [hslots] at hsize
          cases hsize
        | cons a l => rfl
      rw [← hset]
      refine hspec _ 0 1 ?_ ?_
      · rw [List.length_set, hsize]
        decide
      · rw [List.length_set]
        exact hsize.le

/-- A backtrace flushes what is there before it, and puts its text. -/
theorem print_spec (T : Tracer w) (f : Failure w) (answers : List WriteAns) :
    ∃ cs, T.print f.isFault f.frames f.firstPc answers = some (.flush answers :: cs) ∧
      PutsText cs (T.traceText f) := by
  obtain ⟨cs, hcs, htext⟩ := traceLines_spec T f
  have htitle : PutsText (w := w) [say "stack backtrace:\n"] (literal "stack backtrace:\n").chars :=
    ⟨by simp [say, ReportCall.Puts], by simp [say, ReportCall.piece]⟩
  refine ⟨say "stack backtrace:\n" :: cs, ?_, htitle.append htext⟩
  rw [Tracer.print, hcs]
  rfl

theorem head_puts (T : Tracer w) (f : Failure w) : PutsText (f.head T) (f.headText T) := by
  refine ⟨?_, rfl⟩
  cases f with
  | aborted => simp [Failure.head, say, ReportCall.Puts]
  | check c a b pc frames =>
    have hcheck : ∀ call ∈ T.checkCalls c a b, call.Puts := by
      unfold Tracer.checkCalls
      split <;> simp [say, ReportCall.Puts]
    simp only [Failure.head, say, List.cons_append, List.forall_mem_cons, List.forall_mem_append]
    exact ⟨trivial, hcheck, by simp [ReportCall.Puts]⟩
  | signal sig addr pc frames =>
    rw [Failure.head]
    split
    · simp [say, ReportCall.Puts]
    · by_cases hsig : sig = .SIGSEGV ∨ sig = .SIGBUS <;> simp [say, ReportCall.Puts, hsig]
  | exception code parameters pc frames =>
    rcases parameters with _ | ⟨how, _ | ⟨addr, rest⟩⟩
    · simp [Failure.head, say, ReportCall.Puts]
    · simp [Failure.head, say, ReportCall.Puts]
    · by_cases hcode : code = EXCEPTION_ACCESS_VIOLATION ∨ code = EXCEPTION_IN_PAGE_ERROR <;>
        simp [Failure.head, say, ReportCall.Puts, hcode]
  | winAbort => simp [Failure.head, say, ReportCall.Puts]

end text

section written

variable {r : Report} {pieces : List UInt8} {windows : Bool}

/-- Calls that put a text, and the flush that writes it. -/
structure Chunk (w : WordSize) where
  calls : List (ReportCall w)
  text : List UInt8
  answers : List WriteAns
  puts : PutsText calls text

def Chunk.all (c : Chunk w) : List (ReportCall w) := c.calls ++ [.flush c.answers]

/-- What the texts come to in a report. -/
def wholeText (texts : List (List UInt8)) : List UInt8 := (texts.map (·.take SPPC_BT_BUF_SIZE)).flatten

/-- What a run has written: of each text a part from its start on, and all of it if its writes go. -/
structure Tells (windows : Bool) (texts : List (List UInt8)) (answers : List WriteAns) (f : Written) : Prop where
  parts : ∃ outs : List (List UInt8), f.out = outs.flatten ∧
    List.Forall₂ (fun out text => out <+: text.take SPPC_BT_BUF_SIZE) outs texts
  out_le : (∀ ans ∈ answers, ans.Goes windows) → f.out <+: wholeText texts
  whole : (∀ ans ∈ answers, ans.Goes windows) → f.returned = true → f.out = wholeText texts
  empty : f.returned = true → f.report.Holds []

/-- A call that puts a piece returns. -/
theorem put_call (windows : Bool) (hr : r.Holds pieces) {c : ReportCall w} (hc : c.Puts) :
    ∃ r', r.call windows c = some ⟨r', [], true⟩ ∧ r'.Holds (pieces ++ c.piece) := by
  have hmap {put : Option Report} {piece : List UInt8} (hspec : ∃ r', put = some r' ∧ r'.Holds (pieces ++ piece)) :
      ∃ r', put.map (fun r => (⟨r, [], true⟩ : Written)) = some ⟨r', [], true⟩ ∧ r'.Holds (pieces ++ piece) := by
    obtain ⟨r', rfl, hholds⟩ := hspec
    exact ⟨r', rfl, hholds⟩
  cases c with
  | putN s n hn => exact hmap (putN_spec w hr hn)
  | put s => exact hmap (put_spec w hr s.noEnd)
  | putSymbol name => exact hmap (putSymbol_spec w hr name.noEnd)
  | putHex v => exact hmap (putHex_spec hr v)
  | putDec v => exact hmap (putDec_spec w hr v)
  | flush answers => exact absurd hc id

/-- Calls that put a text leave it in the report. -/
theorem PutsText.calls {cs : List (ReportCall w)} {text : List UInt8} (h : PutsText cs text) (windows : Bool)
    (hr : r.Holds pieces) (ds : List (ReportCall w)) :
    ∃ r' : Report, r'.Holds (pieces ++ text) ∧ r.calls windows (cs ++ ds) = r'.calls windows ds := by
  obtain ⟨hputs, rfl⟩ := h
  induction cs generalizing r pieces with
  | nil => exact ⟨r, by simpa using hr, rfl⟩
  | cons c cs ih =>
    obtain ⟨hc, hcs⟩ := List.forall_mem_cons.1 hputs
    obtain ⟨r', hcall, hr'⟩ := put_call windows hr hc
    obtain ⟨r'', hr'', hcalls⟩ := ih hr' hcs
    refine ⟨r'', ?_, ?_⟩
    · rw [List.flatMap_cons, ← List.append_assoc]
      exact hr''
    · rw [List.cons_append, Report.calls, hcall]
      simp [hcalls]

/-- Chunks write their texts, one after the other. -/
private theorem chunks_tell (windows : Bool) (hr : r.Holds []) (chunks : List (Chunk w)) :
    ∃ f, r.calls windows (chunks.flatMap Chunk.all) = some f ∧
      Tells windows (chunks.map Chunk.text) (chunks.flatMap Chunk.answers) f := by
  induction chunks generalizing r with
  | nil => exact ⟨_, rfl, ⟨[], rfl, .nil⟩, fun _ => List.nil_prefix, fun _ _ => rfl, fun _ => hr⟩
  | cons c chunks ih =>
    obtain ⟨r', hr', hcalls⟩ := c.puts.calls windows hr (.flush c.answers :: chunks.flatMap Chunk.all)
    rw [List.nil_append] at hr'
    obtain ⟨f, hf, hflushes⟩ := flush_spec windows hr' c.answers
    rw [List.flatMap_cons, Chunk.all, List.append_assoc, List.singleton_append, hcalls, Report.calls, Report.call, hf]
    simp only [List.map_cons, List.flatMap_cons]
    cases hret : f.returned with
    | false =>
      refine ⟨f, rfl, ⟨f.out :: chunks.map fun _ => [], by simp, ?_⟩, fun hgoes => ?_, fun _ h => ?_, fun h => ?_⟩
      · refine .cons hflushes.out_le ?_
        rw [List.forall₂_map_left_iff, List.forall₂_map_right_iff, List.forall₂_same]
        exact fun _ _ => List.nil_prefix
      · exact hflushes.out_le.trans (List.prefix_append _ _)
      all_goals
        rw [hret] at h
        cases h
    | true =>
      have hheld : f.report.Holds [] := holds_nil (hflushes.buf ▸ hr'.size) (hflushes.empty hret)
      obtain ⟨g, hg, ⟨outs, hout, hparts⟩, hle, hwhole, hempty⟩ := ih hheld
      refine ⟨{ g with out := f.out ++ g.out }, by
        simp [hg], ⟨f.out :: outs, by simp [hout], .cons hflushes.out_le hparts⟩, fun hgoes =>
          ?_, fun hgoes hret' => ?_, hempty⟩
      · rw [List.forall_mem_append] at hgoes
        have hfirst := hflushes.whole hgoes.1 hret
        show f.out ++ g.out <+: _
        rw [hfirst]
        exact (List.prefix_append_right_inj _).2 (hle hgoes.2)
      · rw [List.forall_mem_append] at hgoes
        show f.out ++ g.out = _
        rw [hflushes.whole hgoes.1 hret, hwhole hgoes.2 hret']
        rfl

end written

end Sppc.Backtrace
