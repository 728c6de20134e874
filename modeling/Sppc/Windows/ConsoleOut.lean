import Sppc.Framing
import Mathlib.Data.Nat.Bitwise

/-!
# Writing to a console (`platform/windows.h`)

`_sppc_console_write`: the bytes go to the console as whole characters, and the start of one that a write ends
part-way through is kept for the next.
-/

namespace Sppc.Windows

open Framing

/-- The bytes that continue a character. -/
def Cont (c : UInt8) : Prop := c &&& 0xC0 = 0x80

instance Cont.decidable (c : UInt8) : Decidable (Cont c) := inferInstanceAs (Decidable (_ = _))

/-- `_sppc_utf8_len`. -/
def utf8Len (lead : UInt8) : Nat :=
  if 0xF0 ≤ lead ∧ lead ≤ 0xF7 then 4
  else if 0xE0 ≤ lead then (if lead ≤ 0xEF then 3 else 1)
  else if 0xC0 ≤ lead then 2
  else 1

/-- The loop of `_sppc_utf8_whole`, over the numbers of bytes back. -/
def utf8WholeFrom (data : List UInt8) : List Nat → Nat
  | [] => data.length
  | back :: backs =>
    if back ≤ data.length then
      let c := data.getD (data.length - back) 0
      if Cont c then utf8WholeFrom data backs
      else if back < utf8Len c then data.length - back else data.length
    else data.length

/-- `_sppc_utf8_whole`. -/
def utf8Whole (data : List UInt8) : Nat := utf8WholeFrom data (List.range' 1 3)

/-- A console's description: the bytes `pending[0..npending)`, and the bytes given to `_sppc_console_put` so far, call
by call. -/
structure ConsoleOut where
  pending : List UInt8
  puts : List (List UInt8)
  deriving DecidableEq, Repr

/-- `_sppc_console_put`: 0, or the Win32 error.  `win` is what Windows makes of each put. -/
def consolePut (win : Nat → Nat) (ofd : ConsoleOut) (data : List UInt8) : ConsoleOut × Nat :=
  ({ ofd with puts := ofd.puts ++ [data] }, if data = [] then 0 else win ofd.puts.length)

/-- A byte is stored in `pending`, which has room for four: `none` if it does not fit. -/
def pushPending (pending : List UInt8) (b : UInt8) : Option (List UInt8) :=
  if pending.length < 4 then some (pending ++ [b]) else none

/-- The loop that finishes the character which the last write began, with what is left of the data. -/
def finishPending (want : Nat) : List UInt8 → List UInt8 → Option (List UInt8 × List UInt8)
  | pending, [] => some (pending, [])
  | pending, b :: data =>
    if pending.length < want ∧ Cont b then (pushPending pending b).bind fun pending => finishPending want pending data
    else some (pending, b :: data)

/-- The `memcpy` of the rest of the data behind what is pending. -/
def copyPending (pending data : List UInt8) : Option (List UInt8) :=
  if pending.length + data.length ≤ 4 then some (pending ++ data) else none

/-- The first part of a write: the character that the last write began is finished, and goes out if it is whole or cut
short.  With the error, and what is left of the data. -/
def consoleFinish (win : Nat → Nat) (ofd : ConsoleOut) (data : List UInt8) : Option (ConsoleOut × Nat × List UInt8) :=
  match ofd.pending, data with
  | lead :: _, _ :: _ =>
    let want := utf8Len lead
    (finishPending want ofd.pending data).map fun (pending, data) =>
      if pending.length = want ∨ data ≠ [] then
        let (ofd, err) := consolePut win { ofd with pending } pending
        ({ ofd with pending := [] }, err, data)
      else ({ ofd with pending }, 0, data)
  | _, _ => some (ofd, 0, data)

/-- `_sppc_console_write`: what it returns, or `none` if a byte is stored outside `pending`. -/
def consoleWrite (win : Nat → Nat) (ofd : ConsoleOut) (data : List UInt8) : Option (ConsoleOut × Int) :=
  (consoleFinish win ofd data).bind fun (ofd, err, rest) =>
    if err = 0 then
      let whole := utf8Whole rest
      let (ofd, err) := consolePut win ofd (rest.take whole)
      if err = 0 then
        (copyPending ofd.pending (rest.drop whole)).map fun pending => ({ ofd with pending }, (data.length : Int))
      else some (ofd, -1)
    else some (ofd, -1)

/-- The writes to a console, with what each returns. -/
def consoleWrites (win : Nat → Nat) : ConsoleOut → List (List UInt8) → Option (ConsoleOut × List Int)
  | ofd, [] => some (ofd, [])
  | ofd, data :: writes =>
    (consoleWrite win ofd data).bind fun (ofd, ret) =>
      (consoleWrites win ofd writes).map fun (ofd, rets) => (ofd, ret :: rets)

/-- A console's description at the start. -/
def ConsoleOut.new : ConsoleOut := ⟨[], []⟩

/-! ### UTF-8 -/

/-- The characters. -/
def IsChar (l : List UInt8) : Prop := ∃ c : Char, l = String.utf8EncodeChar c

private theorem cont_ofNat {x : Nat} (hx : x < 64) : Cont (UInt8.ofNat (x + 0x80)) := by
  have hall : ∀ x < 64, Cont (UInt8.ofNat (x + 0x80)) := by decide +kernel
  exact hall x hx

private theorem utf8_framed : Framed IsChar Cont utf8Len where
  shape := by
    rintro _ ⟨c, rfl⟩
    have hone : ∀ x < 128, ¬Cont (UInt8.ofNat x) ∧ utf8Len (UInt8.ofNat x) = 1 := by decide +kernel
    have htwo : ∀ x < 32, ¬Cont (UInt8.ofNat (x + 0xC0)) ∧ utf8Len (UInt8.ofNat (x + 0xC0)) = 2 := by decide +kernel
    have hthree : ∀ x < 16, ¬Cont (UInt8.ofNat (x + 0xE0)) ∧ utf8Len (UInt8.ofNat (x + 0xE0)) = 3 := by decide +kernel
    have hfour : ∀ x < 8, ¬Cont (UInt8.ofNat (x + 0xF0)) ∧ utf8Len (UInt8.ofNat (x + 0xF0)) = 4 := by decide +kernel
    have hcont (n : Nat) : Cont (UInt8.ofNat (n % 64 + 0x80)) := cont_ofNat (Nat.mod_lt n (by omega))
    fun_cases String.utf8EncodeChar c with
    | case1 v h =>
      obtain ⟨hlead, hlen⟩ := hone v (by omega)
      refine ⟨_, _, rfl, hlead, nofun, ?_⟩
      rw [hlen, List.length_nil]
    | case2 v _ _ =>
      obtain ⟨hlead, hlen⟩ := htwo (v / 64 % 32) (Nat.mod_lt _ (by omega))
      refine ⟨_, _, rfl, hlead, ?_, ?_⟩
      · simp only [List.forall_mem_cons]
        exact ⟨hcont v, nofun⟩
      · exact hlen.symm
    | case3 v _ _ _ =>
      obtain ⟨hlead, hlen⟩ := hthree (v / 4096 % 16) (Nat.mod_lt _ (by omega))
      refine ⟨_, _, rfl, hlead, ?_, ?_⟩
      · simp only [List.forall_mem_cons]
        exact ⟨hcont _, hcont v, nofun⟩
      · exact hlen.symm
    | case4 v _ _ _ =>
      obtain ⟨hlead, hlen⟩ := hfour (v / 262144 % 8) (Nat.mod_lt _ (by omega))
      refine ⟨_, _, rfl, hlead, ?_, ?_⟩
      · simp only [List.forall_mem_cons]
        exact ⟨hcont _, hcont _, hcont v, nofun⟩
      · exact hlen.symm

/-- Whole characters are the UTF-8 of a text. -/
private theorem whole_isChar_iff {l : List UInt8} :
    Whole IsChar l ↔ ∃ cs : List Char, l = cs.flatMap String.utf8EncodeChar := by
  constructor
  · rintro ⟨bs, hbs, rfl⟩
    induction bs with
    | nil => exact ⟨[], rfl⟩
    | cons b bs ih =>
      obtain ⟨c, hc⟩ := hbs b List.mem_cons_self
      obtain ⟨cs, hcs⟩ := ih fun b' hb' => hbs b' (List.mem_cons_of_mem b hb')
      refine ⟨c :: cs, ?_⟩
      rw [List.flatten_cons, List.flatMap_cons, hcs, hc]
  · rintro ⟨cs, rfl⟩
    refine ⟨cs.map String.utf8EncodeChar, fun b hb => ?_, ?_⟩
    · obtain ⟨c, -, rfl⟩ := List.mem_map.1 hb
      exact ⟨c, rfl⟩
    · rw [List.flatMap_def]

/-! ### The whole characters of a write -/

variable {data body p r t pending : List UInt8} {h : UInt8} {win : Nat → Nat} {ofd ofd' : ConsoleOut} {want : Nat}

private theorem utf8Len_le (h : UInt8) : utf8Len h ≤ 4 := by
  unfold utf8Len
  split
  · omega
  · split
    · split <;> omega
    · split <;> omega

/-- The bytes after the last that continues none are looked at from the end on, up to that one. -/
private theorem utf8WholeFrom_of_lead (hh : ¬Cont h) (ht : ∀ x ∈ t, Cont x) (k m : Nat) (hk : k ≤ t.length) :
    utf8WholeFrom (body ++ h :: t) (List.range' (k + 1) m) =
      if t.length < k + m ∧ t.length + 1 < utf8Len h then body.length else (body ++ h :: t).length := by
  have hlen : (body ++ h :: t).length = body.length + (t.length + 1) := by rw [List.length_append, List.length_cons]
  induction m generalizing k with
  | zero =>
    rw [List.range'_zero, utf8WholeFrom, if_neg]
    omega
  | succ m ih =>
    rw [List.range'_succ, utf8WholeFrom, if_pos (by omega)]
    dsimp only
    by_cases heq : k = t.length
    · have hget : (body ++ h :: t).getD ((body ++ h :: t).length - (k + 1)) 0 = h := by
        rw [hlen, heq, Nat.add_sub_cancel, List.getD_append_right _ _ _ _ le_rfl, Nat.sub_self, List.getD_cons_zero]
      rw [hget, if_neg hh, heq, hlen, Nat.add_sub_cancel]
      by_cases hlong : t.length + 1 < utf8Len h
      · rw [if_pos hlong, if_pos ⟨by omega, hlong⟩]
      · rw [if_neg hlong, if_neg fun hc => hlong hc.2]
    · have hlt : t.length - (k + 1) < t.length := by omega
      have hget : (body ++ h :: t).getD ((body ++ h :: t).length - (k + 1)) 0 = t.getD (t.length - (k + 1)) 0 := by
        have hidx : (body ++ h :: t).length - (k + 1) = body.length + (t.length - (k + 1) + 1) := by omega
        rw [hidx, List.getD_append_right _ _ _ _ (by omega), Nat.add_sub_cancel_left, List.getD_cons_succ]
      have hcont : Cont (t.getD (t.length - (k + 1)) 0) := by
        rw [List.getD_eq_getElem _ _ hlt]
        exact ht _ (List.getElem_mem hlt)
      rw [hget, if_pos hcont, ih (k + 1) (by omega), Nat.add_right_comm, Nat.add_assoc]

private theorem utf8WholeFrom_of_cont (ht : ∀ x ∈ t, Cont x) (backs : List Nat) (hpos : ∀ back ∈ backs, 0 < back) :
    utf8WholeFrom t backs = t.length := by
  induction backs with
  | nil => rfl
  | cons back backs ih =>
    have hback := hpos back List.mem_cons_self
    rw [utf8WholeFrom]
    split
    · rename_i hle
      have hlt : t.length - back < t.length := by omega
      have hcont : Cont (t.getD (t.length - back) 0) := by
        rw [List.getD_eq_getElem _ _ hlt]
        exact ht _ (List.getElem_mem hlt)
      dsimp only
      rw [if_pos hcont]
      exact ih fun b hb => hpos b (List.mem_cons_of_mem back hb)
    · rfl

/-- A stream of bytes that continue a character, or one that ends in a byte which does not and ones that do. -/
private theorem cont_or_lead (data : List UInt8) :
    (∀ x ∈ data, Cont x) ∨ ∃ body h t, data = body ++ h :: t ∧ ¬Cont h ∧ ∀ x ∈ t, Cont x := by
  induction data with
  | nil => exact Or.inl nofun
  | cons x data ih =>
    rcases ih with hall | ⟨body, h, t, rfl, hh, ht⟩
    · by_cases hx : Cont x
      · exact Or.inl (List.forall_mem_cons.2 ⟨hx, hall⟩)
      · exact Or.inr ⟨[], x, data, rfl, hx, hall⟩
    · exact Or.inr ⟨x :: body, h, t, rfl, hh, ht⟩

/-- What is not whole at the end of a write is the start of a character. -/
private theorem utf8Whole_unfinished (data : List UInt8) :
    utf8Whole data ≤ data.length ∧ Framing.Unfinished Cont utf8Len (data.drop (utf8Whole data)) := by
  rcases cont_or_lead data with hall | ⟨body, h, t, rfl, hh, ht⟩
  · have hpos : ∀ back ∈ List.range' 1 3, 0 < back := by decide
    rw [utf8Whole, utf8WholeFrom_of_cont hall _ hpos, List.drop_length]
    exact ⟨le_rfl, Or.inl rfl⟩
  · rw [utf8Whole, utf8WholeFrom_of_lead hh ht 0 3 (Nat.zero_le _)]
    split
    · rename_i hlong
      rw [List.drop_left, List.length_append]
      exact ⟨by omega, Or.inr ⟨h, t, rfl, hh, ht, hlong.2⟩⟩
    · rw [List.drop_length]
      exact ⟨le_rfl, Or.inl rfl⟩

/-- Of whole characters and the start of another, the whole ones are found. -/
private theorem utf8Whole_eq (hw : Whole IsChar body) (hp : Framing.Unfinished Cont utf8Len p) :
    utf8Whole (body ++ p) = body.length := by
  rcases hp with rfl | ⟨h, t, rfl, hh, ht, hlen⟩
  · rw [List.append_nil]
    obtain ⟨bs, hbs, rfl⟩ := hw
    rcases List.eq_nil_or_concat bs with rfl | ⟨bs, b, rfl⟩
    · rfl
    · obtain ⟨h, t, rfl, hh, ht, hlen⟩ := utf8_framed.shape b (hbs b (by simp))
      rw [List.concat_eq_append, List.flatten_append, List.flatten_singleton, utf8Whole,
        utf8WholeFrom_of_lead hh ht 0 3 (Nat.zero_le _), if_neg]
      omega
  · have hle := utf8Len_le h
    rw [utf8Whole, utf8WholeFrom_of_lead hh ht 0 3 (Nat.zero_le _), if_pos ⟨by omega, hlen⟩]

/-! ### A write -/

/-- The loop takes bytes that continue a character, until the character is whole, no more bytes are left or one comes
that does not continue it. -/
private theorem finishPending_eq (hwant : want ≤ 4) (hpending : pending.length ≤ want) (data : List UInt8) :
    ∃ u rest, data = u ++ rest ∧ finishPending want pending data = some (pending ++ u, rest) ∧ (∀ x ∈ u, Cont x) ∧
      pending.length + u.length ≤ want ∧
      (pending.length + u.length = want ∨ rest = [] ∨ ∃ b s, rest = b :: s ∧ ¬Cont b) := by
  induction data generalizing pending with
  | nil =>
    refine ⟨[], [], rfl, ?_, nofun, hpending, Or.inr (Or.inl rfl)⟩
    rw [finishPending, List.append_nil]
  | cons b data ih =>
    rw [finishPending]
    by_cases hlt : pending.length < want
    · by_cases hb : Cont b
      · have hlen : (pending ++ [b]).length = pending.length + 1 := by simp
        have hle : (pending ++ [b]).length ≤ want := by omega
        obtain ⟨u, rest, rfl, hfinish, hu, hle, hend⟩ := ih hle
        have hu' : (b :: u).length = u.length + 1 := List.length_cons
        rw [if_pos ⟨hlt, hb⟩, pushPending, if_pos (by omega), Option.bind_some, hfinish]
        refine ⟨b :: u, rest, rfl, ?_, List.forall_mem_cons.2 ⟨hb, hu⟩, by omega, ?_⟩
        · rw [List.append_assoc]
          rfl
        · exact hend.imp_left fun heq => by omega
      · rw [if_neg fun hc => hb hc.2]
        refine ⟨[], b :: data, rfl, ?_, nofun, hpending, Or.inr (Or.inr ⟨b, data, rfl, hb⟩)⟩
        rw [List.append_nil]
    · rw [if_neg fun hc => hlt hc.1]
      refine ⟨[], b :: data, rfl, ?_, nofun, hpending, Or.inl ?_⟩
      · rw [List.append_nil]
      · rw [List.length_nil]
        omega

/-- What a part of a write does to the console: `new` are the puts that it makes, and if they all succeed what they
show, with what is pending and what is left, is what was pending and came, and they are whole characters if the stream
is. -/
structure Shown (win : Nat → Nat) (ofd ofd' : ConsoleOut) (err : Nat) (came left : List UInt8) : Prop where
  unfinished : Framing.Unfinished Cont utf8Len ofd'.pending
  shown : ∃ new, ofd'.puts = ofd.puts ++ new ∧ ((∀ k < ofd'.puts.length, win k = 0) →
    err = 0 ∧ new.flatten ++ ofd'.pending ++ left = ofd.pending ++ came ∧
      ∀ rest, Whole IsChar (ofd.pending ++ came ++ rest) →
        (∀ b ∈ new, Whole IsChar b) ∧ Whole IsChar (ofd'.pending ++ left ++ rest))

private theorem unfinished_length_lt (hp : Framing.Unfinished Cont utf8Len p) : p.length < 4 := by
  rcases hp with rfl | ⟨h, t, rfl, -, -, hlen⟩
  · decide
  · have hle := utf8Len_le h
    rw [List.length_cons]
    omega

/-- A part of a write that puts nothing and leaves the pending bytes and what came. -/
private theorem Shown.keep (hp : Framing.Unfinished Cont utf8Len ofd.pending) (data : List UInt8) :
    Shown win ofd ofd 0 data data where
  unfinished := hp
  shown := by
    refine ⟨[], (List.append_nil _).symm, fun _ => ⟨rfl, ?_, fun rest hw => ⟨nofun, hw⟩⟩⟩
    rw [List.flatten_nil, List.nil_append]

/-- The character that the last write began. -/
private theorem consoleFinish_shown (win : Nat → Nat) (hp : Framing.Unfinished Cont utf8Len ofd.pending)
    (data : List UInt8) :
    ∃ ofd' err left, consoleFinish win ofd data = some (ofd', err, left) ∧ Shown win ofd ofd' err data left ∧
      (ofd'.pending = [] ∨ left = []) := by
  unfold consoleFinish
  rcases hp with hnil | ⟨lead, t, hpending, hlead, ht, hlen⟩
  · rw [hnil]
    exact ⟨ofd, 0, data, rfl, Shown.keep (Or.inl hnil) data, Or.inl hnil⟩
  · cases data with
    | nil =>
      rw [hpending]
      exact ⟨ofd, 0, [], rfl, Shown.keep (Or.inr ⟨lead, t, hpending, hlead, ht, hlen⟩) [], Or.inr rfl⟩
    | cons b data =>
      have hwant := utf8Len_le lead
      have hpl : (lead :: t).length = t.length + 1 := List.length_cons
      have hpl' : (lead :: t).length ≤ utf8Len lead := by omega
      obtain ⟨u, left, hdata, hfinish, hu, hle, hend⟩ :=
        finishPending_eq hwant hpl' (b :: data)
      rw [hpending]
      dsimp only
      rw [hfinish, Option.map_some]
      dsimp only
      have htu : ∀ x ∈ t ++ u, Cont x := by
        intro x hx
        rcases List.mem_append.1 hx with hx | hx
        · exact ht x hx
        · exact hu x hx
      have hlu : (lead :: t ++ u).length = (lead :: t).length + u.length := List.length_append
      by_cases hout : (lead :: t ++ u).length = utf8Len lead ∨ left ≠ []
      · rw [if_pos hout, consolePut]
        refine ⟨_, _, left, rfl, ⟨Or.inl rfl, [lead :: t ++ u], rfl, fun hwin => ⟨?_, ?_, ?_⟩⟩, Or.inl rfl⟩
        · have hne : lead :: t ++ u ≠ [] := List.cons_ne_nil _ _
          dsimp only
          rw [if_neg hne]
          apply hwin
          dsimp only
          rw [List.length_append, List.length_singleton]
          omega
        · dsimp only
          rw [hpending, hdata, List.flatten_singleton, List.append_nil, List.append_assoc]
        · intro rest hw
          rw [hpending, hdata, List.append_assoc, List.append_assoc, ← List.append_assoc (lead :: t),
            List.cons_append] at hw
          have hltu : (t ++ u).length = t.length + u.length := List.length_append
          -- a byte that does not continue the character comes after it
          have hstop : (t ++ u).length + 1 = utf8Len lead ∨ ∃ x s, left ++ rest = x :: s ∧ ¬Cont x := by
            rcases hend with heq | rfl | ⟨b', s', rfl, hb'⟩
            · exact Or.inl (by omega)
            · rcases hout with heq | hne
              · exact Or.inl (by omega)
              · exact absurd rfl hne
            · exact Or.inr ⟨b', s' ++ rest, rfl, hb'⟩
          obtain ⟨hchar, hrest⟩ := hw.split_stop utf8_framed (by omega) hstop
          refine ⟨fun b hb => ?_, hrest⟩
          rw [List.mem_singleton.1 hb]
          exact Whole.one hchar
      · rw [if_neg hout]
        obtain ⟨hshort, hleft⟩ := not_or.1 hout
        obtain rfl := not_not.1 hleft
        have hlt : (t ++ u).length + 1 < utf8Len lead := by
          rw [List.length_append]
          omega
        refine ⟨_, _, [], rfl, ⟨Or.inr ⟨lead, t ++ u, rfl, hlead, htu, hlt⟩, [], ?_, fun _ => ⟨rfl, ?_, ?_⟩⟩,
          Or.inr rfl⟩
        · exact (List.append_nil _).symm
        · rw [hpending, hdata, List.flatten_nil, List.nil_append, List.append_nil, List.append_nil]
        · intro rest hw
          rw [hpending, hdata, List.append_nil] at hw
          rw [List.append_nil]
          exact ⟨nofun, hw⟩

private theorem Shown.trans {ofd'' : ConsoleOut} {err err' : Nat} {came mid left : List UInt8}
    (h : Shown win ofd ofd' err came mid) (h' : Shown win ofd' ofd'' err' mid left) :
    Shown win ofd ofd'' err' came left where
  unfinished := h'.unfinished
  shown := by
    obtain ⟨new, hnew, hshown⟩ := h.shown
    obtain ⟨new', hnew', hshown'⟩ := h'.shown
    refine ⟨new ++ new', ?_, fun hwin => ?_⟩
    · rw [hnew', hnew, List.append_assoc]
    · obtain ⟨herr', heq', hwhole'⟩ := hshown' hwin
      obtain ⟨-, heq, hwhole⟩ := hshown fun k hk => hwin k (by rw [hnew', List.length_append]; omega)
      refine ⟨herr', ?_, fun rest hw => ?_⟩
      · rw [← heq, List.flatten_append, List.append_assoc, List.append_assoc, ← List.append_assoc new'.flatten, heq',
          List.append_assoc]
      · obtain ⟨hchars, hw'⟩ := hwhole rest hw
        obtain ⟨hchars', hw''⟩ := hwhole' rest hw'
        refine ⟨fun b hb => ?_, hw''⟩
        rcases List.mem_append.1 hb with hb | hb
        · exact hchars b hb
        · exact hchars' b hb

/-- A part of a write that fails is one whose puts did not all succeed. -/
private theorem Shown.fail {err : Nat} {came left left' : List UInt8} (h : Shown win ofd ofd' err came left)
    (herr : err ≠ 0) : Shown win ofd ofd' err came left' where
  unfinished := h.unfinished
  shown := by
    obtain ⟨new, hnew, hshown⟩ := h.shown
    exact ⟨new, hnew, fun hwin => absurd (hshown hwin).1 herr⟩

/-- The put of the whole characters of the rest, with the start of one kept. -/
private theorem consoleRest_shown (win : Nat → Nat) (hp : Framing.Unfinished Cont utf8Len ofd.pending)
    {rest : List UInt8} (hone : ofd.pending = [] ∨ rest = []) :
    (ofd.pending ++ rest.drop (utf8Whole rest)).length ≤ 4 ∧
      Shown win ofd { pending := ofd.pending ++ rest.drop (utf8Whole rest), puts := ofd.puts ++
        [rest.take (utf8Whole rest)] } (consolePut win ofd (rest.take (utf8Whole rest))).2 rest [] := by
  have herr (hwin : ∀ k < (ofd.puts ++ [rest.take (utf8Whole rest)]).length, win k = 0) :
      (consolePut win ofd (rest.take (utf8Whole rest))).2 = 0 := by
    rw [consolePut]
    dsimp only
    split
    · rfl
    · apply hwin
      rw [List.length_append, List.length_singleton]
      omega
  rcases hone with hnil | rfl
  · obtain ⟨-, hdrop⟩ := utf8Whole_unfinished rest
    rw [hnil, List.nil_append]
    refine ⟨(unfinished_length_lt hdrop).le, hdrop, [rest.take (utf8Whole rest)], rfl,
      fun hwin => ⟨herr hwin, ?_, fun more hw => ?_⟩⟩
    · rw [hnil, List.flatten_singleton, List.append_nil, List.nil_append]
      exact List.take_append_drop _ rest
    · rw [hnil, List.nil_append] at hw
      obtain ⟨w, p, rfl, hw, hp, hpr⟩ := hw.split_prefix utf8_framed
      rw [utf8Whole_eq hw hp, List.take_left, List.append_nil, List.drop_left]
      refine ⟨fun b hb => ?_, hpr⟩
      rw [List.mem_singleton.1 hb]
      exact hw
  · rw [List.drop_nil, List.append_nil, List.take_nil]
    refine ⟨(unfinished_length_lt hp).le, hp, [[]], rfl,
      fun hwin => ⟨herr hwin, ?_, fun more hw => ⟨fun b hb => ?_, hw⟩⟩⟩
    · simp
    · rw [List.mem_singleton.1 hb]
      exact Whole.nil

/-- What a write does. -/
private theorem consoleWrite_shown (win : Nat → Nat) (hp : Framing.Unfinished Cont utf8Len ofd.pending)
    (data : List UInt8) :
    ∃ ofd' ret err, consoleWrite win ofd data = some (ofd', ret) ∧ (err = 0 → ret = data.length) ∧
      Shown win ofd ofd' err data [] := by
  obtain ⟨ofd₁, err₁, rest, hfinish, hshown, hone⟩ := consoleFinish_shown win hp data
  rw [consoleWrite, hfinish, Option.bind_some]
  dsimp only
  by_cases herr₁ : err₁ = 0
  · obtain ⟨hroom, hrest⟩ := consoleRest_shown win hshown.unfinished hone
    rw [if_pos herr₁]
    by_cases herr : (consolePut win ofd₁ (rest.take (utf8Whole rest))).2 = 0
    · rw [List.length_append] at hroom
      rw [if_pos herr, copyPending, consolePut, if_pos hroom]
      exact ⟨_, _, _, rfl, fun _ => rfl, hshown.trans hrest⟩
    · -- the put has failed, and what is pending stays
      have hkept : Shown win ofd₁ (consolePut win ofd₁ (rest.take (utf8Whole rest))).1
          (consolePut win ofd₁ (rest.take (utf8Whole rest))).2 rest [] := by
        obtain ⟨new, hnew, hwin⟩ := hrest.shown
        exact ⟨hshown.unfinished, new, hnew, fun h => absurd (hwin h).1 herr⟩
      rw [if_neg herr]
      exact ⟨_, _, _, rfl, fun h => absurd h herr, hshown.trans hkept⟩
  · rw [if_neg herr₁]
    exact ⟨_, _, _, rfl, fun h => absurd h herr₁, hshown.fail herr₁⟩

/-- What comes after a part of a write is left by it. -/
private theorem Shown.frame {err : Nat} {came : List UInt8} (h : Shown win ofd ofd' err came []) (more : List UInt8) :
    Shown win ofd ofd' err (came ++ more) more where
  unfinished := h.unfinished
  shown := by
    obtain ⟨new, hnew, hshown⟩ := h.shown
    refine ⟨new, hnew, fun hwin => ?_⟩
    obtain ⟨herr, heq, hwhole⟩ := hshown hwin
    rw [List.append_nil] at heq
    refine ⟨herr, ?_, fun rest hw => ?_⟩
    · rw [heq, List.append_assoc]
    · rw [← List.append_assoc, List.append_assoc] at hw
      have hall := hwhole (more ++ rest) hw
      rw [List.append_nil, ← List.append_assoc] at hall
      exact hall

/-- What a run of writes does. -/
private theorem consoleWrites_shown (win : Nat → Nat) (ofd : ConsoleOut)
    (hp : Framing.Unfinished Cont utf8Len ofd.pending) (writes : List (List UInt8)) : ∃ ofd' rets err,
      consoleWrites win ofd writes = some (ofd', rets) ∧
      ((∀ k < ofd'.puts.length, win k = 0) → rets = writes.map fun data => (data.length : Int)) ∧
      Shown win ofd ofd' err writes.flatten [] := by
  induction writes generalizing ofd with
  | nil => exact ⟨ofd, [], 0, rfl, fun _ => rfl, Shown.keep hp []⟩
  | cons data writes ih =>
    obtain ⟨ofd₁, ret, err₁, hwrite, hret, hshown⟩ := consoleWrite_shown win hp data
    obtain ⟨ofd', rets, err, hwrites, hrets, hrest⟩ := ih ofd₁ hshown.unfinished
    rw [consoleWrites, hwrite, Option.bind_some]
    dsimp only
    rw [hwrites]
    refine ⟨ofd', ret :: rets, err, rfl, fun hwin => ?_, ?_⟩
    · obtain ⟨new, -, hwin₁⟩ := hshown.shown
      obtain ⟨new', hnew', -⟩ := hrest.shown
      have herr₁ : err₁ = 0 := (hwin₁ fun k hk => hwin k (by rw [hnew', List.length_append]; omega)).1
      rw [hrets hwin, List.map_cons, hret herr₁]
    · rw [List.flatten_cons]
      exact (hshown.frame writes.flatten).trans hrest

/-- However a stream is split into writes, no byte is stored outside `pending`, which holds the start of a character;
and if every put succeeds, what was put and what is pending make up the stream, every write says that it took all its
bytes, and every put is of whole characters if the stream is the UTF-8 of a text, or the start of it. -/
theorem console_write_ok (win : Nat → Nat) (writes : List (List UInt8)) :
    ∃ ofd rets, consoleWrites win .new writes = some (ofd, rets) ∧
      Framing.Unfinished Cont utf8Len ofd.pending ∧ ofd.pending.length ≤ 3 ∧
      ((∀ k < ofd.puts.length, win k = 0) →
        ofd.puts.flatten ++ ofd.pending = writes.flatten ∧
        (rets = writes.map fun data => (data.length : Int)) ∧
        ∀ text : List Char, writes.flatten <+: text.flatMap String.utf8EncodeChar →
          ∀ b ∈ ofd.puts, ∃ cs : List Char, b = cs.flatMap String.utf8EncodeChar) := by
  obtain ⟨ofd, rets, err, hwrites, hrets, hshown⟩ := consoleWrites_shown win .new (Or.inl rfl) writes
  have hlen := unfinished_length_lt hshown.unfinished
  refine ⟨ofd, rets, hwrites, hshown.unfinished, by omega, fun hwin => ?_⟩
  obtain ⟨new, hnew, hall⟩ := hshown.shown
  obtain ⟨-, heq, hwhole⟩ := hall hwin
  have hputs : ofd.puts = new := hnew
  rw [← hputs, List.append_nil] at heq
  refine ⟨heq, hrets hwin, fun text ⟨rest, htext⟩ b hb => ?_⟩
  have hw : Whole IsChar (writes.flatten ++ rest) := whole_isChar_iff.2 ⟨text, htext⟩
  rw [hputs] at hb
  exact whole_isChar_iff.1 ((hwhole rest hw).1 b hb)

end Sppc.Windows
