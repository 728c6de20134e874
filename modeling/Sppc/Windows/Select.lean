import Sppc.Select
import Sppc.Windows.PollWaits
import Mathlib.Algebra.BigOperators.Fin
import Mathlib.Tactic.FinCases

/-!
# Select on Windows (`platform/windows.h`)

`sppc_select`, through `sppc_poll`.
-/

namespace Sppc.Windows

/-- What a select asks of a descriptor in each of the three sets (`asks`). -/
def asks : Fin 3 → BitVec 32 := ![SPPC_POLLIN, SPPC_POLLOUT, SPPC_POLLPRI]

/-- What puts it into the set (`meets`). -/
def meets : Fin 3 → BitVec 32 :=
  ![SPPC_POLLIN ||| SPPC_POLLRDNORM ||| SPPC_POLLHUP ||| SPPC_POLLERR,
    SPPC_POLLOUT ||| SPPC_POLLWRNORM ||| SPPC_POLLERR, SPPC_POLLPRI ||| SPPC_POLLRDBAND]

/-- A set, if it is there, has a descriptor. -/
def inSet (sets : FdSets) (s : Fin 3) (n : Fin 1024) : Bool := (sets s).any (·.has n)

/-- What is asked of a descriptor. -/
def selectEvents (sets : FdSets) (n : Fin 1024) : BitVec 32 :=
  [0, 1, 2].foldl (fun events s => if inSet sets s n then events ||| asks s else events) 0

/-- The entries for `sppc_poll`. -/
def selectFds (nfds : Int) (sets : FdSets) : List Pollfd :=
  (List.finRange 1024).filterMap fun n =>
    if n.val < nfds ∧ selectEvents sets n ≠ 0 then some ⟨n.val, (selectEvents sets n).setWidth 16, 0⟩ else none

/-- The time for `sppc_poll`, in milliseconds (`ms`). -/
def selectMs : Option Timeval → Int
  | none => -1
  | some tv =>
    let want := tv.sec * 1000 + (tv.usec + 999) / 1000
    if 2147483647 < want then 2147483647 else want.toNat

/-- `sets[s]->bits[fd / 64] |= (uint64_t)1 << (fd % 64)`. -/
def addFd (set : FdSet) (n : Nat) : FdSet :=
  ⟨Vector.ofFn fun i => if i.val = n / 64 then set.bits.get i ||| (1 : BitVec 64) <<< (n % 64) else set.bits.get i⟩

/-- The entry's events meet the condition of a set that asked for it. -/
def Meets (f : Pollfd) (s : Fin 3) : Prop := f.asked &&& asks s ≠ 0 ∧ f.got &&& meets s ≠ 0

instance (f : Pollfd) (s : Fin 3) : Decidable (Meets f s) := inferInstanceAs (Decidable (_ ∧ _))

/-- The loop that puts descriptors into the sets, over the entries with each set in turn, and its count. -/
def storeSets : List (Pollfd × Fin 3) → FdSets → Nat → FdSets × Nat
  | [], sets, total => (sets, total)
  | (f, s) :: ps, sets, total =>
    match sets s with
    | none => storeSets ps sets total
    | some set =>
      if Meets f s then storeSets ps (Function.update sets s (some (addFd set f.fd.toNat))) (total + 1)
      else storeSets ps sets total

def inTurn (fds : List Pollfd) : List (Pollfd × Fin 3) := fds.flatMap fun f => [(f, 0), (f, 1), (f, 2)]

/-- `memset(sets[s], 0, sizeof *sets[s])`. -/
def clearSets (sets : FdSets) : FdSets := fun s => (sets s).map fun _ => ⟨Vector.replicate 16 0⟩

/-- How a select fails: with what `sppc_poll` does as `poll`. -/
inductive WinSelectErr
  | EINVAL | EBADF
  | poll (e : PollErr)
  deriving DecidableEq, Repr

/-- What `sppc_select` leaves. -/
structure WinSelectReturn where
  err : Option WinSelectErr
  outN : Int
  sets : FdSets
  timeout : Option Timeval

/-- How the calls of a select go: those of its poll, and the ticks from its start to that of the poll and from the end
of the poll to its own. -/
structure SelectWorld where
  poll : PollWorld
  before : Nat
  after : Nat

/-- The ticks gone at the end. -/
def SelectWorld.gone (w : SelectWorld) : Nat := w.before + w.poll.fin + w.after

/-- The arguments are accepted. -/
def SelectArgs (nfds : Int) (timeout : Option Timeval) : Prop :=
  0 ≤ nfds ∧ nfds ≤ 1024 ∧ ∀ tv ∈ timeout, tv.usec < 1000000

instance (nfds : Int) (timeout : Option Timeval) : Decidable (SelectArgs nfds timeout) :=
  inferInstanceAs (Decidable (_ ∧ _))

/-- The time left, as it is stored. -/
def timeLeft (ms : Int) (gone : Nat) : Timeval :=
  let left : BitVec 64 := if gone < ms then .ofInt 64 ms - .ofNat 64 gone else 0
  ⟨left / 1000, left % 1000 * 1000⟩

/-- `sppc_select`: `none` where the rounds are not those of its poll. -/
def sppcSelect (w : SelectWorld) (nfds : Int) (sets : FdSets) (timeout : Option Timeval) : Option WinSelectReturn :=
  if ¬SelectArgs nfds timeout then some ⟨some .EINVAL, -1, sets, timeout⟩
  else
    (sppcPollTraced w.poll (selectFds nfds sets) (selectMs timeout)).map fun t =>
      match t.ret.err with
      | some e => ⟨some (.poll e), -1, sets, timeout⟩
      | none =>
        if ∃ f ∈ t.ret.fds, f.got &&& SPPC_POLLNVAL ≠ 0 then ⟨some .EBADF, -1, sets, timeout⟩
        else
          let (stored, total) := storeSets (inTurn t.ret.fds) (clearSets sets) 0
          ⟨none, total, stored, timeout.map fun _ => timeLeft (selectMs timeout) w.gone⟩

/-! ### What a select is to do -/

/-- What the poll reported on a descriptor meets a set's condition. -/
def ReportMeets (fds : List Pollfd) (n : Fin 1024) (s : Fin 3) : Prop :=
  ∃ f ∈ fds, f.fd = n.val ∧ f.got &&& meets s ≠ 0

/-- The time given is over, `gone` ticks after the start. -/
def Elapsed (timeout : Option Timeval) (gone : Nat) : Prop :=
  ∃ tv, timeout = some tv ∧ tv.sec.toNat * 1000000 + tv.usec.toNat ≤ gone * 1000

/-- The number of descriptors in the three sets. -/
def bitCount (sets : FdSets) : Nat := ∑ s, (Finset.univ.filter fun n => inSet sets s n).card

/-- What a select that succeeds is to do, whose poll left the entries `fds`. -/
structure Selected (w : SelectWorld) (nfds : Int) (sets : FdSets) (timeout : Option Timeval) (fds : List Pollfd)
    (r : WinSelectReturn) : Prop where
  present : ∀ s, (r.sets s).isSome = (sets s).isSome
  bits : ∀ s n, inSet r.sets s n ↔ n.val < nfds ∧ inSet sets s n ∧ ReportMeets fds n s
  count : r.outN = bitCount r.sets
  zero : r.outN = 0 → Elapsed timeout w.gone

/-- What `WSAPoll` reports on a socket in the last round: what it was asked for, error, hang-up and invalid. -/
def SocketsAsked (w : PollWorld) (fds : List Pollfd) : Prop :=
  ∀ reports, w.last.wsaPoll = .ok reports → ∀ k (h : k < (which (w.ofds fds)).length), ∀ f,
    fds[(which (w.ofds fds))[k]]? = some f → ∃ events, sppcToOsFlags f.asked (sppcPollTable winEvents) = some events ∧
      Contains ((events &&& ~~~winEvents.POLLPRI) ||| winEvents.POLLERR ||| winEvents.POLLHUP ||| winEvents.POLLNVAL)
        ((reports k).signExtend 32)

/-- Windows does as it says: no wait of the poll is over early, and `WSAPoll` reports nothing else. -/
structure SelectWorld.Keeps (w : SelectWorld) (nfds : Int) (sets : FdSets) (timeout : Option Timeval) : Prop where
  waits : Punctual (w.poll.ofds (selectFds nfds sets)) (selectMs timeout) w.poll.last w.poll.fin
    (pollStart (w.poll.ofds (selectFds nfds sets)) (selectFds nfds sets)) w.poll.rounds
  asked : SocketsAsked w.poll (selectFds nfds sets)

/-- A select does as it is to, however the calls of its poll go: where it fails, the sets are as they were. -/
def SelectsWell (nfds : Int) (sets : FdSets) (timeout : Option Timeval) : Prop :=
  ∀ w r, w.Keeps nfds sets timeout → sppcSelect w nfds sets timeout = some r →
    (r.err ≠ none → r.sets = sets) ∧
      (r.err = none → ∃ t, sppcPollTraced w.poll (selectFds nfds sets) (selectMs timeout) = some t ∧
        Selected w nfds sets timeout t.ret.fds r)

/-- It has no time to wait; or every descriptor is asked about for reading, and the time is not too long for
`sppc_poll`. -/
def SelectFits (nfds : Int) (sets : FdSets) (timeout : Option Timeval) : Prop :=
  SelectArgs nfds timeout → timeout = some ⟨0, 0⟩ ∨
    (∀ n : Fin 1024, n.val < nfds → ∀ s, inSet sets s n → inSet sets 0 n) ∧
      ∀ tv, timeout = some tv → tv.sec.toNat * 1000 + (tv.usec.toNat + 999) / 1000 ≤ 2147483647

/-! ### The sets -/

variable {sets : FdSets} {set : FdSet} {s : Fin 3} {n : Fin 1024} {nfds : Int} {timeout : Option Timeval} {f : Pollfd}
  {fds : List Pollfd} {ps : List (Pollfd × Fin 3)} {total : Nat} {w : SelectWorld}

private theorem has_addFd (set : FdSet) (m : Nat) (n : Fin 1024) :
    (addFd set m).has n ↔ set.has n ∨ n.val = m := by
  have hword : (addFd set m).bits.get ⟨n / 64, by omega⟩ =
      if n.val / 64 = m / 64 then set.bits.get ⟨n / 64, by omega⟩ ||| (1 : BitVec 64) <<< (m % 64)
      else set.bits.get ⟨n / 64, by omega⟩ := Vector.getElem_ofFn _
  rw [FdSet.has, FdSet.has, hword]
  by_cases hsame : n.val / 64 = m / 64
  · rw [if_pos hsame, BitVec.getLsbD_or, Bool.or_eq_true]
    apply or_congr_right
    have hbit : ((1 : BitVec 64) <<< (m % 64)).getLsbD (n % 64) = decide (n.val % 64 = m % 64) := by
      rw [BitVec.getLsbD_shiftLeft]
      by_cases heq : n.val % 64 = m % 64
      · simp [heq, Nat.mod_lt]
      · by_cases hlt : n.val % 64 < m % 64
        · simp [heq, hlt]
        · have hpos : n.val % 64 - m % 64 ≠ 0 := by omega
          simp [heq, hpos]
    rw [hbit, decide_eq_true_eq]
    omega
  · rw [if_neg hsame]
    constructor
    · intro h
      exact Or.inl h
    · rintro (h | h)
      · exact h
      · exact absurd (by rw [h]) hsame

private theorem inSet_update (hset : sets s = some set) (m : Nat) (s' : Fin 3) (n : Fin 1024) :
    inSet (Function.update sets s (some (addFd set m))) s' n ↔ inSet sets s' n ∨ s' = s ∧ n.val = m := by
  unfold inSet
  by_cases hs : s' = s
  · rw [hs, Function.update_self, hset, Option.any_some, Option.any_some, has_addFd set m n]
    simp
  · rw [Function.update_of_ne hs]
    simp [hs]

/-- What the loop leaves in the sets. -/
private theorem storeSets_inSet (hlt : ∀ p ∈ ps, p.1.fd.toNat < 1024) (s : Fin 3) (n : Fin 1024) :
    inSet (storeSets ps sets total).1 s n ↔
      inSet sets s n ∨ (sets s).isSome ∧ ∃ f, (f, s) ∈ ps ∧ f.fd.toNat = n.val ∧ Meets f s := by
  induction ps generalizing sets total with
  | nil => simp [storeSets]
  | cons p ps ih =>
    obtain ⟨f, s'⟩ := p
    have hlt' : ∀ p ∈ ps, p.1.fd.toNat < 1024 := fun p hp => hlt p (List.mem_cons_of_mem _ hp)
    rw [storeSets]
    cases hset : sets s' with
    | none =>
      rw [ih hlt']
      apply or_congr_right
      constructor
      · rintro ⟨hsome, g, hg, hrest⟩
        exact ⟨hsome, g, List.mem_cons_of_mem _ hg, hrest⟩
      · rintro ⟨hsome, g, hg, hrest⟩
        rcases List.mem_cons.1 hg with heq | hg
        · cases heq
          rw [hset] at hsome
          cases hsome
        · exact ⟨hsome, g, hg, hrest⟩
    | some set =>
      dsimp only
      split
      · rename_i hmeets
        have hsome (s : Fin 3) : (Function.update sets s' (some (addFd set f.fd.toNat)) s).isSome =
            (sets s).isSome := by
          by_cases hs : s = s'
          · rw [hs, Function.update_self, hset]
            rfl
          · rw [Function.update_of_ne hs]
        rw [ih hlt', inSet_update hset, hsome, or_assoc]
        apply or_congr_right
        constructor
        · rintro (⟨rfl, hn⟩ | ⟨hs, g, hg, hrest⟩)
          · exact ⟨by rw [hset]; rfl, f, List.mem_cons_self, hn.symm, hmeets⟩
          · exact ⟨hs, g, List.mem_cons_of_mem _ hg, hrest⟩
        · rintro ⟨hs, g, hg, hn, hrest⟩
          rcases List.mem_cons.1 hg with heq | hg
          · cases heq
            exact Or.inl ⟨rfl, hn.symm⟩
          · exact Or.inr ⟨hs, g, hg, hn, hrest⟩
      · rename_i hno
        rw [ih hlt']
        apply or_congr_right
        constructor
        · rintro ⟨hs, g, hg, hrest⟩
          exact ⟨hs, g, List.mem_cons_of_mem _ hg, hrest⟩
        · rintro ⟨hs, g, hg, hn, hrest⟩
          rcases List.mem_cons.1 hg with heq | hg
          · cases heq
            exact absurd hrest hno
          · exact ⟨hs, g, hg, hn, hrest⟩

private theorem storeSets_isSome (ps : List (Pollfd × Fin 3)) (sets : FdSets) (total : Nat) (s : Fin 3) :
    ((storeSets ps sets total).1 s).isSome = (sets s).isSome := by
  induction ps generalizing sets total with
  | nil => rfl
  | cons p ps ih =>
    obtain ⟨f, s'⟩ := p
    rw [storeSets]
    cases hset : sets s' with
    | none => exact ih sets total
    | some set =>
      dsimp only
      split
      · rw [ih]
        by_cases hs : s = s'
        · rw [hs, Function.update_self, hset]
          rfl
        · rw [Function.update_of_ne hs]
      · exact ih sets total

/-- One more descriptor in one of the sets. -/
private theorem bitCount_update (hset : sets s = some set) (hnew : ¬inSet sets s n) :
    bitCount (Function.update sets s (some (addFd set n.val))) = bitCount sets + 1 := by
  have hone (s' : Fin 3) :
      (Finset.univ.filter fun m => inSet (Function.update sets s (some (addFd set n.val))) s' m).card =
        (Finset.univ.filter fun m => inSet sets s' m).card + if s' = s then 1 else 0 := by
    by_cases hs : s' = s
    · have hinsert : (Finset.univ.filter fun m => inSet (Function.update sets s (some (addFd set n.val))) s' m) =
          insert n (Finset.univ.filter fun m => inSet sets s' m) := by
        ext m
        rw [Finset.mem_filter, Finset.mem_insert, Finset.mem_filter, inSet_update hset]
        simp [hs, Fin.ext_iff, or_comm]
      rw [hinsert, Finset.card_insert_of_notMem, if_pos hs]
      rw [Finset.mem_filter, hs]
      exact fun h => hnew h.2
    · have hsame : (Finset.univ.filter fun m => inSet (Function.update sets s (some (addFd set n.val))) s' m) =
          Finset.univ.filter fun m => inSet sets s' m := by
        ext m
        rw [Finset.mem_filter, Finset.mem_filter, inSet_update hset]
        simp [hs]
      rw [hsame, if_neg hs, Nat.add_zero]
  rw [bitCount, bitCount, Finset.sum_congr rfl fun s' _ => hone s', Finset.sum_add_distrib]
  simp

/-- The count of the loop is of what it puts into the sets. -/
private theorem storeSets_count (hnodup : (ps.map fun p => (p.1.fd.toNat, p.2)).Nodup)
    (hlt : ∀ p ∈ ps, p.1.fd.toNat < 1024) (hnew : ∀ p ∈ ps, ∀ n : Fin 1024, n.val = p.1.fd.toNat →
      ¬inSet sets p.2 n) :
    (storeSets ps sets total).2 + bitCount sets = total + bitCount (storeSets ps sets total).1 := by
  induction ps generalizing sets total with
  | nil => rfl
  | cons p ps ih =>
    obtain ⟨f, s⟩ := p
    rw [List.map_cons, List.nodup_cons] at hnodup
    have hlt' : ∀ p ∈ ps, p.1.fd.toNat < 1024 := fun p hp => hlt p (List.mem_cons_of_mem _ hp)
    have hf : f.fd.toNat < 1024 := hlt (f, s) List.mem_cons_self
    have hnew' : ∀ p ∈ ps, ∀ n : Fin 1024, n.val = p.1.fd.toNat → ¬inSet sets p.2 n :=
      fun p hp => hnew p (List.mem_cons_of_mem _ hp)
    rw [storeSets]
    cases hset : sets s with
    | none => exact ih hnodup.2 hlt' hnew'
    | some set =>
      dsimp only
      split
      · have hone : bitCount (Function.update sets s (some (addFd set f.fd.toNat))) = bitCount sets + 1 :=
          bitCount_update (n := ⟨f.fd.toNat, hf⟩) hset (hnew (f, s) List.mem_cons_self _ rfl)
        have hrest : (storeSets ps (Function.update sets s (some (addFd set f.fd.toNat))) (total + 1)).2 +
            bitCount (Function.update sets s (some (addFd set f.fd.toNat))) = _ := ih hnodup.2 hlt' ?_
        · omega
        · intro p hp n hn hmem
          rcases (inSet_update hset _ p.2 n).1 hmem with hold | ⟨hs, hn'⟩
          · exact hnew' p hp n hn hold
          · apply hnodup.1
            rw [List.mem_map]
            exact ⟨p, hp, by rw [← hn, hn', hs]⟩
      · exact ih hnodup.2 hlt' hnew'

/-! ### The entries -/

private theorem selectEvents_eq (sets : FdSets) (n : Fin 1024) : selectEvents sets n =
    (if inSet sets 0 n then SPPC_POLLIN else 0) ||| (if inSet sets 1 n then SPPC_POLLOUT else 0) |||
      (if inSet sets 2 n then SPPC_POLLPRI else 0) := by
  rw [selectEvents]
  simp only [List.foldl_cons, List.foldl_nil]
  cases inSet sets 0 n <;> cases inSet sets 1 n <;> cases inSet sets 2 n <;> rfl

private theorem selectEvents_asks (sets : FdSets) (n : Fin 1024) (s : Fin 3) :
    selectEvents sets n &&& asks s ≠ 0 ↔ inSet sets s n := by
  have hall : ∀ (a b c : Bool) (s : Fin 3), ((if a then SPPC_POLLIN else 0) ||| (if b then SPPC_POLLOUT else 0) |||
      (if c then SPPC_POLLPRI else 0)) &&& asks s ≠ 0 ↔ (![a, b, c] s) = true := by decide
  rw [selectEvents_eq, hall]
  fin_cases s <;> rfl

private theorem signExtend_selectEvents (sets : FdSets) (n : Fin 1024) :
    ((selectEvents sets n).setWidth 16).signExtend 32 = selectEvents sets n := by
  rw [selectEvents_eq]
  cases inSet sets 0 n <;> cases inSet sets 1 n <;> cases inSet sets 2 n <;> decide

private theorem selectEvents_accepted (sets : FdSets) (n : Fin 1024) :
    sppcToOsFlags (selectEvents sets n) (sppcPollTable winEvents) ≠ none := by
  rw [selectEvents_eq]
  cases inSet sets 0 n <;> cases inSet sets 1 n <;> cases inSet sets 2 n <;> decide +kernel

/-- An entry for a descriptor of some set. -/
structure EntryOf (nfds : Int) (sets : FdSets) (n : Fin 1024) (f : Pollfd) : Prop where
  lt : n.val < nfds
  some : selectEvents sets n ≠ 0
  fd : f.fd = n.val
  asked : f.asked = selectEvents sets n

private theorem mem_selectFds : f ∈ selectFds nfds sets ↔ ∃ n, (n.val : Int) < nfds ∧ selectEvents sets n ≠ 0 ∧
    f = ⟨n.val, (selectEvents sets n).setWidth 16, 0⟩ := by
  rw [selectFds, List.mem_filterMap]
  constructor
  · rintro ⟨n, -, h⟩
    split at h
    · rename_i hyes
      cases h
      exact ⟨n, hyes.1, hyes.2, rfl⟩
    · cases h
  · rintro ⟨n, hlt, hne, rfl⟩
    exact ⟨n, List.mem_finRange n, if_pos ⟨hlt, hne⟩⟩

private theorem entryOf_mem (h : f ∈ selectFds nfds sets) : ∃ n, EntryOf nfds sets n f := by
  obtain ⟨n, hlt, hne, rfl⟩ := mem_selectFds.1 h
  exact ⟨n, hlt, hne, rfl, signExtend_selectEvents sets n⟩

private theorem EntryOf.asks_iff (h : EntryOf nfds sets n f) (s : Fin 3) :
    f.asked &&& asks s ≠ 0 ↔ inSet sets s n := by
  rw [h.asked]
  exact selectEvents_asks sets n s

private theorem selectFds_nodup (nfds : Int) (sets : FdSets) : ((selectFds nfds sets).map Pollfd.fd).Nodup := by
  rw [selectFds, List.Nodup, List.pairwise_map]
  apply List.Pairwise.filterMap _ _ (List.nodup_finRange 1024)
  intro a b hne f hf g hg heq
  split at hf <;> cases hf
  split at hg <;> cases hg
  apply hne
  apply Fin.ext
  exact Int.ofNat_inj.1 heq

private theorem selectFds_length (nfds : Int) (sets : FdSets) : (selectFds nfds sets).length ≤ 1024 := by
  have hle := List.length_filterMap_le (fun n : Fin 1024 =>
    if n.val < nfds ∧ selectEvents sets n ≠ 0 then
      some (⟨n.val, (selectEvents sets n).setWidth 16, 0⟩ : Pollfd) else none) (List.finRange 1024)
  rw [List.length_finRange] at hle
  exact hle

private theorem selectFds_accepted :
    ∀ f ∈ selectFds nfds sets, sppcToOsFlags f.asked (sppcPollTable winEvents) ≠ none := by
  intro f hf
  obtain ⟨n, hn⟩ := entryOf_mem hf
  rw [hn.asked]
  exact selectEvents_accepted sets n

/-- The entries of a poll, with their `fd`s and their events. -/
def entryKeys (fds : List Pollfd) : List (Int × BitVec 16) := fds.map fun f => (f.fd, f.events)

private theorem entryKeys_polled {p : PollWorld} {ms : Int} {r : PollReturn} (h : PollCounts p fds ms r) :
    entryKeys r.fds = entryKeys fds := by
  apply List.ext_getElem?
  intro i
  rw [entryKeys, entryKeys, List.getElem?_map, List.getElem?_map]
  cases hf : fds[i]? with
  | none =>
    have hge : r.fds.length ≤ i := by
      rw [h.length]
      exact List.getElem?_eq_none_iff.1 hf
    rw [List.getElem?_eq_none hge]
  | some f =>
    obtain ⟨g, hg, hsame, -⟩ := h.entries i f hf
    rw [hg, Option.map_some, Option.map_some, hsame.1, hsame.2]

private theorem entryOf_polled (hkeys : entryKeys fds = entryKeys (selectFds nfds sets)) (hf : f ∈ fds) :
    ∃ n, EntryOf nfds sets n f := by
  have hmem : (f.fd, f.events) ∈ entryKeys fds := List.mem_map_of_mem hf
  rw [hkeys, entryKeys, List.mem_map] at hmem
  obtain ⟨g, hg, heq⟩ := hmem
  obtain ⟨n, hn⟩ := entryOf_mem hg
  rw [Prod.mk.injEq] at heq
  refine ⟨n, hn.lt, hn.some, ?_, ?_⟩
  · rw [← heq.1]
    exact hn.fd
  · rw [← hn.asked, Pollfd.asked, Pollfd.asked, heq.2]

private theorem mem_inTurn (s : Fin 3) : (f, s) ∈ inTurn fds ↔ f ∈ fds := by
  rw [inTurn, List.mem_flatMap]
  constructor
  · rintro ⟨g, hg, hmem⟩
    simp only [List.mem_cons, Prod.mk.injEq, List.not_mem_nil, or_false] at hmem
    rcases hmem with ⟨rfl, -⟩ | ⟨rfl, -⟩ | ⟨rfl, -⟩ <;> exact hg
  · intro hf
    refine ⟨f, hf, ?_⟩
    fin_cases s <;> simp

private theorem inTurn_nodup (hkeys : entryKeys fds = entryKeys (selectFds nfds sets)) :
    ((inTurn fds).map fun p => (p.1.fd.toNat, p.2)).Nodup := by
  have hfds : (fds.map Pollfd.fd).Nodup := by
    have hfst (l : List Pollfd) : l.map Pollfd.fd = (entryKeys l).map Prod.fst := by
      rw [entryKeys, List.map_map]
      rfl
    rw [hfst, hkeys, ← hfst]
    exact selectFds_nodup nfds sets
  have hnat : (fds.map fun f => f.fd.toNat).Nodup := by
    rw [List.Nodup, List.pairwise_map] at hfds ⊢
    apply List.Pairwise.imp_of_mem _ hfds
    intro f g hf hg hne heq
    obtain ⟨n, hn⟩ := entryOf_polled hkeys hf
    obtain ⟨m, hm⟩ := entryOf_polled hkeys hg
    have := hn.fd
    have := hm.fd
    omega
  have hpairs : ((inTurn fds).map fun p => (p.1.fd.toNat, p.2)) =
      (fds.map fun f => f.fd.toNat).flatMap fun n => [(n, (0 : Fin 3)), (n, 1), (n, 2)] := by
    rw [inTurn, List.map_flatMap, List.flatMap_map]
    rfl
  rw [hpairs, List.nodup_flatMap]
  refine ⟨fun n _ => by simp, ?_⟩
  apply List.Pairwise.imp _ hnat
  intro a b hab p ha hb
  simp only [List.mem_cons, List.not_mem_nil, or_false] at ha hb
  rcases ha with rfl | rfl | rfl <;> rcases hb with h | h | h <;> exact hab (congrArg Prod.fst h)

/-! ### What is reported where all is asked about for reading -/

/-- What is asked of a descriptor in the first set. -/
def readEvents (write except : Bool) : BitVec 32 :=
  SPPC_POLLIN ||| (if write then SPPC_POLLOUT else 0) ||| (if except then SPPC_POLLPRI else 0)

private theorem selectEvents_read (hread : inSet sets 0 n) :
    selectEvents sets n = readEvents (inSet sets 1 n) (inSet sets 2 n) := by
  rw [selectEvents_eq, if_pos hread]
  rfl

private theorem and_ne_zero {x y : BitVec 32} {m : Nat} (hx : x.getLsbD m) (hy : y.getLsbD m) : x &&& y ≠ 0 := by
  intro h
  have hbit := congrArg (BitVec.getLsbD · m) h
  simp [hx, hy] at hbit

/-- An event that may be stored puts the descriptor into a set, unless it says that it is invalid. -/
private theorem allowed_meets : ∀ (b c : Bool), ∀ m < 32, (readEvents b c ||| pollAlways).getLsbD m →
    SPPC_POLLNVAL.getLsbD m ∨ ∃ s, readEvents b c &&& asks s ≠ 0 ∧ (meets s).getLsbD m := by decide +kernel

/-- What `WSAPoll` is asked for, with what it always reports. -/
def readReports (write except : Bool) : BitVec 32 :=
  (((0x300 : BitVec 32) ||| (if write then 0x10 else 0) ||| (if except then 0x400 else 0)) &&&
    ~~~winEvents.POLLPRI) ||| winEvents.POLLERR ||| winEvents.POLLHUP ||| winEvents.POLLNVAL

private theorem readEvents_os (b c : Bool) : sppcToOsFlags (readEvents b c) (sppcPollTable winEvents) =
    some ((0x300 : BitVec 32) ||| (if b then 0x10 else 0) ||| (if c then 0x400 else 0)) := by
  cases b <;> cases c <;> decide +kernel

/-- So does the name of what `WSAPoll` may report, but for what it reports of input. -/
private theorem named_meets : ∀ (b c : Bool), ∀ p ∈ sppcPollTable winEvents, Contains (readReports b c) p.os →
    p.os &&& winEvents.POLLIN ≠ 0 ∨ p.sppc = SPPC_POLLNVAL ∨
      ∃ s, readEvents b c &&& asks s ≠ 0 ∧ Contains (meets s) p.sppc := by
  decide +kernel

private theorem meets_of_within {b c : Bool} (hasked : f.asked = readEvents b c) (hw : Within f.asked f.got)
    (hne : f.revents ≠ 0) (hvalid : f.got &&& SPPC_POLLNVAL = 0) : ∃ s, Meets f s := by
  obtain ⟨m, hm⟩ := bits_nonempty (signExtend_ne_zero hne)
  have hgot : f.got.getLsbD m := hm
  have hlt : m < 32 := by
    by_contra hge
    rw [BitVec.getLsbD_of_ge _ _ (by omega)] at hgot
    cases hgot
  have hallowed : (readEvents b c ||| pollAlways).getLsbD m := by
    rw [← hasked]
    exact contains_iff.1 hw.asked hm
  rcases allowed_meets b c m hlt hallowed with hnval | ⟨s, hs, hmeet⟩
  · exact absurd hvalid (and_ne_zero hgot hnval)
  · refine ⟨s, ?_, and_ne_zero hgot hmeet⟩
    rw [hasked]
    exact hs

private theorem meets_of_report {b c : Bool} {g : Pollfd} {report : BitVec 16} {events : BitVec 32}
    (hasked : f.asked = readEvents b c) (hg : g.asked = f.asked) (hrev : g.revents = socketRevents f report)
    (hevents : sppcToOsFlags f.asked (sppcPollTable winEvents) = some events)
    (hreport : Contains ((events &&& ~~~winEvents.POLLPRI) ||| winEvents.POLLERR ||| winEvents.POLLHUP |||
      winEvents.POLLNVAL) (report.signExtend 32))
    (hne : g.revents ≠ 0) (hvalid : g.got &&& SPPC_POLLNVAL = 0) : ∃ s, Meets g s := by
  have hgot : g.got = _ := (congrArg (BitVec.signExtend 32) hrev).trans (socketRevents_got f report)
  by_cases hin : report.signExtend 32 &&& winEvents.POLLIN ≠ 0
  · -- either half of input
    rw [if_pos hin] at hgot
    have hbit : g.got.getLsbD 0 := by
      rw [hgot, BitVec.getLsbD_or, Bool.or_eq_true, hasked]
      right
      cases b <;> cases c <;> decide
    refine ⟨0, ?_, and_ne_zero hbit (by decide)⟩
    rw [hg, hasked]
    cases b <;> cases c <;> decide
  · rw [if_neg hin] at hgot
    obtain ⟨m, hm⟩ := bits_nonempty (signExtend_ne_zero hne)
    have hfrom : m ∈ bits (sppcFromOsFlags (report.signExtend 32) (sppcPollTable winEvents)) := by
      rw [← hgot]
      exact hm
    rw [winEvents_ok.bits_from, Laminar.mem_union] at hfrom
    obtain ⟨p, hp, hmp⟩ := hfrom
    obtain ⟨hptable, hnamed⟩ := winEvents_ok.mem_take.1 hp
    rw [hasked, readEvents_os, Option.some_inj] at hevents
    rw [← hevents] at hreport
    rcases named_meets b c p hptable (hreport.trans hnamed.1) with
      hpin | hnval | ⟨s, hs, hmeet⟩
    · exfalso
      apply hin
      intro hzero
      apply hpin
      have hos : p.os = report.signExtend 32 &&& p.os := hnamed.1.symm
      rw [hos, BitVec.and_comm (report.signExtend 32), BitVec.and_assoc, hzero]
      simp
    · exact absurd hvalid (and_ne_zero hm (by rw [← hnval]; exact hmp))
    · refine ⟨s, ?_, and_ne_zero hm ?_⟩
      · rw [hg, hasked]
        exact hs
      · exact contains_iff.1 hmeet hmp

/-! ### Where a select does as it is to -/

private theorem sppcSelect_accepted (hargs : SelectArgs nfds timeout) {r : WinSelectReturn}
    (h : sppcSelect w nfds sets timeout = some r) :
    ∃ t, sppcPollTraced w.poll (selectFds nfds sets) (selectMs timeout) = some t ∧
      ((r.err ≠ none ∧ r.sets = sets) ∨
        t.ret.err = none ∧ (∀ f ∈ t.ret.fds, f.got &&& SPPC_POLLNVAL = 0) ∧
          r = ⟨none, (storeSets (inTurn t.ret.fds) (clearSets sets) 0).2,
            (storeSets (inTurn t.ret.fds) (clearSets sets) 0).1,
            timeout.map fun _ => timeLeft (selectMs timeout) w.gone⟩) := by
  rw [sppcSelect, if_neg (not_not.2 hargs)] at h
  obtain ⟨t, ht, rfl⟩ := Option.map_eq_some_iff.1 h
  refine ⟨t, ht, ?_⟩
  cases herr : t.ret.err with
  | some e => exact Or.inl ⟨by simp, rfl⟩
  | none =>
    dsimp only
    split
    · exact Or.inl ⟨by simp, rfl⟩
    · rename_i hvalid
      refine Or.inr ⟨rfl, fun f hf => ?_, rfl⟩
      by_contra hne
      exact hvalid ⟨f, hf, hne⟩

private theorem inSet_clearSets (sets : FdSets) (s : Fin 3) (n : Fin 1024) : ¬inSet (clearSets sets) s n := by
  have hzero : ∀ n : Fin 1024, (⟨Vector.replicate 16 0⟩ : FdSet).has n = false := by
    intro n
    rw [FdSet.has, show (Vector.replicate 16 (0 : BitVec 64)).get ⟨n.val / 64, by omega⟩ =
      0 from Vector.getElem_replicate _]
    exact BitVec.getLsbD_zero
  unfold inSet clearSets
  cases sets s with
  | none => simp
  | some set =>
    rw [Option.map_some, Option.any_some, hzero]
    exact Bool.false_ne_true

/-- What is stored of the entries that a poll left. -/
private theorem stored_spec (hkeys : entryKeys fds = entryKeys (selectFds nfds sets)) :
    (∀ s n, inSet (storeSets (inTurn fds) (clearSets sets) 0).1 s n ↔
      n.val < nfds ∧ inSet sets s n ∧ ReportMeets fds n s) ∧
    (storeSets (inTurn fds) (clearSets sets) 0).2 = bitCount (storeSets (inTurn fds) (clearSets sets) 0).1 := by
  have hlt : ∀ p ∈ inTurn fds, p.1.fd.toNat < 1024 := by
    rintro ⟨f, s⟩ hp
    obtain ⟨n, hn⟩ := entryOf_polled hkeys ((mem_inTurn s).1 hp)
    have := hn.fd
    have := n.isLt
    dsimp only
    omega
  constructor
  · intro s n
    rw [storeSets_inSet hlt]
    constructor
    · rintro (h | ⟨-, f, hmem, hfd, hasks, hmeets⟩)
      · exact absurd h (inSet_clearSets sets s n)
      · have hf := (mem_inTurn s).1 hmem
        obtain ⟨m, hm⟩ := entryOf_polled hkeys hf
        have hmn : m = n := by
          apply Fin.ext
          have := hm.fd
          omega
        rw [← hmn]
        exact ⟨hm.lt, (hm.asks_iff s).1 hasks, f, hf, hm.fd, hmeets⟩
    · rintro ⟨hn, hin, f, hf, hfd, hmeets⟩
      obtain ⟨m, hm⟩ := entryOf_polled hkeys hf
      have hmn : m = n := by
        apply Fin.ext
        have := hm.fd
        omega
      rw [hmn] at hm
      refine Or.inr ⟨?_, f, (mem_inTurn s).2 hf, by omega, (hm.asks_iff s).2 hin, hmeets⟩
      unfold inSet at hin
      unfold clearSets
      cases hset : sets s with
      | none =>
        rw [hset] at hin
        cases hin
      | some set => rfl
  · have hcount : (storeSets (inTurn fds) (clearSets sets) 0).2 + bitCount (clearSets sets) = 0 + _ :=
      storeSets_count (inTurn_nodup hkeys) hlt fun p _ n _ => inSet_clearSets sets p.2 n
    have hclear : bitCount (clearSets sets) = 0 := by
      unfold bitCount
      apply Finset.sum_eq_zero
      intro s _
      rw [Finset.card_eq_zero, Finset.filter_eq_empty_iff]
      exact fun n _ => inSet_clearSets sets s n
    omega

/-- A poll that succeeds has taken descriptions. -/
private theorem pollTakes_of_none {p : PollWorld} {ms : Int} {t : PollTrace} (ht : sppcPollTraced p fds ms = some t)
    (herr : t.ret.err = none) : PollTakes p fds := by
  by_contra hno
  obtain ⟨e, he⟩ := sppcPollTraced_refused ms hno
  rw [he, Option.some_inj] at ht
  rw [← ht] at herr
  cases herr

/-- Where no set has a descriptor left, the poll reported nothing, if every descriptor is asked about for reading. -/
private theorem nothing_reported (hkeeps : w.Keeps nfds sets timeout)
    (hread : ∀ n : Fin 1024, n.val < nfds → ∀ s, inSet sets s n → inSet sets 0 n) {t : PollTrace}
    (ht : sppcPollTraced w.poll (selectFds nfds sets) (selectMs timeout) = some t) (herr : t.ret.err = none)
    (hcounts : PollCounts w.poll (selectFds nfds sets) (selectMs timeout) t.ret)
    (hvalid : ∀ f ∈ t.ret.fds, f.got &&& SPPC_POLLNVAL = 0) (hnone : ∀ f ∈ t.ret.fds, ∀ s, ¬Meets f s) :
    t.ret.outN = 0 := by
  have htakes := pollTakes_of_none ht herr
  obtain ⟨s, hs, hround, -⟩ := sppcPollTraced_takes htakes ht
  have hlen := length_ofds w.poll (selectFds nfds sets)
  have hc := (carried_start _ (selectFds nfds sets)).rounds hlen hs
  rw [hcounts.count, Int.natCast_eq_zero, readyCount, List.countP_eq_zero]
  intro g hg hrev
  have hne : g.revents ≠ 0 := of_decide_eq_true hrev
  obtain ⟨i, hi⟩ := List.mem_iff_getElem?.1 hg
  have hlt : i < (selectFds nfds sets).length := by
    rw [← hcounts.length]
    exact (List.getElem?_eq_some_iff.1 hi).1
  obtain ⟨f, hf⟩ : ∃ f, (selectFds nfds sets)[i]? = some f := ⟨_, List.getElem?_eq_getElem hlt⟩
  obtain ⟨n, hn⟩ := entryOf_mem (List.mem_of_getElem? hf)
  have hin : inSet sets 0 n := by
    by_contra hno
    apply hn.some
    have hother : ∀ s, inSet sets s n = false := by
      intro s
      rw [Bool.eq_false_iff]
      exact fun h => hno (hread n hn.lt s h)
    rw [selectEvents_eq, hother, hother, hother]
    rfl
  have hasked : f.asked = readEvents (inSet sets 1 n) (inSet sets 2 n) := hn.asked.trans (selectEvents_read hin)
  obtain ⟨g', hg', hevents, hgot⟩ := polled_entry hc hlen hround hf
  rw [hi, Option.some_inj] at hg'
  rw [← hg'] at hevents hgot
  have hgasked : g.asked = f.asked := congrArg (BitVec.signExtend 32) hevents
  rcases hgot with hwithin | ⟨reports, k, hwsa, hk, hrevents⟩
  · rw [← hgasked] at hwithin
    obtain ⟨s, hs⟩ := meets_of_within (hgasked.trans hasked) hwithin hne (hvalid g hg)
    exact hnone g hg s hs
  · obtain ⟨hklt, hki⟩ := List.getElem?_eq_some_iff.1 hk
    obtain ⟨events, hos, hreport⟩ := hkeeps.asked reports hwsa k hklt f (by rw [hki]; exact hf)
    obtain ⟨s, hs⟩ := meets_of_report hasked hgasked hrevents hos hreport hne (hvalid g hg)
    exact hnone g hg s hs

private theorem selectEvents_os (sets : FdSets) (n : Fin 1024) :
    ∃ events, sppcToOsFlags (selectEvents sets n) (sppcPollTable winEvents) = some events ∧
      Contains wsaReports ((events &&& ~~~winEvents.POLLPRI) ||| winEvents.POLLERR ||| winEvents.POLLHUP |||
        winEvents.POLLNVAL) := by
  have hall : ∀ a b c : Bool, sppcToOsFlags ((if a then SPPC_POLLIN else 0) ||| (if b then SPPC_POLLOUT else 0) |||
      (if c then SPPC_POLLPRI else 0)) (sppcPollTable winEvents) =
        some ((if a then winEvents.POLLIN else 0) ||| (if b then winEvents.POLLOUT else 0) |||
          (if c then winEvents.POLLPRI else 0)) := by decide +kernel
  rw [selectEvents_eq, hall]
  refine ⟨_, rfl, ?_⟩
  cases inSet sets 0 n <;> cases inSet sets 1 n <;> cases inSet sets 2 n <;> decide

/-- What is reported on the sockets is documented. -/
private theorem documented_of_asked {p : PollWorld} (h : SocketsAsked p (selectFds nfds sets)) :
    p.last.Documented (p.ofds (selectFds nfds sets)) := by
  intro reports hwsa k hk
  have hlt : (which (p.ofds (selectFds nfds sets)))[k] < (selectFds nfds sets).length := by
    have hsub : ∀ i ∈ which (p.ofds (selectFds nfds sets)), i < (selectFds nfds sets).length := by
      intro i hi
      rw [which, List.mem_filter, List.mem_range, length_ofds] at hi
      exact hi.1
    exact hsub _ (List.getElem_mem hk)
  have hf := List.getElem?_eq_getElem hlt
  obtain ⟨n, hn⟩ := entryOf_mem (List.mem_of_getElem? hf)
  obtain ⟨events, hos, hreport⟩ := h reports hwsa k hk _ hf
  obtain ⟨events', hos', hdoc⟩ := selectEvents_os sets n
  rw [hn.asked, hos', Option.some_inj] at hos
  rw [← hos] at hreport
  exact hdoc.trans hreport

/-- A time of so many milliseconds, rounded up, is not shorter in microseconds. -/
theorem micro_le {sec usec ms : Nat} (h : sec * 1000 + (usec + 999) / 1000 ≤ ms) :
    sec * 1000000 + usec ≤ ms * 1000 := by
  have hround : usec ≤ (usec + 999) / 1000 * 1000 := by omega
  calc
    sec * 1000000 + usec ≤ sec * 1000000 + (usec + 999) / 1000 * 1000 := Nat.add_le_add_left hround _
    _ = (sec * 1000 + (usec + 999) / 1000) * 1000 := by rw [Nat.add_mul, Nat.mul_assoc]
    _ ≤ ms * 1000 := Nat.mul_le_mul_right 1000 h

/-- The time of the poll is the select's, rounded up. -/
private theorem elapsed_of_ms (hshort : ∀ tv, timeout = some tv →
    tv.sec.toNat * 1000 + (tv.usec.toNat + 999) / 1000 ≤ 2147483647) (hargs : SelectArgs nfds timeout) (hpos :
    0 ≤ selectMs timeout) {gone : Nat} (hle : selectMs timeout ≤ gone) : Elapsed timeout gone := by
  cases htv : timeout with
  | none =>
    rw [htv, selectMs] at hpos
    omega
  | some tv =>
    have hbound := hshort tv htv
    have husec : tv.usec.toNat < 1000000 := hargs.2.2 tv htv
    have hwant : (tv.sec * 1000 + (tv.usec + 999) / 1000).toNat = tv.sec.toNat * 1000 +
        (tv.usec.toNat + 999) / 1000 := by
      rw [BitVec.toNat_add, BitVec.toNat_mul, BitVec.toNat_udiv, BitVec.toNat_add,
        show (1000 : BitVec 64).toNat = 1000 from rfl, show (999 : BitVec 64).toNat = 999 from rfl]
      omega
    have hfits : ¬2147483647 < tv.sec * 1000 + (tv.usec + 999) / 1000 := by
      rw [BitVec.lt_def, hwant, show (2147483647 : BitVec 64).toNat = 2147483647 from rfl]
      omega
    have hms : selectMs (some tv) = (tv.sec * 1000 + (tv.usec + 999) / 1000).toNat := by
      rw [selectMs, if_neg hfits]
    rw [htv, hms, hwant] at hle
    exact ⟨tv, rfl, micro_le (Int.ofNat_le.1 hle)⟩

private theorem selectsWell_of_fits (hfits : SelectFits nfds sets timeout) : SelectsWell nfds sets timeout := by
  intro w r hkeeps h
  by_cases hargs : SelectArgs nfds timeout
  case neg =>
    rw [sppcSelect, if_pos hargs, Option.some_inj] at h
    rw [← h]
    exact ⟨fun _ => rfl, fun hnone => absurd hnone (by simp)⟩
  obtain ⟨t, ht, ⟨herr, hsets⟩ | ⟨herr, hvalid, rfl⟩⟩ := sppcSelect_accepted hargs h
  · exact ⟨fun _ => hsets, fun hnone => absurd hnone herr⟩
  refine ⟨fun hne => absurd rfl hne, fun _ => ⟨t, ht, ?_⟩⟩
  have hcounts := pollCounts_of_traced (pollTakes_of_none ht herr) ht herr
  obtain ⟨hbits, hcount⟩ := stored_spec (entryKeys_polled hcounts)
  refine ⟨fun s => ?_, hbits, by rw [hcount], fun hzero => ?_⟩
  · rw [storeSets_isSome, clearSets, Option.isSome_map]
  rcases hfits hargs with hnow | ⟨hread, hshort⟩
  · exact ⟨⟨0, 0⟩, hnow, Nat.zero_le _⟩
  · have hnone : ∀ f ∈ t.ret.fds, ∀ s, ¬Meets f s := by
      intro f hf s hmeets
      obtain ⟨n, hn⟩ := entryOf_polled (entryKeys_polled hcounts) hf
      have hin := (hbits s n).2 ⟨hn.lt, (hn.asks_iff s).1 hmeets.1, f, hf, hn.fd, hmeets.2⟩
      have hcard : (Finset.univ.filter fun n => inSet (storeSets (inTurn t.ret.fds) (clearSets sets) 0).1
          s n).card = 0 := by
        rw [Int.natCast_eq_zero, hcount, bitCount, Finset.sum_eq_zero_iff] at hzero
        exact hzero s (Finset.mem_univ s)
      rw [Finset.card_eq_zero, Finset.filter_eq_empty_iff] at hcard
      exact hcard (Finset.mem_univ n) hin
    have hpoll := nothing_reported hkeeps hread ht herr hcounts hvalid hnone
    obtain ⟨hpos, hle⟩ := hcounts.zero hkeeps.waits (documented_of_asked hkeeps.asked) hpoll
    apply elapsed_of_ms hshort hargs hpos
    have hgone : w.poll.fin ≤ w.gone := by
      rw [SelectWorld.gone]
      omega
    omega

/-! ### Where it does not -/

/-- Every descriptor is a pipe, those that `hung` says have hung up and the others with nothing to say. -/
def hungWorld (nfds : Int) (sets : FdSets) (hung : Nat → Bool) (fin : Nat) : SelectWorld :=
  ⟨⟨fun i => (selectFds nfds sets)[i]?.map fun f => f.fd.toNat, fun d => ⟨.handle, 0, false, hung d, false⟩, true, [],
    ⟨fun _ => ⟨false, none⟩, 0, .error 0⟩, fin⟩, 0, 0⟩

/-- What its poll leaves of an entry. -/
def hungEntry (hung : Nat → Bool) (f : Pollfd) : Pollfd :=
  { f with revents := if hung f.fd.toNat then SPPC_POLLHUP.setWidth 16 else 0 }

private theorem hungWorld_getElem? (hung : Nat → Bool) (fin : Nat) {i : Nat}
    (hf : (selectFds nfds sets)[i]? = some f) :
    ((hungWorld nfds sets hung fin).poll.ofds (selectFds nfds sets))[i]?.join =
      some ⟨.handle, 0, false, hung f.fd.toNat, false⟩ := by
  obtain ⟨n, hn⟩ := entryOf_mem (List.mem_of_getElem? hf)
  have hfd := hn.fd
  rw [ofds_getElem? _ hf, if_neg (by omega)]
  simp [hungWorld, hf]

private theorem winReady_hung (hung : Bool) (events : BitVec 32) :
    winReady ⟨.handle, 0, false, hung, false⟩ ⟨false, none⟩ events = (if hung then SPPC_POLLHUP else 0, false) := by
  cases hung <;> rfl

private theorem which_hung (hung : Nat → Bool) (fin : Nat) :
    which ((hungWorld nfds sets hung fin).poll.ofds (selectFds nfds sets)) = [] := by
  rw [List.eq_nil_iff_forall_not_mem]
  intro i hi
  obtain ⟨ofd, hofd, hkind⟩ := mem_which.1 hi
  cases hf : (selectFds nfds sets)[i]? with
  | none =>
    have hge := List.getElem?_eq_none_iff.1 hf
    rw [List.getElem?_eq_none (by rw [length_ofds]; exact hge)] at hofd
    cases hofd
  | some f =>
    rw [hungWorld_getElem? hung fin hf, Option.some_inj] at hofd
    rw [← hofd] at hkind
    cases hkind

private theorem pollStart_hung (hung : Nat → Bool) (fin : Nat) :
    pollStart ((hungWorld nfds sets hung fin).poll.ofds (selectFds nfds sets)) (selectFds nfds sets) =
      selectFds nfds sets := by
  apply List.ext_getElem?
  intro i
  rw [pollStart, List.getElem?_mapIdx]
  cases hf : (selectFds nfds sets)[i]? with
  | none => rfl
  | some f =>
    obtain ⟨n, -, -, rfl⟩ := mem_selectFds.1 (List.mem_of_getElem? hf)
    rw [Option.map_some, hungWorld_getElem? hung fin hf]
    simp

private theorem lookOver_hung (hung : Nat → Bool) (fin : Nat) :
    lookOver ((hungWorld nfds sets hung fin).poll.ofds (selectFds nfds sets)) (fun _ => ⟨false, none⟩)
      (selectFds nfds sets) = (selectFds nfds sets).map (hungEntry hung) := by
  apply List.ext_getElem?
  intro i
  rw [lookOver, List.getElem?_mapIdx, List.getElem?_map]
  cases hf : (selectFds nfds sets)[i]? with
  | none => rw [Option.map_none, Option.map_none]
  | some f =>
    rw [Option.map_some, Option.map_some, hungWorld_getElem? hung fin hf]
    dsimp only
    rw [if_pos (by simp), winReady_hung, hungEntry]
    split <;> rfl

private theorem waiting_hung (hung : Nat → Bool) (fin : Nat) :
    waiting ((hungWorld nfds sets hung fin).poll.ofds (selectFds nfds sets)) (fun _ => ⟨false, none⟩)
      ((selectFds nfds sets).map (hungEntry hung)) = false := by
  rw [waiting, List.any_eq_false]
  intro b hb
  obtain ⟨i, hi, rfl⟩ := List.mem_mapIdx.1 hb
  rw [List.length_map] at hi
  rw [hungWorld_getElem? hung fin (List.getElem?_eq_getElem hi)]
  simp [winReady_hung]

private theorem hung_round (hung : Nat → Bool) (fin : Nat) (ms : Int) :
    pollRound ((hungWorld nfds sets hung fin).poll.ofds (selectFds nfds sets)) ms (selectFds nfds sets)
      (hungWorld nfds sets hung fin).poll.last =
        .done ⟨none, readyCount ((selectFds nfds sets).map (hungEntry hung)),
          (selectFds nfds sets).map (hungEntry hung)⟩ := by
  rw [pollRound]
  have hseen : (hungWorld nfds sets hung fin).poll.last.seen = fun _ => ⟨false, none⟩ := rfl
  have hgone : (hungWorld nfds sets hung fin).poll.last.gone = 0 := rfl
  rw [hseen, hgone, lookOver_hung, waiting_hung, which_hung]
  dsimp only
  rw [if_neg (not_not.2 rfl), if_pos]
  by_cases hready : 0 < readyCount ((selectFds nfds sets).map (hungEntry hung))
  · exact Or.inl hready
  by_cases hleft : ticksLeft ms 0 = 0
  · exact Or.inr (Or.inl hleft)
  refine Or.inr (Or.inr ⟨Bool.false_ne_true, ?_⟩)
  rw [pollSlice, if_neg hready, if_neg Bool.false_ne_true]
  split
  · omega
  · exact hleft

private theorem hung_polled (nfds : Int) (sets : FdSets) (hung : Nat → Bool) (fin : Nat) (ms : Int) :
    ∃ log, sppcPollTraced (hungWorld nfds sets hung fin).poll (selectFds nfds sets) ms =
      some ⟨⟨none, readyCount ((selectFds nfds sets).map (hungEntry hung)),
        (selectFds nfds sets).map (hungEntry hung)⟩, log⟩ := by
  have hlength := selectFds_length nfds sets
  have haccepted : ¬∃ f ∈ selectFds nfds sets, sppcToOsFlags f.asked (sppcPollTable winEvents) = none := by
    rintro ⟨f, hf, hnone⟩
    exact selectFds_accepted f hf hnone
  have hcalloc : ¬(selectFds nfds sets ≠ [] ∧ ¬(hungWorld nfds sets hung fin).poll.calloc) := fun h => h.2 rfl
  have hrounds : (hungWorld nfds sets hung fin).poll.rounds = [] := rfl
  rw [sppcPollTraced, if_neg (by omega), if_neg haccepted, if_neg hcalloc, hrounds, pollStart_hung, pollRounds,
    Option.bind_some, hung_round]
  exact ⟨_, rfl⟩

private theorem hung_keeps {hung : Nat → Bool} {fin : Nat}
    (h : readyCount ((selectFds nfds sets).map (hungEntry hung)) = 0 → 0 ≤ selectMs timeout ∧
      selectMs timeout ≤ fin) :
    (hungWorld nfds sets hung fin).Keeps nfds sets timeout where
  waits := by
    rw [pollStart_hung]
    refine ⟨Nat.zero_le _, fun hsockets => absurd (which_hung hung fin) hsockets, fun _ hready _ => ?_⟩
    have hseen : (hungWorld nfds sets hung fin).poll.last.seen = fun _ => ⟨false, none⟩ := rfl
    have hgone : (hungWorld nfds sets hung fin).poll.last.gone = 0 := rfl
    rw [hseen, lookOver_hung] at hready
    obtain ⟨hpos, hle⟩ := h hready
    have hfin : (hungWorld nfds sets hung fin).poll.fin = fin := rfl
    rw [roundSlice, hseen, hgone, lookOver_hung, waiting_hung, hready, hfin, pollSlice, if_neg (Nat.lt_irrefl 0),
      if_neg Bool.false_ne_true, if_neg (by omega), ticksLeft, if_pos hpos]
    split
    · omega
    · omega
  asked := fun reports hwsa => nomatch hwsa

/-- Where what is reported meets no condition, the loop leaves the sets. -/
private theorem storeSets_none (h : ∀ p ∈ ps, ¬Meets p.1 p.2) : storeSets ps sets total = (sets, total) := by
  induction ps with
  | nil => rfl
  | cons p ps ih =>
    obtain ⟨f, s⟩ := p
    have hrest := ih fun p hp => h p (List.mem_cons_of_mem _ hp)
    rw [storeSets]
    cases sets s with
    | none => exact hrest
    | some set =>
      dsimp only
      rw [if_neg (h (f, s) List.mem_cons_self)]
      exact hrest

/-- Where what the pipes report meets no condition, the select counts none. -/
private theorem hung_select (hargs : SelectArgs nfds timeout) {hung : Nat → Bool} (fin : Nat)
    (hnone : ∀ f ∈ (selectFds nfds sets).map (hungEntry hung), ∀ s, ¬Meets f s) :
    ∃ r, sppcSelect (hungWorld nfds sets hung fin) nfds sets timeout = some r ∧ r.err = none ∧ r.outN = 0 := by
  obtain ⟨log, hpoll⟩ := hung_polled nfds sets hung fin (selectMs timeout)
  have hvalid : ¬∃ f ∈ (selectFds nfds sets).map (hungEntry hung), f.got &&& SPPC_POLLNVAL ≠ 0 := by
    rintro ⟨f, hf, hne⟩
    obtain ⟨g, -, rfl⟩ := List.mem_map.1 hf
    apply hne
    rw [hungEntry, Pollfd.got]
    dsimp only
    split <;> decide
  have hstored : storeSets (inTurn ((selectFds nfds sets).map (hungEntry hung))) (clearSets sets) 0 =
      (clearSets sets, 0) :=
    storeSets_none fun p hp => hnone p.1 ((mem_inTurn p.2).1 hp) p.2
  rw [sppcSelect, if_neg (not_not.2 hargs), hpoll, Option.map_some]
  dsimp only
  rw [if_neg hvalid, hstored]
  exact ⟨_, rfl, rfl, rfl⟩

private theorem hung_gone (hung : Nat → Bool) (fin : Nat) : (hungWorld nfds sets hung fin).gone = fin := by
  show 0 + fin + 0 = fin
  omega

/-- A hung-up pipe that is not asked about for reading. -/
private theorem hung_unread (hno : ¬inSet sets 0 n) :
    ∀ f ∈ (selectFds nfds sets).map (hungEntry fun m => m = n.val), ∀ s, ¬Meets f s := by
  intro f hf s hmeets
  obtain ⟨g, hg, rfl⟩ := List.mem_map.1 hf
  obtain ⟨m, hm⟩ := entryOf_mem hg
  have hasks : inSet sets s m := (hm.asks_iff s).1 hmeets.1
  have hgot := hmeets.2
  rw [hungEntry, Pollfd.got] at hgot
  dsimp only at hgot
  split at hgot
  · rename_i hmn
    have hs : s = 0 := by
      revert hgot
      fin_cases s <;> decide
    have hmn' : m = n := by
      apply Fin.ext
      have hfd := hm.fd
      rw [decide_eq_true_eq] at hmn
      omega
    rw [hs, hmn'] at hasks
    exact hno hasks
  · exact hgot (by simp)

private theorem selectMs_bounds (tv : Timeval) : 0 ≤ selectMs (some tv) ∧ selectMs (some tv) ≤ 2147483647 := by
  rw [selectMs]
  split
  · exact ⟨by decide, Int.le_refl _⟩
  · rename_i hle
    rw [BitVec.not_lt, BitVec.le_def, show (2147483647 : BitVec 64).toNat = 2147483647 from rfl] at hle
    exact ⟨Int.natCast_nonneg _, Int.ofNat_le.2 hle⟩

/-- A time that is too long is longer than the longest that `sppc_poll` takes. -/
private theorem micro_lt {sec usec : Nat} (h : ¬sec * 1000 + (usec + 999) / 1000 ≤ 2147483647) :
    2147483647 * 1000 < sec * 1000000 + usec := by
  have hround : (usec + 999) / 1000 * 1000 ≤ usec + 999 := Nat.div_mul_le_self _ _
  have hlong : 2147483648 * 1000 ≤ (sec * 1000 + (usec + 999) / 1000) * 1000 := Nat.mul_le_mul_right 1000 (by omega)
  rw [Nat.add_mul, Nat.mul_assoc] at hlong
  omega

private theorem fits_of_selectsWell (hwell : SelectsWell nfds sets timeout) : SelectFits nfds sets timeout := by
  intro hargs
  by_cases hnow : timeout = some ⟨0, 0⟩
  · exact Or.inl hnow
  refine Or.inr ⟨fun n hn s hin => ?_, fun tv htv => ?_⟩
  · -- a pipe that hangs up at once
    by_contra hno
    have hready : readyCount ((selectFds nfds sets).map (hungEntry fun m => m = n.val)) ≠ 0 := by
      intro hzero
      have hmem : (⟨n.val, (selectEvents sets n).setWidth 16, 0⟩ : Pollfd) ∈ selectFds nfds sets := by
        refine mem_selectFds.2 ⟨n, hn, ?_, rfl⟩
        intro hevents
        have hasks := (selectEvents_asks sets n s).2 hin
        rw [hevents] at hasks
        exact hasks (by simp)
      have hrev := revents_of_readyCount hzero _ (List.mem_map_of_mem hmem)
      rw [hungEntry] at hrev
      dsimp only at hrev
      rw [if_pos (by simp)] at hrev
      exact absurd hrev (by decide)
    obtain ⟨r, hr, herr, hzero⟩ := hung_select hargs 0 (hung_unread hno)
    obtain ⟨-, hsuccess⟩ := hwell _ r (hung_keeps fun h => absurd h hready) hr
    obtain ⟨t, -, hselected⟩ := hsuccess herr
    obtain ⟨tv, htv, hle⟩ := hselected.zero hzero
    rw [hung_gone] at hle
    apply hnow
    obtain ⟨sec, usec⟩ := tv
    dsimp only at hle
    have hsec : sec = 0 := BitVec.eq_of_toNat_eq (by simp; omega)
    have husec : usec = 0 := BitVec.eq_of_toNat_eq (by simp; omega)
    rw [htv, hsec, husec]
  · -- nothing happens for as long as the poll waits
    by_contra hlong
    obtain ⟨hpos, hmax⟩ := selectMs_bounds tv
    have hquiet : ∀ f ∈ (selectFds nfds sets).map (hungEntry fun _ => false), ∀ s, ¬Meets f s := by
      intro f hf s hmeets
      obtain ⟨g, -, rfl⟩ := List.mem_map.1 hf
      exact hmeets.2 (by simp [hungEntry, Pollfd.got])
    obtain ⟨r, hr, herr, hzero⟩ := hung_select hargs (selectMs timeout).toNat hquiet
    obtain ⟨-, hsuccess⟩ := hwell _ r (hung_keeps fun _ => by rw [htv]; omega) hr
    obtain ⟨t, -, hselected⟩ := hsuccess herr
    obtain ⟨tv', htv', hle⟩ := hselected.zero hzero
    rw [htv, Option.some_inj] at htv'
    rw [hung_gone, ← htv', htv] at hle
    have hlt := micro_lt hlong
    have hms : (selectMs (some tv)).toNat * 1000 ≤ 2147483647 * 1000 := Nat.mul_le_mul_right 1000 (by omega)
    exact Nat.lt_irrefl _ (Nat.lt_of_lt_of_le hlt (Nat.le_trans hle hms))

/-- A select does as it is to, however the calls of its poll go, if and only if it has no time to wait, or every
descriptor is asked about for reading and the time is not too long for a poll. -/
theorem sppcSelect_selects (nfds : Int) (sets : FdSets) (timeout : Option Timeval) :
    SelectsWell nfds sets timeout ↔ SelectFits nfds sets timeout :=
  ⟨fits_of_selectsWell, selectsWell_of_fits⟩

/-- Descriptor 3 in the second set, and no others. -/
def writeThree : FdSets := ![none, some (addFd ⟨Vector.replicate 16 0⟩ 3), none]

/-- A pipe that has hung up, asked about for writing with no time given: the select returns at once, with none. -/
theorem sppcSelect_early :
    (hungWorld 4 writeThree (fun _ => true) 0).Keeps 4 writeThree none ∧
      (sppcSelect (hungWorld 4 writeThree (fun _ => true) 0) 4 writeThree none).map (fun r => (r.err, r.outN)) =
        some (none, 0) ∧ ¬SelectsWell 4 writeThree none := by
  have hready : readyCount ((selectFds 4 writeThree).map (hungEntry fun _ => true)) = 1 := by decide +kernel
  refine ⟨hung_keeps fun h => ?_, by decide +kernel, fun hwell => ?_⟩
  · rw [hready] at h
    cases h
  · have hargs : SelectArgs 4 none := ⟨by decide, by decide, fun tv h => nomatch h⟩
    rcases fits_of_selectsWell hwell hargs with hnow | ⟨hread, -⟩
    · cases hnow
    · have hin := hread 3 (by decide) 1 (by decide +kernel)
      cases hin

end Sppc.Windows
