import Sppc.Poll

/-!
# Poll in place (`platform/posix.h`)

`sppc_poll`, which hands the platform the caller's own array where the table of events is the identity, and the copy
of `_sppc_poll_translated` where it is not.
-/

namespace Sppc

open Laminar

/-- `_sppc_table_is_identity`. -/
def sppcTableIsIdentity (table : List Pair) : Bool := table.all fun p => p.sppc = p.os

/-- What the platform's `poll` reads of a descriptor. -/
structure Asked where
  fd : Int
  events : BitVec 16
  deriving DecidableEq, Repr

/-- The platform's `poll`: its `errno`, which leaves the array alone, or how many descriptors are ready and the
`revents` of each. -/
abbrev OsPoll := List Asked → Int → Except Nat (Int × (Nat → BitVec 16))

/-- What a poll leaves, and what the platform was asked. -/
structure PollRun where
  ret : PollReturn
  asked : List (List Asked)
  deriving DecidableEq, Repr

/-- A poll that is refused before the platform is asked. -/
def PollRun.refused (e : PollErr) (fds : List Pollfd) : PollRun := ⟨⟨some e, -1, fds⟩, []⟩

/-- `_sppc_poll_translated` with a table of its own, where `malloc` says whether there is memory. -/
def sppcPollTranslatedBy (table : List Pair) (malloc : Bool) (poll : OsPoll) (fds : List Pollfd)
    (timeout : Int) : PollRun :=
  if 64 < fds.length ∧ ¬malloc then .refused .ENOMEM fds
  else
    match fds.mapM fun f => (sppcToOsFlags f.asked table).map fun events => Asked.mk f.fd (events.setWidth 16) with
    | none => .refused .EINVAL fds
    | some osFds =>
      match poll osFds timeout with
      | .error e => ⟨⟨some (.os e), -1, fds⟩, [osFds]⟩
      | .ok (n, reports) =>
        ⟨⟨none, n, fds.mapIdx fun i f =>
          { f with revents := (sppcFromOsFlags ((reports i).signExtend 32) table).setWidth 16 }⟩, [osFds]⟩

/-- `sppc_poll` with a table of its own. -/
def sppcPollBy (table : List Pair) (malloc : Bool) (poll : OsPoll) (fds : List Pollfd) (timeout : Int) : PollRun :=
  if ∃ f ∈ fds, sppcToOsFlags f.asked table = none then .refused .EINVAL fds
  else if sppcTableIsIdentity table then
    let osFds := fds.map fun f => Asked.mk f.fd f.events
    match poll osFds timeout with
    | .error e => ⟨⟨some (.os e), -1, fds⟩, [osFds]⟩
    | .ok (n, reports) => ⟨⟨none, n, fds.mapIdx fun i f => { f with revents := reports i }⟩, [osFds]⟩
  else sppcPollTranslatedBy table malloc poll fds timeout

/-- Linux's events. -/
def linuxEvents : OsEvents :=
  { POLLIN := 0x1, POLLPRI := 0x2, POLLOUT := 0x4, POLLERR := 0x8, POLLHUP := 0x10, POLLNVAL := 0x20,
    POLLRDNORM := 0x40, POLLRDBAND := 0x80, POLLWRNORM := 0x100, POLLWRBAND := 0x200 }

/-! ### Over the whole array -/

section mapM

variable {α β γ : Type} {g : α → Option β} {l : List α}

private theorem mapM_cons_option (g : α → Option β) (a : α) (l : List α) :
    (a :: l).mapM g = (g a).bind fun b => (l.mapM g).map (b :: ·) := by
  rw [List.mapM_cons]
  cases g a with
  | none => rfl
  | some b => cases l.mapM g <;> rfl

private theorem mapM_eq_none : l.mapM g = none ↔ ∃ a ∈ l, g a = none := by
  induction l with
  | nil => simp
  | cons a l ih =>
    rw [mapM_cons_option, List.exists_mem_cons_iff, ← ih]
    cases g a with
    | none => simp
    | some b => simp

private theorem mapM_eq_map {k : α → β} (h : ∀ a ∈ l, g a = some (k a)) : l.mapM g = some (l.map k) := by
  induction l with
  | nil => rfl
  | cons a l ih =>
    rw [mapM_cons_option, h a List.mem_cons_self, ih fun a' ha' => h a' (List.mem_cons_of_mem a ha')]
    rfl

end mapM

/-! ### A table of single bits -/

/-- Every entry is one bit. -/
def SingleBits (table : List Pair) : Prop := ∀ p ∈ table, ∃ n < 32, p.os = BitVec.twoPow 32 n

/-- The bits that the table names. -/
def named (table : List Pair) : Set Nat := { n | ∃ p ∈ table, n ∈ bits p.os }

/-- Some of the events asked for have no name. -/
def Outside (table : List Pair) (f : Pollfd) : Prop := ¬bits f.asked ⊆ named table

/-- The platform reports only what the table names. -/
def ReportsNamed (table : List Pair) (poll : OsPoll) : Prop :=
  ∀ osFds timeout n reports, poll osFds timeout = .ok (n, reports) →
    ∀ i m, (reports i).getLsbD m → m ∈ named table

/-- No descriptor has another number or other events. -/
def SameAsked (fds fds' : List Pollfd) : Prop :=
  (fds'.map fun f => Asked.mk f.fd f.events) = fds.map fun f => Asked.mk f.fd f.events

variable {table : List Pair}

private theorem named_cons (p : Pair) (table : List Pair) : named (p :: table) = bits p.os ∪ named table := by
  ext n
  simp [named]

/-- Where every entry is a bit that maps to itself, the loop takes the bits that have names. -/
private theorem takeFlags_named {side other : Pair → BitVec 32} (hside : ∀ p ∈ table, side p = p.os)
    (hother : ∀ p ∈ table, other p = p.os) (hbits : SingleBits table) (flags out : BitVec 32) :
    bits (takeFlags side other table flags out).1 = bits out ∪ bits flags ∩ named table ∧
      bits (takeFlags side other table flags out).2 = bits flags \ named table := by
  induction table generalizing flags out with
  | nil => simp [takeFlags, named]
  | cons p table ih =>
    obtain ⟨n, hn, hpn⟩ := hbits p List.mem_cons_self
    have hp : bits p.os = {n} := by rw [hpn, bits_twoPow hn]
    have hne : p.os ≠ 0 := by
      intro h0
      rw [h0, bits_zero] at hp
      exact Set.singleton_ne_empty n hp.symm
    have ih := ih (fun q hq => hside q (List.mem_cons_of_mem p hq)) (fun q hq => hother q (List.mem_cons_of_mem p hq))
      fun q hq => hbits q (List.mem_cons_of_mem p hq)
    rw [takeFlags, named_cons, hside p List.mem_cons_self, hother p List.mem_cons_self]
    by_cases hzero : flags = 0
    · rw [if_pos hzero, hzero, bits_zero]
      simp
    · rw [if_neg hzero]
      by_cases hin : flags &&& p.os = p.os
      · have hsub : bits p.os ⊆ bits flags := contains_iff.1 hin
        obtain ⟨hout, hleft⟩ := ih (flags &&& ~~~p.os) (out ||| p.os)
        rw [if_pos ⟨hne, hin⟩, hout, hleft, bits_and_not, bits_or, Set.sdiff_sdiff]
        refine ⟨?_, rfl⟩
        ext m
        have := @hsub m
        simp only [Set.mem_union, Set.mem_inter_iff, Set.mem_sdiff]
        tauto
      · have hnot : n ∉ bits flags := by
          intro hflags
          apply hin
          apply contains_iff.2
          rw [hp]
          exact Set.singleton_subset_iff.2 hflags
        obtain ⟨hout, hleft⟩ := ih flags out
        rw [if_neg fun h => hin h.2, hout, hleft, hp]
        constructor
        · rw [Set.inter_union_distrib_left, Set.inter_singleton_eq_empty.2 hnot, Set.empty_union]
        · rw [← Set.sdiff_sdiff, Set.sdiff_singleton_eq_self hnot]

private theorem mem_of_identity (h : sppcTableIsIdentity table) : ∀ p ∈ table, p.sppc = p.os := by
  intro p hp
  exact of_decide_eq_true (List.all_eq_true.1 h p hp)

/-- Flags that all have names are translated to themselves, and others are not translated. -/
private theorem sppcToOsFlags_identity (hid : sppcTableIsIdentity table) (hbits : SingleBits table)
    (flags : BitVec 32) : (bits flags ⊆ named table → sppcToOsFlags flags table = some flags) ∧
      (¬bits flags ⊆ named table → sppcToOsFlags flags table = none) := by
  obtain ⟨hout, hleft⟩ :=
    @takeFlags_named table Pair.sppc Pair.os (mem_of_identity hid) (fun _ _ => rfl) hbits flags 0
  rw [bits_zero, Set.empty_union] at hout
  rw [sppcToOsFlags]
  constructor
  · intro hsub
    have hzero : (takeFlags Pair.sppc Pair.os table flags 0).2 = 0 := by
      apply bits_inj
      rw [hleft, bits_zero, Set.sdiff_eq_empty]
      exact hsub
    have hsame : (takeFlags Pair.sppc Pair.os table flags 0).1 = flags := by
      apply bits_inj
      rw [hout, Set.inter_eq_left]
      exact hsub
    rw [if_neg (not_not.2 hzero), hsame]
  · intro hsub
    rw [if_pos]
    intro hzero
    rw [hzero, bits_zero] at hleft
    exact hsub (Set.sdiff_eq_empty.1 hleft.symm)

/-- What the platform reports comes back as it is. -/
private theorem setWidth_sppcFromOsFlags (hid : sppcTableIsIdentity table) (hbits : SingleBits table) {r : BitVec 16}
    (hr : ∀ m, r.getLsbD m → m ∈ named table) : (sppcFromOsFlags (r.signExtend 32) table).setWidth 16 = r := by
  obtain ⟨hout, -⟩ :=
    @takeFlags_named table Pair.os Pair.sppc (fun _ _ => rfl) (mem_of_identity hid) hbits (r.signExtend 32) 0
  rw [bits_zero, Set.empty_union] at hout
  apply BitVec.eq_of_getLsbD_eq
  intro m hm
  have hmem : (sppcFromOsFlags (r.signExtend 32) table).getLsbD m ↔ (r.signExtend 32).getLsbD m ∧ m ∈ named table :=
    Set.ext_iff.1 hout m
  have hext : (r.signExtend 32).getLsbD m = r.getLsbD m := by
    rw [BitVec.getLsbD_signExtend]
    simp [hm, show m < 32 by omega]
  rw [hext] at hmem
  rw [BitVec.getLsbD_setWidth, Bool.eq_iff_iff, Bool.and_eq_true, hmem]
  constructor
  · intro h
    exact h.2.1
  · intro h
    exact ⟨decide_eq_true hm, h, hr m h⟩

/-- The events asked for, handed over as a `short` again. -/
private theorem Pollfd.setWidth_asked (f : Pollfd) : f.asked.setWidth 16 = f.events := by
  apply BitVec.eq_of_getLsbD_eq
  intro m hm
  rw [BitVec.getLsbD_setWidth, Pollfd.asked, BitVec.getLsbD_signExtend]
  simp [hm, show m < 32 by omega]

private theorem sppcToOsFlags_eq_none (hid : sppcTableIsIdentity table) (hbits : SingleBits table) (f : Pollfd) :
    sppcToOsFlags f.asked table = none ↔ Outside table f := by
  obtain ⟨hsome, hnone⟩ := sppcToOsFlags_identity hid hbits f.asked
  constructor
  · intro h hsub
    rw [hsome hsub] at h
    exact Option.some_ne_none _ h
  · exact hnone

/-! ### The two ways -/

private theorem sppcPollTranslatedBy_refused (hid : sppcTableIsIdentity table) (hbits : SingleBits table)
    {malloc : Bool} (poll : OsPoll) {fds : List Pollfd} (timeout : Int) (hmalloc : 64 < fds.length → malloc)
    (h : ∃ f ∈ fds, Outside table f) :
    sppcPollTranslatedBy table malloc poll fds timeout = .refused .EINVAL fds := by
  obtain ⟨f, hf, hout⟩ := h
  have hnone : (fds.mapM fun f => (sppcToOsFlags f.asked table).map fun events =>
      Asked.mk f.fd (events.setWidth 16)) = none := by
    apply mapM_eq_none.2
    refine ⟨f, hf, ?_⟩
    rw [(sppcToOsFlags_eq_none hid hbits f).2 hout, Option.map_none]
  rw [sppcPollTranslatedBy, if_neg fun hlarge => hlarge.2 (hmalloc hlarge.1), hnone]

/-- Where every event has a name, both ways ask the platform the same and store the same. -/
private theorem sppcPollTranslatedBy_named (hid : sppcTableIsIdentity table) (hbits : SingleBits table)
    {malloc : Bool} {poll : OsPoll} (hpoll : ReportsNamed table poll) {fds : List Pollfd} (timeout : Int)
    (hmalloc : 64 < fds.length → malloc) (h : ∀ f ∈ fds, bits f.asked ⊆ named table) :
    sppcPollTranslatedBy table malloc poll fds timeout = sppcPollBy table malloc poll fds timeout := by
  have hcopy : (fds.mapM fun f => (sppcToOsFlags f.asked table).map fun events =>
      Asked.mk f.fd (events.setWidth 16)) = some (fds.map fun f => Asked.mk f.fd f.events) := by
    apply mapM_eq_map
    intro f hf
    rw [(sppcToOsFlags_identity hid hbits f.asked).1 (h f hf), Option.map_some, f.setWidth_asked]
  have haccepted : ¬∃ f ∈ fds, sppcToOsFlags f.asked table = none := by
    rintro ⟨f, hf, hnone⟩
    exact (sppcToOsFlags_eq_none hid hbits f).1 hnone (h f hf)
  rw [sppcPollTranslatedBy, if_neg fun hlarge => hlarge.2 (hmalloc hlarge.1), hcopy, sppcPollBy, if_neg haccepted,
    if_pos hid]
  dsimp only
  cases hres : poll (fds.map fun f => ⟨f.fd, f.events⟩) timeout with
  | error e => rfl
  | ok r =>
    obtain ⟨n, reports⟩ := r
    have hstore (i : Nat) : (sppcFromOsFlags ((reports i).signExtend 32) table).setWidth 16 = reports i :=
      setWidth_sppcFromOsFlags hid hbits fun m => hpoll _ _ n reports hres i m
    dsimp only
    simp only [hstore]

private theorem sameAsked_mapIdx (fds : List Pollfd) (revents : Nat → BitVec 16) :
    SameAsked fds (fds.mapIdx fun i f => { f with revents := revents i }) := by
  apply List.ext_getElem?
  intro i
  rw [List.getElem?_map, List.getElem?_map, List.getElem?_mapIdx]
  cases fds[i]? <;> rfl

/-- A poll changes no descriptor's number and no events. -/
private theorem sppcPollBy_sameAsked (hid : sppcTableIsIdentity table) (malloc : Bool) (poll : OsPoll)
    (fds : List Pollfd) (timeout : Int) : SameAsked fds (sppcPollBy table malloc poll fds timeout).ret.fds := by
  by_cases hnone : ∃ f ∈ fds, sppcToOsFlags f.asked table = none
  · rw [sppcPollBy, if_pos hnone]
    rfl
  · rw [sppcPollBy, if_neg hnone, if_pos hid]
    dsimp only
    cases poll (fds.map fun f => ⟨f.fd, f.events⟩) timeout with
    | error e => rfl
    | ok r => exact sameAsked_mapIdx fds r.2

/-- With events that are sppc's, a poll in place is the poll of a translated copy: each refuses exactly the arrays
with events that have no name, and asks the platform nothing then. -/
theorem sppcPollBy_inPlace {malloc : Bool} {poll : OsPoll} {fds : List Pollfd} (timeout : Int)
    (hid : sppcTableIsIdentity table) (hbits : SingleBits table) (hpoll : ReportsNamed table poll)
    (hmalloc : 64 < fds.length → malloc) :
    sppcPollBy table malloc poll fds timeout = sppcPollTranslatedBy table malloc poll fds timeout ∧
    SameAsked fds (sppcPollBy table malloc poll fds timeout).ret.fds ∧
    (sppcPollBy table malloc poll fds timeout = .refused .EINVAL fds ↔ ∃ f ∈ fds, Outside table f) ∧
    (sppcPollTranslatedBy table malloc poll fds timeout = .refused .EINVAL fds ↔ ∃ f ∈ fds, Outside table f) := by
  have hsame : sppcPollBy table malloc poll fds timeout = sppcPollTranslatedBy table malloc poll fds timeout := by
    by_cases hout : ∃ f ∈ fds, Outside table f
    · have hnone : ∃ f ∈ fds, sppcToOsFlags f.asked table = none := by
        obtain ⟨f, hf, hf'⟩ := hout
        exact ⟨f, hf, (sppcToOsFlags_eq_none hid hbits f).2 hf'⟩
      rw [sppcPollTranslatedBy_refused hid hbits poll timeout hmalloc hout, sppcPollBy, if_pos hnone]
    · have hnamed : ∀ f ∈ fds, bits f.asked ⊆ named table := by
        intro f hf
        by_contra hnot
        exact hout ⟨f, hf, hnot⟩
      exact (sppcPollTranslatedBy_named hid hbits hpoll timeout hmalloc hnamed).symm
  have hrefused : sppcPollBy table malloc poll fds timeout = .refused .EINVAL fds ↔ ∃ f ∈ fds, Outside table f := by
    constructor
    · intro h
      by_contra hout
      have haccepted : ¬∃ f ∈ fds, sppcToOsFlags f.asked table = none := by
        rintro ⟨f, hf, hnone⟩
        exact hout ⟨f, hf, (sppcToOsFlags_eq_none hid hbits f).1 hnone⟩
      have hasked : (sppcPollBy table malloc poll fds timeout).asked = [fds.map fun f => ⟨f.fd, f.events⟩] := by
        rw [sppcPollBy, if_neg haccepted, if_pos hid]
        dsimp only
        cases poll (fds.map fun f => ⟨f.fd, f.events⟩) timeout with
        | error e => rfl
        | ok r => rfl
      rw [h] at hasked
      exact List.cons_ne_nil _ _ hasked.symm
    · intro hout
      rw [hsame]
      exact sppcPollTranslatedBy_refused hid hbits poll timeout hmalloc hout
  refine ⟨hsame, sppcPollBy_sameAsked hid malloc poll fds timeout, hrefused, ?_⟩
  rw [← hsame]
  exact hrefused

private theorem linuxEvents_identity : sppcTableIsIdentity (sppcPollTable linuxEvents) := by decide +kernel

private theorem linuxEvents_singleBits : SingleBits (sppcPollTable linuxEvents) := by
  intro p hp
  obtain ⟨n, hn, hpn⟩ := mem_names hp
  refine ⟨n, by omega, ?_⟩
  rw [← mem_of_identity linuxEvents_identity p hp, hpn]

/-- A reader with bytes and a writer with room. -/
def oneOfEach : List Pollfd := [⟨3, 0x1, 0⟩, ⟨4, 0x4, 0⟩]

/-- A platform that finds the first ready to read and the second to write. -/
def bothReady : OsPoll := fun _ _ => .ok (2, fun i => if i = 0 then 0x1 else 0x4)

theorem sppcPollBy_inPlace_oneOfEach :
    sppcPollBy (sppcPollTable linuxEvents) true bothReady oneOfEach 0 =
      ⟨⟨none, 2, [⟨3, 0x1, 0x1⟩, ⟨4, 0x4, 0x4⟩]⟩, [[⟨3, 0x1⟩, ⟨4, 0x4⟩]]⟩ ∧
    sppcPollBy (sppcPollTable linuxEvents) true bothReady oneOfEach 0 =
      sppcPollTranslatedBy (sppcPollTable linuxEvents) true bothReady oneOfEach 0 := by
  have hnamed : ReportsNamed (sppcPollTable linuxEvents) bothReady := by
    intro osFds timeout n reports hres i m hm
    rw [bothReady, Except.ok.injEq, Prod.mk.injEq] at hres
    rw [← hres.2] at hm
    dsimp only at hm
    by_cases hi : i = 0
    · have hone : (0x1 : BitVec 16) = BitVec.twoPow 16 0 := by decide
      rw [if_pos hi, hone, BitVec.getLsbD_twoPow, Bool.and_eq_true, decide_eq_true_eq, decide_eq_true_eq] at hm
      rw [← hm.2]
      exact ⟨⟨SPPC_POLLIN, 0x1⟩, by decide +kernel, show (0x1 : BitVec 32).getLsbD 0 by decide⟩
    · have hfour : (0x4 : BitVec 16) = BitVec.twoPow 16 2 := by decide
      rw [if_neg hi, hfour, BitVec.getLsbD_twoPow, Bool.and_eq_true, decide_eq_true_eq, decide_eq_true_eq] at hm
      rw [← hm.2]
      exact ⟨⟨SPPC_POLLOUT, 0x4⟩, by decide +kernel, show (0x4 : BitVec 32).getLsbD 2 by decide⟩
  exact ⟨by decide +kernel, (sppcPollBy_inPlace 0 linuxEvents_identity linuxEvents_singleBits hnamed (by decide)).1⟩

end Sppc
