import Sppc.Flags

/-!
# Poll (`platform/posix.h`, `platform/shared.h`)

`_sppc_poll_translated`, which hands the platform a translated copy of the descriptors and translates back what it
reports.  The platform's events may share bits: those of one may be among those of another, or the same.
-/

namespace Sppc

open Laminar

def SPPC_POLLIN : BitVec 32 := 0x1
def SPPC_POLLPRI : BitVec 32 := 0x2
def SPPC_POLLOUT : BitVec 32 := 0x4
def SPPC_POLLERR : BitVec 32 := 0x8
def SPPC_POLLHUP : BitVec 32 := 0x10
def SPPC_POLLNVAL : BitVec 32 := 0x20
def SPPC_POLLRDNORM : BitVec 32 := 0x40
def SPPC_POLLRDBAND : BitVec 32 := 0x80
def SPPC_POLLWRNORM : BitVec 32 := 0x100
def SPPC_POLLWRBAND : BitVec 32 := 0x200

/-- The platform's events. -/
structure OsEvents where
  POLLIN : BitVec 32
  POLLPRI : BitVec 32
  POLLOUT : BitVec 32
  POLLERR : BitVec 32
  POLLHUP : BitVec 32
  POLLNVAL : BitVec 32
  POLLRDNORM : BitVec 32
  POLLRDBAND : BitVec 32
  POLLWRNORM : BitVec 32
  POLLWRBAND : BitVec 32

/-- `_sppc_poll_table`. -/
def sppcPollTable (os : OsEvents) : List Pair :=
  [⟨SPPC_POLLIN, os.POLLIN⟩, ⟨SPPC_POLLPRI, os.POLLPRI⟩, ⟨SPPC_POLLOUT, os.POLLOUT⟩, ⟨SPPC_POLLERR, os.POLLERR⟩,
    ⟨SPPC_POLLHUP, os.POLLHUP⟩, ⟨SPPC_POLLNVAL, os.POLLNVAL⟩, ⟨SPPC_POLLRDNORM, os.POLLRDNORM⟩,
    ⟨SPPC_POLLRDBAND, os.POLLRDBAND⟩, ⟨SPPC_POLLWRNORM, os.POLLWRNORM⟩, ⟨SPPC_POLLWRBAND, os.POLLWRBAND⟩]

/-- `sppc_pollfd`. -/
structure Pollfd where
  fd : Int
  events : BitVec 16
  revents : BitVec 16
  deriving DecidableEq, Repr

/-- The events asked for, as an `int`. -/
def Pollfd.asked (f : Pollfd) : BitVec 32 := f.events.signExtend 32

/-- The events stored, as an `int`. -/
def Pollfd.got (f : Pollfd) : BitVec 32 := f.revents.signExtend 32

/-- How a poll fails: with the platform's `errno` as `os`. -/
inductive PollErr
  | EINVAL | ENOMEM
  | os (e : Nat)
  deriving DecidableEq, Repr

/-- What a poll leaves: its error, `*out_n`, and the descriptors. -/
structure PollReturn where
  err : Option PollErr
  outN : Int
  fds : List Pollfd
  deriving DecidableEq, Repr

/-- The platform's copy of a descriptor, its `revents` 0: `none` if sppc does not accept the events. -/
def toOsPollfd (os : OsEvents) (f : Pollfd) : Option Pollfd :=
  (sppcToOsFlags f.asked (sppcPollTable os)).map fun events => ⟨f.fd, events.setWidth 16, 0⟩

/-- What is stored of what the platform reports. -/
def fromOsRevents (os : OsEvents) (revents : BitVec 16) : BitVec 16 :=
  (sppcFromOsFlags (revents.signExtend 32) (sppcPollTable os)).setWidth 16

/-- `_sppc_poll_translated`.  `malloc` says whether there is memory; `poll` is the platform's, which gives its
`errno`, or how many descriptors are ready and the `revents` of each. -/
def sppcPollTranslated (os : OsEvents) (malloc : Bool)
    (poll : List Pollfd → Int → Except Nat (Int × (Nat → BitVec 16))) (fds : List Pollfd)
    (timeout : Int) : PollReturn :=
  if 64 < fds.length ∧ ¬malloc then ⟨some .ENOMEM, -1, fds⟩
  else
    match fds.mapM (toOsPollfd os) with
    | none => ⟨some .EINVAL, -1, fds⟩
    | some osFds =>
      match poll osFds timeout with
      | .error e => ⟨some (.os e), -1, fds⟩
      | .ok (n, reports) => ⟨none, n, fds.mapIdx fun i f => { f with revents := fromOsRevents os (reports i) }⟩

/-! ### What a poll is to store -/

/-- What may be stored without having been asked for. -/
def pollAlways : BitVec 32 := SPPC_POLLERR ||| SPPC_POLLHUP ||| SPPC_POLLNVAL

/-- What is stored is only what was asked for, error, hang-up and invalid; and what was asked for and has been
reported, if the platform reported on the descriptor, is stored. -/
def Kept (os : OsEvents) (asked : BitVec 32) (report : Option (BitVec 16)) (got : BitVec 32) : Prop :=
  Contains (asked ||| pollAlways) got ∧
    ∀ r ∈ report, ∀ p ∈ sppcPollTable os, Contains asked p.sppc → Contains (r.signExtend 32) p.os →
    Contains got p.sppc

/-- The events whose bits have been reported, where no earlier event with these bits among its own has been. -/
def Named (os : OsEvents) (r : BitVec 32) (p : Pair) : Prop :=
  Contains r p.os ∧ ∀ q ∈ sppcPollTable os, q.sppc < p.sppc → Contains r q.os → ¬Contains q.os p.os

/-- Every event that the reported bits are named by was asked for, but for error, hang-up and invalid; and every event
that was asked for and has been reported is one of those. -/
def PlainNames (os : OsEvents) (asked : BitVec 32) (r : BitVec 16) : Prop :=
  (∀ p ∈ sppcPollTable os, Named os (r.signExtend 32) p → Contains (asked ||| pollAlways) p.sppc) ∧
    ∀ p ∈ sppcPollTable os, Contains asked p.sppc → Contains (r.signExtend 32) p.os → Named os (r.signExtend 32) p

/-- `Kept` at each descriptor. -/
def AllKept (os : OsEvents) (report : Nat → Option (BitVec 16)) (fds fds' : List Pollfd) : Prop :=
  ∀ (i : Nat) f g, fds[i]? = some f → fds'[i]? = some g → Kept os f.asked (report i) g.got

/-- `PlainNames` at each descriptor that the platform reported on. -/
def AllPlain (os : OsEvents) (report : Nat → Option (BitVec 16)) (fds : List Pollfd) : Prop :=
  ∀ (i : Nat) f, fds[i]? = some f → ∀ r ∈ report i, PlainNames os f.asked r

/-- A platform's events: none is 0, and any two share no bits, or those of the later one in the table are among those
of the earlier one. -/
structure OsEvents.Ok (os : OsEvents) : Prop where
  nonzero : ∀ p ∈ sppcPollTable os, p.os ≠ 0
  nested : (sppcPollTable os).Pairwise fun p q => p.os &&& q.os = 0 ∨ Contains p.os q.os

instance OsEvents.Ok.decidable (os : OsEvents) : Decidable os.Ok :=
  decidable_of_iff ((∀ p ∈ sppcPollTable os, p.os ≠ 0) ∧
      (sppcPollTable os).Pairwise fun p q => p.os &&& q.os = 0 ∨ Contains p.os q.os)
    ⟨fun h => ⟨h.1, h.2⟩, fun h => ⟨h.nonzero, h.nested⟩⟩

/-- Darwin's events. -/
def darwinEvents : OsEvents :=
  { POLLIN := 0x1, POLLPRI := 0x2, POLLOUT := 0x4, POLLERR := 0x8, POLLHUP := 0x10, POLLNVAL := 0x20,
    POLLRDNORM := 0x40, POLLRDBAND := 0x80, POLLWRNORM := 0x4, POLLWRBAND := 0x100 }

/-! ### What the table names -/

variable {os : OsEvents} {r asked got : BitVec 32} {p q : Pair}

/-- The names of the table, each a bit of its own, from the lowest to the highest. -/
private theorem sppcPollTable_names (os : OsEvents) : (sppcPollTable os).map Pair.sppc =
    (List.range 10).map fun n => BitVec.twoPow 32 n := by
  have hnames : [SPPC_POLLIN, SPPC_POLLPRI, SPPC_POLLOUT, SPPC_POLLERR, SPPC_POLLHUP, SPPC_POLLNVAL, SPPC_POLLRDNORM,
      SPPC_POLLRDBAND, SPPC_POLLWRNORM, SPPC_POLLWRBAND] = (List.range 10).map fun n => BitVec.twoPow 32 n := by
    decide +kernel
  rw [← hnames]
  rfl

theorem mem_names (hp : p ∈ sppcPollTable os) : ∃ n < 10, p.sppc = BitVec.twoPow 32 n := by
  have hmem : p.sppc ∈ (sppcPollTable os).map Pair.sppc := List.mem_map_of_mem hp
  rw [sppcPollTable_names, List.mem_map] at hmem
  obtain ⟨n, hn, heq⟩ := hmem
  exact ⟨n, List.mem_range.1 hn, heq.symm⟩

private theorem sppcPollTable_sorted (os : OsEvents) : (sppcPollTable os).Pairwise fun p q => p.sppc < q.sppc := by
  have hsorted : ((List.range 10).map fun n => BitVec.twoPow 32 n).Pairwise fun x y => x < y := by decide +kernel
  rw [← sppcPollTable_names os, List.pairwise_map] at hsorted
  exact hsorted

private theorem mem_table_inj (hp : p ∈ sppcPollTable os) (hq : q ∈ sppcPollTable os)
    (h : p.sppc = q.sppc) : p = q := by
  have hnodup : ((sppcPollTable os).map Pair.sppc).Nodup := by
    rw [sppcPollTable_names]
    decide +kernel
  exact List.inj_on_of_nodup_map hnodup hp hq h

theorem bits_twoPow {n : Nat} (hn : n < 32) : bits (BitVec.twoPow 32 n) = {n} := by
  ext m
  simp only [bits, BitVec.getLsbD_twoPow, Set.mem_ofPred_eq, Set.mem_singleton_iff, Bool.and_eq_true,
    decide_eq_true_eq]
  omega

private theorem OsEvents.Ok.family (h : os.Ok) : Nested (bits ∘ Pair.os) (sppcPollTable os) where
  nonempty p hp := bits_nonempty (h.nonzero p hp)
  nested := by
    apply h.nested.imp
    intro p q hpq
    exact hpq.imp disjoint_iff.1 contains_iff.1

/-- The entries that are taken from what is reported. -/
theorem OsEvents.Ok.mem_take (h : os.Ok) :
    p ∈ take (bits ∘ Pair.os) (sppcPollTable os) (bits r) ↔ p ∈ sppcPollTable os ∧ Named os r p := by
  rw [h.family.mem_take (fun _ _ => BitVec.lt_asymm) (sppcPollTable_sorted os)]
  simp only [Named, contains_iff, Function.comp_apply]

/-- What comes back of what is reported. -/
theorem OsEvents.Ok.bits_from (h : os.Ok) (r : BitVec 32) :
    bits (sppcFromOsFlags r (sppcPollTable os)) =
      union (bits ∘ Pair.sppc) (take (bits ∘ Pair.os) (sppcPollTable os) (bits r)) := by
  obtain ⟨hout, -⟩ := takeFlags_bits Pair.sppc h.nonzero r 0
  rw [bits_zero, Set.empty_union] at hout
  exact hout

/-- An event comes back exactly if the reported bits are named by it. -/
theorem OsEvents.Ok.contains_from (h : os.Ok) (hp : p ∈ sppcPollTable os) :
    Contains (sppcFromOsFlags r (sppcPollTable os)) p.sppc ↔ Named os r p := by
  obtain ⟨n, hn, hpn⟩ := mem_names hp
  rw [contains_iff, h.bits_from, hpn, bits_twoPow (by omega), Set.singleton_subset_iff, mem_union]
  constructor
  · rintro ⟨q, hq, hnq⟩
    obtain ⟨hqt, hnamed⟩ := h.mem_take.1 hq
    obtain ⟨m, hm, hqm⟩ := mem_names hqt
    rw [Function.comp_apply, hqm, bits_twoPow (by omega), Set.mem_singleton_iff] at hnq
    have heq : q = p := by
      apply mem_table_inj hqt hp
      rw [hqm, hpn, hnq]
    rw [← heq]
    exact hnamed
  · intro hnamed
    refine ⟨p, h.mem_take.2 ⟨hp, hnamed⟩, ?_⟩
    rw [Function.comp_apply, hpn, bits_twoPow (by omega)]
    rfl

/-- What comes back is in `asked` exactly if each event that the reported bits are named by is. -/
private theorem OsEvents.Ok.from_in (h : os.Ok) : Contains asked (sppcFromOsFlags r (sppcPollTable os)) ↔
    ∀ p ∈ sppcPollTable os, Named os r p → Contains asked p.sppc := by
  rw [contains_iff, h.bits_from]
  constructor
  · intro hsub p hp hnamed
    rw [contains_iff]
    exact (subset_union (s := bits ∘ Pair.sppc) (h.mem_take.2 ⟨hp, hnamed⟩)).trans hsub
  · intro hall n hn
    obtain ⟨p, hp, hnp⟩ := mem_union.1 hn
    obtain ⟨hpt, hnamed⟩ := h.mem_take.1 hp
    exact contains_iff.1 (hall p hpt hnamed) hnp

/-! ### Stored in 16 bits -/

/-- All the names. -/
def pollNames : BitVec 32 := 0x3FF

theorem Contains.trans {x y z : BitVec 32} (hxy : Contains x y) (hyz : Contains y z) : Contains x z :=
  contains_iff.2 ((contains_iff.1 hyz).trans (contains_iff.1 hxy))

private theorem names_of_mem (hp : p ∈ sppcPollTable os) : Contains pollNames p.sppc := by
  have hall : ∀ n < 10, Contains pollNames (BitVec.twoPow 32 n) := by decide +kernel
  obtain ⟨n, hn, hpn⟩ := mem_names hp
  rw [hpn]
  exact hall n hn

theorem OsEvents.Ok.names_from (h : os.Ok) (r : BitVec 32) :
    Contains pollNames (sppcFromOsFlags r (sppcPollTable os)) :=
  h.from_in.2 fun _ hp _ => names_of_mem hp

/-- The names fit. -/
theorem signExtend_setWidth {x : BitVec 32} (hx : Contains pollNames x) : (x.setWidth 16).signExtend 32 = x := by
  have hle : x.toNat ≤ 0x3FF := by
    have hand : (pollNames &&& x).toNat = x.toNat := congrArg BitVec.toNat hx
    have hnames : pollNames.toNat = 0x3FF := by decide +kernel
    rw [BitVec.toNat_and, hnames] at hand
    rw [← hand]
    exact Nat.and_le_left
  have hmsb : (x.setWidth 16).msb = false := by
    rw [BitVec.msb_eq_false_iff_two_mul_lt, BitVec.toNat_setWidth]
    omega
  rw [BitVec.signExtend_eq_setWidth_of_msb_false hmsb]
  apply BitVec.eq_of_toNat_eq
  rw [BitVec.toNat_setWidth, BitVec.toNat_setWidth]
  omega

/-- What is kept of the report on one descriptor. -/
theorem OsEvents.Ok.kept_iff (h : os.Ok) (r : BitVec 16) :
    Kept os asked (some r) (sppcFromOsFlags (r.signExtend 32) (sppcPollTable os)) ↔ PlainNames os asked r := by
  rw [Kept, PlainNames, h.from_in]
  simp only [Option.mem_def, Option.some_inj, forall_eq']
  refine and_congr_right fun _ => ?_
  constructor
  · intro hall p hp hasked hr
    exact (h.contains_from hp).1 (hall p hp hasked hr)
  · intro hall p hp hasked hr
    exact (h.contains_from hp).2 (hall p hp hasked hr)

/-- What `_sppc_poll_translated` stores. -/
theorem sppcPollTranslated_kept {malloc : Bool} {poll : List Pollfd → Int → Except Nat (Int × (Nat → BitVec 16))}
    {fds osFds : List Pollfd} {timeout n : Int} {reports : Nat → BitVec 16} (h : os.Ok)
    (hmalloc : 64 < fds.length → malloc) (haccepted : fds.mapM (toOsPollfd os) = some osFds)
    (hpoll : poll osFds timeout = .ok (n, reports)) :
    AllKept os (fun i => some (reports i)) fds (sppcPollTranslated os malloc poll fds timeout).fds ↔
      AllPlain os (fun i => some (reports i)) fds := by
  have hfds : (sppcPollTranslated os malloc poll fds timeout).fds =
      fds.mapIdx fun i f => { f with revents := fromOsRevents os (reports i) } := by
    rw [sppcPollTranslated, if_neg fun hlarge => hlarge.2 (hmalloc hlarge.1), haccepted]
    dsimp only
    rw [hpoll]
  have hone (i : Nat) (f : Pollfd) : Kept os f.asked (some (reports i))
      (Pollfd.got { f with revents := fromOsRevents os (reports i) }) ↔ PlainNames os f.asked (reports i) := by
    rw [Pollfd.got, fromOsRevents, signExtend_setWidth (h.names_from _)]
    exact h.kept_iff (reports i)
  rw [hfds]
  constructor
  · intro hkept i f hf r hr
    rw [← Option.some_inj.1 hr, ← hone i f]
    apply hkept i f _ hf
    rw [List.getElem?_mapIdx, hf]
    rfl
  · intro hplain i f g hf hg
    rw [List.getElem?_mapIdx, hf, Option.map_some, Option.some_inj] at hg
    rw [← hg, hone i f]
    exact hplain i f hf (reports i) rfl

end Sppc
