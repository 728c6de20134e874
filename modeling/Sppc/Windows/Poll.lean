import Sppc.Poll

/-!
# Poll on Windows (`platform/windows.h`)

`sppc_poll`: the sockets through `WSAPoll`, the other descriptors through `_sppc_win_ready`, in rounds.
-/

namespace Sppc.Windows

/-- Winsock's events. -/
def winEvents : OsEvents :=
  { POLLIN := 0x300, POLLPRI := 0x400, POLLOUT := 0x10, POLLERR := 0x1, POLLHUP := 0x2, POLLNVAL := 0x4,
    POLLRDNORM := 0x100, POLLRDBAND := 0x200, POLLWRNORM := 0x10, POLLWRBAND := 0x20 }

/-- What a description is (`_SPPC_FD_HANDLE` and so on). -/
inductive FdKind
  | handle | consoleIn | consoleOut | socket
  deriving DecidableEq, Repr

/-- `_sppc_ofd`, as far as a poll reads it. -/
structure PollOfd where
  kind : FdKind
  socket : Nat
  disk : Bool
  read : Bool
  write : Bool
  deriving DecidableEq, Repr

/-- What Windows says of a handle that is no socket: whether it holds console events, and what `PeekNamedPipe` sees,
`none` if it fails. -/
structure Seen where
  pending : Bool
  peek : Option Nat
  deriving DecidableEq, Repr

/-- `_sppc_win_ready`, with whether it sets `*waits`. -/
def winReady (ofd : PollOfd) (seen : Seen) (events : BitVec 32) : BitVec 32 × Bool :=
  let inp := events &&& (SPPC_POLLIN ||| SPPC_POLLRDNORM)
  let out := events &&& (SPPC_POLLOUT ||| SPPC_POLLWRNORM)
  if ofd.disk then (inp ||| out, false)
  else
    match ofd.kind with
    | .consoleIn => if seen.pending then (inp, false) else (0, inp ≠ 0)
    | .consoleOut => (out, false)
    | _ =>
      let reads : BitVec 32 × Bool :=
        if ofd.read then
          match seen.peek with
          | none => (SPPC_POLLHUP, false)
          | some avail => if 0 < avail then (inp, false) else (0, inp ≠ 0)
        else (0, false)
      (if ofd.write then reads.1 ||| out else reads.1, reads.2)

/-- A round of the loop as Windows plays it: what it says of each handle, the ticks gone since the start, and the
answer of `WSAPoll`, its error or the `revents` of each socket. -/
structure PollRound where
  seen : Nat → Seen
  gone : Nat
  wsaPoll : Except Nat (Nat → BitVec 16)

/-- The indices of the sockets (`which`). -/
def which (ofds : List (Option PollOfd)) : List Nat :=
  (List.range ofds.length).filter fun i => (ofds[i]?.join).any fun ofd => ofd.kind = .socket

/-- The first pass over the descriptors in a round. -/
def lookOver (ofds : List (Option PollOfd)) (seen : Nat → Seen) (fds : List Pollfd) : List Pollfd :=
  fds.mapIdx fun i f =>
    match ofds[i]?.join with
    | some ofd =>
      if ofd.kind ≠ .socket then { f with revents := (winReady ofd (seen i) f.asked).1.setWidth 16 } else f
    | none => f

/-- Whether some descriptor that is no socket may still become ready (`waits`). -/
def waiting (ofds : List (Option PollOfd)) (seen : Nat → Seen) (fds : List Pollfd) : Bool :=
  (fds.mapIdx fun i f =>
    match ofds[i]?.join with
    | some ofd => decide (ofd.kind ≠ .socket) && (winReady ofd (seen i) f.asked).2
    | none => false).any id

/-- How many descriptors have events. -/
def readyCount (fds : List Pollfd) : Nat := fds.countP fun f => f.revents ≠ 0

/-- What is stored of the `revents` of a socket. -/
def socketRevents (f : Pollfd) (revents : BitVec 16) : BitVec 16 :=
  let stored := fromOsRevents winEvents revents
  if revents.signExtend 32 &&& winEvents.POLLIN ≠ 0 then stored ||| (f.asked &&& SPPC_POLLIN).setWidth 16 else stored

/-- The loop over the sockets from number `k` on, with the count of those that are ready. -/
def storeSockets (reports : Nat → BitVec 16) : List Nat → Nat → List Pollfd → Nat → List Pollfd × Nat
  | [], _, fds, ready => (fds, ready)
  | i :: is, k, fds, ready =>
    match fds[i]? with
    | none => (fds, ready)
    | some f =>
      let revents := socketRevents f (reports k)
      storeSockets reports is (k + 1) (fds.set i { f with revents }) (if revents ≠ 0 then ready + 1 else ready)

/-- What comes of a round: another one, or the call's return. -/
inductive RoundEnd
  | again (fds : List Pollfd)
  | done (r : PollReturn)

/-- The ticks left (`left`). -/
def ticksLeft (timeout : Int) (gone : Nat) : Int :=
  if 0 ≤ timeout then (if timeout ≤ gone then 0 else timeout - gone) else 2147483647

/-- How long a round waits (`slice`): -1 is forever. -/
def pollSlice (timeout left : Int) (ready : Nat) (waits : Bool) : Int :=
  if 0 < ready then 0 else if waits then (if left < 10 then left else 10) else if timeout < 0 then -1 else left

/-- A round of the loop. -/
def pollRound (ofds : List (Option PollOfd)) (timeout : Int) (fds : List Pollfd) (round : PollRound) : RoundEnd :=
  let fds := lookOver ofds round.seen fds
  let waits := waiting ofds round.seen fds
  let ready := readyCount fds
  let left := ticksLeft timeout round.gone
  let slice := pollSlice timeout left ready waits
  let sockets := which ofds
  if sockets ≠ [] then
    match round.wsaPoll with
    | .error e => .done ⟨some (.os e), -1, fds⟩
    | .ok reports =>
      let (fds, ready) := storeSockets reports sockets 0 fds ready
      if 0 < ready ∨ left = 0 ∨ ¬waits then .done ⟨none, ready, fds⟩ else .again fds
  else if 0 < ready ∨ left = 0 ∨ (¬waits ∧ slice ≠ 0) then .done ⟨none, ready, fds⟩
  else .again fds

/-- The descriptors at the start of the loop: one that is not open is invalid. -/
def pollStart (ofds : List (Option PollOfd)) (fds : List Pollfd) : List Pollfd :=
  fds.mapIdx fun i f =>
    { f with revents := if f.fd < 0 ∨ (ofds[i]?.join).isSome then 0 else SPPC_POLLNVAL.setWidth 16 }

/-- The rounds of the loop, none of which is the last. -/
def pollRounds (ofds : List (Option PollOfd)) (timeout : Int) : List Pollfd → List PollRound → Option (List Pollfd)
  | fds, [] => some fds
  | fds, round :: rounds =>
    match pollRound ofds timeout fds round with
    | .again fds => pollRounds ofds timeout fds rounds
    | .done _ => none

/-- `sppc_poll`, whose loop goes through the rounds `rounds` and ends with `last`: `none` if they are not the rounds
of the call.  `fdGet` is `_sppc_fd_get`, and `calloc` says whether there is memory. -/
def sppcPoll (fdGet : Int → Option PollOfd) (calloc : Bool) (fds : List Pollfd) (timeout : Int)
    (rounds : List PollRound) (last : PollRound) : Option PollReturn :=
  if 65536 < fds.length then some ⟨some .EINVAL, -1, fds⟩
  else if ∃ f ∈ fds, sppcToOsFlags f.asked (sppcPollTable winEvents) = none then some ⟨some .EINVAL, -1, fds⟩
  else if fds ≠ [] ∧ ¬calloc then some ⟨some .ENOMEM, -1, fds⟩
  else
    let ofds := fds.map fun f => if f.fd < 0 then none else fdGet f.fd
    (pollRounds ofds timeout (pollStart ofds fds) rounds).bind fun fds =>
      match pollRound ofds timeout fds last with
      | .again _ => none
      | .done r => some r

/-- What `WSAPoll` reported on a descriptor in a round. -/
def PollRound.report (round : PollRound) (ofds : List (Option PollOfd)) (i : Nat) : Option (BitVec 16) :=
  match round.wsaPoll with
  | .error _ => none
  | .ok reports => if i ∈ which ofds then some (reports ((which ofds).idxOf i)) else none

/-! ### Descriptors that are no sockets -/

variable {ofds : List (Option PollOfd)} {fds fds' : List Pollfd} {timeout : Int} {round : PollRound} {r : PollReturn}
  {asked x y : BitVec 32}

/-- What a poll may store where `asked` is asked for. -/
structure Within (asked x : BitVec 32) : Prop where
  asked : Contains (asked ||| pollAlways) x
  named : Contains pollNames x

private theorem Within.or (hx : Within asked x) (hy : Within asked y) : Within asked (x ||| y) := by
  obtain ⟨hx, hx'⟩ := hx
  obtain ⟨hy, hy'⟩ := hy
  rw [contains_iff] at hx hx' hy hy'
  constructor
  · rw [contains_iff, bits_or]
    exact Set.union_subset hx hy
  · rw [contains_iff, bits_or]
    exact Set.union_subset hx' hy'

private theorem Within.and (asked : BitVec 32) (h : Contains pollNames y) : Within asked (asked &&& y) := by
  rw [contains_iff] at h
  constructor
  · rw [contains_iff, bits_or, bits_and]
    exact Set.inter_subset_left.trans Set.subset_union_left
  · rw [contains_iff, bits_and]
    exact Set.inter_subset_right.trans h

private theorem Within.always (asked : BitVec 32) (h : Contains pollAlways x) : Within asked x := by
  constructor
  · rw [contains_iff, bits_or]
    exact (contains_iff.1 h).trans Set.subset_union_right
  · have hnames : Contains pollNames pollAlways := by decide +kernel
    exact hnames.trans h

private theorem winReady_within (ofd : PollOfd) (seen : Seen) (events : BitVec 32) :
    Within events (winReady ofd seen events).1 := by
  have hin : Within events (events &&& (SPPC_POLLIN ||| SPPC_POLLRDNORM)) := Within.and events (by decide +kernel)
  have hout : Within events (events &&& (SPPC_POLLOUT ||| SPPC_POLLWRNORM)) := Within.and events (by decide +kernel)
  have hzero : Within events 0 := Within.always events (by decide +kernel)
  have hhup : Within events SPPC_POLLHUP := Within.always events (by decide +kernel)
  rw [winReady]
  split
  · exact hin.or hout
  · split
    · split
      · exact hin
      · exact hzero
    · exact hout
    · dsimp only
      have hreads : Within events (if ofd.read then
          match seen.peek with
          | none => (SPPC_POLLHUP, false)
          | some avail => if 0 < avail then (events &&& (SPPC_POLLIN ||| SPPC_POLLRDNORM), false)
            else (0, decide (events &&& (SPPC_POLLIN ||| SPPC_POLLRDNORM) ≠ 0))
        else (0, false) : BitVec 32 × Bool).1 := by
        split
        · split
          · exact hhup
          · split
            · exact hin
            · exact hzero
        · exact hzero
      split
      · exact hreads.or hout
      · exact hreads

/-- The first pass stores what may be stored, and leaves the others as they are. -/
theorem lookOver_within (ofds : List (Option PollOfd)) (seen : Nat → Seen)
    (hfds : ∀ f ∈ fds, Contains pollAlways f.got) {i : Nat} {f : Pollfd} (hf : fds[i]? = some f) :
    ∃ f', (lookOver ofds seen fds)[i]? = some f' ∧ f'.events = f.events ∧ Within f.asked f'.got := by
  rw [lookOver, List.getElem?_mapIdx, hf]
  refine ⟨_, rfl, ?_, ?_⟩
  · split
    · split <;> rfl
    · rfl
  · have hold : Within f.asked f.got := Within.always _ (hfds f (List.mem_of_getElem? hf))
    split
    · rename_i ofd _
      split
      · have hready := winReady_within ofd (seen i) f.asked
        rw [Pollfd.got, signExtend_setWidth hready.named]
        exact hready
      · exact hold
    · exact hold

/-! ### Sockets -/

theorem winEvents_ok : winEvents.Ok := by decide +kernel

/-- What is stored of what a socket reports. -/
theorem socketRevents_got (f : Pollfd) (revents : BitVec 16) :
    ({ f with revents := socketRevents f revents } : Pollfd).got =
      if revents.signExtend 32 &&& winEvents.POLLIN ≠ 0 then
        sppcFromOsFlags (revents.signExtend 32) (sppcPollTable winEvents) ||| (f.asked &&& SPPC_POLLIN)
      else sppcFromOsFlags (revents.signExtend 32) (sppcPollTable winEvents) := by
  have hfrom := winEvents_ok.names_from (revents.signExtend 32)
  have hand : Contains pollNames (f.asked &&& SPPC_POLLIN) := (Within.and f.asked (by decide +kernel)).named
  dsimp only [Pollfd.got, socketRevents, fromOsRevents]
  split
  · rw [← BitVec.setWidth_or]
    apply signExtend_setWidth
    rw [contains_iff, bits_or]
    exact Set.union_subset (contains_iff.1 hfrom) (contains_iff.1 hand)
  · exact signExtend_setWidth hfrom

/-- `POLLIN`, the first event of the table, is among the names whenever it has been reported. -/
private theorem named_pollin {report : BitVec 32} {p : Pair} (hp : p.sppc = SPPC_POLLIN)
    (hreport : Contains report p.os) : Named winEvents report p := by
  refine ⟨hreport, fun q hq hlt => ?_⟩
  obtain ⟨n, hn, hqn⟩ := mem_names hq
  have hnot : ∀ n < 10, ¬BitVec.twoPow 32 n < SPPC_POLLIN := by decide +kernel
  rw [hp, hqn] at hlt
  exact absurd hlt (hnot n hn)

/-- What is kept of the report on a socket. -/
private theorem socket_kept_iff (f : Pollfd) (revents : BitVec 16) :
    Kept winEvents f.asked (some revents) ({ f with revents := socketRevents f revents } : Pollfd).got ↔
      PlainNames winEvents f.asked revents := by
  rw [← winEvents_ok.kept_iff, socketRevents_got]
  split
  · have hin : Contains (f.asked ||| pollAlways) (f.asked &&& SPPC_POLLIN) :=
      (Within.and f.asked (by decide +kernel)).asked
    rw [contains_iff] at hin
    refine and_congr ?_ ?_
    · rw [contains_iff, contains_iff, bits_or]
      exact ⟨fun h => Set.subset_union_left.trans h, fun h => Set.union_subset h hin⟩
    · simp only [Option.mem_def, Option.some_inj, forall_eq']
      refine forall₂_congr fun p hp => forall₂_congr fun _ hreport => ?_
      by_cases hpin : p.sppc = SPPC_POLLIN
      · have hfrom := (winEvents_ok.contains_from hp).2 (named_pollin hpin hreport)
        refine ⟨fun _ => hfrom, fun _ => ?_⟩
        rw [contains_iff, bits_or]
        exact (contains_iff.1 hfrom).trans Set.subset_union_left
      · obtain ⟨n, hn, hpn⟩ := mem_names hp
        have hn0 : n ∉ bits SPPC_POLLIN := by
          have h0 : SPPC_POLLIN = BitVec.twoPow 32 0 := by decide +kernel
          rw [h0, bits_twoPow (by omega), Set.mem_singleton_iff]
          rintro rfl
          exact hpin (hpn.trans h0.symm)
        rw [contains_iff, contains_iff, hpn, bits_twoPow (by omega), Set.singleton_subset_iff,
          Set.singleton_subset_iff, bits_or, bits_and]
        constructor
        · rintro (hn | hn)
          · exact hn
          · exact absurd hn.2 hn0
        · intro hn
          exact Or.inl hn
  · rfl

theorem storeSockets_getElem? {reports : Nat → BitVec 16} {is : List Nat} (hnodup : is.Nodup) (k : Nat)
    (fds : List Pollfd) (ready : Nat) (hlt : ∀ i ∈ is, i < fds.length) (i : Nat) :
    (storeSockets reports is k fds ready).1[i]? =
      if i ∈ is then fds[i]?.map fun f => { f with revents := socketRevents f (reports (k + is.idxOf i)) }
      else fds[i]? := by
  induction is generalizing k fds ready with
  | nil => simp [storeSockets]
  | cons j is ih =>
    obtain ⟨hj, hnodup⟩ := List.nodup_cons.1 hnodup
    have hjlt : j < fds.length := hlt j List.mem_cons_self
    rw [storeSockets, List.getElem?_eq_getElem hjlt]
    dsimp only
    rw [ih hnodup]
    · by_cases hij : i = j
      · rw [hij, if_neg hj, if_pos List.mem_cons_self, List.idxOf_cons_self, List.getElem?_set_self hjlt,
          List.getElem?_eq_getElem hjlt]
        rfl
      · rw [List.getElem?_set_ne fun h => hij h.symm, List.idxOf_cons_ne _ fun h => hij h.symm]
        have hk : k + 1 + is.idxOf i = k + (is.idxOf i + 1) := by omega
        simp only [List.mem_cons, hij, false_or, hk, Nat.succ_eq_add_one]
    · intro i hi
      rw [List.length_set]
      exact hlt i (List.mem_cons_of_mem j hi)

/-- If no descriptor counts as ready at the end, none has events. -/
theorem storeSockets_idle {reports : Nat → BitVec 16} {is : List Nat} {k : Nat} {fds : List Pollfd} {ready : Nat}
    (hidle : (storeSockets reports is k fds ready).2 = 0) :
    ready = 0 ∧ ((∀ f ∈ fds, f.revents = 0) → ∀ f ∈ (storeSockets reports is k fds ready).1, f.revents = 0) := by
  induction is generalizing k fds ready with
  | nil => exact ⟨hidle, fun h => h⟩
  | cons j is ih =>
    rw [storeSockets] at hidle ⊢
    cases hf : fds[j]? with
    | none =>
      rw [hf] at hidle
      exact ⟨hidle, fun h => h⟩
    | some f =>
      rw [hf] at hidle
      obtain ⟨hready, hrest⟩ := ih hidle
      dsimp only at hready hrest ⊢
      by_cases hzero : socketRevents f (reports k) = 0
      · rw [if_neg (not_not.2 hzero)] at hready
        refine ⟨hready, fun hfds => hrest fun g hg => ?_⟩
        rcases List.mem_or_eq_of_mem_set hg with hg | rfl
        · exact hfds g hg
        · exact hzero
      · rw [if_pos hzero] at hready
        omega

/-! ### Rounds -/

theorem mem_which {i : Nat} : i ∈ which ofds ↔ ∃ ofd, ofds[i]?.join = some ofd ∧ ofd.kind = .socket := by
  rw [which, List.mem_filter, List.mem_range]
  constructor
  · rintro ⟨-, h⟩
    obtain ⟨ofd, hofd, hkind⟩ := (Option.any_eq_true _ _).1 h
    exact ⟨ofd, hofd, of_decide_eq_true hkind⟩
  · rintro ⟨ofd, hofd, hkind⟩
    refine ⟨?_, (Option.any_eq_true _ _).2 ⟨ofd, hofd, decide_eq_true hkind⟩⟩
    by_contra hge
    rw [List.getElem?_eq_none (by omega)] at hofd
    cases hofd

theorem which_nodup (ofds : List (Option PollOfd)) : (which ofds).Nodup := List.nodup_range.filter _

/-- What a round leaves of the descriptors. -/
def afterRound (ofds : List (Option PollOfd)) (round : PollRound) (fds : List Pollfd) : List Pollfd :=
  match round.wsaPoll with
  | .error _ => lookOver ofds round.seen fds
  | .ok reports => (storeSockets reports (which ofds) 0 (lookOver ofds round.seen fds) 0).1

private theorem storeSockets_ready (reports : Nat → BitVec 16) (is : List Nat) (k : Nat) (fds : List Pollfd)
    (a b : Nat) : (storeSockets reports is k fds a).1 = (storeSockets reports is k fds b).1 := by
  induction is generalizing k fds a b with
  | nil => rfl
  | cons i is ih =>
    rw [storeSockets, storeSockets]
    cases fds[i]? with
    | none => rfl
    | some f => exact ih _ _ _ _

private theorem afterRound_of_no_sockets (h : which ofds = []) (round : PollRound) (fds : List Pollfd) :
    afterRound ofds round fds = lookOver ofds round.seen fds := by
  rw [afterRound, h]
  cases round.wsaPoll with
  | error e => rfl
  | ok reports => rfl

theorem revents_of_readyCount (h : readyCount fds = 0) : ∀ f ∈ fds, f.revents = 0 := by
  intro f hf
  rw [readyCount, List.countP_eq_zero] at h
  simpa using h f hf

/-- What a round does: it ends the call with the descriptors that it leaves; or another one follows, and none of them
has events. -/
theorem pollRound_cases (ofds : List (Option PollOfd)) (timeout : Int) (fds : List Pollfd) (round : PollRound) :
    (∃ r, pollRound ofds timeout fds round = .done r ∧ r.fds = afterRound ofds round fds) ∨
    pollRound ofds timeout fds round = .again (afterRound ofds round fds) ∧
      ∀ f ∈ afterRound ofds round fds, f.revents = 0 := by
  rw [pollRound]
  dsimp only
  by_cases hsockets : which ofds = []
  · rw [if_neg (not_not.2 hsockets), afterRound_of_no_sockets hsockets]
    split
    · exact Or.inl ⟨_, rfl, rfl⟩
    · rename_i hgo
      refine Or.inr ⟨rfl, revents_of_readyCount ?_⟩
      omega
  · rw [if_pos hsockets, afterRound]
    cases round.wsaPoll with
    | error e => exact Or.inl ⟨_, rfl, rfl⟩
    | ok reports =>
      dsimp only
      rw [storeSockets_ready reports _ 0 _ 0 (readyCount (lookOver ofds round.seen fds))]
      split
      · exact Or.inl ⟨_, rfl, rfl⟩
      · rename_i hgo
        have hcount : (storeSockets reports (which ofds) 0 (lookOver ofds round.seen fds)
            (readyCount (lookOver ofds round.seen fds))).2 = 0 := by omega
        obtain ⟨hready, hrest⟩ := storeSockets_idle hcount
        exact Or.inr ⟨rfl, hrest (revents_of_readyCount hready)⟩

/-- What a round leaves of a descriptor: of a socket on which Windows reported, what is stored of the report; of any
other, something that may be stored. -/
private theorem afterRound_getElem? (round : PollRound) (hlen : ofds.length = fds.length)
    (hfds : ∀ f ∈ fds, Contains pollAlways f.got) {i : Nat} {f : Pollfd} (hf : fds[i]? = some f) :
    ∃ g, (afterRound ofds round fds)[i]? = some g ∧ g.events = f.events ∧
      match round.report ofds i with
      | none => Within f.asked g.got
      | some r => (Kept winEvents f.asked (some r) g.got ↔ PlainNames winEvents f.asked r) := by
  obtain ⟨f', hf', hevents, hwithin⟩ := lookOver_within ofds round.seen hfds hf
  rw [afterRound, PollRound.report]
  cases round.wsaPoll with
  | error e => exact ⟨f', hf', hevents, hwithin⟩
  | ok reports =>
    have hlt : ∀ i ∈ which ofds, i < (lookOver ofds round.seen fds).length := by
      intro i hi
      rw [which, List.mem_filter, List.mem_range, hlen] at hi
      rw [lookOver, List.length_mapIdx]
      exact hi.1
    dsimp only
    rw [storeSockets_getElem? (which_nodup ofds) 0 _ 0 hlt, hf', Nat.zero_add]
    by_cases hi : i ∈ which ofds
    · rw [if_pos hi, if_pos hi]
      refine ⟨_, rfl, hevents, ?_⟩
      have hasked : f'.asked = f.asked := congrArg (BitVec.signExtend 32) hevents
      rw [← hasked]
      exact socket_kept_iff f' _
    · rw [if_neg hi, if_neg hi]
      exact ⟨f', rfl, hevents, hwithin⟩

/-! ### The call -/

/-- A state of the loop: the descriptors of the call, with events that may be stored anywhere. -/
structure Carried (fds s : List Pollfd) : Prop where
  length : s.length = fds.length
  events : ∀ (i : Nat) f, fds[i]? = some f → ∃ g, s[i]? = some g ∧ g.events = f.events
  quiet : ∀ g ∈ s, Contains pollAlways g.got

theorem carried_start (ofds : List (Option PollOfd)) (fds : List Pollfd) : Carried fds (pollStart ofds fds) where
  length := by rw [pollStart, List.length_mapIdx]
  events i f hf := by
    rw [pollStart, List.getElem?_mapIdx, hf]
    exact ⟨_, rfl, rfl⟩
  quiet g hg := by
    rw [pollStart, List.mem_mapIdx] at hg
    obtain ⟨i, hi, rfl⟩ := hg
    have hnval : Contains pollAlways ((SPPC_POLLNVAL.setWidth 16).signExtend 32) := by decide +kernel
    have hzero : Contains pollAlways ((0 : BitVec 16).signExtend 32) := by decide +kernel
    rw [Pollfd.got]
    dsimp only
    split
    · exact hzero
    · exact hnval

private theorem storeSockets_length (reports : Nat → BitVec 16) (is : List Nat) (k : Nat) (fds : List Pollfd)
    (ready : Nat) : (storeSockets reports is k fds ready).1.length = fds.length := by
  induction is generalizing k fds ready with
  | nil => rfl
  | cons i is ih =>
    rw [storeSockets]
    cases fds[i]? with
    | none => rfl
    | some f => rw [ih, List.length_set]

theorem afterRound_length (ofds : List (Option PollOfd)) (round : PollRound) (fds : List Pollfd) :
    (afterRound ofds round fds).length = fds.length := by
  rw [afterRound]
  cases round.wsaPoll with
  | error e => rw [lookOver, List.length_mapIdx]
  | ok reports => rw [storeSockets_length, lookOver, List.length_mapIdx]

/-- A round that another one follows. -/
theorem Carried.again {s s' : List Pollfd} (hc : Carried fds s) (hlen : ofds.length = fds.length)
    (h : pollRound ofds timeout s round = .again s') : Carried fds s' := by
  rcases pollRound_cases ofds timeout s round with ⟨r, hr, -⟩ | ⟨hr, hidle⟩
  · rw [hr] at h
    cases h
  · rw [hr, RoundEnd.again.injEq] at h
    rw [← h]
    refine ⟨(afterRound_length ofds round s).trans hc.length, fun i f hf => ?_, fun g hg => ?_⟩
    · obtain ⟨g, hg, hgf⟩ := hc.events i f hf
      obtain ⟨g', hg', hevents, -⟩ := afterRound_getElem? round (hlen.trans hc.length.symm) hc.quiet hg
      exact ⟨g', hg', hevents.trans hgf⟩
    · have hzero : Contains pollAlways ((0 : BitVec 16).signExtend 32) := by decide +kernel
      rw [Pollfd.got, hidle g hg]
      exact hzero

/-- The rounds of a call. -/
theorem Carried.rounds {s s' : List Pollfd} {rounds : List PollRound} (hc : Carried fds s)
    (hlen : ofds.length = fds.length) (h : pollRounds ofds timeout s rounds = some s') : Carried fds s' := by
  induction rounds generalizing s with
  | nil =>
    rw [pollRounds, Option.some_inj] at h
    rw [← h]
    exact hc
  | cons round rounds ih =>
    rw [pollRounds] at h
    cases hr : pollRound ofds timeout s round with
    | again next =>
      rw [hr] at h
      exact ih (hc.again hlen hr) h
    | done r =>
      rw [hr] at h
      cases h

/-- The last round of a call. -/
private theorem Carried.kept_iff {s : List Pollfd} (hc : Carried fds s) (hlen : ofds.length = fds.length) :
    AllKept winEvents (round.report ofds) fds (afterRound ofds round s) ↔
      AllPlain winEvents (round.report ofds) fds := by
  have hone (i : Nat) (f : Pollfd) (hf : fds[i]? = some f) : ∃ g, (afterRound ofds round s)[i]? = some g ∧
      match round.report ofds i with
      | none => Within f.asked g.got
      | some r => (Kept winEvents f.asked (some r) g.got ↔ PlainNames winEvents f.asked r) := by
    obtain ⟨f', hf', hevents⟩ := hc.events i f hf
    obtain ⟨g, hg, -, hgot⟩ := afterRound_getElem? round (hlen.trans hc.length.symm) hc.quiet hf'
    have hasked : f'.asked = f.asked := congrArg (BitVec.signExtend 32) hevents
    rw [hasked] at hgot
    exact ⟨g, hg, hgot⟩
  constructor
  · intro hkept i f hf r hr
    obtain ⟨g, hg, hgot⟩ := hone i f hf
    have hkept := hkept i f g hf hg
    rw [Option.mem_def.1 hr] at hgot hkept
    exact hgot.1 hkept
  · intro hplain i f g hf hg
    obtain ⟨g', hg', hgot⟩ := hone i f hf
    rw [hg, Option.some_inj] at hg'
    rw [← hg'] at hgot
    cases hr : round.report ofds i with
    | none =>
      rw [hr] at hgot
      exact ⟨hgot.asked, nofun⟩
    | some r =>
      rw [hr] at hgot
      exact hgot.2 (hplain i f hf r hr)

/-- The descriptions that a call works with. -/
def pollOfds (fdGet : Int → Option PollOfd) (fds : List Pollfd) : List (Option PollOfd) :=
  fds.map fun f => if f.fd < 0 then none else fdGet f.fd

/-- What `sppc_poll` stores. -/
private theorem sppcPoll_kept {fdGet : Int → Option PollOfd} {calloc : Bool} {rounds : List PollRound}
    {last : PollRound} (hcount : fds.length ≤ 65536)
    (haccepted : ∀ f ∈ fds, sppcToOsFlags f.asked (sppcPollTable winEvents) ≠ none) (hcalloc : fds ≠ [] → calloc)
    (h : sppcPoll fdGet calloc fds timeout rounds last = some r) :
    AllKept winEvents (last.report (pollOfds fdGet fds)) fds r.fds ↔
      AllPlain winEvents (last.report (pollOfds fdGet fds)) fds := by
  rw [sppcPoll, if_neg (by omega), if_neg (by simpa using haccepted), if_neg fun hn => hn.2 (hcalloc hn.1)] at h
  obtain ⟨s, hs, h⟩ := Option.bind_eq_some_iff.1 h
  have hlen : (pollOfds fdGet fds).length = fds.length := by rw [pollOfds, List.length_map]
  have hc : Carried fds s := (carried_start _ fds).rounds hlen hs
  rcases pollRound_cases (pollOfds fdGet fds) timeout s last with ⟨r', hr', hfds⟩ | ⟨hr', -⟩
  · rw [← pollOfds, hr', Option.some_inj] at h
    rw [← h, hfds]
    exact hc.kept_iff hlen
  · rw [← pollOfds, hr'] at h
    cases h

/-- What the platform may report: the bits of what was asked for, error, hang-up and invalid. -/
def MayReport (os : OsEvents) (asked : BitVec 32) (r : BitVec 16) : Prop :=
  ∃ events, sppcToOsFlags asked (sppcPollTable os) = some events ∧
    Contains (events ||| os.POLLERR ||| os.POLLHUP ||| os.POLLNVAL) (r.signExtend 32)

/-- A poll stores what was asked for and reported, and no more, exactly if the names that the table finds for the
reported bits are ones that were asked for, and these are among them. -/
theorem poll_kept_iff (fds : List Pollfd) (timeout : Int) :
    (∀ os (malloc : Bool) poll osFds n reports, os.Ok → (64 < fds.length → malloc) →
      fds.mapM (toOsPollfd os) = some osFds → poll osFds timeout = .ok (n, reports) →
      (AllKept os (fun i => some (reports i)) fds (sppcPollTranslated os malloc poll fds timeout).fds ↔
        AllPlain os (fun i => some (reports i)) fds)) ∧
    ∀ fdGet (calloc : Bool) rounds last r, fds.length ≤ 65536 →
      (∀ f ∈ fds, sppcToOsFlags f.asked (sppcPollTable winEvents) ≠ none) → (fds ≠ [] → calloc) →
      sppcPoll fdGet calloc fds timeout rounds last = some r →
      (AllKept winEvents (last.report (pollOfds fdGet fds)) fds r.fds ↔
        AllPlain winEvents (last.report (pollOfds fdGet fds)) fds) :=
  ⟨fun _ _ _ _ _ _ h hmalloc haccepted hpoll => sppcPollTranslated_kept h hmalloc haccepted hpoll,
    fun _ _ _ _ _ hcount haccepted hcalloc h => sppcPoll_kept hcount haccepted hcalloc h⟩

/-- A socket. -/
def aSocket : PollOfd := ⟨.socket, 0, false, true, true⟩

/-- A round in which Windows reports `r` on every socket. -/
def reporting (r : BitVec 16) : PollRound := ⟨fun _ => ⟨false, none⟩, 0, .ok fun _ => r⟩

theorem poll_kept_iff_readable :
    (AllKept darwinEvents (fun _ => some 1) [⟨3, 1, 0⟩]
        (sppcPollTranslated darwinEvents true (fun _ _ => .ok (1, fun _ => 1)) [⟨3, 1, 0⟩] 0).fds ↔
      AllPlain darwinEvents (fun _ => some 1) [⟨3, 1, 0⟩]) ∧
    (AllKept winEvents ((reporting 0x100).report [some aSocket]) [⟨3, 0x40, 0⟩] [⟨3, 0x40, 0x40⟩] ↔
      AllPlain winEvents ((reporting 0x100).report [some aSocket]) [⟨3, 0x40, 0⟩]) :=
  ⟨(poll_kept_iff [⟨3, 1, 0⟩] 0).1 darwinEvents true _ [⟨3, 1, 0⟩] 1 (fun _ => 1) (by decide +kernel) (fun _ => rfl)
      (by decide +kernel) rfl,
    (poll_kept_iff [⟨3, 0x40, 0⟩] 0).2 (fun _ => some aSocket) true [] (reporting 0x100) ⟨none, 1, [⟨3, 0x40, 0x40⟩]⟩
      (by decide) (by decide +kernel) (fun _ => rfl) (by decide +kernel)⟩

/-- Where `POLLIN` was asked for and Winsock reports the half of it that is `POLLRDNORM`, this is stored with it; and
where `POLLWRNORM` was asked for on a platform to which it is `POLLOUT`, the latter is stored in its place. -/
theorem poll_unasked : (MayReport winEvents 1 0x100 ∧
      sppcPoll (fun _ => some aSocket) true [⟨3, 1, 0⟩] 0 [] (reporting 0x100) = some ⟨none, 1, [⟨3, 1, 0x41⟩]⟩ ∧
      ¬Kept winEvents 1 (some 0x100) 0x41) ∧
    MayReport darwinEvents 0x100 4 ∧
      sppcPollTranslated darwinEvents true (fun _ _ => .ok (1, fun _ => 4)) [⟨3, 0x100, 0⟩] 0 =
        ⟨none, 1, [⟨3, 0x100, 4⟩]⟩ ∧
      ¬Kept darwinEvents 0x100 (some 4) 4 := by
  refine ⟨⟨⟨0x300, ?_⟩, ?_, fun h => ?_⟩, ⟨4, ?_⟩, ?_, fun h => ?_⟩
  · decide +kernel
  · decide +kernel
  · have hnot : ¬Contains (1 ||| pollAlways) 0x41 := by decide +kernel
    exact hnot h.1
  · decide +kernel
  · decide +kernel
  · have hnot : ¬Contains (0x100 ||| pollAlways) 4 := by decide +kernel
    exact hnot h.1

end Sppc.Windows
