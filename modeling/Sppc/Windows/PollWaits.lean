import Sppc.Windows.Poll
import Mathlib.Data.List.Count
import Mathlib.Data.List.ReduceOption

/-!
# What a Windows poll counts, waits for and takes (`platform/windows.h`)

`sppc_poll` with the descriptions that it takes and the clock that it reads.
-/

namespace Sppc.Windows

/-- A reference to a description taken (`_sppc_fd_get`), or let go of (`_sppc_ofd_release`). -/
inductive PollEvent
  | take (d : Nat)
  | release (d : Nat)
  deriving DecidableEq, Repr

/-- How the calls of a poll go: which description `_sppc_fd_get` finds for each entry, what a description is, whether
there is memory for the three arrays, the rounds of the loop, and the ticks gone at the end. -/
structure PollWorld where
  get : Nat → Option Nat
  desc : Nat → PollOfd
  calloc : Bool
  rounds : List PollRound
  last : PollRound
  fin : Nat

/-- What a poll returns, and what it has taken and let go of. -/
structure PollTrace where
  ret : PollReturn
  log : List PollEvent
  deriving DecidableEq, Repr

/-- The loop that takes the descriptions, from the entry `i` on: `ofds`, and what it takes.  A negative descriptor
takes none. -/
def pollTake (get : Nat → Option Nat) : Nat → List Pollfd → List (Option Nat) × List PollEvent
  | _, [] => ([], [])
  | i, f :: fds =>
    let ofd := if f.fd < 0 then none else get i
    let (ofds, log) := pollTake get (i + 1) fds
    (ofd :: ofds, ofd.toList.map .take ++ log)

/-- The loop that lets go of them, once the rounds are over. -/
def pollRelease : List (Option Nat) → List PollEvent
  | [] => []
  | ofd :: ofds => ofd.toList.map .release ++ pollRelease ofds

/-- The descriptions that the entries take. -/
def PollWorld.taken (w : PollWorld) (fds : List Pollfd) : List (Option Nat) := (pollTake w.get 0 fds).1

/-- What they are. -/
def PollWorld.ofds (w : PollWorld) (fds : List Pollfd) : List (Option PollOfd) := (w.taken fds).map (·.map w.desc)

/-- `sppc_poll`, with what it takes and lets go of: `none` if the rounds are not those of the call. -/
def sppcPollTraced (w : PollWorld) (fds : List Pollfd) (timeout : Int) : Option PollTrace :=
  if 65536 < fds.length then some ⟨⟨some .EINVAL, -1, fds⟩, []⟩
  else if ∃ f ∈ fds, sppcToOsFlags f.asked (sppcPollTable winEvents) = none then some ⟨⟨some .EINVAL, -1, fds⟩, []⟩
  else if fds ≠ [] ∧ ¬w.calloc then some ⟨⟨some .ENOMEM, -1, fds⟩, []⟩
  else
    (pollRounds (w.ofds fds) timeout (pollStart (w.ofds fds) fds) w.rounds).bind fun s =>
      match pollRound (w.ofds fds) timeout s w.last with
      | .again _ => none
      | .done r => some ⟨r, (pollTake w.get 0 fds).2 ++ pollRelease (w.taken fds)⟩

/-! ### Time -/

/-- How long a round waits. -/
def roundSlice (ofds : List (Option PollOfd)) (timeout : Int) (fds : List Pollfd) (round : PollRound) : Int :=
  pollSlice timeout (ticksLeft timeout round.gone) (readyCount (lookOver ofds round.seen fds))
    (waiting ofds round.seen (lookOver ofds round.seen fds))

/-- The wait of a round, over at the tick `now`: a `WSAPoll` that reports nothing, and a `Sleep`, last as long as they
are asked to, and are never over if that is forever. -/
structure Waited (ofds : List (Option PollOfd)) (timeout : Int) (fds : List Pollfd) (round : PollRound) (now : Nat) :
    Prop where
  clock : round.gone ≤ now
  wsaPoll : which ofds ≠ [] → ∀ reports, round.wsaPoll = .ok reports → (∀ k < (which ofds).length, reports k = 0) →
    0 ≤ roundSlice ofds timeout fds round ∧ round.gone + roundSlice ofds timeout fds round ≤ now
  sleep : which ofds = [] → readyCount (lookOver ofds round.seen fds) = 0 → roundSlice ofds timeout fds round ≠ 0 →
    0 ≤ roundSlice ofds timeout fds round ∧ round.gone + roundSlice ofds timeout fds round ≤ now

/-- No wait of the loop is over early. -/
def Punctual (ofds : List (Option PollOfd)) (timeout : Int) (last : PollRound) (fin : Nat) :
    List Pollfd → List PollRound → Prop
  | fds, [] => Waited ofds timeout fds last fin
  | fds, round :: rounds => Waited ofds timeout fds round ((rounds.head?.getD last).gone) ∧
      ∀ fds', pollRound ofds timeout fds round = .again fds' → Punctual ofds timeout last fin fds' rounds

/-- What `WSAPoll` may set: `POLLRDNORM`, `POLLRDBAND`, `POLLPRI`, `POLLWRNORM`, `POLLWRBAND`, `POLLERR`, `POLLHUP`
and `POLLNVAL`. -/
def wsaReports : BitVec 32 := 0x737

/-- A round in which `WSAPoll` sets nothing else. -/
def PollRound.Documented (round : PollRound) (ofds : List (Option PollOfd)) : Prop :=
  ∀ reports, round.wsaPoll = .ok reports → ∀ k < (which ofds).length, Contains wsaReports ((reports k).signExtend 32)

/-! ### What is stored of a report -/

variable {ofds : List (Option PollOfd)} {fds s s' : List Pollfd} {timeout : Int} {round last : PollRound}
  {r : PollReturn} {report : BitVec 32} {p : Pair} {i fin : Nat} {f : Pollfd} {w : PollWorld}
  {rounds : List PollRound}

/-- Where an event has been reported, some event is named. -/
private theorem exists_named {n : Nat} (hn : p.sppc.toNat = n) (hp : p ∈ sppcPollTable winEvents)
    (hr : Contains report p.os) : ∃ q ∈ sppcPollTable winEvents, Named winEvents report q := by
  induction n using Nat.strong_induction_on generalizing p with
  | _ n ih =>
    by_cases hearlier : ∃ q ∈ sppcPollTable winEvents, q.sppc < p.sppc ∧ Contains report q.os
    · obtain ⟨q, hq, hlt, hrq⟩ := hearlier
      apply ih q.sppc.toNat ?_ rfl hq hrq
      rw [← hn]
      exact hlt
    · refine ⟨p, hp, hr, fun q hq hlt hrq => ?_⟩
      exact absurd ⟨q, hq, hlt, hrq⟩ hearlier

/-- A bit that `WSAPoll` may set is an event of the table. -/
private theorem exists_reported (hne : report ≠ 0) (hdoc : Contains wsaReports report) :
    ∃ p ∈ sppcPollTable winEvents, Contains report p.os := by
  have hsingle : ∀ n < 32, wsaReports.getLsbD n → ∃ p ∈ sppcPollTable winEvents, p.os = BitVec.twoPow 32 n := by
    decide +kernel
  obtain ⟨n, hn⟩ := bits_nonempty hne
  rw [contains_iff] at hdoc
  have hlt : n < 32 := by
    by_contra hge
    have hbit : report.getLsbD n = true := hn
    rw [BitVec.getLsbD_of_ge _ _ (by omega)] at hbit
    cases hbit
  obtain ⟨p, hp, hos⟩ := hsingle n hlt (hdoc hn)
  refine ⟨p, hp, ?_⟩
  rw [hos, contains_iff, bits_twoPow hlt, Set.singleton_subset_iff]
  exact hn

theorem signExtend_ne_zero {revents : BitVec 16} (hne : revents ≠ 0) : revents.signExtend 32 ≠ 0 := by
  intro h
  apply hne
  apply BitVec.eq_of_getLsbD_eq
  intro n hn
  have hbit : (revents.signExtend 32).getLsbD n = (0 : BitVec 32).getLsbD n := by rw [h]
  have hlt : n < 32 := by omega
  rw [BitVec.getLsbD_signExtend, decide_eq_true hlt, Bool.true_and, if_pos hn] at hbit
  rw [hbit]
  simp

/-- Something is stored of whatever `WSAPoll` reports. -/
private theorem socketRevents_ne (f : Pollfd) {revents : BitVec 16} (hne : revents ≠ 0)
    (hdoc : Contains wsaReports (revents.signExtend 32)) : socketRevents f revents ≠ 0 := by
  have hwide := signExtend_ne_zero hne
  obtain ⟨p, hp, hr⟩ := exists_reported hwide hdoc
  obtain ⟨q, hq, hnamed⟩ := exists_named rfl hp hr
  have hfrom := (winEvents_ok.contains_from hq).2 hnamed
  obtain ⟨n, hn, hqn⟩ := mem_names hq
  rw [hqn, contains_iff, bits_twoPow (by omega), Set.singleton_subset_iff] at hfrom
  intro hzero
  have hgot := socketRevents_got f revents
  rw [Pollfd.got, hzero] at hgot
  have hbit : n ∈ bits (0 : BitVec 32) := by
    rw [show (0 : BitVec 32) = BitVec.signExtend 32 (0 : BitVec 16) by decide, hgot]
    split
    · rw [bits_or]
      exact Or.inl hfrom
    · exact hfrom
  rw [bits_zero] at hbit
  exact hbit

/-! ### What is counted -/

/-- The sockets are counted as what is stored of them. -/
private theorem storeSockets_count (reports : Nat → BitVec 16) {is : List Nat} (hnodup : is.Nodup) (k : Nat)
    (fds : List Pollfd) (ready : Nat) (hlt : ∀ i ∈ is, i < fds.length)
    (hzero : ∀ i ∈ is, ∀ f, fds[i]? = some f → f.revents = 0) :
    (storeSockets reports is k fds ready).2 + readyCount fds =
      ready + readyCount (storeSockets reports is k fds ready).1 := by
  induction is generalizing k fds ready with
  | nil => rfl
  | cons j is ih =>
    obtain ⟨hj, hnodup⟩ := List.nodup_cons.1 hnodup
    have hjlt : j < fds.length := hlt j List.mem_cons_self
    obtain ⟨f, hf⟩ : ∃ f, fds[j] = f := ⟨_, rfl⟩
    have hold : f.revents = 0 := hzero j List.mem_cons_self f (by rw [List.getElem?_eq_getElem hjlt, hf])
    rw [storeSockets, List.getElem?_eq_getElem hjlt, hf]
    dsimp only
    have hrest := ih hnodup (k + 1) (fds.set j { f with revents := socketRevents f (reports k) })
      (if socketRevents f (reports k) ≠ 0 then ready + 1 else ready) ?_ ?_
    · have hset : readyCount (fds.set j { f with revents := socketRevents f (reports k) }) =
          readyCount fds + if socketRevents f (reports k) ≠ 0 then 1 else 0 := by
        rw [readyCount, List.countP_set hjlt, hf, hold]
        simp [readyCount]
      rw [hset] at hrest
      by_cases hne : socketRevents f (reports k) ≠ 0
      · rw [if_pos hne, if_pos hne] at hrest
        rw [if_pos hne]
        omega
      · rw [if_neg hne, if_neg hne] at hrest
        rw [if_neg hne]
        omega
    · intro i hi
      rw [List.length_set]
      exact hlt i (List.mem_cons_of_mem j hi)
    · intro i hi f hf
      have hne : j ≠ i := by
        rintro rfl
        exact hj hi
      rw [List.getElem?_set_ne hne] at hf
      exact hzero i (List.mem_cons_of_mem j hi) f hf

/-- The entries of the sockets have no events before a round. -/
def SocketsIdle (ofds : List (Option PollOfd)) (s : List Pollfd) : Prop :=
  ∀ i ∈ which ofds, ∀ f, s[i]? = some f → f.revents = 0

private theorem socketsIdle_start (ofds : List (Option PollOfd)) (fds : List Pollfd) :
    SocketsIdle ofds (pollStart ofds fds) := by
  intro i hi f hf
  obtain ⟨ofd, hofd, -⟩ := mem_which.1 hi
  rw [pollStart, List.getElem?_mapIdx, Option.map_eq_some_iff] at hf
  obtain ⟨g, -, rfl⟩ := hf
  rw [hofd]
  simp

private theorem lookOver_other {seen : Nat → Seen} (h : ∀ ofd, ofds[i]?.join = some ofd → ofd.kind = .socket)
    (fds : List Pollfd) : (lookOver ofds seen fds)[i]? = fds[i]? := by
  rw [lookOver, List.getElem?_mapIdx]
  cases hofd : ofds[i]?.join with
  | none => simp
  | some ofd => simp [h ofd hofd]

theorem SocketsIdle.lookOver (h : SocketsIdle ofds s) (seen : Nat → Seen) :
    SocketsIdle ofds (lookOver ofds seen s) := by
  intro i hi f hf
  apply h i hi f
  rw [← hf]
  symm
  apply lookOver_other
  intro ofd hofd
  obtain ⟨ofd', hofd', hkind⟩ := mem_which.1 hi
  rw [hofd, Option.some_inj] at hofd'
  rw [hofd']
  exact hkind

private theorem lt_lookOver (hlen : ofds.length = s.length) (seen : Nat → Seen) :
    ∀ i ∈ which ofds, i < (lookOver ofds seen s).length := by
  intro i hi
  rw [which, List.mem_filter, List.mem_range, hlen] at hi
  rw [lookOver, List.length_mapIdx]
  exact hi.1

/-- What a round counts. -/
private theorem pollRound_counts (hlen : ofds.length = s.length) (hidle : SocketsIdle ofds s)
    (h : pollRound ofds timeout s round = .done r) (herr : r.err = none) : r.outN = readyCount r.fds := by
  rw [pollRound] at h
  dsimp only at h
  split at h
  · cases hwsa : round.wsaPoll with
    | error e =>
      rw [hwsa] at h
      cases h
      cases herr
    | ok reports =>
      rw [hwsa] at h
      dsimp only at h
      have hcount := storeSockets_count reports (which_nodup ofds) 0 (lookOver ofds round.seen s)
        (readyCount (lookOver ofds round.seen s)) (lt_lookOver hlen round.seen) (hidle.lookOver round.seen)
      split at h
      · cases h
        dsimp only
        omega
      · cases h
  · split at h
    · cases h
      rfl
    · cases h

/-- A round that counts nothing ends the call only once the time is over. -/
private theorem pollRound_zero (hlen : ofds.length = s.length) (hdoc : round.Documented ofds)
    (hw : Waited ofds timeout s round fin) (h : pollRound ofds timeout s round = .done r) (herr : r.err = none)
    (hzero : r.outN = 0) : 0 ≤ timeout ∧ timeout ≤ fin := by
  have hclock := hw.clock
  have hleft (hl : ticksLeft timeout round.gone = 0) : 0 ≤ timeout ∧ timeout ≤ fin := by
    unfold ticksLeft at hl
    split at hl
    · split at hl
      · omega
      · omega
    · omega
  have hslice (hnot : ¬waiting ofds round.seen (lookOver ofds round.seen s))
      (hready : readyCount (lookOver ofds round.seen s) = 0)
      (hwait : 0 ≤ roundSlice ofds timeout s round ∧ round.gone + roundSlice ofds timeout s round ≤ fin) :
      0 ≤ timeout ∧ timeout ≤ fin := by
    unfold roundSlice pollSlice at hwait
    rw [hready, if_neg (Nat.lt_irrefl 0), if_neg hnot] at hwait
    unfold ticksLeft at hwait
    split at hwait
    · omega
    · split at hwait
      · split at hwait
        · omega
        · omega
      · omega
  rw [pollRound] at h
  dsimp only at h
  split at h
  · rename_i hsockets
    cases hwsa : round.wsaPoll with
    | error e =>
      rw [hwsa] at h
      cases h
      cases herr
    | ok reports =>
      rw [hwsa] at h
      dsimp only at h
      split at h
      · rename_i hend
        cases h
        have hnone : (storeSockets reports (which ofds) 0 (lookOver ofds round.seen s)
            (readyCount (lookOver ofds round.seen s))).2 = 0 := by
          dsimp only at hzero
          omega
        obtain ⟨hready, hrest⟩ := storeSockets_idle hnone
        have hidle := hrest (revents_of_readyCount hready)
        have hsilent : ∀ k < (which ofds).length, reports k = 0 := by
          intro k hk
          by_contra hne
          have hmem : (which ofds)[k] ∈ which ofds := List.getElem_mem hk
          have hlt := lt_lookOver hlen round.seen _ hmem
          have hstored : (storeSockets reports (which ofds) 0 (lookOver ofds round.seen s)
              (readyCount (lookOver ofds round.seen s))).1[(which ofds)[k]]? = _ :=
            storeSockets_getElem? (which_nodup ofds) 0 _ _ (lt_lookOver hlen round.seen) (which ofds)[k]
          rw [if_pos hmem, (which_nodup ofds).idxOf_getElem, Nat.zero_add, List.getElem?_eq_getElem hlt] at hstored
          have hrev := hidle _ (List.mem_of_getElem? hstored)
          exact socketRevents_ne _ hne (hdoc reports hwsa k hk) hrev
        rcases hend with hpos | hl | hnot
        · omega
        · exact hleft hl
        · exact hslice hnot hready (hw.wsaPoll hsockets reports hwsa hsilent)
      · cases h
  · rename_i hsockets
    split at h
    · rename_i hend
      cases h
      have hready : readyCount (lookOver ofds round.seen s) = 0 := by
        dsimp only at hzero
        omega
      rcases hend with hpos | hl | ⟨hnot, hne⟩
      · omega
      · exact hleft hl
      · exact hslice hnot hready (hw.sleep (not_not.1 hsockets) hready hne)
    · cases h

/-! ### What is left of the entries -/

private theorem pollRound_again (h : pollRound ofds timeout s round = .again s') :
    s' = afterRound ofds round s ∧ ∀ f ∈ s', f.revents = 0 := by
  rcases pollRound_cases ofds timeout s round with ⟨r, hr, -⟩ | ⟨hr, hidle⟩
  · rw [hr] at h
    cases h
  · rw [hr, RoundEnd.again.injEq] at h
    rw [← h]
    exact ⟨rfl, hidle⟩

private theorem pollRound_done (h : pollRound ofds timeout s round = .done r) : r.fds = afterRound ofds round s := by
  rcases pollRound_cases ofds timeout s round with ⟨r', hr, hfds⟩ | ⟨hr, -⟩
  · rw [hr, RoundEnd.done.injEq] at h
    rw [← h]
    exact hfds
  · rw [hr] at h
    cases h

/-- An entry as the call was given it, but for its `revents`. -/
def SameEntry (f g : Pollfd) : Prop := g.fd = f.fd ∧ g.events = f.events

/-- A round leaves an entry without a description as it is, and of any other all but its `revents`. -/
private theorem afterRound_entry (ofds : List (Option PollOfd)) (round : PollRound) (hlen : ofds.length = s.length)
    (hf : s[i]? = some f) :
    ∃ g, (afterRound ofds round s)[i]? = some g ∧ SameEntry f g ∧ (ofds[i]?.join = none → g = f) := by
  have hlook : ∃ g, (lookOver ofds round.seen s)[i]? = some g ∧ SameEntry f g ∧ (ofds[i]?.join = none → g = f) := by
    rw [lookOver, List.getElem?_mapIdx, hf]
    refine ⟨_, rfl, ?_, ?_⟩
    · split
      · split
        · exact ⟨rfl, rfl⟩
        · exact ⟨rfl, rfl⟩
      · exact ⟨rfl, rfl⟩
    · intro hnone
      rw [hnone]
  obtain ⟨g, hg, hsame, hnone⟩ := hlook
  rw [afterRound]
  cases round.wsaPoll with
  | error e => exact ⟨g, hg, hsame, hnone⟩
  | ok reports =>
    dsimp only
    rw [storeSockets_getElem? (which_nodup ofds) 0 _ 0 (lt_lookOver hlen round.seen), hg]
    split
    · rename_i hmem
      refine ⟨_, rfl, hsame, fun h => ?_⟩
      obtain ⟨ofd, hofd, -⟩ := mem_which.1 hmem
      rw [h] at hofd
      cases hofd
    · exact ⟨g, rfl, hsame, hnone⟩

/-- The state of the loop between two rounds. -/
structure Midway (ofds : List (Option PollOfd)) (fds s : List Pollfd) : Prop where
  length : ofds.length = s.length
  idle : SocketsIdle ofds s
  entries : ∀ (i : Nat) f, fds[i]? = some f → ∃ g, s[i]? = some g ∧ SameEntry f g ∧
    (ofds[i]?.join = none → (pollStart ofds fds)[i]? = some g)

private theorem midway_start (hlen : ofds.length = fds.length) : Midway ofds fds (pollStart ofds fds) where
  length := by rw [pollStart, List.length_mapIdx, hlen]
  idle := socketsIdle_start ofds fds
  entries i f hf := by
    have hstart : (pollStart ofds fds)[i]? = some { f with
        revents := if f.fd < 0 ∨ (ofds[i]?.join).isSome then 0 else SPPC_POLLNVAL.setWidth 16 } := by
      rw [pollStart, List.getElem?_mapIdx, hf]
      rfl
    exact ⟨_, hstart, ⟨rfl, rfl⟩, fun _ => hstart⟩

/-- What a round leaves of the entries of the call. -/
theorem Midway.after (hb : Midway ofds fds s) (round : PollRound) {f : Pollfd} (hf : fds[i]? = some f) :
    ∃ g, (afterRound ofds round s)[i]? = some g ∧ SameEntry f g ∧
      (ofds[i]?.join = none → (pollStart ofds fds)[i]? = some g) := by
  obtain ⟨g, hg, hsame, hnone⟩ := hb.entries i f hf
  obtain ⟨g', hg', hsame', hnone'⟩ := afterRound_entry ofds round hb.length hg
  refine ⟨g', hg', ⟨hsame'.1.trans hsame.1, hsame'.2.trans hsame.2⟩, fun h => ?_⟩
  rw [hnone' h]
  exact hnone h

private theorem Midway.again (hb : Midway ofds fds s) (h : pollRound ofds timeout s round = .again s') :
    Midway ofds fds s' := by
  obtain ⟨rfl, hidle⟩ := pollRound_again h
  refine ⟨?_, fun i _ f hf => hidle f (List.mem_of_getElem? hf), fun i f hf => hb.after round hf⟩
  rw [afterRound_length, hb.length]

/-- The rounds before the last. -/
private theorem Midway.upTo (hb : Midway ofds fds s) (h : pollRounds ofds timeout s rounds = some s') :
    Midway ofds fds s' := by
  induction rounds generalizing s with
  | nil =>
    rw [pollRounds, Option.some_inj] at h
    rw [← h]
    exact hb
  | cons round rounds ih =>
    rw [pollRounds] at h
    cases hround : pollRound ofds timeout s round with
    | again next =>
      rw [hround] at h
      exact ih (hb.again hround) h
    | done r =>
      rw [hround] at h
      cases h

/-- The wait of the last round. -/
private theorem Punctual.waited (hp : Punctual ofds timeout last fin s rounds)
    (h : pollRounds ofds timeout s rounds = some s') : Waited ofds timeout s' last fin := by
  induction rounds generalizing s with
  | nil =>
    rw [pollRounds, Option.some_inj] at h
    rw [← h]
    exact hp
  | cons round rounds ih =>
    rw [pollRounds] at h
    cases hround : pollRound ofds timeout s round with
    | again next =>
      rw [hround] at h
      exact ih (hp.2 next hround) h
    | done r =>
      rw [hround] at h
      cases h

/-! ### The call -/

/-- What a poll that succeeds stores and counts, and that it counts none only once its time is over, where no wait is
over early. -/
structure PollCounts (w : PollWorld) (fds : List Pollfd) (timeout : Int) (r : PollReturn) : Prop where
  length : r.fds.length = fds.length
  count : r.outN = readyCount r.fds
  zero : Punctual (w.ofds fds) timeout w.last w.fin (pollStart (w.ofds fds) fds) w.rounds →
    w.last.Documented (w.ofds fds) → r.outN = 0 → 0 ≤ timeout ∧ timeout ≤ w.fin
  entries : ∀ (i : Nat) f, fds[i]? = some f → ∃ g, r.fds[i]? = some g ∧ SameEntry f g ∧
    (f.fd < 0 → g.revents = 0) ∧ (0 ≤ f.fd → w.get i = none → g.revents = SPPC_POLLNVAL.setWidth 16)

/-- A poll gets as far as taking descriptions. -/
def PollTakes (w : PollWorld) (fds : List Pollfd) : Prop :=
  fds.length ≤ 65536 ∧ (∀ f ∈ fds, sppcToOsFlags f.asked (sppcPollTable winEvents) ≠ none) ∧ (fds ≠ [] → w.calloc)

/-- Each description is taken once for each entry that it is found for, let go of as often, and not before the last
has been taken. -/
structure Balanced (taken : List (Option Nat)) (log : List PollEvent) : Prop where
  takes : ∀ d, log.count (.take d) = taken.count (some d)
  releases : ∀ d, log.count (.release d) = taken.count (some d)
  order : log.Pairwise fun a b => ∀ d d', a = .release d → b ≠ .take d'

private theorem pollTake_fst (get : Nat → Option Nat) (i : Nat) (fds : List Pollfd) :
    (pollTake get i fds).1 = fds.mapIdx fun j f => if f.fd < 0 then none else get (i + j) := by
  induction fds generalizing i with
  | nil => rfl
  | cons f fds ih =>
    rw [pollTake, List.mapIdx_cons]
    dsimp only
    rw [ih]
    simp only [Nat.add_zero, Nat.add_assoc, Nat.add_comm 1]

private theorem pollTake_snd (get : Nat → Option Nat) (i : Nat) (fds : List Pollfd) :
    (pollTake get i fds).2 = (pollTake get i fds).1.reduceOption.map .take := by
  induction fds generalizing i with
  | nil => rfl
  | cons f fds ih =>
    rw [pollTake]
    dsimp only
    rw [ih]
    cases (if f.fd < 0 then none else get i) with
    | none => rfl
    | some d =>
      rw [List.reduceOption_cons_of_some]
      rfl

private theorem pollRelease_eq (ofds : List (Option Nat)) : pollRelease ofds = ofds.reduceOption.map .release := by
  induction ofds with
  | nil => rfl
  | cons ofd ofds ih =>
    rw [pollRelease, ih]
    cases ofd with
    | none => rfl
    | some d =>
      rw [List.reduceOption_cons_of_some]
      rfl

private theorem taken_eq (w : PollWorld) (fds : List Pollfd) :
    w.taken fds = fds.mapIdx fun i f => if f.fd < 0 then none else w.get i := by
  rw [PollWorld.taken, pollTake_fst]
  simp only [Nat.zero_add]

theorem length_ofds (w : PollWorld) (fds : List Pollfd) : (w.ofds fds).length = fds.length := by
  rw [PollWorld.ofds, taken_eq, List.length_map, List.length_mapIdx]

theorem ofds_getElem? (w : PollWorld) (hf : fds[i]? = some f) :
    (w.ofds fds)[i]?.join = if f.fd < 0 then none else (w.get i).map w.desc := by
  rw [PollWorld.ofds, taken_eq, List.getElem?_map, List.getElem?_mapIdx, hf]
  dsimp only [Option.map_some, Option.join_some]
  split <;> rfl

private theorem count_reduceOption (l : List (Option Nat)) (d : Nat) : l.reduceOption.count d = l.count (some d) := by
  induction l with
  | nil => rfl
  | cons o l ih =>
    cases o with
    | none => rw [List.reduceOption_cons_of_none, ih, List.count_cons_of_ne (by simp)]
    | some x =>
      rw [List.reduceOption_cons_of_some, List.count_cons, List.count_cons, ih]
      simp

private theorem balanced_log (taken : List (Option Nat)) :
    Balanced taken (taken.reduceOption.map .take ++ taken.reduceOption.map .release) := by
  have hcount (c : Nat → PollEvent) (hc : Function.Injective c) (d : Nat) :
      (taken.reduceOption.map c).count (c d) = taken.count (some d) := by
    rw [List.count_map_of_injective _ c hc, count_reduceOption]
  have hother (c c' : Nat → PollEvent) (hne : ∀ a b, c a ≠ c' b) (d : Nat) :
      (taken.reduceOption.map c).count (c' d) = 0 := by
    rw [List.count_eq_zero, List.mem_map]
    rintro ⟨a, -, ha⟩
    exact hne a d ha
  constructor
  · intro d
    rw [List.count_append, hcount .take fun a b h => by simpa using h, hother .release .take (by simp), Nat.add_zero]
  · intro d
    rw [List.count_append, hother .take .release (by simp), hcount .release fun a b h => by
      simpa using h, Nat.zero_add]
  · rw [List.pairwise_append]
    refine ⟨?_, ?_, ?_⟩
    · rw [List.pairwise_map]
      exact List.pairwise_of_forall fun _ _ _ _ hrel => nomatch hrel
    · rw [List.pairwise_map]
      exact List.pairwise_of_forall fun _ _ _ _ _ htake => nomatch htake
    · intro a ha b hb d d' hrel
      rw [List.mem_map] at ha
      obtain ⟨x, -, rfl⟩ := ha
      cases hrel

theorem sppcPollTraced_refused (timeout : Int) (h : ¬PollTakes w fds) :
    ∃ e, sppcPollTraced w fds timeout = some ⟨⟨some e, -1, fds⟩, []⟩ := by
  unfold sppcPollTraced
  split
  · exact ⟨_, rfl⟩
  rename_i hlength
  split
  · exact ⟨_, rfl⟩
  rename_i hflags
  split
  · exact ⟨_, rfl⟩
  rename_i hcalloc
  refine absurd ⟨by omega, fun f hf hnone => hflags ⟨f, hf, hnone⟩, fun hne => ?_⟩ h
  by_contra hno
  exact hcalloc ⟨hne, hno⟩

theorem sppcPollTraced_takes (hr : PollTakes w fds) {t : PollTrace} (h : sppcPollTraced w fds timeout = some t) :
    ∃ s, pollRounds (w.ofds fds) timeout (pollStart (w.ofds fds) fds) w.rounds = some s ∧
      pollRound (w.ofds fds) timeout s w.last = .done t.ret ∧
      t.log = (w.taken fds).reduceOption.map .take ++ (w.taken fds).reduceOption.map .release := by
  obtain ⟨hlength, hflags, hcalloc⟩ := hr
  rw [sppcPollTraced, if_neg (by omega), if_neg (by simpa using hflags), if_neg fun hn => hn.2 (hcalloc hn.1)] at h
  obtain ⟨s, hs, h⟩ := Option.bind_eq_some_iff.1 h
  refine ⟨s, hs, ?_⟩
  split at h
  · cases h
  · rename_i r hround
    cases h
    rw [PollWorld.taken, ← pollTake_snd, ← pollRelease_eq]
    exact ⟨hround, rfl⟩

theorem pollCounts_of_traced (htakes : PollTakes w fds) {t : PollTrace} (h : sppcPollTraced w fds timeout = some t)
    (herr : t.ret.err = none) : PollCounts w fds timeout t.ret := by
  obtain ⟨s, hs, hround, -⟩ := sppcPollTraced_takes htakes h
  have hlen := length_ofds w fds
  have hmid := (midway_start hlen).upTo hs
  refine ⟨?_, ?_, ?_, ?_⟩
  · rw [pollRound_done hround, afterRound_length, ← hmid.length, hlen]
  · exact pollRound_counts hmid.length hmid.idle hround herr
  · intro hwaits hdoc
    exact pollRound_zero hmid.length hdoc (hwaits.waited hs) hround herr
  · intro i f hf
    obtain ⟨g, hg, hsame, hnone⟩ := hmid.after w.last hf
    rw [← pollRound_done hround] at hg
    rw [ofds_getElem? w hf] at hnone
    have hstart : (pollStart (w.ofds fds) fds)[i]? = some { f with
        revents := if f.fd < 0 ∨ ((w.ofds fds)[i]?.join).isSome then 0 else SPPC_POLLNVAL.setWidth 16 } := by
      rw [pollStart, List.getElem?_mapIdx, hf]
      rfl
    rw [ofds_getElem? w hf] at hstart
    refine ⟨g, hg, hsame, fun hneg => ?_, fun hpos hclosed => ?_⟩
    · have hgot := hnone (if_pos hneg)
      rw [hstart, Option.some_inj] at hgot
      rw [← hgot]
      exact if_pos (Or.inl hneg)
    · have hgot := hnone (by rw [if_neg (by omega), hclosed]; rfl)
      rw [hstart, Option.some_inj] at hgot
      rw [← hgot]
      dsimp only
      rw [if_neg]
      rintro (hneg | hsome)
      · omega
      · rw [if_neg (by omega), hclosed] at hsome
        cases hsome

/-- However the rounds go, a poll that succeeds counts the entries with events; it counts none only with a time to
wait, which is then over; a negative descriptor has no events and one that is not open is invalid; and whatever the
call has taken it has let go of. -/
theorem sppcPoll_counts (w : PollWorld) (fds : List Pollfd) (timeout : Int) (t : PollTrace)
    (h : sppcPollTraced w fds timeout = some t) :
    (t.ret.err = none → PollCounts w fds timeout t.ret) ∧ (PollTakes w fds → Balanced (w.taken fds) t.log) ∧
      (¬PollTakes w fds → t.log = []) := by
  by_cases htakes : PollTakes w fds
  case neg =>
    obtain ⟨e, he⟩ := sppcPollTraced_refused timeout htakes
    rw [he, Option.some_inj] at h
    rw [← h]
    exact ⟨fun herr => absurd herr (by simp), fun hyes => absurd hyes htakes, fun _ => rfl⟩
  refine ⟨pollCounts_of_traced htakes h, fun _ => ?_, fun hno => absurd htakes hno⟩
  obtain ⟨s, -, -, hlog⟩ := sppcPollTraced_takes htakes h
  rw [hlog]
  exact balanced_log _

/-- A console that nobody types at, and no other descriptor, in a poll of 15 ms. -/
def consolePoll : PollWorld :=
  let quiet (gone : Nat) : PollRound := ⟨fun _ => ⟨false, none⟩, gone, .error 0⟩
  ⟨fun i => if i = 0 then some 4 else none, fun _ => ⟨.consoleIn, 0, false, true, false⟩, true, [quiet 0, quiet 10],
    quiet 15, 15⟩

theorem sppcPoll_counts_none : PollCounts consolePoll [⟨0, 1, 0⟩, ⟨-1, 1, 0⟩] 15 ⟨none, 0, [⟨0, 1, 0⟩, ⟨-1, 1, 0⟩]⟩ ∧
    Balanced [some 4, none] [.take 4, .release 4] := by
  have h := sppcPoll_counts consolePoll [⟨0, 1, 0⟩, ⟨-1, 1, 0⟩] 15
    ⟨⟨none, 0, [⟨0, 1, 0⟩, ⟨-1, 1, 0⟩]⟩, [.take 4, .release 4]⟩ (by decide +kernel)
  exact ⟨h.1 rfl, h.2.1 ⟨by decide, by decide +kernel, fun _ => rfl⟩⟩

/-- What the last round stores of an entry: of a socket, what comes of its report, and of any other something that may
be stored. -/
theorem polled_entry (hc : Carried fds s) (hlen : ofds.length = fds.length)
    (h : pollRound ofds timeout s round = .done r) (hf : fds[i]? = some f) :
    ∃ g, r.fds[i]? = some g ∧ g.events = f.events ∧
      (Within f.asked g.got ∨ ∃ reports k, round.wsaPoll = .ok reports ∧ (which ofds)[k]? = some i ∧
        g.revents = socketRevents f (reports k)) := by
  obtain ⟨f', hf', hevents⟩ := hc.events i f hf
  obtain ⟨g, hg, hevents', hwithin⟩ := lookOver_within ofds round.seen hc.quiet hf'
  have hasked : f'.asked = f.asked := congrArg (BitVec.signExtend 32) hevents
  rw [hasked] at hwithin
  have hsame : g.events = f.events := hevents'.trans hevents
  rw [pollRound_done h, afterRound]
  cases hwsa : round.wsaPoll with
  | error e => exact ⟨g, hg, hsame, Or.inl hwithin⟩
  | ok reports =>
    dsimp only
    rw [storeSockets_getElem? (which_nodup ofds) 0 _ 0 (lt_lookOver (hlen.trans hc.length.symm) round.seen), hg]
    split
    · rename_i hmem
      refine ⟨_, rfl, hsame, Or.inr ⟨reports, (which ofds).idxOf i, rfl, ?_, ?_⟩⟩
      · exact List.getElem?_idxOf hmem
      · have hgasked : g.asked = f.asked := congrArg (BitVec.signExtend 32) hsame
        rw [Nat.zero_add]
        show socketRevents g _ = _
        rw [socketRevents, socketRevents, hgasked]
    · exact ⟨g, rfl, hsame, Or.inl hwithin⟩

/-- Where an entry finds the description of its fd, the call is `sppc_poll`. -/
theorem sppcPollTraced_ret (w : PollWorld) (fdGet : Int → Option PollOfd) (fds : List Pollfd) (timeout : Int)
    (hget : ∀ (i : Nat) f, fds[i]? = some f → 0 ≤ f.fd → (w.get i).map w.desc = fdGet f.fd) :
    (sppcPollTraced w fds timeout).map PollTrace.ret = sppcPoll fdGet w.calloc fds timeout w.rounds w.last := by
  have hofds : w.ofds fds = fds.map fun f => if f.fd < 0 then none else fdGet f.fd := by
    rw [PollWorld.ofds, taken_eq]
    apply List.ext_getElem?
    intro i
    rw [List.getElem?_map, List.getElem?_mapIdx, List.getElem?_map]
    cases hf : fds[i]? with
    | none => rfl
    | some f =>
      rw [Option.map_some, Option.map_some, Option.map_some]
      congr 1
      by_cases hneg : f.fd < 0
      · simp [hneg]
      · simp [hneg, hget i f hf (by omega)]
  rw [sppcPollTraced, sppcPoll, ← hofds]
  split
  · rfl
  split
  · rfl
  split
  · rfl
  dsimp only
  cases pollRounds (w.ofds fds) timeout (pollStart (w.ofds fds) fds) w.rounds with
  | none => rfl
  | some s =>
    dsimp only [Option.bind_some]
    cases pollRound (w.ofds fds) timeout s w.last with
    | again s' => rfl
    | done r => rfl

end Sppc.Windows
