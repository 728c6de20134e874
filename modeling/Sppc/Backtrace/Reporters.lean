import Sppc.Backtrace.Failures
import Sppc.Threads

/-!
# Threads that fail at once (`backtrace/common.h`, `backtrace/posix.h`, `backtrace/pe.h`)

The first thread to fail reports, and ends the process when it has; any other waits.  A thread that fails while it
reports a failure by call waits for itself; a signal that comes in while its own is reported ends the process.
-/

namespace Sppc.Backtrace

open Threads

variable {w : WordSize} {Tid : Type}

/-- The status a failure that is reported by call ends with. -/
def SPPC_FAIL_STATUS : Nat := 134

/-- How a failure ends the process once it is reported. -/
inductive Ending
  | status (n : Nat)
  | signal (sig : FatalSignal)
  /-- As the system ends it. -/
  | unhandled
  deriving DecidableEq, Repr

/-- The end of `_sppc_bt_fail_end`, of `_sppc_bt_handler` and of `_sppc_bt_cfi_failed`, or what Windows does after the
filter and its C library after the handler of `SIGABRT`. -/
def Failure.ending (T : Tracer w) : Failure w → Ending
  | aborted .. | check .. => .status SPPC_FAIL_STATUS
  | signal sig _ pc _ => if T.isCfi sig pc then .status SPPC_FAIL_STATUS else .signal sig
  | exception .. | winAbort .. => .unhandled

/-- How a process ends. -/
inductive ProcessEnd
  /-- By a failure that has been reported. -/
  | reported (ending : Ending)
  /-- By a signal that the handler blocks. -/
  | killed (sig : FatalSignal)
  /-- By a thread that has not failed. -/
  | exited (status : Int)
  deriving DecidableEq, Repr

/-- What the threads share, with the failures of the threads that ran, in order, and the writes of the reports. -/
structure CrashShared (Tid : Type) (w : WordSize) where
  /-- `_sppc_bt_busy`. -/
  busy : Bool
  /-- `_sppc_bt_buf` and `_sppc_bt_len`. -/
  report : Report
  /-- What has been written of reports. -/
  out : List UInt8
  ended : Option ProcessEnd
  failures : List (Tid × Failure w)
  answers : List WriteAns

/-- Where a thread is. -/
inductive CrashPhase (w : WordSize)
  | runs
  /-- `pause`, or `Sleep(INFINITE)`, again and again. -/
  | waits
  /-- It reports, with the calls that are left and what its flush has written. -/
  | reports (f : Failure w) (calls : List (ReportCall w)) (done : Nat)

/-- What happens to a thread. -/
inductive CrashInput (w : WordSize)
  | fails (f : Failure w)
  /-- It makes its next call on the report, or ends the process. -/
  | turn
  /-- Its write returns. -/
  | write (ans : WriteAns)
  /-- It ends the process. -/
  | exits (status : Int)

/-- The failures of a platform. -/
def Failure.on (windows : Bool) : Failure w → Bool
  | signal .. => !windows
  | exception .. | winAbort .. => windows
  | _ => true

/-- The thread that reports `g` fails itself. -/
def reporterFails (g f : Failure w) (h : CrashShared Tid w) : Option (CrashShared Tid w × CrashPhase w) :=
  match g, f with
  -- the fatal signals are blocked while the handler runs
  | .signal .., .signal sig .. => some ({ h with ended := some (.killed sig) }, .waits)
  | .exception .., _ => none
  | _, f => if f.isFault then some (h, .waits) else none

/-- A thread fails: `_sppc_bt_fail_begin`, and the start of `_sppc_bt_handler`, `_sppc_bt_win_filter` and
`_sppc_bt_win_on_abort`. -/
def failsIn (T : Tracer w) (t : Tid) (f : Failure w) (h : CrashShared Tid w) :
    CrashPhase w → Option (CrashShared Tid w × CrashPhase w)
  | .runs =>
    let h' := { h with busy := true, failures := h.failures ++ [(t, f)] }
    if h.busy then some (h', .waits) else (f.report T [] []).map fun calls => (h', .reports f calls 0)
  | .waits => if f.isFault then some (h, .waits) else none
  | .reports g _ _ => reporterFails g f h

/-- A thread that reports goes on to its next call. -/
def turnIn (T : Tracer w) (h : CrashShared Tid w) (f : Failure w) :
    List (ReportCall w) → Nat → Option (CrashShared Tid w × CrashPhase w)
  | [], _ => some ({ h with ended := some (.reported (f.ending T)) }, .waits)
  | .flush _ :: calls, done =>
    if done < h.report.len then none else some ({ h with report := { h.report with len := 0 } }, .reports f calls 0)
  | c :: calls, _ => (h.report.call T.windows c).map fun r => ({ h with report := r.report }, .reports f calls 0)

/-- A write of its flush. -/
def writeIn (T : Tracer w) (h : CrashShared Tid w) (f : Failure w) (ans : WriteAns) :
    List (ReportCall w) → Nat → Option (CrashShared Tid w × CrashPhase w)
  | .flush a :: calls, done =>
    if done < h.report.len then
      (h.report.flushFrom T.windows [ans] done).map fun r =>
        ({ h with report := r.report, out := h.out ++ r.out, answers := h.answers ++ [ans] },
          if r.returned then .reports f calls 0 else .reports f (.flush a :: calls) (done + r.out.length))
    else none
  | _, _ => none

/-- A step of a thread. -/
def crashAct (T : Tracer w) (t : Tid) (i : CrashInput w) (h : CrashShared Tid w) (l : CrashPhase w) :
    Option (CrashShared Tid w × CrashPhase w) :=
  if h.ended.isSome then none
  else
    match i, l with
    | .fails f, l => if f.on T.windows then failsIn T t f h l else none
    | .turn, .reports f calls done => turnIn T h f calls done
    | .write ans, .reports f calls done => writeIn T h f ans calls done
    | .exits status, .runs => some ({ h with ended := some (.exited status) }, .runs)
    | _, _ => none

/-- No thread has failed. -/
def crashStart (Tid : Type) (w : WordSize) : State Tid (CrashShared Tid w) (CrashPhase w) :=
  ⟨⟨false, .start, [], none, [], []⟩, fun _ => .runs⟩

/-- A step of one of the threads. -/
def crashStep [DecidableEq Tid] (T : Tracer w) (s : State Tid (CrashShared Tid w) (CrashPhase w))
    (e : Tid × CrashInput w) : Option (State Tid (CrashShared Tid w) (CrashPhase w)) :=
  (crashAct T e.1 e.2 s.shared (s.loc e.1)).map fun r => s.put e.1 r.1 r.2

/-! ### What is told -/

/-- The texts that calls will flush, where `pieces` have been put so far. -/
def textsFrom (pieces : List UInt8) : List (ReportCall w) → List (List UInt8)
  | [] => []
  | .flush _ :: calls => pieces :: textsFrom [] calls
  | c :: calls => textsFrom (pieces ++ c.piece) calls

/-- Of each text a part from its start on has been written, in order. -/
def Told (texts : List (List UInt8)) (out : List UInt8) : Prop :=
  ∃ outs : List (List UInt8), out = outs.flatten ∧
    List.Forall₂ (fun out text => out <+: text.take SPPC_BT_BUF_SIZE) outs texts

/-- A report that goes on: the texts that are flushed, what the report holds, and what is written of it. -/
structure Going (T : Tracer w) (h : CrashShared Tid w) (f : Failure w) (calls : List (ReportCall w)) (done : Nat)
    (told : List (List UInt8)) (pieces before : List UInt8) : Prop where
  texts : f.texts T = told ++ textsFrom pieces calls
  holds : h.report.Holds pieces
  parts : Told told before
  out : h.out = before ++ (pieces.take SPPC_BT_BUF_SIZE).take done
  flushes : done ≠ 0 → ∃ a rest, calls = .flush a :: rest
  done_le : done ≤ h.report.len
  whole : (∀ ans ∈ h.answers, ans.Goes T.windows) → before = wholeText told

section texts

variable {T : Tracer w} {h : CrashShared Tid w} {f : Failure w} {calls cs : List (ReportCall w)} {done : Nat}
  {told texts : List (List UInt8)} {pieces out text : List UInt8}

private theorem PutsText.textsFrom_append (hputs : PutsText cs text) (pieces : List UInt8)
    (ds : List (ReportCall w)) : textsFrom pieces (cs ++ ds) = textsFrom (pieces ++ text) ds := by
  obtain ⟨hputs, rfl⟩ := hputs
  induction cs generalizing pieces with
  | nil => simp
  | cons c cs ih =>
    obtain ⟨hc, hcs⟩ := List.forall_mem_cons.1 hputs
    have hcons : textsFrom pieces (c :: (cs ++ ds)) = textsFrom (pieces ++ c.piece) (cs ++ ds) := by
      cases c with
      | flush a => exact absurd hc id
      | _ => rfl
    rw [List.cons_append, hcons, ih (pieces ++ c.piece) hcs, List.flatMap_cons, List.append_assoc]

/-- A report comes to its texts. -/
private theorem report_texts (T : Tracer w) (f : Failure w) :
    ∃ calls, f.report T [] [] = some calls ∧ textsFrom [] calls = f.texts T := by
  unfold Failure.report Failure.texts
  cases T.enabled with
  | true =>
    obtain ⟨cs, hcs, hputs⟩ := print_spec T f []
    refine ⟨f.head T ++ .flush [] :: cs ++ [.flush []], by simp [hcs], ?_⟩
    rw [List.append_assoc, (head_puts T f).textsFrom_append, List.cons_append, textsFrom, hputs.textsFrom_append]
    rfl
  | false =>
    have hnote : PutsText (w := w) [.put T.offNote] T.offNote.chars :=
      ⟨by simp [ReportCall.Puts], by simp [ReportCall.piece]⟩
    refine ⟨f.head T ++ [.put T.offNote] ++ [.flush []], by simp, ?_⟩
    rw [((head_puts T f).append hnote).textsFrom_append]
    rfl

private theorem Told.snoc (htold : Told texts out) {part text : List UInt8}
    (hpart : part <+: text.take SPPC_BT_BUF_SIZE) : Told (texts ++ [text]) (out ++ part) := by
  obtain ⟨outs, rfl, hparts⟩ := htold
  exact ⟨outs ++ [part], by simp, List.rel_append hparts (.cons hpart .nil)⟩

/-- Texts that are not told yet. -/
private theorem Told.append (htold : Told texts out) (more : List (List UInt8)) : Told (texts ++ more) out := by
  obtain ⟨outs, rfl, hparts⟩ := htold
  refine ⟨outs ++ more.map fun _ => [], by simp, List.rel_append hparts ?_⟩
  rw [List.forall₂_map_left_iff, List.forall₂_same]
  exact fun _ _ => List.nil_prefix

/-- What a report that goes on has written. -/
private theorem Going.all (hg : Going T h f calls done told pieces out) : Told (f.texts T) h.out := by
  rw [hg.texts, hg.out]
  by_cases hdone : done = 0
  · rw [hdone, List.take_zero, List.append_nil]
    exact hg.parts.append _
  · obtain ⟨a, rest, rfl⟩ := hg.flushes hdone
    rw [textsFrom, ← List.singleton_append, ← List.append_assoc]
    exact (hg.parts.snoc (List.take_prefix _ _)).append _

private theorem wholeText_append (texts more : List (List UInt8)) :
    wholeText (texts ++ more) = wholeText texts ++ wholeText more := by
  rw [wholeText, wholeText, wholeText, List.map_append, List.flatten_append]

end texts

/-! ### Runs -/

/-- What holds of a thread, and of what it shares. -/
def PhaseOk (T : Tracer w) (h : CrashShared Tid w) (t : Tid) : CrashPhase w → Prop
  | .runs => ∀ f, (t, f) ∉ h.failures
  | .waits => ∃ f, (t, f) ∈ h.failures
  | .reports f calls done => h.failures.head? = some (t, f) ∧ ∃ told pieces out,
    Going T h f calls done told pieces out

/-- The process has ended as the failure does that came first, which is reported whole if no write gave up. -/
def Reported (T : Tracer w) (h : CrashShared Tid w) (e : Ending) : Prop :=
  ∃ t f, h.failures.head? = some (t, f) ∧ e = f.ending T ∧
    ((∀ ans ∈ h.answers, ans.Goes T.windows) → h.out = wholeText (f.texts T))

/-- What holds of all threads. -/
structure CrashInv (T : Tracer w) (s : State Tid (CrashShared Tid w) (CrashPhase w)) : Prop where
  phase : ∀ t, PhaseOk T s.shared t (s.loc t)
  busy : s.shared.busy = true ↔ s.shared.failures ≠ []
  idle : s.shared.failures = [] → s.shared.out = [] ∧ s.shared.report.Holds [] ∧ s.shared.answers = []
  others : ∀ t f, (t, f) ∈ s.shared.failures.tail → s.loc t = .waits
  told : ∀ t f, s.shared.failures.head? = some (t, f) → Told (f.texts T) s.shared.out
  reported : ∀ e, s.shared.ended = some (.reported e) → Reported T s.shared e
  killed : ∀ sig, s.shared.ended = some (.killed sig) →
    ∃ t sig addr pc frames, s.shared.failures.head? = some (t, .signal sig addr pc frames)

section inv

variable [DecidableEq Tid] {T : Tracer w} {s : State Tid (CrashShared Tid w) (CrashPhase w)} {t : Tid}
  {h' : CrashShared Tid w} {l' : CrashPhase w} {f : Failure w} {calls calls' : List (ReportCall w)}
  {done done' : Nat} {told : List (List UInt8)} {pieces before : List UInt8} {ans : WriteAns}

omit [DecidableEq Tid] in
/-- A report goes on as long as nobody touches the buffer. -/
private theorem Going.congr {h : CrashShared Tid w} (hg : Going T h f calls done told pieces before)
    (hreport : h'.report = h.report) (hout : h'.out = h.out) (hanswers : h'.answers = h.answers) :
    Going T h' f calls done told pieces before := by
  obtain ⟨htexts, hholds, hparts, hout', hflushes, hdone, hwhole⟩ := hg
  rw [← hreport] at hholds hdone
  rw [← hout] at hout'
  rw [← hanswers] at hwhole
  exact ⟨htexts, hholds, hparts, hout', hflushes, hdone, hwhole⟩

omit [DecidableEq Tid] in
private theorem CrashInv.reports (hs : CrashInv T s) (hl : s.loc t = .reports f calls done) :
    s.shared.failures.head? = some (t, f) ∧ ∃ told pieces before,
      Going T s.shared f calls done told pieces before := by
  have hphase := hs.phase t
  rw [hl] at hphase
  exact hphase

omit [DecidableEq Tid] in
/-- Nobody reports but the thread that failed first. -/
private theorem CrashInv.alone (hs : CrashInv T s) {u : Tid} {g : Failure w} {n : Nat}
    (hl : s.loc t = .reports f calls done) (hu : s.loc u = .reports g calls' n) : u = t := by
  have ht := (hs.reports hl).1
  rw [(hs.reports hu).1, Option.some.injEq, Prod.mk.injEq] at ht
  exact ht.1

omit [DecidableEq Tid] in
/-- What holds of the other threads still does, if the buffer is as it was, or one of them reports. -/
private theorem PhaseOk.keep {h : CrashShared Tid w} {u : Tid} {l : CrashPhase w} (hok : PhaseOk T h u l)
    (hfailures : h'.failures = h.failures)
    (hsame : (∃ f calls done, l = .reports f calls done) →
      h'.report = h.report ∧ h'.out = h.out ∧ h'.answers = h.answers) : PhaseOk T h' u l := by
  cases l with
  | runs => exact fun f hmem => hok f (hfailures ▸ hmem)
  | waits =>
    obtain ⟨f, hmem⟩ := hok
    exact ⟨f, hfailures ▸ hmem⟩
  | reports f calls done =>
    obtain ⟨hhead, told, pieces, before, hg⟩ := hok
    obtain ⟨hreport, hout, hanswers⟩ := hsame ⟨f, calls, done, rfl⟩
    exact ⟨hfailures ▸ hhead, told, pieces, before, hg.congr hreport hout hanswers⟩

/-- A step of a thread that neither fails nor writes. -/
private theorem CrashInv.quiet (hs : CrashInv T s) (e : Option ProcessEnd) (hphase : PhaseOk T s.shared t l')
    (hwaits : s.loc t = .waits → l' = .waits)
    (hreported : ∀ ending, e = some (.reported ending) → Reported T s.shared ending)
    (hkilled : ∀ sig, e = some (.killed sig) →
      ∃ t sig addr pc frames, s.shared.failures.head? = some (t, .signal sig addr pc frames)) :
    CrashInv T (s.put t { s.shared with ended := e } l') where
  phase := State.put_forall (P := PhaseOk T { s.shared with ended := e }) (hphase.keep rfl fun _ => ⟨rfl, rfl, rfl⟩)
    fun u _ => (hs.phase u).keep rfl fun _ => ⟨rfl, rfl, rfl⟩
  busy := hs.busy
  idle := hs.idle
  others u g hmem := by
    by_cases hu : u = t
    · subst hu
      rw [State.put_self]
      exact hwaits (hs.others u g hmem)
    · rw [State.put_of_ne hu]
      exact hs.others u g hmem
  told := hs.told
  reported := hreported
  killed := hkilled

/-- A step of the report of the thread that reports. -/
private theorem CrashInv.goes_on (hs : CrashInv T s) (hl : s.loc t = .reports f calls done)
    (hfailures : h'.failures = s.shared.failures) (hbusy : h'.busy = s.shared.busy) (hended : h'.ended = none)
    (hg : Going T h' f calls' done' told pieces before) :
    CrashInv T (s.put t h' (.reports f calls' done')) where
  phase := by
    have hhead := (hs.reports hl).1
    refine State.put_forall (P := PhaseOk T h') ⟨hfailures ▸ hhead, told, pieces, before, hg⟩ fun u hu => ?_
    refine (hs.phase u).keep hfailures ?_
    rintro ⟨g, cs, n, hg⟩
    exact absurd (hs.alone hl hg) hu
  busy := by
    rw [State.put_shared, hfailures, hbusy]
    exact hs.busy
  idle hnil := by
    have hhead := (hs.reports hl).1
    rw [State.put_shared, hfailures] at hnil
    rw [hnil] at hhead
    cases hhead
  others u g hmem := by
    rw [State.put_shared, hfailures] at hmem
    have hwaits := hs.others u g hmem
    by_cases hu : u = t
    · subst hu
      rw [hl] at hwaits
      cases hwaits
    · rw [State.put_of_ne hu]
      exact hwaits
  told u g hhead := by
    rw [State.put_shared, hfailures, (hs.reports hl).1] at hhead
    cases hhead
    exact hg.all
  reported e he := by
    rw [State.put_shared, hended] at he
    cases he
  killed sig hsig := by
    rw [State.put_shared, hended] at hsig
    cases hsig

omit [DecidableEq Tid] in
/-- A report that goes on holds as much as has been put. -/
private theorem Going.content {h : CrashShared Tid w} (hg : Going T h f calls done told pieces before) :
    (pieces.take SPPC_BT_BUF_SIZE).length = h.report.len := by
  rw [← hg.holds.content, List.length_take]
  have hle := hg.holds.len_le
  have hsize := hg.holds.size
  omega

omit [DecidableEq Tid] in
/-- A flush that has written all that it holds. -/
private theorem Going.flushed {h : CrashShared Tid w} {a : List WriteAns}
    (hg : Going T h f (.flush a :: calls) done told pieces before) (hdone : ¬done < h.report.len) :
    Going T { h with report := { h.report with len := 0 } } f calls 0 (told ++ [pieces]) [] h.out := by
  have hlen : done = (pieces.take SPPC_BT_BUF_SIZE).length := by
    rw [hg.content]
    have hle := hg.done_le
    omega
  have hout : h.out = before ++ pieces.take SPPC_BT_BUF_SIZE := by
    rw [hg.out, hlen, List.take_length]
  refine ⟨?_, holds_nil hg.holds.size rfl, ?_, by simp, fun h => absurd rfl h, Nat.zero_le _, fun hgoes => ?_⟩
  · rw [hg.texts, List.append_assoc]
    rfl
  · rw [hout]
    exact hg.parts.snoc List.prefix_rfl
  · rw [hout, hg.whole hgoes, wholeText_append]
    simp [wholeText]

omit [DecidableEq Tid] in
/-- A piece is put. -/
private theorem Going.put {h : CrashShared Tid w} {c : ReportCall w} (hc : c.Puts)
    (hg : Going T h f (c :: calls) done told pieces before) :
    ∃ r, h.report.call T.windows c = some r ∧
      Going T { h with report := r.report } f calls 0 told (pieces ++ c.piece) before := by
  obtain ⟨r, hcall, hr⟩ := put_call T.windows hg.holds hc
  have hdone : done = 0 := by
    by_contra hne
    obtain ⟨a, rest, heq⟩ := hg.flushes hne
    cases heq
    exact hc
  have hout := hg.out
  rw [hdone, List.take_zero, List.append_nil] at hout
  refine ⟨_, hcall, ⟨?_, hr, hg.parts, by simp [hout], fun h => absurd rfl h, Nat.zero_le _, hg.whole⟩⟩
  rw [hg.texts]
  cases c with
  | flush a => exact absurd hc id
  | _ => rfl

omit [DecidableEq Tid] in
/-- A write of a flush: of what the report holds it adds the next bytes to what is written. -/
private theorem Going.write {h : CrashShared Tid w} {a : List WriteAns}
    (hg : Going T h f (.flush a :: calls) done told pieces before) (hdone : done < h.report.len) (ans : WriteAns) :
    ∃ r, h.report.flushFrom T.windows [ans] done = some r ∧
      (r.returned = false →
        Going T { h with report := r.report, out := h.out ++ r.out, answers := h.answers ++ [ans] } f
        (.flush a :: calls) (done + r.out.length) told pieces before) ∧
      (r.returned = true →
        Going T { h with report := r.report, out := h.out ++ r.out, answers := h.answers ++ [ans] } f
        calls 0 (told ++ [pieces]) [] (h.out ++ r.out)) := by
  obtain ⟨r, hr, hflushes⟩ : ∃ r, h.report.flushFrom T.windows [ans] done = some r ∧
      Flushes T.windows h.report [ans] ((h.report.buf.take h.report.len).drop done) r :=
    flushFrom_spec hg.holds.size hg.holds.len_le hdone.le
  rw [hg.holds.content] at hflushes
  have hpart : (pieces.take SPPC_BT_BUF_SIZE).take done ++ r.out <+: pieces.take SPPC_BT_BUF_SIZE := by
    conv_rhs => rw [← List.take_append_drop done (pieces.take SPPC_BT_BUF_SIZE)]
    exact (List.prefix_append_right_inj _).2 hflushes.out_le
  have hlength : ((pieces.take SPPC_BT_BUF_SIZE).take done).length = done := by
    rw [List.length_take, hg.content]
    omega
  refine ⟨r, hr, fun hret => ?_, fun hret => ?_⟩
  · have hreport := hflushes.waits hret
    have htake : (pieces.take SPPC_BT_BUF_SIZE).take done ++
        r.out = (pieces.take SPPC_BT_BUF_SIZE).take (done + r.out.length) := by
      rw [List.prefix_iff_eq_take.1 hpart, List.length_append, hlength]
    refine ⟨hg.texts, ?_, hg.parts, ?_, fun _ => ⟨a, calls, rfl⟩, ?_, fun hgoes => ?_⟩
    · rw [hreport]
      exact hg.holds
    · rw [hg.out, List.append_assoc, htake]
    · have hle := hpart.length_le
      rw [List.length_append, hlength, hg.content] at hle
      rw [hreport]
      exact hle
    · exact hg.whole fun ans hans => hgoes ans (List.mem_append_left _ hans)
  · refine ⟨?_, holds_nil (hflushes.buf ▸ hg.holds.size) (hflushes.empty hret), ?_, by simp, fun h => absurd rfl h,
      Nat.zero_le _, fun hgoes => ?_⟩
    · rw [hg.texts, List.append_assoc]
      rfl
    · rw [hg.out, List.append_assoc]
      exact hg.parts.snoc hpart
    · rw [List.forall_mem_append] at hgoes
      rw [hg.out, hg.whole hgoes.1, hflushes.whole hgoes.2 hret, List.append_assoc, List.take_append_drop,
        wholeText_append]
      simp [wholeText]

/-- A thread fails after another one has. -/
private theorem CrashInv.fails_after (hs : CrashInv T s) (hl : s.loc t = .runs) (hbusy : s.shared.busy = true)
    (f : Failure w) (hended : s.shared.ended = none) :
    CrashInv T (s.put t { s.shared with busy := true, failures := s.shared.failures ++ [(t, f)] } .waits) := by
  have hne := hs.busy.1 hbusy
  have hhead : (s.shared.failures ++ [(t, f)]).head? = s.shared.failures.head? := List.head?_append_of_ne_nil _ hne
  refine ⟨?_, by simp, by simp, ?_, ?_, by simp [hended], by simp [hended]⟩
  · refine State.put_forall (P := PhaseOk T { s.shared with busy := true, failures := s.shared.failures ++ [(t, f)] })
      ⟨f, by simp⟩ fun u hu => ?_
    have hphase := hs.phase u
    cases hlu : s.loc u with
    | runs =>
      rw [hlu] at hphase
      intro g hmem
      rcases List.mem_append.1 hmem with hmem | hmem
      · exact hphase g hmem
      · rw [List.mem_singleton, Prod.mk.injEq] at hmem
        exact hu hmem.1
    | waits =>
      rw [hlu] at hphase
      obtain ⟨g, hmem⟩ := hphase
      exact ⟨g, List.mem_append_left _ hmem⟩
    | reports g cs n =>
      rw [hlu] at hphase
      obtain ⟨hheadu, told, pieces, before, hg⟩ := hphase
      exact ⟨hhead.trans hheadu, told, pieces, before, hg.congr rfl rfl rfl⟩
  · intro u g hmem
    rw [State.put_shared, List.tail_append_of_ne_nil hne] at hmem
    by_cases hu : u = t
    · subst hu
      rw [State.put_self]
    · rw [State.put_of_ne hu]
      rcases List.mem_append.1 hmem with hmem | hmem
      · exact hs.others u g hmem
      · rw [List.mem_singleton, Prod.mk.injEq] at hmem
        exact absurd hmem.1 hu
  · intro u g hu
    rw [State.put_shared] at hu
    exact hs.told u g (hhead.symm.trans hu)

/-- The first thread fails. -/
private theorem CrashInv.fails_first (hs : CrashInv T s) (hbusy : s.shared.busy = false) {f : Failure w}
    {calls : List (ReportCall w)} (hcalls : f.report T [] [] = some calls) (hended : s.shared.ended = none) :
    CrashInv T (s.put t { s.shared with busy := true, failures := s.shared.failures ++ [(t, f)] }
      (.reports f calls 0)) := by
  have hnil : s.shared.failures = [] := by
    by_contra hne
    rw [hs.busy.2 hne] at hbusy
    cases hbusy
  obtain ⟨hout, hheld, hanswers⟩ := hs.idle hnil
  obtain ⟨calls', hcalls', htexts⟩ := report_texts T f
  rw [hcalls] at hcalls'
  cases hcalls'
  have htold : Told (f.texts T) s.shared.out := by
    rw [hout]
    exact Told.append ⟨[], rfl, .nil⟩ (f.texts T)
  refine ⟨?_, by simp, by simp, by simp [hnil], ?_, by simp [hended], by simp [hended]⟩
  · refine State.put_forall (P := PhaseOk T { s.shared with busy := true, failures := s.shared.failures ++ [(t, f)] })
      ⟨by simp [hnil], [], [], [], ⟨htexts.symm, hheld, ⟨[], rfl, .nil⟩, by simp [hout], fun h => absurd rfl h,
        Nat.zero_le _, fun _ => rfl⟩⟩ fun u hu => ?_
    -- nobody else has failed
    have hphase := hs.phase u
    cases hlu : s.loc u with
    | runs =>
      intro g hmem
      simp only [hnil, List.nil_append, List.mem_singleton, Prod.mk.injEq] at hmem
      exact hu hmem.1
    | waits =>
      rw [hlu] at hphase
      obtain ⟨g, hmem⟩ := hphase
      rw [hnil] at hmem
      cases hmem
    | reports g cs n =>
      have hhead := (hs.reports hlu).1
      rw [hnil] at hhead
      cases hhead
  · intro u g hu
    simp only [State.put_shared, hnil, List.nil_append, List.head?_cons, Option.some.injEq, Prod.mk.injEq] at hu
    obtain ⟨-, rfl⟩ := hu
    exact htold

omit [DecidableEq Tid] in
/-- The thread that reports waits for itself, or the process ends. -/
private theorem reporterFails_some {g : Failure w} {h : CrashShared Tid w}
    (hfails : reporterFails g f h = some (h', l')) :
    l' = .waits ∧ (h' = h ∨ ∃ sig, h' = { h with ended := some (.killed sig) } ∧
      ∃ sig addr pc frames, g = .signal sig addr pc frames) := by
  unfold reporterFails at hfails
  split at hfails
  · cases hfails
    exact ⟨rfl, .inr ⟨_, rfl, _, _, _, _, rfl⟩⟩
  · cases hfails
  · split at hfails <;> cases hfails
    exact ⟨rfl, .inl rfl⟩

private theorem CrashInv.fails (hs : CrashInv T s) (hended : s.shared.ended = none)
    (hact : failsIn T t f s.shared (s.loc t) = some (h', l')) : CrashInv T (s.put t h' l') := by
  cases hl : s.loc t with
  | runs =>
    rw [hl, failsIn] at hact
    split at hact
    · rename_i hbusy
      cases hact
      exact hs.fails_after hl hbusy f hended
    · rename_i hbusy
      obtain ⟨calls, hcalls, hput⟩ := Option.map_eq_some_iff.1 hact
      cases hput
      exact hs.fails_first (Bool.eq_false_iff.2 hbusy) hcalls hended
  | waits =>
    rw [hl, failsIn] at hact
    split at hact <;> cases hact
    have hphase := hs.phase t
    rw [hl] at hphase
    exact hs.quiet s.shared.ended hphase (fun _ => rfl) (by simp [hended]) (by simp [hended])
  | reports g calls done =>
    obtain ⟨hhead, -⟩ := hs.reports hl
    have hphase : PhaseOk T s.shared t .waits := ⟨g, List.mem_of_head? hhead⟩
    rw [hl, failsIn] at hact
    obtain ⟨rfl, rfl | ⟨sig, rfl, sig', addr, pc, frames, rfl⟩⟩ := reporterFails_some hact
    · exact hs.quiet s.shared.ended hphase (fun _ => rfl) (by simp [hended]) (by simp [hended])
    · exact hs.quiet _ hphase (fun _ => rfl) (by simp) fun _ _ => ⟨t, sig', addr, pc, frames, hhead⟩

private theorem CrashInv.turn (hs : CrashInv T s) (hended : s.shared.ended = none)
    (hl : s.loc t = .reports f calls done) (hact : turnIn T s.shared f calls done = some (h', l')) :
    CrashInv T (s.put t h' l') := by
  obtain ⟨hhead, told, pieces, before, hg⟩ := hs.reports hl
  unfold turnIn at hact
  split at hact
  · cases hact
    refine hs.quiet _ ⟨f, List.mem_of_head? hhead⟩ (fun _ => rfl) ?_ (by simp)
    rintro ending ⟨⟩
    refine ⟨t, f, hhead, rfl, fun hgoes => ?_⟩
    have hdone : done = 0 := by
      by_contra hne
      obtain ⟨a, rest, heq⟩ := hg.flushes hne
      cases heq
    have htexts := hg.texts
    rw [textsFrom, List.append_nil] at htexts
    rw [hg.out, hdone, List.take_zero, List.append_nil, hg.whole hgoes, htexts]
  · split at hact <;> cases hact
    rename_i hdone
    exact hs.goes_on hl rfl rfl hended (hg.flushed hdone)
  · rename_i _ c calls hputs
    obtain ⟨r, hcall, hput⟩ := Option.map_eq_some_iff.1 hact
    cases hput
    have hc : c.Puts := by
      cases c with
      | flush a => exact absurd rfl (hputs a)
      | _ => trivial
    obtain ⟨r', hcall', hg'⟩ := hg.put hc
    rw [hcall] at hcall'
    cases hcall'
    exact hs.goes_on hl rfl rfl hended hg'

private theorem CrashInv.write (hs : CrashInv T s) (hended : s.shared.ended = none)
    (hl : s.loc t = .reports f calls done) (hact : writeIn T s.shared f ans calls done = some (h', l')) :
    CrashInv T (s.put t h' l') := by
  obtain ⟨-, told, pieces, before, hg⟩ := hs.reports hl
  unfold writeIn at hact
  split at hact
  · split at hact
    · rename_i hdone
      obtain ⟨r, hr, hput⟩ := Option.map_eq_some_iff.1 hact
      obtain ⟨r', hr', hwaits, hreturns⟩ := hg.write hdone ans
      rw [hr] at hr'
      cases hr'
      cases hret : r.returned with
      | true =>
        rw [hret] at hput
        cases hput
        exact hs.goes_on hl rfl rfl hended (hreturns hret)
      | false =>
        rw [hret] at hput
        cases hput
        exact hs.goes_on hl rfl rfl hended (hwaits hret)
    · cases hact
  · cases hact

private theorem CrashInv.step {s' : State Tid (CrashShared Tid w) (CrashPhase w)} {e : Tid × CrashInput w}
    (hs : CrashInv T s) (hstep : crashStep T s e = some s') : CrashInv T s' := by
  obtain ⟨t, i⟩ := e
  obtain ⟨⟨h', l'⟩, hact, rfl⟩ := Option.map_eq_some_iff.1 hstep
  unfold crashAct at hact
  split at hact
  · cases hact
  rename_i hended
  rw [Bool.not_eq_true, Option.isSome_eq_false_iff, Option.isNone_iff_eq_none] at hended
  dsimp only at hact
  split at hact
  · split at hact
    · exact hs.fails hended hact
    · cases hact
  · rename_i hl
    exact hs.turn hended hl hact
  · rename_i hl
    exact hs.write hended hl hact
  · rename_i hl
    cases hact
    have hphase := hs.phase t
    rw [hl] at hphase
    exact hs.quiet _ hphase (fun hwaits => by rw [hl] at hwaits; cases hwaits) (by simp) (by simp)
  · cases hact

omit [DecidableEq Tid] in
private theorem CrashInv.start (T : Tracer w) : CrashInv T (crashStart Tid w) where
  phase _ _ hmem := by cases hmem
  busy := by simp [crashStart]
  idle _ := ⟨rfl, Report.start_holds, rfl⟩
  others _ _ hmem := by cases hmem
  told _ _ hhead := by cases hhead
  reported _ he := by cases he
  killed _ he := by cases he

/-- The thread that reports never stops but for a write. -/
private theorem CrashInv.moves (hs : CrashInv T s) (hended : s.shared.ended = none)
    (hl : s.loc t = .reports f calls done) :
    (∃ s', crashStep T s (t, .turn) = some s') ∨ ∀ ans, ∃ s', crashStep T s (t, .write ans) = some s' := by
  obtain ⟨-, told, pieces, before, hg⟩ := hs.reports hl
  simp only [crashStep, crashAct, hended, hl, Option.isSome_none, Bool.false_eq_true, if_false,
    Option.map_eq_some_iff]
  cases calls with
  | nil => exact .inl ⟨_, _, rfl, rfl⟩
  | cons c calls =>
    by_cases hc : c.Puts
    · obtain ⟨r, hcall, -⟩ := hg.put hc
      have hturn : turnIn T s.shared f (c :: calls) done = some ({ s.shared with report := r.report },
          .reports f calls 0) := by
        cases c with
        | flush a => exact absurd hc id
        | _ =>
          rw [turnIn, hcall]
          · rfl
          · simp
      exact .inl ⟨_, _, hturn, rfl⟩
    · cases c with
      | flush a =>
        by_cases hdone : done < s.shared.report.len
        · refine .inr fun ans => ?_
          obtain ⟨r, hr, -⟩ := hg.write hdone ans
          rw [writeIn, if_pos hdone, hr]
          exact ⟨_, _, rfl, rfl⟩
        · refine .inl ?_
          rw [turnIn, if_neg hdone]
          exact ⟨_, _, rfl, rfl⟩
      | _ => exact absurd trivial hc

/-- A thread that does not report leaves the report and what is written. -/
private theorem crashStep_untouched {s' : State Tid (CrashShared Tid w) (CrashPhase w)} {i : CrashInput w}
    (hstep : crashStep T s (t, i) = some s') (hnot : ∀ f calls done, s.loc t ≠ .reports f calls done) :
    s'.shared.report = s.shared.report ∧ s'.shared.out = s.shared.out := by
  obtain ⟨⟨h', l'⟩, hact, rfl⟩ := Option.map_eq_some_iff.1 hstep
  show h'.report = s.shared.report ∧ h'.out = s.shared.out
  unfold crashAct at hact
  split at hact
  · cases hact
  cases hl : s.loc t with
  | reports f calls done => exact absurd hl (hnot f calls done)
  | runs =>
    rw [hl] at hact
    cases i with
    | fails f =>
      dsimp only at hact
      split at hact
      · unfold failsIn at hact
        dsimp only at hact
        split at hact
        · cases hact
          exact ⟨rfl, rfl⟩
        · obtain ⟨calls, -, heq⟩ := Option.map_eq_some_iff.1 hact
          cases heq
          exact ⟨rfl, rfl⟩
      · cases hact
    | exits status =>
      cases hact
      exact ⟨rfl, rfl⟩
    | _ => cases hact
  | waits =>
    rw [hl] at hact
    cases i with
    | fails f =>
      dsimp only at hact
      split at hact
      · unfold failsIn at hact
        dsimp only at hact
        split at hact <;> cases hact
        exact ⟨rfl, rfl⟩
      · cases hact
    | _ => cases hact

end inv

/-- Of all the threads that fail only the first one reports; what is written is its report, each text from its start
on. -/
structure OneReport [DecidableEq Tid] (T : Tracer w) (s : State Tid (CrashShared Tid w) (CrashPhase w)) : Prop where
  reporter : ∀ t f calls done, s.loc t = .reports f calls done → s.shared.failures.head? = some (t, f)
  others : ∀ t f, (t, f) ∈ s.shared.failures.tail → s.loc t = .waits
  silent : s.shared.failures = [] → s.shared.out = []
  told : ∀ t f, s.shared.failures.head? = some (t, f) → Told (f.texts T) s.shared.out
  reported : ∀ e, s.shared.ended = some (.reported e) → Reported T s.shared e
  killed : ∀ sig, s.shared.ended = some (.killed sig) →
    ∃ t sig addr pc frames, s.shared.failures.head? = some (t, .signal sig addr pc frames)
  moves : s.shared.ended = none → ∀ t f calls done, s.loc t = .reports f calls done →
    (∃ s', crashStep T s (t, .turn) = some s') ∨ ∀ ans, ∃ s', crashStep T s (t, .write ans) = some s'
  untouched : ∀ t i s', crashStep T s (t, i) = some s' → (∀ f calls done, s.loc t ≠ .reports f calls done) →
    s'.shared.report = s.shared.report ∧ s'.shared.out = s.shared.out

variable [DecidableEq Tid] {T : Tracer w} {s : State Tid (CrashShared Tid w) (CrashPhase w)}

/-- However threads fail, and whatever else happens. -/
theorem one_report (h : Transition.Reach (crashStep T) (crashStart Tid w) s) : OneReport T s := by
  have hs : CrashInv T s := h.invariant (P := CrashInv T) (fun _ _ _ ht hstep => ht.step hstep) (.start T)
  refine ⟨fun t f calls done hl => (hs.reports hl).1, hs.others, fun hnil => (hs.idle hnil).1, hs.told, hs.reported,
    hs.killed, fun hended t f calls done hl => hs.moves hended hl, fun t i s' hstep hnot =>
    crashStep_untouched hstep hnot⟩

/-- A process whose backtraces are off. -/
def noBacktraces : Tracer .eight where
  windows := false
  arch := .other
  enabled := false
  offNote := literal "note: backtraces are off because SPP_BACKTRACE=0\n"
  resolve _ := ⟨none, 0, none⟩
  isCfiTrap _ := false
  string _ := literal ""

def noFrames : Frames .eight := ⟨List.replicate SPPC_BT_MAX_FRAMES 0, 0, List.length_replicate, Nat.zero_le _⟩

/-- Thread 1 faults while thread 0 reports that it has aborted. -/
theorem one_report_two : ∃ s : State Nat (CrashShared Nat .eight) (CrashPhase .eight),
    Transition.run (crashStep noBacktraces) (crashStart Nat .eight)
      [(0, .fails (.aborted 0x400 noFrames)), (1, .fails (.signal .SIGSEGV 0 0x500 noFrames))] = some s ∧
    s.shared.failures = [(0, .aborted 0x400 noFrames), (1, .signal .SIGSEGV 0 0x500 noFrames)] ∧
    OneReport noBacktraces s := by
  obtain ⟨s, hs, hfailures⟩ : ∃ s : State Nat (CrashShared Nat .eight) (CrashPhase .eight),
      Transition.run (crashStep noBacktraces) (crashStart Nat .eight)
        [(0, .fails (.aborted 0x400 noFrames)), (1, .fails (.signal .SIGSEGV 0 0x500 noFrames))] = some s ∧
      s.shared.failures = [(0, .aborted 0x400 noFrames), (1, .signal .SIGSEGV 0 0x500 noFrames)] := ⟨_, rfl, rfl⟩
  exact ⟨s, hs, hfailures, one_report ⟨_, hs⟩⟩

end Sppc.Backtrace
