import Sppc.OnceCalls
import Sppc.Darwin.TimedLocks

/-!
# A once on an int (`platform/posix.h`)

Darwin and FreeBSD have no once that fits in a handle, so `_sppc_pthread_once` is built on an int.  Here it takes the
place of the platform's once in `sppc_pthread_once`.  A step of it is one access to the int, the call of the function,
or a nap. The object's state, `objects`, is for the comparison with the platform's once; no step reads it.
-/

namespace Sppc

open Threads Transition
open Darwin (SPPC_BACKOFF_MIN_NS)

/-- `_SPPC_ONCE_INIT`, `_SPPC_ONCE_RUNNING` and `_SPPC_ONCE_DONE`. -/
def SPPC_ONCE_INIT : Int := 0
def SPPC_ONCE_RUNNING : Int := 1
def SPPC_ONCE_DONE : Int := 2

/-- Where a call is: before the exchange, in its closure, before the store, before a look at the int, in a nap, or
after the once. -/
inductive WordStage
  | tries
  | body
  | stores
  | looks (pause : Int)
  | naps (pause : Int)
  | back
  deriving DecidableEq, Repr

/-- A call that has not returned. -/
structure WordFrame (Obj : Type) where
  n : Nat
  once : Obj
  func : SppcClosure
  stage : WordStage

/-- The int of each object, and the rest. -/
structure WordShared (Os Task Obj : Type) where
  word : Obj → Int
  rest : OnceShared Os Task Obj

variable {Os Task Obj : Type} [DecidableEq Os] [DecidableEq Task] [DecidableEq Obj]

/-- The next step of the task `t` with the calls `fs`, the innermost first, while its OS thread runs it. -/
def wordOnceAct (os : Task → Os) (t : Task) (i : OnceInput Task Obj) (h : WordShared Os Task Obj)
    (fs : List (WordFrame Obj)) : Option (WordShared Os Task Obj × List (WordFrame Obj)) :=
  if h.rest.running (os t) ≠ t then none else match i, fs with
  -- _sppc_pthread_once
  | .run, ⟨n, once, func, .tries⟩ :: fs =>
    if h.word once = SPPC_ONCE_INIT then
      (h.rest.closure (os t)).map fun r =>
        (⟨Function.update h.word once SPPC_ONCE_RUNNING, h.rest.entry (os t) once r.1⟩, ⟨n, once, func, .body⟩ :: fs)
    else some (h, ⟨n, once, func, .looks SPPC_BACKOFF_MIN_NS⟩ :: fs)
  | .finish, ⟨n, once, func, .body⟩ :: fs => some (h, ⟨n, once, func, .stores⟩ :: fs)
  | .run, ⟨n, once, func, .stores⟩ :: fs =>
    some (⟨Function.update h.word once SPPC_ONCE_DONE,
      { h.rest with objects := Function.update h.rest.objects once .done }⟩, ⟨n, once, func, .back⟩ :: fs)
  | .run, ⟨n, once, func, .looks pause⟩ :: fs =>
    some (h, ⟨n, once, func, if h.word once = SPPC_ONCE_DONE then .back else .naps pause⟩ :: fs)
  | .run, ⟨n, once, func, .naps pause⟩ :: fs =>
    some (h, ⟨n, once, func, .looks (if pause < SPPC_BACKOFF_MAX_NS then pause * 2 else pause)⟩ :: fs)
  -- the rest of sppc_pthread_once
  | .run, ⟨n, _, func, .back⟩ :: fs => some ({ h with rest := h.rest.settle (os t) (t, n) func }, fs)
  -- outside all calls, or in a closure
  | .call once func, fs =>
    if ∀ f ∈ fs.head?, f.stage = .body then
      some ({ h with rest := h.rest.begin (os t) t func }, ⟨h.rest.next t, once, func, .tries⟩ :: fs)
    else none
  | .turn u, fs =>
    if (∀ f ∈ fs.head?, f.stage = .body) ∧ os u = os t then
      some ({ h with rest := { h.rest with running := Function.update h.rest.running (os t) u } }, fs)
    else none
  | _, _ => none

abbrev WordSystem (Os Task Obj : Type) := Threads.State Task (WordShared Os Task Obj) (List (WordFrame Obj))

/-- No call has been made, and the OS threads run the tasks `running`. -/
def WordSystem.init (running : Os → Task) : WordSystem Os Task Obj :=
  ⟨⟨fun _ => SPPC_ONCE_INIT, (OnceSystem.init running).shared⟩, fun _ => []⟩

/-- One step of a task. -/
def wordOnceStep (os : Task → Os) : WordSystem Os Task Obj → OnceEvent Task Obj → Option (WordSystem Os Task Obj) :=
  Threads.step (wordOnceAct os) fun e _ => e.elim

/-! ### The platform's once -/

/-- The int of an object in this state. -/
def OnceState.word : OnceState → Int
  | .init => SPPC_ONCE_INIT
  | .running => SPPC_ONCE_RUNNING
  | .done => SPPC_ONCE_DONE

/-- Where a call is, for the platform's once. -/
def WordStage.platform : WordStage → OnceStage
  | .tries | .looks _ | .naps _ => .platform
  | .body | .stores => .body
  | .back => .back

def WordFrame.platform (f : WordFrame Obj) : OnceFrame Obj := ⟨f.n, f.once, f.func, f.stage.platform⟩

/-- The system with the platform's once. -/
def WordSystem.platform (s : WordSystem Os Task Obj) : OnceSystem Os Task Obj :=
  ⟨s.shared.rest, fun t => (s.loc t).map WordFrame.platform⟩

/-- The call runs the object's function. -/
def WordStage.runs : WordStage → Bool
  | .body | .stores => true
  | _ => false

/-- A pause from 50 µs to 1.6 ms. -/
def PauseOk (pause : Int) : Prop := SPPC_BACKOFF_MIN_NS ≤ pause ∧ pause < 2 * SPPC_BACKOFF_MAX_NS

/-- What holds of a call that has not returned. -/
structure WordFrame.Ok (h : WordShared Os Task Obj) (f : WordFrame Obj) : Prop where
  runs : f.stage.runs → h.rest.objects f.once = .running
  back : f.stage = .back → h.rest.objects f.once = .done
  looks : ∀ pause, f.stage = .looks pause ∨ f.stage = .naps pause → PauseOk pause

/-- Every object's int is as its state, and an object that is running is run by one call. -/
structure WordInv (os : Task → Os) (s : WordSystem Os Task Obj) : Prop where
  platform : OnceInv os s.platform
  word : ∀ o, s.shared.word o = (s.shared.rest.objects o).word
  ok : ∀ t, ∀ f ∈ s.loc t, f.Ok s.shared
  body : ∀ t, ∀ f ∈ (s.loc t).tail, f.stage = .body
  runner : ∀ o, s.shared.rest.objects o = .running → ∃ t, ∃ f ∈ s.loc t, f.once = o ∧ f.stage.runs
  one : ∀ t u, ∀ f ∈ s.loc t, ∀ g ∈ s.loc u, f.stage.runs → g.stage.runs → f.once = g.once → t = u ∧ f.n = g.n

variable {os : Task → Os} {s s' : WordSystem Os Task Obj} {t u : Task} {i : OnceInput Task Obj}
  {h h' : WordShared Os Task Obj} {fs fs' : List (WordFrame Obj)}

omit [DecidableEq Os] [DecidableEq Obj] in
private theorem platform_put (s : WordSystem Os Task Obj) (t : Task) (h : WordShared Os Task Obj)
    (fs : List (WordFrame Obj)) :
    WordSystem.platform (s.put t h fs) = s.platform.put t h.rest (fs.map WordFrame.platform) := by
  unfold WordSystem.platform State.put
  dsimp only
  congr 1
  funext u
  by_cases hu : u = t
  · subst hu
    rw [Function.update_self, Function.update_self]
  · rw [Function.update_of_ne hu, Function.update_of_ne hu]

/-! ### What a step does -/

/-- The calls of a task after a step: the innermost has moved on, a call has begun or ended, or another task runs. -/
inductive WordStep (os : Task → Os) (t : Task) (h : WordShared Os Task Obj) :
    List (WordFrame Obj) → WordShared Os Task Obj → List (WordFrame Obj) → Prop
  | entry {n : Nat} {once : Obj} {func : SppcClosure} {fs : List (WordFrame Obj)}
    {r : OnceCall Task × SppcClosure} (hword : h.word once = SPPC_ONCE_INIT) (hr : h.rest.closure (os t) = some r) :
    WordStep os t h (⟨n, once, func, .tries⟩ :: fs)
      ⟨Function.update h.word once SPPC_ONCE_RUNNING, h.rest.entry (os t) once r.1⟩ (⟨n, once, func, .body⟩ :: fs)
  | finish {n : Nat} {once : Obj} {func : SppcClosure} {fs : List (WordFrame Obj)} :
    WordStep os t h (⟨n, once, func, .body⟩ :: fs) h (⟨n, once, func, .stores⟩ :: fs)
  | store {n : Nat} {once : Obj} {func : SppcClosure} {fs : List (WordFrame Obj)} :
    WordStep os t h (⟨n, once, func, .stores⟩ :: fs) ⟨Function.update h.word once SPPC_ONCE_DONE,
        { h.rest with objects := Function.update h.rest.objects once .done }⟩ (⟨n, once, func, .back⟩ :: fs)
  | done {n : Nat} {once : Obj} {func : SppcClosure} {fs : List (WordFrame Obj)} {pause : Int}
    (hword : h.word once = SPPC_ONCE_DONE) :
    WordStep os t h (⟨n, once, func, .looks pause⟩ :: fs) h (⟨n, once, func, .back⟩ :: fs)
  | waits {n : Nat} {once : Obj} {func : SppcClosure} {fs : List (WordFrame Obj)} {stage stage' : WordStage}
    (hstage : stage.platform = .platform) (hstage' : stage'.platform = .platform)
    (hpause : ∀ pause, stage' = .looks pause ∨ stage' = .naps pause → PauseOk pause) :
    WordStep os t h (⟨n, once, func, stage⟩ :: fs) h (⟨n, once, func, stage'⟩ :: fs)
  | settle {n : Nat} {once : Obj} {func : SppcClosure} {fs : List (WordFrame Obj)} :
    WordStep os t h (⟨n, once, func, .back⟩ :: fs) { h with rest := h.rest.settle (os t) (t, n) func } fs
  | call {once : Obj} {func : SppcClosure} {fs : List (WordFrame Obj)} (hbody : ∀ f ∈ fs.head?, f.stage = .body) :
    WordStep os t h fs { h with rest := h.rest.begin (os t) t func } (⟨h.rest.next t, once, func, .tries⟩ :: fs)
  | turn {fs : List (WordFrame Obj)} {u : Task} (hbody : ∀ f ∈ fs.head?, f.stage = .body) (hu : os u = os t) :
    WordStep os t h fs { h with rest := { h.rest with running := Function.update h.rest.running (os t) u } } fs

private theorem wordOnceAct_step (hok : ∀ f ∈ fs, f.Ok h) (hact : wordOnceAct os t i h fs = some (h', fs')) :
    h.rest.running (os t) = t ∧ WordStep os t h fs h' fs' := by
  unfold wordOnceAct at hact
  split at hact
  · cases hact
  · rename_i hrunning
    refine ⟨not_not.1 hrunning, ?_⟩
    split at hact
    · split at hact
      · rename_i hword
        obtain ⟨r, hr, heq⟩ := Option.map_eq_some_iff.1 hact
        cases heq
        exact .entry hword hr
      · cases hact
        refine .waits rfl rfl ?_
        rintro pause (h | h) <;> cases h
        exact ⟨by decide, by decide⟩
    · cases hact
      exact .finish
    · cases hact
      exact .store
    · cases hact
      rename_i pause fs
      have hpause := (hok _ List.mem_cons_self).looks pause (Or.inl rfl)
      split
      · exact .done ‹_›
      · refine .waits rfl rfl ?_
        rintro pause' (h | h) <;> cases h
        exact hpause
    · cases hact
      rename_i pause fs
      have hpause := (hok _ List.mem_cons_self).looks pause (Or.inr rfl)
      refine .waits rfl rfl ?_
      rintro pause' (h | h) <;> cases h
      have hmin : 0 < SPPC_BACKOFF_MIN_NS := by decide
      unfold PauseOk at hpause ⊢
      split <;> omega
    · cases hact
      exact .settle
    · split at hact <;> cases hact
      exact .call ‹_›
    · split at hact <;> cases hact
      rename_i hturn
      exact .turn hturn.1 hturn.2
    · cases hact

omit [DecidableEq Os] [DecidableEq Obj] in
private theorem put_self_eq (s : OnceSystem Os Task Obj) (t : Task) : s.put t s.shared (s.loc t) = s := by
  unfold State.put
  rw [Function.update_eq_self]

omit [DecidableEq Os] [DecidableEq Task] [DecidableEq Obj] in
private theorem head_platform (hbody : ∀ f ∈ fs.head?, f.stage = .body) :
    ∀ f ∈ (fs.map WordFrame.platform).head?, f.stage = .body := by
  cases fs with
  | nil =>
    intro f hf
    cases hf
  | cons f fs =>
    intro g hg
    cases hg
    simp only [WordFrame.platform, hbody f rfl, WordStage.platform]

private theorem OnceState.word_init {o : OnceState} (h : o.word = SPPC_ONCE_INIT) : o = .init := by
  cases o
  · rfl
  · exact absurd h (by decide)
  · exact absurd h (by decide)

private theorem OnceState.word_running {o : OnceState} (h : o.word = SPPC_ONCE_RUNNING) : o = .running := by
  cases o
  · exact absurd h (by decide)
  · rfl
  · exact absurd h (by decide)

private theorem OnceState.word_done {o : OnceState} (h : o.word = SPPC_ONCE_DONE) : o = .done := by
  cases o
  · exact absurd h (by decide)
  · exact absurd h (by decide)
  · rfl

/-- The platform's once runs a closure. -/
private theorem onceAct_init {h : OnceShared Os Task Obj} {n : Nat} {once : Obj} {func : SppcClosure}
    {fs : List (OnceFrame Obj)} {r : OnceCall Task × SppcClosure} (hrunning : h.running (os t) = t)
    (hinit : h.objects once = .init) (hr : h.closure (os t) = some r) :
    onceAct os t .run h (⟨n, once, func, .platform⟩ :: fs) =
      some (h.entry (os t) once r.1, ⟨n, once, func, .body⟩ :: fs) := by
  unfold onceAct
  rw [if_neg (not_not.2 hrunning)]
  dsimp only
  rw [hinit]
  dsimp only
  rw [hr]
  rfl

/-- The platform's once returns. -/
private theorem onceAct_done {h : OnceShared Os Task Obj} {n : Nat} {once : Obj} {func : SppcClosure}
    {fs : List (OnceFrame Obj)} (hrunning : h.running (os t) = t) (hdone : h.objects once = .done) :
    onceAct os t .run h (⟨n, once, func, .platform⟩ :: fs) = some (h, ⟨n, once, func, .back⟩ :: fs) := by
  unfold onceAct
  rw [if_neg (not_not.2 hrunning)]
  dsimp only
  rw [hdone]

/-- A step of the once on an int is a step of the task at the platform's once, or none. -/
private theorem WordStep.platform (hs : WordStep os t s.shared (s.loc t) h' fs')
    (hrunning : s.shared.rest.running (os t) = t) (hword : ∀ o, s.shared.word o = (s.shared.rest.objects o).word) :
    WordSystem.platform (s.put t h' fs') = s.platform ∨
      ∃ i, onceStep os s.platform (.thread t i) = some (WordSystem.platform (s.put t h' fs')) := by
  have hact {i : OnceInput Task Obj} (h : onceAct os t i s.shared.rest ((s.loc t).map WordFrame.platform) =
      some (h'.rest, fs'.map WordFrame.platform)) :
      ∃ i, onceStep os s.platform (.thread t i) = some (WordSystem.platform (s.put t h' fs')) := by
    rw [platform_put]
    exact ⟨i, step_thread.2 ⟨_, _, h, rfl⟩⟩
  have hskip (h : h' = s.shared) (hfs : fs'.map WordFrame.platform = (s.loc t).map WordFrame.platform) :
      WordSystem.platform (s.put t h' fs') = s.platform := by
    rw [platform_put, h, hfs]
    exact put_self_eq s.platform t
  have hgoes : ¬s.shared.rest.running (os t) ≠ t := not_not.2 hrunning
  generalize s.loc t = fs at hs hact hskip
  cases hs with
  | entry hzero hr =>
    rename_i n once func fs r
    have hinit : s.shared.rest.objects once = .init := OnceState.word_init ((hword once).symm.trans hzero)
    refine Or.inr (hact (i := .run) ?_)
    exact onceAct_init hrunning hinit hr
  | finish => exact Or.inl (hskip rfl rfl)
  | store =>
    refine Or.inr (hact (i := .finish) ?_)
    unfold onceAct
    rw [if_neg hgoes]
    rfl
  | done htwo =>
    rename_i n once func fs pause
    have hdone : s.shared.rest.objects once = .done := OnceState.word_done ((hword once).symm.trans htwo)
    refine Or.inr (hact (i := .run) ?_)
    exact onceAct_done hrunning hdone
  | waits hstage hstage' hpause =>
    refine Or.inl (hskip rfl ?_)
    simp only [List.map_cons, WordFrame.platform, hstage, hstage']
  | settle =>
    refine Or.inr (hact (i := .run) ?_)
    unfold onceAct
    rw [if_neg hgoes]
    rfl
  | call hbody =>
    rename_i once func
    refine Or.inr (hact (i := .call once func) ?_)
    unfold onceAct
    rw [if_neg hgoes]
    dsimp only
    rw [if_pos (head_platform hbody)]
    rfl
  | turn hbody hu =>
    rename_i u
    refine Or.inr (hact (i := .turn u) ?_)
    unfold onceAct
    rw [if_neg hgoes]
    dsimp only
    rw [if_pos ⟨head_platform hbody, hu⟩]

/-! ### The invariant -/

section

variable {n : Nat} {once : Obj} {func : SppcClosure} {stage stage' : WordStage}

omit [DecidableEq Os] in
/-- What the innermost call's move to another stage keeps, where only its own object's state changes. -/
private theorem WordInv.move (hi : WordInv os s) (hloc : s.loc t = ⟨n, once, func, stage⟩ :: fs)
    (hplatform : OnceInv os (WordSystem.platform (s.put t h' (⟨n, once, func, stage'⟩ :: fs))))
    (hword : ∀ o, h'.word o = (h'.rest.objects o).word)
    (hsame : ∀ o ≠ once, h'.rest.objects o = s.shared.rest.objects o) (hok : WordFrame.Ok h' ⟨n, once, func, stage'⟩)
    (hothers : ∀ u, ∀ g ∈ s.loc u, u ≠ t ∨ g ∈ fs → g.once = once → g.Ok h')
    (hruns : stage'.runs → stage.runs ∨ ∀ u, ∀ g ∈ s.loc u, u ≠ t ∨ g ∈ fs → g.once = once → ¬g.stage.runs)
    (hrunner : h'.rest.objects once = .running → stage'.runs ∨ s.shared.rest.objects once = .running ∧ ¬stage.runs) :
    WordInv os (s.put t h' (⟨n, once, func, stage'⟩ :: fs)) := by
  -- after the step a call is the one that has moved, or one of the others
  have hmem {u : Task} {g : WordFrame Obj} (hg : g ∈ (s.put t h' (⟨n, once, func, stage'⟩ :: fs)).loc u) :
      (u = t ∧ g = ⟨n, once, func, stage'⟩) ∨ (g ∈ s.loc u ∧ (u ≠ t ∨ g ∈ fs)) := by
    by_cases hu : u = t
    · subst hu
      rw [State.put_self] at hg
      rcases List.mem_cons.1 hg with rfl | hg
      · exact Or.inl ⟨rfl, rfl⟩
      · exact Or.inr ⟨by rw [hloc]; exact List.mem_cons_of_mem _ hg, Or.inr hg⟩
    · rw [State.put_of_ne hu] at hg
      exact Or.inr ⟨hg, Or.inl hu⟩
  have hstay {u : Task} {g : WordFrame Obj} (hg : g ∈ s.loc u) (hother : u ≠ t ∨ g ∈ fs) :
      g ∈ (s.put t h' (⟨n, once, func, stage'⟩ :: fs)).loc u := by
    by_cases hu : u = t
    · subst hu
      rw [State.put_self]
      exact List.mem_cons_of_mem _ (hother.resolve_left fun h => h rfl)
    · rw [State.put_of_ne hu]
      exact hg
  have hself : ⟨n, once, func, stage⟩ ∈ s.loc t := by
    rw [hloc]
    exact List.mem_cons_self
  refine ⟨hplatform, hword, ?_, ?_, ?_, ?_⟩
  · intro u g hg
    rcases hmem hg with ⟨-, rfl⟩ | ⟨hg, hother⟩
    · exact hok
    · by_cases honce : g.once = once
      · exact hothers u g hg hother honce
      · obtain ⟨h₁, h₂, h₃⟩ := hi.ok u g hg
        rw [← hsame _ honce] at h₁ h₂
        exact ⟨h₁, h₂, h₃⟩
  · intro u
    by_cases hu : u = t
    · subst hu
      rw [State.put_self]
      have hbody := hi.body u
      rw [hloc] at hbody
      exact hbody
    · rw [State.put_of_ne hu]
      exact hi.body u
  · intro o ho
    have hold (hobj : s.shared.rest.objects o = .running) (hnot : o = once → ¬stage.runs) :
        ∃ u, ∃ f ∈ (s.put t h' (⟨n, once, func, stage'⟩ :: fs)).loc u, f.once = o ∧ f.stage.runs := by
      obtain ⟨u, f, hf, hfo, hfr⟩ := hi.runner o hobj
      refine ⟨u, f, hstay hf ?_, hfo, hfr⟩
      by_cases hu : u = t
      · right
        subst hu
        rw [hloc] at hf
        rcases List.mem_cons.1 hf with rfl | hf
        · exact absurd hfr (hnot hfo.symm)
        · exact hf
      · exact Or.inl hu
    by_cases honce : o = once
    · subst honce
      rcases hrunner ho with hr | ⟨hobj, hr⟩
      · refine ⟨t, ⟨n, o, func, stage'⟩, ?_, rfl, hr⟩
        show _ ∈ (s.put t h' (⟨n, o, func, stage'⟩ :: fs)).loc t
        rw [State.put_self]
        exact List.mem_cons_self
      · exact hold hobj fun _ => hr
    · refine hold ?_ fun h => absurd h honce
      rw [← hsame o honce]
      exact ho
  · -- of two calls that run one function one may be the one that has moved
    have hnew {u : Task} {g : WordFrame Obj} (hg : g ∈ s.loc u) (hother : u ≠ t ∨ g ∈ fs) (hr : stage'.runs)
        (hgr : g.stage.runs) (honce : g.once = once) : t = u ∧ n = g.n := by
      rcases hruns hr with hold | hnone
      · exact hi.one t u _ hself g hg hold hgr honce.symm
      · exact absurd hgr (hnone u g hg hother honce)
    intro u v f hf g hg hfr hgr honce
    rcases hmem hf with ⟨rfl, rfl⟩ | ⟨hfs, hfo⟩
    · rcases hmem hg with ⟨rfl, rfl⟩ | ⟨hgs, hgo⟩
      · exact ⟨rfl, rfl⟩
      · exact hnew hgs hgo hfr hgr honce.symm
    · rcases hmem hg with ⟨rfl, rfl⟩ | ⟨hgs, hgo⟩
      · obtain ⟨h₁, h₂⟩ := hnew hfs hfo hgr hfr honce
        exact ⟨h₁.symm, h₂.symm⟩
      · exact hi.one u v f hfs g hgs hfr hgr honce

omit [DecidableEq Os] [DecidableEq Obj] in
/-- A step that changes no object, and after which the calls are some of those before, or calls that are just
beginning. -/
private theorem WordInv.still (hi : WordInv os s) (hplatform : OnceInv os (WordSystem.platform (s.put t h' fs')))
    (hword : h'.word = s.shared.word) (hobjects : h'.rest.objects = s.shared.rest.objects)
    (hbody : ∀ f ∈ fs'.tail, f.stage = .body)
    (hcalls : ∀ f ∈ fs', f ∈ s.loc t ∨ f.stage = .tries) (hgone : ∀ f ∈ s.loc t, f.stage.runs → f ∈ fs') :
    WordInv os (s.put t h' fs') := by
  have hold {u : Task} {f : WordFrame Obj} (hf : f ∈ (s.put t h' fs').loc u) : f ∈ s.loc u ∨ f.stage = .tries := by
    by_cases hu : u = t
    · subst hu
      rw [State.put_self] at hf
      exact hcalls f hf
    · rw [State.put_of_ne hu] at hf
      exact Or.inl hf
  refine ⟨hplatform, ?_, ?_, ?_, ?_, ?_⟩
  · intro o
    show h'.word o = (h'.rest.objects o).word
    rw [hword, hobjects]
    exact hi.word o
  · intro u f hf
    rcases hold hf with hf | hf
    · obtain ⟨h₁, h₂, h₃⟩ := hi.ok u f hf
      rw [← hobjects] at h₁ h₂
      exact ⟨h₁, h₂, h₃⟩
    · refine ⟨fun h => ?_, fun h => ?_, ?_⟩
      · rw [hf] at h
        cases h
      · rw [hf] at h
        cases h
      · rintro pause (h | h)
        · rw [hf] at h
          cases h
        · rw [hf] at h
          cases h
  · intro u
    by_cases hu : u = t
    · subst hu
      rw [State.put_self]
      exact hbody
    · rw [State.put_of_ne hu]
      exact hi.body u
  · intro o ho
    obtain ⟨u, f, hf, hfo, hfr⟩ := hi.runner o (by rw [← hobjects]; exact ho)
    refine ⟨u, f, ?_, hfo, hfr⟩
    by_cases hu : u = t
    · subst hu
      rw [State.put_self]
      exact hgone f hf hfr
    · rw [State.put_of_ne hu]
      exact hf
  · intro u v f hf g hg hfr hgr honce
    rcases hold hf with hfs | hfs
    · rcases hold hg with hgs | hgs
      · exact hi.one u v f hfs g hgs hfr hgr honce
      · rw [hgs] at hgr
        cases hgr
    · rw [hfs] at hfr
      cases hfr

/-- A call begins the function of its object: nobody runs it yet, and nobody is back from it. -/
private theorem WordInv.enters {r : OnceCall Task} (hi : WordInv os s)
    (hloc : s.loc t = ⟨n, once, func, .tries⟩ :: fs) (hzero : s.shared.word once = SPPC_ONCE_INIT)
    (hplatform : OnceInv os (WordSystem.platform (s.put t
      ⟨Function.update s.shared.word once SPPC_ONCE_RUNNING, s.shared.rest.entry (os t) once r⟩
      (⟨n, once, func, .body⟩ :: fs)))) :
    WordInv os (s.put t ⟨Function.update s.shared.word once SPPC_ONCE_RUNNING, s.shared.rest.entry (os t) once r⟩
      (⟨n, once, func, .body⟩ :: fs)) := by
  have hinit : s.shared.rest.objects once = .init := OnceState.word_init ((hi.word once).symm.trans hzero)
  have hidle {u : Task} {g : WordFrame Obj} (hg : g ∈ s.loc u) (honce : g.once = once) :
      ¬g.stage.runs ∧ g.stage ≠ .back := by
    have hok := hi.ok u g hg
    constructor
    · intro hr
      have hobj := hok.runs hr
      rw [honce, hinit] at hobj
      cases hobj
    · intro hb
      have hobj := hok.back hb
      rw [honce, hinit] at hobj
      cases hobj
  refine hi.move hloc hplatform ?_ ?_ ?_ ?_ ?_ ?_
  · intro o
    show Function.update s.shared.word once _ o = (Function.update s.shared.rest.objects once .running o).word
    by_cases ho : o = once
    · subst ho
      rw [Function.update_self, Function.update_self]
      rfl
    · rw [Function.update_of_ne ho, Function.update_of_ne ho]
      exact hi.word o
  · exact fun o ho => Function.update_of_ne ho ..
  · refine ⟨fun _ => Function.update_self .., (fun h => by cases h), ?_⟩
    rintro pause (h | h) <;> cases h
  · intro u g hg _ honce
    obtain ⟨h₁, h₂⟩ := hidle hg honce
    exact ⟨fun h => absurd h h₁, fun h => absurd h h₂, (hi.ok u g hg).looks⟩
  · exact fun _ => Or.inr fun u g hg _ honce => (hidle hg honce).1
  · exact fun _ => Or.inl rfl

omit [DecidableEq Os] in
/-- The call that has run the function of its object stores that it is done: it is the only one that runs it. -/
private theorem WordInv.stores (hi : WordInv os s) (hloc : s.loc t = ⟨n, once, func, .stores⟩ :: fs)
    (hplatform : OnceInv os (WordSystem.platform (s.put t
      ⟨Function.update s.shared.word once SPPC_ONCE_DONE,
        { s.shared.rest with objects := Function.update s.shared.rest.objects once .done }⟩
      (⟨n, once, func, .back⟩ :: fs)))) :
    WordInv os (s.put t
      ⟨Function.update s.shared.word once SPPC_ONCE_DONE,
        { s.shared.rest with objects := Function.update s.shared.rest.objects once .done }⟩
      (⟨n, once, func, .back⟩ :: fs)) := by
  have hself : ⟨n, once, func, .stores⟩ ∈ s.loc t := by
    rw [hloc]
    exact List.mem_cons_self
  have hidle {u : Task} {g : WordFrame Obj} (hg : g ∈ s.loc u) (hother : u ≠ t ∨ g ∈ fs) (honce : g.once = once) :
      ¬g.stage.runs := by
    intro hr
    obtain ⟨htu, hn⟩ := hi.one t u _ hself g hg rfl hr honce.symm
    have hmem : g ∈ fs := hother.resolve_left fun h => h htu.symm
    have hcalls := hi.platform.calls t
    rw [show s.platform.loc t = (s.loc t).map WordFrame.platform from rfl, hloc] at hcalls
    have hlater := (hcalls.below (List.mem_map_of_mem hmem)).2.2
    exact absurd hn (Nat.ne_of_gt hlater)
  refine hi.move hloc hplatform ?_ ?_ ?_ ?_ ?_ ?_
  · intro o
    show Function.update s.shared.word once _ o = (Function.update s.shared.rest.objects once .done o).word
    by_cases ho : o = once
    · subst ho
      rw [Function.update_self, Function.update_self]
      rfl
    · rw [Function.update_of_ne ho, Function.update_of_ne ho]
      exact hi.word o
  · exact fun o ho => Function.update_of_ne ho ..
  · refine ⟨(fun h => by cases h), fun _ => Function.update_self .., ?_⟩
    rintro pause (h | h) <;> cases h
  · intro u g hg hother honce
    refine ⟨fun h => absurd h (hidle hg hother honce), fun _ => ?_, (hi.ok u g hg).looks⟩
    rw [honce]
    exact Function.update_self ..
  · exact fun h => by cases h
  · intro h
    have hset : Function.update s.shared.rest.objects once .done once = .done := Function.update_self ..
    cases hset.symm.trans h

omit [DecidableEq Os] in
/-- The innermost call moves on by itself, while nothing else changes. -/
private theorem WordInv.goesOn (hi : WordInv os s) (hloc : s.loc t = ⟨n, once, func, stage⟩ :: fs)
    (hplatform : OnceInv os (WordSystem.platform (s.put t s.shared (⟨n, once, func, stage'⟩ :: fs))))
    (hruns : stage'.runs = stage.runs) (hback : stage' = .back → s.shared.rest.objects once = .done)
    (hpause : ∀ pause, stage' = .looks pause ∨ stage' = .naps pause → PauseOk pause) :
    WordInv os (s.put t s.shared (⟨n, once, func, stage'⟩ :: fs)) := by
  have hself := hi.ok t _ (by rw [hloc]; exact List.mem_cons_self)
  refine hi.move hloc hplatform hi.word (fun _ _ => rfl) ⟨fun h => hself.runs (hruns.symm.trans h), hback, hpause⟩
    (fun u g hg _ _ => hi.ok u g hg) (fun h => Or.inl (hruns.symm.trans h)) fun h => ?_
  by_cases hr : stage'.runs = true
  · exact Or.inl hr
  · exact Or.inr ⟨h, by rwa [← hruns]⟩

omit [DecidableEq Os] [DecidableEq Obj] in
/-- A call returns. -/
private theorem WordInv.returns {func' : SppcClosure} (hi : WordInv os s)
    (hloc : s.loc t = ⟨n, once, func, .back⟩ :: fs) (hplatform : OnceInv os (WordSystem.platform
      (s.put t { s.shared with rest := s.shared.rest.settle (os t) (t, n) func' } fs))) :
    WordInv os (s.put t { s.shared with rest := s.shared.rest.settle (os t) (t, n) func' } fs) := by
  have hbody := hi.body t
  rw [hloc] at hbody
  refine hi.still hplatform rfl rfl (fun f hf => hbody f (List.mem_of_mem_tail hf)) ?_ ?_
  · intro f hf
    rw [hloc]
    exact Or.inl (List.mem_cons_of_mem _ hf)
  · intro f hf hr
    rw [hloc] at hf
    rcases List.mem_cons.1 hf with rfl | hf
    · cases hr
    · exact hf

omit [DecidableEq Obj] in
/-- A call begins. -/
private theorem WordInv.begins (hi : WordInv os s) (hbody : ∀ f ∈ (s.loc t).head?, f.stage = .body)
    (hplatform : OnceInv os (WordSystem.platform (s.put t { s.shared with rest := s.shared.rest.begin (os t) t func }
      (⟨n, once, func, .tries⟩ :: s.loc t)))) :
    WordInv os (s.put t { s.shared with rest := s.shared.rest.begin (os t) t func }
      (⟨n, once, func, .tries⟩ :: s.loc t)) := by
  refine hi.still hplatform rfl rfl ?_ ?_ ?_
  · have htail := hi.body t
    intro f hf
    cases hloc : s.loc t with
    | nil =>
      rw [hloc] at hf
      cases hf
    | cons g fs =>
      rw [hloc] at hf hbody htail
      rcases List.mem_cons.1 hf with rfl | hf
      · exact hbody f rfl
      · exact htail f hf
  · intro f hf
    rcases List.mem_cons.1 hf with rfl | hf
    · exact Or.inr rfl
    · exact Or.inl hf
  · exact fun f hf _ => List.mem_cons_of_mem _ hf

end

private theorem WordInv.act (hi : WordInv os s) (hact : wordOnceAct os t i s.shared (s.loc t) = some (h', fs')) :
    WordInv os (s.put t h' fs') ∧ Reach (onceStep os) s.platform (WordSystem.platform (s.put t h' fs')) := by
  obtain ⟨hrunning, hs⟩ := wordOnceAct_step (hi.ok t) hact
  have hreach : Reach (onceStep os) s.platform (WordSystem.platform (s.put t h' fs')) := by
    rcases hs.platform hrunning hi.word with heq | ⟨e, he⟩
    · rw [heq]
      exact Reach.refl _
    · exact (Reach.refl _).head he
  have hplatform : OnceInv os (WordSystem.platform (s.put t h' fs')) :=
    hreach.invariant (P := OnceInv os) (fun _ _ _ hi hstep => hi.step hstep) hi.platform
  refine ⟨?_, hreach⟩
  generalize hloc : s.loc t = fs at hs
  cases hs with
  | entry hzero hr => exact hi.enters hloc hzero hplatform
  | finish =>
    refine hi.goesOn hloc hplatform rfl (fun h => by cases h) ?_
    rintro pause (h | h) <;> cases h
  | store => exact hi.stores hloc hplatform
  | done htwo =>
    rename_i n once func fs pause
    have hdone : s.shared.rest.objects once = .done := OnceState.word_done ((hi.word once).symm.trans htwo)
    refine hi.goesOn hloc hplatform rfl (fun _ => hdone) ?_
    rintro pause (h | h) <;> cases h
  | waits hstage hstage' hpause =>
    rename_i n once func fs stage stage'
    have hidle {stage : WordStage} (h : stage.platform = .platform) : stage.runs = false ∧ stage ≠ .back := by
      cases stage <;> first | (cases h; done) | exact ⟨rfl, fun h => by cases h⟩
    exact hi.goesOn hloc hplatform ((hidle hstage').1.trans (hidle hstage).1.symm)
      (fun h => absurd h (hidle hstage').2) hpause
  | settle => exact hi.returns hloc hplatform
  | call hbody =>
    subst hloc
    exact hi.begins hbody hplatform
  | turn hbody hu =>
    subst hloc
    exact hi.still hplatform rfl rfl (hi.body t) (fun f hf => Or.inl hf) fun f hf _ => hf

omit [DecidableEq Os] [DecidableEq Task] [DecidableEq Obj] in
private theorem WordInv.init (os : Task → Os) (running : Os → Task) :
    WordInv os (.init running : WordSystem Os Task Obj) where
  platform := OnceInv.init os running
  word _ := rfl
  ok _ f hf := (List.not_mem_nil hf).elim
  body _ f hf := (List.not_mem_nil hf).elim
  runner _ h := by cases h
  one _ _ f hf := (List.not_mem_nil hf).elim

/-! ### Every run -/

/-- What holds of the once on an int: whatever the tasks do, they could have done with the platform's once, and
whatever a task does next, it does there in one step or none; the function of an object is called once at most, by the
only call there is while the int says so; and whoever is back finds it done. -/
structure WordOk (os : Task → Os) (running : Os → Task) (s : WordSystem Os Task Obj) : Prop where
  platform : Reach (onceStep os) (.init running) s.platform
  steps : ∀ t i s', wordOnceStep os s (.thread t i) = some s' →
    s'.platform = s.platform ∨ ∃ i', onceStep os s.platform (.thread t i') = some s'.platform
  once : ∀ o, s.shared.rest.closures o = if s.shared.word o = SPPC_ONCE_INIT then 0 else 1
  runner : ∀ o, s.shared.word o = SPPC_ONCE_RUNNING → ∃ t, ∃ f ∈ s.loc t, f.once = o ∧ f.stage.runs ∧
    ∀ u, ∀ g ∈ s.loc u, g.once = o → g.stage.runs → u = t ∧ g.n = f.n
  back : ∀ t, ∀ f ∈ s.loc t, f.stage = .back → s.shared.word f.once = SPPC_ONCE_DONE
  pauses : ∀ t, ∀ f ∈ s.loc t, ∀ pause, f.stage = .looks pause ∨ f.stage = .naps pause → PauseOk pause

theorem wordOnce_ok {running : Os → Task} (h : Reach (wordOnceStep os) (.init running) s) : WordOk os running s := by
  have hsim : ∀ (t : WordSystem Os Task Obj) e t' b, (WordInv os t ∧ b = t.platform) → wordOnceStep os t e = some t' →
      ∃ b', Reach (onceStep os) b b' ∧ WordInv os t' ∧ b' = t'.platform := by
    rintro t e t' b ⟨hi, rfl⟩ hstep
    cases e with
    | thread u i =>
      obtain ⟨h', l', hact, rfl⟩ := step_thread.1 hstep
      obtain ⟨hi', hreach⟩ := hi.act hact
      exact ⟨_, hreach, hi', rfl⟩
    | env e => exact e.elim
  obtain ⟨a, ha, hi, rfl⟩ := h.simulation (R := fun s a => WordInv os s ∧ a = s.platform) hsim
    ⟨WordInv.init os running, rfl⟩
  have hobj {o : Obj} {state : OnceState} (h : s.shared.rest.objects o = state) : s.shared.word o = state.word := by
    rw [hi.word o, h]
  refine ⟨ha, ?_, ?_, ?_, ?_, fun t f hf => (hi.ok t f hf).looks⟩
  · intro t i s' hstep
    obtain ⟨h', fs', hact, rfl⟩ := step_thread.1 hstep
    obtain ⟨hrunning, hs⟩ := wordOnceAct_step (hi.ok t) hact
    exact hs.platform hrunning hi.word
  · intro o
    have hcount := hi.platform.objects o
    show s.platform.shared.closures o = _
    rw [hcount, hi.word o]
    show (if s.shared.rest.objects o = .init then 0 else 1) = _
    cases s.shared.rest.objects o <;> rfl
  · intro o ho
    have hrun : s.shared.rest.objects o = .running := OnceState.word_running ((hi.word o).symm.trans ho)
    obtain ⟨t, f, hf, hfo, hfr⟩ := hi.runner o hrun
    refine ⟨t, f, hf, hfo, hfr, fun u g hg hgo hgr => ?_⟩
    exact hi.one u t g hg f hf hgr hfr (hgo.trans hfo.symm)
  · exact fun t f hf hb => hobj ((hi.ok t f hf).back hb)

/-- Two OS threads call, the second while the first runs the function: it naps until that is done. -/
theorem wordOnce_ok_nap : ∃ s : WordSystem (Fin 2) (Fin 2) Unit, WordOk id id s ∧
    s.shared.word () = SPPC_ONCE_DONE ∧ s.shared.rest.closures () = 1 ∧ s.shared.rest.runs (1, 0) = 0 := by
  have hrun : (Transition.run (wordOnceStep id) (.init id)
      [.thread 0 (.call () ⟨0, none⟩), .thread 1 (.call () ⟨1, none⟩), .thread 0 .run, .thread 1 .run, .thread 1 .run,
        .thread 0 .finish, .thread 0 .run, .thread 1 .run, .thread 1 .run]).map
          (fun s : WordSystem (Fin 2) (Fin 2) Unit =>
            (s.shared.word (), s.shared.rest.closures (), s.shared.rest.runs (1, 0))) =
      some (SPPC_ONCE_DONE, 1, 0) := by
    decide +kernel
  obtain ⟨s, hs, heq⟩ := Option.map_eq_some_iff.1 hrun
  rw [Prod.mk.injEq, Prod.mk.injEq] at heq
  exact ⟨s, wordOnce_ok ⟨_, hs⟩, heq⟩

end Sppc
