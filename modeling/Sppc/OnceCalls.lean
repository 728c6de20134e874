import Sppc.Once

/-!
# What becomes of a closure that is run once

A call reads its own closure in `_sppc_once_entry`, for nothing else moves on its OS thread between the two.  When it
returns `_sppc_once_ran` speaks of the last call that has begun on the OS thread, which need not be this one.
-/

namespace Sppc

open Threads Transition

variable {Os Task Obj : Type}

/-- The call is the last one that has begun on its OS thread, and nothing else moves there. -/
def OnceFrame.Current (h : OnceShared Os Task Obj) (T : Os) (t : Task) (f : OnceFrame Obj) : Prop :=
  h.running T = t ∧ h.last T = some (t, f.n) ∧ h.closure T = some ((t, f.n), f.func)

/-- What holds of a call of the task `t` that has not returned. -/
structure OnceFrame.Ok (os : Task → Os) (h : OnceShared Os Task Obj) (t : Task) (f : OnceFrame Obj) : Prop where
  lt : f.n < h.next t
  uses : h.uses (t, f.n) = .untouched
  runs : h.runs (t, f.n) = 0 ∧ f.stage ≠ .body ∧ f.Current h (os t) t ∨ h.runs (t, f.n) = 1 ∧ f.stage ≠ .platform
  object : f.stage = .body → h.objects f.once ≠ .init

/-- The calls of a task, the innermost first: all the others are in their closures. -/
structure CallsOk (os : Task → Os) (h : OnceShared Os Task Obj) (t : Task) (fs : List (OnceFrame Obj)) : Prop where
  ok : ∀ f ∈ fs, f.Ok os h t
  body : ∀ f ∈ fs.tail, f.stage = .body
  later : fs.Pairwise fun f g => g.n < f.n

/-- What the environment of a call that has returned has come to. -/
structure OnceReturn.Ok (h : OnceShared Os Task Obj) (fs : List (OnceFrame Obj)) (r : OnceReturn Task) : Prop where
  lt : r.call.2 < h.next r.call.1
  closed : ∀ f ∈ fs, f.n ≠ r.call.2
  uses : h.uses r.call =
    if r.lastRan then EnvUse.untouched.free r.func.env else EnvUse.untouched.discard r.func
  notRun : h.runs r.call = 0 → r.lastRan = false

structure OnceInv (os : Task → Os) (s : OnceSystem Os Task Obj) : Prop where
  calls : ∀ t, CallsOk os s.shared t (s.loc t)
  fresh : ∀ t n, s.shared.next t ≤ n → s.shared.runs (t, n) = 0 ∧ s.shared.uses (t, n) = .untouched
  runs : ∀ c, s.shared.runs c ≤ 1
  ran : ∀ T, s.shared.ran T = s.shared.lastRan T
  last : ∀ T c, s.shared.last T = some c → os c.1 = T
  objects : ∀ o, s.shared.closures o = if s.shared.objects o = .init then 0 else 1
  returned : ∀ r ∈ s.shared.returned, r.Ok s.shared (s.loc r.call.1)

variable {os : Task → Os} {s s' : OnceSystem Os Task Obj} {t u : Task} {i : OnceInput Task Obj}
  {h h' : OnceShared Os Task Obj} {f : OnceFrame Obj} {fs fs' : List (OnceFrame Obj)} {n : Nat} {once : Obj}
  {func : SppcClosure} {r : OnceReturn Task}

/-! ### What a step leaves alone -/

/-- A step of the task `t` leaves the calls of the other tasks alone, and the other OS threads. -/
structure OnceKeeps (os : Task → Os) (t : Task) (h h' : OnceShared Os Task Obj) : Prop where
  next : ∀ u ≠ t, h'.next u = h.next u
  runs : ∀ u n, u ≠ t → h'.runs (u, n) = h.runs (u, n)
  uses : ∀ u n, u ≠ t → h'.uses (u, n) = h.uses (u, n)
  running : ∀ T ≠ os t, h'.running T = h.running T
  last : ∀ T ≠ os t, h'.last T = h.last T
  closure : ∀ T ≠ os t, h'.closure T = h.closure T
  ran : ∀ T ≠ os t, h'.ran T = h.ran T
  objects : ∀ o, h.objects o ≠ .init → h'.objects o ≠ .init

private theorem OnceFrame.Ok.others (hf : f.Ok os h u) (hrunning : h.running (os t) = t) (hk : OnceKeeps os t h h')
    (hu : u ≠ t) : f.Ok os h' u := by
  refine ⟨by rw [hk.next u hu]; exact hf.lt, by rw [hk.uses u _ hu]; exact hf.uses, ?_,
    fun hbody => hk.objects _ (hf.object hbody)⟩
  rw [hk.runs u _ hu]
  rcases hf.runs with ⟨hruns, hstage, hrun, hlast, hclosure⟩ | hrun
  · have hos : os u ≠ os t := by
      intro heq
      rw [heq, hrunning] at hrun
      exact hu hrun.symm
    refine Or.inl ⟨hruns, hstage, ?_, ?_, ?_⟩
    · rw [hk.running _ hos]
      exact hrun
    · rw [hk.last _ hos]
      exact hlast
    · rw [hk.closure _ hos]
      exact hclosure
  · exact Or.inr hrun

private theorem CallsOk.others (hc : CallsOk os h u fs) (hrunning : h.running (os t) = t) (hk : OnceKeeps os t h h')
    (hu : u ≠ t) : CallsOk os h' u fs :=
  ⟨fun f hf => (hc.ok f hf).others hrunning hk hu, hc.body, hc.later⟩

/-- A call that has run its closure keeps what holds of it, whatever its OS thread has done since. -/
private theorem OnceFrame.Ok.own (hf : f.Ok os h t) (hruns : h.runs (t, f.n) = 1) (hstage : f.stage ≠ .platform)
    (hnext : h.next t ≤ h'.next t) (hsame : h'.runs (t, f.n) = h.runs (t, f.n))
    (huses : h'.uses (t, f.n) = h.uses (t, f.n)) (hobjects : ∀ o, h.objects o ≠ .init → h'.objects o ≠ .init) :
    f.Ok os h' t where
  lt := lt_of_lt_of_le hf.lt hnext
  uses := huses.trans hf.uses
  runs := Or.inr ⟨hsame.trans hruns, hstage⟩
  object hbody := hobjects _ (hf.object hbody)

private theorem OnceFrame.Ok.runs_of_body (hf : f.Ok os h t) (hstage : f.stage = .body) : h.runs (t, f.n) = 1 := by
  rcases hf.runs with ⟨-, hne, -⟩ | ⟨hruns, -⟩
  · exact absurd hstage hne
  · exact hruns

theorem OnceKeeps.refl (os : Task → Os) (t : Task) (h : OnceShared Os Task Obj) : OnceKeeps os t h h :=
  ⟨fun _ _ => rfl, fun _ _ _ => rfl, fun _ _ _ => rfl, fun _ _ => rfl, fun _ _ => rfl, fun _ _ => rfl,
    fun _ _ => rfl, fun _ ho => ho⟩

private theorem OnceReturn.Ok.others (hr : r.Ok h fs) (hk : OnceKeeps os t h h') (hne : r.call.1 ≠ t) :
    r.Ok h' fs where
  lt := by
    rw [hk.next _ hne]
    exact hr.lt
  closed := hr.closed
  uses := (hk.uses _ _ hne).trans hr.uses
  notRun hruns := hr.notRun ((hk.runs _ _ hne).symm.trans hruns)

/-- A step that leaves the last call on an OS thread alone, and whether it has run its closure. -/
private theorem OnceKeeps.lastRan (hk : OnceKeeps os t h h') (hlast : ∀ T c, h.last T = some c → os c.1 = T) {T : Os}
    (hT : T ≠ os t) : h'.lastRan T = h.lastRan T := by
  unfold OnceShared.lastRan
  rw [hk.last T hT]
  cases hc : h.last T with
  | none => rfl
  | some c =>
    have hne : c.1 ≠ t := by
      intro heq
      rw [← heq] at hT
      exact hT (hlast T c hc).symm
    rw [Option.any_some, Option.any_some, hk.runs c.1 c.2 hne]

theorem CallsOk.head (hc : CallsOk os h t (f :: fs)) : f.Ok os h t := hc.ok f List.mem_cons_self

/-- The calls below the innermost one are in their closures, and are other calls. -/
theorem CallsOk.below (hc : CallsOk os h t (f :: fs)) {g : OnceFrame Obj} (hg : g ∈ fs) :
    g.Ok os h t ∧ g.stage = .body ∧ g.n < f.n :=
  ⟨hc.ok g (List.mem_cons_of_mem f hg), hc.body g hg, (List.pairwise_cons.1 hc.later).1 g hg⟩

/-- Where a task is outside all calls or in a closure, all its calls are in their closures. -/
private theorem CallsOk.all_body (hc : CallsOk os h t fs) (hbody : ∀ f ∈ fs.head?, f.stage = .body) :
    ∀ f ∈ fs, f.stage = .body := by
  cases fs with
  | nil => exact fun f hf => (List.not_mem_nil hf).elim
  | cons f fs =>
    intro g hg
    rcases List.mem_cons.1 hg with rfl | hg
    · exact hbody g rfl
    · exact hc.body g hg

/-- The innermost call moves on. -/
theorem CallsOk.move {stage : OnceStage} (hc : CallsOk os h t (⟨n, once, func, f.stage⟩ :: fs))
    (hok : OnceFrame.Ok os h' t ⟨n, once, func, stage⟩) (hnext : h'.next t = h.next t)
    (hruns : ∀ k < n, h'.runs (t, k) = h.runs (t, k)) (huses : ∀ k < n, h'.uses (t, k) = h.uses (t, k))
    (hobjects : ∀ o, h.objects o ≠ .init → h'.objects o ≠ .init) :
    CallsOk os h' t (⟨n, once, func, stage⟩ :: fs) where
  ok := by
    intro g hg
    rcases List.mem_cons.1 hg with rfl | hg
    · exact hok
    · obtain ⟨hgok, hstage, hlt⟩ := hc.below hg
      refine hgok.own (hgok.runs_of_body hstage) (by rw [hstage]; simp) hnext.ge (hruns _ hlt) (huses _ hlt) hobjects
  body := hc.body
  later := List.pairwise_cons.2 (List.pairwise_cons.1 hc.later)

/-- A step that keeps the numbers of the calls that have returned, and opens none of them again. -/
private theorem OnceInv.returned_keep (hi : OnceInv os s) (hnext : s.shared.next t ≤ h'.next t)
    (hsame : ∀ k, (∀ g ∈ s.loc t, g.n ≠ k) → k < s.shared.next t →
      h'.runs (t, k) = s.shared.runs (t, k) ∧ h'.uses (t, k) = s.shared.uses (t, k))
    (hopen : ∀ f ∈ fs', (∃ g ∈ s.loc t, g.n = f.n) ∨ s.shared.next t ≤ f.n) (hr : r ∈ s.shared.returned) :
    (r ∈ s.shared.returned ∧ r.call.1 ≠ t) ∨ (r.call.1 = t ∧ r.Ok h' fs') := by
  by_cases heq : r.call.1 = t
  · obtain ⟨⟨v, k⟩, func, b⟩ := r
    cases heq
    obtain ⟨hlt, hclosed, huses, hnot⟩ := hi.returned _ hr
    obtain ⟨hr', hu'⟩ := hsame k hclosed hlt
    refine Or.inr ⟨rfl, lt_of_lt_of_le hlt hnext, fun f hf => ?_, hu'.trans huses, fun h0 => hnot (hr'.symm.trans h0)⟩
    rcases hopen f hf with ⟨g, hg, hgn⟩ | hge
    · rw [← hgn]
      exact hclosed g hg
    · exact Nat.ne_of_gt (lt_of_lt_of_le hlt hge)
  · exact Or.inl ⟨hr, heq⟩

/-- The calls that a call which only moves on leaves open. -/
private theorem OnceFrame.opens_move {stage stage' : OnceStage} {k : Nat}
    (hloc : s.loc t = ⟨n, once, func, stage⟩ :: fs) :
    ∀ f ∈ ⟨n, once, func, stage'⟩ :: fs, (∃ g ∈ s.loc t, g.n = f.n) ∨ k ≤ f.n := by
  intro f hf
  rw [hloc]
  rcases List.mem_cons.1 hf with rfl | hf
  · exact Or.inl ⟨_, List.mem_cons_self, rfl⟩
  · exact Or.inl ⟨f, List.mem_cons_of_mem _ hf, rfl⟩

variable [DecidableEq Task]

/-- A task takes a step, which has to keep only what holds of the task itself. -/
theorem OnceInv.put (hi : OnceInv os s) (hrunning : s.shared.running (os t) = t) (hk : OnceKeeps os t s.shared h')
    (hcalls : CallsOk os h' t fs')
    (hfresh : ∀ n, h'.next t ≤ n → h'.runs (t, n) = 0 ∧ h'.uses (t, n) = .untouched)
    (hruns : ∀ n, h'.runs (t, n) ≤ 1) (hran : h'.ran (os t) = h'.lastRan (os t))
    (hlast : ∀ c, h'.last (os t) = some c → os c.1 = os t)
    (hobjects : ∀ o, h'.closures o = if h'.objects o = .init then 0 else 1)
    (hreturned : ∀ r ∈ h'.returned, (r ∈ s.shared.returned ∧ r.call.1 ≠ t) ∨ (r.call.1 = t ∧ r.Ok h' fs')) :
    OnceInv os (s.put t h' fs') where
  calls := State.put_forall (P := fun u fs => CallsOk os h' u fs) hcalls
    fun u hu => (hi.calls u).others hrunning hk hu
  fresh u n hn := by
    rw [State.put_shared] at hn ⊢
    by_cases hu : u = t
    · subst hu
      exact hfresh n hn
    · rw [hk.next u hu] at hn
      rw [hk.runs u n hu, hk.uses u n hu]
      exact hi.fresh u n hn
  runs c := by
    obtain ⟨u, n⟩ := c
    rw [State.put_shared]
    by_cases hu : u = t
    · subst hu
      exact hruns n
    · rw [hk.runs u n hu]
      exact hi.runs _
  ran T := by
    rw [State.put_shared]
    by_cases hT : T = os t
    · subst hT
      exact hran
    · rw [hk.ran T hT, hk.lastRan hi.last hT]
      exact hi.ran T
  last T c hc := by
    rw [State.put_shared] at hc
    by_cases hT : T = os t
    · subst hT
      exact hlast c hc
    · rw [hk.last T hT] at hc
      exact hi.last T c hc
  objects := hobjects
  returned r hr := by
    rw [State.put_shared] at hr ⊢
    rcases hreturned r hr with ⟨hold, hne⟩ | ⟨heq, hok⟩
    · rw [State.put_of_ne hne]
      exact (hi.returned r hold).others hk hne
    · rw [heq, State.put_self]
      exact hok

/-! ### The steps -/

variable [DecidableEq Os] [DecidableEq Obj]

omit [DecidableEq Os] [DecidableEq Obj] in
/-- The platform's once returns and has run nothing. -/
private theorem OnceInv.skip (hi : OnceInv os s) (hrunning : s.shared.running (os t) = t)
    (hloc : s.loc t = ⟨n, once, func, .platform⟩ :: fs) :
    OnceInv os (s.put t s.shared (⟨n, once, func, .back⟩ :: fs)) := by
  have hc := hi.calls t
  rw [hloc] at hc
  have hruns := hc.head.runs.resolve_right fun h => h.2 rfl
  refine hi.put hrunning (.refl os t s.shared) ?_ (hi.fresh t) (fun n => hi.runs _) (hi.ran _) (hi.last _) hi.objects
    fun r hr => hi.returned_keep le_rfl (fun _ _ _ => ⟨rfl, rfl⟩) (OnceFrame.opens_move hloc) hr
  exact hc.move (f := ⟨n, once, func, .platform⟩)
    ⟨hc.head.lt, hc.head.uses, Or.inl ⟨hruns.1, by simp, hruns.2.2⟩, by simp⟩ rfl (fun _ _ => rfl) (fun _ _ => rfl)
    fun _ ho => ho

omit [DecidableEq Os] in
/-- The closure returns to the platform's once, which returns. -/
theorem OnceInv.finish (hi : OnceInv os s) (hrunning : s.shared.running (os t) = t)
    (hloc : s.loc t = ⟨n, once, func, .body⟩ :: fs) :
    OnceInv os (s.put t { s.shared with objects := Function.update s.shared.objects once .done }
      (⟨n, once, func, .back⟩ :: fs)) := by
  have hc := hi.calls t
  rw [hloc] at hc
  have hruns := hc.head.runs_of_body rfl
  have hobjects (o : Obj) (ho : s.shared.objects o ≠ .init) :
      Function.update s.shared.objects once .done o ≠ .init := by
    by_cases heq : o = once
    · subst heq
      simp
    · rw [Function.update_of_ne heq]
      exact ho
  refine hi.put hrunning { OnceKeeps.refl os t s.shared with objects := hobjects } ?_ (hi.fresh t)
    (fun n => hi.runs _) (hi.ran _) (hi.last _) (fun o => ?_)
    fun r hr => hi.returned_keep le_rfl (fun _ _ _ => ⟨rfl, rfl⟩) (OnceFrame.opens_move hloc) hr
  · exact hc.move (f := ⟨n, once, func, .body⟩)
      ⟨hc.head.lt, hc.head.uses, Or.inr ⟨hruns, by simp⟩, by simp⟩ rfl (fun _ _ => rfl) (fun _ _ => rfl) hobjects
  · show s.shared.closures o = _
    rw [hi.objects]
    by_cases heq : o = once
    · subst heq
      rw [if_neg (hc.head.object rfl), if_neg (by simp)]
    · simp only [Function.update_of_ne heq]

/-- The platform's once calls `_sppc_once_entry`, which finds the closure of this very call. -/
theorem OnceInv.entry (hi : OnceInv os s) (hrunning : s.shared.running (os t) = t)
    (hloc : s.loc t = ⟨n, once, func, .platform⟩ :: fs) (hinit : s.shared.objects once = .init) :
    s.shared.closure (os t) = some ((t, n), func) ∧
      OnceInv os (s.put t (s.shared.entry (os t) once (t, n)) (⟨n, once, func, .body⟩ :: fs)) := by
  have hc := hi.calls t
  rw [hloc] at hc
  obtain ⟨h0, -, -, hlast, hclosure⟩ := hc.head.runs.resolve_right fun h => h.2 rfl
  have hone : (s.shared.entry (os t) once (t, n)).runs (t, n) = 1 :=
    (Function.update_self _ _ _).trans (congrArg (· + 1) h0)
  have hruns (u : Task) (k : Nat) (hne : (u, k) ≠ (t, n)) :
      (s.shared.entry (os t) once (t, n)).runs (u, k) = s.shared.runs (u, k) := Function.update_of_ne hne _ _
  have hobjects (o : Obj) (ho : s.shared.objects o ≠ .init) :
      (s.shared.entry (os t) once (t, n)).objects o ≠ .init := by
    have hne : o ≠ once := by
      rintro rfl
      exact ho hinit
    exact (Function.update_of_ne hne _ _).trans_ne ho
  refine ⟨hclosure, hi.put hrunning { OnceKeeps.refl os t s.shared with
    runs := fun u k hu => hruns u k (by simp [hu]), ran := fun T hT => Function.update_of_ne hT _ _,
    objects := hobjects } ?_ (fun k hk => ?_) (fun k => ?_) ?_ (hi.last _) (fun o => ?_) fun r hr => ?_⟩
  · refine hc.move (f := ⟨n, once, func, .platform⟩)
      ⟨hc.head.lt, hc.head.uses, Or.inr ⟨hone, by simp⟩, fun _ => ?_⟩ rfl (fun k hk => hruns t k ?_) (fun _ _ => rfl)
      hobjects
    · exact (Function.update_self once _ _).trans_ne (by simp)
    · simp only [ne_eq, Prod.mk.injEq, true_and]
      omega
  · have hlt := hc.head.lt
    have hne : (t, k) ≠ (t, n) := by
      rintro ⟨⟩
      exact absurd hk (Nat.not_le_of_lt hlt)
    rw [hruns t k hne]
    exact hi.fresh t k hk
  · by_cases heq : k = n
    · subst heq
      rw [hone]
    · rw [hruns t k (by simpa using heq)]
      exact hi.runs _
  · have hthis : (s.shared.entry (os t) once (t, n)).lastRan (os t) = true := by
      show (s.shared.last (os t)).any _ = true
      rw [hlast, Option.any_some, hone]
      rfl
    rw [hthis]
    exact Function.update_self _ _ _
  · by_cases heq : o = once
    · subst heq
      have hzero := hi.objects o
      rw [if_pos hinit] at hzero
      simp only [OnceShared.entry, Function.update_self, hzero]
      rfl
    · simp only [OnceShared.entry, Function.update_of_ne heq]
      exact hi.objects o
  · refine hi.returned_keep le_rfl (fun k hk _ => ⟨hruns t k ?_, rfl⟩) (OnceFrame.opens_move hloc) hr
    rintro ⟨⟩
    exact hk _ (by rw [hloc]; exact List.mem_cons_self) rfl

omit [DecidableEq Os] [DecidableEq Obj] in
/-- A call returns. -/
theorem OnceInv.settle (hi : OnceInv os s) (hrunning : s.shared.running (os t) = t)
    (hloc : s.loc t = ⟨n, once, func, .back⟩ :: fs) :
    OnceInv os (s.put t (s.shared.settle (os t) (t, n) func) fs) := by
  have hc := hi.calls t
  rw [hloc] at hc
  have huses (u : Task) (k : Nat) (hne : (u, k) ≠ (t, n)) :
      (s.shared.settle (os t) (t, n) func).uses (u, k) = s.shared.uses (u, k) := Function.update_of_ne hne _ _
  have hbelow {g : OnceFrame Obj} (hg : g ∈ fs) : (t, g.n) ≠ (t, n) := by
    rintro ⟨⟩
    exact absurd (hc.below hg).2.2 (lt_irrefl _)
  refine hi.put hrunning { OnceKeeps.refl os t s.shared with uses := fun u k hu => huses u k (by simp [hu]) }
    ⟨fun g hg => ?_, fun g hg => ?_, (List.pairwise_cons.1 hc.later).2⟩ (fun k hk => ?_) (fun k => hi.runs _)
    (hi.ran _) (hi.last _) hi.objects fun r hr => ?_
  · obtain ⟨hgok, hstage, -⟩ := hc.below hg
    exact hgok.own (hgok.runs_of_body hstage) (by rw [hstage]; simp) le_rfl rfl (huses _ _ (hbelow hg)) fun _ ho => ho
  · exact (hc.below (List.mem_of_mem_tail hg)).2.1
  · have hlt := hc.head.lt
    have hne : (t, k) ≠ (t, n) := by
      rintro ⟨⟩
      exact absurd hk (Nat.not_le_of_lt hlt)
    rw [huses t k hne]
    exact hi.fresh t k hk
  · rcases List.mem_append.1 hr with hr | hr
    · refine hi.returned_keep le_rfl (fun k hk _ => ⟨rfl, huses t k ?_⟩) (fun f hf => Or.inl ⟨f, ?_, rfl⟩) hr
      · rintro ⟨⟩
        exact hk _ (by rw [hloc]; exact List.mem_cons_self) rfl
      · rw [hloc]
        exact List.mem_cons_of_mem _ hf
    · rw [List.mem_singleton.1 hr]
      refine Or.inr ⟨rfl, hc.head.lt, fun g hg => (hc.below hg).2.2.ne, ?_, fun h0 => ?_⟩
      · rw [← hi.ran]
        show Function.update _ _ _ _ = _
        rw [Function.update_self, hc.head.uses]
      · obtain ⟨-, -, -, hlast, -⟩ := hc.head.runs.resolve_right fun h => by
          have h0' : s.shared.runs (t, n) = 0 := h0
          exact absurd (h0'.symm.trans h.1) (by simp)
        show s.shared.lastRan (os t) = false
        have h0' : s.shared.runs (t, n) = 0 := h0
        rw [OnceShared.lastRan, hlast, Option.any_some, h0']
        rfl

omit [DecidableEq Obj] in
/-- A call begins. -/
theorem OnceInv.begin (hi : OnceInv os s) (hrunning : s.shared.running (os t) = t)
    (hbody : ∀ f ∈ (s.loc t).head?, f.stage = .body) :
    OnceInv os (s.put t (s.shared.begin (os t) t func) (⟨s.shared.next t, once, func, .platform⟩ :: s.loc t)) := by
  have hc := hi.calls t
  have hall := hc.all_body hbody
  obtain ⟨hruns0, huses0⟩ := hi.fresh t (s.shared.next t) le_rfl
  have hnext : (s.shared.begin (os t) t func).next t = s.shared.next t + 1 := Function.update_self _ _ _
  have hlast : (s.shared.begin (os t) t func).last (os t) = some (t, s.shared.next t) := Function.update_self _ _ _
  refine hi.put hrunning { OnceKeeps.refl os t s.shared with
    next := fun u hu => Function.update_of_ne hu _ _
    last := fun T hT => Function.update_of_ne hT _ _
    closure := fun T hT => Function.update_of_ne hT _ _
    ran := fun T hT => Function.update_of_ne hT _ _ }
    ⟨fun g hg => ?_, hall, List.pairwise_cons.2 ⟨fun g hg => (hc.ok g hg).lt, hc.later⟩⟩ (fun k hk => ?_)
    (fun k => hi.runs _) ?_ (fun c hcall => ?_) hi.objects fun r hr => ?_
  · rcases List.mem_cons.1 hg with rfl | hg
    · refine ⟨?_, huses0, Or.inl ⟨hruns0, by simp, hrunning, hlast, Function.update_self _ _ _⟩, by simp⟩
      rw [hnext]
      exact Nat.lt_succ_self _
    · have hgok := hc.ok g hg
      exact hgok.own (hgok.runs_of_body (hall g hg)) (by rw [hall g hg]; simp) (by rw [hnext]; omega) rfl rfl
        fun _ ho => ho
  · rw [hnext] at hk
    exact hi.fresh t k (by omega)
  · rw [OnceShared.lastRan, hlast, Option.any_some]
    show Function.update s.shared.ran (os t) false (os t) = decide (0 < s.shared.runs (t, s.shared.next t))
    rw [Function.update_self, hruns0]
    rfl
  · rw [hlast] at hcall
    cases hcall
    rfl
  · refine hi.returned_keep (by rw [hnext]; omega) (fun _ _ _ => ⟨rfl, rfl⟩) (fun f hf => ?_) hr
    rcases List.mem_cons.1 hf with rfl | hf
    · exact Or.inr le_rfl
    · exact Or.inl ⟨f, hf, rfl⟩

omit [DecidableEq Obj] in
/-- An OS thread goes on with another of its tasks. -/
theorem OnceInv.turn (hi : OnceInv os s) (hrunning : s.shared.running (os t) = t)
    (hbody : ∀ f ∈ (s.loc t).head?, f.stage = .body) (u : Task) :
    OnceInv os (s.put t { s.shared with running := Function.update s.shared.running (os t) u } (s.loc t)) := by
  have hc := hi.calls t
  have hall := hc.all_body hbody
  refine hi.put hrunning { OnceKeeps.refl os t s.shared with
    running := fun T hT => Function.update_of_ne hT _ _ }
    ⟨fun g hg => ?_, hc.body, hc.later⟩ (hi.fresh t) (fun k => hi.runs _) (hi.ran _)
      (hi.last _) hi.objects fun r hr => ?_
  · have hgok := hc.ok g hg
    exact hgok.own (hgok.runs_of_body (hall g hg)) (by rw [hall g hg]; simp) le_rfl rfl rfl fun _ ho => ho
  · exact hi.returned_keep le_rfl (fun _ _ _ => ⟨rfl, rfl⟩) (fun f hf => Or.inl ⟨f, hf, rfl⟩) hr

theorem OnceInv.act (hi : OnceInv os s) (hact : onceAct os t i s.shared (s.loc t) = some (h', fs')) :
    OnceInv os (s.put t h' fs') := by
  unfold onceAct at hact
  split at hact
  · cases hact
  rename_i hrunning
  rw [not_not] at hrunning
  split at hact
  case h_1 n once func fs hloc =>
    split at hact
    case h_1 hinit =>
      obtain ⟨r, hr, heq⟩ := Option.map_eq_some_iff.1 hact
      obtain ⟨hclosure, hentry⟩ := hi.entry hrunning hloc hinit
      rw [hclosure] at hr
      cases hr
      cases heq
      exact hentry
    case h_2 =>
      cases hact
      exact hi.skip hrunning hloc
    case h_3 => cases hact
  case h_2 n once func fs hloc =>
    cases hact
    exact hi.skip hrunning hloc
  case h_3 n once func fs hloc =>
    cases hact
    exact hi.finish hrunning hloc
  case h_4 n once func fs hloc =>
    cases hact
    exact hi.settle hrunning hloc
  case h_5 once func =>
    split at hact <;> cases hact
    rename_i hbody
    exact hi.begin hrunning hbody
  case h_6 u =>
    split at hact <;> cases hact
    rename_i hcond
    exact hi.turn hrunning hcond.1 u
  case h_7 => cases hact

theorem OnceInv.step {e : OnceEvent Task Obj} (hi : OnceInv os s) (hstep : onceStep os s e = some s') :
    OnceInv os s' := by
  cases e with
  | thread t i =>
    obtain ⟨h, l, hact, rfl⟩ := step_thread.1 hstep
    exact hi.act hact
  | env e => exact e.elim

omit [DecidableEq Task] [DecidableEq Os] [DecidableEq Obj] in
theorem OnceInv.init (os : Task → Os) (running : Os → Task) :
    OnceInv os (.init running : OnceSystem Os Task Obj) where
  calls _ := ⟨fun f hf => (List.not_mem_nil hf).elim, fun f hf => (List.not_mem_nil hf).elim, .nil⟩
  fresh _ _ _ := ⟨rfl, rfl⟩
  runs _ := Nat.zero_le 1
  ran _ := rfl
  last _ _ h := by cases h
  objects _ := rfl
  returned r hr := (List.not_mem_nil hr).elim

/-! ### What the calls come to -/

/-- The closure has run once, and its environment was freed once with its captures never dropped, or it has not run,
and was discarded once. -/
def OnceReturn.Settled (h : OnceShared Os Task Obj) (r : OnceReturn Task) : Prop :=
  (h.runs r.call = 1 ∧ h.uses r.call = EnvUse.untouched.free r.func.env) ∨
    (h.runs r.call = 0 ∧ h.uses r.call = EnvUse.untouched.discard r.func)

/-- Each object runs one closure, and no closure runs twice.  A call settles its closure as it should exactly when the
closure has not run, or the last call to begin on the OS thread had run its own, or the environment is one that it
makes no difference to. -/
structure OnceOk (s : OnceSystem Os Task Obj) : Prop where
  objects : ∀ o, s.shared.closures o ≤ 1
  runs : ∀ c, s.shared.runs c ≤ 1
  settled : ∀ r ∈ s.shared.returned, r.Settled s.shared ↔
    s.shared.runs r.call = 0 ∨ r.lastRan ∨ EnvUse.untouched.free r.func.env = EnvUse.untouched.discard r.func

omit [DecidableEq Task] [DecidableEq Os] [DecidableEq Obj] in
theorem OnceInv.ok (hi : OnceInv os s) : OnceOk s where
  objects o := by
    rw [hi.objects]
    split <;> omega
  runs := hi.runs
  settled r hr := by
    obtain ⟨-, -, huses, hnot⟩ := hi.returned r hr
    have hle := hi.runs r.call
    unfold OnceReturn.Settled
    rw [huses]
    rcases Nat.lt_or_ge 0 (s.shared.runs r.call) with hpos | hzero
    · have hone : s.shared.runs r.call = 1 := by omega
      rw [hone]
      cases r.lastRan with
      | true => simp
      | false =>
        simp only [Bool.false_eq_true, ↓reduceIte, true_and, one_ne_zero, false_and, or_false, false_or]
        exact eq_comm
    · have h0 : s.shared.runs r.call = 0 := by omega
      rw [h0, hnot h0]
      simp

/-- In every run of tasks that call once, in the closures too. -/
theorem once_ok {running : Os → Task} (h : Reach (onceStep os) (.init running) s) : OnceOk s :=
  (h.invariant (P := OnceInv os) (fun _ _ _ hi hstep => hi.step hstep) (.init os running)).ok

section runs

/-- A closure with captures to drop, in an environment on the heap. -/
private def capturing (id : Nat) : SppcClosure := ⟨id, some ⟨id, true, true⟩⟩

/-- A call on the object 0 from inside a closure that the object 1 runs. -/
theorem once_ok_nested : ∃ s : OnceSystem Unit Unit (Fin 2), OnceOk s ∧
    s.shared.uses ((), 0) = ⟨1, 0⟩ ∧ s.shared.uses ((), 1) = ⟨1, 0⟩ := by
  have hrun : (Transition.run (onceStep fun _ => ()) (.init fun _ => ())
      [.thread () (.call 1 (capturing 0)), .thread () .run, .thread () (.call 0 (capturing 1)), .thread () .run,
        .thread () .finish, .thread () .run, .thread () .finish, .thread () .run]).map
          (fun s : OnceSystem Unit Unit (Fin 2) => (s.shared.uses ((), 0), s.shared.uses ((), 1))) =
      some (⟨1, 0⟩, ⟨1, 0⟩) := by
    decide +kernel
  obtain ⟨s, hs, heq⟩ := Option.map_eq_some_iff.1 hrun
  exact ⟨s, once_ok ⟨_, hs⟩, Prod.mk.inj heq⟩

/-- The object 0 has run its closure.  The object 1 runs one, from inside which the object 0 is asked once more: the
captures of the closure that has run are dropped. -/
theorem once_drops_captures : ∃ s : OnceSystem Unit Unit (Fin 2), Reach (onceStep fun _ => ()) (.init fun _ => ()) s ∧
    s.loc () = [] ∧ s.shared.runs ((), 1) = 1 ∧ s.shared.uses ((), 1) = ⟨1, 1⟩ := by
  have hrun : (Transition.run (onceStep fun _ => ()) (.init fun _ => ())
      [.thread () (.call 0 (capturing 0)), .thread () .run, .thread () .finish, .thread () .run,
        .thread () (.call 1 (capturing 1)), .thread () .run, .thread () (.call 0 (capturing 2)), .thread () .run,
        .thread () .run, .thread () .finish, .thread () .run]).map
          (fun s : OnceSystem Unit Unit (Fin 2) =>
            ((s.loc ()).isEmpty, s.shared.runs ((), 1), s.shared.uses ((), 1))) = some (true, 1, ⟨1, 1⟩) := by
    decide +kernel
  obtain ⟨s, hs, heq⟩ := Option.map_eq_some_iff.1 hrun
  simp only [Prod.mk.injEq, List.isEmpty_iff] at heq
  exact ⟨s, ⟨_, hs⟩, heq⟩

end runs

end Sppc
