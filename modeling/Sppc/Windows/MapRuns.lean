import Sppc.Windows.Mmap

/-!
# Runs of mappings (`platform/windows.h`)

What `sppc_mmap` and `sppc_munmap` keep, whatever the order of the calls and whichever of Windows' fail, and how long
a mapping lasts.
-/

namespace Sppc.Windows

open AddressSpace Transition

variable {sys : SystemInfo} {s s' t : MapSystem} {P P' S : Mappings} {M : Mapping} {w : MunmapWorld} {a z x b : Nat}

/-! ### The rule of the second pass -/

/-- What each step of the second pass over the pages from `a` to `z` keeps. -/
structure Unmaps (w : MunmapWorld) (a z : Nat) (Q : Mappings → Prop) : Prop where
  forget : ∀ S p i, Q S → a ≤ p → p < z → S.space.pages p = some i → i.kind = .mapped → (w.unmap i.base).isSome →
    Q (S.forget i.base)
  unmap : ∀ S p i, Q S → a ≤ p → p < z → S.space.pages p = some i → i.kind = .mapped →
    Q { S.forget i.base with space := S.space.release i.base }
  decommit : ∀ S p stop i, Q S → a ≤ p → p < stop → stop ≤ z → (∀ q, p ≤ q → q < stop → S.space.pages q = some i) →
    i.kind = .priv → Q { S with space := S.space.decommit p stop }
  release : ∀ S p i, Q S → a ≤ p → p < z → S.space.pages p = some i → i.kind = .priv →
    Q { S with space := S.space.release i.base }

/-- The second pass ends, and keeps what its steps keep. -/
private theorem Unmaps.walk {Q : Mappings → Prop} (h : Unmaps w a z Q) {n p : Nat} (hfuel : z ≤ n + p) (hap : a ≤ p)
    (hS : Q S) : ∃ err S', munmapWalk w true a z n p S = some (err, S') ∧ Q S' := by
  induction n generalizing p S with
  | zero =>
    rw [munmapWalk, if_neg (by omega)]
    exact ⟨none, S, rfl, hS⟩
  | succ n ih =>
    rw [munmapWalk]
    by_cases hpz : p < z
    case neg =>
      rw [if_pos hpz]
      exact ⟨none, S, rfl, hS⟩
    rw [if_neg (not_not.2 hpz)]
    cases hquery : S.space.query p with
    | none => exact ⟨none, S, rfl, hS⟩
    | some o =>
      obtain ⟨o, next⟩ := o
      obtain ⟨hlt, -, hsame⟩ := query_eq_some hquery
      cases o with
      | none => exact ih (by omega) (by omega) hS
      | some i =>
        have hhere := hsame p (Nat.le_refl p) hlt
        dsimp only
        split
        · exact ih (by omega) (by omega) hS
        cases hk : i.kind with
        | image => exact ⟨_, S, rfl, hS⟩
        | mapped =>
          obtain ⟨e, he, hin⟩ := winAllocEnd_spec (in_of_pages hhere)
          have hpe : p < e := ((hin p).1 (in_of_pages hhere)).2
          dsimp only
          rw [he, Option.bind_some, if_neg (not_not.2 rfl)]
          cases hunmap : w.unmap i.base with
          | some e => exact ⟨_, _, rfl, h.forget S p i hS hap hpz hhere hk (by rw [hunmap]; rfl)⟩
          | none => exact ih (by omega) (by omega) (h.unmap S p i hS hap hpz hhere hk)
        | priv =>
          dsimp only
          rw [if_neg (not_not.2 rfl)]
          cases w.decommit p with
          | some e => exact ⟨_, S, rfl, hS⟩
          | none =>
            dsimp only
            have hstop : p < (if next < z then next else z) ∧ (if next < z then next else z) ≤ next ∧
                (if next < z then next else z) ≤ z := by
              split
              · omega
              · omega
            generalize (if next < z then next else z) = stop at hstop
            have hS' := h.decommit S p stop i hS hap hstop.1 hstop.2.2 (fun q hq hqs => hsame q hq (by omega)) hk
            have hgone : (S.space.decommit p stop).pages p = some { i with commit := false, protect := 0 } := by
              rw [pages_decommit, if_pos ⟨Nat.le_refl p, hstop.1⟩, hhere]
              rfl
            obtain ⟨left, hleft, -⟩ := anyLeft_spec (in_of_pages hgone)
            rw [hleft, Option.bind_some]
            apply ih (by omega) (by omega)
            split
            · exact h.release _ p { i with commit := false, protect := 0 } hS' hap hpz hgone hk
            · exact hS'

/-- An unmap ends, and keeps what the steps of its second pass keep: it comes to those only if the range can be
unmapped. -/
private theorem munmap_keeps (page : Nat) (addr length : BitVec 64) {Q : Mappings → Prop} (hP : Q P)
    (h : ∀ start till, winPageRange page addr length = some (start, till) → CanUnmap P start till till →
      Unmaps w start till Q) :
    ∃ err P', sppcMunmap w page P addr length = some (err, P') ∧ Q P' := by
  rw [sppcMunmap]
  split
  · exact ⟨_, P, rfl, hP⟩
  cases hrange : winPageRange page addr length with
  | none => exact ⟨_, P, rfl, hP⟩
  | some r =>
    obtain ⟨start, till⟩ := r
    have hfirst : CanUnmap P start till start := by
      intro p i hap hpa
      omega
    obtain ⟨err, hpass, ⟨rfl, hcan⟩ | rfl⟩ := firstPass (w := w) (n := till - start) (by omega) hfirst
    · dsimp only
      rw [hpass, Option.bind_some]
      exact (h start till hrange hcan).walk (by omega) (Nat.le_refl _) hP
    · dsimp only
      rw [hpass]
      exact ⟨_, P, rfl, hP⟩

/-! ### The list of views -/

private theorem winViewStart_cons (v : View) (views : List View) (b : Nat) :
    winViewStart (v :: views) b = if v.base = b then v.start else winViewStart views b := by
  unfold winViewStart
  by_cases h : v.base = b
  · rw [List.find?_cons_of_pos (by simpa using h), if_pos h]
  · rw [List.find?_cons_of_neg (by simpa using h), if_neg h]

private theorem winViewStart_forget {views : List View} {b c : Nat} (hne : b ≠ c) :
    winViewStart (views.eraseP fun v => v.base = b) c = winViewStart views c := by
  induction views with
  | nil => rfl
  | cons v views ih =>
    by_cases h : v.base = b
    · rw [List.eraseP_cons_of_pos (by simpa using h), winViewStart_cons, if_neg (by rw [h]; exact hne)]
    · rw [List.eraseP_cons_of_neg (by simpa using h), winViewStart_cons, winViewStart_cons, ih]

private theorem mem_forget {views : List View} {v : View} (hv : v ∈ views) (hne : v.base ≠ b) :
    v ∈ views.eraseP fun v => v.base = b := by
  rcases List.mem_append.1 ((perm_eraseP views b).mem_iff.1 hv) with h | h
  · rw [Option.mem_toList] at h
    exact absurd (by simpa using List.find?_some h) hne
  · exact h

/-! ### What every run keeps -/

/-- A view that is listed is mapped, where its mapping starts too. -/
def Listed (m : AddressSpace) (v : View) : Prop :=
  (∃ i, m.pages v.base = some i ∧ i.base = v.base ∧ i.kind = .mapped) ∧ m.In v.base v.start

/-- The state is one that the process can come to from the memory `m₀`. -/
structure MapInv (m₀ : AddressSpace) (s : MapSystem) : Prop where
  accounted : Accounted s []
  listed : ∀ v ∈ s.maps.views, Listed s.maps.space v
  top : s.maps.space.top = m₀.top

/-- What is mapped has been so from the first, or is listed. -/
def Known (m₀ : AddressSpace) (s : MapSystem) : Prop :=
  ∀ p i, s.maps.space.pages p = some i → i.kind = .mapped →
    (∃ v ∈ s.maps.views, v.base = i.base) ∨ ∃ j, m₀.pages p = some j ∧ j.base = i.base ∧ j.kind = .mapped

private theorem Listed.in_base {m : AddressSpace} {v : View} (h : Listed m v) : m.In v.base v.base := by
  obtain ⟨⟨i, hi, hbase, -⟩, -⟩ := h
  exact ⟨i, hi, hbase⟩

/-- A view whose pages are as they were is listed still. -/
private theorem Listed.of_pages {m m' : AddressSpace} {v : View} (h : Listed m v)
    (hpages : ∀ p i, m.pages p = some i → i.base = v.base → i.kind = .mapped → m'.pages p = some i) :
    Listed m' v := by
  obtain ⟨⟨i, hi, hbase, hk⟩, j, hj, hjb⟩ := h
  refine ⟨⟨i, hpages _ _ hi hbase hk, hbase, hk⟩, j, hpages _ _ hj hjb ?_, hjb⟩
  exact (kind_eq hj hi (hjb.trans hbase.symm)).trans hk

private theorem pages_release_of_ne {m : AddressSpace} {b p : Nat} {i : PageInfo} (hp : m.pages p = some i)
    (hne : i.base ≠ b) : (m.release b).pages p = some i := by
  rw [pages_release, hp, if_neg]
  rw [Option.map_some, Option.some_inj]
  exact hne

private theorem of_pages_release {m : AddressSpace} {b p : Nat} {i : PageInfo} (hp : (m.release b).pages p = some i) :
    m.pages p = some i ∧ i.base ≠ b := by
  rw [pages_release] at hp
  split at hp
  · cases hp
  · rename_i hne
    rw [hp, Option.map_some, Option.some_inj] at hne
    exact ⟨hp, hne⟩

private theorem Accounted.forget {l : List Nat} (ha : Accounted s l) (b : Nat) :
    Accounted { s with maps := s.maps.forget b } l := by
  have hfile : (s.maps.views.find? fun v => v.base = b).toList.filterMap View.file =
      ((s.maps.views.find? fun v => v.base = b).bind View.file).toList := by
    cases s.maps.views.find? fun v => v.base = b with
    | none => rfl
    | some v => cases hf : v.file <;> simp [hf]
  refine List.Perm.trans (List.Perm.append_left l ?_) ha
  show (((s.maps.views.find? fun v => v.base = b).bind View.file).toList ++ s.maps.closed ++
    (s.maps.views.eraseP fun v => v.base = b).filterMap View.file).Perm _
  rw [← hfile]
  have hviews := ((perm_eraseP s.maps.views b).filterMap View.file).append_left s.maps.closed
  rw [List.filterMap_append] at hviews
  refine List.Perm.trans ?_ hviews.symm
  rw [← List.append_assoc]
  exact List.perm_append_comm.append_right _

private theorem MapInv.unmaps {m₀ : AddressSpace} (s : MapSystem) (w : MunmapWorld) (a z : Nat) :
    Unmaps w a z fun P => MapInv m₀ { s with maps := P } where
  forget S p i h _ _ _ _ _ := by
    refine ⟨h.accounted.forget i.base, fun v hv => ?_, h.top⟩
    exact h.listed v (List.eraseP_subset hv)
  unmap S p i h _ _ _ _ := by
    refine ⟨(h.accounted.forget i.base).setSpace, fun v hv => ?_, h.top⟩
    have hne := base_ne_of_mem_eraseP S.nodup hv
    exact (h.listed v (List.eraseP_subset hv)).of_pages fun q j hq hbase _ =>
      pages_release_of_ne hq (by rw [hbase]; exact hne)
  decommit S p stop i h _ _ _ hsame hk := by
    refine ⟨h.accounted, fun v hv => ?_, h.top⟩
    refine (h.listed v hv).of_pages fun q j hq _ hjk => ?_
    show (S.space.decommit p stop).pages q = some j
    rw [pages_decommit, if_neg]
    · exact hq
    · -- the pages given back are of private memory
      rintro ⟨hpq, hqs⟩
      have hq' : S.space.pages q = some j := hq
      rw [hsame q hpq hqs, Option.some_inj] at hq'
      rw [← hq', hk] at hjk
      cases hjk
  release S p i h _ _ hp hk := by
    refine ⟨h.accounted, fun v hv => ?_, h.top⟩
    refine (h.listed v hv).of_pages fun q j hq _ hjk => pages_release_of_ne hq fun hbase => ?_
    have hkind := kind_eq hq hp hbase
    rw [hjk, hk] at hkind
    cases hkind

private theorem Known.unmaps {m₀ : AddressSpace} (s : MapSystem) (hw : ∀ b, w.unmap b = none) (a z : Nat) :
    Unmaps w a z fun P => Known m₀ { s with maps := P } where
  forget S p i _ _ _ _ _ hsome := by
    rw [hw] at hsome
    cases hsome
  unmap S p i h _ _ _ _ := by
    intro q j hq hjk
    obtain ⟨hq, hne⟩ := of_pages_release hq
    refine (h q j hq hjk).imp_left fun ⟨v, hv, hbase⟩ => ⟨v, mem_forget hv ?_, hbase⟩
    rw [hbase]
    exact hne
  decommit S p stop i h _ _ _ hsame hk := by
    intro q j hq hjk
    have hq' : (S.space.decommit p stop).pages q = some j := hq
    rw [pages_decommit] at hq'
    split at hq'
    · rename_i hin
      rw [hsame q hin.1 hin.2, Option.map_some, Option.some_inj] at hq'
      rw [← hq'] at hjk
      exact absurd (hk.symm.trans hjk) (by decide)
    · exact h q j hq' hjk
  release S p i h _ _ _ _ := by
    intro q j hq hjk
    exact h q j (of_pages_release hq).1 hjk

private theorem MapInv.mmap {m₀ : AddressSpace} {unmap : Bool} {n protect : Nat} {r : Option Nat} (h : MapInv m₀ s)
    (ha : Accounted s' []) (hdone : MmapDone sys unmap s n protect r s') : MapInv m₀ s' := by
  cases r with
  | none =>
    obtain ⟨-, hkept, -, htop, hviews⟩ : Unmade unmap s s' := hdone
    refine ⟨ha, fun v hv => ?_, htop.trans h.top⟩
    rw [hviews] at hv
    exact (h.listed v hv).of_pages fun p i hp _ _ => hkept p i hp
  | some addr =>
    obtain ⟨M, hmade, -⟩ := hdone
    refine ⟨ha, fun v hv => ?_, hmade.top.trans h.top⟩
    rw [hmade.views] at hv
    rcases List.mem_append.1 hv with hv | hv
    · rw [Option.mem_toList, Mapping.view] at hv
      split at hv
      · rename_i hk
        rw [← Option.some.inj hv]
        have hin (p : Nat) (hle : M.base ≤ p) (hlt : p < M.base + M.n) :
            s'.maps.space.pages p = some ⟨M.base, M.kind, true, M.protect⟩ := by
          rw [hmade.pages, if_pos ⟨hle, hlt⟩]
        have hlt := M.lt_end
        have hle := M.start_le
        exact ⟨⟨_, hin M.base (Nat.le_refl _) (by omega), rfl, hk⟩, _, hin M.start hle hlt, rfl⟩
      · cases hv
    · refine (h.listed v hv).of_pages fun p i hp _ _ => ?_
      rw [hmade.pages, if_neg, hp]
      intro hin
      rw [hmade.free p hin.1 hin.2] at hp
      cases hp

private theorem Known.mmap {m₀ : AddressSpace} {unmap : Bool} {n protect : Nat} {r : Option Nat} (h : Known m₀ s)
    (hdone : MmapDone sys unmap s n protect r s') (hw : unmap) : Known m₀ s' := by
  intro p i hp hk
  cases r with
  | none =>
    obtain ⟨hpages, -, -, -, hviews⟩ : Unmade unmap s s' := hdone
    rw [hpages hw] at hp
    rw [hviews]
    exact h p i hp hk
  | some addr =>
    obtain ⟨M, hmade, -⟩ := hdone
    rw [hmade.pages] at hp
    rw [hmade.views]
    split at hp
    · rw [← Option.some.inj hp] at hk ⊢
      refine Or.inl ⟨⟨M.base, M.start, M.file⟩, List.mem_append_left _ ?_, rfl⟩
      rw [Mapping.view, if_pos hk]
      exact List.mem_singleton_self _
    · exact (h p i hp hk).imp_left fun ⟨v, hv, hbase⟩ => ⟨v, List.mem_append_right _ hv, hbase⟩

/-- No view that the call is to unmap fails to be. -/
def MapCall.Unmaps : MapCall → Prop
  | .mmap w _ _ _ _ _ => w.unmap
  | .munmap w _ _ => ∀ b, w.unmap b = none

private theorem MapInv.step {m₀ : AddressSpace} (h : MapInv m₀ s) (sys : SystemInfo) (c : MapCall) :
    ∃ s', mapStep sys s c = some s' ∧ MapInv m₀ s' ∧ (c.Unmaps → Known m₀ s → Known m₀ s') := by
  cases c with
  | mmap w ofd length prot flags offset =>
    obtain ⟨r, s', hr, ha, hdone⟩ :=
      sppcMmap_spec sys w ofd length prot flags offset (fun v hv => (h.listed v hv).in_base) h.accounted
    exact ⟨s', by rw [mapStep, hr]; rfl, h.mmap ha hdone, fun hw hknown => hknown.mmap hdone hw⟩
  | munmap w addr length =>
    obtain ⟨err, P', hr, hinv⟩ := munmap_keeps sys.page addr length h fun start till _ _ =>
      MapInv.unmaps s w start till
    refine ⟨{ s with maps := P' }, by rw [mapStep, hr]; rfl, hinv, fun hw hknown => ?_⟩
    obtain ⟨err', P'', hr', hknown'⟩ := munmap_keeps sys.page addr length hknown
      fun start till _ _ => Known.unmaps s hw start till
    rw [hr, Option.some_inj, Prod.mk.injEq] at hr'
    rw [hr'.2]
    exact hknown'

private theorem MapInv.run {m₀ : AddressSpace} (h : MapInv m₀ s) (sys : SystemInfo) (es : List MapCall) :
    ∃ s', Transition.run (mapStep sys) s es = some s' ∧ MapInv m₀ s' ∧
      ((∀ c ∈ es, c.Unmaps) → Known m₀ s → Known m₀ s') := by
  induction es generalizing s with
  | nil => exact ⟨s, rfl, h, fun _ hknown => hknown⟩
  | cons c es ih =>
    obtain ⟨s₁, hstep, h₁, hknown₁⟩ := h.step sys c
    obtain ⟨s', hrun, h', hknown'⟩ := ih h₁
    refine ⟨s', ?_, h', fun hall hknown => ?_⟩
    · rw [Transition.run, hstep]
      exact hrun
    · rw [List.forall_mem_cons] at hall
      exact hknown' hall.2 (hknown₁ hall.1 hknown)

/-- No call has been made yet: there may be memory, but none of it is listed. -/
structure MapSystem.Start (s : MapSystem) : Prop where
  views : s.maps.views = []
  closed : s.maps.closed = []
  made : s.made = 0

private theorem MapSystem.Start.inv (h : s.Start) : MapInv s.maps.space s where
  accounted := by
    show (s.maps.closed ++ s.maps.views.filterMap View.file).Perm (List.range s.made)
    rw [h.closed, h.views, h.made]
    exact List.Perm.refl _
  listed v hv := by
    rw [h.views] at hv
    cases hv
  top := rfl

private theorem known_start (s : MapSystem) : Known s.maps.space s :=
  fun _ i hp hk => Or.inr ⟨i, hp, rfl, hk⟩

/-- What holds after the calls `es`, before which there was the memory `m₀`. -/
structure MappingsOk (sys : SystemInfo) (m₀ : AddressSpace) (es : List MapCall) (s : MapSystem) : Prop where
  /-- Each handle made has been closed, once, unless it is listed. -/
  handles : (s.maps.closed ++ s.maps.views.filterMap View.file).Perm (List.range s.made)
  /-- No two views listed are at one address, and what is listed is a view that is mapped. -/
  nodup : (s.maps.views.map View.base).Nodup
  listed : ∀ v ∈ s.maps.views, Listed s.maps.space v
  /-- The other way round, unless a view could not be unmapped. -/
  known : (∀ c ∈ es, c.Unmaps) → Known m₀ s
  mmap : ∀ w ofd length prot flags offset, ∃ r s', sppcMmap sys w s ofd length prot flags offset = some (r, s') ∧
    MmapDone sys w.unmap s (sys.pages length.toNat) (winPageProtect prot (CopiesPages flags)) r s'
  munmap : ∀ w addr length, (sppcMunmap w sys.page s.maps addr length).isSome

/-- Whatever the calls and however they go, they end, and what they leave is in order. -/
theorem mappings_ok (sys : SystemInfo) {s₀ : MapSystem} (h₀ : s₀.Start) (es : List MapCall) :
    ∃ s, Transition.run (mapStep sys) s₀ es = some s ∧ MappingsOk sys s₀.maps.space es s := by
  obtain ⟨s, hrun, h, hknown⟩ := h₀.inv.run sys es
  refine ⟨s, hrun, h.accounted, s.maps.nodup, h.listed, fun hall => hknown hall (known_start s₀), ?_, ?_⟩
  · intro w ofd length prot flags offset
    obtain ⟨r, s', hr, -, hdone⟩ :=
      sppcMmap_spec sys w ofd length prot flags offset (fun v hv => (h.listed v hv).in_base) h.accounted
    exact ⟨r, s', hr, hdone⟩
  · intro w addr length
    obtain ⟨err, P', hr, -⟩ := munmap_keeps sys.page addr length h fun start till _ _ =>
      MapInv.unmaps s w start till
    rw [hr]
    rfl

/-- Pages of 4 KiB, and views at multiples of 64 KiB. -/
def fourKiB : SystemInfo := ⟨4096, 65536, by decide, by decide, by decide⟩

/-- A process with nothing mapped. -/
def emptySystem : MapSystem where
  maps := {
    space := ⟨64, fun _ => none, fun _ _ h => (by cases h), fun _ _ h => (by cases h)⟩
    views := []
    closed := []
    nodup := List.nodup_nil }
  made := 0

/-- Memory is found from page 16 on, where 16 pages are enough. -/
def sixteenth (m : AddressSpace) (n : Nat) : Option (m.Gap n) :=
  if h : n ≤ 16 ∧ 32 ≤ m.top ∧ ∀ p ∈ List.range 32, 16 ≤ p → m.pages p = none then
    some ⟨16, by decide, by omega, fun p hp hpn => h.2.2 p (List.mem_range.2 (by omega)) hp⟩
  else none

/-- All goes well. -/
def willing : MmapWorld :=
  ⟨fun m _ n => sixteenth m n, fun _ _ _ => true, fun m _ _ n => sixteenth m n, fun _ => true, true, true, true, true⟩

/-- A file of 10000 bytes, open for reading and writing. -/
def someFile : MapOfd := ⟨.handle, true, true, true, some 10000⟩

private theorem emptySystem_start : emptySystem.Start := ⟨rfl, rfl, rfl⟩

/-- The file's second page is mapped to be shared and unmapped again: the section and the handle kept are closed. -/
theorem mappings_ok_shared :
    ∃ s, Transition.run (mapStep fourKiB) emptySystem
      [.mmap willing someFile 4096 SPPC_PROT_WRITE SPPC_MAP_SHARED 4096,
        .munmap ⟨fun _ => none, fun _ => none, fun _ => true⟩ 69632 4096] = some s ∧
        MappingsOk fourKiB emptySystem.maps.space [.mmap willing someFile 4096 SPPC_PROT_WRITE SPPC_MAP_SHARED 4096,
          .munmap ⟨fun _ => none, fun _ => none, fun _ => true⟩ 69632 4096] s ∧
          s.made = 2 ∧ s.maps.views = [] ∧ s.maps.closed = [0, 1] := by
  obtain ⟨s, hrun, hok⟩ := mappings_ok fourKiB emptySystem_start
    [.mmap willing someFile 4096 SPPC_PROT_WRITE SPPC_MAP_SHARED 4096,
      .munmap ⟨fun _ => none, fun _ => none, fun _ => true⟩ 69632 4096]
  have heq : (Transition.run (mapStep fourKiB) emptySystem
      [.mmap willing someFile 4096 SPPC_PROT_WRITE SPPC_MAP_SHARED 4096,
        .munmap ⟨fun _ => none, fun _ => none, fun _ => true⟩ 69632 4096]).map
          (fun s => (s.made, s.maps.views, s.maps.closed)) = some (2, [], [0, 1]) := by
    decide +kernel
  rw [hrun, Option.map_some, Option.some_inj, Prod.mk.injEq, Prod.mk.injEq] at heq
  exact ⟨s, hrun, hok, heq⟩

/-! ### How long a mapping lasts -/

/-- A mapping is as it was made. -/
structure Intact (P : Mappings) (M : Mapping) : Prop where
  pages : ∀ p, M.base ≤ p → p < M.base + M.n → P.space.pages p = some ⟨M.base, M.kind, true, M.protect⟩
  only : ∀ p, P.space.In M.base p → p < M.base + M.n
  start : winViewStart P.views M.base = M.start
  view : ∀ v, M.view = some v → v ∈ P.views

private theorem Intact.in_base (h : Intact P M) : P.space.In M.base M.base :=
  ⟨_, h.pages M.base (Nat.le_refl _) (by have := M.start_le; have := M.lt_end; omega), rfl⟩

/-- A page with another mapping is of another allocation. -/
private theorem Intact.base_ne {p : Nat} {i : PageInfo} (h : Intact P M) (hp : P.space.pages p = some i)
    (hout : ¬(M.base ≤ p ∧ p < M.base + M.n)) : i.base ≠ M.base := by
  intro hbase
  have hin : P.space.In M.base p := ⟨i, hp, hbase⟩
  exact hout ⟨hin.base_le, h.only p hin⟩

private theorem winViewStart_none {views : List View} (h : b ∉ views.map View.base) : winViewStart views b = b := by
  induction views with
  | nil => rfl
  | cons v views ih =>
    rw [List.map_cons, List.mem_cons, not_or] at h
    rw [winViewStart_cons, if_neg (Ne.symm h.1), ih h.2]

/-- A mapping that has just been made. -/
private theorem Made.intact (h : Made s s' M) (hlisted : ∀ v ∈ s.maps.views, s.maps.space.In v.base v.base) :
    Intact s'.maps M := by
  have hle := M.start_le
  have hlt := M.lt_end
  have hfree : s.maps.space.pages M.base = none := h.free M.base (Nat.le_refl _) (by omega)
  have hfresh : M.base ∉ s.maps.views.map View.base := by
    intro hmem
    obtain ⟨v, hv, hbase⟩ := List.mem_map.1 hmem
    obtain ⟨i, hi, -⟩ := hlisted v hv
    rw [hbase, hfree] at hi
    cases hi
  constructor
  · intro p hp hpn
    rw [h.pages, if_pos ⟨hp, hpn⟩]
  · rintro p ⟨i, hi, hbase⟩
    rw [h.pages] at hi
    split at hi
    · omega
    · -- a page that was there before is of an allocation with a first page
      obtain ⟨j, hj, -⟩ := (s.maps.space.whole p i hi).2 i.base (Nat.le_refl _) (s.maps.space.whole p i hi).1
      rw [hbase, hfree] at hj
      cases hj
  · rw [h.views, Mapping.view]
    rcases M.kind_ok with hk | ⟨hk, hstart⟩
    · rw [if_pos hk]
      show winViewStart (_ :: s.maps.views) M.base = M.start
      rw [winViewStart_cons, if_pos rfl]
    · rw [if_neg (by rw [hk]; decide), hstart]
      exact winViewStart_none hfresh
  · intro v hv
    rw [h.views, hv]
    exact List.mem_append_left _ (List.mem_singleton_self v)

/-- Another `mmap` leaves a mapping as it was. -/
private theorem Intact.mmap {unmap : Bool} {n protect : Nat} {r : Option Nat} (h : Intact s.maps M)
    (hdone : MmapDone sys unmap s n protect r s') : Intact s'.maps M := by
  have hlast : ∀ p, s'.maps.space.In M.base p → (∀ q i, s'.maps.space.pages q = some i → i.base = M.base →
      s.maps.space.pages q = some i) → p < M.base + M.n :=
    fun p ⟨i, hi, hbase⟩ hold => h.only p ⟨i, hold p i hi hbase, hbase⟩
  obtain ⟨j, hj, -⟩ := h.in_base
  cases r with
  | none =>
    obtain ⟨-, hkept, hfresh, -, hviews⟩ : Unmade unmap s s' := hdone
    refine ⟨fun p hp hpn => hkept _ _ (h.pages p hp hpn), fun p hp => hlast p hp fun q i hq hbase => ?_, ?_, ?_⟩
    · refine (hfresh q i hq).resolve_right fun hnone => ?_
      rw [hbase, hj] at hnone
      cases hnone
    · rw [hviews, h.start]
    · rw [hviews]
      exact h.view
  | some addr =>
    obtain ⟨N, hmade, -⟩ := hdone
    have hne : N.base ≠ M.base := by
      intro hbase
      have := N.start_le
      have := N.lt_end
      rw [← hbase, hmade.free N.base (Nat.le_refl _) (by omega)] at hj
      cases hj
    refine ⟨fun p hp hpn => ?_, fun p hp => hlast p hp fun q i hq hbase => ?_, ?_, ?_⟩
    · have hpM := h.pages p hp hpn
      rw [hmade.pages, if_neg, hpM]
      intro hin
      rw [hmade.free p hin.1 hin.2] at hpM
      cases hpM
    · rw [hmade.pages] at hq
      split at hq
      · rw [← Option.some.inj hq] at hbase
        exact absurd hbase hne
      · exact hq
    · rw [hmade.views, Mapping.view]
      split
      · show winViewStart (_ :: s.maps.views) M.base = M.start
        rw [winViewStart_cons, if_neg hne, h.start]
      · exact h.start
    · intro v hv
      rw [hmade.views]
      exact List.mem_append_right _ (h.view v hv)

/-- The pages from `a` to `z` are none of the mapping's. -/
private theorem Intact.unmaps (M : Mapping) (w : MunmapWorld)
    (hout : ∀ p, a ≤ p → p < z → ¬(M.base ≤ p ∧ p < M.base + M.n)) : Unmaps w a z fun P => Intact P M := by
  have hforget {S : Mappings} {i : PageInfo} (h : Intact S M) (hne : i.base ≠ M.base) :
      Intact (S.forget i.base) M := by
    refine ⟨h.pages, h.only, ?_, fun v hv => ?_⟩
    · exact (winViewStart_forget hne).trans h.start
    · refine mem_forget (h.view v hv) ?_
      rw [Mapping.view] at hv
      split at hv
      · rw [← Option.some.inj hv]
        exact hne.symm
      · cases hv
  have hrelease {S : Mappings} {c : Nat} (h : Intact S M) (hne : c ≠ M.base) :
      Intact { S with space := S.space.release c } M := by
    refine ⟨fun p hp hpn => ?_, ?_, h.start, h.view⟩
    · exact pages_release_of_ne (h.pages p hp hpn) hne.symm
    · rintro p ⟨i, hi, hbase⟩
      exact h.only p ⟨i, (of_pages_release hi).1, hbase⟩
  constructor
  · exact fun S p i h hap hpz hp _ _ => hforget h (h.base_ne hp (hout p hap hpz))
  · exact fun S p i h hap hpz hp _ =>
      hrelease (hforget h (h.base_ne hp (hout p hap hpz))) (h.base_ne hp (hout p hap hpz))
  · intro S p stop i h hap _ hsz _ _
    refine ⟨fun q hq hqn => ?_, ?_, h.start, h.view⟩
    · show (S.space.decommit p stop).pages q = _
      rw [pages_decommit, if_neg, h.pages q hq hqn]
      exact fun hin => hout q (by omega) (by omega) ⟨hq, hqn⟩
    · rintro q ⟨j, hj, hbase⟩
      have hj : (S.space.decommit p stop).pages q = some j := hj
      rw [pages_decommit] at hj
      split at hj
      · obtain ⟨k, hk, rfl⟩ := Option.map_eq_some_iff.1 hj
        exact h.only q ⟨k, hk, hbase⟩
      · exact h.only q ⟨j, hj, hbase⟩
  · exact fun S p i h hap hpz hp _ => hrelease h (h.base_ne hp (hout p hap hpz))

/-- An unmap that covers no page of a mapping leaves it as it was. -/
private theorem Intact.munmap {page : Nat} (hpage : 0 < page) {addr length : BitVec 64} (h : Intact P M)
    (hno : ∀ p, M.start ≤ p → p < M.base + M.n → ¬Covered page addr length p) :
    ∃ err P', sppcMunmap w page P addr length = some (err, P') ∧ Intact P' M := by
  refine munmap_keeps page addr length h fun start till hrange hcan =>
    Intact.unmaps M w fun p hp hpt ⟨hbase, hend⟩ => ?_
  have hcover := winPageRange_covered hpage hrange
  have hle := M.start_le
  have hlt := M.lt_end
  obtain ⟨-, hview⟩ := hcan p _ hp hpt (h.pages p hbase hend) rfl
  rcases M.kind_ok with hk | ⟨hk, hstart⟩
  · -- a view goes only as a whole, from its mapping's start on
    obtain ⟨hfrom, htill⟩ := hview hk
    rw [h.start] at hfrom
    have hst := htill M.start ⟨_, h.pages M.start hle hlt, rfl⟩
    exact hno M.start (Nat.le_refl _) hlt ((hcover _).2 ⟨hfrom, hst⟩)
  · exact hno p (by omega) hend ((hcover p).2 ⟨hp, hpt⟩)

/-- A mapping that is as it was made can be unmapped. -/
private theorem Intact.canUnmap (h : Intact P M) : CanUnmap P M.start (M.base + M.n) (M.base + M.n) := by
  intro p i hp hpn hpages _
  have hle := M.start_le
  rw [h.pages p (by omega) hpn, Option.some_inj] at hpages
  rw [← hpages]
  refine ⟨fun hk => ?_, fun _ => ⟨Nat.le_of_eq h.start.symm, h.only⟩⟩
  rcases M.kind_ok with hk' | ⟨hk', -⟩
  · rw [hk'] at hk
    cases hk
  · rw [hk'] at hk
    cases hk

/-- The first pass over the mapping finds nothing against it. -/
private theorem Intact.firstPass (h : Intact P M) {n p : Nat} (hfuel : M.base + M.n ≤ n + p) (hp : M.start ≤ p) :
    munmapWalk w false M.start (M.base + M.n) n p P = some (none, P) := by
  have hle := M.start_le
  induction n generalizing p with
  | zero => rw [munmapWalk, if_neg (by omega)]
  | succ n ih =>
    rw [munmapWalk]
    by_cases hpn : p < M.base + M.n
    case neg => rw [if_pos hpn]
    rw [if_neg (not_not.2 hpn)]
    have hhere := h.pages p (by omega) hpn
    cases hquery : P.space.query p with
    | none => rfl
    | some o =>
      obtain ⟨o, next⟩ := o
      obtain ⟨hlt, -, hsame⟩ := query_eq_some hquery
      obtain rfl : some ⟨M.base, M.kind, true, M.protect⟩ = o := hhere.symm.trans (hsame p (Nat.le_refl p) hlt)
      dsimp only
      rw [if_neg (not_not.2 rfl)]
      rcases M.kind_ok with hk | ⟨hk, -⟩
      · rw [hk]
        dsimp only
        obtain ⟨e, he, hin⟩ := winAllocEnd_spec (in_of_pages hhere)
        have hin : ∀ q, P.space.In M.base q ↔ M.base ≤ q ∧ q < e := hin
        -- the view ends where the mapping does
        have hend : e = M.base + M.n := by
          have hlast : P.space.In M.base (M.base + M.n - 1) := ⟨_, h.pages _ (by omega) (by omega), rfl⟩
          have hlt := ((hin _).1 hlast).2
          by_contra hne
          have hpast := h.only (M.base + M.n) ((hin _).2 ⟨by omega, by omega⟩)
          omega
        rw [he, Option.bind_some, if_pos Bool.false_ne_true, h.start, hend, if_neg (by omega)]
        exact ih (by omega) (by omega)
      · rw [hk]
        dsimp only
        rw [if_pos Bool.false_ne_true]
        exact ih (by omega) (by omega)

/-- What a mapping leaves behind: nothing of its allocation, no view, and its file closed. -/
structure Removed (P P' : Mappings) (M : Mapping) : Prop where
  pages : ∀ p, P'.space.pages p = if M.base ≤ p ∧ p < M.base + M.n then none else P.space.pages p
  views : P.views.Perm (M.view.toList ++ P'.views)
  closed : P'.closed.Perm ((M.view.bind View.file).toList ++ P.closed)

private theorem Intact.removed (h : Intact P M) (hup : Upto P S M.start (M.base + M.n)) : Removed P S M := by
  have hle := M.start_le
  have hlt := M.lt_end
  have hstart := h.pages M.start hle hlt
  have hhit (b : Nat) : P.space.Hit M.start (M.base + M.n) b ↔ b = M.base := by
    constructor
    · rintro ⟨q, hq, hqn, -, hb⟩
      exact hb.unique ⟨_, h.pages q (by omega) hqn, rfl⟩
    · rintro rfl
      exact ⟨M.start, Nat.le_refl _, hlt, ⟨_, hstart, rfl⟩, ⟨_, hstart, rfl⟩⟩
  have hview (b : Nat) : HitView P.space M.start (M.base + M.n) b ↔ M.kind = .mapped ∧ b = M.base := by
    constructor
    · rintro ⟨q, i, hq, hqn, hi, -, hk, hb⟩
      rw [h.pages q (by omega) hqn, Option.some_inj] at hi
      rw [← hi] at hk hb
      exact ⟨hk, hb.symm⟩
    · rintro ⟨hk, rfl⟩
      exact ⟨M.start, _, Nat.le_refl _, hlt, hstart, rfl, hk, rfl⟩
  obtain ⟨gone, hperm, hclosed, hgone⟩ := hup.gone
  -- the views gone are the mapping's own
  have hown : gone = M.view.toList := by
    rw [Mapping.view]
    split
    · rename_i hk
      have hmem : ⟨M.base, M.start, M.file⟩ ∈ gone := by
        have hv := h.view ⟨M.base, M.start, M.file⟩ (by rw [Mapping.view, if_pos hk])
        refine (List.mem_append.1 (hperm.mem_iff.1 hv)).resolve_right fun hv' => ?_
        exact hup.views _ hv' ((hview _).2 ⟨hk, rfl⟩)
      have hnodup : (gone.map View.base).Nodup :=
        ((hperm.map View.base).nodup_iff.1 P.nodup).sublist ((List.sublist_append_left _ _).map _)
      have hall : ∀ v ∈ gone, v = ⟨M.base, M.start, M.file⟩ := fun v hv =>
        List.inj_on_of_nodup_map hnodup hv hmem ((hview _).1 (hgone v hv)).2
      have hrep := List.eq_replicate_of_mem hall
      have hlen : gone.length = 1 := by
        have hle : gone.length ≤ 1 := by
          rw [hrep] at hnodup
          rw [List.map_replicate] at hnodup
          exact List.nodup_replicate.1 hnodup
        have := List.length_pos_of_mem hmem
        omega
      rw [hrep, hlen]
      rfl
    · rename_i hk
      rw [Option.toList_none, List.eq_nil_iff_forall_not_mem]
      exact fun v hv => hk ((hview _).1 (hgone v hv)).1
  refine ⟨fun p => ?_, by rw [← hown]; exact hperm, ?_⟩
  · rw [hup.pages]
    cases hp : P.space.pages p with
    | none =>
      rw [without_none hp]
      split <;> rfl
    | some i =>
      by_cases hin : M.base ≤ p ∧ p < M.base + M.n
      · rw [h.pages p hin.1 hin.2, Option.some_inj] at hp
        rw [if_pos hin]
        have hpages := h.pages p hin.1 hin.2
        rcases M.kind_ok with hk | ⟨hk, hbase⟩
        · exact without_hit hpages hk ((hhit _).2 rfl)
        · refine without_gone hpages hk ((hhit _).2 rfl) ?_
          -- all of private memory is covered
          rintro ⟨q, hout, -, hq⟩
          have hqb : M.base ≤ q := hq.base_le
          exact hout ⟨by omega, h.only q hq⟩
      · rw [if_neg hin]
        have hne := h.base_ne hp hin
        have hmissed : ¬P.space.Hit M.start (M.base + M.n) i.base := fun hyes => hne ((hhit _).1 hyes)
        cases hk : i.kind with
        | image => exact without_image hp hk
        | mapped => exact without_missed hp hk hmissed
        | priv => exact without_outside hp hk (fun hyes => hmissed hyes.1) fun hyes => hin ⟨by omega, hyes.2.1⟩
  · rw [hown] at hclosed
    refine hclosed.trans (List.Perm.append_right _ (List.Perm.of_eq ?_))
    cases M.view with
    | none => rfl
    | some v => cases hf : v.file <;> simp [hf]

/-- The unmapping of a mapping that is as it was made. -/
private theorem Intact.unmapped {page : Nat} (h : Intact P M) (hw : w.Succeeds) {addr length : BitVec 64}
    (hlen : length ≠ 0) (hrange : winPageRange page addr length = some (M.start, M.base + M.n)) :
    ∃ P', sppcMunmap w page P addr length = some (none, P') ∧ Removed P P' M := by
  have hlt := M.lt_end
  rw [sppcMunmap, if_neg hlen, hrange]
  dsimp only
  rw [h.firstPass (by omega) (Nat.le_refl _), Option.bind_some]
  have hstart : Upto P P M.start (min M.start (M.base + M.n)) := by
    rw [Nat.min_eq_left (by omega)]
    exact upto_start P M.start
  obtain ⟨P', hpass, hup⟩ := secondPass hw h.canUnmap (n := M.base + M.n - M.start) (by omega) (Nat.le_refl _) hstart
  exact ⟨P', hpass, h.removed hup⟩

/-- What an `mmap` returns is the mapping's range, if the process's addresses do not reach the end of memory. -/
private theorem Mapping.Fits.range {protect addr : Nat} {length : BitVec 64}
    (h : M.Fits sys (sys.pages length.toNat) protect addr) (hfits : (M.base + M.n) * sys.page + sys.page < 2 ^ 64) :
    winPageRange sys.page (BitVec.ofNat 64 addr) length = some (M.start, M.base + M.n) := by
  have hpage := sys.page_pos
  have hlt := M.lt_end
  have hend : M.start * sys.page + length.toNat ≤ (M.base + M.n) * sys.page := by
    have hle : length.toNat ≤ sys.pages length.toNat * sys.page := SystemInfo.pages_le_iff.1 (Nat.le_refl _)
    rw [h.pages, Nat.add_mul]
    omega
  have haddr : (BitVec.ofNat 64 addr).toNat = M.start * sys.page := by
    rw [BitVec.toNat_ofNat, h.address, Nat.mod_eq_of_lt (by omega)]
  have hlast : (BitVec.ofNat 64 addr + length).toNat = M.start * sys.page + length.toNat := by
    rw [BitVec.toNat_add, haddr, Nat.mod_eq_of_lt (by omega)]
  rw [winPageRange, haddr, if_neg (not_not.2 (Nat.mul_mod_left _ _))]
  dsimp only
  rw [hlast, if_neg, Nat.mul_div_cancel _ hpage]
  · have hpages : (M.start * sys.page + length.toNat + sys.page - 1) / sys.page = M.base + M.n := by
      rw [h.pages]
      exact sys.pages_skip M.start length.toNat
    rw [hpages]
  · rw [BitVec.lt_def, haddr, hlast]
    omega

/-- A mapping made by an `mmap`, and what has become of it after more calls. -/
structure MappingLasts (sys : SystemInfo) (s s₁ s₂ : MapSystem) (addr : Nat) (length : BitVec 64) (protect : Nat)
    (M : Mapping) : Prop where
  made : Made s s₁ M
  fits : M.Fits sys (sys.pages length.toNat) protect addr
  covered : ∀ p, Covered sys.page (BitVec.ofNat 64 addr) length p ↔ M.start ≤ p ∧ p < M.base + M.n
  intact : Intact s₂.maps M
  unmapped : ∀ w : MunmapWorld, w.Succeeds →
    ∃ P', sppcMunmap w sys.page s₂.maps (BitVec.ofNat 64 addr) length = some (none, P') ∧ Removed s₂.maps P' M

private theorem Intact.step (h : Intact s.maps M) {m₀ : AddressSpace} (hinv : MapInv m₀ s) {c : MapCall}
    (hstep : mapStep sys s c = some s') (hno : ∀ w addr length, c = .munmap w addr length → ∀ p, M.start ≤ p →
      p < M.base + M.n → ¬Covered sys.page addr length p) : Intact s'.maps M := by
  cases c with
  | mmap w ofd length prot flags offset =>
    obtain ⟨r, t, hr, -, hdone⟩ :=
      sppcMmap_spec sys w ofd length prot flags offset (fun v hv => (hinv.listed v hv).in_base) hinv.accounted
    rw [mapStep, hr, Option.map_some, Option.some_inj] at hstep
    rw [← hstep]
    exact h.mmap hdone
  | munmap w addr length =>
    obtain ⟨err, P', hr, hP'⟩ := h.munmap (w := w) sys.page_pos (hno w addr length rfl)
    rw [mapStep, hr, Option.map_some, Option.some_inj] at hstep
    rw [← hstep]
    exact hP'

private theorem Intact.run (h : Intact s.maps M) {m₀ : AddressSpace} (hinv : MapInv m₀ s) {es : List MapCall}
    (hrun : Transition.run (mapStep sys) s es = some s') (hno : ∀ w addr length, .munmap w addr length ∈ es → ∀ p,
      M.start ≤ p → p < M.base + M.n → ¬Covered sys.page addr length p) : Intact s'.maps M := by
  induction es generalizing s with
  | nil =>
    rw [← Option.some.inj hrun]
    exact h
  | cons c es ih =>
    obtain ⟨t, hstep, ht, -⟩ := hinv.step sys c
    rw [Transition.run, hstep] at hrun
    have hc : ∀ w addr length, c = .munmap w addr length → ∀ p, M.start ≤ p → p < M.base + M.n →
        ¬Covered sys.page addr length p := by
      rintro w addr length rfl
      exact hno w addr length List.mem_cons_self
    exact ih (h.step hinv hstep hc) ht hrun fun w addr length hmem =>
      hno w addr length (List.mem_cons_of_mem c hmem)

/-- What an `mmap` has made stays as it was made, whatever else is mapped and unmapped and however that goes, until a
call unmaps a page of it; and then it can be unmapped, and nothing is left of it, nor of anything else taken. -/
theorem mapping_lasts {s₀ s s₁ s₂ : MapSystem} (h₀ : s₀.Start)
    (hfits : s₀.maps.space.top * sys.page + sys.page < 2 ^ 64) {es es' : List MapCall}
    (hrun : Transition.run (mapStep sys) s₀ es = some s) {w : MmapWorld} {ofd : Option MapOfd}
    {length : BitVec 64} {prot flags : BitVec 32} {offset : BitVec 64} {addr : Nat}
    (hmap : sppcMmap sys w s ofd length prot flags offset = some (some addr, s₁))
    (hrun' : Transition.run (mapStep sys) s₁ es' = some s₂)
    (hno : ∀ w a l, .munmap w a l ∈ es' → ∀ p, Covered sys.page (BitVec.ofNat 64 addr) length p →
      ¬Covered sys.page a l p) :
    ∃ M, MappingLasts sys s s₁ s₂ addr length (winPageProtect prot (CopiesPages flags)) M := by
  obtain ⟨t, ht, hinv, -⟩ := h₀.inv.run sys es
  rw [hrun, Option.some_inj] at ht
  rw [← ht] at hinv
  have hlisted : ∀ v ∈ s.maps.views, s.maps.space.In v.base v.base := fun v hv => (hinv.listed v hv).in_base
  obtain ⟨r, t₁, hr, ha, hdone⟩ := sppcMmap_spec sys w ofd length prot flags offset hlisted hinv.accounted
  rw [hmap, Option.some_inj, Prod.mk.injEq] at hr
  rw [← hr.1, ← hr.2] at hdone
  rw [← hr.2] at ha
  have hinv₁ := hinv.mmap ha hdone
  obtain ⟨M, hmade, hM⟩ := hdone
  have hend : (M.base + M.n) * sys.page ≤ s₀.maps.space.top * sys.page := by
    apply Nat.mul_le_mul_right
    rw [← hinv.top]
    exact hmade.end_le
  have hrange := hM.range (by omega)
  have hcover := winPageRange_covered sys.page_pos hrange
  have hintact : Intact s₂.maps M := by
    refine (hmade.intact hlisted).run hinv₁ hrun' fun w a l hmem p hp hpn => ?_
    exact hno w a l hmem p ((hcover p).2 ⟨hp, hpn⟩)
  refine ⟨M, hmade, hM, hcover, hintact, fun u hu => hintact.unmapped hu ?_ hrange⟩
  -- a mapping has a page
  rintro rfl
  have hlt := M.lt_end
  have hzero : sys.pages 0 = 0 := Nat.le_zero.1 (SystemInfo.pages_le_iff.2 (Nat.zero_le _))
  have := hM.pages
  rw [show (0 : BitVec 64).toNat = 0 from rfl, hzero] at this
  omega

/-- Two pages of the file, mapped privately, are unmapped after other memory has been mapped. -/
theorem mapping_lasts_private :
    ∃ s₁ s₂ M, sppcMmap fourKiB willing emptySystem someFile 8192 SPPC_PROT_READ SPPC_MAP_PRIVATE 0 =
      some (some 65536, s₁) ∧ Transition.run (mapStep fourKiB) s₁ [.mmap willing none 100 SPPC_PROT_WRITE 0x22 0] =
      some s₂ ∧
        MappingLasts fourKiB emptySystem s₁ s₂ 65536 8192 PAGE_READONLY M := by
  have hfirst : (sppcMmap fourKiB willing emptySystem someFile 8192 SPPC_PROT_READ SPPC_MAP_PRIVATE 0).map Prod.fst =
      some (some 65536) := by
    decide +kernel
  obtain ⟨⟨r, s₁⟩, hmap, hr⟩ := Option.map_eq_some_iff.1 hfirst
  obtain rfl : r = some 65536 := hr
  obtain ⟨t, hrun, hinv, -⟩ := emptySystem_start.inv.run fourKiB
    [.mmap willing someFile 8192 SPPC_PROT_READ SPPC_MAP_PRIVATE 0]
  obtain rfl : s₁ = t := by
    rw [Transition.run, mapStep, hmap] at hrun
    exact Option.some.inj hrun
  obtain ⟨s₂, hrun', -⟩ := hinv.run fourKiB [.mmap willing none 100 SPPC_PROT_WRITE 0x22 0]
  have hno : ∀ w a l, MapCall.munmap w a l ∈ [.mmap willing none 100 SPPC_PROT_WRITE 0x22 0] → ∀ p,
      Covered 4096 (BitVec.ofNat 64 65536) 8192 p → ¬Covered 4096 a l p := by
    intro w a l hmem
    cases List.mem_singleton.1 hmem
  have hnone : Transition.run (mapStep fourKiB) emptySystem [] = some emptySystem := rfl
  obtain ⟨M, hM⟩ := mapping_lasts emptySystem_start (by decide) hnone hmap hrun' hno
  exact ⟨s₁, s₂, M, hmap, hrun', hM⟩

end Sppc.Windows
