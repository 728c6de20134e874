import Sppc.AddressSpace
import Sppc.Windows.Errors
import Mathlib.Data.List.Perm.Basic

/-!
# Unmapping memory (`platform/windows.h`)

`sppc_munmap`, which goes over the pages twice, and the list of the views that sppc has made.  Addresses are pages'
numbers but for those that the call is given.
-/

namespace Sppc.Windows

open AddressSpace

/-- `_sppc_win_view`. -/
structure View where
  base : Nat
  start : Nat
  file : Option Nat
  deriving DecidableEq, Repr

/-- The process's memory, the list of its views, of which no two are at one address, and the handles closed, the last
first. -/
structure Mappings where
  space : AddressSpace
  views : List View
  closed : List Nat
  nodup : (views.map View.base).Nodup

/-- How the unmapping calls go: the errors of a decommit from a page and of `UnmapViewOfFile`, if they fail, and
whether an address range can be released. -/
structure MunmapWorld where
  decommit : Nat → Option WinError
  unmap : Nat → Option WinError
  release : Nat → Bool

inductive MunmapErr
  | EINVAL
  | win (e : WinError)
  deriving DecidableEq, Repr

/-! ### `sppc_munmap` -/

/-- The loop of `_sppc_win_alloc_end`, of at most so many rounds. -/
def winAllocEndFrom (m : AddressSpace) (base : Nat) : Nat → Nat → Option Nat
  | 0, _ => none
  | n + 1, p =>
    match m.query p with
    | some (some i, next) => if i.base = base then winAllocEndFrom m base n next else some p
    | _ => some p

/-- `_sppc_win_alloc_end`. -/
def winAllocEnd (m : AddressSpace) (base : Nat) : Option Nat := winAllocEndFrom m base (m.top + 1) base

/-- `_sppc_win_page_range` without rounding, as pages: `none` is `SPPC_EINVAL`. -/
def winPageRange (page : Nat) (addr length : BitVec 64) : Option (Nat × Nat) :=
  if addr.toNat % page ≠ 0 then none
  else
    let last := addr + length
    if last < addr ∨ 2 ^ 64 - 1 - page < last.toNat then none
    else some (addr.toNat / page, (last.toNat + page - 1) / page)

/-- `_sppc_win_view_start`. -/
def winViewStart (views : List View) (base : Nat) : Nat :=
  match views.find? fun v => v.base = base with
  | some v => v.start
  | none => base

private theorem nodup_forget {views : List View} (h : (views.map View.base).Nodup) (base : Nat) :
    ((views.eraseP fun v => v.base = base).map View.base).Nodup :=
  h.sublist (List.eraseP_sublist.map View.base)

/-- `_sppc_win_view_forget`. -/
def Mappings.forget (P : Mappings) (base : Nat) : Mappings :=
  { P with
    views := P.views.eraseP fun v => v.base = base
    closed := ((P.views.find? fun v => v.base = base).bind View.file).toList ++ P.closed
    nodup := nodup_forget P.nodup base }

/-- The loop that looks for what is left of a private allocation (`left`), of at most so many rounds. -/
def anyLeftFrom (m : AddressSpace) (base : Nat) : Nat → Nat → Option Bool
  | 0, _ => none
  | n + 1, r =>
    match m.query r with
    | some (some i, next) =>
      if i.base = base then
        if i.commit then some true else anyLeftFrom m base n next
      else some false
    | _ => some false

def anyLeft (m : AddressSpace) (base : Nat) : Option Bool := anyLeftFrom m base (m.top + 1) base

/-- A pass over the pages from `p` to `till`, of at most so many steps, of which the second unmaps. -/
def munmapWalk (w : MunmapWorld) (second : Bool) (start till : Nat) :
    Nat → Nat → Mappings → Option (Option MunmapErr × Mappings)
  | 0, p, P => if p < till then none else some (none, P)
  | n + 1, p, P =>
    if ¬p < till then some (none, P)
    else
      match P.space.query p with
      | none => some (none, P)
      | some (none, next) => munmapWalk w second start till n next P
      | some (some i, next) =>
        if ¬i.commit then munmapWalk w second start till n next P
        else
          match i.kind with
          | .image => some (some .EINVAL, P)
          | .mapped =>
            (winAllocEnd P.space i.base).bind fun next =>
              if ¬second then
                if winViewStart P.views i.base < start ∨ till < next then some (some .EINVAL, P)
                else munmapWalk w second start till n next P
              else
                match w.unmap i.base with
                | some e => some (some (.win e), P.forget i.base)
                | none =>
                  munmapWalk w second start till n next { P.forget i.base with space := P.space.release i.base }
          | .priv =>
            if ¬second then munmapWalk w second start till n next P
            else
              let stop := if next < till then next else till
              match w.decommit p with
              | some e => some (some (.win e), P)
              | none =>
                let space := P.space.decommit p stop
                (anyLeft space i.base).bind fun left =>
                  munmapWalk w second start till n stop
                    { P with space := if ¬left ∧ w.release i.base then space.release i.base else space }

/-- `sppc_munmap`: `none` if it does not end. -/
def sppcMunmap (w : MunmapWorld) (page : Nat) (P : Mappings) (addr length : BitVec 64) :
    Option (Option MunmapErr × Mappings) :=
  if length = 0 then some (some .EINVAL, P)
  else
    match winPageRange page addr length with
    | none => some (some .EINVAL, P)
    | some (start, till) =>
      (munmapWalk w false start till (till - start) start P).bind fun r =>
        match r.1 with
        | some e => some (some e, r.2)
        | none => munmapWalk w true start till (till - start) start r.2

/-! ### What an unmap is to do -/

/-- Some byte of a page is in the range. -/
def Covered (page : Nat) (addr length : BitVec 64) (p : Nat) : Prop :=
  addr.toNat < (p + 1) * page ∧ p * page < addr.toNat + length.toNat

/-- A committed page of a view is in the range. -/
def ViewCovered (page : Nat) (addr length : BitVec 64) (m : AddressSpace) (b : Nat) : Prop :=
  ∃ p i, Covered page addr length p ∧ m.pages p = some i ∧ i.commit ∧ i.kind = .mapped ∧ i.base = b

/-- What an unmap that succeeds leaves of the memory `P`. -/
structure Unmapped (page : Nat) (addr length : BitVec 64) (P P' : Mappings) : Prop where
  inside : ∀ p, Covered page addr length p → ¬P'.space.Committed p
  /-- A page unmapped elsewhere is before the mapping in a view, whose mapping is in the range. -/
  outside : ∀ p, ¬Covered page addr length p → P.space.Committed p → ¬P'.space.Committed p →
    ∃ i, P.space.pages p = some i ∧ i.kind = .mapped ∧ p < winViewStart P.views i.base ∧
      ∀ q, P.space.In i.base q → winViewStart P.views i.base ≤ q → Covered page addr length q
  kept : ∀ p, P'.space.Committed p → P'.space.pages p = P.space.pages p
  /-- A private allocation is released exactly if its last committed page has gone. -/
  released : ∀ p i, P.space.pages p = some i → i.kind = .priv →
    (P'.space.pages p = none ↔ (∃ q, P.space.In i.base q ∧ P.space.Committed q ∧ Covered page addr length q) ∧
      ∀ q, P.space.In i.base q → ¬P'.space.Committed q)
  /-- A view goes as a whole. -/
  view : ∀ p i, P.space.pages p = some i → i.kind = .mapped →
    (P'.space.pages p = none ↔ ViewCovered page addr length P.space i.base)
  /-- The views that have gone are off the list, and the file of each is closed. -/
  views : ∃ gone, P.views.Perm (gone ++ P'.views) ∧ P'.closed.Perm (gone.filterMap View.file ++ P.closed) ∧
    (∀ v ∈ gone, ViewCovered page addr length P.space v.base) ∧
      ∀ v ∈ P'.views, ¬ViewCovered page addr length P.space v.base

/-! ### The loops over an allocation -/

variable {m : AddressSpace} {P S : Mappings} {w : MunmapWorld} {a b t x z : Nat} {i : PageInfo}

private theorem next_le_top {next p : Nat} (hlt : p < next) (hsame : ∀ q, p ≤ q → q < next → m.pages q = some i) :
    next ≤ m.top := by
  have hlast := m.below (next - 1) i (hsame (next - 1) (by omega) (by omega))
  omega

private theorem winAllocEndFrom_spec {n p : Nat} (hp : p ≤ m.top) (hfuel : m.top < n + p) (hb : b ≤ p)
    (hin : ∀ q, b ≤ q → q < p → m.In b q) :
    ∃ e, winAllocEndFrom m b n p = some e ∧ p ≤ e ∧ (∀ q, b ≤ q → q < e → m.In b q) ∧ ¬m.In b e := by
  induction n generalizing p with
  | zero => omega
  | succ n ih =>
    rw [winAllocEndFrom]
    cases hquery : m.query p with
    | none =>
      refine ⟨p, rfl, Nat.le_refl p, hin, fun h => ?_⟩
      have hge := query_eq_none hquery
      have hlt := h.lt_top
      omega
    | some o =>
      obtain ⟨o, next⟩ := o
      obtain ⟨hlt, htop, hsame⟩ := query_eq_some hquery
      have hhere := hsame p (Nat.le_refl p) hlt
      cases o with
      | none =>
        refine ⟨p, rfl, Nat.le_refl p, hin, fun ⟨j, hj, _⟩ => ?_⟩
        rw [hhere] at hj
        cases hj
      | some i =>
        dsimp only
        split
        · rename_i hbase
          have hin' : ∀ q, b ≤ q → q < next → m.In b q := by
            intro q hq hqn
            by_cases hqp : q < p
            · exact hin q hq hqp
            · exact ⟨i, hsame q (by omega) hqn, hbase⟩
          obtain ⟨e, he, hle, hall, hend⟩ := ih (next_le_top hlt hsame) (by omega) (by omega) hin'
          exact ⟨e, he, by omega, hall, hend⟩
        · rename_i hbase
          refine ⟨p, rfl, Nat.le_refl p, hin, fun ⟨j, hj, hjb⟩ => ?_⟩
          rw [hhere, Option.some_inj] at hj
          rw [hj] at hbase
          exact hbase hjb

/-- The end of an allocation is found. -/
theorem winAllocEnd_spec {p : Nat} (h : m.In b p) :
    ∃ e, winAllocEnd m b = some e ∧ ∀ q, m.In b q ↔ b ≤ q ∧ q < e := by
  have hb : b ≤ m.top := by
    have := h.base_le
    have := h.lt_top
    omega
  obtain ⟨e, he, hle, hall, hend⟩ := winAllocEndFrom_spec (n := m.top + 1) hb (by omega) (Nat.le_refl b)
    fun q hq hqb => by omega
  refine ⟨e, he, fun q => ⟨fun hq => ⟨hq.base_le, hq.lt_end hle hend⟩, fun hq => hall q hq.1 hq.2⟩⟩

private theorem anyLeftFrom_spec {n p : Nat} (hp : p ≤ m.top) (hfuel : m.top < n + p) (hb : b ≤ p)
    (hin : ∀ q, b ≤ q → q < p → ¬m.Committed q) :
    ∃ left, anyLeftFrom m b n p = some left ∧ (left = true ↔ ∃ q, m.Committed q ∧ m.In b q) := by
  induction n generalizing p with
  | zero => omega
  | succ n ih =>
    rw [anyLeftFrom]
    -- no page of the allocation is past one that is not its own
    have hnone (hno : ¬m.In b p) : (false = true ↔ ∃ q, m.Committed q ∧ m.In b q) := by
      constructor
      · intro h
        cases h
      · rintro ⟨q, hc, hq⟩
        exact absurd hc (hin q hq.base_le (hq.lt_end hb hno))
    cases hquery : m.query p with
    | none =>
      refine ⟨false, rfl, hnone fun h => ?_⟩
      have hge := query_eq_none hquery
      have hlt := h.lt_top
      omega
    | some o =>
      obtain ⟨o, next⟩ := o
      obtain ⟨hlt, htop, hsame⟩ := query_eq_some hquery
      have hhere := hsame p (Nat.le_refl p) hlt
      cases o with
      | none =>
        refine ⟨false, rfl, hnone fun ⟨j, hj, _⟩ => ?_⟩
        rw [hhere] at hj
        cases hj
      | some i =>
        dsimp only
        split
        · rename_i hbase
          split
          · rename_i hc
            exact ⟨true, rfl, fun _ => ⟨p, ⟨i, hhere, hc⟩, ⟨i, hhere, hbase⟩⟩, fun _ => rfl⟩
          · rename_i hc
            apply ih (next_le_top hlt hsame) (by omega) (by omega)
            intro q hq hqn
            by_cases hqp : q < p
            · exact hin q hq hqp
            · rintro ⟨j, hj, hjc⟩
              rw [hsame q (by omega) hqn, Option.some_inj] at hj
              rw [hj] at hc
              exact hc hjc
        · rename_i hbase
          refine ⟨false, rfl, hnone fun ⟨j, hj, hjb⟩ => ?_⟩
          rw [hhere, Option.some_inj] at hj
          rw [hj] at hbase
          exact hbase hjb

/-- Whether anything of an allocation is left is found. -/
theorem anyLeft_spec {p : Nat} (h : m.In b p) :
    ∃ left, anyLeft m b = some left ∧ (left = true ↔ ∃ q, m.Committed q ∧ m.In b q) := by
  have hb : b ≤ m.top := by
    have := h.base_le
    have := h.lt_top
    omega
  exact anyLeftFrom_spec hb (by omega) (Nat.le_refl b) fun q hq hqb => by omega

/-! ### The first pass -/

/-- The second pass can unmap the committed pages from `a` to `z`: none is of an image, and the mapping in each view
that has one of them is in the range, as is what comes after it. -/
def CanUnmap (P : Mappings) (start till z : Nat) : Prop :=
  ∀ p i, start ≤ p → p < z → P.space.pages p = some i → i.commit → i.kind ≠ .image ∧
    (i.kind = .mapped → start ≤ winViewStart P.views i.base ∧ ∀ q, P.space.In i.base q → q < till)

theorem CanUnmap.skip (h : CanUnmap P a t z) (hno : ∀ q, z ≤ q → q < x → ¬P.space.Committed q) :
    CanUnmap P a t x := by
  intro p i hap hpx hp hc
  by_cases hpz : p < z
  · exact h p i hap hpz hp hc
  · exact absurd ⟨i, hp, hc⟩ (hno p (by omega) hpx)

/-- The first pass changes nothing, and fails unless the second can unmap the range. -/
theorem firstPass {n : Nat} (hfuel : t ≤ n + z) (h : CanUnmap P a t z) :
    ∃ err, munmapWalk w false a t n z P = some (err, P) ∧ (err = none ∧ CanUnmap P a t t ∨ err = some .EINVAL) := by
  induction n generalizing z with
  | zero =>
    have hend : ¬z < t := by omega
    rw [munmapWalk, if_neg hend]
    refine ⟨none, rfl, Or.inl ⟨rfl, fun p i hap hpt => h p i hap (by omega)⟩⟩
  | succ n ih =>
    rw [munmapWalk]
    by_cases hzt : z < t
    case neg =>
      rw [if_pos hzt]
      exact ⟨none, rfl, Or.inl ⟨rfl, fun p i hap hpt => h p i hap (by omega)⟩⟩
    rw [if_neg (not_not.2 hzt)]
    cases hquery : P.space.query z with
    | none =>
      refine ⟨none, rfl, Or.inl ⟨rfl, h.skip fun q hq _ => ?_⟩⟩
      rintro ⟨j, hj, -⟩
      have hge := query_eq_none hquery
      have hlt := P.space.below q j hj
      omega
    | some o =>
      obtain ⟨o, next⟩ := o
      obtain ⟨hlt, -, hsame⟩ := query_eq_some hquery
      cases o with
      | none =>
        apply ih (by omega)
        apply h.skip
        rintro q hq hqn ⟨j, hj, -⟩
        rw [hsame q hq hqn] at hj
        cases hj
      | some i =>
        dsimp only
        by_cases hc : i.commit
        case neg =>
          rw [if_pos hc]
          apply ih (by omega)
          apply h.skip
          rintro q hq hqn ⟨j, hj, hjc⟩
          rw [hsame q hq hqn, Option.some_inj] at hj
          rw [hj] at hc
          exact hc hjc
        rw [if_neg (not_not.2 hc)]
        have hhere := hsame z (Nat.le_refl z) hlt
        cases hk : i.kind with
        | image => exact ⟨_, rfl, Or.inr rfl⟩
        | priv =>
          apply ih (by omega)
          intro p j hap hpn hp hjc
          by_cases hpz : p < z
          · exact h p j hap hpz hp hjc
          · rw [hsame p (by omega) hpn, Option.some_inj] at hp
            rw [← hp, hk]
            exact ⟨by decide, fun hm => nomatch hm⟩
        | mapped =>
          obtain ⟨e, he, hin⟩ := winAllocEnd_spec (in_of_pages hhere)
          have hze : z < e := ((hin z).1 (in_of_pages hhere)).2
          dsimp only
          rw [he, Option.bind_some, if_pos Bool.false_ne_true]
          split
          · exact ⟨_, rfl, Or.inr rfl⟩
          · rename_i hwhole
            apply ih (by omega)
            intro p j hap hpe hp hjc
            by_cases hpz : p < z
            · exact h p j hap hpz hp hjc
            · have hbz := ((hin z).1 (in_of_pages hhere)).1
              obtain ⟨j', hj', hbase⟩ := (hin p).2 ⟨by omega, hpe⟩
              rw [hp, Option.some_inj] at hj'
              rw [← hj'] at hbase
              have hkind := kind_eq hp hhere hbase
              rw [hbase, hkind, hk]
              refine ⟨by decide, fun _ => ⟨by omega, fun q hq => ?_⟩⟩
              have := ((hin q).1 hq).2
              omega

/-! ### The second pass -/

/-- A committed page of the view at `b` is among the pages from `a` to `z`. -/
def HitView (m : AddressSpace) (a z b : Nat) : Prop :=
  ∃ q i, a ≤ q ∧ q < z ∧ m.pages q = some i ∧ i.commit ∧ i.kind = .mapped ∧ i.base = b

/-- The pages of `P` from `a` to `z` have been unmapped, and the views that have one of them taken off the list. -/
structure Upto (P S : Mappings) (a z : Nat) : Prop where
  pages : ∀ p, S.space.pages p = P.space.without a z p
  done : ∀ p i, P.space.pages p = some i → i.kind = .mapped → P.space.Hit a z i.base → p < z
  gone : ∃ gone, P.views.Perm (gone ++ S.views) ∧ S.closed.Perm (gone.filterMap View.file ++ P.closed) ∧
    ∀ v ∈ gone, HitView P.space a z v.base
  views : ∀ v ∈ S.views, ¬HitView P.space a z v.base

theorem upto_start (P : Mappings) (a : Nat) : Upto P P a a where
  pages p := (P.space.without_empty a p).symm
  done := by
    rintro p i - - ⟨q, haq, hqa, -⟩
    omega
  gone := ⟨[], List.Perm.refl _, List.Perm.refl _, fun _ h => nomatch h⟩
  views := by
    rintro v - ⟨q, i, haq, hqa, -⟩
    omega

/-- A committed page is as it was. -/
private theorem Upto.committed {p : Nat} (h : Upto P S a z) (hp : S.space.pages p = some i) (hc : i.commit) :
    P.space.pages p = some i := by
  rw [h.pages] at hp
  obtain ⟨j, hj, -, -, heq⟩ := of_without hp
  rw [hj, heq hc]

/-- A committed page that has not been come to is as it was. -/
private theorem Upto.ahead {p : Nat} (h : Upto P S a z) (hp : P.space.pages p = some i) (hc : i.commit) (hz : z ≤ p) :
    S.space.pages p = some i := by
  rw [h.pages]
  apply without_ahead hp hc hz
  intro hk hhit
  have := h.done p i hp hk hhit
  omega

private theorem HitView.mono {m : AddressSpace} (h : HitView m a z b) (hzx : z ≤ x) : HitView m a x b := by
  obtain ⟨q, i, haq, hqz, hrest⟩ := h
  exact ⟨q, i, haq, by omega, hrest⟩

/-- The list and the handles where no view has been come to. -/
private theorem Upto.same_views (h : Upto P S a z) (hzx : z ≤ x)
    (hno : ∀ v, HitView P.space a x v → HitView P.space a z v) :
    (∃ gone, P.views.Perm (gone ++ S.views) ∧ S.closed.Perm (gone.filterMap View.file ++ P.closed) ∧
      ∀ v ∈ gone, HitView P.space a x v.base) ∧ ∀ v ∈ S.views, ¬HitView P.space a x v.base := by
  obtain ⟨gone, hperm, hclosed, hgone⟩ := h.gone
  refine ⟨⟨gone, hperm, hclosed, fun v hv => (hgone v hv).mono hzx⟩, fun v hv hhit => ?_⟩
  exact h.views v hv (hno v.base hhit)

/-- Pages that are not committed are passed over. -/
theorem Upto.skip (h : Upto P S a z) (hzx : z ≤ x) (hno : ∀ q, z ≤ q → q < x → ¬S.space.Committed q) :
    Upto P S a x := by
  have hno' : ∀ q, z ≤ q → q < x → ¬P.space.Committed q := by
    rintro q hzq hqx ⟨i, hi, hc⟩
    exact hno q hzq hqx ⟨i, h.ahead hi hc hzq, hc⟩
  obtain ⟨hgone, hviews⟩ := h.same_views hzx fun b ⟨q, i, haq, hqx, hq, hc, hrest⟩ => by
    refine ⟨q, i, haq, ?_, hq, hc, hrest⟩
    by_contra hge
    exact hno' q (by omega) hqx ⟨i, hq, hc⟩
  refine ⟨fun p => ?_, fun p i hp hk hhit => ?_, hgone, hviews⟩
  · rw [h.pages, without_skip hzx hno']
  · obtain ⟨q, haq, hqx, hc, hb⟩ := hhit
    have hqz : q < z := by
      by_contra hge
      exact hno' q (by omega) hqx hc
    have := h.done p i hp hk ⟨q, haq, hqz, hc, hb⟩
    omega

/-- The list is the view found and the others. -/
theorem perm_eraseP (views : List View) (b : Nat) :
    views.Perm ((views.find? fun v => v.base = b).toList ++ views.eraseP fun v => v.base = b) := by
  induction views with
  | nil => exact List.Perm.refl _
  | cons v views ih =>
    by_cases hv : v.base = b
    · rw [List.find?_cons_of_pos (by simpa using hv), List.eraseP_cons_of_pos (by simpa using hv)]
      exact List.Perm.refl _
    · rw [List.find?_cons_of_neg (by simpa using hv), List.eraseP_cons_of_neg (by simpa using hv)]
      exact (ih.cons v).trans List.perm_middle.symm

theorem base_ne_of_mem_eraseP {views : List View} (hnodup : (views.map View.base).Nodup) {v : View}
    (hv : v ∈ views.eraseP fun v => v.base = b) : v.base ≠ b := by
  induction views with
  | nil => cases hv
  | cons u views ih =>
    rw [List.map_cons, List.nodup_cons] at hnodup
    by_cases hu : u.base = b
    · rw [List.eraseP_cons_of_pos (by simpa using hu)] at hv
      intro heq
      apply hnodup.1
      rw [hu, ← heq]
      exact List.mem_map_of_mem hv
    · rw [List.eraseP_cons_of_neg (by simpa using hu)] at hv
      rcases List.mem_cons.1 hv with rfl | hv
      · exact hu
      · exact ih hnodup.2 hv

/-- A view is unmapped as a whole. -/
theorem Upto.view {e : Nat} (h : Upto P S a z) (haz : a ≤ z) (hz : S.space.pages z = some i) (hc : i.commit)
    (hk : i.kind = .mapped) (he : ∀ q, S.space.In i.base q ↔ i.base ≤ q ∧ q < e) :
    Upto P { S.forget i.base with space := S.space.release i.base } a e := by
  have hzP := h.committed hz hc
  have hze : z < e := ((he z).1 (in_of_pages hz)).2
  have hmissed : ¬P.space.Hit a z i.base := by
    intro hhit
    have := h.done z i hzP hk hhit
    omega
  have hhit : P.space.Hit a e i.base := ⟨z, haz, hze, ⟨i, hzP, hc⟩, in_of_pages hzP⟩
  -- the view has not been come to before, so its pages are as they were
  have hsame : ∀ q j, P.space.pages q = some j → j.base = i.base → j.kind = .mapped ∧ S.space.pages q = some j := by
    intro q j hq hbase
    have hkind := (kind_eq hq hzP hbase).trans hk
    refine ⟨hkind, ?_⟩
    rw [h.pages]
    apply without_missed hq hkind
    rw [hbase]
    exact hmissed
  have hin : ∀ q, P.space.In i.base q ↔ i.base ≤ q ∧ q < e := by
    intro q
    rw [← he]
    constructor
    · rintro ⟨j, hj, hbase⟩
      exact ⟨j, (hsame q j hj hbase).2, hbase⟩
    · rintro ⟨j, hj, hbase⟩
      rw [h.pages] at hj
      obtain ⟨k, hk', hkbase, -⟩ := of_without hj
      exact ⟨k, hk', hkbase.trans hbase⟩
  have hbz : i.base ≤ z := ((hin z).1 (in_of_pages hzP)).1
  have hrun : ∀ q, z ≤ q → q < e → P.space.In i.base q := fun q hzq hqe => (hin q).2 ⟨by omega, hqe⟩
  have hviews : ∀ b, HitView P.space a e b ↔ HitView P.space a z b ∨ b = i.base := by
    intro b
    constructor
    · rintro ⟨q, j, haq, hqe, hq, hrest⟩
      by_cases hqz : q < z
      · exact Or.inl ⟨q, j, haq, hqz, hq, hrest⟩
      · have hb := (hrun q (by omega) hqe).unique (in_of_pages hq)
        exact Or.inr (by rw [hb, hrest.2.2])
    · rintro (hold | rfl)
      · exact hold.mono (by omega)
      · exact ⟨z, i, haz, hze, hzP, hc, hk, rfl⟩
  refine ⟨fun p => ?_, fun p j hp hjk hjhit => ?_, ?_, fun v hv hvhit => ?_⟩
  · show (S.space.release i.base).pages p = _
    rw [pages_release]
    by_cases hp : P.space.In i.base p
    · obtain ⟨j, hj, hbase⟩ := hp
      obtain ⟨hjk, hS⟩ := hsame p j hj hbase
      rw [without_hit hj hjk (by rw [hbase]; exact hhit), hS, if_pos]
      rw [Option.map_some, hbase]
    · rw [without_other (by omega) hrun hp, ← h.pages, if_neg]
      intro hmap
      obtain ⟨j, hj, hbase⟩ := Option.map_eq_some_iff.1 hmap
      exact hp ((hin p).2 ((he p).1 ⟨j, hj, hbase⟩))
  · by_cases hbase : j.base = i.base
    · exact ((hin p).1 ⟨j, hp, hbase⟩).2
    · obtain ⟨q, haq, hqe, hqc, hb⟩ := hjhit
      have hqz : q < z := by
        by_contra hge
        exact hbase (hb.unique (hrun q (by omega) hqe))
      have := h.done p j hp hjk ⟨q, haq, hqz, hqc, hb⟩
      omega
  · obtain ⟨gone, hperm, hclosed, hgone⟩ := h.gone
    refine ⟨(S.views.find? fun v => v.base = i.base).toList ++ gone, ?_, ?_, fun v hv => ?_⟩
    · apply (hperm.trans ((perm_eraseP S.views i.base).append_left gone)).trans
      rw [← List.append_assoc]
      exact List.perm_append_comm.append_right _
    · show (((S.views.find? fun v => v.base = i.base).bind View.file).toList ++ S.closed).Perm _
      rw [List.filterMap_append, List.append_assoc]
      have hfile : (S.views.find? fun v => v.base = i.base).toList.filterMap View.file =
          ((S.views.find? fun v => v.base = i.base).bind View.file).toList := by
        cases S.views.find? fun v => v.base = i.base with
        | none => rfl
        | some v => cases hf : v.file <;> simp [hf]
      rw [hfile]
      exact hclosed.append_left _
    · rw [hviews]
      rcases List.mem_append.1 hv with hfound | hold
      · right
        rw [Option.mem_toList] at hfound
        simpa using List.find?_some hfound
      · exact Or.inl (hgone v hold)
  · have hv : v ∈ S.views.eraseP fun v => v.base = i.base := hv
    rcases (hviews v.base).1 hvhit with hold | hbase
    · exact h.views v (List.eraseP_subset hv) hold
    · exact base_ne_of_mem_eraseP S.nodup hv hbase

/-- The pages of a private allocation are no longer committed, and the allocation goes where none is left. -/
theorem Upto.priv (h : Upto P S a z) (haz : a ≤ z) (hzx : z < x)
    (hall : ∀ q, z ≤ q → q < x → S.space.pages q = some i) (hc : i.commit) (hk : i.kind = .priv) {left : Bool}
    (hleft : left = true ↔ ∃ q, (S.space.decommit z x).Committed q ∧ (S.space.decommit z x).In i.base q) :
    Upto P { S with space := if ¬left then (S.space.decommit z x).release i.base else S.space.decommit z x } a x := by
  have hrunP : ∀ q, z ≤ q → q < x → P.space.pages q = some i := fun q hzq hqx => h.committed (hall q hzq hqx) hc
  have hzP := hrunP z (Nat.le_refl z) hzx
  have hrun : ∀ q, z ≤ q → q < x → P.space.In i.base q := fun q hzq hqx => in_of_pages (hrunP q hzq hqx)
  have hkind : ∀ q j, P.space.pages q = some j → j.base = i.base → j.kind = .priv :=
    fun q j hq hbase => (kind_eq hq hzP hbase).trans hk
  have hhit : P.space.Hit a x i.base := ⟨z, haz, hzx, ⟨i, hzP, hc⟩, in_of_pages hzP⟩
  have hleftz : P.space.Left a z i.base := ⟨z, by omega, ⟨i, hzP, hc⟩, in_of_pages hzP⟩
  have hout : ∀ q, ¬(z ≤ q ∧ q < x) → (S.space.decommit z x).pages q = S.space.pages q := fun q hq => if_neg hq
  -- what is found left is what the range leaves
  have hfound : left = true ↔ P.space.Left a x i.base := by
    rw [hleft]
    constructor
    · rintro ⟨q, ⟨j, hj, hjc⟩, k, hk', hbase⟩
      rw [hj, Option.some_inj] at hk'
      rw [← hk'] at hbase
      have hqx : ¬(z ≤ q ∧ q < x) := by
        intro hin
        rw [pages_decommit, if_pos hin] at hj
        obtain ⟨l, -, rfl⟩ := Option.map_eq_some_iff.1 hj
        cases hjc
      rw [hout q hqx] at hj
      have hjP := h.committed hj hjc
      have hqz : ¬(a ≤ q ∧ q < z) := by
        rw [h.pages] at hj
        exact not_inside_of_without hj hjc (hkind q j hjP hbase)
      exact ⟨q, by omega, ⟨j, hjP, hjc⟩, ⟨j, hjP, hbase⟩⟩
    · rintro ⟨q, hqx, ⟨j, hj, hjc⟩, k, hk', hbase⟩
      rw [hj, Option.some_inj] at hk'
      rw [← hk'] at hbase
      have hS : (S.space.decommit z x).pages q = some j := by
        rw [hout q (by omega), h.pages]
        apply without_outside hj (hkind q j hj hbase)
        · rw [hbase]
          exact fun hgone => hgone.2 hleftz
        · rintro ⟨haq, hqz, -⟩
          omega
      exact ⟨q, ⟨j, hS, hjc⟩, ⟨j, hS, hbase⟩⟩
  obtain ⟨hgone, hviews⟩ := h.same_views (Nat.le_of_lt hzx) fun b ⟨q, j, haq, hqx, hq, hjc, hjk, hbase⟩ => by
    refine ⟨q, j, haq, ?_, hq, hjc, hjk, hbase⟩
    by_contra hge
    rw [hrunP q (by omega) hqx, Option.some_inj] at hq
    rw [← hq, hk] at hjk
    cases hjk
  refine ⟨fun p => ?_, fun p j hp hjk hjhit => ?_, hgone, hviews⟩
  · show (if ¬left then (S.space.decommit z x).release i.base else S.space.decommit z x).pages p = _
    by_cases hp : P.space.In i.base p
    · obtain ⟨j, hj, hbase⟩ := hp
      have hjk := hkind p j hj hbase
      have hkeep : ¬(P.space.Hit a z j.base ∧ ¬P.space.Left a z j.base) := by
        rw [hbase]
        exact fun hgone => hgone.2 hleftz
      have hT : (S.space.decommit z x).pages p =
          if a ≤ p ∧ p < x ∧ j.commit then some { j with commit := false, protect := 0 } else some j := by
        by_cases hin : z ≤ p ∧ p < x
        · have hji := hrunP p hin.1 hin.2
          rw [hj, Option.some_inj] at hji
          rw [pages_decommit, if_pos hin, hall p hin.1 hin.2, hji, if_pos ⟨by omega, hin.2, hc⟩]
          rfl
        · rw [hout p hin, h.pages]
          by_cases hbefore : a ≤ p ∧ p < z ∧ j.commit
          · rw [without_inside hj hjk hkeep hbefore, if_pos ⟨hbefore.1, by omega, hbefore.2.2⟩]
          · rw [without_outside hj hjk hkeep hbefore, if_neg]
            rintro ⟨hap, hpx, hjc⟩
            exact hbefore ⟨hap, by omega, hjc⟩
      cases left with
      | false =>
        have hnone : ¬P.space.Left a x j.base := by
          rw [hbase, ← hfound]
          exact Bool.false_ne_true
        rw [without_gone hj hjk (by rw [hbase]; exact hhit) hnone, if_pos Bool.false_ne_true, pages_release, if_pos]
        rw [hT, ← hbase]
        split <;> rfl
      | true =>
        have hkeepx : ¬(P.space.Hit a x j.base ∧ ¬P.space.Left a x j.base) := by
          rw [hbase]
          exact fun hgone => hgone.2 (hfound.1 rfl)
        rw [if_neg (not_not.2 rfl), hT]
        by_cases hinside : a ≤ p ∧ p < x ∧ j.commit
        · rw [without_inside hj hjk hkeepx hinside, if_pos hinside]
        · rw [without_outside hj hjk hkeepx hinside, if_neg hinside]
    · have hother : ¬(z ≤ p ∧ p < x) := fun hin => hp (hrun p hin.1 hin.2)
      rw [without_other (Nat.le_of_lt hzx) hrun hp, ← h.pages, ← hout p hother]
      split
      · rw [pages_release, if_neg]
        intro hmap
        obtain ⟨j, hj, hbase⟩ := Option.map_eq_some_iff.1 hmap
        rw [hout p hother, h.pages] at hj
        obtain ⟨k, hk', hkbase, -⟩ := of_without hj
        exact hp ⟨k, hk', hkbase.trans hbase⟩
      · rfl
  · obtain ⟨q, haq, hqx, hqc, hb⟩ := hjhit
    have hqz : q < z := by
      by_contra hge
      have hbase := hb.unique (hrun q (by omega) hqx)
      rw [hkind p j hp hbase] at hjk
      cases hjk
    have := h.done p j hp hjk ⟨q, haq, hqz, hqc, hb⟩
    omega

/-- The unmapping calls succeed. -/
structure MunmapWorld.Succeeds (w : MunmapWorld) : Prop where
  decommit : ∀ p, w.decommit p = none
  unmap : ∀ b, w.unmap b = none
  release : ∀ b, w.release b

/-- The second pass unmaps the range. -/
theorem secondPass (hw : w.Succeeds) (hcan : CanUnmap P a t t) {n : Nat} (hfuel : t ≤ n + z) (haz : a ≤ z)
    (hup : Upto P S a (min z t)) : ∃ S', munmapWalk w true a t n z S = some (none, S') ∧ Upto P S' a t := by
  induction n generalizing z S with
  | zero =>
    have hend : ¬z < t := by omega
    rw [munmapWalk, if_neg hend]
    rw [Nat.min_eq_right (by omega)] at hup
    exact ⟨S, rfl, hup⟩
  | succ n ih =>
    rw [munmapWalk]
    by_cases hzt : z < t
    case neg =>
      rw [if_pos hzt]
      rw [Nat.min_eq_right (by omega)] at hup
      exact ⟨S, rfl, hup⟩
    rw [if_neg (not_not.2 hzt)]
    rw [Nat.min_eq_left (by omega)] at hup
    cases hquery : S.space.query z with
    | none =>
      refine ⟨S, rfl, hup.skip (by omega) ?_⟩
      rintro q hq - ⟨j, hj, -⟩
      have hge := query_eq_none hquery
      have hlt := S.space.below q j hj
      omega
    | some o =>
      obtain ⟨o, next⟩ := o
      obtain ⟨hlt, -, hsame⟩ := query_eq_some hquery
      cases o with
      | none =>
        apply ih (by omega) (by omega)
        apply hup.skip (by omega)
        rintro q hq hqn ⟨j, hj, -⟩
        rw [hsame q hq (by omega)] at hj
        cases hj
      | some i =>
        dsimp only
        by_cases hc : i.commit
        case neg =>
          rw [if_pos hc]
          apply ih (by omega) (by omega)
          apply hup.skip (by omega)
          rintro q hq hqn ⟨j, hj, hjc⟩
          rw [hsame q hq (by omega), Option.some_inj] at hj
          rw [hj] at hc
          exact hc hjc
        rw [if_neg (not_not.2 hc)]
        have hhere := hsame z (Nat.le_refl z) hlt
        have hzP := hup.committed hhere hc
        obtain ⟨himage, hview⟩ := hcan z i haz hzt hzP hc
        cases hk : i.kind with
        | image => exact absurd hk himage
        | mapped =>
          obtain ⟨e, he, hin⟩ := winAllocEnd_spec (in_of_pages hhere)
          have hze : z < e := ((hin z).1 (in_of_pages hhere)).2
          have hview' := hup.view haz hhere hc hk hin
          have het : e ≤ t := by
            -- the last page of the view is in the range
            have hlast : S.space.In i.base (e - 1) :=
              (hin (e - 1)).2 ⟨by have := (hin z).1 (in_of_pages hhere); omega, by omega⟩
            obtain ⟨j, hj, hbase⟩ := hlast
            rw [hup.pages] at hj
            obtain ⟨k, hk', hkbase, -⟩ := of_without hj
            have := (hview hk).2 (e - 1) ⟨k, hk', hkbase.trans hbase⟩
            omega
          dsimp only
          rw [he, Option.bind_some, if_neg (not_not.2 rfl), hw.unmap]
          apply ih (by omega) (by omega)
          rw [Nat.min_eq_left het]
          exact hview'
        | priv =>
          dsimp only
          rw [if_neg (not_not.2 rfl), hw.decommit]
          dsimp only
          have hstop : z < (if next < t then next else t) ∧ (if next < t then next else t) ≤ next ∧
              (if next < t then next else t) ≤ t := by
            split
            · omega
            · omega
          generalize (if next < t then next else t) = stop at hstop
          have hin : (S.space.decommit z stop).In i.base z := by
            refine ⟨{ i with commit := false, protect := 0 }, ?_, rfl⟩
            rw [pages_decommit, if_pos ⟨Nat.le_refl z, hstop.1⟩, hhere]
            rfl
          obtain ⟨left, hleft, hfound⟩ := anyLeft_spec hin
          have hrun : ∀ q, z ≤ q → q < stop → S.space.pages q = some i := fun q hq hqs => hsame q hq (by omega)
          have hpriv := hup.priv haz hstop.1 hrun hc hk hfound
          rw [hleft, Option.bind_some]
          have hrelease : (if ¬left ∧ w.release i.base then (S.space.decommit z stop).release i.base
              else S.space.decommit z stop) =
              if ¬left then (S.space.decommit z stop).release i.base else S.space.decommit z stop := by
            simp [hw.release]
          rw [hrelease]
          apply ih (by omega) (by omega)
          rw [Nat.min_eq_left hstop.2.2]
          exact hpriv

/-! ### The call -/

theorem winPageRange_covered {page : Nat} (hpage : 0 < page) {addr length : BitVec 64} {start till : Nat}
    (h : winPageRange page addr length = some (start, till)) (p : Nat) :
    Covered page addr length p ↔ start ≤ p ∧ p < till := by
  rw [winPageRange] at h
  split at h
  · cases h
  dsimp only at h
  split at h
  · cases h
  rename_i hlast
  rw [Option.some_inj, Prod.mk.injEq] at h
  obtain ⟨rfl, rfl⟩ := h
  have hsum : (addr + length).toNat = addr.toNat + length.toNat := by
    rw [BitVec.lt_def, BitVec.toNat_add] at hlast
    rw [BitVec.toNat_add]
    omega
  rw [Covered, hsum]
  apply and_congr
  · rw [← Nat.lt_succ_iff, Nat.div_lt_iff_lt_mul hpage]
  · rw [Nat.lt_div_iff_mul_lt hpage]
    omega

private theorem winPageRange_le {page : Nat} {addr length : BitVec 64} {start till : Nat}
    (h : winPageRange page addr length = some (start, till)) : start ≤ till := by
  rw [winPageRange] at h
  split at h
  · cases h
  dsimp only at h
  split at h
  · cases h
  rename_i hlast
  rw [Option.some_inj, Prod.mk.injEq] at h
  obtain ⟨rfl, rfl⟩ := h
  have hle : addr.toNat ≤ (addr + length).toNat := by
    rw [not_or, BitVec.not_lt, BitVec.le_def] at hlast
    exact hlast.1
  by_cases hpage : page = 0
  · rw [hpage]
    simp
  · apply Nat.div_le_div_right
    omega

/-- What is left once both passes are over. -/
private theorem unmapped_of_upto {page : Nat} {addr length : BitVec 64}
    (hcover : ∀ p, Covered page addr length p ↔ a ≤ p ∧ p < t) (hcan : CanUnmap P a t t) (hup : Upto P S a t) :
    Unmapped page addr length P S := by
  have hhit (b : Nat) : P.space.Hit a t b ↔ ∃ q, P.space.In b q ∧ P.space.Committed q ∧
      Covered page addr length q := by
    constructor
    · rintro ⟨q, haq, hqt, hc, hb⟩
      exact ⟨q, hb, hc, (hcover q).2 ⟨haq, hqt⟩⟩
    · rintro ⟨q, hb, hc, hq⟩
      obtain ⟨haq, hqt⟩ := (hcover q).1 hq
      exact ⟨q, haq, hqt, hc, hb⟩
  have hhitview (b : Nat) : HitView P.space a t b ↔ ViewCovered page addr length P.space b := by
    constructor
    · rintro ⟨q, i, haq, hqt, hrest⟩
      exact ⟨q, i, (hcover q).2 ⟨haq, hqt⟩, hrest⟩
    · rintro ⟨q, i, hq, hrest⟩
      obtain ⟨haq, hqt⟩ := (hcover q).1 hq
      exact ⟨q, i, haq, hqt, hrest⟩
  -- a view has been come to where a page of it is covered
  have hview : ∀ p i, P.space.pages p = some i → i.kind = .mapped →
      (P.space.Hit a t i.base ↔ ViewCovered page addr length P.space i.base) := by
    intro p i hp hk
    rw [hhit]
    constructor
    · rintro ⟨q, ⟨j, hj, hbase⟩, ⟨j', hj', hjc⟩, hq⟩
      rw [hj, Option.some_inj] at hj'
      rw [← hj'] at hjc
      exact ⟨q, j, hq, hj, hjc, (kind_eq hj hp hbase).trans hk, hbase⟩
    · rintro ⟨q, j, hq, hj, hjc, -, hbase⟩
      exact ⟨q, ⟨j, hj, hbase⟩, ⟨j, hj, hjc⟩, hq⟩
  constructor
  · rintro p hp ⟨i, hi, hc⟩
    obtain ⟨hap, hpt⟩ := (hcover p).1 hp
    have hpP := hup.committed hi hc
    rw [hup.pages] at hi
    cases hk : i.kind with
    | image => exact (hcan p i hap hpt hpP hc).1 hk
    | mapped =>
      rw [without_hit hpP hk ⟨p, hap, hpt, ⟨i, hpP, hc⟩, in_of_pages hpP⟩] at hi
      cases hi
    | priv => exact not_inside_of_without hi hc hk ⟨hap, hpt⟩
  · rintro p hp ⟨i, hi, hc⟩ hgone
    have hout : ¬(a ≤ p ∧ p < t) := fun hin => hp ((hcover p).2 hin)
    have hstill : ∀ o, P.space.without a t p = some o → o = i → False := by
      intro o ho hoi
      apply hgone
      rw [← hup.pages, hoi] at ho
      exact ⟨i, ho, hc⟩
    cases hk : i.kind with
    | image => exact absurd rfl fun heq => hstill i (without_image hi hk) heq
    | mapped =>
      have hyes : P.space.Hit a t i.base := by
        by_contra hno
        exact hstill i (without_missed hi hk hno) rfl
      obtain ⟨q, haq, hqt, ⟨j, hj, hjc⟩, k, hk', hbase⟩ := hyes
      rw [hj, Option.some_inj] at hk'
      rw [← hk'] at hbase
      obtain ⟨-, hwhole⟩ := hcan q j haq hqt hj hjc
      obtain ⟨hstart, hend⟩ := hwhole ((kind_eq hj hi hbase).trans hk)
      rw [hbase] at hstart hend
      have hpt := hend p (in_of_pages hi)
      refine ⟨i, hi, hk, by omega, fun r hr hsr => (hcover r).2 ⟨by omega, hend r hr⟩⟩
    | priv =>
      exfalso
      apply hstill i _ rfl
      apply without_outside hi hk
      · rintro ⟨-, hleft⟩
        exact hleft ⟨p, hout, ⟨i, hi, hc⟩, in_of_pages hi⟩
      · rintro ⟨hap, hpt, -⟩
        exact hout ⟨hap, hpt⟩
  · rintro p ⟨i, hi, hc⟩
    rw [hi, hup.committed hi hc]
  · intro p i hp hk
    rw [← hhit]
    have hkind : ∀ q j, P.space.pages q = some j → j.base = i.base → j.kind = .priv :=
      fun q j hq hbase => (kind_eq hq hp hbase).trans hk
    constructor
    · intro hnone
      rw [hup.pages] at hnone
      by_cases hgone : P.space.Hit a t i.base ∧ ¬P.space.Left a t i.base
      · refine ⟨hgone.1, ?_⟩
        rintro q ⟨k, hk', hbase⟩ ⟨j, hj, hjc⟩
        have hjP := hup.committed hj hjc
        rw [hjP, Option.some_inj] at hk'
        rw [← hk'] at hbase
        rw [hup.pages] at hj
        exact hgone.2 ⟨q, not_inside_of_without hj hjc (hkind q j hjP hbase), ⟨j, hjP, hjc⟩, ⟨j, hjP, hbase⟩⟩
      · by_cases hinside : a ≤ p ∧ p < t ∧ i.commit
        · rw [without_inside hp hk hgone hinside] at hnone
          cases hnone
        · rw [without_outside hp hk hgone hinside] at hnone
          cases hnone
    · rintro ⟨hyes, hnone⟩
      rw [hup.pages]
      apply without_gone hp hk hyes
      rintro ⟨q, hout, ⟨j, hj, hjc⟩, k, hk', hbase⟩
      rw [hj, Option.some_inj] at hk'
      rw [← hk'] at hbase
      have hS : S.space.pages q = some j := by
        rw [hup.pages]
        apply without_outside hj (hkind q j hj hbase)
        · rintro ⟨-, hleft⟩
          exact hleft ⟨q, hout, ⟨j, hj, hjc⟩, in_of_pages hj⟩
        · rintro ⟨haq, hqt, -⟩
          exact hout ⟨haq, hqt⟩
      exact hnone q ⟨j, hj, hbase⟩ ⟨j, hS, hjc⟩
  · intro p i hp hk
    rw [← hview p i hp hk, hup.pages]
    by_cases h : P.space.Hit a t i.base
    · simp [without_hit hp hk h, h]
    · simp [without_missed hp hk h, h]
  · obtain ⟨gone, hperm, hclosed, hgone⟩ := hup.gone
    refine ⟨gone, hperm, hclosed, fun v hv => (hhitview v.base).1 (hgone v hv), fun v hv hvc => ?_⟩
    exact hup.views v hv ((hhitview v.base).2 hvc)

/-- An unmap ends: it fails and changes nothing, or all that it covers is unmapped, and nothing else but the head of a
view that is not mapped. -/
theorem sppcMunmap_unmaps (w : MunmapWorld) (page : Nat) (hpage : 0 < page) (P : Mappings) (addr length : BitVec 64)
    (hw : w.Succeeds) : ∃ err P', sppcMunmap w page P addr length = some (err, P') ∧
      (err = some .EINVAL ∧ P' = P ∨ err = none ∧ Unmapped page addr length P P') := by
  rw [sppcMunmap]
  split
  · exact ⟨_, P, rfl, Or.inl ⟨rfl, rfl⟩⟩
  cases hrange : winPageRange page addr length with
  | none => exact ⟨_, P, rfl, Or.inl ⟨rfl, rfl⟩⟩
  | some r =>
    obtain ⟨start, till⟩ := r
    have hfirst : CanUnmap P start till start := by
      intro p i hap hpa
      omega
    obtain ⟨err, hpass, ⟨rfl, hcan⟩ | rfl⟩ := firstPass (w := w) (n := till - start) (by omega) hfirst
    · have hstart : Upto P P start (min start till) := by
        rw [Nat.min_eq_left (winPageRange_le hrange)]
        exact upto_start P start
      obtain ⟨P', hpass', hup⟩ := secondPass hw hcan (n := till - start) (by omega) (Nat.le_refl start) hstart
      refine ⟨none, P', ?_, Or.inr ⟨rfl, unmapped_of_upto (winPageRange_covered hpage hrange) hcan hup⟩⟩
      dsimp only
      rw [hpass, Option.bind_some]
      exact hpass'
    · refine ⟨_, P, ?_, Or.inl ⟨rfl, rfl⟩⟩
      dsimp only
      rw [hpass]
      rfl

/-- Three pages of a private allocation, of which the last has been given back. -/
def threePages : Mappings where
  space := {
    top := 32
    pages := fun p => if 16 ≤ p ∧ p < 19 then some ⟨16, .priv, p < 18, 4⟩ else none
    below := by
      intro p i h
      split at h
      · omega
      · cases h
    whole := by
      intro p i h
      split at h
      · cases h
        refine ⟨by dsimp only; omega, fun q hb hq => ?_⟩
        dsimp only at hb
        rw [if_pos (by omega)]
        exact ⟨_, rfl, rfl, rfl⟩
      · cases h }
  views := []
  closed := []
  nodup := List.nodup_nil

/-- The two that are left are unmapped, and the allocation is gone. -/
theorem sppcMunmap_unmaps_last :
    ∃ P', sppcMunmap ⟨fun _ => none, fun _ => none, fun _ => true⟩ 4096 threePages 65536 8192 = some (none, P') ∧
      Unmapped 4096 65536 8192 threePages P' := by
  obtain ⟨err, P', h, hend⟩ := sppcMunmap_unmaps ⟨fun _ => none, fun _ => none, fun _ => true⟩
    4096 (by decide) threePages 65536 8192 ⟨fun _ => rfl, fun _ => rfl, fun _ => rfl⟩
  have hnone : (sppcMunmap ⟨fun _ => none, fun _ => none, fun _ => true⟩ 4096 threePages 65536 8192).map Prod.fst =
      some none := by decide +kernel
  rw [h, Option.map_some, Option.some_inj] at hnone
  dsimp only at hnone
  rw [hnone] at h hend
  rcases hend with ⟨hinval, -⟩ | ⟨-, hunmapped⟩
  · cases hinval
  · exact ⟨P', h, hunmapped⟩

end Sppc.Windows
