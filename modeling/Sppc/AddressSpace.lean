import Mathlib.Data.List.Basic
import Mathlib.Logic.Basic

/-!
# Pages and allocations

The pages of a process's memory, most of which belong to allocations: runs of pages, reserved together, of which some
are committed.  A query finds the run of like pages from a page on.
-/

/-- What an allocation is: the process's own memory, a view of a section, or a loaded module. -/
inductive MemKind
  | priv | mapped | image
  deriving DecidableEq, Repr

/-- A page of an allocation, whose first page is `base`. -/
structure PageInfo where
  base : Nat
  kind : MemKind
  commit : Bool
  protect : Nat
  deriving DecidableEq, Repr

/-- The pages below `top`, of which those that are free are in no allocation.  An allocation has no gaps. -/
structure AddressSpace where
  top : Nat
  pages : Nat → Option PageInfo
  below : ∀ p i, pages p = some i → p < top
  whole : ∀ p i, pages p = some i → i.base ≤ p ∧
    ∀ q, i.base ≤ q → q ≤ p → ∃ j, pages q = some j ∧ j.base = i.base ∧ j.kind = i.kind

namespace AddressSpace

variable {m : AddressSpace} {p q b a z : Nat} {i j : PageInfo}

/-- A page is committed. -/
def Committed (m : AddressSpace) (p : Nat) : Prop := ∃ i, m.pages p = some i ∧ i.commit

/-- A page is in the allocation whose first page is `b`. -/
def In (m : AddressSpace) (b p : Nat) : Prop := ∃ i, m.pages p = some i ∧ i.base = b

/-! ### Queries -/

/-- The end of the run of pages like `o`, from `q` on, of at most `n` pages. -/
def runEnd (m : AddressSpace) (o : Option PageInfo) : Nat → Nat → Nat
  | 0, q => q
  | n + 1, q => if m.pages q = o then runEnd m o n (q + 1) else q

/-- The end of the run of pages like page `p`. -/
def regionEnd (m : AddressSpace) (p : Nat) : Nat := m.runEnd (m.pages p) (m.top - (p + 1)) (p + 1)

/-- What a page is, and where the pages like it end: `none` past the end of memory. -/
def query (m : AddressSpace) (p : Nat) : Option (Option PageInfo × Nat) :=
  if p < m.top then some (m.pages p, m.regionEnd p) else none

private theorem le_runEnd (m : AddressSpace) (o : Option PageInfo) (n q : Nat) : q ≤ m.runEnd o n q := by
  induction n generalizing q with
  | zero => exact Nat.le_refl q
  | succ n ih =>
    rw [runEnd]
    split
    · exact Nat.le_trans (Nat.le_succ q) (ih (q + 1))
    · exact Nat.le_refl q

private theorem pages_runEnd {o : Option PageInfo} {n x : Nat} (hx : q ≤ x) (hlt : x < m.runEnd o n q) :
    m.pages x = o := by
  induction n generalizing q with
  | zero =>
    rw [runEnd] at hlt
    omega
  | succ n ih =>
    rw [runEnd] at hlt
    split at hlt
    · rename_i heq
      by_cases hxq : x = q
      · rw [hxq]
        exact heq
      · exact ih (by omega) hlt
    · omega

private theorem lt_regionEnd (m : AddressSpace) (p : Nat) : p < m.regionEnd p := m.le_runEnd _ _ _

private theorem pages_region (hle : p ≤ q) (hlt : q < m.regionEnd p) : m.pages q = m.pages p := by
  by_cases h : q = p
  · rw [h]
  · exact pages_runEnd (by omega) hlt

/-- What a query says. -/
theorem query_eq_some {o : Option PageInfo} {next : Nat} (h : m.query p = some (o, next)) :
    p < next ∧ p < m.top ∧ ∀ q, p ≤ q → q < next → m.pages q = o := by
  rw [query] at h
  split at h
  · rename_i hlt
    rw [Option.some_inj, Prod.mk.injEq] at h
    obtain ⟨rfl, rfl⟩ := h
    exact ⟨m.lt_regionEnd p, hlt, fun q hle hlt => pages_region hle hlt⟩
  · cases h

theorem query_eq_none (h : m.query p = none) : m.top ≤ p := by
  rw [query] at h
  split at h
  · cases h
  · omega

/-! ### Allocations -/

theorem In.base_le (h : m.In b p) : b ≤ p := by
  obtain ⟨i, hi, rfl⟩ := h
  exact (m.whole p i hi).1

theorem In.lt_top (h : m.In b p) : p < m.top := by
  obtain ⟨i, hi, -⟩ := h
  exact m.below p i hi

/-- An allocation has the pages before any of its own, from its first one on. -/
private theorem In.of_le (h : m.In b p) (hb : b ≤ q) (hq : q ≤ p) : m.In b q := by
  obtain ⟨i, hi, rfl⟩ := h
  obtain ⟨j, hj, hbase, -⟩ := (m.whole p i hi).2 q hb hq
  exact ⟨j, hj, hbase⟩

theorem In.unique {c : Nat} (h : m.In b p) (h' : m.In c p) : b = c := by
  obtain ⟨i, hi, rfl⟩ := h
  obtain ⟨j, hj, rfl⟩ := h'
  rw [hi, Option.some_inj] at hj
  rw [hj]

theorem in_of_pages (h : m.pages p = some i) : m.In i.base p := ⟨i, h, rfl⟩

/-- The pages of an allocation are of one kind. -/
theorem kind_eq (hp : m.pages p = some i) (hq : m.pages q = some j) (h : i.base = j.base) : i.kind = j.kind := by
  obtain ⟨x, hx, -, hxi⟩ := (m.whole p i hp).2 i.base (Nat.le_refl _) (m.whole p i hp).1
  obtain ⟨y, hy, -, hyj⟩ := (m.whole q j hq).2 j.base (Nat.le_refl _) (m.whole q j hq).1
  rw [h, hy, Option.some_inj] at hx
  rw [← hxi, ← hyj, hx]

/-- The pages of an allocation come back to it from its end: none is past a page that is not its own. -/
theorem In.lt_end (h : m.In b p) (hb : b ≤ z) (hz : ¬m.In b z) : p < z := by
  by_contra hge
  exact hz (h.of_le hb (by omega))

/-! ### Changes -/

/-- The pages from `a` to `z`, no longer committed. -/
def decommit (m : AddressSpace) (a z : Nat) : AddressSpace where
  top := m.top
  pages p := if a ≤ p ∧ p < z then (m.pages p).map fun i => { i with commit := false, protect := 0 } else m.pages p
  below := by
    intro p i h
    split at h
    · obtain ⟨j, hj, -⟩ := Option.map_eq_some_iff.1 h
      exact m.below p j hj
    · exact m.below p i h
  whole := by
    have hold : ∀ p i, (if a ≤ p ∧ p < z then (m.pages p).map fun i => { i with commit := false, protect := 0 }
        else m.pages p) = some i → ∃ j, m.pages p = some j ∧ j.base = i.base ∧ j.kind = i.kind := by
      intro p i h
      split at h
      · obtain ⟨j, hj, rfl⟩ := Option.map_eq_some_iff.1 h
        exact ⟨j, hj, rfl, rfl⟩
      · exact ⟨i, h, rfl, rfl⟩
    intro p i h
    obtain ⟨j, hj, hbase, hkind⟩ := hold p i h
    rw [← hbase, ← hkind]
    refine ⟨(m.whole p j hj).1, fun q hb hq => ?_⟩
    obtain ⟨k, hk, hkbase, hkkind⟩ := (m.whole p j hj).2 q hb hq
    rw [hk]
    split
    · exact ⟨_, rfl, hkbase, hkkind⟩
    · exact ⟨k, rfl, hkbase, hkkind⟩

/-- The space without the allocation whose first page is `b`. -/
def release (m : AddressSpace) (b : Nat) : AddressSpace where
  top := m.top
  pages p := if (m.pages p).map PageInfo.base = some b then none else m.pages p
  below := by
    intro p i h
    split at h
    · cases h
    · exact m.below p i h
  whole := by
    intro p i h
    split at h
    · cases h
    · rename_i hne
      refine ⟨(m.whole p i h).1, fun q hb hq => ?_⟩
      obtain ⟨j, hj, hbase, hkind⟩ := (m.whole p i h).2 q hb hq
      refine ⟨j, ?_, hbase, hkind⟩
      rw [if_neg, hj]
      rw [h, Option.map_some, Option.some_inj] at hne
      rw [hj, Option.map_some, Option.some_inj, hbase]
      exact hne

theorem pages_decommit (m : AddressSpace) (a z p : Nat) : (m.decommit a z).pages p =
    if a ≤ p ∧ p < z then (m.pages p).map fun i => { i with commit := false, protect := 0 } else m.pages p := rfl

theorem pages_release (m : AddressSpace) (b p : Nat) :
    (m.release b).pages p = if (m.pages p).map PageInfo.base = some b then none else m.pages p := rfl

/-! ### A range unmapped -/

/-- A committed page from `a` to `z` is in the allocation at `b`. -/
def Hit (m : AddressSpace) (a z b : Nat) : Prop := ∃ q, a ≤ q ∧ q < z ∧ m.Committed q ∧ m.In b q

/-- A committed page elsewhere is. -/
def Left (m : AddressSpace) (a z b : Nat) : Prop := ∃ q, ¬(a ≤ q ∧ q < z) ∧ m.Committed q ∧ m.In b q

open Classical in
/-- What a page is once the pages from `a` to `z` are unmapped: of a view, all of it; of other memory, the pages are
no longer committed, and where no others are, none of it is left. -/
noncomputable def without (m : AddressSpace) (a z p : Nat) : Option PageInfo :=
  match m.pages p with
  | none => none
  | some i =>
    match i.kind with
    | .image => some i
    | .mapped => if m.Hit a z i.base then none else some i
    | .priv =>
      if m.Hit a z i.base ∧ ¬m.Left a z i.base then none
      else if a ≤ p ∧ p < z ∧ i.commit then some { i with commit := false, protect := 0 }
      else some i

theorem without_none (h : m.pages p = none) : m.without a z p = none := by rw [without, h]

theorem without_image (h : m.pages p = some i) (hk : i.kind = .image) : m.without a z p = some i := by
  rw [without, h]
  dsimp only
  rw [hk]

theorem without_hit (h : m.pages p = some i) (hk : i.kind = .mapped) (hhit : m.Hit a z i.base) :
    m.without a z p = none := by
  rw [without, h]
  dsimp only
  rw [hk]
  exact if_pos hhit

theorem without_missed (h : m.pages p = some i) (hk : i.kind = .mapped) (hhit : ¬m.Hit a z i.base) :
    m.without a z p = some i := by
  rw [without, h]
  dsimp only
  rw [hk]
  exact if_neg hhit

theorem without_gone (h : m.pages p = some i) (hk : i.kind = .priv) (hhit : m.Hit a z i.base)
    (hleft : ¬m.Left a z i.base) : m.without a z p = none := by
  rw [without, h]
  dsimp only
  rw [hk]
  exact if_pos ⟨hhit, hleft⟩

theorem without_inside (h : m.pages p = some i) (hk : i.kind = .priv)
    (hkeep : ¬(m.Hit a z i.base ∧ ¬m.Left a z i.base)) (hp : a ≤ p ∧ p < z ∧ i.commit) :
    m.without a z p = some { i with commit := false, protect := 0 } := by
  rw [without, h]
  dsimp only
  rw [hk]
  dsimp only
  rw [if_neg hkeep, if_pos hp]

theorem without_outside (h : m.pages p = some i) (hk : i.kind = .priv)
    (hkeep : ¬(m.Hit a z i.base ∧ ¬m.Left a z i.base)) (hp : ¬(a ≤ p ∧ p < z ∧ i.commit)) :
    m.without a z p = some i := by
  rw [without, h]
  dsimp only
  rw [hk]
  dsimp only
  rw [if_neg hkeep, if_neg hp]

/-- What is not there, or not committed, is not of interest: two ranges with the same committed pages
leave the same. -/
private theorem without_congr {x : Nat} (hp : m.pages p = some i) (hhit : m.Hit a x i.base ↔ m.Hit a z i.base)
    (hleft : m.Left a x i.base ↔ m.Left a z i.base)
    (hin : a ≤ p ∧ p < x ∧ i.commit ↔ a ≤ p ∧ p < z ∧ i.commit) : m.without a x p = m.without a z p := by
  cases hk : i.kind with
  | image => rw [without_image hp hk, without_image hp hk]
  | mapped =>
    by_cases h : m.Hit a z i.base
    · rw [without_hit hp hk h, without_hit hp hk (hhit.2 h)]
    · rw [without_missed hp hk h, without_missed hp hk fun hx => h (hhit.1 hx)]
  | priv =>
    by_cases hgone : m.Hit a z i.base ∧ ¬m.Left a z i.base
    · rw [without_gone hp hk hgone.1 hgone.2, without_gone hp hk (hhit.2 hgone.1) fun hx => hgone.2 (hleft.1 hx)]
    · have hkeep : ¬(m.Hit a x i.base ∧ ¬m.Left a x i.base) := by
        rw [hhit, hleft]
        exact hgone
      by_cases h : a ≤ p ∧ p < z ∧ i.commit
      · rw [without_inside hp hk hgone h, without_inside hp hk hkeep (hin.2 h)]
      · rw [without_outside hp hk hgone h, without_outside hp hk hkeep fun hx => h (hin.1 hx)]

/-- The pages that follow are not committed. -/
theorem without_skip {x : Nat} (hle : z ≤ x) (h : ∀ q, z ≤ q → q < x → ¬m.Committed q) (p : Nat) :
    m.without a x p = m.without a z p := by
  have hsame : ∀ q, m.Committed q → (a ≤ q ∧ q < x ↔ a ≤ q ∧ q < z) := by
    intro q hq
    constructor
    · rintro ⟨haq, hqx⟩
      refine ⟨haq, ?_⟩
      by_contra hge
      exact h q (by omega) hqx hq
    · rintro ⟨haq, hqz⟩
      exact ⟨haq, by omega⟩
  cases hp : m.pages p with
  | none => rw [without_none hp, without_none hp]
  | some i =>
    apply without_congr hp
    · constructor
      · rintro ⟨q, haq, hqx, hc, hb⟩
        obtain ⟨-, hqz⟩ := (hsame q hc).1 ⟨haq, hqx⟩
        exact ⟨q, haq, hqz, hc, hb⟩
      · rintro ⟨q, haq, hqz, hc, hb⟩
        exact ⟨q, haq, by omega, hc, hb⟩
    · constructor
      · rintro ⟨q, hout, hc, hb⟩
        exact ⟨q, fun hin => hout ((hsame q hc).2 hin), hc, hb⟩
      · rintro ⟨q, hout, hc, hb⟩
        exact ⟨q, fun hin => hout ((hsame q hc).1 hin), hc, hb⟩
    · by_cases hc : i.commit
      · have hiff := hsame p ⟨i, hp, hc⟩
        simp only [hc, and_true]
        exact hiff
      · simp [hc]

/-- The pages that follow are all of one allocation, which the page is not of. -/
theorem without_other {x : Nat} (hle : z ≤ x) (h : ∀ q, z ≤ q → q < x → m.In b q) (hp : ¬m.In b p) :
    m.without a x p = m.without a z p := by
  cases hpages : m.pages p with
  | none => rw [without_none hpages, without_none hpages]
  | some i =>
    have hne : b ≠ i.base := by
      rintro rfl
      exact hp (in_of_pages hpages)
    have hlt : ∀ q, m.In i.base q → q < x → q < z := by
      intro q hq hqx
      by_contra hge
      exact hne ((h q (by omega) hqx).unique hq)
    apply without_congr hpages
    · constructor
      · rintro ⟨q, haq, hqx, hc, hb⟩
        exact ⟨q, haq, hlt q hb hqx, hc, hb⟩
      · rintro ⟨q, haq, hqz, hc, hb⟩
        exact ⟨q, haq, by omega, hc, hb⟩
    · constructor
      · rintro ⟨q, hout, hc, hb⟩
        exact ⟨q, fun hin => hout ⟨hin.1, by omega⟩, hc, hb⟩
      · rintro ⟨q, hout, hc, hb⟩
        exact ⟨q, fun hin => hout ⟨hin.1, hlt q hb hin.2⟩, hc, hb⟩
    · constructor
      · rintro ⟨hap, hpx, hc⟩
        exact ⟨hap, hlt p (in_of_pages hpages) hpx, hc⟩
      · rintro ⟨hap, hpz, hc⟩
        exact ⟨hap, by omega, hc⟩

/-- What is left is what was there, but for what has been decommitted. -/
theorem of_without (h : m.without a z p = some j) :
    ∃ i, m.pages p = some i ∧ i.base = j.base ∧ i.kind = j.kind ∧ (j.commit → i = j) := by
  cases hp : m.pages p with
  | none =>
    rw [without_none hp] at h
    cases h
  | some i =>
    refine ⟨i, rfl, ?_⟩
    rw [without, hp] at h
    dsimp only at h
    split at h
    · rw [Option.some_inj] at h
      rw [h]
      exact ⟨rfl, rfl, fun _ => rfl⟩
    · split at h
      · cases h
      · rw [Option.some_inj] at h
        rw [h]
        exact ⟨rfl, rfl, fun _ => rfl⟩
    · split at h
      · cases h
      · split at h
        · rw [Option.some_inj] at h
          rw [← h]
          exact ⟨rfl, rfl, fun hc => absurd hc Bool.false_ne_true⟩
        · rw [Option.some_inj] at h
          rw [h]
          exact ⟨rfl, rfl, fun _ => rfl⟩

/-- A committed page that has not been come to is as it was, unless it is of a view of which others have been. -/
theorem without_ahead (hp : m.pages p = some i) (hc : i.commit) (hz : z ≤ p)
    (hview : i.kind = .mapped → ¬m.Hit a z i.base) : m.without a z p = some i := by
  have hout : ¬(a ≤ p ∧ p < z) := by omega
  cases hk : i.kind with
  | image => exact without_image hp hk
  | mapped => exact without_missed hp hk (hview hk)
  | priv =>
    apply without_outside hp hk
    · rintro ⟨-, hleft⟩
      exact hleft ⟨p, hout, ⟨i, hp, hc⟩, in_of_pages hp⟩
    · rintro ⟨hap, hpz, -⟩
      exact hout ⟨hap, hpz⟩

/-- Nothing is unmapped of an empty range. -/
theorem without_empty (m : AddressSpace) (a p : Nat) : m.without a a p = m.pages p := by
  have hhit (b : Nat) : ¬m.Hit a a b := by
    rintro ⟨q, haq, hqa, -⟩
    omega
  cases hp : m.pages p with
  | none => exact without_none hp
  | some i =>
    cases hk : i.kind with
    | image => exact without_image hp hk
    | mapped => exact without_missed hp hk (hhit _)
    | priv =>
      apply without_outside hp hk
      · exact fun h => hhit _ h.1
      · rintro ⟨hap, hpa, -⟩
        omega

/-- A page of a private allocation that is committed still has not been come to. -/
theorem not_inside_of_without (h : m.without a z p = some i) (hc : i.commit) (hk : i.kind = .priv) :
    ¬(a ≤ p ∧ p < z) := by
  intro hin
  obtain ⟨j, hp, -, -, hj⟩ := of_without h
  rw [hj hc] at hp
  by_cases hgone : m.Hit a z i.base ∧ ¬m.Left a z i.base
  · rw [without_gone hp hk hgone.1 hgone.2] at h
    cases h
  · rw [without_inside hp hk hgone ⟨hin.1, hin.2, hc⟩, Option.some_inj] at h
    rw [← h] at hc
    cases hc

/-! ### Allocations made -/

/-- A free place for `n` pages. -/
structure Gap (m : AddressSpace) (n : Nat) where
  base : Nat
  pos : 0 < base
  le_top : base + n ≤ m.top
  free : ∀ p, base ≤ p → p < base + n → m.pages p = none

/-- No allocation starts at a free place. -/
theorem Gap.not_in {n : Nat} (g : m.Gap n) (hn : 0 < n) (p : Nat) : ¬m.In g.base p := by
  intro h
  obtain ⟨i, hi, -⟩ := h.of_le (Nat.le_refl _) h.base_le
  rw [g.free g.base (Nat.le_refl _) (by omega)] at hi
  cases hi

/-- The space with an allocation at a free place, all committed. -/
def allocate (m : AddressSpace) {n : Nat} (g : m.Gap n) (kind : MemKind) (protect : Nat) : AddressSpace where
  top := m.top
  pages p := if g.base ≤ p ∧ p < g.base + n then some ⟨g.base, kind, true, protect⟩ else m.pages p
  below := by
    intro p i h
    split at h
    · have := g.le_top
      omega
    · exact m.below p i h
  whole := by
    intro p i h
    split at h
    · rename_i hp
      rw [← Option.some.inj h]
      refine ⟨hp.1, fun q hb hq => ?_⟩
      rw [if_pos ⟨hb, by omega⟩]
      exact ⟨_, rfl, rfl, rfl⟩
    · refine ⟨(m.whole p i h).1, fun q hb hq => ?_⟩
      obtain ⟨j, hj, hrest⟩ := (m.whole p i h).2 q hb hq
      -- what is taken already is not in the place
      rw [if_neg (fun hin => by rw [g.free q hin.1 hin.2] at hj; cases hj)]
      exact ⟨j, hj, hrest⟩

/-- The pages from `a` to `z` with another protection. -/
def reprotect (m : AddressSpace) (a z protect : Nat) : AddressSpace where
  top := m.top
  pages p := if a ≤ p ∧ p < z then (m.pages p).map fun i => { i with protect := protect } else m.pages p
  below := by
    intro p i h
    split at h
    · obtain ⟨j, hj, -⟩ := Option.map_eq_some_iff.1 h
      exact m.below p j hj
    · exact m.below p i h
  whole := by
    intro p i h
    obtain ⟨j, hj, hbase, hkind⟩ : ∃ j, m.pages p = some j ∧ j.base = i.base ∧ j.kind = i.kind := by
      split at h
      · obtain ⟨j, hj, rfl⟩ := Option.map_eq_some_iff.1 h
        exact ⟨j, hj, rfl, rfl⟩
      · exact ⟨i, h, rfl, rfl⟩
    rw [← hbase, ← hkind]
    refine ⟨(m.whole p j hj).1, fun q hb hq => ?_⟩
    obtain ⟨k, hk, hkbase, hkkind⟩ := (m.whole p j hj).2 q hb hq
    rw [hk]
    split
    · exact ⟨_, rfl, hkbase, hkkind⟩
    · exact ⟨k, rfl, hkbase, hkkind⟩

theorem pages_allocate {n : Nat} (g : m.Gap n) (kind : MemKind) (protect p : Nat) :
    (m.allocate g kind protect).pages p =
      if g.base ≤ p ∧ p < g.base + n then some ⟨g.base, kind, true, protect⟩ else m.pages p := rfl

private theorem pages_reprotect (m : AddressSpace) (a z protect p : Nat) : (m.reprotect a z protect).pages p =
    if a ≤ p ∧ p < z then (m.pages p).map fun i => { i with protect := protect } else m.pages p := rfl

/-- An allocation made is there, with the protection that it has been given, and all else is as it was. -/
theorem pages_reprotect_allocate {n : Nat} (g : m.Gap n) (kind : MemKind) (protect protect' p : Nat) :
    ((m.allocate g kind protect).reprotect g.base (g.base + n) protect').pages p =
      if g.base ≤ p ∧ p < g.base + n then some ⟨g.base, kind, true, protect'⟩ else m.pages p := by
  rw [pages_reprotect, pages_allocate]
  split
  · rfl
  · rfl

/-- An allocation made and released leaves nothing. -/
theorem pages_release_made {n : Nat} (g : m.Gap n) (hn : 0 < n) {m' : AddressSpace} {kind : MemKind} {protect : Nat}
    (h : ∀ p, m'.pages p = if g.base ≤ p ∧ p < g.base + n then some ⟨g.base, kind, true, protect⟩ else m.pages p)
    (p : Nat) : (m'.release g.base).pages p = m.pages p := by
  rw [pages_release, h]
  by_cases hp : g.base ≤ p ∧ p < g.base + n
  · rw [if_pos hp, Option.map_some, if_pos rfl, g.free p hp.1 hp.2]
  · rw [if_neg hp, if_neg]
    intro hbase
    obtain ⟨i, hi, hib⟩ := Option.map_eq_some_iff.1 hbase
    exact g.not_in hn p ⟨i, hi, hib⟩

end AddressSpace
