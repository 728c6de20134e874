import Sppc.Windows.Files
import Sppc.Descriptors
import Mathlib.Algebra.Group.Pi.Basic

/-!
# The entries and the references of the fd table

What each locked section of the table does to its entries, and that the references balance: a description has as many
as there are entries that name it and references that calls hold.
-/

namespace Sppc.Windows

open Descriptors

namespace Files

variable {s s' : Files} {held : Nat → Nat} {fd d x : Nat} {o : Option Nat} {c : Bool}

/-- The descriptor map that the table stands for. -/
def map (s : Files) : Map Nat := fun fd => (s.fds[fd]?).bind fun slot => slot.ofd.map (⟨·, slot.cloexec⟩)

private theorem map_congr (h : s'.fds = s.fds) : s'.map = s.map := by
  unfold map
  rw [h]

theorem ofdAt_congr (h : s'.fds = s.fds) (fd : Nat) : s'.ofdAt fd = s.ofdAt fd := by
  unfold ofdAt
  rw [h]

theorem map_desc (s : Files) (fd : Nat) : (s.map fd).map Entry.desc = s.ofdAt fd := by
  unfold map ofdAt
  cases s.fds[fd]? with
  | none => rfl
  | some slot =>
    cases hslot : slot.ofd with
    | none => simp [hslot]
    | some d => simp [hslot]

theorem map_eq_none : s.map fd = none ↔ s.ofdAt fd = none := by
  rw [← map_desc]
  cases s.map fd with
  | none => simp
  | some e => simp

theorem exists_map (h : s.ofdAt fd = some d) : ∃ e, s.map fd = some e ∧ e.desc = d := by
  rw [← map_desc] at h
  exact Option.map_eq_some_iff.1 h

theorem ofdAt_of_map {e : Entry Nat} (h : s.map fd = some e) : s.ofdAt fd = some e.desc := by
  rw [← map_desc, h]
  rfl

theorem ofdAt_eq_none (h : s.fds.length ≤ fd) : s.ofdAt fd = none := by
  unfold ofdAt
  rw [List.getElem?_eq_none h]
  rfl

theorem lt_of_ofdAt (h : s.ofdAt fd = some d) : fd < s.fds.length := by
  by_contra hle
  rw [ofdAt_eq_none (by omega)] at h
  cases h

/-! ### The table grows -/

/-- The table with `k` more slots. -/
def grown (s : Files) (k : Nat) : Files := { s with fds := s.fds ++ List.replicate k .free }

theorem map_grown (s : Files) (k : Nat) : (s.grown k).map = s.map := by
  funext fd
  unfold map grown
  by_cases hlt : fd < s.fds.length
  · rw [List.getElem?_append_left hlt]
  · rw [List.getElem?_append_right (by omega), List.getElem?_eq_none (l := s.fds) (by omega), List.getElem?_replicate]
    split <;> rfl

theorem ofdAt_grown (s : Files) (k fd : Nat) : (s.grown k).ofdAt fd = s.ofdAt fd := by
  rw [← map_desc, map_grown, map_desc]

private theorem lt_doubled {n cap : Nat} (hcap : 0 < cap) (hlt : fd < cap + n) : fd < doubled fd n cap := by
  induction n generalizing cap with
  | zero => exact hlt
  | succ n ih =>
    rw [doubled]
    split
    · exact ih (by omega) (by omega)
    · omega

/-- Where there is memory, `reserve` makes room for any fd below the maximum. -/
theorem reserve_eq_some {realloc : Bool} (hpos : 0 < s.fds.length) (hle : s.fds.length ≤ fdMax) (hfd : fd < fdMax)
    (h : s.reserve fd realloc = some s') : ∃ k, s' = s.grown k ∧ fd < s'.fds.length ∧ s'.fds.length ≤ fdMax := by
  unfold reserve at h
  split at h
  · cases h
    exact ⟨0, by simp [grown], by assumption, hle⟩
  · rename_i hge
    have hlt : fd < doubled fd (fd + 1) s.fds.length := lt_doubled hpos (by omega)
    simp only at h
    split at h <;> cases h
    refine ⟨_, rfl, ?_, ?_⟩
    · rw [List.length_append, List.length_replicate]
      split <;> omega
    · rw [List.length_append, List.length_replicate]
      split <;> omega

theorem reserve_eq_none {realloc : Bool} (h : s.reserve fd realloc = none) : realloc = false := by
  unfold reserve at h
  split at h
  · cases h
  · simp only at h
    split at h
    · cases h
    · rename_i hno
      simpa using hno

/-! ### An entry changes -/

theorem map_entry (hfd : fd < s.fds.length) :
    map { s with fds := s.fds.set fd ⟨o, c⟩ } = s.map.put fd (o.map (⟨·, c⟩)) := by
  funext x
  unfold map Map.put
  by_cases hx : x = fd
  · subst hx
    rw [Function.update_self, List.getElem?_set_self hfd]
    rfl
  · rw [Function.update_of_ne hx, List.getElem?_set_ne (Ne.symm hx)]

theorem map_set (hfd : fd < s.fds.length) : (s.set fd o c).map = s.map.put fd (o.map (⟨·, c⟩)) :=
  (map_congr rfl).trans (map_entry hfd)

theorem ofdAt_entry (hfd : fd < s.fds.length) (x : Nat) :
    ofdAt { s with fds := s.fds.set fd ⟨o, c⟩ } x = if x = fd then o else s.ofdAt x := by
  rw [← map_desc, map_entry hfd]
  unfold Map.put
  by_cases hx : x = fd
  · subst hx
    rw [Function.update_self, if_pos rfl]
    cases o <;> rfl
  · rw [Function.update_of_ne hx, if_neg hx, map_desc]

theorem ofdAt_set (hfd : fd < s.fds.length) (x : Nat) :
    (s.set fd o c).ofdAt x = if x = fd then o else s.ofdAt x :=
  (ofdAt_congr rfl x).trans (ofdAt_entry hfd x)

/-- What the loop of `install` finds, and leaves. -/
theorem installFrom_ok {realloc : Bool} {n lowest : Nat} (hpos : 0 < s.fds.length) (hle : s.fds.length ≤ fdMax)
    (hn : n ≤ fdMax - lowest) (h : s.installFrom d c realloc n lowest = .ok (fd, s')) :
    s.map.Least fdMax lowest fd ∧
      ∃ k, fd < (s.grown k).fds.length ∧ (s.grown k).fds.length ≤ fdMax ∧ s' = (s.grown k).set fd (some d) c := by
  induction n generalizing lowest with
  | zero => cases h
  | succ n ih =>
    rw [installFrom] at h
    split at h
    · rename_i htaken
      obtain ⟨hleast, hrest⟩ := ih (by omega) h
      refine ⟨⟨by have := hleast.le; omega, hleast.lt, hleast.free, fun x hx hlt => ?_⟩, hrest⟩
      by_cases heq : x = lowest
      · subst heq
        exact fun hnone => htaken (map_eq_none.1 hnone)
      · exact hleast.least x (by omega) hlt
    · rename_i hfree
      split at h
      · cases h
      · rename_i t hreserve
        cases h
        obtain ⟨k, rfl, hlt, hmax⟩ := reserve_eq_some hpos hle (by omega) hreserve
        refine ⟨⟨Nat.le_refl _, by omega, map_eq_none.2 (not_not.1 hfree), fun x hx hlt => ?_⟩, k, hlt, hmax, rfl⟩
        omega

/-- When the loop of `install` fails. -/
theorem installFrom_error {realloc : Bool} {n lowest : Nat} {e : FdErr}
    (h : s.installFrom d c realloc n lowest = .error e) :
    e = .EMFILE ∧ (∀ x, lowest ≤ x → x < lowest + n → s.map x ≠ none) ∨ e = .ENOMEM ∧ realloc = false := by
  induction n generalizing lowest with
  | zero =>
    cases h
    exact Or.inl ⟨rfl, fun x _ _ => by omega⟩
  | succ n ih =>
    rw [installFrom] at h
    split at h
    · rename_i htaken
      refine (ih h).imp_left fun ⟨he, hall⟩ => ⟨he, fun x hx hlt => ?_⟩
      by_cases heq : x = lowest
      · subst heq
        exact fun hnone => htaken (map_eq_none.1 hnone)
      · exact hall x (by omega) (by omega)
    · split at h <;> cases h
      rename_i hreserve
      exact Or.inr ⟨rfl, reserve_eq_none hreserve⟩

/-! ### References -/

/-- The number of entries that name the description `d`. -/
def names (s : Files) (d : Nat) : Nat := (s.fds.map Slot.ofd).count (some d)

/-- A reference to what `o` is. -/
def one (o : Option Nat) : Nat → Nat := fun d => if o = some d then 1 else 0

@[simp] theorem add_one_none : held + one none = held := by
  funext x
  exact Nat.add_zero _

@[simp] theorem one_self : one (some d) d = 1 := if_pos rfl

theorem one_of_ne (h : x ≠ d) : one (some d) x = 0 := if_neg (by simpa using Ne.symm h)

private theorem names_entry (hfd : fd < s.fds.length) (d : Nat) :
    names { s with fds := s.fds.set fd ⟨o, c⟩ } d + one (s.ofdAt fd) d = s.names d + one o d := by
  have hlt : fd < (s.fds.map Slot.ofd).length := by simpa using hfd
  have hat : s.ofdAt fd = (s.fds.map Slot.ofd)[fd] := by simp [ofdAt, List.getElem?_eq_getElem hfd]
  have hmem : s.ofdAt fd = some d → 0 < s.names d := by
    intro h
    refine List.count_pos_iff.2 ?_
    rw [← h, hat]
    exact List.getElem_mem _
  unfold names at hmem ⊢
  rw [List.map_set, List.count_set hlt, ← hat]
  unfold one
  simp only [beq_iff_eq]
  split
  · rename_i hold
    have := hmem hold
    omega
  · omega

private theorem names_grown (s : Files) (k d : Nat) : (s.grown k).names d = s.names d := by
  unfold names grown
  rw [List.map_append, List.count_append, List.map_replicate, List.count_replicate]
  simp [Slot.free]

private theorem names_pos (h : s.ofdAt fd = some d) : 0 < s.names d := by
  refine List.count_pos_iff.2 (List.mem_map.2 ?_)
  obtain ⟨slot, hslot, hd⟩ := Option.bind_eq_some_iff.1 h
  exact ⟨slot, List.mem_of_getElem? hslot, hd⟩

/-- The table has its size, and every description the references that entries and calls hold. -/
structure Inv (s : Files) (held : Nat → Nat) : Prop where
  pos : 0 < s.fds.length
  le : s.fds.length ≤ fdMax
  counts : ∀ d, (s.ofds d).refs = s.names d + held d
  fresh : ∀ d, s.next ≤ d → (s.ofds d).refs = 0

theorem Inv.refs_pos (hi : s.Inv held) (h : s.ofdAt fd = some d) : 0 < (s.ofds d).refs := by
  have := hi.counts d
  have := names_pos h
  omega

theorem Inv.lt_next (hi : s.Inv held) (h : s.ofdAt fd = some d) : d < s.next := by
  by_contra hle
  have := hi.fresh d (by omega)
  have := hi.refs_pos h
  omega

theorem Inv.retain (hi : s.Inv held) (hd : 0 < (s.ofds d).refs) : (s.ofdRetain d).Inv (held + one (some d)) := by
  refine ⟨hi.pos, hi.le, fun x => ?_, fun x hx => ?_⟩
  · have := hi.counts x
    by_cases hxd : x = d
    · subst hxd
      simp only [ofdRetain, Function.update_self, Pi.add_apply, one_self]
      show _ = s.names x + _
      omega
    · simp only [ofdRetain, Function.update_of_ne hxd, Pi.add_apply, one_of_ne hxd]
      exact this
  · have hfresh := hi.fresh x hx
    have hxd : x ≠ d := by
      rintro rfl
      omega
    simp only [ofdRetain, Function.update_of_ne hxd]
    exact hfresh

theorem Inv.new (hi : s.Inv held) (h : Handle) : (s.ofdNew h).Inv (held + one (some s.next)) := by
  refine ⟨hi.pos, hi.le, fun x => ?_, fun x hx => ?_⟩
  · have := hi.counts x
    by_cases hxd : x = s.next
    · subst hxd
      have := hi.fresh s.next (Nat.le_refl _)
      simp only [ofdNew, Function.update_self, Pi.add_apply, one_self]
      show _ = s.names s.next + _
      omega
    · simp only [ofdNew, Function.update_of_ne hxd, Pi.add_apply, one_of_ne hxd]
      exact this
  · have hx : s.next + 1 ≤ x := hx
    simp only [ofdNew, Function.update_of_ne (show x ≠ s.next by omega)]
    exact hi.fresh x (by omega)

/-- A reference that a call held becomes the table's, and the one that the table held becomes the call's. -/
theorem Inv.entry (hi : s.Inv (held + one o)) (hfd : fd < s.fds.length) :
    Inv { s with fds := s.fds.set fd ⟨o, c⟩ } (held + one (s.ofdAt fd)) := by
  refine ⟨by simpa using hi.pos, by simpa using hi.le, fun x => ?_, hi.fresh⟩
  have := hi.counts x
  have := names_entry (o := o) (c := c) hfd x
  simp only [Pi.add_apply] at *
  omega

theorem Inv.set (hi : s.Inv (held + one o)) (hfd : fd < s.fds.length) :
    (s.set fd o c).Inv (held + one (s.ofdAt fd)) := by
  obtain ⟨hpos, hle, hcounts, hfresh⟩ := hi.entry (c := c) hfd
  exact ⟨hpos, hle, hcounts, hfresh⟩

theorem Inv.grown {k : Nat} (hi : s.Inv held) (hle : (s.grown k).fds.length ≤ fdMax) : (s.grown k).Inv held := by
  refine ⟨?_, hle, fun x => ?_, hi.fresh⟩
  · have := hi.pos
    simp only [Files.grown, List.length_append]
    omega
  · rw [names_grown]
    exact hi.counts x

theorem Inv.decrement (hi : s.Inv (held + one (some d))) : (s.ofdDecrement d).Inv held := by
  refine ⟨hi.pos, hi.le, fun x => ?_, fun x hx => ?_⟩
  · have := hi.counts x
    by_cases hxd : x = d
    · subst hxd
      simp only [Pi.add_apply, one_self] at this
      simp only [ofdDecrement, Function.update_self]
      show _ = s.names x + _
      omega
    · simp only [Pi.add_apply, one_of_ne hxd] at this
      simp only [ofdDecrement, Function.update_of_ne hxd]
      exact this
  · have := hi.fresh x hx
    by_cases hxd : x = d
    · subst hxd
      simp only [ofdDecrement, Function.update_self]
      omega
    · simp only [ofdDecrement, Function.update_of_ne hxd]
      exact this

theorem Inv.release (hi : s.Inv (held + one o)) : (s.ofdRelease o).Inv held := by
  cases o with
  | none =>
    rw [add_one_none] at hi
    exact hi
  | some d =>
    obtain ⟨hpos, hle, hcounts, hfresh⟩ := hi.decrement
    rw [ofdRelease]
    split
    · exact ⟨hpos, hle, hcounts, hfresh⟩
    · exact ⟨hpos, hle, hcounts, hfresh⟩

end Files

end Sppc.Windows
