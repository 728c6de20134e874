import Mathlib.Data.List.FinRange
import Sppc.Bytes

/-!
# Register windows in memory

A function's window is its 8 locals and its 8 ins.  It is saved in the 16 words at the function's stack pointer, which
is biased by 2047; the seventh in is the stack pointer of the caller, whose window is saved there.
-/

namespace RegisterWindow

open Bytes

abbrev Word := BitVec 64

/-- The locals, then the ins. -/
abbrev Window := Fin 16 → Word

instance neZeroEight : NeZero 8 := ⟨by decide⟩

def l (k : Fin 8) : Fin 16 := ⟨k, by omega⟩

def i (k : Fin 8) : Fin 16 := ⟨8 + k, by omega⟩

def loadWord (m : Bytes) (a : Nat) : Word := BitVec.ofNat 64 (loadBytes m a 8)

def storeWord (m : Bytes) (a : Nat) (v : Word) : Bytes := storeBytes m a v.toNat 8

/-- Where the frame at a stack pointer is. -/
def area (sp : Word) : Nat := (sp + 2047).toNat

/-- Save a window. -/
def spill (m : Bytes) (sp : Word) (w : Window) : Bytes :=
  storeAll (area sp) m ((List.finRange 16).map fun k => (8 * k.val, 8, (w k).toNat))

/-- The window that is saved at a stack pointer. -/
def fill (m : Bytes) (sp : Word) : Window := fun k => loadWord m (area sp + 8 * k.val)

/-- Save windows: the first one's stack pointer is `sp`, and each further one is its predecessor's caller's. -/
def flush (m : Bytes) (sp : Word) : List Window → Bytes
  | [] => m
  | w :: ws => flush (spill m sp w) (w (i 6)) ws

/-- The windows are saved. -/
def Held (m : Bytes) (sp : Word) : List Window → Prop
  | [] => True
  | w :: ws => fill m sp = w ∧ Held m (w (i 6)) ws

/-- The windows' frames are between two addresses, and each one's is below its caller's. -/
def Within (lo hi : Nat) (sp : Word) : List Window → Prop
  | [] => True
  | w :: ws => lo ≤ area sp ∧ area sp + 128 ≤ hi ∧ Within (area sp + 128) hi (w (i 6)) ws

instance instDecidableWithin (lo hi : Nat) (sp : Word) : (ws : List Window) → Decidable (Within lo hi sp ws)
  | [] => .isTrue trivial
  | w :: ws =>
    have := instDecidableWithin (area sp + 128) hi (w (i 6)) ws
    inferInstanceAs (Decidable (_ ∧ _ ∧ _))

/-- The stack pointer of the caller of all of the windows. -/
def callerOf (sp : Word) : List Window → Word
  | [] => sp
  | w :: ws => callerOf (w (i 6)) ws

variable {m m' : Bytes} {a lo hi : Nat} {v sp : Word} {w : Window} {ws rest : List Window}

/-! ### Words -/

theorem loadWord_congr (h : Agree m m' a 8) : loadWord m' a = loadWord m a := by
  rw [loadWord, loadWord, loadBytes_congr h]

theorem loadWord_storeWord : loadWord (storeWord m a v) a = v := by
  rw [loadWord, storeWord, loadBytes_storeBytes (by have := v.isLt; omega), BitVec.ofNat_toNat, BitVec.setWidth_eq]

theorem agree_storeWord {b n : Nat} (h : a + 8 ≤ b ∨ b + n ≤ a) : Agree m (storeWord m a v) b n := agree_storeBytes h

theorem storeWord_of_not {x : Nat} (h : ¬(a ≤ x ∧ x < a + 8)) : storeWord m a v x = m x :=
  agree_storeWord (n := 1) (by omega) x (Nat.le_refl x) (Nat.lt_succ_self x)

/-! ### One window -/

theorem agree_spill {b n : Nat} (h : area sp + 128 ≤ b ∨ b + n ≤ area sp) : Agree m (spill m sp w) b n := by
  refine agree_storeAll fun s hs => ?_
  obtain ⟨k, -, rfl⟩ := List.mem_map.1 hs
  dsimp only
  omega

theorem spill_of_not {x : Nat} (h : ¬(area sp ≤ x ∧ x < area sp + 128)) : spill m sp w x = m x :=
  agree_spill (n := 1) (by omega) x (Nat.le_refl x) (Nat.lt_succ_self x)

theorem fill_spill : fill (spill m sp w) sp = w := by
  have hapart : ((List.finRange 16).map fun k => (8 * k.val, 8, (w k).toNat)).Pairwise
      fun s s' => StoreApart s s'.1 s'.2.1 := by
    refine List.pairwise_map.2 ((List.nodup_finRange 16).imp fun {j k} hjk => ?_)
    have : j.val ≠ k.val := fun h => hjk (Fin.ext h)
    unfold StoreApart
    dsimp only
    omega
  funext k
  unfold fill loadWord
  have hk : (8 * k.val, 8, (w k).toNat) ∈ (List.finRange 16).map fun k => (8 * k.val, 8, (w k).toNat) :=
    List.mem_map_of_mem (List.mem_finRange k)
  have hload := loadBytes_storeAll m (area sp) hapart hk fun s hs => by
    obtain ⟨j, -, rfl⟩ := List.mem_map.1 hs
    have := (w j).isLt
    dsimp only
    omega
  dsimp only at hload
  rw [spill, hload, BitVec.ofNat_toNat, BitVec.setWidth_eq]

theorem fill_congr (h : Agree m m' (area sp) 128) : fill m' sp = fill m sp := by
  funext k
  exact loadWord_congr (h.mono (by omega) (by omega))

/-! ### A chain of windows -/

theorem Within.mono {lo' : Nat} (h : Within lo hi sp ws) (hlo : lo' ≤ lo) : Within lo' hi sp ws := by
  cases ws with
  | nil => trivial
  | cons w ws => exact ⟨Nat.le_trans hlo h.1, h.2⟩

theorem Within.append (h : Within lo hi sp (ws ++ rest)) :
    Within lo hi sp ws ∧ Within lo hi (callerOf sp ws) rest := by
  induction ws generalizing lo sp with
  | nil => exact ⟨trivial, h⟩
  | cons w ws ih =>
    obtain ⟨hlo, hhi, h⟩ := h
    obtain ⟨h, hrest⟩ := ih h
    exact ⟨⟨hlo, hhi, h⟩, hrest.mono (by omega)⟩

theorem Held.congr (h : Held m sp ws) (hwithin : Within lo hi sp ws) (hsame : ∀ x, lo ≤ x → x < hi → m' x = m x) :
    Held m' sp ws := by
  induction ws generalizing lo sp with
  | nil => trivial
  | cons w ws ih =>
    obtain ⟨hlo, hhi, hwithin⟩ := hwithin
    refine ⟨(fill_congr fun x _ _ => hsame x (by omega) (by omega)).trans h.1, ?_⟩
    exact ih h.2 hwithin fun x _ hx => hsame x (by omega) hx

theorem flush_of_not {x : Nat} (h : Within lo hi sp ws) (hx : ¬(lo ≤ x ∧ x < hi)) : flush m sp ws x = m x := by
  induction ws generalizing lo sp m with
  | nil => rfl
  | cons w ws ih =>
    obtain ⟨hlo, hhi, h⟩ := h
    rw [flush, ih h (by omega), spill_of_not (by omega)]

/-- Windows of which the rest is saved already are saved. -/
theorem held_flush (hwithin : Within lo hi sp (ws ++ rest)) (hrest : Held m (callerOf sp ws) rest) :
    Held (flush m sp ws) sp (ws ++ rest) := by
  induction ws generalizing lo sp m with
  | nil => exact hrest
  | cons w ws ih =>
    obtain ⟨hlo, hhi, hwithin⟩ := hwithin
    refine ⟨?_, ih hwithin (hrest.congr hwithin.append.2 fun x hx _ => spill_of_not (by omega))⟩
    have hagree : Agree (spill m sp w) (flush (spill m sp w) (w (i 6)) ws) (area sp) 128 :=
      fun x hx hx' => flush_of_not hwithin.append.1 (by omega)
    exact (fill_congr hagree).trans fill_spill

end RegisterWindow
