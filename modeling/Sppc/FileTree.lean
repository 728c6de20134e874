import Mathlib.Data.List.Basic
import Mathlib.Logic.Function.Basic

/-!
# A tree of names

The names of a file system, each a path of components, and the files they name, of which one may have several names.
-/

/-- A name: its components from the root. -/
abbrev FileName := List String

/-- A file, or a directory. -/
structure FileNode where
  dir : Bool
  /-- It stands for something else, as a link does. -/
  reparse : Bool
  readonly : Bool
  data : List UInt8
  deriving DecidableEq, Repr

structure FileTree where
  /-- The names, with which file each is for. -/
  names : List (FileName × Nat)
  files : Nat → FileNode

namespace FileTree

variable {t t' : FileTree} {old new n : FileName} {f : FileNode} {id : Nat}

/-- The file that a name is for. -/
def lookup (t : FileTree) (n : FileName) : Option Nat := (t.names.find? fun e => e.1 = n).map Prod.snd

/-- What it is. -/
def node (t : FileTree) (n : FileName) : Option FileNode := (t.lookup n).map t.files

/-- There is nothing under a name. -/
def Empty (t : FileTree) (n : FileName) : Prop := ∀ e ∈ t.names, n <+: e.1 → e.1 = n

instance (t : FileTree) (n : FileName) : Decidable (t.Empty n) := inferInstanceAs (Decidable (∀ e ∈ _, _))

/-- The tree without a name. -/
def remove (t : FileTree) (n : FileName) : FileTree := { t with names := t.names.filter fun e => e.1 ≠ n }

/-- A name, and those under it, as `new` and those under that; what was `new` before goes. -/
def rename (t : FileTree) (old new : FileName) : FileTree :=
  { t with names := (t.remove new).names.map fun e => if old <+: e.1 then (new ++ e.1.drop old.length, e.2) else e }

/-- Change what a name is for. -/
def update (t : FileTree) (n : FileName) (g : FileNode → FileNode) : FileTree :=
  match t.lookup n with
  | some id => { t with files := Function.update t.files id (g (t.files id)) }
  | none => t

/-- A file that no name is for. -/
def fresh (t : FileTree) : Nat := (t.names.map Prod.snd).foldr max 0 + 1

/-- The tree with a new name, for a new file. -/
def create (t : FileTree) (n : FileName) (f : FileNode) : FileTree :=
  ⟨(n, t.fresh) :: t.names, Function.update t.files t.fresh f⟩

private theorem mem_of_lookup (h : t.lookup n = some id) : (n, id) ∈ t.names := by
  rw [lookup, Option.map_eq_some_iff] at h
  obtain ⟨e, hfind, rfl⟩ := h
  have hname := List.find?_some hfind
  rw [decide_eq_true_eq] at hname
  rw [← hname]
  exact List.mem_of_find?_eq_some hfind

theorem lookup_of_node (h : t.node n = some f) : ∃ id, t.lookup n = some id ∧ t.files id = f :=
  Option.map_eq_some_iff.1 h

theorem lookup_remove_self (t : FileTree) (n : FileName) : (t.remove n).lookup n = none := by
  rw [lookup, Option.map_eq_none_iff, List.find?_eq_none]
  intro e he
  rw [remove, List.mem_filter, decide_eq_true_eq] at he
  rw [decide_eq_true_eq]
  exact he.2

theorem lookup_remove_of_ne (t : FileTree) (h : old ≠ new) : (t.remove new).lookup old = t.lookup old := by
  have hkeep : ((t.names.filter fun e => e.1 ≠ new).find? fun e => e.1 = old) = t.names.find? fun e => e.1 = old := by
    rw [List.find?_filter]
    congr 1
    funext e
    by_cases he : e.1 = old
    · have hne : e.1 ≠ new := he ▸ h
      simp [he, h]
    · simp [he]
  rw [lookup, remove]
  dsimp only
  rw [hkeep]
  rfl

/-- A removal leaves fewer names. -/
theorem length_remove (h : t.lookup n = some id) : (t.remove n).names.length < t.names.length := by
  apply List.length_filter_lt_length_iff_exists.2
  exact ⟨(n, id), mem_of_lookup h, by simp⟩

theorem remove_ne (h : t.lookup n = some id) : t.remove n ≠ t := by
  intro heq
  have hlt := length_remove h
  rw [heq] at hlt
  exact Nat.lt_irrefl _ hlt

/-- A rename onto a name leaves one name less. -/
theorem rename_names_ne (old : FileName) (h : t.lookup new = some id) : (t.rename old new).names ≠ t.names := by
  intro heq
  have hlt := length_remove h
  have hlength : (t.rename old new).names.length = (t.remove new).names.length := List.length_map _
  rw [← hlength, heq] at hlt
  exact Nat.lt_irrefl _ hlt

theorem node_update (t : FileTree) (n : FileName) (g : FileNode → FileNode) :
    (t.update n g).node n = (t.node n).map g := by
  cases h : t.lookup n with
  | none => simp [update, node, h]
  | some id =>
    have hlookup : (t.update n g).lookup n = some id := by
      rw [update, h]
      exact h
    rw [node, node, hlookup, h, update, h]
    simp

theorem update_ne {g : FileNode → FileNode} (h : t.node n = some f) (hg : g f ≠ f) : t.update n g ≠ t := by
  intro heq
  have hnode := t.node_update n g
  rw [heq, h, Option.map_some, Option.some_inj] at hnode
  exact hg hnode.symm

/-- A change that is none changes nothing. -/
theorem update_eq_self {g : FileNode → FileNode} (h : t.node n = some f) (hg : g f = f) : t.update n g = t := by
  obtain ⟨id, hid, hf⟩ := lookup_of_node h
  rw [update, hid]
  dsimp only
  rw [hf, hg, ← hf, Function.update_eq_self]

theorem node_create (t : FileTree) (n : FileName) (f : FileNode) : (t.create n f).node n = some f := by
  simp [node, lookup, create]

theorem create_ne (t : FileTree) (n : FileName) (f : FileNode) : t.create n f ≠ t := by
  intro heq
  have hlength : (t.create n f).names.length = t.names.length + 1 := rfl
  rw [heq] at hlength
  omega

end FileTree
