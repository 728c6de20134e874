import Sppc.FileTree
import Sppc.Windows.Errors

/-!
# Names (`platform/windows.h`)

`sppc_rename` and `sppc_unlink`, over a tree of names.  A call to Windows takes effect or fails, and may fail where it
could take effect.
-/

namespace Sppc.Windows

def WinError.ERROR_INVALID_FUNCTION : WinError := ⟨1, by decide⟩
def WinError.ERROR_NOT_ENOUGH_MEMORY : WinError := ⟨8, by decide⟩
def WinError.ERROR_NOT_SUPPORTED : WinError := ⟨50, by decide⟩
def WinError.ERROR_INVALID_PARAMETER : WinError := ⟨87, by decide⟩
def WinError.ERROR_DIR_NOT_EMPTY : WinError := ⟨145, by decide⟩

/-- How a call goes: whether it fails though it could take effect, and its error if it fails. -/
structure CallAns where
  fails : Bool
  error : WinError
  deriving DecidableEq, Repr

/-- How the calls on names fail: `path` with the error of `_sppc_win_wpath`, and `win` with Windows'. -/
inductive NameErr
  | EISDIR | ENOTDIR | ENOTEMPTY
  | path (e : Nat)
  | win (e : WinError)
  deriving DecidableEq, Repr

structure NameReturn where
  err : Option NameErr
  tree : FileTree

/-! ### Win32 -/

/-- `GetFileAttributesW`. -/
def getFileAttributes (c : CallAns) (t : FileTree) (n : FileName) : Except WinError FileNode :=
  match t.node n with
  | some f => if c.fails then .error c.error else .ok f
  | none => .error c.error

/-- `RemoveDirectoryW`. -/
def removeDirectory (c : CallAns) (t : FileTree) (n : FileName) : Except WinError FileTree :=
  match t.node n with
  | some f => if c.fails ∨ ¬f.dir ∨ ¬(f.reparse ∨ t.Empty n) then .error c.error else .ok (t.remove n)
  | none => .error c.error

/-- `SetFileAttributesW` without `FILE_ATTRIBUTE_READONLY`. -/
def clearReadonly (c : CallAns) (t : FileTree) (n : FileName) : FileTree :=
  if c.fails then t else t.update n fun f => { f with readonly := false }

/-- A rename that replaces a file, one that is read-only only if that is ignored.  Onto itself a name stays; a
directory goes neither into itself nor over anything. -/
def renameFile (c : CallAns) (ignoreReadonly : Bool) (t : FileTree) (old new : FileName) : Except WinError FileTree :=
  match t.node old with
  | none => .error c.error
  | some f =>
    if c.fails then .error c.error
    else if old = new then .ok t
    else if f.dir ∧ old <+: new then .error c.error
    else
      match t.node new with
      | none => .ok (t.rename old new)
      | some g => if f.dir ∨ g.dir ∨ (g.readonly ∧ ¬ignoreReadonly) then .error c.error else .ok (t.rename old new)

/-! ### `sppc_rename` -/

/-- How the calls of a rename go. -/
structure RenameWorld where
  oldPath : Option Nat
  newPath : Option Nat
  src : CallAns
  dst : CallAns
  remove : CallAns
  fullPath : CallAns
  calloc : Bool
  openOld : CallAns
  renameEx : CallAns
  setAttributes : CallAns
  moveFile : CallAns

/-- `_sppc_win_rename_posix`. -/
def sppcWinRenamePosix (w : RenameWorld) (t : FileTree) (old new : FileName) : Except WinError FileTree :=
  if w.fullPath.fails then .error w.fullPath.error
  else if ¬w.calloc then .error WinError.ERROR_NOT_ENOUGH_MEMORY
  else if w.openOld.fails ∨ t.lookup old = none then .error w.openOld.error
  else renameFile w.renameEx true t old new

/-- The errors of a Windows, or a file system, without POSIX semantics. -/
def Unsupported (e : WinError) : Prop :=
  e = WinError.ERROR_INVALID_PARAMETER ∨ e = WinError.ERROR_NOT_SUPPORTED ∨ e = WinError.ERROR_INVALID_FUNCTION

instance (e : WinError) : Decidable (Unsupported e) := inferInstanceAs (Decidable (_ ∨ _))

/-- The end of `sppc_rename`, where `dst` is what `new` was for. -/
def renameTo (w : RenameWorld) (t : FileTree) (old new : FileName) (dst : Option FileNode) : NameReturn :=
  match sppcWinRenamePosix w t old new with
  | .ok t => ⟨none, t⟩
  | .error e =>
    if Unsupported e then
      let t := if ∃ f ∈ dst, ¬f.dir ∧ f.readonly then clearReadonly w.setAttributes t new else t
      match renameFile w.moveFile false t old new with
      | .ok t => ⟨none, t⟩
      | .error e => ⟨some (.win e), t⟩
    else ⟨some (.win e), t⟩

/-- `sppc_rename`. -/
def sppcRename (w : RenameWorld) (t : FileTree) (old new : FileName) : NameReturn :=
  match w.oldPath with
  | some e => ⟨some (.path e), t⟩
  | none =>
    match w.newPath with
    | some e => ⟨some (.path e), t⟩
    | none =>
      match getFileAttributes w.src t old, getFileAttributes w.dst t new with
      | .error e, _ => ⟨some (.win e), t⟩
      | .ok _, .error _ => renameTo w t old new none
      | .ok src, .ok dst =>
        if dst.dir ∧ ¬src.dir then ⟨some .EISDIR, t⟩
        else if src.dir ∧ ¬dst.dir then ⟨some .ENOTDIR, t⟩
        else if dst.dir then
          match removeDirectory w.remove t new with
          | .error e => ⟨some (if e = WinError.ERROR_DIR_NOT_EMPTY then .ENOTEMPTY else .win e), t⟩
          | .ok t => renameTo w t old new (some dst)
        else renameTo w t old new (some dst)

/-! ### `sppc_unlink` -/

/-- How the calls of an unlink go. -/
structure UnlinkWorld where
  path : Option Nat
  attributes : CallAns
  openPath : CallAns
  dispositionEx : CallAns
  setAttributes : CallAns
  disposition : CallAns

/-- A delete that takes a read-only file only if that is ignored. -/
def deleteFile (c : CallAns) (ignoreReadonly : Bool) (t : FileTree) (n : FileName) : Except WinError FileTree :=
  match t.node n with
  | none => .error c.error
  | some f => if c.fails ∨ (f.readonly ∧ ¬ignoreReadonly) then .error c.error else .ok (t.remove n)

/-- `sppc_unlink`. -/
def sppcUnlink (w : UnlinkWorld) (t : FileTree) (n : FileName) : NameReturn :=
  match w.path with
  | some e => ⟨some (.path e), t⟩
  | none =>
    match getFileAttributes w.attributes t n with
    | .error e => ⟨some (.win e), t⟩
    | .ok f =>
      if f.dir ∧ ¬f.reparse then ⟨some .EISDIR, t⟩
      else if w.openPath.fails then ⟨some (.win w.openPath.error), t⟩
      else
        match deleteFile w.dispositionEx true t n with
        | .ok t => ⟨none, t⟩
        | .error _ =>
          let t := if f.readonly then clearReadonly w.setAttributes t n else t
          match deleteFile w.disposition false t n with
          | .ok t => ⟨none, t⟩
          | .error e => ⟨some (.win e), t⟩

/-! ### What they are to keep -/

/-- Every call takes effect that can. -/
def RenameWorld.AllGo (w : RenameWorld) : Prop :=
  w.oldPath = none ∧ w.newPath = none ∧ w.calloc ∧
    ∀ c ∈ [w.src, w.dst, w.remove, w.fullPath, w.openOld, w.renameEx, w.setAttributes, w.moveFile], ¬c.fails

/-- Both names are for one file or directory. -/
def SameFile (t : FileTree) (old new : FileName) : Prop := ∃ id, t.lookup old = some id ∧ t.lookup new = some id

/-- A rename that failed has changed nothing; and one onto a name of the same file, where every call takes effect that
can, succeeds and removes nothing. -/
structure KeepsNames (w : RenameWorld) (t : FileTree) (old new : FileName) (r : NameReturn) : Prop where
  error : ∀ e, r.err = some e → r.tree = t
  same : SameFile t old new → w.AllGo →
    r.err = none ∧ r.tree.names = t.names ∧ ∀ id, (r.tree.files id).data = (t.files id).data

/-- The names are those of these files. -/
def Reaches (w : RenameWorld) (t : FileTree) (old new : FileName) (src dst : FileNode) : Prop :=
  w.oldPath = none ∧ w.newPath = none ∧ getFileAttributes w.src t old = .ok src ∧
    getFileAttributes w.dst t new = .ok dst

/-- The rename with POSIX semantics fails, and how. -/
def RenameWorld.posixFails (w : RenameWorld) : Option WinError :=
  if w.fullPath.fails then some w.fullPath.error
  else if ¬w.calloc then some WinError.ERROR_NOT_ENOUGH_MEMORY
  else if w.openOld.fails then some w.openOld.error
  else if w.renameEx.fails then some w.renameEx.error
  else none

/-- Neither a directory that was removed, nor a read-only attribute that was cleared, is followed by a failure; and
the same file is not a directory, nor under another name. -/
structure RenameFits (w : RenameWorld) (t : FileTree) (old new : FileName) : Prop where
  removed : ∀ src dst, Reaches w t old new src dst → src.dir → dst.dir → ¬w.remove.fails →
    (dst.reparse ∨ t.Empty new) → ¬old <+: new ∧ ∀ e, w.posixFails = some e → Unsupported e ∧ ¬w.moveFile.fails
  cleared : ∀ src dst, Reaches w t old new src dst → ¬src.dir → ¬dst.dir → dst.readonly → ¬w.setAttributes.fails →
    ∀ e, w.posixFails = some e → Unsupported e → ¬w.moveFile.fails
  same : SameFile t old new → w.AllGo → old = new ∧ ∀ f, t.node old = some f → ¬f.dir

/-- An unlink that failed has changed nothing. -/
def KeepsName (t : FileTree) (r : NameReturn) : Prop := ∀ e, r.err = some e → r.tree = t

/-- A read-only attribute that was cleared is not followed by a failure. -/
def UnlinkFits (w : UnlinkWorld) (t : FileTree) (n : FileName) : Prop :=
  ∀ f, w.path = none → getFileAttributes w.attributes t n = .ok f → ¬(f.dir ∧ ¬f.reparse) → ¬w.openPath.fails →
    w.dispositionEx.fails → f.readonly → ¬w.setAttributes.fails → ¬w.disposition.fails

variable {w : RenameWorld} {t t' : FileTree} {old new n : FileName} {src dst f g : FileNode} {e : WinError}

/-! ### One rename -/

/-- A rename of these names fails only where the call does. -/
def Goes (ignoreReadonly : Bool) (t : FileTree) (old new : FileName) (t' : FileTree) : Prop :=
  ∀ c, renameFile c ignoreReadonly t old new = if c.fails then .error c.error else .ok t'

/-- A rename of these names fails. -/
def Stuck (t : FileTree) (old new : FileName) : Prop :=
  ∀ c ignoreReadonly, renameFile c ignoreReadonly t old new = .error c.error

private theorem goes_of_files (ignoreReadonly : Bool) (hold : t.node old = some f) (hnew : t.node new = some g)
    (hf : ¬f.dir) (hg : ¬g.dir) (hreadonly : g.readonly → ignoreReadonly) :
    Goes ignoreReadonly t old new (if old = new then t else t.rename old new) := by
  intro c
  rw [renameFile, hold]
  dsimp only
  by_cases hc : c.fails
  · rw [if_pos hc, if_pos hc]
  · rw [if_neg hc, if_neg hc]
    by_cases heq : old = new
    · rw [if_pos heq, if_pos heq]
    · rw [if_neg heq, if_neg heq, if_neg fun h => hf h.1, hnew]
      dsimp only
      rw [if_neg]
      rintro (h | h | h)
      · exact hf h
      · exact hg h
      · exact h.2 (hreadonly h.1)

private theorem goes_of_free (ignoreReadonly : Bool) (hold : t.node old = some f) (hnew : t.node new = none)
    (hinto : ¬old <+: new) : Goes ignoreReadonly t old new (t.rename old new) := by
  intro c
  have hne : old ≠ new := fun heq => hinto (heq ▸ List.prefix_rfl)
  rw [renameFile, hold]
  dsimp only
  rw [if_neg hne, if_neg fun h : f.dir ∧ old <+: new => hinto h.2, hnew]

/-- A directory does not go into itself, nor one that is no more anywhere. -/
private theorem stuck_of_into (hold : ∀ f, t.node old = some f → f.dir ∧ old ≠ new) (hinto : old <+: new) :
    Stuck t old new := by
  intro c ignoreReadonly
  rw [renameFile]
  cases hnode : t.node old with
  | none => rfl
  | some f =>
    obtain ⟨hdir, hne⟩ := hold f hnode
    dsimp only
    by_cases hc : c.fails
    · rw [if_pos hc]
    · rw [if_neg hc, if_neg hne, if_pos ⟨hdir, hinto⟩]

private theorem lookup_ne_none (h : t.node n = some f) : t.lookup n ≠ none := by
  obtain ⟨id, hid, -⟩ := FileTree.lookup_of_node h
  rw [hid]
  exact Option.some_ne_none id

/-- The rename with POSIX semantics, where it can take effect. -/
private theorem sppcWinRenamePosix_goes (hold : t.node old = some f) (hgoes : Goes true t old new t') :
    sppcWinRenamePosix w t old new = match w.posixFails with
      | some e => .error e
      | none => .ok t' := by
  rw [sppcWinRenamePosix, RenameWorld.posixFails]
  split
  · rfl
  · split
    · rfl
    · by_cases hopen : w.openOld.fails
      · rw [if_pos (Or.inl hopen), if_pos hopen]
      · have hfound : ¬(w.openOld.fails ∨ t.lookup old = none) := by
          rintro (h | h)
          · exact hopen h
          · exact lookup_ne_none hold h
        rw [if_neg hfound, if_neg hopen, hgoes]
        split <;> rfl

/-- Where it cannot. -/
private theorem sppcWinRenamePosix_stuck (hstuck : Stuck t old new) :
    ∃ e, sppcWinRenamePosix w t old new = .error e := by
  rw [sppcWinRenamePosix]
  split
  · exact ⟨_, rfl⟩
  · split
    · exact ⟨_, rfl⟩
    · split
      · exact ⟨_, rfl⟩
      · exact ⟨_, hstuck _ _⟩

/-! ### The end of a rename -/

private theorem renameTo_done (hold : t.node old = some f) (hgoes : Goes true t old new t')
    (hposix : w.posixFails = none) (dst : Option FileNode) : renameTo w t old new dst = ⟨none, t'⟩ := by
  rw [renameTo, sppcWinRenamePosix_goes hold hgoes, hposix]

/-- Where nothing is cleared, what fails leaves the tree. -/
private theorem renameTo_keeps {d : Option FileNode}
    (hclear : (∃ f ∈ d, ¬f.dir ∧ f.readonly) → w.setAttributes.fails) {err : NameErr}
    (h : (renameTo w t old new d).err = some err) : (renameTo w t old new d).tree = t := by
  have hsame : (if ∃ f ∈ d, ¬f.dir ∧ f.readonly then clearReadonly w.setAttributes t new else t) = t := by
    split
    · rename_i hex
      rw [clearReadonly, if_pos (hclear hex)]
    · rfl
  unfold renameTo at h ⊢
  rw [hsame] at h ⊢
  cases hposix : sppcWinRenamePosix w t old new with
  | ok t' =>
    rw [hposix] at h
    cases h
  | error e =>
    rw [hposix] at h
    dsimp only at h ⊢
    by_cases hun : Unsupported e
    · rw [if_pos hun] at h ⊢
      cases hmove : renameFile w.moveFile false t old new with
      | ok t' =>
        rw [hmove] at h
        cases h
      | error e => rfl
    · rw [if_neg hun]

private theorem node_remove_self (t : FileTree) (n : FileName) : (t.remove n).node n = none := by
  rw [FileTree.node, t.lookup_remove_self n, Option.map_none]

private theorem node_remove_of_ne (t : FileTree) (h : old ≠ new) : (t.remove new).node old = t.node old := by
  rw [FileTree.node, t.lookup_remove_of_ne h]
  rfl

/-- Nothing of a directory is cleared. -/
private theorem not_cleared (hdst : dst.dir) : ¬∃ f ∈ some dst, ¬f.dir ∧ f.readonly := by
  rintro ⟨f, hf, hdir, -⟩
  cases hf
  exact hdir hdst

/-- Once a directory has been removed to make room, the rename succeeds exactly if what is left of it can be done. -/
private theorem renameTo_removed (hold : t.node old = some src) (hsrc : src.dir) (hdst : dst.dir) :
    (renameTo w (t.remove new) old new (some dst)).err = none ↔
      ¬old <+: new ∧ ∀ e, w.posixFails = some e → Unsupported e ∧ ¬w.moveFile.fails := by
  by_cases hinto : old <+: new
  · have hstuck : Stuck (t.remove new) old new := by
      apply stuck_of_into _ hinto
      intro f hf
      have hne : old ≠ new := by
        intro heq
        rw [heq, node_remove_self] at hf
        cases hf
      rw [node_remove_of_ne t hne, hold, Option.some_inj] at hf
      rw [← hf]
      exact ⟨hsrc, hne⟩
    obtain ⟨e, he⟩ := sppcWinRenamePosix_stuck (w := w) hstuck
    refine iff_of_false ?_ fun h => h.1 hinto
    rw [renameTo, he]
    dsimp only
    split
    · rw [if_neg (not_cleared hdst), hstuck]
      exact Option.some_ne_none _
    · exact Option.some_ne_none _
  · have hne : old ≠ new := fun heq => hinto (heq ▸ List.prefix_rfl)
    have hold' : (t.remove new).node old = some src := by
      rw [node_remove_of_ne t hne]
      exact hold
    have hgoes := goes_of_free true hold' (node_remove_self t new) hinto
    have hmove := goes_of_free false hold' (node_remove_self t new) hinto
    rw [and_iff_right hinto]
    cases hposix : w.posixFails with
    | none =>
      rw [renameTo_done hold' hgoes hposix]
      exact iff_of_true rfl fun e h => nomatch h
    | some e =>
      simp only [Option.some.injEq, forall_eq']
      rw [renameTo, sppcWinRenamePosix_goes hold' hgoes, hposix]
      dsimp only
      by_cases hun : Unsupported e
      · rw [if_pos hun, if_neg (not_cleared hdst), hmove, and_iff_right hun]
        by_cases hc : w.moveFile.fails
        · rw [if_pos hc]
          exact iff_of_false (Option.some_ne_none _) fun h => h hc
        · rw [if_neg hc]
          exact iff_of_true rfl hc
      · rw [if_neg hun]
        exact iff_of_false (Option.some_ne_none _) fun h => hun h.1

/-- What a name is for is a directory or not, whatever was cleared. -/
private theorem node_cleared (t : FileTree) (new : FileName) (hold : t.node old = some src) :
    ∃ f, (t.update new fun f => { f with readonly := false }).node old = some f ∧ f.dir = src.dir := by
  obtain ⟨id, hid, hf⟩ := FileTree.lookup_of_node hold
  rw [FileTree.update]
  split
  · rename_i id' _
    refine ⟨_, congrArg (Option.map _) hid, ?_⟩
    rw [← hf]
    dsimp only
    by_cases heq : id = id'
    · rw [heq, Function.update_self]
    · rw [Function.update_of_ne heq]
  · exact ⟨src, hold, rfl⟩

/-- A rename from file to file keeps what it is to keep unless a read-only attribute was cleared and the rename failed
then. -/
private theorem renameTo_files (hold : t.node old = some src) (hnew : t.node new = some dst) (hsrc : ¬src.dir)
    (hdst : ¬dst.dir) :
    (∀ err, (renameTo w t old new (some dst)).err = some err → (renameTo w t old new (some dst)).tree = t) ↔
      (dst.readonly → ¬w.setAttributes.fails → ∀ e, w.posixFails = some e → Unsupported e → ¬w.moveFile.fails) := by
  by_cases hclear : dst.readonly ∧ ¬w.setAttributes.fails
  · rw [imp_iff_right hclear.1, imp_iff_right hclear.2]
    have hgoes := goes_of_files true hold hnew hsrc hdst fun _ => rfl
    cases hposix : w.posixFails with
    | none =>
      rw [renameTo_done hold hgoes hposix]
      exact iff_of_true (fun err h => nomatch h) fun e h => nomatch h
    | some e =>
      simp only [Option.some.injEq, forall_eq']
      rw [renameTo, sppcWinRenamePosix_goes hold hgoes, hposix]
      dsimp only
      by_cases hun : Unsupported e
      · have hcleared : ∃ f ∈ some dst, ¬f.dir ∧ f.readonly := ⟨dst, rfl, hdst, hclear.1⟩
        rw [if_pos hun, if_pos hcleared, imp_iff_right hun, clearReadonly, if_neg hclear.2]
        have hchanged : (t.update new fun f => { f with readonly := false }) ≠ t := by
          apply FileTree.update_ne hnew
          intro heq
          have hreadonly : false = dst.readonly := congrArg FileNode.readonly heq
          rw [hclear.1] at hreadonly
          exact Bool.false_ne_true hreadonly
        have hnew' := t.node_update new fun f => { f with readonly := false }
        rw [hnew, Option.map_some] at hnew'
        obtain ⟨f, hold', hdir⟩ := node_cleared t new hold
        have hmove := goes_of_files false hold' hnew' (by rw [hdir]; exact hsrc) hdst fun h => h
        rw [hmove]
        by_cases hc : w.moveFile.fails
        · rw [if_pos hc]
          exact iff_of_false (fun h => hchanged (h _ rfl)) fun h => h hc
        · rw [if_neg hc]
          exact iff_of_true (fun err h => nomatch h) hc
      · rw [if_neg hun]
        exact iff_of_true (fun _ _ => rfl) fun h => absurd h hun
  · refine iff_of_true ?_ fun hreadonly hset => absurd ⟨hreadonly, hset⟩ hclear
    intro err herr
    refine renameTo_keeps ?_ herr
    rintro ⟨f, hf, -, hreadonly⟩
    cases hf
    by_contra hset
    exact hclear ⟨hreadonly, hset⟩

/-! ### The whole rename -/

private theorem getFileAttributes_ok {c : CallAns} (h : getFileAttributes c t n = .ok f) :
    t.node n = some f ∧ ¬c.fails := by
  unfold getFileAttributes at h
  split at h
  · rename_i g hg
    split at h
    · cases h
    · rename_i hc
      rw [hg, Except.ok.inj h]
      exact ⟨rfl, hc⟩
  · cases h

private theorem reaches_unique {src' dst' : FileNode} (h : Reaches w t old new src dst)
    (h' : Reaches w t old new src' dst') : src' = src ∧ dst' = dst := by
  obtain ⟨-, -, hsrc, hdst⟩ := h
  obtain ⟨-, -, hsrc', hdst'⟩ := h'
  rw [hsrc] at hsrc'
  rw [hdst] at hdst'
  exact ⟨(Except.ok.inj hsrc').symm, (Except.ok.inj hdst').symm⟩

/-- Where both names are for one file and no call fails, both are reached. -/
private theorem reaches_of_same (hsame : SameFile t old new) (hgo : w.AllGo) :
    ∃ f, t.node old = some f ∧ t.node new = some f ∧ Reaches w t old new f f := by
  obtain ⟨id, hold, hnew⟩ := hsame
  obtain ⟨hpo, hpn, -, hcalls⟩ := hgo
  have hold' : t.node old = some (t.files id) := by rw [FileTree.node, hold, Option.map_some]
  have hnew' : t.node new = some (t.files id) := by rw [FileTree.node, hnew, Option.map_some]
  refine ⟨t.files id, hold', hnew', hpo, hpn, ?_, ?_⟩
  · rw [getFileAttributes, hold']
    exact if_neg (hcalls w.src (by simp))
  · rw [getFileAttributes, hnew']
    exact if_neg (hcalls w.dst (by simp))

private theorem posixFails_of_allGo (hgo : w.AllGo) : w.posixFails = none := by
  obtain ⟨-, -, hcalloc, hcalls⟩ := hgo
  rw [RenameWorld.posixFails, if_neg (hcalls w.fullPath (by simp)), if_neg (not_not.2 hcalloc),
    if_neg (hcalls w.openOld (by simp)), if_neg (hcalls w.renameEx (by simp))]

/-- Where the names are not reached, what fails leaves the tree. -/
private theorem sppcRename_unreached (h : ¬∃ src dst, Reaches w t old new src dst) {err : NameErr}
    (herr : (sppcRename w t old new).err = some err) : (sppcRename w t old new).tree = t := by
  unfold sppcRename at herr ⊢
  cases hpo : w.oldPath with
  | some e => rfl
  | none =>
    cases hpn : w.newPath with
    | some e => rfl
    | none =>
      rw [hpo, hpn] at herr
      dsimp only at herr ⊢
      cases hsrc : getFileAttributes w.src t old with
      | error e => rfl
      | ok src =>
        cases hdst : getFileAttributes w.dst t new with
        | ok dst => exact absurd ⟨src, dst, hpo, hpn, hsrc, hdst⟩ h
        | error e =>
          rw [hsrc, hdst] at herr
          dsimp only at herr ⊢
          refine renameTo_keeps ?_ herr
          rintro ⟨f, hf, -⟩
          cases hf

private theorem sppcRename_reached (h : Reaches w t old new src dst) : sppcRename w t old new =
    if dst.dir ∧ ¬src.dir then ⟨some .EISDIR, t⟩
    else if src.dir ∧ ¬dst.dir then ⟨some .ENOTDIR, t⟩
    else if dst.dir then
      match removeDirectory w.remove t new with
      | .error e => ⟨some (if e = WinError.ERROR_DIR_NOT_EMPTY then .ENOTEMPTY else .win e), t⟩
      | .ok t => renameTo w t old new (some dst)
    else renameTo w t old new (some dst) := by
  obtain ⟨hpo, hpn, hsrc, hdst⟩ := h
  rw [sppcRename, hpo, hpn, hsrc, hdst]

/-- What was refused has been kept, unless it was to be done. -/
private theorem keepsNames_refused {r : NameReturn} {err : NameErr} (herr : r.err = some err) (htree : r.tree = t) :
    KeepsNames w t old new r ↔ ¬(SameFile t old new ∧ w.AllGo) := by
  constructor
  · rintro hkeeps ⟨hsame, hgo⟩
    have hnone := (hkeeps.same hsame hgo).1
    rw [herr] at hnone
    exact Option.some_ne_none _ hnone
  · intro h
    exact ⟨fun _ _ => htree, fun hsame hgo => absurd ⟨hsame, hgo⟩ h⟩

/-- A directory is neither itself nor another. -/
private theorem renameFits_same_dir (hold : t.node old = some src) (hsrc : src.dir) :
    (SameFile t old new → w.AllGo → old = new ∧ ∀ f, t.node old = some f → ¬f.dir) ↔
      ¬(SameFile t old new ∧ w.AllGo) := by
  constructor
  · rintro h ⟨hsame, hgo⟩
    exact (h hsame hgo).2 src hold hsrc
  · intro h hsame hgo
    exact absurd ⟨hsame, hgo⟩ h

private theorem node_eq_of_same (hsame : SameFile t old new) : t.node old = t.node new := by
  obtain ⟨id, hold, hnew⟩ := hsame
  rw [FileTree.node, FileTree.node, hold, hnew]

/-- From directory to directory. -/
private theorem sppcRename_dirs (h : Reaches w t old new src dst) (hsrc : src.dir) (hdst : dst.dir) :
    KeepsNames w t old new (sppcRename w t old new) ↔ RenameFits w t old new := by
  have hold := (getFileAttributes_ok h.2.2.1).1
  have hnew := (getFileAttributes_ok h.2.2.2).1
  have hcleared : ∀ src' dst', Reaches w t old new src' dst' → ¬src'.dir → ¬dst'.dir → dst'.readonly →
    ¬w.setAttributes.fails →
      ∀ e, w.posixFails = some e → Unsupported e → ¬w.moveFile.fails := by
    intro src' dst' h' hsrc'
    rw [(reaches_unique h h').1] at hsrc'
    exact absurd hsrc hsrc'
  have hrun := sppcRename_reached h
  rw [if_neg fun hdir => hdir.2 hsrc, if_neg fun hdir => hdir.2 hdst, if_pos hdst, removeDirectory, hnew] at hrun
  dsimp only at hrun
  by_cases hremove : w.remove.fails ∨ ¬dst.dir ∨ ¬(dst.reparse ∨ t.Empty new)
  · rw [if_pos hremove] at hrun
    rw [hrun]
    dsimp only
    rw [keepsNames_refused (r := ⟨some _, t⟩) rfl rfl, ← renameFits_same_dir hold hsrc]
    constructor
    · intro hsame
      refine ⟨?_, hcleared, hsame⟩
      intro src' dst' h' _ _ hfails hempty
      rw [(reaches_unique h h').2] at hempty
      rcases hremove with hno | hno | hno
      · exact absurd hno hfails
      · exact absurd hdst hno
      · exact absurd hempty hno
    · intro hfits
      exact hfits.same
  · rw [if_neg hremove] at hrun
    rw [hrun]
    dsimp only
    obtain ⟨hfails, hrest⟩ := not_or.1 hremove
    have hempty := not_not.1 (not_or.1 hrest).2
    have hiff : (renameTo w (t.remove new) old new (some dst)).err = none ↔ _ := renameTo_removed hold hsrc hdst
    obtain ⟨id, hid, -⟩ := FileTree.lookup_of_node hnew
    constructor
    · intro hkeeps
      refine ⟨?_, hcleared, ?_⟩
      · intro src' dst' _ _ _ _ _
        rw [← hiff]
        by_contra herr
        obtain ⟨err, herr⟩ := Option.ne_none_iff_exists'.1 herr
        have htree := hkeeps.error err herr
        rw [renameTo_keeps (fun hex => absurd hex (not_cleared hdst)) herr] at htree
        exact FileTree.remove_ne hid htree
      · rw [renameFits_same_dir hold hsrc]
        rintro ⟨hsame, hgo⟩
        obtain ⟨hnone, hnames, -⟩ := hkeeps.same hsame hgo
        obtain ⟨hinto, -⟩ := hiff.1 hnone
        have hne : old ≠ new := fun heq => hinto (heq ▸ List.prefix_rfl)
        have hold' : (t.remove new).node old = some src := by
          rw [node_remove_of_ne t hne]
          exact hold
        rw [renameTo_done hold' (goes_of_free true hold' (node_remove_self t new) hinto) (posixFails_of_allGo hgo)]
          at hnames
        have hlt := FileTree.length_remove hid
        have hlength : ((t.remove new).rename old new).names.length ≤ (t.remove new).names.length := by
          rw [FileTree.rename, List.length_map]
          exact List.length_filter_le _ _
        rw [hnames] at hlength
        omega
    · intro hfits
      have hnone := hiff.2 (hfits.removed src dst h hsrc hdst hfails hempty)
      refine ⟨?_, fun hsame hgo => ?_⟩
      · intro err herr
        rw [hnone] at herr
        cases herr
      · exact absurd ⟨hsame, hgo⟩ ((renameFits_same_dir hold hsrc).1 hfits.same)

/-- From file to file. -/
private theorem sppcRename_files (h : Reaches w t old new src dst) (hsrc : ¬src.dir) (hdst : ¬dst.dir) :
    KeepsNames w t old new (sppcRename w t old new) ↔ RenameFits w t old new := by
  have hold := (getFileAttributes_ok h.2.2.1).1
  have hnew := (getFileAttributes_ok h.2.2.2).1
  have hremoved : ∀ src' dst', Reaches w t old new src' dst' → src'.dir → dst'.dir → ¬w.remove.fails →
      (dst'.reparse ∨ t.Empty new) → ¬old <+: new ∧ ∀ e, w.posixFails = some e → Unsupported e ∧
      ¬w.moveFile.fails := by
    intro src' dst' h' hsrc'
    rw [(reaches_unique h h').1] at hsrc'
    exact absurd hsrc' hsrc
  have hfile : ∀ f, t.node old = some f → ¬f.dir := by
    intro f hf
    rw [hold, Option.some_inj] at hf
    rw [← hf]
    exact hsrc
  rw [sppcRename_reached h, if_neg fun hdir => hdst hdir.1, if_neg fun hdir => hsrc hdir.1, if_neg hdst]
  have hiff := renameTo_files (w := w) hold hnew hsrc hdst
  obtain ⟨id, hid, -⟩ := FileTree.lookup_of_node hnew
  have hdone (hgo : w.AllGo) :=
    renameTo_done hold (goes_of_files true hold hnew hsrc hdst fun _ => rfl) (posixFails_of_allGo hgo) (some dst)
  constructor
  · intro hkeeps
    refine ⟨hremoved, ?_, ?_⟩
    · intro src' dst' h' _ _
      rw [(reaches_unique h h').2]
      exact hiff.1 hkeeps.error
    · intro hsame hgo
      refine ⟨?_, hfile⟩
      by_contra hne
      obtain ⟨-, hnames, -⟩ := hkeeps.same hsame hgo
      rw [hdone hgo, if_neg hne] at hnames
      exact FileTree.rename_names_ne old hid hnames
  · intro hfits
    refine ⟨hiff.2 (hfits.cleared src dst h hsrc hdst), ?_⟩
    intro hsame hgo
    rw [hdone hgo, if_pos (hfits.same hsame hgo).1]
    exact ⟨rfl, rfl, fun _ => rfl⟩

/-- A rename keeps what it is to keep exactly if it fits. -/
private theorem sppcRename_keeps (w : RenameWorld) (t : FileTree) (old new : FileName) :
    KeepsNames w t old new (sppcRename w t old new) ↔ RenameFits w t old new := by
  by_cases hreach : ∃ src dst, Reaches w t old new src dst
  · obtain ⟨src, dst, h⟩ := hreach
    have hold := (getFileAttributes_ok h.2.2.1).1
    have hnew := (getFileAttributes_ok h.2.2.2).1
    by_cases hdirs : src.dir = dst.dir
    · by_cases hsrc : src.dir
      · exact sppcRename_dirs h hsrc (hdirs ▸ hsrc)
      · exact sppcRename_files h hsrc (hdirs ▸ hsrc)
    · have hrefused : ∃ err, sppcRename w t old new = ⟨some err, t⟩ := by
        rw [sppcRename_reached h]
        by_cases hdst : dst.dir
        · have hsrc : ¬src.dir := fun hsrc => hdirs (hsrc.trans hdst.symm)
          exact ⟨_, if_pos ⟨hdst, hsrc⟩⟩
        · have hsrc : src.dir := by
            by_contra hsrc
            simp only [Bool.not_eq_true] at hsrc hdst
            exact hdirs (hsrc.trans hdst.symm)
          rw [if_neg fun hdir => hdst hdir.1]
          exact ⟨_, if_pos ⟨hsrc, hdst⟩⟩
      obtain ⟨err, hrun⟩ := hrefused
      have hother : ¬SameFile t old new := by
        intro hsame
        have hnode := node_eq_of_same hsame
        rw [hold, hnew, Option.some_inj] at hnode
        exact hdirs (congrArg FileNode.dir hnode)
      rw [hrun]
      refine iff_of_true ⟨fun _ _ => rfl, fun hsame => absurd hsame hother⟩ ⟨?_, ?_, fun hsame => absurd hsame hother⟩
      · intro src' dst' h' hsrc' hdst'
        rw [(reaches_unique h h').1] at hsrc'
        rw [(reaches_unique h h').2] at hdst'
        exact absurd (hsrc'.trans hdst'.symm) hdirs
      · intro src' dst' h' hsrc' hdst'
        rw [(reaches_unique h h').1, Bool.not_eq_true] at hsrc'
        rw [(reaches_unique h h').2, Bool.not_eq_true] at hdst'
        exact absurd (hsrc'.trans hdst'.symm) hdirs
  · refine iff_of_true ⟨fun err herr => sppcRename_unreached hreach herr, ?_⟩ ⟨?_, ?_, ?_⟩
    · intro hsame hgo
      obtain ⟨f, -, -, h⟩ := reaches_of_same hsame hgo
      exact absurd ⟨f, f, h⟩ hreach
    · intro src dst h
      exact absurd ⟨src, dst, h⟩ hreach
    · intro src dst h
      exact absurd ⟨src, dst, h⟩ hreach
    · intro hsame hgo
      obtain ⟨f, -, -, h⟩ := reaches_of_same hsame hgo
      exact absurd ⟨f, f, h⟩ hreach

/-! ### The whole unlink -/

private theorem deleteFile_ignoring {c : CallAns} (h : t.node n = some f) :
    deleteFile c true t n = if c.fails then .error c.error else .ok (t.remove n) := by
  rw [deleteFile, h]
  dsimp only
  by_cases hc : c.fails
  · rw [if_pos hc, if_pos (Or.inl hc)]
  · rw [if_neg hc, if_neg]
    rintro (hfails | hreadonly)
    · exact hc hfails
    · exact hreadonly.2 rfl

/-- An unlink keeps what it is to keep exactly if it fits. -/
private theorem sppcUnlink_keeps (u : UnlinkWorld) (t : FileTree) (n : FileName) :
    KeepsName t (sppcUnlink u t n) ↔ UnlinkFits u t n := by
  unfold sppcUnlink UnlinkFits
  cases hpath : u.path with
  | some e => exact iff_of_true (fun _ _ => rfl) fun f h => nomatch h
  | none =>
    dsimp only
    cases hattr : getFileAttributes u.attributes t n with
    | error e => exact iff_of_true (fun _ _ => rfl) fun f _ h => nomatch h
    | ok f =>
      have hnode := (getFileAttributes_ok hattr).1
      simp only [forall_const, Except.ok.injEq, forall_eq']
      by_cases hdir : f.dir ∧ ¬f.reparse
      · rw [if_pos hdir]
        exact iff_of_true (fun _ _ => rfl) fun hno => absurd hdir hno
      · rw [if_neg hdir, imp_iff_right hdir]
        by_cases hopen : u.openPath.fails
        · rw [if_pos hopen]
          exact iff_of_true (fun _ _ => rfl) fun hno => absurd hopen hno
        · rw [if_neg hopen, imp_iff_right hopen, deleteFile_ignoring hnode]
          by_cases hex : u.dispositionEx.fails
          · rw [if_pos hex, imp_iff_right hex]
            dsimp only
            by_cases hclear : f.readonly ∧ ¬u.setAttributes.fails
            · rw [imp_iff_right hclear.1, imp_iff_right hclear.2, if_pos hclear.1, clearReadonly, if_neg hclear.2]
              have hnode' := t.node_update n fun f => { f with readonly := false }
              rw [hnode, Option.map_some] at hnode'
              have hchanged : (t.update n fun f => { f with readonly := false }) ≠ t := by
                apply FileTree.update_ne hnode
                intro heq
                have hreadonly : false = f.readonly := congrArg FileNode.readonly heq
                rw [hclear.1] at hreadonly
                exact Bool.false_ne_true hreadonly
              rw [deleteFile, hnode']
              dsimp only
              by_cases hc : u.disposition.fails
              · rw [if_pos (Or.inl hc)]
                exact iff_of_false (fun h => hchanged (h _ rfl)) fun h => h hc
              · rw [if_neg (by simpa using hc)]
                exact iff_of_true (fun err h => nomatch h) hc
            · have hsame : (if f.readonly then clearReadonly u.setAttributes t n else t) = t := by
                split
                · rename_i hreadonly
                  rw [clearReadonly, if_pos]
                  by_contra hset
                  exact hclear ⟨hreadonly, hset⟩
                · rfl
              rw [hsame]
              refine iff_of_true ?_ fun hreadonly hset => absurd ⟨hreadonly, hset⟩ hclear
              cases deleteFile u.disposition false t n with
              | ok t' => exact fun err h => nomatch h
              | error e => exact fun _ _ => rfl
          · rw [if_neg hex]
            exact iff_of_true (fun err h => nomatch h) fun h => absurd h hex

/-- Each keeps what it is to keep exactly if it fits. -/
theorem names_kept (w : RenameWorld) (u : UnlinkWorld) (t : FileTree) (old new n : FileName) :
    (KeepsNames w t old new (sppcRename w t old new) ↔ RenameFits w t old new) ∧
      (KeepsName t (sppcUnlink u t n) ↔ UnlinkFits u t n) :=
  ⟨sppcRename_keeps w t old new, sppcUnlink_keeps u t n⟩

/-- A call that takes effect where it can. -/
def goes : CallAns := ⟨false, ⟨2, by decide⟩⟩

/-- Every call takes effect that can. -/
def allGo : RenameWorld := ⟨none, none, goes, goes, goes, goes, true, goes, goes, goes, goes⟩

/-- An empty directory `d`, and nothing else. -/
def oneDirectory : FileTree := ⟨[(["d"], 0)], fun _ => ⟨true, false, false, []⟩⟩

/-- An empty directory renamed onto itself is removed, and the rename fails. -/
theorem names_kept_removed :
    (sppcRename allGo oneDirectory ["d"] ["d"]).err = some (.win goes.error) ∧
    (sppcRename allGo oneDirectory ["d"] ["d"]).tree.names = [] ∧
    ¬KeepsNames allGo oneDirectory ["d"] ["d"] (sppcRename allGo oneDirectory ["d"] ["d"]) := by
  have hrun : sppcRename allGo oneDirectory ["d"] ["d"] = ⟨some (.win goes.error), oneDirectory.remove ["d"]⟩ := by
    rfl
  refine ⟨by rw [hrun], by rw [hrun]; rfl, ?_⟩
  intro h
  have htree := h.error (.win goes.error) (by rw [hrun])
  rw [hrun] at htree
  exact absurd htree (FileTree.remove_ne (show oneDirectory.lookup ["d"] = some 0 by rfl))

end Sppc.Windows
