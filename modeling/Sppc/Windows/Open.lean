import Sppc.Flags
import Sppc.Windows.FdMap
import Sppc.Windows.Names

/-!
# Opening a file (`platform/windows.h`)

`sppc_open`: the file is opened, and created or cut to nothing, before there is a descriptor for it.
-/

namespace Sppc.Windows

def SPPC_S_IWUSR : BitVec 32 := 0o200

/-- `_SPPC_WIN_OPEN_FLAGS`. -/
def winOpenFlags : BitVec 32 :=
  SPPC_O_ACCMODE ||| SPPC_O_CREAT ||| SPPC_O_EXCL ||| SPPC_O_NOCTTY ||| SPPC_O_TRUNC ||| SPPC_O_APPEND |||
    SPPC_O_NONBLOCK ||| SPPC_O_SYNC ||| SPPC_O_DSYNC ||| SPPC_O_ASYNC ||| SPPC_O_DIRECT ||| SPPC_O_DIRECTORY |||
    SPPC_O_NOFOLLOW ||| SPPC_O_NOATIME ||| SPPC_O_CLOEXEC

/-- What a description may be used for, and how. -/
structure OfdMode where
  read : Bool
  write : Bool
  append : Bool
  nonblock : Bool
  deriving DecidableEq, Repr

/-- How opening fails: `path` with the error of `_sppc_win_wpath`, `win` with Windows', `fd` with the table's. -/
inductive OpenErr
  | EINVAL | EISDIR | ELOOP | ENOTDIR | ENOMEM
  | path (e : Nat)
  | win (e : WinError)
  | fd (e : FdErr)
  deriving DecidableEq, Repr

/-- How the calls of an open go.  `follow` is where a name leads through a link, `handle` the handle that
`CreateFileW` gives, and `symlink` whether what stands for something else, if it does, is known to be
a symbolic link. -/
structure OpenWorld where
  path : Option Nat
  attributes : CallAns
  follow : FileName → FileName
  create : CallAns
  handle : Handle
  information : Bool
  symlink : Bool
  truncate : CallAns
  calloc : Bool
  ready : Bool
  realloc : Bool

/-- The file system, the table of descriptors, and what its descriptions may be used for. -/
structure OpenState where
  tree : FileTree
  table : Files
  modes : Nat → OfdMode

/-- What an open returns and leaves, with the handles that it has opened and those that it has closed itself. -/
structure OpenReturn where
  err : Option OpenErr
  fd : Int
  state : OpenState
  opened : List Handle
  closed : List Handle

/-! ### Flags -/

/-- A flag is given. -/
def Has (flags flag : BitVec 32) : Prop := flags &&& flag ≠ 0

instance (flags flag : BitVec 32) : Decidable (Has flags flag) := inferInstanceAs (Decidable (_ ≠ _))

def OpenReads (flags : BitVec 32) : Prop := flags &&& SPPC_O_ACCMODE ≠ SPPC_O_WRONLY

def OpenWrites (flags : BitVec 32) : Prop := flags &&& SPPC_O_ACCMODE ≠ SPPC_O_RDONLY

def OpenExclusive (flags : BitVec 32) : Prop := Has flags SPPC_O_CREAT ∧ Has flags SPPC_O_EXCL

instance (flags : BitVec 32) : Decidable (OpenReads flags) := inferInstanceAs (Decidable (_ ≠ _))
instance (flags : BitVec 32) : Decidable (OpenWrites flags) := inferInstanceAs (Decidable (_ ≠ _))
instance (flags : BitVec 32) : Decidable (OpenExclusive flags) := inferInstanceAs (Decidable (_ ∧ _))

/-- The flags and the mode are accepted. -/
def OpenArgs (flags mode : BitVec 32) : Prop :=
  flags &&& ~~~winOpenFlags = 0 ∧ flags &&& SPPC_O_ACCMODE ≠ SPPC_O_ACCMODE ∧ mode &&& ~~~(0o7777 : BitVec 32) = 0

instance (flags mode : BitVec 32) : Decidable (OpenArgs flags mode) := inferInstanceAs (Decidable (_ ∧ _))

/-- What the flags ask of the description. -/
def openMode (flags : BitVec 32) : OfdMode :=
  ⟨OpenReads flags, OpenWrites flags, Has flags SPPC_O_APPEND, Has flags SPPC_O_NONBLOCK⟩

/-- The file that an open creates. -/
def newFile (mode : BitVec 32) : FileNode := ⟨false, false, ¬Has mode SPPC_S_IWUSR, []⟩

/-! ### `sppc_open` -/

/-- `CreateFileW`, which opens what there is unless it is to be new, or creates it unless it is to be there; with what
the handle is for. -/
def createFile (c : CallAns) (flags mode : BitVec 32) (t : FileTree) (n : FileName) :
    Except WinError (FileTree × FileNode) :=
  if c.fails then .error c.error
  else
    match t.node n with
    | some f => if OpenExclusive flags then .error c.error else .ok (t, f)
    | none => if Has flags SPPC_O_CREAT then .ok (t.create n (newFile mode), newFile mode) else .error c.error

/-- `GetFileAttributesW` finds a directory. -/
def isDirectory (c : CallAns) (t : FileTree) (n : FileName) : Bool :=
  match getFileAttributes c t n with
  | .ok f => f.dir
  | .error _ => false

/-- `SetFileInformationByHandle` with an end of file at 0. -/
def cutFile (c : CallAns) (t : FileTree) (n : FileName) (f : FileNode) : Except WinError FileTree :=
  if c.fails ∨ f.dir then .error c.error else .ok (t.update n fun f => { f with data := [] })

/-- The name that is opened. -/
def OpenWorld.reached (w : OpenWorld) (n : FileName) (flags : BitVec 32) : FileName :=
  if Has flags SPPC_O_NOFOLLOW then n else w.follow n

/-- What is checked of the file that was opened, which is then cut if it is to be. -/
def openChecks (w : OpenWorld) (flags : BitVec 32) (t : FileTree) (n : FileName) (f : FileNode) :
    Except OpenErr FileTree :=
  if Has flags SPPC_O_NOFOLLOW ∧ w.symlink ∧ f.reparse then .error .ELOOP
  else if Has flags SPPC_O_DIRECTORY ∧ ¬(w.information ∧ f.dir) then .error .ENOTDIR
  else if Has flags SPPC_O_TRUNC ∧ ¬(w.information ∧ f.dir) then
    match cutFile w.truncate t n f with
    | .error e => .error (.win e)
    | .ok t => .ok t
  else .ok t

/-- `_sppc_fd_install` of the description, made and opened. -/
def openInstall (w : OpenWorld) (s : OpenState) (flags : BitVec 32) : OpenReturn :=
  if ¬w.calloc then ⟨some .ENOMEM, -1, s, [w.handle], [w.handle]⟩
  else
    let d := s.table.next
    let table := s.table.ofdNew w.handle
    let modes := Function.update s.modes d (openMode flags)
    if ¬w.ready then ⟨some .ENOMEM, -1, { s with table := table.ofdRelease (some d), modes }, [w.handle], []⟩
    else
      match table.fdInstall d 0 (Has flags SPPC_O_CLOEXEC) w.realloc with
      | (.error e, table) => ⟨some (.fd e), -1, { s with table, modes }, [w.handle], []⟩
      | (.ok fd, table) => ⟨none, fd, { s with table, modes }, [w.handle], []⟩

/-- What is done with the handle that `CreateFileW` has given. -/
def openFile (w : OpenWorld) (s : OpenState) (n : FileName) (flags : BitVec 32) (t : FileTree)
    (f : FileNode) : OpenReturn :=
  match openChecks w flags t n f with
  | .error e => ⟨some e, -1, { s with tree := t }, [w.handle], [w.handle]⟩
  | .ok t => openInstall w { s with tree := t } flags

/-- `sppc_open`. -/
def sppcOpen (w : OpenWorld) (s : OpenState) (n : FileName) (flags mode : BitVec 32) : OpenReturn :=
  if ¬OpenArgs flags mode then ⟨some .EINVAL, -1, s, [], []⟩
  else
    match w.path with
    | some e => ⟨some (.path e), -1, s, [], []⟩
    | none =>
      if isDirectory w.attributes s.tree n ∧ ¬OpenExclusive flags ∧ (OpenWrites flags ∨ Has flags SPPC_O_TRUNC) then
        ⟨some .EISDIR, -1, s, [], []⟩
      else
        match createFile w.create flags mode s.tree (w.reached n flags) with
        | .error e => ⟨some (.win e), -1, s, [], []⟩
        | .ok (t, f) => openFile w s (w.reached n flags) flags t f

/-! ### What an open is to do -/

/-- The table is as it was, and the handles that were opened are closed again, each once. -/
structure Untouched (s : OpenState) (r : OpenReturn) : Prop where
  fd : r.fd = -1
  fds : r.state.table.fds = s.table.fds
  std : r.state.table.std = s.table.std
  ofds : ∀ d < s.table.next, r.state.table.ofds d = s.table.ofds d
  closed : ∃ new, r.state.table.closed = new ++ s.table.closed ∧
    r.opened.Perm (r.closed ++ new.map fun d => (r.state.table.ofds d).handle)

open Descriptors in
/-- The least free fd names a new description, for what the flags ask, with the handle that was opened. -/
structure Installed (s : OpenState) (flags : BitVec 32) (r : OpenReturn) : Prop where
  new : s.table.map.New s.table.next
  least : ∃ fd : Nat, r.fd = fd ∧ s.table.map.Least fdMax 0 fd ∧
    r.state.table.map = s.table.map.put fd (some ⟨s.table.next, Has flags SPPC_O_CLOEXEC⟩)
  read : (r.state.modes s.table.next).read ↔
    flags &&& SPPC_O_ACCMODE = SPPC_O_RDONLY ∨ flags &&& SPPC_O_ACCMODE = SPPC_O_RDWR
  write : (r.state.modes s.table.next).write ↔
    flags &&& SPPC_O_ACCMODE = SPPC_O_WRONLY ∨ flags &&& SPPC_O_ACCMODE = SPPC_O_RDWR
  append : (r.state.modes s.table.next).append ↔ Has flags SPPC_O_APPEND
  nonblock : (r.state.modes s.table.next).nonblock ↔ Has flags SPPC_O_NONBLOCK
  handle : r.opened = [(r.state.table.ofds s.table.next).handle] ∧ r.closed = [] ∧
    r.state.table.closed = s.table.closed

/-- The tree that the flags ask for. -/
def askedTree (t : FileTree) (n : FileName) (flags mode : BitVec 32) : FileTree :=
  match t.node n with
  | none => t.create n (newFile mode)
  | some f => if Has flags SPPC_O_TRUNC ∧ ¬f.dir then t.update n fun f => { f with data := [] } else t

/-- What an open of the name `n` is to do: where it fails, nothing; else what its flags ask. -/
structure OpensWhole (s : OpenState) (n : FileName) (flags mode : BitVec 32) (r : OpenReturn) : Prop where
  failed : r.err ≠ none → r.state.tree = s.tree ∧ Untouched s r
  opened : r.err = none → (s.tree.node n = none → Has flags SPPC_O_CREAT) ∧
    (OpenExclusive flags → s.tree.node n = none) ∧ r.state.tree = askedTree s.tree n flags mode ∧ Installed s flags r

/-- There is an fd that is free, and memory for the table to reach it. -/
def Files.Room (s : Files) (realloc : Bool) : Prop :=
  ∃ fd < fdMax, s.map fd = none ∧ (∀ x < fd, s.map x ≠ none) ∧ (fd < s.fds.length ∨ realloc)

/-- What comes after the file is opened does not fail. -/
def Installs (w : OpenWorld) (s : OpenState) : Prop := w.calloc ∧ w.ready ∧ s.table.Room w.realloc

/-- The call of `CreateFileW` is reached, and does not fail but for what there is. -/
def CreateReached (w : OpenWorld) (s : OpenState) (n : FileName) (flags mode : BitVec 32) : Prop :=
  OpenArgs flags mode ∧ w.path = none ∧
    ¬(isDirectory w.attributes s.tree n ∧ ¬OpenExclusive flags ∧ (OpenWrites flags ∨ Has flags SPPC_O_TRUNC)) ∧
    ¬w.create.fails

/-- Nothing fails after a file has been created, or one with data cut. -/
structure OpenFits (w : OpenWorld) (s : OpenState) (n : FileName) (flags mode : BitVec 32) : Prop where
  created : CreateReached w s n flags mode → s.tree.node (w.reached n flags) = none → Has flags SPPC_O_CREAT →
    ¬Has flags SPPC_O_DIRECTORY ∧ (Has flags SPPC_O_TRUNC → ¬w.truncate.fails) ∧ Installs w s
  truncated : ∀ f, CreateReached w s n flags mode → s.tree.node (w.reached n flags) = some f → ¬OpenExclusive flags →
    ¬(Has flags SPPC_O_NOFOLLOW ∧ w.symlink ∧ f.reparse) → ¬Has flags SPPC_O_DIRECTORY → Has flags SPPC_O_TRUNC →
    ¬f.dir → f.data ≠ [] → ¬w.truncate.fails → Installs w s

/-! ### The table -/

namespace Files

variable {s s' : Files} {held : Nat → Nat} {d fd n lowest : Nat} {c realloc : Bool}

private theorem reserve_room (h : fd < s.fds.length ∨ realloc) : ∃ t, s.reserve fd realloc = some t := by
  cases hr : s.reserve fd realloc with
  | some t => exact ⟨t, rfl⟩
  | none =>
    have hno := reserve_eq_none hr
    rcases h with hlt | hmem
    · rw [reserve, if_pos hlt] at hr
      exact absurd hr (by simp)
    · rw [hno] at hmem
      exact absurd hmem (by simp)

private theorem room_of_reserve {t : Files} (h : s.reserve fd realloc = some t) : fd < s.fds.length ∨ realloc := by
  by_cases hlt : fd < s.fds.length
  · exact Or.inl hlt
  · rw [reserve, if_neg hlt] at h
    refine Or.inr ?_
    by_contra hno
    simp [hno] at h

/-- The loop of `install` takes a free fd that is in reach, where it gets to it. -/
private theorem installFrom_room (hle : lowest ≤ fd) (hlt : fd < lowest + n) (hfree : s.map fd = none)
    (htaken : ∀ x, lowest ≤ x → x < fd → s.map x ≠ none) (hroom : fd < s.fds.length ∨ realloc) :
    ∃ r, s.installFrom d c realloc n lowest = .ok r := by
  induction n generalizing lowest with
  | zero => omega
  | succ n ih =>
    rw [installFrom]
    by_cases heq : lowest = fd
    · rw [if_neg (by rw [heq, not_not, ← map_eq_none]; exact hfree)]
      obtain ⟨t, ht⟩ := reserve_room (s := s) hroom
      rw [heq, ht]
      exact ⟨_, rfl⟩
    · have hne : s.ofdAt lowest ≠ none := by
        intro hnone
        exact htaken lowest (Nat.le_refl _) (by omega) (map_eq_none.2 hnone)
      rw [if_pos hne]
      apply ih
      · omega
      · omega
      · intro x hx hxfd
        exact htaken x (by omega) hxfd

private theorem room_of_installFrom (h : s.installFrom d c realloc n lowest = .ok (fd, s')) :
    fd < s.fds.length ∨ realloc := by
  induction n generalizing lowest with
  | zero => cases h
  | succ n ih =>
    rw [installFrom] at h
    split at h
    · exact ih h
    · split at h
      · cases h
      · rename_i t hreserve
        cases h
        exact room_of_reserve hreserve

/-- There is room if and only if an `install` gets an fd. -/
private theorem room_iff (hi : s.Inv held) (d : Nat) (c realloc : Bool) :
    s.Room realloc ↔ ∃ r, s.installLocked d 0 c realloc = .ok r := by
  constructor
  · rintro ⟨fd, hlt, hfree, htaken, hroom⟩
    exact installFrom_room (Nat.zero_le _) (by omega) hfree (fun x _ => htaken x) hroom
  · rintro ⟨⟨fd, t⟩, h⟩
    obtain ⟨hleast, -⟩ := installFrom_ok hi.pos hi.le (Nat.le_refl _) h
    exact ⟨fd, hleast.lt, hleast.free, fun x => hleast.least x (Nat.zero_le _), room_of_installFrom h⟩

end Files

/-! ### The install -/

variable {w : OpenWorld} {s : OpenState} {n : FileName} {flags mode : BitVec 32} {held : Nat → Nat} {f : FileNode}

private theorem accmode_cases (flags : BitVec 32) (h : flags &&& SPPC_O_ACCMODE ≠ SPPC_O_ACCMODE) :
    flags &&& SPPC_O_ACCMODE = SPPC_O_RDONLY ∨ flags &&& SPPC_O_ACCMODE = SPPC_O_WRONLY ∨
      flags &&& SPPC_O_ACCMODE = SPPC_O_RDWR := by
  have hmod : (flags &&& SPPC_O_ACCMODE).toNat = flags.toNat % 4 := by
    rw [BitVec.toNat_and]
    exact Nat.and_two_pow_sub_one_eq_mod flags.toNat 2
  have hne : flags.toNat % 4 ≠ 3 := by
    intro heq
    apply h
    apply BitVec.eq_of_toNat_eq
    rw [hmod, heq]
    rfl
  have hcase : flags.toNat % 4 = 0 ∨ flags.toNat % 4 = 1 ∨ flags.toNat % 4 = 2 := by omega
  rcases hcase with hc | hc | hc
  · refine Or.inl (BitVec.eq_of_toNat_eq ?_)
    rw [hmod, hc]
    rfl
  · refine Or.inr (Or.inl (BitVec.eq_of_toNat_eq ?_))
    rw [hmod, hc]
    rfl
  · refine Or.inr (Or.inr (BitVec.eq_of_toNat_eq ?_))
    rw [hmod, hc]
    rfl

private theorem openReads_iff (h : flags &&& SPPC_O_ACCMODE ≠ SPPC_O_ACCMODE) : OpenReads flags ↔
    flags &&& SPPC_O_ACCMODE = SPPC_O_RDONLY ∨ flags &&& SPPC_O_ACCMODE = SPPC_O_RDWR := by
  unfold OpenReads
  rcases accmode_cases flags h with hc | hc | hc <;> rw [hc] <;> decide

private theorem openWrites_iff (h : flags &&& SPPC_O_ACCMODE ≠ SPPC_O_ACCMODE) : OpenWrites flags ↔
    flags &&& SPPC_O_ACCMODE = SPPC_O_WRONLY ∨ flags &&& SPPC_O_ACCMODE = SPPC_O_RDWR := by
  unfold OpenWrites
  rcases accmode_cases flags h with hc | hc | hc <;> rw [hc] <;> decide

/-- A description whose only reference is let go of is closed. -/
private theorem untouched_new (s : OpenState) (h : Handle) (e : Option OpenErr) (modes : Nat → OfdMode) :
    Untouched s ⟨e, -1, { s with table := (s.table.ofdNew h).ofdRelease (some s.table.next), modes }, [h], []⟩ := by
  have hrefs : (((s.table.ofdNew h).ofdDecrement s.table.next).ofds s.table.next).refs = 0 := by
    simp [Files.ofdNew, Files.ofdDecrement]
  have hrelease : (s.table.ofdNew h).ofdRelease (some s.table.next) =
      (((s.table.ofdNew h).ofdDecrement s.table.next).ofdClose s.table.next).ofdFree s.table.next := by
    rw [Files.ofdRelease, if_neg (by rw [not_not]; exact hrefs)]
  constructor
  · rfl
  · rw [hrelease]
    rfl
  · rw [hrelease]
    rfl
  · intro d hd
    have hne : d ≠ s.table.next := by omega
    rw [hrelease]
    simp [Files.ofdNew, Files.ofdDecrement, Files.ofdClose, Files.ofdFree, Function.update_of_ne hne]
  · refine ⟨[s.table.next], ?_, ?_⟩
    · rw [hrelease]
      rfl
    · rw [hrelease]
      simp [Files.ofdNew, Files.ofdDecrement, Files.ofdClose, Files.ofdFree]

private theorem openInstall_cases (w : OpenWorld) (hi : s.table.Inv held)
    (hargs : flags &&& SPPC_O_ACCMODE ≠ SPPC_O_ACCMODE) : let r := openInstall w s flags
    r.state.tree = s.tree ∧
      (Installs w s ∧ r.err = none ∧ Installed s flags r ∨ ¬Installs w s ∧ r.err ≠ none ∧ Untouched s r) := by
  intro r
  by_cases hcalloc : w.calloc
  case neg =>
    have hr : r = ⟨some .ENOMEM, -1, s, [w.handle], [w.handle]⟩ := by
      unfold r openInstall
      rw [if_pos hcalloc]
    rw [hr]
    refine ⟨rfl, Or.inr ⟨fun h => hcalloc h.1, by simp, rfl, rfl, rfl, fun _ _ => rfl, [], rfl, ?_⟩⟩
    simp
  by_cases hready : w.ready
  case neg =>
    have hr : r = ⟨some .ENOMEM, -1, { s with
        table := (s.table.ofdNew w.handle).ofdRelease (some s.table.next)
        modes := Function.update s.modes s.table.next (openMode flags) }, [w.handle], []⟩ := by
      unfold r openInstall
      rw [if_neg (by simpa using hcalloc)]
      dsimp only
      rw [if_pos hready]
    rw [hr]
    exact ⟨rfl, Or.inr ⟨fun h => hready h.2.1, by simp, untouched_new s _ _ _⟩⟩
  have hnew := hi.new w.handle
  have hroom := Files.room_iff hnew s.table.next (Has flags SPPC_O_CLOEXEC) w.realloc
  have hr : r = match (s.table.ofdNew w.handle).fdInstall s.table.next 0 (Has flags SPPC_O_CLOEXEC) w.realloc with
      | (.error e, table) => ⟨some (.fd e), -1, { s with
          table, modes := Function.update s.modes s.table.next (openMode flags) }, [w.handle], []⟩
      | (.ok fd, table) => ⟨none, fd, { s with
          table, modes := Function.update s.modes s.table.next (openMode flags) }, [w.handle], []⟩ := by
    unfold r openInstall
    rw [if_neg (by simpa using hcalloc)]
    dsimp only
    rw [if_neg (by simpa using hready)]
  rw [Files.fdInstall] at hr
  cases hlocked : (s.table.ofdNew w.handle).installLocked s.table.next 0 (Has flags SPPC_O_CLOEXEC) w.realloc with
  | error e =>
    rw [hlocked] at hr
    have hno : ¬Installs w s := by
      rintro ⟨-, -, h⟩
      obtain ⟨a, ha⟩ := hroom.1 h
      rw [hlocked] at ha
      cases ha
    rw [hr]
    exact ⟨rfl, Or.inr ⟨hno, by simp, untouched_new s _ _ _⟩⟩
  | ok a =>
    obtain ⟨fd, t⟩ := a
    rw [hlocked] at hr
    have hyes : Installs w s := ⟨hcalloc, hready, hroom.2 ⟨_, hlocked⟩⟩
    obtain ⟨hleast, k, hlt, hmax, rfl⟩ := Files.installFrom_ok hnew.pos hnew.le (Nat.le_refl _) hlocked
    have hmap : (((s.table.ofdNew w.handle).grown k).set fd (some s.table.next) (Has flags SPPC_O_CLOEXEC)).map =
        s.table.map.put fd (some ⟨s.table.next, Has flags SPPC_O_CLOEXEC⟩) := by
      rw [Files.map_set hlt, Files.map_grown]
      rfl
    rw [hr]
    refine ⟨rfl, Or.inl ⟨hyes, rfl, ?_⟩⟩
    constructor
    · exact hi.new_next
    · exact ⟨fd, rfl, hleast, hmap⟩
    · simp [openMode, openReads_iff hargs]
    · simp [openMode, openWrites_iff hargs]
    · simp [openMode]
    · simp [openMode]
    · simp [Files.set, Files.grown, Files.ofdNew]

/-! ### The file -/

private theorem openChecks_ok {t t' : FileTree} (h : openChecks w flags t n f = .ok t') :
    (Has flags SPPC_O_TRUNC ∧ ¬f.dir → t' = t.update n fun f => { f with data := [] }) ∧
      (¬(Has flags SPPC_O_TRUNC ∧ ¬f.dir) → t' = t) ∧ (Has flags SPPC_O_DIRECTORY → f.dir) ∧
      (Has flags SPPC_O_TRUNC → ¬f.dir → ¬w.truncate.fails) := by
  unfold openChecks at h
  split at h
  · cases h
  split at h
  · cases h
  rename_i hdir
  have hdir' : Has flags SPPC_O_DIRECTORY → f.dir := by
    intro hd
    by_contra hno
    exact hdir ⟨hd, fun hboth => hno hboth.2⟩
  split at h
  · rename_i htrunc
    unfold cutFile at h
    split at h
    · cases h
    · rename_i t'' hcut
      split at hcut
      · cases hcut
      · rename_i hgo
        cases hcut
        cases h
        refine ⟨fun _ => rfl, fun hno => ?_, hdir', fun _ _ hf => hgo (Or.inl hf)⟩
        exact absurd ⟨htrunc.1, fun hd => hgo (Or.inr hd)⟩ hno
  · rename_i hno
    cases h
    refine ⟨fun hyes => ?_, fun _ => rfl, hdir', fun ht hd => ?_⟩
    · exact absurd ⟨hyes.1, fun hboth => hyes.2 hboth.2⟩ hno
    · exact absurd ⟨ht, fun hboth => hd hboth.2⟩ hno

private theorem openChecks_error {t : FileTree} {e : OpenErr} (h : openChecks w flags t n f = .error e) :
    Has flags SPPC_O_NOFOLLOW ∧ w.symlink ∧ f.reparse ∨ Has flags SPPC_O_DIRECTORY ∧ ¬(w.information ∧ f.dir) ∨
      Has flags SPPC_O_TRUNC ∧ (w.truncate.fails ∨ f.dir) := by
  unfold openChecks at h
  split at h
  · exact Or.inl (by assumption)
  split at h
  · exact Or.inr (Or.inl (by assumption))
  split at h
  · rename_i htrunc
    unfold cutFile at h
    split at h
    · rename_i e' hcut
      split at hcut
      · exact Or.inr (Or.inr ⟨htrunc.1, by assumption⟩)
      · cases hcut
    · cases h
  · cases h

/-- The checks of a file just created, and what they leave. -/
private theorem openChecks_created (w : OpenWorld) (flags mode : BitVec 32) (t : FileTree) (n : FileName) :
    (¬Has flags SPPC_O_DIRECTORY ∧ (Has flags SPPC_O_TRUNC → ¬w.truncate.fails) ∧
      openChecks w flags (t.create n (newFile mode)) n (newFile mode) = .ok (t.create n (newFile mode))) ∨
    ¬(¬Has flags SPPC_O_DIRECTORY ∧ (Has flags SPPC_O_TRUNC → ¬w.truncate.fails)) ∧
      ∃ e, openChecks w flags (t.create n (newFile mode)) n (newFile mode) = .error e := by
  cases h : openChecks w flags (t.create n (newFile mode)) n (newFile mode) with
  | error e =>
    refine Or.inr ⟨?_, e, rfl⟩
    rintro ⟨hdir, htrunc⟩
    rcases openChecks_error h with ⟨-, -, hlink⟩ | ⟨hd, -⟩ | ⟨ht, hf | hd⟩
    · exact absurd hlink (by simp [newFile])
    · exact hdir hd
    · exact htrunc ht hf
    · exact absurd hd (by simp [newFile])
  | ok t' =>
    obtain ⟨hcut, hkeep, hdir, htrunc⟩ := openChecks_ok h
    have hnode : (t.create n (newFile mode)).node n = some (newFile mode) := t.node_create n (newFile mode)
    have ht : t' = t.create n (newFile mode) := by
      by_cases hyes : Has flags SPPC_O_TRUNC ∧ ¬(newFile mode).dir
      · rw [hcut hyes]
        exact FileTree.update_eq_self hnode rfl
      · exact hkeep hyes
    rw [ht]
    exact Or.inl ⟨fun hd => absurd (hdir hd) (by simp [newFile]), fun h => htrunc h (by simp [newFile]), rfl⟩

private theorem opensWhole_refused {r : OpenReturn} (he : r.err ≠ none) (ht : r.state.tree = s.tree)
    (hu : Untouched s r) : OpensWhole s n flags mode r := ⟨fun _ => ⟨ht, hu⟩, fun hnone => absurd hnone he⟩

private theorem not_opensWhole {r : OpenReturn} (he : r.err ≠ none) (ht : r.state.tree ≠ s.tree) :
    ¬OpensWhole s n flags mode r := fun h => ht (h.failed he).1

private theorem untouched_refused (s : OpenState) (e : Option OpenErr) (t : FileTree) (opened : List Handle) :
    Untouched s ⟨e, -1, { s with tree := t }, opened, opened⟩ :=
  ⟨rfl, rfl, rfl, fun _ _ => rfl, [], rfl, by simp⟩

private theorem sppcOpen_refused (h : ¬CreateReached w s n flags mode) :
    ∃ e, sppcOpen w s n flags mode = ⟨some e, -1, s, [], []⟩ := by
  unfold sppcOpen
  split
  · exact ⟨_, rfl⟩
  rename_i hargs
  split
  · exact ⟨_, rfl⟩
  rename_i hpath
  split
  · exact ⟨_, rfl⟩
  rename_i hdir
  have hfails : w.create.fails := by
    by_contra hgo
    exact h ⟨not_not.1 hargs, hpath, hdir, hgo⟩
  rw [createFile, if_pos hfails]
  exact ⟨_, rfl⟩

private theorem sppcOpen_reached (h : CreateReached w s n flags mode) :
    sppcOpen w s n flags mode =
      match s.tree.node (w.reached n flags) with
      | some f =>
        if OpenExclusive flags then ⟨some (.win w.create.error), -1, s, [], []⟩
        else openFile w s (w.reached n flags) flags s.tree f
      | none =>
        if Has flags SPPC_O_CREAT then
          openFile w s (w.reached n flags) flags (s.tree.create (w.reached n flags) (newFile mode)) (newFile mode)
        else ⟨some (.win w.create.error), -1, s, [], []⟩ := by
  obtain ⟨hargs, hpath, hdir, hgo⟩ := h
  unfold sppcOpen
  rw [if_neg (not_not.2 hargs), hpath]
  dsimp only
  rw [if_neg hdir, createFile, if_neg hgo]
  cases s.tree.node (w.reached n flags) with
  | some f =>
    dsimp only
    by_cases hexcl : OpenExclusive flags
    · rw [if_pos hexcl, if_pos hexcl]
    · rw [if_neg hexcl, if_neg hexcl]
  | none =>
    dsimp only
    by_cases hcreat : Has flags SPPC_O_CREAT
    · rw [if_pos hcreat, if_pos hcreat]
    · rw [if_neg hcreat, if_neg hcreat]

/-- A file has been created, which did not exist. -/
private theorem openFile_created (hi : s.table.Inv held) (hreach : CreateReached w s n flags mode)
    (hnode : s.tree.node (w.reached n flags) = none) (hcreat : Has flags SPPC_O_CREAT) :
    OpensWhole s (w.reached n flags) flags mode (openFile w s (w.reached n flags) flags
      (s.tree.create (w.reached n flags) (newFile mode)) (newFile mode)) ↔ OpenFits w s n flags mode := by
  have hne := s.tree.create_ne (w.reached n flags) (newFile mode)
  have hfits : OpenFits w s n flags mode ↔
    (¬Has flags SPPC_O_DIRECTORY ∧ (Has flags SPPC_O_TRUNC → ¬w.truncate.fails)) ∧
      Installs w s := by
    constructor
    · intro h
      obtain ⟨hdir, htrunc, hinstalls⟩ := h.created hreach hnode hcreat
      exact ⟨⟨hdir, htrunc⟩, hinstalls⟩
    · rintro ⟨⟨hdir, htrunc⟩, hinstalls⟩
      exact ⟨fun _ _ _ => ⟨hdir, htrunc, hinstalls⟩, fun _ _ _ _ _ _ _ _ _ _ => hinstalls⟩
  rw [hfits]
  unfold openFile
  rcases openChecks_created w flags mode s.tree (w.reached n flags) with
    ⟨hdir, htrunc, hchecks⟩ | ⟨hno, e, hchecks⟩
  · rw [hchecks]
    dsimp only
    obtain ⟨htree, ⟨hinstalls, hnone, hinst⟩ | ⟨hnot, herr, hun⟩⟩ := openInstall_cases w
      (s := { s with tree := s.tree.create (w.reached n flags) (newFile mode) }) hi hreach.1.2.1
    · refine iff_of_true ⟨fun herr => absurd hnone herr, fun _ => ⟨fun _ => hcreat, fun _ => hnode, ?_, ?_⟩⟩
        ⟨⟨hdir, htrunc⟩, hinstalls⟩
      · rw [htree, askedTree, hnode]
      · obtain ⟨h1, h2, h3, h4, h5, h6, h7⟩ := hinst
        exact ⟨h1, h2, h3, h4, h5, h6, h7⟩
    · apply iff_of_false
      · apply not_opensWhole herr
        rw [htree]
        exact hne
      · exact fun h => hnot h.2
  · rw [hchecks]
    apply iff_of_false
    · exact not_opensWhole (by simp) hne
    · exact fun h => hno h.1

/-- A file that existed has been opened. -/
private theorem openFile_found (hi : s.table.Inv held) (hreach : CreateReached w s n flags mode)
    (hnode : s.tree.node (w.reached n flags) = some f) (hexcl : ¬OpenExclusive flags) :
    OpensWhole s (w.reached n flags) flags mode (openFile w s (w.reached n flags) flags s.tree f) ↔
      OpenFits w s n flags mode := by
  unfold openFile
  cases hchecks : openChecks w flags s.tree (w.reached n flags) f with
  | error e =>
    apply iff_of_true
    · exact opensWhole_refused (by simp) rfl (untouched_refused s _ _ _)
    · refine ⟨fun _ hnone => ?_, fun f' _ hsome _ hlink hdir htrunc hfile _ hgo => ?_⟩
      · rw [hnode] at hnone
        cases hnone
      · rw [hnode] at hsome
        cases hsome
        rcases openChecks_error hchecks with h | ⟨h, -⟩ | ⟨-, h | h⟩
        · exact absurd h hlink
        · exact absurd h hdir
        · exact absurd h hgo
        · exact absurd h hfile
  | ok t' =>
    obtain ⟨hcut, hkeep, hdirectory, htruncate⟩ := openChecks_ok hchecks
    dsimp only
    obtain ⟨htree, ⟨hinstalls, hnone, hinst⟩ | ⟨hnot, herr, hun⟩⟩ :=
      openInstall_cases w (s := { s with tree := t' }) hi hreach.1.2.1
    · apply iff_of_true
      · refine ⟨fun herr => absurd hnone herr, fun _ => ⟨fun h => ?_, fun h => absurd h hexcl, ?_, ?_⟩⟩
        · rw [hnode] at h
          cases h
        · rw [htree, askedTree, hnode]
          dsimp only
          split
          · rename_i hyes
            exact hcut hyes
          · rename_i hno
            exact hkeep hno
        · obtain ⟨h1, h2, h3, h4, h5, h6, h7⟩ := hinst
          exact ⟨h1, h2, h3, h4, h5, h6, h7⟩
      · refine ⟨fun _ hnone => ?_, fun _ _ _ _ _ _ _ _ _ _ => hinstalls⟩
        rw [hnode] at hnone
        cases hnone
    · by_cases hlost : Has flags SPPC_O_TRUNC ∧ ¬f.dir ∧ f.data ≠ []
      · obtain ⟨htrunc, hfile, hdata⟩ := hlost
        apply iff_of_false
        · apply not_opensWhole herr
          rw [htree]
          dsimp only
          rw [hcut ⟨htrunc, hfile⟩]
          apply FileTree.update_ne hnode
          intro heq
          exact hdata (congrArg FileNode.data heq).symm
        · intro h
          refine hnot (h.truncated f hreach hnode hexcl ?_ (fun hd => hfile (hdirectory hd)) htrunc hfile hdata
            (htruncate htrunc hfile))
          intro hlink
          rw [openChecks, if_pos hlink] at hchecks
          cases hchecks
      · apply iff_of_true
        · apply opensWhole_refused herr
          · rw [htree]
            dsimp only
            by_cases hyes : Has flags SPPC_O_TRUNC ∧ ¬f.dir
            · rw [hcut hyes]
              apply FileTree.update_eq_self hnode
              have hdata : f.data = [] := by
                by_contra hne
                exact hlost ⟨hyes.1, hyes.2, hne⟩
              rw [← hdata]
            · exact hkeep hyes
          · obtain ⟨h1, h2, h3, h4, h5⟩ := hun
            exact ⟨h1, h2, h3, h4, h5⟩
        · refine ⟨fun _ hnone => ?_, fun f' _ hsome _ _ _ htrunc hfile hdata _ => ?_⟩
          · rw [hnode] at hnone
            cases hnone
          · rw [hnode] at hsome
            cases hsome
            exact absurd ⟨htrunc, hfile, hdata⟩ hlost

/-- An open does as it is to if and only if nothing fails after it has created a file, or cut one with data. -/
theorem sppcOpen_whole (w : OpenWorld) (s : OpenState) (n : FileName) (flags mode : BitVec 32) (held : Nat → Nat)
    (hi : s.table.Inv held) :
    OpensWhole s (w.reached n flags) flags mode (sppcOpen w s n flags mode) ↔ OpenFits w s n flags mode := by
  by_cases hreach : CreateReached w s n flags mode
  case neg =>
    obtain ⟨e, he⟩ := sppcOpen_refused hreach
    rw [he]
    apply iff_of_true
    · exact opensWhole_refused (by simp) rfl (untouched_refused s _ s.tree [])
    · exact ⟨fun h => absurd h hreach, fun _ h => absurd h hreach⟩
  rw [sppcOpen_reached hreach]
  cases hnode : s.tree.node (w.reached n flags) with
  | none =>
    dsimp only
    split
    · rename_i hcreat
      exact openFile_created hi hreach hnode hcreat
    · rename_i hcreat
      apply iff_of_true
      · exact opensWhole_refused (by simp) rfl (untouched_refused s _ s.tree [])
      · refine ⟨fun _ _ h => absurd h hcreat, fun f _ h => ?_⟩
        rw [hnode] at h
        cases h
  | some f =>
    dsimp only
    split
    · rename_i hexcl
      apply iff_of_true
      · exact opensWhole_refused (by simp) rfl (untouched_refused s _ s.tree [])
      · refine ⟨fun _ h => ?_, fun f' _ _ hno => absurd hexcl hno⟩
        rw [hnode] at h
        cases h
    · rename_i hexcl
      exact openFile_found hi hreach hnode hexcl

/-- Every call of an open takes effect that can, and there is memory. -/
def openGoes : OpenWorld := ⟨none, goes, id, goes, .object 3, true, true, goes, true, true, true⟩

/-- No file, and no descriptor. -/
def openNothing : OpenState :=
  ⟨⟨[], fun _ => ⟨false, false, false, []⟩⟩, Files.init (fun _ => .null) fun _ => true,
    fun _ => ⟨false, false, false, false⟩⟩

/-- A new file, opened for reading and writing. -/
theorem sppcOpen_whole_created :
    OpensWhole openNothing ["new"] (SPPC_O_RDWR ||| SPPC_O_CREAT) 0o600
      (sppcOpen openGoes openNothing ["new"] (SPPC_O_RDWR ||| SPPC_O_CREAT) 0o600) := by
  apply (sppcOpen_whole openGoes openNothing ["new"] (SPPC_O_RDWR ||| SPPC_O_CREAT) 0o600 0
    (Files.Settled.init (fun _ => .null) fun _ => true).inv).2
  have hinstalls : Installs openGoes openNothing :=
    ⟨rfl, rfl, 0, by decide, rfl, fun x hx => absurd hx (Nat.not_lt_zero x), Or.inr rfl⟩
  exact ⟨fun _ _ _ => ⟨by decide, by decide, hinstalls⟩, fun _ _ _ _ _ _ _ _ _ _ => hinstalls⟩

/-- A directory asked for that does not exist is made as a file, and the open fails. -/
theorem sppcOpen_whole_leftover :
    (sppcOpen openGoes openNothing ["new"] (SPPC_O_CREAT ||| SPPC_O_DIRECTORY) 0o600).err = some .ENOTDIR ∧
      (sppcOpen openGoes openNothing ["new"] (SPPC_O_CREAT ||| SPPC_O_DIRECTORY) 0o600).state.tree.node ["new"] =
        some ⟨false, false, false, []⟩ ∧
      ¬OpensWhole openNothing ["new"] (SPPC_O_CREAT ||| SPPC_O_DIRECTORY) 0o600
        (sppcOpen openGoes openNothing ["new"] (SPPC_O_CREAT ||| SPPC_O_DIRECTORY) 0o600) := by
  have hrun : sppcOpen openGoes openNothing ["new"] (SPPC_O_CREAT ||| SPPC_O_DIRECTORY) 0o600 =
      ⟨some .ENOTDIR, -1, { openNothing with tree := openNothing.tree.create ["new"] (newFile 0o600) }, [.object 3],
        [.object 3]⟩ := by rfl
  rw [hrun]
  refine ⟨rfl, by rfl, ?_⟩
  apply not_opensWhole
  · simp
  · exact openNothing.tree.create_ne ["new"] (newFile 0o600)

end Sppc.Windows
