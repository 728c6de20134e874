import Sppc.Windows.PathErrno
import Sppc.Windows.WideText

/-!
# Symbolic links (`platform/windows.h`)

`sppc_symlink`, and `sppc_readlink`, which gives back what a link was made with.  What is `none` here reads outside of
a buffer.
-/

namespace Sppc.Windows

def ERROR_INVALID_PARAMETER : Nat := 87
def ERROR_NOT_A_REPARSE_POINT : Nat := 4390
def IO_REPARSE_TAG_SYMLINK : Nat := 0xA000000C

/-- `_sppc_win_reparse`, with the bytes from `names` on, as far as Windows wrote them. -/
structure Reparse where
  tag : Nat
  substituteOffset : Nat
  substituteLength : Nat
  printOffset : Nat
  printLength : Nat
  names : List UInt8
  deriving DecidableEq, Repr

/-- `n` wide characters, from `offset` bytes on. -/
def unitsAt (names : List UInt8) (offset n : Nat) : Option (List UInt16) :=
  (List.range n).mapM fun k => do
    let lo ← names[offset + 2 * k]?
    let hi ← names[offset + 2 * k + 1]?
    some (UInt16.ofNat (lo.toNat + 256 * hi.toNat))

/-- `L"\\??\\"`. -/
def ntPrefix : List UInt16 := [92, 63, 63, 92]

/-- `_sppc_win_link_target`, by what `DeviceIoControl` gives. -/
def sppcWinLinkTarget (control : Except WinError Reparse) (dataMemory targetMemory : Bool) :
    Option (Except Nat (List UInt16)) :=
  if !dataMemory then some (.error SPPC_ENOMEM)
  else
    match control with
    | .error win => some (.error (if win.code = ERROR_NOT_A_REPARSE_POINT then
      SPPC_EINVAL else sppcErrnoWin32 win.code))
    | .ok data =>
      if data.tag ≠ IO_REPARSE_TAG_SYMLINK then some (.error SPPC_EINVAL)
      else do
        let offset := if data.printLength = 0 then data.substituteOffset else data.printOffset
        let length := if data.printLength = 0 then data.substituteLength else data.printLength
        let name ← unitsAt data.names offset (length / 2)
        if !targetMemory then some (.error SPPC_ENOMEM)
        else some (.ok (if name.take 4 = ntPrefix then name.drop 4 else name))

/-- What Windows keeps of a symbolic link. -/
structure Link where
  target : List UInt16
  directory : Bool
  deriving DecidableEq, Repr

/-- The attributes of every path, and the symbolic links. -/
structure Disk where
  attributes : List UInt16 → UInt32
  links : List UInt16 → Option Link

/-- `CreateSymbolicLinkW`, where it succeeds. -/
def Disk.make (disk : Disk) (path : List UInt16) (link : Link) : Disk :=
  { disk with links := Function.update disk.links path (some link) }

/-- What `sppc_readlink` finds: whether there is memory for the path, for the path of an error, for the reparse point
and for the target, whether the path can be opened, and what it has for a reparse point where it is
no symbolic link. -/
structure ReadlinkAnswers where
  pathMemory : Bool
  errnoMemory : Bool
  dataMemory : Bool
  targetMemory : Bool
  openFails : Option WinError
  other : Except WinError Reparse

/-- `_sppc_win_path_errno` of a string. -/
def Disk.pathErrno (disk : Disk) (malloc : Bool) (path : List UInt16) (win : WinError) : Option Nat :=
  (sppcWinPathErrno disk.attributes malloc (path ++ [0]) win.code (path.length + 1)).map PathReturn.errno

/-- `sppc_readlink`, where `layout` is the reparse point of a link: the error, and what the buffer holds then. -/
def sppcReadlink (layout : List UInt16 → Reparse) (disk : Disk) (path : CString) (buffer : List UInt8)
    (ans : ReadlinkAnswers) : Option (Nat × List UInt8) :=
  if buffer = [] then some (SPPC_ERANGE, buffer)
  else
    match sppcWinWpath path ans.pathMemory with
    | .error bad => some (bad, buffer)
    | .ok w =>
      match ans.openFails with
      | some win => (disk.pathErrno ans.errnoMemory w.units win).map fun err => (err, buffer)
      | none => do
        let control := ((disk.links w.units).map fun link => .ok (layout link.target)).getD ans.other
        match ← sppcWinLinkTarget control ans.dataMemory ans.targetMemory with
        | .error err => some (err, buffer)
        | .ok target =>
          let text := wideCharToMultiByte (target.takeWhile (· ≠ 0))
          if buffer.length < text.length + 1 then some (SPPC_ERANGE, buffer.set 0 0)
            else some (0, putString buffer text)

/-- What `sppc_symlink` finds: whether there is memory for the target, for the path, for the two joined and for the
path of an error, and whether Windows makes the link with the flag, and without it. -/
structure SymlinkAnswers where
  targetMemory : Bool
  linkMemory : Bool
  joinMemory : Bool
  errnoMemory : Bool
  withFlag : Option WinError
  without : Option WinError

/-- Whether a string, with its end, is an absolute path. -/
def isAbsolute (w : List UInt16) : Option Bool := do
  let c ← w[0]?
  if sppcWinIsSep c then some true else if c = 0 then some false else w[1]?.map (· = colon)

/-- The attributes of a link's target, from where the link will be. -/
def Disk.targetAttributes (disk : Disk) (target link : List UInt16) (malloc : Bool) : Option UInt32 := do
  if ← isAbsolute (target ++ [0]) then some (disk.attributes target)
  else
    let dirLen ← peelWhile (link ++ [0]) (fun c => !sppcWinIsSep c) link.length
    some (if malloc then disk.attributes (link.take dirLen ++ target) else INVALID_FILE_ATTRIBUTES)

/-- The loop that leaves only Windows' own separators. -/
def ownSeparators (w : List UInt16) : List UInt16 := w.map fun c => if c = slash then backslash else c

/-- Whether the target of a link with these attributes is a directory. -/
def showsDirectory (attrs : UInt32) : Bool := attrs ≠ INVALID_FILE_ATTRIBUTES ∧ attrs &&& FILE_ATTRIBUTE_DIRECTORY ≠ 0

/-- `sppc_symlink`. -/
def sppcSymlink (disk : Disk) (target linkpath : CString) (ans : SymlinkAnswers) : Option (Nat × Disk) :=
  match sppcWinWpath target ans.targetMemory with
  | .error err => some (err, disk)
  | .ok source =>
    match sppcWinWpath linkpath ans.linkMemory with
    | .error err => some (err, disk)
    | .ok dest => do
      let source := ownSeparators source.units
      let attrs ← disk.targetAttributes source dest.units ans.joinMemory
      let link : Link := ⟨source, showsDirectory attrs⟩
      match ans.withFlag with
      | none => some (0, disk.make dest.units link)
      | some win =>
        if win.code = ERROR_INVALID_PARAMETER then
          match ans.without with
          | none => some (0, disk.make dest.units link)
          | some win => (disk.pathErrno ans.errnoMemory dest.units win).map fun err => (err, disk)
        else (disk.pathErrno ans.errnoMemory dest.units win).map fun err => (err, disk)

/-! ### What a link shows -/

/-- The reparse point of a symbolic link has the target for the name to show. -/
structure Reparse.Shows (data : Reparse) (target : List UInt16) : Prop where
  tag : data.tag = IO_REPARSE_TAG_SYMLINK
  printLength : data.printLength = 2 * target.length
  print : unitsAt data.names data.printOffset target.length = some target

def ownSeparator (c : Char) : Char := if c = '/' then '\\' else c

/-- What a link made with some characters shows. -/
def shown (ts : List Char) : List Char :=
  if (ts.map ownSeparator).take 4 = ['\\', '?', '?', '\\'] then (ts.map ownSeparator).drop 4 else ts.map ownSeparator

/-- Where the target of a link is: at the path itself if it is absolute, or else from the directory of the link. -/
def targetPath (target link : List UInt16) : List UInt16 :=
  if (∃ c ∈ target.head?, sppcWinIsSep c) ∨ target[1]? = some colon then target
  else link.rdropWhile (fun c => !sppcWinIsSep c) ++ target

section links

variable {disk : Disk} {w link : List UInt16} {cs ts : List Char} {u : UInt16}

private theorem wide_cons (c : Char) (cs : List Char) : wide (c :: cs) = Utf16.encode c ++ wide cs :=
  List.flatMap_cons

/-- A wide character that is not of a pair is a character. -/
private theorem wide_eq_cons (h : wide cs = u :: w) (hu : u.toNat < 0xD800) :
    ∃ rest, cs = Char.ofNat u.toNat :: rest ∧ wide rest = w := by
  cases cs with
  | nil => cases h
  | cons c cs =>
    have hvalid : c.toNat < 0xD800 ∨ 0xDFFF < c.toNat ∧ c.toNat < 0x110000 := c.valid
    rw [wide_cons, Utf16.encode] at h
    by_cases hsmall : c.toNat < 0x10000
    · rw [if_pos hsmall, List.singleton_append, List.cons.injEq] at h
      obtain ⟨rfl, hrest⟩ := h
      refine ⟨cs, ?_, hrest⟩
      rw [UInt16.toNat_ofNat_of_lt' hsmall, Char.ofNat_toNat]
    · rw [if_neg hsmall, List.cons_append, List.cons.injEq] at h
      rw [← h.1, UInt16.toNat_ofNat_of_lt' (show _ < 65536 by omega)] at hu
      omega

private theorem ownSeparators_encode (c : Char) : ownSeparators (Utf16.encode c) = Utf16.encode (ownSeparator c) := by
  have hvalid : c.toNat < 0xD800 ∨ 0xDFFF < c.toNat ∧ c.toNat < 0x110000 := c.valid
  by_cases hslash : c = '/'
  · subst hslash
    decide +kernel
  · have hnat : c.toNat ≠ 47 := by
      intro hnat
      apply hslash
      rw [← Char.ofNat_toNat c, hnat]
    rw [ownSeparator, if_neg hslash]
    have hne {n : Nat} (hn : n < 65536) (h : n ≠ 47) : UInt16.ofNat n ≠ slash := by
      intro heq
      have hnat := congrArg UInt16.toNat heq
      rw [UInt16.toNat_ofNat_of_lt' hn] at hnat
      exact h hnat
    unfold Utf16.encode ownSeparators
    split
    · rw [List.map_singleton, if_neg (hne (by omega) hnat)]
    · rw [List.map_cons, List.map_singleton, if_neg (hne (by omega) (by omega)), if_neg (hne (by omega) (by omega))]

private theorem ownSeparators_wide (cs : List Char) : ownSeparators (wide cs) = wide (cs.map ownSeparator) := by
  induction cs with
  | nil => rfl
  | cons c cs ih =>
    rw [List.map_cons, wide_cons, wide_cons, ← ownSeparators_encode, ← ih, ownSeparators, List.map_append]
    rfl

private theorem ownSeparators_noEnd (h : 0 ∉ w) : 0 ∉ ownSeparators w := by
  intro hmem
  obtain ⟨c, hc, hzero⟩ := List.mem_map.1 hmem
  split at hzero
  · exact absurd hzero (by decide)
  · exact h (hzero ▸ hc)

/-- The prefix is taken off characters. -/
private theorem wide_stripped (cs : List Char) :
    (if (wide cs).take 4 = ntPrefix then (wide cs).drop 4 else wide cs) =
      wide (if cs.take 4 = ['\\', '?', '?', '\\'] then cs.drop 4 else cs) := by
  by_cases hprefix : (wide cs).take 4 = ntPrefix
  · have hsplit : wide cs = 92 :: 63 :: 63 :: 92 :: (wide cs).drop 4 := by
      rw [← List.take_append_drop 4 (wide cs), hprefix]
      simp [ntPrefix]
    obtain ⟨cs₁, rfl, h₁⟩ := wide_eq_cons hsplit (by decide)
    obtain ⟨cs₂, rfl, h₂⟩ := wide_eq_cons h₁ (by decide)
    obtain ⟨cs₃, rfl, h₃⟩ := wide_eq_cons h₂ (by decide)
    obtain ⟨cs₄, rfl, h₄⟩ := wide_eq_cons h₃ (by decide)
    refine (if_pos hprefix).trans (h₄.symm.trans (congrArg wide ?_))
    exact (if_pos rfl).symm
  · have hchars : cs.take 4 ≠ ['\\', '?', '?', '\\'] := by
      intro h
      apply hprefix
      rw [← List.take_append_drop 4 cs, h]
      rfl
    rw [if_neg hprefix, if_neg hchars]

private theorem isAbsolute_spec (hw : w ≠ []) (hend : 0 ∉ w) :
    isAbsolute (w ++ [0]) = some (decide ((∃ c ∈ w.head?, sppcWinIsSep c) ∨ w[1]? = some colon)) := by
  cases w with
  | nil => exact absurd rfl hw
  | cons c w =>
    have hc : c ≠ 0 := fun h => hend (h ▸ List.mem_cons_self)
    rw [isAbsolute, List.cons_append, List.getElem?_cons_zero, Option.bind_eq_bind, Option.bind_some]
    by_cases hsep : sppcWinIsSep c
    · simp [hsep]
    · cases w with
      | nil => simp [hsep, hc, colon]
      | cons d w => simp [hsep, hc]

private theorem targetAttributes_spec (disk : Disk) (link : List UInt16) (hw : w ≠ []) (hend : 0 ∉ w)
    (malloc : Bool) : ∃ attrs, disk.targetAttributes w link malloc = some attrs ∧
    (malloc = true → attrs = disk.attributes (targetPath w link)) := by
  unfold Disk.targetAttributes targetPath
  rw [isAbsolute_spec hw hend, Option.bind_eq_bind, Option.bind_some]
  by_cases habs : (∃ c ∈ w.head?, sppcWinIsSep c) ∨ w[1]? = some colon
  · rw [if_pos (decide_eq_true habs), if_pos habs]
    exact ⟨_, rfl, fun _ => rfl⟩
  · have hprefix : link <+: link ++ [0] := List.prefix_append _ _
    rw [if_neg (by simpa using habs), if_neg habs, peelWhile_eq hprefix, Option.bind_eq_bind, Option.bind_some]
    refine ⟨_, rfl, fun hmalloc => ?_⟩
    rw [if_pos hmalloc, ← List.prefix_iff_eq_take.1 (peeled_le _ link)]

/-- The error of a path that a call failed for. -/
private theorem pathErrno_ne_zero (disk : Disk) (malloc : Bool) {path : List UInt16} (hpath : 0 ∉ path)
    (win : WinError) : ∃ err, disk.pathErrno malloc path win = some err ∧ err ≠ 0 := by
  unfold Disk.pathErrno sppcWinPathErrno
  by_cases herr : sppcErrnoWin32 win.code = SPPC_ENOENT
  · rw [herr, if_neg (not_not_intro rfl), wcslen_append hpath, Option.bind_eq_bind, Option.bind_some]
    cases malloc with
    | false => exact ⟨_, rfl, (by decide : SPPC_ENOENT ≠ 0)⟩
    | true =>
      have hcopy : (path ++ [0]).take (path.length + 1) = path ++ [0] := List.take_of_length_le (by simp)
      have hloop : ∃ r, pathErrnoFrom disk.attributes SPPC_ENOENT (path.length + 1) ⟨path ++ [0],
          path ++ [0]⟩ path.length = some r ∧ _ :=
        pathErrnoFrom_spec (List.prefix_append path [0]) (by simp) hpath (Nat.lt_succ_self _)
      obtain ⟨r, hr, -, hfile, hnot⟩ := hloop
      simp only [hcopy]
      rw [hr]
      refine ⟨r.errno, rfl, ?_⟩
      by_cases hn : NearestIsFile disk.attributes path
      · rw [hfile hn]
        decide
      · rw [hnot hn]
        decide
  · rw [if_pos herr]
    exact ⟨_, rfl, sppcErrnoWin32_ne_zero win⟩

private theorem sppcWinWpath_cases (path : CString) (malloc : Bool) :
    (∃ err, sppcWinWpath path malloc = .error err ∧ err ≠ 0) ∨
      ∃ cs w, path.chars = Utf8.encode cs ∧ cs ≠ [] ∧ path.chars ≠ [] ∧ w.units = wide cs ∧ w.units ≠ [] ∧
      sppcWinWpath path malloc = .ok w := by
  unfold sppcWinWpath
  by_cases hempty : path.chars = []
  · rw [if_pos hempty]
    exact .inl ⟨_, rfl, by decide⟩
  rw [if_neg hempty]
  by_cases hchars : ∃ cs, path.chars = Utf8.encode cs
  · obtain ⟨cs, hcs⟩ := hchars
    obtain ⟨w, hw, hunits⟩ := multiByteToWideChar_eq hcs
    rw [hw]
    cases malloc with
    | false => exact .inl ⟨_, rfl, by decide⟩
    | true =>
      refine .inr ⟨cs, w, hcs, fun hnil => hempty ?_, hempty, hunits, fun hnil => hempty ?_, rfl⟩
      · rw [hcs, hnil]
        rfl
      · rw [hcs, ← wideCharToMultiByte_wide, ← hunits, hnil]
        rfl
  · rw [multiByteToWideChar_eq_none.2 (not_exists.1 hchars)]
    exact .inl ⟨_, rfl, by decide⟩

/-- A link that is made is where it was asked for, to the target with Windows' own separators and of its kind. -/
private theorem sppcSymlink_spec (disk : Disk) (target linkpath : CString) (ans : SymlinkAnswers) :
    ∃ err disk', sppcSymlink disk target linkpath ans = some (err, disk') ∧ (err ≠ 0 → disk' = disk) ∧
      (err = 0 → ∃ ts ls directory, target.chars = Utf8.encode ts ∧ linkpath.chars = Utf8.encode ls ∧ ts ≠ [] ∧
        linkpath.chars ≠ [] ∧ 0 ∉ wide (ts.map ownSeparator) ∧
        disk' = disk.make (wide ls) ⟨wide (ts.map ownSeparator), directory⟩ ∧
        (ans.joinMemory →
          directory = showsDirectory (disk.attributes (targetPath (wide (ts.map ownSeparator)) (wide ls))))) := by
  unfold sppcSymlink
  obtain ⟨err, herr, hne⟩ | ⟨ts, source, hts, htsne, -, hsource, hsne, hok⟩ :=
    sppcWinWpath_cases target ans.targetMemory
  · rw [herr]
    exact ⟨err, disk, rfl, fun _ => rfl, fun h => absurd h hne⟩
  rw [hok]
  obtain ⟨err, herr, hne⟩ | ⟨ls, dest, hls, -, hlsne, hdest, -, hok⟩ := sppcWinWpath_cases linkpath ans.linkMemory
  · rw [herr]
    exact ⟨err, disk, rfl, fun _ => rfl, fun h => absurd h hne⟩
  rw [hok]
  have htarget : ownSeparators source.units = wide (ts.map ownSeparator) := by rw [hsource, ownSeparators_wide]
  have hend : 0 ∉ ownSeparators source.units := ownSeparators_noEnd source.noEnd
  have htne : ownSeparators source.units ≠ [] := by simpa [ownSeparators] using hsne
  obtain ⟨attrs, hattrs, hkind⟩ := targetAttributes_spec disk dest.units htne hend ans.joinMemory
  rw [htarget] at hend hattrs hkind
  dsimp only
  rw [htarget, hattrs, Option.bind_eq_bind, Option.bind_some]
  have hmade : ∃ ts' ls directory, target.chars = Utf8.encode ts' ∧ linkpath.chars = Utf8.encode ls ∧
      ts' ≠ [] ∧ linkpath.chars ≠ [] ∧ 0 ∉ wide (ts'.map ownSeparator) ∧
      disk.make dest.units ⟨wide (ts.map ownSeparator), showsDirectory attrs⟩ =
      disk.make (wide ls) ⟨wide (ts'.map ownSeparator), directory⟩ ∧
      (ans.joinMemory →
        directory = showsDirectory (disk.attributes (targetPath (wide (ts'.map ownSeparator)) (wide ls)))) := by
    refine ⟨ts, ls, _, hts, hls, htsne, hlsne, hend, by rw [hdest], fun hmemory => ?_⟩
    rw [← hdest, ← hkind hmemory]
  have hfail (win : WinError) :
    ∃ err disk', (disk.pathErrno ans.errnoMemory dest.units win).map (fun err => (err, disk)) = some (err, disk') ∧
      err ≠ 0 ∧ disk' = disk := by
    obtain ⟨err, herr, hne⟩ := pathErrno_ne_zero disk ans.errnoMemory dest.noEnd win
    exact ⟨err, disk, by rw [herr]; rfl, hne, rfl⟩
  cases ans.withFlag with
  | none => exact ⟨0, _, rfl, fun h => absurd rfl h, fun _ => hmade⟩
  | some win =>
    dsimp only
    by_cases hflag : win.code = ERROR_INVALID_PARAMETER
    · rw [if_pos hflag]
      cases ans.without with
      | none => exact ⟨0, _, rfl, fun h => absurd rfl h, fun _ => hmade⟩
      | some win =>
        obtain ⟨err, disk', heq, hne, hsame⟩ := hfail win
        exact ⟨err, disk', heq, fun _ => hsame, fun h => absurd h hne⟩
    · rw [if_neg hflag]
      obtain ⟨err, disk', heq, hne, hsame⟩ := hfail win
      exact ⟨err, disk', heq, fun _ => hsame, fun h => absurd h hne⟩

/-- Reading a link that is there gives what it shows, if that fits. -/
private theorem sppcReadlink_spec {layout : List UInt16 → Reparse} {path : CString} {ans : ReadlinkAnswers}
    {ls : List Char} {directory : Bool} (hpath : path.chars = Utf8.encode ls) (hne : path.chars ≠ [])
    (hlink : disk.links (wide ls) = some ⟨wide (ts.map ownSeparator), directory⟩)
    (hend : 0 ∉ wide (ts.map ownSeparator))
    (hshows : (layout (wide (ts.map ownSeparator))).Shows (wide (ts.map ownSeparator))) (hnonempty : ts ≠ [])
    (hmemory : ans.pathMemory ∧ ans.dataMemory ∧ ans.targetMemory) (hopen : ans.openFails = none)
    (buffer : List UInt8) :
    sppcReadlink layout disk path buffer ans = some (if (Utf8.encode (shown ts)).length < buffer.length
      then (0, putString buffer (Utf8.encode (shown ts))) else (SPPC_ERANGE, buffer.set 0 0)) := by
  obtain ⟨hpathMemory, hdata, htarget⟩ := hmemory
  obtain ⟨w, hunits, hw⟩ : ∃ w : WString, w.units = wide ls ∧ sppcWinWpath path ans.pathMemory = .ok w := by
    obtain ⟨w, hw, hunits⟩ := multiByteToWideChar_eq hpath
    exact ⟨w, hunits, by rw [sppcWinWpath, if_neg hne, hw, hpathMemory]; rfl⟩
  have hlength : (wide (ts.map ownSeparator)).length ≠ 0 := by
    intro hzero
    have hnil := congrArg Utf16.decode (List.length_eq_zero_iff.1 hzero)
    rw [wide, Utf16.decode_encode] at hnil
    exact hnonempty (List.map_eq_nil_iff.1 hnil)
  have hcontrol : sppcWinLinkTarget (.ok (layout (wide (ts.map ownSeparator)))) ans.dataMemory ans.targetMemory =
      some (.ok (wide (shown ts))) := by
    obtain ⟨htag, hprint, hname⟩ := hshows
    unfold sppcWinLinkTarget
    rw [hdata, htarget]
    simp only [Bool.not_true, Bool.false_eq_true, if_false]
    rw [htag, if_neg (not_not_intro rfl), hprint, if_neg (by omega), if_neg (by omega),
      Nat.mul_div_cancel_left _ Nat.two_pos, hname]
    rw [Option.bind_eq_bind, Option.bind_some, wide_stripped, shown]
  have hshownEnd : 0 ∉ wide (shown ts) := by
    rw [shown, ← wide_stripped]
    split
    · exact fun h => hend (List.mem_of_mem_drop h)
    · exact hend
  have htext : wideCharToMultiByte ((wide (shown ts)).takeWhile (· ≠ 0)) = Utf8.encode (shown ts) := by
    rw [List.takeWhile_eq_self_iff.2 fun c hc => decide_eq_true (ne_of_mem_of_not_mem hc hshownEnd),
      wideCharToMultiByte_wide]
  unfold sppcReadlink
  by_cases hbuffer : buffer = []
  · subst hbuffer
    rfl
  rw [if_neg hbuffer, hw]
  dsimp only
  rw [hopen]
  dsimp only
  rw [hunits, hlink, Option.map_some, Option.getD_some, hcontrol, Option.bind_eq_bind, Option.bind_some]
  dsimp only
  rw [htext]
  by_cases hfits : (Utf8.encode (shown ts)).length < buffer.length
  · rw [if_pos hfits, if_neg (by omega)]
  · rw [if_neg hfits, if_pos (by omega)]

/-- The calls on symbolic links stay within their buffers; a link that cannot be made leaves the disk, and one that is
made is the only thing new, of the kind that its target has from where it is, and shows the target as it was given,
with Windows' own separators and without the prefix of Windows' own names. -/
theorem symlink_kept (disk : Disk) (target linkpath : CString) (ans : SymlinkAnswers) :
    ∃ err disk', sppcSymlink disk target linkpath ans = some (err, disk') ∧ (err ≠ 0 → disk' = disk) ∧
      (err = 0 → ∃ ts ls directory, target.chars = Utf8.encode ts ∧ linkpath.chars = Utf8.encode ls ∧
        disk' = disk.make (wide ls) ⟨wide (ts.map ownSeparator), directory⟩ ∧
        (ans.joinMemory →
          directory = showsDirectory (disk.attributes (targetPath (wide (ts.map ownSeparator)) (wide ls)))) ∧
        ∀ (layout : List UInt16 → Reparse) (later : Disk) (rd : ReadlinkAnswers) (buffer : List UInt8),
          (layout (wide (ts.map ownSeparator))).Shows (wide (ts.map ownSeparator)) →
          later.links (wide ls) = disk'.links (wide ls) → rd.pathMemory ∧ rd.dataMemory ∧ rd.targetMemory →
          rd.openFails = none →
          sppcReadlink layout later linkpath buffer rd = some (if (Utf8.encode (shown ts)).length < buffer.length
            then (0, putString buffer (Utf8.encode (shown ts))) else (SPPC_ERANGE, buffer.set 0 0))) := by
  obtain ⟨err, disk', hlink, hfailed, hmade⟩ := sppcSymlink_spec disk target linkpath ans
  refine ⟨err, disk', hlink, hfailed, fun herr => ?_⟩
  obtain ⟨ts, ls, directory, hts, hls, htsne, hlsne, hend, hdisk, hkind⟩ := hmade herr
  refine ⟨ts, ls, directory, hts, hls, hdisk, hkind, fun layout later rd buffer hshows hsame hmemory hopen => ?_⟩
  have hthere : later.links (wide ls) = some ⟨wide (ts.map ownSeparator), directory⟩ := by
    rw [hsame, hdisk]
    exact Function.update_self _ _ _
  exact sppcReadlink_spec hls hlsne hthere hend hshows htsne hmemory hopen buffer

end links

/-- The reparse point of a link with one name, which is there twice. -/
def twoNames (target : List UInt16) : Reparse :=
  let name := target.flatMap fun u => [UInt8.ofNat (u.toNat % 256), UInt8.ofNat (u.toNat / 256)]
  ⟨IO_REPARSE_TAG_SYMLINK, 0, 2 * target.length, 2 * target.length, 2 * target.length, name ++ name⟩

/-- A link `l` to `a/b`. -/
example : (twoNames [97, 92, 98]).Shows [97, 92, 98] ∧
    ((sppcSymlink ⟨fun _ => 0, fun _ => none⟩ ⟨[97, 47, 98], by decide⟩ ⟨[108], by decide⟩ ⟨true, true, true, true,
      none, none⟩).bind fun r => sppcReadlink twoNames r.2 ⟨[108], by decide⟩ [1, 1, 1, 1, 1]
        ⟨true, true, true, true, none, .error ⟨ERROR_NOT_A_REPARSE_POINT, by decide⟩⟩) = some (0,
        [97, 92, 98, 0, 1]) :=
  ⟨⟨rfl, rfl, by decide +kernel⟩, by decide +kernel⟩

end Sppc.Windows
