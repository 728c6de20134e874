import Mathlib.Data.List.DropRight
import Mathlib.Logic.Function.Iterate
import Sppc.Occurrences
import Sppc.Windows.Errors

/-!
# The errors of paths (`platform/windows.h`)

`_sppc_win_path_errno`, which tells a path that goes through a file from one that is missing.  What is `none` here has
an index outside of the path or its copy, or does not end.
-/

namespace Sppc.Windows

def INVALID_FILE_ATTRIBUTES : UInt32 := 0xFFFFFFFF
def FILE_ATTRIBUTE_DIRECTORY : UInt32 := 0x10

/-- `L'\\\\'`. -/
def backslash : UInt16 := 92

/-- `L'/'`. -/
def slash : UInt16 := 47

/-- `L':'`. -/
def colon : UInt16 := 58

/-- `_sppc_win_is_sep`. -/
def sppcWinIsSep (c : UInt16) : Bool := c = backslash ∨ c = slash

/-! ### Ancestors -/

/-- What is left of a path without its last component and the separators around it. -/
def parent (s : List UInt16) : List UInt16 :=
  ((s.rdropWhile sppcWinIsSep).rdropWhile fun c => !sppcWinIsSep c).rdropWhile sppcWinIsSep

/-- Nothing, or a bare drive. -/
def IsRoot (s : List UInt16) : Prop := s = [] ∨ s.length = 2 ∧ s[1]? = some colon

instance (s : List UInt16) : Decidable (IsRoot s) := inferInstanceAs (Decidable (_ ∨ _))

/-- Whether there is something with these attributes that is not a directory. -/
def IsFile (attrs : UInt32) : Prop := attrs ≠ INVALID_FILE_ATTRIBUTES ∧ attrs &&& FILE_ATTRIBUTE_DIRECTORY = 0

/-- The nearest ancestor of the path that exists is not a directory. -/
def NearestIsFile (attributes : List UInt16 → UInt32) (path : List UInt16) : Prop :=
  ∃ n, (∀ m, m ≤ n → ¬IsRoot (parent^[m + 1] path)) ∧
    (∀ m, m < n → attributes (parent^[m + 1] path) = INVALID_FILE_ATTRIBUTES) ∧
    IsFile (attributes (parent^[n + 1] path))

/-! ### `_sppc_win_path_errno` -/

/-- `wcslen`. -/
def wcslen (p : List UInt16) : Option Nat := p.findIdx? (· = 0)

/-- The string at the start of a buffer. -/
def wstring (p : List UInt16) : Option (List UInt16) := (wcslen p).map p.take

/-- A loop `while (len > 0 && f(p[len - 1])) { --len; }`. -/
def peelWhile (p : List UInt16) (f : UInt16 → Bool) : Nat → Option Nat
  | 0 => some 0
  | len + 1 =>
    match p[len]? with
    | none => none
    | some c => if f c then peelWhile p f len else some (len + 1)

/-- `len == 2 && p[1] == L':'`. -/
def bareDrive (p : List UInt16) (len : Nat) : Option Bool := if len = 2 then p[1]?.map (· = colon) else some false

/-- The buffers of the path and of its copy, which is empty while there is none. -/
structure PathMemory where
  path : List UInt16
  copy : List UInt16
  deriving DecidableEq

structure PathReturn where
  errno : Nat
  memory : PathMemory
  deriving DecidableEq

/-- `p[len] = L'\\0'`. -/
def PathMemory.endAt (m : PathMemory) (len : Nat) : Option PathMemory :=
  if len < m.copy.length then some { m with copy := m.copy.set len 0 } else none

/-- The outer loop, with the attributes `GetFileAttributesW` gives for a name. -/
def pathErrnoFrom (attributes : List UInt16 → UInt32) (e : Nat) : Nat → PathMemory → Nat → Option PathReturn
  | 0, _, _ => none
  | fuel + 1, m, len => do
    let len ← peelWhile m.copy sppcWinIsSep len
    let len ← peelWhile m.copy (fun c => !sppcWinIsSep c) len
    let len ← peelWhile m.copy sppcWinIsSep len
    if len = 0 then return ⟨e, m⟩
    if ← bareDrive m.copy len then return ⟨e, m⟩
    let m ← m.endAt len
    let attrs := attributes (← wstring m.copy)
    if attrs ≠ INVALID_FILE_ATTRIBUTES then
      return ⟨if attrs &&& FILE_ATTRIBUTE_DIRECTORY = 0 then SPPC_ENOTDIR else e, m⟩
    pathErrnoFrom attributes e fuel m len

/-- `_sppc_win_path_errno`. -/
def sppcWinPathErrno (attributes : List UInt16 → UInt32) (malloc : Bool) (path : List UInt16) (err fuel : Nat) :
    Option PathReturn := do
  let e := sppcErrnoWin32 err
  let m : PathMemory := ⟨path, []⟩
  if e ≠ SPPC_ENOENT then return ⟨e, m⟩
  let len ← wcslen m.path
  if !malloc then return ⟨e, m⟩
  let r ← pathErrnoFrom attributes e fuel { m with copy := m.path.take (len + 1) } len
  return ⟨r.errno, { r.memory with copy := [] }⟩

section path

variable {attributes : List UInt16 → UInt32} {s rest p : List UInt16} {f : UInt16 → Bool} {m : PathMemory}
  {e fuel : Nat}

/-- The next ancestor decides, or those beyond it do. -/
private theorem nearestIsFile_iff :
    NearestIsFile attributes s ↔ ¬IsRoot (parent s) ∧
      (IsFile (attributes (parent s)) ∨
        attributes (parent s) = INVALID_FILE_ATTRIBUTES ∧ NearestIsFile attributes (parent s)) := by
  constructor
  · rintro ⟨n, hroot, habsent, hfile⟩
    refine ⟨hroot 0 (Nat.zero_le n), ?_⟩
    cases n with
    | zero => exact .inl hfile
    | succ n =>
      refine .inr ⟨habsent 0 (Nat.succ_pos n), n, fun m hm => ?_, fun m hm => ?_, ?_⟩
      · exact hroot (m + 1) (Nat.succ_le_succ hm)
      · exact habsent (m + 1) (Nat.succ_lt_succ hm)
      · exact hfile
  · rintro ⟨hroot, hfile | ⟨habsent, n, hroots, habsents, hfile⟩⟩
    · refine ⟨0, fun m hm => ?_, fun m hm => absurd hm (Nat.not_lt_zero m), hfile⟩
      rw [Nat.le_zero.1 hm]
      exact hroot
    · refine ⟨n + 1, fun m hm => ?_, fun m hm => ?_, hfile⟩
      · cases m with
        | zero => exact hroot
        | succ m => exact hroots m (Nat.le_of_succ_le_succ hm)
      · cases m with
        | zero => exact habsent
        | succ m => exact habsents m (Nat.lt_of_succ_lt_succ hm)

theorem peeled_le (f : UInt16 → Bool) (s : List UInt16) : s.rdropWhile f <+: s := List.rdropWhile_prefix f s

/-- With each component its end goes. -/
private theorem parent_append (s : List UInt16) (c : UInt16) : parent (s ++ [c]) <+: s := by
  unfold parent
  by_cases hc : sppcWinIsSep c
  · rw [List.rdropWhile_concat_pos _ _ _ hc]
    exact (peeled_le _ _).trans ((peeled_le _ _).trans (peeled_le _ _))
  · rw [List.rdropWhile_concat_neg _ _ _ hc, List.rdropWhile_concat_pos _ _ _ (by simpa using hc)]
    exact (peeled_le _ _).trans (peeled_le _ _)

private theorem parent_le (s : List UInt16) : parent s <+: s := by
  rcases List.eq_nil_or_concat' s with rfl | ⟨s, c, rfl⟩
  · exact List.prefix_refl []
  · exact (parent_append s c).trans ( List.prefix_append s [c])

private theorem parent_length (h : parent s ≠ []) : (parent s).length < s.length := by
  rcases List.eq_nil_or_concat' s with rfl | ⟨s, c, rfl⟩
  · exact absurd rfl h
  · have hle := (parent_append s c).length_le
    rw [List.length_append, List.length_singleton]
    omega

/-- A loop over the end of what is left of the path. -/
theorem peelWhile_eq (h : s <+: p) : peelWhile p f s.length = some (s.rdropWhile f).length := by
  induction s using List.reverseRecOn with
  | nil => rfl
  | append_singleton s c ih =>
    have hc : p[s.length]? = some c := by
      obtain ⟨rest, rfl⟩ := h
      simp
    rw [List.length_append, List.length_singleton, peelWhile, hc, List.rdropWhile_concat]
    dsimp only
    split
    · exact ih (( List.prefix_append s [c]).trans h)
    · rw [List.length_append, List.length_singleton]

private theorem peelWhile_parent (h : s <+: p) :
    peelWhile p sppcWinIsSep ((s.rdropWhile sppcWinIsSep).rdropWhile fun c => !sppcWinIsSep c).length =
      some (parent s).length :=
  peelWhile_eq ((peeled_le _ _).trans ((peeled_le _ _).trans h))

theorem wcslen_append (hs : 0 ∉ s) : wcslen (s ++ 0 :: rest) = some s.length := Occurrences.findIdx?_end hs

/-- Where the path is cut, its copy is what is left of it. -/
private theorem endAt_spec (h : s <+: m.copy) (hlt : s.length < m.copy.length) (hs : 0 ∉ s) :
    ∃ m', m.endAt s.length = some m' ∧ m'.path = m.path ∧ m'.copy.length = m.copy.length ∧ s <+: m'.copy ∧
      wstring m'.copy = some s := by
  obtain ⟨rest, hrest⟩ := h
  cases rest with
  | nil => rw [← hrest, List.append_nil] at hlt; omega
  | cons c rest =>
    have hset : m.copy.set s.length 0 = s ++ 0 :: rest := by
      rw [← hrest, List.set_append_right _ _ (Nat.le_refl _), Nat.sub_self]
      rfl
    refine ⟨{ m with copy := s ++ 0 :: rest }, ?_, rfl, ?_, List.prefix_append _ _, ?_⟩
    · rw [PathMemory.endAt, if_pos hlt, hset]
    · rw [← hset, List.length_set]
    · rw [wstring, wcslen_append hs, Option.map_some, List.take_left]

private theorem bareDrive_spec (h : s <+: p) (hs : s ≠ []) : bareDrive p s.length = some (decide (IsRoot s)) := by
  unfold bareDrive IsRoot
  split
  · rename_i hlen
    obtain ⟨a, b, rfl⟩ := List.length_eq_two.1 hlen
    obtain ⟨rest, rfl⟩ := h
    simp
  · rename_i hlen
    simp [hs, hlen]

/-- From what is left of the path on, the loop ends at the nearest ancestor that exists. -/
theorem pathErrnoFrom_spec (h : s <+: m.copy) (hlt : s.length < m.copy.length) (hs : 0 ∉ s)
    (hfuel : s.length < fuel) :
    ∃ r, pathErrnoFrom attributes e fuel m s.length = some r ∧ r.memory.path = m.path ∧
      (NearestIsFile attributes s → r.errno = SPPC_ENOTDIR) ∧ (¬NearestIsFile attributes s → r.errno = e) := by
  induction fuel generalizing m s with
  | zero => omega
  | succ fuel ih =>
    have hparent := (parent_le s).trans h
    rw [pathErrnoFrom, peelWhile_eq h, Option.bind_eq_bind, Option.bind_some,
      peelWhile_eq ((peeled_le _ _).trans h), Option.bind_eq_bind, Option.bind_some, peelWhile_parent h,
      Option.bind_eq_bind, Option.bind_some]
    rw [nearestIsFile_iff]
    by_cases hnil : parent s = []
    · have hroot : IsRoot (parent s) := .inl hnil
      rw [if_pos (List.length_eq_zero_iff.2 hnil)]
      exact ⟨⟨e, m⟩, rfl, rfl, fun hn => absurd hroot hn.1, fun _ => rfl⟩
    · rw [if_neg (mt List.length_eq_zero_iff.1 hnil), bareDrive_spec hparent hnil, Option.bind_eq_bind,
        Option.bind_some]
      by_cases hroot : IsRoot (parent s)
      · rw [if_pos (decide_eq_true hroot)]
        exact ⟨⟨e, m⟩, rfl, rfl, fun hn => absurd hroot hn.1, fun _ => rfl⟩
      · have hshort := parent_length hnil
        have hparent0 : 0 ∉ parent s := fun h0 => hs ((parent_le s).subset h0)
        obtain ⟨m', hend, hpath, hlength, hcopy, hname⟩ := endAt_spec hparent (hshort.trans hlt) hparent0
        rw [if_neg (by simpa using hroot), hend, Option.bind_some, hname, Option.bind_some]
        by_cases hattrs : attributes (parent s) = INVALID_FILE_ATTRIBUTES
        · -- nothing is there: the next ancestor is looked at
          obtain ⟨r, hr, hrpath, hfile, hnot⟩ := ih hcopy (by omega) hparent0 (by omega)
          have hiff : ¬IsRoot (parent s) ∧ (IsFile (attributes (parent s)) ∨
              attributes (parent s) = INVALID_FILE_ATTRIBUTES ∧ NearestIsFile attributes (parent s)) ↔
              NearestIsFile attributes (parent s) := by
            simp [hroot, IsFile, hattrs]
          rw [hiff]
          refine ⟨r, ?_, hrpath.trans hpath, hfile, hnot⟩
          rw [← hr]
          exact if_neg (not_not_intro hattrs)
        · -- what is there decides
          have hiff : ¬IsRoot (parent s) ∧ (IsFile (attributes (parent s)) ∨
              attributes (parent s) = INVALID_FILE_ATTRIBUTES ∧ NearestIsFile attributes (parent s)) ↔
              attributes (parent s) &&& FILE_ATTRIBUTE_DIRECTORY = 0 := by
            simp [hroot, IsFile, hattrs]
          rw [hiff]
          refine ⟨_, if_pos hattrs, hpath, fun hfile => if_pos hfile, fun hnot => if_neg hnot⟩

/-- `_sppc_win_path_errno` ends, within the path and its copy, and says whether a file is in the way. -/
theorem sppcWinPathErrno_spec (attributes : List UInt16 → UInt32) (malloc : Bool) (path : List UInt16)
    (err fuel : Nat) (hpath : 0 ∉ path) (herr : sppcErrnoWin32 err = SPPC_ENOENT) (hfuel : path.length < fuel) :
    ∃ r, sppcWinPathErrno attributes malloc (path ++ [0]) err fuel = some r ∧ r.memory = ⟨path ++ [0], []⟩ ∧
      (r.errno = SPPC_ENOTDIR ↔ malloc = true ∧ NearestIsFile attributes path) ∧
      (r.errno ≠ SPPC_ENOTDIR → r.errno = SPPC_ENOENT) := by
  unfold sppcWinPathErrno
  rw [herr, if_neg (not_not_intro rfl), wcslen_append hpath, Option.bind_eq_bind, Option.bind_some]
  cases malloc with
  | false => exact ⟨_, rfl, rfl, by simp [SPPC_ENOENT, SPPC_ENOTDIR], fun _ => rfl⟩
  | true =>
    have hcopy : (path ++ [0]).take (path.length + 1) = path ++ [0] := List.take_of_length_le (by simp)
    have hloop : ∃ r, pathErrnoFrom attributes SPPC_ENOENT fuel ⟨path ++ [0], path ++ [0]⟩ path.length = some r ∧ _ :=
      pathErrnoFrom_spec ( List.prefix_append path [0]) (by simp) hpath hfuel
    obtain ⟨r, hr, hrpath, hfile, hnot⟩ := hloop
    simp only [hcopy]
    rw [hr]
    refine ⟨⟨r.errno, { r.memory with copy := [] }⟩, rfl, ?_, ⟨fun hr => ⟨trivial, ?_⟩, fun hn => hfile hn.2⟩,
      fun hr => ?_⟩
    · exact congrArg (PathMemory.mk · []) hrpath
    · by_contra hn
      rw [hnot hn] at hr
      exact absurd hr (by decide)
    · by_contra hne
      exact hne (hnot (mt hfile hr))

end path

/-- A file `a` and nothing else. -/
def onlyFile (s : List UInt16) : UInt32 := if s = [97] then 0x20 else INVALID_FILE_ATTRIBUTES

/-- `a` is the nearest ancestor of `a\b\\c` that exists. -/
private theorem nearestIsFile_onlyFile : NearestIsFile onlyFile [97, 92, 98, 92, 92, 99] := by
  refine ⟨1, ?_, ?_, ?_⟩
  · decide
  · decide
  · exact ⟨by decide, by decide⟩

theorem sppcWinPathErrno_spec_onlyFile :
    ∃ r, sppcWinPathErrno onlyFile true ([97, 92, 98, 92, 92, 99] ++ [0]) 3 7 = some r ∧
      r.memory = ⟨[97, 92, 98, 92, 92, 99] ++ [0], []⟩ ∧
      (r.errno = SPPC_ENOTDIR ↔ true = true ∧ NearestIsFile onlyFile [97, 92, 98, 92, 92, 99]) ∧
      (r.errno ≠ SPPC_ENOTDIR → r.errno = SPPC_ENOENT) :=
  sppcWinPathErrno_spec onlyFile true [97, 92, 98, 92, 92, 99] 3 7 (by decide) (by decide) (by decide)

/-- Without memory for the copy nothing is looked at, and a file in the way is not told apart. -/
theorem sppcWinPathErrno_noMemory :
    ¬∀ (attributes : List UInt16 → UInt32) (malloc : Bool) (path : List UInt16) (err fuel : Nat), 0 ∉ path →
      sppcErrnoWin32 err = SPPC_ENOENT → path.length < fuel →
      ∃ r, sppcWinPathErrno attributes malloc (path ++ [0]) err fuel = some r ∧
        (r.errno = SPPC_ENOTDIR ↔ NearestIsFile attributes path) := by
  intro h
  obtain ⟨r, hr, hiff⟩ := h onlyFile false [97, 92, 98, 92, 92, 99] 3 7 (by decide) (by decide) (by decide)
  have hfile := hiff.2 nearestIsFile_onlyFile
  have herrno : (sppcWinPathErrno onlyFile false ([97, 92, 98, 92, 92, 99] ++ [0]) 3 7).map PathReturn.errno =
      some SPPC_ENOENT := by
    decide
  rw [hr, Option.map_some, hfile] at herrno
  exact absurd herrno (by decide)

example : (sppcWinPathErrno onlyFile true [97, 92, 98, 92, 92, 99, 0] 3 7).map PathReturn.errno =
  some SPPC_ENOTDIR := by decide

end Sppc.Windows
