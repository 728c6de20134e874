import Sppc.Transition
import Sppc.Windows.Munmap
import Sppc.Windows.Poll

/-!
# Mapping memory (`platform/windows.h`)

`sppc_mmap` gives private memory of its own, or a view of a section, which it lists with the handle of the file that
it is to keep, and `sppc_munmap` takes it back.  A process calls them in any order: what is listed is mapped and, but
for calls of Windows' that fail, the other way round; each handle is closed once; and a mapping stays as it was made
until it is unmapped.
-/

namespace Sppc.Windows

open AddressSpace

def SPPC_PROT_READ : BitVec 32 := 0x1
def SPPC_PROT_WRITE : BitVec 32 := 0x2
def SPPC_PROT_EXEC : BitVec 32 := 0x4
def SPPC_MAP_SHARED : BitVec 32 := 0x1
def SPPC_MAP_PRIVATE : BitVec 32 := 0x2
def SPPC_MAP_ANONYMOUS : BitVec 32 := 0x20
def SPPC_MAP_NORESERVE : BitVec 32 := 0x4000

/-- `_SPPC_PROT_ALL`. -/
def protAll : BitVec 32 := SPPC_PROT_READ ||| SPPC_PROT_WRITE ||| SPPC_PROT_EXEC

def PAGE_NOACCESS : Nat := 0x01
def PAGE_READONLY : Nat := 0x02
def PAGE_READWRITE : Nat := 0x04
def PAGE_WRITECOPY : Nat := 0x08
def PAGE_EXECUTE : Nat := 0x10
def PAGE_EXECUTE_READ : Nat := 0x20
def PAGE_EXECUTE_READWRITE : Nat := 0x40
def PAGE_EXECUTE_WRITECOPY : Nat := 0x80

def FILE_MAP_COPY : Nat := 0x1
def FILE_MAP_WRITE : Nat := 0x2
def FILE_MAP_READ : Nat := 0x4
def FILE_MAP_EXECUTE : Nat := 0x20

/-- `GetSystemInfo`: the sizes of a page and of what a view starts at a multiple of. -/
structure SystemInfo where
  page : Nat
  granularity : Nat
  page_pos : 0 < page
  dvd : page ∣ granularity
  granularity_pos : 0 < granularity

/-- The pages that so many bytes take. -/
def SystemInfo.pages (sys : SystemInfo) (bytes : Nat) : Nat := (bytes + sys.page - 1) / sys.page

/-- The handle of a file: the descriptor's own, or one made to map it. -/
inductive FileHandle
  | own
  | made (n : Nat)
  deriving DecidableEq, Repr

/-- `_sppc_ofd`, as far as a mapping reads it, with the file's size, if it can be told. -/
structure MapOfd where
  kind : FdKind
  disk : Bool
  read : Bool
  write : Bool
  size : Option (Fin (2 ^ 63))

/-- How the calls of an `mmap` go: where memory is found, for the arguments that the call gives, and whether the
others succeed.  `unmap` is the unmapping of a view that could not be made ready. -/
structure MmapWorld where
  virtualAlloc : (m : AddressSpace) → (protect n : Nat) → Option (m.Gap n)
  createFileMapping : (file : Option FileHandle) → (protect size : Nat) → Bool
  mapViewOfFile : (m : AddressSpace) → (access start n : Nat) → Option (m.Gap n)
  virtualProtect : Nat → Bool
  malloc : Bool
  unmap : Bool
  reopen : Bool
  duplicate : Bool

/-- The process's memory and its list of views, and how many handles the calls have made, which are numbered. -/
structure MapSystem where
  maps : Mappings
  made : Nat

namespace MapSystem

/-- A handle is made. -/
def opened (s : MapSystem) : MapSystem := { s with made := s.made + 1 }

/-- `CloseHandle`. -/
def close (s : MapSystem) (h : Nat) : MapSystem := { s with maps := { s.maps with closed := h :: s.maps.closed } }

def closeIf (s : MapSystem) : Option Nat → MapSystem
  | none => s
  | some h => s.close h

def setSpace (s : MapSystem) (space : AddressSpace) : MapSystem := { s with maps := { s.maps with space := space } }

end MapSystem

/-! ### `sppc_mmap` -/

/-- `_sppc_win_page_protect`. -/
def winPageProtect (prot : BitVec 32) (copy : Bool) : Nat :=
  let p := [PAGE_NOACCESS, PAGE_READONLY, PAGE_READWRITE, PAGE_READWRITE, PAGE_EXECUTE, PAGE_EXECUTE_READ,
    PAGE_EXECUTE_READWRITE, PAGE_EXECUTE_READWRITE].getD (prot &&& 7).toNat 0
  if copy ∧ p = PAGE_READWRITE then PAGE_WRITECOPY
  else if copy ∧ p = PAGE_EXECUTE_READWRITE then PAGE_EXECUTE_WRITECOPY
  else p

/-- `_sppc_win_view_add`, where there is memory for it: `none` if a view is listed there already. -/
def Mappings.add (P : Mappings) (v : View) : Option Mappings :=
  if h : v.base ∈ P.views.map View.base then none
  else some { P with views := v :: P.views, nodup := List.nodup_cons.2 ⟨h, P.nodup⟩ }

/-- The section's protection and the view's access: as much as the descriptor allows. -/
def sectionArgs (shared writes exec : Bool) : Nat × Nat :=
  let (sectionProtect, access) :=
    if ¬shared then (if exec then PAGE_EXECUTE_WRITECOPY else PAGE_WRITECOPY, FILE_MAP_COPY)
    else if writes then (if exec then PAGE_EXECUTE_READWRITE else PAGE_READWRITE, FILE_MAP_WRITE)
    else (if exec then PAGE_EXECUTE_READ else PAGE_READONLY, FILE_MAP_READ)
  (sectionProtect, if exec then access ||| FILE_MAP_EXECUTE else access)

/-- What `_sppc_win_map_view` does once the view is mapped: it is protected and listed, or unmapped again. -/
def sppcWinReadyView (sys : SystemInfo) (w : MmapWorld) (s : MapSystem) {n : Nat} (base : s.maps.space.Gap n)
    (sectionProtect protect skip : Nat) (keep : Option Nat) : Option (Option Nat × MapSystem) :=
  let mapped := s.maps.space.allocate base .mapped sectionProtect
  let undo (mapped : AddressSpace) :=
    (s.setSpace (if w.unmap then mapped.release base.base else mapped)).closeIf keep
  if ¬w.virtualProtect protect then some (none, undo mapped)
  else
    let mapped := mapped.reprotect base.base (base.base + n) protect
    if ¬w.malloc then some (none, undo mapped)
    else
      (Mappings.add { s.maps with space := mapped } ⟨base.base, base.base + skip / sys.page, keep⟩).map fun P =>
        (some (base.base * sys.page + skip), { s with maps := P })

/-- `_sppc_win_map_view`, of which `file` is `none` for anonymous memory: the mapping's address, if there is one, and
what is left.  `none` if a second view were listed at one address. -/
def sppcWinMapView (sys : SystemInfo) (w : MmapWorld) (s : MapSystem) (file : Option FileHandle)
    (shared writes : Bool) (prot : BitVec 32) (offset length : Nat) (keep : Option Nat) :
    Option (Option Nat × MapSystem) :=
  let start := offset - offset % sys.granularity
  let view := (offset - start + length) % 2 ^ 64
  let args := sectionArgs shared writes (decide (prot &&& SPPC_PROT_EXEC ≠ 0))
  let size := if file = none then length else 0
  if ¬w.createFileMapping file args.1 size then some (none, s.closeIf keep)
  else
    -- the view keeps the section, whose handle is closed
    let s := s.opened.close s.made
    match w.mapViewOfFile s.maps.space args.2 start (sys.pages view) with
    | none => some (none, s.closeIf keep)
    | some base => sppcWinReadyView sys w s base args.1 (winPageProtect prot (!shared)) (offset - start) keep

/-- `_sppc_win_mmap_file`, of what the descriptor is open on. -/
def sppcWinMmapFile (sys : SystemInfo) (w : MmapWorld) (s : MapSystem) (ofd : Option MapOfd) (length : Nat)
    (prot : BitVec 32) (shared : Bool) (pos : Nat) : Option (Option Nat × MapSystem) :=
  match ofd with
  | none => some (none, s)
  | some ofd =>
    let writes := shared && ofd.write
    let mappable := ofd.kind = .handle ∧ ofd.disk ∧ ofd.read ∧ ¬(shared ∧ prot &&& SPPC_PROT_WRITE ≠ 0 ∧ ¬writes)
    let bytes := ((if mappable then ofd.size else none).map Fin.val).getD 0
    let pages := bytes / sys.page * sys.page + if bytes % sys.page ≠ 0 then sys.page else 0
    if ¬(pos < bytes ∧ length ≤ pages - pos) then some (none, s)
    else
      let inFile := if bytes - pos < length then bytes - pos else length
      let (file, s) :=
        if prot &&& SPPC_PROT_EXEC ≠ 0 then if w.reopen then (some (FileHandle.made s.made), s.opened) else (none, s)
        else (some .own, s)
      match file with
      | none => some (none, s)
      | some file =>
        let (keep, s) :=
          if writes then
            match file with
            | .made h => (some h, s)
            | .own => if w.duplicate then (some s.made, s.opened) else (none, s)
          else (none, s)
        let p :=
          if ¬writes ∨ keep ≠ none then sppcWinMapView sys w s (some file) shared writes prot pos inFile keep
          else some (none, s)
        p.map fun r =>
          match file with
          | .own => r
          | .made h => if keep ≠ some h then (r.1, r.2.close h) else r

/-- `sppc_mmap`. -/
def sppcMmap (sys : SystemInfo) (w : MmapWorld) (s : MapSystem) (ofd : Option MapOfd) (length : BitVec 64)
    (prot flags : BitVec 32) (offset : BitVec 64) : Option (Option Nat × MapSystem) :=
  let known := SPPC_MAP_SHARED ||| SPPC_MAP_PRIVATE ||| SPPC_MAP_ANONYMOUS ||| SPPC_MAP_NORESERVE
  let sharing := flags &&& (SPPC_MAP_SHARED ||| SPPC_MAP_PRIVATE)
  if prot &&& ~~~protAll ≠ 0 ∨ flags &&& ~~~known ≠ 0 ∨ length = 0 ∨ offset.toInt < 0 ∨
      sharing ≠ SPPC_MAP_SHARED ∧ sharing ≠ SPPC_MAP_PRIVATE ∨ offset.toNat % sys.page ≠ 0 then some (none, s)
  else
    let shared := decide (sharing = SPPC_MAP_SHARED)
    if flags &&& SPPC_MAP_ANONYMOUS ≠ 0 then
      if ¬shared then
        match w.virtualAlloc s.maps.space (winPageProtect prot false) (sys.pages length.toNat) with
        | none => some (none, s)
        | some base =>
          some (some (base.base * sys.page),
            s.setSpace (s.maps.space.allocate base .priv (winPageProtect prot false)))
      else sppcWinMapView sys w s none true true prot 0 length.toNat none
    else sppcWinMmapFile sys w s ofd length.toNat prot shared offset.toNat

/-- A call of the process's. -/
inductive MapCall
  | mmap (w : MmapWorld) (ofd : Option MapOfd) (length : BitVec 64) (prot flags : BitVec 32) (offset : BitVec 64)
  | munmap (w : MunmapWorld) (addr length : BitVec 64)

/-- What a call leaves. -/
def mapStep (sys : SystemInfo) (s : MapSystem) : MapCall → Option MapSystem
  | .mmap w ofd length prot flags offset => (sppcMmap sys w s ofd length prot flags offset).map Prod.snd
  | .munmap w addr length => (sppcMunmap w sys.page s.maps addr length).map fun r => { s with maps := r.2 }

/-! ### The handles -/

variable {sys : SystemInfo} {s s' t : MapSystem} {l : List Nat} {h : Nat}

/-- Each handle made has been closed once, or is listed, or is one of `l`, which a call has in its hands. -/
def Accounted (s : MapSystem) (l : List Nat) : Prop :=
  (l ++ (s.maps.closed ++ s.maps.views.filterMap View.file)).Perm (List.range s.made)

private theorem Accounted.opened (ha : Accounted s l) : Accounted s.opened (s.made :: l) := by
  show (s.made :: (l ++ _)).Perm (List.range (s.made + 1))
  rw [List.range_succ]
  exact (List.Perm.cons s.made ha).trans (List.perm_append_singleton s.made _).symm

private theorem Accounted.close (ha : Accounted s (h :: l)) : Accounted (s.close h) l := by
  show (l ++ (h :: s.maps.closed ++ s.maps.views.filterMap View.file)).Perm (List.range s.made)
  exact List.perm_middle.trans ha

private theorem Accounted.closeIf {keep : Option Nat} (ha : Accounted s (keep.toList ++ l)) :
    Accounted (s.closeIf keep) l := by
  cases keep with
  | none => exact ha
  | some h => exact ha.close

theorem Accounted.setSpace {space : AddressSpace} (ha : Accounted s l) : Accounted (s.setSpace space) l := ha

private theorem Accounted.add {P : Mappings} {base start : Nat} {keep : Option Nat}
    (ha : Accounted s (keep.toList ++ l)) (hclosed : P.closed = s.maps.closed)
    (hviews : P.views = ⟨base, start, keep⟩ :: s.maps.views) : Accounted { s with maps := P } l := by
  show (l ++ (P.closed ++ P.views.filterMap View.file)).Perm (List.range s.made)
  rw [hclosed, hviews]
  cases keep with
  | none => exact ha
  | some h =>
    show (l ++ (s.maps.closed ++ h :: s.maps.views.filterMap View.file)).Perm _
    refine List.Perm.trans (List.Perm.append_left l List.perm_middle) ?_
    exact List.perm_middle.trans ha

/-! ### What a call has made -/

/-- A mapping: the first page of its allocation and how many there are, the page that it starts at, which in private
memory is the first, and what the pages are. -/
structure Mapping where
  base : Nat
  n : Nat
  start : Nat
  kind : MemKind
  protect : Nat
  file : Option Nat
  start_le : base ≤ start
  lt_end : start < base + n
  kind_ok : kind = .mapped ∨ kind = .priv ∧ start = base

/-- The view that is listed of it. -/
def Mapping.view (M : Mapping) : Option View :=
  if M.kind = .mapped then some ⟨M.base, M.start, M.file⟩ else none

/-- A mapping has been made where there was nothing, and all else is as it was. -/
structure Made (s s' : MapSystem) (M : Mapping) : Prop where
  free : ∀ p, M.base ≤ p → p < M.base + M.n → s.maps.space.pages p = none
  pages : ∀ p, s'.maps.space.pages p =
    if M.base ≤ p ∧ p < M.base + M.n then some ⟨M.base, M.kind, true, M.protect⟩ else s.maps.space.pages p
  top : s'.maps.space.top = s.maps.space.top
  views : s'.maps.views = M.view.toList ++ s.maps.views
  end_le : M.base + M.n ≤ s.maps.space.top

/-- No mapping has been made: all is as it was, but for a view that could not be unmapped. -/
structure Unmade (unmap : Bool) (s s' : MapSystem) : Prop where
  pages : unmap → ∀ p, s'.maps.space.pages p = s.maps.space.pages p
  kept : ∀ p i, s.maps.space.pages p = some i → s'.maps.space.pages p = some i
  fresh : ∀ p i, s'.maps.space.pages p = some i → s.maps.space.pages p = some i ∨ s.maps.space.pages i.base = none
  top : s'.maps.space.top = s.maps.space.top
  views : s'.maps.views = s.maps.views

private theorem Unmade.same {unmap : Bool} (hspace : s'.maps.space = s.maps.space)
    (hviews : s'.maps.views = s.maps.views) : Unmade unmap s s' where
  pages _ p := by rw [hspace]
  kept p i hp := by rw [hspace, hp]
  fresh p i hp := by
    rw [hspace] at hp
    exact Or.inl hp
  top := by rw [hspace]
  views := hviews

private theorem Made.of_same {M : Mapping} (h : Made t s' M) (hspace : t.maps.space = s.maps.space)
    (hviews : t.maps.views = s.maps.views) : Made s s' M := by
  obtain ⟨free, pages, top, views, end_le⟩ := h
  rw [hspace] at free pages top end_le
  rw [hviews] at views
  exact ⟨free, pages, top, views, end_le⟩

private theorem Unmade.of_same {unmap : Bool} (h : Unmade unmap t s') (hspace : t.maps.space = s.maps.space)
    (hviews : t.maps.views = s.maps.views) : Unmade unmap s s' := by
  obtain ⟨pages, kept, fresh, top, views⟩ := h
  rw [hspace] at pages kept fresh top
  rw [hviews] at views
  exact ⟨pages, kept, fresh, top, views⟩

private theorem Unmade.close {unmap : Bool} (h : Unmade unmap s s') (n : Nat) : Unmade unmap s (s'.close n) :=
  ⟨h.pages, h.kept, h.fresh, h.top, h.views⟩

private theorem Made.close {M : Mapping} (h : Made s s' M) (n : Nat) : Made s (s'.close n) M :=
  ⟨h.free, h.pages, h.top, h.views, h.end_le⟩

/-- The mapping of `n` pages at an address, which are protected so. -/
structure Mapping.Fits (M : Mapping) (sys : SystemInfo) (n protect a : Nat) : Prop where
  address : a = M.start * sys.page
  pages : M.base + M.n = M.start + n
  protect : M.protect = protect

/-- How a call that maps `n` pages ends. -/
def MmapDone (sys : SystemInfo) (unmap : Bool) (s : MapSystem) (n protect : Nat) (r : Option Nat) (s' : MapSystem) :
    Prop :=
  match r with
  | none => Unmade unmap s s'
  | some a => ∃ M, Made s s' M ∧ M.Fits sys n protect a

private theorem MmapDone.of_same {unmap : Bool} {n protect : Nat} {r : Option Nat}
    (h : MmapDone sys unmap t n protect r s') (hspace : t.maps.space = s.maps.space)
    (hviews : t.maps.views = s.maps.views) : MmapDone sys unmap s n protect r s' := by
  cases r with
  | none => exact Unmade.of_same h hspace hviews
  | some a =>
    obtain ⟨M, hmade, hfits⟩ := h
    exact ⟨M, hmade.of_same hspace hviews, hfits⟩

private theorem MmapDone.close {unmap : Bool} {n protect : Nat} {r : Option Nat}
    (h : MmapDone sys unmap s n protect r s') (x : Nat) : MmapDone sys unmap s n protect r (s'.close x) := by
  cases r with
  | none => exact Unmade.close h x
  | some a =>
    obtain ⟨M, hmade, hfits⟩ := h
    exact ⟨M, hmade.close x, hfits⟩

private theorem SystemInfo.pages_pos {bytes : Nat} (hb : 0 < bytes) : 0 < sys.pages bytes := by
  have := sys.page_pos
  exact Nat.div_pos (by omega) sys.page_pos

theorem SystemInfo.pages_skip (sys : SystemInfo) (k bytes : Nat) :
    sys.pages (k * sys.page + bytes) = k + sys.pages bytes := by
  have := sys.page_pos
  have hsum : k * sys.page + bytes + sys.page - 1 = bytes + sys.page - 1 + k * sys.page := by omega
  rw [SystemInfo.pages, hsum, Nat.add_mul_div_right _ _ sys.page_pos, Nat.add_comm]
  rfl

/-- A view that is mapped is made ready and listed, or unmapped again. -/
private theorem sppcWinReadyView_spec (w : MmapWorld) {n m k : Nat} (base : s.maps.space.Gap n)
    (sectionProtect protect : Nat) {keep : Option Nat} (hn : n = k + m) (hm : 0 < m)
    (hlisted : ∀ v ∈ s.maps.views, s.maps.space.In v.base v.base) (ha : Accounted s (keep.toList ++ l)) :
    ∃ r s', sppcWinReadyView sys w s base sectionProtect protect (k * sys.page) keep = some (r, s') ∧ Accounted s' l ∧
      MmapDone sys w.unmap s m protect r s' := by
  have hn₀ : 0 < n := by omega
  -- a view that is not made ready
  have hundo {mapped : AddressSpace} {x : Nat} (htop : mapped.top = s.maps.space.top) (hpages : ∀ p, mapped.pages p =
      if base.base ≤ p ∧ p < base.base + n then some ⟨base.base, .mapped, true, x⟩ else s.maps.space.pages p) :
      Unmade w.unmap s ((s.setSpace (if w.unmap then mapped.release base.base else mapped)).closeIf keep) := by
    have hsame : ((s.setSpace (if w.unmap then mapped.release base.base else mapped)).closeIf keep).maps.space =
        if w.unmap then mapped.release base.base else mapped := by
      cases keep <;> rfl
    constructor
    · intro hw p
      rw [hsame, if_pos hw]
      exact pages_release_made base hn₀ hpages p
    · intro p i hp
      rw [hsame]
      split
      · rw [pages_release_made base hn₀ hpages p, hp]
      · rw [hpages, if_neg (fun hin => by rw [base.free p hin.1 hin.2] at hp; cases hp), hp]
    · intro p i hp
      rw [hsame] at hp
      split at hp
      · rw [pages_release_made base hn₀ hpages p] at hp
        exact Or.inl hp
      · rw [hpages] at hp
        split at hp
        · right
          rw [← Option.some.inj hp]
          exact base.free base.base (Nat.le_refl _) (by omega)
        · exact Or.inl hp
    · rw [hsame]
      split <;> exact htop
    · cases keep <;> rfl
  unfold sppcWinReadyView
  dsimp only
  split
  · exact ⟨_, _, rfl, ha.setSpace.closeIf, hundo rfl fun _ => rfl⟩
  split
  · exact ⟨_, _, rfl, ha.setSpace.closeIf,
      hundo rfl fun p => pages_reprotect_allocate base .mapped sectionProtect protect p⟩
  have hfresh : base.base ∉ s.maps.views.map View.base := by
    intro hmem
    obtain ⟨v, hv, heq⟩ := List.mem_map.1 hmem
    have hin := hlisted v hv
    rw [heq] at hin
    exact base.not_in hn₀ _ hin
  rw [Mappings.add, dif_neg hfresh, Option.map_some]
  refine ⟨_, _, rfl, ha.add rfl rfl, ⟨base.base, n, base.base + k, .mapped, protect, keep, Nat.le_add_right _ _, by
    omega, Or.inl rfl⟩, ?_, ?_, ?_, rfl⟩
  · refine ⟨base.free, fun p => ?_, rfl, ?_, base.le_top⟩
    · exact pages_reprotect_allocate base .mapped sectionProtect protect p
    · rw [Nat.mul_div_cancel k sys.page_pos]
      rfl
  · exact (Nat.add_mul _ _ _).symm
  · show base.base + n = base.base + k + m
    omega

/-- A view of a section is made and listed, or all is as it was, and the handle to keep is closed. -/
private theorem sppcWinMapView_spec (w : MmapWorld) (file : Option FileHandle) (shared writes : Bool)
    (prot : BitVec 32) {offset length : Nat} {keep : Option Nat} (hoff : offset % sys.page = 0) (hlen : 0 < length)
    (hfits : offset % sys.granularity + length < 2 ^ 64) (hlisted : ∀ v ∈ s.maps.views, s.maps.space.In v.base v.base)
    (ha : Accounted s (keep.toList ++ l)) :
    ∃ r s', sppcWinMapView sys w s file shared writes prot offset length keep = some (r, s') ∧ Accounted s' l ∧
      MmapDone sys w.unmap s (sys.pages length) (winPageProtect prot (!shared)) r s' := by
  have hskip : offset - (offset - offset % sys.granularity) = offset % sys.granularity := by
    have := Nat.mod_le offset sys.granularity
    omega
  obtain ⟨k, hk⟩ : ∃ k, offset % sys.granularity = k * sys.page := by
    obtain ⟨k, hk⟩ : sys.page ∣ offset % sys.granularity :=
      (Nat.dvd_mod_iff sys.dvd).2 (Nat.dvd_of_mod_eq_zero hoff)
    exact ⟨k, by rw [hk, Nat.mul_comm]⟩
  unfold sppcWinMapView
  dsimp only
  rw [hskip, Nat.mod_eq_of_lt hfits, hk]
  generalize (if file = none then length else 0) = size
  split
  · refine ⟨_, _, rfl, ha.closeIf, Unmade.same ?_ ?_⟩ <;> cases keep <;> rfl
  have hopened : Accounted (s.opened.close s.made) (keep.toList ++ l) := ha.opened.close
  split
  · refine ⟨_, _, rfl, hopened.closeIf, Unmade.same ?_ ?_⟩ <;> cases keep <;> rfl
  · rename_i base _
    obtain ⟨r, s', hr, ha', hdone⟩ :=
      sppcWinReadyView_spec w base (sectionArgs shared writes (decide (prot &&& SPPC_PROT_EXEC ≠ 0))).1
        (winPageProtect prot (!shared)) (sys.pages_skip k length) (sys.pages_pos hlen) hlisted hopened
    exact ⟨r, s', hr, ha', hdone.of_same rfl rfl⟩

theorem SystemInfo.pages_le_iff {bytes m : Nat} : sys.pages bytes ≤ m ↔ bytes ≤ m * sys.page := by
  have := sys.page_pos
  rw [SystemInfo.pages, ← Nat.lt_succ_iff, Nat.div_lt_iff_lt_mul sys.page_pos, Nat.succ_mul]
  omega

private theorem SystemInfo.roundUp_eq (sys : SystemInfo) (bytes : Nat) :
    (bytes / sys.page * sys.page + if bytes % sys.page ≠ 0 then sys.page else 0) = sys.pages bytes * sys.page := by
  have hdiv := Nat.div_add_mod' bytes sys.page
  have hmod := Nat.mod_lt bytes sys.page_pos
  have hpages : sys.pages bytes = bytes / sys.page + sys.pages (bytes % sys.page) := by
    rw [← sys.pages_skip, hdiv]
  have hrest : sys.pages (bytes % sys.page) = if bytes % sys.page ≠ 0 then 1 else 0 := by
    have hle : sys.pages (bytes % sys.page) ≤ 1 := SystemInfo.pages_le_iff.2 (by omega)
    split
    · have := sys.pages_pos (Nat.pos_of_ne_zero ‹_›)
      omega
    · have hzero : sys.pages (bytes % sys.page) ≤ 0 := SystemInfo.pages_le_iff.2 (by omega)
      omega
  rw [hpages, hrest, Nat.add_mul]
  split <;> simp

/-- What lies in the file of a range takes as many pages as the range. -/
private theorem SystemInfo.pages_inFile {pos bytes length : Nat} (hpos : pos % sys.page = 0) (hlt : pos < bytes)
    (hlen : length ≤ sys.pages bytes * sys.page - pos) :
    sys.pages (if bytes - pos < length then bytes - pos else length) = sys.pages length := by
  split
  · obtain ⟨k, rfl⟩ := Nat.dvd_of_mod_eq_zero hpos
    obtain ⟨r, rfl⟩ := Nat.exists_eq_add_of_lt hlt
    rename_i hcut
    rw [Nat.mul_comm sys.page k, Nat.add_assoc, sys.pages_skip, Nat.add_mul] at hlen
    rw [Nat.mul_comm sys.page k, Nat.add_assoc, Nat.add_sub_cancel_left] at hcut ⊢
    apply Nat.le_antisymm
    · have hall : length ≤ sys.pages length * sys.page := SystemInfo.pages_le_iff.1 (Nat.le_refl _)
      exact SystemInfo.pages_le_iff.2 (by omega)
    · exact SystemInfo.pages_le_iff.2 (by omega)
  · rfl

private theorem sppcWinMmapFile_spec (w : MmapWorld) (ofd : Option MapOfd) {length pos : Nat} (prot : BitVec 32)
    (shared : Bool) (hpos : pos % sys.page = 0) (hlen : 0 < length)
    (hlisted : ∀ v ∈ s.maps.views, s.maps.space.In v.base v.base) (ha : Accounted s []) :
    ∃ r s', sppcWinMmapFile sys w s ofd length prot shared pos = some (r, s') ∧ Accounted s' [] ∧
      MmapDone sys w.unmap s (sys.pages length) (winPageProtect prot (!shared)) r s' := by
  have hsame : MmapDone sys w.unmap s (sys.pages length) (winPageProtect prot (!shared)) none s := Unmade.same rfl rfl
  unfold sppcWinMmapFile
  cases ofd with
  | none => exact ⟨_, _, rfl, ha, hsame⟩
  | some ofd =>
    dsimp only
    generalize hb : Option.map Fin.val _ = size
    have hsize : size.getD 0 < 2 ^ 63 := by
      rw [← hb]
      split
      · cases ofd.size with
        | none => decide
        | some x => exact x.isLt
      · decide
    generalize size.getD 0 = bytes at hsize
    rw [sys.roundUp_eq]
    split
    · exact ⟨_, _, rfl, ha, hsame⟩
    rename_i hin
    obtain ⟨hlt, hle⟩ := not_not.1 hin
    have hpages := SystemInfo.pages_inFile hpos hlt hle
    generalize hinFile : (if bytes - pos < length then bytes - pos else length) = inFile at hpages
    have hinFile₀ : 0 < inFile := by
      rw [← hinFile]
      split <;> omega
    have hfits : pos % sys.granularity + inFile < 2 ^ 64 := by
      have := Nat.mod_le pos sys.granularity
      have : inFile ≤ bytes - pos := by
        rw [← hinFile]
        split <;> omega
      omega
    -- a view of the file is of as many pages as asked for
    have hmap (s₁ : MapSystem) (l : List Nat) (file : FileHandle) (writes : Bool) (keep : Option Nat)
        (hs₁ : s₁.maps = s.maps) (ha₁ : Accounted s₁ (keep.toList ++ l)) :
        ∃ r s', sppcWinMapView sys w s₁ (some file) shared writes prot pos inFile keep = some (r, s') ∧
        Accounted s' l ∧
          MmapDone sys w.unmap s (sys.pages length) (winPageProtect prot (!shared)) r s' := by
      obtain ⟨r, s', hr, ha', hdone⟩ := sppcWinMapView_spec w (some file) shared writes prot hpos hinFile₀ hfits
        (by rw [hs₁]; exact hlisted) ha₁
      rw [hpages] at hdone
      exact ⟨r, s', hr, ha', hdone.of_same (by rw [hs₁]) (by rw [hs₁])⟩
    by_cases hexec : prot &&& SPPC_PROT_EXEC ≠ 0
    · rw [if_pos hexec]
      by_cases hreopen : w.reopen
      case neg =>
        rw [if_neg hreopen]
        exact ⟨_, _, rfl, ha, hsame⟩
      rw [if_pos hreopen]
      dsimp only
      by_cases hwrites : (shared && ofd.write) = true
      · -- the handle made to execute is kept
        rw [hwrites, if_pos rfl]
        dsimp only
        rw [if_pos (Or.inr (Option.some_ne_none _))]
        obtain ⟨r, s', hr, ha', hdone⟩ := hmap s.opened [] (.made s.made) true (some s.made) rfl ha.opened
        rw [hr, Option.map_some, if_neg (not_not.2 rfl)]
        exact ⟨r, s', rfl, ha', hdone⟩
      · rw [Bool.not_eq_true] at hwrites
        rw [hwrites, if_neg Bool.false_ne_true]
        dsimp only
        rw [if_pos (Or.inl Bool.false_ne_true)]
        obtain ⟨r, s', hr, ha', hdone⟩ := hmap s.opened [s.made] (.made s.made) false none rfl ha.opened
        rw [hr, Option.map_some, if_pos (Option.some_ne_none _).symm]
        exact ⟨r, _, rfl, ha'.close, hdone.close _⟩
    · rw [if_neg hexec]
      dsimp only
      by_cases hwrites : (shared && ofd.write) = true
      · rw [hwrites, if_pos rfl]
        by_cases hdup : w.duplicate
        · rw [if_pos hdup]
          dsimp only
          rw [if_pos (Or.inr (Option.some_ne_none _))]
          obtain ⟨r, s', hr, ha', hdone⟩ := hmap s.opened [] .own true (some s.made) rfl ha.opened
          rw [hr]
          exact ⟨r, s', rfl, ha', hdone⟩
        · rw [if_neg hdup]
          dsimp only
          rw [if_neg (by simp)]
          exact ⟨_, _, rfl, ha, hsame⟩
      · rw [Bool.not_eq_true] at hwrites
        rw [hwrites, if_neg Bool.false_ne_true]
        dsimp only
        rw [if_pos (Or.inl Bool.false_ne_true)]
        obtain ⟨r, s', hr, ha', hdone⟩ := hmap s [] .own false none rfl ha
        rw [hr]
        exact ⟨r, s', rfl, ha', hdone⟩

/-- The flags are of a private mapping of a file, whose written pages are copied. -/
def CopiesPages (flags : BitVec 32) : Prop :=
  flags &&& (SPPC_MAP_SHARED ||| SPPC_MAP_PRIVATE) ≠ SPPC_MAP_SHARED ∧ flags &&& SPPC_MAP_ANONYMOUS = 0

instance (flags : BitVec 32) : Decidable (CopiesPages flags) := inferInstanceAs (Decidable (_ ∧ _))

/-- An `mmap` makes a mapping of the pages asked for where there was nothing, or none, and has all its handles closed
but for the one that it lists. -/
theorem sppcMmap_spec (sys : SystemInfo) (w : MmapWorld) (ofd : Option MapOfd) (length : BitVec 64)
    (prot flags : BitVec 32) (offset : BitVec 64) (hlisted : ∀ v ∈ s.maps.views, s.maps.space.In v.base v.base)
    (ha : Accounted s []) :
    ∃ r s', sppcMmap sys w s ofd length prot flags offset = some (r, s') ∧ Accounted s' [] ∧
      MmapDone sys w.unmap s (sys.pages length.toNat) (winPageProtect prot (CopiesPages flags)) r s' := by
  have hsame (n protect : Nat) : MmapDone sys w.unmap s n protect none s := Unmade.same rfl rfl
  unfold sppcMmap
  dsimp only
  split
  · exact ⟨_, _, rfl, ha, hsame _ _⟩
  rename_i hok
  rw [not_or, not_or, not_or, not_or, not_or, not_not, not_not, not_not] at hok
  obtain ⟨-, -, hlen, -, -, hoff⟩ := hok
  have hlen₀ : 0 < length.toNat := Nat.pos_of_ne_zero fun h => hlen (BitVec.eq_of_toNat_eq h)
  by_cases hanon : flags &&& SPPC_MAP_ANONYMOUS ≠ 0
  · have hcopy : decide (CopiesPages flags) = false := decide_eq_false fun h => hanon h.2
    rw [if_pos hanon, hcopy]
    split
    · split
      · exact ⟨_, _, rfl, ha, hsame _ _⟩
      · rename_i base _
        have hpos := sys.pages_pos hlen₀
        refine ⟨_, _, rfl, ha.setSpace, ⟨base.base, sys.pages length.toNat, base.base, .priv, _, none, Nat.le_refl _,
          by omega, Or.inr ⟨rfl, rfl⟩⟩, ?_, rfl, rfl, rfl⟩
        exact ⟨base.free, pages_allocate base _ _, rfl, rfl, base.le_top⟩
    · exact sppcWinMapView_spec w none true true prot (Nat.zero_mod sys.page) hlen₀
        (by have := length.isLt; rw [Nat.zero_mod]; omega) hlisted
          (show Accounted s ((none : Option Nat).toList ++ []) from ha)
  · have hcopy : decide (CopiesPages flags) =
        !decide (flags &&& (SPPC_MAP_SHARED ||| SPPC_MAP_PRIVATE) = SPPC_MAP_SHARED) := by
      rw [← decide_not, decide_eq_decide]
      exact and_iff_left (not_not.1 hanon)
    rw [if_neg hanon, hcopy]
    exact sppcWinMmapFile_spec w ofd prot _ hoff hlen₀ hlisted ha

end Sppc.Windows
