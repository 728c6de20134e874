import Sppc.Windows.FdTable
import Sppc.Transition

/-!
# The fd table as a descriptor map

Calls made one after the other do to the table what they do to a POSIX descriptor map, and keep the process's standard
handles those of the descriptions at the fds 0, 1 and 2.
-/

namespace Sppc.Windows

open Descriptors

/-- A call, with what it is given and what it finds: whether `calloc` and `realloc` have memory, and what `CreatePipe`
makes. -/
inductive FdCall
  | adopt (handle : Handle) (cloexec calloc realloc : Bool)
  | pipe (created : Except Nat (Handle × Handle)) (callocR reallocR callocW reallocW : Bool)
  | dup (fd : Int) (realloc : Bool)
  | dupFrom (fd : Int) (lowest : Nat) (cloexec realloc : Bool)
  | dup2 (fd target : Int) (realloc : Bool)
  | close (fd : Int)
  | setfd (fd : Int) (cloexec others : Bool)

/-- The call of a POSIX process. -/
def FdCall.op : FdCall → Op
  | .adopt _ cloexec _ _ => .opened cloexec
  | .pipe _ _ _ _ _ => .pipe
  | .dup fd _ => .dup fd 0 false
  | .dupFrom fd lowest cloexec _ => .dup fd lowest cloexec
  | .dup2 fd target _ => .dup2 fd target
  | .close fd => .close fd
  | .setfd fd cloexec _ => .setCloexec fd cloexec

/-- What keeps a call from succeeding that the map does not tell: memory that there is none of, a bit that there is
not, or a pipe that the system does not make. -/
def FdCall.Thwarts : FdCall → Failure → Prop
  | .adopt _ _ calloc realloc, .nomem => calloc = false ∨ realloc = false
  | .pipe (.error e) _ _ _ _, .system e' => e' = e
  | .pipe (.ok _) callocR reallocR callocW reallocW, .nomem =>
    callocR = false ∨ reallocR = false ∨ callocW = false ∨ reallocW = false
  | .dup _ realloc, .nomem | .dupFrom _ _ _ realloc, .nomem | .dup2 _ _ realloc, .nomem => realloc = false
  | .setfd _ _ others, .inval => others = true
  | _, _ => False

def FdErr.why : FdErr → Failure
  | .EBADF => .badf
  | .EMFILE => .mfile
  | .ENOMEM => .nomem
  | .EINVAL => .inval
  | .win e => .system e

/-- How a call ends that hands out the fds `fds r`. -/
def outcome {α : Type} (fds : α → List Nat) : Except FdErr α → Descriptors.Outcome
  | .ok r => .done (fds r)
  | .error e => .failed e.why

namespace Files

/-- A call, and how it ends. -/
def call (s : Files) : FdCall → Descriptors.Outcome × Files
  | .adopt h c calloc realloc => (s.fdAdopt h c calloc realloc).map (outcome ([·])) id
  | .pipe created a b c d => (s.sppcPipe created a b c d).map (outcome fun r => [r.1, r.2]) id
  | .dup fd realloc => (s.sppcDup fd realloc).map (outcome ([·])) id
  | .dupFrom fd lowest c realloc => (s.dupFrom fd lowest c realloc).map (outcome ([·])) id
  | .dup2 fd target realloc => (s.sppcDup2 fd target realloc).map (outcome fun _ => []) id
  | .close fd => (s.sppcClose fd).map (outcome fun _ => []) id
  | .setfd fd c others => (s.sppcSetfd fd c others).map (outcome fun _ => []) id

variable {s s' s'' : Files} {held : Nat → Nat} {fd d : Nat} {o : Option Nat} {c : Bool}

/-- The handle of what an fd names: `NULL` where it names nothing. -/
def handleAt (s : Files) (fd : Nat) : Handle := match s.ofdAt fd with
  | some d => (s.ofds d).handle
  | none => .null

/-- The standard handles are those of what the fds name. -/
def StdOk (s : Files) : Prop := ∀ fd < 3, s.ofdAt fd ≠ none → s.std fd = s.handleAt fd

/-- What no call does: give a description another handle, or leave a standard handle behind. -/
structure Follows (s s' : Files) : Prop where
  next : s.next ≤ s'.next
  handle : ∀ d < s.next, (s'.ofds d).handle = (s.ofds d).handle
  std : ∀ fd < 3, s'.ofdAt fd = s.ofdAt fd ∧ s'.std fd = s.std fd ∨ s'.std fd = s'.handleAt fd

/-- An fd that names the same as before has the same handle. -/
private theorem Follows.handleAt (h : s.Follows s') (hi : s.Inv held) (hat : s'.ofdAt fd = s.ofdAt fd) :
    s'.handleAt fd = s.handleAt fd := by
  unfold Files.handleAt
  rw [hat]
  cases hd : s.ofdAt fd with
  | none => rfl
  | some d => exact h.handle d (hi.lt_next hd)

theorem Follows.trans (h : s.Follows s') (hi : s'.Inv held) (h' : s'.Follows s'') : s.Follows s'' where
  next := Nat.le_trans h.next h'.next
  handle := fun d hd => (h'.handle d (Nat.lt_of_lt_of_le hd h.next)).trans (h.handle d hd)
  std := by
    intro fd hfd
    rcases h'.std fd hfd with ⟨hat', hstd'⟩ | hstd'
    · rcases h.std fd hfd with ⟨hat, hstd⟩ | hstd
      · exact Or.inl ⟨hat'.trans hat, hstd'.trans hstd⟩
      · exact Or.inr (by rw [hstd', hstd, h'.handleAt hi hat'])
    · exact Or.inr hstd'

private theorem Follows.stdOk (h : s.Follows s') (hi : s.Inv held) (hs : s.StdOk) : s'.StdOk := by
  intro fd hfd hne
  rcases h.std fd hfd with ⟨hat, hstd⟩ | hstd
  · rw [hstd, hs fd hfd (hat ▸ hne), h.handleAt hi hat]
  · exact hstd

/-- A step that changes only references, or adds free slots. -/
private theorem Follows.of_ofdAt (hnext : s'.next = s.next) (hhandle : ∀ d, (s'.ofds d).handle = (s.ofds d).handle)
    (hat : ∀ fd, s'.ofdAt fd = s.ofdAt fd) (hstd : s'.std = s.std) : s.Follows s' where
  next := Nat.le_of_eq hnext.symm
  handle := fun d _ => hhandle d
  std := fun fd _ => Or.inl ⟨hat fd, congrFun hstd fd⟩

theorem Follows.refl (s : Files) : s.Follows s := .of_ofdAt rfl (fun _ => rfl) (fun _ => rfl) rfl

theorem Follows.retain (s : Files) (d : Nat) : s.Follows (s.ofdRetain d) := by
  refine .of_ofdAt rfl (fun x => ?_) (fun _ => rfl) rfl
  by_cases hx : x = d
  · subst hx
    simp [ofdRetain]
  · simp [ofdRetain, Function.update_of_ne hx]

theorem Follows.decrement (s : Files) (d : Nat) : s.Follows (s.ofdDecrement d) := by
  refine .of_ofdAt rfl (fun x => ?_) (fun _ => rfl) rfl
  by_cases hx : x = d
  · subst hx
    simp [ofdDecrement]
  · simp [ofdDecrement, Function.update_of_ne hx]

theorem Follows.release (s : Files) (o : Option Nat) : s.Follows (s.ofdRelease o) := by
  cases o with
  | none => exact .refl s
  | some d =>
    obtain ⟨hnext, hhandle, hstd⟩ := Follows.decrement s d
    rw [ofdRelease]
    split
    · exact ⟨hnext, hhandle, hstd⟩
    · exact ⟨hnext, hhandle, hstd⟩

theorem Follows.new (s : Files) (h : Handle) : s.Follows (s.ofdNew h) where
  next := Nat.le_succ _
  handle := fun d hd => by simp [ofdNew, Function.update_of_ne (Nat.ne_of_lt hd)]
  std := fun _ _ => Or.inl ⟨rfl, rfl⟩

theorem Follows.grown (s : Files) (k : Nat) : s.Follows (s.grown k) :=
  .of_ofdAt rfl (fun _ => rfl) (ofdAt_grown s k) rfl

theorem Follows.set (hfd : fd < s.fds.length) : s.Follows (s.set fd o c) where
  next := Nat.le_refl _
  handle := fun _ _ => rfl
  std := by
    intro x hx
    by_cases hxfd : x = fd
    · subst hxfd
      refine Or.inr ?_
      unfold Files.handleAt
      rw [ofdAt_set hfd, if_pos rfl]
      cases o <;> simp only [Files.set, if_pos hx, Function.update_self]
    · refine Or.inl ⟨by rw [ofdAt_set hfd, if_neg hxfd], ?_⟩
      simp only [Files.set]
      split
      · exact Function.update_of_ne hxfd _ _
      · rfl

theorem Follows.setfd (s : Files) (fd d : Nat) (c : Bool) : s.Follows (s.setfdLocked fd d c) := by
  unfold setfdLocked
  split
  · rename_i hat
    refine .of_ofdAt rfl (fun _ => rfl) (fun x => ?_) rfl
    rw [ofdAt_entry (lt_of_ofdAt hat)]
    split
    · rename_i hx
      rw [hx, hat]
    · rfl
  · exact .refl s

/-! ### The calls -/

/-- What holds between the states before and after a call, whatever it does to the map. -/
structure Between (s s' : Files) (held : Nat → Nat) : Prop where
  inv : s'.Inv held
  follows : s.Follows s'

private theorem map_release (s : Files) (o : Option Nat) : (s.ofdRelease o).map = s.map := by
  cases o with
  | none => rfl
  | some d =>
    rw [ofdRelease]
    split <;> rfl

/-- An `install` gives the least free fd to the description, or lets go of it. -/
private theorem fdInstall_spec (hi : s.Inv (held + one (some d))) (lowest : Nat) (c realloc : Bool) :
    ∃ r s', s.fdInstall d lowest c realloc = (r, s') ∧ s.Between s' held ∧
      ((∃ fd, r = .ok fd ∧ s.map.Least fdMax lowest fd ∧ s'.map = s.map.put fd (some ⟨d, c⟩)) ∨
        ∃ e, r = .error e ∧ s'.map = s.map ∧
          (e = .EMFILE ∧ (∀ x < fdMax, lowest ≤ x → s.map x ≠ none) ∨ e = .ENOMEM ∧ realloc = false)) := by
  unfold fdInstall
  cases h : s.installLocked d lowest c realloc with
  | ok r =>
    obtain ⟨fd, s'⟩ := r
    obtain ⟨hleast, k, hlt, hmax, rfl⟩ := installFrom_ok hi.pos hi.le (Nat.le_refl _) h
    have hgrown := hi.grown hmax
    have hfree : (s.grown k).ofdAt fd = none := by rw [ofdAt_grown, ← map_eq_none, hleast.free]
    have hset := hgrown.set (c := c) hlt
    rw [hfree, add_one_none] at hset
    refine ⟨_, _, rfl, ⟨hset, (Follows.grown s k).trans hgrown (Follows.set hlt)⟩, Or.inl ⟨fd, rfl, hleast, ?_⟩⟩
    rw [map_set hlt, map_grown]
    rfl
  | error e =>
    refine ⟨_, _, rfl, ⟨hi.release, Follows.release s _⟩, Or.inr ⟨e, rfl, map_release s _, ?_⟩⟩
    refine (installFrom_error h).imp_left fun ⟨he, hall⟩ => ⟨he, fun x hx hle => hall x hle ?_⟩
    omega

theorem Inv.new_next (hi : s.Inv held) : s.map.New s.next := by
  intro fd e he heq
  have := hi.lt_next (ofdAt_of_map he)
  omega

private theorem fdAdopt_spec (hi : s.Inv held) (h : Handle) (c calloc realloc : Bool) :
    ∃ r s', s.fdAdopt h c calloc realloc = (r, s') ∧ s.Between s' held ∧
      ((∃ fd, r = .ok fd ∧ s.map.Least fdMax 0 fd ∧ s'.map = s.map.put fd (some ⟨s.next, c⟩)) ∨
        ∃ e, r = .error e ∧ s'.map = s.map ∧
          (e = .EMFILE ∧ (∀ x < fdMax, s.map x ≠ none) ∨ e = .ENOMEM ∧ (calloc = false ∨ realloc = false))) := by
  unfold fdAdopt
  split
  · have hnew := hi.new h
    obtain ⟨r, s', heq, ⟨hinv, hfollows⟩, hr⟩ := fdInstall_spec hnew 0 c realloc
    refine ⟨r, s', heq, ⟨hinv, (Follows.new s h).trans hnew hfollows⟩, hr.imp_right fun ⟨e, he, hmap, hwhy⟩ => ?_⟩
    exact ⟨e, he, hmap, hwhy.imp (fun ⟨hfull, hall⟩ => ⟨hfull, fun x hx => hall x hx (Nat.zero_le _)⟩)
      fun ⟨hnomem, hrealloc⟩ => ⟨hnomem, Or.inr hrealloc⟩⟩
  · rename_i hcalloc
    exact ⟨_, _, rfl, ⟨hi, .refl s⟩, Or.inr ⟨_, rfl, rfl, Or.inr ⟨rfl, Or.inl (by simpa using hcalloc)⟩⟩⟩

private theorem get_eq (s : Files) (fd : Int) : (s.map.get fd).map Entry.desc = s.fdGet fd := by
  unfold Map.get fdGet
  split
  · rfl
  · exact map_desc s _

private theorem get_eq_none {fd : Int} (h : s.fdGet fd = none) : s.map.get fd = none := by
  rw [← get_eq] at h
  simpa using h

private theorem exists_get {fd : Int} (h : s.fdGet fd = some d) : ∃ e, s.map.get fd = some e ∧ e.desc = d := by
  rw [← get_eq] at h
  exact Option.map_eq_some_iff.1 h

private theorem ofdAt_of_fdGet {fd : Int} (h : s.fdGet fd = some d) :
    (fd.toNat : Int) = fd ∧ s.ofdAt fd.toNat = some d := by
  unfold fdGet at h
  split at h
  · cases h
  · exact ⟨by omega, h⟩

/-- A call retains what it has found. -/
theorem Inv.get {fd : Int} (hi : s.Inv held) (h : s.fdGet fd = some d) : (s.ofdRetain d).Inv (held + one (some d)) :=
  hi.retain (hi.refs_pos (ofdAt_of_fdGet h).2)

private theorem dupFrom_spec (thwarts : Failure → Prop) (hi : s.Inv held) (fd : Int) (lowest : Nat) (c realloc : Bool)
    (hnomem : realloc = false → thwarts .nomem) :
    ∃ r s', s.dupFrom fd lowest c realloc = (r, s') ∧ s.Between s' held ∧
      s.map.Step fdMax thwarts (.dup fd lowest c) (outcome ([·]) r) s'.map := by
  unfold dupFrom
  cases hget : s.fdGet fd with
  | none => exact ⟨_, _, rfl, ⟨hi, .refl s⟩, .fails (get_eq_none hget)⟩
  | some d =>
    have hretain := hi.get hget
    obtain ⟨e, he, rfl⟩ := exists_get hget
    obtain ⟨r, s', heq, ⟨hinv, hfollows⟩, hr⟩ := fdInstall_spec hretain lowest c realloc
    refine ⟨r, s', heq, ⟨hinv, (Follows.retain s _).trans hretain hfollows⟩, ?_⟩
    rcases hr with ⟨new, rfl, hleast, hmap⟩ | ⟨err, rfl, hmap, hwhy⟩
    · rw [hmap]
      exact .dup he hleast
    · rw [hmap]
      rcases hwhy with ⟨rfl, hall⟩ | ⟨rfl, hrealloc⟩
      · exact .fails hall
      · exact .fails (hnomem hrealloc)

private theorem sppcDup2_spec (thwarts : Failure → Prop) (hi : s.Inv held) (fd target : Int) (realloc : Bool)
    (hnomem : realloc = false → thwarts .nomem) :
    ∃ r s', s.sppcDup2 fd target realloc = (r, s') ∧ s.Between s' held ∧
      s.map.Step fdMax thwarts (.dup2 fd target) (outcome (fun _ => []) r) s'.map := by
  unfold sppcDup2
  cases hget : s.fdGet fd with
  | none => exact ⟨_, _, rfl, ⟨hi, .refl s⟩, .fails (Or.inl (get_eq_none hget))⟩
  | some d =>
    have hretain := hi.get hget
    obtain ⟨e, he, rfl⟩ := exists_get hget
    have hback : s.Between ((s.ofdRetain e.desc).ofdRelease (some e.desc)) held :=
      ⟨hretain.release, (Follows.retain s _).trans hretain (Follows.release _ _)⟩
    have hsame : ((s.ofdRetain e.desc).ofdRelease (some e.desc)).map = s.map := map_release _ _
    simp only
    split
    · rename_i hrange
      exact ⟨_, _, rfl, hback, by rw [hsame]; exact .fails (Or.inr hrange)⟩
    · split
      · rename_i heq
        subst heq
        exact ⟨_, _, rfl, hback, by rw [hsame]; exact .same he⟩
      · rename_i hrange hne
        cases hlocked : (s.ofdRetain e.desc).dup2Locked e.desc target.toNat realloc with
        | none =>
          have hrealloc := reserve_eq_none (Option.map_eq_none_iff.1 hlocked)
          exact ⟨_, _, rfl, hback, by rw [hsame]; exact .fails (hnomem hrealloc)⟩
        | some r =>
          obtain ⟨old, s'⟩ := r
          obtain ⟨t, hreserve, heq⟩ := Option.map_eq_some_iff.1 hlocked
          cases heq
          have hlt : target.toNat < fdMax := by omega
          obtain ⟨k, rfl, hfd, hmax⟩ := reserve_eq_some hretain.pos hretain.le hlt hreserve
          have hgrown := hretain.grown hmax
          have hset := hgrown.set (c := false) hfd
          refine ⟨_, _, rfl, ⟨hset.release, ?_⟩, ?_⟩
          · exact ((Follows.retain s _).trans hretain (Follows.grown _ k)).trans hgrown
              ((Follows.set hfd).trans hset (Follows.release _ _))
          · have hstep : s.map.Step fdMax thwarts (.dup2 fd (target.toNat : Nat)) (.done []) _ :=
              .dup2 he hlt (by omega)
            rw [map_release, map_set hfd, map_grown]
            rw [show ((target.toNat : Nat) : Int) = target by omega] at hstep
            exact hstep

private theorem sppcClose_spec (thwarts : Failure → Prop) (hi : s.Inv held) (fd : Int) :
    ∃ r s', s.sppcClose fd = (r, s') ∧ s.Between s' held ∧
      s.map.Step fdMax thwarts (.close fd) (outcome (fun _ => []) r) s'.map := by
  unfold sppcClose closeLocked
  by_cases hneg : fd < 0
  · rw [if_pos hneg]
    exact ⟨_, _, rfl, ⟨hi, .refl s⟩, .fails (by simp [Map.get, Map.Fails, FdErr.why, hneg])⟩
  · rw [if_neg hneg]
    have hnat : ((fd.toNat : Nat) : Int) = fd := by omega
    cases hat : s.ofdAt fd.toNat with
    | none =>
      refine ⟨_, _, rfl, ⟨hi, .refl s⟩, .fails ?_⟩
      show s.map.get fd = none
      rw [Map.get, if_neg hneg]
      exact map_eq_none.2 hat
    | some d =>
      have hfd := lt_of_ofdAt hat
      obtain ⟨e, he, rfl⟩ := exists_map hat
      have hset := (add_one_none.symm ▸ hi : s.Inv (held + one none)).set (c := false) hfd
      rw [hat] at hset
      refine ⟨_, _, rfl, ⟨hset.release, (Follows.set hfd).trans hset (Follows.release _ _)⟩, ?_⟩
      have hstep : s.map.Step fdMax thwarts (.close (fd.toNat : Nat)) (.done []) _ := .close he
      rw [map_release, map_set hfd]
      rw [hnat] at hstep
      exact hstep

/-- A close of an fd that is open. -/
private theorem map_sppcClose (hat : s.ofdAt fd = some d) : (s.sppcClose fd).2.map = s.map.put fd none := by
  unfold sppcClose closeLocked
  rw [if_neg (by omega), Int.toNat_natCast, hat]
  show ((s.set fd none false).ofdRelease (some d)).map = _
  rw [map_release, map_set (lt_of_ofdAt hat)]
  rfl

private theorem map_setfd (hat : s.ofdAt fd = some d) : (s.setfdLocked fd d c).map = s.map.put fd (some ⟨d, c⟩) := by
  unfold setfdLocked
  rw [if_pos hat, map_entry (lt_of_ofdAt hat)]
  rfl

private theorem sppcSetfd_spec (thwarts : Failure → Prop) (hi : s.Inv held) (fd : Int) (c others : Bool)
    (hinval : others = true → thwarts .inval) :
    ∃ r s', s.sppcSetfd fd c others = (r, s') ∧ s.Between s' held ∧
      s.map.Step fdMax thwarts (.setCloexec fd c) (outcome (fun _ => []) r) s'.map := by
  unfold sppcSetfd
  split
  · rename_i hothers
    exact ⟨_, _, rfl, ⟨hi, .refl s⟩, .fails (hinval hothers)⟩
  · cases hget : s.fdGet fd with
    | none => exact ⟨_, _, rfl, ⟨hi, .refl s⟩, .fails (get_eq_none hget)⟩
    | some d =>
      obtain ⟨hnat, hat⟩ := ofdAt_of_fdGet hget
      have hfd := lt_of_ofdAt hat
      have hretain := hi.get hget
      have hat' : (s.ofdRetain d).ofdAt fd.toNat = some d := hat
      have hset : ((s.ofdRetain d).setfdLocked fd.toNat d c).Inv (held + one (some d)) := by
        have hentry := hretain.entry (c := c) hfd
        rw [hat'] at hentry
        unfold setfdLocked
        rw [if_pos hat']
        exact hentry
      refine ⟨_, _, rfl, ⟨hset.release, ?_⟩, ?_⟩
      · exact (Follows.retain s d).trans hretain ((Follows.setfd _ _ d c).trans hset (Follows.release _ _))
      · obtain ⟨e, he, rfl⟩ := exists_map hat
        have hstep : s.map.Step fdMax thwarts (.setCloexec (fd.toNat : Nat) c) (.done []) _ := .setCloexec he
        rw [map_release, map_setfd hat']
        rw [hnat] at hstep
        exact hstep

private theorem sppcPipe_spec (hi : s.Inv held) (created : Except Nat (Handle × Handle))
    (callocR reallocR callocW reallocW : Bool) :
    ∃ r s', s.sppcPipe created callocR reallocR callocW reallocW = (r, s') ∧ s.Between s' held ∧
      s.map.Step fdMax (FdCall.pipe created callocR reallocR callocW reallocW).Thwarts .pipe
      (outcome (fun r => [r.1, r.2]) r) s'.map := by
  unfold sppcPipe
  cases created with
  | error e => exact ⟨_, _, rfl, ⟨hi, .refl s⟩, .fails rfl⟩
  | ok rw =>
    obtain ⟨r, w⟩ := rw
    obtain ⟨res, s₁, heq₁, ⟨hinv₁, hfollows₁⟩, hres₁⟩ :=
      fdAdopt_spec hi r true callocR reallocR
    simp only [heq₁]
    rcases hres₁ with ⟨rfd, rfl, hleast₁, hmap₁⟩ | ⟨e, rfl, hmap₁, hwhy⟩
    · obtain ⟨res, s₂, heq₂, ⟨hinv₂, hfollows₂⟩, hres₂⟩ :=
        fdAdopt_spec hinv₁ w true callocW reallocW
      simp only [heq₂]
      have hfollows := hfollows₁.trans hinv₁ hfollows₂
      rcases hres₂ with ⟨wfd, rfl, hleast₂, hmap₂⟩ | ⟨e, rfl, hmap₂, hwhy⟩
      · refine ⟨_, _, rfl, ⟨hinv₂, hfollows⟩, ?_⟩
        have hfresh := hinv₁.new_next
        rw [hmap₁] at hleast₂ hfresh
        rw [hmap₂, hmap₁]
        refine .pipe hi.new_next ?_ ?_ hleast₁ hleast₂
        · intro x e he
          have hne : x ≠ rfd := by
            rintro rfl
            rw [hleast₁.free] at he
            cases he
          refine hfresh x e ?_
          rw [Map.put, Function.update_of_ne hne]
          exact he
        · exact hfresh rfd ⟨s.next, true⟩ (Function.update_self _ _ _)
      · -- the read end's fd is free again
        obtain ⟨res, s₃, heq₃, ⟨hinv₃, hfollows₃⟩, hstep⟩ := sppcClose_spec (fun _ => False) hinv₂ rfd
        simp only [heq₃]
        refine ⟨_, _, rfl, ⟨hinv₃, hfollows.trans hinv₂ hfollows₃⟩, ?_⟩
        have hsame : s₃.map = s.map := by
          have hrfd : s₂.map rfd = some ⟨s.next, true⟩ := by
            rw [hmap₂, hmap₁]
            exact Function.update_self _ _ _
          have hput : s₃.map = s₂.map.put rfd none := by
            have := map_sppcClose (ofdAt_of_map hrfd)
            rwa [heq₃] at this
          rw [hput, hmap₂, hmap₁, Map.put, Map.put, Function.update_idem, ← hleast₁.free, Function.update_eq_self]
        rw [hsame]
        rcases hwhy with ⟨rfl, hall⟩ | ⟨rfl, hnomem⟩
        · refine .fails ⟨rfd, fun x hx hnone => ?_⟩
          by_contra hne
          refine hall x hx ?_
          rw [hmap₁, Map.put, Function.update_of_ne hne]
          exact hnone
        · exact .fails (Or.inr (Or.inr hnomem))
    · refine ⟨_, _, rfl, ⟨hinv₁, hfollows₁⟩, ?_⟩
      rw [hmap₁]
      rcases hwhy with ⟨rfl, hall⟩ | ⟨rfl, hnomem⟩
      · exact .fails ⟨0, fun x hx hnone => absurd hnone (hall x hx)⟩
      · exact .fails (hnomem.imp_right Or.inl)

private theorem call_spec (hi : s.Inv held) (c : FdCall) :
    s.Between (s.call c).2 held ∧ s.map.Step fdMax c.Thwarts c.op (s.call c).1 (s.call c).2.map := by
  cases c with
  | adopt h c calloc realloc =>
    obtain ⟨r, s', heq, hbetween, hr⟩ := fdAdopt_spec hi h c calloc realloc
    simp only [call, heq]
    refine ⟨hbetween, ?_⟩
    show s.map.Step fdMax _ _ _ s'.map
    rcases hr with ⟨fd, rfl, hleast, hmap⟩ | ⟨e, rfl, hmap, ⟨rfl, hall⟩ | ⟨rfl, hnomem⟩⟩ <;> rw [hmap]
    · exact .opened hi.new_next hleast
    · exact .fails hall
    · exact .fails hnomem
  | pipe created callocR reallocR callocW reallocW =>
    obtain ⟨r, s', heq, hspec⟩ := sppcPipe_spec hi created callocR reallocR callocW reallocW
    simp only [call, heq]
    exact hspec
  | dup fd realloc =>
    obtain ⟨r, s', heq, hspec⟩ := dupFrom_spec (FdCall.dup fd realloc).Thwarts hi fd 0 false realloc id
    simp only [call, sppcDup, heq]
    exact hspec
  | dupFrom fd lowest c realloc =>
    obtain ⟨r, s', heq, hspec⟩ := dupFrom_spec (FdCall.dupFrom fd lowest c realloc).Thwarts hi fd lowest c realloc id
    simp only [call, heq]
    exact hspec
  | dup2 fd target realloc =>
    obtain ⟨r, s', heq, hspec⟩ := sppcDup2_spec (FdCall.dup2 fd target realloc).Thwarts hi fd target realloc id
    simp only [call, heq]
    exact hspec
  | close fd =>
    obtain ⟨r, s', heq, hspec⟩ := sppcClose_spec (FdCall.close fd).Thwarts hi fd
    simp only [call, heq]
    exact hspec
  | setfd fd c others =>
    obtain ⟨r, s', heq, hspec⟩ := sppcSetfd_spec (FdCall.setfd fd c others).Thwarts hi fd c others id
    simp only [call, heq]
    exact hspec

/-! ### The start -/

/-- What holds between two calls. -/
structure Settled (s : Files) : Prop where
  inv : s.Inv 0
  stdOk : s.StdOk

/-- One round of the start, with the fds from `fd` up still free. -/
theorem Settled.initStd (hs : s.Settled) (hfd : fd < s.fds.length) (hfree : ∀ x, fd ≤ x → s.ofdAt x = none)
    (calloc : Bool) : (s.initStd fd calloc).Settled ∧ (s.initStd fd calloc).fds.length = s.fds.length ∧
      ∀ x, fd + 1 ≤ x → (s.initStd fd calloc).ofdAt x = none := by
  have hnone := hfree fd (Nat.le_refl _)
  unfold Files.initStd
  simp only
  split
  · exact ⟨hs, rfl, fun x hx => hfree x (by omega)⟩
  · -- an entry for what the standard handle is
    have hentry (t : Files) (d : Nat) (hi : t.Inv (0 + one (some d))) (hfds : t.fds = s.fds) (hstd : t.std = s.std)
        (hhandle : ∀ x < s.next, (t.ofds x).handle = (s.ofds x).handle) (hd : (t.ofds d).handle = s.std fd) :
        Settled { t with fds := s.fds.set fd ⟨some d, false⟩ } ∧
          (s.fds.set fd ⟨some d, false⟩).length = s.fds.length ∧
            ∀ x, fd + 1 ≤ x → ofdAt { t with fds := s.fds.set fd ⟨some d, false⟩ } x = none := by
      have hat (x : Nat) : ofdAt { t with fds := s.fds.set fd ⟨some d, false⟩ } x =
          if x = fd then some d else s.ofdAt x :=
        (ofdAt_congr (s := { s with fds := s.fds.set fd ⟨some d, false⟩ }) rfl x).trans (ofdAt_entry hfd x)
      refine ⟨⟨?_, fun x hx hne => ?_⟩, List.length_set, fun x hx => ?_⟩
      · have := hi.entry (c := false) (show fd < t.fds.length from hfds ▸ hfd)
        rw [ofdAt_congr hfds, hnone, add_one_none, hfds] at this
        exact this
      · unfold handleAt
        rw [hat] at hne ⊢
        simp only [hstd]
        by_cases hxfd : x = fd
        · subst hxfd
          rw [if_pos rfl]
          exact hd.symm
        · rw [if_neg hxfd] at hne ⊢
          rw [hs.stdOk x hx hne]
          unfold handleAt
          cases hox : s.ofdAt x with
          | none => exact absurd hox hne
          | some y => exact (hhandle y (hs.inv.lt_next hox)).symm
      · rw [hat, if_neg (by omega)]
        exact hfree x (by omega)
    split
    · rename_i d hfind
      obtain ⟨earlier, hearlier, hat⟩ := Option.bind_eq_some_iff.1 hfind
      have hh := List.find?_some hearlier
      rw [hat] at hh
      refine hentry (s.ofdRetain d) d (hs.inv.retain (hs.inv.refs_pos hat)) rfl rfl ?_ ?_
      · exact (Follows.retain s d).handle
      · rw [(Follows.retain s d).handle d (hs.inv.lt_next hat)]
        simpa using hh
    · split
      · refine hentry (s.ofdNew (s.std fd)) s.next (hs.inv.new _) rfl rfl (Follows.new s _).handle ?_
        simp [ofdNew]
      · exact ⟨hs, rfl, fun x hx => hfree x (by omega)⟩

theorem Settled.init (std : Nat → Handle) (calloc : Nat → Bool) : (Files.init std calloc).Settled := by
  have hempty : Settled ⟨List.replicate 16 .free, fun _ => ⟨0, .null⟩, 0, std, [], []⟩ := by
    refine ⟨⟨by simp, by simp [fdMax], fun d => ?_, fun _ _ => rfl⟩, fun fd _ hne => ?_⟩
    · simp [names, Slot.free]
    · refine absurd ?_ hne
      unfold ofdAt
      rw [List.getElem?_replicate]
      split <;> rfl
  have hfree (x : Nat) (_ : 0 ≤ x) :
      ofdAt ⟨List.replicate 16 .free, fun _ => ⟨0, .null⟩, 0, std, [], []⟩ x = none := by
    unfold ofdAt
    rw [List.getElem?_replicate]
    split <;> rfl
  obtain ⟨h0, hlen0, hfree0⟩ := hempty.initStd (by simp) hfree (calloc 0)
  obtain ⟨h1, hlen1, hfree1⟩ := h0.initStd (by rw [hlen0]; simp) hfree0 (calloc 1)
  obtain ⟨h2, -, -⟩ := h1.initStd (by rw [hlen1, hlen0]; simp) hfree1 (calloc 2)
  exact h2

private theorem Settled.call (hs : s.Settled) (c : FdCall) : (s.call c).2.Settled := by
  obtain ⟨⟨hinv, hfollows⟩, -⟩ := call_spec hs.inv c
  exact ⟨hinv, hfollows.stdOk hs.inv hs.stdOk⟩

end Files

/-! ### The table starts -/

/-- The call comes as far as `_sppc_fds_ready`. -/
def FdCall.asks : FdCall → Bool
  | .adopt _ _ calloc _ => calloc
  | .pipe (.error _) _ _ _ _ => false
  | .pipe (.ok _) callocR _ _ _ => callocR
  | .dup fd _ | .dupFrom fd _ _ _ | .dup2 fd _ _ | .close fd => decide (0 ≤ fd)
  | .setfd fd _ others => !others && decide (0 ≤ fd)

/-- How a call ends that finds no table. -/
def FdCall.tableless : FdCall → Descriptors.Outcome
  | .pipe (.error e) _ _ _ _ => .failed (.system e)
  | .adopt _ _ _ _ | .pipe (.ok _) _ _ _ _ => .failed .nomem
  | .dup _ _ | .dupFrom _ _ _ _ | .dup2 _ _ _ | .close _ => .failed .badf
  | .setfd _ _ others => .failed (if others then .inval else .badf)

/-- `_sppc_fds_ready` in a call, from the process's standard handles: a table that is not up starts where there is
memory for it, and `calloc` then says for which of its descriptions there is. -/
def fdsReady (std : Nat → Handle) (calloc : Option (Nat → Bool)) (c : FdCall) : Option Files → Option Files
  | some s => some s
  | none => if c.asks then calloc.map (Files.init std) else none

/-- A call, and how it ends, once it has seen to the table. -/
def tableCall (c : FdCall) : Option Files → Descriptors.Outcome × Option Files
  | some s => ((s.call c).1, some (s.call c).2)
  | none => (c.tableless, none)

/-- A call, with what there is memory for where the table is not up. -/
def tableStep (std : Nat → Handle) (t : Option Files) (e : Option (Nat → Bool) × FdCall) : Option (Option Files) :=
  some (tableCall e.2 (fdsReady std e.1 e.2 t)).2

/-- The descriptor map: without a table, an empty one. -/
def tableMap : Option Files → Map Nat
  | some s => s.map
  | none => fun _ => none

/-- The process's standard handles are those of what the fds name that the call has changed. -/
def StdFollows : Option Files → Option Files → Prop
  | some s, some s' => ∀ fd < 3, s'.map fd ≠ s.map fd → s'.std fd = s'.handleAt fd
  | t, t' => t = t'

/-- A table that is up is settled. -/
theorem Files.Settled.ready {std : Nat → Handle} {t : Option Files} (ht : ∀ s, t = some s → s.Settled)
    (calloc : Option (Nat → Bool)) (c : FdCall) {s : Files} (hs : fdsReady std calloc c t = some s) : s.Settled := by
  cases t with
  | some s' =>
    cases hs
    exact ht s rfl
  | none =>
    simp only [fdsReady] at hs
    split at hs
    · obtain ⟨calloc, -, rfl⟩ := Option.map_eq_some_iff.1 hs
      exact .init std calloc
    · cases hs

private theorem Files.Settled.reachTable {std : Nat → Handle} {t : Option Files}
    (h : Transition.Reach (tableStep std) none t) : ∀ s, t = some s → s.Settled := by
  refine h.invariant (P := fun t => ∀ s, t = some s → s.Settled) ?_ (fun s hs => by cases hs)
  intro t e t' ht hstep s hs
  subst hs
  have hcall := Option.some.inj hstep
  cases hready : fdsReady std e.1 e.2 t with
  | none =>
    rw [hready] at hcall
    cases hcall
  | some s₁ =>
    rw [hready] at hcall
    cases hcall
    exact (Files.Settled.ready ht e.1 e.2 hready).call e.2

/-- A call without a table fails for want of memory, or as on an empty map. -/
private theorem tableless_step {calloc : Option (Nat → Bool)} {c : FdCall} (h : c.asks = true → calloc = none) :
    Map.Step fdMax (fun why => c.Thwarts why ∨ why = .nomem ∧ calloc = none)
      (fun _ => none : Map Nat) c.op c.tableless fun _ => none := by
  have hget (fd : Int) : Map.get (fun _ => none : Map Nat) fd = none := by
    unfold Map.get
    split <;> rfl
  cases c with
  | adopt handle cloexec memory realloc =>
    cases memory with
    | true => exact .fails (Or.inr ⟨rfl, h rfl⟩)
    | false => exact .fails (Or.inl (Or.inl rfl))
  | pipe created callocR reallocR callocW reallocW =>
    cases created with
    | error e => exact .fails (Or.inl rfl)
    | ok ends =>
      cases callocR with
      | true => exact .fails (Or.inr ⟨rfl, h rfl⟩)
      | false => exact .fails (Or.inl (Or.inl rfl))
  | dup fd realloc | dupFrom fd lowest cloexec realloc | close fd => exact .fails (hget fd)
  | dup2 fd target realloc => exact .fails (Or.inl (hget fd))
  | setfd fd cloexec others =>
    cases others with
    | true => exact .fails (Or.inl rfl)
    | false => exact .fails (hget fd)

/-- More may thwart a call. -/
private theorem step_mono {max : Nat} {thwarts thwarts' : Failure → Prop} {m m' : Map Nat} {op : Op}
    {out : Descriptors.Outcome} (h : m.Step max thwarts op out m') (hmono : ∀ why, thwarts why → thwarts' why) :
    m.Step max thwarts' op out m' := by
  cases h with
  | opened hd hfd => exact .opened hd hfd
  | pipe hd he hde hr hw => exact .pipe hd he hde hr hw
  | dup he hnew => exact .dup he hnew
  | dup2 he hlt hne => exact .dup2 he hlt hne
  | same he => exact .same he
  | close he => exact .close he
  | setCloexec he => exact .setCloexec he
  | @fails op why hop =>
    refine .fails ?_
    cases why with
    | badf => cases op <;> exact hop
    | mfile => cases op <;> exact hop
    | nomem | inval | system e => cases op <;> exact hmono _ hop

open Files in
private theorem stdFollows_call {s : Files} (hs : s.Settled) (c : FdCall) :
    StdFollows (some s) (some (s.call c).2) := by
  obtain ⟨⟨hinv, hfollows⟩, hstep⟩ := call_spec hs.inv c
  intro fd hfd hne
  rcases hfollows.std fd hfd with ⟨hat, hstd⟩ | hstd
  · -- only the close-on-exec bit has changed
    refine (hfollows.stdOk hs.inv hs.stdOk) fd hfd fun hnone => hne ?_
    rw [map_eq_none.2 hnone, map_eq_none.2 (hat ▸ hnone)]
  · exact hstd

open Files in
/-- Whatever calls have been made before, the next finds the table, starts it or has none; what it then does to the
table it does to a descriptor map, and a standard handle that the process has for an fd is that of what the fd names
once a call has changed it. -/
theorem fds_refine {std : Nat → Handle} {t : Option Files} (h : Transition.Reach (tableStep std) none t)
    (calloc : Option (Nat → Bool)) (c : FdCall) :
    (tableMap (fdsReady std calloc c t)).Step fdMax (fun why => c.Thwarts why ∨ why = .nomem ∧ t = none ∧
      calloc = none) c.op
        (tableCall c (fdsReady std calloc c t)).1 (tableMap (tableCall c (fdsReady std calloc c t)).2) ∧
      (∀ fd, tableMap t fd ≠ none → fd < fdMax) ∧
      StdFollows (fdsReady std calloc c t) (tableCall c (fdsReady std calloc c t)).2 := by
  have hsettled := Files.Settled.reachTable h
  refine ⟨?_, fun fd hne => ?_, ?_⟩
  · cases hready : fdsReady std calloc c t with
    | some s =>
      have hs := Files.Settled.ready hsettled calloc c hready
      exact step_mono (call_spec hs.inv c).2 fun why => Or.inl
    | none =>
      cases t with
      | some s => cases hready
      | none =>
        have hnone : c.asks = true → calloc = none := by
          intro hasks
          simp only [fdsReady, if_pos hasks] at hready
          exact Option.map_eq_none_iff.1 hready
        exact step_mono (tableless_step hnone) fun why => Or.imp_right fun ⟨hwhy, hcalloc⟩ => ⟨hwhy, rfl, hcalloc⟩
  · cases t with
    | none => exact absurd rfl hne
    | some s =>
      by_contra hge
      refine hne (map_eq_none.2 (ofdAt_eq_none ?_))
      have := (hsettled s rfl).inv.le
      omega
  · cases hready : fdsReady std calloc c t with
    | some s => exact stdFollows_call (Files.Settled.ready hsettled calloc c hready) c
    | none => rfl

/-- A dup2 far past the end of the table, on a process with one console, which starts the table. -/
theorem fds_refine_grown : ∃ s s' : Files, s.fds.length = 16 ∧ s'.fds.length = 8192 ∧
    s.map.Step fdMax (fun why => (FdCall.dup2 1 5000 true).Thwarts why ∨ why = .nomem ∧ (none : Option Files) = none ∧
      (some fun _ => true : Option (Nat → Bool)) = none) (.dup2 1 5000) (.done []) s'.map ∧
      StdFollows (some s) (some s') := by
  have h := fds_refine (⟨[], rfl⟩ : Transition.Reach (tableStep fun _ => .object 7) none none) (some fun _ => true)
    (.dup2 1 5000 true)
  refine ⟨Files.init (fun _ => .object 7) fun _ => true, _, ?_, ?_, ?_, h.2.2⟩
  · decide +kernel
  · decide +kernel
  · have hout : ((Files.init (fun _ => .object 7) fun _ => true).call (.dup2 1 5000 true)).1 = .done [] := by rfl
    rw [← hout]
    exact h.1

end Sppc.Windows
