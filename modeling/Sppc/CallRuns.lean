import Sppc.Threads

/-!
# One thread among any others

The accesses that one thread makes during a call, each to a state that the other threads have left.  Nothing is said
of what they do in between.
-/

namespace Threads

variable {Tid Shared Loc Input : Type*} {act : Tid → Input → Shared → Loc → Option (Shared × Loc)} {t : Tid}
  {going : Loc → Prop}

/-- The thread gets from `l` to `l'` by the accesses in the list, with where each was made and the state that it met.
It goes on only where the call is `going` on. -/
inductive CallRun (act : Tid → Input → Shared → Loc → Option (Shared × Loc)) (t : Tid) (going : Loc → Prop) :
    Loc → List (Loc × Shared) → Loc → Prop
  | done (l : Loc) : CallRun act t going l [] l
  | next {i : Input} {h h' : Shared} {l l' l'' : Loc} {hs : List (Loc × Shared)} (hgoing : going l)
      (hact : act t i h l = some (h', l')) (hrest : CallRun act t going l' hs l'') :
      CallRun act t going l ((l, h) :: hs) l''

/-- A call that is over makes no more accesses. -/
private theorem CallRun.eq_of_not_going {l l' : Loc} {hs : List (Loc × Shared)} (h : CallRun act t going l hs l')
    (hl : ¬going l) : l' = l := by
  cases h with
  | done => rfl
  | next hgoing => exact absurd hgoing hl

/-- Where every access from inside reads what it is to, stays inside or leaves, a run from inside that neither ends
there nor leaves has read it. -/
theorem CallRun.exists_read {l l' : Loc} {hs : List (Loc × Shared)} (h : CallRun act t going l hs l')
    (Inside Left : Loc → Prop) (Read : Loc → Shared → Prop)
    (hstep : ∀ i h l h' l', Inside l → act t i h l = some (h', l') → Read l h ∨ Inside l' ∨ (Left l' ∧ ¬going l'))
    (hl : Inside l) (hin : ¬Inside l') (hleft : ¬Left l') : ∃ p ∈ hs, Read p.1 p.2 := by
  induction h with
  | done => exact absurd hl hin
  | next hgoing hact hrest ih =>
    rcases hstep _ _ _ _ _ hl hact with hread | hstay | ⟨hgone, hover⟩
    · exact ⟨_, List.mem_cons_self, hread⟩
    · obtain ⟨p, hp, hread⟩ := ih hstay hin hleft
      exact ⟨p, List.mem_cons_of_mem _ hp, hread⟩
    · rw [hrest.eq_of_not_going hover] at hleft
      exact absurd hgone hleft

end Threads
