import Mathlib.Init

/-!
# Straight-line code that is interrupted

An interrupt may come at any boundary of the code: `interrupts k` says whether one comes before the `k`-th
instruction.  The code is verified with an assertion at each boundary, that interrupts there keep and that each
instruction takes to the next.
-/

namespace Interrupted

variable {M I : Type} {exec : M → I → M} {interrupt : M → M} {interrupts : Nat → Bool}

/-- The interrupt at the boundary `k`, if one comes. -/
def before (interrupt : M → M) (interrupts : Nat → Bool) (k : Nat) (m : M) : M :=
  if interrupts k then interrupt m else m

/-- Code whose first instruction is the `k`-th. -/
def run (exec : M → I → M) (interrupt : M → M) (interrupts : Nat → Bool) (k : Nat) (m : M) : List I → M
  | [] => m
  | i :: is => run exec interrupt interrupts (k + 1) (exec (before interrupt interrupts k m) i) is

theorem run_append {k : Nat} {m : M} {is js : List I} : run exec interrupt interrupts k m (is ++ js) =
    run exec interrupt interrupts (k + is.length) (run exec interrupt interrupts k m is) js := by
  induction is generalizing k m with
  | nil => rfl
  | cons i is ih =>
    rw [List.cons_append, run, run, ih, List.length_cons, Nat.add_assoc, Nat.add_comm 1]

theorem before_induct {k : Nat} {m : M} {P : M → Prop} (h : P m)
    (hinterrupt : interrupts k = true → P m → P (interrupt m)) : P (before interrupt interrupts k m) := by
  unfold before
  split
  · exact hinterrupt ‹_› h
  · exact h

/-- Code with an assertion `P j` before the interrupt at each boundary, and `Q j` after it. -/
theorem run_ofFn {n k : Nat} {f : Fin n → I} {P Q : Nat → M → Prop} {m : M}
    (hbefore : ∀ j < n, ∀ m, P j m → Q j (before interrupt interrupts (k + j) m))
    (hexec : ∀ (j : Fin n) m, Q j m → P (j + 1) (exec m (f j))) (h : P 0 m) :
    P n (run exec interrupt interrupts k m (List.ofFn f)) := by
  induction n with
  | zero => exact h
  | succ n ih =>
    have hlast := ih (f := fun j => f j.castSucc) (fun j hj => hbefore j (Nat.lt_succ_of_lt hj)) fun j =>
      hexec j.castSucc
    rw [List.ofFn_succ_last, run_append, List.length_ofFn]
    exact hexec (Fin.last n) _ (hbefore n (Nat.lt_succ_self n) _ hlast)

end Interrupted
