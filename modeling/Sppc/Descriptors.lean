import Mathlib.Logic.Function.Basic

/-!
# Descriptor maps

A process's descriptors as POSIX has them: a partial map from the numbers below `max` to open file descriptions, each
entry with its own close-on-exec bit, and what each call may do to it.
-/

namespace Descriptors

variable {D : Type*}

structure Entry (D : Type*) where
  desc : D
  cloexec : Bool

abbrev Map (D : Type*) := Nat → Option (Entry D)

inductive Op
  | opened (cloexec : Bool)
  | pipe
  | dup (fd : Int) (lowest : Nat) (cloexec : Bool)
  | dup2 (fd target : Int)
  | close (fd : Int)
  | setCloexec (fd : Int) (cloexec : Bool)

/-- Why a call fails: it is given a number that it cannot be, there are no more, there is no memory, it is given bits
that there are not, or the system makes nothing. -/
inductive Failure
  | badf | mfile | nomem | inval
  | system (e : Nat)

/-- How a call ends: with the numbers that it hands out, or with a failure. -/
inductive Outcome
  | done (fds : List Nat)
  | failed (why : Failure)

/-- What a number names. -/
def Map.get (m : Map D) (fd : Int) : Option (Entry D) := if fd < 0 then none else m fd.toNat

def Map.put (m : Map D) (fd : Nat) (e : Option (Entry D)) : Map D := Function.update m fd e

/-- The description is not open. -/
def Map.New (m : Map D) (d : D) : Prop := ∀ fd e, m fd = some e → e.desc ≠ d

/-- The least free number from `lowest` up. -/
structure Map.Least (m : Map D) (max lowest fd : Nat) : Prop where
  le : lowest ≤ fd
  lt : fd < max
  free : m fd = none
  least : ∀ x, lowest ≤ x → x < fd → m x ≠ none

/-- When a call may fail: as the map tells, or as `thwarts` says of what is not in the map. -/
def Map.Fails (max : Nat) (thwarts : Failure → Prop) (m : Map D) : Op → Failure → Prop
  | .dup fd _ _, .badf | .close fd, .badf | .setCloexec fd _, .badf => m.get fd = none
  | .dup2 fd target, .badf => m.get fd = none ∨ target < 0 ∨ (max : Int) ≤ target
  | .opened _, .mfile => ∀ fd < max, m fd ≠ none
  | .dup _ lowest _, .mfile => ∀ fd < max, lowest ≤ fd → m fd ≠ none
  | .pipe, .mfile => ∃ one, ∀ fd < max, m fd = none → fd = one
  | _, .badf | _, .mfile => False
  | _, why => thwarts why

/-- What a call does to the map: a call that fails leaves it as it is. -/
inductive Map.Step (max : Nat) (thwarts : Failure → Prop) (m : Map D) : Op → Outcome → Map D → Prop
  | opened {cloexec : Bool} {fd : Nat} {d : D} (hd : m.New d) (hfd : m.Least max 0 fd) :
    Step max thwarts m (.opened cloexec) (.done [fd]) (m.put fd (some ⟨d, cloexec⟩))
  | pipe {r w : Nat} {d e : D} (hd : m.New d) (he : m.New e) (hde : d ≠ e) (hr : m.Least max 0 r)
      (hw : (m.put r (some ⟨d, true⟩)).Least max 0 w) :
    Step max thwarts m .pipe (.done [r, w]) ((m.put r (some ⟨d, true⟩)).put w (some ⟨e, true⟩))
  | dup {fd : Int} {lowest new : Nat} {cloexec : Bool} {e : Entry D} (he : m.get fd = some e)
      (hnew : m.Least max lowest new) :
    Step max thwarts m (.dup fd lowest cloexec) (.done [new]) (m.put new (some ⟨e.desc, cloexec⟩))
  | dup2 {fd : Int} {target : Nat} {e : Entry D} (he : m.get fd = some e) (hlt : target < max)
    (hne : (target : Int) ≠ fd) :
    Step max thwarts m (.dup2 fd target) (.done []) (m.put target (some ⟨e.desc, false⟩))
  | same {fd : Int} {e : Entry D} (he : m.get fd = some e) : Step max thwarts m (.dup2 fd fd) (.done []) m
  | close {fd : Nat} {e : Entry D} (he : m fd = some e) : Step max thwarts m (.close fd) (.done []) (m.put fd none)
  | setCloexec {fd : Nat} {cloexec : Bool} {e : Entry D} (he : m fd = some e) :
    Step max thwarts m (.setCloexec fd cloexec) (.done []) (m.put fd (some ⟨e.desc, cloexec⟩))
  | fails {op : Op} {why : Failure} (hop : m.Fails max thwarts op why) : Step max thwarts m op (.failed why) m

end Descriptors
