/-
  File:      ArgusPep/Lib/Tape.lean
  Subject:   A sequence read from front to back, with push-back: what was read, and what was not.

  `write` appends to what is unread, `take` reads from its front, `pushBack` puts one element back
  in front of it, in place of the last one read, `rewind` makes everything unread again.

  A transfer in pieces is the transfer: `writes_eq` and `takes_flatten` say that only the
  concatenation of the pieces counts.
-/
import Mathlib.Algebra.Ring.Nat

namespace Lib

structure Tape (α : Type) where
  consumed : List α
  unread : List α

namespace Tape

variable {α : Type}

def empty : Tape α := ⟨[], []⟩

def write (xs : List α) (t : Tape α) : Tape α := ⟨t.consumed, t.unread ++ xs⟩

/-- The first `n` unread elements, all of them where there are fewer. -/
def front (n : Nat) (t : Tape α) : List α := t.unread.take n

/-- The tape after `front n` was read. -/
def skip (n : Nat) (t : Tape α) : Tape α := ⟨t.consumed ++ t.unread.take n, t.unread.drop n⟩

def pushBack (x : α) (t : Tape α) : Tape α := ⟨t.consumed.dropLast, x :: t.unread⟩

def rewind (t : Tape α) : Tape α := ⟨[], t.consumed ++ t.unread⟩

/-- Reads of the sizes `ns`, one after another. -/
def takes : List Nat → Tape α → List (List α)
  | [], _ => []
  | n :: ns, t => t.front n :: takes ns (t.skip n)

/-- The pieces read one after another are one read. -/
theorem takes_flatten (ns : List Nat) (t : Tape α) : (t.takes ns).flatten = t.front ns.sum := by
  induction ns generalizing t with
  | nil => exact (List.take_zero).symm
  | cons n ns ih =>
    rw [takes, List.flatten_cons, ih, List.sum_cons]
    exact (List.take_add).symm

/-- The pieces written one after another are one write. -/
theorem writes_eq (pieces : List (List α)) (t : Tape α) :
    pieces.foldl (fun t xs => t.write xs) t = t.write pieces.flatten := by
  induction pieces generalizing t with
  | nil => rw [List.flatten_nil, write, List.append_nil]; rfl
  | cons xs pieces ih =>
    rw [List.foldl_cons, ih, List.flatten_cons]
    exact congrArg (Tape.mk t.consumed) (List.append_assoc _ _ _)

end Tape

end Lib
