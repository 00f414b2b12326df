/-
  File:      ArgusPep/Lib/Store.lean
  Subject:   Objects by address: made, written, released.

  An address is an identity, the number of the objects made before; it is not given again.

  * `Store` -- the objects, with `make`, `write` and `release`;
  * `Extends s t` -- what can be read in `s` reads the same in `t`; `Extends.make`, and
    `Extends.write` and `Extends.release` where the address is new since `s`.
-/
import Mathlib.Data.List.Basic

namespace Lib

/-- The objects by their addresses; one that was released is `none`. -/
structure Store (α : Type) where
  cells : List (Option α)

namespace Store

variable {α : Type} {s t u : Store α} {p q : Nat} {x y : α}

/-! ## 1. Operations -/

def read (s : Store α) (p : Nat) : Option α := s.cells[p]?.join

/-- The address of the next object made. -/
def next (s : Store α) : Nat := s.cells.length

def make (s : Store α) (x : α) : Store α := ⟨s.cells ++ [some x]⟩

def write (s : Store α) (p : Nat) (x : α) : Store α := ⟨s.cells.set p (some x)⟩

def release (s : Store α) (p : Nat) : Store α := ⟨s.cells.set p none⟩

@[simp] theorem next_make (s : Store α) (x : α) : (s.make x).next = s.next + 1 :=
  List.length_append

@[simp] theorem next_write (s : Store α) (p : Nat) (x : α) : (s.write p x).next = s.next :=
  List.length_set

@[simp] theorem next_release (s : Store α) (p : Nat) : (s.release p).next = s.next :=
  List.length_set

theorem read_lt (h : s.read p = some x) : p < s.next := by
  by_contra hlt
  unfold read at h
  rw [List.getElem?_eq_none (Nat.le_of_not_lt hlt)] at h
  cases h

@[simp] theorem read_make_self (s : Store α) (x : α) : (s.make x).read s.next = some x := by
  unfold read make next
  rw [List.getElem?_concat_length]
  rfl

theorem read_make_old (h : s.read p = some x) (y : α) : (s.make y).read p = some x := by
  have hlt := read_lt h
  unfold read make at *
  rw [List.getElem?_append_left hlt, h]

theorem read_write_self (h : s.read p = some x) (y : α) : (s.write p y).read p = some y := by
  have hlt := read_lt h
  unfold read write
  rw [List.getElem?_set_self hlt]
  rfl

theorem read_write_ne (h : p ≠ q) (s : Store α) (y : α) : (s.write q y).read p = s.read p := by
  unfold read write
  rw [List.getElem?_set_ne h.symm]

theorem read_release_ne (h : p ≠ q) (s : Store α) : (s.release q).read p = s.read p := by
  unfold read release
  rw [List.getElem?_set_ne h.symm]

/-! ## 2. What stays -/

/-- `t` has the objects of `s`, and maybe more. -/
structure Extends (s t : Store α) : Prop where
  next : s.next ≤ t.next
  read : ∀ p x, s.read p = some x → t.read p = some x

@[refl] theorem Extends.refl (s : Store α) : Extends s s := ⟨Nat.le_refl _, fun _ _ h => h⟩

theorem Extends.trans (h : Extends s t) (h' : Extends t u) : Extends s u :=
  ⟨Nat.le_trans h.next h'.next, fun p x hp => h'.read p x (h.read p x hp)⟩

theorem Extends.make (h : Extends s t) (x : α) : Extends s (t.make x) where
  next := Nat.le_trans h.next (by rw [next_make]; exact Nat.le_succ _)
  read p y hp := read_make_old (h.read p y hp) x

/-- An object that was not there in `s` is written. -/
theorem Extends.write (h : Extends s t) (hp : s.next ≤ p) (x : α) : Extends s (t.write p x) where
  next := by rw [next_write]; exact h.next
  read q y hq := by
    rw [read_write_ne (by have := read_lt hq; omega)]
    exact h.read q y hq

/-- An object that was not there in `s` is released. -/
theorem Extends.release (h : Extends s t) (hp : s.next ≤ p) : Extends s (t.release p) where
  next := by rw [next_release]; exact h.next
  read q y hq := by
    rw [read_release_ne (by have := read_lt hq; omega)]
    exact h.read q y hq

end Store

end Lib
