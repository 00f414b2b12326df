/-
  File:      ArgusPep/Lib/Cells.lean
  Subject:   Singly linked chains in a heap of cells.

  A cell carries an element and the address of the next cell. Only finitely many addresses are
  taken, so there is always a free one; which one a request gets is up to the allocator, and an
  address can be given again once it is free.

  * `Cells` -- the heap, with `put` and `erase`;
  * `Allocator` -- free addresses, chosen by the number of the request and the heap;
  * `Chain h p cells q` -- from the pointer `p` on, `next` leads through `cells` to the pointer `q`;
  * `chain_append`, `Chain.congr` -- chains are put together, and see their own cells only;
  * `Chain.concat`, `Chain.unlink` -- a cell put behind the last, and one taken out of the middle.
-/
import Mathlib.Data.List.Nodup

namespace Lib

structure Cell (β : Type) where
  element : β
  /-- The address of the next cell; `none` is NULL. -/
  next : Option Nat

/-- A heap of cells. From `bound` on, all addresses are free. -/
structure Cells (β : Type) where
  cell : Nat → Option (Cell β)
  bound : Nat
  free : ∀ a, bound ≤ a → cell a = none

/-! ## 1. The heap -/

namespace Cells

variable {β : Type}

/-- The heap with `c` at `a`. -/
def put (h : Cells β) (a : Nat) (c : Cell β) : Cells β where
  cell b := if b = a then some c else h.cell b
  bound := max h.bound (a + 1)
  free b hb := by
    rw [if_neg (by omega)]
    exact h.free b (by omega)

/-- The heap without the cell at `a`. -/
def erase (h : Cells β) (a : Nat) : Cells β where
  cell b := if b = a then none else h.cell b
  bound := h.bound
  free b hb := by
    split
    · rfl
    · exact h.free b hb

variable (h : Cells β)

@[simp] theorem put_self (a : Nat) (c : Cell β) : (h.put a c).cell a = some c := if_pos rfl

theorem put_of_ne {a b : Nat} (hne : b ≠ a) (c : Cell β) : (h.put a c).cell b = h.cell b :=
  if_neg hne

@[simp] theorem erase_self (a : Nat) : (h.erase a).cell a = none := if_pos rfl

theorem erase_of_ne {a b : Nat} (hne : b ≠ a) : (h.erase a).cell b = h.cell b := if_neg hne

end Cells

/-- The address a request gets, by its number: one that is free. -/
structure Allocator (β : Type) where
  choose : Nat → Cells β → Nat
  fresh : ∀ (t : Nat) (h : Cells β), h.cell (choose t h) = none

/-- Always the first address behind all that were ever taken. -/
def Allocator.bump (β : Type) : Allocator β :=
  ⟨fun _ h => h.bound, fun _ h => h.free h.bound (Nat.le_refl _)⟩

/-! ## 2. Chains -/

/-- From `p` on, `next` leads through `cells` to `q`. A cell of the list is its address and its
    element. -/
def Chain {β : Type} (h : Cells β) : (p : Option Nat) → (cells : List (Nat × β)) →
    (q : Option Nat) → Prop
  | p, [], q => p = q
  | p, (a, x) :: cells, q => p = some a ∧ ∃ next, h.cell a = some ⟨x, next⟩ ∧ Chain h next cells q

section Chain

variable {β : Type} {h h' : Cells β} {p q : Option Nat} {cells before after : List (Nat × β)}
  {a b : Nat} {x y : β}

theorem chain_append : Chain h p (before ++ after) q ↔
    ∃ m, Chain h p before m ∧ Chain h m after q := by
  induction before generalizing p with
  | nil =>
    constructor
    · intro hafter
      exact ⟨p, rfl, hafter⟩
    · intro hboth
      obtain ⟨m, rfl, hafter⟩ := hboth
      exact hafter
  | cons c before ih =>
    obtain ⟨a, x⟩ := c
    constructor
    · intro hall
      obtain ⟨rfl, next, hcell, hrest⟩ := hall
      obtain ⟨m, hbefore, hafter⟩ := ih.mp hrest
      exact ⟨m, ⟨rfl, next, hcell, hbefore⟩, hafter⟩
    · intro hboth
      obtain ⟨m, ⟨rfl, next, hcell, hbefore⟩, hafter⟩ := hboth
      exact ⟨rfl, next, hcell, ih.mpr ⟨m, hbefore, hafter⟩⟩

/-- A chain sees its own cells only. -/
theorem Chain.congr (hchain : Chain h p cells q)
    (hsame : ∀ a ∈ cells.map Prod.fst, h'.cell a = h.cell a) : Chain h' p cells q := by
  induction cells generalizing p with
  | nil => exact hchain
  | cons c cells ih =>
    obtain ⟨a, x⟩ := c
    obtain ⟨rfl, next, hcell, hrest⟩ := hchain
    refine ⟨rfl, next, ?_, ih hrest fun b hb => hsame b (List.mem_cons_of_mem _ hb)⟩
    rw [hsame a List.mem_cons_self]
    exact hcell

theorem Chain.put (hchain : Chain h p cells q) (ha : a ∉ cells.map Prod.fst) (c : Cell β) :
    Chain (h.put a c) p cells q :=
  hchain.congr fun _ hb => h.put_of_ne (ne_of_mem_of_not_mem hb ha) c

theorem Chain.erase (hchain : Chain h p cells q) (ha : a ∉ cells.map Prod.fst) :
    Chain (h.erase a) p cells q :=
  hchain.congr fun _ hb => h.erase_of_ne (ne_of_mem_of_not_mem hb ha)

/-- The cells of a chain are there. -/
theorem Chain.cell_ne (hchain : Chain h p cells q) (ha : a ∈ cells.map Prod.fst) :
    h.cell a ≠ none := by
  induction cells generalizing p with
  | nil => exact absurd ha List.not_mem_nil
  | cons c cells ih =>
    obtain ⟨b, x⟩ := c
    obtain ⟨-, next, hcell, hrest⟩ := hchain
    rcases List.mem_cons.mp ha with rfl | hmem
    · rw [hcell]
      exact Option.some_ne_none _
    · exact ih hrest hmem

/-- So a free address is none of them. -/
theorem Chain.not_mem (hchain : Chain h p cells q) (hfree : h.cell a = none) :
    a ∉ cells.map Prod.fst := fun ha => hchain.cell_ne ha hfree

/-- A chain to NULL starts at its first cell. -/
theorem Chain.head_eq (hchain : Chain h p cells none) : p = (cells.map Prod.fst).head? := by
  cases cells with
  | nil => exact hchain
  | cons c cells => exact hchain.1

/-- **A cell put behind the last one.** -/
theorem Chain.concat (hchain : Chain h p (before ++ [(a, x)]) none)
    (hdistinct : ((before ++ [(a, x)]).map Prod.fst).Nodup) (hb : h.cell b = none) (y : β) :
    Chain ((h.put b ⟨y, none⟩).put a ⟨x, some b⟩) p (before ++ [(a, x)] ++ [(b, y)]) none := by
  have hfresh := hchain.not_mem hb
  rw [List.map_append, List.nodup_append] at hdistinct
  have ha : a ∉ before.map Prod.fst := fun hmem =>
    hdistinct.2.2 a hmem a List.mem_cons_self rfl
  have hba : b ≠ a := by
    intro heq
    refine hfresh ?_
    rw [List.map_append, heq]
    exact List.mem_append_right _ List.mem_cons_self
  have hbbefore : b ∉ before.map Prod.fst := by
    intro hmem
    refine hfresh ?_
    rw [List.map_append]
    exact List.mem_append_left _ hmem
  obtain ⟨m, hbefore, rfl, next, hcell, -⟩ := chain_append.mp hchain
  rw [List.append_assoc]
  refine chain_append.mpr ⟨some a, (hbefore.put hbbefore _).put ha _, rfl, some b, ?_, rfl, none,
    ?_, rfl⟩
  · exact Cells.put_self ..
  · rw [Cells.put_of_ne _ hba]
    exact Cells.put_self ..

/-- **The first cell taken off.** -/
theorem Chain.tail (hchain : Chain h p ((a, x) :: after) q)
    (hdistinct : (((a, x) :: after).map Prod.fst).Nodup) :
    ∃ next, h.cell a = some ⟨x, next⟩ ∧ Chain (h.erase a) next after q := by
  obtain ⟨-, next, hcell, hrest⟩ := hchain
  exact ⟨next, hcell, hrest.erase (List.nodup_cons.mp hdistinct).1⟩

/-- **A cell unlinked behind another.** -/
theorem Chain.unlink (hchain : Chain h p (before ++ (b, y) :: (a, x) :: after) q)
    (hdistinct : ((before ++ (b, y) :: (a, x) :: after).map Prod.fst).Nodup) :
    ∃ next, h.cell b = some ⟨y, some a⟩ ∧ h.cell a = some ⟨x, next⟩ ∧
      Chain ((h.put b ⟨y, next⟩).erase a) p (before ++ (b, y) :: after) q := by
  rw [List.map_append, List.nodup_append] at hdistinct
  obtain ⟨-, hrest, hbefore⟩ := hdistinct
  have hb := (List.nodup_cons.mp hrest).1
  have ha := (List.nodup_cons.mp (List.nodup_cons.mp hrest).2).1
  have hab : a ≠ b := fun heq => hb (heq ▸ List.mem_cons_self)
  have hbbefore : b ∉ before.map Prod.fst := fun hmem => hbefore b hmem b List.mem_cons_self rfl
  have habefore : a ∉ before.map Prod.fst := fun hmem =>
    hbefore a hmem a (List.mem_cons_of_mem _ List.mem_cons_self) rfl
  obtain ⟨m, hfirst, rfl, link, hcellb, rfl, next, hcella, hafter⟩ := chain_append.mp hchain
  refine ⟨next, hcellb, hcella, chain_append.mpr ⟨some b, (hfirst.put hbbefore _).erase habefore,
    rfl, next, ?_, ?_⟩⟩
  · rw [Cells.erase_of_ne _ hab.symm]
    exact Cells.put_self ..
  · exact (hafter.put (fun hmem => hb (List.mem_cons_of_mem _ hmem)) _).erase ha

end Chain

end Lib
