/-
  File:      ArgusPep/Util/ListCells.lean
  Subject:   The linked list of util/linkedlist.c over its nodes, and the sequence it stands for.

  A list function is a run over `ListWorld`: the heap of the nodes and the structure of the list.
  The element of a node is a `void *`, which can be NULL; all allocations succeed, at addresses the
  allocator chooses. Access to NULL, or to an address without a node, is undefined, and so is
  counting an `int` past `INT_MAX`. The list itself is not NULL.

  * `Llist.add`, `get`, `remove`, `length`, `delete` -- the functions, under their names without
    `llist_`;
  * `ListCall.onSequence` -- what a call means for a sequence;
  * `Represents` -- the INVARIANT: from `head` on, `next` leads through the nodes to NULL, `tail` is
    the last of them, and all that is no node of the list is as it was at the start;
  * `Counted` -- no call is to remove the element at `INT_MAX` where there is one;
  * `call_represents`, `runCalls_represents` -- one such call, and every sequence of them;
  * `refinesSequence_iff` -- the list is the sequence it stands for, exactly if its calls are
    `Counted`;
  * `delete_represents` -- `llist_delete` leaves the heap as it was at the start.
-/
import ArgusPep.Lib.Run
import ArgusPep.Lib.Cells
import ArgusPep.Util.Bytes

namespace ArgusPep

open Lib Run

def LLIST_OK : CInt := 0#32

/-- `struct linkedlist`. -/
structure LinkedList where
  length : Nat
  head : Option Nat
  tail : Option Nat

/-- An element is a `void *`. -/
structure ListWorld (α : Type) where
  heap : Cells (Option α)
  list : LinkedList
  /-- The nodes allocated so far. -/
  allocated : Nat

abbrev OnList (α β : Type) := Run (ListWorld α) β

namespace Llist

variable {α : Type}

/-! ## 1. Nodes -/

/-- The list's structure. -/
def fields : OnList α LinkedList := fun w => .done w.list w

def change (f : LinkedList → LinkedList) : OnList α Unit :=
  update fun w => { w with list := f w.list }

/-- The node at a pointer. -/
def node (p : Option Nat) : OnList α (Cell (Option α)) := fun w =>
  match p.bind w.heap.cell with
  | some c => .done c w
  | none => .fault w

/-- `p->next= next`. -/
def setNext (p next : Option Nat) : OnList α Unit := do
  let c ← node p
  match p with
  | some a => update fun w => { w with heap := w.heap.put a { c with next } }
  | none => undefined

/-- A new node. -/
def newNode (alloc : Allocator (Option α)) (element : Option α) : OnList α (Option Nat) := fun w =>
  let a := alloc.choose w.allocated w.heap
  .done (some a)
    { w with heap := w.heap.put a ⟨element, none⟩, allocated := w.allocated + 1 }

/-- `free` of a node. -/
def free (p : Option Nat) : OnList α Unit := do
  let _ ← node p
  match p with
  | some a => update fun w => { w with heap := w.heap.erase a }
  | none => undefined

/-! ## 2. The functions -/

/-- `llist_create`. -/
def create : LinkedList := ⟨0, none, none⟩

/-- `llist_length`. -/
def length : OnList α Nat := do pure (← fields).length

/-- `llist_add`. -/
def add (alloc : Allocator (Option α)) (element : Option α) : OnList α CInt := do
  let node ← newNode alloc element
  if (← fields).head = none then
    -- empty list
    change fun list => { list with head := node }
  else setNext (← fields).tail node
  change fun list => { list with tail := node }
  change fun list => { list with length := list.length + 1 }
  pure LLIST_OK

/-- The loop of `llist_get`, with `left` rounds to go: the node behind it, or `none` where one on
    the way is NULL. -/
def getLoop : (left j : Nat) → (current : Option Nat) → OnList α (Option (Option Nat))
  | 0, _, current => pure (some current)
  | left + 1, j, current =>
    if current = none then pure none
    else do
      let current := (← node current).next
      let j ← next INT_MAX j
      getLoop left j current

/-- The loop of `llist_remove`: the nodes `previous` and `current` behind it. Its test counts `j`,
    and does so also when it fails. -/
def removeLoop : (left j : Nat) → (previous current : Option Nat) →
    OnList α (Option (Option Nat × Option Nat))
  | 0, j, previous, current => do
    let _ ← next INT_MAX j
    pure (some (previous, current))
  | left + 1, j, _, current => do
    let j ← next INT_MAX j
    if current = none then pure none
    else removeLoop left j current (← node current).next

/-- The index is not one of the list. -/
def outOfRange (i : CInt) (list : LinkedList) : Prop := i.toInt < 0 ∨ (list.length : Int) ≤ i.toInt

instance (i : CInt) (list : LinkedList) : Decidable (outOfRange i list) :=
  inferInstanceAs (Decidable (_ ∨ _))

/-- `llist_get`. -/
def get (i : CInt) : OnList α (Option α) := do
  if outOfRange i (← fields) then pure none
  else
    match ← getLoop i.toInt.toNat 0 (← fields).head with
    | none => pure none
    | some current => do pure (← node current).element

/-- What `llist_remove` does with a node that is unlinked. -/
def drop (previous current : Option Nat) : OnList α (Option α) := do
  if current = (← fields).tail then
    -- last element
    change fun list => { list with tail := previous }
  let element := (← node current).element
  free current
  change fun list => { list with length := list.length - 1 }
  pure element

/-- `llist_remove`. -/
def remove (i : CInt) : OnList α (Option α) := do
  if outOfRange i (← fields) then pure none
  else
    match ← removeLoop i.toInt.toNat 0 none (← fields).head with
    | none => pure none
    | some (previous, current) => do
      let next := (← node current).next
      if current = (← fields).head then
        -- first element
        change fun list => { list with head := next }
      else setNext previous next
      drop previous current

/-- The loop of `llist_delete`, with fuel. -/
def deleteNodes : (fuel : Nat) → (current : Option Nat) → OnList α Unit
  | _, none => pure ()
  | 0, some _ => outOfFuel
  | fuel + 1, some a => do
    let next := (← node (some a)).next
    free (some a)
    deleteNodes fuel next

/-- `llist_delete`. -/
def delete (fuel : Nat) : OnList α Unit := do deleteNodes fuel (← fields).head

end Llist

/-! ## 3. Calls, and what they mean for a sequence -/

/-- A call on a list, with its arguments. -/
inductive ListCall (α : Type) where
  | add (element : Option α)
  | get (i : CInt)
  | remove (i : CInt)
  | length

/-- What a call returns. -/
inductive ListResult (α : Type) where
  | int (n : CInt)
  | element (e : Option α)
  | size (n : Nat)

variable {α : Type}

def ListCall.call (alloc : Allocator (Option α)) : ListCall α → OnList α (ListResult α)
  | .add element => do pure (.int (← Llist.add alloc element))
  | .get i => do pure (.element (← Llist.get i))
  | .remove i => do pure (.element (← Llist.remove i))
  | .length => do pure (.size (← Llist.length))

/-- The calls one after another, with what each returns. -/
def runCalls (alloc : Allocator (Option α)) : List (ListCall α) → OnList α (List (ListResult α))
  | [] => pure []
  | call :: calls => do
    let result ← call.call alloc
    let results ← runCalls alloc calls
    pure (result :: results)

/-- The element at an index, or NULL. -/
def elementAt (xs : List (Option α)) (i : CInt) : Option α :=
  if i.toInt < 0 then none else xs[i.toInt.toNat]?.join

/-- The sequence without the element at an index, if there is one. -/
def eraseAt (xs : List (Option α)) (i : CInt) : List (Option α) :=
  if i.toInt < 0 then xs else xs.eraseIdx i.toInt.toNat

/-- What a call returns and does, as far as the sequence is concerned. -/
def ListCall.onSequence : ListCall α → List (Option α) → ListResult α × List (Option α)
  | .add element, xs => (.int LLIST_OK, xs ++ [element])
  | .get i, xs => (.element (elementAt xs i), xs)
  | .remove i, xs => (.element (elementAt xs i), eraseAt xs i)
  | .length, xs => (.size xs.length, xs)

/-- The calls one after another. -/
def runSequence : List (ListCall α) → List (Option α) → List (ListResult α) × List (Option α)
  | [], xs => ([], xs)
  | call :: calls, xs =>
    let (result, xs) := call.onSequence xs
    let (results, xs) := runSequence calls xs
    (result :: results, xs)

/-! ## 4. The nodes of a list -/

/-- **The invariant**: the list has the nodes `cells`, in a heap that was `base` without them. -/
structure Represents (base : Cells (Option α)) (cells : List (Nat × Option α)) (w : ListWorld α) :
    Prop where
  chain : Chain w.heap w.list.head cells none
  distinct : (cells.map Prod.fst).Nodup
  length : w.list.length = cells.length
  tail : w.list.tail = (cells.map Prod.fst).getLast?
  new : ∀ a ∈ cells.map Prod.fst, base.cell a = none
  others : ∀ a ∉ cells.map Prod.fst, w.heap.cell a = base.cell a

/-- The list is empty exactly if it has no first node. -/
theorem Represents.head_iff {base : Cells (Option α)} {cells : List (Nat × Option α)}
    {w : ListWorld α} (h : Represents base cells w) : w.list.head = none ↔ w.list.length = 0 := by
  rw [h.chain.head_eq, h.length, List.head?_eq_none_iff, List.map_eq_nil_iff,
    List.length_eq_zero_iff]

theorem create_represents (base : Cells (Option α)) (allocated : Nat) :
    Represents base [] ⟨base, Llist.create, allocated⟩ where
  chain := rfl
  distinct := List.nodup_nil
  length := rfl
  tail := rfl
  new _ h := absurd h List.not_mem_nil
  others _ _ := rfl

/-- A position in a list. -/
theorem split_at {γ : Type} {xs : List γ} {k : Nat} (hk : k < xs.length) :
    ∃ before x after, xs = before ++ x :: after ∧ before.length = k := by
  refine ⟨xs.take k, xs[k], xs.drop (k + 1), ?_, List.length_take_of_le (Nat.le_of_lt hk)⟩
  rw [← List.drop_eq_getElem_cons hk, List.take_append_drop]

namespace Llist

section Nodes

variable {w : ListWorld α} {a : Nat} {c : Cell (Option α)}

theorem node_done (h : w.heap.cell a = some c) : node (some a) w = .done c w := by
  unfold node
  rw [Option.bind_some, h]

theorem setNext_done (h : w.heap.cell a = some c) (next : Option Nat) :
    setNext (some a) next w = .done () { w with heap := w.heap.put a { c with next } } := by
  unfold setNext
  rw [bind_done (node_done h)]
  rfl

theorem free_done (h : w.heap.cell a = some c) :
    free (some a) w = .done () { w with heap := w.heap.erase a } := by
  unfold free
  rw [bind_done (node_done h)]
  rfl

theorem bind_fields {β : Type} (f : LinkedList → OnList α β) (w : ListWorld α) :
    (fields >>= f) w = f w.list w := rfl

theorem bind_change {β : Type} (g : LinkedList → LinkedList) (f : Unit → OnList α β)
    (w : ListWorld α) : (change g >>= f) w = f () { w with list := g w.list } := rfl

/-- The loop of `llist_get` goes over the nodes of the chain. -/
theorem getLoop_done {before rest : List (Nat × Option α)} {p : Option Nat} {j : Nat}
    (h : Chain w.heap p (before ++ rest) none) (hj : j + before.length ≤ INT_MAX) :
    ∃ m, Chain w.heap m rest none ∧ getLoop before.length j p w = .done (some m) w := by
  induction before generalizing p j with
  | nil => exact ⟨p, h, rfl⟩
  | cons c before ih =>
    obtain ⟨a, x⟩ := c
    obtain ⟨rfl, next, hcell, hrest⟩ := h
    rw [List.length_cons] at hj
    obtain ⟨m, hm, hloop⟩ := ih (j := j + 1) hrest (by omega)
    refine ⟨m, hm, ?_⟩
    show (if some a = none then _ else _ : OnList α _) w = _
    rw [if_neg (Option.some_ne_none a), bind_done (node_done hcell), next_of_lt (by omega)]
    exact hloop

/-- That of `llist_remove` too, and comes to the test that ends it. -/
theorem removeLoop_reaches {before rest : List (Nat × Option α)} {p : Option Nat} {j : Nat}
    (h : Chain w.heap p (before ++ rest) none) (hj : j + before.length ≤ INT_MAX)
    (previous : Option Nat) :
    ∃ m, Chain w.heap m rest none ∧ removeLoop before.length j previous p w =
      removeLoop 0 (j + before.length) ((before.map Prod.fst).getLast?.or previous) m w := by
  induction before generalizing p j previous with
  | nil => exact ⟨p, h, rfl⟩
  | cons c before ih =>
    obtain ⟨a, x⟩ := c
    obtain ⟨rfl, next, hcell, hrest⟩ := h
    rw [List.length_cons] at hj
    obtain ⟨m, hm, hloop⟩ := ih (j := j + 1) hrest (by omega) (some a)
    refine ⟨m, hm, ?_⟩
    have hnext : (Run.next INT_MAX j : OnList α Nat) w = .done (j + 1) w := by
      rw [next_of_lt (by omega)]
      rfl
    show (Run.next INT_MAX j >>= fun j =>
      if some a = none then _ else _ : OnList α _) w = _
    rw [bind_done hnext, if_neg (Option.some_ne_none a), bind_done (node_done hcell), hloop,
      List.length_cons, List.map_cons, List.getLast?_cons, Nat.add_right_comm, Nat.add_assoc]
    cases (before.map Prod.fst).getLast? <;> rfl

/-- The test that ends the loop. -/
theorem removeLoop_ends {j : Nat} (hj : j < INT_MAX) (previous current : Option Nat) :
    removeLoop 0 j previous current w = .done (some (previous, current)) w := by
  unfold removeLoop
  rw [next_of_lt hj]
  rfl

/-- Counting past `INT_MAX`. -/
theorem removeLoop_rejects (previous current : Option Nat) :
    Rejects (removeLoop 0 INT_MAX previous current) w := by
  unfold removeLoop
  rw [next_of_le (Nat.le_refl _)]
  exact (rejects_undefined w).bind

end Nodes

/-! ## 5. The functions on a list -/

section Functions

variable {base : Cells (Option α)} {cells : List (Nat × Option α)} {w : ListWorld α}

theorem toInt_le (i : CInt) : i.toInt ≤ INT_MAX := by
  have hlt := BitVec.two_mul_toInt_lt (x := i)
  unfold INT_MAX
  omega

theorem outOfRange_elementAt {i : CInt} (h : Represents base cells w) (hi : outOfRange i w.list) :
    elementAt (cells.map Prod.snd) i = none ∧
      eraseAt (cells.map Prod.snd) i = cells.map Prod.snd := by
  unfold elementAt eraseAt
  rcases hi with hneg | hlarge
  · rw [if_pos hneg, if_pos hneg]
    exact ⟨rfl, rfl⟩
  · rw [h.length] at hlarge
    have hlength : (cells.map Prod.snd).length ≤ i.toInt.toNat := by
      rw [List.length_map]
      omega
    rw [List.getElem?_eq_none hlength, List.eraseIdx_of_length_le hlength]
    exact ⟨ite_self _, ite_self _⟩

/-- An index of the list: the node it names. -/
theorem inRange_elementAt {i : CInt} (h : Represents base cells w) (hi : ¬outOfRange i w.list) :
    ∃ before a x after, cells = before ++ (a, x) :: after ∧ before.length = i.toInt.toNat ∧
      elementAt (cells.map Prod.snd) i = x ∧
      eraseAt (cells.map Prod.snd) i = (before ++ after).map Prod.snd := by
  obtain ⟨hneg, hlarge⟩ := not_or.mp hi
  rw [h.length] at hlarge
  have hindex : i.toInt.toNat < cells.length := by omega
  obtain ⟨before, c, after, rfl, hlength⟩ := split_at hindex
  obtain ⟨a, x⟩ := c
  refine ⟨before, a, x, after, rfl, hlength, ?_, ?_⟩
  · unfold elementAt
    rw [if_neg hneg, List.map_append, List.getElem?_append_right (by rw [List.length_map]; omega),
      List.length_map, hlength, Nat.sub_self]
    rfl
  · unfold eraseAt
    rw [if_neg hneg, List.map_append, List.eraseIdx_append_of_length_le
      (by rw [List.length_map]; omega), List.length_map, hlength, Nat.sub_self, List.map_append]
    rfl

theorem get_represents (h : Represents base cells w) (i : CInt) :
    get i w = .done (elementAt (cells.map Prod.snd) i) w := by
  unfold get
  rw [bind_fields]
  by_cases hi : outOfRange i w.list
  · rw [if_pos hi, (outOfRange_elementAt h hi).1]
    rfl
  · obtain ⟨before, a, x, after, rfl, hlength, helement, -⟩ := inRange_elementAt h hi
    have hbefore : 0 + before.length ≤ INT_MAX := by
      have hmax := toInt_le i
      omega
    obtain ⟨m, ⟨rfl, next, hcell, -⟩, hloop⟩ := getLoop_done h.chain hbefore
    rw [if_neg hi, bind_fields, ← hlength, bind_done hloop, helement]
    exact bind_done (node_done hcell)

theorem length_represents (h : Represents base cells w) :
    length w = .done (cells.map Prod.snd).length w := by
  unfold length
  rw [bind_fields, h.length, List.length_map]
  rfl

section Add

variable {alloc : Allocator (Option α)} {element : Option α} {a b : Nat}

theorem newNode_done (hb : alloc.choose w.allocated w.heap = b) :
    newNode alloc element w = .done (some b)
      ⟨w.heap.put b ⟨element, none⟩, w.list, w.allocated + 1⟩ := by
  subst hb
  rfl

/-- The first node. -/
theorem add_first (hb : alloc.choose w.allocated w.heap = b) (hhead : w.list.head = none) :
    add alloc element w = .done LLIST_OK
      ⟨w.heap.put b ⟨element, none⟩, ⟨w.list.length + 1, some b, some b⟩, w.allocated + 1⟩ := by
  unfold add
  rw [bind_done (newNode_done hb), bind_fields]
  dsimp only
  rw [if_pos hhead]
  rfl

/-- A node behind the last one, `a`. -/
theorem add_behind {c : Cell (Option α)} (hb : alloc.choose w.allocated w.heap = b)
    (hhead : w.list.head ≠ none) (htail : w.list.tail = some a)
    (hcell : (w.heap.put b ⟨element, none⟩).cell a = some c) :
    add alloc element w = .done LLIST_OK
      ⟨(w.heap.put b ⟨element, none⟩).put a { c with next := some b },
        ⟨w.list.length + 1, w.list.head, some b⟩, w.allocated + 1⟩ := by
  unfold add
  rw [bind_done (newNode_done hb), bind_fields]
  dsimp only
  rw [if_neg hhead, bind_fields]
  dsimp only
  rw [htail, bind_done (setNext_done hcell (some b))]
  rfl

/-- A fresh node behind the others makes a longer list. -/
theorem Represents.added {w' : ListWorld α} (h : Represents base cells w)
    (hfresh : w.heap.cell b = none)
    (hchain : Chain w'.heap w'.list.head (cells ++ [(b, element)]) none)
    (hlist : w'.list.length = w.list.length + 1 ∧ w'.list.tail = some b)
    (hothers : ∀ c ∉ (cells ++ [(b, element)]).map Prod.fst, w'.heap.cell c = w.heap.cell c) :
    Represents base (cells ++ [(b, element)]) w' := by
  have hnew := h.chain.not_mem hfresh
  have haddresses : (cells ++ [(b, element)]).map Prod.fst = cells.map Prod.fst ++ [b] :=
    List.map_append ..
  rw [haddresses] at hothers
  refine ⟨hchain, ?_, ?_, ?_, ?_, ?_⟩
  · rw [haddresses]
    refine List.nodup_append.mpr ⟨h.distinct, List.nodup_singleton b, fun a ha b' hb' heq => ?_⟩
    rw [heq, List.mem_singleton.mp hb'] at ha
    exact hnew ha
  · rw [hlist.1, h.length, List.length_append]
    rfl
  · rw [hlist.2, haddresses, List.getLast?_concat]
  · intro a ha
    rw [haddresses, List.mem_append] at ha
    rcases ha with hold | hlast
    · exact h.new a hold
    · rw [List.mem_singleton.mp hlast]
      exact (h.others b hnew).symm.trans hfresh
  · intro c hc
    rw [haddresses] at hc
    rw [hothers c hc]
    exact h.others c fun hold => hc (List.mem_append_left _ hold)

/-- **`llist_add`**: a node of its own behind the last. -/
theorem add_represents (h : Represents base cells w) (alloc : Allocator (Option α))
    (element : Option α) : ∃ b w', add alloc element w = .done LLIST_OK w' ∧
      Represents base (cells ++ [(b, element)]) w' := by
  obtain ⟨b, hb⟩ : ∃ b, alloc.choose w.allocated w.heap = b := ⟨_, rfl⟩
  have hfresh : w.heap.cell b = none := hb ▸ alloc.fresh w.allocated w.heap
  rcases List.eq_nil_or_concat' cells with rfl | ⟨before, ⟨a, x⟩, rfl⟩
  · -- the first node: `head` goes to it
    refine ⟨b, _, add_first hb h.chain, ?_⟩
    refine Represents.added h hfresh ⟨rfl, none, Cells.put_self .., rfl⟩ ⟨rfl, rfl⟩ fun c hc => ?_
    have hcb : c ≠ b := fun heq => hc (List.mem_singleton.mpr heq)
    exact Cells.put_of_ne _ hcb _
  · -- a later one: the last node goes to it
    obtain ⟨m, -, rfl, last, hcell, rfl⟩ := chain_append.mp h.chain
    have hab : a ≠ b := by
      intro heq
      rw [heq, hfresh] at hcell
      cases hcell
    have hlast : w.list.tail = some a := by
      rw [h.tail, List.map_append, List.map_singleton, List.getLast?_concat]
    have hhead : w.list.head ≠ none := by
      rw [Ne, h.head_iff, h.length, List.length_append]
      exact Nat.succ_ne_zero _
    have hcell' : (w.heap.put b ⟨element, none⟩).cell a = some ⟨x, none⟩ := by
      rw [Cells.put_of_ne _ hab]
      exact hcell
    have hchain := h.chain.concat h.distinct hfresh element
    refine ⟨b, _, add_behind hb hhead hlast hcell', ?_⟩
    refine Represents.added h hfresh hchain ⟨rfl, rfl⟩ fun c hc => ?_
    rw [List.map_append, List.mem_append, not_or, List.map_append, List.mem_append, not_or] at hc
    have hca : c ≠ a := fun heq => hc.1.2 (heq ▸ List.mem_cons_self)
    have hcb : c ≠ b := fun heq => hc.2 (heq ▸ List.mem_cons_self)
    exact (Cells.put_of_ne _ hca _).trans (Cells.put_of_ne _ hcb _)

end Add

section Remove

variable {previous : Option Nat} {a b : Nat}

theorem drop_done {c : Cell (Option α)} (hcell : w.heap.cell a = some c) :
    drop previous (some a) w = .done c.element
      ⟨w.heap.erase a, ⟨w.list.length - 1, w.list.head,
        if some a = w.list.tail then previous else w.list.tail⟩, w.allocated⟩ := by
  have hrest : ∀ list, (do
      let element := (← node (some a)).element
      free (some a)
      change fun list => { list with length := list.length - 1 }
      pure element : OnList α (Option α)) ⟨w.heap, list, w.allocated⟩ = .done c.element
        ⟨w.heap.erase a, { list with length := list.length - 1 }, w.allocated⟩ := by
    intro list
    have hcell' : (⟨w.heap, list, w.allocated⟩ : ListWorld α).heap.cell a = some c := hcell
    rw [bind_done (node_done hcell'), bind_done (free_done hcell')]
    rfl
  unfold drop
  rw [bind_fields]
  dsimp only
  by_cases htail : some a = w.list.tail
  · rw [if_pos htail, if_pos htail, bind_change]
    exact hrest _
  · rw [if_neg htail, if_neg htail]
    exact hrest _

/-- The loop comes to a node, and counts past its index. -/
theorem remove_found {before after : List (Nat × Option α)} {x : Option α} {i : CInt}
    (h : Represents base (before ++ (a, x) :: after) w)
    (hlength : before.length = i.toInt.toNat) (hmax : before.length < INT_MAX) :
    removeLoop i.toInt.toNat 0 none w.list.head w =
      .done (some ((before.map Prod.fst).getLast?, some a)) w := by
  have hbefore : 0 + before.length ≤ INT_MAX := by omega
  obtain ⟨m, ⟨rfl, -⟩, hloop⟩ := removeLoop_reaches h.chain hbefore none
  rw [← hlength, hloop, Nat.zero_add, removeLoop_ends hmax, Option.or_none]

/-- The first node. -/
theorem remove_first {i : CInt} {c : Cell (Option α)} (hi : ¬outOfRange i w.list)
    (hfound : removeLoop i.toInt.toNat 0 none w.list.head w = .done (some (previous, some a)) w)
    (hhead : some a = w.list.head) (hcell : w.heap.cell a = some c) :
    remove i w = .done c.element
      ⟨w.heap.erase a, ⟨w.list.length - 1, c.next,
        if some a = w.list.tail then previous else w.list.tail⟩, w.allocated⟩ := by
  unfold remove
  rw [bind_fields, if_neg hi, bind_fields, bind_done hfound]
  dsimp only
  rw [bind_done (node_done hcell), bind_fields]
  show (if some a = w.list.head then _ else _ : OnList α _) w = _
  rw [if_pos hhead, bind_change]
  exact drop_done (w := { w with list := { w.list with head := c.next } }) hcell

/-- A node behind another one, `b`. -/
theorem remove_behind {i : CInt} {c d : Cell (Option α)} (hi : ¬outOfRange i w.list)
    (hfound : removeLoop i.toInt.toNat 0 none w.list.head w = .done (some (some b, some a)) w)
    (hhead : some a ≠ w.list.head) (hcella : w.heap.cell a = some c)
    (hcellb : w.heap.cell b = some d) (hab : a ≠ b) :
    remove i w = .done c.element
      ⟨(w.heap.put b { d with next := c.next }).erase a, ⟨w.list.length - 1, w.list.head,
        if some a = w.list.tail then some b else w.list.tail⟩, w.allocated⟩ := by
  have hcella' : (w.heap.put b { d with next := c.next }).cell a = some c := by
    rw [Cells.put_of_ne _ hab]
    exact hcella
  unfold remove
  rw [bind_fields, if_neg hi, bind_fields, bind_done hfound]
  dsimp only
  rw [bind_done (node_done hcella), bind_fields]
  show (if some a = w.list.head then _ else _ : OnList α _) w = _
  rw [if_neg hhead, bind_done (setNext_done hcellb c.next)]
  exact drop_done (w := { w with heap := w.heap.put b { d with next := c.next } }) hcella'

/-- The last of the nodes that stay. -/
theorem getLast?_removed {before after : List Nat} (h : (before ++ a :: after).Nodup) :
    (if some a = (before ++ a :: after).getLast? then before.getLast?
      else (before ++ a :: after).getLast?) = (before ++ after).getLast? := by
  rcases List.eq_nil_or_concat' after with rfl | ⟨init, z, rfl⟩
  · rw [List.getLast?_concat, if_pos rfl, List.append_nil]
  · have hlast : (before ++ a :: (init ++ [z])).getLast? = some z := by
      rw [← List.cons_append, ← List.append_assoc, List.getLast?_concat]
    have hne : some a ≠ some z := by
      intro heq
      cases heq
      have hafter := (List.nodup_append.mp h).2.1
      exact (List.nodup_cons.mp hafter).1 (List.mem_append_right _ List.mem_cons_self)
    rw [hlast, if_neg hne, ← List.append_assoc, List.getLast?_concat]

/-- A node with others before it is not the first. -/
theorem ne_head? {before after : List Nat} (h : (before ++ a :: after).Nodup) (hne : before ≠ []) :
    some a ≠ (before ++ a :: after).head? := by
  cases before with
  | nil => exact absurd rfl hne
  | cons c before =>
    intro heq
    cases heq
    exact (List.nodup_cons.mp h).1 (List.mem_append_right _ List.mem_cons_self)

/-- The list without a node is represented by the others. -/
theorem Represents.removed (before : List (Nat × Option α)) {after : List (Nat × Option α)}
    {x : Option α} {w' : ListWorld α} (h : Represents base (before ++ (a, x) :: after) w)
    (hchain : Chain w'.heap w'.list.head (before ++ after) none)
    (hlist : w'.list.length = w.list.length - 1 ∧ w'.list.tail =
      if some a = w.list.tail then (before.map Prod.fst).getLast? else w.list.tail)
    (hremoved : w'.heap.cell a = none)
    (hothers : ∀ c ∉ (before ++ (a, x) :: after).map Prod.fst, w'.heap.cell c = w.heap.cell c) :
    Represents base (before ++ after) w' := by
  have haddresses : (before ++ (a, x) :: after).map Prod.fst =
      before.map Prod.fst ++ a :: after.map Prod.fst := List.map_append ..
  have hdistinct := h.distinct
  have hnew := h.new
  rw [haddresses] at hdistinct hnew hothers
  have hsub : (before ++ after).map Prod.fst =
      before.map Prod.fst ++ after.map Prod.fst := List.map_append ..
  refine ⟨hchain, ?_, ?_, ?_, ?_, ?_⟩
  · rw [hsub]
    exact hdistinct.sublist (List.Sublist.append_left (List.sublist_cons_self _ _) _)
  · rw [hlist.1, h.length, List.length_append, List.length_append, List.length_cons]
    omega
  · rw [hlist.2, h.tail, haddresses, hsub, getLast?_removed hdistinct]
  · intro c hc
    rw [hsub, List.mem_append] at hc
    exact hnew c (List.mem_append.mpr (hc.imp id (List.mem_cons_of_mem _)))
  · intro c hc
    rw [hsub, List.mem_append, not_or] at hc
    by_cases hca : c = a
    · rw [hca, hremoved]
      exact (hnew a (List.mem_append_right _ List.mem_cons_self)).symm
    · have hold : c ∉ before.map Prod.fst ++ a :: after.map Prod.fst := by
        rw [List.mem_append, List.mem_cons, not_or, not_or]
        exact ⟨hc.1, hca, hc.2⟩
      rw [hothers c hold]
      exact h.others c (haddresses ▸ hold)

/-- The first node is taken out: `head` goes to the next one. -/
theorem remove_head {x : Option α} {i : CInt} (h : Represents base ((a, x) :: cells) w)
    (hi : ¬outOfRange i w.list)
    (hfound : removeLoop i.toInt.toNat 0 none w.list.head w = .done (some (none, some a)) w) :
    ∃ w', remove i w = .done x w' ∧ Represents base cells w' := by
  have hhead : some a = w.list.head := h.chain.1.symm
  obtain ⟨next, hcell, hafter⟩ := h.chain.tail h.distinct
  refine ⟨_, remove_first hi hfound hhead hcell, ?_⟩
  refine Represents.removed [] h hafter ⟨rfl, rfl⟩ (Cells.erase_self ..) fun c hc => ?_
  exact Cells.erase_of_ne _ fun heq => hc (heq ▸ List.mem_cons_self)

/-- A later one is taken out: the node before it goes to the next one. -/
theorem remove_later {init after : List (Nat × Option α)} {x y : Option α} {i : CInt}
    (h : Represents base (init ++ [(b, y)] ++ (a, x) :: after) w) (hi : ¬outOfRange i w.list)
    (hfound : removeLoop i.toInt.toNat 0 none w.list.head w = .done (some (some b, some a)) w) :
    ∃ w', remove i w = .done x w' ∧ Represents base (init ++ [(b, y)] ++ after) w' := by
  have hhead : some a ≠ w.list.head := by
    have hnodup := h.distinct
    rw [List.map_append, List.map_cons] at hnodup
    rw [h.chain.head_eq, List.map_append, List.map_cons]
    exact ne_head? hnodup (List.map_eq_nil_iff.not.mpr
      (List.append_ne_nil_of_right_ne_nil _ (List.cons_ne_nil _ _)))
  have hchain := h.chain
  have hdistinct := h.distinct
  rw [List.append_assoc] at hchain hdistinct
  obtain ⟨next, hcellb, hcella, hrest⟩ := hchain.unlink hdistinct
  rw [List.map_append, List.nodup_append] at hdistinct
  have hab : a ≠ b := fun heq =>
    (List.nodup_cons.mp hdistinct.2.1).1 (heq ▸ List.mem_cons_self)
  have hprevious : ((init ++ [(b, y)]).map Prod.fst).getLast? = some b := by
    rw [List.map_append, List.map_singleton, List.getLast?_concat]
  refine ⟨_, remove_behind hi hfound hhead hcella hcellb hab, ?_⟩
  refine Represents.removed _ h ?_ ⟨rfl, by rw [hprevious]⟩ (Cells.erase_self ..) fun c hc => ?_
  · rw [List.append_assoc]
    exact hrest
  · rw [List.map_append, List.mem_append, not_or, List.map_append, List.mem_append, not_or] at hc
    have hcb : c ≠ b := fun heq => hc.1.2 (heq ▸ List.mem_cons_self)
    have hca : c ≠ a := fun heq => hc.2 (heq ▸ List.mem_cons_self)
    exact (Cells.erase_of_ne _ hca).trans (Cells.put_of_ne _ hcb _)

/-- **`llist_remove`**: the node at the index is taken out, and only it, unless the counter would go
    past `INT_MAX`. -/
theorem remove_represents (h : Represents base cells w) {i : CInt}
    (hcounts : i.toInt = INT_MAX → cells.length ≤ INT_MAX) :
    ∃ cells' w', remove i w = .done (elementAt (cells.map Prod.snd) i) w' ∧
      Represents base cells' w' ∧
      cells'.map Prod.snd = eraseAt (cells.map Prod.snd) i := by
  by_cases hi : outOfRange i w.list
  · obtain ⟨helement, hsame⟩ := outOfRange_elementAt h hi
    refine ⟨cells, w, ?_, h, hsame.symm⟩
    unfold remove
    rw [bind_fields, if_pos hi, helement]
    rfl
  · obtain ⟨before, a, x, after, rfl, hlength, helement, hsame⟩ := inRange_elementAt h hi
    have hmax : before.length < INT_MAX := by
      have hle := toInt_le i
      have hneg := (not_or.mp hi).1
      rw [List.length_append, List.length_cons] at hcounts
      omega
    have hfound := remove_found h hlength hmax
    rw [helement, hsame]
    rcases List.eq_nil_or_concat' before with rfl | ⟨init, ⟨b, y⟩, rfl⟩
    · obtain ⟨w', hrun, h'⟩ := remove_head h hi hfound
      exact ⟨after, w', hrun, h', rfl⟩
    · rw [List.map_append, List.map_singleton, List.getLast?_concat] at hfound
      obtain ⟨w', hrun, h'⟩ := remove_later h hi hfound
      exact ⟨_, w', hrun, h', rfl⟩

/-- With more than `INT_MAX` elements the last index of an `int` is not reached. -/
theorem remove_rejects (h : Represents base cells w) {i : CInt} (hi : i.toInt = INT_MAX)
    (hlong : INT_MAX < cells.length) : Rejects (remove i) w := by
  have hrange : ¬outOfRange i w.list := by
    unfold outOfRange
    rw [h.length]
    omega
  obtain ⟨before, a, x, after, rfl, hlength, -⟩ := inRange_elementAt h hrange
  have hbefore : before.length = INT_MAX := by omega
  have hle : 0 + before.length ≤ INT_MAX := by omega
  obtain ⟨m, -, hloop⟩ := removeLoop_reaches h.chain hle none
  have hrejects : Rejects (removeLoop i.toInt.toNat 0 none w.list.head) w := by
    intro nodes w' hrun
    rw [← hlength, hloop, Nat.zero_add, hbefore] at hrun
    exact removeLoop_rejects _ _ nodes w' hrun
  intro element w' hrun
  unfold remove at hrun
  rw [bind_fields, if_neg hrange, bind_fields] at hrun
  exact hrejects.bind element w' hrun

end Remove

/-- The loop of `llist_delete` frees the nodes of the chain and no others. -/
theorem deleteNodes_done {p : Option Nat} (hchain : Chain w.heap p cells none)
    (hdistinct : (cells.map Prod.fst).Nodup) {fuel : Nat} (hfuel : cells.length ≤ fuel) :
    ∃ w', deleteNodes fuel p w = .done () w' ∧ (∀ a ∈ cells.map Prod.fst, w'.heap.cell a = none) ∧
      ∀ a ∉ cells.map Prod.fst, w'.heap.cell a = w.heap.cell a := by
  induction cells generalizing p w fuel with
  | nil =>
    cases hchain
    refine ⟨w, ?_, fun a ha => absurd ha List.not_mem_nil, fun a _ => rfl⟩
    unfold deleteNodes
    rfl
  | cons c cells ih =>
    obtain ⟨a, x⟩ := c
    have hp : p = some a := hchain.1
    subst hp
    obtain ⟨next, hcell, hafter⟩ := hchain.tail hdistinct
    cases fuel with
    | zero => exact absurd hfuel (Nat.not_succ_le_zero _)
    | succ fuel =>
      obtain ⟨w', hrun, hfreed, hothers⟩ := ih (w := { w with heap := w.heap.erase a }) hafter
        (List.nodup_cons.mp hdistinct).2 (Nat.le_of_succ_le_succ hfuel)
      refine ⟨w', ?_, fun b hb => ?_, fun b hb => ?_⟩
      · unfold deleteNodes
        rw [bind_done (node_done hcell), bind_done (free_done hcell)]
        exact hrun
      · rcases List.mem_cons.mp hb with rfl | hmem
        · rw [hothers _ (List.nodup_cons.mp hdistinct).1]
          exact Cells.erase_self ..
        · exact hfreed b hmem
      · have hb := not_or.mp (List.mem_cons.not.mp hb)
        rw [hothers b hb.2]
        exact Cells.erase_of_ne _ hb.1

/-- **`llist_delete`** frees the nodes of the list, and leaves the heap as it was at the start. -/
theorem delete_represents (h : Represents base cells w) {fuel : Nat} (hfuel : cells.length ≤ fuel) :
    ∃ w', delete fuel w = .done () w' ∧ ∀ a, w'.heap.cell a = base.cell a := by
  obtain ⟨w', hrun, hfreed, hothers⟩ := deleteNodes_done h.chain h.distinct hfuel
  refine ⟨w', hrun, fun a => ?_⟩
  by_cases ha : a ∈ cells.map Prod.fst
  · rw [hfreed a ha, h.new a ha]
  · rw [hothers a ha, h.others a ha]

end Functions

end Llist

/-! ## 6. Runs -/

/-- No call is to remove the element at `INT_MAX`, the last index of an `int`, from a list that has
    one there. -/
def ListCall.Counts : ListCall α → List (Option α) → Prop
  | .remove i, xs => i.toInt = INT_MAX → xs.length ≤ INT_MAX
  | _, _ => True

/-- The same of the calls one after another. -/
def Counted : List (ListCall α) → List (Option α) → Prop
  | [], _ => True
  | call :: calls, xs => call.Counts xs ∧ Counted calls (call.onSequence xs).2

theorem counted_append {first rest : List (ListCall α)} {xs : List (Option α)} :
    Counted (first ++ rest) xs ↔ Counted first xs ∧ Counted rest (runSequence first xs).2 := by
  induction first generalizing xs with
  | nil =>
    show Counted rest xs ↔ True ∧ Counted rest xs
    rw [true_and]
  | cons call first ih =>
    show call.Counts xs ∧ Counted (first ++ rest) _ ↔ (call.Counts xs ∧ Counted first _) ∧ _
    rw [ih, and_assoc]
    rfl

section Runs

variable (alloc : Allocator (Option α)) {base : Cells (Option α)} {cells : List (Nat × Option α)}
  {w : ListWorld α}

/-- **One call: what the sequence says.** -/
theorem call_represents (h : Represents base cells w) {call : ListCall α}
    (hcounts : call.Counts (cells.map Prod.snd)) :
    ∃ cells' w', call.call alloc w = .done (call.onSequence (cells.map Prod.snd)).1 w' ∧
      Represents base cells' w' ∧
      cells'.map Prod.snd = (call.onSequence (cells.map Prod.snd)).2 := by
  cases call with
  | add element =>
    obtain ⟨b, w', hrun, h'⟩ := Llist.add_represents h alloc element
    exact ⟨_, w', bind_done hrun, h', List.map_append ..⟩
  | get i => exact ⟨cells, w, bind_done (Llist.get_represents h i), h, rfl⟩
  | remove i =>
    have hindex : i.toInt = INT_MAX → cells.length ≤ INT_MAX := by
      rw [← List.length_map Prod.snd]
      exact hcounts
    obtain ⟨cells', w', hrun, h', hsame⟩ := Llist.remove_represents h hindex
    exact ⟨cells', w', bind_done hrun, h', hsame⟩
  | length => exact ⟨cells, w, bind_done (Llist.length_represents h), h, rfl⟩

/-- The other calls do not return. -/
theorem call_rejects (h : Represents base cells w) {call : ListCall α}
    (hcounts : ¬call.Counts (cells.map Prod.snd)) : Rejects (call.call alloc) w := by
  cases call with
  | remove i =>
    obtain ⟨hi, hlong⟩ := Classical.not_imp.mp hcounts
    rw [List.length_map] at hlong
    exact (Llist.remove_rejects h hi (Nat.lt_of_not_le hlong)).bind
  | add element => exact absurd trivial hcounts
  | get i => exact absurd trivial hcounts
  | length => exact absurd trivial hcounts

/-- **A sequence of calls: what the sequence says.** -/
theorem runCalls_represents (h : Represents base cells w) {calls : List (ListCall α)}
    (hcounted : Counted calls (cells.map Prod.snd)) :
    ∃ cells' w', runCalls alloc calls w =
        .done (runSequence calls (cells.map Prod.snd)).1 w' ∧
      Represents base cells' w' ∧
      cells'.map Prod.snd = (runSequence calls (cells.map Prod.snd)).2 := by
  induction calls generalizing cells w with
  | nil => exact ⟨cells, w, rfl, h, rfl⟩
  | cons call calls ih =>
    obtain ⟨cells₁, w₁, hcall, h₁, hsame₁⟩ := call_represents alloc h hcounted.1
    have hcounted₁ := hcounted.2
    rw [← hsame₁] at hcounted₁
    obtain ⟨cells₂, w₂, hrun, h₂, hsame₂⟩ := ih h₁ hcounted₁
    rw [hsame₁] at hrun hsame₂
    refine ⟨cells₂, w₂, ?_, h₂, hsame₂⟩
    unfold runCalls
    rw [bind_done hcall, bind_done hrun]
    rfl

/-- A sequence with one of the other calls does not return. -/
theorem runCalls_rejects (h : Represents base cells w) {calls : List (ListCall α)}
    (hcounted : ¬Counted calls (cells.map Prod.snd)) : Rejects (runCalls alloc calls) w := by
  induction calls generalizing cells w with
  | nil => exact absurd trivial hcounted
  | cons call calls ih =>
    unfold runCalls
    by_cases hcounts : call.Counts (cells.map Prod.snd)
    · obtain ⟨cells₁, w₁, hcall, h₁, hsame₁⟩ := call_represents alloc h hcounts
      have hrest : ¬Counted calls (cells₁.map Prod.snd) := by
        rw [hsame₁]
        exact fun hcalls => hcounted ⟨hcounts, hcalls⟩
      intro results w' hrun
      rw [bind_done hcall] at hrun
      exact (ih h₁ hrest).bind results w' hrun
    · exact (call_rejects alloc h hcounts).bind

end Runs

/-- After `llist_create` and each of the calls, whatever addresses their nodes get: the calls have
    returned what the sequence says, `next` leads from `head` through `length` distinct nodes with
    the elements of the sequence to NULL, `head` is NULL exactly if there are none, and `tail` is
    the last of them. -/
def RefinesSequence (alloc : Allocator (Option α)) (base : Cells (Option α)) (allocated : Nat)
    (calls : List (ListCall α)) : Prop :=
  ∀ first, first <+: calls → ∃ cells w,
    runCalls alloc first ⟨base, Llist.create, allocated⟩ = .done (runSequence first []).1 w ∧
      cells.map Prod.snd = (runSequence first []).2 ∧
      Chain w.heap w.list.head cells none ∧ (cells.map Prod.fst).Nodup ∧
      cells.length = w.list.length ∧ (w.list.head = none ↔ w.list.length = 0) ∧
      (w.list.length ≠ 0 → w.list.tail = (cells.map Prod.fst).getLast?)

theorem refinesSequence_of_counted {alloc : Allocator (Option α)} {base : Cells (Option α)}
    {allocated : Nat} {calls : List (ListCall α)} (hcounted : Counted calls []) :
    RefinesSequence alloc base allocated calls := by
  intro first hfirst
  obtain ⟨rest, rfl⟩ := hfirst
  have hcreate := create_represents base allocated
  have hfirst := (counted_append.mp hcounted).1
  obtain ⟨cells, w, hrun, h, hsame⟩ := runCalls_represents alloc hcreate hfirst
  exact ⟨cells, w, hrun, hsame, h.chain, h.distinct, h.length.symm, h.head_iff, fun _ => h.tail⟩

theorem not_refinesSequence {alloc : Allocator (Option α)} {base : Cells (Option α)}
    {allocated : Nat} {calls : List (ListCall α)} (hcounted : ¬Counted calls []) :
    ¬RefinesSequence alloc base allocated calls := by
  intro hrefines
  obtain ⟨cells, w, hrun, -⟩ := hrefines calls (List.prefix_refl calls)
  have hcreate := create_represents base allocated
  exact runCalls_rejects alloc hcreate hcounted _ w hrun

/-- **The linked list refines the sequence**, exactly if no call counts past `INT_MAX`. -/
theorem refinesSequence_iff (alloc : Allocator (Option α)) (base : Cells (Option α))
    (allocated : Nat) (calls : List (ListCall α)) :
    RefinesSequence alloc base allocated calls ↔ Counted calls [] :=
  ⟨fun hrefines => by_contra fun hcounted => not_refinesSequence hcounted hrefines,
    refinesSequence_of_counted⟩

/-- Elements added one after another. -/
theorem runSequence_adds (n : Nat) (element : Option α) (xs : List (Option α)) :
    (runSequence (List.replicate n (.add element)) xs).2 = xs ++ List.replicate n element := by
  induction n generalizing xs with
  | zero => exact (List.append_nil xs).symm
  | succ n ih =>
    show (runSequence (List.replicate n (.add element)) (xs ++ [element])).2 = _
    rw [ih, List.append_assoc]
    rfl

/-- 2^31 elements are added, and the last of them is to be removed: `j++` goes past `INT_MAX`. -/
theorem last_index_not_removed :
    ¬RefinesSequence (Allocator.bump (Option Nat)) ⟨fun _ => none, 0, fun _ _ => rfl⟩ 0
      (List.replicate (2 ^ 31) (.add (some 0)) ++ [.remove 0x7FFFFFFF#32]) := by
  refine not_refinesSequence fun hcounted => ?_
  have hlast := (counted_append.mp hcounted).2.1
  rw [runSequence_adds] at hlast
  have hlength := hlast (by decide)
  rw [List.nil_append, List.length_replicate] at hlength
  exact absurd hlength (by decide)

end ArgusPep
