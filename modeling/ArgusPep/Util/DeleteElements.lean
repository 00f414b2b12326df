/-
  File:      ArgusPep/Util/DeleteElements.lean
  Subject:   `llist_delete_elements` of util/linkedlist.c, with its scratch array and its counters.

  The length of the list is a `size_t`, the counters of the three loops and the number of unique
  elements are `int`s. Counting past `INT_MAX` is undefined. The scratch array is granted.

  * `Llist.deleteElements` -- the function, over a list and a second state for the delete function;
  * `scratchOf` -- what the array holds: the unique elements of a list, and NULL behind them;
  * `collect_returns` -- one round of the first loop, `collected` -- the whole of it;
  * `Llist.deleteElements_done` -- up to `INT_MAX` elements, each unique one is deleted, in order;
  * `Llist.deleteElements_rejects` -- with more elements the function does not return.
-/
import ArgusPep.Util.ListCells
import ArgusPep.Util.LinkedList

namespace ArgusPep

open Lib Run

/-! ## 1. The function -/

/-- The local variables `unique_elts` and `unique_elts_l`. -/
structure Scratch (α : Type) where
  uniqueElts : List (Option α)
  uniqueEltsL : Nat

section Function

variable {σ ν α : Type} [DecidableEq α]

/-- `unique_elts[j]`. -/
def Scratch.at (scratch : Scratch α) (j : Nat) : Run σ (Option α) :=
  match scratch.uniqueElts[j]? with
  | some elt => pure elt
  | none => undefined

/-- `unique_elts[unique_elts_l++]= elt`. -/
def Scratch.push (scratch : Scratch α) (elt : Option α) : Run σ (Scratch α) := do
  let uniqueEltsL ← next INT_MAX scratch.uniqueEltsL
  if scratch.uniqueEltsL < scratch.uniqueElts.length then
    pure ⟨scratch.uniqueElts.set scratch.uniqueEltsL elt, uniqueEltsL⟩
  else undefined

/-- The loop over `j`: is `elt` in the array? -/
def duplicated (scratch : Scratch α) (elt : Option α) : Run σ Bool :=
  rounds INT_MAX (fun j duplicated => do
    if elt = (← scratch.at j) then pure true else pure duplicated) scratch.uniqueEltsL 0 false

/-- A round of the first loop. -/
def collect (i : Nat) (scratch : Scratch α) : Run (ListWorld α × ν) (Scratch α) := do
  let elt ← onFst (Llist.get (BitVec.ofNat 32 i))
  -- add elt to elts list if not already included
  if ← duplicated scratch elt then pure scratch else scratch.push elt

/-- A round of the last loop. -/
def deleteUnique (deletef : Option (Option α → Run (ListWorld α × ν) Unit)) (scratch : Scratch α)
    (i : Nat) (_ : Unit) : Run (ListWorld α × ν) Unit := do
  let uniqueElt ← scratch.at i
  match deletef with
  | some deletef => deletef uniqueElt
  | none => pure ()

/-- `llist_delete_elements`. -/
def Llist.deleteElements (deletef : Option (Option α → Run (ListWorld α × ν) Unit)) :
    Run (ListWorld α × ν) CInt := do
  let listL ← onFst Llist.length
  let scratch ← rounds INT_MAX collect listL 0 ⟨List.replicate listL none, 0⟩
  -- apply delete func on unique element
  rounds INT_MAX (deleteUnique deletef scratch) scratch.uniqueEltsL 0 ()
  pure LLIST_OK

end Function

/-- A delete function that only records what it was called with. -/
def recording {ω α γ : Type} (f : Option α → List γ) (elt : Option α) : Run (ω × List γ) Unit :=
  update fun s => (s.1, s.2 ++ f elt)

/-! ## 2. The array -/

section Array

variable {σ ν α : Type} [DecidableEq α]

/-- The unique elements of `elts`, in an array for `n`. -/
def scratchOf (n : Nat) (elts : List (Option α)) : Scratch α :=
  ⟨uniqueElts elts ++ List.replicate (n - (uniqueElts elts).length) none, (uniqueElts elts).length⟩

@[simp] theorem uniqueEltsL_scratchOf (n : Nat) (elts : List (Option α)) :
    (scratchOf n elts).uniqueEltsL = (uniqueElts elts).length := rfl

theorem length_uniqueElts_le (elts : List (Option α)) : (uniqueElts elts).length ≤ elts.length := by
  induction elts using List.reverseRecOn with
  | nil => exact Nat.le_refl _
  | append_singleton elts last ih =>
    rw [uniqueElts_concat]
    split
    · rw [List.length_append]
      omega
    · rw [List.length_append, List.length_append]
      exact Nat.add_le_add_right ih _

theorem at_done {n j : Nat} {elts : List (Option α)} (hj : j < (uniqueElts elts).length) (s : σ) :
    (scratchOf n elts).at j s = .done ((uniqueElts elts)[j]) s := by
  have helt : (scratchOf n elts).uniqueElts[j]? = some ((uniqueElts elts)[j]) := by
    show (uniqueElts elts ++ _)[j]? = _
    rw [List.getElem?_append_left hj, List.getElem?_eq_getElem hj]
  unfold Scratch.at
  rw [helt]
  rfl

theorem mem_take_succ {γ : Type} {xs : List γ} {j : Nat} (hj : j < xs.length) (x : γ) :
    x ∈ xs.take (j + 1) ↔ x = xs[j] ∨ x ∈ xs.take j := by
  rw [List.take_succ_eq_append_getElem hj, List.mem_append, List.mem_singleton, or_comm]

/-- The loop over `j` looks through the unique elements. -/
theorem duplicated_done {n : Nat} {elts : List (Option α)} (hn : elts.length ≤ INT_MAX)
    (elt : Option α) (s : σ) : duplicated (scratchOf n elts) elt s =
      .done (decide (elt ∈ uniqueElts elts)) s := by
  have hle := length_uniqueElts_le elts
  have hloop : Returns (duplicated (scratchOf n elts) elt) s fun d s' =>
      d = decide (elt ∈ (uniqueElts elts).take (0 + (uniqueElts elts).length)) ∧ s' = s := by
    unfold duplicated
    rw [uniqueEltsL_scratchOf]
    refine rounds_returns (I := fun j d s' => d = decide (elt ∈ (uniqueElts elts).take j) ∧ s' = s)
      (by omega) (fun j d s' _ hj h => ?_) ⟨rfl, rfl⟩
    obtain ⟨rfl, rfl⟩ := h
    have hj' : j < (uniqueElts elts).length := by omega
    unfold Returns
    rw [bind_done (at_done hj' s')]
    by_cases heq : elt = (uniqueElts elts)[j]
    · rw [if_pos heq]
      exact ⟨true, s', rfl, (decide_eq_true ((mem_take_succ hj' elt).mpr (.inl heq))).symm, rfl⟩
    · rw [if_neg heq]
      refine ⟨_, s', rfl, decide_eq_decide.mpr ?_, rfl⟩
      rw [mem_take_succ hj' elt, or_iff_right heq]
  obtain ⟨d, s', hrun, rfl, rfl⟩ := hloop
  rw [hrun, Nat.zero_add, List.take_length]

/-- A new element goes to the place behind them. -/
theorem push_done {n : Nat} {elts : List (Option α)} {elt : Option α} (hn : n ≤ INT_MAX)
    (hlt : elts.length < n) (helt : elt ∉ uniqueElts elts) (s : σ) :
    (scratchOf n elts).push elt s = .done (scratchOf n (elts ++ [elt])) s := by
  have hle := length_uniqueElts_le elts
  have hnext : (next INT_MAX (scratchOf n elts).uniqueEltsL : Run σ Nat) =
      pure ((uniqueElts elts).length + 1) := by
    refine next_of_lt ?_
    rw [uniqueEltsL_scratchOf]
    omega
  have hset : (uniqueElts elts ++ List.replicate (n - (uniqueElts elts).length) none).set
      (uniqueElts elts).length elt =
      uniqueElts elts ++ [elt] ++ List.replicate (n - ((uniqueElts elts).length + 1)) none := by
    obtain ⟨k, hk⟩ : ∃ k, n - (uniqueElts elts).length = k + 1 :=
      ⟨n - (uniqueElts elts).length - 1, by omega⟩
    rw [hk, show n - ((uniqueElts elts).length + 1) = k by omega, List.set_append_right _ _
      (Nat.le_refl _), Nat.sub_self, List.replicate_succ, List.set_cons_zero, List.append_assoc]
    rfl
  unfold Scratch.push
  rw [hnext]
  show (if (scratchOf n elts).uniqueEltsL < (scratchOf n elts).uniqueElts.length then _ else _ :
    Run σ (Scratch α)) s = _
  rw [if_pos]
  · unfold scratchOf
    rw [uniqueElts_concat, if_neg helt, List.length_append]
    dsimp only
    rw [hset]
    rfl
  · show (uniqueElts elts).length < (uniqueElts elts ++ _).length
    rw [List.length_append, List.length_replicate]
    omega

end Array

/-! ## 3. The loops -/

section Loops

variable {ν α : Type} [DecidableEq α] {base : Cells (Option α)} {cells : List (Nat × Option α)}
  {w : ListWorld α}

theorem onFst_done {σ β : Type} {m : Run σ β} {s : σ × ν} {b : β} {t : σ}
    (h : m s.1 = .done b t) : (onFst m : Run (σ × ν) β) s = .done b (t, s.2) := by
  unfold onFst
  rw [h]

omit [DecidableEq α] in
/-- Within the `int`s an index is the position itself. -/
theorem elementAt_ofNat {xs : List (Option α)} {i : Nat} (hi : i < xs.length)
    (hmax : i ≤ INT_MAX) : elementAt xs (BitVec.ofNat 32 i) = xs[i] := by
  have hint : (BitVec.ofNat 32 i).toInt = i := by
    have hlt : i < 2 ^ 31 := Nat.lt_of_le_of_lt hmax (by decide)
    have hnat : (BitVec.ofNat 32 i).toNat = i := Nat.mod_eq_of_lt (Nat.lt_trans hlt (by decide))
    rw [BitVec.toInt_eq_toNat_of_lt (by omega), hnat]
  unfold elementAt
  rw [hint, if_neg (by omega), Int.toNat_natCast, List.getElem?_eq_getElem hi]
  rfl

/-- A round of the first loop takes in the next element of the list. -/
theorem collect_returns (h : Represents base cells w) (hn : cells.length ≤ INT_MAX) {i : Nat}
    (hi : i < cells.length) (v : ν) :
    collect i (scratchOf cells.length ((cells.map Prod.snd).take i)) (w, v) =
      .done (scratchOf cells.length ((cells.map Prod.snd).take (i + 1))) (w, v) := by
  have hi' : i < (cells.map Prod.snd).length := by
    rw [List.length_map]
    exact hi
  have hget : onFst (Llist.get (BitVec.ofNat 32 i)) (w, v) =
      .done (cells.map Prod.snd)[i] (w, v) := by
    rw [← elementAt_ofNat hi' (by omega)]
    exact onFst_done (Llist.get_represents h _)
  have hlength : ((cells.map Prod.snd).take i).length ≤ INT_MAX := by
    rw [List.length_take]
    omega
  unfold collect
  rw [bind_done hget, bind_done (duplicated_done hlength _ _), List.take_succ_eq_append_getElem hi']
  by_cases hmem : (cells.map Prod.snd)[i] ∈ uniqueElts ((cells.map Prod.snd).take i)
  · rw [if_pos (decide_eq_true hmem)]
    unfold scratchOf
    rw [uniqueElts_concat, if_pos hmem]
    rfl
  · rw [if_neg (by rw [decide_eq_false hmem]; exact Bool.false_ne_true)]
    exact push_done hn (by rw [List.length_take]; omega) hmem _

/-- The first loop fills the array. -/
theorem collected (h : Represents base cells w) (hn : cells.length ≤ INT_MAX) (v : ν) :
    rounds INT_MAX collect cells.length 0 ⟨List.replicate cells.length none, 0⟩ (w, v) =
      .done (scratchOf cells.length (cells.map Prod.snd)) (w, v) := by
  have hloop : Returns (rounds INT_MAX collect cells.length 0
      (scratchOf cells.length ((cells.map Prod.snd).take 0))) (w, v) fun scratch s =>
        scratch = scratchOf cells.length ((cells.map Prod.snd).take (0 + cells.length)) ∧
          s = (w, v) := by
    refine rounds_returns (I := fun j scratch s =>
      scratch = scratchOf cells.length ((cells.map Prod.snd).take j) ∧ s = (w, v))
      (by omega) (fun j scratch s _ hj hj' => ?_) ⟨rfl, rfl⟩
    obtain ⟨rfl, rfl⟩ := hj'
    exact ⟨_, _, collect_returns h hn (by omega) v, rfl, rfl⟩
  have hall : (cells.map Prod.snd).take cells.length = cells.map Prod.snd :=
    List.take_of_length_le (by rw [List.length_map])
  obtain ⟨scratch, s, hrun, rfl, rfl⟩ := hloop
  rw [Nat.zero_add, hall] at hrun
  exact hrun

/-- The last loop goes through the unique elements. -/
theorem deleted_done {γ : Type} {n : Nat} {elts : List (Option α)} (hn : elts.length ≤ INT_MAX)
    (f : Option α → List γ) (w : ListWorld α) (deleted : List γ) :
    rounds INT_MAX (deleteUnique (some (recording f)) (scratchOf n elts)) (uniqueElts elts).length 0
        () (w, deleted) = .done () (w, deleted ++ (uniqueElts elts).flatMap f) := by
  have hle := length_uniqueElts_le elts
  have hloop : Returns (rounds INT_MAX (deleteUnique (some (recording f)) (scratchOf n elts))
      (uniqueElts elts).length 0 ()) (w, deleted) fun _ s =>
        s = (w, deleted ++ ((uniqueElts elts).take (0 + (uniqueElts elts).length)).flatMap f) := by
    refine rounds_returns
      (I := fun j _ s => s = (w, deleted ++ ((uniqueElts elts).take j).flatMap f)) (by omega)
      (fun j _ s _ hj hj' => ?_) (by rw [List.take_zero, List.flatMap_nil, List.append_nil])
    subst hj'
    have hj : j < (uniqueElts elts).length := by omega
    unfold deleteUnique Returns
    rw [bind_done (at_done hj _)]
    refine ⟨(), _, rfl, ?_⟩
    rw [List.take_succ_eq_append_getElem hj, List.flatMap_append, List.flatMap_singleton,
      ← List.append_assoc]
  obtain ⟨_, s, hrun, rfl⟩ := hloop
  rw [Nat.zero_add, List.take_length] at hrun
  exact hrun

/-- **Up to `INT_MAX` elements, each one is deleted once, in the order in which they come first.** -/
theorem Llist.deleteElements_done {γ : Type} (h : Represents base cells w)
    (hn : cells.length ≤ INT_MAX) (f : Option α → List γ) (deleted : List γ) :
    Llist.deleteElements (some (recording f)) (w, deleted) =
      .done LLIST_OK (w, deleted ++ (uniqueElts (cells.map Prod.snd)).flatMap f) := by
  have hlength := onFst_done (s := (w, deleted)) (Llist.length_represents h)
  rw [List.length_map] at hlength
  unfold Llist.deleteElements
  rw [bind_done hlength, bind_done (collected h hn deleted), uniqueEltsL_scratchOf,
    bind_done (deleted_done (by rw [List.length_map]; exact hn) f w deleted)]
  rfl

/-- **With more elements it does not return.** -/
theorem Llist.deleteElements_rejects (h : Represents base cells w) (hn : INT_MAX < cells.length)
    (v : ν) (deletef : Option (Option α → Run (ListWorld α × ν) Unit)) :
    Rejects (Llist.deleteElements deletef) (w, v) := by
  have hlength := onFst_done (s := (w, v)) (Llist.length_represents h)
  rw [List.length_map] at hlength
  have hloop : ∀ scratch : Scratch α,
      Rejects (rounds INT_MAX collect cells.length 0 scratch) (w, v) := fun scratch =>
    rounds_rejects (by omega) (Nat.zero_le _)
  intro rc s hrun
  unfold Llist.deleteElements at hrun
  rw [bind_done hlength] at hrun
  exact (hloop _).bind rc s hrun

end Loops

/-! ## 4. Deleting once -/

/-- A list with its nodes. -/
structure HeldList (α : Type) where
  base : Cells (Option α)
  cells : List (Nat × Option α)
  world : ListWorld α
  represents : Represents base cells world

def HeldList.elements {α : Type} (list : HeldList α) : List (Option α) := list.cells.map Prod.snd

/-- Each of the elements was deleted once, in the order in which they come first, and nothing
    else. -/
structure DeletesOnce {γ : Type} [DecidableEq γ] (elements deleted : List γ) : Prop where
  once : deleted.Nodup
  same : ∀ e, e ∈ deleted ↔ e ∈ elements
  order : deleted = elements.eraseDups

theorem uniqueElts_deletesOnce {γ : Type} [DecidableEq γ] (elements : List γ) :
    DeletesOnce elements (uniqueElts elements) :=
  ⟨uniqueElts_nodup elements, fun _ => mem_uniqueElts, uniqueElts_eq_eraseDups elements⟩

/-- **`llist_delete_elements` deletes once, exactly up to `INT_MAX` elements.** -/
theorem deletesOnce_iff {α : Type} [DecidableEq α] (list : HeldList α) :
    Returns (Llist.deleteElements (some (recording fun elt => [elt]))) (list.world, [])
        (fun _ s => DeletesOnce list.elements s.2) ↔ list.elements.length ≤ INT_MAX := by
  have hlength : list.elements.length = list.cells.length := List.length_map ..
  rw [hlength]
  constructor
  · intro h
    by_contra hn
    obtain ⟨rc, s, hrun, -⟩ := h
    exact Llist.deleteElements_rejects list.represents (Nat.lt_of_not_le hn) [] _ rc s hrun
  · intro hn
    refine ⟨_, _, Llist.deleteElements_done list.represents hn _ [], ?_⟩
    show DeletesOnce list.elements ([] ++ (uniqueElts list.elements).flatMap fun elt => [elt])
    rw [List.nil_append, List.flatMap_singleton']
    exact uniqueElts_deletesOnce list.elements

/-- Every sequence is held by a list. -/
theorem HeldList.exists_elements {α : Type} (alloc : Allocator (Option α)) (base : Cells (Option α))
    (xs : List (Option α)) : ∃ list : HeldList α, list.elements = xs := by
  induction xs using List.reverseRecOn with
  | nil => exact ⟨⟨base, [], _, create_represents base 0⟩, rfl⟩
  | append_singleton xs last ih =>
    obtain ⟨list, rfl⟩ := ih
    obtain ⟨b, w', -, h⟩ := Llist.add_represents list.represents alloc last
    exact ⟨⟨list.base, _, w', h⟩, List.map_append ..⟩

end ArgusPep
