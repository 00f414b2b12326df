/-
  File:      ArgusPep/Hessian/Destructors.lean
  Subject:   What `hessian_delete` of a List or a Map does to the objects in it, over the nodes of
             their lists.

  The containers hold pointers, and two of them can point to the same object. The destructor of a
  map moves its keys and values to a list of their own first, one pair after the other, and both
  destructors leave the rest to `llist_delete_elements`. The deleted objects are recorded; what is
  in them is not looked at. A pair is its two pointers, and each pair is in the list of the map
  once. All allocations succeed, and the two lists of a map have no node in common.

  * `hessianListDtor`, `hessianMapDtor`, `hessianDelete` -- of hessian/list.c, hessian/map.c and
    hessian/hessian.c;
  * `keysValues` -- the list the destructor of a map makes of its pairs;
  * `DeletesOnce.objects` -- NULL is passed over, and the objects keep their order;
  * `drainPairs_done` -- the pairs are drained, and the new list has their keys and values;
  * `containers_delete_once_iff` -- each object is deleted once, exactly up to `INT_MAX` pointers.
-/
import Mathlib.Data.List.ReduceOption
import ArgusPep.Util.DeleteElements
import ArgusPep.Hessian.Refs

namespace ArgusPep

open Lib Run

/-! ## 1. The destructors -/

namespace Destructors

def HESSIAN_OK : CInt := 0#32

section Functions

variable {ω α : Type}

/-- `hessian_delete`, called on an object of a container. -/
def deleteObject : Option α → Run (ω × List α) Unit := recording Option.toList

/-- `hessian_delete` of a container: its destructor, then the object itself. -/
def hessianDelete {σ : Type} (dtor : Run σ CInt) : Run σ Unit := do
  let _ ← dtor
  pure ()

/-- `hessian_list_dtor`. The fuel is for the nodes of the list. -/
def hessianListDtor [DecidableEq α] (fuel : Nat) : Run (ListWorld α × List α) CInt := do
  let _ ← Llist.deleteElements (some deleteObject)
  onFst (Llist.delete fuel)
  pure HESSIAN_OK

/-- The two pointers of a pair. -/
abbrev MapPair (α : Type) := Option α × Option α

/-- The list of a map, the one its destructor makes, and the objects deleted so far. -/
structure MapWorld (α : Type) where
  map : ListWorld (MapPair α)
  keysValues : ListWorld α
  deleted : List α

def onMap {β : Type} : OnList (MapPair α) β → Run (MapWorld α) β :=
  within MapWorld.map fun t w => { w with map := t }

def onKeysValues {β : Type} : OnList α β → Run (MapWorld α) β :=
  within MapWorld.keysValues fun t w => { w with keysValues := t }

def onDeleting {β : Type} : Run (ListWorld α × List α) β → Run (MapWorld α) β :=
  within (fun w => (w.keysValues, w.deleted)) fun t w =>
    { w with keysValues := t.1, deleted := t.2 }

/-- The loop over the pairs, with fuel. -/
def drainPairs (alloc : Allocator (Option α)) : (fuel : Nat) → Run (MapWorld α) Unit
  | 0 => outOfFuel
  | fuel + 1 => do
    if 0 < (← onMap Llist.length) then
      match ← onMap (Llist.remove 0#32) with
      | some (key, value) => do
        let _ ← onKeysValues (Llist.add alloc key)
        let _ ← onKeysValues (Llist.add alloc value)
        drainPairs alloc fuel
      | none => drainPairs alloc fuel
    else pure ()

/-- `hessian_map_dtor`. The fuel is for the nodes of both lists. -/
def hessianMapDtor [DecidableEq α] (alloc : Allocator (Option α)) (fuel : Nat) :
    Run (MapWorld α) CInt := do
  onKeysValues (Llist.change fun _ => Llist.create)
  drainPairs alloc fuel
  let _ ← onDeleting (Llist.deleteElements (some deleteObject))
  onKeysValues (Llist.delete fuel)
  onMap (Llist.delete fuel)
  pure HESSIAN_OK

end Functions

/-! ## 2. The objects of a container -/

section Objects

variable {α : Type}

/-- The pointers of the pairs, in the order of the pairs. -/
def keysValues (pairs : List (Option (MapPair α))) : List (Option α) :=
  pairs.reduceOption.flatMap fun pair => [pair.1, pair.2]

/-- Without NULL the pointers keep their order. -/
theorem uniqueElts_reduceOption [DecidableEq α] (xs : List (Option α)) :
    (uniqueElts xs).flatMap Option.toList = uniqueElts xs.reduceOption := by
  induction xs using List.reverseRecOn with
  | nil => rfl
  | append_singleton xs last ih =>
    rw [uniqueElts_concat, List.reduceOption_append, List.reduceOption_singleton]
    cases last with
    | none =>
      rw [Option.toList_none, List.append_nil, ← ih]
      split
      · rfl
      · rw [List.flatMap_append, List.flatMap_singleton, Option.toList_none, List.append_nil]
    | some o =>
      have hmem : some o ∈ uniqueElts xs ↔ o ∈ uniqueElts xs.reduceOption := by
        rw [mem_uniqueElts, mem_uniqueElts, List.reduceOption_mem_iff]
      rw [Option.toList_some, uniqueElts_concat]
      by_cases ho : some o ∈ uniqueElts xs
      · rw [if_pos ho, if_pos (hmem.mp ho), ih]
      · rw [if_neg ho, if_neg (hmem.not.mp ho), List.flatMap_append, ih, List.flatMap_singleton,
          Option.toList_some]

theorem DeletesOnce.objects [DecidableEq α] (xs : List (Option α)) :
    DeletesOnce xs.reduceOption ((uniqueElts xs).flatMap Option.toList) := by
  rw [uniqueElts_reduceOption]
  exact uniqueElts_deletesOnce xs.reduceOption

/-- `llistGet` names the position that `llist_get` reads. -/
theorem elementAt_eq_llistGet (xs : List (Option α)) (i : CInt) :
    elementAt xs i = ((llistGet xs.length i).bind (xs[·]?)).join := by
  unfold elementAt llistGet
  by_cases hneg : i.toInt < 0
  · rw [if_pos hneg, if_pos (.inl hneg)]
    rfl
  · rw [if_neg hneg]
    by_cases hlarge : (xs.length : Int) ≤ i.toInt
    · rw [if_pos (.inr hlarge), List.getElem?_eq_none (by omega)]
      rfl
    · rw [if_neg (not_or.mpr ⟨hneg, hlarge⟩)]
      rfl

end Objects

/-! ## 3. Lists -/

section Lists

variable {α : Type} [DecidableEq α] {base : Cells (Option α)} {cells : List (Nat × Option α)}
  {w : ListWorld α}

theorem hessianListDtor_done (h : Represents base cells w) (hn : cells.length ≤ INT_MAX) {fuel : Nat}
    (hfuel : cells.length ≤ fuel) (deleted : List α) :
    ∃ w', hessianListDtor fuel (w, deleted) = .done HESSIAN_OK
      (w', deleted ++ (uniqueElts (cells.map Prod.snd)).flatMap Option.toList) := by
  obtain ⟨w', hdelete, -⟩ := Llist.delete_represents h hfuel
  refine ⟨w', ?_⟩
  unfold hessianListDtor deleteObject
  rw [bind_done (Llist.deleteElements_done h hn Option.toList deleted)]
  exact bind_done (onFst_done hdelete)

theorem hessianListDtor_rejects (h : Represents base cells w) (hn : INT_MAX < cells.length)
    (fuel : Nat) (deleted : List α) : Rejects (hessianListDtor fuel) (w, deleted) :=
  (Llist.deleteElements_rejects h hn deleted _).bind

end Lists

/-! ## 4. Maps -/

section Maps

variable {α : Type} (alloc : Allocator (Option α)) {w : MapWorld α}

theorem onMap_done {β : Type} {m : OnList (MapPair α) β} {b : β} {t : ListWorld (MapPair α)}
    (h : m w.map = .done b t) : onMap m w = .done b { w with map := t } := within_done h

theorem onKeysValues_done {β : Type} {m : OnList α β} {b : β} {t : ListWorld α}
    (h : m w.keysValues = .done b t) : onKeysValues m w = .done b { w with keysValues := t } :=
  within_done h

theorem onDeleting_done {β : Type} {m : Run (ListWorld α × List α) β} {b : β} {t : ListWorld α}
    {deleted : List α} (h : m (w.keysValues, w.deleted) = .done b (t, deleted)) :
    onDeleting m w = .done b { w with keysValues := t, deleted } := by
  unfold onDeleting within
  rw [h]

section Drain

variable {base : Cells (Option (MapPair α))} {cells : List (Nat × Option (MapPair α))}
  {base' : Cells (Option α)} {cells' : List (Nat × Option α)}

/-- The first pair, taken off the list. -/
theorem remove_first {pair : Option (MapPair α)} {pairs : List (Option (MapPair α))}
    {m : ListWorld (MapPair α)} (h : Represents base cells m)
    (hpairs : cells.map Prod.snd = pair :: pairs) :
    ∃ rest m', Llist.remove 0#32 m = .done pair m' ∧ Represents base rest m' ∧
      rest.map Prod.snd = pairs := by
  have hcounts : (0#32 : CInt).toInt = INT_MAX → cells.length ≤ INT_MAX := fun hzero =>
    absurd hzero (by decide)
  obtain ⟨rest, m', hrun, hrest, hsame⟩ := Llist.remove_represents h hcounts
  rw [hpairs] at hrun hsame
  exact ⟨rest, m', hrun, hrest, hsame⟩

/-- **The loop drains the pairs into the new list.** -/
theorem drainPairs_done {pairs : List (Option (MapPair α))} {fuel : Nat}
    (hfuel : pairs.length < fuel) (hmap : Represents base cells w.map)
    (hpairs : cells.map Prod.snd = pairs) (hlist : Represents base' cells' w.keysValues) :
    ∃ map' keysValues' cells'', drainPairs alloc fuel w = .done () ⟨map', keysValues', w.deleted⟩ ∧
      Represents base [] map' ∧ Represents base' cells'' keysValues' ∧
      cells''.map Prod.snd = cells'.map Prod.snd ++ keysValues pairs := by
  have hlength : onMap Llist.length w = .done pairs.length w := by
    rw [← hpairs]
    exact onMap_done (Llist.length_represents hmap)
  induction pairs generalizing w cells cells' fuel with
  | nil =>
    obtain ⟨fuel, rfl⟩ := Nat.exists_eq_add_of_lt hfuel
    rw [List.map_eq_nil_iff.mp hpairs] at hmap
    refine ⟨w.map, w.keysValues, cells', ?_, hmap, hlist, (List.append_nil _).symm⟩
    unfold drainPairs
    rw [bind_done hlength]
    rfl
  | cons pair pairs ih =>
    obtain ⟨fuel, rfl⟩ : ∃ k, fuel = k + 1 := ⟨fuel - 1, by omega⟩
    have hleft : pairs.length < fuel := Nat.lt_of_succ_lt_succ hfuel
    obtain ⟨rest, map₁, hremove, hrest, hsame⟩ := remove_first hmap hpairs
    unfold drainPairs
    rw [bind_done hlength, if_pos (c := 0 < (pair :: pairs).length) (Nat.succ_pos _),
      bind_done (onMap_done hremove)]
    have hnext : ∀ w₁ : MapWorld α, w₁.map = map₁ →
        onMap Llist.length w₁ = .done pairs.length w₁ := by
      intro w₁ hw₁
      subst hw₁
      rw [← hsame]
      exact onMap_done (Llist.length_represents hrest)
    cases pair with
    | none => exact ih (w := { w with map := map₁ }) hleft hrest hsame hlist (hnext _ rfl)
    | some pair =>
      obtain ⟨key, value⟩ := pair
      obtain ⟨a, list₁, hkey, hlist₁⟩ := Llist.add_represents hlist alloc key
      obtain ⟨b, list₂, hvalue, hlist₂⟩ := Llist.add_represents hlist₁ alloc value
      obtain ⟨map', keysValues', cells'', hrun, hmap', hlist', helements⟩ :=
        ih (w := ⟨map₁, list₂, w.deleted⟩) hleft hrest hsame hlist₂ (hnext _ rfl)
      refine ⟨map', keysValues', cells'', ?_, hmap', hlist', ?_⟩
      · dsimp only
        rw [bind_done (onKeysValues_done (w := { w with map := map₁ }) hkey),
          bind_done (onKeysValues_done (w := ⟨map₁, list₁, w.deleted⟩) hvalue)]
        exact hrun
      · rw [helements, List.map_append, List.map_append, List.append_assoc, List.append_assoc]
        rfl

end Drain

variable [DecidableEq α] {base : Cells (Option (MapPair α))}
  {cells : List (Nat × Option (MapPair α))}

/-- What the destructor comes to: its own list, with the keys and the values. -/
theorem mapDtor_drained (hmap : Represents base cells w.map) {fuel : Nat}
    (hfuel : cells.length < fuel) :
    ∃ map' list cells', Represents base [] map' ∧ Represents w.keysValues.heap cells' list ∧
      cells'.map Prod.snd = keysValues (cells.map Prod.snd) ∧
      hessianMapDtor alloc fuel w = (do
        let _ ← onDeleting (Llist.deleteElements (some deleteObject))
        onKeysValues (Llist.delete fuel)
        onMap (Llist.delete fuel)
        pure HESSIAN_OK : Run (MapWorld α) CInt) ⟨map', list, w.deleted⟩ := by
  have hcreate : onKeysValues (Llist.change fun _ => Llist.create) w =
      .done () { w with keysValues := { w.keysValues with list := Llist.create } } := rfl
  have hpairs : (cells.map Prod.snd).length < fuel := by
    rw [List.length_map]
    exact hfuel
  obtain ⟨map', list, cells', hdrain, hmap', hlist, helements⟩ :=
    drainPairs_done alloc (w := { w with keysValues := { w.keysValues with list := Llist.create } })
      hpairs hmap rfl (create_represents w.keysValues.heap w.keysValues.allocated)
  refine ⟨map', list, cells', hmap', hlist, helements, ?_⟩
  unfold hessianMapDtor
  rw [bind_done hcreate, bind_done hdrain]

theorem hessianMapDtor_done (hmap : Represents base cells w.map) {fuel : Nat}
    (hn : (keysValues (cells.map Prod.snd)).length ≤ INT_MAX)
    (hfuel : cells.length + (keysValues (cells.map Prod.snd)).length < fuel) :
    ∃ w', hessianMapDtor alloc fuel w = .done HESSIAN_OK w' ∧ w'.deleted =
      w.deleted ++ (uniqueElts (keysValues (cells.map Prod.snd))).flatMap Option.toList := by
  obtain ⟨map', list, cells', hmap', hlist, helements, hrun⟩ :=
    mapDtor_drained alloc hmap (show cells.length < fuel by omega)
  have hlength : cells'.length = (keysValues (cells.map Prod.snd)).length := by
    rw [← helements, List.length_map]
  have hdelete : onDeleting (Llist.deleteElements (some deleteObject)) ⟨map', list, w.deleted⟩ =
      .done LLIST_OK ⟨map', list, w.deleted ++
        (uniqueElts (keysValues (cells.map Prod.snd))).flatMap Option.toList⟩ := by
    have hdone := Llist.deleteElements_done hlist (by omega) Option.toList w.deleted
    rw [helements] at hdone
    exact onDeleting_done (w := ⟨map', list, w.deleted⟩) hdone
  obtain ⟨list', hlist', -⟩ := Llist.delete_represents hlist (show cells'.length ≤ fuel by omega)
  obtain ⟨map'', hmap'', -⟩ := Llist.delete_represents hmap' (Nat.zero_le fuel)
  rw [hrun, bind_done hdelete, bind_done (onKeysValues_done (w := ⟨map', list, _⟩) hlist'),
    bind_done (onMap_done (w := ⟨map', list', _⟩) hmap'')]
  exact ⟨_, rfl, rfl⟩

theorem hessianMapDtor_rejects (hmap : Represents base cells w.map) {fuel : Nat}
    (hn : INT_MAX < (keysValues (cells.map Prod.snd)).length) (hfuel : cells.length < fuel) :
    Rejects (hessianMapDtor alloc fuel) w := by
  obtain ⟨map', list, cells', -, hlist, helements, hrun⟩ :=
    mapDtor_drained alloc hmap hfuel
  have hlength : cells'.length = (keysValues (cells.map Prod.snd)).length := by
    rw [← helements, List.length_map]
  have hdelete : Rejects (onDeleting (Llist.deleteElements (some deleteObject)))
      (⟨map', list, w.deleted⟩ : MapWorld α) := by
    intro rc w' hdone
    have hrejects := Llist.deleteElements_rejects hlist (by omega) w.deleted (some deleteObject)
    unfold onDeleting within at hdone
    cases hinner : Llist.deleteElements (some deleteObject) (list, w.deleted) with
    | done rc t => exact hrejects rc t hinner
    | failed t => rw [hinner] at hdone; cases hdone
    | fault t => rw [hinner] at hdone; cases hdone
    | stuck => rw [hinner] at hdone; cases hdone
  intro rc w' hdone
  rw [hrun] at hdone
  exact hdelete.bind rc w' hdone

end Maps

/-! ## 5. Deleting once -/

section Containers

variable {α : Type} [DecidableEq α]

/-- With fuel enough, `hessian_delete` of a Hessian list with these nodes deletes each object in it
    once. -/
def ListDeletesOnce (list : HeldList α) : Prop :=
  ∀ fuel, list.elements.length < fuel →
    Returns (hessianDelete (hessianListDtor fuel)) (list.world, [])
      fun _ s => DeletesOnce list.elements.reduceOption s.2

/-- So does `hessian_delete` of a Hessian map, from whatever heap the nodes of its keys and values
    come. -/
def MapDeletesOnce (map : HeldList (MapPair α)) : Prop :=
  ∀ (alloc : Allocator (Option α)) (heap : ListWorld α) (fuel : Nat),
    map.elements.length + (keysValues map.elements).length < fuel →
      Returns (hessianDelete (hessianMapDtor alloc fuel)) ⟨map.world, heap, []⟩
        fun _ w => DeletesOnce (keysValues map.elements).reduceOption w.deleted

theorem listDeletesOnce_iff (list : HeldList α) :
    ListDeletesOnce list ↔ list.elements.length ≤ INT_MAX := by
  have hlength : list.elements.length = list.cells.length := List.length_map ..
  unfold ListDeletesOnce
  rw [hlength]
  constructor
  · intro h
    by_contra hn
    obtain ⟨_, s, hrun, -⟩ := h _ (Nat.lt_succ_self _)
    exact (hessianListDtor_rejects list.represents (Nat.lt_of_not_le hn) _ []).bind () s hrun
  · intro hn fuel hfuel
    obtain ⟨w', hdone⟩ := hessianListDtor_done list.represents hn (Nat.le_of_lt hfuel) []
    refine ⟨(), _, bind_done hdone, ?_⟩
    rw [List.nil_append]
    exact DeletesOnce.objects list.elements

theorem mapDeletesOnce_iff (map : HeldList (MapPair α)) :
    MapDeletesOnce map ↔ (keysValues map.elements).length ≤ INT_MAX := by
  have hlength : map.elements.length = map.cells.length := List.length_map ..
  unfold MapDeletesOnce
  rw [hlength]
  constructor
  · intro h
    by_contra hn
    obtain ⟨_, w', hrun, -⟩ := h (Allocator.bump _) ⟨⟨fun _ => none, 0, fun _ _ => rfl⟩,
      Llist.create, 0⟩ _ (Nat.lt_succ_self _)
    refine (hessianMapDtor_rejects (w := ⟨map.world, _, []⟩) _ map.represents
      (Nat.lt_of_not_le hn) ?_).bind () w' hrun
    omega
  · intro hn alloc heap fuel hfuel
    obtain ⟨w', hdone, hdeleted⟩ := hessianMapDtor_done alloc (w := ⟨map.world, heap, []⟩)
      map.represents hn hfuel
    refine ⟨(), w', bind_done hdone, ?_⟩
    show DeletesOnce (keysValues map.elements).reduceOption w'.deleted
    rw [hdeleted, List.nil_append]
    exact DeletesOnce.objects (keysValues map.elements)

/-- **Containers delete each element once, exactly up to `INT_MAX` pointers**:
    `llist_delete_elements` of a list whatever pointers repeat in it, and `hessian_delete` of a list
    and of a map. -/
theorem containers_delete_once_iff :
    (∀ list : HeldList α,
      Returns (Llist.deleteElements (some (recording fun elt => [elt]))) (list.world, [])
        (fun _ s => DeletesOnce list.elements s.2) ↔ list.elements.length ≤ INT_MAX) ∧
    (∀ list : HeldList α, ListDeletesOnce list ↔ list.elements.length ≤ INT_MAX) ∧
    (∀ map : HeldList (MapPair α), MapDeletesOnce map ↔
      (keysValues map.elements).length ≤ INT_MAX) :=
  ⟨deletesOnce_iff, listDeletesOnce_iff, mapDeletesOnce_iff⟩

/-- A list with one pointer 2^31 times: the counter of the first loop goes past `INT_MAX`. -/
theorem long_list_not_deleted :
    ∃ list : HeldList Nat, list.elements = List.replicate (2 ^ 31) (some 0) ∧
      ¬Returns (Llist.deleteElements (some (recording fun elt => [elt]))) (list.world, [])
        (fun _ s => DeletesOnce list.elements s.2) := by
  obtain ⟨list, helements⟩ := HeldList.exists_elements (Allocator.bump (Option Nat))
    ⟨fun _ => none, 0, fun _ _ => rfl⟩ (List.replicate (2 ^ 31) (some 0))
  refine ⟨list, helements, fun h => ?_⟩
  have hlength := (deletesOnce_iff list).mp h
  rw [helements, List.length_replicate] at hlength
  exact absurd hlength (by decide)

end Containers

end Destructors

end ArgusPep
