/-
  File:      ArgusPep/Hessian/Refs.lean
  Subject:   Which element the pointers of a List or a Map stand for once its Refs are resolved.

  A Ref counts the elements of the container it stands in. `hessian_list_deserialize` and
  `hessian_map_deserialize` delete the Ref object and put the pointer to the element it names in
  its place, going through the container once, from the first element on.

  * `llistGet` -- `llist_get`: the position an `int` index names, if any;
  * `listLinks`, `mapLinks` -- for each position of a container, the position whose object its
    pointer stands for;
  * `HessianObject.resolved` -- the object behind the resolved pointers. A pointer to a Ref that
    was deleted reads as that Ref;
  * `RefFree` -- no Ref in any container: then resolving changes nothing.
-/
import Mathlib.Data.List.Basic
import Mathlib.Data.List.GetD
import Mathlib.Data.List.Induction
import ArgusPep.Hessian.Types

namespace ArgusPep

/-! ## 1. Links -/

/-- `llist_get` on a list of `n` elements: the position, if the index is in range. -/
def llistGet (n : Nat) (i : CInt) : Option Nat :=
  if i.toInt < 0 ∨ (n : Int) ≤ i.toInt then none else some i.toInt.toNat

/-- The position the object at position `i` of a list of `n` elements stands for. -/
def refIndex (n i : Nat) : HessianObject → Option Nat
  | .ref value => llistGet n value
  | _ => some i

/-- The positions the pointers of a list stand for. -/
def listLinks (elements : List HessianObject) : List Nat :=
  elements.zipIdx.map fun (object, i) => (refIndex elements.length i object).getD i

/-- The positions the value pointers of a map stand for. A Ref to an earlier pair takes the pointer
    that pair has by then; a Ref to no pair stays. -/
def mapLinks (values : List HessianObject) : List Nat :=
  values.zipIdx.foldl (fun links (object, i) =>
    let j := (refIndex values.length i object).getD i
    links ++ [links.getD j j]) []

/-- The objects at the positions `links`. -/
def linked {α : Type} (links : List Nat) (objects : List α) : List α :=
  links.filterMap (objects[·]?)

namespace HessianObject

mutual
def resolved : HessianObject → HessianObject
  | .list type elements => .list type (linked (listLinks elements) (resolvedElements elements))
  | .map type pairs =>
    .map type (((resolvedPairs pairs).map Prod.fst).zip
      (linked (mapLinks (pairs.map Prod.snd)) ((resolvedPairs pairs).map Prod.snd)))
  | .null => .null
  | .boolean value => .boolean value
  | .integer value => .integer value
  | .long value => .long value
  | .double value => .double value
  | .date value => .date value
  | .string s => .string s
  | .xml s => .xml s
  | .binary data => .binary data
  | .remote type url => .remote type url
  | .ref value => .ref value

def resolvedElements : List HessianObject → List HessianObject
  | [] => []
  | object :: rest => object.resolved :: resolvedElements rest

def resolvedPairs : List (HessianObject × HessianObject) → List (HessianObject × HessianObject)
  | [] => []
  | (key, value) :: rest => (key.resolved, value.resolved) :: resolvedPairs rest
end

/-! ## 2. Objects without a Ref -/

mutual
/-- No Ref is an object of the tree. -/
def RefFree : HessianObject → Prop
  | .ref _ => False
  | .list _ elements => RefFreeElements elements
  | .map _ pairs => RefFreePairs pairs
  | _ => True

def RefFreeElements : List HessianObject → Prop
  | [] => True
  | object :: rest => object.RefFree ∧ RefFreeElements rest

def RefFreePairs : List (HessianObject × HessianObject) → Prop
  | [] => True
  | (key, value) :: rest => key.RefFree ∧ value.RefFree ∧ RefFreePairs rest
end

end HessianObject

open HessianObject

theorem refIndex_of_refFree {n i : Nat} {o : HessianObject} (h : o.RefFree) :
    refIndex n i o = some i := by
  cases o with
  | ref value => exact h.elim
  | _ => rfl

theorem refFree_of_mem : ∀ {elements : List HessianObject} {o : HessianObject},
    RefFreeElements elements → o ∈ elements → o.RefFree
  | [], _, _, h => nomatch h
  | e :: rest, o, ⟨he, hrest⟩, h => by
    rcases List.mem_cons.mp h with rfl | h
    · exact he
    · exact refFree_of_mem hrest h

theorem refFreeValues : ∀ {pairs : List (HessianObject × HessianObject)},
    RefFreePairs pairs → RefFreeElements (pairs.map Prod.snd)
  | [], _ => trivial
  | (_, _) :: _, ⟨_, hv, hrest⟩ => ⟨hv, refFreeValues hrest⟩

theorem listLinks_of_refFree {elements : List HessianObject} (h : RefFreeElements elements) :
    listLinks elements = List.range elements.length := by
  have e : elements.zipIdx.map (fun (object, i) =>
      (refIndex elements.length i object).getD i) = elements.zipIdx.map Prod.snd := by
    apply List.map_congr_left
    intro h hmem
    obtain ⟨object, i⟩ := h
    have hobject := refFree_of_mem h (List.fst_mem_of_mem_zipIdx hmem)
    show (refIndex elements.length i object).getD i = i
    rw [refIndex_of_refFree hobject, Option.getD_some]
  unfold listLinks
  rw [e, List.zipIdx_map_snd, List.range_eq_range']

theorem mapLinks_of_refFree {values : List HessianObject} (h : RefFreeElements values) :
    mapLinks values = List.range values.length := by
  -- along the fold, the links made so far are the positions so far
  have fold : ∀ (objects : List HessianObject) (k : Nat), RefFreeElements objects →
      (objects.zipIdx k).foldl (fun links (object, i) =>
        let j := (refIndex values.length i object).getD i
        links ++ [links.getD j j]) (List.range k) = List.range (k + objects.length) := by
    intro objects
    induction objects with
    | nil => intro k _; rfl
    | cons o rest ih =>
      intro k ⟨ho, hrest⟩
      have hk : (List.range k).getD k k = k := by
        rw [List.getD_eq_default _ _ (by rw [List.length_range])]
      simp only [List.zipIdx_cons, List.foldl_cons, refIndex_of_refFree ho, Option.getD_some, hk,
        ← List.range_succ]
      rw [ih (k + 1) hrest, List.length_cons]
      congr 1
      omega
  have := fold values 0 h
  rwa [Nat.zero_add] at this

theorem linked_range {α : Type} (objects : List α) :
    linked (List.range objects.length) objects = objects := by
  unfold linked
  induction objects using List.reverseRecOn with
  | nil => rfl
  | append_singleton objects o ih =>
    rw [List.length_append, List.length_singleton, List.range_succ, List.filterMap_append]
    have hinit : (List.range objects.length).filterMap (fun i => (objects ++ [o])[i]?)
        = (List.range objects.length).filterMap (objects[·]?) := by
      apply List.filterMap_congr
      intro i hi
      rw [List.getElem?_append_left (List.mem_range.mp hi)]
    rw [hinit, ih]
    simp

namespace HessianObject

mutual
/-- **Without a Ref, resolving changes nothing.** -/
theorem resolved_of_refFree : ∀ {o : HessianObject}, o.RefFree → o.resolved = o
  | .null, _ | .boolean _, _ | .integer _, _ | .long _, _ | .double _, _ | .date _, _
  | .string _, _ | .xml _, _ | .binary _, _ | .remote _ _, _ => rfl
  | .ref _, h => h.elim
  | .list type elements, h => by
    have e : resolvedElements elements = elements := resolvedElements_of_refFree h
    have l : listLinks elements = List.range elements.length := listLinks_of_refFree h
    rw [resolved, e, l, linked_range]
  | .map type pairs, h => by
    have e : resolvedPairs pairs = pairs := resolvedPairs_of_refFree h
    have l := mapLinks_of_refFree (refFreeValues h)
    have z : (pairs.map Prod.fst).zip (pairs.map Prod.snd) = pairs :=
      (List.zip_of_prod rfl rfl).symm
    rw [resolved, e, l, linked_range, z]

theorem resolvedElements_of_refFree : ∀ {elements : List HessianObject},
    RefFreeElements elements → resolvedElements elements = elements
  | [], _ => rfl
  | _ :: _, ⟨ho, hrest⟩ => by
    rw [resolvedElements, resolved_of_refFree ho, resolvedElements_of_refFree hrest]

theorem resolvedPairs_of_refFree : ∀ {pairs : List (HessianObject × HessianObject)},
    RefFreePairs pairs → resolvedPairs pairs = pairs
  | [], _ => rfl
  | (_, _) :: _, ⟨hk, hv, hrest⟩ => by
    rw [resolvedPairs, resolved_of_refFree hk, resolved_of_refFree hv,
      resolvedPairs_of_refFree hrest]
end

end HessianObject

end ArgusPep
