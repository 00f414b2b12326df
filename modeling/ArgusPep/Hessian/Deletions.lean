/-
  File:      ArgusPep/Hessian/Deletions.lean
  Subject:   Which objects the List and Map deserializers and destructors give to `hessian_delete`.

  An object of a container is known by the place at which it was decoded; the state of a run is the
  record of the objects deleted so far, the same one as often as it is deleted. What an object is
  (a Ref or not, its index) is read from the sequence of decoded objects, and the answers of the
  allocator are given by the places of the requests. The tag, the type and the length in front of
  the elements are no objects: they are left out.

  * `hessianDelete`, `llistDeleteElements` -- one object, or the distinct ones of a list;
  * `hessianListDeserialize`, `hessianListDtor` -- of hessian/list.c;
  * `hessianMapDeserialize`, `hessianMapDtor` -- of hessian/map.c.
-/
import ArgusPep.Lib.Run
import ArgusPep.Util.LinkedList
import ArgusPep.Hessian.Refs

namespace ArgusPep.Deletions

open Lib Run

/-- A run over the record of the deleted objects. -/
abbrev Deleting (ι α : Type) := Run (List ι) α

/-! ## 1. Deleting objects -/

section Delete

variable {ι ε : Type} [DecidableEq ε]

def hessianDelete (o : ι) : Deleting ι Unit := update fun deleted => deleted ++ [o]

/-- `llist_delete_elements`: without its scratch array it writes to NULL, unless the list is
    empty. -/
def llistDeleteElements (scratch : Bool) (list : List ε) (deletef : ε → Deleting ι Unit) :
    Deleting ι Unit :=
  if scratch then (uniqueElts list).forM deletef
  else if list = [] then pure () else undefined

end Delete

/-! ## 2. Lists -/

/-- The answers of the allocator to one `hessian_list_deserialize`. -/
structure ListAnswers where
  /-- `llist_create` of the references list. -/
  refs : Bool
  /-- The nodes of the references list. -/
  refNode : Nat → Bool
  /-- `llist_create` of the list of the object. -/
  list : Bool
  /-- The nodes of that list. -/
  node : Nat → Bool
  /-- The scratch array of the clean-up. -/
  scratch : Bool

section Lists

variable (a : ListAnswers)

/-- The clean-up: all elements read so far. -/
def deleteRefs (refs : List HessianObject) : Deleting Nat Unit :=
  llistDeleteElements a.scratch (List.range refs.length) hessianDelete

/-- The loop over the elements of the input: `none` is one that cannot be deserialized. -/
def readElements : (refs : List HessianObject) → (decoded : List (Option HessianObject)) →
    Deleting Nat (List HessianObject)
  | refs, [] => pure refs
  | refs, none :: _ => do
    deleteRefs a refs
    fail
  | refs, some o :: rest =>
    if a.refNode refs.length then readElements (refs ++ [o]) rest
    else do
      hessianDelete refs.length
      deleteRefs a refs
      fail

/-- The object for the list: a Ref is deleted, and the element it names is taken. -/
def realObject (refs : List HessianObject) (i : Nat) : HessianObject → Deleting Nat Nat
  | .ref value => do
    hessianDelete i
    match llistGet refs.length value with
    | none => do
      deleteRefs a refs
      fail
    | some j => pure j
  | _ => pure i

/-- The loop over the references list, from its element `i` on. -/
def linkElements (refs : List HessianObject) : (i : Nat) → (rest : List HessianObject) →
    (list : List Nat) → Deleting Nat (List Nat)
  | _, [], list => pure list
  | i, o :: rest, list => do
    let real ← realObject a refs i o
    if a.node i then linkElements refs (i + 1) rest (list ++ [real])
    else do
      hessianDelete real
      deleteRefs a refs
      fail

/-- `hessian_list_deserialize`: the objects of the list. -/
def hessianListDeserialize (decoded : List (Option HessianObject)) : Deleting Nat (List Nat) :=
  if a.refs then do
    let refs ← readElements a [] decoded
    if a.list then linkElements a refs 0 refs []
    else do
      deleteRefs a refs
      fail
  else fail

end Lists

/-- `hessian_list_dtor`. -/
def hessianListDtor (scratch : Bool) (list : List Nat) : Deleting Nat Unit :=
  llistDeleteElements scratch list hessianDelete

/-! ## 3. Maps -/

/-- An object of a map: the key or the value of the pair decoded at a place. -/
inductive MapObject where
  | key (i : Nat)
  | value (i : Nat)
deriving DecidableEq

/-- The answers of the allocator to one `hessian_map_deserialize`. -/
structure MapAnswers where
  /-- `llist_create` of the references list. -/
  refs : Bool
  /-- `map_pair_create`. -/
  pair : Nat → Bool
  /-- The nodes of the references list. -/
  refNode : Nat → Bool
  /-- `llist_create` of the pairs list of the object. -/
  map : Bool
  /-- The nodes of that list. -/
  node : Nat → Bool
  /-- The scratch array of the clean-up. -/
  scratch : Bool

/-- The answers to one `hessian_map_dtor`. -/
structure DtorAnswers where
  keysValues : Bool
  /-- The nodes for the keys and the values, in turn. -/
  node : Nat → Bool
  scratch : Bool

/-- Every request is granted. -/
def DtorAnswers.granted : DtorAnswers := ⟨true, fun _ => true, true⟩

section Maps

variable (a : MapAnswers)

def mapPairDelete (i : Nat) : Deleting MapObject Unit := do
  hessianDelete (.key i)
  hessianDelete (.value i)

/-- The clean-up: all pairs read so far. -/
def deletePairs (refs : List (HessianObject × HessianObject)) : Deleting MapObject Unit :=
  llistDeleteElements a.scratch (List.range refs.length) mapPairDelete

/-- The loop over the pairs of the input: `none` is a key or a value that cannot be deserialized. -/
def readPairs : (refs : List (HessianObject × HessianObject)) →
    (decoded : List (Option HessianObject × Option HessianObject)) →
    Deleting MapObject (List (HessianObject × HessianObject))
  | refs, [] => pure refs
  | refs, (none, _) :: _ => do
    deletePairs a refs
    fail
  | refs, (some _, none) :: _ => do
    hessianDelete (.key refs.length)
    deletePairs a refs
    fail
  | refs, (some key, some value) :: rest =>
    if a.pair refs.length && a.refNode refs.length then readPairs (refs ++ [(key, value)]) rest
    else do
      hessianDelete (.key refs.length)
      hessianDelete (.value refs.length)
      deletePairs a refs
      fail

/-- A pair whose value is a Ref to a pair: the Ref is deleted, and the value that pair has by now is
    taken. `values` are the value pointers of all pairs, by the pairs their values came with. -/
def resolveValue (objects : List HessianObject) (values : List Nat) (i : Nat) :
    Deleting MapObject (List Nat) :=
  let ref := values.getD i i
  match objects[ref]? with
  | some (.ref index) =>
    match (llistGet objects.length index).bind (values[·]?) with
    | some real => do
      hessianDelete (.value ref)
      pure (values.set i real)
    | none => pure values
  | _ => pure values

/-- The loop over the references list: over the pairs `todo`. -/
def linkPairs (objects : List HessianObject) : (todo : List Nat) → (values : List Nat) →
    Deleting MapObject (List Nat)
  | [], values => pure values
  | i :: todo, values => do
    let values ← resolveValue objects values i
    if a.node i then linkPairs objects todo values else fail

/-- `hessian_map_deserialize`: the value pointers of the pairs of the map. -/
def hessianMapDeserialize (decoded : List (Option HessianObject × Option HessianObject)) :
    Deleting MapObject (List Nat) :=
  if a.refs then do
    let refs ← readPairs a [] decoded
    if a.map then linkPairs a (refs.map Prod.snd) (List.range refs.length) (List.range refs.length)
    else do
      deletePairs a refs
      fail
  else fail

/-- The keys and values of the pairs from `i` on, as `hessian_map_dtor` lists them: those whose node
    is refused are missed. -/
def keysValues (d : DtorAnswers) : (i : Nat) → (values : List Nat) → List MapObject
  | _, [] => []
  | i, value :: rest =>
    (if d.node (2 * i) then [MapObject.key i] else []) ++
      (if d.node (2 * i + 1) then [MapObject.value value] else []) ++ keysValues d (i + 1) rest

/-- `hessian_map_dtor`. -/
def hessianMapDtor (d : DtorAnswers) (values : List Nat) : Deleting MapObject Unit :=
  if d.keysValues then llistDeleteElements d.scratch (keysValues d 0 values) hessianDelete
  else pure ()

end Maps

end ArgusPep.Deletions
