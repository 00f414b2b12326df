/-
  File:      ArgusPep/Hessian/Deserialize.lean
  Subject:   `hessian_deserialize` and the deserializers of the thirteen classes.

  A deserializer is a run over a `Reader`: the unread input, the allocator, and the risky steps
  taken so far (`Step`), a record no deserializer reads. It ends `done` with an object, `failed`
  where the code returns HESSIAN_ERROR or NULL, and with a `fault` where the code passes a NULL
  pointer on or uses an object it deleted before.

  * `utf8Bgets`, `hessianStringDeserialize`, `hessianBinaryDeserialize`, … -- the scalar classes;
  * `hessianListDeserialize`, `hessianMapDeserialize` -- the containers. A container holds its
    elements as they were read, each Ref at its place; `HessianObject.resolved` gives the object
    behind the pointers once the Refs are replaced;
  * `hessianDelete` -- the destructors, which allocate too;
  * `deserializeAs`, `hessianDeserializeTag` -- the dispatch over the class of the tag;
  * `hessianDeserialize` -- the function a caller uses.
-/
import ArgusPep.Lib.Run
import ArgusPep.Hessian.Refs
import ArgusPep.Hessian.Serialize

namespace ArgusPep

open Lib Run

/-! ## 1. The reader -/

/-- A step that goes wrong from some states, with the state before it. -/
inductive Step where
  /-- A length and so many characters are about to be read into a string, which `strlen` takes. -/
  | readChunk (input : Bytes) (mem : Mem)
  /-- A binary is about to be copied from a buffer that could not grow and has no data. -/
  | copyLost (mem : Mem)
  /-- The element `object` of `n` elements is about to be put into a list. -/
  | linkElement (n : Nat) (object : HessianObject) (mem : Mem)
  /-- The objects behind `n` pointers are about to be deleted; `dangling` when one of them was
      deleted before. -/
  | deleteElements (n : Nat) (dangling : Bool) (mem : Mem)

structure Reader where
  input : Bytes
  mem : Mem
  /-- The risky steps taken, the latest first. -/
  steps : List Step

/-- A deserializer. -/
abbrev Reading (α : Type) := Run Reader α

namespace Reading

/-- A pure reader of the input. -/
def take {α : Type} (f : Bytes → α × Bytes) : Reading α := fun s =>
  .done (f s.input).1 { s with input := (f s.input).2 }

/-- `calloc` of `n` bytes: whether the pointer is not NULL. -/
def calloc (n : Nat) : Reading Bool := fun s =>
  .done (s.mem.grants n) { s with mem := s.mem.after n }

def visit (step : Reader → Step) : Reading Unit := update fun s =>
  { s with steps := step s :: s.steps }

end Reading

open Reading

/-- `buffer_getc`. -/
def bufferGetc : Reading CInt := Reading.take getc

/-- `buffer_create`: whether the pointer is not NULL. -/
def bufferCreate (size : Nat) : Reading Bool := do
  if ← calloc 32 then calloc (if size < 2 then 16 else size) else pure false

/-- `llist_create`. -/
def llistCreate : Reading Bool := calloc 24

/-- `llist_add`: whether the node could be allocated. -/
def llistAdd : Reading Bool := calloc 16

/-! ## 2. Strings and xml -/

/-- The bytes `utf8_bgets` reads behind a first one: `n_mbyte`. -/
def mbytes (byte : CInt) : Nat :=
  if byte &&& 0xC0#32 = 0xC0#32 then
    if byte &&& 0xF0#32 = 0xC0#32 then 1
    else if byte &&& 0xF0#32 = 0xE0#32 then 2
    else if byte &&& 0xF0#32 = 0xF0#32 then 3
    else 0
  else 0

/-- So many bytes, the end of the input read as zero bytes. -/
def bytesGetc (n : Nat) (input : Bytes) : Bytes × Bytes :=
  (input.take n ++ List.replicate (n - input.length) 0, input.drop n)

/-- The loop of `utf8_bgets`: what `n` characters put into the temporary buffer. -/
def utf8Chars : (n : Nat) → Bytes → Bytes × Bytes
  | 0, input => ([], input)
  | n + 1, input =>
    let (byte, input) := getc input
    let (more, input) := bytesGetc (mbytes byte) input
    let (rest, input) := utf8Chars n input
    (putc byte :: (more ++ rest), input)

/-- `utf8_bgets`: the array with the characters read, or NULL. -/
def utf8Bgets (utf8L : Nat) : Reading (Option Bytes) := do
  if ← bufferCreate utf8L then
    let array ← Reading.take (utf8Chars utf8L)
    if ← calloc (array.length + 1) then pure (some array) else pure none
  else pure none

/-- Two length bytes and the array they announce. -/
def readText : Reading (Option Bytes) := do
  let b16 ← bufferGetc
  let b8 ← bufferGetc
  utf8Bgets (size16 b16 b8)

/-- The loop of `hessian_string_deserialize`: `sb` is the string buffer. -/
def stringChunks (cls : HessianClass) : (fuel : Nat) → (tag : CInt) → CString → Reading CString
  | 0, _, _ => outOfFuel
  | fuel + 1, tag, sb => do
    visit fun s => .readChunk s.input s.mem
    match ← readText with
    | none => undefined -- `strlen(NULL)`
    | some utf8 =>
      if tag = Char.int cls.chunkTag then do
        let tag ← bufferGetc
        stringChunks cls fuel tag (sb.append (CString.ofArray utf8))
      else pure (sb.append (CString.ofArray utf8))

/-- `hessian_string_deserialize`, for the classes String and Xml. -/
def hessianStringDeserialize (cls : HessianClass) (tag : CInt) : Reading CString :=
  if tag ≠ Char.int cls.tag ∧ tag ≠ Char.int cls.chunkTag then fail
  else do
    if ← bufferCreate (if tag = Char.int cls.chunkTag then HESSIAN_CHUNK_SIZE else 32) then
      let s ← read
      let sb ← stringChunks cls (s.input.length + 2) tag .empty
      if ← calloc (sb.bytes.length + 1) then pure sb else fail
    else fail

/-! ## 3. The other scalar classes -/

/-- The temporary buffer of `hessian_binary_deserialize`: not created, holding bytes, or without
    data since `realloc` refused to let it grow. -/
inductive BinaryBuffer where
  | absent
  | holding (data : Bytes)
  | lost

/-- The `n` `buffer_putc`s of a chunk with the bytes of the input. -/
def BinaryBuffer.putAll (buf : BinaryBuffer) (mem : Mem) (n : Nat) (input : Bytes) :
    BinaryBuffer :=
  match buf with
  | .holding data => if mem.refuses n then .lost else .holding (data ++ (bytesGetc n input).1)
  | .absent => .absent
  | .lost => .lost

/-- One round of the loop of `hessian_binary_deserialize`, but for the next tag. -/
def readBytes (buf : BinaryBuffer) : Reading BinaryBuffer := do
  let b16 ← bufferGetc
  let b8 ← bufferGetc
  let binL := size16 b16 b8
  let s ← read
  update fun s => { s with input := s.input.drop binL }
  pure (buf.putAll s.mem binL s.input)

/-- The loop of `hessian_binary_deserialize`. -/
def binaryGetChunks (cls : HessianClass) :
    (fuel : Nat) → (tag : CInt) → BinaryBuffer → Reading BinaryBuffer
  | 0, _, _ => outOfFuel
  | fuel + 1, tag, buf => do
    let buf ← readBytes buf
    if tag = Char.int cls.chunkTag then do
      let tag ← bufferGetc
      binaryGetChunks cls fuel tag buf
    else pure buf

/-- `hessian_binary_deserialize`. It does not look whether its buffer was created: without one
    nothing is stored and the binary is empty. -/
def hessianBinaryDeserialize (cls : HessianClass) (tag : CInt) : Reading Bytes :=
  if tag ≠ Char.int cls.tag ∧ tag ≠ Char.int cls.chunkTag then fail
  else do
    let created ← bufferCreate (if tag = Char.int cls.chunkTag then HESSIAN_CHUNK_SIZE else 32)
    let s ← read
    let buf ← binaryGetChunks cls (s.input.length + 2) tag
      (if created then .holding [] else .absent)
    match buf with
    | .holding data => do if ← calloc data.length then pure data else fail
    | .absent => do if ← calloc 0 then pure [] else fail
    | .lost => do
      -- the buffer held no more than the allocator grants; `memcpy` then reads from NULL
      visit fun s => .copyLost s.mem
      if ← calloc 0 then undefined else fail

/-- Four bytes as an `int32_t`, the highest first. -/
def getInt32 : Reading CInt := do
  let b32 ← bufferGetc
  let b24 ← bufferGetc
  let b16 ← bufferGetc
  let b8 ← bufferGetc
  pure ((b32 <<< 24) + (b24 <<< 16) + (b16 <<< 8) + b8)

/-- `hessian_integer_deserialize`, for the classes Integer and Ref. -/
def hessianIntegerDeserialize (cls : HessianClass) (tag : CInt) : Reading CInt :=
  if tag ≠ Char.int cls.tag then fail else getInt32

/-- `buffer_getc` into an `int64_t`. -/
def bufferGetc64 : Reading (BitVec 64) := do
  let b ← bufferGetc
  pure (b.signExtend 64)

/-- `hessian_long_deserialize`, for the classes Long and Date, and `hessian_double_deserialize`,
    which reads the bits of its value the same way. -/
def hessianLongDeserialize (cls : HessianClass) (tag : CInt) : Reading (BitVec 64) :=
  if tag ≠ Char.int cls.tag then fail
  else do
    let b64 ← bufferGetc64
    let b56 ← bufferGetc64
    let b48 ← bufferGetc64
    let b40 ← bufferGetc64
    let b32 ← bufferGetc64
    let b24 ← bufferGetc64
    let b16 ← bufferGetc64
    let b8 ← bufferGetc64
    pure ((b64 <<< 56) + (b56 <<< 48) + (b48 <<< 40) + (b40 <<< 32) + (b32 <<< 24)
      + (b24 <<< 16) + (b16 <<< 8) + b8)

/-- `hessian_boolean_deserialize`. -/
def hessianBooleanDeserialize (cls : HessianClass) (tag : CInt) : Reading Bool :=
  if tag ≠ Char.int cls.tag ∧ tag ≠ Char.int cls.chunkTag then fail
  else pure (tag == Char.int cls.tag)

/-- `hessian_null_deserialize`. -/
def hessianNullDeserialize (cls : HessianClass) (tag : CInt) : Reading Unit :=
  if tag ≠ Char.int cls.tag then fail else pure ()

/-- `hessian_remote_deserialize`. What `utf8_bgets` returns is stored as it is, NULL or not. -/
def hessianRemoteDeserialize (cls : HessianClass) (tag : CInt) :
    Reading (Option CString × Option CString) :=
  if tag ≠ Char.int cls.tag then fail
  else do
    let typeTag ← bufferGetc
    if typeTag ≠ Char.int 't' then fail
    else do
      let type ← readText
      let urlTag ← bufferGetc
      if urlTag ≠ Char.int 'S' then fail
      else do
        let url ← readText
        pure (type.map CString.ofArray, url.map CString.ofArray)

/-! ## 4. Destructors -/

def runAll : List (Reading Unit) → Reading Unit
  | [] => pure ()
  | act :: rest => do
    act
    runAll rest

/-- `llist_delete_elements` on `n` pointers, with `deletes` for the distinct ones in order. The
    scratch array it allocates is written to unless there is no pointer. -/
def llistDeleteElements (n : Nat) (dangling : Bool) (deletes : List (Reading Unit)) :
    Reading Unit := do
  visit fun s => .deleteElements n dangling s.mem
  if dangling then undefined
  else do
    if ← calloc (8 * n) then runAll deletes
    else if n = 0 then pure () else undefined

/-- The `llist_add`s of `hessian_map_dtor`, which are not checked: the pointers added. -/
def addPointers : List Nat → Reading (List Nat)
  | [] => pure []
  | pointer :: rest => do
    if ← llistAdd then
      let added ← addPointers rest
      pure (pointer :: added)
    else addPointers rest

/-- A list position points to a deleted object: every Ref of a list is deleted. -/
def listDangling (elements : List HessianObject) (i : Nat) : Bool :=
  match elements[i]? with
  | some (.ref _) => true
  | _ => false

/-- A value pointer of a map points to a deleted object: the Refs to a pair are deleted. -/
def mapDangling (values : List HessianObject) (i : Nat) : Bool :=
  match values[i]? with
  | some (.ref value) => (llistGet values.length value).isSome
  | _ => false

mutual
/-- `hessian_delete` of an object that was read to its end. The keys and values of a map have the
    pointers `0, 1, 2, 3, …`, in turn. -/
def hessianDelete : HessianObject → Reading Unit
  | .list _ elements =>
    llistDeleteElements elements.length ((listLinks elements).any (listDangling elements))
      (linked (listLinks elements).eraseDups (deletesOf elements))
  | .map _ pairs => do
    if ← llistCreate then
      let values := pairs.map Prod.snd
      let pointers := ((mapLinks values).zipIdx.map fun (link, i) => [2 * i, 2 * link + 1]).flatten
      let added ← addPointers pointers
      llistDeleteElements added.length
        (added.any fun p => p % 2 == 1 && mapDangling values (p / 2))
        (linked added.eraseDups (deletesOfPairs pairs))
    else pure ()
  | _ => pure ()

/-- The deletions of the elements of a list. -/
def deletesOf : List HessianObject → List (Reading Unit)
  | [] => []
  | object :: rest => hessianDelete object :: deletesOf rest

/-- The deletions of the keys and values of a map. -/
def deletesOfPairs : List (HessianObject × HessianObject) → List (Reading Unit)
  | [] => []
  | (key, value) :: rest => hessianDelete key :: hessianDelete value :: deletesOfPairs rest
end

/-- The clean-up of a list that is not finished: the elements read so far. -/
def deleteElements (refs : List HessianObject) : Reading Unit :=
  llistDeleteElements refs.length false (deletesOf refs)

/-- The clean-up of a map that is not finished, with `map_pair_delete`. -/
def deletePairs (refs : List (HessianObject × HessianObject)) : Reading Unit :=
  llistDeleteElements refs.length false (deletesOfPairs refs)

/-! ## 5. Containers -/

/-- The optional type of a list or a map, and the tag behind it. -/
def getOptionalType (nextTag : CInt) : Reading (Option CString × CInt) :=
  if nextTag = Char.int 't' then do
    match ← readText with
    | none => fail
    | some type =>
      let nextTag ← bufferGetc
      pure (some (CString.ofArray type), nextTag)
  else pure (none, nextTag)

/-- The optional length of a list, which is not used, and the tag behind it. -/
def getOptionalLength (nextTag : CInt) : Reading CInt :=
  if nextTag = Char.int 'l' then do
    let _ ← getInt32
    bufferGetc
  else pure nextTag

/-- The last loop of `hessian_list_deserialize` over the `n` elements read. A Ref to no element,
    and a node that cannot be allocated, make it delete an element and then all of them. -/
def linkElements (n : Nat) : List HessianObject → Reading Unit
  | [] => pure ()
  | object :: rest => do
    visit fun s => .linkElement n object s.mem
    if (refIndex n 0 object).isNone then undefined
    else do
      if ← llistAdd then linkElements n rest else undefined

/-- The last loop of `hessian_map_deserialize`. -/
def linkPairs : List (HessianObject × HessianObject) → Reading Unit
  | [] => pure ()
  | _ :: rest => do
    if ← llistAdd then linkPairs rest else fail

/-- `hessian_list_deserialize`, around its loop over the elements. -/
def hessianListDeserialize (elementsLoop : CInt → Reading (List HessianObject))
    (cls : HessianClass) (tag : CInt) : Reading (Option CString × List HessianObject) :=
  if tag ≠ Char.int cls.tag then fail
  else do
    if ← llistCreate then
      let nextTag ← bufferGetc
      let (type, nextTag) ← getOptionalType nextTag
      let nextTag ← getOptionalLength nextTag
      let refs ← elementsLoop nextTag
      if ← llistCreate then
        linkElements refs.length refs
        pure (type, refs)
      else do
        deleteElements refs
        fail
    else fail

/-- `hessian_map_deserialize`, around its loop over the pairs. -/
def hessianMapDeserialize
    (pairsLoop : CInt → Reading (List (HessianObject × HessianObject)))
    (cls : HessianClass) (tag : CInt) :
    Reading (Option CString × List (HessianObject × HessianObject)) :=
  if tag ≠ Char.int cls.tag then fail
  else do
    if ← llistCreate then
      let nextTag ← bufferGetc
      let (type, nextTag) ← getOptionalType nextTag
      let refs ← pairsLoop nextTag
      if ← llistCreate then
        linkPairs refs
        pure (type, refs)
      else do
        deletePairs refs
        fail
    else fail

/-- `class->deserialize(object, tag, input)`, with the loops of the containers. -/
def deserializeAs (elementsLoop : CInt → Reading (List HessianObject))
    (pairsLoop : CInt → Reading (List (HessianObject × HessianObject)))
    (cls : HessianClass) (tag : CInt) : Reading HessianObject :=
  match cls.type with
  | .null => do
    hessianNullDeserialize cls tag
    pure .null
  | .boolean => do pure (.boolean (← hessianBooleanDeserialize cls tag))
  | .integer => do pure (.integer (← hessianIntegerDeserialize cls tag))
  | .ref => do pure (.ref (← hessianIntegerDeserialize cls tag))
  | .long => do pure (.long (← hessianLongDeserialize cls tag))
  | .date => do pure (.date (← hessianLongDeserialize cls tag))
  | .double => do pure (.double (← hessianLongDeserialize cls tag))
  | .string => do pure (.string (← hessianStringDeserialize cls tag))
  | .xml => do pure (.xml (← hessianStringDeserialize cls tag))
  | .binary => do pure (.binary (← hessianBinaryDeserialize cls tag))
  | .remote => do
    let (type, url) ← hessianRemoteDeserialize cls tag
    pure (.remote type url)
  | .list => do
    let (type, elements) ← hessianListDeserialize elementsLoop cls tag
    pure (.list type elements)
  | .map => do
    let (type, pairs) ← hessianMapDeserialize pairsLoop cls tag
    pure (.map type pairs)
  | .unknown => fail

mutual
/-- `hessian_deserialize_tag`. -/
def hessianDeserializeTag : (fuel : Nat) → (tag : CInt) → Reading HessianObject
  | 0, _ => outOfFuel
  | fuel + 1, tag =>
    match getclass (gettype tag) with
    | none => fail
    | some cls => do
      if ← calloc cls.size then
        deserializeAs (listElements fuel cls []) (mapPairs fuel cls []) cls tag
      else fail

/-- The loop of `hessian_list_deserialize` over the elements: `refs` are those read so far. -/
def listElements : (fuel : Nat) → HessianClass → (refs : List HessianObject) → (nextTag : CInt) →
    Reading (List HessianObject)
  | 0, _, _, _ => outOfFuel
  | fuel + 1, cls, refs, nextTag =>
    if nextTag = Char.int cls.chunkTag ∨ nextTag = BUFFER_EOF then pure refs
    else do
      let o ← (hessianDeserializeTag fuel nextTag).onFailure (deleteElements refs)
      if ← llistAdd then
        let nextTag ← bufferGetc
        listElements fuel cls (refs ++ [o]) nextTag
      else do
        hessianDelete o
        deleteElements refs
        fail

/-- The loop of `hessian_map_deserialize` over the pairs: `refs` are those read so far. -/
def mapPairs : (fuel : Nat) → HessianClass → (refs : List (HessianObject × HessianObject)) →
    (nextTag : CInt) → Reading (List (HessianObject × HessianObject))
  | 0, _, _, _ => outOfFuel
  | fuel + 1, cls, refs, nextTag =>
    if nextTag = Char.int cls.chunkTag ∨ nextTag = BUFFER_EOF then pure refs
    else do
      let key ← (hessianDeserializeTag fuel nextTag).onFailure (deletePairs refs)
      let nextTag ← bufferGetc
      let value ← (hessianDeserializeTag fuel nextTag).onFailure (do
        hessianDelete key
        deletePairs refs)
      -- the pair, then its node in the list
      if ← calloc 16 then
        if ← llistAdd then
          let nextTag ← bufferGetc
          mapPairs fuel cls (refs ++ [(key, value)]) nextTag
        else do
          hessianDelete key
          hessianDelete value
          deletePairs refs
          fail
      else do
        hessianDelete key
        hessianDelete value
        deletePairs refs
        fail
end

/-- `hessian_deserialize`. The fuel lasts for every input. -/
def hessianDeserialize : Reading HessianObject := do
  let tag ← bufferGetc
  let s ← read
  let object ← hessianDeserializeTag (2 * s.input.length + 2) tag
  pure object.resolved

/-- A buffer about to be read. -/
def Reader.start (input : Bytes) (mem : Mem) : Reader := ⟨input, mem, []⟩

end ArgusPep
