/-
  File:      ArgusPep/Hessian/Serialize.lean
  Subject:   `hessian_serialize` and the serializers of the thirteen classes.

  A serializer is a run over the bytes written so far. Reading a string past its terminating zero
  byte, counting its bytes or the elements of a container past `INT_MAX`, `strlen` of a NULL pointer
  and a `buffer_write` from outside the string are undefined.

  * `countUtf8`, `utf8Strlen` -- the loop of `utf8_strlen`, and the function;
  * `chunkEnd`, `textChunks`, `hessianStringSerialize` -- the two loops of
    `hessian_string_serialize`, by byte positions as the source has them, and the function;
  * `hessianBinarySerialize`, `hessianIntegerSerialize`, `hessianLongSerialize`, … -- the others;
  * `hessianSerialize` -- the dispatch over the class of the object, with the loops of
    `hessian_list_serialize` and `hessian_map_serialize`.
-/
import ArgusPep.Lib.Run
import ArgusPep.Hessian.Types

namespace ArgusPep

open Lib Run

/-- `HESSIAN_CHUNK_SIZE`, which is `INT16_MAX`. -/
def HESSIAN_CHUNK_SIZE : Nat := 32767

/-- A serializer: it appends to the bytes written. -/
abbrev Writer (α : Type) := Run Bytes α

/-- `buffer_putc`. -/
def bufferPutc (c : CInt) : Writer Unit := update (· ++ [putc c])

/-- `buffer_write` of `bs`. -/
def bufferWrite (bs : Bytes) : Writer Unit := update (· ++ bs)

/-- `buffer_write` of the `n` bytes at `pos` of an array: undefined outside the array. -/
def bufferWriteAt (array : Bytes) (pos n : Nat) : Writer Unit :=
  if pos + n ≤ array.length then bufferWrite ((array.drop pos).take n) else undefined

/-- The two bytes of a length: `b16= l >> 8`, `b8= l & 0x00FF`. -/
def putSize16 (l : Nat) : Writer Unit := do
  bufferPutc (BitVec.ofNat 32 (l >>> 8))
  bufferPutc (BitVec.ofNat 32 (l &&& 0xFF))

/-! ## 1. Strings and xml -/

/-- The loop of `utf8_strlen` from index `i`, with `j` characters counted: the bytes that are not
    continuation bytes. The index is an `int`. -/
def countUtf8 {σ : Type} : (s : Bytes) → (i j : Nat) → Run σ Nat
  | [], _, j => pure j
  | b :: bs, i, j => do
    let i ← next INT_MAX i
    countUtf8 bs i (if b &&& 0xC0 ≠ 0x80 then j + 1 else j)

/-- `utf8_strlen`. -/
def utf8Strlen {σ : Type} (s : Bytes) : Run σ Nat := countUtf8 s 0 0

/-- The inner loop of `hessian_string_serialize`: from `pos`, with `nUtf8s` characters passed, the
    position behind the chunk. `array` is the string with its terminating zero. -/
def chunkEnd (array : Bytes) : (fuel nUtf8s pos : Nat) → Writer Nat
  | 0, _, _ => outOfFuel
  | fuel + 1, nUtf8s, pos =>
    if nUtf8s < HESSIAN_CHUNK_SIZE then
      match array[pos]? with
      | none => undefined
      | some byte =>
        if byte &&& 0xC0 ≠ 0x80 then
          if byte &&& 0xE0 = 0xC0 then chunkEnd array fuel (nUtf8s + 1) (pos + 2)
          else if byte &&& 0xF0 = 0xE0 then chunkEnd array fuel (nUtf8s + 1) (pos + 3)
          else if byte &&& 0xF0 = 0xF0 then chunkEnd array fuel (nUtf8s + 1) (pos + 4)
          else chunkEnd array fuel (nUtf8s + 1) (pos + 1)
        else chunkEnd array fuel nUtf8s (pos + 1)
    else pure pos

/-- The outer loop of `hessian_string_serialize`: the full chunks. It ends with the number of
    characters left and the position they start at. -/
def textChunks (cls : HessianClass) (array : Bytes) : (fuel utf8L pos : Nat) → Writer (Nat × Nat)
  | 0, _, _ => outOfFuel
  | fuel + 1, utf8L, pos =>
    if utf8L > HESSIAN_CHUNK_SIZE then do
      bufferPutc (Char.int cls.chunkTag)
      putSize16 HESSIAN_CHUNK_SIZE
      let stop ← chunkEnd array (array.length + 1) 0 pos
      bufferWriteAt array pos (stop - pos)
      textChunks cls array fuel (utf8L - HESSIAN_CHUNK_SIZE) stop
    else pure (utf8L, pos)

/-- `hessian_string_serialize`, for the classes String and Xml. -/
def hessianStringSerialize (cls : HessianClass) (self : CString) : Writer Unit := do
  let array := self.bytes ++ [0]
  let strL := self.bytes.length
  let utf8L ← utf8Strlen self.bytes
  let (utf8L, pos) ← textChunks cls array (utf8L + 1) utf8L 0
  bufferPutc (Char.int cls.tag)
  putSize16 utf8L
  -- `str_l - pos` wraps round when `pos` is behind the end of the string
  if pos ≤ strL then bufferWriteAt array pos (strL - pos) else undefined

/-! ## 2. The other scalar classes -/

/-- The loop of `hessian_binary_serialize`. -/
def binaryChunks (cls : HessianClass) (data : Bytes) : (fuel byteL pos : Nat) → Writer (Nat × Nat)
  | 0, _, _ => outOfFuel
  | fuel + 1, byteL, pos =>
    if byteL > HESSIAN_CHUNK_SIZE then do
      bufferPutc (Char.int cls.chunkTag)
      putSize16 HESSIAN_CHUNK_SIZE
      bufferWriteAt data pos HESSIAN_CHUNK_SIZE
      binaryChunks cls data fuel (byteL - HESSIAN_CHUNK_SIZE) (pos + HESSIAN_CHUNK_SIZE)
    else pure (byteL, pos)

/-- `hessian_binary_serialize`. -/
def hessianBinarySerialize (cls : HessianClass) (data : Bytes) : Writer Unit := do
  let (byteL, pos) ← binaryChunks cls data (data.length + 1) data.length 0
  bufferPutc (Char.int cls.tag)
  putSize16 byteL
  bufferWriteAt data pos byteL

/-- `(value >> k) & 0x000000FF` of a signed 32-bit value. -/
def byteOfInt (value : CInt) (k : Nat) : CInt := value.sshiftRight k &&& 0xFF#32

/-- `(value >> k) & 0x000000FF` of a signed 64-bit value, as an `int`. -/
def byteOfLong (value : BitVec 64) (k : Nat) : CInt :=
  (value.sshiftRight k &&& 0xFF#64).setWidth 32

/-- The four bytes of an `int32_t`, the highest first. -/
def putInt32 (value : CInt) : Writer Unit := do
  bufferPutc (byteOfInt value 24)
  bufferPutc (byteOfInt value 16)
  bufferPutc (byteOfInt value 8)
  bufferPutc (byteOfInt value 0)

/-- `hessian_integer_serialize`, for the classes Integer and Ref. -/
def hessianIntegerSerialize (cls : HessianClass) (value : CInt) : Writer Unit := do
  bufferPutc (Char.int cls.tag)
  putInt32 value

/-- `hessian_long_serialize`, for the classes Long and Date, and `hessian_double_serialize`, which
    writes the bits of its value the same way. -/
def hessianLongSerialize (cls : HessianClass) (value : BitVec 64) : Writer Unit := do
  bufferPutc (Char.int cls.tag)
  bufferPutc (byteOfLong value 56)
  bufferPutc (byteOfLong value 48)
  bufferPutc (byteOfLong value 40)
  bufferPutc (byteOfLong value 32)
  bufferPutc (byteOfLong value 24)
  bufferPutc (byteOfLong value 16)
  bufferPutc (byteOfLong value 8)
  bufferPutc (byteOfLong value 0)

/-- `hessian_boolean_serialize`. -/
def hessianBooleanSerialize (cls : HessianClass) (value : Bool) : Writer Unit :=
  bufferPutc (if value then Char.int cls.tag else Char.int cls.chunkTag)

/-- `hessian_null_serialize`. -/
def hessianNullSerialize (cls : HessianClass) : Writer Unit := bufferPutc (Char.int cls.tag)

/-- A tag, the length of a text in characters and the text, in one piece: a type or an url. -/
def putText (tag : Char) (text : CString) : Writer Unit := do
  let utf8L ← utf8Strlen text.bytes
  bufferPutc (Char.int tag)
  putSize16 utf8L
  bufferWrite text.bytes

/-- `hessian_remote_serialize`: `strlen` of a NULL type or url is undefined. -/
def hessianRemoteSerialize (cls : HessianClass) : (type url : Option CString) → Writer Unit
  | some type, some url => do
    bufferPutc (Char.int cls.tag)
    putText 't' type
    putText 'S' url
  | _, _ => undefined

/-! ## 3. Containers and the dispatch -/

/-- The type of a list or a map, if any. -/
def putType : Option CString → Writer Unit
  | some type => putText 't' type
  | none => pure ()

/-- The length of a list, if it is not empty. -/
def putLength (listL : Nat) : Writer Unit :=
  if listL > 0 then do
    bufferPutc (Char.int 'l')
    putInt32 (BitVec.ofNat 32 listL)
  else pure ()

mutual
/-- `hessian_serialize`: the serializer of the object's class. -/
def hessianSerialize (object : HessianObject) : Writer Unit :=
  match getclass (hessianGettype object) with
  | none => fail
  | some cls =>
    match object with
    | .null => hessianNullSerialize cls
    | .boolean value => hessianBooleanSerialize cls value
    | .integer value => hessianIntegerSerialize cls value
    | .ref value => hessianIntegerSerialize cls value
    | .long value => hessianLongSerialize cls value
    | .date value => hessianLongSerialize cls value
    | .double value => hessianLongSerialize cls value
    | .string s => hessianStringSerialize cls s
    | .xml s => hessianStringSerialize cls s
    | .binary data => hessianBinarySerialize cls data
    | .remote type url => hessianRemoteSerialize cls type url
    | .list type elements => do
      bufferPutc (Char.int cls.tag)
      putType type
      putLength elements.length
      serializeElements elements 0
      bufferPutc (Char.int cls.chunkTag)
    | .map type pairs => do
      bufferPutc (Char.int cls.tag)
      putType type
      serializePairs pairs 0
      bufferPutc (Char.int cls.chunkTag)

/-- The loop of `hessian_list_serialize`, whose counter `i` is an `int`. -/
def serializeElements : List HessianObject → (i : Nat) → Writer Unit
  | [], _ => pure ()
  | object :: rest, i => do
    hessianSerialize object
    let i ← next INT_MAX i
    serializeElements rest i

/-- The loop of `hessian_map_serialize`, with such a counter. -/
def serializePairs : List (HessianObject × HessianObject) → (i : Nat) → Writer Unit
  | [], _ => pure ()
  | (key, value) :: rest, i => do
    hessianSerialize key
    hessianSerialize value
    let i ← next INT_MAX i
    serializePairs rest i
end

end ArgusPep
