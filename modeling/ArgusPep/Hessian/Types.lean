/-
  File:      ArgusPep/Hessian/Types.lean
  Subject:   The Hessian objects, their classes, and the tags the classes are written under.

  * `HessianT` -- `hessian_t`, the type of an object;
  * `HessianClass`, `getclass` -- the class descriptor of a type: its size and its two tags;
  * `gettype` -- the type a serialization tag announces;
  * `HessianObject` -- the objects themselves, one constructor a class. The text of a String, a
    type or an url is a `CString`; a type or an url that is not there is `none`, a NULL pointer.
    The 64 bits of a Double are kept as they are.
-/
import ArgusPep.Util.Bytes

namespace ArgusPep

/-! ## 1. Classes -/

inductive HessianT where
  | unknown | boolean | integer | long | double | date | string | xml | binary | remote
  | list | map | null | ref
deriving DecidableEq, Repr

structure HessianClass where
  type : HessianT
  /-- `sizeof` of the object structure. -/
  size : Nat
  tag : Char
  chunkTag : Char
deriving DecidableEq, Repr

abbrev hessianBooleanClass : HessianClass := ⟨.boolean, 16, 'T', 'F'⟩
abbrev hessianIntegerClass : HessianClass := ⟨.integer, 16, 'I', '\x00'⟩
abbrev hessianRefClass : HessianClass := ⟨.ref, 16, 'R', '\x00'⟩
abbrev hessianLongClass : HessianClass := ⟨.long, 16, 'L', '\x00'⟩
abbrev hessianDateClass : HessianClass := ⟨.date, 16, 'd', '\x00'⟩
abbrev hessianDoubleClass : HessianClass := ⟨.double, 16, 'D', '\x00'⟩
abbrev hessianStringClass : HessianClass := ⟨.string, 16, 'S', 's'⟩
abbrev hessianXmlClass : HessianClass := ⟨.xml, 16, 'X', 'x'⟩
abbrev hessianBinaryClass : HessianClass := ⟨.binary, 24, 'B', 'b'⟩
abbrev hessianRemoteClass : HessianClass := ⟨.remote, 24, 'r', '\x00'⟩
abbrev hessianListClass : HessianClass := ⟨.list, 24, 'V', 'z'⟩
abbrev hessianMapClass : HessianClass := ⟨.map, 24, 'M', 'z'⟩
abbrev hessianNullClass : HessianClass := ⟨.null, 8, 'N', '\x00'⟩

/-- `_getclass`: the class descriptor of a type. -/
def getclass : HessianT → Option HessianClass
  | .boolean => some hessianBooleanClass
  | .integer => some hessianIntegerClass
  | .long => some hessianLongClass
  | .double => some hessianDoubleClass
  | .string => some hessianStringClass
  | .xml => some hessianXmlClass
  | .binary => some hessianBinaryClass
  | .remote => some hessianRemoteClass
  | .date => some hessianDateClass
  | .list => some hessianListClass
  | .map => some hessianMapClass
  | .ref => some hessianRefClass
  | .null => some hessianNullClass
  | .unknown => none

/-- `_gettype`: the type a serialization tag announces. -/
def gettype (tag : CInt) : HessianT :=
  if tag = Char.int 'N' then .null
  else if tag = Char.int 'T' ∨ tag = Char.int 'F' then .boolean
  else if tag = Char.int 'I' then .integer
  else if tag = Char.int 'L' then .long
  else if tag = Char.int 'D' then .double
  else if tag = Char.int 'd' then .date
  else if tag = Char.int 's' ∨ tag = Char.int 'S' then .string
  else if tag = Char.int 'x' ∨ tag = Char.int 'X' then .xml
  else if tag = Char.int 'b' ∨ tag = Char.int 'B' then .binary
  else if tag = Char.int 'V' then .list
  else if tag = Char.int 'M' then .map
  else if tag = Char.int 'R' then .ref
  else if tag = Char.int 'r' then .remote
  else .unknown

/-- The end of the input is no tag. -/
theorem gettype_eof : gettype BUFFER_EOF = .unknown := by decide

/-! ## 2. Objects -/

inductive HessianObject where
  | null
  | boolean (value : Bool)
  | integer (value : CInt)
  | long (value : BitVec 64)
  | double (value : BitVec 64)
  | date (value : BitVec 64)
  | string (string : CString)
  | xml (string : CString)
  | binary (data : Bytes)
  | remote (type url : Option CString)
  | list (type : Option CString) (elements : List HessianObject)
  | map (type : Option CString) (pairs : List (HessianObject × HessianObject))
  | ref (value : CInt)

/-- `hessian_gettype`. -/
def hessianGettype : HessianObject → HessianT
  | .null => .null
  | .boolean _ => .boolean
  | .integer _ => .integer
  | .long _ => .long
  | .double _ => .double
  | .date _ => .date
  | .string _ => .string
  | .xml _ => .xml
  | .binary _ => .binary
  | .remote _ _ => .remote
  | .list _ _ => .list
  | .map _ _ => .map
  | .ref _ => .ref

/-- `hessian_integer_getvalue`; `INT32_MIN` on anything but an Integer. -/
def hessianIntegerGetvalue : HessianObject → CInt
  | .integer value => value
  | _ => 0x80000000#32

/-- `hessian_string_getstring`: the text of a String or an Xml, NULL on anything else. -/
def hessianStringGetstring : HessianObject → Option CString
  | .string s => some s
  | .xml s => some s
  | _ => none

end ArgusPep
