/-
  File:      ArgusPep/Util/Bytes.lean
  Subject:   C integers, bytes, strings, and a `BUFFER` read as the queue of its unread bytes.

  The platform is LP64: `int` has 32 bits and `size_t` has 64. Two kinds of `int` are told apart:

  - a value put together from what was read (`(b16 << 8) + b8`, the four bytes of a number) wraps:
    `BUFFER_EOF` is shifted and added like a byte, and the source goes on with what comes out, so
    these are the bits two's complement gives;
  - a counter of bytes or of elements, used as an index (`i` of `utf8_strlen`, `j` of
    `llist_remove`), is undefined past `INT_MAX`, as the language has it: there is no index the
    source could mean, and the next access would be behind or in front of the array.

  * `CInt`, `Char.int`, `sizeOfInt` -- an `int`, a character constant as an `int`, the conversion
    of an `int` to `size_t`;
  * `INT_MAX` -- the bound of a counter, for `Run.next`;
  * `getc`, `putc` -- `buffer_getc` and `buffer_putc` of util/buffer.c on the unread bytes: past
    the end `getc` gives `BUFFER_EOF` and leaves the queue as it is;
  * `CString` -- what a non-NULL `char *` points to: bytes without a zero byte;
  * `Mem` -- the allocator: requests above `limit` are refused, the others are answered from
    `script` and granted once it is used up. `calloc` asks it; the `realloc` by which a buffer
    grows is taken to succeed, except where a model says otherwise.
-/
import Mathlib.Data.List.TakeWhile
import Mathlib.Algebra.Group.Nat.Defs

namespace ArgusPep

abbrev Bytes := List UInt8

/-- A C `int`. -/
abbrev CInt := BitVec 32

/-- The largest `int`, 2^31 - 1. -/
def INT_MAX : Nat := 2147483647

/-- A character constant as an `int`. -/
def Char.int (c : Char) : CInt := BitVec.ofNat 32 c.toNat

/-- A character constant as a byte. -/
def Char.byte (c : Char) : UInt8 := UInt8.ofNat c.toNat

/-- A byte as an `int` (it is unsigned). -/
def UInt8.int (b : UInt8) : CInt := BitVec.ofNat 32 b.toNat

/-- `BUFFER_EOF`, which is `INT_MIN`. -/
def BUFFER_EOF : CInt := 0x80000000#32

/-- The conversion of an `int` to `size_t`: a negative one goes modulo 2^64. -/
def sizeOfInt (n : CInt) : Nat := (n.signExtend 64).toNat

/-- The two bytes of a 16-bit length, read as two `int`s: `(b16 << 8) + b8` as `size_t`. -/
def size16 (b16 b8 : CInt) : Nat := sizeOfInt ((b16 <<< 8) + b8)

/-- An `int` that is not negative is converted as it is. -/
theorem sizeOfInt_of_nonneg {n : CInt} (h : 0 ≤ n.toInt) : (sizeOfInt n : Int) = n.toInt := by
  have hmsb : n.msb = false := by
    rw [BitVec.msb_eq_toInt]
    exact decide_eq_false (Int.not_lt.mpr h)
  have hlt := n.isLt
  unfold sizeOfInt
  rw [BitVec.signExtend_eq_setWidth_of_msb_false hmsb, BitVec.toNat_setWidth,
    BitVec.toInt_eq_toNat_of_msb hmsb]
  omega

/-! ## 1. The unread bytes of a buffer -/

/-- `buffer_getc` on the unread bytes. -/
def getc : Bytes → CInt × Bytes
  | [] => (BUFFER_EOF, [])
  | b :: bs => (UInt8.int b, bs)

/-- The byte `buffer_putc` appends: the `int` cast to `unsigned char`. -/
def putc (c : CInt) : UInt8 := ⟨c.setWidth 8⟩

@[simp] theorem getc_nil : getc [] = (BUFFER_EOF, []) := rfl

@[simp] theorem getc_cons (b : UInt8) (bs : Bytes) : getc (b :: bs) = (UInt8.int b, bs) := rfl

@[simp] theorem putc_int (b : UInt8) : putc (UInt8.int b) = b := by
  apply UInt8.toBitVec_inj.mp
  apply BitVec.eq_of_toNat_eq
  simp only [putc, UInt8.int, BitVec.toNat_setWidth, BitVec.toNat_ofNat, UInt8.toNat_toBitVec]
  have := b.toNat_lt
  omega

/-- The end of the input, stored as a byte, is zero. -/
@[simp] theorem putc_eof : putc BUFFER_EOF = 0 := by decide

theorem int_ne_eof (b : UInt8) : UInt8.int b ≠ BUFFER_EOF := by
  intro h
  have h' := congrArg BitVec.toNat h
  simp only [UInt8.int, BUFFER_EOF, BitVec.toNat_ofNat] at h'
  have := b.toNat_lt
  omega

theorem int_inj {a b : UInt8} (h : UInt8.int a = UInt8.int b) : a = b := by
  rw [← putc_int a, ← putc_int b, h]

theorem getc_length (bs : Bytes) : (getc bs).2.length ≤ bs.length := by
  cases bs with
  | nil => exact Nat.le_refl _
  | cons b bs => simp

/-- The two bytes of a length, both there: the length they say. -/
theorem size16_int (b16 b8 : UInt8) :
    size16 (UInt8.int b16) (UInt8.int b8) = b16.toNat * 256 + b8.toNat := by
  have h16 := b16.toNat_lt
  have h8 := b8.toNat_lt
  have e : (UInt8.int b16 <<< 8) + UInt8.int b8 = BitVec.ofNat 32 (b16.toNat * 256 + b8.toNat) := by
    apply BitVec.eq_of_toNat_eq
    simp only [UInt8.int, BitVec.toNat_add, BitVec.toNat_shiftLeft, BitVec.toNat_ofNat,
      Nat.shiftLeft_eq]
    omega
  unfold size16 sizeOfInt
  rw [e, BitVec.toNat_signExtend, BitVec.msb_eq_decide]
  simp only [BitVec.toNat_setWidth, BitVec.toNat_ofNat]
  rw [Nat.mod_eq_of_lt (by omega : b16.toNat * 256 + b8.toNat < 2 ^ 32)]
  have : ¬ 2 ^ (32 - 1) ≤ b16.toNat * 256 + b8.toNat := by omega
  simp only [decide_eq_true_eq, this, if_false]
  omega

/-! ## 2. C strings -/

/-- What a non-NULL `char *` points to, up to its terminating zero byte. -/
structure CString where
  bytes : Bytes
  nulFree : (0 : UInt8) ∉ bytes
deriving DecidableEq

namespace CString

theorem ext_bytes {s t : CString} (h : s.bytes = t.bytes) : s = t := by
  cases s
  cases t
  cases h
  rfl

def empty : CString := ⟨[], List.not_mem_nil⟩

def append (s t : CString) : CString :=
  ⟨s.bytes ++ t.bytes, fun h => (List.mem_append.mp h).elim s.nulFree t.nulFree⟩

@[simp] theorem empty_bytes : empty.bytes = [] := rfl

@[simp] theorem append_bytes (s t : CString) : (s.append t).bytes = s.bytes ++ t.bytes := rfl

/-- The string that starts where a `char` array starts: what `strlen` counts. -/
def ofArray (array : Bytes) : CString :=
  ⟨array.takeWhile (· != 0), fun h => by simpa using List.mem_takeWhile_imp h⟩

theorem ofArray_bytes {bs : Bytes} (h : (0 : UInt8) ∉ bs) : (ofArray bs).bytes = bs := by
  apply List.takeWhile_eq_self_iff.mpr
  intro b hb
  simp only [bne_iff_ne, ne_eq]
  intro e
  exact h (e ▸ hb)

theorem ofArray_eq (s : CString) : ofArray s.bytes = s := ext_bytes (ofArray_bytes s.nulFree)

theorem ofArray_length_le (array : Bytes) : (ofArray array).bytes.length ≤ array.length :=
  (List.takeWhile_prefix _).length_le

/-- The index of the terminating zero is an `int`: fewer than 2^31 bytes. -/
def FitsInt (s : CString) : Prop := s.bytes.length ≤ INT_MAX

instance (s : CString) : Decidable s.FitsInt := inferInstanceAs (Decidable (_ ≤ _))

/-- A text of character codes below 256 as a C string, for the names the source spells out. -/
def lit (s : String) : CString := ofArray (s.toList.map Char.byte)

end CString

/-! ## 3. The allocator -/

/-- The largest request an allocator grants. -/
def PTRDIFF_MAX : Nat := 2 ^ 63 - 1

structure Mem where
  /-- Requests above it are refused; `none` is an allocator without a bound. -/
  limit : Option Nat
  /-- The answers to the next requests within the bound. -/
  script : List Bool
deriving DecidableEq, Repr

namespace Mem

def refuses (m : Mem) (n : Nat) : Bool := m.limit.any (· < n)

/-- Whether the next request, of `n` bytes, is granted. -/
def grants (m : Mem) (n : Nat) : Bool := !m.refuses n && m.script.headD true

/-- The allocator after a request of `n` bytes. -/
def after (m : Mem) (n : Nat) : Mem := if m.refuses n then m else { m with script := m.script.tail }

/-- Grants everything. -/
def unlimited : Mem := ⟨none, []⟩

/-- Grants every request up to `PTRDIFF_MAX`. -/
def generous : Mem := ⟨some PTRDIFF_MAX, []⟩

@[simp] theorem grants_unlimited (n : Nat) : unlimited.grants n = true := rfl

@[simp] theorem after_unlimited (n : Nat) : unlimited.after n = unlimited := rfl

theorem grants_generous {n : Nat} (h : n ≤ PTRDIFF_MAX) : generous.grants n = true := by
  simp only [grants, refuses, generous, Option.any_some, List.headD_nil, Bool.and_true,
    Bool.not_eq_true', decide_eq_false_iff_not]
  omega

@[simp] theorem after_generous (n : Nat) : generous.after n = generous := by
  unfold after
  split <;> rfl

end Mem

end ArgusPep
