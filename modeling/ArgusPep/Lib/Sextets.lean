/-
  File:      ArgusPep/Lib/Sextets.lean
  Subject:   Bytes as digits of six bits, written with 64 characters.

  Three bytes are four digits: the number they stand for is the same. What is left over at the end
  of the bytes makes two or three digits, and is filled up with `=`; what is left over of the digits
  makes one byte less than there are digits.

  * `ofNat_shiftLeft`, `shiftRight_eq`, `field_eq`, … -- shifts and masks of a byte, as arithmetic;
  * `char`, `digit?` -- the character of a digit, the digit of a character;
  * `group`, `decode` -- the bytes of four digits, of any digits;
  * `quad`, `encode` -- the characters of three bytes, of any bytes;
  * `group_inj` -- four digits are determined by their bytes;
  * `decode_shift` -- one digit more in front changes what whole groups stand for, unless every
    digit is the same.
-/
import Mathlib.Algebra.Group.Nat.Defs
import Mathlib.Data.Fin.Basic

namespace Lib.Sextets

/-! ## 1. The bits of a byte -/

theorem ofNat_congr {m n : Nat} (h : m % 256 = n % 256) : UInt8.ofNat m = UInt8.ofNat n := by
  rw [← UInt8.ofNat_mod_size, ← UInt8.ofNat_mod_size (x := n)]
  exact congrArg UInt8.ofNat h

/-- Bits that do not overlap. -/
theorem ofNat_or_of_lt {n i : Nat} (m : Nat) (h : n < 2 ^ i) :
    UInt8.ofNat (m * 2 ^ i) ||| UInt8.ofNat n = UInt8.ofNat (m * 2 ^ i + n) := by
  rw [← UInt8.ofNat_or, Nat.mul_comm, ← Nat.two_pow_add_eq_or_of_lt h]

theorem ofNat_shiftLeft (n : Nat) {k : Nat} (h : k < 8) :
    UInt8.ofNat n <<< UInt8.ofNat k = UInt8.ofNat (n * 2 ^ k) := by
  rw [← Nat.shiftLeft_eq, UInt8.ofNat_shiftLeft _ _ h]

theorem shiftRight_eq (b : UInt8) {k : Nat} (h : k < 8) :
    b >>> UInt8.ofNat k = UInt8.ofNat (b.toNat / 2 ^ k) := by
  apply UInt8.toNat_inj.mp
  have hk : k % 256 % 8 = k := by omega
  have hlt : b.toNat / 2 ^ k < 256 := Nat.lt_of_le_of_lt (Nat.div_le_self _ _) b.toNat_lt
  rw [UInt8.toNat_shiftRight, UInt8.toNat_ofNat', UInt8.toNat_ofNat', hk, Nat.mod_eq_of_lt hlt,
    Nat.shiftRight_eq_div_pow]

theorem and_low (b : UInt8) (i : Nat) :
    b &&& UInt8.ofNat (2 ^ i - 1) = UInt8.ofNat (b.toNat % 2 ^ i) := by
  rw [← Nat.and_two_pow_sub_one_eq_mod, UInt8.ofNat_and, UInt8.ofNat_toNat]

/-- The `i` bits at bit `k`. -/
theorem field_eq (b : UInt8) {mask : UInt8} {k i : Nat} (h : k < 8)
    (hmask : mask >>> UInt8.ofNat k = UInt8.ofNat (2 ^ i - 1)) :
    (b &&& mask) >>> UInt8.ofNat k = UInt8.ofNat (b.toNat / 2 ^ k % 2 ^ i) := by
  have hlt : b.toNat / 2 ^ k < 256 := Nat.lt_of_le_of_lt (Nat.div_le_self _ _) b.toNat_lt
  rw [UInt8.shiftRight_and, hmask, shiftRight_eq b h, and_low, UInt8.toNat_ofNat',
    Nat.mod_eq_of_lt hlt]

/-! ## 2. Digits -/

abbrev Digit := Fin 64

/-- `A` to `Z`, `a` to `z`, `0` to `9`, `+` and `/`. -/
def char (d : Digit) : UInt8 :=
  if d.val < 26 then UInt8.ofNat (65 + d.val)
  else if d.val < 52 then UInt8.ofNat (97 + (d.val - 26))
  else if d.val < 62 then UInt8.ofNat (48 + (d.val - 52))
  else if d.val = 62 then 43
  else 47

def digit? (c : UInt8) : Option Digit :=
  if h : 65 ≤ c.toNat ∧ c.toNat ≤ 90 then some ⟨c.toNat - 65, by omega⟩
  else if h : 97 ≤ c.toNat ∧ c.toNat ≤ 122 then some ⟨c.toNat - 97 + 26, by omega⟩
  else if h : 48 ≤ c.toNat ∧ c.toNat ≤ 57 then some ⟨c.toNat - 48 + 52, by omega⟩
  else if c.toNat = 43 then some 62
  else if c.toNat = 47 then some 63
  else none

theorem char_of_digit? {c : UInt8} {d : Digit} (h : digit? c = some d) : c = char d := by
  have hall : ∀ n : Fin 256, (digit? (UInt8.ofNat n.val)).all
      (fun d => decide (UInt8.ofNat n.val = char d)) = true := by
    decide +kernel
  have hc := hall ⟨c.toNat, c.toNat_lt⟩
  rw [UInt8.ofNat_toNat, h, Option.all_some] at hc
  exact of_decide_eq_true hc

/-- A digit as a byte. -/
def Digit.byte (d : Digit) : UInt8 := UInt8.ofNat d.val

/-! ## 3. Digits to bytes -/

/-- The number four digits stand for; missing ones are zero. -/
def word (ds : List Digit) : Nat :=
  (((ds.getD 0 0).val * 64 + (ds.getD 1 0).val) * 64 + (ds.getD 2 0).val) * 64 + (ds.getD 3 0).val

/-- The three bytes of a number. -/
def bytes (v : Nat) : List UInt8 :=
  [UInt8.ofNat (v / 65536), UInt8.ofNat (v / 256), UInt8.ofNat v]

/-- One byte less than there are digits. -/
def group (ds : List Digit) : List UInt8 := (bytes (word ds)).take (ds.length - 1)

def decode : List Digit → List UInt8
  | d0 :: d1 :: d2 :: d3 :: ds => group [d0, d1, d2, d3] ++ decode ds
  | ds => group ds

/-- The bytes of four digits, two digits at a time. -/
theorem bytes_word (a b c d : Digit) : bytes (word [a, b, c, d]) =
    [UInt8.ofNat (a.val * 4 + b.val / 16), UInt8.ofNat (b.val * 16 + c.val / 4),
      UInt8.ofNat (c.val * 64 + d.val)] := by
  have hv : word [a, b, c, d] = ((a.val * 64 + b.val) * 64 + c.val) * 64 + d.val := rfl
  unfold bytes
  rw [hv, ofNat_congr (m := (((a.val * 64 + b.val) * 64 + c.val) * 64 + d.val) / 65536)
      (n := a.val * 4 + b.val / 16) (by omega),
    ofNat_congr (m := (((a.val * 64 + b.val) * 64 + c.val) * 64 + d.val) / 256)
      (n := b.val * 16 + c.val / 4) (by omega),
    ofNat_congr (m := ((a.val * 64 + b.val) * 64 + c.val) * 64 + d.val)
      (n := c.val * 64 + d.val) (by omega)]

theorem group_four (a b c d : Digit) : group [a, b, c, d] = bytes (word [a, b, c, d]) := rfl

/-- **Four digits are determined by their bytes.** -/
theorem group_inj {a b c d a' b' c' d' : Digit} (h : group [a, b, c, d] = group [a', b', c', d']) :
    a = a' ∧ b = b' ∧ c = c' ∧ d = d' := by
  rw [group_four, group_four, bytes_word, bytes_word] at h
  simp only [List.cons.injEq, and_true, ← UInt8.toNat_inj, UInt8.toNat_ofNat'] at h
  obtain ⟨h0, h1, h2⟩ := h
  refine ⟨Fin.ext ?_, Fin.ext ?_, Fin.ext ?_, Fin.ext ?_⟩ <;> omega

theorem group_length (ds : List Digit) : (group ds).length = min (ds.length - 1) 3 :=
  List.length_take

theorem group_nil : group [] = [] := List.eq_nil_of_length_eq_zero (group_length [])

/-- A digit alone makes no byte. -/
theorem group_one (d : Digit) : group [d] = [] := List.eq_nil_of_length_eq_zero (group_length [d])

theorem decode_nil : decode [] = [] := group_nil

theorem decode_one (d : Digit) : decode [d] = [] := group_one d

/-- Equal bytes have equal groups in front. -/
theorem group_append_inj {a b c d a' b' c' d' : Digit} {bs bs' : List UInt8} :
    group [a, b, c, d] ++ bs = group [a', b', c', d'] ++ bs' ↔
      (a = a' ∧ b = b' ∧ c = c' ∧ d = d') ∧ bs = bs' := by
  constructor
  · intro h
    obtain ⟨hgroup, hrest⟩ := List.append_inj h ((group_length _).trans (group_length _).symm)
    exact ⟨group_inj hgroup, hrest⟩
  · intro h
    obtain ⟨⟨rfl, rfl, rfl, rfl⟩, rfl⟩ := h
    rfl

/-- A digit in front of whole groups. -/
theorem decode_shift : ∀ (ds : List Digit) (d : Digit), ds.length % 4 = 0 →
    (decode (d :: ds) = decode ds ↔ ∀ e ∈ ds, e = d)
  | [], d, _ => by
    rw [decode_nil, decode_one]
    exact ⟨fun _ => nofun, fun _ => rfl⟩
  | [_], _, h | [_, _], _, h | [_, _, _], _, h => absurd h (by simp)
  | e0 :: e1 :: e2 :: e3 :: ds, d, h => by
    have hlen : ds.length % 4 = 0 := by
      simp only [List.length_cons] at h
      omega
    have ih := decode_shift ds e3 hlen
    simp only [decode, group_append_inj, List.forall_mem_cons]
    constructor
    · intro heq
      obtain ⟨⟨rfl, rfl, rfl, rfl⟩, hrest⟩ := heq
      exact ⟨rfl, rfl, rfl, rfl, ih.mp hrest⟩
    · intro hall
      obtain ⟨rfl, rfl, rfl, rfl, hall⟩ := hall
      exact ⟨⟨rfl, rfl, rfl, rfl⟩, ih.mpr hall⟩

/-! ## 4. Bytes to characters -/

/-- The characters of the four digits of a number. -/
def quad (v : Nat) : List UInt8 :=
  [char (Fin.ofNat 64 (v / 262144)), char (Fin.ofNat 64 (v / 4096)), char (Fin.ofNat 64 (v / 64)),
    char (Fin.ofNat 64 v)]

/-- The character that fills up the last four. -/
def pad : UInt8 := 61

def encode : List UInt8 → List UInt8
  | [] => []
  | [a] => (quad (a.toNat * 65536)).take 2 ++ [pad, pad]
  | [a, b] => (quad (a.toNat * 65536 + b.toNat * 256)).take 3 ++ [pad]
  | a :: b :: c :: bs => quad (a.toNat * 65536 + b.toNat * 256 + c.toNat) ++ encode bs

theorem encode_eq_nil {bs : List UInt8} (h : encode bs = []) : bs = [] := by
  match bs with
  | [] => rfl
  | [_] | [_, _] | _ :: _ :: _ :: _ => simp [encode, quad] at h

theorem mem_quad {v : Nat} {c : UInt8} (h : c ∈ quad v) : ∃ d, c = char d := by
  rcases List.mem_cons.mp h with rfl | h
  · exact ⟨_, rfl⟩
  rcases List.mem_cons.mp h with rfl | h
  · exact ⟨_, rfl⟩
  rcases List.mem_cons.mp h with rfl | h
  · exact ⟨_, rfl⟩
  exact ⟨_, List.mem_singleton.mp h⟩

/-- The characters of an encoding. -/
theorem mem_encode : ∀ (bs : List UInt8), ∀ c ∈ encode bs, c = pad ∨ ∃ d, c = char d
  | [], _, h => absurd h List.not_mem_nil
  | [a], c, h => by
    rcases List.mem_append.mp h with h | h
    · exact .inr (mem_quad (List.mem_of_mem_take h))
    · exact .inl (by simpa using h)
  | [a, b], c, h => by
    rcases List.mem_append.mp h with h | h
    · exact .inr (mem_quad (List.mem_of_mem_take h))
    · exact .inl (List.mem_singleton.mp h)
  | _ :: _ :: _ :: bs, c, h => by
    rcases List.mem_append.mp h with h | h
    · exact .inr (mem_quad h)
    · exact mem_encode bs c h

end Lib.Sextets
