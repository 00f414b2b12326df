/-
  File:      ArgusPep/Util/Base64.lean
  Subject:   `base64_encode_l` and `base64_decode` of util/base64.c, and their round trip.

  A buffer is the list of its unread bytes; the two functions empty their input buffer and append
  to their output buffer. `base64EncodeLoop` and `base64DecodeLoop` have one unit of fuel a round;
  a round reads a byte at least, so the input's length is enough.

  * `encodeblock`, `decodeblock` -- three bytes as four digits, and back;
  * `base64EncodeL`, `base64Encode`, `base64Decode` -- the functions;
  * `digits` -- the bytes of a text the decoder keeps, as digits: all it looks at;
  * `base64_round_trip` -- **decoding what was encoded gives it back, whatever the line size**.
-/
import Mathlib.Tactic.IntervalCases
import ArgusPep.Lib.Utf8
import ArgusPep.Util.Bytes

namespace ArgusPep

/-! ## 1. The code -/

/-- `base64[]`, without its terminating zero. -/
def base64Table : Bytes :=
  "ABCDEFGHIJKLMNOPQRSTUVWXYZabcdefghijklmnopqrstuvwxyz0123456789+/".toList.map Char.byte

def NO_LINE_BREAK : CInt := -1000

def BASE64_DEFAULT_LINE_SIZE : CInt := 64

/-- `base64[i]`. -/
def base64Digit (i : UInt8) : UInt8 := (base64Table ++ [0]).getD i.toNat 0

/-- `strchr(base64, c) - base64`: the zero behind the table counts. -/
def base64Index (c : UInt8) : Option UInt8 :=
  ((base64Table ++ [0]).idxOf? c).map UInt8.ofNat

/-- `encodeblock`. -/
def encodeblock (in0 in1 in2 : UInt8) (inL : Nat) : Bytes :=
  [base64Digit (in0 >>> 2),
    base64Digit (((in0 &&& 0x03) <<< 4) ||| ((in1 &&& 0xF0) >>> 4)),
    if inL > 1 then base64Digit (((in1 &&& 0x0F) <<< 2) ||| ((in2 &&& 0xC0) >>> 6))
      else Char.byte '=',
    if inL > 2 then base64Digit (in2 &&& 0x3F) else Char.byte '=']

/-- The inner loop of `base64_encode_l`: up to three bytes, how many, and the input left. -/
def getBlock : Bytes → (UInt8 × UInt8 × UInt8) × Nat × Bytes
  | [] => ((0, 0, 0), 0, [])
  | [a] => ((a, 0, 0), 1, [])
  | [a, b] => ((a, b, 0), 2, [])
  | a :: b :: c :: inbuf => ((a, b, c), 3, inbuf)

/-- The line break of a round: after it no byte is on the line. -/
def lineBreak (linesize : CInt) (bOut : Nat) (inbuf : Bytes) : Bytes × Nat :=
  if linesize ≠ NO_LINE_BREAK then
    if bOut ≥ sizeOfInt linesize ∨ inbuf = [] then ([Char.byte '\r', Char.byte '\n'], 0)
    else ([], bOut)
  else ([], bOut)

/-- The loop of `base64_encode_l`. -/
def base64EncodeLoop (linesize : CInt) :
    (fuel : Nat) → (inbuf outbuf : Bytes) → (bOut : Nat) → Option (Bytes × Bytes)
  | 0, inbuf, outbuf, _ => if inbuf = [] then some (inbuf, outbuf) else none
  | fuel + 1, inbuf, outbuf, bOut =>
    if inbuf = [] then some (inbuf, outbuf)
    else
      let ((in0, in1, in2), inL, inbuf) := getBlock inbuf
      let out := if inL > 0 then encodeblock in0 in1 in2 inL else []
      let (crlf, bOut) := lineBreak linesize (bOut + out.length) inbuf
      base64EncodeLoop linesize fuel inbuf (outbuf ++ out ++ crlf) bOut

/-- `base64_encode_l`: the input and the output buffer afterwards. -/
def base64EncodeL (inbuf outbuf : Bytes) (linesize : CInt) : Option (Bytes × Bytes) :=
  let linesize := if linesize ≠ NO_LINE_BREAK ∧ linesize.toInt < 4 then BASE64_DEFAULT_LINE_SIZE
    else linesize
  base64EncodeLoop linesize inbuf.length inbuf outbuf 0

/-- `base64_encode`. -/
def base64Encode (inbuf outbuf : Bytes) : Option (Bytes × Bytes) :=
  base64EncodeL inbuf outbuf NO_LINE_BREAK

/-- `decodeblock`. -/
def decodeblock (in0 in1 in2 in3 : UInt8) : Bytes :=
  [in0 <<< 2 ||| in1 >>> 4, in1 <<< 4 ||| in2 >>> 2, ((in2 <<< 6) &&& 0xC0) ||| in3]

/-- The inner loop of `base64_decode`: up to `n` digits, every other byte dropped, and the input
    left. -/
def getDigits : (n : Nat) → Bytes → List UInt8 × Bytes
  | 0, inbuf => ([], inbuf)
  | _ + 1, [] => ([], [])
  | n + 1, c :: inbuf =>
    match base64Index c with
    | some d =>
      let (ds, inbuf) := getDigits n inbuf
      (d :: ds, inbuf)
    | none => getDigits (n + 1) inbuf

/-- What a round of `base64_decode` writes for the digits it has. -/
def decodeDigits (ds : List UInt8) : Bytes :=
  if ds.length > 0 then
    (decodeblock (ds.getD 0 0) (ds.getD 1 0) (ds.getD 2 0) (ds.getD 3 0)).take (ds.length - 1)
  else []

/-- The loop of `base64_decode`. -/
def base64DecodeLoop : (fuel : Nat) → (inbuf outbuf : Bytes) → Option (Bytes × Bytes)
  | 0, inbuf, outbuf => if inbuf = [] then some (inbuf, outbuf) else none
  | fuel + 1, inbuf, outbuf =>
    if inbuf = [] then some (inbuf, outbuf)
    else
      let (ds, inbuf) := getDigits 4 inbuf
      base64DecodeLoop fuel inbuf (outbuf ++ decodeDigits ds)

/-- `base64_decode`: the input and the output buffer afterwards. -/
def base64Decode (inbuf outbuf : Bytes) : Option (Bytes × Bytes) :=
  base64DecodeLoop inbuf.length inbuf outbuf

/-! ## 2. One block -/

/-- A byte from its bits. -/
theorem byte_ext {a b : UInt8} (h : ∀ i < 8, a.toBitVec.getLsbD i = b.toBitVec.getLsbD i) :
    a = b :=
  UInt8.toBitVec_inj.mp (BitVec.eq_of_getLsbD_eq h)

section Block

variable (a b c : UInt8)

/-- The four digits of a block. -/
def digit0 : UInt8 := a >>> 2
def digit1 : UInt8 := ((a &&& 0x03) <<< 4) ||| ((b &&& 0xF0) >>> 4)
def digit2 : UInt8 := ((b &&& 0x0F) <<< 2) ||| ((c &&& 0xC0) >>> 6)
def digit3 : UInt8 := c &&& 0x3F

theorem decode_first : digit0 a <<< 2 ||| digit1 a b >>> 4 = a := by
  apply byte_ext
  intro i hi
  unfold digit0 digit1
  interval_cases i <;> simp

theorem decode_second : digit1 a b <<< 4 ||| digit2 b c >>> 2 = b := by
  apply byte_ext
  intro i hi
  unfold digit1 digit2
  interval_cases i <;> simp

theorem decode_third : ((digit2 b c <<< 6) &&& 0xC0) ||| digit3 c = c := by
  apply byte_ext
  intro i hi
  unfold digit2 digit3
  interval_cases i <;> simp

/-- The decoder finds a digit the encoder wrote at its place in the table. -/
theorem index_digit {d : UInt8} (h : d &&& 0xC0 = 0) : base64Index (base64Digit d) = some d :=
  Lib.Utf8.forall_byte (P := fun d => d &&& 0xC0 = 0 → base64Index (base64Digit d) = some d)
    (by decide +kernel) d h

theorem index_digit0 : base64Index (base64Digit (digit0 a)) = some (digit0 a) := by
  apply index_digit
  apply byte_ext
  intro i hi
  unfold digit0
  interval_cases i <;> simp

theorem index_digit1 : base64Index (base64Digit (digit1 a b)) = some (digit1 a b) := by
  apply index_digit
  apply byte_ext
  intro i hi
  unfold digit1
  interval_cases i <;> simp

theorem index_digit2 : base64Index (base64Digit (digit2 b c)) = some (digit2 b c) := by
  apply index_digit
  apply byte_ext
  intro i hi
  unfold digit2
  interval_cases i <;> simp

theorem index_digit3 : base64Index (base64Digit (digit3 c)) = some (digit3 c) := by
  apply index_digit
  apply byte_ext
  intro i hi
  unfold digit3
  interval_cases i <;> simp

end Block

/-! ## 3. The digits of a text -/

/-- The bytes the decoder keeps, as digits. -/
def digits (w : Bytes) : List UInt8 := w.filterMap base64Index

/-- Padding and line breaks are no digits. -/
theorem digits_pad : base64Index (Char.byte '=') = none := by decide

theorem digits_lineBreak (linesize : CInt) (bOut : Nat) (inbuf : Bytes) :
    digits (lineBreak linesize bOut inbuf).1 = [] := by
  unfold lineBreak
  split
  · split
    · decide
    · rfl
  · rfl

/-- The digits of what the encoder writes for `x`. -/
def blockDigits : Bytes → List UInt8
  | [] => []
  | [a] => [digit0 a, digit1 a 0]
  | [a, b] => [digit0 a, digit1 a b, digit2 b 0]
  | a :: b :: c :: x => digit0 a :: digit1 a b :: digit2 b c :: digit3 c :: blockDigits x

theorem digits_append (v w : Bytes) : digits (v ++ w) = digits v ++ digits w :=
  List.filterMap_append

theorem digits_block1 (a : UInt8) : digits (encodeblock a 0 0 1) = [digit0 a, digit1 a 0] := by
  show List.filterMap base64Index [base64Digit (digit0 a), base64Digit (digit1 a 0), Char.byte '=',
    Char.byte '='] = _
  simp only [List.filterMap_cons, index_digit0, index_digit1, digits_pad, List.filterMap_nil]

theorem digits_block2 (a b : UInt8) :
    digits (encodeblock a b 0 2) = [digit0 a, digit1 a b, digit2 b 0] := by
  show List.filterMap base64Index [base64Digit (digit0 a), base64Digit (digit1 a b),
    base64Digit (digit2 b 0), Char.byte '='] = _
  simp only [List.filterMap_cons, index_digit0, index_digit1, index_digit2, digits_pad,
    List.filterMap_nil]

theorem digits_block3 (a b c : UInt8) :
    digits (encodeblock a b c 3) = [digit0 a, digit1 a b, digit2 b c, digit3 c] := by
  show List.filterMap base64Index [base64Digit (digit0 a), base64Digit (digit1 a b),
    base64Digit (digit2 b c), base64Digit (digit3 c)] = _
  simp only [List.filterMap_cons, index_digit0, index_digit1, index_digit2, index_digit3,
    List.filterMap_nil]

/-- The loop of the encoder empties `x` and writes `w`, which has the digits of `x`. -/
def Encodes (linesize : CInt) (fuel : Nat) (x : Bytes) : Prop :=
  ∀ out bOut, ∃ w, base64EncodeLoop linesize fuel x out bOut = some ([], out ++ w) ∧
    digits w = blockDigits x

/-- One round: a block and a line break, then the rounds behind it. -/
theorem Encodes.round {linesize : CInt} {fuel : Nat} {x behind : Bytes} {a b c : UInt8} {n : Nat}
    (hget : getBlock x = ((a, b, c), n, behind)) (hx : x ≠ []) (hn : n > 0)
    (hds : blockDigits x = digits (encodeblock a b c n) ++ blockDigits behind)
    (hbehind : Encodes linesize fuel behind) : Encodes linesize (fuel + 1) x := by
  intro out bOut
  obtain ⟨w, hw, hdigits⟩ := hbehind
    (out ++ encodeblock a b c n
      ++ (lineBreak linesize (bOut + (encodeblock a b c n).length) behind).1)
    (lineBreak linesize (bOut + (encodeblock a b c n).length) behind).2
  refine ⟨encodeblock a b c n
    ++ (lineBreak linesize (bOut + (encodeblock a b c n).length) behind).1 ++ w, ?_, ?_⟩
  · unfold base64EncodeLoop
    rw [if_neg hx, hget]
    dsimp only
    rw [if_pos hn, hw]
    simp only [List.append_assoc]
  · rw [digits_append, digits_append, digits_lineBreak, List.append_nil, hdigits, hds]

theorem encodes_of_length_le (linesize : CInt) : ∀ (fuel : Nat) (x : Bytes), x.length ≤ fuel →
    Encodes linesize fuel x
  | 0, [], _ => fun out _ => ⟨[], by rw [List.append_nil]; rfl, rfl⟩
  | fuel + 1, [], _ => fun out _ => ⟨[], by rw [List.append_nil]; rfl, rfl⟩
  | fuel + 1, [a], _ =>
    .round rfl (List.cons_ne_nil _ _) (by decide) (by rw [digits_block1]; rfl)
      (encodes_of_length_le linesize fuel [] (Nat.zero_le _))
  | fuel + 1, [a, b], _ =>
    .round rfl (List.cons_ne_nil _ _) (by decide) (by rw [digits_block2]; rfl)
      (encodes_of_length_le linesize fuel [] (Nat.zero_le _))
  | fuel + 1, a :: b :: c :: x, h =>
    .round rfl (List.cons_ne_nil _ _) (by decide) (by rw [digits_block3]; rfl)
      (encodes_of_length_le linesize fuel x (by simp only [List.length_cons] at h; omega))

/-! ## 4. Decoding -/

/-- The decoder sees the digits only: `n` of them at a time. -/
theorem getDigits_digits : ∀ (n : Nat) (w : Bytes), (getDigits n w).1 = (digits w).take n ∧
    digits (getDigits n w).2 = (digits w).drop n ∧ (getDigits n w).2.length ≤ w.length
  | 0, w => by
    unfold getDigits
    exact ⟨rfl, rfl, Nat.le_refl _⟩
  | n + 1, [] => ⟨rfl, rfl, Nat.le_refl _⟩
  | n + 1, c :: w => by
    unfold getDigits digits
    rw [List.filterMap_cons]
    cases hc : base64Index c with
    | none =>
      obtain ⟨htake, hdrop, hlen⟩ := getDigits_digits (n + 1) w
      refine ⟨htake, hdrop, ?_⟩
      simp only [List.length_cons]
      omega
    | some d =>
      obtain ⟨htake, hdrop, hlen⟩ := getDigits_digits n w
      dsimp only
      refine ⟨by rw [htake]; rfl, hdrop, ?_⟩
      simp only [List.length_cons]
      omega

/-- Four digits to three bytes, and the last group. -/
def decodeGroups : List UInt8 → Bytes
  | d0 :: d1 :: d2 :: d3 :: ds => decodeDigits [d0, d1, d2, d3] ++ decodeGroups ds
  | ds => decodeDigits ds

theorem decodeGroups_round : ∀ ds : List UInt8,
    decodeGroups ds = decodeDigits (ds.take 4) ++ decodeGroups (ds.drop 4)
  | [] | [_] | [_, _] | [_, _, _] => by
    simp only [decodeGroups, List.take_nil, List.drop_nil, List.take_succ_cons,
      List.drop_succ_cons]
    exact (List.append_nil _).symm
  | d0 :: d1 :: d2 :: d3 :: ds => rfl

/-- The loop of the decoder empties its input and writes the groups of its digits. -/
theorem base64DecodeLoop_groups : ∀ (fuel : Nat) (w out : Bytes), w.length ≤ fuel →
    base64DecodeLoop fuel w out = some ([], out ++ decodeGroups (digits w))
  | 0, [], out, _ => by
    rw [show decodeGroups (digits []) = [] from rfl, List.append_nil]
    rfl
  | fuel + 1, [], out, _ => by
    rw [show decodeGroups (digits []) = [] from rfl, List.append_nil]
    rfl
  | fuel + 1, c :: w, out, h => by
    obtain ⟨htake, hdrop, hlen⟩ := getDigits_digits 4 (c :: w)
    have hshort : (getDigits 4 (c :: w)).2.length ≤ w.length := by
      unfold getDigits
      cases hc : base64Index c with
      | none => exact (getDigits_digits 4 w).2.2
      | some d => exact (getDigits_digits 3 w).2.2
    simp only [List.length_cons] at h
    have ih := base64DecodeLoop_groups fuel (getDigits 4 (c :: w)).2
      (out ++ decodeDigits (getDigits 4 (c :: w)).1) (by omega)
    unfold base64DecodeLoop
    rw [if_neg (List.cons_ne_nil _ _)]
    dsimp only
    rw [ih, htake, hdrop, List.append_assoc, ← decodeGroups_round]

/-- The groups of the digits of `x` are `x`. -/
theorem decodeGroups_blockDigits : ∀ x : Bytes, decodeGroups (blockDigits x) = x
  | [] => rfl
  | [a] => by
    show [digit0 a <<< 2 ||| digit1 a 0 >>> 4] = [a]
    rw [decode_first]
  | [a, b] => by
    show [digit0 a <<< 2 ||| digit1 a b >>> 4, digit1 a b <<< 4 ||| digit2 b 0 >>> 2] = [a, b]
    rw [decode_first, decode_second]
  | a :: b :: c :: x => by
    show (digit0 a <<< 2 ||| digit1 a b >>> 4) :: (digit1 a b <<< 4 ||| digit2 b c >>> 2) ::
      (((digit2 b c <<< 6) &&& 0xC0) ||| digit3 c) :: decodeGroups (blockDigits x) = _
    rw [decode_first, decode_second, decode_third, decodeGroups_blockDigits x]

/-- **Decoding what `base64_encode_l` wrote gives the input back, whatever the line size.** -/
theorem base64_round_trip (x : Bytes) (linesize : CInt) :
    ∃ w, base64EncodeL x [] linesize = some ([], w) ∧ base64Decode w [] = some ([], x) := by
  unfold base64EncodeL
  obtain ⟨w, hw, hdigits⟩ := encodes_of_length_le
    (if linesize ≠ NO_LINE_BREAK ∧ linesize.toInt < 4 then BASE64_DEFAULT_LINE_SIZE else linesize)
    x.length x (Nat.le_refl _) [] 0
  refine ⟨w, hw, ?_⟩
  unfold base64Decode
  rw [base64DecodeLoop_groups w.length w [] (Nat.le_refl _), hdigits, decodeGroups_blockDigits]
  rfl

/-- Two bytes on lines of four: two breaks would be one too many. -/
example : base64EncodeL [0x66, 0x6F, 0x6F, 0x62] [] 4
    = some ([], "Zm9v\r\nYg==\r\n".toList.map Char.byte) := by decide

end ArgusPep
