/-
  File:      ArgusPep/Util/Base64Lines.lean
  Subject:   `base64_encode_l` against the plain encoding, and the length of its lines.

  The counter of a line is looked at behind each block of four characters: a line ends with the
  block that brings it to `linesize`, not before the one that takes it over.

  * `blocks` -- what `encodeblock` writes, three bytes at a time; `encode_eq` -- their characters are
    the standard encoding;
  * `encodeLoop_plain`, `encodeLoop_lines` -- what the loop writes without and with a line size;
  * `base64EncodeL_lines` -- the plain encoding cut into lines, for every line size;
  * **`inLines_iff`** -- the lines keep to the size asked for exactly if it is a multiple of four, or
    one line is enough.
-/
import ArgusPep.Lib.Lines
import ArgusPep.Util.Base64Digits

namespace ArgusPep

open Lib.Sextets Lib.Lines

/-! ## 1. Blocks -/

/-- The blocks written for the input. -/
def blocks : Bytes → List Bytes
  | [] => []
  | [a] => [encodeblock a 0 0 1]
  | [a, b] => [encodeblock a b 0 2]
  | a :: b :: c :: x => encodeblock a b c 3 :: blocks x

theorem blocks_eq_nil {x : Bytes} : blocks x = [] ↔ x = [] := by
  match x with
  | [] => exact ⟨fun _ => rfl, fun _ => rfl⟩
  | [_] | [_, _] | _ :: _ :: _ :: _ => exact ⟨nofun, nofun⟩

theorem length_of_mem_blocks : ∀ (x : Bytes), ∀ b ∈ blocks x, b.length = 4
  | [] => fun _ h => absurd h List.not_mem_nil
  | [_] | [_, _] => fun _ h => by rw [List.mem_singleton.mp h]; rfl
  | _ :: _ :: _ :: x => List.forall_mem_cons.mpr ⟨rfl, length_of_mem_blocks x⟩

theorem blocks_length : ∀ x : Bytes, (blocks x).length = (x.length + 2) / 3
  | [] | [_] | [_, _] => by simp [blocks]
  | _ :: _ :: _ :: x => by
    rw [blocks, List.length_cons, blocks_length x]
    simp only [List.length_cons]
    omega

/-- A round of the loop takes a block from the input. -/
theorem getBlock_round : ∀ x : Bytes, x ≠ [] → ∃ a b c n behind,
    getBlock x = ((a, b, c), n, behind) ∧ n > 0 ∧
      blocks x = encodeblock a b c n :: blocks behind ∧ behind.length < x.length
  | [], h => absurd rfl h
  | [a], _ => ⟨a, 0, 0, 1, [], rfl, by decide, rfl, by simp⟩
  | [a, b], _ => ⟨a, b, 0, 2, [], rfl, by decide, rfl, by simp⟩
  | a :: b :: c :: x, _ => ⟨a, b, c, 3, x, rfl, by decide, rfl, by
    simp only [List.length_cons]
    omega⟩

/-! ## 2. The standard encoding -/

theorem digit0_eq (a : UInt8) : digit0 a = UInt8.ofNat (a.toNat / 4) :=
  shiftRight_eq a (k := 2) (by decide)

theorem digit1_eq (a b : UInt8) :
    digit1 a b = UInt8.ofNat (a.toNat % 4 * 16 + b.toNat / 16) := by
  have ha : (a &&& 0x03) <<< 4 = UInt8.ofNat (a.toNat % 2 ^ 2 * 2 ^ 4) := by
    rw [← ofNat_shiftLeft _ (by decide), ← and_low]
    rfl
  have hb : (b &&& 0xF0) >>> 4 = UInt8.ofNat (b.toNat / 2 ^ 4 % 2 ^ 4) :=
    field_eq b (by decide) rfl
  have hlt := b.toNat_lt
  unfold digit1
  rw [ha, hb, ofNat_or_of_lt _ (by omega)]
  exact congrArg UInt8.ofNat (by omega)

theorem digit2_eq (b c : UInt8) :
    digit2 b c = UInt8.ofNat (b.toNat % 16 * 4 + c.toNat / 64) := by
  have hb : (b &&& 0x0F) <<< 2 = UInt8.ofNat (b.toNat % 2 ^ 4 * 2 ^ 2) := by
    rw [← ofNat_shiftLeft _ (by decide), ← and_low]
    rfl
  have hc : (c &&& 0xC0) >>> 6 = UInt8.ofNat (c.toNat / 2 ^ 6 % 2 ^ 2) :=
    field_eq c (by decide) rfl
  have hlt := c.toNat_lt
  unfold digit2
  rw [hb, hc, ofNat_or_of_lt _ (by omega)]
  exact congrArg UInt8.ofNat (by omega)

theorem digit3_eq (c : UInt8) : digit3 c = UInt8.ofNat (c.toNat % 64) := and_low c 6

theorem base64Digit_ofNat (v : Nat) {n : Nat} (h : n = v % 64) :
    base64Digit (UInt8.ofNat n) = char (Fin.ofNat 64 v) := by
  rw [h, ← base64Digit_byte]
  rfl

/-- The four digits of a block are those of its number. -/
theorem quad_eq (a b c : UInt8) : quad (a.toNat * 65536 + b.toNat * 256 + c.toNat) =
    [base64Digit (digit0 a), base64Digit (digit1 a b), base64Digit (digit2 b c),
      base64Digit (digit3 c)] := by
  have ha := a.toNat_lt
  have hb := b.toNat_lt
  have hc := c.toNat_lt
  rw [digit0_eq, digit1_eq, digit2_eq, digit3_eq]
  unfold quad
  rw [base64Digit_ofNat ((a.toNat * 65536 + b.toNat * 256 + c.toNat) / 262144) (by omega),
    base64Digit_ofNat ((a.toNat * 65536 + b.toNat * 256 + c.toNat) / 4096) (by omega),
    base64Digit_ofNat ((a.toNat * 65536 + b.toNat * 256 + c.toNat) / 64) (by omega),
    base64Digit_ofNat (a.toNat * 65536 + b.toNat * 256 + c.toNat) (by omega)]

/-- **The blocks are the standard encoding.** -/
theorem encode_eq : ∀ x : Bytes, encode x = (blocks x).flatten
  | [] => rfl
  | [a] => by
    have h := quad_eq a 0 0
    rw [UInt8.toNat_zero, Nat.zero_mul, Nat.add_zero] at h
    rw [encode, h]
    rfl
  | [a, b] => by
    have h := quad_eq a b 0
    rw [UInt8.toNat_zero, Nat.add_zero] at h
    rw [encode, h]
    rfl
  | a :: b :: c :: x => by
    rw [encode, quad_eq, encode_eq x]
    rfl

/-! ## 3. The loop -/

/-- A round: a block and a line break, then the rounds behind it. -/
theorem encodeLoop_round {linesize : CInt} {fuel n : Nat} {x behind : Bytes} {a b c : UInt8}
    (hx : x ≠ []) (hget : getBlock x = ((a, b, c), n, behind)) (hn : n > 0) (out : Bytes)
    (bOut : Nat) :
    base64EncodeLoop linesize (fuel + 1) x out bOut = base64EncodeLoop linesize fuel behind
      (out ++ encodeblock a b c n ++ (lineBreak linesize (bOut + 4) behind).1)
      (lineBreak linesize (bOut + 4) behind).2 := by
  rw [base64EncodeLoop, if_neg hx, hget]
  dsimp only
  rw [if_pos hn]
  rfl

/-- Without a line size the blocks are written one behind the other. -/
theorem encodeLoop_plain : ∀ (fuel : Nat) (x out : Bytes) (bOut : Nat), x.length ≤ fuel →
    base64EncodeLoop NO_LINE_BREAK fuel x out bOut = some ([], out ++ (blocks x).flatten)
  | 0, [], out, _, _ | _ + 1, [], out, _, _ => by
    rw [base64EncodeLoop, if_pos rfl, blocks, List.flatten_nil, List.append_nil]
  | fuel + 1, d :: y, out, bOut, h => by
    have hx : d :: y ≠ [] := List.cons_ne_nil _ _
    obtain ⟨a, b, c, n, behind, hget, hn, hblocks, hlen⟩ := getBlock_round (d :: y) hx
    rw [encodeLoop_round hx hget hn, hblocks, List.flatten_cons, ← List.append_assoc]
    have hbreak : lineBreak NO_LINE_BREAK (bOut + 4) behind = ([], bOut + 4) :=
      if_neg fun h => h rfl
    rw [hbreak, List.append_nil]
    exact encodeLoop_plain fuel behind _ _ (by omega)

/-- With a line size they are cut into lines; `line` is what is on the line already. -/
theorem encodeLoop_lines {linesize : CInt} (hsize : linesize ≠ NO_LINE_BREAK) :
    ∀ (fuel : Nat) (x out line : Bytes), x.length ≤ fuel → x ≠ [] ∨ line = [] →
      base64EncodeLoop linesize fuel x (out ++ line) line.length
        = some ([], out ++ joinLines (cutLines (sizeOfInt linesize) line (blocks x)))
  | 0, [], out, line, _, h | _ + 1, [], out, line, _, h => by
    rw [base64EncodeLoop, if_pos rfl, h.resolve_left fun h => h rfl]
    rfl
  | fuel + 1, d :: y, out, line, hfuel, _ => by
    have hx : d :: y ≠ [] := List.cons_ne_nil _ _
    obtain ⟨a, b, c, n, behind, hget, hn, hblocks, hlen⟩ := getBlock_round (d :: y) hx
    have hlength : (line ++ encodeblock a b c n).length = line.length + 4 :=
      List.length_append
    rw [encodeLoop_round hx hget hn, hblocks, cutLines, hlength, lineBreak, if_pos hsize]
    by_cases hbreak : line.length + 4 ≥ sizeOfInt linesize ∨ behind = []
    · have ih := encodeLoop_lines hsize fuel behind
        (out ++ line ++ encodeblock a b c n ++ crlf) [] (by omega) (.inr rfl)
      rw [List.append_nil] at ih
      rw [if_pos hbreak, if_pos (hbreak.imp_right blocks_eq_nil.mpr)]
      refine ih.trans ?_
      simp only [joinLines, List.flatMap_cons, List.append_assoc]
    · have ih := encodeLoop_lines hsize fuel behind out (line ++ encodeblock a b c n) (by omega)
        (.inl fun e => hbreak (.inr e))
      rw [hlength, ← List.append_assoc] at ih
      rw [if_neg hbreak, if_neg fun h => hbreak (h.imp_right blocks_eq_nil.mp), List.append_nil]
      exact ih

/-! ## 4. The lines -/

/-- What is asked of `base64_encode_l`: it writes `w`, lines of at most `linesize` characters that
    CR LF ends, and without the breaks `w` is what `base64_encode` writes, the standard encoding. -/
structure InLines (x : Bytes) (linesize : CInt) (w : Bytes) : Prop where
  written : ∀ outbuf, base64EncodeL x outbuf linesize = some ([], outbuf ++ w)
  plain : ∀ outbuf, base64Encode x outbuf = some ([], outbuf ++ withoutBreaks w)
  standard : withoutBreaks w = encode x
  ended : (splitLines [] w).2 = []
  nonempty : w = [] → x = []
  short : ∀ l ∈ (splitLines [] w).1, (l.length : Int) ≤ linesize.toInt

theorem no_CR_in_encode (x : Bytes) : CR ∉ encode x := by
  intro h
  have hpad : CR ≠ pad := by decide
  have hchar : ∀ d, CR ≠ char d := by decide +kernel
  rcases mem_encode x CR h with h | ⟨d, h⟩
  · exact hpad h
  · exact hchar d h

/-- The lines of the text: the blocks, cut at the line size. -/
def linesOf (x : Bytes) (linesize : CInt) : List Bytes :=
  cutLines (sizeOfInt linesize) [] (blocks x)

variable {x : Bytes} {linesize : CInt}

/-- They are the encoding, in pieces. -/
theorem linesOf_flatten (x : Bytes) (linesize : CInt) : (linesOf x linesize).flatten = encode x := by
  unfold linesOf
  rw [cutLines_flatten _ _ _ (.inr rfl), encode_eq, List.nil_append]

theorem no_CR_in_lines (x : Bytes) (linesize : CInt) : ∀ l ∈ linesOf x linesize, CR ∉ l := by
  intro l hl h
  have hflat := List.mem_flatten.mpr ⟨l, hl, h⟩
  rw [linesOf_flatten] at hflat
  exact no_CR_in_encode x hflat

/-- **The encoding in lines is the plain encoding cut into lines**, whatever is in the output
    buffer. -/
theorem base64EncodeL_lines (hsize : 4 ≤ linesize.toInt) (outbuf : Bytes) :
    base64EncodeL x outbuf linesize = some ([], outbuf ++ joinLines (linesOf x linesize)) := by
  have hne : linesize ≠ NO_LINE_BREAK := by
    intro e
    obtain rfl := e
    exact absurd hsize (by decide)
  have hloop := encodeLoop_lines hne x.length x outbuf [] (Nat.le_refl _) (.inr rfl)
  rw [List.append_nil] at hloop
  unfold base64EncodeL
  rw [if_neg fun h => absurd hsize (Int.not_le.mpr h.2)]
  exact hloop

theorem base64Encode_standard (x outbuf : Bytes) :
    base64Encode x outbuf = some ([], outbuf ++ encode x) := by
  have hloop := encodeLoop_plain x.length x outbuf 0 (Nat.le_refl _)
  rw [← encode_eq] at hloop
  unfold base64Encode base64EncodeL
  rw [if_neg fun h => h.1 rfl]
  exact hloop

/-- **The encoding keeps to lines of the size asked for exactly if the size is a multiple of four,
    or the whole encoding fits on one line.** -/
theorem inLines_iff (x : Bytes) (linesize : CInt) (hsize : 4 ≤ linesize.toInt) :
    (∃ w, InLines x linesize w) ↔
      4 ∣ linesize.toInt ∨ ((4 * ((x.length + 2) / 3) : Nat) : Int) ≤ linesize.toInt := by
  have hcast : (sizeOfInt linesize : Int) = linesize.toInt := sizeOfInt_of_nonneg (by omega)
  have hsplit := splitLines_join (no_CR_in_lines x linesize)
  have hplain := withoutBreaks_join (no_CR_in_lines x linesize)
  rw [linesOf_flatten] at hplain
  have hpos : 0 < sizeOfInt linesize := by omega
  have hbounded := cutLines_bounded_iff hpos (length_of_mem_blocks x)
  rw [blocks_length] at hbounded
  have hcond : (4 ∣ linesize.toInt ∨ ((4 * ((x.length + 2) / 3) : Nat) : Int) ≤ linesize.toInt)
      ↔ 4 ∣ sizeOfInt linesize ∨ 4 * ((x.length + 2) / 3) ≤ sizeOfInt linesize := by
    omega
  refine Iff.trans ?_ (hbounded.trans hcond.symm)
  constructor
  · intro h
    obtain ⟨w, hw⟩ := h
    have hwritten := hw.written []
    rw [base64EncodeL_lines hsize, Option.some.injEq, Prod.mk.injEq] at hwritten
    have hshort := hw.short
    rw [← List.nil_append w, ← hwritten.2, List.nil_append, hsplit] at hshort
    intro l hl
    have hl' := hshort l hl
    omega
  · intro h
    refine ⟨joinLines (linesOf x linesize), base64EncodeL_lines hsize, ?_, hplain, ?_, ?_, ?_⟩
    · intro outbuf
      rw [hplain, base64Encode_standard]
    · rw [hsplit]
    · intro hnil
      rw [hnil] at hplain
      exact encode_eq_nil hplain.symm
    · intro l hl
      rw [hsplit] at hl
      have hl' := h l hl
      omega

/-- The line size of `pep.c` is a multiple of four. -/
theorem inLines_default : ∃ w, InLines [0x66, 0x6F, 0x6F, 0x62] BASE64_DEFAULT_LINE_SIZE w :=
  (inLines_iff [0x66, 0x6F, 0x6F, 0x62] BASE64_DEFAULT_LINE_SIZE (by decide)).mpr
    (.inl (by decide))

/-- Six bytes on lines of five are one line of eight. -/
theorem not_inLines_five :
    ¬ ∃ w, InLines [0x66, 0x6F, 0x6F, 0x62, 0x61, 0x72] 5 w := by
  have heval : base64EncodeL [0x66, 0x6F, 0x6F, 0x62, 0x61, 0x72] [] 5
      = some ([], "Zm9vYmFy\r\n".toList.map Char.byte) := by
    decide
  have hline : (splitLines [] ("Zm9vYmFy\r\n".toList.map Char.byte)).1
      = ["Zm9vYmFy".toList.map Char.byte] := by
    decide
  intro h
  obtain ⟨w, hw⟩ := h
  have hwritten := hw.written []
  rw [heval, Option.some.injEq, Prod.mk.injEq] at hwritten
  have hshort := hw.short
  rw [← List.nil_append w, ← hwritten.2, hline] at hshort
  exact absurd (hshort _ List.mem_cons_self) (by decide)

end ArgusPep
