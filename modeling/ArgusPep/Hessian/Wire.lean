/-
  File:      ArgusPep/Hessian/Wire.lean
  Subject:   The bytes the serializers write.

  * `Writes` -- a serializer returns and appends these bytes;
  * `wire` -- the bytes of an object: what `hessian_serialize` writes into an empty buffer;
  * `chunkHead`, `chunkBody` -- the tag of the first chunk, and the chunks behind it;
  * `writes_text` -- **`hessian_string_serialize` writes the chunks of its text**;
  * `writes_binary` -- **`hessian_binary_serialize` writes the chunks of its data**.
-/
import ArgusPep.Lib.BigEndian
import ArgusPep.Lib.Utf8
import ArgusPep.Hessian.Serialize

namespace ArgusPep

open Lib Run Utf8

/-! ## 1. What a serializer appends -/

/-- The run returns and appends `w`, whatever was written before. -/
def Writes (m : Writer Unit) (w : Bytes) : Prop := ∀ out, m out = .done () (out ++ w)

/-- What a serializer writes into an empty buffer. -/
def written (m : Writer Unit) : Bytes :=
  match m [] with
  | .done _ w => w
  | _ => []

/-- The bytes of an object. -/
def wire (object : HessianObject) : Bytes := written (hessianSerialize object)

theorem Writes.written {m : Writer Unit} {w : Bytes} (h : Writes m w) : written m = w := by
  have e := h []
  unfold ArgusPep.written
  rw [e, List.nil_append]

theorem Writes.nil : Writes (pure ()) [] := fun out => by rw [List.append_nil]; rfl

theorem Writes.andThen {m : Writer Unit} {f : Unit → Writer Unit} {v w : Bytes}
    (hm : Writes m v) (hf : Writes (f ()) w) : Writes (m >>= f) (v ++ w) := by
  intro out
  rw [bind_done (hm out), hf, List.append_assoc]

theorem writes_putc (c : CInt) : Writes (bufferPutc c) [putc c] := fun _ => rfl

theorem writes_write (bs : Bytes) : Writes (bufferWrite bs) bs := fun _ => rfl

@[simp] theorem putc_char (c : Char) : putc (Char.int c) = Char.byte c := by
  apply UInt8.toNat_inj.mp
  show ((BitVec.ofNat 32 c.toNat).setWidth 8).toNat = (UInt8.ofNat c.toNat).toNat
  rw [BitVec.toNat_setWidth, BitVec.toNat_ofNat, UInt8.toNat_ofNat']
  omega

/-! ## 2. Numbers -/

theorem putc_ofNat (n : Nat) : putc (BitVec.ofNat 32 n) = UInt8.ofNat n := by
  apply UInt8.toNat_inj.mp
  show ((BitVec.ofNat 32 n).setWidth 8).toNat = _
  rw [BitVec.toNat_setWidth, BitVec.toNat_ofNat, UInt8.toNat_ofNat']
  omega

/-- The byte written for the bits from `k` on of a 32-bit value. -/
theorem putc_byteOfInt (v : CInt) {k : Nat} (h : k ≤ 24) :
    putc (byteOfInt v k) = UInt8.ofNat (v.toNat / 2 ^ k) := by
  have e := BigEndian.sshiftRight_and_byte v (k := k) (by omega)
  apply UInt8.toNat_inj.mp
  show ((byteOfInt v k).setWidth 8).toNat = _
  unfold byteOfInt
  rw [BitVec.toNat_setWidth, e, UInt8.toNat_ofNat']
  omega

/-- The byte written for the bits from `k` on of a 64-bit value. -/
theorem putc_byteOfLong (v : BitVec 64) {k : Nat} (h : k ≤ 56) :
    putc (byteOfLong v k) = UInt8.ofNat (v.toNat / 2 ^ k) := by
  have e := BigEndian.sshiftRight_and_byte v (k := k) (by omega)
  apply UInt8.toNat_inj.mp
  show ((byteOfLong v k).setWidth 8).toNat = _
  unfold byteOfLong
  rw [BitVec.toNat_setWidth, BitVec.toNat_setWidth, e, UInt8.toNat_ofNat']
  omega

/-- The two bytes of a length. -/
def size16Bytes (l : Nat) : Bytes := [UInt8.ofNat (l / 256), UInt8.ofNat l]

/-- The four bytes of an `int32_t`. -/
def int32Bytes (v : CInt) : Bytes :=
  [.ofNat (v.toNat / 2 ^ 24), .ofNat (v.toNat / 2 ^ 16), .ofNat (v.toNat / 2 ^ 8),
    .ofNat (v.toNat / 2 ^ 0)]

/-- The eight bytes of an `int64_t`. -/
def int64Bytes (v : BitVec 64) : Bytes :=
  [.ofNat (v.toNat / 2 ^ 56), .ofNat (v.toNat / 2 ^ 48), .ofNat (v.toNat / 2 ^ 40),
    .ofNat (v.toNat / 2 ^ 32), .ofNat (v.toNat / 2 ^ 24), .ofNat (v.toNat / 2 ^ 16),
    .ofNat (v.toNat / 2 ^ 8), .ofNat (v.toNat / 2 ^ 0)]

theorem writes_putSize16 (l : Nat) : Writes (putSize16 l) (size16Bytes l) := by
  have h16 : putc (BitVec.ofNat 32 (l >>> 8)) = UInt8.ofNat (l / 256) := by
    rw [putc_ofNat, Nat.shiftRight_eq_div_pow]
  have h8 : putc (BitVec.ofNat 32 (l &&& 0xFF)) = UInt8.ofNat l := by
    rw [putc_ofNat]
    apply UInt8.toNat_inj.mp
    rw [UInt8.toNat_ofNat', UInt8.toNat_ofNat', show (0xFF : Nat) = 2 ^ 8 - 1 from rfl,
      Nat.and_two_pow_sub_one_eq_mod, Nat.mod_mod]
  have e := (writes_putc (BitVec.ofNat 32 (l >>> 8))).andThen
    (f := fun _ => bufferPutc (BitVec.ofNat 32 (l &&& 0xFF))) (writes_putc _)
  rw [h16, h8] at e
  exact e

theorem writes_putInt32 (v : CInt) : Writes (putInt32 v) (int32Bytes v) := by
  intro out
  show Outcome.done () ((((out ++ [putc (byteOfInt v 24)]) ++ [putc (byteOfInt v 16)])
    ++ [putc (byteOfInt v 8)]) ++ [putc (byteOfInt v 0)]) = _
  rw [putc_byteOfInt v (by decide), putc_byteOfInt v (by decide), putc_byteOfInt v (by decide),
    putc_byteOfInt v (by decide)]
  simp only [int32Bytes, List.append_assoc, List.cons_append, List.nil_append]

theorem writes_long (cls : HessianClass) (v : BitVec 64) :
    Writes (hessianLongSerialize cls v) (Char.byte cls.tag :: int64Bytes v) := by
  intro out
  show Outcome.done () (((((((((out ++ [putc (Char.int cls.tag)]) ++ [putc (byteOfLong v 56)])
    ++ [putc (byteOfLong v 48)]) ++ [putc (byteOfLong v 40)]) ++ [putc (byteOfLong v 32)])
    ++ [putc (byteOfLong v 24)]) ++ [putc (byteOfLong v 16)]) ++ [putc (byteOfLong v 8)])
    ++ [putc (byteOfLong v 0)]) = _
  rw [putc_char, putc_byteOfLong v (by decide), putc_byteOfLong v (by decide),
    putc_byteOfLong v (by decide), putc_byteOfLong v (by decide), putc_byteOfLong v (by decide),
    putc_byteOfLong v (by decide), putc_byteOfLong v (by decide), putc_byteOfLong v (by decide)]
  simp only [int64Bytes, List.append_assoc, List.cons_append, List.nil_append]

/-! ## 3. Chunks -/

section Chunks

variable {α : Type}

/-- The tag of the first chunk of `xs`. -/
def chunkHead (cls : HessianClass) (xs : List α) : Char :=
  if HESSIAN_CHUNK_SIZE < xs.length then cls.chunkTag else cls.tag

/-- The chunks of `xs` behind the first tag: full ones and a last one. `enc` gives the bytes of the
    items of a chunk. -/
def chunkBody (cls : HessianClass) (enc : List α → Bytes) (xs : List α) : Bytes :=
  if HESSIAN_CHUNK_SIZE < xs.length then
    size16Bytes HESSIAN_CHUNK_SIZE ++ (enc (xs.take HESSIAN_CHUNK_SIZE) ++
      Char.byte (chunkHead cls (xs.drop HESSIAN_CHUNK_SIZE)) ::
        chunkBody cls enc (xs.drop HESSIAN_CHUNK_SIZE))
  else size16Bytes xs.length ++ enc xs
termination_by xs.length
decreasing_by
  rw [List.length_drop]
  unfold HESSIAN_CHUNK_SIZE at *
  omega

theorem chunkHead_full {cls : HessianClass} {xs : List α} (h : HESSIAN_CHUNK_SIZE < xs.length) :
    chunkHead cls xs = cls.chunkTag := if_pos h

theorem chunkHead_last {cls : HessianClass} {xs : List α} (h : ¬ HESSIAN_CHUNK_SIZE < xs.length) :
    chunkHead cls xs = cls.tag := if_neg h

theorem chunkBody_full {cls : HessianClass} {enc : List α → Bytes} {xs : List α}
    (h : HESSIAN_CHUNK_SIZE < xs.length) :
    chunkBody cls enc xs = size16Bytes HESSIAN_CHUNK_SIZE ++ (enc (xs.take HESSIAN_CHUNK_SIZE) ++
      Char.byte (chunkHead cls (xs.drop HESSIAN_CHUNK_SIZE)) ::
        chunkBody cls enc (xs.drop HESSIAN_CHUNK_SIZE)) := by
  rw [chunkBody, if_pos h]

theorem chunkBody_last {cls : HessianClass} {enc : List α → Bytes} {xs : List α}
    (h : ¬ HESSIAN_CHUNK_SIZE < xs.length) :
    chunkBody cls enc xs = size16Bytes xs.length ++ enc xs := by
  rw [chunkBody, if_neg h]

end Chunks

/-! ## 4. Strings and xml -/

theorem countUtf8_fits {σ : Type} : ∀ {bs : Bytes} {i : Nat}, i + bs.length ≤ INT_MAX → ∀ j : Nat,
    (countUtf8 bs i j : Run σ Nat) = pure (j + leads bs)
  | [], _, _, _ => rfl
  | b :: bs, i, h, j => by
    rw [List.length_cons] at h
    have hrest : i + 1 + bs.length ≤ INT_MAX := by omega
    unfold countUtf8 leads
    rw [next_of_lt (by omega : i < INT_MAX), pure_bind, countUtf8_fits hrest]
    by_cases hb : Utf8.Cont b
    · rw [if_neg (not_not.mpr ((and_C0_eq_80 b).mpr hb)), if_pos hb]
    · rw [if_pos (fun e => hb ((and_C0_eq_80 b).mp e)), if_neg hb, Nat.add_right_comm, Nat.add_assoc]

theorem countUtf8_long {σ : Type} : ∀ {bs : Bytes} {i : Nat}, i ≤ INT_MAX → INT_MAX < i + bs.length →
    ∀ j : Nat, (countUtf8 bs i j : Run σ Nat) = undefined
  | [], _, hi, h, _ => absurd h (Nat.not_lt.mpr hi)
  | b :: bs, i, hi, h, j => by
    rw [List.length_cons] at h
    unfold countUtf8
    rcases Nat.lt_or_eq_of_le hi with hlt | rfl
    · rw [next_of_lt hlt, pure_bind, countUtf8_long hlt (by omega)]
    · rw [next_of_le (Nat.le_refl _)]
      rfl

/-- **`utf8_strlen` counts the characters of a text of fewer than 2^31 bytes.** -/
theorem utf8Strlen_fits {σ : Type} {text : CString} (h : text.FitsInt) :
    (utf8Strlen text.bytes : Run σ Nat) = pure (leads text.bytes) := by
  have hfits : 0 + text.bytes.length ≤ INT_MAX := by
    rw [Nat.zero_add]
    exact h
  rw [utf8Strlen, countUtf8_fits hfits, Nat.zero_add]

/-- On a longer one its index goes past `INT_MAX`. -/
theorem utf8Strlen_long {σ : Type} {text : CString} (h : ¬ text.FitsInt) :
    (utf8Strlen text.bytes : Run σ Nat) = undefined := by
  have hlong : INT_MAX < 0 + text.bytes.length := by
    rw [Nat.zero_add]
    exact Nat.lt_of_not_le h
  rw [utf8Strlen, countUtf8_long (Nat.zero_le _) hlong]

/-- One round of the inner loop. -/
theorem chunkEnd_round {array : Bytes} {fuel n pos : Nat} {b : UInt8}
    (hn : n < HESSIAN_CHUNK_SIZE) (hb : array[pos]? = some b) :
    chunkEnd array (fuel + 1) n pos =
      chunkEnd array fuel (n + (if Utf8.Cont b then 0 else 1)) (pos + (1 + trail b)) := by
  rw [chunkEnd, if_pos hn, hb]
  exact pass_lead (fun n k => chunkEnd array fuel n (pos + k)) n b

/-- A round that passes a character. -/
theorem chunkEnd_char {array : Bytes} {fuel n pos : Nat} {c : Char} {lead : UInt8} {tail : Bytes}
    (hc : Sequence c lead tail) (hn : n < HESSIAN_CHUNK_SIZE) (hpos : array[pos]? = some lead) :
    chunkEnd array (fuel + 1) n pos = chunkEnd array fuel (n + 1) (pos + (1 + tail.length)) := by
  rw [chunkEnd_round hn hpos, if_neg hc.lead_not_cont, hc.tail_length]

/-- The inner loop passes as many characters as a chunk has. -/
theorem chunkEnd_chars : ∀ (cs : List Char) (pre post : Bytes) (fuel n : Nat),
    n + cs.length = HESSIAN_CHUNK_SIZE → cs.length < fuel → ∀ out,
    chunkEnd (pre ++ (encode cs ++ post)) fuel n pre.length out
      = .done (pre ++ encode cs).length out
  | [], pre, post, fuel + 1, n, hn, _, out => by
    have : ¬ n < HESSIAN_CHUNK_SIZE := by
      simp only [List.length_nil] at hn
      omega
    rw [chunkEnd, if_neg this, encode_nil, List.append_nil, pure_apply]
  | c :: cs, pre, post, fuel + 1, n, hn, hf, out => by
    obtain ⟨lead, tail, hc⟩ := exists_sequence c
    simp only [List.length_cons] at hn hf
    have hpos : (pre ++ (encode (c :: cs) ++ post))[pre.length]? = some lead := by
      rw [hc.encode_cons, List.cons_append, List.getElem?_append_right (Nat.le_refl _),
        Nat.sub_self, List.getElem?_cons_zero]
    have harray : pre ++ (encode (c :: cs) ++ post)
        = (pre ++ (lead :: tail)) ++ (encode cs ++ post) := by
      rw [hc.encode_cons]
      simp only [List.cons_append, List.append_assoc]
    have hlen : pre.length + (1 + tail.length) = (pre ++ (lead :: tail)).length := by
      rw [List.length_append, List.length_cons]
      omega
    have ih := chunkEnd_chars cs (pre ++ (lead :: tail)) post fuel (n + 1) (by omega) (by omega) out
    have hend : (pre ++ encode (c :: cs)).length = (pre ++ (lead :: tail) ++ encode cs).length := by
      rw [hc.encode_cons, List.append_assoc, List.cons_append]
    rw [chunkEnd_char hc (by omega) hpos, harray, hlen, ih, hend]

theorem writeAt_slice (pre mid post : Bytes) (out : Bytes) :
    bufferWriteAt (pre ++ (mid ++ post)) pre.length mid.length out = .done () (out ++ mid) := by
  have h : pre.length + mid.length ≤ (pre ++ (mid ++ post)).length := by
    simp only [List.length_append]
    omega
  have e : ((pre ++ (mid ++ post)).drop pre.length).take mid.length = mid := by
    rw [List.drop_left, List.take_left]
  unfold bufferWriteAt
  rw [if_pos h, e]
  rfl

/-- A round of the outer loop writes a full chunk and ends behind it. -/
theorem fullChunk_run (cls : HessianClass) {pre post : Bytes} {chunk : List Char}
    (hlen : chunk.length = HESSIAN_CHUNK_SIZE) {array : Bytes}
    (harray : array = pre ++ (encode chunk ++ post)) (out : Bytes) :
    (do
      bufferPutc (Char.int cls.chunkTag)
      putSize16 HESSIAN_CHUNK_SIZE
      let stop ← chunkEnd array (array.length + 1) 0 pre.length
      bufferWriteAt array pre.length (stop - pre.length)
      pure stop : Writer Nat) out =
    .done (pre ++ encode chunk).length
      (out ++ Char.byte cls.chunkTag :: (size16Bytes HESSIAN_CHUNK_SIZE ++ encode chunk)) := by
  subst harray
  have hleads := leads_le_length (encode chunk)
  rw [leads_encode] at hleads
  have hfuel : chunk.length < (pre ++ (encode chunk ++ post)).length + 1 := by
    simp only [List.length_append]
    omega
  have hsub : (pre ++ encode chunk).length - pre.length = (encode chunk).length := by
    rw [List.length_append, Nat.add_sub_cancel_left]
  rw [bind_done (writes_putc _ out), bind_done (writes_putSize16 _ _),
    bind_done (chunkEnd_chars chunk pre post _ 0 (by omega) hfuel _), hsub,
    bind_done (writeAt_slice pre _ post _), pure_apply, putc_char]
  simp only [List.append_assoc, List.cons_append, List.nil_append]

theorem textChunks_full (cls : HessianClass) (array : Bytes) {fuel utf8L pos : Nat}
    (h : utf8L > HESSIAN_CHUNK_SIZE) :
    textChunks cls array (fuel + 1) utf8L pos = (do
      bufferPutc (Char.int cls.chunkTag)
      putSize16 HESSIAN_CHUNK_SIZE
      let stop ← chunkEnd array (array.length + 1) 0 pos
      bufferWriteAt array pos (stop - pos)
      pure stop : Writer Nat) >>=
        textChunks cls array fuel (utf8L - HESSIAN_CHUNK_SIZE) := by
  rw [textChunks, if_pos h]
  simp only [bind_assoc, pure_bind]

/-- The outer loop writes the full chunks, and leaves the characters of the last chunk. -/
theorem textChunks_chars (cls : HessianClass) (array : Bytes) :
    ∀ (fuel : Nat) (pre : Bytes) (cs : List Char), cs.length < fuel →
      array = pre ++ (encode cs ++ [0]) →
      ∃ (front pre' : Bytes) (last : List Char), array = pre' ++ (encode last ++ [0]) ∧
        Char.byte (chunkHead cls cs) :: chunkBody cls encode cs
          = front ++ Char.byte cls.tag :: (size16Bytes last.length ++ encode last) ∧
        ∀ out, textChunks cls array fuel cs.length pre.length out
          = .done (last.length, pre'.length) (out ++ front)
  | fuel + 1, pre, cs, hf, harray => by
    by_cases h : HESSIAN_CHUNK_SIZE < cs.length
    · have hcs : cs = cs.take HESSIAN_CHUNK_SIZE ++ cs.drop HESSIAN_CHUNK_SIZE :=
        (List.take_append_drop _ _).symm
      have htake : (cs.take HESSIAN_CHUNK_SIZE).length = HESSIAN_CHUNK_SIZE :=
        List.length_take_of_le (Nat.le_of_lt h)
      have hdrop : cs.length - HESSIAN_CHUNK_SIZE = (cs.drop HESSIAN_CHUNK_SIZE).length :=
        List.length_drop.symm
      have hpos : 0 < HESSIAN_CHUNK_SIZE := by decide
      have harray' : array = pre ++ (encode (cs.take HESSIAN_CHUNK_SIZE)
          ++ (encode (cs.drop HESSIAN_CHUNK_SIZE) ++ [0])) := by
        rw [harray, ← List.append_assoc (encode _), ← encode_append, ← hcs]
      obtain ⟨front, pre', last, ha, hw, hrun⟩ := textChunks_chars _ array fuel
        (pre ++ encode (cs.take HESSIAN_CHUNK_SIZE)) (cs.drop HESSIAN_CHUNK_SIZE) (by omega)
        (by rw [harray', List.append_assoc])
      refine ⟨Char.byte cls.chunkTag :: (size16Bytes HESSIAN_CHUNK_SIZE
        ++ (encode (cs.take HESSIAN_CHUNK_SIZE) ++ front)), pre', last, ha, ?_, fun out => ?_⟩
      · rw [chunkHead_full h, chunkBody_full h, hw]
        simp only [List.cons_append, List.append_assoc]
      · rw [textChunks_full cls array h, bind_done (fullChunk_run cls htake harray' out), hdrop,
          hrun]
        simp only [List.append_assoc, List.cons_append]
    · refine ⟨[], pre, cs, harray, ?_, fun out => ?_⟩
      · rw [chunkHead_last h, chunkBody_last h, List.nil_append]
      · rw [textChunks, if_neg h, List.append_nil]
        rfl

/-- The rest of a text goes into the last chunk. -/
theorem lastChunk_run (cls : HessianClass) {bytes pre : Bytes} {last : List Char}
    (harray : bytes ++ [0] = pre ++ (encode last ++ [0])) (out : Bytes) :
    (do
      bufferPutc (Char.int cls.tag)
      putSize16 last.length
      if pre.length ≤ bytes.length then
        bufferWriteAt (bytes ++ [0]) pre.length (bytes.length - pre.length)
      else undefined : Writer Unit) out =
    .done () (out ++ Char.byte cls.tag :: (size16Bytes last.length ++ encode last)) := by
  have hstr : bytes = pre ++ encode last := by
    rw [← List.append_assoc] at harray
    exact List.append_cancel_right harray
  have hle : pre.length ≤ bytes.length := by
    rw [hstr, List.length_append]
    omega
  have hrest : bytes.length - pre.length = (encode last).length := by
    rw [hstr, List.length_append, Nat.add_sub_cancel_left]
  rw [bind_done (writes_putc _ _), bind_done (writes_putSize16 _ _), if_pos hle, hrest, harray,
    writeAt_slice, putc_char]
  simp only [List.append_assoc, List.cons_append, List.nil_append]

/-- **`hessian_string_serialize` writes the chunks of its text.** -/
theorem writes_text (cls : HessianClass) {s : CString} {cs : List Char} (hs : s.bytes = encode cs)
    (hfits : s.FitsInt) : Writes (hessianStringSerialize cls s)
      (Char.byte (chunkHead cls cs) :: chunkBody cls encode cs) := by
  intro out
  have hcount : (utf8Strlen s.bytes : Writer Nat) = pure cs.length := by
    rw [utf8Strlen_fits hfits, hs, leads_encode]
  obtain ⟨front, pre, last, ha, hw, hrun⟩ := textChunks_chars cls
    (s.bytes ++ [0]) (cs.length + 1) [] cs (Nat.lt_succ_self _) (by rw [hs, List.nil_append])
  have hrun0 : ∀ out, textChunks cls (s.bytes ++ [0]) (cs.length + 1) cs.length 0 out
      = .done (last.length, pre.length) (out ++ front) := hrun
  unfold hessianStringSerialize
  rw [hcount, pure_bind, bind_done (hrun0 out), hw, ← List.append_assoc]
  exact lastChunk_run cls ha (out ++ front)

/-! ## 5. Binaries -/

/-- A round of the loop writes a full chunk. -/
theorem fullBinary_run (cls : HessianClass) {pre chunk post : Bytes}
    (hlen : chunk.length = HESSIAN_CHUNK_SIZE) {data : Bytes}
    (hdata : data = pre ++ (chunk ++ post)) (out : Bytes) :
    (do
      bufferPutc (Char.int cls.chunkTag)
      putSize16 HESSIAN_CHUNK_SIZE
      bufferWriteAt data pre.length HESSIAN_CHUNK_SIZE : Writer Unit) out =
    .done () (out ++ Char.byte cls.chunkTag :: (size16Bytes HESSIAN_CHUNK_SIZE ++ chunk)) := by
  have hwrite := writeAt_slice pre chunk post
  rw [hlen, ← hdata] at hwrite
  rw [bind_done (writes_putc _ out), bind_done (writes_putSize16 _ _), hwrite, putc_char]
  simp only [List.append_assoc, List.cons_append, List.nil_append]

theorem binaryChunks_full (cls : HessianClass) (data : Bytes) {fuel byteL pos : Nat}
    (h : byteL > HESSIAN_CHUNK_SIZE) :
    binaryChunks cls data (fuel + 1) byteL pos = (do
      bufferPutc (Char.int cls.chunkTag)
      putSize16 HESSIAN_CHUNK_SIZE
      bufferWriteAt data pos HESSIAN_CHUNK_SIZE : Writer Unit) >>= fun _ =>
        binaryChunks cls data fuel (byteL - HESSIAN_CHUNK_SIZE) (pos + HESSIAN_CHUNK_SIZE) := by
  rw [binaryChunks, if_pos h]
  simp only [bind_assoc]

/-- The loop writes the full chunks, and leaves the bytes of the last chunk. -/
theorem binaryChunks_bytes (cls : HessianClass) (data : Bytes) :
    ∀ (fuel : Nat) (pre bs : Bytes), bs.length < fuel → data = pre ++ bs →
      ∃ (front pre' last : Bytes), data = pre' ++ last ∧
        Char.byte (chunkHead cls bs) :: chunkBody cls id bs
          = front ++ Char.byte cls.tag :: (size16Bytes last.length ++ last) ∧
        ∀ out, binaryChunks cls data fuel bs.length pre.length out
          = .done (last.length, pre'.length) (out ++ front)
  | fuel + 1, pre, bs, hf, hdata => by
    by_cases h : HESSIAN_CHUNK_SIZE < bs.length
    · have htake : (bs.take HESSIAN_CHUNK_SIZE).length = HESSIAN_CHUNK_SIZE :=
        List.length_take_of_le (Nat.le_of_lt h)
      have hdrop : bs.length - HESSIAN_CHUNK_SIZE = (bs.drop HESSIAN_CHUNK_SIZE).length :=
        List.length_drop.symm
      have hpos : 0 < HESSIAN_CHUNK_SIZE := by decide
      have hdata' : data = pre ++ (bs.take HESSIAN_CHUNK_SIZE ++ bs.drop HESSIAN_CHUNK_SIZE) := by
        rw [hdata, List.take_append_drop]
      have hpre : (pre ++ bs.take HESSIAN_CHUNK_SIZE).length = pre.length + HESSIAN_CHUNK_SIZE := by
        rw [List.length_append, htake]
      obtain ⟨front, pre', last, ha, hw, hrun⟩ := binaryChunks_bytes cls data fuel
        (pre ++ bs.take HESSIAN_CHUNK_SIZE) (bs.drop HESSIAN_CHUNK_SIZE) (by omega)
        (by rw [hdata', List.append_assoc])
      refine ⟨Char.byte cls.chunkTag :: (size16Bytes HESSIAN_CHUNK_SIZE
        ++ (bs.take HESSIAN_CHUNK_SIZE ++ front)), pre', last, ha, ?_, fun out => ?_⟩
      · rw [chunkHead_full h, chunkBody_full h, hw]
        simp only [List.cons_append, List.append_assoc, id]
      · rw [binaryChunks_full cls data h, bind_done (fullBinary_run cls htake hdata' out), hdrop,
          ← hpre, hrun]
        simp only [List.append_assoc, List.cons_append]
    · refine ⟨[], pre, bs, hdata, ?_, fun out => ?_⟩
      · rw [chunkHead_last h, chunkBody_last h, List.nil_append]
        rfl
      · rw [binaryChunks, if_neg h, List.append_nil]
        rfl

/-- The rest of the data goes into the last chunk. -/
theorem lastBinary_run (cls : HessianClass) (pre last : Bytes) (out : Bytes) :
    (do
      bufferPutc (Char.int cls.tag)
      putSize16 last.length
      bufferWriteAt (pre ++ last) pre.length last.length : Writer Unit) out =
    .done () (out ++ Char.byte cls.tag :: (size16Bytes last.length ++ last)) := by
  have hwrite := writeAt_slice pre last []
  rw [List.append_nil] at hwrite
  rw [bind_done (writes_putc _ _), bind_done (writes_putSize16 _ _), hwrite, putc_char]
  simp only [List.append_assoc, List.cons_append, List.nil_append]

/-- **`hessian_binary_serialize` writes the chunks of its data.** -/
theorem writes_binary (cls : HessianClass) (data : Bytes) :
    Writes (hessianBinarySerialize cls data)
      (Char.byte (chunkHead cls data) :: chunkBody cls id data) := by
  intro out
  obtain ⟨front, pre, last, ha, hw, hrun⟩ := binaryChunks_bytes cls data
    (data.length + 1) [] data (Nat.lt_succ_self _) rfl
  have hrun0 : ∀ out, binaryChunks cls data (data.length + 1) data.length 0 out
      = .done (last.length, pre.length) (out ++ front) := hrun
  unfold hessianBinarySerialize
  rw [bind_done (hrun0 out), hw, ← List.append_assoc]
  subst ha
  exact lastBinary_run cls pre last (out ++ front)

/-! ## 6. Objects -/

/-- A type or an url: its tag, its length in characters and the text. -/
def textField (tag : Char) (text : CString) : Bytes :=
  Char.byte tag :: (size16Bytes (leads text.bytes) ++ text.bytes)

/-- The optional type of a container. -/
def typeField : Option CString → Bytes
  | some type => textField 't' type
  | none => []

/-- The length of a list that is not empty. -/
def lengthField (n : Nat) : Bytes :=
  if n > 0 then Char.byte 'l' :: int32Bytes (BitVec.ofNat 32 n) else []

/-- The keys and values of a map, in turn. -/
def wirePairs (pairs : List (HessianObject × HessianObject)) : Bytes :=
  pairs.flatMap fun (key, value) => wire key ++ wire value

theorem wirePairs_cons (key value : HessianObject)
    (rest : List (HessianObject × HessianObject)) :
    wirePairs ((key, value) :: rest) = wire key ++ (wire value ++ wirePairs rest) := by
  rw [wirePairs, List.flatMap_cons, List.append_assoc]
  rfl

theorem writes_textField (tag : Char) {text : CString} (hfits : text.FitsInt) :
    Writes (putText tag text) (textField tag text) := by
  have h := (writes_putc (Char.int tag)).andThen
    (f := fun _ => putSize16 (leads text.bytes) >>= fun _ => bufferWrite text.bytes)
    ((writes_putSize16 _).andThen (writes_write _))
  rw [putc_char] at h
  unfold putText
  rw [utf8Strlen_fits hfits, pure_bind]
  exact h

theorem writes_integer (cls : HessianClass) (v : CInt) :
    Writes (hessianIntegerSerialize cls v) (Char.byte cls.tag :: int32Bytes v) := by
  have h := (writes_putc (Char.int cls.tag)).andThen (f := fun _ => putInt32 v) (writes_putInt32 v)
  rw [putc_char] at h
  exact h

theorem writes_remote (cls : HessianClass) {type url : CString} (htype : type.FitsInt)
    (hurl : url.FitsInt) : Writes (hessianRemoteSerialize cls (some type) (some url))
      (Char.byte cls.tag :: (textField 't' type ++ textField 'S' url)) := by
  have h := (writes_putc (Char.int cls.tag)).andThen
    (f := fun _ => putText 't' type >>= fun _ => putText 'S' url)
    ((writes_textField 't' htype).andThen (writes_textField 'S' hurl))
  rw [putc_char] at h
  exact h

theorem writes_type : ∀ {type : Option CString}, (∀ t ∈ type, t.FitsInt) →
    Writes (putType type) (typeField type)
  | some type, h => writes_textField 't' (h type rfl)
  | none, _ => Writes.nil

theorem writes_length (n : Nat) : Writes (putLength n) (lengthField n) := by
  unfold putLength lengthField
  split
  · have h := (writes_putc (Char.int 'l')).andThen
      (f := fun _ => putInt32 (BitVec.ofNat 32 n)) (writes_putInt32 _)
    rw [putc_char] at h
    exact h
  · exact Writes.nil

theorem writes_elements : ∀ {elements : List HessianObject} {i : Nat},
    i + elements.length ≤ INT_MAX → (∀ o ∈ elements, Writes (hessianSerialize o) (wire o)) →
      Writes (serializeElements elements i) (elements.flatMap wire)
  | [], _, _, _ => Writes.nil
  | o :: rest, i, hlen, h => by
    rw [List.length_cons] at hlen
    have hrest : Writes (serializeElements rest (i + 1)) (rest.flatMap wire) :=
      writes_elements (by omega) fun o' ho' => h o' (List.mem_cons_of_mem o ho')
    rw [serializeElements, List.flatMap_cons, next_of_lt (by omega : i < INT_MAX), pure_bind]
    exact (h o List.mem_cons_self).andThen hrest

theorem writes_pairs : ∀ {pairs : List (HessianObject × HessianObject)} {i : Nat},
    i + pairs.length ≤ INT_MAX → (∀ kv ∈ pairs, Writes (hessianSerialize kv.1) (wire kv.1)
      ∧ Writes (hessianSerialize kv.2) (wire kv.2)) →
      Writes (serializePairs pairs i) (wirePairs pairs)
  | [], _, _, _ => Writes.nil
  | (key, value) :: rest, i, hlen, h => by
    rw [List.length_cons] at hlen
    have hrest : Writes (serializePairs rest (i + 1)) (wirePairs rest) :=
      writes_pairs (by omega) fun kv hkv => h kv (List.mem_cons_of_mem _ hkv)
    obtain ⟨hkey, hvalue⟩ := h (key, value) List.mem_cons_self
    rw [serializePairs, wirePairs_cons, next_of_lt (by omega : i < INT_MAX), pure_bind]
    exact hkey.andThen (hvalue.andThen hrest)

theorem writes_list {type : Option CString} (htype : ∀ t ∈ type, t.FitsInt)
    {elements : List HessianObject} (hlen : elements.length ≤ INT_MAX)
    (h : ∀ o ∈ elements, Writes (hessianSerialize o) (wire o)) :
    Writes (hessianSerialize (.list type elements))
      (Char.byte 'V' :: (typeField type ++ (lengthField elements.length
        ++ (elements.flatMap wire ++ [Char.byte 'z'])))) := by
  intro out
  rw [hessianSerialize]
  simp only [hessianGettype, getclass]
  rw [bind_done (writes_putc _ out), bind_done (writes_type htype _), bind_done (writes_length _ _),
    bind_done (writes_elements (i := 0) (by omega) h _), writes_putc]
  simp only [putc_char, List.append_assoc, List.cons_append, List.nil_append]

theorem writes_map {type : Option CString} (htype : ∀ t ∈ type, t.FitsInt)
    {pairs : List (HessianObject × HessianObject)} (hlen : pairs.length ≤ INT_MAX)
    (h : ∀ kv ∈ pairs, Writes (hessianSerialize kv.1) (wire kv.1)
      ∧ Writes (hessianSerialize kv.2) (wire kv.2)) :
    Writes (hessianSerialize (.map type pairs))
      (Char.byte 'M' :: (typeField type ++ (wirePairs pairs ++ [Char.byte 'z']))) := by
  intro out
  rw [hessianSerialize]
  simp only [hessianGettype, getclass]
  rw [bind_done (writes_putc _ out), bind_done (writes_type htype _),
    bind_done (writes_pairs (i := 0) (by omega) h _), writes_putc]
  simp only [putc_char, List.append_assoc, List.cons_append, List.nil_append]

/-! ## 7. What a serializer that returns has counted -/

namespace HessianObject

mutual
/-- An `int` counts the bytes of every text and the elements of every container of the tree. -/
def CountersFit : HessianObject → Prop
  | .string s => s.FitsInt
  | .xml s => s.FitsInt
  | .remote type url => (∀ t ∈ type, t.FitsInt) ∧ ∀ u ∈ url, u.FitsInt
  | .list type elements =>
    (∀ t ∈ type, t.FitsInt) ∧ elements.length ≤ INT_MAX ∧ CountersFitElements elements
  | .map type pairs =>
    (∀ t ∈ type, t.FitsInt) ∧ pairs.length ≤ INT_MAX ∧ CountersFitPairs pairs
  | _ => True

def CountersFitElements : List HessianObject → Prop
  | [] => True
  | object :: rest => object.CountersFit ∧ CountersFitElements rest

def CountersFitPairs : List (HessianObject × HessianObject) → Prop
  | [] => True
  | (key, value) :: rest => key.CountersFit ∧ value.CountersFit ∧ CountersFitPairs rest
end

end HessianObject

open HessianObject

theorem fitsInt_of_text {cls : HessianClass} {s : CString} {out w : Bytes}
    (h : hessianStringSerialize cls s out = .done () w) : s.FitsInt := by
  by_contra hlong
  unfold hessianStringSerialize at h
  rw [utf8Strlen_long hlong] at h
  cases h

theorem fitsInt_of_putText {tag : Char} {text : CString} {out w : Bytes}
    (h : putText tag text out = .done () w) : text.FitsInt := by
  by_contra hlong
  unfold putText at h
  rw [utf8Strlen_long hlong] at h
  cases h

theorem fitsInt_of_putType : ∀ {type : Option CString} {out w : Bytes},
    putType type out = .done () w → ∀ t ∈ type, t.FitsInt
  | some _, _, _, h, _, ht => Option.some.inj ht ▸ fitsInt_of_putText h
  | none, _, _, _, _, ht => nomatch ht

theorem fitsInt_of_remote {cls : HessianClass} : ∀ {type url : Option CString} {out w : Bytes},
    hessianRemoteSerialize cls type url out = .done () w →
      (∀ t ∈ type, t.FitsInt) ∧ ∀ u ∈ url, u.FitsInt
  | some _, some _, _, _, h => by
    unfold hessianRemoteSerialize at h
    obtain ⟨_, _, _, h⟩ := bind_eq_done h
    obtain ⟨_, _, htype, hurl⟩ := bind_eq_done h
    exact ⟨fun _ ht => Option.some.inj ht ▸ fitsInt_of_putText htype,
      fun _ hu => Option.some.inj hu ▸ fitsInt_of_putText hurl⟩
  | some _, none, _, _, h => nomatch h
  | none, some _, _, _, h => nomatch h
  | none, none, _, _, h => nomatch h

mutual
/-- **A serializer that returns has counted to no more than `INT_MAX`.** -/
theorem countersFit_of_done : ∀ {o : HessianObject} {out w : Bytes},
    hessianSerialize o out = .done () w → o.CountersFit
  | .null, _, _, _ | .boolean _, _, _, _ | .integer _, _, _, _ | .ref _, _, _, _
  | .long _, _, _, _ | .date _, _, _, _ | .double _, _, _, _ | .binary _, _, _, _ => trivial
  | .string _, _, _, h => by
    rw [hessianSerialize] at h
    exact fitsInt_of_text h
  | .xml _, _, _, h => by
    rw [hessianSerialize] at h
    exact fitsInt_of_text h
  | .remote _ _, _, _, h => by
    rw [hessianSerialize] at h
    exact fitsInt_of_remote h
  | .list _ _, _, _, h => by
    rw [hessianSerialize] at h
    obtain ⟨_, _, _, h⟩ := bind_eq_done h
    obtain ⟨_, _, htype, h⟩ := bind_eq_done h
    obtain ⟨_, _, _, h⟩ := bind_eq_done h
    obtain ⟨_, _, helements, _⟩ := bind_eq_done h
    obtain ⟨hlen, hall⟩ := countersFit_of_elements (Nat.zero_le _) helements
    rw [Nat.zero_add] at hlen
    exact ⟨fitsInt_of_putType htype, hlen, hall⟩
  | .map _ _, _, _, h => by
    rw [hessianSerialize] at h
    obtain ⟨_, _, _, h⟩ := bind_eq_done h
    obtain ⟨_, _, htype, h⟩ := bind_eq_done h
    obtain ⟨_, _, hpairs, _⟩ := bind_eq_done h
    obtain ⟨hlen, hall⟩ := countersFit_of_pairs (Nat.zero_le _) hpairs
    rw [Nat.zero_add] at hlen
    exact ⟨fitsInt_of_putType htype, hlen, hall⟩

theorem countersFit_of_elements : ∀ {elements : List HessianObject} {i : Nat} {out w : Bytes},
    i ≤ INT_MAX → serializeElements elements i out = .done () w →
      i + elements.length ≤ INT_MAX ∧ CountersFitElements elements
  | [], _, _, _, hi, _ => ⟨hi, trivial⟩
  | _ :: rest, i, _, _, _, h => by
    rw [serializeElements] at h
    obtain ⟨_, _, ho, h⟩ := bind_eq_done h
    obtain ⟨_, _, hnext, h⟩ := bind_eq_done h
    obtain ⟨hlt, rfl⟩ := next_eq_done hnext
    obtain ⟨hlen, hrest⟩ := countersFit_of_elements hlt h
    exact ⟨by rw [List.length_cons]; omega, countersFit_of_done ho, hrest⟩

theorem countersFit_of_pairs : ∀ {pairs : List (HessianObject × HessianObject)} {i : Nat}
    {out w : Bytes}, i ≤ INT_MAX → serializePairs pairs i out = .done () w →
      i + pairs.length ≤ INT_MAX ∧ CountersFitPairs pairs
  | [], _, _, _, hi, _ => ⟨hi, trivial⟩
  | (_, _) :: rest, i, _, _, _, h => by
    rw [serializePairs] at h
    obtain ⟨_, _, hkey, h⟩ := bind_eq_done h
    obtain ⟨_, _, hvalue, h⟩ := bind_eq_done h
    obtain ⟨_, _, hnext, h⟩ := bind_eq_done h
    obtain ⟨hlt, rfl⟩ := next_eq_done hnext
    obtain ⟨hlen, hrest⟩ := countersFit_of_pairs hlt h
    exact ⟨by rw [List.length_cons]; omega, countersFit_of_done hkey, countersFit_of_done hvalue,
      hrest⟩
end

end ArgusPep
