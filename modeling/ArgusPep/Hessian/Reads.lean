/-
  File:      ArgusPep/Hessian/Reads.lean
  Subject:   What the deserializers make of bytes a serializer wrote.

  * `Mem.Ample`, `Reader.Ample` -- the allocator grants all that reading the input asks for;
  * `Reads m w a` -- from an ample reader whose input starts with `w`, the deserializer `m` returns
    `a` and leaves what is behind `w`;
  * `Plain` -- the characters `utf8_bgets` counts as the serializer does;
  * `reads_text`, `reads_string`, `reads_binary`, `reads_integer`, `reads_long`, … -- **each scalar
    deserializer reads back what its serializer wrote**.
-/
import ArgusPep.Hessian.Wire
import ArgusPep.Hessian.Deserialize

namespace ArgusPep

open Lib Run Utf8 Reading

/-! ## 1. An allocator that grants enough -/

/-- Every request of up to `k` bytes is granted, now and later. -/
structure Mem.Ample (m : Mem) (k : Nat) : Prop where
  after : ∀ n, m.after n = m
  grants : ∀ n ≤ k, m.grants n = true

theorem Mem.ample_unlimited (k : Nat) : Mem.unlimited.Ample k := ⟨fun _ => rfl, fun _ _ => rfl⟩

theorem Mem.ample_generous : Mem.generous.Ample PTRDIFF_MAX :=
  ⟨Mem.after_generous, fun _ h => Mem.grants_generous h⟩

/-- A quarter of a megabyte, for the descriptors and one chunk, and as much as the input holds. -/
def Reader.Ample (s : Reader) : Prop := ∃ k, 2 ^ 18 ≤ k ∧ s.input.length ≤ k ∧ s.mem.Ample k

theorem Reader.Ample.mono {s t : Reader} (h : s.Ample) (hmem : t.mem = s.mem)
    (hinput : t.input.length ≤ s.input.length) : t.Ample := by
  obtain ⟨k, hk, hlen, hm⟩ := h
  exact ⟨k, hk, by omega, hmem ▸ hm⟩

theorem ample_start_unlimited (input : Bytes) : (Reader.start input Mem.unlimited).Ample :=
  ⟨max (2 ^ 18) input.length, Nat.le_max_left _ _, Nat.le_max_right _ _, Mem.ample_unlimited _⟩

theorem calloc_ample {s : Reader} {k n : Nat} (hm : s.mem.Ample k) (hn : n ≤ k) :
    calloc n s = .done true s := by
  unfold calloc
  rw [hm.grants n hn, hm.after n]

theorem bufferCreate_ample {s : Reader} {k size : Nat} (hk : 2 ^ 18 ≤ k) (hm : s.mem.Ample k)
    (hsize : size ≤ 2 ^ 18) : bufferCreate size s = .done true s := by
  unfold bufferCreate
  rw [bind_done (calloc_ample hm (by omega)), if_pos rfl, calloc_ample hm]
  split <;> omega

/-! ## 2. Reading back -/

section Rules

variable {α β : Type}

/-- From an ample reader whose input starts with `w`, `m` returns `a` and reads `w`. -/
def Reads (m : Reading α) (w : Bytes) (a : α) : Prop :=
  ∀ s rest, s.Ample → s.input = w ++ rest →
    Returns m s fun b s' => b = a ∧ s'.input = rest ∧ s'.mem = s.mem

theorem Reads.pure (a : α) : Reads (Pure.pure a) [] a := by
  intro s rest _ hs
  exact Returns.pure ⟨rfl, by rw [hs, List.nil_append], rfl⟩

theorem Reads.pure_of_eq {a b : α} (h : a = b) : Reads (Pure.pure a) [] b := h ▸ Reads.pure a

theorem Reads.bind {m : Reading α} {f : α → Reading β} {v w : Bytes} {a : α} {b : β}
    (hm : Reads m v a) (hf : Reads (f a) w b) : Reads (m >>= f) (v ++ w) b := by
  intro s rest hs hinput
  rw [List.append_assoc] at hinput
  refine (hm s (w ++ rest) hs hinput).bind ?_
  intro a' s' h
  obtain ⟨rfl, hrest, hmem⟩ := h
  have hle : s'.input.length ≤ s.input.length := by
    rw [hrest, hinput]
    simp only [List.length_append]
    omega
  refine (hf s' rest (hs.mono hmem hle) hrest).mono ?_
  intro b' s'' h
  obtain ⟨hb, hrest', hmem'⟩ := h
  exact ⟨hb, hrest', hmem'.trans hmem⟩

/-- A first part that reads nothing. -/
theorem Reads.bind_nil {m : Reading α} {f : α → Reading β} {w : Bytes} {a : α} {b : β}
    (hm : Reads m [] a) (hf : Reads (f a) w b) : Reads (m >>= f) w b := hm.bind hf

/-- A last part that reads nothing. -/
theorem Reads.map {m : Reading α} {w : Bytes} {a : α} (f : α → β) (hm : Reads m w a) :
    Reads (m >>= fun x => Pure.pure (f x)) w (f a) := by
  have h := Reads.bind (f := fun x => Pure.pure (f x)) hm (Reads.pure (f a))
  rwa [List.append_nil] at h

theorem Reads.onFailure {m : Reading α} {w : Bytes} {a : α} (hm : Reads m w a)
    (cleanUp : Reading Unit) : Reads (m.onFailure cleanUp) w a :=
  fun s rest hs hinput => (hm s rest hs hinput).onFailure

end Rules

theorem reads_getc (b : UInt8) : Reads bufferGetc [b] (UInt8.int b) := by
  intro s rest _ hs
  refine ⟨_, _, rfl, ?_⟩
  rw [hs]
  exact ⟨rfl, rfl, rfl⟩

theorem Reads.bind_getc {α : Type} {f : CInt → Reading α} {b : UInt8} {w : Bytes} {a : α}
    (h : Reads (f (UInt8.int b)) w a) : Reads (bufferGetc >>= f) (b :: w) a :=
  (reads_getc b).bind h

theorem reads_calloc {n : Nat} (h : n ≤ 2 ^ 18) : Reads (calloc n) [] true := by
  intro s rest h hs
  obtain ⟨k, hk, _, hm⟩ := h
  exact ⟨true, s, calloc_ample hm (by omega), rfl, by rw [hs, List.nil_append], rfl⟩

theorem reads_visit (step : Reader → Step) : Reads (visit step) [] () := by
  intro s rest _ hs
  exact ⟨(), _, rfl, rfl, hs, rfl⟩

theorem int_byte {c : Char} (h : c.toNat < 256) : UInt8.int (Char.byte c) = Char.int c := by
  unfold UInt8.int Char.byte Char.int
  rw [UInt8.toNat_ofNat', Nat.mod_eq_of_lt h]

/-! ## 3. Numbers -/

theorem reads_int32 (v : CInt) : Reads getInt32 (int32Bytes v) v := by
  unfold getInt32 int32Bytes
  refine .bind_getc (.bind_getc (.bind_getc (.bind_getc (.pure_of_eq ?_))))
  exact BigEndian.word32_of_bytes v

/-- A byte is not negative: it keeps its value as an `int64_t`. -/
theorem signExtend_int (b : UInt8) : (UInt8.int b).signExtend 64 = BitVec.ofNat 64 b.toNat := by
  have hb := b.toNat_lt
  have h : ¬ 2 ^ (32 - 1) ≤ b.toNat % 2 ^ 32 := by omega
  apply BitVec.eq_of_toNat_eq
  unfold UInt8.int
  rw [BitVec.toNat_signExtend, BitVec.msb_eq_decide, BitVec.toNat_ofNat, BitVec.toNat_setWidth,
    BitVec.toNat_ofNat, BitVec.toNat_ofNat]
  simp only [decide_eq_true_eq, h, if_false]
  omega

theorem Reads.bind_getc64 {α : Type} {f : BitVec 64 → Reading α} {b : UInt8} {w : Bytes} {a : α}
    (h : Reads (f (BitVec.ofNat 64 b.toNat)) w a) : Reads (bufferGetc64 >>= f) (b :: w) a := by
  have hb : Reads bufferGetc64 [b] (BitVec.ofNat 64 b.toNat) := by
    have e := (reads_getc b).map fun c => c.signExtend 64
    rw [signExtend_int] at e
    exact e
  exact hb.bind h

theorem reads_long (cls : HessianClass) (v : BitVec 64) :
    Reads (hessianLongDeserialize cls (Char.int cls.tag)) (int64Bytes v) v := by
  unfold hessianLongDeserialize int64Bytes
  rw [if_neg (not_not.mpr rfl)]
  refine .bind_getc64 (.bind_getc64 (.bind_getc64 (.bind_getc64 (.bind_getc64 (.bind_getc64
    (.bind_getc64 (.bind_getc64 (.pure_of_eq ?_))))))))
  exact BigEndian.word64_of_bytes v

theorem reads_integer (cls : HessianClass) (v : CInt) :
    Reads (hessianIntegerDeserialize cls (Char.int cls.tag)) (int32Bytes v) v := by
  unfold hessianIntegerDeserialize
  rw [if_neg (not_not.mpr rfl)]
  exact reads_int32 v

/-! ## 4. Strings and xml -/

/-- A character `utf8_bgets` reads whole: its mask takes the lead bytes `0xD0` to `0xDF`, those of
    U+0400 to U+07FF, for single bytes. -/
def Plain (c : Char) : Prop := ¬ (0x400 ≤ c.toNat ∧ c.toNat < 0x800)

instance (c : Char) : Decidable (Plain c) := inferInstanceAs (Decidable (¬ _))

theorem plain_ascii {bs : Bytes} (h : ∀ b ∈ bs, b.toNat < 0x80) : ∀ c ∈ ascii bs, Plain c := by
  intro c hc
  obtain ⟨b, hb, rfl⟩ := List.mem_map.mp hc
  have hlt := h b hb
  unfold Plain
  rw [toNat_ascii hlt]
  omega

theorem int_and (b m : UInt8) : UInt8.int b &&& UInt8.int m = UInt8.int (b &&& m) := by
  apply BitVec.eq_of_toNat_eq
  have hb := b.toNat_lt
  have hm := m.toNat_lt
  have h : (b &&& m).toNat < 2 ^ 8 := (b &&& m).toNat_lt
  simp only [UInt8.int, BitVec.toNat_and, BitVec.toNat_ofNat]
  rw [Nat.mod_eq_of_lt (by omega), Nat.mod_eq_of_lt (by omega), Nat.mod_eq_of_lt (by omega),
    UInt8.toNat_and]

theorem int_and_eq (b m v : UInt8) : UInt8.int b &&& UInt8.int m = UInt8.int v ↔ b &&& m = v := by
  rw [int_and]
  exact ⟨int_inj, fun e => e ▸ rfl⟩

/-- What `utf8_bgets` reads behind a byte, by the value of the byte. -/
theorem mbytes_int (b : UInt8) : mbytes (UInt8.int b) =
    if 0xD0 ≤ b.toNat ∧ b.toNat < 0xE0 then 0 else trail b := by
  have hC0 : UInt8.int b &&& 0xC0#32 = 0xC0#32 ↔ 0xC0 ≤ b.toNat :=
    (int_and_eq b 0xC0 0xC0).trans (and_C0_eq_C0 b)
  have hF0C0 : UInt8.int b &&& 0xF0#32 = 0xC0#32 ↔ 0xC0 ≤ b.toNat ∧ b.toNat < 0xD0 :=
    (int_and_eq b 0xF0 0xC0).trans (and_F0_eq_C0 b)
  have hF0E0 : UInt8.int b &&& 0xF0#32 = 0xE0#32 ↔ 0xE0 ≤ b.toNat ∧ b.toNat < 0xF0 :=
    (int_and_eq b 0xF0 0xE0).trans (and_F0_eq_E0 b)
  have hF0F0 : UInt8.int b &&& 0xF0#32 = 0xF0#32 ↔ 0xF0 ≤ b.toNat :=
    (int_and_eq b 0xF0 0xF0).trans (and_F0_eq_F0 b)
  unfold mbytes trail
  simp only [hC0, hF0C0, hF0E0, hF0F0]
  repeat' split
  all_goals omega

/-- A plain character is read whole. -/
theorem mbytes_lead {c : Char} {lead : UInt8} {tail : Bytes} (hc : Sequence c lead tail)
    (hplain : Plain c) : mbytes (UInt8.int lead) = tail.length := by
  rw [mbytes_int, if_neg (fun h => hplain (hc.upper_two_byte.mp h)), hc.tail_length]

theorem bytesGetc_append (bs rest : Bytes) : bytesGetc bs.length (bs ++ rest) = (bs, rest) := by
  have h : bs.length - (bs ++ rest).length = 0 := by
    rw [List.length_append]
    omega
  unfold bytesGetc
  rw [h, List.take_left, List.drop_left, List.replicate_zero, List.append_nil]

theorem utf8Chars_nil : ∀ n : Nat, (utf8Chars n []).2 = []
  | 0 => rfl
  | n + 1 => by
    have ih := utf8Chars_nil n
    have h : (bytesGetc (mbytes BUFFER_EOF) []).2 = [] := List.drop_nil
    simp only [utf8Chars, getc_nil, h, ih]

/-- `utf8_bgets` reads plain characters as they are. -/
theorem utf8Chars_plain : ∀ (cs : List Char) (rest : Bytes), (∀ c ∈ cs, Plain c) →
    utf8Chars cs.length (encode cs ++ rest) = (encode cs, rest)
  | [], rest, _ => rfl
  | c :: cs, rest, h => by
    obtain ⟨lead, tail, hc⟩ := exists_sequence c
    have ih := utf8Chars_plain cs rest fun d hd => h d (List.mem_cons_of_mem c hd)
    have hread := bytesGetc_append tail (encode cs ++ rest)
    rw [hc.encode_cons, List.length_cons, List.cons_append, List.append_assoc]
    simp only [utf8Chars, getc_cons, mbytes_lead hc (h c List.mem_cons_self), hread, ih, putc_int]

theorem encode_length_le : ∀ cs : List Char, (encode cs).length ≤ 4 * cs.length
  | [] => Nat.le_refl _
  | c :: cs => by
    obtain ⟨lead, tail, hc⟩ := exists_sequence c
    have ih := encode_length_le cs
    have htail : tail.length ≤ 3 := by
      rw [hc.tail_length]
      unfold trail
      repeat' split
      all_goals omega
    rw [hc.encode_cons]
    simp only [List.length_cons, List.length_append]
    omega

theorem size16_bytes {n : Nat} (h : n < 65536) :
    size16 (UInt8.int (.ofNat (n / 256))) (UInt8.int (.ofNat n)) = n := by
  rw [size16_int, UInt8.toNat_ofNat', UInt8.toNat_ofNat']
  omega

/-- A length and so many plain characters. -/
theorem reads_text (cs : List Char) (h : ∀ c ∈ cs, Plain c) (hlen : cs.length < 65536) :
    Reads readText (size16Bytes cs.length ++ encode cs) (some (encode cs)) := by
  have hchars : Reads (Reading.take (utf8Chars cs.length)) (encode cs) (encode cs) := by
    intro s rest _ hs
    refine ⟨_, _, rfl, ?_⟩
    rw [hs, utf8Chars_plain cs rest h]
    exact ⟨rfl, rfl, rfl⟩
  have hle := encode_length_le cs
  have hcreate : Reads (bufferCreate cs.length) [] true := by
    intro s rest h hs
    obtain ⟨k, hk, _, hm⟩ := h
    exact ⟨true, s, bufferCreate_ample hk hm (by omega), rfl, by rw [hs, List.nil_append], rfl⟩
  unfold readText size16Bytes
  refine .bind_getc (.bind_getc ?_)
  rw [size16_bytes hlen]
  unfold utf8Bgets
  refine .bind_nil hcreate ?_
  rw [if_pos rfl]
  have hlast := hchars.bind (f := fun array => do
    if ← calloc (array.length + 1) then pure (some array) else pure none)
    (.bind_nil (reads_calloc (by omega)) (.pure (some (encode cs))))
  rwa [List.append_nil] at hlast

/-- The tags of a class that is written in chunks: two different bytes. -/
structure ChunkTags (cls : HessianClass) : Prop where
  tag_lt : cls.tag.toNat < 256
  chunkTag_lt : cls.chunkTag.toNat < 256
  ne : Char.int cls.tag ≠ Char.int cls.chunkTag

theorem ChunkTags.head_lt {cls : HessianClass} (ht : ChunkTags cls) {α : Type} (xs : List α) :
    (chunkHead cls xs).toNat < 256 := by
  unfold chunkHead
  split
  · exact ht.chunkTag_lt
  · exact ht.tag_lt

/-- The loop of `hessian_string_deserialize` reads the chunks of a plain text. -/
theorem reads_stringChunks {cls : HessianClass} (ht : ChunkTags cls) :
    ∀ (fuel : Nat) (cs : List Char) (sb r : CString), cs.length < fuel → (∀ c ∈ cs, Plain c) →
      r.bytes = sb.bytes ++ encode cs →
      Reads (stringChunks cls fuel (Char.int (chunkHead cls cs)) sb) (chunkBody cls encode cs) r
  | fuel + 1, cs, sb, r, hf, hplain, hr => by
    have hnul : (0 : UInt8) ∉ encode cs := fun h => r.nulFree (hr ▸ List.mem_append_right _ h)
    unfold stringChunks
    refine .bind_nil (reads_visit _) ?_
    by_cases h : HESSIAN_CHUNK_SIZE < cs.length
    · have htake : (cs.take HESSIAN_CHUNK_SIZE).length = HESSIAN_CHUNK_SIZE :=
        List.length_take_of_le (Nat.le_of_lt h)
      have hcs : encode cs = encode (cs.take HESSIAN_CHUNK_SIZE)
          ++ encode (cs.drop HESSIAN_CHUNK_SIZE) := by
        rw [← encode_append, List.take_append_drop]
      have harray : (CString.ofArray (encode (cs.take HESSIAN_CHUNK_SIZE))).bytes
          = encode (cs.take HESSIAN_CHUNK_SIZE) :=
        CString.ofArray_bytes fun h0 => hnul (hcs ▸ List.mem_append_left _ h0)
      have hfirst := reads_text (cs.take HESSIAN_CHUNK_SIZE)
        (fun c hc => hplain c (List.mem_of_mem_take hc))
        (by rw [htake]; decide)
      rw [htake] at hfirst
      rw [chunkHead_full h, chunkBody_full h, ← List.append_assoc]
      refine hfirst.bind ?_
      dsimp only
      rw [if_pos rfl]
      refine .bind_getc ?_
      rw [int_byte (ht.head_lt _)]
      have hpos : 0 < HESSIAN_CHUNK_SIZE := by decide
      refine reads_stringChunks ht fuel _ _ r (by rw [List.length_drop]; omega)
        (fun c hc => hplain c (List.mem_of_mem_drop hc)) ?_
      rw [CString.append_bytes, harray, hr, hcs, List.append_assoc]
    · have hlen : cs.length < 65536 := by
        unfold HESSIAN_CHUNK_SIZE at h
        omega
      rw [chunkHead_last h, chunkBody_last h,
        ← List.append_nil (size16Bytes cs.length ++ encode cs)]
      refine (reads_text _ hplain hlen).bind ?_
      dsimp only
      rw [if_neg ht.ne]
      refine .pure_of_eq (CString.ext_bytes ?_)
      rw [CString.append_bytes, CString.ofArray_bytes hnul, hr]

theorem length_le_chunkBody {α : Type} (cls : HessianClass) {enc : List α → Bytes}
    (henc : ∀ xs, xs.length ≤ (enc xs).length) (xs : List α) :
    xs.length ≤ (chunkBody cls enc xs).length := by
  by_cases h : HESSIAN_CHUNK_SIZE < xs.length
  · have ih := length_le_chunkBody cls henc (xs.drop HESSIAN_CHUNK_SIZE)
    have htake := henc (xs.take HESSIAN_CHUNK_SIZE)
    rw [List.length_take_of_le (Nat.le_of_lt h)] at htake
    rw [chunkBody_full h]
    simp only [List.length_append, List.length_cons, List.length_drop] at ih ⊢
    omega
  · have := henc xs
    rw [chunkBody_last h, List.length_append]
    omega
termination_by xs.length
decreasing_by
  rw [List.length_drop]
  unfold HESSIAN_CHUNK_SIZE at *
  omega

/-- The bytes of a chunked value and, at least, a length behind them. -/
theorem enc_length_le_chunkBody {α : Type} (cls : HessianClass) (enc : List α → Bytes)
    (happ : ∀ xs ys, enc (xs ++ ys) = enc xs ++ enc ys) (xs : List α) :
    (enc xs).length + 2 ≤ (chunkBody cls enc xs).length := by
  by_cases h : HESSIAN_CHUNK_SIZE < xs.length
  · have ih := enc_length_le_chunkBody cls enc happ (xs.drop HESSIAN_CHUNK_SIZE)
    have hxs : enc xs = enc (xs.take HESSIAN_CHUNK_SIZE) ++ enc (xs.drop HESSIAN_CHUNK_SIZE) := by
      rw [← happ, List.take_append_drop]
    rw [chunkBody_full h, hxs]
    simp only [List.length_append, List.length_cons] at ih ⊢
    omega
  · rw [chunkBody_last h, List.length_append]
    show _ ≤ 2 + _
    omega
termination_by xs.length
decreasing_by
  rw [List.length_drop]
  unfold HESSIAN_CHUNK_SIZE at *
  omega

theorem length_le_encode (cs : List Char) : cs.length ≤ (encode cs).length := by
  rw [← leads_encode cs]
  exact leads_le_length _

/-- Around its loop, `hessian_string_deserialize` reads what the loop reads. -/
theorem reads_stringDeserialize {cls : HessianClass} {tag : CInt} {body : Bytes} {s : CString}
    (htag : tag = Char.int cls.tag ∨ tag = Char.int cls.chunkTag)
    (hbytes : s.bytes.length < body.length)
    (hloop : ∀ fuel, body.length < fuel → Reads (stringChunks cls fuel tag .empty) body s) :
    Reads (hessianStringDeserialize cls tag) body s := by
  intro r rest h hr
  obtain ⟨k, hk, hinput, hm⟩ := h
  have hknown : ¬ (tag ≠ Char.int cls.tag ∧ tag ≠ Char.int cls.chunkTag) := by
    rcases htag with h | h
    · exact fun hne => hne.1 h
    · exact fun hne => hne.2 h
  have hlen : body.length ≤ r.input.length := by
    rw [hr, List.length_append]
    omega
  have hsize : (if tag = Char.int cls.chunkTag then HESSIAN_CHUNK_SIZE else 32) ≤ 2 ^ 18 := by
    split <;> decide
  unfold hessianStringDeserialize
  rw [if_neg hknown]
  refine Returns.bind (P := fun b t => b = true ∧ t = r)
    ⟨true, r, bufferCreate_ample hk hm hsize, rfl, rfl⟩ ?_
  intro _ t h
  obtain ⟨rfl, rfl⟩ := h
  rw [if_pos rfl]
  refine Returns.bind (P := fun b u => b = t ∧ u = t) ⟨t, t, rfl, rfl, rfl⟩ ?_
  intro _ u h
  obtain ⟨rfl, rfl⟩ := h
  refine (hloop (u.input.length + 2) (by omega) u rest ⟨k, hk, hinput, hm⟩ hr).bind ?_
  intro sb v h
  obtain ⟨hsb, hrest, hmem⟩ := h
  have hgrant : calloc (s.bytes.length + 1) v = .done true v :=
    calloc_ample (k := k) (hmem ▸ hm) (by omega)
  refine ⟨s, v, ?_, rfl, hrest, hmem⟩
  rw [hsb, bind_done hgrant, if_pos rfl]
  rfl

/-- **`hessian_string_deserialize` reads back a plain text.** -/
theorem reads_string {cls : HessianClass} (ht : ChunkTags cls) {s : CString} {cs : List Char}
    (hs : s.bytes = encode cs) (hplain : ∀ c ∈ cs, Plain c) :
    Reads (hessianStringDeserialize cls (Char.int (chunkHead cls cs))) (chunkBody cls encode cs) s
    := by
  have hchars : cs.length ≤ (chunkBody cls encode cs).length :=
    length_le_chunkBody _ length_le_encode cs
  have hbytes : (encode cs).length + 2 ≤ (chunkBody cls encode cs).length :=
    enc_length_le_chunkBody _ _ encode_append cs
  refine reads_stringDeserialize ?_ (by rw [hs]; omega) fun fuel hfuel => ?_
  · unfold chunkHead
    split <;> simp
  · exact reads_stringChunks ht fuel cs .empty s (by omega) hplain
      (by rw [CString.empty_bytes, List.nil_append, hs])

/-! ## 5. Binaries -/

theorem Mem.Ample.not_refuses {m : Mem} {k n : Nat} (hm : m.Ample k) (hn : n ≤ k) :
    m.refuses n = false := by
  have h := hm.grants n hn
  unfold Mem.grants at h
  cases hr : m.refuses n with
  | false => rfl
  | true => rw [hr] at h; simp at h

/-- A length and so many bytes. -/
theorem reads_bytes (data bs : Bytes) (hlen : bs.length < 65536) :
    Reads (readBytes (.holding data)) (size16Bytes bs.length ++ bs) (.holding (data ++ bs)) := by
  unfold readBytes size16Bytes
  refine .bind_getc (.bind_getc ?_)
  rw [size16_bytes hlen]
  intro s rest h hs
  obtain ⟨k, hk, _, hm⟩ := h
  replace hs : s.input = bs ++ rest := hs
  refine ⟨_, _, rfl, ?_, ?_, rfl⟩
  · show BinaryBuffer.putAll (.holding data) s.mem bs.length s.input = _
    unfold BinaryBuffer.putAll
    dsimp only
    rw [hm.not_refuses (by omega), if_neg (by decide), hs, bytesGetc_append]
  · show s.input.drop bs.length = rest
    rw [hs]
    exact List.drop_left

/-- The loop of `hessian_binary_deserialize` reads the chunks of a binary. -/
theorem reads_binaryGetChunks {cls : HessianClass} (ht : ChunkTags cls) :
    ∀ (fuel : Nat) (bs data : Bytes), bs.length < fuel →
      Reads (binaryGetChunks cls fuel (Char.int (chunkHead cls bs)) (.holding data))
        (chunkBody cls id bs) (.holding (data ++ bs))
  | fuel + 1, bs, data, hf => by
    unfold binaryGetChunks
    by_cases h : HESSIAN_CHUNK_SIZE < bs.length
    · have htake : (bs.take HESSIAN_CHUNK_SIZE).length = HESSIAN_CHUNK_SIZE :=
        List.length_take_of_le (Nat.le_of_lt h)
      have hfirst := reads_bytes data (bs.take HESSIAN_CHUNK_SIZE)
        (by rw [htake]; decide)
      have hpos : 0 < HESSIAN_CHUNK_SIZE := by decide
      have ih := reads_binaryGetChunks ht fuel (bs.drop HESSIAN_CHUNK_SIZE)
        (data ++ bs.take HESSIAN_CHUNK_SIZE) (by rw [List.length_drop]; omega)
      rw [List.append_assoc, List.take_append_drop] at ih
      rw [htake] at hfirst
      rw [chunkHead_full h, chunkBody_full h, ← List.append_assoc]
      refine hfirst.bind ?_
      rw [if_pos rfl]
      refine .bind_getc ?_
      rw [int_byte (ht.head_lt _)]
      exact ih
    · have hlen : bs.length < 65536 := by
        unfold HESSIAN_CHUNK_SIZE at h
        omega
      have hlast := (reads_bytes data _ hlen).bind
        (f := fun buf => if Char.int cls.tag = Char.int cls.chunkTag then do
            let tag ← bufferGetc
            binaryGetChunks cls fuel tag buf
          else pure buf) (b := .holding (data ++ bs)) (w := []) (by
            rw [if_neg ht.ne]
            exact .pure _)
      rw [List.append_nil] at hlast
      rw [chunkHead_last h, chunkBody_last h]
      exact hlast

/-- **`hessian_binary_deserialize` reads back its bytes.** -/
theorem reads_binary {cls : HessianClass} (ht : ChunkTags cls) (data : Bytes) :
    Reads (hessianBinaryDeserialize cls (Char.int (chunkHead cls data))) (chunkBody cls id data)
      data := by
  intro r rest h hr
  obtain ⟨k, hk, hinput, hm⟩ := h
  have htag : ¬ (Char.int (chunkHead cls data) ≠ Char.int cls.tag
      ∧ Char.int (chunkHead cls data) ≠ Char.int cls.chunkTag) := by
    unfold chunkHead
    split <;> simp
  have hlen : (chunkBody cls id data).length ≤ r.input.length := by
    rw [hr, List.length_append]
    omega
  have hbytes : data.length + 2 ≤ (chunkBody cls id data).length :=
    enc_length_le_chunkBody _ id (fun _ _ => rfl) data
  have hsize : (if Char.int (chunkHead cls data) = Char.int cls.chunkTag then HESSIAN_CHUNK_SIZE
      else 32) ≤ 2 ^ 18 := by
    split <;> decide
  unfold hessianBinaryDeserialize
  rw [if_neg htag]
  refine Returns.bind (P := fun b t => b = true ∧ t = r)
    ⟨true, r, bufferCreate_ample hk hm hsize, rfl, rfl⟩ ?_
  intro _ t h
  obtain ⟨rfl, rfl⟩ := h
  refine Returns.bind (P := fun b u => b = t ∧ u = t) ⟨t, t, rfl, rfl, rfl⟩ ?_
  intro _ u h
  obtain ⟨rfl, rfl⟩ := h
  have hloop := reads_binaryGetChunks ht (u.input.length + 2) data [] (by omega)
  rw [List.nil_append] at hloop
  refine (hloop u rest ⟨k, hk, hinput, hm⟩ hr).bind ?_
  intro _ v h
  obtain ⟨rfl, hrest, hmem⟩ := h
  have hgrant : calloc data.length v = .done true v :=
    calloc_ample (k := k) (hmem ▸ hm) (by omega)
  refine ⟨data, v, ?_, rfl, hrest, hmem⟩
  dsimp only
  rw [bind_done hgrant, if_pos rfl]
  rfl

/-! ## 6. The other scalar classes -/

theorem reads_boolean (cls : HessianClass) (hne : Char.int cls.chunkTag ≠ Char.int cls.tag)
    (value : Bool) :
    Reads (hessianBooleanDeserialize cls
      (if value then Char.int cls.tag else Char.int cls.chunkTag)) [] value := by
  unfold hessianBooleanDeserialize
  cases value with
  | true =>
    rw [if_pos rfl, if_neg (fun h => h.1 rfl)]
    exact .pure_of_eq (beq_self_eq_true _)
  | false =>
    rw [if_neg Bool.false_ne_true, if_neg (fun h => h.2 rfl)]
    exact .pure_of_eq (beq_eq_false_iff_ne.mpr hne)

theorem reads_null (cls : HessianClass) :
    Reads (hessianNullDeserialize cls (Char.int cls.tag)) [] () := by
  unfold hessianNullDeserialize
  rw [if_neg (not_not.mpr rfl)]
  exact .pure ()

/-- A type or an url that fits a length field and is read back whole. -/
def ShortText (text : CString) : Prop :=
  ∃ cs, text.bytes = encode cs ∧ (∀ c ∈ cs, Plain c) ∧ cs.length < 65536

theorem reads_textField {text : CString} (h : ShortText text) :
    Reads readText (size16Bytes (leads text.bytes) ++ text.bytes) (some text.bytes) := by
  obtain ⟨cs, htext, hplain, hlen⟩ := h
  have hr := reads_text _ hplain hlen
  rw [htext, leads_encode]
  exact hr

/-- **`hessian_remote_deserialize` reads back its type and its url.** -/
theorem reads_remote (cls : HessianClass) {type url : CString} (htype : ShortText type)
    (hurl : ShortText url) :
    Reads (hessianRemoteDeserialize cls (Char.int cls.tag))
      (textField 't' type ++ textField 'S' url) (some type, some url) := by
  have hlast := (reads_textField hurl).map
    fun url' => (some (CString.ofArray type.bytes), url'.map CString.ofArray)
  simp only [Option.map_some, CString.ofArray_eq] at hlast
  unfold hessianRemoteDeserialize textField
  rw [if_neg (not_not.mpr rfl), List.cons_append]
  refine .bind_getc ?_
  rw [int_byte (by decide), if_neg (not_not.mpr rfl)]
  refine (reads_textField htype).bind (.bind_getc ?_)
  rw [int_byte (by decide), if_neg (not_not.mpr rfl)]
  simp only [Option.map_some, CString.ofArray_eq]
  exact hlast

end ArgusPep
