/-
  File:      ArgusPep/Hessian/Acceptance.lean
  Subject:   `hessian_deserialize` accepts exactly the encodings of the grammar.

  A message that was cut off is a case of its own: past the end of the input the deserializer makes
  up what it reads. So the results are about objects that leave something unread behind them.

  * `Parses m P` -- what a deserializer has read when it returns and leaves something;
  * `parses_hessianDeserializeTag` -- **what was read as an object is an encoding of it**, by
    induction on the fuel, with the loops over the elements and the pairs;
  * `hessianDeserialize_accepts_iff` -- **an object is returned if and only if an encoding of it
    stands at the start of the input**;
  * `encoding_unambiguous` -- no encoding is the start of another one, and none stands for two
    objects.
-/
import ArgusPep.Lib.Consumes
import ArgusPep.Hessian.Grammar
import ArgusPep.Hessian.StringCodec
import ArgusPep.Hessian.Payload

namespace ArgusPep

open Lib Run Utf8 Reading

/-! ## 1. What is read -/

/-- From an ample reader, `m` returns only behind bytes and with a value in `P`. -/
abbrev Parses {α : Type} (m : Reading α) (P : Bytes → α → Prop) : Prop :=
  Consumes Reader.input Reader.Ample m P

section Rules

variable {α β : Type} {P : Bytes → α → Prop} {R : Bytes → β → Prop}

theorem parses_take {f : Bytes → α × Bytes} (hlen : ∀ input, (f input).2.length ≤ input.length)
    (h : ∀ input, (f input).2 ≠ [] → ∃ w, input = w ++ (f input).2 ∧ P w (f input).1) :
    Parses (Reading.take f) P := by
  intro s a t hs hrun
  cases hrun
  exact ⟨hs.mono rfl (hlen s.input), hlen s.input, h s.input⟩

theorem parses_getc : Parses bufferGetc fun w c => ∃ b, w = [b] ∧ c = UInt8.int b := by
  refine parses_take getc_length fun input hne => ?_
  cases input with
  | nil => exact absurd rfl hne
  | cons b rest => exact ⟨[b], rfl, b, rfl, rfl⟩

/-- A byte, and what is read behind it. -/
theorem Parses.bind_getc {f : CInt → Reading β} {F : CInt → Bytes → β → Prop}
    (hf : ∀ c, Parses (f c) (F c)) :
    Parses (bufferGetc >>= f) fun w a => ∃ b v, w = b :: v ∧ F (UInt8.int b) v a := by
  refine parses_getc.bind hf fun v c w a hv hF => ?_
  obtain ⟨b, rfl, rfl⟩ := hv
  exact ⟨b, w, rfl, hF⟩

/-- A request for a descriptor or a chunk is granted. -/
theorem calloc_granted {n : Nat} (hn : n ≤ 2 ^ 18) (s : Reader) (hs : s.Ample) :
    calloc n s = .done true s := by
  obtain ⟨k, hk, _, hm⟩ := hs
  exact calloc_ample hm (Nat.le_trans hn hk)

theorem create_granted {n : Nat} (hn : n ≤ 2 ^ 18) (s : Reader) (hs : s.Ample) :
    bufferCreate n s = .done true s := by
  obtain ⟨k, hk, _, hm⟩ := hs
  exact bufferCreate_ample hk hm hn

/-- A descriptor, and what is read behind it. -/
theorem Parses.bind_calloc {n : Nat} {f : Bool → Reading β} (hn : n ≤ 2 ^ 18)
    (hf : Parses (f true) R) : Parses (calloc n >>= f) R := hf.bind_exact (calloc_granted hn)

/-- A request for as much as the input says may be refused. -/
theorem parses_calloc (n : Nat) :
    Parses (calloc n) fun w granted => w = [] ∧ (n ≤ 2 ^ 18 → granted = true) := by
  intro s granted t hs hrun
  have hgranted (hn : n ≤ 2 ^ 18) : granted = true := by
    rw [calloc_granted hn s hs] at hrun
    cases hrun
    rfl
  obtain ⟨k, hk, hlen, hm⟩ := hs
  cases hrun
  exact ⟨⟨k, hk, hlen, by rw [hm.after n]; exact hm⟩, Nat.le_refl _,
    fun _ => ⟨[], rfl, rfl, hgranted⟩⟩

theorem parses_bufferCreate (n : Nat) :
    Parses (bufferCreate n) fun w created => w = [] ∧ (n ≤ 2 ^ 18 → created = true) := by
  refine .bind_calloc (by decide) ?_
  rw [if_pos rfl]
  refine (parses_calloc _).mono fun w granted h => ⟨h.1, fun hn => h.2 ?_⟩
  split <;> omega

theorem parses_visit (step : Reader → Step) : Parses (visit step) fun w _ => w = [] ∧ True := by
  intro s u t hs hrun
  cases hrun
  exact ⟨hs.mono rfl (Nat.le_refl _), Nat.le_refl _, fun _ => ⟨[], rfl, rfl, trivial⟩⟩

theorem Parses.bind_visit {step : Reader → Step} {f : Unit → Reading β} (hf : Parses (f ()) R) :
    Parses (visit step >>= f) R := (parses_visit step).bind_nil (fun _ => hf) fun _ _ _ _ h => h

end Rules

/-! ## 2. Numbers -/

theorem int32Bytes_word (a b c d : UInt8) :
    int32Bytes ((UInt8.int a <<< 24) + (UInt8.int b <<< 16) + (UInt8.int c <<< 8) + UInt8.int d)
      = [a, b, c, d] := by
  have hword := BigEndian.word32_toNat a b c d
  have ha := a.toNat_lt
  have hb := b.toNat_lt
  have hc := c.toNat_lt
  have hd := d.toNat_lt
  unfold int32Bytes UInt8.int
  rw [hword, BigEndian.byte_eq (b := a) (by omega), BigEndian.byte_eq (b := b) (by omega),
    BigEndian.byte_eq (b := c) (by omega), BigEndian.byte_eq (b := d) (by omega)]

theorem int64Bytes_word (a b c d e f g h : UInt8) :
    int64Bytes ((BitVec.ofNat 64 a.toNat <<< 56) + (BitVec.ofNat 64 b.toNat <<< 48)
      + (BitVec.ofNat 64 c.toNat <<< 40) + (BitVec.ofNat 64 d.toNat <<< 32)
      + (BitVec.ofNat 64 e.toNat <<< 24) + (BitVec.ofNat 64 f.toNat <<< 16)
      + (BitVec.ofNat 64 g.toNat <<< 8) + BitVec.ofNat 64 h.toNat) = [a, b, c, d, e, f, g, h] := by
  have hword := BigEndian.word64_toNat a b c d e f g h
  have ha := a.toNat_lt
  have hb := b.toNat_lt
  have hc := c.toNat_lt
  have hd := d.toNat_lt
  have he := e.toNat_lt
  have hf := f.toNat_lt
  have hg := g.toNat_lt
  have hh := h.toNat_lt
  unfold int64Bytes
  rw [hword, BigEndian.byte_eq (b := a) (by omega), BigEndian.byte_eq (b := b) (by omega),
    BigEndian.byte_eq (b := c) (by omega), BigEndian.byte_eq (b := d) (by omega),
    BigEndian.byte_eq (b := e) (by omega), BigEndian.byte_eq (b := f) (by omega),
    BigEndian.byte_eq (b := g) (by omega), BigEndian.byte_eq (b := h) (by omega)]

theorem parses_getInt32 : Parses getInt32 fun w v => w = int32Bytes v := by
  have h : Parses getInt32 _ := .bind_getc fun _ => .bind_getc fun _ => .bind_getc fun _ =>
    .bind_getc fun _ => .pure_exact _
  refine h.mono fun w v hread => ?_
  obtain ⟨a, _, rfl, b, _, rfl, c, _, rfl, d, _, rfl, rfl, rfl⟩ := hread
  exact (int32Bytes_word a b c d).symm

theorem parses_integer (cls : HessianClass) (tag : CInt) :
    Parses (hessianIntegerDeserialize cls tag)
      fun w v => tag = Char.int cls.tag ∧ w = int32Bytes v :=
  .ite (fun _ => .fail) fun htag => parses_getInt32.mono fun _ _ h => ⟨not_not.mp htag, h⟩

/-- A byte into an `int64_t`, and what is read behind it. -/
theorem Parses.bind_getc64 {β : Type} {f : BitVec 64 → Reading β}
    {F : BitVec 64 → Bytes → β → Prop} (hf : ∀ c, Parses (f c) (F c)) :
    Parses (bufferGetc64 >>= f)
      fun w a => ∃ b v, w = b :: v ∧ F (BitVec.ofNat 64 (UInt8.toNat b)) v a := by
  have h : Parses bufferGetc64 _ := .bind_getc fun _ => .pure_exact _
  refine h.bind hf fun v c w a hv hF => ?_
  obtain ⟨b, _, rfl, rfl, rfl⟩ := hv
  rw [signExtend_int] at hF
  exact ⟨b, w, rfl, hF⟩

theorem parses_long (cls : HessianClass) (tag : CInt) :
    Parses (hessianLongDeserialize cls tag)
      fun w v => tag = Char.int cls.tag ∧ w = int64Bytes v := by
  refine .ite (fun _ => .fail) fun htag => ?_
  have h := Parses.bind_getc64 fun b64 => .bind_getc64 fun b56 => .bind_getc64 fun b48 =>
    .bind_getc64 fun b40 => .bind_getc64 fun b32 => .bind_getc64 fun b24 => .bind_getc64 fun b16 =>
    .bind_getc64 fun b8 => .pure_exact ((b64 <<< 56) + (b56 <<< 48) + (b48 <<< 40) + (b40 <<< 32)
      + (b32 <<< 24) + (b24 <<< 16) + (b16 <<< 8) + b8)
  refine h.mono fun w v hread => ⟨not_not.mp htag, ?_⟩
  obtain ⟨a, _, rfl, b, _, rfl, c, _, rfl, d, _, rfl, e, _, rfl, f, _, rfl, g, _, rfl, i, _, rfl,
    rfl, rfl⟩ := hread
  exact (int64Bytes_word a b c d e f g i).symm

/-! ## 3. Texts and binaries -/

/-- Whatever the input holds, `utf8_bgets` stores so many characters. -/
theorem characters_utf8Chars : ∀ (n : Nat) (input : Bytes), Characters n (utf8Chars n input).1
  | 0, _ => .nil
  | n + 1, [] => by
    have ih := characters_utf8Chars n (bytesGetc (mbytes BUFFER_EOF) []).2
    exact @Characters.cons n (putc BUFFER_EOF) (bytesGetc (mbytes BUFFER_EOF) []).1 _ (by decide) ih
  | n + 1, b :: input => by
    have ih := characters_utf8Chars n (bytesGetc (mbytes (UInt8.int b)) input).2
    simp only [utf8Chars, getc_cons, putc_int]
    exact .cons (bytesGetc_fst_length _ input) ih

theorem parses_utf8Bgets (n : Nat) :
    Parses (utf8Bgets n) fun w r => n < 65536 → r = some w ∧ Characters n w := by
  have htake : Parses (Reading.take (utf8Chars n)) fun w array => array = w ∧ Characters n w :=
    parses_take (utf8Chars_length n) fun input hne =>
      ⟨(utf8Chars n input).1, (utf8Chars_exact n input hne).symm, rfl, characters_utf8Chars n input⟩
  have hstore (array : Bytes) : Parses (do
      if ← calloc (array.length + 1) then pure (some array) else pure none : Reading (Option Bytes))
      fun w r => w = [] ∧ (array.length < 2 ^ 18 → r = some array) := by
    refine (parses_calloc _).bind_nil (F := fun granted w r => w = [] ∧
      (granted = true → r = some array)) (fun granted => ?_)
      fun granted w r hgranted h => ⟨h.1, fun hlen => h.2 (hgranted hlen)⟩
    cases granted with
    | true => exact .pure ⟨rfl, fun _ => rfl⟩
    | false => exact .pure ⟨rfl, fun h => nomatch h⟩
  refine (parses_bufferCreate n).bind_nil (F := fun created w r => created = true → n < 65536 →
    r = some w ∧ Characters n w) (fun created => ?_)
    fun created w r hcreated h hn => h (hcreated (by omega)) hn
  cases created with
  | false => exact .pure fun h => nomatch h
  | true =>
    refine htake.bind hstore fun v array w r hv hw _ hn => ?_
    obtain ⟨rfl, hchars⟩ := hv
    obtain ⟨rfl, hr⟩ := hw
    have hle := hchars.length_le
    rw [List.append_nil]
    exact ⟨hr (by omega), hchars⟩

/-- A length with its two bytes there. -/
theorem size16_split (b16 b8 : UInt8) : size16Bytes (b16.toNat * 256 + b8.toNat) = [b16, b8] := by
  have h8 := b8.toNat_lt
  have hlow : UInt8.ofNat (b16.toNat * 256 + b8.toNat) = b8 := by
    apply UInt8.toNat_inj.mp
    rw [UInt8.toNat_ofNat']
    omega
  unfold size16Bytes
  rw [show (b16.toNat * 256 + b8.toNat) / 256 = b16.toNat by omega, UInt8.ofNat_toNat, hlow]

/-- Two length bytes and their characters: a sized text. -/
theorem parses_readText :
    Parses readText fun w r => ∃ array, r = some array ∧ Sized Characters w array := by
  have h : Parses readText _ := .bind_getc fun b16 => .bind_getc fun b8 => parses_utf8Bgets _
  refine h.mono fun w r hread => ?_
  obtain ⟨b16, _, rfl, b8, array, rfl, hr⟩ := hread
  have h16 := b16.toNat_lt
  have h8 := b8.toNat_lt
  rw [size16_int] at hr
  obtain ⟨rfl, hchars⟩ := hr (by omega)
  refine ⟨array, rfl, _, by omega, hchars, ?_⟩
  rw [size16_split]
  rfl

/-- The loop of `hessian_string_deserialize` reads chunks. -/
theorem parses_stringChunks {cls : HessianClass} (ht : ChunkTags cls) :
    ∀ (fuel : Nat) (tag : CInt) (sb : CString), Parses (stringChunks cls fuel tag sb) fun w s =>
      ∀ b, tag = UInt8.int b → ∃ arrays, Chunks (Char.byte cls.chunkTag) Characters b w arrays ∧
        s = sb.append (textOf arrays)
  | 0, _, _ => .outOfFuel
  | fuel + 1, tag, sb => by
    unfold stringChunks
    refine .bind_visit (parses_readText.bind (F := fun utf8 w s => ∀ array, utf8 = some array →
      (tag ≠ Char.int cls.chunkTag ∧ w = [] ∧ s = sb.append (CString.ofArray array)) ∨
      (tag = Char.int cls.chunkTag ∧ ∃ b v arrays, w = b :: v ∧
        Chunks (Char.byte cls.chunkTag) Characters b v arrays ∧
        s = (sb.append (CString.ofArray array)).append (textOf arrays))) (fun utf8 => ?_) ?_)
    · cases utf8 with
      | none => exact .undefined
      | some array =>
        refine .ite (fun htag => ?_) fun htag => ?_
        · refine (Parses.bind_getc fun next => parses_stringChunks ht fuel next
            (sb.append (CString.ofArray array))).mono fun w s hread array' harray => ?_
          cases harray
          obtain ⟨b, v, rfl, hv⟩ := hread
          obtain ⟨arrays, hchunks, hs⟩ := hv b rfl
          exact .inr ⟨htag, b, v, arrays, rfl, hchunks, hs⟩
        · refine .pure fun array' harray => ?_
          cases harray
          exact .inl ⟨htag, rfl, rfl⟩
    · intro v utf8 w s hv hw b hb
      obtain ⟨array, rfl, hsized⟩ := hv
      rcases hw array rfl with ⟨htag, rfl, rfl⟩ | ⟨htag, next, body, arrays, rfl, hchunks, rfl⟩
      · refine ⟨[array], ?_, ?_⟩
        · rw [List.append_nil]
          exact .last (fun e => htag (hb.trans ((int_eq_char ht.chunkTag_lt).mpr e))) hsized
        · exact CString.ext_bytes (by simp [textOf])
      · obtain rfl : b = Char.byte cls.chunkTag := (int_eq_char ht.chunkTag_lt).mp (hb ▸ htag)
        exact ⟨array :: arrays, .more hsized hchunks, CString.ext_bytes (by simp [textOf])⟩

/-- A tag of the class, as a byte. -/
theorem tag_cases {cls : HessianClass} (ht : ChunkTags cls) {tag : CInt}
    (h : ¬ (tag ≠ Char.int cls.tag ∧ tag ≠ Char.int cls.chunkTag)) :
    ∃ b, tag = UInt8.int b ∧ (b = Char.byte cls.tag ∨ b = Char.byte cls.chunkTag) := by
  by_cases htag : tag = Char.int cls.tag
  · exact ⟨_, htag.trans (int_byte ht.tag_lt).symm, .inl rfl⟩
  · have hchunk : tag = Char.int cls.chunkTag := by
      by_contra hne
      exact h ⟨htag, hne⟩
    exact ⟨_, hchunk.trans (int_byte ht.chunkTag_lt).symm, .inr rfl⟩

theorem parses_string {cls : HessianClass} (ht : ChunkTags cls) (tag : CInt) :
    Parses (hessianStringDeserialize cls tag) fun w s => ∃ b arrays, tag = UInt8.int b ∧
      (b = Char.byte cls.tag ∨ b = Char.byte cls.chunkTag) ∧
      Chunks (Char.byte cls.chunkTag) Characters b w arrays ∧ s = textOf arrays := by
  unfold hessianStringDeserialize
  refine .ite (fun _ => .fail) fun hknown => ?_
  obtain ⟨b, rfl, hb⟩ := tag_cases ht hknown
  refine .bind_exact (create_granted (by split <;> decide)) ?_
  rw [if_pos rfl]
  refine .look fun s => ?_
  refine (parses_stringChunks ht _ _ _).bind (F := fun sb w r => w = [] ∧ r = sb) (fun sb => ?_) ?_
  · refine (parses_calloc _).bind_nil (F := fun _ w r => w = [] ∧ r = sb) (fun granted => ?_)
      fun _ _ _ _ h => h
    exact .ite (fun _ => .pure ⟨rfl, rfl⟩) fun _ => .fail
  · intro v sb w r hv hw
    obtain ⟨arrays, hchunks, rfl⟩ := hv b rfl
    obtain ⟨rfl, rfl⟩ := hw
    rw [List.append_nil]
    exact ⟨b, arrays, rfl, hb, hchunks, CString.ext_bytes (by simp)⟩

/-- A length and so many bytes go into the buffer. -/
theorem parses_readBytes (buf : BinaryBuffer) :
    Parses (readBytes buf) fun w r => ∀ data, buf = .holding data →
      ∃ array, r = .holding (data ++ array) ∧ Sized Octets w array := by
  have htake (n : Nat) : Parses (do
      let s ← read
      update fun s => { s with input := s.input.drop n }
      pure (buf.putAll s.mem n s.input) : Reading BinaryBuffer)
      fun w r => n < 65536 → w.length = n ∧ ∀ data, buf = .holding data →
        r = .holding (data ++ w) := by
    intro s r t hs hrun
    cases hrun
    have hdrop : (s.input.drop n).length ≤ s.input.length := by simp
    refine ⟨hs.mono rfl hdrop, hdrop, fun hne => ⟨s.input.take n, ?_, fun hn => ?_⟩⟩
    · exact (List.take_append_drop n s.input).symm
    · obtain ⟨k, hk, _, hm⟩ := hs
      have hlong : n ≤ s.input.length := by
        by_contra hlt
        exact hne (List.drop_eq_nil_of_le (by omega))
      have hbytes : (bytesGetc n s.input).1 = s.input.take n := by
        unfold bytesGetc
        rw [Nat.sub_eq_zero_of_le hlong, List.replicate_zero, List.append_nil]
      refine ⟨List.length_take_of_le hlong, fun data hdata => ?_⟩
      unfold BinaryBuffer.putAll
      rw [hdata]
      dsimp only
      rw [hm.not_refuses (by omega), if_neg (by decide), hbytes]
  have h : Parses (readBytes buf) _ :=
    .bind_getc fun b16 => .bind_getc fun b8 => htake (size16 b16 b8)
  refine h.mono fun w r hread data hdata => ?_
  obtain ⟨b16, _, rfl, b8, array, rfl, hr⟩ := hread
  have h16 := b16.toNat_lt
  have h8 := b8.toNat_lt
  rw [size16_int] at hr
  obtain ⟨hlen, hr⟩ := hr (by omega)
  refine ⟨array, hr data hdata, _, by omega, hlen, ?_⟩
  rw [size16_split]
  rfl

/-- The loop of `hessian_binary_deserialize` reads chunks. -/
theorem parses_binaryGetChunks {cls : HessianClass} (ht : ChunkTags cls) :
    ∀ (fuel : Nat) (tag : CInt) (buf : BinaryBuffer),
      Parses (binaryGetChunks cls fuel tag buf) fun w r =>
        ∀ b data, tag = UInt8.int b → buf = .holding data →
          ∃ arrays, Chunks (Char.byte cls.chunkTag) Octets b w arrays ∧
            r = .holding (data ++ arrays.flatten)
  | 0, _, _ => .outOfFuel
  | fuel + 1, tag, buf => by
    unfold binaryGetChunks
    refine (parses_readBytes buf).bind (F := fun buf' w r => ∀ data', buf' = .holding data' →
      (tag ≠ Char.int cls.chunkTag ∧ w = [] ∧ r = .holding data') ∨
      (tag = Char.int cls.chunkTag ∧ ∃ b v arrays, w = b :: v ∧
        Chunks (Char.byte cls.chunkTag) Octets b v arrays ∧
        r = .holding (data' ++ arrays.flatten))) (fun buf' => ?_) ?_
    · refine .ite (fun htag => ?_) fun htag => .pure fun data' hdata => .inl ⟨htag, rfl, hdata⟩
      refine (Parses.bind_getc fun next => parses_binaryGetChunks ht fuel next buf').mono
        fun w r hread data' hdata => ?_
      obtain ⟨b, v, rfl, hv⟩ := hread
      obtain ⟨arrays, hchunks, hr⟩ := hv b data' rfl hdata
      exact .inr ⟨htag, b, v, arrays, rfl, hchunks, hr⟩
    · intro v buf' w r hv hw b data hb hdata
      obtain ⟨array, hbuf, hsized⟩ := hv data hdata
      rcases hw _ hbuf with ⟨htag, rfl, rfl⟩ | ⟨htag, next, body, arrays, rfl, hchunks, rfl⟩
      · refine ⟨[array], ?_, by simp⟩
        rw [List.append_nil]
        exact .last (fun e => htag (hb.trans ((int_eq_char ht.chunkTag_lt).mpr e))) hsized
      · obtain rfl : b = Char.byte cls.chunkTag := (int_eq_char ht.chunkTag_lt).mp (hb ▸ htag)
        exact ⟨array :: arrays, .more hsized hchunks, by simp⟩

theorem parses_binary {cls : HessianClass} (ht : ChunkTags cls) (tag : CInt) :
    Parses (hessianBinaryDeserialize cls tag) fun w data => ∃ b arrays, tag = UInt8.int b ∧
      (b = Char.byte cls.tag ∨ b = Char.byte cls.chunkTag) ∧
      Chunks (Char.byte cls.chunkTag) Octets b w arrays ∧ data = arrays.flatten := by
  unfold hessianBinaryDeserialize
  refine .ite (fun _ => .fail) fun hknown => ?_
  obtain ⟨b, rfl, hb⟩ := tag_cases ht hknown
  refine .bind_exact (create_granted (by split <;> decide)) (.look fun s => ?_)
  refine (parses_binaryGetChunks ht _ _ _).bind (F := fun buf w r => ∀ data, buf = .holding data →
    w = [] ∧ r = data) (fun buf => ?_) ?_
  · cases buf with
    | holding data =>
      refine (parses_calloc _).bind_nil (F := fun _ w r => w = [] ∧ r = data) (fun granted => ?_)
        fun granted w r _ h data' hdata => by cases hdata; exact h
      exact .ite (fun _ => .pure ⟨rfl, rfl⟩) fun _ => .fail
    | absent =>
      refine (parses_calloc _).bind_nil (F := fun _ _ _ => True) (fun granted => ?_)
        fun _ _ _ _ _ _ hdata => nomatch hdata
      exact .ite (fun _ => .pure trivial) fun _ => .fail
    | lost =>
      refine Parses.bind_visit ((parses_calloc _).bind_nil (F := fun _ _ _ => True)
        (fun granted => ?_) fun _ _ _ _ _ _ hdata => nomatch hdata)
      exact .ite (fun _ => .undefined) fun _ => .fail
  · intro v buf w r hv hw
    obtain ⟨arrays, hchunks, hbuf⟩ := hv b [] rfl rfl
    obtain ⟨rfl, rfl⟩ := hw _ hbuf
    rw [List.append_nil]
    exact ⟨b, arrays, rfl, hb, hchunks, by simp⟩

/-! ## 4. The other scalar classes -/

theorem parses_boolean (tag : CInt) :
    Parses (hessianBooleanDeserialize hessianBooleanClass tag) fun w value =>
      w = [] ∧ tag = UInt8.int (Char.byte (if value then 'T' else 'F')) := by
  refine .ite (fun _ => .fail) fun hknown => .pure ⟨rfl, ?_⟩
  by_cases htag : tag = Char.int 'T'
  · subst htag
    decide
  · have hfalse : tag = Char.int 'F' := by
      by_contra hne
      exact hknown ⟨htag, hne⟩
    subst hfalse
    decide

theorem parses_null (tag : CInt) :
    Parses (hessianNullDeserialize hessianNullClass tag) fun w _ => w = [] ∧ tag = Char.int 'N' :=
  .ite (fun _ => .fail) fun htag => .pure ⟨rfl, not_not.mp htag⟩

theorem byte_of_int {c : Char} (hc : c.toNat < 256) {b : UInt8} (h : UInt8.int b = Char.int c) :
    b = Char.byte c := (int_eq_char hc).mp h

/-- The url of a Remote, with its tag. -/
theorem parses_url (type : Option CString) :
    Parses (do
      let urlTag ← bufferGetc
      if urlTag ≠ Char.int 'S' then fail
      else do
        let url ← readText
        pure (type, url.map CString.ofArray) : Reading (Option CString × Option CString))
      fun w texts => ∃ v url, w = Char.byte 'S' :: v ∧ Sized Characters v url ∧
        texts = (type, some (CString.ofArray url)) := by
  refine (Parses.bind_getc (F := fun c v texts => c = Char.int 'S' ∧ ∃ url,
    Sized Characters v url ∧ texts = (type, some (CString.ofArray url)))
    fun urlTag => .ite (fun _ => .fail) fun hS => ?_).mono ?_
  · refine parses_readText.bind (fun url => .pure_exact (type, url.map CString.ofArray)) ?_
    intro v url w r hv hw
    obtain ⟨array, rfl, hsized⟩ := hv
    obtain ⟨rfl, rfl⟩ := hw
    rw [List.append_nil]
    exact ⟨not_not.mp hS, array, hsized, rfl⟩
  · intro w texts hread
    obtain ⟨b, v, rfl, hb, url, hsized, htexts⟩ := hread
    obtain rfl := byte_of_int (by decide) hb
    exact ⟨v, url, rfl, hsized, htexts⟩

theorem parses_remote (tag : CInt) :
    Parses (hessianRemoteDeserialize hessianRemoteClass tag) fun w texts =>
      tag = Char.int 'r' ∧ ∃ u v type url, Sized Characters u type ∧ Sized Characters v url ∧
        w = Char.byte 't' :: (u ++ Char.byte 'S' :: v) ∧
        texts = (some (CString.ofArray type), some (CString.ofArray url)) := by
  refine .ite (fun _ => .fail) fun htag => ?_
  refine (Parses.bind_getc (F := fun c w texts => c = Char.int 't' ∧ ∃ u v type url,
    Sized Characters u type ∧ Sized Characters v url ∧ w = u ++ Char.byte 'S' :: v ∧
    texts = (some (CString.ofArray type), some (CString.ofArray url)))
    fun typeTag => .ite (fun _ => .fail) fun ht => ?_).mono ?_
  · refine parses_readText.bind (fun type => parses_url (type.map CString.ofArray)) ?_
    intro u type w r hu hw
    obtain ⟨array, rfl, hsized⟩ := hu
    obtain ⟨v, url, rfl, hurl, rfl⟩ := hw
    exact ⟨not_not.mp ht, u, v, array, url, hsized, hurl, rfl, rfl⟩
  · intro w texts hread
    obtain ⟨b, _, rfl, hb, u, v, type, url, hu, hv, rfl, htexts⟩ := hread
    obtain rfl := byte_of_int (by decide) hb
    exact ⟨not_not.mp htag, u, v, type, url, hu, hv, rfl, htexts⟩

/-! ## 5. Containers -/

theorem parses_optionalType (nextTag : CInt) :
    Parses (getOptionalType nextTag) fun w head => ∀ b, nextTag = UInt8.int b →
      ∃ u c, TypeHead head.1 u ∧ b :: w = u ++ [c] ∧ head.2 = UInt8.int c := by
  refine .ite (fun ht => ?_) fun _ => .pure fun b hb => ⟨[], b, .absent, rfl, hb⟩
  refine parses_readText.bind (F := fun type w head => ∀ array, type = some array →
    ∃ c, w = [c] ∧ head = (some (CString.ofArray array), UInt8.int c)) (fun type => ?_) ?_
  · cases type with
    | none => exact .fail
    | some array =>
      refine (Parses.bind_getc fun c => .pure_exact (some (CString.ofArray array), c)).mono ?_
      intro w head hread array' harray
      cases harray
      obtain ⟨c, _, rfl, rfl, rfl⟩ := hread
      exact ⟨c, rfl, rfl⟩
  · intro v type w head hv hw b hb
    obtain ⟨array, rfl, hsized⟩ := hv
    obtain ⟨c, rfl, rfl⟩ := hw array rfl
    obtain rfl := byte_of_int (by decide) (hb.symm.trans ht)
    exact ⟨_, c, .present hsized, by simp, rfl⟩

theorem parses_optionalLength (nextTag : CInt) :
    Parses (getOptionalLength nextTag) fun w next => ∀ b, nextTag = UInt8.int b →
      ∃ v c, LengthHead v ∧ b :: w = v ++ [c] ∧ next = UInt8.int c := by
  refine .ite (fun hl => ?_) fun _ => .pure fun b hb => ⟨[], b, .absent, rfl, hb⟩
  refine parses_getInt32.bind (fun _ => parses_getc) ?_
  intro u length w next hu hw b hb
  obtain ⟨c, rfl, rfl⟩ := hw
  obtain rfl := byte_of_int (by decide) (hb.symm.trans hl)
  exact ⟨_, c, .present length, by rw [hu]; rfl, rfl⟩

/-- The last loop of `hessian_list_deserialize` goes through only if every Ref names an element. -/
theorem parses_linkElements (n : Nat) (elements : List HessianObject) :
    Parses (linkElements n elements) fun w _ => w = [] ∧
      ∀ value, .ref value ∈ elements → 0 ≤ value.toInt ∧ value.toInt < (n : Int) := by
  induction elements with
  | nil => exact .pure ⟨rfl, fun _ h => absurd h List.not_mem_nil⟩
  | cons o rest ih =>
    unfold linkElements
    refine Parses.bind_visit (.ite (fun _ => .undefined) fun hin => ?_)
    refine Parses.bind_calloc (by decide) ?_
    rw [if_pos rfl]
    refine ih.mono fun w _ h => ⟨h.1, fun value hmem => ?_⟩
    rcases List.mem_cons.mp hmem with rfl | hmem
    · by_contra hout
      refine hin ?_
      simp only [refIndex, llistGet]
      rw [if_pos (by omega)]
      rfl
    · exact h.2 value hmem

theorem parses_linkPairs (pairs : List (HessianObject × HessianObject)) :
    Parses (linkPairs pairs) fun w _ => w = [] := by
  induction pairs with
  | nil => exact .pure rfl
  | cons pair rest ih =>
    unfold linkPairs
    refine Parses.bind_calloc (by decide) ?_
    rw [if_pos rfl]
    exact ih

/-- The elements read by the loop of a list, with the final `z`. -/
def ElementsRead (nextTag : CInt) (refs : List HessianObject) (w : Bytes)
    (refs' : List HessianObject) : Prop :=
  ∀ b, nextTag = UInt8.int b → ∃ elements v, refs' = refs ++ elements ∧
    ElementsEncoding elements v ∧ b :: w = v ++ [Char.byte 'z']

/-- The pairs read by the loop of a map, with the final `z`. -/
def PairsRead (nextTag : CInt) (refs : List (HessianObject × HessianObject)) (w : Bytes)
    (refs' : List (HessianObject × HessianObject)) : Prop :=
  ∀ b, nextTag = UInt8.int b → ∃ pairs v, refs' = refs ++ pairs ∧
    PairsEncoding pairs v ∧ b :: w = v ++ [Char.byte 'z']

/-- What is read as an object behind the tag `tag`. -/
def ObjectRead (tag : CInt) (w : Bytes) (o : HessianObject) : Prop :=
  ∀ b, tag = UInt8.int b → Encoding o (b :: w)

/-- Behind a head and the tag that ended it stands what that tag begins. -/
theorem behind_head {b c : UInt8} {u w head body : Bytes} (h : b :: u = head ++ [c])
    (hw : c :: w = body) : b :: (u ++ w) = head ++ body := by
  rw [← List.cons_append, h, List.append_assoc, ← hw]
  rfl

/-- The end of `hessian_list_deserialize`, with the elements read. -/
theorem parses_listEnd (type : Option CString) (refs : List HessianObject) :
    Parses (do
      if ← llistCreate then
        linkElements refs.length refs
        pure (type, refs)
      else do
        deleteElements refs
        fail : Reading (Option CString × List HessianObject))
      fun w parts => w = [] ∧ parts = (type, refs) ∧ RefsInside refs := by
  refine Parses.bind_calloc (by decide) ?_
  rw [if_pos rfl]
  refine (parses_linkElements refs.length refs).bind (fun _ => .pure_exact (type, refs)) ?_
  intro v _ w parts hv hw
  obtain ⟨rfl, hrefs⟩ := hv
  obtain ⟨rfl, rfl⟩ := hw
  exact ⟨rfl, rfl, hrefs⟩

/-- **What `hessian_list_deserialize` read is a list**, if its loop read elements. -/
theorem parses_list {elementsLoop : CInt → Reading (List HessianObject)} (tag : CInt)
    (hloop : ∀ nextTag, Parses (elementsLoop nextTag) (ElementsRead nextTag [])) :
    Parses (hessianListDeserialize elementsLoop hessianListClass tag) fun w parts =>
      ObjectRead tag w (.list parts.1 parts.2) := by
  refine .ite (fun _ => .fail) fun htag => ?_
  refine Parses.bind_calloc (by decide) ?_
  rw [if_pos rfl]
  have helements (type : Option CString) (nextTag : CInt) :=
    (hloop nextTag).bind (parses_listEnd type) (R := fun w parts => ∀ b, nextTag = UInt8.int b →
      ∃ v, ElementsEncoding parts.2 v ∧ RefsInside parts.2 ∧ b :: w = v ++ [Char.byte 'z'] ∧
        parts.1 = type) (by
      intro v refs w parts hv hw b hb
      obtain ⟨rfl, rfl, hrefs⟩ := hw
      obtain ⟨elements, u, rfl, henc, hu⟩ := hv b hb
      exact ⟨u, henc, hrefs, by rw [List.append_nil]; exact hu, rfl⟩)
  have hlength (type : Option CString) (nextTag : CInt) :=
    (parses_optionalLength nextTag).bind (helements type) (R := fun w parts =>
      ∀ b, nextTag = UInt8.int b → ∃ v x, LengthHead v ∧ ElementsEncoding parts.2 x ∧
        RefsInside parts.2 ∧ b :: w = v ++ (x ++ [Char.byte 'z']) ∧ parts.1 = type) (by
      intro u next w parts hu hw b hb
      obtain ⟨v, c, hv, hhead, hc⟩ := hu b hb
      obtain ⟨x, henc, hrefs, hx, htype⟩ := hw c hc
      exact ⟨v, x, hv, henc, hrefs, behind_head hhead hx, htype⟩)
  have htype (nextTag : CInt) :=
    (parses_optionalType nextTag).bind (fun head => hlength head.1 head.2) (R := fun w parts =>
      ∀ b, nextTag = UInt8.int b → Encoding (.list parts.1 parts.2) (Char.byte 'V' :: b :: w)) (by
      intro u head w parts hu hw b hb
      obtain ⟨v, c, hv, hhead, hc⟩ := hu b hb
      obtain ⟨y, x, hy, henc, hrefs, hx, htype⟩ := hw c hc
      rw [behind_head hhead hx]
      exact .list (htype ▸ hv) hy henc hrefs)
  refine (Parses.bind_getc htype).mono fun w parts hread b hb => ?_
  obtain ⟨c, v, rfl, hv⟩ := hread
  obtain rfl := byte_of_int (by decide) (hb.symm.trans (not_not.mp htag))
  exact hv c rfl

/-- The end of `hessian_map_deserialize`, with the pairs read. -/
theorem parses_mapEnd (type : Option CString) (refs : List (HessianObject × HessianObject)) :
    Parses (do
      if ← llistCreate then
        linkPairs refs
        pure (type, refs)
      else do
        deletePairs refs
        fail : Reading (Option CString × List (HessianObject × HessianObject)))
      fun w parts => w = [] ∧ parts = (type, refs) := by
  refine Parses.bind_calloc (by decide) ?_
  rw [if_pos rfl]
  refine (parses_linkPairs refs).bind (fun _ => .pure_exact (type, refs)) ?_
  intro v _ w parts hv hw
  subst hv
  exact hw

/-- **What `hessian_map_deserialize` read is a map**, if its loop read pairs. -/
theorem parses_map {pairsLoop : CInt → Reading (List (HessianObject × HessianObject))}
    (tag : CInt) (hloop : ∀ nextTag, Parses (pairsLoop nextTag) (PairsRead nextTag [])) :
    Parses (hessianMapDeserialize pairsLoop hessianMapClass tag) fun w parts =>
      ObjectRead tag w (.map parts.1 parts.2) := by
  refine .ite (fun _ => .fail) fun htag => ?_
  refine Parses.bind_calloc (by decide) ?_
  rw [if_pos rfl]
  have hpairs (type : Option CString) (nextTag : CInt) :=
    (hloop nextTag).bind (parses_mapEnd type) (R := fun w parts => ∀ b, nextTag = UInt8.int b →
      ∃ v, PairsEncoding parts.2 v ∧ b :: w = v ++ [Char.byte 'z'] ∧ parts.1 = type) (by
      intro v refs w parts hv hw b hb
      obtain ⟨rfl, rfl⟩ := hw
      obtain ⟨pairs, u, rfl, henc, hu⟩ := hv b hb
      exact ⟨u, henc, by rw [List.append_nil]; exact hu, rfl⟩)
  have htype (nextTag : CInt) :=
    (parses_optionalType nextTag).bind (fun head => hpairs head.1 head.2) (R := fun w parts =>
      ∀ b, nextTag = UInt8.int b → Encoding (.map parts.1 parts.2) (Char.byte 'M' :: b :: w)) (by
      intro u head w parts hu hw b hb
      obtain ⟨v, c, hv, hhead, hc⟩ := hu b hb
      obtain ⟨x, henc, hx, htype⟩ := hw c hc
      rw [behind_head hhead hx]
      exact .map (htype ▸ hv) henc)
  refine (Parses.bind_getc htype).mono fun w parts hread b hb => ?_
  obtain ⟨c, v, rfl, hv⟩ := hread
  obtain rfl := byte_of_int (by decide) (hb.symm.trans (not_not.mp htag))
  exact hv c rfl

/-! ## 6. Objects -/

/-- A tag of one character, as a byte. -/
theorem tag_byte {c : Char} (hc : c.toNat < 256) {tag : CInt} {b : UInt8} (htag : tag = Char.int c)
    (hb : tag = UInt8.int b) : b = Char.byte c := byte_of_int hc (hb.symm.trans htag)

/-- The class of a tag reads an encoding. -/
theorem parses_deserializeAs {elementsLoop : CInt → Reading (List HessianObject)}
    {pairsLoop : CInt → Reading (List (HessianObject × HessianObject))} {cls : HessianClass}
    {tag : CInt} (hcls : getclass (gettype tag) = some cls)
    (helements : cls = hessianListClass →
      ∀ nextTag, Parses (elementsLoop nextTag) (ElementsRead nextTag []))
    (hpairs : cls = hessianMapClass →
      ∀ nextTag, Parses (pairsLoop nextTag) (PairsRead nextTag [])) :
    Parses (deserializeAs elementsLoop pairsLoop cls tag) (ObjectRead tag) := by
  have hstring : ChunkTags hessianStringClass := ⟨by decide, by decide, by decide⟩
  have hxml : ChunkTags hessianXmlClass := ⟨by decide, by decide, by decide⟩
  have hbinary : ChunkTags hessianBinaryClass := ⟨by decide, by decide, by decide⟩
  cases hty : gettype tag <;> rw [hty] at hcls <;> cases hcls
  case null =>
    refine (parses_null tag).map (fun _ => HessianObject.null) fun w _ h b hb => ?_
    obtain ⟨rfl, htag⟩ := h
    obtain rfl := tag_byte (by decide) htag hb
    exact .null
  case boolean =>
    refine (parses_boolean tag).map HessianObject.boolean fun w value h b hb => ?_
    obtain ⟨rfl, htag⟩ := h
    obtain rfl := int_inj (hb.symm.trans htag)
    exact .boolean value
  case integer =>
    refine (parses_integer hessianIntegerClass tag).map HessianObject.integer fun w v h b hb => ?_
    obtain ⟨htag, rfl⟩ := h
    obtain rfl := tag_byte (by decide) htag hb
    exact .integer v
  case ref =>
    refine (parses_integer hessianRefClass tag).map HessianObject.ref fun w v h b hb => ?_
    obtain ⟨htag, rfl⟩ := h
    obtain rfl := tag_byte (by decide) htag hb
    exact .ref v
  case long =>
    refine (parses_long hessianLongClass tag).map HessianObject.long fun w v h b hb => ?_
    obtain ⟨htag, rfl⟩ := h
    obtain rfl := tag_byte (by decide) htag hb
    exact .long v
  case date =>
    refine (parses_long hessianDateClass tag).map HessianObject.date fun w v h b hb => ?_
    obtain ⟨htag, rfl⟩ := h
    obtain rfl := tag_byte (by decide) htag hb
    exact .date v
  case double =>
    refine (parses_long hessianDoubleClass tag).map HessianObject.double fun w v h b hb => ?_
    obtain ⟨htag, rfl⟩ := h
    obtain rfl := tag_byte (by decide) htag hb
    exact .double v
  case string =>
    refine (parses_string hstring tag).map HessianObject.string fun w s h b hb => ?_
    obtain ⟨b', arrays, hb', htag, hchunks, rfl⟩ := h
    obtain rfl := int_inj (hb.symm.trans hb')
    exact .string htag hchunks
  case xml =>
    refine (parses_string hxml tag).map HessianObject.xml fun w s h b hb => ?_
    obtain ⟨b', arrays, hb', htag, hchunks, rfl⟩ := h
    obtain rfl := int_inj (hb.symm.trans hb')
    exact .xml htag hchunks
  case binary =>
    refine (parses_binary hbinary tag).map HessianObject.binary fun w data h b hb => ?_
    obtain ⟨b', arrays, hb', htag, hchunks, rfl⟩ := h
    obtain rfl := int_inj (hb.symm.trans hb')
    exact .binary htag hchunks
  case remote =>
    refine (parses_remote tag).map (R := ObjectRead tag)
      (fun texts => HessianObject.remote texts.1 texts.2) ?_
    intro w texts h b hb
    obtain ⟨htag, u, v, type, url, hu, hv, rfl, rfl⟩ := h
    obtain rfl := tag_byte (by decide) htag hb
    exact .remote hu hv
  case list =>
    exact (parses_list tag (helements rfl)).map
      (fun parts => HessianObject.list parts.1 parts.2) fun _ _ h => h
  case map =>
    exact (parses_map tag (hpairs rfl)).map
      (fun parts => HessianObject.map parts.1 parts.2) fun _ _ h => h

theorem getclass_size {type : HessianT} {cls : HessianClass} (h : getclass type = some cls) :
    cls.size ≤ 2 ^ 18 := by
  cases type <;> cases h <;> decide

/-- A tag behind which a container goes on is not the final `z`. -/
theorem elementsRead_stop {nextTag : CInt} (refs : List HessianObject)
    (hstop : nextTag = Char.int 'z' ∨ nextTag = BUFFER_EOF) :
    ElementsRead nextTag refs [] refs := by
  intro b hb
  have hz : nextTag = Char.int 'z' := hstop.resolve_right fun h => int_ne_eof b (hb.symm.trans h)
  obtain rfl := tag_byte (by decide) hz hb
  exact ⟨[], [], (List.append_nil refs).symm, .nil, rfl⟩

theorem pairsRead_stop {nextTag : CInt} (refs : List (HessianObject × HessianObject))
    (hstop : nextTag = Char.int 'z' ∨ nextTag = BUFFER_EOF) : PairsRead nextTag refs [] refs := by
  intro b hb
  have hz : nextTag = Char.int 'z' := hstop.resolve_right fun h => int_ne_eof b (hb.symm.trans h)
  obtain rfl := tag_byte (by decide) hz hb
  exact ⟨[], [], (List.append_nil refs).symm, .nil, rfl⟩

mutual
/-- **What was read as an object is an encoding of it.** -/
theorem parses_hessianDeserializeTag : ∀ (fuel : Nat) (tag : CInt),
    Parses (hessianDeserializeTag fuel tag) (ObjectRead tag)
  | 0, _ => .outOfFuel
  | fuel + 1, tag => by
    unfold hessianDeserializeTag
    cases hcls : getclass (gettype tag) with
    | none => exact .fail
    | some cls =>
      refine Parses.bind_calloc (getclass_size hcls) ?_
      rw [if_pos rfl]
      refine parses_deserializeAs hcls ?_ ?_
      · rintro rfl
        exact parses_listElements fuel []
      · rintro rfl
        exact parses_mapPairs fuel []

theorem parses_listElements : ∀ (fuel : Nat) (refs : List HessianObject) (nextTag : CInt),
    Parses (listElements fuel hessianListClass refs nextTag) (ElementsRead nextTag refs)
  | 0, _, _ => .outOfFuel
  | fuel + 1, refs, nextTag => by
    unfold listElements
    refine .ite (fun hstop => .pure (elementsRead_stop refs hstop)) fun _ => ?_
    refine (parses_hessianDeserializeTag fuel nextTag).onFailure.bind
      (F := fun o w refs' => ∃ c v, w = c :: v ∧ ElementsRead (UInt8.int c) (refs ++ [o]) v refs')
      (fun o => ?_) ?_
    · refine Parses.bind_calloc (by decide) ?_
      rw [if_pos rfl]
      exact Parses.bind_getc fun next => parses_listElements fuel (refs ++ [o]) next
    · intro u o w refs' hu hw b hb
      obtain ⟨c, v, rfl, hv⟩ := hw
      obtain ⟨elements, x, rfl, henc, hx⟩ := hv c rfl
      refine ⟨o :: elements, (b :: u) ++ x, by simp, .cons (hu b hb) henc, ?_⟩
      rw [hx]
      simp

theorem parses_mapPairs : ∀ (fuel : Nat) (refs : List (HessianObject × HessianObject))
    (nextTag : CInt), Parses (mapPairs fuel hessianMapClass refs nextTag) (PairsRead nextTag refs)
  | 0, _, _ => .outOfFuel
  | fuel + 1, refs, nextTag => by
    unfold mapPairs
    refine .ite (fun hstop => .pure (pairsRead_stop refs hstop)) fun _ => ?_
    refine (parses_hessianDeserializeTag fuel nextTag).onFailure.bind
      (F := fun key w refs' => ∃ b u c v value, w = b :: (u ++ c :: v) ∧ Encoding value (b :: u) ∧
        PairsRead (UInt8.int c) (refs ++ [(key, value)]) v refs') (fun key => ?_) ?_
    · refine (Parses.bind_getc (F := fun next w refs' => ∀ b, next = UInt8.int b →
        ∃ u c v value, w = u ++ c :: v ∧ Encoding value (b :: u) ∧
          PairsRead (UInt8.int c) (refs ++ [(key, value)]) v refs') fun next => ?_).mono ?_
      · refine (parses_hessianDeserializeTag fuel next).onFailure.bind (F := fun value w refs' =>
          ∃ c v, w = c :: v ∧ PairsRead (UInt8.int c) (refs ++ [(key, value)]) v refs')
          (fun value => ?_) ?_
        · refine Parses.bind_calloc (by decide) ?_
          rw [if_pos rfl]
          refine Parses.bind_calloc (by decide) ?_
          rw [if_pos rfl]
          exact Parses.bind_getc fun next => parses_mapPairs fuel (refs ++ [(key, value)]) next
        · intro u value w refs' hu hw b hb
          obtain ⟨c, v, rfl, hv⟩ := hw
          exact ⟨u, c, v, value, rfl, hu b hb, hv⟩
      · intro w refs' hread
        obtain ⟨b, _, rfl, h⟩ := hread
        obtain ⟨u, c, v, value, rfl, hvalue, hv⟩ := h b rfl
        exact ⟨b, u, c, v, value, rfl, hvalue, hv⟩
    · intro x key w refs' hx hw a ha
      obtain ⟨b, u, c, v, value, rfl, hvalue, hv⟩ := hw
      obtain ⟨pairs, y, rfl, henc, hy⟩ := hv c rfl
      refine ⟨(key, value) :: pairs, (a :: x) ++ ((b :: u) ++ y), by simp,
        .cons (hx a ha) hvalue henc, ?_⟩
      rw [hy]
      simp
end

/-! ## 7. Whole messages -/

/-- **What `hessian_deserialize` read is an encoding**, and it returns the object behind the
    resolved pointers. -/
theorem parses_hessianDeserialize :
    Parses hessianDeserialize fun w o => ∃ tree, Encoding tree w ∧ o = tree.resolved := by
  have h : Parses hessianDeserialize _ := .bind_getc fun tag => .look fun s =>
    (parses_hessianDeserializeTag (2 * s.input.length + 2) tag).map HessianObject.resolved
      (R := fun w o => ∃ tree, ObjectRead tag w tree ∧ o = tree.resolved) fun w tree h =>
        ⟨tree, h, rfl⟩
  refine h.mono fun w o hread => ?_
  obtain ⟨b, v, rfl, tree, htree, ho⟩ := hread
  exact ⟨tree, htree b rfl, ho⟩

/-- **An object is returned, with something left unread, if and only if an encoding of it stands at
    the start of the input.** -/
theorem hessianDeserialize_accepts_iff (s : Reader) (hs : s.Ample) (o : HessianObject)
    (rest : Bytes) (hrest : rest ≠ []) :
    (∃ t, hessianDeserialize s = .done o t ∧ t.input = rest) ↔
      ∃ tree w, Encoding tree w ∧ s.input = w ++ rest ∧ o = tree.resolved := by
  constructor
  · intro h
    obtain ⟨t, hrun, rfl⟩ := h
    obtain ⟨_, _, hread⟩ := parses_hessianDeserialize s o t hs hrun
    obtain ⟨w, hw, tree, henc, ho⟩ := hread hrest
    exact ⟨tree, w, henc, hw, ho⟩
  · intro h
    obtain ⟨tree, w, henc, hinput, rfl⟩ := h
    obtain ⟨o, t, hrun, rfl, hleft, _⟩ := reads_of_encoding henc s rest hs hinput
    exact ⟨t, hrun, hleft⟩

/-- A list of the text "ab" in two chunks, and of a Ref to it. -/
def chunkedPair : Bytes :=
  [0x56, 0x73, 0x00, 0x01, 0x61, 0x53, 0x00, 0x01, 0x62, 0x52, 0x00, 0x00, 0x00, 0x00, 0x7A]

theorem encoding_chunkedPair :
    Encoding (.list none [.string (textOf [[0x61], [0x62]]), .ref 0#32]) chunkedPair := by
  have htext : Chunks (Char.byte 's') Characters (Char.byte 's')
      [0x00, 0x01, 0x61, 0x53, 0x00, 0x01, 0x62] [[0x61], [0x62]] :=
    .more (w := [0x00, 0x01, 0x61]) ⟨1, by decide, @Characters.cons 0 _ [] [] rfl .nil, rfl⟩
      (.last (w := [0x00, 0x01, 0x62]) (by decide)
        ⟨1, by decide, @Characters.cons 0 _ [] [] rfl .nil, rfl⟩)
  have hrefs : RefsInside [.string (textOf [[0x61], [0x62]]), .ref 0#32] := by
    intro value h
    simp only [List.mem_cons, reduceCtorEq, HessianObject.ref.injEq, List.not_mem_nil, or_false,
      false_or] at h
    subst h
    decide
  exact .list .absent .absent (.cons (.string (.inr rfl) htext) (.cons (.ref 0#32) .nil)) hrefs

/-- The list is returned with the text twice; the byte behind it is left. -/
theorem hessianDeserialize_accepts_chunkedPair :
    ∃ t, hessianDeserialize (Reader.start (chunkedPair ++ [0x4E]) Mem.unlimited)
        = .done (.list none [.string (CString.lit "ab"), .string (CString.lit "ab")]) t ∧
      t.input = [0x4E] :=
  (hessianDeserialize_accepts_iff _ (ample_start_unlimited _) _ _ (List.cons_ne_nil _ _)).mpr
    ⟨_, _, encoding_chunkedPair, rfl, rfl⟩

/-- The deserializer reads from the start of bytes once. -/
theorem Readable.unique {o o' : HessianObject} {w w' rest rest' : Bytes} (h : Readable o w)
    (h' : Readable o' w') (hbytes : w ++ rest = w' ++ rest') : o = o' ∧ w = w' := by
  obtain ⟨tag, body, rfl, _, hread⟩ := h
  obtain ⟨tag', body', rfl, _, hread'⟩ := h'
  rw [List.cons_append, List.cons_append] at hbytes
  obtain ⟨rfl, hbody⟩ := List.cons.inj hbytes
  let fuel := 2 * body.length + 2 * body'.length + 2
  let s := Reader.start (body ++ rest) Mem.unlimited
  have hs : s.Ample := ample_start_unlimited _
  obtain ⟨a, t, hrun, rfl, hleft, _⟩ := hread fuel (by omega) s rest hs rfl
  obtain ⟨a', t', hrun', rfl, hleft', _⟩ := hread' fuel (by omega) s rest' hs hbody
  rw [hrun] at hrun'
  cases hrun'
  obtain rfl : rest = rest' := hleft.symm.trans hleft'
  exact ⟨rfl, congrArg (tag :: ·) (List.append_cancel_right hbody)⟩

/-- **No encoding is the start of another one, and none stands for two objects**: bytes that begin
    with an encoding begin with one only. -/
theorem encoding_unambiguous {o o' : HessianObject} {w w' rest rest' : Bytes} (h : Encoding o w)
    (h' : Encoding o' w') (hbytes : w ++ rest = w' ++ rest') : o = o' ∧ w = w' :=
  (readable_of_encoding h).unique (readable_of_encoding h') hbytes

/-- The list with a byte behind it is no encoding of anything else. -/
theorem encoding_unambiguous_chunkedPair :
    ¬Encoding (.list none [.null, .null]) (chunkedPair ++ [0x4E]) := by
  intro h
  have h := @encoding_unambiguous _ _ _ _ [0x4E] [] encoding_chunkedPair h (List.append_nil _).symm
  cases h.1

end ArgusPep
