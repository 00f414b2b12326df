/-
  File:      ArgusPep/Hessian/Grammar.lean
  Subject:   The encodings `hessian_deserialize` reads, as a grammar.

  A server need not write an object the way `hessian_serialize` does: it may split a text into
  chunks as it likes, leave out the type or the length of a container, or use a Ref. The grammar
  says which bytes stand for an object; it follows the reader where the reader takes more than the
  protocol allows: behind a chunk, any tag but the chunk tag announces the last chunk, a character
  has as many bytes as `utf8_bgets` makes of its first one, and a text ends at its first zero byte.

  * `Characters`, `Sized`, `Chunks` -- a text or a binary behind its tag;
  * `Encoding` -- the encodings of an object;
  * `readable_of_encoding` -- **every encoding is read**, whatever stands behind it;
  * `reads_of_encoding` -- `hessian_deserialize` returns the object behind the resolved pointers;
  * `encoding_wire` -- what `hessian_serialize` writes is an encoding.
-/
import ArgusPep.Hessian.TreeCodec
import ArgusPep.Hessian.SafeSteps

namespace ArgusPep

open Lib Run Utf8 Reading

/-! ## 1. Texts and binaries -/

/-- So many characters: a first byte, and the bytes it announces behind it. -/
inductive Characters : Nat → Bytes → Prop where
  | nil : Characters 0 []
  | cons {n : Nat} {first : UInt8} {more w : Bytes} (hmore : more.length = mbytes (UInt8.int first))
      (hw : Characters n w) : Characters (n + 1) (first :: (more ++ w))

/-- A length field and the array it announces. -/
def Sized (Counts : Nat → Bytes → Prop) (w array : Bytes) : Prop :=
  ∃ n < 65536, Counts n array ∧ w = size16Bytes n ++ array

/-- The arrays of a chunked value behind its tag. Only `chunkTag` says that a chunk follows. -/
inductive Chunks (chunkTag : UInt8) (Counts : Nat → Bytes → Prop) :
    UInt8 → Bytes → List Bytes → Prop where
  | last {tag : UInt8} {w array : Bytes} (htag : tag ≠ chunkTag) (h : Sized Counts w array) :
      Chunks chunkTag Counts tag w [array]
  | more {tag : UInt8} {w body array : Bytes} {arrays : List Bytes} (h : Sized Counts w array)
      (hnext : Chunks chunkTag Counts tag body arrays) :
      Chunks chunkTag Counts chunkTag (w ++ tag :: body) (array :: arrays)

/-- The bytes of a binary are counted singly. -/
def Octets (n : Nat) (array : Bytes) : Prop := array.length = n

/-- The text of the arrays: of each, what stands before its first zero byte. -/
def textOf : List Bytes → CString
  | [] => .empty
  | array :: rest => (CString.ofArray array).append (textOf rest)

/-- The optional type of a container. -/
inductive TypeHead : Option CString → Bytes → Prop where
  | absent : TypeHead none []
  | present {w array : Bytes} (h : Sized Characters w array) :
      TypeHead (some (CString.ofArray array)) (Char.byte 't' :: w)

/-- The optional length of a list. It is not used. -/
inductive LengthHead : Bytes → Prop where
  | absent : LengthHead []
  | present (length : CInt) : LengthHead (Char.byte 'l' :: int32Bytes length)

/-! ## 2. Objects -/

/-- The Refs among the elements of a list name elements of the list. -/
def RefsInside (elements : List HessianObject) : Prop :=
  ∀ value, .ref value ∈ elements → 0 ≤ value.toInt ∧ value.toInt < (elements.length : Int)

mutual
/-- The encodings of an object. A Ref stands for itself here. -/
inductive Encoding : HessianObject → Bytes → Prop where
  | null : Encoding .null [Char.byte 'N']
  | boolean (value : Bool) : Encoding (.boolean value) [Char.byte (if value then 'T' else 'F')]
  | integer (value : CInt) : Encoding (.integer value) (Char.byte 'I' :: int32Bytes value)
  | ref (value : CInt) : Encoding (.ref value) (Char.byte 'R' :: int32Bytes value)
  | long (value : BitVec 64) : Encoding (.long value) (Char.byte 'L' :: int64Bytes value)
  | date (value : BitVec 64) : Encoding (.date value) (Char.byte 'd' :: int64Bytes value)
  | double (value : BitVec 64) : Encoding (.double value) (Char.byte 'D' :: int64Bytes value)
  | string {tag : UInt8} {body : Bytes} {arrays : List Bytes}
      (htag : tag = Char.byte 'S' ∨ tag = Char.byte 's')
      (h : Chunks (Char.byte 's') Characters tag body arrays) :
      Encoding (.string (textOf arrays)) (tag :: body)
  | xml {tag : UInt8} {body : Bytes} {arrays : List Bytes}
      (htag : tag = Char.byte 'X' ∨ tag = Char.byte 'x')
      (h : Chunks (Char.byte 'x') Characters tag body arrays) :
      Encoding (.xml (textOf arrays)) (tag :: body)
  | binary {tag : UInt8} {body : Bytes} {arrays : List Bytes}
      (htag : tag = Char.byte 'B' ∨ tag = Char.byte 'b')
      (h : Chunks (Char.byte 'b') Octets tag body arrays) :
      Encoding (.binary arrays.flatten) (tag :: body)
  | remote {v w type url : Bytes} (htype : Sized Characters v type)
      (hurl : Sized Characters w url) :
      Encoding (.remote (some (CString.ofArray type)) (some (CString.ofArray url)))
        (Char.byte 'r' :: Char.byte 't' :: (v ++ Char.byte 'S' :: w))
  | list {type : Option CString} {elements : List HessianObject} {u v w : Bytes}
      (htype : TypeHead type u) (hlength : LengthHead v) (helements : ElementsEncoding elements w)
      (hrefs : RefsInside elements) :
      Encoding (.list type elements) (Char.byte 'V' :: (u ++ (v ++ (w ++ [Char.byte 'z']))))
  | map {type : Option CString} {pairs : List (HessianObject × HessianObject)} {u w : Bytes}
      (htype : TypeHead type u) (hpairs : PairsEncoding pairs w) :
      Encoding (.map type pairs) (Char.byte 'M' :: (u ++ (w ++ [Char.byte 'z'])))

/-- The encodings of the elements of a list, one behind the other. -/
inductive ElementsEncoding : List HessianObject → Bytes → Prop where
  | nil : ElementsEncoding [] []
  | cons {o : HessianObject} {elements : List HessianObject} {v w : Bytes} (ho : Encoding o v)
      (helements : ElementsEncoding elements w) : ElementsEncoding (o :: elements) (v ++ w)

/-- The encodings of the pairs of a map, each key in front of its value. -/
inductive PairsEncoding : List (HessianObject × HessianObject) → Bytes → Prop where
  | nil : PairsEncoding [] []
  | cons {key value : HessianObject} {pairs : List (HessianObject × HessianObject)}
      {u v w : Bytes} (hkey : Encoding key u) (hvalue : Encoding value v)
      (hpairs : PairsEncoding pairs w) : PairsEncoding ((key, value) :: pairs) (u ++ (v ++ w))
end

/-! ## 3. Texts and binaries are read -/

theorem Characters.length_le {n : Nat} {array : Bytes} (h : Characters n array) :
    array.length ≤ 4 * n := by
  induction h with
  | nil => simp
  | @cons n first more w hmore _ ih =>
    have := mbytes_le (UInt8.int first)
    simp only [List.length_cons, List.length_append]
    omega

/-- `utf8_bgets` reads the characters and stops behind them. -/
theorem utf8Chars_characters {n : Nat} {array : Bytes} (h : Characters n array) (rest : Bytes) :
    utf8Chars n (array ++ rest) = (array, rest) := by
  induction h with
  | nil => rfl
  | @cons n first more w hmore _ ih =>
    have hread := bytesGetc_append more (w ++ rest)
    rw [hmore] at hread
    rw [List.cons_append, List.append_assoc]
    simp only [utf8Chars, getc_cons, hread, ih, putc_int]

/-- A length and so many characters. -/
theorem reads_sized {w array : Bytes} (h : Sized Characters w array) :
    Reads readText w (some array) := by
  obtain ⟨n, hn, hchars, rfl⟩ := h
  have hle := hchars.length_le
  have htake : Reads (Reading.take (utf8Chars n)) array array := by
    intro s rest _ hs
    refine ⟨_, _, rfl, ?_⟩
    rw [hs, utf8Chars_characters hchars]
    exact ⟨rfl, rfl, rfl⟩
  have hcreate : Reads (bufferCreate n) [] true := by
    intro s rest h hs
    obtain ⟨k, hk, _, hm⟩ := h
    exact ⟨true, s, bufferCreate_ample hk hm (by omega), rfl, by rw [hs, List.nil_append], rfl⟩
  have hstore := htake.bind (f := fun array => do
    if ← calloc (array.length + 1) then pure (some array) else pure none)
    (.bind_nil (reads_calloc (by omega)) (.pure (some array)))
  rw [List.append_nil] at hstore
  unfold readText size16Bytes
  refine .bind_getc (.bind_getc ?_)
  rw [size16_bytes hn]
  unfold utf8Bgets
  exact .bind_nil hcreate hstore

theorem int_eq_char {c : Char} (hc : c.toNat < 256) {b : UInt8} :
    UInt8.int b = Char.int c ↔ b = Char.byte c := by
  rw [← int_byte hc]
  exact ⟨int_inj, fun e => e ▸ rfl⟩

/-- The loop of `hessian_string_deserialize` reads the chunks of a text. -/
theorem reads_textChunks {cls : HessianClass} (ht : ChunkTags cls) {tag : UInt8} {body : Bytes}
    {arrays : List Bytes} (h : Chunks (Char.byte cls.chunkTag) Characters tag body arrays) :
    ∀ (fuel : Nat) (sb : CString), body.length < fuel →
      Reads (stringChunks cls fuel (UInt8.int tag) sb) body (sb.append (textOf arrays)) := by
  induction h with
  | @last tag w array htag h =>
    intro fuel sb hfuel
    obtain ⟨fuel, rfl⟩ := Nat.exists_eq_succ_of_ne_zero (Nat.ne_zero_of_lt hfuel)
    have hends : ¬ UInt8.int tag = Char.int cls.chunkTag :=
      fun e => htag ((int_eq_char ht.chunkTag_lt).mp e)
    have hempty : sb.append (textOf [array]) = sb.append (CString.ofArray array) := by
      refine CString.ext_bytes ?_
      simp [textOf]
    unfold stringChunks
    refine .bind_nil (reads_visit _) ?_
    rw [hempty, ← List.append_nil w]
    refine (reads_sized h).bind ?_
    dsimp only
    rw [if_neg hends]
    exact .pure _
  | @more tag w body array arrays h _ ih =>
    intro fuel sb hfuel
    obtain ⟨fuel, rfl⟩ := Nat.exists_eq_succ_of_ne_zero (Nat.ne_zero_of_lt hfuel)
    have hnext := ih fuel (sb.append (CString.ofArray array))
      (by simp only [List.length_append, List.length_cons] at hfuel; omega)
    have hassoc : (sb.append (CString.ofArray array)).append (textOf arrays)
        = sb.append (textOf (array :: arrays)) := by
      refine CString.ext_bytes ?_
      simp [textOf]
    rw [hassoc] at hnext
    unfold stringChunks
    refine .bind_nil (reads_visit _) ((reads_sized h).bind ?_)
    dsimp only
    rw [if_pos (int_byte ht.chunkTag_lt)]
    exact .bind_getc hnext

/-- Behind a length, a chunk has no more bytes than the text keeps. -/
theorem textOf_length_lt {chunkTag tag : UInt8} {body : Bytes} {arrays : List Bytes}
    {Counts : Nat → Bytes → Prop} (h : Chunks chunkTag Counts tag body arrays) :
    (textOf arrays).bytes.length < body.length := by
  induction h with
  | @last tag w array _ h =>
    obtain ⟨n, _, _, rfl⟩ := h
    have := CString.ofArray_length_le array
    simp only [textOf, CString.append_bytes, CString.empty_bytes, List.length_append, size16Bytes,
      List.length_cons, List.length_nil]
    omega
  | @more tag w body array arrays h _ ih =>
    obtain ⟨n, _, _, rfl⟩ := h
    have := CString.ofArray_length_le array
    simp only [textOf, CString.append_bytes, List.length_append, size16Bytes, List.length_cons,
      List.length_nil]
    omega

theorem flatten_length_lt {chunkTag tag : UInt8} {body : Bytes} {arrays : List Bytes}
    {Counts : Nat → Bytes → Prop} (h : Chunks chunkTag Counts tag body arrays) :
    arrays.flatten.length < body.length := by
  induction h with
  | last _ h =>
    obtain ⟨n, _, _, rfl⟩ := h
    simp only [List.flatten_cons, List.flatten_nil, List.append_nil, size16Bytes,
      List.length_append, List.length_cons, List.length_nil]
    omega
  | more h _ ih =>
    obtain ⟨n, _, _, rfl⟩ := h
    simp only [List.flatten_cons, List.length_append, size16Bytes, List.length_cons,
      List.length_nil]
    omega

/-- The loop of `hessian_binary_deserialize` reads the chunks of a binary. -/
theorem reads_octetChunks {cls : HessianClass} (ht : ChunkTags cls) {tag : UInt8} {body : Bytes}
    {arrays : List Bytes} (h : Chunks (Char.byte cls.chunkTag) Octets tag body arrays) :
    ∀ (fuel : Nat) (data : Bytes), body.length < fuel →
      Reads (binaryGetChunks cls fuel (UInt8.int tag) (.holding data)) body
        (.holding (data ++ arrays.flatten)) := by
  induction h with
  | @last tag w array htag h =>
    intro fuel data hfuel
    obtain ⟨fuel, rfl⟩ := Nat.exists_eq_succ_of_ne_zero (Nat.ne_zero_of_lt hfuel)
    obtain ⟨n, hn, rfl, rfl⟩ := h
    have hends : ¬ UInt8.int tag = Char.int cls.chunkTag :=
      fun e => htag ((int_eq_char ht.chunkTag_lt).mp e)
    unfold binaryGetChunks
    rw [List.flatten_singleton, ← List.append_nil (size16Bytes _ ++ array)]
    refine (reads_bytes data array hn).bind ?_
    rw [if_neg hends]
    exact .pure _
  | @more tag w body array arrays h _ ih =>
    intro fuel data hfuel
    obtain ⟨fuel, rfl⟩ := Nat.exists_eq_succ_of_ne_zero (Nat.ne_zero_of_lt hfuel)
    obtain ⟨n, hn, rfl, rfl⟩ := h
    have hnext := ih fuel (data ++ array)
      (by simp only [List.length_append, List.length_cons] at hfuel; omega)
    rw [List.append_assoc] at hnext
    unfold binaryGetChunks
    refine (reads_bytes data array hn).bind ?_
    rw [if_pos (int_byte ht.chunkTag_lt)]
    exact .bind_getc hnext

/-- Around its loop, `hessian_binary_deserialize` reads what the loop reads. -/
theorem reads_binaryDeserialize {cls : HessianClass} (ht : ChunkTags cls) {tag : UInt8}
    {body : Bytes} {arrays : List Bytes}
    (htag : tag = Char.byte cls.tag ∨ tag = Char.byte cls.chunkTag)
    (h : Chunks (Char.byte cls.chunkTag) Octets tag body arrays) :
    Reads (hessianBinaryDeserialize cls (UInt8.int tag)) body arrays.flatten := by
  intro r rest hample hr
  obtain ⟨k, hk, hinput, hm⟩ := hample
  have hknown : ¬ (UInt8.int tag ≠ Char.int cls.tag ∧ UInt8.int tag ≠ Char.int cls.chunkTag) := by
    rcases htag with rfl | rfl
    · exact fun hne => hne.1 (int_byte ht.tag_lt)
    · exact fun hne => hne.2 (int_byte ht.chunkTag_lt)
  have hlen : body.length ≤ r.input.length := by
    rw [hr, List.length_append]
    omega
  have hdata := flatten_length_lt h
  have hsize : (if UInt8.int tag = Char.int cls.chunkTag then HESSIAN_CHUNK_SIZE else 32)
      ≤ 2 ^ 18 := by
    split <;> decide
  unfold hessianBinaryDeserialize
  rw [if_neg hknown]
  refine Returns.bind (P := fun b t => b = true ∧ t = r)
    ⟨true, r, bufferCreate_ample hk hm hsize, rfl, rfl⟩ ?_
  intro _ t e
  obtain ⟨rfl, rfl⟩ := e
  refine Returns.bind (P := fun b u => b = t ∧ u = t) ⟨t, t, rfl, rfl, rfl⟩ ?_
  intro _ u e
  obtain ⟨rfl, rfl⟩ := e
  have hloop := reads_octetChunks ht h (u.input.length + 2) [] (by omega)
  rw [List.nil_append] at hloop
  refine (hloop u rest ⟨k, hk, hinput, hm⟩ hr).bind ?_
  intro _ v e
  obtain ⟨rfl, hrest, hmem⟩ := e
  have hgrant : calloc arrays.flatten.length v = .done true v :=
    calloc_ample (k := k) (hmem ▸ hm) (by omega)
  refine ⟨arrays.flatten, v, ?_, rfl, hrest, hmem⟩
  dsimp only
  rw [bind_done hgrant, if_pos rfl]
  rfl

/-! ## 4. Objects are read -/

/-- Behind its tag, the deserializer reads `o` from `w`, with fuel for two steps a byte. -/
def Readable (o : HessianObject) (w : Bytes) : Prop :=
  ∃ (tag : UInt8) (body : Bytes), w = tag :: body ∧ gettype (UInt8.int tag) ≠ .unknown ∧
    ∀ fuel, 2 * body.length + 2 ≤ fuel → Reads (hessianDeserializeTag fuel (UInt8.int tag)) body o

/-- An object is readable when the class of its tag reads it. -/
theorem readable_of {o : HessianObject} (tag : Char) (cls : HessianClass) {body : Bytes}
    (htag : tag.toNat < 256) (hcls : getclass (gettype (Char.int tag)) = some cls)
    (hr : ∀ fuel, 2 * body.length + 1 ≤ fuel →
      Reads (deserializeAs (listElements fuel cls []) (mapPairs fuel cls []) cls (Char.int tag))
        body o) : Readable o (Char.byte tag :: body) := by
  refine ⟨Char.byte tag, body, rfl, ?_, fun fuel hf => ?_⟩
  · rw [int_byte htag]
    intro hu
    rw [hu] at hcls
    cases hcls
  · obtain ⟨fuel, rfl⟩ := Nat.exists_eq_succ_of_ne_zero (Nat.ne_zero_of_lt hf)
    rw [int_byte htag]
    exact reads_tag hcls (hr fuel (by omega))

theorem readable_boolean (value : Bool) :
    Readable (.boolean value) [Char.byte (if value then 'T' else 'F')] := by
  have hr := (reads_boolean hessianBooleanClass (by decide) value).map HessianObject.boolean
  cases value with
  | true => exact readable_of 'T' hessianBooleanClass (by decide) (by decide) fun _ _ => hr
  | false => exact readable_of 'F' hessianBooleanClass (by decide) (by decide) fun _ _ => hr

/-- A text of the class `cls`, under either of its tags. -/
theorem reads_textObject {cls : HessianClass} (ht : ChunkTags cls) {tag : Char} {body : Bytes}
    {arrays : List Bytes} (htag : tag = cls.tag ∨ tag = cls.chunkTag)
    (h : Chunks (Char.byte cls.chunkTag) Characters (Char.byte tag) body arrays) :
    Reads (hessianStringDeserialize cls (Char.int tag)) body (textOf arrays) := by
  have hlt : tag.toNat < 256 := by
    rcases htag with rfl | rfl
    · exact ht.tag_lt
    · exact ht.chunkTag_lt
  refine reads_stringDeserialize (htag.imp (congrArg Char.int) (congrArg Char.int))
    (textOf_length_lt h) fun fuel hfuel => ?_
  have hloop := reads_textChunks ht h fuel .empty hfuel
  rw [int_byte hlt] at hloop
  exact hloop

theorem readable_string {tag : UInt8} {body : Bytes} {arrays : List Bytes}
    (htag : tag = Char.byte 'S' ∨ tag = Char.byte 's')
    (h : Chunks (Char.byte 's') Characters tag body arrays) :
    Readable (.string (textOf arrays)) (tag :: body) := by
  have ht : ChunkTags hessianStringClass := ⟨by decide, by decide, by decide⟩
  rcases htag with rfl | rfl
  · exact readable_of 'S' hessianStringClass (by decide) (by decide)
      fun _ _ => (reads_textObject ht (.inl rfl) h).map HessianObject.string
  · exact readable_of 's' hessianStringClass (by decide) (by decide)
      fun _ _ => (reads_textObject ht (.inr rfl) h).map HessianObject.string

theorem readable_xml {tag : UInt8} {body : Bytes} {arrays : List Bytes}
    (htag : tag = Char.byte 'X' ∨ tag = Char.byte 'x')
    (h : Chunks (Char.byte 'x') Characters tag body arrays) :
    Readable (.xml (textOf arrays)) (tag :: body) := by
  have ht : ChunkTags hessianXmlClass := ⟨by decide, by decide, by decide⟩
  rcases htag with rfl | rfl
  · exact readable_of 'X' hessianXmlClass (by decide) (by decide)
      fun _ _ => (reads_textObject ht (.inl rfl) h).map HessianObject.xml
  · exact readable_of 'x' hessianXmlClass (by decide) (by decide)
      fun _ _ => (reads_textObject ht (.inr rfl) h).map HessianObject.xml

theorem readable_binary {tag : UInt8} {body : Bytes} {arrays : List Bytes}
    (htag : tag = Char.byte 'B' ∨ tag = Char.byte 'b')
    (h : Chunks (Char.byte 'b') Octets tag body arrays) :
    Readable (.binary arrays.flatten) (tag :: body) := by
  have ht : ChunkTags hessianBinaryClass := ⟨by decide, by decide, by decide⟩
  have hr := (reads_binaryDeserialize ht htag h).map HessianObject.binary
  rcases htag with rfl | rfl
  · exact readable_of 'B' hessianBinaryClass (by decide) (by decide) fun _ _ => hr
  · exact readable_of 'b' hessianBinaryClass (by decide) (by decide) fun _ _ => hr

theorem readable_remote {v w type url : Bytes} (htype : Sized Characters v type)
    (hurl : Sized Characters w url) :
    Readable (.remote (some (CString.ofArray type)) (some (CString.ofArray url)))
      (Char.byte 'r' :: Char.byte 't' :: (v ++ Char.byte 'S' :: w)) := by
  refine readable_of 'r' hessianRemoteClass (by decide) (by decide) fun _ _ => ?_
  have hlast := (reads_sized hurl).map
    fun url' => (some (CString.ofArray type), url'.map CString.ofArray)
  have hr : Reads (hessianRemoteDeserialize hessianRemoteClass (Char.int 'r'))
      (Char.byte 't' :: (v ++ Char.byte 'S' :: w))
      (some (CString.ofArray type), some (CString.ofArray url)) := by
    unfold hessianRemoteDeserialize
    rw [if_neg (not_not.mpr rfl)]
    refine .bind_getc ?_
    rw [int_byte (by decide), if_neg (not_not.mpr rfl)]
    refine (reads_sized htype).bind (.bind_getc ?_)
    rw [int_byte (by decide), if_neg (not_not.mpr rfl)]
    exact hlast
  exact hr.map fun texts => HessianObject.remote texts.1 texts.2

/-! ## 5. Containers are read -/

/-- The optional type of a container, and the tag behind it. -/
theorem reads_typeHead {α : Type} {f : Option CString × CInt → Reading α} {type : Option CString}
    {u w : Bytes} {b : UInt8} {a : α} (h : TypeHead type u) (hb : UInt8.int b ≠ Char.int 't')
    (hf : Reads (f (type, UInt8.int b)) w a) :
    Reads (bufferGetc >>= fun nextTag => getOptionalType nextTag >>= f) (u ++ b :: w) a := by
  cases h with
  | absent =>
    refine .bind_getc (.bind_nil (a := (none, UInt8.int b)) ?_ hf)
    unfold getOptionalType
    rw [if_neg hb]
    exact .pure _
  | @present v array h =>
    have hbehind := (reads_getc b).map fun nextTag => (some (CString.ofArray array), nextTag)
    have e : v ++ b :: w = (v ++ [b]) ++ w := by simp
    rw [List.cons_append]
    refine .bind_getc ?_
    rw [int_byte (by decide), e]
    unfold getOptionalType
    rw [if_pos rfl]
    exact Reads.bind ((reads_sized h).bind hbehind) hf

/-- The optional length of a list, and the tag behind it. -/
theorem reads_lengthHead {α : Type} {f : CInt → Reading α} {v w w' : Bytes} {b b' : UInt8} {a : α}
    (h : LengthHead v) (hw : v ++ b :: w = b' :: w') (hb : UInt8.int b ≠ Char.int 'l')
    (hf : Reads (f (UInt8.int b)) w a) : Reads (getOptionalLength (UInt8.int b') >>= f) w' a := by
  unfold getOptionalLength
  cases h with
  | absent =>
    obtain ⟨rfl, rfl⟩ := List.cons.inj hw
    rw [if_neg hb]
    exact .bind_nil (.pure _) hf
  | present length =>
    rw [List.cons_append] at hw
    obtain ⟨rfl, rfl⟩ := List.cons.inj hw
    have e : int32Bytes length ++ b :: w = (int32Bytes length ++ [b]) ++ w := by simp
    rw [int_byte (by decide), if_pos rfl, e]
    exact ((reads_int32 length).bind (f := fun _ => bufferGetc) (reads_getc b)).bind hf

/-- Bytes that are absent or begin with the tag of an object. -/
def TagFirst (w : Bytes) : Prop :=
  w = [] ∨ ∃ tag rest, w = tag :: rest ∧ gettype (UInt8.int tag) ≠ .unknown

/-- Behind the type of a list stands its length, or what stands behind its head. -/
theorem LengthHead.first_ne {v w w' : Bytes} {b' : UInt8} (h : LengthHead v) (hw : TagFirst w)
    (e : v ++ (w ++ [Char.byte 'z']) = b' :: w') : UInt8.int b' ≠ Char.int 't' := by
  cases h with
  | absent => exact behindHead_ne hw e (by decide) (by decide)
  | present length =>
    obtain ⟨rfl, _⟩ := List.cons.inj e
    decide

/-- The loop over the elements of a list reads them, up to the final `z`. -/
structure ReadableElements (elements : List HessianObject) (w : Bytes) : Prop where
  tagFirst : TagFirst w
  reads : ∀ (refs : List HessianObject) (fuel : Nat) (b : UInt8) (v : Bytes),
    w ++ [Char.byte 'z'] = b :: v → 2 * v.length + 3 ≤ fuel →
      Reads (listElements fuel hessianListClass refs (UInt8.int b)) v (refs ++ elements)

/-- The loop over the pairs of a map reads them, up to the final `z`. -/
structure ReadablePairs (pairs : List (HessianObject × HessianObject)) (w : Bytes) : Prop where
  tagFirst : TagFirst w
  reads : ∀ (refs : List (HessianObject × HessianObject)) (fuel : Nat) (b : UInt8) (v : Bytes),
    w ++ [Char.byte 'z'] = b :: v → 2 * v.length + 3 ≤ fuel →
      Reads (mapPairs fuel hessianMapClass refs (UInt8.int b)) v (refs ++ pairs)

theorem readableElements_nil : ReadableElements [] [] where
  tagFirst := .inl rfl
  reads refs fuel b v hw hf := by
    obtain ⟨rfl, rfl⟩ := List.cons.inj hw
    obtain ⟨fuel, rfl⟩ := Nat.exists_eq_succ_of_ne_zero (Nat.ne_zero_of_lt hf)
    unfold listElements
    rw [if_pos (.inl (int_byte (by decide))), List.append_nil]
    exact .pure refs

/-- No object begins with the `z` that ends a container. -/
theorem goes_on {tag : UInt8} (h : gettype (UInt8.int tag) ≠ .unknown) :
    ¬ (UInt8.int tag = Char.int 'z' ∨ UInt8.int tag = BUFFER_EOF) := by
  intro hstop
  rcases hstop with hz | heof
  · exact known_tag_ne h (by decide) hz
  · exact int_ne_eof tag heof

theorem readableElements_cons {o : HessianObject} {elements : List HessianObject} {v w : Bytes}
    (ho : Readable o v) (h : ReadableElements elements w) :
    ReadableElements (o :: elements) (v ++ w) := by
  obtain ⟨tag, body, rfl, hknown, hread⟩ := ho
  refine ⟨.inr ⟨tag, body ++ w, rfl, hknown⟩, fun refs fuel b u hw hf => ?_⟩
  obtain ⟨fuel, rfl⟩ := Nat.exists_eq_succ_of_ne_zero (Nat.ne_zero_of_lt hf)
  rw [List.cons_append, List.cons_append] at hw
  obtain ⟨rfl, rfl⟩ := List.cons.inj hw
  cases hbehind : w ++ [Char.byte 'z'] with
  | nil => exact absurd hbehind (by simp)
  | cons b' w' =>
    have hlen : (body ++ w ++ [Char.byte 'z']).length = body.length + (w'.length + 1) := by
      rw [List.append_assoc, List.length_append, hbehind, List.length_cons]
    have ih := h.reads (refs ++ [o]) fuel b' w' hbehind (by omega)
    rw [List.append_assoc] at ih
    unfold listElements
    rw [if_neg (goes_on hknown), List.append_assoc, hbehind]
    refine .bind ((hread fuel (by omega)).onFailure _) (.bind_nil (reads_calloc (by decide)) ?_)
    rw [if_pos rfl]
    exact .bind_getc ih

theorem readablePairs_nil : ReadablePairs [] [] where
  tagFirst := .inl rfl
  reads refs fuel b v hw hf := by
    obtain ⟨rfl, rfl⟩ := List.cons.inj hw
    obtain ⟨fuel, rfl⟩ := Nat.exists_eq_succ_of_ne_zero (Nat.ne_zero_of_lt hf)
    unfold mapPairs
    rw [if_pos (.inl (int_byte (by decide))), List.append_nil]
    exact .pure refs

theorem readablePairs_cons {key value : HessianObject}
    {pairs : List (HessianObject × HessianObject)} {u v w : Bytes} (hkey : Readable key u)
    (hvalue : Readable value v) (h : ReadablePairs pairs w) :
    ReadablePairs ((key, value) :: pairs) (u ++ (v ++ w)) := by
  obtain ⟨tag, body, rfl, hknown, hreadKey⟩ := hkey
  obtain ⟨tag', body', rfl, _, hreadValue⟩ := hvalue
  refine ⟨.inr ⟨tag, _, rfl, hknown⟩, fun refs fuel b s hw hf => ?_⟩
  obtain ⟨fuel, rfl⟩ := Nat.exists_eq_succ_of_ne_zero (Nat.ne_zero_of_lt hf)
  simp only [List.cons_append, List.append_assoc] at hw
  obtain ⟨rfl, rfl⟩ := List.cons.inj hw
  cases hbehind : w ++ [Char.byte 'z'] with
  | nil => exact absurd hbehind (by simp)
  | cons b' w' =>
    have hlen := congrArg List.length hbehind
    simp only [List.length_append, List.length_cons] at hlen hf
    have ih := h.reads (refs ++ [(key, value)]) fuel b' w' hbehind (by omega)
    rw [List.append_assoc] at ih
    unfold mapPairs
    rw [if_neg (goes_on hknown)]
    refine .bind ((hreadKey fuel (by omega)).onFailure _) (.bind_getc ?_)
    refine .bind ((hreadValue fuel (by omega)).onFailure _) (.bind_nil
      (reads_calloc (by decide)) ?_)
    rw [if_pos rfl]
    refine .bind_nil (reads_calloc (by decide)) ?_
    rw [if_pos rfl]
    exact .bind_getc ih

/-- A Ref inside a list names an element, so the last loop goes through. -/
theorem reads_linkInside (n : Nat) : ∀ {elements : List HessianObject},
    (∀ value, .ref value ∈ elements → 0 ≤ value.toInt ∧ value.toInt < (n : Int)) →
    Reads (linkElements n elements) [] ()
  | [], _ => .pure ()
  | o :: rest, h => by
    have hin : (refIndex n 0 o).isSome = true := by
      cases o with
      | ref value =>
        obtain ⟨hlow, hhigh⟩ := h value List.mem_cons_self
        simp only [refIndex, llistGet]
        rw [if_neg (by omega)]
        rfl
      | _ => rfl
    unfold linkElements
    refine .bind_nil (reads_visit _) ?_
    rw [Option.isNone_eq_false_iff.mpr hin, if_neg (by decide)]
    refine .bind_nil (reads_calloc (by decide)) ?_
    rw [if_pos rfl]
    exact reads_linkInside n fun value hmem => h value (List.mem_cons_of_mem o hmem)

theorem readable_list {type : Option CString} {elements : List HessianObject} {u v w : Bytes}
    (htype : TypeHead type u) (hlength : LengthHead v) (h : ReadableElements elements w)
    (hrefs : RefsInside elements) :
    Readable (.list type elements) (Char.byte 'V' :: (u ++ (v ++ (w ++ [Char.byte 'z'])))) := by
  refine readable_of 'V' hessianListClass (by decide) (by decide) fun fuel hf => ?_
  cases hw : w ++ [Char.byte 'z'] with
  | nil => exact absurd hw (by simp)
  | cons b x =>
    cases hw' : v ++ b :: x with
    | nil => exact absurd hw' (by simp)
    | cons b' x' =>
      have hb' : UInt8.int b' ≠ Char.int 't' := hlength.first_ne h.tagFirst (hw ▸ hw')
      have hlen : x.length + 1 ≤ (u ++ (v ++ (w ++ [Char.byte 'z']))).length := by
        rw [hw]
        simp only [List.length_append, List.length_cons]
        omega
      have helements := h.reads [] fuel b x hw (by omega)
      rw [List.nil_append] at helements
      have hrest := helements.bind (f := fun refs => do
          if ← llistCreate then
            linkElements refs.length refs
            pure (type, refs)
          else do
            deleteElements refs
            fail) (b := (type, elements)) (w := [])
        (.bind_nil (reads_calloc (by decide))
          (.bind_nil (reads_linkInside elements.length hrefs) (.pure _)))
      rw [List.append_nil] at hrest
      have hlist : Reads (hessianListDeserialize (listElements fuel hessianListClass [])
          hessianListClass (Char.int 'V')) (u ++ b' :: x') (type, elements) := by
        unfold hessianListDeserialize
        rw [if_neg (not_not.mpr rfl)]
        refine .bind_nil (reads_calloc (by decide)) ?_
        rw [if_pos rfl]
        refine reads_typeHead htype hb' ?_
        exact reads_lengthHead hlength hw' (behindHead_ne h.tagFirst hw (by decide) (by decide))
          hrest
      exact hlist.map fun parts => HessianObject.list parts.1 parts.2

theorem readable_map {type : Option CString} {pairs : List (HessianObject × HessianObject)}
    {u w : Bytes} (htype : TypeHead type u) (h : ReadablePairs pairs w) :
    Readable (.map type pairs) (Char.byte 'M' :: (u ++ (w ++ [Char.byte 'z']))) := by
  refine readable_of 'M' hessianMapClass (by decide) (by decide) fun fuel hf => ?_
  cases hw : w ++ [Char.byte 'z'] with
  | nil => exact absurd hw (by simp)
  | cons b x =>
    have hlen : x.length + 1 ≤ (u ++ (w ++ [Char.byte 'z'])).length := by
      rw [hw]
      simp only [List.length_append, List.length_cons]
      omega
    have hpairs := h.reads [] fuel b x hw (by omega)
    rw [List.nil_append] at hpairs
    have hrest := hpairs.bind (f := fun refs => do
        if ← llistCreate then
          linkPairs refs
          pure (type, refs)
        else do
          deletePairs refs
          fail) (b := (type, pairs)) (w := [])
      (.bind_nil (reads_calloc (by decide)) (.bind_nil (reads_linkPairs _) (.pure _)))
    rw [List.append_nil] at hrest
    have hmap : Reads (hessianMapDeserialize (mapPairs fuel hessianMapClass []) hessianMapClass
        (Char.int 'M')) (u ++ b :: x) (type, pairs) := by
      unfold hessianMapDeserialize
      rw [if_neg (not_not.mpr rfl)]
      refine .bind_nil (reads_calloc (by decide)) ?_
      rw [if_pos rfl]
      exact reads_typeHead htype (behindHead_ne h.tagFirst hw (by decide) (by decide)) hrest
    exact hmap.map fun parts => HessianObject.map parts.1 parts.2

/-! ## 6. Every encoding is read -/

mutual
/-- **Every encoding is read.** -/
theorem readable_of_encoding {o : HessianObject} {w : Bytes} : Encoding o w → Readable o w
  | .null => readable_of 'N' hessianNullClass (by decide) (by decide)
      fun _ _ => (reads_null hessianNullClass).map fun _ => HessianObject.null
  | .boolean value => readable_boolean value
  | .integer value => readable_of 'I' hessianIntegerClass (by decide) (by decide)
      fun _ _ => (reads_integer hessianIntegerClass value).map HessianObject.integer
  | .ref value => readable_of 'R' hessianRefClass (by decide) (by decide)
      fun _ _ => (reads_integer hessianRefClass value).map HessianObject.ref
  | .long value => readable_of 'L' hessianLongClass (by decide) (by decide)
      fun _ _ => (reads_long hessianLongClass value).map HessianObject.long
  | .date value => readable_of 'd' hessianDateClass (by decide) (by decide)
      fun _ _ => (reads_long hessianDateClass value).map HessianObject.date
  | .double value => readable_of 'D' hessianDoubleClass (by decide) (by decide)
      fun _ _ => (reads_long hessianDoubleClass value).map HessianObject.double
  | .string htag h => readable_string htag h
  | .xml htag h => readable_xml htag h
  | .binary htag h => readable_binary htag h
  | .remote htype hurl => readable_remote htype hurl
  | .list htype hlength helements hrefs =>
    readable_list htype hlength (readableElements_of_encoding helements) hrefs
  | .map htype hpairs => readable_map htype (readablePairs_of_encoding hpairs)

theorem readableElements_of_encoding {elements : List HessianObject} {w : Bytes} :
    ElementsEncoding elements w → ReadableElements elements w
  | .nil => readableElements_nil
  | .cons ho helements =>
    readableElements_cons (readable_of_encoding ho) (readableElements_of_encoding helements)

theorem readablePairs_of_encoding {pairs : List (HessianObject × HessianObject)} {w : Bytes} :
    PairsEncoding pairs w → ReadablePairs pairs w
  | .nil => readablePairs_nil
  | .cons hkey hvalue hpairs =>
    readablePairs_cons (readable_of_encoding hkey) (readable_of_encoding hvalue)
      (readablePairs_of_encoding hpairs)
end

/-- **`hessian_deserialize` reads every encoding**, and resolves the Refs. -/
theorem reads_of_encoding {o : HessianObject} {w : Bytes} (h : Encoding o w) :
    Reads hessianDeserialize w o.resolved := by
  obtain ⟨tag, body, rfl, _, hread⟩ := readable_of_encoding h
  unfold hessianDeserialize
  refine .bind_getc ?_
  intro s rest hs hinput
  refine Returns.bind (P := fun b t => b = s ∧ t = s) ⟨s, s, rfl, rfl, rfl⟩ ?_
  intro _ t e
  obtain ⟨rfl, rfl⟩ := e
  have hfuel : 2 * body.length + 2 ≤ 2 * t.input.length + 2 := by
    rw [hinput, List.length_append]
    omega
  exact ((hread _ hfuel).map HessianObject.resolved) t rest hs hinput

/-! ## 7. What the serializer writes -/

open HessianObject

/-- Plain characters are counted as they are. -/
theorem characters_encode : ∀ {cs : List Char}, (∀ c ∈ cs, Plain c) →
    Characters cs.length (encode cs)
  | [], _ => .nil
  | c :: cs, h => by
    obtain ⟨lead, tail, hc⟩ := exists_sequence c
    rw [hc.encode_cons]
    exact .cons (mbytes_lead hc (h c List.mem_cons_self)).symm
      (characters_encode fun d hd => h d (List.mem_cons_of_mem c hd))

/-- The chunks a serializer writes, when the items of each chunk are counted as they are. -/
theorem chunks_chunkBody {α : Type} {cls : HessianClass} (ht : ChunkTags cls)
    {Counts : Nat → Bytes → Prop} {enc : List α → Bytes}
    (happ : ∀ xs ys, enc (xs ++ ys) = enc xs ++ enc ys) :
    ∀ xs : List α, (∀ ys, ys ⊆ xs → Counts ys.length (enc ys)) →
      ∃ arrays, Chunks (Char.byte cls.chunkTag) Counts (Char.byte (chunkHead cls xs))
        (chunkBody cls enc xs) arrays ∧ arrays.flatten = enc xs := by
  intro xs hcounts
  by_cases h : HESSIAN_CHUNK_SIZE < xs.length
  · have hfirst := hcounts (xs.take HESSIAN_CHUNK_SIZE) (List.take_subset _ _)
    rw [List.length_take_of_le (Nat.le_of_lt h)] at hfirst
    obtain ⟨arrays, hchunks, hflat⟩ := chunks_chunkBody ht happ (xs.drop HESSIAN_CHUNK_SIZE)
      fun ys hys => hcounts ys fun y hy => List.drop_subset _ _ (hys hy)
    refine ⟨enc (xs.take HESSIAN_CHUNK_SIZE) :: arrays, ?_, ?_⟩
    · rw [chunkHead_full h, chunkBody_full h, ← List.append_assoc]
      exact .more ⟨HESSIAN_CHUNK_SIZE, by decide, hfirst, rfl⟩ hchunks
    · rw [List.flatten_cons, hflat, ← happ, List.take_append_drop]
  · have hlen : xs.length < 65536 := by
      unfold HESSIAN_CHUNK_SIZE at h
      omega
    have htag : Char.byte cls.tag ≠ Char.byte cls.chunkTag := by
      intro e
      apply ht.ne
      rw [← int_byte ht.tag_lt, ← int_byte ht.chunkTag_lt, e]
    refine ⟨[enc xs], ?_, List.flatten_singleton⟩
    rw [chunkHead_last h, chunkBody_last h]
    exact .last htag ⟨xs.length, hlen, hcounts xs fun _ => id, rfl⟩
termination_by xs => xs.length
decreasing_by
  rw [List.length_drop]
  unfold HESSIAN_CHUNK_SIZE at *
  omega

/-- Without a zero byte, the text of the arrays is all of them. -/
theorem textOf_bytes : ∀ {arrays : List Bytes}, (0 : UInt8) ∉ arrays.flatten →
    (textOf arrays).bytes = arrays.flatten
  | [], _ => rfl
  | array :: rest, h => by
    rw [List.flatten_cons, List.mem_append, not_or] at h
    rw [textOf, CString.append_bytes, CString.ofArray_bytes h.1, textOf_bytes h.2,
      List.flatten_cons]

/-- A plain text is written in chunks that read as it. -/
theorem chunks_text {cls : HessianClass} (ht : ChunkTags cls) {s : CString} {cs : List Char}
    (hs : s.bytes = encode cs) (hplain : ∀ c ∈ cs, Plain c) :
    ∃ arrays, Chunks (Char.byte cls.chunkTag) Characters (Char.byte (chunkHead cls cs))
      (chunkBody cls encode cs) arrays ∧ textOf arrays = s := by
  obtain ⟨arrays, hchunks, hflat⟩ := chunks_chunkBody ht encode_append cs
    fun ys hys => characters_encode fun c hc => hplain c (hys hc)
  refine ⟨arrays, hchunks, CString.ext_bytes ?_⟩
  rw [textOf_bytes (hflat ▸ hs ▸ s.nulFree), hflat, hs]

theorem chunkHead_byte (cls : HessianClass) {α : Type} (xs : List α) :
    Char.byte (chunkHead cls xs) = Char.byte cls.tag ∨
      Char.byte (chunkHead cls xs) = Char.byte cls.chunkTag := by
  unfold chunkHead
  split
  · exact .inr rfl
  · exact .inl rfl

theorem sized_short {text : CString} (h : ShortText text) :
    Sized Characters (size16Bytes (leads text.bytes) ++ text.bytes) text.bytes := by
  obtain ⟨cs, hs, hplain, hlen⟩ := h
  refine ⟨cs.length, hlen, hs ▸ characters_encode hplain, ?_⟩
  rw [hs, leads_encode]

theorem typeHead_typeField {type : Option CString} (h : ShortType type) :
    TypeHead type (typeField type) := by
  cases type with
  | none => exact .absent
  | some text =>
    have hp := TypeHead.present (sized_short (h text rfl))
    rwa [CString.ofArray_eq] at hp

theorem lengthHead_lengthField (n : Nat) : LengthHead (lengthField n) := by
  unfold lengthField
  split
  · exact .present _
  · exact .absent

theorem refsInside_of_refFree {elements : List HessianObject} (h : RefFreeElements elements) :
    RefsInside elements := fun _ hmem => (refFree_of_mem h hmem).elim

theorem encoding_of_writes {o : HessianObject} {w : Bytes} (hw : Writes (hessianSerialize o) w)
    (h : Encoding o w) : Encoding o (wire o) := by
  rw [show wire o = w from hw.written]
  exact h

theorem encoding_wire_boolean (value : Bool) :
    Encoding (.boolean value) (wire (.boolean value)) := by
  cases value with
  | true => exact encoding_of_writes (writes_putc _) (.boolean true)
  | false => exact encoding_of_writes (writes_putc _) (.boolean false)

theorem encoding_wire_string {s : CString} (h : WireText s) :
    Encoding (.string s) (wire (.string s)) := by
  obtain ⟨⟨cs, hs, hplain⟩, hfits⟩ := h
  have ht : ChunkTags hessianStringClass := ⟨by decide, by decide, by decide⟩
  obtain ⟨arrays, hchunks, htext⟩ := chunks_text ht hs hplain
  have e := Encoding.string (chunkHead_byte hessianStringClass cs) hchunks
  rw [htext] at e
  exact encoding_of_writes (writes_text hessianStringClass hs hfits) e

theorem encoding_wire_xml {s : CString} (h : WireText s) : Encoding (.xml s) (wire (.xml s)) := by
  obtain ⟨⟨cs, hs, hplain⟩, hfits⟩ := h
  have ht : ChunkTags hessianXmlClass := ⟨by decide, by decide, by decide⟩
  obtain ⟨arrays, hchunks, htext⟩ := chunks_text ht hs hplain
  have e := Encoding.xml (chunkHead_byte hessianXmlClass cs) hchunks
  rw [htext] at e
  exact encoding_of_writes (writes_text hessianXmlClass hs hfits) e

theorem encoding_wire_binary (data : Bytes) : Encoding (.binary data) (wire (.binary data)) := by
  have ht : ChunkTags hessianBinaryClass := ⟨by decide, by decide, by decide⟩
  obtain ⟨arrays, hchunks, hflat⟩ :=
    @chunks_chunkBody UInt8 hessianBinaryClass ht Octets id (fun _ _ => rfl) data fun _ _ => rfl
  have e := Encoding.binary (chunkHead_byte hessianBinaryClass data) hchunks
  rw [hflat] at e
  exact encoding_of_writes (writes_binary hessianBinaryClass data) e

theorem encoding_wire_remote {type url : CString} (htype : ShortText type) (hurl : ShortText url) :
    Encoding (.remote (some type) (some url)) (wire (.remote (some type) (some url))) := by
  have e := Encoding.remote (sized_short htype) (sized_short hurl)
  rw [CString.ofArray_eq, CString.ofArray_eq] at e
  exact encoding_of_writes (writes_remote hessianRemoteClass htype.fitsInt hurl.fitsInt) e

mutual
/-- **What `hessian_serialize` writes for a carried tree is an encoding of it.** -/
theorem encoding_wire : ∀ {o : HessianObject}, o.Carried → Encoding o (wire o)
  | .null, _ => encoding_of_writes (writes_putc _) .null
  | .boolean value, _ => encoding_wire_boolean value
  | .integer value, _ =>
    encoding_of_writes (writes_integer hessianIntegerClass value) (.integer value)
  | .long value, _ => encoding_of_writes (writes_long hessianLongClass value) (.long value)
  | .date value, _ => encoding_of_writes (writes_long hessianDateClass value) (.date value)
  | .double value, _ => encoding_of_writes (writes_long hessianDoubleClass value) (.double value)
  | .string _, h => encoding_wire_string h
  | .xml _, h => encoding_wire_xml h
  | .binary data, _ => encoding_wire_binary data
  | .remote _ _, ⟨_, _, htype, hurl, ht, hu⟩ => by
    rw [htype, hurl]
    exact encoding_wire_remote ht hu
  | .list type elements, ⟨htype, hcount, hall⟩ =>
    encoding_of_writes (writes_list htype.fitsInt (Nat.le_pred_of_lt hcount)
        fun o ho => (coded_of_carriedElements hall o ho).writes)
      (.list (typeHead_typeField htype) (lengthHead_lengthField _) (encoding_wireElements hall)
        (refsInside_of_refFree (refFree_of_carriedElements hall)))
  | .map type pairs, ⟨htype, hcount, hall⟩ =>
    encoding_of_writes (writes_map htype.fitsInt (Nat.le_pred_of_lt hcount) fun kv hkv =>
        ⟨(coded_of_carriedPairs hall kv hkv).1.writes, (coded_of_carriedPairs hall kv hkv).2.writes⟩)
      (.map (typeHead_typeField htype) (encoding_wirePairs hall))
  | .ref _, h => h.elim

theorem encoding_wireElements : ∀ {elements : List HessianObject}, CarriedElements elements →
    ElementsEncoding elements (elements.flatMap wire)
  | [], _ => .nil
  | o :: elements, ⟨ho, hrest⟩ => by
    rw [List.flatMap_cons]
    exact .cons (encoding_wire ho) (encoding_wireElements hrest)

theorem encoding_wirePairs : ∀ {pairs : List (HessianObject × HessianObject)},
    CarriedPairs pairs → PairsEncoding pairs (wirePairs pairs)
  | [], _ => .nil
  | (key, value) :: pairs, ⟨hk, hv, hrest⟩ => by
    rw [wirePairs_cons]
    exact .cons (encoding_wire hk) (encoding_wire hv) (encoding_wirePairs hrest)
end

end ArgusPep
