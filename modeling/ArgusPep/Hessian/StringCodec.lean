/-
  File:      ArgusPep/Hessian/StringCodec.lean
  Subject:   Which texts survive `hessian_serialize` and `hessian_deserialize` as a String or an Xml.

  `utf8_strlen`, the chunk loop of the serializer and `utf8_bgets` count characters with three
  masks. The mask `0xF0` by which `utf8_bgets` finds the lead of a two-byte character misses
  `0xD0` to `0xDF`, the leads of U+0400 to U+07FF. The index of `utf8_strlen` is an `int`.

  * `utf8Chars_aligned` -- how far `utf8_bgets` gets in a text with such characters: never past
    the characters it was told to read, and short of them if one of them is not plain;
  * `ChunksRead` -- the chunk sequences `hessian_string_deserialize` reads to their end;
  * `plain_of_chunksRead` -- a text read back under both classes is plain;
  * `text_round_trip_iff` -- **a text is read back, as a String and as an Xml and before any bytes,
    exactly if it has fewer than 2^31 bytes and no character in U+0400 to U+07FF**.
-/
import ArgusPep.Hessian.TreeCodec

namespace ArgusPep

open Lib Run Utf8 Reading

/-- The two classes of texts. -/
inductive TextKind where
  | string
  | xml
deriving DecidableEq, Repr

def TextKind.cls : TextKind → HessianClass
  | .string => hessianStringClass
  | .xml => hessianXmlClass

def TextKind.object : TextKind → CString → HessianObject
  | .string => .string
  | .xml => .xml

/-- The object with the text `s`, serialized and followed by `rest`, is read back, and `rest` is
    what stays unread. -/
def RoundTrips (kind : TextKind) (s : CString) (rest : Bytes) : Prop :=
  ∃ w, hessianSerialize (kind.object s) [] = .done () w ∧
    Returns hessianDeserialize (Reader.start (w ++ rest) Mem.unlimited)
      fun o t => o = kind.object s ∧ t.input = rest

/-! ## 1. `utf8_bgets` on any text -/

/-- Reading that leaves something has not met the end of the input. -/
theorem utf8Chars_exact : ∀ (n : Nat) (input : Bytes), (utf8Chars n input).2 ≠ [] →
    (utf8Chars n input).1 ++ (utf8Chars n input).2 = input
  | 0, input, _ => rfl
  | n + 1, [], h => absurd (utf8Chars_nil (n + 1)) h
  | n + 1, b :: input, h => by
    simp only [utf8Chars, getc_cons, putc_int] at h ⊢
    have ih := utf8Chars_exact n _ h
    have hshort : mbytes (UInt8.int b) ≤ input.length := by
      by_contra hlong
      have hdrop : (bytesGetc (mbytes (UInt8.int b)) input).2 = [] :=
        List.drop_eq_nil_of_le (by omega)
      rw [hdrop, utf8Chars_nil] at h
      exact h rfl
    have hzero : mbytes (UInt8.int b) - input.length = 0 := by omega
    rw [List.cons_append, List.append_assoc, ih]
    unfold bytesGetc
    rw [hzero, List.replicate_zero, List.append_nil, List.take_append_drop]

theorem utf8Chars_add : ∀ (n k : Nat) (input : Bytes),
    (utf8Chars (n + k) input).2 = (utf8Chars k (utf8Chars n input).2).2
  | 0, k, input => by rw [Nat.zero_add]; rfl
  | n + 1, k, input => by
    rw [Nat.succ_add]
    simp only [utf8Chars, utf8Chars_add n k]

/-- Every character takes a byte: the number of characters is that of the bytes read. -/
theorem utf8Chars_count {n k : Nat} {input rest : Bytes} (hn : (utf8Chars n input).2 = rest)
    (hk : (utf8Chars k input).2 = rest) (hrest : rest ≠ []) : n = k := by
  have strict : ∀ n k : Nat, n < k → (utf8Chars n input).2 = rest →
      (utf8Chars k input).2 = rest → False := by
    intro n k hlt hn hk
    obtain ⟨j, rfl⟩ : ∃ j, k = n + (j + 1) := ⟨k - n - 1, by omega⟩
    rw [utf8Chars_add, hn] at hk
    have hexact := utf8Chars_exact (j + 1) rest (by rw [hk]; exact hrest)
    have hlen := congrArg List.length hexact
    rw [hk, List.length_append] at hlen
    have hpos : 0 < (utf8Chars (j + 1) rest).1.length := by simp [utf8Chars]
    omega
  rcases Nat.lt_trichotomy n k with h | h | h
  · exact (strict n k h hn hk).elim
  · exact h
  · exact (strict k n h hk hn).elim

theorem bytesGetc_zero (input : Bytes) : bytesGetc 0 input = ([], input) := by
  unfold bytesGetc
  rw [Nat.zero_sub, List.take_zero, List.drop_zero]
  rfl

/-- Continuation bytes are read one by one. -/
theorem mbytes_cont {b : UInt8} (h : Utf8.Cont b) : mbytes (UInt8.int b) = 0 := by
  rw [mbytes_int]
  unfold Utf8.Cont at h
  unfold trail
  split
  · rfl
  · rw [if_pos h.2]

/-- From inside a text, `n` characters lead to a place inside the text: behind `ks` continuation
    bytes of one of its characters, with at least as many bytes and characters left as `n` leaves
    room for. A character that is not plain, once its lead byte was read, adds one. -/
theorem utf8Chars_aligned : ∀ (n : Nat) (ks : Bytes) (cs : List Char),
    (∀ b ∈ ks, Utf8.Cont b) → n ≤ ks.length + cs.length →
    ∃ (read ks' : Bytes) (cs' : List Char), ks ++ encode cs = read ++ (ks' ++ encode cs') ∧
      (∀ x, utf8Chars n (ks ++ (encode cs ++ x)) = (read, ks' ++ (encode cs' ++ x))) ∧
      ks.length + cs.length ≤ n + (ks'.length + cs'.length) ∧
      (cs' = [] → (∃ c ∈ cs, ¬ Plain c) →
        ks.length + cs.length + 1 ≤ n + (ks'.length + cs'.length))
  | 0, ks, cs, _, _ => by
    refine ⟨[], ks, cs, rfl, fun _ => rfl, by omega, ?_⟩
    intro e h
    obtain rfl := e
    obtain ⟨c, hc, _⟩ := h
    exact absurd hc List.not_mem_nil
  | n + 1, k :: ks, cs, hks, hn => by
    obtain ⟨read, ks', cs', htext, hread, hroom, hstrict⟩ := utf8Chars_aligned n ks cs
      (fun b hb => hks b (List.mem_cons_of_mem k hb)) (by simp only [List.length_cons] at hn; omega)
    refine ⟨k :: read, ks', cs', ?_, fun x => ?_, ?_, ?_⟩
    · rw [List.cons_append, htext, List.cons_append]
    · have hk := mbytes_cont (hks k List.mem_cons_self)
      rw [List.cons_append]
      simp only [utf8Chars, getc_cons, hk, bytesGetc_zero, hread, putc_int, List.nil_append]
    · simp only [List.length_cons]
      omega
    · intro hnil hbad
      have := hstrict hnil hbad
      simp only [List.length_cons]
      omega
  | n + 1, [], [], _, hn => by simp at hn
  | n + 1, [], c :: cs, _, hn => by
    obtain ⟨lead, tail, hc⟩ := exists_sequence c
    simp only [List.length_cons, List.length_nil, Nat.zero_add] at hn ⊢
    by_cases hplain : Plain c
    · -- a plain character is read whole
      obtain ⟨read, ks', cs', htext, hread, hroom, hstrict⟩ := utf8Chars_aligned n [] cs
        (fun _ h => absurd h List.not_mem_nil) (by simp only [List.length_nil]; omega)
      simp only [List.nil_append, List.length_nil, Nat.zero_add] at htext hread hroom hstrict
      have hm := mbytes_lead hc hplain
      refine ⟨lead :: (tail ++ read), ks', cs', ?_, fun x => ?_, by omega, ?_⟩
      · rw [hc.encode_cons, htext]
        simp only [List.nil_append, List.cons_append, List.append_assoc]
      · rw [hc.encode_cons]
        simp only [List.nil_append, List.cons_append, List.append_assoc, utf8Chars, getc_cons, hm,
          bytesGetc_append, hread, putc_int]
      · intro hnil h
        obtain ⟨d, hd, hbad⟩ := h
        rcases List.mem_cons.mp hd with rfl | hd
        · exact absurd hplain hbad
        · have := hstrict hnil ⟨d, hd, hbad⟩
          omega
    · -- of another one, the lead byte alone
      have hrange := not_not.mp hplain
      have hlead := hc.upper_two_byte.mpr hrange
      have hone : tail.length = 1 := by
        rw [hc.tail_length]
        unfold trail
        rw [if_neg (by omega), if_pos hlead.2]
      obtain ⟨read, ks', cs', htext, hread, hroom, hstrict⟩ := utf8Chars_aligned n tail cs
        hc.tail_cont (by omega)
      have hm : mbytes (UInt8.int lead) = 0 := by rw [mbytes_int, if_pos hlead]
      refine ⟨lead :: read, ks', cs', ?_, fun x => ?_, by omega, fun _ _ => by omega⟩
      · rw [hc.encode_cons, htext]
        rfl
      · rw [hc.encode_cons]
        simp only [List.nil_append, List.cons_append, List.append_assoc, utf8Chars, getc_cons, hm,
          bytesGetc_zero, hread, putc_int]

/-- A text that is not plain is not read to its end. -/
theorem utf8Chars_short {cs : List Char} (hbad : ∃ c ∈ cs, ¬ Plain c) :
    ∃ read left, left ≠ [] ∧ encode cs = read ++ left ∧
      ∀ x, utf8Chars cs.length (encode cs ++ x) = (read, left ++ x) := by
  obtain ⟨read, ks', cs', htext, hread, hroom, hstrict⟩ := utf8Chars_aligned cs.length [] cs
    (fun _ h => nomatch h) (by simp only [List.length_nil]; omega)
  simp only [List.nil_append, List.length_nil, Nat.zero_add] at htext hread hroom hstrict
  refine ⟨read, ks' ++ encode cs', ?_, htext, fun x => by rw [hread, List.append_assoc]⟩
  intro hnil
  obtain ⟨rfl, henc⟩ := List.append_eq_nil_iff.mp hnil
  have hcs : cs' = [] := by
    by_contra hne
    exact encode_ne_nil hne henc
  have := hstrict hcs hbad
  rw [hcs] at this
  simp only [List.length_nil] at this
  omega

/-! ## 2. Chunk sequences -/

/-- `hessian_string_deserialize`, behind the tag `tag`, reads the chunks at the start of `input` as
    `text` and leaves `rest`, without meeting the end of the input. -/
inductive ChunksRead (cls : HessianClass) : (tag : CInt) → (input text rest : Bytes) → Prop where
  | last {tag : CInt} {b16 b8 : UInt8} {array rest : Bytes} (htag : tag ≠ Char.int cls.chunkTag)
      (hread : utf8Chars (b16.toNat * 256 + b8.toNat) (array ++ rest) = (array, rest)) :
      ChunksRead cls tag (b16 :: b8 :: (array ++ rest)) (CString.ofArray array).bytes rest
  | more {b16 b8 t : UInt8} {array input text rest : Bytes}
      (hread : utf8Chars (b16.toNat * 256 + b8.toNat) (array ++ t :: input) = (array, t :: input))
      (hnext : ChunksRead cls (UInt8.int t) input text rest) :
      ChunksRead cls (Char.int cls.chunkTag) (b16 :: b8 :: (array ++ t :: input))
        ((CString.ofArray array).bytes ++ text) rest

/-- The first chunk: the last one, or one with a chunk sequence behind it. -/
theorem ChunksRead.first {cls : HessianClass} {tag : CInt} {input text rest : Bytes}
    (h : ChunksRead cls tag input text rest) :
    ∃ (b16 b8 : UInt8) (array behind : Bytes), input = b16 :: b8 :: (array ++ behind) ∧
      utf8Chars (b16.toNat * 256 + b8.toNat) (array ++ behind) = (array, behind) ∧
      (tag ≠ Char.int cls.chunkTag ∧ text = (CString.ofArray array).bytes ∧ rest = behind ∨
        tag = Char.int cls.chunkTag ∧ ∃ t input' text', behind = t :: input' ∧
          text = (CString.ofArray array).bytes ++ text' ∧
          ChunksRead cls (UInt8.int t) input' text' rest) := by
  cases h with
  | last htag hread => exact ⟨_, _, _, _, rfl, hread, .inl ⟨htag, rfl, rfl⟩⟩
  | more hread hnext => exact ⟨_, _, _, _, rfl, hread, .inr ⟨rfl, _, _, _, rfl, rfl, hnext⟩⟩

/-- What the chunks hold, and what is left, is shorter than the input by the lengths and tags. -/
theorem ChunksRead.length {cls : HessianClass} {tag : CInt} {input text rest : Bytes}
    (h : ChunksRead cls tag input text rest) :
    text.length + rest.length + 2 ≤ input.length ∧
      (tag = Char.int cls.chunkTag → text.length + rest.length + 5 ≤ input.length) := by
  have hcstr : ∀ array : Bytes, (CString.ofArray array).bytes.length ≤ array.length :=
    fun array => (List.takeWhile_prefix _).length_le
  induction h with
  | @last tag b16 b8 array rest htag hread =>
    have := hcstr array
    refine ⟨?_, fun h => absurd h htag⟩
    simp only [List.length_cons, List.length_append]
    omega
  | @more b16 b8 t array input text rest hread hnext ih =>
    have := hcstr array
    have := ih.1
    simp only [List.length_cons, List.length_append]
    exact ⟨by omega, fun _ => by omega⟩

theorem getc_exact {input : Bytes} (h : (getc input).2 ≠ []) :
    ∃ b, input = b :: (getc input).2 ∧ (getc input).1 = UInt8.int b := by
  cases input with
  | nil => exact absurd rfl h
  | cons b input => exact ⟨b, rfl, rfl⟩

/-- A buffer is created without reading, and from an allocator that grants everything. -/
theorem bufferCreate_eq_done {size : Nat} {s s' : Reader} {created : Bool}
    (h : bufferCreate size s = .done created s') :
    s'.input = s.input ∧ (s.mem = Mem.unlimited → s' = s ∧ created = true) := by
  refine ⟨?_, fun hm => ?_⟩
  · unfold bufferCreate at h
    obtain ⟨granted, s₁, hcalloc, h⟩ := bind_eq_done h
    cases hcalloc
    split at h
    · cases h
      rfl
    · cases h
      rfl
  · obtain ⟨input, mem, steps⟩ := s
    replace hm : mem = Mem.unlimited := hm
    subst hm
    cases h
    exact ⟨rfl, rfl⟩

/-- The array `utf8_bgets` returns holds the characters its length announces. -/
theorem readText_some {s s' : Reader} {array : Bytes} (h : readText s = .done (some array) s') :
    (array, s'.input) = utf8Chars (size16 (getc s.input).1 (getc (getc s.input).2).1)
      (getc (getc s.input).2).2 := by
  unfold readText at h
  obtain ⟨b16, s₁, hb16, h⟩ := bind_eq_done h
  cases hb16
  obtain ⟨b8, s₂, hb8, h⟩ := bind_eq_done h
  cases hb8
  unfold utf8Bgets at h
  obtain ⟨created, s₃, hcreate, h⟩ := bind_eq_done h
  have hinput := (bufferCreate_eq_done hcreate).1
  split at h
  · obtain ⟨chars, s₄, htake, h⟩ := bind_eq_done h
    cases htake
    obtain ⟨granted, s₅, hcalloc, h⟩ := bind_eq_done h
    cases hcalloc
    split at h
    · cases h
      dsimp only at hinput ⊢
      rw [hinput]
    · cases h
  · cases h

/-- Two length bytes and their characters, from an allocator that grants everything. -/
theorem readText_unlimited {s : Reader} (hm : s.mem = Mem.unlimited) :
    Returns readText s fun r s' => s'.mem = Mem.unlimited ∧ ∃ array, r = some array := by
  obtain ⟨input, mem, steps⟩ := s
  replace hm : mem = Mem.unlimited := hm
  subst hm
  exact ⟨_, _, rfl, rfl, _, rfl⟩

/-- A run of the loop of `hessian_string_deserialize` that leaves something. -/
theorem chunksRead_of_done {cls : HessianClass} : ∀ (fuel : Nat) (tag : CInt) (sb r : CString)
    (s s' : Reader), s.mem = Mem.unlimited → stringChunks cls fuel tag sb s = .done r s' →
    s'.input ≠ [] → ∃ text, ChunksRead cls tag s.input text s'.input ∧ r.bytes = sb.bytes ++ text
  | fuel + 1, tag, sb, r, s, s', hm, h, hrest => by
    unfold stringChunks at h
    obtain ⟨_, s₁, hvisit, h⟩ := bind_eq_done h
    have hinput₁ : s₁.input = s.input ∧ s₁.mem = s.mem := by
      cases hvisit
      exact ⟨rfl, rfl⟩
    obtain ⟨array?, s₂, hread, h⟩ := bind_eq_done h
    obtain ⟨_, _, hgranted, hm₂, array, rfl⟩ := readText_unlimited (hinput₁.2.trans hm)
    rw [hread] at hgranted
    cases hgranted
    have hchars := readText_some hread
    rw [hinput₁.1] at hchars
    dsimp only at h
    -- whatever is read is there, for something is left in the end
    have hthere : s₂.input ≠ [] → ∃ b16 b8, s.input = b16 :: b8 :: (array ++ s₂.input) ∧
        utf8Chars (b16.toNat * 256 + b8.toNat) (array ++ s₂.input) = (array, s₂.input) := by
      intro hne
      have hchars₂ := congrArg Prod.snd hchars
      dsimp only at hchars₂
      have hbehind : (getc (getc s.input).2).2 ≠ [] := by
        intro hnil
        rw [hnil, utf8Chars_nil] at hchars₂
        exact hne hchars₂
      obtain ⟨b8, hb8, hint8⟩ := getc_exact hbehind
      have hbehind16 : (getc s.input).2 ≠ [] := by
        intro hnil
        rw [hnil] at hb8
        exact List.cons_ne_nil _ _ hb8.symm
      obtain ⟨b16, hb16, hint16⟩ := getc_exact hbehind16
      rw [hint16, hint8, size16_int] at hchars
      have hexact := utf8Chars_exact (b16.toNat * 256 + b8.toNat) (getc (getc s.input).2).2
        (by rw [← hchars]; exact hne)
      rw [← hchars] at hexact
      refine ⟨b16, b8, ?_, ?_⟩
      · rw [hb16, hb8, ← hexact]
      · rw [hexact, ← hchars]
    split at h
    · rename_i htag
      obtain ⟨tag', s₃, hgetc, h⟩ := bind_eq_done h
      cases hgetc
      obtain ⟨text, hnext, htext⟩ := chunksRead_of_done fuel _ _ r
        { s₂ with input := (getc s₂.input).2 } s' hm₂ h hrest
      -- the next chunk has its length bytes, so its tag is there too
      have htagThere : (getc s₂.input).2 ≠ [] := by
        intro hnil
        have hlen := hnext.length.1
        dsimp only at hlen
        rw [hnil, List.length_nil] at hlen
        omega
      obtain ⟨t, ht, hint⟩ := getc_exact htagThere
      obtain ⟨b16, b8, hinput, hread⟩ := hthere (by rw [ht]; exact List.cons_ne_nil _ _)
      refine ⟨(CString.ofArray array).bytes ++ text, ?_, ?_⟩
      · rw [htag, hinput, ht]
        rw [ht] at hread
        dsimp only at hnext
        rw [hint] at hnext
        exact .more hread hnext
      · rw [htext, CString.append_bytes, List.append_assoc]
    · rename_i htag
      cases h
      obtain ⟨b16, b8, hinput, hread⟩ := hthere hrest
      refine ⟨(CString.ofArray array).bytes, ?_, CString.append_bytes _ _⟩
      rw [hinput]
      exact .last htag hread

/-! ## 3. What is read back under both classes is plain -/

/-- The bytes of two lengths that count the same characters. -/
theorem size16_inj {a b c d : UInt8} (h : a.toNat * 256 + b.toNat = c.toNat * 256 + d.toNat) :
    a = c ∧ b = d := by
  have hb := b.toNat_lt
  have hd := d.toNat_lt
  exact ⟨UInt8.toNat_inj.mp (by omega), UInt8.toNat_inj.mp (by omega)⟩

/-- The reader stopped before `q :: qs` at the end of a chunk, and takes `q` for the tag of a last
    chunk. Then one more chunk was written, and its tag and length are read as text. -/
theorem resync_last {cls : HessianClass} {q : UInt8} {qs : Bytes} {cs : List Char}
    (hlow : ∀ b ∈ q :: qs, b.toNat < 0xF8) (hq : UInt8.int q ≠ Char.int cls.chunkTag)
    (h : ChunksRead cls (UInt8.int q)
      (qs ++ (Char.byte (chunkHead cls cs) :: (chunkBody cls encode cs ++ [0])))
      (q :: (qs ++ encode cs)) [0]) :
    ¬ HESSIAN_CHUNK_SIZE < cs.length ∧ ∃ b16 b8 : UInt8,
      qs ++ (Char.byte cls.tag :: size16Bytes cs.length) = b16 :: b8 :: q :: qs ∧
      (utf8Chars (b16.toNat * 256 + b8.toNat) (q :: (qs ++ encode cs) ++ [0])).2 = [0] := by
  obtain ⟨b16, b8, array, _, hinput, hread, ⟨_, htext, rfl⟩ | ⟨htag, _⟩⟩ := h.first
  · -- the text is the array up to its first zero byte
    obtain ⟨behind, harray⟩ := List.takeWhile_prefix (l := array) (· != (0 : UInt8))
    replace harray : q :: (qs ++ encode cs) ++ behind = array := by rw [htext]; exact harray
    have hbody : qs ++ (Char.byte (chunkHead cls cs) :: chunkBody cls encode cs)
        = b16 :: b8 :: array := by
      have e : (qs ++ (Char.byte (chunkHead cls cs) :: chunkBody cls encode cs)) ++ [0]
          = (b16 :: b8 :: array) ++ [0] := by
        simpa only [List.append_assoc, List.cons_append] using hinput
      exact List.append_cancel_right e
    have hlast : ¬ HESSIAN_CHUNK_SIZE < cs.length := by
      intro hfull
      -- the low byte 0xFF of a full chunk's length would be a byte of the text
      rw [chunkBody_full hfull, ← harray] at hbody
      have hget := congrArg (fun bs => bs[qs.length + 2]?) hbody
      have hleft : (qs ++ (Char.byte (chunkHead cls cs) :: (size16Bytes HESSIAN_CHUNK_SIZE
          ++ (encode (cs.take HESSIAN_CHUNK_SIZE) ++
            Char.byte (chunkHead cls (cs.drop HESSIAN_CHUNK_SIZE)) ::
              chunkBody cls encode (cs.drop HESSIAN_CHUNK_SIZE)))))[qs.length + 2]?
          = some 0xFF := by
        rw [List.getElem?_append_right (by omega), Nat.add_sub_cancel_left]
        rfl
      have hright : (b16 :: b8 :: (q :: (qs ++ encode cs) ++ behind))[qs.length + 2]?
          = (q :: qs)[qs.length]? := by
        have e : q :: (qs ++ encode cs) ++ behind = (q :: qs) ++ (encode cs ++ behind) := by
          simp only [List.cons_append, List.append_assoc]
        rw [List.getElem?_cons_succ, List.getElem?_cons_succ, e,
          List.getElem?_append_left (by simp)]
      simp only [hleft, hright] at hget
      have hmem : (0xFF : UInt8) ∈ q :: qs := List.mem_of_getElem? hget.symm
      have := hlow _ hmem
      revert this
      decide
    refine ⟨hlast, b16, b8, ?_⟩
    rw [chunkHead_last hlast, chunkBody_last hlast] at hbody
    -- a header more and a header less: nothing is behind the text in the array
    have hlen := congrArg List.length hbody
    rw [← harray] at hlen
    simp only [size16Bytes, List.length_append, List.length_cons, List.length_nil] at hlen
    have hnil : behind = [] := List.length_eq_zero_iff.mp (by omega)
    subst hnil
    rw [List.append_nil] at harray
    rw [← harray] at hbody hread
    refine ⟨?_, by rw [hread]⟩
    have e : (qs ++ (Char.byte cls.tag :: size16Bytes cs.length)) ++ encode cs
        = (b16 :: b8 :: q :: qs) ++ encode cs := by
      simpa only [List.append_assoc, List.cons_append] using hbody
    exact List.append_cancel_right e
  · exact absurd htag hq

/-- The reader stopped before `q :: qs` at the end of a chunk, and takes `q` for the tag of a chunk
    that is not the last. Then more than one chunk was written. -/
theorem resync_more {cls : HessianClass} {q : UInt8} {qs : Bytes} {cs : List Char}
    (hq : UInt8.int q = Char.int cls.chunkTag)
    (h : ChunksRead cls (UInt8.int q)
      (qs ++ (Char.byte (chunkHead cls cs) :: (chunkBody cls encode cs ++ [0])))
      (q :: (qs ++ encode cs)) [0]) : HESSIAN_CHUNK_SIZE < cs.length := by
  have hlen := h.length.2 hq
  by_contra hlast
  rw [chunkBody_last hlast] at hlen
  simp only [size16Bytes, List.length_append, List.length_cons, List.length_nil] at hlen
  omega

/-- A reader that left `q :: qs` of a chunk unread does not end with the text under both
    classes: they write different tags. -/
theorem no_resync (q : UInt8) (qs : Bytes) (cs : List Char) (hlow : ∀ b ∈ q :: qs, b.toNat < 0xF8)
    (h : ∀ kind : TextKind, ChunksRead kind.cls (UInt8.int q)
      (qs ++ (Char.byte (chunkHead kind.cls cs) :: (chunkBody kind.cls encode cs ++ [0])))
      (q :: (qs ++ encode cs)) [0]) : False := by
  -- one of the two chunk tags is not `q`, so a single chunk was written
  have hlast : ¬ HESSIAN_CHUNK_SIZE < cs.length := by
    by_cases hs : UInt8.int q = Char.int TextKind.string.cls.chunkTag
    · have hx : UInt8.int q ≠ Char.int TextKind.xml.cls.chunkTag := by
        rw [hs]
        decide
      exact (resync_last hlow hx (h .xml)).1
    · exact (resync_last hlow hs (h .string)).1
  have hne : ∀ kind : TextKind, UInt8.int q ≠ Char.int kind.cls.chunkTag :=
    fun kind hq => hlast (resync_more hq (h kind))
  obtain ⟨_, s16, s8, hs, hsread⟩ := resync_last hlow (hne .string) (h .string)
  obtain ⟨_, x16, x8, hx, hxread⟩ := resync_last hlow (hne .xml) (h .xml)
  -- both read the same characters, so the same length, so the same tag
  have hcount := utf8Chars_count hsread hxread (List.cons_ne_nil _ _)
  obtain ⟨rfl, rfl⟩ := size16_inj hcount
  have e := List.append_cancel_left (hs.trans hx.symm)
  have htag : Char.byte TextKind.string.cls.tag = Char.byte TextKind.xml.cls.tag :=
    (List.cons.inj e).1
  revert htag
  decide

/-- **A text read back under both classes is plain.** By recursion over its chunks: the first one
    that is not plain leaves bytes behind, and no reader finds back from there under both. -/
theorem plain_of_chunksRead (cs : List Char)
    (h : ∀ kind : TextKind, ChunksRead kind.cls (Char.int (chunkHead kind.cls cs))
      (chunkBody kind.cls encode cs ++ [0]) (encode cs) [0]) (hnul : (0 : UInt8) ∉ encode cs) :
    ∀ c ∈ cs, Plain c := by
  have hsize : ∀ n, n ≤ HESSIAN_CHUNK_SIZE →
      (UInt8.ofNat (n / 256)).toNat * 256 + (UInt8.ofNat n).toNat = n := by
    intro n hn
    unfold HESSIAN_CHUNK_SIZE at hn
    rw [UInt8.toNat_ofNat', UInt8.toNat_ofNat']
    omega
  by_cases hfull : HESSIAN_CHUNK_SIZE < cs.length
  · have htake : (cs.take HESSIAN_CHUNK_SIZE).length = HESSIAN_CHUNK_SIZE :=
      List.length_take_of_le (Nat.le_of_lt hfull)
    have hcs : encode cs = encode (cs.take HESSIAN_CHUNK_SIZE)
        ++ encode (cs.drop HESSIAN_CHUNK_SIZE) := by
      rw [← encode_append, List.take_append_drop]
    -- the first chunk, under either class
    have hfirst : ∀ kind : TextKind, ∃ (array input : Bytes) (t : UInt8) (text : Bytes),
        utf8Chars HESSIAN_CHUNK_SIZE (encode (cs.take HESSIAN_CHUNK_SIZE) ++
          (Char.byte (chunkHead kind.cls (cs.drop HESSIAN_CHUNK_SIZE)) ::
            (chunkBody kind.cls encode (cs.drop HESSIAN_CHUNK_SIZE) ++ [0])))
          = (array, t :: input) ∧
        ChunksRead kind.cls (UInt8.int t) input text [0] ∧
        encode cs = (CString.ofArray array).bytes ++ text := by
      intro kind
      have hk := h kind
      rw [chunkHead_full hfull, chunkBody_full hfull] at hk
      obtain ⟨b16, b8, array, behind, hinput, hread, ⟨hne, _⟩ | ⟨_, t, input, text, rfl, htext,
        hnext⟩⟩ := hk.first
      · exact absurd rfl hne
      · simp only [size16Bytes, List.cons_append, List.append_assoc, List.nil_append] at hinput
        obtain ⟨h16, hinput⟩ := List.cons.inj hinput
        obtain ⟨h8, hinput⟩ := List.cons.inj hinput
        rw [← h16, ← h8, hsize _ (Nat.le_refl _), ← hinput] at hread
        exact ⟨array, input, t, text, hread, hnext, htext⟩
    by_cases hplain : ∀ c ∈ cs.take HESSIAN_CHUNK_SIZE, Plain c
    · -- it is read whole: the other chunks are read as they were written
      have hrest := plain_of_chunksRead (cs.drop HESSIAN_CHUNK_SIZE) (fun kind => by
        obtain ⟨array, input, t, text, hread, hnext, htext⟩ := hfirst kind
        have hplainRead := utf8Chars_plain (cs.take HESSIAN_CHUNK_SIZE)
          (Char.byte (chunkHead kind.cls (cs.drop HESSIAN_CHUNK_SIZE)) ::
            (chunkBody kind.cls encode (cs.drop HESSIAN_CHUNK_SIZE) ++ [0])) hplain
        rw [htake, hread] at hplainRead
        obtain ⟨rfl, hbehind⟩ := Prod.mk.inj hplainRead
        obtain ⟨rfl, rfl⟩ := List.cons.inj hbehind
        rw [CString.ofArray_bytes (fun h0 => hnul (hcs ▸ List.mem_append_left _ h0)), hcs] at htext
        rw [List.append_cancel_left htext]
        have hlt : (chunkHead kind.cls (cs.drop HESSIAN_CHUNK_SIZE)).toNat < 256 := by
          unfold chunkHead
          cases kind <;> split <;> decide
        rw [int_byte hlt] at hnext
        exact hnext) (fun h0 => hnul (hcs ▸ List.mem_append_right _ h0))
      intro c hc
      rw [← List.take_append_drop HESSIAN_CHUNK_SIZE cs] at hc
      rcases List.mem_append.mp hc with hc | hc
      · exact hplain c hc
      · exact hrest c hc
    · -- it leaves bytes behind
      exfalso
      have hbad : ∃ c ∈ cs.take HESSIAN_CHUNK_SIZE, ¬ Plain c := by
        simpa only [not_forall, exists_prop] using hplain
      obtain ⟨read, left, hleft, henc, hshort⟩ := utf8Chars_short hbad
      rw [htake] at hshort
      cases left with
      | nil => exact hleft rfl
      | cons q qs =>
        refine no_resync q qs (cs.drop HESSIAN_CHUNK_SIZE) ?_ fun kind => ?_
        · intro b hb
          exact lt_of_mem_encode (henc ▸ List.mem_append_right read hb)
        · obtain ⟨array, input, t, text, hread, hnext, htext⟩ := hfirst kind
          rw [hshort, List.cons_append] at hread
          obtain ⟨rfl, hbehind⟩ := Prod.mk.inj hread
          obtain ⟨rfl, rfl⟩ := List.cons.inj hbehind
          have hreadNul : (0 : UInt8) ∉ read := fun h0 =>
            hnul (hcs ▸ List.mem_append_left _ (henc ▸ List.mem_append_left _ h0))
          rw [CString.ofArray_bytes hreadNul, hcs, henc, List.append_assoc] at htext
          rw [← List.append_cancel_left htext] at hnext
          exact hnext
  · -- a single chunk: what it leaves behind is missing in the text
    have hk := h .string
    rw [chunkHead_last hfull, chunkBody_last hfull] at hk
    obtain ⟨b16, b8, array, behind, hinput, hread, ⟨_, _, rfl⟩ | ⟨htag, _⟩⟩ := hk.first
    · simp only [size16Bytes, List.cons_append, List.nil_append] at hinput
      obtain ⟨h16, hinput⟩ := List.cons.inj hinput
      obtain ⟨h8, hinput⟩ := List.cons.inj hinput
      rw [← h16, ← h8, hsize _ (Nat.le_of_not_lt hfull), ← hinput] at hread
      by_contra hplain
      have hbad : ∃ c ∈ cs, ¬ Plain c := by simpa only [not_forall, exists_prop] using hplain
      obtain ⟨read, left, hleft, _, hshort⟩ := utf8Chars_short hbad
      rw [hshort] at hread
      have hbehind := (Prod.mk.inj hread).2
      exact hleft (List.append_cancel_right (hbehind.trans (List.nil_append _).symm))
    · exact absurd htag (by decide)
termination_by cs.length
decreasing_by
  rw [List.length_drop]
  unfold HESSIAN_CHUNK_SIZE at *
  omega

/-! ## 4. The round trip -/

theorem wire_text (kind : TextKind) {s : CString} {cs : List Char} (hs : s.bytes = encode cs)
    (hfits : s.FitsInt) : hessianSerialize (kind.object s) []
      = .done () (Char.byte (chunkHead kind.cls cs) :: chunkBody kind.cls encode cs) := by
  cases kind <;> exact writes_text _ hs hfits []

theorem fitsInt_of_object (kind : TextKind) {s : CString} {out w : Bytes}
    (h : hessianSerialize (kind.object s) out = .done () w) : s.FitsInt := by
  have hfit := countersFit_of_done h
  cases kind <;> exact hfit

theorem coded_text (kind : TextKind) {s : CString} (h : WireText s) :
    Coded (kind.object s) := by
  cases kind with
  | string => exact coded_string h
  | xml => exact coded_xml h

theorem calloc_unlimited {n : Nat} : ∀ {s : Reader}, s.mem = Mem.unlimited →
    calloc n s = .done true s
  | ⟨_, _, _⟩, rfl => rfl

/-- A text that is read was read by the loop over its chunks. -/
theorem stringDeserialize_eq_done {cls : HessianClass} {tag : CInt} {s s' : Reader} {r : CString}
    (h : hessianStringDeserialize cls tag s = .done r s') : ∃ s₁ s₂,
      s₁.input = s.input ∧ (s.mem = Mem.unlimited → s₁ = s) ∧
      stringChunks cls (s₁.input.length + 2) tag .empty s₁ = .done r s₂ ∧
      s'.input = s₂.input := by
  unfold hessianStringDeserialize at h
  split at h
  · cases h
  obtain ⟨created, s₁, hcreate, h⟩ := bind_eq_done h
  obtain ⟨hinput, hm⟩ := bufferCreate_eq_done hcreate
  split at h
  · obtain ⟨_, _, hread, h⟩ := bind_eq_done h
    cases hread
    obtain ⟨sb, s₂, hloop, h⟩ := bind_eq_done h
    obtain ⟨granted, s₃, hcalloc, h⟩ := bind_eq_done h
    cases hcalloc
    split at h
    · cases h
      exact ⟨s₁, s₂, hinput, fun h => (hm h).1, hloop, rfl⟩
    · cases h
  · cases h

/-- Reading a text, behind its tag, is reading a chunk sequence. -/
theorem chunksRead_of_string {cls : HessianClass} {tag : CInt} {s s' : Reader} {r : CString}
    (hm : s.mem = Mem.unlimited) (h : hessianStringDeserialize cls tag s = .done r s')
    (hrest : s'.input ≠ []) : ChunksRead cls tag s.input r.bytes s'.input := by
  obtain ⟨s₁, s₂, _, hsame, hloop, hinput⟩ := stringDeserialize_eq_done h
  rw [hsame hm] at hloop
  obtain ⟨text, hchunks, htext⟩ := chunksRead_of_done _ _ _ _ _ _ hm hloop (hinput ▸ hrest)
  rw [hinput, htext, CString.empty_bytes, List.nil_append]
  exact hchunks

/-- Reading a String or an Xml is reading a chunk sequence. -/
theorem chunksRead_of_deserialize (kind : TextKind) {tag : Char}
    (htag : tag = kind.cls.tag ∨ tag = kind.cls.chunkTag) {input : Bytes} {s : CString} {t : Reader}
    (h : hessianDeserialize (Reader.start (Char.byte tag :: input) Mem.unlimited)
      = .done (kind.object s) t) (hrest : t.input ≠ []) :
    ChunksRead kind.cls (Char.int tag) input s.bytes t.input := by
  have hlt : tag.toNat < 256 := by
    rcases htag with rfl | rfl <;> cases kind <;> decide
  have hcls : getclass (gettype (Char.int tag)) = some kind.cls := by
    rcases htag with rfl | rfl <;> cases kind <;> decide
  have has : ∀ el pl, deserializeAs el pl kind.cls (Char.int tag)
      = (hessianStringDeserialize kind.cls (Char.int tag) >>= fun s => pure (kind.object s)) := by
    intro el pl
    cases kind <;> rfl
  have hobject_inj : ∀ sb, (kind.object sb).resolved = kind.object s → sb = s := by
    intro sb e
    cases kind <;> cases e <;> rfl
  unfold hessianDeserialize at h
  have hgetc : bufferGetc (Reader.start (Char.byte tag :: input) Mem.unlimited)
      = .done (Char.int tag) (Reader.start input Mem.unlimited) := by
    rw [← int_byte hlt]
    rfl
  rw [bind_done hgetc] at h
  obtain ⟨s₂, _, hs, h⟩ := bind_eq_done h
  cases hs
  obtain ⟨object, s₃, hobject, h⟩ := bind_eq_done h
  unfold hessianDeserializeTag at hobject
  rw [hcls] at hobject
  dsimp only at hobject
  rw [bind_done (calloc_unlimited rfl), if_pos rfl, has] at hobject
  obtain ⟨sb, s₄, hstring, hobject⟩ := bind_eq_done hobject
  cases hobject
  rw [pure_apply] at h
  injection h with hr ht
  subst ht
  rw [← hobject_inj sb hr]
  exact chunksRead_of_string rfl hstring hrest

/-- **A text is read back, under both classes and before any bytes, exactly if it has fewer than 2^31
    bytes and no character in U+0400 to U+07FF.** -/
theorem text_round_trip_iff (s : CString) (cs : List Char) (hs : s.bytes = encode cs) :
    (∀ kind rest, RoundTrips kind s rest) ↔
      s.FitsInt ∧ ∀ c ∈ cs, ¬ (0x400 ≤ c.toNat ∧ c.toNat < 0x800) := by
  constructor
  · intro h
    obtain ⟨_, hdone, _⟩ := h .string []
    have hfits := fitsInt_of_object .string hdone
    refine ⟨hfits, plain_of_chunksRead cs (fun kind => ?_) (hs ▸ s.nulFree)⟩
    obtain ⟨w, hw, o, t, hrun, rfl, hrest⟩ := h kind [0]
    rw [wire_text kind hs hfits] at hw
    cases hw
    have hread := chunksRead_of_deserialize kind (by unfold chunkHead; split <;> simp) hrun
      (by rw [hrest]; exact List.cons_ne_nil _ _)
    rw [hrest, hs] at hread
    exact hread
  · intro h kind rest
    obtain ⟨hfits, hplain⟩ := h
    have hc := coded_text kind (s := s) ⟨⟨cs, hs, hplain⟩, hfits⟩
    have hfree : (kind.object s).RefFree := by cases kind <;> trivial
    refine ⟨wire (kind.object s), hc.writes [], ?_⟩
    refine (reads_hessianDeserialize hc hfree _ rest (ample_start_unlimited _) rfl).mono ?_
    intro o t h
    obtain ⟨ho, hrest, _⟩ := h
    exact ⟨ho, hrest⟩

/-- One letter of two bytes, U+00E9, as an Xml. -/
theorem text_round_trip_e_acute :
    RoundTrips .xml ⟨[0xC3, 0xA9], by decide⟩ [0x4E] :=
  (text_round_trip_iff ⟨[0xC3, 0xA9], by decide⟩ ['é'] (by decide)).mpr
    ⟨by decide, List.forall_mem_singleton.mpr (by decide)⟩ .xml [0x4E]

/-- The one letter U+0420, of the bytes `0xD0 0xA0`: the second byte is left unread. -/
theorem text_round_trip_cyrillic :
    ([0xD0, 0xA0] : Bytes) = encode ['Р'] ∧ ¬ RoundTrips .string ⟨[0xD0, 0xA0], by decide⟩ [] := by
  refine ⟨by decide, ?_⟩
  intro h
  obtain ⟨w, hw, o, t, hrun, rfl, _⟩ := h
  have hwire : w = [0x53, 0x00, 0x01, 0xD0, 0xA0] := by
    cases hw
    rfl
  subst hwire
  have hread : ∃ t', hessianDeserialize (Reader.start [0x53, 0x00, 0x01, 0xD0, 0xA0] Mem.unlimited)
      = .done (.string ⟨[0xD0], by decide⟩) t' := ⟨_, rfl⟩
  obtain ⟨t', hread⟩ := hread
  rw [List.append_nil, hread] at hrun
  cases hrun

end ArgusPep
