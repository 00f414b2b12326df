/-
  File:      ArgusPep/Hessian/Headers.lean
  Subject:   The two-byte lengths `hessian_serialize` writes in front of texts and binaries.

  Strings, xml and binaries are cut into chunks that fit the field. The type of a list, a map or a
  remote and the url of a remote are written in one piece, and `b16= utf8_l >> 8` is cut to eight
  bits by `buffer_putc`.

  * `Piece` -- where a tag, a length and a payload stand in the output;
  * `hessianSerializeFramed` -- the serializers with a note of their pieces;
    `lifts_hessianSerializeFramed` says that they are the serializers;
  * `Truthful` -- the length of a piece is that of its payload;
  * `Frames` -- when the pieces a run writes are truthful, with one rule a construct;
  * `writes_wellFormed` -- a tree whose counters fit is written;
  * **`headers_truthful_iff`** -- the lengths in an output are truthful exactly when every type and
    url of the tree fits its field, and an `int` counts its texts and containers.
-/
import ArgusPep.Hessian.Wire

namespace ArgusPep

open Lib Run Utf8

/-! ## 1. The serializers with their pieces -/

/-- Where a tag, the length behind it and the payload behind that start and end. -/
structure Piece where
  start : Nat
  stop : Nat

/-- A serializer that notes its pieces. -/
abbrev Framed (α : Type) := Run (Bytes × List Piece) α

/-- A part that writes a piece. -/
def piece {α : Type} (m : Writer α) : Framed α := fun s =>
  match m s.1 with
  | .done a out => .done a (out, s.2 ++ [⟨s.1.length, out.length⟩])
  | .failed out => .failed (out, s.2)
  | .fault out => .fault (out, s.2)
  | .stuck => .stuck

/-- `textChunks`. -/
def textChunksFramed (cls : HessianClass) (array : Bytes) :
    (fuel utf8L pos : Nat) → Framed (Nat × Nat)
  | 0, _, _ => outOfFuel
  | fuel + 1, utf8L, pos =>
    if utf8L > HESSIAN_CHUNK_SIZE then do
      let stop ← piece do
        bufferPutc (Char.int cls.chunkTag)
        putSize16 HESSIAN_CHUNK_SIZE
        let stop ← chunkEnd array (array.length + 1) 0 pos
        bufferWriteAt array pos (stop - pos)
        pure stop
      textChunksFramed cls array fuel (utf8L - HESSIAN_CHUNK_SIZE) stop
    else pure (utf8L, pos)

/-- `hessianStringSerialize`. -/
def hessianStringFramed (cls : HessianClass) (self : CString) : Framed Unit := do
  let array := self.bytes ++ [0]
  let strL := self.bytes.length
  let utf8L ← utf8Strlen self.bytes
  let left ← textChunksFramed cls array (utf8L + 1) utf8L 0
  piece do
    bufferPutc (Char.int cls.tag)
    putSize16 left.1
    if left.2 ≤ strL then bufferWriteAt array left.2 (strL - left.2) else undefined

/-- `binaryChunks`. -/
def binaryChunksFramed (cls : HessianClass) (data : Bytes) :
    (fuel byteL pos : Nat) → Framed (Nat × Nat)
  | 0, _, _ => outOfFuel
  | fuel + 1, byteL, pos =>
    if byteL > HESSIAN_CHUNK_SIZE then do
      piece do
        bufferPutc (Char.int cls.chunkTag)
        putSize16 HESSIAN_CHUNK_SIZE
        bufferWriteAt data pos HESSIAN_CHUNK_SIZE
      binaryChunksFramed cls data fuel (byteL - HESSIAN_CHUNK_SIZE) (pos + HESSIAN_CHUNK_SIZE)
    else pure (byteL, pos)

/-- `hessianBinarySerialize`. -/
def hessianBinaryFramed (cls : HessianClass) (data : Bytes) : Framed Unit := do
  let left ← binaryChunksFramed cls data (data.length + 1) data.length 0
  piece do
    bufferPutc (Char.int cls.tag)
    putSize16 left.1
    bufferWriteAt data left.2 left.1

/-- `hessianRemoteSerialize`. -/
def hessianRemoteFramed (cls : HessianClass) : (type url : Option CString) → Framed Unit
  | some type, some url => do
    onFst (bufferPutc (Char.int cls.tag))
    piece (putText 't' type)
    piece (putText 'S' url)
  | _, _ => undefined

/-- `putType`. -/
def putTypeFramed : Option CString → Framed Unit
  | some type => piece (putText 't' type)
  | none => pure ()

mutual
/-- `hessianSerialize`. -/
def hessianSerializeFramed (object : HessianObject) : Framed Unit :=
  match getclass (hessianGettype object) with
  | none => fail
  | some cls =>
    match object with
    | .null => onFst (hessianNullSerialize cls)
    | .boolean value => onFst (hessianBooleanSerialize cls value)
    | .integer value => onFst (hessianIntegerSerialize cls value)
    | .ref value => onFst (hessianIntegerSerialize cls value)
    | .long value => onFst (hessianLongSerialize cls value)
    | .date value => onFst (hessianLongSerialize cls value)
    | .double value => onFst (hessianLongSerialize cls value)
    | .string s => hessianStringFramed cls s
    | .xml s => hessianStringFramed cls s
    | .binary data => hessianBinaryFramed cls data
    | .remote type url => hessianRemoteFramed cls type url
    | .list type elements => do
      onFst (bufferPutc (Char.int cls.tag))
      putTypeFramed type
      onFst (putLength elements.length)
      serializeElementsFramed elements 0
      onFst (bufferPutc (Char.int cls.chunkTag))
    | .map type pairs => do
      onFst (bufferPutc (Char.int cls.tag))
      putTypeFramed type
      serializePairsFramed pairs 0
      onFst (bufferPutc (Char.int cls.chunkTag))

/-- `serializeElements`. -/
def serializeElementsFramed : List HessianObject → (i : Nat) → Framed Unit
  | [], _ => pure ()
  | object :: rest, i => do
    hessianSerializeFramed object
    let i ← next INT_MAX i
    serializeElementsFramed rest i

/-- `serializePairs`. -/
def serializePairsFramed : List (HessianObject × HessianObject) → (i : Nat) → Framed Unit
  | [], _ => pure ()
  | (key, value) :: rest, i => do
    hessianSerializeFramed key
    hessianSerializeFramed value
    let i ← next INT_MAX i
    serializePairsFramed rest i
end

/-! ## 2. On the output nothing has changed -/

theorem lifts_piece {α : Type} (m : Writer α) : Lifts Prod.fst (piece m) m := by
  intro s
  unfold piece
  cases m s.1 <;> rfl

theorem lifts_countUtf8 : ∀ (s : Bytes) (i j : Nat),
    Lifts Prod.fst (countUtf8 s i j : Framed Nat) (countUtf8 s i j)
  | [], _, j => Lifts.pure j
  | _ :: bs, _, _ => Lifts.next.bind fun i => lifts_countUtf8 bs i _

theorem lifts_textChunksFramed (cls : HessianClass) (array : Bytes) : ∀ fuel utf8L pos : Nat,
    Lifts Prod.fst (textChunksFramed cls array fuel utf8L pos)
      (textChunks cls array fuel utf8L pos) := by
  intro fuel
  induction fuel with
  | zero => exact fun _ _ => Lifts.outOfFuel
  | succ fuel ih =>
    intro utf8L pos
    by_cases h : utf8L > HESSIAN_CHUNK_SIZE
    · rw [textChunks_full cls array h, textChunksFramed, if_pos h]
      exact (lifts_piece _).bind fun stop => ih _ _
    · rw [textChunks, textChunksFramed, if_neg h, if_neg h]
      exact Lifts.pure _

theorem lifts_hessianStringFramed (cls : HessianClass) (self : CString) :
    Lifts Prod.fst (hessianStringFramed cls self) (hessianStringSerialize cls self) :=
  (lifts_countUtf8 _ _ _).bind fun _ =>
    (lifts_textChunksFramed cls _ _ _ _).bind fun _ => lifts_piece _

theorem lifts_binaryChunksFramed (cls : HessianClass) (data : Bytes) : ∀ fuel byteL pos : Nat,
    Lifts Prod.fst (binaryChunksFramed cls data fuel byteL pos)
      (binaryChunks cls data fuel byteL pos) := by
  intro fuel
  induction fuel with
  | zero => exact fun _ _ => Lifts.outOfFuel
  | succ fuel ih =>
    intro byteL pos
    by_cases h : byteL > HESSIAN_CHUNK_SIZE
    · rw [binaryChunks_full cls data h, binaryChunksFramed, if_pos h]
      exact (lifts_piece _).bind fun _ => ih _ _
    · rw [binaryChunks, binaryChunksFramed, if_neg h, if_neg h]
      exact Lifts.pure _

theorem lifts_hessianBinaryFramed (cls : HessianClass) (data : Bytes) :
    Lifts Prod.fst (hessianBinaryFramed cls data) (hessianBinarySerialize cls data) :=
  (lifts_binaryChunksFramed cls _ _ _ _).bind fun _ => lifts_piece _

theorem lifts_hessianRemoteFramed (cls : HessianClass) : ∀ type url : Option CString,
    Lifts Prod.fst (hessianRemoteFramed cls type url) (hessianRemoteSerialize cls type url)
  | some _, some _ =>
    (lifts_onFst _).bind fun _ => (lifts_piece _).bind fun _ => lifts_piece _
  | some _, none => Lifts.undefined
  | none, some _ => Lifts.undefined
  | none, none => Lifts.undefined

theorem lifts_putTypeFramed : ∀ type : Option CString,
    Lifts Prod.fst (putTypeFramed type) (putType type)
  | some type => lifts_piece (putText 't' type)
  | none => Lifts.pure ()

mutual
/-- **The notes change nothing.** -/
theorem lifts_hessianSerializeFramed : ∀ object : HessianObject,
    Lifts Prod.fst (hessianSerializeFramed object) (hessianSerialize object)
  | .null => by
    rw [hessianSerializeFramed, hessianSerialize]
    exact lifts_onFst _
  | .boolean _ => by
    rw [hessianSerializeFramed, hessianSerialize]
    exact lifts_onFst _
  | .integer _ => by
    rw [hessianSerializeFramed, hessianSerialize]
    exact lifts_onFst _
  | .ref _ => by
    rw [hessianSerializeFramed, hessianSerialize]
    exact lifts_onFst _
  | .long _ => by
    rw [hessianSerializeFramed, hessianSerialize]
    exact lifts_onFst _
  | .date _ => by
    rw [hessianSerializeFramed, hessianSerialize]
    exact lifts_onFst _
  | .double _ => by
    rw [hessianSerializeFramed, hessianSerialize]
    exact lifts_onFst _
  | .string _ => by
    rw [hessianSerializeFramed, hessianSerialize]
    exact lifts_hessianStringFramed _ _
  | .xml _ => by
    rw [hessianSerializeFramed, hessianSerialize]
    exact lifts_hessianStringFramed _ _
  | .binary _ => by
    rw [hessianSerializeFramed, hessianSerialize]
    exact lifts_hessianBinaryFramed _ _
  | .remote _ _ => by
    rw [hessianSerializeFramed, hessianSerialize]
    exact lifts_hessianRemoteFramed _ _ _
  | .list type elements => by
    rw [hessianSerializeFramed, hessianSerialize]
    refine (lifts_onFst _).bind fun _ => (lifts_putTypeFramed type).bind fun _ => ?_
    exact (lifts_onFst _).bind fun _ =>
      (lifts_serializeElementsFramed elements 0).bind fun _ => lifts_onFst _
  | .map type pairs => by
    rw [hessianSerializeFramed, hessianSerialize]
    refine (lifts_onFst _).bind fun _ => (lifts_putTypeFramed type).bind fun _ => ?_
    exact (lifts_serializePairsFramed pairs 0).bind fun _ => lifts_onFst _

theorem lifts_serializeElementsFramed : ∀ (elements : List HessianObject) (i : Nat),
    Lifts Prod.fst (serializeElementsFramed elements i) (serializeElements elements i)
  | [], _ => by
    rw [serializeElementsFramed, serializeElements]
    exact Lifts.pure _
  | object :: rest, _ => by
    rw [serializeElementsFramed, serializeElements]
    exact (lifts_hessianSerializeFramed object).bind fun _ =>
      Lifts.next.bind fun i => lifts_serializeElementsFramed rest i

theorem lifts_serializePairsFramed : ∀ (pairs : List (HessianObject × HessianObject)) (i : Nat),
    Lifts Prod.fst (serializePairsFramed pairs i) (serializePairs pairs i)
  | [], _ => by
    rw [serializePairsFramed, serializePairs]
    exact Lifts.pure _
  | (key, value) :: rest, _ => by
    rw [serializePairsFramed, serializePairs]
    exact (lifts_hessianSerializeFramed key).bind fun _ =>
      (lifts_hessianSerializeFramed value).bind fun _ =>
        Lifts.next.bind fun i => lifts_serializePairsFramed rest i
end

/-! ## 3. Truthful pieces -/

/-- The payload has `n` characters, or, behind the tag of a binary, `n` bytes. -/
def HasUnits (tag : UInt8) (payload : Bytes) (n : Nat) : Prop :=
  if tag = Char.byte 'b' ∨ tag = Char.byte 'B' then payload.length = n
  else ∃ cs, payload = encode cs ∧ cs.length = n

/-- The two bytes behind the tag are the length of the payload behind them. -/
def Truthful (output : Bytes) (p : Piece) : Prop :=
  ∃ tag b16 b8 payload, (output.drop p.start).take (p.stop - p.start) = tag :: b16 :: b8 :: payload ∧
    HasUnits tag payload (b16.toNat * 256 + b8.toNat)

/-- What is written behind a piece does not change it. -/
theorem truthful_append {output : Bytes} {p : Piece} (h : p.stop ≤ output.length) (more : Bytes) :
    Truthful (output ++ more) p ↔ Truthful output p := by
  have hslice : ((output ++ more).drop p.start).take (p.stop - p.start) =
      (output.drop p.start).take (p.stop - p.start) := by
    rw [List.drop_append, List.take_append_of_le_length]
    rw [List.length_drop]
    omega
  unfold Truthful
  rw [hslice]

/-- A run that returns appends bytes and pieces, and the pieces are truthful exactly when `P`; of its
    value `Q` holds. -/
def Frames {α : Type} (m : Framed α) (P : Prop) (Q : α → Prop) : Prop :=
  ∀ s a t, m s = .done a t → ∃ bytes pieces, t = (s.1 ++ bytes, s.2 ++ pieces) ∧
    (∀ p ∈ pieces, p.stop ≤ t.1.length) ∧ ((∀ p ∈ pieces, Truthful t.1 p) ↔ P) ∧ Q a

namespace Frames

variable {α β : Type} {P P' : Prop} {Q : α → Prop} {Q' : β → Prop}

theorem pure {a : α} (h : Q a) : Frames (Pure.pure a) True Q := by
  intro s b t hrun
  cases hrun
  refine ⟨[], [], ?_, nofun, iff_of_true nofun trivial, h⟩
  rw [List.append_nil, List.append_nil]

theorem undefined : Frames (Run.undefined : Framed α) P Q := fun _ _ _ h => nomatch h

theorem outOfFuel : Frames (Run.outOfFuel : Framed α) P Q := fun _ _ _ h => nomatch h

theorem next {max i : Nat} : Frames (Run.next max i) True fun _ => True := by
  unfold Run.next
  split
  · exact pure trivial
  · exact undefined

theorem congr {m : Framed α} (h : Frames m P Q) (hP : P ↔ P') : Frames m P' Q := by
  rwa [← propext hP]

theorem bind {m : Framed α} {f : α → Framed β} (hm : Frames m P Q)
    (hf : ∀ a, Q a → Frames (f a) P' Q') : Frames (m >>= f) (P ∧ P') Q' := by
  intro s b u hrun
  obtain ⟨a, t, hfirst, hsecond⟩ := bind_eq_done hrun
  obtain ⟨bs, ps, rfl, hstop, htrue, ha⟩ := hm s a t hfirst
  obtain ⟨cs, qs, rfl, hstop', htrue', hb⟩ := hf a ha _ b u hsecond
  refine ⟨bs ++ cs, ps ++ qs, ?_, ?_, ?_, hb⟩
  · rw [List.append_assoc, List.append_assoc]
  · intro p hp
    rcases List.mem_append.mp hp with hp | hp
    · have := hstop p hp
      simp only [List.length_append] at this ⊢
      omega
    · exact hstop' p hp
  · rw [List.forall_mem_append, htrue']
    exact and_congr_left fun _ => (forall₂_congr fun p hp =>
      truthful_append (hstop p hp) cs).trans htrue

theorem mono {m : Framed α} {R : α → Prop} (h : Frames m P Q) (hR : ∀ a, Q a → R a) :
    Frames m P R := by
  intro s a t hrun
  obtain ⟨bytes, pieces, ht, hstop, htrue, ha⟩ := h s a t hrun
  exact ⟨bytes, pieces, ht, hstop, htrue, hR a ha⟩

/-- A part without a length. -/
theorem onFst {m : Writer Unit} {w : Bytes} (h : Writes m w) :
    Frames (Run.onFst m) True fun _ => True := by
  intro s a t hrun
  unfold Run.onFst at hrun
  rw [h s.1] at hrun
  cases hrun
  refine ⟨w, [], ?_, nofun, iff_of_true nofun trivial, trivial⟩
  rw [List.append_nil]

/-- A piece with the length `l`. -/
theorem piece {m : Writer α} {a : α} {tag : UInt8} {l : Nat} {payload : Bytes}
    (h : ∀ out, m out = .done a (out ++ tag :: (size16Bytes l ++ payload))) :
    Frames (ArgusPep.piece m) (HasUnits tag payload (l % 65536)) (· = a) := by
  intro s b t hrun
  unfold ArgusPep.piece at hrun
  rw [h s.1] at hrun
  cases hrun
  have hslice : ((s.1 ++ tag :: (size16Bytes l ++ payload)).drop s.1.length).take
      ((s.1 ++ tag :: (size16Bytes l ++ payload)).length - s.1.length) =
      tag :: UInt8.ofNat (l / 256) :: UInt8.ofNat l :: payload := by
    rw [List.drop_left, List.length_append, Nat.add_sub_cancel_left, List.take_length]
    rfl
  have hsize : (UInt8.ofNat (l / 256)).toNat * 256 + (UInt8.ofNat l).toNat = l % 65536 := by
    rw [UInt8.toNat_ofNat', UInt8.toNat_ofNat']
    omega
  refine ⟨_, _, rfl, ?_, ?_, rfl⟩
  · rw [List.forall_mem_singleton]
  · rw [List.forall_mem_singleton]
    unfold Truthful
    dsimp only
    rw [hslice]
    constructor
    · intro htrue
      obtain ⟨tag', b16, b8, payload', heq, hunits⟩ := htrue
      cases heq
      rwa [hsize] at hunits
    · intro hunits
      exact ⟨_, _, _, _, rfl, by rwa [hsize]⟩

end Frames

/-! ## 4. Strings, binaries and types -/

/-- A text is well-formed UTF-8. -/
def IsText (text : CString) : Prop := ∃ cs, text.bytes = encode cs

/-- The tags of a class do not announce a binary. -/
def TextTags (cls : HessianClass) : Prop :=
  ∀ tag ∈ [cls.tag, cls.chunkTag], Char.byte tag ≠ Char.byte 'b' ∧ Char.byte tag ≠ Char.byte 'B'

instance (cls : HessianClass) : Decidable (TextTags cls) :=
  List.decidableBAll (fun tag => Char.byte tag ≠ Char.byte 'b' ∧ Char.byte tag ≠ Char.byte 'B') _

theorem hasUnits_text {tag : Char}
    (htag : Char.byte tag ≠ Char.byte 'b' ∧ Char.byte tag ≠ Char.byte 'B') {cs : List Char} {n : Nat} :
    HasUnits (Char.byte tag) (encode cs) n ↔ cs.length = n := by
  unfold HasUnits
  rw [if_neg (not_or.mpr htag)]
  constructor
  · intro h
    obtain ⟨cs', hsame, hlen⟩ := h
    rw [← leads_encode, hsame, leads_encode, hlen]
  · exact fun h => ⟨cs, rfl, h⟩

theorem small_mod {n : Nat} (h : n ≤ HESSIAN_CHUNK_SIZE) : n = n % 65536 := by
  unfold HESSIAN_CHUNK_SIZE at h
  omega

theorem frames_textChunks {cls : HessianClass} (hcls : TextTags cls) (array : Bytes) :
    ∀ (fuel : Nat) (pre : Bytes) (cs : List Char), array = pre ++ (encode cs ++ [0]) →
      Frames (textChunksFramed cls array fuel cs.length pre.length) True fun left =>
        ∃ pre' last, array = pre' ++ (encode last ++ [0]) ∧ last.length ≤ HESSIAN_CHUNK_SIZE ∧
          left = (last.length, pre'.length)
  | 0, _, _, _ => Frames.outOfFuel
  | fuel + 1, pre, cs, harray => by
    by_cases h : cs.length > HESSIAN_CHUNK_SIZE
    · have htake : (cs.take HESSIAN_CHUNK_SIZE).length = HESSIAN_CHUNK_SIZE :=
        List.length_take_of_le (Nat.le_of_lt h)
      have harray' : array = pre ++ (encode (cs.take HESSIAN_CHUNK_SIZE)
          ++ (encode (cs.drop HESSIAN_CHUNK_SIZE) ++ [0])) := by
        rw [harray, ← List.append_assoc (encode _), ← encode_append, List.take_append_drop]
      have hchunk := Frames.piece (fullChunk_run cls htake harray')
      have hunits := (hasUnits_text (hcls cls.chunkTag (by simp))).mpr
        (htake.trans (small_mod (Nat.le_refl _)))
      rw [textChunksFramed, if_pos h]
      refine ((hchunk.congr (iff_true_intro hunits)).bind fun stop hstop => ?_).congr
        (and_self_iff)
      rw [hstop, ← List.length_drop]
      exact frames_textChunks hcls array fuel _ _ (by rw [harray', List.append_assoc])
    · rw [textChunksFramed, if_neg h]
      exact Frames.pure ⟨pre, cs, harray, Nat.le_of_not_lt h, rfl⟩

/-- **The chunks of a string are truthful.** -/
theorem frames_string {cls : HessianClass} (hcls : TextTags cls) {text : CString}
    (htext : IsText text) : Frames (hessianStringFramed cls text) True fun _ => True := by
  obtain ⟨cs, hcs⟩ := htext
  unfold hessianStringFramed
  by_cases hfits : text.FitsInt
  case neg =>
    rw [utf8Strlen_long hfits]
    exact Frames.undefined
  rw [utf8Strlen_fits hfits, pure_bind, hcs, leads_encode, ← hcs]
  refine ((frames_textChunks hcls (text.bytes ++ [0]) (cs.length + 1) [] cs
    (by rw [hcs, List.nil_append])).bind fun left hleft => ?_).congr (and_self_iff)
  obtain ⟨pre, last, harray, hlen, rfl⟩ := hleft
  have hunits := (hasUnits_text (hcls cls.tag (by simp))).mpr (small_mod hlen)
  exact ((Frames.piece (lastChunk_run cls harray)).congr (iff_true_intro hunits)).mono
    fun _ _ => trivial

theorem hasUnits_binary {tag : Char}
    (htag : Char.byte tag = Char.byte 'b' ∨ Char.byte tag = Char.byte 'B') {payload : Bytes}
    {n : Nat} : HasUnits (Char.byte tag) payload n ↔ payload.length = n := by
  unfold HasUnits
  rw [if_pos htag]

theorem frames_binaryChunks (data : Bytes) :
    ∀ (fuel : Nat) (pre bs : Bytes), data = pre ++ bs →
      Frames (binaryChunksFramed hessianBinaryClass data fuel bs.length pre.length) True fun left =>
        ∃ pre' last, data = pre' ++ last ∧ last.length ≤ HESSIAN_CHUNK_SIZE ∧
          left = (last.length, pre'.length)
  | 0, _, _, _ => Frames.outOfFuel
  | fuel + 1, pre, bs, hdata => by
    by_cases h : bs.length > HESSIAN_CHUNK_SIZE
    · have htake : (bs.take HESSIAN_CHUNK_SIZE).length = HESSIAN_CHUNK_SIZE :=
        List.length_take_of_le (Nat.le_of_lt h)
      have hdata' : data = pre ++ (bs.take HESSIAN_CHUNK_SIZE ++ bs.drop HESSIAN_CHUNK_SIZE) := by
        rw [hdata, List.take_append_drop]
      have hchunk := Frames.piece (fullBinary_run hessianBinaryClass htake hdata')
      have hunits : HasUnits (Char.byte hessianBinaryClass.chunkTag) _ _ :=
        (hasUnits_binary (.inl rfl)).mpr (htake.trans (small_mod (Nat.le_refl _)))
      have hpre : pre.length + HESSIAN_CHUNK_SIZE = (pre ++ bs.take HESSIAN_CHUNK_SIZE).length := by
        rw [List.length_append, htake]
      rw [binaryChunksFramed, if_pos h]
      refine ((hchunk.congr (iff_true_intro hunits)).bind fun _ _ => ?_).congr (and_self_iff)
      rw [hpre, ← List.length_drop]
      exact frames_binaryChunks data fuel _ _ (by rw [hdata', List.append_assoc])
    · rw [binaryChunksFramed, if_neg h]
      exact Frames.pure ⟨pre, bs, hdata, Nat.le_of_not_lt h, rfl⟩

/-- **The chunks of a binary are truthful.** -/
theorem frames_binary (data : Bytes) :
    Frames (hessianBinaryFramed hessianBinaryClass data) True fun _ => True := by
  refine ((frames_binaryChunks data (data.length + 1) [] data rfl).bind fun left hleft => ?_).congr
    (and_self_iff)
  obtain ⟨pre, last, hdata, hlen, rfl⟩ := hleft
  have hunits : HasUnits (Char.byte hessianBinaryClass.tag) _ _ :=
    (hasUnits_binary (.inr rfl)).mpr (small_mod hlen)
  subst hdata
  exact ((Frames.piece (lastBinary_run hessianBinaryClass pre last)).congr
    (iff_true_intro hunits)).mono fun _ _ => trivial

/-- The text has at most 65535 characters. -/
def FitsField (text : CString) : Prop := leads text.bytes < 65536

instance (text : CString) : Decidable (FitsField text) := inferInstanceAs (Decidable (_ < _))

/-- **A type or an url is truthful exactly when it fits.** -/
theorem frames_textField {tag : Char}
    (htag : Char.byte tag ≠ Char.byte 'b' ∧ Char.byte tag ≠ Char.byte 'B') {text : CString}
    (htext : IsText text) : Frames (piece (putText tag text)) (FitsField text) fun _ => True := by
  obtain ⟨cs, hcs⟩ := htext
  by_cases hfits : text.FitsInt
  case neg =>
    intro s a t hrun
    unfold piece putText at hrun
    rw [utf8Strlen_long hfits] at hrun
    cases hrun
  have hrun : ∀ out, putText tag text out =
      .done () (out ++ Char.byte tag :: (size16Bytes cs.length ++ encode cs)) := by
    intro out
    rw [writes_textField tag hfits out]
    unfold textField
    rw [hcs, leads_encode]
  refine ((Frames.piece hrun).congr ?_).mono fun _ _ => trivial
  rw [hasUnits_text htag]
  unfold FitsField
  rw [hcs, leads_encode]
  omega

/-! ## 5. Whole trees -/

namespace HessianObject

mutual
/-- Every text of the tree is well-formed UTF-8, and a Remote has both its texts: its constructor
    takes no other. -/
def WellFormed : HessianObject → Prop
  | .string s => IsText s
  | .xml s => IsText s
  | .remote type url => (∃ t ∈ type, IsText t) ∧ ∃ u ∈ url, IsText u
  | .list type elements => (∀ t ∈ type, IsText t) ∧ WellFormedElements elements
  | .map type pairs => (∀ t ∈ type, IsText t) ∧ WellFormedPairs pairs
  | _ => True

def WellFormedElements : List HessianObject → Prop
  | [] => True
  | object :: rest => object.WellFormed ∧ WellFormedElements rest

def WellFormedPairs : List (HessianObject × HessianObject) → Prop
  | [] => True
  | (key, value) :: rest => key.WellFormed ∧ value.WellFormed ∧ WellFormedPairs rest
end

mutual
/-- Every type and url of the tree has at most 65535 characters. -/
def FieldsFit : HessianObject → Prop
  | .remote type url => (∀ t ∈ type, FitsField t) ∧ ∀ u ∈ url, FitsField u
  | .list type elements => (∀ t ∈ type, FitsField t) ∧ FieldsFitElements elements
  | .map type pairs => (∀ t ∈ type, FitsField t) ∧ FieldsFitPairs pairs
  | _ => True

def FieldsFitElements : List HessianObject → Prop
  | [] => True
  | object :: rest => object.FieldsFit ∧ FieldsFitElements rest

def FieldsFitPairs : List (HessianObject × HessianObject) → Prop
  | [] => True
  | (key, value) :: rest => key.FieldsFit ∧ value.FieldsFit ∧ FieldsFitPairs rest
end

end HessianObject

open HessianObject

theorem frames_type : ∀ {type : Option CString}, (∀ t ∈ type, IsText t) →
    Frames (putTypeFramed type) (∀ t ∈ type, FitsField t) fun _ => True
  | some t, h => (frames_textField (by decide) (h t rfl)).congr
      ⟨fun ht _ he => Option.some.inj he ▸ ht, fun hall => hall t rfl⟩
  | none, _ => (Frames.pure trivial).congr (iff_of_true trivial nofun)

theorem frames_remote {t u : CString} (ht : IsText t) (hu : IsText u) :
    Frames (hessianRemoteFramed hessianRemoteClass (some t) (some u))
      ((∀ t' ∈ some t, FitsField t') ∧ ∀ u' ∈ some u, FitsField u') fun _ => True := by
  refine ((Frames.onFst (writes_putc _)).bind fun _ _ =>
    (frames_textField (by decide) ht).bind fun _ _ => frames_textField (by decide) hu).congr ?_
  rw [true_and]
  exact and_congr ⟨fun ht _ he => Option.some.inj he ▸ ht, fun hall => hall t rfl⟩
    ⟨fun hu _ he => Option.some.inj he ▸ hu, fun hall => hall u rfl⟩

mutual
/-- **The pieces of a tree are truthful exactly when its fields fit.** -/
theorem frames_hessianSerialize : ∀ {object : HessianObject}, object.WellFormed →
    Frames (hessianSerializeFramed object) object.FieldsFit fun _ => True
  | .null, _ => by
    rw [hessianSerializeFramed]
    exact Frames.onFst (writes_putc _)
  | .boolean _, _ => by
    rw [hessianSerializeFramed]
    exact Frames.onFst (writes_putc _)
  | .integer v, _ => by
    rw [hessianSerializeFramed]
    exact Frames.onFst (writes_integer hessianIntegerClass v)
  | .ref v, _ => by
    rw [hessianSerializeFramed]
    exact Frames.onFst (writes_integer hessianRefClass v)
  | .long v, _ => by
    rw [hessianSerializeFramed]
    exact Frames.onFst (writes_long hessianLongClass v)
  | .date v, _ => by
    rw [hessianSerializeFramed]
    exact Frames.onFst (writes_long hessianDateClass v)
  | .double v, _ => by
    rw [hessianSerializeFramed]
    exact Frames.onFst (writes_long hessianDoubleClass v)
  | .string _, h => by
    rw [hessianSerializeFramed]
    exact frames_string (by decide) h
  | .xml _, h => by
    rw [hessianSerializeFramed]
    exact frames_string (by decide) h
  | .binary data, _ => by
    rw [hessianSerializeFramed]
    exact frames_binary data
  | .remote _ _, ⟨⟨_, htype, ht⟩, _, hurl, hu⟩ => by
    rw [hessianSerializeFramed, htype, hurl]
    exact frames_remote ht hu
  | .list type elements, h => by
    rw [hessianSerializeFramed]
    refine ((Frames.onFst (writes_putc _)).bind fun _ _ => (frames_type h.1).bind fun _ _ =>
      (Frames.onFst (writes_length elements.length)).bind fun _ _ =>
      (frames_serializeElements h.2).bind fun _ _ => Frames.onFst (writes_putc _)).congr ?_
    rw [true_and, true_and, and_true]
    exact Iff.rfl
  | .map type pairs, h => by
    rw [hessianSerializeFramed]
    refine ((Frames.onFst (writes_putc _)).bind fun _ _ => (frames_type h.1).bind fun _ _ =>
      (frames_serializePairs h.2).bind fun _ _ => Frames.onFst (writes_putc _)).congr ?_
    rw [true_and, and_true]
    exact Iff.rfl

theorem frames_serializeElements : ∀ {elements : List HessianObject} {i : Nat},
    WellFormedElements elements →
    Frames (serializeElementsFramed elements i) (FieldsFitElements elements) fun _ => True
  | [], _, _ => by
    rw [serializeElementsFramed]
    exact Frames.pure trivial
  | _ :: _, _, h => by
    rw [serializeElementsFramed]
    refine ((frames_hessianSerialize h.1).bind fun _ _ =>
      Frames.next.bind fun _ _ => frames_serializeElements h.2).congr ?_
    rw [true_and]
    exact Iff.rfl

theorem frames_serializePairs : ∀ {pairs : List (HessianObject × HessianObject)} {i : Nat},
    WellFormedPairs pairs →
    Frames (serializePairsFramed pairs i) (FieldsFitPairs pairs) fun _ => True
  | [], _, _ => by
    rw [serializePairsFramed]
    exact Frames.pure trivial
  | (_, _) :: _, _, h => by
    rw [serializePairsFramed]
    refine ((frames_hessianSerialize h.1).bind fun _ _ =>
      (frames_hessianSerialize h.2.1).bind fun _ _ =>
        Frames.next.bind fun _ _ => frames_serializePairs h.2.2).congr ?_
    rw [true_and]
    exact Iff.rfl
end

/-! ## 6. A tree that is written -/

theorem writes_isText (cls : HessianClass) {s : CString} (htext : IsText s) (hfits : s.FitsInt) :
    ∃ w, Writes (hessianStringSerialize cls s) w := by
  obtain ⟨cs, hcs⟩ := htext
  exact ⟨_, writes_text cls hcs hfits⟩

theorem writes_wire {o : HessianObject} (h : ∃ w, Writes (hessianSerialize o) w) :
    Writes (hessianSerialize o) (wire o) := by
  obtain ⟨w, hw⟩ := h
  rw [show wire o = w from hw.written]
  exact hw

mutual
/-- **A tree of well-formed texts whose counters fit is written.** -/
theorem writes_wellFormed : ∀ {o : HessianObject}, o.WellFormed → o.CountersFit →
    ∃ w, Writes (hessianSerialize o) w
  | .null, _, _ => ⟨_, writes_putc _⟩
  | .boolean _, _, _ => ⟨_, writes_putc _⟩
  | .integer v, _, _ => ⟨_, writes_integer hessianIntegerClass v⟩
  | .ref v, _, _ => ⟨_, writes_integer hessianRefClass v⟩
  | .long v, _, _ => ⟨_, writes_long hessianLongClass v⟩
  | .date v, _, _ => ⟨_, writes_long hessianDateClass v⟩
  | .double v, _, _ => ⟨_, writes_long hessianDoubleClass v⟩
  | .string _, h, hfit => writes_isText hessianStringClass h hfit
  | .xml _, h, hfit => writes_isText hessianXmlClass h hfit
  | .binary data, _, _ => ⟨_, writes_binary hessianBinaryClass data⟩
  | .remote _ _, ⟨⟨t, htype, _⟩, u, hurl, _⟩, hfit => by
    obtain rfl : _ = some t := htype
    obtain rfl : _ = some u := hurl
    exact ⟨_, writes_remote hessianRemoteClass (hfit.1 t rfl) (hfit.2 u rfl)⟩
  | .list _ _, h, hfit =>
    ⟨_, writes_list hfit.1 hfit.2.1 (writes_wellFormedElements h.2 hfit.2.2)⟩
  | .map _ _, h, hfit =>
    ⟨_, writes_map hfit.1 hfit.2.1 (writes_wellFormedPairs h.2 hfit.2.2)⟩

theorem writes_wellFormedElements : ∀ {elements : List HessianObject},
    WellFormedElements elements → CountersFitElements elements →
      ∀ o ∈ elements, Writes (hessianSerialize o) (wire o)
  | [], _, _, _, hmem => nomatch hmem
  | _ :: _, h, hfit, o, hmem => by
    rcases List.mem_cons.mp hmem with he | hmem
    · exact he ▸ writes_wire (writes_wellFormed h.1 hfit.1)
    · exact writes_wellFormedElements h.2 hfit.2 o hmem

theorem writes_wellFormedPairs : ∀ {pairs : List (HessianObject × HessianObject)},
    WellFormedPairs pairs → CountersFitPairs pairs → ∀ kv ∈ pairs,
      Writes (hessianSerialize kv.1) (wire kv.1) ∧ Writes (hessianSerialize kv.2) (wire kv.2)
  | [], _, _, _, hmem => nomatch hmem
  | (_, _) :: _, h, hfit, kv, hmem => by
    rcases List.mem_cons.mp hmem with he | hmem
    · exact he ▸ ⟨writes_wire (writes_wellFormed h.1 hfit.1),
        writes_wire (writes_wellFormed h.2.1 hfit.2.1)⟩
    · exact writes_wellFormedPairs h.2.2 hfit.2.2 kv hmem
end

/-- The serializer returns, and every two-byte length it writes behind `out` is the one of its
    payload. -/
def HeadersTruthful (object : HessianObject) (out : Bytes) : Prop :=
  ∃ output pieces, hessianSerializeFramed object (out, []) = .done () (output, pieces) ∧
    ∀ p ∈ pieces, Truthful output p

theorem headersTruthful_of_done {object : HessianObject} (hwf : object.WellFormed)
    {out output : Bytes} {pieces : List Piece}
    (hrun : hessianSerializeFramed object (out, []) = .done () (output, pieces)) :
    (∀ p ∈ pieces, Truthful output p) ↔ object.FieldsFit := by
  obtain ⟨bytes, pieces', heq, -, htrue, -⟩ := frames_hessianSerialize hwf _ _ _ hrun
  obtain rfl : pieces = pieces' := congrArg Prod.snd heq
  exact htrue

/-- **Every two-byte length tells the truth** exactly when every type and every url of the tree has
    at most 65535 characters, its texts fewer than 2^31 bytes and its containers fewer than 2^31
    elements. -/
theorem headers_truthful_iff (object : HessianObject) (hwf : object.WellFormed) (out : Bytes) :
    HeadersTruthful object out ↔ object.FieldsFit ∧ object.CountersFit := by
  have hlifts := lifts_hessianSerializeFramed object
  constructor
  · intro htrue
    obtain ⟨output, pieces, hrun, hall⟩ := htrue
    have hdone : hessianSerialize object out = .done () output := by
      rw [← hlifts (out, []), hrun]
      rfl
    exact ⟨(headersTruthful_of_done hwf hrun).mp hall, countersFit_of_done hdone⟩
  · intro hfit
    obtain ⟨w, hw⟩ := writes_wellFormed hwf hfit.2
    obtain ⟨t, hrun, -⟩ := hlifts.done (s := (out, [])) (hw out)
    exact ⟨t.1, t.2, hrun, (headersTruthful_of_done hwf hrun).mpr hfit.1⟩

/-- A list with the type `t` and a string in it. -/
theorem headers_truthful_short :
    HeadersTruthful (.list (some (CString.lit "t")) [.string .empty]) [] := by
  have hwf : (HessianObject.list (some (CString.lit "t")) [.string .empty]).WellFormed :=
    ⟨fun t ht => Option.some.inj ht ▸ ⟨['t'], by decide⟩, ⟨[], rfl⟩, trivial⟩
  refine (headers_truthful_iff _ hwf []).mpr ⟨⟨fun t ht => ?_, trivial, trivial⟩,
    fun t ht => ?_, by decide, Nat.zero_le _, trivial⟩
  · obtain rfl := Option.some.inj ht
    decide
  · obtain rfl := Option.some.inj ht
    decide

/-- 65536 letters. -/
def longType : CString where
  bytes := List.replicate 65536 0x61
  nulFree := fun h => absurd (List.eq_of_mem_replicate h) (by decide)

theorem longType_isText : IsText longType :=
  ⟨ascii longType.bytes, (encode_ascii fun b hb => List.eq_of_mem_replicate hb ▸ by decide).symm⟩

theorem longType_leads : leads longType.bytes = 65536 := leads_replicate (by decide) 65536

theorem longType_fitsInt : longType.FitsInt := by
  unfold CString.FitsInt
  rw [show longType.bytes.length = 65536 from List.length_replicate]
  decide

/-- The length of 65536 characters is written as zero. -/
theorem list_run {type : CString} (hfits : type.FitsInt) (hleads : leads type.bytes = 65536) :
    hessianSerialize (.list (some type) []) [] = .done ()
      (Char.byte 'V' :: Char.byte 't' :: 0 :: 0 :: (type.bytes ++ [Char.byte 'z'])) := by
  have htype : typeField (some type) = Char.byte 't' :: 0 :: 0 :: type.bytes := by
    show Char.byte 't' :: (size16Bytes (leads type.bytes) ++ type.bytes) = _
    rw [hleads]
    rfl
  have hwrites : Writes (hessianSerialize (.list (some type) [])) _ :=
    writes_list (fun _ ht => Option.some.inj ht ▸ hfits) (Nat.zero_le _) nofun
  rw [hwrites [], htype]
  rfl

/-- A type one character too long makes the length untruthful. -/
theorem not_headersTruthful {type : CString} (htext : IsText type)
    (hleads : leads type.bytes = 65536) : ¬HeadersTruthful (.list (some type) []) [] := by
  intro htrue
  have hwf : (HessianObject.list (some type) []).WellFormed :=
    ⟨fun t ht => Option.some.inj ht ▸ htext, trivial⟩
  obtain ⟨_, _, hrun, hall⟩ := htrue
  have hfit := ((headersTruthful_of_done hwf hrun).mp hall).1 type rfl
  unfold FitsField at hfit
  rw [hleads] at hfit
  exact Nat.lt_irrefl _ hfit

/-- The type of an empty list is one character too long. -/
theorem headers_longType : (HessianObject.list (some longType) []).WellFormed ∧
    hessianSerialize (.list (some longType) []) [] = .done ()
      (Char.byte 'V' :: Char.byte 't' :: 0 :: 0 :: (longType.bytes ++ [Char.byte 'z'])) ∧
    ¬HeadersTruthful (.list (some longType) []) [] := by
  have hwf : (HessianObject.list (some longType) []).WellFormed :=
    ⟨fun t ht => Option.some.inj ht ▸ longType_isText, trivial⟩
  exact ⟨hwf, list_run longType_fitsInt longType_leads,
    not_headersTruthful longType_isText longType_leads⟩

end ArgusPep
