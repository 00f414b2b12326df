/-
  File:      ArgusPep/Hessian/TreeCodec.lean
  Subject:   `hessian_deserialize` undoes `hessian_serialize` on whole object trees.

  * `Admitted` -- no Ref, texts of plain characters, types and urls that fit their length field,
    element counts that fit an `int`;
  * `Carried` -- the trees the wire carries: admitted ones with texts of fewer than 2^31 bytes;
  * `Coded` -- the serializer writes `wire o`, and the deserializer reads it back;
  * `coded_of_carried` -- every carried tree is coded, by recursion over the tree;
  * `hessian_tree_round_trip_iff` -- **serializing and deserializing an admitted tree gives it back
    and leaves the bytes behind it unread, exactly if `utf8_strlen` can count its texts**.
-/
import ArgusPep.Hessian.Reads

namespace ArgusPep

open Lib Run Utf8 Reading

/-! ## 1. The trees the wire carries -/

/-- A text of plain characters, of any length. -/
def PlainText (text : CString) : Prop := ∃ cs, text.bytes = encode cs ∧ ∀ c ∈ cs, Plain c

/-- The type of a container is absent or short. -/
def ShortType (type : Option CString) : Prop := ∀ text, type = some text → ShortText text

/-- A text of bytes below `0x80`. -/
def AsciiText (text : CString) : Prop := ∀ b ∈ text.bytes, b.toNat < 0x80

instance (text : CString) : Decidable (AsciiText text) :=
  List.decidableBAll (fun b : UInt8 => b.toNat < 0x80) text.bytes

theorem AsciiText.plain {text : CString} (h : AsciiText text) : ∀ c ∈ ascii text.bytes, Plain c :=
  plain_ascii h

theorem AsciiText.plainText {text : CString} (h : AsciiText text) : PlainText text :=
  ⟨ascii text.bytes, (encode_ascii h).symm, h.plain⟩

theorem AsciiText.shortType {text : CString} (h : AsciiText text)
    (hlen : text.bytes.length < 65536) : ShortType (some text) := by
  intro t ht
  obtain rfl := Option.some.inj ht
  exact ⟨ascii text.bytes, (encode_ascii h).symm, h.plain, (List.length_map _).trans_lt hlen⟩

theorem ShortText.fitsInt {text : CString} (h : ShortText text) : text.FitsInt := by
  obtain ⟨cs, hcs, _, hlen⟩ := h
  have hle := length_encode_le cs
  unfold CString.FitsInt INT_MAX
  rw [hcs]
  omega

theorem ShortType.fitsInt {type : Option CString} (h : ShortType type) : ∀ t ∈ type, t.FitsInt :=
  fun t ht => (h t ht).fitsInt

/-- A text of plain characters whose bytes an `int` counts. -/
structure WireText (text : CString) : Prop where
  plain : PlainText text
  fits : text.FitsInt

/-- Fewer than 2^31 bytes below `0x80`, as the names the source spells out. -/
def NameText (text : CString) : Prop := AsciiText text ∧ text.FitsInt

instance (text : CString) : Decidable (NameText text) := inferInstanceAs (Decidable (_ ∧ _))

theorem NameText.wireText {text : CString} (h : NameText text) : WireText text :=
  ⟨h.1.plainText, h.2⟩

namespace HessianObject

mutual
/-- No Ref, types and urls that fit their length field, element counts that fit an `int`, and `P` of
    every String and Xml. -/
def TextsWith (P : CString → Prop) : HessianObject → Prop
  | .ref _ => False
  | .string s => P s
  | .xml s => P s
  | .remote type url => ∃ t u, type = some t ∧ url = some u ∧ ShortText t ∧ ShortText u
  | .list type elements =>
    ShortType type ∧ elements.length < 2 ^ 31 ∧ ElementsWith P elements
  | .map type pairs => ShortType type ∧ pairs.length < 2 ^ 31 ∧ PairsWith P pairs
  | _ => True

def ElementsWith (P : CString → Prop) : List HessianObject → Prop
  | [] => True
  | object :: rest => object.TextsWith P ∧ ElementsWith P rest

def PairsWith (P : CString → Prop) : List (HessianObject × HessianObject) → Prop
  | [] => True
  | (key, value) :: rest => key.TextsWith P ∧ value.TextsWith P ∧ PairsWith P rest
end

/-- Texts of any length. -/
abbrev Admitted (o : HessianObject) : Prop := o.TextsWith PlainText

abbrev Carried (o : HessianObject) : Prop := o.TextsWith WireText

abbrev CarriedElements (elements : List HessianObject) : Prop := ElementsWith WireText elements

abbrev CarriedPairs (pairs : List (HessianObject × HessianObject)) : Prop :=
  PairsWith WireText pairs

mutual
theorem carried_of_admitted : ∀ {o : HessianObject}, o.Admitted → o.CountersFit → o.Carried
  | .ref _, h, _ => h
  | .string _, h, hfit => ⟨h, hfit⟩
  | .xml _, h, hfit => ⟨h, hfit⟩
  | .remote _ _, h, _ => h
  | .list _ _, ⟨htype, hlen, hall⟩, hfit =>
    ⟨htype, hlen, carriedElements_of_admitted hall hfit.2.2⟩
  | .map _ _, ⟨htype, hlen, hall⟩, hfit => ⟨htype, hlen, carriedPairs_of_admitted hall hfit.2.2⟩
  | .null, _, _ | .boolean _, _, _ | .integer _, _, _ | .long _, _, _ | .double _, _, _
  | .date _, _, _ | .binary _, _, _ => trivial

theorem carriedElements_of_admitted : ∀ {elements : List HessianObject},
    ElementsWith PlainText elements → CountersFitElements elements → CarriedElements elements
  | [], _, _ => trivial
  | _ :: _, ⟨ho, hrest⟩, hfit =>
    ⟨carried_of_admitted ho hfit.1, carriedElements_of_admitted hrest hfit.2⟩

theorem carriedPairs_of_admitted : ∀ {pairs : List (HessianObject × HessianObject)},
    PairsWith PlainText pairs → CountersFitPairs pairs → CarriedPairs pairs
  | [], _, _ => trivial
  | (_, _) :: _, ⟨hk, hv, hrest⟩, hfit =>
    ⟨carried_of_admitted hk hfit.1, carried_of_admitted hv hfit.2.1,
      carriedPairs_of_admitted hrest hfit.2.2⟩
end

mutual
theorem refFree_of_carried : ∀ {o : HessianObject}, o.Carried → o.RefFree
  | .ref _, h => h
  | .list _ _, h => refFree_of_carriedElements h.2.2
  | .map _ _, h => refFree_of_carriedPairs h.2.2
  | .null, _ | .boolean _, _ | .integer _, _ | .long _, _ | .double _, _ | .date _, _
  | .string _, _ | .xml _, _ | .binary _, _ | .remote _ _, _ => trivial

theorem refFree_of_carriedElements : ∀ {elements : List HessianObject},
    CarriedElements elements → RefFreeElements elements
  | [], _ => trivial
  | _ :: _, ⟨ho, hrest⟩ => ⟨refFree_of_carried ho, refFree_of_carriedElements hrest⟩

theorem refFree_of_carriedPairs : ∀ {pairs : List (HessianObject × HessianObject)},
    CarriedPairs pairs → RefFreePairs pairs
  | [], _ => trivial
  | (_, _) :: _, ⟨hk, hv, hrest⟩ =>
    ⟨refFree_of_carried hk, refFree_of_carried hv, refFree_of_carriedPairs hrest⟩
end

end HessianObject

open HessianObject

/-! ## 2. Objects written and read back -/

/-- The serializer writes `wire o`; the deserializer reads it back, with fuel for two steps a
    byte. -/
structure Coded (o : HessianObject) : Prop where
  writes : Writes (hessianSerialize o) (wire o)
  reads : ∃ (tag : UInt8) (body : Bytes), wire o = tag :: body ∧
    gettype (UInt8.int tag) ≠ .unknown ∧
    ∀ fuel, 2 * body.length + 2 ≤ fuel → Reads (hessianDeserializeTag fuel (UInt8.int tag)) body o

/-- Reading behind a tag: the class of the tag reads. -/
theorem reads_tag {tag : CInt} {cls : HessianClass} (hcls : getclass (gettype tag) = some cls)
    {fuel : Nat} {body : Bytes} {o : HessianObject}
    (h : Reads (deserializeAs (listElements fuel cls []) (mapPairs fuel cls []) cls tag) body o) :
    Reads (hessianDeserializeTag (fuel + 1) tag) body o := by
  have hsize : cls.size ≤ 2 ^ 18 := by
    cases hty : gettype tag <;> rw [hty] at hcls <;> cases hcls <;> decide
  unfold hessianDeserializeTag
  rw [hcls]
  dsimp only
  refine .bind_nil (reads_calloc hsize) ?_
  rw [if_pos rfl]
  exact h

/-- An object is coded when its class writes `body` behind a tag of that class and reads it. -/
theorem coded_of {o : HessianObject} (tag : Char) (cls : HessianClass) {body : Bytes}
    (htag : tag.toNat < 256) (hcls : getclass (gettype (Char.int tag)) = some cls)
    (hw : Writes (hessianSerialize o) (Char.byte tag :: body))
    (hr : ∀ fuel, 2 * body.length + 1 ≤ fuel →
      Reads (deserializeAs (listElements fuel cls []) (mapPairs fuel cls []) cls (Char.int tag))
        body o) : Coded o := by
  have hwire : wire o = Char.byte tag :: body := hw.written
  refine ⟨hwire ▸ hw, Char.byte tag, body, hwire, ?_, fun fuel hf => ?_⟩
  · rw [int_byte htag]
    intro hu
    rw [hu] at hcls
    cases hcls
  · cases fuel with
    | zero => omega
    | succ fuel =>
      rw [int_byte htag]
      exact reads_tag hcls (hr fuel (by omega))

theorem coded_null : Coded .null :=
  coded_of 'N' hessianNullClass (by decide) (by decide)
    (writes_putc _) fun _ _ => (reads_null hessianNullClass).map fun _ => HessianObject.null

theorem coded_boolean (value : Bool) : Coded (.boolean value) := by
  have hr := (reads_boolean hessianBooleanClass (by decide) value).map
    HessianObject.boolean
  cases value with
  | true =>
    exact coded_of 'T' hessianBooleanClass (by decide) (by decide)
      (writes_putc _) fun _ _ => hr
  | false =>
    exact coded_of 'F' hessianBooleanClass (by decide) (by decide)
      (writes_putc _) fun _ _ => hr

theorem coded_integer (value : CInt) : Coded (.integer value) :=
  coded_of 'I' hessianIntegerClass (by decide) (by decide)
    (writes_integer _ value) fun _ _ =>
      (reads_integer hessianIntegerClass value).map HessianObject.integer

theorem coded_long (value : BitVec 64) : Coded (.long value) :=
  coded_of 'L' hessianLongClass (by decide) (by decide)
    (writes_long _ value) fun _ _ => (reads_long hessianLongClass value).map HessianObject.long

theorem coded_date (value : BitVec 64) : Coded (.date value) :=
  coded_of 'd' hessianDateClass (by decide) (by decide)
    (writes_long _ value) fun _ _ => (reads_long hessianDateClass value).map HessianObject.date

theorem coded_double (value : BitVec 64) : Coded (.double value) :=
  coded_of 'D' hessianDoubleClass (by decide) (by decide)
    (writes_long _ value) fun _ _ => (reads_long hessianDoubleClass value).map HessianObject.double

theorem coded_remote {type url : CString} (htype : ShortText type) (hurl : ShortText url) :
    Coded (.remote (some type) (some url)) := by
  have hr := (reads_remote hessianRemoteClass htype hurl).map
    fun texts => HessianObject.remote texts.1 texts.2
  exact coded_of 'r' hessianRemoteClass (by decide) (by decide)
    (writes_remote _ htype.fitsInt hurl.fitsInt) fun _ _ => hr

theorem coded_string {s : CString} (h : WireText s) : Coded (.string s) := by
  obtain ⟨⟨cs, hs, hplain⟩, hfits⟩ := h
  have ht : ChunkTags hessianStringClass := ⟨by decide, by decide, by decide⟩
  refine coded_of _ hessianStringClass (ht.head_lt cs) ?_ (writes_text _ hs hfits)
    fun _ _ => (reads_string ht hs hplain).map HessianObject.string
  unfold chunkHead
  split <;> decide

/-- The bytes of a name: its tag, its length and itself. -/
theorem length_wire_string {text : CString} (h : AsciiText text)
    (hlen : text.bytes.length ≤ HESSIAN_CHUNK_SIZE) :
    (wire (.string text)).length = text.bytes.length + 3 := by
  have hchunk : ¬ HESSIAN_CHUNK_SIZE < (ascii text.bytes).length := by
    rw [ascii, List.length_map]
    exact Nat.not_lt.mpr hlen
  have hfits : text.FitsInt := Nat.le_trans hlen (by decide)
  have hwrites : Writes (hessianSerialize (.string text)) _ :=
    writes_text hessianStringClass (encode_ascii h).symm hfits
  rw [show wire (.string text) = _ from hwrites.written, chunkBody_last hchunk, encode_ascii h,
    List.length_cons, List.length_append, show (size16Bytes _).length = 2 from rfl]
  omega

theorem coded_xml {s : CString} (h : WireText s) : Coded (.xml s) := by
  obtain ⟨⟨cs, hs, hplain⟩, hfits⟩ := h
  have ht : ChunkTags hessianXmlClass := ⟨by decide, by decide, by decide⟩
  refine coded_of _ hessianXmlClass (ht.head_lt cs) ?_ (writes_text _ hs hfits)
    fun _ _ => (reads_string ht hs hplain).map HessianObject.xml
  unfold chunkHead
  split <;> decide

theorem coded_binary (data : Bytes) : Coded (.binary data) := by
  have ht : ChunkTags hessianBinaryClass := ⟨by decide, by decide, by decide⟩
  refine coded_of _ hessianBinaryClass (ht.head_lt data) ?_ (writes_binary _ data)
    fun _ _ => (reads_binary ht data).map HessianObject.binary
  unfold chunkHead
  split <;> decide

/-! ## 3. Containers -/

/-- No object is written under the tags `t`, `l` and `z` of a container. -/
theorem known_tag_ne {tag : UInt8} (h : gettype (UInt8.int tag) ≠ .unknown) {c : Char}
    (hc : gettype (Char.int c) = .unknown) : UInt8.int tag ≠ Char.int c := by
  intro e
  rw [e] at h
  exact h hc

/-- Behind the head of a container stands an object's tag or the final `z`. -/
theorem behindHead_ne {v w : Bytes} {b : UInt8} (hv : v = [] ∨ ∃ tag rest, v = tag :: rest ∧
      gettype (UInt8.int tag) ≠ .unknown) (hw : v ++ [Char.byte 'z'] = b :: w) {c : Char}
    (hc : gettype (Char.int c) = .unknown) (hz : Char.int 'z' ≠ Char.int c) :
    UInt8.int b ≠ Char.int c := by
  rcases hv with rfl | ⟨tag, rest, rfl, hknown⟩
  · obtain ⟨rfl, _⟩ := List.cons.inj hw
    rw [int_byte (by decide)]
    exact hz
  · obtain ⟨rfl, _⟩ := List.cons.inj hw
    exact known_tag_ne hknown hc

/-- Behind the type of a list stands its length, or what stands behind its head. -/
theorem behindType_ne {v w w' : Bytes} {b b' : UInt8} {n : Nat} (hv : v = [] ∨ ∃ tag rest,
      v = tag :: rest ∧ gettype (UInt8.int tag) ≠ .unknown) (hw : v ++ [Char.byte 'z'] = b :: w)
    (hw' : lengthField n ++ b :: w = b' :: w') : UInt8.int b' ≠ Char.int 't' := by
  unfold lengthField at hw'
  split at hw'
  · obtain ⟨rfl, _⟩ := List.cons.inj hw'
    decide
  · obtain ⟨rfl, _⟩ := List.cons.inj hw'
    exact behindHead_ne hv hw (by decide) (by decide)

/-- The type of a container, if any, and the tag behind it. -/
theorem reads_optionalType {α : Type} {f : Option CString × CInt → Reading α} {w : Bytes} {a : α}
    {b : UInt8} {type : Option CString} (htype : ShortType type)
    (hb : UInt8.int b ≠ Char.int 't') (h : Reads (f (type, UInt8.int b)) w a) :
    Reads (bufferGetc >>= fun nextTag => getOptionalType nextTag >>= f)
      (typeField type ++ b :: w) a := by
  cases type with
  | none =>
    refine .bind_getc (.bind_nil (a := (none, UInt8.int b)) ?_ h)
    unfold getOptionalType
    rw [if_neg hb]
    exact .pure _
  | some text =>
    have htext := reads_textField (htype text rfl)
    unfold typeField textField
    rw [List.cons_append]
    refine .bind_getc ?_
    rw [int_byte (by decide)]
    unfold getOptionalType
    rw [if_pos rfl]
    have hbehind := (reads_getc b).map fun nextTag =>
      (some (CString.ofArray text.bytes), nextTag)
    rw [CString.ofArray_eq] at hbehind
    have e : size16Bytes (leads text.bytes) ++ text.bytes ++ b :: w
        = ((size16Bytes (leads text.bytes) ++ text.bytes) ++ [b]) ++ w := by
      simp only [List.append_assoc, List.cons_append, List.nil_append]
    rw [e]
    refine Reads.bind (htext.bind ?_) h
    dsimp only
    rw [CString.ofArray_eq]
    exact hbehind

/-- The length of a list, if any, and the tag behind it. -/
theorem reads_optionalLength {α : Type} {f : CInt → Reading α} {w w' : Bytes} {a : α}
    {b b' : UInt8} {n : Nat} (hw : lengthField n ++ b :: w = b' :: w')
    (hb : UInt8.int b ≠ Char.int 'l') (h : Reads (f (UInt8.int b)) w a) :
    Reads (getOptionalLength (UInt8.int b') >>= f) w' a := by
  unfold lengthField at hw
  split at hw
  · rw [List.cons_append] at hw
    obtain ⟨rfl, rfl⟩ := List.cons.inj hw
    unfold getOptionalLength
    rw [int_byte (by decide), if_pos rfl]
    have hlength := (reads_int32 (BitVec.ofNat 32 n)).bind (f := fun _ => bufferGetc) (reads_getc b)
    have e : int32Bytes (BitVec.ofNat 32 n) ++ b :: w
        = (int32Bytes (BitVec.ofNat 32 n) ++ [b]) ++ w := by
      simp only [List.append_assoc, List.cons_append, List.nil_append]
    rw [e]
    exact hlength.bind h
  · obtain ⟨rfl, rfl⟩ := List.cons.inj hw
    unfold getOptionalLength
    rw [if_neg hb]
    exact Reads.bind_nil (.pure _) h

/-- The loop over the elements reads the elements of a list, up to the final `z`. -/
theorem reads_listElements : ∀ (elements refs : List HessianObject) (fuel : Nat) (b : UInt8)
    (w : Bytes), (∀ o ∈ elements, Coded o) → elements.flatMap wire ++ [Char.byte 'z'] = b :: w →
    2 * w.length + 3 ≤ fuel →
    Reads (listElements fuel hessianListClass refs (UInt8.int b)) w (refs ++ elements)
  | [], refs, fuel + 1, b, w, _, hw, _ => by
    obtain ⟨rfl, rfl⟩ := List.cons.inj hw
    unfold listElements
    rw [if_pos (.inl (int_byte (by decide))), List.append_nil]
    exact .pure refs
  | o :: elements, refs, fuel + 1, b, w, hcoded, hw, hf => by
    obtain ⟨tag, body, ho, hknown, hread⟩ := (hcoded o List.mem_cons_self).reads
    rw [List.flatMap_cons, ho, List.cons_append, List.cons_append] at hw
    obtain ⟨rfl, rfl⟩ := List.cons.inj hw
    have hstop : ¬ (UInt8.int tag = Char.int hessianListClass.chunkTag
        ∨ UInt8.int tag = BUFFER_EOF) := by
      intro h
      rcases h with h | h
      · exact known_tag_ne hknown (by decide) h
      · exact int_ne_eof tag h
    cases hbehind : elements.flatMap wire ++ [Char.byte 'z'] with
    | nil => exact absurd hbehind (by simp)
    | cons b' w' =>
      have hlen : (body ++ elements.flatMap wire ++ [Char.byte 'z']).length
          = body.length + (w'.length + 1) := by
        rw [List.append_assoc, List.length_append, hbehind, List.length_cons]
      have ih := reads_listElements elements (refs ++ [o]) fuel b' w'
        (fun o' ho' => hcoded o' (List.mem_cons_of_mem o ho')) hbehind (by omega)
      unfold listElements
      rw [if_neg hstop, List.append_assoc, hbehind]
      refine .bind ((hread fuel (by omega)).onFailure _) (.bind_nil (reads_calloc (by decide)) ?_)
      rw [if_pos rfl]
      refine .bind_getc ?_
      rw [List.append_assoc] at ih
      exact ih

/-- The last loop over the elements, when none of them is a Ref. -/
theorem reads_linkElements (n : Nat) : ∀ {elements : List HessianObject},
    (∀ o ∈ elements, o.RefFree) → Reads (linkElements n elements) [] ()
  | [], _ => .pure ()
  | o :: rest, h => by
    unfold linkElements
    refine .bind_nil (reads_visit _) ?_
    rw [refIndex_of_refFree (h o List.mem_cons_self), Option.isNone_some, if_neg (by decide)]
    refine .bind_nil (reads_calloc (by decide)) ?_
    rw [if_pos rfl]
    exact reads_linkElements n fun o' ho' => h o' (List.mem_cons_of_mem o ho')

/-- The elements of a list begin with the tag of an object. -/
theorem elements_head {elements : List HessianObject} (hcoded : ∀ o ∈ elements, Coded o) :
    elements.flatMap wire = [] ∨ ∃ tag rest, elements.flatMap wire = tag :: rest ∧
      gettype (UInt8.int tag) ≠ .unknown := by
  cases elements with
  | nil => exact .inl rfl
  | cons o rest =>
    obtain ⟨tag, body, ho, hknown, _⟩ := (hcoded o List.mem_cons_self).reads
    exact .inr ⟨tag, _, by rw [List.flatMap_cons, ho, List.cons_append], hknown⟩

theorem coded_list {type : Option CString} {elements : List HessianObject}
    (htype : ShortType type) (hcount : elements.length < 2 ^ 31) (hcoded : ∀ o ∈ elements, Coded o)
    (hfree : ∀ o ∈ elements, o.RefFree) : Coded (.list type elements) := by
  refine coded_of 'V' hessianListClass (by decide) (by decide)
    (writes_list htype.fitsInt (Nat.le_pred_of_lt hcount) fun o ho => (hcoded o ho).writes)
    fun fuel hf => ?_
  cases hw : elements.flatMap wire ++ [Char.byte 'z'] with
  | nil => exact absurd hw (by simp)
  | cons b w =>
    have hfirst := elements_head hcoded
    cases hw' : lengthField elements.length ++ b :: w with
    | nil => exact absurd hw' (by simp)
    | cons b' w' =>
      have hb' : UInt8.int b' ≠ Char.int 't' := behindType_ne hfirst hw hw'
      have hlen : w.length + 1 ≤ (typeField type ++ (lengthField elements.length
          ++ (elements.flatMap wire ++ [Char.byte 'z']))).length := by
        rw [hw]
        simp only [List.length_append, List.length_cons]
        omega
      have helements := reads_listElements elements [] fuel b w hcoded hw (by omega)
      have hrest : Reads (do
          let refs ← listElements fuel hessianListClass [] (UInt8.int b)
          if ← llistCreate then
            linkElements refs.length refs
            pure (type, refs)
          else do
            deleteElements refs
            fail) w (type, elements) := by
        rw [List.nil_append] at helements
        have e := helements.bind (f := fun refs => do
          if ← llistCreate then
            linkElements refs.length refs
            pure (type, refs)
          else do
            deleteElements refs
            fail) (b := (type, elements)) (w := [])
          (.bind_nil (reads_calloc (by decide))
            (.bind_nil (reads_linkElements _ hfree) (.pure _)))
        rwa [List.append_nil] at e
      have hlist : Reads (hessianListDeserialize (listElements fuel hessianListClass [])
          hessianListClass (Char.int 'V')) (typeField type ++ (lengthField elements.length
            ++ (elements.flatMap wire ++ [Char.byte 'z']))) (type, elements) := by
        unfold hessianListDeserialize
        rw [if_neg (not_not.mpr rfl), hw, hw']
        refine .bind_nil (reads_calloc (by decide)) ?_
        rw [if_pos rfl]
        refine reads_optionalType htype hb' ?_
        exact reads_optionalLength hw' (behindHead_ne hfirst hw (by decide) (by decide)) hrest
      rw [hw, hw'] at hlist
      exact hlist.map fun parts => HessianObject.list parts.1 parts.2

/-- The loop over the pairs reads the keys and values of a map, up to the final `z`. -/
theorem reads_mapPairs : ∀ (pairs refs : List (HessianObject × HessianObject)) (fuel : Nat)
    (b : UInt8) (w : Bytes), (∀ kv ∈ pairs, Coded kv.1 ∧ Coded kv.2) →
    wirePairs pairs ++ [Char.byte 'z'] = b :: w → 2 * w.length + 3 ≤ fuel →
    Reads (mapPairs fuel hessianMapClass refs (UInt8.int b)) w (refs ++ pairs)
  | [], refs, fuel + 1, b, w, _, hw, _ => by
    obtain ⟨rfl, rfl⟩ := List.cons.inj hw
    unfold mapPairs
    rw [if_pos (.inl (int_byte (by decide))), List.append_nil]
    exact .pure refs
  | (key, value) :: pairs, refs, fuel + 1, b, w, hcoded, hw, hf => by
    obtain ⟨hkey, hvalue⟩ : Coded key ∧ Coded value := hcoded (key, value) List.mem_cons_self
    obtain ⟨tag, body, hk, hknown, hreadKey⟩ := hkey.reads
    obtain ⟨tag', body', hv, _, hreadValue⟩ := hvalue.reads
    rw [wirePairs_cons, hk, hv] at hw
    simp only [List.cons_append, List.append_assoc] at hw
    obtain ⟨rfl, rfl⟩ := List.cons.inj hw
    have hstop : ¬ (UInt8.int tag = Char.int hessianMapClass.chunkTag
        ∨ UInt8.int tag = BUFFER_EOF) := by
      intro h
      rcases h with h | h
      · exact known_tag_ne hknown (by decide) h
      · exact int_ne_eof tag h
    cases hbehind : wirePairs pairs ++ [Char.byte 'z'] with
    | nil => exact absurd hbehind (by simp)
    | cons b' w' =>
      have hlen := congrArg List.length hbehind
      simp only [List.length_append, List.length_cons] at hlen hf
      have ih := reads_mapPairs pairs (refs ++ [(key, value)]) fuel b' w'
        (fun kv hkv => hcoded kv (List.mem_cons_of_mem _ hkv)) hbehind (by omega)
      rw [List.append_assoc] at ih
      unfold mapPairs
      rw [if_neg hstop]
      refine .bind ((hreadKey fuel (by omega)).onFailure _) (.bind_getc ?_)
      refine .bind ((hreadValue fuel (by omega)).onFailure _) (.bind_nil
        (reads_calloc (by decide)) ?_)
      rw [if_pos rfl]
      refine .bind_nil (reads_calloc (by decide)) ?_
      rw [if_pos rfl]
      exact .bind_getc ih

/-- The last loop over the pairs. -/
theorem reads_linkPairs : ∀ pairs : List (HessianObject × HessianObject),
    Reads (linkPairs pairs) [] ()
  | [] => .pure ()
  | _ :: rest => by
    unfold linkPairs
    refine .bind_nil (reads_calloc (by decide)) ?_
    rw [if_pos rfl]
    exact reads_linkPairs rest

/-- The pairs of a map begin with the tag of a key. -/
theorem pairs_head {pairs : List (HessianObject × HessianObject)}
    (hcoded : ∀ kv ∈ pairs, Coded kv.1) :
    wirePairs pairs = [] ∨ ∃ tag rest, wirePairs pairs = tag :: rest ∧
      gettype (UInt8.int tag) ≠ .unknown := by
  cases pairs with
  | nil => exact .inl rfl
  | cons kv rest =>
    obtain ⟨key, value⟩ := kv
    have hkey : Coded key := hcoded (key, value) List.mem_cons_self
    obtain ⟨tag, body, hk, hknown, _⟩ := hkey.reads
    exact .inr ⟨tag, _, by rw [wirePairs_cons, hk, List.cons_append], hknown⟩

theorem coded_map {type : Option CString} {pairs : List (HessianObject × HessianObject)}
    (htype : ShortType type) (hcount : pairs.length < 2 ^ 31)
    (hcoded : ∀ kv ∈ pairs, Coded kv.1 ∧ Coded kv.2) : Coded (.map type pairs) := by
  refine coded_of 'M' hessianMapClass (by decide) (by decide)
    (writes_map htype.fitsInt (Nat.le_pred_of_lt hcount) fun kv hkv =>
      ⟨(hcoded kv hkv).1.writes, (hcoded kv hkv).2.writes⟩) fun fuel hf => ?_
  cases hw : wirePairs pairs ++ [Char.byte 'z'] with
  | nil => exact absurd hw (by simp)
  | cons b w =>
    have hfirst := pairs_head fun kv hkv => (hcoded kv hkv).1
    have hlen : w.length + 1 ≤ (typeField type ++ (wirePairs pairs ++ [Char.byte 'z'])).length := by
      rw [hw]
      simp only [List.length_append, List.length_cons]
      omega
    have hpairs := reads_mapPairs pairs [] fuel b w hcoded hw (by omega)
    have hrest : Reads (do
        let refs ← mapPairs fuel hessianMapClass [] (UInt8.int b)
        if ← llistCreate then
          linkPairs refs
          pure (type, refs)
        else do
          deletePairs refs
          fail) w (type, pairs) := by
      rw [List.nil_append] at hpairs
      have e := hpairs.bind (f := fun refs => do
        if ← llistCreate then
          linkPairs refs
          pure (type, refs)
        else do
          deletePairs refs
          fail) (b := (type, pairs)) (w := [])
        (.bind_nil (reads_calloc (by decide)) (.bind_nil (reads_linkPairs _) (.pure _)))
      rwa [List.append_nil] at e
    have hmap : Reads (hessianMapDeserialize (mapPairs fuel hessianMapClass []) hessianMapClass
        (Char.int 'M')) (typeField type ++ (wirePairs pairs ++ [Char.byte 'z'])) (type, pairs) := by
      unfold hessianMapDeserialize
      rw [if_neg (not_not.mpr rfl), hw]
      refine .bind_nil (reads_calloc (by decide)) ?_
      rw [if_pos rfl]
      exact reads_optionalType htype (behindHead_ne hfirst hw (by decide) (by decide)) hrest
    rw [hw] at hmap
    exact hmap.map fun parts => HessianObject.map parts.1 parts.2

/-! ## 4. Trees -/

mutual
/-- Every carried tree is coded. -/
theorem coded_of_carried : ∀ {o : HessianObject}, o.Carried → Coded o
  | .null, _ => coded_null
  | .boolean value, _ => coded_boolean value
  | .integer value, _ => coded_integer value
  | .long value, _ => coded_long value
  | .date value, _ => coded_date value
  | .double value, _ => coded_double value
  | .string _, h => coded_string h
  | .xml _, h => coded_xml h
  | .binary data, _ => coded_binary data
  | .remote _ _, ⟨_, _, htype, hurl, ht, hu⟩ => by
    rw [htype, hurl]
    exact coded_remote ht hu
  | .list _ _, ⟨htype, hcount, hall⟩ =>
    coded_list htype hcount (coded_of_carriedElements hall)
      fun _ ho => refFree_of_mem (refFree_of_carriedElements hall) ho
  | .map _ _, ⟨htype, hcount, hall⟩ => coded_map htype hcount (coded_of_carriedPairs hall)
  | .ref _, h => h.elim

theorem coded_of_carriedElements : ∀ {elements : List HessianObject}, CarriedElements elements →
    ∀ o ∈ elements, Coded o
  | [], _, _, hmem => nomatch hmem
  | object :: _, ⟨ho, hrest⟩, o, hmem => by
    rcases List.mem_cons.mp hmem with he | hmem
    · exact he ▸ coded_of_carried ho
    · exact coded_of_carriedElements hrest o hmem

theorem coded_of_carriedPairs : ∀ {pairs : List (HessianObject × HessianObject)},
    CarriedPairs pairs → ∀ kv ∈ pairs, Coded kv.1 ∧ Coded kv.2
  | [], _, _, hmem => nomatch hmem
  | (_, _) :: _, ⟨hk, hv, hrest⟩, kv, hmem => by
    rcases List.mem_cons.mp hmem with he | hmem
    · exact he ▸ ⟨coded_of_carried hk, coded_of_carried hv⟩
    · exact coded_of_carriedPairs hrest kv hmem
end

/-- A coded object without a Ref is what `hessian_deserialize` returns for its bytes. -/
theorem reads_hessianDeserialize {o : HessianObject} (h : Coded o) (hfree : o.RefFree) :
    Reads hessianDeserialize (wire o) o := by
  obtain ⟨tag, body, hwire, _, hread⟩ := h.reads
  rw [hwire]
  unfold hessianDeserialize
  refine .bind_getc ?_
  intro s rest hs hinput
  refine Returns.bind (P := fun b t => b = s ∧ t = s) ⟨s, s, rfl, rfl, rfl⟩ ?_
  intro _ t h
  obtain ⟨rfl, rfl⟩ := h
  have hfuel : 2 * body.length + 2 ≤ 2 * t.input.length + 2 := by
    rw [hinput, List.length_append]
    omega
  have hmap := (hread _ hfuel).map HessianObject.resolved
  rw [resolved_of_refFree hfree] at hmap
  exact hmap t rest hs hinput

/-- The serializer returns, and in front of any bytes what it wrote is read as the tree. -/
def TreeRoundTrips (o : HessianObject) : Prop :=
  ∃ w, hessianSerialize o [] = .done () w ∧
    ∀ rest, Returns hessianDeserialize (Reader.start (w ++ rest) Mem.unlimited)
      fun o' s => o' = o ∧ s.input = rest

theorem treeRoundTrips_of_carried {o : HessianObject} (h : o.Carried) : TreeRoundTrips o := by
  have hc := coded_of_carried h
  refine ⟨wire o, hc.writes [], fun rest => ?_⟩
  refine (reads_hessianDeserialize hc (refFree_of_carried h) _ rest
    (ample_start_unlimited _) rfl).mono ?_
  intro o' s h
  obtain ⟨ho, hrest, _⟩ := h
  exact ⟨ho, hrest⟩

/-- **Serializing and deserializing an admitted tree gives it back and leaves the bytes behind it
    unread**, exactly if its texts have fewer than 2^31 bytes. -/
theorem hessian_tree_round_trip_iff (o : HessianObject) (h : o.Admitted) :
    TreeRoundTrips o ↔ o.CountersFit := by
  constructor
  · intro hround
    obtain ⟨w, hdone, _⟩ := hround
    exact countersFit_of_done hdone
  · exact fun hfit => treeRoundTrips_of_carried (carried_of_admitted h hfit)

/-- A typed map with a list of a negative number and an empty binary. -/
theorem hessian_tree_round_trip_map :
    TreeRoundTrips (.map (some (CString.lit "m"))
      [(.string (CString.lit "k"), .list none [.integer (-1), .binary []])]) := by
  have hkey : Admitted (.string (CString.lit "k")) :=
    ⟨['k'], by decide, List.forall_mem_singleton.mpr (by decide)⟩
  have htype : ShortType (some (CString.lit "m")) := by
    intro text h
    cases h
    exact ⟨['m'], by decide, List.forall_mem_singleton.mpr (by decide), by decide⟩
  have hvalue : Admitted (.list none [.integer (-1), .binary []]) :=
    ⟨(fun _ h => nomatch h), by decide, trivial, trivial, trivial⟩
  have hlist : CountersFit (.list none [.integer (-1), .binary []]) :=
    ⟨(fun _ h => nomatch h), by decide, trivial, trivial, trivial⟩
  have hkeyFits : CString.FitsInt (CString.lit "k") := by decide
  exact (hessian_tree_round_trip_iff (.map (some (CString.lit "m"))
    [(.string (CString.lit "k"), .list none [.integer (-1), .binary []])])
    ⟨htype, by decide, hkey, hvalue, trivial⟩).mpr
    ⟨htype.fitsInt, by decide, hkeyFits, hlist, trivial⟩

/-- 2^31 letters. -/
def longText : CString where
  bytes := List.replicate (2 ^ 31) 0x61
  nulFree := fun h => absurd (List.eq_of_mem_replicate h) (by decide)

theorem not_fitsInt_replicate {b : UInt8} {n : Nat} (hn : INT_MAX < n) {text : CString}
    (h : text.bytes = List.replicate n b) : ¬text.FitsInt := by
  unfold CString.FitsInt
  rw [h, List.length_replicate]
  exact Nat.not_le_of_lt hn

/-- A String of 2^31 letters is admitted, and its serializer does not return. -/
theorem hessian_tree_round_trip_long :
    (HessianObject.string longText).Admitted ∧ ¬TreeRoundTrips (.string longText) := by
  have hascii : AsciiText longText := fun b hb => by
    rw [List.eq_of_mem_replicate hb]
    decide
  refine ⟨hascii.plainText, fun hround => ?_⟩
  obtain ⟨w, hdone, _⟩ := hround
  have hfits : longText.FitsInt := countersFit_of_done hdone
  exact not_fitsInt_replicate (by decide) rfl hfits

end ArgusPep
