/-
  File:      ArgusPep/Hessian/Truncation.lean
  Subject:   Which cut messages `hessian_deserialize` takes for whole ones.

  The loops of the lists and the maps end at the final `z` and at the end of the input alike, and
  the numbers and texts are filled up with what `buffer_getc` returns there.

  * `CutRejected o n` -- the places at which a cut of the bytes of `o` is noticed;
  * `CutCoded` -- what the deserializer does with the cut bytes behind a tag;
  * `cutCoded_list`, `cutCoded_map` -- the containers, by their elements;
  * **`rejects_cut_iff`** -- of the cut bytes of a tree no object is returned exactly at the places
    of `CutRejected`.
-/
import ArgusPep.Hessian.Cuts

namespace ArgusPep

open Lib Run Utf8 Reading

/-! ## 1. The places -/

namespace HessianObject

mutual
/-- The first `n` bytes of `o`, of more, are not taken for an object. -/
def CutRejected : HessianObject → (n : Nat) → Prop
  -- in a text or a binary: before the first byte of its last chunk
  | .string s, n => n + (lastText s.bytes).length < (wire (.string s)).length
  | .xml s, n => n + (lastText s.bytes).length < (wire (.xml s)).length
  | .binary data, n => n + (lastChunk data).length < (wire (.binary data)).length
  -- in a remote: before the tag of its url
  | .remote type _, n => n < 5 + (type.elim 0 fun text => text.bytes.length)
  -- in a container: in the length of its type, or where an element, a key or a value rejects it
  | .list type elements, n => n = 0 ∨ type.isSome = true ∧ (n = 2 ∨ n = 3) ∨
    CutElements elements (n - (1 + (typeField type).length + (lengthField elements.length).length))
  | .map type pairs, n => n = 0 ∨ type.isSome = true ∧ (n = 2 ∨ n = 3) ∨
    CutPairs pairs (n - (1 + (typeField type).length))
  -- in a number, a boolean or Null: before its tag
  | _, n => n = 0

/-- The cut is in an element, behind its tag, and the element rejects it. -/
def CutElements : List HessianObject → (n : Nat) → Prop
  | [], _ => False
  | o :: rest, n =>
    0 < n ∧ n < (wire o).length ∧ o.CutRejected n ∨
      (wire o).length ≤ n ∧ CutElements rest (n - (wire o).length)

/-- The cut is in a key or just behind it, or in a value, behind its tag, that rejects it. -/
def CutPairs : List (HessianObject × HessianObject) → (n : Nat) → Prop
  | [], _ => False
  | (key, value) :: rest, n =>
    0 < n ∧ n ≤ (wire key).length ∨
      (wire key).length < n ∧ n < (wire key).length + (wire value).length ∧
        value.CutRejected (n - (wire key).length) ∨
      (wire key).length + (wire value).length ≤ n ∧
        CutPairs rest (n - ((wire key).length + (wire value).length))
end

end HessianObject

open HessianObject

/-- No object has an empty wire, so nothing is cut before the first element. -/
theorem not_cutElements_zero : ∀ {elements : List HessianObject},
    (∀ o ∈ elements, Coded o) → ¬ CutElements elements 0
  | [], _ => id
  | o :: rest, h => by
    obtain ⟨tag, body, ho, _⟩ := (h o List.mem_cons_self).reads
    intro h
    rcases h with ⟨hpos, _⟩ | ⟨hle, _⟩
    · omega
    · rw [ho, List.length_cons] at hle
      omega

theorem not_cutPairs_zero : ∀ {pairs : List (HessianObject × HessianObject)},
    (∀ kv ∈ pairs, Coded kv.1 ∧ Coded kv.2) → ¬ CutPairs pairs 0
  | [], _ => id
  | (key, value) :: rest, h => by
    have hkey : Coded key := (h (key, value) List.mem_cons_self).1
    obtain ⟨tag, body, hk, _⟩ := hkey.reads
    intro h
    rcases h with ⟨hpos, _⟩ | ⟨hlt, _⟩ | ⟨hle, _⟩
    · omega
    · omega
    · rw [hk, List.length_cons] at hle
      omega

/-! ## 2. The head of a container -/

theorem reads_typeField {type : Option CString} (htype : ShortType type) {b : UInt8}
    (hb : UInt8.int b ≠ Char.int 't') :
    Reads (bufferGetc >>= getOptionalType) (typeField type ++ [b]) (type, UInt8.int b) := by
  have h := reads_optionalType (f := pure) htype hb (.pure _)
  simp only [bind_pure] at h
  exact h

theorem reads_lengthField {n : Nat} {b b' : UInt8} {w' : Bytes}
    (hw : lengthField n ++ [b] = b' :: w') (hb : UInt8.int b ≠ Char.int 'l') :
    Reads (getOptionalLength (UInt8.int b')) w' (UInt8.int b) := by
  have h := reads_optionalLength (f := pure) hw hb (.pure _)
  simp only [bind_pure] at h
  exact h

/-- A container whose type is cut off goes on without elements, unless the length of the type is
    cut. -/
theorem cut_optionalType {α : Type} {f : Option CString × CInt → Reading α}
    {type : Option CString} (htype : ShortType type) {b : UInt8} {w : Bytes} {m : Nat} {R : Prop}
    (hmax : (typeField type ++ b :: w).length ≤ PTRDIFF_MAX)
    (hb : UInt8.int b ≠ Char.int 't')
    (heof : ∀ type, Ends (f (type, BUFFER_EOF)) [] fun _ => True)
    (hshort : m ≤ (typeField type).length → (R ↔ type.isSome = true ∧ (m = 1 ∨ m = 2)))
    (hf : ∀ k, m = (typeField type).length + (k + 1) →
      Cut (f (type, UInt8.int b)) (w.take k) R fun _ => True) :
    Cut (bufferGetc >>= fun nextTag => getOptionalType nextTag >>= f)
      ((typeField type ++ b :: w).take m) R fun _ => True := by
  have hstart : Ends (bufferGetc >>= fun nextTag => getOptionalType nextTag >>= f) []
      fun _ => True := by
    refine ends_bind_getc ?_
    unfold getOptionalType
    rw [if_neg (by decide)]
    exact (ends_pure (P := fun r => r = (none, BUFFER_EOF)) rfl).bind fun r hr => hr ▸ heof none
  rcases Nat.lt_or_ge (typeField type).length m with hgt | hle
  · -- the type is whole: reading goes on behind it
    obtain ⟨k, hk⟩ : ∃ k, m = (typeField type).length + (k + 1) :=
      ⟨m - (typeField type).length - 1, by omega⟩
    have hcut := hf k hk
    have hsplit : (typeField type ++ b :: w).take m = (typeField type ++ [b]) ++ w.take k := by
      rw [take_append_of_ge (by omega), hk, Nat.add_sub_cancel_left, List.take_succ_cons,
        List.append_assoc]
      rfl
    rw [hsplit, ← bind_assoc]
    refine (reads_typeField htype hb).bind_cut ?_ hcut
    rw [← hsplit]
    exact Nat.le_trans (List.length_take_le' _ _) hmax
  · have hR := hshort hle
    rw [List.take_append_of_le_length hle]
    cases type with
    | none =>
      rw [show typeField none = [] from rfl, List.take_nil]
      exact cut_of_ends (fun h => Bool.false_ne_true (hR.mp h).1) hstart
    | some text =>
      rw [show typeField (some text) = Char.byte 't' :: textBody text from rfl] at hle hmax ⊢
      rw [List.length_cons] at hle
      cases m with
      | zero =>
        exact cut_of_ends (fun h => by have := (hR.mp h).2; omega) hstart
      | succ j =>
        have hlen := textBody_length text
        have hmaxT : ((textBody text).take j).length + 1 ≤ PTRDIFF_MAX := by
          rw [List.length_append, List.length_cons] at hmax
          rw [List.length_take]
          omega
        rw [List.take_succ_cons]
        refine Reads.bind_cut (v := [_]) (reads_getc _) ?_ ?_
        · rw [List.length_append, List.length_singleton]
          omega
        rw [int_byte (by decide)]
        unfold getOptionalType
        rw [if_pos rfl, bind_assoc]
        by_cases h2 : j < 2
        · -- the length of the type is cut
          refine cut_of_refused (hR.mpr ⟨rfl, by omega⟩) ((readText_none ?_).bind_refused ?_)
          · rw [List.length_take]
            omega
          · intro _ e
            obtain rfl := e
            exact refused_fail.bind
        · refine cut_of_ends (fun h => by have := (hR.mp h).2; omega) ?_
          have hnext (array : Bytes) : Ends ((bufferGetc >>= fun nextTag =>
              pure (some (CString.ofArray array), nextTag)) >>= f) [] fun _ => True := by
            rw [bind_assoc]
            refine ends_bind_getc ?_
            rw [pure_bind]
            exact heof _
          rcases Nat.lt_or_ge j (textBody text).length with hlt | hge
          · refine (readText_textBody_cut (htype text rfl) (by omega) hlt).bind ?_
            intro _ h
            obtain ⟨array, rfl⟩ := h
            exact hnext array
          · have hj : j = (textBody text).length := by omega
            rw [hj, List.take_length] at hmaxT
            rw [hj, List.take_length, ← List.append_nil (textBody text)]
            refine (reads_textBody (htype text rfl)).bind_ends ?_ (hnext text.bytes)
            rw [List.append_nil]
            omega

/-- A list whose length is cut off goes on without elements. -/
theorem cut_optionalLength {α : Type} {f : CInt → Reading α} {n : Nat} {b b' : UInt8}
    {w w' : Bytes} {m : Nat} {R : Prop} (hw : lengthField n ++ b :: w = b' :: w')
    (hmax : w'.length ≤ PTRDIFF_MAX) (hb : UInt8.int b ≠ Char.int 'l')
    (heof : Ends (f BUFFER_EOF) [] fun _ => True)
    (hshort : m < (lengthField n).length → ¬ R)
    (hf : ∀ k, m = (lengthField n).length + k → Cut (f (UInt8.int b)) (w.take k) R fun _ => True) :
    Cut (getOptionalLength (UInt8.int b') >>= f) (w'.take m) R fun _ => True := by
  rcases Nat.lt_or_ge m (lengthField n).length with hlt | hge
  · -- the length is cut off
    have hn : n > 0 := by
      by_contra h
      rw [lengthField, if_neg h, List.length_nil] at hlt
      omega
    have hfield : lengthField n = Char.byte 'l' :: int32Bytes (BitVec.ofNat 32 n) := if_pos hn
    rw [hfield, List.cons_append] at hw
    obtain ⟨rfl, rfl⟩ := List.cons.inj hw
    rw [hfield] at hlt
    have hm : m < 5 := hlt
    rw [int_byte (by decide)]
    unfold getOptionalLength
    rw [if_pos rfl, bind_assoc]
    refine cut_of_ends (hshort (by rw [hfield]; exact hlt)) ?_
    refine (drains_getInt32 _ (by rw [List.length_take]; omega)).bind fun _ _ => ?_
    exact ends_bind_getc heof
  · obtain ⟨k, rfl⟩ : ∃ k, m = (lengthField n).length + k := ⟨m - (lengthField n).length, by omega⟩
    have hcut := hf k rfl
    cases hhead : lengthField n ++ [b] with
    | nil => exact absurd hhead (by simp)
    | cons b₁ v =>
      have hread := reads_lengthField hhead hb
      have hv : b' :: w' = b₁ :: (v ++ w) := by
        rw [← hw, ← List.cons_append, ← hhead, List.append_assoc]
        rfl
      obtain ⟨rfl, rfl⟩ := List.cons.inj hv
      have hlen : v.length = (lengthField n).length := by
        have := congrArg List.length hhead
        rw [List.length_append, List.length_singleton, List.length_cons] at this
        omega
      rw [take_append_of_ge (by omega), hlen, Nat.add_sub_cancel_left]
      refine hread.bind_cut ?_ hcut
      rw [List.length_append] at hmax ⊢
      rw [List.length_take]
      omega

/-! ## 3. Objects behind a tag -/

/-- Not a Ref itself; its elements may be. -/
def NotRef (o : HessianObject) : Prop := ∀ value, o ≠ .ref value

theorem notRef_of_refFree {o : HessianObject} (h : o.RefFree) : NotRef o := by
  intro value e
  obtain rfl := e
  exact h

/-- What becomes of the bytes of `o` when they are cut behind its tag. -/
def CutCoded (o : HessianObject) : Prop :=
  (wire o).length ≤ PTRDIFF_MAX → ∀ (tag : UInt8) (body : Bytes), wire o = tag :: body →
    ∀ (m : Nat), m < body.length → ∀ (fuel : Nat), 2 * m + 2 ≤ fuel →
      Cut (hessianDeserializeTag fuel (UInt8.int tag)) (body.take m) (o.CutRejected (m + 1)) NotRef

/-- An object is cut where its class is. -/
theorem cutCoded_of {o : HessianObject} (tag : Char) (cls : HessianClass) {body : Bytes}
    (htag : tag.toNat < 256) (hcls : getclass (gettype (Char.int tag)) = some cls)
    (hwire : wire o = Char.byte tag :: body)
    (h : (wire o).length ≤ PTRDIFF_MAX → ∀ m < body.length, ∀ fuel, 2 * m + 1 ≤ fuel →
      Cut (deserializeAs (listElements fuel cls []) (mapPairs fuel cls []) cls (Char.int tag))
        (body.take m) (o.CutRejected (m + 1)) NotRef) : CutCoded o := by
  intro hmax tag' body' hwire' m hm fuel hf
  obtain ⟨rfl, rfl⟩ := List.cons.inj (hwire.symm.trans hwire')
  have hsize : cls.size ≤ 2 ^ 18 := by
    cases hty : gettype (Char.int tag) <;> rw [hty] at hcls <;> cases hcls <;> decide
  have htake : (body.take m).length ≤ PTRDIFF_MAX := by
    rw [hwire, List.length_cons] at hmax
    rw [List.length_take]
    omega
  cases fuel with
  | zero => omega
  | succ fuel =>
    unfold hessianDeserializeTag
    rw [int_byte htag, hcls]
    dsimp only
    refine Reads.bind_nil_cut (reads_calloc hsize) htake ?_
    rw [if_pos rfl]
    exact h hmax m hm fuel (by omega)

/-- A body without bytes cannot be cut. -/
theorem cutCoded_short {o : HessianObject} {tag : UInt8} (hwire : wire o = [tag]) :
    CutCoded o := by
  intro _ tag' body hwire' m hm
  rw [hwire] at hwire'
  obtain ⟨_, rfl⟩ := List.cons.inj hwire'
  exact absurd hm (Nat.not_lt_zero m)

theorem cutCoded_integer (value : CInt) : CutCoded (.integer value) := by
  refine cutCoded_of 'I' hessianIntegerClass (by decide) (by decide)
    (writes_integer _ value).written fun _ m hm fuel _ => ?_
  refine cut_of_ends (Nat.succ_ne_zero m) ?_
  have hm4 : m < 4 := hm
  refine (drains_hessianIntegerDeserialize hessianIntegerClass _ ?_).bind fun _ _ =>
    ends_pure nofun
  rw [List.length_take]
  omega

/-- The classes of eight bytes. -/
theorem cutCoded_eight {o : HessianObject} (tag : Char) (cls : HessianClass) {value : BitVec 64}
    (htag : tag.toNat < 256) (hcls : getclass (gettype (Char.int tag)) = some cls)
    (hwire : wire o = Char.byte tag :: int64Bytes value)
    (hreject : ∀ n, o.CutRejected n ↔ n = 0)
    (hclass : ∀ elements pairs, ∃ g : BitVec 64 → HessianObject, (∀ value, NotRef (g value)) ∧
      deserializeAs elements pairs cls (Char.int tag)
        = hessianLongDeserialize cls (Char.int cls.tag) >>= fun value => pure (g value)) :
    CutCoded o := by
  refine cutCoded_of _ _ htag hcls hwire fun _ m hm fuel _ => ?_
  obtain ⟨g, hnot, hg⟩ := hclass (listElements fuel cls []) (mapPairs fuel cls [])
  have hm8 : m < 8 := hm
  rw [hg]
  refine cut_of_ends (fun h => Nat.succ_ne_zero m ((hreject _).mp h)) ?_
  refine (drains_hessianLongDeserialize cls _ ?_).bind fun value _ => ends_pure (hnot value)
  rw [List.length_take]
  omega

theorem cutCoded_long (value : BitVec 64) : CutCoded (.long value) :=
  cutCoded_eight 'L' hessianLongClass (by decide) (by decide)
    (writes_long _ value).written (fun _ => Iff.rfl) fun _ _ => ⟨.long, (fun _ _ h => nomatch h), rfl⟩

theorem cutCoded_date (value : BitVec 64) : CutCoded (.date value) :=
  cutCoded_eight 'd' hessianDateClass (by decide) (by decide)
    (writes_long _ value).written (fun _ => Iff.rfl) fun _ _ => ⟨.date, (fun _ _ h => nomatch h), rfl⟩

theorem cutCoded_double (value : BitVec 64) : CutCoded (.double value) :=
  cutCoded_eight 'D' hessianDoubleClass (by decide) (by decide)
    (writes_long _ value).written (fun _ => Iff.rfl) fun _ _ => ⟨.double, (fun _ _ h => nomatch h), rfl⟩

theorem cutCoded_remote {type url : CString} (htype : ShortText type) (hurl : ShortText url) :
    CutCoded (.remote (some type) (some url)) := by
  have hwire := (writes_remote hessianRemoteClass htype.fitsInt hurl.fitsInt).written
  refine cutCoded_of 'r' hessianRemoteClass (by decide) (by decide) hwire
    fun hmax m hm fuel _ => ?_
  have hmax' : (textField 't' type ++ textField 'S' url).length ≤ PTRDIFF_MAX := by
    have h : (wire (.remote (some type) (some url))).length
        = (textField 't' type ++ textField 'S' url).length + 1 := congrArg List.length hwire
    omega
  have hcut := cut_remote hessianRemoteClass htype hurl hmax' hm
  refine (hcut.congr ?_).bind_ends fun _ _ => ends_pure nofun
  show m + 1 < 5 + type.bytes.length ↔ m < 4 + type.bytes.length
  omega

/-- The two classes of texts. -/
theorem cutCoded_text {o : HessianObject} (cls : HessianClass) (ht : ChunkTags cls) {s : CString}
    {cs : List Char} (hs : s.bytes = encode cs) (hplain : ∀ c ∈ cs, Plain c)
    (hcls : getclass (gettype (Char.int (chunkHead cls cs))) = some cls)
    (hwire : wire o = Char.byte (chunkHead cls cs) :: chunkBody cls encode cs)
    (hreject : ∀ n, o.CutRejected n ↔ n + (lastText s.bytes).length < (wire o).length)
    (hclass : ∀ elements pairs tag, ∃ g : CString → HessianObject, (∀ s, NotRef (g s)) ∧
      deserializeAs elements pairs cls tag
        = hessianStringDeserialize cls tag >>= fun s => pure (g s)) :
    CutCoded o := by
  refine cutCoded_of _ _ (ht.head_lt cs) hcls hwire fun hmax m hm fuel _ => ?_
  obtain ⟨g, hnot, hg⟩ := hclass (listElements fuel cls []) (mapPairs fuel cls [])
    (Char.int (chunkHead cls cs))
  rw [hwire, List.length_cons] at hmax
  have hcut := cut_string ht hplain (hs ▸ s.nulFree) (by omega) hm
  rw [hg]
  refine (hcut.congr ?_).bind_ends fun s _ => ends_pure (hnot s)
  rw [hreject, hs, lastText_encode, hwire, List.length_cons]
  omega

theorem cutCoded_string {s : CString} (h : WireText s) : CutCoded (.string s) := by
  obtain ⟨⟨cs, hs, hplain⟩, hfits⟩ := h
  refine cutCoded_text hessianStringClass ⟨by decide, by decide, by decide⟩ hs hplain ?_
    (writes_text _ hs hfits).written (fun _ => Iff.rfl) fun _ _ _ =>
      ⟨.string, (fun _ _ h => nomatch h), rfl⟩
  unfold chunkHead
  split <;> decide

theorem cutCoded_xml {s : CString} (h : WireText s) : CutCoded (.xml s) := by
  obtain ⟨⟨cs, hs, hplain⟩, hfits⟩ := h
  refine cutCoded_text hessianXmlClass ⟨by decide, by decide, by decide⟩ hs hplain ?_
    (writes_text _ hs hfits).written (fun _ => Iff.rfl) fun _ _ _ =>
      ⟨.xml, (fun _ _ h => nomatch h), rfl⟩
  unfold chunkHead
  split <;> decide

theorem cutCoded_binary (data : Bytes) : CutCoded (.binary data) := by
  have ht : ChunkTags hessianBinaryClass := ⟨by decide, by decide, by decide⟩
  have hwire := (writes_binary hessianBinaryClass data).written
  refine cutCoded_of _ hessianBinaryClass (ht.head_lt data) ?_ hwire fun hmax m hm fuel _ => ?_
  · unfold chunkHead
    split <;> decide
  have hlen : (wire (.binary data)).length = (chunkBody hessianBinaryClass id data).length + 1 :=
    congrArg List.length hwire
  have hcut := cut_binary ht (by decide) (by omega) hm
  refine (hcut.congr ?_).bind_ends fun _ _ => ends_pure nofun
  show m + 1 + (lastChunk data).length < (wire (.binary data)).length ↔ _
  omega

/-! ## 4. Containers -/

/-- The loop over the elements ends where the input does. -/
theorem ends_listElements_eof {fuel : Nat} (hf : 0 < fuel) (refs : List HessianObject) :
    Ends (listElements fuel hessianListClass refs BUFFER_EOF) [] fun r => r = refs := by
  cases fuel with
  | zero => omega
  | succ fuel =>
    unfold listElements
    rw [if_pos (.inr rfl)]
    exact ends_pure rfl

theorem ends_mapPairs_eof {fuel : Nat} (hf : 0 < fuel)
    (refs : List (HessianObject × HessianObject)) :
    Ends (mapPairs fuel hessianMapClass refs BUFFER_EOF) [] fun _ => True := by
  cases fuel with
  | zero => omega
  | succ fuel =>
    unfold mapPairs
    rw [if_pos (.inr rfl)]
    exact ends_pure trivial

/-- No object stands behind the end of the input. -/
theorem refused_hessianDeserializeTag_eof (fuel : Nat) :
    Refused (hessianDeserializeTag fuel BUFFER_EOF) [] := by
  cases fuel with
  | zero => exact refused_outOfFuel
  | succ fuel =>
    unfold hessianDeserializeTag
    rw [gettype_eof]
    exact refused_fail

theorem known_tag_goes_on {tag : UInt8} (h : gettype (UInt8.int tag) ≠ .unknown) :
    ¬ (UInt8.int tag = Char.int 'z' ∨ UInt8.int tag = BUFFER_EOF) := by
  intro h
  rcases h with hz | heof
  · exact known_tag_ne h (by decide) hz
  · exact int_ne_eof tag heof

/-- The elements of a list, cut off: what is there is taken for the list, unless an element is cut
    where it notices. -/
theorem cut_listElements : ∀ (elements refs : List HessianObject) (fuel : Nat) (b : UInt8)
    (w : Bytes) (m : Nat), (∀ o ∈ elements, Coded o ∧ CutCoded o ∧ o.RefFree) →
    (∀ o ∈ refs, NotRef o) → elements.flatMap wire ++ [Char.byte 'z'] = b :: w →
    (b :: w).length ≤ PTRDIFF_MAX → m < w.length → 2 * m + 3 ≤ fuel →
    Cut (listElements fuel hessianListClass refs (UInt8.int b)) (w.take m)
      (CutElements elements (m + 1)) fun refs => ∀ o ∈ refs, NotRef o
  | [], refs, fuel, b, w, m, _, _, hw, _, hm, _ => by
    obtain ⟨_, rfl⟩ := List.cons.inj hw
    exact absurd hm (Nat.not_lt_zero m)
  | o :: elements, refs, fuel + 1, b, w, m, hcoded, hrefs, hw, hmax, hm, hf => by
    obtain ⟨hco, hcut, hfree⟩ := hcoded o List.mem_cons_self
    have hnot : NotRef o := notRef_of_refFree hfree
    have hrest : ∀ o ∈ elements, Coded o ∧ CutCoded o ∧ o.RefFree :=
      fun o' ho' => hcoded o' (List.mem_cons_of_mem o ho')
    obtain ⟨tag, body, ho, hknown, hread⟩ := hco.reads
    rw [List.flatMap_cons, ho, List.cons_append, List.cons_append, List.append_assoc] at hw
    obtain ⟨rfl, rfl⟩ := List.cons.inj hw
    rw [List.length_cons, List.length_append] at hmax
    rw [List.length_append] at hm
    -- behind an element: its node, then the end of the input
    have hnext (o : HessianObject) (hnot : NotRef o) : Ends (do
        if ← llistAdd then
          let nextTag ← bufferGetc
          listElements fuel hessianListClass (refs ++ [o]) nextTag
        else do
          hessianDelete o
          deleteElements refs
          fail) [] fun refs => ∀ o ∈ refs, NotRef o := by
      refine (ends_calloc (by decide)).bind ?_
      intro _ e
      obtain rfl := e
      rw [if_pos rfl]
      refine ends_bind_getc ((ends_listElements_eof (by omega) _).mono ?_)
      intro _ e o' ho'
      obtain rfl := e
      rcases List.mem_append.mp ho' with h | h
      · exact hrefs o' h
      · rw [List.mem_singleton.mp h]
        exact hnot
    unfold listElements
    rw [if_neg (known_tag_goes_on hknown)]
    rcases Nat.lt_trichotomy m body.length with hlt | heq | hgt
    · -- within the element
      have hobject := hcut (by rw [ho, List.length_cons]; omega) tag body ho m hlt fuel (by omega)
      rw [take_append_of_lt hlt]
      refine ((hobject.congr ?_).onFailure _).bind_ends hnext
      show 0 < m + 1 ∧ m + 1 < (wire o).length ∧ o.CutRejected (m + 1) ∨
        (wire o).length ≤ m + 1 ∧ _ ↔ _
      rw [ho, List.length_cons]
      constructor
      · intro h
        rcases h with ⟨_, _, h⟩ | ⟨h, _⟩
        · exact h
        · omega
      · exact fun h => .inl ⟨by omega, by omega, h⟩
    · -- behind the element
      rw [take_append_of_ge (Nat.le_of_eq heq.symm), heq, Nat.sub_self, List.take_zero]
      refine cut_of_ends ?_ (((hread fuel (by omega)).onFailure _).bind_ends ?_ (hnext o hnot))
      · intro h
        rcases h with ⟨_, h, _⟩ | ⟨_, h⟩
        · rw [ho, List.length_cons] at h
          omega
        · rw [ho, List.length_cons, Nat.sub_self] at h
          exact not_cutElements_zero (fun o' ho' => (hrest o' ho').1) h
      · rw [List.append_nil]
        omega
    · -- in the elements that follow
      obtain ⟨k, rfl⟩ : ∃ k, m = body.length + (k + 1) := ⟨m - body.length - 1, by omega⟩
      rw [take_append_of_ge (by omega), Nat.add_sub_cancel_left]
      cases hbehind : elements.flatMap wire ++ [Char.byte 'z'] with
      | nil => exact absurd hbehind (by simp)
      | cons b' w' =>
        rw [hbehind, List.length_cons] at hm hmax
        have hrefs' : ∀ o' ∈ refs ++ [o], NotRef o' := by
          intro o' ho'
          rcases List.mem_append.mp ho' with h | h
          · exact hrefs o' h
          · rw [List.mem_singleton.mp h]
            exact hnot
        have ih := cut_listElements elements (refs ++ [o]) fuel b' w' k hrest hrefs' hbehind
          (by rw [List.length_cons]; omega) (by omega) (by omega)
        have htake : (w'.take k).length ≤ k := List.length_take_le _ _
        rw [List.take_succ_cons]
        refine ((hread fuel (by omega)).onFailure _).bind_cut ?_ ?_
        · rw [List.length_append, List.length_cons]
          omega
        refine Reads.bind_nil_cut (reads_calloc (by decide)) ?_ ?_
        · rw [List.length_cons]
          omega
        rw [if_pos rfl]
        refine Reads.bind_cut (v := [_]) (reads_getc _) ?_ (ih.congr ?_)
        · rw [List.length_append, List.length_singleton]
          omega
        · show 0 < _ ∧ _ < (wire o).length ∧ o.CutRejected _ ∨ (wire o).length ≤ _ ∧
            CutElements elements (_ - (wire o).length) ↔ _
          rw [ho, List.length_cons,
            show body.length + (k + 1) + 1 - (body.length + 1) = k + 1 by omega]
          constructor
          · intro h
            rcases h with ⟨_, h, _⟩ | ⟨_, h⟩
            · omega
            · exact h
          · exact fun h => .inr ⟨by omega, h⟩

/-- The last loop over the elements. -/
theorem ends_linkElements (n : Nat) : ∀ {elements : List HessianObject},
    (∀ o ∈ elements, NotRef o) → Ends (linkElements n elements) [] fun _ => True
  | [], _ => ends_pure trivial
  | o :: rest, h => by
    have hindex : refIndex n 0 o = some 0 := by
      cases o with
      | ref value => exact absurd rfl (h _ List.mem_cons_self value)
      | _ => rfl
    have hvisit : Ends (visit fun s => .linkElement n o s.mem) [] fun _ => True :=
      fun s hmem hs => ⟨(), _, rfl, trivial, hs, hmem⟩
    unfold linkElements
    refine hvisit.bind fun _ _ => ?_
    rw [hindex, Option.isNone_some, if_neg Bool.false_ne_true]
    refine (ends_calloc (by decide)).bind ?_
    intro _ e
    obtain rfl := e
    exact ends_linkElements n fun o' ho' => h o' (List.mem_cons_of_mem o ho')

theorem ends_linkPairs : ∀ pairs : List (HessianObject × HessianObject),
    Ends (linkPairs pairs) [] fun _ => True
  | [] => ends_pure trivial
  | _ :: rest => by
    unfold linkPairs
    refine (ends_calloc (by decide)).bind ?_
    intro _ e
    obtain rfl := e
    exact ends_linkPairs rest

/-- What follows the loop of a list. -/
theorem ends_listEnd (type : Option CString) {refs : List HessianObject}
    (h : ∀ o ∈ refs, NotRef o) : Ends (do
      if ← llistCreate then
        linkElements refs.length refs
        pure (type, refs)
      else do
        deleteElements refs
        fail) [] fun _ => True := by
  refine (ends_calloc (by decide)).bind ?_
  intro _ e
  obtain rfl := e
  exact (ends_linkElements _ h).bind fun _ _ => ends_pure trivial

/-- What follows the loop of a map. -/
theorem ends_mapEnd (type : Option CString) (refs : List (HessianObject × HessianObject)) :
    Ends (do
      if ← llistCreate then
        linkPairs refs
        pure (type, refs)
      else do
        deletePairs refs
        fail) [] fun _ => True := by
  refine (ends_calloc (by decide)).bind ?_
  intro _ e
  obtain rfl := e
  exact (ends_linkPairs _).bind fun _ _ => ends_pure trivial

theorem typeField_length_of_isSome {type : Option CString} (h : type.isSome = true) :
    3 ≤ (typeField type).length := by
  cases type with
  | none => cases h
  | some text =>
    rw [show typeField (some text) = Char.byte 't' :: textBody text from rfl, List.length_cons,
      textBody_length]
    omega

theorem cutCoded_list {type : Option CString} {elements : List HessianObject}
    (htype : ShortType type) (hcount : elements.length < 2 ^ 31)
    (hcoded : ∀ o ∈ elements, Coded o ∧ CutCoded o ∧ o.RefFree) :
    CutCoded (.list type elements) := by
  have hwire := (writes_list htype.fitsInt (Nat.le_pred_of_lt hcount)
    fun o ho => (hcoded o ho).1.writes).written
  refine cutCoded_of 'V' hessianListClass (by decide) (by decide) hwire
    fun hmax m hm fuel hf => ?_
  have hlen : (wire (.list type elements)).length = (typeField type
      ++ (lengthField elements.length ++ (elements.flatMap wire ++ [Char.byte 'z']))).length + 1 :=
    congrArg List.length hwire
  rw [hlen] at hmax
  cases hw : elements.flatMap wire ++ [Char.byte 'z'] with
  | nil => exact absurd hw (by simp)
  | cons b w =>
    have hfirst := elements_head fun o ho => (hcoded o ho).1
    cases hw' : lengthField elements.length ++ b :: w with
    | nil => exact absurd hw' (by simp)
    | cons b' w' =>
      have hb' : UInt8.int b' ≠ Char.int 't' := behindType_ne hfirst hw hw'
      have hlenW := congrArg List.length hw'
      rw [List.length_append, List.length_cons, List.length_cons] at hlenW
      rw [hw, hw', List.length_append, List.length_cons] at hmax hm
      have hnone : ¬ CutElements elements 0 := not_cutElements_zero fun o ho => (hcoded o ho).1
      -- the places, by the part of the list the cut is in
      have hreject (n : Nat) : (HessianObject.list type elements).CutRejected n ↔
          n = 0 ∨ type.isSome = true ∧ (n = 2 ∨ n = 3) ∨ CutElements elements
            (n - (1 + (typeField type).length + (lengthField elements.length).length)) := Iff.rfl
      have hend (type : Option CString) (refs : List HessianObject) (h : ∀ o ∈ refs, NotRef o) :=
        ends_listEnd type h
      have hlist : Cut (hessianListDeserialize (listElements fuel hessianListClass [])
          hessianListClass (Char.int 'V')) ((typeField type ++ b' :: w').take m)
          ((HessianObject.list type elements).CutRejected (m + 1)) fun _ => True := by
        unfold hessianListDeserialize
        rw [if_neg (not_not.mpr rfl)]
        refine Reads.bind_nil_cut (reads_calloc (by decide)) ?_ ?_
        · rw [List.length_take, List.length_append, List.length_cons]
          omega
        rw [if_pos rfl]
        refine cut_optionalType htype ?_ hb' (fun type => ?_) (fun hle => ?_) fun k hk => ?_
        · rw [List.length_append, List.length_cons]
          omega
        · unfold getOptionalLength
          dsimp only
          rw [if_neg (by decide), pure_bind]
          refine (ends_listElements_eof (by omega) []).bind ?_
          intro _ e
          obtain rfl := e
          exact hend type [] fun _ h => absurd h List.not_mem_nil
        · rw [hreject, show m + 1 - (1 + (typeField type).length
            + (lengthField elements.length).length) = 0 by omega]
          constructor
          · intro h
            rcases h with h | ⟨hs, h⟩ | h
            · omega
            · exact ⟨hs, by omega⟩
            · exact absurd h hnone
          · intro h
            obtain ⟨hs, h⟩ := h
            exact .inr (.inl ⟨hs, by omega⟩)
        · have hheader : ¬ (m + 1 = 0 ∨ type.isSome = true ∧ (m + 1 = 2 ∨ m + 1 = 3)) := by
            intro h
            rcases h with h | ⟨hs, h⟩
            · omega
            · have := typeField_length_of_isSome hs
              omega
          refine cut_optionalLength hw' (by omega)
            (behindHead_ne hfirst hw (by decide) (by decide)) ?_ (fun hshort => ?_) fun j hj => ?_
          · refine (ends_listElements_eof (by omega) []).bind ?_
            intro _ e
            obtain rfl := e
            exact hend type [] fun _ h => absurd h List.not_mem_nil
          · rw [hreject, show m + 1 - (1 + (typeField type).length
              + (lengthField elements.length).length) = 0 by omega]
            intro h
            rcases h with h | h | h
            · exact hheader (.inl h)
            · exact hheader (.inr h)
            · exact hnone h
          · have hcut := cut_listElements elements [] fuel b w j hcoded
              (fun _ h => absurd h List.not_mem_nil) hw
              (by rw [List.length_cons]; omega) (by omega) (by omega)
            refine (hcut.congr ?_).bind_ends fun refs hrefs => hend type refs hrefs
            rw [hreject, show m + 1 - (1 + (typeField type).length
              + (lengthField elements.length).length) = j + 1 by omega]
            constructor
            · intro h
              rcases h with h | h | h
              · exact absurd (.inl h) hheader
              · exact absurd (.inr h) hheader
              · exact h
            · exact fun h => .inr (.inr h)
      exact hlist.bind_ends fun parts _ => ends_pure fun _ => HessianObject.noConfusion

/-- The pairs of a map, cut off: what is there is taken for the map, unless the cut is in a key,
    before a value, or in a value where it notices. -/
theorem cut_mapPairs : ∀ (pairs refs : List (HessianObject × HessianObject)) (fuel : Nat)
    (b : UInt8) (w : Bytes) (m : Nat),
    (∀ kv ∈ pairs, (Coded kv.1 ∧ Coded kv.2) ∧ CutCoded kv.1 ∧ CutCoded kv.2) →
    wirePairs pairs ++ [Char.byte 'z'] = b :: w → (b :: w).length ≤ PTRDIFF_MAX → m < w.length →
    2 * m + 3 ≤ fuel →
    Cut (mapPairs fuel hessianMapClass refs (UInt8.int b)) (w.take m) (CutPairs pairs (m + 1))
      fun _ => True
  | [], refs, fuel, b, w, m, _, hw, _, hm, _ => by
    obtain ⟨_, rfl⟩ := List.cons.inj hw
    exact absurd hm (Nat.not_lt_zero m)
  | (key, value) :: pairs, refs, fuel + 1, b, w, m, hcoded, hw, hmax, hm, hf => by
    obtain ⟨⟨hkey, hvalue⟩, hcutKey, hcutValue⟩ :
        (Coded key ∧ Coded value) ∧ CutCoded key ∧ CutCoded value :=
      hcoded (key, value) List.mem_cons_self
    have hrest : ∀ kv ∈ pairs, (Coded kv.1 ∧ Coded kv.2) ∧ CutCoded kv.1 ∧ CutCoded kv.2 :=
      fun kv hkv => hcoded kv (List.mem_cons_of_mem _ hkv)
    obtain ⟨tag, body, hk, hknown, hreadKey⟩ := hkey.reads
    obtain ⟨tag', body', hv, hknown', hreadValue⟩ := hvalue.reads
    rw [wirePairs_cons, hk, hv] at hw
    simp only [List.cons_append, List.append_assoc] at hw
    obtain ⟨rfl, rfl⟩ := List.cons.inj hw
    rw [List.length_cons, List.length_append, List.length_cons, List.length_append] at hmax
    rw [List.length_append, List.length_cons, List.length_append] at hm
    have hreject (n : Nat) : CutPairs ((key, value) :: pairs) n ↔
        0 < n ∧ n ≤ body.length + 1 ∨
          body.length + 1 < n ∧ n < body.length + 1 + (body'.length + 1) ∧
            value.CutRejected (n - (body.length + 1)) ∨
          body.length + 1 + (body'.length + 1) ≤ n ∧
            CutPairs pairs (n - (body.length + 1 + (body'.length + 1))) := by
      show (0 < n ∧ n ≤ (wire key).length ∨ (wire key).length < n ∧
        n < (wire key).length + (wire value).length ∧
          value.CutRejected (n - (wire key).length) ∨
        (wire key).length + (wire value).length ≤ n ∧
          CutPairs pairs (n - ((wire key).length + (wire value).length))) ↔ _
      rw [hk, hv, List.length_cons, List.length_cons]
    -- behind a key: the end of the input, where a value has to be
    have hnoValue (key : HessianObject) : Refused (do
        let nextTag ← bufferGetc
        let value ← (hessianDeserializeTag fuel nextTag).onFailure (do
          hessianDelete key
          deletePairs refs)
        if ← calloc 16 then
          if ← llistAdd then
            let nextTag ← bufferGetc
            mapPairs fuel hessianMapClass (refs ++ [(key, value)]) nextTag
          else do
            hessianDelete key
            hessianDelete value
            deletePairs refs
            fail
        else do
          hessianDelete key
          hessianDelete value
          deletePairs refs
          fail) [] :=
      refused_bind_getc ((refused_hessianDeserializeTag_eof fuel).onFailure _).bind
    -- behind a value: the pair, its node, then the end of the input
    have hnext (value : HessianObject) : Ends (do
        if ← calloc 16 then
          if ← llistAdd then
            let nextTag ← bufferGetc
            mapPairs fuel hessianMapClass (refs ++ [(key, value)]) nextTag
          else do
            hessianDelete key
            hessianDelete value
            deletePairs refs
            fail
        else do
          hessianDelete key
          hessianDelete value
          deletePairs refs
          fail) [] fun _ => True := by
      refine (ends_calloc (by decide)).bind ?_
      intro _ e
      obtain rfl := e
      refine (ends_calloc (by decide)).bind ?_
      intro _ e
      obtain rfl := e
      exact ends_bind_getc (ends_mapPairs_eof (by omega) _)
    unfold mapPairs
    rw [if_neg (known_tag_goes_on hknown)]
    rcases Nat.lt_trichotomy m body.length with hlt | heq | hgt
    · -- within the key
      have hcut := hcutKey (by rw [hk, List.length_cons]; omega) tag body hk m hlt fuel (by omega)
      rw [take_append_of_lt hlt]
      refine cut_of_refused ((hreject _).mpr (.inl ⟨by omega, by omega⟩)) ?_
      by_cases hR : key.CutRejected (m + 1)
      · exact ((hcut.refused hR).onFailure _).bind
      · exact ((hcut.ends hR).onFailure _).bind_refused fun key _ => hnoValue key
    · -- behind the key
      rw [take_append_of_ge (Nat.le_of_eq heq.symm), heq, Nat.sub_self, List.take_zero]
      refine cut_of_refused ((hreject _).mpr (.inl ⟨by omega, by omega⟩))
        (((hreadKey fuel (by omega)).onFailure _).bind_refused ?_ (hnoValue key))
      rw [List.append_nil]
      omega
    obtain ⟨k, rfl⟩ : ∃ k, m = body.length + (k + 1) := ⟨m - body.length - 1, by omega⟩
    rw [take_append_of_ge (by omega), Nat.add_sub_cancel_left, List.take_succ_cons]
    refine ((hreadKey fuel (by omega)).onFailure _).bind_cut ?_
      (Reads.bind_cut (v := [_]) (reads_getc _) ?_ ?_)
    · rw [List.length_append, List.length_cons, List.length_take]
      omega
    · rw [List.length_append, List.length_singleton, List.length_take]
      omega
    rcases Nat.lt_trichotomy k body'.length with hlt | heq | hgt
    · -- within the value
      have hcut := hcutValue (by rw [hv, List.length_cons]; omega) tag' body' hv k hlt fuel (by omega)
      rw [take_append_of_lt hlt]
      refine ((hcut.congr ?_).onFailure _).bind_ends fun value _ => hnext value
      rw [hreject, show body.length + (k + 1) + 1 - (body.length + 1) = k + 1 by omega]
      constructor
      · intro h
        rcases h with h | ⟨_, _, h⟩ | ⟨h, _⟩
        · omega
        · exact h
        · omega
      · exact fun h => .inr (.inl ⟨by omega, by omega, h⟩)
    · -- behind the value
      rw [take_append_of_ge (Nat.le_of_eq heq.symm), heq, Nat.sub_self, List.take_zero]
      refine cut_of_ends ?_ (((hreadValue fuel (by omega)).onFailure _).bind_ends ?_ (hnext value))
      · rw [hreject, show body.length + (body'.length + 1) + 1
          - (body.length + 1 + (body'.length + 1)) = 0 by omega]
        intro h
        rcases h with h | ⟨_, h, _⟩ | ⟨_, h⟩
        · omega
        · omega
        · exact not_cutPairs_zero (fun kv hkv => (hrest kv hkv).1) h
      · rw [List.append_nil]
        omega
    · -- in the pairs that follow
      obtain ⟨j, rfl⟩ : ∃ j, k = body'.length + (j + 1) := ⟨k - body'.length - 1, by omega⟩
      rw [take_append_of_ge (by omega), Nat.add_sub_cancel_left]
      cases hbehind : wirePairs pairs ++ [Char.byte 'z'] with
      | nil => exact absurd hbehind (by simp)
      | cons b' w' =>
        rw [hbehind, List.length_cons] at hm hmax
        have ih := cut_mapPairs pairs (refs ++ [(key, value)]) fuel b' w' j hrest hbehind
          (by rw [List.length_cons]; omega) (by omega) (by omega)
        rw [List.take_succ_cons]
        refine ((hreadValue fuel (by omega)).onFailure _).bind_cut ?_ ?_
        · rw [List.length_append, List.length_cons, List.length_take]
          omega
        refine Reads.bind_nil_cut (reads_calloc (by decide)) ?_ ?_
        · rw [List.length_cons, List.length_take]
          omega
        rw [if_pos rfl]
        refine Reads.bind_nil_cut (reads_calloc (by decide)) ?_ ?_
        · rw [List.length_cons, List.length_take]
          omega
        rw [if_pos rfl]
        refine Reads.bind_cut (v := [_]) (reads_getc _) ?_ (ih.congr ?_)
        · rw [List.length_append, List.length_singleton, List.length_take]
          omega
        · rw [hreject, show body.length + (body'.length + (j + 1) + 1) + 1
            - (body.length + 1 + (body'.length + 1)) = j + 1 by omega]
          constructor
          · intro h
            rcases h with h | ⟨_, h, _⟩ | ⟨_, h⟩
            · omega
            · omega
            · exact h
          · exact fun h => .inr (.inr ⟨by omega, h⟩)

theorem cutCoded_map {type : Option CString} {pairs : List (HessianObject × HessianObject)}
    (htype : ShortType type) (hcount : pairs.length < 2 ^ 31)
    (hcoded : ∀ kv ∈ pairs, (Coded kv.1 ∧ Coded kv.2) ∧ CutCoded kv.1 ∧ CutCoded kv.2) :
    CutCoded (.map type pairs) := by
  have hwire := (writes_map htype.fitsInt (Nat.le_pred_of_lt hcount) fun kv hkv =>
    ⟨(hcoded kv hkv).1.1.writes, (hcoded kv hkv).1.2.writes⟩).written
  refine cutCoded_of 'M' hessianMapClass (by decide) (by decide) hwire
    fun hmax m hm fuel hf => ?_
  have hlen : (wire (.map type pairs)).length
      = (typeField type ++ (wirePairs pairs ++ [Char.byte 'z'])).length + 1 :=
    congrArg List.length hwire
  rw [hlen] at hmax
  cases hw : wirePairs pairs ++ [Char.byte 'z'] with
  | nil => exact absurd hw (by simp)
  | cons b w =>
    have hfirst := pairs_head fun kv hkv => (hcoded kv hkv).1.1
    rw [hw, List.length_append, List.length_cons] at hmax hm
    have hnone : ¬ CutPairs pairs 0 := not_cutPairs_zero fun kv hkv => (hcoded kv hkv).1
    -- the places, by the part of the map the cut is in
    have hreject (n : Nat) : (HessianObject.map type pairs).CutRejected n ↔
        n = 0 ∨ type.isSome = true ∧ (n = 2 ∨ n = 3) ∨
          CutPairs pairs (n - (1 + (typeField type).length)) := Iff.rfl
    have hmap : Cut (hessianMapDeserialize (mapPairs fuel hessianMapClass []) hessianMapClass
        (Char.int 'M')) ((typeField type ++ b :: w).take m)
        ((HessianObject.map type pairs).CutRejected (m + 1)) fun _ => True := by
      unfold hessianMapDeserialize
      rw [if_neg (not_not.mpr rfl)]
      refine Reads.bind_nil_cut (reads_calloc (by decide)) ?_ ?_
      · rw [List.length_take, List.length_append, List.length_cons]
        omega
      rw [if_pos rfl]
      refine cut_optionalType htype ?_ (behindHead_ne hfirst hw (by decide) (by decide))
        (fun type => ?_) (fun hle => ?_) fun k hk => ?_
      · rw [List.length_append, List.length_cons]
        omega
      · exact (ends_mapPairs_eof (by omega) []).bind fun refs _ => ends_mapEnd type refs
      · rw [hreject, show m + 1 - (1 + (typeField type).length) = 0 by omega]
        constructor
        · intro h
          rcases h with h | ⟨hs, h⟩ | h
          · omega
          · exact ⟨hs, by omega⟩
          · exact absurd h hnone
        · exact fun ⟨hs, h⟩ => .inr (.inl ⟨hs, by omega⟩)
      · have hcut := cut_mapPairs pairs [] fuel b w k hcoded hw
          (by rw [List.length_cons]; omega) (by omega) (by omega)
        refine (hcut.congr ?_).bind_ends fun refs _ => ends_mapEnd type refs
        rw [hreject, show m + 1 - (1 + (typeField type).length) = k + 1 by omega]
        constructor
        · intro h
          rcases h with h | ⟨hs, h⟩ | h
          · omega
          · have := typeField_length_of_isSome hs
            omega
          · exact h
        · exact fun h => .inr (.inr h)
    exact hmap.bind_ends fun parts _ => ends_pure nofun

/-! ## 5. Messages -/

mutual
theorem cutCoded_of_carried : ∀ {o : HessianObject}, o.Carried → CutCoded o
  | .null, _ => cutCoded_short (writes_putc _).written
  | .boolean true, _ => cutCoded_short (writes_putc _).written
  | .boolean false, _ => cutCoded_short (writes_putc _).written
  | .integer value, _ => cutCoded_integer value
  | .long value, _ => cutCoded_long value
  | .date value, _ => cutCoded_date value
  | .double value, _ => cutCoded_double value
  | .string _, h => cutCoded_string h
  | .xml _, h => cutCoded_xml h
  | .binary data, _ => cutCoded_binary data
  | .remote _ _, ⟨_, _, htype, hurl, ht, hu⟩ => by
    rw [htype, hurl]
    exact cutCoded_remote ht hu
  | .list _ _, ⟨htype, hcount, hall⟩ =>
    cutCoded_list htype hcount fun o ho => ⟨coded_of_carriedElements hall o ho,
      cutCoded_of_carriedElements hall o ho, refFree_of_mem (refFree_of_carriedElements hall) ho⟩
  | .map _ _, ⟨htype, hcount, hall⟩ =>
    cutCoded_map htype hcount fun kv hkv => ⟨coded_of_carriedPairs hall kv hkv,
      cutCoded_of_carriedPairs hall kv hkv⟩
  | .ref _, h => h.elim

theorem cutCoded_of_carriedElements : ∀ {elements : List HessianObject},
    CarriedElements elements → ∀ o ∈ elements, CutCoded o
  | [], _, _, hmem => nomatch hmem
  | object :: _, ⟨ho, hrest⟩, o, hmem => by
    rcases List.mem_cons.mp hmem with he | hmem
    · exact he ▸ cutCoded_of_carried ho
    · exact cutCoded_of_carriedElements hrest o hmem

theorem cutCoded_of_carriedPairs : ∀ {pairs : List (HessianObject × HessianObject)},
    CarriedPairs pairs → ∀ kv ∈ pairs, CutCoded kv.1 ∧ CutCoded kv.2
  | [], _, _, hmem => nomatch hmem
  | (_, _) :: _, ⟨hk, hv, hrest⟩, kv, hmem => by
    rcases List.mem_cons.mp hmem with he | hmem
    · exact he ▸ ⟨cutCoded_of_carried hk, cutCoded_of_carried hv⟩
    · exact cutCoded_of_carriedPairs hrest kv hmem
end

/-- A cut before the tag is noticed. -/
theorem cutRejected_zero {o : HessianObject} (h : o.Carried) : o.CutRejected 0 := by
  cases o with
  | string s =>
    obtain ⟨⟨cs, hs, _⟩, hfits⟩ := h
    have hlast := lastChunk_length_le hessianStringClass encode cs
    show 0 + (lastText s.bytes).length < (wire (.string s)).length
    rw [show wire (.string s) = _ from (writes_text hessianStringClass hs hfits).written, hs,
      lastText_encode, List.length_cons]
    omega
  | xml s =>
    obtain ⟨⟨cs, hs, _⟩, hfits⟩ := h
    have hlast := lastChunk_length_le hessianXmlClass encode cs
    show 0 + (lastText s.bytes).length < (wire (.xml s)).length
    rw [show wire (.xml s) = _ from (writes_text hessianXmlClass hs hfits).written, hs,
      lastText_encode, List.length_cons]
    omega
  | binary data =>
    have hlast := lastChunk_length_le hessianBinaryClass id data
    simp only [id_eq] at hlast
    show 0 + (lastChunk data).length < (wire (.binary data)).length
    rw [show wire (.binary data) = _ from (writes_binary hessianBinaryClass data).written,
      List.length_cons]
    omega
  | remote type url =>
    show 0 < 5 + _
    omega
  | list type elements => exact .inl rfl
  | map type pairs => exact .inl rfl
  | ref value => exact h.elim
  | _ => rfl

/-- The whole parser on cut bytes. -/
theorem cut_hessianDeserialize {o : HessianObject} (h : o.Carried)
    (hmax : (wire o).length ≤ PTRDIFF_MAX) {n : Nat} (hn : n < (wire o).length) :
    Cut hessianDeserialize ((wire o).take n) (o.CutRejected n) fun _ => True := by
  obtain ⟨tag, body, hwire, _⟩ := (coded_of_carried h).reads
  have hcut := cutCoded_of_carried h hmax tag body hwire
  rw [hwire, List.length_cons] at hmax hn
  rw [hwire]
  unfold hessianDeserialize
  cases n with
  | zero =>
    refine cut_of_refused (cutRejected_zero h) (refused_bind_getc ?_)
    have hread : Ends read [] fun _ => True := fun s hmem hs => ⟨s, s, rfl, trivial, hs, hmem⟩
    exact hread.bind_refused fun s _ => (refused_hessianDeserializeTag_eof _).bind
  | succ m =>
    have hlen : (body.take m).length = m := by
      rw [List.length_take]
      omega
    rw [List.take_succ_cons]
    refine Reads.bind_cut (v := [_]) (reads_getc _) ?_ ?_
    · rw [List.length_append, List.length_singleton, hlen]
      omega
    refine Cut.bind_read (fun n => hessianDeserializeTag (2 * n + 2) (UInt8.int tag)
      >>= fun object => pure object.resolved) ?_
    rw [hlen]
    exact (hcut m (by omega) _ (Nat.le_refl _)).bind_ends fun _ _ => ends_pure trivial

/-- **A cut of the bytes of a tree is noticed exactly at the places of `CutRejected`**: there
    `hessian_deserialize` returns no object (NULL, or it crashes), anywhere else it does. -/
theorem rejects_cut_iff (o : HessianObject) (h : o.Carried) (w : Bytes)
    (hw : hessianSerialize o [] = .done () w) (hmax : w.length ≤ PTRDIFF_MAX) (n : Nat)
    (hn : n < w.length) :
    Rejects hessianDeserialize (Reader.start (w.take n) Mem.generous) ↔ o.CutRejected n := by
  have hwire : w = wire o := by
    have := (coded_of_carried h).writes []
    rw [hw] at this
    injection this
  subst hwire
  have hcut := cut_hessianDeserialize h hmax hn
  constructor
  · intro hrejects
    by_contra hR
    obtain ⟨a, t, hrun, _⟩ := hcut.ends hR (Reader.start ((wire o).take n) Mem.generous) rfl rfl
    exact hrejects a t hrun
  · exact fun hR => hcut.refused hR _ rfl rfl

end ArgusPep
