/-
  File:      ArgusPep/Argus/CutMessages.lean
  Subject:   What becomes of messages that were cut off, in argus/io.c.

  * `ends_behindType` -- cut behind its type, a Map is returned without pairs;
  * `response_cut` -- so **a response, whatever is in it, is taken for an empty one** when its map
    is cut there;
  * **`cutMessages_iff`** -- the trees of which no cut is accepted, the responses, and the places
    at which a cut is noticed.
-/
import ArgusPep.Argus.Unmarshal
import ArgusPep.Hessian.CutTrees

namespace ArgusPep

open Lib Run Utf8 Reading

/-! ## 1. A Map that is cut behind its type -/

section BehindType

variable {text : CString}

theorem ends_mapBehindType (h : ShortText text) (fuel : Nat)
    (hlen : (textField 't' text).length ≤ PTRDIFF_MAX) :
    Ends (hessianMapDeserialize (mapPairs (fuel + 1) hessianMapClass []) hessianMapClass
      (Char.int 'M')) (textField 't' text) fun parts => parts = (some text, []) := by
  have hfield : textField 't' text = [Char.byte 't'] ++ (textBody text ++ []) := by
    rw [List.append_nil]
    rfl
  have hbody : (textBody text ++ []).length ≤ PTRDIFF_MAX := by
    rw [hfield, List.length_append] at hlen
    omega
  unfold hessianMapDeserialize
  rw [if_neg (not_not.mpr rfl)]
  refine Reads.bind_ends (reads_calloc (by decide)) (v := []) (w := textField 't' text) hlen ?_
  rw [if_pos rfl, hfield]
  refine Reads.bind_ends (reads_getc _) (hfield ▸ hlen) ?_
  rw [int_byte (by decide)]
  unfold getOptionalType
  rw [if_pos rfl, bind_assoc]
  refine Reads.bind_ends (reads_textBody h) hbody ?_
  dsimp only
  rw [bind_assoc]
  refine ends_bind_getc ?_
  rw [pure_bind, CString.ofArray_eq]
  -- the loop ends with the input, and there is nothing to link
  refine Ends.bind (P := fun refs => refs = []) ?_ ?_
  · unfold mapPairs
    rw [if_pos (.inr rfl)]
    exact ends_pure rfl
  · intro _ e
    obtain rfl := e
    refine (ends_calloc (by decide)).bind ?_
    intro _ e
    obtain rfl := e
    exact ends_pure rfl

/-- The first bytes of a Map with a type. -/
def mapHead (text : CString) : Bytes := Char.byte 'M' :: textField 't' text

theorem ends_behindType (h : ShortText text) (hlen : (mapHead text).length ≤ PTRDIFF_MAX) :
    Ends hessianDeserialize (mapHead text) fun o => o = .map (some text) [] := by
  have hfield : (textField 't' text).length ≤ PTRDIFF_MAX :=
    Nat.le_trans (Nat.le_succ _) hlen
  have htag (fuel : Nat) : Ends (hessianDeserializeTag (fuel + 2) (Char.int 'M'))
      (textField 't' text) fun o => o = .map (some text) [] := by
    rw [hessianDeserializeTag]
    refine Reads.bind_ends (reads_calloc (n := hessianMapClass.size) (by decide)) (v := [])
      (w := textField 't' text) hfield ?_
    rw [if_pos rfl]
    refine (ends_mapBehindType h fuel hfield).bind ?_
    intro _ e
    obtain rfl := e
    exact ends_pure rfl
  unfold hessianDeserialize
  refine Reads.bind_ends (v := [Char.byte 'M']) (w := textField 't' text) (reads_getc _) hlen ?_
  rw [int_byte (by decide)]
  intro s hmem hs
  obtain ⟨o, t, hrun, rfl, ht⟩ := htag (2 * s.input.length) s hmem hs
  refine ⟨_, t, ?_, rfl, ht⟩
  show (hessianDeserializeTag (2 * s.input.length + 2) (Char.int 'M') >>= _) s = _
  rw [bind_done hrun]
  rfl

end BehindType

/-- A Map with a type is written with bytes behind it. -/
theorem mapHead_of_done {text : CString} {pairs : List (HessianObject × HessianObject)} {w : Bytes}
    (hw : hessianSerialize (.map (some text) pairs) [] = .done () w) :
    ∃ x, x ≠ [] ∧ w = mapHead text ++ x := by
  have hfits := (countersFit_of_done hw).1
  rw [hessianSerialize] at hw
  obtain ⟨_, _, hputc, hw⟩ := bind_eq_done hw
  cases hputc
  obtain ⟨_, _, htype, hw⟩ := bind_eq_done hw
  rw [writes_type hfits] at htype
  cases htype
  obtain ⟨_, v, hpairs, hw⟩ := bind_eq_done hw
  cases hw
  obtain ⟨y, rfl⟩ := appends_done (appends_serializePairs pairs 0) hpairs
  refine ⟨y ++ [putc (Char.int 'z')], by simp, ?_⟩
  show (([] ++ [putc (Char.int 'M')]) ++ textField 't' text ++ y) ++ [putc (Char.int 'z')] = _
  rw [List.nil_append, putc_char, List.append_assoc]
  rfl

/-- **Cut behind its type, a response is accepted as one without results.** -/
theorem response_cut {pairs : List (HessianObject × HessianObject)} {w : Bytes}
    (hw : hessianSerialize (.map (some XACML_HESSIAN_RESPONSE_CLASSNAME) pairs) [] = .done () w) :
    ∃ n < w.length, xacmlResponseUnmarshalling (w.take n) Mem.generous
      = some (.ok, some xacmlResponseCreate) := by
  obtain ⟨x, hx, rfl⟩ := mapHead_of_done hw
  refine ⟨(mapHead XACML_HESSIAN_RESPONSE_CLASSNAME).length, ?_, ?_⟩
  · rw [List.length_append]
    exact Nat.lt_add_of_pos_right (List.length_pos_iff.mpr hx)
  · have hshort : ShortText XACML_HESSIAN_RESPONSE_CLASSNAME :=
      AsciiText.shortType (by decide) (by decide) _ rfl
    obtain ⟨o, t, hrun, rfl, -⟩ := ends_behindType hshort (by decide)
      (Reader.start (mapHead XACML_HESSIAN_RESPONSE_CLASSNAME) Mem.generous) rfl rfl
    rw [List.take_left]
    unfold xacmlResponseUnmarshalling
    rw [hrun]
    rfl

/-! ## 2. All cuts -/

/-- **What becomes of the cuts of a message**: NULL is returned for all of them exactly for the
    trees of `CutsNoticed`; a response is always accepted at one of them, as an empty one; and for a
    tree that is read back whole, `CutRejected` gives the places. -/
theorem cutMessages_iff {o : HessianObject} {w : Bytes} (hw : hessianSerialize o [] = .done () w) :
    (CutsRejected w ↔ o.CutsNoticed) ∧
      (∀ pairs, o = .map (some XACML_HESSIAN_RESPONSE_CLASSNAME) pairs →
        ∃ n < w.length, xacmlResponseUnmarshalling (w.take n) Mem.generous
          = some (.ok, some xacmlResponseCreate)) ∧
      (o.Carried → w.length ≤ PTRDIFF_MAX → ∀ n < w.length,
        (Rejects hessianDeserialize (Reader.start (w.take n) Mem.generous) ↔ o.CutRejected n)) := by
  refine ⟨cutsRejected_iff hw, ?_, fun h hmax n hn => rejects_cut_iff o h w hw hmax n hn⟩
  rintro pairs rfl
  exact response_cut hw

/-- A list of the type "a", without elements. -/
def typedList : Bytes := [Char.byte 'V', Char.byte 't', 0, 1, Char.byte 'a', Char.byte 'z']

/-- A response with one result. -/
def oneResult : HessianObject :=
  .map (some XACML_HESSIAN_RESPONSE_CLASSNAME)
    [(.string XACML_HESSIAN_RESPONSE_RESULTS,
      .list none [.map (some XACML_HESSIAN_RESULT_CLASSNAME) []])]

theorem carried_oneResult : oneResult.Carried := by
  have hkey : WireText XACML_HESSIAN_RESPONSE_RESULTS := NameText.wireText (by decide)
  have hresult : (HessianObject.map (some XACML_HESSIAN_RESULT_CLASSNAME) []).Carried :=
    ⟨AsciiText.shortType (by decide) (by decide), by decide, trivial⟩
  exact ⟨AsciiText.shortType (by decide) (by decide), by decide, hkey,
    ⟨(fun _ h => nomatch h), by decide, hresult, trivial⟩, trivial⟩

/-- The list is returned when it is cut behind its tag, and not when it is cut in the length of its
    type; the response loses its result. -/
theorem cutMessages_iff_typedList :
    (¬CutsRejected typedList ∧
      ¬Rejects hessianDeserialize (Reader.start (typedList.take 1) Mem.generous) ∧
      Rejects hessianDeserialize (Reader.start (typedList.take 3) Mem.generous)) ∧
    ∃ w, hessianSerialize oneResult [] = .done () w ∧ ¬CutsRejected w ∧
      ∃ n < w.length, xacmlResponseUnmarshalling (w.take n) Mem.generous
        = some (.ok, some xacmlResponseCreate) := by
  have hw : hessianSerialize (.list (some (CString.lit "a")) []) [] = .done () typedList := rfl
  have hcarried : (HessianObject.list (some (CString.lit "a")) []).Carried :=
    ⟨AsciiText.shortType (by decide) (by decide), by decide, trivial⟩
  obtain ⟨hcuts, -, hplaces⟩ := cutMessages_iff hw
  refine ⟨⟨hcuts.not.mpr id, ?_, ?_⟩, ?_⟩
  · refine (hplaces hcarried (by decide) 1 (by decide)).not.mpr ?_
    intro h
    rcases h with h | ⟨_, h⟩ | h
    · cases h
    · omega
    · exact h
  · exact (hplaces hcarried (by decide) 3 (by decide)).mpr (.inr (.inl ⟨rfl, .inr rfl⟩))
  · obtain ⟨w, hw⟩ : ∃ w, hessianSerialize oneResult [] = .done () w :=
      ⟨_, (coded_of_carried carried_oneResult).writes []⟩
    obtain ⟨hcuts, hresponse, -⟩ := cutMessages_iff hw
    exact ⟨w, hw, hcuts.not.mpr id, hresponse _ rfl⟩

/-- The bytes of a list with the number 1. -/
def listOfOne : Bytes :=
  [Char.byte 'V', Char.byte 'l', 0, 0, 0, 1, Char.byte 'I', 0, 0, 0, 1, Char.byte 'z']

/-- Cut behind its length, a list with the number 1 is taken for a list without elements. -/
theorem listOfOne_cut_accepted : ¬ ∀ (o : HessianObject) (w : Bytes) (n : Nat), o.RefFree →
    hessianSerialize o [] = .done () w → n < w.length →
    Rejects hessianDeserialize (Reader.start (w.take n) Mem.generous) := by
  intro h
  exact h (.list none [.integer 1]) listOfOne 6 ⟨trivial, trivial⟩ rfl (by decide) _ _ rfl

end ArgusPep
