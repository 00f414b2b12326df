/-
  File:      ArgusPep/Argus/Amplification.lean
  Subject:   How much work argus/io.c does on a response, by the bytes it came in.

  The deserializer puts the pointer to a value in the place of a Ref to it. The unmarshaller follows
  pointers, so it goes through the value once for each of them.

  * `mapsRead` -- how many Maps the twelve functions go through;
  * **`read_work_bounded`** -- without a Ref, at most one for each byte read;
  * `codeTree`, `codeObject` -- status codes in status codes, each in its parent twice: once written
    out, and once by a Ref;
  * `mapsRead_codeObject` -- each level doubles the work;
  * **`response_amplified`** -- an accepted response of at most `80 * n + 227` bytes with `2 ^ n`
    Maps to go through.
-/
import ArgusPep.Argus.UnmarshalCalls
import ArgusPep.Argus.Conversation
import ArgusPep.Hessian.Acceptance

namespace ArgusPep

open Lib Run HessianObject

/-! ## 1. Maps -/

mutual
/-- The Maps of a tree. -/
def HessianObject.maps : HessianObject → Nat
  | .list _ elements => mapsInElements elements
  | .map _ pairs => mapsInPairs pairs + 1
  | _ => 0

def mapsInElements : List HessianObject → Nat
  | [] => 0
  | o :: rest => o.maps + mapsInElements rest

def mapsInPairs : List (HessianObject × HessianObject) → Nat
  | [] => 0
  | (key, value) :: rest => key.maps + value.maps + mapsInPairs rest
end

namespace Owned

/-- The Maps gone through. -/
def mapsRead (events : List Event) : Nat :=
  events.countP fun
    | .read _ _ => true
    | .set _ _ _ => false

theorem mapsRead_append (events more : List Event) :
    mapsRead (events ++ more) = mapsRead events + mapsRead more := List.countP_append

theorem mapsRead_sets (self : Nat) (sets : List (StringField × Option CString)) :
    mapsRead (sets.map fun e => .set self e.1 e.2) = 0 := by
  simp [mapsRead]

mutual
/-- No Map of a tree is gone through twice. -/
theorem mapsRead_objectEvents (next : Nat) (cls : Class) :
    ∀ h, mapsRead (objectEvents next cls h) ≤ h.maps
  | .map (some type) pairs => by
    rw [objectEvents]
    split
    · have := mapsRead_pairsEvents next (next + cls.kind.toList.length) cls pairs
      simp only [mapsRead, List.countP_cons_of_pos, HessianObject.maps] at this ⊢
      omega
    · exact Nat.zero_le _
  | .map none _ => by rw [objectEvents]; exact Nat.zero_le _; nofun
  | .null | .boolean _ | .integer _ | .long _ | .double _ | .date _ | .string _ | .xml _
  | .binary _ | .remote _ _ | .list _ _ | .ref _ => by
    rw [objectEvents]
    · exact Nat.zero_le _
    · nofun

theorem mapsRead_pairsEvents (self next : Nat) (cls : Class) :
    ∀ pairs, mapsRead (pairsEvents self next cls pairs) ≤ mapsInPairs pairs
  | [] => by rw [pairsEvents]; exact Nat.zero_le _
  | (key, value) :: pairs => by
    have hvalue : mapsRead (match cls.role key with
        | .object cls => objectEvents next cls value
        | .objects cls => listEvents next cls value
        | _ => []) ≤ value.maps := by
      cases cls.role key with
      | object cls => exact mapsRead_objectEvents next cls value
      | objects cls => exact mapsRead_listEvents next cls value
      | string _ | optionalString _ | strings _ | other => exact Nat.zero_le _
    rw [pairsEvents]
    split
    · rw [mapsRead_append, mapsRead_append, mapsRead_sets]
      refine (Nat.add_le_add (Nat.add_le_add (Nat.le_refl 0) hvalue)
        (mapsRead_pairsEvents self _ cls pairs)).trans ?_
      simp only [mapsInPairs]
      omega
    · rw [mapsRead_append, mapsRead_sets]
      refine (Nat.add_le_add (Nat.le_refl 0) hvalue).trans ?_
      simp only [mapsInPairs]
      omega

theorem mapsRead_listEvents (next : Nat) (cls : Class) :
    ∀ h, mapsRead (listEvents next cls h) ≤ h.maps
  | .list _ elements => by
    rw [listEvents]
    exact mapsRead_elementsEvents next cls elements
  | .null | .boolean _ | .integer _ | .long _ | .double _ | .date _ | .string _ | .xml _
  | .binary _ | .remote _ _ | .map _ _ | .ref _ => by
    rw [listEvents]
    · exact Nat.zero_le _
    · nofun

theorem mapsRead_elementsEvents (next : Nat) (cls : Class) :
    ∀ elements, mapsRead (elementsEvents next cls elements) ≤ mapsInElements elements
  | [] => by rw [elementsEvents]; exact Nat.zero_le _
  | element :: elements => by
    have helement := mapsRead_objectEvents next cls element
    rw [elementsEvents]
    split
    · rw [mapsRead_append]
      refine (Nat.add_le_add helement (mapsRead_elementsEvents _ cls elements)).trans ?_
      simp only [mapsInElements]
      omega
    · simp only [mapsInElements]
      omega
end

end Owned

/-! ## 2. Without a Ref -/

mutual
/-- Every Map has bytes of its own. -/
theorem maps_le_length {o : HessianObject} {w : Bytes} : Encoding o w → o.maps ≤ w.length
  | .null | .boolean _ | .integer _ | .ref _ | .long _ | .date _ | .double _ | .string _ _
  | .xml _ _ | .binary _ _ | .remote _ _ => Nat.zero_le _
  | .list htype hlength helements _ => by
    have := mapsInElements_le_length helements
    simp only [HessianObject.maps, List.length_cons, List.length_append]
    omega
  | .map htype hpairs => by
    have := mapsInPairs_le_length hpairs
    simp only [HessianObject.maps, List.length_cons, List.length_append]
    omega

theorem mapsInElements_le_length {elements : List HessianObject} {w : Bytes} :
    ElementsEncoding elements w → mapsInElements elements ≤ w.length
  | .nil => Nat.le_refl _
  | .cons ho hrest => by
    have := maps_le_length ho
    have := mapsInElements_le_length hrest
    simp only [mapsInElements, List.length_append]
    omega

theorem mapsInPairs_le_length {pairs : List (HessianObject × HessianObject)} {w : Bytes} :
    PairsEncoding pairs w → mapsInPairs pairs ≤ w.length
  | .nil => Nat.le_refl _
  | .cons hkey hvalue hrest => by
    have := maps_le_length hkey
    have := maps_le_length hvalue
    have := mapsInPairs_le_length hrest
    simp only [mapsInPairs, List.length_append]
    omega
end

/-- An object of any class, taken for any class. -/
theorem mapsRead_le_length {tree : HessianObject} {w : Bytes} (henc : Encoding tree w)
    (hfree : tree.RefFree) (next : Nat) (cls : Owned.Class) :
    Owned.mapsRead (Owned.objectEvents next cls tree.resolved) ≤ w.length := by
  rw [resolved_of_refFree hfree]
  exact (Owned.mapsRead_objectEvents next cls tree).trans (maps_le_length henc)

/-- **Without a Ref the unmarshaller goes through at most one Map for each byte the deserializer
    read**, of whatever class the object is taken for. -/
theorem read_work_bounded {s t : Reader} {o : HessianObject} (hs : s.Ample)
    (hrun : hessianDeserialize s = .done o t) (hrest : t.input ≠ []) :
    ∃ tree w, Encoding tree w ∧ o = tree.resolved ∧ s.input = w ++ t.input ∧
      (tree.RefFree →
        ∀ next cls, Owned.mapsRead (Owned.objectEvents next cls o) ≤ w.length) := by
  obtain ⟨_, _, hread⟩ := parses_hessianDeserialize s o t hs hrun
  obtain ⟨w, hw, tree, henc, rfl⟩ := hread hrest
  exact ⟨tree, w, henc, rfl, hw, mapsRead_le_length henc⟩

/-- A status with a status code in it, and nothing in that. -/
def nestedStatus : HessianObject :=
  .map (some XACML_HESSIAN_STATUS_CLASSNAME)
    [(.string XACML_HESSIAN_STATUS_CODE, .map (some XACML_HESSIAN_STATUSCODE_CLASSNAME) [])]

theorem carried_nestedStatus : nestedStatus.Carried := by
  have hkey : WireText XACML_HESSIAN_STATUS_CODE := NameText.wireText (by decide)
  exact ⟨AsciiText.shortType (by decide) (by decide), by decide, hkey,
    ⟨AsciiText.shortType (by decide) (by decide), by decide, trivial⟩, trivial⟩

/-- Read from its encoding with a byte behind it, the status is its own tree. -/
theorem read_work_bounded_nested : ∃ w o t, Encoding nestedStatus w ∧
    hessianDeserialize (Reader.start (w ++ [0x4E]) Mem.unlimited) = .done o t ∧
    t.input = [0x4E] ∧
    ∀ next cls, Owned.mapsRead (Owned.objectEvents next cls o) ≤ w.length := by
  obtain ⟨w, henc⟩ : ∃ w, Encoding nestedStatus w := ⟨_, encoding_wire carried_nestedStatus⟩
  obtain ⟨o, t, hrun, -, hleft, -⟩ := reads_of_encoding henc (Reader.start _ Mem.unlimited) [0x4E]
    (ample_start_unlimited _) rfl
  have hrest : t.input ≠ [] := hleft ▸ List.cons_ne_nil _ _
  obtain ⟨tree, w', henc', -, hinput, hbound⟩ :=
    read_work_bounded (ample_start_unlimited _) hrun hrest
  have htree := (readable_of_encoding henc).unique (readable_of_encoding henc') hinput
  have hfree : nestedStatus.RefFree := by
    exact ⟨trivial, trivial, trivial⟩
  refine ⟨w, o, t, henc, hrun, hleft, fun next cls => ?_⟩
  rw [htree.2]
  exact hbound (htree.1 ▸ hfree) next cls

/-! ## 3. With Refs -/

/-- The pairs of a status code: its value, and its subcode twice. -/
def codePairs (first second : HessianObject) : List (HessianObject × HessianObject) :=
  [(.string XACML_HESSIAN_STATUSCODE_VALUE, .string (CString.lit "c")),
    (.string XACML_HESSIAN_STATUSCODE_SUBCODE, first),
    (.string XACML_HESSIAN_STATUSCODE_SUBCODE, second)]

/-- The second subcode is a Ref to the first, which is the pair 1. -/
def codeTree : Nat → HessianObject
  | 0 => .map (some XACML_HESSIAN_STATUSCODE_CLASSNAME)
    [(.string XACML_HESSIAN_STATUSCODE_VALUE, .string (CString.lit "c"))]
  | n + 1 => .map (some XACML_HESSIAN_STATUSCODE_CLASSNAME) (codePairs (codeTree n) (.ref 1#32))

/-- Both pointers go to the same subcode. -/
def codeObject : Nat → HessianObject
  | 0 => codeTree 0
  | n + 1 => .map (some XACML_HESSIAN_STATUSCODE_CLASSNAME)
    (codePairs (codeObject n) (codeObject n))

/-- The status code this is unmarshalled to. -/
def codeOf : Nat → XacmlStatuscode
  | 0 => .mk (some (CString.lit "c")) none
  | n + 1 => .mk (some (CString.lit "c")) (some (codeOf n))

theorem resolved_codeTree (n : Nat) : (codeTree n).resolved = codeObject n := by
  induction n with
  | zero => rfl
  | succ n ih =>
    have hlinks : mapLinks ((codePairs (codeTree n) (.ref 1#32)).map Prod.snd) = [0, 1, 1] := by
      cases n <;> rfl
    rw [codeTree, resolved, hlinks, codeObject, ← ih]
    rfl

theorem unmarshal_codeObject (n : Nat) :
    xacmlStatuscodeUnmarshal (codeObject n) = some (codeOf n) := by
  induction n with
  | zero => rfl
  | succ n ih =>
    have hmap : hessianGettype (codeObject n) = .map := by cases n <;> rfl
    have hne : ¬XACML_HESSIAN_STATUSCODE_SUBCODE = XACML_HESSIAN_STATUSCODE_VALUE := by decide
    have hfield : ∀ statuscode, objectField (xacmlStatuscodeUnmarshal (codeObject n))
        xacmlStatuscodeSetsubcode statuscode (codeObject n)
          = some (xacmlStatuscodeSetsubcode statuscode (codeOf n)) := by
      intro statuscode
      unfold objectField
      rw [hmap, if_neg (by decide), ih]
      rfl
    simp only [codeObject, codePairs, xacmlStatuscodeUnmarshal, if_true, statuscodePairs, mapKey,
      hfield, hne, if_false, Option.bind_eq_bind, Option.bind_some]
    rfl

namespace Owned

/-- An accepted Map is gone through to its end. -/
theorem goesOn_of_accepts {cls : Class} {pairs : List (HessianObject × HessianObject)}
    (h : cls.accepts (.map (some cls.name) pairs) = true) :
    ∀ pair ∈ pairs, cls.goesOn pair = true := by
  rw [accepts_map] at h
  exact List.all_eq_true.mp h

section Lower

variable {self a b : Nat} {cls sub : Class} {key value : HessianObject}
  {pairs : List (HessianObject × HessianObject)}

theorem le_mapsRead_nil (next : Nat) : 0 ≤ mapsRead (pairsEvents self next cls []) := Nat.zero_le _

/-- The Maps read for a pair, and those for the pairs behind it. -/
theorem le_mapsRead_pair (hgoes : cls.goesOn (key, value) = true) (next : Nat)
    (ha : a ≤ mapsRead (match cls.role key with
      | .object cls => objectEvents next cls value
      | .objects cls => listEvents next cls value
      | _ => []))
    (hb : ∀ next, b ≤ mapsRead (pairsEvents self next cls pairs)) :
    a + b ≤ mapsRead (pairsEvents self next cls ((key, value) :: pairs)) := by
  rw [pairsEvents, if_pos hgoes, mapsRead_append, mapsRead_append, mapsRead_sets, Nat.zero_add]
  exact Nat.add_le_add ha (hb _)

theorem le_mapsRead_object (hrole : cls.role key = .object sub)
    (hgoes : cls.goesOn (key, value) = true)
    (ha : ∀ next, a ≤ mapsRead (objectEvents next sub value))
    (hb : ∀ next, b ≤ mapsRead (pairsEvents self next cls pairs)) (next : Nat) :
    a + b ≤ mapsRead (pairsEvents self next cls ((key, value) :: pairs)) :=
  le_mapsRead_pair hgoes next (by rw [hrole]; exact ha next) hb

/-- A list of one object. -/
theorem le_mapsRead_objects (hrole : cls.role key = .objects sub)
    (hgoes : cls.goesOn (key, .list none [value]) = true)
    (ha : ∀ next, a ≤ mapsRead (objectEvents next sub value))
    (hb : ∀ next, b ≤ mapsRead (pairsEvents self next cls pairs)) (next : Nat) :
    a + b ≤ mapsRead (pairsEvents self next cls ((key, .list none [value]) :: pairs)) := by
  refine le_mapsRead_pair hgoes next ?_ hb
  rw [hrole]
  simp only [listEvents, elementsEvents, List.append_nil, ite_self]
  exact ha next

/-- A pair with no object in it. -/
theorem le_mapsRead_skip (hgoes : cls.goesOn (key, value) = true)
    (hb : ∀ next, b ≤ mapsRead (pairsEvents self next cls pairs)) (next : Nat) :
    b ≤ mapsRead (pairsEvents self next cls ((key, value) :: pairs)) :=
  (Nat.le_of_eq (Nat.zero_add b).symm).trans (le_mapsRead_pair hgoes next (Nat.zero_le _) hb)

/-- A Map of the class. -/
theorem le_mapsRead_map (hb : ∀ self next, b ≤ mapsRead (pairsEvents self next cls pairs))
    (next : Nat) : b + 1 ≤ mapsRead (objectEvents next cls (.map (some cls.name) pairs)) := by
  rw [objectEvents, if_pos rfl]
  simp only [mapsRead, List.countP_cons_of_pos]
  exact Nat.succ_le_succ (hb _ _)

end Lower

end Owned

/-- **Each level doubles the work.** -/
theorem mapsRead_codeObject (n : Nat) : ∀ next,
    2 ^ n ≤ Owned.mapsRead (Owned.objectEvents next .statuscode (codeObject n)) := by
  induction n with
  | zero => exact fun next => Nat.le_refl _
  | succ n ih =>
    intro next
    have haccepts : Owned.Class.statuscode.accepts (codeObject (n + 1)) = true :=
      Option.isSome_of_eq_some (unmarshal_codeObject (n + 1))
    have hgoes := @Owned.goesOn_of_accepts .statuscode (codePairs (codeObject n) (codeObject n))
      haccepts
    have hpairs : ∀ self next, 2 ^ n + (2 ^ n + 0) ≤ Owned.mapsRead (Owned.pairsEvents self next
        .statuscode (codePairs (codeObject n) (codeObject n))) := by
      intro self
      refine Owned.le_mapsRead_skip (hgoes _ (by simp [codePairs])) ?_
      have hrole : Owned.Class.statuscode.role (.string XACML_HESSIAN_STATUSCODE_SUBCODE)
          = .object .statuscode := rfl
      refine Owned.le_mapsRead_object hrole (hgoes _ (by simp [codePairs])) ih ?_
      exact Owned.le_mapsRead_object hrole (hgoes _ (by simp [codePairs])) ih Owned.le_mapsRead_nil
    have hmap := Owned.le_mapsRead_map hpairs next
    show 2 ^ (n + 1) ≤ Owned.mapsRead (Owned.objectEvents next .statuscode
      (.map (some Owned.Class.statuscode.name) (codePairs (codeObject n) (codeObject n))))
    rw [Nat.pow_succ]
    omega

/-! ## 4. The response -/

def statusWith (code : HessianObject) : HessianObject :=
  .map (some XACML_HESSIAN_STATUS_CLASSNAME) [(.string XACML_HESSIAN_STATUS_CODE, code)]

def resultWith (code : HessianObject) : HessianObject :=
  .map (some XACML_HESSIAN_RESULT_CLASSNAME)
    [(.string XACML_HESSIAN_RESULT_DECISION, .integer 1#32),
      (.string XACML_HESSIAN_RESULT_STATUS, statusWith code)]

/-- A Permit with this status code. -/
def responseWith (code : HessianObject) : HessianObject :=
  .map (some XACML_HESSIAN_RESPONSE_CLASSNAME)
    [(.string XACML_HESSIAN_RESPONSE_RESULTS, .list none [resultWith code])]

theorem resolved_responseWith (n : Nat) :
    (responseWith (codeTree n)).resolved = responseWith (codeObject n) := by
  rw [← resolved_codeTree]
  cases n <;> rfl

section Unmarshal

variable {code : HessianObject} {statuscode : XacmlStatuscode}

theorem unmarshal_statusWith (hmap : hessianGettype code = .map)
    (h : xacmlStatuscodeUnmarshal code = some statuscode) :
    xacmlStatusUnmarshal (statusWith code) = some ⟨none, some statuscode⟩ := by
  have hfield : objectField (xacmlStatuscodeUnmarshal code) xacmlStatusSetcode
      (xacmlStatusCreate none) code = some ⟨none, some statuscode⟩ := by
    unfold objectField
    rw [hmap, if_neg (by decide), h]
    rfl
  show (objectField (xacmlStatuscodeUnmarshal code) xacmlStatusSetcode
      (xacmlStatusCreate none) code).bind some = _
  rw [hfield]
  rfl

theorem unmarshal_resultWith (hmap : hessianGettype code = .map)
    (h : xacmlStatuscodeUnmarshal code = some statuscode) :
    xacmlResultUnmarshal (resultWith code)
      = some ⟨none, .permit, some ⟨none, some statuscode⟩, []⟩ := by
  show ((xacmlStatusUnmarshal (statusWith code)).map
    (xacmlResultSetstatus ⟨none, .permit, none, []⟩)).bind some = _
  rw [unmarshal_statusWith hmap h]
  rfl

theorem unmarshal_responseWith (hmap : hessianGettype code = .map)
    (h : xacmlStatuscodeUnmarshal code = some statuscode) :
    xacmlResponseUnmarshal (responseWith code)
      = some ⟨none, [⟨none, .permit, some ⟨none, some statuscode⟩, []⟩]⟩ := by
  show (((xacmlResultUnmarshal (resultWith code)).map
    (xacmlResponseAddresult xacmlResponseCreate)).bind some).bind some = _
  rw [unmarshal_resultWith hmap h]
  rfl

/-- The Maps in the response are those in its status code, and three more. -/
theorem mapsRead_responseWith {k : Nat} (hmap : hessianGettype code = .map)
    (h : xacmlStatuscodeUnmarshal code = some statuscode)
    (hk : ∀ next, k ≤ Owned.mapsRead (Owned.objectEvents next .statuscode code)) (next : Nat) :
    k + 3 ≤ Owned.mapsRead (Owned.objectEvents next .response (responseWith code)) := by
  have hstatus : ∀ next,
      k + 1 ≤ Owned.mapsRead (Owned.objectEvents next .status (statusWith code)) := by
    have hgoes := @Owned.goesOn_of_accepts .status [_]
      (Option.isSome_of_eq_some (unmarshal_statusWith hmap h))
    have hrole : Owned.Class.status.role (.string XACML_HESSIAN_STATUS_CODE)
        = .object .statuscode := rfl
    exact Owned.le_mapsRead_map fun self => Owned.le_mapsRead_object hrole
      (hgoes _ List.mem_cons_self) hk Owned.le_mapsRead_nil
  have hresult : ∀ next,
      k + 1 + 1 ≤ Owned.mapsRead (Owned.objectEvents next .result (resultWith code)) := by
    have hgoes := @Owned.goesOn_of_accepts .result [_, _]
      (Option.isSome_of_eq_some (unmarshal_resultWith hmap h))
    refine Owned.le_mapsRead_map fun self => Owned.le_mapsRead_skip (hgoes _ List.mem_cons_self) ?_
    have hbehind := hgoes _ (List.mem_cons_of_mem _ List.mem_cons_self)
    have hrole : Owned.Class.result.role (.string XACML_HESSIAN_RESULT_STATUS)
        = .object .status := rfl
    exact Owned.le_mapsRead_object (b := 0) hrole hbehind hstatus Owned.le_mapsRead_nil
  have hgoes := @Owned.goesOn_of_accepts .response [_]
    (Option.isSome_of_eq_some (unmarshal_responseWith hmap h))
  have hrole : Owned.Class.response.role (.string XACML_HESSIAN_RESPONSE_RESULTS)
      = .objects .result := rfl
  exact Owned.le_mapsRead_map (fun self => Owned.le_mapsRead_objects hrole
    (hgoes _ List.mem_cons_self) hresult Owned.le_mapsRead_nil) next

end Unmarshal

/-! ## 5. Its bytes -/

/-- An encoding of at most `n` bytes. -/
def Within (o : HessianObject) (n : Nat) : Prop := ∃ w, Encoding o w ∧ w.length ≤ n

def PairsWithin (pairs : List (HessianObject × HessianObject)) (n : Nat) : Prop :=
  ∃ w, PairsEncoding pairs w ∧ w.length ≤ n

theorem pairsWithin_nil : PairsWithin [] 0 := ⟨[], .nil, Nat.le_refl _⟩

section Within

variable {o : HessianObject} {pairs : List (HessianObject × HessianObject)} {k l m n : Nat}

theorem within_string {text : CString} (h : AsciiText text)
    (hlen : text.bytes.length ≤ HESSIAN_CHUNK_SIZE) (hk : text.bytes.length + 3 = k) :
    Within (.string text) k := by
  have hfits : text.FitsInt := Nat.le_trans hlen (by decide)
  exact ⟨_, encoding_wire_string ⟨h.plainText, hfits⟩,
    Nat.le_of_eq ((length_wire_string h hlen).trans hk)⟩

/-- The key is written out. -/
theorem pairsWithin_cons {key : CString} (hkey : Within (.string key) k) (hvalue : Within o l)
    (hpairs : PairsWithin pairs m) : PairsWithin ((.string key, o) :: pairs) (k + (l + m)) := by
  obtain ⟨u, hu, hulen⟩ := hkey
  obtain ⟨v, hv, hvlen⟩ := hvalue
  obtain ⟨w, hw, hwlen⟩ := hpairs
  refine ⟨_, .cons hu hv hw, ?_⟩
  rw [List.length_append, List.length_append]
  omega

theorem within_integer (value : CInt) : Within (.integer value) 5 :=
  ⟨_, .integer value, Nat.le_refl _⟩

theorem within_ref (value : CInt) : Within (.ref value) 5 := ⟨_, .ref value, Nat.le_refl _⟩

theorem within_map {type : CString} (htype : ShortType (some type))
    (hlen : (typeField (some type)).length = k) (hpairs : PairsWithin pairs n) :
    Within (.map (some type) pairs) (k + n + 2) := by
  obtain ⟨w, hw, hwlen⟩ := hpairs
  refine ⟨_, .map (typeHead_typeField htype) hw, ?_⟩
  simp only [List.length_cons, List.length_append, List.length_nil]
  omega

/-- The type and the length are left out. -/
theorem within_list (hne : hessianGettype o ≠ .ref) (h : Within o n) :
    Within (.list none [o]) (n + 2) := by
  obtain ⟨w, hw, hlen⟩ := h
  have hrefs : RefsInside [o] := by
    intro value hmem
    exact absurd (congrArg hessianGettype (List.mem_singleton.mp hmem)).symm hne
  refine ⟨_, .list .absent .absent (.cons hw .nil) hrefs, ?_⟩
  simp only [List.length_cons, List.length_append, List.length_nil]
  omega

theorem within_mono (h : Within o m) (hmn : m ≤ n) : Within o n := by
  obtain ⟨w, hw, hlen⟩ := h
  exact ⟨w, hw, hlen.trans hmn⟩

end Within

/-- Eighty bytes for each level. -/
theorem within_codeTree (n : Nat) : Within (codeTree n) (80 * n + 55) := by
  have hvalue : Within (.string (CString.lit "c")) 4 :=
    within_string (by decide) (by decide) (by decide)
  have hvalueKey : Within (.string XACML_HESSIAN_STATUSCODE_VALUE) 7 :=
    within_string (by decide) (by decide) (by decide)
  have hkey : Within (.string XACML_HESSIAN_STATUSCODE_SUBCODE) 10 :=
    within_string (by decide) (by decide) (by decide)
  have htype : ShortType (some XACML_HESSIAN_STATUSCODE_CLASSNAME) :=
    AsciiText.shortType (by decide) (by decide)
  have hname : (typeField (some XACML_HESSIAN_STATUSCODE_CLASSNAME)).length = 42 := by decide
  induction n with
  | zero => exact within_map htype hname (pairsWithin_cons hvalueKey hvalue pairsWithin_nil)
  | succ n ih =>
    have hcodes := pairsWithin_cons hkey ih (pairsWithin_cons hkey (within_ref 1#32) pairsWithin_nil)
    have hpairs := pairsWithin_cons hvalueKey hvalue hcodes
    exact within_mono (within_map htype hname hpairs) (by omega)

theorem within_responseWith {code : HessianObject} {n : Nat} (h : Within code n) :
    Within (responseWith code) (n + 172) := by
  have hcodeKey : Within (.string XACML_HESSIAN_STATUS_CODE) 13 :=
    within_string (by decide) (by decide) (by decide)
  have hdecisionKey : Within (.string XACML_HESSIAN_RESULT_DECISION) 11 :=
    within_string (by decide) (by decide) (by decide)
  have hstatusKey : Within (.string XACML_HESSIAN_RESULT_STATUS) 9 :=
    within_string (by decide) (by decide) (by decide)
  have hresultsKey : Within (.string XACML_HESSIAN_RESPONSE_RESULTS) 10 :=
    within_string (by decide) (by decide) (by decide)
  have hstatus : Within (statusWith code) _ :=
    within_map (k := 38) (AsciiText.shortType (by decide) (by decide)) (by decide)
      (pairsWithin_cons hcodeKey h pairsWithin_nil)
  have hresult : Within (resultWith code) _ :=
    within_map (k := 38) (AsciiText.shortType (by decide) (by decide)) (by decide)
      (pairsWithin_cons hdecisionKey (within_integer 1#32)
        (pairsWithin_cons hstatusKey hstatus pairsWithin_nil))
  have hmap : hessianGettype (resultWith code) ≠ .ref := show HessianT.map ≠ .ref by decide
  have hresponse : Within (responseWith code) _ :=
    within_map (k := 40) (AsciiText.shortType (by decide) (by decide)) (by decide)
      (pairsWithin_cons hresultsKey (within_list hmap hresult) pairsWithin_nil)
  exact within_mono hresponse (by omega)

/-- **The bytes that buy the work**: for each `n` there is a response of at most `80 * n + 227`
    bytes that is accepted, and that has `2 ^ n` Maps to go through. -/
theorem response_amplified (n : Nat) :
    ∃ (input : Bytes) (response : XacmlResponse) (hResponse : HessianObject) (t : Reader),
      input.length ≤ 80 * n + 227 ∧
      xacmlResponseUnmarshalling input Mem.unlimited = some (.ok, some response) ∧
      hessianDeserialize (Reader.start input Mem.unlimited) = .done hResponse t ∧
      2 ^ n ≤ Owned.mapsRead (Owned.objectEvents 0 .response hResponse) := by
  obtain ⟨w, henc, hlen⟩ := within_responseWith (within_codeTree n)
  have hmap : hessianGettype (codeObject n) = .map := by cases n <;> rfl
  have hcode := unmarshal_codeObject n
  have hresolved := resolved_responseWith n
  have hunmarshal := unmarshal_responseWith hmap hcode
  obtain ⟨o, t, hrun, rfl, _⟩ := reads_of_encoding henc (Reader.start w Mem.unlimited) []
    (ample_start_unlimited _) (List.append_nil w).symm
  have haccept := @xacmlResponseUnmarshalling_encoding _ w [] _ henc (hresolved ▸ hunmarshal)
  rw [List.append_nil] at haccept
  refine ⟨w, _, _, t, hlen, haccept, hrun, ?_⟩
  rw [hresolved]
  have h := mapsRead_responseWith hmap hcode (mapsRead_codeObject n) 0
  omega

end ArgusPep
