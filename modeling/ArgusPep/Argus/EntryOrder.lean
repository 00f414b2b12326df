/-
  File:      ArgusPep/Argus/EntryOrder.lean
  Subject:   Unmarshalling a response does not depend on the order of map entries, nor on entries
             with unknown keys.

  * `MapKind`, `MapKind.fields` -- the Maps an unmarshaller visits, and what it looks for under the
    keys it knows: a value, a Map, or a List of Maps;
  * `Distinct` -- the String keys of the visited Maps are distinct, where the two keys for the value
    of an attribute assignment count as one;
  * `Variant` -- the entries of the visited Maps permuted, and entries with unknown keys put in;
  * **`unmarshal_entry_order`** -- the variants of an object with distinct keys unmarshal alike.

  The entries under the known keys of one class number at most one, so a permutation leaves them as
  they are (`entries_agree`), and each field is read from such entries alone (Records).
-/
import Mathlib.Data.List.Forall2
import ArgusPep.Argus.Records

namespace ArgusPep

open Lib Keyed

/-! ## 1. The visited maps -/

/-- The Maps an unmarshaller visits, one kind a class. -/
inductive MapKind where
  | response | request | subject | resource | action | environment | attribute
  | result | status | statuscode | obligation | attributeassignment
deriving DecidableEq

/-- What the value under a known key holds: no visited Map, one, or a List of them. -/
inductive Shape where
  | leaf
  | one (kind : MapKind)
  | many (kind : MapKind)
deriving DecidableEq

/-- The keys an unmarshaller knows. -/
def MapKind.fields : MapKind → List (CString × Shape)
  | .response => [(XACML_HESSIAN_RESPONSE_REQUEST, .one .request),
      (XACML_HESSIAN_RESPONSE_RESULTS, .many .result)]
  | .request => [(XACML_HESSIAN_REQUEST_SUBJECTS, .many .subject),
      (XACML_HESSIAN_REQUEST_RESOURCES, .many .resource),
      (XACML_HESSIAN_REQUEST_ACTION, .one .action),
      (XACML_HESSIAN_REQUEST_ENVIRONMENT, .one .environment)]
  | .subject => [(XACML_HESSIAN_SUBJECT_CATEGORY, .leaf),
      (XACML_HESSIAN_SUBJECT_ATTRIBUTES, .many .attribute)]
  | .resource => [(XACML_HESSIAN_RESOURCE_CONTENT, .leaf),
      (XACML_HESSIAN_RESOURCE_ATTRIBUTES, .many .attribute)]
  | .action => [(XACML_HESSIAN_ACTION_ATTRIBUTES, .many .attribute)]
  | .environment => [(XACML_HESSIAN_ENVIRONMENT_ATTRIBUTES, .many .attribute)]
  | .attribute => [(XACML_HESSIAN_ATTRIBUTE_ID, .leaf), (XACML_HESSIAN_ATTRIBUTE_DATATYPE, .leaf),
      (XACML_HESSIAN_ATTRIBUTE_ISSUER, .leaf), (XACML_HESSIAN_ATTRIBUTE_VALUES, .leaf)]
  | .result => [(XACML_HESSIAN_RESULT_DECISION, .leaf), (XACML_HESSIAN_RESULT_RESOURCEID, .leaf),
      (XACML_HESSIAN_RESULT_STATUS, .one .status),
      (XACML_HESSIAN_RESULT_OBLIGATIONS, .many .obligation)]
  | .status => [(XACML_HESSIAN_STATUS_MESSAGE, .leaf), (XACML_HESSIAN_STATUS_CODE, .one .statuscode)]
  | .statuscode => [(XACML_HESSIAN_STATUSCODE_VALUE, .leaf),
      (XACML_HESSIAN_STATUSCODE_SUBCODE, .one .statuscode)]
  | .obligation => [(XACML_HESSIAN_OBLIGATION_ID, .leaf), (XACML_HESSIAN_OBLIGATION_FULFILLON, .leaf),
      (XACML_HESSIAN_OBLIGATION_ASSIGNMENTS, .many .attributeassignment)]
  | .attributeassignment => [(XACML_HESSIAN_ATTRIBUTEASSIGNMENT_ID, .leaf),
      (XACML_HESSIAN_ATTRIBUTEASSIGNMENT_DATATYPE, .leaf),
      (XACML_HESSIAN_ATTRIBUTEASSIGNMENT_VALUE, .leaf),
      (XACML_HESSIAN_ATTRIBUTEASSIGNMENT_VALUES, .leaf)]

/-- What the unmarshaller looks for under a key; `none` for a key it does not know. -/
def MapKind.shape (k : MapKind) (key : CString) : Option Shape := k.fields.lookup key

/-- The key a key counts as. -/
def MapKind.canonical (k : MapKind) (key : CString) : CString :=
  if k = .attributeassignment ∧ key = XACML_HESSIAN_ATTRIBUTEASSIGNMENT_VALUES then
    XACML_HESSIAN_ATTRIBUTEASSIGNMENT_VALUE
  else key

/-- The shape of the value of a pair. -/
def MapKind.shapeOf (k : MapKind) (pair : HessianObject × HessianObject) : Option Shape :=
  (mapKey pair.1).bind k.shape

/-- The visited Maps of an object have distinct String keys. -/
inductive Distinct : MapKind → HessianObject → Prop where
  | map {k : MapKind} {type : Option CString} {pairs : List (HessianObject × HessianObject)}
      (keys : ((readable mapKey pairs).map fun e => k.canonical e.1).Nodup)
      (one : ∀ pair ∈ pairs, ∀ kind, k.shapeOf pair = some (.one kind) → Distinct kind pair.2)
      (many : ∀ pair ∈ pairs, ∀ kind, k.shapeOf pair = some (.many kind) →
        ∀ e ∈ elementsOf pair.2, Distinct kind e) :
      Distinct k (.map type pairs)
  | other {k : MapKind} {h : HessianObject} (notMap : hessianGettype h ≠ .map) : Distinct k h

mutual
/-- `h'` is `h` with the entries of its visited Maps permuted and with entries put in whose String
    keys the unmarshaller does not know. -/
inductive Variant : MapKind → HessianObject → HessianObject → Prop where
  | same (k : MapKind) (h : HessianObject) : Variant k h h
  | map {k : MapKind} (type : Option CString)
      {pairs changed extra pairs' : List (HessianObject × HessianObject)}
      (within : VariantPairs k pairs changed)
      (unknown : ∀ pair ∈ extra, ∃ key, pair.1 = .string key ∧ k.shape key = none)
      (permuted : (changed ++ extra).Perm pairs') :
      Variant k (.map type pairs) (.map type pairs')

/-- The values of the pairs replaced by variants, where they hold visited Maps. -/
inductive VariantPairs : MapKind → List (HessianObject × HessianObject) →
    List (HessianObject × HessianObject) → Prop where
  | nil (k : MapKind) : VariantPairs k [] []
  | leaf {k : MapKind} (key value : HessianObject) {pairs changed}
      (rest : VariantPairs k pairs changed) :
      VariantPairs k ((key, value) :: pairs) ((key, value) :: changed)
  | one {k kind : MapKind} {key value value' : HessianObject} {pairs changed}
      (shape : k.shapeOf (key, value) = some (.one kind)) (here : Variant kind value value')
      (rest : VariantPairs k pairs changed) :
      VariantPairs k ((key, value) :: pairs) ((key, value') :: changed)
  | many {k kind : MapKind} {key : HessianObject} {type : Option CString} {es es'} {pairs changed}
      (shape : k.shapeOf (key, .list type es) = some (.many kind))
      (here : VariantElements kind es es') (rest : VariantPairs k pairs changed) :
      VariantPairs k ((key, .list type es) :: pairs) ((key, .list type es') :: changed)

inductive VariantElements : MapKind → List HessianObject → List HessianObject → Prop where
  | nil (k : MapKind) : VariantElements k [] []
  | cons {k : MapKind} {e e' : HessianObject} {es es'} (here : Variant k e e')
      (rest : VariantElements k es es') : VariantElements k (e :: es) (e' :: es')
end

/-! ## 2. Agreement -/

/-- The unmarshaller of a kind makes the same of two objects. -/
def Agrees : MapKind → HessianObject → HessianObject → Prop
  | .response, h, h' => xacmlResponseUnmarshal h = xacmlResponseUnmarshal h'
  | .request, h, h' => xacmlRequestUnmarshal h = xacmlRequestUnmarshal h'
  | .subject, h, h' => xacmlSubjectUnmarshal h = xacmlSubjectUnmarshal h'
  | .resource, h, h' => xacmlResourceUnmarshal h = xacmlResourceUnmarshal h'
  | .action, h, h' => xacmlActionUnmarshal h = xacmlActionUnmarshal h'
  | .environment, h, h' => xacmlEnvironmentUnmarshal h = xacmlEnvironmentUnmarshal h'
  | .attribute, h, h' => xacmlAttributeUnmarshal h = xacmlAttributeUnmarshal h'
  | .result, h, h' => xacmlResultUnmarshal h = xacmlResultUnmarshal h'
  | .status, h, h' => xacmlStatusUnmarshal h = xacmlStatusUnmarshal h'
  | .statuscode, h, h' => xacmlStatuscodeUnmarshal h = xacmlStatuscodeUnmarshal h'
  | .obligation, h, h' => xacmlObligationUnmarshal h = xacmlObligationUnmarshal h'
  | .attributeassignment, h, h' =>
    xacmlAttributeassignmentUnmarshal h = xacmlAttributeassignmentUnmarshal h'

theorem Agrees.refl (k : MapKind) (h : HessianObject) : Agrees k h h := by
  cases k <;> exact rfl

/-- The values under a key of a shape are read alike. -/
def ValuesAgree : Shape → HessianObject → HessianObject → Prop
  | .leaf, v, v' => v = v'
  | .one kind, v, v' => hessianGettype v = hessianGettype v' ∧ Agrees kind v v'
  | .many kind, v, v' => v = v' ∨ ∃ type es es',
      v = .list type es ∧ v' = .list type es' ∧ List.Forall₂ (Agrees kind) es es'

theorem ValuesAgree.refl (s : Shape) (v : HessianObject) : ValuesAgree s v v := by
  cases s with
  | leaf => exact rfl
  | one kind => exact ⟨rfl, Agrees.refl kind v⟩
  | many kind => exact Or.inl rfl

/-- Entries with the same key, whose values are read alike. -/
def EntryAgrees (k : MapKind) (e e' : CString × HessianObject) : Prop :=
  e.1 = e'.1 ∧ ∀ s, k.shape e.1 = some s → ValuesAgree s e.2 e'.2

/-- Two lists of entries agree on each class of known keys. -/
def EntriesAgree (k : MapKind) (es es' : List (CString × HessianObject)) : Prop :=
  ∀ (p : CString → Bool) (c : CString),
    (∀ key, p key = true → k.canonical key = c ∧ k.shape key ≠ none) →
    List.Forall₂ (EntryAgrees k) (es.filter fun e => p e.1) (es'.filter fun e => p e.1)

/-- Pairs with the same key, whose values are read alike. -/
def PairAgrees (k : MapKind) (p p' : HessianObject × HessianObject) : Prop :=
  p.1 = p'.1 ∧ ∀ s, k.shapeOf p = some s → ValuesAgree s p.2 p'.2

/-! ## 3. Rearranged entries -/

section Rearranged

variable {k : MapKind} {pairs changed extra pairs' : List (HessianObject × HessianObject)}

theorem readable_agrees (h : List.Forall₂ (PairAgrees k) pairs changed) :
    List.Forall₂ (EntryAgrees k) (readable mapKey pairs) (readable mapKey changed) := by
  induction h with
  | nil => exact .nil
  | @cons p p' _ _ hp _ ih =>
    obtain ⟨hkey, hv⟩ := hp
    cases hk : mapKey p.1 with
    | none => rwa [readable_cons_none hk, readable_cons_none (hkey ▸ hk)]
    | some key =>
      rw [readable_cons_some hk, readable_cons_some (hkey ▸ hk)]
      refine .cons ⟨rfl, fun s hs => hv s ?_⟩ ih
      rw [MapKind.shapeOf, hk]
      exact hs

/-- The classes of the keys are those of the pairs before the change. -/
theorem canonical_agrees (h : List.Forall₂ (PairAgrees k) pairs changed) :
    (readable mapKey changed).map (fun e => k.canonical e.1)
      = (readable mapKey pairs).map fun e => k.canonical e.1 := by
  have he := readable_agrees h
  generalize readable mapKey pairs = es at he
  generalize readable mapKey changed = es' at he
  induction he with
  | nil => rfl
  | cons hp _ ih => rw [List.map_cons, List.map_cons, ih, hp.1]

/-- Entries put in have no known key. -/
theorem filter_unknown {p : CString → Bool} (hp : ∀ key, p key = true → k.shape key ≠ none)
    (hx : ∀ pair ∈ extra, ∃ key, pair.1 = .string key ∧ k.shape key = none) :
    ((readable mapKey extra).filter fun e => p e.1) = [] := by
  rw [List.filter_eq_nil_iff]
  intro e he hpe
  obtain ⟨r, hr, hkey⟩ := mem_readable he
  obtain ⟨key, rfl, hnone⟩ := hx _ hr
  cases hkey
  exact hp _ hpe hnone

/-- On each class of known keys the rearranged entries are those of before, in their order. -/
theorem entries_agree (h : List.Forall₂ (PairAgrees k) pairs changed)
    (hd : ((readable mapKey pairs).map fun e => k.canonical e.1).Nodup)
    (hx : ∀ pair ∈ extra, ∃ key, pair.1 = .string key ∧ k.shape key = none)
    (hperm : (changed ++ extra).Perm pairs') :
    EntriesAgree k (readable mapKey pairs) (readable mapKey pairs') := by
  intro p c hp
  have hread : (readable mapKey changed ++ readable mapKey extra).Perm (readable mapKey pairs') := by
    rw [← readable_append]
    exact hperm.filterMap _
  have hfilter : ((readable mapKey changed).filter fun e => p e.1).Perm
      ((readable mapKey pairs').filter fun e => p e.1) := by
    have := hread.filter fun e => p e.1
    rwa [List.filter_append, filter_unknown (fun key hk => (hp key hk).2) hx, List.append_nil]
      at this
  have hshort := filter_short k.canonical c p (fun key hk => (hp key hk).1)
    (canonical_agrees h ▸ hd)
  rw [← eq_of_perm_of_short hfilter hshort]
  refine List.rel_filter (fun e e' he => ?_) (readable_agrees h)
  show p e.1 = true ↔ p e'.1 = true
  rw [he.1]

theorem keys_agree (h : List.Forall₂ (PairAgrees k) pairs changed)
    (hx : ∀ pair ∈ extra, ∃ key, pair.1 = .string key ∧ k.shape key = none)
    (hperm : (changed ++ extra).Perm pairs') :
    (∀ pair ∈ pairs, mapKey pair.1 ≠ none) ↔ ∀ pair ∈ pairs', mapKey pair.1 ≠ none := by
  have hchanged : (∀ pair ∈ pairs, mapKey pair.1 ≠ none) ↔ ∀ pair ∈ changed, mapKey pair.1 ≠ none := by
    clear hperm
    induction h with
    | nil => exact Iff.rfl
    | cons hp _ ih => rw [List.forall_mem_cons, List.forall_mem_cons, ih, hp.1]
  have hextra : ∀ pair ∈ extra, mapKey pair.1 ≠ none := by
    intro pair hm
    obtain ⟨key, hkey, -⟩ := hx pair hm
    rw [hkey]
    nofun
  have hsplit : (∀ pair ∈ changed ++ extra, mapKey pair.1 ≠ none)
      ↔ ∀ pair ∈ changed, mapKey pair.1 ≠ none := by
    rw [List.forall_mem_append]
    exact and_iff_left hextra
  rw [hchanged, ← hsplit]
  exact ⟨fun h pair hm => h pair (hperm.mem_iff.mpr hm), fun h pair hm => h pair (hperm.mem_iff.mp hm)⟩

theorem mapEntries_agree (h : List.Forall₂ (PairAgrees k) pairs changed)
    (hd : ((readable mapKey pairs).map fun e => k.canonical e.1).Nodup)
    (hx : ∀ pair ∈ extra, ∃ key, pair.1 = .string key ∧ k.shape key = none)
    (hperm : (changed ++ extra).Perm pairs') (classname : CString) (type : Option CString) :
    Option.Rel (EntriesAgree k) (mapEntries classname (.map type pairs))
      (mapEntries classname (.map type pairs')) := by
  cases type with
  | none => exact .none
  | some type =>
    by_cases ht : type = classname
    · simp only [mapEntries, if_pos ht]
      by_cases hkeys : ∀ pair ∈ pairs, mapKey pair.1 ≠ none
      · rw [readKeys_eq_some.mpr ⟨hkeys, rfl⟩,
          readKeys_eq_some.mpr ⟨(keys_agree h hx hperm).mp hkeys, rfl⟩]
        exact .some (entries_agree h hd hx hperm)
      · have hn : readKeys mapKey pairs = none := by
          rw [Option.eq_none_iff_forall_ne_some]
          exact fun es he => hkeys (readKeys_eq_some.mp he).1
        have hn' : readKeys mapKey pairs' = none := by
          rw [Option.eq_none_iff_forall_ne_some]
          exact fun es he => hkeys ((keys_agree h hx hperm).mpr (readKeys_eq_some.mp he).1)
        rw [hn, hn']
        exact .none
    · simp only [mapEntries, if_neg ht]
      exact .none

end Rearranged

/-! ## 4. Fields read alike -/

section Fields

variable {k : MapKind} {es es' : List (CString × HessianObject)} {α β : Type}

theorem foldlM_congr {R : α → α → Prop} {f : β → α → Option β} {vs vs' : List α}
    (h : List.Forall₂ R vs vs') (hf : ∀ b v v', R v v' → f b v = f b v') (b : β) :
    vs.foldlM f b = vs'.foldlM f b := by
  induction h generalizing b with
  | nil => rfl
  | cons hv _ ih =>
    rw [List.foldlM_cons, List.foldlM_cons, hf b _ _ hv]
    exact congrArg _ (funext ih)

theorem EntriesAgree.gives (h : EntriesAgree k es es') {key : CString} {s : Shape}
    (hs : k.shape key = some s) {f : β → HessianObject → Option β}
    (hf : ∀ b v v', ValuesAgree s v v' → f b v = f b v') {b b' : β} :
    Gives es key f b b' ↔ Gives es' key f b b' := by
  have hentries := h (fun key' => decide (key' = key)) (k.canonical key) (fun key' hk => by
    rw [of_decide_eq_true hk, hs]
    exact ⟨rfl, nofun⟩)
  have hkey : ∀ e ∈ es.filter (fun e => decide (e.1 = key)), e.1 = key := fun e he =>
    of_decide_eq_true (List.mem_filter.mp he).2
  have hvalues : List.Forall₂ (ValuesAgree s) (valuesAt key es) (valuesAt key es') := by
    rw [valuesAt, valuesAt, List.forall₂_map_left_iff, List.forall₂_map_right_iff]
    refine ((List.forall₂_and_left (p := fun e => e.1 = key) _ _).mpr ⟨hkey, hentries⟩).imp ?_
    intro e e' h
    obtain ⟨he, -, hv⟩ := h
    exact hv s (he ▸ hs)
  unfold Gives
  rw [foldlM_congr hvalues hf]

theorem leaf_congr (f : β → HessianObject → Option β) (b : β) (v v' : HessianObject)
    (h : ValuesAgree .leaf v v') : f b v = f b v' := congrArg (f b) h

theorem replace_congr (kind : MapKind) {read : HessianObject → Option β}
    (hread : ∀ h h', Agrees kind h h' → read h = read h') (b : Option β) (v v' : HessianObject)
    (h : ValuesAgree (.one kind) v v') : Field.replace read b v = Field.replace read b v' := by
  unfold Field.replace
  rw [h.1, hread v v' h.2]

theorem append_congr (kind : MapKind) {read : HessianObject → Option β}
    (hread : ∀ h h', Agrees kind h h' → read h = read h') (bs : List β) (v v' : HessianObject)
    (h : ValuesAgree (.many kind) v v') : Field.append read bs v = Field.append read bs v' := by
  rcases h with rfl | ⟨type, es, es', rfl, rfl, he⟩
  · rfl
  · have hm : es.mapM read = es'.mapM read := by
      induction he with
      | nil => rfl
      | cons hv _ ih => rw [mapM_cons_option, mapM_cons_option, hread _ _ hv, ih]
    simp only [Field.append, Value.elements, Option.bind_some, hm]

/-- Two functions of the entries of a Map, with the same values where the entries agree. -/
theorem exists_entries_congr {R : List (CString × HessianObject) →
      List (CString × HessianObject) → Prop} {o o' : Option (List (CString × HessianObject))}
    (h : Option.Rel R o o') {P : List (CString × HessianObject) → Prop}
    (hP : ∀ es es', R es es' → (P es ↔ P es')) :
    (∃ es, o = some es ∧ P es) ↔ ∃ es, o' = some es ∧ P es := by
  cases h with
  | none => exact Iff.rfl
  | @some es es' he =>
    simp only [Option.some.injEq, exists_eq_left']
    exact hP es es' he

end Fields

/-! ## 5. The twelve unmarshallers -/

section Kinds

variable {h h' : HessianObject}

theorem attribute_agrees (he : Option.Rel (EntriesAgree .attribute)
    (mapEntries XACML_HESSIAN_ATTRIBUTE_CLASSNAME h)
    (mapEntries XACML_HESSIAN_ATTRIBUTE_CLASSNAME h')) : Agrees .attribute h h' := by
  refine Option.ext fun attr => ?_
  rw [xacmlAttributeUnmarshal_eq_some, xacmlAttributeUnmarshal_eq_some]
  refine exists_entries_congr he fun es es' he => ?_
  exact and_congr (he.gives rfl (leaf_congr _)) <| and_congr (he.gives rfl (leaf_congr _)) <|
    and_congr (he.gives rfl (leaf_congr _)) (he.gives rfl (leaf_congr _))

theorem subject_agrees (he : Option.Rel (EntriesAgree .subject)
    (mapEntries XACML_HESSIAN_SUBJECT_CLASSNAME h)
    (mapEntries XACML_HESSIAN_SUBJECT_CLASSNAME h')) : Agrees .subject h h' := by
  refine Option.ext fun subject => ?_
  rw [xacmlSubjectUnmarshal_eq_some, xacmlSubjectUnmarshal_eq_some]
  refine exists_entries_congr he fun es es' he => ?_
  exact and_congr (he.gives rfl (leaf_congr _))
    (he.gives rfl (append_congr .attribute fun _ _ => id))

theorem resource_agrees (he : Option.Rel (EntriesAgree .resource)
    (mapEntries XACML_HESSIAN_RESOURCE_CLASSNAME h)
    (mapEntries XACML_HESSIAN_RESOURCE_CLASSNAME h')) : Agrees .resource h h' := by
  refine Option.ext fun resource => ?_
  rw [xacmlResourceUnmarshal_eq_some, xacmlResourceUnmarshal_eq_some]
  refine exists_entries_congr he fun es es' he => ?_
  exact and_congr (he.gives rfl (leaf_congr _))
    (he.gives rfl (append_congr .attribute fun _ _ => id))

theorem action_agrees (he : Option.Rel (EntriesAgree .action)
    (mapEntries XACML_HESSIAN_ACTION_CLASSNAME h)
    (mapEntries XACML_HESSIAN_ACTION_CLASSNAME h')) : Agrees .action h h' := by
  refine Option.ext fun action => ?_
  rw [xacmlActionUnmarshal_eq_some, xacmlActionUnmarshal_eq_some]
  refine exists_entries_congr he fun es es' he => ?_
  exact he.gives rfl (append_congr .attribute fun _ _ => id)

theorem environment_agrees (he : Option.Rel (EntriesAgree .environment)
    (mapEntries XACML_HESSIAN_ENVIRONMENT_CLASSNAME h)
    (mapEntries XACML_HESSIAN_ENVIRONMENT_CLASSNAME h')) : Agrees .environment h h' := by
  refine Option.ext fun environment => ?_
  rw [xacmlEnvironmentUnmarshal_eq_some, xacmlEnvironmentUnmarshal_eq_some]
  refine exists_entries_congr he fun es es' he => ?_
  exact he.gives rfl (append_congr .attribute fun _ _ => id)

theorem request_agrees (he : Option.Rel (EntriesAgree .request)
    (mapEntries XACML_HESSIAN_REQUEST_CLASSNAME h)
    (mapEntries XACML_HESSIAN_REQUEST_CLASSNAME h')) : Agrees .request h h' := by
  refine Option.ext fun request => ?_
  rw [xacmlRequestUnmarshal_eq_some, xacmlRequestUnmarshal_eq_some]
  refine exists_entries_congr he fun es es' he => ?_
  exact and_congr (he.gives rfl (append_congr .subject fun _ _ => id)) <|
    and_congr (he.gives rfl (append_congr .resource fun _ _ => id)) <|
    and_congr (he.gives rfl (replace_congr .action fun _ _ => id))
      (he.gives rfl (replace_congr .environment fun _ _ => id))

theorem statuscode_agrees (he : Option.Rel (EntriesAgree .statuscode)
    (mapEntries XACML_HESSIAN_STATUSCODE_CLASSNAME h)
    (mapEntries XACML_HESSIAN_STATUSCODE_CLASSNAME h')) : Agrees .statuscode h h' := by
  refine Option.ext fun statuscode => ?_
  rw [xacmlStatuscodeUnmarshal_eq_some, xacmlStatuscodeUnmarshal_eq_some]
  refine exists_entries_congr he fun es es' he => ?_
  exact and_congr (he.gives rfl (leaf_congr _))
    (he.gives rfl (replace_congr .statuscode fun _ _ => id))

theorem status_agrees (he : Option.Rel (EntriesAgree .status)
    (mapEntries XACML_HESSIAN_STATUS_CLASSNAME h)
    (mapEntries XACML_HESSIAN_STATUS_CLASSNAME h')) : Agrees .status h h' := by
  refine Option.ext fun status => ?_
  rw [xacmlStatusUnmarshal_eq_some, xacmlStatusUnmarshal_eq_some]
  refine exists_entries_congr he fun es es' he => ?_
  exact and_congr (he.gives rfl (leaf_congr _))
    (he.gives rfl (replace_congr .statuscode fun _ _ => id))

/-- The two keys of the value are one class, and hold no Map. -/
theorem valueEntries_agree {es es' : List (CString × HessianObject)}
    (he : EntriesAgree .attributeassignment es es') :
    (es.filter fun e => isValueKey e.1) = es'.filter fun e => isValueKey e.1 := by
  have hkey : ∀ key, isValueKey key = true →
      MapKind.attributeassignment.canonical key = XACML_HESSIAN_ATTRIBUTEASSIGNMENT_VALUE
        ∧ MapKind.attributeassignment.shape key = some .leaf := by
    intro key hk
    rcases of_decide_eq_true hk with rfl | rfl
    · exact ⟨by decide, by decide⟩
    · exact ⟨by decide, by decide⟩
  have hall := he isValueKey XACML_HESSIAN_ATTRIBUTEASSIGNMENT_VALUE fun key hk =>
    ⟨(hkey key hk).1, by rw [(hkey key hk).2]; nofun⟩
  have hmem : ∀ e ∈ es.filter (fun e => isValueKey e.1), isValueKey e.1 = true := fun e he =>
    (List.mem_filter.mp he).2
  refine List.forall₂_eq_eq_eq ▸
    ((List.forall₂_and_left (p := fun e => isValueKey e.1 = true) _ _).mpr ⟨hmem, hall⟩).imp ?_
  intro h hp hq
  obtain ⟨key, v⟩ := h
  obtain ⟨key', v'⟩ := hp
  obtain ⟨hk, rfl, hv⟩ := hq
  exact Prod.ext rfl (hv .leaf (hkey key hk).2)

theorem attributeassignment_agrees (he : Option.Rel (EntriesAgree .attributeassignment)
    (mapEntries XACML_HESSIAN_ATTRIBUTEASSIGNMENT_CLASSNAME h)
    (mapEntries XACML_HESSIAN_ATTRIBUTEASSIGNMENT_CLASSNAME h')) :
    Agrees .attributeassignment h h' := by
  refine Option.ext fun attr => ?_
  rw [xacmlAttributeassignmentUnmarshal_eq_some, xacmlAttributeassignmentUnmarshal_eq_some]
  refine exists_entries_congr he fun es es' he => ?_
  rw [valueEntries_agree he]
  exact and_congr (he.gives rfl (leaf_congr _)) (and_congr_left' (he.gives rfl (leaf_congr _)))

theorem obligation_agrees (he : Option.Rel (EntriesAgree .obligation)
    (mapEntries XACML_HESSIAN_OBLIGATION_CLASSNAME h)
    (mapEntries XACML_HESSIAN_OBLIGATION_CLASSNAME h')) : Agrees .obligation h h' := by
  refine Option.ext fun obligation => ?_
  rw [xacmlObligationUnmarshal_eq_some, xacmlObligationUnmarshal_eq_some]
  refine exists_entries_congr he fun es es' he => ?_
  exact and_congr (he.gives rfl (leaf_congr _)) <| and_congr (he.gives rfl (leaf_congr _))
    (he.gives rfl (append_congr .attributeassignment fun _ _ => id))

theorem result_agrees (he : Option.Rel (EntriesAgree .result)
    (mapEntries XACML_HESSIAN_RESULT_CLASSNAME h)
    (mapEntries XACML_HESSIAN_RESULT_CLASSNAME h')) : Agrees .result h h' := by
  refine Option.ext fun result => ?_
  rw [xacmlResultUnmarshal_eq_some, xacmlResultUnmarshal_eq_some]
  refine exists_entries_congr he fun es es' he => ?_
  exact and_congr (he.gives rfl (leaf_congr _)) <| and_congr (he.gives rfl (leaf_congr _)) <|
    and_congr (he.gives rfl (replace_congr .status fun _ _ => id))
      (he.gives rfl (append_congr .obligation fun _ _ => id))

theorem response_agrees (he : Option.Rel (EntriesAgree .response)
    (mapEntries XACML_HESSIAN_RESPONSE_CLASSNAME h)
    (mapEntries XACML_HESSIAN_RESPONSE_CLASSNAME h')) : Agrees .response h h' := by
  refine Option.ext fun response => ?_
  rw [xacmlResponseUnmarshal_eq_some, xacmlResponseUnmarshal_eq_some]
  refine exists_entries_congr he fun es es' he => ?_
  exact and_congr (he.gives rfl (replace_congr .request fun _ _ => id))
    (he.gives rfl (append_congr .result fun _ _ => id))

theorem agrees_of_entries (k : MapKind)
    (he : ∀ classname, Option.Rel (EntriesAgree k) (mapEntries classname h)
      (mapEntries classname h')) : Agrees k h h' := by
  match k, he with
  | .response, he => exact response_agrees (he _)
  | .request, he => exact request_agrees (he _)
  | .subject, he => exact subject_agrees (he _)
  | .resource, he => exact resource_agrees (he _)
  | .action, he => exact action_agrees (he _)
  | .environment, he => exact environment_agrees (he _)
  | .attribute, he => exact attribute_agrees (he _)
  | .result, he => exact result_agrees (he _)
  | .status, he => exact status_agrees (he _)
  | .statuscode, he => exact statuscode_agrees (he _)
  | .obligation, he => exact obligation_agrees (he _)
  | .attributeassignment, he => exact attributeassignment_agrees (he _)

end Kinds

/-! ## 6. Variants -/

theorem Variant.gettype {k : MapKind} {h h' : HessianObject} (hv : Variant k h h') :
    hessianGettype h = hessianGettype h' := by
  cases hv with
  | same => rfl
  | map => rfl

-- The induction is on the derivation of the variant; distinct keys are asked for level by level.
mutual
theorem Variant.agrees : ∀ {k : MapKind} {h h' : HessianObject}, Variant k h h' → Distinct k h →
    Agrees k h h'
  | k, h, _, .same _ _, _ => Agrees.refl k h
  | k, _, _, .map type within unknown permuted, hd => by
    cases hd with
    | map keys one many =>
      exact agrees_of_entries k fun classname =>
        mapEntries_agree (within.agrees one many) keys unknown permuted classname type
    | other notMap => exact absurd rfl notMap

theorem VariantPairs.agrees : ∀ {k : MapKind} {pairs changed : List (HessianObject × HessianObject)},
    VariantPairs k pairs changed →
    (∀ pair ∈ pairs, ∀ kind, k.shapeOf pair = some (.one kind) → Distinct kind pair.2) →
    (∀ pair ∈ pairs, ∀ kind, k.shapeOf pair = some (.many kind) →
      ∀ e ∈ elementsOf pair.2, Distinct kind e) →
    List.Forall₂ (PairAgrees k) pairs changed
  | _, _, _, .nil _, _, _ => .nil
  | _, _, _, .leaf key value rest, one, many => by
    rw [List.forall_mem_cons] at one many
    exact .cons ⟨rfl, fun s _ => ValuesAgree.refl s value⟩ (rest.agrees one.2 many.2)
  | _, _, _, .one shape here rest, one, many => by
    rw [List.forall_mem_cons] at one many
    refine .cons ⟨rfl, fun s hs => ?_⟩ (rest.agrees one.2 many.2)
    obtain rfl : Shape.one _ = s := Option.some.inj (shape.symm.trans hs)
    exact ⟨here.gettype, here.agrees (one.1 _ shape)⟩
  | _, _, _, .many shape here rest, one, many => by
    rw [List.forall_mem_cons] at one many
    refine .cons ⟨rfl, fun s hs => ?_⟩ (rest.agrees one.2 many.2)
    obtain rfl : Shape.many _ = s := Option.some.inj (shape.symm.trans hs)
    exact Or.inr ⟨_, _, _, rfl, rfl, here.agrees (many.1 _ shape)⟩

theorem VariantElements.agrees : ∀ {k : MapKind} {es es' : List HessianObject},
    VariantElements k es es' → (∀ e ∈ es, Distinct k e) → List.Forall₂ (Agrees k) es es'
  | _, _, _, .nil _, _ => .nil
  | _, _, _, .cons here rest, hd => by
    rw [List.forall_mem_cons] at hd
    exact .cons (here.agrees hd.1) (rest.agrees hd.2)
end

/-- **Unmarshalling does not depend on the order of map entries or on unknown keys.** Of an object
    whose visited Maps have distinct keys, each variant gives the same response, or fails too. -/
theorem unmarshal_entry_order {h h' : HessianObject} (hd : Distinct .response h)
    (hv : Variant .response h h') : xacmlResponseUnmarshal h = xacmlResponseUnmarshal h' :=
  hv.agrees hd

/-- The pairs of a result that permits and names no resource. -/
def permitPairs : List (HessianObject × HessianObject) :=
  [(.string XACML_HESSIAN_RESULT_DECISION, .integer 1#32),
   (.string XACML_HESSIAN_RESULT_RESOURCEID, .null)]

/-- A response whose one result has the given pairs. -/
def responseOfPairs (pairs : List (HessianObject × HessianObject)) : HessianObject :=
  .map (some XACML_HESSIAN_RESPONSE_CLASSNAME)
    [(.string XACML_HESSIAN_RESPONSE_RESULTS,
      .list none [.map (some XACML_HESSIAN_RESULT_CLASSNAME) pairs])]

/-- The two pairs swapped, and one before them that no unmarshaller knows. -/
theorem unmarshal_entry_order_swapped :
    xacmlResponseUnmarshal (responseOfPairs permitPairs)
      = xacmlResponseUnmarshal (responseOfPairs
          [(.string (CString.lit "note"), .ref 7#32),
           (.string XACML_HESSIAN_RESULT_RESOURCEID, .null),
           (.string XACML_HESSIAN_RESULT_DECISION, .integer 1#32)]) := by
  have hresult : Distinct .result (.map (some XACML_HESSIAN_RESULT_CLASSNAME) permitPairs) := by
    refine .map (by decide) ?_ ?_
    all_goals
      intro pair hp kind hk
      rcases List.mem_pair.mp hp with rfl | rfl <;> cases hk
  have hnote : ∀ pair ∈ [(HessianObject.string (CString.lit "note"), HessianObject.ref 7#32)],
      ∃ key, pair.1 = .string key ∧ MapKind.result.shape key = none := by
    intro pair hp
    rw [List.mem_singleton.mp hp]
    exact ⟨_, rfl, by decide⟩
  have hnothing : ∀ pair ∈ ([] : List (HessianObject × HessianObject)),
      ∃ key, pair.1 = .string key ∧ MapKind.response.shape key = none :=
    fun pair hp => absurd hp List.not_mem_nil
  refine unmarshal_entry_order (.map (by decide) ?_ ?_) (.map _ (.many rfl (.cons (.map _ (.leaf _ _
    (.leaf _ _ (.nil _))) hnote ?_) (.nil _)) (.nil _)) hnothing (.refl _))
  · intro pair hp kind hk
    rw [List.mem_singleton.mp hp] at hk
    cases hk
  · intro pair hp kind hk e he
    rw [List.mem_singleton.mp hp] at hk he
    cases hk
    rw [List.mem_singleton.mp he]
    exact hresult
  · exact (List.reverse_perm _).symm

end ArgusPep
