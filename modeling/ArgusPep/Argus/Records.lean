/-
  File:      ArgusPep/Argus/Records.lean
  Subject:   What the unmarshallers of argus/io.c read: each field of an object from the entries of
             its own key.

  `mapEntries` gives the entries of a Map of a class with their keys read. An unmarshaller returns
  an object when each field of it can be read from the values under its key, in order, whatever
  other entries stand between them (`xacmlAttributeUnmarshal_eq_some` and the eleven theorems like
  it):

  * `Field.text`, `Field.textOrNull`, `Field.enum` -- the last value counts;
  * `Field.textKept` -- the last value counts, but a Null takes nothing back;
  * `Field.replace` -- the last value that is not a Null counts;
  * `Field.append` -- the elements of all the lists count, one list after the other.
-/
import ArgusPep.Argus.Unmarshal

namespace ArgusPep

open Lib Keyed

/-! ## 1. Values -/

def Value.text : HessianObject → Option CString
  | .string s => some s
  | _ => none

def Value.textOrNull : HessianObject → Option (Option CString)
  | .string s => some (some s)
  | .null => some none
  | _ => none

def Value.integer : HessianObject → Option CInt
  | .integer n => some n
  | _ => none

def Value.elements : HessianObject → Option (List HessianObject)
  | .list _ es => some es
  | _ => none

section Readers

variable {σ α β : Type}

def Field.text (_ : Option CString) (value : HessianObject) : Option (Option CString) :=
  (Value.text value).map some

def Field.textOrNull (_ : Option CString) (value : HessianObject) : Option (Option CString) :=
  Value.textOrNull value

def Field.textKept (before : Option CString) (value : HessianObject) : Option (Option CString) :=
  (Value.textOrNull value).map fun now => now.or before

def Field.enum (ofInt : CInt → Option α) (_ : α) (value : HessianObject) : Option α :=
  (Value.integer value).bind ofInt

def Field.replace (read : HessianObject → Option β) (before : Option β) (value : HessianObject) :
    Option (Option β) :=
  if hessianGettype value = .null then some before else (read value).map some

def Field.append (read : HessianObject → Option β) (before : List β) (value : HessianObject) :
    Option (List β) :=
  ((Value.elements value).bind (List.mapM read)).map (before ++ ·)

/-- The value of an attribute assignment, which two keys give. -/
def Field.assignmentValue (before : Option CString) (key : CString) (value : HessianObject) :
    Option (Option CString) :=
  if key = XACML_HESSIAN_ATTRIBUTEASSIGNMENT_VALUE then Value.textOrNull value
  else ((Value.elements value).bind (List.mapM Value.text)).map fun texts => texts.getLast?.or before

/-! ## 2. Fields -/

theorem mapM_cons_option (f : α → Option β) (a : α) (l : List α) :
    (a :: l).mapM f = (f a).bind fun b => (l.mapM f).map (b :: ·) := by
  cases hf : f a with
  | none => simp [List.mapM_cons, hf]
  | some b => cases hl : l.mapM f <;> simp [List.mapM_cons, hf, hl]

theorem stringField_eq {make : Option CString → σ} {set : σ → Option CString → Option σ}
    {object : σ} {b : Option CString} (h : ∀ s, set object (some s) = some (make (some s)))
    (value : HessianObject) :
    stringField set object value = (Field.text b value).map make := by
  cases value <;>
    simp [stringField, Field.text, Value.text, hessianGettype, hessianStringGetstring, h]

theorem optionalStringField_eq {make : Option CString → σ} {set : σ → Option CString → σ}
    {object : σ} {b : Option CString} (h : ∀ s, set object s = make s) (value : HessianObject) :
    optionalStringField set object value = (Field.textOrNull b value).map make := by
  cases value <;>
    simp [optionalStringField, Field.textOrNull, Value.textOrNull, hessianGettype, hessianStringGetstring,
      h]

theorem optionalStringField_keep {make : Option CString → σ} {set : σ → Option CString → σ}
    {object : σ} {b : Option CString} (h : ∀ s, set object s = make (s.or b))
    (value : HessianObject) :
    optionalStringField set object value = (Field.textKept b value).map make := by
  cases value <;>
    simp [optionalStringField, Field.textKept, Value.textOrNull, hessianGettype, hessianStringGetstring, h]

theorem integerField_eq {make : α → σ} {set : σ → CInt → Option σ} {ofInt : CInt → Option α}
    {object : σ} {a : α} (h : ∀ n, set object n = (ofInt n).map make) (value : HessianObject) :
    integerField set object value = (Field.enum ofInt a value).map make := by
  cases value <;> simp [integerField, Field.enum, Value.integer, hessianGettype, hessianIntegerGetvalue, h]

theorem objectField_eq {make : Option β → σ} {set : σ → β → σ} {read : HessianObject → Option β}
    {object : σ} {b : Option β} (ho : object = make b) (h : ∀ x, set object x = make (some x))
    (value : HessianObject) :
    objectField (read value) set object value = (Field.replace read b value).map make := by
  unfold objectField Field.replace
  by_cases hn : hessianGettype value = .null
  · rw [if_pos hn, if_pos hn, ho]
    rfl
  · rw [if_neg hn, if_neg hn, Option.map_map]
    exact congrArg (fun f => (read value).map f) (funext h)

theorem listField_eq {make : List β → σ} {element : σ → HessianObject → Option σ}
    {read : HessianObject → Option β} {object : σ} {bs : List β} (ho : object = make bs)
    (h : ∀ bs e, element (make bs) e = (read e).map fun b => make (bs ++ [b]))
    (value : HessianObject) :
    listField element object value = (Field.append read bs value).map make := by
  subst ho
  cases value with
  | list type es =>
    show es.foldlM element (make bs) = _
    simp only [Field.append, Value.elements, Option.bind_some, Option.map_map]
    induction es generalizing bs with
    | nil => simp
    | cons e es ih =>
      rw [List.foldlM_cons, h, mapM_cons_option]
      cases hr : read e with
      | none => rfl
      | some b =>
        simp only [Option.map_some, Option.bind_some]
        show es.foldlM element (make (bs ++ [b])) = _
        rw [ih]
        cases es.mapM read <;> simp
  | _ => rfl

/-- A list of objects, each added to the end of the field. -/
theorem objectList_eq {make : List β → σ} {add : σ → β → σ} {read : HessianObject → Option β}
    {object : σ} {bs : List β} (ho : object = make bs)
    (h : ∀ bs x, add (make bs) x = make (bs ++ [x])) (value : HessianObject) :
    listField (objectElement read add) object value = (Field.append read bs value).map make :=
  listField_eq ho (fun bs e => congrArg (fun f => (read e).map f) (funext (h bs))) value

/-! ## 3. Frames -/

/-- The entries of a Map of the class, with their keys. -/
def mapEntries (classname : CString) : HessianObject → Option (List (CString × HessianObject))
  | .map (some type) pairs => if type = classname then readKeys mapKey pairs else none
  | _ => none

theorem unmarshalMap_eq_some {classname : CString} {entry : Keyed.Step CString HessianObject σ}
    {object object' : σ} {h : HessianObject} :
    unmarshalMap classname entry object h = some object'
      ↔ ∃ es, mapEntries classname h = some es ∧ fold entry object es = some object' := by
  have hb : unmarshalMap classname entry object h
      = (mapEntries classname h).bind (fold entry object) := by
    match h with
    | .map (some type) pairs =>
      by_cases ht : type = classname
      · simp only [unmarshalMap, mapEntries, if_pos ht, scan_eq]
      · simp only [unmarshalMap, mapEntries, if_neg ht, Option.bind_none]
    | .map none _ => rfl
    | .null | .boolean _ | .integer _ | .long _ | .double _ | .date _ | .string _ | .xml _
    | .binary _ | .remote _ _ | .list _ _ | .ref _ => rfl
  rw [hb, Option.bind_eq_some_iff]

end Readers

/-! ## 4. What a field says of the values -/

/-- The values under the String key `key` of a Map, in order. -/
def valuesUnder (key : CString) : HessianObject → List HessianObject
  | .map _ pairs => (pairs.filter fun p => mapKey p.1 = some key).map Prod.snd
  | _ => []

/-- The elements of a List. -/
def elementsOf (value : HessianObject) : List HessianObject := (Value.elements value).getD []

/-- The values that are not a Null. -/
def notNull (values : List HessianObject) : List HessianObject :=
  values.filter fun v => hessianGettype v ≠ .null

theorem valuesAt_readKeys {key : CString} {pairs : List (HessianObject × HessianObject)}
    {es : List (CString × HessianObject)} (h : readKeys mapKey pairs = some es) :
    valuesAt key es = (pairs.filter fun p => mapKey p.1 = some key).map Prod.snd := by
  induction pairs generalizing es with
  | nil =>
    cases h
    rfl
  | cons p pairs ih =>
    obtain ⟨k, hk, h⟩ := Option.bind_eq_some_iff.mp h
    obtain ⟨es', he, h⟩ := Option.bind_eq_some_iff.mp h
    cases h
    by_cases hkey : k = key
    · rw [hkey, valuesAt_cons_self, ih he, List.filter_cons_of_pos (by simp [hk, hkey])]
      rfl
    · rw [valuesAt_cons_ne hkey, ih he, List.filter_cons_of_neg (by simp [hk, hkey])]

theorem valuesAt_mapEntries {classname key : CString} {h : HessianObject}
    {es : List (CString × HessianObject)} (hm : mapEntries classname h = some es) :
    valuesAt key es = valuesUnder key h := by
  match h, hm with
  | .map (some type) pairs, hm =>
    simp only [mapEntries] at hm
    split at hm
    · exact valuesAt_readKeys hm
    · cases hm

section Says

variable {α β : Type}

/-- Each value was read, from some state of the field. -/
theorem foldlM_reads {f : β → α → Option β} {b b' : β} {vs : List α}
    (h : vs.foldlM f b = some b') : ∀ v ∈ vs, ∃ b₁ b₂, f b₁ v = some b₂ := by
  induction vs generalizing b with
  | nil => nofun
  | cons v vs ih =>
    rw [List.foldlM_cons] at h
    obtain ⟨b₁, hv, h⟩ := Option.bind_eq_some_iff.mp h
    exact List.forall_mem_cons.mpr ⟨⟨b, b₁, hv⟩, ih h⟩

theorem foldlM_text_isSome {b b' : Option CString} {vs : List HessianObject}
    (h : vs.foldlM Field.text b = some b') : b' ≠ none ↔ b ≠ none ∨ vs ≠ [] := by
  induction vs generalizing b with
  | nil =>
    cases h
    simp
  | cons v vs ih =>
    rw [List.foldlM_cons] at h
    obtain ⟨b₁, hv, h⟩ := Option.bind_eq_some_iff.mp h
    obtain ⟨s, _, rfl⟩ := Option.map_eq_some_iff.mp hv
    simp [ih h]

/-- An enumeration reads back as the last value, or as it was. -/
theorem foldlM_enum {ofInt : CInt → Option α} {a a' : α} {vs : List HessianObject}
    (h : vs.foldlM (Field.enum ofInt) a = some a') :
    match vs.getLast? with
    | none => a' = a
    | some v => (Value.integer v).bind ofInt = some a' := by
  induction vs generalizing a with
  | nil =>
    cases h
    rfl
  | cons v vs ih =>
    rw [List.foldlM_cons] at h
    obtain ⟨a₁, hv, h⟩ := Option.bind_eq_some_iff.mp h
    have ih := ih h
    rw [List.getLast?_cons]
    cases hl : vs.getLast? with
    | none =>
      rw [hl] at ih
      rw [ih]
      exact hv
    | some w =>
      rw [hl] at ih
      exact ih

/-- An object reads back from the last value that is not a Null, or is as it was. -/
theorem foldlM_replace {read : HessianObject → Option β} {b b' : Option β}
    {vs : List HessianObject} (h : vs.foldlM (Field.replace read) b = some b') :
    match (notNull vs).getLast? with
    | none => b' = b
    | some v => read v = b' ∧ b' ≠ none := by
  induction vs generalizing b with
  | nil =>
    cases h
    rfl
  | cons v vs ih =>
    rw [List.foldlM_cons] at h
    obtain ⟨b₁, hv, h⟩ := Option.bind_eq_some_iff.mp h
    have ih := ih h
    by_cases hn : hessianGettype v = .null
    · have hf : notNull (v :: vs) = notNull vs := List.filter_cons_of_neg (by simp [hn])
      simp only [Field.replace, if_pos hn] at hv
      cases hv
      rw [hf]
      exact ih
    · have hf : notNull (v :: vs) = v :: notNull vs := List.filter_cons_of_pos (by simp [hn])
      simp only [Field.replace, if_neg hn] at hv
      obtain ⟨x, hx, rfl⟩ := Option.map_eq_some_iff.mp hv
      rw [hf, List.getLast?_cons]
      cases hl : (notNull vs).getLast? with
      | none =>
        rw [hl] at ih
        subst ih
        exact ⟨hx, nofun⟩
      | some w =>
        rw [hl] at ih
        exact ih

theorem mapM_eq_some_iff {read : α → Option β} {l : List α} {bs : List β} :
    l.mapM read = some bs ↔ l.map read = bs.map some := by
  induction l generalizing bs with
  | nil => cases bs <;> simp
  | cons a l ih =>
    rw [mapM_cons_option]
    cases bs with
    | nil => cases read a <;> simp
    | cons b bs =>
      rw [List.map_cons, List.map_cons, List.cons.injEq, ← ih]
      cases read a with
      | none => simp
      | some b' => cases l.mapM read <;> simp

/-- What holds of every object that was read holds along the two lists. -/
theorem forall₂_of_reads {read : α → Option β} {P : α → β → Prop} {l : List α} {bs : List β}
    (h : l.map read = bs.map some) (hP : ∀ a b, read a = some b → P a b) :
    List.Forall₂ P l bs := by
  induction l generalizing bs with
  | nil =>
    cases bs with
    | nil => exact .nil
    | cons _ _ => cases h
  | cons a l ih =>
    cases bs with
    | nil => cases h
    | cons b bs =>
      obtain ⟨hb, hrest⟩ := List.cons.inj h
      exact .cons (hP a b hb) (ih hrest)

/-- A list reads back as the elements of all the lists, in order. -/
theorem foldlM_append {read : HessianObject → Option β} {bs bs' : List β}
    {vs : List HessianObject} (h : vs.foldlM (Field.append read) bs = some bs') :
    ∃ news, bs' = bs ++ news ∧ (vs.flatMap elementsOf).map read = news.map some := by
  induction vs generalizing bs with
  | nil =>
    cases h
    exact ⟨[], by simp, rfl⟩
  | cons v vs ih =>
    rw [List.foldlM_cons] at h
    obtain ⟨bs₁, hv, h⟩ := Option.bind_eq_some_iff.mp h
    obtain ⟨here, hr, rfl⟩ := Option.map_eq_some_iff.mp hv
    obtain ⟨es, he, hr⟩ := Option.bind_eq_some_iff.mp hr
    obtain ⟨news, rfl, hnews⟩ := ih h
    refine ⟨here ++ news, List.append_assoc .., ?_⟩
    have hes : elementsOf v = es := by rw [elementsOf, he, Option.getD_some]
    rw [List.flatMap_cons, hes, List.map_append, mapM_eq_some_iff.mp hr, hnews, List.map_append]

end Says

/-! ## 5. The parts of a request -/

def attributeParts := both (slot XACML_HESSIAN_ATTRIBUTE_ID Field.text)
  (both (slot XACML_HESSIAN_ATTRIBUTE_DATATYPE Field.textOrNull)
    (both (slot XACML_HESSIAN_ATTRIBUTE_ISSUER Field.textOrNull)
      (slot XACML_HESSIAN_ATTRIBUTE_VALUES (Field.append Value.text))))

def attributeOf (t : Option CString × Option CString × Option CString × List CString) :
    XacmlAttribute :=
  ⟨t.1, t.2.1, t.2.2.1, t.2.2.2⟩

theorem attributeEntry_parts (t) (key : CString) (value : HessianObject) :
    attributeEntry (attributeOf t) key value = (attributeParts t key value).map attributeOf := by
  obtain ⟨id, datatype, issuer, values⟩ := t
  refine dispatch rfl (stringField_eq (fun _ => rfl) value) fun _ => ?_
  refine dispatch rfl (optionalStringField_eq (fun _ => rfl) value) fun _ => ?_
  refine dispatch rfl (optionalStringField_eq (fun _ => rfl) value) fun _ => ?_
  exact dispatch_last (listField_eq (by rfl) (fun _ e => by cases e <;> rfl) value) rfl

theorem xacmlAttributeUnmarshal_eq_some {h : HessianObject} {attr : XacmlAttribute} :
    xacmlAttributeUnmarshal h = some attr
      ↔ ∃ es, mapEntries XACML_HESSIAN_ATTRIBUTE_CLASSNAME h = some es
        ∧ Gives es XACML_HESSIAN_ATTRIBUTE_ID Field.text none attr.id
        ∧ Gives es XACML_HESSIAN_ATTRIBUTE_DATATYPE Field.textOrNull none attr.datatype
        ∧ Gives es XACML_HESSIAN_ATTRIBUTE_ISSUER Field.textOrNull none attr.issuer
        ∧ Gives es XACML_HESSIAN_ATTRIBUTE_VALUES (Field.append Value.text) [] attr.values := by
  refine unmarshalMap_eq_some.trans (exists_congr fun es => and_congr_right fun _ => ?_)
  refine (fold_split_eq_some (fun a => (a.id, a.datatype, a.issuer, a.values))
    (fun _ => rfl) (fun _ => rfl) attributeEntry_parts).trans ?_
  simp only [attributeParts, fold_both_eq_some, fold_slot_eq_some]
  rfl

def subjectParts := both (slot XACML_HESSIAN_SUBJECT_CATEGORY Field.textKept)
  (slot XACML_HESSIAN_SUBJECT_ATTRIBUTES (Field.append xacmlAttributeUnmarshal))

def subjectOf (t : Option CString × List XacmlAttribute) : XacmlSubject := ⟨t.1, t.2⟩

theorem subjectEntry_parts (t) (key : CString) (value : HessianObject) :
    subjectEntry (subjectOf t) key value = (subjectParts t key value).map subjectOf := by
  obtain ⟨category, attributes⟩ := t
  refine dispatch rfl (optionalStringField_keep (fun s => by cases s <;> rfl) value) fun _ => ?_
  exact dispatch_last (objectList_eq (by rfl) (fun _ _ => rfl) value) rfl

theorem xacmlSubjectUnmarshal_eq_some {h : HessianObject} {subject : XacmlSubject} :
    xacmlSubjectUnmarshal h = some subject
      ↔ ∃ es, mapEntries XACML_HESSIAN_SUBJECT_CLASSNAME h = some es
        ∧ Gives es XACML_HESSIAN_SUBJECT_CATEGORY Field.textKept none subject.category
        ∧ Gives es XACML_HESSIAN_SUBJECT_ATTRIBUTES (Field.append xacmlAttributeUnmarshal) []
            subject.attributes := by
  refine unmarshalMap_eq_some.trans (exists_congr fun es => and_congr_right fun _ => ?_)
  refine (fold_split_eq_some (fun s => (s.category, s.attributes))
    (fun _ => rfl) (fun _ => rfl) subjectEntry_parts).trans ?_
  simp only [subjectParts, fold_both_eq_some, fold_slot_eq_some]
  rfl

def resourceParts := both (slot XACML_HESSIAN_RESOURCE_CONTENT Field.textKept)
  (slot XACML_HESSIAN_RESOURCE_ATTRIBUTES (Field.append xacmlAttributeUnmarshal))

def resourceOf (t : Option CString × List XacmlAttribute) : XacmlResource := ⟨t.1, t.2⟩

theorem resourceEntry_parts (t) (key : CString) (value : HessianObject) :
    resourceEntry (resourceOf t) key value = (resourceParts t key value).map resourceOf := by
  obtain ⟨content, attributes⟩ := t
  refine dispatch rfl (optionalStringField_keep (fun s => by cases s <;> rfl) value) fun _ => ?_
  exact dispatch_last (objectList_eq (by rfl) (fun _ _ => rfl) value) rfl

theorem xacmlResourceUnmarshal_eq_some {h : HessianObject} {resource : XacmlResource} :
    xacmlResourceUnmarshal h = some resource
      ↔ ∃ es, mapEntries XACML_HESSIAN_RESOURCE_CLASSNAME h = some es
        ∧ Gives es XACML_HESSIAN_RESOURCE_CONTENT Field.textKept none resource.content
        ∧ Gives es XACML_HESSIAN_RESOURCE_ATTRIBUTES (Field.append xacmlAttributeUnmarshal) []
            resource.attributes := by
  refine unmarshalMap_eq_some.trans (exists_congr fun es => and_congr_right fun _ => ?_)
  refine (fold_split_eq_some (fun r => (r.content, r.attributes))
    (fun _ => rfl) (fun _ => rfl) resourceEntry_parts).trans ?_
  simp only [resourceParts, fold_both_eq_some, fold_slot_eq_some]
  rfl

theorem actionEntry_parts (t) (key : CString) (value : HessianObject) :
    actionEntry ⟨t⟩ key value
      = (slot XACML_HESSIAN_ACTION_ATTRIBUTES (Field.append xacmlAttributeUnmarshal) t key
          value).map XacmlAction.mk :=
  dispatch_last (objectList_eq (by rfl) (fun _ _ => rfl) value) rfl

theorem xacmlActionUnmarshal_eq_some {h : HessianObject} {action : XacmlAction} :
    xacmlActionUnmarshal h = some action
      ↔ ∃ es, mapEntries XACML_HESSIAN_ACTION_CLASSNAME h = some es
        ∧ Gives es XACML_HESSIAN_ACTION_ATTRIBUTES (Field.append xacmlAttributeUnmarshal) []
            action.attributes := by
  refine unmarshalMap_eq_some.trans (exists_congr fun es => and_congr_right fun _ => ?_)
  refine (fold_split_eq_some XacmlAction.attributes
    (fun _ => rfl) (fun _ => rfl) actionEntry_parts).trans ?_
  exact fold_slot_eq_some

theorem environmentEntry_parts (t) (key : CString) (value : HessianObject) :
    environmentEntry ⟨t⟩ key value
      = (slot XACML_HESSIAN_ENVIRONMENT_ATTRIBUTES (Field.append xacmlAttributeUnmarshal) t key
          value).map XacmlEnvironment.mk :=
  dispatch_last (objectList_eq (by rfl) (fun _ _ => rfl) value) rfl

theorem xacmlEnvironmentUnmarshal_eq_some {h : HessianObject} {environment : XacmlEnvironment} :
    xacmlEnvironmentUnmarshal h = some environment
      ↔ ∃ es, mapEntries XACML_HESSIAN_ENVIRONMENT_CLASSNAME h = some es
        ∧ Gives es XACML_HESSIAN_ENVIRONMENT_ATTRIBUTES (Field.append xacmlAttributeUnmarshal) []
            environment.attributes := by
  refine unmarshalMap_eq_some.trans (exists_congr fun es => and_congr_right fun _ => ?_)
  refine (fold_split_eq_some XacmlEnvironment.attributes
    (fun _ => rfl) (fun _ => rfl) environmentEntry_parts).trans ?_
  exact fold_slot_eq_some

def requestParts := both (slot XACML_HESSIAN_REQUEST_SUBJECTS (Field.append xacmlSubjectUnmarshal))
  (both (slot XACML_HESSIAN_REQUEST_RESOURCES (Field.append xacmlResourceUnmarshal))
    (both (slot XACML_HESSIAN_REQUEST_ACTION (Field.replace xacmlActionUnmarshal))
      (slot XACML_HESSIAN_REQUEST_ENVIRONMENT (Field.replace xacmlEnvironmentUnmarshal))))

def requestOf (t : List XacmlSubject × List XacmlResource × Option XacmlAction
    × Option XacmlEnvironment) : XacmlRequest :=
  ⟨t.1, t.2.1, t.2.2.1, t.2.2.2⟩

theorem requestEntry_parts (t) (key : CString) (value : HessianObject) :
    requestEntry (requestOf t) key value = (requestParts t key value).map requestOf := by
  obtain ⟨subjects, resources, action, environment⟩ := t
  refine dispatch rfl (objectList_eq (by rfl) (fun _ _ => rfl) value) fun _ => ?_
  refine dispatch rfl (objectList_eq (by rfl) (fun _ _ => rfl) value) fun _ => ?_
  refine dispatch rfl (objectField_eq (by rfl) (fun _ => rfl) value) fun _ => ?_
  exact dispatch_last (objectField_eq (by rfl) (fun _ => rfl) value) rfl

theorem xacmlRequestUnmarshal_eq_some {h : HessianObject} {request : XacmlRequest} :
    xacmlRequestUnmarshal h = some request
      ↔ ∃ es, mapEntries XACML_HESSIAN_REQUEST_CLASSNAME h = some es
        ∧ Gives es XACML_HESSIAN_REQUEST_SUBJECTS (Field.append xacmlSubjectUnmarshal) []
            request.subjects
        ∧ Gives es XACML_HESSIAN_REQUEST_RESOURCES (Field.append xacmlResourceUnmarshal) []
            request.resources
        ∧ Gives es XACML_HESSIAN_REQUEST_ACTION (Field.replace xacmlActionUnmarshal) none
            request.action
        ∧ Gives es XACML_HESSIAN_REQUEST_ENVIRONMENT (Field.replace xacmlEnvironmentUnmarshal) none
            request.environment := by
  refine unmarshalMap_eq_some.trans (exists_congr fun es => and_congr_right fun _ => ?_)
  refine (fold_split_eq_some
    (fun r => (r.subjects, r.resources, r.action, r.environment))
    (fun _ => rfl) (fun _ => rfl) requestEntry_parts).trans ?_
  simp only [requestParts, fold_both_eq_some, fold_slot_eq_some]
  rfl

/-! ## 6. Status -/

/-- The body of the loop of `xacml_statuscode_unmarshal`. -/
def statuscodeEntry (statuscode : XacmlStatuscode) (key : CString) (value : HessianObject) :
    Option XacmlStatuscode :=
  if key = XACML_HESSIAN_STATUSCODE_VALUE then stringField xacmlStatuscodeSetvalue statuscode value
  else if key = XACML_HESSIAN_STATUSCODE_SUBCODE then
    objectField (xacmlStatuscodeUnmarshal value) xacmlStatuscodeSetsubcode statuscode value
  else some statuscode

theorem statuscodePairs_eq (statuscode : XacmlStatuscode)
    (pairs : List (HessianObject × HessianObject)) :
    statuscodePairs statuscode pairs = scan mapKey statuscodeEntry statuscode pairs := by
  induction pairs generalizing statuscode with
  | nil => rw [statuscodePairs, scan]
  | cons p pairs ih =>
    rw [statuscodePairs, scan]
    refine congrArg _ (funext fun key => ?_)
    by_cases h₁ : key = XACML_HESSIAN_STATUSCODE_VALUE
    · simp only [statuscodeEntry, if_pos h₁, ih]
    by_cases h₂ : key = XACML_HESSIAN_STATUSCODE_SUBCODE
    · simp only [statuscodeEntry, if_neg h₁, if_pos h₂, ih]
    · simp only [statuscodeEntry, if_neg h₁, if_neg h₂, ih]

theorem xacmlStatuscodeUnmarshal_eq (h : HessianObject) :
    xacmlStatuscodeUnmarshal h = unmarshalMap XACML_HESSIAN_STATUSCODE_CLASSNAME statuscodeEntry
      (xacmlStatuscodeCreate none) h := by
  match h with
  | .map (some type) pairs =>
    rw [xacmlStatuscodeUnmarshal, statuscodePairs_eq]
    rfl
  | .map none _ => rw [xacmlStatuscodeUnmarshal]; rfl; nofun
  | .null | .boolean _ | .integer _ | .long _ | .double _ | .date _ | .string _ | .xml _
  | .binary _ | .remote _ _ | .list _ _ | .ref _ => rw [xacmlStatuscodeUnmarshal]; rfl; nofun

def statuscodeParts := both (slot XACML_HESSIAN_STATUSCODE_VALUE Field.text)
  (slot XACML_HESSIAN_STATUSCODE_SUBCODE (Field.replace xacmlStatuscodeUnmarshal))

def statuscodeOf (t : Option CString × Option XacmlStatuscode) : XacmlStatuscode := .mk t.1 t.2

theorem statuscodeEntry_parts (t) (key : CString) (value : HessianObject) :
    statuscodeEntry (statuscodeOf t) key value
      = (statuscodeParts t key value).map statuscodeOf := by
  obtain ⟨code, subcode⟩ := t
  refine dispatch rfl (stringField_eq (fun _ => rfl) value) fun _ => ?_
  exact dispatch_last (objectField_eq (by rfl) (fun _ => rfl) value) rfl

theorem xacmlStatuscodeUnmarshal_eq_some {h : HessianObject} {statuscode : XacmlStatuscode} :
    xacmlStatuscodeUnmarshal h = some statuscode
      ↔ ∃ es, mapEntries XACML_HESSIAN_STATUSCODE_CLASSNAME h = some es
        ∧ Gives es XACML_HESSIAN_STATUSCODE_VALUE Field.text none statuscode.value
        ∧ Gives es XACML_HESSIAN_STATUSCODE_SUBCODE (Field.replace xacmlStatuscodeUnmarshal) none
            statuscode.subcode := by
  rw [xacmlStatuscodeUnmarshal_eq]
  refine unmarshalMap_eq_some.trans (exists_congr fun es => and_congr_right fun _ => ?_)
  refine (fold_split_eq_some (fun s => (s.value, s.subcode))
    (fun s => by cases s; rfl) (fun _ => rfl) statuscodeEntry_parts).trans ?_
  simp only [statuscodeParts, fold_both_eq_some, fold_slot_eq_some]
  rfl

def statusParts := both (slot XACML_HESSIAN_STATUS_MESSAGE (Field.replace Value.text))
  (slot XACML_HESSIAN_STATUS_CODE (Field.replace xacmlStatuscodeUnmarshal))

def statusOf (t : Option CString × Option XacmlStatuscode) : XacmlStatus := ⟨t.1, t.2⟩

theorem statusEntry_parts (t) (key : CString) (value : HessianObject) :
    statusEntry (statusOf t) key value = (statusParts t key value).map statusOf := by
  obtain ⟨message, code⟩ := t
  refine dispatch rfl ?_ fun _ => ?_
  · cases value <;> rfl
  · exact dispatch_last (objectField_eq (by rfl) (fun _ => rfl) value) rfl

theorem xacmlStatusUnmarshal_eq_some {h : HessianObject} {status : XacmlStatus} :
    xacmlStatusUnmarshal h = some status
      ↔ ∃ es, mapEntries XACML_HESSIAN_STATUS_CLASSNAME h = some es
        ∧ Gives es XACML_HESSIAN_STATUS_MESSAGE (Field.replace Value.text) none status.message
        ∧ Gives es XACML_HESSIAN_STATUS_CODE (Field.replace xacmlStatuscodeUnmarshal) none
            status.code := by
  refine unmarshalMap_eq_some.trans (exists_congr fun es => and_congr_right fun _ => ?_)
  refine (fold_split_eq_some (fun s => (s.message, s.code))
    (fun _ => rfl) (fun _ => rfl) statusEntry_parts).trans ?_
  simp only [statusParts, fold_both_eq_some, fold_slot_eq_some]
  rfl

/-! ## 7. Obligations -/

/-- Whether a key of an attribute assignment gives its value. -/
def isValueKey (key : CString) : Bool :=
  decide (key = XACML_HESSIAN_ATTRIBUTEASSIGNMENT_VALUE
    ∨ key = XACML_HESSIAN_ATTRIBUTEASSIGNMENT_VALUES)

def attributeassignmentParts := both (slot XACML_HESSIAN_ATTRIBUTEASSIGNMENT_ID Field.text)
  (both (slot XACML_HESSIAN_ATTRIBUTEASSIGNMENT_DATATYPE Field.textOrNull)
    (slots isValueKey Field.assignmentValue))

def attributeassignmentOf (t : Option CString × Option CString × Option CString) :
    XacmlAttributeassignment :=
  ⟨t.1, t.2.1, t.2.2⟩

/-- Of the texts of a list the last one stays. -/
theorem assignmentValues_eq (make : Option CString → XacmlAttributeassignment)
    (h : ∀ b s, xacmlAttributeassignmentSetvalue (make b) s = make s) (b : Option CString)
    (value : HessianObject) :
    listField (stringField fun attr value => some (xacmlAttributeassignmentSetvalue attr value))
        (make b) value
      = (((Value.elements value).bind (List.mapM Value.text)).map fun texts =>
          texts.getLast?.or b).map make := by
  cases value with
  | list type es =>
    show es.foldlM _ (make b) = _
    simp only [Value.elements, Option.bind_some, Option.map_map]
    induction es generalizing b with
    | nil => rfl
    | cons e es ih =>
      rw [List.foldlM_cons, mapM_cons_option]
      cases e with
      | string s =>
        simp only [stringField, hessianGettype, hessianStringGetstring, h, Value.text]
        show es.foldlM _ (make (some s)) = _
        rw [ih]
        cases es.mapM Value.text with
        | none => rfl
        | some texts => cases texts <;> simp [List.getLast?_cons]
      | _ => rfl
  | _ => rfl

theorem attributeassignmentEntry_parts (t) (key : CString) (value : HessianObject) :
    attributeassignmentEntry (attributeassignmentOf t) key value
      = (attributeassignmentParts t key value).map attributeassignmentOf := by
  obtain ⟨id, datatype, b⟩ := t
  refine dispatch rfl (stringField_eq (fun _ => rfl) value) fun _ => ?_
  refine dispatch rfl (optionalStringField_eq (fun _ => rfl) value) fun _ => ?_
  -- two keys lead to the value
  by_cases h₁ : key = XACML_HESSIAN_ATTRIBUTEASSIGNMENT_VALUE
  · rw [if_pos h₁]
    refine (optionalStringField_eq (b := b) (fun _ => rfl) value).trans ?_
    have hp : isValueKey key = true := decide_eq_true (Or.inl h₁)
    simp only [slots, hp, Field.assignmentValue, Field.textOrNull, if_pos h₁, if_true]
    rfl
  rw [if_neg h₁]
  by_cases h₂ : key = XACML_HESSIAN_ATTRIBUTEASSIGNMENT_VALUES
  · rw [if_pos h₂]
    refine (assignmentValues_eq (fun b => attributeassignmentOf (id, datatype, b))
      (fun _ _ => rfl) b value).trans ?_
    have hp : isValueKey key = true := decide_eq_true (Or.inr h₂)
    simp only [slots, hp, Field.assignmentValue, if_neg h₁, if_true]
  · rw [if_neg h₂]
    simp [slots, isValueKey, h₁, h₂]

theorem xacmlAttributeassignmentUnmarshal_eq_some {h : HessianObject}
    {attr : XacmlAttributeassignment} :
    xacmlAttributeassignmentUnmarshal h = some attr
      ↔ ∃ es, mapEntries XACML_HESSIAN_ATTRIBUTEASSIGNMENT_CLASSNAME h = some es
        ∧ Gives es XACML_HESSIAN_ATTRIBUTEASSIGNMENT_ID Field.text none attr.id
        ∧ Gives es XACML_HESSIAN_ATTRIBUTEASSIGNMENT_DATATYPE Field.textOrNull none attr.datatype
        ∧ fold Field.assignmentValue none (es.filter fun e => isValueKey e.1) = some attr.value := by
  refine unmarshalMap_eq_some.trans (exists_congr fun es => and_congr_right fun _ => ?_)
  refine (fold_split_eq_some (fun a => (a.id, a.datatype, a.value))
    (fun _ => rfl) (fun _ => rfl) attributeassignmentEntry_parts).trans ?_
  simp only [attributeassignmentParts, fold_both_eq_some, fold_slot_eq_some, fold_slots]
  rfl

def obligationParts := both (slot XACML_HESSIAN_OBLIGATION_ID Field.text)
  (both (slot XACML_HESSIAN_OBLIGATION_FULFILLON (Field.enum XacmlFulfillon.ofInt))
    (slot XACML_HESSIAN_OBLIGATION_ASSIGNMENTS (Field.append xacmlAttributeassignmentUnmarshal)))

def obligationOf (t : Option CString × XacmlFulfillon × List XacmlAttributeassignment) :
    XacmlObligation :=
  ⟨t.1, t.2.1, t.2.2⟩

theorem obligationEntry_parts (t) (key : CString) (value : HessianObject) :
    obligationEntry (obligationOf t) key value
      = (obligationParts t key value).map obligationOf := by
  obtain ⟨id, fulfillon, assignments⟩ := t
  refine dispatch rfl (stringField_eq (fun _ => rfl) value) fun _ => ?_
  refine dispatch rfl (integerField_eq (fun _ => rfl) value) fun _ => ?_
  exact dispatch_last (objectList_eq (by rfl) (fun _ _ => rfl) value) rfl

theorem xacmlObligationUnmarshal_eq_some {h : HessianObject} {obligation : XacmlObligation} :
    xacmlObligationUnmarshal h = some obligation
      ↔ ∃ es, mapEntries XACML_HESSIAN_OBLIGATION_CLASSNAME h = some es
        ∧ Gives es XACML_HESSIAN_OBLIGATION_ID Field.text none obligation.id
        ∧ Gives es XACML_HESSIAN_OBLIGATION_FULFILLON (Field.enum XacmlFulfillon.ofInt) .deny
            obligation.fulfillon
        ∧ Gives es XACML_HESSIAN_OBLIGATION_ASSIGNMENTS
            (Field.append xacmlAttributeassignmentUnmarshal) [] obligation.assignments := by
  refine unmarshalMap_eq_some.trans (exists_congr fun es => and_congr_right fun _ => ?_)
  refine (fold_split_eq_some (fun o => (o.id, o.fulfillon, o.assignments))
    (fun _ => rfl) (fun _ => rfl) obligationEntry_parts).trans ?_
  simp only [obligationParts, fold_both_eq_some, fold_slot_eq_some]
  rfl

/-! ## 8. Results and responses -/

def resultParts := both (slot XACML_HESSIAN_RESULT_DECISION (Field.enum XacmlDecision.ofInt))
  (both (slot XACML_HESSIAN_RESULT_RESOURCEID Field.textOrNull)
    (both (slot XACML_HESSIAN_RESULT_STATUS (Field.replace xacmlStatusUnmarshal))
      (slot XACML_HESSIAN_RESULT_OBLIGATIONS (Field.append xacmlObligationUnmarshal))))

def resultOf (t : XacmlDecision × Option CString × Option XacmlStatus × List XacmlObligation) :
    XacmlResult :=
  ⟨t.2.1, t.1, t.2.2.1, t.2.2.2⟩

theorem resultEntry_parts (t) (key : CString) (value : HessianObject) :
    resultEntry (resultOf t) key value = (resultParts t key value).map resultOf := by
  obtain ⟨decision, resourceid, status, obligations⟩ := t
  refine dispatch rfl (integerField_eq (fun _ => rfl) value) fun _ => ?_
  refine dispatch rfl (optionalStringField_eq (fun _ => rfl) value) fun _ => ?_
  refine dispatch rfl (objectField_eq (by rfl) (fun _ => rfl) value) fun _ => ?_
  exact dispatch_last (objectList_eq (by rfl) (fun _ _ => rfl) value) rfl

theorem xacmlResultUnmarshal_eq_some {h : HessianObject} {result : XacmlResult} :
    xacmlResultUnmarshal h = some result
      ↔ ∃ es, mapEntries XACML_HESSIAN_RESULT_CLASSNAME h = some es
        ∧ Gives es XACML_HESSIAN_RESULT_DECISION (Field.enum XacmlDecision.ofInt) .deny
            result.decision
        ∧ Gives es XACML_HESSIAN_RESULT_RESOURCEID Field.textOrNull none result.resourceid
        ∧ Gives es XACML_HESSIAN_RESULT_STATUS (Field.replace xacmlStatusUnmarshal) none
            result.status
        ∧ Gives es XACML_HESSIAN_RESULT_OBLIGATIONS (Field.append xacmlObligationUnmarshal) []
            result.obligations := by
  refine unmarshalMap_eq_some.trans (exists_congr fun es => and_congr_right fun _ => ?_)
  refine (fold_split_eq_some
    (fun r => (r.decision, r.resourceid, r.status, r.obligations))
    (fun _ => rfl) (fun _ => rfl) resultEntry_parts).trans ?_
  simp only [resultParts, fold_both_eq_some, fold_slot_eq_some]
  rfl

def responseParts := both (slot XACML_HESSIAN_RESPONSE_REQUEST (Field.replace xacmlRequestUnmarshal))
  (slot XACML_HESSIAN_RESPONSE_RESULTS (Field.append xacmlResultUnmarshal))

def responseOf (t : Option XacmlRequest × List XacmlResult) : XacmlResponse := ⟨t.1, t.2⟩

theorem responseEntry_parts (t) (key : CString) (value : HessianObject) :
    responseEntry (responseOf t) key value = (responseParts t key value).map responseOf := by
  obtain ⟨request, results⟩ := t
  refine dispatch rfl (objectField_eq (by rfl) (fun _ => rfl) value) fun _ => ?_
  exact dispatch_last (objectList_eq (by rfl) (fun _ _ => rfl) value) rfl

theorem xacmlResponseUnmarshal_eq_some {h : HessianObject} {response : XacmlResponse} :
    xacmlResponseUnmarshal h = some response
      ↔ ∃ es, mapEntries XACML_HESSIAN_RESPONSE_CLASSNAME h = some es
        ∧ Gives es XACML_HESSIAN_RESPONSE_REQUEST (Field.replace xacmlRequestUnmarshal) none
            response.request
        ∧ Gives es XACML_HESSIAN_RESPONSE_RESULTS (Field.append xacmlResultUnmarshal) []
            response.results := by
  refine unmarshalMap_eq_some.trans (exists_congr fun es => and_congr_right fun _ => ?_)
  refine (fold_split_eq_some (fun r => (r.request, r.results))
    (fun _ => rfl) (fun _ => rfl) responseEntry_parts).trans ?_
  simp only [responseParts, fold_both_eq_some, fold_slot_eq_some]
  rfl

end ArgusPep
