/-
  File:      ArgusPep/Argus/UnmarshalCalls.lean
  Subject:   The create and set calls argus/io.c makes on any Hessian object.

  * `Class`, `Role` -- the twelve functions, and what their loops do with the value under a key;
  * `Class.goesOn` -- whether a loop takes a pair; `accepts_map` -- a Map is unmarshalled exactly if
    its loop takes each pair;
  * `objectEvents` -- the Maps that are gone through and the setter calls, in their order;
  * `Filled` -- what calls add to the objects: the setter calls on an object are those for the pairs
    of its Map, whatever is unmarshalled in between;
  * **`ownedStrings_sound_iff`** -- any calls are sound exactly if no NULL is set as a category or a
    content behind a string, and those of the unmarshaller exactly if it reads no Map with a Null
    behind a String there.
-/
import ArgusPep.Argus.OwnedStrings
import ArgusPep.Argus.Records

namespace ArgusPep.Owned

open Lib Keyed

/-! ## 1. The loops -/

/-- The classes of argus/io.h. -/
inductive Class where
  | attr | subject | resource | action | environment | request
  | statuscode | status | attributeassignment | obligation | result | response
deriving DecidableEq, Repr

def Class.name : Class → CString
  | .attr => XACML_HESSIAN_ATTRIBUTE_CLASSNAME
  | .subject => XACML_HESSIAN_SUBJECT_CLASSNAME
  | .resource => XACML_HESSIAN_RESOURCE_CLASSNAME
  | .action => XACML_HESSIAN_ACTION_CLASSNAME
  | .environment => XACML_HESSIAN_ENVIRONMENT_CLASSNAME
  | .request => XACML_HESSIAN_REQUEST_CLASSNAME
  | .statuscode => XACML_HESSIAN_STATUSCODE_CLASSNAME
  | .status => XACML_HESSIAN_STATUS_CLASSNAME
  | .attributeassignment => XACML_HESSIAN_ATTRIBUTEASSIGNMENT_CLASSNAME
  | .obligation => XACML_HESSIAN_OBLIGATION_CLASSNAME
  | .result => XACML_HESSIAN_RESULT_CLASSNAME
  | .response => XACML_HESSIAN_RESPONSE_CLASSNAME

/-- The object a function creates, if it has strings. -/
def Class.kind : Class → Option ObjectKind
  | .attr => some .attr
  | .subject => some .subject
  | .resource => some .resource
  | .statuscode => some .statuscode
  | .status => some .status
  | .attributeassignment => some .attributeassignment
  | .obligation => some .obligation
  | .result => some .result
  | .action | .environment | .request | .response => none

/-- Whether the function of the class returns PEP_IO_OK. -/
def Class.accepts (cls : Class) (h : HessianObject) : Bool :=
  match cls with
  | .attr => (xacmlAttributeUnmarshal h).isSome
  | .subject => (xacmlSubjectUnmarshal h).isSome
  | .resource => (xacmlResourceUnmarshal h).isSome
  | .action => (xacmlActionUnmarshal h).isSome
  | .environment => (xacmlEnvironmentUnmarshal h).isSome
  | .request => (xacmlRequestUnmarshal h).isSome
  | .statuscode => (xacmlStatuscodeUnmarshal h).isSome
  | .status => (xacmlStatusUnmarshal h).isSome
  | .attributeassignment => (xacmlAttributeassignmentUnmarshal h).isSome
  | .obligation => (xacmlObligationUnmarshal h).isSome
  | .result => (xacmlResultUnmarshal h).isSome
  | .response => (xacmlResponseUnmarshal h).isSome

/-- Whether the loop goes on behind a pair: a Map of this pair alone is unmarshalled. -/
def Class.goesOn (cls : Class) (pair : HessianObject × HessianObject) : Bool :=
  cls.accepts (.map (some cls.name) [pair])

/-- The pairs the loop sees: up to the first it does not go on behind. -/
def Class.pairsRead (cls : Class) :
    List (HessianObject × HessianObject) → List (HessianObject × HessianObject)
  | [] => []
  | pair :: pairs => pair :: if cls.goesOn pair then cls.pairsRead pairs else []

/-! ## 2. A pair at a time -/

section Steadiness

variable {σ β : Type}

theorem isSome_ite {c : Prop} [Decidable c] {x x' y y' : Option σ} (hx : x.isSome = x'.isSome)
    (hy : y.isSome = y'.isSome) : (if c then x else y).isSome = (if c then x' else y').isSome := by
  by_cases hc : c
  · rwa [if_pos hc, if_pos hc]
  · rwa [if_neg hc, if_neg hc]

/-- Whether a value is refused does not depend on the object. -/
def SteadyField {α : Type} (set : σ → α → Option σ) : Prop :=
  ∀ s t value, (set s value).isSome = (set t value).isSome

theorem SteadyField.some {α : Type} (set : σ → α → σ) :
    SteadyField fun s (value : α) => some (set s value) :=
  fun _ _ _ => rfl

theorem SteadyField.stringField {set : σ → Option CString → Option σ} (h : SteadyField set) :
    SteadyField (stringField set) :=
  fun s t value => isSome_ite rfl (h s t (hessianStringGetstring value))

theorem SteadyField.optionalStringField (set : σ → Option CString → σ) :
    SteadyField (optionalStringField set) :=
  fun _ _ _ => isSome_ite rfl rfl

theorem SteadyField.integerField {set : σ → CInt → Option σ} (h : SteadyField set) :
    SteadyField (integerField set) :=
  fun s t value => isSome_ite rfl (h s t (hessianIntegerGetvalue value))

theorem SteadyField.objectField (unmarshalled : Option β) (set : σ → β → σ) (s t : σ)
    (value : HessianObject) : (objectField unmarshalled set s value).isSome
      = (objectField unmarshalled set t value).isSome :=
  isSome_ite rfl (by rw [Option.isSome_map, Option.isSome_map])

theorem SteadyField.objectElement (unmarshal : HessianObject → Option β) (add : σ → β → σ) :
    SteadyField (objectElement unmarshal add) := by
  intro s t value
  unfold ArgusPep.objectElement
  rw [Option.isSome_map, Option.isSome_map]

theorem SteadyField.listField {element : σ → HessianObject → Option σ} (h : SteadyField element) :
    SteadyField (listField element) := by
  have hfold : ∀ (elements : List HessianObject) (s t : σ),
      (elements.foldlM element s).isSome = (elements.foldlM element t).isSome := by
    intro elements
    induction elements with
    | nil => exact fun _ _ => rfl
    | cons e elements ih =>
      intro s t
      have hstep := h s t e
      rw [List.foldlM_cons, List.foldlM_cons]
      cases hs : element s e <;> cases ht : element t e
      · rfl
      · rw [hs, ht] at hstep
        cases hstep
      · rw [hs, ht] at hstep
        cases hstep
      · exact ih _ _
  intro s t value
  cases value with
  | list type elements => exact hfold elements s t
  | _ => rfl

end Steadiness

theorem attributeEntry_steady : Steady attributeEntry := fun s t _ value =>
  isSome_ite (SteadyField.stringField (fun _ _ text => by cases text <;> rfl) s t value)
    (isSome_ite (SteadyField.optionalStringField _ s t value)
      (isSome_ite (SteadyField.optionalStringField _ s t value)
        (isSome_ite (SteadyField.listField
          (SteadyField.stringField fun _ _ text => by cases text <;> rfl) s t value) rfl)))

theorem subjectEntry_steady : Steady subjectEntry := fun s t _ value =>
  isSome_ite (SteadyField.optionalStringField _ s t value)
    (isSome_ite (SteadyField.listField (SteadyField.objectElement _ _) s t value) rfl)

theorem resourceEntry_steady : Steady resourceEntry := fun s t _ value =>
  isSome_ite (SteadyField.optionalStringField _ s t value)
    (isSome_ite (SteadyField.listField (SteadyField.objectElement _ _) s t value) rfl)

theorem actionEntry_steady : Steady actionEntry := fun s t _ value =>
  isSome_ite (SteadyField.listField (SteadyField.objectElement _ _) s t value) rfl

theorem environmentEntry_steady : Steady environmentEntry := fun s t _ value =>
  isSome_ite (SteadyField.listField (SteadyField.objectElement _ _) s t value) rfl

theorem requestEntry_steady : Steady requestEntry := fun s t _ value =>
  isSome_ite (SteadyField.listField (SteadyField.objectElement _ _) s t value)
    (isSome_ite (SteadyField.listField (SteadyField.objectElement _ _) s t value)
      (isSome_ite (SteadyField.objectField _ _ s t value)
        (isSome_ite (SteadyField.objectField _ _ s t value) rfl)))

theorem statuscodeEntry_steady : Steady statuscodeEntry := fun s t _ value =>
  isSome_ite (SteadyField.stringField (fun _ _ text => by cases text <;> rfl) s t value)
    (isSome_ite (SteadyField.objectField _ _ s t value) rfl)

theorem statusEntry_steady : Steady statusEntry := fun s t _ value =>
  isSome_ite (isSome_ite
      (SteadyField.stringField (fun _ _ text => by cases text <;> rfl) s t value) rfl)
    (isSome_ite (SteadyField.objectField _ _ s t value) rfl)

theorem attributeassignmentEntry_steady : Steady attributeassignmentEntry := fun s t _ value =>
  isSome_ite (SteadyField.stringField (fun _ _ text => by cases text <;> rfl) s t value)
    (isSome_ite (SteadyField.optionalStringField _ s t value)
      (isSome_ite (SteadyField.optionalStringField _ s t value)
        (isSome_ite (SteadyField.listField
          (SteadyField.stringField (SteadyField.some _)) s t value) rfl)))

theorem obligationEntry_steady : Steady obligationEntry := fun s t _ value =>
  isSome_ite (SteadyField.stringField (fun _ _ text => by cases text <;> rfl) s t value)
    (isSome_ite (SteadyField.integerField
        (fun _ _ n => by simp only [xacmlObligationSetfulfillon, Option.isSome_map]) s t value)
      (isSome_ite (SteadyField.listField (SteadyField.objectElement _ _) s t value) rfl))

theorem resultEntry_steady : Steady resultEntry := fun s t _ value =>
  isSome_ite (SteadyField.integerField
      (fun _ _ n => by simp only [xacmlResultSetdecision, Option.isSome_map]) s t value)
    (isSome_ite (SteadyField.optionalStringField _ s t value)
      (isSome_ite (SteadyField.objectField _ _ s t value)
        (isSome_ite (SteadyField.listField (SteadyField.objectElement _ _) s t value) rfl)))

theorem responseEntry_steady : Steady responseEntry := fun s t _ value =>
  isSome_ite (SteadyField.objectField _ _ s t value)
    (isSome_ite (SteadyField.listField (SteadyField.objectElement _ _) s t value) rfl)

theorem unmarshalMap_isSome {σ : Type} {entry : Keyed.Step CString HessianObject σ} (h : Steady entry)
    (classname : CString) (object : σ) (pairs : List (HessianObject × HessianObject)) :
    (unmarshalMap classname entry object (.map (some classname) pairs)).isSome
      = pairs.all fun pair =>
        (unmarshalMap classname entry object (.map (some classname) [pair])).isSome := by
  simp only [unmarshalMap, if_true]
  exact scan_isSome h mapKey object pairs

/-- **A Map of the class is unmarshalled exactly if the loop goes on behind each of its pairs.** -/
theorem accepts_map (cls : Class) (pairs : List (HessianObject × HessianObject)) :
    cls.accepts (.map (some cls.name) pairs) = pairs.all cls.goesOn := by
  cases cls with
  | attr => exact unmarshalMap_isSome attributeEntry_steady _ _ pairs
  | subject => exact unmarshalMap_isSome subjectEntry_steady _ _ pairs
  | resource => exact unmarshalMap_isSome resourceEntry_steady _ _ pairs
  | action => exact unmarshalMap_isSome actionEntry_steady _ _ pairs
  | environment => exact unmarshalMap_isSome environmentEntry_steady _ _ pairs
  | request => exact unmarshalMap_isSome requestEntry_steady _ _ pairs
  | status => exact unmarshalMap_isSome statusEntry_steady _ _ pairs
  | attributeassignment => exact unmarshalMap_isSome attributeassignmentEntry_steady _ _ pairs
  | obligation => exact unmarshalMap_isSome obligationEntry_steady _ _ pairs
  | result => exact unmarshalMap_isSome resultEntry_steady _ _ pairs
  | response => exact unmarshalMap_isSome responseEntry_steady _ _ pairs
  | statuscode =>
    show (xacmlStatuscodeUnmarshal _).isSome
      = pairs.all fun pair => (xacmlStatuscodeUnmarshal (.map _ [pair])).isSome
    simp only [xacmlStatuscodeUnmarshal_eq]
    exact unmarshalMap_isSome statuscodeEntry_steady _ _ pairs

/-! ## 3. The calls -/

/-- What a loop does with the value under a key. -/
inductive Role where
  | string (field : StringField)
  /-- A String, or a Null for the NULL string. -/
  | optionalString (field : StringField)
  /-- A List of Strings, each set in its turn. -/
  | strings (field : StringField)
  | object (cls : Class)
  | objects (cls : Class)
  /-- No object and no `char *` field. -/
  | other

def Class.roles : Class → List (CString × Role)
  | .attr =>
    [(XACML_HESSIAN_ATTRIBUTE_ID, .string .attributeId),
      (XACML_HESSIAN_ATTRIBUTE_DATATYPE, .optionalString .attributeDatatype),
      (XACML_HESSIAN_ATTRIBUTE_ISSUER, .optionalString .attributeIssuer)]
  | .subject =>
    [(XACML_HESSIAN_SUBJECT_CATEGORY, .optionalString .subjectCategory),
      (XACML_HESSIAN_SUBJECT_ATTRIBUTES, .objects .attr)]
  | .resource =>
    [(XACML_HESSIAN_RESOURCE_CONTENT, .optionalString .resourceContent),
      (XACML_HESSIAN_RESOURCE_ATTRIBUTES, .objects .attr)]
  | .action => [(XACML_HESSIAN_ACTION_ATTRIBUTES, .objects .attr)]
  | .environment => [(XACML_HESSIAN_ENVIRONMENT_ATTRIBUTES, .objects .attr)]
  | .request =>
    [(XACML_HESSIAN_REQUEST_SUBJECTS, .objects .subject),
      (XACML_HESSIAN_REQUEST_RESOURCES, .objects .resource),
      (XACML_HESSIAN_REQUEST_ACTION, .object .action),
      (XACML_HESSIAN_REQUEST_ENVIRONMENT, .object .environment)]
  | .statuscode =>
    [(XACML_HESSIAN_STATUSCODE_VALUE, .string .statuscodeValue),
      (XACML_HESSIAN_STATUSCODE_SUBCODE, .object .statuscode)]
  | .status =>
    [(XACML_HESSIAN_STATUS_MESSAGE, .string .statusMessage),
      (XACML_HESSIAN_STATUS_CODE, .object .statuscode)]
  | .attributeassignment =>
    [(XACML_HESSIAN_ATTRIBUTEASSIGNMENT_ID, .string .attributeassignmentId),
      (XACML_HESSIAN_ATTRIBUTEASSIGNMENT_DATATYPE, .optionalString .attributeassignmentDatatype),
      (XACML_HESSIAN_ATTRIBUTEASSIGNMENT_VALUE, .optionalString .attributeassignmentValue),
      (XACML_HESSIAN_ATTRIBUTEASSIGNMENT_VALUES, .strings .attributeassignmentValue)]
  | .obligation =>
    [(XACML_HESSIAN_OBLIGATION_ID, .string .obligationId),
      (XACML_HESSIAN_OBLIGATION_ASSIGNMENTS, .objects .attributeassignment)]
  | .result =>
    [(XACML_HESSIAN_RESULT_RESOURCEID, .optionalString .resultResourceid),
      (XACML_HESSIAN_RESULT_STATUS, .object .status),
      (XACML_HESSIAN_RESULT_OBLIGATIONS, .objects .obligation)]
  | .response =>
    [(XACML_HESSIAN_RESPONSE_REQUEST, .object .request),
      (XACML_HESSIAN_RESPONSE_RESULTS, .objects .result)]

def Class.role (cls : Class) (key : HessianObject) : Role :=
  match mapKey key with
  | none => .other
  | some key =>
    match cls.roles.find? fun e => e.1 = key with
    | none => .other
    | some e => e.2

/-- The setter calls for the value under a key. A value of another type is refused before them, as
    is the Null under the key of a String. -/
def Role.sets : Role → HessianObject → List (StringField × Option CString)
  | .string field, .string text => [(field, some text)]
  | .optionalString field, .string text => [(field, some text)]
  | .optionalString field, .null => [(field, none)]
  | .strings field, .list _ elements =>
    (elements.takeWhile fun e => hessianGettype e = .string).map fun e =>
      (field, hessianStringGetstring e)
  | _, _ => []

inductive Event where
  /-- A Map of the class is gone through, and these pairs are read. -/
  | read (cls : Class) (pairs : List (HessianObject × HessianObject))
  | set (object : Nat) (field : StringField) (value : Option CString)

def Event.calls : Event → List Call
  | .read cls _ => cls.kind.toList.map fun kind => .create kind none
  | .set n field value => [.set n field value]

def callsOf (events : List Event) : List Call := events.flatMap Event.calls

/-- The objects created, by their kind. -/
def kindsOf (events : List Event) : List ObjectKind :=
  events.flatMap fun
    | .read cls _ => cls.kind.toList
    | .set _ _ _ => []

mutual
/-- The function of the class on an object, where the next object created is `next`. -/
def objectEvents (next : Nat) (cls : Class) : HessianObject → List Event
  | .map (some type) pairs =>
    if type = cls.name then
      .read cls (cls.pairsRead pairs)
        :: pairsEvents next (next + cls.kind.toList.length) cls pairs
    else []
  | _ => []

/-- The loop over the pairs, which fills the object `self`. -/
def pairsEvents (self next : Nat) (cls : Class) :
    List (HessianObject × HessianObject) → List Event
  | [] => []
  | (key, value) :: pairs =>
    let events := ((cls.role key).sets value).map (fun e => .set self e.1 e.2) ++
      match cls.role key with
      | .object cls => objectEvents next cls value
      | .objects cls => listEvents next cls value
      | _ => []
    if cls.goesOn (key, value) then
      events ++ pairsEvents self (next + (kindsOf events).length) cls pairs
    else events

def listEvents (next : Nat) (cls : Class) : HessianObject → List Event
  | .list _ elements => elementsEvents next cls elements
  | _ => []

/-- The loop over the elements, up to the first that is refused. -/
def elementsEvents (next : Nat) (cls : Class) : List HessianObject → List Event
  | [] => []
  | element :: elements =>
    let events := objectEvents next cls element
    if cls.accepts element then
      events ++ elementsEvents (next + (kindsOf events).length) cls elements
    else events
end

/-! ## 4. The calls on each object -/

/-- The setter calls for the pairs of a Map. -/
def Class.setsIn (cls : Class) (pairs : List (HessianObject × HessianObject)) :
    List (StringField × Option CString) :=
  pairs.flatMap fun pair => (cls.role pair.1).sets pair.2

/-- The setter calls for the pairs of the Maps that objects are created for. -/
def objectsOf (events : List Event) : List (List (StringField × Option CString)) :=
  events.flatMap fun
    | .read cls pairs => cls.kind.toList.map fun _ => cls.setsIn pairs
    | .set _ _ _ => []

theorem callsOf_append (events more : List Event) :
    callsOf (events ++ more) = callsOf events ++ callsOf more :=
  List.flatMap_append

theorem kindsOf_append (events more : List Event) :
    kindsOf (events ++ more) = kindsOf events ++ kindsOf more :=
  List.flatMap_append

theorem objectsOf_append (events more : List Event) :
    objectsOf (events ++ more) = objectsOf events ++ objectsOf more :=
  List.flatMap_append

theorem objectsOf_length (events : List Event) :
    (objectsOf events).length = (kindsOf events).length := by
  induction events with
  | nil => rfl
  | cons event events ih =>
    show ((objectsOf ([event] ++ events))).length = (kindsOf ([event] ++ events)).length
    rw [objectsOf_append, kindsOf_append, List.length_append, List.length_append, ih]
    cases event <;> simp [objectsOf, kindsOf]

/-- The calls of an object's Map create the objects that are counted. -/
theorem run_kinds (events : List Event) : ∀ s : Meaning,
    (s.run (callsOf events)).kinds = s.kinds ++ kindsOf events := by
  induction events with
  | nil => exact fun s => (List.append_nil _).symm
  | cons event events ih =>
    intro s
    cases event with
    | set n field value =>
      have h := ih (s.call (.set n field value))
      rwa [Meaning.kinds_set] at h
    | read cls pairs =>
      cases hkind : cls.kind with
      | none =>
        have h := ih s
        simpa [callsOf, kindsOf, Event.calls, hkind] using h
      | some kind =>
        have h := ih (s.call (.create kind none))
        simp only [Meaning.call, List.append_assoc, List.singleton_append] at h
        simpa [callsOf, kindsOf, Event.calls, hkind, Meaning.run, Meaning.call] using h

theorem setsOn_events (n : Nat) (kinds : List ObjectKind) (events more : List Event) :
    setsOn n kinds (callsOf (events ++ more))
      = setsOn n kinds (callsOf events) ++ setsOn n (kinds ++ kindsOf events) (callsOf more) := by
  have h := setsOn_append n (callsOf more) (callsOf events) ⟨kinds, fun _ => none⟩
  rwa [run_kinds, ← callsOf_append] at h

/-- Behind the objects `kinds`, the object `self` is given `sets`, and each new one what its own
    Map has for it. -/
def Filled (kinds : List ObjectKind) (self : Nat) (sets : List (StringField × Option CString))
    (events : List Event) : Prop :=
  ∀ n, setsOn n kinds (callsOf events) = (if n = self then sets else []) ++
    if n < kinds.length then [] else (objectsOf events)[n - kinds.length]?.getD []

variable {kinds : List ObjectKind} {self : Nat} {sets more : List (StringField × Option CString)}
  {events rest : List Event}

theorem Filled.append (h : Filled kinds self sets events)
    (hrest : Filled (kinds ++ kindsOf events) self more rest)
    (hself : self < kinds.length ∨ more = []) :
    Filled kinds self (sets ++ more) (events ++ rest) := by
  intro n
  rw [setsOn_events, h n, hrest n, objectsOf_append, List.length_append, ← objectsOf_length]
  by_cases hn : n < kinds.length
  · -- an object that was there before
    have hlt : n < kinds.length + (objectsOf events).length := by omega
    rw [if_pos hn, if_pos hn, if_pos hlt]
    by_cases he : n = self
    · rw [if_pos he, if_pos he, if_pos he, List.append_nil, List.append_nil, List.append_nil]
    · rw [if_neg he, if_neg he, if_neg he]
      rfl
  have hmore : (if n = self then more else []) = [] := by
    rcases hself with hself | hself
    · exact if_neg fun he : n = self => hn (he ▸ hself)
    · rw [hself, ite_self]
  have hsets : (if n = self then sets ++ more else []) = if n = self then sets else [] := by
    split
    · rename_i he
      rw [if_pos he] at hmore
      rw [hmore, List.append_nil]
    · rfl
  rw [hmore, hsets, if_neg hn, if_neg hn]
  by_cases hlt : n < kinds.length + (objectsOf events).length
  · rw [if_pos hlt, List.getElem?_append_left (by omega), List.append_nil, List.append_nil]
  · have hnone : (objectsOf events)[n - kinds.length]? = none :=
      List.getElem?_eq_none (by omega)
    rw [if_neg hlt, List.getElem?_append_right (by omega), hnone]
    have hindex : n - (kinds.length + (objectsOf events).length)
        = n - kinds.length - (objectsOf events).length := by omega
    rw [hindex, Option.getD_none, List.append_nil, List.nil_append]

theorem Filled.nil : Filled kinds self [] [] := by
  intro n
  show [] = (if n = self then [] else []) ++ (if n < kinds.length then [] else [])
  rw [ite_self, ite_self]
  rfl

/-- Which object is given nothing does not matter. -/
theorem Filled.anyone (h : Filled kinds self [] events) (other : Nat) :
    Filled kinds other [] events := by
  intro n
  have hn := h n
  rwa [ite_self] at hn ⊢

/-- The field a value is set in. -/
def Role.field : Role → Option StringField
  | .string field | .optionalString field | .strings field => some field
  | .object _ | .objects _ | .other => none

theorem mem_sets {role : Role} {value : HessianObject} {e : StringField × Option CString}
    (h : e ∈ role.sets value) : role.field = some e.1 := by
  cases role with
  | string field | optionalString field =>
    cases value <;> first
      | exact absurd h List.not_mem_nil
      | rw [List.mem_singleton.mp h]; rfl
  | strings field =>
    cases value with
    | list type elements =>
      obtain ⟨_, _, rfl⟩ := List.mem_map.mp h
      rfl
    | _ => exact absurd h List.not_mem_nil
  | object _ | objects _ | other => exact absurd h List.not_mem_nil

/-- The fields a loop sets are fields of the object it fills. -/
theorem roles_typed (cls : Class) : ∀ e ∈ cls.roles, ∀ field, e.2.field = some field →
    cls.kind = some field.kind := by
  cases cls <;> simp [Class.roles, Role.field, Class.kind, StringField.kind]

theorem role_typed {cls : Class} {key : HessianObject} {field : StringField}
    (h : (cls.role key).field = some field) : cls.kind = some field.kind := by
  unfold Class.role at h
  split at h
  · cases h
  · split at h
    · cases h
    · rename_i e he
      exact roles_typed cls e (List.mem_of_find?_eq_some he) field h

theorem setsIn_typed {cls : Class} {pairs : List (HessianObject × HessianObject)}
    {e : StringField × Option CString} (h : e ∈ cls.setsIn pairs) :
    cls.kind = some e.1.kind := by
  obtain ⟨pair, _, he⟩ := List.mem_flatMap.mp h
  exact role_typed (mem_sets he)

theorem setsIn_kindless {cls : Class} (h : cls.kind = none)
    (pairs : List (HessianObject × HessianObject)) : cls.setsIn pairs = [] := by
  refine List.eq_nil_iff_forall_not_mem.mpr fun e he => ?_
  have htyped := setsIn_typed he
  rw [h] at htyped
  cases htyped

/-- The setter calls for one value. -/
theorem Filled.of_sets (h : ∀ e ∈ sets, kinds[self]? = some e.1.kind) :
    Filled kinds self sets (sets.map fun e => .set self e.1 e.2) := by
  intro n
  have hobjects : objectsOf (sets.map fun e => Event.set self e.1 e.2) = [] := by
    clear h
    induction sets with
    | nil => rfl
    | cons e sets ih => exact ih
  rw [hobjects, List.getElem?_nil, Option.getD_none, ite_self, List.append_nil]
  induction sets with
  | nil => rw [ite_self]; rfl
  | cons e sets ih =>
    obtain ⟨hkind, h⟩ := List.forall_mem_cons.mp h
    show setsOn n kinds (.set self e.1 e.2 :: callsOf (sets.map fun e => .set self e.1 e.2)) = _
    simp only [setsOn]
    rw [ih h hobjects]
    by_cases he : n = self
    · rw [if_pos ⟨he.symm, hkind⟩, if_pos he, if_pos he]
    · rw [if_neg fun hk : _ ∧ _ => he hk.1.symm, if_neg he, if_neg he]

theorem kindsOf_sets : kindsOf (sets.map fun e => .set self e.1 e.2) = [] := by
  induction sets with
  | nil => rfl
  | cons e sets ih => exact ih

/-- A new object, which its own Map fills. -/
theorem Filled.read {cls : Class} {kind : ObjectKind} (hkind : cls.kind = some kind) (other : Nat)
    {pairs : List (HessianObject × HessianObject)}
    (h : Filled (kinds ++ [kind]) kinds.length (cls.setsIn pairs) events) :
    Filled kinds other [] (.read cls pairs :: events) := by
  intro n
  have hcalls : callsOf (.read cls pairs :: events) = .create kind none :: callsOf events := by
    simp [callsOf, Event.calls, hkind]
  have hobjects : objectsOf (.read cls pairs :: events) = cls.setsIn pairs :: objectsOf events := by
    simp [objectsOf, hkind]
  have hn := h n
  rw [List.length_append, List.length_singleton] at hn
  rw [hcalls, setsOn, hn, hobjects, ite_self, List.nil_append]
  rcases Nat.lt_trichotomy n kinds.length with hlt | rfl | hlt
  · rw [if_neg (Nat.ne_of_lt hlt), if_pos (Nat.lt_succ_of_lt hlt), if_pos hlt]
    rfl
  · rw [if_pos rfl, if_pos (Nat.lt_succ_self _), if_neg (Nat.lt_irrefl _), Nat.sub_self,
      List.append_nil]
    rfl
  · have hindex : n - kinds.length = n - (kinds.length + 1) + 1 := by omega
    rw [if_neg (Nat.ne_of_gt hlt), if_neg (Nat.not_lt.mpr hlt), if_neg (Nat.lt_asymm hlt), hindex,
      List.getElem?_cons_succ, List.nil_append]

mutual
/-- What the function of a class makes fills the objects it creates, and no other. -/
theorem objectEvents_filled (kinds : List ObjectKind) (self : Nat) (cls : Class) :
    ∀ h, Filled kinds self [] (objectEvents kinds.length cls h)
  | .map (some type) pairs => by
    rw [objectEvents]
    split
    swap
    · exact Filled.nil
    cases hkind : cls.kind with
    | none =>
      have hpairs := pairsEvents_filled kinds kinds.length cls (fun _ h => nomatch hkind ▸ h) pairs
      rw [setsIn_kindless hkind] at hpairs
      intro n
      have hn := hpairs.anyone self n
      simpa [callsOf, objectsOf, Event.calls, hkind] using hn
    | some kind =>
      have hself : ∀ k, cls.kind = some k → (kinds ++ [kind])[kinds.length]? = some k := by
        intro k hk
        rw [List.getElem?_concat_length, ← hkind, hk]
      have hpairs := pairsEvents_filled (kinds ++ [kind]) kinds.length cls hself pairs
      rw [List.length_append] at hpairs
      exact Filled.read hkind self hpairs
  | .map none _ => by rw [objectEvents]; exact Filled.nil; nofun
  | .null | .boolean _ | .integer _ | .long _ | .double _ | .date _ | .string _ | .xml _
  | .binary _ | .remote _ _ | .list _ _ | .ref _ => by rw [objectEvents]; exact Filled.nil; nofun

/-- The loop gives its object what it reads. -/
theorem pairsEvents_filled (kinds : List ObjectKind) (self : Nat) (cls : Class)
    (hself : ∀ kind, cls.kind = some kind → kinds[self]? = some kind) :
    ∀ pairs, Filled kinds self (cls.setsIn (cls.pairsRead pairs))
      (pairsEvents self kinds.length cls pairs)
  | [] => by rw [pairsEvents]; exact Filled.nil
  | (key, value) :: pairs => by
    have hvalue : Filled kinds self ((cls.role key).sets value)
        (((cls.role key).sets value).map fun e => .set self e.1 e.2) :=
      Filled.of_sets fun e he => hself e.1.kind (role_typed (mem_sets he))
    have hmade : Filled (kinds ++ kindsOf (((cls.role key).sets value).map fun e =>
        .set self e.1 e.2)) self [] (match cls.role key with
          | .object cls => objectEvents kinds.length cls value
          | .objects cls => listEvents kinds.length cls value
          | _ => []) := by
      rw [kindsOf_sets, List.append_nil]
      cases cls.role key with
      | object cls => exact objectEvents_filled kinds self cls value
      | objects cls => exact listEvents_filled kinds self cls value
      | string _ | optionalString _ | strings _ | other => exact Filled.nil
    have hpair := hvalue.append hmade (.inr rfl)
    rw [List.append_nil] at hpair
    rw [pairsEvents, Class.pairsRead, Class.setsIn, List.flatMap_cons]
    dsimp only
    split
    · refine hpair.append ?_ ?_
      · rw [← List.length_append]
        refine pairsEvents_filled _ self cls (fun kind hkind => ?_) pairs
        have hlt := (List.getElem?_eq_some_iff.mp (hself kind hkind)).1
        rw [List.getElem?_append_left hlt, hself kind hkind]
      · cases hkind : cls.kind with
        | none => exact .inr (setsIn_kindless hkind _)
        | some kind => exact .inl (List.getElem?_eq_some_iff.mp (hself kind hkind)).1
    · rw [List.flatMap_nil, List.append_nil]
      exact hpair

theorem listEvents_filled (kinds : List ObjectKind) (self : Nat) (cls : Class) :
    ∀ h, Filled kinds self [] (listEvents kinds.length cls h)
  | .list _ elements => by
    rw [listEvents]
    exact elementsEvents_filled kinds self cls elements
  | .null | .boolean _ | .integer _ | .long _ | .double _ | .date _ | .string _ | .xml _
  | .binary _ | .remote _ _ | .map _ _ | .ref _ => by rw [listEvents]; exact Filled.nil; nofun

theorem elementsEvents_filled (kinds : List ObjectKind) (self : Nat) (cls : Class) :
    ∀ elements, Filled kinds self [] (elementsEvents kinds.length cls elements)
  | [] => by rw [elementsEvents]; exact Filled.nil
  | element :: elements => by
    have helement := objectEvents_filled kinds self cls element
    rw [elementsEvents]
    split
    · have hrest := elementsEvents_filled
        (kinds ++ kindsOf (objectEvents kinds.length cls element)) self cls elements
      rw [List.length_append] at hrest
      exact helement.append hrest (.inr rfl)
    · exact helement
end

/-! ## 5. Soundness -/

/-- No Null stands behind a String among the values of the key. -/
def NoNullBehind (key : CString) (pairs : List (HessianObject × HessianObject)) : Prop :=
  (valuesAt key (readable mapKey pairs)).Pairwise fun earlier later =>
    hessianGettype later = .null → hessianGettype earlier ≠ .string

/-- The pairs of a Map never unset a category, or a content, that they have set. -/
def Class.UnsetFree : Class → List (HessianObject × HessianObject) → Prop
  | .subject, pairs => NoNullBehind XACML_HESSIAN_SUBJECT_CATEGORY pairs
  | .resource, pairs => NoNullBehind XACML_HESSIAN_RESOURCE_CONTENT pairs
  | _, _ => True

/-- What an optional string passes to its setter. -/
def passed : HessianObject → Option (Option CString)
  | .string text => some (some text)
  | .null => some none
  | _ => none

theorem passed_null {h : HessianObject} : passed h = some none ↔ hessianGettype h = .null := by
  cases h <;> simp [passed, hessianGettype]

theorem passed_string {h : HessianObject} :
    (∃ text, passed h = some (some text)) ↔ hessianGettype h = .string := by
  cases h <;> simp [passed, hessianGettype]

theorem nullFirst_passed (values : List HessianObject) :
    NullFirst (values.filterMap passed) ↔ values.Pairwise fun earlier later =>
      hessianGettype later = .null → hessianGettype earlier ≠ .string := by
  unfold NullFirst
  rw [List.pairwise_filterMap]
  constructor
  · refine fun h => h.imp fun {earlier later} hpair hnull hstring => ?_
    obtain ⟨text, htext⟩ := passed_string.mpr hstring
    cases hpair _ htext _ (passed_null.mpr hnull) rfl
  · refine fun h => h.imp fun {earlier later} hpair arg harg arg' harg' hnone => ?_
    subst hnone
    cases arg with
    | none => rfl
    | some text =>
      exact absurd (passed_string.mp ⟨text, harg⟩) (hpair (passed_null.mp harg'))

/-- In a class with one optional string and a list of attributes, what is passed for the string. -/
theorem argsOf_setsIn {cls : Class} {key listKey : CString} {field : StringField}
    (hroles : cls.roles = [(key, .optionalString field), (listKey, .objects .attr)])
    (pairs : List (HessianObject × HessianObject)) :
    argsOf field (cls.setsIn pairs) = (valuesAt key (readable mapKey pairs)).filterMap passed := by
  induction pairs with
  | nil => rfl
  | cons pair pairs ih =>
    obtain ⟨k, value⟩ := pair
    show argsOf field ((cls.role k).sets value ++ cls.setsIn pairs) = _
    rw [argsOf_append, ih]
    cases hk : mapKey k with
    | none =>
      rw [readable_cons_none (e := (k, value)) hk]
      simp [Class.role, hk, Role.sets, argsOf]
    | some name =>
      rw [readable_cons_some (e := (k, value)) hk]
      by_cases hname : name = key
      · subst hname
        have hrole : cls.role k = .optionalString field := by simp [Class.role, hk, hroles]
        rw [valuesAt_cons_self, List.filterMap_cons, hrole]
        cases value <;> simp [Role.sets, argsOf, passed]
      · rw [valuesAt_cons_ne hname]
        have hkey : ¬ key = name := fun e => hname e.symm
        by_cases hlist : listKey = name
        · simp [Class.role, hk, hroles, hkey, hlist, Role.sets, argsOf]
        · simp [Class.role, hk, hroles, hkey, hlist, Role.sets, argsOf]

/-- No field but those of its object is set by a loop. -/
theorem argsOf_untyped {cls : Class} {field : StringField} (h : cls.kind ≠ some field.kind)
    (pairs : List (HessianObject × HessianObject)) : argsOf field (cls.setsIn pairs) = [] := by
  refine List.map_eq_nil_iff.mpr (List.filter_eq_nil_iff.mpr fun e he hfield => h ?_)
  rw [← of_decide_eq_true hfield]
  exact setsIn_typed he

theorem unsetFree_iff (cls : Class) (pairs : List (HessianObject × HessianObject)) :
    cls.UnsetFree pairs ↔ ∀ field : StringField, field.Uncleared = true →
      NullFirst (argsOf field (cls.setsIn pairs)) := by
  constructor
  · intro h field hu
    by_cases htyped : cls.kind = some field.kind
    · cases field <;> first | (cases hu; done) | skip
      · cases cls <;> first | (cases htyped; done) | skip
        rw [argsOf_setsIn rfl]
        exact (nullFirst_passed _).mpr h
      · cases cls <;> first | (cases htyped; done) | skip
        rw [argsOf_setsIn rfl]
        exact (nullFirst_passed _).mpr h
    · rw [argsOf_untyped htyped]
      exact List.Pairwise.nil
  · intro h
    cases cls with
    | subject =>
      have hargs := h .subjectCategory rfl
      rw [argsOf_setsIn rfl] at hargs
      exact (nullFirst_passed _).mp hargs
    | resource =>
      have hargs := h .resourceContent rfl
      rw [argsOf_setsIn rfl] at hargs
      exact (nullFirst_passed _).mp hargs
    | _ => trivial

theorem mem_objectsOf {sets : List (StringField × Option CString)} {events : List Event} :
    sets ∈ objectsOf events ↔ ∃ cls pairs, .read cls pairs ∈ events ∧ cls.kind ≠ none ∧
      sets = cls.setsIn pairs := by
  unfold objectsOf
  rw [List.mem_flatMap]
  constructor
  · intro h
    obtain ⟨event, hevent, hsets⟩ := h
    cases event with
    | set _ _ _ => exact absurd hsets List.not_mem_nil
    | read cls pairs =>
      obtain ⟨kind, hkind, rfl⟩ := List.mem_map.mp hsets
      refine ⟨cls, pairs, hevent, fun hnone => ?_, rfl⟩
      rw [hnone] at hkind
      cases hkind
  · intro h
    obtain ⟨cls, pairs, hevent, hkind, rfl⟩ := h
    refine ⟨_, hevent, ?_⟩
    obtain ⟨kind, hkind⟩ := Option.ne_none_iff_exists'.mp hkind
    simp [hkind]

/-- The create and set calls of the function of a class on an object. -/
def unmarshalCalls (cls : Class) (h : HessianObject) : List Call := callsOf (objectEvents 0 cls h)

/-- **What the unmarshaller does is sound exactly if it reads no Map with a Null behind a String for
    a category or a content.** -/
theorem unmarshal_sound_iff (cls : Class) (h : HessianObject) :
    Sound (unmarshalCalls cls h) ↔
      ∀ cls' pairs, .read cls' pairs ∈ objectEvents 0 cls h → cls'.UnsetFree pairs := by
  have hfilled : ∀ n, setsOn n [] (unmarshalCalls cls h)
      = (objectsOf (objectEvents 0 cls h))[n]?.getD [] := by
    intro n
    have hn := objectEvents_filled [] 0 cls h n
    rw [ite_self, List.nil_append, List.length_nil, if_neg (Nat.not_lt_zero n)] at hn
    exact hn
  rw [sound_iff]
  constructor
  · intro hnever cls' pairs hread
    refine (unsetFree_iff cls' pairs).mpr fun field hu => ?_
    by_cases hkind : cls'.kind = none
    · rw [setsIn_kindless hkind]
      exact List.Pairwise.nil
    · have hmem := mem_objectsOf.mpr ⟨cls', pairs, hread, hkind, rfl⟩
      obtain ⟨n, hn⟩ := List.mem_iff_getElem?.mp hmem
      have hargs := hnever n field hu
      rwa [hfilled, hn] at hargs
  · intro hall n field hu
    rw [hfilled]
    cases hn : (objectsOf (objectEvents 0 cls h))[n]? with
    | none => exact List.Pairwise.nil
    | some sets =>
      obtain ⟨cls', pairs, hread, _, rfl⟩ := mem_objectsOf.mp (List.mem_of_getElem? hn)
      exact (unsetFree_iff cls' pairs).mp (hall cls' pairs hread) field hu

/-- **The strings of the XACML objects are owned exactly if no NULL is set as a category or a content
    behind a string**: by any calls, and by the unmarshaller on any object. -/
theorem ownedStrings_sound_iff (calls : List Call) (cls : Class) (h : HessianObject) :
    (Sound calls ↔ NeverUnset calls) ∧
    (Sound (unmarshalCalls cls h) ↔
      ∀ cls' pairs, .read cls' pairs ∈ objectEvents 0 cls h → cls'.UnsetFree pairs) :=
  ⟨sound_iff calls, unmarshal_sound_iff cls h⟩

/-- A category that is set and then unset stays where it was, released. -/
theorem category_unset_unsound :
    ¬ Sound [.create .subject none, .set 0 .subjectCategory (some (CString.lit "a")),
        .set 0 .subjectCategory none] ∧
      ¬ Sound (unmarshalCalls .subject (.map (some XACML_HESSIAN_SUBJECT_CLASSNAME)
        [(.string XACML_HESSIAN_SUBJECT_CATEGORY, .string (CString.lit "a")),
          (.string XACML_HESSIAN_SUBJECT_CATEGORY, .null)])) := by
  have hcalls : unmarshalCalls .subject (.map (some XACML_HESSIAN_SUBJECT_CLASSNAME)
        [(.string XACML_HESSIAN_SUBJECT_CATEGORY, .string (CString.lit "a")),
          (.string XACML_HESSIAN_SUBJECT_CATEGORY, .null)])
      = [.create .subject none, .set 0 .subjectCategory (some (CString.lit "a")),
        .set 0 .subjectCategory none] := by
    decide
  rw [hcalls, sound_iff, and_self]
  intro h
  have hargs := h 0 .subjectCategory rfl
  revert hargs
  unfold NullFirst
  decide

end ArgusPep.Owned
