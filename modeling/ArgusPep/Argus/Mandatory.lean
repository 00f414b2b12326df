/-
  File:      ArgusPep/Argus/Mandatory.lean
  Subject:   Which accepted responses have their mandatory fields.

  An object is created with a NULL id and gets one only where its Map has the key, so a Map without
  the key is accepted and leaves NULL.

  * `XacmlResponse.AllPresent` -- no id and no status code value of the response is NULL;
  * `MandatoryKeys` -- each Map the response is made of has its mandatory key;
  * **`mandatory_fields_iff`** -- an accepted response has its mandatory fields, and the obligation
    handler meets no NULL string, exactly when the Maps have their mandatory keys;
  * `oh_process_null_string` -- a response in which an obligation has no id reaches the handler.
-/
import ArgusPep.Argus.Decision
import ArgusPep.Argus.Profiles
import ArgusPep.Argus.RequestCodec

namespace ArgusPep

open Lib Keyed

/-! ## 1. Present fields -/

/-- The status code and all the codes inside it have a value. -/
def XacmlStatuscode.ValuesPresent : XacmlStatuscode → Prop
  | .mk value none => value ≠ none
  | .mk value (some subcode) => value ≠ none ∧ subcode.ValuesPresent

structure XacmlResponse.AllPresent (response : XacmlResponse) : Prop where
  obligationIds : ∀ result ∈ response.results, ∀ obligation ∈ result.obligations,
    obligation.id ≠ none
  assignmentIds : ∀ result ∈ response.results, ∀ obligation ∈ result.obligations,
    ∀ attr ∈ obligation.assignments, attr.id ≠ none
  attributeIds : ∀ request ∈ response.request, ∀ attr ∈ request.attributes, attr.id ≠ none
  statuscodeValues : ∀ result ∈ response.results, ∀ status ∈ result.status,
    ∀ code ∈ status.code, code.ValuesPresent

/-! ## 2. Mandatory keys -/

/-- The elements of the lists under a key. -/
def listUnder (key : CString) (h : HessianObject) : List HessianObject :=
  (valuesUnder key h).flatMap elementsOf

/-- The object under a key that counts: the last one that is not a Null. -/
def objectUnder (key : CString) (h : HessianObject) : Option HessianObject :=
  (notNull (valuesUnder key h)).getLast?

def HasKey (key : CString) (h : HessianObject) : Prop := valuesUnder key h ≠ []

/-- A status code has its code, and so has each code inside it. -/
inductive StatuscodeKeys : HessianObject → Prop where
  | mk {h : HessianObject} (code : HasKey XACML_HESSIAN_STATUSCODE_VALUE h)
      (subcode : ∀ sub, objectUnder XACML_HESSIAN_STATUSCODE_SUBCODE h = some sub →
        StatuscodeKeys sub) : StatuscodeKeys h

/-- The attributes of a request, as Hessian objects. -/
def attributeObjects (hRequest : HessianObject) : List HessianObject :=
  (listUnder XACML_HESSIAN_REQUEST_SUBJECTS hRequest).flatMap
      (listUnder XACML_HESSIAN_SUBJECT_ATTRIBUTES)
    ++ (listUnder XACML_HESSIAN_REQUEST_RESOURCES hRequest).flatMap
      (listUnder XACML_HESSIAN_RESOURCE_ATTRIBUTES)
    ++ (objectUnder XACML_HESSIAN_REQUEST_ACTION hRequest).elim []
      (listUnder XACML_HESSIAN_ACTION_ATTRIBUTES)
    ++ (objectUnder XACML_HESSIAN_REQUEST_ENVIRONMENT hRequest).elim []
      (listUnder XACML_HESSIAN_ENVIRONMENT_ATTRIBUTES)

structure MandatoryKeys (h : HessianObject) : Prop where
  obligationIds : ∀ r ∈ resultObjects h, ∀ o ∈ listUnder XACML_HESSIAN_RESULT_OBLIGATIONS r,
    HasKey XACML_HESSIAN_OBLIGATION_ID o
  assignmentIds : ∀ r ∈ resultObjects h, ∀ o ∈ listUnder XACML_HESSIAN_RESULT_OBLIGATIONS r,
    ∀ a ∈ listUnder XACML_HESSIAN_OBLIGATION_ASSIGNMENTS o,
      HasKey XACML_HESSIAN_ATTRIBUTEASSIGNMENT_ID a
  attributeIds : ∀ q, objectUnder XACML_HESSIAN_RESPONSE_REQUEST h = some q →
    ∀ a ∈ attributeObjects q, HasKey XACML_HESSIAN_ATTRIBUTE_ID a
  statuscodeValues : ∀ r ∈ resultObjects h, ∀ s,
    objectUnder XACML_HESSIAN_RESULT_STATUS r = some s →
    ∀ c, objectUnder XACML_HESSIAN_STATUS_CODE s = some c → StatuscodeKeys c

/-! ## 3. From keys to fields -/

section Fields

variable {α β : Type} {classname key : CString} {h : HessianObject}
  {es : List (CString × HessianObject)}

theorem gives_text (hm : mapEntries classname h = some es) {id : Option CString}
    (hg : Gives es key Field.text none id) : id ≠ none ↔ HasKey key h := by
  rw [foldlM_text_isSome hg, valuesAt_mapEntries hm]
  simp [HasKey]

theorem gives_list (hm : mapEntries classname h = some es) {read : HessianObject → Option β}
    {bs : List β} (hg : Gives es key (Field.append read) [] bs) :
    (listUnder key h).map read = bs.map some := by
  obtain ⟨news, rfl, hnews⟩ := foldlM_append hg
  rw [valuesAt_mapEntries hm] at hnews
  exact hnews

theorem gives_object (hm : mapEntries classname h = some es) {read : HessianObject → Option β}
    {b : Option β} (hg : Gives es key (Field.replace read) none b) :
    (objectUnder key h).map read = b.map some := by
  have hlast := foldlM_replace hg
  rw [valuesAt_mapEntries hm] at hlast
  unfold objectUnder
  cases hl : (notNull (valuesUnder key h)).getLast? with
  | none =>
    rw [hl] at hlast
    rw [hlast]
    rfl
  | some v =>
    rw [hl] at hlast
    obtain ⟨hread, hb⟩ := hlast
    cases b with
    | none => exact absurd rfl hb
    | some b => exact congrArg some hread

/-- What holds of the objects read, said of the objects they are read from. -/
theorem forall_reads_iff {read : α → Option β} {P : β → Prop} {Q : α → Prop} {l : List α}
    {bs : List β} (hr : l.map read = bs.map some) (h : ∀ a b, read a = some b → (P b ↔ Q a)) :
    (∀ b ∈ bs, P b) ↔ ∀ a ∈ l, Q a := by
  have hall := forall₂_of_reads hr h
  clear hr
  induction hall with
  | nil => simp
  | cons hab _ ih =>
    rw [List.forall_mem_cons, List.forall_mem_cons]
    exact and_congr hab ih

theorem forall_read_iff {read : α → Option β} {P : β → Prop} {Q : α → Prop} {o : Option α}
    {b : Option β} (hr : o.map read = b.map some) (h : ∀ a b, read a = some b → (P b ↔ Q a)) :
    (∀ x ∈ b, P x) ↔ ∀ a, o = some a → Q a := by
  cases o with
  | none =>
    cases b with
    | none => simp
    | some b => cases hr
  | some a =>
    cases b with
    | none => cases hr
    | some b => simp [h a b (Option.some.inj hr)]

end Fields

/-! ## 4. The objects of a response -/

section Objects

variable {h : HessianObject}

theorem attribute_present {attr : XacmlAttribute} (hu : xacmlAttributeUnmarshal h = some attr) :
    attr.id ≠ none ↔ HasKey XACML_HESSIAN_ATTRIBUTE_ID h := by
  obtain ⟨es, hm, hid, -⟩ := xacmlAttributeUnmarshal_eq_some.mp hu
  exact gives_text hm hid

/-- The attributes of a list field. -/
theorem attributes_present {key : CString} {attrs : List XacmlAttribute}
    (hr : (listUnder key h).map xacmlAttributeUnmarshal = attrs.map some) :
    (∀ attr ∈ attrs, attr.id ≠ none)
      ↔ ∀ a ∈ listUnder key h, HasKey XACML_HESSIAN_ATTRIBUTE_ID a :=
  forall_reads_iff hr fun _ _ => attribute_present

theorem subject_present {subject : XacmlSubject} (hu : xacmlSubjectUnmarshal h = some subject) :
    (∀ attr ∈ subject.attributes, attr.id ≠ none)
      ↔ ∀ a ∈ listUnder XACML_HESSIAN_SUBJECT_ATTRIBUTES h, HasKey XACML_HESSIAN_ATTRIBUTE_ID a := by
  obtain ⟨es, hm, -, ha⟩ := xacmlSubjectUnmarshal_eq_some.mp hu
  exact attributes_present (gives_list hm ha)

theorem resource_present {resource : XacmlResource}
    (hu : xacmlResourceUnmarshal h = some resource) :
    (∀ attr ∈ resource.attributes, attr.id ≠ none)
      ↔ ∀ a ∈ listUnder XACML_HESSIAN_RESOURCE_ATTRIBUTES h, HasKey XACML_HESSIAN_ATTRIBUTE_ID a := by
  obtain ⟨es, hm, -, ha⟩ := xacmlResourceUnmarshal_eq_some.mp hu
  exact attributes_present (gives_list hm ha)

theorem action_present {action : XacmlAction} (hu : xacmlActionUnmarshal h = some action) :
    (∀ attr ∈ action.attributes, attr.id ≠ none)
      ↔ ∀ a ∈ listUnder XACML_HESSIAN_ACTION_ATTRIBUTES h, HasKey XACML_HESSIAN_ATTRIBUTE_ID a := by
  obtain ⟨es, hm, ha⟩ := xacmlActionUnmarshal_eq_some.mp hu
  exact attributes_present (gives_list hm ha)

theorem environment_present {environment : XacmlEnvironment}
    (hu : xacmlEnvironmentUnmarshal h = some environment) :
    (∀ attr ∈ environment.attributes, attr.id ≠ none)
      ↔ ∀ a ∈ listUnder XACML_HESSIAN_ENVIRONMENT_ATTRIBUTES h,
          HasKey XACML_HESSIAN_ATTRIBUTE_ID a := by
  obtain ⟨es, hm, ha⟩ := xacmlEnvironmentUnmarshal_eq_some.mp hu
  exact attributes_present (gives_list hm ha)

/-- Of an optional part, its attributes or none. -/
theorem forall_mem_elim {α β : Type} {o : Option α} {f : α → List β} {P : β → Prop} :
    (∀ b ∈ o.elim [] f, P b) ↔ ∀ a, o = some a → ∀ b ∈ f a, P b := by
  cases o <;> simp

theorem request_present {request : XacmlRequest} (hu : xacmlRequestUnmarshal h = some request) :
    (∀ attr ∈ request.attributes, attr.id ≠ none)
      ↔ ∀ a ∈ attributeObjects h, HasKey XACML_HESSIAN_ATTRIBUTE_ID a := by
  obtain ⟨es, hm, hs, hr, ha, he⟩ := xacmlRequestUnmarshal_eq_some.mp hu
  simp only [XacmlRequest.attributes, attributeObjects, List.forall_mem_append,
    List.forall_mem_flatMap, forall_mem_elim]
  refine and_congr (and_congr (and_congr ?_ ?_) ?_) ?_
  · exact forall_reads_iff (gives_list hm hs) fun _ _ => subject_present
  · exact forall_reads_iff (gives_list hm hr) fun _ _ => resource_present
  · exact forall_read_iff (gives_object hm ha) fun _ _ => action_present
  · exact forall_read_iff (gives_object hm he) fun _ _ => environment_present

theorem statuscode_present : ∀ {statuscode : XacmlStatuscode} {h : HessianObject},
    xacmlStatuscodeUnmarshal h = some statuscode → (statuscode.ValuesPresent ↔ StatuscodeKeys h)
  | .mk value none, h, hu => by
    obtain ⟨es, hm, hv, hs⟩ := xacmlStatuscodeUnmarshal_eq_some.mp hu
    have hsub := gives_object hm hs
    have hnone : objectUnder XACML_HESSIAN_STATUSCODE_SUBCODE h = none := Option.map_eq_none_iff.mp hsub
    have hvalue : value ≠ none ↔ HasKey XACML_HESSIAN_STATUSCODE_VALUE h := gives_text hm hv
    rw [XacmlStatuscode.ValuesPresent, hvalue]
    constructor
    · exact fun hk => .mk hk fun sub hsome => by rw [hnone] at hsome; cases hsome
    · intro h
      obtain ⟨hk, -⟩ := h
      exact hk
  | .mk value (some subcode), h, hu => by
    obtain ⟨es, hm, hv, hs⟩ := xacmlStatuscodeUnmarshal_eq_some.mp hu
    obtain ⟨sub, hobject, hread⟩ := Option.map_eq_some_iff.mp (gives_object hm hs)
    have ih := statuscode_present hread
    have hvalue : value ≠ none ↔ HasKey XACML_HESSIAN_STATUSCODE_VALUE h := gives_text hm hv
    rw [XacmlStatuscode.ValuesPresent, hvalue, ih]
    constructor
    · intro h
      obtain ⟨hk, hsub⟩ := h
      refine .mk hk fun sub' hsome => ?_
      rw [hobject] at hsome
      cases hsome
      exact hsub
    · intro h
      obtain ⟨hk, hsub⟩ := h
      exact ⟨hk, hsub sub hobject⟩

theorem status_present {status : XacmlStatus} (hu : xacmlStatusUnmarshal h = some status) :
    (∀ code ∈ status.code, code.ValuesPresent)
      ↔ ∀ c, objectUnder XACML_HESSIAN_STATUS_CODE h = some c → StatuscodeKeys c := by
  obtain ⟨es, hm, -, hc⟩ := xacmlStatusUnmarshal_eq_some.mp hu
  exact forall_read_iff (gives_object hm hc) fun _ _ => statuscode_present

theorem assignment_present {attr : XacmlAttributeassignment}
    (hu : xacmlAttributeassignmentUnmarshal h = some attr) :
    attr.id ≠ none ↔ HasKey XACML_HESSIAN_ATTRIBUTEASSIGNMENT_ID h := by
  obtain ⟨es, hm, hid, -⟩ := xacmlAttributeassignmentUnmarshal_eq_some.mp hu
  exact gives_text hm hid

theorem obligation_present {obligation : XacmlObligation}
    (hu : xacmlObligationUnmarshal h = some obligation) :
    obligation.id ≠ none ↔ HasKey XACML_HESSIAN_OBLIGATION_ID h := by
  obtain ⟨es, hm, hid, -⟩ := xacmlObligationUnmarshal_eq_some.mp hu
  exact gives_text hm hid

theorem obligation_assignments_present {obligation : XacmlObligation}
    (hu : xacmlObligationUnmarshal h = some obligation) :
    (∀ attr ∈ obligation.assignments, attr.id ≠ none)
      ↔ ∀ a ∈ listUnder XACML_HESSIAN_OBLIGATION_ASSIGNMENTS h,
          HasKey XACML_HESSIAN_ATTRIBUTEASSIGNMENT_ID a := by
  obtain ⟨es, hm, -, -, ha⟩ := xacmlObligationUnmarshal_eq_some.mp hu
  exact forall_reads_iff (gives_list hm ha) fun _ _ => assignment_present

/-- What holds of the obligations of a result. -/
theorem result_obligations {P : XacmlObligation → Prop} {Q : HessianObject → Prop}
    (hPQ : ∀ o obligation, xacmlObligationUnmarshal o = some obligation → (P obligation ↔ Q o))
    {result : XacmlResult} (hu : xacmlResultUnmarshal h = some result) :
    (∀ obligation ∈ result.obligations, P obligation)
      ↔ ∀ o ∈ listUnder XACML_HESSIAN_RESULT_OBLIGATIONS h, Q o := by
  obtain ⟨es, hm, -, -, -, ho⟩ := xacmlResultUnmarshal_eq_some.mp hu
  exact forall_reads_iff (gives_list hm ho) hPQ

theorem result_status {result : XacmlResult} (hu : xacmlResultUnmarshal h = some result) :
    (∀ status ∈ result.status, ∀ code ∈ status.code, code.ValuesPresent)
      ↔ ∀ s, objectUnder XACML_HESSIAN_RESULT_STATUS h = some s →
          ∀ c, objectUnder XACML_HESSIAN_STATUS_CODE s = some c → StatuscodeKeys c := by
  obtain ⟨es, hm, -, -, hs, -⟩ := xacmlResultUnmarshal_eq_some.mp hu
  exact forall_read_iff (gives_object hm hs) fun _ _ => status_present

theorem response_present {response : XacmlResponse}
    (hu : xacmlResponseUnmarshal h = some response) : response.AllPresent ↔ MandatoryKeys h := by
  obtain ⟨es, hm, hq, -⟩ := xacmlResponseUnmarshal_eq_some.mp hu
  have hresults := xacmlResponseUnmarshal_results hu
  have hids := forall_reads_iff hresults fun _ _ =>
    result_obligations fun _ _ => obligation_present
  have hassignments := forall_reads_iff hresults fun _ _ =>
    result_obligations fun _ _ => obligation_assignments_present
  have hattributes := forall_read_iff (gives_object hm hq) fun _ _ => request_present
  have hcodes := forall_reads_iff hresults fun _ _ => result_status
  constructor
  · intro hp
    exact ⟨hids.mp hp.obligationIds, hassignments.mp hp.assignmentIds,
      hattributes.mp hp.attributeIds, hcodes.mp hp.statuscodeValues⟩
  · intro hk
    exact ⟨hids.mpr hk.obligationIds, hassignments.mpr hk.assignmentIds,
      hattributes.mpr hk.attributeIds, hcodes.mpr hk.statuscodeValues⟩

end Objects

/-! ## 5. The obligation handler -/

section Handler

variable {ε α β : Type}

theorem bind_avoids {x : Except ε α} {f : α → Except ε β} {e : ε} (hx : x ≠ .error e)
    (hf : ∀ a, f a ≠ .error e) : x >>= f ≠ .error e := by
  cases x with
  | error e' =>
    intro h
    cases h
    exact hx rfl
  | ok a => exact hf a

theorem foldlM_avoids {f : β → α → Except ε β} {e : ε} {l : List α}
    (hf : ∀ a ∈ l, ∀ b, f b a ≠ .error e) (b : β) : l.foldlM f b ≠ .error e := by
  induction l generalizing b with
  | nil => nofun
  | cons a l ih =>
    rw [List.forall_mem_cons] at hf
    rw [List.foldlM_cons]
    exact bind_avoids (hf.1 b) (ih hf.2)

theorem mapM_avoids {f : α → Except ε β} {e : ε} {l : List α} (hf : ∀ a ∈ l, f a ≠ .error e) :
    l.mapM f ≠ .error e := by
  induction l with
  | nil => nofun
  | cons a l ih =>
    rw [List.forall_mem_cons] at hf
    rw [List.mapM_cons]
    exact bind_avoids hf.1 fun _ => bind_avoids (ih hf.2) nofun

theorem collectName_no_null (posix : Posix) {attr : XacmlAttributeassignment}
    (hid : attr.id ≠ none) (names : PosixNames) :
    collectName posix names attr ≠ .error .nullString := by
  obtain ⟨id, hid⟩ := Option.ne_none_iff_exists'.mp hid
  have hcmp : ∀ constant, strcmpEq constant attr.id = .ok (decide (id = constant)) := fun _ => by
    rw [hid]
    rfl
  unfold collectName
  simp only [hcmp]
  show (if _ then _ else _) ≠ _
  split
  · nofun
  show (if _ then _ else _) ≠ _
  split
  · nofun
  show (if _ then _ else _) ≠ _
  split
  · split <;> nofun
  · nofun

/-- The handler meets a NULL string only where an obligation or an assignment has no id. -/
theorem ohProcess_no_null (posix : Posix) {response : XacmlResponse} (hp : response.AllPresent) :
    gridwn2authzinteropOhProcess posix response ≠ .error .nullString := by
  refine bind_avoids (mapM_avoids fun result hr => ?_) nofun
  unfold mapPosixResult
  split
  · refine foldlM_avoids (fun obligation ho _ => bind_avoids ?_ nofun) result
    obtain ⟨id, hid⟩ := Option.ne_none_iff_exists'.mp (hp.obligationIds result hr obligation ho)
    unfold mapPosixObligation
    rw [hid]
    refine bind_avoids nofun fun start => ?_
    split
    · refine bind_avoids (foldlM_avoids (fun attr ha names => ?_) _) nofun
      exact collectName_no_null posix (hp.assignmentIds result hr obligation ho attr ha) names
    · nofun
  · nofun

end Handler

/-! ## 6. Accepted responses -/

/-- The object in the buffer has its mandatory keys. -/
def InputHasMandatoryKeys (input : Bytes) (mem : Mem) : Prop :=
  ∀ h s, hessianDeserialize (Reader.start input mem) = .done h s → MandatoryKeys h

/-- An accepted buffer holds an object, and the object unmarshals to the response. -/
theorem xacmlResponseUnmarshalling_ok {input : Bytes} {mem : Mem} {response : XacmlResponse}
    (hu : xacmlResponseUnmarshalling input mem = some (.ok, some response)) :
    ∃ h s, hessianDeserialize (Reader.start input mem) = .done h s
      ∧ xacmlResponseUnmarshal h = some response := by
  unfold xacmlResponseUnmarshalling at hu
  cases hd : hessianDeserialize (Reader.start input mem) with
  | done h s =>
    rw [hd] at hu
    cases hr : xacmlResponseUnmarshal h with
    | none =>
      simp only [hr] at hu
      cases hu
    | some response' =>
      simp only [hr] at hu
      cases hu
      exact ⟨h, s, rfl, hr⟩
  | failed s =>
    rw [hd] at hu
    cases hu
  | fault s =>
    rw [hd] at hu
    cases hu
  | stuck =>
    rw [hd] at hu
    cases hu

/-- **An accepted response has its mandatory fields**, and the obligation handler is given no NULL
    string, exactly when the Maps in the buffer have their mandatory keys. -/
theorem mandatory_fields_iff (posix : Posix) {input : Bytes} {mem : Mem}
    {response : XacmlResponse}
    (hu : xacmlResponseUnmarshalling input mem = some (.ok, some response)) :
    (response.AllPresent ∧ gridwn2authzinteropOhProcess posix response ≠ .error .nullString)
      ↔ InputHasMandatoryKeys input mem := by
  obtain ⟨h, s, hd, hr⟩ := xacmlResponseUnmarshalling_ok hu
  have hkeys : InputHasMandatoryKeys input mem ↔ MandatoryKeys h := by
    constructor
    · exact fun hall => hall h s hd
    · intro hk h' s' hd'
      rw [hd] at hd'
      cases hd'
      exact hk
  rw [hkeys, ← response_present hr]
  exact ⟨And.left, fun hp => ⟨hp, ohProcess_no_null posix hp⟩⟩

/-! ## 7. An obligation without an id -/

/-- A response that permits, with an obligation whose Map is empty. -/
def permitNoId : HessianObject :=
  .map (some XACML_HESSIAN_RESPONSE_CLASSNAME)
    [(.string XACML_HESSIAN_RESPONSE_RESULTS, .list none
      [.map (some XACML_HESSIAN_RESULT_CLASSNAME)
        [(.string XACML_HESSIAN_RESULT_DECISION, .integer 1#32),
         (.string XACML_HESSIAN_RESULT_OBLIGATIONS, .list none
           [.map (some XACML_HESSIAN_OBLIGATION_CLASSNAME) []])]])]

/-- The bytes `hessian_serialize` writes for it. -/
def permitNoIdInput : Bytes :=
  match hessianSerialize permitNoId [] with
  | .done _ output => output
  | _ => []

/-- The decisions and obligation ids of a response with the code PEP_OK. -/
def decisionsAndIds : Option (PepError × Option XacmlResponse) →
    Option (List (XacmlDecision × List (Option CString)))
  | some (.ok, some response) =>
    some (response.results.map fun r => (r.decision, r.obligations.map XacmlObligation.id))
  | _ => none

theorem permitNoIdInput_accepted : ∃ response result obligation,
    xacmlResponseUnmarshalling permitNoIdInput Mem.unlimited = some (.ok, some response)
      ∧ response.results = [result] ∧ result.decision = .permit
      ∧ result.obligations = [obligation] ∧ obligation.id = none := by
  have hread : decisionsAndIds (xacmlResponseUnmarshalling permitNoIdInput Mem.unlimited)
      = some [(.permit, [none])] := by
    decide +kernel
  generalize xacmlResponseUnmarshalling permitNoIdInput Mem.unlimited = outcome at hread
  match outcome, hread with
  | some (.ok, some response), hread =>
    obtain ⟨result, hresults, hr⟩ := List.map_eq_singleton_iff.mp (Option.some.inj hread)
    obtain ⟨hdecision, hids⟩ := Prod.mk.inj hr
    obtain ⟨obligation, hobligations, hid⟩ := List.map_eq_singleton_iff.mp hids
    exact ⟨response, result, obligation, rfl, hresults, hdecision, hobligations, hid⟩

/-- One obligation without an id is enough. -/
theorem not_allPresent {response : XacmlResponse} {result : XacmlResult}
    {obligation : XacmlObligation} (hr : response.results = [result])
    (ho : result.obligations = [obligation]) (hid : obligation.id = none) :
    ¬ response.AllPresent := by
  intro hp
  refine hp.obligationIds result ?_ obligation ?_ hid
  · rw [hr]
    exact List.mem_singleton_self result
  · rw [ho]
    exact List.mem_singleton_self obligation

theorem oh_process_null_string : ∃ response,
    xacmlResponseUnmarshalling permitNoIdInput Mem.unlimited = some (.ok, some response)
      ∧ ¬ response.AllPresent
      ∧ gridwn2authzinteropOhProcess ⟨65536, fun _ => none, fun _ => none⟩ response
          = .error .nullString := by
  obtain ⟨response, result, obligation, hu, hr, hd, ho, hid⟩ := permitNoIdInput_accepted
  refine ⟨response, hu, not_allPresent hr ho hid, ?_⟩
  simp only [gridwn2authzinteropOhProcess, hr, List.mapM_cons, mapPosixResult, hd, ho, if_true,
    List.foldlM_cons, mapPosixObligation, hid, strncmpPrefix]
  rfl

/-- The bytes lack a mandatory key. -/
theorem mandatory_fields_iff_no_id : ¬ InputHasMandatoryKeys permitNoIdInput Mem.unlimited := by
  obtain ⟨response, result, obligation, hu, hr, hd, ho, hid⟩ := permitNoIdInput_accepted
  rw [← mandatory_fields_iff ⟨65536, fun _ => none, fun _ => none⟩ hu]
  exact fun h => not_allPresent hr ho hid h.1

end ArgusPep
