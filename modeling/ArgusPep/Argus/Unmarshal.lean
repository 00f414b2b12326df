/-
  File:      ArgusPep/Argus/Unmarshal.lean
  Subject:   argus/io.c from Hessian objects to XACML objects.

  Each `*_unmarshal` wants a Map of its class and goes through the pairs of the Map in order: a key
  must be a String, a key it knows changes the object, any other key is passed over. `none` is
  PEP_IO_ERROR; an error at any pair ends the call, and the object read so far is deleted.

  * `XACML_HESSIAN_…` -- the class names and the keys of argus/io.h;
  * `stringField`, `optionalStringField`, `integerField`, `listField`, `objectField` -- what the
    value under a key must be, and how it is handed to a setter;
  * `unmarshalMap` -- the frame the twelve functions share; `attributeEntry`, `subjectEntry`, … are
    the bodies of their loops;
  * `xacmlResponseUnmarshalling` -- from the unread bytes of a buffer to a response.
-/
import ArgusPep.Lib.Keyed
import ArgusPep.Argus.Xacml
import ArgusPep.Hessian.Deserialize

namespace ArgusPep

open Lib

/-! ## 1. Names -/

abbrev XACML_HESSIAN_ATTRIBUTE_CLASSNAME := CString.lit "org.glite.authz.common.model.Attribute"
abbrev XACML_HESSIAN_ATTRIBUTE_ID := CString.lit "id"
abbrev XACML_HESSIAN_ATTRIBUTE_DATATYPE := CString.lit "dataType"
abbrev XACML_HESSIAN_ATTRIBUTE_ISSUER := CString.lit "issuer"
abbrev XACML_HESSIAN_ATTRIBUTE_VALUES := CString.lit "values"

abbrev XACML_HESSIAN_SUBJECT_CLASSNAME := CString.lit "org.glite.authz.common.model.Subject"
abbrev XACML_HESSIAN_SUBJECT_CATEGORY := CString.lit "category"
abbrev XACML_HESSIAN_SUBJECT_ATTRIBUTES := CString.lit "attributes"

abbrev XACML_HESSIAN_RESOURCE_CLASSNAME := CString.lit "org.glite.authz.common.model.Resource"
abbrev XACML_HESSIAN_RESOURCE_CONTENT := CString.lit "resourceContent"
abbrev XACML_HESSIAN_RESOURCE_ATTRIBUTES := CString.lit "attributes"

abbrev XACML_HESSIAN_ACTION_CLASSNAME := CString.lit "org.glite.authz.common.model.Action"
abbrev XACML_HESSIAN_ACTION_ATTRIBUTES := CString.lit "attributes"

abbrev XACML_HESSIAN_ENVIRONMENT_CLASSNAME := CString.lit "org.glite.authz.common.model.Environment"
abbrev XACML_HESSIAN_ENVIRONMENT_ATTRIBUTES := CString.lit "attributes"

abbrev XACML_HESSIAN_REQUEST_CLASSNAME := CString.lit "org.glite.authz.common.model.Request"
abbrev XACML_HESSIAN_REQUEST_SUBJECTS := CString.lit "subjects"
abbrev XACML_HESSIAN_REQUEST_RESOURCES := CString.lit "resources"
abbrev XACML_HESSIAN_REQUEST_ACTION := CString.lit "action"
abbrev XACML_HESSIAN_REQUEST_ENVIRONMENT := CString.lit "environment"

abbrev XACML_HESSIAN_STATUSCODE_CLASSNAME := CString.lit "org.glite.authz.common.model.StatusCode"
abbrev XACML_HESSIAN_STATUSCODE_VALUE := CString.lit "code"
abbrev XACML_HESSIAN_STATUSCODE_SUBCODE := CString.lit "subCode"

abbrev XACML_HESSIAN_STATUS_CLASSNAME := CString.lit "org.glite.authz.common.model.Status"
abbrev XACML_HESSIAN_STATUS_MESSAGE := CString.lit "message"
abbrev XACML_HESSIAN_STATUS_CODE := CString.lit "statusCode"

abbrev XACML_HESSIAN_ATTRIBUTEASSIGNMENT_CLASSNAME :=
  CString.lit "org.glite.authz.common.model.AttributeAssignment"
abbrev XACML_HESSIAN_ATTRIBUTEASSIGNMENT_ID := CString.lit "attributeId"
abbrev XACML_HESSIAN_ATTRIBUTEASSIGNMENT_DATATYPE := CString.lit "dataType"
abbrev XACML_HESSIAN_ATTRIBUTEASSIGNMENT_VALUE := CString.lit "value"
abbrev XACML_HESSIAN_ATTRIBUTEASSIGNMENT_VALUES := CString.lit "values"

abbrev XACML_HESSIAN_OBLIGATION_CLASSNAME := CString.lit "org.glite.authz.common.model.Obligation"
abbrev XACML_HESSIAN_OBLIGATION_ID := CString.lit "id"
abbrev XACML_HESSIAN_OBLIGATION_FULFILLON := CString.lit "fulfillOn"
abbrev XACML_HESSIAN_OBLIGATION_ASSIGNMENTS := CString.lit "attributeAssignments"

abbrev XACML_HESSIAN_RESULT_CLASSNAME := CString.lit "org.glite.authz.common.model.Result"
abbrev XACML_HESSIAN_RESULT_DECISION := CString.lit "decision"
abbrev XACML_HESSIAN_RESULT_RESOURCEID := CString.lit "resourceId"
abbrev XACML_HESSIAN_RESULT_STATUS := CString.lit "status"
abbrev XACML_HESSIAN_RESULT_OBLIGATIONS := CString.lit "obligations"

abbrev XACML_HESSIAN_RESPONSE_CLASSNAME := CString.lit "org.glite.authz.common.model.Response"
abbrev XACML_HESSIAN_RESPONSE_REQUEST := CString.lit "request"
abbrev XACML_HESSIAN_RESPONSE_RESULTS := CString.lit "results"

/-! ## 2. The value under a key -/

section Fields

variable {σ β : Type}

/-- The text of a key, which must be a String. -/
def mapKey : HessianObject → Option CString
  | .string s => some s
  | _ => none

/-- A String, handed to `set`. -/
def stringField (set : σ → Option CString → Option σ) (object : σ) (value : HessianObject) :
    Option σ :=
  if hessianGettype value ≠ .string then none
  else set object (hessianStringGetstring value)

/-- A String, or a Null, which stands for the NULL string. -/
def optionalStringField (set : σ → Option CString → σ) (object : σ) (value : HessianObject) :
    Option σ :=
  if hessianGettype value ≠ .string ∧ hessianGettype value ≠ .null then none
  else some (set object
    (if hessianGettype value = .string then hessianStringGetstring value else none))

def integerField (set : σ → CInt → Option σ) (object : σ) (value : HessianObject) : Option σ :=
  if hessianGettype value ≠ .integer then none
  else set object (hessianIntegerGetvalue value)

/-- A List, whose elements are handed to `element` one after the other. -/
def listField (element : σ → HessianObject → Option σ) (object : σ) : HessianObject → Option σ
  | .list _ elements => elements.foldlM element object
  | _ => none

/-- Anything but a Null is unmarshalled and handed to `set`; a Null changes nothing. -/
def objectField (unmarshalled : Option β) (set : σ → β → σ) (object : σ) (value : HessianObject) :
    Option σ :=
  if hessianGettype value = .null then some object
  else unmarshalled.map (set object)

/-- One element of a list of objects: unmarshalled and added. -/
def objectElement (unmarshal : HessianObject → Option β) (add : σ → β → σ) (object : σ)
    (element : HessianObject) : Option σ :=
  (unmarshal element).map (add object)

/-- The frame of the functions: a Map of the class, whose pairs `entry` goes through. -/
def unmarshalMap (classname : CString) (entry : Keyed.Step CString HessianObject σ) (object : σ) :
    HessianObject → Option σ
  | .map (some type) pairs =>
    if type = classname then Keyed.scan mapKey entry object pairs else none
  | _ => none

end Fields

/-! ## 3. Requests -/

def attributeEntry (attr : XacmlAttribute) (key : CString) (value : HessianObject) :
    Option XacmlAttribute :=
  if key = XACML_HESSIAN_ATTRIBUTE_ID then stringField xacmlAttributeSetid attr value
  else if key = XACML_HESSIAN_ATTRIBUTE_DATATYPE then
    optionalStringField xacmlAttributeSetdatatype attr value
  else if key = XACML_HESSIAN_ATTRIBUTE_ISSUER then
    optionalStringField xacmlAttributeSetissuer attr value
  else if key = XACML_HESSIAN_ATTRIBUTE_VALUES then
    listField (stringField xacmlAttributeAddvalue) attr value
  else some attr

def xacmlAttributeUnmarshal : HessianObject → Option XacmlAttribute :=
  unmarshalMap XACML_HESSIAN_ATTRIBUTE_CLASSNAME attributeEntry (xacmlAttributeCreate none)

def subjectEntry (subject : XacmlSubject) (key : CString) (value : HessianObject) :
    Option XacmlSubject :=
  if key = XACML_HESSIAN_SUBJECT_CATEGORY then
    optionalStringField xacmlSubjectSetcategory subject value
  else if key = XACML_HESSIAN_SUBJECT_ATTRIBUTES then
    listField (objectElement xacmlAttributeUnmarshal xacmlSubjectAddattribute) subject value
  else some subject

def xacmlSubjectUnmarshal : HessianObject → Option XacmlSubject :=
  unmarshalMap XACML_HESSIAN_SUBJECT_CLASSNAME subjectEntry xacmlSubjectCreate

def resourceEntry (resource : XacmlResource) (key : CString) (value : HessianObject) :
    Option XacmlResource :=
  if key = XACML_HESSIAN_RESOURCE_CONTENT then
    optionalStringField xacmlResourceSetcontent resource value
  else if key = XACML_HESSIAN_RESOURCE_ATTRIBUTES then
    listField (objectElement xacmlAttributeUnmarshal xacmlResourceAddattribute) resource value
  else some resource

def xacmlResourceUnmarshal : HessianObject → Option XacmlResource :=
  unmarshalMap XACML_HESSIAN_RESOURCE_CLASSNAME resourceEntry xacmlResourceCreate

def actionEntry (action : XacmlAction) (key : CString) (value : HessianObject) :
    Option XacmlAction :=
  if key = XACML_HESSIAN_ACTION_ATTRIBUTES then
    listField (objectElement xacmlAttributeUnmarshal xacmlActionAddattribute) action value
  else some action

def xacmlActionUnmarshal : HessianObject → Option XacmlAction :=
  unmarshalMap XACML_HESSIAN_ACTION_CLASSNAME actionEntry xacmlActionCreate

def environmentEntry (environment : XacmlEnvironment) (key : CString) (value : HessianObject) :
    Option XacmlEnvironment :=
  if key = XACML_HESSIAN_ENVIRONMENT_ATTRIBUTES then
    listField (objectElement xacmlAttributeUnmarshal xacmlEnvironmentAddattribute) environment value
  else some environment

def xacmlEnvironmentUnmarshal : HessianObject → Option XacmlEnvironment :=
  unmarshalMap XACML_HESSIAN_ENVIRONMENT_CLASSNAME environmentEntry xacmlEnvironmentCreate

def requestEntry (request : XacmlRequest) (key : CString) (value : HessianObject) :
    Option XacmlRequest :=
  if key = XACML_HESSIAN_REQUEST_SUBJECTS then
    listField (objectElement xacmlSubjectUnmarshal xacmlRequestAddsubject) request value
  else if key = XACML_HESSIAN_REQUEST_RESOURCES then
    listField (objectElement xacmlResourceUnmarshal xacmlRequestAddresource) request value
  else if key = XACML_HESSIAN_REQUEST_ACTION then
    objectField (xacmlActionUnmarshal value) (fun request action =>
      xacmlRequestSetaction request (some action)) request value
  else if key = XACML_HESSIAN_REQUEST_ENVIRONMENT then
    objectField (xacmlEnvironmentUnmarshal value) (fun request environment =>
      xacmlRequestSetenvironment request (some environment)) request value
  else some request

def xacmlRequestUnmarshal : HessianObject → Option XacmlRequest :=
  unmarshalMap XACML_HESSIAN_REQUEST_CLASSNAME requestEntry xacmlRequestCreate

/-! ## 4. Status -/

mutual
/-- A status code may hold a status code. -/
def xacmlStatuscodeUnmarshal : HessianObject → Option XacmlStatuscode
  | .map (some type) pairs =>
    if type = XACML_HESSIAN_STATUSCODE_CLASSNAME then
      statuscodePairs (xacmlStatuscodeCreate none) pairs
    else none
  | _ => none

/-- The loop over the pairs. -/
def statuscodePairs (statuscode : XacmlStatuscode) :
    List (HessianObject × HessianObject) → Option XacmlStatuscode
  | [] => some statuscode
  | (key, value) :: pairs => do
    let key ← mapKey key
    let statuscode ←
      if key = XACML_HESSIAN_STATUSCODE_VALUE then
        stringField xacmlStatuscodeSetvalue statuscode value
      else if key = XACML_HESSIAN_STATUSCODE_SUBCODE then
        objectField (xacmlStatuscodeUnmarshal value) xacmlStatuscodeSetsubcode statuscode value
      else some statuscode
    statuscodePairs statuscode pairs
end

def statusEntry (status : XacmlStatus) (key : CString) (value : HessianObject) :
    Option XacmlStatus :=
  if key = XACML_HESSIAN_STATUS_MESSAGE then
    if hessianGettype value ≠ .null then stringField xacmlStatusSetmessage status value
    else some status
  else if key = XACML_HESSIAN_STATUS_CODE then
    objectField (xacmlStatuscodeUnmarshal value) xacmlStatusSetcode status value
  else some status

def xacmlStatusUnmarshal : HessianObject → Option XacmlStatus :=
  unmarshalMap XACML_HESSIAN_STATUS_CLASSNAME statusEntry (xacmlStatusCreate none)

/-! ## 5. Obligations -/

def attributeassignmentEntry (attr : XacmlAttributeassignment) (key : CString)
    (value : HessianObject) : Option XacmlAttributeassignment :=
  if key = XACML_HESSIAN_ATTRIBUTEASSIGNMENT_ID then
    stringField xacmlAttributeassignmentSetid attr value
  else if key = XACML_HESSIAN_ATTRIBUTEASSIGNMENT_DATATYPE then
    optionalStringField xacmlAttributeassignmentSetdatatype attr value
  else if key = XACML_HESSIAN_ATTRIBUTEASSIGNMENT_VALUE then
    optionalStringField xacmlAttributeassignmentSetvalue attr value
  -- back compatibility: of several values the last one stays
  else if key = XACML_HESSIAN_ATTRIBUTEASSIGNMENT_VALUES then
    listField (stringField fun attr value =>
      some (xacmlAttributeassignmentSetvalue attr value)) attr value
  else some attr

def xacmlAttributeassignmentUnmarshal : HessianObject → Option XacmlAttributeassignment :=
  unmarshalMap XACML_HESSIAN_ATTRIBUTEASSIGNMENT_CLASSNAME attributeassignmentEntry
    (xacmlAttributeassignmentCreate none)

def obligationEntry (obligation : XacmlObligation) (key : CString) (value : HessianObject) :
    Option XacmlObligation :=
  if key = XACML_HESSIAN_OBLIGATION_ID then stringField xacmlObligationSetid obligation value
  else if key = XACML_HESSIAN_OBLIGATION_FULFILLON then
    integerField xacmlObligationSetfulfillon obligation value
  else if key = XACML_HESSIAN_OBLIGATION_ASSIGNMENTS then
    listField (objectElement xacmlAttributeassignmentUnmarshal
      xacmlObligationAddattributeassignment) obligation value
  else some obligation

def xacmlObligationUnmarshal : HessianObject → Option XacmlObligation :=
  unmarshalMap XACML_HESSIAN_OBLIGATION_CLASSNAME obligationEntry (xacmlObligationCreate none)

/-! ## 6. Results and responses -/

def resultEntry (result : XacmlResult) (key : CString) (value : HessianObject) :
    Option XacmlResult :=
  if key = XACML_HESSIAN_RESULT_DECISION then integerField xacmlResultSetdecision result value
  else if key = XACML_HESSIAN_RESULT_RESOURCEID then
    optionalStringField xacmlResultSetresourceid result value
  else if key = XACML_HESSIAN_RESULT_STATUS then
    objectField (xacmlStatusUnmarshal value) xacmlResultSetstatus result value
  else if key = XACML_HESSIAN_RESULT_OBLIGATIONS then
    listField (objectElement xacmlObligationUnmarshal xacmlResultAddobligation) result value
  else some result

def xacmlResultUnmarshal : HessianObject → Option XacmlResult :=
  unmarshalMap XACML_HESSIAN_RESULT_CLASSNAME resultEntry xacmlResultCreate

def responseEntry (response : XacmlResponse) (key : CString) (value : HessianObject) :
    Option XacmlResponse :=
  if key = XACML_HESSIAN_RESPONSE_REQUEST then
    objectField (xacmlRequestUnmarshal value) xacmlResponseSetrequest response value
  else if key = XACML_HESSIAN_RESPONSE_RESULTS then
    listField (objectElement xacmlResultUnmarshal xacmlResponseAddresult) response value
  else some response

def xacmlResponseUnmarshal : HessianObject → Option XacmlResponse :=
  unmarshalMap XACML_HESSIAN_RESPONSE_CLASSNAME responseEntry xacmlResponseCreate

/-! ## 7. From a buffer -/

/-- `pep_error_t`. -/
inductive PepError where
  | ok | memory | nullPointer | llist | curl | pipInit | ohInit | optionInvalid | pipProcess
  | curlPerform | authzRequest | ohProcess | marshallingHessian | marshallingIo
  | unmarshallingHessian | unmarshallingIo
deriving DecidableEq, Repr

/-- `xacml_response_unmarshalling`: the error code, and the response where the code is PEP_OK. A
    deserialization that does something undefined returns nothing. The `hessian_delete` behind it is
    left out: it changes neither, where no Ref makes it delete an object twice. -/
def xacmlResponseUnmarshalling (input : Bytes) (mem : Mem) :
    Option (PepError × Option XacmlResponse) :=
  match hessianDeserialize (Reader.start input mem) with
  | .done hResponse _ =>
    match xacmlResponseUnmarshal hResponse with
    | some response => some (.ok, some response)
    | none => some (.unmarshallingHessian, none)
  | .failed _ => some (.unmarshallingIo, none)
  | .fault _ => none
  | .stuck => none

end ArgusPep
