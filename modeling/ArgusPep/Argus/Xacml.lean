/-
  File:      ArgusPep/Argus/Xacml.lean
  Subject:   The XACML objects of argus/xacml.h, with the functions that create and change them.

  An object is the value of its structure: a `char *` field is an `Option CString`, NULL being
  `none`, and a linked list is a `List`. A setter is given an object that is not NULL and returns
  the object changed, or `none` for PEP_XACML_ERROR where an argument can make it refuse. Every
  allocation is taken to be granted.

  `free` is not part of the model. The field of a string that was freed and not replaced keeps its
  pointer in the code, so here it keeps its value (`xacmlSubjectSetcategory`,
  `xacmlResourceSetcontent`).
-/
import ArgusPep.Util.Bytes

namespace ArgusPep

/-! ## 1. Attributes and the parts of a request -/

structure XacmlAttribute where
  id : Option CString
  datatype : Option CString
  issuer : Option CString
  values : List CString
deriving DecidableEq

def xacmlAttributeCreate (id : Option CString) : XacmlAttribute := ⟨id, none, none, []⟩

def xacmlAttributeSetid (attr : XacmlAttribute) : Option CString → Option XacmlAttribute
  | none => none
  | some id => some { attr with id := some id }

def xacmlAttributeSetdatatype (attr : XacmlAttribute) (datatype : Option CString) :
    XacmlAttribute :=
  { attr with datatype }

def xacmlAttributeSetissuer (attr : XacmlAttribute) (issuer : Option CString) : XacmlAttribute :=
  { attr with issuer }

def xacmlAttributeAddvalue (attr : XacmlAttribute) : Option CString → Option XacmlAttribute
  | none => none
  | some value => some { attr with values := attr.values ++ [value] }

structure XacmlSubject where
  category : Option CString
  attributes : List XacmlAttribute
deriving DecidableEq

def xacmlSubjectCreate : XacmlSubject := ⟨none, []⟩

/-- A NULL `category` frees the existing one and leaves the pointer to it. -/
def xacmlSubjectSetcategory (subject : XacmlSubject) : Option CString → XacmlSubject
  | none => subject
  | some category => { subject with category := some category }

def xacmlSubjectAddattribute (subject : XacmlSubject) (attr : XacmlAttribute) : XacmlSubject :=
  { subject with attributes := subject.attributes ++ [attr] }

structure XacmlResource where
  content : Option CString
  attributes : List XacmlAttribute
deriving DecidableEq

def xacmlResourceCreate : XacmlResource := ⟨none, []⟩

/-- A NULL `content` frees the existing one and leaves the pointer to it. -/
def xacmlResourceSetcontent (resource : XacmlResource) : Option CString → XacmlResource
  | none => resource
  | some content => { resource with content := some content }

def xacmlResourceAddattribute (resource : XacmlResource) (attr : XacmlAttribute) : XacmlResource :=
  { resource with attributes := resource.attributes ++ [attr] }

structure XacmlAction where
  attributes : List XacmlAttribute
deriving DecidableEq

def xacmlActionCreate : XacmlAction := ⟨[]⟩

def xacmlActionAddattribute (action : XacmlAction) (attr : XacmlAttribute) : XacmlAction :=
  { action with attributes := action.attributes ++ [attr] }

structure XacmlEnvironment where
  attributes : List XacmlAttribute
deriving DecidableEq

def xacmlEnvironmentCreate : XacmlEnvironment := ⟨[]⟩

def xacmlEnvironmentAddattribute (env : XacmlEnvironment) (attr : XacmlAttribute) :
    XacmlEnvironment :=
  { env with attributes := env.attributes ++ [attr] }

/-! ## 2. Requests -/

structure XacmlRequest where
  subjects : List XacmlSubject
  resources : List XacmlResource
  action : Option XacmlAction
  environment : Option XacmlEnvironment
deriving DecidableEq

def xacmlRequestCreate : XacmlRequest := ⟨[], [], none, none⟩

def xacmlRequestAddsubject (request : XacmlRequest) (subject : XacmlSubject) : XacmlRequest :=
  { request with subjects := request.subjects ++ [subject] }

def xacmlRequestAddresource (request : XacmlRequest) (resource : XacmlResource) : XacmlRequest :=
  { request with resources := request.resources ++ [resource] }

def xacmlRequestSetaction (request : XacmlRequest) (action : Option XacmlAction) : XacmlRequest :=
  { request with action }

def xacmlRequestSetenvironment (request : XacmlRequest) (env : Option XacmlEnvironment) :
    XacmlRequest :=
  { request with environment := env }

/-! ## 3. Status -/

inductive XacmlStatuscode where
  | mk (value : Option CString) (subcode : Option XacmlStatuscode)

namespace XacmlStatuscode

def value : XacmlStatuscode → Option CString
  | mk value _ => value

def subcode : XacmlStatuscode → Option XacmlStatuscode
  | mk _ subcode => subcode

end XacmlStatuscode

def xacmlStatuscodeCreate (value : Option CString) : XacmlStatuscode := .mk value none

def xacmlStatuscodeSetvalue (statusCode : XacmlStatuscode) :
    Option CString → Option XacmlStatuscode
  | none => none
  | some value => some (.mk (some value) statusCode.subcode)

def xacmlStatuscodeSetsubcode (statusCode subcode : XacmlStatuscode) : XacmlStatuscode :=
  .mk statusCode.value (some subcode)

structure XacmlStatus where
  message : Option CString
  code : Option XacmlStatuscode

def xacmlStatusCreate (message : Option CString) : XacmlStatus := ⟨message, none⟩

def xacmlStatusSetmessage (status : XacmlStatus) : Option CString → Option XacmlStatus
  | none => none
  | some message => some { status with message := some message }

def xacmlStatusSetcode (status : XacmlStatus) (code : XacmlStatuscode) : XacmlStatus :=
  { status with code := some code }

/-! ## 4. Obligations -/

structure XacmlAttributeassignment where
  id : Option CString
  datatype : Option CString
  value : Option CString
deriving DecidableEq

def xacmlAttributeassignmentCreate (id : Option CString) : XacmlAttributeassignment :=
  ⟨id, none, none⟩

def xacmlAttributeassignmentSetid (attr : XacmlAttributeassignment) :
    Option CString → Option XacmlAttributeassignment
  | none => none
  | some id => some { attr with id := some id }

def xacmlAttributeassignmentSetdatatype (attr : XacmlAttributeassignment)
    (datatype : Option CString) : XacmlAttributeassignment :=
  { attr with datatype }

def xacmlAttributeassignmentSetvalue (attr : XacmlAttributeassignment) (value : Option CString) :
    XacmlAttributeassignment :=
  { attr with value }

/-- `xacml_fulfillon_t`. -/
inductive XacmlFulfillon where
  | deny | permit
deriving DecidableEq, Repr

/-- The constant of an `int`, if it is one. -/
def XacmlFulfillon.ofInt (n : CInt) : Option XacmlFulfillon :=
  if n = 0#32 then some .deny
  else if n = 1#32 then some .permit
  else none

structure XacmlObligation where
  id : Option CString
  fulfillon : XacmlFulfillon
  assignments : List XacmlAttributeassignment
deriving DecidableEq

def xacmlObligationCreate (id : Option CString) : XacmlObligation := ⟨id, .deny, []⟩

def xacmlObligationSetid (obligation : XacmlObligation) : Option CString → Option XacmlObligation
  | none => none
  | some id => some { obligation with id := some id }

def xacmlObligationSetfulfillon (obligation : XacmlObligation) (fulfillon : CInt) :
    Option XacmlObligation :=
  (XacmlFulfillon.ofInt fulfillon).map fun fulfillon => { obligation with fulfillon }

def xacmlObligationAddattributeassignment (obligation : XacmlObligation)
    (attr : XacmlAttributeassignment) : XacmlObligation :=
  { obligation with assignments := obligation.assignments ++ [attr] }

/-! ## 5. Results and responses -/

/-- `xacml_decision_t`. -/
inductive XacmlDecision where
  | deny | permit | indeterminate | notApplicable
deriving DecidableEq, Repr

/-- The constant of an `int`, if it is one. -/
def XacmlDecision.ofInt (n : CInt) : Option XacmlDecision :=
  if n = 0#32 then some .deny
  else if n = 1#32 then some .permit
  else if n = 2#32 then some .indeterminate
  else if n = 3#32 then some .notApplicable
  else none

structure XacmlResult where
  resourceid : Option CString
  decision : XacmlDecision
  status : Option XacmlStatus
  obligations : List XacmlObligation

def xacmlResultCreate : XacmlResult := ⟨none, .deny, none, []⟩

def xacmlResultSetdecision (result : XacmlResult) (decision : CInt) : Option XacmlResult :=
  (XacmlDecision.ofInt decision).map fun decision => { result with decision }

def xacmlResultSetresourceid (result : XacmlResult) (resourceid : Option CString) : XacmlResult :=
  { result with resourceid }

def xacmlResultSetstatus (result : XacmlResult) (status : XacmlStatus) : XacmlResult :=
  { result with status := some status }

def xacmlResultAddobligation (result : XacmlResult) (obligation : XacmlObligation) : XacmlResult :=
  { result with obligations := result.obligations ++ [obligation] }

structure XacmlResponse where
  request : Option XacmlRequest
  results : List XacmlResult

def xacmlResponseCreate : XacmlResponse := ⟨none, []⟩

def xacmlResponseSetrequest (response : XacmlResponse) (request : XacmlRequest) : XacmlResponse :=
  { response with request := some request }

def xacmlResponseAddresult (response : XacmlResponse) (result : XacmlResult) : XacmlResponse :=
  { response with results := response.results ++ [result] }

end ArgusPep
