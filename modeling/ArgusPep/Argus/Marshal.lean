/-
  File:      ArgusPep/Argus/Marshal.lean
  Subject:   argus/io.c from XACML requests to Hessian objects.

  Each `*_marshal` makes a Map of its class and adds its pairs in a fixed order. A string that is
  NULL makes `hessian_create` fail, and with it the call, unless the code tests for it first.

  * `hessianCreateString` -- `hessian_create(HESSIAN_STRING, …)`;
  * `optionalPair` -- a pair added only where the string is not NULL;
  * `attributesPair` -- the list of attributes four of the functions end with;
  * `xacmlRequestMarshalling` -- from a request to the bytes appended to a buffer.
-/
import ArgusPep.Argus.Unmarshal

namespace ArgusPep

/-- `hessian_create(HESSIAN_STRING, string)`: NULL makes it fail. -/
def hessianCreateString (string : Option CString) : Option HessianObject :=
  string.map .string

/-- The pair of an optional string: none where it is NULL. -/
def optionalPair (key : CString) (string : Option CString) :
    List (HessianObject × HessianObject) :=
  match string with
  | some s => [(.string key, .string s)]
  | none => []

/-! ## 1. Attributes -/

def xacmlAttributeMarshal (attr : XacmlAttribute) : Option HessianObject := do
  let id ← hessianCreateString attr.id
  let values ← attr.values.mapM fun value => hessianCreateString (some value)
  pure (.map (some XACML_HESSIAN_ATTRIBUTE_CLASSNAME)
    ([(.string XACML_HESSIAN_ATTRIBUTE_ID, id)]
      ++ optionalPair XACML_HESSIAN_ATTRIBUTE_DATATYPE attr.datatype
      ++ optionalPair XACML_HESSIAN_ATTRIBUTE_ISSUER attr.issuer
      ++ [(.string XACML_HESSIAN_ATTRIBUTE_VALUES, .list none values)]))

/-- The pair of a list of attributes. -/
def attributesPair (key : CString) (attributes : List XacmlAttribute) :
    Option (HessianObject × HessianObject) := do
  let hAttrs ← attributes.mapM xacmlAttributeMarshal
  pure (.string key, .list none hAttrs)

/-! ## 2. The parts of a request -/

def xacmlSubjectMarshal (subject : XacmlSubject) : Option HessianObject := do
  let attributes ← attributesPair XACML_HESSIAN_SUBJECT_ATTRIBUTES subject.attributes
  pure (.map (some XACML_HESSIAN_SUBJECT_CLASSNAME)
    (optionalPair XACML_HESSIAN_SUBJECT_CATEGORY subject.category ++ [attributes]))

def xacmlResourceMarshal (resource : XacmlResource) : Option HessianObject := do
  let attributes ← attributesPair XACML_HESSIAN_RESOURCE_ATTRIBUTES resource.attributes
  pure (.map (some XACML_HESSIAN_RESOURCE_CLASSNAME)
    (optionalPair XACML_HESSIAN_RESOURCE_CONTENT resource.content ++ [attributes]))

/-- A Null for no action. -/
def xacmlActionMarshal : Option XacmlAction → Option HessianObject
  | none => some .null
  | some action => do
    let attributes ← attributesPair XACML_HESSIAN_ACTION_ATTRIBUTES action.attributes
    pure (.map (some XACML_HESSIAN_ACTION_CLASSNAME) [attributes])

/-- A Null for no environment. -/
def xacmlEnvironmentMarshal : Option XacmlEnvironment → Option HessianObject
  | none => some .null
  | some env => do
    let attributes ← attributesPair XACML_HESSIAN_ENVIRONMENT_ATTRIBUTES env.attributes
    pure (.map (some XACML_HESSIAN_ENVIRONMENT_CLASSNAME) [attributes])

/-! ## 3. Requests -/

def xacmlRequestMarshal (request : XacmlRequest) : Option HessianObject := do
  let subjects ← request.subjects.mapM xacmlSubjectMarshal
  let resources ← request.resources.mapM xacmlResourceMarshal
  let action ← xacmlActionMarshal request.action
  let environment ← xacmlEnvironmentMarshal request.environment
  pure (.map (some XACML_HESSIAN_REQUEST_CLASSNAME)
    [(.string XACML_HESSIAN_REQUEST_SUBJECTS, .list none subjects),
     (.string XACML_HESSIAN_REQUEST_RESOURCES, .list none resources),
     (.string XACML_HESSIAN_REQUEST_ACTION, action),
     (.string XACML_HESSIAN_REQUEST_ENVIRONMENT, environment)])

/-- `xacml_request_marshalling`: the error code and the bytes of the buffer. A serialization that
    does something undefined returns nothing. -/
def xacmlRequestMarshalling (request : XacmlRequest) (output : Bytes) :
    Option (PepError × Bytes) :=
  match xacmlRequestMarshal request with
  | none => some (.marshallingHessian, output)
  | some hRequest =>
    match hessianSerialize hRequest output with
    | .done _ output => some (.ok, output)
    | .failed output => some (.marshallingIo, output)
    | .fault _ => none
    | .stuck => none

end ArgusPep
