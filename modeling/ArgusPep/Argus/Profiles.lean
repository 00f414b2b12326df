/-
  File:      ArgusPep/Argus/Profiles.lean
  Subject:   `gridwn2authzinterop_oh_process` of argus/profiles.c, the obligation handler that maps
             the local-environment-map/posix obligation to user and group ids.

  The handler hands ids to `strcmp` and `strncmp` and names to an array of NGROUPS_MAX pointers
  without a check: a NULL string and an index past the array are its two faults (`OhFault`). A run
  without a fault returns 0, with the response changed; the request is not looked at. Obligations
  and assignments can always be allocated.

  * `Posix` -- what the platform brings: NGROUPS_MAX, `getpwnam_r` and `getgrnam_r`;
  * `collectNames` -- the loop over the attribute assignments;
  * `mapPosixObligation` -- the obligations added for one obligation;
  * `gridwn2authzinteropOhProcess` -- the loops over results and obligations.
-/
import ArgusPep.Argus.Xacml

namespace ArgusPep

/-! ## 1. Identifiers -/

abbrev XACML_DATATYPE_STRING := CString.lit "http://www.w3.org/2001/XMLSchema#string"
abbrev XACML_DATATYPE_INTEGER := CString.lit "http://www.w3.org/2001/XMLSchema#integer"

abbrev XACML_AUTHZINTEROP_OBLIGATION_UIDGID :=
  CString.lit "http://authz-interop.org/xacml/obligation/uidgid"
abbrev XACML_AUTHZINTEROP_OBLIGATION_SECONDARY_GIDS :=
  CString.lit "http://authz-interop.org/xacml/obligation/secondary-gids"
abbrev XACML_AUTHZINTEROP_OBLIGATION_USERNAME :=
  CString.lit "http://authz-interop.org/xacml/obligation/username"
abbrev XACML_AUTHZINTEROP_OBLIGATION_ATTR_POSIX_UID :=
  CString.lit "http://authz-interop.org/xacml/attribute/posix-uid"
abbrev XACML_AUTHZINTEROP_OBLIGATION_ATTR_POSIX_GID :=
  CString.lit "http://authz-interop.org/xacml/attribute/posix-gid"
abbrev XACML_AUTHZINTEROP_OBLIGATION_ATTR_USERNAME :=
  CString.lit "http://authz-interop.org/xacml/attribute/username"

abbrev XACML_GRIDWN_ATTRIBUTE_USER_ID := CString.lit "http://glite.org/xacml/attribute/user-id"
abbrev XACML_GRIDWN_ATTRIBUTE_GROUP_ID := CString.lit "http://glite.org/xacml/attribute/group-id"
abbrev XACML_GRIDWN_ATTRIBUTE_GROUP_ID_PRIMARY :=
  CString.lit "http://glite.org/xacml/attribute/group-id/primary"
abbrev XACML_GRIDWN_OBLIGATION_LOCAL_ENVIRONMENT_MAP_POSIX :=
  CString.lit "http://glite.org/xacml/obligation/local-environment-map/posix"

/-! ## 2. The platform -/

structure Posix where
  /-- NGROUPS_MAX. -/
  ngroupsMax : Nat
  /-- `getpwnam_r`: the user id and the group id of a user. -/
  getpwnam : CString → Option (UInt32 × UInt32)
  /-- `getgrnam_r`: the group id of a group. -/
  getgrnam : CString → Option UInt32

inductive OhFault where
  /-- A NULL pointer is passed to `strcmp` or `strncmp`. -/
  | nullString
  /-- A group name is stored past the end of the array. -/
  | groupnames
deriving DecidableEq, Repr

/-- `strncmp(prefix,string,strlen(prefix))==0`. -/
def strncmpPrefix (start : CString) : Option CString → Except OhFault Bool
  | none => .error .nullString
  | some s => .ok (start.bytes.isPrefixOf s.bytes)

/-- `strcmp(constant,string)==0`. -/
def strcmpEq (constant : CString) : Option CString → Except OhFault Bool
  | none => .error .nullString
  | some s => .ok (decide (s = constant))

/-- `snprintf(value,1024,"%u",n)`. -/
def decimal (n : UInt32) : CString := CString.ofArray ((Nat.toDigits 10 n.toNat).map Char.byte)

/-! ## 3. The obligations added -/

/-- An assignment with an id, a value and a datatype. -/
def assignmentOf (id value datatype : CString) : XacmlAttributeassignment :=
  xacmlAttributeassignmentSetdatatype (xacmlAttributeassignmentSetvalue
    (xacmlAttributeassignmentCreate (some id)) (some value)) (some datatype)

/-- An obligation with an id, the FulfillOn of its source, and assignments. -/
def obligationWith (id : CString) (fulfillon : XacmlFulfillon)
    (assignments : List XacmlAttributeassignment) : XacmlObligation :=
  assignments.foldl xacmlObligationAddattributeassignment
    { xacmlObligationCreate (some id) with fulfillon }

def createUsernameObligation (fulfillon : XacmlFulfillon) (username : CString) : XacmlObligation :=
  obligationWith XACML_AUTHZINTEROP_OBLIGATION_USERNAME fulfillon
    [assignmentOf XACML_AUTHZINTEROP_OBLIGATION_ATTR_USERNAME username XACML_DATATYPE_STRING]

def createUidgidObligation (fulfillon : XacmlFulfillon) (uid gid : UInt32) : XacmlObligation :=
  obligationWith XACML_AUTHZINTEROP_OBLIGATION_UIDGID fulfillon
    [assignmentOf XACML_AUTHZINTEROP_OBLIGATION_ATTR_POSIX_UID (decimal uid) XACML_DATATYPE_INTEGER,
     assignmentOf XACML_AUTHZINTEROP_OBLIGATION_ATTR_POSIX_GID (decimal gid) XACML_DATATYPE_INTEGER]

def createSecondarygidsObligation (fulfillon : XacmlFulfillon) (gids : List UInt32) :
    XacmlObligation :=
  obligationWith XACML_AUTHZINTEROP_OBLIGATION_SECONDARY_GIDS fulfillon
    (gids.map fun gid => assignmentOf XACML_AUTHZINTEROP_OBLIGATION_ATTR_POSIX_GID (decimal gid)
      XACML_DATATYPE_INTEGER)

/-- `resolve_group_gid`: NULL resolves to nothing. -/
def resolveGroupGid (posix : Posix) (groupname : Option CString) : Option UInt32 :=
  groupname.bind posix.getgrnam

/-- `resolve_user_uidgid`. -/
def resolveUserUidgid (posix : Posix) (username : Option CString) : Option (UInt32 × UInt32) :=
  username.bind posix.getpwnam

/-! ## 4. The handler -/

/-- What the assignments of an obligation name; a group name may be NULL. -/
structure PosixNames where
  username : Option CString
  groupname : Option CString
  groupnames : List (Option CString)
deriving DecidableEq

/-- One assignment: its id is compared with three constants, one after the other. -/
def collectName (posix : Posix) (names : PosixNames) (attr : XacmlAttributeassignment) :
    Except OhFault PosixNames := do
  if ← strcmpEq XACML_GRIDWN_ATTRIBUTE_USER_ID attr.id then
    pure { names with username := attr.value }
  else if ← strcmpEq XACML_GRIDWN_ATTRIBUTE_GROUP_ID_PRIMARY attr.id then
    pure { names with groupname := attr.value }
  else if ← strcmpEq XACML_GRIDWN_ATTRIBUTE_GROUP_ID attr.id then
    if names.groupnames.length < posix.ngroupsMax then
      pure { names with groupnames := names.groupnames ++ [attr.value] }
    else .error .groupnames
  else pure names

def collectNames (posix : Posix) (assignments : List XacmlAttributeassignment) :
    Except OhFault PosixNames :=
  assignments.foldlM (collectName posix) ⟨none, none, []⟩

/-- The obligations made of the names: username, uid and gid, secondary gids. -/
def posixObligations (posix : Posix) (fulfillon : XacmlFulfillon) (names : PosixNames) :
    List XacmlObligation :=
  (match names.username with
    | some username => [createUsernameObligation fulfillon username]
    | none => [])
  ++ (match names.username, resolveUserUidgid posix names.username with
    | some _, some (userUid, userGid) =>
      -- the default group of the user where no primary group resolves
      let gid := (resolveGroupGid posix names.groupname).getD userGid
      [createUidgidObligation fulfillon userUid gid]
    | _, _ => [])
  ++ (match names.groupnames, names.groupnames.mapM (resolveGroupGid posix) with
    | _ :: _, some gids => [createSecondarygidsObligation fulfillon gids]
    | _, _ => [])

/-- The obligations added for an obligation. -/
def mapPosixObligation (posix : Posix) (obligation : XacmlObligation) :
    Except OhFault (List XacmlObligation) := do
  if ← strncmpPrefix XACML_GRIDWN_OBLIGATION_LOCAL_ENVIRONMENT_MAP_POSIX obligation.id then
    let names ← collectNames posix obligation.assignments
    pure (posixObligations posix obligation.fulfillon names)
  else pure []

/-- The obligations a result has when the loop starts are gone through. -/
def mapPosixResult (posix : Posix) (result : XacmlResult) : Except OhFault XacmlResult :=
  if result.decision = .permit then
    result.obligations.foldlM (fun result obligation => do
      let added ← mapPosixObligation posix obligation
      pure (added.foldl xacmlResultAddobligation result)) result
  else .ok result

/-- `gridwn2authzinterop_oh_process`. -/
def gridwn2authzinteropOhProcess (posix : Posix) (response : XacmlResponse) :
    Except OhFault XacmlResponse := do
  let results ← response.results.mapM (mapPosixResult posix)
  pure { response with results }

end ArgusPep
