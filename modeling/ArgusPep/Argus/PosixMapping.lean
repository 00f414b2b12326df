/-
  File:      ArgusPep/Argus/PosixMapping.lean
  Subject:   What `gridwn2authzinterop_oh_process` adds for a local-environment-map/posix obligation,
             and where the gid of a uidgid obligation comes from.

  * `namedUser`, `namedPrimary`, `namedGroups` -- what the assignments of an obligation name: the
    last user, the last primary group, all groups;
  * `foldlM_collectName` -- the loop over the assignments comes to exactly these, or it faults;
  * `mapPosixResult_eq_walk` -- the loop over the obligations by their index, in the list that grows;
  * **`ohProcess_mapping`** -- what is added for which obligation, in which order;
  * **`ohProcess_gid_named_iff`** -- exactly when the gid is the one of the primary group named.
-/
import ArgusPep.Argus.Profiles
import ArgusPep.Argus.Records
import ArgusPep.Lib.Walk

namespace ArgusPep

open Lib

/-! ## 1. What an obligation names -/

/-- The values of the assignments with the id `id`, in order. -/
def valuesOf (id : CString) (assignments : List XacmlAttributeassignment) :
    List (Option CString) :=
  (assignments.filter fun a => decide (a.id = some id)).map XacmlAttributeassignment.value

/-- The value of the last user-id assignment. -/
def namedUser (o : XacmlObligation) : Option CString :=
  (valuesOf XACML_GRIDWN_ATTRIBUTE_USER_ID o.assignments).getLast?.getD none

/-- The value of the last group-id/primary assignment. -/
def namedPrimary (o : XacmlObligation) : Option CString :=
  (valuesOf XACML_GRIDWN_ATTRIBUTE_GROUP_ID_PRIMARY o.assignments).getLast?.getD none

/-- The values of all group-id assignments. -/
def namedGroups (o : XacmlObligation) : List (Option CString) :=
  valuesOf XACML_GRIDWN_ATTRIBUTE_GROUP_ID o.assignments

theorem valuesOf_cons_self {id : CString} {a : XacmlAttributeassignment} (h : a.id = some id)
    (as : List XacmlAttributeassignment) : valuesOf id (a :: as) = a.value :: valuesOf id as := by
  simp [valuesOf, h]

theorem valuesOf_cons_ne {id : CString} {a : XacmlAttributeassignment} (h : a.id ≠ some id)
    (as : List XacmlAttributeassignment) : valuesOf id (a :: as) = valuesOf id as := by
  simp [valuesOf, h]

/-! ## 2. The loop over the assignments -/

/-- The names after more assignments: the last user and the last primary group, and all groups. -/
def PosixNames.after (names : PosixNames) (as : List XacmlAttributeassignment) : PosixNames where
  username := (valuesOf XACML_GRIDWN_ATTRIBUTE_USER_ID as).getLast?.getD names.username
  groupname := (valuesOf XACML_GRIDWN_ATTRIBUTE_GROUP_ID_PRIMARY as).getLast?.getD names.groupname
  groupnames := names.groupnames ++ valuesOf XACML_GRIDWN_ATTRIBUTE_GROUP_ID as

theorem PosixNames.after_nil (names : PosixNames) : names.after [] = names := by
  unfold PosixNames.after
  rw [show valuesOf XACML_GRIDWN_ATTRIBUTE_GROUP_ID [] = [] from rfl, List.append_nil]
  rfl

/-- The last of the values behind `v`, or `v`. -/
theorem getLast?_cons_getD {α : Type} (v b : α) (vs : List α) :
    (v :: vs).getLast?.getD b = vs.getLast?.getD v := by
  rw [List.getLast?_cons]
  rfl

theorem user_ne_primary :
    XACML_GRIDWN_ATTRIBUTE_USER_ID ≠ XACML_GRIDWN_ATTRIBUTE_GROUP_ID_PRIMARY := by decide

theorem user_ne_group : XACML_GRIDWN_ATTRIBUTE_USER_ID ≠ XACML_GRIDWN_ATTRIBUTE_GROUP_ID := by decide

theorem primary_ne_group :
    XACML_GRIDWN_ATTRIBUTE_GROUP_ID_PRIMARY ≠ XACML_GRIDWN_ATTRIBUTE_GROUP_ID := by decide

/-- An id is not another one. -/
theorem id_ne {a : XacmlAttributeassignment} {id other : CString} (h : a.id = some id)
    (hne : id ≠ other) : a.id ≠ some other := by
  rw [h]
  exact fun e => hne (Option.some.inj e)

theorem after_user {a : XacmlAttributeassignment} (h : a.id = some XACML_GRIDWN_ATTRIBUTE_USER_ID)
    (names : PosixNames) (as : List XacmlAttributeassignment) :
    names.after (a :: as) = { names with username := a.value }.after as := by
  unfold PosixNames.after
  rw [valuesOf_cons_self h, valuesOf_cons_ne (id_ne h user_ne_primary),
    valuesOf_cons_ne (id_ne h user_ne_group), getLast?_cons_getD]

theorem after_primary {a : XacmlAttributeassignment}
    (h : a.id = some XACML_GRIDWN_ATTRIBUTE_GROUP_ID_PRIMARY) (names : PosixNames)
    (as : List XacmlAttributeassignment) :
    names.after (a :: as) = { names with groupname := a.value }.after as := by
  unfold PosixNames.after
  rw [valuesOf_cons_ne (id_ne h user_ne_primary.symm), valuesOf_cons_self h,
    valuesOf_cons_ne (id_ne h primary_ne_group), getLast?_cons_getD]

theorem after_group {a : XacmlAttributeassignment} (h : a.id = some XACML_GRIDWN_ATTRIBUTE_GROUP_ID)
    (names : PosixNames) (as : List XacmlAttributeassignment) :
    names.after (a :: as) = { names with groupnames := names.groupnames ++ [a.value] }.after as := by
  unfold PosixNames.after
  rw [valuesOf_cons_ne (id_ne h user_ne_group.symm), valuesOf_cons_ne (id_ne h primary_ne_group.symm),
    valuesOf_cons_self h, List.append_assoc]
  rfl

theorem after_other {a : XacmlAttributeassignment} (huser : a.id ≠ some XACML_GRIDWN_ATTRIBUTE_USER_ID)
    (hprimary : a.id ≠ some XACML_GRIDWN_ATTRIBUTE_GROUP_ID_PRIMARY)
    (hgroup : a.id ≠ some XACML_GRIDWN_ATTRIBUTE_GROUP_ID) (names : PosixNames)
    (as : List XacmlAttributeassignment) : names.after (a :: as) = names.after as := by
  unfold PosixNames.after
  rw [valuesOf_cons_ne huser, valuesOf_cons_ne hprimary, valuesOf_cons_ne hgroup]

theorem collectName_of_id {a : XacmlAttributeassignment} {id : CString} (h : a.id = some id)
    (posix : Posix) (names : PosixNames) : collectName posix names a =
      if id = XACML_GRIDWN_ATTRIBUTE_USER_ID then .ok { names with username := a.value }
      else if id = XACML_GRIDWN_ATTRIBUTE_GROUP_ID_PRIMARY then
        .ok { names with groupname := a.value }
      else if id = XACML_GRIDWN_ATTRIBUTE_GROUP_ID then
        if names.groupnames.length < posix.ngroupsMax then
          .ok { names with groupnames := names.groupnames ++ [a.value] }
        else .error .groupnames
      else .ok names := by
  unfold collectName
  rw [h]
  show (if decide _ = true then _ else (if decide _ = true then _ else
    (if decide _ = true then _ else _ : Except OhFault PosixNames))) = _
  simp only [decide_eq_true_eq]
  rfl

/-- One assignment: its id is NULL, or the array is full, or the loop goes on with the names behind
    it. -/
theorem collectName_step {posix : Posix} {names : PosixNames}
    (hfit : names.groupnames.length ≤ posix.ngroupsMax) (a : XacmlAttributeassignment) :
    (a.id = none ∧ collectName posix names a = .error .nullString) ∨
    (a.id ≠ none ∧ ∃ next : PosixNames, (∀ as, names.after (a :: as) = next.after as) ∧
      (next.groupnames.length ≤ posix.ngroupsMax ∧ collectName posix names a = .ok next ∨
       posix.ngroupsMax < next.groupnames.length ∧
        collectName posix names a = .error .groupnames)) := by
  cases hid : a.id with
  | none =>
    refine .inl ⟨rfl, ?_⟩
    unfold collectName
    rw [hid]
    rfl
  | some id =>
    refine .inr ⟨Option.some_ne_none id, ?_⟩
    rw [collectName_of_id hid]
    by_cases huser : id = XACML_GRIDWN_ATTRIBUTE_USER_ID
    · rw [if_pos huser]
      exact ⟨_, after_user (huser ▸ hid) names, .inl ⟨hfit, rfl⟩⟩
    by_cases hprimary : id = XACML_GRIDWN_ATTRIBUTE_GROUP_ID_PRIMARY
    · rw [if_neg huser, if_pos hprimary]
      exact ⟨_, after_primary (hprimary ▸ hid) names, .inl ⟨hfit, rfl⟩⟩
    by_cases hgroup : id = XACML_GRIDWN_ATTRIBUTE_GROUP_ID
    · rw [if_neg huser, if_neg hprimary, if_pos hgroup]
      refine ⟨_, after_group (hgroup ▸ hid) names, ?_⟩
      rw [List.length_append, List.length_singleton]
      by_cases hfull : names.groupnames.length < posix.ngroupsMax
      · exact .inl ⟨hfull, if_pos hfull⟩
      · exact .inr ⟨by omega, if_neg hfull⟩
    · rw [if_neg huser, if_neg hprimary, if_neg hgroup]
      have hother := after_other (a := a) (hid ▸ fun e => huser (Option.some.inj e))
        (hid ▸ fun e => hprimary (Option.some.inj e)) (hid ▸ fun e => hgroup (Option.some.inj e))
      exact ⟨names, hother names, .inl ⟨hfit, rfl⟩⟩

/-- **The loop over the assignments** ends with the names behind those it starts with, unless an id
    is NULL or there are too many groups. -/
theorem foldlM_collectName {posix : Posix} {as : List XacmlAttributeassignment}
    {names result : PosixNames} (hfit : names.groupnames.length ≤ posix.ngroupsMax) :
    as.foldlM (collectName posix) names = .ok result ↔
      (∀ a ∈ as, a.id ≠ none) ∧ (names.after as).groupnames.length ≤ posix.ngroupsMax ∧
        result = names.after as := by
  induction as generalizing names with
  | nil =>
    rw [PosixNames.after_nil]
    constructor
    · intro h
      exact ⟨fun a ha => absurd ha List.not_mem_nil, hfit, (Except.ok.inj h).symm⟩
    · intro h
      obtain ⟨-, -, rfl⟩ := h
      rfl
  | cons a as ih =>
    rw [List.foldlM_cons, List.forall_mem_cons]
    rcases collectName_step hfit a with ⟨hid, hstep⟩ | ⟨hid, next, hafter, hstep⟩
    · rw [hstep]
      exact iff_of_false (fun h => by cases h) fun h => h.1.1 hid
    · rw [hafter]
      rcases hstep with ⟨hnext, hstep⟩ | ⟨hfull, hstep⟩
      · rw [hstep]
        show as.foldlM (collectName posix) next = .ok result ↔ _
        rw [ih hnext]
        exact ⟨fun h => ⟨⟨hid, h.1⟩, h.2⟩, fun h => ⟨h.1.2, h.2⟩⟩
      · rw [hstep]
        refine iff_of_false (fun h => by cases h) fun h => ?_
        have hle : next.groupnames.length ≤ (next.after as).groupnames.length := by
          unfold PosixNames.after
          rw [List.length_append]
          omega
        exact absurd h.2.1 (by omega)

/-- What the loop collects, where it ends. -/
theorem collectNames_eq_ok {posix : Posix} {o : XacmlObligation} {names : PosixNames} :
    collectNames posix o.assignments = .ok names ↔
      (∀ a ∈ o.assignments, a.id ≠ none) ∧ (namedGroups o).length ≤ posix.ngroupsMax ∧
        names = ⟨namedUser o, namedPrimary o, namedGroups o⟩ := by
  have hstart : (⟨none, none, []⟩ : PosixNames).groupnames.length ≤ posix.ngroupsMax :=
    Nat.zero_le _
  exact foldlM_collectName hstart

/-! ## 3. The loop over the obligations -/

/-- `strncmp` takes the id for local-environment-map/posix. -/
def isPosix (o : XacmlObligation) : Bool :=
  o.id.any fun s => XACML_GRIDWN_OBLIGATION_LOCAL_ENVIRONMENT_MAP_POSIX.bytes.isPrefixOf s.bytes

/-- What is added for an obligation, where nothing faults. -/
def addedFor (posix : Posix) (o : XacmlObligation) : List XacmlObligation :=
  if isPosix o then
    posixObligations posix o.fulfillon ⟨namedUser o, namedPrimary o, namedGroups o⟩
  else []

/-- The ids are there, and the groups fit into the array. -/
structure Mappable (posix : Posix) (o : XacmlObligation) : Prop where
  id : o.id ≠ none
  assignments : ∀ a ∈ o.assignments, a.id ≠ none
  groups : (namedGroups o).length ≤ posix.ngroupsMax

theorem strncmpPrefix_posix {o : XacmlObligation} (h : o.id ≠ none) :
    strncmpPrefix XACML_GRIDWN_OBLIGATION_LOCAL_ENVIRONMENT_MAP_POSIX o.id = .ok (isPosix o) := by
  unfold isPosix
  cases hid : o.id with
  | none => exact absurd hid h
  | some s => rfl

theorem mapPosixObligation_eq {posix : Posix} {o : XacmlObligation} (h : Mappable posix o) :
    mapPosixObligation posix o = .ok (addedFor posix o) := by
  unfold mapPosixObligation addedFor
  rw [strncmpPrefix_posix h.id, collectNames_eq_ok.mpr ⟨h.assignments, h.groups, rfl⟩]
  cases isPosix o <;> rfl

/-- What is added where the run of an obligation ends. -/
theorem eq_addedFor {posix : Posix} {o : XacmlObligation} {added : List XacmlObligation}
    (h : mapPosixObligation posix o = .ok added) : added = addedFor posix o := by
  unfold mapPosixObligation at h
  unfold addedFor
  have hid : o.id ≠ none := by
    intro hid
    rw [hid] at h
    cases h
  rw [strncmpPrefix_posix hid] at h
  cases hposix : isPosix o with
  | false =>
    rw [hposix] at h
    exact (Except.ok.inj h).symm
  | true =>
    rw [hposix] at h
    change (collectNames posix o.assignments >>= fun names =>
      pure (posixObligations posix o.fulfillon names)) = _ at h
    cases hnames : collectNames posix o.assignments with
    | error e =>
      rw [hnames] at h
      cases h
    | ok names =>
      rw [hnames] at h
      obtain ⟨-, -, rfl⟩ := collectNames_eq_ok.mp hnames
      exact (Except.ok.inj h).symm

def XacmlResult.addAll (result : XacmlResult) (obligations : List XacmlObligation) : XacmlResult :=
  { result with obligations := result.obligations ++ obligations }

theorem foldl_addobligation (obligations : List XacmlObligation) (result : XacmlResult) :
    obligations.foldl xacmlResultAddobligation result = result.addAll obligations := by
  induction obligations generalizing result with
  | nil => simp [XacmlResult.addAll]
  | cons o os ih =>
    rw [List.foldl_cons, ih]
    simp [XacmlResult.addAll, xacmlResultAddobligation]

/-- A round of the loop over the obligations. -/
def addMapped (posix : Posix) (result : XacmlResult) (o : XacmlObligation) :
    Except OhFault XacmlResult := do
  let added ← mapPosixObligation posix o
  pure (added.foldl xacmlResultAddobligation result)

theorem addMapped_ok {posix : Posix} {result t : XacmlResult} {o : XacmlObligation}
    (h : addMapped posix result o = .ok t) : t = result.addAll (addedFor posix o) := by
  unfold addMapped at h
  cases hadded : mapPosixObligation posix o with
  | error e =>
    rw [hadded] at h
    cases h
  | ok added =>
    rw [hadded] at h
    rw [← eq_addedFor hadded, ← foldl_addobligation]
    exact (Except.ok.inj h).symm

theorem addMapped_grows (posix : Posix) (result : XacmlResult) (o : XacmlObligation)
    (t : XacmlResult) (h : addMapped posix result o = .ok t) :
    result.obligations <+: t.obligations := by
  rw [addMapped_ok h]
  exact List.prefix_append _ _

/-- The loop of the code looks each obligation up by its index in the list it appends to. An index
    that is not there is a NULL id. -/
theorem mapPosixResult_eq_walk (posix : Posix) (result : XacmlResult) :
    mapPosixResult posix result = if result.decision = .permit then
      walk (fun result j => match result.obligations[j]? with
        | some o => addMapped posix result o
        | none => .error .nullString) 0 result.obligations.length result
    else .ok result := by
  rw [walk_eq_foldlM XacmlResult.obligations (addMapped posix) (fun s j o hj => by rw [hj])
    (addMapped_grows posix)]
  rfl

theorem addAll_nil (result : XacmlResult) : result.addAll [] = result := by
  simp [XacmlResult.addAll]

theorem addAll_addAll (result : XacmlResult) (bs cs : List XacmlObligation) :
    (result.addAll bs).addAll cs = result.addAll (bs ++ cs) := by
  simp [XacmlResult.addAll]

/-- The result of a run that ends: a Permit has got what is added for each obligation. -/
def mappedResult (posix : Posix) (result : XacmlResult) : XacmlResult :=
  if result.decision = .permit then
    result.addAll (result.obligations.flatMap (addedFor posix))
  else result

theorem mapPosixResult_ok {posix : Posix} {result result' : XacmlResult}
    (h : mapPosixResult posix result = .ok result') : result' = mappedResult posix result := by
  unfold mapPosixResult at h
  unfold mappedResult
  by_cases hpermit : result.decision = .permit
  · rw [if_pos hpermit] at h
    rw [if_pos hpermit]
    have hstep : ∀ s o t, addMapped posix s o = .ok t → t = s.addAll (addedFor posix o) :=
      fun _ _ _ => addMapped_ok
    exact eq_append_of_foldlM addAll_nil addAll_addAll hstep h
  · rw [if_neg hpermit] at h
    rw [if_neg hpermit]
    exact (Except.ok.inj h).symm

theorem mapPosixResult_eq {posix : Posix} {result : XacmlResult}
    (h : ∀ o ∈ result.obligations, Mappable posix o) :
    mapPosixResult posix result = .ok (mappedResult posix result) := by
  unfold mapPosixResult mappedResult
  by_cases hpermit : result.decision = .permit
  · rw [if_pos hpermit, if_pos hpermit]
    refine foldlM_appends addAll_nil addAll_addAll (fun o ho s => ?_) result
    rw [mapPosixObligation_eq (h o ho), ← foldl_addobligation]
    rfl
  · rw [if_neg hpermit, if_neg hpermit]

theorem gridwn2authzinteropOhProcess_eq {posix : Posix} {response : XacmlResponse}
    (h : ∀ result ∈ response.results, ∀ o ∈ result.obligations, Mappable posix o) :
    gridwn2authzinteropOhProcess posix response =
      .ok { response with results := response.results.map (mappedResult posix) } := by
  unfold gridwn2authzinteropOhProcess
  rw [mapM_eq_map fun result hr => mapPosixResult_eq (h result hr)]
  rfl

/-! ## 4. The mapping -/

/-- The text is the number in decimal. -/
def IsDecimal (text : CString) (n : UInt32) : Prop :=
  text.bytes = (Nat.toDigits 10 n.toNat).map Char.byte

/-- A username obligation exactly when the last user-id assignment has a value. -/
def UsernamePart (o : XacmlObligation) (added : List XacmlObligation) : Prop :=
  match namedUser o with
  | none => added = []
  | some username => added = [⟨some XACML_AUTHZINTEROP_OBLIGATION_USERNAME, o.fulfillon,
      [⟨some XACML_AUTHZINTEROP_OBLIGATION_ATTR_USERNAME, some XACML_DATATYPE_STRING,
        some username⟩]⟩]

/-- A uidgid obligation, with the uid of the user, exactly when the user resolves. -/
def UidgidPart (posix : Posix) (o : XacmlObligation) (added : List XacmlObligation) : Prop :=
  match (namedUser o).bind posix.getpwnam with
  | none => added = []
  | some (uid, _) => ∃ gid uidText gidText, IsDecimal uidText uid ∧ IsDecimal gidText gid ∧
      added = [⟨some XACML_AUTHZINTEROP_OBLIGATION_UIDGID, o.fulfillon,
        [⟨some XACML_AUTHZINTEROP_OBLIGATION_ATTR_POSIX_UID, some XACML_DATATYPE_INTEGER,
          some uidText⟩,
         ⟨some XACML_AUTHZINTEROP_OBLIGATION_ATTR_POSIX_GID, some XACML_DATATYPE_INTEGER,
          some gidText⟩]⟩]

/-- A secondary-gids obligation, with the gids in the order of the assignments, exactly when there
    is a group-id assignment and each resolves. -/
def SecondaryGidsPart (posix : Posix) (o : XacmlObligation) (added : List XacmlObligation) : Prop :=
  (∃ gids texts, namedGroups o ≠ [] ∧
    (namedGroups o).map (·.bind posix.getgrnam) = gids.map some ∧
    List.Forall₂ IsDecimal texts gids ∧
    added = [⟨some XACML_AUTHZINTEROP_OBLIGATION_SECONDARY_GIDS, o.fulfillon,
      texts.map fun text => ⟨some XACML_AUTHZINTEROP_OBLIGATION_ATTR_POSIX_GID,
        some XACML_DATATYPE_INTEGER, some text⟩⟩]) ∨
  ((namedGroups o = [] ∨ ∃ group ∈ namedGroups o, group.bind posix.getgrnam = none) ∧ added = [])

/-- What is added for a local-environment-map/posix obligation. -/
def PosixMapped (posix : Posix) (o : XacmlObligation) (added : List XacmlObligation) : Prop :=
  ∃ username uidgid gids, added = username ++ uidgid ++ gids ∧ UsernamePart o username ∧
    UidgidPart posix o uidgid ∧ SecondaryGidsPart posix o gids

/-- A result that is not a Permit stays; a Permit keeps its obligations, and behind them stands
    what its local-environment-map/posix obligations are mapped to, in their order. -/
structure ResultMapped (posix : Posix) (result result' : XacmlResult) : Prop where
  unchanged : result.decision ≠ .permit → result' = result
  kept : result'.resourceid = result.resourceid ∧ result'.decision = result.decision ∧
    result'.status = result.status
  mapped : result.decision = .permit → ∃ blocks,
    result'.obligations = result.obligations ++ blocks.flatten ∧
      List.Forall₂ (PosixMapped posix) (result.obligations.filter isPosix) blocks

theorem decimal_isDecimal (n : UInt32) : IsDecimal (decimal n) n := by
  refine CString.ofArray_bytes fun h => ?_
  obtain ⟨c, hc, hzero⟩ := List.mem_map.mp h
  have hdigit : c.isDigit = true := Nat.isDigit_of_mem_toDigits (by decide) (by decide) hc
  simp only [Char.isDigit, Bool.and_eq_true, decide_eq_true_eq, ge_iff_le,
    UInt32.le_iff_toNat_le] at hdigit
  have hbyte : c.toNat % 2 ^ 8 = 0 := congrArg UInt8.toNat hzero
  have hlow : 48 ≤ c.toNat := hdigit.1
  have hhigh : c.toNat ≤ 57 := hdigit.2
  omega

theorem decimals_forall₂ (gids : List UInt32) : List.Forall₂ IsDecimal (gids.map decimal) gids := by
  rw [List.forall₂_map_left_iff, List.forall₂_same]
  exact fun gid _ => decimal_isDecimal gid

theorem obligationWith_eq (id : CString) (fulfillon : XacmlFulfillon)
    (assignments : List XacmlAttributeassignment) :
    obligationWith id fulfillon assignments = ⟨some id, fulfillon, assignments⟩ := by
  suffices h : ∀ (as : List XacmlAttributeassignment) (o : XacmlObligation),
      as.foldl xacmlObligationAddattributeassignment o =
        { o with assignments := o.assignments ++ as } from h assignments _
  intro as
  induction as with
  | nil => exact fun o => by simp
  | cons a as ih => exact fun o => by simp [ih, xacmlObligationAddattributeassignment]

theorem createSecondarygidsObligation_eq (fulfillon : XacmlFulfillon) (gids : List UInt32) :
    createSecondarygidsObligation fulfillon gids =
      ⟨some XACML_AUTHZINTEROP_OBLIGATION_SECONDARY_GIDS, fulfillon,
        gids.map fun gid => ⟨some XACML_AUTHZINTEROP_OBLIGATION_ATTR_POSIX_GID,
          some XACML_DATATYPE_INTEGER, some (decimal gid)⟩⟩ :=
  obligationWith_eq _ _ _

/-- The gid of a uidgid obligation: the default group of the user where no group resolves. -/
def mappedGid (posix : Posix) (o : XacmlObligation) (userGid : UInt32) : UInt32 :=
  (resolveGroupGid posix (namedPrimary o)).getD userGid

/-- The three parts of what is added. -/
theorem addedFor_eq (posix : Posix) {o : XacmlObligation} (h : isPosix o = true) :
    addedFor posix o =
      (namedUser o).toList.map (createUsernameObligation o.fulfillon)
      ++ ((namedUser o).bind posix.getpwnam).toList.map
          (fun ids => createUidgidObligation o.fulfillon ids.1 (mappedGid posix o ids.2))
      ++ (if namedGroups o = [] then [] else
          ((namedGroups o).mapM (resolveGroupGid posix)).toList.map
            (createSecondarygidsObligation o.fulfillon)) := by
  unfold addedFor
  rw [if_pos h]
  unfold posixObligations
  congr 1
  · congr 1
    · cases namedUser o <;> rfl
    · unfold resolveUserUidgid
      cases namedUser o with
      | none => rfl
      | some username =>
        dsimp only [Option.bind_some]
        cases posix.getpwnam username <;> rfl
  · cases namedGroups o with
    | nil => rfl
    | cons group groups =>
      rw [if_neg (List.cons_ne_nil _ _)]
      dsimp only
      cases (group :: groups).mapM (resolveGroupGid posix) <;> rfl

theorem reads_of_all {α β : Type} {read : α → Option β} {xs : List α}
    (h : ∀ x ∈ xs, ∃ b, read x = some b) : ∃ bs : List β, xs.map read = bs.map some := by
  induction xs with
  | nil => exact ⟨[], rfl⟩
  | cons x xs ih =>
    obtain ⟨b, hb⟩ := h x List.mem_cons_self
    obtain ⟨bs, hbs⟩ := ih fun y hy => h y (List.mem_cons_of_mem _ hy)
    exact ⟨b :: bs, by rw [List.map_cons, List.map_cons, hb, hbs]⟩

theorem secondaryGids_part (posix : Posix) (o : XacmlObligation) :
    SecondaryGidsPart posix o (if namedGroups o = [] then [] else
      ((namedGroups o).mapM (resolveGroupGid posix)).toList.map
        (createSecondarygidsObligation o.fulfillon)) := by
  by_cases hnil : namedGroups o = []
  · rw [if_pos hnil]
    exact .inr ⟨.inl hnil, rfl⟩
  · rw [if_neg hnil]
    cases hgids : (namedGroups o).mapM (resolveGroupGid posix) with
    | some gids =>
      refine .inl ⟨gids, gids.map decimal, hnil, mapM_eq_some_iff.mp hgids, decimals_forall₂ gids, ?_⟩
      show [createSecondarygidsObligation o.fulfillon gids] = _
      rw [createSecondarygidsObligation_eq, List.map_map]
      rfl
    | none =>
      refine .inr ⟨.inr ?_, rfl⟩
      by_contra hall
      have hsome : ∀ group ∈ namedGroups o, ∃ gid, resolveGroupGid posix group = some gid := by
        intro group hg
        exact Option.ne_none_iff_exists'.mp fun hnone => hall ⟨group, hg, hnone⟩
      obtain ⟨gids, hread⟩ := reads_of_all hsome
      rw [mapM_eq_some_iff.mpr hread] at hgids
      cases hgids

theorem addedFor_mapped (posix : Posix) {o : XacmlObligation} (h : isPosix o = true) :
    PosixMapped posix o (addedFor posix o) := by
  rw [addedFor_eq posix h]
  refine ⟨_, _, _, rfl, ?_, ?_, secondaryGids_part posix o⟩
  · unfold UsernamePart
    cases namedUser o <;> rfl
  · unfold UidgidPart
    cases (namedUser o).bind posix.getpwnam with
    | none => rfl
    | some ids =>
      exact ⟨mappedGid posix o ids.2, decimal ids.1, _, decimal_isDecimal _, decimal_isDecimal _, rfl⟩

/-- The blocks of the obligations that are mapped. -/
theorem flatMap_addedFor (posix : Posix) (os : List XacmlObligation) :
    os.flatMap (addedFor posix) = ((os.filter isPosix).map (addedFor posix)).flatten := by
  induction os with
  | nil => rfl
  | cons o os ih =>
    rw [List.flatMap_cons, ih]
    cases h : isPosix o with
    | true => rw [List.filter_cons_of_pos h, List.map_cons, List.flatten_cons]
    | false =>
      rw [List.filter_cons_of_neg (by rw [h]; exact Bool.false_ne_true)]
      have hnothing : addedFor posix o = [] := by
        unfold addedFor
        rw [h]
        rfl
      rw [hnothing, List.nil_append]

theorem mappedResult_mapped (posix : Posix) (result : XacmlResult) :
    ResultMapped posix result (mappedResult posix result) := by
  unfold mappedResult
  by_cases hpermit : result.decision = .permit
  · rw [if_pos hpermit]
    refine ⟨fun h => absurd hpermit h, ⟨rfl, rfl, rfl⟩, fun _ => ?_⟩
    refine ⟨_, congrArg (result.obligations ++ ·) (flatMap_addedFor posix _), ?_⟩
    rw [List.forall₂_map_right_iff, List.forall₂_same]
    exact fun o ho => addedFor_mapped posix (List.mem_filter.mp ho).2
  · rw [if_neg hpermit]
    exact ⟨fun _ => rfl, ⟨rfl, rfl, rfl⟩, fun h => absurd h hpermit⟩

/-- **The handler computes its mapping**: it returns, the request stays, and each result is
    mapped. -/
theorem ohProcess_mapping (posix : Posix) (response : XacmlResponse)
    (h : ∀ result ∈ response.results, ∀ o ∈ result.obligations, Mappable posix o) :
    ∃ response', gridwn2authzinteropOhProcess posix response = .ok response' ∧
      response'.request = response.request ∧
      List.Forall₂ (ResultMapped posix) response.results response'.results := by
  refine ⟨_, gridwn2authzinteropOhProcess_eq h, rfl, ?_⟩
  rw [List.forall₂_map_right_iff, List.forall₂_same]
  exact fun result _ => mappedResult_mapped posix result

/-- One user, `user`, and no group. -/
def oneUser : Posix where
  ngroupsMax := 128
  getpwnam name := if name = CString.lit "user" then some (500, 501) else none
  getgrnam _ := none

/-- A Permit with an obligation that names `user` and the primary group `group`. -/
def responseMapping : XacmlResponse where
  request := none
  results := [⟨none, .permit, none,
    [⟨some XACML_GRIDWN_OBLIGATION_LOCAL_ENVIRONMENT_MAP_POSIX, .permit,
      [⟨some XACML_GRIDWN_ATTRIBUTE_USER_ID, none, some (CString.lit "user")⟩,
       ⟨some XACML_GRIDWN_ATTRIBUTE_GROUP_ID_PRIMARY, none, some (CString.lit "group")⟩]⟩]⟩]

theorem responseMapping_mappable : ∀ result ∈ responseMapping.results, ∀ o ∈ result.obligations,
    Mappable oneUser o := by
  intro result hr o ho
  obtain rfl := List.mem_singleton.mp hr
  obtain rfl := List.mem_singleton.mp ho
  refine ⟨Option.some_ne_none _, fun a ha => ?_, by decide⟩
  rcases List.mem_cons.mp ha with rfl | ha
  · exact Option.some_ne_none _
  · rw [List.mem_singleton.mp ha]
    exact Option.some_ne_none _

theorem ohProcess_mapping_oneUser :
    ∃ response', gridwn2authzinteropOhProcess oneUser responseMapping = .ok response' ∧
      List.Forall₂ (ResultMapped oneUser) responseMapping.results response'.results := by
  obtain ⟨response', hrun, -, hmapped⟩ := ohProcess_mapping oneUser responseMapping
    responseMapping_mappable
  exact ⟨response', hrun, hmapped⟩

/-! ## 5. The gid of a uidgid obligation -/

/-- The gid of every uidgid obligation added is the one the primary group named resolves to. -/
def GidNamed (posix : Posix) (o : XacmlObligation) (added : List XacmlObligation) : Prop :=
  ∀ group, namedPrimary o = some group →
    ∀ uidgid ∈ added, uidgid.id = some XACML_AUTHZINTEROP_OBLIGATION_UIDGID →
      ∃ gid text, posix.getgrnam group = some gid ∧ IsDecimal text gid ∧
        valuesOf XACML_AUTHZINTEROP_OBLIGATION_ATTR_POSIX_GID uidgid.assignments = [some text]

/-- What stands behind the obligations of a Permit are the blocks added for them, with the gid
    named. -/
def GidsNamed (posix : Posix) (result result' : XacmlResult) : Prop :=
  result.decision = .permit → ∃ blocks,
    result'.obligations = result.obligations ++ blocks.flatten ∧
      List.Forall₂ (fun o block => mapPosixObligation posix o = .ok block ∧
        (isPosix o = true → GidNamed posix o block)) result.obligations blocks

/-- Beside a user that resolves, the primary group named resolves too. -/
def PrimaryResolves (posix : Posix) (o : XacmlObligation) : Prop :=
  ((namedUser o).bind posix.getpwnam).isSome → ∀ group, namedPrimary o = some group →
    (posix.getgrnam group).isSome

theorem addedFor_gidNamed_iff (posix : Posix) {o : XacmlObligation} (h : isPosix o = true) :
    GidNamed posix o (addedFor posix o) ↔ PrimaryResolves posix o := by
  rw [addedFor_eq posix h]
  constructor
  · intro hnamed huser group hgroup
    obtain ⟨ids, hids⟩ := Option.isSome_iff_exists.mp huser
    rw [hids] at hnamed
    obtain ⟨gid, text, hgid, -, -⟩ := hnamed group hgroup
      (createUidgidObligation o.fulfillon ids.1 (mappedGid posix o ids.2))
      (List.mem_append_left _ (List.mem_append_right _ (List.mem_singleton_self _))) rfl
    rw [hgid]
    rfl
  · intro hresolves group hgroup uidgid hmem hid
    rcases List.mem_append.mp hmem with hmem | hmem
    · rcases List.mem_append.mp hmem with hmem | hmem
      · obtain ⟨username, -, rfl⟩ := List.mem_map.mp hmem
        exact absurd (Option.some.inj hid) (by decide)
      · obtain ⟨ids, hids, rfl⟩ := List.mem_map.mp hmem
        have huser := Option.mem_toList.mp hids
        obtain ⟨gid, hgid⟩ := Option.isSome_iff_exists.mp
          (hresolves (by rw [huser]; rfl) group hgroup)
        refine ⟨gid, decimal gid, hgid, decimal_isDecimal gid, ?_⟩
        have hmapped : mappedGid posix o ids.2 = gid := by
          unfold mappedGid resolveGroupGid
          rw [hgroup, Option.bind_some, hgid]
          rfl
        rw [hmapped]
        rfl
    · split at hmem
      · exact absurd hmem List.not_mem_nil
      · obtain ⟨gids, -, rfl⟩ := List.mem_map.mp hmem
        rw [createSecondarygidsObligation_eq] at hid
        exact absurd (Option.some.inj hid) (by decide)

theorem mapPosixObligation_ok {posix : Posix} {result result' : XacmlResult}
    (h : mapPosixResult posix result = .ok result') (hpermit : result.decision = .permit) :
    ∀ o ∈ result.obligations, mapPosixObligation posix o = .ok (addedFor posix o) := by
  unfold mapPosixResult at h
  rw [if_pos hpermit] at h
  intro o ho
  obtain ⟨u, v, hround⟩ := step_of_foldlM h o ho
  cases hadded : mapPosixObligation posix o with
  | error e =>
    rw [hadded] at hround
    cases hround
  | ok added => rw [eq_addedFor hadded]

theorem gidsNamed_iff {posix : Posix} {result result' : XacmlResult}
    (h : mapPosixResult posix result = .ok result') :
    GidsNamed posix result result' ↔ (result.decision = .permit →
      ∀ o ∈ result.obligations, isPosix o = true → PrimaryResolves posix o) := by
  refine forall_congr' fun hpermit => ?_
  have hok := mapPosixObligation_ok h hpermit
  have hblocks : List.Forall₂ (fun o block => mapPosixObligation posix o = .ok block)
      result.obligations (result.obligations.map (addedFor posix)) := by
    rw [List.forall₂_map_right_iff, List.forall₂_same]
    exact hok
  have hnamed : ∀ o block, mapPosixObligation posix o = .ok block →
      ((mapPosixObligation posix o = .ok block ∧ (isPosix o = true → GidNamed posix o block)) ↔
        (isPosix o = true → PrimaryResolves posix o)) := by
    intro o block hblock
    rw [and_iff_right hblock, eq_addedFor hblock]
    exact forall_congr' fun hposix => addedFor_gidNamed_iff posix hposix
  constructor
  · intro h
    obtain ⟨blocks, -, hall⟩ := h
    have hrun := hall.imp fun _ _ h => h.1
    exact (forall₂_iff_forall hnamed hrun).mp hall
  · intro hall
    refine ⟨_, ?_, (forall₂_iff_forall hnamed hblocks).mpr hall⟩
    rw [mapPosixResult_ok h, mappedResult, if_pos hpermit, ← List.flatMap_def]
    rfl

/-- **In a run that returns, the gids are the ones named exactly when every primary group named
    beside a user that resolves does resolve.** -/
theorem ohProcess_gid_named_iff (posix : Posix) (response response' : XacmlResponse)
    (hrun : gridwn2authzinteropOhProcess posix response = .ok response') :
    List.Forall₂ (GidsNamed posix) response.results response'.results ↔
      ∀ result ∈ response.results, result.decision = .permit →
        ∀ o ∈ result.obligations, isPosix o = true → PrimaryResolves posix o := by
  unfold gridwn2authzinteropOhProcess at hrun
  cases hresults : response.results.mapM (mapPosixResult posix) with
  | error e =>
    rw [hresults] at hrun
    cases hrun
  | ok results =>
    rw [hresults] at hrun
    obtain rfl := Except.ok.inj hrun
    have hiff : ∀ result result', mapPosixResult posix result = .ok result' →
        (GidsNamed posix result result' ↔ (result.decision = .permit →
          ∀ o ∈ result.obligations, isPosix o = true → PrimaryResolves posix o)) :=
      fun _ _ => gidsNamed_iff
    exact forall₂_iff_forall hiff (forall₂_of_mapM hresults)

/-- One user, `user`, and one group, `group`. -/
def oneGroup : Posix :=
  { oneUser with getgrnam := fun name => if name = CString.lit "group" then some 502 else none }

theorem mappable_oneGroup : ∀ result ∈ responseMapping.results, ∀ o ∈ result.obligations,
    Mappable oneGroup o := fun result hr o ho =>
  have h := responseMapping_mappable result hr o ho
  ⟨h.id, h.assignments, h.groups⟩

theorem ohProcess_gid_named_oneGroup :
    ∃ response', gridwn2authzinteropOhProcess oneGroup responseMapping = .ok response' ∧
      List.Forall₂ (GidsNamed oneGroup) responseMapping.results response'.results := by
  have hrun := gridwn2authzinteropOhProcess_eq mappable_oneGroup
  refine ⟨_, hrun, (ohProcess_gid_named_iff oneGroup responseMapping _ hrun).mpr ?_⟩
  intro result hr _ o ho _ _ group hgroup
  obtain rfl := List.mem_singleton.mp hr
  obtain rfl := List.mem_singleton.mp ho
  obtain rfl := Option.some.inj hgroup
  decide

/-- The group does not resolve: the uidgid obligation has the default group of the user. -/
theorem ohProcess_gid_default :
    ∃ response', gridwn2authzinteropOhProcess oneUser responseMapping = .ok response' ∧
      response'.results.map (fun result => result.obligations.drop 2) =
        [[createUidgidObligation .permit 500 501]] ∧
      ¬List.Forall₂ (GidsNamed oneUser) responseMapping.results response'.results := by
  have hrun := gridwn2authzinteropOhProcess_eq responseMapping_mappable
  refine ⟨_, hrun, rfl, fun hnamed => ?_⟩
  obtain ⟨blocks, -, hblocks⟩ := (List.forall₂_cons.mp hnamed).1 rfl
  cases hblocks with
  | cons hblock _ =>
    have hresolves := (addedFor_gidNamed_iff oneUser rfl).mp
      (eq_addedFor hblock.1 ▸ hblock.2 rfl)
    exact absurd (hresolves (by decide) _ rfl) (by decide)

end ArgusPep
