/-
  File:      ArgusPep/Argus/GroupNames.lean
  Subject:   The array `gridwn2authzinterop_oh_process` stores group names in, which has NGROUPS_MAX
             slots.

  The counter `n_groupnames` goes up with every group-id assignment and is compared with nothing.
  The loops come to the obligations of the Permit results one after the other, and stop at the
  first id that is NULL.

  * `groupsComeTo` -- the group names stored for an obligation, before the first NULL id;
  * `comesTo` -- the obligations the loops come to;
  * `mapPosixObligation_groupnames` -- an obligation leaves the array exactly when it has more
    group names than slots;
  * **`ohProcess_groupnames_iff`** -- when a whole run stays in its arrays.
-/
import ArgusPep.Argus.PosixMapping
import ArgusPep.Hessian.TreeCodec

namespace ArgusPep

open Lib Run

/-! ## 1. What is stored -/

/-- The assignments before the first one without an id. -/
def withIds (as : List XacmlAttributeassignment) : List XacmlAttributeassignment :=
  as.takeWhile fun a => a.id.isSome

/-- The group names stored for an obligation. -/
def groupsComeTo (o : XacmlObligation) : List (Option CString) :=
  valuesOf XACML_GRIDWN_ATTRIBUTE_GROUP_ID (withIds o.assignments)

/-- The group names stored for an obligation fit into the array. -/
def GroupsFit (posix : Posix) (o : XacmlObligation) : Prop :=
  isPosix o = true → (groupsComeTo o).length ≤ posix.ngroupsMax

/-- The handler goes through the obligation without meeting a NULL id. -/
def HasIds (o : XacmlObligation) : Prop :=
  o.id ≠ none ∧ (isPosix o = true → ∀ a ∈ o.assignments, a.id ≠ none)

instance (o : XacmlObligation) : Decidable (HasIds o) := by
  unfold HasIds
  infer_instance

instance (posix : Posix) (o : XacmlObligation) : Decidable (GroupsFit posix o) := by
  unfold GroupsFit
  infer_instance

/-- The obligations of the results that permit, in order. -/
def permittedObligations (response : XacmlResponse) : List XacmlObligation :=
  response.results.flatMap fun result =>
    if result.decision = .permit then result.obligations else []

/-- Of these obligations, the ones the handler comes to: a NULL id is its last stop. -/
def comesTo : List XacmlObligation → List XacmlObligation
  | [] => []
  | o :: os => if HasIds o then o :: comesTo os else [o]

theorem withIds_cons_none {a : XacmlAttributeassignment} (h : a.id = none)
    (as : List XacmlAttributeassignment) : withIds (a :: as) = [] := by
  refine List.takeWhile_cons_of_neg ?_
  rw [h]
  exact Bool.false_ne_true

theorem withIds_cons_some {a : XacmlAttributeassignment} (h : a.id ≠ none)
    (as : List XacmlAttributeassignment) : withIds (a :: as) = a :: withIds as :=
  List.takeWhile_cons_of_pos (Option.isSome_iff_ne_none.mpr h)

theorem withIds_eq_self {as : List XacmlAttributeassignment} (h : ∀ a ∈ as, a.id ≠ none) :
    withIds as = as :=
  List.takeWhile_eq_self_iff.mpr fun a ha => Option.isSome_iff_ne_none.mpr (h a ha)

theorem head_mem_comesTo (o : XacmlObligation) (os : List XacmlObligation) :
    o ∈ comesTo (o :: os) := by
  unfold comesTo
  split <;> exact List.mem_cons_self

/-! ## 2. One obligation -/

/-- **The loop over the assignments leaves the array** exactly when the names before the first NULL
    id are too many. -/
theorem foldlM_collectName_groupnames {posix : Posix} {as : List XacmlAttributeassignment}
    {names : PosixNames} (hfit : names.groupnames.length ≤ posix.ngroupsMax) :
    as.foldlM (collectName posix) names = .error .groupnames ↔
      posix.ngroupsMax < (names.after (withIds as)).groupnames.length := by
  induction as generalizing names with
  | nil =>
    rw [show withIds [] = [] from rfl, PosixNames.after_nil]
    exact iff_of_false nofun (Nat.not_lt.mpr hfit)
  | cons a as ih =>
    rw [List.foldlM_cons]
    rcases collectName_step hfit a with ⟨hid, hstep⟩ | ⟨hid, next, hafter, hstep⟩
    · rw [hstep, withIds_cons_none hid, PosixNames.after_nil]
      exact iff_of_false nofun (Nat.not_lt.mpr hfit)
    · rw [withIds_cons_some hid, hafter]
      rcases hstep with ⟨hnext, hstep⟩ | ⟨hfull, hstep⟩
      · rw [hstep]
        exact ih hnext
      · rw [hstep]
        refine iff_of_true rfl (Nat.lt_of_lt_of_le hfull ?_)
        unfold PosixNames.after
        rw [List.length_append]
        exact Nat.le_add_right _ _

theorem collectNames_groupnames (posix : Posix) (o : XacmlObligation) :
    collectNames posix o.assignments = .error .groupnames ↔
      posix.ngroupsMax < (groupsComeTo o).length := by
  unfold collectNames
  rw [foldlM_collectName_groupnames (Nat.zero_le _)]
  exact Iff.rfl

/-- The run of an obligation that has an id. -/
theorem errorOf_mapPosixObligation {posix : Posix} {o : XacmlObligation} (hid : o.id ≠ none) :
    errorOf (mapPosixObligation posix o) =
      if isPosix o then errorOf (collectNames posix o.assignments) else none := by
  unfold mapPosixObligation
  rw [strncmpPrefix_posix hid]
  cases isPosix o with
  | false => rfl
  | true =>
    show errorOf (collectNames posix o.assignments >>= fun names =>
      pure (posixObligations posix o.fulfillon names)) = errorOf (collectNames posix o.assignments)
    cases collectNames posix o.assignments <;> rfl

theorem mapPosixObligation_none {posix : Posix} {o : XacmlObligation} (hid : o.id = none) :
    mapPosixObligation posix o = .error .nullString := by
  unfold mapPosixObligation
  rw [hid]
  rfl

theorem isPosix_id {o : XacmlObligation} (h : isPosix o = true) : o.id ≠ none := by
  intro hid
  unfold isPosix at h
  rw [hid] at h
  cases h

theorem mapPosixObligation_groupnames (posix : Posix) (o : XacmlObligation) :
    mapPosixObligation posix o = .error .groupnames ↔ ¬GroupsFit posix o := by
  unfold GroupsFit
  cases hposix : isPosix o with
  | false =>
    refine iff_of_false (fun h => ?_) (not_not_intro nofun)
    cases hid : o.id with
    | none =>
      rw [mapPosixObligation_none hid] at h
      cases h
    | some id =>
      have hne : o.id ≠ none := hid ▸ Option.some_ne_none id
      rw [← errorOf_eq_some, errorOf_mapPosixObligation hne, hposix] at h
      cases h
  | true =>
    rw [← errorOf_eq_some, errorOf_mapPosixObligation (isPosix_id hposix), hposix, if_pos rfl,
      errorOf_eq_some, collectNames_groupnames, Classical.not_imp, Nat.not_le]
    exact ⟨fun h => ⟨rfl, h⟩, And.right⟩

/-- An obligation that is gone through has its ids. -/
theorem hasIds_of_ok {posix : Posix} {o : XacmlObligation} {added : List XacmlObligation}
    (h : mapPosixObligation posix o = .ok added) : HasIds o := by
  have hid : o.id ≠ none := by
    intro hid
    rw [mapPosixObligation_none hid] at h
    cases h
  refine ⟨hid, fun hposix => ?_⟩
  have hnames : errorOf (mapPosixObligation posix o) = _ := errorOf_mapPosixObligation hid
  rw [h, hposix, if_pos rfl] at hnames
  cases hrun : collectNames posix o.assignments with
  | error e =>
    rw [hrun] at hnames
    cases hnames
  | ok names => exact (collectNames_eq_ok.mp hrun).1

/-- An obligation that stops the handler with a NULL id lacks one. -/
theorem not_hasIds_of_null {posix : Posix} {o : XacmlObligation}
    (h : mapPosixObligation posix o = .error .nullString) : ¬HasIds o := by
  intro hids
  rw [← errorOf_eq_some, errorOf_mapPosixObligation hids.1] at h
  cases hposix : isPosix o with
  | false =>
    rw [hposix] at h
    cases h
  | true =>
    rw [hposix, if_pos rfl, errorOf_eq_some] at h
    by_cases hfit : (namedGroups o).length ≤ posix.ngroupsMax
    · rw [collectNames_eq_ok.mpr ⟨hids.2 hposix, hfit, rfl⟩] at h
      cases h
    · have hfull : posix.ngroupsMax < (groupsComeTo o).length := by
        unfold groupsComeTo
        rw [withIds_eq_self (hids.2 hposix)]
        exact Nat.lt_of_not_le hfit
      rw [(collectNames_groupnames posix o).mpr hfull] at h
      cases h

/-! ## 3. A whole run -/

theorem errorOf_mapPosixResult (posix : Posix) (result : XacmlResult) :
    errorOf (mapPosixResult posix result) =
      (if result.decision = .permit then result.obligations else []).findSome? fun o =>
        errorOf (mapPosixObligation posix o) := by
  unfold mapPosixResult
  by_cases hpermit : result.decision = .permit
  · rw [if_pos hpermit, if_pos hpermit]
    refine errorOf_foldlM (fun s o => ?_) _ _
    cases mapPosixObligation posix o <;> rfl
  · rw [if_neg hpermit, if_neg hpermit]
    rfl

/-- A run stops where the first of the permitted obligations stops it. -/
theorem errorOf_ohProcess (posix : Posix) (response : XacmlResponse) :
    errorOf (gridwn2authzinteropOhProcess posix response) =
      (permittedObligations response).findSome? fun o => errorOf (mapPosixObligation posix o) := by
  have hresults : errorOf (gridwn2authzinteropOhProcess posix response) =
      errorOf (response.results.mapM (mapPosixResult posix)) := by
    unfold gridwn2authzinteropOhProcess
    cases response.results.mapM (mapPosixResult posix) <;> rfl
  unfold permittedObligations
  rw [hresults, errorOf_mapM, findSome?_flatMap, funext (errorOf_mapPosixResult posix)]

theorem findSome?_groupnames (posix : Posix) (os : List XacmlObligation) :
    os.findSome? (fun o => errorOf (mapPosixObligation posix o)) = some .groupnames ↔
      ¬∀ o ∈ comesTo os, GroupsFit posix o := by
  induction os with
  | nil => exact iff_of_false nofun (not_not_intro nofun)
  | cons o os ih =>
    have hgroups := mapPosixObligation_groupnames posix o
    rw [List.findSome?_cons]
    cases hrun : mapPosixObligation posix o with
    | ok added =>
      have hfit : GroupsFit posix o := not_not.mp (mt hgroups.mpr (by rw [hrun]; nofun))
      unfold comesTo
      rw [if_pos (hasIds_of_ok hrun), List.forall_mem_cons, and_iff_right hfit]
      exact ih
    | error fault =>
      cases fault with
      | nullString =>
        have hfit : GroupsFit posix o := not_not.mp (mt hgroups.mpr (by rw [hrun]; nofun))
        unfold comesTo
        rw [if_neg (not_hasIds_of_null hrun), List.forall_mem_singleton]
        exact iff_of_false nofun (not_not_intro hfit)
      | groupnames =>
        exact iff_of_true rfl fun hall => hgroups.mp hrun (hall o (head_mem_comesTo o os))

/-- **No group name is stored past the end of its array** exactly when every obligation the handler
    comes to has at most NGROUPS_MAX group names before its first NULL id. -/
theorem ohProcess_groupnames_iff (posix : Posix) (response : XacmlResponse) :
    gridwn2authzinteropOhProcess posix response ≠ .error .groupnames ↔
      ∀ o ∈ comesTo (permittedObligations response), GroupsFit posix o := by
  rw [ne_eq, ← errorOf_eq_some, errorOf_ohProcess, findSome?_groupnames, not_not]

/-! ## 4. More names than slots -/

/-- The Map of an assignment of a group id. -/
def groupAssignment : HessianObject :=
  .map (some XACML_HESSIAN_ATTRIBUTEASSIGNMENT_CLASSNAME)
    [(.string XACML_HESSIAN_ATTRIBUTEASSIGNMENT_ID, .string XACML_GRIDWN_ATTRIBUTE_GROUP_ID),
     (.string XACML_HESSIAN_ATTRIBUTEASSIGNMENT_VALUE, .string (CString.lit "group"))]

/-- The Map of a local-environment-map/posix obligation with `n` group ids. -/
def groupsObligation (n : Nat) : HessianObject :=
  .map (some XACML_HESSIAN_OBLIGATION_CLASSNAME)
    [(.string XACML_HESSIAN_OBLIGATION_ID,
      .string XACML_GRIDWN_OBLIGATION_LOCAL_ENVIRONMENT_MAP_POSIX),
     (.string XACML_HESSIAN_OBLIGATION_ASSIGNMENTS, .list none (List.replicate n groupAssignment))]

/-- A result that permits, with this obligation. -/
def groupsResult (n : Nat) : HessianObject :=
  .map (some XACML_HESSIAN_RESULT_CLASSNAME)
    [(.string XACML_HESSIAN_RESULT_DECISION, .integer 1#32),
     (.string XACML_HESSIAN_RESULT_OBLIGATIONS, .list none [groupsObligation n])]

/-- The response with this result. -/
def permitGroups (n : Nat) : HessianObject :=
  .map (some XACML_HESSIAN_RESPONSE_CLASSNAME)
    [(.string XACML_HESSIAN_RESPONSE_RESULTS, .list none [groupsResult n])]

/-- The assignment it unmarshals to. -/
def groupNamed : XacmlAttributeassignment :=
  ⟨some XACML_GRIDWN_ATTRIBUTE_GROUP_ID, none, some (CString.lit "group")⟩

/-- The response it unmarshals to. -/
def groupsResponse (n : Nat) : XacmlResponse where
  request := none
  results := [⟨none, .permit, none,
    [⟨some XACML_GRIDWN_OBLIGATION_LOCAL_ENVIRONMENT_MAP_POSIX, .deny,
      List.replicate n groupNamed⟩]⟩]

theorem foldlM_assignments (n : Nat) (o : XacmlObligation) :
    (List.replicate n groupAssignment).foldlM (objectElement xacmlAttributeassignmentUnmarshal
      xacmlObligationAddattributeassignment) o =
    some { o with assignments := o.assignments ++ List.replicate n groupNamed } := by
  induction n generalizing o with
  | zero =>
    rw [List.replicate_zero, List.replicate_zero, List.append_nil]
    rfl
  | succ n ih =>
    have hread : xacmlAttributeassignmentUnmarshal groupAssignment = some groupNamed := rfl
    rw [List.replicate_succ, List.foldlM_cons, List.replicate_succ]
    unfold objectElement
    rw [hread]
    refine (ih _).trans ?_
    rw [xacmlObligationAddattributeassignment, List.append_assoc]
    rfl

theorem groupsObligation_unmarshal (n : Nat) : xacmlObligationUnmarshal (groupsObligation n) =
    some ⟨some XACML_GRIDWN_OBLIGATION_LOCAL_ENVIRONMENT_MAP_POSIX, .deny,
      List.replicate n groupNamed⟩ := by
  change ((List.replicate n groupAssignment).foldlM (objectElement
    xacmlAttributeassignmentUnmarshal xacmlObligationAddattributeassignment)
    ⟨some XACML_GRIDWN_OBLIGATION_LOCAL_ENVIRONMENT_MAP_POSIX, .deny, []⟩ >>= some) = _
  rw [foldlM_assignments]
  rfl

theorem permitGroups_unmarshal (n : Nat) :
    xacmlResponseUnmarshal (permitGroups n) = some (groupsResponse n) := by
  have hresult : xacmlResultUnmarshal (groupsResult n) = some
      ⟨none, .permit, none, [⟨some XACML_GRIDWN_OBLIGATION_LOCAL_ENVIRONMENT_MAP_POSIX, .deny,
        List.replicate n groupNamed⟩]⟩ := by
    change (((xacmlObligationUnmarshal (groupsObligation n)).map
      (xacmlResultAddobligation ⟨none, .permit, none, []⟩) >>= some) >>= some) = _
    rw [groupsObligation_unmarshal]
    rfl
  change (((xacmlResultUnmarshal (groupsResult n)).map
    (xacmlResponseAddresult xacmlResponseCreate) >>= some) >>= some) = _
  rw [hresult]
  rfl

theorem carriedElements_replicate {o : HessianObject} (h : o.Carried) :
    ∀ n, HessianObject.CarriedElements (List.replicate n o)
  | 0 => trivial
  | n + 1 => ⟨h, carriedElements_replicate h n⟩

/-- A text of a name of the source. -/
theorem carried_string {text : CString} (h : NameText text) : (HessianObject.string text).Carried :=
  h.wireText

theorem permitGroups_carried {n : Nat} (h : n < 2 ^ 31) : (permitGroups n).Carried := by
  have hone : 1 < 2 ^ 31 := by decide
  have htwo : 2 < 2 ^ 31 := by decide
  have hassignment : groupAssignment.Carried :=
    ⟨AsciiText.shortType (by decide) (by decide), by decide, carried_string (by decide),
      carried_string (by decide), carried_string (by decide), carried_string (by decide), trivial⟩
  have hassignments : (HessianObject.list none (List.replicate n groupAssignment)).Carried :=
    ⟨nofun, by rwa [List.length_replicate], carriedElements_replicate hassignment n⟩
  have hobligation : (groupsObligation n).Carried :=
    ⟨AsciiText.shortType (by decide) (by decide), htwo, carried_string (by decide),
      carried_string (by decide), carried_string (by decide), hassignments, trivial⟩
  have hresult : (groupsResult n).Carried :=
    ⟨AsciiText.shortType (by decide) (by decide), htwo, carried_string (by decide), trivial,
      carried_string (by decide), ⟨nofun, hone, hobligation, trivial⟩, trivial⟩
  exact ⟨AsciiText.shortType (by decide) (by decide), hone, carried_string (by decide),
    ⟨nofun, hone, hresult, trivial⟩, trivial⟩

/-- The bytes of such a response are accepted. -/
theorem permitGroups_accepted {n : Nat} (h : n < 2 ^ 31) :
    xacmlResponseUnmarshalling (wire (permitGroups n)) Mem.unlimited =
      some (.ok, some (groupsResponse n)) := by
  have hcarried := permitGroups_carried h
  obtain ⟨o, s, hrun, ho, -⟩ := reads_hessianDeserialize (coded_of_carried hcarried)
    (HessianObject.refFree_of_carried hcarried) _ [] (ample_start_unlimited _) rfl
  subst ho
  rw [List.append_nil] at hrun
  unfold xacmlResponseUnmarshalling
  rw [hrun]
  dsimp only
  rw [permitGroups_unmarshal]

/-- More group names than slots leave the array. -/
theorem groupsResponse_groupnames {posix : Posix} {n : Nat} (h : posix.ngroupsMax < n) :
    gridwn2authzinteropOhProcess posix (groupsResponse n) = .error .groupnames := by
  rw [← errorOf_eq_some, errorOf_ohProcess, findSome?_groupnames]
  intro hall
  have hfit := hall _ (head_mem_comesTo _ []) rfl
  unfold groupsComeTo at hfit
  rw [withIds_eq_self fun a ha => by rw [List.eq_of_mem_replicate ha]; exact nofun] at hfit
  have hgroup : decide (groupNamed.id = some XACML_GRIDWN_ATTRIBUTE_GROUP_ID) = true :=
    decide_eq_true rfl
  unfold valuesOf at hfit
  rw [List.filter_replicate, if_pos hgroup, List.length_map, List.length_replicate] at hfit
  exact Nat.not_le.mpr h hfit

/-- 65536 slots, and 65537 group names in an accepted response. -/
theorem ohProcess_groupnames_full :
    xacmlResponseUnmarshalling (wire (permitGroups 65537)) Mem.unlimited =
      some (.ok, some (groupsResponse 65537)) ∧
    gridwn2authzinteropOhProcess ⟨65536, fun _ => none, fun _ => none⟩ (groupsResponse 65537) =
      .error .groupnames :=
  ⟨permitGroups_accepted (by decide), groupsResponse_groupnames (by decide)⟩

end ArgusPep
