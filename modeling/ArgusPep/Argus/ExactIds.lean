/-
  File:      ArgusPep/Argus/ExactIds.lean
  Subject:   The ids the two adapters of argus/profiles.c react to.

  Both compare with `strncmp` over the length of the constant, so they take every id that starts with
  it. What the documentation names is the id itself.

  * `SubjectsExact`, `ProfileIdExact`, `ObligationsExact` -- the adapter reacts to the id itself
    only;
  * `adaptedSubject_eq_self`, `ohProcess_unchanged_iff` -- when a subject, and when a response, is
    left as it is;
  * **`adapters_exactIds_iff`** -- each of the three holds exactly when no id that goes on behind the
    constant makes a difference.
-/
import ArgusPep.Argus.PipAdapter
import ArgusPep.Argus.GroupNames

namespace ArgusPep

open Lib

/-! ## 1. Reacting to the id itself -/

/-- A subject has one of the three AuthZ Interop ids. -/
def HasSubjectId (request : XacmlRequest) : Prop :=
  ∃ subject ∈ request.subjects, ∃ a ∈ subject.attributes,
    a.id = some XACML_AUTHZINTEROP_SUBJECT_CERTCHAIN ∨
    a.id = some XACML_AUTHZINTEROP_SUBJECT_VOMS_PRIMARY_FQAN ∨
    a.id = some XACML_AUTHZINTEROP_SUBJECT_VOMS_FQAN

/-- An attribute has the profile id. -/
def NamesProfile (attrs : List XacmlAttribute) : Prop :=
  ∃ a ∈ attrs, a.id = some XACML_GRIDWN_ATTRIBUTE_PROFILE_ID

/-- An obligation has the local-environment-map/posix id. -/
def HasPosixId (response : XacmlResponse) : Prop :=
  ∃ result ∈ response.results, ∃ o ∈ result.obligations,
    o.id = some XACML_GRIDWN_OBLIGATION_LOCAL_ENVIRONMENT_MAP_POSIX

/-- Where no subject has one of the ids, the subjects stay. -/
def SubjectsExact (request : XacmlRequest) : Prop :=
  ¬HasSubjectId request → ∃ request', authzinterop2gridwnPipProcess request = .ok (0, request') ∧
    request'.subjects = request.subjects

/-- After the call the environment has the profile id. -/
def ProfileIdExact (request : XacmlRequest) : Prop :=
  ∃ request' env, authzinterop2gridwnPipProcess request = .ok (0, request') ∧
    request'.environment = some env ∧ NamesProfile env.attributes

/-- Where no obligation has the id, the response stays. -/
def ObligationsExact (posix : Posix) (response : XacmlResponse) : Prop :=
  ¬HasPosixId response → gridwn2authzinteropOhProcess posix response = .ok response

/-! ## 2. Subjects and environments left as they are -/

/-- A subject is left as it is exactly when none of its ids is looked for. -/
theorem adaptedSubject_eq_self {subject : XacmlSubject} :
    adaptedSubject subject = subject ↔ ∀ a ∈ subject.attributes, looksFor a = false := by
  rw [← clones_eq_nil_iff]
  constructor
  · intro h
    exact List.append_right_eq_self.mp (congrArg XacmlSubject.attributes h)
  · intro h
    unfold adaptedSubject XacmlSubject.addAll
    rw [h, List.append_nil]

theorem subjectsExact_iff {request : XacmlRequest} (hids : IdsPresent request) :
    SubjectsExact request ↔ HasSubjectId request ∨
      ∀ subject ∈ request.subjects, ∀ a ∈ subject.attributes, looksFor a = false := by
  obtain ⟨env, -, hrun⟩ := authzinterop2gridwnPipProcess_eq hids
  have hsame : (∃ request', authzinterop2gridwnPipProcess request = .ok (0, request') ∧
      request'.subjects = request.subjects) ↔ request.subjects.map adaptedSubject =
        request.subjects := by
    rw [hrun]
    constructor
    · intro h
      obtain ⟨request', hrequest, hsubjects⟩ := h
      obtain rfl := congrArg Prod.snd (Except.ok.inj hrequest)
      exact hsubjects
    · exact fun h => ⟨_, rfl, h⟩
  have hstay : request.subjects.map adaptedSubject = request.subjects ↔
      ∀ subject ∈ request.subjects, ∀ a ∈ subject.attributes, looksFor a = false := by
    conv_lhs => rhs; rw [← List.map_id request.subjects]
    rw [List.map_inj_left]
    exact forall₂_congr fun subject _ => adaptedSubject_eq_self
  unfold SubjectsExact
  rw [hsame, hstay, or_iff_not_imp_left]

/-- After the call the profile id is there if it was there before, or if no id starts with it. -/
theorem adaptEnvironment_names {env env' : XacmlEnvironment}
    (hids : ∀ a ∈ env.attributes, a.id ≠ none) (h : adaptEnvironment env = .ok env') :
    NamesProfile env'.attributes ↔ NamesProfile env.attributes ∨
      ∀ a ∈ env.attributes, idStarts XACML_GRIDWN_ATTRIBUTE_PROFILE_ID a = false := by
  rcases adaptEnvironment_eq hids with ⟨hhas, heq⟩ | ⟨hnot, heq⟩
  · obtain rfl := Except.ok.inj (heq.symm.trans h)
    obtain ⟨a, ha, hstarts⟩ := List.any_eq_true.mp hhas
    refine (or_iff_left fun hnone => ?_).symm
    rw [hnone a ha] at hstarts
    cases hstarts
  · obtain rfl := Except.ok.inj (heq.symm.trans h)
    refine iff_of_true ⟨profileIdAttribute, ?_, rfl⟩ (.inr fun a ha => ?_)
    · exact List.mem_append_right _ (List.mem_singleton_self _)
    · by_contra hstarts
      exact hnot (List.any_eq_true.mpr ⟨a, ha, Bool.not_eq_false _ ▸ hstarts⟩)

theorem profileIdExact_iff {request : XacmlRequest} (hids : IdsPresent request) :
    ProfileIdExact request ↔
      NamesProfile (request.environment.getD xacmlEnvironmentCreate).attributes ∨
      ∀ a ∈ (request.environment.getD xacmlEnvironmentCreate).attributes,
        idStarts XACML_GRIDWN_ATTRIBUTE_PROFILE_ID a = false := by
  obtain ⟨env', hadapt, hrun⟩ := authzinterop2gridwnPipProcess_eq hids
  have hresult : ProfileIdExact request ↔ NamesProfile env'.attributes := by
    unfold ProfileIdExact
    rw [hrun]
    constructor
    · intro h
      obtain ⟨request', env, hrequest, henv, hnames⟩ := h
      obtain rfl := congrArg Prod.snd (Except.ok.inj hrequest)
      obtain rfl := Option.some.inj henv
      exact hnames
    · exact fun h => ⟨_, env', rfl, rfl, h⟩
  rw [hresult, adaptEnvironment_names (environment_ids hids) hadapt]

/-! ## 3. Responses left as they are -/

/-- The obligations and their assignments have ids. -/
def ObligationIds (response : XacmlResponse) : Prop :=
  ∀ result ∈ response.results, ∀ o ∈ result.obligations,
    o.id ≠ none ∧ ∀ a ∈ o.assignments, a.id ≠ none

/-- Nothing is made of the names of the obligation: no user is named, and no group or one that does
    not resolve; and the groups fit into the array. -/
structure NothingNamed (posix : Posix) (o : XacmlObligation) : Prop where
  user : namedUser o = none
  groups : namedGroups o = [] ∨ ∃ group ∈ namedGroups o, group.bind posix.getgrnam = none
  fit : (namedGroups o).length ≤ posix.ngroupsMax

theorem secondaryGids_eq_nil {posix : Posix} {o : XacmlObligation} :
    (if namedGroups o = [] then [] else
      ((namedGroups o).mapM (resolveGroupGid posix)).toList.map
        (createSecondarygidsObligation o.fulfillon)) = [] ↔
      namedGroups o = [] ∨ ∃ group ∈ namedGroups o, group.bind posix.getgrnam = none := by
  constructor
  · intro h
    rcases secondaryGids_part posix o with ⟨gids, texts, -, -, -, hadded⟩ | ⟨hnone, -⟩
    · rw [h] at hadded
      cases hadded
    · exact hnone
  · intro h
    rcases secondaryGids_part posix o with ⟨gids, texts, hne, hread, -, -⟩ | ⟨-, hadded⟩
    · rcases h with h | ⟨group, hgroup, hnone⟩
      · exact absurd h hne
      · have hmem := List.mem_map_of_mem (f := (·.bind posix.getgrnam)) hgroup
        rw [hread, hnone] at hmem
        obtain ⟨gid, -, hgid⟩ := List.mem_map.mp hmem
        cases hgid
    · exact hadded

theorem addedFor_eq_nil (posix : Posix) {o : XacmlObligation} (h : isPosix o = true) :
    addedFor posix o = [] ↔ namedUser o = none ∧
      (namedGroups o = [] ∨ ∃ group ∈ namedGroups o, group.bind posix.getgrnam = none) := by
  rw [addedFor_eq posix h, List.append_eq_nil_iff, secondaryGids_eq_nil]
  refine and_congr_left fun _ => ?_
  cases namedUser o with
  | none => exact iff_of_true rfl rfl
  | some user => exact iff_of_false nofun nofun

/-- An obligation adds nothing exactly when its id does not start with the constant, or nothing is
    made of its names. -/
theorem mapPosixObligation_eq_nil {posix : Posix} {o : XacmlObligation} (hid : o.id ≠ none)
    (hids : ∀ a ∈ o.assignments, a.id ≠ none) :
    mapPosixObligation posix o = .ok [] ↔ (isPosix o = true → NothingNamed posix o) := by
  unfold mapPosixObligation
  rw [strncmpPrefix_posix hid]
  cases hposix : isPosix o with
  | false => exact iff_of_true rfl nofun
  | true =>
    show (collectNames posix o.assignments >>= fun names =>
      pure (posixObligations posix o.fulfillon names)) = .ok [] ↔ _
    by_cases hfit : (namedGroups o).length ≤ posix.ngroupsMax
    · have hadded : addedFor posix o =
          posixObligations posix o.fulfillon ⟨namedUser o, namedPrimary o, namedGroups o⟩ :=
        if_pos hposix
      rw [collectNames_eq_ok.mpr ⟨hids, hfit, rfl⟩]
      show Except.ok (posixObligations posix o.fulfillon _) = .ok [] ↔ _
      rw [← hadded, Except.ok.injEq, addedFor_eq_nil posix hposix]
      exact ⟨fun h _ => ⟨h.1, h.2, hfit⟩, fun h => ⟨(h rfl).user, (h rfl).groups⟩⟩
    · refine iff_of_false (fun h => ?_) fun h => hfit (h rfl).fit
      cases hrun : collectNames posix o.assignments with
      | error e =>
        rw [hrun] at h
        cases h
      | ok names => exact hfit (collectNames_eq_ok.mp hrun).2.1

theorem mem_permittedObligations {response : XacmlResponse} {o : XacmlObligation} :
    o ∈ permittedObligations response ↔
      ∃ result ∈ response.results, result.decision = .permit ∧ o ∈ result.obligations := by
  unfold permittedObligations
  rw [List.mem_flatMap]
  refine exists_congr fun result => and_congr_right fun _ => ?_
  by_cases hpermit : result.decision = .permit
  · rw [if_pos hpermit, and_iff_right hpermit]
  · rw [if_neg hpermit]
    exact iff_of_false List.not_mem_nil fun h => hpermit h.1

/-- **A response is left as it is** exactly when every obligation of its Permits adds nothing. -/
theorem ohProcess_unchanged_iff {posix : Posix} {response : XacmlResponse} :
    gridwn2authzinteropOhProcess posix response = .ok response ↔
      ∀ o ∈ permittedObligations response, mapPosixObligation posix o = .ok [] := by
  unfold gridwn2authzinteropOhProcess
  constructor
  · intro h
    cases hrun : response.results.mapM (mapPosixResult posix) with
    | error e =>
      rw [hrun] at h
      cases h
    | ok results =>
      rw [hrun] at h
      obtain rfl : results = response.results := congrArg XacmlResponse.results (Except.ok.inj h)
      intro o ho
      obtain ⟨result, hr, hpermit, ho⟩ := mem_permittedObligations.mp ho
      have hresult := List.forall₂_same.mp (forall₂_of_mapM hrun) result hr
      have hmapped := mapPosixResult_ok hresult
      unfold mappedResult at hmapped
      rw [if_pos hpermit] at hmapped
      have hnone := List.self_eq_append_right.mp (congrArg XacmlResult.obligations hmapped)
      rw [mapPosixObligation_ok hresult hpermit o ho, List.flatMap_eq_nil_iff.mp hnone o ho]
  · intro h
    have hresults : ∀ result ∈ response.results, mapPosixResult posix result = .ok result := by
      intro result hr
      unfold mapPosixResult
      by_cases hpermit : result.decision = .permit
      · rw [if_pos hpermit]
        -- no obligation adds one
        refine (foldlM_appends addAll_nil addAll_addAll
          (fun o ho s => (?_ : _ = Except.ok (s.addAll ((fun _ => []) o)))) result).trans ?_
        · rw [h o (mem_permittedObligations.mpr ⟨result, hr, hpermit, ho⟩), addAll_nil]
          rfl
        · rw [List.flatMap_eq_nil_iff.mpr fun _ _ => rfl, addAll_nil]
      · rw [if_neg hpermit]
    rw [mapM_eq_map hresults, List.map_id']
    rfl

theorem obligationsExact_iff {posix : Posix} {response : XacmlResponse}
    (hids : ObligationIds response) : ObligationsExact posix response ↔ HasPosixId response ∨
      ∀ o ∈ permittedObligations response, isPosix o = true → NothingNamed posix o := by
  unfold ObligationsExact
  rw [ohProcess_unchanged_iff, or_iff_not_imp_left]
  refine imp_congr_right fun _ => forall₂_congr fun o ho => ?_
  obtain ⟨result, hr, -, ho⟩ := mem_permittedObligations.mp ho
  exact mapPosixObligation_eq_nil (hids result hr o ho).1 (hids result hr o ho).2

/-! ## 4. Both adapters -/

/-- **The adapters react to the ids themselves** exactly when no id that starts with a constant and
    goes on makes a difference: it is not there, or the id itself is, or, for an obligation, it
    names nothing. -/
theorem adapters_exactIds_iff (posix : Posix) (request : XacmlRequest) (response : XacmlResponse)
    (hrequest : IdsPresent request) (hresponse : ObligationIds response) :
    (SubjectsExact request ↔ HasSubjectId request ∨
      ∀ subject ∈ request.subjects, ∀ a ∈ subject.attributes, looksFor a = false) ∧
    (ProfileIdExact request ↔
      NamesProfile (request.environment.getD xacmlEnvironmentCreate).attributes ∨
      ∀ a ∈ (request.environment.getD xacmlEnvironmentCreate).attributes,
        idStarts XACML_GRIDWN_ATTRIBUTE_PROFILE_ID a = false) ∧
    (ObligationsExact posix response ↔ HasPosixId response ∨
      ∀ o ∈ permittedObligations response, isPosix o = true → NothingNamed posix o) :=
  ⟨subjectsExact_iff hrequest, profileIdExact_iff hrequest, obligationsExact_iff hresponse⟩

/-- A request with an id behind the one of a certificate chain, and one behind the profile id. -/
def requestBehind : XacmlRequest :=
  ⟨[⟨none, [⟨some (CString.lit "http://authz-interop.org/xacml/subject/cert-chain-hash"), none,
      none, [CString.lit "x"]⟩]⟩], [], none,
    some ⟨[⟨some (CString.lit "http://glite.org/xacml/attribute/profile-id-hint"), none, none,
      [CString.lit "x"]⟩]⟩⟩

/-- A Permit with an obligation id behind the one of the local environment map. -/
def responseBehind : XacmlResponse where
  request := none
  results := [⟨none, .permit, none,
    [⟨some (CString.lit "http://glite.org/xacml/obligation/local-environment-map/posix-hint"),
      .permit, [⟨some XACML_GRIDWN_ATTRIBUTE_USER_ID, none, some (CString.lit "user")⟩]⟩]⟩]

theorem requestBehind_ids : IdsPresent requestBehind := by
  constructor
  · intro subject hs a ha
    obtain rfl := List.mem_singleton.mp hs
    rw [List.mem_singleton.mp ha]
    exact Option.some_ne_none _
  · intro env he a ha
    obtain rfl := Option.some.inj he
    rw [List.mem_singleton.mp ha]
    exact Option.some_ne_none _

theorem responseBehind_ids : ObligationIds responseBehind := by
  intro result hr o ho
  obtain rfl := List.mem_singleton.mp hr
  obtain rfl := List.mem_singleton.mp ho
  refine ⟨Option.some_ne_none _, fun a ha => ?_⟩
  rw [List.mem_singleton.mp ha]
  exact Option.some_ne_none _

/-- No id is one of the constants, and the profile id is missing; both adapters react to what stands
    behind a constant. -/
theorem adapters_react_behind :
    (¬HasSubjectId requestBehind ∧ ¬SubjectsExact requestBehind) ∧
    ¬ProfileIdExact requestBehind ∧
    (¬HasPosixId responseBehind ∧ ¬ObligationsExact oneUser responseBehind) := by
  have hsubject : ¬HasSubjectId requestBehind := by
    intro h
    obtain ⟨subject, hs, a, ha, hid⟩ := h
    obtain rfl := List.mem_singleton.mp hs
    obtain rfl := List.mem_singleton.mp ha
    revert hid
    decide
  have hposix : ¬HasPosixId responseBehind := by
    intro h
    obtain ⟨result, hr, o, ho, hid⟩ := h
    obtain rfl := List.mem_singleton.mp hr
    obtain rfl := List.mem_singleton.mp ho
    revert hid
    decide
  refine ⟨⟨hsubject, fun h => ?_⟩, fun h => ?_, hposix, fun h => ?_⟩
  · rcases (subjectsExact_iff requestBehind_ids).mp h with h | h
    · exact hsubject h
    · exact absurd (h _ (List.mem_singleton_self _) _ (List.mem_singleton_self _)) (by decide)
  · rcases (profileIdExact_iff requestBehind_ids).mp h with h | h
    · obtain ⟨a, ha, hid⟩ := h
      obtain rfl := List.mem_singleton.mp ha
      revert hid
      decide
    · exact absurd (h _ (List.mem_singleton_self _)) (by decide)
  · rcases (obligationsExact_iff responseBehind_ids).mp h with h | h
    · exact hposix h
    · have hnamed := (h _ (List.mem_singleton_self _) (by decide)).user
      revert hnamed
      decide

/-- The ids themselves. -/
theorem adapters_exactIds_themselves :
    SubjectsExact (requestNaming XACML_AUTHZINTEROP_SUBJECT_VOMS_FQAN) ∧
    ProfileIdExact (requestNaming XACML_AUTHZINTEROP_SUBJECT_VOMS_FQAN) ∧
    ObligationsExact oneUser responseMapping := by
  have hids : ObligationIds responseMapping := fun result hr o ho =>
    have h := responseMapping_mappable result hr o ho
    ⟨h.id, h.assignments⟩
  obtain ⟨hsubjects, hprofile, hobligations⟩ := adapters_exactIds_iff oneUser
    (requestNaming XACML_AUTHZINTEROP_SUBJECT_VOMS_FQAN) responseMapping (requestNaming_ids _) hids
  refine ⟨hsubjects.mpr (.inl ?_), hprofile.mpr (.inr ?_), hobligations.mpr (.inl ?_)⟩
  · exact ⟨_, List.mem_singleton_self _, _, List.mem_singleton_self _, .inr (.inr rfl)⟩
  · exact fun a ha => absurd ha List.not_mem_nil
  · exact ⟨_, List.mem_singleton_self _, _, List.mem_singleton_self _, rfl⟩

end ArgusPep
