/-
  File:      ArgusPep/Argus/PipAdapter.lean
  Subject:   `authzinterop2gridwn_pip_process` of argus/profiles.c, the PIP that copies AuthZ
             Interop attributes to Grid WN ones.

  Here subjects and attributes are values: what the function makes of a request in which no subject
  object stands twice. PipObjects has it on the objects, and ties the two.

  The loop over the attributes of a subject looks each up by its index in the list the clones are
  appended to. A NULL id handed to `strncmp` is its only fault; a run without a fault returns 0.

  * `adaptSubject`, `adaptEnvironment` -- the loop over a subject, and the profile id;
  * `authzinterop2gridwnPipProcess` -- the function; `adaptSubject_eq` and `adaptEnvironment_eq` say
    what its parts come to;
  * `XacmlSubject.repeated` -- a subject adapted again and again;
  * `repeated_grows` -- what was there stays, and what is added are clones;
  * **`repeated_documented_iff`** -- exactly when each attribute gets its documented counterpart.
-/
import ArgusPep.Argus.Profiles
import ArgusPep.Lib.Walk
import Mathlib.Data.List.Forall2

namespace ArgusPep

open Lib

/-! ## 1. Identifiers -/

abbrev XACML_DATATYPE_ANYURI := CString.lit "http://www.w3.org/2001/XMLSchema#anyURI"
abbrev XACML_SUBJECT_KEY_INFO := CString.lit "urn:oasis:names:tc:xacml:1.0:subject:key-info"

abbrev XACML_AUTHZINTEROP_SUBJECT_CERTCHAIN :=
  CString.lit "http://authz-interop.org/xacml/subject/cert-chain"
abbrev XACML_AUTHZINTEROP_SUBJECT_VOMS_FQAN :=
  CString.lit "http://authz-interop.org/xacml/subject/voms-fqan"
abbrev XACML_AUTHZINTEROP_SUBJECT_VOMS_PRIMARY_FQAN :=
  CString.lit "http://authz-interop.org/xacml/subject/voms-primary-fqan"

abbrev XACML_GRIDWN_PROFILE_VERSION := CString.lit "http://glite.org/xacml/profile/grid-wn/1.0"
abbrev XACML_GRIDWN_ATTRIBUTE_PROFILE_ID :=
  CString.lit "http://glite.org/xacml/attribute/profile-id"
abbrev XACML_GRIDWN_ATTRIBUTE_FQAN := CString.lit "http://glite.org/xacml/attribute/fqan"
abbrev XACML_GRIDWN_ATTRIBUTE_FQAN_PRIMARY :=
  CString.lit "http://glite.org/xacml/attribute/fqan/primary"
abbrev XACML_GRIDWN_DATATYPE_FQAN := CString.lit "http://glite.org/xacml/datatype/fqan"

/-! ## 2. The function -/

/-- `xacml_attribute_clone` of an attribute that is not NULL, setter by setter. What the clone shares
    with the original is no matter of values: see `Objects.xacmlAttributeClone_fresh`. -/
def xacmlAttributeClone (attr : XacmlAttribute) : Option XacmlAttribute :=
  let clone := xacmlAttributeCreate attr.id
  let clone := xacmlAttributeSetdatatype clone attr.datatype
  let clone := xacmlAttributeSetissuer clone attr.issuer
  attr.values.foldlM (fun clone value => xacmlAttributeAddvalue clone (some value)) clone

/-- One branch of the loop: a clone with another id and datatype, added to the subject. -/
def addClone (subject : XacmlSubject) (attr : Option XacmlAttribute) (id datatype : CString) :
    XacmlSubject :=
  match attr.bind xacmlAttributeClone with
  | none => subject
  | some clone =>
    let clone := (xacmlAttributeSetid clone (some id)).getD clone
    let clone := xacmlAttributeSetdatatype clone (some datatype)
    xacmlSubjectAddattribute subject clone

/-- A round of the loop over a subject. An id that starts with one of the three AuthZ Interop ids is
    taken for it. -/
def adaptAttribute (subject : XacmlSubject) (attr : Option XacmlAttribute) :
    Except OhFault XacmlSubject := do
  let attrId := attr.bind XacmlAttribute.id
  if ← strncmpPrefix XACML_AUTHZINTEROP_SUBJECT_CERTCHAIN attrId then
    pure (addClone subject attr XACML_SUBJECT_KEY_INFO XACML_DATATYPE_STRING)
  else if ← strncmpPrefix XACML_AUTHZINTEROP_SUBJECT_VOMS_PRIMARY_FQAN attrId then
    pure (addClone subject attr XACML_GRIDWN_ATTRIBUTE_FQAN_PRIMARY XACML_GRIDWN_DATATYPE_FQAN)
  else if ← strncmpPrefix XACML_AUTHZINTEROP_SUBJECT_VOMS_FQAN attrId then
    -- the id set is the one of the branch above
    pure (addClone subject attr XACML_GRIDWN_ATTRIBUTE_FQAN_PRIMARY XACML_GRIDWN_DATATYPE_FQAN)
  else pure subject

/-- The loop over the attributes of a subject; their number is read before it. -/
def adaptSubject (subject : XacmlSubject) : Except OhFault XacmlSubject :=
  walk (fun subject j => adaptAttribute subject subject.attributes[j]?) 0
    subject.attributes.length subject

/-- A round of the search for the profile id, which goes on behind a hit. -/
def findProfileId (present : Bool) (attr : XacmlAttribute) : Except OhFault Bool := do
  if ← strncmpPrefix XACML_GRIDWN_ATTRIBUTE_PROFILE_ID attr.id then pure true else pure present

def profileIdPresent (env : XacmlEnvironment) : Except OhFault Bool :=
  env.attributes.foldlM findProfileId false

/-- The attribute that names the profile. -/
def profileIdAttribute : XacmlAttribute :=
  let attr := xacmlAttributeCreate (some XACML_GRIDWN_ATTRIBUTE_PROFILE_ID)
  let attr := xacmlAttributeSetdatatype attr (some XACML_DATATYPE_ANYURI)
  (xacmlAttributeAddvalue attr (some XACML_GRIDWN_PROFILE_VERSION)).getD attr

/-- The profile id is added to the environment, unless it is there. -/
def adaptEnvironment (env : XacmlEnvironment) : Except OhFault XacmlEnvironment := do
  if ← profileIdPresent env then pure env
  else pure (xacmlEnvironmentAddattribute env profileIdAttribute)

/-- `authzinterop2gridwn_pip_process` of a request whose subjects are different objects: what it
    returns, and the request changed. -/
def authzinterop2gridwnPipProcess (request : XacmlRequest) : Except OhFault (Int × XacmlRequest) :=
  do
  let subjects ← request.subjects.mapM adaptSubject
  let request := { request with subjects }
  let env := request.environment.getD xacmlEnvironmentCreate
  let env ← adaptEnvironment env
  pure (0, xacmlRequestSetenvironment request (some env))

/-! ## 3. What the loops come to -/

/-- The id starts with `start`. -/
def idStarts (start : CString) (attr : XacmlAttribute) : Bool :=
  attr.id.any fun s => start.bytes.isPrefixOf s.bytes

theorem strncmpPrefix_id {attr : XacmlAttribute} (h : attr.id ≠ none) (start : CString) :
    strncmpPrefix start attr.id = .ok (idStarts start attr) := by
  unfold idStarts
  cases hid : attr.id with
  | none => exact absurd hid h
  | some s => rfl

theorem idStarts_iff {start : CString} {attr : XacmlAttribute} :
    idStarts start attr = true ↔ ∃ s, attr.id = some s ∧ start.bytes <+: s.bytes := by
  unfold idStarts
  rw [Option.any_eq_true]
  exact exists_congr fun s => and_congr_right fun _ => List.isPrefixOf_iff_prefix

theorem idStarts_self {attr : XacmlAttribute} {s : CString} (h : attr.id = some s) :
    idStarts s attr = true := idStarts_iff.mpr ⟨s, h, List.prefix_refl _⟩

/-- Two starts of one id: the one starts with the other. -/
theorem idStarts_comparable {p q : CString} {attr : XacmlAttribute} (hp : idStarts p attr = true)
    (hq : idStarts q attr = true) : p.bytes <+: q.bytes ∨ q.bytes <+: p.bytes := by
  obtain ⟨s, hs, hp⟩ := idStarts_iff.mp hp
  obtain ⟨t, ht, hq⟩ := idStarts_iff.mp hq
  obtain rfl := Option.some.inj (hs.symm.trans ht)
  exact List.prefix_or_prefix_of_prefix hp hq

/-- The id and the datatype of the clone an attribute gets, if it gets one. -/
def adaptedTo (attr : XacmlAttribute) : Option (CString × CString) :=
  if idStarts XACML_AUTHZINTEROP_SUBJECT_CERTCHAIN attr then
    some (XACML_SUBJECT_KEY_INFO, XACML_DATATYPE_STRING)
  else if idStarts XACML_AUTHZINTEROP_SUBJECT_VOMS_PRIMARY_FQAN attr then
    some (XACML_GRIDWN_ATTRIBUTE_FQAN_PRIMARY, XACML_GRIDWN_DATATYPE_FQAN)
  else if idStarts XACML_AUTHZINTEROP_SUBJECT_VOMS_FQAN attr then
    some (XACML_GRIDWN_ATTRIBUTE_FQAN_PRIMARY, XACML_GRIDWN_DATATYPE_FQAN)
  else none

/-- A clone with the id and the datatype of `target`. -/
def cloneAs (attr : XacmlAttribute) (target : CString × CString) : XacmlAttribute :=
  { attr with id := some target.1, datatype := some target.2 }

/-- The clone an attribute gets. -/
def adaptedClone (attr : XacmlAttribute) : Option XacmlAttribute :=
  (adaptedTo attr).map (cloneAs attr)

theorem addvalues (attr : XacmlAttribute) (values : List CString) :
    values.foldlM (fun attr value => xacmlAttributeAddvalue attr (some value)) attr =
      some { attr with values := attr.values ++ values } := by
  induction values generalizing attr with
  | nil => rw [List.append_nil]; rfl
  | cons value values ih =>
    rw [List.foldlM_cons]
    show values.foldlM _ { attr with values := attr.values ++ [value] } = _
    rw [ih, List.append_assoc]
    rfl

/-- A clone has the id, the datatype, the issuer and the values of the original. -/
theorem xacmlAttributeClone_eq (attr : XacmlAttribute) : xacmlAttributeClone attr = some attr :=
  addvalues _ attr.values

theorem addClone_eq (subject : XacmlSubject) (attr : XacmlAttribute) (id datatype : CString) :
    addClone subject (some attr) id datatype =
      xacmlSubjectAddattribute subject (cloneAs attr (id, datatype)) := by
  unfold addClone
  rw [Option.bind_some, xacmlAttributeClone_eq]
  rfl

/-- The subject with more attributes. -/
def XacmlSubject.addAll (subject : XacmlSubject) (attrs : List XacmlAttribute) : XacmlSubject :=
  { subject with attributes := subject.attributes ++ attrs }

/-- A round is decided by the id of its attribute. -/
theorem adaptAttribute_eq {attr : XacmlAttribute} (hid : attr.id ≠ none) (subject : XacmlSubject) :
    adaptAttribute subject (some attr) = .ok (subject.addAll (adaptedClone attr).toList) := by
  unfold adaptAttribute adaptedClone adaptedTo
  simp only [Option.bind_some, strncmpPrefix_id hid, addClone_eq]
  show (if idStarts _ attr then _ else (if idStarts _ attr then _ else
    (if idStarts _ attr then _ else _ : Except OhFault XacmlSubject))) = _
  by_cases hchain : idStarts XACML_AUTHZINTEROP_SUBJECT_CERTCHAIN attr
  · rw [if_pos hchain, if_pos hchain]
    rfl
  by_cases hprimary : idStarts XACML_AUTHZINTEROP_SUBJECT_VOMS_PRIMARY_FQAN attr
  · rw [if_neg hchain, if_neg hchain, if_pos hprimary, if_pos hprimary]
    rfl
  by_cases hfqan : idStarts XACML_AUTHZINTEROP_SUBJECT_VOMS_FQAN attr
  · rw [if_neg hchain, if_neg hchain, if_neg hprimary, if_neg hprimary, if_pos hfqan, if_pos hfqan]
    rfl
  · rw [if_neg hchain, if_neg hchain, if_neg hprimary, if_neg hprimary, if_neg hfqan, if_neg hfqan]
    exact congrArg Except.ok (by simp [XacmlSubject.addAll])

theorem adaptAttribute_grows (subject : XacmlSubject) (attr : XacmlAttribute) (t : XacmlSubject)
    (h : adaptAttribute subject (some attr) = .ok t) : subject.attributes <+: t.attributes := by
  by_cases hid : attr.id = none
  · unfold adaptAttribute at h
    rw [Option.bind_some, hid] at h
    cases h
  · rw [adaptAttribute_eq hid] at h
    cases h
    exact List.prefix_append _ _

/-- **The loop over a subject appends the clones of its attributes**, in their order. -/
theorem adaptSubject_eq {subject : XacmlSubject} (hids : ∀ a ∈ subject.attributes, a.id ≠ none) :
    adaptSubject subject = .ok (subject.addAll (subject.attributes.filterMap adaptedClone)) := by
  unfold adaptSubject
  rw [walk_eq_foldlM XacmlSubject.attributes (fun subject attr => adaptAttribute subject (some attr))
    (fun s j a hj => by rw [hj]) adaptAttribute_grows]
  rw [List.filterMap_eq_flatMap_toList]
  refine foldlM_appends (fun s => ?_) (fun s bs cs => ?_)
    (fun a ha s => adaptAttribute_eq (hids a ha) s) subject
  · simp [XacmlSubject.addAll]
  · simp [XacmlSubject.addAll]

theorem findProfileId_fold {attrs : List XacmlAttribute} (hids : ∀ a ∈ attrs, a.id ≠ none)
    (present : Bool) : attrs.foldlM findProfileId present =
      .ok (present || attrs.any (idStarts XACML_GRIDWN_ATTRIBUTE_PROFILE_ID)) := by
  induction attrs generalizing present with
  | nil => exact congrArg Except.ok (Bool.or_false present).symm
  | cons attr attrs ih =>
    have hround : findProfileId present attr =
        .ok (present || idStarts XACML_GRIDWN_ATTRIBUTE_PROFILE_ID attr) := by
      unfold findProfileId
      rw [strncmpPrefix_id (hids attr List.mem_cons_self)]
      cases idStarts XACML_GRIDWN_ATTRIBUTE_PROFILE_ID attr with
      | true => exact congrArg Except.ok (Bool.or_true present).symm
      | false => exact congrArg Except.ok (Bool.or_false present).symm
    rw [List.foldlM_cons, hround, List.any_cons, ← Bool.or_assoc]
    exact ih (fun a ha => hids a (List.mem_cons_of_mem _ ha)) _

theorem profileIdPresent_eq {env : XacmlEnvironment} (hids : ∀ a ∈ env.attributes, a.id ≠ none) :
    profileIdPresent env =
      .ok (env.attributes.any (idStarts XACML_GRIDWN_ATTRIBUTE_PROFILE_ID)) :=
  findProfileId_fold hids false

/-- The environment has an attribute that names a profile. -/
def HasProfileId (env : XacmlEnvironment) : Prop :=
  env.attributes.any (idStarts XACML_GRIDWN_ATTRIBUTE_PROFILE_ID) = true

/-- The profile id is added where there is none. -/
theorem adaptEnvironment_eq {env : XacmlEnvironment} (hids : ∀ a ∈ env.attributes, a.id ≠ none) :
    (HasProfileId env ∧ adaptEnvironment env = .ok env) ∨
    (¬HasProfileId env ∧
      adaptEnvironment env = .ok (xacmlEnvironmentAddattribute env profileIdAttribute)) := by
  unfold adaptEnvironment HasProfileId
  rw [profileIdPresent_eq hids]
  cases env.attributes.any (idStarts XACML_GRIDWN_ATTRIBUTE_PROFILE_ID) with
  | true => exact .inl ⟨rfl, rfl⟩
  | false => exact .inr ⟨Bool.false_ne_true, rfl⟩

/-- The attributes the function reads have ids. -/
structure IdsPresent (request : XacmlRequest) : Prop where
  subjects : ∀ subject ∈ request.subjects, ∀ a ∈ subject.attributes, a.id ≠ none
  environment : ∀ env, request.environment = some env → ∀ a ∈ env.attributes, a.id ≠ none

/-- The subject with the clones of its attributes. -/
def adaptedSubject (subject : XacmlSubject) : XacmlSubject :=
  subject.addAll (subject.attributes.filterMap adaptedClone)

theorem environment_ids {request : XacmlRequest} (hids : IdsPresent request) :
    ∀ a ∈ (request.environment.getD xacmlEnvironmentCreate).attributes, a.id ≠ none := by
  cases he : request.environment with
  | none => exact fun a ha => absurd ha List.not_mem_nil
  | some env => exact hids.environment env he

/-- **What the function comes to.** -/
theorem authzinterop2gridwnPipProcess_eq {request : XacmlRequest} (hids : IdsPresent request) :
    ∃ env, adaptEnvironment (request.environment.getD xacmlEnvironmentCreate) = .ok env ∧
      authzinterop2gridwnPipProcess request =
        .ok (0, ⟨request.subjects.map adaptedSubject, request.resources, request.action,
          some env⟩) := by
  have henv := environment_ids hids
  obtain ⟨env, hadapt⟩ : ∃ env,
      adaptEnvironment (request.environment.getD xacmlEnvironmentCreate) = .ok env := by
    rcases adaptEnvironment_eq henv with ⟨-, h⟩ | ⟨-, h⟩
    · exact ⟨_, h⟩
    · exact ⟨_, h⟩
  refine ⟨env, hadapt, ?_⟩
  unfold authzinterop2gridwnPipProcess
  rw [mapM_eq_map fun subject hs => adaptSubject_eq (hids.subjects subject hs)]
  show (adaptEnvironment (request.environment.getD xacmlEnvironmentCreate) >>= fun env => _) = _
  rw [hadapt]
  rfl

/-! ## 4. A subject adapted again and again -/

/-- The subject with the clones of its attributes, `n` times over. -/
def XacmlSubject.repeated (n : Nat) (subject : XacmlSubject) : XacmlSubject :=
  subject.addAll (List.replicate n (subject.attributes.filterMap adaptedClone)).flatten

/-- A clone gets no clone. -/
theorem adaptedClone_clone {attr clone : XacmlAttribute} (h : adaptedClone attr = some clone) :
    adaptedClone clone = none := by
  have hnone : ∀ id datatype, clone = cloneAs attr (id, datatype) →
      adaptedTo (cloneAs attr (id, datatype)) = none → adaptedClone clone = none := by
    intro id datatype hclone htarget
    rw [hclone]
    exact congrArg (Option.map _) htarget
  unfold adaptedClone adaptedTo at h
  split at h
  · exact hnone _ _ (Option.some.inj h).symm rfl
  · split at h
    · exact hnone _ _ (Option.some.inj h).symm rfl
    · split at h
      · exact hnone _ _ (Option.some.inj h).symm rfl
      · cases h

theorem clones_flatten (n : Nat) (attrs : List XacmlAttribute) :
    (List.replicate n (attrs.filterMap adaptedClone)).flatten.filterMap adaptedClone = [] := by
  rw [List.filterMap_eq_nil_iff]
  intro clone hclone
  obtain ⟨clones, hclones, hmem⟩ := List.mem_flatten.mp hclone
  rw [(List.mem_replicate.mp hclones).2] at hmem
  obtain ⟨attr, -, hattr⟩ := List.mem_filterMap.mp hmem
  exact adaptedClone_clone hattr

/-- A run on what runs have left adds the same clones once more. -/
theorem adaptedSubject_repeated (n : Nat) (subject : XacmlSubject) :
    adaptedSubject (subject.repeated n) = subject.repeated (n + 1) := by
  unfold adaptedSubject XacmlSubject.repeated XacmlSubject.addAll
  rw [List.filterMap_append, clones_flatten, List.append_nil, List.replicate_succ',
    List.flatten_append, List.append_assoc]
  simp

theorem adaptedSubject_ids {subject : XacmlSubject} (hids : ∀ a ∈ subject.attributes, a.id ≠ none) :
    ∀ a ∈ (adaptedSubject subject).attributes, a.id ≠ none := by
  intro a ha
  rcases List.mem_append.mp ha with ha | ha
  · exact hids a ha
  · obtain ⟨attr, -, hclone⟩ := List.mem_filterMap.mp ha
    obtain ⟨target, -, rfl⟩ := Option.map_eq_some_iff.mp hclone
    exact Option.some_ne_none _

theorem repeated_ids {subject : XacmlSubject} (n : Nat)
    (hids : ∀ a ∈ subject.attributes, a.id ≠ none) :
    ∀ a ∈ (subject.repeated n).attributes, a.id ≠ none := by
  induction n with
  | zero => simpa [XacmlSubject.repeated, XacmlSubject.addAll] using hids
  | succ n ih =>
    rw [← adaptedSubject_repeated]
    exact adaptedSubject_ids ih

/-! ## 5. What is added -/

/-- The id starts with one of the three AuthZ Interop ids the function looks for. -/
def looksFor (attr : XacmlAttribute) : Bool :=
  idStarts XACML_AUTHZINTEROP_SUBJECT_CERTCHAIN attr
    || idStarts XACML_AUTHZINTEROP_SUBJECT_VOMS_PRIMARY_FQAN attr
    || idStarts XACML_AUTHZINTEROP_SUBJECT_VOMS_FQAN attr

/-- The same issuer, and the same values in the same order. -/
def ClonedFrom (attr clone : XacmlAttribute) : Prop :=
  clone.issuer = attr.issuer ∧ clone.values = attr.values

/-- A subject keeps its category and its attributes; behind them it gets, `n` times over, one clone
    of each attribute the function looks for. -/
structure SubjectOnlyGrows (n : Nat) (subject subject' : XacmlSubject) : Prop where
  category : subject'.category = subject.category
  attributes : ∃ added, subject'.attributes = subject.attributes ++ added ∧
    List.Forall₂ ClonedFrom (List.replicate n (subject.attributes.filter looksFor)).flatten added

/-- An environment keeps its attributes, gets one at most, and names a profile. -/
structure EnvironmentOnlyGrows (env env' : XacmlEnvironment) : Prop where
  attributes : ∃ added, env'.attributes = env.attributes ++ added ∧ added.length ≤ 1
  profileId : ∃ a ∈ env'.attributes, idStarts XACML_GRIDWN_ATTRIBUTE_PROFILE_ID a = true

theorem looksFor_iff (attr : XacmlAttribute) : looksFor attr = (adaptedTo attr).isSome := by
  unfold looksFor adaptedTo
  cases idStarts XACML_AUTHZINTEROP_SUBJECT_CERTCHAIN attr with
  | true => rfl
  | false =>
    cases idStarts XACML_AUTHZINTEROP_SUBJECT_VOMS_PRIMARY_FQAN attr with
    | true => rfl
    | false => cases idStarts XACML_AUTHZINTEROP_SUBJECT_VOMS_FQAN attr <;> rfl

theorem adaptedClone_eq_none {attr : XacmlAttribute} :
    adaptedClone attr = none ↔ looksFor attr = false := by
  rw [looksFor_iff, adaptedClone, Option.map_eq_none_iff, ← Option.not_isSome_iff_eq_none,
    Bool.not_eq_true]

theorem clones_forall₂ (attrs : List XacmlAttribute) :
    List.Forall₂ ClonedFrom (attrs.filter looksFor) (attrs.filterMap adaptedClone) := by
  induction attrs with
  | nil => exact .nil
  | cons attr attrs ih =>
    cases htarget : adaptedTo attr with
    | none =>
      have hclone : adaptedClone attr = none := congrArg (Option.map _) htarget
      rw [List.filter_cons_of_neg (by rw [looksFor_iff, htarget]; exact Bool.false_ne_true),
        List.filterMap_cons_none hclone]
      exact ih
    | some target =>
      have hclone : adaptedClone attr = some (cloneAs attr target) :=
        congrArg (Option.map _) htarget
      rw [List.filter_cons_of_pos (by rw [looksFor_iff, htarget]; rfl),
        List.filterMap_cons_some hclone]
      exact .cons ⟨rfl, rfl⟩ ih

theorem repeated_grows (n : Nat) (subject : XacmlSubject) :
    SubjectOnlyGrows n subject (subject.repeated n) := by
  refine ⟨rfl, _, rfl, ?_⟩
  induction n with
  | zero => exact .nil
  | succ n ih =>
    rw [List.replicate_succ, List.replicate_succ, List.flatten_cons, List.flatten_cons]
    exact List.rel_append (clones_forall₂ subject.attributes) ih

theorem profileIdAttribute_starts :
    idStarts XACML_GRIDWN_ATTRIBUTE_PROFILE_ID profileIdAttribute = true := idStarts_self rfl

theorem adaptEnvironment_grows {env env' : XacmlEnvironment}
    (hids : ∀ a ∈ env.attributes, a.id ≠ none) (h : adaptEnvironment env = .ok env') :
    EnvironmentOnlyGrows env env' := by
  rcases adaptEnvironment_eq hids with ⟨hhas, heq⟩ | ⟨-, heq⟩
  · obtain rfl := Except.ok.inj (heq.symm.trans h)
    exact ⟨⟨[], (List.append_nil _).symm, Nat.zero_le 1⟩, List.any_eq_true.mp hhas⟩
  · obtain rfl := Except.ok.inj (heq.symm.trans h)
    exact ⟨⟨[profileIdAttribute], rfl, Nat.le_refl 1⟩, profileIdAttribute,
      List.mem_append_right _ (List.mem_singleton_self _), profileIdAttribute_starts⟩

theorem adaptEnvironment_ids {env env' : XacmlEnvironment}
    (hids : ∀ a ∈ env.attributes, a.id ≠ none) (h : adaptEnvironment env = .ok env') :
    ∀ a ∈ env'.attributes, a.id ≠ none := by
  rcases adaptEnvironment_eq hids with ⟨-, heq⟩ | ⟨-, heq⟩
  · obtain rfl := Except.ok.inj (heq.symm.trans h)
    exact hids
  · obtain rfl := Except.ok.inj (heq.symm.trans h)
    intro a ha
    rcases List.mem_append.mp ha with ha | ha
    · exact hids a ha
    · rw [List.mem_singleton.mp ha]
      exact Option.some_ne_none _

/-- A request whose one subject has an attribute with the id `id` and one value. -/
def requestNaming (id : CString) : XacmlRequest :=
  ⟨[⟨none, [⟨some id, none, none, [CString.lit "/vo/Role=x"]⟩]⟩], [], none, none⟩

theorem requestNaming_ids (id : CString) : IdsPresent (requestNaming id) := by
  constructor
  · intro subject hs a ha
    obtain rfl := List.mem_singleton.mp hs
    rw [List.mem_singleton.mp ha]
    exact Option.some_ne_none _
  · intro env he
    cases he

/-! ## 6. The documented counterparts -/

/-- The counterpart the documentation gives an attribute. -/
def documentedCounterpart (attr : XacmlAttribute) : Option (CString × CString) :=
  if attr.id = some XACML_AUTHZINTEROP_SUBJECT_CERTCHAIN then
    some (XACML_SUBJECT_KEY_INFO, XACML_DATATYPE_STRING)
  else if attr.id = some XACML_AUTHZINTEROP_SUBJECT_VOMS_PRIMARY_FQAN then
    some (XACML_GRIDWN_ATTRIBUTE_FQAN_PRIMARY, XACML_GRIDWN_DATATYPE_FQAN)
  else if attr.id = some XACML_AUTHZINTEROP_SUBJECT_VOMS_FQAN then
    some (XACML_GRIDWN_ATTRIBUTE_FQAN, XACML_GRIDWN_DATATYPE_FQAN)
  else none

def documentedClone (attr : XacmlAttribute) : Option XacmlAttribute :=
  (documentedCounterpart attr).map (cloneAs attr)

/-- The attributes, then the documented clone of each that has one; only a primary FQAN adds the id
    fqan/primary. -/
structure DocumentedSubject (subject subject' : XacmlSubject) : Prop where
  attributes : subject'.attributes =
    subject.attributes ++ subject.attributes.filterMap documentedClone
  primary : ∀ clone ∈ subject'.attributes.drop subject.attributes.length,
    clone.id = some XACML_GRIDWN_ATTRIBUTE_FQAN_PRIMARY →
      ∃ attr ∈ subject.attributes, documentedClone attr = some clone ∧
        attr.id = some XACML_AUTHZINTEROP_SUBJECT_VOMS_PRIMARY_FQAN

/-- The ids the function treats as documented: none that starts with the id of a secondary FQAN, and
    of the others the ids themselves, with nothing behind. -/
structure PlainId (attr : XacmlAttribute) : Prop where
  fqan : idStarts XACML_AUTHZINTEROP_SUBJECT_VOMS_FQAN attr = false
  certchain : idStarts XACML_AUTHZINTEROP_SUBJECT_CERTCHAIN attr = true →
    attr.id = some XACML_AUTHZINTEROP_SUBJECT_CERTCHAIN
  primary : idStarts XACML_AUTHZINTEROP_SUBJECT_VOMS_PRIMARY_FQAN attr = true →
    attr.id = some XACML_AUTHZINTEROP_SUBJECT_VOMS_PRIMARY_FQAN

theorem fqan_not_certchain {attr : XacmlAttribute}
    (h : idStarts XACML_AUTHZINTEROP_SUBJECT_VOMS_FQAN attr = true) :
    idStarts XACML_AUTHZINTEROP_SUBJECT_CERTCHAIN attr ≠ true := fun h' =>
  (idStarts_comparable h h').elim (by decide) (by decide)

theorem fqan_not_primary {attr : XacmlAttribute}
    (h : idStarts XACML_AUTHZINTEROP_SUBJECT_VOMS_FQAN attr = true) :
    idStarts XACML_AUTHZINTEROP_SUBJECT_VOMS_PRIMARY_FQAN attr ≠ true := fun h' =>
  (idStarts_comparable h h').elim (by decide) (by decide)

theorem primary_not_certchain {attr : XacmlAttribute}
    (h : idStarts XACML_AUTHZINTEROP_SUBJECT_VOMS_PRIMARY_FQAN attr = true) :
    idStarts XACML_AUTHZINTEROP_SUBJECT_CERTCHAIN attr ≠ true := fun h' =>
  (idStarts_comparable h h').elim (by decide) (by decide)

/-- An attribute with a documented counterpart gets a clone. -/
theorem adaptedTo_of_documented {attr : XacmlAttribute} (h : (documentedCounterpart attr).isSome) :
    (adaptedTo attr).isSome := by
  rw [← looksFor_iff]
  unfold documentedCounterpart at h
  unfold looksFor
  split at h
  · rename_i hid
    rw [idStarts_self hid, Bool.true_or, Bool.true_or]
  split at h
  · rename_i hid
    rw [idStarts_self hid, Bool.or_true, Bool.true_or]
  split at h
  · rename_i hid
    rw [idStarts_self hid, Bool.or_true]
  · exact absurd h Bool.false_ne_true

/-- An attribute gets its documented counterpart exactly when its id is plain. -/
theorem adaptedTo_eq_documented_iff (attr : XacmlAttribute) :
    adaptedTo attr = documentedCounterpart attr ↔ PlainId attr := by
  unfold adaptedTo documentedCounterpart
  constructor
  · intro h
    refine ⟨?_, ?_, ?_⟩
    · by_contra hfqan
      rw [Bool.not_eq_false] at hfqan
      rw [if_neg (fqan_not_certchain hfqan), if_neg (fqan_not_primary hfqan), if_pos hfqan,
        if_neg fun hid => fqan_not_certchain hfqan (idStarts_self hid),
        if_neg fun hid => fqan_not_primary hfqan (idStarts_self hid)] at h
      split at h
      · exact absurd (congrArg Prod.fst (Option.some.inj h)) (by decide)
      · cases h
    · intro hchain
      by_contra hid
      rw [if_pos hchain, if_neg hid] at h
      split at h
      · exact absurd (congrArg Prod.fst (Option.some.inj h)) (by decide)
      split at h
      · exact absurd (congrArg Prod.fst (Option.some.inj h)) (by decide)
      · cases h
    · intro hprimary
      by_contra hid
      rw [if_neg (primary_not_certchain hprimary), if_pos hprimary,
        if_neg fun hid => primary_not_certchain hprimary (idStarts_self hid), if_neg hid] at h
      split at h
      · exact absurd (congrArg Prod.fst (Option.some.inj h)) (by decide)
      · cases h
  · intro h
    have hfqan : ¬idStarts XACML_AUTHZINTEROP_SUBJECT_VOMS_FQAN attr = true := by
      rw [h.fqan]
      exact Bool.false_ne_true
    rw [if_neg hfqan, if_neg fun hid => hfqan (idStarts_self hid)]
    by_cases hchain : idStarts XACML_AUTHZINTEROP_SUBJECT_CERTCHAIN attr = true
    · rw [if_pos hchain, if_pos (h.certchain hchain)]
    · rw [if_neg hchain, if_neg fun hid => hchain (idStarts_self hid)]
      by_cases hprimary : idStarts XACML_AUTHZINTEROP_SUBJECT_VOMS_PRIMARY_FQAN attr = true
      · rw [if_pos hprimary, if_pos (h.primary hprimary)]
      · rw [if_neg hprimary, if_neg fun hid => hprimary (idStarts_self hid)]

theorem cloneAs_inj {attr : XacmlAttribute} {p q : CString × CString}
    (h : cloneAs attr p = cloneAs attr q) : p = q := by
  have hid := Option.some.inj (congrArg XacmlAttribute.id h)
  have hdatatype := Option.some.inj (congrArg XacmlAttribute.datatype h)
  exact Prod.ext hid hdatatype

theorem adaptedClone_eq_documented_iff (attr : XacmlAttribute) :
    adaptedClone attr = documentedClone attr ↔ PlainId attr := by
  rw [← adaptedTo_eq_documented_iff]
  exact (Option.map_injective fun _ _ => cloneAs_inj).eq_iff

theorem clone_of_documented (attr : XacmlAttribute) (h : (documentedClone attr).isSome) :
    (adaptedClone attr).isSome := by
  rw [documentedClone, Option.isSome_map] at h
  rw [adaptedClone, Option.isSome_map]
  exact adaptedTo_of_documented h

/-- The documentation gives the id of a primary FQAN to a primary FQAN only. -/
theorem primary_of_documented {attr clone : XacmlAttribute} (h : documentedClone attr = some clone)
    (hid : clone.id = some XACML_GRIDWN_ATTRIBUTE_FQAN_PRIMARY) :
    attr.id = some XACML_AUTHZINTEROP_SUBJECT_VOMS_PRIMARY_FQAN := by
  obtain ⟨target, htarget, rfl⟩ := Option.map_eq_some_iff.mp h
  have hprimary : target.1 = XACML_GRIDWN_ATTRIBUTE_FQAN_PRIMARY := Option.some.inj hid
  unfold documentedCounterpart at htarget
  split at htarget
  · obtain rfl := Option.some.inj htarget
    exact absurd hprimary (by decide)
  split at htarget
  · assumption
  split at htarget
  · obtain rfl := Option.some.inj htarget
    exact absurd hprimary (by decide)
  · cases htarget

/-- The lists of clones are the same exactly when every id is plain. -/
theorem clones_documented_iff (attrs : List XacmlAttribute) :
    attrs.filterMap adaptedClone = attrs.filterMap documentedClone ↔ ∀ a ∈ attrs, PlainId a := by
  rw [filterMap_eq_iff clone_of_documented]
  exact forall₂_congr fun a _ => adaptedClone_eq_documented_iff a

/-- Nothing looked for is nothing added. -/
theorem clones_eq_nil_iff (attrs : List XacmlAttribute) :
    attrs.filterMap adaptedClone = [] ↔ ∀ a ∈ attrs, looksFor a = false := by
  rw [List.filterMap_eq_nil_iff]
  exact forall₂_congr fun a _ => adaptedClone_eq_none

/-- Clones added more than once are the documented ones only where there are none. -/
theorem clones_repeated_iff {n : Nat} (hn : 0 < n) (attrs : List XacmlAttribute) :
    (List.replicate n (attrs.filterMap adaptedClone)).flatten = attrs.filterMap documentedClone ↔
      (∀ a ∈ attrs, PlainId a) ∧ (n = 1 ∨ ∀ a ∈ attrs, looksFor a = false) := by
  rw [← clones_documented_iff, ← clones_eq_nil_iff]
  constructor
  · intro h
    by_cases hone : n = 1
    · subst hone
      exact ⟨by simpa using h, .inl rfl⟩
    · have hle := filterMap_length_le clone_of_documented attrs
      have hlength := congrArg List.length h
      rw [List.length_flatten, List.map_replicate, List.sum_replicate_nat] at hlength
      have hnil : attrs.filterMap adaptedClone = [] := by
        rw [← List.length_eq_zero_iff]
        by_contra hne
        have htwo : 2 * (attrs.filterMap adaptedClone).length ≤
            n * (attrs.filterMap adaptedClone).length := Nat.mul_le_mul_right _ (by omega)
        omega
      rw [hnil] at h hle
      exact ⟨hnil.trans (List.length_eq_zero_iff.mp (Nat.le_zero.mp hle)).symm, .inr hnil⟩
  · intro h
    obtain ⟨hsame, hone | hnil⟩ := h
    · rw [hone, ← hsame]
      simp
    · rw [← hsame, hnil]
      simp

/-- **A subject adapted `n` times has the documented clones** exactly when every id is plain, and
    nothing is looked for or `n` is 1. -/
theorem repeated_documented_iff {n : Nat} (hn : 0 < n) (subject : XacmlSubject) :
    DocumentedSubject subject (subject.repeated n) ↔
      (∀ a ∈ subject.attributes, PlainId a) ∧
        (n = 1 ∨ ∀ a ∈ subject.attributes, looksFor a = false) := by
  rw [← clones_repeated_iff hn]
  constructor
  · intro h
    exact List.append_cancel_left h.attributes
  · intro hclones
    have hattributes : (subject.repeated n).attributes =
        subject.attributes ++ subject.attributes.filterMap documentedClone :=
      congrArg (subject.attributes ++ ·) hclones
    refine ⟨hattributes, fun clone hclone hid => ?_⟩
    rw [hattributes, List.drop_left] at hclone
    obtain ⟨attr, ha, hdoc⟩ := List.mem_filterMap.mp hclone
    exact ⟨attr, ha, hdoc, primary_of_documented hdoc hid⟩

end ArgusPep
