/-
  File:      ArgusPep/Argus/RequestCodec.lean
  Subject:   What a request is marshalled into is unmarshalled into the same request.

  * `XacmlRequest.attributes` -- all the attributes of a request;
  * **`request_codec`** -- a request can be marshalled if and only if each of its attributes has an
    id, and the Hessian object unmarshals to the request.

  Each part of a request has two lemmas, `…Marshal_isSome` and `…_round_trip`. A marshalled Map has
  each of its keys once, so a field reads back from the one value under its key.
-/
import ArgusPep.Argus.Marshal
import ArgusPep.Argus.Records

namespace ArgusPep

open Lib Keyed

/-! ## 1. Lists -/

section Lists

variable {α β γ : Type}

theorem mapM_isSome {f : α → Option β} {l : List α} :
    (l.mapM f).isSome = true ↔ ∀ a ∈ l, (f a).isSome = true := by
  induction l with
  | nil => simp
  | cons a l ih =>
    rw [mapM_cons_option, List.forall_mem_cons, ← ih]
    cases f a with
    | none => simp
    | some b => cases l.mapM f <;> simp

/-- Element by element, `g` takes back what `f` does. -/
theorem mapM_round_trip {f : α → Option β} {g : β → Option α} {l : List α} {m : List β}
    (h : ∀ a ∈ l, ∀ b, f a = some b → g b = some a) (hm : l.mapM f = some m) :
    m.mapM g = some l := by
  induction l generalizing m with
  | nil =>
    cases hm
    rfl
  | cons a l ih =>
    rw [List.forall_mem_cons] at h
    rw [mapM_cons_option] at hm
    obtain ⟨b, hb, hm⟩ := Option.bind_eq_some_iff.mp hm
    obtain ⟨m', hm', rfl⟩ := Option.map_eq_some_iff.mp hm
    rw [mapM_cons_option, h.1 b hb, ih h.2 hm']
    rfl

/-- One list under a key gives its elements. -/
theorem append_list {read : HessianObject → Option β} {es : List HessianObject} {bs : List β}
    (h : es.mapM read = some bs) :
    [HessianObject.list none es].foldlM (Field.append read) [] = some bs := by
  simp [Field.append, Value.elements, h]

end Lists

/-! ## 2. Attributes -/

theorem xacmlAttributeMarshal_isSome (attr : XacmlAttribute) :
    (xacmlAttributeMarshal attr).isSome = true ↔ attr.id ≠ none := by
  have hv : (attr.values.mapM fun value => hessianCreateString (some value)).isSome = true :=
    mapM_isSome.mpr fun _ _ => rfl
  obtain ⟨values, hvalues⟩ := Option.isSome_iff_exists.mp hv
  cases hid : attr.id with
  | none => simp [xacmlAttributeMarshal, hessianCreateString, hid]
  | some id =>
    rw [xacmlAttributeMarshal, hid, hvalues]
    simp [hessianCreateString]

theorem attribute_round_trip {attr : XacmlAttribute} {h : HessianObject}
    (hm : xacmlAttributeMarshal attr = some h) : xacmlAttributeUnmarshal h = some attr := by
  obtain ⟨id, datatype, issuer, values⟩ := attr
  obtain ⟨hid, hi, hm⟩ := Option.bind_eq_some_iff.mp hm
  obtain ⟨hvalues, hv, hm⟩ := Option.bind_eq_some_iff.mp hm
  obtain ⟨id, rfl, rfl⟩ := Option.map_eq_some_iff.mp hi
  cases hm
  have hr : hvalues.mapM Value.text = some values :=
    mapM_round_trip (fun v _ b hb => by cases hb; rfl) hv
  rw [xacmlAttributeUnmarshal_eq_some]
  cases datatype <;> cases issuer <;>
    exact ⟨_, rfl, rfl, rfl, rfl, append_list hr⟩

theorem attributes_round_trip {attrs : List XacmlAttribute} {key : CString}
    {pair : HessianObject × HessianObject} (hp : attributesPair key attrs = some pair) :
    ∃ es, pair = (.string key, .list none es) ∧ es.mapM xacmlAttributeUnmarshal = some attrs := by
  obtain ⟨es, he, hp⟩ := Option.bind_eq_some_iff.mp hp
  cases hp
  exact ⟨es, rfl, mapM_round_trip (fun _ _ _ => attribute_round_trip) he⟩

theorem attributesPair_isSome (key : CString) (attrs : List XacmlAttribute) :
    (attributesPair key attrs).isSome = true ↔ ∀ attr ∈ attrs, attr.id ≠ none := by
  have h : (attributesPair key attrs).isSome = (attrs.mapM xacmlAttributeMarshal).isSome := by
    unfold attributesPair
    cases attrs.mapM xacmlAttributeMarshal <;> rfl
  rw [h, mapM_isSome]
  exact forall₂_congr fun attr _ => xacmlAttributeMarshal_isSome attr

/-! ## 3. The parts of a request -/

theorem xacmlSubjectMarshal_isSome (subject : XacmlSubject) :
    (xacmlSubjectMarshal subject).isSome = true ↔ ∀ attr ∈ subject.attributes, attr.id ≠ none := by
  rw [← attributesPair_isSome XACML_HESSIAN_SUBJECT_ATTRIBUTES]
  unfold xacmlSubjectMarshal
  cases attributesPair XACML_HESSIAN_SUBJECT_ATTRIBUTES subject.attributes <;> simp

theorem subject_round_trip {subject : XacmlSubject} {h : HessianObject}
    (hm : xacmlSubjectMarshal subject = some h) : xacmlSubjectUnmarshal h = some subject := by
  obtain ⟨category, attributes⟩ := subject
  obtain ⟨pair, hp, hm⟩ := Option.bind_eq_some_iff.mp hm
  obtain ⟨es, rfl, he⟩ := attributes_round_trip hp
  cases hm
  rw [xacmlSubjectUnmarshal_eq_some]
  cases category <;> exact ⟨_, rfl, rfl, append_list he⟩

theorem xacmlResourceMarshal_isSome (resource : XacmlResource) :
    (xacmlResourceMarshal resource).isSome = true
      ↔ ∀ attr ∈ resource.attributes, attr.id ≠ none := by
  rw [← attributesPair_isSome XACML_HESSIAN_RESOURCE_ATTRIBUTES]
  unfold xacmlResourceMarshal
  cases attributesPair XACML_HESSIAN_RESOURCE_ATTRIBUTES resource.attributes <;> simp

theorem resource_round_trip {resource : XacmlResource} {h : HessianObject}
    (hm : xacmlResourceMarshal resource = some h) : xacmlResourceUnmarshal h = some resource := by
  obtain ⟨content, attributes⟩ := resource
  obtain ⟨pair, hp, hm⟩ := Option.bind_eq_some_iff.mp hm
  obtain ⟨es, rfl, he⟩ := attributes_round_trip hp
  cases hm
  rw [xacmlResourceUnmarshal_eq_some]
  cases content <;> exact ⟨_, rfl, rfl, append_list he⟩

theorem xacmlActionMarshal_isSome (action : Option XacmlAction) :
    (xacmlActionMarshal action).isSome = true
      ↔ ∀ attr ∈ action.elim [] XacmlAction.attributes, attr.id ≠ none := by
  cases action with
  | none => simp [xacmlActionMarshal]
  | some action =>
    rw [Option.elim_some, ← attributesPair_isSome XACML_HESSIAN_ACTION_ATTRIBUTES]
    unfold xacmlActionMarshal
    cases hp : attributesPair XACML_HESSIAN_ACTION_ATTRIBUTES action.attributes <;> simp [hp]

/-- The value of an optional object reads back: a Null as no object, a Map as the object. -/
theorem action_round_trip {action : Option XacmlAction} {h : HessianObject}
    (hm : xacmlActionMarshal action = some h) :
    Field.replace xacmlActionUnmarshal none h = some action := by
  cases action with
  | none =>
    cases hm
    rfl
  | some action =>
    obtain ⟨pair, hp, hm⟩ := Option.bind_eq_some_iff.mp hm
    obtain ⟨es, rfl, he⟩ := attributes_round_trip hp
    cases hm
    have hu : xacmlActionUnmarshal (.map (some XACML_HESSIAN_ACTION_CLASSNAME)
        [(.string XACML_HESSIAN_ACTION_ATTRIBUTES, .list none es)]) = some action :=
      xacmlActionUnmarshal_eq_some.mpr ⟨_, rfl, append_list he⟩
    exact congrArg (Option.map some) hu

theorem xacmlEnvironmentMarshal_isSome (env : Option XacmlEnvironment) :
    (xacmlEnvironmentMarshal env).isSome = true
      ↔ ∀ attr ∈ env.elim [] XacmlEnvironment.attributes, attr.id ≠ none := by
  cases env with
  | none => simp [xacmlEnvironmentMarshal]
  | some env =>
    rw [Option.elim_some, ← attributesPair_isSome XACML_HESSIAN_ENVIRONMENT_ATTRIBUTES]
    unfold xacmlEnvironmentMarshal
    cases hp : attributesPair XACML_HESSIAN_ENVIRONMENT_ATTRIBUTES env.attributes <;> simp [hp]

theorem environment_round_trip {env : Option XacmlEnvironment} {h : HessianObject}
    (hm : xacmlEnvironmentMarshal env = some h) :
    Field.replace xacmlEnvironmentUnmarshal none h = some env := by
  cases env with
  | none =>
    cases hm
    rfl
  | some env =>
    obtain ⟨pair, hp, hm⟩ := Option.bind_eq_some_iff.mp hm
    obtain ⟨es, rfl, he⟩ := attributes_round_trip hp
    cases hm
    have hu : xacmlEnvironmentUnmarshal (.map (some XACML_HESSIAN_ENVIRONMENT_CLASSNAME)
        [(.string XACML_HESSIAN_ENVIRONMENT_ATTRIBUTES, .list none es)]) = some env :=
      xacmlEnvironmentUnmarshal_eq_some.mpr ⟨_, rfl, append_list he⟩
    exact congrArg (Option.map some) hu

/-! ## 4. Requests -/

/-- All the attributes of a request. -/
def XacmlRequest.attributes (request : XacmlRequest) : List XacmlAttribute :=
  request.subjects.flatMap XacmlSubject.attributes
    ++ request.resources.flatMap XacmlResource.attributes
    ++ request.action.elim [] XacmlAction.attributes
    ++ request.environment.elim [] XacmlEnvironment.attributes

theorem xacmlRequestMarshal_isSome (request : XacmlRequest) :
    (xacmlRequestMarshal request).isSome = true
      ↔ ∀ attr ∈ request.attributes, attr.id ≠ none := by
  have hs : (xacmlRequestMarshal request).isSome = true
      ↔ (request.subjects.mapM xacmlSubjectMarshal).isSome = true
        ∧ (request.resources.mapM xacmlResourceMarshal).isSome = true
        ∧ (xacmlActionMarshal request.action).isSome = true
        ∧ (xacmlEnvironmentMarshal request.environment).isSome = true := by
    unfold xacmlRequestMarshal
    cases request.subjects.mapM xacmlSubjectMarshal <;>
      cases request.resources.mapM xacmlResourceMarshal <;>
      cases xacmlActionMarshal request.action <;>
      cases xacmlEnvironmentMarshal request.environment <;> simp
  rw [hs, mapM_isSome, mapM_isSome, xacmlActionMarshal_isSome, xacmlEnvironmentMarshal_isSome]
  simp only [xacmlSubjectMarshal_isSome, xacmlResourceMarshal_isSome, XacmlRequest.attributes,
    List.forall_mem_append, List.forall_mem_flatMap, and_assoc]

theorem request_round_trip {request : XacmlRequest} {h : HessianObject}
    (hm : xacmlRequestMarshal request = some h) : xacmlRequestUnmarshal h = some request := by
  obtain ⟨subjects, hs, hm⟩ := Option.bind_eq_some_iff.mp hm
  obtain ⟨resources, hr, hm⟩ := Option.bind_eq_some_iff.mp hm
  obtain ⟨action, ha, hm⟩ := Option.bind_eq_some_iff.mp hm
  obtain ⟨environment, he, hm⟩ := Option.bind_eq_some_iff.mp hm
  cases hm
  have hs' := mapM_round_trip (fun _ _ _ => subject_round_trip) hs
  have hr' := mapM_round_trip (fun _ _ _ => resource_round_trip) hr
  rw [xacmlRequestUnmarshal_eq_some]
  refine ⟨_, rfl, append_list hs', append_list hr', ?_, ?_⟩
  · show [action].foldlM (Field.replace xacmlActionUnmarshal) none = _
    rw [List.foldlM_cons, action_round_trip ha]
    rfl
  · show [environment].foldlM (Field.replace xacmlEnvironmentUnmarshal) none = _
    rw [List.foldlM_cons, environment_round_trip he]
    rfl

/-- **Marshalling a request is faithful.** It succeeds if and only if every attribute has an id,
    and the request is read back from the Hessian object as it was. -/
theorem request_codec (request : XacmlRequest) :
    ((xacmlRequestMarshal request).isSome = true ↔ ∀ attr ∈ request.attributes, attr.id ≠ none)
      ∧ ∀ h, xacmlRequestMarshal request = some h → xacmlRequestUnmarshal h = some request :=
  ⟨xacmlRequestMarshal_isSome request, fun _ => request_round_trip⟩

/-- A request with an attribute, no action and an environment without attributes. -/
theorem request_codec_absent_action :
    let request : XacmlRequest :=
      ⟨[⟨none, [⟨some (CString.lit "a"), none, none, [CString.lit "v"]⟩]⟩], [], none, some ⟨[]⟩⟩
    ∃ h, xacmlRequestMarshal request = some h ∧ xacmlRequestUnmarshal h = some request :=
  ⟨_, rfl, (request_codec _).2 _ rfl⟩

end ArgusPep
