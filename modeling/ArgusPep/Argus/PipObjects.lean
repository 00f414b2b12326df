/-
  File:      ArgusPep/Argus/PipObjects.lean
  Subject:   `authzinterop2gridwn_pip_process` on the objects of a request.

  A request holds the addresses of its subjects, and the same subject can stand in it more than once
  (`xacml_request_addsubject` refuses NULL only). The loop over the subjects then visits it as often.
  An attribute can be shared as well: it is read, and never written.

  * **`authzinterop2gridwnPipProcess`** -- the function;
  * `SubjectAt`, `RequestAt` -- the subject, and the request, the objects stand for;
  * `adaptSubject_at` -- a visit: the subject gets its clones, and nothing else changes;
  * `pipProcess_at` -- a subject that stands `n` times in the request gets its clones `n` times;
  * `pipProcess_refines` -- where no subject stands twice, the run is the one of PipAdapter on values;
  * **`pipProcess_onlyAdds`** -- what was there stays, and what is added are clones;
  * **`pipProcess_documented_iff`** -- exactly when each attribute gets its documented counterpart.
-/
import Mathlib.Data.List.Count
import Mathlib.Data.List.Nodup
import ArgusPep.Argus.AttributeObjects
import ArgusPep.Argus.PipAdapter

namespace ArgusPep.Objects

open Lib

/-! ## 1. The function -/

/-- `xacml_request_t`: the addresses of its subjects, and of the attributes of its environment. -/
structure RequestObject where
  subjects : List Nat
  resources : List XacmlResource
  action : Option XacmlAction
  environment : Option (List Nat)

/-- `strncmp(start,id,strlen(start))==0`. -/
def strncmpPrefix (start : CString) : Option CString → Except ObjectFault Bool
  | none => .error .nullString
  | some id => .ok (start.bytes.isPrefixOf id.bytes)

def xacmlSubjectAddattribute (m : Memory) (s a : Nat) : Except ObjectFault Memory := do
  let subject ← orDangling (m.subjects.read s)
  pure { m with
    subjects := m.subjects.write s { subject with attributes := subject.attributes ++ [a] } }

/-- One branch of the loop: a clone with another id and datatype, added to the subject. -/
def addClone (m : Memory) (s a : Nat) (id datatype : CString) : Except ObjectFault Memory := do
  let (clone, m) ← xacmlAttributeClone m a
  let m ← xacmlAttributeSetid m clone id
  let m ← xacmlAttributeSetdatatype m clone (some datatype)
  xacmlSubjectAddattribute m s clone

/-- The branches. An id that starts with one of the three AuthZ Interop ids is taken for it. -/
def adaptAttribute (m : Memory) (s a : Nat) : Except ObjectFault Memory := do
  let attrId ← m.string a .id
  if ← strncmpPrefix XACML_AUTHZINTEROP_SUBJECT_CERTCHAIN attrId then
    addClone m s a XACML_SUBJECT_KEY_INFO XACML_DATATYPE_STRING
  else if ← strncmpPrefix XACML_AUTHZINTEROP_SUBJECT_VOMS_PRIMARY_FQAN attrId then
    addClone m s a XACML_GRIDWN_ATTRIBUTE_FQAN_PRIMARY XACML_GRIDWN_DATATYPE_FQAN
  else if ← strncmpPrefix XACML_AUTHZINTEROP_SUBJECT_VOMS_FQAN attrId then
    -- the id set is the one of the branch above
    addClone m s a XACML_GRIDWN_ATTRIBUTE_FQAN_PRIMARY XACML_GRIDWN_DATATYPE_FQAN
  else pure m

/-- A round of the loop over a subject: the attribute at an index of the list as it is then. -/
def adaptRound (s : Nat) (m : Memory) (j : Nat) : Except ObjectFault Memory := do
  let subject ← orDangling (m.subjects.read s)
  -- past the end the attribute is NULL, and so is its id
  let a ← subject.attributes[j]?.elim (.error .nullString) .ok
  adaptAttribute m s a

/-- The loop over the attributes of a subject; their number is read before it. -/
def adaptSubject (m : Memory) (s : Nat) : Except ObjectFault Memory := do
  let subject ← orDangling (m.subjects.read s)
  walk (adaptRound s) 0 subject.attributes.length m

/-- A round of the search for the profile id, which goes on behind a hit. -/
def findProfileId (m : Memory) (present : Bool) (a : Nat) : Except ObjectFault Bool := do
  let attrId ← m.string a .id
  if ← strncmpPrefix XACML_GRIDWN_ATTRIBUTE_PROFILE_ID attrId then pure true else pure present

/-- The attribute that names the profile. -/
def profileIdAttribute (m : Memory) : Except ObjectFault (Nat × Memory) := do
  let (a, m) := xacmlAttributeCreate m (some XACML_GRIDWN_ATTRIBUTE_PROFILE_ID)
  let m ← xacmlAttributeSetdatatype m a (some XACML_DATATYPE_ANYURI)
  let m ← xacmlAttributeAddvalue m a XACML_GRIDWN_PROFILE_VERSION
  pure (a, m)

/-- `authzinterop2gridwn_pip_process`: what it returns, and the request and the memory behind it. -/
def authzinterop2gridwnPipProcess (m : Memory) (r : RequestObject) :
    Except ObjectFault (Int × RequestObject × Memory) := do
  let m ← r.subjects.foldlM adaptSubject m
  let environment := r.environment.getD []
  if ← environment.foldlM (findProfileId m) false then
    pure (0, { r with environment := some environment }, m)
  else
    let (a, m) ← profileIdAttribute m
    pure (0, { r with environment := some (environment ++ [a]) }, m)

/-! ## 2. What the objects stand for -/

/-- The subject at `s` is `w`. -/
def SubjectAt (m : Memory) (s : Nat) (w : XacmlSubject) : Prop :=
  ∃ subject, m.subjects.read s = some subject ∧ subject.category = w.category ∧
    List.Forall₂ (AttributeAt m) subject.attributes w.attributes

/-- The environment with these attributes is `env`; NULL is none. -/
structure EnvironmentAt (m : Memory) (environment : Option (List Nat))
    (env : Option XacmlEnvironment) : Prop where
  null : environment = none ↔ env = none
  attributes : List.Forall₂ (AttributeAt m) (environment.getD [])
    (env.getD xacmlEnvironmentCreate).attributes

/-- The request object is `request`. -/
structure RequestAt (m : Memory) (r : RequestObject) (request : XacmlRequest) : Prop where
  subjects : List.Forall₂ (SubjectAt m) r.subjects request.subjects
  resources : r.resources = request.resources
  action : r.action = request.action
  environment : EnvironmentAt m r.environment request.environment

/-- What the memory has besides the subject at `s` stays as it is. -/
structure Elsewhere (s : Nat) (m m' : Memory) : Prop where
  strings : m.strings.Extends m'.strings
  attributes : m.attributes.Extends m'.attributes
  subjects : ∀ q, q ≠ s → m'.subjects.read q = m.subjects.read q

section Standing

variable {m m' m'' : Memory} {s q : Nat} {w w' : XacmlSubject} {attrs : List Nat}
  {vs : List XacmlAttribute}

theorem attributes_mono (hstrings : m.strings.Extends m'.strings)
    (hattributes : m.attributes.Extends m'.attributes)
    (h : List.Forall₂ (AttributeAt m) attrs vs) : List.Forall₂ (AttributeAt m') attrs vs :=
  h.imp fun _ _ ha => ha.mono hstrings hattributes

theorem SubjectAt.unique (h : SubjectAt m s w) (h' : SubjectAt m s w') : w = w' := by
  obtain ⟨subject, hread, hcategory, hattrs⟩ := h
  obtain ⟨subject', hread', hcategory', hattrs'⟩ := h'
  obtain rfl := Option.some.inj (hread.symm.trans hread')
  have hright : Relator.RightUnique (AttributeAt m) := fun _ _ _ ha ha' => ha.unique ha'
  cases w
  cases w'
  obtain rfl := hcategory.symm.trans hcategory'
  obtain rfl := hright.forall₂ hattrs hattrs'
  rfl

theorem Elsewhere.refl (s : Nat) (m : Memory) : Elsewhere s m m :=
  ⟨.refl _, .refl _, fun _ _ => rfl⟩

theorem Elsewhere.trans (h : Elsewhere s m m') (h' : Elsewhere s m' m'') : Elsewhere s m m'' :=
  ⟨h.strings.trans h'.strings, h.attributes.trans h'.attributes,
    fun q hq => (h'.subjects q hq).trans (h.subjects q hq)⟩

theorem Elsewhere.subjectAt (h : Elsewhere s m m') (hq : q ≠ s) (hw : SubjectAt m q w) :
    SubjectAt m' q w := by
  obtain ⟨subject, hread, hcategory, hattrs⟩ := hw
  exact ⟨subject, (h.subjects q hq).trans hread, hcategory,
    attributes_mono h.strings h.attributes hattrs⟩

end Standing

/-! ## 3. A visit -/

section Visit

variable {m m' : Memory} {s a c : Nat} {w : XacmlSubject} {v : XacmlAttribute}

theorem strncmpPrefix_starts (hid : v.id ≠ none) (start : CString) :
    strncmpPrefix start v.id = .ok (idStarts start v) := by
  unfold idStarts
  cases h : v.id with
  | none => exact absurd h hid
  | some id => rfl

/-- A new attribute is the attribute it was made to be. -/
theorem Fresh.attributeAt (h : Fresh m m' c v) : AttributeAt m' c v := by
  obtain ⟨attr, hread, hholds, -⟩ := h.object
  exact ⟨attr, hread, hholds⟩

/-- A new attribute is added to a subject. -/
theorem addattribute_at (hs : SubjectAt m s w) (h : Fresh m m' c v) :
    ∃ m'', xacmlSubjectAddattribute m' s c = .ok m'' ∧ Elsewhere s m m'' ∧
      SubjectAt m'' s (w.addAll [v]) := by
  obtain ⟨subject, hread, hcategory, hattrs⟩ := hs
  rw [← h.subjects] at hread
  have helse : Elsewhere s m { m' with
      subjects := m'.subjects.write s { subject with attributes := subject.attributes ++ [c] } } :=
    ⟨h.strings, h.attributes, fun q hq =>
      (Store.read_write_ne hq _ _).trans (congrArg (Store.read · q) h.subjects)⟩
  unfold xacmlSubjectAddattribute
  rw [hread]
  refine ⟨_, rfl, helse, _, Store.read_write_self hread _, hcategory, ?_⟩
  exact List.rel_append (attributes_mono h.strings h.attributes hattrs)
    (.cons h.attributeAt .nil)

/-- **One branch**: the subject gets the clone, and the original stays as it is. -/
theorem addClone_at (hs : SubjectAt m s w) (ha : AttributeAt m a v) (id datatype : CString) :
    ∃ m', addClone m s a id datatype = .ok m' ∧ Elsewhere s m m' ∧
      SubjectAt m' s (w.addAll [cloneAs v (id, datatype)]) := by
  obtain ⟨c, m₁, hclone, hfresh₁⟩ := xacmlAttributeClone_fresh ha
  obtain ⟨m₂, hid, hfresh₂⟩ := setString_fresh hfresh₁ .id (some id)
  obtain ⟨m₃, hdatatype, hfresh₃⟩ := setString_fresh hfresh₂ .datatype (some datatype)
  obtain ⟨m₄, hadd, helse, hat⟩ := addattribute_at hs hfresh₃
  refine ⟨m₄, ?_, helse, hat⟩
  unfold addClone
  rw [hclone]
  show (setString .id m₁ c (some id) >>= _) = _
  rw [hid]
  show (setString .datatype m₂ c (some datatype) >>= _) = _
  rw [hdatatype]
  exact hadd

theorem addAll_nil (w : XacmlSubject) : w.addAll [] = w := by
  unfold XacmlSubject.addAll
  rw [List.append_nil]

theorem addAll_addAll (w : XacmlSubject) (vs vs' : List XacmlAttribute) :
    (w.addAll vs).addAll vs' = w.addAll (vs ++ vs') := by
  unfold XacmlSubject.addAll
  rw [List.append_assoc]

/-- The branches come to the clone the attribute gets. -/
theorem adaptAttribute_at (hs : SubjectAt m s w) (ha : AttributeAt m a v) (hid : v.id ≠ none) :
    ∃ m', adaptAttribute m s a = .ok m' ∧ Elsewhere s m m' ∧
      SubjectAt m' s (w.addAll (adaptedClone v).toList) := by
  have hstay : ∃ m', Except.ok m = Except.ok (ε := ObjectFault) m' ∧ Elsewhere s m m' ∧
      SubjectAt m' s (w.addAll []) := by
    rw [addAll_nil]
    exact ⟨m, rfl, .refl s m, hs⟩
  unfold adaptAttribute adaptedClone adaptedTo
  rw [string_eq ha]
  show ∃ m', (strncmpPrefix _ v.id >>= _) = .ok m' ∧ _
  simp only [strncmpPrefix_starts hid]
  show ∃ m', (if idStarts _ v then _ else strncmpPrefix _ v.id >>= _) = .ok m' ∧ _
  by_cases hchain : idStarts XACML_AUTHZINTEROP_SUBJECT_CERTCHAIN v
  · rw [if_pos hchain, if_pos hchain]
    exact addClone_at hs ha _ _
  rw [if_neg hchain, if_neg hchain, strncmpPrefix_starts hid]
  show ∃ m', (if idStarts _ v then _ else strncmpPrefix _ v.id >>= _) = .ok m' ∧ _
  by_cases hprimary : idStarts XACML_AUTHZINTEROP_SUBJECT_VOMS_PRIMARY_FQAN v
  · rw [if_pos hprimary, if_pos hprimary]
    exact addClone_at hs ha _ _
  rw [if_neg hprimary, if_neg hprimary, strncmpPrefix_starts hid]
  show ∃ m', (if idStarts _ v then _ else (pure m : Except ObjectFault Memory)) = .ok m' ∧ _
  by_cases hfqan : idStarts XACML_AUTHZINTEROP_SUBJECT_VOMS_FQAN v
  · rw [if_pos hfqan, if_pos hfqan]
    exact addClone_at hs ha _ _
  · rw [if_neg hfqan, if_neg hfqan]
    exact hstay

/-- The subject after the first `j` rounds. -/
def rounds (w : XacmlSubject) (j : Nat) : XacmlSubject :=
  w.addAll ((w.attributes.take j).filterMap adaptedClone)

/-- A round sees the attribute that was there at the start. -/
theorem adaptRound_at {j : Nat} (hj : j < w.attributes.length)
    (hids : ∀ v ∈ w.attributes, v.id ≠ none) (hs : SubjectAt m s (rounds w j)) :
    ∃ m', adaptRound s m j = .ok m' ∧ Elsewhere s m m' ∧ SubjectAt m' s (rounds w (j + 1)) := by
  have hv : (rounds w j).attributes[j]? = some w.attributes[j] := by
    show (w.attributes ++ _)[j]? = _
    rw [List.getElem?_append_left hj, List.getElem?_eq_getElem hj]
  obtain ⟨subject, hread, hcategory, hattrs⟩ := id hs
  obtain ⟨a, ha, hat⟩ := forall₂_getElem? hattrs hv
  obtain ⟨m', hround, helse, hs'⟩ := adaptAttribute_at hs hat (hids _ (List.getElem_mem hj))
  refine ⟨m', ?_, helse, ?_⟩
  · unfold adaptRound
    rw [hread]
    show (subject.attributes[j]?.elim (Except.error ObjectFault.nullString) .ok >>= _) = _
    rw [ha]
    exact hround
  · have hnext : rounds w (j + 1) = (rounds w j).addAll (adaptedClone w.attributes[j]).toList := by
      unfold rounds
      rw [addAll_addAll, List.take_add_one, List.getElem?_eq_getElem hj, List.filterMap_append]
      cases hclone : adaptedClone w.attributes[j] with
      | none => simp [hclone]
      | some clone => simp [hclone]
    rwa [hnext]

/-- **A visit appends the clones of the attributes the subject has when it starts**, and changes
    nothing else. -/
theorem adaptSubject_at (hs : SubjectAt m s w) (hids : ∀ v ∈ w.attributes, v.id ≠ none) :
    ∃ m', adaptSubject m s = .ok m' ∧ Elsewhere s m m' ∧ SubjectAt m' s (adaptedSubject w) := by
  obtain ⟨subject, hread, -, hattrs⟩ := id hs
  have hround : ∀ j m', j < w.attributes.length →
      Elsewhere s m m' ∧ SubjectAt m' s (rounds w j) →
      ∃ m'', adaptRound s m' j = .ok m'' ∧ Elsewhere s m m'' ∧
        SubjectAt m'' s (rounds w (j + 1)) := by
    intro j m' hj h
    obtain ⟨m'', hrun, helse, hs'⟩ := adaptRound_at hj hids h.2
    exact ⟨m'', hrun, h.1.trans helse, hs'⟩
  have hstart : SubjectAt m s (rounds w 0) := by
    rwa [show rounds w 0 = w from addAll_nil w]
  obtain ⟨m', hloop, helse, hs'⟩ := walk_keeps hround ⟨.refl s m, hstart⟩
  refine ⟨m', ?_, helse, ?_⟩
  · unfold adaptSubject
    rw [hread]
    show walk (adaptRound s) 0 subject.attributes.length m = _
    rw [hattrs.length_eq]
    exact hloop
  · rwa [rounds, List.take_length] at hs'

end Visit

/-! ## 4. The whole run -/

/-- The memory behind the loop over the subjects: a subject that stands `n` times in the list has its
    clones `n` times more, and everything else is there. -/
structure Visited (subjects : List Nat) (m m' : Memory) : Prop where
  strings : m.strings.Extends m'.strings
  attributes : m.attributes.Extends m'.attributes
  subjects : ∀ s (w : XacmlSubject) k, SubjectAt m s (w.repeated k) →
    SubjectAt m' s (w.repeated (k + subjects.count s))

/-- The subject is there, and its attributes have ids. -/
def Visitable (m : Memory) (s : Nat) : Prop :=
  ∃ w, SubjectAt m s w ∧ ∀ v ∈ w.attributes, v.id ≠ none

section Run

variable {m m' : Memory} {s a : Nat} {subjects attrs : List Nat} {w : XacmlSubject}
  {r : RequestObject} {request : XacmlRequest}

/-- The loop over the subjects, by induction on what is left of the list. -/
theorem visits (h : ∀ s ∈ subjects, Visitable m s) :
    ∃ m', subjects.foldlM adaptSubject m = .ok m' ∧ Visited subjects m m' := by
  induction subjects generalizing m with
  | nil => exact ⟨m, rfl, .refl _, .refl _, fun _ _ _ hs => hs⟩
  | cons x subjects ih =>
    obtain ⟨u, hu, hids⟩ := h x List.mem_cons_self
    obtain ⟨m₁, hvisit, helse, hat⟩ := adaptSubject_at hu hids
    have hrest : ∀ s ∈ subjects, Visitable m₁ s := by
      intro s hs
      by_cases hsx : s = x
      · exact hsx ▸ ⟨_, hat, adaptedSubject_ids hids⟩
      · obtain ⟨w, hw, hwids⟩ := h s (List.mem_cons_of_mem _ hs)
        exact ⟨w, helse.subjectAt hsx hw, hwids⟩
    obtain ⟨m', hrun, hvisited⟩ := ih hrest
    refine ⟨m', ?_, helse.strings.trans hvisited.strings,
      helse.attributes.trans hvisited.attributes, fun s w k hs => ?_⟩
    · rw [List.foldlM_cons, hvisit]
      exact hrun
    · by_cases hsx : s = x
      · subst hsx
        obtain rfl := hu.unique hs
        rw [adaptedSubject_repeated] at hat
        rw [List.count_cons_self, show k + (subjects.count s + 1) = k + 1 + subjects.count s by omega]
        exact hvisited.subjects s w (k + 1) hat
      · rw [List.count_cons_of_ne (Ne.symm hsx)]
        exact hvisited.subjects s w k (helse.subjectAt hsx hs)

theorem findProfileId_at {vs : List XacmlAttribute} (hattrs : List.Forall₂ (AttributeAt m) attrs vs)
    (hids : ∀ v ∈ vs, v.id ≠ none) (present : Bool) :
    attrs.foldlM (findProfileId m) present =
      .ok (present || vs.any (idStarts XACML_GRIDWN_ATTRIBUTE_PROFILE_ID)) := by
  induction hattrs generalizing present with
  | nil => exact congrArg Except.ok (Bool.or_false present).symm
  | @cons a v attrs vs ha _ ih =>
    have hround : findProfileId m present a =
        .ok (present || idStarts XACML_GRIDWN_ATTRIBUTE_PROFILE_ID v) := by
      unfold findProfileId
      rw [string_eq ha]
      show (strncmpPrefix _ v.id >>= _) = _
      rw [strncmpPrefix_starts (hids v List.mem_cons_self)]
      cases idStarts XACML_GRIDWN_ATTRIBUTE_PROFILE_ID v with
      | true => exact congrArg Except.ok (Bool.or_true present).symm
      | false => exact congrArg Except.ok (Bool.or_false present).symm
    rw [List.foldlM_cons, hround, List.any_cons, ← Bool.or_assoc]
    exact ih (fun v hv => hids v (List.mem_cons_of_mem _ hv)) _

theorem profileIdAttribute_fresh (m : Memory) :
    ∃ a m', Objects.profileIdAttribute m = .ok (a, m') ∧
      Fresh m m' a ArgusPep.profileIdAttribute := by
  have hcreate := xacmlAttributeCreate_fresh m (some XACML_GRIDWN_ATTRIBUTE_PROFILE_ID)
  obtain ⟨m₁, hdatatype, hfresh₁⟩ :=
    setString_fresh hcreate .datatype (some XACML_DATATYPE_ANYURI)
  obtain ⟨m₂, hvalue, hfresh₂⟩ := addvalue_fresh hfresh₁ XACML_GRIDWN_PROFILE_VERSION
  refine ⟨_, m₂, ?_, hfresh₂⟩
  unfold Objects.profileIdAttribute
  show (setString .datatype (xacmlAttributeCreate m (some XACML_GRIDWN_ATTRIBUTE_PROFILE_ID)).2
    (xacmlAttributeCreate m (some XACML_GRIDWN_ATTRIBUTE_PROFILE_ID)).1
    (some XACML_DATATYPE_ANYURI) >>= _) = _
  rw [hdatatype]
  show (xacmlAttributeAddvalue m₁
    (xacmlAttributeCreate m (some XACML_GRIDWN_ATTRIBUTE_PROFILE_ID)).1 _ >>= _) = _
  rw [hvalue]
  rfl

/-- The subjects of a request can be visited. -/
theorem RequestAt.visitable (h : RequestAt m r request) (hids : IdsPresent request) :
    ∀ s ∈ r.subjects, Visitable m s := by
  intro s hs
  obtain ⟨i, hi⟩ := List.mem_iff_getElem?.mp hs
  obtain ⟨hlt, rfl⟩ := List.getElem?_eq_some_iff.mp hi
  have hlt' : i < request.subjects.length := h.subjects.length_eq ▸ hlt
  exact ⟨_, h.subjects.get hlt hlt', hids.subjects _ (List.getElem_mem hlt')⟩

/-- What the run leaves: the subjects visited, and the environment adapted. -/
structure Adapted (m : Memory) (r : RequestObject) (request : XacmlRequest) (m' : Memory)
    (r' : RequestObject) : Prop where
  visited : Visited r.subjects m m'
  subjects : r'.subjects = r.subjects
  resources : r'.resources = r.resources
  action : r'.action = r.action
  /-- The list of the environment is kept, where it names a profile. -/
  kept : HasProfileId (request.environment.getD xacmlEnvironmentCreate) →
    r'.environment = some (r.environment.getD [])
  environment : ∃ env',
    adaptEnvironment (request.environment.getD xacmlEnvironmentCreate) = .ok env' ∧
      EnvironmentAt m' r'.environment (some env')

/-- **A run of the PIP does not fail, and returns 0.** -/
theorem pipProcess_at (h : RequestAt m r request) (hids : IdsPresent request) :
    ∃ r' m', authzinterop2gridwnPipProcess m r = .ok (0, r', m') ∧ Adapted m r request m' r' := by
  obtain ⟨m₁, hvisits, hvisited⟩ := visits (h.visitable hids)
  have henv := environment_ids hids
  have hattrs := attributes_mono hvisited.strings hvisited.attributes h.environment.attributes
  have hpresent := findProfileId_at hattrs henv false
  unfold authzinterop2gridwnPipProcess
  rw [hvisits]
  show ∃ r' m', ((r.environment.getD []).foldlM (findProfileId m₁) false >>= _) = .ok (0, r', m') ∧ _
  rw [hpresent, Bool.false_or]
  rcases adaptEnvironment_eq henv with ⟨hhas, hadapt⟩ | ⟨hnot, hadapt⟩
  · unfold HasProfileId at hhas
    rw [hhas]
    refine ⟨_, _, rfl, hvisited, rfl, rfl, rfl, fun _ => rfl, _, hadapt, ?_, hattrs⟩
    exact iff_of_false (Option.some_ne_none _) (Option.some_ne_none _)
  · obtain ⟨a, m₂, hattribute, hfresh⟩ := profileIdAttribute_fresh m₁
    unfold HasProfileId at hnot
    rw [Bool.not_eq_true] at hnot
    rw [hnot]
    show ∃ r' m', (Objects.profileIdAttribute m₁ >>= _) = .ok (0, r', m') ∧ _
    rw [hattribute]
    refine ⟨_, _, rfl, ⟨hvisited.strings.trans hfresh.strings,
      hvisited.attributes.trans hfresh.attributes, fun s w k hs => ?_⟩, rfl, rfl, rfl,
      fun hhas => absurd hhas (by unfold HasProfileId; rw [hnot]; exact Bool.false_ne_true),
      _, hadapt, iff_of_false (Option.some_ne_none _) (Option.some_ne_none _), ?_⟩
    · obtain ⟨subject, hread, hcategory, hat⟩ := hvisited.subjects s w k hs
      exact ⟨subject, by rw [hfresh.subjects]; exact hread, hcategory,
        attributes_mono hfresh.strings hfresh.attributes hat⟩
    · exact List.rel_append (attributes_mono hfresh.strings hfresh.attributes hattrs)
        (.cons hfresh.attributeAt .nil)

theorem repeated_zero (w : XacmlSubject) : w.repeated 0 = w := addAll_nil w

theorem repeated_one (w : XacmlSubject) : w.repeated 1 = adaptedSubject w := by
  unfold XacmlSubject.repeated adaptedSubject
  rw [List.replicate_one, List.flatten_singleton]

/-- A subject that stands `n` times in the list has its clones `n` times. -/
theorem Visited.counted (h : Visited subjects m m') (hs : SubjectAt m s w) :
    SubjectAt m' s (w.repeated (subjects.count s)) := by
  rw [← repeated_zero w] at hs
  rw [← Nat.zero_add (subjects.count s)]
  exact h.subjects s w 0 hs

/-- What is there afterwards is a request again, and its attributes have ids. -/
theorem Adapted.requestAt {r' : RequestObject} (hadapted : Adapted m r request m' r')
    (h : RequestAt m r request) (hids : IdsPresent request) :
    ∃ request', RequestAt m' r' request' ∧ IdsPresent request' ∧
      HasProfileId (request'.environment.getD xacmlEnvironmentCreate) := by
  obtain ⟨env', hadapt, henv⟩ := hadapted.environment
  have hgrows := adaptEnvironment_grows (environment_ids hids) hadapt
  obtain ⟨subjects', hsubjects, hids'⟩ : ∃ subjects' : List XacmlSubject,
      List.Forall₂ (SubjectAt m') r.subjects subjects' ∧
      ∀ w ∈ subjects', ∀ v ∈ w.attributes, v.id ≠ none := by
    refine exists_forall₂ fun s hs => ?_
    obtain ⟨w, hw, hwids⟩ := h.visitable hids s hs
    exact ⟨_, hadapted.visited.counted hw, repeated_ids _ hwids⟩
  refine ⟨⟨subjects', request.resources, request.action, some env'⟩, ⟨?_, ?_, ?_, henv⟩,
    ⟨hids', fun env he => ?_⟩, List.any_eq_true.mpr hgrows.profileId⟩
  · rw [hadapted.subjects]
    exact hsubjects
  · exact hadapted.resources.trans h.resources
  · exact hadapted.action.trans h.action
  · obtain rfl := Option.some.inj he
    exact adaptEnvironment_ids (environment_ids hids) hadapt

/-- Where no subject stands twice, the run is the one on values. -/
theorem pipProcess_refines (h : RequestAt m r request) (hids : IdsPresent request)
    (hdistinct : r.subjects.Nodup) :
    ∃ r' m' request', authzinterop2gridwnPipProcess m r = .ok (0, r', m') ∧
      RequestAt m' r' request' ∧
      ArgusPep.authzinterop2gridwnPipProcess request = .ok (0, request') := by
  obtain ⟨r', m', hrun, hadapted⟩ := pipProcess_at h hids
  obtain ⟨env', hadapt, henv⟩ := hadapted.environment
  obtain ⟨env, hadapt', hvalues⟩ := authzinterop2gridwnPipProcess_eq hids
  obtain rfl := Except.ok.inj (hadapt.symm.trans hadapt')
  have hrest := And.intro (hadapted.resources.trans h.resources) (hadapted.action.trans h.action)
  refine ⟨r', m', ⟨request.subjects.map adaptedSubject, request.resources, request.action, some env'⟩,
    hrun, ⟨?_, hrest.1, hrest.2, henv⟩, hvalues⟩
  rw [hadapted.subjects, List.forall₂_map_right_iff]
  have hmem := (@List.forall₂_and_left _ _ _ (· ∈ r.subjects) _ _).mpr
    ⟨fun s hs => hs, h.subjects⟩
  refine hmem.imp fun s w hs => ?_
  have hcounted := hadapted.visited.counted hs.2
  rwa [List.count_eq_one_of_mem hdistinct hs.1, repeated_one] at hcounted

end Run

/-! ## 5. The PIP only adds -/

/-- The request is kept and added to; the subject at `s` gets its clones `times s` times. -/
structure OnlyAdds (times : Nat → Nat) (m : Memory) (r : RequestObject) (request : XacmlRequest)
    (m' : Memory) (r' : RequestObject) : Prop where
  subjects : r'.subjects = r.subjects
  grown : ∀ s ∈ r.subjects, ∀ w, SubjectAt m s w →
    ∃ w', SubjectAt m' s w' ∧ SubjectOnlyGrows (times s) w w'
  /-- Every attribute there was is as it was. -/
  originals : ∀ a v, AttributeAt m a v → AttributeAt m' a v
  resources : r'.resources = r.resources
  action : r'.action = r.action
  /-- Where there is no environment, a new one is taken. -/
  environment : ∃ env', EnvironmentAt m' r'.environment (some env') ∧
    EnvironmentOnlyGrows (request.environment.getD ⟨[]⟩) env'

/-- **The PIP adapter only adds**, to a subject as often as it stands in the request; and run again
    it adds nothing to the environment. -/
theorem pipProcess_onlyAdds (m : Memory) (r : RequestObject) (request : XacmlRequest)
    (h : RequestAt m r request) (hids : IdsPresent request) :
    ∃ r' m', authzinterop2gridwnPipProcess m r = .ok (0, r', m') ∧
      OnlyAdds (fun s => r.subjects.count s) m r request m' r' ∧
      ∃ r'' m'', authzinterop2gridwnPipProcess m' r' = .ok (0, r'', m'') ∧
        r''.environment = r'.environment ∧
        ∀ env, EnvironmentAt m' r'.environment env → EnvironmentAt m'' r''.environment env := by
  obtain ⟨r', m', hrun, hadapted⟩ := pipProcess_at h hids
  obtain ⟨env', hadapt, henv⟩ := hadapted.environment
  refine ⟨r', m', hrun, ⟨hadapted.subjects, fun s _ w hs => ?_, fun a v ha => ?_,
    hadapted.resources, hadapted.action, env', henv,
    adaptEnvironment_grows (environment_ids hids) hadapt⟩, ?_⟩
  · exact ⟨_, hadapted.visited.counted hs, repeated_grows _ w⟩
  · exact ha.mono hadapted.visited.strings hadapted.visited.attributes
  · obtain ⟨request', h', hids', hhas⟩ := hadapted.requestAt h hids
    obtain ⟨r'', m'', hrun', hadapted'⟩ := pipProcess_at h' hids'
    have hsame : r''.environment = r'.environment := by
      rw [hadapted'.kept hhas]
      cases hr : r'.environment with
      | none => cases henv.null.mp hr
      | some list => rfl
    refine ⟨r'', m'', hrun', hsame, fun env henv => ?_⟩
    rw [hsame]
    exact ⟨henv.null, attributes_mono hadapted'.visited.strings hadapted'.visited.attributes
      henv.attributes⟩

/-- A subject with one attribute, which has the id `id` and one value. -/
def memoryNaming (id : CString) : Memory where
  strings := ⟨[some id, some (CString.lit "/vo/Role=x")]⟩
  attributes := ⟨[some ⟨Function.update (fun _ => none) .id (some 0), [1]⟩]⟩
  subjects := ⟨[some ⟨none, [0]⟩]⟩

/-- A request in which that subject stands `n` times. -/
def naming (n : Nat) : RequestObject := ⟨List.replicate n 0, [], none, none⟩

/-- The attribute, the subject and the request they stand for. -/
def attributeNaming (id : CString) : XacmlAttribute :=
  ⟨some id, none, none, [CString.lit "/vo/Role=x"]⟩

def subjectNaming (id : CString) : XacmlSubject := ⟨none, [attributeNaming id]⟩

def requestRepeating (n : Nat) (id : CString) : XacmlRequest :=
  ⟨List.replicate n (subjectNaming id), [], none, none⟩

theorem subjectNaming_at (id : CString) : SubjectAt (memoryNaming id) 0 (subjectNaming id) := by
  refine ⟨_, rfl, rfl, .cons ⟨_, rfl, fun field => ?_, .cons rfl .nil⟩ .nil⟩
  cases field <;> rfl

theorem requestRepeating_at (n : Nat) (id : CString) :
    RequestAt (memoryNaming id) (naming n) (requestRepeating n id) := by
  refine ⟨?_, rfl, rfl, ⟨iff_of_true rfl rfl, .nil⟩⟩
  show List.Forall₂ _ (List.replicate n 0) (List.replicate n (subjectNaming id))
  induction n with
  | zero => exact .nil
  | succ n ih => exact .cons (subjectNaming_at id) ih

theorem requestRepeating_ids (n : Nat) (id : CString) : IdsPresent (requestRepeating n id) := by
  refine ⟨fun w hw v hv => ?_, fun env he => by cases he⟩
  rw [List.eq_of_mem_replicate hw] at hv
  rw [List.mem_singleton.mp hv]
  exact Option.some_ne_none _

/-- A subject that stands in the request twice. -/
theorem pipProcess_onlyAdds_twice :
    ∃ r' m', authzinterop2gridwnPipProcess (memoryNaming XACML_AUTHZINTEROP_SUBJECT_VOMS_FQAN)
        (naming 2) = .ok (0, r', m') ∧
      OnlyAdds (fun s => (naming 2).subjects.count s)
        (memoryNaming XACML_AUTHZINTEROP_SUBJECT_VOMS_FQAN) (naming 2)
        (requestRepeating 2 XACML_AUTHZINTEROP_SUBJECT_VOMS_FQAN) m' r' := by
  obtain ⟨r', m', hrun, hadds, -⟩ :=
    pipProcess_onlyAdds _ _ _ (requestRepeating_at 2 _) (requestRepeating_ids 2 _)
  exact ⟨r', m', hrun, hadds⟩

/-- It gets the clone of its one attribute twice. -/
theorem pipProcess_clones_twice :
    RequestAt (memoryNaming XACML_AUTHZINTEROP_SUBJECT_VOMS_FQAN) (naming 2)
      (requestRepeating 2 XACML_AUTHZINTEROP_SUBJECT_VOMS_FQAN) ∧
    IdsPresent (requestRepeating 2 XACML_AUTHZINTEROP_SUBJECT_VOMS_FQAN) ∧
    ∃ r' m', authzinterop2gridwnPipProcess (memoryNaming XACML_AUTHZINTEROP_SUBJECT_VOMS_FQAN)
        (naming 2) = .ok (0, r', m') ∧
      (∃ w', SubjectAt m' 0 w' ∧ w'.attributes.length = 3) ∧
      ¬OnlyAdds (fun _ => 1) (memoryNaming XACML_AUTHZINTEROP_SUBJECT_VOMS_FQAN) (naming 2)
        (requestRepeating 2 XACML_AUTHZINTEROP_SUBJECT_VOMS_FQAN) m' r' := by
  obtain ⟨r', m', hrun, hadapted⟩ :=
    pipProcess_at (requestRepeating_at 2 XACML_AUTHZINTEROP_SUBJECT_VOMS_FQAN)
      (requestRepeating_ids 2 _)
  have htwice : SubjectAt m' 0 ((subjectNaming XACML_AUTHZINTEROP_SUBJECT_VOMS_FQAN).repeated 2) :=
    hadapted.visited.counted (subjectNaming_at _)
  have hlength : ((subjectNaming XACML_AUTHZINTEROP_SUBJECT_VOMS_FQAN).repeated 2).attributes.length
      = 3 := by decide
  refine ⟨requestRepeating_at 2 _, requestRepeating_ids 2 _, r', m', hrun, ⟨_, htwice, hlength⟩,
    fun hadds => ?_⟩
  obtain ⟨w', hw', hgrows⟩ := hadds.grown 0 List.mem_cons_self _ (subjectNaming_at _)
  obtain rfl := htwice.unique hw'
  obtain ⟨added, hadded, hclones⟩ := hgrows.attributes
  have hone : added.length = 1 := hclones.length_eq.symm.trans (by decide)
  rw [hadded, List.length_append, hone] at hlength
  revert hlength
  decide

/-! ## 6. The documented counterparts -/

/-- Each subject of the request has the documented clones behind its attributes. -/
def Documented (m : Memory) (r : RequestObject) (m' : Memory) : Prop :=
  ∀ s ∈ r.subjects, ∀ w, SubjectAt m s w → ∃ w', SubjectAt m' s w' ∧ DocumentedSubject w w'

/-- **The attributes get their documented counterparts exactly when** every id is plain, and no
    subject stands twice in which something is looked for. -/
theorem pipProcess_documented_iff (m : Memory) (r : RequestObject) (request : XacmlRequest)
    (h : RequestAt m r request) (hids : IdsPresent request) :
    (∃ r' m', authzinterop2gridwnPipProcess m r = .ok (0, r', m') ∧ r'.subjects = r.subjects ∧
      Documented m r m') ↔
    ∀ s ∈ r.subjects, ∀ w, SubjectAt m s w → (∀ v ∈ w.attributes, PlainId v) ∧
      (r.subjects.count s = 1 ∨ ∀ v ∈ w.attributes, looksFor v = false) := by
  obtain ⟨r', m', hrun, hadapted⟩ := pipProcess_at h hids
  have hdocumented : Documented m r m' ↔ ∀ s ∈ r.subjects, ∀ w, SubjectAt m s w →
      (∀ v ∈ w.attributes, PlainId v) ∧
        (r.subjects.count s = 1 ∨ ∀ v ∈ w.attributes, looksFor v = false) := by
    refine forall₂_congr fun s hs => forall₂_congr fun w hw => ?_
    rw [← repeated_documented_iff (List.count_pos_iff.mpr hs) w]
    have hcounted := hadapted.visited.counted hw
    constructor
    · intro hdoc
      obtain ⟨w', hw', hdoc⟩ := hdoc
      obtain rfl := hcounted.unique hw'
      exact hdoc
    · exact fun hdoc => ⟨_, hcounted, hdoc⟩
  rw [← hdocumented]
  constructor
  · intro hall
    obtain ⟨r'', m'', hrun', -, hdoc⟩ := hall
    have hsame := Except.ok.inj (hrun.symm.trans hrun')
    obtain ⟨-, hsame⟩ := Prod.mk.inj hsame
    obtain ⟨-, rfl⟩ := Prod.mk.inj hsame
    exact hdoc
  · exact fun hdoc => ⟨r', m', hrun, hadapted.subjects, hdoc⟩

/-- The id of a certificate chain is plain. -/
theorem pipProcess_documented_certchain :
    ∃ r' m', authzinterop2gridwnPipProcess (memoryNaming XACML_AUTHZINTEROP_SUBJECT_CERTCHAIN)
        (naming 1) = .ok (0, r', m') ∧ r'.subjects = (naming 1).subjects ∧
      Documented (memoryNaming XACML_AUTHZINTEROP_SUBJECT_CERTCHAIN) (naming 1) m' := by
  refine (pipProcess_documented_iff _ _ _ (requestRepeating_at 1 _)
    (requestRepeating_ids 1 _)).mpr fun s hs w hw => ?_
  obtain rfl := List.mem_singleton.mp hs
  obtain rfl := (subjectNaming_at _).unique hw
  refine ⟨fun v hv => ?_, .inl rfl⟩
  obtain rfl := List.mem_singleton.mp hv
  exact ⟨by decide, fun _ => rfl, by decide⟩

/-- A secondary FQAN gets a clone with the id of a primary one. -/
theorem pipProcess_promotes_fqan :
    RequestAt (memoryNaming XACML_AUTHZINTEROP_SUBJECT_VOMS_FQAN) (naming 1)
      (requestRepeating 1 XACML_AUTHZINTEROP_SUBJECT_VOMS_FQAN) ∧
    IdsPresent (requestRepeating 1 XACML_AUTHZINTEROP_SUBJECT_VOMS_FQAN) ∧
    ∃ r' m' w', authzinterop2gridwnPipProcess (memoryNaming XACML_AUTHZINTEROP_SUBJECT_VOMS_FQAN)
        (naming 1) = .ok (0, r', m') ∧
      SubjectAt m' 0 w' ∧ w'.attributes.map XacmlAttribute.id =
        [some XACML_AUTHZINTEROP_SUBJECT_VOMS_FQAN, some XACML_GRIDWN_ATTRIBUTE_FQAN_PRIMARY] ∧
      ¬Documented (memoryNaming XACML_AUTHZINTEROP_SUBJECT_VOMS_FQAN) (naming 1) m' := by
  obtain ⟨r', m', hrun, hadapted⟩ :=
    pipProcess_at (requestRepeating_at 1 XACML_AUTHZINTEROP_SUBJECT_VOMS_FQAN)
      (requestRepeating_ids 1 _)
  have honce : SubjectAt m' 0 ((subjectNaming XACML_AUTHZINTEROP_SUBJECT_VOMS_FQAN).repeated 1) :=
    hadapted.visited.counted (subjectNaming_at _)
  refine ⟨requestRepeating_at 1 _, requestRepeating_ids 1 _, r', m', _, hrun, honce, by decide,
    fun hdoc => ?_⟩
  obtain ⟨w', hw', hsubject⟩ := hdoc 0 List.mem_cons_self _ (subjectNaming_at _)
  obtain rfl := honce.unique hw'
  exact absurd hsubject.attributes (by decide)

end ArgusPep.Objects
