/-
  File:      ArgusPep/Argus/OwnedStrings.lean
  Subject:   Who owns the strings of the XACML objects, through create, set and delete.

  `xacml_subject_setcategory` and `xacml_resource_setcontent` free the string they hold and, given
  NULL, leave the pointer to it. The other setters set the pointer to NULL or refuse NULL.

  * `World` -- the objects created, their `char *` fields, and the strings allocated and freed;
  * `setRequired`, `setOptional`, `setUncleared` -- the three bodies the twelve setters have;
  * `Meaning` -- what a caller is promised: the last string set, or NULL;
  * `Sound` -- after each call the fields own their strings, the getters give what is promised, and
    deleting an object leaves each of its strings released exactly once;
  * `inv_call`, `inv_run` -- the step of the invariant `Inv`, and the run;
  * **`sound_iff`** -- calls are sound exactly if no NULL is set as a category or a content behind a
    string.
-/
import Mathlib.Data.List.Induction
import ArgusPep.Lib.Slots
import ArgusPep.Argus.Xacml

namespace ArgusPep.Owned

open Lib Lib.Slots Function

/-! ## 1. The objects and their strings -/

/-- The structures with `char *` fields. -/
inductive ObjectKind where
  | attr | subject | resource | result | status | statuscode | obligation | attributeassignment
deriving DecidableEq, Repr

/-- The `char *` fields. -/
inductive StringField where
  | attributeId | attributeDatatype | attributeIssuer
  | subjectCategory
  | resourceContent
  | resultResourceid
  | statusMessage
  | statuscodeValue
  | obligationId
  | attributeassignmentId | attributeassignmentDatatype | attributeassignmentValue
deriving DecidableEq, Repr

/-- The structure a field is part of. -/
def StringField.kind : StringField → ObjectKind
  | .attributeId | .attributeDatatype | .attributeIssuer => .attr
  | .subjectCategory => .subject
  | .resourceContent => .resource
  | .resultResourceid => .result
  | .statusMessage => .status
  | .statuscodeValue => .statuscode
  | .obligationId => .obligation
  | .attributeassignmentId | .attributeassignmentDatatype | .attributeassignmentValue =>
    .attributeassignment

/-- A field of the object with a number. -/
abbrev Slot := Nat × StringField

structure World where
  /-- The objects, by the order they were created in. -/
  kinds : List ObjectKind
  pointer : Slot → Option Nat
  strings : Heap Slot CString

namespace World

def start : World := ⟨[], fun _ => none, Heap.empty⟩

/-- `if (p != NULL) free(p)`. -/
def free (w : World) (k : Slot) : World := { w with strings := w.strings.release (w.pointer k) }

/-- `p= NULL`. -/
def setNull (w : World) (k : Slot) : World := { w with pointer := update w.pointer k none }

/-- `p= calloc(size + 1,sizeof(char))`, granted, and `strncpy(p,text,size)`. -/
def copy (w : World) (k : Slot) (text : CString) : World :=
  { w with
    pointer := update w.pointer k (some w.strings.made.length)
    strings := w.strings.make k text }

end World

/-! ## 2. Setters -/

/-- A setter that refuses NULL: `none` is PEP_XACML_ERROR. -/
def setRequired (field : StringField) (w : World) (n : Nat) : Option CString → Option World
  | none => none
  | some text => some ((w.free (n, field)).copy (n, field) text)

/-- A setter that takes NULL, and sets the pointer to NULL behind the `free`. -/
def setOptional (field : StringField) (w : World) (n : Nat) (value : Option CString) :
    Option World :=
  let w := (w.free (n, field)).setNull (n, field)
  some (match value with
    | none => w
    | some text => w.copy (n, field) text)

/-- A setter that takes NULL, and leaves the pointer behind the `free` as it is. -/
def setUncleared (field : StringField) (w : World) (n : Nat) (value : Option CString) :
    Option World :=
  let w := w.free (n, field)
  some (match value with
    | none => w
    | some text => w.copy (n, field) text)

abbrev xacmlAttributeSetid := setRequired .attributeId
abbrev xacmlAttributeSetdatatype := setOptional .attributeDatatype
abbrev xacmlAttributeSetissuer := setOptional .attributeIssuer
abbrev xacmlSubjectSetcategory := setUncleared .subjectCategory
abbrev xacmlResourceSetcontent := setUncleared .resourceContent
abbrev xacmlResultSetresourceid := setOptional .resultResourceid
abbrev xacmlStatusSetmessage := setRequired .statusMessage
abbrev xacmlStatuscodeSetvalue := setRequired .statuscodeValue
abbrev xacmlObligationSetid := setRequired .obligationId
abbrev xacmlAttributeassignmentSetid := setRequired .attributeassignmentId
abbrev xacmlAttributeassignmentSetdatatype := setOptional .attributeassignmentDatatype
abbrev xacmlAttributeassignmentSetvalue := setOptional .attributeassignmentValue

def StringField.setter : StringField → World → Nat → Option CString → Option World
  | .attributeId => xacmlAttributeSetid
  | .attributeDatatype => xacmlAttributeSetdatatype
  | .attributeIssuer => xacmlAttributeSetissuer
  | .subjectCategory => xacmlSubjectSetcategory
  | .resourceContent => xacmlResourceSetcontent
  | .resultResourceid => xacmlResultSetresourceid
  | .statusMessage => xacmlStatusSetmessage
  | .statuscodeValue => xacmlStatuscodeSetvalue
  | .obligationId => xacmlObligationSetid
  | .attributeassignmentId => xacmlAttributeassignmentSetid
  | .attributeassignmentDatatype => xacmlAttributeassignmentSetdatatype
  | .attributeassignmentValue => xacmlAttributeassignmentSetvalue

/-- The fields whose setters refuse NULL. -/
def StringField.Required : StringField → Bool
  | .attributeId | .statusMessage | .statuscodeValue | .obligationId
  | .attributeassignmentId => true
  | _ => false

/-- The fields whose setters leave the pointer as it is. -/
def StringField.Uncleared : StringField → Bool
  | .subjectCategory | .resourceContent => true
  | _ => false

/-- `xacml_attribute_getid` and the other getters. -/
def getString (field : StringField) (w : World) (n : Nat) : Option CString :=
  (w.pointer (n, field)).bind w.strings.read

/-! ## 3. Create and delete -/

/-- A new object, zeroed by `calloc`. -/
def createObject (kind : ObjectKind) (w : World) : World := { w with kinds := w.kinds ++ [kind] }

/-- A new object with the string it is given, if any, in a field. -/
def createWith (kind : ObjectKind) (field : StringField) (w : World) (text : Option CString) :
    World :=
  match text with
  | none => createObject kind w
  | some text => (createObject kind w).copy (w.kinds.length, field) text

abbrev xacmlAttributeCreate := createWith .attr .attributeId
abbrev xacmlSubjectCreate := createObject .subject
abbrev xacmlResourceCreate := createObject .resource
abbrev xacmlResultCreate := createObject .result
abbrev xacmlStatusCreate := createWith .status .statusMessage
abbrev xacmlStatuscodeCreate := createWith .statuscode .statuscodeValue
abbrev xacmlObligationCreate := createWith .obligation .obligationId
abbrev xacmlAttributeassignmentCreate := createWith .attributeassignment .attributeassignmentId

/-- The field a create function stores its argument in. -/
def ObjectKind.named : ObjectKind → Option StringField
  | .attr => some .attributeId
  | .status => some .statusMessage
  | .statuscode => some .statuscodeValue
  | .obligation => some .obligationId
  | .attributeassignment => some .attributeassignmentId
  | .subject | .resource | .result => none

def ObjectKind.create : ObjectKind → World → Option CString → World
  | .attr, w, id => xacmlAttributeCreate w id
  | .subject, w, _ => xacmlSubjectCreate w
  | .resource, w, _ => xacmlResourceCreate w
  | .result, w, _ => xacmlResultCreate w
  | .status, w, message => xacmlStatusCreate w message
  | .statuscode, w, value => xacmlStatuscodeCreate w value
  | .obligation, w, id => xacmlObligationCreate w id
  | .attributeassignment, w, id => xacmlAttributeassignmentCreate w id

/-- The strings of an object are freed, those that are not NULL. -/
def deleteStrings (fields : List StringField) (w : World) (n : Nat) : World :=
  { w with strings := w.strings.releaseAll w.pointer (fields.map fun field => (n, field)) }

abbrev xacmlAttributeDelete :=
  deleteStrings [.attributeId, .attributeDatatype, .attributeIssuer]
abbrev xacmlSubjectDelete := deleteStrings [.subjectCategory]
abbrev xacmlResourceDelete := deleteStrings [.resourceContent]
abbrev xacmlResultDelete := deleteStrings [.resultResourceid]
abbrev xacmlStatusDelete := deleteStrings [.statusMessage]
abbrev xacmlStatuscodeDelete := deleteStrings [.statuscodeValue]
abbrev xacmlObligationDelete := deleteStrings [.obligationId]
abbrev xacmlAttributeassignmentDelete :=
  deleteStrings [.attributeassignmentId, .attributeassignmentDatatype, .attributeassignmentValue]

def ObjectKind.delete : ObjectKind → World → Nat → World
  | .attr => xacmlAttributeDelete
  | .subject => xacmlSubjectDelete
  | .resource => xacmlResourceDelete
  | .result => xacmlResultDelete
  | .status => xacmlStatusDelete
  | .statuscode => xacmlStatuscodeDelete
  | .obligation => xacmlObligationDelete
  | .attributeassignment => xacmlAttributeassignmentDelete

/-! ## 4. Calls -/

inductive Call where
  /-- A create function; `text` is its argument, where it has one. -/
  | create (kind : ObjectKind) (text : Option CString)
  /-- The setter of a field, on the object with a number. -/
  | set (object : Nat) (field : StringField) (value : Option CString)
deriving DecidableEq

/-- A call. A setter can be given no object but one of its structure: anything else stands for a
    NULL pointer, which every setter refuses. -/
def World.call (w : World) : Call → World
  | .create kind text => kind.create w text
  | .set n field value =>
    if w.kinds[n]? = some field.kind then (field.setter w n value).getD w else w

def World.run (w : World) (calls : List Call) : World := calls.foldl World.call w

/-- What a caller is promised: each field is the last string that was set, or NULL. -/
structure Meaning where
  kinds : List ObjectKind
  values : Slot → Option CString

namespace Meaning

def start : Meaning := ⟨[], fun _ => none⟩

def call (s : Meaning) : Call → Meaning
  | .create kind text =>
    { kinds := s.kinds ++ [kind]
      values := match kind.named with
        | some field => update s.values (s.kinds.length, field) text
        | none => s.values }
  | .set n field value =>
    if s.kinds[n]? = some field.kind ∧ ¬ (field.Required = true ∧ value = none) then
      { s with values := update s.values (n, field) value }
    else s

def run (s : Meaning) (calls : List Call) : Meaning := calls.foldl call s

end Meaning

/-- The fields own their strings, the getters give what is promised, and a delete function leaves
    each string of its object released exactly once. -/
structure SoundAt (w : World) (s : Meaning) : Prop where
  alive : ∀ k p, w.pointer k = some p → p ∉ w.strings.released
  getter : ∀ n field, getString field w n = s.values (n, field)
  deleted : ∀ (n : Nat) (kind : ObjectKind), w.kinds[n]? = some kind → ∀ p field text,
    w.strings.made[p]? = some ((n, field), text) →
      (kind.delete w n).strings.released.count p = 1

/-- So it is after each of the calls. -/
def Sound (calls : List Call) : Prop :=
  ∀ pre, pre <+: calls → SoundAt (World.start.run pre) (Meaning.start.run pre)

/-! ## 5. The invariant -/

/-- The pointers own their strings and mean what is promised; an object has no pointer but those of
    its structure. -/
structure Inv (w : World) (s : Meaning) : Prop where
  owns : Owns w.pointer w.strings s.values
  kinds : w.kinds = s.kinds
  typed : ∀ k p, w.pointer k = some p → w.kinds[k.1]? = some k.2.kind

theorem Inv.start : Inv World.start Meaning.start := ⟨Owns.start, rfl, nofun⟩

variable {w : World} {s : Meaning} {n : Nat} {field : StringField}

/-- The string of a field is replaced: it is released, and the copy, if any, stored. -/
def World.replace (w : World) (k : Slot) (value : Option CString) : World :=
  match value with
  | none => (w.free k).setNull k
  | some text => ((w.free k).setNull k).copy k text

theorem Inv.replace (h : Inv w s) (hkind : w.kinds[n]? = some field.kind)
    (value : Option CString) :
    Inv (w.replace (n, field) value) { s with values := update s.values (n, field) value } := by
  have hclear := h.owns.clear (n, field)
  have hother : ∀ {q : Option Nat} {k : Slot} {p : Nat},
      update w.pointer (n, field) q k = some p → w.kinds[k.1]? = some k.2.kind := by
    intro q k p hp
    by_cases e : k = (n, field)
    · rw [e]
      exact hkind
    · rw [update_of_ne e] at hp
      exact h.typed k p hp
  cases value with
  | none => exact ⟨hclear, h.kinds, fun k p hp => hother hp⟩
  | some text =>
    have hstore := hclear.store (update_self (n, field) none w.pointer) text
    rw [update_idem, update_idem] at hstore
    refine ⟨?_, h.kinds, fun k p hp => ?_⟩
    · show Owns (update (update w.pointer (n, field) none) (n, field) _) _ _
      rw [update_idem]
      exact hstore
    · replace hp : update (update w.pointer (n, field) none) (n, field) _ k = some p := hp
      rw [update_idem] at hp
      exact hother hp

theorem copy_free (w : World) (k : Slot) (text : CString) :
    (w.free k).copy k text = w.replace k (some text) := by
  unfold World.replace World.copy World.setNull World.free
  simp only [update_idem]

theorem setRequired_some (field : StringField) (w : World) (n : Nat) (text : CString) :
    setRequired field w n (some text) = some (w.replace (n, field) (some text)) :=
  congrArg some (copy_free w (n, field) text)

theorem setOptional_eq (field : StringField) (w : World) (n : Nat) (value : Option CString) :
    setOptional field w n value = some (w.replace (n, field) value) := by
  cases value <;> rfl

theorem setter_refuses (w : World) (n : Nat) (h : field.Required = true) :
    field.setter w n none = none := by
  cases field <;> first | rfl | cases h

theorem setter_leaves (w : World) (n : Nat) (h : field.Uncleared = true) :
    field.setter w n none = some (w.free (n, field)) := by
  cases field <;> first | rfl | cases h

/-- A setter that neither refuses nor leaves its pointer replaces the string of its field. -/
theorem setter_replaces (w : World) (n : Nat) {value : Option CString}
    (hr : ¬ (field.Required = true ∧ value = none))
    (hu : ¬ (field.Uncleared = true ∧ value = none)) :
    field.setter w n value = some (w.replace (n, field) value) := by
  cases value with
  | none =>
    cases field <;> first
      | exact absurd ⟨rfl, rfl⟩ hr
      | exact absurd ⟨rfl, rfl⟩ hu
      | exact setOptional_eq _ w n none
  | some text =>
    -- given a string, the setters that leave their pointer do what those that refuse NULL do
    cases field <;> first
      | exact setRequired_some _ w n text
      | exact setOptional_eq _ w n (some text)

theorem required_of_uncleared (h : field.Uncleared = true) : field.Required = false := by
  cases field <;> first | rfl | cases h

/-- A new object, with no string. -/
theorem Inv.createObject (h : Inv w s) (kind : ObjectKind) :
    Inv (createObject kind w) { s with kinds := s.kinds ++ [kind] } where
  owns := h.owns
  kinds := congrArg (· ++ [kind]) h.kinds
  typed k p hp := by
    have hk := h.typed k p hp
    have hlt := (List.getElem?_eq_some_iff.mp hk).1
    show (w.kinds ++ [kind])[k.1]? = _
    rw [List.getElem?_append_left hlt, hk]

/-- No string was made for an object that is not there yet. -/
theorem Inv.no_pointer (h : Inv w s) (field : StringField) :
    w.pointer (w.kinds.length, field) = none := by
  cases hp : w.pointer (w.kinds.length, field) with
  | none => rfl
  | some p =>
    have hlt := (List.getElem?_eq_some_iff.mp (h.typed _ p hp)).1
    exact absurd hlt (Nat.lt_irrefl _)

/-- A new object with the string it is given. -/
theorem Inv.createWith (h : Inv w s) (field : StringField) (text : Option CString) :
    Inv (createWith field.kind field w text)
      ⟨s.kinds ++ [field.kind], update s.values (s.kinds.length, field) text⟩ := by
  have hnull := h.no_pointer field
  have hcreate := h.createObject field.kind
  cases text with
  | none =>
    refine ⟨?_, hcreate.kinds, hcreate.typed⟩
    rw [← h.kinds]
    exact h.owns.clear_null hnull
  | some text =>
    refine ⟨?_, hcreate.kinds, fun k p hp => ?_⟩
    · rw [← h.kinds]
      exact h.owns.store hnull text
    · by_cases e : k = (w.kinds.length, field)
      · rw [e]
        exact List.getElem?_concat_length
      · replace hp : update w.pointer (w.kinds.length, field) _ k = some p := hp
        rw [update_of_ne e] at hp
        exact hcreate.typed k p hp

theorem Inv.create (h : Inv w s) (kind : ObjectKind) (text : Option CString) :
    Inv (w.call (.create kind text)) (s.call (.create kind text)) := by
  cases kind with
  | subject => exact h.createObject _
  | resource => exact h.createObject _
  | result => exact h.createObject _
  | attr => exact h.createWith .attributeId text
  | status => exact h.createWith .statusMessage text
  | statuscode => exact h.createWith .statuscodeValue text
  | obligation => exact h.createWith .obligationId text
  | attributeassignment => exact h.createWith .attributeassignmentId text

/-- **A call keeps the invariant, unless it passes NULL as the category or the content of an object
    that holds one.** -/
theorem inv_call (h : Inv w s) (c : Call)
    (hc : ∀ n field, c = .set n field none → s.kinds[n]? = some field.kind →
      field.Uncleared = true → s.values (n, field) = none) : Inv (w.call c) (s.call c) := by
  cases c with
  | create kind text => exact h.create kind text
  | set n field value =>
    show Inv (if w.kinds[n]? = some field.kind then (field.setter w n value).getD w else w)
      (if s.kinds[n]? = some field.kind ∧ ¬ (field.Required = true ∧ value = none) then
        { s with values := update s.values (n, field) value } else s)
    rw [h.kinds]
    by_cases hkind : s.kinds[n]? = some field.kind
    swap
    · rw [if_neg hkind, if_neg fun hk => hkind hk.1]
      exact h
    rw [if_pos hkind]
    by_cases hr : field.Required = true ∧ value = none
    · rw [if_neg fun hk => hk.2 hr, hr.2, setter_refuses w n hr.1]
      exact h
    rw [if_pos ⟨hkind, hr⟩]
    by_cases hu : field.Uncleared = true ∧ value = none
    · -- the field is NULL: there is nothing to release
      obtain ⟨hu, rfl⟩ := hu
      have hvalue := hc n field rfl hkind hu
      have hnull : w.pointer (n, field) = none := by
        cases hp : w.pointer (n, field) with
        | none => rfl
        | some p =>
          obtain ⟨text, _, htext⟩ := h.owns.holds _ p hp
          rw [hvalue] at htext
          cases htext
      rw [setter_leaves w n hu]
      refine ⟨?_, h.kinds, h.typed⟩
      show Owns w.pointer (w.strings.release (w.pointer (n, field))) _
      rw [hnull]
      exact h.owns.clear_null hnull
    · rw [setter_replaces w n hr hu]
      exact h.replace (h.kinds ▸ hkind) value

/-- The fields a delete function frees. -/
def ObjectKind.fields : ObjectKind → List StringField
  | .attr => [.attributeId, .attributeDatatype, .attributeIssuer]
  | .subject => [.subjectCategory]
  | .resource => [.resourceContent]
  | .result => [.resultResourceid]
  | .status => [.statusMessage]
  | .statuscode => [.statuscodeValue]
  | .obligation => [.obligationId]
  | .attributeassignment =>
    [.attributeassignmentId, .attributeassignmentDatatype, .attributeassignmentValue]

theorem delete_eq (kind : ObjectKind) : kind.delete = deleteStrings kind.fields := by
  cases kind <;> rfl

theorem fields_nodup (kind : ObjectKind) : kind.fields.Nodup := by
  cases kind <;> decide

theorem mem_fields (field : StringField) : field ∈ field.kind.fields := by
  cases field <;> decide

/-- **Where the invariant holds, the strings are sound.** -/
theorem Inv.soundAt (h : Inv w s) : SoundAt w s where
  alive := h.owns.alive
  getter n field := h.owns.read (n, field)
  deleted n kind hkind p field text hmade := by
    rw [delete_eq]
    have hnodup : (kind.fields.map fun field => (n, field)).Nodup :=
      (fields_nodup kind).map fun _ _ e => (Prod.mk.inj e).2
    refine h.owns.releaseAll hnodup hmade ?_
    by_cases hp : w.pointer (n, field) = some p
    · have hfield := h.typed _ p hp
      rw [hkind] at hfield
      cases hfield
      exact .inl (List.mem_map_of_mem (mem_fields field))
    · exact .inr hp

/-! ## 6. No NULL behind a string -/

/-- The setter calls on the object `n`, behind the objects `kinds`. -/
def setsOn (n : Nat) : List ObjectKind → List Call → List (StringField × Option CString)
  | _, [] => []
  | kinds, .create kind _ :: calls => setsOn n (kinds ++ [kind]) calls
  | kinds, .set m field value :: calls =>
    if m = n ∧ kinds[m]? = some field.kind then (field, value) :: setsOn n kinds calls
    else setsOn n kinds calls

/-- What is passed to the setter of a field. -/
def argsOf (field : StringField) (sets : List (StringField × Option CString)) :
    List (Option CString) :=
  (sets.filter fun e => e.1 = field).map Prod.snd

/-- No NULL is passed behind a string. -/
def NullFirst (args : List (Option CString)) : Prop :=
  args.Pairwise fun earlier later => later = none → earlier = none

/-- No category of a subject and no content of a resource is set to NULL behind a string. -/
def NeverUnset (calls : List Call) : Prop :=
  ∀ n field, field.Uncleared = true → NullFirst (argsOf field (setsOn n [] calls))

theorem nullFirst_snoc (args : List (Option CString)) (arg : Option CString) :
    NullFirst (args ++ [arg]) ↔ NullFirst args ∧ (arg = none → ∀ earlier ∈ args, earlier = none) := by
  unfold NullFirst
  rw [List.pairwise_append]
  constructor
  · intro h
    exact ⟨h.1, fun harg earlier he => h.2.2 earlier he arg List.mem_cons_self harg⟩
  · intro h
    refine ⟨h.1, List.pairwise_singleton _ _, fun earlier he later hl hnone => ?_⟩
    rw [List.mem_singleton.mp hl] at hnone
    exact h.2 hnone earlier he

theorem Meaning.kinds_set (s : Meaning) (m : Nat) (field : StringField) (value : Option CString) :
    (s.call (.set m field value)).kinds = s.kinds := by
  simp only [Meaning.call]
  split <;> rfl

/-- A setter that is accepted changes the promised value of its field, and no other. -/
theorem Meaning.values_set (s : Meaning) (m : Nat) (field : StringField) (value : Option CString)
    (k : Slot) : (s.call (.set m field value)).values k =
      if k = (m, field) ∧ s.kinds[m]? = some field.kind ∧ ¬ (field.Required = true ∧ value = none)
      then value else s.values k := by
  simp only [Meaning.call]
  by_cases hk : k = (m, field)
  · subst hk
    simp only [true_and]
    split
    · exact update_self _ _ _
    · rfl
  · simp only [hk, false_and, if_false]
    split
    · exact update_of_ne hk _ _
    · rfl

theorem argsOf_append (field : StringField) (xs ys : List (StringField × Option CString)) :
    argsOf field (xs ++ ys) = argsOf field xs ++ argsOf field ys := by
  unfold argsOf
  rw [List.filter_append, List.map_append]

/-- The setter calls on an object, made by calls behind others. -/
theorem setsOn_append (n : Nat) (more : List Call) : ∀ (calls : List Call) (s : Meaning),
    setsOn n s.kinds (calls ++ more) = setsOn n s.kinds calls ++ setsOn n (s.run calls).kinds more
  | [], _ => rfl
  | .create kind text :: calls, s => setsOn_append n more calls (s.call (.create kind text))
  | .set m field value :: calls, s => by
    have ih := setsOn_append n more calls (s.call (.set m field value))
    rw [Meaning.kinds_set] at ih
    show setsOn n s.kinds (.set m field value :: (calls ++ more)) = _
    simp only [setsOn]
    split
    · rw [ih, List.cons_append]
      rfl
    · rw [ih]
      rfl

theorem setsOn_snoc (n : Nat) (calls : List Call) (c : Call) :
    setsOn n [] (calls ++ [c])
      = setsOn n [] calls ++ setsOn n (Meaning.start.run calls).kinds [c] :=
  setsOn_append n [c] calls Meaning.start

theorem argsOf_set (n : Nat) (field : StringField) (kinds : List ObjectKind) (m : Nat)
    (g : StringField) (value : Option CString) :
    argsOf field (setsOn n kinds [.set m g value]) =
      if ((n, field) : Slot) = (m, g) ∧ kinds[m]? = some g.kind then [value] else [] := by
  simp only [setsOn]
  by_cases hslot : ((n, field) : Slot) = (m, g)
  · obtain ⟨rfl, rfl⟩ := Prod.mk.inj hslot
    by_cases hkind : kinds[n]? = some field.kind
    · simp [argsOf, hkind]
    · simp [argsOf, hkind]
  · rw [if_neg fun h : _ ∧ _ => hslot h.1]
    split
    · rename_i h
      have hne : g ≠ field := fun e => hslot (by rw [e, h.1])
      simp [argsOf, hne]
    · rfl

theorem run_snoc (calls : List Call) (c : Call) :
    World.start.run (calls ++ [c]) = (World.start.run calls).call c ∧
      Meaning.start.run (calls ++ [c]) = (Meaning.start.run calls).call c := by
  unfold World.run Meaning.run
  rw [List.foldl_append, List.foldl_append]
  exact ⟨rfl, rfl⟩

theorem named_not_uncleared {kind : ObjectKind} (hu : field.Uncleared = true) :
    kind.named ≠ some field := by
  cases kind <;> cases field <;> first | (cases hu; done) | decide

/-- The promised value of a field that takes NULL is what was passed to its setter last. -/
theorem values_uncleared (n : Nat) (hu : field.Uncleared = true) (calls : List Call) :
    (Meaning.start.run calls).values (n, field)
      = (argsOf field (setsOn n [] calls)).getLast?.join := by
  induction calls using List.reverseRecOn with
  | nil => rfl
  | append_singleton calls c ih =>
    rw [(run_snoc calls c).2, setsOn_snoc, argsOf_append]
    cases c with
    | create kind text =>
      show _ = (argsOf field (setsOn n [] calls) ++ []).getLast?.join
      rw [List.append_nil, ← ih]
      simp only [Meaning.call]
      cases hkind : kind.named with
      | none => rfl
      | some named =>
        have hne : ((n, field) : Slot) ≠ ((Meaning.start.run calls).kinds.length, named) := by
          intro e
          have hnamed : kind.named ≠ some field := named_not_uncleared hu
          rw [hkind, (Prod.mk.inj e).2] at hnamed
          exact hnamed rfl
        exact update_of_ne hne _ _
    | set m g value =>
      rw [Meaning.values_set, argsOf_set, ih]
      by_cases hk : ((n, field) : Slot) = (m, g) ∧
          (Meaning.start.run calls).kinds[m]? = some g.kind
      · obtain ⟨hslot, hkind⟩ := hk
        cases hslot
        have hr : ¬ (field.Required = true ∧ value = none) := by
          rw [required_of_uncleared hu]
          exact fun h => nomatch h.1
        rw [if_pos ⟨rfl, hkind, hr⟩, if_pos ⟨rfl, hkind⟩, List.getLast?_concat, Option.join_some]
      · rw [if_neg fun h => hk ⟨h.1, h.2.1⟩, if_neg hk, List.append_nil]

/-! ## 7. Any calls -/

theorem join_getLast_of_null {args : List (Option CString)} (h : ∀ arg ∈ args, arg = none) :
    args.getLast?.join = none := by
  cases hlast : args.getLast? with
  | none => rfl
  | some arg => exact h arg (List.mem_of_getLast? hlast)

/-- Where the last argument is NULL, all are. -/
theorem NullFirst.all_null {args : List (Option CString)} (h : NullFirst args)
    (hlast : args.getLast?.join = none) : ∀ arg ∈ args, arg = none := by
  rcases List.eq_nil_or_concat args with rfl | ⟨init, last, rfl⟩
  · exact nofun
  · rw [List.concat_eq_append] at h hlast ⊢
    rw [List.getLast?_concat, Option.join_some] at hlast
    intro arg harg
    rcases List.mem_append.mp harg with harg | harg
    · exact ((nullFirst_snoc init last).mp h).2 hlast arg harg
    · rw [List.mem_singleton.mp harg, hlast]

/-- One more call passes no NULL behind a string exactly if it passes none for a string that is
    held. -/
theorem neverUnset_snoc (calls : List Call) (c : Call) :
    NeverUnset (calls ++ [c]) ↔ NeverUnset calls ∧
      ∀ n field, c = .set n field none →
        (Meaning.start.run calls).kinds[n]? = some field.kind → field.Uncleared = true →
        (Meaning.start.run calls).values (n, field) = none := by
  constructor
  · intro h
    refine ⟨fun n field hu => ?_, ?_⟩
    · have hargs := h n field hu
      rw [setsOn_snoc, argsOf_append] at hargs
      cases c with
      | create kind text =>
        replace hargs : NullFirst (argsOf field (setsOn n [] calls) ++ []) := hargs
        rwa [List.append_nil] at hargs
      | set m g value =>
        rw [argsOf_set] at hargs
        split at hargs
        · exact ((nullFirst_snoc _ _).mp hargs).1
        · rwa [List.append_nil] at hargs
    · intro n field e hkind hu
      obtain rfl := e
      have hargs := h n field hu
      rw [setsOn_snoc, argsOf_append, argsOf_set, if_pos ⟨rfl, hkind⟩] at hargs
      rw [values_uncleared n hu]
      exact join_getLast_of_null (((nullFirst_snoc _ _).mp hargs).2 rfl)
  · intro h n field hu
    obtain ⟨h, hc⟩ := h
    rw [setsOn_snoc, argsOf_append]
    cases c with
    | create kind text =>
      show NullFirst (argsOf field (setsOn n [] calls) ++ [])
      rw [List.append_nil]
      exact h n field hu
    | set m g value =>
      rw [argsOf_set]
      split
      · rename_i hk
        obtain ⟨hslot, hkind⟩ := hk
        cases hslot
        refine (nullFirst_snoc _ _).mpr ⟨h n field hu, ?_⟩
        intro e
        obtain rfl := e
        have hvalue := hc n field rfl hkind hu
        rw [values_uncleared n hu] at hvalue
        exact (h n field hu).all_null hvalue
      · rw [List.append_nil]
        exact h n field hu

/-- **Calls that pass no NULL behind a string keep the invariant.** -/
theorem inv_run : ∀ calls : List Call, NeverUnset calls →
    Inv (World.start.run calls) (Meaning.start.run calls) := by
  intro calls
  induction calls using List.reverseRecOn with
  | nil => exact fun _ => Inv.start
  | append_singleton calls c ih =>
    intro h
    obtain ⟨hcalls, hc⟩ := (neverUnset_snoc calls c).mp h
    rw [(run_snoc calls c).1, (run_snoc calls c).2]
    exact inv_call (ih hcalls) c hc

theorem Sound.init {calls : List Call} {c : Call} (h : Sound (calls ++ [c])) : Sound calls :=
  fun pre hpre => h pre (hpre.trans (List.prefix_append _ _))

/-- **Any calls are sound exactly if no NULL is set as a category or a content behind a string.** -/
theorem sound_iff (calls : List Call) : Sound calls ↔ NeverUnset calls := by
  constructor
  · induction calls using List.reverseRecOn with
    | nil => exact fun _ n field _ => List.Pairwise.nil
    | append_singleton calls c ih =>
      intro h
      have hcalls := ih h.init
      refine (neverUnset_snoc calls c).mpr ⟨hcalls, ?_⟩
      intro n field e hkind hu
      obtain rfl := e
      by_contra hvalue
      -- the string that is held is released, and the pointer to it stays
      have hinv := inv_run calls hcalls
      obtain ⟨p, hp⟩ : ∃ p, (World.start.run calls).pointer (n, field) = some p := by
        cases hp : (World.start.run calls).pointer (n, field) with
        | none => exact absurd (hinv.owns.null _ hp) hvalue
        | some p => exact ⟨p, rfl⟩
      have hsound := h (calls ++ [.set n field none]) List.prefix_rfl
      have hcall : World.start.run (calls ++ [.set n field none])
          = (World.start.run calls).free (n, field) := by
        rw [(run_snoc _ _).1]
        show (if _ then _ else _) = _
        rw [if_pos (hinv.kinds ▸ hkind), setter_leaves _ n hu, Option.getD_some]
      rw [hcall] at hsound
      exact hsound.alive (n, field) p hp (Heap.mem_release.mpr (.inr hp))
  · intro h pre hpre
    obtain ⟨post, rfl⟩ := hpre
    have hfront : ∀ post, NeverUnset (pre ++ post) → NeverUnset pre := by
      intro post
      induction post using List.reverseRecOn with
      | nil => exact fun h => by rwa [List.append_nil] at h
      | append_singleton post c ih =>
        intro h
        rw [← List.append_assoc] at h
        exact ih ((neverUnset_snoc _ c).mp h).1
    exact (inv_run pre (hfront post h)).soundAt

end ArgusPep.Owned
