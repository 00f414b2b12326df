/-
  File:      ArgusPep/Argus/AttributeObjects.lean
  Subject:   The attributes of argus/attribute.c as objects: a structure of pointers, and the strings
             behind them.

  An object is known by its address, so that two lists, or two places of one list, can hold the same
  one. A string is a block of its own, and `free` takes it away. Reading or freeing what is not
  there is the fault `dangling`; an allocation is granted.

  * `Memory` -- the strings, the attributes and the subjects;
  * `xacmlAttributeSetid`, .. , **`xacmlAttributeClone`** -- the functions, on pointers;
  * `AttributeAt m a v` -- the attribute at `a` is `v`;
  * `Fresh m m' c v` -- `m'` has a new object `c`, which owns its strings, and is `m` otherwise; the
    setters keep it;
  * **`xacmlAttributeClone_fresh`** -- a clone is a copy that shares nothing with the original.
-/
import Mathlib.Data.Option.Basic
import Mathlib.Data.List.Forall2
import Mathlib.Logic.Function.Basic
import ArgusPep.Lib.Store
import ArgusPep.Lib.Walk
import ArgusPep.Argus.Xacml

namespace ArgusPep.Objects

open Lib Function

/-! ## 1. Objects -/

/-- The `char *` fields of `xacml_attribute_t`. -/
inductive AttributeString where
  | id | datatype | issuer
deriving DecidableEq, Repr

/-- `xacml_attribute_t`: the addresses of its strings. -/
structure AttributeObject where
  pointer : AttributeString → Option Nat
  values : List Nat

/-- `xacml_subject_t`: its category, and the addresses of its attributes. -/
structure SubjectObject where
  category : Option CString
  attributes : List Nat

structure Memory where
  strings : Store CString
  attributes : Store AttributeObject
  subjects : Store SubjectObject

inductive ObjectFault where
  /-- A NULL pointer is passed to `strncmp`. -/
  | nullString
  /-- What a pointer leads to is not there. -/
  | dangling
deriving DecidableEq, Repr

/-- What is read, or the fault. -/
def orDangling {α : Type} : Option α → Except ObjectFault α
  | none => .error .dangling
  | some x => .ok x

namespace Memory

/-- The string a pointer leads to; NULL leads to none. -/
def textOf (m : Memory) : Option Nat → Except ObjectFault (Option CString)
  | none => .ok none
  | some p => some <$> orDangling (m.strings.read p)

/-- The string of a field of the attribute at `a`. -/
def string (m : Memory) (a : Nat) (field : AttributeString) :
    Except ObjectFault (Option CString) := do
  let attr ← orDangling (m.attributes.read a)
  m.textOf (attr.pointer field)

/-- `calloc(size + 1,sizeof(char))`, granted, and `strncpy`. -/
def copy (m : Memory) (text : CString) : Nat × Memory :=
  (m.strings.next, { m with strings := m.strings.make text })

/-- `if (p != NULL) free(p)`. -/
def free (m : Memory) : Option Nat → Except ObjectFault Memory
  | none => .ok m
  | some p => do
    let _ ← orDangling (m.strings.read p)
    pure { m with strings := m.strings.release p }

/-- A field of an attribute is set to a pointer. -/
def point (m : Memory) (a : Nat) (attr : AttributeObject) (field : AttributeString)
    (p : Option Nat) : Memory :=
  { m with
    attributes := m.attributes.write a { attr with pointer := update attr.pointer field p } }

end Memory

/-! ## 2. The functions -/

/-- `xacml_attribute_create`: the address of the new object. -/
def xacmlAttributeCreate (m : Memory) (id : Option CString) : Nat × Memory :=
  let (p, m) := match id with
    | none => (none, m)
    | some id => (some (m.copy id).1, (m.copy id).2)
  (m.attributes.next,
    { m with attributes := m.attributes.make ⟨update (fun _ => none) .id p, []⟩ })

/-- A setter: the string there is freed, and a copy of the new one, if any, stored. -/
def setString (field : AttributeString) (m : Memory) (a : Nat) (value : Option CString) :
    Except ObjectFault Memory := do
  let attr ← orDangling (m.attributes.read a)
  let m ← m.free (attr.pointer field)
  match value with
  | none => pure (m.point a attr field none)
  | some text =>
    let (p, m) := m.copy text
    pure (m.point a attr field (some p))

/-- `xacml_attribute_setid` of an id that is not NULL. -/
def xacmlAttributeSetid (m : Memory) (a : Nat) (id : CString) : Except ObjectFault Memory :=
  setString .id m a (some id)

abbrev xacmlAttributeSetdatatype := setString .datatype
abbrev xacmlAttributeSetissuer := setString .issuer

/-- `xacml_attribute_addvalue` of a value that is not NULL. -/
def xacmlAttributeAddvalue (m : Memory) (a : Nat) (value : CString) : Except ObjectFault Memory :=
  do
  let (v, m) := m.copy value
  let attr ← orDangling (m.attributes.read a)
  pure { m with attributes := m.attributes.write a { attr with values := attr.values ++ [v] } }

/-- A round of the loop that copies the values. -/
def cloneValue (a clone : Nat) (m : Memory) (i : Nat) : Except ObjectFault Memory := do
  let attr ← orDangling (m.attributes.read a)
  let value ← orDangling (attr.values[i]?.bind m.strings.read)
  xacmlAttributeAddvalue m clone value

/-- `xacml_attribute_clone`: the address of the clone. -/
def xacmlAttributeClone (m : Memory) (a : Nat) : Except ObjectFault (Nat × Memory) := do
  let (clone, m) := xacmlAttributeCreate m (← m.string a .id)
  let m ← xacmlAttributeSetdatatype m clone (← m.string a .datatype)
  let m ← xacmlAttributeSetissuer m clone (← m.string a .issuer)
  let attr ← orDangling (m.attributes.read a)
  let m ← walk (cloneValue a clone) 0 attr.values.length m
  pure (clone, m)

/-! ## 3. What an object holds -/

/-- The string of a field. -/
def stringOf (v : XacmlAttribute) : AttributeString → Option CString
  | .id => v.id
  | .datatype => v.datatype
  | .issuer => v.issuer

/-- The attribute with another string in a field. -/
def withString (v : XacmlAttribute) (field : AttributeString) (text : Option CString) :
    XacmlAttribute :=
  match field with
  | .id => { v with id := text }
  | .datatype => { v with datatype := text }
  | .issuer => { v with issuer := text }

theorem stringOf_withString (v : XacmlAttribute) (field : AttributeString) (text : Option CString) :
    stringOf (withString v field text) = update (stringOf v) field text := by
  funext other
  cases field <;> cases other <;> rfl

theorem values_withString (v : XacmlAttribute) (field : AttributeString) (text : Option CString) :
    (withString v field text).values = v.values := by
  cases field <;> rfl

theorem attribute_ext {v w : XacmlAttribute} (hstrings : stringOf v = stringOf w)
    (hvalues : v.values = w.values) : v = w := by
  cases v
  cases w
  obtain rfl := congrFun hstrings .id
  obtain rfl := congrFun hstrings .datatype
  obtain rfl := congrFun hstrings .issuer
  obtain rfl := hvalues
  rfl

/-- What the pointer leads to is the text, and NULL no text. -/
def TextAt (s : Store CString) (p? : Option Nat) (text : Option CString) : Prop :=
  p?.map s.read = text.map some

/-- The strings of the object are those of `v`. -/
structure Holds (s : Store CString) (attr : AttributeObject) (v : XacmlAttribute) : Prop where
  strings : ∀ field, TextAt s (attr.pointer field) (stringOf v field)
  values : List.Forall₂ (fun p text => s.read p = some text) attr.values v.values

/-- The attribute at `a` is `v`. -/
def AttributeAt (m : Memory) (a : Nat) (v : XacmlAttribute) : Prop :=
  ∃ attr, m.attributes.read a = some attr ∧ Holds m.strings attr v

section Holding

variable {s t : Store CString} {attr : AttributeObject} {v w : XacmlAttribute} {p? : Option Nat}
  {text text' : Option CString} {m m' : Memory} {a : Nat} {field : AttributeString} {p : Nat}

theorem TextAt.cases (h : TextAt s p? text) :
    (p? = none ∧ text = none) ∨ ∃ p x, p? = some p ∧ text = some x ∧ s.read p = some x := by
  unfold TextAt at h
  cases p? with
  | none => exact .inl ⟨rfl, Option.map_eq_none_iff.mp h.symm⟩
  | some p =>
    obtain ⟨x, rfl, hx⟩ := Option.map_eq_some_iff.mp h.symm
    exact .inr ⟨p, x, rfl, rfl, hx.symm⟩

theorem TextAt.mono (h : s.Extends t) (htext : TextAt s p? text) : TextAt t p? text := by
  rcases htext.cases with ⟨rfl, rfl⟩ | ⟨p, x, rfl, rfl, hx⟩
  · rfl
  · exact congrArg some (h.read p x hx)

theorem TextAt.unique (h : TextAt s p? text) (h' : TextAt s p? text') : text = text' :=
  Option.map_injective (Option.some_injective _) (h.symm.trans h')

theorem Holds.mono (h : s.Extends t) (hholds : Holds s attr v) : Holds t attr v :=
  ⟨fun field => TextAt.mono h (hholds.strings field),
    hholds.values.imp fun p text htext => h.read p text htext⟩

/-- An object holds one attribute. -/
theorem Holds.unique (h : Holds s attr v) (h' : Holds s attr w) : v = w := by
  refine attribute_ext (funext fun field => TextAt.unique (h.strings field) (h'.strings field)) ?_
  have hright : Relator.RightUnique fun p text => s.read p = some text := fun p x y hx hy =>
    Option.some.inj (hx.symm.trans hy)
  exact hright.forall₂ h.values h'.values

theorem AttributeAt.unique (h : AttributeAt m a v) (h' : AttributeAt m a w) : v = w := by
  obtain ⟨attr, hread, hholds⟩ := h
  obtain ⟨attr', hread', hholds'⟩ := h'
  obtain rfl := Option.some.inj (hread.symm.trans hread')
  exact hholds.unique hholds'

theorem AttributeAt.mono (hstrings : m.strings.Extends m'.strings)
    (hattributes : m.attributes.Extends m'.attributes) (h : AttributeAt m a v) :
    AttributeAt m' a v := by
  obtain ⟨attr, hread, hholds⟩ := h
  exact ⟨attr, hattributes.read a attr hread, hholds.mono hstrings⟩

/-- What a field points to is there. -/
theorem Holds.there (h : Holds s attr v) (hp : attr.pointer field = some p) :
    ∃ text, s.read p = some text := by
  rcases (h.strings field).cases with ⟨hnone, -⟩ | ⟨q, x, hq, -, hx⟩
  · cases hp.symm.trans hnone
  · obtain rfl := Option.some.inj (hp.symm.trans hq)
    exact ⟨x, hx⟩

theorem string_eq (h : AttributeAt m a v) (field : AttributeString) :
    m.string a field = .ok (stringOf v field) := by
  obtain ⟨attr, hread, hholds⟩ := h
  unfold Memory.string
  rw [hread]
  show m.textOf (attr.pointer field) = _
  rcases (hholds.strings field).cases with ⟨hp, hx⟩ | ⟨p, x, hp, hx, htext⟩
  · rw [hp, hx]
    rfl
  · rw [hp, hx]
    show some <$> orDangling (m.strings.read p) = _
    rw [htext]
    rfl

end Holding

/-! ## 4. New objects -/

/-- The strings of the object are its own, and new since `base`. -/
structure Owned (base : Nat) (attr : AttributeObject) : Prop where
  new : ∀ field p, attr.pointer field = some p → base ≤ p
  distinct : ∀ f g p, attr.pointer f = some p → attr.pointer g = some p → f = g
  values : ∀ field p, attr.pointer field = some p → p ∉ attr.values

/-- **`m'` is `m` with a new attribute at `c`, which is `v` and owns its strings.** -/
structure Fresh (m m' : Memory) (c : Nat) (v : XacmlAttribute) : Prop where
  strings : m.strings.Extends m'.strings
  attributes : m.attributes.Extends m'.attributes
  subjects : m'.subjects = m.subjects
  new : m.attributes.next ≤ c
  object : ∃ attr, m'.attributes.read c = some attr ∧ Holds m'.strings attr v ∧
    Owned m.strings.next attr

section New

variable {s t : Store CString} {attr : AttributeObject} {v : XacmlAttribute} {p? : Option Nat}
  {text : Option CString} {m m' : Memory} {a c base : Nat} {field : AttributeString}

/-- A field is set to another string; all strings but the one it had stay. -/
theorem Holds.point (h : Holds s attr v) (howned : Owned base attr)
    (hkept : ∀ p x, s.read p = some x → attr.pointer field ≠ some p → t.read p = some x)
    (hnew : TextAt t p? text) :
    Holds t { attr with pointer := update attr.pointer field p? } (withString v field text) where
  strings other := by
    rw [stringOf_withString]
    show TextAt t (update attr.pointer field p? other) _
    by_cases hother : other = field
    · subst hother
      rw [update_self, update_self]
      exact hnew
    · rw [update_of_ne hother, update_of_ne hother]
      rcases (h.strings other).cases with ⟨hp, hx⟩ | ⟨p, x, hp, hx, htext⟩
      · rw [hp, hx]
        rfl
      · rw [hp, hx]
        exact congrArg some
          (hkept p x htext fun hfield => hother (howned.distinct _ _ p hp hfield))
  values := by
    rw [values_withString]
    have hmem := (@List.forall₂_and_left _ _ _ (· ∈ attr.values) _ _).mpr
      ⟨fun p hp => hp, h.values⟩
    exact hmem.imp fun p x hp => hkept p x hp.2 fun hfield => howned.values field p hfield hp.1

theorem Owned.point (h : Owned base attr) (field : AttributeString)
    (hnew : ∀ p, p? = some p → base ≤ p ∧ (∀ g, attr.pointer g ≠ some p) ∧ p ∉ attr.values) :
    Owned base { attr with pointer := update attr.pointer field p? } := by
  have hcases : ∀ other p,
      { attr with pointer := update attr.pointer field p? }.pointer other = some p →
      (other = field ∧ p? = some p) ∨ (other ≠ field ∧ attr.pointer other = some p) := by
    intro other p hp
    replace hp : update attr.pointer field p? other = some p := hp
    by_cases hother : other = field
    · subst hother
      rw [update_self] at hp
      exact .inl ⟨rfl, hp⟩
    · rw [update_of_ne hother] at hp
      exact .inr ⟨hother, hp⟩
  refine ⟨fun other p hp => ?_, fun f g p hf hg => ?_, fun other p hp => ?_⟩
  · rcases hcases other p hp with ⟨-, hp⟩ | ⟨-, hp⟩
    · exact (hnew p hp).1
    · exact h.new other p hp
  · rcases hcases f p hf with ⟨ef, hf'⟩ | ⟨-, hf'⟩
    · rcases hcases g p hg with ⟨eg, -⟩ | ⟨-, hg'⟩
      · exact ef.trans eg.symm
      · exact absurd hg' ((hnew p hf').2.1 g)
    · rcases hcases g p hg with ⟨-, hg'⟩ | ⟨-, hg'⟩
      · exact absurd hf' ((hnew p hg').2.1 f)
      · exact h.distinct f g p hf' hg'
  · rcases hcases other p hp with ⟨-, hp⟩ | ⟨-, hp⟩
    · exact (hnew p hp).2.2
    · exact h.values other p hp

/-- Nothing an object points to is the next string made. -/
theorem Holds.not_next (h : Holds s attr v) :
    (∀ g, attr.pointer g ≠ some s.next) ∧ s.next ∉ attr.values := by
  refine ⟨fun g hg => ?_, fun hmem => ?_⟩
  · obtain ⟨x, hx⟩ := h.there hg
    exact Nat.lt_irrefl _ (Store.read_lt hx)
  · have hmem' := (@List.forall₂_and_left _ _ _ (· ≠ s.next) _ _).mp
      (h.values.imp fun p x hx => ⟨fun e => Nat.lt_irrefl _ (e ▸ Store.read_lt hx), hx⟩)
    exact hmem'.1 _ hmem rfl

/-- The string of a field is freed: it was there, and no other goes. -/
theorem Fresh.free (h : Fresh m m' c v) {attr : AttributeObject}
    (hholds : Holds m'.strings attr v) (howned : Owned m.strings.next attr)
    (field : AttributeString) :
    ∃ t, m'.free (attr.pointer field) = .ok { m' with strings := t } ∧ m.strings.Extends t ∧
      t.next = m'.strings.next ∧
      ∀ p x, m'.strings.read p = some x → attr.pointer field ≠ some p → t.read p = some x := by
  cases hp : attr.pointer field with
  | none => exact ⟨m'.strings, rfl, h.strings, rfl, fun p x hx _ => hx⟩
  | some p =>
    obtain ⟨x, hx⟩ := hholds.there hp
    refine ⟨m'.strings.release p, ?_, h.strings.release (howned.new field p hp),
      Store.next_release .., fun q y hy hq => ?_⟩
    · show (orDangling (m'.strings.read p) >>= _) = _
      rw [hx]
      rfl
    · rw [Store.read_release_ne fun e => hq (congrArg some e.symm)]
      exact hy

/-- **A setter keeps the other strings of the object, and what is not of the object.** -/
theorem setString_fresh (h : Fresh m m' c v) (field : AttributeString) (text : Option CString) :
    ∃ m'', setString field m' c text = .ok m'' ∧ Fresh m m'' c (withString v field text) := by
  obtain ⟨attr, hread, hholds, howned⟩ := h.object
  obtain ⟨t, hfree, hextends, hnext, hkept⟩ := h.free hholds howned field
  unfold setString
  rw [hread]
  show ∃ m'', (m'.free (attr.pointer field) >>= _) = .ok m'' ∧ _
  rw [hfree]
  cases text with
  | none =>
    refine ⟨_, rfl, hextends, h.attributes.write h.new _, h.subjects, h.new, _,
      Store.read_write_self hread _, hholds.point howned hkept rfl,
      howned.point field fun p hp => by cases hp⟩
  | some text =>
    obtain ⟨hpointer, hvalues⟩ := hholds.not_next
    refine ⟨_, rfl, hextends.make text, h.attributes.write h.new _, h.subjects, h.new, _,
      Store.read_write_self hread _, ?_, ?_⟩
    · exact hholds.point howned (fun p x hx hp => Store.read_make_old (hkept p x hx hp) text)
        (congrArg some (Store.read_make_self t text))
    · refine howned.point field fun p hp => ?_
      obtain rfl : t.next = p := Option.some.inj hp
      rw [hnext]
      exact ⟨h.strings.next, hpointer, hvalues⟩

/-- A value is added behind the others. -/
theorem addvalue_fresh (h : Fresh m m' c v) (value : CString) :
    ∃ m'', xacmlAttributeAddvalue m' c value = .ok m'' ∧
      Fresh m m'' c { v with values := v.values ++ [value] } := by
  obtain ⟨attr, hread, hholds, howned⟩ := h.object
  obtain ⟨hpointer, -⟩ := hholds.not_next
  have hmake : m'.strings.Extends (m'.strings.make value) := (Store.Extends.refl _).make value
  unfold xacmlAttributeAddvalue
  show ∃ m'', (orDangling (m'.attributes.read c) >>= _) = .ok m'' ∧ _
  rw [hread]
  refine ⟨_, rfl, h.strings.make value, h.attributes.write h.new _, h.subjects, h.new, _,
    Store.read_write_self hread _, ⟨fun field => ?_, ?_⟩, howned.new, howned.distinct,
    fun field p hp => ?_⟩
  · cases field <;> exact TextAt.mono hmake (hholds.strings _)
  · exact List.rel_append (hholds.mono hmake).values
      (.cons (Store.read_make_self m'.strings value) .nil)
  · show p ∉ attr.values ++ [m'.strings.next]
    rw [List.mem_append, List.mem_singleton]
    exact not_or.mpr ⟨howned.values field p hp, fun e => hpointer field (e ▸ hp)⟩

theorem xacmlAttributeCreate_fresh (m : Memory) (id : Option CString) :
    Fresh m (xacmlAttributeCreate m id).2 (xacmlAttributeCreate m id).1 ⟨id, none, none, []⟩ := by
  have hvalues : ∀ {p? : Option Nat} field p,
      update (fun _ => none) AttributeString.id p? field = some p → field = .id ∧ p? = some p := by
    intro p? field p hp
    cases field with
    | id => exact ⟨rfl, hp⟩
    | datatype => cases hp
    | issuer => cases hp
  cases id with
  | none =>
    refine ⟨.refl _, (Store.Extends.refl _).make _, rfl, Nat.le_refl _, _,
      Store.read_make_self .., ⟨fun field => by cases field <;> rfl, .nil⟩, ?_⟩
    exact ⟨fun field p hp => (nomatch (hvalues field p hp).2),
      fun f g p hf hg => (hvalues f p hf).1.trans (hvalues g p hg).1.symm,
      fun field p hp => List.not_mem_nil⟩
  | some id =>
    refine ⟨(Store.Extends.refl _).make id, (Store.Extends.refl _).make _, rfl, Nat.le_refl _, _,
      Store.read_make_self .., ⟨fun field => ?_, .nil⟩, ?_⟩
    · cases field with
      | id => exact congrArg some (Store.read_make_self m.strings id)
      | datatype => rfl
      | issuer => rfl
    · refine ⟨fun field p hp => ?_, fun f g p hf hg => ?_, fun field p hp => List.not_mem_nil⟩
      · exact Nat.le_of_eq (Option.some.inj (hvalues field p hp).2)
      · exact (hvalues f p hf).1.trans (hvalues g p hg).1.symm

/-! ## 5. The clone -/

/-- A round of the loop over the values. -/
theorem cloneValue_fresh {w : XacmlAttribute} (horiginal : AttributeAt m a w) {i : Nat}
    {value : CString} (hvalue : w.values[i]? = some value) (h : Fresh m m' c v) :
    ∃ m'', cloneValue a c m' i = .ok m'' ∧
      Fresh m m'' c { v with values := v.values ++ [value] } := by
  obtain ⟨attr, hread, hholds⟩ := horiginal.mono h.strings h.attributes
  obtain ⟨p, hp, htext⟩ := forall₂_getElem? hholds.values hvalue
  unfold cloneValue
  rw [hread]
  show ∃ m'', (orDangling (attr.values[i]?.bind m'.strings.read) >>= _) = .ok m'' ∧ _
  rw [hp]
  show ∃ m'', (orDangling (m'.strings.read p) >>= _) = .ok m'' ∧ _
  rw [htext]
  exact addvalue_fresh h value

/-- **A clone is a new object with the strings of the original, and owns its own.** -/
theorem xacmlAttributeClone_fresh (horiginal : AttributeAt m a v) :
    ∃ c m', xacmlAttributeClone m a = .ok (c, m') ∧ Fresh m m' c v := by
  have hcreate := xacmlAttributeCreate_fresh m v.id
  obtain ⟨m₁, hdatatype, hfresh₁⟩ := setString_fresh hcreate .datatype v.datatype
  obtain ⟨m₂, hissuer, hfresh₂⟩ := setString_fresh hfresh₁ .issuer v.issuer
  obtain ⟨attr, hread, hholds⟩ := horiginal.mono hfresh₂.strings hfresh₂.attributes
  have hround : ∀ i m', i < v.values.length →
      Fresh m m' (xacmlAttributeCreate m v.id).1 { v with values := v.values.take i } →
      ∃ m'', cloneValue a (xacmlAttributeCreate m v.id).1 m' i = .ok m'' ∧
        Fresh m m'' (xacmlAttributeCreate m v.id).1 { v with values := v.values.take (i + 1) } := by
    intro i m' hi h
    have hvalue := List.getElem?_eq_getElem hi
    rw [List.take_add_one, hvalue]
    exact cloneValue_fresh horiginal hvalue h
  obtain ⟨m₃, hvalues, hfresh₃⟩ := walk_keeps hround hfresh₂
  rw [List.take_length] at hfresh₃
  refine ⟨_, m₃, ?_, hfresh₃⟩
  unfold xacmlAttributeClone
  rw [string_eq horiginal]
  show ((xacmlAttributeCreate m v.id).2.string a .datatype >>= _) = _
  rw [string_eq (horiginal.mono hcreate.strings hcreate.attributes)]
  show (setString .datatype (xacmlAttributeCreate m v.id).2 (xacmlAttributeCreate m v.id).1
    v.datatype >>= _) = _
  rw [hdatatype]
  show (m₁.string a .issuer >>= _) = _
  rw [string_eq (horiginal.mono hfresh₁.strings hfresh₁.attributes)]
  show (setString .issuer m₁ (xacmlAttributeCreate m v.id).1 v.issuer >>= _) = _
  rw [hissuer]
  show (orDangling (m₂.attributes.read a) >>= _) = _
  rw [hread]
  show (walk (cloneValue a (xacmlAttributeCreate m v.id).1) 0 attr.values.length m₂ >>= _) = _
  rw [hholds.values.length_eq, hvalues]
  rfl

end New

end ArgusPep.Objects
