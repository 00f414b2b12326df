/-
  File:      ArgusPep/Hessian/ListRefs.lean
  Subject:   When the resolution of the Refs of a list is sound.

  * `ListSound` -- no object of the list is a Ref or deleted, a later `hessian_delete` deletes each
    of them once; and where the call fails, no object is deleted twice;
  * `RefsPlain` -- every Ref names an element that is no Ref;
  * `readElements_spec`, `linkElements_done`, `linkElements_again` -- the two loops;
  * `listSound_iff` -- the resolution is sound exactly for such lists, unless a clean-up is reached
    that deletes an object again;
  * `linkElements_returns_iff` -- the deserializer of Deserialize.lean returns from its last loop
    where this one does, with the same pointers.
-/
import ArgusPep.Hessian.Deserialize
import ArgusPep.Hessian.Deletions

namespace ArgusPep.Deletions

open Lib Run

/-! ## 1. Deleting all of a list -/

theorem forM_hessianDelete {ι : Type} (list deleted : List ι) :
    list.forM hessianDelete deleted = .done () (deleted ++ list) := by
  induction list generalizing deleted with
  | nil => rw [List.append_nil]; rfl
  | cons o list ih =>
    have hstep : (o :: list).forM hessianDelete deleted = list.forM hessianDelete (deleted ++ [o]) :=
      rfl
    rw [hstep, ih, List.append_assoc]
    rfl

section Delete

variable {ι : Type} [DecidableEq ι] {list deleted : List ι} {o : ι}

/-- The distinct objects of a list, each once. -/
theorem llistDeleteElements_done (list deleted : List ι) :
    llistDeleteElements true list hessianDelete deleted = .done () (deleted ++ uniqueElts list) := by
  unfold llistDeleteElements
  rw [if_pos rfl, forM_hessianDelete]

/-- An object of a list that was not deleted before is deleted once with the list. -/
theorem count_deleted (ho : o ∈ list) (hd : o ∉ deleted) :
    (deleted ++ uniqueElts list).count o = 1 := by
  rw [List.count_append, List.count_eq_zero_of_not_mem hd,
    List.count_eq_one_of_mem (uniqueElts_nodup list) (mem_uniqueElts.mpr ho)]

/-- An object of a list that was deleted before is deleted again. -/
theorem not_nodup_deleted (ho : o ∈ list) (hd : o ∈ deleted) :
    ¬ (deleted ++ uniqueElts list).Nodup := fun h =>
  (List.nodup_append.mp h).2.2 o hd o (mem_uniqueElts.mpr ho) rfl

end Delete

theorem llistGet_lt {n j : Nat} {i : CInt} (h : llistGet n i = some j) : j < n := by
  unfold llistGet at h
  split at h
  · cases h
  · cases h
    omega

/-! ## 2. A sound run -/

/-- The object decoded at place `p` is a Ref. -/
def IsRef (decoded : List (Option HessianObject)) (p : Nat) : Prop :=
  ∃ o, decoded[p]? = some (some o) ∧ hessianGettype o = .ref

/-- The resolution of the Refs of a list is sound. -/
structure ListSound (a : ListAnswers) (decoded : List (Option HessianObject)) : Prop where
  /-- On success no object of the list was deleted, and none is a Ref. -/
  kept : ∀ list deleted, hessianListDeserialize a decoded [] = .done list deleted →
    ∀ p ∈ list, p ∉ deleted ∧ ¬ IsRef decoded p
  /-- Then a `hessian_delete` of the list deletes each of its objects for the first and last time. -/
  later : ∀ list deleted, hessianListDeserialize a decoded [] = .done list deleted →
    ∃ all, hessianListDtor true list deleted = .done () all ∧ ∀ p ∈ list, all.count p = 1
  /-- On failure no object was deleted twice. -/
  failed : ∀ deleted, hessianListDeserialize a decoded [] = .failed deleted → deleted.Nodup

/-- Every Ref names an element of the list that is no Ref. -/
def RefsPlain (elements : List HessianObject) : Prop :=
  ∀ value, .ref value ∈ elements → ∃ j o, llistGet elements.length value = some j ∧
    elements[j]? = some o ∧ hessianGettype o ≠ .ref

/-- The last loop is left by one of its error paths: a Ref names no element, or a node is refused. -/
def LeftEarly (a : ListAnswers) (elements : List HessianObject) : Prop :=
  (∃ value, .ref value ∈ elements ∧ llistGet elements.length value = none) ∨
    ∃ i < elements.length, a.node i = false

/-- Every Ref names an element that is none and every node is granted; or the last loop is left
    early and the process is lost in the clean-up. -/
def LinksSoundly (a : ListAnswers) (elements : List HessianObject) : Prop :=
  (RefsPlain elements ∧ ∀ i < elements.length, a.node i = true) ∨
    (LeftEarly a elements ∧ a.scratch = false)

/-- The allocator grants the two lists and the nodes of the first. -/
def ListAnswers.GrantLists (a : ListAnswers) (n : Nat) : Prop :=
  a.refs = true ∧ (∀ i < n, a.refNode i = true) ∧ a.list = true

section Lists

variable {a : ListAnswers}

/-! ## 3. The clean-up -/

/-- The clean-up deletes all elements read, or ends at its scratch array. -/
theorem deleteRefs_cases (a : ListAnswers) (refs : List HessianObject) (before : List Nat) :
    (a.scratch = true ∧
      deleteRefs a refs before = .done () (before ++ uniqueElts (List.range refs.length))) ∨
    (a.scratch = false ∧ refs = [] ∧ deleteRefs a refs before = .done () before) ∨
    (a.scratch = false ∧ deleteRefs a refs before = .fault before) := by
  unfold deleteRefs
  cases hscratch : a.scratch with
  | true => exact .inl ⟨rfl, llistDeleteElements_done _ _⟩
  | false =>
    refine .inr ?_
    unfold llistDeleteElements
    rw [if_neg Bool.false_ne_true]
    cases refs with
    | nil => exact .inl ⟨rfl, rfl, rfl⟩
    | cons o refs =>
      rw [if_neg fun h => by
        have hlength := congrArg List.length h
        rw [List.length_range] at hlength
        cases hlength]
      exact .inr ⟨rfl, rfl⟩

/-- Where only objects that are in no list were deleted before, the clean-up deletes none again. -/
theorem deleteRefs_fresh {α : Type} {refs : List HessianObject} {before deleted : List Nat}
    (hbefore : before.Nodup) (hfresh : ∀ o ∈ before, refs.length ≤ o)
    (h : (deleteRefs a refs >>= fun _ => (fail : Deleting Nat α)) before = .failed deleted) :
    deleted.Nodup := by
  rw [bind_apply] at h
  rcases deleteRefs_cases a refs before with ⟨-, hrun⟩ | ⟨-, -, hrun⟩ | ⟨-, hrun⟩
  · rw [hrun] at h
    cases h
    rw [uniqueElts_of_nodup List.nodup_range]
    refine List.nodup_append.mpr ⟨hbefore, List.nodup_range, fun o ho o' ho' e => ?_⟩
    have hle := hfresh o ho
    have hlt := List.mem_range.mp ho'
    omega
  · rw [hrun] at h
    cases h
    exact hbefore
  · rw [hrun] at h
    cases h

/-- The run deletes an object again, or is lost in the clean-up. -/
def DeletesAgain {α : Type} (a : ListAnswers) (ends : Lib.Outcome (List Nat) α) : Prop :=
  (a.scratch = true → ∃ deleted, ends = .failed deleted ∧ ¬ deleted.Nodup) ∧
    (a.scratch = false → ∃ deleted, ends = .fault deleted)

/-- Where an element of the list was deleted before, the clean-up deletes it again. -/
theorem deleteRefs_again {α : Type} {refs : List HessianObject} {before : List Nat} {o : Nat}
    (ho : o < refs.length) (hbefore : o ∈ before) :
    DeletesAgain a ((deleteRefs a refs >>= fun _ => (fail : Deleting Nat α)) before) := by
  have hmem : o ∈ List.range refs.length := List.mem_range.mpr ho
  unfold DeletesAgain
  rw [bind_apply]
  rcases deleteRefs_cases a refs before with ⟨hs, hrun⟩ | ⟨hs, hempty, hrun⟩ | ⟨hs, hrun⟩
  · rw [hrun, hs]
    exact ⟨fun _ => ⟨_, rfl, not_nodup_deleted hmem hbefore⟩, fun h => by cases h⟩
  · rw [hempty] at ho
    exact absurd ho (Nat.not_lt_zero o)
  · rw [hrun, hs]
    exact ⟨fun h => (by cases h), fun _ => ⟨_, rfl⟩⟩

/-! ## 4. The loop over the input -/

/-- The loop reads all elements, or deletes no object twice. -/
theorem readElements_spec (refs : List HessianObject) (decoded : List (Option HessianObject)) :
    (∃ elements, decoded = elements.map some ∧
      (∀ i < elements.length, a.refNode (refs.length + i) = true) ∧
      readElements a refs decoded [] = .done (refs ++ elements) []) ∨
    ((∀ elements : List HessianObject, decoded = elements.map some →
      ∃ i < elements.length, a.refNode (refs.length + i) = false) ∧
      (∀ found deleted, readElements a refs decoded [] ≠ .done found deleted) ∧
      ∀ deleted, readElements a refs decoded [] = .failed deleted → deleted.Nodup) := by
  induction decoded generalizing refs with
  | nil =>
    refine .inl ⟨[], rfl, fun i hi => absurd hi (Nat.not_lt_zero i), ?_⟩
    rw [List.append_nil]
    rfl
  | cons head rest ih =>
    cases head with
    | none =>
      refine .inr ⟨fun elements h => ?_, fun found deleted h => ?_, fun deleted h => ?_⟩
      · cases elements <;> cases h
      · exact rejects_bind_of_forall (m := deleteRefs a refs) [] (fun _ s => rejects_fail s) _ _ h
      · exact deleteRefs_fresh List.nodup_nil (fun o ho => absurd ho List.not_mem_nil) h
    | some o =>
      unfold readElements
      cases hnode : a.refNode refs.length with
      | false =>
        rw [if_neg Bool.false_ne_true]
        refine .inr ⟨fun elements h => ?_, fun found deleted h => ?_, fun deleted h => ?_⟩
        · cases elements with
          | nil => cases h
          | cons e elements => exact ⟨0, Nat.zero_lt_succ _, hnode⟩
        · exact rejects_bind_of_forall (m := deleteRefs a refs) [refs.length]
            (fun _ s => rejects_fail s) _ _ h
        · refine deleteRefs_fresh (List.nodup_singleton refs.length) (fun o ho => ?_) h
          exact Nat.le_of_eq (List.mem_singleton.mp ho).symm
      | true =>
        rw [if_pos rfl]
        have hlength : (refs ++ [o]).length = refs.length + 1 := by
          rw [List.length_append, List.length_singleton]
        rcases ih (refs ++ [o]) with ⟨elements, hdecoded, hnodes, hrun⟩ | ⟨hnot, hrun⟩
        · refine .inl ⟨o :: elements, by rw [hdecoded]; rfl, fun i hi => ?_, ?_⟩
          · cases i with
            | zero => exact hnode
            | succ i =>
              have hi' := hnodes i (Nat.lt_of_succ_lt_succ hi)
              rw [hlength, Nat.add_assoc, Nat.add_comm 1 i] at hi'
              exact hi'
          · rw [hrun, List.append_assoc]
            rfl
        · refine .inr ⟨fun elements h => ?_, hrun⟩
          cases elements with
          | nil => cases h
          | cons e elements =>
            obtain ⟨i, hi, hrefused⟩ := hnot elements (List.cons.inj h).2
            refine ⟨i + 1, Nat.succ_lt_succ hi, ?_⟩
            rw [hlength, Nat.add_assoc, Nat.add_comm 1 i] at hrefused
            exact hrefused

/-! ## 5. The loop over the references -/

/-- The places of the Refs, the first element being at place `i`. -/
def refPlaces : (i : Nat) → List HessianObject → List Nat
  | _, [] => []
  | i, o :: rest =>
    if hessianGettype o = .ref then i :: refPlaces (i + 1) rest else refPlaces (i + 1) rest

/-- The places of the objects that a loop from place `i` on puts into the list. -/
def linksFrom (n : Nat) (i : Nat) (rest : List HessianObject) : List Nat :=
  (rest.zipIdx i).map fun (object, k) => (refIndex n k object).getD k

theorem mem_refPlaces {i p : Nat} {rest : List HessianObject} :
    p ∈ refPlaces i rest ↔ ∃ k o, p = i + k ∧ rest[k]? = some o ∧ hessianGettype o = .ref := by
  induction rest generalizing i with
  | nil => exact ⟨fun h => absurd h List.not_mem_nil, fun ⟨_, _, _, h, _⟩ => by cases h⟩
  | cons o rest ih =>
    have htail : p ∈ refPlaces (i + 1) rest ↔
        ∃ k o', p = i + (k + 1) ∧ (o :: rest)[k + 1]? = some o' ∧ hessianGettype o' = .ref := by
      rw [ih]
      simp only [List.getElem?_cons_succ, Nat.add_assoc, Nat.add_comm 1]
    unfold refPlaces
    constructor
    · intro h
      split at h
      · rename_i href
        rcases List.mem_cons.mp h with rfl | h
        · exact ⟨0, o, rfl, rfl, href⟩
        · obtain ⟨k, o', hk⟩ := htail.mp h
          exact ⟨k + 1, o', hk⟩
      · obtain ⟨k, o', hk⟩ := htail.mp h
        exact ⟨k + 1, o', hk⟩
    · intro h
      rcases h with ⟨k, o', hp, ho', href⟩
      cases k with
      | zero =>
        cases ho'
        rw [if_pos href]
        exact hp ▸ List.mem_cons_self
      | succ k =>
        have hmem := htail.mpr ⟨k, o', hp, ho', href⟩
        split
        · exact List.mem_cons_of_mem _ hmem
        · exact hmem

/-- An element is taken for itself; or it is a Ref, which is deleted, and the element it names is
    taken; or it names none. -/
theorem realObject_cases (a : ListAnswers) (refs : List HessianObject) (i : Nat) (o : HessianObject)
    (deleted : List Nat) :
    (hessianGettype o ≠ .ref ∧ refIndex refs.length i o = some i ∧
      realObject a refs i o deleted = .done i deleted) ∨
    ∃ value, o = .ref value ∧
      ((∃ j, llistGet refs.length value = some j ∧
        realObject a refs i o deleted = .done j (deleted ++ [i])) ∨
      (llistGet refs.length value = none ∧
        realObject a refs i o deleted = (deleteRefs a refs >>= fun _ => fail) (deleted ++ [i]))) := by
  cases o with
  | ref value =>
    refine .inr ⟨value, rfl, ?_⟩
    cases hget : llistGet refs.length value with
    | some j =>
      have hreal : realObject a refs i (.ref value) = (hessianDelete i >>= fun _ => pure j) := by
        simp only [realObject, hget]
      exact .inl ⟨j, rfl, congrFun hreal deleted⟩
    | none =>
      have hreal : realObject a refs i (.ref value) =
          (hessianDelete i >>= fun _ => deleteRefs a refs >>= fun _ => fail) := by
        simp only [realObject, hget]
      exact .inr ⟨rfl, congrFun hreal deleted⟩
  | _ => exact .inl ⟨fun h => (by cases h), rfl, rfl⟩

/-- **Where every Ref names an element and every node is granted**, the list has the elements
    themselves and those named, and the Refs are deleted. -/
theorem linkElements_done (refs : List HessianObject) (rest : List HessianObject) (i : Nat)
    (list deleted : List Nat)
    (hrefs : ∀ value, .ref value ∈ rest → llistGet refs.length value ≠ none)
    (hnodes : ∀ k < rest.length, a.node (i + k) = true) :
    linkElements a refs i rest list deleted =
      .done (list ++ linksFrom refs.length i rest) (deleted ++ refPlaces i rest) := by
  induction rest generalizing i list deleted with
  | nil =>
    show Lib.Outcome.done list deleted = .done (list ++ []) (deleted ++ [])
    rw [List.append_nil, List.append_nil]
  | cons o rest ih =>
    have hnode : a.node i = true := hnodes 0 (Nat.zero_lt_succ _)
    have htail := fun list deleted => ih (i + 1) list deleted
      (fun value hvalue => hrefs value (List.mem_cons_of_mem _ hvalue)) fun k hk => by
        have hk' := hnodes (k + 1) (Nat.succ_lt_succ hk)
        rwa [← Nat.add_assoc, Nat.add_right_comm] at hk'
    have hstep : ∀ {real : Nat} {deleted' : List Nat},
        realObject a refs i o deleted = .done real deleted' →
        (refIndex refs.length i o).getD i = real →
        deleted' ++ refPlaces (i + 1) rest = deleted ++ refPlaces i (o :: rest) →
        linkElements a refs i (o :: rest) list deleted =
          .done (list ++ linksFrom refs.length i (o :: rest))
            (deleted ++ refPlaces i (o :: rest)) := by
      intro real deleted' hreal hlink hplaces
      unfold linkElements
      rw [bind_done hreal, if_pos hnode, htail, List.append_assoc, hplaces, ← hlink]
      rfl
    rcases realObject_cases a refs i o deleted with
      ⟨hplain, hlink, hreal⟩ | ⟨value, rfl, ⟨j, hget, hreal⟩ | ⟨hget, -⟩⟩
    · refine hstep hreal (by rw [hlink]; rfl) ?_
      rw [refPlaces, if_neg hplain]
    · refine hstep hreal (by rw [refIndex, hget]; rfl) ?_
      have href : hessianGettype (.ref value) = .ref := rfl
      rw [refPlaces, if_pos href, List.append_assoc]
      rfl
    · exact absurd hget (hrefs value List.mem_cons_self)

/-- A second part does not change how a run is lost. -/
theorem DeletesAgain.bind {α β : Type} {m : Deleting Nat α} {f : α → Deleting Nat β}
    {deleted : List Nat} (h : DeletesAgain a (m deleted)) : DeletesAgain a ((m >>= f) deleted) := by
  unfold DeletesAgain
  rw [bind_apply]
  refine ⟨fun hs => ?_, fun hs => ?_⟩
  · obtain ⟨deleted', hrun, hnot⟩ := h.1 hs
    rw [hrun]
    exact ⟨deleted', rfl, hnot⟩
  · obtain ⟨deleted', hrun⟩ := h.2 hs
    rw [hrun]
    exact ⟨deleted', rfl⟩

/-- **Where the loop is left early**, an object is deleted again: the Ref that names no element, or
    the object whose node is refused. -/
theorem linkElements_again (refs : List HessianObject) (rest : List HessianObject) (i : Nat)
    (list deleted : List Nat) (hi : i + rest.length ≤ refs.length)
    (hleft : (∃ value, .ref value ∈ rest ∧ llistGet refs.length value = none) ∨
      ∃ k < rest.length, a.node (i + k) = false) :
    DeletesAgain a (linkElements a refs i rest list deleted) := by
  induction rest generalizing i list deleted with
  | nil =>
    rcases hleft with ⟨value, hvalue, -⟩ | ⟨k, hk, -⟩
    · exact absurd hvalue List.not_mem_nil
    · exact absurd hk (Nat.not_lt_zero k)
  | cons o rest ih =>
    rw [List.length_cons] at hi
    -- the object for the list is found: it is in the list, and the loop is left at it or later
    have hfound : ∀ {real : Nat} {deleted' : List Nat},
        realObject a refs i o deleted = .done real deleted' → real < refs.length →
        (∀ value, o = .ref value → llistGet refs.length value ≠ none) →
        DeletesAgain a (linkElements a refs i (o :: rest) list deleted) := by
      intro real deleted' hreal hlt hhead
      unfold linkElements
      rw [bind_done hreal]
      cases hnode : a.node i with
      | false =>
        rw [if_neg Bool.false_ne_true]
        exact deleteRefs_again hlt (List.mem_append_right deleted' (List.mem_singleton_self real))
      | true =>
        rw [if_pos rfl]
        refine ih (i + 1) _ _ (by omega) (hleft.imp ?_ ?_)
        · intro h
          rcases h with ⟨value, hvalue, hget⟩
          rcases List.mem_cons.mp hvalue with hvalue | hvalue
          · exact absurd hget (hhead value hvalue.symm)
          · exact ⟨value, hvalue, hget⟩
        · intro h
          rcases h with ⟨k, hk, hrefused⟩
          cases k with
          | zero =>
            rw [Nat.add_zero, hnode] at hrefused
            cases hrefused
          | succ k =>
            refine ⟨k, Nat.lt_of_succ_lt_succ hk, ?_⟩
            rwa [Nat.add_right_comm, Nat.add_assoc]
    rcases realObject_cases a refs i o deleted with
      ⟨hplain, -, hreal⟩ | ⟨value, rfl, ⟨j, hget, hreal⟩ | ⟨hget, hreal⟩⟩
    · refine hfound hreal (by omega) fun value ho => ?_
      rw [ho] at hplain
      exact absurd rfl hplain
    · refine hfound hreal (llistGet_lt hget) fun value' ho => ?_
      cases ho
      rw [hget]
      exact fun h => by cases h
    · unfold linkElements
      refine DeletesAgain.bind ?_
      rw [hreal]
      exact deleteRefs_again (o := i) (by omega) (List.mem_append_right _ (List.mem_singleton_self i))

/-! ## 6. The resolution -/

/-- What the list holds of an element. -/
theorem mem_linksFrom {n i p : Nat} {rest : List HessianObject} (h : p ∈ linksFrom n i rest) :
    ∃ k o, rest[k]? = some o ∧ p = (refIndex n (i + k) o).getD (i + k) := by
  obtain ⟨⟨o, k⟩, hmem, rfl⟩ := List.mem_map.mp h
  obtain ⟨hle, hlt, hget⟩ := List.mem_zipIdx hmem
  refine ⟨k - i, o, ?_, ?_⟩
  · rw [List.getElem?_eq_getElem (by omega), hget]
  · rw [Nat.add_sub_cancel' hle]

theorem linksFrom_mem {n k : Nat} {elements : List HessianObject} {o : HessianObject}
    (h : elements[k]? = some o) : (refIndex n k o).getD k ∈ linksFrom n 0 elements :=
  List.mem_map.mpr ⟨(o, k), List.mk_mem_zipIdx_iff_getElem?.mpr h, rfl⟩

theorem eq_ref {o : HessianObject} (h : hessianGettype o = .ref) : ∃ value, o = .ref value := by
  cases o with
  | ref value => exact ⟨value, rfl⟩
  | _ => cases h

theorem refIndex_eq {n i : Nat} {o : HessianObject} (h : hessianGettype o ≠ .ref) :
    refIndex n i o = some i := by
  cases o with
  | ref value => exact absurd rfl h
  | _ => rfl

theorem isRef_map_some {elements : List HessianObject} {p : Nat} :
    IsRef (elements.map some) p ↔ p ∈ refPlaces 0 elements := by
  rw [mem_refPlaces]
  constructor
  · intro h
    rcases h with ⟨o, hget, href⟩
    rw [List.getElem?_map] at hget
    obtain ⟨o', ho', e⟩ := Option.map_eq_some_iff.mp hget
    cases e
    exact ⟨p, o, (Nat.zero_add p).symm, ho', href⟩
  · intro h
    rcases h with ⟨k, o, rfl, hget, href⟩
    refine ⟨o, ?_, href⟩
    rw [Nat.zero_add, List.getElem?_map, hget]
    rfl

/-- Where every Ref names an element that is none, the list holds no Ref. -/
theorem RefsPlain.link {elements : List HessianObject} (h : RefsPlain elements) {p : Nat}
    (hp : p ∈ linksFrom elements.length 0 elements) : p ∉ refPlaces 0 elements := by
  obtain ⟨k, o, hget, rfl⟩ := mem_linksFrom hp
  rw [mem_refPlaces]
  intro hplace
  rcases hplace with ⟨k', o', hk', hget', href⟩
  rw [Nat.zero_add, Nat.zero_add] at hk'
  by_cases ho : hessianGettype o = .ref
  · obtain ⟨value, rfl⟩ := eq_ref ho
    obtain ⟨j, target, hj, htarget, hplain⟩ := h value (List.mem_of_getElem? hget)
    rw [refIndex, hj, Option.getD_some] at hk'
    rw [← hk', htarget] at hget'
    cases hget'
    exact hplain href
  · rw [refIndex_eq ho, Option.getD_some] at hk'
    rw [← hk', hget] at hget'
    cases hget'
    exact ho href

/-- Where the list holds no Ref and every Ref names an element, the elements named are none. -/
theorem refsPlain_of_links {elements : List HessianObject}
    (hrefs : ∀ value, .ref value ∈ elements → llistGet elements.length value ≠ none)
    (hlinks : ∀ p ∈ linksFrom elements.length 0 elements, p ∉ refPlaces 0 elements) :
    RefsPlain elements := by
  intro value hvalue
  obtain ⟨k, hk⟩ := List.mem_iff_getElem?.mp hvalue
  obtain ⟨j, hj⟩ := Option.ne_none_iff_exists'.mp (hrefs value hvalue)
  have hlt := llistGet_lt hj
  refine ⟨j, elements[j], hj, List.getElem?_eq_getElem hlt, fun href => ?_⟩
  have hlink := linksFrom_mem (n := elements.length) hk
  rw [refIndex, hj, Option.getD_some] at hlink
  exact hlinks j hlink (mem_refPlaces.mpr
    ⟨j, elements[j], (Nat.zero_add j).symm, List.getElem?_eq_getElem hlt, href⟩)

/-- The lists are granted and every element is read: the call is its last loop. -/
theorem hessianListDeserialize_eq {elements : List HessianObject}
    (h : a.GrantLists elements.length) :
    hessianListDeserialize a (elements.map some) [] = linkElements a elements 0 elements [] [] := by
  have hread : readElements a [] (elements.map some) [] = .done elements [] := by
    rcases readElements_spec (a := a) [] (elements.map some) with ⟨found, hfound, -, hrun⟩ | ⟨hnot, -⟩
    · rw [hrun, List.nil_append, (List.map_inj_right fun _ _ h => Option.some.inj h).mp hfound]
    · obtain ⟨i, hi, hrefused⟩ := hnot elements rfl
      rw [List.length_nil, Nat.zero_add, h.2.1 i hi] at hrefused
      cases hrefused
  unfold hessianListDeserialize
  rw [if_pos h.1, bind_done hread, if_pos h.2.2]

/-- A call that ends before its last loop returns nothing, and deletes no object twice. -/
theorem hessianListDeserialize_early {decoded : List (Option HessianObject)}
    (h : ∀ elements : List HessianObject, decoded = elements.map some →
      ¬ a.GrantLists elements.length) : ListSound a decoded := by
  have hend : (∀ list deleted, hessianListDeserialize a decoded [] ≠ .done list deleted) ∧
      ∀ deleted, hessianListDeserialize a decoded [] = .failed deleted → deleted.Nodup := by
    unfold hessianListDeserialize
    cases hrefs : a.refs with
    | false =>
      rw [if_neg Bool.false_ne_true]
      refine ⟨fun list deleted h => (by cases h), fun deleted h => ?_⟩
      cases h
      exact List.nodup_nil
    | true =>
      rw [if_pos rfl]
      rcases readElements_spec (a := a) [] decoded with ⟨elements, hdecoded, hnodes, hrun⟩ | ⟨-, hrun⟩
      · cases hlist : a.list with
        | true =>
          refine absurd ⟨hrefs, fun i hi => ?_, hlist⟩ (h elements hdecoded)
          rw [← hnodes i hi, List.length_nil, Nat.zero_add]
        | false =>
          rw [bind_done hrun, if_neg Bool.false_ne_true]
          refine ⟨fun list deleted h => ?_, fun deleted h => ?_⟩
          · exact rejects_bind_of_forall (m := deleteRefs a _) [] (fun _ s => rejects_fail s) _ _ h
          · exact deleteRefs_fresh List.nodup_nil (fun o ho => absurd ho List.not_mem_nil) h
      · refine ⟨fun list deleted h => ?_, fun deleted h => ?_⟩
        · obtain ⟨found, deleted', hfound, -⟩ := bind_eq_done h
          exact hrun.1 found deleted' hfound
        · rw [bind_apply] at h
          cases hread : readElements a [] decoded [] with
          | done found deleted' => exact absurd hread (hrun.1 found deleted')
          | failed deleted' =>
            rw [hread] at h
            cases h
            exact hrun.2 deleted hread
          | fault deleted' => rw [hread] at h; cases h
          | stuck => rw [hread] at h; cases h
  exact ⟨fun list deleted h => absurd h (hend.1 list deleted),
    fun list deleted h => absurd h (hend.1 list deleted), hend.2⟩

/-- The last loop, where it is not left early. -/
theorem linkElements_whole {elements : List HessianObject} (h : ¬ LeftEarly a elements) :
    linkElements a elements 0 elements [] [] =
      .done (linksFrom elements.length 0 elements) (refPlaces 0 elements) := by
  refine linkElements_done elements elements 0 [] [] (fun value hvalue hget => ?_) fun i hi => ?_
  · exact h (.inl ⟨value, hvalue, hget⟩)
  · cases hnode : a.node (0 + i) with
    | true => rfl
    | false => exact absurd (.inr ⟨i, hi, Nat.zero_add i ▸ hnode⟩) h

theorem linkElements_early {elements : List HessianObject} (h : LeftEarly a elements) :
    DeletesAgain a (linkElements a elements 0 elements [] []) := by
  refine linkElements_again elements elements 0 [] [] (Nat.le_of_eq (Nat.zero_add _)) (h.imp id ?_)
  intro hnode
  rcases hnode with ⟨i, hi, hrefused⟩
  exact ⟨i, hi, (Nat.zero_add i).symm ▸ hrefused⟩

/-- A list without an early end whose Refs name no Refs. -/
theorem listSound_of_refsPlain {elements : List HessianObject}
    (hgrant : a.GrantLists elements.length)
    (hplain : RefsPlain elements) (hnodes : ∀ i < elements.length, a.node i = true) :
    ListSound a (elements.map some) := by
  have hearly : ¬ LeftEarly a elements := by
    intro h
    rcases h with ⟨value, hvalue, hget⟩ | ⟨i, hi, hrefused⟩
    · obtain ⟨j, o, hj, -⟩ := hplain value hvalue
      rw [hget] at hj
      cases hj
    · rw [hnodes i hi] at hrefused
      cases hrefused
  have hrun := (hessianListDeserialize_eq hgrant).trans (linkElements_whole hearly)
  refine ⟨fun list deleted h => ?_, fun list deleted h => ?_, fun deleted h => ?_⟩
  · rw [hrun] at h
    cases h
    exact fun p hp => ⟨hplain.link hp, fun href => hplain.link hp (isRef_map_some.mp href)⟩
  · rw [hrun] at h
    cases h
    exact ⟨_, llistDeleteElements_done _ _, fun p hp => count_deleted hp (hplain.link hp)⟩
  · rw [hrun] at h
    cases h

/-- **The resolution of the Refs of a list is sound exactly when its last loop, if it is reached,
    links soundly**, whatever was decoded and whatever the allocator answers. -/
theorem listSound_iff (a : ListAnswers) (decoded : List (Option HessianObject)) :
    ListSound a decoded ↔ ∀ elements : List HessianObject, decoded = elements.map some →
      a.GrantLists elements.length → LinksSoundly a elements := by
  constructor
  · intro hsound elements hdecoded hgrant
    subst hdecoded
    have hrun := hessianListDeserialize_eq hgrant
    by_cases hearly : LeftEarly a elements
    · cases hscratch : a.scratch with
      | false => exact .inr ⟨hearly, hscratch⟩
      | true =>
        obtain ⟨deleted, hfailed, hagain⟩ := (linkElements_early hearly).1 hscratch
        exact absurd (hsound.failed deleted (hrun.trans hfailed)) hagain
    · have hkept := hsound.kept _ _ (hrun.trans (linkElements_whole hearly))
      refine .inl ⟨refsPlain_of_links (fun value hvalue hget => ?_) fun p hp => (hkept p hp).1,
        fun i hi => ?_⟩
      · exact hearly (.inl ⟨value, hvalue, hget⟩)
      · cases hnode : a.node i with
        | true => rfl
        | false => exact absurd (.inr ⟨i, hi, hnode⟩) hearly
  · intro h
    by_cases hread : ∃ elements : List HessianObject, decoded = elements.map some ∧
        a.GrantLists elements.length
    · obtain ⟨elements, rfl, hgrant⟩ := hread
      rcases h elements rfl hgrant with ⟨hplain, hnodes⟩ | ⟨hearly, hscratch⟩
      · exact listSound_of_refsPlain hgrant hplain hnodes
      · obtain ⟨deleted, hfault⟩ := (linkElements_early hearly).2 hscratch
        have hrun := (hessianListDeserialize_eq hgrant).trans hfault
        refine ⟨fun list deleted h => ?_, fun list deleted h => ?_, fun deleted h => ?_⟩
        · rw [hrun] at h
          cases h
        · rw [hrun] at h
          cases h
        · rw [hrun] at h
          cases h
    · exact hessianListDeserialize_early fun elements hdecoded hgrant =>
        hread ⟨elements, hdecoded, hgrant⟩

/-- A Ref to itself: the list holds the deleted Ref. -/
theorem selfRef_unsound :
    ¬ ListSound ⟨true, fun _ => true, true, fun _ => true, true⟩ [some (.ref 0)] := by
  intro h
  exact (h.kept [0] [0] rfl 0 List.mem_cons_self).1 List.mem_cons_self

end Lists

/-! ## 7. The last loop of the deserializer -/

/-- The answers of an allocator to the requests of so many list nodes. -/
def nodeAnswers : Mem → Nat → Bool
  | mem, 0 => mem.grants 16
  | mem, i + 1 => nodeAnswers (mem.after 16) i

/-- The reader behind a list node. -/
def afterNode (n : Nat) (o : HessianObject) (s : Reader) : Reader :=
  { s with mem := s.mem.after 16, steps := .linkElement n o s.mem :: s.steps }

/-- One element. -/
theorem linkElements_cons (n : Nat) (o : HessianObject) (rest : List HessianObject) (s : Reader)
    (t : Reader) : ArgusPep.linkElements n (o :: rest) s = .done () t ↔
      refIndex n 0 o ≠ none ∧ s.mem.grants 16 = true ∧
        ArgusPep.linkElements n rest (afterNode n o s) = .done () t := by
  have hvisit : ArgusPep.linkElements n (o :: rest) s =
      (if (refIndex n 0 o).isNone then undefined
        else do if ← llistAdd then ArgusPep.linkElements n rest else undefined : Reading Unit)
        { s with steps := .linkElement n o s.mem :: s.steps } := rfl
  rw [hvisit]
  cases hindex : refIndex n 0 o with
  | none => exact ⟨fun h => (by cases h), fun h => absurd rfl h.1⟩
  | some j =>
    have hadd : (if (some j).isNone then undefined
        else do if ← llistAdd then ArgusPep.linkElements n rest else undefined : Reading Unit)
        { s with steps := .linkElement n o s.mem :: s.steps } =
      (if s.mem.grants 16 then ArgusPep.linkElements n rest else undefined : Reading Unit)
        (afterNode n o s) := rfl
    rw [hadd]
    cases hgrant : s.mem.grants 16 with
    | false => exact ⟨fun h => (by cases h), fun h => (by cases h.2.1)⟩
    | true => exact ⟨fun h => ⟨fun e => (by cases e), rfl, h⟩, fun h => h.2.2⟩

/-- An element takes part unless it is a Ref that names none. -/
theorem refIndex_none {n i : Nat} {o : HessianObject} :
    refIndex n i o = none ↔ ∃ value, o = .ref value ∧ llistGet n value = none := by
  by_cases href : hessianGettype o = .ref
  · obtain ⟨value, rfl⟩ := eq_ref href
    exact ⟨fun h => ⟨value, rfl, h⟩, fun ⟨_, e, h⟩ => by cases e; exact h⟩
  · rw [refIndex_eq href]
    exact ⟨fun h => (by cases h), fun ⟨_, e, _⟩ => absurd (e ▸ rfl) href⟩

/-- **The deserializer leaves its last loop early where this one does.** -/
theorem linkElements_returns_iff (a : ListAnswers) (elements : List HessianObject) (s : Reader)
    (ha : ∀ i, a.node i = nodeAnswers s.mem i) :
    (∃ t, ArgusPep.linkElements elements.length elements s = .done () t) ↔
      ¬ LeftEarly a elements := by
  have hloop : ∀ (n : Nat) (rest : List HessianObject) (s : Reader),
      (∃ t, ArgusPep.linkElements n rest s = .done () t) ↔
        (∀ value, .ref value ∈ rest → llistGet n value ≠ none) ∧
          ∀ k < rest.length, nodeAnswers s.mem k = true := by
    intro n rest
    induction rest with
    | nil =>
      intro s
      refine ⟨fun _ => ⟨fun _ h => absurd h List.not_mem_nil, fun k hk => ?_⟩, fun _ => ⟨s, rfl⟩⟩
      exact absurd hk (Nat.not_lt_zero k)
    | cons o rest ih =>
      intro s
      simp only [linkElements_cons, exists_and_left, ih (afterNode n o s)]
      constructor
      · intro h
        rcases h with ⟨hindex, hgrant, hrefs, hnodes⟩
        refine ⟨fun value hvalue hget => ?_, fun k hk => ?_⟩
        · rcases List.mem_cons.mp hvalue with rfl | hvalue
          · exact hindex hget
          · exact hrefs value hvalue hget
        · cases k with
          | zero => exact hgrant
          | succ k => exact hnodes k (Nat.lt_of_succ_lt_succ hk)
      · intro h
        rcases h with ⟨hrefs, hnodes⟩
        refine ⟨fun hnone => ?_, hnodes 0 (Nat.zero_lt_succ _), fun value hvalue => ?_,
          fun k hk => ?_⟩
        · obtain ⟨value, rfl, hget⟩ := refIndex_none.mp hnone
          exact hrefs value List.mem_cons_self hget
        · exact hrefs value (List.mem_cons_of_mem _ hvalue)
        · exact hnodes (k + 1) (Nat.succ_lt_succ hk)
  rw [hloop]
  unfold LeftEarly
  constructor
  · intro hreturns hearly
    rcases hreturns with ⟨hrefs, hnodes⟩
    rcases hearly with ⟨value, hvalue, hget⟩ | ⟨i, hi, hrefused⟩
    · exact hrefs value hvalue hget
    · rw [ha, hnodes i hi] at hrefused
      cases hrefused
  · intro h
    refine ⟨fun value hvalue hget => h (.inl ⟨value, hvalue, hget⟩), fun k hk => ?_⟩
    cases hnode : nodeAnswers s.mem k with
    | true => rfl
    | false => exact absurd (.inr ⟨k, hk, (ha k).trans hnode⟩) h

/-- Both give the same pointers. -/
theorem linksFrom_eq_listLinks (elements : List HessianObject) :
    linksFrom elements.length 0 elements = listLinks elements := rfl

/-- A list is deleted by its distinct pointers, in their order. -/
theorem hessianListDtor_listLinks (elements : List HessianObject) (deleted : List Nat) :
    hessianListDtor true (listLinks elements) deleted =
      .done () (deleted ++ (listLinks elements).eraseDups) := by
  rw [← uniqueElts_eq_eraseDups]
  exact llistDeleteElements_done _ _

end ArgusPep.Deletions
