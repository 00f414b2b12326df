/-
  File:      ArgusPep/Hessian/MapRefs.lean
  Subject:   When the resolution of the Refs of a map is sound.

  * `MapSound` -- where the call succeeds, no value of the map was deleted, a Ref into the map stands
    for the object at the end of its chain, and a later `hessian_delete` deletes each key and value
    once;
  * `ForwardPlain` -- no Ref into the map names itself or a later one;
  * `linksUpTo` -- the value pointers in the middle of the loop, `linkPairs_done` -- the loop;
  * `mapSound_iff` -- the resolution is sound exactly for such maps, where the call succeeds;
  * `linkPairs_returns_iff` -- the deserializer of Deserialize.lean returns from its last loop where
    this one does, and `mapLinks` are its pointers.
-/
import ArgusPep.Hessian.ListRefs

namespace ArgusPep.Deletions

open Lib Run

/-! ## 1. A sound run -/

abbrev DecodedPairs := List (Option HessianObject × Option HessianObject)

/-- The value decoded with the pair at place `i`. -/
def valueAt (decoded : DecodedPairs) (i : Nat) : Option HessianObject := decoded[i]?.bind Prod.snd

/-- The value at place `i` is a Ref with an index inside the map. -/
def NamesPair (decoded : DecodedPairs) (i : Nat) : Prop :=
  ∃ value j, valueAt decoded i = some (.ref value) ∧ llistGet decoded.length value = some j

/-- From the value at place `i`, the indices of Refs lead to the one at place `k`, which is none. -/
inductive Follows (decoded : DecodedPairs) : Nat → Nat → Prop where
  | here {i : Nat} {o : HessianObject} (ho : valueAt decoded i = some o)
    (hplain : hessianGettype o ≠ .ref) : Follows decoded i i
  | ref {i j k : Nat} {value : CInt} (hvalue : valueAt decoded i = some (.ref value))
    (hj : llistGet decoded.length value = some j) (hk : Follows decoded j k) : Follows decoded i k

/-- The resolution of the Refs of a map is sound. -/
structure MapSound (a : MapAnswers) (decoded : DecodedPairs) : Prop where
  /-- On success no value of the map was deleted. -/
  kept : ∀ values deleted, hessianMapDeserialize a decoded [] = .done values deleted →
    ∀ p ∈ values, .value p ∉ deleted
  /-- Then a Ref with an index inside the map is the object that its chain leads to. -/
  followed : ∀ values deleted, hessianMapDeserialize a decoded [] = .done values deleted →
    ∀ i k, NamesPair decoded i → Follows decoded i k → values[i]? = some k
  /-- And a `hessian_delete` of the map deletes each key and value for the first and last time. -/
  later : ∀ values deleted, hessianMapDeserialize a decoded [] = .done values deleted →
    ∃ all, hessianMapDtor .granted values deleted = .done () all ∧
      (∀ i < values.length, all.count (.key i) = 1) ∧ ∀ p ∈ values, all.count (.value p) = 1

/-- No Ref with an index inside the map names itself, or a later pair whose value is such a Ref. -/
def ForwardPlain (decoded : DecodedPairs) : Prop :=
  ∀ i j value, valueAt decoded i = some (.ref value) → llistGet decoded.length value = some j →
    i ≤ j → ¬ NamesPair decoded j

/-- The allocator grants the lists, the pairs and the nodes. -/
def MapAnswers.GrantMap (a : MapAnswers) (n : Nat) : Prop :=
  a.refs = true ∧ (∀ i < n, a.pair i = true ∧ a.refNode i = true) ∧ a.map = true ∧
    ∀ i < n, a.node i = true

/-- Pairs that could all be deserialized. -/
def decodedPairs (pairs : List (HessianObject × HessianObject)) : DecodedPairs :=
  pairs.map fun pair => (some pair.1, some pair.2)

/-! ## 2. The value pointers along the loop -/

/-- The pointer that the value `object` of the pair at place `i` becomes, after the pointers
    `links`. -/
def linkOf (n : Nat) (links : List Nat) (object : HessianObject) (i : Nat) : Nat :=
  links.getD ((refIndex n i object).getD i) ((refIndex n i object).getD i)

/-- The pointers of the first `i` pairs, once they are resolved. -/
def linksUpTo (objects : List HessianObject) : Nat → List Nat
  | 0 => []
  | i + 1 =>
    linksUpTo objects i ++
      (objects[i]?.map fun object => linkOf objects.length (linksUpTo objects i) object i).toList

/-- The value pointers of all pairs when `i` are resolved. -/
def pointersAt (objects : List HessianObject) (i : Nat) : List Nat :=
  linksUpTo objects i ++ List.range' i (objects.length - i)

section Links

variable {objects : List HessianObject}

theorem linksUpTo_length (objects : List HessianObject) {i : Nat} (hi : i ≤ objects.length) :
    (linksUpTo objects i).length = i := by
  induction i with
  | zero => rfl
  | succ i ih =>
    rw [linksUpTo, List.length_append, ih (by omega), List.getElem?_eq_getElem (by omega)]
    rfl

theorem linksUpTo_succ {i : Nat} {o : HessianObject} (ho : objects[i]? = some o) :
    linksUpTo objects (i + 1) =
      linksUpTo objects i ++ [linkOf objects.length (linksUpTo objects i) o i] := by
  rw [linksUpTo, ho]
  rfl

/-- What is resolved stays. -/
theorem linksUpTo_prefix (objects : List HessianObject) {i m : Nat} (h : i ≤ m) :
    linksUpTo objects i <+: linksUpTo objects m := by
  induction m with
  | zero => exact Nat.le_zero.mp h ▸ List.prefix_rfl
  | succ m ih =>
    rcases Nat.lt_or_ge m i with hlt | hle
    · have heq : i = m + 1 := by omega
      exact heq ▸ List.prefix_rfl
    · exact (ih hle).trans (List.prefix_append _ _)

/-- The fold of `mapLinks` has the same pointers. -/
theorem linksUpTo_eq_mapLinks : linksUpTo objects objects.length = mapLinks objects := by
  have hfold : ∀ i ≤ objects.length, linksUpTo objects i =
      ((objects.take i).zipIdx).foldl (fun links p =>
        links ++ [linkOf objects.length links p.1 p.2]) [] := by
    intro i
    induction i with
    | zero => exact fun _ => rfl
    | succ i ih =>
      intro hi
      have ho : objects[i]? = some objects[i] := List.getElem?_eq_getElem (by omega)
      have hlength : (objects.take i).length = i := List.length_take_of_le (by omega)
      rw [linksUpTo_succ ho, List.take_succ_eq_append_getElem (by omega), List.zipIdx_append,
        List.foldl_append, ← ih (by omega), hlength, Nat.zero_add]
      rfl
  rw [hfold _ (Nat.le_refl _), List.take_length]
  rfl

/-- Before the loop every pair has its own value. -/
theorem pointersAt_zero : pointersAt objects 0 = List.range objects.length := by
  unfold pointersAt
  rw [Nat.sub_zero, List.range_eq_range']
  rfl

theorem pointersAt_length : pointersAt objects objects.length = mapLinks objects := by
  unfold pointersAt
  rw [Nat.sub_self, linksUpTo_eq_mapLinks]
  exact List.append_nil _

/-- In the middle, a pair has its new pointer or its own value. -/
theorem pointersAt_get {i j : Nat} (hi : i ≤ objects.length) (hj : j < objects.length) :
    (pointersAt objects i)[j]? = some ((linksUpTo objects i).getD j j) := by
  have hlength := linksUpTo_length objects hi
  unfold pointersAt
  rcases Nat.lt_or_ge j i with hlt | hge
  · rw [List.getElem?_append_left (by omega), List.getD_eq_getElem _ _ (by omega),
      List.getElem?_eq_getElem (by omega)]
  · rw [List.getElem?_append_right (by omega), hlength, List.getD_eq_default _ _ (by omega),
      List.getElem?_range' (by omega)]
    congr 1
    omega

/-- The next pair takes its place. -/
theorem pointersAt_succ {i : Nat} {o : HessianObject} (ho : objects[i]? = some o) :
    (pointersAt objects i).set i (linkOf objects.length (linksUpTo objects i) o i) =
      pointersAt objects (i + 1) := by
  have hi : i < objects.length := (List.getElem?_eq_some_iff.mp ho).1
  have hlength := linksUpTo_length objects (Nat.le_of_lt hi)
  have hcount : objects.length - i = (objects.length - (i + 1)) + 1 := by omega
  unfold pointersAt
  rw [List.set_append_right _ _ (by omega), hlength, Nat.sub_self, hcount, List.range'_succ,
    List.set_cons_zero, linksUpTo_succ ho, List.append_assoc]
  rfl

/-! ## 3. The loop -/

/-- The Refs of the first `i` pairs that name a pair, as objects. -/
def namesUpTo (objects : List HessianObject) (i : Nat) : List MapObject :=
  ((List.range i).filter (mapDangling objects)).map .value

theorem namesUpTo_succ (i : Nat) :
    namesUpTo objects (i + 1) =
      namesUpTo objects i ++ if mapDangling objects i then [.value i] else [] := by
  unfold namesUpTo
  rw [List.range_succ, List.filter_append, List.map_append]
  cases h : mapDangling objects i with
  | true =>
    rw [List.filter_cons_of_pos h, if_pos rfl]
    rfl
  | false =>
    rw [List.filter_cons_of_neg (by rw [h]; exact Bool.false_ne_true), if_neg Bool.false_ne_true]
    rfl

theorem value_mem_namesUpTo {i p : Nat} :
    .value p ∈ namesUpTo objects i ↔ p < i ∧ mapDangling objects p = true := by
  unfold namesUpTo
  constructor
  · intro h
    obtain ⟨q, hq, e⟩ := List.mem_map.mp h
    cases e
    exact ⟨List.mem_range.mp (List.mem_filter.mp hq).1, (List.mem_filter.mp hq).2⟩
  · intro h
    rcases h with ⟨hp, hnames⟩
    exact List.mem_map.mpr ⟨p, List.mem_filter.mpr ⟨List.mem_range.mpr hp, hnames⟩, rfl⟩

theorem key_not_mem_namesUpTo {i k : Nat} : .key k ∉ namesUpTo objects i := by
  intro h
  obtain ⟨q, -, e⟩ := List.mem_map.mp h
  cases e

/-- **One pair**: its value becomes the pointer that `mapLinks` has for it, and is deleted when it is
    a Ref to a pair. -/
theorem resolveValue_step {i : Nat} {o : HessianObject} (ho : objects[i]? = some o)
    (deleted : List MapObject) :
    resolveValue objects (pointersAt objects i) i deleted =
      .done (pointersAt objects (i + 1))
        (deleted ++ if mapDangling objects i then [.value i] else []) := by
  have hi : i < objects.length := (List.getElem?_eq_some_iff.mp ho).1
  have hlength := linksUpTo_length objects (Nat.le_of_lt hi)
  have hself : (linksUpTo objects i).getD i i = i := List.getD_eq_default _ _ (by omega)
  have hown : (pointersAt objects i).getD i i = i := by
    rw [List.getD_eq_getElem?_getD, pointersAt_get (Nat.le_of_lt hi) hi, hself]
    rfl
  -- a value that is no Ref to a pair stays
  have hstays : linkOf objects.length (linksUpTo objects i) o i = i →
      mapDangling objects i = false → resolveValue objects (pointersAt objects i) i =
        pure (pointersAt objects i) →
      resolveValue objects (pointersAt objects i) i deleted =
        .done (pointersAt objects (i + 1))
          (deleted ++ if mapDangling objects i then [.value i] else []) := by
    intro hlink hnames hrun
    have hcount : objects.length - i = (objects.length - (i + 1)) + 1 := by omega
    have hsame : pointersAt objects (i + 1) = pointersAt objects i := by
      unfold pointersAt
      rw [linksUpTo_succ ho, hlink, hcount, List.range'_succ, List.append_assoc]
      rfl
    rw [hrun, hsame, hnames, if_neg Bool.false_ne_true, List.append_nil]
    rfl
  by_cases href : hessianGettype o = .ref
  · obtain ⟨index, rfl⟩ := eq_ref href
    cases hget : llistGet objects.length index with
    | none =>
      refine hstays ?_ ?_ ?_
      · unfold linkOf
        rw [refIndex, hget]
        exact hself
      · simp only [mapDangling, ho, hget, Option.isSome_none]
      · simp only [resolveValue, hown, ho, hget, Option.bind_none]
    | some j =>
      have hreal := pointersAt_get (Nat.le_of_lt hi) (llistGet_lt hget)
      have hlink : linkOf objects.length (linksUpTo objects i) (.ref index) i =
          (linksUpTo objects i).getD j j := by
        unfold linkOf
        rw [refIndex, hget]
        rfl
      have hnames : mapDangling objects i = true := by
        simp only [mapDangling, ho, hget, Option.isSome_some]
      have hrun : resolveValue objects (pointersAt objects i) i =
          (hessianDelete (.value i) >>= fun _ => pure (pointersAt objects (i + 1))) := by
        rw [← pointersAt_succ ho, hlink]
        simp only [resolveValue, hown, ho, hget, Option.bind_some, hreal]
      rw [hrun, hnames, if_pos rfl]
      rfl
  · have hlink : linkOf objects.length (linksUpTo objects i) o i = i := by
      unfold linkOf
      rw [refIndex_eq href]
      exact hself
    cases o with
    | ref index => exact absurd rfl href
    | _ =>
      refine hstays hlink ?_ ?_
      · simp only [mapDangling, ho]
      · simp only [resolveValue, hown, ho]

/-- **The loop, where every node is granted**: the pointers of `mapLinks`, and the Refs to pairs are
    deleted. -/
theorem linkPairs_done (a : MapAnswers) {i m : Nat} (hm : i + m = objects.length)
    (hnodes : ∀ k < objects.length, a.node k = true) :
    linkPairs a objects (List.range' i m) (pointersAt objects i) (namesUpTo objects i) =
      .done (mapLinks objects) (namesUpTo objects objects.length) := by
  induction m generalizing i with
  | zero =>
    rw [Nat.add_zero] at hm
    subst hm
    rw [← pointersAt_length]
    rfl
  | succ m ih =>
    have ho : objects[i]? = some objects[i] := List.getElem?_eq_getElem (by omega)
    rw [List.range'_succ]
    unfold linkPairs
    rw [bind_done (resolveValue_step ho _), ← namesUpTo_succ, if_pos (hnodes i (by omega))]
    exact ih (by omega)

/-- A node that is refused makes the loop fail. -/
theorem linkPairs_rejects (a : MapAnswers) {i m : Nat} (hm : i + m = objects.length)
    {k : Nat} (hik : i ≤ k) (hk : k < objects.length) (hrefused : a.node k = false) :
    Rejects (linkPairs a objects (List.range' i m) (pointersAt objects i)) (namesUpTo objects i) := by
  induction m generalizing i with
  | zero => omega
  | succ m ih =>
    have ho : objects[i]? = some objects[i] := List.getElem?_eq_getElem (by omega)
    rw [List.range'_succ]
    unfold linkPairs
    intro values deleted h
    rw [bind_done (resolveValue_step ho _), ← namesUpTo_succ] at h
    cases hnode : a.node i with
    | false =>
      rw [hnode, if_neg Bool.false_ne_true] at h
      cases h
    | true =>
      have hne : i ≠ k := by
        intro e
        obtain rfl := e
        rw [hrefused] at hnode
        cases hnode
      rw [hnode, if_pos rfl] at h
      exact ih (by omega) (by omega) values deleted h

end Links

/-! ## 4. The whole call -/

section Call

variable {a : MapAnswers}

/-- The loop reads all pairs, or does not return. -/
theorem readPairs_spec (refs : List (HessianObject × HessianObject)) (decoded : DecodedPairs) :
    (∃ pairs, decoded = decodedPairs pairs ∧
      (∀ i < pairs.length, a.pair (refs.length + i) = true ∧ a.refNode (refs.length + i) = true) ∧
      readPairs a refs decoded [] = .done (refs ++ pairs) []) ∨
    ((∀ pairs, decoded = decodedPairs pairs →
      ¬ ∀ i < pairs.length, a.pair (refs.length + i) = true ∧ a.refNode (refs.length + i) = true) ∧
      Rejects (readPairs a refs decoded) []) := by
  induction decoded generalizing refs with
  | nil =>
    refine .inl ⟨[], rfl, fun i hi => absurd hi (Nat.not_lt_zero i), ?_⟩
    rw [List.append_nil]
    rfl
  | cons head rest ih =>
    obtain ⟨key, value⟩ := head
    cases key with
    | none =>
      refine .inr ⟨fun pairs h => (by cases pairs <;> cases h), ?_⟩
      exact rejects_bind_of_forall (m := deletePairs a refs) [] fun _ s => rejects_fail s
    | some key =>
      cases value with
      | none =>
        refine .inr ⟨fun pairs h => (by cases pairs <;> cases h), ?_⟩
        exact rejects_bind_of_forall [] fun _ s => rejects_bind_of_forall s fun _ s => rejects_fail s
      | some value =>
        cases hnode : a.pair refs.length && a.refNode refs.length with
        | false =>
          refine .inr ⟨fun pairs h hnodes => ?_, ?_⟩
          · cases pairs with
            | nil => cases h
            | cons pair pairs =>
              obtain ⟨hpair, hnode'⟩ := hnodes 0 (Nat.zero_lt_succ _)
              rw [Nat.add_zero] at hpair hnode'
              rw [hpair, hnode'] at hnode
              cases hnode
          · unfold readPairs
            rw [hnode, if_neg Bool.false_ne_true]
            exact rejects_bind_of_forall [] fun _ s => rejects_bind_of_forall s fun _ s =>
              rejects_bind_of_forall s fun _ s => rejects_fail s
        | true =>
          have hlength : ∀ i, (refs ++ [(key, value)]).length + i = refs.length + (i + 1) := by
            intro i
            rw [List.length_append, List.length_singleton]
            omega
          have hhere : a.pair refs.length = true ∧ a.refNode refs.length = true :=
            Bool.and_eq_true_iff.mp hnode
          have hstep : readPairs a refs ((some key, some value) :: rest) =
              readPairs a (refs ++ [(key, value)]) rest := by
            rw [readPairs, hnode, if_pos rfl]
          rw [hstep]
          rcases ih (refs ++ [(key, value)]) with ⟨pairs, hdecoded, hnodes, hrun⟩ | ⟨hnot, hrun⟩
          · refine .inl ⟨(key, value) :: pairs, by rw [hdecoded]; rfl, fun i hi => ?_, ?_⟩
            · cases i with
              | zero => exact hhere
              | succ i => exact hlength i ▸ hnodes i (Nat.lt_of_succ_lt_succ hi)
            · rw [hrun, List.append_assoc]
              rfl
          · refine .inr ⟨fun pairs h hnodes => ?_, hrun⟩
            cases pairs with
            | nil => cases h
            | cons pair pairs =>
              refine hnot pairs (List.cons.inj h).2 fun i hi => ?_
              exact (hlength i).symm ▸ hnodes (i + 1) (Nat.succ_lt_succ hi)

/-- **Where the call returns**: everything is read and granted, the pointers are those of `mapLinks`,
    and the Refs to pairs are deleted. -/
theorem hessianMapDeserialize_done_iff (decoded : DecodedPairs) (values : List Nat)
    (deleted : List MapObject) :
    hessianMapDeserialize a decoded [] = .done values deleted ↔
      ∃ pairs, decoded = decodedPairs pairs ∧ a.GrantMap pairs.length ∧
        values = mapLinks (pairs.map Prod.snd) ∧
        deleted = namesUpTo (pairs.map Prod.snd) pairs.length := by
  have hloop : ∀ {pairs : List (HessianObject × HessianObject)},
      readPairs a [] decoded [] = .done pairs [] → a.refs = true → a.map = true →
      hessianMapDeserialize a decoded [] =
        linkPairs a (pairs.map Prod.snd) (List.range' 0 pairs.length)
          (pointersAt (pairs.map Prod.snd) 0) (namesUpTo (pairs.map Prod.snd) 0) := by
    intro pairs hread hrefs hmap
    unfold hessianMapDeserialize
    rw [if_pos hrefs, bind_done hread, if_pos hmap, pointersAt_zero, List.length_map,
      List.range_eq_range']
    rfl
  have hcount : ∀ pairs : List (HessianObject × HessianObject),
      0 + pairs.length = (pairs.map Prod.snd).length := by
    intro pairs
    rw [List.length_map, Nat.zero_add]
  constructor
  · intro h
    cases hrefs : a.refs with
    | false =>
      unfold hessianMapDeserialize at h
      rw [hrefs, if_neg Bool.false_ne_true] at h
      cases h
    | true =>
      rcases readPairs_spec (a := a) [] decoded with ⟨pairs, hdecoded, hnodes, hread⟩ | ⟨-, hread⟩
      · rw [List.nil_append] at hread
        cases hmap : a.map with
        | false =>
          unfold hessianMapDeserialize at h
          rw [if_pos hrefs, bind_done hread, hmap, if_neg Bool.false_ne_true] at h
          exact absurd h (rejects_bind_of_forall (m := deletePairs a pairs) []
            (fun _ s => rejects_fail s) _ _)
        | true =>
          rw [hloop hread hrefs hmap] at h
          by_cases hgrant : ∀ i < pairs.length, a.node i = true
          · rw [linkPairs_done a (hcount pairs) (by rwa [List.length_map])] at h
            cases h
            refine ⟨pairs, hdecoded, ⟨hrefs, fun i hi => ?_, hmap, hgrant⟩, rfl, ?_⟩
            · have hi' := hnodes i hi
              rwa [List.length_nil, Nat.zero_add] at hi'
            · rw [List.length_map]
          · obtain ⟨k, hk⟩ := not_forall.mp hgrant
            obtain ⟨hlt, hrefused⟩ := Classical.not_imp.mp hk
            refine absurd h (linkPairs_rejects a (hcount pairs) (Nat.zero_le k) ?_
              (Bool.eq_false_iff.mpr hrefused) _ _)
            rwa [List.length_map]
      · unfold hessianMapDeserialize at h
        rw [if_pos hrefs] at h
        exact absurd h (hread.bind _ _)
  · intro h
    rcases h with ⟨pairs, rfl, hgrant, rfl, rfl⟩
    have hread : readPairs a [] (decodedPairs pairs) [] = .done pairs [] := by
      rcases readPairs_spec (a := a) [] (decodedPairs pairs) with ⟨found, hfound, -, hrun⟩ | ⟨hnot, -⟩
      · have hsame : pairs = found :=
          (List.map_inj_right fun x y h => by
            obtain ⟨hkey, hvalue⟩ := Prod.mk.inj h
            exact Prod.ext (Option.some.inj hkey) (Option.some.inj hvalue)).mp hfound
        rw [hrun, List.nil_append, hsame]
      · refine absurd (fun i hi => ?_) (hnot pairs rfl)
        rw [List.length_nil, Nat.zero_add]
        exact hgrant.2.1 i hi
    rw [hloop hread hgrant.1 hgrant.2.2.1,
      linkPairs_done a (hcount pairs) (by rw [List.length_map]; exact hgrant.2.2.2), List.length_map]

end Call

/-! ## 5. The resolution -/

section Resolution

variable {objects : List HessianObject}

theorem mapLinks_length (objects : List HessianObject) :
    (mapLinks objects).length = objects.length := by
  rw [← linksUpTo_eq_mapLinks]
  exact linksUpTo_length objects (Nat.le_refl _)

/-- A pointer is settled once its pair was visited. -/
theorem mapLinks_get {i : Nat} {o : HessianObject} (ho : objects[i]? = some o) :
    (mapLinks objects)[i]? = some (linkOf objects.length (linksUpTo objects i) o i) := by
  have hi : i < objects.length := (List.getElem?_eq_some_iff.mp ho).1
  have hlength := linksUpTo_length objects (Nat.le_of_lt hi)
  have hprefix := linksUpTo_prefix objects (Nat.succ_le_of_lt hi)
  rw [linksUpTo_eq_mapLinks, linksUpTo_succ ho] at hprefix
  obtain ⟨later, hlinks⟩ := hprefix
  rw [← hlinks, List.append_assoc, List.getElem?_append_right (by omega), hlength, Nat.sub_self]
  rfl

/-- A Ref to an earlier pair takes its pointer. -/
theorem mapLinks_back {i j : Nat} {o : HessianObject} (ho : objects[i]? = some o)
    (hj : refIndex objects.length i o = some j) (hlt : j < i) :
    (mapLinks objects)[i]? = (mapLinks objects)[j]? := by
  have hi : i < objects.length := (List.getElem?_eq_some_iff.mp ho).1
  have hlength := linksUpTo_length objects (Nat.le_of_lt hi)
  have hprefix := linksUpTo_prefix objects (Nat.le_of_lt hi)
  rw [linksUpTo_eq_mapLinks] at hprefix
  have hlink : linkOf objects.length (linksUpTo objects i) o i = (linksUpTo objects i)[j] := by
    unfold linkOf
    rw [hj, Option.getD_some, List.getD_eq_getElem _ _ (by omega)]
  obtain ⟨later, hlinks⟩ := hprefix
  rw [mapLinks_get ho, hlink, ← hlinks, List.getElem?_append_left (by omega)]
  exact (List.getElem?_eq_getElem (by omega)).symm

/-- A Ref to itself or a later pair takes the value as it was read. -/
theorem mapLinks_forward {i j : Nat} {o : HessianObject} (ho : objects[i]? = some o)
    (hj : (refIndex objects.length i o).getD i = j) (hle : i ≤ j) :
    (mapLinks objects)[i]? = some j := by
  have hi : i < objects.length := (List.getElem?_eq_some_iff.mp ho).1
  have hlength := linksUpTo_length objects (Nat.le_of_lt hi)
  rw [mapLinks_get ho]
  unfold linkOf
  rw [hj, List.getD_eq_default _ _ (by omega)]

end Resolution

section Pairs

variable {pairs : List (HessianObject × HessianObject)}

theorem valueAt_decodedPairs (i : Nat) :
    valueAt (decodedPairs pairs) i = (pairs.map Prod.snd)[i]? := by
  unfold valueAt decodedPairs
  rw [List.getElem?_map, List.getElem?_map]
  cases pairs[i]? <;> rfl

theorem decodedPairs_length : (decodedPairs pairs).length = (pairs.map Prod.snd).length := by
  unfold decodedPairs
  rw [List.length_map, List.length_map]

theorem namesPair_iff {i : Nat} :
    NamesPair (decodedPairs pairs) i ↔ mapDangling (pairs.map Prod.snd) i = true := by
  unfold NamesPair
  rw [valueAt_decodedPairs, decodedPairs_length]
  constructor
  · intro h
    rcases h with ⟨index, j, hvalue, hj⟩
    simp only [mapDangling, hvalue, hj, Option.isSome_some]
  · intro h
    cases ho : (pairs.map Prod.snd)[i]? with
    | none => simp only [mapDangling, ho, Bool.false_eq_true] at h
    | some o =>
      cases o with
      | ref index =>
        simp only [mapDangling, ho] at h
        obtain ⟨j, hj⟩ := Option.isSome_iff_exists.mp h
        exact ⟨index, j, rfl, hj⟩
      | _ => simp only [mapDangling, ho, Bool.false_eq_true] at h

/-- **Where no Ref names a later one, no pointer is to a Ref that names a pair.** -/
theorem ForwardPlain.link (h : ForwardPlain (decodedPairs pairs)) :
    ∀ i p : Nat, (mapLinks (pairs.map Prod.snd))[i]? = some p →
      ¬ NamesPair (decodedPairs pairs) p := by
  intro i
  induction i using Nat.strongRecOn with
  | ind i ih =>
    intro p hp
    have hi : i < (pairs.map Prod.snd).length := by
      rw [← mapLinks_length]
      exact (List.getElem?_eq_some_iff.mp hp).1
    have ho : (pairs.map Prod.snd)[i]? = some (pairs.map Prod.snd)[i] := List.getElem?_eq_getElem hi
    have hvalue := (valueAt_decodedPairs i).trans ho
    -- a value that stays is no Ref to a pair
    have hstays : (refIndex (pairs.map Prod.snd).length i (pairs.map Prod.snd)[i]).getD i = i →
        ¬ NamesPair (decodedPairs pairs) i → ¬ NamesPair (decodedPairs pairs) p := by
      intro hself hnot
      rw [mapLinks_forward ho hself (Nat.le_refl i)] at hp
      exact Option.some.inj hp ▸ hnot
    by_cases href : hessianGettype (pairs.map Prod.snd)[i] = .ref
    · obtain ⟨index, hindex⟩ := eq_ref href
      rw [hindex] at ho hvalue
      cases hget : llistGet (pairs.map Prod.snd).length index with
      | none =>
        refine hstays (by rw [hindex, refIndex, hget]; rfl) ?_
        intro hnames
        rcases hnames with ⟨index', j, hvalue', hj⟩
        rw [hvalue] at hvalue'
        cases hvalue'
        rw [decodedPairs_length, hget] at hj
        cases hj
      | some j =>
        rcases Nat.lt_or_ge j i with hlt | hge
        · rw [mapLinks_back ho hget hlt] at hp
          exact ih j hlt p hp
        · rw [mapLinks_forward ho (by rw [refIndex, hget]; rfl) hge] at hp
          exact Option.some.inj hp ▸ h i j index hvalue (decodedPairs_length.symm ▸ hget) hge
    · refine hstays (by rw [refIndex_eq href]; rfl) ?_
      intro hnames
      rcases hnames with ⟨index, j, hvalue', -⟩
      rw [hvalue] at hvalue'
      exact href (Option.some.inj hvalue' ▸ rfl)

/-- Where the chain of a value ends in an object, its pointer is to that object. -/
theorem ForwardPlain.followed (h : ForwardPlain (decodedPairs pairs)) {i k : Nat}
    (hfollows : Follows (decodedPairs pairs) i k) :
    (mapLinks (pairs.map Prod.snd))[i]? = some k := by
  induction hfollows with
  | here ho hplain =>
    rw [valueAt_decodedPairs] at ho
    exact mapLinks_forward ho (by rw [refIndex_eq hplain]; rfl) (Nat.le_refl _)
  | @ref i j k index hvalue hj hk ih =>
    have ho := (valueAt_decodedPairs i).symm.trans hvalue
    have hget := decodedPairs_length ▸ hj
    rcases Nat.lt_or_ge j i with hlt | hge
    · rw [mapLinks_back ho hget hlt]
      exact ih
    · have hnot := h i j index hvalue hj hge
      cases hk with
      | here _ _ => exact mapLinks_forward ho (by rw [refIndex, hget]; rfl) hge
      | ref hvalue' hj' _ => exact absurd ⟨_, _, hvalue', hj'⟩ hnot

/-- Where no pointer is to a Ref that names a pair, no Ref names a later one. -/
theorem forwardPlain_of_links
    (h : ∀ p ∈ mapLinks (pairs.map Prod.snd), ¬ NamesPair (decodedPairs pairs) p) :
    ForwardPlain (decodedPairs pairs) := by
  intro i j index hvalue hj hle
  have ho := (valueAt_decodedPairs i).symm.trans hvalue
  have hget := decodedPairs_length ▸ hj
  exact h j (List.mem_of_getElem? (mapLinks_forward ho (by rw [refIndex, hget]; rfl) hle))

end Pairs

/-! ## 6. The destructor -/

theorem key_mem_keysValues {i k : Nat} {values : List Nat} :
    .key k ∈ keysValues .granted i values ↔ i ≤ k ∧ k < i + values.length := by
  induction values generalizing i with
  | nil => exact ⟨fun h => absurd h List.not_mem_nil, fun h => absurd h.2 (by simp; omega)⟩
  | cons value values ih =>
    have hsplit : keysValues .granted i (value :: values) =
        [.key i, .value value] ++ keysValues .granted (i + 1) values := rfl
    rw [hsplit, List.mem_append, ih, List.length_cons]
    simp only [List.mem_cons, MapObject.key.injEq, reduceCtorEq, List.not_mem_nil, or_false]
    omega

theorem value_mem_keysValues {i p : Nat} {values : List Nat} :
    .value p ∈ keysValues .granted i values ↔ p ∈ values := by
  induction values generalizing i with
  | nil => exact ⟨fun h => absurd h List.not_mem_nil, fun h => absurd h List.not_mem_nil⟩
  | cons value values ih =>
    have hsplit : keysValues .granted i (value :: values) =
        [.key i, .value value] ++ keysValues .granted (i + 1) values := rfl
    rw [hsplit, List.mem_append, ih]
    simp only [List.mem_cons, MapObject.value.injEq, reduceCtorEq, List.not_mem_nil, or_false,
      false_or]

/-- The destructor, every request granted. -/
theorem hessianMapDtor_granted (values : List Nat) (deleted : List MapObject) :
    hessianMapDtor .granted values deleted =
      .done () (deleted ++ uniqueElts (keysValues .granted 0 values)) :=
  llistDeleteElements_done _ _

/-- **The resolution of the Refs of a map is sound exactly when the call fails or no Ref with an index
    inside the map names itself or a later one**, whatever was decoded and whatever the allocator
    answers. -/
theorem mapSound_iff (a : MapAnswers) (decoded : DecodedPairs) :
    MapSound a decoded ↔ ∀ pairs, decoded = decodedPairs pairs → a.GrantMap pairs.length →
      ForwardPlain decoded := by
  constructor
  · intro hsound pairs hdecoded hgrant
    subst hdecoded
    have hdone := (hessianMapDeserialize_done_iff _ _ _).mpr ⟨pairs, rfl, hgrant, rfl, rfl⟩
    refine forwardPlain_of_links fun p hp hnames => hsound.kept _ _ hdone p hp ?_
    refine value_mem_namesUpTo.mpr ⟨?_, namesPair_iff.mp hnames⟩
    obtain ⟨index, j, hvalue, -⟩ := hnames
    rw [valueAt_decodedPairs, List.getElem?_eq_some_iff] at hvalue
    exact List.length_map (f := Prod.snd) ▸ hvalue.1
  · intro h
    refine ⟨fun values deleted hdone => ?_, fun values deleted hdone => ?_,
      fun values deleted hdone => ?_⟩
    all_goals
      obtain ⟨pairs, rfl, hgrant, rfl, rfl⟩ := (hessianMapDeserialize_done_iff _ _ _).mp hdone
      have hforward := h pairs rfl hgrant
      have hkept : ∀ p ∈ mapLinks (pairs.map Prod.snd),
          MapObject.value p ∉ namesUpTo (pairs.map Prod.snd) pairs.length := by
        intro p hp hmem
        obtain ⟨i, hi⟩ := List.mem_iff_getElem?.mp hp
        exact hforward.link i p hi (namesPair_iff.mpr (value_mem_namesUpTo.mp hmem).2)
    · exact hkept
    · exact fun i k _ hfollows => hforward.followed hfollows
    · refine ⟨_, hessianMapDtor_granted _ _, fun i hi => ?_, fun p hp => ?_⟩
      · exact count_deleted (key_mem_keysValues.mpr ⟨Nat.zero_le i, by rwa [Nat.zero_add]⟩)
          key_not_mem_namesUpTo
      · exact count_deleted (value_mem_keysValues.mpr hp) (hkept p hp)

/-- A Ref to the next pair, whose value is a Ref to a third: the first keeps the deleted Ref. -/
theorem forwardRef_unsound :
    ¬ MapSound ⟨true, fun _ => true, fun _ => true, true, fun _ => true, true⟩
    [(some .null, some (.ref 1)), (some .null, some (.ref 2)), (some .null, some .null)] := by
  intro h
  exact h.kept [1, 2, 2] [.value 0, .value 1] rfl 1 List.mem_cons_self
    (List.mem_cons_of_mem _ List.mem_cons_self)

/-! ## 7. The deserializer and its destructor -/

/-- **The deserializer returns from its last loop where this one does**: it has no error but a node
    that is refused. -/
theorem linkPairs_returns_iff (refs : List (HessianObject × HessianObject)) (s : Reader) :
    (∃ t, ArgusPep.linkPairs refs s = .done () t) ↔
      ∀ k < refs.length, nodeAnswers s.mem k = true := by
  induction refs generalizing s with
  | nil => exact ⟨fun _ k hk => absurd hk (Nat.not_lt_zero k), fun _ => ⟨s, rfl⟩⟩
  | cons pair refs ih =>
    have hstep : ArgusPep.linkPairs (pair :: refs) s =
        (if s.mem.grants 16 then ArgusPep.linkPairs refs else fail : Reading Unit)
          { s with mem := s.mem.after 16 } := rfl
    rw [hstep]
    cases hgrant : s.mem.grants 16 with
    | false =>
      refine ⟨fun ⟨t, h⟩ => (by cases h), fun h => ?_⟩
      have hfirst : s.mem.grants 16 = true := h 0 (Nat.zero_lt_succ _)
      rw [hgrant] at hfirst
      cases hfirst
    | true =>
      rw [if_pos rfl, ih]
      constructor
      · intro h k hk
        cases k with
        | zero => exact hgrant
        | succ k => exact h k (Nat.lt_of_succ_lt_succ hk)
      · exact fun h k hk => h (k + 1) (Nat.succ_lt_succ hk)

/-- The pointer that `hessianDelete` of Deserialize.lean has for an object of a map. -/
def MapObject.pointer : MapObject → Nat
  | .key i => 2 * i
  | .value i => 2 * i + 1

/-- Both destructors list the same pointers. -/
theorem keysValues_pointers (values : List Nat) :
    (keysValues .granted 0 values).map MapObject.pointer =
      (values.zipIdx.map fun p => [2 * p.2, 2 * p.1 + 1]).flatten := by
  have hfrom : ∀ (values : List Nat) (i : Nat), (keysValues .granted i values).map MapObject.pointer =
      ((values.zipIdx i).map fun p => [2 * p.2, 2 * p.1 + 1]).flatten := by
    intro values
    induction values with
    | nil => exact fun _ => rfl
    | cons value values ih =>
      intro i
      have hsplit : keysValues .granted i (value :: values) =
          [.key i, .value value] ++ keysValues .granted (i + 1) values := rfl
      rw [hsplit, List.map_append, ih, List.zipIdx_cons]
      rfl
  exact hfrom values 0

end ArgusPep.Deletions
