/-
  File:      ArgusPep/Hessian/Survival.lean
  Subject:   When `hessian_deserialize` survives its input.

  * `Fed`, `Fueled` -- the tag a loop of a container goes on with, and the fuel it needs;
  * `orderly_hessianDeserializeTag`, `lively_hessianDeserializeTag` -- the recursion through the
    containers, with the two loops over the elements and the pairs;
  * **`hessianDeserialize_survives_iff`** -- the parser ends with an object or NULL exactly when
    every risky step of its run is safe; the fuel lasts for every input;
  * `stepsTaken_safe_of_encoding` -- reading an encoding takes safe steps only.
-/
import ArgusPep.Hessian.SafeSteps
import ArgusPep.Hessian.Grammar

namespace ArgusPep

open Lib Run

/-! ## 1. Containers -/

theorem tame_getOptionalType (tag : CInt) : TameReading (getOptionalType tag) := by
  refine .ite (tame_readText.bind fun text => ?_) (tame_pure _)
  cases text with
  | none => exact tame_fail
  | some type => exact tame_bufferGetc.bind fun _ => tame_pure _

theorem tame_getOptionalLength (tag : CInt) : TameReading (getOptionalLength tag) :=
  .ite (tame_getInt32.bind fun _ => tame_bufferGetc) (tame_pure _)

theorem tame_linkElements (n : Nat) (elements : List HessianObject) :
    TameReading (linkElements n elements) := by
  induction elements with
  | nil => exact tame_pure _
  | cons object rest hrest =>
    unfold linkElements
    refine tame_visit_bind (honest_visit (fun s hs hsafe => ?_) fun s hs hfault => ?_) ⟨?_, ?_⟩
    · obtain ⟨hindex, hgrants⟩ := hsafe
      have hs' : Reader.Ok { s with steps := .linkElement n object s.mem :: s.steps } :=
        hs.visit ⟨hindex, hgrants⟩
      have hsome : ¬ (refIndex n 0 object).isNone = true := by
        rw [Option.isNone_iff_eq_none]
        exact Option.isSome_iff_ne_none.mp hindex
      rw [if_neg hsome]
      refine honestAt_bind_done rfl ?_
      rw [hgrants, if_pos rfl]
      exact hrest.honest _ (hs'.after 16)
    · by_cases hindex : (refIndex n 0 object).isNone = true
      · rw [if_pos hindex]
        exact ⟨_, rfl, List.mem_cons_self⟩
      · have hgrants : s.mem.grants 16 = false := by
          by_contra h
          refine hfault ⟨?_, by rwa [Bool.not_eq_false] at h⟩
          rw [Option.isNone_iff_eq_none] at hindex
          exact Option.isSome_iff_ne_none.mpr hindex
        refine ⟨{ s with
          steps := .linkElement n object s.mem :: s.steps, mem := s.mem.after 16 }, ?_,
          List.mem_cons_self⟩
        unfold llistAdd
        rw [if_neg hindex, calloc_bind, hgrants, if_neg Bool.false_ne_true]
        rfl
    · split
      · exact shrinks_undefined _
      · refine (tame_calloc _).shrinks.bind fun granted => ?_
        split
        · exact hrest.shrinks
        · exact shrinks_undefined _
    · intro s
      split
      · exact lively_undefined _
      · refine Lively.bind ((tame_calloc _).lively _) fun granted t _ => ?_
        split
        · exact hrest.lively t
        · exact lively_undefined t

theorem tame_linkPairs : ∀ pairs : List (HessianObject × HessianObject),
    TameReading (linkPairs pairs)
  | [] => tame_pure _
  | _ :: rest => tame_calloc_then (tame_linkPairs rest) tame_fail

/-- A tag that was read when `n` bytes were left, or the end of the input. -/
def Fed (n : Nat) (tag : CInt) (s : Reader) : Prop := s.left + 1 ≤ n ∨ tag = BUFFER_EOF

theorem fed_bufferGetc {n : Nat} {s s' : Reader} {tag : CInt} (h : bufferGetc s = .done tag s')
    (hs : s.left ≤ n) : Fed n tag s' := by
  rcases bufferGetc_left h with h | ⟨h, _⟩
  · exact .inl (by omega)
  · exact .inr h

theorem fed_getOptionalType {n : Nat} {s s' : Reader} {tag tag' : CInt}
    {type : Option CString} (hs : Fed n tag s)
    (h : getOptionalType tag s = .done (type, tag') s') : Fed n tag' s' := by
  unfold getOptionalType at h
  split at h
  · rename_i htag
    obtain ⟨text, t, htext, h⟩ := bind_eq_done h
    have ht : t.left ≤ s.left := tame_readText.shrinks s text t htext
    cases text with
    | none => cases h
    | some type =>
      obtain ⟨tag'', u, hget, h⟩ := bind_eq_done h
      cases h
      rcases hs with hs | hs
      · exact fed_bufferGetc hget (by omega)
      · exact absurd (htag.symm.trans hs) (by decide)
  · cases h
    exact hs

theorem fed_getOptionalLength {n : Nat} {s s' : Reader} {tag tag' : CInt} (hs : Fed n tag s)
    (h : getOptionalLength tag s = .done tag' s') : Fed n tag' s' := by
  unfold getOptionalLength at h
  split at h
  · rename_i htag
    obtain ⟨length, t, hlength, h⟩ := bind_eq_done h
    have ht : t.left ≤ s.left := tame_getInt32.shrinks s length t hlength
    rcases hs with hs | hs
    · exact fed_bufferGetc h (by omega)
    · exact absurd (htag.symm.trans hs) (by decide)
  · cases h
    exact hs

section Containers

variable {cls : HessianClass} {tag : CInt} {elementsLoop : CInt → Reading (List HessianObject)}
  {pairsLoop : CInt → Reading (List (HessianObject × HessianObject))}

/-- What follows the loop of a list. -/
theorem tame_listEnd (type : Option CString) (refs : List HessianObject) : TameReading (do
    if ← llistCreate then
      linkElements refs.length refs
      pure (type, refs)
    else do
      deleteElements refs
      fail) :=
  tame_calloc_then ((tame_linkElements _ refs).bind fun _ => tame_pure _)
    ((tame_deleteElements refs).bind fun _ => tame_fail)

/-- What follows the loop of a map. -/
theorem tame_mapEnd (type : Option CString) (refs : List (HessianObject × HessianObject)) :
    TameReading (do
      if ← llistCreate then
        linkPairs refs
        pure (type, refs)
      else do
        deletePairs refs
        fail) :=
  tame_calloc_then ((tame_linkPairs refs).bind fun _ => tame_pure _)
    ((tame_deletePairs refs).bind fun _ => tame_fail)

theorem orderly_hessianListDeserialize (hloop : ∀ tag, OrderlyReading (elementsLoop tag)) :
    OrderlyReading (hessianListDeserialize elementsLoop cls tag) := by
  unfold hessianListDeserialize
  split
  · exact tame_fail.toOrderly
  · refine (tame_calloc _).toOrderly.bind fun created => ?_
    split
    · refine tame_bufferGetc.toOrderly.bind fun nextTag => ?_
      refine (tame_getOptionalType nextTag).toOrderly.bind fun r => ?_
      refine (tame_getOptionalLength r.2).toOrderly.bind fun nextTag => ?_
      exact (hloop nextTag).bind fun refs => (tame_listEnd r.1 refs).toOrderly
    · exact tame_fail.toOrderly

theorem lively_hessianListDeserialize {s : Reader}
    (hloop : ∀ tag u, Fed s.left tag u → Lively (elementsLoop tag) u) :
    Lively (hessianListDeserialize elementsLoop cls tag) s := by
  unfold hessianListDeserialize
  split
  · nofun
  · refine Lively.bind nofun fun created t ht => ?_
    have hleft : t.left ≤ s.left := (tame_calloc _).shrinks s created t ht
    split
    · refine Lively.bind nofun fun nextTag u hu => ?_
      have hfed := fed_bufferGetc hu hleft
      refine ((tame_getOptionalType nextTag).lively u).bind fun r v hv => ?_
      have hfed := fed_getOptionalType hfed hv
      refine ((tame_getOptionalLength r.2).lively v).bind fun nextTag w hw => ?_
      have hfed := fed_getOptionalLength hfed hw
      exact (hloop nextTag w hfed).bind fun refs x _ => (tame_listEnd r.1 refs).lively x
    · nofun

theorem orderly_hessianMapDeserialize (hloop : ∀ tag, OrderlyReading (pairsLoop tag)) :
    OrderlyReading (hessianMapDeserialize pairsLoop cls tag) := by
  unfold hessianMapDeserialize
  split
  · exact tame_fail.toOrderly
  · refine (tame_calloc _).toOrderly.bind fun created => ?_
    split
    · refine tame_bufferGetc.toOrderly.bind fun nextTag => ?_
      refine (tame_getOptionalType nextTag).toOrderly.bind fun r => ?_
      exact (hloop r.2).bind fun refs => (tame_mapEnd r.1 refs).toOrderly
    · exact tame_fail.toOrderly

theorem lively_hessianMapDeserialize {s : Reader}
    (hloop : ∀ tag u, Fed s.left tag u → Lively (pairsLoop tag) u) :
    Lively (hessianMapDeserialize pairsLoop cls tag) s := by
  unfold hessianMapDeserialize
  split
  · nofun
  · refine Lively.bind nofun fun created t ht => ?_
    have hleft : t.left ≤ s.left := (tame_calloc _).shrinks s created t ht
    split
    · refine Lively.bind nofun fun nextTag u hu => ?_
      have hfed := fed_bufferGetc hu hleft
      refine ((tame_getOptionalType nextTag).lively u).bind fun r v hv => ?_
      have hfed := fed_getOptionalType hfed hv
      exact (hloop r.2 v hfed).bind fun refs w _ => (tame_mapEnd r.1 refs).lively w
    · nofun

/-! ## 2. The recursion -/

/-- The classes without elements. -/
theorem tame_deserializeAs (hlist : cls.type ≠ .list) (hmap : cls.type ≠ .map)
    (hcls : Char.int cls.chunkTag ≠ BUFFER_EOF) :
    TameReading (deserializeAs elementsLoop pairsLoop cls tag) := by
  unfold deserializeAs
  cases h : cls.type with
  | unknown => exact tame_fail
  | boolean => exact (tame_hessianBooleanDeserialize cls tag).bind fun _ => tame_pure _
  | integer => exact (tame_hessianIntegerDeserialize cls tag).bind fun _ => tame_pure _
  | long => exact (tame_hessianLongDeserialize cls tag).bind fun _ => tame_pure _
  | double => exact (tame_hessianLongDeserialize cls tag).bind fun _ => tame_pure _
  | date => exact (tame_hessianLongDeserialize cls tag).bind fun _ => tame_pure _
  | string => exact (tame_hessianStringDeserialize tag hcls).bind fun _ => tame_pure _
  | xml => exact (tame_hessianStringDeserialize tag hcls).bind fun _ => tame_pure _
  | binary => exact (tame_hessianBinaryDeserialize tag hcls).bind fun _ => tame_pure _
  | remote => exact (tame_hessianRemoteDeserialize cls tag).bind fun _ => tame_pure _
  | null => exact (tame_hessianNullDeserialize cls tag).bind fun _ => tame_pure _
  | ref => exact (tame_hessianIntegerDeserialize cls tag).bind fun _ => tame_pure _
  | list => exact absurd h hlist
  | map => exact absurd h hmap

theorem orderly_deserializeAs (hcls : Char.int cls.chunkTag ≠ BUFFER_EOF)
    (helements : ∀ tag, OrderlyReading (elementsLoop tag))
    (hpairs : ∀ tag, OrderlyReading (pairsLoop tag)) :
    OrderlyReading (deserializeAs elementsLoop pairsLoop cls tag) := by
  by_cases hlist : cls.type = .list
  · unfold deserializeAs
    rw [hlist]
    exact (orderly_hessianListDeserialize helements).bind fun _ => (tame_pure _).toOrderly
  by_cases hmap : cls.type = .map
  · unfold deserializeAs
    rw [hmap]
    exact (orderly_hessianMapDeserialize hpairs).bind fun _ => (tame_pure _).toOrderly
  · exact (tame_deserializeAs hlist hmap hcls).toOrderly

theorem lively_deserializeAs {s : Reader} (hcls : Char.int cls.chunkTag ≠ BUFFER_EOF)
    (helements : ∀ tag u, Fed s.left tag u → Lively (elementsLoop tag) u)
    (hpairs : ∀ tag u, Fed s.left tag u → Lively (pairsLoop tag) u) :
    Lively (deserializeAs elementsLoop pairsLoop cls tag) s := by
  by_cases hlist : cls.type = .list
  · unfold deserializeAs
    rw [hlist]
    exact (lively_hessianListDeserialize helements).bind fun _ _ _ => nofun
  by_cases hmap : cls.type = .map
  · unfold deserializeAs
    rw [hmap]
    exact (lively_hessianMapDeserialize hpairs).bind fun _ _ _ => nofun
  · exact (tame_deserializeAs hlist hmap hcls).lively s

end Containers

/-- No class has the end of the input for a tag. -/
theorem chunkTag_ne_eof {type : HessianT} {cls : HessianClass} (h : getclass type = some cls) :
    Char.int cls.chunkTag ≠ BUFFER_EOF := by
  cases type <;> cases h <;> decide

mutual
theorem orderly_hessianDeserializeTag : ∀ (fuel : Nat) (tag : CInt),
    OrderlyReading (hessianDeserializeTag fuel tag)
  | 0, _ => orderly_outOfFuel
  | fuel + 1, tag => by
    unfold hessianDeserializeTag
    cases h : getclass (gettype tag) with
    | none => exact tame_fail.toOrderly
    | some cls =>
      refine (tame_calloc _).toOrderly.bind fun created => ?_
      split
      · exact orderly_deserializeAs (chunkTag_ne_eof h) (orderly_listElements fuel cls [])
          (orderly_mapPairs fuel cls [])
      · exact tame_fail.toOrderly

theorem orderly_listElements : ∀ (fuel : Nat) (cls : HessianClass) (refs : List HessianObject)
    (nextTag : CInt), OrderlyReading (listElements fuel cls refs nextTag)
  | 0, _, _, _ => orderly_outOfFuel
  | fuel + 1, cls, refs, nextTag => by
    unfold listElements
    split
    · exact (tame_pure _).toOrderly
    · refine ((orderly_hessianDeserializeTag fuel nextTag).onFailure
        (tame_deleteElements refs).honest).bind fun o => ?_
      refine (tame_calloc _).toOrderly.bind fun added => ?_
      split
      · exact tame_bufferGetc.toOrderly.bind fun nextTag => orderly_listElements fuel cls _ nextTag
      · exact (tame_addFailed refs o).toOrderly

theorem orderly_mapPairs : ∀ (fuel : Nat) (cls : HessianClass)
    (refs : List (HessianObject × HessianObject)) (nextTag : CInt),
    OrderlyReading (mapPairs fuel cls refs nextTag)
  | 0, _, _, _ => orderly_outOfFuel
  | fuel + 1, cls, refs, nextTag => by
    unfold mapPairs
    split
    · exact (tame_pure _).toOrderly
    · refine ((orderly_hessianDeserializeTag fuel nextTag).onFailure
        (tame_deletePairs refs).honest).bind fun key => ?_
      refine tame_bufferGetc.toOrderly.bind fun nextTag => ?_
      refine ((orderly_hessianDeserializeTag fuel nextTag).onFailure
        ((tame_hessianDelete key).bind fun _ => tame_deletePairs refs).honest).bind fun value => ?_
      refine (tame_calloc _).toOrderly.bind fun created => ?_
      split
      · refine (tame_calloc _).toOrderly.bind fun added => ?_
        split
        · exact tame_bufferGetc.toOrderly.bind fun nextTag => orderly_mapPairs fuel cls _ nextTag
        · exact (tame_pairFailed refs key value).toOrderly
      · exact (tame_pairFailed refs key value).toOrderly
end

/-- Enough fuel for the loop of a container at the tag `tag`. -/
def Fueled (fuel : Nat) (tag : CInt) (s : Reader) : Prop :=
  2 * s.left + 3 ≤ fuel ∨ tag = BUFFER_EOF ∧ 1 ≤ fuel

theorem Fed.fueled {n fuel : Nat} {tag : CInt} {s : Reader} (h : Fed n tag s)
    (hfuel : 2 * n + 1 ≤ fuel) : Fueled fuel tag s := by
  rcases h with h | h
  · exact .inl (by omega)
  · exact .inr ⟨h, by omega⟩

mutual
theorem lively_hessianDeserializeTag : ∀ (fuel : Nat) (tag : CInt) (s : Reader),
    2 * s.left + 2 ≤ fuel → Lively (hessianDeserializeTag fuel tag) s
  | 0, _, _, h => by omega
  | fuel + 1, tag, s, h => by
    unfold hessianDeserializeTag
    cases hcls : getclass (gettype tag) with
    | none => nofun
    | some cls =>
      refine Lively.bind nofun fun created t ht => ?_
      have hleft : t.left ≤ s.left := (tame_calloc _).shrinks s created t ht
      split
      · exact lively_deserializeAs (chunkTag_ne_eof hcls)
          (fun tag u hu => lively_listElements fuel cls [] tag u (hu.fueled (by omega)))
          (fun tag u hu => lively_mapPairs fuel cls [] tag u (hu.fueled (by omega)))
      · nofun

theorem lively_listElements : ∀ (fuel : Nat) (cls : HessianClass) (refs : List HessianObject)
    (nextTag : CInt) (s : Reader), Fueled fuel nextTag s →
    Lively (listElements fuel cls refs nextTag) s
  | 0, _, _, _, _, h => by unfold Fueled at h; omega
  | fuel + 1, cls, refs, nextTag, s, h => by
    unfold listElements
    split
    · nofun
    · rename_i htag
      have hfuel : 2 * s.left + 3 ≤ fuel + 1 := h.resolve_right fun h => htag (.inr h.1)
      refine ((lively_hessianDeserializeTag fuel nextTag s (by omega)).onFailure
        (tame_deleteElements refs).lively).bind fun o t ht => ?_
      have hleft : t.left ≤ s.left :=
        (orderly_hessianDeserializeTag fuel nextTag).shrinks.onFailure s o t ht
      refine Lively.bind nofun fun added u hu => ?_
      have hleft' : u.left ≤ t.left := (tame_calloc _).shrinks t added u hu
      split
      · refine Lively.bind nofun fun nextTag v hv => ?_
        have hfed := fed_bufferGetc hv (Nat.le_trans hleft' hleft)
        exact lively_listElements fuel cls _ nextTag v (hfed.fueled (by omega))
      · exact (tame_addFailed refs o).lively u

theorem lively_mapPairs : ∀ (fuel : Nat) (cls : HessianClass)
    (refs : List (HessianObject × HessianObject)) (nextTag : CInt) (s : Reader),
    Fueled fuel nextTag s → Lively (mapPairs fuel cls refs nextTag) s
  | 0, _, _, _, _, h => by unfold Fueled at h; omega
  | fuel + 1, cls, refs, nextTag, s, h => by
    unfold mapPairs
    split
    · nofun
    · rename_i htag
      have hfuel : 2 * s.left + 3 ≤ fuel + 1 := h.resolve_right fun h => htag (.inr h.1)
      refine ((lively_hessianDeserializeTag fuel nextTag s (by omega)).onFailure
        (tame_deletePairs refs).lively).bind fun key t ht => ?_
      have hkey : t.left ≤ s.left :=
        (orderly_hessianDeserializeTag fuel nextTag).shrinks.onFailure s key t ht
      refine Lively.bind nofun fun nextTag u hu => ?_
      have hget : u.left ≤ t.left := tame_bufferGetc.shrinks t nextTag u hu
      refine ((lively_hessianDeserializeTag fuel nextTag u (by omega)).onFailure
        ((tame_hessianDelete key).bind fun _ => tame_deletePairs refs).lively).bind
          fun value v hv => ?_
      have hvalue : v.left ≤ u.left :=
        (orderly_hessianDeserializeTag fuel nextTag).shrinks.onFailure u value v hv
      refine Lively.bind nofun fun created w hw => ?_
      have hpair : w.left ≤ v.left := (tame_calloc _).shrinks v created w hw
      split
      · refine Lively.bind nofun fun added x hx => ?_
        have hnode : x.left ≤ w.left := (tame_calloc _).shrinks w added x hx
        split
        · refine Lively.bind nofun fun nextTag y hy => ?_
          have hfed := fed_bufferGetc (n := s.left) hy (by omega)
          exact lively_mapPairs fuel cls _ nextTag y (hfed.fueled (by omega))
        · exact (tame_pairFailed refs key value).lively x
      · exact (tame_pairFailed refs key value).lively w
end

/-! ## 3. The parser -/

/-- `hessian_deserialize` ends with an object or NULL, without an undefined operation. -/
def Survives (input : Bytes) (answers : List Bool) : Prop :=
  match hessianDeserialize (Reader.start input (Mem.bounded answers)) with
  | .done _ _ => True
  | .failed _ => True
  | .fault _ => False
  | .stuck => False

/-- The risky steps of the run, the last one first. -/
def stepsTaken (input : Bytes) (answers : List Bool) : List Step :=
  match hessianDeserialize (Reader.start input (Mem.bounded answers)) with
  | .done _ s => s.steps
  | .failed s => s.steps
  | .fault s => s.steps
  | .stuck => []

theorem honest_hessianDeserialize : Honest Reader.Ok Reader.Harmed hessianDeserialize :=
  have hread : TameReading read := tame_read
  tame_bufferGetc.honest.bind fun tag => hread.honest.bind fun _ =>
    (orderly_hessianDeserializeTag _ tag).honest.bind fun _ => honest_pure _ _ _

theorem lively_hessianDeserialize (s : Reader) : Lively hessianDeserialize s := by
  refine Lively.bind nofun fun tag t _ => Lively.bind nofun fun u v h => ?_
  cases h
  exact (lively_hessianDeserializeTag _ tag t (Nat.le_refl _)).bind fun _ _ _ => nofun

/-- **The parser survives its input exactly when every risky step of its run is safe**, whatever
    the allocator answers to the requests it could grant. -/
theorem hessianDeserialize_survives_iff (input : Bytes) (answers : List Bool) :
    Survives input answers ↔ ∀ step ∈ stepsTaken input answers, step.Safe := by
  have hstart : (Reader.start input (Mem.bounded answers)).Ok :=
    ⟨⟨answers, rfl⟩, fun _ h => nomatch h⟩
  have hhonest := honest_hessianDeserialize _ hstart
  have hlively := lively_hessianDeserialize (Reader.start input (Mem.bounded answers))
  unfold HonestAt at hhonest
  unfold Survives stepsTaken
  unfold Lively at hlively
  cases h : hessianDeserialize (Reader.start input (Mem.bounded answers)) with
  | done o s =>
    rw [h] at hhonest
    exact ⟨fun _ => hhonest.safe, fun _ => trivial⟩
  | failed s =>
    rw [h] at hhonest
    exact ⟨fun _ => hhonest.safe, fun _ => trivial⟩
  | fault s =>
    rw [h] at hhonest
    obtain ⟨step, hmem, hfault⟩ := hhonest
    exact ⟨nofun, fun hsafe => hfault (hsafe step hmem)⟩
  | stuck => exact absurd h hlively

/-- A String cut behind its tag: the length is read past the end of the input, the array of so many
    characters is refused, and `strlen` gets the NULL pointer. -/
theorem hessianDeserialize_string_fault : ¬ Survives [Char.byte 'S'] [] := by
  intro h
  exact h

/-- **Reading an encoding takes safe steps only**, whatever stands behind it, if there is memory. -/
theorem stepsTaken_safe_of_encoding {tree : HessianObject} {w : Bytes} (h : Encoding tree w)
    (rest : Bytes) (hlen : (w ++ rest).length ≤ PTRDIFF_MAX) :
    ∀ step ∈ stepsTaken (w ++ rest) [], step.Safe := by
  have hs : (Reader.start (w ++ rest) (Mem.bounded [])).Ample :=
    ⟨PTRDIFF_MAX, by decide, hlen, Mem.ample_generous⟩
  have hhonest := honest_hessianDeserialize (Reader.start (w ++ rest) (Mem.bounded []))
    ⟨⟨[], rfl⟩, fun _ h => absurd h List.not_mem_nil⟩
  obtain ⟨o, t, hrun, -⟩ := reads_of_encoding h _ rest hs rfl
  unfold HonestAt at hhonest
  unfold stepsTaken
  rw [hrun] at hhonest ⊢
  exact hhonest.safe

end ArgusPep
