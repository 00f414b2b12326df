/-
  File:      ArgusPep/Argus/Lifecycle.lean
  Subject:   Which PIPs and obligation handlers the library calls, in which order, over the life of
             a handle.

  * `Sighting`, `sightings` -- what of the trace of a `pep_authorize` concerns the plugins: their
    calls, the transfer and the unmarshalling;
  * `Course` -- the sightings of a whole call, one case for each way it can end;
    `authorize_course` -- every call takes one of them;
  * `Called` -- what a call does with the plugins that are registered and enabled;
  * **`plugin_lifecycle`** -- over any sequence of calls: what is registered, what each call does,
    and what `pep_destroy` destroys.
-/
import ArgusPep.Argus.Handle
import ArgusPep.Argus.Ownership

namespace ArgusPep

open Lib

/-! ## 1. What concerns the plugins -/

/-- A call that concerns the plugins, without the objects it is made on. -/
inductive Sighting where
  | pip (id : CString) (rc : Int)
  | perform (rc : CurlCode)
  | status (rc : CurlCode) (httpCode : Int)
  | unmarshalled (rc : PepError)
  | oh (id : CString) (rc : Int)
deriving DecidableEq

def Event.sighting : Event → Option Sighting
  | .pipProcess pip _ rc => some (.pip pip rc)
  | .curlEasyPerform _ _ rc => some (.perform rc)
  | .curlEasyGetinfo rc httpCode => some (.status rc httpCode)
  | .xacmlResponseUnmarshalling _ rc _ => some (.unmarshalled rc)
  | .ohProcess oh _ _ rc => some (.oh oh rc)
  | _ => none

def sightings (trace : List Event) : List Sighting := trace.filterMap Event.sighting

theorem sightings_append (trace : List Event) (event : Event) :
    sightings (trace ++ [event]) = sightings trace ++ event.sighting.toList := by
  unfold sightings
  rw [List.filterMap_append]
  cases h : event.sighting with
  | none => rw [List.filterMap_cons_none h]; rfl
  | some s => rw [List.filterMap_cons_some h]; rfl

/-- The PIPs called, with what they returned. -/
def pipCalls (seen : List Sighting) : List (CString × Int) :=
  seen.filterMap fun
    | .pip id rc => some (id, rc)
    | _ => none

/-- The obligation handlers called, with what they returned. -/
def ohCalls (seen : List Sighting) : List (CString × Int) :=
  seen.filterMap fun
    | .oh id rc => some (id, rc)
    | _ => none

/-- What has been seen so far. -/
def Seen (seen : List Sighting) (w : World) : Prop := sightings w.trace = seen

/-! ## 2. The course of a call -/

/-- All of them called, and all returned 0. -/
def allPips (ids : List CString) : List Sighting := ids.map (.pip · 0)

def allOhs (ids : List CString) : List Sighting := ids.map (.oh · 0)

/-- A transfer that was answered with status 200 and a body that could be unmarshalled. -/
def transfer : List Sighting := [.perform CURLE_OK, .status CURLE_OK 200, .unmarshalled .ok]

/-- What is seen of a transfer without an answer that could be unmarshalled. -/
inductive Unanswered : List Sighting → Prop where
  | unsent : Unanswered []
  | unperformed {rc : CurlCode} (hrc : rc ≠ CURLE_OK) : Unanswered [.perform rc]
  | noStatus {rc : CurlCode} {httpCode : Int} (h : rc ≠ CURLE_OK ∨ httpCode ≠ 200) :
      Unanswered [.perform CURLE_OK, .status rc httpCode]
  | refused {rc : PepError} (hrc : rc ≠ .ok) :
      Unanswered [.perform CURLE_OK, .status CURLE_OK 200, .unmarshalled rc]

/-- The sightings of a call with the PIPs `pips` and the handlers `ohs`, those enabled, and its
    error code where a plugin decides it. -/
inductive Course (pips ohs : List CString) : PepError → List Sighting → Prop where
  | pipFailed {done later : List CString} {id : CString} {rc : Int}
      (hpips : pips = done ++ id :: later) (hrc : rc ≠ 0) :
      Course pips ohs .pipProcess (allPips done ++ [.pip id rc])
  | unanswered (e : PepError) {part : List Sighting} (hpart : Unanswered part) :
      Course pips ohs e (allPips pips ++ part)
  | ohFailed {done later : List CString} {id : CString} {rc : Int}
      (hohs : ohs = done ++ id :: later) (hrc : rc ≠ 0) :
      Course pips ohs .ohProcess (allPips pips ++ transfer ++ allOhs done ++ [.oh id rc])
  | handled : Course pips ohs .ok (allPips pips ++ transfer ++ allOhs ohs)

section Steps

open Authorize

variable {calls : Calls} {pep : Pep} {seen : List Sighting} {w : World}
  {E : PepError → World → Prop}

theorem Seen.snoc (h : Seen seen w) {w' : World} {event : Event} {s : Sighting}
    (htrace : w'.trace = w.trace ++ [event]) (hs : event.sighting = some s) :
    Seen (seen ++ [s]) w' := by
  unfold Seen
  rw [htrace, sightings_append, h, hs]
  rfl

/-- An event that concerns no plugin. -/
theorem Seen.same (h : Seen seen w) {w' : World} {event : Event}
    (htrace : w'.trace = w.trace ++ [event]) (hs : event.sighting = none) : Seen seen w' := by
  unfold Seen
  rw [htrace, sightings_append, h, hs]
  exact List.append_nil seen

/-- A call that makes no sighting. -/
def Quiet {α : Type} (m : Authorize α) : Prop := ∀ seen, Keeps (Seen seen) m

theorem bufferDelete_seen {b : Option Nat} (h : Seen seen w) :
    Ensures (bufferDelete b) w (fun _ => Seen seen) E := Ensures.modify (h.same rfl rfl)

theorem encode_seen {inbuf outbuf : Nat} (h : Seen seen w) :
    Ensures (encode inbuf outbuf) w (fun _ => Seen seen) E := Ensures.modify (h.same rfl rfl)

theorem decode_seen {inbuf : Nat} {outbuf : Option Nat} (h : Seen seen w) :
    Ensures (decode inbuf outbuf) w (fun _ => Seen seen) E := Ensures.modify (h.same rfl rfl)

theorem replaceRequest_seen (h : Seen seen w) :
    Ensures replaceRequest w (fun _ => Seen seen) E := by
  refine Ensures.modify ?_
  cases w.response.bind ResponseObject.request with
  | none => exact h
  | some e => exact h.same rfl rfl

theorem bufferLength_quiet (b : Nat) : Quiet (bufferLength b) :=
  fun _ => Keeps.modifyGet fun _ h => h.same rfl rfl

/-- An exit makes no sighting, and leaves with its code. -/
theorem failWith_seen {α : Type} {Q : α → World → Prop} (bs : List (Option Nat)) (rc : PepError)
    (h : Seen seen w) :
    Ensures (failWith bs rc : Authorize α) w Q (fun e w' => e = rc ∧ Seen seen w') := by
  have hdelete : Ensures (bs.forM bufferDelete) w (fun _ => Seen seen)
      (fun e w' => e = rc ∧ Seen seen w') := Ensures.forM (fun b _ t ht => bufferDelete_seen ht) h
  exact hdelete.bind fun _ t ht => Ensures.throw ⟨rfl, ht⟩

theorem failWith_leaves {α : Type} (bs : List (Option Nat)) (rc : PepError) (seen : List Sighting)
    (w : World) (h : Seen seen w) :
    Ensures (failWith bs rc : Authorize α) w (fun _ _ => False) (fun _ => Seen seen) :=
  (failWith_seen bs rc h).exits fun _ _ ht => ht.2

theorem failWith_quiet {α : Type} (bs : List (Option Nat)) (rc : PepError) :
    Quiet (failWith bs rc : Authorize α) := fun seen w h =>
  (failWith_leaves bs rc seen w h).mono fun _ _ hfalse => hfalse.elim

theorem bufferCreate_seen {name : BufferName} {size : Nat} (h : Seen seen w) :
    Ensures (Authorize.bufferCreate calls name size) w (fun _ => Seen seen) E := by
  refine Ensures.modifyGet ?_
  by_cases hcreate : calls.bufferCreate name size = true
  · rw [if_pos hcreate]
    exact h.same rfl rfl
  · rw [if_neg hcreate]
    exact h.same rfl rfl

theorem createOr_quiet (name : BufferName) (size : Nat) (bs : List (Option Nat)) :
    Quiet (createOr calls name size bs) := by
  intro seen w h
  refine (bufferCreate_seen h).bind fun b t ht => ?_
  cases b with
  | some b => exact Ensures.pure ht
  | none => exact failWith_quiet bs .memory seen t ht

theorem setoptOr_quiet (option : CurlOption) (bs : List (Option Nat)) :
    Quiet (setoptOr calls option bs) := by
  intro seen
  have hset : Keeps (Seen seen) (curlEasySetopt calls option) :=
    Keeps.modifyGet fun _ h => h.same rfl rfl
  exact hset.bind fun rc => (failWith_quiet bs .curl seen).ite (Keeps.pure _)

theorem marshalRequest_quiet : Quiet (marshalRequest calls) := by
  intro seen
  have hmarshal : ∀ output, Keeps (Seen seen) (requestMarshalling calls output) := fun output =>
    Keeps.modifyGet fun _ h => h.same rfl rfl
  refine (createOr_quiet _ _ _ seen).bind fun output => (hmarshal output).bind fun rc => ?_
  refine Keeps.guard (failWith_leaves _ _ seen) ?_
  refine (bufferLength_quiet _ seen).bind fun length => (createOr_quiet _ _ _ seen).bind fun b => ?_
  intro w h
  refine (encode_seen h).bind fun _ t ht => (bufferDelete_seen ht).bind fun _ t' ht' => ?_
  exact Ensures.pure ht'

theorem configurePost_quiet (b : Nat) : Quiet (configurePost calls b) := by
  intro seen
  refine (setoptOr_quiet _ _ seen).bind fun _ => (bufferLength_quiet _ seen).bind fun length => ?_
  refine (setoptOr_quiet _ _ seen).bind fun _ => (setoptOr_quiet _ _ seen).bind fun _ => ?_
  exact setoptOr_quiet _ _ seen

theorem configureResponse_quiet (b : Nat) : Quiet (configureResponse calls b) := by
  intro seen
  refine (createOr_quiet _ _ _ seen).bind fun b64input => (setoptOr_quiet _ _ seen).bind fun _ => ?_
  exact (setoptOr_quiet _ _ seen).bind fun _ => Keeps.pure b64input

/-! ## 3. The plugins -/

theorem applyPip_seen (pip : PepPip) (h : Seen seen w) :
    Ensures (applyPip pip) w (fun _ => Seen (seen ++ [.pip pip.id 0]))
      (fun e w' => e = .pipProcess ∧ ∃ rc, rc ≠ 0 ∧ Seen (seen ++ [.pip pip.id rc]) w') := by
  have hprocess : Ensures (pipProcess pip) w (fun rc => Seen (seen ++ [.pip pip.id rc]))
      (fun e w' => e = .pipProcess ∧ ∃ rc, rc ≠ 0 ∧ Seen (seen ++ [.pip pip.id rc]) w') :=
    Ensures.modifyGet (h.snoc rfl rfl)
  unfold applyPip
  refine hprocess.bind fun rc t ht => Ensures.ite (fun hrc => ?_) fun hrc => ?_
  · exact Ensures.throw ⟨rfl, rc, hrc, ht⟩
  · rw [not_not.mp hrc] at ht
    exact Ensures.pure ht

/-- The ids of the plugins, if they are enabled. -/
def enabledIds (enabled : Bool) (ids : List CString) : List CString := if enabled then ids else []

/-- The PIPs and the handlers of a handle that are enabled. -/
def enabledPips (pep : Pep) : List CString :=
  enabledIds pep.optionPipsEnabled (pep.pips.map PepPip.id)

def enabledOhs (pep : Pep) : List CString :=
  enabledIds pep.optionOhsEnabled (pep.ohs.map PepObligationhandler.id)

/-- A call took one of its courses. -/
def Ended (pep : Pep) (e : PepError) (w : World) : Prop :=
  ∃ seen, Seen seen w ∧ Course (enabledPips pep) (enabledOhs pep) e seen

/-- All PIPs return 0, or the call fails at one that does not. -/
theorem applyPips_seen (h : Seen [] w) :
    Ensures (applyPips pep) w (fun _ => Seen (allPips (enabledPips pep))) (Ended pep) := by
  unfold applyPips
  cases henabled : pep.optionPipsEnabled with
  | false =>
    have hpips : enabledPips pep = [] := by
      unfold enabledPips
      rw [henabled]
      rfl
    rw [hpips]
    exact Ensures.pure h
  | true =>
    have hpips : enabledPips pep = pep.pips.map PepPip.id := by
      unfold enabledPips
      rw [henabled]
      rfl
    rw [hpips]
    refine (Ensures.forM_through (I := fun through => Seen (allPips (through.map PepPip.id)))
      (F := fun through pip e w' => e = .pipProcess ∧ ∃ rc, rc ≠ 0 ∧
        Seen (allPips (through.map PepPip.id) ++ [.pip pip.id rc]) w')
      pep.pips (fun through pip t ht => ?_) h).exits ?_
    · have hround := applyPip_seen pip ht
      simp only [allPips, List.map_append] at hround ⊢
      exact hround
    · intro e t h
      obtain ⟨through, pip, later, hthrough, rfl, rc, hrc, hseen⟩ := h
      have hids : enabledPips pep = through.map PepPip.id ++ pip.id :: later.map PepPip.id := by
        rw [hpips, hthrough, List.map_append]
        rfl
      exact ⟨_, hseen, .pipFailed hids hrc⟩

theorem applyObligationhandler_seen (bs : List (Option Nat)) (oh : PepObligationhandler)
    (h : Seen seen w) :
    Ensures (applyObligationhandler bs oh) w (fun _ => Seen (seen ++ [.oh oh.id 0]))
      (fun e w' => e = .ohProcess ∧ ∃ rc, rc ≠ 0 ∧ Seen (seen ++ [.oh oh.id rc]) w') := by
  have hprocess : Ensures (ohProcess oh) w (fun rc => Seen (seen ++ [.oh oh.id rc]))
      (fun e w' => e = .ohProcess ∧ ∃ rc, rc ≠ 0 ∧ Seen (seen ++ [.oh oh.id rc]) w') :=
    Ensures.modifyGet (h.snoc rfl rfl)
  unfold applyObligationhandler
  refine hprocess.bind fun rc t ht => Ensures.ite (fun hrc => ?_) fun hrc => ?_
  · exact (failWith_seen bs .ohProcess ht).exits fun e t' ht' => ⟨ht'.1, rc, hrc, ht'.2⟩
  · rw [not_not.mp hrc] at ht
    exact Ensures.pure ht

/-- All handlers return 0, or the call fails at one that does not. -/
theorem applyObligationhandlers_seen (bs : List (Option Nat))
    (h : Seen (allPips (enabledPips pep) ++ transfer) w) :
    Ensures (applyObligationhandlers pep bs) w
      (fun _ => Seen (allPips (enabledPips pep) ++ transfer ++ allOhs (enabledOhs pep)))
      (Ended pep) := by
  unfold applyObligationhandlers
  cases henabled : pep.optionOhsEnabled with
  | false =>
    have hohs : enabledOhs pep = [] := by
      unfold enabledOhs
      rw [henabled]
      rfl
    rw [hohs]
    refine Ensures.pure ?_
    show Seen (_ ++ []) w
    rwa [List.append_nil]
  | true =>
    have hohs : enabledOhs pep = pep.ohs.map PepObligationhandler.id := by
      unfold enabledOhs
      rw [henabled]
      rfl
    rw [hohs]
    refine (Ensures.forM_through
      (I := fun through =>
        Seen (allPips (enabledPips pep) ++ transfer ++ allOhs (through.map PepObligationhandler.id)))
      (F := fun through oh e w' => e = .ohProcess ∧ ∃ rc, rc ≠ 0 ∧
        Seen (allPips (enabledPips pep) ++ transfer
          ++ allOhs (through.map PepObligationhandler.id) ++ [.oh oh.id rc]) w')
      pep.ohs (fun through oh t ht => ?_) ?_).exits ?_
    · have hround := applyObligationhandler_seen bs oh ht
      simp only [allOhs, List.map_append, ← List.append_assoc] at hround ⊢
      exact hround
    · show Seen (_ ++ []) w
      rwa [List.append_nil]
    · intro e t h
      obtain ⟨through, oh, later, hthrough, rfl, rc, hrc, hseen⟩ := h
      have hids : enabledOhs pep = through.map PepObligationhandler.id ++
          oh.id :: later.map PepObligationhandler.id := by
        rw [hohs, hthrough, List.map_append]
        rfl
      exact ⟨_, hseen, .ohFailed hids hrc⟩

/-! ## 4. The whole call -/

theorem failWith_ended {α : Type} {Q : α → World → Prop} (bs : List (Option Nat))
    {rc : PepError} (h : Seen seen w)
    (hcourse : Course (enabledPips pep) (enabledOhs pep) rc seen) :
    Ensures (failWith bs rc : Authorize α) w Q (Ended pep) :=
  (failWith_seen bs rc h).exits fun _ _ ht => ⟨seen, ht.2, ht.1 ▸ hcourse⟩

/-- The transfer is made and answered with status 200, or the call fails. -/
theorem sendRequest_seen (bs : List (Option Nat))
    (h : Seen (allPips (enabledPips pep)) w) :
    Ensures (sendRequest calls bs) w
      (fun _ => Seen (allPips (enabledPips pep) ++ [.perform CURLE_OK, .status CURLE_OK 200]))
      (Ended pep) := by
  have hperform : Ensures (curlEasyPerform calls) w
      (fun rc => Seen (allPips (enabledPips pep) ++ [.perform rc])) (Ended pep) :=
    Ensures.modifyGet (h.snoc rfl rfl)
  unfold sendRequest
  refine hperform.bind fun curlRc w₁ h₁ => Ensures.ite (fun hrc => ?_) fun hrc => ?_
  · exact (failWith_ended bs h₁ (.unanswered _ (.unperformed hrc))).leave
  rw [not_not.mp hrc] at h₁
  have hgetinfo : Ensures (curlEasyGetinfo calls) w₁
      (fun answer => Seen (allPips (enabledPips pep) ++ [.perform CURLE_OK] ++
        [.status answer.1 answer.2])) (Ended pep) :=
    Ensures.modifyGet (h₁.snoc rfl rfl)
  refine hgetinfo.bind fun answer w₂ h₂ => ?_
  rw [List.append_assoc] at h₂
  refine Ensures.ite (fun hrc => ?_) fun hrc => ?_
  · exact (failWith_ended bs h₂ (.unanswered _ (.noStatus (.inl hrc)))).leave
  refine Ensures.ite (fun hcode => ?_) fun hcode => ?_
  · exact failWith_ended bs h₂ (.unanswered _ (.noStatus (.inr hcode)))
  · rw [not_not.mp hrc, not_not.mp hcode] at h₂
    exact Ensures.pure h₂

/-- The body received is unmarshalled, or the call fails. -/
theorem responseUnmarshalling_seen {input : Option Nat}
    (h : Seen (allPips (enabledPips pep) ++ [.perform CURLE_OK, .status CURLE_OK 200]) w) :
    Ensures (responseUnmarshalling calls input) w
      (fun rc => Seen (allPips (enabledPips pep) ++
        [.perform CURLE_OK, .status CURLE_OK 200, .unmarshalled rc])) E := by
  have hrun : Ensures (responseUnmarshalling calls input) w
      (fun rc => Seen (allPips (enabledPips pep) ++ [.perform CURLE_OK, .status CURLE_OK 200]
        ++ [.unmarshalled rc])) E := Ensures.modifyGet (h.snoc rfl rfl)
  exact hrun.mono fun rc t ht => by rwa [List.append_assoc] at ht

/-- **Every call takes one of its courses.** -/
theorem authorize_course (h : Seen [] w) :
    Ensures (authorize calls pep) w (fun _ => Ended pep .ok) (Ended pep) := by
  have hunsent : ∀ e t, Seen (allPips (enabledPips pep)) t → Ended pep e t :=
    fun e _ ht => ⟨_, (List.append_nil _).symm ▸ ht, .unanswered e .unsent⟩
  unfold authorize
  refine (applyPips_seen h).bind fun _ w₁ h₁ => ?_
  refine ((marshalRequest_quiet _ w₁ h₁).exits hunsent).bind fun b64output w₂ h₂ => ?_
  refine ((configurePost_quiet b64output _ w₂ h₂).exits hunsent).bind fun _ w₃ h₃ => ?_
  refine ((configureResponse_quiet b64output _ w₃ h₃).exits hunsent).bind fun b64input w₄ h₄ => ?_
  refine (bufferCreate_seen h₄).bind fun input w₅ h₅ => ?_
  refine (sendRequest_seen _ h₅).bind fun _ w₆ h₆ => ?_
  refine (decode_seen h₆).bind fun _ w₇ h₇ => ?_
  refine (responseUnmarshalling_seen h₇).bind fun rc w₈ h₈ => Ensures.ite (fun hrc => ?_) fun hrc => ?_
  · exact (failWith_ended _ h₈ (.unanswered _ (.refused hrc))).leave
  rw [not_not.mp hrc] at h₈
  refine (bufferDelete_seen h₈).bind fun _ w₉ h₉ => ?_
  refine (replaceRequest_seen h₉).bind fun _ w₁₀ h₁₀ => ?_
  refine (applyObligationhandlers_seen _ h₁₀).bind fun _ w₁₁ h₁₁ => ?_
  refine (bufferDelete_seen h₁₁).bind fun _ w₁₂ h₁₂ => ?_
  exact (bufferDelete_seen h₁₂).mono fun _ t ht => ⟨_, ht, .handled⟩

end Steps

/-! ## 5. What a call does with the plugins -/

/-- Plugins are called in order, each once; the calls stop at the first that does not return 0. -/
structure InOrder (ids : List CString) (called : List (CString × Int)) : Prop where
  order : called.map Prod.fst <+: ids
  passed : ∀ c ∈ called.dropLast, c.2 = 0
  stopped : called.length < ids.length → ∃ c, called.getLast? = some c ∧ c.2 ≠ 0

/-- What a `pep_authorize` that passes its NULL checks does with the PIPs and handlers registered. -/
structure Called (pipsEnabled : Bool) (pips : List CString) (ohsEnabled : Bool) (ohs : List CString)
    (rc : PepError) (seen : List Sighting) : Prop where
  pips_disabled : pipsEnabled = false → pipCalls seen = []
  pips_enabled : pipsEnabled = true → InOrder pips (pipCalls seen)
  pip_failed : (∃ c ∈ pipCalls seen, c.2 ≠ 0) →
    rc = .pipProcess ∧ (∀ curlRc, .perform curlRc ∉ seen) ∧ ohCalls seen = []
  /-- A handler is called only if they are enabled, and behind the answer. -/
  ohs_after : ∀ before id ohRc after, seen = before ++ .oh id ohRc :: after →
    ohsEnabled = true ∧ .perform CURLE_OK ∈ before ∧ .status CURLE_OK 200 ∈ before ∧
      .unmarshalled .ok ∈ before
  ohs_answered : ohsEnabled = true → .unmarshalled .ok ∈ seen → InOrder ohs (ohCalls seen)
  oh_failed : (∃ c ∈ ohCalls seen, c.2 ≠ 0) → rc = .ohProcess

/-- Calls that all returned 0. -/
def passed (ids : List CString) : List (CString × Int) := ids.map (·, 0)

theorem passed_rc {ids : List CString} {c : CString × Int} (h : c ∈ passed ids) : c.2 = 0 := by
  obtain ⟨id, -, rfl⟩ := List.mem_map.mp h
  rfl

theorem passed_ids (ids : List CString) : (passed ids).map Prod.fst = ids := by
  unfold passed
  rw [List.map_map]
  exact List.map_id ids

theorem inOrder_all (ids : List CString) : InOrder ids (passed ids) := by
  refine ⟨⟨[], ?_⟩, fun c hc => passed_rc (List.dropLast_subset _ hc), fun hlt => ?_⟩
  · rw [List.append_nil, passed_ids]
  · have hlength : (passed ids).length = ids.length := List.length_map _
    omega

theorem inOrder_failed {ids done later : List CString} {id : CString} {rc : Int}
    (h : ids = done ++ id :: later) (hrc : rc ≠ 0) : InOrder ids (passed done ++ [(id, rc)]) := by
  refine ⟨⟨later, ?_⟩, fun c hc => ?_, fun _ => ⟨(id, rc), List.getLast?_concat, hrc⟩⟩
  · rw [List.map_append, passed_ids, h, List.append_assoc]
    rfl
  · rw [List.dropLast_concat] at hc
    exact passed_rc hc

theorem pipCalls_append (s t : List Sighting) : pipCalls (s ++ t) = pipCalls s ++ pipCalls t :=
  List.filterMap_append ..

theorem ohCalls_append (s t : List Sighting) : ohCalls (s ++ t) = ohCalls s ++ ohCalls t :=
  List.filterMap_append ..

theorem pipCalls_allPips (ids : List CString) : pipCalls (allPips ids) = passed ids := by
  induction ids with
  | nil => rfl
  | cons id ids ih => exact congrArg ((id, 0) :: ·) ih

theorem ohCalls_allPips (ids : List CString) : ohCalls (allPips ids) = [] := by
  induction ids with
  | nil => rfl
  | cons id ids ih => exact ih

theorem pipCalls_allOhs (ids : List CString) : pipCalls (allOhs ids) = [] := by
  induction ids with
  | nil => rfl
  | cons id ids ih => exact ih

theorem ohCalls_allOhs (ids : List CString) : ohCalls (allOhs ids) = passed ids := by
  induction ids with
  | nil => rfl
  | cons id ids ih => exact congrArg ((id, 0) :: ·) ih

theorem Unanswered.silent {part : List Sighting} (h : Unanswered part) :
    pipCalls part = [] ∧ ohCalls part = [] ∧ .unmarshalled .ok ∉ part := by
  cases h with
  | unsent => exact ⟨rfl, rfl, List.not_mem_nil⟩
  | unperformed _ => exact ⟨rfl, rfl, by simp⟩
  | noStatus _ => exact ⟨rfl, rfl, by simp⟩
  | refused hrc => exact ⟨rfl, rfl, by simpa using hrc.symm⟩

section Courses

variable {pips ohs : List CString} {e : PepError} {seen : List Sighting}

/-- The PIPs of a call: all returned 0, or it failed at one. -/
theorem course_pips (h : Course pips ohs e seen) :
    pipCalls seen = passed pips ∨
    ∃ done id later rc, pips = done ++ id :: later ∧ rc ≠ 0 ∧ e = .pipProcess ∧
      seen = allPips done ++ [.pip id rc] := by
  cases h with
  | pipFailed hpips hrc => exact .inr ⟨_, _, _, _, hpips, hrc, rfl, rfl⟩
  | unanswered _ hpart =>
    left
    rw [pipCalls_append, pipCalls_allPips, hpart.silent.1, List.append_nil]
  | ohFailed hohs hrc =>
    left
    rw [pipCalls_append, pipCalls_append, pipCalls_append, pipCalls_allPips, pipCalls_allOhs]
    simp [pipCalls, transfer]
  | handled =>
    left
    rw [pipCalls_append, pipCalls_append, pipCalls_allPips, pipCalls_allOhs]
    simp [pipCalls, transfer]

theorem unmarshalled_not_mem_allPips (ids : List CString) (rc : PepError) :
    .unmarshalled rc ∉ allPips ids := by
  intro hmem
  obtain ⟨id, -, hid⟩ := List.mem_map.mp hmem
  cases hid

/-- The handlers of a call: none was called, or they were called behind an answer, and all returned
    0 or the call failed at one. -/
theorem course_handlers (h : Course pips ohs e seen) :
    (.unmarshalled .ok ∉ seen ∧ ohCalls seen = []) ∨
    ∃ handled, seen = allPips pips ++ transfer ++ handled ∧
      (handled = allOhs ohs ∨ ∃ done id later rc, ohs = done ++ id :: later ∧ rc ≠ 0 ∧
        e = .ohProcess ∧ handled = allOhs done ++ [.oh id rc]) := by
  cases h with
  | pipFailed _ hrc =>
    refine .inl ⟨fun hmem => ?_, ?_⟩
    · rcases List.mem_append.mp hmem with hmem | hmem
      · exact unmarshalled_not_mem_allPips _ _ hmem
      · cases List.mem_singleton.mp hmem
    · rw [ohCalls_append, ohCalls_allPips]
      rfl
  | unanswered _ hpart =>
    refine .inl ⟨fun hmem => ?_, ?_⟩
    · rcases List.mem_append.mp hmem with hmem | hmem
      · exact unmarshalled_not_mem_allPips _ _ hmem
      · exact hpart.silent.2.2 hmem
    · rw [ohCalls_append, ohCalls_allPips, hpart.silent.2.1]
      rfl
  | ohFailed hohs hrc =>
    exact .inr ⟨_, List.append_assoc .., .inr ⟨_, _, _, _, hohs, hrc, rfl, rfl⟩⟩
  | handled => exact .inr ⟨_, rfl, .inl rfl⟩

/-- What stands behind the answer: the handlers called. -/
theorem mem_ohCalls {id : CString} {rc : Int} : (id, rc) ∈ ohCalls seen ↔ .oh id rc ∈ seen := by
  unfold ohCalls
  rw [List.mem_filterMap]
  constructor
  · intro h
    obtain ⟨s, hs, heq⟩ := h
    cases s with
    | oh id' rc' =>
      cases heq
      exact hs
    | _ => cases heq
  · exact fun h => ⟨_, h, rfl⟩

/-- What was called behind an answer. -/
theorem ohCalls_answered (ids : List CString) (handled : List Sighting) :
    ohCalls (allPips ids ++ transfer ++ handled) = ohCalls handled := by
  rw [ohCalls_append, ohCalls_append, ohCalls_allPips]
  rfl

/-- Before a handler is called the answer is there. -/
theorem answer_before {ids : List CString} {handled before after : List Sighting} {id : CString}
    {rc : Int} (h : allPips ids ++ transfer ++ handled = before ++ .oh id rc :: after) :
    allPips ids ++ transfer <+: before := by
  rcases List.append_eq_append_iff.mp h with ⟨more, hbefore, -⟩ | ⟨more, hpart, hmore⟩
  · exact ⟨more, hbefore.symm⟩
  · cases more with
    | nil =>
      rw [List.append_nil] at hpart
      exact hpart ▸ List.prefix_refl _
    | cons s more =>
      obtain ⟨rfl, -⟩ := List.cons.inj hmore
      have hcalled : (id, rc) ∈ ohCalls (allPips ids ++ transfer) := by
        rw [mem_ohCalls, hpart]
        exact List.mem_append_right _ List.mem_cons_self
      have hnone := ohCalls_answered ids []
      rw [List.append_nil] at hnone
      rw [hnone] at hcalled
      exact absurd hcalled List.not_mem_nil

theorem transfer_mem {ids : List CString} {before : List Sighting} {s : Sighting}
    (h : allPips ids ++ transfer <+: before) (hs : s ∈ transfer) : s ∈ before :=
  h.subset (List.mem_append_right _ hs)

theorem called_pips {enabled : Bool} (h : Course (enabledIds enabled pips) ohs e seen) :
    (enabled = false → pipCalls seen = []) ∧ (enabled = true → InOrder pips (pipCalls seen)) := by
  cases enabled with
  | false =>
    refine ⟨fun _ => ?_, fun htrue => absurd htrue Bool.false_ne_true⟩
    rcases course_pips h with hall | ⟨done, id, later, rc, hpips, -⟩
    · exact hall
    · exact absurd hpips.symm (List.append_ne_nil_of_right_ne_nil _ (List.cons_ne_nil _ _))
  | true =>
    refine ⟨fun hfalse => absurd hfalse.symm Bool.false_ne_true, fun _ => ?_⟩
    rcases course_pips h with hall | ⟨done, id, later, rc, hpips, hrc, -, rfl⟩
    · rw [hall]
      exact inOrder_all pips
    · rw [pipCalls_append, pipCalls_allPips]
      exact inOrder_failed hpips hrc

/-- A handler that was called is enabled. -/
theorem called_ohs {enabled : Bool} {handled : List Sighting} {id : CString} {rc : Int}
    (h : handled = allOhs (enabledIds enabled ohs) ∨ ∃ done id later rc,
      enabledIds enabled ohs = done ++ id :: later ∧ rc ≠ 0 ∧ e = .ohProcess ∧
        handled = allOhs done ++ [.oh id rc]) (hmem : (id, rc) ∈ ohCalls handled) :
    enabled = true := by
  cases enabled with
  | true => rfl
  | false =>
    rcases h with rfl | ⟨done, _, later, _, hohs, -⟩
    · exact absurd hmem List.not_mem_nil
    · exact absurd hohs.symm (List.append_ne_nil_of_right_ne_nil _ (List.cons_ne_nil _ _))

/-- **What a call does with the plugins**, whatever its course. -/
theorem course_called {pipsEnabled ohsEnabled : Bool}
    (h : Course (enabledIds pipsEnabled pips) (enabledIds ohsEnabled ohs) e seen) :
    Called pipsEnabled pips ohsEnabled ohs e seen where
  pips_disabled := (called_pips h).1
  pips_enabled := (called_pips h).2
  pip_failed := by
    intro h
    obtain ⟨c, hc, hrc⟩ := h
    rcases course_pips h with hall | ⟨done, id, later, rc, -, -, rfl, rfl⟩
    · rw [hall] at hc
      exact absurd (passed_rc hc) hrc
    · refine ⟨rfl, fun curlRc hmem => ?_, ?_⟩
      · rcases List.mem_append.mp hmem with hmem | hmem
        · obtain ⟨_, -, hid⟩ := List.mem_map.mp hmem
          cases hid
        · cases List.mem_singleton.mp hmem
      · rw [ohCalls_append, ohCalls_allPips]
        rfl
  ohs_after := by
    intro before id rc after hsplit
    have hcalled : (id, rc) ∈ ohCalls seen :=
      mem_ohCalls.mpr (hsplit ▸ List.mem_append_right _ List.mem_cons_self)
    rcases course_handlers h with ⟨-, hnone⟩ | ⟨handled, rfl, hhandled⟩
    · rw [hnone] at hcalled
      exact absurd hcalled List.not_mem_nil
    · have hbefore := answer_before hsplit
      rw [ohCalls_answered] at hcalled
      exact ⟨called_ohs hhandled hcalled, transfer_mem hbefore (by simp [transfer]),
        transfer_mem hbefore (by simp [transfer]), transfer_mem hbefore (by simp [transfer])⟩
  ohs_answered := by
    intro e hanswer
    obtain rfl := e
    rcases course_handlers h with ⟨hnot, -⟩ | ⟨handled, rfl, hhandled⟩
    · exact absurd hanswer hnot
    · rw [ohCalls_answered]
      rcases hhandled with rfl | ⟨done, id, later, rc, hohs, hrc, -, rfl⟩
      · rw [ohCalls_allOhs]
        exact inOrder_all ohs
      · rw [ohCalls_append, ohCalls_allOhs]
        exact inOrder_failed hohs hrc
  oh_failed := by
    intro h
    obtain ⟨c, hc, hrc⟩ := h
    rcases course_handlers h with ⟨-, hnone⟩ | ⟨handled, rfl, hhandled⟩
    · rw [hnone] at hc
      exact absurd hc List.not_mem_nil
    · rcases hhandled with rfl | ⟨_, _, _, _, -, -, rfl, -⟩
      · rw [ohCalls_answered, ohCalls_allOhs] at hc
        exact absurd (passed_rc hc) hrc
      · rfl

end Courses

/-! ## 6. The life of a handle -/

/-- The PIPs whose `init` returned 0, in the order of the calls. -/
def registeredPips (ops : List Operation) : List CString :=
  ops.filterMap fun
    | .addpip pip rc => if rc = 0 then pip else none
    | _ => none

/-- The obligation handlers whose `init` returned 0, in the order of the calls. -/
def registeredOhs (ops : List Operation) : List CString :=
  ops.filterMap fun
    | .addobligationhandler oh rc => if rc = 0 then oh else none
    | _ => none

/-- The values given for PEP_OPTION_ENABLE_PIPS. -/
def pipsValues (ops : List Operation) : List CInt :=
  ops.filterMap fun
    | .enablePips value => some value
    | _ => none

/-- The values given for PEP_OPTION_ENABLE_OBLIGATIONHANDLERS. -/
def ohsValues (ops : List Operation) : List CInt :=
  ops.filterMap fun
    | .enableObligationhandlers value => some value
    | _ => none

/-- The last value decides; without one the plugins are enabled. -/
def enabledBy (values : List CInt) : Bool := values.getLast?.elim true fun value => decide (value = 1#32)

/-- What a call returned and called, behind the calls `before`. -/
def OutcomeOf (url : Option CString) (before : List Operation) : Operation → Outcome → Prop
  | .addpip none _, o => o = ⟨.nullPointer, []⟩
  | .addpip (some pip) rc, o => o = ⟨if rc = 0 then .ok else .pipInit, [.pipInit pip rc]⟩
  | .addobligationhandler none _, o => o = ⟨.nullPointer, []⟩
  | .addobligationhandler (some oh) rc, o =>
    o = ⟨if rc = 0 then .ok else .ohInit, [.ohInit oh rc]⟩
  | .enablePips _, o => o = ⟨.ok, []⟩
  | .enableObligationhandlers _, o => o = ⟨.ok, []⟩
  | .authorize session, o =>
    if url = none ∨ session.caller.request = none then o = ⟨.nullPointer, []⟩
    else ∃ trace, o.events = trace.map .authorize ∧
      Called (enabledBy (pipsValues before)) (registeredPips before) (enabledBy (ohsValues before))
        (registeredOhs before) o.rc (sightings trace)

/-- The handle after the calls `ops`. -/
def Handle.after (url : Option CString) (ops : List Operation) : Handle where
  optionEndpointUrl := url
  optionPipsEnabled := enabledBy (pipsValues ops)
  pips := registeredPips ops
  optionOhsEnabled := enabledBy (ohsValues ops)
  ohs := registeredOhs ops

/-- Elements carried along with their places are the elements. -/
theorem map_mapIdx_self {α β : Type} {f : Nat → α → β} {g : β → α} (h : ∀ i a, g (f i a) = a)
    (xs : List α) : (xs.mapIdx f).map g = xs := by
  refine List.ext_getElem? fun i => ?_
  rw [List.getElem?_map, List.getElem?_mapIdx, Option.map_map]
  have hid : g ∘ f i = id := funext (h i)
  rw [hid, Option.map_id]
  rfl

/-- A call without an endpoint or a request returns at once. -/
theorem pepAuthorize_null (calls : Calls) (pep : Pep) (c : Caller)
    (h : pep.optionEndpointUrl = none ∨ c.request = none) :
    pepAuthorize calls (some pep) c = ⟨.nullPointer, c.request, c.response, []⟩ := by
  unfold pepAuthorize
  cases hrequest : c.request with
  | none => rfl
  | some request =>
    rcases h with hurl | hnone
    · exact if_pos hurl
    · rw [hrequest] at hnone
      cases hnone

/-- Any other call takes a course. -/
theorem pepAuthorize_course (calls : Calls) (pep : Pep) (c : Caller)
    (h : ¬(pep.optionEndpointUrl = none ∨ c.request = none)) :
    Course (enabledPips pep) (enabledOhs pep) (pepAuthorize calls (some pep) c).rc
      (sightings (pepAuthorize calls (some pep) c).trace) := by
  obtain ⟨hurl, hrequest⟩ := not_or.mp h
  obtain ⟨request, hrequest⟩ := Option.ne_none_iff_exists'.mp hrequest
  have hauthorize : pepAuthorize calls (some pep) c =
      Returned.ofRun ((Authorize.authorize calls pep).run (World.start c request)) := by
    unfold pepAuthorize
    rw [hrequest]
    exact if_neg hurl
  have hcourse : Ensures (Authorize.authorize calls pep) (World.start c request)
      (fun _ => Ended pep .ok) (Ended pep) := authorize_course rfl
  rw [hauthorize]
  unfold Ensures at hcourse
  rcases hrun : (Authorize.authorize calls pep).run (World.start c request) with ⟨rc | _, w⟩
  · rw [hrun] at hcourse
    obtain ⟨seen, rfl, hcourse⟩ := hcourse
    exact hcourse
  · rw [hrun] at hcourse
    obtain ⟨seen, rfl, hcourse⟩ := hcourse
    exact hcourse

theorem authorize_called (h : Handle) (session : Session) :
    if h.optionEndpointUrl = none ∨ session.caller.request = none then
      (h.authorize session).1 = ⟨.nullPointer, []⟩
    else ∃ trace, (h.authorize session).1.events = trace.map .authorize ∧
      Called h.optionPipsEnabled h.pips h.optionOhsEnabled h.ohs (h.authorize session).1.rc
        (sightings trace) := by
  by_cases hnull : h.optionEndpointUrl = none ∨ session.caller.request = none
  · rw [if_pos hnull]
    unfold Handle.authorize
    rw [pepAuthorize_null session.calls (h.pep session) session.caller hnull]
    rfl
  · rw [if_neg hnull]
    refine ⟨_, rfl, ?_⟩
    have hcourse := pepAuthorize_course session.calls (h.pep session) session.caller hnull
    have hpips : enabledPips (h.pep session) = enabledIds h.optionPipsEnabled h.pips :=
      congrArg _ (map_mapIdx_self (fun _ _ => rfl) h.pips)
    have hohs : enabledOhs (h.pep session) = enabledIds h.optionOhsEnabled h.ohs :=
      congrArg _ (map_mapIdx_self (fun _ _ => rfl) h.ohs)
    rw [hpips, hohs] at hcourse
    exact course_called hcourse

theorem enabledBy_concat (values : List CInt) (value : CInt) :
    enabledBy (values ++ [value]) = decide (value = 1#32) := by
  unfold enabledBy
  rw [List.getLast?_concat]
  rfl

section Step

variable (url : Option CString) (before : List Operation)

theorem after_concat (op : Operation) : Handle.after url (before ++ [op]) =
    ⟨url, enabledBy (pipsValues before ++ pipsValues [op]),
      registeredPips before ++ registeredPips [op],
      enabledBy (ohsValues before ++ ohsValues [op]),
      registeredOhs before ++ registeredOhs [op]⟩ := by
  unfold Handle.after pipsValues registeredPips ohsValues registeredOhs
  simp only [List.filterMap_append]

theorem addpip_outcome (pip : Option CString) (rc : Int) :
    OutcomeOf url before (.addpip pip rc) ((Handle.after url before).addpip pip rc).1 ∧
      ((Handle.after url before).addpip pip rc).2 = Handle.after url (before ++ [.addpip pip rc]) := by
  rw [after_concat]
  cases pip with
  | none => exact ⟨rfl, by simp [registeredPips, pipsValues, ohsValues, registeredOhs, Handle.addpip,
      Handle.after]⟩
  | some pip =>
    by_cases hrc : rc = 0
    · subst hrc
      exact ⟨rfl, by simp [registeredPips, pipsValues, ohsValues, registeredOhs, Handle.addpip,
        Handle.after, Handle.register]⟩
    · simp [OutcomeOf, registeredPips, pipsValues, ohsValues, registeredOhs, Handle.addpip,
        Handle.after, hrc]

theorem addobligationhandler_outcome (oh : Option CString) (rc : Int) :
    OutcomeOf url before (.addobligationhandler oh rc)
        ((Handle.after url before).addobligationhandler oh rc).1 ∧
      ((Handle.after url before).addobligationhandler oh rc).2 =
        Handle.after url (before ++ [.addobligationhandler oh rc]) := by
  rw [after_concat]
  cases oh with
  | none => exact ⟨rfl, by simp [registeredPips, pipsValues, ohsValues, registeredOhs,
      Handle.addobligationhandler, Handle.after]⟩
  | some oh =>
    by_cases hrc : rc = 0
    · subst hrc
      exact ⟨rfl, by simp [registeredPips, pipsValues, ohsValues, registeredOhs,
        Handle.addobligationhandler, Handle.after, Handle.registerOh]⟩
    · simp [OutcomeOf, registeredPips, pipsValues, ohsValues, registeredOhs,
        Handle.addobligationhandler, Handle.after, hrc]

/-- One call on the handle behind the calls `before`. -/
theorem step_outcome (op : Operation) :
    OutcomeOf url before op ((Handle.after url before).step op).1 ∧
      ((Handle.after url before).step op).2 = Handle.after url (before ++ [op]) := by
  cases op with
  | addpip pip rc => exact addpip_outcome url before pip rc
  | addobligationhandler oh rc => exact addobligationhandler_outcome url before oh rc
  | enablePips value =>
    refine ⟨rfl, ?_⟩
    rw [after_concat, show pipsValues [.enablePips value] = [value] from rfl, enabledBy_concat]
    simp [ohsValues, registeredPips, registeredOhs, Handle.step, Handle.enablePips, Handle.after]
  | enableObligationhandlers value =>
    refine ⟨rfl, ?_⟩
    rw [after_concat, show ohsValues [.enableObligationhandlers value] = [value] from rfl,
      enabledBy_concat]
    simp [pipsValues, registeredPips, registeredOhs, Handle.step, Handle.enableObligationhandlers,
      Handle.after]
  | authorize session =>
    refine ⟨authorize_called (Handle.after url before) session, ?_⟩
    rw [after_concat]
    simp [pipsValues, registeredPips, ohsValues, registeredOhs, Handle.step, Handle.authorize,
      Handle.after]

/-- The calls `ops` behind the calls `before`. -/
theorem run_outcomes (ops : List Operation) :
    ((Handle.after url before).run ops).1.length = ops.length ∧
    (∀ done op later, ops = done ++ op :: later → ∃ o,
      ((Handle.after url before).run ops).1[done.length]? = some o ∧
        OutcomeOf url (before ++ done) op o) ∧
    ((Handle.after url before).run ops).2 = Handle.after url (before ++ ops) := by
  induction ops generalizing before with
  | nil =>
    refine ⟨rfl, fun done op later h => ?_, by rw [List.append_nil]; rfl⟩
    exact absurd h.symm (List.append_ne_nil_of_right_ne_nil _ (List.cons_ne_nil _ _))
  | cons op ops ih =>
    obtain ⟨houtcome, hstep⟩ := step_outcome url before op
    have hrun : (Handle.after url before).run (op :: ops) =
        (((Handle.after url before).step op).1 :: ((Handle.after url (before ++ [op])).run ops).1,
          ((Handle.after url (before ++ [op])).run ops).2) := by
      rw [← hstep]
      rfl
    obtain ⟨hlength, hall, hafter⟩ := ih (before ++ [op])
    rw [hrun]
    refine ⟨congrArg (· + 1) hlength, fun done op' later h => ?_, ?_⟩
    · cases done with
      | nil =>
        obtain ⟨rfl, -⟩ := List.cons.inj h
        rw [List.append_nil]
        exact ⟨_, rfl, houtcome⟩
      | cons op'' done =>
        obtain ⟨rfl, hrest⟩ := List.cons.inj h
        obtain ⟨o, ho, houtcome'⟩ := hall done op' later hrest
        rw [List.append_assoc] at houtcome'
        exact ⟨o, ho, houtcome'⟩
    · rw [hafter, List.append_assoc]
      rfl

end Step

theorem drain_eq (event : CString → Int → PluginEvent) (rc : Nat → Int) (place : Nat)
    (plugins : List CString) :
    drain event rc place plugins = plugins.mapIdx fun i plugin => event plugin (rc (place + i)) := by
  induction plugins generalizing place with
  | nil => rfl
  | cons plugin plugins ih =>
    rw [List.mapIdx_cons, drain, ih]
    simp only [Nat.add_zero, Nat.add_assoc, Nat.add_comm 1]

/-- **The life of the PIPs and obligation handlers of a handle**, over every sequence of calls:
    those whose `init` returned 0 are registered, each call does with them what it is to do, and
    `pep_destroy` destroys each once for each time it was registered. -/
theorem plugin_lifecycle (url : Option CString) (ops : List Operation) (pipRc ohRc : Nat → Int) :
    ((Handle.initial url).run ops).1.length = ops.length ∧
    (∀ before op later, ops = before ++ op :: later → ∃ o,
      ((Handle.initial url).run ops).1[before.length]? = some o ∧ OutcomeOf url before op o) ∧
    ((Handle.initial url).run ops).2.pips = registeredPips ops ∧
    ((Handle.initial url).run ops).2.ohs = registeredOhs ops ∧
    pepDestroy ((Handle.initial url).run ops).2 pipRc ohRc =
      (registeredPips ops).mapIdx (fun i pip => .pipDestroy pip (pipRc i)) ++
        (registeredOhs ops).mapIdx (fun i oh => .ohDestroy oh (ohRc i)) := by
  obtain ⟨hlength, hall, hafter⟩ := run_outcomes url [] ops
  have hinitial : Handle.after url [] = Handle.initial url := rfl
  rw [hinitial] at hlength hall hafter
  refine ⟨hlength, hall, ?_, ?_, ?_⟩
  · rw [hafter]
    rfl
  · rw [hafter]
    rfl
  · rw [hafter]
    unfold pepDestroy
    rw [drain_eq, drain_eq]
    simp only [Nat.zero_add]
    rfl

/-- A call of `pep_authorize` with a request. -/
def echoSession : Session where
  calls := echoCalls
  pipProcess _ request := (0, request)
  ohProcess _ request results := (0, request, results.getD [])
  caller := echoCaller

/-- Without an endpoint the PIP that is registered and enabled is not called. -/
theorem pip_not_called : ∃ o,
    ((Handle.initial none).run [.addpip (some (CString.lit "pip")) 0, .authorize echoSession]).1[1]?
      = some o ∧ echoSession.caller.request.isSome ∧
    ¬∃ trace, o.events = trace.map .authorize ∧
      Called (enabledBy (pipsValues [.addpip (some (CString.lit "pip")) 0]))
        (registeredPips [.addpip (some (CString.lit "pip")) 0])
        (enabledBy (ohsValues [.addpip (some (CString.lit "pip")) 0]))
        (registeredOhs [.addpip (some (CString.lit "pip")) 0]) o.rc (sightings trace) := by
  refine ⟨⟨.nullPointer, []⟩, rfl, rfl, ?_⟩
  intro h
  obtain ⟨trace, htrace, hcalled⟩ := h
  obtain rfl := List.map_eq_nil_iff.mp htrace.symm
  obtain ⟨c, hc, -⟩ := (hcalled.pips_enabled rfl).stopped (Nat.lt_succ_self 0)
  cases hc

end ArgusPep
