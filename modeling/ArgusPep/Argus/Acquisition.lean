/-
  File:      ArgusPep/Argus/Acquisition.lean
  Subject:   What `pep_authorize` acquires before the transfer, and what a refusal comes to.

  Four buffers and six settings of libcurl are acquired one after another. A refusal of one of them
  ends the call without a transfer, but for the last: behind the `buffer_create` of `input` the code
  tests `output`, and the request goes out.

  * `Guarded` -- every refusal ends the call with its error code, and nothing is sent;
  * `Calm` -- a trace without a refusal and without a transfer: the INVARIANT before the transfer;
  * `Stopped` -- where a refusal ends the call;
  * `Underway` -- the INVARIANT from the transfer on: nothing more is refused;
  * `guarded_iff` -- a call is guarded exactly if the last buffer is granted, or the call does not
    come to it.
-/
import ArgusPep.Argus.Pep

namespace ArgusPep

open Lib

/-! ## 1. Refusals and the transfer -/

/-- `curl_easy_perform` is in the trace. -/
def Sent (trace : List Event) : Prop :=
  ∃ readdata writedata rc, Event.curlEasyPerform readdata writedata rc ∈ trace

/-- A buffer that is NULL is `PEP_ERR_MEMORY`, a setting that fails with no such buffer before it is
    `PEP_ERR_CURL`, and nothing is sent. -/
structure Guarded (r : Returned) : Prop where
  memory : Event.bufferCreate none ∈ r.trace → r.rc = .memory ∧ ¬Sent r.trace
  curl : ∀ before option rc behind, r.trace = before ++ .curlEasySetopt option rc :: behind →
    rc ≠ CURLE_OK → Event.bufferCreate none ∉ before → r.rc = .curl ∧ ¬Sent r.trace

/-- The contents of the request behind the PIPs; `none` if one of them fails. -/
def behindPips : List PepPip → XacmlRequest → Option XacmlRequest
  | [], val => some val
  | pip :: rest, val =>
    if (pip.process val).1 = 0 then behindPips rest (pip.process val).2 else none

/-- All PIPs succeed, and the request they leave is marshalled to `bytes`. -/
def Marshals (calls : Calls) (pep : Pep) (val : XacmlRequest) (bytes : Bytes) : Prop :=
  ∃ processed, (if pep.optionPipsEnabled then behindPips pep.pips val else some val) =
    some processed ∧ calls.xacmlRequestMarshalling processed = (.ok, bytes)

/-- What `base64_encode_l` makes of the marshalled request. -/
def encodedRequest (bytes : Bytes) : Bytes :=
  ((base64EncodeL bytes [] BASE64_DEFAULT_LINE_SIZE).getD (bytes, [])).2

/-- The answers to the acquisitions of `marshalRequest`. -/
structure Calls.GrantsMarshal (calls : Calls) (bytes : Bytes) : Prop where
  output : calls.bufferCreate .output 512 = true
  b64output : calls.bufferCreate .b64output bytes.length = true

/-- Those of `configurePost`. -/
structure Calls.GrantsPost (calls : Calls) (buffer length : Nat) : Prop where
  post : calls.curlEasySetopt (.post 1) = CURLE_OK
  postfieldsize : calls.curlEasySetopt (.postfieldsize length) = CURLE_OK
  readdata : calls.curlEasySetopt (.readdata buffer) = CURLE_OK
  readfunction : calls.curlEasySetopt .readfunctionBufferRead = CURLE_OK

/-- Those of `configureResponse`. -/
structure Calls.GrantsResponse (calls : Calls) (buffer : Nat) : Prop where
  b64input : calls.bufferCreate .b64input 1024 = true
  writedata : calls.curlEasySetopt (.writedata buffer) = CURLE_OK
  writefunction : calls.curlEasySetopt .writefunctionBufferWrite = CURLE_OK

/-- All acquisitions before the last one are granted. The three buffers are the next objects
    created. -/
structure Calls.GrantsEarlier (calls : Calls) (bytes : Bytes) (created : Nat) : Prop where
  marshal : calls.GrantsMarshal bytes
  post : calls.GrantsPost (created + 1) (encodedRequest bytes).length
  response : calls.GrantsResponse (created + 2)

/-! ## 2. Before the transfer -/

/-- A refusal. -/
def Event.Refuses : Event → Prop
  | .bufferCreate none => True
  | .curlEasySetopt _ rc => rc ≠ CURLE_OK
  | _ => False

/-- The transfer. -/
def Event.Performs : Event → Prop
  | .curlEasyPerform _ _ _ => True
  | _ => False

/-- Nothing was refused, and nothing was sent. -/
def Calm (trace : List Event) : Prop := ∀ e ∈ trace, ¬e.Refuses ∧ ¬e.Performs

/-- The error code of a refusal. -/
inductive RefusedWith : Event → PepError → Prop where
  | memory : RefusedWith (.bufferCreate none) .memory
  | curl (option : CurlOption) (code : CurlCode) (h : code ≠ CURLE_OK) :
    RefusedWith (.curlEasySetopt option code) .curl

/-- The call ended with the error code of its only refusal. -/
def Stopped (rc : PepError) (trace : List Event) : Prop :=
  ∃ before refusal behind, trace = before ++ refusal :: behind ∧ RefusedWith refusal rc ∧
    Calm before ∧ Calm behind

section Traces

variable {trace : List Event} {e : Event} {rc : PepError}

theorem calm_nil : Calm [] := fun _ h => absurd h List.not_mem_nil

theorem Calm.snoc (h : Calm trace) (he : ¬e.Refuses ∧ ¬e.Performs) : Calm (trace ++ [e]) := by
  intro e' he'
  rcases List.mem_append.mp he' with hbefore | hlast
  · exact h e' hbefore
  · rw [List.mem_singleton.mp hlast]
    exact he

theorem RefusedWith.not_performs (h : RefusedWith e rc) : ¬e.Performs := by
  cases h <;> exact not_false

theorem Stopped.snoc (h : Stopped rc trace) (he : ¬e.Refuses ∧ ¬e.Performs) :
    Stopped rc (trace ++ [e]) := by
  obtain ⟨before, refusal, behind, rfl, hrefusal, hbefore, hbehind⟩ := h
  refine ⟨before, refusal, behind ++ [e], ?_, hrefusal, hbefore, hbehind.snoc he⟩
  rw [List.append_assoc, List.cons_append]

theorem Stopped.not_sent (h : Stopped rc trace) : ¬Sent trace := by
  obtain ⟨before, refusal, behind, rfl, hrefusal, hbefore, hbehind⟩ := h
  intro hsent
  obtain ⟨readdata, writedata, code, hmem⟩ := hsent
  rcases List.mem_append.mp hmem with hmem | hmem
  · exact (hbefore _ hmem).2 trivial
  · rcases List.mem_cons.mp hmem with rfl | hmem
    · exact hrefusal.not_performs trivial
    · exact (hbehind _ hmem).2 trivial

/-- The refusal of a stopped call is the only one. -/
theorem Stopped.refusal (h : Stopped rc trace) (he : e ∈ trace) (hrefuses : e.Refuses) :
    RefusedWith e rc := by
  obtain ⟨before, refusal, behind, rfl, hrefusal, hbefore, hbehind⟩ := h
  rcases List.mem_append.mp he with hmem | hmem
  · exact absurd hrefuses (hbefore _ hmem).1
  · rcases List.mem_cons.mp hmem with rfl | hmem
    · exact hrefusal
    · exact absurd hrefuses (hbehind _ hmem).1

/-- A call is guarded if each refusal in it is the reason it ended. -/
theorem guarded_of_refused {r : Returned}
    (h : ∀ e ∈ r.trace, e.Refuses → RefusedWith e r.rc ∧ ¬Sent r.trace) : Guarded r where
  memory hmem := by
    obtain ⟨hrefused, hsent⟩ := h _ hmem trivial
    refine ⟨?_, hsent⟩
    generalize r.rc = rc at hrefused
    cases hrefused
    rfl
  curl before option code behind htrace hcode _ := by
    have hmem : Event.curlEasySetopt option code ∈ r.trace := by
      rw [htrace]
      exact List.mem_append_cons_self
    obtain ⟨hrefused, hsent⟩ := h _ hmem hcode
    refine ⟨?_, hsent⟩
    generalize r.rc = rc at hrefused
    cases hrefused
    rfl

/-- **A call that a refusal stopped is guarded.** -/
theorem Stopped.guarded {r : Returned} (h : Stopped r.rc r.trace) : Guarded r :=
  guarded_of_refused fun _ hmem hrefuses => ⟨h.refusal hmem hrefuses, h.not_sent⟩

end Traces

/-- **The invariant before the transfer**: nothing was refused or sent, with the objects created so
    far, the contents of the buffers and of the request. -/
structure Preparing (created : Nat) (content : Nat → Bytes) (val : XacmlRequest) (w : World) :
    Prop where
  calm : Calm w.trace
  created : w.created = created
  content : w.content = content
  val : w.request.val = val

namespace Authorize

section Steps

variable {calls : Calls} {w : World} {n : Nat} {content : Nat → Bytes} {val : XacmlRequest}
  {E : PepError → World → Prop}

/-- The buffers are deleted behind the refusal. -/
theorem failWith_stopped {α : Type} {bs : List (Option Nat)} {rc : PepError} {Q : α → World → Prop}
    (h : Stopped rc w.trace) : Ensures (failWith bs rc) w Q fun e t => Stopped e t.trace := by
  unfold failWith
  suffices hdel : Ensures (bs.forM bufferDelete) w (fun _ t => Stopped rc t.trace)
      (fun e t => Stopped e t.trace) from hdel.bind fun _ _ ht => Ensures.throw ht
  refine Ensures.forM (fun b _ t ht => ?_) h
  exact Ensures.modify (ht.snoc ⟨not_false, not_false⟩)

/-- The exit of a refusal. -/
theorem failWith_refused {α : Type} {bs : List (Option Nat)} {rc : PepError} {e : Event}
    {Q : α → World → Prop} {before : List Event} (hbefore : Calm before)
    (htrace : w.trace = before ++ [e]) (he : RefusedWith e rc) :
    Ensures (failWith bs rc) w Q fun rc' t => Stopped rc' t.trace :=
  failWith_stopped ⟨before, e, [], htrace, he, hbefore, calm_nil⟩

theorem createOr_preparing {name : BufferName} {size : Nat} {bs : List (Option Nat)}
    (h : Preparing n content val w) :
    Ensures (createOr calls name size bs) w
      (fun b w' => calls.bufferCreate name size = true ∧ b = n ∧
        Preparing (n + 1) (Function.update content n []) val w')
      (fun rc w' => calls.bufferCreate name size = false ∧ Stopped rc w'.trace) := by
  obtain ⟨hcalm, rfl, rfl, hval⟩ := h
  unfold createOr
  by_cases hb : calls.bufferCreate name size = true
  · have hcreate : Ensures (Authorize.bufferCreate calls name size) w
        (fun b w' => b = some w.created ∧
          Preparing (w.created + 1) (Function.update w.content w.created []) val w')
        (fun rc w' => calls.bufferCreate name size = false ∧ Stopped rc w'.trace) := by
      refine Ensures.modifyGet ?_
      rw [if_pos hb]
      exact ⟨rfl, hcalm.snoc ⟨not_false, not_false⟩, rfl, rfl, hval⟩
    refine hcreate.bind fun b w₁ h₁ => ?_
    obtain ⟨rfl, h₁⟩ := h₁
    exact Ensures.pure ⟨hb, rfl, h₁⟩
  · have hcreate : Ensures (Authorize.bufferCreate calls name size) w
        (fun b w' => b = none ∧ w'.trace = w.trace ++ [.bufferCreate none])
        (fun rc w' => calls.bufferCreate name size = false ∧ Stopped rc w'.trace) := by
      refine Ensures.modifyGet ?_
      rw [if_neg hb]
      exact ⟨rfl, rfl⟩
    refine hcreate.bind fun b w₁ h₁ => ?_
    obtain ⟨rfl, htrace⟩ := h₁
    exact (failWith_refused hcalm htrace .memory).exits fun _ _ ht =>
      ⟨Bool.eq_false_iff.mpr hb, ht⟩

theorem setoptOr_preparing {option : CurlOption} {bs : List (Option Nat)}
    (h : Preparing n content val w) :
    Ensures (setoptOr calls option bs) w
      (fun _ w' => calls.curlEasySetopt option = CURLE_OK ∧ Preparing n content val w')
      (fun rc w' => calls.curlEasySetopt option ≠ CURLE_OK ∧ Stopped rc w'.trace) := by
  have hset : Ensures (curlEasySetopt calls option) w
      (fun rc w' => rc = calls.curlEasySetopt option ∧ w'.created = w.created ∧
        w'.content = w.content ∧ w'.request = w.request ∧
        w'.trace = w.trace ++ [.curlEasySetopt option rc])
      (fun rc w' => calls.curlEasySetopt option ≠ CURLE_OK ∧ Stopped rc w'.trace) :=
    Ensures.modifyGet ⟨rfl, rfl, rfl, rfl, rfl⟩
  unfold setoptOr
  refine hset.bind fun rc w₁ h₁ => ?_
  obtain ⟨rfl, hcreated, hcontent, hrequest, htrace⟩ := h₁
  refine Ensures.ite (fun hrc => ?_) fun hrc => Ensures.pure ⟨not_not.mp hrc, ?_⟩
  · exact (failWith_refused h.calm htrace (.curl _ _ hrc)).exits fun _ _ ht => ⟨hrc, ht⟩
  · refine ⟨?_, hcreated.trans h.created, hcontent.trans h.content, ?_⟩
    · rw [htrace]
      exact h.calm.snoc ⟨hrc, not_false⟩
    · rw [hrequest]
      exact h.val

theorem bufferLength_preparing {b : Nat} (h : Preparing n content val w) :
    Ensures (bufferLength b) w
      (fun length w' => length = (content b).length ∧ Preparing n content val w') E := by
  refine Ensures.modifyGet ⟨?_, h.calm.snoc ⟨not_false, not_false⟩, h.created, h.content,
    h.val⟩
  rw [h.content]

theorem bufferDelete_preparing {b : Option Nat} (h : Preparing n content val w) :
    Ensures (bufferDelete b) w (fun _ => Preparing n content val) E :=
  Ensures.modify ⟨h.calm.snoc ⟨not_false, not_false⟩, h.created, h.content, h.val⟩

/-- A PIP that succeeds. -/
theorem applyPip_preparing {pip : PepPip} (h : Preparing n content val w)
    (hpip : (pip.process val).1 = 0) :
    Ensures (applyPip pip) w (fun _ => Preparing n content (pip.process val).2) E := by
  have hprocess : Ensures (pipProcess pip) w
      (fun rc w' => rc = 0 ∧ Preparing n content (pip.process val).2 w') E := by
    refine Ensures.modifyGet ⟨?_, h.calm.snoc ⟨not_false, not_false⟩, h.created, h.content,
      ?_⟩
    · show (pip.process w.request.val).1 = 0
      rw [h.val]
      exact hpip
    · show (pip.process w.request.val).2 = (pip.process val).2
      rw [h.val]
  unfold applyPip
  refine hprocess.bind fun rc w₁ h₁ => Ensures.ite (fun hne => absurd h₁.1 hne) fun _ => ?_
  exact Ensures.pure h₁.2

/-- All of them, one after another. -/
theorem forM_applyPip_preparing {pips : List PepPip} {processed : XacmlRequest}
    (h : Preparing n content val w) (hpips : behindPips pips val = some processed) :
    Ensures (pips.forM applyPip) w (fun _ => Preparing n content processed) E := by
  induction pips generalizing w val with
  | nil =>
    cases hpips
    exact Ensures.pure h
  | cons pip rest ih =>
    unfold behindPips at hpips
    by_cases hpip : (pip.process val).1 = 0
    · rw [if_pos hpip] at hpips
      exact (applyPip_preparing h hpip).bind fun _ w₁ h₁ => ih h₁ hpips
    · rw [if_neg hpip] at hpips
      cases hpips

theorem applyPips_preparing {pep : Pep} {processed : XacmlRequest}
    (h : Preparing n content val w)
    (hpips : (if pep.optionPipsEnabled then behindPips pep.pips val else some val) =
      some processed) :
    Ensures (applyPips pep) w (fun _ => Preparing n content processed) E := by
  unfold applyPips
  by_cases henabled : pep.optionPipsEnabled = true
  · rw [if_pos henabled] at hpips ⊢
    exact forM_applyPip_preparing h hpips
  · rw [if_neg henabled] at hpips ⊢
    cases hpips
    exact Ensures.pure h

theorem requestMarshalling_preparing {output : Nat} {bytes : Bytes} (h : Preparing n content val w)
    (hmarshal : calls.xacmlRequestMarshalling val = (.ok, bytes)) :
    Ensures (requestMarshalling calls output) w
      (fun rc w' => rc = .ok ∧
        Preparing n (Function.update content output (content output ++ bytes)) val w') E := by
  have hrun : calls.xacmlRequestMarshalling w.request.val = (.ok, bytes) := by
    rw [h.val]
    exact hmarshal
  refine Ensures.modifyGet ⟨congrArg Prod.fst hrun, h.calm.snoc ⟨not_false, not_false⟩,
    h.created, ?_, h.val⟩
  show Function.update w.content output
    (w.content output ++ (calls.xacmlRequestMarshalling w.request.val).2) = _
  rw [hrun, h.content]

theorem encode_preparing {inbuf outbuf : Nat} (h : Preparing n content val w)
    (hout : content outbuf = []) :
    Ensures (encode inbuf outbuf) w (fun _ w' => ∃ content',
      content' outbuf = encodedRequest (content inbuf) ∧ Preparing n content' val w') E := by
  refine Ensures.modify ⟨_, ?_, h.calm.snoc ⟨not_false, not_false⟩, h.created, rfl, h.val⟩
  show Function.update _ outbuf _ outbuf = _
  rw [Function.update_self, h.content, hout]
  unfold encodedRequest
  cases base64EncodeL (content inbuf) [] BASE64_DEFAULT_LINE_SIZE <;> rfl

theorem marshalRequest_preparing {bytes : Bytes} (h : Preparing n content val w)
    (hmarshal : calls.xacmlRequestMarshalling val = (.ok, bytes)) :
    Ensures (marshalRequest calls) w
      (fun b w' => calls.GrantsMarshal bytes ∧ b = n + 1 ∧ ∃ content',
        content' (n + 1) = encodedRequest bytes ∧ Preparing (n + 2) content' val w')
      (fun rc w' => ¬calls.GrantsMarshal bytes ∧ Stopped rc w'.trace) := by
  unfold marshalRequest
  refine ((createOr_preparing h).exits fun rc t ht =>
    ⟨fun hg => Bool.false_ne_true (ht.1.symm.trans hg.output), ht.2⟩).bind fun b w₁ h₁ => ?_
  obtain ⟨houtput, rfl, h₁⟩ := h₁
  refine (requestMarshalling_preparing h₁ hmarshal).bind fun rc w₂ h₂ => ?_
  obtain ⟨rfl, h₂⟩ := h₂
  rw [Function.update_self, List.nil_append] at h₂
  refine Ensures.ite (fun hne => absurd rfl hne) fun _ => ?_
  refine (bufferLength_preparing h₂).bind fun length w₃ h₃ => ?_
  obtain ⟨rfl, h₃⟩ := h₃
  rw [Function.update_self]
  refine ((createOr_preparing h₃).exits fun rc t ht =>
    ⟨fun hg => Bool.false_ne_true (ht.1.symm.trans hg.b64output), ht.2⟩).bind fun b' w₄ h₄ => ?_
  obtain ⟨hb64output, rfl, h₄⟩ := h₄
  refine (encode_preparing h₄ (Function.update_self ..)).bind fun _ w₅ h₅ => ?_
  obtain ⟨content', hencoded, h₅⟩ := h₅
  rw [Function.update_of_ne (Nat.ne_of_lt (Nat.lt_succ_self b)), Function.update_self] at hencoded
  refine (bufferDelete_preparing h₅).bind fun _ w₆ h₆ => Ensures.pure ?_
  exact ⟨⟨houtput, hb64output⟩, rfl, content', hencoded, h₆⟩

theorem configurePost_preparing {b64output : Nat} (h : Preparing n content val w) :
    Ensures (configurePost calls b64output) w
      (fun _ w' => calls.GrantsPost b64output (content b64output).length ∧
        Preparing n content val w')
      (fun rc w' => ¬calls.GrantsPost b64output (content b64output).length ∧
        Stopped rc w'.trace) := by
  unfold configurePost
  refine ((setoptOr_preparing h).exits fun rc t ht => ⟨fun hg => ht.1 hg.post, ht.2⟩).bind
    fun _ w₁ h₁ => ?_
  refine (bufferLength_preparing h₁.2).bind fun length w₂ h₂ => ?_
  obtain ⟨rfl, h₂⟩ := h₂
  refine ((setoptOr_preparing h₂).exits fun rc t ht => ⟨fun hg => ht.1 hg.postfieldsize, ht.2⟩).bind
    fun _ w₃ h₃ => ?_
  refine ((setoptOr_preparing h₃.2).exits fun rc t ht => ⟨fun hg => ht.1 hg.readdata, ht.2⟩).bind
    fun _ w₄ h₄ => ?_
  refine ((setoptOr_preparing h₄.2).exits fun rc t ht =>
    ⟨fun hg => ht.1 hg.readfunction, ht.2⟩).mono fun _ w₅ h₅ => ?_
  exact ⟨⟨h₁.1, h₃.1, h₄.1, h₅.1⟩, h₅.2⟩

theorem configureResponse_preparing {b64output : Nat} (h : Preparing n content val w) :
    Ensures (configureResponse calls b64output) w
      (fun _ w' => calls.GrantsResponse n ∧ Calm w'.trace)
      (fun rc w' => ¬calls.GrantsResponse n ∧ Stopped rc w'.trace) := by
  unfold configureResponse
  refine ((createOr_preparing h).exits fun rc t ht =>
    ⟨fun hg => Bool.false_ne_true (ht.1.symm.trans hg.b64input), ht.2⟩).bind fun b w₁ h₁ => ?_
  obtain ⟨hb64input, rfl, h₁⟩ := h₁
  refine ((setoptOr_preparing h₁).exits fun rc t ht => ⟨fun hg => ht.1 hg.writedata, ht.2⟩).bind
    fun _ w₂ h₂ => ?_
  refine ((setoptOr_preparing h₂.2).exits fun rc t ht =>
    ⟨fun hg => ht.1 hg.writefunction, ht.2⟩).bind fun _ w₃ h₃ => ?_
  exact Ensures.pure ⟨⟨hb64input, h₂.1, h₃.1⟩, h₃.2.calm⟩

end Steps

end Authorize

/-! ## 3. From the transfer on -/

/-- **The invariant from the transfer on**: behind `before` come the transfer and no refusal. -/
def Underway (before : List Event) (w : World) : Prop :=
  ∃ readdata writedata rc later,
    w.trace = before ++ .curlEasyPerform readdata writedata rc :: later ∧ ∀ e ∈ later, ¬e.Refuses

theorem Underway.snoc {before : List Event} {w w' : World} {e : Event} (h : Underway before w)
    (htrace : w'.trace = w.trace ++ [e]) (he : ¬e.Refuses) : Underway before w' := by
  obtain ⟨readdata, writedata, rc, later, hbefore, hlater⟩ := h
  refine ⟨readdata, writedata, rc, later ++ [e], ?_, ?_⟩
  · rw [htrace, hbefore, List.append_assoc, List.cons_append]
  · intro e' he'
    rcases List.mem_append.mp he' with hmem | hmem
    · exact hlater e' hmem
    · rw [List.mem_singleton.mp hmem]
      exact he

namespace Authorize

section Steps

variable {calls : Calls} {before : List Event}

theorem bufferDelete_underway (b : Option Nat) : Keeps (Underway before) (bufferDelete b) :=
  fun _ h => Ensures.modify (h.snoc rfl not_false)

theorem failWith_underway {α : Type} (bs : List (Option Nat)) (rc : PepError) {w : World}
    (h : Underway before w) :
    Ensures (failWith bs rc : Authorize α) w (fun _ _ => False) (fun _ => Underway before) := by
  unfold failWith
  suffices hdel : Ensures (bs.forM bufferDelete) w (fun _ => Underway before)
      (fun _ => Underway before) from hdel.bind fun _ _ ht => Ensures.throw ht
  exact Ensures.forM (fun b _ t ht => bufferDelete_underway b t ht) h

/-- `curl_easy_perform`, and the checks behind it. -/
theorem sendRequest_underway (bs : List (Option Nat)) (w : World) :
    Ensures (sendRequest calls bs) w (fun _ => Underway w.trace) (fun _ => Underway w.trace) := by
  have hperform : Ensures (curlEasyPerform calls) w (fun _ => Underway w.trace)
      (fun _ => Underway w.trace) :=
    Ensures.modifyGet ⟨_, _, _, [], rfl, fun _ h => absurd h List.not_mem_nil⟩
  unfold sendRequest
  refine hperform.bind fun rc w₁ h₁ => ?_
  refine Ensures.ite (fun _ => (failWith_underway bs _ h₁).leave) fun _ => ?_
  have hgetinfo : Keeps (Underway w.trace) (curlEasyGetinfo calls) :=
    Keeps.modifyGet fun _ h => h.snoc rfl not_false
  refine (hgetinfo w₁ h₁).bind fun answer w₂ h₂ => ?_
  obtain ⟨curlRc, httpCode⟩ := answer
  refine Ensures.ite (fun _ => (failWith_underway bs _ h₂).leave) fun _ => ?_
  refine Ensures.ite (fun _ => ?_) fun _ => Ensures.pure h₂
  exact (failWith_underway bs _ h₂).mono fun _ _ hf => hf.elim

theorem applyObligationhandlers_underway (pep : Pep) (bs : List (Option Nat)) :
    Keeps (Underway before) (applyObligationhandlers pep bs) := by
  refine Keeps.ite (fun w hw => ?_) (Keeps.pure _)
  refine Ensures.forM (fun oh _ t ht => ?_) hw
  have hprocess : Keeps (Underway before) (ohProcess oh) :=
    Keeps.modifyGet fun _ h => h.snoc rfl not_false
  unfold applyObligationhandler
  refine (hprocess t ht).bind fun rc w₁ h₁ => Ensures.ite (fun _ => ?_) fun _ => Ensures.pure h₁
  exact (failWith_underway bs _ h₁).mono fun _ _ hf => hf.elim

theorem replaceRequest_underway : Keeps (Underway before) replaceRequest := by
  intro w h
  refine Ensures.modify ?_
  split
  · exact h
  · exact h.snoc rfl not_false

/-- What follows on the `buffer_create` of `input`. -/
theorem transfer_underway (pep : Pep) (b64output b64input : Nat) (input : Option Nat) (w : World) :
    Ensures (do
      sendRequest calls [some b64output, some b64input, input]
      decode b64input input
      let unmarshalRc ← responseUnmarshalling calls input
      if unmarshalRc ≠ .ok then failWith [some b64output, some b64input, input] unmarshalRc
      bufferDelete (some b64output)
      replaceRequest
      applyObligationhandlers pep [some b64input, input]
      bufferDelete (some b64input)
      bufferDelete input) w (fun _ => Underway w.trace) (fun _ => Underway w.trace) := by
  refine (sendRequest_underway _ w).bind fun _ w₁ h₁ => ?_
  have hdecode : Keeps (Underway w.trace) (decode b64input input) :=
    fun _ h => Ensures.modify (h.snoc rfl not_false)
  refine (hdecode w₁ h₁).bind fun _ w₂ h₂ => ?_
  have hunmarshal : Keeps (Underway w.trace) (responseUnmarshalling calls input) :=
    Keeps.modifyGet fun _ h => h.snoc rfl not_false
  refine (hunmarshal w₂ h₂).bind fun rc w₃ h₃ => ?_
  refine Ensures.ite (fun _ => (failWith_underway _ _ h₃).leave) fun _ => ?_
  refine (bufferDelete_underway _ w₃ h₃).bind fun _ w₄ h₄ => ?_
  refine (replaceRequest_underway w₄ h₄).bind fun _ w₅ h₅ => ?_
  refine (applyObligationhandlers_underway pep _ w₅ h₅).bind fun _ w₆ h₆ => ?_
  refine (bufferDelete_underway _ w₆ h₆).bind fun _ w₇ h₇ => ?_
  exact bufferDelete_underway _ w₇ h₇

end Steps

/-! ## 4. The whole call -/

/-- The transfer took place, behind the answer for the last buffer and no refusal before it. -/
def Transferred (calls : Calls) (w : World) : Prop :=
  ∃ before b, Calm before ∧ (b = none ↔ calls.bufferCreate .input 1024 = false) ∧
    Underway (before ++ [.bufferCreate b]) w

/-- The end of a call whose request is marshalled to `bytes`, with `created` objects before it. -/
def Ended (calls : Calls) (bytes : Bytes) (created : Nat) (rc : PepError) (w : World) : Prop :=
  (¬calls.GrantsEarlier bytes created ∧ Stopped rc w.trace) ∨
    (calls.GrantsEarlier bytes created ∧ Transferred calls w)

theorem createInput_answer {calls : Calls} {w : World} {E : PepError → World → Prop} :
    Ensures (createInput calls) w (fun _ w' => ∃ b, w'.trace = w.trace ++ [.bufferCreate b] ∧
      (b = none ↔ calls.bufferCreate .input 1024 = false)) E := by
  refine Ensures.modifyGet ?_
  by_cases hb : calls.bufferCreate .input 1024 = true
  · rw [if_pos hb]
    exact ⟨some w.created, rfl, by simp [hb]⟩
  · rw [if_neg hb]
    exact ⟨none, rfl, by simp [Bool.eq_false_iff.mpr hb]⟩

theorem authorize_ended {calls : Calls} {pep : Pep} {w : World} {n : Nat} {val : XacmlRequest}
    {bytes : Bytes} (h : Preparing n (fun _ => []) val w)
    (hmarshals : Marshals calls pep val bytes) :
    Ensures (authorize calls pep) w (fun _ => Ended calls bytes n .ok) (Ended calls bytes n) := by
  obtain ⟨processed, hpips, hmarshal⟩ := hmarshals
  unfold authorize
  refine (applyPips_preparing h hpips).bind fun _ w₁ h₁ => ?_
  refine ((marshalRequest_preparing h₁ hmarshal).exits fun rc t ht =>
    .inl ⟨fun hg => ht.1 hg.marshal, ht.2⟩).bind fun b64output w₂ h₂ => ?_
  obtain ⟨hmarshal, rfl, content, hencoded, h₂⟩ := h₂
  refine ((configurePost_preparing h₂).exits fun rc t ht =>
    .inl ⟨fun hg => ht.1 (hencoded ▸ hg.post), ht.2⟩).bind fun _ w₃ h₃ => ?_
  obtain ⟨hpost, h₃⟩ := h₃
  rw [hencoded] at hpost
  refine ((configureResponse_preparing h₃).exits fun rc t ht =>
    .inl ⟨fun hg => ht.1 hg.response, ht.2⟩).bind fun b64input w₄ h₄ => ?_
  obtain ⟨hresponse, hcalm⟩ := h₄
  refine createInput_answer.bind fun input w₅ h₅ => ?_
  obtain ⟨b, htrace, hb⟩ := h₅
  -- all of it was granted: the transfer is next, whatever the answer for `input`
  have htransferred : ∀ t, Underway w₅.trace t → ∀ rc, Ended calls bytes n rc t := fun t ht rc =>
    .inr ⟨⟨hmarshal, hpost, hresponse⟩, w₄.trace, b, hcalm, hb, htrace ▸ ht⟩
  exact ((transfer_underway pep _ b64input input w₅).mono fun _ t ht => htransferred t ht .ok).exits
    fun rc t ht => htransferred t ht rc

end Authorize

theorem Underway.sent {before : List Event} {w : World} (h : Underway before w) : Sent w.trace := by
  obtain ⟨readdata, writedata, rc, later, htrace, -⟩ := h
  refine ⟨readdata, writedata, rc, ?_⟩
  rw [htrace]
  exact List.mem_append_cons_self

/-- Without a refusal before the transfer there is none. -/
theorem Underway.not_refuses {before : List Event} {w : World} (h : Underway before w)
    (hbefore : ∀ e ∈ before, ¬e.Refuses) : ∀ e ∈ w.trace, ¬e.Refuses := by
  obtain ⟨readdata, writedata, rc, later, htrace, hlater⟩ := h
  rw [htrace]
  intro e he
  rcases List.mem_append.mp he with hmem | hmem
  · exact hbefore e hmem
  · rcases List.mem_cons.mp hmem with rfl | hmem
    · exact not_false
    · exact hlater e hmem

/-- A call in which nothing was refused is guarded. -/
theorem guarded_of_not_refuses {r : Returned} (h : ∀ e ∈ r.trace, ¬e.Refuses) : Guarded r :=
  guarded_of_refused fun e hmem hrefuses => absurd hrefuses (h e hmem)

/-- **From the transfer on**: guarded exactly if the last buffer was granted. -/
theorem Authorize.Transferred.guarded_input_iff {calls : Calls} {w : World} {r : Returned}
    (h : Authorize.Transferred calls w) (htrace : r.trace = w.trace) :
    Guarded r ↔ calls.bufferCreate .input 1024 = true := by
  obtain ⟨before, b, hcalm, hb, hunderway⟩ := h
  constructor
  · intro hguarded
    by_contra hinput
    have hnone := hb.mpr (Bool.eq_false_iff.mpr hinput)
    subst hnone
    have hmem : Event.bufferCreate none ∈ r.trace := by
      obtain ⟨_, _, _, later, hlater, -⟩ := hunderway
      rw [htrace, hlater, List.append_assoc]
      exact List.mem_append_cons_self
    have hsent := hunderway.sent
    rw [← htrace] at hsent
    exact (hguarded.memory hmem).2 hsent
  · intro hinput
    refine guarded_of_not_refuses ?_
    rw [htrace]
    refine hunderway.not_refuses fun e he => ?_
    rcases List.mem_append.mp he with hmem | hmem
    · exact (hcalm e hmem).1
    · rw [List.mem_singleton.mp hmem]
      cases b with
      | none => exact absurd (hb.mp rfl) (by rw [hinput]; decide)
      | some b => exact not_false

section Call

variable {calls : Calls} {pep : Pep} {c : Caller} {request : RequestObject} {bytes : Bytes}

theorem pepAuthorize_ended (hurl : pep.optionEndpointUrl ≠ none)
    (hrequest : c.request = some request) (hmarshals : Marshals calls pep request.val bytes) :
    ∃ w, (pepAuthorize calls (some pep) c).trace = w.trace ∧
      Authorize.Ended calls bytes c.created (pepAuthorize calls (some pep) c).rc w := by
  have hended := Authorize.authorize_ended (w := World.start c request)
    ⟨calm_nil, rfl, rfl, rfl⟩ hmarshals
  have hcall : pepAuthorize calls (some pep) c =
      Returned.ofRun ((Authorize.authorize calls pep).run (World.start c request)) := by
    unfold pepAuthorize
    rw [hrequest]
    exact if_neg hurl
  rw [hcall]
  unfold Ensures at hended
  rcases hrun : (Authorize.authorize calls pep).run (World.start c request) with ⟨rc | _, w⟩
  · rw [hrun] at hended
    exact ⟨w, rfl, hended⟩
  · rw [hrun] at hended
    exact ⟨w, rfl, hended⟩

/-- **A refusal ends the call without a transfer, unless it is that of the last buffer and all
    before it was granted.** -/
theorem guarded_iff (hurl : pep.optionEndpointUrl ≠ none) (hrequest : c.request = some request)
    (hmarshals : Marshals calls pep request.val bytes) :
    Guarded (pepAuthorize calls (some pep) c) ↔
      calls.bufferCreate .input 1024 = true ∨ ¬calls.GrantsEarlier bytes c.created := by
  obtain ⟨w, htrace, hended⟩ := pepAuthorize_ended hurl hrequest hmarshals
  rcases hended with ⟨hrefused, hstopped⟩ | ⟨hgranted, htransferred⟩
  · exact iff_of_true (Stopped.guarded (htrace ▸ hstopped)) (.inr hrefused)
  · rw [htransferred.guarded_input_iff htrace]
    exact ⟨.inl, fun h => h.resolve_right (not_not_intro hgranted)⟩

end Call

/-! ## 5. A call with a refusal -/

/-- Everything is granted but what `refuses` says, and the server cannot be reached. -/
def refusingCalls (refuses : BufferName) : Calls where
  bufferCreate name _ := decide (name ≠ refuses)
  xacmlRequestMarshalling _ := (.ok, [0x4E])
  curlEasySetopt _ := CURLE_OK
  curlEasyPerform _ := (7, [])
  curlEasyGetinfo := (CURLE_OK, 0)
  xacmlResponseUnmarshalling := Unmarshalling.ofInput Mem.unlimited

theorem emptyRequest_created (r : RequestObject)
    (h : some (⟨0, xacmlRequestCreate⟩ : RequestObject) = some r) : r.address < 1 := by
  obtain rfl := Option.some.inj h
  decide

def emptyRequestCaller : Caller where
  created := 1
  curl := ⟨0, 0, none, false, none, false⟩
  request := some ⟨0, xacmlRequestCreate⟩
  response := none
  request_created := emptyRequest_created

def plainPep : Pep := ⟨some (CString.lit "u"), true, [], true, []⟩

theorem refusingCalls_marshals (refuses : BufferName) :
    Marshals (refusingCalls refuses) plainPep xacmlRequestCreate [0x4E] := ⟨_, rfl, rfl⟩

/-- Without the third buffer nothing is sent. -/
theorem guarded_without_b64input :
    Guarded (pepAuthorize (refusingCalls .b64input) (some plainPep) emptyRequestCaller) :=
  (guarded_iff (Option.some_ne_none _ : plainPep.optionEndpointUrl ≠ none) rfl
    (refusingCalls_marshals .b64input)).mpr (.inl rfl)

/-- Without the fourth the request goes out, and the call ends with the error of the transfer. -/
theorem sent_without_input :
    (pepAuthorize (refusingCalls .input) (some plainPep) emptyRequestCaller).rc = .curlPerform ∧
      Sent (pepAuthorize (refusingCalls .input) (some plainPep) emptyRequestCaller).trace ∧
      ¬Guarded (pepAuthorize (refusingCalls .input) (some plainPep) emptyRequestCaller) := by
  have hgranted : (refusingCalls .input).GrantsEarlier [0x4E] emptyRequestCaller.created :=
    ⟨⟨rfl, rfl⟩, ⟨rfl, rfl, rfl, rfl⟩, ⟨rfl, rfl, rfl⟩⟩
  obtain ⟨w, htrace, hended⟩ := pepAuthorize_ended
    (Option.some_ne_none _ : plainPep.optionEndpointUrl ≠ none) (c := emptyRequestCaller) rfl
    (refusingCalls_marshals .input)
  have htransferred := (hended.resolve_left fun h => h.1 hgranted).2
  refine ⟨by decide +kernel, ?_, fun hguarded => ?_⟩
  · obtain ⟨before, b, -, -, hunderway⟩ := htransferred
    rw [htrace]
    exact hunderway.sent
  · exact absurd ((htransferred.guarded_input_iff htrace).mp hguarded) (by decide)

end ArgusPep
