/-
  File:      ArgusPep/Argus/Ownership.lean
  Subject:   What `pep_authorize` owns at every point, and that none of its exits leaks, deletes
             twice or uses after deletion.

  * `Phase` -- how far the hand-over of the answer has come: nothing unmarshalled yet, a response
    in *response that still holds its request, and the request handed over;
  * `Stage c o p bs w` -- the INVARIANT: in the phase `p` the call owns exactly the buffers `bs`
    and what the phase has, everything else is deleted or was never touched. One step lemma for
    each kind of call (`Stage.use`, `Stage.create`, `Stage.delete`), one specification for each
    step of the function;
  * `authorize_exit` -- whatever the outcomes, the call leaves in a phase where nothing is pending
    and without a buffer;
  * **`ownership_discipline`** -- so every path keeps the discipline (`Disciplined`).
-/
import ArgusPep.Argus.Pep
import Mathlib.Data.List.ReduceOption

namespace ArgusPep

open Lib Lib.Lifetime

/-! ## 1. The discipline -/

/-- The acts of a call, behind the creation of the caller's request. -/
def lives (c : Caller) (trace : List Event) : List (Act Resource) :=
  c.request.toList.map (fun o => .acquire (.request o.address)) ++ actsOf trace

/-- The error code and the response written of every unmarshalling. -/
def unmarshallings (trace : List Event) : List (PepError × Option ResponseObject) :=
  trace.filterMap fun
    | .xacmlResponseUnmarshalling _ rc written => some (rc, written)
    | _ => none

/-- Unmarshalling succeeded. -/
def Succeeded (trace : List Event) : Prop := ∃ written, (.ok, written) ∈ unmarshallings trace

/-- `*response` was written. -/
def WritesResponse (trace : List Event) (response : ResponseObject) : Prop :=
  ∃ rc, (rc, some response) ∈ unmarshallings trace

/-- Unmarshalling succeeded with a response carrying the effective request `e`. -/
def EffectiveRequest (trace : List Event) (e : RequestObject) : Prop :=
  ∃ response, (.ok, some response) ∈ unmarshallings trace ∧ response.request = some e

/-- What the caller deletes afterwards: `xacml_request_delete(*request)`, and
    `xacml_response_delete(*response)` with the request the response holds. -/
def callerDeletes (r : Returned) : List Event :=
  (r.request.toList ++ (r.response.bind ResponseObject.request).toList).map
    fun request => .xacmlRequestDelete request.address

/-- The ownership discipline of `pep_authorize`. -/
structure Disciplined (c : Caller) (r : Returned) : Prop where
  /-- Every buffer created is deleted once and not touched again. -/
  buffers : ∀ b, Event.bufferCreate (some b) ∈ r.trace → Closed (.buffer b) (lives c r.trace)
  /-- With an effective request the original is deleted once and replaced, the response no longer
      holds the effective request, and deleting request and response deletes each once. -/
  replaced : ∀ o e, c.request = some o → EffectiveRequest r.trace e →
    (lives c r.trace).count (.release (.request o.address)) = 1 ∧
    r.request.map RequestObject.address = some e.address ∧
    (∃ response, r.response = some response ∧ response.request = none) ∧
    Closed (.request o.address) (lives c (r.trace ++ callerDeletes r)) ∧
    Closed (.request e.address) (lives c (r.trace ++ callerDeletes r))
  /-- Without one the original stays, and is not deleted. -/
  kept : ∀ o, c.request = some o → (∀ e, ¬EffectiveRequest r.trace e) →
    (lives c r.trace).count (.release (.request o.address)) = 0 ∧
    r.request.map RequestObject.address = some o.address
  /-- *response is written exactly when unmarshalling succeeded. -/
  written : Succeeded r.trace ↔ ∃ response, WritesResponse r.trace response
  response : ∀ response, WritesResponse r.trace response →
    r.response.map ResponseObject.address = some response.address
  unwritten : ¬Succeeded r.trace → r.response = c.response

/-! ## 2. The invariant -/

/-- How far the hand-over has come. -/
inductive Phase where
  /-- Nothing has been unmarshalled. -/
  | asked
  /-- Unmarshalling failed. -/
  | refused (rc : PepError)
  /-- `*response` is a new response, with its request in it. -/
  | answered (a : ResponseObject)
  /-- The request of the response has taken the place of the original, if it has one. -/
  | handedOver (a : ResponseObject)

/-- No hand-over is under way. -/
def Phase.Settled : Phase → Prop
  | .answered _ => False
  | _ => True

theorem settled_asked : Phase.asked.Settled := trivial

theorem settled_refused (rc : PepError) : (Phase.refused rc).Settled := trivial

theorem settled_handedOver (a : ResponseObject) : (Phase.handedOver a).Settled := trivial

/-- The requests and responses that are alive. -/
def Phase.held (o : RequestObject) : Phase → List Resource
  | .asked | .refused _ => [.request o.address]
  | .answered a => .request o.address :: a.resources
  | .handedOver a => [.response a.address, .request (a.request.getD o).address]

/-- What the address of `*request`, what `*response` and what the unmarshallings are. -/
def Phase.View (c : Caller) (o : RequestObject) : Phase → (request : Nat) →
    (response : Option ResponseObject) → List (PepError × Option ResponseObject) → Prop
  | .asked, request, response, us => request = o.address ∧ response = c.response ∧ us = []
  | .refused rc, request, response, us =>
    request = o.address ∧ response = c.response ∧ us = [(rc, none)] ∧ rc ≠ .ok
  | .answered a, request, response, us =>
    request = o.address ∧ response = some a ∧ us = [(.ok, some a)]
  | .handedOver a, request, response, us =>
    request = (a.request.getD o).address ∧ (∃ results, response = some ⟨a.address, none, results⟩) ∧
      us = [(.ok, some a)] ∧ ∀ e, a.request = some e → e.address ≠ o.address

/-- The live objects: the buffers that are not NULL, and those of the phase. -/
def Phase.live (o : RequestObject) (p : Phase) (bs : List (Option Nat)) : List Resource :=
  bs.reduceOption.map .buffer ++ p.held o

/-- **The invariant**: in the phase `p` the call owns the buffers `bs`. -/
structure Stage (c : Caller) (o : RequestObject) (p : Phase) (bs : List (Option Nat)) (w : World) :
    Prop where
  holds : Holds (lives c w.trace) (p.live o bs)
  created : ∀ a ∈ lives c w.trace, a.on.address < w.created
  view : p.View c o w.request.address w.response (unmarshallings w.trace)

theorem actsOf_append (trace later : List Event) :
    actsOf (trace ++ later) = actsOf trace ++ actsOf later := List.flatMap_append ..

theorem lives_append (c : Caller) (trace : List Event) (event : Event) :
    lives c (trace ++ [event]) = lives c trace ++ event.acts := by
  unfold lives
  rw [actsOf_append, List.append_assoc]
  show _ ++ (_ ++ (event.acts ++ [])) = _
  rw [List.append_nil]

theorem unmarshallings_append (trace : List Event) (event : Event) :
    unmarshallings (trace ++ [event]) = unmarshallings trace ++ unmarshallings [event] :=
  List.filterMap_append ..

theorem mem_live {o : RequestObject} {p : Phase} {bs : List (Option Nat)} {b : Nat}
    (h : some b ∈ bs) : Resource.buffer b ∈ p.live o bs :=
  List.mem_append_left _ (List.mem_map_of_mem (List.reduceOption_mem_iff.mpr h))

theorem mem_live_held {o : RequestObject} {p : Phase} {bs : List (Option Nat)} {r : Resource}
    (h : r ∈ p.held o) : r ∈ p.live o bs := List.mem_append_right _ h

theorem live_answered (o : RequestObject) (a : ResponseObject) (bs : List (Option Nat)) :
    (Phase.answered a).live o bs = Phase.asked.live o bs ++ a.resources := by
  unfold Phase.live
  rw [List.append_assoc]
  rfl

section Steps

variable {c : Caller} {o : RequestObject} {p : Phase} {bs : List (Option Nat)} {w w' : World}
  {event : Event}

/-- A live object was created before. -/
theorem Stage.lt_created (h : Stage c o p bs w) {r : Resource} (hr : r ∈ p.live o bs) :
    r.address < w.created := by
  obtain ⟨k, hk⟩ := h.holds.held r hr
  have hm : Act.acquire r ∈ actsOn r (lives c w.trace) := by
    rw [hk]
    exact List.mem_cons_self
  exact h.created _ (List.mem_of_mem_filter hm)

/-- **One call**: what it does to its objects and to what the phase sees. -/
theorem Stage.step {p' : Phase} {bs' : List (Option Nat)} (h : Stage c o p bs w)
    (htrace : w'.trace = w.trace ++ [event]) (hcreated : w.created ≤ w'.created)
    (hacts : ∀ a ∈ event.acts, a.on.address < w'.created)
    (hholds : Holds (lives c w.trace ++ event.acts) (p'.live o bs'))
    (hview : p'.View c o w'.request.address w'.response
      (unmarshallings w.trace ++ unmarshallings [event])) : Stage c o p' bs' w' where
  holds := by
    rw [htrace, lives_append]
    exact hholds
  created a ha := by
    rw [htrace, lives_append] at ha
    rcases List.mem_append.mp ha with ha | ha
    · exact Nat.lt_of_lt_of_le (h.created a ha) hcreated
    · exact hacts a ha
  view := by
    rw [htrace, unmarshallings_append]
    exact hview

/-- A call that leaves `*request` and `*response` in place and is no unmarshalling. -/
theorem Stage.call {bs' : List (Option Nat)} (h : Stage c o p bs w)
    (htrace : w'.trace = w.trace ++ [event]) (hrequest : w'.request.address = w.request.address)
    (hresponse : w'.response = w.response) (hevent : unmarshallings [event] = [])
    (hcreated : w.created ≤ w'.created) (hacts : ∀ a ∈ event.acts, a.on.address < w'.created)
    (hholds : Holds (lives c w.trace ++ event.acts) (p.live o bs')) : Stage c o p bs' w' := by
  refine h.step htrace hcreated hacts hholds ?_
  rw [hevent, List.append_nil, hrequest, hresponse]
  exact h.view

theorem Stage.uses_created {rs : List Resource} (h : Stage c o p bs w)
    (hlive : ∀ r ∈ rs, r ∈ p.live o bs) :
    ∀ a ∈ rs.map Act.use, a.on.address < w.created := by
  intro a ha
  obtain ⟨r, hr, rfl⟩ := List.mem_map.mp ha
  exact h.lt_created (hlive r hr)

/-- A call that uses live objects. -/
theorem Stage.use {rs : List Resource} (h : Stage c o p bs w)
    (htrace : w'.trace = w.trace ++ [event]) (hrequest : w'.request.address = w.request.address)
    (hresponse : w'.response = w.response) (hevent : unmarshallings [event] = [])
    (hcreated : w'.created = w.created) (hacts : event.acts = rs.map .use)
    (hlive : ∀ r ∈ rs, r ∈ p.live o bs) : Stage c o p bs w' := by
  refine h.call htrace hrequest hresponse hevent (Nat.le_of_eq hcreated.symm) ?_ ?_
  · rw [hacts, hcreated]
    exact h.uses_created hlive
  · rw [hacts]
    exact h.holds.uses hlive

/-- What has the next address or a later one was not touched before. -/
theorem Stage.fresh (h : Stage c o p bs w) {r : Resource} (hr : w.created ≤ r.address) :
    ∀ a ∈ lives c w.trace, a.on ≠ r := by
  intro a ha e
  have hlt := h.created a ha
  rw [e] at hlt
  exact absurd hlt (Nat.not_lt.mpr hr)

/-- A new buffer comes behind the others. -/
theorem Stage.create (h : Stage c o p bs w)
    (htrace : w'.trace = w.trace ++ [.bufferCreate (some w.created)])
    (hrequest : w'.request.address = w.request.address) (hresponse : w'.response = w.response)
    (hcreated : w'.created = w.created + 1) : Stage c o p (bs ++ [some w.created]) w' := by
  refine h.call htrace hrequest hresponse rfl (by omega) (fun a ha => ?_) ?_
  · obtain rfl := List.mem_singleton.mp ha
    rw [hcreated]
    exact Nat.lt_succ_self _
  · refine (h.holds.acquire (h.fresh (r := .buffer w.created) (Nat.le_refl _))).perm ?_
    unfold Phase.live
    rw [List.reduceOption_append, List.map_append, List.append_assoc]
    exact List.perm_middle.symm

/-- The first buffer is deleted, or was NULL. -/
theorem Stage.delete {b : Option Nat} (h : Stage c o p (b :: bs) w)
    (htrace : w'.trace = w.trace ++ [.bufferDelete b])
    (hrequest : w'.request.address = w.request.address) (hresponse : w'.response = w.response)
    (hcreated : w'.created = w.created) : Stage c o p bs w' := by
  refine h.call htrace hrequest hresponse rfl (Nat.le_of_eq hcreated.symm) ?_ ?_
  · cases b with
    | none => exact fun a ha => absurd ha List.not_mem_nil
    | some b =>
      intro a ha
      obtain rfl := List.mem_singleton.mp ha
      rw [hcreated]
      exact h.lt_created (mem_live List.mem_cons_self)
  · cases b with
    | none =>
      show Holds (lives c w.trace ++ []) _
      rw [List.append_nil]
      exact h.holds
    | some b => exact Holds.release h.holds

/-! ## 3. Creating, using and deleting -/

/-- The call can return: nothing is pending and no buffer is left. -/
def Exit (c : Caller) (o : RequestObject) (w : World) : Prop :=
  ∃ p : Phase, p.Settled ∧ Stage c o p [] w

open Authorize

variable {calls : Calls} {name : BufferName} {size : Nat} {E : PepError → World → Prop}

theorem bufferDelete_stage {b : Option Nat} (h : Stage c o p (b :: bs) w) :
    Ensures (bufferDelete b) w (fun _ => Stage c o p bs) E :=
  Ensures.modify (h.delete rfl rfl rfl rfl)

/-- An exit that deletes all buffers. -/
theorem failWith_exit {α : Type} {rc : PepError} {Q : α → World → Prop} (hp : p.Settled)
    (h : Stage c o p bs w) : Ensures (failWith bs rc) w Q (fun _ => Exit c o) := by
  unfold failWith
  suffices hdel : Ensures (bs.forM bufferDelete) w (fun _ => Stage c o p [])
      (fun _ => Exit c o) from
    hdel.bind fun _ t ht => Ensures.throw ⟨p, hp, ht⟩
  induction bs generalizing w with
  | nil => exact Ensures.pure h
  | cons b bs ih => exact (bufferDelete_stage h).bind fun _ t ht => ih ht

/-- A NULL buffer is nothing to own. -/
theorem Stage.null_iff : Stage c o p (bs ++ [none]) w ↔ Stage c o p bs w := by
  have hlive : p.live o (bs ++ [none]) = p.live o bs := by
    unfold Phase.live
    rw [List.reduceOption_append]
    show (bs.reduceOption ++ []).map _ ++ _ = _
    rw [List.append_nil]
  constructor
  · intro h
    exact ⟨hlive ▸ h.holds, h.created, h.view⟩
  · intro h
    exact ⟨hlive.symm ▸ h.holds, h.created, h.view⟩

theorem bufferCreate_stage (h : Stage c o p bs w) :
    Ensures (Authorize.bufferCreate calls name size) w
      (fun b w' => Stage c o p (bs ++ [b]) w' ∧ w'.curl = w.curl) E := by
  refine Ensures.modifyGet ?_
  by_cases hb : calls.bufferCreate name size = true
  · rw [if_pos hb]
    exact ⟨h.create rfl rfl rfl rfl, rfl⟩
  · rw [if_neg hb]
    have hnothing : ∀ r ∈ ([] : List Resource), r ∈ p.live o bs :=
      fun r hr => absurd hr List.not_mem_nil
    exact ⟨Stage.null_iff.mpr (h.use rfl rfl rfl rfl rfl rfl hnothing), rfl⟩

theorem createOr_stage (hp : p.Settled) (h : Stage c o p bs w) :
    Ensures (createOr calls name size bs) w
      (fun b w' => Stage c o p (bs ++ [some b]) w' ∧ w'.curl = w.curl) (fun _ => Exit c o) := by
  unfold createOr
  refine (bufferCreate_stage h).bind fun b t ht => ?_
  cases b with
  | some b => exact Ensures.pure ht
  | none =>
    exact failWith_exit hp (Stage.null_iff.mp ht.1)

theorem bufferLength_stage {b : Nat} (h : Stage c o p bs w) (hb : some b ∈ bs) :
    Ensures (bufferLength b) w (fun _ w' => Stage c o p bs w' ∧ w'.curl = w.curl) E := by
  have hlive : ∀ r ∈ [Resource.buffer b], r ∈ p.live o bs :=
    List.forall_mem_singleton.mpr (mem_live hb)
  exact Ensures.modifyGet ⟨h.use rfl rfl rfl rfl rfl rfl hlive, rfl⟩

theorem encode_stage {inbuf outbuf : Nat} (h : Stage c o p bs w) (hin : some inbuf ∈ bs)
    (hout : some outbuf ∈ bs) :
    Ensures (encode inbuf outbuf) w (fun _ w' => Stage c o p bs w' ∧ w'.curl = w.curl) E := by
  have hlive : ∀ r ∈ [Resource.buffer inbuf, .buffer outbuf], r ∈ p.live o bs :=
    List.forall_mem_cons.mpr ⟨mem_live hin, List.forall_mem_singleton.mpr (mem_live hout)⟩
  exact Ensures.modify ⟨h.use rfl rfl rfl rfl rfl rfl hlive, rfl⟩

/-- A buffer of the list is live, a NULL one is nothing. -/
theorem live_toList {b : Option Nat} (hb : b ∈ bs) :
    ∀ r ∈ b.toList.map Resource.buffer, r ∈ p.live o bs := by
  intro r hr
  obtain ⟨n, hn, rfl⟩ := List.mem_map.mp hr
  obtain rfl := Option.mem_toList.mp hn
  exact mem_live hb

theorem decode_stage {inbuf : Nat} {outbuf : Option Nat} (h : Stage c o p bs w)
    (hin : some inbuf ∈ bs) (hout : outbuf ∈ bs) :
    Ensures (decode inbuf outbuf) w (fun _ => Stage c o p bs) E := by
  have hlive : ∀ r ∈ Resource.buffer inbuf :: outbuf.toList.map .buffer, r ∈ p.live o bs :=
    List.forall_mem_cons.mpr ⟨mem_live hin, live_toList hout⟩
  have hacts : (Event.base64Decode inbuf outbuf).acts =
      (Resource.buffer inbuf :: outbuf.toList.map .buffer).map .use := by
    cases outbuf <;> rfl
  exact Ensures.modify (h.use rfl rfl rfl rfl rfl hacts hlive)

theorem setoptOr_stage {option : CurlOption} (hp : p.Settled) (h : Stage c o p bs w) :
    Ensures (setoptOr calls option bs) w
      (fun _ w' => Stage c o p bs w' ∧ w'.curl = w.curl.set option) (fun _ => Exit c o) := by
  have hnothing : ∀ r ∈ ([] : List Resource), r ∈ p.live o bs :=
    fun r hr => absurd hr List.not_mem_nil
  have hset : Ensures (curlEasySetopt calls option) w
      (fun rc w' => Stage c o p bs w' ∧ (rc = CURLE_OK → w'.curl = w.curl.set option))
      (fun _ => Exit c o) :=
    Ensures.modifyGet ⟨h.use rfl rfl rfl rfl rfl rfl hnothing, fun hrc => if_pos hrc⟩
  unfold setoptOr
  refine hset.bind fun rc t ht => Ensures.ite (fun _ => failWith_exit hp ht.1) fun hrc => ?_
  exact Ensures.pure ⟨ht.1, ht.2 (not_not.mp hrc)⟩

/-! ## 4. The PIPs and the request -/

theorem applyPip_stage {pip : PepPip} (h : Stage c o .asked [] w) :
    Ensures (applyPip pip) w (fun _ => Stage c o .asked []) (fun _ => Exit c o) := by
  have hlive : ∀ r ∈ [Resource.request w.request.address], r ∈ Phase.asked.live o [] := by
    refine List.forall_mem_singleton.mpr (mem_live_held ?_)
    rw [h.view.1]
    exact List.mem_singleton_self _
  have hprocess : Ensures (pipProcess pip) w (fun _ => Stage c o .asked []) (fun _ => Exit c o) :=
    Ensures.modifyGet (h.use rfl rfl rfl rfl rfl rfl hlive)
  unfold applyPip
  refine hprocess.bind fun rc t ht => Ensures.ite (fun _ => ?_) fun _ => Ensures.pure ht
  exact Ensures.throw ⟨.asked, settled_asked, ht⟩

theorem applyPips_stage {pep : Pep} (h : Stage c o .asked [] w) :
    Ensures (applyPips pep) w (fun _ => Stage c o .asked []) (fun _ => Exit c o) := by
  unfold applyPips
  refine Ensures.ite (fun _ => ?_) fun _ => Ensures.pure h
  exact Ensures.forM (fun pip _ t ht => applyPip_stage ht) h

theorem marshalRequest_stage (h : Stage c o .asked [] w) :
    Ensures (marshalRequest calls) w (fun b64output => Stage c o .asked [some b64output])
      (fun _ => Exit c o) := by
  unfold marshalRequest
  refine (createOr_stage settled_asked h).bind fun output w₁ h₁ => ?_
  have hmarshal : Ensures (requestMarshalling calls output) w₁
      (fun _ => Stage c o .asked [some output]) (fun _ => Exit c o) := by
    have hlive : ∀ r ∈ [Resource.request w₁.request.address, .buffer output],
        r ∈ Phase.asked.live o [some output] := by
      refine List.forall_mem_cons.mpr ⟨mem_live_held ?_, List.forall_mem_singleton.mpr
        (mem_live List.mem_cons_self)⟩
      rw [h₁.1.view.1]
      exact List.mem_singleton_self _
    exact Ensures.modifyGet (h₁.1.use rfl rfl rfl rfl rfl rfl hlive)
  refine hmarshal.bind fun marshalRc w₂ h₂ => ?_
  refine Ensures.ite (fun _ => (failWith_exit settled_asked h₂).leave) fun _ => ?_
  refine (bufferLength_stage h₂ List.mem_cons_self).bind fun outputL w₃ h₃ => ?_
  refine (createOr_stage settled_asked h₃.1).bind fun b64output w₄ h₄ => ?_
  refine (encode_stage h₄.1 List.mem_cons_self (List.mem_cons_of_mem _ List.mem_cons_self)).bind
    fun _ w₅ h₅ => ?_
  exact (bufferDelete_stage h₅.1).bind fun _ w₆ h₆ => Ensures.pure h₆

theorem configurePost_stage {b64output : Nat} (h : Stage c o .asked [some b64output] w) :
    Ensures (configurePost calls b64output) w
      (fun _ w' => Stage c o .asked [some b64output] w' ∧ w'.curl.readdata = some b64output)
      (fun _ => Exit c o) := by
  unfold configurePost
  refine (setoptOr_stage settled_asked h).bind fun _ w₁ h₁ => ?_
  refine (bufferLength_stage h₁.1 List.mem_cons_self).bind fun b64outputL w₂ h₂ => ?_
  refine (setoptOr_stage settled_asked h₂.1).bind fun _ w₃ h₃ => ?_
  refine (setoptOr_stage settled_asked h₃.1).bind fun _ w₄ h₄ => ?_
  refine (setoptOr_stage settled_asked h₄.1).mono fun _ w₅ h₅ => ⟨h₅.1, ?_⟩
  rw [h₅.2, h₄.2]
  rfl

theorem configureResponse_stage {b64output : Nat} (h : Stage c o .asked [some b64output] w)
    (hread : w.curl.readdata = some b64output) :
    Ensures (configureResponse calls b64output) w
      (fun b64input w' => Stage c o .asked [some b64output, some b64input] w' ∧
        w'.curl.readdata = some b64output ∧ w'.curl.writedata = some b64input)
      (fun _ => Exit c o) := by
  unfold configureResponse
  refine (createOr_stage settled_asked h).bind fun b64input w₁ h₁ => ?_
  refine (setoptOr_stage settled_asked h₁.1).bind fun _ w₂ h₂ => ?_
  refine (setoptOr_stage settled_asked h₂.1).bind fun _ w₃ h₃ => ?_
  refine Ensures.pure ⟨h₃.1, ?_, ?_⟩
  · rw [h₃.2, h₂.2, h₁.2]
    exact hread
  · rw [h₃.2, h₂.2]
    rfl

/-! ## 5. The transfer -/

/-- libcurl uses the buffers the handle holds: the two of this call. -/
theorem sendRequest_stage (h : Stage c o .asked bs w) (hread : w.curl.readdata ∈ bs)
    (hwrite : w.curl.writedata ∈ bs) :
    Ensures (sendRequest calls bs) w (fun _ => Stage c o .asked bs) (fun _ => Exit c o) := by
  have hperform : Ensures (curlEasyPerform calls) w (fun _ => Stage c o .asked bs)
      (fun _ => Exit c o) := by
    have hlive : ∀ r ∈ (w.curl.readdata.toList ++ w.curl.writedata.toList).map Resource.buffer,
        r ∈ Phase.asked.live o bs := by
      rw [List.map_append]
      exact List.forall_mem_append.mpr ⟨live_toList hread, live_toList hwrite⟩
    have hacts : ∀ rc, (Event.curlEasyPerform w.curl.readdata w.curl.writedata rc).acts =
        ((w.curl.readdata.toList ++ w.curl.writedata.toList).map Resource.buffer).map .use :=
      fun rc => (List.map_map ..).symm
    exact Ensures.modifyGet (h.use rfl rfl rfl rfl rfl (hacts _) hlive)
  have hgetinfo : ∀ t, Stage c o .asked bs t → Ensures (curlEasyGetinfo calls) t
      (fun _ => Stage c o .asked bs) (fun _ => Exit c o) := by
    intro t ht
    have hnothing : ∀ r ∈ ([] : List Resource), r ∈ Phase.asked.live o bs :=
      fun r hr => absurd hr List.not_mem_nil
    exact Ensures.modifyGet (ht.use rfl rfl rfl rfl rfl rfl hnothing)
  unfold sendRequest
  refine hperform.bind fun curlRc w₁ h₁ => ?_
  refine Ensures.ite (fun _ => (failWith_exit settled_asked h₁).leave) fun _ => ?_
  refine (hgetinfo w₁ h₁).bind fun answer w₂ h₂ => ?_
  refine Ensures.ite (fun _ => (failWith_exit settled_asked h₂).leave) fun _ => ?_
  exact Ensures.ite (fun _ => failWith_exit settled_asked h₂) fun _ => Ensures.pure h₂

/-! ## 6. The answer -/

/-- The objects that come with a new response have the next two addresses. -/
theorem resources_new (created : Nat) (r : XacmlResponse) :
    (ResponseObject.new created r).resources.Nodup ∧
      ∀ q ∈ (ResponseObject.new created r).resources,
        created ≤ q.address ∧ q.address < created + 2 := by
  unfold ResponseObject.new ResponseObject.resources
  cases r.request with
  | none =>
    refine ⟨List.nodup_singleton _, List.forall_mem_singleton.mpr ⟨Nat.le_refl _, ?_⟩⟩
    exact Nat.lt_add_of_pos_right (by decide)
  | some request =>
    refine ⟨List.nodup_cons.mpr ⟨fun h => ?_, List.nodup_singleton _⟩,
      List.forall_mem_cons.mpr ⟨⟨Nat.le_refl _, ?_⟩, List.forall_mem_singleton.mpr ⟨?_, ?_⟩⟩⟩
    · exact nomatch List.mem_singleton.mp h
    · exact Nat.lt_add_of_pos_right (by decide)
    · exact Nat.le_succ _
    · exact Nat.lt_succ_self _

/-- An unmarshalling that leaves *response alone has failed, one that writes it has succeeded. -/
theorem responseUnmarshalling_stage {input : Option Nat} (h : Stage c o .asked bs w)
    (hin : input ∈ bs) :
    Ensures (responseUnmarshalling calls input) w
      (fun rc w' => (rc ≠ .ok ∧ Stage c o (.refused rc) bs w') ∨
        (rc = .ok ∧ ∃ a, Stage c o (.answered a) bs w')) E := by
  obtain ⟨hrequest, hresponse, htrace⟩ := h.view
  refine Ensures.modifyGet ?_
  generalize calls.xacmlResponseUnmarshalling (contentOf w input) = u
  have hwritten := u.written
  obtain ⟨rc, response, hrun⟩ := u
  have hlive := live_toList (o := o) (p := .asked) hin
  have huses : input.toList.map (Act.use <| Resource.buffer ·) =
      (input.toList.map Resource.buffer).map Act.use := (List.map_map ..).symm
  have hused : Holds (lives c w.trace ++ input.toList.map (Act.use <| Resource.buffer ·))
      (Phase.asked.live o bs) := by
    rw [huses]
    exact h.holds.uses hlive
  have hold : ∀ a ∈ input.toList.map (Act.use <| Resource.buffer ·), a.on.address < w.created := by
    rw [huses]
    exact h.uses_created hlive
  have hlater : w.created ≤ w.created + 2 := Nat.le_add_right ..
  cases response with
  | none =>
    have hrc : rc ≠ .ok := fun e => nomatch hwritten.mp e
    refine .inl ⟨hrc, h.step rfl hlater ?_ ?_ ⟨hrequest, hresponse, ?_, hrc⟩⟩
    · intro a ha
      rw [show Event.acts _ = input.toList.map (Act.use <| Resource.buffer ·) from
        List.append_nil _] at ha
      exact Nat.lt_of_lt_of_le (hold a ha) hlater
    · show Holds (_ ++ (_ ++ [])) _
      rw [List.append_nil]
      exact hused
    · rw [htrace]
      rfl
  | some r =>
    obtain rfl : rc = .ok := hwritten.mpr rfl
    obtain ⟨hnodup, haddress⟩ := resources_new w.created r
    have hnew : ∀ q ∈ (ResponseObject.new w.created r).resources,
        ∀ a ∈ lives c w.trace ++ input.toList.map (Act.use <| Resource.buffer ·), a.on ≠ q := by
      intro q hq a ha e
      have hlt : q.address < w.created := by
        rw [← e]
        exact (List.mem_append.mp ha).elim (h.created a) (hold a)
      exact absurd hlt (Nat.not_lt.mpr (haddress q hq).1)
    have hacts : (Event.xacmlResponseUnmarshalling input .ok
          (some (ResponseObject.new w.created r))).acts =
        input.toList.map (Act.use <| Resource.buffer ·) ++
          (ResponseObject.new w.created r).resources.map Act.acquire := by
      show _ ++ List.map _ (_ ++ []) = _
      rw [List.append_nil]
    refine .inr ⟨rfl, .new w.created r, h.step rfl hlater ?_ ?_ ⟨hrequest, rfl, ?_⟩⟩
    · show ∀ a ∈ Event.acts (.xacmlResponseUnmarshalling input .ok
        (some (ResponseObject.new w.created r))), a.on.address < w.created + 2
      rw [hacts]
      refine List.forall_mem_append.mpr ⟨fun a ha => ?_, fun a ha => ?_⟩
      · exact Nat.lt_of_lt_of_le (hold a ha) hlater
      · obtain ⟨q, hq, rfl⟩ := List.mem_map.mp ha
        exact (haddress q hq).2
    · show Holds (_ ++ Event.acts (.xacmlResponseUnmarshalling input .ok
        (some (ResponseObject.new w.created r)))) _
      rw [hacts, ← List.append_assoc]
      rw [live_answered]
      exact hused.acquires hnodup hnew
    · rw [htrace]
      rfl

/-- The effective request takes the place of the original, which is deleted. -/
theorem replaceRequest_stage {a : ResponseObject} (h : Stage c o (.answered a) bs w) :
    Ensures replaceRequest w (fun _ => Stage c o (.handedOver a) bs) E := by
  obtain ⟨hrequest, hresponse, htrace⟩ := h.view
  have hanswered : (Phase.answered a).live o bs = bs.reduceOption.map .buffer ++
      .request o.address :: .response a.address ::
        a.request.toList.map (fun e => .request e.address) := rfl
  have hhanded : (Phase.handedOver a).live o bs = bs.reduceOption.map .buffer ++
      [.response a.address, .request (a.request.getD o).address] := rfl
  refine Ensures.modify ?_
  rw [hresponse, Option.bind_some]
  cases he : a.request with
  | none =>
    refine ⟨h.holds.perm ?_, h.created, ?_, ⟨a.results, ?_⟩, htrace, ?_⟩
    · rw [hanswered, hhanded, he]
      exact List.Perm.append_left _ (List.Perm.swap ..)
    · rw [he]
      exact hrequest
    · show w.response = _
      rw [hresponse, ← he]
    · intro e h
      rw [he] at h
      cases h
  | some e =>
    refine h.step rfl (Nat.le_refl _) ?_ ?_ ⟨?_, ⟨a.results, rfl⟩, ?_, ?_⟩
    · show ∀ b ∈ [Act.release (Resource.request w.request.address)], b.on.address < w.created
      rw [hrequest]
      exact List.forall_mem_singleton.mpr (h.lt_created (mem_live_held List.mem_cons_self))
    · show Holds (_ ++ [Act.release (Resource.request w.request.address)]) _
      rw [hrequest, hhanded, he]
      refine Holds.release (h.holds.perm ?_)
      rw [hanswered, he]
      exact List.perm_middle
    · rw [he]
      rfl
    · rw [htrace]
      rfl
    · intro e' he' haddress
      obtain rfl := Option.some.inj (he.symm.trans he')
      have hnodup := (List.nodup_append.mp h.holds.nodup).2.1
      rw [show (Phase.answered a).held o = .request o.address :: .response a.address ::
        a.request.toList.map (fun e => .request e.address) from rfl, he] at hnodup
      refine (List.nodup_cons.mp hnodup).1 ?_
      rw [← haddress]
      exact List.mem_cons_of_mem _ (List.mem_singleton_self _)

/-- An obligation handler is given live objects. -/
theorem applyObligationhandler_stage {a : ResponseObject} {oh : PepObligationhandler}
    (h : Stage c o (.handedOver a) bs w) :
    Ensures (applyObligationhandler bs oh) w (fun _ => Stage c o (.handedOver a) bs)
      (fun _ => Exit c o) := by
  obtain ⟨hrequest, ⟨results, hresponse⟩, htrace, hfresh⟩ := h.view
  have hlive : ∀ r ∈ [Resource.request (a.request.getD o).address, .response a.address],
      r ∈ (Phase.handedOver a).live o bs := by
    refine List.forall_mem_cons.mpr ⟨mem_live_held ?_, List.forall_mem_singleton.mpr
      (mem_live_held List.mem_cons_self)⟩
    exact List.mem_cons_of_mem _ List.mem_cons_self
  have hprocess : Ensures (ohProcess oh) w (fun _ => Stage c o (.handedOver a) bs)
      (fun _ => Exit c o) := by
    refine Ensures.modifyGet ?_
    rw [hresponse]
    refine h.step rfl (Nat.le_refl _) ?_ ?_ ⟨hrequest, ⟨_, rfl⟩, ?_, hfresh⟩
    · show ∀ b ∈ [Act.use (Resource.request w.request.address), .use (.response a.address)],
        b.on.address < w.created
      rw [hrequest]
      exact h.uses_created hlive
    · show Holds (_ ++ [Act.use (Resource.request w.request.address),
        .use (.response a.address)]) _
      rw [hrequest]
      exact h.holds.uses hlive
    · rw [htrace]
      rfl
  unfold applyObligationhandler
  refine hprocess.bind fun rc t ht => Ensures.ite (fun _ => ?_) fun _ => Ensures.pure ht
  exact failWith_exit (settled_handedOver a) ht

theorem applyObligationhandlers_stage {a : ResponseObject} {pep : Pep}
    (h : Stage c o (.handedOver a) bs w) :
    Ensures (applyObligationhandlers pep bs) w (fun _ => Stage c o (.handedOver a) bs)
      (fun _ => Exit c o) := by
  unfold applyObligationhandlers
  refine Ensures.ite (fun _ => ?_) fun _ => Ensures.pure h
  exact Ensures.forM (fun oh _ t ht => applyObligationhandler_stage ht) h

/-! ## 7. The whole call -/

theorem start_stage (ho : c.request = some o) : Stage c o .asked [] (World.start c o) := by
  have hlives : lives c [] = [.acquire (.request o.address)] := by
    unfold lives
    rw [ho]
    rfl
  refine ⟨?_, ?_, rfl, rfl, rfl⟩
  · show Holds (lives c []) _
    rw [hlives]
    exact Holds.start.acquire fun a ha => absurd ha List.not_mem_nil
  · show ∀ a ∈ lives c [], _
    rw [hlives]
    exact List.forall_mem_singleton.mpr (c.request_created o ho)

/-- **Whatever the outcomes, the call returns with nothing pending and no buffer left.** -/
theorem authorize_exit (calls : Calls) (pep : Pep) (ho : c.request = some o) :
    Ensures (authorize calls pep) (World.start c o) (fun _ => Exit c o) (fun _ => Exit c o) := by
  unfold authorize
  refine (applyPips_stage (start_stage ho)).bind fun _ w₁ h₁ => ?_
  refine (marshalRequest_stage h₁).bind fun b64output w₂ h₂ => ?_
  refine (configurePost_stage h₂).bind fun _ w₃ h₃ => ?_
  refine (configureResponse_stage h₃.1 h₃.2).bind fun b64input w₄ h₄ => ?_
  obtain ⟨h₄, hread, hwrite⟩ := h₄
  refine (bufferCreate_stage h₄).bind fun input w₅ h₅ => ?_
  obtain ⟨h₅, hcurl⟩ := h₅
  have hmem₁ : some b64output ∈ [some b64output, some b64input, input] := List.mem_cons_self
  have hmem₂ : some b64input ∈ [some b64output, some b64input, input] :=
    List.mem_cons_of_mem _ List.mem_cons_self
  have hmem₃ : input ∈ [some b64output, some b64input, input] :=
    List.mem_cons_of_mem _ (List.mem_cons_of_mem _ List.mem_cons_self)
  have hread' : w₅.curl.readdata ∈ [some b64output, some b64input, input] := by
    rw [hcurl, hread]
    exact hmem₁
  have hwrite' : w₅.curl.writedata ∈ [some b64output, some b64input, input] := by
    rw [hcurl, hwrite]
    exact hmem₂
  refine (sendRequest_stage h₅ hread' hwrite').bind fun _ w₆ h₆ => ?_
  refine (decode_stage h₆ hmem₂ hmem₃).bind fun _ w₇ h₇ => ?_
  refine (responseUnmarshalling_stage h₇ hmem₃).bind fun unmarshalRc w₈ h₈ => ?_
  rcases h₈ with ⟨hrc, h₈⟩ | ⟨hrc, a, h₈⟩
  · exact Ensures.ite (fun _ => (failWith_exit (settled_refused _) h₈).leave) fun hok => absurd hrc hok
  · refine Ensures.ite (fun hfail => absurd hrc hfail) fun _ => ?_
    refine (bufferDelete_stage h₈).bind fun _ w₉ h₉ => ?_
    refine (replaceRequest_stage h₉).bind fun _ w₁₀ h₁₀ => ?_
    refine (applyObligationhandlers_stage h₁₀).bind fun _ w₁₁ h₁₁ => ?_
    refine (bufferDelete_stage h₁₁).bind fun _ w₁₂ h₁₂ => ?_
    exact (bufferDelete_stage h₁₂).mono fun _ w₁₃ h₁₃ => ⟨.handedOver a, settled_handedOver a, h₁₃⟩

/-! ## 8. The discipline follows -/

theorem acts_mem_lives {trace : List Event} {a : Act Resource} (he : event ∈ trace)
    (ha : a ∈ event.acts) : a ∈ lives c trace :=
  List.mem_append_right _ (List.mem_flatMap.mpr ⟨event, he, ha⟩)

theorem request_mem_lives (trace : List Event) (ho : c.request = some o) :
    Act.acquire (Resource.request o.address) ∈ lives c trace := by
  unfold lives
  rw [ho]
  exact List.mem_cons_self

theorem buffer_not_held (b : Nat) : Resource.buffer b ∉ p.held o := by
  cases p <;> simp [Phase.held, ResponseObject.resources]

/-- No buffer is live, so every buffer created has had its whole life. -/
theorem Stage.buffers_closed (h : Stage c o p [] w) (b : Nat)
    (hb : Event.bufferCreate (some b) ∈ w.trace) : Closed (.buffer b) (lives c w.trace) := by
  have hacquired : Act.acquire (Resource.buffer b) ∈ lives c w.trace :=
    acts_mem_lives hb (List.mem_singleton_self _)
  exact h.holds.closed hacquired (buffer_not_held b)

/-- Where nothing was unmarshalled with success, the caller has back what it brought. -/
theorem disciplined_unanswered {rc : PepError} (ho : c.request = some o)
    (hbuffers : ∀ b, Event.bufferCreate (some b) ∈ w.trace → Closed (.buffer b) (lives c w.trace))
    (hholds : Holds (lives c w.trace) [.request o.address])
    (hrequest : w.request.address = o.address) (hresponse : w.response = c.response)
    (hfailed : ∀ u ∈ unmarshallings w.trace, u.1 ≠ .ok ∧ u.2 = none) :
    Disciplined c ⟨rc, some w.request, w.response, w.trace⟩ where
  buffers := hbuffers
  replaced := by
    intro _ e _ h
    obtain ⟨response, hm, _⟩ := h
    exact absurd rfl (hfailed _ hm).1
  kept := by
    intro o' ho' _
    obtain rfl := Option.some.inj (ho.symm.trans ho')
    refine ⟨(hholds.held _ List.mem_cons_self).count_release, ?_⟩
    show some w.request.address = _
    rw [hrequest]
  written := by
    constructor
    · intro h
      obtain ⟨written, hm⟩ := h
      exact absurd rfl (hfailed _ hm).1
    · intro h
      obtain ⟨response, rc, hm⟩ := h
      exact nomatch (hfailed _ hm).2
  response := by
    intro response h
    obtain ⟨rc, hm⟩ := h
    exact nomatch (hfailed _ hm).2
  unwritten _ := hresponse

/-- Where a response was handed over, the caller has it, and its request if it carried one. -/
theorem disciplined_handedOver {rc : PepError} {a : ResponseObject} (ho : c.request = some o)
    (h : Stage c o (.handedOver a) [] w) :
    Disciplined c ⟨rc, some w.request, w.response, w.trace⟩ := by
  obtain ⟨hrequest, ⟨results, hresponse⟩, htrace, hfresh⟩ := h.view
  have hholds : Holds (lives c w.trace)
      [.response a.address, .request (a.request.getD o).address] := h.holds
  have hanswer : ∀ {rc response}, (rc, some response) ∈ unmarshallings w.trace →
      response = a := by
    intro rc response hm
    rw [htrace] at hm
    exact Option.some.inj (Prod.mk.inj (List.mem_singleton.mp hm)).2
  have hok : (PepError.ok, some a) ∈ unmarshallings w.trace := by
    rw [htrace]
    exact List.mem_singleton_self _
  refine ⟨h.buffers_closed, ?_, ?_, ?_, ?_, ?_⟩
  · intro o' e ho' h
    obtain ⟨response, hm, he⟩ := h
    obtain rfl := Option.some.inj (ho.symm.trans ho')
    rw [hanswer hm] at he
    have hne := hfresh e he
    rw [he] at hrequest hholds
    have hnotlive : Resource.request o.address ∉
        [Resource.response a.address, .request e.address] := by
      simp [Ne.symm hne]
    have hdeletes : lives c (w.trace ++ callerDeletes ⟨rc, some w.request, w.response, w.trace⟩) =
        lives c w.trace ++ [.release (.request e.address)] := by
      rw [hresponse]
      show lives c (w.trace ++ [.xacmlRequestDelete w.request.address]) = _
      rw [lives_append, hrequest]
      rfl
    have hdeleted : Holds (lives c w.trace ++ [.release (Resource.request e.address)])
        [.response a.address] := (hholds.perm (List.Perm.swap ..)).release
    refine ⟨(hholds.closed (request_mem_lives _ ho) hnotlive).count_release, congrArg some hrequest,
      ⟨_, hresponse, rfl⟩, ?_, ?_⟩
    · rw [hdeletes]
      have hm := List.mem_append_left [.release (.request e.address)]
        (request_mem_lives w.trace ho)
      exact hdeleted.closed hm (by simp [Act.on])
    · rw [hdeletes]
      have hm : Act.release (Resource.request e.address) ∈
          lives c w.trace ++ [.release (.request e.address)] :=
        List.mem_append_right _ (List.mem_singleton_self _)
      exact hdeleted.closed hm (by simp [Act.on])
  · intro o' ho' hkept
    obtain rfl := Option.some.inj (ho.symm.trans ho')
    have he : a.request = none := by
      cases he : a.request with
      | none => rfl
      | some e => exact absurd ⟨a, hok, he⟩ (hkept e)
    rw [he] at hrequest hholds
    refine ⟨(hholds.held _ (List.mem_cons_of_mem _ List.mem_cons_self)).count_release, ?_⟩
    exact congrArg some hrequest
  · exact iff_of_true ⟨_, hok⟩ ⟨a, _, hok⟩
  · intro response h
    obtain ⟨rc, hm⟩ := h
    rw [hanswer hm, hresponse]
    rfl
  · intro hfailed
    exact absurd ⟨_, hok⟩ hfailed

theorem disciplined_exit {rc : PepError} (ho : c.request = some o) (h : Exit c o w) :
    Disciplined c ⟨rc, some w.request, w.response, w.trace⟩ := by
  obtain ⟨p, hp, h⟩ := h
  cases p with
  | asked =>
    obtain ⟨hrequest, hresponse, htrace⟩ := h.view
    refine disciplined_unanswered ho h.buffers_closed h.holds hrequest hresponse fun u hu => ?_
    rw [htrace] at hu
    exact absurd hu List.not_mem_nil
  | refused rc =>
    obtain ⟨hrequest, hresponse, htrace, hrc⟩ := h.view
    refine disciplined_unanswered ho h.buffers_closed h.holds hrequest hresponse fun u hu => ?_
    rw [htrace] at hu
    rw [List.mem_singleton.mp hu]
    exact ⟨hrc, rfl⟩
  | answered a => exact hp.elim
  | handedOver a => exact disciplined_handedOver ho h

/-- A call that returns before it does anything. -/
theorem disciplined_untouched (c : Caller) (rc : PepError) :
    Disciplined c ⟨rc, c.request, c.response, []⟩ := by
  cases ho : c.request with
  | some o => exact disciplined_exit ho ⟨.asked, settled_asked, start_stage ho⟩
  | none =>
    refine ⟨fun b hb => absurd hb List.not_mem_nil, fun o e h => ?_, fun o h => ?_, ?_, ?_, ?_⟩
    · rw [ho] at h
      cases h
    · rw [ho] at h
      cases h
    · exact iff_of_false (fun ⟨_, hm⟩ => absurd hm List.not_mem_nil)
        (fun ⟨_, _, hm⟩ => absurd hm List.not_mem_nil)
    · intro response h
      obtain ⟨rc, hm⟩ := h
      exact absurd hm List.not_mem_nil
    · exact fun _ => rfl

end Steps

/-- **Whatever the handle, the PIPs, the handlers, the request and the outcomes of every call,
    `pep_authorize` keeps the ownership discipline.** -/
theorem ownership_discipline (calls : Calls) (pep : Option Pep) (c : Caller) :
    Disciplined c (pepAuthorize calls pep c) := by
  unfold pepAuthorize
  cases pep with
  | none => exact disciplined_untouched c _
  | some pep =>
    have huntouched := disciplined_untouched c .nullPointer
    cases ho : c.request with
    | none =>
      rw [ho] at huntouched
      exact huntouched
    | some o =>
      rw [ho] at huntouched
      show Disciplined c (if pep.optionEndpointUrl = none then _ else _)
      by_cases hurl : pep.optionEndpointUrl = none
      · rw [if_pos hurl]
        exact huntouched
      · rw [if_neg hurl]
        have hexit := authorize_exit calls pep ho
        unfold Ensures at hexit
        rcases hrun : (Authorize.authorize calls pep).run (World.start c o) with ⟨rc | _, w⟩
        · rw [hrun] at hexit
          exact disciplined_exit ho hexit
        · rw [hrun] at hexit
          exact disciplined_exit ho hexit

/-! ## 9. A run -/

/-- The bytes of a response that carries a request and nothing else. -/
def echoInput : Bytes :=
  match hessianSerialize (.map (some XACML_HESSIAN_RESPONSE_CLASSNAME)
    [(.string XACML_HESSIAN_RESPONSE_REQUEST, .map (some XACML_HESSIAN_REQUEST_CLASSNAME) [])]) []
  with
  | .done _ output => output
  | _ => []

def echoCalls : Calls where
  bufferCreate _ _ := true
  xacmlRequestMarshalling _ := (.ok, [0x4E])
  curlEasySetopt _ := CURLE_OK
  curlEasyPerform _ := (CURLE_OK, ((base64Encode echoInput []).getD ([], [])).2)
  curlEasyGetinfo := (CURLE_OK, 200)
  xacmlResponseUnmarshalling := Unmarshalling.ofInput Mem.unlimited

def echoCaller : Caller where
  created := 1
  curl := ⟨0, 0, none, false, none, false⟩
  request := some ⟨0, xacmlRequestCreate⟩
  response := none
  request_created _ h := by
    obtain rfl := Option.some.inj h
    decide

def echoPep : Pep := ⟨some (CString.lit "u"), false, [], false, []⟩

/-- The effective request is the sixth object created after the original. -/
example : (pepAuthorize echoCalls (some echoPep) echoCaller).request.map RequestObject.address =
    some 6 := by
  decide +kernel

end ArgusPep
