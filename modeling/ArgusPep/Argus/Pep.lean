/-
  File:      ArgusPep/Argus/Pep.lean
  Subject:   `pep_authorize` of argus/pep.c: the request is marshalled and sent, the answer is
             unmarshalled, and what each of the fifteen exits releases.

  A call is a program over `World` that can leave early with its error code (`Authorize`). Buffers,
  requests and responses are identities, drawn from one counter (`created`); `trace` lists the
  calls made on them in order, and `Event.acts` says what each does to its objects. What
  `pep_authorize` does not decide is a parameter (`Calls`): whether `buffer_create` returns a
  buffer, what libcurl answers, and what marshalling and unmarshalling come to. A buffer that base64
  writes to grows as far as it has to: a refusal, which base64.c does not look at, is left out. PIPs
  and obligation handlers can change the contents of the request and of the results; they do not
  replace the request or the response.

  * `Unmarshalling` -- what a run of the unmarshaller comes to, with the response it wrote;
  * `failWith` -- the release list of an exit;
  * `sendRequest`, `replaceRequest` -- the transfer, and the effective request taking the place of
    the original;
  * `pepAuthorize` -- the whole function.

  A NULL `request` and a NULL `*request` are both `none`. The log calls are left out.
-/
import ArgusPep.Argus.Unmarshal
import ArgusPep.Argus.Marshal
import ArgusPep.Util.Base64
import ArgusPep.Lib.Exits
import ArgusPep.Lib.Lifetime
import Mathlib.Logic.Function.Basic

namespace ArgusPep

open Lib Lib.Lifetime

/-! ## 1. Objects and the calls made on them -/

/-- An object the call owns or is handed. -/
inductive Resource where
  | buffer (address : Nat)
  | request (address : Nat)
  | response (address : Nat)
deriving DecidableEq, Repr

def Resource.address : Resource → Nat
  | .buffer n | .request n | .response n => n

/-- A request in memory. -/
structure RequestObject where
  address : Nat
  val : XacmlRequest

/-- A response in memory, with the request it holds. -/
structure ResponseObject where
  address : Nat
  request : Option RequestObject
  results : List XacmlResult

/-- `CURLcode`. -/
abbrev CurlCode := Nat
abbrev CURLE_OK : CurlCode := 0

/-- The options `pep_authorize` sets on the curl handle. -/
inductive CurlOption where
  | post (on : Nat)
  | postfieldsize (size : Nat)
  | readdata (buffer : Nat)
  | readfunctionBufferRead
  | writedata (buffer : Nat)
  | writefunctionBufferWrite
deriving DecidableEq, Repr

/-- What the curl handle holds for them. A new handle, or one of an earlier call, can hold
    anything. -/
structure Curl where
  post : Nat
  postfieldsize : Nat
  readdata : Option Nat
  readfunctionBufferRead : Bool
  writedata : Option Nat
  writefunctionBufferWrite : Bool

def Curl.set (curl : Curl) : CurlOption → Curl
  | .post on => { curl with post := on }
  | .postfieldsize size => { curl with postfieldsize := size }
  | .readdata buffer => { curl with readdata := some buffer }
  | .readfunctionBufferRead => { curl with readfunctionBufferRead := true }
  | .writedata buffer => { curl with writedata := some buffer }
  | .writefunctionBufferWrite => { curl with writefunctionBufferWrite := true }

/-- A call that `pep_authorize` makes, with its arguments and what it returned. -/
inductive Event where
  | pipProcess (pip : CString) (request : Nat) (rc : Int)
  | bufferCreate (buffer : Option Nat)
  | xacmlRequestMarshalling (request output : Nat) (rc : PepError)
  | bufferLength (buffer : Nat)
  | base64EncodeL (inbuf outbuf : Nat)
  | bufferDelete (buffer : Option Nat)
  | curlEasySetopt (option : CurlOption) (rc : CurlCode)
  | curlEasyPerform (readdata writedata : Option Nat) (rc : CurlCode)
  | curlEasyGetinfo (rc : CurlCode) (httpCode : Int)
  | base64Decode (inbuf : Nat) (outbuf : Option Nat)
  | xacmlResponseUnmarshalling (input : Option Nat) (rc : PepError)
      (written : Option ResponseObject)
  | xacmlRequestDelete (request : Nat)
  | ohProcess (oh : CString) (request : Nat) (response : Option Nat) (rc : Int)

/-- The objects that come with a response. -/
def ResponseObject.resources (response : ResponseObject) : List Resource :=
  .response response.address :: response.request.toList.map (.request ·.address)

/-- The response `r`, written to new memory. -/
def ResponseObject.new (created : Nat) (r : XacmlResponse) : ResponseObject :=
  ⟨created, r.request.map fun request => ⟨created + 1, request⟩, r.results⟩

/-- What a call does to its objects. A function given a NULL buffer does nothing to it. -/
def Event.acts : Event → List (Act Resource)
  | .pipProcess _ request _ => [.use (.request request)]
  | .bufferCreate buffer => buffer.toList.map (.acquire <| .buffer ·)
  | .xacmlRequestMarshalling request output _ => [.use (.request request), .use (.buffer output)]
  | .bufferLength buffer => [.use (.buffer buffer)]
  | .base64EncodeL inbuf outbuf => [.use (.buffer inbuf), .use (.buffer outbuf)]
  | .bufferDelete buffer => buffer.toList.map (.release <| .buffer ·)
  | .curlEasySetopt _ _ => []
  | .curlEasyPerform readdata writedata _ =>
    (readdata.toList ++ writedata.toList).map (.use <| .buffer ·)
  | .curlEasyGetinfo _ _ => []
  | .base64Decode inbuf outbuf => (inbuf :: outbuf.toList).map (.use <| .buffer ·)
  | .xacmlResponseUnmarshalling input _ written =>
    input.toList.map (.use <| .buffer ·) ++
      (written.toList.flatMap ResponseObject.resources).map .acquire
  | .xacmlRequestDelete request => [.release (.request request)]
  | .ohProcess _ request response _ =>
    .use (.request request) :: response.toList.map (.use <| .response ·)

def actsOf (trace : List Event) : List (Act Resource) := trace.flatMap Event.acts

/-! ## 2. What a call is given -/

/-- `pep_pip_t`: `process(request)`, with the contents of the request afterwards. -/
structure PepPip where
  id : CString
  process : XacmlRequest → Int × XacmlRequest

/-- `pep_obligationhandler_t`: `process(request,response)`, with the contents of both
    afterwards. -/
structure PepObligationhandler where
  id : CString
  process : XacmlRequest → Option (List XacmlResult) → Int × XacmlRequest × List XacmlResult

/-- The fields of the handle that `pep_authorize` reads. NULL is never added to a list. -/
structure Pep where
  optionEndpointUrl : Option CString
  optionPipsEnabled : Bool
  pips : List PepPip
  optionOhsEnabled : Bool
  ohs : List PepObligationhandler

/-- The buffers by their names in `pep_authorize`. -/
inductive BufferName where
  | output | b64output | b64input | input
deriving DecidableEq, Repr

/-- What a run of `xacml_response_unmarshalling` returns, and the response it writes. -/
structure Unmarshalling where
  rc : PepError
  response : Option XacmlResponse
  run : ∃ input mem, xacmlResponseUnmarshalling input mem = some (rc, response)

/-- `*response` is written with PEP_OK, and only with PEP_OK. -/
theorem Unmarshalling.written (u : Unmarshalling) : u.rc = .ok ↔ u.response.isSome := by
  obtain ⟨rc, response, input, mem, hrun⟩ := u
  unfold xacmlResponseUnmarshalling at hrun
  split at hrun
  · split at hrun
    · obtain ⟨rfl, rfl⟩ := Prod.mk.inj (Option.some.inj hrun)
      exact iff_of_true rfl rfl
    · obtain ⟨rfl, rfl⟩ := Prod.mk.inj (Option.some.inj hrun)
      exact iff_of_false (fun e => nomatch e) (fun e => nomatch e)
  · obtain ⟨rfl, rfl⟩ := Prod.mk.inj (Option.some.inj hrun)
    exact iff_of_false (fun e => nomatch e) (fun e => nomatch e)
  · cases hrun
  · cases hrun

/-- The run on `input`. One that does something undefined is taken to fail. -/
def Unmarshalling.ofInput (mem : Mem) (input : Bytes) : Unmarshalling :=
  match h : xacmlResponseUnmarshalling input mem with
  | some (rc, response) => ⟨rc, response, input, mem, h⟩
  | none => ⟨.unmarshallingIo, none, [], Mem.unlimited, rfl⟩

/-- What the functions called by `pep_authorize` come to in a call. -/
structure Calls where
  /-- Does `buffer_create(size)` return a buffer? -/
  bufferCreate : BufferName → (size : Nat) → Bool
  /-- `xacml_request_marshalling`: the error code and the bytes written. -/
  xacmlRequestMarshalling : XacmlRequest → PepError × Bytes
  curlEasySetopt : CurlOption → CurlCode
  /-- `curl_easy_perform`: from the bytes posted, the code and the bytes received. -/
  curlEasyPerform : Bytes → CurlCode × Bytes
  /-- `curl_easy_getinfo`: the code and the HTTP status. -/
  curlEasyGetinfo : CurlCode × Int
  xacmlResponseUnmarshalling : Bytes → Unmarshalling

/-- What the caller of `pep_authorize` brings. -/
structure Caller where
  /-- The objects created so far: a new one gets this address. -/
  created : Nat
  curl : Curl
  /-- `*request`. -/
  request : Option RequestObject
  /-- `*response`. -/
  response : Option ResponseObject
  request_created : ∀ r, request = some r → r.address < created

/-! ## 3. The steps -/

/-- The state of a call: `request` is `*request`, which is not NULL, and `response` is
    `*response`. -/
structure World where
  created : Nat
  /-- The unread bytes of each buffer. -/
  content : Nat → Bytes
  curl : Curl
  request : RequestObject
  response : Option ResponseObject
  trace : List Event

abbrev Authorize := Exits PepError World

def World.log (w : World) (event : Event) : World := { w with trace := w.trace ++ [event] }

def World.fill (w : World) (buffer : Nat) (bytes : Bytes) : World :=
  { w with content := Function.update w.content buffer bytes }

def contentOf (w : World) : Option Nat → Bytes
  | none => []
  | some buffer => w.content buffer

/-- Appends to a buffer; a NULL buffer takes nothing. -/
def World.append (w : World) (buffer : Option Nat) (bytes : Bytes) : World :=
  { w with
    content := match buffer with
      | none => w.content
      | some buffer => Function.update w.content buffer (w.content buffer ++ bytes) }

namespace Authorize

def bufferDelete (buffer : Option Nat) : Authorize Unit := modify (·.log (.bufferDelete buffer))

def bufferLength (buffer : Nat) : Authorize Nat :=
  modifyGet fun w => ((w.content buffer).length, w.log (.bufferLength buffer))

/-- `base64_encode_l(inbuf,outbuf,BASE64_DEFAULT_LINE_SIZE)`, with all growth of `outbuf` granted. -/
def encode (inbuf outbuf : Nat) : Authorize Unit := modify fun w =>
  let (left, out) := (base64EncodeL (w.content inbuf) (w.content outbuf)
    BASE64_DEFAULT_LINE_SIZE).getD (w.content inbuf, w.content outbuf)
  ((w.fill inbuf left).fill outbuf out).log (.base64EncodeL inbuf outbuf)

/-- `base64_decode(inbuf,outbuf)`, with all growth of `outbuf` granted; writes to a NULL `outbuf` are
    refused. -/
def decode (inbuf : Nat) (outbuf : Option Nat) : Authorize Unit := modify fun w =>
  let (left, out) := (base64Decode (w.content inbuf) []).getD (w.content inbuf, [])
  ((w.fill inbuf left).append outbuf out).log (.base64Decode inbuf outbuf)

/-- Deletes the buffers of the list in its order and returns `rc`. -/
def failWith {α : Type} (buffers : List (Option Nat)) (rc : PepError) : Authorize α := do
  buffers.forM bufferDelete
  throw rc

section Function

variable (calls : Calls)

def bufferCreate (name : BufferName) (size : Nat) : Authorize (Option Nat) := modifyGet fun w =>
  if calls.bufferCreate name size then
    (some w.created, { w.fill w.created [] with created := w.created + 1 }.log
      (.bufferCreate (some w.created)))
  else (none, w.log (.bufferCreate none))

/-- `buffer_create`, with the exit for a NULL buffer. -/
def createOr (name : BufferName) (size : Nat) (buffers : List (Option Nat)) : Authorize Nat := do
  match ← bufferCreate calls name size with
  | some buffer => pure buffer
  | none => failWith buffers .memory

/-- `curl_easy_setopt`. A call that fails leaves the handle as it is. -/
def curlEasySetopt (option : CurlOption) : Authorize CurlCode := modifyGet fun w =>
  let rc := calls.curlEasySetopt option
  (rc, { w with curl := if rc = CURLE_OK then w.curl.set option else w.curl }.log
    (.curlEasySetopt option rc))

/-- `curl_easy_setopt`, with the exit for a failure. -/
def setoptOr (option : CurlOption) (buffers : List (Option Nat)) : Authorize Unit := do
  let curlRc ← curlEasySetopt calls option
  if curlRc ≠ CURLE_OK then failWith buffers .curl

/-- `pip->process(request)`. -/
def pipProcess (pip : PepPip) : Authorize Int := modifyGet fun w =>
  let (rc, val) := pip.process w.request.val
  (rc, { w with request := { w.request with val } }.log (.pipProcess pip.id w.request.address rc))

def applyPip (pip : PepPip) : Authorize Unit := do
  let pipRc ← pipProcess pip
  if pipRc ≠ 0 then throw .pipProcess

def applyPips (pep : Pep) : Authorize Unit :=
  if pep.optionPipsEnabled then pep.pips.forM applyPip else pure ()

def requestMarshalling (output : Nat) : Authorize PepError := modifyGet fun w =>
  let (rc, bytes) := calls.xacmlRequestMarshalling w.request.val
  (rc, (w.append (some output) bytes).log
    (.xacmlRequestMarshalling w.request.address output rc))

/-- The authorization request, marshalled and encoded into the buffer returned. -/
def marshalRequest : Authorize Nat := do
  let output ← createOr calls .output 512 []
  let marshalRc ← requestMarshalling calls output
  if marshalRc ≠ .ok then failWith [some output] marshalRc
  let outputL ← bufferLength output
  let b64output ← createOr calls .b64output outputL [some output]
  encode output b64output
  bufferDelete (some output)
  pure b64output

/-- Configures the curl handle to POST the encoded request. -/
def configurePost (b64output : Nat) : Authorize Unit := do
  setoptOr calls (.post 1) [some b64output]
  let b64outputL ← bufferLength b64output
  setoptOr calls (.postfieldsize b64outputL) [some b64output]
  setoptOr calls (.readdata b64output) [some b64output]
  setoptOr calls .readfunctionBufferRead [some b64output]

/-- Configures the curl handle to write the response to the buffer returned. -/
def configureResponse (b64output : Nat) : Authorize Nat := do
  let b64input ← createOr calls .b64input 1024 [some b64output]
  setoptOr calls (.writedata b64input) [some b64output, some b64input]
  setoptOr calls .writefunctionBufferWrite [some b64output, some b64input]
  pure b64input

/-- The input buffer. The code tests `output` instead of `input`, so a NULL buffer is kept. -/
def createInput : Authorize (Option Nat) := bufferCreate calls .input 1024

/-- `curl_easy_perform` reads what it posts from the one buffer and writes what it receives to the
    other. -/
def curlEasyPerform : Authorize CurlCode := modifyGet fun w =>
  let posted := (contentOf w w.curl.readdata).take w.curl.postfieldsize
  let (rc, received) := calls.curlEasyPerform posted
  (rc, (w.append w.curl.writedata received).log
    (.curlEasyPerform w.curl.readdata w.curl.writedata rc))

def curlEasyGetinfo : Authorize (CurlCode × Int) := modifyGet fun w =>
  let (rc, httpCode) := calls.curlEasyGetinfo
  ((rc, httpCode), w.log (.curlEasyGetinfo rc httpCode))

/-- Sends the request and checks for the HTTP status 200. -/
def sendRequest (buffers : List (Option Nat)) : Authorize Unit := do
  let curlRc ← curlEasyPerform calls
  if curlRc ≠ CURLE_OK then failWith buffers .curlPerform
  let (curlRc, httpCode) ← curlEasyGetinfo calls
  if curlRc ≠ CURLE_OK then failWith buffers .curl
  if httpCode ≠ 200 then failWith buffers .authzRequest

/-- `xacml_response_unmarshalling(response,input)`. A NULL `input` reads as an empty one. -/
def responseUnmarshalling (input : Option Nat) : Authorize PepError := modifyGet fun w =>
  let u := calls.xacmlResponseUnmarshalling (contentOf w input)
  let written := u.response.map (ResponseObject.new w.created)
  (u.rc, { w with created := w.created + 2, response := written.or w.response }.log
    (.xacmlResponseUnmarshalling input u.rc written))

/-- `xacml_response_relinquishrequest`. -/
def relinquishRequest (response : ResponseObject) : ResponseObject :=
  { response with request := none }

/-- Replaces the original request, if there is an effective one. -/
def replaceRequest : Authorize Unit := modify fun w =>
  match w.response.bind ResponseObject.request with
  | none => w
  | some effectiveRequest =>
    { w with request := effectiveRequest, response := w.response.map relinquishRequest }.log
      (.xacmlRequestDelete w.request.address)

/-- The response with its results changed in place. -/
def setResults (results : List XacmlResult) (response : ResponseObject) : ResponseObject :=
  { response with results }

/-- `oh->process(request,response)`. -/
def ohProcess (oh : PepObligationhandler) : Authorize Int := modifyGet fun w =>
  let (rc, val, results) := oh.process w.request.val (w.response.map ResponseObject.results)
  (rc, { w with request := { w.request with val },
                response := w.response.map (setResults results) }.log
    (.ohProcess oh.id w.request.address (w.response.map ResponseObject.address) rc))

def applyObligationhandler (buffers : List (Option Nat)) (oh : PepObligationhandler) :
    Authorize Unit := do
  let ohRc ← ohProcess oh
  if ohRc ≠ 0 then failWith buffers .ohProcess

def applyObligationhandlers (pep : Pep) (buffers : List (Option Nat)) : Authorize Unit :=
  if pep.optionOhsEnabled then pep.ohs.forM (applyObligationhandler buffers) else pure ()

/-! ## 4. The function -/

/-- `pep_authorize` behind its NULL checks. -/
def authorize (pep : Pep) : Authorize Unit := do
  applyPips pep
  let b64output ← marshalRequest calls
  configurePost calls b64output
  let b64input ← configureResponse calls b64output
  let input ← createInput calls
  sendRequest calls [some b64output, some b64input, input]
  decode b64input input
  let unmarshalRc ← responseUnmarshalling calls input
  if unmarshalRc ≠ .ok then failWith [some b64output, some b64input, input] unmarshalRc
  bufferDelete (some b64output)
  replaceRequest
  applyObligationhandlers pep [some b64input, input]
  bufferDelete (some b64input)
  bufferDelete input

end Function

end Authorize

def World.start (c : Caller) (request : RequestObject) : World where
  created := c.created
  content _ := []
  curl := c.curl
  request := request
  response := c.response
  trace := []

/-- What the caller has after the call. -/
structure Returned where
  rc : PepError
  request : Option RequestObject
  response : Option ResponseObject
  trace : List Event

def Returned.ofRun : Except PepError Unit × World → Returned
  | (.ok _, w) => ⟨.ok, some w.request, w.response, w.trace⟩
  | (.error rc, w) => ⟨rc, some w.request, w.response, w.trace⟩

/-- `pep_authorize`. -/
def pepAuthorize (calls : Calls) (pep : Option Pep) (c : Caller) : Returned :=
  match pep, c.request with
  | none, request => ⟨.nullPointer, request, c.response, []⟩
  | some _, none => ⟨.nullPointer, none, c.response, []⟩
  | some pep, some request =>
    if pep.optionEndpointUrl = none then ⟨.nullPointer, some request, c.response, []⟩
    else Returned.ofRun ((Authorize.authorize calls pep).run (World.start c request))

end ArgusPep
