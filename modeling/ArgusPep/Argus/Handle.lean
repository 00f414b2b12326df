/-
  File:      ArgusPep/Argus/Handle.lean
  Subject:   The life of a PEP handle of argus/pep.c: PIPs and obligation handlers are added, enabled
             and disabled, the request is authorized, and in the end the handle is destroyed.

  A PIP or a handler is known by its `id`, which its documentation calls unique. What its functions
  return is not decided here: `init` brings its result with the call, `process` is a function for
  each place in the list (`Session`), so a PIP that stands there twice can answer differently, and
  `destroy` has one result for each place.

  * `Operation` -- a call on the handle, with what the functions it calls come to;
  * `Handle.step`, `Handle.run` -- one call, and a sequence of calls, with what each returned and the
    functions it called;
  * `pepDestroy` -- the two loops that drain the lists.

  Nodes of the lists can always be allocated. The log calls are left out.
-/
import ArgusPep.Argus.Pep

namespace ArgusPep

/-! ## 1. Calls -/

/-- What the calls of one `pep_authorize` come to. -/
structure Session where
  calls : Calls
  /-- `process` of the PIP at each place of the list. -/
  pipProcess : Nat → XacmlRequest → Int × XacmlRequest
  /-- `process` of the obligation handler at each place of the list. -/
  ohProcess : Nat → XacmlRequest → Option (List XacmlResult) → Int × XacmlRequest × List XacmlResult
  caller : Caller

/-- A call on a handle that is not NULL. -/
inductive Operation where
  /-- `pep_addpip(pep,pip)`: `pip->id`, and what `pip->init()` returns. -/
  | addpip (pip : Option CString) (initRc : Int)
  /-- `pep_addobligationhandler(pep,oh)`. -/
  | addobligationhandler (oh : Option CString) (initRc : Int)
  /-- `pep_setoption(pep,PEP_OPTION_ENABLE_PIPS,value)`. -/
  | enablePips (value : CInt)
  /-- `pep_setoption(pep,PEP_OPTION_ENABLE_OBLIGATIONHANDLERS,value)`. -/
  | enableObligationhandlers (value : CInt)
  | authorize (session : Session)

/-- A function called on behalf of the handle, with what it returned. -/
inductive PluginEvent where
  | pipInit (pip : CString) (rc : Int)
  | ohInit (oh : CString) (rc : Int)
  /-- A call made by `pep_authorize`. -/
  | authorize (event : Event)
  | pipDestroy (pip : CString) (rc : Int)
  | ohDestroy (oh : CString) (rc : Int)

/-- What an operation returned, and the functions it called. -/
structure Outcome where
  rc : PepError
  events : List PluginEvent

/-! ## 2. The handle -/

structure Handle where
  optionEndpointUrl : Option CString
  optionPipsEnabled : Bool
  pips : List CString
  optionOhsEnabled : Bool
  ohs : List CString

/-- A handle of `pep_initialize` whose endpoint was set, or not. -/
def Handle.initial (url : Option CString) : Handle := ⟨url, true, [], true, []⟩

namespace Handle

/-- `llist_add(pep->pips,pip)`. -/
def register (h : Handle) (pip : CString) : Handle := { h with pips := h.pips ++ [pip] }

/-- `llist_add(pep->ohs,oh)`. -/
def registerOh (h : Handle) (oh : CString) : Handle := { h with ohs := h.ohs ++ [oh] }

def addpip (h : Handle) : Option CString → Int → Outcome × Handle
  | none, _ => (⟨.nullPointer, []⟩, h)
  | some pip, rc =>
    if rc ≠ 0 then (⟨.pipInit, [.pipInit pip rc]⟩, h)
    else (⟨.ok, [.pipInit pip rc]⟩, h.register pip)

def addobligationhandler (h : Handle) : Option CString → Int → Outcome × Handle
  | none, _ => (⟨.nullPointer, []⟩, h)
  | some oh, rc =>
    if rc ≠ 0 then (⟨.ohInit, [.ohInit oh rc]⟩, h)
    else (⟨.ok, [.ohInit oh rc]⟩, h.registerOh oh)

/-- The two options are on for the value 1 and off for any other. -/
def enablePips (h : Handle) (value : CInt) : Outcome × Handle :=
  (⟨.ok, []⟩, { h with optionPipsEnabled := decide (value = 1#32) })

def enableObligationhandlers (h : Handle) (value : CInt) : Outcome × Handle :=
  (⟨.ok, []⟩, { h with optionOhsEnabled := decide (value = 1#32) })

/-- What `pep_authorize` reads of the handle. -/
def pep (h : Handle) (session : Session) : Pep where
  optionEndpointUrl := h.optionEndpointUrl
  optionPipsEnabled := h.optionPipsEnabled
  pips := h.pips.mapIdx fun i id => ⟨id, session.pipProcess i⟩
  optionOhsEnabled := h.optionOhsEnabled
  ohs := h.ohs.mapIdx fun i id => ⟨id, session.ohProcess i⟩

def authorize (h : Handle) (session : Session) : Outcome × Handle :=
  let r := pepAuthorize session.calls (some (h.pep session)) session.caller
  (⟨r.rc, r.trace.map .authorize⟩, h)

def step (h : Handle) : Operation → Outcome × Handle
  | .addpip pip rc => h.addpip pip rc
  | .addobligationhandler oh rc => h.addobligationhandler oh rc
  | .enablePips value => h.enablePips value
  | .enableObligationhandlers value => h.enableObligationhandlers value
  | .authorize session => h.authorize session

/-- The calls in order, and the handle after them. -/
def run (h : Handle) : List Operation → List Outcome × Handle
  | [] => ([], h)
  | op :: ops =>
    let (outcome, h) := h.step op
    let (outcomes, h) := h.run ops
    (outcome :: outcomes, h)

end Handle

/-! ## 3. Destruction -/

/-- `while (llist_length(list)>0)`: the first element is removed and its `destroy` called; `rc` is
    what that returns for the element at each place. -/
def drain (event : CString → Int → PluginEvent) (rc : Nat → Int) :
    (place : Nat) → List CString → List PluginEvent
  | _, [] => []
  | place, plugin :: plugins => event plugin (rc place) :: drain event rc (place + 1) plugins

/-- `pep_destroy`. -/
def pepDestroy (h : Handle) (pipRc ohRc : Nat → Int) : List PluginEvent :=
  drain .pipDestroy pipRc 0 h.pips ++ drain .ohDestroy ohRc 0 h.ohs

end ArgusPep
