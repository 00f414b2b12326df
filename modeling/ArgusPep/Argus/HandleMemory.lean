/-
  File:      ArgusPep/Argus/HandleMemory.lean
  Subject:   The memory behind a PEP handle of argus/pep.c, from `pep_initialize` to `pep_destroy`,
             where any allocation and any libcurl call can fail.

  A call is a program over `HandleWorld`: the pointers of the handle, the pointers libcurl was
  given, and what was done to memory so far. `granted` answers the allocations in their order,
  `curl_easy_init` and `curl_slist_append` among them, `answers` the calls of `curl_easy_setopt`.

  * `pepInitialize`, `setoption`, `addpip`, `addobligationhandler`, `pepDestroy` -- the functions;
  * `handleLife` -- a handle is made, used and destroyed;
  * `Keeping lost w` -- the INVARIANT: what is allocated is what the handle points to, and `lost`;
  * **`handleLife_memory`** -- nothing is freed twice or touched once it is freed; what is never
    freed are HTTP headers, and that is so exactly if the second `curl_slist_append` fails behind
    the first, or a list cannot be made.

  libcurl 7.17.0 and older keep the strings they are given (`keepsStrings`). The blocks are the
  handle's own: what a PIP, a handler, `pep_authorize` and libcurl allocate for themselves is left
  out.
-/
import ArgusPep.Argus.Options
import ArgusPep.Lib.Lifetime
import Mathlib.Logic.Function.Basic

namespace ArgusPep.HandleMemory

open Lib Lib.Lifetime

/-! ## 1. Memory -/

/-- The string options of the handle. -/
inductive StringName where
  | endpointUrl | sslCipherList | serverCert | serverCapath | clientCert | clientKey
  | clientKeypassword
deriving DecidableEq, Repr

/-- In the order `pep_destroy` frees them. -/
def StringName.all : List StringName :=
  [.endpointUrl, .sslCipherList, .serverCert, .serverCapath, .clientCert, .clientKey,
    .clientKeypassword]

inductive Block where
  /-- The `struct pep_handle`. -/
  | handle (address : Nat)
  | curl (address : Nat)
  /-- A node of the header list, with its text. -/
  | header (address : Nat)
  | list (address : Nat)
  | node (address : Nat)
  | string (name : StringName) (address : Nat)
deriving DecidableEq, Repr

def Block.address : Block → Nat
  | .handle n | .curl n | .header n | .list n | .node n | .string _ n => n

/-- What is done to a block. -/
inductive MemoryEvent where
  | allocated (block : Block)
  | accessed (block : Block)
  /-- `memset` with zeros. -/
  | wiped (block : Block)
  | freed (block : Block)
deriving DecidableEq, Repr

def MemoryEvent.act : MemoryEvent → Act Block
  | .allocated block => .acquire block
  | .accessed block | .wiped block => .use block
  | .freed block => .release block

/-- The pointers of the handle. -/
structure PepMemory where
  handle : Option Nat
  curl : Option Nat
  /-- `curl_http_headers`. -/
  headers : List Nat
  pips : Option Nat
  pipNodes : List Nat
  ohs : Option Nat
  ohNodes : List Nat
  strings : StringName → Option Nat

def PepMemory.withString (pep : PepMemory) (name : StringName) (string : Option Nat) : PepMemory :=
  { pep with strings := Function.update pep.strings name string }

/-- No handle. -/
def PepMemory.null : PepMemory := ⟨none, none, [], none, [], none, [], fun _ => none⟩

/-- How it went with a string. -/
inductive Attempt where
  /-- libcurl took it. -/
  | applied
  /-- `curl_easy_setopt` failed. -/
  | refused
  /-- There was no memory for it. -/
  | noMemory
deriving DecidableEq, Repr

structure HandleWorld where
  pep : PepMemory
  /-- The last string that libcurl took, for each option. -/
  held : StringName → Option Nat
  /-- The blocks allocated so far: a new one gets this address. -/
  created : Nat
  granted : Nat → Bool
  /-- The allocations asked for so far. -/
  asked : Nat
  answers : Nat → CurlCode
  /-- The calls of `curl_easy_setopt` so far. -/
  answered : Nat
  events : List MemoryEvent
  attempts : List (StringName × Attempt)
  /-- The bytes in the blocks of the strings, freed ones too, by address. -/
  contents : Nat → Bytes

/-- Nothing was done yet. -/
def HandleWorld.start (granted : Nat → Bool) (answers : Nat → CurlCode) : HandleWorld :=
  ⟨.null, fun _ => none, 0, granted, 0, answers, 0, [], [], fun _ => []⟩

abbrev OnHandle (ε : Type) := Exits ε HandleWorld

section Functions

variable {ε : Type}

def note (events : List MemoryEvent) : OnHandle ε Unit :=
  modify fun w => { w with events := w.events ++ events }

def change (f : PepMemory → PepMemory) : OnHandle ε Unit :=
  modify fun w => { w with pep := f w.pep }

/-- The bytes are written to a block. -/
def store (n : Nat) (bytes : Bytes) : OnHandle ε Unit :=
  modify fun w => { w with contents := Function.update w.contents n bytes }

/-- The new block, or NULL. -/
def allocate (block : Nat → Block) : OnHandle ε (Option Nat) := modifyGet fun w =>
  if w.granted w.asked then
    (some w.created, { w with
      created := w.created + 1
      asked := w.asked + 1
      events := w.events ++ [.allocated (block w.created)] })
  else (none, { w with asked := w.asked + 1 })

/-- `curl_easy_setopt`, on the handle `pep->curl`. -/
def curlEasySetopt : OnHandle ε CurlCode := do
  note ((← get).pep.curl.toList.map fun n => .accessed (.curl n))
  modifyGet fun w => (w.answers w.answered, { w with answered := w.answered + 1 })

/-! ## 2. pep_initialize -/

/-- `pep->curl_http_headers= curl_slist_append(pep->curl_http_headers,...)`: NULL if it fails. -/
def curlSlistAppend : OnHandle ε Unit := do
  match ← allocate .header with
  | some n => change fun pep => { pep with headers := pep.headers ++ [n] }
  | none => change fun pep => { pep with headers := [] }

def setCurlHttpHeaders : OnHandle ε Unit := do
  curlSlistAppend
  curlSlistAppend
  discard curlEasySetopt

/-- Behind the headers: the timeout, the SSL validation, no signals, and the cipher list, which is a
    literal. -/
def initCurlDefaults : OnHandle ε Unit := do
  setCurlHttpHeaders
  discard curlEasySetopt
  discard curlEasySetopt
  discard curlEasySetopt
  discard curlEasySetopt

def curlEasyCleanup : OnHandle ε Unit := do
  note ((← get).pep.curl.toList.map fun n => .freed (.curl n))
  change fun pep => { pep with curl := none }

/-- `free(pep)`. -/
def freeHandle : OnHandle ε Unit := do
  note ((← get).pep.handle.toList.map fun n => .freed (.handle n))
  change fun _ => .null

/-- The list of PIPs, drained. -/
def deletePips : OnHandle ε Unit := do
  let pep := (← get).pep
  note (pep.pipNodes.flatMap fun n => [.accessed (.node n), .freed (.node n)])
  note (pep.pips.toList.map fun n => .freed (.list n))
  change fun pep => { pep with pips := none, pipNodes := [] }

def deleteOhs : OnHandle ε Unit := do
  let pep := (← get).pep
  note (pep.ohNodes.flatMap fun n => [.accessed (.node n), .freed (.node n)])
  note (pep.ohs.toList.map fun n => .freed (.list n))
  change fun pep => { pep with ohs := none, ohNodes := [] }

/-- `pep_initialize`; it leaves where it returns NULL. -/
def pepInitialize : OnHandle Unit Unit := do
  let handle ← allocate .handle
  change fun pep => { pep with handle }
  if handle.isNone then throw ()
  let curl ← allocate .curl
  change fun pep => { pep with curl }
  if curl.isNone then
    freeHandle
    throw ()
  initCurlDefaults
  let pips ← allocate .list
  change fun pep => { pep with pips }
  if pips.isNone then
    curlEasyCleanup
    freeHandle
    throw ()
  let ohs ← allocate .list
  change fun pep => { pep with ohs }
  if ohs.isNone then
    curlEasyCleanup
    deletePips
    freeHandle
    throw ()

/-! ## 3. The calls on a handle -/

/-- `strlen`. -/
def strlen (bytes : Bytes) : Nat := (bytes.takeWhile (· ≠ 0)).length

/-- `memset(p,'\0',strlen(p))` on a string. -/
def wipe (name : StringName) (n : Nat) : OnHandle ε Unit := do
  let bytes := (← get).contents n
  note [.wiped (.string name n)]
  store n (List.replicate (strlen bytes) 0 ++ bytes.drop (strlen bytes))

/-- The password is overwritten before it is freed. -/
def freeString (name : StringName) : OnHandle ε Unit := do
  match (← get).pep.strings name with
  | none => pure ()
  | some n =>
    if name = .clientKeypassword then wipe name n
    note [.freed (.string name n)]
    change fun pep => pep.withString name none

/-- How it went is kept in `attempts`. -/
def attempted (name : StringName) (attempt : Attempt) : OnHandle ε Unit :=
  modify fun w => { w with attempts := w.attempts ++ [(name, attempt)] }

/-- A string option of `pep_setoption`. The old string is logged before it is freed. -/
def setString (name : StringName) : Option CString → OnHandle PepError Unit
  | none => throw .optionInvalid
  | some str => do
    note (((← get).pep.strings name).toList.map fun n => .accessed (.string name n))
    freeString name
    match ← allocate (.string name) with
    | none =>
      attempted name .noMemory
      throw .memory
    | some n =>
      change fun pep => pep.withString name (some n)
      note [.accessed (.string name n)]
      -- `calloc` of one byte more, and `strncpy`
      store n (str.bytes ++ [0])
      let curlRc ← curlEasySetopt
      if curlRc = CURLE_OK then
        modify fun w => { w with held := Function.update w.held name (some n) }
        attempted name .applied
      else attempted name .refused

/-- `pep_setoption`. -/
def setoption : PepOption → OnHandle PepError Unit
  | .endpointUrl str => setString .endpointUrl str
  | .endpointSslCipherList str => setString .sslCipherList str
  | .endpointServerCert str => setString .serverCert str
  | .endpointServerCapath str => setString .serverCapath str
  | .endpointClientCert str => setString .clientCert str
  | .endpointClientKey str => setString .clientKey str
  | .endpointClientKeypassword str => setString .clientKeypassword str
  | .endpointTimeout _ | .endpointSslValidation _ | .logLevel _ | .logStderr _ =>
    discard curlEasySetopt
  | .enablePips _ | .enableObligationhandlers _ | .logHandler _ => pure ()
  | .invalid _ => throw .optionInvalid

/-- `pep_addpip`, with what `pip->init()` returns. -/
def addpip (pip : Option CString) (initRc : Int) : OnHandle PepError Unit := do
  if pip.isNone then throw .nullPointer
  if initRc ≠ 0 then throw .pipInit
  note ((← get).pep.pips.toList.map fun n => .accessed (.list n))
  match ← allocate .node with
  | none => throw .llist
  | some n => change fun pep => { pep with pipNodes := pep.pipNodes ++ [n] }

/-- `pep_addobligationhandler`. -/
def addobligationhandler (oh : Option CString) (initRc : Int) : OnHandle PepError Unit := do
  if oh.isNone then throw .nullPointer
  if initRc ≠ 0 then throw .ohInit
  note ((← get).pep.ohs.toList.map fun n => .accessed (.list n))
  match ← allocate .node with
  | none => throw .llist
  | some n => change fun pep => { pep with ohNodes := pep.ohNodes ++ [n] }

/-- `pep_authorize`, which does nothing without a URL. Which of the strings it was given a libcurl
    that keeps them goes to in `curl_easy_perform`, is up to libcurl and to the URL: `reads`. There
    are none where the call does not come to `curl_easy_perform`. -/
def authorize (keepsStrings : Bool) (reads : List StringName) : OnHandle PepError Unit := do
  let w ← get
  match w.pep.strings .endpointUrl with
  | none => throw .nullPointer
  | some _ =>
    note ((w.pep.pips.toList ++ w.pep.ohs.toList).map fun n => .accessed (.list n))
    note ((w.pep.pipNodes ++ w.pep.ohNodes).map fun n => .accessed (.node n))
    note (w.pep.curl.toList.map fun n => .accessed (.curl n))
    if keepsStrings then
      note (reads.flatMap fun name => (w.held name).toList.map fun n =>
        .accessed (.string name n))

/-- `curl_slist_free_all`. -/
def freeHeaders : OnHandle ε Unit := do
  note ((← get).pep.headers.map fun n => .freed (.header n))
  change fun pep => { pep with headers := [] }

def pepDestroy : OnHandle ε Unit := do
  freeHeaders
  curlEasyCleanup
  StringName.all.forM freeString
  deletePips
  deleteOhs
  freeHandle

/-- A call on a handle that is not NULL. -/
inductive HandleCall where
  | setoption (option : PepOption)
  | addpip (pip : Option CString) (initRc : Int)
  | addobligationhandler (oh : Option CString) (initRc : Int)
  | authorize (reads : List StringName)

def HandleCall.run (keepsStrings : Bool) : HandleCall → OnHandle PepError Unit
  | .setoption option => HandleMemory.setoption option
  | .addpip pip initRc => HandleMemory.addpip pip initRc
  | .addobligationhandler oh initRc => HandleMemory.addobligationhandler oh initRc
  | .authorize reads => HandleMemory.authorize keepsStrings reads

end Functions

/-- What a call returns is not looked at. -/
def runCalls (keepsStrings : Bool) (calls : List HandleCall) (w : HandleWorld) : HandleWorld :=
  calls.foldl (fun w call => ((call.run keepsStrings).run w).2) w

/-- A handle is made, used and destroyed; if it is NULL there is nothing to use. -/
def handleLife (keepsStrings : Bool) (calls : List HandleCall) (w : HandleWorld) : HandleWorld :=
  match pepInitialize.run w with
  | (.error _, w) => w
  | (.ok _, w) => ((pepDestroy : OnHandle Unit Unit).run (runCalls keepsStrings calls w)).2

/-! ## 4. The invariant -/

/-- What the handle points to. -/
def PepMemory.blocks (pep : PepMemory) : List Block :=
  pep.handle.toList.map .handle ++ (pep.curl.toList.map .curl ++ (pep.headers.map .header ++
    ((pep.pips.toList ++ pep.ohs.toList).map .list ++ ((pep.pipNodes ++ pep.ohNodes).map .node ++
      StringName.all.flatMap fun name => (pep.strings name).toList.map (.string name)))))

/-- Exactly the blocks of `live` are allocated; a new one is none of those so far. -/
structure Holding (live : List Block) (w : HandleWorld) : Prop where
  holds : Holds (w.events.map MemoryEvent.act) live
  created : ∀ e ∈ w.events, e.act.on.address < w.created

/-- **The invariant**: what is allocated is what the handle points to, and `lost`. -/
def Keeping (lost : List Block) (w : HandleWorld) : Prop := Holding (w.pep.blocks ++ lost) w

section Steps

variable {live live' : List Block} {w : HandleWorld}

theorem Holding.perm (h : Holding live w) (p : live.Perm live') : Holding live' w :=
  ⟨h.holds.perm p, h.created⟩

theorem Holding.bound (h : Holding live w) {b : Block} (hb : b ∈ live) : b.address < w.created := by
  obtain ⟨k, hk⟩ := h.holds.held b hb
  have hmem : Act.acquire b ∈ actsOn b (w.events.map MemoryEvent.act) := by
    rw [hk]
    exact List.mem_cons_self
  obtain ⟨e, he, heq⟩ := List.mem_map.mp (List.mem_of_mem_filter hmem)
  have hlt := h.created e he
  rw [heq] at hlt
  exact hlt

/-- Blocks that are allocated can be gone to. -/
theorem Holding.used (h : Holding live w) {es : List MemoryEvent}
    (hes : ∀ e ∈ es, ∃ b ∈ live, e.act = .use b) :
    Holding live { w with events := w.events ++ es } := by
  induction es generalizing w with
  | nil => exact ⟨by simpa using h.holds, by simpa using h.created⟩
  | cons e es ih =>
    obtain ⟨b, hb, hact⟩ := hes e List.mem_cons_self
    have hfirst : Holding live { w with events := w.events ++ [e] } := by
      refine ⟨?_, fun e' he' => ?_⟩
      · rw [List.map_append, List.map_singleton, hact]
        exact h.holds.use hb
      · rcases List.mem_append.mp he' with he' | he'
        · exact h.created e' he'
        · rw [List.mem_singleton.mp he', hact]
          exact h.bound hb
    have hrest := ih hfirst fun e' he' => hes e' (List.mem_cons_of_mem e he')
    rw [List.append_assoc] at hrest
    exact hrest

theorem Holding.freed {b : Block} (h : Holding (b :: live) w) :
    Holding live { w with events := w.events ++ [.freed b] } := by
  refine ⟨?_, fun e he => ?_⟩
  · rw [List.map_append]
    exact h.holds.release
  · rcases List.mem_append.mp he with he | he
    · exact h.created e he
    · rw [List.mem_singleton.mp he]
      exact h.bound List.mem_cons_self

/-- Several blocks are freed. -/
theorem Holding.frees {bs : List Block} (h : Holding (bs ++ live) w) :
    Holding live { w with events := w.events ++ bs.map .freed } := by
  induction bs generalizing w with
  | nil => exact ⟨by simpa using h.holds, by simpa using h.created⟩
  | cons b bs ih =>
    have hrest := ih h.freed
    rw [List.append_assoc] at hrest
    exact hrest

/-- Several blocks are each gone to and freed. -/
theorem Holding.drained {α : Type} {f : α → Block} {xs : List α}
    (h : Holding (xs.map f ++ live) w) : Holding live { w with
      events := w.events ++ xs.flatMap fun x => [.accessed (f x), .freed (f x)] } := by
  induction xs generalizing w with
  | nil => exact ⟨by simpa using h.holds, by simpa using h.created⟩
  | cons x xs ih =>
    have hx : ∀ e ∈ [MemoryEvent.accessed (f x)], ∃ b ∈ f x :: (xs.map f ++ live), e.act = .use b :=
      fun e he => ⟨f x, List.mem_cons_self, congrArg MemoryEvent.act (List.mem_singleton.mp he)⟩
    have hrest := ih (h.used hx).freed
    rw [List.append_assoc, List.append_assoc] at hrest
    exact hrest

theorem Holding.allocated {block : Nat → Block} (hblock : ∀ n, (block n).address = n)
    (h : Holding live w) (asked : Nat) : Holding (block w.created :: live) { w with
      created := w.created + 1, asked := asked
      events := w.events ++ [.allocated (block w.created)] } := by
  refine ⟨?_, fun e he => ?_⟩
  · rw [List.map_append]
    refine h.holds.acquire fun a ha => ?_
    obtain ⟨e, he, rfl⟩ := List.mem_map.mp ha
    intro heq
    have hlt := h.created e he
    rw [heq, hblock] at hlt
    exact Nat.lt_irrefl _ hlt
  · rcases List.mem_append.mp he with he | he
    · exact Nat.lt_succ_of_lt (h.created e he)
    · rw [List.mem_singleton.mp he]
      exact (hblock _).trans_lt (Nat.lt_succ_self _)

end Steps

/-! ## 5. A handle is made -/

/-- A point of `pep_initialize`: the pointers, the allocations asked for, and the blocks. -/
structure Along (g : Nat → Bool) (pep : PepMemory) (k : Nat) (live : List Block) (w : HandleWorld) :
    Prop where
  pep : w.pep = pep
  granted : w.granted = g
  asked : w.asked = k
  holding : Holding live w

section Making

variable {ε : Type} {g : Nat → Bool} {pep : PepMemory} {k : Nat} {live : List Block}
  {w : HandleWorld} {E : ε → HandleWorld → Prop}

theorem allocate_along {block : Nat → Block} (hblock : ∀ n, (block n).address = n)
    (h : Along g pep k live w) :
    Ensures (allocate block : OnHandle ε (Option Nat)) w (fun r w' => r.isSome = g k ∧
      Along g pep (k + 1) (r.toList.map block ++ live) w') E := by
  obtain ⟨rfl, rfl, rfl, hholding⟩ := h
  unfold allocate
  refine Ensures.modifyGet ?_
  cases hg : w.granted w.asked with
  | true => exact ⟨rfl, rfl, rfl, rfl, hholding.allocated hblock _⟩
  | false => exact ⟨rfl, rfl, rfl, rfl, hholding.holds, hholding.created⟩

theorem change_along (f : PepMemory → PepMemory) (h : Along g pep k live w) :
    Ensures (change f : OnHandle ε Unit) w (fun _ => Along g (f pep) k live) E := by
  obtain ⟨rfl, rfl, rfl, hholding⟩ := h
  exact Ensures.modify ⟨rfl, rfl, rfl, hholding.holds, hholding.created⟩

theorem curlEasySetopt_along (h : Along g pep k live w)
    (hcurl : ∀ n, pep.curl = some n → .curl n ∈ live) :
    Ensures (curlEasySetopt : OnHandle ε CurlCode) w (fun _ => Along g pep k live) E := by
  obtain ⟨rfl, rfl, rfl, hholding⟩ := h
  have hused : Holding live { w with
      events := w.events ++ w.pep.curl.toList.map fun n => .accessed (.curl n) } := by
    refine hholding.used fun e he => ?_
    obtain ⟨n, hn, rfl⟩ := List.mem_map.mp he
    exact ⟨.curl n, hcurl n (Option.mem_toList.mp hn), rfl⟩
  exact ⟨rfl, rfl, rfl, hused.holds, hused.created⟩

/-- The node is added; without it the list is forgotten. -/
theorem curlSlistAppend_along (h : Along g pep k (pep.headers.map .header ++ live) w) :
    Ensures (curlSlistAppend : OnHandle ε Unit) w (fun _ w' => ∃ headers lost : List Nat,
      Along g { pep with headers } (k + 1)
        (headers.map .header ++ (lost.map .header ++ live)) w' ∧
      (headers ≠ [] ↔ g k = true) ∧ (lost ≠ [] ↔ pep.headers ≠ [] ∧ g k = false)) E := by
  unfold curlSlistAppend
  refine (allocate_along (fun _ => rfl) h).bind fun r w₁ h₁ => ?_
  obtain ⟨hr, h₁⟩ := h₁
  rw [← hr]
  cases r with
  | some n =>
    refine (change_along _ h₁).mono fun _ w₂ h₂ => ⟨pep.headers ++ [n], [], ?_, by simp, by simp⟩
    refine ⟨h₂.pep, h₂.granted, h₂.asked, h₂.holding.perm ?_⟩
    simp only [Option.toList_some, List.map_append, List.map_nil, List.nil_append,
      ← List.append_assoc]
    exact (List.perm_append_comm).append_right live
  | none =>
    exact (change_along _ h₁).mono fun _ w₂ h₂ => ⟨[], pep.headers, h₂, by simp, by simp⟩

/-- The header list in `pep_initialize`: its nodes, and those that were forgotten. -/
def Headed (g : Nat → Bool) (pep : PepMemory) (k : Nat) (live : List Block) (w : HandleWorld) :
    Prop :=
  ∃ headers lost : List Nat,
    Along g { pep with headers } (k + 2) (headers.map .header ++ (lost.map .header ++ live)) w ∧
    (headers ≠ [] ↔ g (k + 1) = true) ∧ (lost ≠ [] ↔ g k = true ∧ g (k + 1) = false)

theorem setopt_headed (h : Headed g pep k live w)
    (hcurl : ∀ n, pep.curl = some n → .curl n ∈ live) :
    Ensures (discard curlEasySetopt : OnHandle ε Unit) w (fun _ => Headed g pep k live) E := by
  obtain ⟨headers, lost, h, hsome, hlost⟩ := h
  have hmem : ∀ n, pep.curl = some n →
      .curl n ∈ headers.map Block.header ++ (lost.map .header ++ live) := fun n hn =>
    List.mem_append_right _ (List.mem_append_right _ (hcurl n hn))
  exact (curlEasySetopt_along h hmem).discard.mono fun _ _ h => ⟨headers, lost, h, hsome, hlost⟩

/-- A node is forgotten exactly if the second call fails behind the first. -/
theorem setCurlHttpHeaders_headed (h : Along g pep k live w) (hheaders : pep.headers = [])
    (hcurl : ∀ n, pep.curl = some n → .curl n ∈ live) :
    Ensures (setCurlHttpHeaders : OnHandle ε Unit) w (fun _ => Headed g pep k live) E := by
  unfold setCurlHttpHeaders
  have hnone : pep.headers.map Block.header ++ live = live := by rw [hheaders]; rfl
  refine (curlSlistAppend_along (hnone.symm ▸ h)).bind fun _ w₁ h₁ => ?_
  obtain ⟨headers, lost, h₁, hsome, hlost⟩ := h₁
  have hempty : lost = [] := by
    by_contra hne
    exact (hlost.mp hne).1 hheaders
  subst hempty
  refine Ensures.bind (curlSlistAppend_along h₁) fun _ w₂ h₂ => ?_
  obtain ⟨headers', lost', h₂, hsome', hlost'⟩ := h₂
  exact setopt_headed ⟨headers', lost', h₂, hsome', hlost'.trans (and_congr_left' hsome)⟩ hcurl

theorem initCurlDefaults_headed (h : Along g pep k live w) (hheaders : pep.headers = [])
    (hcurl : ∀ n, pep.curl = some n → .curl n ∈ live) :
    Ensures (initCurlDefaults : OnHandle ε Unit) w (fun _ => Headed g pep k live) E := by
  unfold initCurlDefaults
  refine (setCurlHttpHeaders_headed h hheaders hcurl).bind fun _ w₁ h₁ => ?_
  refine (setopt_headed h₁ hcurl).bind fun _ w₂ h₂ => ?_
  refine (setopt_headed h₂ hcurl).bind fun _ w₃ h₃ => ?_
  exact (setopt_headed h₃ hcurl).bind fun _ w₄ h₄ => setopt_headed h₄ hcurl

/-- `free(pep)`: what the handle still points to is lost. -/
theorem freeHandle_along {n : Nat} (h : Along g pep k (.handle n :: live) w)
    (hhandle : pep.handle = some n) :
    Ensures (freeHandle : OnHandle ε Unit) w (fun _ => Along g .null k live) E := by
  obtain ⟨rfl, rfl, rfl, hholding⟩ := h
  have hfreed := hholding.freed
  unfold freeHandle
  show Along _ _ _ _ { w with
    events := w.events ++ w.pep.handle.toList.map fun n => .freed (.handle n), pep := .null }
  rw [hhandle]
  exact ⟨rfl, rfl, rfl, hfreed.holds, hfreed.created⟩

theorem curlEasyCleanup_along {n : Nat} (h : Along g pep k (.curl n :: live) w)
    (hcurl : pep.curl = some n) :
    Ensures (curlEasyCleanup : OnHandle ε Unit) w
      (fun _ => Along g { pep with curl := none } k live) E := by
  obtain ⟨rfl, rfl, rfl, hholding⟩ := h
  have hfreed := hholding.freed
  unfold curlEasyCleanup
  show Along _ _ _ _ { w with
    events := w.events ++ w.pep.curl.toList.map fun n => .freed (.curl n),
    pep := { w.pep with curl := none } }
  rw [hcurl]
  exact ⟨rfl, rfl, rfl, hfreed.holds, hfreed.created⟩

/-- The list is empty. -/
theorem deletePips_along {n : Nat} (h : Along g pep k (.list n :: live) w)
    (hpips : pep.pips = some n) (hnodes : pep.pipNodes = []) :
    Ensures (deletePips : OnHandle ε Unit) w
      (fun _ => Along g { pep with pips := none, pipNodes := [] } k live) E := by
  obtain ⟨rfl, rfl, rfl, hholding⟩ := h
  have hfreed := hholding.freed
  unfold deletePips
  show Along _ _ _ _ { w with
    events := w.events ++ w.pep.pipNodes.flatMap (fun n => [.accessed (.node n), .freed (.node n)])
      ++ w.pep.pips.toList.map fun n => .freed (.list n),
    pep := { w.pep with pips := none, pipNodes := [] } }
  rw [hpips, hnodes, List.flatMap_nil, List.append_nil]
  exact ⟨rfl, rfl, rfl, hfreed.holds, hfreed.created⟩

end Making

/-- The answers with which header nodes are never freed. -/
def Leaks (g : Nat → Bool) : Prop :=
  (g 0 = true ∧ g 1 = true) ∧
    ((g 2 = true ∧ g 3 = false) ∨ (g 2 = true ∨ g 3 = true) ∧ (g 4 = false ∨ g 5 = false))

theorem Along.perm {g : Nat → Bool} {pep : PepMemory} {k : Nat} {live live' : List Block}
    {w : HandleWorld} (h : Along g pep k live w) (p : live.Perm live') : Along g pep k live' w :=
  ⟨h.pep, h.granted, h.asked, h.holding.perm p⟩

/-- A list could not be made: the headers are lost too. -/
theorem leaks_of_failed {g : Nat → Bool} {headers lost : List Nat}
    (hmade : g 0 = true ∧ g 1 = true) (hheaders : headers ≠ [] ↔ g 3 = true)
    (hlost : lost ≠ [] ↔ g 2 = true ∧ g 3 = false) (hfail : g 4 = false ∨ g 5 = false) :
    headers ++ lost ≠ [] ↔ Leaks g := by
  have hsplit : headers ++ lost ≠ [] ↔ headers ≠ [] ∨ lost ≠ [] := by
    rw [ne_eq, List.append_eq_nil_iff, Decidable.not_and_iff_or_not]
  rw [hsplit, hheaders, hlost]
  unfold Leaks
  cases g 2 <;> cases g 3 <;> simp [hmade, hfail]

/-- **Of a handle that is made, only header nodes are lost.** -/
theorem pepInitialize_memory (g : Nat → Bool) (answers : Nat → CurlCode) :
    Ensures pepInitialize (HandleWorld.start g answers)
      (fun _ w => ∃ lost : List Nat, Keeping (lost.map .header) w ∧ (lost ≠ [] ↔ Leaks g))
      (fun _ w => ∃ lost : List Nat, Holding (lost.map .header) w ∧ (lost ≠ [] ↔ Leaks g)) := by
  have hstart : Along g .null 0 [] (HandleWorld.start g answers) :=
    ⟨rfl, rfl, rfl, Holds.start, fun e he => absurd he List.not_mem_nil⟩
  unfold pepInitialize
  refine (allocate_along (fun _ => rfl) hstart).bind fun handle w₁ h₁ => ?_
  obtain ⟨hg0, h₁⟩ := h₁
  refine (change_along _ h₁).bind fun _ w₂ h₂ => ?_
  cases handle with
  | none => exact Ensures.throw ⟨[], h₂.holding, by simp [Leaks, ← hg0]⟩
  | some handle =>
  refine (allocate_along (fun _ => rfl) h₂).bind fun curl w₃ h₃ => ?_
  obtain ⟨hg1, h₃⟩ := h₃
  refine (change_along _ h₃).bind fun _ w₄ h₄ => ?_
  cases curl with
  | none =>
    refine (freeHandle_along h₄ rfl).bind fun _ w₅ h₅ => ?_
    exact Ensures.throw ⟨[], h₅.holding, by simp [Leaks, ← hg1]⟩
  | some curl =>
  refine (initCurlDefaults_headed h₄ rfl fun n hn => ?_).bind fun _ w₅ h₅ => ?_
  · cases hn
    exact List.mem_cons_self
  obtain ⟨headers, lost, h₅, hheaders, hlost⟩ := h₅
  have hmade : g 0 = true ∧ g 1 = true := ⟨hg0.symm, hg1.symm⟩
  refine (allocate_along (fun _ => rfl) h₅).bind fun pips w₆ h₆ => ?_
  obtain ⟨hg4, h₆⟩ := h₆
  refine (change_along _ h₆).bind fun _ w₇ h₇ => ?_
  cases pips with
  | none =>
    have hperm : (headers.map Block.header ++
          (lost.map Block.header ++ [Block.curl curl, Block.handle handle])).Perm
        (.curl curl :: .handle handle :: (headers ++ lost).map .header) := by
      rw [← List.append_assoc, ← List.map_append]
      exact List.perm_append_comm
    refine (curlEasyCleanup_along (h₇.perm hperm) rfl).bind fun _ w₈ h₈ => ?_
    refine (freeHandle_along h₈ rfl).bind fun _ w₉ h₉ => ?_
    exact Ensures.throw ⟨headers ++ lost, h₉.holding,
      leaks_of_failed hmade hheaders hlost (.inl hg4.symm)⟩
  | some pips =>
  refine (allocate_along (fun _ => rfl) h₇).bind fun ohs w₈ h₈ => ?_
  obtain ⟨hg5, h₈⟩ := h₈
  refine (change_along _ h₈).bind fun _ w₉ h₉ => ?_
  cases ohs with
  | none =>
    have hperm : (Block.list pips :: (headers.map Block.header ++
          (lost.map Block.header ++ [Block.curl curl, Block.handle handle]))).Perm
        (.curl curl :: .list pips :: .handle handle :: (headers ++ lost).map .header) := by
      rw [← List.append_assoc, ← List.map_append]
      exact (List.perm_append_comm.cons _).trans (.swap ..)
    refine (curlEasyCleanup_along (h₉.perm hperm) rfl).bind fun _ w₁₀ h₁₀ => ?_
    refine (deletePips_along h₁₀ rfl rfl).bind fun _ w₁₁ h₁₁ => ?_
    refine (freeHandle_along h₁₁ rfl).bind fun _ w₁₂ h₁₂ => ?_
    exact Ensures.throw ⟨headers ++ lost, h₁₂.holding,
      leaks_of_failed hmade hheaders hlost (.inr hg5.symm)⟩
  | some ohs =>
    refine Ensures.pure ⟨lost, ?_, ?_⟩
    · unfold Keeping
      rw [h₉.pep]
      refine h₉.holding.perm (List.perm_iff_count.mpr fun b => ?_)
      simp only [PepMemory.blocks, PepMemory.null, StringName.all, Option.toList_some,
        Option.toList_none, List.map_cons, List.map_nil, List.flatMap_cons, List.flatMap_nil,
        List.nil_append, List.append_nil, List.cons_append, List.count_append, List.count_cons]
      omega
    · rw [hlost]
      simp [Leaks, hmade, ← hg4, ← hg5]

/-! ## 6. A handle is used -/

theorem StringName.mem_all (name : StringName) : name ∈ StringName.all := by
  cases name <;> decide

/-- The block of a string, and the blocks without it. -/
theorem blocks_string (pep : PepMemory) {name : StringName} {n : Nat}
    (h : pep.strings name = some n) : pep.blocks.Perm
      (.string name n :: (pep.withString name none).blocks) := by
  have hall : StringName.all.Perm (name :: StringName.all.erase name) :=
    List.perm_cons_erase name.mem_all
  have hnodup : StringName.all.Nodup := by decide
  have hrest : ∀ name' ∈ StringName.all.erase name,
      ((Function.update pep.strings name none) name').toList.map (Block.string name')
        = (pep.strings name').toList.map (Block.string name') := by
    intro name' hmem
    have hne : name' ≠ name := fun heq => hnodup.not_mem_erase (heq ▸ hmem)
    rw [Function.update_of_ne hne]
  have hstrings : (StringName.all.flatMap fun name => (pep.strings name).toList.map
        (Block.string name)).Perm (.string name n :: StringName.all.flatMap fun name' =>
          ((Function.update pep.strings name none) name').toList.map (Block.string name')) := by
    refine (hall.flatMap_right _).trans (.trans ?_ ((hall.symm.flatMap_right _).cons _))
    rw [List.flatMap_cons, List.flatMap_cons, List.flatMap_congr hrest, h, Function.update_self]
    exact .refl _
  refine List.perm_iff_count.mpr fun b => ?_
  have hcount := List.perm_iff_count.mp hstrings b
  simp only [PepMemory.blocks, PepMemory.withString, List.count_append, List.count_cons] at hcount ⊢
  omega

section Using

variable {ε : Type} {lost : List Block} {w : HandleWorld} {E : ε → HandleWorld → Prop}

/-- Blocks of the handle can be gone to. -/
theorem Keeping.used (h : Keeping lost w) {es : List MemoryEvent}
    (hes : ∀ e ∈ es, ∃ b ∈ w.pep.blocks, e.act = .use b) :
    Keeping lost { w with events := w.events ++ es } := by
  refine Holding.used h fun e he => ?_
  obtain ⟨b, hb, hact⟩ := hes e he
  exact ⟨b, List.mem_append_left _ hb, hact⟩

theorem Keeping.accessed {α : Type} (h : Keeping lost w) (f : α → Block) {xs : List α}
    (hf : ∀ x ∈ xs, f x ∈ w.pep.blocks) :
    Keeping lost { w with events := w.events ++ xs.map fun x => .accessed (f x) } := by
  refine h.used fun e he => ?_
  obtain ⟨x, hx, rfl⟩ := List.mem_map.mp he
  exact ⟨f x, hf x hx, rfl⟩

theorem curlEasySetopt_keeping : Keeps (Keeping lost) (curlEasySetopt : OnHandle ε CurlCode) := by
  intro w h
  have hused : Keeping lost { w with
      events := w.events ++ w.pep.curl.toList.map fun n => .accessed (.curl n) } :=
    h.accessed .curl fun n hn => by simp [PepMemory.blocks, Option.mem_toList.mp hn]
  exact ⟨hused.holds, hused.created⟩

/-- Pointers are taken away with the blocks that are freed. -/
theorem Keeping.freed (h : Keeping lost w) (bs : List Block) {pep : PepMemory}
    (p : w.pep.blocks.Perm (bs ++ pep.blocks)) :
    Keeping lost { w with events := w.events ++ bs.map .freed, pep := pep } := by
  have hbs : Holding (bs ++ (pep.blocks ++ lost)) w := by
    rw [← List.append_assoc]
    exact h.perm (p.append_right lost)
  exact ⟨hbs.frees.holds, hbs.frees.created⟩

/-- The pointer is taken away, and before a password is, its bytes are. -/
theorem freeString_keeping (name : StringName) (h : Keeping lost w) :
    Ensures (freeString name : OnHandle ε Unit) w
      (fun _ w' => Keeping lost w' ∧ w'.pep = w.pep.withString name none) E := by
  unfold freeString
  refine Ensures.get ?_
  cases hstring : w.pep.strings name with
  | none =>
    refine Ensures.pure ⟨h, ?_⟩
    unfold PepMemory.withString
    rw [← hstring, Function.update_eq_self]
  | some n =>
    have hperm := blocks_string w.pep hstring
    have hfreed : ∀ w', Keeping lost w' ∧ w'.pep = w.pep → Ensures (do
        note [.freed (.string name n)]
        change fun pep => pep.withString name none : OnHandle ε Unit) w'
        (fun _ w'' => Keeping lost w'' ∧ w''.pep = w.pep.withString name none) E := by
      intro w' h'
      obtain ⟨h', hpep⟩ := h'
      rw [← hpep] at hperm ⊢
      exact ⟨h'.freed [_] hperm, rfl⟩
    refine Ensures.ite (fun _ => Ensures.bind ?_ fun _ => hfreed) fun _ => hfreed w ⟨h, rfl⟩
    have hwiped : Keeping lost { w with events := w.events ++ [.wiped (.string name n)] } :=
      h.used fun e he => ⟨_, hperm.mem_iff.mpr List.mem_cons_self,
        congrArg MemoryEvent.act (List.mem_singleton.mp he)⟩
    exact ⟨⟨hwiped.holds, hwiped.created⟩, rfl⟩

/-- The new block is not the handle's yet. -/
theorem allocate_keeping {block : Nat → Block} (hblock : ∀ n, (block n).address = n)
    (h : Keeping lost w) : Ensures (allocate block : OnHandle ε (Option Nat)) w (fun r w' =>
      w'.pep = w.pep ∧ Holding (r.toList.map block ++ (w.pep.blocks ++ lost)) w') E :=
  (allocate_along hblock ⟨rfl, rfl, rfl, h⟩).mono fun _ _ hr => ⟨hr.2.pep, hr.2.holding⟩

/-- Now it is. -/
theorem stored_keeping {block : Block} {pep pep' : PepMemory}
    (h : Holding (block :: (pep.blocks ++ lost)) w) (p : (block :: pep.blocks).Perm pep'.blocks) :
    Keeping lost { w with pep := pep' } := by
  have hperm : (block :: (pep.blocks ++ lost)).Perm (pep'.blocks ++ lost) := p.append_right lost
  exact ⟨(h.perm hperm).holds, h.created⟩

/-- The block of a new string. -/
theorem blocks_withString (pep : PepMemory) {name : StringName} (n : Nat)
    (h : pep.strings name = none) :
    (.string name n :: pep.blocks).Perm (pep.withString name (some n)).blocks := by
  have hset : (pep.withString name (some n)).strings name = some n := by
    simp [PepMemory.withString]
  have hperm := blocks_string (pep.withString name (some n)) hset
  have hsame : (pep.withString name (some n)).withString name none = pep := by
    unfold PepMemory.withString
    rw [Function.update_idem, ← h, Function.update_eq_self]
  rw [hsame] at hperm
  exact hperm.symm

/-- What `setString` does with the memory for the new string. -/
theorem setString_stored (name : StringName) (bytes : Bytes) {n : Nat}
    (hnone : w.pep.strings name = none) (h : Holding (.string name n :: (w.pep.blocks ++ lost)) w) : Ensures (do
      change fun pep => pep.withString name (some n)
      note [.accessed (.string name n)]
      store n bytes
      let curlRc ← curlEasySetopt
      if curlRc = CURLE_OK then
        modify fun w => { w with held := Function.update w.held name (some n) }
        attempted name .applied
      else attempted name .refused : OnHandle PepError Unit) w
    (fun _ => Keeping lost) (fun _ => Keeping lost) := by
  have hperm := blocks_withString w.pep n hnone
  have haccessed := (stored_keeping h hperm).accessed (.string name) fun m hm =>
    List.mem_singleton.mp hm ▸ hperm.mem_iff.mp List.mem_cons_self
  refine Ensures.bind (Q := fun _ w' => w' = { w with pep := w.pep.withString name (some n) })
    (Ensures.modify rfl) fun _ w₁ h₁ => ?_
  subst h₁
  refine (Ensures.modify (Q := fun _ => Keeping lost) haccessed).bind fun _ w₂ h₂ => ?_
  have hstored : Keeping lost { w₂ with contents := Function.update w₂.contents n bytes } :=
    ⟨h₂.holds, h₂.created⟩
  refine (Ensures.modify (Q := fun _ => Keeping lost) hstored).bind fun _ w₂ h₂ => ?_
  refine (curlEasySetopt_keeping w₂ h₂).bind fun curlRc w₃ h₃ => ?_
  refine Ensures.ite (fun _ => ?_) fun _ => Ensures.modify ⟨h₃.holds, h₃.created⟩
  exact (Ensures.modify (Q := fun _ => Keeping lost) ⟨h₃.holds, h₃.created⟩).bind
    fun _ w₄ h₄ => Ensures.modify ⟨h₄.holds, h₄.created⟩

theorem setString_keeping (name : StringName) (str : Option CString) :
    Keeps (Keeping lost) (setString name str) := by
  intro w h
  cases str with
  | none => exact Ensures.throw h
  | some str =>
    unfold setString
    refine Ensures.get ?_
    have hold : ∀ n ∈ (w.pep.strings name).toList, Block.string name n ∈ w.pep.blocks := fun n hn =>
      (blocks_string w.pep (Option.mem_toList.mp hn)).mem_iff.mpr List.mem_cons_self
    have haccessed := h.accessed (.string name) hold
    refine (Ensures.modify (Q := fun _ => Keeping lost) haccessed).bind fun _ w₁ h₁ => ?_
    refine (freeString_keeping name h₁).bind fun _ w₂ h₂ => ?_
    obtain ⟨h₂, hpep⟩ := h₂
    refine (allocate_keeping (fun _ => rfl) h₂).bind fun r w₃ h₃ => ?_
    obtain ⟨hsame, h₃⟩ := h₃
    rw [← hsame] at h₃
    cases r with
    | none =>
      exact (Ensures.modify (Q := fun _ => Keeping lost) ⟨h₃.holds, h₃.created⟩).bind
        fun _ _ h => Ensures.throw h
    | some n =>
      refine setString_stored name (str.bytes ++ [0]) ?_ h₃
      rw [hsame, hpep]
      simp [PepMemory.withString]

/-- `pep_setoption` keeps it, for every option. -/
theorem setoption_keeping (option : PepOption) : Keeps (Keeping lost) (setoption option) := by
  have hsetopt : Keeps (Keeping lost) (discard curlEasySetopt : OnHandle PepError Unit) :=
    fun w h => (curlEasySetopt_keeping w h).discard
  cases option with
  | endpointUrl str => exact setString_keeping .endpointUrl str
  | endpointSslCipherList str => exact setString_keeping .sslCipherList str
  | endpointServerCert str => exact setString_keeping .serverCert str
  | endpointServerCapath str => exact setString_keeping .serverCapath str
  | endpointClientCert str => exact setString_keeping .clientCert str
  | endpointClientKey str => exact setString_keeping .clientKey str
  | endpointClientKeypassword str => exact setString_keeping .clientKeypassword str
  | endpointTimeout _ | endpointSslValidation _ | logLevel _ | logStderr _ => exact hsetopt
  | enablePips _ | enableObligationhandlers _ | logHandler _ => exact Keeps.pure ()
  | invalid _ => exact fun w h => Ensures.throw h

/-- A node behind a list. -/
theorem addNode_keeping {f : Nat → PepMemory → PepMemory} {rc : PepError}
    (hf : ∀ n pep, (Block.node n :: pep.blocks).Perm (f n pep).blocks) :
    Keeps (Keeping lost) (do
      match ← allocate .node with
      | none => throw rc
      | some n => change (f n) : OnHandle PepError Unit) := by
  intro w h
  refine (allocate_keeping (fun _ => rfl) h).bind fun r w₁ h₁ => ?_
  obtain ⟨hsame, h₁⟩ := h₁
  rw [← hsame] at h₁
  cases r with
  | none => exact Ensures.throw h₁
  | some n => exact Ensures.modify (stored_keeping h₁ (hf n w₁.pep))

/-- The list is gone to for its last node. -/
theorem look_keeping {α : Type} (list : PepMemory → Option Nat) {m : OnHandle PepError α}
    (hlist : ∀ n pep, list pep = some n → Block.list n ∈ pep.blocks) (hm : Keeps (Keeping lost) m) :
    Keeps (Keeping lost) (do
      note ((list (← get).pep).toList.map fun n => .accessed (.list n))
      m) := by
  intro w h
  refine Ensures.get ?_
  have haccessed : Keeping lost { w with
      events := w.events ++ (list w.pep).toList.map fun n => .accessed (.list n) } :=
    h.accessed .list fun n hn => hlist n w.pep (Option.mem_toList.mp hn)
  exact (Ensures.modify (Q := fun _ => Keeping lost) haccessed).bind fun _ w₁ h₁ => hm w₁ h₁

theorem leaves_keeping (rc : PepError) {α : Type} (w : HandleWorld) (h : Keeping lost w) :
    Ensures (throw rc : OnHandle PepError α) w (fun _ _ => False) fun _ => Keeping lost :=
  Ensures.throw h

theorem addpip_keeping (pip : Option CString) (initRc : Int) :
    Keeps (Keeping lost) (addpip pip initRc) := by
  unfold addpip
  refine Keeps.guard (leaves_keeping .nullPointer) (Keeps.guard (leaves_keeping .pipInit) ?_)
  refine look_keeping PepMemory.pips (fun n pep hn => by simp [PepMemory.blocks, hn]) ?_
  refine addNode_keeping fun n pep => List.perm_iff_count.mpr fun b => ?_
  simp only [PepMemory.blocks, List.map_append, List.map_cons, List.map_nil, List.count_append,
    List.count_cons, List.count_nil]
  omega

theorem addobligationhandler_keeping (oh : Option CString) (initRc : Int) :
    Keeps (Keeping lost) (addobligationhandler oh initRc) := by
  unfold addobligationhandler
  refine Keeps.guard (leaves_keeping .nullPointer) (Keeps.guard (leaves_keeping .ohInit) ?_)
  refine look_keeping PepMemory.ohs (fun n pep hn => by simp [PepMemory.blocks, hn]) ?_
  refine addNode_keeping fun n pep => List.perm_iff_count.mpr fun b => ?_
  simp only [PepMemory.blocks, List.map_append, List.map_cons, List.map_nil, List.count_append,
    List.count_cons, List.count_nil]
  omega

/-- The strings libcurl goes to are the handle's. -/
def HeldLive (reads : List StringName) (w : HandleWorld) : Prop :=
  ∀ name ∈ reads, ∀ n, w.held name = some n → w.pep.strings name = some n

theorem authorize_keeping {keepsStrings : Bool} {reads : List StringName} (h : Keeping lost w)
    (hheld : keepsStrings = true → w.pep.strings .endpointUrl ≠ none → HeldLive reads w) :
    Ensures (authorize keepsStrings reads) w (fun _ => Keeping lost)
      (fun _ => Keeping lost) := by
  unfold authorize
  refine Ensures.get ?_
  cases hurl : w.pep.strings .endpointUrl with
  | none => exact Ensures.throw h
  | some url =>
    have hlists : ∀ n ∈ w.pep.pips.toList ++ w.pep.ohs.toList, Block.list n ∈ w.pep.blocks :=
      fun n hn => by simpa [PepMemory.blocks] using hn
    have hnodes : ∀ n ∈ w.pep.pipNodes ++ w.pep.ohNodes, Block.node n ∈ w.pep.blocks :=
      fun n hn => by simpa [PepMemory.blocks] using hn
    have hcurl : ∀ n ∈ w.pep.curl.toList, Block.curl n ∈ w.pep.blocks :=
      fun n hn => by simpa [PepMemory.blocks] using hn
    have hgone := ((h.accessed .list hlists).accessed .node hnodes).accessed .curl hcurl
    refine (Ensures.modify (Q := fun _ w' => w' = _) rfl).bind fun _ w₁ h₁ => ?_
    refine (Ensures.modify (Q := fun _ w' => w' = _) rfl).bind fun _ w₂ h₂ => ?_
    refine (Ensures.modify (Q := fun _ w' => w' = _) rfl).bind fun _ w₃ h₃ => ?_
    subst h₁ h₂ h₃
    refine Ensures.ite (fun hkeeps => Ensures.modify (hgone.used fun e he => ?_))
      fun _ => Ensures.pure hgone
    obtain ⟨name, hname, he⟩ := List.mem_flatMap.mp he
    obtain ⟨n, hn, rfl⟩ := List.mem_map.mp he
    have hlive := hheld hkeeps (by rw [hurl]; exact Option.some_ne_none url) name hname n
      (Option.mem_toList.mp hn)
    exact ⟨.string name n, (blocks_string w.pep hlive).mem_iff.mpr List.mem_cons_self, rfl⟩

/-- **A call keeps the invariant**, if libcurl goes to no string that is not the handle's. -/
theorem call_keeping {keepsStrings : Bool} (call : HandleCall) (h : Keeping lost w)
    (hheld : ∀ reads, keepsStrings = true → call = .authorize reads →
      w.pep.strings .endpointUrl ≠ none → HeldLive reads w) :
    Keeping lost ((call.run keepsStrings).run w).2 := by
  cases call with
  | setoption option => exact (setoption_keeping option w h).after
  | addpip pip initRc => exact (addpip_keeping pip initRc w h).after
  | addobligationhandler oh initRc => exact (addobligationhandler_keeping oh initRc w h).after
  | authorize reads => exact (authorize_keeping h fun hkeeps => hheld reads hkeeps rfl).after

/-- So does a sequence of calls, with a libcurl that copies the strings. -/
theorem runCalls_keeping (calls : List HandleCall) (h : Keeping lost w) :
    Keeping lost (runCalls false calls w) := by
  induction calls generalizing w with
  | nil => exact h
  | cons call calls ih =>
    exact ih (call_keeping call h fun _ hkeeps => absurd hkeeps Bool.false_ne_true)

/-! ## 7. A handle is destroyed -/

/-- The strings `names` of the handle `pep` are freed. -/
def StringsFreed (lost : List Block) (pep : PepMemory) (names : List StringName)
    (w : HandleWorld) : Prop :=
  Keeping lost w ∧ ∃ strings, w.pep = { pep with strings } ∧ ∀ name ∈ names, strings name = none

theorem freeString_freed {pep : PepMemory} {names : List StringName} (name : StringName)
    (h : StringsFreed lost pep names w) :
    Ensures (freeString name : OnHandle ε Unit) w
      (fun _ => StringsFreed lost pep (names ++ [name])) E := by
  obtain ⟨h, strings, hpep, hnone⟩ := h
  refine (freeString_keeping name h).mono fun _ w' h' => ?_
  refine ⟨h'.1, Function.update strings name none, ?_, fun name' hmem => ?_⟩
  · rw [h'.2, hpep]
    rfl
  · by_cases heq : name' = name
    · rw [heq, Function.update_self]
    · rw [Function.update_of_ne heq]
      refine hnone name' ((List.mem_append.mp hmem).resolve_right fun hlast => ?_)
      exact heq (List.mem_singleton.mp hlast)

theorem freeStrings_keeping (h : Keeping lost w) :
    Ensures (StringName.all.forM freeString : OnHandle ε Unit) w (fun _ w' => Keeping lost w' ∧
      w'.pep = { w.pep with strings := fun _ => none }) E := by
  have hstart : StringsFreed lost w.pep [] w :=
    ⟨h, w.pep.strings, rfl, fun _ h => absurd h List.not_mem_nil⟩
  have hloop := Ensures.forM_through (F := fun _ _ (_ : ε) _ => False) StringName.all
    (fun names name w h => freeString_freed (E := fun _ _ => False) name h) hstart
  refine (hloop.mono fun _ w' h' => ?_).exits fun e w' h' => ?_
  · obtain ⟨h', strings, hpep, hnone⟩ := h'
    have hall : strings = fun _ => none := funext fun name => hnone name name.mem_all
    exact ⟨h', hall ▸ hpep⟩
  · obtain ⟨_, _, _, -, hfalse⟩ := h'
    exact hfalse.elim

/-- The nodes of a list are drained, and the list is freed. -/
theorem deleteList_keeping {pep : PepMemory} {nodes lists : List Nat} (h : Keeping lost w)
    (p : w.pep.blocks.Perm (nodes.map .node ++ (lists.map .list ++ pep.blocks))) :
    Keeping lost { w with
      events := w.events ++ (nodes.flatMap fun n => [.accessed (.node n), .freed (.node n)])
        ++ lists.map fun n => .freed (.list n)
      pep := pep } := by
  have hnodes : Holding
      (nodes.map Block.node ++ (lists.map Block.list ++ (pep.blocks ++ lost))) w := by
    refine h.perm ?_
    rw [← List.append_assoc (lists.map _), ← List.append_assoc (nodes.map _)]
    exact p.append_right lost
  have hlists := hnodes.drained.frees
  rw [List.map_map] at hlists
  exact ⟨hlists.holds, hlists.created⟩

theorem deletePips_keeping (h : Keeping lost w) :
    Ensures (deletePips : OnHandle ε Unit) w (fun _ w' => Keeping lost w' ∧
      w'.pep = { w.pep with pips := none, pipNodes := [] }) E := by
  refine ⟨deleteList_keeping h (List.perm_iff_count.mpr fun b => ?_), rfl⟩
  simp only [PepMemory.blocks, List.map_append, List.map_nil, Option.toList_none,
    List.count_append, List.count_nil]
  omega

theorem deleteOhs_keeping (h : Keeping lost w) :
    Ensures (deleteOhs : OnHandle ε Unit) w (fun _ w' => Keeping lost w' ∧
      w'.pep = { w.pep with ohs := none, ohNodes := [] }) E := by
  refine ⟨deleteList_keeping h (List.perm_iff_count.mpr fun b => ?_), rfl⟩
  simp only [PepMemory.blocks, List.map_append, List.map_nil, Option.toList_none,
    List.count_append, List.count_nil]
  omega

theorem freeHeaders_keeping (h : Keeping lost w) :
    Ensures (freeHeaders : OnHandle ε Unit) w (fun _ w' => Keeping lost w' ∧
      w'.pep = { w.pep with headers := [] }) E := by
  have hfreed := h.freed (w.pep.headers.map .header) (List.perm_iff_count.mpr fun b => by
    show w.pep.blocks.count b = (_ ++ PepMemory.blocks { w.pep with headers := [] }).count b
    simp only [PepMemory.blocks, List.map_nil, List.count_append, List.count_nil]
    omega)
  rw [List.map_map] at hfreed
  exact ⟨hfreed, rfl⟩

theorem curlEasyCleanup_keeping (h : Keeping lost w) :
    Ensures (curlEasyCleanup : OnHandle ε Unit) w (fun _ w' => Keeping lost w' ∧
      w'.pep = { w.pep with curl := none }) E := by
  have hfreed := h.freed (w.pep.curl.toList.map .curl) (List.perm_iff_count.mpr fun b => by
    show w.pep.blocks.count b = (_ ++ PepMemory.blocks { w.pep with curl := none }).count b
    simp only [PepMemory.blocks, List.map_nil, Option.toList_none, List.count_append,
      List.count_nil]
    omega)
  rw [List.map_map] at hfreed
  exact ⟨hfreed, rfl⟩

/-- **The destroyed handle leaves what was lost before, and nothing else.** -/
theorem pepDestroy_memory (h : Keeping lost w) :
    Ensures (pepDestroy : OnHandle ε Unit) w (fun _ => Holding lost) E := by
  unfold pepDestroy
  refine (freeHeaders_keeping h).bind fun _ w₁ h₁ => ?_
  obtain ⟨h₁, hpep₁⟩ := h₁
  refine (curlEasyCleanup_keeping h₁).bind fun _ w₂ h₂ => ?_
  obtain ⟨h₂, hpep₂⟩ := h₂
  refine (freeStrings_keeping h₂).bind fun _ w₃ h₃ => ?_
  obtain ⟨h₃, hpep₃⟩ := h₃
  refine (deletePips_keeping h₃).bind fun _ w₄ h₄ => ?_
  obtain ⟨h₄, hpep₄⟩ := h₄
  refine (deleteOhs_keeping h₄).bind fun _ w₅ h₅ => ?_
  obtain ⟨h₅, hpep₅⟩ := h₅
  have hpep : w₅.pep.blocks = w₅.pep.handle.toList.map .handle := by
    rw [hpep₅, hpep₄, hpep₃, hpep₂, hpep₁]
    simp [PepMemory.blocks]
  have hlast : Holding (w₅.pep.handle.toList.map .handle ++ lost) w₅ := hpep ▸ h₅
  have hfreed := hlast.frees
  rw [List.map_map] at hfreed
  exact ⟨hfreed.holds, hfreed.created⟩

end Using

/-- **A handle and its memory, whatever fails**, with a libcurl that copies its strings. Nothing is
    freed twice or gone to once it is freed, and what is never freed are header nodes. There are some
    exactly if the second `curl_slist_append` fails behind the first, or one of the lists cannot be
    made. -/
theorem handleLife_memory (granted : Nat → Bool) (answers : Nat → CurlCode)
    (calls : List HandleCall) : ∃ lost : List Nat,
    Holds ((handleLife false calls (.start granted answers)).events.map MemoryEvent.act)
      (lost.map .header) ∧ (lost ≠ [] ↔ Leaks granted) := by
  have hmade := pepInitialize_memory granted answers
  unfold Ensures at hmade
  unfold handleLife
  rcases hrun : pepInitialize.run (HandleWorld.start granted answers) with ⟨e | a, w⟩ <;>
    rw [hrun] at hmade <;> obtain ⟨lost, h, hlost⟩ := hmade
  · exact ⟨lost, h.holds, hlost⟩
  · have hused := runCalls_keeping calls h
    have hdestroyed := (pepDestroy_memory (ε := Unit) (E := fun _ => Holding (lost.map .header))
      hused).after
    exact ⟨lost, hdestroyed.holds, hlost⟩

end ArgusPep.HandleMemory
