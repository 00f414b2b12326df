/-
  File:      ArgusPep/Argus/Options.lean
  Subject:   `pep_setoption` of argus/pep.c, with the `set_curl_..` functions it calls and every
             message it logs.

  A call is a program over `OptionWorld`: the handle, the logger, the messages logged so far, the
  allocator, and libcurl, which answers each `curl_easy_setopt` from `answers` (CURLE_OK once they
  are used up) and keeps its old value where it does not answer CURLE_OK.

  * `setCurlString` -- what the `set_curl_..` functions of the string options have in common;
  * `copyString` -- what the options with a string argument have in common;
  * `pepSetoption`, `runOptions` -- one call, and a sequence of calls.

  One message has fewer arguments than conversions (`logErrorUnmatched`): a call that makes somebody
  format it is `faulted` from there on.

  The strings `curl_easy_strerror` returns are the parameter `strerror`. The handle is not NULL.
-/
import ArgusPep.Argus.Pep
import ArgusPep.Util.Log

namespace ArgusPep

open Lib

/-! ## 1. The world -/

/-- The options of the handle. -/
structure PepOptions where
  id : Int
  endpointUrl : Option CString
  loglevel : Int
  logout : Option Nat
  timeout : Int
  serverCert : Option CString
  serverCapath : Option CString
  clientCert : Option CString
  clientKey : Option CString
  clientKeypassword : Option CString
  sslValidation : Bool
  sslCipherList : Option CString
  pipsEnabled : Bool
  ohsEnabled : Bool

/-- `init_pep_defaults`. -/
def PepOptions.defaults (id : Int) : PepOptions where
  id := id
  endpointUrl := none
  loglevel := LOG_LEVEL_NONE
  logout := none
  timeout := 30
  serverCert := none
  serverCapath := none
  clientCert := none
  clientKey := none
  clientKeypassword := none
  sslValidation := true
  sslCipherList := none
  pipsEnabled := true
  ohsEnabled := true

/-- An option of libcurl with its value. -/
inductive CurlSetting where
  | url (value : Option CString)
  | timeout (value : Int)
  | sslVerifypeer (value : Bool)
  | sslCipherList (value : Option CString)
  | cainfo (value : Option CString)
  | capath (value : Option CString)
  | sslcert (value : Option CString)
  | sslkey (value : Option CString)
  | sslkeypasswd (value : Option CString)
  | verbose (value : Bool)
  | stderr (value : Option Nat)

/-- What libcurl holds for them. -/
structure CurlSettings where
  url : Option CString
  timeout : Int
  sslVerifypeer : Bool
  sslCipherList : Option CString
  cainfo : Option CString
  capath : Option CString
  sslcert : Option CString
  sslkey : Option CString
  sslkeypasswd : Option CString
  verbose : Bool
  stderr : Option Nat

def CurlSettings.set (curl : CurlSettings) : CurlSetting → CurlSettings
  | .url value => { curl with url := value }
  | .timeout value => { curl with timeout := value }
  | .sslVerifypeer value => { curl with sslVerifypeer := value }
  | .sslCipherList value => { curl with sslCipherList := value }
  | .cainfo value => { curl with cainfo := value }
  | .capath value => { curl with capath := value }
  | .sslcert value => { curl with sslcert := value }
  | .sslkey value => { curl with sslkey := value }
  | .sslkeypasswd value => { curl with sslkeypasswd := value }
  | .verbose value => { curl with verbose := value }
  | .stderr value => { curl with stderr := value }

/-- `pep_option_t` with the argument behind it. -/
inductive PepOption where
  | logLevel (value : Int)
  | logStderr (file : Option Nat)
  | logHandler (handler : Option Nat)
  | endpointUrl (str : Option CString)
  | endpointSslValidation (value : Int)
  | endpointServerCert (str : Option CString)
  | endpointServerCapath (str : Option CString)
  | endpointClientCert (str : Option CString)
  | endpointClientKey (str : Option CString)
  | endpointClientKeypassword (str : Option CString)
  | endpointTimeout (value : Int)
  | enablePips (value : Int)
  | enableObligationhandlers (value : Int)
  | endpointSslCipherList (str : Option CString)
  /-- A number that is no option. -/
  | invalid (option : Int)
deriving DecidableEq

structure OptionWorld where
  pep : PepOptions
  logger : Logger
  messages : List LogMessage
  mem : Mem
  curl : CurlSettings
  /-- What the next calls of `curl_easy_setopt` return. -/
  answers : List CurlCode
  /-- Something undefined was done. -/
  faulted : Bool

abbrev SetOption := Exits PepError OptionWorld

namespace SetOption

/-- Reads a field of the handle. -/
def gets {α : Type} (field : PepOptions → α) : SetOption α := modifyGet fun w => (field w.pep, w)

/-- Changes the handle. -/
def change (f : PepOptions → PepOptions) : SetOption Unit := modify fun w => { w with pep := f w.pep }

def log (level : LogLevel) (format : String) (args : List LogArg) : SetOption Unit :=
  modify fun w => { w with messages := w.messages ++ w.logger.message level format args }

def logError (format : String) (args : List LogArg) : SetOption Unit :=
  log LOG_LEVEL_ERROR format args

def logDebug (format : String) (args : List LogArg) : SetOption Unit :=
  log LOG_LEVEL_DEBUG format args

/-- `log_error` with fewer arguments than its format has conversions: whoever formats the message
    reads arguments that are not there. -/
def logErrorUnmatched (format : String) (args : List LogArg) : SetOption Unit :=
  modify fun w =>
    { w with messages := w.messages ++ w.logger.message LOG_LEVEL_ERROR format args
             faulted := w.faulted || w.logger.emits LOG_LEVEL_ERROR }

/-- `calloc(n,1)`: is there a block? -/
def calloc (n : Nat) : SetOption Bool :=
  modifyGet fun w => (w.mem.grants n, { w with mem := w.mem.after n })

def curlEasySetopt (setting : CurlSetting) : SetOption CurlCode := modifyGet fun w =>
  let rc := w.answers.headD CURLE_OK
  (rc, { w with curl := if rc = CURLE_OK then w.curl.set setting else w.curl,
                answers := w.answers.tail })

section Functions

variable (strerror : CurlCode → CString)

/-! ## 2. Setting libcurl -/

/-- `curl_easy_setopt`, with the message for a failure; 1 for a failure. -/
def setoptOrLog (setting : CurlSetting) (format : String) (args : List LogArg) : SetOption Int := do
  let curlRc ← curlEasySetopt setting
  if curlRc ≠ CURLE_OK then
    logError format (args ++ [.str (some (strerror curlRc))])
    pure 1
  else pure 0

/-- The `set_curl_..` function of a string: `name` is its field, `option` the constant of libcurl.
    NULL is logged and not set. -/
def setCurlString (function name option : String) (field : PepOptions → Option CString)
    (setting : Option CString → CurlSetting) : SetOption Int := do
  let id ← gets PepOptions.id
  let value ← gets field
  logDebug (function ++ ": PEP#%d " ++ name ++ ": %s") [.int id, .str value]
  if value.isSome then
    setoptOrLog strerror (setting value)
      (function ++ ": PEP#%d curl_easy_setopt(curl," ++ option ++ ",%s) failed: %s")
      [.int id, .str value]
  else pure 0

/-- The URL is set without a look at NULL. -/
def setCurlEndpointUrl : SetOption Int := do
  let id ← gets PepOptions.id
  let url ← gets PepOptions.endpointUrl
  logDebug "set_curl_endpoint_url: PEP#%d option_endpoint_url: %s" [.int id, .str url]
  setoptOrLog strerror (.url url)
    "set_curl_endpoint_url: PEP#%d curl_easy_setopt(curl,CURLOPT_URL,%s) failed: %s."
    [.int id, .str url]

def setCurlConnectionTimeout : SetOption Int := do
  let id ← gets PepOptions.id
  let timeout ← gets PepOptions.timeout
  logDebug "set_curl_connection_timeout: PEP#%d option_timeout: %d" [.int id, .int timeout]
  setoptOrLog strerror (.timeout timeout)
    "set_curl_connection_timeout: PEP#%d curl_easy_setopt(curl,CURLOPT_TIMEOUT,%d) failed: %s"
    [.int id, .int timeout]

/-- `TRUE` or `FALSE`, as text. -/
def truth (b : Bool) : LogArg := .str (some (CString.lit (if b then "TRUE" else "FALSE")))

/-- The message for a failure is called without the id its format starts with: two arguments for
    three conversions. -/
def setCurlSslValidation : SetOption Int := do
  let id ← gets PepOptions.id
  let validation ← gets PepOptions.sslValidation
  logDebug "set_curl_ssl_validation: PEP#%d option_ssl_validation: %s" [.int id, truth validation]
  let curlRc ← curlEasySetopt (.sslVerifypeer validation)
  if curlRc ≠ CURLE_OK then
    logErrorUnmatched
      "set_curl_ssl_validation: PEP#%d curl_easy_setopt(curl,CURLOPT_SSL_VERIFYPEER,%d) failed: %s"
      [.int (if validation then 1 else 0), .str (some (strerror curlRc))]
    pure 1
  else pure 0

def setCurlSslCipherList : SetOption Int :=
  setCurlString strerror "set_curl_ssl_cipher_list" "option_ssl_cipher_list"
    "CURLOPT_SSL_CIPHER_LIST" PepOptions.sslCipherList .sslCipherList

def setCurlServerCert : SetOption Int :=
  setCurlString strerror "set_curl_server_cert" "option_server_cert" "CURLOPT_CAINFO"
    PepOptions.serverCert .cainfo

def setCurlServerCapath : SetOption Int :=
  setCurlString strerror "set_curl_server_capath" "option_server_capath" "CURLOPT_CAPATH"
    PepOptions.serverCapath .capath

def setCurlClientCert : SetOption Int :=
  setCurlString strerror "set_curl_client_cert" "option_client_cert" "CURLOPT_SSLCERT"
    PepOptions.clientCert .sslcert

def setCurlClientKey : SetOption Int :=
  setCurlString strerror "set_curl_client_key" "option_client_key" "CURLOPT_SSLKEY"
    PepOptions.clientKey .sslkey

/-- The length of the password is logged; where libcurl refuses it, the password itself. -/
def setCurlClientKeypassword : SetOption Int := do
  let id ← gets PepOptions.id
  match ← gets PepOptions.clientKeypassword with
  | none => pure 0
  | some password =>
    logDebug "set_curl_client_keypassword: PEP#%d option_client_keypassword: %d char long"
      [.int id, .int password.bytes.length]
    setoptOrLog strerror (.sslkeypasswd (some password))
      "set_curl_client_keypassword: PEP#%d curl_easy_setopt(curl,CURLOPT_SSLKEYPASSWD,%s) failed: %s"
      [.int id, .str (some password)]

def setCurlVerbose : SetOption Int := do
  let id ← gets PepOptions.id
  let loglevel ← gets PepOptions.loglevel
  logDebug "set_curl_verbose: PEP#%d option_loglevel: %d" [.int id, .int loglevel]
  let enabled := decide (LOG_LEVEL_DEBUG ≤ loglevel)
  setoptOrLog strerror (.verbose enabled)
    "set_curl_verbose: PEP#%d curl_easy_setopt(curl,CURLOPT_VERBOSE,%d) failed: %s"
    [.int id, .int (if enabled then 1 else 0)]

def setCurlStderr : SetOption Int := do
  let id ← gets PepOptions.id
  let logout ← gets PepOptions.logout
  logDebug "set_curl_stderr: PEP#%d option_logout: %p" [.int id, .ptr logout]
  setoptOrLog strerror (.stderr logout)
    "set_curl_stderr: PEP#%d curl_easy_setopt(curl,CURLOPT_STDERR,%p) failed: %s"
    [.int id, .ptr logout]

/-! ## 3. The options -/

/-- A string option of the handle, by the names its messages use. -/
structure StringOption where
  constant : String
  name : String
  get : PepOptions → Option CString
  set : Option CString → PepOptions → PepOptions

def endpointUrl : StringOption where
  constant := "PEP_OPTION_ENDPOINT_URL"
  name := "option_endpoint_url"
  get := PepOptions.endpointUrl
  set str pep := { pep with endpointUrl := str }

def endpointSslCipherList : StringOption where
  constant := "PEP_OPTION_ENDPOINT_SSL_CIPHER_LIST"
  name := "option_ssl_cipher_list"
  get := PepOptions.sslCipherList
  set str pep := { pep with sslCipherList := str }

def endpointServerCert : StringOption where
  constant := "PEP_OPTION_ENDPOINT_SERVER_CERT"
  name := "option_server_cert"
  get := PepOptions.serverCert
  set str pep := { pep with serverCert := str }

def endpointServerCapath : StringOption where
  constant := "PEP_OPTION_ENDPOINT_SERVER_CAPATH"
  name := "option_server_capath"
  get := PepOptions.serverCapath
  set str pep := { pep with serverCapath := str }

def endpointClientCert : StringOption where
  constant := "PEP_OPTION_ENDPOINT_CLIENT_CERT"
  name := "option_client_cert"
  get := PepOptions.clientCert
  set str pep := { pep with clientCert := str }

def endpointClientKey : StringOption where
  constant := "PEP_OPTION_ENDPOINT_CLIENT_KEY"
  name := "option_client_key"
  get := PepOptions.clientKey
  set str pep := { pep with clientKey := str }

def endpointClientKeypassword : StringOption where
  constant := "PEP_OPTION_ENDPOINT_CLIENT_KEYPASSWORD"
  name := "option_client_keypassword"
  get := PepOptions.clientKeypassword
  set str pep := { pep with clientKeypassword := str }

/-- The argument in new memory, in place of the old value. `copied` logs what was copied. -/
def copyString (option : StringOption) (str : Option CString) (copied : CString → SetOption Unit) :
    SetOption Unit := do
  let id ← gets PepOptions.id
  match str with
  | none =>
    logError ("pep_setoption: PEP#%d " ++ option.constant ++ " argument is NULL.") [.int id]
    throw .optionInvalid
  | some str =>
    let old ← gets option.get
    if old.isSome then
      logDebug ("pep_setoption: PEP#%d " ++ option.name ++ " already set to '%s', freeing...")
        [.int id, .str old]
    if ← calloc (str.bytes.length + 1) then
      change (option.set (some str))
      copied str
    else
      change (option.set none)
      logError ("pep_setoption: PEP#%d can't allocate " ++ option.name ++ ": %s.")
        [.int id, .str (some str)]
      throw .memory

/-- An option that logs its value, and what it then sets in libcurl. -/
def setString (option : StringOption) (setCurl : SetOption Int) (str : Option CString) :
    SetOption Unit := do
  copyString option str fun str => do
    logDebug ("pep_setoption: PEP#%d " ++ option.constant ++ ": %s")
      [.int (← gets PepOptions.id), .str (some str)]
  discard setCurl

def setEndpointUrl := setString endpointUrl (setCurlEndpointUrl strerror)
def setSslCipherList := setString endpointSslCipherList (setCurlSslCipherList strerror)
def setServerCert := setString endpointServerCert (setCurlServerCert strerror)
def setServerCapath := setString endpointServerCapath (setCurlServerCapath strerror)
def setClientCert := setString endpointClientCert (setCurlClientCert strerror)
def setClientKey := setString endpointClientKey (setCurlClientKey strerror)

/-- The password is copied like the other strings; its length is logged. -/
def setClientKeypassword (str : Option CString) : SetOption Unit := do
  copyString endpointClientKeypassword str fun str => do
    logDebug "pep_setoption: PEP#%d PEP_OPTION_ENDPOINT_CLIENT_KEYPASSWORD: %d char long"
      [.int (← gets PepOptions.id), .int str.bytes.length]
  discard (setCurlClientKeypassword strerror)

def setTimeout (value : Int) : SetOption Unit := do
  if 0 < value then
    change fun pep => { pep with timeout := value }
  logDebug "pep_setoption: PEP#%d PEP_OPTION_ENDPOINT_TIMEOUT: %d"
    [.int (← gets PepOptions.id), .int (← gets PepOptions.timeout)]
  discard (setCurlConnectionTimeout strerror)

def setSslValidation (value : Int) : SetOption Unit := do
  change fun pep => { pep with sslValidation := decide (value = 1) }
  logDebug "pep_setoption: PEP#%d PEP_OPTION_ENDPOINT_SSL_VALIDATION: %s"
    [.int (← gets PepOptions.id), truth (← gets PepOptions.sslValidation)]
  discard (setCurlSslValidation strerror)

def setEnablePips (value : Int) : SetOption Unit := do
  change fun pep => { pep with pipsEnabled := decide (value = 1) }
  logDebug "pep_setoption: PEP#%d PEP_OPTION_ENABLE_PIPS: %s"
    [.int (← gets PepOptions.id), truth (← gets PepOptions.pipsEnabled)]

def setEnableObligationhandlers (value : Int) : SetOption Unit := do
  change fun pep => { pep with ohsEnabled := decide (value = 1) }
  logDebug "pep_setoption: PEP#%d PEP_OPTION_ENABLE_OBLIGATIONHANDLERS: %s"
    [.int (← gets PepOptions.id), truth (← gets PepOptions.ohsEnabled)]

/-- `log_setlevel`, `log_setout` and `log_sethandler`. -/
def setLogger (f : Logger → Logger) : SetOption Unit :=
  modify fun w => { w with logger := f w.logger }

def setLogLevel (value : Int) : SetOption Unit := do
  if LOG_LEVEL_NONE ≤ value ∧ value ≤ LOG_LEVEL_DEBUG then
    change fun pep => { pep with loglevel := value }
    setLogger fun logger => { logger with level := value }
  logDebug "pep_setoption: PEP#%d PEP_OPTION_LOG_LEVEL: %d"
    [.int (← gets PepOptions.id), .int (← gets PepOptions.loglevel)]
  discard (setCurlVerbose strerror)

def setLogStderr (file : Option Nat) : SetOption Unit := do
  change fun pep => { pep with logout := file }
  setLogger fun logger => { logger with out := file }
  logDebug "pep_setoption: PEP#%d PEP_OPTION_LOG_STDERR: %p"
    [.int (← gets PepOptions.id), .ptr (← gets PepOptions.logout)]
  discard (setCurlStderr strerror)

def setLogHandler (handler : Option Nat) : SetOption Unit := do
  setLogger fun logger => { logger with handler := handler.map .callback }
  logDebug "pep_setoption: PEP_OPTION_LOG_HANDLER: %p" [.ptr handler]

def setoption : PepOption → SetOption Unit
  | .endpointUrl str => setEndpointUrl strerror str
  | .endpointTimeout value => setTimeout strerror value
  | .endpointSslValidation value => setSslValidation strerror value
  | .endpointSslCipherList str => setSslCipherList strerror str
  | .endpointServerCert str => setServerCert strerror str
  | .endpointServerCapath str => setServerCapath strerror str
  | .endpointClientCert str => setClientCert strerror str
  | .endpointClientKey str => setClientKey strerror str
  | .endpointClientKeypassword str => setClientKeypassword strerror str
  | .enablePips value => setEnablePips value
  | .enableObligationhandlers value => setEnableObligationhandlers value
  | .logLevel value => setLogLevel strerror value
  | .logStderr file => setLogStderr strerror file
  | .logHandler handler => setLogHandler handler
  | .invalid option => do
    logError "pep_setoption: PEP#%d invalid option: %d" [.int (← gets PepOptions.id), .int option]
    throw .optionInvalid

end Functions

end SetOption

/-- `pep_setoption`: its code, and the world after it. -/
def pepSetoption (strerror : CurlCode → CString) (option : PepOption) (w : OptionWorld) :
    PepError × OptionWorld :=
  match (SetOption.setoption strerror option).run w with
  | (.ok _, t) => (.ok, t)
  | (.error rc, t) => (rc, t)

/-- A sequence of calls. -/
def runOptions (strerror : CurlCode → CString) (options : List PepOption) (w : OptionWorld) :
    OptionWorld :=
  options.foldl (fun w option => (pepSetoption strerror option w).2) w

/-- A handle of `pep_initialize` whose curl handle holds `curl`, in a program that has set
    nothing. -/
def OptionWorld.initial (id : Int) (mem : Mem) (curl : CurlSettings) (answers : List CurlCode) :
    OptionWorld := ⟨.defaults id, .initial, [], mem, curl, answers, false⟩

/-! ## 4. Running them -/

namespace SetOption

section Run

variable {α : Type} (f : Unit → SetOption α) (w : OptionWorld)

@[simp] theorem run_gets {β : Type} (field : PepOptions → β) (f : β → SetOption α) :
    (gets field >>= f).run w = (f (field w.pep)).run w := rfl

@[simp] theorem run_change (g : PepOptions → PepOptions) :
    (change g >>= f).run w = (f ()).run { w with pep := g w.pep } := rfl

@[simp] theorem run_log (level : LogLevel) (format : String) (args : List LogArg) :
    (log level format args).run w =
      (.ok (), { w with messages := w.messages ++ w.logger.message level format args }) := rfl

@[simp] theorem run_logDebug (format : String) (args : List LogArg) :
    (logDebug format args >>= f).run w = (f ()).run
      { w with messages := w.messages ++ w.logger.message LOG_LEVEL_DEBUG format args } := rfl

@[simp] theorem run_logError (format : String) (args : List LogArg) :
    (logError format args >>= f).run w = (f ()).run
      { w with messages := w.messages ++ w.logger.message LOG_LEVEL_ERROR format args } := rfl

@[simp] theorem run_logErrorUnmatched (format : String) (args : List LogArg) :
    (logErrorUnmatched format args >>= f).run w = (f ()).run
      { w with
        messages := w.messages ++ w.logger.message LOG_LEVEL_ERROR format args
        faulted := w.faulted || w.logger.emits LOG_LEVEL_ERROR } := rfl

@[simp] theorem run_calloc (n : Nat) (f : Bool → SetOption α) :
    (calloc n >>= f).run w = (f (w.mem.grants n)).run { w with mem := w.mem.after n } := rfl

@[simp] theorem run_curlEasySetopt (setting : CurlSetting) (f : CurlCode → SetOption α) :
    (curlEasySetopt setting >>= f).run w = (f (w.answers.headD CURLE_OK)).run
      { w with
        curl := if w.answers.headD CURLE_OK = CURLE_OK then w.curl.set setting else w.curl
        answers := w.answers.tail } := rfl

end Run

/-- The message for an old value. -/
def alreadySet (option : StringOption) (w : OptionWorld) : List LogMessage :=
  (option.get w.pep).toList.flatMap fun old => w.logger.message LOG_LEVEL_DEBUG
    ("pep_setoption: PEP#%d " ++ option.name ++ " already set to '%s', freeing...")
    [.int w.pep.id, .str (some old)]

theorem run_copyString_granted {option : StringOption} {copied : CString → SetOption Unit}
    {str : CString} {w : OptionWorld} (h : w.mem.grants (str.bytes.length + 1) = true) :
    (copyString option (some str) copied).run w = (copied str).run
      { w with
        pep := option.set (some str) w.pep
        messages := w.messages ++ alreadySet option w
        mem := w.mem.after (str.bytes.length + 1) } := by
  unfold copyString alreadySet
  rw [run_gets]
  dsimp only
  rw [run_gets]
  rcases option.get w.pep with _ | old
  · simp [h]
  · simp [h]

theorem run_copyString_denied {option : StringOption} {copied : CString → SetOption Unit}
    {str : CString} {w : OptionWorld} (h : w.mem.grants (str.bytes.length + 1) = false) :
    (copyString option (some str) copied).run w = (.error .memory,
      { w with
        pep := option.set none w.pep
        messages := w.messages ++ alreadySet option w ++ w.logger.message LOG_LEVEL_ERROR
          ("pep_setoption: PEP#%d can't allocate " ++ option.name ++ ": %s.")
          [.int w.pep.id, .str (some str)]
        mem := w.mem.after (str.bytes.length + 1) }) := by
  unfold copyString alreadySet
  rw [run_gets]
  dsimp only
  rw [run_gets]
  rcases option.get w.pep with _ | old
  · simp [h]
  · simp [h]

/-- `setoptOrLog` never leaves early; it logs a refusal. -/
theorem run_setoptOrLog (strerror : CurlCode → CString) (setting : CurlSetting) (format : String)
    (args : List LogArg) (w : OptionWorld) :
    ∃ rc, (setoptOrLog strerror setting format args).run w = (.ok rc,
      { w with
        messages := w.messages ++
          if w.answers.headD CURLE_OK = CURLE_OK then []
          else w.logger.message LOG_LEVEL_ERROR format
            (args ++ [.str (some (strerror (w.answers.headD CURLE_OK)))])
        curl := if w.answers.headD CURLE_OK = CURLE_OK then w.curl.set setting else w.curl
        answers := w.answers.tail }) := by
  unfold setoptOrLog
  rw [run_curlEasySetopt]
  by_cases h : w.answers.headD CURLE_OK = CURLE_OK
  · refine ⟨0, ?_⟩
    rw [if_neg (fun hne => hne h), if_pos h, if_pos h, List.append_nil]
    rfl
  · refine ⟨1, ?_⟩
    rw [if_pos h, if_neg h, if_neg h, run_logError]
    rfl

end SetOption

end ArgusPep
