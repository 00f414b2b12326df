/-
  File:      ArgusPep/Argus/Secrecy.lean
  Subject:   What the log tells about the client key password: two runs of `pep_setoption` whose
             passwords have the same lengths.

  * `Disguised P` -- two worlds that differ in the password only, with passwords in the relation
    `P`; `Delayed` -- two worlds that differ in the messages logged before;
  * `Respected` -- a relation that no primitive of the model tells apart; it goes through every
    option but the password (`Respected.setoption`), and both relations have it;
  * `passwordMessages` -- what setting the password logs: the old password where there is one, the
    new one where an allocation or libcurl fails;
  * `Discreet` -- a call that logs neither, and formats no message whose arguments are missing;
  * `pepSetoption_faulted_iff` -- the calls that do something undefined;
  * **`log_hidesPassword_iff`** -- the log of a run is the same for all passwords of these lengths,
    and nothing undefined is done, exactly if every call is discreet.
-/
import ArgusPep.Argus.Options

namespace ArgusPep

open Lib SetOption

variable {strerror : CurlCode → CString}

/-! ## 1. Relations the options respect -/

/-- The handle with another password. -/
def PepOptions.withPassword (pep : PepOptions) (str : Option CString) : PepOptions :=
  { pep with clientKeypassword := str }

/-- libcurl with another password. -/
def CurlSettings.withPassword (curl : CurlSettings) (str : Option CString) : CurlSettings :=
  { curl with sslkeypasswd := str }

/-- No primitive tells two related worlds apart, as long as it keeps away from the password. The
    message with too few arguments is asked for where it is logged. -/
structure Respected (R : OptionWorld → OptionWorld → Prop) : Prop where
  gets : ∀ {α : Type} (field : PepOptions → α),
    (∀ pep str, field (pep.withPassword str) = field pep) → Blind R (gets field)
  change : ∀ f : PepOptions → PepOptions,
    (∀ pep str, f (pep.withPassword str) = (f pep).withPassword str) → Blind R (change f)
  log : ∀ level format args, Blind R (log level format args)
  calloc : ∀ n, Blind R (SetOption.calloc n)
  curlEasySetopt : ∀ setting, Blind R (curlEasySetopt setting)
  setLogger : ∀ f, Blind R (setLogger f)

namespace Respected

variable {R : OptionWorld → OptionWorld → Prop} (hR : Respected R)

include hR

theorem logDebug (format : String) (args : List LogArg) : Blind R (SetOption.logDebug format args) :=
  hR.log _ _ _

theorem logError (format : String) (args : List LogArg) : Blind R (SetOption.logError format args) :=
  hR.log _ _ _

theorem handleId : Blind R (SetOption.gets PepOptions.id) := hR.gets _ fun _ _ => rfl

theorem setoptOrLog (setting : CurlSetting) (format : String) (args : List LogArg) :
    Blind R (SetOption.setoptOrLog strerror setting format args) :=
  (hR.curlEasySetopt setting).bind fun _ =>
    .ite ((hR.logError _ _).bind fun _ => .pure _) (.pure _)

/-- A handle's id and a field of it, logged before libcurl is called. -/
theorem logged {α : Type} {field : PepOptions → α}
    (hfield : ∀ pep str, field (pep.withPassword str) = field pep)
    {format : String} {args : Int → α → List LogArg} {rest : Int → α → SetOption Int}
    (hrest : ∀ id a, Blind R (rest id a)) :
    Blind R (do
      let id ← SetOption.gets PepOptions.id
      let value ← SetOption.gets field
      SetOption.logDebug format (args id value)
      rest id value) :=
  hR.handleId.bind fun id => (hR.gets _ hfield).bind fun a =>
    (hR.logDebug _ _).bind fun _ => hrest id a

theorem setCurlString (function name option : String) {field : PepOptions → Option CString}
    (hfield : ∀ pep str, field (pep.withPassword str) = field pep)
    (setting : Option CString → CurlSetting) :
    Blind R (SetOption.setCurlString strerror function name option field setting) :=
  hR.logged hfield fun _ _ => .ite (hR.setoptOrLog _ _ _) (.pure _)

theorem setCurlEndpointUrl : Blind R (SetOption.setCurlEndpointUrl strerror) :=
  hR.logged (fun _ _ => rfl) fun _ _ => hR.setoptOrLog _ _ _

theorem setCurlConnectionTimeout : Blind R (SetOption.setCurlConnectionTimeout strerror) :=
  hR.logged (fun _ _ => rfl) fun _ _ => hR.setoptOrLog _ _ _

theorem setCurlSslValidation
    (hlog : ∀ format args, Blind R (SetOption.logErrorUnmatched format args)) :
    Blind R (SetOption.setCurlSslValidation strerror) :=
  hR.logged (fun _ _ => rfl) fun _ _ => (hR.curlEasySetopt _).bind fun _ =>
    .ite ((hlog _ _).bind fun _ => .pure _) (.pure _)

theorem setCurlVerbose : Blind R (SetOption.setCurlVerbose strerror) :=
  hR.logged (fun _ _ => rfl) fun _ _ => hR.setoptOrLog _ _ _

theorem setCurlStderr : Blind R (SetOption.setCurlStderr strerror) :=
  hR.logged (fun _ _ => rfl) fun _ _ => hR.setoptOrLog _ _ _

/-- A string option that is not the password. -/
theorem setString {option : StringOption} {setCurl : SetOption Int}
    (hget : ∀ pep str, option.get (pep.withPassword str) = option.get pep)
    (hset : ∀ value pep str,
      option.set value (pep.withPassword str) = (option.set value pep).withPassword str)
    (hcurl : Blind R setCurl) (str : Option CString) :
    Blind R (SetOption.setString option setCurl str) := by
  refine Blind.bind (hR.handleId.bind fun id => ?_) fun _ => hcurl.bind fun _ => .pure _
  rcases str with _ | str
  · exact (hR.logError _ _).bind fun _ => .throw _
  · have hcopy : Blind R (do
        if ← SetOption.calloc (str.bytes.length + 1) then
          SetOption.change (option.set (some str))
          SetOption.logDebug ("pep_setoption: PEP#%d " ++ option.constant ++ ": %s")
            [.int (← SetOption.gets PepOptions.id), .str (some str)]
        else
          SetOption.change (option.set none)
          SetOption.logError ("pep_setoption: PEP#%d can't allocate " ++ option.name ++ ": %s.")
            [.int id, .str (some str)]
          throw .memory) :=
      (hR.calloc _).bind fun _ => .ite
        ((hR.change _ (hset _)).bind fun _ => hR.handleId.bind fun _ => hR.logDebug _ _)
        ((hR.change _ (hset _)).bind fun _ => (hR.logError _ _).bind fun _ => .throw _)
    exact (hR.gets _ hget).bind fun _ => .ite ((hR.logDebug _ _).bind fun _ => hcopy) hcopy

/-- What comes behind a change of the handle or of the logger: a field is logged, then libcurl is
    called. -/
theorem report {α : Type} {field : PepOptions → α} {setCurl : SetOption Int}
    (hfield : ∀ pep str, field (pep.withPassword str) = field pep)
    {format : String} {arg : α → LogArg} (hcurl : Blind R setCurl) :
    Blind R (do
      SetOption.logDebug format
        [.int (← SetOption.gets PepOptions.id), arg (← SetOption.gets field)]
      discard setCurl) :=
  hR.handleId.bind fun _ => (hR.gets _ hfield).bind fun _ =>
    (hR.logDebug _ _).bind fun _ => hcurl.bind fun _ => .pure _

theorem setTimeout (value : Int) : Blind R (SetOption.setTimeout strerror value) :=
  .ite ((hR.change _ fun _ _ => rfl).bind fun _ =>
      hR.report (fun _ _ => rfl) hR.setCurlConnectionTimeout)
    (hR.report (fun _ _ => rfl) hR.setCurlConnectionTimeout)

theorem setSslValidation (value : Int)
    (hlog : ∀ format args, Blind R (SetOption.logErrorUnmatched format args)) :
    Blind R (SetOption.setSslValidation strerror value) :=
  (hR.change _ fun _ _ => rfl).bind fun _ =>
    hR.report (fun _ _ => rfl) (hR.setCurlSslValidation hlog)

theorem setEnablePips (value : Int) : Blind R (SetOption.setEnablePips value) :=
  (hR.change _ fun _ _ => rfl).bind fun _ => hR.handleId.bind fun _ =>
    (hR.gets _ fun _ _ => rfl).bind fun _ => hR.logDebug _ _

theorem setEnableObligationhandlers (value : Int) :
    Blind R (SetOption.setEnableObligationhandlers value) :=
  (hR.change _ fun _ _ => rfl).bind fun _ => hR.handleId.bind fun _ =>
    (hR.gets _ fun _ _ => rfl).bind fun _ => hR.logDebug _ _

theorem setLogLevel (value : Int) : Blind R (SetOption.setLogLevel strerror value) :=
  .ite ((hR.change _ fun _ _ => rfl).bind fun _ => (hR.setLogger _).bind fun _ =>
      hR.report (fun _ _ => rfl) hR.setCurlVerbose)
    (hR.report (fun _ _ => rfl) hR.setCurlVerbose)

theorem setLogStderr (file : Option Nat) : Blind R (SetOption.setLogStderr strerror file) :=
  (hR.change _ fun _ _ => rfl).bind fun _ => (hR.setLogger _).bind fun _ =>
    hR.report (fun _ _ => rfl) hR.setCurlStderr

theorem setLogHandler (handler : Option Nat) : Blind R (SetOption.setLogHandler handler) :=
  (hR.setLogger _).bind fun _ => hR.logDebug _ _

/-- **Every call that sets no password respects the relation.** -/
theorem setoption (strerror : CurlCode → CString) {option : PepOption}
    (h : ∀ str, option ≠ .endpointClientKeypassword (some str))
    (hlog : ∀ value, option = .endpointSslValidation value →
      ∀ format args, Blind R (SetOption.logErrorUnmatched format args)) :
    Blind R (SetOption.setoption strerror option) := by
  cases option with
  | logLevel value => exact hR.setLogLevel value
  | logStderr file => exact hR.setLogStderr file
  | logHandler handler => exact hR.setLogHandler handler
  | endpointUrl str =>
    exact hR.setString (fun _ _ => rfl) (fun _ _ _ => rfl) hR.setCurlEndpointUrl str
  | endpointSslValidation value => exact hR.setSslValidation value (hlog value rfl)
  | endpointServerCert str =>
    exact hR.setString (fun _ _ => rfl) (fun _ _ _ => rfl)
      (hR.setCurlString _ _ _ (fun _ _ => rfl) _) str
  | endpointServerCapath str =>
    exact hR.setString (fun _ _ => rfl) (fun _ _ _ => rfl)
      (hR.setCurlString _ _ _ (fun _ _ => rfl) _) str
  | endpointClientCert str =>
    exact hR.setString (fun _ _ => rfl) (fun _ _ _ => rfl)
      (hR.setCurlString _ _ _ (fun _ _ => rfl) _) str
  | endpointClientKey str =>
    exact hR.setString (fun _ _ => rfl) (fun _ _ _ => rfl)
      (hR.setCurlString _ _ _ (fun _ _ => rfl) _) str
  | endpointClientKeypassword str =>
    cases str with
    | none =>
      have hnull : Blind R (do
          let id ← SetOption.gets PepOptions.id
          SetOption.logError
            "pep_setoption: PEP#%d PEP_OPTION_ENDPOINT_CLIENT_KEYPASSWORD argument is NULL."
            [.int id]
          throw .optionInvalid : SetOption Unit) :=
        hR.handleId.bind fun _ => (hR.logError _ _).bind fun _ => .throw _
      exact hnull
    | some str => exact absurd rfl (h str)
  | endpointTimeout value => exact hR.setTimeout value
  | enablePips value => exact hR.setEnablePips value
  | enableObligationhandlers value => exact hR.setEnableObligationhandlers value
  | endpointSslCipherList str =>
    exact hR.setString (fun _ _ => rfl) (fun _ _ _ => rfl)
      (hR.setCurlString _ _ _ (fun _ _ => rfl) _) str
  | invalid option =>
    exact hR.handleId.bind fun _ => (hR.logError _ _).bind fun _ => .throw _

end Respected

/-! ## 2. Two such relations -/

/-- Two worlds that differ in the password only; `P` relates the passwords. -/
structure Disguised (P : CString → CString → Prop) (w w' : OptionWorld) : Prop where
  pep : w'.pep = w.pep.withPassword w'.pep.clientKeypassword
  password : Option.Rel P w.pep.clientKeypassword w'.pep.clientKeypassword
  curl : w'.curl = w.curl.withPassword w'.curl.sslkeypasswd
  logger : w'.logger = w.logger
  messages : w'.messages = w.messages
  mem : w'.mem = w.mem
  answers : w'.answers = w.answers
  faulted : w'.faulted = w.faulted

/-- Two worlds of which the second has logged `ms` before. -/
structure Delayed (ms : List LogMessage) (w w' : OptionWorld) : Prop where
  world : w' = { w with messages := ms ++ w.messages }

theorem respected_disguised (P : CString → CString → Prop) : Respected (Disguised P) where
  gets field hfield := Blind.modifyGet fun w w' h => by
    refine ⟨?_, h⟩
    show field w.pep = field w'.pep
    rw [h.pep, hfield]
  change f hf := Blind.modify fun w w' h => by
    have hself : f w.pep = (f w.pep).withPassword w.pep.clientKeypassword :=
      hf w.pep w.pep.clientKeypassword
    have hw : (f w.pep).clientKeypassword = w.pep.clientKeypassword := by
      rw [hself]
      rfl
    have hw' : f w'.pep = (f w.pep).withPassword w'.pep.clientKeypassword := by
      rw [← hf, ← h.pep]
    refine ⟨?_, ?_, h.curl, h.logger, h.messages, h.mem, h.answers, h.faulted⟩
    · show f w'.pep = (f w.pep).withPassword (f w'.pep).clientKeypassword
      rw [hw']
      rfl
    · show Option.Rel P (f w.pep).clientKeypassword (f w'.pep).clientKeypassword
      rw [hw, hw']
      exact h.password
  log level format args := Blind.modify fun w w' h => by
    refine ⟨h.pep, h.password, h.curl, h.logger, ?_, h.mem, h.answers, h.faulted⟩
    show w'.messages ++ w'.logger.message level format args = _
    rw [h.messages, h.logger]
  calloc n := Blind.modifyGet fun w w' h => by
    refine ⟨congrArg (·.grants n) h.mem.symm, h.pep, h.password, h.curl, h.logger, h.messages, ?_,
      h.answers, h.faulted⟩
    exact congrArg (·.after n) h.mem
  curlEasySetopt setting := Blind.modifyGet fun w w' h => by
    have hset : w'.curl.set setting =
        (w.curl.set setting).withPassword (w'.curl.set setting).sslkeypasswd := by
      rw [h.curl]
      cases setting <;> rfl
    refine ⟨congrArg (·.headD CURLE_OK) h.answers.symm, h.pep, h.password, ?_, h.logger,
      h.messages, h.mem, congrArg List.tail h.answers, h.faulted⟩
    dsimp only
    rw [h.answers]
    split
    · exact hset
    · exact h.curl
  setLogger f := Blind.modify fun w w' h =>
    ⟨h.pep, h.password, h.curl, congrArg f h.logger, h.messages, h.mem, h.answers, h.faulted⟩

theorem respected_delayed (ms : List LogMessage) : Respected (Delayed ms) where
  gets field _ := Blind.modifyGet fun w w' h => ⟨by rw [h.world], h⟩
  change f _ := Blind.modify fun w w' h => ⟨by rw [h.world]⟩
  log level format args := Blind.modify fun w w' h => ⟨by rw [h.world, List.append_assoc]⟩
  calloc n := Blind.modifyGet fun w w' h => ⟨by rw [h.world], ⟨by rw [h.world]⟩⟩
  curlEasySetopt setting := Blind.modifyGet fun w w' h => ⟨by rw [h.world], ⟨by rw [h.world]⟩⟩
  setLogger f := Blind.modify fun w w' h => ⟨by rw [h.world]⟩

theorem disguised_logErrorUnmatched (P : CString → CString → Prop) (format : String)
    (args : List LogArg) : Blind (Disguised P) (logErrorUnmatched format args) :=
  Blind.modify fun w w' h => by
    refine ⟨h.pep, h.password, h.curl, h.logger, ?_, h.mem, h.answers, ?_⟩
    · show w'.messages ++ w'.logger.message LOG_LEVEL_ERROR format args = _
      rw [h.messages, h.logger]
    · show (w'.faulted || w'.logger.emits LOG_LEVEL_ERROR) = _
      rw [h.faulted, h.logger]

theorem delayed_logErrorUnmatched (ms : List LogMessage) (format : String) (args : List LogArg) :
    Blind (Delayed ms) (logErrorUnmatched format args) :=
  Blind.modify fun w w' h => ⟨by rw [h.world, List.append_assoc]⟩

/-- One world twice, in which something undefined was done, or was not. -/
structure Alone (faulted : Bool) (w w' : OptionWorld) : Prop where
  same : w' = w
  faulted : w.faulted = faulted

theorem respected_alone (faulted : Bool) : Respected (Alone faulted) where
  gets field _ := Blind.modifyGet fun w w' h => ⟨by rw [h.same], h⟩
  change f _ := Blind.modify fun w w' h => ⟨by rw [h.same], h.faulted⟩
  log level format args := Blind.modify fun w w' h => ⟨by rw [h.same], h.faulted⟩
  calloc n := Blind.modifyGet fun w w' h => ⟨by rw [h.same], ⟨by rw [h.same], h.faulted⟩⟩
  curlEasySetopt setting :=
    Blind.modifyGet fun w w' h => ⟨by rw [h.same], ⟨by rw [h.same], h.faulted⟩⟩
  setLogger f := Blind.modify fun w w' h => ⟨by rw [h.same], h.faulted⟩

/-! ## 3. Setting the password -/

/-- What `set_curl_client_keypassword` logs. -/
def keypasswordMessages (strerror : CurlCode → CString) (w : OptionWorld) (str : CString) :
    List LogMessage :=
  w.logger.message LOG_LEVEL_DEBUG
    "set_curl_client_keypassword: PEP#%d option_client_keypassword: %d char long"
    [.int w.pep.id, .int str.bytes.length] ++
  if w.answers.headD CURLE_OK = CURLE_OK then []
  else w.logger.message LOG_LEVEL_ERROR
    "set_curl_client_keypassword: PEP#%d curl_easy_setopt(curl,CURLOPT_SSLKEYPASSWD,%s) failed: %s"
    [.int w.pep.id, .str (some str), .str (some (strerror (w.answers.headD CURLE_OK)))]

/-- What `pep_setoption` logs for the password `str`. -/
def passwordMessages (strerror : CurlCode → CString) (w : OptionWorld) (str : CString) :
    List LogMessage :=
  alreadySet endpointClientKeypassword w ++
  if w.mem.grants (str.bytes.length + 1) then
    w.logger.message LOG_LEVEL_DEBUG
      "pep_setoption: PEP#%d PEP_OPTION_ENDPOINT_CLIENT_KEYPASSWORD: %d char long"
      [.int w.pep.id, .int str.bytes.length] ++ keypasswordMessages strerror w str
  else w.logger.message LOG_LEVEL_ERROR
    "pep_setoption: PEP#%d can't allocate option_client_keypassword: %s."
    [.int w.pep.id, .str (some str)]

theorem run_setCurlClientKeypassword (strerror : CurlCode → CString) {w : OptionWorld}
    {str : CString} (h : w.pep.clientKeypassword = some str) :
    ∃ rc, (setCurlClientKeypassword strerror).run w = (.ok rc,
      { w with
        messages := w.messages ++ keypasswordMessages strerror w str
        curl := if w.answers.headD CURLE_OK = CURLE_OK then w.curl.withPassword (some str)
          else w.curl
        answers := w.answers.tail }) := by
  unfold setCurlClientKeypassword keypasswordMessages
  rw [run_gets, run_gets, h]
  dsimp only
  rw [run_logDebug, ← List.append_assoc]
  exact run_setoptOrLog _ _ _ _ _

/-- The world after `pep_setoption` has set the password. -/
theorem pepSetoption_granted {w : OptionWorld} {str : CString}
    (h : w.mem.grants (str.bytes.length + 1) = true) :
    (pepSetoption strerror (.endpointClientKeypassword (some str)) w).2 =
      { w with
        pep := w.pep.withPassword (some str)
        messages := w.messages ++ passwordMessages strerror w str
        mem := w.mem.after (str.bytes.length + 1)
        curl := if w.answers.headD CURLE_OK = CURLE_OK then w.curl.withPassword (some str)
          else w.curl
        answers := w.answers.tail } := by
  let w₁ : OptionWorld :=
    { w with
      pep := w.pep.withPassword (some str)
      messages := w.messages ++ alreadySet endpointClientKeypassword w ++
        w.logger.message LOG_LEVEL_DEBUG
          "pep_setoption: PEP#%d PEP_OPTION_ENDPOINT_CLIENT_KEYPASSWORD: %d char long"
          [.int w.pep.id, .int str.bytes.length]
      mem := w.mem.after (str.bytes.length + 1) }
  have hcopy : (copyString endpointClientKeypassword (some str) fun str => do
      SetOption.logDebug "pep_setoption: PEP#%d PEP_OPTION_ENDPOINT_CLIENT_KEYPASSWORD: %d char long"
        [.int (← SetOption.gets PepOptions.id), .int str.bytes.length]).run w = (.ok (), w₁) := by
    rw [run_copyString_granted h]
    rfl
  obtain ⟨rc, hcurl⟩ := run_setCurlClientKeypassword strerror (w := w₁) rfl
  unfold pepSetoption SetOption.setoption setClientKeypassword passwordMessages
  dsimp only
  rw [run_bind_ok hcopy, run_discard hcurl, if_pos h, ← List.append_assoc, ← List.append_assoc]
  rfl

/-- Without memory for it the password is gone. -/
theorem pepSetoption_denied {w : OptionWorld} {str : CString}
    (h : w.mem.grants (str.bytes.length + 1) = false) :
    (pepSetoption strerror (.endpointClientKeypassword (some str)) w).2 =
      { w with
        pep := w.pep.withPassword none
        messages := w.messages ++ passwordMessages strerror w str
        mem := w.mem.after (str.bytes.length + 1) } := by
  unfold pepSetoption SetOption.setoption setClientKeypassword passwordMessages
  dsimp only
  rw [run_bind_error (run_copyString_denied h), if_neg (by rw [h]; decide), ← List.append_assoc]
  rfl

theorem pepSetoption_password (w : OptionWorld) (str : CString) :
    (pepSetoption strerror (.endpointClientKeypassword (some str)) w).2.messages =
      w.messages ++ passwordMessages strerror w str := by
  cases hgrant : w.mem.grants (str.bytes.length + 1) with
  | false => rw [pepSetoption_denied hgrant]
  | true => rw [pepSetoption_granted hgrant]

/-! ## 4. Discreet calls -/

/-- Two strings of one length. -/
def SameLength (str str' : CString) : Prop := str.bytes.length = str'.bytes.length

/-- The same call twice, but for passwords, which `P` relates. -/
inductive SameBut (P : CString → CString → Prop) : PepOption → PepOption → Prop
  | option {option : PepOption} (h : ∀ str, option ≠ .endpointClientKeypassword (some str)) :
      SameBut P option option
  | password {str str' : CString} (h : P str str') :
      SameBut P (.endpointClientKeypassword (some str)) (.endpointClientKeypassword (some str'))

theorem SameBut.mono {P Q : CString → CString → Prop} {option option' : PepOption}
    (h : SameBut P option option') (hPQ : ∀ {str str'}, P str str' → Q str str') :
    SameBut Q option option' := by
  cases h with
  | option h => exact .option h
  | password h => exact .password (hPQ h)

theorem sameBut_refl (option : PepOption) : SameBut SameLength option option := by
  by_cases h : ∀ str, option ≠ .endpointClientKeypassword (some str)
  · exact .option h
  · obtain ⟨str, hstr⟩ := not_forall.mp h
    rw [not_not.mp hstr]
    exact .password rfl

/-- A call that logs no password. An old one is logged when it is replaced, at DEBUG; the new one
    where it cannot be stored or libcurl refuses it, at ERROR. An empty one tells nothing. And no
    message is formatted without its arguments: the ERROR message for a refused
    CURLOPT_SSL_VERIFYPEER. -/
def Discreet (w : OptionWorld) : PepOption → Prop
  | .endpointClientKeypassword (some str) =>
    (∀ old, w.pep.clientKeypassword = some old → old.bytes ≠ [] →
      w.logger.emits LOG_LEVEL_DEBUG = false) ∧
    (str.bytes ≠ [] → w.logger.emits LOG_LEVEL_ERROR = true →
      w.mem.grants (str.bytes.length + 1) = true ∧ w.answers.headD CURLE_OK = CURLE_OK)
  | .endpointSslValidation _ =>
    w.answers.headD CURLE_OK = CURLE_OK ∨ w.logger.emits LOG_LEVEL_ERROR = false
  | _ => True

/-- Every call of the sequence is discreet where it is made. -/
def DiscreetRun (strerror : CurlCode → CString) : OptionWorld → List PepOption → Prop
  | _, [] => True
  | w, option :: options =>
    Discreet w option ∧ DiscreetRun strerror (pepSetoption strerror option w).2 options

theorem Logger.message_eq_nil {logger : Logger} {level : LogLevel} {format : String}
    {args : List LogArg} (h : logger.emits level = false) : logger.message level format args = [] := by
  unfold Logger.message
  rw [h]
  rfl

theorem Logger.message_eq_singleton {logger : Logger} {level : LogLevel} {format : String}
    {args : List LogArg} (h : logger.emits level = true) :
    logger.message level format args = [⟨level, format, args⟩] := by
  unfold Logger.message
  rw [h]
  rfl

theorem SameLength.eq_of_nil {str str' : CString} (h : SameLength str str') (hnil : str.bytes = []) :
    str' = str := by
  refine CString.ext_bytes ?_
  rw [hnil]
  refine List.eq_nil_of_length_eq_zero ?_
  rw [← h, hnil]
  rfl

section Disguise

variable {P : CString → CString → Prop} {w w' : OptionWorld} {str str' : CString}

theorem Disguised.passwords (h : Disguised P w w') :
    (w.pep.clientKeypassword = none ∧ w'.pep.clientKeypassword = none) ∨
    ∃ old old', w.pep.clientKeypassword = some old ∧ w'.pep.clientKeypassword = some old' ∧
      P old old' := by
  have hrel := h.password
  cases hw : w.pep.clientKeypassword <;> cases hw' : w'.pep.clientKeypassword <;>
    rw [hw, hw'] at hrel <;> cases hrel
  · exact .inl ⟨rfl, rfl⟩
  · exact .inr ⟨_, _, rfl, rfl, ‹_›⟩

theorem Disguised.id (h : Disguised P w w') : w'.pep.id = w.pep.id := by
  rw [h.pep]
  rfl

theorem alreadySet_eq (hlen : ∀ {str str'}, P str str' → SameLength str str')
    (h : Disguised P w w')
    (hold : ∀ old, w.pep.clientKeypassword = some old → old.bytes ≠ [] →
      w.logger.emits LOG_LEVEL_DEBUG = false) :
    alreadySet endpointClientKeypassword w' = alreadySet endpointClientKeypassword w := by
  unfold alreadySet endpointClientKeypassword
  dsimp only
  rw [h.logger, h.id]
  rcases h.passwords with ⟨hw, hw'⟩ | ⟨old, old', hw, hw', hP⟩
  · rw [hw, hw']
  · rw [hw, hw']
    by_cases hnil : old.bytes = []
    · rw [(hlen hP).eq_of_nil hnil]
    · simp only [Option.toList_some, List.flatMap_singleton,
        Logger.message_eq_nil (hold old hw hnil)]

/-- A discreet call logs the same for both passwords. -/
theorem passwordMessages_eq (strerror : CurlCode → CString)
    (hlen : ∀ {str str'}, P str str' → SameLength str str')
    (h : Disguised P w w') (hP : P str str')
    (hd : Discreet w (.endpointClientKeypassword (some str))) :
    passwordMessages strerror w' str' = passwordMessages strerror w str := by
  obtain ⟨hold, hnew⟩ := hd
  have hn : str'.bytes.length = str.bytes.length := (hlen hP).symm
  unfold passwordMessages keypasswordMessages
  rw [alreadySet_eq hlen h hold, hn, h.mem, h.logger, h.answers, h.id]
  by_cases hnil : str.bytes = []
  · rw [(hlen hP).eq_of_nil hnil]
  cases herr : w.logger.emits LOG_LEVEL_ERROR with
  | true =>
    obtain ⟨hgrant, hok⟩ := hnew hnil herr
    rw [if_pos hgrant, if_pos hgrant, if_pos hok, if_pos hok]
  | false => simp only [Logger.message_eq_nil herr]

theorem pepSetoption_respected (strerror : CurlCode → CString)
    {R : OptionWorld → OptionWorld → Prop} (hR : Respected R)
    {option : PepOption} (hoption : ∀ str, option ≠ .endpointClientKeypassword (some str))
    (hlog : ∀ value, option = .endpointSslValidation value →
      ∀ format args, Blind R (SetOption.logErrorUnmatched format args))
    (h : R w w') :
    R (pepSetoption strerror option w).2 (pepSetoption strerror option w').2 := by
  obtain ⟨hend, hworlds⟩ := hR.setoption strerror hoption hlog w w' h
  unfold pepSetoption
  rcases hw : (SetOption.setoption strerror option).run w with ⟨rc | a, t⟩ <;>
    rcases hw' : (SetOption.setoption strerror option).run w' with ⟨rc' | a', t'⟩ <;>
    rw [hw, hw'] at hend hworlds <;> exact hworlds

/-- Two calls that log the same keep the worlds the same but for the password. -/
theorem Disguised.step (hlen : ∀ {str str'}, P str str' → SameLength str str')
    (h : Disguised P w w') {option option' : PepOption} (hoption : SameBut P option option')
    (hd : Discreet w option) :
    Disguised P (pepSetoption strerror option w).2 (pepSetoption strerror option' w').2 := by
  cases hoption with
  | option hne =>
    exact pepSetoption_respected strerror (respected_disguised P) hne
      (fun _ _ => disguised_logErrorUnmatched P) h
  | @password str str' hP =>
    have hmessages := passwordMessages_eq strerror hlen h hP hd
    have hn : str'.bytes.length = str.bytes.length := (hlen hP).symm
    cases hgrant : w.mem.grants (str.bytes.length + 1) with
    | false =>
      rw [pepSetoption_denied hgrant, pepSetoption_denied (by rw [h.mem, hn, hgrant]), hn]
      refine ⟨?_, .none, h.curl, h.logger, ?_, ?_, h.answers, h.faulted⟩
      · dsimp only
        rw [h.pep]
        rfl
      · dsimp only
        rw [h.messages, hmessages]
      · dsimp only
        rw [h.mem]
    | true =>
      rw [pepSetoption_granted hgrant, pepSetoption_granted (by rw [h.mem, hn, hgrant]), hn]
      refine ⟨?_, .some hP, ?_, h.logger, ?_, ?_, ?_, h.faulted⟩
      · dsimp only
        rw [h.pep]
        rfl
      · dsimp only
        rw [h.answers, h.curl]
        split <;> rfl
      · dsimp only
        rw [h.messages, hmessages]
      · dsimp only
        rw [h.mem]
      · dsimp only
        rw [h.answers]

end Disguise

/-! ## 5. Undefined messages -/

theorem pepSetoption_sslValidation_faulted (value : Int) (w : OptionWorld) :
    (pepSetoption strerror (.endpointSslValidation value) w).2.faulted = true ↔
      w.faulted = true ∨ ¬Discreet w (.endpointSslValidation value) := by
  have hcurl (v : OptionWorld) : ∃ rc t, (setCurlSslValidation strerror).run v = (.ok rc, t) ∧
      t.faulted = if v.answers.headD CURLE_OK = CURLE_OK then v.faulted
        else v.faulted || v.logger.emits LOG_LEVEL_ERROR := by
    unfold setCurlSslValidation
    rw [run_gets, run_gets, run_logDebug, run_curlEasySetopt]
    by_cases hok : v.answers.headD CURLE_OK = CURLE_OK
    · rw [if_neg (not_not.mpr hok)]
      exact ⟨0, _, rfl, (if_pos hok).symm⟩
    · rw [if_pos hok, run_logErrorUnmatched]
      exact ⟨1, _, rfl, (if_neg hok).symm⟩
  obtain ⟨rc, t, hrun, ht⟩ := hcurl
    { w with
      pep := { w.pep with sslValidation := decide (value = 1) }
      messages := w.messages ++ w.logger.message LOG_LEVEL_DEBUG
        "pep_setoption: PEP#%d PEP_OPTION_ENDPOINT_SSL_VALIDATION: %s"
        [.int w.pep.id, truth (decide (value = 1))] }
  have hcall : (pepSetoption strerror (.endpointSslValidation value) w).2 = t := by
    unfold pepSetoption SetOption.setoption setSslValidation
    dsimp only
    rw [run_change, run_gets, run_gets, run_logDebug, run_discard hrun]
  rw [hcall, ht]
  unfold Discreet
  by_cases hok : w.answers.headD CURLE_OK = CURLE_OK
  · rw [if_pos hok, or_iff_left (not_not.mpr (.inl hok))]
  · rw [if_neg hok, Bool.or_eq_true, not_or, Bool.not_eq_false, and_iff_right hok]

/-- **Something undefined is done by a call for the validation that is not discreet, and by no other
    call.** -/
theorem pepSetoption_faulted_iff {option : PepOption} {w : OptionWorld} :
    (pepSetoption strerror option w).2.faulted = true ↔
      w.faulted = true ∨ ∃ value, option = .endpointSslValidation value ∧ ¬Discreet w option := by
  by_cases hpassword : ∀ str, option ≠ .endpointClientKeypassword (some str)
  · by_cases hssl : ∀ value, option ≠ .endpointSslValidation value
    · have hafter := pepSetoption_respected strerror (respected_alone w.faulted) hpassword
        (fun value hvalue => absurd hvalue (hssl value)) ⟨rfl, rfl⟩
      rw [hafter.faulted]
      refine ⟨.inl, fun h => h.resolve_right ?_⟩
      intro hvalue
      obtain ⟨value, hvalue, -⟩ := hvalue
      exact hssl value hvalue
    · obtain ⟨value, hvalue⟩ := not_forall.mp hssl
      obtain rfl := not_not.mp hvalue
      rw [pepSetoption_sslValidation_faulted]
      refine or_congr_right ⟨fun h => ⟨value, rfl, h⟩, ?_⟩
      intro h
      obtain ⟨_, -, h⟩ := h
      exact h
  · obtain ⟨str, hstr⟩ := not_forall.mp hpassword
    obtain rfl := not_not.mp hstr
    have hsame : (pepSetoption strerror (.endpointClientKeypassword (some str)) w).2.faulted
        = w.faulted := by
      cases hgrant : w.mem.grants (str.bytes.length + 1) with
      | false => rw [pepSetoption_denied hgrant]
      | true => rw [pepSetoption_granted hgrant]
    rw [hsame]
    refine ⟨.inl, fun h => h.resolve_right ?_⟩
    intro hvalue
    obtain ⟨value, hvalue, -⟩ := hvalue
    cases hvalue

/-- What is undefined stays so. -/
theorem runOptions_faulted (options : List PepOption) {w : OptionWorld} (h : w.faulted = true) :
    (runOptions strerror options w).faulted = true := by
  induction options generalizing w with
  | nil => exact h
  | cons option options ih => exact ih (pepSetoption_faulted_iff.mpr (.inl h))

theorem runOptions_defined {options : List PepOption} {w : OptionWorld} (h : w.faulted = false)
    (hd : DiscreetRun strerror w options) : (runOptions strerror options w).faulted = false := by
  induction options generalizing w with
  | nil => exact h
  | cons option options ih =>
    refine ih (Bool.eq_false_iff.mpr fun hfaulted => ?_) hd.2
    rcases pepSetoption_faulted_iff.mp hfaulted with hw | ⟨_, -, hnot⟩
    · exact Bool.false_ne_true (h.symm.trans hw)
    · exact hnot hd.1

/-! ## 6. Two runs -/

/-- Calls that are all discreet keep the worlds the same but for the password. -/
theorem Disguised.run {P : CString → CString → Prop} {w w' : OptionWorld}
    {options options' : List PepOption} (hlen : ∀ {str str'}, P str str' → SameLength str str')
    (h : Disguised P w w') (hoptions : List.Forall₂ (SameBut P) options options')
    (hd : DiscreetRun strerror w options) :
    Disguised P (runOptions strerror options w) (runOptions strerror options' w') := by
  induction hoptions generalizing w w' with
  | nil => exact h
  | cons hoption _ ih => exact ih (h.step hlen hoption hd.1) hd.2

/-- What is logged stays logged. -/
theorem pepSetoption_messages (strerror : CurlCode → CString) (option : PepOption) (w : OptionWorld) :
    ∃ later, (pepSetoption strerror option w).2.messages = w.messages ++ later := by
  by_cases hoption : ∀ str, option ≠ .endpointClientKeypassword (some str)
  · have hdelayed : Delayed w.messages { w with messages := [] } w := by
      refine ⟨?_⟩
      dsimp only
      rw [List.append_nil]
    have hafter := pepSetoption_respected strerror (respected_delayed w.messages) hoption
      (fun _ _ => delayed_logErrorUnmatched w.messages) hdelayed
    exact ⟨_, congrArg OptionWorld.messages hafter.world⟩
  · obtain ⟨str, hstr⟩ := not_forall.mp hoption
    rw [not_not.mp hstr]
    exact ⟨_, pepSetoption_password w str⟩

theorem runOptions_messages (strerror : CurlCode → CString) (options : List PepOption)
    (w : OptionWorld) :
    ∃ later, (runOptions strerror options w).messages = w.messages ++ later := by
  induction options generalizing w with
  | nil => exact ⟨[], (List.append_nil _).symm⟩
  | cons option options ih =>
    obtain ⟨here, hhere⟩ := pepSetoption_messages strerror option w
    obtain ⟨later, hlater⟩ := ih (pepSetoption strerror option w).2
    refine ⟨here ++ later, ?_⟩
    rw [← List.append_assoc, ← hhere]
    exact hlater

/-- Another byte that is not zero. -/
def otherByte (b : UInt8) : UInt8 := if b = 1 then 2 else 1

/-- A string of the same length that differs at every byte. -/
def otherString (str : CString) : CString where
  bytes := str.bytes.map otherByte
  nulFree h := by
    obtain ⟨b, -, hb⟩ := List.mem_map.mp h
    unfold otherByte at hb
    split at hb <;> exact absurd hb (by decide)

theorem otherString_length (str : CString) : SameLength str (otherString str) :=
  (List.length_map _).symm

theorem otherString_ne {str : CString} (h : str.bytes ≠ []) : otherString str ≠ str := by
  intro heq
  cases hbytes : str.bytes with
  | nil => exact h hbytes
  | cons b bs =>
    have hb : (b :: bs).map otherByte = b :: bs := by
      rw [← hbytes]
      exact congrArg CString.bytes heq
    have hhead : otherByte b = b := (List.cons.inj hb).1
    unfold otherByte at hhead
    split at hhead
    · rename_i hone
      rw [hone] at hhead
      exact absurd hhead (by decide)
    · rename_i hone
      exact hone hhead.symm

/-- The call with the other password. -/
def otherOption : PepOption → PepOption
  | .endpointClientKeypassword (some str) => .endpointClientKeypassword (some (otherString str))
  | option => option

theorem sameBut_otherOption (option : PepOption) :
    SameBut (fun str str' => str' = otherString str) option (otherOption option) := by
  by_cases h : ∀ str, option ≠ .endpointClientKeypassword (some str)
  · have hsame : otherOption option = option := by
      cases option with
      | endpointClientKeypassword str =>
        cases str with
        | none => rfl
        | some str => exact absurd rfl (h str)
      | _ => rfl
    rw [hsame]
    exact .option h
  · obtain ⟨str, hstr⟩ := not_forall.mp h
    rw [not_not.mp hstr]
    exact .password rfl

theorem Logger.message_length (logger : Logger) (level : LogLevel) (format : String)
    (args : List LogArg) :
    (logger.message level format args).length = if logger.emits level then 1 else 0 := by
  unfold Logger.message
  split <;> rfl

/-- The password in a message is the last but for what both runs share. -/
theorem Logger.message_str_inj {logger : Logger} {level : LogLevel} {format : String}
    {str str' : CString} (before after : List LogArg) (h : logger.emits level = true)
    (heq : logger.message level format (before ++ .str (some str') :: after) =
      logger.message level format (before ++ .str (some str) :: after)) : str' = str := by
  rw [message_eq_singleton h, message_eq_singleton h] at heq
  have hargs := congrArg LogMessage.args (List.cons.inj heq).1
  have htails := List.append_cancel_left hargs
  exact Option.some.inj (LogArg.str.inj (List.cons.inj htails).1)

section Reveal

variable {w w' : OptionWorld} {str : CString}

theorem alreadySet_length {P : CString → CString → Prop} (h : Disguised P w w') :
    (alreadySet endpointClientKeypassword w').length =
      (alreadySet endpointClientKeypassword w).length := by
  unfold alreadySet endpointClientKeypassword
  dsimp only
  rw [h.logger]
  rcases h.passwords with ⟨hw, hw'⟩ | ⟨old, old', hw, hw', -⟩
  · rw [hw, hw']
    rfl
  · rw [hw, hw']
    simp only [Option.toList_some, List.flatMap_singleton, Logger.message_length]

/-- The two runs log equally many messages for the password. -/
theorem passwordMessages_length {P : CString → CString → Prop} {str' : CString}
    (h : Disguised P w w') (hlen : SameLength str str') :
    (passwordMessages strerror w' str').length = (passwordMessages strerror w str).length := by
  have hn : str'.bytes.length = str.bytes.length := hlen.symm
  unfold passwordMessages keypasswordMessages
  rw [List.length_append, List.length_append, alreadySet_length h, h.mem, h.answers, h.logger, hn]
  congr 1
  split
  · split
    · simp only [List.length_append, Logger.message_length]
    · simp only [List.length_append, Logger.message_length]
  · simp only [Logger.message_length]

/-- A call that is not discreet logs something else for the other password. -/
theorem passwordMessages_ne (h : Disguised (fun str str' => str' = otherString str) w w')
    (hd : ¬Discreet w (.endpointClientKeypassword (some str))) :
    passwordMessages strerror w' (otherString str) ≠ passwordMessages strerror w str := by
  intro heq
  obtain ⟨holds, hrest⟩ := List.append_inj heq (alreadySet_length h)
  refine hd ⟨fun old hold hnil => ?_, fun hnil herr => ?_⟩
  · -- the old password was logged
    rcases h.passwords with ⟨hw, -⟩ | ⟨old₁, old₂, hw, hw', hother⟩
    · rw [hw] at hold
      cases hold
    rw [hw] at hold
    cases hold
    unfold alreadySet endpointClientKeypassword at holds
    simp only [hw, hw', hother, h.logger, h.id, Option.toList_some, List.flatMap_singleton] at holds
    cases hdebug : w.logger.emits LOG_LEVEL_DEBUG with
    | false => rfl
    | true =>
      exact absurd (Logger.message_str_inj [_] [] hdebug holds)
        (otherString_ne hnil)
  · -- the new one was
    have hn : (otherString str).bytes.length = str.bytes.length := (otherString_length str).symm
    unfold keypasswordMessages at hrest
    rw [h.mem, h.answers, h.logger, h.id, hn] at hrest
    by_cases hgrant : w.mem.grants (str.bytes.length + 1) = true
    · refine ⟨hgrant, ?_⟩
      by_contra hrefused
      rw [if_pos hgrant, if_pos hgrant, if_neg hrefused, if_neg hrefused] at hrest
      have hlast := List.append_cancel_left (List.append_cancel_left hrest)
      exact otherString_ne hnil (Logger.message_str_inj [_] [_] herr hlast)
    · rw [if_neg hgrant, if_neg hgrant] at hrest
      exact absurd (Logger.message_str_inj [_] [] herr hrest)
        (otherString_ne hnil)

end Reveal

/-- Once a call is not discreet, the other passwords give another log, or the run is undefined. -/
theorem runOptions_reveals {options : List PepOption} {w w' : OptionWorld}
    (h : Disguised (fun str str' => str' = otherString str) w w')
    (hd : ¬DiscreetRun strerror w options)
    (hdefined : (runOptions strerror options w).faulted = false) :
    (runOptions strerror (options.map otherOption) w').messages ≠
      (runOptions strerror options w).messages := by
  have hlen : ∀ {str str' : CString}, str' = otherString str → SameLength str str' := by
    intro str _ e
    obtain rfl := e
    exact otherString_length str
  induction options generalizing w w' with
  | nil => exact absurd trivial hd
  | cons option options ih =>
    by_cases hhere : Discreet w option
    · exact ih (h.step hlen (sameBut_otherOption option) hhere) (fun hlater => hd ⟨hhere, hlater⟩)
        hdefined
    · intro heq
      cases option with
      | endpointClientKeypassword str =>
        cases str with
        | none => exact hhere trivial
        | some str =>
          have hall : (runOptions strerror (options.map otherOption)
                (pepSetoption strerror (.endpointClientKeypassword (some (otherString str))) w').2
              ).messages =
              (runOptions strerror options
                (pepSetoption strerror (.endpointClientKeypassword (some str)) w).2).messages :=
            heq
          obtain ⟨later, hlater⟩ := runOptions_messages strerror options
            (pepSetoption strerror (.endpointClientKeypassword (some str)) w).2
          obtain ⟨later', hlater'⟩ := runOptions_messages strerror (options.map otherOption)
            (pepSetoption strerror (.endpointClientKeypassword (some (otherString str))) w').2
          rw [hlater, hlater', pepSetoption_password, pepSetoption_password, h.messages,
            List.append_assoc, List.append_assoc] at hall
          exact passwordMessages_ne h hhere (List.append_inj (List.append_cancel_left hall)
            (passwordMessages_length h (otherString_length str))).1
      | endpointSslValidation value =>
        have hfaulted :=
          (@pepSetoption_faulted_iff strerror _ _).mpr (.inr ⟨value, rfl, hhere⟩)
        exact Bool.false_ne_true (hdefined.symm.trans (runOptions_faulted options hfaulted))
      | _ => exact hhere trivial

/-- **The log of a handle is the same for all passwords of the given lengths, and nothing undefined
    is done, exactly when every call is discreet.** A new handle has no password. -/
theorem log_hidesPassword_iff (strerror : CurlCode → CString) (options : List PepOption)
    (w : OptionWorld) (hnew : w.pep.clientKeypassword = none) (hdefined : w.faulted = false) :
    (∀ options', List.Forall₂ (SameBut SameLength) options options' →
      (runOptions strerror options' w).faulted = false ∧
        (runOptions strerror options' w).messages = (runOptions strerror options w).messages) ↔
    DiscreetRun strerror w options := by
  have hself : ∀ P, Disguised P w w := fun P => by
    refine ⟨rfl, ?_, rfl, rfl, rfl, rfl, rfl, rfl⟩
    rw [hnew]
    exact .none
  constructor
  · intro hsame
    by_contra hd
    have hother : List.Forall₂ (SameBut SameLength) options (options.map otherOption) := by
      rw [List.forall₂_map_right_iff, List.forall₂_same]
      intro option _
      exact (sameBut_otherOption option).mono fun hother => hother ▸ otherString_length _
    have hagain : List.Forall₂ (SameBut SameLength) options options :=
      List.forall₂_same.mpr fun option _ => sameBut_refl option
    exact runOptions_reveals (hself _) hd (hsame _ hagain).1 (hsame _ hother).2
  · intro hd options' hoptions
    have hrun := (hself SameLength).run id hoptions hd
    exact ⟨hrun.faulted.trans (runOptions_defined hdefined hd), hrun.messages⟩

/-- libcurl before anything is set. -/
def CurlSettings.unset : CurlSettings :=
  ⟨none, 0, true, none, none, none, none, none, none, false, none⟩

/-- A password set once by a program that logs everything: its length is all that is logged. The
    validation, which libcurl refuses, was set when nothing was logged yet. -/
theorem log_hidesPassword_once :
    (runOptions (fun _ => .empty)
        [.endpointSslValidation 0, .logLevel 3, .logHandler (some 1),
          .endpointClientKeypassword (some (CString.lit "pin"))]
        (.initial 0 .unlimited .unset [43])).messages =
      (runOptions (fun _ => .empty)
        [.endpointSslValidation 0, .logLevel 3, .logHandler (some 1),
          .endpointClientKeypassword (some (CString.lit "key"))]
        (.initial 0 .unlimited .unset [43])).messages := by
  refine ((log_hidesPassword_iff _ _ _ rfl rfl).mpr ?_ _ ?_).2
  · refine ⟨.inr rfl, trivial, trivial, ⟨?_, ?_⟩, trivial⟩
    · intro old hold
      cases hold
    · intro _ _
      exact ⟨rfl, rfl⟩
  · refine .cons (sameBut_refl _) (.cons (sameBut_refl _) (.cons (sameBut_refl _)
      (.cons (.password ?_) .nil)))
    rfl

/-- Set once more, the first password is logged. -/
theorem log_revealsPassword :
    ¬∀ (strerror : CurlCode → CString) (options options' : List PepOption) (w : OptionWorld),
      w.pep.clientKeypassword = none → List.Forall₂ (SameBut SameLength) options options' →
      (runOptions strerror options' w).messages = (runOptions strerror options w).messages := by
  intro h
  have hset : ∀ a b : CString, SameLength a b → List.Forall₂ (SameBut SameLength)
      [.logLevel 3, .logHandler (some 1), .endpointClientKeypassword (some a),
        .endpointClientKeypassword (some a)]
      [.logLevel 3, .logHandler (some 1), .endpointClientKeypassword (some b),
        .endpointClientKeypassword (some b)] := by
    intro a b hab
    refine .cons (.option ?_) (.cons (.option ?_) (.cons (.password hab) (.cons (.password hab) .nil)))
    · intro str h
      cases h
    · intro str h
      cases h
  have hmessages := h (fun _ => .empty) _ _ (.initial 0 .unlimited .unset []) rfl
    (hset (CString.lit "key") (CString.lit "pin") rfl)
  exact absurd (congrArg (List.map LogMessage.args) hmessages) (by decide)

end ArgusPep
