/-
  File:      ArgusPep/Argus/OptionSync.lean
  Subject:   The two copies of the endpoint options: in the handle, and in libcurl.

  `pep_setoption` stores a value in the handle, hands it to libcurl, and throws away what the
  `set_curl_..` function returns. So PEP_OK says that the value is in the handle, and no more.

  * `Synced` -- both copies of an endpoint option are the same;
  * `Applied` -- libcurl takes what the call stores, or has it already;
  * `Sets` -- what the nine `set_curl_..` functions do: libcurl is asked once, the handle stays;
  * `reports_iff` -- one call; **`reportsRun_iff`** -- every accepted call of a sequence leaves the
    copies the same exactly if each of them is applied.
-/
import ArgusPep.Argus.Options

namespace ArgusPep

open Lib SetOption

variable {strerror : CurlCode → CString}

/-! ## 1. Two copies -/

/-- Both copies of an endpoint option are the same; the other options have one. -/
def Synced : PepOption → OptionWorld → Prop
  | .endpointUrl _, w => w.curl.url = w.pep.endpointUrl
  | .endpointTimeout _, w => w.curl.timeout = w.pep.timeout
  | .endpointSslValidation _, w => w.curl.sslVerifypeer = w.pep.sslValidation
  | .endpointSslCipherList _, w => w.curl.sslCipherList = w.pep.sslCipherList
  | .endpointServerCert _, w => w.curl.cainfo = w.pep.serverCert
  | .endpointServerCapath _, w => w.curl.capath = w.pep.serverCapath
  | .endpointClientCert _, w => w.curl.sslcert = w.pep.clientCert
  | .endpointClientKey _, w => w.curl.sslkey = w.pep.clientKey
  | .endpointClientKeypassword _, w => w.curl.sslkeypasswd = w.pep.clientKeypassword
  | _, _ => True

/-- The next `curl_easy_setopt` succeeds. -/
def Answered (w : OptionWorld) : Prop := w.answers.headD CURLE_OK = CURLE_OK

instance (w : OptionWorld) : Decidable (Answered w) := inferInstanceAs (Decidable (_ = _))

/-- A string for which there is memory is taken by libcurl, or held by it already. -/
def AppliedString (held : CurlSettings → Option CString) (str : Option CString) (w : OptionWorld) :
    Prop :=
  ∀ text, str = some text → w.mem.grants (text.bytes.length + 1) = true →
    Answered w ∨ held w.curl = some text

/-- libcurl takes what the call stores in the handle, or holds it already. -/
def Applied : PepOption → OptionWorld → Prop
  | .endpointUrl str, w => AppliedString CurlSettings.url str w
  | .endpointTimeout value, w =>
    Answered w ∨ w.curl.timeout = if 0 < value then value else w.pep.timeout
  | .endpointSslValidation value, w => Answered w ∨ w.curl.sslVerifypeer = decide (value = 1)
  | .endpointSslCipherList str, w => AppliedString CurlSettings.sslCipherList str w
  | .endpointServerCert str, w => AppliedString CurlSettings.cainfo str w
  | .endpointServerCapath str, w => AppliedString CurlSettings.capath str w
  | .endpointClientCert str, w => AppliedString CurlSettings.sslcert str w
  | .endpointClientKey str, w => AppliedString CurlSettings.sslkey str w
  | .endpointClientKeypassword str, w => AppliedString CurlSettings.sslkeypasswd str w
  | _, _ => True

/-- Where the call returns PEP_OK, the copies are the same. -/
def Reports (strerror : CurlCode → CString) (option : PepOption) (w : OptionWorld) : Prop :=
  (pepSetoption strerror option w).1 = .ok → Synced option (pepSetoption strerror option w).2

/-- So it is at each call of a sequence. -/
def ReportsRun (strerror : CurlCode → CString) (options : List PepOption) (w : OptionWorld) :
    Prop :=
  ∀ pre option post, options = pre ++ option :: post →
    Reports strerror option (runOptions strerror pre w)

/-! ## 2. What libcurl is told -/

/-- libcurl is asked once, for the setting; the handle stays as it is. -/
def Sets (setCurl : SetOption Int) (w : OptionWorld) (setting : CurlSetting) : Prop :=
  ∃ rc t, setCurl.run w = (.ok rc, t) ∧ t.pep = w.pep ∧
    t.curl = if Answered w then w.curl.set setting else w.curl

section Settings

variable (strerror : CurlCode → CString)

theorem sets_setoptOrLog (setting : CurlSetting) (format : String) (args : List LogArg)
    (w : OptionWorld) : Sets (setoptOrLog strerror setting format args) w setting := by
  obtain ⟨rc, hrun⟩ := run_setoptOrLog strerror setting format args w
  exact ⟨rc, _, hrun, rfl, rfl⟩

theorem sets_setCurlString {function name option : String} {field : PepOptions → Option CString}
    {setting : Option CString → CurlSetting} {w : OptionWorld} {text : CString}
    (h : field w.pep = some text) :
    Sets (setCurlString strerror function name option field setting) w (setting (some text)) := by
  unfold Sets setCurlString
  rw [run_gets, run_gets, run_logDebug, h]
  exact sets_setoptOrLog _ _ _ _ _

theorem sets_setCurlEndpointUrl {w : OptionWorld} {text : CString}
    (h : w.pep.endpointUrl = some text) :
    Sets (setCurlEndpointUrl strerror) w (.url (some text)) := by
  unfold Sets setCurlEndpointUrl
  rw [run_gets, run_gets, run_logDebug, h]
  exact sets_setoptOrLog _ _ _ _ _

theorem sets_setCurlClientKeypassword {w : OptionWorld} {text : CString}
    (h : w.pep.clientKeypassword = some text) :
    Sets (setCurlClientKeypassword strerror) w (.sslkeypasswd (some text)) := by
  unfold Sets setCurlClientKeypassword
  rw [run_gets, run_gets, h]
  dsimp only
  rw [run_logDebug]
  exact sets_setoptOrLog _ _ _ _ _

theorem sets_setCurlConnectionTimeout (w : OptionWorld) :
    Sets (setCurlConnectionTimeout strerror) w (.timeout w.pep.timeout) := by
  unfold Sets setCurlConnectionTimeout
  rw [run_gets, run_gets, run_logDebug]
  exact sets_setoptOrLog _ _ _ _ _

theorem sets_setCurlSslValidation (w : OptionWorld) :
    Sets (setCurlSslValidation strerror) w (.sslVerifypeer w.pep.sslValidation) := by
  unfold Sets setCurlSslValidation
  rw [run_gets, run_gets, run_logDebug, run_curlEasySetopt]
  by_cases h : w.answers.headD CURLE_OK = CURLE_OK
  · rw [if_neg (not_not.mpr h)]
    exact ⟨0, _, rfl, rfl, rfl⟩
  · rw [if_pos h, run_logErrorUnmatched]
    exact ⟨1, _, rfl, rfl, rfl⟩

end Settings

/-- What libcurl holds behind a setting: its value, if it was taken or held before. -/
theorem held_iff {α : Type} {held : CurlSettings → α} {setting : CurlSetting} {value : α}
    {w : OptionWorld} (h : held (w.curl.set setting) = value) :
    held (if Answered w then w.curl.set setting else w.curl) = value ↔
      Answered w ∨ held w.curl = value := by
  by_cases hans : Answered w
  · rw [if_pos hans]
    exact iff_of_true h (.inl hans)
  · rw [if_neg hans]
    exact ⟨.inr, fun h => h.resolve_left hans⟩

/-! ## 3. One call -/

/-- A program that only logs. -/
def Logs (m : SetOption Unit) : Prop :=
  ∀ w, ∃ messages, m.run w = (.ok (), { w with messages })

/-- A call that ends with PEP_OK in a world. -/
theorem reports_of_ok {option : PepOption} {w t : OptionWorld}
    (h : (setoption strerror option).run w = (.ok (), t)) :
    Reports strerror option w ↔ Synced option t := by
  unfold Reports pepSetoption
  rw [h]
  exact ⟨fun hr => hr rfl, fun hs _ => hs⟩

theorem reports_of_error {option : PepOption} {w : OptionWorld} {rc : PepError}
    (h : ∃ t, (setoption strerror option).run w = (.error rc, t)) (hrc : rc ≠ .ok) :
    Reports strerror option w := by
  obtain ⟨t, h⟩ := h
  unfold Reports pepSetoption
  rw [h]
  exact fun hok => absurd hok hrc

/-- A string option: `stored` in the handle, `held` by libcurl. -/
theorem reports_string {option : PepOption} {stored : StringOption}
    {held : CurlSettings → Option CString} {setting : Option CString → CurlSetting}
    {setCurl : SetOption Int} {copied : CString → SetOption Unit} {str : Option CString}
    (hcall : setoption strerror option = do
      copyString stored str copied
      discard setCurl)
    (hsynced : ∀ w, Synced option w ↔ held w.curl = stored.get w.pep)
    (hstored : ∀ str pep, stored.get (stored.set str pep) = str)
    (hheld : ∀ (str : Option CString) (curl : CurlSettings), held (curl.set (setting str)) = str)
    (hcopied : ∀ text, Logs (copied text))
    (hsets : ∀ w text, stored.get w.pep = some text → Sets setCurl w (setting (some text)))
    (w : OptionWorld) : Reports strerror option w ↔ AppliedString held str w := by
  cases str with
  | none =>
    have hrun : ∃ t, (setoption strerror option).run w = (.error .optionInvalid, t) := by
      rw [hcall]
      exact ⟨_, run_bind_error rfl⟩
    exact iff_of_true (reports_of_error hrun (by decide)) nofun
  | some text =>
    cases hgrant : w.mem.grants (text.bytes.length + 1) with
    | false =>
      have hrun : ∃ t, (setoption strerror option).run w = (.error .memory, t) := by
        rw [hcall]
        exact ⟨_, run_bind_error (run_copyString_denied hgrant)⟩
      refine iff_of_true (reports_of_error hrun (by decide)) fun text' htext' hgrant' => ?_
      cases htext'
      rw [hgrant] at hgrant'
      cases hgrant'
    | true =>
      obtain ⟨messages, hlog⟩ := hcopied text
        { w with
          pep := stored.set (some text) w.pep
          messages := w.messages ++ alreadySet stored w
          mem := w.mem.after (text.bytes.length + 1) }
      obtain ⟨rc, t, hcurl, hpep, hset⟩ := hsets
        { w with
          pep := stored.set (some text) w.pep
          messages := messages
          mem := w.mem.after (text.bytes.length + 1) } text (hstored _ _)
      have hrun : (setoption strerror option).run w = (.ok (), t) := by
        rw [hcall, run_bind_ok ((run_copyString_granted hgrant).trans hlog)]
        exact run_discard hcurl
      replace hset : t.curl = if Answered w then w.curl.set (setting (some text)) else w.curl := hset
      rw [reports_of_ok hrun, hsynced, hpep, hset, hstored, held_iff (hheld (some text) w.curl)]
      constructor
      · intro h text' htext' _
        cases htext'
        exact h
      · exact fun h => h text rfl hgrant

theorem reports_timeout (value : Int) (w : OptionWorld) :
    Reports strerror (.endpointTimeout value) w ↔ Applied (.endpointTimeout value) w := by
  -- a value that is not positive leaves the timeout as it is
  have hstored : ∃ w₁, (setTimeout strerror value).run w
        = (discard (setCurlConnectionTimeout strerror)).run w₁ ∧
      w₁.pep.timeout = (if 0 < value then value else w.pep.timeout) ∧
      w₁.curl = w.curl ∧ w₁.answers = w.answers := by
    unfold setTimeout
    by_cases h : 0 < value
    · rw [if_pos h, if_pos h]
      exact ⟨_, rfl, rfl, rfl, rfl⟩
    · rw [if_neg h, if_neg h]
      exact ⟨_, rfl, rfl, rfl, rfl⟩
  obtain ⟨w₁, hset, htimeout, hcurl, hanswers⟩ := hstored
  obtain ⟨rc, t, hrun, hpep, hheld⟩ := sets_setCurlConnectionTimeout strerror w₁
  have hanswered : Answered w₁ ↔ Answered w := by
    unfold Answered
    rw [hanswers]
  have hrun' : (setoption strerror (.endpointTimeout value)).run w = (.ok (), t) :=
    hset.trans (run_discard hrun)
  rw [reports_of_ok hrun']
  show t.curl.timeout = t.pep.timeout ↔ Answered w ∨ w.curl.timeout = _
  rw [hpep, hheld, ← htimeout, ← hcurl, ← hanswered]
  exact held_iff rfl

theorem reports_sslValidation (value : Int) (w : OptionWorld) :
    Reports strerror (.endpointSslValidation value) w ↔ Applied (.endpointSslValidation value) w := by
  obtain ⟨rc, t, hcurl, hpep, hset⟩ := sets_setCurlSslValidation strerror
    { w with
      pep := { w.pep with sslValidation := decide (value = 1) }
      messages := w.messages ++ w.logger.message LOG_LEVEL_DEBUG
        "pep_setoption: PEP#%d PEP_OPTION_ENDPOINT_SSL_VALIDATION: %s"
        [.int w.pep.id, truth (decide (value = 1))] }
  have hrun : (setoption strerror (.endpointSslValidation value)).run w = (.ok (), t) :=
    run_discard hcurl
  replace hset : t.curl = if Answered w
    then w.curl.set (.sslVerifypeer (decide (value = 1))) else w.curl := hset
  rw [reports_of_ok hrun]
  show t.curl.sslVerifypeer = t.pep.sslValidation ↔ _
  rw [hpep, hset]
  exact held_iff rfl

/-- The options that log the string they have copied. -/
theorem reports_setString {option : PepOption} {stored : StringOption}
    {held : CurlSettings → Option CString} {setting : Option CString → CurlSetting}
    {setCurl : SetOption Int} {str : Option CString}
    (hcall : setoption strerror option = setString stored setCurl str)
    (hsynced : ∀ w, Synced option w ↔ held w.curl = stored.get w.pep)
    (hstored : ∀ str pep, stored.get (stored.set str pep) = str)
    (hheld : ∀ (str : Option CString) (curl : CurlSettings), held (curl.set (setting str)) = str)
    (hsets : ∀ w text, stored.get w.pep = some text → Sets setCurl w (setting (some text)))
    (w : OptionWorld) : Reports strerror option w ↔ AppliedString held str w :=
  reports_string hcall hsynced hstored hheld (fun _ _ => ⟨_, rfl⟩) hsets w

/-- **A call that returns PEP_OK leaves both copies the same exactly if libcurl takes the value, or
    has it already.** -/
theorem reports_iff (option : PepOption) (w : OptionWorld) :
    Reports strerror option w ↔ Applied option w := by
  cases option with
  | endpointUrl str =>
    exact reports_setString rfl (fun _ => Iff.rfl) (fun _ _ => rfl) (fun _ _ => rfl)
      (fun _ _ h => sets_setCurlEndpointUrl strerror h) w
  | endpointSslCipherList str =>
    exact reports_setString rfl (fun _ => Iff.rfl) (fun _ _ => rfl) (fun _ _ => rfl)
      (fun _ _ h => sets_setCurlString strerror h) w
  | endpointServerCert str =>
    exact reports_setString rfl (fun _ => Iff.rfl) (fun _ _ => rfl) (fun _ _ => rfl)
      (fun _ _ h => sets_setCurlString strerror h) w
  | endpointServerCapath str =>
    exact reports_setString rfl (fun _ => Iff.rfl) (fun _ _ => rfl) (fun _ _ => rfl)
      (fun _ _ h => sets_setCurlString strerror h) w
  | endpointClientCert str =>
    exact reports_setString rfl (fun _ => Iff.rfl) (fun _ _ => rfl) (fun _ _ => rfl)
      (fun _ _ h => sets_setCurlString strerror h) w
  | endpointClientKey str =>
    exact reports_setString rfl (fun _ => Iff.rfl) (fun _ _ => rfl) (fun _ _ => rfl)
      (fun _ _ h => sets_setCurlString strerror h) w
  | endpointClientKeypassword str =>
    exact reports_string rfl (fun _ => Iff.rfl) (fun _ _ => rfl) (fun _ _ => rfl)
      (fun _ _ => ⟨_, rfl⟩) (fun _ _ h => sets_setCurlClientKeypassword strerror h) w
  | endpointTimeout value => exact reports_timeout value w
  | endpointSslValidation value => exact reports_sslValidation value w
  | _ => exact iff_of_true (fun _ => trivial) trivial

/-- **In any sequence of calls, those that return PEP_OK leave both copies the same exactly if each
    call is applied where it is made.** -/
theorem reportsRun_iff (strerror : CurlCode → CString) (options : List PepOption)
    (w : OptionWorld) : ReportsRun strerror options w ↔
      ∀ pre option post, options = pre ++ option :: post →
        Applied option (runOptions strerror pre w) := by
  constructor
  · intro h pre option post heq
    exact (reports_iff option _).mp (h pre option post heq)
  · intro h pre option post heq
    exact (reports_iff option _).mpr (h pre option post heq)

/-- What libcurl holds at first. -/
def freshCurl : CurlSettings := ⟨none, 30, true, none, none, none, none, none, none, false, none⟩

/-- The validation of certificates is switched off, and on again: libcurl refuses the second, and
    `pep_setoption` returns PEP_OK. -/
theorem validation_stays_off :
    ¬ ReportsRun (fun _ => CString.lit "refused")
      [.endpointSslValidation 0, .endpointSslValidation 1]
      (.initial 0 .unlimited freshCurl [CURLE_OK, 43]) := by
  intro h
  have hsynced := h [.endpointSslValidation 0] (.endpointSslValidation 1) [] rfl rfl
  cases hsynced

end ArgusPep
