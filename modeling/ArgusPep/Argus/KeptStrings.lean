/-
  File:      ArgusPep/Argus/KeptStrings.lean
  Subject:   The strings of a PEP handle and a libcurl that keeps the pointers it is given.

  pep.c holds its own copy of each string option for libcurl 7.17.0 and older, which do not copy
  them. An option that is set again frees the old copy first. Which of the strings a transfer goes
  to is libcurl's affair, and a parameter of each call of `pep_authorize`.

  * `attemptsOf` -- how it went each time an option was set;
  * `Stale` -- libcurl took a string once, but not the last one;
  * `Tracked` -- the INVARIANT: the pointer libcurl holds is the handle's, or stale and freed;
  * **`keptStrings_sound_iff`** -- nothing is gone to once it is freed, exactly if no transfer goes
    to a stale string (`FreshTransfers`).
-/
import ArgusPep.Argus.HandleRuns

namespace ArgusPep.HandleMemory

open Lib Lib.Lifetime

/-! ## 1. Stale strings -/

/-- How it went each time the option was set. -/
def attemptsOf (name : StringName) (attempts : List (StringName × Attempt)) : List Attempt :=
  (attempts.filter (·.1 = name)).map Prod.snd

/-- libcurl took a string once, but not the last one. -/
def Stale (attempts : List Attempt) : Prop :=
  .applied ∈ attempts ∧ attempts.getLast? ≠ some .applied

/-- **The invariant** for an option: what libcurl holds is nothing, the string of the handle, or a
    string that was freed. -/
inductive Tracked (name : StringName) (w : HandleWorld) : Prop where
  | unset (held : w.held name = none) (never : .applied ∉ attemptsOf name w.attempts)
  | live (n : Nat) (held : w.held name = some n) (string : w.pep.strings name = some n)
      (last : (attemptsOf name w.attempts).getLast? = some .applied)
  | stale (n : Nat) (held : w.held name = some n) (stale : Stale (attemptsOf name w.attempts))
      (freed : .freed (.string name n) ∈ w.events)

/-- The same, while the handle has no string for the option: it was freed. -/
inductive Detached (name : StringName) (w : HandleWorld) : Prop where
  | unset (held : w.held name = none) (never : .applied ∉ attemptsOf name w.attempts)
  | freed (n : Nat) (held : w.held name = some n) (once : .applied ∈ attemptsOf name w.attempts)
      (freed : .freed (.string name n) ∈ w.events)

/-- An option is being set, and the handle's string for it is `string`. -/
structure Setting (name : StringName) (string : Option Nat) (w : HandleWorld) : Prop where
  detached : Detached name w
  string : w.pep.strings name = string
  others : ∀ name', name' ≠ name → Tracked name' w

/-- For an option nothing changes but that there are more memory events. -/
structure Behind (name : StringName) (w w' : HandleWorld) : Prop where
  held : w'.held name = w.held name
  string : w'.pep.strings name = w.pep.strings name
  attempts : attemptsOf name w'.attempts = attemptsOf name w.attempts
  events : ∀ e ∈ w.events, e ∈ w'.events

section Tracking

variable {ε : Type} {name : StringName} {string : Option Nat} {w w' : HandleWorld}
  {E : ε → HandleWorld → Prop}

theorem Tracked.behind (h : Tracked name w) (hb : Behind name w w') : Tracked name w' := by
  cases h with
  | unset held never => exact .unset (hb.held.trans held) (hb.attempts ▸ never)
  | live n held string last =>
    exact .live n (hb.held.trans held) (hb.string.trans string) (hb.attempts ▸ last)
  | stale n held stale freed =>
    exact .stale n (hb.held.trans held) (hb.attempts ▸ stale) (hb.events _ freed)

theorem Detached.behind (h : Detached name w) (held : w'.held name = w.held name)
    (attempts : attemptsOf name w'.attempts = attemptsOf name w.attempts)
    (events : ∀ e ∈ w.events, e ∈ w'.events) :
    Detached name w' := by
  cases h with
  | unset none never => exact .unset (held.trans none) (attempts ▸ never)
  | freed n some once freed => exact .freed n (held.trans some) (attempts ▸ once) (events _ freed)

/-- More memory events. -/
theorem behind_events (name : StringName) (w : HandleWorld) (more : List MemoryEvent) :
    Behind name w { w with events := w.events ++ more } :=
  ⟨rfl, rfl, rfl, fun _ he => List.mem_append_left more he⟩

theorem Setting.events (h : Setting name string w) (more : List MemoryEvent) :
    Setting name string { w with events := w.events ++ more } :=
  ⟨h.detached.behind rfl rfl fun _ he => List.mem_append_left more he, h.string,
    fun name' hne => (h.others name' hne).behind (behind_events name' w more)⟩

/-- Bytes are written. -/
theorem Setting.store (h : Setting name string w) (n : Nat) (bytes : Bytes) :
    Setting name string { w with contents := Function.update w.contents n bytes } :=
  ⟨h.detached.behind rfl rfl fun _ he => he, h.string,
    fun name' hne => (h.others name' hne).behind ⟨rfl, rfl, rfl, fun _ he => he⟩⟩

/-- The handle gets another string for the option. -/
theorem Setting.withString (h : Setting name string w) (string' : Option Nat) :
    Setting name string' { w with pep := w.pep.withString name string' } :=
  ⟨h.detached.behind rfl rfl fun _ he => he, by simp [PepMemory.withString],
    fun name' hne => (h.others name' hne).behind
      ⟨rfl, by simp [PepMemory.withString, Function.update_of_ne hne], rfl, fun _ he => he⟩⟩

theorem attemptsOf_self (name : StringName) (attempt : Attempt)
    (attempts : List (StringName × Attempt)) :
    attemptsOf name (attempts ++ [(name, attempt)]) = attemptsOf name attempts ++ [attempt] := by
  simp [attemptsOf]

theorem attemptsOf_other {name name' : StringName} (hne : name' ≠ name) (attempt : Attempt)
    (attempts : List (StringName × Attempt)) :
    attemptsOf name' (attempts ++ [(name, attempt)]) = attemptsOf name' attempts := by
  simp [attemptsOf, hne.symm]

/-- It failed: what libcurl held before it holds now. -/
theorem Setting.failed (h : Setting name string w) {attempt : Attempt}
    (hne : attempt ≠ .applied) (name' : StringName) :
    Tracked name' { w with attempts := w.attempts ++ [(name, attempt)] } := by
  by_cases heq : name' = name
  · subst heq
    have hself := attemptsOf_self name' attempt w.attempts
    cases h.detached with
    | unset held never =>
      refine .unset held ?_
      rw [hself]
      simp [never, hne.symm]
    | freed n held once freed =>
      refine .stale n held ?_ freed
      rw [hself]
      exact ⟨List.mem_append_left _ once, by simpa using hne⟩
  · exact (h.others name' heq).behind
      ⟨rfl, rfl, attemptsOf_other heq attempt w.attempts, fun _ he => he⟩

/-- libcurl took it. -/
theorem Setting.applied {n : Nat} (h : Setting name (some n) w) (name' : StringName) :
    Tracked name' { w with
      held := Function.update w.held name (some n)
      attempts := w.attempts ++ [(name, .applied)] } := by
  by_cases heq : name' = name
  · subst heq
    refine .live n (Function.update_self ..) h.string ?_
    rw [attemptsOf_self name' .applied w.attempts]
    exact List.getLast?_concat ..
  · exact (h.others name' heq).behind ⟨Function.update_of_ne heq .., rfl,
      attemptsOf_other heq .applied w.attempts, fun _ he => he⟩

/-- The string is freed, and libcurl may hold it. -/
theorem freeString_tracked (h : ∀ name, Tracked name w) :
    Ensures (freeString name : OnHandle ε Unit) w (fun _ => Setting name none) E := by
  unfold freeString
  refine Ensures.get ?_
  cases hstring : w.pep.strings name with
  | none =>
    refine Ensures.pure ⟨?_, hstring, fun name' _ => h name'⟩
    cases h name with
    | unset held never => exact .unset held never
    | live n held string last => exact absurd (string.symm.trans hstring) (Option.some_ne_none n)
    | stale n held stale freed => exact .freed n held stale.1 freed
  | some m =>
    have hfreed : ∀ more : List MemoryEvent, .freed (.string name m) ∈ more →
        Setting name none { w with
          events := w.events ++ more, pep := w.pep.withString name none } := by
      intro more hmem
      refine ⟨?_, by simp [PepMemory.withString], fun name' hne => (h name').behind
        ⟨rfl, by simp [PepMemory.withString, Function.update_of_ne hne], rfl,
          fun _ he => List.mem_append_left more he⟩⟩
      cases h name with
      | unset held never => exact .unset held never
      | live n held string last =>
        obtain rfl := Option.some.inj (hstring.symm.trans string)
        exact .freed m held (List.mem_of_getLast? last) (List.mem_append_right _ hmem)
      | stale n held stale freed => exact .freed n held stale.1 (List.mem_append_left more freed)
    refine Ensures.ite (fun _ => ?_) fun _ => hfreed _ List.mem_cons_self
    have hboth := hfreed [.wiped (.string name m), .freed (.string name m)]
      (List.mem_cons_of_mem _ List.mem_cons_self)
    rw [show ∀ e f : MemoryEvent, w.events ++ [e, f] = w.events ++ [e] ++ [f] by simp] at hboth
    exact ⟨hboth.detached.behind rfl rfl fun _ he => he, hboth.string,
      fun name' hne => (hboth.others name' hne).behind ⟨rfl, rfl, rfl, fun _ he => he⟩⟩

theorem allocate_setting (block : Nat → Block) (h : Setting name string w) :
    Ensures (allocate block : OnHandle ε (Option Nat)) w (fun _ => Setting name string) E := by
  refine Ensures.modifyGet ?_
  split
  · have hevents := h.events [.allocated (block w.created)]
    exact ⟨hevents.detached.behind rfl rfl fun _ he => he, hevents.string,
      fun name' hne => (hevents.others name' hne).behind ⟨rfl, rfl, rfl, fun _ he => he⟩⟩
  · exact ⟨h.detached.behind rfl rfl fun _ he => he, h.string,
      fun name' hne => (h.others name' hne).behind ⟨rfl, rfl, rfl, fun _ he => he⟩⟩

theorem curlEasySetopt_setting (h : Setting name string w) :
    Ensures (curlEasySetopt : OnHandle ε CurlCode) w (fun _ => Setting name string) E := by
  have hevents := h.events (w.pep.curl.toList.map fun n => .accessed (.curl n))
  exact ⟨hevents.detached.behind rfl rfl fun _ he => he, hevents.string,
    fun name' hne => (hevents.others name' hne).behind ⟨rfl, rfl, rfl, fun _ he => he⟩⟩

theorem setString_tracked (name : StringName) (str : Option CString) :
    Keeps (fun w => ∀ name, Tracked name w) (setString name str) := by
  intro w h
  cases str with
  | none => exact Ensures.throw h
  | some str =>
    unfold setString
    refine Ensures.get ?_
    refine Ensures.bind (Q := fun _ w => ∀ name, Tracked name w)
      (Ensures.modify fun name' => (h name').behind (behind_events name' w _)) fun _ w₁ h₁ => ?_
    refine (freeString_tracked h₁).bind fun _ w₂ h₂ => ?_
    refine (allocate_setting (.string name) h₂).bind fun r w₃ h₃ => ?_
    cases r with
    | none =>
      refine Ensures.bind (Q := fun _ w => ∀ name, Tracked name w) (Ensures.modify ?_)
        fun _ w₄ h₄ => Ensures.throw h₄
      exact h₃.failed (by decide)
    | some n =>
      refine Ensures.bind (Q := fun _ => Setting name (some n))
        (Ensures.modify (h₃.withString (some n))) fun _ w₄ h₄ => ?_
      refine Ensures.bind (Q := fun _ => Setting name (some n))
        (Ensures.modify (h₄.events _)) fun _ w₅ h₅ => ?_
      refine Ensures.bind (Q := fun _ => Setting name (some n))
        (Ensures.modify (h₅.store n (str.bytes ++ [0]))) fun _ w₅ h₅ => ?_
      refine (curlEasySetopt_setting h₅).bind fun curlRc w₆ h₆ => ?_
      exact Ensures.ite (fun _ => h₆.applied) fun _ => h₆.failed (by decide)

/-- Calls that set no string. -/
theorem note_tracked (more : List MemoryEvent) :
    Keeps (fun w => ∀ name, Tracked name w) (note more : OnHandle ε Unit) :=
  Keeps.modify fun w h name => (h name).behind (behind_events name w more)

theorem curlEasySetopt_tracked :
    Keeps (fun w => ∀ name, Tracked name w) (curlEasySetopt : OnHandle ε CurlCode) :=
  Keeps.get fun _ => (note_tracked _).bind fun _ => Keeps.modifyGet fun _ h name =>
    (h name).behind ⟨rfl, rfl, rfl, fun _ he => he⟩

theorem addNode_tracked {f : Nat → PepMemory → PepMemory} {rc : PepError}
    (hf : ∀ n pep, (f n pep).strings = pep.strings) :
    Keeps (fun w => ∀ name, Tracked name w) (do
      match ← allocate .node with
      | none => throw rc
      | some n => change (f n) : OnHandle PepError Unit) := by
  have hallocate : Keeps (fun w => ∀ name, Tracked name w)
      (allocate .node : OnHandle PepError (Option Nat)) := by
    refine Keeps.modifyGet fun w h name => ?_
    split
    · exact (h name).behind ⟨rfl, rfl, rfl, fun _ he => List.mem_append_left _ he⟩
    · exact (h name).behind ⟨rfl, rfl, rfl, fun _ he => he⟩
  refine hallocate.bind fun r => ?_
  cases r with
  | none => exact Keeps.throw rc
  | some n => exact Keeps.modify fun w h name =>
      (h name).behind ⟨rfl, congrFun (hf n w.pep) name, rfl, fun _ he => he⟩

theorem setoption_tracked (option : PepOption) :
    Keeps (fun w => ∀ name, Tracked name w) (setoption option) := by
  cases option with
  | endpointUrl str => exact setString_tracked .endpointUrl str
  | endpointSslCipherList str => exact setString_tracked .sslCipherList str
  | endpointServerCert str => exact setString_tracked .serverCert str
  | endpointServerCapath str => exact setString_tracked .serverCapath str
  | endpointClientCert str => exact setString_tracked .clientCert str
  | endpointClientKey str => exact setString_tracked .clientKey str
  | endpointClientKeypassword str => exact setString_tracked .clientKeypassword str
  | endpointTimeout _ | endpointSslValidation _ | logLevel _ | logStderr _ =>
    exact curlEasySetopt_tracked.discard
  | enablePips _ | enableObligationhandlers _ | logHandler _ => exact Keeps.pure ()
  | invalid _ => exact Keeps.throw _

/-- **A call keeps track of each option.** -/
theorem call_tracked (keepsStrings : Bool) (call : HandleCall) :
    Keeps (fun w => ∀ name, Tracked name w) (call.run keepsStrings) := by
  cases call with
  | setoption option => exact setoption_tracked option
  | addpip pip initRc =>
    exact Keeps.guard (fun w h => Ensures.throw h) (Keeps.guard (fun w h => Ensures.throw h)
      (Keeps.get fun w => (note_tracked _).bind fun _ => addNode_tracked fun _ _ => rfl))
  | addobligationhandler oh initRc =>
    exact Keeps.guard (fun w h => Ensures.throw h) (Keeps.guard (fun w h => Ensures.throw h)
      (Keeps.get fun w => (note_tracked _).bind fun _ => addNode_tracked fun _ _ => rfl))
  | authorize reads =>
    refine Keeps.get fun w => ?_
    cases w.pep.strings .endpointUrl with
    | none => exact Keeps.throw _
    | some url =>
      refine (note_tracked _).bind fun _ => (note_tracked _).bind fun _ => ?_
      exact (note_tracked _).bind fun _ => Keeps.ite (note_tracked _) (Keeps.pure ())

theorem runCalls_tracked (keepsStrings : Bool) (calls : List HandleCall)
    (h : ∀ name, Tracked name w) : ∀ name, Tracked name (runCalls keepsStrings calls w) := by
  induction calls generalizing w with
  | nil => exact h
  | cons call calls ih => exact ih (call_tracked keepsStrings call w h).after

end Tracking

/-- **Without a stale string libcurl holds what the handle has.** -/
theorem Tracked.heldLive {w : HandleWorld} {reads : List StringName} (h : ∀ name, Tracked name w)
    (hfresh : ∀ name ∈ reads, ¬Stale (attemptsOf name w.attempts)) : HeldLive reads w := by
  intro name hname n hheld
  cases h name with
  | unset held never => exact absurd (hheld.symm.trans held) (Option.some_ne_none n)
  | live m held string last =>
    obtain rfl := Option.some.inj (hheld.symm.trans held)
    exact string
  | stale m held stale freed => exact absurd stale (hfresh name hname)

/-- **A stale string is held, and was freed.** -/
theorem Tracked.freed_of_stale {name : StringName} {w : HandleWorld} (h : Tracked name w)
    (hstale : Stale (attemptsOf name w.attempts)) :
    ∃ n, w.held name = some n ∧ .freed (.string name n) ∈ w.events := by
  cases h with
  | unset held never => exact absurd hstale.1 never
  | live n held string last => exact absurd last hstale.2
  | stale n held stale freed => exact ⟨n, held, freed⟩

/-! ## 2. A whole life -/

/-- The made handle has no string, and libcurl holds none. -/
theorem pepInitialize_tracked (granted : Nat → Bool) (answers : Nat → CurlCode) :
    Ensures pepInitialize (HandleWorld.start granted answers)
      (fun _ w => ∀ name, Tracked name w) (fun _ w => ∀ name, Tracked name w) := by
  have hstable : Stable fun w => w.held = (fun _ => none) ∧ w.attempts = [] :=
    ⟨fun _ h _ => h, fun _ h _ => h, fun _ _ _ h _ => h⟩
  have htracked : ∀ w : HandleWorld, w.held = (fun _ => none) ∧ w.attempts = [] →
      ∀ name, Tracked name w := by
    intro w h name
    obtain ⟨hheld, hattempts⟩ := h
    exact .unset (by rw [hheld]) (by simp [hattempts, attemptsOf])
  have hmade := hstable.pepInitialize (HandleWorld.start granted answers) ⟨rfl, rfl⟩
  exact (hmade.mono fun _ w h => htracked w h).exits fun _ w h => htracked w h

/-- What was noted stays noted. -/
theorem note_kept {ε : Type} (events more : List MemoryEvent) :
    Keeps (fun w => events <+: w.events) (note more : OnHandle ε Unit) :=
  Keeps.modify fun _ h => h.trans (List.prefix_append _ more)

theorem events_freeString (events : List MemoryEvent) {ε : Type} (name : StringName) :
    Keeps (fun w => events <+: w.events) (freeString name : OnHandle ε Unit) := by
  have hstay : ∀ f : HandleWorld → HandleWorld, (∀ w, (f w).events = w.events) →
      Keeps (fun w => events <+: w.events) (modify f : OnHandle ε Unit) := fun f hf =>
    Keeps.modify fun w h => (hf w).symm ▸ h
  unfold freeString
  refine Keeps.get fun w => ?_
  cases w.pep.strings name with
  | none => exact Keeps.pure ()
  | some n =>
    have hfreed : Keeps (fun w => events <+: w.events) (do
        note [.freed (.string name n)]
        change fun pep => pep.withString name none : OnHandle ε Unit) :=
      (note_kept events _).bind fun _ => hstay _ fun _ => rfl
    intro w₁ h₁
    refine Ensures.ite (fun _ => Ensures.bind ?_ fun _ => hfreed) fun _ => hfreed w₁ h₁
    have hwipe : Keeps (fun w => events <+: w.events) (wipe name n : OnHandle ε Unit) :=
      Keeps.get fun _ => (note_kept events _).bind fun _ => hstay _ fun _ => rfl
    exact hwipe w₁ h₁

/-- Nothing that happened is undone. -/
theorem events_kept (events : List MemoryEvent) : StringStable fun w => events <+: w.events where
  events more h _ := h.trans (List.prefix_append _ more)
  pointers _ h _ := h
  counters _ _ _ h _ := h
  freeString := events_freeString events
  stored _ _ h := (h.trans (List.prefix_append _ _)).trans (List.prefix_append _ _)
  attempts _ _ h := h

/-- No transfer goes to a stale string. -/
def FreshTransfers (calls : List HandleCall) (w : HandleWorld) : Prop :=
  ∀ before reads behind, calls = before ++ .authorize reads :: behind →
    (runCalls true before w).pep.strings .endpointUrl ≠ none →
    ∀ name ∈ reads, ¬Stale (attemptsOf name (runCalls true before w).attempts)

theorem FreshTransfers.tail {call : HandleCall} {calls : List HandleCall} {w : HandleWorld}
    (h : FreshTransfers (call :: calls) w) :
    FreshTransfers calls ((call.run true).run w).2 :=
  fun before reads behind hcalls =>
    h (call :: before) reads behind (by rw [hcalls, List.cons_append])

/-- The calls keep the invariant of the handle, if no transfer goes to a stale string. -/
theorem runCalls_fresh {lost : List Block} {calls : List HandleCall} {w : HandleWorld}
    (h : Keeping lost w) (htracked : ∀ name, Tracked name w) (hfresh : FreshTransfers calls w) :
    Keeping lost (runCalls true calls w) := by
  induction calls generalizing w with
  | nil => exact h
  | cons call calls ih =>
    have hheld : ∀ reads, true = true → call = .authorize reads →
        w.pep.strings .endpointUrl ≠ none → HeldLive reads w := by
      intro reads _ hcall hurl
      subst hcall
      exact Tracked.heldLive htracked (hfresh [] reads calls rfl hurl)
    exact ih (call_keeping call h hheld) (call_tracked true call w htracked).after hfresh.tail

/-- A transfer goes to the string that libcurl holds. -/
theorem authorize_goes {w : HandleWorld} {reads : List StringName} {name : StringName} {n : Nat}
    (hurl : w.pep.strings .endpointUrl ≠ none) (hname : name ∈ reads)
    (hheld : w.held name = some n) :
    ∃ more, ((authorize true reads).run w).2.events = w.events ++ more ∧
      .accessed (.string name n) ∈ more := by
  obtain ⟨url, hurl⟩ := Option.ne_none_iff_exists'.mp hurl
  have hgone : Ensures (authorize true reads) w (fun _ w' => ∃ more, w'.events = w.events ++ more ∧
      .accessed (.string name n) ∈ more) (fun _ _ => False) := by
    unfold authorize
    refine Ensures.get ?_
    rw [hurl]
    have hassoc : ∀ a b c d e : List MemoryEvent, a ++ b ++ c ++ d ++ e = a ++ (b ++ c ++ d ++ e) :=
      fun a b c d e => by simp
    refine ⟨_, hassoc .., List.mem_append_right _ (List.mem_flatMap.mpr ⟨name, hname, ?_⟩)⟩
    rw [hheld]
    exact List.mem_cons_self
  exact (hgone.exits fun _ _ h => h.elim).after

/-- A transfer that goes to a stale string goes to freed memory, and that stays so. -/
theorem stale_transfer {w : HandleWorld} {reads : List StringName} {name : StringName}
    {live : List Block} {events : List MemoryEvent} (htracked : Tracked name w)
    (hstale : Stale (attemptsOf name w.attempts)) (hname : name ∈ reads)
    (hurl : w.pep.strings .endpointUrl ≠ none)
    (hkept : ((authorize true reads).run w).2.events <+: events) :
    ¬Holds (events.map MemoryEvent.act) live := by
  intro hholds
  obtain ⟨n, hheld, hfreed⟩ := htracked.freed_of_stale hstale
  obtain ⟨more, hgone, haccessed⟩ := authorize_goes hurl hname hheld
  obtain ⟨earlier, later, hevents⟩ := List.append_of_mem hfreed
  obtain ⟨rest, hrest⟩ := hkept
  have hacts : events.map MemoryEvent.act = earlier.map MemoryEvent.act ++
      .release (.string name n) :: (later ++ more ++ rest).map MemoryEvent.act := by
    rw [← hrest, hgone, hevents]
    simp [MemoryEvent.act]
  refine hholds.not_use_behind hacts
    (List.mem_map.mpr ⟨.accessed (.string name n), ?_, rfl⟩)
  exact List.mem_append_left rest (List.mem_append_right later haccessed)

/-- **A libcurl that keeps the strings.** The handle, made, used and destroyed, frees nothing twice
    and goes to nothing that is freed exactly if no transfer goes to an option that libcurl took once
    and not when it was set last: refused then, or out of memory. -/
theorem keptStrings_sound_iff (granted : Nat → Bool) (answers : Nat → CurlCode)
    (calls : List HandleCall) :
    (∃ live, Holds
      ((handleLife true calls (.start granted answers)).events.map MemoryEvent.act) live) ↔
    ∀ w, pepInitialize.run (.start granted answers) = (.ok (), w) → FreshTransfers calls w := by
  have hmemory := pepInitialize_memory granted answers
  have htracked := pepInitialize_tracked granted answers
  unfold Ensures at hmemory htracked
  unfold handleLife
  rcases hrun : pepInitialize.run (HandleWorld.start granted answers) with ⟨e | a, w⟩ <;>
    rw [hrun] at hmemory htracked <;> obtain ⟨lost, hmemory, -⟩ := hmemory
  · -- there is no handle
    refine ⟨fun _ w' hw' => ?_, fun _ => ⟨_, hmemory.holds⟩⟩
    cases hw'
  · constructor
    · intro hholds w' hw' before reads behind hcalls hurl name hname hstale
      obtain ⟨live, hholds⟩ := hholds
      cases hw'
      have hbefore := runCalls_tracked true before htracked name
      refine stale_transfer hbefore hstale hname hurl ?_ hholds
      have hrest := (events_kept _).runCalls true behind
        (List.prefix_refl ((authorize true reads).run (runCalls true before w)).2.events)
      have hsplit : runCalls true calls w =
          runCalls true behind ((authorize true reads).run (runCalls true before w)).2 := by
        rw [hcalls]
        exact List.foldl_append
      rw [← hsplit] at hrest
      exact ((events_kept _).pepDestroy _ hrest).after
    · intro hfresh
      have hused := runCalls_fresh hmemory htracked (hfresh w rfl)
      have hdestroyed := (pepDestroy_memory (ε := Unit) (E := fun _ => Holding (lost.map .header))
        hused).after
      exact ⟨_, hdestroyed.holds⟩

end ArgusPep.HandleMemory
