/-
  File:      ArgusPep/Argus/HandleRuns.lean
  Subject:   What stays true over the whole life of a PEP handle.

  * `Stable` -- what everything keeps but the setting and the freeing of strings;
  * `StringStable` -- what these keep too; **`StringStable.handleLife`**: then it holds behind every
    life that it holds in front of.
-/
import ArgusPep.Argus.HandleMemory

namespace ArgusPep.HandleMemory

open Lib Lib.Lifetime

/-! ## 1. All but the strings -/

/-- What is kept by everything the functions are made of, but the setting and the freeing of a
    string. -/
structure Stable (I : HandleWorld → Prop) : Prop where
  events : ∀ {w : HandleWorld} (more : List MemoryEvent), I w →
    (∀ name n, .freed (.string name n) ∉ more) → I { w with events := w.events ++ more }
  pointers : ∀ {w : HandleWorld} (pep : PepMemory), I w →
    (∀ name, pep.strings name = w.pep.strings name ∨ pep.strings name = none) →
      I { w with pep := pep }
  counters : ∀ {w : HandleWorld} (created asked answered : Nat), I w → w.created ≤ created →
    I { w with created := created, asked := asked, answered := answered }

namespace Stable

variable {ε : Type} {I : HandleWorld → Prop} (hI : Stable I)
include hI

theorem note {events : List MemoryEvent} (h : ∀ name n, .freed (.string name n) ∉ events) :
    Keeps I (HandleMemory.note events : OnHandle ε Unit) :=
  Keeps.modify fun _ hw => hI.events events hw h

/-- Blocks are gone to. -/
theorem accessed {xs : List Nat} (f : Nat → Block) :
    Keeps I (HandleMemory.note (xs.map fun n => .accessed (f n)) : OnHandle ε Unit) :=
  hI.note fun name n hmem => by simp at hmem

/-- Blocks that are no strings are freed. -/
theorem freed {xs : List Nat} {f : Nat → Block} (hf : ∀ m name n, f m ≠ .string name n) :
    Keeps I (HandleMemory.note (xs.map fun n => .freed (f n)) : OnHandle ε Unit) :=
  hI.note fun name n hmem => by simp [hf] at hmem

theorem drained {nodes : List Nat} : Keeps I (HandleMemory.note
    (nodes.flatMap fun n => [.accessed (.node n), .freed (.node n)]) : OnHandle ε Unit) :=
  hI.note fun name n hmem => by simp at hmem

/-- Pointers change, but for those to strings. -/
theorem change {f : PepMemory → PepMemory} (hf : ∀ pep, (f pep).strings = pep.strings) :
    Keeps I (HandleMemory.change f : OnHandle ε Unit) :=
  Keeps.modify fun w h => hI.pointers (f w.pep) h fun name => .inl (congrFun (hf w.pep) name)

theorem allocate (block : Nat → Block) :
    Keeps I (HandleMemory.allocate block : OnHandle ε (Option Nat)) := by
  refine Keeps.modifyGet fun w h => ?_
  split
  · refine hI.events _ (hI.counters (w.created + 1) (w.asked + 1) w.answered h ?_) fun _ _ => ?_
    · exact Nat.le_succ _
    · simp
  · exact hI.counters w.created (w.asked + 1) w.answered h (Nat.le_refl _)

theorem curlEasySetopt : Keeps I (HandleMemory.curlEasySetopt : OnHandle ε CurlCode) :=
  Keeps.get fun _ => (hI.accessed .curl).bind fun _ => Keeps.modifyGet fun w h =>
    hI.counters w.created w.asked (w.answered + 1) h (Nat.le_refl _)

theorem curlEasyCleanup : Keeps I (HandleMemory.curlEasyCleanup : OnHandle ε Unit) :=
  Keeps.get fun _ => (hI.freed (f := .curl) (by simp)).bind fun _ => hI.change fun _ => by rfl

theorem freeHandle : Keeps I (HandleMemory.freeHandle : OnHandle ε Unit) :=
  Keeps.get fun _ => (hI.freed (f := .handle) (by simp)).bind fun _ =>
    Keeps.modify fun _ h => hI.pointers .null h fun _ => .inr rfl

theorem freeHeaders : Keeps I (HandleMemory.freeHeaders : OnHandle ε Unit) :=
  Keeps.get fun _ => (hI.freed (f := .header) (by simp)).bind fun _ => hI.change fun _ => by rfl

theorem deletePips : Keeps I (HandleMemory.deletePips : OnHandle ε Unit) :=
  Keeps.get fun _ => hI.drained.bind fun _ => (hI.freed (f := .list) (by simp)).bind
    fun _ => hI.change fun _ => by rfl

theorem deleteOhs : Keeps I (HandleMemory.deleteOhs : OnHandle ε Unit) :=
  Keeps.get fun _ => hI.drained.bind fun _ => (hI.freed (f := .list) (by simp)).bind
    fun _ => hI.change fun _ => by rfl

theorem initCurlDefaults : Keeps I (HandleMemory.initCurlDefaults : OnHandle ε Unit) := by
  have happend : Keeps I (HandleMemory.curlSlistAppend : OnHandle ε Unit) := by
    refine (hI.allocate .header).bind fun r => ?_
    cases r with
    | none => exact hI.change fun _ => by rfl
    | some n => exact hI.change fun _ => by rfl
  have hsetopt : Keeps I (discard HandleMemory.curlEasySetopt : OnHandle ε Unit) :=
    hI.curlEasySetopt.discard
  have hheaders : Keeps I (HandleMemory.setCurlHttpHeaders : OnHandle ε Unit) :=
    happend.bind fun _ => happend.bind fun _ => hsetopt
  exact hheaders.bind fun _ => hsetopt.bind fun _ => hsetopt.bind fun _ => hsetopt.bind
    fun _ => hsetopt

/-- `pep_initialize` frees no string. -/
theorem pepInitialize : Keeps I HandleMemory.pepInitialize := by
  unfold HandleMemory.pepInitialize
  refine (hI.allocate .handle).bind fun handle => (hI.change fun _ => by rfl).bind fun _ => ?_
  refine Keeps.guard (fun w h => Ensures.throw h) ?_
  refine (hI.allocate .curl).bind fun curl => (hI.change fun _ => by rfl).bind fun _ w h => ?_
  refine Ensures.ite (fun _ => ?_) fun _ => ?_
  · exact (hI.freeHandle w h).bind fun _ w h => Ensures.leave (Ensures.throw h)
  refine (hI.initCurlDefaults w h).bind fun _ w h => (hI.allocate .list w h).bind fun pips w h => ?_
  refine (hI.change (fun _ => by rfl) w h).bind fun _ w h => Ensures.ite (fun _ => ?_) fun _ => ?_
  · exact (hI.curlEasyCleanup w h).bind fun _ w h => (hI.freeHandle w h).bind
      fun _ w h => Ensures.leave (Ensures.throw h)
  · refine (hI.allocate .list w h).bind fun ohs w h =>
      (hI.change (fun _ => by rfl) w h).bind fun _ w h => ?_
    refine Ensures.ite (fun _ => ?_) fun _ => Ensures.pure h
    exact (hI.curlEasyCleanup w h).bind fun _ w h => (hI.deletePips w h).bind fun _ w h =>
      (hI.freeHandle w h).bind fun _ w h => Ensures.throw h

theorem addNode {f : Nat → PepMemory → PepMemory} {rc : PepError}
    (hf : ∀ n pep, (f n pep).strings = pep.strings) : Keeps I (do
    match ← HandleMemory.allocate .node with
    | none => throw rc
    | some n => HandleMemory.change (f n) : OnHandle PepError Unit) := by
  refine (hI.allocate .node).bind fun r => ?_
  cases r with
  | none => exact Keeps.throw rc
  | some n => exact hI.change (hf n)

theorem addpip (pip : Option CString) (initRc : Int) : Keeps I (HandleMemory.addpip pip initRc) :=
  Keeps.guard (fun _ h => Ensures.throw h) (Keeps.guard (fun _ h => Ensures.throw h)
    (Keeps.get fun _ => (hI.accessed .list).bind fun _ => hI.addNode fun _ _ => rfl))

theorem addobligationhandler (oh : Option CString) (initRc : Int) :
    Keeps I (HandleMemory.addobligationhandler oh initRc) :=
  Keeps.guard (fun _ h => Ensures.throw h) (Keeps.guard (fun _ h => Ensures.throw h)
    (Keeps.get fun _ => (hI.accessed .list).bind fun _ => hI.addNode fun _ _ => rfl))

theorem authorize (keepsStrings : Bool) (reads : List StringName) :
    Keeps I (HandleMemory.authorize keepsStrings reads) := by
  refine Keeps.get fun w => ?_
  cases w.pep.strings .endpointUrl with
  | none => exact Keeps.throw _
  | some url =>
    refine (hI.accessed .list).bind fun _ => (hI.accessed .node).bind fun _ => ?_
    refine (hI.accessed .curl).bind fun _ =>
      Keeps.ite (hI.note fun name n hmem => ?_) (Keeps.pure ())
    obtain ⟨_, -, hmem⟩ := List.mem_flatMap.mp hmem
    obtain ⟨_, -, heq⟩ := List.mem_map.mp hmem
    cases heq

end Stable

/-! ## 2. The whole life -/

/-- A new string is made, put into the handle, and written. -/
def HandleWorld.stored (w : HandleWorld) (name : StringName) (text : CString) : HandleWorld :=
  { w with
    pep := w.pep.withString name (some w.created)
    created := w.created + 1
    asked := w.asked + 1
    events := w.events ++ [.allocated (.string name w.created)] ++
      [.accessed (.string name w.created)]
    contents := Function.update w.contents w.created (text.bytes ++ [0]) }

/-- What is kept by the setting and the freeing of strings as well. -/
structure StringStable (I : HandleWorld → Prop) : Prop extends Stable I where
  freeString : ∀ {ε : Type} (name : StringName),
    Keeps I (HandleMemory.freeString name : OnHandle ε Unit)
  stored : ∀ {w : HandleWorld} (name : StringName) (text : CString), I w → I (w.stored name text)
  attempts : ∀ {w : HandleWorld} (held : StringName → Option Nat)
    (attempts : List (StringName × Attempt)), I w → I { w with held := held, attempts := attempts }

namespace StringStable

variable {ε : Type} {I : HandleWorld → Prop} (hI : StringStable I)
include hI

theorem attempted (name : StringName) (attempt : Attempt) :
    Keeps I (HandleMemory.attempted name attempt : OnHandle ε Unit) :=
  Keeps.modify fun w h => hI.attempts w.held (w.attempts ++ [(name, attempt)]) h

theorem setString (name : StringName) (str : Option CString) :
    Keeps I (HandleMemory.setString name str) := by
  cases str with
  | none => exact Keeps.throw _
  | some str =>
    unfold HandleMemory.setString
    refine Keeps.get fun w => (hI.toStable.accessed (.string name)).bind fun _ => ?_
    refine (hI.freeString name).bind fun _ => ?_
    intro w h
    by_cases hgranted : w.granted w.asked = true
    · have hallocate : Ensures (allocate (.string name) : OnHandle PepError (Option Nat)) w
          (fun r w' => r = some w.created ∧ w' = { w with
            created := w.created + 1
            asked := w.asked + 1
            events := w.events ++ [.allocated (.string name w.created)] }) fun _ => I := by
        refine Ensures.modifyGet ?_
        rw [if_pos hgranted]
        exact ⟨rfl, rfl⟩
      refine hallocate.bind fun r w₁ h₁ => ?_
      obtain ⟨rfl, rfl⟩ := h₁
      refine (Ensures.modify (Q := fun _ w' => w' = _) rfl).bind fun _ w₂ h₂ => ?_
      refine (Ensures.modify (Q := fun _ w' => w' = _) rfl).bind fun _ w₃ h₃ => ?_
      refine (Ensures.modify (Q := fun _ w' => w' = _) rfl).bind fun _ w₄ h₄ => ?_
      subst h₂ h₃ h₄
      refine (hI.toStable.curlEasySetopt _ (hI.stored name str h)).bind fun curlRc w₅ h₅ => ?_
      refine Ensures.ite (fun _ => ?_) fun _ => hI.attempted name .refused w₅ h₅
      have hheld := hI.attempts (Function.update w₅.held name (some w.created)) w₅.attempts h₅
      exact (Ensures.modify (Q := fun _ => I) hheld).bind fun _ w₆ h₆ =>
        hI.attempted name .applied w₆ h₆
    · have hallocate : Ensures (allocate (.string name) : OnHandle PepError (Option Nat)) w
          (fun r w' => r = none ∧ I w') fun _ => I := by
        refine Ensures.modifyGet ?_
        rw [if_neg hgranted]
        exact ⟨rfl, hI.counters w.created (w.asked + 1) w.answered h (Nat.le_refl _)⟩
      refine hallocate.bind fun r w₁ h₁ => ?_
      obtain ⟨rfl, h₁⟩ := h₁
      exact (hI.attempted name .noMemory w₁ h₁).bind fun _ _ h => Ensures.throw h

theorem setoption (option : PepOption) : Keeps I (HandleMemory.setoption option) := by
  cases option with
  | endpointUrl str => exact hI.setString .endpointUrl str
  | endpointSslCipherList str => exact hI.setString .sslCipherList str
  | endpointServerCert str => exact hI.setString .serverCert str
  | endpointServerCapath str => exact hI.setString .serverCapath str
  | endpointClientCert str => exact hI.setString .clientCert str
  | endpointClientKey str => exact hI.setString .clientKey str
  | endpointClientKeypassword str => exact hI.setString .clientKeypassword str
  | endpointTimeout _ | endpointSslValidation _ | logLevel _ | logStderr _ =>
    exact hI.toStable.curlEasySetopt.discard
  | enablePips _ | enableObligationhandlers _ | logHandler _ => exact Keeps.pure ()
  | invalid _ => exact Keeps.throw _

/-- A call on the handle. -/
theorem call (keepsStrings : Bool) (call : HandleCall) : Keeps I (call.run keepsStrings) := by
  cases call with
  | setoption option => exact hI.setoption option
  | addpip pip initRc => exact hI.toStable.addpip pip initRc
  | addobligationhandler oh initRc => exact hI.toStable.addobligationhandler oh initRc
  | authorize reads => exact hI.toStable.authorize keepsStrings reads

theorem runCalls (keepsStrings : Bool) (calls : List HandleCall) {w : HandleWorld} (h : I w) :
    I (HandleMemory.runCalls keepsStrings calls w) := by
  induction calls generalizing w with
  | nil => exact h
  | cons c calls ih => exact ih (hI.call keepsStrings c w h).after

theorem pepDestroy : Keeps I (HandleMemory.pepDestroy : OnHandle ε Unit) := by
  refine hI.toStable.freeHeaders.bind fun _ => hI.toStable.curlEasyCleanup.bind fun _ => ?_
  refine (Keeps.forM hI.freeString).bind fun _ => hI.toStable.deletePips.bind fun _ => ?_
  exact hI.toStable.deleteOhs.bind fun _ => hI.toStable.freeHandle

/-- **It holds behind the whole life of a handle.** -/
theorem handleLife (keepsStrings : Bool) (calls : List HandleCall) {w : HandleWorld} (h : I w) :
    I (HandleMemory.handleLife keepsStrings calls w) := by
  have hmade := (hI.toStable.pepInitialize w h).after
  unfold HandleMemory.handleLife
  rcases hrun : HandleMemory.pepInitialize.run w with ⟨e | a, t⟩ <;> rw [hrun] at hmade
  · exact hmade
  · exact (hI.pepDestroy _ (hI.runCalls keepsStrings calls hmade)).after

end StringStable

end ArgusPep.HandleMemory
