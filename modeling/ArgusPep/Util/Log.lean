/-
  File:      ArgusPep/Util/Log.lean
  Subject:   The log of util/log.c: a level, a handler and an output file, shared by the whole
             library.

  A message is what the handler is called with: a level, a format and its arguments, a string
  argument with the bytes it points to at that time. The default handler writes to the output file;
  without one it drops the message.
-/
import ArgusPep.Util.Bytes

namespace ArgusPep

/-! ## 1. Levels -/

/-- `log_level_t`; no message of its levels 1 (WARN) and 2 (INFO) is modelled. -/
abbrev LogLevel := Int

abbrev LOG_LEVEL_NONE : LogLevel := -1
abbrev LOG_LEVEL_ERROR : LogLevel := 0
abbrev LOG_LEVEL_DEBUG : LogLevel := 3

/-! ## 2. Messages -/

/-- An argument behind a format. -/
inductive LogArg where
  | int (n : Int)
  | str (s : Option CString)
  | ptr (p : Option Nat)
deriving DecidableEq

structure LogMessage where
  level : LogLevel
  format : String
  args : List LogArg
deriving DecidableEq

/-! ## 3. The logger -/

inductive LogHandler where
  /-- `default_log_handler`. -/
  | default
  | callback (address : Nat)
deriving DecidableEq

structure Logger where
  /-- `log_level`. -/
  level : LogLevel
  /-- `log_handler`, which may be set to NULL. -/
  handler : Option LogHandler
  /-- `log_out`. -/
  out : Option Nat
deriving DecidableEq

/-- The logger of a program that has set nothing. -/
def Logger.initial : Logger := ⟨LOG_LEVEL_NONE, some .default, none⟩

/-- A message of the level reaches somebody. -/
def Logger.emits (logger : Logger) (level : LogLevel) : Bool :=
  decide (level ≤ logger.level) && match logger.handler with
    | none => false
    | some .default => logger.out.isSome
    | some (.callback _) => true

/-- The messages a call of `log_error`, `log_warn`, `log_info` or `log_debug` gives. -/
def Logger.message (logger : Logger) (level : LogLevel) (format : String) (args : List LogArg) :
    List LogMessage :=
  if logger.emits level then [⟨level, format, args⟩] else []

end ArgusPep
