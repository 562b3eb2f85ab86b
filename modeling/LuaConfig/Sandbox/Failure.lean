/-
Why a script has no result.

A failure is either the script's own (`execution`, `outOfInstructions`), or lies in what it
returned (`missingSection`), or came before it (`preparation`).
-/
namespace LuaConfig

/-- What has gone wrong while a script was read or run. -/
inductive Cause where
  /-- An error with the given text has been raised. -/
  | raised (text : String)
  /-- The text of a chunk is malformed. -/
  | malformed (chunk : String) (line : Nat)
  | outOfMemory
  /-- The run goes on and on: it has neither failed nor ended. -/
  | endless
  deriving DecidableEq, Repr

/-- The text of a cause. -/
def Cause.message : Cause → String
  | raised text => "runtime error: " ++ text
  | malformed chunk line => "syntax error: " ++ chunk ++ ":" ++ Nat.repr line ++ ":"
  | outOfMemory => "memory error: not enough memory"
  | endless => "the run does not end"

inductive Failure where
  | execution (chunk : String) (cause : Cause)
  | outOfInstructions (chunk : String) (limit : Nat)
  /-- A table that a record cannot do without is not there. -/
  | missingSection (name : String)
  /-- There was no room to prepare the run. -/
  | preparation (cause : Cause)
  deriving DecidableEq, Repr

namespace Failure

/-- The text of a failure. -/
def message : Failure → String
  | execution chunk cause => "failed to execute " ++ chunk ++ ": " ++ cause.message
  | outOfInstructions chunk limit =>
    chunk ++ " exceeded the limit of " ++ Nat.repr limit ++ " instructions"
  | missingSection name => "missing required section '" ++ name ++ "'"
  | preparation cause => "failed to prepare sandbox: " ++ cause.message

/-- Could the script not be run to its end? -/
def isExecution : Failure → Bool
  | execution .. => true
  | outOfInstructions .. => true
  | _ => false

def isMissingSection : Failure → Bool
  | missingSection _ => true
  | _ => false

end Failure

end LuaConfig
