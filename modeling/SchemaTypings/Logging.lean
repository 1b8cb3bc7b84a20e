/-
  SchemaTypings.Logging

  The logger at the root of the package: its level, whether records go on to outer loggers, and the
  handlers that receive them.
-/
import SchemaTypings.Fault
import SchemaTypings.Json.Basic
import SchemaTypings.Text.Case

namespace SchemaTypings.Logging

/-- What receives log records. -/
inductive Handler where
  /-- Drops every record. -/
  | silent
  /-- Shows records with colours. -/
  | rich
  /-- Writes records as plain text. -/
  | stream
deriving DecidableEq

/-- The state of the root logger; at first it is silent and sets no level. -/
structure RootLogger where
  level : Json := .int 0
  propagates : Bool := true
  handlers : List Handler := [.silent]

/-- Why a level is not taken. -/
inductive LevelError where
  | unknownLevel
  | fault (fault : Fault)
deriving DecidableEq

/-- The number of a level name. -/
def levelOf? (name : String) : Option Int :=
  match name with
  | "CRITICAL" | "FATAL" => some 50
  | "ERROR" => some 40
  | "WARNING" | "WARN" => some 30
  | "INFO" => some 20
  | "DEBUG" => some 10
  | "NOTSET" => some 0
  | _ => none

/-- The level that a value gives: a number or a truth value itself, or the number of a name in any
case. -/
def readLevel (level : Json) : Except LevelError Json :=
  match level with
  | .int _ | .bool _ => .ok level
  | .str name =>
    match levelOf? (Text.upperString name) with
    | some n => .ok (.int n)
    | none => .error .unknownLevel
  | _ => .error (.fault .noSuchOperation)

/-- The name of a logger under the root: the root and what is already under it keep their names. -/
def qualifiedName (root name : String) : String :=
  if name = root ∨ (root.toList ++ ['.']).isPrefixOf name.toList then name
  else root ++ "." ++ name

/-- The logger with one handler beside the silent ones, at a level.  The handler is put in place even
where the level is not taken. -/
def RootLogger.setUp (logger : RootLogger) (level : Json) (rich : Bool) :
    RootLogger × Except LevelError Unit :=
  let handlers := logger.handlers.filter (· = .silent) ++ [if rich then .rich else .stream]
  match readLevel level with
  | .ok n => ({ level := n, propagates := false, handlers }, .ok ())
  | .error e => ({ logger with handlers }, .error e)

end SchemaTypings.Logging
