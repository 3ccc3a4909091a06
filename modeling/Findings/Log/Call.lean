import Findings.Log.Exception
import Findings.Log.Line
import Findings.Log.Template
import Findings.Log.Time

/-!
# Log calls

A call gives a level, a logger, a template and its arguments. Besides, it may set attributes of its record
by name. Of these, only those that are written matter; one that a record has anyway takes the place of what
the call gave.
-/

namespace Findings.Log

structure Call where
  level : Level
  logger : Text
  template : Text
  arguments : List Value := []
  /-- Seconds since the start of 1970. Where no time is given, none is written. -/
  time : Option Value := none
  exception : Option Exception := none
  attributes : List (Text × Value) := []
deriving Repr

/-- Why no record can be written for a call. -/
inductive CallFault where
  | time (e : TimeFault)
  | timeNotNumber
  | template (e : TemplateFault)
  /-- The operation that gives the message was replaced by a value. -/
  | messageReplaced
  /-- In the place of an exception stands a value without parts. -/
  | exceptionNotParted
  /-- In the place of an exception stands an object, which has no first part. -/
  | exceptionWithoutFirst
  | exceptionTooShort
  /-- Parts that are not those of an exception. -/
  | notAnException
  /-- An integer with too many digits to be written. -/
  | integerTooLong
deriving DecidableEq, Repr

def timeText (v : Value) : Except CallFault Text :=
  let written (t : Except TimeFault Time) : Except CallFault Text := (t.bind Time.utc).mapError .time
  match v with
  | .int n => written (.ok ⟨n, 0⟩)
  | .bool b => written (.ok ⟨b.toNat, 0⟩)
  | .float x => written (Time.ofFloat x)
  | _ => .error .timeNotNumber

/-- The text of what stands in the place of an exception. A first part that is null, or nothing at all,
is no exception; of three parts the last two must be null, as nothing else is an exception here. -/
def exceptionText (v : Value) : Except CallFault (Option Text) :=
  if !v.isGiven then .ok none
  else match v with
  | .list (.null :: _) => .ok none
  | .list (_ :: .null :: .null :: _) => .ok (some "NoneType: None")
  | .list (_ :: _ :: _ :: _) => .error .notAnException
  | .list _ => .error .exceptionTooShort
  | .text (_ :: _ :: _ :: _) => .error .notAnException
  | .text _ => .error .exceptionTooShort
  | .object _ => .error .exceptionWithoutFirst
  | _ => .error .exceptionNotParted

namespace Call

def attribute? (c : Call) (name : String) : Option Value :=
  Value.field? c.attributes (Text.ofString name)

/-- When the call was made, if that is written. A time that is set must be one in any case. -/
def writtenTime (c : Call) : Except CallFault (Option Text) :=
  match c.attribute? "created", c.time with
  | some v, time => (timeText v).map fun t => time.map fun _ => t
  | none, some v => (timeText v).map some
  | none, none => .ok none

/-- The template, or what is set in its place, if that can be written out. -/
def templateText (c : Call) : Except CallFault Text :=
  match c.attribute? "msg" with
  | some v => if v.isLegible then .ok v.display else .error .integerTooLong
  | none => .ok c.template

def message (c : Call) : Except CallFault Text :=
  let arguments := match c.attribute? "args" with
    | some v => Arguments.ofValue? v
    | none => Arguments.ofList? c.arguments
  if (c.attribute? "getMessage").isSome then .error .messageReplaced
  else match c.templateText with
  | .error e => .error e
  | .ok template => (Log.message template arguments).mapError .template

def writtenException (c : Call) : Except CallFault (Option Text) :=
  match c.attribute? "exc_info" with
  | some v => exceptionText v
  | none => .ok (c.exception.map Exception.written)

def fields (c : Call) : Fields where
  file := c.attribute? "file"
  category := c.attribute? "category"
  label := c.attribute? "label"
  format := c.attribute? "format"

/-- The line that is written for a call, if all integers on it can be written. -/
def line (c : Call) : Except CallFault Text := do
  let time ← c.writtenTime
  let message ← c.message
  let exception ← c.writtenException
  let level := (c.attribute? "levelname").getD (.text (levelName c.level))
  let logger := (c.attribute? "name").getD (.text c.logger)
  let fields := payload time level logger message c.fields exception
  if Value.fieldsLegible fields then pure (Json.write .spaced (.object fields))
  else throw .integerTooLong

end Call
end Findings.Log
