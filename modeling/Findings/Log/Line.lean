import Findings.Json.Writer
import Findings.Log.Event

/-!
# Log lines

A record is written as one JSON object on one line.
-/

namespace Findings.Log

def levelName (level : Level) : Text :=
  if level = 50 then "CRITICAL"
  else if level = 40 then "ERROR"
  else if level = 30 then "WARNING"
  else if level = 20 then "INFO"
  else if level = 10 then "DEBUG"
  else if level = 0 then "NOTSET"
  else "Level " ++ Text.ofInt level

/-- The fields that are set, in their fixed order. -/
def Fields.entries (f : Fields) : List (Text × Value) :=
  [("file", f.file), ("category", f.category), ("label", f.label), ("format", f.format)].filterMap
    fun (key, v) => v.map fun v => (Text.ofString key, v)

/-- The object written for a record; every part of it may be set from outside. -/
def payload (time : Option Text) (level logger : Value) (message : Text) (fields : Fields)
    (exception : Option Text) : List (Text × Value) :=
  (time.map fun t => (Text.ofString "ts", Value.text t)).toList ++
  [(Text.ofString "level", level), (Text.ofString "logger", logger),
   (Text.ofString "msg", .text message)] ++
  fields.entries ++
  (exception.map fun e => (Text.ofString "exc", Value.text e)).toList

/-- The object written for a record that was logged at `time`. -/
def Record.payload (r : Record) (time : Option Text) : List (Text × Value) :=
  Log.payload time (.text (levelName r.level)) (.text r.logger) r.message r.fields r.exception

def Record.line (r : Record) (time : Option Text) : Text :=
  Json.write .spaced (.object (r.payload time))

end Findings.Log
