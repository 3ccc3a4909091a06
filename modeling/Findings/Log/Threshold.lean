import Findings.Environment
import Findings.Log.Event

/-!
# Thresholds

From which level on records are written. The name of the threshold comes from outside; capitals do not
matter. It is looked up among all settings of the log system, so two names that belong to others than the levels
are refused; any name of none stands for the level of information. Three loggers have a level of their own. A
logger without one has that of the next logger above it, and in the end the threshold.
-/

namespace Findings.Log

/-- The capital form of a character, where it is spelled in ASCII. -/
def capital (c : CodePoint) : Text :=
  if 0x61 ≤ c.val && c.val ≤ 0x7A then [.ofNat (c.val - 32)]
  else if c.val = 0xDF then "SS"
  else if c.val = 0x131 then "I"
  else if c.val = 0x17F then "S"
  else if c.val = 0xFB00 then "FF"
  else if c.val = 0xFB01 then "FI"
  else if c.val = 0xFB02 then "FL"
  else if c.val = 0xFB03 then "FFI"
  else if c.val = 0xFB04 then "FFL"
  else if c.val = 0xFB05 || c.val = 0xFB06 then "ST"
  else [c]

/-- `t` in capitals, as far as they are spelled in ASCII; no other capitals occur in a name. -/
def capitals (t : Text) : Text := t.flatMap capital

/-! ## Names -/

def namedLevels : List (Text × Level) :=
  [("CRITICAL", 50), ("FATAL", 50), ("ERROR", 40), ("WARNING", 30), ("WARN", 30), ("INFO", 20),
   ("DEBUG", 10), ("NOTSET", 0)]

/-- What a name of the log system stands for. -/
inductive Setting where
  | level (n : Level)
  | text (t : Text)
  | table
deriving DecidableEq, Repr

/-- The names without small letters. -/
def namedSettings : List (Text × Setting) :=
  namedLevels.map (fun e => (e.1, Setting.level e.2)) ++
    [(Text.ofString "BASIC_FORMAT", Setting.text "%(levelname)s:%(name)s:%(message)s"),
     (Text.ofString "_STYLES", Setting.table)]

inductive ThresholdFault where
  /-- A text that is the name of no level. -/
  | unknownLevel
  /-- Something that can be no level. -/
  | notALevel
deriving DecidableEq, Repr

/-- The level that a setting gives; a text gives the one that it names. -/
def Setting.toLevel : Setting → Except ThresholdFault Level
  | level n => .ok n
  | text t => match namedLevels.find? fun e => e.1 = t with
    | some e => .ok e.2
    | none => .error .unknownLevel
  | table => .error .notALevel

/-- The threshold of a name, of information if none is given. -/
def threshold (name : Option Text) : Except ThresholdFault Level :=
  let found := (namedSettings.find? fun e => e.1 = capitals (name.getD "INFO")).map (·.2)
  (found.getD (.level info)).toLevel

/-- The threshold that an environment sets. -/
def thresholdIn (env : Environment) : Except ThresholdFault Level := threshold (env.get? "LOG_LEVEL")

/-! ## Loggers -/

def quietLoggers : List Text := ["uvicorn.access", "httpcore", "httpx"]

/-- The loggers that there are, with their own levels; zero for those that have none. -/
abbrev Loggers := List (Text × Level)

/-- The quiet loggers, and others without a level. -/
def loggersWith (others : List Text) : Loggers :=
  quietLoggers.map (fun name => (name, warning)) ++ others.map fun name => (name, 0)

def ownLevel? (loggers : Loggers) (name : Text) : Option Level :=
  (loggers.find? fun e => e.1 = name).map (·.2)

/-- The level that comes from above, for a name that is read from its end. What stands in front of a dot may be
the name of a logger. If it is none, the character in front of the dot is passed over. -/
def inherited (loggers : Loggers) (root : Level) : Text → Level
  | [] => root
  | [_] => root
  | c :: d :: r =>
    if c = .ofChar '.' then
      match ownLevel? loggers (d :: r).reverse with
      | none => inherited loggers root r
      | some level => if level = 0 then inherited loggers root (d :: r) else level
    else inherited loggers root (d :: r)

/-- The level that holds for a logger. -/
def levelOf (loggers : Loggers) (root : Level) (name : Text) : Level :=
  ((ownLevel? loggers name).filter (· ≠ 0)).getD (inherited loggers root name.reverse)

/-- Levels up to zero are switched off for all loggers. -/
def isWrittenAmong (loggers : Loggers) (root : Level) (logger : Text) (level : Level) : Bool :=
  0 < level && levelOf loggers root logger ≤ level

def isWritten (root : Level) (logger : Text) (level : Level) : Bool :=
  isWrittenAmong (loggersWith []) root logger level

end Findings.Log
