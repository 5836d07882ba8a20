import ImagePipeline.Text.Blank
import ImagePipeline.Text.Numeral
import ImagePipeline.Text.Split

/-!
# Log filters

A filter is a row of directives with commas in between. A directive is a level, a target, or a
target and a level with an equals sign in between; a target without a level enables everything for
it. `LogFilter.maxLevel` is the most verbose level that a filter enables anywhere, unless something
is wrong with it; then the first faulty directive decides what (`LogFilter.Fault`).
-/

namespace ImagePipeline

inductive LogLevel where
  | off
  | error
  | warn
  | info
  | debug
  | trace
  deriving DecidableEq, Repr

namespace LogLevel

def all : List LogLevel := [off, error, warn, info, debug, trace]

def name : LogLevel → String
  | off => "off"
  | error => "error"
  | warn => "warn"
  | info => "info"
  | debug => "debug"
  | trace => "trace"

/-- The number of a level: zero for nothing. -/
def rank (l : LogLevel) : Nat := all.idxOf l

def moreVerbose (a b : LogLevel) : LogLevel := if a.rank < b.rank then b else a

def read? (text : List Char) : Option LogLevel :=
  match Text.natural? 5 text with
  | some n => all[n]?
  | none => all.find? fun l => l.name == String.ofList (text.map Char.toLower)

end LogLevel

namespace LogFilter

inductive Fault where
  | directive
  | level
  deriving DecidableEq, Repr

def levelChoices : String :=
  "expected one of \"off\", \"error\", \"warn\", \"info\", \"debug\", \"trace\", or a number 0-5"

def Fault.message : Fault → String
  | directive => "invalid filter directive"
  | level => "error parsing level filter: " ++ levelChoices

/-- Whether a directive can begin with a character: a letter or digit, a sign that names contain,
or the bracket in front of the name of a span. -/
def isFirst (c : Char) : Bool :=
  c.isAlphanum || 128 ≤ c.toNat || c == '-' || c == ':' || c == '_' || c == '['

/-- The level of a directive. The text behind the first equals sign has to be a level or empty, and
then nothing blank may stand in front of the target; a text without an equals sign that is no level
is a target. -/
def directiveLevel (directive : List Char) : Except Fault LogLevel :=
  match directive.dropWhile Text.isBlank with
  | [] => .error .directive
  | first :: rest =>
    if !isFirst first then .error .directive
    else
      match Text.cutAt '=' (first :: rest) with
      | none => .ok ((LogLevel.read? directive).getD .trace)
      | some (_, level) =>
        if directive.head? ≠ some first then .error .level
        else if level.isEmpty then .ok .trace
        else
          match LogLevel.read? level with
          | some level => .ok level
          | none => .error .level

/-- The most verbose level that a filter enables, or the fault of its first faulty directive; a
filter without directives enables errors. -/
def readLevel (filter : String) : Except Fault LogLevel := do
  let directives := (Text.pieces ',' filter.toList).filter fun d => !d.isEmpty
  match ← directives.mapM directiveLevel with
  | [] => return .error
  | levels => return levels.foldl LogLevel.moreVerbose .off

def refusal (filter : String) (fault : Fault) : String :=
  "invalid log filter `" ++ filter ++ "`: " ++ fault.message

def maxLevel (filter : String) : Except String LogLevel :=
  (readLevel filter).mapError (refusal filter)

end LogFilter

end ImagePipeline
