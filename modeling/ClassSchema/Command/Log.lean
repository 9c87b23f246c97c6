import ClassSchema.File.Path
import ClassSchema.Source.Line
import ClassSchema.Target.Language
import ClassSchema.Text.Quoted

/-!
# The log

A run notes what it does. A note has a level, an origin and named fields.
-/

namespace ClassSchema

inductive LogLevel where
  | error | warning | info | debug | trace
deriving DecidableEq, Repr

namespace LogLevel

/-- Lower levels are more urgent. -/
def rank : LogLevel → Nat
  | error => 1
  | warning => 2
  | info => 3
  | debug => 4
  | trace => 5

def label : LogLevel → Text
  | error => "ERROR"
  | warning => "WARN"
  | info => "INFO"
  | debug => "DEBUG"
  | trace => "TRACE"

end LogLevel

/-- Which part of the program makes a note. -/
inductive LogOrigin where
  | reading
  | rendering (language : Language)
  | settings | discovery | tidying | running
deriving DecidableEq, Repr

def LogOrigin.name : LogOrigin → Text
  | reading => "ultratype_dsl::parser"
  | rendering .go => "ultratype_codegen::go"
  | rendering .typeScript => "ultratype_codegen::typescript"
  | settings => "ultratype::config"
  | discovery => "ultratype::commands"
  | tidying => "ultratype::commands::tidy"
  | running => "ultratype"

inductive LogEntry where
  | ignoredText (notice : Notice)
  | readModel (name : ClassName) (fieldCount : Nat)
  | rendering (language : Language) (name : ClassName) (targetCount : Nat)
  | noSettings
  | loadedSettings (path : Path)
  | discovered (count : Nat)
  | alreadyTidy (path : Path)
  | unknownCommand (words : List Text)

namespace LogEntry

def level : LogEntry → LogLevel
  | ignoredText _ => .warning
  | _ => .debug

def origin : LogEntry → LogOrigin
  | ignoredText _ | readModel .. => .reading
  | rendering language .. => .rendering language
  | noSettings | loadedSettings _ => .settings
  | discovered _ => .discovery
  | alreadyTidy _ => .tidying
  | unknownCommand _ => .running

/-- The names of the fields of a note; its text is one of them. -/
def fieldNames : LogEntry → List Text
  | ignoredText _ => ["message", "field", "ignored"]
  | readModel .. => ["message", "class", "fields"]
  | rendering .. => ["message", "language", "class", "universe"]
  | noSettings => ["message"]
  | loadedSettings _ => ["message", "path"]
  | discovered _ => ["message", "count"]
  | alreadyTidy _ => ["message", "file"]
  | unknownCommand _ => ["message", "args"]

def message : LogEntry → Text
  | ignoredText n =>
    "ignoring text after tags field=" ++ n.field.text ++ " ignored=" ++ Text.quoted n.ignored
  | readModel name count =>
    "parsed schema class=" ++ name.text ++ " fields=" ++ Text.ofNat count
  | rendering language name count =>
    "rendering model language=" ++ language.identifier ++ " class=" ++ name.text ++
      " universe=" ++ Text.ofNat count
  | noSettings => "no config file found, using defaults"
  | loadedSettings path => "loaded config path=" ++ path.text
  | discovered count => "discovered schema files count=" ++ Text.ofNat count
  | alreadyTidy path => "already tidy file=" ++ path.text
  | unknownCommand words => "ignoring unrecognized command args=" ++ Text.quotedWords words

/-- The note as it is shown. -/
def render (e : LogEntry) : Text := e.level.label ++ " " ++ e.message

end LogEntry

end ClassSchema
