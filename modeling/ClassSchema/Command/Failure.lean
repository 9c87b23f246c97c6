import ClassSchema.File.Pattern
import ClassSchema.File.System
import ClassSchema.Json.Value
import ClassSchema.Source.Fault
import ClassSchema.Target.Language

/-!
# Failures

Why a run stops, what it says about that, and the exit code it ends with.
-/

namespace ClassSchema

inductive Failure where
  /-- A file is no schema. -/
  | invalidFile (path : Path) (faults : List Fault)
  /-- Some files, whose faults have been reported, are no schemas. -/
  | invalidFiles (paths : List Path)
  | unsupportedLanguage (word : Text)
  | collision (path : Path) (cause : Collision)
  /-- The file system refuses something. -/
  | access (path : Path) (cause : FileError)
  | missing (path : Path)
  | malformedSettings (path : Path)
  | emptyExtension (path : Path)
  | noSchemaFiles (path : Path)
  | untidy (paths : List Path)
  | pattern (cause : PatternError)
  | noFileName (path : Path)

namespace Failure

/-- What is said about settings that cannot be read. -/
def malformedExplanation : Text := "not a valid settings file"

/-- Names one file or the number of several. -/
def place : List Path → Text
  | [path] => path.text
  | paths => Text.ofNat paths.length ++ " files"

def malformedMessage (path : Path) : Text :=
  "failed to parse " ++ path.text ++ ": " ++ malformedExplanation

def emptyExtensionMessage (path : Path) : Text :=
  path.text ++ ": schemas.extension must not be empty"

/-- What is said about a path that leads nowhere. -/
def missingCause : Text := "no such file or directory"

def accessMessage (path : Path) (cause : Text) : Text :=
  "IO error for " ++ path.text ++ ": " ++ cause

def message : Failure → Text
  | invalidFile path _ => "parse errors in " ++ path.text
  | invalidFiles paths => "parse errors in " ++ place paths
  | unsupportedLanguage word => Language.unsupportedMessage word
  | collision path cause => "cannot generate " ++ path.text ++ ": " ++ cause.message
  | access path cause => accessMessage path cause.message
  | missing path => accessMessage path missingCause
  | malformedSettings path => "configuration error: " ++ malformedMessage path
  | emptyExtension path => "configuration error: " ++ emptyExtensionMessage path
  | noSchemaFiles path => "no schema files found in " ++ path.text
  | untidy paths => Text.ofNat paths.length ++ " file(s) not tidy"
  | pattern cause => cause.message
  | noFileName path => "cannot derive a file name from " ++ path.text

def exitCode : Failure → Nat
  | invalidFile .. | invalidFiles _ => 3
  | unsupportedLanguage _ => 4
  | malformedSettings _ | emptyExtension _ | noSchemaFiles _ => 2
  | untidy _ => 5
  | collision .. | access .. | missing _ | pattern _ | noFileName _ => 1

open Json (Value)
open Json.Value (Members)

def text (t : Text) : Value := .string t

def texts (ts : List Text) : Value := .array (ts.map .string)

def faultValue (f : Fault) : Value :=
  let members : Members := [("end", .number f.span.stop), ("message", .string f.message),
    ("start", .number f.span.start)]
  .object members

def faultsValue (faults : List Fault) : Value := .array (faults.map faultValue)

/-- The members of the object that describes a failure, by the order of the keys. -/
def members : Failure → Members
  | invalidFile path faults => parseMembers path.text faults
  | invalidFiles paths => parseMembers (place paths) []
  | unsupportedLanguage word =>
    [("error", text "unsupported_language"), ("language", text word),
      ("supported", texts Language.identifiers)]
  | collision path cause =>
    [("error", text "generate_error"), ("file", text path.text), ("message", text cause.message)]
  | access path cause => accessMembers path cause.message
  | missing path => accessMembers path missingCause
  | malformedSettings path => settingsMembers (malformedMessage path)
  | emptyExtension path => settingsMembers (emptyExtensionMessage path)
  | untidy paths => [("error", text "tidy_check_failed"), ("files", texts (paths.map (·.text)))]
  | failure => [("error", text "error"), ("message", text failure.message)]
where
  parseMembers (file : Text) (faults : List Fault) : Members :=
    [("error", text "parse_error"), ("errors", faultsValue faults), ("file", text file)]
  accessMembers (path : Path) (cause : Text) : Members :=
    [("error", text "io_error"), ("message", text cause), ("path", text path.text)]
  settingsMembers (what : Text) : Members :=
    [("error", text "config_error"), ("message", text what)]

def value (failure : Failure) : Value := .object failure.members

end Failure

end ClassSchema
