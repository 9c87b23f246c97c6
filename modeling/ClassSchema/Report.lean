import ClassSchema.File.Path
import ClassSchema.Source.Fault

/-!
# Reports

A report shows a fault to a person: what is wrong, a label for the place, and,
for most faults, how to mend it.
-/

namespace ClassSchema

structure Report where
  message : Text
  label : Text
  span : Span
  help : Option Text
deriving DecidableEq, Repr

/-- How to mend a violation. -/
def Violation.help? : Violation → Option Text
  | repeatedField name =>
    some ("Remove the duplicate '" ++ name ++ "' or rename one of the fields.")
  | tagTarget _ =>
    some "Tag targets start with a letter and use letters, digits, '_' or '-'."
  | _ => none

def Report.ofFault : Fault → Report
  | .malformedType part s =>
    ⟨"malformed type '" ++ part.text ++ "'", part.fault.reason, s,
      some ("Types are a primitive, \x60T[]\x60, \x60map[K]V\x60, \x60Name[A, B]\x60 " ++
        "or a custom name, optionally followed by \x60?\x60.")⟩
  | .malformedField line s =>
    ⟨"malformed field '" ++ line ++ "'", "expected a name followed by a type", s,
      some "Write fields as \x60name type [target:\"value\" ...]\x60."⟩
  | .missingClassName s =>
    ⟨"missing class name", "expected a header line", s,
      some "Start the file with the class name, e.g. \x60User:\x60."⟩
  | .repeatedTag target s =>
    ⟨"duplicate tag '" ++ target ++ "'", "already tagged on this field", s,
      some "Merge the values into one tag, e.g. \x60db:\"id,pk\"\x60."⟩
  | .trailingText text s =>
    ⟨"unexpected text '" ++ text ++ "' after tags", "not a tag", s,
      some "Tags are written \x60target:\"value\"\x60; remove the text or quote its value."⟩
  | .violation cause s =>
    ⟨"schema validation error: " ++ cause.message, "validation failed", s, cause.help?⟩

theorem Report.span_ofFault (fault : Fault) : (Report.ofFault fault).span = fault.span := by
  cases fault <;> rfl

/-- A report on lines of its own. -/
def Report.render (path : Path) (r : Report) : Text :=
  Text.joined "\n" (["error: " ++ r.message,
    "  --> " ++ path.text ++ ":" ++ r.span.render ++ ": " ++ r.label] ++
    (r.help.map helpLine).toList)
where
  helpLine (help : Text) : Text := "  help: " ++ help

end ClassSchema
