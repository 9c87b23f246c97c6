import ClassSchema.Text.Basic
import ClassSchema.Type.Reader
import ClassSchema.Name

/-!
# Faults of a source

What can be wrong with a line or a file of the schema language, and where.
-/

namespace ClassSchema

inductive Fault where
  /-- A type expression, given by its innermost unreadable part. -/
  | malformedType (part : MalformedType) (span : Span)
  /-- A line with fewer than two words. -/
  | malformedField (line : Text) (span : Span)
  | missingClassName (span : Span)
  | repeatedTag (target : Text) (span : Span)
  /-- Text behind the tags of a field, where that is refused. -/
  | trailingText (text : Text) (span : Span)
  | violation (cause : Violation) (span : Span)
deriving DecidableEq, Repr

namespace Fault

def span : Fault → Span
  | malformedType _ s | malformedField _ s | missingClassName s | repeatedTag _ s
  | trailingText _ s | violation _ s => s

/-- The same fault in a text where its line begins at an offset. -/
def shifted (offset : Nat) : Fault → Fault
  | malformedType part s => malformedType part (s.shifted offset)
  | malformedField line s => malformedField line (s.shifted offset)
  | missingClassName s => missingClassName (s.shifted offset)
  | repeatedTag target s => repeatedTag target (s.shifted offset)
  | trailingText text s => trailingText text (s.shifted offset)
  | violation cause s => violation cause (s.shifted offset)

def cause? : Fault → Option Violation
  | violation cause _ => some cause
  | _ => none

def message : Fault → Text
  | malformedType part s =>
    "malformed type '" ++ part.text ++ "' at " ++ s.render ++ ": " ++ part.fault.reason
  | malformedField line s =>
    "malformed field '" ++ line ++ "' at " ++ s.render ++ ": expected a name followed by a type"
  | missingClassName s =>
    "missing class name at " ++ s.render ++ ": the first line must name the class"
  | repeatedTag target s => "duplicate tag '" ++ target ++ "' at " ++ s.render
  | trailingText text s => "unexpected text '" ++ text ++ "' after tags at " ++ s.render
  | violation cause s => "schema validation error at " ++ s.render ++ ": " ++ cause.message

@[simp] theorem span_shifted (offset : Nat) (f : Fault) :
    (f.shifted offset).span = f.span.shifted offset := by
  cases f <;> rfl

end Fault

end ClassSchema
