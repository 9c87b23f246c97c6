import ClassSchema.Command.Log
import ClassSchema.Text.Blank

/-!
# Log filters

Which notes are shown is decided by a filter, which is a list of directives.
A directive sets a level for the origins whose names begin with its target and
for the notes that have its fields. Of the directives that apply to a note the
most specific one decides: the one with the longest target, then with the most
fields.
-/

namespace ClassSchema

structure LogDirective where
  target : Text
  fields : List Text
  /-- Nothing is shown without a level. -/
  level : Option LogLevel
deriving DecidableEq, Repr

namespace LogDirective

def appliesTo (d : LogDirective) (e : LogEntry) : Bool :=
  d.target.isPrefixOf e.origin.name && d.fields.all (e.fieldNames.contains ·)

/-- The order by specificity. -/
def order (a b : LogDirective) : Ordering :=
  (compare a.target.length b.target.length).then
    ((compare a.fields.length b.fields.length).then
      (List.compareLex Text.order a.fields b.fields))

/-- The more specific one of two directives, or else the later one. -/
def moreSpecific (earlier later : LogDirective) : LogDirective :=
  if order earlier later = .gt then earlier else later

/-- The levels by the numbers that stand for them. -/
def numberedLevels : List (Option LogLevel) :=
  [none, some .error, some .warning, some .info, some .debug, some .trace]

def namedLevels : List (Text × Option LogLevel) :=
  [("off", none), ("error", some .error), ("warn", some .warning), ("info", some .info),
    ("debug", some .debug), ("trace", some .trace)]

/-- The level of a number, which may have a sign. -/
def numberedLevel? (word : Text) : Option (Option LogLevel) :=
  let digits := (Text.withoutStart? "+" word).getD word
  if digits.isEmpty ∨ !digits.all Char.isDigit then none
  else numberedLevels[digits.foldl (fun n c => 10 * n + (c.toNat - '0'.toNat)) 0]?

/-- The level of a name, whatever its case, or of a number. -/
def level? (word : Text) : Option (Option LogLevel) :=
  (namedLevels.lookup (Text.asciiLower word)).or (numberedLevel? word)

/-- The level behind an equals sign. Without one everything is shown. -/
def levelBehind? (word : Text) : Option (Option LogLevel) :=
  if word.isEmpty then some (some .trace) else level? word

/-- Characters that a level or a target begins with. -/
def isStart (c : Char) : Bool :=
  c == '-' || c == ':' || c == '_' || c.isAlphanum || (0x7F < c.toNat && !Text.isHidden c)

/-- The level of a directive, where `position` characters stand in front of what
is left of it. -/
def finish? (t : Text) (position : Nat) : Text → Option (Option LogLevel)
  | [] => some (some .trace)
  | '=' :: _ => levelBehind? (t.drop (position + 1))
  | _ => none

/-- Reads brackets behind a target. They may name a span, and fields between
braces. Nothing is ever noted within a span, and fields are not compared with
values, so only names of fields alone make a directive. -/
def readBrackets? (t target : Text) (position : Nat) (u : Text) : Option (List LogDirective) :=
  let name := u.takeWhile fun c => c != ']' && c != '\x7b'
  match u.drop name.length with
  | ']' :: rest => (finish? t (position + name.length + 1) rest).map fun _ => []
  | '\x7b' :: inner =>
    let field := inner.takeWhile (· != '\x7d')
    match inner.drop field.length with
    | '\x7d' :: ']' :: rest => do
      guard !field.isEmpty
      let level ← finish? t (position + name.length + field.length + 3) rest
      return if name.isEmpty ∧ !field.contains '=' then [⟨target, [field], level⟩] else []
    | _ => none
  | _ => none

/-- Reads a level, a target, or both with an equals sign between them. Marks are
looked for behind white space in front, but what lies between them is counted
from the very beginning. -/
def read? (t : Text) : Option (List LogDirective) :=
  let u := Text.trim t
  let size := (u.takeWhile fun c => c != '=' && c != '[').length
  if !(u.head?.any fun c => c == '[' || isStart c) then none
  else
    match u.drop size with
    | '[' :: rest => readBrackets? t (t.take size) (size + 1) rest
    | '=' :: _ => (levelBehind? (t.drop (size + 1))).map fun level => [⟨t.take size, [], level⟩]
    | _ =>
      match level? t with
      | some level => some [⟨[], [], level⟩]
      | none => some [⟨t, [], some .trace⟩]

end LogDirective

abbrev LogFilter := List LogDirective

namespace LogFilter

/-- Directives with commas between them. If there are none, errors are shown. -/
def read? (t : Text) : Option LogFilter :=
  match (Text.splitOn ',' t).filter (· ≠ []) with
  | [] => some [⟨[], [], some .error⟩]
  | parts => (parts.mapM LogDirective.read?).map List.flatten

/-- The directives that apply to a note. -/
def applicable (filter : LogFilter) (e : LogEntry) : List LogDirective :=
  filter.filter (·.appliesTo e)

def deciding? (filter : LogFilter) (e : LogEntry) : Option LogDirective :=
  match filter.applicable e with
  | [] => none
  | d :: ds => some (ds.foldl LogDirective.moreSpecific d)

def shows (filter : LogFilter) (e : LogEntry) : Bool :=
  match (filter.deciding? e).bind (·.level) with
  | some level => e.level.rank ≤ level.rank
  | none => false

/-- The filter without a setting of its own, by how often more was asked for and
whether less was. -/
def ofVerbosity (verbosity : Nat) (quiet : Bool) : LogFilter :=
  let level : LogLevel :=
    if quiet then .error
    else
      match verbosity with
      | 0 => .warning
      | 1 => .info
      | 2 => .debug
      | _ => .trace
  [⟨[], [], some level⟩]

end LogFilter

end ClassSchema
