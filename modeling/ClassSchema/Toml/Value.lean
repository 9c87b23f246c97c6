import ClassSchema.Text.Basic

/-!
# TOML values

The values of a TOML document. A table remembers how it came about, because
that decides which later lines may add to it.
-/

namespace ClassSchema.Toml

/-- How a table came about. -/
inductive Origin where
  /-- It has a header of its own. -/
  | header
  /-- A header names a table below it. -/
  | implied
  /-- A dotted key names an entry of it. -/
  | dotted
  /-- It is written between braces, which is final. -/
  | braces
deriving DecidableEq, Repr

inductive Value where
  | string (t : Text)
  | integer (n : Int)
  /-- A number with a fraction or an exponent, as it is written. -/
  | float (t : Text)
  | boolean (b : Bool)
  /-- A date, a time or both, as it is written. -/
  | moment (t : Text)
  | array (items : List Value)
  | table (origin : Origin) (entries : List (Text × Value))
  /-- Tables under a doubled header, the last one first. -/
  | tables (last : List (Text × Value)) (earlier : List (List (Text × Value)))
deriving Inhabited

abbrev Entries := List (Text × Value)

namespace Entries

/-- Sets or replaces the value of a key, where `change` may refuse. -/
def change (key : Text) (f : Option Value → Option Value) : Entries → Option Entries
  | [] => (f none).map fun v => [(key, v)]
  | (k, v) :: entries =>
    if k = key then (f (some v)).map fun w => (k, w) :: entries
    else (change key f entries).map ((k, v) :: ·)

/-- Adds an entry; keys are not repeated. -/
def add (key : Text) (value : Value) : Entries → Option Entries :=
  change key fun
    | none => some value
    | some _ => none

/-- Changes the entries of the table that a path leads to. Missing tables on the
way are created with the origin `made`. A dotted path does not lead through a
table with a header, and no path leads into braces. -/
def within (made : Origin) (f : Origin → Entries → Option Entries) :
    List Text → Origin → Entries → Option Entries
  | [], origin, entries => f origin entries
  | key :: path, _, entries =>
    change key (fun
      | none => (within made f path made []).map (.table made)
      | some (.table origin inner) =>
        if origin = .braces ∨ (made = .dotted ∧ origin = .header) then none
        else (within made f path origin inner).map (.table origin)
      | some (.tables last earlier) =>
        (within made f path .header last).map fun last => .tables last earlier
      | some _ => none) entries

/-- Adds the entry of a dotted key. The last table on its way must be one that
only dotted keys have made. -/
def assign (path : List Text) (key : Text) (value : Value) : Origin → Entries → Option Entries :=
  within .dotted (fun origin entries =>
    if path.isEmpty ∨ origin = .dotted then add key value entries else none) path

end Entries

end ClassSchema.Toml
