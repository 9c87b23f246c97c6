import ClassSchema.Toml.Moment

/-!
# TOML documents

A document is a list of statements: headers and entries. They are carried out
one after the other on the tables read so far.
-/

namespace ClassSchema.Toml

/-- Arrays and braces are nested less deep than this, and keys have fewer parts. -/
def nestingLimit : Nat := 80

mutual
/-- A value that holds at most `depth` levels of arrays and braces. -/
def cutValue? : Nat → Nat → Text → Option (Value × Text)
  | 0, _, _ => none
  | fuel + 1, depth, t =>
    match depth, t with
    | _, 't' :: 'r' :: 'u' :: 'e' :: u => some (.boolean true, u)
    | _, 'f' :: 'a' :: 'l' :: 's' :: 'e' :: u => some (.boolean false, u)
    | depth + 1, '[' :: u => (cutItems? fuel depth u).map fun (items, u) => (.array items, u)
    | depth + 1, '\x7b' :: u =>
      match skipBlanks u with
      | '\x7d' :: u => some (.table .braces [], u)
      | u => (cutPairs? fuel depth [] u).map fun (entries, u) => (.table .braces entries, u)
    | _, t =>
      match cutString? t with
      | some (s, u) => some (.string s, u)
      | none => (cutMoment? t).or (cutNumber? t)

/-- The items of an array and its closing bracket. -/
def cutItems? : Nat → Nat → Text → Option (List Value × Text)
  | 0, _, _ => none
  | fuel + 1, depth, t =>
    match skipLines false t with
    | ']' :: u => some ([], u)
    | u => do
      let (v, u) ← cutValue? fuel depth u
      match skipLines false u with
      | ',' :: u => (cutItems? fuel depth u).map fun (vs, u) => (v :: vs, u)
      | ']' :: u => some ([v], u)
      | _ => none

/-- The further entries of a table in braces and its closing brace. -/
def cutPairs? : Nat → Nat → Entries → Text → Option (Entries × Text)
  | 0, _, _, _ => none
  | fuel + 1, depth, entries, t => do
    let (keys, u) ← cutKey? (nestingLimit - 1) t
    let '=' :: u := u | none
    let (v, u) ← cutValue? fuel depth (skipBlanks u)
    let key ← keys.getLast?
    let entries ← Entries.assign keys.dropLast key v .braces entries
    match skipBlanks u with
    | ',' :: u => cutPairs? fuel depth entries u
    | '\x7d' :: u => some (entries, u)
    | _ => none
end

inductive Statement where
  | header (path : List Text)
  /-- A doubled header: one more table of a list. -/
  | anotherTable (path : List Text)
  | entry (keys : List Text) (value : Value)

/-- A statement and the text behind its line. -/
def cutStatement? (t : Text) : Option (Statement × Text) :=
  match t with
  | '[' :: '[' :: u => do
    let (path, u) ← cutKey? (nestingLimit - 1) u
    let ']' :: ']' :: u := u | none
    return (.anotherTable path, ← finishLine? u)
  | '[' :: u => do
    let (path, u) ← cutKey? (nestingLimit - 1) u
    let ']' :: u := u | none
    return (.header path, ← finishLine? u)
  | u => do
    let (keys, u) ← cutKey? (nestingLimit - 1) u
    let '=' :: u := u | none
    let (v, u) ← cutValue? (2 * t.length + 2) (nestingLimit - 1) (skipBlanks u)
    return (.entry keys v, ← finishLine? u)

def statements? : Nat → Text → Option (List Statement)
  | 0, _ => none
  | fuel + 1, t =>
    match skipBlanks t with
    | [] => some []
    | u =>
      match finishLine? u with
      | some rest => statements? fuel rest
      | none => do
        let (s, rest) ← cutStatement? u
        return s :: (← statements? fuel rest)

/-- The tables read so far and the path of the one that entries belong to. -/
structure Progress where
  entries : Entries
  current : List Text

/-- Begins a table that has a header. -/
def beginTable : Option Value → Option Value
  | none => some (.table .header [])
  | some (.table .implied entries) => some (.table .header entries)
  | some _ => none

/-- Begins one more table of a list. -/
def beginAnotherTable : Option Value → Option Value
  | none => some (.tables [] [])
  | some (.tables last earlier) => some (.tables [] (last :: earlier))
  | some _ => none

/-- Changes what the last part of a path names. -/
def changeAt (f : Option Value → Option Value) (path : List Text) (entries : Entries) :
    Option Entries := do
  let key ← path.getLast?
  Entries.within .implied (fun _ => Entries.change key f) path.dropLast .header entries

def Progress.step (p : Progress) : Statement → Option Progress
  | .header path => (changeAt beginTable path p.entries).map (⟨·, path⟩)
  | .anotherTable path => (changeAt beginAnotherTable path p.entries).map (⟨·, path⟩)
  | .entry keys v => do
    let key ← keys.getLast?
    let entries ← Entries.within .implied (Entries.assign keys.dropLast key v) p.current .header
      p.entries
    return { p with entries }

/-- The entries of a document; a byte order mark in front is skipped. -/
def read? (t : Text) : Option Entries := do
  let t := (Text.withoutStart? ['\ufeff'] t).getD t
  let statements ← statements? (t.length + 1) t
  let final ← statements.foldlM Progress.step ⟨[], []⟩
  return final.entries

end ClassSchema.Toml
