import ClassSchema.Command.Generate

/-!
# Checking

Every schema file is read, also behind one that has faults; only a file that
cannot be opened ends the run early.
-/

namespace ClassSchema

/-- Reads one file and makes known what that gave. -/
def checkFile (strict printModel : Bool) (path : Path) : Session Checked := do
  let source ← Session.readText path
  let c : Checked := ⟨path, ← Session.readSource strict source⟩
  Session.emit (.checked printModel c)
  return c

/-- Checks the schema files of some paths. -/
def runCheck (env : Environment) (settingsPath : Option Path) (paths : List Path)
    (strict printModel : Bool) : Session Unit := do
  let settings ← Settings.load env settingsPath
  let files ← Session.discover settings.bareExtension paths
  let all ← Session.each (checkFile (strict || settings.strict) printModel) files
  Session.emit (.finishedChecking printModel all)
  match all.filter (!·.isValid) with
  | [] => return ()
  | invalid => Session.fail (.invalidFiles (invalid.map (·.path)))

namespace Presentation

open Json (Value)
open Json.Value (Members)

/-- What has come out so far while files are checked. -/
structure Tally where
  fields : Nat
  faults : Nat
  /-- The files that are no schemas. -/
  failed : List Path
  /-- Collected for the value that is printed in the end. -/
  results : List Value

namespace Tally

def start : Tally := ⟨0, 0, [], []⟩

def addFields (t : Tally) (count : Nat) : Tally := { t with fields := t.fields + count }

def addFaults (t : Tally) (path : Path) (count : Nat) : Tally :=
  { t with faults := t.faults + count, failed := t.failed ++ [path] }

def addResult (t : Tally) (v : Value) : Tally := { t with results := t.results ++ [v] }

def summary (t : Tally) (count : Nat) : Text :=
  Text.ofNat count ++ " files checked, " ++ Text.ofNat t.fields ++ " fields, " ++
    Text.ofNat t.faults ++ " errors"

end Tally

variable (p : Presentation)

def checkFile (strict printModel : Bool) (t : Tally) (path : Path) : Console Tally := do
  let source ← p.present (Session.readText path)
  match ← p.present (Session.readSource strict source) with
  | .ok m =>
    let t := t.addFields m.fields.length
    match p.format with
    | .json => return t.addResult (checkedValue printModel ⟨path, .ok m⟩)
    | _ =>
      if printModel then Console.print (.text m.print)
      Console.print (p.status ("  " ++ path.text ++ " .... " ++ m.name.text ++ " (" ++
        Text.ofNat m.fields.length ++ " fields)"))
      return t
  | .error faults =>
    Console.print (p.faults path faults)
    let t := t.addFaults path faults.length
    if p.format = .json then return t.addResult (checkedValue printModel ⟨path, .error faults⟩)
    else return t

def runCheck (env : Environment) (settingsPath : Option Path) (paths : List Path)
    (strict printModel : Bool) : Console Unit := do
  let settings ← p.present (Settings.load env settingsPath)
  let files ← p.present (Session.discover settings.bareExtension paths)
  let t ← files.foldlM (p.checkFile (strict || settings.strict) printModel) Tally.start
  match p.format with
  | .human =>
    if t.failed = [] then Console.print (p.success (t.summary files.length))
    else Console.print (p.warning (t.summary files.length))
  | .json =>
    let members : Members := [("errors", .number t.faults), ("fields", .number t.fields),
      ("files", .number files.length), ("results", .array t.results)]
    Console.print (.json (.object members))
  | .plain =>
    Console.print (.line (Text.ofNat files.length ++ "\t" ++ Text.ofNat t.fields ++ "\t" ++
      Text.ofNat t.faults))
  match t.failed with
  | [] => return ()
  | failed => Console.fail (.invalidFiles failed)

end Presentation

end ClassSchema
