import ClassSchema.Command.Generate
import ClassSchema.Layout.Tidy

/-!
# Tidying files

Files that are not in tidy form are written anew, or only listed. The first
file that is no schema ends the run; the ones before it stay as they are by
then.
-/

namespace ClassSchema

/-- Brings a file into tidy form, unless it is only looked at. Tells whether it
was not tidy. -/
def tidyFile (onlyCheck : Bool) (path : Path) : Session Bool := do
  let (source, m) ← Session.readModel false path
  if m.print = source then
    Session.log (.alreadyTidy path)
    return false
  else if onlyCheck then return true
  else
    Session.writeText path m.print
    Session.emit (.tidied path)
    return true

/-- The files for which the answers are positive. -/
def chosen (files : List Path) (answers : List Bool) : List Path :=
  ((files.zip answers).filter (·.2)).map (·.1)

/-- The paths that the steps have collected are those that the answers choose. -/
theorem foldl_eq_chosen (files : List Path) (answers : List Bool) (changed : List Path) :
    (files.zip answers).foldl
        (fun changed answer => if answer.2 then changed ++ [answer.1] else changed) changed =
      changed ++ chosen files answers := by
  unfold chosen
  induction files.zip answers generalizing changed with
  | nil => simp
  | cons answer more ih =>
    rw [List.foldl_cons, ih]
    cases h : answer.2 <;> simp [h]

theorem chosen_of_forall_false (files : List Path) :
    chosen files (files.map fun _ => false) = [] := by
  induction files with
  | nil => rfl
  | cons p files ih => exact ih

/-- Tidies the schema files of some paths. -/
def runTidy (env : Environment) (settingsPath : Option Path) (paths : List Path)
    (onlyCheck : Bool) : Session Unit := do
  let settings ← Settings.load env settingsPath
  let files ← Session.discover settings.bareExtension paths
  let changed := chosen files (← Session.each (tidyFile onlyCheck) files)
  if onlyCheck ∧ changed ≠ [] then
    Session.emit (.foundUntidy changed)
    Session.fail (.untidy changed)
  else Session.emit (.finishedTidying files.length changed)

namespace Presentation

open Json.Value (Members)
open Failure (texts)

variable (p : Presentation)

/-- Tidies one file and collects those that were not tidy. -/
def tidyFile (onlyCheck : Bool) (changed : List Path) (path : Path) : Console (List Path) := do
  let (source, m) ← p.present (Session.readModel false path)
  if m.print = source then
    p.present (Session.log (.alreadyTidy path))
    return changed
  else
    if !onlyCheck then
      p.present (Session.writeText path m.print)
      Console.print (p.status ("  tidied " ++ path.text))
    return changed ++ [path]

def runTidy (env : Environment) (settingsPath : Option Path) (paths : List Path)
    (onlyCheck : Bool) : Console Unit := do
  let settings ← p.present (Settings.load env settingsPath)
  let files ← p.present (Session.discover settings.bareExtension paths)
  let changed ← files.foldlM (p.tidyFile onlyCheck) []
  if onlyCheck ∧ changed ≠ [] then
    if p.format ≠ .json then
      changed.forM fun path => Console.print (.line path.text)
    Console.fail (.untidy changed)
  else
    match p.format with
    | .json =>
      let members : Members :=
        [("changed", texts (changed.map (·.text))), ("files", .number files.length)]
      Console.print (.json (.object members))
    | .plain =>
      Console.print (.line (Text.ofNat files.length ++ "\t" ++ Text.ofNat changed.length))
    | .human =>
      Console.print (p.success (Text.ofNat files.length ++ " file(s) checked, " ++
        Text.ofNat changed.length ++ " rewritten"))

end Presentation

end ClassSchema
