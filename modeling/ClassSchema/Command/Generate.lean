import ClassSchema.Command.Console
import ClassSchema.Command.Discovery
import ClassSchema.Command.Settings
import ClassSchema.Source.Document
import ClassSchema.Target.Generate

/-!
# Generating

Every schema file is read and rendered in turn, and its code is written before
the next file is looked at. The first failure ends the run. The command is given
twice: as a session, which leaves open how its events are presented, and as it
runs, where it prints or collects what is to be shown in each format.
-/

namespace ClassSchema

/-- Reads a source and notes what was passed over. -/
def Session.readSource (strict : Bool) (source : Text) : Session (Except (List Fault) Model) := do
  let reading := DocumentReading.ofSource strict source
  Session.logAll (reading.notices.map .ignoredText)
  match reading.result with
  | .error _ => pure ()
  | .ok m => Session.log (.readModel m.name m.fields.length)
  return reading.result

/-- Reads a file that must be a schema. Its text is given as well. -/
def Session.readModel (strict : Bool) (path : Path) : Session (Text × Model) := do
  let source ← Session.readText path
  match ← Session.readSource strict source with
  | .error faults => Session.fail (.invalidFile path faults)
  | .ok m => return (source, m)

namespace Generated

/-- The file that code is written to: the name of the schema file with the
extension of the language. -/
def targetOf? (directory path : Path) (language : Language) : Option Path :=
  path.stem?.map fun stem => directory.join (stem ++ "." ++ language.extension)

/-- Writes code into a directory, which is created if it is missing. -/
def save (directory path : Path) (language : Language) (code : Text) : Session Path := do
  match targetOf? directory path language with
  | none => Session.fail (.noFileName path)
  | some target =>
    Session.makeDirectories directory
    Session.writeText target code
    return target

/-- Writes code if there is a directory for it. -/
def saveIn? (directory : Option Path) (path : Path) (language : Language) (code : Text) :
    Session (Option Path) :=
  match directory with
  | none => pure none
  | some directory => do return some (← save directory path language code)

def render (language : Language) (path : Path) (m : Model) : Session Text :=
  match language.generate m with
  | .error cause => Session.fail (.collision path cause)
  | .ok code => do
    Session.log (.rendering language m.name m.targets.length)
    return code

theorem result_render (language : Language) (p : Path) (m : Model) (fs : FileSystem) :
    (render language p m fs).result = (language.generate m).mapError (.collision p) := by
  unfold render
  cases language.generate m <;> rfl

/-- Generates the code of one file, after as many others. -/
def ofFile (language : Language) (strict : Bool) (directory : Option Path) (earlier : Nat)
    (path : Path) : Session Generated := do
  let (_, m) ← Session.readModel strict path
  let code ← render language path m
  let target ← saveIn? directory path language code
  let g : Generated := ⟨path, m.name, code, target⟩
  Session.emit (.generated earlier g)
  return g

end Generated

/-- Generates code for the schema files of some paths. -/
def runGenerate (env : Environment) (settingsPath : Option Path) (word : Text) (paths : List Path)
    (outputDir : Option Path) (strict : Bool) : Session Unit := do
  let settings ← Settings.load env settingsPath
  match Language.ofIdentifier? word with
  | none => Session.fail (.unsupportedLanguage word)
  | some language =>
    let files ← Session.discover settings.bareExtension paths
    let all ← Session.each
      (fun (path, i) => Generated.ofFile language (strict || settings.strict)
        (outputDir.or settings.outputDir) i path) files.zipIdx
    Session.emit (.finishedGenerating language all)

namespace Presentation

open Json (Value)
open Json.Value (Members)
open Failure (text)

variable (p : Presentation)

/-- Generates the code of one file. One value is printed for all files in the end,
and so the results are collected for it. -/
def generateFile (language : Language) (strict : Bool) (directory : Option Path)
    (results : List Value) (file : Path × Nat) : Console (List Value) := do
  let (path, i) := file
  let (_, m) ← p.present (Session.readModel strict path)
  let code ← p.present (Generated.render language path m)
  match directory with
  | some directory =>
    let target ← p.present (Generated.save directory path language code)
    match p.format with
    | .json => return results ++ [generatedValue ⟨path, m.name, code, some target⟩]
    | .plain =>
      Console.print (.line (path.text ++ "\t" ++ target.text))
      return results
    | .human =>
      Console.print (p.status ("  " ++ path.text ++ " -> " ++ target.text))
      return results
  | none =>
    match p.format with
    | .json => return results ++ [generatedValue ⟨path, m.name, code, none⟩]
    | _ =>
      if i > 0 then Console.print (.text ['\n'])
      Console.print (.text code)
      return results

def runGenerate (env : Environment) (settingsPath : Option Path) (word : Text)
    (paths : List Path) (outputDir : Option Path) (strict : Bool) : Console Unit := do
  let settings ← p.present (Settings.load env settingsPath)
  match Language.ofIdentifier? word with
  | none => Console.fail (.unsupportedLanguage word)
  | some language =>
    let files ← p.present (Session.discover settings.bareExtension paths)
    let results ← files.zipIdx.foldlM
      (p.generateFile language (strict || settings.strict) (outputDir.or settings.outputDir)) []
    match p.format with
    | .json =>
      let members : Members :=
        [("files", .array results), ("language", text language.identifier)]
      Console.print (.json (.object members))
    | _ =>
      Console.print (p.success
        ("generated " ++ Text.ofNat files.length ++ " " ++ language.identifier ++ " file(s)"))

end Presentation

end ClassSchema
