import ClassSchema.Command.Session
import ClassSchema.Toml.Document

/-!
# Settings

Settings are kept in a TOML file. It is looked for where the command line or
the environment says, and otherwise in the working directory and in the user's
directories; without one the defaults hold.
-/

namespace ClassSchema

structure Settings where
  /-- Extension of schema files; dots in front of it do not count. -/
  extension : Text := "ut"
  outputDir : Option Path := none
  strict : Bool := false
deriving DecidableEq, Repr

namespace Settings

open Toml (Value Entries)

/-- The values of a table by their keys. An array gives them in order, and a
date stands for a table without any of them. -/
def parts? (keys : List Text) : Value → Option (List (Option Value))
  | .table _ entries => some (keys.map (entries.lookup ·))
  | .array items => some ((List.range keys.length).map (items[·]?))
  | .moment _ => some (keys.map fun _ => none)
  | _ => none

def text? : Value → Option Text
  | .string t => some t
  | _ => none

def flag? : Value → Option Bool
  | .boolean b => some b
  | _ => none

/-- Reads a value, unless it is missing. -/
def optional? {α : Type} (read? : Value → Option α) : Option Value → Option (Option α)
  | none => some none
  | some v => (read? v).map some

/-- The values under a key of a document, none of them if the key is missing. -/
def sectionOf? (entries : Entries) (key : Text) (keys : List Text) :
    Option (List (Option Value)) :=
  match entries.lookup key with
  | none => some (keys.map fun _ => none)
  | some v => parts? keys v

/-- The settings of a document. Unknown keys are passed over. -/
def ofEntries? (entries : Entries) : Option Settings := do
  let [extension] ← sectionOf? entries "schemas" ["extension"] | none
  let [outputDir, strict] ← sectionOf? entries "generate" ["output_dir", "strict"] | none
  let extension ← optional? text? extension
  let outputDir ← optional? text? outputDir
  let strict ← optional? flag? strict
  return { extension := extension.getD "ut", outputDir := outputDir.map Path.mk,
           strict := strict.getD false }

/-- The extension without dots in front. -/
def bareExtension (s : Settings) : Text := s.extension.dropWhile (· = '.')

def readFile (path : Path) : Session Settings := do
  let text ← Session.readText path
  match (Toml.read? text).bind ofEntries? with
  | none => Session.fail (.malformedSettings path)
  | some settings =>
    if settings.bareExtension.isEmpty then Session.fail (.emptyExtension path)
    else
      Session.log (.loadedSettings path)
      return settings

/-- The places where settings are looked for without being asked for. -/
def places (env : Environment) : List Path :=
  ⟨"ultratype.toml"⟩ :: ([env.configHome.map (below · "ultratype/config.toml"),
    env.home.map (below · ".config/ultratype/config.toml")].filterMap id)
where
  below (directory name : Text) : Path := Path.join ⟨directory⟩ name

/-- Reads the settings that hold for a run. -/
def load (env : Environment) : Option Path → Session Settings
  | some path => readFile path
  | none => do
    match ← Session.ask fun fs => (places env).find? fs.hasAny with
    | some path => readFile path
    | none =>
      Session.log .noSettings
      return {}

end Settings

end ClassSchema
