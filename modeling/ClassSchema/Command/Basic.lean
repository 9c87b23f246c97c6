import ClassSchema.File.Path

/-!
# Commands

What the program can be asked to do, how its answer is to be presented, and
the variables of the environment that have a say in it.
-/

namespace ClassSchema

inductive Shell where
  | bash | zsh | fish | powershell | elvish
deriving DecidableEq, Repr

namespace Shell

def all : List Shell := [bash, zsh, fish, powershell, elvish]

def name : Shell → Text
  | bash => "bash"
  | zsh => "zsh"
  | fish => "fish"
  | powershell => "powershell"
  | elvish => "elvish"

def ofName? (word : Text) : Option Shell := all.find? (·.name = word)

end Shell

/-- How results are shown. -/
inductive Format where
  | human | json | plain
deriving DecidableEq, Repr

namespace Format

def all : List Format := [human, json, plain]

def name : Format → Text
  | human => "human"
  | json => "json"
  | plain => "plain"

def ofName? (word : Text) : Option Format := all.find? (·.name = word)

end Format

inductive Command where
  /-- Writes code, into a directory or on standard output. -/
  | generate (language : Text) (paths : List Path) (outputDir : Option Path) (strict : Bool)
  /-- Brings schemas into tidy form, or only looks whether they are. -/
  | tidy (paths : List Path) (onlyCheck : Bool)
  /-- Reads schemas and reports their faults. -/
  | check (paths : List Path) (strict printModel : Bool)
  | languages
  | completions (shell : Shell)
  /-- Something else, which is passed over. -/
  | unknown (words : List Text)
deriving DecidableEq, Repr

/-- A command with the options that go with any command. -/
structure Invocation where
  command : Command
  /-- The settings file that was asked for. -/
  settingsPath : Option Path
  format : Format
  verbosity : Nat
  quiet : Bool
deriving DecidableEq, Repr

def Command.paths : Command → List Path
  | generate _ paths outputDir _ => paths ++ outputDir.toList
  | tidy paths _ => paths
  | check paths _ _ => paths
  | languages | completions _ | unknown _ => []

/-- The variables of the environment that matter. -/
structure Environment where
  settingsPath : Option Text
  /-- Directory of a user's settings. -/
  configHome : Option Text
  home : Option Text
  log : Option Text
deriving DecidableEq, Repr

/-- Looks up the variables by their names. -/
def Environment.ofVariables (value? : Text → Option Text) : Environment where
  settingsPath := value? "ULTRATYPE_CONFIG"
  configHome := value? "XDG_CONFIG_HOME"
  home := value? "HOME"
  log := value? "ULTRATYPE_LOG"

end ClassSchema
