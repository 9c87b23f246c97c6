import ClassSchema.Command.Arguments
import ClassSchema.Command.Check
import ClassSchema.Command.Console
import ClassSchema.Command.Tidy

/-!
# Runs

A command line is read and, if it asks for a run, carried out on the files.
-/

namespace ClassSchema

/-- What a command does, however its events are presented. -/
def Command.session (env : Environment) (settingsPath : Option Path) : Command → Session Unit
  | generate language paths outputDir strict =>
    runGenerate env settingsPath language paths outputDir strict
  | tidy paths onlyCheck => runTidy env settingsPath paths onlyCheck
  | check paths strict printModel => runCheck env settingsPath paths strict printModel
  | languages => Session.emit .listedLanguages
  | completions _ => pure ()
  | unknown words => Session.log (.unknownCommand words)

/-- Carries out a command. The script that completes command lines in a shell is
left open. -/
def Presentation.runCommand (p : Presentation) (env : Environment) (settingsPath : Option Path) :
    Command → Console Unit
  | .generate language paths outputDir strict =>
    p.runGenerate env settingsPath language paths outputDir strict
  | .tidy paths onlyCheck => p.runTidy env settingsPath paths onlyCheck
  | .check paths strict printModel => p.runCheck env settingsPath paths strict printModel
  | .languages => Console.print p.languages
  | .completions _ => pure ()
  | .unknown words => p.present (Session.log (.unknownCommand words))

/-- What the invocation of a command does to files and makes known. -/
def Invocation.outcome (env : Environment) (i : Invocation) (fs : FileSystem) : Outcome Unit :=
  i.command.session env i.settingsPath fs

def Outcome.exitCode (o : Outcome Unit) : Nat :=
  match o.result with
  | .ok _ => 0
  | .error failure => failure.exitCode

theorem Outcome.exitCode_of_error {o : Outcome Unit} {failure : Failure}
    (h : o.result = .error failure) : o.exitCode = failure.exitCode := by
  unfold exitCode
  rw [h]

/-- A finished run. -/
structure Completion where
  exitCode : Nat
  output : Output
  files : FileSystem

/-- Ends a run: a failure is shown behind everything else. -/
def Presentation.finish (p : Presentation) (printed : Printed Unit) : Completion :=
  match printed.result with
  | .ok _ => ⟨0, printed.output, printed.files⟩
  | .error failure =>
    ⟨failure.exitCode, printed.output.append (p.failure failure), printed.files⟩

theorem Presentation.finish_present (p : Presentation) (s : Session Unit) (fs : FileSystem) :
    p.finish (p.present s fs) = ⟨(s fs).exitCode, p.outcome (s fs), (s fs).files⟩ := by
  have hresult : (p.present s fs).result = (s fs).result := rfl
  unfold finish outcome Outcome.exitCode
  rw [hresult]
  cases (s fs).result with
  | error failure => rfl
  | ok _ =>
    dsimp only
    rw [Output.append_nothing]
    rfl

def Invocation.run (env : Environment) (i : Invocation) (fs : FileSystem) : Completion :=
  let p := Presentation.ofInvocation env i
  p.finish (p.runCommand env i.settingsPath i.command fs)

namespace Refusal

def exitCode : Refusal → Nat
  | usage => 2
  | help | version _ => 0

/-- The program, or one of its commands, with its version. -/
def versionLine : Option CommandName → Text
  | none => "ultratype 0.1.0"
  | some command => "ultratype-" ++ command.word ++ " 0.1.0"

/-- What is printed instead of a run. The texts that explain command lines are
left open. -/
def output : Refusal → Output
  | usage | help => .nothing
  | version command => .line (versionLine command)

end Refusal

def run (env : Environment) (args : List Text) (fs : FileSystem) : Completion :=
  match Invocation.read env args with
  | .ok i => i.run env fs
  | .error refusal => ⟨refusal.exitCode, refusal.output, fs⟩

end ClassSchema
