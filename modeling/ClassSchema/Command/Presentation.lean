import ClassSchema.Command.LogFilter
import ClassSchema.Command.Session
import ClassSchema.Json.Form
import ClassSchema.Layout.Tidy
import ClassSchema.Report

/-!
# Presentation

How events and failures are shown. Results go to standard output; progress,
reports and the log go to standard error.
-/

namespace ClassSchema

/-- Something on standard error. -/
inductive Message where
  | line (t : Text)
  | log (entry : LogEntry)
  | report (path : Path) (r : Report)

def Message.render : Message → Text
  | line t => t
  | log entry => entry.render
  | report path r => r.render path

structure Output where
  stdout : Text
  stderr : List Message

namespace Output

def nothing : Output := ⟨[], []⟩

def text (t : Text) : Output := ⟨t, []⟩

def line (t : Text) : Output := ⟨t ++ "\n", []⟩

def message (m : Message) : Output := ⟨[], [m]⟩

/-- A value on standard output. -/
def json (v : Json.Value) : Output := line v.pretty

def append (a b : Output) : Output := ⟨a.stdout ++ b.stdout, a.stderr ++ b.stderr⟩

@[simp] theorem nothing_append (o : Output) : nothing.append o = o := rfl

@[simp] theorem append_nothing (o : Output) : o.append nothing = o := by
  simp [append, nothing]

theorem append_assoc (a b c : Output) : (a.append b).append c = a.append (b.append c) := by
  simp [append, List.append_assoc]

def concat (os : List Output) : Output := os.foldr append nothing

@[simp] theorem concat_nil : concat [] = nothing := rfl

@[simp] theorem concat_cons (o : Output) (os : List Output) :
    concat (o :: os) = o.append (concat os) := rfl

theorem concat_append (os os' : List Output) :
    concat (os ++ os') = (concat os).append (concat os') := by
  induction os with
  | nil => rfl
  | cons o os ih => simp [ih, append_assoc]

theorem stdout_concat (os : List Output) : (concat os).stdout = os.flatMap (·.stdout) := by
  induction os with
  | nil => rfl
  | cons o os ih =>
    rw [List.flatMap_cons, ← ih]
    rfl

theorem stderr_concat (os : List Output) : (concat os).stderr = os.flatMap (·.stderr) := by
  induction os with
  | nil => rfl
  | cons o os ih =>
    rw [List.flatMap_cons, ← ih]
    rfl

theorem concat_messages {α : Type} (m : α → Message) (as : List α) :
    concat (as.map fun a => message (m a)) = ⟨[], as.map m⟩ := by
  induction as with
  | nil => rfl
  | cons a as ih =>
    change append _ (concat (as.map fun a => message (m a))) = _
    rw [ih]
    rfl

end Output

/-- The choices that only concern what is shown. -/
structure Presentation where
  format : Format
  quiet : Bool
  log : LogFilter

def Presentation.ofInvocation (env : Environment) (i : Invocation) : Presentation where
  format := i.format
  quiet := i.quiet
  log := (env.log.bind LogFilter.read?).getD (LogFilter.ofVerbosity i.verbosity i.quiet)

namespace Presentation

open Json (Value)
open Json.Value (Members)
open Failure (text texts faultsValue)

variable (p : Presentation)

/-- A line for a person, unless silence is wanted. -/
def status (t : Text) : Output :=
  if p.format = .human ∧ !p.quiet then .message (.line t) else .nothing

theorem stdout_status (p : Presentation) (t : Text) : (p.status t).stdout = [] := by
  unfold status
  split <;> rfl

theorem status_human {p : Presentation} (h : p.format = .human) (t : Text) :
    p.status t = ⟨[], if p.quiet then [] else [.line t]⟩ := by
  unfold status
  rw [h]
  cases p.quiet <;> rfl

theorem status_plain {p : Presentation} (h : p.format = .plain) (t : Text) :
    p.status t = .nothing := by
  unfold status
  rw [h]
  rfl

def success (t : Text) : Output := p.status ("ok " ++ t)

def warning (t : Text) : Output :=
  if p.quiet then .nothing
  else
    match p.format with
    | .human => .message (.line ("warning: " ++ t))
    | .plain => .message (.line ("warning\t" ++ t))
    | .json =>
      let members : Members := [("warning", text t)]
      .message (.line (Value.object members).compact)

theorem warning_human {p : Presentation} (h : p.format = .human) (t : Text) :
    p.warning t = ⟨[], if p.quiet then [] else [.line ("warning: " ++ t)]⟩ := by
  unfold warning
  rw [h]
  cases p.quiet <;> rfl

/-- The faults of a file, each by itself. -/
def faults (path : Path) (fs : List Fault) : Output :=
  match p.format with
  | .human => .concat (fs.map fun f => .message (.report path (Report.ofFault f)))
  | .plain => .concat (fs.map fun f => .message (.line (plainFault f)))
  | .json => .nothing
where
  plainFault (f : Fault) : Text := path.text ++ "\terror\t" ++ f.message

def generated (earlier : Nat) (g : Generated) : Output :=
  match p.format, g.target with
  | .json, _ => .nothing
  | .plain, some target => .line (g.path.text ++ "\t" ++ target.text)
  | .human, some target => p.status ("  " ++ g.path.text ++ " -> " ++ target.text)
  | _, none => .text ((if earlier = 0 then [] else ['\n']) ++ g.code)

def generatedValue (g : Generated) : Value :=
  let result : Members :=
    match g.target with
    | some target => [("output", text target.text)]
    | none => [("source", text g.code)]
  let members : Members := [("class", text g.name.text), ("file", text g.path.text)]
  .object (members ++ result)

def finishedGenerating (language : Language) (all : List Generated) : Output :=
  match p.format with
  | .json =>
    let members : Members :=
      [("files", .array (all.map generatedValue)), ("language", text language.identifier)]
    .json (.object members)
  | _ =>
    p.success ("generated " ++ Text.ofNat all.length ++ " " ++ language.identifier ++ " file(s)")

def foundUntidy (paths : List Path) : Output :=
  match p.format with
  | .json => .nothing
  | _ => .concat (paths.map fun path => .line path.text)

def finishedTidying (count : Nat) (changed : List Path) : Output :=
  match p.format with
  | .json =>
    let members : Members :=
      [("changed", texts (changed.map (·.text))), ("files", .number count)]
    .json (.object members)
  | .plain => .line (Text.ofNat count ++ "\t" ++ Text.ofNat changed.length)
  | .human =>
    p.success (Text.ofNat count ++ " file(s) checked, " ++ Text.ofNat changed.length ++
      " rewritten")

def checked (printModel : Bool) (c : Checked) : Output :=
  match c.result, p.format with
  | .error fs, _ => p.faults c.path fs
  | .ok _, .json => .nothing
  | .ok m, _ =>
    (if printModel then Output.text m.print else .nothing).append
      (p.status ("  " ++ c.path.text ++ " .... " ++ m.name.text ++ " (" ++
        Text.ofNat m.fields.length ++ " fields)"))

theorem checked_json {printModel : Bool} {p : Presentation} {c : Checked}
    (h : p.format = .json) : p.checked printModel c = .nothing := by
  unfold checked Presentation.faults
  rw [h]
  cases c.result <;> rfl

def checkedValue (printModel : Bool) (c : Checked) : Value :=
  match c.result with
  | .error fs =>
    let members : Members := [("errors", faultsValue fs), ("file", text c.path.text)]
    .object members
  | .ok m =>
    let members : Members := [("class", text m.name.text), ("errors", .array []),
      ("fields", .number m.fields.length), ("file", text c.path.text)]
    let printed : Members := if printModel then [("model", Json.encodeModel m)] else []
    .object (members ++ printed)

def fieldTotal (all : List Checked) : Nat := all.foldr (fun c n => c.fieldCount + n) 0

def faultTotal (all : List Checked) : Nat := all.foldr (fun c n => c.faults.length + n) 0

def checkSummary (all : List Checked) : Text :=
  Text.ofNat all.length ++ " files checked, " ++ Text.ofNat (fieldTotal all) ++ " fields, " ++
    Text.ofNat (faultTotal all) ++ " errors"

def finishedChecking (printModel : Bool) (all : List Checked) : Output :=
  match p.format with
  | .json =>
    let members : Members := [("errors", .number (faultTotal all)),
      ("fields", .number (fieldTotal all)), ("files", .number all.length),
      ("results", .array (all.map (checkedValue printModel)))]
    .json (.object members)
  | .plain =>
    .line (Text.ofNat all.length ++ "\t" ++ Text.ofNat (fieldTotal all) ++ "\t" ++
      Text.ofNat (faultTotal all))
  | .human =>
    if all.all Checked.isValid then p.success (checkSummary all)
    else p.warning (checkSummary all)

def languageValue (l : Language) : Value :=
  let members : Members := [("aliases", texts l.aliases), ("extension", text l.extension),
    ("identifier", text l.identifier)]
  .object members

def plainLanguage (l : Language) : Text :=
  l.identifier ++ "\t" ++ Text.joined "," l.aliases ++ "\t" ++ l.extension

def humanLanguage (l : Language) : Text :=
  Text.padRight 12 l.identifier ++ " ." ++
    match l.aliases.tail with
    | [] => l.extension
    | others => Text.padRight 4 l.extension ++ " (also: " ++ Text.joined ", " others ++ ")"

def languages : Output :=
  match p.format with
  | .json => .json (.array (Language.all.map languageValue))
  | .plain => .concat (Language.all.map fun l => .line (plainLanguage l))
  | .human => .concat (Language.all.map fun l => .line (humanLanguage l))

def event : Event → Output
  | .log entry => if p.log.shows entry then .message (.log entry) else .nothing
  | .generated earlier g => p.generated earlier g
  | .finishedGenerating language all => p.finishedGenerating language all
  | .tidied path => p.status ("  tidied " ++ path.text)
  | .foundUntidy paths => p.foundUntidy paths
  | .finishedTidying count changed => p.finishedTidying count changed
  | .checked printModel c => p.checked printModel c
  | .finishedChecking printModel all => p.finishedChecking printModel all
  | .listedLanguages => p.languages

/-- Code that is shown bare stands behind a line break, unless it is the first. -/
theorem stdout_generated {p : Presentation} (hp : p.format ≠ .json) {g : Generated}
    (hg : g.target = none) (earlier : Nat) :
    (p.event (.generated earlier g)).stdout = (if earlier = 0 then [] else ['\n']) ++ g.code := by
  change (p.generated earlier g).stdout = _
  unfold generated
  rw [hg]
  cases hformat : p.format with
  | json => exact absurd hformat hp
  | human => rfl
  | plain => rfl

theorem stdout_generated_more {p : Presentation} {gs : List Generated} (hp : p.format ≠ .json)
    (hgs : ∀ g ∈ gs, g.target = none) (earlier : Nat) :
    ((gs.zipIdx (earlier + 1)).map fun shown => Event.generated shown.2 shown.1).flatMap
      (fun e => (p.event e).stdout) =
        (gs.map (·.code)).flatMap fun code => ("\n" : Text) ++ code := by
  induction gs generalizing earlier with
  | nil => rfl
  | cons g gs ih =>
    obtain ⟨hg, hgs⟩ := List.forall_mem_cons.mp hgs
    rw [List.zipIdx_cons, List.map_cons, List.flatMap_cons, ih hgs (earlier + 1),
      stdout_generated hp hg, List.map_cons, List.flatMap_cons]
    rfl

/-- The codes of some files stand one after the other with line breaks between them. -/
theorem stdout_generated_all {p : Presentation} {gs : List Generated} (hp : p.format ≠ .json)
    (hgs : ∀ g ∈ gs, g.target = none) :
    (gs.zipIdx.map fun shown => Event.generated shown.2 shown.1).flatMap
      (fun e => (p.event e).stdout) = Text.joined "\n" (gs.map (·.code)) := by
  cases gs with
  | nil => rfl
  | cons g gs =>
    obtain ⟨hg, hgs⟩ := List.forall_mem_cons.mp hgs
    rw [List.zipIdx_cons, List.map_cons, List.flatMap_cons, stdout_generated_more hp hgs 0,
      stdout_generated hp hg, List.map_cons, Text.joined_cons_eq_flatMap]
    rfl

/-- The faults that go with a failure. -/
def failureFaults : Failure → Output
  | .invalidFile path fs => p.faults path fs
  | _ => .nothing

def failureLine (failure : Failure) : Text :=
  match p.format with
  | .human => "error: " ++ failure.message
  | .plain => "error\t" ++ failure.message
  | .json => failure.value.compact

def failure (f : Failure) : Output :=
  (p.failureFaults f).append (.message (.line (p.failureLine f)))

/-- Everything that a run shows. -/
def outcome (o : Outcome Unit) : Output :=
  (Output.concat (o.events.map p.event)).append
    (match o.result with
    | .ok _ => .nothing
    | .error f => p.failure f)

end Presentation

end ClassSchema
