import ClassSchema.Proofs.Presentations

/-!
# What a check reports

A check makes known what reading each file gave, also behind a file that is no schema, and
at the end all of it. As a value this has one result for each file, with the faults of that
file and of no other; for a person, one report for each fault. In every form the totals are
those of the fields of the schemas and of the faults of the other files.
-/

namespace ClassSchema

variable {strict printModel : Bool} {inputs : List (Path × Text)}

def checkedOf (strict : Bool) (input : Path × Text) : Checked :=
  ⟨input.1, Model.read strict input.2⟩

def schemasOf (strict : Bool) (inputs : List (Path × Text)) : List Model :=
  inputs.filterMap fun input => (Model.read strict input.2).toOption

def faultyOf (strict : Bool) (inputs : List (Path × Text)) : List (Path × Text) :=
  inputs.filter fun input => (Model.read strict input.2).toOption.isNone

def fieldSum (strict : Bool) (inputs : List (Path × Text)) : ℕ :=
  ((schemasOf strict inputs).map (·.fields.length)).sum

def faultSum (strict : Bool) (inputs : List (Path × Text)) : ℕ :=
  ((faultyOf strict inputs).map fun input => (checkedOf strict input).faults.length).sum

/-- What is said about one file: its faults, or the class and its number of fields. -/
structure FileReport where
  file : Text
  faults : List (Text × Span)
  schema : Option (Text × ℕ)
deriving DecidableEq

structure CheckReport where
  files : ℕ
  fields : ℕ
  errors : ℕ
  results : List FileReport
deriving DecidableEq

def FileReport.ofInput (strict : Bool) (input : Path × Text) : FileReport where
  file := input.1.text
  faults := (checkedOf strict input).faults.map fun f => (f.message, f.span)
  schema := (Model.read strict input.2).toOption.map fun m => (m.name.text, m.fields.length)

/-- The report on some files. -/
def CheckReport.ofInputs (strict : Bool) (inputs : List (Path × Text)) : CheckReport where
  files := inputs.length
  fields := fieldSum strict inputs
  errors := faultSum strict inputs
  results := inputs.map (FileReport.ofInput strict)

namespace Json

open Value

def asNumber? : Value → Option ℕ
  | number n => some n
  | _ => none

def textAt? (key : Text) (v : Value) : Option Text := (v.member? key).bind asText?

def numberAt? (key : Text) (v : Value) : Option ℕ := (v.member? key).bind asNumber?

def itemsAt? {α : Type} (key : Text) (item? : Value → Option α) (v : Value) : Option (List α) :=
  (v.member? key).bind fun items => (asArray? items).bind (·.mapM item?)

def fault? (v : Value) : Option (Text × Span) := do
  return (← textAt? "message" v, ⟨← numberAt? "start" v, ← numberAt? "end" v⟩)

def fileReport? (v : Value) : Option FileReport := do
  let file ← textAt? "file" v
  let faults ← itemsAt? "errors" fault? v
  return ⟨file, faults, do return (← textAt? "class" v, ← numberAt? "fields" v)⟩

def checkReport? (v : Value) : Option CheckReport := do
  return ⟨← numberAt? "files" v, ← numberAt? "fields" v, ← numberAt? "errors" v,
    ← itemsAt? "results" fileReport? v⟩

theorem fault?_faultValue (f : Fault) : fault? (Failure.faultValue f) = some (f.message, f.span) :=
  rfl

theorem fileReport?_checkedValue (printModel : Bool) (input : Path × Text) :
    fileReport? (Presentation.checkedValue printModel (checkedOf strict input)) =
      some (FileReport.ofInput strict input) := by
  unfold Presentation.checkedValue FileReport.ofInput checkedOf Checked.faults
  cases Model.read strict input.2 with
  | error faults =>
    have hfaults : itemsAt? "errors" fault? (.object [("errors", Failure.faultsValue faults),
        ("file", Failure.text input.1.text)]) = some (faults.map fun f => (f.message, f.span)) :=
      mapM_map_eq_some fault?_faultValue faults
    unfold fileReport?
    dsimp only
    rw [hfaults]
    rfl
  | ok m => cases printModel <;> rfl

end Json

theorem faultTotal_map_checkedOf (strict : Bool) (inputs : List (Path × Text)) :
    Presentation.faultTotal (inputs.map (checkedOf strict)) = faultSum strict inputs := by
  induction inputs with
  | nil => rfl
  | cons input inputs ih =>
    change (checkedOf strict input).faults.length +
      Presentation.faultTotal (inputs.map (checkedOf strict)) = _
    rw [ih]
    unfold faultSum faultyOf checkedOf Checked.faults
    cases h : Model.read strict input.2 <;> simp [h, Except.toOption]

theorem fieldTotal_map_checkedOf (strict : Bool) (inputs : List (Path × Text)) :
    Presentation.fieldTotal (inputs.map (checkedOf strict)) = fieldSum strict inputs := by
  induction inputs with
  | nil => rfl
  | cons input inputs ih =>
    change (checkedOf strict input).fieldCount +
      Presentation.fieldTotal (inputs.map (checkedOf strict)) = _
    rw [ih]
    unfold fieldSum schemasOf checkedOf Checked.fieldCount
    cases h : Model.read strict input.2 <;> simp [h, Except.toOption]

section Sessions

open Session

variable {env : Environment} {settingsPath : Option Path} {paths files : List Path}
  {settings : Settings} {fs : FileSystem}

theorem Session.Passive.shown_bind {α β : Type} {s : Session α} {a : α} (hs : Passive s)
    (h : (s fs).result = .ok a) (next : α → Session β) :
    ((s >>= next) fs).shown = (next a fs).shown := by
  rw [shown_bind_of_ok h, hs.silent, hs.quiet, List.nil_append]

theorem shown_checkFile {input : Path × Text} (h : fs.read input.1 = .ok input.2) :
    (checkFile strict printModel input.1 fs).shown =
      [.checked printModel (checkedOf strict input)] := by
  have hsource : (readText input.1 fs).result = .ok input.2 := by
    rw [result_readText, h]
    rfl
  unfold checkFile
  rw [(passive_readText input.1).shown_bind hsource,
    (passive_readSource strict input.2).shown_bind (result_readSource strict input.2 fs)]
  rfl

/-- Every file is read and made known, whatever came before it. -/
theorem each_checkFile (h : ∀ input ∈ inputs, fs.read input.1 = .ok input.2) :
    (each (checkFile strict printModel) (inputs.map Prod.fst) fs).result =
        .ok (inputs.map (checkedOf strict)) ∧
      (each (checkFile strict printModel) (inputs.map Prod.fst) fs).shown =
        (inputs.map (checkedOf strict)).map (.checked printModel) := by
  induction inputs with
  | nil => exact ⟨rfl, rfl⟩
  | cons input inputs ih =>
    obtain ⟨hinput, hinputs⟩ := List.forall_mem_cons.mp h
    obtain ⟨hresult, hshown⟩ := ih hinputs
    have hhead : (checkFile strict printModel input.1 fs).result = .ok (checkedOf strict input) :=
      checkFile_eq_ok_iff.mpr ⟨input.2, hinput, rfl⟩
    have hfiles := quiet_checkFile strict printModel input.1 fs
    rw [List.map_cons]
    constructor
    · rw [result_each_cons, hfiles, hhead, hresult]
      rfl
    · rw [shown_each_cons hhead (by rw [hfiles, hresult]), hfiles, hshown, shown_checkFile hinput]
      rfl

/-- A check of files that can all be opened. -/
theorem Finds.shown_runCheck (h : Finds env settingsPath paths fs settings files)
    {all : List Checked}
    (hall : (each (checkFile (strict || settings.strict) printModel) files fs).result = .ok all) :
    (runCheck env settingsPath paths strict printModel fs).shown =
      (each (checkFile (strict || settings.strict) printModel) files fs).shown ++
        [.finishedChecking printModel all] := by
  have hdiscover : (Session.discover settings.bareExtension paths fs).result = .ok files := by
    rw [result_discover, h.discover_eq]
  unfold runCheck
  rw [(Settings.passive_load env settingsPath).shown_bind h.load_eq,
    (passive_discover _ _).shown_bind hdiscover, shown_bind_of_ok hall]
  congr 1
  cases all.filter (!·.isValid) <;> rfl

end Sessions

namespace Message

def line? : Message → Option Text
  | line t => some t
  | _ => none

def report? : Message → Option (Path × Report)
  | report path r => some (path, r)
  | _ => none

end Message

namespace Presentation

variable {p : Presentation} {c : Checked} {o : Outcome Unit}

def ending (p : Presentation) : Except Failure Unit → Output
  | .ok _ => .nothing
  | .error failure => p.failure failure

theorem outcome_eq (o : Outcome Unit) :
    p.outcome o = (Output.concat (o.events.map p.event)).append (p.ending o.result) := by
  unfold outcome
  cases o.result <;> rfl

/-- Messages that are picked from standard error, none of them from the log. -/
theorem filterMap_stderr_outcome {α : Type} {pick : Message → Option α}
    (hpick : ∀ entry, pick (.log entry) = none) (o : Outcome Unit) :
    (p.outcome o).stderr.filterMap pick =
      (o.shown.flatMap fun e => (p.event e).stderr.filterMap pick) ++
        (p.ending o.result).stderr.filterMap pick := by
  have hlog {e : Event} (he : e.isLog = true) : (p.event e).stderr.filterMap pick = [] := by
    cases e with
    | log entry =>
      change (if p.log.shows entry then Output.message (.log entry)
        else .nothing).stderr.filterMap pick = []
      split_ifs
      · exact List.filterMap_cons_none (hpick entry)
      · rfl
    | _ => cases he
  rw [outcome_eq]
  change ((Output.concat _).stderr ++ _).filterMap pick = _
  rw [List.filterMap_append, Output.stderr_concat, List.flatMap_map, List.filterMap_flatMap,
    o.flatMap_shown fun _ => hlog]

def schemaLine (path : Path) (m : Model) : Text :=
  "  " ++ path.text ++ " .... " ++ m.name.text ++ " (" ++ Text.ofNat m.fields.length ++ " fields)"

def faultLine (path : Path) (f : Fault) : Text := path.text ++ "\terror\t" ++ f.message

def printedOf (printModel : Bool) (c : Checked) : Text :=
  if printModel then (c.result.toOption.map Model.print).getD [] else []

theorem checked_of_schema (hformat : p.format ≠ .json) {m : Model} (h : c.result = .ok m) :
    p.checked printModel c =
      (if printModel then Output.text m.print else .nothing).append
        (p.status (schemaLine c.path m)) := by
  unfold checked
  rw [h]
  cases hp : p.format with
  | json => exact absurd hp hformat
  | human => rfl
  | plain => rfl

theorem checked_plain (h : p.format = .plain) :
    p.checked printModel c =
      ⟨printedOf printModel c, c.faults.map fun f => .line (faultLine c.path f)⟩ := by
  unfold printedOf Checked.faults
  cases hresult : c.result with
  | error faults =>
    unfold checked Presentation.faults
    rw [h, hresult]
    cases printModel <;> exact Output.concat_messages _ faults
  | ok m =>
    rw [checked_of_schema (by simp [h]) hresult, status_plain h]
    cases printModel
    · rfl
    · exact congrArg (Output.mk · []) (List.append_nil _)

theorem checked_human (h : p.format = .human) :
    p.checked printModel c =
      ⟨printedOf printModel c, (c.faults.map fun f => .report c.path (Report.ofFault f)) ++
        if p.quiet then []
        else (c.result.toOption.map fun m => .line (schemaLine c.path m)).toList⟩ := by
  unfold printedOf Checked.faults
  cases hresult : c.result with
  | error faults =>
    unfold checked Presentation.faults
    rw [h, hresult]
    refine (Output.concat_messages _ faults).trans ?_
    cases printModel <;> cases p.quiet <;> simp [Except.toOption]
  | ok m =>
    rw [checked_of_schema (by simp [h]) hresult, status_human h]
    cases printModel
    · cases p.quiet <;> rfl
    · cases p.quiet <;> exact congrArg (Output.mk · _) (List.append_nil _)

theorem reports_checked_human (h : p.format = .human) :
    (p.checked printModel c).stderr.filterMap Message.report? =
      c.faults.map fun f => (c.path, Report.ofFault f) := by
  have hreports : (c.faults.map fun f => Message.report c.path (Report.ofFault f)).filterMap
      Message.report? = c.faults.map fun f => (c.path, Report.ofFault f) := by
    simp [List.filterMap_map, Function.comp_def, Message.report?]
  rw [checked_human h, List.filterMap_append, hreports]
  cases c.result.toOption <;> cases p.quiet <;> exact List.append_nil _

theorem lines_checked_human (h : p.format = .human) :
    (p.checked printModel c).stderr.filterMap Message.line? =
      if p.quiet then [] else (c.result.toOption.map (schemaLine c.path)).toList := by
  have hreports : (c.faults.map fun f => Message.report c.path (Report.ofFault f)).filterMap
      Message.line? = [] := by
    simp [List.filterMap_map, Function.comp_def, Message.line?]
  rw [checked_human h, List.filterMap_append, hreports]
  cases c.result.toOption <;> cases p.quiet <;> rfl

theorem reports_checked_plain (h : p.format = .plain) :
    (p.checked printModel c).stderr.filterMap Message.report? = [] := by
  simp [checked_plain h, List.filterMap_map, Function.comp_def, Message.report?]

theorem lines_checked_plain (h : p.format = .plain) :
    (p.checked printModel c).stderr.filterMap Message.line? = c.faults.map (faultLine c.path) := by
  simp [checked_plain h, List.filterMap_map, Function.comp_def, Message.line?]

def reportsOf (strict : Bool) (inputs : List (Path × Text)) : List (Path × Report) :=
  inputs.flatMap fun input =>
    (checkedOf strict input).faults.map fun f => (input.1, Report.ofFault f)

def printedAll (strict printModel : Bool) (inputs : List (Path × Text)) : Text :=
  if printModel then (schemasOf strict inputs).flatMap Model.print else []

def totalsLine (strict : Bool) (inputs : List (Path × Text)) : Text :=
  Text.joined "\t" [Text.ofNat inputs.length, Text.ofNat (fieldSum strict inputs),
    Text.ofNat (faultSum strict inputs)] ++ "\n"

def summaryLine (strict : Bool) (inputs : List (Path × Text)) : Text :=
  (if faultyOf strict inputs = [] then "ok " else "warning: ") ++ Text.ofNat inputs.length ++
    " files checked, " ++ Text.ofNat (fieldSum strict inputs) ++ " fields, " ++
    Text.ofNat (faultSum strict inputs) ++ " errors"

/-- The lines on standard error about some files. -/
def checkLines (p : Presentation) (strict : Bool) (inputs : List (Path × Text)) : List Text :=
  match p.format with
  | .json => []
  | .plain => inputs.flatMap fun input => (checkedOf strict input).faults.map (faultLine input.1)
  | .human =>
    if p.quiet then []
    else (inputs.filterMap fun input => (Model.read strict input.2).toOption.map
      (schemaLine input.1)) ++ [summaryLine strict inputs]

/-- The line at the end of a check that found files which are no schemas. -/
def failingLines (p : Presentation) (strict : Bool) (inputs : List (Path × Text)) : List Text :=
  if faultyOf strict inputs = [] then []
  else [p.failureLine (.invalidFiles ((faultyOf strict inputs).map Prod.fst))]

/-- What a check of files that can all be opened shows beside the log. -/
structure ShowsCheck (p : Presentation) (strict printModel : Bool) (inputs : List (Path × Text))
    (o : Output) : Prop where
  value : p.format = .json → ∃ v : Json.Value, o.stdout = v.pretty ++ "\n" ∧
    Json.checkReport? v = some (CheckReport.ofInputs strict inputs)
  text : p.format ≠ .json → o.stdout = printedAll strict printModel inputs ++
    if p.format = .plain then totalsLine strict inputs else []
  reports : o.stderr.filterMap Message.report? =
    if p.format = .human then reportsOf strict inputs else []
  lines : o.stderr.filterMap Message.line? =
    p.checkLines strict inputs ++ p.failingLines strict inputs

def allCheckedValue (printModel : Bool) (all : List Checked) : Json.Value :=
  .object [("errors", .number (faultTotal all)), ("fields", .number (fieldTotal all)),
    ("files", .number all.length), ("results", .array (all.map (checkedValue printModel)))]

theorem checkReport?_allCheckedValue (strict printModel : Bool) (inputs : List (Path × Text)) :
    Json.checkReport? (allCheckedValue printModel (inputs.map (checkedOf strict))) =
      some (CheckReport.ofInputs strict inputs) := by
  have hresults : Json.itemsAt? "results" Json.fileReport?
      (allCheckedValue printModel (inputs.map (checkedOf strict))) =
        some (inputs.map (FileReport.ofInput strict)) := by
    change ((inputs.map (checkedOf strict)).map (checkedValue printModel)).mapM _ = _
    rw [List.map_map]
    exact Json.mapM_map_eq_some (Json.fileReport?_checkedValue printModel) inputs
  unfold Json.checkReport? CheckReport.ofInputs
  rw [hresults, ← fieldTotal_map_checkedOf, ← faultTotal_map_checkedOf,
    ← List.length_map (checkedOf strict)]
  rfl

theorem all_isValid_iff :
    (inputs.map (checkedOf strict)).all Checked.isValid = true ↔ faultyOf strict inputs = [] := by
  unfold faultyOf
  rw [List.filter_eq_nil_iff, List.all_map, List.all_eq_true]
  refine forall₂_congr fun input _ => ?_
  unfold Function.comp checkedOf Checked.isValid
  cases Model.read strict input.2 <;> simp [Except.toOption]

def checkResult (strict : Bool) (inputs : List (Path × Text)) : Except Failure Unit :=
  if faultyOf strict inputs = [] then .ok ()
  else .error (.invalidFiles ((faultyOf strict inputs).map Prod.fst))

def checkEvents (strict printModel : Bool) (inputs : List (Path × Text)) : List Event :=
  (inputs.map (checkedOf strict)).map (.checked printModel) ++
    [.finishedChecking printModel (inputs.map (checkedOf strict))]

theorem ending_checkResult (p : Presentation) (strict : Bool) (inputs : List (Path × Text)) :
    p.ending (checkResult strict inputs) = ⟨[], (p.failingLines strict inputs).map .line⟩ := by
  unfold checkResult failingLines
  split_ifs <;> rfl

theorem finishedChecking_json (h : p.format = .json) (all : List Checked) :
    p.finishedChecking printModel all = .json (allCheckedValue printModel all) := by
  unfold finishedChecking
  rw [h]
  rfl

theorem finishedChecking_plain (h : p.format = .plain) :
    p.finishedChecking printModel (inputs.map (checkedOf strict)) =
      ⟨totalsLine strict inputs, []⟩ := by
  unfold finishedChecking totalsLine
  rw [h, fieldTotal_map_checkedOf, faultTotal_map_checkedOf, List.length_map]
  simp [Output.line, Text.joined]

theorem finishedChecking_human (h : p.format = .human) :
    p.finishedChecking printModel (inputs.map (checkedOf strict)) =
      ⟨[], if p.quiet then [] else [.line (summaryLine strict inputs)]⟩ := by
  have hsummary : checkSummary (inputs.map (checkedOf strict)) = Text.ofNat inputs.length ++
      " files checked, " ++ Text.ofNat (fieldSum strict inputs) ++ " fields, " ++
      Text.ofNat (faultSum strict inputs) ++ " errors" := by
    rw [checkSummary, fieldTotal_map_checkedOf, faultTotal_map_checkedOf, List.length_map]
  unfold finishedChecking summaryLine success
  rw [h, hsummary]
  simp only [all_isValid_iff, status_human h, warning_human h]
  split_ifs <;> simp only [List.append_assoc]

theorem flatMap_printedOf (strict printModel : Bool) (inputs : List (Path × Text)) :
    (inputs.flatMap fun input => printedOf printModel (checkedOf strict input)) =
      printedAll strict printModel inputs := by
  cases printModel with
  | false => simp [printedOf, printedAll]
  | true =>
    induction inputs with
    | nil => rfl
    | cons input inputs ih =>
      rw [List.flatMap_cons, ih]
      unfold printedOf printedAll schemasOf checkedOf
      cases h : Model.read strict input.2 <;> simp [h, Except.toOption]

theorem flatMap_checkEvents {α : Type} (part : Output → List α) :
    ((checkEvents strict printModel inputs).flatMap fun e => part (p.event e)) =
      (inputs.flatMap fun input => part (p.checked printModel (checkedOf strict input))) ++
        part (p.finishedChecking printModel (inputs.map (checkedOf strict))) := by
  unfold checkEvents
  rw [List.flatMap_append, List.flatMap_map, List.flatMap_map, List.flatMap_singleton]
  rfl

theorem stdout_check (hshown : o.shown = checkEvents strict printModel inputs)
    (hresult : o.result = checkResult strict inputs) :
    (p.outcome o).stdout =
      (inputs.flatMap fun input => (p.checked printModel (checkedOf strict input)).stdout) ++
        (p.finishedChecking printModel (inputs.map (checkedOf strict))).stdout := by
  rw [outcome_eq]
  change (Output.concat _).stdout ++ (p.ending o.result).stdout = _
  rw [stdout_events, hshown, hresult, ending_checkResult, List.append_nil]
  exact flatMap_checkEvents (·.stdout)

theorem filterMap_stderr_check {α : Type} {pick : Message → Option α}
    (hpick : ∀ entry, pick (.log entry) = none)
    (hshown : o.shown = checkEvents strict printModel inputs)
    (hresult : o.result = checkResult strict inputs) :
    (p.outcome o).stderr.filterMap pick =
      (inputs.flatMap fun input =>
        (p.checked printModel (checkedOf strict input)).stderr.filterMap pick) ++
      (p.finishedChecking printModel (inputs.map (checkedOf strict))).stderr.filterMap pick ++
      ((p.failingLines strict inputs).map Message.line).filterMap pick := by
  rw [filterMap_stderr_outcome hpick, hshown, hresult, ending_checkResult]
  exact congrArg (· ++ _) (flatMap_checkEvents fun output => output.stderr.filterMap pick)

theorem filterMap_stderr_json {α : Type} (pick : Message → Option α) (h : p.format = .json) :
    (inputs.flatMap fun input =>
        (p.checked printModel (checkedOf strict input)).stderr.filterMap pick) ++
      (p.finishedChecking printModel (inputs.map (checkedOf strict))).stderr.filterMap pick =
        [] := by
  rw [finishedChecking_json h]
  simp only [checked_json h]
  exact List.append_eq_nil_iff.mpr ⟨List.flatMap_eq_nil_iff.mpr fun _ _ => rfl, rfl⟩

theorem showsCheck_outcome (p : Presentation)
    (hshown : o.shown = checkEvents strict printModel inputs)
    (hresult : o.result = checkResult strict inputs) :
    ShowsCheck p strict printModel inputs (p.outcome o) where
  value hjson := by
    refine ⟨_, ?_, checkReport?_allCheckedValue strict printModel inputs⟩
    rw [stdout_check hshown hresult, finishedChecking_json hjson]
    simp only [checked_json hjson]
    simp [Output.nothing, Output.json, Output.line]
  text hformat := by
    rw [stdout_check hshown hresult, ← flatMap_printedOf]
    cases h : p.format with
    | json => exact absurd h hformat
    | plain => simp [checked_plain h, finishedChecking_plain h]
    | human => simp [checked_human h, finishedChecking_human h]
  reports := by
    have hending : ((p.failingLines strict inputs).map Message.line).filterMap
        Message.report? = [] := by
      simp [List.filterMap_map, Function.comp_def, Message.report?]
    rw [filterMap_stderr_check (fun _ => rfl) hshown hresult, hending, List.append_nil]
    cases h : p.format with
    | json => exact filterMap_stderr_json _ h
    | plain => simp [reports_checked_plain h, finishedChecking_plain h]
    | human =>
      simp only [reports_checked_human h, finishedChecking_human h]
      cases p.quiet <;> exact List.append_nil _
  lines := by
    have hending : ((p.failingLines strict inputs).map Message.line).filterMap
        Message.line? = p.failingLines strict inputs := by
      simp [List.filterMap_map, Function.comp_def, Message.line?]
    rw [filterMap_stderr_check (fun _ => rfl) hshown hresult, hending, checkLines]
    congr 1
    cases h : p.format with
    | json => exact filterMap_stderr_json _ h
    | plain => simp [lines_checked_plain h, finishedChecking_plain h, checkedOf]
    | human =>
      simp only [lines_checked_human h, finishedChecking_human h, checkedOf]
      cases p.quiet with
      | true => simp
      | false =>
        simp only [Bool.false_eq_true, if_false, ← List.filterMap_eq_flatMap_toList]
        rfl

end Presentation

theorem quiet_runCheck (env : Environment) (settingsPath : Option Path) (paths : List Path)
    (strict printModel : Bool) :
    Session.Quiet (runCheck env settingsPath paths strict printModel) := by
  refine (Settings.quiet_load env settingsPath).bind fun settings =>
    (Session.quiet_discover _ _).bind fun files =>
      (Session.Quiet.each (quiet_checkFile _ _) files).bind fun all =>
        (Session.quiet_emit _).bind fun _ => ?_
  cases all.filter (!·.isValid) with
  | nil => exact Session.quiet_pure ()
  | cons => exact Session.quiet_fail _

theorem faultyOf_eq_nil_iff :
    faultyOf strict inputs = [] ↔ ∀ input ∈ inputs, ∃ m, Model.read strict input.2 = .ok m := by
  unfold faultyOf
  rw [List.filter_eq_nil_iff]
  refine forall₂_congr fun input _ => ?_
  cases Model.read strict input.2 <;> simp [Except.toOption]

theorem faultyOf_ne_nil_iff :
    faultyOf strict inputs ≠ [] ↔
      ∃ input ∈ inputs, ∃ faults, Model.read strict input.2 = .error faults := by
  rw [Ne, faultyOf_eq_nil_iff]
  push Not
  refine exists_congr fun input => and_congr_right fun _ => ?_
  cases Model.read strict input.2 <;> simp

theorem exitCode_checkResult {o : Outcome Unit}
    (h : o.result = Presentation.checkResult strict inputs) :
    o.exitCode = if faultyOf strict inputs = [] then 0 else 3 := by
  unfold Outcome.exitCode
  rw [h]
  unfold Presentation.checkResult
  split_ifs <;> rfl

theorem map_path_filter_checkedOf :
    ((inputs.map (checkedOf strict)).filter (!·.isValid)).map (·.path) =
      (faultyOf strict inputs).map Prod.fst := by
  have hfaulty (input : Path × Text) : (!(checkedOf strict input).isValid) =
      (Model.read strict input.2).toOption.isNone := by
    unfold checkedOf Checked.isValid
    cases Model.read strict input.2 <;> rfl
  unfold faultyOf
  rw [List.filter_map, List.map_map, ← funext hfaulty]
  rfl

theorem Finds.result_runCheck_of_read {env : Environment} {settingsPath : Option Path}
    {paths : List Path} {settings : Settings} {fs : FileSystem}
    (h : Finds env settingsPath paths fs settings (inputs.map Prod.fst))
    (hread : ∀ input ∈ inputs, fs.read input.1 = .ok input.2) :
    (runCheck env settingsPath paths strict printModel fs).result =
      Presentation.checkResult (strict || settings.strict) inputs := by
  rw [h.result_runCheck, (each_checkFile hread).1]
  change (if ∀ c ∈ inputs.map (checkedOf (strict || settings.strict)), c.isValid = true
    then Except.ok () else _) = _
  rw [map_path_filter_checkedOf]
  simp only [← List.all_eq_true, Presentation.all_isValid_iff]
  rfl

/-- If the settings can be read, the paths lead to schema files and every one of them can be
opened, then a check reports on all of them in increasing order. It ends with the exit code
for faults if one of them is no schema and with success otherwise, and changes no file. -/
theorem run_check_reports {env : Environment} {args : List Text} {i : Invocation}
    {paths : List Path} {settings : Settings} {fs : FileSystem}
    (hargs : Invocation.read env args = .ok i)
    (hcommand : i.command = .check paths strict printModel)
    (hfinds : Finds env i.settingsPath paths fs settings (inputs.map Prod.fst))
    (hread : ∀ input ∈ inputs, fs.read input.1 = .ok input.2) :
    (inputs.map Prod.fst).Pairwise (Path.order · · = .lt) ∧
    (run env args fs).files = fs ∧
    ((run env args fs).exitCode = 3 ↔
      ∃ input ∈ inputs, ∃ faults, Model.read (strict || settings.strict) input.2 = .error faults) ∧
    ((run env args fs).exitCode = 0 ↔
      ∀ input ∈ inputs, ∃ m, Model.read (strict || settings.strict) input.2 = .ok m) ∧
    (Presentation.ofInvocation env i).ShowsCheck (strict || settings.strict) printModel inputs
      (run env args fs).output := by
  obtain ⟨hfiles, hcode⟩ := run_of_read hargs hcommand fs
  obtain ⟨hall, heach⟩ := each_checkFile hread
  have hresult : (runCheck env i.settingsPath paths strict printModel fs).result = _ :=
    hfinds.result_runCheck_of_read hread
  have hshown : (runCheck env i.settingsPath paths strict printModel fs).shown = _ :=
    (hfinds.shown_runCheck hall).trans (congrArg (· ++ _) heach)
  have hexit : (run env args fs).exitCode = _ := hcode.trans (exitCode_checkResult hresult)
  refine ⟨pairwise_discover hfinds.discover_eq, ?_, ?_, ?_, ?_⟩
  · rw [hfiles]
    exact quiet_runCheck env i.settingsPath paths strict printModel fs
  · rw [hexit, ← faultyOf_ne_nil_iff]
    split_ifs with hnone <;> simp [hnone]
  · rw [hexit, ← faultyOf_eq_nil_iff]
    split_ifs with hnone <;> simp [hnone]
  · rw [output_run hargs hcommand]
    exact Presentation.showsCheck_outcome _ hshown hresult

/-- A faulty file between two schemas. -/
theorem run_check_reports_mixed :
    let env : Environment := ⟨none, none, none, none⟩
    let fs : FileSystem := ⟨[(["w"], .directory),
      (["w", "c.ut"], .file (.text "C:\n x int\n y int\n")),
      (["w", "a.ut"], .file (.text "A:\n x int\n")),
      (["w", "b.ut"], .file (.text "B:\n x\n int\n"))], ["w"]⟩
    let args : List Text := ["--format", "json", "check", "."]
    (run env args fs).files = fs ∧ (run env args fs).exitCode = 3 ∧
      ∃ v : Json.Value, (run env args fs).output.stdout = v.pretty ++ "\n" ∧
        Json.checkReport? v = some ⟨3, 3, 2,
          [⟨"a.ut", [], some ("A", 1)⟩,
            ⟨"b.ut", [("malformed field 'x' at 4..5: expected a name followed by a type", ⟨4, 5⟩),
              ("malformed field 'int' at 7..10: expected a name followed by a type", ⟨7, 10⟩)],
              none⟩,
            ⟨"c.ut", [], some ("C", 2)⟩]⟩ := by
  intro env fs args
  let inputs : List (Path × Text) := [(⟨"a.ut"⟩, "A:\n x int\n"), (⟨"b.ut"⟩, "B:\n x\n int\n"),
    (⟨"c.ut"⟩, "C:\n x int\n y int\n")]
  have hargs : Invocation.read env args =
      .ok ⟨.check [⟨"."⟩] false false, none, .json, 0, false⟩ := by
    decide +kernel
  have hload : (Settings.load env none fs).result = .ok {} :=
    toOption_eq_some_iff.mp (by decide +kernel)
  have hfinds : Finds env none [⟨"."⟩] fs {} (inputs.map Prod.fst) :=
    ⟨hload, toOption_eq_some_iff.mp (by decide +kernel)⟩
  have hread : ∀ input ∈ inputs, fs.read input.1 = .ok input.2 := by
    have hoption : ∀ input ∈ inputs, (fs.read input.1).toOption = some input.2 := by decide +kernel
    exact fun input hinput => toOption_eq_some_iff.mp (hoption input hinput)
  obtain ⟨-, hfiles, -, -, hshows⟩ := run_check_reports hargs rfl hfinds hread
  obtain ⟨v, hv, hreport⟩ := hshows.value rfl
  refine ⟨hfiles, by decide +kernel, v, hv, hreport.trans ?_⟩
  decide +kernel

end ClassSchema
