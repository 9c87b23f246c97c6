import ClassSchema.Proofs.Sessions

/-!
# Commands print what their sessions make known

A command that runs looks at the format for every file and once more in the end,
with totals and results that it has kept on the way. Whatever the format, it does
to the files what its session does, fails where it fails, and prints the events of
the session as they are presented. So the choice of a format cannot skip a file, a
write or a failure.
-/

namespace ClassSchema

namespace Session

variable {α β : Type} {f : α → Session β} {as : List α} {bs : List β} {fs : FileSystem}

theorem length_of_each_ok (h : (each f as fs).result = .ok bs) : bs.length = as.length := by
  have hsteps := steps_of_each_ok h
  generalize (each f as fs).files = fs' at hsteps
  clear h
  induction hsteps with
  | nil fs => rfl
  | cons _ _ ih => simp [ih]

end Session

namespace Presentation

open Json (Value)
open Session (each)

variable {α β γ σ : Type} (p : Presentation) {f : α → Session β} {as : List α}

theorem present_each_bind_congr {next next' : List β → Console γ}
    (h : ∀ bs, bs.length = as.length → next bs = next' bs) :
    p.present (each f as) >>= next = p.present (each f as) >>= next' := by
  funext fs
  cases hresult : (each f as fs).result with
  | error failure =>
    rw [Console.bind_of_error (c := p.present (each f as)) hresult,
      Console.bind_of_error (c := p.present (each f as)) hresult]
  | ok bs =>
    rw [Console.bind_of_ok (c := p.present (each f as)) hresult,
      Console.bind_of_ok (c := p.present (each f as)) hresult,
      h bs (Session.length_of_each_ok hresult)]

theorem foldlM_eq_present_each {step : σ → α → Console σ} {k : σ → α × β → σ}
    (h : ∀ s a, step s a = p.present (f a) >>= fun b => pure (k s (a, b))) (s : σ) :
    as.foldlM step s = p.present (each f as) >>= fun bs => pure ((as.zip bs).foldl k s) := by
  induction as generalizing s with
  | nil => rfl
  | cons a as ih =>
    have heach : each f (a :: as) = f a >>= fun b => each f as >>= fun bs => pure (b :: bs) := rfl
    rw [List.foldlM_cons, h, heach, present_bind, bind_assoc, bind_assoc]
    refine bind_congr fun b => ?_
    rw [pure_bind, ih, present_bind, bind_assoc]
    exact bind_congr fun bs => rfl

theorem foldlM_eq_present_each_of_answers {step : σ → α → Console σ} {k : σ → β → σ}
    (h : ∀ s a, step s a = p.present (f a) >>= fun b => pure (k s b)) (s : σ) :
    as.foldlM step s = p.present (each f as) >>= fun bs => pure (bs.foldl k s) := by
  rw [p.foldlM_eq_present_each (k := fun s answer => k s answer.2) h]
  refine p.present_each_bind_congr fun bs hlength => ?_
  rw [← List.foldl_map, List.map_snd_zip hlength.le]

/-- The results with one more of them, if they are wanted in the end. -/
def collect (results : List Value) (v : Value) : List Value :=
  if p.format = .json then results ++ [v] else results

theorem generateFile_eq (language : Language) (strict : Bool) (directory : Option Path)
    (results : List Value) (file : Path × ℕ) :
    p.generateFile language strict directory results file =
      p.present (Generated.ofFile language strict directory file.2 file.1) >>= fun g =>
        pure (p.collect results (generatedValue g)) := by
  obtain ⟨path, i⟩ := file
  unfold generateFile Generated.ofFile
  simp only [present_bind, bind_assoc]
  refine bind_congr fun answer => ?_
  refine bind_congr fun code => ?_
  cases directory with
  | some directory =>
    simp only [Generated.saveIn?, present_bind, bind_assoc]
    refine bind_congr fun target => ?_
    cases hformat : p.format <;>
      simp [event, generated, collect, hformat]
  | none =>
    simp only [Generated.saveIn?, present_pure, present_emit, pure_bind]
    cases hformat : p.format with
    | json => simp [event, generated, collect, hformat]
    | human | plain =>
      cases i with
      | zero => simp [event, generated, collect, hformat]
      | succ i =>
        have hcode : Output.text ('\n' :: code) = (Output.text ['\n']).append (.text code) := rfl
        simp [event, generated, collect, hformat, hcode, Console.print_append]

theorem foldl_collect (value : β → Value) (results : List Value) (bs : List β) :
    bs.foldl (fun results b => p.collect results (value b)) results =
      if p.format = .json then results ++ bs.map value else results := by
  induction bs generalizing results with
  | nil => simp
  | cons b bs ih =>
    rw [List.foldl_cons, ih]
    unfold collect
    split_ifs <;> simp

variable (env : Environment) (settingsPath : Option Path)

/-- Generating prints what its session makes known. -/
theorem runGenerate_eq (word : Text) (paths : List Path) (outputDir : Option Path)
    (strict : Bool) :
    p.runGenerate env settingsPath word paths outputDir strict =
      p.present (ClassSchema.runGenerate env settingsPath word paths outputDir strict) := by
  unfold runGenerate ClassSchema.runGenerate
  rw [present_bind]
  refine bind_congr fun settings => ?_
  cases Language.ofIdentifier? word with
  | none => rfl
  | some language =>
    dsimp only
    rw [present_bind]
    refine bind_congr fun files => ?_
    rw [present_bind, p.foldlM_eq_present_each_of_answers (p.generateFile_eq language _ _),
      bind_assoc]
    refine p.present_each_bind_congr fun gs hlength => ?_
    rw [pure_bind, foldl_collect, present_emit, event, finishedGenerating, hlength,
      List.length_zipIdx]
    cases p.format <;> rfl

theorem tidyFile_eq (onlyCheck : Bool) (changed : List Path) (path : Path) :
    p.tidyFile onlyCheck changed path =
      p.present (ClassSchema.tidyFile onlyCheck path) >>= fun untidy =>
        pure (if untidy then changed ++ [path] else changed) := by
  unfold tidyFile ClassSchema.tidyFile
  rw [present_bind, bind_assoc]
  refine bind_congr fun answer => ?_
  dsimp only
  by_cases htidy : answer.2.print = answer.1
  · rw [if_pos htidy, if_pos htidy, present_bind, bind_assoc]
    rfl
  · rw [if_neg htidy, if_neg htidy]
    cases onlyCheck with
    | true => rfl
    | false =>
      simp only [Bool.not_false, if_true, Bool.false_eq_true, if_false, present_bind, bind_assoc,
        present_emit, present_pure, pure_bind]
      rfl

theorem forM_print (o : α → Output) (as : List α) :
    as.forM (fun a => Console.print (o a)) = Console.print (.concat (as.map o)) := by
  induction as with
  | nil => rfl
  | cons a as ih =>
    change (Console.print (o a) >>= fun _ => as.forM fun a => Console.print (o a)) = _
    rw [ih, List.map_cons, Output.concat_cons, Console.print_append]

/-- Tidying prints what its session makes known. -/
theorem runTidy_eq (paths : List Path) (onlyCheck : Bool) :
    p.runTidy env settingsPath paths onlyCheck =
      p.present (ClassSchema.runTidy env settingsPath paths onlyCheck) := by
  unfold runTidy ClassSchema.runTidy
  rw [present_bind]
  refine bind_congr fun settings => ?_
  rw [present_bind]
  refine bind_congr fun files => ?_
  rw [present_bind, p.foldlM_eq_present_each (f := ClassSchema.tidyFile onlyCheck)
    (k := fun changed answer => if answer.2 then changed ++ [answer.1] else changed)
    (p.tidyFile_eq onlyCheck), bind_assoc]
  refine bind_congr fun answers => ?_
  rw [pure_bind, foldl_eq_chosen, List.nil_append]
  by_cases huntidy : onlyCheck = true ∧ chosen files answers ≠ []
  · rw [if_pos huntidy, if_pos huntidy, present_bind, present_emit, present_fail, event,
      foundUntidy]
    cases p.format with
    | json => rfl
    | human | plain =>
      rw [← forM_print]
      rfl
  · rw [if_neg huntidy, if_neg huntidy, present_emit, event, finishedTidying]
    cases p.format <;> rfl

/-- The tally with one more file. -/
def Tally.add (printModel : Bool) (t : Tally) (c : Checked) : Tally where
  fields := t.fields + c.fieldCount
  faults := t.faults + c.faults.length
  failed := if c.isValid then t.failed else t.failed ++ [c.path]
  results := p.collect t.results (checkedValue printModel c)

theorem Tally.add_of_ok (printModel : Bool) (t : Tally) (path : Path) (m : Model) :
    t.add p printModel ⟨path, .ok m⟩ =
      if p.format = .json then
        (t.addFields m.fields.length).addResult (checkedValue printModel ⟨path, .ok m⟩)
      else t.addFields m.fields.length := by
  by_cases h : p.format = .json
  · rw [if_pos h, add, collect, if_pos h]
    rfl
  · rw [if_neg h, add, collect, if_neg h]
    rfl

theorem Tally.add_of_error (printModel : Bool) (t : Tally) (path : Path) (faults : List Fault) :
    t.add p printModel ⟨path, .error faults⟩ =
      if p.format = .json then
        (t.addFaults path faults.length).addResult (checkedValue printModel ⟨path, .error faults⟩)
      else t.addFaults path faults.length := by
  by_cases h : p.format = .json
  · rw [if_pos h, add, collect, if_pos h]
    rfl
  · rw [if_neg h, add, collect, if_neg h]
    rfl

theorem checkFile_eq (strict printModel : Bool) (t : Tally) (path : Path) :
    p.checkFile strict printModel t path =
      p.present (ClassSchema.checkFile strict printModel path) >>= fun c =>
        pure (t.add p printModel c) := by
  unfold checkFile ClassSchema.checkFile
  simp only [present_bind, bind_assoc]
  refine bind_congr fun source => bind_congr fun reading => ?_
  rw [present_emit, present_pure, pure_bind, event, checked]
  cases reading with
  | error faults =>
    refine bind_congr fun _ => ?_
    rw [Tally.add_of_error]
    split_ifs <;> rfl
  | ok m =>
    rw [Tally.add_of_ok]
    cases p.format with
    | json => rfl
    | human | plain =>
      cases printModel with
      | false => rfl
      | true => exact (bind_assoc (Console.print (.text m.print)) _ _).symm

theorem foldl_add (printModel : Bool) (t : Tally) (all : List Checked) :
    all.foldl (Tally.add p printModel) t =
      ⟨t.fields + fieldTotal all, t.faults + faultTotal all,
        t.failed ++ (all.filter (!·.isValid)).map (·.path),
        if p.format = .json then t.results ++ all.map (checkedValue printModel)
        else t.results⟩ := by
  induction all generalizing t with
  | nil => simp [fieldTotal, faultTotal]
  | cons c all ih =>
    have hfields : fieldTotal (c :: all) = c.fieldCount + fieldTotal all := rfl
    have hfaults : faultTotal (c :: all) = c.faults.length + faultTotal all := rfl
    rw [List.foldl_cons, ih, Tally.add, collect, hfields, hfaults, Tally.mk.injEq]
    refine ⟨Nat.add_assoc .., Nat.add_assoc .., ?_, ?_⟩
    · cases h : c.isValid <;> simp [h]
    · split_ifs <;> simp

/-- Checking prints what its session makes known. -/
theorem runCheck_eq (paths : List Path) (strict printModel : Bool) :
    p.runCheck env settingsPath paths strict printModel =
      p.present (ClassSchema.runCheck env settingsPath paths strict printModel) := by
  unfold runCheck ClassSchema.runCheck
  rw [present_bind]
  refine bind_congr fun settings => ?_
  rw [present_bind]
  refine bind_congr fun files => ?_
  rw [present_bind, p.foldlM_eq_present_each_of_answers (p.checkFile_eq _ printModel), bind_assoc]
  refine p.present_each_bind_congr fun all hlength => ?_
  rw [pure_bind, foldl_add, present_bind, present_emit, event, finishedChecking, ← hlength]
  simp only [Tally.start, Nat.zero_add, List.nil_append]
  cases hinvalid : all.filter (!·.isValid) with
  | nil =>
    have hvalid : all.all Checked.isValid = true := by simpa using hinvalid
    rw [if_pos hvalid]
    cases p.format <;> rfl
  | cons c invalid =>
    have hvalid : ¬ all.all Checked.isValid = true := by
      intro hall
      have hnil : all.filter (!·.isValid) = [] := by simpa using hall
      rw [hnil] at hinvalid
      cases hinvalid
    rw [if_neg hvalid]
    cases p.format <;> rfl

theorem runCommand_eq (command : Command) :
    p.runCommand env settingsPath command = p.present (command.session env settingsPath) := by
  cases command with
  | generate word paths outputDir strict =>
    exact p.runGenerate_eq env settingsPath word paths outputDir strict
  | tidy paths onlyCheck => exact p.runTidy_eq env settingsPath paths onlyCheck
  | check paths strict printModel => exact p.runCheck_eq env settingsPath paths strict printModel
  | languages => exact (p.present_emit .listedLanguages).symm
  | completions shell => rfl
  | unknown words => rfl

end Presentation

theorem Failure.exitCode_ne_zero (failure : Failure) : failure.exitCode ≠ 0 := by
  cases failure <;> simp [exitCode]

theorem Outcome.exitCode_eq_zero_iff {o : Outcome Unit} : o.exitCode = 0 ↔ o.result = .ok () := by
  unfold exitCode
  cases o.result with
  | error failure => simpa using failure.exitCode_ne_zero
  | ok _ => simp

theorem Invocation.run_eq (env : Environment) (i : Invocation) (fs : FileSystem) :
    i.run env fs = ⟨(i.outcome env fs).exitCode,
      (Presentation.ofInvocation env i).outcome (i.outcome env fs), (i.outcome env fs).files⟩ := by
  have hcommand := (Presentation.ofInvocation env i).runCommand_eq env i.settingsPath i.command
  exact (congrArg (fun c : Console Unit => (Presentation.ofInvocation env i).finish (c fs))
    hcommand).trans (Presentation.finish_present _ _ fs)

section

variable {env : Environment} {args : List Text} {i : Invocation} {command : Command}

theorem run_of_read (hargs : Invocation.read env args = .ok i) (hcommand : i.command = command)
    (fs : FileSystem) :
    (run env args fs).files = (command.session env i.settingsPath fs).files ∧
      (run env args fs).exitCode = (command.session env i.settingsPath fs).exitCode := by
  subst hcommand
  unfold run
  rw [hargs]
  dsimp only
  rw [Invocation.run_eq]
  exact ⟨rfl, rfl⟩

theorem output_run (hargs : Invocation.read env args = .ok i) (hcommand : i.command = command)
    (fs : FileSystem) :
    (run env args fs).output =
      (Presentation.ofInvocation env i).outcome (command.session env i.settingsPath fs) := by
  subst hcommand
  unfold run
  rw [hargs]
  dsimp only
  rw [Invocation.run_eq]
  rfl

end

end ClassSchema
