import ClassSchema.Proofs.CheckRuns
import Mathlib.Logic.Function.Basic

/-!
# What generating leaves behind

The code of a schema file is written before the next one is looked at, so a run that
stops has written the code of the files in front of the one that stopped it, and no other.
Beside that only directories on the way to the output directory are created.
-/

namespace ClassSchema

namespace FileSystem

variable {fs fs' fs'' : FileSystem} {l : Location} {p : Path} {names : List Text}
  {files directories : List Path} {contents : Contents}

def contents? (fs : FileSystem) (l : Location) : Option Contents :=
  match fs.node? l with
  | some (.file contents) => some contents
  | _ => none

theorem contents?_eq_some_iff :
    fs.contents? l = some contents ↔ fs.node? l = some (.file contents) := by
  unfold contents?
  cases fs.node? l with
  | none => simp
  | some n => cases n <;> simp

theorem Keeps.contents?_eq (h : Keeps [] fs fs') : fs'.contents? = fs.contents? := by
  funext l
  apply Option.ext
  intro contents
  rw [contents?_eq_some_iff, contents?_eq_some_iff]
  exact h.file_iff (List.forall_mem_nil _)

theorem contents?_put (h : l ≠ []) :
    (fs.put l (.file contents)).contents? = Function.update fs.contents? l (some contents) := by
  funext k
  by_cases hk : k = l
  · subst hk
    rw [Function.update_self, contents?_eq_some_iff, node?_put_self h]
  · rw [Function.update_of_ne hk]
    unfold contents?
    rw [node?_put_of_ne hk]

/-- Nothing has changed but texts of files that some paths lead to, and directories that
other paths lead to and that were not there. -/
def Changes (files directories : List Path) (fs fs' : FileSystem) : Prop :=
  ∀ l, fs'.node? l ≠ fs.node? l →
    (∃ p ∈ files, fs'.locate p = .ok l ∧ ∃ t, fs'.node? l = some (.file (.text t))) ∨
      (∃ p ∈ directories, fs'.locate p = .ok l) ∧ fs.node? l = none ∧
        fs'.node? l = some .directory

namespace Changes

theorem refl (files directories : List Path) (fs : FileSystem) :
    Changes files directories fs fs := by
  intro l hl
  exact absurd rfl hl

theorem trans (h : Changes files directories fs fs') (h' : Changes files directories fs' fs'')
    (hkeeps : Keeps names fs' fs'') : Changes files directories fs fs'' := by
  intro l hl
  by_cases hsame : fs''.node? l = fs'.node? l
  · rw [hsame] at hl ⊢
    rcases h l hl with ⟨p, hp, hplace, hfile⟩ | ⟨⟨p, hp, hplace⟩, hcreated⟩
    · exact .inl ⟨p, hp, hkeeps.locate hplace, hfile⟩
    · exact .inr ⟨⟨p, hp, hkeeps.locate hplace⟩, hcreated⟩
  · rcases h' l hsame with hfile | ⟨hplace, hnone, hdirectory⟩
    · exact .inl hfile
    · refine .inr ⟨hplace, ?_, hdirectory⟩
      -- What was there before would be there still.
      by_contra hthere
      have hchanged : fs'.node? l ≠ fs.node? l := by
        rw [hnone]
        exact Ne.symm hthere
      rcases h l hchanged with ⟨_, -, -, _, hfile⟩ | ⟨-, -, hmade⟩
      · rw [hnone] at hfile
        cases hfile
      · rw [hnone] at hmade
        cases hmade

theorem eq_of_put {k : Location} {n : Node} (h : (fs.put k n).node? l ≠ fs.node? l) : l = k := by
  by_contra hne
  exact h (node?_put_of_ne hne fs n)

theorem of_makeDirectory (h : fs.makeDirectory p = .ok fs') (hp : p ∈ directories) :
    Changes files directories fs fs' := by
  obtain ⟨k, hnone, rfl, hplace⟩ := makeDirectory_eq_ok h
  intro l hl
  obtain rfl := eq_of_put hl
  have hdirectory : fs.node? l ≠ some .directory := by simp [hnone]
  exact .inr ⟨⟨p, hp, hplace⟩, hnone,
    node?_put_self (ne_nil_of_node?_ne_directory hdirectory) fs _⟩

theorem of_makeDirectories (files : List Path) (fs : FileSystem) (p : Path) :
    Changes files (p :: p.ancestors) fs (fs.makeDirectories p).1 := by
  refine makeDirectoriesBelow_induction (refl files _ fs) p.ancestors ?_
  intro q hq fs₁ fs₂ hchanges hmade
  exact hchanges.trans (of_makeDirectory hmade hq) (keeps_makeDirectory hmade)

theorem of_write {t name : Text} (hname : p.fileName? = some name)
    (h : fs.write p t = .ok fs') (hp : p ∈ files) : Changes files directories fs fs' := by
  obtain ⟨k, hk, hnode, rfl⟩ := write_eq_ok h
  intro l hl
  obtain rfl := eq_of_put hl
  have hkeeps := keeps_put_file hnode (getLast?_of_locate hname hk) (.text t)
  exact .inl ⟨p, hp, hkeeps.locate hk, t,
    node?_put_self (ne_nil_of_node?_ne_directory hnode) fs _⟩

end Changes

end FileSystem

namespace Generated

open FileSystem (Keeps Changes)

variable {language : Language} {strict : Bool} {directory p : Path} {code : Text}
  {fs fs' final : FileSystem} {failure : Failure}

/-- What the files hold after the code of some schema files has been written one after the
other, each made from what its schema file holds when its turn comes. -/
inductive Outputs (language : Language) (strict : Bool) (directory : Path)
    (place : Path → Except FileError Location) :
    (Location → Option Contents) → List Path → (Location → Option Contents) → Prop
  | nil (held : Location → Option Contents) : Outputs language strict directory place held [] held
  | cons {held held' : Location → Option Contents} {p : Path} {ps : List Path} {l k : Location}
      {source code stem : Text} {m : Model} (schema : place p = .ok l)
      (text : held l = some (.text source)) (read : Model.read strict source = .ok m)
      (generate : language.generate m = .ok code) (stem_eq : p.stem? = some stem)
      (target : place (directory.join (stem ++ "." ++ language.extension)) = .ok k)
      (more : Outputs language strict directory place
        (Function.update held k (some (.text code))) ps held') :
      Outputs language strict directory place held (p :: ps) held'

/-- Why a run stops at a schema file, told from what it leaves. -/
inductive Stops (language : Language) (strict : Bool) (directory p : Path) (final : FileSystem) :
    Failure → Prop
  | noCode {failure : Failure} (code : codeOf language strict final p = .error failure) :
      Stops language strict directory p final failure
  | noFileName {code : Text} (code_eq : codeOf language strict final p = .ok code)
      (stem : p.stem? = none) : Stops language strict directory p final (.noFileName p)
  | noDirectory {code stem : Text} {cause : FileError} {before : FileSystem}
      (code_eq : codeOf language strict final p = .ok code) (stem_eq : p.stem? = some stem)
      (refused : before.makeDirectories directory = (final, some cause)) :
      Stops language strict directory p final (.access directory cause)
  | noTarget {code stem : Text} {cause : FileError}
      (code_eq : codeOf language strict final p = .ok code) (stem_eq : p.stem? = some stem)
      (refused : final.write (directory.join (stem ++ "." ++ language.extension)) code =
        .error cause) :
      Stops language strict directory p final
        (.access (directory.join (stem ++ "." ++ language.extension)) cause)

theorem fileName?_join_stem {stem : Text} (h : p.stem? = some stem) :
    (directory.join (stem ++ "." ++ language.extension)).fileName? =
      some (stem ++ "." ++ language.extension) := by
  apply fileName?_target (p := p)
  rw [Language.outputName?, h]
  rfl

theorem codeOf_of_keeps (h : Keeps [] fs fs') (hcode : codeOf language strict fs p = .ok code) :
    codeOf language strict fs' p = .ok code := by
  obtain ⟨source, m, hread, hm, hgenerate⟩ := codeOf_eq_ok_iff.mp hcode
  obtain ⟨l, hl, hnode⟩ := FileSystem.read_eq_ok_iff.mp hread
  have hread' : fs'.read p = .ok source :=
    FileSystem.read_eq_ok_iff.mpr ⟨l, h.locate hl, (h.file_iff (List.forall_mem_nil _)).mpr hnode⟩
  exact codeOf_eq_ok_iff.mpr ⟨source, m, hread', hm, hgenerate⟩

/-- What the step for a schema file can do. Unless its code is written, it stops the run, and
then at most directories have been created. -/
theorem step_cases (language : Language) (strict : Bool) (directory p : Path) (earlier : ℕ)
    (fs : FileSystem) :
    let o := step language strict directory (p, earlier) fs
    (∃ code stem made g, codeOf language strict fs p = .ok code ∧ p.stem? = some stem ∧
      fs.makeDirectories directory = (made, none) ∧
      made.write (directory.join (stem ++ "." ++ language.extension)) code = .ok o.files ∧
      o.result = .ok g) ∨
    ∃ failure, o.result = .error failure ∧
      (o.files = fs ∨ o.files = (fs.makeDirectories directory).1) ∧
      Stops language strict directory p o.files failure := by
  have hkeeps := FileSystem.keeps_makeDirectories fs directory
  unfold step
  cases hcode : codeOf language strict fs p with
  | error failure =>
    obtain ⟨hresult, hfiles⟩ := ofFile_of_codeOf_error hcode (some directory) earlier
    dsimp only
    rw [hresult, hfiles]
    exact .inr ⟨failure, rfl, .inl rfl, .noCode hcode⟩
  | ok code =>
    obtain ⟨⟨className, hresult⟩, hfiles⟩ := ofFile_of_codeOf_ok hcode directory earlier
    dsimp only
    rw [hresult, hfiles]
    rcases save_cases directory p language code fs with ⟨hname, hsave, hsame⟩ | ⟨name, hname, hsave⟩
    · rw [hsave, hsame]
      exact .inr ⟨_, rfl, .inl rfl, .noFileName hcode (Option.map_eq_none_iff.mp hname)⟩
    · obtain ⟨stem, hstem, rfl⟩ := Option.map_eq_some_iff.mp hname
      rcases hsave with ⟨cause, hmade, hsave⟩ |
        ⟨made, hmade, ⟨cause, hwrite, hsave, hsame⟩ | ⟨hwrite, hsave⟩⟩
      · rw [hsave]
        rw [hmade] at hkeeps ⊢
        exact .inr ⟨_, rfl, .inr rfl, .noDirectory (codeOf_of_keeps hkeeps hcode) hstem hmade⟩
      · rw [hsave, hsame]
        rw [hmade] at hkeeps ⊢
        exact .inr ⟨_, rfl, .inr rfl, .noTarget (codeOf_of_keeps hkeeps hcode) hstem hwrite⟩
      · rw [hsave]
        exact .inl ⟨code, stem, made, _, rfl, hstem, hmade, hwrite, rfl⟩

section Steps

variable {files : List Path} {inputs : List (Path × ℕ)} {gs : List Generated} {earlier : ℕ}

theorem keeps_of_step_error
    (h : (step language strict directory (p, earlier) fs).result = .error failure) :
    Keeps [] fs (step language strict directory (p, earlier) fs).files ∧
      Stops language strict directory p (step language strict directory (p, earlier) fs).files
        failure := by
  rcases step_cases language strict directory p earlier fs with ⟨_, _, _, _, -, -, -, -, hok⟩ |
    ⟨_, hfail, hfiles, hstops⟩
  · rw [hok] at h
    cases h
  · rw [hfail] at h
    cases h
    refine ⟨?_, hstops⟩
    rcases hfiles with hsame | hmade
    · rw [hsame]
      exact .refl fs
    · rw [hmade]
      exact FileSystem.keeps_makeDirectories fs directory

theorem changes_step (hp : p ∈ files) :
    Changes (files.filterMap fun q => targetOf? directory q language)
      (directory :: directory.ancestors) fs
      (step language strict directory (p, earlier) fs).files := by
  have hmade := Changes.of_makeDirectories
    (files.filterMap fun q => targetOf? directory q language) fs directory
  rcases step_cases language strict directory p earlier fs with
    ⟨code, stem, made, g, -, hstem, hdirectories, hwrite, -⟩ | ⟨failure, -, hfiles | hfiles, -⟩
  · have htarget : directory.join (stem ++ "." ++ language.extension) ∈
        files.filterMap fun q => targetOf? directory q language := by
      refine List.mem_filterMap.mpr ⟨p, hp, ?_⟩
      rw [targetOf?, hstem]
      rfl
    rw [hdirectories] at hmade
    exact hmade.trans (.of_write (fileName?_join_stem hstem) hwrite htarget)
      (FileSystem.of_write_ok (fileName?_join_stem hstem) hwrite).1
  · rw [hfiles]
    exact .refl _ _ fs
  · rw [hfiles]
    exact hmade

theorem changes_steps (h : Session.Steps (step language strict directory) fs inputs gs fs')
    (hinputs : ∀ input ∈ inputs, input.1 ∈ files) :
    Changes (files.filterMap fun q => targetOf? directory q language)
      (directory :: directory.ancestors) fs fs' := by
  induction h with
  | nil fs => exact .refl _ _ fs
  | cons _ htail ih =>
    obtain ⟨hinput, hmore⟩ := List.forall_mem_cons.mp hinputs
    exact (changes_step hinput).trans (ih hmore) (keeps_steps htail)

/-- Steps write the outputs of their schema files, wherever the paths lead later on. -/
theorem outputs_of_steps (h : Session.Steps (step language strict directory) fs inputs gs fs')
    (hplace : ∀ q l, fs'.locate q = .ok l → final.locate q = .ok l) :
    Outputs language strict directory final.locate fs.contents? (inputs.map Prod.fst)
      fs'.contents? := by
  induction h with
  | nil fs => exact .nil _
  | @cons fs fs' input g inputs gs hhead htail ih =>
    obtain ⟨p, earlier⟩ := input
    rcases step_cases language strict directory p earlier fs with
      ⟨code, stem, made, _, hcode, hstem, hdirectories, hwrite, -⟩ | ⟨failure, hfail, -⟩
    · obtain ⟨source, m, hread, hm, hgenerate⟩ := codeOf_eq_ok_iff.mp hcode
      obtain ⟨l, hl, hnode⟩ := FileSystem.read_eq_ok_iff.mp hread
      obtain ⟨k, hk, hfree, hput⟩ := FileSystem.write_eq_ok hwrite
      have hmade := FileSystem.keeps_makeDirectories fs directory
      rw [hdirectories] at hmade
      have hwritten := (FileSystem.of_write_ok (fileName?_join_stem hstem) hwrite).1
      have hlater : ∀ q l, (step language strict directory (p, earlier) fs).files.locate q = .ok l →
          final.locate q = .ok l :=
        fun q l hq => hplace q l ((keeps_steps htail).locate hq)
      refine .cons (hlater p l (hwritten.locate (hmade.locate hl)))
        (FileSystem.contents?_eq_some_iff.mpr hnode) hm hgenerate hstem
        (hlater _ k (hwritten.locate hk)) ?_
      rw [← hmade.contents?_eq,
        ← FileSystem.contents?_put (FileSystem.ne_nil_of_node?_ne_directory hfree), ← hput]
      exact ih hplace
    · rw [hfail] at hhead
      cases hhead

end Steps

end Generated

section Runs

open Generated (Outputs Stops)

variable {env : Environment} {settingsPath : Option Path} {word : Text} {paths files : List Path}
  {outputDir : Option Path} {fs : FileSystem} {settings : Settings} {language : Language}
  {directory : Path}

theorem files_runGenerate_of_no_directory
    (hsettings : (Settings.load env settingsPath fs).result = .ok settings)
    (hnone : outputDir.or settings.outputDir = none) (strict : Bool) :
    (runGenerate env settingsPath word paths outputDir strict fs).files = fs := by
  cases hlanguage : Language.ofIdentifier? word with
  | none => exact (runGenerate_of_unsupported hsettings hlanguage outputDir strict).2
  | some language =>
    cases hfound : discover fs settings.bareExtension paths with
    | error failure =>
      exact (runGenerate_of_discover_error hsettings hlanguage hfound outputDir strict).2
    | ok files =>
      rw [(runGenerate_of_discover_ok hsettings hlanguage hfound outputDir strict).2, hnone]
      exact Session.Quiet.each (Generated.quiet_shownStep language (strict || settings.strict))
        files.zipIdx fs

variable (hsettings : (Settings.load env settingsPath fs).result = .ok settings)
  (hlanguage : Language.ofIdentifier? word = some language)
  (hfound : discover fs settings.bareExtension paths = .ok files)
  (hdirectory : outputDir.or settings.outputDir = some directory) (strict : Bool)

include hsettings hlanguage hfound hdirectory

/-- A run that generates into a directory goes through its files up to the first failure. -/
theorem runGenerate_cases :
    let o := runGenerate env settingsPath word paths outputDir strict fs
    let step := Generated.step language (strict || settings.strict) directory
    (∃ gs, o.result = .ok () ∧ Session.Steps step fs files.zipIdx gs o.files) ∨
    ∃ before p earlier after gs fs' failure, files.zipIdx = before ++ (p, earlier) :: after ∧
      o.result = .error failure ∧ Session.Steps step fs before gs fs' ∧
      (step (p, earlier) fs').result = .error failure ∧
      o.files = (step (p, earlier) fs').files := by
  intro o step
  obtain ⟨hresult, hfiles⟩ :=
    runGenerate_of_discover_ok hsettings hlanguage hfound outputDir strict
  rw [hdirectory] at hresult hfiles
  change o.result = ((Session.each step files.zipIdx fs).result >>= fun _ => .ok ()) at hresult
  change o.files = (Session.each step files.zipIdx fs).files at hfiles
  rw [hresult, hfiles]
  cases heach : (Session.each step files.zipIdx fs).result with
  | ok gs => exact .inl ⟨gs, rfl, Session.steps_of_each_ok heach⟩
  | error failure =>
    obtain ⟨before, ⟨p, earlier⟩, after, gs, fs', hinputs, hsteps, hfail, hend⟩ :=
      Session.steps_of_each_error heach
    exact .inr ⟨before, p, earlier, after, gs, fs', failure, hinputs, rfl, hsteps, hfail, hend⟩

/-- Only outputs and directories on the way to them change. -/
theorem changes_runGenerate :
    FileSystem.Changes (files.filterMap fun p => Generated.targetOf? directory p language)
      (directory :: directory.ancestors) fs
      (runGenerate env settingsPath word paths outputDir strict fs).files := by
  rcases runGenerate_cases hsettings hlanguage hfound hdirectory strict with
    ⟨gs, -, hsteps⟩ |
    ⟨before, p, earlier, after, gs, fs', failure, hinputs, -, hsteps, hfail, hend⟩
  · exact Generated.changes_steps hsteps fun input hinput => List.fst_mem_of_mem_zipIdx hinput
  · rw [hend]
    have hmem : ∀ input ∈ before ++ (p, earlier) :: after, input.1 ∈ files := by
      intro input hinput
      rw [← hinputs] at hinput
      exact List.fst_mem_of_mem_zipIdx hinput
    have hbefore := Generated.changes_steps hsteps fun input hinput =>
      hmem input (List.mem_append_left _ hinput)
    have hp := hmem (p, earlier) (List.mem_append_right _ List.mem_cons_self)
    exact hbefore.trans (Generated.changes_step hp) (Generated.keeps_of_step_error hfail).1

/-- A run that succeeds has written the outputs of all files, and one that fails those of the
files in front of the one it stops at. -/
theorem outputs_runGenerate :
    let o := runGenerate env settingsPath word paths outputDir strict fs
    let Written :=
      Outputs language (strict || settings.strict) directory o.files.locate fs.contents?
    (o.result = .ok () → Written files o.files.contents?) ∧
    ∀ failure, o.result = .error failure →
      ∃ before p after, files = before ++ p :: after ∧ Written before o.files.contents? ∧
        Stops language (strict || settings.strict) directory p o.files failure := by
  intro o Written
  rcases runGenerate_cases hsettings hlanguage hfound hdirectory strict with
    ⟨gs, hok, hsteps⟩ |
    ⟨before, p, earlier, after, gs, fs', failure, hinputs, hfailure, hsteps, hfail, hend⟩
  · refine ⟨fun _ => ?_, fun failure hfailure => ?_⟩
    · have hwritten := Generated.outputs_of_steps hsteps fun _ _ hplace => hplace
      rwa [List.zipIdx_map_fst] at hwritten
    · rw [hok] at hfailure
      cases hfailure
  · refine ⟨fun hok => ?_, fun failure' hfailure' => ?_⟩
    · rw [hfailure] at hok
      cases hok
    · rw [hfailure] at hfailure'
      cases hfailure'
      obtain ⟨hkeeps, hstops⟩ := Generated.keeps_of_step_error hfail
      rw [← hend] at hkeeps hstops
      have hwritten := Generated.outputs_of_steps hsteps fun _ _ hplace => hkeeps.locate hplace
      rw [← hkeeps.contents?_eq] at hwritten
      refine ⟨before.map Prod.fst, p, after.map Prod.fst, ?_, hwritten, hstops⟩
      rw [← List.zipIdx_map_fst 0 files, hinputs, List.map_append, List.map_cons]

end Runs

/-- Runs that generate. Without an output directory no file changes, and neither if the settings,
the language or the schema files cannot be found. Otherwise a place changes only if it is that of
an output of a schema file, or of a directory on the way there that was missing. After a run that
succeeds the files hold what they held but for the outputs of all schema files; a run that fails
has written the outputs of the schema files in front of the one it stops at and nothing else. -/
theorem run_generate_effects {env : Environment} {args : List Text} {i : Invocation}
    {word : Text} {paths : List Path} {outputDir : Option Path} {strict : Bool}
    (hargs : Invocation.read env args = .ok i)
    (hcommand : i.command = .generate word paths outputDir strict) (fs : FileSystem) :
    let final := (run env args fs).files
    let result := (i.outcome env fs).result
    (∀ failure, (Settings.load env i.settingsPath fs).result = .error failure →
      result = .error failure ∧ final = fs) ∧
    ∀ settings, (Settings.load env i.settingsPath fs).result = .ok settings →
      (outputDir.or settings.outputDir = none → final = fs) ∧
      (Language.ofIdentifier? word = none →
        result = .error (.unsupportedLanguage word) ∧ final = fs) ∧
      ∀ language, Language.ofIdentifier? word = some language →
        (∀ failure, discover fs settings.bareExtension paths = .error failure →
          result = .error failure ∧ final = fs) ∧
        ∀ files directory, discover fs settings.bareExtension paths = .ok files →
          outputDir.or settings.outputDir = some directory →
          let strict := strict || settings.strict
          let Written := Generated.Outputs language strict directory final.locate fs.contents?
          (∀ l, final.node? l ≠ fs.node? l →
            (∃ p ∈ files, ∃ stem code, p.stem? = some stem ∧
              final.locate (directory.join (stem ++ "." ++ language.extension)) = .ok l ∧
              final.node? l = some (.file (.text code))) ∨
            (∃ q ∈ directory :: directory.ancestors, final.locate q = .ok l) ∧
              fs.node? l = none ∧ final.node? l = some .directory) ∧
          (result = .ok () → Written files final.contents?) ∧
          ∀ failure, result = .error failure →
            ∃ before p after, files = before ++ p :: after ∧ Written before final.contents? ∧
              Generated.Stops language strict directory p final failure := by
  intro final result
  obtain ⟨hfinal, -⟩ := run_of_read hargs hcommand fs
  have hresult : result =
      (runGenerate env i.settingsPath word paths outputDir strict fs).result := by
    change (i.command.session env i.settingsPath fs).result = _
    rw [hcommand]
    rfl
  change final = (runGenerate env i.settingsPath word paths outputDir strict fs).files at hfinal
  rw [hfinal, hresult]
  refine ⟨fun failure hload => runGenerate_of_load_error hload outputDir strict, ?_⟩
  intro settings hsettings
  refine ⟨fun hnone => files_runGenerate_of_no_directory hsettings hnone strict,
    fun hnone => runGenerate_of_unsupported hsettings hnone outputDir strict, ?_⟩
  intro language hlanguage
  refine ⟨fun failure hfound =>
    runGenerate_of_discover_error hsettings hlanguage hfound outputDir strict, ?_⟩
  intro files directory hfound hdirectory
  refine ⟨?_, outputs_runGenerate hsettings hlanguage hfound hdirectory strict⟩
  intro l hl
  rcases changes_runGenerate hsettings hlanguage hfound hdirectory strict l hl with
    ⟨target, htarget, hplace, code, hcode⟩ | hcreated
  · obtain ⟨p, hp, hname⟩ := List.mem_filterMap.mp htarget
    obtain ⟨stem, hstem, rfl⟩ := Option.map_eq_some_iff.mp hname
    exact .inl ⟨p, hp, stem, code, hstem, hplace, hcode⟩
  · exact .inr hcreated

/-- The last of three files is no schema: the run creates two directories, writes the code of the
other files and stops. The same files without a directory stay as they are. -/
theorem run_generate_effects_stopped :
    let env : Environment := ⟨none, none, none, none⟩
    let fs : FileSystem := ⟨[(["w"], .directory),
      (["w", "a.ut"], .file (.text "A:\n  id int\n")),
      (["w", "b.ut"], .file (.text "B:\n  id int\n")),
      (["w", "c.ut"], .file (.text "C:\n  id\n"))], ["w"]⟩
    let args : List Text := ["gen", "go", "c.ut", "b.ut", "a.ut", "-o", "out/gen"]
    let shown : List Text := ["gen", "go", "b.ut", "a.ut"]
    let final := (run env args fs).files
    ((run env args fs).exitCode = 3 ∧
      final.read ⟨"out/gen/a.go"⟩ = .ok "type A struct \x7b\n    Id int\n\x7d\n" ∧
      final.nodes.length = fs.nodes.length + 4 ∧
      ∃ before p after failure, [⟨"a.ut"⟩, ⟨"b.ut"⟩, ⟨"c.ut"⟩] = before ++ p :: after ∧
        Generated.Outputs .go false ⟨"out/gen"⟩ final.locate fs.contents? before final.contents? ∧
        Generated.Stops .go false ⟨"out/gen"⟩ p final failure) ∧
    (run env shown fs).exitCode = 0 ∧ (run env shown fs).files = fs := by
  intro env fs args shown final
  let i : Invocation := ⟨.generate "go" [⟨"c.ut"⟩, ⟨"b.ut"⟩, ⟨"a.ut"⟩] (some ⟨"out/gen"⟩) false,
    none, .human, 0, false⟩
  have hargs : Invocation.read env args = .ok i := by decide +kernel
  have hshown : Invocation.read env shown =
      .ok ⟨.generate "go" [⟨"b.ut"⟩, ⟨"a.ut"⟩] none false, none, .human, 0, false⟩ := by
    decide +kernel
  have hsettings : (Settings.load env none fs).result = .ok {} :=
    toOption_eq_some_iff.mp (by decide +kernel)
  have hgo : Language.ofIdentifier? "go" = some .go := by decide +kernel
  have hfound : discover fs ({} : Settings).bareExtension [⟨"c.ut"⟩, ⟨"b.ut"⟩, ⟨"a.ut"⟩] =
      .ok [⟨"a.ut"⟩, ⟨"b.ut"⟩, ⟨"c.ut"⟩] := toOption_eq_some_iff.mp (by decide +kernel)
  have hstopped : (i.outcome env fs).result.toOption = none := by decide +kernel
  refine ⟨⟨by decide +kernel, by decide +kernel, by decide +kernel, ?_⟩, by decide +kernel, ?_⟩
  · obtain ⟨-, hrun⟩ := run_generate_effects hargs rfl fs
    obtain ⟨-, -, hrun⟩ := hrun {} hsettings
    obtain ⟨-, hrun⟩ := hrun .go hgo
    obtain ⟨-, -, hfail⟩ := hrun _ _ hfound rfl
    cases hresult : (i.outcome env fs).result with
    | ok _ =>
      rw [hresult] at hstopped
      cases hstopped
    | error failure =>
      obtain ⟨before, p, after, hfiles, hwritten, hstops⟩ := hfail failure hresult
      exact ⟨before, p, after, failure, hfiles, hwritten, hstops⟩
  · exact ((run_generate_effects hshown rfl fs).2 {} hsettings).1 rfl

end ClassSchema
