import ClassSchema.Proofs.FileShape
import ClassSchema.Proofs.PrintedRuns
import ClassSchema.Proofs.Tidying

/-!
# Runs that tidy

A file is known by its place, since several paths may lead to it. A step of a
run puts one file into tidy form or fails without a change, so at any time the
files that were looked at are tidy and all others are as they were. As tidying
keeps the places of files, the next run finds the same files.
-/

namespace ClassSchema

/-- The files at some paths have been put into tidy form, and nothing else has changed. -/
structure TidiedAt (paths : List Path) (fs fs' : FileSystem) : Prop where
  shape : fs.SameShape fs'
  tidied : ∀ p ∈ paths, ∃ l t t', fs.locate p = .ok l ∧ fs.node? l = some (.file (.text t)) ∧
    tidy t = .ok t' ∧ fs'.node? l = some (.file (.text t'))
  untouched : ∀ l, (∀ p ∈ paths, fs.locate p ≠ .ok l) → fs'.node? l = fs.node? l

variable {fs fs' fs'' : FileSystem} {p q : Path} {paths files : List Path}

namespace TidiedAt

theorem nil (fs : FileSystem) : TidiedAt [] fs fs where
  shape := .refl fs
  tidied := by simp
  untouched _ _ := rfl

theorem cons (hp : TidiedAt [p] fs fs') (hpaths : TidiedAt paths fs' fs'') :
    TidiedAt (p :: paths) fs fs'' := by
  obtain ⟨l, t, t', hl, ht, htidy, ht'⟩ := hp.tidied p (by simp)
  have hother : ∀ k ≠ l, fs'.node? k = fs.node? k := by
    intro k hk
    apply hp.untouched k
    intro q hq
    obtain rfl := List.mem_singleton.mp hq
    rw [hl]
    simpa using Ne.symm hk
  -- What the other paths do to the file of `p` is nothing, as it is tidy by then.
  have hlast : fs''.node? l = some (.file (.text t')) := by
    by_cases hmem : ∀ q ∈ paths, fs'.locate q ≠ .ok l
    · rw [hpaths.untouched l hmem, ht']
    · push Not at hmem
      obtain ⟨q, hq, hql⟩ := hmem
      obtain ⟨k, u, u', hk, hu, hu', hfinal⟩ := hpaths.tidied q hq
      rw [hql] at hk
      cases hk
      rw [ht'] at hu
      cases hu
      rw [tidy_tidy htidy] at hu'
      cases hu'
      exact hfinal
  refine ⟨hp.shape.trans hpaths.shape, ?_, ?_⟩
  · intro q hq
    rcases List.mem_cons.mp hq with rfl | hq
    · exact ⟨l, t, t', hl, ht, htidy, hlast⟩
    · obtain ⟨k, u, u', hk, hu, hu', hfinal⟩ := hpaths.tidied q hq
      rw [hp.shape.locate_eq] at hk
      by_cases hkl : k = l
      · subst hkl
        exact ⟨k, t, t', hk, ht, htidy, hlast⟩
      · exact ⟨k, u, u', hk, (hother k hkl).symm.trans hu, hu', hfinal⟩
  · intro k hk
    have hkl : k ≠ l := by
      rintro rfl
      exact hk p List.mem_cons_self hl
    rw [hpaths.untouched k, hother k hkl]
    intro q hq
    rw [hp.shape.locate_eq]
    exact hk q (List.mem_cons_of_mem p hq)

theorem read (h : TidiedAt paths fs fs') (hp : p ∈ paths) :
    ∃ t t', fs.read p = .ok t ∧ tidy t = .ok t' ∧ fs'.read p = .ok t' := by
  obtain ⟨l, t, t', hl, ht, htidy, ht'⟩ := h.tidied p hp
  refine ⟨t, t', FileSystem.read_eq_ok_iff.mpr ⟨l, hl, ht⟩, htidy, ?_⟩
  exact FileSystem.read_eq_ok_iff.mpr ⟨l, (h.shape.locate_eq p).trans hl, ht'⟩

theorem find_eq (h : TidiedAt paths fs fs') (hq : ∀ p ∈ paths, fs.locate p ≠ fs.locate q) :
    fs'.find q = fs.find q := by
  apply FileSystem.find_congr (h.shape.locate_eq q)
  intro l hl
  exact h.untouched l fun p hp => hl ▸ hq p hp

theorem read_eq (h : TidiedAt paths fs fs') (hq : ∀ p ∈ paths, fs.locate p ≠ fs.locate q) :
    fs'.read q = fs.read q := by
  unfold FileSystem.read
  rw [h.find_eq hq]

theorem of_ne (h : TidiedAt paths fs fs') {l : Location} (hl : fs'.node? l ≠ fs.node? l) :
    ∃ p ∈ paths, ∃ t t', fs.locate p = .ok l ∧ fs.node? l = some (.file (.text t)) ∧
      tidy t = .ok t' ∧ fs'.node? l = some (.file (.text t')) := by
  have hsome : ¬ ∀ p ∈ paths, fs.locate p ≠ .ok l := fun hall => hl (h.untouched l hall)
  push Not at hsome
  obtain ⟨p, hp, hpl⟩ := hsome
  obtain ⟨k, t, t', hk, ht, htidy, ht'⟩ := h.tidied p hp
  rw [hpl] at hk
  cases hk
  exact ⟨p, hp, t, t', hpl, ht, htidy, ht'⟩

end TidiedAt

/-- A path that is a schema is dealt with; its file changes if it is to be written and is not
tidy. -/
theorem tidyFile_of_tidy (onlyCheck : Bool) {l : Location} {t t' : Text}
    (hl : fs.locate p = .ok l) (ht : fs.node? l = some (.file (.text t)))
    (htidy : tidy t = .ok t') :
    (tidyFile onlyCheck p fs).result = .ok (decide (t' ≠ t)) ∧
      (tidyFile onlyCheck p fs).files =
        if onlyCheck ∨ t' = t then fs else fs.put l (.file (.text t')) := by
  obtain ⟨m, hm, rfl⟩ := tidy_eq_ok_iff.mp htidy
  have hread : (Session.readModel false p fs).result = .ok (t, m) :=
    Session.readModel_eq_ok_iff.mpr ⟨FileSystem.read_eq_ok_iff.mpr ⟨l, hl, ht⟩, hm⟩
  have hwrite := FileSystem.write_of_file hl ht m.print
  unfold tidyFile
  rw [Session.bind_of_ok hread, Session.quiet_readModel]
  dsimp only
  by_cases hsame : m.print = t
  · rw [if_pos hsame, if_pos (.inr hsame), decide_eq_false (not_not.mpr hsame)]
    exact ⟨rfl, rfl⟩
  · cases onlyCheck with
    | true =>
      rw [if_neg hsame, if_pos rfl, if_pos (.inl rfl), decide_eq_true hsame]
      exact ⟨rfl, rfl⟩
    | false =>
      have hput : (Session.writeText p m.print fs).files = fs.put l (.file (.text m.print)) := by
        unfold Session.writeText
        rw [hwrite]
      have hdone : (Session.writeText p m.print fs).result = .ok () := by
        unfold Session.writeText
        rw [hwrite]
      rw [if_neg hsame, if_neg Bool.false_ne_true, if_neg (by simpa using hsame),
        decide_eq_true hsame, Session.bind_of_ok hdone, hput]
      exact ⟨rfl, rfl⟩

/-- What a step can do: its path is a schema and is dealt with, or the run ends and no file
changes. -/
theorem tidyFile_cases (onlyCheck : Bool) (p : Path) (fs : FileSystem) :
    (∃ l t t', fs.locate p = .ok l ∧ fs.node? l = some (.file (.text t)) ∧ tidy t = .ok t' ∧
      (tidyFile onlyCheck p fs).result = .ok (decide (t' ≠ t)) ∧
      (tidyFile onlyCheck p fs).files =
        if onlyCheck ∨ t' = t then fs else fs.put l (.file (.text t'))) ∨
    ∃ failure, (tidyFile onlyCheck p fs).result = .error failure ∧
      (tidyFile onlyCheck p fs).files = fs ∧
      ((∃ cause, failure = .access p cause) ∨
        ∃ t faults, fs.read p = .ok t ∧ tidy t = .error faults ∧
          failure = .invalidFile p faults) := by
  cases hread : (Session.readModel false p fs).result with
  | error failure =>
    right
    have hend : tidyFile onlyCheck p fs =
        ⟨.error failure, (Session.readModel false p fs).events, fs⟩ := by
      unfold tidyFile
      rw [Session.bind_of_error hread, Session.quiet_readModel]
    rw [hend]
    refine ⟨failure, rfl, rfl, ?_⟩
    rcases Session.readModel_eq_error hread with hcause | ⟨t, faults, ht, hfaults, hfailure⟩
    · exact .inl hcause
    · exact .inr ⟨t, faults, ht, tidy_eq_error_iff.mpr hfaults, hfailure⟩
  | ok both =>
    left
    obtain ⟨t, m⟩ := both
    obtain ⟨ht, hm⟩ := Session.readModel_eq_ok_iff.mp hread
    obtain ⟨l, hl, hnode⟩ := FileSystem.read_eq_ok_iff.mp ht
    have htidy : tidy t = .ok m.print := tidy_eq_ok_iff.mpr ⟨m, hm, rfl⟩
    exact ⟨l, t, m.print, hl, hnode, htidy, tidyFile_of_tidy onlyCheck hl hnode htidy⟩

theorem quiet_tidyFile_check (p : Path) : Session.Quiet (tidyFile true p) := by
  intro fs
  rcases tidyFile_cases true p fs with ⟨l, t, t', -, -, -, -, hfiles⟩ | ⟨failure, -, hfiles, -⟩
  · rw [hfiles, if_pos (.inl rfl)]
  · exact hfiles

theorem tidiedAt_step {changed : Bool} (h : (tidyFile false p fs).result = .ok changed) :
    TidiedAt [p] fs (tidyFile false p fs).files := by
  rcases tidyFile_cases false p fs with ⟨l, t, t', hl, ht, htidy, -, hfiles⟩ | ⟨failure, hfail, -⟩
  · rw [hfiles]
    by_cases hsame : t' = t
    · subst hsame
      rw [if_pos (.inr rfl)]
      refine ⟨.refl fs, ?_, fun _ _ => rfl⟩
      intro q hq
      obtain rfl := List.mem_singleton.mp hq
      exact ⟨l, t', t', hl, ht, htidy, ht⟩
    · rw [if_neg (by simpa using hsame)]
      refine ⟨.put ht _, ?_, ?_⟩
      · intro q hq
        obtain rfl := List.mem_singleton.mp hq
        have hput := FileSystem.node?_put_self (FileSystem.ne_nil_of_node?_eq_file ht) fs
        exact ⟨l, t, t', hl, ht, htidy, hput _⟩
      · intro k hk
        apply FileSystem.node?_put_of_ne
        rintro rfl
        exact hk p List.mem_cons_self hl
  · rw [hfail] at h
    cases h

theorem tidiedAt_steps {changed : List Bool}
    (h : Session.Steps (tidyFile false) fs paths changed fs') : TidiedAt paths fs fs' := by
  induction h with
  | nil fs => exact .nil fs
  | cons hhead _ ih => exact (tidiedAt_step hhead).cons ih

theorem steps_of_tidy (onlyCheck : Bool)
    (h : ∀ p ∈ paths, ∃ t, fs.read p = .ok t ∧ tidy t = .ok t) :
    Session.Steps (tidyFile onlyCheck) fs paths (paths.map fun _ => false) fs := by
  induction paths with
  | nil => exact .nil fs
  | cons p paths ih =>
    obtain ⟨t, ht, htidy⟩ := h p List.mem_cons_self
    obtain ⟨l, hl, hnode⟩ := FileSystem.read_eq_ok_iff.mp ht
    obtain ⟨hresult, hfiles⟩ := tidyFile_of_tidy onlyCheck hl hnode htidy
    rw [if_pos (.inr rfl)] at hfiles
    rw [decide_eq_false (not_not.mpr rfl)] at hresult
    refine .cons hresult ?_
    rw [hfiles]
    exact ih fun q hq => h q (List.mem_cons_of_mem p hq)

variable {env : Environment} {settingsPath : Option Path}

/-- A run goes through the schema files that its paths stand for. -/
theorem runTidy_of_ok (onlyCheck : Bool)
    (h : schemaFiles env settingsPath paths fs = .ok files) :
    (runTidy env settingsPath paths onlyCheck fs).files =
        (Session.each (tidyFile onlyCheck) files fs).files ∧
      (runTidy env settingsPath paths onlyCheck fs).result =
        (Session.each (tidyFile onlyCheck) files fs).result >>= fun answers =>
          if onlyCheck ∧ chosen files answers ≠ [] then .error (.untidy (chosen files answers))
          else .ok () := by
  obtain ⟨settings, hsettings, hfiles⟩ := bind_eq_ok_iff.mp h
  rw [← Session.result_discover] at hfiles
  unfold runTidy
  obtain ⟨hresult, hafter⟩ :=
    Session.bind_of_quiet_ok (Settings.quiet_load env settingsPath) hsettings _
  rw [hresult, hafter]
  obtain ⟨hresult, hafter⟩ := Session.bind_of_quiet_ok (Session.quiet_discover _ _) hfiles _
  rw [hresult, hafter]
  constructor
  · apply Session.files_bind_quiet
    intro answers
    dsimp only
    split_ifs
    · exact (Session.quiet_emit _).bind fun _ => Session.quiet_fail _
    · exact Session.quiet_emit _
  · rw [Session.result_bind]
    congr 1
    funext answers
    split_ifs <;> rfl

theorem runTidy_of_error (onlyCheck : Bool) {failure : Failure}
    (h : schemaFiles env settingsPath paths fs = .error failure) :
    (runTidy env settingsPath paths onlyCheck fs).files = fs ∧
      (runTidy env settingsPath paths onlyCheck fs).result = .error failure := by
  unfold runTidy
  rcases bind_eq_error_iff.mp h with hsettings | ⟨settings, hsettings, hfiles⟩
  · rw [Session.bind_of_error hsettings, Settings.quiet_load]
    exact ⟨rfl, rfl⟩
  · rw [← Session.result_discover] at hfiles
    obtain ⟨hresult, hafter⟩ :=
      Session.bind_of_quiet_ok (Settings.quiet_load env settingsPath) hsettings _
    rw [hresult, hafter, Session.bind_of_error hfiles, Session.quiet_discover]
    exact ⟨rfl, rfl⟩

theorem quiet_runTidy_check (env : Environment) (settingsPath : Option Path)
    (paths : List Path) : Session.Quiet (runTidy env settingsPath paths true) := by
  intro fs
  cases h : schemaFiles env settingsPath paths fs with
  | error failure => exact (runTidy_of_error true h).1
  | ok files => rw [(runTidy_of_ok true h).1, Session.Quiet.each quiet_tidyFile_check files fs]

theorem runTidy_of_tidy (onlyCheck : Bool)
    (hfiles : schemaFiles env settingsPath paths fs = .ok files)
    (htidy : ∀ p ∈ files, ∃ t, fs.read p = .ok t ∧ tidy t = .ok t) :
    (runTidy env settingsPath paths onlyCheck fs).files = fs ∧
      (runTidy env settingsPath paths onlyCheck fs).result = .ok () := by
  obtain ⟨hafter, hresult⟩ := runTidy_of_ok onlyCheck hfiles
  obtain ⟨hanswers, hsame⟩ := Session.each_ok_of_steps (steps_of_tidy onlyCheck htidy)
  rw [hafter, hresult, hanswers, hsame]
  refine ⟨rfl, bind_eq_ok_iff.mpr ⟨_, rfl, ?_⟩⟩
  rw [chosen_of_forall_false, if_neg (by simp)]

/-- How a run can end: it succeeds with all its schema files tidy, it fails before it looks at
any, or it fails at one of them, with those before it tidy. -/
theorem runTidy_cases (env : Environment) (settingsPath : Option Path) (paths : List Path)
    (fs : FileSystem) :
    let o := runTidy env settingsPath paths false fs
    (∃ files, schemaFiles env settingsPath paths fs = .ok files ∧ o.result = .ok () ∧
      TidiedAt files fs o.files) ∨
    (∃ failure, schemaFiles env settingsPath paths fs = .error failure ∧
      o.result = .error failure ∧ o.files = fs) ∨
    ∃ before p after failure,
      schemaFiles env settingsPath paths fs = .ok (before ++ p :: after) ∧
      o.result = .error failure ∧ TidiedAt before fs o.files ∧
      ((∃ cause, failure = .access p cause) ∨
        ∃ t faults, o.files.read p = .ok t ∧ tidy t = .error faults ∧
          failure = .invalidFile p faults) := by
  intro o
  cases h : schemaFiles env settingsPath paths fs with
  | error failure =>
    obtain ⟨hsame, hresult⟩ := runTidy_of_error false h
    exact .inr (.inl ⟨failure, rfl, hresult, hsame⟩)
  | ok files =>
    obtain ⟨hfiles, hresult⟩ := runTidy_of_ok false h
    cases heach : (Session.each (tidyFile false) files fs).result with
    | ok answers =>
      left
      refine ⟨files, rfl, ?_, ?_⟩
      · rw [hresult, heach]
        rfl
      · rw [hfiles]
        exact tidiedAt_steps (Session.steps_of_each_ok heach)
    | error failure =>
      right
      right
      obtain ⟨before, p, after, answers, fs', rfl, hsteps, hfail, hend⟩ :=
        Session.steps_of_each_error heach
      have hbefore := tidiedAt_steps hsteps
      rcases tidyFile_cases false p fs' with ⟨_, _, _, _, _, _, hok, _⟩ | ⟨_, hfail', hsame, hcause⟩
      · rw [hok] at hfail
        cases hfail
      · rw [hfail] at hfail'
        cases hfail'
        have hfinal : o.files = fs' := hfiles.trans (hend.trans hsame)
        rw [hfinal]
        refine ⟨before, p, after, failure, rfl, ?_, hbefore, hcause⟩
        rw [hresult, heach]
        rfl

/-- Settings outside the tidied files are found and read as before, and so the paths stand
for the same files. -/
theorem TidiedAt.schemaFiles_eq (h : TidiedAt files fs fs')
    (hsettings : ∀ place ∈ Settings.file? env settingsPath fs,
      ∀ p ∈ files, fs.locate p ≠ fs.locate place) :
    schemaFiles env settingsPath paths fs' = schemaFiles env settingsPath paths fs := by
  have hfile : Settings.file? env settingsPath fs' = Settings.file? env settingsPath fs := by
    unfold Settings.file?
    rw [h.shape.hasAny_eq]
  have hload : (Settings.load env settingsPath fs').result =
      (Settings.load env settingsPath fs).result := by
    rw [Settings.result_load, Settings.result_load, hfile]
    cases hplace : Settings.file? env settingsPath fs with
    | none => rfl
    | some place =>
      dsimp only
      rw [Settings.result_readFile, Settings.result_readFile, h.read_eq (hsettings place hplace)]
  unfold schemaFiles
  rw [hload]
  simp only [h.shape.discover_eq]

theorem TidiedAt.locate_ne {t : Text} {faults : List Fault} (h : TidiedAt paths fs fs')
    (hread : fs'.read q = .ok t) (hfaults : tidy t = .error faults) :
    ∀ p ∈ paths, fs.locate p ≠ fs.locate q := by
  intro p hp hsame
  obtain ⟨l, u, u', hl, -, htidy, hu'⟩ := h.tidied p hp
  obtain ⟨k, hk, hnode⟩ := FileSystem.read_eq_ok_iff.mp hread
  rw [h.shape.locate_eq, ← hsame, hl] at hk
  cases hk
  rw [hu'] at hnode
  cases hnode
  rw [tidy_tidy htidy] at hfaults
  cases hfaults

theorem schemaFiles_pairwise (h : schemaFiles env settingsPath paths fs = .ok files) :
    files.Pairwise (Path.order · · = .lt) := by
  obtain ⟨settings, -, hfiles⟩ := bind_eq_ok_iff.mp h
  exact pairwise_discover hfiles

theorem exists_schemaFile_of_changed {l : Location}
    (h : (runTidy env settingsPath paths false fs).files.node? l ≠ fs.node? l) :
    ∃ files, schemaFiles env settingsPath paths fs = .ok files ∧ ∃ p ∈ files, ∃ t t',
      fs.locate p = .ok l ∧ fs.node? l = some (.file (.text t)) ∧ tidy t = .ok t' ∧
      (runTidy env settingsPath paths false fs).files.node? l = some (.file (.text t')) := by
  rcases runTidy_cases env settingsPath paths fs with ⟨files, hfiles, -, hall⟩ |
    ⟨failure, -, -, hsame⟩ | ⟨before, p, after, failure, hfiles, -, hbefore, -⟩
  · exact ⟨files, hfiles, hall.of_ne h⟩
  · exact absurd (by rw [hsame]) h
  · obtain ⟨q, hq, hchange⟩ := hbefore.of_ne h
    exact ⟨_, hfiles, q, List.mem_append_left _ hq, hchange⟩

/-- A run that ends with a parse error has tidied the files before the one with the error. -/
theorem exists_stop_of_exitCode
    (h : (runTidy env settingsPath paths false fs).exitCode = 3) :
    ∃ before p after t faults,
      schemaFiles env settingsPath paths fs = .ok (before ++ p :: after) ∧
      (runTidy env settingsPath paths false fs).result = .error (.invalidFile p faults) ∧
      TidiedAt before fs (runTidy env settingsPath paths false fs).files ∧
      fs.read p = .ok t ∧ tidy t = .error faults ∧
      (runTidy env settingsPath paths false fs).files.read p = .ok t := by
  unfold Outcome.exitCode at h
  rcases runTidy_cases env settingsPath paths fs with ⟨files, -, hok, -⟩ |
    ⟨failure, hfiles, hfail, -⟩ | ⟨before, p, after, failure, hfiles, hfail, hbefore, hcause⟩
  · rw [hok] at h
    cases h
  · rw [hfail] at h
    exact absurd h (exitCode_ne_of_schemaFiles hfiles)
  · rw [hfail] at h
    rcases hcause with ⟨cause, rfl⟩ | ⟨t, faults, hread, hfaults, rfl⟩
    · cases h
    · have hsame := hbefore.read_eq (hbefore.locate_ne hread hfaults)
      exact ⟨before, p, after, t, faults, hfiles, hfail, hbefore, hsame ▸ hread, hfaults, hread⟩

/-- After tidy files, a further run has nothing to do. -/
theorem TidiedAt.runTidy_again (h : TidiedAt files fs fs')
    (hfiles : schemaFiles env settingsPath paths fs = .ok files)
    (hsettings : ∀ place ∈ Settings.file? env settingsPath fs,
      ∀ p ∈ files, fs.locate p ≠ fs.locate place) (onlyCheck : Bool) :
    (runTidy env settingsPath paths onlyCheck fs').files = fs' ∧
      (runTidy env settingsPath paths onlyCheck fs').result = .ok () := by
  apply runTidy_of_tidy onlyCheck ((h.schemaFiles_eq hsettings).trans hfiles)
  intro p hp
  obtain ⟨t, t', -, htidy, hread⟩ := h.read hp
  exact ⟨t', hread, tidy_tidy htidy⟩

theorem run_of_tidy {args : List Text} {i : Invocation} {onlyCheck : Bool}
    (hargs : Invocation.read env args = .ok i) (hcommand : i.command = .tidy paths onlyCheck)
    (fs : FileSystem) :
    (run env args fs).files = (runTidy env i.settingsPath paths onlyCheck fs).files ∧
      (run env args fs).exitCode = (runTidy env i.settingsPath paths onlyCheck fs).exitCode :=
  run_of_read hargs hcommand fs

/-- Runs that tidy. To look for files that are not tidy changes no file. Otherwise a place
changes only if it is that of a schema file, and to the tidy form. A run that a parse error
stops has tidied the files in front of the one with the error and no other. After a run that
succeeds all schema files are tidy, and any further run for the same paths succeeds and changes
nothing, if the settings are not among the tidied files. -/
theorem run_tidy_effects {env : Environment} {args : List Text} {i : Invocation}
    {paths : List Path} {onlyCheck : Bool} (hargs : Invocation.read env args = .ok i)
    (hcommand : i.command = .tidy paths onlyCheck) (fs : FileSystem) :
    let final := (run env args fs).files
    let found := schemaFiles env i.settingsPath paths fs
    (onlyCheck = true → final = fs) ∧
    (onlyCheck = false →
      (∀ l, final.node? l ≠ fs.node? l →
        ∃ files, found = .ok files ∧ ∃ p ∈ files, ∃ t t', fs.locate p = .ok l ∧
          fs.node? l = some (.file (.text t)) ∧ tidy t = .ok t' ∧
          final.node? l = some (.file (.text t'))) ∧
      ((run env args fs).exitCode = 3 →
        ∃ before p after t faults, found = .ok (before ++ p :: after) ∧
          (before ++ p :: after).Pairwise (Path.order · · = .lt) ∧
          (i.outcome env fs).result = .error (.invalidFile p faults) ∧
          TidiedAt before fs final ∧
          fs.read p = .ok t ∧ tidy t = .error faults ∧ final.read p = .ok t ∧
          ∀ q ∈ after, (∀ q' ∈ before, fs.locate q' ≠ fs.locate q) →
            final.find q = fs.find q) ∧
      ((run env args fs).exitCode = 0 →
        ∃ files, found = .ok files ∧ TidiedAt files fs final ∧
          ((∀ place ∈ Settings.file? env i.settingsPath fs,
              ∀ p ∈ files, fs.locate p ≠ fs.locate place) →
            ∀ again args' i', Invocation.read env args' = .ok i' →
              i'.settingsPath = i.settingsPath → i'.command = .tidy paths again →
              (run env args' final).exitCode = 0 ∧ (run env args' final).files = final))) := by
  intro final found
  obtain ⟨hfinal, hexit⟩ := run_of_tidy hargs hcommand fs
  refine ⟨?_, ?_⟩
  · rintro rfl
    exact hfinal.trans (quiet_runTidy_check env i.settingsPath paths fs)
  · rintro rfl
    refine ⟨?_, ?_, ?_⟩
    · intro l hl
      rw [show final = _ from hfinal] at hl ⊢
      exact exists_schemaFile_of_changed hl
    · intro hthree
      obtain ⟨before, p, after, t, faults, hfiles, hfail, hbefore, ht, hfaults, ht'⟩ :=
        exists_stop_of_exitCode (hexit.symm.trans hthree)
      rw [← hfinal] at hbefore ht'
      refine ⟨before, p, after, t, faults, hfiles, schemaFiles_pairwise hfiles, ?_, hbefore, ht,
        hfaults, ht', fun q _ hq => hbefore.find_eq hq⟩
      unfold Invocation.outcome
      rw [hcommand]
      exact hfail
    · intro hzero
      have hok := Outcome.exitCode_eq_zero_iff.mp (hexit.symm.trans hzero)
      rcases runTidy_cases env i.settingsPath paths fs with ⟨files, hfiles, -, hall⟩ |
        ⟨failure, -, hfail, -⟩ | ⟨_, _, _, failure, -, hfail, -⟩
      · rw [← hfinal] at hall
        refine ⟨files, hfiles, hall, ?_⟩
        intro hsettings again args' i' hargs' hpath hcommand'
        obtain ⟨hfinal', hexit'⟩ := run_of_tidy hargs' hcommand' final
        rw [hfinal', hexit', hpath, Outcome.exitCode_eq_zero_iff]
        exact (hall.runTidy_again hfiles hsettings again).symm
      · rw [hok] at hfail
        cases hfail
      · rw [hok] at hfail
        cases hfail

/-- Two of the paths lead to one file. With a file that is no schema the run stops between
the others; without it the run succeeds, and so does a look at the same files afterwards. -/
theorem run_tidy_effects_stopped_and_repeated :
    let env : Environment := ⟨none, none, none, none⟩
    let fs : FileSystem := ⟨[(["w"], .directory),
      (["w", "ultratype.toml"], .file (.text "[schemas]\nextension = \"ut\"\n")),
      (["w", "a.ut"], .file (.text "A:\n x   int\n")), (["w", "b.ut"], .file (.text "B:\n x\n")),
      (["w", "c.ut"], .file (.text "C:\n x   int\n"))], ["w"]⟩
    let stopping : List Text := ["tidy", "c.ut", "b.ut", "a.ut", "./a.ut"]
    let finishing : List Text := ["tidy", "c.ut", "a.ut", "./a.ut"]
    let looking : List Text := ["tidy", "--check", "c.ut", "a.ut", "./a.ut"]
    let stopped := run env stopping fs
    let finished := run env finishing fs
    (stopped.exitCode = 3 ∧ ∃ before p after t faults,
      schemaFiles env none [⟨"c.ut"⟩, ⟨"b.ut"⟩, ⟨"a.ut"⟩, ⟨"./a.ut"⟩] fs =
        .ok (before ++ p :: after) ∧
      TidiedAt before fs stopped.files ∧ fs.read p = .ok t ∧ tidy t = .error faults ∧
      stopped.files.read p = .ok t) ∧
    finished.exitCode = 0 ∧ finished.files ≠ fs ∧
      (run env looking finished.files).exitCode = 0 ∧
      (run env looking finished.files).files = finished.files := by
  intro env fs stopping finishing looking stopped finished
  have hstopping : Invocation.read env stopping =
      .ok ⟨.tidy [⟨"c.ut"⟩, ⟨"b.ut"⟩, ⟨"a.ut"⟩, ⟨"./a.ut"⟩] false, none, .human, 0, false⟩ := by
    decide +kernel
  have hfinishing : Invocation.read env finishing =
      .ok ⟨.tidy [⟨"c.ut"⟩, ⟨"a.ut"⟩, ⟨"./a.ut"⟩] false, none, .human, 0, false⟩ := by
    decide +kernel
  have hlooking : Invocation.read env looking =
      .ok ⟨.tidy [⟨"c.ut"⟩, ⟨"a.ut"⟩, ⟨"./a.ut"⟩] true, none, .human, 0, false⟩ := by
    decide +kernel
  have hthree : stopped.exitCode = 3 := by decide +kernel
  have hzero : finished.exitCode = 0 := by decide +kernel
  have hchanged : finished.files ≠ fs := by decide +kernel
  obtain ⟨-, hstop, -⟩ := (run_tidy_effects hstopping rfl fs).2 rfl
  obtain ⟨before, p, after, t, faults, hfiles, -, -, hbefore, ht, hfaults, ht', -⟩ := hstop hthree
  obtain ⟨-, -, hfinish⟩ := (run_tidy_effects hfinishing rfl fs).2 rfl
  obtain ⟨files, hfound, -, hagain⟩ := hfinish hzero
  have hlook := hagain ?_ true looking _ hlooking rfl rfl
  · exact ⟨⟨hthree, before, p, after, t, faults, hfiles, hbefore, ht, hfaults, ht'⟩, hzero,
      hchanged, hlook⟩
  · have hknown : schemaFiles env none [⟨"c.ut"⟩, ⟨"a.ut"⟩, ⟨"./a.ut"⟩] fs =
        .ok [⟨"./a.ut"⟩, ⟨"a.ut"⟩, ⟨"c.ut"⟩] := toOption_eq_some_iff.mp (by decide +kernel)
    have hplace : Settings.file? env none fs = some ⟨"ultratype.toml"⟩ := by decide +kernel
    rw [hknown] at hfound
    cases hfound
    rw [hplace]
    rintro place hmem
    cases hmem
    decide +kernel

/-- A path behind the one that stops the run leads to a file that another path in front of it
leads to as well, and so that file is tidied. -/
theorem run_tidy_changes_later_path :
    let env : Environment := ⟨none, none, none, none⟩
    let fs : FileSystem := ⟨[(["w"], .directory), (["w", "b.ut"], .file (.text "B:\n x\n")),
      (["w", "c.ut"], .file (.text "C:\n x   int\n"))], ["w"]⟩
    let args : List Text := ["tidy", "./c.ut", "b.ut", "c.ut"]
    let paths : List Path := [⟨"./c.ut"⟩, ⟨"b.ut"⟩, ⟨"c.ut"⟩]
    Invocation.read env args = .ok ⟨.tidy paths false, none, .human, 0, false⟩ ∧
      schemaFiles env none paths fs = .ok ([⟨"./c.ut"⟩] ++ ⟨"b.ut"⟩ :: [⟨"c.ut"⟩]) ∧
      fs.read ⟨"b.ut"⟩ = .ok "B:\n x\n" ∧ tidy "B:\n x\n" = .error [.malformedField "x" ⟨4, 5⟩] ∧
      (run env args fs).exitCode = 3 ∧
      (run env args fs).files.read ⟨"c.ut"⟩ = .ok "C:\n  x int\n" ∧
      (run env args fs).files.find ⟨"c.ut"⟩ ≠ fs.find ⟨"c.ut"⟩ := by
  intro env fs args paths
  have hfiles : schemaFiles env none paths fs = .ok ([⟨"./c.ut"⟩] ++ ⟨"b.ut"⟩ :: [⟨"c.ut"⟩]) :=
    toOption_eq_some_iff.mp (by decide +kernel)
  have hchanged : (run env args fs).files.find ⟨"c.ut"⟩ ≠ fs.find ⟨"c.ut"⟩ := by decide +kernel
  exact ⟨by decide +kernel, hfiles, by decide +kernel, by decide +kernel, by decide +kernel,
    by decide +kernel, hchanged⟩

end ClassSchema
