import ClassSchema.Proofs.GeneratedFiles
import ClassSchema.Proofs.TidyRuns
import ClassSchema.Proofs.TrailingText

/-!
# Commands that agree on what is a schema

Checking looks at every schema file, also behind a faulty one, generating stops at the
first file that it cannot render, and tidying writes files while it goes and never reads
them strictly. All of them go by the same settings and the same files. If every file is a
schema, then no command finds a parse error, and if one is not, no code is generated.
-/

namespace ClassSchema

theorem exists_mem_of_forall₂ {α β : Type} {R : α → β → Prop} {as : List α} {bs : List β} {a : α}
    (h : List.Forall₂ R as bs) (ha : a ∈ as) : ∃ b ∈ bs, R a b := by
  induction h with
  | nil => cases ha
  | cons hhead _ ih =>
    rcases List.mem_cons.mp ha with rfl | ha
    · exact ⟨_, List.mem_cons_self, hhead⟩
    · obtain ⟨b, hb, hab⟩ := ih ha
      exact ⟨b, List.mem_cons_of_mem _ hb, hab⟩

namespace Session

variable {α β : Type} {f : α → Session β} {as : List α} {bs : List β} {fs fs' : FileSystem}

theorem Steps.of_quiet (h : Steps f fs as bs fs') (hf : ∀ a, Quiet (f a)) :
    fs' = fs ∧ List.Forall₂ (fun a b => (f a fs).result = .ok b) as bs := by
  induction h with
  | nil fs => exact ⟨rfl, .nil⟩
  | cons hhead _ ih =>
    rw [hf] at ih
    exact ⟨ih.1, .cons hhead ih.2⟩

theorem each_eq_ok_of_quiet (hf : ∀ a, Quiet (f a)) (h : (each f as fs).result = .ok bs) :
    List.Forall₂ (fun a b => (f a fs).result = .ok b) as bs :=
  ((steps_of_each_ok h).of_quiet hf).2

theorem each_eq_error_of_quiet (hf : ∀ a, Quiet (f a)) {failure : Failure}
    (h : (each f as fs).result = .error failure) :
    ∃ a ∈ as, (f a fs).result = .error failure := by
  obtain ⟨before, a, after, bs, fs', rfl, hsteps, hfail, -⟩ := steps_of_each_error h
  obtain ⟨rfl, -⟩ := hsteps.of_quiet hf
  exact ⟨a, by simp, hfail⟩

end Session

variable {env : Environment} {settingsPath : Option Path} {paths files : List Path}
  {settings : Settings} {strict : Bool} {fs fs' : FileSystem} {p : Path}

def IsSchema (strict : Bool) (fs : FileSystem) (p : Path) : Prop :=
  ∃ source m, fs.read p = .ok source ∧ Model.read strict source = .ok m

def IsFaulty (strict : Bool) (fs : FileSystem) (p : Path) : Prop :=
  ∃ source faults, fs.read p = .ok source ∧ Model.read strict source = .error faults

theorem IsFaulty.not_isSchema (h : IsFaulty strict fs p) : ¬ IsSchema strict fs p := by
  rintro ⟨source, m, hread, hm⟩
  obtain ⟨source', faults, hread', hfaults⟩ := h
  rw [hread] at hread'
  cases hread'
  rw [hm] at hfaults
  cases hfaults

theorem IsSchema.lenient (h : IsSchema strict fs p) : IsSchema false fs p := by
  obtain ⟨source, m, hread, hm⟩ := h
  cases strict with
  | false => exact ⟨source, m, hread, hm⟩
  | true => exact ⟨source, m, hread, Model.read_of_read_strict hm⟩

/-- What a run goes by: the settings that hold and the schema files that its paths stand
for. -/
structure Finds (env : Environment) (settingsPath : Option Path) (paths : List Path)
    (fs : FileSystem) (settings : Settings) (files : List Path) : Prop where
  load_eq : (Settings.load env settingsPath fs).result = .ok settings
  discover_eq : discover fs settings.bareExtension paths = .ok files

theorem Finds.schemaFiles_eq (h : Finds env settingsPath paths fs settings files) :
    schemaFiles env settingsPath paths fs = .ok files :=
  bind_eq_ok_iff.mpr ⟨settings, h.load_eq, h.discover_eq⟩

theorem exists_finds (h : schemaFiles env settingsPath paths fs = .ok files) :
    ∃ settings, Finds env settingsPath paths fs settings files := by
  obtain ⟨settings, hload, hfiles⟩ := bind_eq_ok_iff.mp h
  exact ⟨settings, hload, hfiles⟩

theorem quiet_checkFile (strict printModel : Bool) (p : Path) :
    Session.Quiet (checkFile strict printModel p) :=
  (Session.quiet_readText p).bind fun source => (Session.quiet_readSource strict source).bind
    fun _ => (Session.quiet_emit _).bind fun _ => Session.quiet_pure _

theorem result_checkFile (strict printModel : Bool) (p : Path) (fs : FileSystem) :
    (checkFile strict printModel p fs).result =
      (fs.read p).mapError (.access p) >>= fun source =>
        .ok ⟨p, Model.read strict source⟩ := by
  unfold checkFile
  rw [Session.result_bind_of_quiet (Session.quiet_readText p), Session.result_readText]
  congr 1
  funext source
  rw [Session.result_bind_of_quiet (Session.quiet_readSource strict source),
    Session.result_readSource]
  rfl

theorem checkFile_eq_ok_iff {printModel : Bool} {c : Checked} :
    (checkFile strict printModel p fs).result = .ok c ↔
      ∃ source, fs.read p = .ok source ∧ c = ⟨p, Model.read strict source⟩ := by
  rw [result_checkFile, bind_eq_ok_iff]
  simp only [mapError_eq_ok_iff, Except.ok.injEq]
  constructor
  · rintro ⟨source, hread, rfl⟩
    exact ⟨source, hread, rfl⟩
  · rintro ⟨source, hread, rfl⟩
    exact ⟨source, hread, rfl⟩

theorem checkFile_eq_error {printModel : Bool} {failure : Failure}
    (h : (checkFile strict printModel p fs).result = .error failure) :
    ∃ cause, fs.read p = .error cause ∧ failure = .access p cause := by
  rw [result_checkFile] at h
  rcases bind_eq_error_iff.mp h with h | ⟨source, -, h⟩
  · obtain ⟨cause, hcause, rfl⟩ := mapError_eq_error_iff.mp h
    exact ⟨cause, hcause, rfl⟩
  · cases h

theorem runCheck_of_error (strict printModel : Bool) {failure : Failure}
    (h : schemaFiles env settingsPath paths fs = .error failure) :
    (runCheck env settingsPath paths strict printModel fs).result = .error failure := by
  unfold runCheck
  rw [Session.result_bind_of_quiet (Settings.quiet_load env settingsPath)]
  rcases bind_eq_error_iff.mp h with hload | ⟨settings, hload, hfiles⟩
  · rw [hload]
    rfl
  · refine bind_eq_error_iff.mpr (.inr ⟨settings, hload, ?_⟩)
    rw [Session.result_bind_of_quiet (Session.quiet_discover _ _), Session.result_discover, hfiles]
    rfl

/-- A run checks the files that are found, and fails if one of them is not valid. -/
theorem Finds.result_runCheck (h : Finds env settingsPath paths fs settings files)
    (strict printModel : Bool) :
    (runCheck env settingsPath paths strict printModel fs).result =
      (Session.each (checkFile (strict || settings.strict) printModel) files fs).result >>=
        fun all => if ∀ c ∈ all, c.isValid = true then .ok ()
          else .error (.invalidFiles ((all.filter (!·.isValid)).map (·.path))) := by
  unfold runCheck
  rw [Session.result_bind_of_quiet (Settings.quiet_load env settingsPath), h.load_eq]
  change ((Session.discover _ _ >>= _ : Session Unit) fs).result = _
  rw [Session.result_bind_of_quiet (Session.quiet_discover _ _), Session.result_discover,
    h.discover_eq]
  change ((Session.each _ _ >>= _ : Session Unit) fs).result = _
  rw [Session.result_bind_of_quiet (Session.Quiet.each (quiet_checkFile _ _) files)]
  congr 1
  funext all
  rw [Session.result_bind_of_quiet (Session.quiet_emit _)]
  cases hinvalid : all.filter (!·.isValid) with
  | nil =>
    have hall : ∀ c ∈ all, c.isValid = true := by simpa using List.filter_eq_nil_iff.mp hinvalid
    rw [if_pos hall]
    rfl
  | cons c cs =>
    have hall : ¬ ∀ c ∈ all, c.isValid = true := by
      intro hall
      have hc : c ∈ all.filter (!·.isValid) := by simp [hinvalid]
      simpa [hall c (List.mem_filter.mp hc).1] using (List.mem_filter.mp hc).2
    rw [if_neg hall]
    rfl

/-- How a check can end: before it looks at any file, at a file that cannot be opened, or
after all files, which are then schemas or among which there is a faulty one. -/
theorem runCheck_cases (env : Environment) (settingsPath : Option Path) (paths : List Path)
    (strict printModel : Bool) (fs : FileSystem) :
    let result := (runCheck env settingsPath paths strict printModel fs).result
    (∃ failure, schemaFiles env settingsPath paths fs = .error failure ∧
      result = .error failure) ∨
    ∃ settings files, Finds env settingsPath paths fs settings files ∧
      ((∃ p ∈ files, ∃ cause, fs.read p = .error cause ∧ result = .error (.access p cause)) ∨
      ((∀ p ∈ files, IsSchema (strict || settings.strict) fs p) ∧ result = .ok ()) ∨
      ((∀ p ∈ files, ∃ source, fs.read p = .ok source) ∧
        (∃ p ∈ files, IsFaulty (strict || settings.strict) fs p) ∧
        ∃ invalid, result = .error (.invalidFiles invalid))) := by
  intro result
  cases hfiles : schemaFiles env settingsPath paths fs with
  | error failure => exact .inl ⟨failure, rfl, runCheck_of_error strict printModel hfiles⟩
  | ok files =>
    obtain ⟨settings, hfinds⟩ := exists_finds hfiles
    refine .inr ⟨settings, files, hfinds, ?_⟩
    have hquiet := quiet_checkFile (strict || settings.strict) printModel
    have hresult : result = _ := hfinds.result_runCheck strict printModel
    cases heach : (Session.each (checkFile (strict || settings.strict) printModel) files
        fs).result with
    | error failure =>
      obtain ⟨p, hp, hfail⟩ := Session.each_eq_error_of_quiet hquiet heach
      obtain ⟨cause, hcause, rfl⟩ := checkFile_eq_error hfail
      refine .inl ⟨p, hp, cause, hcause, ?_⟩
      rw [hresult, heach]
      rfl
    | ok all =>
      have hall := Session.each_eq_ok_of_quiet hquiet heach
      rw [heach] at hresult
      by_cases hvalid : ∀ c ∈ all, c.isValid = true
      · refine .inr (.inl ⟨fun p hp => ?_, hresult.trans (if_pos hvalid)⟩)
        obtain ⟨c, hc, hcheck⟩ := exists_mem_of_forall₂ hall hp
        obtain ⟨source, hread, rfl⟩ := checkFile_eq_ok_iff.mp hcheck
        obtain ⟨m, hm⟩ := Checked.isValid_iff.mp (hvalid _ hc)
        exact ⟨source, m, hread, hm⟩
      · refine .inr (.inr ⟨fun p hp => ?_, ?_, _, hresult.trans (if_neg hvalid)⟩)
        · obtain ⟨c, -, hcheck⟩ := exists_mem_of_forall₂ hall hp
          obtain ⟨source, hread, -⟩ := checkFile_eq_ok_iff.mp hcheck
          exact ⟨source, hread⟩
        · push Not at hvalid
          obtain ⟨c, hc, hinvalid⟩ := hvalid
          obtain ⟨p, hp, hcheck⟩ := exists_mem_of_forall₂ hall.flip hc
          obtain ⟨source, hread, rfl⟩ := checkFile_eq_ok_iff.mp hcheck
          refine ⟨p, hp, source, ?_⟩
          cases hm : Model.read (strict || settings.strict) source with
          | error faults => exact ⟨faults, hread, rfl⟩
          | ok m => exact absurd (Checked.isValid_iff.mpr ⟨m, hm⟩) hinvalid

variable {printModel : Bool}

theorem isSchema_of_exitCode_runCheck
    (h : (runCheck env settingsPath paths strict printModel fs).exitCode = 0) :
    ∃ settings files, Finds env settingsPath paths fs settings files ∧
      ∀ p ∈ files, IsSchema (strict || settings.strict) fs p := by
  have hok := Outcome.exitCode_eq_zero_iff.mp h
  rcases runCheck_cases env settingsPath paths strict printModel fs with ⟨failure, -, hfail⟩ |
    ⟨settings, files, hfinds, ⟨p, -, cause, -, hfail⟩ | ⟨hall, -⟩ | ⟨-, -, invalid, hfail⟩⟩
  · rw [hok] at hfail
    cases hfail
  · rw [hok] at hfail
    cases hfail
  · exact ⟨settings, files, hfinds, hall⟩
  · rw [hok] at hfail
    cases hfail

theorem isFaulty_of_exitCode_runCheck
    (h : (runCheck env settingsPath paths strict printModel fs).exitCode = 3) :
    ∃ settings files, Finds env settingsPath paths fs settings files ∧
      (∀ p ∈ files, ∃ source, fs.read p = .ok source) ∧
      ∃ p ∈ files, IsFaulty (strict || settings.strict) fs p := by
  rcases runCheck_cases env settingsPath paths strict printModel fs with ⟨failure, hfiles, hfail⟩ |
    ⟨settings, files, hfinds, ⟨p, -, cause, -, hfail⟩ | ⟨-, hok⟩ | ⟨hread, hfaulty, -⟩⟩
  · rw [Outcome.exitCode_of_error hfail] at h
    exact absurd h (exitCode_ne_of_schemaFiles hfiles)
  · rw [Outcome.exitCode_of_error hfail] at h
    cases h
  · rw [Outcome.exitCode_eq_zero_iff.mpr hok] at h
    cases h
  · exact ⟨settings, files, hfinds, hread, hfaulty⟩

namespace Generated

variable {language : Language} {earlier : ℕ} {g : Generated}

theorem quiet_ofFile_none (language : Language) (strict : Bool) (earlier : ℕ) (p : Path) :
    Session.Quiet (ofFile language strict none earlier p) :=
  (Session.quiet_readModel strict p).bind fun _ => (quiet_render language p _).bind fun _ =>
    (Session.quiet_pure none).bind fun _ => (Session.quiet_emit _).bind fun _ =>
      Session.quiet_pure _

/-- The code of a file that is only shown. -/
theorem result_ofFile_none (language : Language) (strict : Bool) (earlier : ℕ) (p : Path)
    (fs : FileSystem) :
    (ofFile language strict none earlier p fs).result =
      (Session.readModel strict p fs).result >>= fun read =>
        (language.generate read.2).mapError (.collision p) >>= fun code =>
          .ok ⟨p, read.2.name, code, none⟩ := by
  unfold ofFile
  rw [Session.result_bind_of_quiet (Session.quiet_readModel strict p)]
  congr 1
  funext read
  change ((render language p read.2 >>= _ : Session Generated) fs).result = _
  rw [Session.result_bind_of_quiet (quiet_render language p read.2), result_render]
  rfl

theorem ofFile_none_eq_ok_iff :
    (ofFile language strict none earlier p fs).result = .ok g ↔
      ∃ source m code, fs.read p = .ok source ∧ Model.read strict source = .ok m ∧
        language.generate m = .ok code ∧ g = ⟨p, m.name, code, none⟩ := by
  rw [result_ofFile_none]
  constructor
  · intro h
    obtain ⟨⟨source, m⟩, hread, h⟩ := bind_eq_ok_iff.mp h
    obtain ⟨hsource, hm⟩ := Session.readModel_eq_ok_iff.mp hread
    obtain ⟨code, hcode, h⟩ := bind_eq_ok_iff.mp h
    cases h
    exact ⟨source, m, code, hsource, hm, mapError_eq_ok_iff.mp hcode, rfl⟩
  · rintro ⟨source, m, code, hsource, hm, hcode, rfl⟩
    refine bind_eq_ok_iff.mpr ⟨(source, m), Session.readModel_eq_ok_iff.mpr ⟨hsource, hm⟩, ?_⟩
    exact bind_eq_ok_iff.mpr ⟨code, mapError_eq_ok_iff.mpr hcode, rfl⟩

theorem isFaulty_of_ofFile {failure : Failure}
    (h : (ofFile language strict none earlier p fs).result = .error failure)
    (hcode : failure.exitCode = 3) : IsFaulty strict fs p := by
  rw [result_ofFile_none] at h
  rcases bind_eq_error_iff.mp h with h | ⟨read, -, h⟩
  · rcases Session.readModel_eq_error h with ⟨cause, rfl⟩ | ⟨source, faults, hread, hfaults, -⟩
    · cases hcode
    · exact ⟨source, faults, hread, hfaults⟩
  · rcases bind_eq_error_iff.mp h with h | ⟨code, -, h⟩
    · obtain ⟨cause, -, rfl⟩ := mapError_eq_error_iff.mp h
      cases hcode
    · cases h

def shownStep (language : Language) (strict : Bool) (input : Path × ℕ) : Session Generated :=
  ofFile language strict none input.2 input.1

theorem quiet_shownStep (language : Language) (strict : Bool) (input : Path × ℕ) :
    Session.Quiet (shownStep language strict input) :=
  quiet_ofFile_none language strict input.2 input.1

end Generated

/-- A run without a directory shows the code of the files that are found. -/
theorem Finds.result_runGenerate {word : Text} {outputDir : Option Path} {language : Language}
    (h : Finds env settingsPath paths fs settings files)
    (hlanguage : Language.ofIdentifier? word = some language)
    (hdirectory : outputDir.or settings.outputDir = none) (strict : Bool) :
    (runGenerate env settingsPath word paths outputDir strict fs).result =
      (Session.each (Generated.shownStep language (strict || settings.strict))
        files.zipIdx fs).result >>= fun _ => .ok () := by
  obtain ⟨hresult, -⟩ :=
    runGenerate_of_discover_ok h.load_eq hlanguage h.discover_eq outputDir strict
  rw [hresult, hdirectory]
  rfl

/-- If all files are schemas, their code is shown or cannot be made, but no parse error is
found. -/
theorem Finds.exitCode_runGenerate_ne_three {word : Text} {outputDir : Option Path}
    (h : Finds env settingsPath paths fs settings files)
    (hdirectory : outputDir.or settings.outputDir = none)
    (hall : ∀ p ∈ files, IsSchema (strict || settings.strict) fs p) :
    (runGenerate env settingsPath word paths outputDir strict fs).exitCode ≠ 3 := by
  unfold Outcome.exitCode
  cases hlanguage : Language.ofIdentifier? word with
  | none =>
    rw [(runGenerate_of_unsupported h.load_eq hlanguage outputDir strict).1]
    simp [Failure.exitCode]
  | some language =>
    rw [h.result_runGenerate hlanguage hdirectory]
    cases heach : (Session.each (Generated.shownStep language (strict || settings.strict))
        files.zipIdx fs).result with
    | ok gs => exact Nat.zero_ne_add_one 2
    | error failure =>
      intro hthree
      obtain ⟨⟨p, i⟩, hp, hfail⟩ :=
        Session.each_eq_error_of_quiet (Generated.quiet_shownStep _ _) heach
      have hfaulty := Generated.isFaulty_of_ofFile hfail hthree
      exact hfaulty.not_isSchema (hall p (List.fst_mem_of_mem_zipIdx hp))

/-- No run succeeds if one of its files is faulty. -/
theorem Finds.exitCode_runGenerate_ne_zero {word : Text} {outputDir : Option Path}
    (h : Finds env settingsPath paths fs settings files)
    (hdirectory : outputDir.or settings.outputDir = none) (hp : p ∈ files)
    (hfaulty : IsFaulty (strict || settings.strict) fs p) :
    (runGenerate env settingsPath word paths outputDir strict fs).exitCode ≠ 0 := by
  rw [Ne, Outcome.exitCode_eq_zero_iff]
  intro hok
  cases hlanguage : Language.ofIdentifier? word with
  | none =>
    rw [(runGenerate_of_unsupported h.load_eq hlanguage outputDir strict).1] at hok
    cases hok
  | some language =>
    rw [h.result_runGenerate hlanguage hdirectory] at hok
    obtain ⟨gs, heach, -⟩ := bind_eq_ok_iff.mp hok
    have hshown := Session.each_eq_ok_of_quiet (Generated.quiet_shownStep _ _) heach
    obtain ⟨i, hi⟩ := List.getElem?_of_mem hp
    obtain ⟨g, -, hg⟩ := exists_mem_of_forall₂ hshown (List.mk_mem_zipIdx_iff_getElem?.mpr hi)
    obtain ⟨source, m, code, hread, hm, -, -⟩ := Generated.ofFile_none_eq_ok_iff.mp hg
    exact hfaulty.not_isSchema ⟨source, m, hread, hm⟩

theorem tidyFile_of_faults (onlyCheck : Bool) {t : Text} {faults : List Fault}
    (hread : fs.read p = .ok t) (hfaults : tidy t = .error faults) :
    (tidyFile onlyCheck p fs).result = .error (.invalidFile p faults) := by
  have hmodel : (Session.readModel false p fs).result = .error (.invalidFile p faults) := by
    rw [Session.result_readModel, hread]
    change (Model.read false t).mapError _ >>= _ = _
    rw [tidy_eq_error_iff.mp hfaults]
    rfl
  unfold tidyFile
  rw [Session.bind_of_error hmodel]

theorem TidiedAt.read_of_read (h : TidiedAt paths fs fs') {t : Text} (hread : fs.read p = .ok t) :
    ∃ t', fs'.read p = .ok t' ∧ (t' = t ∨ tidy t = .ok t') := by
  obtain ⟨l, hl, ht⟩ := FileSystem.read_eq_ok_iff.mp hread
  by_cases hmem : ∀ q ∈ paths, fs.locate q ≠ fs.locate p
  · exact ⟨t, (h.read_eq hmem).trans hread, .inl rfl⟩
  · push Not at hmem
    obtain ⟨q, hq, hsame⟩ := hmem
    obtain ⟨k, u, t', hk, hu, htidy, ht'⟩ := h.tidied q hq
    rw [hsame, hl] at hk
    cases hk
    rw [ht] at hu
    cases hu
    refine ⟨t', FileSystem.read_eq_ok_iff.mpr ⟨l, ?_, ht'⟩, .inr htidy⟩
    rw [h.shape.locate_eq, hl]

theorem tidyFile_of_read (onlyCheck : Bool) {t : Text} (hread : fs.read p = .ok t) :
    (∃ t' changed, tidy t = .ok t' ∧ (tidyFile onlyCheck p fs).result = .ok changed) ∨
    ∃ faults, tidy t = .error faults ∧
      (tidyFile onlyCheck p fs).result = .error (.invalidFile p faults) := by
  cases htidy : tidy t with
  | error faults => exact .inr ⟨faults, rfl, tidyFile_of_faults onlyCheck hread htidy⟩
  | ok t' =>
    obtain ⟨l, hl, ht⟩ := FileSystem.read_eq_ok_iff.mp hread
    exact .inl ⟨t', _, rfl, (tidyFile_of_tidy onlyCheck hl ht htidy).1⟩

theorem isSchema_iff_tidy : IsSchema false fs p ↔ ∃ t t', fs.read p = .ok t ∧ tidy t = .ok t' := by
  constructor
  · rintro ⟨t, m, hread, hm⟩
    exact ⟨t, m.print, hread, tidy_eq_ok_iff.mpr ⟨m, hm, rfl⟩⟩
  · rintro ⟨t, t', hread, htidy⟩
    obtain ⟨m, hm, -⟩ := tidy_eq_ok_iff.mp htidy
    exact ⟨t, m, hread, hm⟩

theorem isSchema_of_each_tidyFile (onlyCheck : Bool) {answers : List Bool}
    (h : (Session.each (tidyFile onlyCheck) files fs).result = .ok answers) :
    ∀ p ∈ files, IsSchema false fs p := by
  intro p hp
  cases onlyCheck with
  | true =>
    have hlooked := Session.each_eq_ok_of_quiet quiet_tidyFile_check h
    obtain ⟨answer, -, hanswer⟩ := exists_mem_of_forall₂ hlooked hp
    rcases tidyFile_cases true p fs with ⟨l, t, t', hl, ht, htidy, -⟩ | ⟨failure, hfail, -⟩
    · exact isSchema_iff_tidy.mpr ⟨t, t', FileSystem.read_eq_ok_iff.mpr ⟨l, hl, ht⟩, htidy⟩
    · rw [hfail] at hanswer
      cases hanswer
  | false =>
    obtain ⟨t, t', ht, htidy, -⟩ := (tidiedAt_steps (Session.steps_of_each_ok h)).read hp
    exact isSchema_iff_tidy.mpr ⟨t, t', ht, htidy⟩

/-- A run over files that can be read stops only at a faulty one. -/
theorem isFaulty_of_each_tidyFile (onlyCheck : Bool) {failure : Failure}
    (hread : ∀ p ∈ files, ∃ t, fs.read p = .ok t)
    (h : (Session.each (tidyFile onlyCheck) files fs).result = .error failure) :
    ∃ p ∈ files, IsFaulty false fs p ∧ failure.exitCode = 3 := by
  cases onlyCheck with
  | true =>
    obtain ⟨p, hp, hfail⟩ := Session.each_eq_error_of_quiet quiet_tidyFile_check h
    obtain ⟨t, ht⟩ := hread p hp
    rcases tidyFile_of_read true ht with ⟨t', changed, -, hok⟩ | ⟨faults, hfaults, hfail'⟩
    · rw [hok] at hfail
      cases hfail
    · rw [hfail'] at hfail
      cases hfail
      exact ⟨p, hp, ⟨t, faults, ht, tidy_eq_error_iff.mp hfaults⟩, rfl⟩
  | false =>
    obtain ⟨before, p, after, answers, fs', rfl, hsteps, hfail, -⟩ := Session.steps_of_each_error h
    have hp : p ∈ before ++ p :: after := by simp
    obtain ⟨t, ht⟩ := hread p hp
    obtain ⟨t', ht', hform⟩ := (tidiedAt_steps hsteps).read_of_read ht
    rcases tidyFile_of_read false ht' with ⟨t'', changed, -, hok⟩ | ⟨faults, hfaults, hfail'⟩
    · rw [hok] at hfail
      cases hfail
    · rw [hfail'] at hfail
      cases hfail
      rcases hform with rfl | htidy
      · exact ⟨p, hp, ⟨t', faults, ht, tidy_eq_error_iff.mp hfaults⟩, rfl⟩
      · -- A file that has been tidied is a schema.
        rw [tidy_tidy htidy] at hfaults
        cases hfaults

theorem exitCode_runTidy_of_isSchema {onlyCheck : Bool}
    (h : schemaFiles env settingsPath paths fs = .ok files)
    (hall : ∀ p ∈ files, IsSchema false fs p) :
    (runTidy env settingsPath paths onlyCheck fs).exitCode = 0 ∨
      onlyCheck = true ∧ (runTidy env settingsPath paths onlyCheck fs).exitCode = 5 := by
  have hread : ∀ p ∈ files, ∃ t, fs.read p = .ok t := by
    intro p hp
    obtain ⟨t, m, ht, -⟩ := hall p hp
    exact ⟨t, ht⟩
  obtain ⟨-, hresult⟩ := runTidy_of_ok onlyCheck h
  cases heach : (Session.each (tidyFile onlyCheck) files fs).result with
  | error failure =>
    obtain ⟨p, hp, hfaulty, -⟩ := isFaulty_of_each_tidyFile onlyCheck hread heach
    exact absurd (hall p hp) hfaulty.not_isSchema
  | ok answers =>
    rw [heach] at hresult
    by_cases hchanged : onlyCheck ∧ chosen files answers ≠ []
    · exact .inr ⟨hchanged.1, Outcome.exitCode_of_error (hresult.trans (if_pos hchanged))⟩
    · exact .inl (Outcome.exitCode_eq_zero_iff.mpr (hresult.trans (if_neg hchanged)))

theorem exitCode_runTidy_of_isFaulty {onlyCheck : Bool}
    (h : schemaFiles env settingsPath paths fs = .ok files)
    (hread : ∀ p ∈ files, ∃ t, fs.read p = .ok t) (hp : p ∈ files)
    (hfaulty : IsFaulty false fs p) :
    (runTidy env settingsPath paths onlyCheck fs).exitCode = 3 := by
  obtain ⟨-, hresult⟩ := runTidy_of_ok onlyCheck h
  cases heach : (Session.each (tidyFile onlyCheck) files fs).result with
  | error failure =>
    obtain ⟨-, -, -, hthree⟩ := isFaulty_of_each_tidyFile onlyCheck hread heach
    rw [heach] at hresult
    exact (Outcome.exitCode_of_error hresult).trans hthree
  | ok answers =>
    exact absurd (isSchema_of_each_tidyFile onlyCheck heach p hp) hfaulty.not_isSchema

/-- The commands for the same paths under the same settings. If a check succeeds, then a run
that shows code ends without a parse error, and tidying succeeds or, if it only looks, finds
files that are not tidy. If a check finds a parse error, then no such run generates code with
success, and tidying finds a parse error too, unless the check was a strict one. -/
theorem run_commands_agree {env : Environment} {checking generating tidying : List Text}
    {c g t : Invocation} {paths : List Path} {strict printModel onlyCheck : Bool} {word : Text}
    {outputDir : Option Path} (hchecking : Invocation.read env checking = .ok c)
    (hgenerating : Invocation.read env generating = .ok g)
    (htidying : Invocation.read env tidying = .ok t)
    (hcheck : c.command = .check paths strict printModel)
    (hgenerate : g.command = .generate word paths outputDir strict)
    (htidy : t.command = .tidy paths onlyCheck)
    (hg : g.settingsPath = c.settingsPath) (ht : t.settingsPath = c.settingsPath)
    (fs : FileSystem)
    (hdirectory : ∀ settings, (Settings.load env c.settingsPath fs).result = .ok settings →
      outputDir.or settings.outputDir = none) :
    ((run env checking fs).exitCode = 0 →
      (run env generating fs).exitCode ≠ 3 ∧
      ((run env tidying fs).exitCode = 0 ∨
        onlyCheck = true ∧ (run env tidying fs).exitCode = 5)) ∧
    ((run env checking fs).exitCode = 3 →
      (run env generating fs).exitCode ≠ 0 ∧
      (strict = false →
        (∀ settings, (Settings.load env c.settingsPath fs).result = .ok settings →
          settings.strict = false) →
        (run env tidying fs).exitCode = 3)) := by
  rw [(run_of_read hchecking hcheck fs).2, (run_of_read hgenerating hgenerate fs).2,
    (run_of_read htidying htidy fs).2, hg, ht]
  constructor
  · intro hzero
    obtain ⟨settings, files, hfinds, hall⟩ := isSchema_of_exitCode_runCheck hzero
    constructor
    · exact hfinds.exitCode_runGenerate_ne_three (hdirectory settings hfinds.load_eq) hall
    · exact exitCode_runTidy_of_isSchema hfinds.schemaFiles_eq fun p hp => (hall p hp).lenient
  · intro hthree
    obtain ⟨settings, files, hfinds, hread, p, hp, hfaulty⟩ := isFaulty_of_exitCode_runCheck hthree
    constructor
    · exact hfinds.exitCode_runGenerate_ne_zero (hdirectory settings hfinds.load_eq) hp hfaulty
    · intro hstrict hsettings
      rw [hstrict, hsettings settings hfinds.load_eq] at hfaulty
      exact exitCode_runTidy_of_isFaulty hfinds.schemaFiles_eq hread hp hfaulty

/-- Two paths lead to one file, which is not tidy, and text behind a field is passed over: all
commands find schemas. With a file that is none they all find that. -/
theorem run_commands_agree_valid_and_faulty :
    let env : Environment := ⟨none, none, none, none⟩
    let fs : FileSystem := ⟨[(["w"], .directory), (["w", "a.ut"], .file (.text "A:\n x   int\n")),
      (["w", "b.ut"], .file (.text "B:\n x int !\n")), (["w", "c.ut"], .file (.text "C:\n x\n"))],
      ["w"]⟩
    let valid : List Text := ["a.ut", "./a.ut", "b.ut"]
    let faulty : List Text := ["c.ut", "a.ut"]
    ((run env ("check" :: valid) fs).exitCode = 0 ∧
      (run env ("gen" :: "go" :: valid) fs).exitCode ≠ 3 ∧
      (run env ("tidy" :: valid) fs).exitCode = 0) ∧
    (run env ("check" :: faulty) fs).exitCode = 3 ∧
      (run env ("gen" :: "go" :: faulty) fs).exitCode ≠ 0 ∧
      (run env ("tidy" :: faulty) fs).exitCode = 3 := by
  intro env fs valid faulty
  let validPaths : List Path := [⟨"a.ut"⟩, ⟨"./a.ut"⟩, ⟨"b.ut"⟩]
  let faultyPaths : List Path := [⟨"c.ut"⟩, ⟨"a.ut"⟩]
  have hload : (Settings.load env none fs).result = .ok {} :=
    toOption_eq_some_iff.mp (by decide +kernel)
  have hdirectory : ∀ settings, (Settings.load env none fs).result = .ok settings →
      (none : Option Path).or settings.outputDir = none := by
    intro settings h
    rw [hload] at h
    cases h
    rfl
  have hstrict : ∀ settings, (Settings.load env none fs).result = .ok settings →
      settings.strict = false := by
    intro settings h
    rw [hload] at h
    cases h
    rfl
  have hvalid := run_commands_agree
    (by decide +kernel : Invocation.read env ("check" :: valid) =
      .ok ⟨.check validPaths false false, none, .human, 0, false⟩)
    (by decide +kernel : Invocation.read env ("gen" :: "go" :: valid) =
      .ok ⟨.generate "go" validPaths none false, none, .human, 0, false⟩)
    (by decide +kernel : Invocation.read env ("tidy" :: valid) =
      .ok ⟨.tidy validPaths false, none, .human, 0, false⟩) rfl rfl rfl rfl rfl fs hdirectory
  have hfaulty := run_commands_agree
    (by decide +kernel : Invocation.read env ("check" :: faulty) =
      .ok ⟨.check faultyPaths false false, none, .human, 0, false⟩)
    (by decide +kernel : Invocation.read env ("gen" :: "go" :: faulty) =
      .ok ⟨.generate "go" faultyPaths none false, none, .human, 0, false⟩)
    (by decide +kernel : Invocation.read env ("tidy" :: faulty) =
      .ok ⟨.tidy faultyPaths false, none, .human, 0, false⟩) rfl rfl rfl rfl rfl fs hdirectory
  have hzero : (run env ("check" :: valid) fs).exitCode = 0 := by decide +kernel
  have hthree : (run env ("check" :: faulty) fs).exitCode = 3 := by decide +kernel
  obtain ⟨hgenerate, htidy⟩ := hvalid.1 hzero
  obtain ⟨hgenerate', htidy'⟩ := hfaulty.2 hthree
  exact ⟨⟨hzero, hgenerate, by simpa using htidy⟩, hthree, hgenerate', htidy' rfl hstrict⟩

end ClassSchema
