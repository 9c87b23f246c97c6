import ClassSchema.Proofs.FileNames
import ClassSchema.Proofs.FileShape
import ClassSchema.Proofs.PrintedRuns

/-!
# Files that are generated

The code of a schema file is written to a file that has the stem of its name.
Everything that has another name stays as it is, apart from directories that are
created. So the code of a schema file stays if no other one has its stem; of several
with one stem the last one overwrites the others.
-/

namespace ClassSchema

namespace FileSystem

variable {fs fs' fs'' : FileSystem} {k l : Location} {p : Path} {names names' : List Text}

/-- Files of some names may have been written and directories created; all else is as it
was. -/
structure Keeps (names : List Text) (fs fs' : FileSystem) : Prop where
  workingDirectory : fs'.workingDirectory = fs.workingDirectory
  directories : ∀ l, fs.node? l = some .directory → fs'.node? l = some .directory
  others : ∀ l, (∀ name ∈ names, l.getLast? ≠ some name) →
    fs'.node? l = fs.node? l ∨ (fs.node? l = none ∧ fs'.node? l = some .directory)

namespace Keeps

theorem refl (fs : FileSystem) : Keeps [] fs fs := ⟨rfl, fun _ h => h, fun _ _ => .inl rfl⟩

theorem append (h : Keeps names fs fs') (h' : Keeps names' fs' fs'') :
    Keeps (names ++ names') fs fs'' := by
  refine ⟨h'.workingDirectory.trans h.workingDirectory,
    fun l hl => h'.directories l (h.directories l hl), ?_⟩
  intro l hl
  have hnames := h.others l fun name hname => hl name (List.mem_append_left _ hname)
  have hnames' := h'.others l fun name hname => hl name (List.mem_append_right _ hname)
  rcases hnames with hsame | ⟨hnone, hdirectory⟩
  · rwa [← hsame]
  · exact .inr ⟨hnone, h'.directories l hdirectory⟩

theorem foldlM_enter (h : Keeps names fs fs') {segments : List Text}
    (hl : segments.foldlM fs.enter k = .ok l) : segments.foldlM fs'.enter k = .ok l := by
  induction segments generalizing k with
  | nil => exact hl
  | cons segment segments ih =>
    rw [List.foldlM_cons] at hl ⊢
    obtain ⟨k', hk', hl⟩ := bind_eq_ok_iff.mp hl
    refine bind_eq_ok_iff.mpr ⟨k', ?_, ih hl⟩
    unfold enter at hk' ⊢
    cases hnode : fs.node? k with
    | none => simp [hnode] at hk'
    | some n =>
      cases n with
      | file contents => simp [hnode] at hk'
      | directory =>
        rw [h.directories k hnode]
        rwa [hnode] at hk'

theorem locate (h : Keeps names fs fs') (hl : fs.locate p = .ok l) : fs'.locate p = .ok l := by
  unfold FileSystem.locate startOf at hl ⊢
  rw [h.workingDirectory]
  split_ifs at hl ⊢ with hempty
  all_goals exact h.foldlM_enter hl

theorem file_iff (h : Keeps names fs fs') (hl : ∀ name ∈ names, l.getLast? ≠ some name)
    {contents : Contents} :
    fs'.node? l = some (.file contents) ↔ fs.node? l = some (.file contents) := by
  rcases h.others l hl with hsame | ⟨hnone, hdirectory⟩
  · rw [hsame]
  · simp [hnone, hdirectory]

theorem read {t : Text} {name : Text} (h : Keeps names fs fs') (hname : p.fileName? = some name)
    (hother : name ∉ names) (hread : fs.read p = .ok t) : fs'.read p = .ok t := by
  obtain ⟨l, hl, hnode⟩ := read_eq_ok_iff.mp hread
  refine read_eq_ok_iff.mpr ⟨l, h.locate hl, (h.file_iff ?_).mpr hnode⟩
  intro name' hname' hlast
  rw [getLast?_of_locate hname hl] at hlast
  cases hlast
  exact hother hname'

end Keeps

theorem keeps_put_directory (h : fs.node? l = none) : Keeps [] fs (fs.put l .directory) := by
  have hdirectory : fs.node? l ≠ some .directory := by simp [h]
  refine ⟨rfl, ?_, ?_⟩
  · intro k hk
    by_cases hkl : k = l
    · simp [hkl, h] at hk
    · rwa [node?_put_of_ne hkl]
  · intro k _
    by_cases hkl : k = l
    · subst hkl
      exact .inr ⟨h, node?_put_self (ne_nil_of_node?_ne_directory hdirectory) fs _⟩
    · exact .inl (node?_put_of_ne hkl fs _)

theorem keeps_put_file {name : Text} (h : fs.node? l ≠ some .directory)
    (hname : l.getLast? = some name) (contents : Contents) :
    Keeps [name] fs (fs.put l (.file contents)) := by
  refine ⟨rfl, ?_, ?_⟩
  · intro k hk
    have hkl : k ≠ l := by
      rintro rfl
      exact h hk
    rwa [node?_put_of_ne hkl]
  · intro k hk
    left
    apply node?_put_of_ne
    rintro rfl
    exact hk name List.mem_cons_self hname

theorem foldlM_enter_of_empty (h : fs.node? l = some .directory) {segments : List Text}
    (hempty : ∀ segment ∈ segments, segment = []) : segments.foldlM fs.enter l = .ok l := by
  induction segments with
  | nil => rfl
  | cons segment segments ih =>
    obtain ⟨rfl, hmore⟩ := List.forall_mem_cons.mp hempty
    rw [List.foldlM_cons]
    refine bind_eq_ok_iff.mpr ⟨l, ?_, ih hmore⟩
    simp [enter, h]

/-- A directory that is created was not there, and its path leads to it. -/
theorem makeDirectory_eq_ok (h : fs.makeDirectory p = .ok fs') :
    ∃ l, fs.node? l = none ∧ fs' = fs.put l .directory ∧ fs'.locate p = .ok l := by
  unfold makeDirectory at h
  split at h
  · cases h
  · next last above hsegments =>
    obtain ⟨k, hk, h⟩ := bind_eq_ok_iff.mp h
    obtain ⟨l, hl, h⟩ := bind_eq_ok_iff.mp h
    split_ifs at h with hthere
    cases h
    push Not at hthere
    have hnone : fs.node? l = none := by simpa using hthere.2.2
    refine ⟨l, hnone, rfl, ?_⟩
    have hdirectory : fs.node? l ≠ some .directory := by simp [hnone]
    have hne := ne_nil_of_node?_ne_directory hdirectory
    have hsplit : p.segments = (above.reverse ++ [last]) ++
        (p.segments.reverse.takeWhile List.isEmpty).reverse := by
      apply List.reverse_injective
      rw [List.reverse_append, List.reverse_append, List.reverse_reverse, List.reverse_reverse,
        List.reverse_singleton, List.singleton_append, ← hsegments, List.takeWhile_append_dropWhile]
    have htext : p.text ≠ [] := by
      intro hempty
      simp [Path.segments, hempty, Text.splitOn] at hsegments
    have hlast : (above.reverse ++ [last]).foldlM fs.enter (fs.startOf p) = .ok l := by
      rw [List.foldlM_append]
      exact bind_eq_ok_iff.mpr ⟨k, hk, by simpa using hl⟩
    unfold locate
    rw [if_neg htext, hsplit, List.foldlM_append]
    refine bind_eq_ok_iff.mpr ⟨l, (keeps_put_directory hnone).foldlM_enter hlast, ?_⟩
    apply foldlM_enter_of_empty (node?_put_self hne fs _)
    intro segment hsegment
    simpa using List.mem_takeWhile_imp (List.mem_reverse.mp hsegment)

theorem keeps_makeDirectory (h : fs.makeDirectory p = .ok fs') : Keeps [] fs fs' := by
  obtain ⟨l, hnone, rfl, -⟩ := makeDirectory_eq_ok h
  exact keeps_put_directory hnone

theorem keeps_makeDirectories (fs : FileSystem) (p : Path) :
    Keeps [] fs (fs.makeDirectories p).1 := by
  apply makeDirectoriesBelow_induction (.refl fs) p.ancestors
  intro q _ fs₁ fs₂ hkeeps hmade
  exact hkeeps.append (keeps_makeDirectory hmade)

theorem write_eq_ok {t : Text} (h : fs.write p t = .ok fs') :
    ∃ l, fs.locate p = .ok l ∧ fs.node? l ≠ some .directory ∧ fs' = fs.put l (.file (.text t)) := by
  obtain ⟨l, hl, h⟩ := bind_eq_ok_iff.mp h
  split at h
  · cases h
  · next hnode => exact ⟨l, hl, hnode, (Except.ok.inj h).symm⟩

theorem of_write_ok {t name : Text} (hname : p.fileName? = some name)
    (h : fs.write p t = .ok fs') : Keeps [name] fs fs' ∧ fs'.read p = .ok t := by
  obtain ⟨l, hl, hnode, rfl⟩ := write_eq_ok h
  have hkeeps := keeps_put_file hnode (getLast?_of_locate hname hl) (.text t)
  refine ⟨hkeeps, read_eq_ok_iff.mpr ⟨l, hkeeps.locate hl, ?_⟩⟩
  exact node?_put_self (ne_nil_of_node?_ne_directory hnode) fs _

end FileSystem

namespace Language

def outputName? (language : Language) (p : Path) : Option Text :=
  p.stem?.map fun stem => stem ++ "." ++ language.extension

variable {language : Language} {p q : Path} {name : Text}

theorem slash_not_mem_outputName (h : language.outputName? p = some name) : '/' ∉ name := by
  obtain ⟨stem, hstem, rfl⟩ := Option.map_eq_some_iff.mp h
  obtain ⟨-, -, -, -, hslash⟩ := Path.of_stem? hstem
  have hextension : '/' ∉ language.extension := by cases language <;> decide
  simp [hslash, hextension]

theorem length_outputName (h : language.outputName? p = some name) : 2 < name.length := by
  obtain ⟨stem, hstem, rfl⟩ := Option.map_eq_some_iff.mp h
  simp [length_extension]

theorem stemOf_outputName (h : language.outputName? p = some name) :
    p.stem? = some (Path.stemOf name) := by
  obtain ⟨stem, hstem, rfl⟩ := Option.map_eq_some_iff.mp h
  obtain ⟨-, -, -, hne, -⟩ := Path.of_stem? hstem
  have hstemOf := Path.stemOf_append hne (dot_not_mem_extension language)
  rw [hstem]
  simpa using hstemOf.symm

theorem outputName?_eq_iff : language.outputName? p = language.outputName? q ↔
    p.stem? = q.stem? := by
  unfold outputName?
  constructor
  · intro h
    refine Option.map_injective ?_ h
    intro stem stem' hsame
    simpa using hsame
  · intro h
    rw [h]

end Language

namespace Generated

open FileSystem (Keeps)

variable {language : Language} {strict : Bool} {directory p q : Path} {code : Text}
  {fs fs' : FileSystem}

theorem targetOf?_eq (directory p : Path) (language : Language) :
    targetOf? directory p language = (language.outputName? p).map directory.join := by
  unfold targetOf? Language.outputName?
  rw [Option.map_map]
  rfl

theorem targetOf?_eq_iff : targetOf? directory p language = targetOf? directory q language ↔
    p.stem? = q.stem? := by
  rw [targetOf?_eq, targetOf?_eq, ← Language.outputName?_eq_iff]
  constructor
  · intro h
    cases hp : language.outputName? p with
    | none => simpa [hp, eq_comm] using h
    | some name =>
      cases hq : language.outputName? q with
      | none => simp [hp, hq] at h
      | some name' =>
        rw [hp, hq] at h
        have hjoin := Path.join_injective directory (Language.slash_not_mem_outputName hp)
          (Language.slash_not_mem_outputName hq) (by simpa using h)
        rw [hjoin]
  · intro h
    rw [h]

theorem fileName?_target {name : Text} (h : language.outputName? p = some name) :
    (directory.join name).fileName? = some name :=
  Path.fileName?_join directory (Language.slash_not_mem_outputName h)
    (Language.length_outputName h)

/-- What saving can do: the path of the file with the code may be missing, the directory or the
file may be refused, or the code is written. -/
theorem save_cases (directory p : Path) (language : Language) (code : Text) (fs : FileSystem) :
    let o := save directory p language code fs
    (language.outputName? p = none ∧ o.result = .error (.noFileName p) ∧ o.files = fs) ∨
    ∃ name, language.outputName? p = some name ∧
      ((∃ cause, fs.makeDirectories directory = (o.files, some cause) ∧
          o.result = .error (.access directory cause)) ∨
        ∃ made, fs.makeDirectories directory = (made, none) ∧
          ((∃ cause, made.write (directory.join name) code = .error cause ∧
              o.result = .error (.access (directory.join name) cause) ∧ o.files = made) ∨
            made.write (directory.join name) code = .ok o.files ∧
              o.result = .ok (directory.join name))) := by
  unfold save
  rw [targetOf?_eq]
  cases hname : language.outputName? p with
  | none => exact .inl ⟨rfl, rfl, rfl⟩
  | some name =>
    refine .inr ⟨name, rfl, ?_⟩
    dsimp only [Option.map_some]
    rcases hmake : fs.makeDirectories directory with ⟨made, _ | cause⟩
    · have hmade : Session.makeDirectories directory fs = ⟨.ok (), [], made⟩ := by
        simp [Session.makeDirectories, hmake]
      rw [Session.bind_of_ok (congrArg Outcome.result hmade), hmade]
      refine .inr ⟨made, rfl, ?_⟩
      cases hwrite : made.write (directory.join name) code with
      | error cause =>
        have hrefused : Session.writeText (directory.join name) code made =
            ⟨.error (.access (directory.join name) cause), [], made⟩ := by
          simp [Session.writeText, hwrite]
        rw [Session.bind_of_error (congrArg Outcome.result hrefused), hrefused]
        exact .inl ⟨cause, rfl, rfl, rfl⟩
      | ok written =>
        have hwritten : Session.writeText (directory.join name) code made =
            ⟨.ok (), [], written⟩ := by
          simp [Session.writeText, hwrite]
        rw [Session.bind_of_ok (congrArg Outcome.result hwritten), hwritten]
        exact .inr ⟨rfl, rfl⟩
    · have hrefused : Session.makeDirectories directory fs =
          ⟨.error (.access directory cause), [], made⟩ := by
        simp [Session.makeDirectories, hmake]
      rw [Session.bind_of_error (congrArg Outcome.result hrefused), hrefused]
      exact .inl ⟨cause, rfl, rfl⟩

/-- What saving does: the code is in its file, and no file of another name changes. -/
theorem of_save_ok {target : Path} (h : (save directory p language code fs).result = .ok target) :
    ∃ name, language.outputName? p = some name ∧
      Keeps [name] fs (save directory p language code fs).files ∧
      (save directory p language code fs).files.read (directory.join name) = .ok code := by
  rcases save_cases directory p language code fs with ⟨-, hfail, -⟩ |
    ⟨name, hname, ⟨_, -, hfail⟩ | ⟨made, hmade, ⟨_, -, hfail, -⟩ | ⟨hwrite, -⟩⟩⟩
  · rw [hfail] at h
    cases h
  · rw [hfail] at h
    cases h
  · rw [hfail] at h
    cases h
  · have hkeeps := FileSystem.keeps_makeDirectories fs directory
    rw [hmade] at hkeeps
    obtain ⟨hkeeps', hread⟩ := FileSystem.of_write_ok (fileName?_target hname) hwrite
    exact ⟨name, hname, hkeeps.append hkeeps', hread⟩

theorem passive_render (language : Language) (p : Path) (m : Model) :
    Session.Passive (render language p m) := by
  unfold render
  cases language.generate m with
  | error cause => exact Session.passive_fail _
  | ok code => exact (Session.passive_log _).bind fun _ => Session.passive_pure _

theorem quiet_render (language : Language) (p : Path) (m : Model) :
    Session.Quiet (render language p m) :=
  (passive_render language p m).quiet

/-- The code of a schema file, or why there is none. -/
def codeOf (language : Language) (strict : Bool) (fs : FileSystem) (p : Path) :
    Except Failure Text := do
  let source ← (fs.read p).mapError (.access p)
  let m ← (Model.read strict source).mapError (.invalidFile p)
  (language.generate m).mapError (.collision p)

theorem codeOf_eq_ok_iff : codeOf language strict fs p = .ok code ↔
    ∃ source m, fs.read p = .ok source ∧ Model.read strict source = .ok m ∧
      language.generate m = .ok code := by
  unfold codeOf
  simp only [bind_eq_ok_iff, mapError_eq_ok_iff]
  constructor
  · rintro ⟨source, hread, m, hm, hcode⟩
    exact ⟨source, m, hread, hm, hcode⟩
  · rintro ⟨source, m, hread, hm, hcode⟩
    exact ⟨source, hread, m, hm, hcode⟩

theorem codeOf_eq (language : Language) (strict : Bool) (fs : FileSystem) (p : Path) :
    codeOf language strict fs p =
      (Session.readModel strict p fs).result >>= fun read =>
        (render language p read.2 fs).result := by
  simp only [Session.result_readModel, result_render]
  unfold codeOf
  cases fs.read p with
  | error cause => rfl
  | ok source =>
    cases hm : Model.read strict source <;> simp [bind, Except.bind, Except.mapError, hm]

/-- A step that finds no code fails and changes no file. -/
theorem ofFile_of_codeOf_error {failure : Failure}
    (h : codeOf language strict fs p = .error failure) (directory : Option Path) (earlier : Nat) :
    (ofFile language strict directory earlier p fs).result = .error failure ∧
      (ofFile language strict directory earlier p fs).files = fs := by
  unfold ofFile
  rw [codeOf_eq] at h
  rcases bind_eq_error_iff.mp h with hmodel | ⟨⟨source, m⟩, hmodel, hrender⟩
  · rw [Session.bind_of_error hmodel]
    exact ⟨rfl, Session.quiet_readModel strict p fs⟩
  · obtain ⟨hresult, hfiles⟩ :=
      Session.bind_of_quiet_ok (Session.quiet_readModel strict p) hmodel _
    rw [hresult, hfiles]
    dsimp only at hrender ⊢
    rw [Session.bind_of_error hrender]
    exact ⟨rfl, quiet_render language p m fs⟩

/-- A step that finds code does what saving does. -/
theorem ofFile_of_codeOf_ok (h : codeOf language strict fs p = .ok code) (directory : Path)
    (earlier : Nat) :
    (∃ name, (ofFile language strict (some directory) earlier p fs).result =
      (save directory p language code fs).result.map fun target =>
        ⟨p, name, code, some target⟩) ∧
    (ofFile language strict (some directory) earlier p fs).files =
      (save directory p language code fs).files := by
  unfold ofFile
  rw [codeOf_eq] at h
  obtain ⟨⟨source, m⟩, hmodel, hrender⟩ := bind_eq_ok_iff.mp h
  obtain ⟨hresult, hfiles⟩ := Session.bind_of_quiet_ok (Session.quiet_readModel strict p) hmodel _
  rw [hresult, hfiles]
  dsimp only at hrender ⊢
  obtain ⟨hresult', hfiles'⟩ := Session.bind_of_quiet_ok (quiet_render language p m) hrender _
  rw [hresult', hfiles']
  refine ⟨⟨m.name, ?_⟩, ?_⟩
  · rw [Session.result_bind]
    unfold saveIn?
    rw [Session.result_bind]
    cases (save directory p language code fs).result <;> rfl
  · have hsaved : (saveIn? (some directory) p language code fs).files =
        (save directory p language code fs).files :=
      Session.files_bind_quiet _ (fun _ => Session.quiet_pure _) fs
    rw [← hsaved]
    exact Session.files_bind_quiet _
      (fun _ => (Session.quiet_emit _).bind fun _ => Session.quiet_pure _) fs

/-- What a step does: the code of the schema is in its file, and no file of another name
changes. -/
theorem of_ofFile_ok {earlier : Nat} {g : Generated}
    (h : (ofFile language strict (some directory) earlier p fs).result = .ok g) :
    ∃ l source m code name, fs.locate p = .ok l ∧ fs.node? l = some (.file (.text source)) ∧
      Model.read strict source = .ok m ∧ language.generate m = .ok code ∧
      language.outputName? p = some name ∧
      Keeps [name] fs (ofFile language strict (some directory) earlier p fs).files ∧
      (ofFile language strict (some directory) earlier p fs).files.read (directory.join name) =
        .ok code := by
  cases hcode : codeOf language strict fs p with
  | error failure =>
    rw [(ofFile_of_codeOf_error hcode _ _).1] at h
    cases h
  | ok code =>
    obtain ⟨⟨className, hresult⟩, hfiles⟩ := ofFile_of_codeOf_ok hcode directory earlier
    rw [hresult] at h
    rw [hfiles]
    cases hsave : (save directory p language code fs).result with
    | error failure =>
      rw [hsave] at h
      cases h
    | ok target =>
      obtain ⟨source, m, hread, hm, hgenerate⟩ := codeOf_eq_ok_iff.mp hcode
      obtain ⟨l, hl, hsource⟩ := FileSystem.read_eq_ok_iff.mp hread
      obtain ⟨name, hname, hkeeps, hfile⟩ := of_save_ok hsave
      exact ⟨l, source, m, code, name, hl, hsource, hm, hgenerate, hname, hkeeps, hfile⟩

/-- The session for one of the files of a run, which are numbered. -/
def step (language : Language) (strict : Bool) (directory : Path) (input : Path × Nat) :
    Session Generated :=
  ofFile language strict (some directory) input.2 input.1

theorem keeps_steps {inputs : List (Path × Nat)} {gs : List Generated}
    (h : Session.Steps (step language strict directory) fs inputs gs fs') :
    Keeps (inputs.filterMap fun input => language.outputName? input.1) fs fs' := by
  induction h with
  | nil fs => exact .refl fs
  | cons hhead _ ih =>
    obtain ⟨_, _, _, _, name, -, -, -, -, hname, hkeeps, -⟩ := of_ofFile_ok hhead
    rw [List.filterMap_cons, hname]
    exact hkeeps.append ih

/-- The file for the code of a schema file is there, with the code of what the schema file
held before. -/
def HasOutput (language : Language) (strict : Bool) (directory : Path) (fs fs' : FileSystem)
    (p : Path) : Prop :=
  ∃ stem l source m code, p.stem? = some stem ∧ fs'.locate p = .ok l ∧
    fs.node? l = some (.file (.text source)) ∧ (fs.hasAny p → fs.read p = .ok source) ∧
    Model.read strict source = .ok m ∧ language.generate m = .ok code ∧
    fs'.read (directory.join (stem ++ "." ++ language.extension)) = .ok code

/-- The last file with a stem keeps its code, if it is not itself written before its turn. -/
theorem hasOutput_of_steps {before after : List (Path × Nat)} {i : Nat} {gs : List Generated}
    (h : Session.Steps (step language strict directory) fs (before ++ (p, i) :: after) gs fs')
    (hafter : ∀ input ∈ after, input.1.stem? ≠ p.stem?)
    (hbefore : p.fileName? = language.outputName? p → ∀ input ∈ before, input.1.stem? ≠ p.stem?) :
    HasOutput language strict directory fs fs' p := by
  obtain ⟨_, g, _, fs₁, hsteps, hstep, hsteps'⟩ := h.split
  obtain ⟨l, source, m, code, name, hl, hsource, hm, hcode, hname, hkeeps, hread⟩ :=
    of_ofFile_ok hstep
  have hkeeps₁ := keeps_steps hsteps
  have hkeeps₂ := keeps_steps hsteps'
  -- A file that was written before has the name of `p` only if it has the stem of `p`.
  have hold : fs.node? l = some (.file (.text source)) := by
    refine (hkeeps₁.file_iff ?_).mp hsource
    intro written hmem hlast
    obtain ⟨input, hinput, hwritten⟩ := List.mem_filterMap.mp hmem
    obtain ⟨own, hown, -⟩ := Option.map_eq_some_iff.mp (Language.stemOf_outputName hname)
    rw [FileSystem.getLast?_of_locate hown hl] at hlast
    cases hlast
    have hstem : input.1.stem? = p.stem? := by
      rw [Language.stemOf_outputName hwritten, Path.stem?, hown, Option.map_some]
    refine hbefore ?_ input hinput hstem
    rw [hown, ← hwritten]
    exact Language.outputName?_eq_iff.mpr hstem
  have hplace : fs.hasAny p → fs.read p = .ok source := by
    intro hany
    unfold FileSystem.hasAny at hany
    split at hany
    · next n hfind =>
      obtain ⟨k, hk, -⟩ := bind_eq_ok_iff.mp hfind
      have hsame := hkeeps₁.locate hk
      rw [hl] at hsame
      cases hsame
      exact FileSystem.read_eq_ok_iff.mpr ⟨l, hk, hold⟩
    · cases hany
  have hfinal : fs'.read (directory.join name) = .ok code := by
    refine hkeeps₂.read (fileName?_target hname) ?_ hread
    intro hmem
    obtain ⟨input, hinput, hwritten⟩ := List.mem_filterMap.mp hmem
    apply hafter input hinput
    rw [Language.stemOf_outputName hwritten, Language.stemOf_outputName hname]
  obtain ⟨stem, hstem, rfl⟩ := Option.map_eq_some_iff.mp hname
  exact ⟨stem, l, source, m, code, hstem, hkeeps₂.locate (hkeeps.locate hl), hold, hplace, hm,
    hcode, hfinal⟩

theorem hasOutput_of_steps_zipIdx {before after : List Path} {gs : List Generated}
    (h : Session.Steps (step language strict directory) fs (before ++ p :: after).zipIdx gs fs')
    (hafter : ∀ q ∈ after, q.stem? ≠ p.stem?)
    (hbefore : p.fileName? = language.outputName? p → ∀ q ∈ before, q.stem? ≠ p.stem?) :
    HasOutput language strict directory fs fs' p := by
  rw [List.zipIdx_append, List.zipIdx_cons] at h
  refine hasOutput_of_steps h ?_ ?_
  · intro input hinput
    exact hafter input.1 (List.fst_mem_of_mem_zipIdx hinput)
  · intro hown input hinput
    exact hbefore hown input.1 (List.fst_mem_of_mem_zipIdx hinput)

end Generated

section Runs

variable {env : Environment} {settingsPath : Option Path} {word : Text} {paths files : List Path}
  {fs : FileSystem} {settings : Settings} {failure : Failure} {language : Language}

theorem runGenerate_of_load_error
    (h : (Settings.load env settingsPath fs).result = .error failure) (outputDir : Option Path)
    (strict : Bool) :
    (runGenerate env settingsPath word paths outputDir strict fs).result = .error failure ∧
      (runGenerate env settingsPath word paths outputDir strict fs).files = fs := by
  unfold runGenerate
  rw [Session.bind_of_error h]
  exact ⟨rfl, Settings.quiet_load env settingsPath fs⟩

theorem runGenerate_of_unsupported
    (hsettings : (Settings.load env settingsPath fs).result = .ok settings)
    (hlanguage : Language.ofIdentifier? word = none) (outputDir : Option Path) (strict : Bool) :
    (runGenerate env settingsPath word paths outputDir strict fs).result =
        .error (.unsupportedLanguage word) ∧
      (runGenerate env settingsPath word paths outputDir strict fs).files = fs := by
  unfold runGenerate
  obtain ⟨hresult, hfiles⟩ :=
    Session.bind_of_quiet_ok (Settings.quiet_load env settingsPath) hsettings _
  rw [hresult, hfiles, hlanguage]
  exact ⟨rfl, rfl⟩

theorem runGenerate_of_discover_error
    (hsettings : (Settings.load env settingsPath fs).result = .ok settings)
    (hlanguage : Language.ofIdentifier? word = some language)
    (h : discover fs settings.bareExtension paths = .error failure) (outputDir : Option Path)
    (strict : Bool) :
    (runGenerate env settingsPath word paths outputDir strict fs).result = .error failure ∧
      (runGenerate env settingsPath word paths outputDir strict fs).files = fs := by
  unfold runGenerate
  obtain ⟨hresult, hfiles⟩ :=
    Session.bind_of_quiet_ok (Settings.quiet_load env settingsPath) hsettings _
  rw [hresult, hfiles, hlanguage]
  dsimp only
  rw [← Session.result_discover] at h
  rw [Session.bind_of_error h]
  exact ⟨rfl, Session.quiet_discover _ _ fs⟩

/-- A run that finds its language and its files goes through the files. -/
theorem runGenerate_of_discover_ok
    (hsettings : (Settings.load env settingsPath fs).result = .ok settings)
    (hlanguage : Language.ofIdentifier? word = some language)
    (h : discover fs settings.bareExtension paths = .ok files) (outputDir : Option Path)
    (strict : Bool) :
    let all := Session.each (fun input => Generated.ofFile language (strict || settings.strict)
      (outputDir.or settings.outputDir) input.2 input.1) files.zipIdx fs
    (runGenerate env settingsPath word paths outputDir strict fs).result =
        (all.result >>= fun _ => .ok ()) ∧
      (runGenerate env settingsPath word paths outputDir strict fs).files = all.files := by
  unfold runGenerate
  obtain ⟨hresult, hfiles⟩ :=
    Session.bind_of_quiet_ok (Settings.quiet_load env settingsPath) hsettings _
  rw [hresult, hfiles, hlanguage]
  dsimp only
  rw [← Session.result_discover] at h
  obtain ⟨hresult', hfiles'⟩ := Session.bind_of_quiet_ok (Session.quiet_discover _ paths) h _
  rw [hresult', hfiles']
  exact ⟨Session.result_bind _ _ fs, Session.files_bind_quiet _ (fun _ => Session.quiet_emit _) fs⟩

/-- A run that succeeds goes through all its schema files. -/
theorem steps_of_runGenerate_ok {outputDir : Option Path} {strict : Bool} {directory : Path}
    (hsettings : (Settings.load env settingsPath fs).result = .ok settings)
    (hdirectory : outputDir.or settings.outputDir = some directory)
    (h : (runGenerate env settingsPath word paths outputDir strict fs).result = .ok ()) :
    ∃ language files gs, Language.ofIdentifier? word = some language ∧
      discover fs settings.bareExtension paths = .ok files ∧
      Session.Steps (Generated.step language (strict || settings.strict) directory) fs
        files.zipIdx gs (runGenerate env settingsPath word paths outputDir strict fs).files := by
  cases hlanguage : Language.ofIdentifier? word with
  | none =>
    rw [(runGenerate_of_unsupported hsettings hlanguage outputDir strict).1] at h
    cases h
  | some language =>
    cases hfound : discover fs settings.bareExtension paths with
    | error failure =>
      rw [(runGenerate_of_discover_error hsettings hlanguage hfound outputDir strict).1] at h
      cases h
    | ok files =>
      obtain ⟨hresult, hfiles⟩ :=
        runGenerate_of_discover_ok hsettings hlanguage hfound outputDir strict
      rw [hresult, hdirectory] at h
      rw [hfiles, hdirectory]
      obtain ⟨gs, hall, -⟩ := bind_eq_ok_iff.mp h
      exact ⟨language, files, gs, rfl, rfl, Session.steps_of_each_ok hall⟩

end Runs

/-- Runs that generate into a directory. The paths that the code is written to are different
exactly if the stems of the schema files are, and then every file has its output. In any case
the last file with a stem has its output, unless it is itself what was written for an earlier
one. -/
theorem run_generate_outputs {env : Environment} {args : List Text} {i : Invocation}
    {word : Text} {paths : List Path} {outputDir : Option Path} {strict : Bool}
    {fs : FileSystem} {settings : Settings} {directory : Path}
    (hargs : Invocation.read env args = .ok i)
    (hcommand : i.command = .generate word paths outputDir strict)
    (hsettings : (Settings.load env i.settingsPath fs).result = .ok settings)
    (hdirectory : outputDir.or settings.outputDir = some directory)
    (hzero : (run env args fs).exitCode = 0) :
    ∃ language files, Language.ofIdentifier? word = some language ∧
      discover fs settings.bareExtension paths = .ok files ∧
      let HasOutput := Generated.HasOutput language (strict || settings.strict) directory fs
        (run env args fs).files
      ((files.map fun p => Generated.targetOf? directory p language).Nodup ↔
        (files.map Path.stem?).Nodup) ∧
      ((files.map Path.stem?).Nodup → ∀ p ∈ files, HasOutput p) ∧
      ∀ before p after, files = before ++ p :: after → (∀ q ∈ after, q.stem? ≠ p.stem?) →
        (p.fileName? = language.outputName? p → ∀ q ∈ before, q.stem? ≠ p.stem?) →
        HasOutput p := by
  obtain ⟨hfinal, hexit⟩ := run_of_read hargs hcommand fs
  have hok := Outcome.exitCode_eq_zero_iff.mp (hexit.symm.trans hzero)
  obtain ⟨language, files, gs, hlanguage, hfiles, hsteps⟩ :=
    steps_of_runGenerate_ok hsettings hdirectory hok
  have hnodup := nodup_discover hfiles
  refine ⟨language, files, hlanguage, hfiles, ?_⟩
  rw [hfinal]
  refine ⟨?_, ?_, ?_⟩
  · rw [List.nodup_map_iff_inj_on hnodup, List.nodup_map_iff_inj_on hnodup]
    simp only [Generated.targetOf?_eq_iff]
  · intro hstems p hp
    obtain ⟨before, after, rfl⟩ := List.append_of_mem hp
    rw [List.map_append, List.map_cons, List.nodup_middle, List.nodup_cons] at hstems
    have hothers : ∀ q ∈ before ++ after, q.stem? ≠ p.stem? := by
      intro q hq hsame
      apply hstems.1
      rw [← List.map_append, ← hsame]
      exact List.mem_map_of_mem hq
    exact Generated.hasOutput_of_steps_zipIdx hsteps
      (fun q hq => hothers q (List.mem_append_right _ hq))
      fun _ q hq => hothers q (List.mem_append_left _ hq)
  · rintro before p after rfl hafter hbefore
    exact Generated.hasOutput_of_steps_zipIdx hsteps hafter hbefore

/-- Two of three files have one stem: the second of them has its output, and so has the third
file. -/
theorem run_generate_outputs_mixed :
    let env : Environment := ⟨none, none, none, none⟩
    let fs : FileSystem := ⟨[(["w"], .directory), (["w", "a"], .directory),
      (["w", "b"], .directory), (["w", "a", "x.ut"], .file (.text "A:\n  id int\n")),
      (["w", "b", "x.ut"], .file (.text "B:\n  id int\n")),
      (["w", "y.ut"], .file (.text "Y:\n  id int\n"))], ["w"]⟩
    let args : List Text := ["gen", "go", "y.ut", "a/x.ut", "b/x.ut", "-o", "out"]
    let HasOutput := Generated.HasOutput .go false ⟨"out"⟩ fs (run env args fs).files
    (run env args fs).exitCode = 0 ∧ HasOutput ⟨"b/x.ut"⟩ ∧ HasOutput ⟨"y.ut"⟩ := by
  intro env fs args HasOutput
  have hargs : Invocation.read env args = .ok ⟨.generate "go"
      [⟨"y.ut"⟩, ⟨"a/x.ut"⟩, ⟨"b/x.ut"⟩] (some ⟨"out"⟩) false, none, .human, 0, false⟩ := by
    decide +kernel
  have hsettings : (Settings.load env none fs).result = .ok {} :=
    toOption_eq_some_iff.mp (by decide +kernel)
  have hzero : (run env args fs).exitCode = 0 := by decide +kernel
  have hknown : discover fs ({} : Settings).bareExtension [⟨"y.ut"⟩, ⟨"a/x.ut"⟩, ⟨"b/x.ut"⟩] =
      .ok [⟨"a/x.ut"⟩, ⟨"b/x.ut"⟩, ⟨"y.ut"⟩] := toOption_eq_some_iff.mp (by decide +kernel)
  have hgo : Language.ofIdentifier? "go" = some .go := by decide +kernel
  obtain ⟨language, files, hlanguage, hfiles, -, -, hlast⟩ :=
    run_generate_outputs hargs rfl hsettings rfl hzero
  rw [hgo] at hlanguage
  cases hlanguage
  rw [hknown] at hfiles
  cases hfiles
  refine ⟨hzero, ?_, ?_⟩
  · exact hlast [⟨"a/x.ut"⟩] ⟨"b/x.ut"⟩ [⟨"y.ut"⟩] rfl (by decide +kernel) (by decide +kernel)
  · exact hlast [⟨"a/x.ut"⟩, ⟨"b/x.ut"⟩] ⟨"y.ut"⟩ [] rfl (by decide +kernel) (by decide +kernel)

/-- Of two files with one stem, the second one takes the place of the first one's code, which is
then nowhere. -/
theorem run_generate_overwrites_same_stem :
    let env : Environment := ⟨none, none, none, none⟩
    let first : Text := "A:\n  id int\n"
    let second : Text := "B:\n  id int\n"
    let fs : FileSystem := ⟨[(["w"], .directory), (["w", "a"], .directory),
      (["w", "b"], .directory), (["w", "a", "x.ut"], .file (.text first)),
      (["w", "b", "x.ut"], .file (.text second))], ["w"]⟩
    let args : List Text := ["gen", "go", "a/x.ut", "b/x.ut", "-o", "out"]
    let code : Text := "type A struct \x7b\n    Id int\n\x7d\n"
    let code' : Text := "type B struct \x7b\n    Id int\n\x7d\n"
    let generated (source : Text) : Option Text :=
      (Model.read false source).toOption.bind fun m => (Language.go.generate m).toOption
    (run env args fs).exitCode = 0 ∧ generated first = some code ∧ generated second = some code' ∧
      Generated.targetOf? ⟨"out"⟩ ⟨"a/x.ut"⟩ .go = Generated.targetOf? ⟨"out"⟩ ⟨"b/x.ut"⟩ .go ∧
      (run env args fs).files.read ⟨"out/x.go"⟩ = .ok code' ∧
      ∀ e ∈ (run env args fs).files.nodes, e.2 ≠ .file (.text code) := by
  decide +kernel

end ClassSchema
