import ClassSchema.Proofs.CheckRuns
import ClassSchema.Proofs.CommandLines
import ClassSchema.Proofs.JsonText

/-!
# What does not depend on the presentation

Command lines that differ only in options that concern what is shown leave the same files
and end with the same exit code. A run that generates code without a directory makes known
each file in turn and all of them at the end. From that the code stands on standard output
either bare, one file after the other, or in one value, and both are the same code.
-/

namespace ClassSchema

theorem Session.shown_each_cons {α β : Type} {f : α → Session β} {fs : FileSystem} {a : α}
    {as : List α} {b : β} {bs : List β} (hhead : (f a fs).result = .ok b)
    (hmore : (each f as (f a fs).files).result = .ok bs) :
    (each f (a :: as) fs).shown = (f a fs).shown ++ (each f as (f a fs).files).shown := by
  change ((f a >>= fun b => each f as >>= fun bs => pure (b :: bs)) fs).shown = _
  rw [shown_bind_of_ok hhead, shown_bind_of_ok hmore]
  exact congrArg _ (List.append_nil _)

namespace Generated

open Session

variable {language : Language} {strict : Bool} {fs : FileSystem} {g : Generated}
  {gs : List Generated}

theorem shown_shownStep {input : Path × ℕ}
    (h : (shownStep language strict input fs).result = .ok g) :
    (shownStep language strict input fs).shown = [.generated input.2 g] ∧ g.target = none := by
  unfold shownStep ofFile at h ⊢
  obtain ⟨⟨source, m⟩, -, h, hshown⟩ := (passive_readModel strict input.1).exists_of_bind_ok h
  obtain ⟨code, -, h, hshown'⟩ := (passive_render language input.1 m).exists_of_bind_ok h
  cases h
  exact ⟨hshown.trans hshown', rfl⟩

/-- The files whose code is shown are made known one after the other. -/
theorem shown_each_shownStep {files : List Path} {earlier : ℕ}
    (h : (each (shownStep language strict) (files.zipIdx earlier) fs).result = .ok gs) :
    (each (shownStep language strict) (files.zipIdx earlier) fs).shown =
        (gs.zipIdx earlier).map (fun shown => .generated shown.2 shown.1) ∧
      ∀ g ∈ gs, g.target = none := by
  induction files generalizing earlier fs gs with
  | nil =>
    cases h
    exact ⟨rfl, by simp⟩
  | cons p files ih =>
    rw [List.zipIdx_cons] at h ⊢
    rw [result_each_cons] at h
    obtain ⟨g, hhead, h⟩ := bind_eq_ok_iff.mp h
    obtain ⟨more, hmore, h⟩ := bind_eq_ok_iff.mp h
    cases h
    obtain ⟨hshown, htarget⟩ := shown_shownStep hhead
    obtain ⟨hshown', htargets⟩ := ih hmore
    refine ⟨?_, List.forall_mem_cons.mpr ⟨htarget, htargets⟩⟩
    rw [shown_each_cons hhead hmore, hshown, hshown']
    rfl

end Generated

/-- A run without a directory makes known the code of each file and at the end all of it. -/
theorem shown_runGenerate {env : Environment} {settingsPath : Option Path} {word : Text}
    {paths : List Path} {outputDir : Option Path} {strict : Bool} {fs : FileSystem}
    (hdirectory : ∀ settings, (Settings.load env settingsPath fs).result = .ok settings →
      outputDir.or settings.outputDir = none)
    (h : (runGenerate env settingsPath word paths outputDir strict fs).result = .ok ()) :
    ∃ language gs, (∀ g ∈ gs, g.target = none) ∧
      (runGenerate env settingsPath word paths outputDir strict fs).shown =
        gs.zipIdx.map (fun shown => .generated shown.2 shown.1) ++
          [.finishedGenerating language gs] := by
  unfold runGenerate at h ⊢
  obtain ⟨settings, hload, h, hshown⟩ :=
    (Settings.passive_load env settingsPath).exists_of_bind_ok h
  rw [hshown]
  rw [hdirectory settings hload] at h ⊢
  cases hlanguage : Language.ofIdentifier? word with
  | none =>
    rw [hlanguage] at h
    cases h
  | some language =>
    rw [hlanguage] at h
    obtain ⟨files, -, h, hfound⟩ := (Session.passive_discover _ _).exists_of_bind_ok h
    obtain ⟨gs, hall, -⟩ := Session.bind_result_eq_ok_iff.mp h
    obtain ⟨hall_shown, htargets⟩ := Generated.shown_each_shownStep hall
    refine ⟨language, gs, htargets, hfound.trans ?_⟩
    rw [Session.shown_bind_of_ok hall]
    exact congrArg (· ++ _) hall_shown

theorem Outcome.flatMap_shown {α β : Type} {part : Event → List β} (o : Outcome α)
    (h : ∀ e, e.isLog = true → part e = []) : o.shown.flatMap part = o.events.flatMap part := by
  unfold shown
  induction o.events with
  | nil => rfl
  | cons e events ih =>
    rw [List.flatMap_cons, ← ih]
    cases he : e.isLog with
    | true => rw [List.filter_cons_of_neg (by simp [he]), h e he, List.nil_append]
    | false => rw [List.filter_cons_of_pos (by simp [he]), List.flatMap_cons]

namespace Presentation

variable {p : Presentation} {gs : List Generated}

theorem stdout_event_of_isLog {e : Event} (h : e.isLog = true) : (p.event e).stdout = [] := by
  cases e with
  | log entry =>
    change (if p.log.shows entry then Output.message (.log entry) else .nothing).stdout = []
    split_ifs <;> rfl
  | _ => cases h

theorem stdout_events (o : Outcome Unit) :
    (Output.concat (o.events.map p.event)).stdout =
      o.shown.flatMap fun e => (p.event e).stdout := by
  rw [Output.stdout_concat, List.flatMap_map, o.flatMap_shown fun _ => stdout_event_of_isLog]

theorem stdout_outcome {o : Outcome Unit} (h : o.result = .ok ()) :
    (p.outcome o).stdout = o.shown.flatMap fun e => (p.event e).stdout := by
  unfold outcome
  rw [h]
  exact (List.append_nil _).trans (stdout_events o)

def allGeneratedValue (language : Language) (gs : List Generated) : Json.Value :=
  .object [("files", .array (gs.map generatedValue)), ("language", .string language.identifier)]

theorem stdout_finishedGenerating (language : Language) (gs : List Generated) :
    (p.event (.finishedGenerating language gs)).stdout =
      if p.format = .json then (allGeneratedValue language gs).pretty ++ "\n" else [] := by
  change (p.finishedGenerating language gs).stdout = _
  unfold finishedGenerating
  cases hformat : p.format with
  | json => rfl
  | human => exact stdout_status p _
  | plain => exact stdout_status p _

theorem stdout_bare (hp : p.format ≠ .json) (hgs : ∀ g ∈ gs, g.target = none) {o : Outcome Unit}
    {language : Language} (hok : o.result = .ok ())
    (hshown : o.shown = gs.zipIdx.map (fun shown => .generated shown.2 shown.1) ++
      [.finishedGenerating language gs]) :
    (p.outcome o).stdout = Text.joined "\n" (gs.map (·.code)) := by
  rw [stdout_outcome hok, hshown, List.flatMap_append, stdout_generated_all hp hgs,
    List.flatMap_singleton, stdout_finishedGenerating, if_neg hp, List.append_nil]

/-- The same run as one value. -/
theorem stdout_value (hp : p.format = .json) {o : Outcome Unit} {language : Language}
    (hok : o.result = .ok ())
    (hshown : o.shown = gs.zipIdx.map (fun shown => .generated shown.2 shown.1) ++
      [.finishedGenerating language gs]) :
    (p.outcome o).stdout = (allGeneratedValue language gs).pretty ++ "\n" := by
  have hnone : (gs.zipIdx.map fun shown => Event.generated shown.2 shown.1).flatMap
      (fun e => (p.event e).stdout) = [] := by
    rw [List.flatMap_eq_nil_iff]
    intro e he
    obtain ⟨shown, -, rfl⟩ := List.mem_map.mp he
    change (p.generated _ _).stdout = []
    unfold generated
    rw [hp]
    rfl
  rw [stdout_outcome hok, hshown, List.flatMap_append, hnone, List.nil_append,
    List.flatMap_singleton, stdout_finishedGenerating, if_pos hp]

end Presentation

/-- The texts under `source` of all the files that a value names. -/
def sources? (v : Json.Value) : Option (List Text) := do
  let files ← (v.member? "files").bind Json.asArray?
  files.mapM fun file => (file.member? "source").bind Json.asText?

theorem sources?_allGeneratedValue (language : Language) {gs : List Generated}
    (hgs : ∀ g ∈ gs, g.target = none) :
    sources? (Presentation.allGeneratedValue language gs) = some (gs.map (·.code)) := by
  change (gs.map Presentation.generatedValue).mapM _ = _
  induction gs with
  | nil => rfl
  | cons g gs ih =>
    obtain ⟨hg, hgs⟩ := List.forall_mem_cons.mp hgs
    have hsource : ((Presentation.generatedValue g).member? "source").bind Json.asText? =
        some g.code := by
      unfold Presentation.generatedValue
      rw [hg]
      rfl
    rw [List.map_cons, List.mapM_cons, hsource, ih hgs]
    rfl

/-- Invocations that ask for the same command with the same settings. -/
def Invocation.SameRequest (i i' : Invocation) : Prop :=
  i'.command = i.command ∧ i'.settingsPath = i.settingsPath

/-- For a command line that is read, the options that concern what is shown can be exchanged
for those of any style, and lines that differ only in such options ask for the same. Lines
that ask for the same end with the same exit code and leave the same files. If they generate
code with success and without a directory, then a line that asks for values shows one value,
and any other line shows the sources of that value with one line break between them. -/
theorem run_presentations_agree {env : Environment} {args : List Text} {i : Invocation}
    (hargs : Invocation.read env args = .ok i) (hknown : ∀ words, i.command ≠ .unknown words)
    (fs : FileSystem) :
    (∀ style : Style, Invocation.read env (style.options ++ withoutPresentation args) =
      .ok (i.inStyle style)) ∧
    (∀ args' i', Invocation.read env args' = .ok i' →
      (∀ words, i'.command ≠ .unknown words) →
      withoutPresentation args' = withoutPresentation args → i.SameRequest i') ∧
    ∀ args' i', Invocation.read env args' = .ok i' → i.SameRequest i' →
      (run env args' fs).exitCode = (run env args fs).exitCode ∧
      (run env args' fs).files = (run env args fs).files ∧
      ∀ word paths outputDir strict, i.command = .generate word paths outputDir strict →
        (∀ settings, (Settings.load env i.settingsPath fs).result = .ok settings →
          outputDir.or settings.outputDir = none) →
        (run env args fs).exitCode = 0 → i.format ≠ .json → i'.format = .json →
        (∃ v : Json.Value, (run env args' fs).output.stdout = v.pretty ++ "\n") ∧
        ∀ v : Json.Value, (run env args' fs).output.stdout = v.pretty ++ "\n" →
          ∃ sources, sources? v = some sources ∧
            (run env args fs).output.stdout = Text.joined "\n" sources := by
  refine ⟨Invocation.read_inStyle hargs hknown, ?_, ?_⟩
  · intro args' i' hargs' hknown' hsame
    exact Invocation.eq_of_withoutPresentation_eq hargs hargs' hknown hknown' hsame
  · rintro args' i' hargs' ⟨hcommand, hsettings⟩
    obtain ⟨hfiles, hcode⟩ := run_of_read hargs rfl fs
    obtain ⟨hfiles', hcode'⟩ := run_of_read hargs' hcommand fs
    rw [hsettings] at hfiles' hcode'
    refine ⟨hcode'.trans hcode.symm, hfiles'.trans hfiles.symm, ?_⟩
    intro word paths outputDir strict hgenerate hdirectory hzero hformat hformat'
    rw [hcode, hgenerate, Outcome.exitCode_eq_zero_iff] at hzero
    obtain ⟨language, gs, htargets, hshown⟩ := shown_runGenerate hdirectory hzero
    have hbare : (run env args fs).output.stdout = Text.joined "\n" (gs.map (·.code)) := by
      rw [output_run hargs hgenerate]
      exact Presentation.stdout_bare hformat htargets hzero hshown
    have hvalue : (run env args' fs).output.stdout =
        (Presentation.allGeneratedValue language gs).pretty ++ "\n" := by
      rw [output_run hargs' (hcommand.trans hgenerate), hsettings]
      exact Presentation.stdout_value hformat' hzero hshown
    refine ⟨⟨_, hvalue⟩, fun v hv => ⟨gs.map (·.code), ?_, hbare⟩⟩
    have hpretty := List.append_cancel_right (hvalue.symm.trans hv)
    rw [← Json.Value.pretty_injective hpretty]
    exact sources?_allGeneratedValue language htargets

/-- A run over two files in plain form and without messages, and the same run as a value and
with a log. -/
theorem run_presentations_agree_plain_and_json :
    let env : Environment := ⟨none, none, none, none⟩
    let fs : FileSystem := ⟨[(["w"], .directory), (["w", "a.ut"], .file (.text "A:\n x int\n")),
      (["w", "b.ut"], .file (.text "B:\n y bool\n"))], ["w"]⟩
    let args : List Text := ["-q", "gen", "go", "--format", "plain", "a.ut", "b.ut"]
    let args' : List Text := ["gen", "-vv", "go", "a.ut", "b.ut", "--format=json"]
    (run env args fs).exitCode = 0 ∧ (run env args' fs).exitCode = (run env args fs).exitCode ∧
      (run env args' fs).files = (run env args fs).files ∧
      ∃ v sources, (run env args' fs).output.stdout = v.pretty ++ "\n" ∧
        sources? v = some sources ∧
        (run env args fs).output.stdout = Text.joined "\n" sources := by
  intro env fs args args'
  let paths : List Path := [⟨"a.ut"⟩, ⟨"b.ut"⟩]
  have hargs : Invocation.read env args =
      .ok ⟨.generate "go" paths none false, none, .plain, 0, true⟩ := by
    decide +kernel
  have hargs' : Invocation.read env args' =
      .ok ⟨.generate "go" paths none false, none, .json, 2, false⟩ := by
    decide +kernel
  have hload : (Settings.load env none fs).result = .ok {} :=
    toOption_eq_some_iff.mp (by decide +kernel)
  have hdirectory : ∀ settings, (Settings.load env none fs).result = .ok settings →
      (none : Option Path).or settings.outputDir = none := by
    intro settings h
    rw [hload] at h
    cases h
    rfl
  have hzero : (run env args fs).exitCode = 0 := by decide +kernel
  obtain ⟨-, hsame, hruns⟩ := run_presentations_agree hargs (by simp) fs
  obtain ⟨hcode, hfiles, hstdout⟩ :=
    hruns args' _ hargs' (hsame args' _ hargs' (by simp) (by decide +kernel))
  obtain ⟨⟨v, hv⟩, hsources⟩ :=
    hstdout "go" paths none false rfl hdirectory hzero (by decide) rfl
  obtain ⟨sources, hsome, hjoined⟩ := hsources v hv
  exact ⟨hzero, hcode, hfiles, v, sources, hv, hsome, hjoined⟩

end ClassSchema
