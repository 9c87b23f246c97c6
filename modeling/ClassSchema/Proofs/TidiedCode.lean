import ClassSchema.Proofs.Annotations
import ClassSchema.Proofs.Tidying
import ClassSchema.Target.Generate

/-!
# The code of tidied sources

Tidying sorts the tags of each field. The generators look at the tags of a
field in two ways: by the tag for a target, which sorting keeps, and by the
entries of the annotation, which it permutes. So the code of a tidied source is
the code of the source with the entries of each annotation in another order.
-/

namespace ClassSchema

variable {m : Model} {f : Field}

theorem missingTargets_sorted (targets : List TagTarget) (f : Field) :
    missingTargets targets f.sorted.tags = missingTargets targets f.tags := by
  unfold missingTargets
  simp only [f.sorted_tags_perm.any_eq]

theorem entries_sorted_perm (targets : List TagTarget) (f : Field) :
    (entries targets f.sorted.tags).Perm (entries targets f.tags) := by
  rw [entries_eq, entries_eq, missingTargets_sorted]
  exact (f.sorted_tags_perm.map Entry.ofTag).append_right _

theorem count_renderEntries_of_perm {targets targets' : List TagTarget} {tags tags' : List Tag}
    (h : (entries targets tags).Perm (entries targets' tags')) (c : Char) :
    (renderEntries targets tags).count c = (renderEntries targets' tags').count c := by
  have hrendered := h.map Entry.render
  rw [renderEntries, renderEntries, Text.count_joined, Text.count_joined, hrendered.length_eq,
    (hrendered.map (List.count c)).sum_eq]

/-- The annotations of some fields, each one between the two parts of a frame. -/
def framed (targets : List TagTarget) (frames : List (Text × Text)) (fields : List Field) : Text :=
  (List.zipWith (fun frame f => frame.1 ++ renderEntries targets f.tags ++ frame.2)
    frames fields).flatten

theorem framed_map (targets : List TagTarget) (frame : Field → Text × Text) (fields : List Field) :
    framed targets (fields.map frame) fields =
      fields.flatMap fun f => (frame f).1 ++ renderEntries targets f.tags ++ (frame f).2 := by
  rw [framed, List.zipWith_map_left, List.zipWith_self, List.flatMap_def]

/-- The codes of two models are the same up to the order of the entries in the annotation
of each field. -/
structure SameUpToEntryOrder (m m' : Model) (code code' : Text) : Prop where
  /-- The fields correspond, and so do the entries of each. -/
  entries : List.Forall₂ (fun f f' => f'.name = f.name ∧ f'.type = f.type ∧
    (entries m'.targets f'.tags).Perm (entries m.targets f.tags)) m.fields m'.fields
  /-- What stands around the annotations is the same. -/
  frames : ∃ (top bottom : Text) (frames : List (Text × Text)),
    frames.length = m.fields.length ∧
      code = top ++ framed m.targets frames m.fields ++ bottom ∧
      code' = top ++ framed m'.targets frames m'.fields ++ bottom

theorem count_framed {targets targets' : List TagTarget} {fields fields' : List Field}
    (h : List.Forall₂ (fun f f' => f'.name = f.name ∧ f'.type = f.type ∧
      (entries targets' f'.tags).Perm (entries targets f.tags)) fields fields')
    (frames : List (Text × Text)) (c : Char) :
    (framed targets frames fields).count c = (framed targets' frames fields').count c := by
  induction h generalizing frames with
  | nil => simp [framed]
  | cons hf _ ih =>
    cases frames with
    | nil => rfl
    | cons frame frames =>
      have hcount := count_renderEntries_of_perm hf.2.2 c
      have hrest := ih frames
      simp only [framed, List.zipWith_cons_cons, List.flatten_cons, List.count_append] at hrest ⊢
      omega

theorem SameUpToEntryOrder.length_lines {m' : Model} {code code' : Text}
    (h : SameUpToEntryOrder m m' code code') :
    (Text.splitOn '\n' code').length = (Text.splitOn '\n' code).length := by
  obtain ⟨top, bottom, frames, -, rfl, rfl⟩ := h.frames
  have hcount := count_framed h.entries frames '\n'
  simp only [Text.length_splitOn, List.count_append, hcount]

theorem Model.forall₂_entries_sorted (m : Model) :
    List.Forall₂ (fun f f' => f'.name = f.name ∧ f'.type = f.type ∧
      (entries m.sorted.targets f'.tags).Perm (entries m.targets f.tags))
      m.fields m.sorted.fields := by
  rw [Model.targets_sorted, Model.sorted, List.forall₂_map_right_iff, List.forall₂_same]
  intro f _
  exact ⟨rfl, rfl, entries_sorted_perm m.targets f⟩

namespace Go

/-- What stands around the annotation of a field in a struct. -/
def frame (targets : List TagTarget) (nameWidth typeWidth : ℕ) (f : Field) : Text × Text :=
  let cells : Text := Text.padRight nameWidth (exported f.name) ++ " " ++
    Text.padRight typeWidth (renderType f.type) ++ " "
  if targets = [] then ("    " ++ Text.trimEnd cells, "\n")
  else ("    " ++ cells ++ "\x60", "\x60\n")

theorem fieldLine_eq_frame {targets : List TagTarget} (h : targets = [] → f.tags = [])
    (nameWidth typeWidth : ℕ) :
    fieldLine nameWidth typeWidth (Row.ofField targets f) =
      (frame targets nameWidth typeWidth f).1 ++ renderEntries targets f.tags ++
        (frame targets nameWidth typeWidth f).2 := by
  unfold frame fieldLine Row.line Row.ofField renderTags
  by_cases htargets : targets = []
  · simp [htargets, h htargets, renderEntries, entries]
  · have hword : ∀ t : Text, Text.trimEnd (t ++ "\x60") = t ++ "\x60" := fun t =>
      Text.EndsInWord.dropEndWhile ⟨t, '\x60', rfl, by decide⟩ fun _ => id
    simp only [htargets, List.isEmpty_iff, if_false]
    rw [← List.append_assoc, hword]
    simp

def frames (m : Model) : List (Text × Text) :=
  m.fields.map (frame m.targets (Text.maxLength (m.fields.map fun f => exported f.name))
    (Text.maxLength (m.fields.map fun f => renderType f.type)))

theorem renderModel_eq_framed (m : Model) :
    renderModel m = "type " ++ m.name.text ++ " struct \x7b\n" ++
      framed m.targets (frames m) m.fields ++ "\x7d\n" := by
  have hnames : (rows m).map Row.name = m.fields.map fun f => exported f.name :=
    List.map_map
  have htypes : (rows m).map Row.type = m.fields.map fun f => renderType f.type :=
    List.map_map
  have hlines : fieldLines (rows m) = framed m.targets (frames m) m.fields := by
    rw [frames, framed_map, fieldLines, hnames, htypes, rows, List.flatMap_map]
    refine List.flatMap_congr fun f hf => ?_
    exact fieldLine_eq_frame (Model.tags_eq_nil_of_targets_eq_nil hf) _ _
  unfold renderModel
  rw [hlines]

theorem frames_sorted (m : Model) : frames m.sorted = frames m := by
  unfold frames
  rw [Model.targets_sorted, Model.sorted]
  simp only [List.map_map]
  rfl

theorem sameUpToEntryOrder_renderModel (m : Model) :
    SameUpToEntryOrder m m.sorted (renderModel m) (renderModel m.sorted) := by
  refine ⟨m.forall₂_entries_sorted, _, _, frames m, by simp [frames], renderModel_eq_framed m, ?_⟩
  rw [renderModel_eq_framed, frames_sorted]
  rfl

theorem renderings_sorted (m : Model) : renderings m.sorted = renderings m := by
  rw [renderings, renderings, Model.sorted, List.map_map]
  rfl

end Go

namespace TypeScript

theorem activeTag?_sorted (h : (f.tags.map Tag.target).Nodup) (target : TagTarget) :
    activeTag? target f.sorted = activeTag? target f := by
  rw [activeTag?, activeTag?, Field.tagFor?_sorted h]

theorem assignments_sorted (h : m.WellFormed) (target : TagTarget) :
    assignments m.sorted target = assignments m target := by
  have hassign := Model.map_sorted_fields (Assignment.ofField? target) h fun f hf => by
    rw [Assignment.ofField?, Assignment.ofField?, activeTag?_sorted hf]
    rfl
  have hmap : ∀ n : Model, assignments n target =
      (n.fields.map (Assignment.ofField? target)).filterMap id := fun n => by
    rw [List.filterMap_map]
    rfl
  rw [hmap, hmap, hassign]

theorem arguments_sorted (h : m.WellFormed) (target : TagTarget) :
    arguments m.sorted target = arguments m target :=
  Model.map_sorted_fields (Argument.ofField target) h fun f hf => by
    rw [Argument.ofField, Argument.ofField, activeTag?_sorted hf]
    rfl

theorem toLines_sorted (h : m.WellFormed) (target : TagTarget) :
    toLines m.sorted target = toLines m target := by
  unfold toLines
  rw [assignments_sorted h]

theorem fromLines_sorted (h : m.WellFormed) (target : TagTarget) :
    fromLines m.sorted target = fromLines m target := by
  unfold fromLines
  rw [arguments_sorted h]
  rfl

theorem constructorLines_sorted (m : Model) : constructorLines m.sorted = constructorLines m := by
  unfold constructorLines
  simp only [Model.sorted, List.map_map]
  rfl

def frame (targets : List TagTarget) (f : Field) : Text × Text :=
  let declaration : Text := f.name.text ++ ": " ++ renderType f.type ++ ";"
  (indented 1 (if targets = [] then declaration else declaration ++ " // "), "\n")

theorem fieldLine_eq_frame {targets : List TagTarget} (h : targets = [] → f.tags = []) :
    indented 1 (renderField targets f) ++ "\n" =
      (frame targets f).1 ++ renderEntries targets f.tags ++ (frame targets f).2 := by
  unfold frame renderField indented renderTags
  by_cases htargets : targets = []
  · simp [htargets, h htargets, renderEntries, entries]
  · simp [htargets]

def methodSections (m : Model) : List (List Text) :=
  constructorLines m :: m.targets.flatMap fun target => [toLines m target, fromLines m target]

theorem methodSections_sorted (h : m.WellFormed) : methodSections m.sorted = methodSections m := by
  unfold methodSections
  rw [constructorLines_sorted, Model.targets_sorted]
  simp only [toLines_sorted h, fromLines_sorted h]

def bottom (m : Model) : Text :=
  let gap : Text := if m.fields = [] then [] else "\n"
  gap ++ Text.joined "\n\n" ((methodSections m).map (Text.joined "\n")) ++ "\n\x7d\n"

theorem bottom_sorted (h : m.WellFormed) : bottom m.sorted = bottom m := by
  have hfields : m.sorted.fields = [] ↔ m.fields = [] := by simp [Model.sorted]
  unfold bottom
  rw [methodSections_sorted h]
  simp only [hfields]

theorem flatMap_fieldLines (m : Model) :
    (fieldLines m).flatMap (· ++ ['\n']) =
      framed m.targets (m.fields.map (frame m.targets)) m.fields := by
  rw [framed_map, fieldLines, List.flatMap_map]
  exact List.flatMap_congr fun f hf =>
    fieldLine_eq_frame (Model.tags_eq_nil_of_targets_eq_nil hf)

theorem renderModel_eq_framed (m : Model) :
    renderModel m = "export default class " ++ m.name.text ++ " \x7b\n" ++
      framed m.targets (m.fields.map (frame m.targets)) m.fields ++ bottom m := by
  have hne : (methodSections m).map (Text.joined "\n") ≠ [] := by simp [methodSections]
  have hbody : Text.joined "\n\n" ((sections m).map (Text.joined "\n")) ++ "\n\x7d\n" =
      framed m.targets (m.fields.map (frame m.targets)) m.fields ++ bottom m := by
    unfold bottom
    by_cases hfields : m.fields = []
    · have hsections : sections m = methodSections m := by simp [sections, methodSections, hfields]
      simp [hsections, hfields, framed]
    · have hsections : sections m = fieldLines m :: methodSections m := by
        simp [sections, methodSections, hfields]
      have hlines : fieldLines m ≠ [] := by simpa [fieldLines] using hfields
      rw [hsections, List.map_cons, Text.joined_cons hne, ← flatMap_fieldLines,
        ← Text.joined_append_separator hlines]
      simp [hfields]
  unfold renderModel
  rw [List.append_assoc, hbody, ← List.append_assoc]

theorem sameUpToEntryOrder_renderModel (h : m.WellFormed) :
    SameUpToEntryOrder m m.sorted (renderModel m) (renderModel m.sorted) := by
  refine ⟨m.forall₂_entries_sorted, _, _, m.fields.map (frame m.targets), by simp,
    renderModel_eq_framed m, ?_⟩
  rw [renderModel_eq_framed, bottom_sorted h, Model.targets_sorted, Model.sorted, List.map_map]
  rfl

theorem renderings_sorted (m : Model) : renderings m.sorted = renderings m := by
  rw [renderings, renderings, Model.targets_sorted]

end TypeScript

theorem Field.sorted_eq_self (h : f.tags.Pairwise fun a b => (Tag.order a b).isLE = true) :
    f.sorted = f := by
  unfold Field.sorted
  rw [List.mergeSort_of_pairwise h]

theorem Model.sorted_eq_self
    (h : ∀ f ∈ m.fields, f.tags.Pairwise fun a b => (Tag.order a b).isLE = true) :
    m.sorted = m := by
  have hfields : m.fields.map Field.sorted = m.fields :=
    (List.map_congr_left fun f hf => Field.sorted_eq_self (h f hf)).trans (List.map_id m.fields)
  rw [Model.sorted, hfields]

/-- Sorting the tags of a model keeps the failure of a generator, and its code up to the
order of entries. -/
theorem Language.generate_sorted (h : m.WellFormed) (language : Language) :
    (∃ collision, language.generate m = .error collision ∧
      language.generate m.sorted = .error collision) ∨
    ∃ code code', language.generate m = .ok code ∧ language.generate m.sorted = .ok code' ∧
      SameUpToEntryOrder m m.sorted code code' := by
  cases language with
  | go =>
    simp only [Language.generate, Go.generate, Go.renderings_sorted]
    cases Collision.find? .go (Go.renderings m) with
    | some collision => exact Or.inl ⟨collision, rfl, rfl⟩
    | none => exact Or.inr ⟨_, _, rfl, rfl, Go.sameUpToEntryOrder_renderModel m⟩
  | typeScript =>
    simp only [Language.generate, TypeScript.generate, TypeScript.renderings_sorted]
    cases Collision.find? .typeScript (TypeScript.renderings m) with
    | some collision => exact Or.inl ⟨collision, rfl, rfl⟩
    | none => exact Or.inr ⟨_, _, rfl, rfl, TypeScript.sameUpToEntryOrder_renderModel h⟩

/-- Tidying a source does not change what is generated from it. A generator fails on the
tidied source exactly if it fails on the source, with the same collision. Otherwise the two
codes have equally many lines and are the same up to the order of the entries in each
annotation, and they are the same if all tags were in order. The constructor and the
methods of a class do not change at all. -/
theorem generate_tidied {source : Text} (h : Model.read false source = .ok m) :
    ∃ t m', tidy source = .ok t ∧ Model.read false t = .ok m' ∧
      (∀ language : Language,
        (∀ collision, language.generate m' = .error collision ↔
          language.generate m = .error collision) ∧
        ∀ code, language.generate m = .ok code →
          ∃ code', language.generate m' = .ok code' ∧
            (Text.splitOn '\n' code').length = (Text.splitOn '\n' code).length ∧
            SameUpToEntryOrder m m' code code' ∧
            ((∀ f ∈ m.fields, f.tags.Pairwise fun a b => (Tag.order a b).isLE = true) →
              code' = code)) ∧
      m'.targets = m.targets ∧
      TypeScript.constructorLines m' = TypeScript.constructorLines m ∧
      ∀ target, TypeScript.toLines m' target = TypeScript.toLines m target ∧
        TypeScript.fromLines m' target = TypeScript.fromLines m target := by
  have hm := Model.wellFormed_of_read h
  refine ⟨m.print, m.sorted, tidy_eq_ok_iff.mpr ⟨m, h, rfl⟩, Model.read_print hm false, ?_,
    Model.targets_sorted m, TypeScript.constructorLines_sorted m, fun target =>
      ⟨TypeScript.toLines_sorted hm target, TypeScript.fromLines_sorted hm target⟩⟩
  intro language
  rcases language.generate_sorted hm with
    ⟨collision, hcode, hcode'⟩ | ⟨code, code', hcode, hcode', hsame⟩
  · refine ⟨fun other => by rw [hcode, hcode'], fun code hok => ?_⟩
    rw [hcode] at hok
    cases hok
  · refine ⟨fun collision => by simp [hcode, hcode'], fun other hok => ?_⟩
    obtain rfl : code = other := Except.ok.inj (hcode.symm.trans hok)
    refine ⟨code', hcode', hsame.length_lines, hsame, fun hsorted => ?_⟩
    rw [Model.sorted_eq_self hsorted] at hcode'
    exact Except.ok.inj (hcode'.symm.trans hcode)

/-- A field with its tags out of order, one of them nullable, and a field that has only one
of the targets. -/
theorem generate_tidied_unsorted :
    let source : Text := "U:\n  a int x:\"k\" b?:\"l\"\n  c int y:\"m\"\n"
    let lines : List Text := ["type U struct \x7b",
      "    A int \x60x:\"k\" b:\"l,omitempty\" y:\"-\"\x60",
      "    C int \x60y:\"m\" b:\"-\" x:\"-\"\x60", "\x7d", ""]
    let lines' : List Text := ["type U struct \x7b",
      "    A int \x60b:\"l,omitempty\" x:\"k\" y:\"-\"\x60",
      "    C int \x60y:\"m\" b:\"-\" x:\"-\"\x60", "\x7d", ""]
    ∃ m t m' code code', Model.read false source = .ok m ∧ tidy source = .ok t ∧
      Model.read false t = .ok m' ∧ Language.go.generate m = .ok code ∧
      Language.go.generate m' = .ok code' ∧ SameUpToEntryOrder m m' code code' ∧
      Text.splitOn '\n' code = lines ∧ Text.splitOn '\n' code' = lines' := by
  intro source lines lines'
  have hrun : ((Model.read false source).toOption.bind fun m =>
      (Language.go.generate m).toOption).map (Text.splitOn '\n') = some lines := by
    decide +kernel
  have hrun' : ((tidy source).toOption.bind fun t => (Model.read false t).toOption.bind fun m =>
      (Language.go.generate m).toOption).map (Text.splitOn '\n') = some lines' := by
    decide +kernel
  obtain ⟨code, hcode, hlines⟩ := Option.map_eq_some_iff.mp hrun
  obtain ⟨m, hread, hcode⟩ := Option.bind_eq_some_iff.mp hcode
  rw [toOption_eq_some_iff] at hread hcode
  obtain ⟨t, m', htidy, hread', hlanguages, -⟩ := generate_tidied hread
  obtain ⟨code', hcode', -, hsame, -⟩ := (hlanguages .go).2 code hcode
  rw [htidy, Except.toOption, Option.bind_some, hread', Except.toOption, Option.bind_some, hcode',
    Except.toOption, Option.map_some] at hrun'
  exact ⟨m, t, m', code, code', hread, htidy, hread', hcode, hcode', hsame, hlines,
    Option.some.inj hrun'⟩

end ClassSchema
