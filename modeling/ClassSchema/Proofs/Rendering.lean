import ClassSchema.Proofs.Printing

/-!
# Which models can be read

A rendered line has single spaces between its parts and the tags of the field in
their order, so reading gives the field back as it was. Every well-formed model is
therefore read from some file, and a model is read from a file exactly when all the
conditions hold that are checked on the way from the text to the model.
-/

namespace ClassSchema

variable {f : Field} {m : Model}

namespace Tag

variable {tag : Tag}

theorem marks_mark (n : Bool) : Token.Marks n (if n then "?" else "" : String).toList := by
  cases n with
  | true => exact Or.inl ⟨rfl, rfl⟩
  | false => exact Or.inr ⟨rfl, by simp⟩

theorem spells_render (h : tag.Writable) : tag.render.Spells [tag] := by
  have hvalues : '"' ∉ tag.joinedValues :=
    not_mem_joinedValues (by decide) fun v hv => (h.2 v hv).1
  have hspells := Text.spells_tag tag (marks_mark tag.nullable) hvalues
  cases hnullable : tag.nullable <;> simpa [render, hnullable] using hspells

theorem newline_not_mem_render (h : tag.Writable) : '\n' ∉ tag.render := by
  have hvalues : '\n' ∉ tag.joinedValues :=
    not_mem_joinedValues (by decide) fun v hv => (h.2 v hv).2.2
  cases hnullable : tag.nullable <;>
    simp [render, hnullable, tag.target.newline_not_mem, hvalues]

end Tag

namespace Field

def renderedTags (tags : List Tag) : Text := tags.flatMap fun tag => ' ' :: tag.render

theorem spells_renderedTags {tags : List Tag} (h : ∀ tag ∈ tags, tag.Writable) :
    (renderedTags tags).Spells tags := by
  induction tags with
  | nil => exact Text.spells_padding 0
  | cons tag tags ih =>
    obtain ⟨htag, htags⟩ := List.forall_mem_cons.mp h
    have hspells := (Text.spells_padding 1).append ((Tag.spells_render htag).append (ih htags))
    simpa [renderedTags] using hspells

theorem startsBlank_renderedTags (tags : List Tag) : (renderedTags tags).StartsBlank := by
  cases tags with
  | nil => exact Text.startsBlank_nil
  | cons tag tags => simp [renderedTags, Text.StartsBlank, Text.isBlank]

theorem read_append_render (h : f.WellFormed) {gap : Text}
    (hgap : ∀ c ∈ gap, Text.isBlank c = true) (strict : Bool) :
    Field.read strict (gap ++ f.render) = .ok f := by
  have hspace : ∀ c ∈ (" " : String).toList, Text.isBlank c = true :=
    List.all_eq_true.mp (by decide)
  have hread := read_of_spells h hgap hspace (by simp) (startsBlank_renderedTags f.tags)
    (spells_renderedTags h.writable) strict
  simpa [render, renderedTags] using hread

theorem newline_not_mem_render (h : f.WellFormed) : '\n' ∉ f.render := by
  have htags : ∀ tag ∈ f.tags, '\n' ∉ tag.render := by
    intro tag htag
    exact Tag.newline_not_mem_render (h.writable tag htag)
  simpa [render, f.name.newline_not_mem, f.type.newline_not_mem_render] using htags

theorem endsInWord_render (f : Field) : f.render.EndsInWord := by
  rcases List.eq_nil_or_concat f.tags with htags | ⟨tags, last, htags⟩
  · have hword := f.type.endsInWord_render.append (f.name.text ++ " ")
    simpa [render, htags] using hword
  · have hquote : Text.EndsInWord ['"'] := ⟨[], '"', rfl, by decide⟩
    have hword := hquote.append (f.name.text ++ " " ++ f.type.render ++ renderedTags tags ++
      (' ' :: last.target.text ++ (if last.nullable then "?" else "" : String).toList ++ ":\"" ++
        last.joinedValues))
    cases hnullable : last.nullable <;>
      simpa [render, renderedTags, Tag.render, htags, hnullable] using hword

end Field

namespace Model

def renderedLines (m : Model) : List Text := m.fields.map fun f => "  " ++ f.render

theorem render_eq (m : Model) :
    m.render = ((m.name.text ++ ":") :: m.renderedLines).flatMap (· ++ ['\n']) := by
  have hline : renderLine = fun f => ("  " ++ f.render) ++ ['\n'] := rfl
  simp [render, renderedLines, hline, List.flatMap_map]

theorem isWordLine_renderedLines (h : m.WellFormed) :
    ∀ l ∈ (m.name.text ++ ":") :: m.renderedLines, l.IsWordLine := by
  refine List.forall_mem_cons.mpr ⟨isWordLine_header m.name, ?_⟩
  intro l hl
  obtain ⟨f, hf, rfl⟩ := List.mem_map.mp hl
  have hnewline := Field.newline_not_mem_render (h.fields f hf)
  exact ⟨by simp [hnewline], f.endsInWord_render.append "  "⟩

theorem read_render (h : m.WellFormed) (strict : Bool) : read strict m.render = .ok m := by
  have hgap : ∀ c ∈ ("  " : String).toList, Text.isBlank c = true :=
    List.all_eq_true.mp (by decide)
  rw [render_eq]
  refine read_of_lines h.names_nodup (isWordLine_renderedLines h) ?_
  rw [renderedLines, List.map_map]
  apply List.map_congr_left
  intro f hf
  exact Field.read_append_render (h.fields f hf) hgap strict

/-- Rendering loses nothing of a model exactly if the model is well formed: with and without
tolerance for trailing text the rendered model is read as the model and each rendered field as
the field, and what was read is printed as the model is. -/
theorem read_render_and_print_iff_wellFormed (m : Model) :
    ((∀ strict, read strict m.render = .ok m) ∧
      (∀ strict, ∀ f ∈ m.fields, Field.read strict f.render = .ok f) ∧
      (read false m.render).map print = .ok m.print) ↔ m.WellFormed := by
  constructor
  · rintro ⟨hread, -⟩
    exact wellFormed_of_read (hread true)
  · intro h
    refine ⟨read_render h, ?_, ?_⟩
    · intro strict f hf
      exact Field.read_append_render (h.fields f hf) (List.forall_mem_nil _) strict
    · rw [read_render h]
      rfl

end Model

/-- A field that passes every check on its parts. -/
structure Field.Valid (f : Field) : Prop where
  name : FieldName.ofText f.name.text = .ok f.name
  typeNames : ∀ name parameters nullable,
    FieldType.custom name parameters nullable ∈ f.type.nodes →
      TypeName.ofText name.text = .ok name
  height : f.type.height ≤ 64
  type : readType f.type.render = .ok f.type
  targets : ∀ tag ∈ f.tags, TagTarget.ofText tag.target.text = .ok tag.target
  targets_nodup : (f.tags.map Tag.target).Nodup
  values_ne_nil : ∀ tag ∈ f.tags, tag.values ≠ []
  values : ∀ tag ∈ f.tags, ∀ v ∈ tag.values, '"' ∉ v ∧ ',' ∉ v ∧ '\n' ∉ v

structure Model.Valid (m : Model) : Prop where
  name : ClassName.ofText m.name.text = .ok m.name
  names_nodup : (m.fields.map Field.name).Nodup
  fields : ∀ f ∈ m.fields, f.Valid

theorem Field.valid_iff_wellFormed : f.Valid ↔ f.WellFormed := by
  constructor
  · intro h
    exact ⟨h.targets_nodup, fun tag htag => ⟨h.values_ne_nil tag htag, h.values tag htag⟩, h.type⟩
  · intro h
    obtain ⟨-, hheight, -⟩ :=
      FieldType.read_eq_ok_iff.mp (mapError_eq_ok_iff.mp h.readType_render)
    exact
      { name := FieldName.ofText_text _
        typeNames := fun name _ _ _ => TypeName.ofText_text name
        height := hheight
        type := h.readType_render
        targets := fun tag _ => TagTarget.ofText_text tag.target
        targets_nodup := h.targets_nodup
        values_ne_nil := fun tag htag => (h.writable tag htag).1
        values := fun tag htag => (h.writable tag htag).2 }

theorem Model.valid_iff_wellFormed : m.Valid ↔ m.WellFormed := by
  constructor
  · intro h
    exact ⟨h.names_nodup, fun f hf => Field.valid_iff_wellFormed.mp (h.fields f hf)⟩
  · intro h
    exact ⟨ClassName.ofText_text _, h.names_nodup,
      fun f hf => Field.valid_iff_wellFormed.mpr (h.fields f hf)⟩

/-- The models that are read from files, with or without tolerance for trailing text, are
exactly the valid ones. -/
theorem Model.exists_read_eq_ok_iff_valid (strict : Bool) (m : Model) :
    (∃ source, Model.read strict source = .ok m) ↔ m.Valid := by
  rw [Model.valid_iff_wellFormed]
  constructor
  · rintro ⟨source, hread⟩
    exact Model.wellFormed_of_read hread
  · intro h
    exact ⟨m.render, Model.read_render h strict⟩

end ClassSchema
