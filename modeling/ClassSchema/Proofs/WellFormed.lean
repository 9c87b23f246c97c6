import ClassSchema.Proofs.FieldLine
import ClassSchema.Proofs.LineWise

/-!
# What is read is well formed

A well-formed model can be written down: names do not repeat, tag values fit
between quotation marks on one line, and types own their notation. Whatever is
read from a file is well formed, since each of these conditions is enforced
somewhere on the way from the text to the model.
-/

namespace ClassSchema

/-- There is a value, and no value has a character that ends a value, the quotation
or the line. -/
def Tag.Writable (tag : Tag) : Prop :=
  tag.values ≠ [] ∧ ∀ v ∈ tag.values, '"' ∉ v ∧ ',' ∉ v ∧ '\n' ∉ v

instance : DecidablePred Tag.Writable := fun _ => inferInstanceAs (Decidable (_ ∧ _))

structure Field.WellFormed (f : Field) : Prop where
  targets_nodup : (f.tags.map Tag.target).Nodup
  writable : ∀ tag ∈ f.tags, tag.Writable
  readType_render : readType f.type.render = .ok f.type

structure Model.WellFormed (m : Model) : Prop where
  names_nodup : (m.fields.map Field.name).Nodup
  fields : ∀ f ∈ m.fields, f.WellFormed

theorem FieldType.withoutBlanks_render (t : FieldType) :
    Text.withoutBlanks t.render = t.render := by
  refine List.filter_eq_self.mpr fun c hc => ?_
  simp [FieldType.isBlank_of_mem_render hc]

theorem readType_render_of_read {text : Text} {t : FieldType} (h : readType text = .ok t) :
    readType t.render = .ok t := by
  obtain ⟨-, hheight, hexpr⟩ := FieldType.read_eq_ok_iff.mp (mapError_eq_ok_iff.mp h)
  refine mapError_eq_ok_iff.mpr (FieldType.read_eq_ok_iff.mpr ⟨?_, hheight, hexpr⟩)
  exact (FieldType.withoutBlanks_render t).symm

theorem SourceLine.newline_not_mem {source : Text} {line : SourceLine}
    (h : line ∈ SourceLine.contentLines source) : '\n' ∉ line.text := by
  obtain ⟨hmem, -⟩ := List.mem_filter.mp h
  obtain ⟨i, hi, rfl⟩ := List.mem_mapIdx.mp hmem
  intro hnewline
  have hpiece := (List.rdropWhile_prefix _ _).subset hnewline
  exact (Text.mem_of_mem_splitOn (List.getElem_mem hi) hpiece).2 rfl

theorem Tag.writable_of_isOf {raw : RawTag} {tag : Tag} {region : Text} (hof : raw.IsOf tag)
    (hlisted : tag.Listed) (hsound : raw.Sound (· ∈ region)) (hline : '\n' ∉ region) :
    tag.Writable := by
  obtain ⟨-, -, hvalues⟩ := hof
  refine ⟨hlisted.1, fun v hv => ?_⟩
  have hmem : ∀ c ∈ v, c ∈ raw.values := by
    intro c hc
    rw [hvalues]
    exact Text.mem_joined_of_mem hv hc
  exact ⟨fun hc => hsound.unquoted (hmem _ hc), hlisted.2 v hv,
    fun hc => hline (hsound.values _ (hmem _ hc))⟩

theorem Tag.forall_writable {raws : List RawTag} {tags : List Tag} {region : Text}
    (hof : List.Forall₂ RawTag.IsOf raws tags) (hlisted : ∀ tag ∈ tags, tag.Listed)
    (hsound : ∀ raw ∈ raws, raw.Sound (· ∈ region)) (hline : '\n' ∉ region) :
    ∀ tag ∈ tags, tag.Writable := by
  induction hof with
  | nil => simp
  | cons hof _ ih =>
    rw [List.forall_mem_cons] at hlisted hsound ⊢
    exact ⟨writable_of_isOf hof hlisted.1 hsound.1 hline, ih hlisted.2 hsound.2⟩

theorem Field.wellFormed_of_read {strict : Bool} {line : Text} {f : Field}
    (h : Field.read strict line = .ok f) (hline : '\n' ∉ line) : f.WellFormed := by
  obtain ⟨parts, hsplit, -, htype, -, hof, hlisted, hnodup⟩ := Field.read_eq_ok_iff.mp h
  obtain ⟨gap, gap', hsplits⟩ := FieldLine.split?_eq_some_iff.mp hsplit
  have hregion : '\n' ∉ parts.region := by
    intro hnewline
    apply hline
    rw [hsplits.line_eq]
    simp [hnewline]
  exact ⟨hnodup, Tag.forall_writable hof hlisted (TagScan.scan_sound _) hregion,
    readType_render_of_read htype⟩

/-- Two words and a region that spells the tags of a well-formed field are read as it. -/
theorem Field.read_of_spells {f : Field} (h : f.WellFormed) {gap gap' region : Text}
    (hgap : ∀ c ∈ gap, Text.isBlank c = true) (hgap' : ∀ c ∈ gap', Text.isBlank c = true)
    (hne : gap' ≠ []) (hstarts : region.StartsBlank) (hspells : region.Spells f.tags)
    (strict : Bool) :
    Field.read strict (gap ++ f.name.text ++ (gap' ++ f.type.render ++ region)) = .ok f := by
  have htype : isBareWord f.type.render = true :=
    isBareWord_iff.mpr ⟨f.type.render_ne_nil, fun _ => FieldType.isBlank_of_mem_render⟩
  obtain ⟨raws, hscan, hof⟩ := hspells.scan
  obtain ⟨parts, hsplit, hparts, hparts', rfl⟩ :=
    FieldLine.exists_split? hgap hgap' hne f.name.valid htype hstarts
  refine Field.read_eq_ok_iff.mpr
    ⟨parts, hsplit, hparts, hparts' ▸ h.readType_render, ?_, ?_, ?_, h.targets_nodup⟩
  · intro _
    rw [hscan]
  · rw [hscan]
    exact hof
  · intro tag htag
    obtain ⟨hne, hvalues⟩ := h.writable tag htag
    exact ⟨hne, fun v hv => (hvalues v hv).2.1⟩

theorem Model.wellFormed_of_read {strict : Bool} {source : Text} {m : Model}
    (h : Model.read strict source = .ok m) : m.WellFormed := by
  obtain ⟨header, lines, hlines, -, hfields, hnodup⟩ := Model.read_eq_ok_iff.mp h
  refine ⟨hnodup, fun f hf => ?_⟩
  have hread : .ok f ∈ lines.map fun line => Field.read strict line.text := by
    rw [hfields]
    exact List.mem_map.mpr ⟨f, hf, rfl⟩
  obtain ⟨line, hline, hread⟩ := List.mem_map.mp hread
  have hcontent : line ∈ SourceLine.contentLines source := by
    rw [hlines]
    exact List.mem_cons_of_mem _ hline
  exact Field.wellFormed_of_read hread (SourceLine.newline_not_mem hcontent)

end ClassSchema
