import ClassSchema.Proofs.Printing
import ClassSchema.Target.Go
import ClassSchema.Target.TypeScript.Class

/-!
# Annotations are complete and can be read back

Scanning the annotation of a field finds one tag for each target of the model and
nothing else: first the field's own tags in their order, then the targets that it
lacks in the order of their bytes. No value can blur where an entry ends, since
values have no quotation marks.
-/

namespace ClassSchema

def Text.bytes (t : Text) : List UInt8 := t.flatMap String.utf8EncodeChar

theorem Text.bytes_cons {c : Char} (h : c.utf8Size = 1) (t : Text) :
    Text.bytes (c :: t) = c.val.toUInt8 :: Text.bytes t := by
  rw [Text.bytes, List.flatMap_cons, String.utf8EncodeChar_eq_singleton h]
  rfl

/-- Where every character is one byte, the order of characters is that of bytes. -/
theorem Text.bytes_lt_bytes {t u : Text} (ht : ∀ c ∈ t, c.utf8Size = 1)
    (hu : ∀ c ∈ u, c.utf8Size = 1) (h : t < u) : t.bytes < u.bytes := by
  induction u generalizing t with
  | nil => exact absurd h (List.not_lt_nil t)
  | cons d u ih =>
    obtain ⟨hd, htail⟩ := List.forall_mem_cons.mp hu
    rw [Text.bytes_cons hd]
    cases t with
    | nil => exact List.nil_lt_cons _ _
    | cons c t =>
      obtain ⟨hc, ht⟩ := List.forall_mem_cons.mp ht
      rw [Text.bytes_cons hc, List.cons_lt_cons_iff]
      rcases List.cons_lt_cons_iff.mp h with hlt | ⟨rfl, hlt⟩
      · left
        have hbound := UInt32.le_iff_toNat_le.mp (Char.utf8Size_eq_one_iff.mp hd)
        have hval : c.val.toNat < d.val.toNat := hlt
        have h127 : (127 : UInt32).toNat = 127 := rfl
        rw [UInt8.lt_iff_toNat_lt, UInt32.toNat_toUInt8, UInt32.toNat_toUInt8]
        omega
      · exact Or.inr ⟨rfl, ih ht htail hlt⟩

theorem TagTarget.bytes_lt_bytes {a b : TagTarget} (h : TagTarget.order a b = .lt) :
    a.text.bytes < b.text.bytes := by
  apply Text.bytes_lt_bytes
  · intro c hc
    exact utf8Size_of_isTargetChar (a.isTargetChar_of_mem hc)
  · intro c hc
    exact utf8Size_of_isTargetChar (b.isTargetChar_of_mem hc)
  · exact compareOfLessAndEq_eq_lt.mp h

namespace Model

variable {m : Model} {target : TagTarget}

theorem pairwise_targets (m : Model) : m.targets.Pairwise (TagTarget.order · · = .lt) :=
  Sorted.pairwise_ofList _

theorem nodup_targets (m : Model) : m.targets.Nodup := by
  refine m.pairwise_targets.imp ?_
  rintro a b hlt rfl
  exact Std.OrientedCmp.not_lt_of_lt hlt hlt

end Model

def missingTargets (targets : List TagTarget) (tags : List Tag) : List TagTarget :=
  targets.filter fun target => !tags.any (·.target = target)

theorem mem_missingTargets {targets : List TagTarget} {tags : List Tag} {target : TagTarget} :
    target ∈ missingTargets targets tags ↔ target ∈ targets ∧ target ∉ tags.map Tag.target := by
  simp [missingTargets]

theorem entries_eq (targets : List TagTarget) (tags : List Tag) :
    entries targets tags =
      tags.map Entry.ofTag ++ (missingTargets targets tags).map Entry.missing := rfl

/-- A field has one entry for each target. -/
theorem perm_entries {m : Model} {f : Field} (hf : f ∈ m.fields)
    (h : (f.tags.map Tag.target).Nodup) :
    ((entries m.targets f.tags).map Entry.target).Perm m.targets := by
  have hentries : (entries m.targets f.tags).map Entry.target =
      f.tags.map Tag.target ++ missingTargets m.targets f.tags := by
    simp [entries_eq, Entry.ofTag, Entry.missing, Function.comp_def]
  rw [hentries]
  have hdisjoint : List.Disjoint (f.tags.map Tag.target) (missingTargets m.targets f.tags) := by
    intro target hown hmissing
    exact (mem_missingTargets.mp hmissing).2 hown
  have hmissing : (missingTargets m.targets f.tags).Nodup := m.nodup_targets.filter _
  have hnodup := h.append hmissing hdisjoint
  refine (List.perm_ext_iff_of_nodup hnodup m.nodup_targets).mpr fun target => ?_
  rw [List.mem_append, mem_missingTargets]
  constructor
  · rintro (hown | ⟨hmem, -⟩)
    · exact Model.mem_targets.mpr ⟨f, hf, hown⟩
    · exact hmem
  · intro hmem
    by_cases hown : target ∈ f.tags.map Tag.target
    · exact Or.inl hown
    · exact Or.inr ⟨hmem, hown⟩

namespace Entry

/-- The entry as a tag without a mark, with the whole text as its value. -/
def asTag (e : Entry) : Tag := ⟨e.target, false, [e.text]⟩

@[simp] theorem joinedValues_asTag (e : Entry) : e.asTag.joinedValues = e.text :=
  Text.joined_singleton _ _

theorem quote_not_mem_ofTag {tag : Tag} (h : tag.Writable) : '"' ∉ (ofTag tag).text := by
  have hvalues : '"' ∉ tag.joinedValues :=
    Tag.not_mem_joinedValues (by decide) fun v hv => (h.2 v hv).1
  have homit : '"' ∉ (",omitempty" : String).toList := by decide
  rw [text_ofTag, List.mem_append, not_or]
  refine ⟨hvalues, ?_⟩
  cases tag.nullable with
  | true => exact homit
  | false => exact List.not_mem_nil

theorem spells_render {e : Entry} (h : '"' ∉ e.text) : e.render.Spells [e.asTag] := by
  have hmarks : Token.Marks e.asTag.nullable [] := Or.inr ⟨rfl, by simp⟩
  have hspells := Text.spells_tag e.asTag hmarks (by simpa using h)
  simpa [render, asTag, Tag.joinedValues] using hspells

theorem spells_joined {es : List Entry} (h : ∀ e ∈ es, '"' ∉ e.text) :
    Text.Spells (Text.joined " " (es.map render)) (es.map asTag) := by
  induction es with
  | nil => exact Text.spells_padding 0
  | cons e es ih =>
    obtain ⟨he, hes⟩ := List.forall_mem_cons.mp h
    cases es with
    | nil => simpa using spells_render he
    | cons e' es =>
      have hspells := (spells_render he).append ((Text.spells_padding 1).append (ih hes))
      rw [List.map_cons, Text.joined_cons (by simp)]
      simpa using hspells

end Entry

theorem quote_not_mem_entries {tags : List Tag} (h : ∀ tag ∈ tags, tag.Writable)
    (targets : List TagTarget) : ∀ e ∈ entries targets tags, '"' ∉ e.text := by
  intro e he
  rw [entries_eq] at he
  rcases List.mem_append.mp he with he | he
  · obtain ⟨tag, htag, rfl⟩ := List.mem_map.mp he
    exact Entry.quote_not_mem_ofTag (h tag htag)
  · obtain ⟨target, -, rfl⟩ := List.mem_map.mp he
    simp [Entry.missing, Tag.skipKey]

def RawTag.content (raw : RawTag) : Text × Bool × Text := (raw.target, raw.nullable, raw.values)

theorem RawTag.map_content {raws : List RawTag} {tags : List Tag}
    (h : List.Forall₂ RawTag.IsOf raws tags) :
    raws.map RawTag.content =
      tags.map fun tag => (tag.target.text, tag.nullable, tag.joinedValues) := by
  induction h with
  | nil => rfl
  | cons hof _ ih =>
    obtain ⟨htarget, hnullable, hvalues⟩ := hof
    rw [List.map_cons, List.map_cons, ih, content, htarget, hnullable, hvalues]

namespace Entry

def content (e : Entry) : Text × Bool × Text := (e.target.text, false, e.text)

theorem content_injective : Function.Injective content := by
  rintro ⟨target, text⟩ ⟨target', text'⟩ h
  simp only [content, Prod.mk.injEq, true_and] at h
  rw [TagTarget.text_injective h.1, h.2]

theorem scan_joined {es : List Entry} (h : ∀ e ∈ es, '"' ∉ e.text) :
    (TagScan.scan (Text.joined " " (es.map render))).trailing = none ∧
      (TagScan.scan (Text.joined " " (es.map render))).tags.map RawTag.content =
        es.map content := by
  obtain ⟨raws, hscan, hof⟩ := (spells_joined h).scan
  rw [hscan]
  refine ⟨rfl, ?_⟩
  rw [RawTag.map_content hof, List.map_map]
  simp [Function.comp_def, asTag, content, Tag.joinedValues]

end Entry

/-- The text annotates a field of a model for all targets of the model. -/
structure Annotates (m : Model) (f : Field) (text : Text) : Prop where
  /-- There is nothing but tags. -/
  trailing : (TagScan.scan text).trailing = none
  /-- The field's own tags come first, then the other targets with the key of a skipped field. -/
  tags : ∃ others : List TagTarget,
    (TagScan.scan text).tags.map RawTag.content =
      f.tags.map (fun tag => (tag.target.text, false,
        tag.joinedValues ++ if tag.nullable then (",omitempty" : Text) else [])) ++
      others.map (fun target => (target.text, false, ("-" : Text))) ∧
    (∀ target, target ∈ others ↔ target ∈ m.targets ∧ target ∉ f.tags.map Tag.target) ∧
    others.Pairwise fun a b => a.text.bytes < b.text.bytes
  /-- Each target occurs once. -/
  targets : ((TagScan.scan text).tags.map RawTag.target).Perm
    (m.targets.map TagTarget.text)

theorem annotates_renderEntries {m : Model} {f : Field} (h : f.WellFormed) (hf : f ∈ m.fields) :
    Annotates m f (renderEntries m.targets f.tags) := by
  obtain ⟨htrailing, hcontent⟩ := Entry.scan_joined (quote_not_mem_entries h.writable m.targets)
  rw [← renderEntries] at htrailing hcontent
  refine ⟨htrailing, ⟨missingTargets m.targets f.tags, ?_, ?_, ?_⟩, ?_⟩
  · rw [hcontent, entries_eq, List.map_append, List.map_map, List.map_map]
    refine congrArg₂ (· ++ ·) (List.map_congr_left fun tag _ => ?_) rfl
    rw [Function.comp_apply, Entry.content, Entry.text_ofTag]
    rfl
  · intro target
    exact mem_missingTargets
  · exact (m.pairwise_targets.filter _).imp TagTarget.bytes_lt_bytes
  · have htargets : (TagScan.scan (renderEntries m.targets f.tags)).tags.map RawTag.target =
        ((entries m.targets f.tags).map Entry.target).map TagTarget.text := by
      simpa [RawTag.content, Entry.content, Function.comp_def] using
        congrArg (List.map Prod.fst) hcontent
    rw [htargets]
    exact (perm_entries hf h.targets_nodup).map TagTarget.text

namespace Model

/-- The targets of a model are those of its tags, in the order of their bytes. If there
are any, the annotation of each field is complete, and a struct has it between two
backticks; without targets there is no annotation. -/
theorem annotations_complete {strict : Bool} {source : Text} {m : Model} {f : Field}
    (h : read strict source = .ok m) (hf : f ∈ m.fields) :
    (∀ target, target ∈ m.targets ↔ ∃ g ∈ m.fields, target ∈ g.tags.map Tag.target) ∧
      m.targets.Pairwise (fun a b => a.text.bytes < b.text.bytes) ∧
      (m.targets ≠ [] →
        Annotates m f (TypeScript.renderTags m.targets f.tags) ∧
        Go.renderTags m.targets f.tags =
          "\x60" ++ TypeScript.renderTags m.targets f.tags ++ "\x60") ∧
      (m.targets = [] →
        TypeScript.renderTags m.targets f.tags = [] ∧ Go.renderTags m.targets f.tags = []) := by
  have hfield := (wellFormed_of_read h).fields f hf
  refine ⟨fun target => mem_targets, m.pairwise_targets.imp TagTarget.bytes_lt_bytes, ?_, ?_⟩
  · intro hne
    refine ⟨annotates_renderEntries hfield hf, ?_⟩
    rw [Go.renderTags, if_neg (by simpa using hne)]
    rfl
  · intro hnil
    rw [hnil, tags_eq_nil_of_targets_eq_nil hf hnil]
    exact ⟨rfl, rfl⟩

/-- Values with spaces, colons, hyphens and other quotation marks. -/
theorem annotations_complete_mixed :
    let source : Text :=
      "User:\n  id int json?:\"id\" db:\"a b:'-'\"\n  name string? xml:\"-\"\n  age int\n"
    let annotations : List Text :=
      ["\x60json:\"id,omitempty\" db:\"a b:'-'\" xml:\"-\"\x60",
        "\x60xml:\"-\" db:\"-\" json:\"-\"\x60",
        "\x60db:\"-\" json:\"-\" xml:\"-\"\x60"]
    ∃ m, read false source = .ok m ∧
      m.fields.map (fun f => Go.renderTags m.targets f.tags) = annotations ∧
      m.targets ≠ [] ∧
      ∀ f ∈ m.fields, Annotates m f (TypeScript.renderTags m.targets f.tags) := by
  intro source annotations
  have hrun : ((read false source).toOption.map fun m =>
      (m.targets.isEmpty, m.fields.map fun f => Go.renderTags m.targets f.tags)) =
        some (false, annotations) := by
    decide +kernel
  cases hread : read false source with
  | error faults => simp [hread, Except.toOption] at hrun
  | ok m =>
    rw [hread] at hrun
    obtain ⟨hempty, htags⟩ := Prod.mk.inj (Option.some.inj hrun)
    have hne : m.targets ≠ [] := List.isEmpty_eq_false_iff.mp hempty
    refine ⟨m, rfl, htags, hne, ?_⟩
    intro f hf
    obtain ⟨-, -, hannotates, -⟩ := annotations_complete hread hf
    exact (hannotates hne).1

end Model

end ClassSchema
