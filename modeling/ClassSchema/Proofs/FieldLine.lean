import ClassSchema.Proofs.TagRegion
import ClassSchema.Proofs.TypeNotation

/-!
# When a field line can be read

Each step of reading a line succeeds under a condition of its own. Together they
give the exact condition for a line to be read as a given field, and with it the
shape of every field that was read.
-/

namespace ClassSchema

def Tag.Listed (tag : Tag) : Prop := tag.values ≠ [] ∧ ∀ v ∈ tag.values, ',' ∉ v

namespace FieldLine

variable {raw : RawTag} {raws : List RawTag} {tag : Tag} {tags : List Tag}

theorem buildTag_eq_ok_iff : buildTag raw = .ok tag ↔ raw.IsOf tag ∧ tag.Listed := by
  unfold buildTag
  rw [bind_eq_ok_iff]
  constructor
  · rintro ⟨target, htarget, hmake⟩
    unfold Tag.make at hmake
    split_ifs at hmake with hempty
    cases hmake
    refine ⟨⟨TagTarget.ofText_eq_ok_iff.mp htarget, rfl, ?_⟩, Text.splitOn_ne_nil _ _, ?_⟩
    · exact (Text.joined_splitOn ',' raw.values).symm
    · intro v hv hcomma
      exact (Text.mem_of_mem_splitOn hv hcomma).2 rfl
  · rintro ⟨⟨htarget, hnullable, hvalues⟩, hne, hcomma⟩
    have hsplit : Text.splitOn ',' raw.values = tag.values := by
      rw [hvalues]
      exact Text.splitOn_joined hne hcomma
    refine ⟨tag.target, TagTarget.ofText_eq_ok_iff.mpr htarget, ?_⟩
    rw [hsplit, hnullable, Tag.make, if_neg (by simpa using hne)]

theorem buildTags_eq_ok_iff {start : ℕ} {seen : List Text} :
    buildTags start seen raws = .ok tags ↔
      List.Forall₂ RawTag.IsOf raws tags ∧ (∀ tag ∈ tags, tag.Listed) ∧
        (tags.map Tag.target).Nodup ∧ ∀ tag ∈ tags, tag.target.text ∉ seen := by
  induction raws generalizing seen tags with
  | nil =>
    cases tags <;> simp [buildTags]
  | cons raw raws ih =>
    unfold buildTags
    constructor
    · intro h
      split_ifs at h with hmem
      obtain ⟨tag, htag, h⟩ := bind_eq_ok_iff.mp h
      obtain ⟨more, hmore, h⟩ := bind_eq_ok_iff.mp h
      cases h
      obtain ⟨hof, hlisted⟩ := buildTag_eq_ok_iff.mp (mapError_eq_ok_iff.mp htag)
      obtain ⟨hofs, hlisteds, hnodup, hfresh⟩ := ih.mp hmore
      simp only [List.mem_cons, not_or] at hfresh
      refine ⟨.cons hof hofs, List.forall_mem_cons.mpr ⟨hlisted, hlisteds⟩, ?_, ?_⟩
      · rw [List.map_cons, List.nodup_cons]
        refine ⟨fun hrepeat => ?_, hnodup⟩
        obtain ⟨other, hother, heq⟩ := List.mem_map.mp hrepeat
        exact (hfresh other hother).1 (by rw [heq, hof.1])
      · refine List.forall_mem_cons.mpr ⟨hof.1 ▸ hmem, fun other hother => (hfresh other hother).2⟩
    · rintro ⟨hof, hlisted, hnodup, hfresh⟩
      cases hof with
      | cons hof hofs =>
        rename_i tag more
        obtain ⟨hlisted, hlisteds⟩ := List.forall_mem_cons.mp hlisted
        obtain ⟨htarget, hnodup⟩ := List.nodup_cons.mp hnodup
        obtain ⟨hseen, hfresh⟩ := List.forall_mem_cons.mp hfresh
        rw [if_neg (hof.1.symm ▸ hseen)]
        refine bind_eq_ok_iff.mpr ⟨tag, mapError_eq_ok_iff.mpr
          (buildTag_eq_ok_iff.mpr ⟨hof, hlisted⟩), bind_eq_ok_iff.mpr ⟨more, ih.mpr ?_, rfl⟩⟩
        refine ⟨hofs, hlisteds, hnodup, fun other hother hmem => ?_⟩
        rcases List.mem_cons.mp hmem with heq | hmem
        · refine htarget (List.mem_map.mpr ⟨other, hother, ?_⟩)
          exact TagTarget.text_injective (heq.trans hof.1)
        · exact hfresh other hother hmem

/-- A line is made of two words and a region, with white space before each word and
the region beginning where the second word ends. -/
structure Splits (line : Text) (parts : FieldLine) (gap gap' : Text) : Prop where
  line_eq : line = gap ++ parts.name ++ (gap' ++ parts.type ++ parts.region)
  gap_blank : ∀ c ∈ gap, Text.isBlank c = true
  gap'_blank : ∀ c ∈ gap', Text.isBlank c = true
  gap'_ne_nil : gap' ≠ []
  name_word : isBareWord parts.name = true
  type_word : isBareWord parts.type = true
  region_starts : parts.region.StartsBlank
  nameStart_eq : parts.nameStart = gap.byteLength
  typeStart_eq : parts.typeStart = parts.nameStart + parts.name.byteLength + gap'.byteLength
  regionStart_eq : parts.regionStart = parts.typeStart + parts.type.byteLength

theorem split?_eq_some_iff {line : Text} {parts : FieldLine} :
    split? line = some parts ↔ ∃ gap gap', Splits line parts gap gap' := by
  constructor
  · intro h
    obtain ⟨first, hfirst, h⟩ := Option.bind_eq_some_iff.mp h
    obtain ⟨second, hsecond, h⟩ := Option.bind_eq_some_iff.mp h
    cases h
    obtain ⟨hline, hgap, hne, hname, hrest⟩ := Text.nextWord?_eq_some_iff.mp hfirst
    obtain ⟨hline', hgap', hne', htype, hregion⟩ := Text.nextWord?_eq_some_iff.mp hsecond
    refine ⟨first.gap, second.gap, ?_, hgap, hgap', ?_, isBareWord_iff.mpr ⟨hne, hname⟩,
      isBareWord_iff.mpr ⟨hne', htype⟩, hregion, rfl, rfl, rfl⟩
    · rw [← hline']
      exact hline
    · intro hnil
      obtain ⟨c, word, hword⟩ := List.exists_cons_of_ne_nil hne'
      have hblank := hrest c (by simp [hline', hnil, hword])
      simp [htype c (by simp [hword])] at hblank
  · rintro ⟨gap, gap', h⟩
    obtain ⟨name, nameStart, type, typeStart, region, regionStart⟩ := parts
    obtain ⟨hline, hgap, hgap', hne, hname, htype, hregion, hstart, hstart', hstart''⟩ := h
    dsimp only at hline hname htype hregion hstart hstart' hstart''
    subst hstart hstart' hstart''
    have hfirst : Text.nextWord? line = some ⟨gap, name, gap' ++ type ++ region⟩ := by
      obtain ⟨hname, hblank⟩ := isBareWord_iff.mp hname
      refine Text.nextWord?_eq_some_iff.mpr ⟨hline, hgap, hname, hblank, ?_⟩
      obtain ⟨c, rest, rfl⟩ := List.exists_cons_of_ne_nil hne
      rintro d hd
      obtain rfl : c = d := by simpa using hd
      exact hgap' c List.mem_cons_self
    have hsecond : Text.nextWord? (gap' ++ type ++ region) = some ⟨gap', type, region⟩ := by
      obtain ⟨htype, hblank⟩ := isBareWord_iff.mp htype
      exact Text.nextWord?_eq_some_iff.mpr ⟨rfl, hgap', htype, hblank, hregion⟩
    simp only [split?, hfirst, hsecond, Option.bind_eq_bind, Option.bind_some]
    rfl

/-- Two words and a region are found behind the white space in front of them. -/
theorem exists_split? {gap name gap' type region : Text} (hgap : ∀ c ∈ gap, Text.isBlank c = true)
    (hgap' : ∀ c ∈ gap', Text.isBlank c = true) (hne : gap' ≠ [])
    (hname : isBareWord name = true) (htype : isBareWord type = true)
    (hregion : region.StartsBlank) :
    ∃ parts, split? (gap ++ name ++ (gap' ++ type ++ region)) = some parts ∧
      parts.name = name ∧ parts.type = type ∧ parts.region = region := by
  let typeStart := gap.byteLength + name.byteLength + gap'.byteLength
  refine ⟨⟨name, gap.byteLength, type, typeStart, region, typeStart + type.byteLength⟩, ?_,
    rfl, rfl, rfl⟩
  exact split?_eq_some_iff.mpr
    ⟨gap, gap', rfl, hgap, hgap', hne, hname, htype, hregion, rfl, rfl, rfl⟩

theorem readHead_eq_ok_iff {parts : FieldLine} {name : FieldName} {type : FieldType} :
    readHead parts = .ok (name, type) ↔
      parts.name = name.text ∧ readType parts.type = .ok type := by
  unfold readHead
  rw [bind_eq_ok_iff]
  simp only [mapError_eq_ok_iff, FieldName.ofText_eq_ok_iff]
  constructor
  · rintro ⟨n, hname, h⟩
    obtain ⟨t, htype, h⟩ := bind_eq_ok_iff.mp h
    cases h
    exact ⟨hname, mapError_eq_ok_iff.mp htype⟩
  · rintro ⟨hname, htype⟩
    exact ⟨name, hname, bind_eq_ok_iff.mpr ⟨type, mapError_eq_ok_iff.mpr htype, rfl⟩⟩

theorem buildField_eq_ok_iff {parts : FieldLine} {line : Text} {name : FieldName}
    {type : FieldType} {f : Field} :
    buildField parts line name type raws = .ok f ↔
      f.name = name ∧ f.type = type ∧ List.Forall₂ RawTag.IsOf raws f.tags ∧
        (∀ tag ∈ f.tags, tag.Listed) ∧ (f.tags.map Tag.target).Nodup := by
  unfold buildField
  rw [bind_eq_ok_iff]
  simp only [mapError_eq_ok_iff, buildTags_eq_ok_iff, Field.make_eq_ok_iff]
  constructor
  · rintro ⟨tags, ⟨hof, hlisted, hnodup, -⟩, rfl, -⟩
    exact ⟨rfl, rfl, hof, hlisted, hnodup⟩
  · rintro ⟨rfl, rfl, hof, hlisted, hnodup⟩
    exact ⟨f.tags, ⟨hof, hlisted, hnodup, fun _ _ => List.not_mem_nil⟩, rfl, hnodup⟩

/-- When the parts of a line are read as a field. -/
theorem readParts_eq_ok_iff {strict : Bool} {line : Text} {parts : FieldLine} {f : Field} :
    (parts.readParts strict line).result = .ok f ↔
      parts.name = f.name.text ∧ readType parts.type = .ok f.type ∧
        (strict = true → (TagScan.scan parts.region).trailing = none) ∧
        List.Forall₂ RawTag.IsOf (TagScan.scan parts.region).tags f.tags ∧
        (∀ tag ∈ f.tags, tag.Listed) ∧ (f.tags.map Tag.target).Nodup := by
  unfold readParts
  cases hhead : readHead parts with
  | error fault =>
    constructor
    · intro h
      simp at h
    · rintro ⟨hname, htype, -⟩
      rw [readHead_eq_ok_iff.mpr ⟨hname, htype⟩] at hhead
      simp at hhead
  | ok head =>
    obtain ⟨name, type⟩ := head
    have hnames : (f.name = name ∧ f.type = type) ↔
        parts.name = f.name.text ∧ readType parts.type = .ok f.type := by
      rw [← readHead_eq_ok_iff, hhead]
      simp [eq_comm]
    rw [← and_assoc, ← hnames, and_assoc]
    simp only
    cases (TagScan.scan parts.region).trailing with
    | none => simp [buildField_eq_ok_iff]
    | some trailing => cases strict <;> simp [buildField_eq_ok_iff]

end FieldLine

/-- When a line is read as a field. -/
theorem Field.read_eq_ok_iff {strict : Bool} {line : Text} {f : Field} :
    Field.read strict line = .ok f ↔
      ∃ parts, FieldLine.split? line = some parts ∧ parts.name = f.name.text ∧
        readType parts.type = .ok f.type ∧
        (strict = true → (TagScan.scan parts.region).trailing = none) ∧
        List.Forall₂ RawTag.IsOf (TagScan.scan parts.region).tags f.tags ∧
        (∀ tag ∈ f.tags, tag.Listed) ∧ (f.tags.map Tag.target).Nodup := by
  unfold Field.read FieldReading.ofLine
  cases FieldLine.split? line with
  | none => simp
  | some parts => simp [FieldLine.readParts_eq_ok_iff]

end ClassSchema
