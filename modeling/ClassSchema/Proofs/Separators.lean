import ClassSchema.Proofs.Annotations
import ClassSchema.Proofs.LineFaults
import ClassSchema.Proofs.ShiftedScan

/-!
# What separates the parts of a line

Words are bounded by any white space, but the lexer of tags skips only a few characters.
White space in front of the type of a field therefore does not matter, and neither does
white space in front of its tags as long as the lexer skips it. Any other white space there
ends the scan at once: the tags are ignored, or refused in strict reading.
-/

namespace ClassSchema

section Except

variable {ε δ ζ α β : Type}

theorem mapError_mapError (x : Except ε α) (f : ε → δ) (g : δ → ζ) :
    (x.mapError f).mapError g = x.mapError (g ∘ f) := by
  cases x <;> rfl

theorem mapError_bind (x : Except ε α) (f : α → Except ε β) (g : ε → δ) :
    (x >>= f).mapError g = x.mapError g >>= fun a => (f a).mapError g := by
  cases x <;> rfl

end Except

namespace Fault

/-- The fault without its place. -/
def unplaced : Fault → Fault
  | malformedType part _ => malformedType part ⟨0, 0⟩
  | malformedField line _ => malformedField line ⟨0, 0⟩
  | missingClassName _ => missingClassName ⟨0, 0⟩
  | repeatedTag target _ => repeatedTag target ⟨0, 0⟩
  | trailingText text _ => trailingText text ⟨0, 0⟩
  | violation cause _ => violation cause ⟨0, 0⟩

theorem unplaced_shifted (n : ℕ) (fault : Fault) : (fault.shifted n).unplaced = fault.unplaced := by
  cases fault <;> rfl

theorem eq_trailingText_of_unplaced {fault : Fault} {text : Text} {span : Span}
    (h : fault.unplaced = trailingText text span) : ∃ place, fault = trailingText text place := by
  cases fault with
  | trailingText _ place =>
    cases h
    exact ⟨place, rfl⟩
  | _ => cases h

end Fault

namespace FieldLine

variable {parts parts' : FieldLine} {raws raws' : List RawTag}

theorem readHead_unplaced_congr (hname : parts.name = parts'.name)
    (htype : parts.type = parts'.type) :
    (readHead parts).mapError Fault.unplaced = (readHead parts').mapError Fault.unplaced := by
  have hshift (n : ℕ) : Fault.unplaced ∘ Fault.shifted n = Fault.unplaced :=
    funext (Fault.unplaced_shifted n)
  simp only [readHead, mapError_bind, mapError_mapError, hshift, hname, htype]
  rfl

theorem buildTag_congr {raw raw' : RawTag} (h : raw.content = raw'.content) :
    buildTag raw = buildTag raw' := by
  obtain ⟨htarget, hnullable, hvalues⟩ : raw.target = raw'.target ∧
      raw.nullable = raw'.nullable ∧ raw.values = raw'.values := by
    simpa [RawTag.content] using h
  rw [buildTag, buildTag, htarget, hnullable, hvalues]

theorem buildTags_unplaced_congr (h : raws.map RawTag.content = raws'.map RawTag.content)
    (start start' : ℕ) (seen : List Text) :
    (buildTags start seen raws).mapError Fault.unplaced =
      (buildTags start' seen raws').mapError Fault.unplaced := by
  induction raws generalizing raws' seen with
  | nil =>
    obtain rfl : raws' = [] := List.map_eq_nil_iff.mp h.symm
    rfl
  | cons raw raws ih =>
    obtain ⟨raw', raws', rfl, hraw, hraws⟩ := List.map_eq_cons_iff.mp h.symm
    have htarget : raw.target = raw'.target := congrArg Prod.fst hraw.symm
    rw [buildTags, buildTags, htarget]
    split_ifs with hmem
    · rfl
    · simp only [mapError_bind, mapError_mapError, buildTag_congr hraw.symm, ih hraws.symm]
      rfl

theorem buildField_unplaced_congr (parts parts' : FieldLine)
    (h : raws.map RawTag.content = raws'.map RawTag.content) (line line' : Text)
    (name : FieldName) (type : FieldType) :
    (buildField parts line name type raws).mapError Fault.unplaced =
      (buildField parts' line' name type raws').mapError Fault.unplaced := by
  simp only [buildField, mapError_bind, mapError_mapError,
    buildTags_unplaced_congr h parts.regionStart parts'.regionStart]
  rfl

/-- A reading says the same, apart from places, of lines with the same words, if their
types cannot be read or the same is found in their regions. -/
theorem readParts_unplaced_congr (hname : parts.name = parts'.name)
    (htype : parts.type = parts'.type)
    (hregion : ∀ t, readType parts.type = .ok t →
      (TagScan.scan parts.region).tags.map RawTag.content =
          (TagScan.scan parts'.region).tags.map RawTag.content ∧
        (TagScan.scan parts.region).trailing.map Trailing.text =
          (TagScan.scan parts'.region).trailing.map Trailing.text)
    (strict : Bool) (line line' : Text) :
    (parts.readParts strict line).result.mapError Fault.unplaced =
      (parts'.readParts strict line').result.mapError Fault.unplaced := by
  have hhead := readHead_unplaced_congr hname htype
  unfold readParts
  cases hparts : readHead parts with
  | error fault =>
    cases hparts' : readHead parts' with
    | error fault' =>
      rw [hparts, hparts'] at hhead
      exact congrArg Except.error (Except.error.inj hhead)
    | ok head' =>
      rw [hparts, hparts'] at hhead
      cases hhead
  | ok head =>
    obtain ⟨htags, htrailing⟩ := hregion head.2 (readHead_eq_ok_iff.mp hparts).2
    have hparts' : readHead parts' = .ok head := by
      rw [hparts] at hhead
      exact mapError_eq_ok_iff.mp hhead.symm
    have hbuild := buildField_unplaced_congr parts parts' htags line line' head.1 head.2
    rw [hparts']
    cases hscan : (TagScan.scan parts.region).trailing with
    | none =>
      rw [hscan, Option.map_none, eq_comm, Option.map_eq_none_iff] at htrailing
      simp only [hscan, htrailing]
      exact hbuild
    | some trailing =>
      rw [hscan, Option.map_some, eq_comm] at htrailing
      obtain ⟨trailing', hscan', htext⟩ := Option.map_eq_some_iff.mp htrailing
      simp only [hscan, hscan']
      cases strict with
      | true =>
        exact congrArg (fun text => Except.error (Fault.trailingText text ⟨0, 0⟩)) htext.symm
      | false => exact hbuild

theorem exists_split?_words {name gap type region : Text} (hname : isBareWord name = true)
    (htype : isBareWord type = true) (hne : gap ≠ []) (hgap : ∀ c ∈ gap, Text.isBlank c = true)
    (hregion : region.StartsBlank) :
    ∃ parts, split? (name ++ gap ++ type ++ region) = some parts ∧
      parts.name = name ∧ parts.type = type ∧ parts.region = region := by
  have hfront : ∀ c ∈ ([] : Text), Text.isBlank c = true := List.forall_mem_nil _
  have hsplit := exists_split? hfront hgap hne hname htype hregion
  simpa using hsplit

end FieldLine

theorem Text.length_trimEnd_le_of_suffix {s t : Text} (h : s <:+ t) :
    (Text.trimEnd s).length ≤ (Text.trimEnd t).length := by
  obtain ⟨front, rfl⟩ := h
  rw [Text.trimEnd_append]
  split_ifs with hnil
  · simp [hnil]
  · simp

namespace TagScan

theorem scan_of_not_gap {gaps : Text} {c : Char} (hgaps : ∀ d ∈ gaps, Token.isGap d = true)
    (hblank : Text.isBlank c = true) (hgap : Token.isGap c = false) (t : Text) :
    ∃ span, scan (gaps ++ c :: t) = ⟨[], some ⟨Text.trimEnd (c :: t), span⟩⟩ := by
  have hscan : scan (c :: t) = ⟨[], some (trailingFrom (c :: t) 0)⟩ := by
    rw [scan, Token.lex, Token.lexFrom, Token.step, Token.enter_of_not_gap hblank hgap]
    rfl
  rw [scan_gaps_append hgaps, hscan]
  exact ⟨_, rfl⟩

theorem scan_gaps_append_content {gaps : Text} (h : ∀ c ∈ gaps, Token.isGap c = true)
    (region : Text) :
    (scan (gaps ++ region)).tags.map RawTag.content = (scan region).tags.map RawTag.content ∧
      (scan (gaps ++ region)).trailing.map Trailing.text =
        (scan region).trailing.map Trailing.text := by
  rw [scan_gaps_append h, List.map_map, Option.map_map]
  exact ⟨rfl, rfl⟩

theorem length_trailing_le {region : Text} {trailing : Trailing}
    (h : (scan region).trailing = some trailing) :
    trailing.text.length ≤ (Text.trimEnd region).length := by
  obtain ⟨token, -, rfl⟩ := Option.map_eq_some_iff.mp h
  exact Text.length_trimEnd_le_of_suffix (Text.dropBytes_suffix token.start region)

end TagScan

theorem Text.exists_not_gap {w : Text} (h : ¬ ∀ c ∈ w, Token.isGap c = true) :
    ∃ gaps c more, w = gaps ++ c :: more ∧ (∀ d ∈ gaps, Token.isGap d = true) ∧
      Token.isGap c = false := by
  cases hdrop : w.dropWhile Token.isGap with
  | nil => exact absurd (List.dropWhile_eq_nil_iff.mp hdrop) h
  | cons c more =>
    refine ⟨w.takeWhile Token.isGap, c, more, ?_, fun d hd => List.mem_takeWhile_imp hd, ?_⟩
    · rw [← hdrop, List.takeWhile_append_dropWhile]
    · have hhead := List.head?_dropWhile_not Token.isGap w
      rw [hdrop] at hhead
      simpa using hhead

theorem Text.startsBlank_append_of_ne_nil {w : Text} (t : Text) (hne : w ≠ [])
    (hw : ∀ c ∈ w, Text.isBlank c = true) : (w ++ t).StartsBlank := by
  intro c hc
  rw [List.head?_append_of_ne_nil _ hne] at hc
  exact hw c (List.mem_of_mem_head? hc)

namespace Field

variable {name type w w' r : Text} {strict : Bool}

/-- Behind white space that the lexer does not skip, the tags of a line are ignored, or
refused in strict reading. -/
theorem read_of_not_gap {gaps region : Text} {c : Char} {parts : FieldLine} {line : Text}
    {name : FieldName} {t : FieldType} (hsplit : FieldLine.split? line = some parts)
    (hname : parts.name = name.text) (htype : readType parts.type = .ok t)
    (hregion : parts.region = gaps ++ c :: region) (hgaps : ∀ d ∈ gaps, Token.isGap d = true)
    (hblank : Text.isBlank c = true) (hgap : Token.isGap c = false) (strict : Bool) :
    (Field.read strict line).mapError Fault.unplaced =
      if strict then .error (.trailingText (Text.trimEnd (c :: region)) ⟨0, 0⟩)
      else .ok ⟨name, t, []⟩ := by
  obtain ⟨span, hscan⟩ := TagScan.scan_of_not_gap hgaps hblank hgap region
  have hhead := FieldLine.readHead_eq_ok_iff.mpr ⟨hname, htype⟩
  rw [Field.read_of_split? hsplit, FieldLine.readParts, hhead, hregion, hscan]
  cases strict <;> rfl

/-- No trailing text of a region is as long as the region with something in front of it. -/
theorem trailing_ne_of_append {front : Text} {trailing : Trailing} (hfront : front ≠ [])
    (hr : ∀ c ∈ r.head?, Text.isBlank c = false)
    (h : (TagScan.scan r).trailing = some trailing) :
    trailing.text ≠ Text.trimEnd (front ++ r) := by
  have hne : Text.trimEnd r ≠ [] := by
    cases r with
    | nil => cases h
    | cons d r =>
      intro hnil
      have hd := List.rdropWhile_eq_nil_iff.mp hnil d List.mem_cons_self
      rw [hr d rfl] at hd
      cases hd
  have hle := TagScan.length_trailing_le h
  have hpos := List.length_pos_iff.mpr hfront
  intro heq
  rw [heq, Text.trimEnd_append, if_neg hne, List.length_append] at hle
  omega

/-- Strict reading does not complain about the tags together with something in front. -/
theorem read_strict_ne_trailingText {gaps front : Text} {parts : FieldLine} {line : Text}
    (hsplit : FieldLine.split? line = some parts) (hregion : parts.region = gaps ++ r)
    (hgaps : ∀ c ∈ gaps, Token.isGap c = true) (hfront : front ≠ [])
    (hr : ∀ c ∈ r.head?, Text.isBlank c = false) (span : Span) :
    Field.read true line ≠ .error (.trailingText (Text.trimEnd (front ++ r)) span) := by
  intro h
  have hfails := Field.read_fails h
  generalize hfault : Fault.trailingText (Text.trimEnd (front ++ r)) span = fault at hfails
  cases hfails with
  | tooShort => cases hfault
  | malformedType => cases hfault
  | repeatedTag => cases hfault
  | trailingText hsplit' htrailing =>
    obtain rfl := Option.some.inj (hsplit.symm.trans hsplit')
    rw [hregion, TagScan.scan_gaps_append hgaps] at htrailing
    obtain ⟨trailing, hscan, rfl⟩ := Option.map_eq_some_iff.mp htrailing
    exact trailing_ne_of_append hfront hr hscan (Fault.trailingText.inj hfault).1.symm

theorem read_eq_ok_nil_iff {gaps : Text} {parts : FieldLine} {line : Text} {name : FieldName}
    {t : FieldType} (hsplit : FieldLine.split? line = some parts) (hname : parts.name = name.text)
    (htype : readType parts.type = .ok t) (hregion : parts.region = gaps ++ r)
    (hgaps : ∀ c ∈ gaps, Token.isGap c = true) :
    Field.read false line = .ok ⟨name, t, []⟩ ↔ (TagScan.scan r).tags = [] := by
  rw [read_of_split? hsplit, FieldLine.readParts_eq_ok_iff, hregion,
    TagScan.scan_gaps_append hgaps]
  simp [hname, htype]

/-- Two lines that differ in the white space in front of the type and of the tags, one of
them with single spaces, are read alike exactly if the lexer skips the white space in front
of the tags, the type cannot be read, or there are no tags to be ignored. -/
theorem read_eq_read_spaced_iff (hname : isBareWord name = true) (htype : isBareWord type = true)
    (hne : w ≠ []) (hw : ∀ c ∈ w, Text.isBlank c = true)
    (hne' : w' ≠ []) (hw' : ∀ c ∈ w', Text.isBlank c = true)
    (hr : ∀ c ∈ r.head?, Text.isBlank c = false) :
    (Field.read strict (name ++ w ++ type ++ w' ++ r)).mapError Fault.unplaced =
        (Field.read strict (name ++ " " ++ type ++ " " ++ r)).mapError Fault.unplaced ↔
      (∀ c ∈ w', Token.isGap c = true) ∨ (∃ fault, readType type = .error fault) ∨
        (strict = false ∧ (TagScan.scan r).tags = []) := by
  have hspace : ∀ c ∈ (" " : String).toList, Token.isGap c = true := List.all_eq_true.mp (by decide)
  have hspace' := fun c hc => Token.isBlank_of_isGap (hspace c hc)
  obtain ⟨parts, hsplit, hparts, hparts', hregion⟩ :=
    FieldLine.exists_split?_words hname htype hne hw (Text.startsBlank_append_of_ne_nil r hne' hw')
  obtain ⟨other, hsplit', hother, hother', hregion'⟩ :=
    FieldLine.exists_split?_words hname htype (by decide) hspace'
      (Text.startsBlank_append_of_ne_nil r (by decide) hspace')
  rw [← List.append_assoc] at hsplit hsplit'
  by_cases hgaps : ∀ c ∈ w', Token.isGap c = true
  · refine iff_of_true ?_ (.inl hgaps)
    obtain ⟨htags, htrailing⟩ := TagScan.scan_gaps_append_content hgaps r
    obtain ⟨htags', htrailing'⟩ := TagScan.scan_gaps_append_content hspace r
    rw [read_of_split? hsplit, read_of_split? hsplit']
    refine FieldLine.readParts_unplaced_congr (hparts.trans hother.symm)
      (hparts'.trans hother'.symm) (fun t _ => ?_) strict _ _
    rw [hregion, hregion', htags, htags', htrailing, htrailing']
    exact ⟨rfl, rfl⟩
  cases hread : readType type with
  | error fault =>
    refine iff_of_true ?_ (.inr (.inl ⟨fault, rfl⟩))
    rw [read_of_split? hsplit, read_of_split? hsplit']
    refine FieldLine.readParts_unplaced_congr (hparts.trans hother.symm)
      (hparts'.trans hother'.symm) (fun t ht => ?_) strict _ _
    rw [hparts', hread] at ht
    cases ht
  | ok t =>
    obtain ⟨gaps, c, more, rfl, hgaps', hgap⟩ := Text.exists_not_gap hgaps
    let field : FieldName := ⟨name, hname⟩
    have hfield : parts.name = field.text := hparts
    have hfield' : other.name = field.text := hother
    have hread' : readType parts.type = .ok t := by rw [hparts', hread]
    have hread'' : readType other.type = .ok t := by rw [hother', hread]
    have hregion'' : parts.region = gaps ++ c :: (more ++ r) := by simp [hregion]
    rw [or_iff_right hgaps, or_iff_right (by simp),
      read_of_not_gap hsplit hfield hread' hregion'' hgaps' (hw' c (by simp)) hgap]
    cases strict with
    | true =>
      refine iff_of_false (fun heq => ?_) (by simp)
      obtain ⟨fault, hfault, hunplaced⟩ := mapError_eq_error_iff.mp heq.symm
      obtain ⟨span, rfl⟩ := Fault.eq_trailingText_of_unplaced hunplaced
      exact read_strict_ne_trailingText hsplit' hregion' hspace (List.cons_ne_nil c more) hr
        span hfault
    | false =>
      rw [if_neg Bool.false_ne_true, eq_comm, mapError_eq_ok_iff,
        read_eq_ok_nil_iff hsplit' hfield' hread'' hregion' hspace]
      simp

/-- Wide white space in front of the type and a tab in front of a tag with trailing text. -/
theorem read_eq_read_spaced_iff_skipped :
    let name : Text := "id"
    let type : Text := "int?"
    let w : Text := "\u3000\u00a0"
    let w' : Text := "\t \x0c"
    let r : Text := "json?:\"a,b\" oops"
    (∀ c ∈ w', Token.isGap c = true) ∧
      (Field.read true (name ++ w ++ type ++ w' ++ r)).mapError Fault.unplaced =
        (Field.read true (name ++ " " ++ type ++ " " ++ r)).mapError Fault.unplaced ∧
      (Field.read true (name ++ w ++ type ++ w' ++ r)).mapError Fault.unplaced =
        .error (.trailingText "oops" ⟨0, 0⟩) := by
  intro name type w w' r
  have hgaps : ∀ c ∈ w', Token.isGap c = true := List.all_eq_true.mp (by decide)
  have hblank : ∀ c ∈ w, Text.isBlank c = true := List.all_eq_true.mp (by decide)
  have hblank' : ∀ c ∈ w', Text.isBlank c = true := List.all_eq_true.mp (by decide)
  have hword : ∀ c ∈ r.head?, Text.isBlank c = false := by
    intro c hc
    have hhead : some 'j' = some c := hc
    rw [← Option.some.inj hhead]
    decide
  refine ⟨hgaps, ?_, by decide +kernel⟩
  exact (read_eq_read_spaced_iff (by decide) (by decide) (by decide) hblank (by decide) hblank'
    hword).mpr (.inl hgaps)

/-- A no-break space in front of a tag: the field has no tags, with a single space it has
one. -/
theorem read_no_break_space_ne :
    let line : Text := "id int\u00a0json:\"id\""
    let spaced : Text := "id int json:\"id\""
    let id : FieldName := ⟨"id", rfl⟩
    let tag : Tag := ⟨⟨"json", rfl⟩, false, ["id"]⟩
    Field.read false line = .ok ⟨id, .primitive .integer false, []⟩ ∧
      Field.read false spaced = .ok ⟨id, .primitive .integer false, [tag]⟩ ∧
      (Field.read false line).mapError Fault.unplaced ≠
        (Field.read false spaced).mapError Fault.unplaced := by
  intro line spaced id tag
  have hline : Field.read false line = .ok ⟨id, .primitive .integer false, []⟩ := by
    decide +kernel
  have hspaced : Field.read false spaced = .ok ⟨id, .primitive .integer false, [tag]⟩ := by
    decide +kernel
  refine ⟨hline, hspaced, ?_⟩
  rw [hline, hspaced]
  decide +kernel

end Field

end ClassSchema
