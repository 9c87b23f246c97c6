import ClassSchema.Proofs.LineFaults
import ClassSchema.Proofs.WellFormed

/-!
# Words and fields

A line can be taken apart into words without regard to what they mean, or read as
a field. Both start from the same two words and the same tags, but the field has
a type tree for its second word and lists of values for its tags. Writing these down
again gives the words back.
-/

namespace ClassSchema

theorem render_of_readType_word {word : Text} {t : FieldType} (hword : isBareWord word = true)
    (h : readType word = .ok t) : t.render = word := by
  obtain ⟨hrender, -, -⟩ := FieldType.read_eq_ok_iff.mp (mapError_eq_ok_iff.mp h)
  obtain ⟨-, hblank⟩ := isBareWord_iff.mp hword
  rw [hrender]
  exact List.filter_eq_self.mpr fun c hc => by simp [hblank c hc]

theorem flatMap_of_isOf {raws : List RawTag} {tags : List Tag}
    (h : List.Forall₂ RawTag.IsOf raws tags) :
    (raws.flatMap fun raw => [raw.target, raw.values]) =
      tags.flatMap fun tag => [tag.target.text, tag.joinedValues] := by
  induction h with
  | nil => rfl
  | cons hof _ ih =>
    obtain ⟨htarget, -, hvalues⟩ := hof
    rw [List.flatMap_cons, List.flatMap_cons, ih, htarget, hvalues]

section Line

variable {strict : Bool} {line : Text}

theorem fieldTokens_of_read {f : Field} (h : Field.read strict line = .ok f) :
    fieldTokens line = f.name.text :: f.type.render ::
      f.tags.flatMap fun tag => [tag.target.text, tag.joinedValues] := by
  obtain ⟨parts, hsplit, hname, htype, -, htags, -⟩ := Field.read_eq_ok_iff.mp h
  obtain ⟨gap, gap', hsplits⟩ := FieldLine.split?_eq_some_iff.mp hsplit
  unfold fieldTokens
  rw [hsplit]
  dsimp only
  rw [hname, render_of_readType_word hsplits.type_word htype, flatMap_of_isOf htags]

theorem FieldLine.split?_eq_none_iff :
    FieldLine.split? line = none ↔ (Text.words line).length < 2 := by
  unfold FieldLine.split?
  cases hname : Text.nextWord? line with
  | none => simp [Text.words_of_nextWord?_eq_none hname]
  | some name =>
    rw [Text.words_of_nextWord?_eq_some hname]
    cases htype : Text.nextWord? name.rest with
    | none => simp [htype, Text.words_of_nextWord?_eq_none htype]
    | some type => simp [htype, Text.words_of_nextWord?_eq_some htype]

theorem length_fieldTokens_lt_two_iff :
    (fieldTokens line).length < 2 ↔ FieldLine.split? line = none := by
  unfold fieldTokens
  cases hsplit : FieldLine.split? line with
  | none => simpa using FieldLine.split?_eq_none_iff.mp hsplit
  | some parts => simp

theorem exists_read_eq_malformedField_iff :
    (∃ text span, Field.read strict line = .error (.malformedField text span)) ↔
      FieldLine.split? line = none := by
  constructor
  · rintro ⟨text, span, h⟩
    cases Field.read_fails h
    assumption
  · intro hsplit
    have hshort : Field.read strict line = .error (FieldLine.tooShort line) := by
      unfold Field.read FieldReading.ofLine
      rw [hsplit]
    exact ⟨_, _, hshort⟩

end Line

/-- The words of a line agree with the field that is read from it: they are its name, its type as
it is written, and the target and the joined values of each tag in turn. A line is malformed
exactly if there are fewer than two words. -/
theorem fieldTokens_agree_with_read (strict : Bool) (line : Text) :
    (∀ f, Field.read strict line = .ok f →
      fieldTokens line = f.name.text :: f.type.render ::
        f.tags.flatMap fun tag => [tag.target.text, tag.joinedValues]) ∧
    ((∃ text span, Field.read strict line = .error (.malformedField text span)) ↔
      (fieldTokens line).length < 2) :=
  ⟨fun _ => fieldTokens_of_read, by
    rw [exists_read_eq_malformedField_iff, length_fieldTokens_lt_two_iff]⟩

/-- Marks and fillers are no words, and a list of values is one; a line with a single word is
malformed. -/
theorem fieldTokens_agree_with_read_user :
    let line : Text := "  name  Map[string?,int[]]?  json?:\"name,,omit\" - xml :\"Name,attr\" rest"
    (∃ f, Field.read false line = .ok f ∧ f.tags.length = 2 ∧
      (f.name.text :: f.type.render ::
        f.tags.flatMap fun tag => [tag.target.text, tag.joinedValues]) =
        ["name", "Map[string?,int[]]?", "json", "name,,omit", "xml", "Name,attr"].map
          String.toList) ∧
    ∃ text span, Field.read false " name " = .error (.malformedField text span) := by
  intro line
  have htokens : fieldTokens line =
      ["name", "Map[string?,int[]]?", "json", "name,,omit", "xml", "Name,attr"].map
        String.toList := by decide +kernel
  have hread : (Field.read false line).toOption.map (·.tags.length) = some 2 := by decide +kernel
  obtain ⟨f, hf, hlength⟩ := Option.map_eq_some_iff.mp hread
  have hok := toOption_eq_some_iff.mp hf
  refine ⟨⟨f, hok, hlength, ?_⟩, ?_⟩
  · rw [← (fieldTokens_agree_with_read false line).1 f hok, htokens]
  · exact (fieldTokens_agree_with_read false _).2.mpr (by decide +kernel)

end ClassSchema
