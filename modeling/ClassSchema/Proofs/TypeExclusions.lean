import ClassSchema.Proofs.TypeNotation

/-!
# Trees that are never read

A mark at the end belongs to the whole expression and brackets behind a map belong to its
value. So no expression is read as a list of maps, and one mark at the end does not reach the
value of a map. A second mark does: it is cut off with the value. Maps with a nullable value
are therefore read from exactly those expressions that have two marks in a row.
-/

namespace ClassSchema

def Text.DoublesMark (t : Text) : Prop := ['?', '?'] <:+: t

instance : DecidablePred Text.DoublesMark := fun t =>
  inferInstanceAs (Decidable (['?', '?'] <:+: t))

namespace Text

variable {s t : Text} {c : Char}

theorem not_doublesMark_of_not_mem (h : '?' ∉ t) : ¬ t.DoublesMark := by
  intro hdouble
  exact h (hdouble.subset List.mem_cons_self)

theorem not_doublesMark_nil : ¬ DoublesMark [] := not_doublesMark_of_not_mem List.not_mem_nil

theorem doublesMark_append_cons (hc : c ≠ '?') :
    (s ++ c :: t).DoublesMark ↔ s.DoublesMark ∨ t.DoublesMark := by
  induction s with
  | nil =>
    have hfirst : ¬ ['?', '?'] <+: c :: t := fun h => hc (List.cons_prefix_cons.mp h).1.symm
    rw [or_iff_right not_doublesMark_nil, List.nil_append, DoublesMark, List.infix_cons_iff,
      or_iff_right hfirst]
    rfl
  | cons d s ih =>
    have hfirst : ['?', '?'] <+: d :: (s ++ c :: t) ↔ ['?', '?'] <+: d :: s := by
      cases s with
      | nil => simp [List.cons_prefix_cons, hc.symm]
      | cons e s => simp [List.cons_prefix_cons]
    rw [List.cons_append, DoublesMark, List.infix_cons_iff, hfirst, DoublesMark,
      List.infix_cons_iff, or_assoc]
    exact or_congr_right ih

theorem doublesMark_concat : (t ++ ['?']).DoublesMark ↔ t.DoublesMark ∨ t.getLast? = some '?' := by
  have hlast : ['?', '?'] <:+ t ++ ['?'] ↔ t.getLast? = some '?' := by
    rw [List.getLast?_eq_some_iff]
    constructor
    · rintro ⟨front, hfront⟩
      refine ⟨front, List.append_cancel_right (?_ : _ ++ ['?'] = _ ++ ['?'])⟩
      simpa using hfront.symm
    · rintro ⟨front, rfl⟩
      exact ⟨front, by simp⟩
  rw [DoublesMark, List.infix_concat_iff, hlast, or_comm]
  rfl

theorem doublesMark_joined {ts : List Text} :
    (joined "," ts).DoublesMark ↔ ∃ t ∈ ts, t.DoublesMark := by
  induction ts with
  | nil =>
    simp [not_doublesMark_nil]
  | cons t ts ih =>
    by_cases hts : ts = []
    · simp [hts]
    · have hcomma : joined "," (t :: ts) = t ++ ',' :: joined "," ts := by
        simp [joined_cons hts]
      rw [hcomma, doublesMark_append_cons (by decide), ih, List.exists_mem_cons_iff]

end Text

namespace FieldType

open Text

variable {t : FieldType}

theorem not_doublesMark_mark (n : Bool) : ¬ (mark n).DoublesMark := by
  cases n <;> decide

theorem doublesMark_append_mark {s : Text} {n : Bool} :
    (s ++ mark n).DoublesMark ↔ s.DoublesMark ∨ (s.getLast? = some '?' ∧ n = true) := by
  cases n with
  | false => simp [mark]
  | true =>
    rw [and_iff_left rfl]
    exact doublesMark_concat

theorem doublesMark_render_list (element : FieldType) (n : Bool) :
    (list element n).render.DoublesMark ↔ element.render.DoublesMark := by
  have hrender : (list element n).render = element.render ++ '[' :: ([] ++ ']' :: mark n) := by
    simp
  rw [hrender, doublesMark_append_cons (by decide), doublesMark_append_cons (by decide)]
  simp [not_doublesMark_nil, not_doublesMark_mark]

theorem doublesMark_render_map (key value : FieldType) (n : Bool) :
    (map key value n).render.DoublesMark ↔
      key.render.DoublesMark ∨ value.render.DoublesMark ∨
        (value.render.getLast? = some '?' ∧ n = true) := by
  have hrender : (map key value n).render =
      "map" ++ '[' :: (key.render ++ ']' :: (value.render ++ mark n)) := by
    simp
  have hname : ¬ DoublesMark ("map" : String).toList := by decide
  rw [hrender, doublesMark_append_cons (by decide), doublesMark_append_cons (by decide),
    or_iff_right hname, doublesMark_append_mark]

theorem doublesMark_render_custom (name : TypeName) (ps : List FieldType) (n : Bool) :
    (custom name ps n).render.DoublesMark ↔ ∃ p ∈ ps, p.render.DoublesMark := by
  have hmark : '?' ∉ name.text := name.not_mem_text (by decide)
  have hname : ¬ name.text.DoublesMark := not_doublesMark_of_not_mem hmark
  by_cases hps : ps = []
  · subst hps
    have hlast : name.text.getLast? ≠ some '?' := fun h => hmark (List.mem_of_getLast? h)
    rw [render_custom_nil, doublesMark_append_mark]
    simp [hname, hlast]
  · have hrender : (custom name ps n).render =
        name.text ++ '[' :: (joined "," (ps.map render) ++ ']' :: mark n) := by
      simp [render_custom hps]
    rw [hrender, doublesMark_append_cons (by decide), doublesMark_append_cons (by decide),
      or_iff_right hname, or_iff_left (not_doublesMark_mark n), doublesMark_joined]
    simp

theorem Expressible.getLast?_render_iff (h : t.Expressible) :
    t.render.getLast? = some '?' ↔ t.nullable = true := by
  constructor
  · intro hlast
    by_contra hn
    exact h.getLast?_render (by simpa using hn) hlast
  · intro hn
    have hmark : t.render = (t.withNullable false).render ++ ['?'] := by
      rw [← withNullable_nullable t, hn, render_withNullable]
      simp [mark]
    rw [hmark, List.getLast?_concat]

def HasNullableValue (t : FieldType) : Prop :=
  ∃ key value n, map key value n ∈ t.nodes ∧ value.nullable = true

theorem hasNullableValue_primitive (kind : Primitive) (n : Bool) :
    ¬ (primitive kind n).HasNullableValue := by
  simp [HasNullableValue, nodes]

theorem hasNullableValue_list {element : FieldType} {n : Bool} :
    (list element n).HasNullableValue ↔ element.HasNullableValue := by
  simp [HasNullableValue, nodes]

theorem hasNullableValue_map {key value : FieldType} {n : Bool} :
    (map key value n).HasNullableValue ↔
      key.HasNullableValue ∨ value.HasNullableValue ∨ value.nullable = true := by
  constructor
  · rintro ⟨k, v, m, hmem, hnullable⟩
    rw [nodes, List.mem_cons, List.mem_append] at hmem
    rcases hmem with heq | hmem | hmem
    · cases heq
      exact .inr (.inr hnullable)
    · exact .inl ⟨k, v, m, hmem, hnullable⟩
    · exact .inr (.inl ⟨k, v, m, hmem, hnullable⟩)
  · rintro (⟨k, v, m, hmem, hnullable⟩ | ⟨k, v, m, hmem, hnullable⟩ | hnullable)
    · exact ⟨k, v, m, List.mem_cons_of_mem _ (List.mem_append_left _ hmem), hnullable⟩
    · exact ⟨k, v, m, List.mem_cons_of_mem _ (List.mem_append_right _ hmem), hnullable⟩
    · exact ⟨key, value, n, List.mem_cons_self, hnullable⟩

theorem hasNullableValue_custom {name : TypeName} {ps : List FieldType} {n : Bool} :
    (custom name ps n).HasNullableValue ↔ ∃ p ∈ ps, p.HasNullableValue := by
  have hnodes : (custom name ps n).nodes = custom name ps n :: ps.flatMap nodes := by
    rw [nodes, nodesAll_eq]
  constructor
  · rintro ⟨k, v, m, hmem, hnullable⟩
    rw [hnodes, List.mem_cons] at hmem
    rcases hmem with heq | hmem
    · cases heq
    · obtain ⟨p, hp, hmem⟩ := List.mem_flatMap.mp hmem
      exact ⟨p, hp, k, v, m, hmem, hnullable⟩
  · rintro ⟨p, hp, k, v, m, hmem, hnullable⟩
    refine ⟨k, v, m, ?_, hnullable⟩
    rw [hnodes]
    exact List.mem_cons_of_mem _ (List.mem_flatMap.mpr ⟨p, hp, hmem⟩)

/-- The marks of a node and of one below it meet only in a map with a nullable value. -/
theorem Expressible.doublesMark_render_iff (h : t.Expressible) :
    t.render.DoublesMark ↔ t.HasNullableValue := by
  induction t with
  | primitive kind n =>
    have hkeyword : ¬ (primitive kind n).render.DoublesMark := by
      cases kind <;> cases n <;> decide
    exact iff_of_false hkeyword (hasNullableValue_primitive kind n)
  | list element n ih =>
    rw [doublesMark_render_list, hasNullableValue_list]
    exact ih (expressible_list.mp h).2
  | map key value n ihk ihv =>
    obtain ⟨hplaced, hkey, hvalue⟩ := expressible_map.mp h
    -- Only a nullable map may have a nullable value, so the second mark is there.
    have hend : value.render.getLast? = some '?' ∧ n = true ↔ value.nullable = true := by
      rw [hvalue.getLast?_render_iff]
      exact and_iff_left_of_imp hplaced
    rw [doublesMark_render_map, hasNullableValue_map, hend]
    exact or_congr (ihk hkey) (or_congr_left (ihv hvalue))
  | custom name ps n ih =>
    obtain ⟨-, hps⟩ := expressible_custom.mp h
    rw [doublesMark_render_custom, hasNullableValue_custom]
    exact exists_congr fun p => and_congr_right fun hp => ih p hp (hps p hp)

theorem Expressible.list_map_not_mem (h : t.Expressible) (key value : FieldType) (n m : Bool) :
    list (map key value n) m ∉ t.nodes := by
  intro hmem
  have hplaced : ¬ (map key value n).StartsMap := h _ hmem
  exact hplaced trivial

end FieldType

/-- A type that is read has no list of maps, and it has a map with a nullable value exactly if
two marks follow each other in its expression, white space aside. -/
theorem readType_excludes_iff {text : Text} {t : FieldType} (h : readType text = .ok t) :
    (∀ key value n m, .list (.map key value n) m ∉ t.nodes) ∧
      ((∀ key value n, .map key value n ∈ t.nodes → value.nullable = false) ↔
        ¬ (Text.withoutBlanks text).DoublesMark) := by
  obtain ⟨hrender, -, hexpr⟩ := FieldType.read_eq_ok_iff.mp (mapError_eq_ok_iff.mp h)
  refine ⟨hexpr.list_map_not_mem, ?_⟩
  rw [← hrender, hexpr.doublesMark_render_iff, FieldType.HasNullableValue]
  push Not
  simp only [ne_eq, Bool.not_eq_true]

/-- Nested maps and lists with single marks, written with white space. -/
theorem readType_excludes_iff_nested :
    let text : Text := "map[Pair[int?,string[]]] map[long]bool?[]?"
    ∃ t, readType text = .ok t ∧ t.height = 3 ∧ ¬ (Text.withoutBlanks text).DoublesMark ∧
      (∀ key value n m, .list (.map key value n) m ∉ t.nodes) ∧
      ∀ key value n, .map key value n ∈ t.nodes → value.nullable = false := by
  intro text
  have hread : (readType text).toOption.map FieldType.height = some 3 := by decide +kernel
  have hmarks : ¬ (Text.withoutBlanks text).DoublesMark := by decide +kernel
  obtain ⟨t, ht, hheight⟩ := Option.map_eq_some_iff.mp hread
  have hok := toOption_eq_some_iff.mp ht
  obtain ⟨hlists, hmaps⟩ := readType_excludes_iff hok
  exact ⟨t, hok, hheight, hmarks, hlists, hmaps.mpr hmarks⟩

/-- Of two marks at the end, the last one belongs to the map and the other one to its value. -/
theorem readType_map_doubled_mark :
    let text : Text := "map[string]int??"
    let value : FieldType := .primitive .integer true
    let t : FieldType := .map (.primitive .string false) value true
    readType text = .ok t ∧ t ∈ t.nodes ∧ value.nullable = true := by
  intro text value t
  have hread : (readType text).toOption = some t := by decide +kernel
  exact ⟨toOption_eq_some_iff.mp hread, List.mem_cons_self, rfl⟩

end ClassSchema
