import ClassSchema.Proofs.TypeTree
import ClassSchema.Source.Line

/-!
# Reading types is the inverse of rendering them

Each function of the reader gets one lemma that says exactly when it succeeds
and with what. The main lemma, by induction on the levels that are left, is that
an expression is read as a tree exactly when it is the notation of that tree,
the tree fits in the levels, and it is expressible.
-/

namespace ClassSchema

section Results

variable {ε δ α β : Type}

theorem bind_eq_ok_iff {x : Except ε α} {f : α → Except ε β} {b : β} :
    (x >>= f) = .ok b ↔ ∃ a, x = .ok a ∧ f a = .ok b := by
  cases x with
  | error e => simp [bind, Except.bind]
  | ok a => simp [bind, Except.bind]

theorem mapError_eq_ok_iff {x : Except ε α} {f : ε → δ} {a : α} :
    x.mapError f = .ok a ↔ x = .ok a := by
  cases x <;> simp [Except.mapError]

theorem toOption_eq_some_iff {x : Except ε α} {a : α} : x.toOption = some a ↔ x = .ok a := by
  cases x <;> simp [Except.toOption]

theorem mapM_eq_ok_iff {f : α → Except ε β} {as : List α} {bs : List β} :
    as.mapM f = .ok bs ↔ List.Forall₂ (fun a b => f a = .ok b) as bs := by
  induction as generalizing bs with
  | nil =>
    rw [List.mapM_nil, List.forall₂_nil_left_iff]
    exact ⟨fun h => by cases h; rfl, fun h => by rw [h]; rfl⟩
  | cons a as ih =>
    rw [List.mapM_cons, bind_eq_ok_iff, List.forall₂_cons_left_iff]
    constructor
    · rintro ⟨b, hb, h⟩
      obtain ⟨more, hmore, h⟩ := bind_eq_ok_iff.mp h
      cases h
      exact ⟨b, more, hb, ih.mp hmore, rfl⟩
    · rintro ⟨b, more, hb, hmore, rfl⟩
      exact ⟨b, hb, bind_eq_ok_iff.mpr ⟨more, ih.mpr hmore, rfl⟩⟩

end Results

namespace FieldType

variable {inner : Text → Except MalformedType FieldType} {t body rest : Text} {u : FieldType}

theorem cutMark_eq_iff {n : Bool} :
    cutMark t = (body, n) ↔ t = body ++ mark n ∧ (n = false → t.getLast? ≠ some '?') := by
  unfold cutMark
  split
  · next s h =>
    have ht := Text.withoutEnding?_eq_some_iff.mp h
    subst ht
    cases n <;> simp [mark]
  · next h =>
    have ht : t.getLast? ≠ some '?' := by
      rw [Ne, ← Text.singleton_suffix_iff]
      exact Text.withoutEnding?_eq_none_iff.mp h
    cases n with
    | false => simp [mark, ht]
    | true =>
      constructor
      · intro h
        simp at h
      · rintro ⟨rfl, -⟩
        simp [mark] at ht

theorem readName_eq_ok_iff :
    readName body = .ok u ↔
      (∃ p : Primitive, body = p.keyword ∧ u = primitive p false) ∨
        ∃ name : TypeName, body = name.text ∧ (custom name [] false).WellPlaced ∧
          u = custom name [] false := by
  unfold readName
  cases hk : Primitive.ofKeyword? body with
  | some p =>
    obtain rfl := Primitive.ofKeyword?_eq_some_iff.mp hk
    constructor
    · intro h
      cases h
      exact Or.inl ⟨p, rfl, rfl⟩
    · rintro (⟨q, hq, rfl⟩ | ⟨name, hname, hplaced, -⟩)
      · rw [Primitive.keyword_injective hq]
      · exact absurd (hname ▸ p.keyword_mem) hplaced
  | none =>
    have hbody := Primitive.ofKeyword?_eq_none_iff.mp hk
    constructor
    · intro h
      cases hname : TypeName.ofText body with
      | error e => simp [hname] at h
      | ok name =>
        obtain rfl := TypeName.ofText_eq_ok_iff.mp hname
        simp only [hname] at h
        cases h
        exact Or.inr ⟨name, rfl, hbody, rfl⟩
    · rintro (⟨q, rfl, -⟩ | ⟨name, rfl, -, rfl⟩)
      · exact absurd q.keyword_mem hbody
      · simp

theorem readMap_eq_ok_iff :
    readMap inner body rest = .ok u ↔
      ∃ key value k v, rest = key ++ ']' :: value ∧ Brackets.Balanced key ∧ key ≠ [] ∧
        value ≠ [] ∧ inner key = .ok k ∧ inner value = .ok v ∧ u = map k v false := by
  unfold readMap
  constructor
  · intro h
    cases hcut : Brackets.cut? rest with
    | none => simp [hcut] at h
    | some cut =>
      obtain ⟨key, value⟩ := cut
      obtain ⟨hrest, hkey⟩ := Brackets.cut?_eq_some_iff.mp hcut
      simp only [hcut, List.isEmpty_iff] at h
      split_ifs at h with hk hv
      obtain ⟨k, hk', h⟩ := bind_eq_ok_iff.mp h
      obtain ⟨v, hv', h⟩ := bind_eq_ok_iff.mp h
      cases h
      exact ⟨key, value, k, v, hrest, hkey, hk, hv, hk', hv', rfl⟩
  · rintro ⟨key, value, k, v, hrest, hkey, hk, hv, hk', hv', rfl⟩
    have hcut := Brackets.cut?_eq_some_iff.mpr ⟨hrest, hkey⟩
    simp only [hcut, List.isEmpty_iff, if_neg hk, if_neg hv]
    exact bind_eq_ok_iff.mpr ⟨k, hk', bind_eq_ok_iff.mpr ⟨v, hv', rfl⟩⟩

theorem readParameters_eq_ok_iff {pieces : List Text} {ps : List FieldType} :
    readParameters inner body pieces = .ok ps ↔
      List.Forall₂ (fun piece p => piece ≠ [] ∧ inner piece = .ok p) pieces ps := by
  induction pieces generalizing ps with
  | nil => simp [readParameters, eq_comm]
  | cons piece pieces ih =>
    rw [List.forall₂_cons_left_iff]
    unfold readParameters
    split_ifs with hempty
    · simp_all
    · simp only [bind_eq_ok_iff, ih]
      constructor
      · rintro ⟨p, hp, qs, hqs, h⟩
        cases h
        exact ⟨p, qs, ⟨by simpa using hempty, hp⟩, hqs, rfl⟩
      · rintro ⟨p, qs, ⟨-, hp⟩, hqs, rfl⟩
        exact ⟨p, hp, qs, hqs, rfl⟩

theorem readCustom_eq_ok_iff {name : Text} :
    readCustom inner body name rest = .ok u ↔
      ∃ (n : TypeName) (parameters : Text) (ps : List FieldType), name = n.text ∧
        rest = parameters ++ [']'] ∧ Brackets.Balanced parameters ∧ parameters ≠ [] ∧
        List.Forall₂ (fun piece p => piece ≠ [] ∧ inner piece = .ok p)
          (Brackets.pieces parameters) ps ∧ u = custom n ps false := by
  unfold readCustom
  constructor
  · intro h
    split_ifs at h
    cases hcut : Brackets.cut? rest with
    | none => simp [hcut] at h
    | some cut =>
      obtain ⟨parameters, behind⟩ := cut
      obtain ⟨hrest, hbalanced⟩ := Brackets.cut?_eq_some_iff.mp hcut
      simp only [hcut, Bool.not_eq_true', List.isEmpty_eq_false_iff, List.isEmpty_iff] at h
      split_ifs at h with hbehind hempty
      rw [not_not] at hbehind
      subst hbehind
      obtain ⟨ps, hps, h⟩ := bind_eq_ok_iff.mp h
      cases hname : TypeName.ofText name with
      | error e => simp [hname] at h
      | ok n =>
        simp only [hname] at h
        cases h
        exact ⟨n, parameters, ps, TypeName.ofText_eq_ok_iff.mp hname, hrest, hbalanced, hempty,
          readParameters_eq_ok_iff.mp hps, rfl⟩
  · rintro ⟨n, parameters, ps, rfl, hrest, hbalanced, hempty, hps, rfl⟩
    have hcut := Brackets.cut?_eq_some_iff.mpr ⟨hrest, hbalanced⟩
    have hname : ¬ n.text.isEmpty = true := by simpa using n.text_ne_nil
    rw [if_neg hname]
    simp only [hcut, List.isEmpty_nil, List.isEmpty_iff, if_neg hempty, Bool.not_true,
      Bool.false_eq_true, if_false]
    refine bind_eq_ok_iff.mpr ⟨ps, readParameters_eq_ok_iff.mpr hps, ?_⟩
    rw [TypeName.ofText_text]
    rfl

theorem readBody_list {element : Text} (h : ¬ ("map[" : String).toList <+: element ++ "[]") :
    readBody inner (element ++ "[]") = (do return list (← inner element) false) := by
  simp only [readBody, Text.withoutStart?_eq_none_iff.mpr h, Text.withoutEnding?_append]

theorem readBody_custom {name : Text} (hmap : ¬ ("map[" : String).toList <+: name ++ '[' :: rest)
    (hlist : ¬ ("[]" : String).toList <:+ name ++ '[' :: rest) (hname : '[' ∉ name) :
    readBody inner (name ++ '[' :: rest) = readCustom inner (name ++ '[' :: rest) name rest := by
  simp only [readBody, Text.withoutStart?_eq_none_iff.mpr hmap,
    Text.withoutEnding?_eq_none_iff.mpr hlist, Text.dropWhile_ne_append hname,
    Text.takeWhile_ne_append hname]

theorem readBody_name (h : '[' ∉ body) : readBody inner body = readName body := by
  have hmap : ¬ ("map[" : String).toList <+: body := by
    rintro ⟨s, rfl⟩
    simp at h
  have hlist : ¬ ("[]" : String).toList <:+ body := by
    rintro ⟨s, rfl⟩
    simp at h
  have hdrop : body.dropWhile (· != '[') = [] := by
    rw [List.dropWhile_eq_nil_iff]
    rintro c hc
    simpa using fun heq : c = '[' => h (heq ▸ hc)
  simp only [readBody, Text.withoutStart?_eq_none_iff.mpr hmap,
    Text.withoutEnding?_eq_none_iff.mpr hlist, hdrop]

theorem map_prefix_iff {name : Text} (h : '[' ∉ name) :
    ("map[" : String).toList <+: name ++ '[' :: rest ↔ name = "map" := by
  constructor
  · rintro ⟨s, hs⟩
    have hstart : ("map[" : String).toList ++ s = ("map" : String).toList ++ '[' :: s := rfl
    have hwhile := congrArg (List.takeWhile (· != '[')) (hstart.symm.trans hs)
    rw [Text.takeWhile_ne_append (by decide), Text.takeWhile_ne_append h] at hwhile
    exact hwhile.symm
  · rintro rfl
    exact ⟨rest, rfl⟩

theorem map_prefix_custom_nil_iff (name : TypeName) (n : Bool) :
    ("map[" : String).toList <+: (custom name [] n).render ++ '[' :: rest ↔
      (custom name [] n).StartsMap := by
  have hbracket : '[' ∉ name.text ++ mark n := by
    cases n <;> simpa [mark] using name.not_mem_text (by decide)
  rw [render_custom_nil, map_prefix_iff hbracket]
  cases n with
  | false => simp [StartsMap, mark]
  | true =>
    refine iff_of_false (fun heq => ?_) id
    have hmem : '?' ∈ ("map" : String).toList := by
      rw [← heq]
      simp [mark]
    revert hmem
    decide

theorem map_prefix_custom_iff {ps : List FieldType} (h : ps ≠ []) (name : TypeName) (n : Bool) :
    ("map[" : String).toList <+: (custom name ps n).render ++ '[' :: rest ↔ name.text = "map" := by
  have hassoc : (custom name ps n).render ++ '[' :: rest =
      name.text ++
        '[' :: (Text.joined "," (ps.map render) ++ ']' :: (mark n ++ '[' :: rest)) := by
    simp [render_custom h]
  rw [hassoc, map_prefix_iff (name.not_mem_text (by decide))]

/-- Brackets behind a type belong to a map exactly when the type starts one. -/
theorem Expressible.startsMap_iff {e : FieldType} (h : e.Expressible) :
    e.StartsMap ↔ ("map[" : String).toList <+: e.render ++ '[' :: rest := by
  induction e generalizing rest with
  | primitive kind n =>
    have hbracket : '[' ∉ (primitive kind n).render := by cases kind <;> cases n <;> decide
    have hname : (primitive kind n).render ≠ "map" := by cases kind <;> cases n <;> decide
    rw [map_prefix_iff hbracket]
    exact iff_of_false id hname
  | list element n ih =>
    obtain ⟨hstart, helement⟩ := expressible_list.mp h
    have hassoc : (list element n).render ++ '[' :: rest =
        element.render ++ '[' :: (']' :: (mark n ++ '[' :: rest)) := by
      simp
    rw [hassoc, ← ih helement]
    exact iff_of_false id hstart
  | map key value n =>
    refine iff_of_true trivial ⟨key.render ++ "]" ++ value.render ++ mark n ++ '[' :: rest, ?_⟩
    simp
  | custom name ps n =>
    cases ps with
    | nil => exact (map_prefix_custom_nil_iff name n).symm
    | cons p ps =>
      rw [map_prefix_custom_iff (by simp)]
      exact iff_of_false id (expressible_custom.mp h).1

theorem Expressible.withNullable_true {t : FieldType} (h : t.Expressible) :
    (t.withNullable true).Expressible := by
  cases t with
  | primitive kind n => exact expressible_primitive kind true
  | list element n => exact expressible_list.mpr (expressible_list.mp h)
  | map key value n => exact expressible_map.mpr ⟨fun _ => rfl, (expressible_map.mp h).2⟩
  | custom name ps n =>
    obtain ⟨hplaced, hps⟩ := expressible_custom.mp h
    exact expressible_custom.mpr ⟨by cases ps <;> exact hplaced, hps⟩

theorem Expressible.of_withNullable_true {t : FieldType} (h : (t.withNullable true).Expressible)
    (hlast : t.render.getLast? ≠ some '?') : t.Expressible := by
  cases t with
  | primitive kind n => exact expressible_primitive kind n
  | list element n => exact expressible_list.mpr (expressible_list.mp h)
  | map key value n =>
    refine expressible_map.mpr ⟨fun hvalue => ?_, (expressible_map.mp h).2⟩
    by_contra hn
    obtain rfl : n = false := by simpa using hn
    apply hlast
    have hmark : value.render = (value.withNullable false).render ++ mark true := by
      rw [← render_withNullable, ← hvalue, withNullable_nullable]
    have hsplit : (map key value false).render =
        "map[" ++ key.render ++ "]" ++ (value.withNullable false).render ++ ['?'] := by
      simp [hmark, mark]
    rw [hsplit, List.getLast?_concat]
  | custom name ps n =>
    obtain ⟨hplaced, hps⟩ := expressible_custom.mp h
    exact expressible_custom.mpr ⟨by cases ps <;> exact hplaced, hps⟩

/-- The reader for the parts of an expression reads exactly the notation of
expressible trees that fit in `room` levels. -/
def ReadsExactly (inner : Text → Except MalformedType FieldType) (room : ℕ) : Prop :=
  ∀ t u, inner t = .ok u ↔ u.render = t ∧ u.height < room ∧ u.Expressible

section Body

variable {room : ℕ} (hinner : ReadsExactly inner room)

include hinner

theorem ReadsExactly.forall₂_iff {pieces : List Text} {ps : List FieldType} :
    List.Forall₂ (fun piece p => piece ≠ [] ∧ inner piece = .ok p) pieces ps ↔
      pieces = ps.map render ∧ (∀ p ∈ ps, p.height < room) ∧ ∀ p ∈ ps, p.Expressible := by
  induction ps generalizing pieces with
  | nil => simp
  | cons p ps ih =>
    rw [List.forall₂_cons_right_iff]
    simp only [ih, List.map_cons, List.forall_mem_cons]
    constructor
    · rintro ⟨piece, pieces, ⟨-, hp⟩, ⟨rfl, hps, hpse⟩, rfl⟩
      obtain ⟨rfl, hph, hpe⟩ := (hinner _ _).mp hp
      exact ⟨rfl, ⟨hph, hps⟩, hpe, hpse⟩
    · rintro ⟨rfl, ⟨hph, hps⟩, hpe, hpse⟩
      have hp := (hinner _ _).mpr ⟨rfl, hph, hpe⟩
      exact ⟨_, _, ⟨render_ne_nil p, hp⟩, ⟨rfl, hps, hpse⟩, rfl⟩

/-- What is read as the body of an expression is written as that body. -/
theorem ReadsExactly.body_sound (h : readBody inner body = .ok u) :
    u.nullable = false ∧ u.render = body ∧ u.height < room + 1 ∧
      (u.withNullable true).Expressible := by
  by_cases hmap : ("map[" : String).toList <+: body
  · obtain ⟨rest, rfl⟩ := hmap
    rw [readBody_map] at h
    obtain ⟨key, value, k, v, rfl, -, -, -, hk, hv, rfl⟩ := readMap_eq_ok_iff.mp h
    obtain ⟨rfl, hkh, hke⟩ := (hinner _ _).mp hk
    obtain ⟨rfl, hvh, hve⟩ := (hinner _ _).mp hv
    refine ⟨rfl, ?_, height_map_lt.mpr ⟨hkh, hvh⟩, expressible_map.mpr ⟨fun _ => rfl, hke, hve⟩⟩
    simp [mark]
  by_cases hlist : ("[]" : String).toList <:+ body
  · obtain ⟨element, rfl⟩ := hlist
    rw [readBody_list hmap] at h
    obtain ⟨e, he, h⟩ := bind_eq_ok_iff.mp h
    cases h
    obtain ⟨rfl, heh, hee⟩ := (hinner _ _).mp he
    refine ⟨rfl, ?_, height_list_lt.mpr heh, expressible_list.mpr ⟨?_, hee⟩⟩
    · simp [mark]
    · rw [hee.startsMap_iff]
      exact hmap
  by_cases hbracket : '[' ∈ body
  · obtain ⟨name, rest, rfl, hname⟩ := List.eq_append_cons_of_mem hbracket
    rw [readBody_custom hmap hlist hname] at h
    obtain ⟨n, parameters, ps, rfl, rfl, -, -, hps, rfl⟩ := readCustom_eq_ok_iff.mp h
    obtain ⟨hpieces, hheight, hexpr⟩ := hinner.forall₂_iff.mp hps
    have hne : ps ≠ [] := by
      rintro rfl
      exact Brackets.piecesAt_ne_nil 0 parameters hpieces
    refine ⟨rfl, ?_, height_custom_lt.mpr hheight, expressible_custom.mpr ⟨?_, hexpr⟩⟩
    · rw [render_custom hne, ← hpieces, Brackets.pieces, Brackets.joined_piecesAt]
      simp [mark]
    · cases ps with
      | nil => exact absurd rfl hne
      | cons p ps => exact fun heq => hmap ((map_prefix_iff hname).mpr heq)
  · rw [readBody_name hbracket] at h
    rcases readName_eq_ok_iff.mp h with ⟨p, rfl, rfl⟩ | ⟨n, rfl, hplaced, rfl⟩
    · exact ⟨rfl, List.append_nil _, Nat.succ_pos _, expressible_primitive p true⟩
    · exact ⟨rfl, List.append_nil _, Nat.succ_pos _, expressible_custom.mpr ⟨hplaced, by simp⟩⟩

theorem ReadsExactly.custom_complete {name : TypeName} {ps : List FieldType} (hps : ps ≠ [])
    (hheight : (custom name ps false).height < room + 1)
    (h : (custom name ps true).Expressible) :
    readBody inner (custom name ps false).render = .ok (custom name ps false) := by
  obtain ⟨hplaced, hpse⟩ := expressible_custom.mp h
  have hbracket : '[' ∉ name.text := name.not_mem_text (by decide)
  have hname : name.text ≠ "map" := by
    cases ps with
    | nil => exact absurd rfl hps
    | cons p ps => exact hplaced
  have hpieces : Brackets.pieces (Text.joined "," (ps.map render)) = ps.map render :=
    Brackets.pieces_joined (by simpa using hps)
      (List.forall_mem_map.mpr fun p _ => unsplit_render p)
  have hbalanced : Brackets.Balanced (Text.joined "," (ps.map render)) :=
    balanced_joined_comma (List.forall_mem_map.mpr fun p _ => (unsplit_render p).1)
  have hnonempty : Text.joined "," (ps.map render) ≠ [] :=
    Text.joined_ne_nil (by simpa using hps) (List.forall_mem_map.mpr fun p _ => render_ne_nil p)
  have hbody : (custom name ps false).render =
      name.text ++ '[' :: (Text.joined "," (ps.map render) ++ [']']) := by
    simp [render_custom hps, mark]
  rw [hbody, readBody_custom (fun hmap => hname ((map_prefix_iff hbracket).mp hmap))
    (hbalanced.not_empty_pair_suffix hnonempty _) hbracket]
  refine readCustom_eq_ok_iff.mpr ⟨name, _, ps, rfl, rfl, hbalanced, hnonempty, ?_, rfl⟩
  exact hinner.forall₂_iff.mpr ⟨hpieces, height_custom_lt.mp hheight, hpse⟩

/-- The body of an expressible tree is read as that tree. -/
theorem ReadsExactly.body_complete (hn : u.nullable = false) (hheight : u.height < room + 1)
    (h : (u.withNullable true).Expressible) : readBody inner u.render = .ok u := by
  cases u with
  | primitive kind n =>
    obtain rfl : n = false := hn
    have hbracket : '[' ∉ (primitive kind false).render := by cases kind <;> decide
    rw [readBody_name hbracket]
    exact readName_eq_ok_iff.mpr (Or.inl ⟨kind, List.append_nil _, rfl⟩)
  | list element n =>
    obtain rfl : n = false := hn
    obtain ⟨hstart, helement⟩ := expressible_list.mp h
    have hmap : ¬ ("map[" : String).toList <+: element.render ++ "[]" := by
      rwa [helement.startsMap_iff] at hstart
    have he := (hinner _ _).mpr ⟨rfl, height_list_lt.mp hheight, helement⟩
    have hbody : (list element false).render = element.render ++ "[]" := List.append_nil _
    rw [hbody, readBody_list hmap]
    exact bind_eq_ok_iff.mpr ⟨element, he, rfl⟩
  | map key value n =>
    obtain rfl : n = false := hn
    obtain ⟨-, hke, hve⟩ := expressible_map.mp h
    obtain ⟨hkh, hvh⟩ := height_map_lt.mp hheight
    have hk := (hinner _ _).mpr ⟨rfl, hkh, hke⟩
    have hv := (hinner _ _).mpr ⟨rfl, hvh, hve⟩
    have hbody : (map key value false).render = "map[" ++ (key.render ++ ']' :: value.render) := by
      simp [mark]
    rw [hbody, readBody_map]
    exact readMap_eq_ok_iff.mpr ⟨_, _, key, value, rfl, (unsplit_render key).1, render_ne_nil key,
      render_ne_nil value, hk, hv, rfl⟩
  | custom name ps n =>
    obtain rfl : n = false := hn
    by_cases hps : ps = []
    · subst hps
      have hbody : (custom name [] false).render = name.text := List.append_nil _
      rw [hbody, readBody_name (name.not_mem_text (by decide))]
      exact readName_eq_ok_iff.mpr (Or.inr ⟨name, rfl, (expressible_custom.mp h).1, rfl⟩)
    · exact hinner.custom_complete hps hheight h

end Body

theorem readCompact_succ_eq_ok_iff {room : ℕ} :
    readCompact (room + 1) t = .ok u ↔
      ∃ body n v, cutMark t = (body, n) ∧ body ≠ [] ∧
        readBody (readCompact room) body = .ok v ∧ u = v.withNullable n := by
  obtain ⟨⟨body, n⟩, hcut⟩ : ∃ cut, cutMark t = cut := ⟨_, rfl⟩
  unfold readCompact
  simp only [hcut, List.isEmpty_iff, Prod.mk.injEq]
  constructor
  · intro h
    split_ifs at h with ht hbody
    obtain ⟨v, hv, h⟩ := bind_eq_ok_iff.mp h
    cases h
    exact ⟨body, n, v, ⟨rfl, rfl⟩, hbody, hv, rfl⟩
  · rintro ⟨_, _, v, ⟨rfl, rfl⟩, hbody, hv, rfl⟩
    have ht : t ≠ [] := by
      rintro rfl
      obtain ⟨hnil, -⟩ := cutMark_eq_iff.mp hcut
      exact hbody (List.append_eq_nil_iff.mp hnil.symm).1
    rw [if_neg ht, if_neg hbody]
    exact bind_eq_ok_iff.mpr ⟨v, hv, rfl⟩

/-- By induction on the levels that are left: each level reads one node. -/
theorem readsExactly_readCompact (room : ℕ) : ReadsExactly (readCompact room) room := by
  induction room with
  | zero =>
    intro t u
    unfold readCompact
    split_ifs <;> simp
  | succ room ih =>
    intro t u
    rw [readCompact_succ_eq_ok_iff]
    constructor
    · rintro ⟨body, n, v, hcut, -, hv, rfl⟩
      obtain ⟨rfl, hlast⟩ := cutMark_eq_iff.mp hcut
      obtain ⟨hnull, rfl, hheight, hexpr⟩ := ih.body_sound hv
      have hsame : v.withNullable false = v := by rw [← hnull, withNullable_nullable]
      refine ⟨by rw [render_withNullable, hsame], by rwa [height_withNullable], ?_⟩
      cases n with
      | true => exact hexpr
      | false =>
        rw [hsame]
        exact hexpr.of_withNullable_true (by simpa [mark] using hlast)
    · rintro ⟨rfl, hheight, hexpr⟩
      have hrender : u.render = (u.withNullable false).render ++ mark u.nullable := by
        rw [← render_withNullable, withNullable_nullable]
      refine ⟨(u.withNullable false).render, u.nullable, u.withNullable false,
        cutMark_eq_iff.mpr ⟨hrender, hexpr.getLast?_render⟩, render_ne_nil _, ?_, by simp⟩
      apply ih.body_complete (nullable_withNullable false u)
      · rwa [height_withNullable]
      · rw [withNullable_withNullable]
        exact hexpr.withNullable_true

theorem read_eq_ok_iff :
    read t = .ok u ↔ u.render = Text.withoutBlanks t ∧ u.height ≤ maxHeight ∧ u.Expressible := by
  rw [read, readsExactly_readCompact, Nat.lt_succ_iff]

end FieldType

/-- The type grammar: an expression is read as a tree exactly when it is the
notation of that tree up to white space, nests at most 64 levels, and every node
of the tree follows the rule for its kind. -/
theorem readType_eq_ok_iff_render (text : Text) (t : FieldType) :
    readType text = .ok t ↔
      t.render = Text.withoutBlanks text ∧ t.height ≤ 64 ∧ t.Expressible := by
  rw [readType, mapError_eq_ok_iff, FieldType.read_eq_ok_iff]
  rfl

end ClassSchema
