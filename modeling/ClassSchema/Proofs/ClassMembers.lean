import ClassSchema.Proofs.ClassLines

/-!
# The members of a class

The fields of a class and its writing methods are members of its instances, its reading
methods are members of the class itself. The members are read off the lines of the
generated code. The code is made only if no two methods of a kind have the same name, but
a field may still have the name of a writing method.
-/

namespace ClassSchema.TypeScript

variable {m : Model}

structure Member where
  /-- Whether it is a member of the class and not of its instances. -/
  isStatic : Bool
  name : Text
deriving DecidableEq

def openedMethod? (line : Text) : Option Member :=
  match Text.withoutStart? "public static " line with
  | some rest => some ⟨true, rest.takeWhile (· != '(')⟩
  | none => (Text.withoutStart? "public " line).map fun rest => ⟨false, rest.takeWhile (· != '(')⟩

/-- The member that a line declares, behind its indentation. A line that ends with a brace
opens a method or the constructor, and any other one declares a field in front of a colon. -/
def declaredMember? (line : Text) : Option Member :=
  if line.head? = some ' ' ∨ line = "\x7d" then none
  else if line.getLast? = some '\x7b' then openedMethod? line
  else some ⟨false, (line.takeWhile (!Text.isBlank ·)).dropLast⟩

/-- The member that a line declares, at the first level of indentation. -/
def memberAt? (line : Text) : Option Member :=
  (Text.withoutStart? (indented 1 []) line).bind declaredMember?

def members (code : Text) : List Member := (Text.splitOn '\n' code).filterMap memberAt?

def instanceNames (code : Text) : List Text :=
  ((members code).filter (!·.isStatic)).map Member.name

def staticNames (code : Text) : List Text := ((members code).filter (·.isStatic)).map Member.name

def writerName (target : TagTarget) : Text := "To" ++ methodSuffix target

def readerName (target : TagTarget) : Text := "From" ++ methodSuffix target

theorem exists_renderEntries_eq {targets : List TagTarget} (h : targets ≠ []) (tags : List Tag) :
    ∃ front, renderEntries targets tags = front ++ ['"'] := by
  have hne : entries targets tags ≠ [] := by
    cases tags with
    | nil => simpa [entries] using h
    | cons tag tags => simp [entries]
  obtain ⟨es, e, hes⟩ := (entries targets tags).eq_nil_or_concat.resolve_left hne
  have hlast : e.render = (e.target.text ++ ":\"" ++ e.text) ++ ['"'] := rfl
  unfold renderEntries
  rw [hes, List.concat_eq_append, List.map_append, List.map_singleton, hlast]
  by_cases hnil : es = []
  · subst hnil
    exact ⟨_, Text.joined_singleton _ _⟩
  · rw [Text.joined_append (by simpa using hnil) (List.cons_ne_nil _ _), Text.joined_singleton,
      ← List.append_assoc]
    exact ⟨_, rfl⟩

theorem exists_renderField_eq (targets : List TagTarget) (f : Field) :
    ∃ rest c, renderField targets f = f.name.text ++ ':' :: ' ' :: (rest ++ [c]) ∧ c ≠ '\x7b' := by
  unfold renderField renderTags
  split_ifs with htargets
  · exact ⟨renderType f.type, ';', by simp, by decide⟩
  · obtain ⟨front, hfront⟩ := exists_renderEntries_eq (by simpa using htargets) f.tags
    refine ⟨renderType f.type ++ "; // " ++ front, '"', ?_, by decide⟩
    rw [hfront]
    simp

theorem declaredMember?_renderField (targets : List TagTarget) (f : Field) :
    declaredMember? (renderField targets f) = some ⟨false, f.name.text⟩ := by
  obtain ⟨hne, hword⟩ := isBareWord_iff.mp f.name.valid
  obtain ⟨rest, c, hline, hc⟩ := exists_renderField_eq targets f
  have hhead : ¬ ((renderField targets f).head? = some ' ' ∨ renderField targets f = "\x7d") := by
    obtain ⟨d, ds, hname⟩ := List.exists_cons_of_ne_nil hne
    have hd := hword d (by simp [hname])
    rw [hline, hname]
    rintro (h | h)
    · obtain rfl : d = ' ' := by simpa using h
      exact absurd hd (by decide)
    · simpa using congrArg List.length h
  have hlast : ¬ (renderField targets f).getLast? = some '\x7b' := by
    have hassoc : renderField targets f = (f.name.text ++ ':' :: ' ' :: rest) ++ [c] := by
      simp [hline]
    rw [hassoc, List.getLast?_concat]
    simpa using hc
  have hname : (renderField targets f).takeWhile (!Text.isBlank ·) = f.name.text ++ [':'] := by
    rw [hline, List.takeWhile_append_of_pos (by simpa using hword)]
    congr 1
  unfold declaredMember?
  rw [if_neg hhead, if_neg hlast, hname, List.dropLast_concat]

theorem declaredMember?_of_brace {line : Text} (hhead : line.head? ≠ some ' ')
    (hlast : line.getLast? = some '\x7b') : declaredMember? line = openedMethod? line := by
  have hline : line ≠ "\x7d" := by
    rintro rfl
    exact absurd hlast (by decide)
  unfold declaredMember?
  rw [if_neg (not_or.mpr ⟨hhead, hline⟩), if_pos hlast]

theorem takeWhile_methodName {start : Text} (h : '(' ∉ start) (target : TagTarget) (rest : Text) :
    (start ++ methodSuffix target ++ '(' :: rest).takeWhile (· != '(') =
      start ++ methodSuffix target := by
  have hparen : '(' ∉ start ++ methodSuffix target := by
    rw [List.mem_append, not_or]
    exact ⟨h, not_mem_methodSuffix (by decide) target⟩
  exact Text.takeWhile_ne_append hparen _

theorem openedMethod?_to (target : TagTarget) :
    openedMethod? ("public To" ++ methodSuffix target ++ "(): Object \x7b") =
      some ⟨false, writerName target⟩ := by
  have hopened : openedMethod? ("public To" ++ methodSuffix target ++ "(): Object \x7b") =
    some ⟨false, ("To" ++ methodSuffix target ++ "(): Object \x7b").takeWhile (· != '(')⟩ := rfl
  rw [hopened]
  exact congrArg (fun name => some (Member.mk false name))
    (takeWhile_methodName (by decide) target "): Object \x7b")

theorem openedMethod?_from (name : Text) (target : TagTarget) :
    openedMethod? ("public static From" ++ methodSuffix target ++ "(data: any): " ++ name ++
      " \x7b") = some ⟨true, readerName target⟩ := by
  have hopened : openedMethod? ("public static From" ++ methodSuffix target ++ "(data: any): " ++
      name ++ " \x7b") =
    some ⟨true, ("From" ++ methodSuffix target ++
      '(' :: ("data: any): " ++ name ++ " \x7b")).takeWhile (· != '(')⟩ := by
    simp only [List.append_assoc]
    rfl
  rw [hopened]
  exact congrArg (fun name => some (Member.mk true name))
    (takeWhile_methodName (by decide) target _)

theorem memberAt?_indented (line : Text) : memberAt? (indented 1 line) = declaredMember? line := by
  have hstart : Text.withoutStart? (indented 1 []) (indented 1 line) = some line := rfl
  rw [memberAt?, hstart, Option.bind_some]

theorem memberAt?_deeper (depth : ℕ) (line : Text) :
    memberAt? (indented (depth + 2) line) = none := by
  have hsplit : indented (depth + 2) line = indented 1 (indented (depth + 1) line) := by
    unfold indented
    rw [← List.append_assoc, ← List.replicate_add]
    congr 2
    omega
  have hhead : (indented (depth + 1) line).head? = some ' ' := by
    simp [indented, Nat.mul_add, List.replicate_succ]
  rw [hsplit, memberAt?_indented, declaredMember?, if_pos (.inl hhead)]

theorem filterMap_deeper {α : Type} (depth : ℕ) (line : α → Text) (as : List α) :
    (as.map fun a => indented (depth + 2) (line a)).filterMap memberAt? = [] := by
  rw [List.filterMap_map, List.filterMap_eq_nil_iff]
  exact fun a _ => memberAt?_deeper depth (line a)

theorem filterMap_fieldLines (m : Model) :
    (fieldLines m).filterMap memberAt? = m.fields.map fun f => ⟨false, f.name.text⟩ := by
  unfold fieldLines
  rw [List.filterMap_map, ← List.filterMap_eq_map]
  refine List.filterMap_congr fun f _ => ?_
  rw [Function.comp_apply, memberAt?_indented, declaredMember?_renderField]
  rfl

theorem memberAt?_close : memberAt? (indented 1 "\x7d") = none := rfl

theorem getLast?_append_brace (line : Text) {ending : Text}
    (h : ending.getLast? = some '\x7b') :
    (line ++ ending).getLast? = some '\x7b' := by
  rw [List.getLast?_append, h, Option.some_or]

theorem filterMap_constructorLines (m : Model) :
    (constructorLines m).filterMap memberAt? = [] := by
  have hopen (parameters : Text) :
      memberAt? (indented 1 ("constructor(" ++ parameters ++ ") \x7b")) = none := by
    rw [memberAt?_indented,
      declaredMember?_of_brace (by simp) (getLast?_append_brace _ (by decide))]
    rfl
  unfold constructorLines
  rw [List.filterMap_append, List.filterMap_append, filterMap_deeper]
  simp only [List.filterMap_cons, List.filterMap_nil, hopen, memberAt?_close, List.append_nil]

theorem filterMap_toLines (m : Model) (target : TagTarget) :
    (toLines m target).filterMap memberAt? = [⟨false, writerName target⟩] := by
  have hopen : memberAt? (indented 1 ("public To" ++ methodSuffix target ++ "(): Object \x7b")) =
      some ⟨false, writerName target⟩ := by
    rw [memberAt?_indented,
      declaredMember?_of_brace (by simp) (getLast?_append_brace _ (by decide)), openedMethod?_to]
  have hbody (line : Text) : memberAt? (indented 2 line) = none := memberAt?_deeper 0 line
  unfold toLines
  rw [List.filterMap_append, List.filterMap_append, filterMap_deeper]
  simp only [List.filterMap_cons, List.filterMap_nil, hopen, hbody, memberAt?_close,
    List.append_nil]

theorem filterMap_fromLines (m : Model) (target : TagTarget) :
    (fromLines m target).filterMap memberAt? = [⟨true, readerName target⟩] := by
  have hopen : memberAt? (indented 1 ("public static From" ++ methodSuffix target ++
      "(data: any): " ++ m.name.text ++ " \x7b")) = some ⟨true, readerName target⟩ := by
    rw [memberAt?_indented,
      declaredMember?_of_brace (by simp) (getLast?_append_brace _ (by decide)), openedMethod?_from]
  have hbody (line : Text) : memberAt? (indented 2 line) = none := memberAt?_deeper 0 line
  unfold fromLines
  rw [List.filterMap_append, List.filterMap_append, filterMap_deeper]
  simp only [List.filterMap_cons, List.filterMap_nil, hopen, hbody, memberAt?_close,
    List.append_nil]

/-- The fields and, for each target, both methods, in the order of the code. -/
theorem members_renderModel (h : m.WellFormed) :
    members (renderModel m) = (m.fields.map fun f => ⟨false, f.name.text⟩) ++
      m.targets.flatMap fun target =>
        [⟨false, writerName target⟩, ⟨true, readerName target⟩] := by
  have htop : memberAt? ("export default class " ++ m.name.text ++ " \x7b") = none := rfl
  have hfields : (if m.fields.isEmpty then [] else [fieldLines m]).flatMap (·.filterMap memberAt?) =
      m.fields.map fun f => ⟨false, f.name.text⟩ := by
    split_ifs with hnil
    · simp [List.isEmpty_iff.mp hnil]
    · simp [filterMap_fieldLines]
  have hbottom : [("\x7d" : Text), []].filterMap memberAt? = [] := rfl
  unfold members
  rw [splitOn_renderModel h, codeLines, List.filterMap_cons_none htop, List.filterMap_append,
    filterMap_separated rfl, hbottom, sections, List.flatMap_append, List.flatMap_append, hfields]
  simp only [filterMap_constructorLines, List.flatMap_assoc, List.flatMap_cons, List.flatMap_nil,
    filterMap_toLines, filterMap_fromLines, List.append_nil, List.cons_append, List.nil_append]

theorem instanceNames_renderModel (h : m.WellFormed) :
    instanceNames (renderModel m) = m.fields.map (·.name.text) ++ m.targets.map writerName := by
  unfold instanceNames
  rw [members_renderModel h]
  simp [List.filter_flatMap, List.map_eq_flatMap, List.flatMap_assoc]

theorem staticNames_renderModel (h : m.WellFormed) :
    staticNames (renderModel m) = m.targets.map readerName := by
  unfold staticNames
  rw [members_renderModel h]
  simp [List.filter_flatMap, List.map_eq_flatMap, List.flatMap_assoc]

theorem generate_eq_ok_iff {code : Text} :
    generate m = .ok code ↔ (m.targets.map methodSuffix).Nodup ∧ code = renderModel m := by
  have hsuffixes : (renderings m).map Rendering.identifier = m.targets.map methodSuffix := by
    rw [renderings, List.map_map]
    rfl
  rw [← hsuffixes]
  exact Language.generate_eq_ok_iff .typeScript

/-- Two targets of the model come out as the same identifier. -/
structure IsCollision (m : Model) (c : Collision) : Prop where
  language : c.language = .typeScript
  targets : ∃ first ∈ m.targets, ∃ second ∈ m.targets, first ≠ second ∧
    c.first = first.text ∧ c.second = second.text ∧
    methodSuffix first = c.identifier ∧ methodSuffix second = c.identifier

theorem isCollision_of_generate {c : Collision} (h : generate m = .error c) : IsCollision m c := by
  have hfind : Collision.find? .typeScript (renderings m) = some c :=
    (Language.generate_eq_error_iff .typeScript).mp h
  obtain ⟨⟨a, b⟩, hclash, rfl⟩ := Option.map_eq_some_iff.mp hfind
  obtain ⟨front, rest, hrenderings, -, ha, hkey⟩ := exists_of_firstClash? hclash
  obtain ⟨targets, targets', hsplit, rfl, htail⟩ := List.map_eq_append_iff.mp hrenderings
  obtain ⟨second, targets', rfl, rfl, -⟩ := List.map_eq_cons_iff.mp htail
  obtain ⟨first, hfirst, rfl⟩ := List.mem_map.mp ha
  have hnodup := m.nodup_targets
  rw [hsplit, List.nodup_append] at hnodup
  refine ⟨rfl, first, by simp [hsplit, hfirst], second, by simp [hsplit], ?_, rfl, rfl, hkey, rfl⟩
  exact hnodup.2.2 first hfirst second List.mem_cons_self

theorem nodup_map_append_iff (start : Text) (targets : List TagTarget) :
    (targets.map fun target => start ++ methodSuffix target).Nodup ↔
      (targets.map methodSuffix).Nodup := by
  have hmap : (targets.map fun target => start ++ methodSuffix target) =
      (targets.map methodSuffix).map (start ++ ·) := by
    rw [List.map_map]
    rfl
  rw [hmap, List.nodup_map_iff (List.append_right_injective start)]

/-- If the fields have different names and so have the methods, only a field and a method
can have the same name. -/
theorem nodup_instanceNames_iff (h : m.WellFormed)
    (htargets : (m.targets.map methodSuffix).Nodup) :
    (instanceNames (renderModel m)).Nodup ↔
      ∀ f ∈ m.fields, ∀ target ∈ m.targets, f.name.text ≠ writerName target := by
  have hfields : (m.fields.map (·.name.text)).Nodup := by
    have hnames := h.names_nodup.map FieldName.text_injective
    rwa [List.map_map] at hnames
  have hwriters := (nodup_map_append_iff "To" m.targets).mpr htargets
  rw [instanceNames_renderModel h, List.nodup_append]
  constructor
  · rintro ⟨-, -, hdisjoint⟩ f hf target htarget
    exact hdisjoint _ (List.mem_map_of_mem hf) _ (List.mem_map_of_mem htarget)
  · intro hdisjoint
    refine ⟨hfields, hwriters, ?_⟩
    intro t ht u hu
    obtain ⟨f, hf, rfl⟩ := List.mem_map.mp ht
    obtain ⟨target, htarget, rfl⟩ := List.mem_map.mp hu
    exact hdisjoint f hf target htarget

/-- The class of a model that was read is made unless two targets collide. Its static
members then have different names, and so have its instance members unless a field has the
name of a writing method. -/
theorem generate_and_nodup_members {strict : Bool} {source : Text}
    (h : Model.read strict source = .ok m) :
    (∃ c, generate m = .error c ∧ IsCollision m c) ∨
      ∃ code, generate m = .ok code ∧ (staticNames code).Nodup ∧
        ((instanceNames code).Nodup ↔
          ∀ f ∈ m.fields, ∀ target ∈ m.targets, f.name.text ≠ writerName target) := by
  have hmodel := Model.wellFormed_of_read h
  cases hgenerate : generate m with
  | error c => exact .inl ⟨c, rfl, isCollision_of_generate hgenerate⟩
  | ok code =>
    obtain ⟨htargets, rfl⟩ := generate_eq_ok_iff.mp hgenerate
    refine .inr ⟨_, rfl, ?_, nodup_instanceNames_iff hmodel htargets⟩
    rw [staticNames_renderModel hmodel]
    exact (nodup_map_append_iff "From" m.targets).mpr htargets

/-- Targets of several words, and a field that is nearly a writing method. -/
theorem generate_and_nodup_members_apart :
    let source : Text :=
      "User:\n  ToJSON int json:\"a\" db-col:\"b\"\n  FromJson int db_row?:\"-\"\n"
    ∃ m code, Model.read true source = .ok m ∧ generate m = .ok code ∧
      (staticNames code).Nodup ∧ (instanceNames code).Nodup := by
  intro source
  let json : TagTarget := ⟨"json", rfl⟩
  let column : TagTarget := ⟨"db-col", rfl⟩
  let row : TagTarget := ⟨"db_row", rfl⟩
  let m : Model := ⟨⟨"User", rfl⟩,
    [⟨⟨"ToJSON", rfl⟩, .primitive .integer false, [⟨json, false, ["a"]⟩, ⟨column, false, ["b"]⟩]⟩,
      ⟨⟨"FromJson", rfl⟩, .primitive .integer false, [⟨row, true, ["-"]⟩]⟩]⟩
  have hread : Model.read true source = .ok m := toOption_eq_some_iff.mp (by decide +kernel)
  have hok : (generate m).toOption.isSome = true := by decide +kernel
  have hapart : ∀ f ∈ m.fields, ∀ target ∈ m.targets, f.name.text ≠ writerName target := by
    decide +kernel
  obtain ⟨c, hc, -⟩ | ⟨code, hcode, hstatic, hinstance⟩ := generate_and_nodup_members hread
  · rw [hc] at hok
    cases hok
  · exact ⟨m, code, hread, hcode, hstatic, hinstance.mpr hapart⟩

/-- A field with the name of a writing method: the class is made, with two members of one
name. -/
theorem instanceNames_repeat :
    let source : Text := "User:\n  ToJson int json:\"a\"\n"
    let names : List Text := ["ToJson", "ToJson"]
    ∃ m code, Model.read false source = .ok m ∧ generate m = .ok code ∧
      instanceNames code = names := by
  intro source names
  let json : TagTarget := ⟨"json", rfl⟩
  let f : Field := ⟨⟨"ToJson", rfl⟩, .primitive .integer false, [⟨json, false, ["a"]⟩]⟩
  let m : Model := ⟨⟨"User", rfl⟩, [f]⟩
  have hread : Model.read false source = .ok m := toOption_eq_some_iff.mp (by decide +kernel)
  have hgenerate : generate m = .ok (renderModel m) :=
    generate_eq_ok_iff.mpr ⟨by decide +kernel, rfl⟩
  exact ⟨m, renderModel m, hread, hgenerate, by decide +kernel⟩

end ClassSchema.TypeScript
