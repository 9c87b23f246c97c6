import ClassSchema.Proofs.Brackets
import ClassSchema.Type.Reader

/-!
# Type trees and their notation

The notation is shared by different trees, since a mark or an empty pair of
brackets at the end may belong to an inner node or to an outer one.
`Expressible` names the trees that own their notation, by a rule for each node.
The names in a tree and its labels are what else is said about whole trees. The
rest of the module says how rendered types look: they are balanced, have
no comma outside of brackets and no blank, and end with a mark only if the tree
is nullable.
-/

namespace ClassSchema

namespace TypeName

theorem plain_text (name : TypeName) : Brackets.Plain name.text :=
  ⟨name.not_mem_text (by decide), name.not_mem_text (by decide)⟩

end TypeName

namespace FieldType

/-- Induction over type trees, with one hypothesis for all parameters of a custom type. -/
@[elab_as_elim, induction_eliminator]
theorem treeInduction {motive : FieldType → Prop}
    (primitive : ∀ kind n, motive (.primitive kind n))
    (list : ∀ element n, motive element → motive (.list element n))
    (map : ∀ key value n, motive key → motive value → motive (.map key value n))
    (custom : ∀ name parameters n,
      (∀ p ∈ parameters, motive p) → motive (.custom name parameters n)) :
    ∀ t, motive t
  | .primitive kind n => primitive kind n
  | .list element n => list element n (treeInduction primitive list map custom element)
  | .map key value n =>
    map key value n (treeInduction primitive list map custom key)
      (treeInduction primitive list map custom value)
  | .custom name parameters n =>
    custom name parameters n fun p hp =>
      have := List.sizeOf_lt_of_mem hp
      treeInduction primitive list map custom p

theorem partsInduction {motive : FieldType → Prop}
    (node : ∀ t : FieldType, (∀ p ∈ t.children, motive p) → motive t) (t : FieldType) :
    motive t := by
  induction t with
  | primitive kind n => exact node _ (by simp [children])
  | list element n ih => exact node _ (by simpa [children] using ih)
  | map key value n ihk ihv => exact node _ (by simpa [children] using ⟨ihk, ihv⟩)
  | custom name ps n ih => exact node _ ih

mutual
/-- All nodes of a tree, each with what hangs below it. -/
def nodes : FieldType → List FieldType
  | primitive kind n => [primitive kind n]
  | list element n => list element n :: nodes element
  | map key value n => map key value n :: (nodes key ++ nodes value)
  | custom name parameters n => custom name parameters n :: nodesAll parameters

def nodesAll : List FieldType → List FieldType
  | [] => []
  | p :: ps => nodes p ++ nodesAll ps
end

theorem nodesAll_eq (ps : List FieldType) : nodesAll ps = ps.flatMap nodes := by
  induction ps with
  | nil => rfl
  | cons p ps ih => rw [nodesAll, ih, List.flatMap_cons]

/-- A map, or the bare name `map`: brackets behind either would belong to a map. -/
def StartsMap : FieldType → Prop
  | map .. => True
  | custom name [] false => name.text = "map"
  | _ => False

/-- The rule for one node: names of leaves are no keywords, `map` takes no
parameters, a list is not of something that starts a map, and a map with a
nullable value is nullable. -/
def WellPlaced : FieldType → Prop
  | primitive .. => True
  | list element _ => ¬ element.StartsMap
  | map _ value n => value.nullable = true → n = true
  | custom name [] _ => name.text ∉ Primitive.all.map Primitive.keyword
  | custom name (_ :: _) _ => name.text ≠ "map"

def Expressible (t : FieldType) : Prop := ∀ s ∈ t.nodes, s.WellPlaced

instance : DecidablePred StartsMap
  | map .. => isTrue trivial
  | custom name [] false => inferInstanceAs (Decidable (name.text = "map"))
  | primitive .. | list .. | custom _ [] true | custom _ (_ :: _) _ => isFalse id

instance : DecidablePred WellPlaced
  | primitive .. => isTrue trivial
  | list element _ => inferInstanceAs (Decidable (¬ element.StartsMap))
  | map _ value n => inferInstanceAs (Decidable (value.nullable = true → n = true))
  | custom _ [] _ => inferInstanceAs (Decidable (_ ∉ _))
  | custom _ (_ :: _) _ => inferInstanceAs (Decidable (_ ≠ _))

instance : DecidablePred Expressible := fun t =>
  inferInstanceAs (Decidable (∀ s ∈ t.nodes, s.WellPlaced))

@[simp] theorem expressible_primitive (kind : Primitive) (n : Bool) :
    (primitive kind n).Expressible := by
  simp [Expressible, nodes, WellPlaced]

@[simp] theorem expressible_list {element : FieldType} {n : Bool} :
    (list element n).Expressible ↔ ¬ element.StartsMap ∧ element.Expressible := by
  simp [Expressible, nodes, WellPlaced]

@[simp] theorem expressible_map {key value : FieldType} {n : Bool} :
    (map key value n).Expressible ↔
      (value.nullable = true → n = true) ∧ key.Expressible ∧ value.Expressible := by
  simp [Expressible, nodes, WellPlaced, or_imp, forall_and]

theorem expressible_custom {name : TypeName} {ps : List FieldType} {n : Bool} :
    (custom name ps n).Expressible ↔
      (custom name ps n).WellPlaced ∧ ∀ p ∈ ps, p.Expressible := by
  simp only [Expressible, nodes, nodesAll_eq, List.mem_cons, List.mem_flatMap, forall_eq_or_imp,
    forall_exists_index, and_imp]
  exact and_congr_right fun _ => ⟨fun h p hp s => h s p hp, fun h s p hp => h p hp s⟩

def name? : FieldType → Option TypeName
  | custom name _ _ => some name
  | _ => none

def names (t : FieldType) : List TypeName := t.nodes.filterMap name?

@[simp] theorem names_primitive (kind : Primitive) (n : Bool) : (primitive kind n).names = [] := rfl

@[simp] theorem names_list (element : FieldType) (n : Bool) :
    (list element n).names = element.names := rfl

@[simp] theorem names_map (key value : FieldType) (n : Bool) :
    (map key value n).names = key.names ++ value.names := by
  rw [names, nodes, List.filterMap_cons_none rfl, List.filterMap_append]
  rfl

@[simp] theorem names_custom (name : TypeName) (ps : List FieldType) (n : Bool) :
    (custom name ps n).names = name :: ps.flatMap names := by
  have hname : name? (custom name ps n) = some name := rfl
  rw [names, nodes, nodesAll_eq, List.filterMap_cons_some hname, List.filterMap_flatMap]
  rfl

theorem mem_names_of_mem_children {t p : FieldType} {name : TypeName} (hp : p ∈ t.children)
    (hname : name ∈ p.names) : name ∈ t.names := by
  cases t with
  | primitive kind n => cases hp
  | list element n =>
    obtain rfl := List.mem_singleton.mp hp
    exact hname
  | map key value n =>
    rw [names_map, List.mem_append]
    rcases List.mem_pair.mp hp with rfl | rfl
    · exact .inl hname
    · exact .inr hname
  | custom other ps n =>
    rw [names_custom]
    exact List.mem_cons_of_mem _ (List.mem_flatMap.mpr ⟨p, hp, hname⟩)

mutual
/-- The tree with other kinds of primitives, and with other flags on its lists and maps. -/
def relabel (kind : Primitive → Primitive) (flag : Bool → Bool) : FieldType → FieldType
  | primitive p n => primitive (kind p) n
  | list element n => list (relabel kind flag element) (flag n)
  | map key value n => map (relabel kind flag key) (relabel kind flag value) (flag n)
  | custom name parameters n => custom name (relabelAll kind flag parameters) n

/-- The trees of a list with other labels. -/
def relabelAll (kind : Primitive → Primitive) (flag : Bool → Bool) :
    List FieldType → List FieldType
  | [] => []
  | p :: ps => relabel kind flag p :: relabelAll kind flag ps
end

section Relabel

variable (kind : Primitive → Primitive) (flag : Bool → Bool)

theorem relabelAll_eq (ps : List FieldType) :
    relabelAll kind flag ps = ps.map (relabel kind flag) := by
  induction ps with
  | nil => rfl
  | cons p ps ih => rw [relabelAll, ih, List.map_cons]

theorem relabel_custom (name : TypeName) (ps : List FieldType) (n : Bool) :
    (custom name ps n).relabel kind flag = custom name (ps.map (relabel kind flag)) n := by
  rw [relabel, relabelAll_eq]

end Relabel

section Height

variable (n : Bool) (name : TypeName) (element key value p : FieldType) (ps : List FieldType)

end Height

theorem heightAll_lt_iff {ps : List FieldType} {room : ℕ} (hroom : 0 < room) :
    heightAll ps < room ↔ ∀ p ∈ ps, p.height < room := by
  induction ps with
  | nil => exact iff_of_true hroom (by simp)
  | cons p ps ih => rw [heightAll_cons, max_lt_iff, ih, List.forall_mem_cons]

theorem height_list_lt {element : FieldType} {n : Bool} {room : ℕ} :
    (list element n).height < room + 1 ↔ element.height < room := by
  simp

theorem height_map_lt {key value : FieldType} {n : Bool} {room : ℕ} :
    (map key value n).height < room + 1 ↔ key.height < room ∧ value.height < room := by
  simp

theorem height_custom_lt {name : TypeName} {ps : List FieldType} {n : Bool} {room : ℕ} :
    (custom name ps n).height < room + 1 ↔ ∀ p ∈ ps, p.height < room := by
  cases ps with
  | nil => simp
  | cons p ps =>
    rw [height_custom_cons, Nat.add_lt_add_iff_right, max_lt_iff, List.forall_mem_cons]
    exact and_congr_right fun hp => heightAll_lt_iff (Nat.zero_lt_of_lt hp)

section Render

variable (n : Bool) (p : FieldType) (ps : List FieldType)

end Render

theorem unsplit_mark (n : Bool) : Brackets.Unsplit (mark n) := by
  cases n <;> exact Brackets.unsplit_of_plain (by simp [mark, Brackets.Plain]) (by simp [mark])

theorem balanced_joined_comma {ts : List Text} (h : ∀ t ∈ ts, Brackets.Balanced t) :
    Brackets.Balanced (Text.joined "," ts) := by
  induction ts with
  | nil => exact Brackets.balanced_nil
  | cons t ts ih =>
    cases ts with
    | nil => simpa using h t List.mem_cons_self
    | cons u us =>
      rw [Text.joined_cons (by simp)]
      have hrest := ih fun v hv => h v (List.mem_cons_of_mem _ hv)
      have hcomma : Brackets.Balanced ("," : String).toList := by decide
      exact ((h t List.mem_cons_self).append hcomma).append hrest

theorem unsplit_render (t : FieldType) : Brackets.Unsplit t.render := by
  induction t with
  | primitive kind n =>
    have hplain : '[' ∉ kind.keyword ∧ ']' ∉ kind.keyword := by cases kind <;> decide
    have hcomma : ',' ∉ kind.keyword := by cases kind <;> decide
    have hkind := Brackets.unsplit_of_plain hplain hcomma
    exact hkind.append (unsplit_mark n)
  | list element n ih =>
    exact (ih.append Brackets.balanced_nil.unsplit_wrap).append (unsplit_mark n)
  | map key value n ihk ihv =>
    have hstart : Brackets.Unsplit ("map" : String).toList :=
      Brackets.unsplit_of_plain (by simp [Brackets.Plain]) (by simp)
    have hkey := (hstart.append ihk.1.unsplit_wrap).append (ihv.append (unsplit_mark n))
    simpa using hkey
  | custom name ps n ih =>
    have hname := Brackets.unsplit_of_plain name.plain_text (name.not_mem_text (by decide))
    by_cases hps : ps = []
    · subst hps
      exact hname.append (unsplit_mark n)
    · have hinner : Brackets.Balanced (Text.joined "," (ps.map render)) :=
        balanced_joined_comma (List.forall_mem_map.mpr fun p hp => (ih p hp).1)
      rw [render_custom hps]
      exact (hname.append hinner.unsplit_wrap).append (unsplit_mark n)

/-- The notation has no white space. -/
theorem isBlank_of_mem_render {t : FieldType} {c : Char} (hc : c ∈ t.render) :
    Text.isBlank c = false := by
  induction t generalizing c with
  | primitive kind n =>
    rw [render_primitive, List.mem_append] at hc
    rcases hc with hc | hc
    · exact Text.isBlank_eq_false_of_all (by cases kind <;> decide) hc
    · exact isBlank_of_mem_mark hc
  | list element n ih =>
    rw [render_list, List.mem_append, List.mem_append] at hc
    rcases hc with (hc | hc) | hc
    · exact ih hc
    · exact Text.isBlank_eq_false_of_all (by decide) hc
    · exact isBlank_of_mem_mark hc
  | map key value n ihk ihv =>
    simp only [render_map, List.mem_append] at hc
    rcases hc with (((hc | hc) | hc) | hc) | hc
    · exact Text.isBlank_eq_false_of_all (by decide) hc
    · exact ihk hc
    · exact Text.isBlank_eq_false_of_all (by decide) hc
    · exact ihv hc
    · exact isBlank_of_mem_mark hc
  | custom name ps n ih =>
    by_cases hps : ps = []
    · subst hps
      rw [render_custom_nil, List.mem_append] at hc
      exact hc.elim name.isBlank_eq_false isBlank_of_mem_mark
    · rw [render_custom hps] at hc
      simp only [List.mem_append, List.mem_cons, List.not_mem_nil, or_false] at hc
      rcases hc with (hc | (rfl | hc) | rfl) | hc
      · exact name.isBlank_eq_false hc
      · decide
      · rcases Text.mem_joined hc with ⟨t, ht, hct⟩ | hcomma
        · obtain ⟨p, hp, rfl⟩ := List.mem_map.mp ht
          exact ih p hp hct
        · obtain rfl : c = ',' := by simpa using hcomma
          decide
      · decide
      · exact isBlank_of_mem_mark hc

/-- Only a nullable tree is written with a mark at the end. -/
theorem Expressible.getLast?_render {t : FieldType} (h : t.Expressible)
    (hn : t.nullable = false) : t.render.getLast? ≠ some '?' := by
  induction t with
  | primitive kind n =>
    obtain rfl : n = false := hn
    cases kind <;> decide
  | list element n =>
    obtain rfl : n = false := hn
    simp [mark]
  | map key value n _ ihv =>
    obtain rfl : n = false := hn
    obtain ⟨hvalue, -, hv⟩ := expressible_map.mp h
    have hlast := ihv hv (by simpa using hvalue)
    have hmark : (map key value false).render = "map[" ++ key.render ++ "]" ++ value.render :=
      List.append_nil _
    rw [hmark, List.getLast?_append_of_ne_nil _ (render_ne_nil value)]
    exact hlast
  | custom name ps n =>
    obtain rfl : n = false := hn
    by_cases hps : ps = []
    · subst hps
      intro hlast
      refine name.not_mem_text (c := '?') (by decide) ?_
      simpa [mark] using List.mem_of_getLast? hlast
    · have hclose : (custom name ps false).render =
          name.text ++ '[' :: Text.joined "," (ps.map render) ++ [']'] := by
        simp [render_custom hps, mark]
      rw [hclose, List.getLast?_append_of_ne_nil _ (by simp)]
      decide

end FieldType

end ClassSchema
