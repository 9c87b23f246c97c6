import ClassSchema.Proofs.ClassMembers

/-!
# Which collision is reported

Code is made only if the names of a model keep apart as identifiers. Otherwise the first
name whose identifier stands earlier in the list is reported. Everything in front of that
name is still different, so there is only one earlier name that it can clash with.
-/

namespace ClassSchema

section Repetition

variable {α β γ : Type} {key : α → β} {as : List α} {i j : ℕ}

def AgreeAt (key : α → β) (as : List α) (i j : ℕ) : Prop :=
  ∃ a b, as[i]? = some a ∧ as[j]? = some b ∧ key a = key b

/-- The position `j` is the first one that repeats an earlier key, and `i` is the only
earlier position with that key. -/
structure IsFirstRepeat (key : α → β) (as : List α) (i j : ℕ) : Prop where
  lt : i < j
  agree : AgreeAt key as i j
  first : ∀ j' < j, ∀ i' < j', ¬ AgreeAt key as i' j'
  unique : ∀ i' < j, AgreeAt key as i' j → i' = i

theorem AgreeAt.symm (h : AgreeAt key as i j) : AgreeAt key as j i := by
  obtain ⟨a, b, ha, hb, hkey⟩ := h
  exact ⟨b, a, hb, ha, hkey.symm⟩

theorem AgreeAt.trans {k : ℕ} (hij : AgreeAt key as i j) (hjk : AgreeAt key as j k) :
    AgreeAt key as i k := by
  obtain ⟨a, b, ha, hb, hab⟩ := hij
  obtain ⟨b', c, hb', hc, hbc⟩ := hjk
  obtain rfl : b = b' := Option.some.inj (hb.symm.trans hb')
  exact ⟨a, c, ha, hc, hab.trans hbc⟩

theorem AgreeAt.of_append {front rest : List α} (h : AgreeAt key (front ++ rest) i j)
    (hi : i < front.length) (hj : j < front.length) : AgreeAt key front i j := by
  obtain ⟨a, b, ha, hb, hkey⟩ := h
  rw [List.getElem?_append_left hi] at ha
  rw [List.getElem?_append_left hj] at hb
  exact ⟨a, b, ha, hb, hkey⟩

theorem nodup_map_iff_agreeAt :
    (as.map key).Nodup ↔ ∀ i j, AgreeAt key as i j → i = j := by
  constructor
  · rintro h i j ⟨a, b, ha, hb, hkey⟩
    obtain ⟨hi, -⟩ := List.getElem?_eq_some_iff.mp ha
    have hmap : (as.map key)[i]? = (as.map key)[j]? := by
      rw [List.getElem?_map, List.getElem?_map, ha, hb, Option.map_some, Option.map_some, hkey]
    exact (List.getElem?_inj (by simpa using hi) h).mp hmap
  · intro h
    refine List.nodup_iff_injective_get.mpr fun x y hxy => Fin.ext (h x y ?_)
    have hx : (x : ℕ) < as.length := by simpa using x.isLt
    have hy : (y : ℕ) < as.length := by simpa using y.isLt
    refine ⟨as[x], as[y], List.getElem?_eq_getElem hx, List.getElem?_eq_getElem hy, ?_⟩
    simpa using hxy

/-- A list that is free of repetitions up to an element, which repeats an earlier one. -/
theorem exists_isFirstRepeat {front : List α} {a b : α} (rest : List α)
    (h : (front.map key).Nodup) (ha : a ∈ front) (hkey : key a = key b) :
    ∃ i, IsFirstRepeat key (front ++ b :: rest) i front.length ∧
      (front ++ b :: rest)[i]? = some a := by
  obtain ⟨i, hi, rfl⟩ := List.mem_iff_getElem.mp ha
  have hget : (front ++ b :: rest)[i]? = some front[i] := by
    rw [List.getElem?_append_left hi, List.getElem?_eq_getElem hi]
  have hagree : AgreeAt key (front ++ b :: rest) i front.length :=
    ⟨front[i], b, hget, by simp, hkey⟩
  have hfront : ∀ i' < front.length, ∀ j' < front.length,
      AgreeAt key (front ++ b :: rest) i' j' → i' = j' := fun i' hi' j' hj' hagree =>
    nodup_map_iff_agreeAt.mp h i' j' (hagree.of_append hi' hj')
  refine ⟨i, ⟨hi, hagree, ?_, ?_⟩, hget⟩
  · intro j' hj' i' hi' hagree'
    exact hi'.ne (hfront i' (hi'.trans hj') j' hj' hagree')
  · intro i' hi' hagree'
    exact hfront i' hi' i hi (hagree'.trans hagree.symm)

theorem exists_isFirstRepeat_of_firstClash? [DecidableEq β] {a b : α}
    (h : firstClash? key as = some (a, b)) :
    ∃ i j, IsFirstRepeat key as i j ∧ as[i]? = some a ∧ as[j]? = some b := by
  obtain ⟨front, rest, rfl, hfront, ha, hkey⟩ := exists_of_firstClash? h
  obtain ⟨i, hrepeat, hget⟩ := exists_isFirstRepeat rest hfront ha hkey
  exact ⟨i, front.length, hrepeat, hget, by simp⟩

end Repetition

section Report

variable {α : Type} {language : Language} {name identifier : α → Text} {as : List α}

/-- The collision names the first thing whose identifier stands earlier in the list, and
the only earlier thing that has it. -/
def Collision.IsFirstAmong (c : Collision) (name identifier : α → Text) (as : List α) : Prop :=
  ∃ i j a b, IsFirstRepeat identifier as i j ∧ as[i]? = some a ∧ as[j]? = some b ∧
    c.first = name a ∧ c.second = name b ∧
    c.identifier = identifier a ∧ c.identifier = identifier b

/-- Things with names are rendered as identifiers: this fails exactly if two of them have
the same identifier, and then reports the first such collision. -/
structure ReportsCollisions (language : Language) (name identifier : α → Text) (as : List α)
    (result : Except Collision Text) : Prop where
  fails_iff : (∃ c, result = .error c) ↔ ∃ i j, i ≠ j ∧ AgreeAt identifier as i j
  collision : ∀ c, result = .error c → c.language = language ∧ c.IsFirstAmong name identifier as
  distinct : ∀ code, result = .ok code → (as.map identifier).Nodup

theorem Collision.find?_map (language : Language) (name identifier : α → Text) (as : List α) :
    Collision.find? language (as.map fun a => ⟨name a, identifier a⟩) =
      (firstClash? identifier as).map fun p =>
        ⟨language, name p.1, name p.2, identifier p.2⟩ := by
  let rendering (a : α) : Rendering := ⟨name a, identifier a⟩
  have hmap : firstClashAfter Rendering.identifier [] (as.map rendering) =
      (firstClashAfter identifier [] as).map (Prod.map rendering rendering) :=
    firstClashAfter_map rendering [] as
  unfold Collision.find? firstClash?
  rw [hmap, Option.map_map]
  rfl

theorem Collision.isFirstAmong_of_find? {c : Collision}
    (h : Collision.find? language (as.map fun a => ⟨name a, identifier a⟩) = some c) :
    c.language = language ∧ c.IsFirstAmong name identifier as := by
  rw [Collision.find?_map] at h
  obtain ⟨⟨a, b⟩, hclash, rfl⟩ := Option.map_eq_some_iff.mp h
  obtain ⟨i, j, hrepeat, ha, hb⟩ := exists_isFirstRepeat_of_firstClash? hclash
  obtain ⟨a', b', ha', hb', hkey⟩ := hrepeat.agree
  obtain rfl : a = a' := Option.some.inj (ha.symm.trans ha')
  obtain rfl : b = b' := Option.some.inj (hb.symm.trans hb')
  exact ⟨rfl, i, j, a, b, hrepeat, ha, hb, rfl, rfl, hkey.symm, rfl⟩

/-- A result that is an error exactly where the search finds a collision. -/
theorem reportsCollisions_of_find? {result : Except Collision Text}
    (herror : ∀ c, result = .error c ↔
      Collision.find? language (as.map fun a => ⟨name a, identifier a⟩) = some c) :
    ReportsCollisions language name identifier as result := by
  have hfails : (∃ c, result = .error c) ↔ ¬ (as.map identifier).Nodup := by
    simp only [herror]
    rw [← Option.ne_none_iff_exists', Ne, Collision.find?_eq_none_iff, List.map_map]
    rfl
  refine ⟨?_, fun c hc => Collision.isFirstAmong_of_find? ((herror c).mp hc), ?_⟩
  · rw [hfails, nodup_map_iff_agreeAt]
    simp only [not_forall, exists_prop, and_comm, ne_eq]
  · intro code hcode
    by_contra hrepeat
    obtain ⟨c, hc⟩ := hfails.mpr hrepeat
    rw [hcode] at hc
    cases hc

theorem Collision.IsFirstAmong.first_ne_second {c : Collision}
    (h : c.IsFirstAmong name identifier as) (hnames : (as.map name).Nodup) :
    c.first ≠ c.second := by
  obtain ⟨i, j, a, b, hrepeat, ha, hb, hfirst, hsecond, -⟩ := h
  intro heq
  have hagree : AgreeAt name as i j := ⟨a, b, ha, hb, by rw [← hfirst, ← hsecond, heq]⟩
  exact hrepeat.lt.ne (nodup_map_iff_agreeAt.mp hnames i j hagree)

end Report

/-- The fields of a struct collide as exported names, the targets of a class as names of
methods. In either language the first collision is reported, and code is made only without
one. The two names of a report differ, in a struct if the names of the fields do. -/
theorem generate_reports_first_collision (m : Model) :
    ReportsCollisions .go (·.name.text) (fun f : Field => Go.exported f.name) m.fields
        (Go.generate m) ∧
      ((m.fields.map Field.name).Nodup →
        ∀ c, Go.generate m = .error c → c.first ≠ c.second) ∧
      ReportsCollisions .typeScript TagTarget.text TypeScript.methodSuffix m.targets
        (TypeScript.generate m) ∧
      ((∃ c, TypeScript.generate m = .error c) ↔ ∃ s ∈ m.targets, ∃ t ∈ m.targets,
        s ≠ t ∧ TypeScript.methodSuffix s = TypeScript.methodSuffix t) ∧
      ∀ c, TypeScript.generate m = .error c → c.first ≠ c.second := by
  have hgo : ReportsCollisions .go (·.name.text) (fun f : Field => Go.exported f.name) m.fields
      (Go.generate m) :=
    reportsCollisions_of_find? fun c => Language.generate_eq_error_iff .go
  have hclass : ReportsCollisions .typeScript TagTarget.text TypeScript.methodSuffix m.targets
      (TypeScript.generate m) :=
    reportsCollisions_of_find? fun c => Language.generate_eq_error_iff .typeScript
  have htexts : (m.targets.map TagTarget.text).Nodup :=
    m.nodup_targets.map TagTarget.text_injective
  refine ⟨hgo, ?_, hclass, ?_, ?_⟩
  · intro hnames c hc
    have hnames' : (m.fields.map (·.name.text)).Nodup := by
      have hmap := hnames.map FieldName.text_injective
      rwa [List.map_map] at hmap
    exact (hgo.collision c hc).2.first_ne_second hnames'
  · rw [hclass.fails_iff]
    constructor
    · rintro ⟨i, j, hne, s, t, hs, ht, hsuffix⟩
      refine ⟨s, List.mem_of_getElem? hs, t, List.mem_of_getElem? ht, ?_, hsuffix⟩
      rintro rfl
      obtain ⟨hi, -⟩ := List.getElem?_eq_some_iff.mp hs
      exact hne ((List.getElem?_inj hi m.nodup_targets).mp (hs.trans ht.symm))
    · rintro ⟨s, hs, t, ht, hne, hsuffix⟩
      obtain ⟨i, hi⟩ := List.mem_iff_getElem?.mp hs
      obtain ⟨j, hj⟩ := List.mem_iff_getElem?.mp ht
      refine ⟨i, j, ?_, s, t, hi, hj, hsuffix⟩
      rintro rfl
      exact hne (Option.some.inj (hi.symm.trans hj))
  · intro c hc
    exact (hclass.collision c hc).2.first_ne_second htexts

/-- Fields that are exported alike because of a letter with two capitals, in front of two
that differ in the case of one letter; and targets that differ in what divides their words. -/
theorem generate_reports_first_collision_mixed :
    let field (name : Text) (h : isBareWord name = true) (target : TagTarget) : Field :=
      ⟨⟨name, h⟩, .primitive .integer false, [⟨target, false, ["k"]⟩]⟩
    let m : Model := ⟨⟨"User", rfl⟩,
      [field "id" rfl ⟨"db_col", rfl⟩, field "ßx" rfl ⟨"json", rfl⟩,
        field "SSx" rfl ⟨"dbCol", rfl⟩, field "Id" rfl ⟨"db-col", rfl⟩]⟩
    ∃ c d : Collision, Go.generate m = .error c ∧ TypeScript.generate m = .error d ∧
      c = ⟨.go, "ßx", "SSx", "SSx"⟩ ∧ d = ⟨.typeScript, "db-col", "dbCol", "DbCol"⟩ ∧
      (m.fields.map Field.name).Nodup ∧ c.first ≠ c.second ∧ d.first ≠ d.second := by
  intro field m
  have hgo : Go.generate m = .error ⟨.go, "ßx", "SSx", "SSx"⟩ := by decide +kernel
  have hclass : TypeScript.generate m = .error ⟨.typeScript, "db-col", "dbCol", "DbCol"⟩ := by
    decide +kernel
  have hnames : (m.fields.map Field.name).Nodup := by decide +kernel
  obtain ⟨-, hdiffer, -, -, hdiffer'⟩ := generate_reports_first_collision m
  exact ⟨_, _, hgo, hclass, rfl, rfl, hnames, hdiffer hnames _ hgo, hdiffer' _ hclass⟩

end ClassSchema
