import ClassSchema.Proofs.Sessions

/-!
# Path arguments form a set

Every path stands for some files, whatever other paths are given beside it. The files of
all paths are put in order by their components, where the first of equal paths is kept.
So neither the order of the arguments nor a repetition changes which files are found; it
can only change how the path of a file is written.
-/

namespace ClassSchema

namespace Sorted

variable {α β : Type} {order : α → α → Ordering} {order' : β → β → Ordering} {f : α → β}

end Sorted

namespace Path

instance : Std.LawfulEqCmp Component.order where
  compare_self := Std.ReflCmp.compare_self
  eq_of_compare {a b} h := by
    cases a <;> cases b
    case name.name t u =>
      have htext : Text.order t u = .eq := h
      rw [Std.LawfulEqCmp.eq_of_compare htext]
    all_goals simp_all [Component.order, Component.rank]

theorem map_components_ofList (paths : List Path) :
    (Sorted.ofList Path.order paths).map components =
      Sorted.ofList (List.compareLex Component.order) (paths.map components) := by
  have horder (p q : Path) :
      Path.order p q = List.compareLex Component.order p.components q.components := rfl
  exact Sorted.map_ofList horder paths

end Path

theorem exists_forall₂_iff {α β : Type} {R : α → β → Prop} {as : List α} :
    (∃ bs, List.Forall₂ R as bs) ↔ ∀ a ∈ as, ∃ b, R a b := by
  induction as with
  | nil => simp
  | cons a as ih =>
    rw [List.forall_mem_cons, ← ih]
    constructor
    · rintro ⟨bs, h⟩
      obtain ⟨b, more, hb, hmore, -⟩ := List.forall₂_cons_left_iff.mp h
      exact ⟨⟨b, hb⟩, more, hmore⟩
    · rintro ⟨⟨b, hb⟩, more, hmore⟩
      exact ⟨b :: more, .cons hb hmore⟩

variable {fs : FileSystem} {extension : Text} {paths paths' files files' : List Path}

theorem discover_eq_ok_iff :
    discover fs extension paths = .ok files ↔
      ∃ found, List.Forall₂ (fun p ps => filesOfPath fs extension p = .ok ps) paths found ∧
        files = Sorted.ofList Path.order found.flatten := by
  rw [discover_eq_mapM, bind_eq_ok_iff]
  simp only [mapM_eq_ok_iff]
  exact exists_congr fun found => and_congr_right fun _ =>
    ⟨fun h => by cases h; rfl, fun h => by rw [h]; rfl⟩

theorem exists_discover_eq_ok_iff :
    (∃ files, discover fs extension paths = .ok files) ↔
      ∀ p ∈ paths, ∃ ps, filesOfPath fs extension p = .ok ps := by
  rw [← exists_forall₂_iff]
  constructor
  · rintro ⟨files, h⟩
    obtain ⟨found, hfound, -⟩ := discover_eq_ok_iff.mp h
    exact ⟨found, hfound⟩
  · rintro ⟨found, hfound⟩
    exact ⟨_, discover_eq_ok_iff.mpr ⟨found, hfound, rfl⟩⟩

theorem mem_flatten_iff_of_forall₂ {ε α β : Type} {f : α → Except ε (List β)} {as : List α}
    {found : List (List β)} (h : List.Forall₂ (fun a bs => f a = .ok bs) as found) {b : β} :
    b ∈ found.flatten ↔ ∃ a ∈ as, ∃ bs, f a = .ok bs ∧ b ∈ bs := by
  induction h with
  | nil => simp
  | cons hhead _ ih => simp [hhead, ih]

/-- What is found has the components of the files of the paths. -/
theorem mem_components_discover (h : discover fs extension paths = .ok files)
    {components : List Path.Component} :
    components ∈ files.map Path.components ↔
      ∃ p ∈ paths, ∃ ps, filesOfPath fs extension p = .ok ps ∧
        components ∈ ps.map Path.components := by
  obtain ⟨found, hfound, rfl⟩ := discover_eq_ok_iff.mp h
  rw [Path.map_components_ofList, Sorted.mem_ofList, List.mem_map]
  simp only [mem_flatten_iff_of_forall₂ hfound, List.mem_map]
  constructor
  · rintro ⟨q, ⟨p, hp, ps, hps, hq⟩, rfl⟩
    exact ⟨p, hp, ps, hps, q, hq, rfl⟩
  · rintro ⟨p, hp, ps, hps, q, hq, rfl⟩
    exact ⟨q, ⟨p, hp, ps, hps, hq⟩, rfl⟩

/-- Lists with the same paths in them, in any order and with repetitions, find files either
both or not at all. What they find is in strictly increasing order and, compared by
components, the same. -/
theorem discover_of_same_paths (h : ∀ p, p ∈ paths ↔ p ∈ paths') :
    ((∃ files, discover fs extension paths = .ok files) ↔
      ∃ files', discover fs extension paths' = .ok files') ∧
    ∀ files files', discover fs extension paths = .ok files →
      discover fs extension paths' = .ok files' →
        files.Pairwise (Path.order · · = .lt) ∧ files'.Pairwise (Path.order · · = .lt) ∧
        files.map Path.components = files'.map Path.components := by
  constructor
  · simp only [exists_discover_eq_ok_iff, h]
  · intro files files' hfiles hfiles'
    have hpairwise := pairwise_discover hfiles
    have hpairwise' := pairwise_discover hfiles'
    have hkeys {fs : List Path} (h : fs.Pairwise (Path.order · · = .lt)) :
        (fs.map Path.components).Pairwise
          (List.compareLex Path.Component.order · · = .lt) := List.pairwise_map.mpr h
    refine ⟨hpairwise, hpairwise', ?_⟩
    refine Sorted.eq_of_pairwise_of_mem_iff (hkeys hpairwise) (hkeys hpairwise')
      fun components => ?_
    rw [mem_components_discover hfiles, mem_components_discover hfiles']
    simp only [h]

/-- A directory that is named in two ways, and a file. The paths of the file below the
directory are written differently, because the first of equal paths is kept. -/
theorem discover_of_same_paths_overlapping :
    let fs : FileSystem := ⟨[(["w"], .directory), (["w", "b.ut"], .file (.text "B:\n")),
      (["w", "d"], .directory), (["w", "d", "x.ut"], .file (.text "X:\n"))], ["w"]⟩
    let paths : List Path := [⟨"d/."⟩, ⟨"b.ut"⟩, ⟨"d"⟩]
    let paths' : List Path := [⟨"d"⟩, ⟨"d"⟩, ⟨"d/."⟩, ⟨"b.ut"⟩]
    let files : List Path := [⟨"b.ut"⟩, ⟨"d/./x.ut"⟩]
    let files' : List Path := [⟨"b.ut"⟩, ⟨"d/x.ut"⟩]
    discover fs "ut" paths = .ok files ∧ discover fs "ut" paths' = .ok files' ∧ files ≠ files' ∧
      files.Pairwise (Path.order · · = .lt) ∧
      files.map Path.components = files'.map Path.components := by
  intro fs paths paths' files files'
  have hsame : ∀ p, p ∈ paths ↔ p ∈ paths' := by
    intro p
    simp only [paths, paths', List.mem_cons, List.not_mem_nil, or_false]
    tauto
  have hfiles : discover fs "ut" paths = .ok files := toOption_eq_some_iff.mp (by decide +kernel)
  have hfiles' : discover fs "ut" paths' = .ok files' := toOption_eq_some_iff.mp (by decide +kernel)
  obtain ⟨hpairwise, -, hcomponents⟩ := (discover_of_same_paths hsame).2 files files' hfiles hfiles'
  exact ⟨hfiles, hfiles', by decide, hpairwise, hcomponents⟩

end ClassSchema
