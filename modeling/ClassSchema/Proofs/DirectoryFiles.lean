import ClassSchema.Proofs.DirectorySearch

/-!
# The files of a directory

For a directory with a plain path, whatever lies below it and has the extension is found:
every place once, in increasing order. That is exactly the schema files if no directory
below it has the extension and the search does not lose its way. Patterns make no
difference between files and directories, and the path of the directory is read as part of
the pattern, so neither condition can be dropped, nor that the path is plain.
-/

namespace ClassSchema

/-- A place below another one with a name that ends in a dot and the extension. -/
def HasExtension (extension : Text) (l k : Location) : Prop :=
  ∃ front name, k = l ++ (front ++ [name]) ∧ '.' :: extension <:+ name

def IsSchemaFile (fs : FileSystem) (extension : Text) (l k : Location) : Prop :=
  HasExtension extension l k ∧ ∃ contents, fs.node? k = some (.file contents)

/-- Paths in increasing order, each to another one of some places and one to each. -/
structure Lists (fs : FileSystem) (place : Location → Prop) (files : List Path) : Prop where
  increasing : files.Pairwise (Path.order · · = .lt)
  nodup : (files.map fs.locate).Nodup
  mem_iff : ∀ r, r ∈ files.map fs.locate ↔ ∃ k, place k ∧ r = .ok k

/-- A directory is answered with the paths of some places, or with the failure that says
that there are none. -/
def Answers (fs : FileSystem) (d : Path) (place : Location → Prop)
    (answer : Except Failure (List Path)) : Prop :=
  (∃ files, answer = .ok files ∧ files ≠ [] ∧ Lists fs place files) ∨
    (answer = .error (.noSchemaFiles d) ∧ ∀ k, ¬ place k)

variable {fs : FileSystem} {base d : Path} {extension : Text} {k l : Location}
  {names : List Text} {place place' : Location → Prop} {files : List Path}
  {answer : Except Failure (List Path)}

theorem Lists.place_iff (h : Lists fs place files) (k : Location) :
    place k ↔ .ok k ∈ files.map fs.locate := by
  rw [h.mem_iff]
  constructor
  · exact fun hk => ⟨k, hk, rfl⟩
  · rintro ⟨k', hk', heq⟩
    cases heq
    exact hk'

theorem Answers.place_iff (h : Answers fs d place answer) (h' : Answers fs d place' answer)
    (k : Location) : place k ↔ place' k := by
  rcases h with ⟨files, rfl, -, hlists⟩ | ⟨rfl, hnone⟩
  · rcases h' with ⟨files', heq, -, hlists'⟩ | ⟨heq, -⟩
    · cases heq
      rw [hlists.place_iff, hlists'.place_iff]
    · cases heq
  · rcases h' with ⟨files', heq, -, -⟩ | ⟨-, hnone'⟩
    · cases heq
    · exact iff_of_false (hnone k) (hnone' k)

theorem Answers.place_of_mem (h : Answers fs d place answer) (hfiles : answer = .ok files)
    {p : Path} (hp : p ∈ files) (hk : fs.locate p = .ok k) : place k := by
  rcases h with ⟨files', heq, -, hlists⟩ | ⟨heq, -⟩
  · cases hfiles.symm.trans heq
    exact (hlists.place_iff k).mpr (List.mem_map.mpr ⟨p, hp, hk⟩)
  · cases hfiles.symm.trans heq

theorem Answers.exists_of_place (h : Answers fs d place answer) (hk : place k) :
    ∃ files, answer = .ok files := by
  rcases h with ⟨files, heq, -, -⟩ | ⟨-, hnone⟩
  · exact ⟨files, heq⟩
  · exact absurd hk (hnone k)

theorem Answers.answers_iff (h : Answers fs d place answer) :
    Answers fs d place' answer ↔ ∀ k, place k ↔ place' k := by
  constructor
  · exact fun h' => h.place_iff h'
  · intro hiff
    rwa [← funext fun k => propext (hiff k)]

namespace Search

theorem lastMatches_concat (front : List Text) (name : Text) :
    lastMatches (.anyText :: Pattern.plain ('.' :: extension)) (front ++ [name]) = true ↔
      '.' :: extension <:+ name := by
  rw [lastMatches, List.getLast?_concat]
  exact Pattern.matchesText_star

theorem mem_namesBelow_iff :
    names ∈ namesBelow fs extension l ↔
      HasExtension extension l (l ++ names) ∧ fs.node? (l ++ names) ≠ none := by
  unfold namesBelow HasExtension
  rw [List.mem_filter, FileSystem.mem_below_iff]
  constructor
  · rintro ⟨⟨hne, hnode⟩, hlast⟩
    obtain ⟨front, name, rfl⟩ := (List.eq_nil_or_concat' names).resolve_left hne
    exact ⟨⟨front, name, rfl, (lastMatches_concat front name).mp hlast⟩, hnode⟩
  · rintro ⟨⟨front, name, heq, hname⟩, hnode⟩
    obtain rfl := List.append_cancel_left heq
    exact ⟨⟨by simp, hnode⟩, (lastMatches_concat front name).mpr hname⟩

theorem mem_below_of_mem_namesBelow (h : names ∈ namesBelow fs extension l) :
    names ∈ fs.below l :=
  List.mem_of_mem_filter h

theorem StandsAt.eq_of_components_extend {names' : List Text} (h : StandsAt fs base l)
    (hfs : fs.IsTree) (hnames : names ∈ fs.below l) (hnames' : names' ∈ fs.below l)
    (heq : (extend base names).components = (extend base names').components) :
    names = names' := by
  rw [h.components_extend hfs hnames, h.components_extend hfs hnames'] at heq
  exact List.map_injective_iff.mpr (fun _ _ h => Path.Component.name.inj h)
    (List.append_cancel_left heq)

/-- Once sorted, the results are the places with the extension. -/
theorem StandsAt.lists (h : StandsAt fs base l) (hfs : fs.IsTree) :
    Lists fs (fun k => HasExtension extension l k ∧ fs.node? k ≠ none)
      (Sorted.ofList Path.order ((namesBelow fs extension l).map (extend base))) := by
  have hpairwise : (Sorted.ofList Path.order
      ((namesBelow fs extension l).map (extend base))).Pairwise (Path.order · · = .lt) :=
    Sorted.pairwise_ofList _
  have hlocate {p : Path}
      (hp : p ∈ Sorted.ofList Path.order ((namesBelow fs extension l).map (extend base))) :
      ∃ names ∈ namesBelow fs extension l, extend base names = p ∧
        fs.locate p = .ok (l ++ names) := by
    obtain ⟨names, hnames, rfl⟩ := List.mem_map.mp (Sorted.mem_of_mem_ofList hp)
    exact ⟨names, hnames, rfl, h.locate_extend hfs (mem_below_of_mem_namesBelow hnames)⟩
  refine ⟨hpairwise, ?_, fun r => ?_⟩
  · refine List.pairwise_map.mpr (hpairwise.imp_of_mem fun {p q} hp hq hlt heq => ?_)
    obtain ⟨names, -, rfl, hnames⟩ := hlocate hp
    obtain ⟨names', -, rfl, hnames'⟩ := hlocate hq
    rw [hnames, hnames'] at heq
    obtain rfl := List.append_cancel_left (Except.ok.inj heq)
    have hself : Path.order (extend base names) (extend base names) = .eq :=
      Std.ReflCmp.compare_self
    rw [hself] at hlt
    cases hlt
  · constructor
    · intro hr
      obtain ⟨p, hp, rfl⟩ := List.mem_map.mp hr
      obtain ⟨names, hnames, -, hplace⟩ := hlocate hp
      exact ⟨l ++ names, mem_namesBelow_iff.mp hnames, hplace⟩
    · rintro ⟨k, ⟨hextension, hnode⟩, rfl⟩
      obtain ⟨front, name, rfl, -⟩ := id hextension
      have hnames := mem_namesBelow_iff.mpr ⟨hextension, hnode⟩
      -- Of equal paths only one is kept, but equal paths lead to one place.
      have hcomponents : (extend base (front ++ [name])).components ∈
          (Sorted.ofList Path.order ((namesBelow fs extension l).map (extend base))).map
            Path.components := by
        rw [Path.map_components_ofList, Sorted.mem_ofList, List.map_map]
        exact List.mem_map_of_mem hnames
      obtain ⟨p, hp, heq⟩ := List.mem_map.mp hcomponents
      obtain ⟨names, hmem, rfl, hplace⟩ := hlocate hp
      obtain rfl := h.eq_of_components_extend hfs (mem_below_of_mem_namesBelow hmem)
        (mem_below_of_mem_namesBelow hnames) heq
      exact List.mem_map.mpr ⟨_, hp, hplace⟩

end Search

theorem discover_singleton (fs : FileSystem) (extension : Text) (p : Path) :
    discover fs extension [p] =
      (filesOfPath fs extension p).map (Sorted.ofList Path.order) := by
  rw [discover_eq_mapM, List.mapM_cons, List.mapM_nil]
  cases filesOfPath fs extension p with
  | error => rfl
  | ok ps =>
    change Except.ok (Sorted.ofList Path.order [ps].flatten) = _
    rw [List.flatten_singleton]
    rfl

/-- The files of a directory with a plain path. -/
theorem filesOfPath_directory (hd : fs.locate d = .ok l) (hl : fs.node? l = some .directory)
    (hplain : ∀ c ∈ d.text, Pattern.isWildcard c = false)
    (hextension : ∀ c ∈ extension, Pattern.isWildcard c = false) (hslash : '/' ∉ extension) :
    filesOfPath fs extension d =
      if (Search.forExtension d extension).results fs = [] then .error (.noSchemaFiles d)
      else .ok ((Search.forExtension d extension).results fs) := by
  have hfind : fs.find d = .ok .directory := bind_eq_ok_iff.mpr ⟨l, hd, by rw [hl]⟩
  have hfile : fs.isFile d = false := by rw [FileSystem.isFile, hfind]
  have hdirectory : fs.isDirectory d = true := by rw [FileSystem.isDirectory, hfind]
  have hread := Search.ofPattern_extensionPattern (FileSystem.text_ne_nil_of_locate hd) hplain
    hextension hslash
  unfold Search.extensionPattern at hread
  rw [filesOfPath, hfile, hdirectory, hread]
  cases hresults : (Search.forExtension d extension).results fs <;>
    simp [bind, Except.bind, Except.mapError, hresults]

/-- What is found is whatever has the extension, unless the search loses its way. -/
theorem answers_directory (hfs : fs.IsTree) (hd : fs.locate d = .ok l)
    (hl : fs.node? l = some .directory) (hplain : ∀ c ∈ d.text, Pattern.isWildcard c = false)
    (hextension : ∀ c ∈ extension, Pattern.isWildcard c = false) (hslash : '/' ∉ extension) :
    Answers fs d
      (fun k => Search.losesPlace d = false ∧ HasExtension extension l k ∧ fs.node? k ≠ none)
      (discover fs extension [d]) := by
  obtain ⟨hlost, hfound⟩ := Search.results_forExtension hd hl extension
  rw [discover_singleton, filesOfPath_directory hd hl hplain hextension hslash]
  cases hplace : Search.losesPlace d with
  | true =>
    rw [if_pos (hlost hplace)]
    exact .inr ⟨rfl, by simp⟩
  | false =>
    obtain ⟨base, hbase, hresults⟩ := hfound hplace
    have hlists : Lists fs (fun k => HasExtension extension l k ∧ fs.node? k ≠ none)
        (Sorted.ofList Path.order ((Search.forExtension d extension).results fs)) := by
      rw [hresults]
      exact hbase.lists hfs
    simp only [true_and]
    split_ifs with hnil
    · refine .inr ⟨rfl, fun k hk => ?_⟩
      have hmem := (hlists.place_iff k).mp hk
      rw [hnil] at hmem
      cases hmem
    · refine .inl ⟨_, rfl, fun hempty => hnil ?_, hlists⟩
      rw [hresults, List.map_eq_nil_iff, List.eq_nil_iff_forall_not_mem]
      intro names hnames
      have hmem := (hlists.place_iff (l ++ names)).mp (Search.mem_namesBelow_iff.mp hnames)
      rw [hempty] at hmem
      cases hmem

/-- A directory with a plain path is answered with whatever lies below it and has the
extension, directories too, unless the search loses its way. So the answer is exact if no
directory has the extension, and a search that loses its way is right if there is nothing
to be found. -/
theorem discover_directory_exact_iff (hfs : fs.IsTree) (hd : fs.locate d = .ok l)
    (hl : fs.node? l = some .directory) (hplain : ∀ c ∈ d.text, Pattern.isWildcard c = false)
    (hextension : ∀ c ∈ extension, Pattern.isWildcard c = false) (hslash : '/' ∉ extension) :
    Answers fs d
      (fun k => Search.losesPlace d = false ∧ HasExtension extension l k ∧ fs.node? k ≠ none)
      (discover fs extension [d]) ∧
    (Answers fs d (IsSchemaFile fs extension l) (discover fs extension [d]) ↔
      if Search.losesPlace d then ∀ k, ¬ IsSchemaFile fs extension l k
      else ∀ k, HasExtension extension l k → fs.node? k ≠ some .directory) := by
  have hanswers := answers_directory hfs hd hl hplain hextension hslash
  refine ⟨hanswers, ?_⟩
  rw [hanswers.answers_iff]
  cases Search.losesPlace d with
  | true => simp
  | false =>
    simp only [true_and, Bool.false_eq_true, if_false]
    refine forall_congr' fun k => ?_
    unfold IsSchemaFile
    cases fs.node? k with
    | none => simp
    | some node => cases node <;> simp

theorem forall_ne_directory_iff :
    (∀ k, HasExtension extension l k → fs.node? k ≠ some .directory) ↔
      ∀ names ∈ Search.namesBelow fs extension l, fs.node? (l ++ names) ≠ some .directory := by
  constructor
  · intro h names hnames
    exact h _ (Search.mem_namesBelow_iff.mp hnames).1
  · intro h k hk hnode
    obtain ⟨front, name, rfl, -⟩ := id hk
    exact h _ (Search.mem_namesBelow_iff.mpr ⟨hk, by simp [hnode]⟩) hnode

/-- Files at two depths, beside a file without the extension. -/
theorem discover_directory_exact_nested :
    let fs : FileSystem := ⟨[(["w"], .directory), (["w", "d"], .directory),
      (["w", "d", "s"], .directory), (["w", "d", "s", "b.ut"], .file (.text "B:\n")),
      (["w", "d", "s", "c.txt"], .file (.text "C:\n")),
      (["w", "d", ".a.ut"], .file (.text "A:\n"))], ["w"]⟩
    discover fs "ut" [⟨"./d/"⟩] = .ok [⟨"d/.a.ut"⟩, ⟨"d/s/b.ut"⟩] ∧
      Answers fs ⟨"./d/"⟩ (IsSchemaFile fs "ut" ["w", "d"]) (discover fs "ut" [⟨"./d/"⟩]) := by
  intro fs
  have hd : fs.locate ⟨"./d/"⟩ = .ok ["w", "d"] := toOption_eq_some_iff.mp (by decide +kernel)
  have hplain (t : Text) (h : t.all (!Pattern.isWildcard ·) = true) :
      ∀ c ∈ t, Pattern.isWildcard c = false := by
    simpa using h
  refine ⟨toOption_eq_some_iff.mp (by decide +kernel), ?_⟩
  refine (discover_directory_exact_iff (by decide +kernel) hd (by decide +kernel)
    (hplain _ (by decide)) (hplain _ (by decide)) (by decide)).2.mpr ?_
  have hplace : Search.losesPlace ⟨"./d/"⟩ = false := by decide +kernel
  rw [hplace, if_neg Bool.false_ne_true, forall_ne_directory_iff]
  decide +kernel

/-- The answer is not always exact: a path with a bracket is read as a pattern and its file is
missed, a dot with a slash behind it finds nothing, a directory with the extension is taken
for a file, and an extension with a slash goes across names. -/
theorem discover_directory_inexact :
    let fs : FileSystem := ⟨[(["w"], .directory), (["w", "a[1]"], .directory),
      (["w", "a[1]", "x.ut"], .file (.text "X:\n")), (["w", "d"], .directory),
      (["w", "d", "y.ut"], .directory), (["w", "d", "y.ut", "b"], .file (.text "B:\n"))], ["w"]⟩
    fs.IsTree ∧
    (fs.locate ⟨"a[1]"⟩ = .ok ["w", "a[1]"] ∧
      ¬ Answers fs ⟨"a[1]"⟩ (IsSchemaFile fs "ut" ["w", "a[1]"]) (discover fs "ut" [⟨"a[1]"⟩])) ∧
    (fs.locate ⟨"./"⟩ = .ok ["w"] ∧
      ¬ Answers fs ⟨"./"⟩ (IsSchemaFile fs "ut" ["w"]) (discover fs "ut" [⟨"./"⟩])) ∧
    fs.locate ⟨"d"⟩ = .ok ["w", "d"] ∧
      ¬ Answers fs ⟨"d"⟩ (IsSchemaFile fs "ut" ["w", "d"]) (discover fs "ut" [⟨"d"⟩]) ∧
      ¬ Answers fs ⟨"d"⟩ (IsSchemaFile fs "ut/b" ["w", "d"]) (discover fs "ut/b" [⟨"d"⟩]) := by
  intro fs
  have hx (l front : Location) (hl : l ++ front = (["w", "a[1]"] : Location)) :
      IsSchemaFile fs "ut" l ["w", "a[1]", "x.ut"] := by
    refine ⟨⟨front, "x.ut", ?_, by decide +kernel⟩, .text "X:\n", by decide +kernel⟩
    rw [← List.append_assoc, hl]
    rfl
  refine ⟨by decide +kernel, ⟨toOption_eq_some_iff.mp (by decide +kernel), fun h => ?_⟩,
    ⟨toOption_eq_some_iff.mp (by decide +kernel), fun h => ?_⟩,
    toOption_eq_some_iff.mp (by decide +kernel), fun h => ?_, fun h => ?_⟩
  · obtain ⟨files, hfiles⟩ := h.exists_of_place (hx ["w", "a[1]"] [] rfl)
    have hnone : (discover fs "ut" [⟨"a[1]"⟩]).toOption = none := by decide +kernel
    rw [hfiles] at hnone
    cases hnone
  · obtain ⟨files, hfiles⟩ := h.exists_of_place (hx ["w"] ["a[1]"] rfl)
    have hnone : (discover fs "ut" [⟨"./"⟩]).toOption = none := by decide +kernel
    rw [hfiles] at hnone
    cases hnone
  · have hfiles : discover fs "ut" [⟨"d"⟩] = .ok [⟨"d/y.ut"⟩] :=
      toOption_eq_some_iff.mp (by decide +kernel)
    have hlocate : fs.locate ⟨"d/y.ut"⟩ = .ok ["w", "d", "y.ut"] :=
      toOption_eq_some_iff.mp (by decide +kernel)
    obtain ⟨-, contents, hnode⟩ := h.place_of_mem hfiles (List.mem_singleton_self _) hlocate
    have hdirectory : fs.node? ["w", "d", "y.ut"] = some .directory := by decide +kernel
    cases hdirectory.symm.trans hnode
  · have hfiles : discover fs "ut/b" [⟨"d"⟩] = .ok [⟨"d/y.ut/b"⟩] :=
      toOption_eq_some_iff.mp (by decide +kernel)
    have hlocate : fs.locate ⟨"d/y.ut/b"⟩ = .ok ["w", "d", "y.ut", "b"] :=
      toOption_eq_some_iff.mp (by decide +kernel)
    obtain ⟨⟨front, name, heq, hname⟩, -⟩ :=
      h.place_of_mem hfiles (List.mem_singleton_self _) hlocate
    -- The name of what is found is too short for the extension.
    rw [← List.append_assoc] at heq
    have hlast : some "b".toList = some name :=
      (congrArg List.getLast? heq).trans List.getLast?_concat
    rw [← Option.some.inj hlast] at hname
    exact absurd hname (by decide +kernel)

end ClassSchema
