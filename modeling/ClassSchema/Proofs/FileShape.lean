import ClassSchema.Command.Discovery
import ClassSchema.Proofs.TypeNotation

/-!
# File systems of the same shape

Which paths lead to files and which to directories, and what a search finds,
depends on where files and directories are and not on what the files hold. So a
run that only replaces files by files leaves every later search as it was.
-/

namespace ClassSchema

def Node.isDirectory : Node → Bool
  | .directory => true
  | .file _ => false

namespace FileSystem

/-- Files and directories are at the same places; the files may hold different things. -/
structure SameShape (fs fs' : FileSystem) : Prop where
  workingDirectory : fs'.workingDirectory = fs.workingDirectory
  places : fs'.nodes.map (fun e => (e.1, e.2.isDirectory)) =
    fs.nodes.map fun e => (e.1, e.2.isDirectory)

variable {fs fs' fs'' : FileSystem} {l : Location} {p : Path}

theorem SameShape.refl (fs : FileSystem) : SameShape fs fs := ⟨rfl, rfl⟩

theorem SameShape.trans (h : SameShape fs fs') (h' : SameShape fs' fs'') : SameShape fs fs'' :=
  ⟨h'.workingDirectory.trans h.workingDirectory, h'.places.trans h.places⟩

theorem lookup_map_isDirectory (l : Location) (nodes : List (Location × Node)) :
    (nodes.map fun e => (e.1, e.2.isDirectory)).lookup l =
      (nodes.lookup l).map Node.isDirectory := by
  induction nodes with
  | nil => rfl
  | cons e nodes ih =>
    rw [List.map_cons, List.lookup_cons, List.lookup_cons, ih]
    cases l == e.1 <;> rfl

theorem map_putNode {n n' : Node} {nodes : List (Location × Node)} (h : nodes.lookup l = some n)
    (hkind : n'.isDirectory = n.isDirectory) :
    (putNode l n' nodes).map (fun e => (e.1, e.2.isDirectory)) =
      nodes.map fun e => (e.1, e.2.isDirectory) := by
  induction nodes with
  | nil => simp at h
  | cons e nodes ih =>
    obtain ⟨k, m⟩ := e
    by_cases hk : k = l
    · subst hk
      have hm : m = n := by simpa using h
      simp [putNode, hm, hkind]
    · have hlookup : nodes.lookup l = some n := by
        rwa [List.lookup_cons, beq_false_of_ne (Ne.symm hk)] at h
      simp [putNode, hk, ih hlookup]

theorem SameShape.put {contents : Contents} (h : fs.node? l = some (.file contents))
    (contents' : Contents) : SameShape fs (fs.put l (.file contents')) := by
  have hne := ne_nil_of_node?_eq_file h
  refine ⟨rfl, map_putNode (n := .file contents) ?_ rfl⟩
  rwa [node?, if_neg hne] at h

theorem enter_eq_of_kind (fs : FileSystem) (l : Location) (segment : Text) :
    fs.enter l segment =
      match (fs.node? l).map Node.isDirectory with
      | none => .error .notFound
      | some false => .error .notDirectory
      | some true =>
        if segment = [] ∨ segment = ['.'] then .ok l
        else if segment = ['.', '.'] then .ok l.dropLast
        else .ok (l ++ [segment]) := by
  unfold enter
  cases fs.node? l with
  | none => rfl
  | some n => cases n <;> rfl

theorem map_find (fs : FileSystem) (p : Path) :
    (fs.find p).map Node.isDirectory =
      (fs.locate p).bind fun l =>
        match (fs.node? l).map Node.isDirectory with
        | none => .error .notFound
        | some kind => .ok kind := by
  unfold find
  cases fs.locate p with
  | error e => rfl
  | ok l =>
    cases hnode : fs.node? l <;> simp [bind, Except.map, Except.bind, hnode]

theorem read_eq_ok_iff {t : Text} :
    fs.read p = .ok t ↔ ∃ l, fs.locate p = .ok l ∧ fs.node? l = some (.file (.text t)) := by
  unfold read find
  rw [bind_eq_ok_iff]
  constructor
  · rintro ⟨n, hfind, hn⟩
    obtain ⟨l, hl, hnode⟩ := bind_eq_ok_iff.mp hfind
    refine ⟨l, hl, ?_⟩
    cases hat : fs.node? l with
    | none => simp [hat] at hnode
    | some n' =>
      rw [hat] at hnode
      cases hnode
      split at hn <;> cases hn
      rfl
  · rintro ⟨l, hl, hnode⟩
    exact ⟨_, bind_eq_ok_iff.mpr ⟨l, hl, by rw [hnode]⟩, rfl⟩

theorem write_of_file {contents : Contents} (hl : fs.locate p = .ok l)
    (h : fs.node? l = some (.file contents)) (t : Text) :
    fs.write p t = .ok (fs.put l (.file (.text t))) :=
  bind_eq_ok_iff.mpr ⟨l, hl, by rw [h]⟩

theorem hasAny_eq_of_kind (fs : FileSystem) (p : Path) :
    fs.hasAny p = ((fs.find p).map Node.isDirectory).toOption.isSome := by
  unfold hasAny
  cases fs.find p <;> rfl

theorem isFile_eq_of_kind (fs : FileSystem) (p : Path) :
    fs.isFile p = (((fs.find p).map Node.isDirectory).toOption == some false) := by
  unfold isFile
  cases fs.find p with
  | error e => rfl
  | ok n => cases n <;> rfl

theorem isDirectory_eq_of_kind (fs : FileSystem) (p : Path) :
    fs.isDirectory p = (((fs.find p).map Node.isDirectory).toOption == some true) := by
  unfold isDirectory
  cases fs.find p with
  | error e => rfl
  | ok n => cases n <;> rfl

namespace SameShape

theorem node?_kind (h : SameShape fs fs') (l : Location) :
    (fs'.node? l).map Node.isDirectory = (fs.node? l).map Node.isDirectory := by
  unfold node?
  split_ifs
  · rfl
  · rw [← lookup_map_isDirectory, ← lookup_map_isDirectory, h.places]

theorem locate_eq (h : SameShape fs fs') (p : Path) : fs'.locate p = fs.locate p := by
  have henter : fs'.enter = fs.enter := by
    funext l segment
    rw [enter_eq_of_kind, enter_eq_of_kind, h.node?_kind]
  unfold locate startOf
  rw [henter, h.workingDirectory]

theorem find_kind (h : SameShape fs fs') (p : Path) :
    (fs'.find p).map Node.isDirectory = (fs.find p).map Node.isDirectory := by
  rw [map_find, map_find, h.locate_eq]
  simp only [h.node?_kind]

theorem hasAny_eq (h : SameShape fs fs') : fs'.hasAny = fs.hasAny := by
  funext p
  rw [hasAny_eq_of_kind, hasAny_eq_of_kind, h.find_kind]

theorem isFile_eq (h : SameShape fs fs') : fs'.isFile = fs.isFile := by
  funext p
  rw [isFile_eq_of_kind, isFile_eq_of_kind, h.find_kind]

theorem isDirectory_eq (h : SameShape fs fs') : fs'.isDirectory = fs.isDirectory := by
  funext p
  rw [isDirectory_eq_of_kind, isDirectory_eq_of_kind, h.find_kind]

theorem below_eq (h : SameShape fs fs') (l : Location) : fs'.below l = fs.below l := by
  have hbelow : ∀ gs : FileSystem, gs.below l = Sorted.ofList (List.compareLex Text.order)
      (((gs.nodes.map fun e => (e.1, e.2.isDirectory)).filterMap fun e =>
        namesBetween? l e.1).filter (· ≠ [])) := by
    intro gs
    rw [List.filterMap_map]
    rfl
  rw [hbelow, hbelow, h.places]

theorem placesBelow_eq (h : SameShape fs fs') (base : Path) :
    Search.placesBelow fs' base = Search.placesBelow fs base := by
  unfold Search.placesBelow
  rw [h.locate_eq, h.isDirectory_eq]
  simp only [h.below_eq]

theorem follow_eq (h : SameShape fs fs') (steps : List SearchStep) (base : Path) :
    Search.follow fs' steps base = Search.follow fs steps base := by
  induction steps generalizing base with
  | nil => rfl
  | cons step steps ih =>
    have hfollow : Search.follow fs' steps = Search.follow fs steps := funext ih
    cases step <;>
      simp only [Search.follow, Search.dotPaths, h.placesBelow_eq, h.isDirectory_eq, h.hasAny_eq,
        hfollow]

theorem discover_eq (h : SameShape fs fs') (extension : Text) (paths : List Path) :
    discover fs' extension paths = discover fs extension paths := by
  have hfiles : filesOfPath fs' extension = filesOfPath fs extension := by
    funext path
    unfold filesOfPath Search.results
    simp only [h.isFile_eq, h.isDirectory_eq, h.follow_eq]
  rw [discover_eq_mapM, discover_eq_mapM, hfiles]

end SameShape

end FileSystem

end ClassSchema
