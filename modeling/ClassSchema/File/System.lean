import ClassSchema.File.Path
import ClassSchema.Lists

/-!
# File systems

A file system is a table of locations. A location is the list of names that
leads to it from the root, and a relative path starts at the working directory.
Following a path fails where a directory is wanted and none is found.
-/

namespace ClassSchema

/-- What a file holds: text, or bytes that encode no text. -/
inductive Contents where
  | text (t : Text)
  | binary (bytes : List UInt8)
deriving DecidableEq, Repr

inductive Node where
  | file (contents : Contents)
  | directory
deriving DecidableEq, Repr

/-- The names that lead from the root to a place. -/
abbrev Location := List Text

/-- Why the file system refuses something. -/
inductive FileError where
  | notFound | exists | notDirectory | isDirectory | notText
deriving DecidableEq, Repr

def FileError.message : FileError → Text
  | notFound => "No such file or directory (os error 2)"
  | .exists => "File exists (os error 17)"
  | notDirectory => "Not a directory (os error 20)"
  | isDirectory => "Is a directory (os error 21)"
  | notText => "stream did not contain valid UTF-8"

structure FileSystem where
  /-- Everything but the root, which is always a directory. -/
  nodes : List (Location × Node)
  workingDirectory : Location
deriving DecidableEq, Repr

namespace FileSystem

def node? (fs : FileSystem) (l : Location) : Option Node :=
  if l = [] then some .directory else fs.nodes.lookup l

/-- The root is a directory. -/
theorem ne_nil_of_node?_ne_directory {fs : FileSystem} {l : Location}
    (h : fs.node? l ≠ some .directory) : l ≠ [] := by
  rintro rfl
  simp [node?] at h

theorem ne_nil_of_node?_eq_file {fs : FileSystem} {l : Location} {contents : Contents}
    (h : fs.node? l = some (.file contents)) : l ≠ [] := by
  have hdirectory : fs.node? l ≠ some .directory := by simp [h]
  exact ne_nil_of_node?_ne_directory hdirectory

theorem exists_mem_of_node? {fs : FileSystem} {k : Location} (hk : k ≠ [])
    (h : fs.node? k ≠ none) : ∃ n, (k, n) ∈ fs.nodes := by
  rw [node?, if_neg hk] at h
  obtain ⟨n, hn⟩ := Option.ne_none_iff_exists'.mp h
  obtain ⟨before, after, hnodes, -⟩ := List.lookup_eq_some_iff.mp hn
  exact ⟨n, by simp [hnodes]⟩

/-- A table in which a location holds a node. -/
def putNode (l : Location) (n : Node) : List (Location × Node) → List (Location × Node)
  | [] => [(l, n)]
  | (k, m) :: nodes => if k = l then (k, n) :: nodes else (k, m) :: putNode l n nodes

@[simp] theorem lookup_putNode_self (l : Location) (n : Node) (nodes : List (Location × Node)) :
    (putNode l n nodes).lookup l = some n := by
  induction nodes with
  | nil => simp [putNode]
  | cons e nodes ih =>
    obtain ⟨k, m⟩ := e
    by_cases h : k = l
    · simp [putNode, h]
    · rw [putNode, if_neg h, List.lookup_cons, beq_false_of_ne (Ne.symm h)]
      exact ih

theorem lookup_putNode_of_ne {l k : Location} (h : k ≠ l) (n : Node)
    (nodes : List (Location × Node)) : (putNode l n nodes).lookup k = nodes.lookup k := by
  induction nodes with
  | nil => simp [putNode, h]
  | cons e nodes ih =>
    obtain ⟨j, m⟩ := e
    by_cases hj : j = l
    · subst hj
      simp [putNode, List.lookup_cons, beq_false_of_ne h]
    · rw [putNode, if_neg hj, List.lookup_cons, List.lookup_cons, ih]

/-- The file system with a node at a location. -/
def put (fs : FileSystem) (l : Location) (n : Node) : FileSystem :=
  { fs with nodes := putNode l n fs.nodes }

theorem node?_put_self {l : Location} (h : l ≠ []) (fs : FileSystem) (n : Node) :
    (fs.put l n).node? l = some n := by
  simp [node?, put, h]

theorem node?_put_of_ne {l k : Location} (h : k ≠ l) (fs : FileSystem) (n : Node) :
    (fs.put l n).node? k = fs.node? k := by
  simp [node?, put, lookup_putNode_of_ne h]

/-- One segment further from a location, which must be a directory. -/
def enter (fs : FileSystem) (l : Location) (segment : Text) : Except FileError Location :=
  match fs.node? l with
  | none => .error .notFound
  | some (.file _) => .error .notDirectory
  | some .directory =>
    if segment = [] ∨ segment = ['.'] then .ok l
    else if segment = ['.', '.'] then .ok l.dropLast
    else .ok (l ++ [segment])

theorem directory_of_enter {fs : FileSystem} {k l : Location} {segment : Text}
    (h : fs.enter k segment = .ok l) : fs.node? k = some .directory := by
  unfold enter at h
  split at h
  · cases h
  · cases h
  · assumption

/-- Where a path starts. -/
def startOf (fs : FileSystem) (p : Path) : Location :=
  if p.isAbsolute then [] else fs.workingDirectory

/-- The location a path leads to; whether something is there is left open. -/
def locate (fs : FileSystem) (p : Path) : Except FileError Location :=
  if p.text = [] then .error .notFound else p.segments.foldlM fs.enter (fs.startOf p)

theorem text_ne_nil_of_locate {fs : FileSystem} {base : Path} {k : Location}
    (h : fs.locate base = .ok k) : base.text ≠ [] := by
  intro hnil
  rw [locate, if_pos hnil] at h
  cases h

def find (fs : FileSystem) (p : Path) : Except FileError Node := do
  let l ← fs.locate p
  match fs.node? l with
  | none => .error .notFound
  | some n => .ok n

/-- What a path leads to depends on where it leads and on what is there. -/
theorem find_congr {fs fs' : FileSystem} {p : Path} (hlocate : fs'.locate p = fs.locate p)
    (hnode : ∀ l, fs.locate p = .ok l → fs'.node? l = fs.node? l) : fs'.find p = fs.find p := by
  unfold find
  rw [hlocate]
  cases hl : fs.locate p with
  | error e => rfl
  | ok l => simp [bind, Except.bind, hnode l hl]

def hasAny (fs : FileSystem) (p : Path) : Bool :=
  match fs.find p with
  | .ok _ => true
  | .error _ => false

def isFile (fs : FileSystem) (p : Path) : Bool :=
  match fs.find p with
  | .ok (.file _) => true
  | _ => false

def isDirectory (fs : FileSystem) (p : Path) : Bool :=
  match fs.find p with
  | .ok .directory => true
  | _ => false

def read (fs : FileSystem) (p : Path) : Except FileError Text := do
  match ← fs.find p with
  | .file (.text t) => .ok t
  | .file (.binary _) => .error .notText
  | .directory => .error .isDirectory

/-- Replaces or creates a file. -/
def write (fs : FileSystem) (p : Path) (t : Text) : Except FileError FileSystem := do
  let l ← fs.locate p
  match fs.node? l with
  | some .directory => .error .isDirectory
  | _ => .ok (fs.put l (.file (.text t)))

/-- Creates one directory in an existing one. -/
def makeDirectory (fs : FileSystem) (p : Path) : Except FileError FileSystem :=
  match p.segments.reverse.dropWhile List.isEmpty with
  | [] => .error (if p.text = [] then .notFound else .exists)
  | last :: above => do
    let l ← above.reverse.foldlM fs.enter (fs.startOf p)
    let l' ← fs.enter l last
    if last = ['.'] ∨ last = ['.', '.'] ∨ (fs.node? l').isSome then .error .exists
    else .ok (fs.put l' .directory)

/-- A directory that is in the way does no harm. -/
def orIfDirectory (fs : FileSystem) (p : Path) (e : FileError) : Option FileError :=
  if fs.isDirectory p then none else some e

/-- Creates a directory, with `retry` to create those above it if they are missing. -/
def makeDirectoryAfter (fs : FileSystem) (p : Path)
    (retry : Unit → FileSystem × Option FileError) : FileSystem × Option FileError :=
  if p.text = [] then (fs, none)
  else
    match fs.makeDirectory p with
    | .ok created => (created, none)
    | .error .notFound =>
      match retry () with
      | (fs', some e) => (fs', some e)
      | (fs', none) =>
        match fs'.makeDirectory p with
        | .ok created => (created, none)
        | .error e => (fs', fs'.orIfDirectory p e)
    | .error e => (fs, fs.orIfDirectory p e)

theorem makeDirectoryAfter_induction {fs : FileSystem} {p : Path} {P : FileSystem → Prop}
    {retry : Unit → FileSystem × Option FileError} (hfs : P fs) (hretry : P (retry ()).1)
    (hmade : ∀ fs₁ fs₂, P fs₁ → fs₁.makeDirectory p = .ok fs₂ → P fs₂) :
    P (fs.makeDirectoryAfter p retry).1 := by
  unfold makeDirectoryAfter
  split
  · exact hfs
  · split
    · next hok => exact hmade _ _ hfs hok
    · split
      · next hfail => rwa [hfail] at hretry
      · next hdone =>
        rw [hdone] at hretry
        split
        · next hok => exact hmade _ _ hretry hok
        · exact hretry
    · exact hfs

/-- Creates a directory after those above it, nearest first, that are missing.
What was created stays even if the rest fails. -/
def makeDirectoriesBelow (fs : FileSystem) (p : Path) :
    List Path → FileSystem × Option FileError
  | [] => fs.makeDirectoryAfter p fun _ => (fs, some .notFound)
  | q :: above => fs.makeDirectoryAfter p fun _ => makeDirectoriesBelow fs q above

/-- What creating one directory preserves is preserved when all those above a path are
created. -/
theorem makeDirectoriesBelow_induction {fs : FileSystem} {p : Path} {P : FileSystem → Prop}
    (hfs : P fs) (above : List Path)
    (hmade : ∀ q ∈ p :: above, ∀ fs₁ fs₂, P fs₁ → fs₁.makeDirectory q = .ok fs₂ → P fs₂) :
    P (fs.makeDirectoriesBelow p above).1 := by
  induction above generalizing p with
  | nil => exact makeDirectoryAfter_induction hfs hfs (hmade p List.mem_cons_self)
  | cons q above ih =>
    have hq := ih fun r hr => hmade r (List.mem_cons_of_mem p hr)
    exact makeDirectoryAfter_induction hfs hq (hmade p List.mem_cons_self)

/-- Creates a directory and all those above it. -/
def makeDirectories (fs : FileSystem) (p : Path) : FileSystem × Option FileError :=
  fs.makeDirectoriesBelow p p.ancestors

/-- The names that lead from one location to another below it. -/
def namesBetween? : Location → Location → Option (List Text)
  | [], l => some l
  | _ :: _, [] => none
  | n :: top, m :: l => if n = m then namesBetween? top l else none

theorem namesBetween?_eq_some_iff {k l : Location} {names : List Text} :
    namesBetween? l k = some names ↔ k = l ++ names := by
  fun_induction namesBetween? l k with
  | case1 k => simp [eq_comm]
  | case2 => simp
  | case3 n l k ih => simp [ih]
  | case4 n l m k hne => simp [Ne.symm hne]

/-- The names that lead to each place below a location, in order. A place comes
before what lies below it. -/
def below (fs : FileSystem) (l : Location) : List (List Text) :=
  Sorted.ofList (List.compareLex Text.order)
    ((fs.nodes.filterMap fun (k, _) => namesBetween? l k).filter (· ≠ []))

end FileSystem

end ClassSchema
