import ClassSchema.Command.Session
import ClassSchema.File.Search

/-!
# Schema files

The schema files of a run are given by paths. A file is taken as it is; a
directory stands for all files below it that have the extension. All of them
are put in order, each one once.
-/

namespace ClassSchema

/-- Adds what a path stands for to the files found so far. A directory has to
bring more of them. -/
def addFiles (fs : FileSystem) (extension : Text) (files : List Path) (path : Path) :
    Except Failure (List Path) :=
  if fs.isFile path then .ok (files ++ [path])
  else if fs.isDirectory path then do
    let search ← (Search.ofPattern (path.text ++ "/**/*." ++ extension)).mapError .pattern
    let found := files ++ search.results fs
    if found.length = files.length then .error (.noSchemaFiles path) else .ok found
  else .error (.missing path)

/-- The files that paths stand for, sorted and without repetition. -/
def discover (fs : FileSystem) (extension : Text) (paths : List Path) :
    Except Failure (List Path) := do
  let files ← paths.foldlM (addFiles fs extension) []
  return Sorted.ofList Path.order files

def filesOfPath (fs : FileSystem) (extension : Text) (path : Path) : Except Failure (List Path) :=
  if fs.isFile path then .ok [path]
  else if fs.isDirectory path then do
    let search ← (Search.ofPattern (path.text ++ "/**/*." ++ extension)).mapError .pattern
    match search.results fs with
    | [] => .error (.noSchemaFiles path)
    | found => .ok found
  else .error (.missing path)

variable {fs : FileSystem} {extension : Text}

theorem addFiles_eq (files : List Path) (path : Path) :
    addFiles fs extension files path = (filesOfPath fs extension path).map (files ++ ·) := by
  unfold addFiles filesOfPath
  split
  · rfl
  split
  · cases (Search.ofPattern (path.text ++ "/**/*." ++ extension)).mapError Failure.pattern with
    | error failure => rfl
    | ok search =>
      change (if (files ++ search.results fs).length = files.length then _ else _) = _
      cases hfound : search.results fs with
      | nil => simp [hfound, bind, Except.bind, Except.map]
      | cons path found => simp [hfound, bind, Except.bind, Except.map]
  · rfl

/-- What the paths add one after the other is what each of them stands for. -/
theorem foldlM_addFiles (paths files : List Path) :
    paths.foldlM (addFiles fs extension) files =
      (paths.mapM (filesOfPath fs extension)).map (files ++ ·.flatten) := by
  induction paths generalizing files with
  | nil => simp [pure, Except.pure, Except.map]
  | cons path paths ih =>
    rw [List.foldlM_cons, List.mapM_cons, addFiles_eq]
    cases filesOfPath fs extension path with
    | error failure => rfl
    | ok found =>
      refine (ih (files ++ found)).trans ?_
      cases paths.mapM (filesOfPath fs extension) with
      | error failure => rfl
      | ok more => simp [bind, Except.bind, pure, Except.pure, Except.map, List.append_assoc]

theorem discover_eq_mapM (paths : List Path) :
    discover fs extension paths = do
      let found ← paths.mapM (filesOfPath fs extension)
      return Sorted.ofList Path.order found.flatten := by
  unfold discover
  rw [foldlM_addFiles]
  cases paths.mapM (filesOfPath fs extension) with
  | error failure => rfl
  | ok found => rfl

/-- Finds the files and notes their number. -/
def Session.discover (extension : Text) (paths : List Path) : Session (List Path) := do
  let files ← Session.ofExcept (← Session.ask (ClassSchema.discover · extension paths))
  Session.log (.discovered files.length)
  return files

end ClassSchema
