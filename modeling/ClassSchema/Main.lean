import ClassSchema.Command.Run

/-!
# The program

Takes the files that a command line can reach into memory, runs the command on
them, and carries its changes out.
-/

namespace ClassSchema.Program

def contentsOf (bytes : ByteArray) : Contents :=
  match String.fromUTF8? bytes with
  | some s => .text s.toList
  | none => .binary bytes.toList

/-- Takes in a directory entry and everything below it. -/
partial def loadEntry (fs : FileSystem) (directory : Location) (entry : IO.FS.DirEntry) :
    IO FileSystem := do
  let here := directory ++ [entry.fileName.toList]
  if ← entry.path.isDir then
    let mut fs := fs.put here .directory
    for below in ← entry.path.readDir do
      fs ← loadEntry fs here below
    return fs
  else return fs.put here (.file (contentsOf (← IO.FS.readBinFile entry.path)))

/-- The location of a path, whether it leads somewhere or not. -/
def locationOf (fs : FileSystem) (p : Path) : Location :=
  p.components.foldl (fun l c =>
    match c with
    | .root | .here => l
    | .up => l.dropLast
    | .name n => l ++ [n]) (fs.startOf p)

/-- Makes sure that the locations above a location are directories. -/
def withDirectories (fs : FileSystem) (l : Location) : FileSystem :=
  (List.range l.length).foldl (fun fs n =>
    let above := l.take n
    if (fs.node? above).isSome then fs else fs.put above .directory) fs

/-- Takes in what a path leads to. -/
def loadPath (fs : FileSystem) (p : Path) : IO FileSystem := do
  try
    let place ← IO.FS.realPath (String.ofList p.text)
    let l := locationOf fs p
    let fs := withDirectories fs l
    if ← place.isDir then
      let mut fs := if l.isEmpty then fs else fs.put l .directory
      for below in ← place.readDir do
        fs ← loadEntry fs l below
      return fs
    else if ← place.pathExists then
      return fs.put l (.file (contentsOf (← IO.FS.readBinFile place)))
    else return fs
  catch _ => return fs

/-- Whether a path may lead out of the working directory. -/
def leavesWorkingDirectory (p : Path) : Bool :=
  p.isAbsolute || p.components.contains .up

/-- Takes in the working directory and the other paths of a command line. -/
def loadFiles (paths : List Path) : IO FileSystem := do
  let workingDirectory := (Text.splitOn '/' (← IO.currentDir).toString.toList).filter (· ≠ [])
  let start ← loadPath ⟨[], workingDirectory⟩ ⟨['.']⟩
  (paths.filter leavesWorkingDirectory).foldlM loadPath start

def placeOf (l : Location) : String := String.ofList ('/' :: Text.joined ['/'] l)

/-- Carries out what a run has changed. -/
def save (before after : FileSystem) : IO Unit := do
  for (l, n) in after.nodes do
    if before.node? l ≠ some n then
      match n with
      | .directory => IO.FS.createDirAll (placeOf l)
      | .file (.text t) => IO.FS.writeFile (placeOf l) (String.ofList t)
      | .file (.binary bytes) => IO.FS.writeBinFile (placeOf l) ⟨bytes.toArray⟩

/-- The variables that matter, as they are set. -/
def environment : IO Environment := do
  let names : List String := ["ULTRATYPE_CONFIG", "XDG_CONFIG_HOME", "HOME", "ULTRATYPE_LOG"]
  let values ← names.mapM fun name => return (name.toList, ← IO.getEnv name)
  return Environment.ofVariables fun name => (values.lookup name).join.map String.toList

/-- The paths that a command line and its settings name. -/
def pathsOf (env : Environment) (args : List Text) : List Path :=
  Settings.places env ++
    match Invocation.read env args with
    | .ok i => i.command.paths ++ i.settingsPath.toList
    | .error _ => []

/-- Runs the program on its arguments. -/
def start (args : List String) : IO UInt32 := do
  let args := args.map String.toList
  let env ← environment
  let before ← loadFiles (pathsOf env args)
  let completion := run env args before
  save before completion.files
  IO.print (String.ofList completion.output.stdout)
  for m in completion.output.stderr do
    IO.eprintln (String.ofList m.render)
  return completion.exitCode.toUInt32

end ClassSchema.Program

def main (args : List String) : IO UInt32 := ClassSchema.Program.start args
