import ClassSchema.File.Pattern
import ClassSchema.File.System

/-!
# Searching by pattern

A path pattern is read as a whole and then segment by segment. A segment
without wildcards is looked up; any other is compared with the names that are
there.
-/

namespace ClassSchema

/-- One step of a search, from a directory to what lies below it. -/
inductive SearchStep where
  /-- What has a certain name. -/
  | exactly (name : Text)
  /-- Everything in the directory that the pattern matches. -/
  | each (pattern : Pattern)
  /-- Everything below the directory, at any depth, that the pattern matches. -/
  | anywhere (pattern : Pattern)
  /-- Every directory below. -/
  | directories
deriving DecidableEq, Repr

namespace SearchStep

/-- The steps of the patterns of the segments. -/
def ofPatterns : List Pattern → List SearchStep
  | [] => []
  | [p] => if p.isAnyDepth then [directories] else [ofPattern p]
  | p :: q :: rest =>
    if p.isAnyDepth then
      if q.isAnyDepth then ofPatterns (q :: rest) else anywhere q :: ofPatterns rest
    else ofPattern p :: ofPatterns (q :: rest)
where
  ofPattern (p : Pattern) : SearchStep :=
    match p.literal? with
    | some name => exactly name
    | none => each p

end SearchStep

structure Search where
  /-- Where the search begins. -/
  base : Path
  steps : List SearchStep
  /-- Only directories are wanted. -/
  onlyDirectories : Bool
deriving DecidableEq, Repr

namespace Search

/-- The working directory, however it is written. -/
def isHere (p : Path) : Bool := p.components == [.here]

theorem isHere_iff {base : Path} : isHere base = true ↔ base.components = [.here] := by
  simp [isHere]

/-- A path below another one. Below the working directory it is relative. -/
def extend (base : Path) (names : List Text) : Path :=
  let tail := Text.joined ['/'] names
  if isHere base then ⟨tail⟩ else base.join tail

/-- The segments of a pattern; a slash at its end adds none. -/
def patternSegments (t : Text) : List Text :=
  match (Text.splitOn '/' t).reverse with
  | [] :: more => more.reverse
  | segments => segments.reverse

/-- The search of a path pattern. It begins at the root or in the working
directory. -/
def ofPattern (pattern : Text) : Except PatternError Search := do
  discard (Pattern.read pattern)
  let (base, rest) : Path × Text :=
    match pattern with
    | '/' :: rest => (⟨['/']⟩, rest)
    | rest => (⟨['.']⟩, rest)
  let patterns ← (patternSegments rest).mapM Pattern.read
  return {
    base
    steps := SearchStep.ofPatterns patterns
    onlyDirectories := pattern.getLast? == some '/' }

/-- The places below a path, by the names that lead there. -/
def placesBelow (fs : FileSystem) (base : Path) : List (List Text) :=
  match fs.locate base with
  | .ok l => if fs.isDirectory base then fs.below l else []
  | .error _ => []

/-- Whether the last of some names is matched. -/
def lastMatches (pattern : Pattern) (names : List Text) : Bool :=
  match names.getLast? with
  | some name => pattern.matchesText name
  | none => false

/-- The directory itself and the one above it, for a pattern that begins with a
dot. -/
def dotPaths (fs : FileSystem) (base : Path) (pattern : Pattern) : List Path :=
  if fs.isDirectory base ∧ pattern.head? = some (.char '.') then
    ([['.'], ['.', '.']].filter fun name => pattern.matchesText name).map base.join
  else []

def follow (fs : FileSystem) : List SearchStep → Path → List Path
  | [], base => [base]
  | .exactly name :: steps, base =>
    let next := if isHere base then ⟨name⟩ else base.join name
    let there :=
      if name = ['.'] ∨ name = ['.', '.'] then fs.isDirectory base else fs.hasAny next
    if there then follow fs steps next else []
  | .each pattern :: steps, base =>
    (dotPaths fs base pattern ++
      ((placesBelow fs base).filter fun names =>
        names.length = 1 ∧ lastMatches pattern names).map (extend base)).flatMap (follow fs steps)
  | .anywhere pattern :: steps, base =>
    (((placesBelow fs base).filter (lastMatches pattern)).map (extend base)).flatMap
      (follow fs steps)
  | .directories :: steps, base =>
    (((placesBelow fs base).map (extend base)).filter fs.isDirectory).flatMap (follow fs steps)

/-- Nothing has an empty path. -/
theorem follow_lost {fs : FileSystem} {base : Path} (hhere : isHere base = true)
    (steps : List SearchStep) :
    follow fs (.exactly [] :: steps) base = [] := by
  rw [follow, if_pos hhere]
  rfl

def results (fs : FileSystem) (s : Search) : List Path :=
  let found := follow fs s.steps s.base
  if s.onlyDirectories then found.filter fs.isDirectory else found

end Search

end ClassSchema
