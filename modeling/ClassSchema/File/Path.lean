import ClassSchema.Text.Basic

/-!
# Paths

A path is the text that names a file. Two paths are compared by their
components, which leave out repeated slashes and inner dots; the text itself is
kept, because that is what is shown.
-/

namespace ClassSchema

structure Path where
  text : Text
deriving DecidableEq, Repr

namespace Path

inductive Component where
  | root
  /-- A dot at the very beginning. -/
  | here
  | up
  | name (text : Text)
deriving DecidableEq, Repr

namespace Component

def rank : Component → Nat
  | root => 0
  | here => 1
  | up => 2
  | name _ => 3

def order : Component → Component → Ordering
  | name a, name b => Text.order a b
  | a, b => compare a.rank b.rank

/-- The component of a stretch between slashes; empty ones and dots are none. -/
def ofSegment? (segment : Text) : Option Component :=
  if segment = [] ∨ segment = ['.'] then none
  else if segment = ['.', '.'] then some up
  else some (name segment)

theorem ofSegment?_eq_name_iff {segment name : Text} :
    ofSegment? segment = some (.name name) ↔
      segment = name ∧ segment ≠ [] ∧ segment ≠ ['.'] ∧ segment ≠ ['.', '.'] := by
  unfold ofSegment?
  repeat' split
  all_goals grind

theorem ofSegment?_eq_none_iff {segment : Text} :
    ofSegment? segment = none ↔ segment = [] ∨ segment = ['.'] := by
  unfold ofSegment?
  repeat' split
  all_goals grind

theorem ofSegment?_ne_here (segment : Text) : ofSegment? segment ≠ some .here := by
  unfold ofSegment?
  repeat' split
  all_goals simp

end Component

/-- The stretches between slashes. -/
def segments (p : Path) : List Text := Text.splitOn '/' p.text

def isAbsolute (p : Path) : Bool := p.text.head? == some '/'

/-- The component that only a beginning can have. -/
def start (p : Path) : List Component :=
  if p.isAbsolute then [.root] else if p.segments.head? = some ['.'] then [.here] else []

def components (p : Path) : List Component :=
  p.start ++ p.segments.filterMap Component.ofSegment?

/-- Component by component; a beginning of a path comes before the path. -/
def order (p q : Path) : Ordering := List.compareLex Component.order p.components q.components

/-- The path that a name or a relative path has below a directory. -/
def join (directory : Path) (name : Text) : Path :=
  if name.head? = some '/' then ⟨name⟩
  else if directory.text = [] ∨ directory.text.getLast? = some '/' then ⟨directory.text ++ name⟩
  else ⟨directory.text ++ '/' :: name⟩

theorem exists_segments_join {name : Text} (directory : Path) (hslash : '/' ∉ name) :
    ∃ front, (directory.join name).segments = front ++ [name] := by
  have hname : Text.splitOn '/' name = [name] := Text.splitOn_of_not_mem hslash
  have hsplit : ∀ t, Text.splitOn '/' (t ++ '/' :: name) = Text.splitOn '/' t ++ [name] := by
    intro t
    rw [Text.splitOn_append_cons, hname]
  have hhead : name.head? ≠ some '/' := fun h => hslash (List.mem_of_head? h)
  unfold join segments
  rw [if_neg hhead]
  split
  · next hend =>
    rcases hend with hnil | hlast
    · exact ⟨[], by simpa [hnil] using hname⟩
    · obtain ⟨t, ht⟩ := List.getLast?_eq_some_iff.mp hlast
      exact ⟨Text.splitOn '/' t, by simpa [ht] using hsplit t⟩
  · exact ⟨Text.splitOn '/' directory.text, hsplit directory.text⟩

theorem join_injective {name name' : Text} (directory : Path) (hslash : '/' ∉ name)
    (hslash' : '/' ∉ name') (h : directory.join name = directory.join name') : name = name' := by
  obtain ⟨front, hsegments⟩ := exists_segments_join directory hslash
  obtain ⟨front', hsegments'⟩ := exists_segments_join directory hslash'
  rw [h, hsegments'] at hsegments
  obtain ⟨-, hlast⟩ := List.append_inj' hsegments rfl
  exact (List.singleton_inj.mp hlast).symm

/-- A slash at the end of a path adds no segment in front of what is joined to it. -/
theorem exists_segments_join_of_ne_nil {base : Path} {t : Text} (hbase : base.text ≠ [])
    (ht : t.head? ≠ some '/') :
    ∃ front, front ≠ [] ∧ (base.segments = front ∨ base.segments = front ++ [[]]) ∧
      (base.join t).segments = front ++ Text.splitOn '/' t := by
  unfold join segments
  rw [if_neg ht]
  split
  · next hend =>
    obtain ⟨u, hu⟩ := List.getLast?_eq_some_iff.mp (hend.resolve_left hbase)
    refine ⟨Text.splitOn '/' u, Text.splitOn_ne_nil '/' u, .inr ?_, ?_⟩
    · rw [hu, Text.splitOn_append_cons]
      rfl
    · rw [hu, List.append_assoc]
      exact Text.splitOn_append_cons '/' u t
  · exact ⟨_, Text.splitOn_ne_nil '/' base.text, .inl rfl, Text.splitOn_append_cons '/' _ t⟩

theorem exists_text_join {t : Text} (base : Path) (ht : t.head? ≠ some '/') :
    ∃ u, (base.join t).text = base.text ++ u := by
  unfold join
  rw [if_neg ht]
  split
  · exact ⟨t, rfl⟩
  · exact ⟨'/' :: t, rfl⟩

def fileName? (p : Path) : Option Text :=
  match p.components.getLast? with
  | some (.name n) => some n
  | _ => none

/-- A file name without its last extension; a dot at the beginning divides nothing. -/
def stemOf (name : Text) : Text :=
  match (name.reverse.dropWhile (· != '.')).tail.reverse with
  | [] => name
  | stem => stem

theorem stemOf_ne_nil {name : Text} (h : name ≠ []) : stemOf name ≠ [] := by
  unfold stemOf
  split
  · exact h
  · assumption

theorem mem_of_mem_stemOf {name : Text} {c : Char} (h : c ∈ stemOf name) : c ∈ name := by
  unfold stemOf at h
  split at h
  · exact h
  · have hdrop := List.dropWhile_suffix (l := name.reverse) (· != '.')
    have hsuffix := (List.tail_suffix _).trans hdrop
    exact List.mem_reverse.mp (hsuffix.subset (List.mem_reverse.mp h))

/-- An extension can be taken off again. -/
theorem stemOf_append {stem extension : Text} (hstem : stem ≠ []) (hdot : '.' ∉ extension) :
    stemOf (stem ++ '.' :: extension) = stem := by
  have hreverse : (stem ++ '.' :: extension).reverse =
      extension.reverse ++ '.' :: stem.reverse := by simp
  unfold stemOf
  rw [hreverse, Text.dropWhile_ne_append (by simpa using hdot), List.tail_cons,
    List.reverse_reverse]
  cases stem with
  | nil => exact absurd rfl hstem
  | cons c stem => rfl

def stem? (p : Path) : Option Text := p.fileName?.map stemOf

/-- Takes the segments that name nothing off the end of a path, whose segments
are given in reverse. The first segment of the path stays. -/
def trimSegments : List Text → List Text
  | [] => []
  | [first] => [first]
  | segment :: more =>
    if segment = [] ∨ segment = ['.'] then trimSegments more else segment :: more

/-- The path of reversed segments. -/
def ofSegments (reversed : List Text) : Path :=
  if reversed = [[]] then ⟨['/']⟩ else ⟨Text.joined ['/'] reversed.reverse⟩

/-- The directory that a path lies in, as a path. -/
def parent? (p : Path) : Option Path :=
  match trimSegments p.segments.reverse with
  | [] | [[]] => none
  | [_] => some ⟨[]⟩
  | _ :: more => some (ofSegments (trimSegments more))

/-- The directories above a path, nearest first, for at most `count` of them. -/
def ancestorsUpTo : Nat → Path → List Path
  | 0, _ => []
  | count + 1, p =>
    match p.parent? with
    | none => []
    | some q => q :: ancestorsUpTo count q

/-- The directories above a path, nearest first. -/
def ancestors (p : Path) : List Path := ancestorsUpTo (p.segments.length + 1) p

end Path

end ClassSchema
