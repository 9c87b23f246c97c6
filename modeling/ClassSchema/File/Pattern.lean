import ClassSchema.Text.Basic

/-!
# Name patterns

A pattern matches names: a star stands for any characters, a question mark for
one, brackets for one of a set or, after an exclamation mark, for one outside
of it. Two stars that make up a whole segment stand for any number of
directories.
-/

namespace ClassSchema

/-- A part of a bracketed set. -/
inductive CharSet where
  | single (c : Char)
  | range (first last : Char)
deriving DecidableEq, Repr

namespace CharSet

def has (c : Char) : CharSet → Bool
  | single d => c == d
  | range first last => first ≤ c && c ≤ last

/-- The parts of the text between brackets. -/
def ofText : Text → List CharSet
  | a :: '-' :: b :: t => range a b :: ofText t
  | c :: t => single c :: ofText t
  | [] => []

end CharSet

inductive PatternPart where
  | char (c : Char)
  | anyChar
  | anyText
  /-- Any number of directories. -/
  | anyDepth
  | oneOf (sets : List CharSet)
  | noneOf (sets : List CharSet)
deriving DecidableEq, Repr

/-- Why a text is no pattern, with the number of characters in front. -/
inductive PatternError where
  | longStars (position : Nat)
  | depthStars (position : Nat)
  | brackets (position : Nat)
deriving DecidableEq, Repr

def PatternError.message : PatternError → Text
  | longStars n => located n "wildcards are either regular \x60*\x60 or recursive \x60**\x60"
  | depthStars n => located n "recursive wildcards must form a single path component"
  | brackets n => located n "invalid range pattern"
where
  located (position : Nat) (what : Text) : Text :=
    "Pattern syntax error near position " ++ Text.ofNat position ++ ": " ++ what

/-- The parts of one pattern. -/
abbrev Pattern := List PatternPart

namespace Pattern

/-- The text up to the first closing bracket, and the text behind that. -/
def cutBracket? : Text → Option (Text × Text)
  | [] => none
  | c :: t => if c = ']' then some ([], t) else (cutBracket? t).map fun (a, b) => (c :: a, b)

/-- The set after an opening bracket and the text behind it. The first character
of a set is taken as it is, also if it is a bracket. -/
def cutSet? : Text → Option (PatternPart × Text)
  | '!' :: c :: t => (cutBracket? t).map fun (a, b) => (.noneOf (CharSet.ofText (c :: a)), b)
  | ['!'] => none
  | c :: t => (cutBracket? t).map fun (a, b) => (.oneOf (CharSet.ofText (c :: a)), b)
  | [] => none

/-- Two stars with what is in front of them and behind them: they must stand
between slashes or ends. The slash behind them belongs to them. -/
def cutDepth (position : Nat) (before : Option Char) (behind : Text) :
    Except PatternError Text :=
  if before = none ∨ before = some '/' then
    match behind with
    | [] => .ok []
    | '/' :: t => .ok t
    | _ => .error (.depthStars (position + 2))
  else .error (.depthStars (position - 1))

/-- Reads a pattern of at most `fuel` parts that stands behind `position`
characters, the last of which is `before`. -/
def readFrom : Nat → Nat → Option Char → Text → Except PatternError Pattern
  | 0, _, _, _ => .ok []
  | _, _, _, [] => .ok []
  | fuel + 1, position, before, c :: t =>
    if c = '?' then return .anyChar :: (← readFrom fuel (position + 1) c t)
    else if c = '*' then
      let rest := t.dropWhile (· = '*')
      match t.length - rest.length with
      | 0 => return .anyText :: (← readFrom fuel (position + 1) c t)
      | 1 => do
        let behind ← cutDepth position before rest
        let width := if behind.length < rest.length then 3 else 2
        return .anyDepth :: (← readFrom fuel (position + width) (some '/') behind)
      | _ => .error (.longStars (position + 2))
    else if c = '[' then
      match cutSet? t with
      | none => .error (.brackets position)
      | some (set, rest) => do
        let width := 1 + (t.length - rest.length)
        return set :: (← readFrom fuel (position + width) (some ']') rest)
    else return .char c :: (← readFrom fuel (position + 1) c t)

theorem readFrom_nil (fuel position : Nat) (before : Option Char) :
    readFrom fuel position before [] = .ok [] := by
  cases fuel <;> rfl

def read (t : Text) : Except PatternError Pattern := readFrom t.length 0 none t

/-- The name that a pattern without wildcards matches. -/
def literal? : Pattern → Option Text
  | [] => some []
  | .char c :: parts => (literal? parts).map (c :: ·)
  | _ => none

/-- Whether a pattern stands for any number of directories. -/
def isAnyDepth (p : Pattern) : Bool := p.contains .anyDepth

/-- Whether the first character and the text behind it satisfy two conditions. -/
def firstAndRest (first : Char → Bool) (rest : Text → Bool) : Text → Bool
  | [] => false
  | c :: t => first c && rest t

/-- Whether some ending of a text satisfies a condition. -/
def someEnding (ending : Text → Bool) : Text → Bool
  | [] => ending []
  | c :: t => ending (c :: t) || someEnding ending t

theorem someEnding_iff {u : Text} {ending : Text → Bool} :
    someEnding ending u = true ↔ ∃ v, v <:+ u ∧ ending v = true := by
  induction u with
  | nil => simp [someEnding]
  | cons c u ih =>
    rw [someEnding, Bool.or_eq_true, ih]
    constructor
    · rintro (h | ⟨v, hv, h⟩)
      · exact ⟨c :: u, List.suffix_rfl, h⟩
      · exact ⟨v, hv.trans (List.suffix_cons c u), h⟩
    · rintro ⟨v, hv, h⟩
      rcases List.suffix_cons_iff.mp hv with rfl | hv
      · exact .inl h
      · exact .inr ⟨v, hv, h⟩

def matchesText : Pattern → Text → Bool
  | [] => List.isEmpty
  | .anyText :: parts => someEnding (matchesText parts)
  | .anyDepth :: parts => someEnding (matchesText parts)
  | .char d :: parts => firstAndRest (· == d) (matchesText parts)
  | .anyChar :: parts => firstAndRest (fun _ => true) (matchesText parts)
  | .oneOf sets :: parts => firstAndRest (fun c => sets.any (·.has c)) (matchesText parts)
  | .noneOf sets :: parts => firstAndRest (fun c => !sets.any (·.has c)) (matchesText parts)

end Pattern

end ClassSchema
