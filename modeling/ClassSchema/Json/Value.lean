import ClassSchema.Text.Basic

/-!
# JSON values

The values that are written and read, and their two written forms. Objects are
lists of members; writers put the members in the order of their keys.
-/

namespace ClassSchema.Json

inductive Value where
  | null
  | bool (b : Bool)
  | number (n : Nat)
  | string (t : Text)
  | array (items : List Value)
  | object (members : List (Text × Value))
deriving Inhabited

theorem mapM_map_eq_some {α β : Type} {encode : α → Value} {decode : Value → Option β}
    {f : α → β} (h : ∀ a, decode (encode a) = some (f a)) (as : List α) :
    (as.map encode).mapM decode = some (as.map f) := by
  induction as with
  | nil => rfl
  | cons a as ih =>
    rw [List.map_cons, List.mapM_cons, h, ih]
    rfl

namespace Value

abbrev Members := List (Text × Value)

def Members.get? (members : Members) (key : Text) : Option Value := members.lookup key

theorem Members.get?_cons (key wanted : Text) (v : Value) (members : Members) :
    Members.get? ((key, v) :: members) wanted =
      if key = wanted then some v else Members.get? members wanted := by
  unfold Members.get?
  rw [List.lookup_cons]
  by_cases h : key = wanted
  · simp [h]
  · rw [beq_false_of_ne (Ne.symm h), if_neg h]

def member? : Value → Text → Option Value
  | object members, key => Members.get? members key
  | _, _ => none

/-- A digit of a number in base sixteen. -/
def hexDigit (n : Nat) : Char := Nat.digitChar n

/-- A character inside of quotes. Only the quote, the backslash and control
characters are escaped. -/
def escaped (c : Char) : Text :=
  if c = '"' then "\\\""
  else if c = '\\' then "\\\\"
  else if c = '\x08' then "\\b"
  else if c = '\t' then "\\t"
  else if c = '\n' then "\\n"
  else if c = '\x0c' then "\\f"
  else if c = '\r' then "\\r"
  else if c.toNat < 0x20 then "\\u00" ++ [hexDigit (c.toNat / 16), hexDigit (c.toNat % 16)]
  else [c]

def quoted (t : Text) : Text := "\"" ++ t.flatMap escaped ++ "\""

theorem quoted_eq (t : Text) : quoted t = '"' :: (t.flatMap escaped ++ ['"']) := rfl

mutual
/-- The form without white space. -/
def compact : Value → Text
  | null => "null"
  | bool b => if b then "true" else "false"
  | number n => Text.ofNat n
  | string t => quoted t
  | array [] => "[]"
  | array (v :: vs) => "[" ++ compact v ++ compactItems vs ++ "]"
  | object [] => "\x7b\x7d"
  | object ((key, v) :: members) =>
    "\x7b" ++ quoted key ++ ":" ++ compact v ++ compactMembers members ++ "\x7d"

def compactItems : List Value → Text
  | [] => []
  | v :: vs => "," ++ compact v ++ compactItems vs

def compactMembers : List (Text × Value) → Text
  | [] => []
  | (key, v) :: members => "," ++ quoted key ++ ":" ++ compact v ++ compactMembers members
end

/-- The beginning of a line at a depth of nesting. -/
def newLine (depth : Nat) : Text := '\n' :: List.replicate (2 * depth) ' '

mutual
/-- The form with one item or member on a line, indented by two spaces. -/
def prettyAt (depth : Nat) : Value → Text
  | null => "null"
  | bool b => if b then "true" else "false"
  | number n => Text.ofNat n
  | string t => quoted t
  | array [] => "[]"
  | array (v :: vs) =>
    "[" ++ newLine (depth + 1) ++ prettyAt (depth + 1) v ++ prettyItems (depth + 1) vs ++
      newLine depth ++ "]"
  | object [] => "\x7b\x7d"
  | object ((key, v) :: members) =>
    "\x7b" ++ newLine (depth + 1) ++ quoted key ++ ": " ++ prettyAt (depth + 1) v ++
      prettyMembers (depth + 1) members ++ newLine depth ++ "\x7d"

def prettyItems (depth : Nat) : List Value → Text
  | [] => []
  | v :: vs => "," ++ newLine depth ++ prettyAt depth v ++ prettyItems depth vs

def prettyMembers (depth : Nat) : List (Text × Value) → Text
  | [] => []
  | (key, v) :: members =>
    "," ++ newLine depth ++ quoted key ++ ": " ++ prettyAt depth v ++ prettyMembers depth members
end

theorem prettyItems_cons (depth : Nat) (v : Value) (vs : List Value) (r : Text) :
    prettyItems depth (v :: vs) ++ r =
      ',' :: (newLine depth ++ (prettyAt depth v ++ (prettyItems depth vs ++ r))) := by
  change ("," : Text) ++ newLine depth ++ prettyAt depth v ++ prettyItems depth vs ++ r = _
  simp only [List.append_assoc]
  rfl

theorem prettyMembers_cons (depth : Nat) (key : Text) (v : Value) (members : Members) (r : Text) :
    prettyMembers depth ((key, v) :: members) ++ r =
      ',' :: (newLine depth ++ (quoted key ++
        ':' :: ' ' :: (prettyAt depth v ++ (prettyMembers depth members ++ r)))) := by
  change ("," : Text) ++ newLine depth ++ quoted key ++ ": " ++ prettyAt depth v ++
    prettyMembers depth members ++ r = _
  simp only [List.append_assoc]
  rfl

theorem prettyAt_array_cons (depth : Nat) (v : Value) (vs : List Value) (r : Text) :
    prettyAt depth (array (v :: vs)) ++ r =
      '[' :: (newLine (depth + 1) ++ (prettyAt (depth + 1) v ++
        (prettyItems (depth + 1) vs ++ '\n' :: (List.replicate (2 * depth) ' ' ++ ']' :: r)))) := by
  change ("[" : Text) ++ newLine (depth + 1) ++ prettyAt (depth + 1) v ++
    prettyItems (depth + 1) vs ++ newLine depth ++ "]" ++ r = _
  simp only [List.append_assoc]
  rfl

theorem prettyAt_object_cons (depth : Nat) (key : Text) (v : Value) (members : Members) (r : Text) :
    prettyAt depth (object ((key, v) :: members)) ++ r =
      '\x7b' :: (newLine (depth + 1) ++ (quoted key ++
        ':' :: ' ' :: (prettyAt (depth + 1) v ++ (prettyMembers (depth + 1) members ++
          '\n' :: (List.replicate (2 * depth) ' ' ++ '\x7d' :: r))))) := by
  change ("\x7b" : Text) ++ newLine (depth + 1) ++ quoted key ++ ": " ++ prettyAt (depth + 1) v ++
    prettyMembers (depth + 1) members ++ newLine depth ++ "\x7d" ++ r = _
  simp only [List.append_assoc]
  rfl

theorem bool_append_inj {r r' : Text} {depth : Nat} {b b' : Bool}
    (h : prettyAt depth (bool b) ++ r = prettyAt depth (bool b') ++ r') : b = b' ∧ r = r' := by
  obtain rfl : b = b' := by
    cases b <;> cases b' <;> cases h <;> rfl
  exact ⟨rfl, List.append_cancel_left h⟩

def pretty (v : Value) : Text := prettyAt 0 v

end Value

end ClassSchema.Json
