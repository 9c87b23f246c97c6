import ClassSchema.Toml.Scalar

/-!
# Dates and times

A date, a time of day, or a date with a time, which may have an offset from
universal time. Readers give the text behind what they read.
-/

namespace ClassSchema.Toml

/-- A number of a fixed count of digits within bounds. -/
def cutFixed? (width low high : Nat) (t : Text) : Option (Nat × Text) := do
  let digits := t.take width
  guard (digits.length = width ∧ digits.all Char.isDigit)
  let n ← ofDigits? 10 digits
  if low ≤ n ∧ n ≤ high then some (n, t.drop width) else none

def cutChar? (c : Char) : Text → Option Text
  | d :: t => if d = c then some t else none
  | [] => none

def isLeapYear (year : Nat) : Bool :=
  year % 4 == 0 && (year % 100 != 0 || year % 400 == 0)

def daysOfMonth (year month : Nat) : Nat :=
  if month = 2 then if isLeapYear year then 29 else 28
  else if month ∈ [4, 6, 9, 11] then 30
  else 31

def cutDate? (t : Text) : Option Text := do
  let (year, t) ← cutFixed? 4 0 9999 t
  let (month, t) ← cutFixed? 2 1 12 (← cutChar? '-' t)
  let (_, t) ← cutFixed? 2 1 (daysOfMonth year month) (← cutChar? '-' t)
  return t

/-- The text behind the fraction of a second, if there is one. -/
def skipSecondFraction (t : Text) : Text :=
  match t with
  | '.' :: u => if u.head?.any Char.isDigit then u.dropWhile Char.isDigit else t
  | _ => t

/-- A time of day; a second may be a leap second. -/
def cutTime? (t : Text) : Option Text := do
  let (_, t) ← cutFixed? 2 0 23 t
  let (_, t) ← cutFixed? 2 0 59 (← cutChar? ':' t)
  let (_, t) ← cutFixed? 2 0 60 (← cutChar? ':' t)
  return skipSecondFraction t

def cutOffset? : Text → Option Text
  | [] => none
  | c :: t =>
    if c = 'Z' ∨ c = 'z' then some t
    else do
      guard (c = '+' ∨ c = '-')
      let (_, t) ← cutFixed? 2 0 23 t
      let (_, t) ← cutFixed? 2 0 59 (← cutChar? ':' t)
      return t

/-- The text behind a time that follows a date, if there is one. -/
def skipTimeOfDate : Text → Text
  | [] => []
  | c :: t =>
    if c = 'T' ∨ c = 't' ∨ c = ' ' then
      match cutTime? t with
      | some rest => (cutOffset? rest).getD rest
      | none => c :: t
    else c :: t

def cutMoment? (t : Text) : Option (Value × Text) := do
  let rest ← ((cutDate? t).map skipTimeOfDate).or (cutTime? t)
  return (.moment (t.take (t.length - rest.length)), rest)

end ClassSchema.Toml
