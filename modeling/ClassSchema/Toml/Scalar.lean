import ClassSchema.Toml.Value

/-!
# Keys, strings and numbers

The parts of a TOML document that hold no other values. A reader gives what it
read and the text behind that, or nothing if the text does not begin with what
it reads.
-/

namespace ClassSchema.Toml

/-- Puts a character in front of what was read. -/
def inFront (c : Char) (read : Text × Text) : Text × Text := (c :: read.1, read.2)

def isBlank (c : Char) : Bool := c == ' ' || c == '\t'

/-- Characters that may stand in comments and strings: no control characters
but the tab. -/
def isPlain (c : Char) : Bool := c == '\t' || (0x20 ≤ c.toNat && c.toNat != 0x7F)

def skipBlanks (t : Text) : Text := t.dropWhile isBlank

/-- The text behind an end of line. -/
def cutLineEnd? : Text → Option Text
  | '\n' :: t => some t
  | '\r' :: '\n' :: t => some t
  | _ => none

/-- The text behind blanks, a comment and the end of the line. -/
def finishLine? (t : Text) : Option Text :=
  match skipBlanks t with
  | '#' :: u => ending (u.dropWhile isPlain)
  | u => ending u
where
  ending : Text → Option Text
    | [] => some []
    | t => cutLineEnd? t

/-- Skips blanks, ends of lines and comments, where `comment` tells whether the
text is inside of a comment. -/
def skipLines (comment : Bool) : Text → Text
  | [] => []
  | '\n' :: t => skipLines false t
  | '\r' :: '\n' :: t => skipLines false t
  | c :: t =>
    if comment then if isPlain c then skipLines true t else c :: t
    else if isBlank c then skipLines false t
    else if c = '#' then skipLines true t
    else c :: t

/-- Skips blanks and ends of lines. -/
def skipWhite : Text → Text
  | '\n' :: t => skipWhite t
  | '\r' :: '\n' :: t => skipWhite t
  | c :: t => if isBlank c then skipWhite t else c :: t
  | [] => []

def hexValue? (c : Char) : Option Nat :=
  if c.isDigit then some (c.toNat - '0'.toNat)
  else if 'a' ≤ c ∧ c ≤ 'f' then some (c.toNat - 'a'.toNat + 10)
  else if 'A' ≤ c ∧ c ≤ 'F' then some (c.toNat - 'A'.toNat + 10)
  else none

/-- The value of digits, of which there must be one. -/
def ofDigits? (base : Nat) : Text → Option Nat
  | [] => none
  | digits => digits.foldlM (fun n c => (hexValue? c).map (base * n + ·)) 0

/-- The character whose code is written in the first `width` characters. -/
def cutCode? (width : Nat) (t : Text) : Option (Char × Text) := do
  let digits := t.take width
  guard (digits.length = width)
  let n ← ofDigits? 16 digits
  if n.isValidChar then some (Char.ofNat n, t.drop width) else none

/-- The character that an escape stands for, behind its backslash. -/
def cutEscape? : Text → Option (Char × Text)
  | [] => none
  | c :: t =>
    if c = 'b' then some ('\x08', t)
    else if c = 't' then some ('\t', t)
    else if c = 'n' then some ('\n', t)
    else if c = 'f' then some ('\x0c', t)
    else if c = 'r' then some ('\r', t)
    else if c = '"' ∨ c = '\\' then some (c, t)
    else if c = 'u' then cutCode? 4 t
    else if c = 'U' then cutCode? 8 t
    else none

/-- The rest of a string in double quotes, behind the first one. -/
def cutBasic? : Nat → Text → Option (Text × Text)
  | fuel + 1, c :: t =>
    if c = '"' then some ([], t)
    else if c = '\\' then do
      let (d, rest) ← cutEscape? t
      (cutBasic? fuel rest).map (inFront d)
    else if isPlain c then (cutBasic? fuel t).map (inFront c)
    else none
  | _, _ => none

/-- The rest of a string in single quotes, behind the first one. -/
def cutLiteral? : Text → Option (Text × Text)
  | [] => none
  | c :: t =>
    if c = '\x27' then some ([], t)
    else if isPlain c then (cutLiteral? t).map (inFront c)
    else none

/-- The end of a string over several lines: three quotes, with up to two more in
front that belong to the string. -/
def cutTripled? (quote : Char) (t : Text) : Option (Text × Text) :=
  let count := min (t.takeWhile (· = quote)).length 5
  if count < 3 then none else some (List.replicate (count - 3) quote, t.drop count)

/-- The rest of a string over several lines, behind its first quotes. A
backslash at the end of a line skips all white space behind it. -/
def cutLong? (quote : Char) : Nat → Text → Option (Text × Text)
  | 0, _ => none
  | fuel + 1, t =>
    match cutTripled? quote t with
    | some result => some result
    | none =>
      match cutLineEnd? t, t with
      | some rest, _ => (cutLong? quote fuel rest).map (inFront '\n')
      | none, [] => none
      | none, c :: t =>
        if c = '\\' ∧ quote = '"' then
          if (cutLineEnd? (skipBlanks t)).isSome then
            cutLong? quote fuel (skipWhite t)
          else do
            let (d, rest) ← cutEscape? t
            (cutLong? quote fuel rest).map (inFront d)
        else if isPlain c then (cutLong? quote fuel t).map (inFront c)
        else none

def cutString? (t : Text) : Option (Text × Text) :=
  match t with
  | '"' :: '"' :: '"' :: u => cutLong? '"' (t.length + 1) ((cutLineEnd? u).getD u)
  | '\x27' :: '\x27' :: '\x27' :: u => cutLong? '\x27' (t.length + 1) ((cutLineEnd? u).getD u)
  | '"' :: u => cutBasic? t.length u
  | '\x27' :: u => cutLiteral? u
  | _ => none

def isKeyChar (c : Char) : Bool := c.isAlphanum || c == '_' || c == '-'

/-- A key without dots. -/
def cutSimpleKey? : Text → Option (Text × Text)
  | '"' :: t => cutBasic? (t.length + 1) t
  | '\x27' :: t => cutLiteral? t
  | t =>
    match t.takeWhile isKeyChar with
    | [] => none
    | key => some (key, t.dropWhile isKeyChar)

/-- The parts of a key, of which there are at most `count`. -/
def cutKey? : Nat → Text → Option (List Text × Text)
  | 0, _ => none
  | count + 1, t => do
    let (first, rest) ← cutSimpleKey? (skipBlanks t)
    match skipBlanks rest with
    | '.' :: u => (cutKey? count u).map fun (more, u) => (first :: more, u)
    | u => some ([first], u)

/-- Digits, where single underscores between them are left out. -/
def cutDigits (isDigit : Char → Bool) : Text → Text × Text
  | '_' :: c :: t =>
    if isDigit c then inFront c (cutDigits isDigit t) else ([], '_' :: c :: t)
  | c :: t => if isDigit c then inFront c (cutDigits isDigit t) else ([], c :: t)
  | [] => ([], [])

/-- Digits that begin with a digit. -/
def cutNumeral? (isDigit : Char → Bool) (t : Text) : Option (Text × Text) :=
  match t with
  | c :: _ => if isDigit c then some (cutDigits isDigit t) else none
  | [] => none

/-- Decimal digits without a zero in front. -/
def cutDecimal? : Text → Option (Text × Text)
  | '0' :: t => some (['0'], t)
  | t => cutNumeral? Char.isDigit t

def cutSign : Text → Bool × Text
  | '-' :: t => (true, t)
  | '+' :: t => (false, t)
  | t => (false, t)

def cutFraction? : Text → Option (Text × Text)
  | '.' :: t => cutNumeral? Char.isDigit t
  | _ => none

def cutExponent? : Text → Option (Int × Text)
  | c :: t => do
    guard (c = 'e' ∨ c = 'E')
    let (negative, unsigned) := cutSign t
    let (digits, rest) ← cutNumeral? Char.isDigit unsigned
    let n ← ofDigits? 10 digits
    return (if negative then -(n : Int) else n, rest)
  | [] => none

/-- The least number that is rounded to infinity: half a step above the largest
number of double precision. -/
def infinityBound : Nat := Nat.pow 2 1024 - Nat.pow 2 970

/-- Whether a number with digits and a decimal exponent is rounded to infinity.
Exponents far from the bound are told apart by the number of digits. -/
def isInfinite (n : Nat) (exponent : Int) : Bool :=
  let size : Int := (Nat.toDigits 10 n).length + exponent
  if n = 0 ∨ size < 300 then false
  else if 320 < size then true
  else infinityBound * Nat.pow 10 (-exponent).toNat ≤ n * Nat.pow 10 exponent.toNat

/-- An integer of 64 bits. -/
def integer? (n : Int) : Option Value :=
  if Int64.minValue.toInt ≤ n ∧ n ≤ Int64.maxValue.toInt then some (.integer n) else none

/-- An integer in another base, behind its marker. -/
def cutBased? (base : Nat) (isDigit : Char → Bool) (t : Text) : Option (Value × Text) := do
  let (digits, rest) ← cutNumeral? isDigit t
  let n ← ofDigits? base digits
  let v ← integer? n
  return (v, rest)

/-- A float with these digits, unless it is too large. There is no lower bound. -/
def float? (negative : Bool) (whole fraction : Text) (exponent : Int) (t : Text) :
    Option Value := do
  let n ← ofDigits? 10 (whole ++ fraction)
  if !negative ∧ isInfinite n (exponent - fraction.length) then none else some (.float t)

/-- A number in decimal digits. -/
def cutPlainNumber? (t : Text) : Option (Value × Text) := do
  let (negative, unsigned) := cutSign t
  let consumed (rest : Text) : Text := t.take (t.length - rest.length)
  match unsigned with
  | 'i' :: 'n' :: 'f' :: rest | 'n' :: 'a' :: 'n' :: rest => return (.float (consumed rest), rest)
  | _ =>
    let (whole, rest) ← cutDecimal? unsigned
    match cutFraction? rest, cutExponent? rest with
    | some (fraction, rest), _ =>
      let (exponent, rest) := (cutExponent? rest).getD (0, rest)
      return (← float? negative whole fraction exponent (consumed rest), rest)
    | none, some (exponent, rest) =>
      return (← float? negative whole [] exponent (consumed rest), rest)
    | none, none =>
      let n ← ofDigits? 10 whole
      let v ← integer? (if negative then -(n : Int) else n)
      return (v, rest)

def cutNumber? : Text → Option (Value × Text)
  | '0' :: 'x' :: t => cutBased? 16 (fun c => (hexValue? c).isSome) t
  | '0' :: 'o' :: t => cutBased? 8 (fun c => '0' ≤ c && c ≤ '7') t
  | '0' :: 'b' :: t => cutBased? 2 (fun c => c == '0' || c == '1') t
  | t => cutPlainNumber? t

end ClassSchema.Toml
