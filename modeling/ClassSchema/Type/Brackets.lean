import ClassSchema.Text.Basic

/-!
# Brackets

Type expressions nest brackets. Two cuts are needed: at the bracket that closes
one already opened, and at the commas that stand outside of all brackets.
-/

namespace ClassSchema.Brackets

/-- Cuts at the closing bracket that leaves `depth` further ones open before it:
the text in front of that bracket and the text behind it. -/
def cutAt (depth : Nat) : Text → Option (Text × Text)
  | [] => none
  | c :: t =>
    if c = '[' then (cutAt (depth + 1) t).map fun (inner, rest) => (c :: inner, rest)
    else if c = ']' then
      match depth with
      | 0 => some ([], t)
      | d + 1 => (cutAt d t).map fun (inner, rest) => (c :: inner, rest)
    else (cutAt depth t).map fun (inner, rest) => (c :: inner, rest)

/-- Cuts at the bracket that closes one opened just before the text. -/
def cut? (t : Text) : Option (Text × Text) := cutAt 0 t

/-- The pieces between the commas that stand outside of all brackets, where
`depth` brackets are open at the beginning. -/
def piecesAt (depth : Nat) : Text → List Text
  | [] => [[]]
  | c :: t =>
    if c = '[' then Text.consHead c (piecesAt (depth + 1) t)
    else if c = ']' then Text.consHead c (piecesAt (depth - 1) t)
    else if c = ',' ∧ depth = 0 then [] :: piecesAt depth t
    else Text.consHead c (piecesAt depth t)

theorem piecesAt_ne_nil (depth : Nat) (t : Text) : piecesAt depth t ≠ [] := by
  cases t with
  | nil => simp [piecesAt]
  | cons c t =>
    unfold piecesAt
    repeat' split
    all_goals simp [Text.consHead_ne_nil]

/-- Joining with commas gives back any text that was cut at commas. -/
theorem joined_piecesAt (depth : Nat) (t : Text) : Text.joined "," (piecesAt depth t) = t := by
  fun_induction piecesAt depth t with
  | case1 => rfl
  | case2 depth t ih => rw [Text.joined_consHead (piecesAt_ne_nil _ _), ih]
  | case3 depth t _ ih => rw [Text.joined_consHead (piecesAt_ne_nil _ _), ih]
  | case4 depth c t ho hc hcomma ih =>
    obtain ⟨rfl, -⟩ := hcomma
    rw [Text.joined_cons (piecesAt_ne_nil _ _), ih]
    rfl
  | case5 depth c t ho hc hcomma ih => rw [Text.joined_consHead (piecesAt_ne_nil _ _), ih]

theorem piecesAt_comma (t : Text) : piecesAt 0 (',' :: t) = [] :: piecesAt 0 t := by
  simp [piecesAt]

def pieces (t : Text) : List Text := piecesAt 0 t

/-- How many brackets are open at the end of a text that begins with `depth`
open ones; nothing if one is closed that was not open. -/
def openAfter? (depth : Nat) : Text → Option Nat
  | [] => some depth
  | c :: t =>
    if c = '[' then openAfter? (depth + 1) t
    else if c = ']' then
      match depth with
      | 0 => none
      | d + 1 => openAfter? d t
    else openAfter? depth t

@[simp] theorem openAfter?_open (depth : Nat) (t : Text) :
    openAfter? depth ('[' :: t) = openAfter? (depth + 1) t := by
  simp [openAfter?]

@[simp] theorem openAfter?_close (depth : Nat) (t : Text) :
    openAfter? (depth + 1) (']' :: t) = openAfter? depth t := by
  simp [openAfter?]

theorem openAfter?_other {t : Text} {depth : Nat} {c : Char} (ho : c ≠ '[') (hc : c ≠ ']') :
    openAfter? depth (c :: t) = openAfter? depth t := by
  simp [openAfter?, ho, hc]

theorem openAfter?_append (depth : Nat) (s t : Text) :
    openAfter? depth (s ++ t) = (openAfter? depth s).bind fun d => openAfter? d t := by
  fun_induction openAfter? depth s <;> simp_all [openAfter?]

/-- Brackets that are open before the text stay open behind it. -/
theorem openAfter?_add {t : Text} {d e : Nat} (h : openAfter? d t = some e) (k : Nat) :
    openAfter? (d + k) t = some (e + k) := by
  fun_induction openAfter? d t with
  | case1 d => exact congrArg (Option.map (· + k)) h
  | case2 d t ih =>
    rw [openAfter?_open, Nat.add_right_comm]
    exact ih h
  | case3 t => simp at h
  | case4 t d _ ih =>
    rw [Nat.succ_eq_add_one, Nat.add_right_comm, openAfter?_close]
    exact ih h
  | case5 d c t ho hc ih =>
    rw [openAfter?_other ho hc]
    exact ih h

/-- Every bracket is closed, and none before it was opened. -/
def Balanced (t : Text) : Prop := openAfter? 0 t = some 0

@[simp] theorem balanced_nil : Balanced [] := rfl

/-- Behind a balanced text the depth is what it was before. -/
theorem Balanced.openAfter?_append {s : Text} {depth : Nat} (hs : Balanced s) (t : Text) :
    openAfter? depth (s ++ t) = openAfter? depth t := by
  have h := openAfter?_add hs depth
  rw [Nat.zero_add] at h
  rw [Brackets.openAfter?_append, h, Option.bind_some]

theorem Balanced.append {s t : Text} (hs : Balanced s) (ht : Balanced t) : Balanced (s ++ t) := by
  unfold Balanced
  rw [hs.openAfter?_append]
  exact ht

theorem Balanced.wrap {s : Text} (hs : Balanced s) : Balanced ('[' :: s ++ [']']) := by
  change openAfter? 1 (s ++ [']']) = some 0
  rw [hs.openAfter?_append]
  rfl

/-- A beginning of a balanced text closes no bracket that it has not opened. -/
theorem Balanced.of_append_left {s t : Text} (h : Balanced (s ++ t)) :
    ∃ d, openAfter? 0 s = some d := by
  unfold Balanced at h
  rw [Brackets.openAfter?_append] at h
  obtain ⟨d, hd, -⟩ := Option.bind_eq_some_iff.mp h
  exact ⟨d, hd⟩

instance (t : Text) : Decidable (Balanced t) := inferInstanceAs (Decidable (_ = _))

end ClassSchema.Brackets
