import ClassSchema.Name
import ClassSchema.Text.Basic

/-!
# Tokens of a tag region

The text behind the type of a field is cut into targets, colons, quoted
literals and fillers. The lexer reads one character at a time and remembers
only the token it is in, so what it does with a text that follows another one
depends on nothing but that token.
-/

namespace ClassSchema

inductive TokenKind where
  | target | colon | literal | filler
  /-- A character that begins no token, or a quotation that is never closed. -/
  | unmatched
deriving DecidableEq, Repr

structure Token where
  kind : TokenKind
  text : Text
  /-- Byte offset of the token. -/
  start : Nat
deriving DecidableEq, Repr

namespace Token

def span (t : Token) : Span := Span.ofText t.start t.text

/-- The characters between tokens. -/
def isGap (c : Char) : Bool := c == ' ' || c == '\t' || c == '\r' || c == '\x0c'

theorem isBlank_of_isGap {c : Char} (h : isGap c = true) : Text.isBlank c = true := by
  simp only [isGap, Bool.or_eq_true, beq_iff_eq] at h
  rcases h with ((rfl | rfl) | rfl) | rfl <;> decide

theorem isGap_of_isAlpha {c : Char} (h : c.isAlpha = true) : isGap c = false := by
  cases hgap : isGap c with
  | false => rfl
  | true =>
    simp only [isGap, Bool.or_eq_true, beq_iff_eq] at hgap
    rcases hgap with ((rfl | rfl) | rfl) | rfl <;> revert h <;> decide

theorem isTargetChar_of_isGap {c : Char} (h : isGap c = true) :
    isTargetChar c = false ∧ c ≠ '?' := by
  simp only [isGap, Bool.or_eq_true, beq_iff_eq] at h
  rcases h with ((rfl | rfl) | rfl) | rfl <;> decide

theorem utf8Size_of_isGap {c : Char} (h : isGap c = true) : c.utf8Size = 1 := by
  simp only [isGap, Bool.or_eq_true, beq_iff_eq] at h
  rcases h with ((rfl | rfl) | rfl) | rfl <;> decide

/-- A token that may still grow, with its offset and its characters so far, the
latest first. -/
inductive Pending where
  | nothing
  | target (start : Nat) (reversed : Text)
  | literal (start : Nat) (reversed : Text)
deriving DecidableEq, Repr

/-- The state after a character that is not part of a pending token, and the
token that it makes on its own. -/
def enter (offset : Nat) (c : Char) : Pending × List Token :=
  if isGap c then (.nothing, [])
  else if c.isAlpha then (.target offset [c], [])
  else if c = '"' then (.literal offset [c], [])
  else if c = ':' then (.nothing, [⟨.colon, [c], offset⟩])
  else if c = '-' then (.nothing, [⟨.filler, [c], offset⟩])
  else (.nothing, [⟨.unmatched, [c], offset⟩])

/-- White space that is no gap is a token of its own, which belongs to no tag. -/
theorem enter_of_not_gap {c : Char} (hblank : Text.isBlank c = true) (hgap : isGap c = false)
    (offset : Nat) :
    enter offset c = (.nothing, [⟨.unmatched, [c], offset⟩]) := by
  have halpha : ¬ c.isAlpha = true := by
    intro halpha
    have hchar : isTargetChar c = true := by simp [isTargetChar, Char.isAlphanum, halpha]
    exact Text.ne_of_isBlank hblank (isBlank_of_isTargetChar hchar) rfl
  have hquote : c ≠ '"' := Text.ne_of_isBlank hblank (by decide)
  have hcolon : c ≠ ':' := Text.ne_of_isBlank hblank (by decide)
  have hdash : c ≠ '-' := Text.ne_of_isBlank hblank (by decide)
  rw [enter, if_neg (by simp [hgap]), if_neg halpha, if_neg hquote, if_neg hcolon, if_neg hdash]

theorem exists_enter_of_isBlank {c : Char} (h : Text.isBlank c = true) (offset : Nat) :
    ∃ tokens, enter offset c = (.nothing, tokens) ∧ ∀ t ∈ tokens, t.kind = .unmatched := by
  cases hgap : isGap c with
  | true => exact ⟨[], by rw [enter, if_pos hgap], by simp⟩
  | false => exact ⟨_, enter_of_not_gap h hgap offset, by simp⟩

/-- One character further: the new state and the tokens that are complete. -/
def step (offset : Nat) : Pending → Char → Pending × List Token
  | .nothing, c => enter offset c
  | .target start reversed, c =>
    if isTargetChar c then (.target start (c :: reversed), [])
    else if c = '?' then (.nothing, [⟨.target, (c :: reversed).reverse, start⟩])
    else
      let (next, tokens) := enter offset c
      (next, ⟨.target, reversed.reverse, start⟩ :: tokens)
  | .literal start reversed, c =>
    if c = '"' then (.nothing, [⟨.literal, (c :: reversed).reverse, start⟩])
    else (.literal start (c :: reversed), [])

theorem step_target_of_isTargetChar {offset start : Nat} {reversed : Text} {c : Char}
    (h : isTargetChar c = true) :
    step offset (.target start reversed) c = (.target start (c :: reversed), []) := by
  simp [step, h]

theorem step_target_mark {offset start : Nat} {reversed : Text} :
    step offset (.target start reversed) '?' =
      (.nothing, [⟨.target, ('?' :: reversed).reverse, start⟩]) := by
  have hchar : isTargetChar '?' = false := by decide
  simp [step, hchar]

theorem step_target_of_ne {offset start : Nat} {reversed : Text} {c : Char}
    (hchar : ¬ isTargetChar c = true) (hmark : c ≠ '?') :
    step offset (.target start reversed) c =
      ((enter offset c).1, ⟨.target, reversed.reverse, start⟩ :: (enter offset c).2) := by
  simp [step, hchar, hmark]

theorem step_literal_quote {offset start : Nat} {reversed : Text} :
    step offset (.literal start reversed) '"' =
      (.nothing, [⟨.literal, ('"' :: reversed).reverse, start⟩]) := by
  simp [step]

theorem step_literal_of_ne {offset start : Nat} {reversed : Text} {c : Char} (h : c ≠ '"') :
    step offset (.literal start reversed) c = (.literal start (c :: reversed), []) := by
  simp [step, h]

/-- The token that is pending at the end of the text. -/
def finish : Pending → List Token
  | .nothing => []
  | .target start reversed => [⟨.target, reversed.reverse, start⟩]
  | .literal start reversed => [⟨.unmatched, reversed.reverse, start⟩]

/-- The tokens of a text that begins at an offset in a given state. -/
def lexFrom (offset : Nat) (pending : Pending) : Text → List Token
  | [] => finish pending
  | c :: t =>
    let (next, tokens) := step offset pending c
    tokens ++ lexFrom (offset + c.utf8Size) next t

def lex (region : Text) : List Token := lexFrom 0 .nothing region

end Token

end ClassSchema
