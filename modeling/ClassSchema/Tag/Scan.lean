import ClassSchema.Tag.Token

/-!
# Scanning a tag region

The tags of a region stand one after the other, with fillers between them. The
scan ends at the first token that continues neither, and everything from there
on is trailing text.
-/

namespace ClassSchema

/-- A tag as it stands in a region, with its values not yet taken apart. -/
structure RawTag where
  target : Text
  nullable : Bool
  /-- The text between the quotes. -/
  values : Text
  span : Span
deriving DecidableEq, Repr

/-- Text of a region that belongs to no tag. -/
structure Trailing where
  text : Text
  span : Span
deriving DecidableEq, Repr

structure TagScan where
  tags : List RawTag
  trailing : Option Trailing
deriving DecidableEq, Repr

namespace RawTag

/-- The tag made of a target and a literal. -/
def ofTokens (target literal : Token) : RawTag where
  target := (Text.withoutEnding? "?" target.text).getD target.text
  nullable := (Text.withoutEnding? "?" target.text).isSome
  values := literal.text.tail.dropLast
  span := ⟨target.span.start, literal.span.stop⟩

end RawTag

namespace TagScan

/-- The tags at the head of a token list, and the token at which they end. -/
def ofTokens : List Token → List RawTag × Option Token
  | [] => ([], none)
  | ⟨.filler, _, _⟩ :: tokens => ofTokens tokens
  | ⟨.target, name, start⟩ :: ⟨.colon, _, _⟩ :: ⟨.literal, values, valuesStart⟩ :: tokens =>
    let (tags, stop) := ofTokens tokens
    (.ofTokens ⟨.target, name, start⟩ ⟨.literal, values, valuesStart⟩ :: tags, stop)
  | token :: _ => ([], some token)

theorem ofTokens_stop_mem {tokens : List Token} {token : Token}
    (h : (ofTokens tokens).2 = some token) : token ∈ tokens := by
  fun_induction ofTokens tokens with
  | case1 => simp at h
  | case2 text start tokens ih => exact List.mem_cons_of_mem _ (ih h)
  | case3 name start text colonStart values valuesStart tokens tags stop hscan ih =>
    simp only [hscan] at ih
    simp [ih h]
  | case4 first tokens =>
    obtain rfl : first = token := by simpa using h
    exact List.mem_cons_self

/-- What trails from an offset of the region on, up to final white space. -/
def trailingFrom (region : Text) (start : Nat) : Trailing :=
  let text := Text.trimEnd (region.dropBytes start)
  ⟨text, Span.ofText start text⟩

def scan (region : Text) : TagScan :=
  let (tags, stop) := ofTokens (Token.lex region)
  ⟨tags, stop.map fun token => trailingFrom region token.start⟩

end TagScan

end ClassSchema
