import ClassSchema.Proofs.Text
import ClassSchema.Text.Basic

/-!
# Parts of a text and their spans

A span covers a part of a text when both of its ends lie between characters and
the part is what stands between them. A span that covers a part of a part covers
it in the whole text once it is moved to where the part begins, so offsets that
were counted in nested texts can be added up.
-/

namespace ClassSchema

/-- An offset at which a character of the text begins, or its end. -/
def Text.IsBoundary (t : Text) (n : ℕ) : Prop := ∃ front : Text, front <+: t ∧ front.byteLength = n

namespace Span

variable {s : Span} {t u part : Text} {n : ℕ}

/-- The part stands in the text, and the span goes from its first byte to behind its
last one. -/
def Covers (s : Span) (t part : Text) : Prop :=
  ∃ before after, t = before ++ part ++ after ∧ s = ofText before.byteLength part

def Within (inner outer : Span) : Prop := outer.start ≤ inner.start ∧ inner.stop ≤ outer.stop

theorem Covers.start_le_stop (h : s.Covers t part) : s.start ≤ s.stop := by
  obtain ⟨before, after, -, rfl⟩ := h
  exact Nat.le_add_right _ _

theorem Covers.stop_le (h : s.Covers t part) : s.stop ≤ t.byteLength := by
  obtain ⟨before, after, rfl, rfl⟩ := h
  simp only [ofText, Text.byteLength_append]
  omega

theorem Covers.isBoundary (h : s.Covers t part) : t.IsBoundary s.start ∧ t.IsBoundary s.stop := by
  obtain ⟨before, after, rfl, rfl⟩ := h
  constructor
  · exact ⟨before, ⟨part ++ after, by simp⟩, rfl⟩
  · exact ⟨before ++ part, ⟨after, rfl⟩, Text.byteLength_append before part⟩

theorem Covers.shifted (h : s.Covers t part) (ht : (ofText n t).Covers u t) :
    (s.shifted n).Covers u part := by
  obtain ⟨before, after, rfl, rfl⟩ := h
  obtain ⟨front, back, rfl, hspan⟩ := ht
  obtain rfl : n = front.byteLength := congrArg start hspan
  refine ⟨front ++ before, after ++ back, by simp, ?_⟩
  rw [shifted_ofText, Text.byteLength_append, Nat.add_comm]

theorem Covers.shifted_within (h : s.Covers t part) (n : ℕ) :
    (s.shifted n).Within (ofText n t) := by
  have hstop := h.stop_le
  simp only [Within, Span.shifted, ofText]
  omega

theorem covers_trimEnd (before t : Text) :
    (ofText before.byteLength (Text.trimEnd t)).Covers (before ++ t) (Text.trimEnd t) := by
  obtain ⟨blanks, hblanks⟩ := List.rdropWhile_prefix Text.isBlank t
  refine ⟨before, blanks, ?_, rfl⟩
  rw [List.append_assoc]
  exact congrArg (before ++ ·) hblanks.symm

theorem covers_trim (t : Text) :
    (ofText (Text.leadingBlanks t).byteLength (Text.trim t)).Covers t (Text.trim t) := by
  have h := covers_trimEnd (Text.leadingBlanks t) (Text.trimStart t)
  rwa [Text.leadingBlanks, Text.trimStart, List.takeWhile_append_dropWhile] at h

end Span

end ClassSchema
