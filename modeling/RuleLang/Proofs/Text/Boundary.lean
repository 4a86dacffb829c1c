import Mathlib.Algebra.Ring.Nat
import Mathlib.Data.List.Basic
import RuleLang.Text.Columns
import RuleLang.Proofs.Text.Decoding

/-!
# RuleLang.Proofs.Text.Boundary

Where characters meet. A byte offset is a boundary of a text if the bytes before it are whole
characters of the text. There the UTF-16 column counts these characters (`utf16Col_of_isPrefix`),
so from boundary to boundary it grows strictly (`utf16Col_lt`). Inside a character it need not grow:
the bytes before are then decoded without the rest of their character.

An ASCII byte has a boundary on either side, whatever stands around it
(`isBoundary_of_ascii`, `isBoundary_succ_of_ascii`).
-/

namespace RuleLang

theorem TextChar.units_pos (r : TextChar) : 0 < r.units := by
  unfold TextChar.units
  split <;> omega

namespace Text

/-- Are the bytes before offset `o` whole characters of the text? -/
def IsBoundary (t : Text) (o : Nat) : Prop := ∃ rs, rs <+: t.chars ∧ (ofChars rs).length = o

theorem isBoundary_length (t : Text) : t.IsBoundary t.length :=
  ⟨t.chars, List.prefix_rfl, by rw [ofChars_chars]⟩

/-- Texts that are decoded apart meet at a boundary. -/
theorem isBoundary_append {s t : Text} (h : chars (s ++ t) = chars s ++ chars t) :
    (s ++ t).IsBoundary s.length :=
  ⟨s.chars, ⟨t.chars, h.symm⟩, by rw [ofChars_chars]⟩

section Ascii

variable {t : Text} {o : Nat} {b : UInt8}

theorem isBoundary_of_ascii (h : t[o]? = some b) (hb : b < 0x80) : t.IsBoundary o := by
  obtain ⟨ho, hbyte⟩ := List.getElem?_eq_some_iff.1 h
  have hfresh : Utf8.Fresh (t.drop o) := by
    rw [List.drop_eq_getElem_cons ho, hbyte]
    exact Utf8.fresh_cons _ hb
  have hcut := isBoundary_append (chars_append (t.take o) hfresh)
  rwa [List.take_append_drop, List.length_take_of_le (by omega)] at hcut

theorem isBoundary_succ_of_ascii (h : t[o]? = some b) (hb : b < 0x80) : t.IsBoundary (o + 1) := by
  obtain ⟨ho, hbyte⟩ := List.getElem?_eq_some_iff.1 h
  have hdrop : t.drop o = b :: t.drop (o + 1) := by rw [List.drop_eq_getElem_cons ho, hbyte]
  have hfresh : Utf8.Fresh (t.drop o) := by
    rw [hdrop]
    exact Utf8.fresh_cons _ hb
  have htake : t.take (o + 1) = t.take o ++ [b] := by
    rw [List.take_succ_eq_append_getElem ho, hbyte]
  -- the characters before the byte, the byte itself, the characters after it
  have hwhole : chars (t.take (o + 1) ++ t.drop (o + 1)) =
      chars (t.take (o + 1)) ++ chars (t.drop (o + 1)) := by
    rw [htake, List.append_assoc, List.singleton_append, ← hdrop, chars_append _ hfresh, hdrop,
      chars_ascii_cons _ hb, chars_append _ (Utf8.fresh_cons [] hb), chars_ascii_cons [] hb,
      chars_nil, List.append_assoc, List.singleton_append]
  have hcut := isBoundary_append hwhole
  rwa [List.take_append_drop, List.length_take_of_le (by omega)] at hcut

end Ascii

/-! ## UTF-16 columns -/

theorem utf16Col_of_isPrefix {t : Text} {rs : List TextChar} (h : rs <+: t.chars) :
    t.utf16Col (ofChars rs).length = (rs.map TextChar.units).sum := by
  have hcut : t.take (ofChars rs).length = ofChars rs := by
    obtain ⟨back, hback⟩ := h
    have ht : ofChars rs ++ ofChars back = t := by rw [← ofChars_append, hback, ofChars_chars]
    rw [← ht, List.take_left]
  rw [utf16Col, hcut, chars_ofChars_of_isPrefix h, List.sum_eq_foldr]

/-- Two boundaries have the characters between them. -/
theorem utf16Col_lt {t : Text} {o o' : Nat} (ho : t.IsBoundary o) (ho' : t.IsBoundary o')
    (h : o < o') : t.utf16Col o < t.utf16Col o' := by
  obtain ⟨rs, hrs, rfl⟩ := ho
  obtain ⟨rs', hrs', rfl⟩ := ho'
  rw [utf16Col_of_isPrefix hrs, utf16Col_of_isPrefix hrs']
  rcases List.prefix_or_prefix_of_prefix hrs hrs' with hpre | hpre
  · obtain ⟨between, rfl⟩ := hpre
    cases between with
    | nil => simp at h
    | cons r between =>
      have hr := r.units_pos
      simp only [List.map_append, List.map_cons, List.sum_append, List.sum_cons]
      omega
  · obtain ⟨between, rfl⟩ := hpre
    rw [ofChars_append, List.length_append] at h
    omega

theorem utf16Col_le {t : Text} {o o' : Nat} (ho : t.IsBoundary o) (ho' : t.IsBoundary o')
    (h : o ≤ o') : t.utf16Col o ≤ t.utf16Col o' := by
  rcases Nat.lt_or_eq_of_le h with hlt | rfl
  · exact Nat.le_of_lt (utf16Col_lt ho ho' hlt)
  · exact Nat.le_refl _

end Text
end RuleLang
