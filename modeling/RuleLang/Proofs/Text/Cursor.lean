import Mathlib.Order.Bounds.Basic
import RuleLang.Proofs.Text.Boundary

/-!
# RuleLang.Proofs.Text.Cursor

Where a cursor stands that an editor puts at a UTF-16 column.

The byte offset of a column is found by taking characters as long as they fit (`charsWithin`). It is
a boundary, the last one whose column is not behind the given one (`isGreatest_byteOffset`); so at
boundaries it undoes `utf16Col` (`byteOffset_utf16Col`), and its own column is the given one clamped
to the line and rounded down to a character (`cursorAt_byteOffset`).
-/

namespace RuleLang
namespace Text

/-- The characters that fit wholly into `room` UTF-16 units. -/
def charsWithin : (room : Nat) → List TextChar → List TextChar
  | _, [] => []
  | room, r :: rs => if r.units ≤ room then r :: charsWithin (room - r.units) rs else []

theorem bytesWithin_eq (room : Nat) (rs : List TextChar) :
    bytesWithin room rs = (ofChars (charsWithin room rs)).length := by
  induction rs generalizing room with
  | nil => rfl
  | cons r rs ih =>
    rw [bytesWithin, charsWithin]
    split
    · simp [ih, ofChars]
    · rfl

theorem charsWithin_isPrefix (room : Nat) (rs : List TextChar) : charsWithin room rs <+: rs := by
  induction rs generalizing room with
  | nil => exact List.nil_prefix
  | cons r rs ih =>
    rw [charsWithin]
    split
    · exact (List.prefix_cons_inj r).2 (ih _)
    · exact List.nil_prefix

theorem units_charsWithin_le (room : Nat) (rs : List TextChar) :
    ((charsWithin room rs).map TextChar.units).sum ≤ room := by
  induction rs generalizing room with
  | nil => simp [charsWithin]
  | cons r rs ih =>
    rw [charsWithin]
    split
    · have := ih (room - r.units)
      rw [List.map_cons, List.sum_cons]
      omega
    · simp

theorem isPrefix_charsWithin {room : Nat} {rs front : List TextChar} (h : front <+: rs)
    (hfit : (front.map TextChar.units).sum ≤ room) : front <+: charsWithin room rs := by
  induction front generalizing room rs with
  | nil => exact List.nil_prefix
  | cons r front ih =>
    obtain ⟨back, rfl⟩ := h
    rw [List.map_cons, List.sum_cons] at hfit
    rw [List.cons_append, charsWithin, if_pos (by omega), List.prefix_cons_inj]
    exact ih (List.prefix_append _ _) (by omega)

theorem IsBoundary.le_length {t : Text} {o : Nat} (h : t.IsBoundary o) : o ≤ t.length := by
  obtain ⟨rs, ⟨back, hback⟩, rfl⟩ := h
  have hlen : (ofChars (rs ++ back)).length = t.length := by rw [hback, ofChars_chars]
  rw [ofChars_append, List.length_append] at hlen
  omega

theorem isGreatest_byteOffset (line : Text) (c : Int) :
    IsGreatest {o | line.IsBoundary o ∧ line.utf16Col o ≤ c.toNat} (line.byteOffset c) := by
  have hfront := charsWithin_isPrefix c.toNat line.chars
  rw [byteOffset, bytesWithin_eq]
  refine ⟨⟨⟨_, hfront, rfl⟩, ?_⟩, ?_⟩
  · rw [utf16Col_of_isPrefix hfront]
    exact units_charsWithin_le _ _
  · rintro o ⟨⟨rs, hrs, rfl⟩, hcol⟩
    rw [utf16Col_of_isPrefix hrs] at hcol
    obtain ⟨back, hback⟩ := isPrefix_charsWithin hrs hcol
    rw [← hback, ofChars_append, List.length_append]
    omega

theorem isBoundary_byteOffset (line : Text) (c : Int) : line.IsBoundary (line.byteOffset c) :=
  (isGreatest_byteOffset line c).1.1

theorem byteOffset_utf16Col {line : Text} {o : Nat} (h : line.IsBoundary o) :
    line.byteOffset (line.utf16Col o) = o := by
  obtain ⟨⟨hbound, hcol⟩, hmax⟩ := isGreatest_byteOffset line (line.utf16Col o)
  rw [Int.toNat_natCast] at hcol hmax
  have hle : o ≤ line.byteOffset (line.utf16Col o) := hmax ⟨h, Nat.le_refl _⟩
  rcases Nat.lt_or_eq_of_le hle with hlt | heq
  · have := utf16Col_lt h hbound hlt
    omega
  · exact heq.symm

/-- Column `k` is column `c` clamped to the line and rounded down to a column at which characters
meet. -/
def CursorAt (line : Text) (c : Int) (k : Nat) : Prop :=
  IsGreatest {k : Nat | (∃ o, line.IsBoundary o ∧ line.utf16Col o = k) ∧
    (k : Int) ≤ max 0 (min c (line.utf16Col line.length))} k

theorem cursorAt_byteOffset (line : Text) (c : Int) :
    line.CursorAt c (line.utf16Col (line.byteOffset c)) := by
  obtain ⟨⟨hbound, hcol⟩, hmax⟩ := isGreatest_byteOffset line c
  have hwidth := utf16Col_le hbound (isBoundary_length line) hbound.le_length
  refine ⟨⟨⟨_, hbound, rfl⟩, by omega⟩, ?_⟩
  rintro k ⟨⟨o, ho, rfl⟩, hk⟩
  have hle : o ≤ line.byteOffset c := hmax ⟨ho, by omega⟩
  exact utf16Col_le ho hbound hle

/-! ## What stands between two columns -/

/-- The characters from column `start` up to column `stop` of the line are those of `name`. -/
def StandsBetween (line : Text) (start stop : Nat) (name : Text) : Prop :=
  ∃ before after : List TextChar, line.chars = before ++ (name.chars ++ after) ∧
    (before.map TextChar.units).sum = start ∧
    ((before ++ name.chars).map TextChar.units).sum = stop

section Between

variable {a name b : Text} (h : chars (a ++ (name ++ b)) = a.chars ++ (name.chars ++ b.chars))

include h

theorem isBoundary_between : (a ++ (name ++ b)).IsBoundary a.length :=
  ⟨a.chars, ⟨_, h.symm⟩, by rw [ofChars_chars]⟩

theorem isBoundary_between_end : (a ++ (name ++ b)).IsBoundary (a.length + name.length) := by
  refine ⟨a.chars ++ name.chars, ⟨b.chars, by rw [h, List.append_assoc]⟩, ?_⟩
  rw [ofChars_append, ofChars_chars, ofChars_chars, List.length_append]

theorem standsBetween_append :
    (a ++ (name ++ b)).StandsBetween ((a ++ (name ++ b)).utf16Col a.length)
      ((a ++ (name ++ b)).utf16Col (a.length + name.length)) name := by
  have hstart : a.chars <+: chars (a ++ (name ++ b)) := ⟨_, h.symm⟩
  have hstop : a.chars ++ name.chars <+: chars (a ++ (name ++ b)) :=
    ⟨b.chars, by rw [h, List.append_assoc]⟩
  have hcol := utf16Col_of_isPrefix hstart
  have hcol' := utf16Col_of_isPrefix hstop
  rw [ofChars_append, ofChars_chars, ofChars_chars, List.length_append] at hcol'
  rw [ofChars_chars] at hcol
  exact ⟨a.chars, b.chars, h, hcol.symm, hcol'.symm⟩

end Between

/-! ## ASCII -/

theorem utf16Col_succ_of_ascii {t : Text} {o : Nat} {b : UInt8} (h : t[o]? = some b)
    (hb : b < 0x80) : t.utf16Col (o + 1) = t.utf16Col o + 1 := by
  obtain ⟨ho, hbyte⟩ := List.getElem?_eq_some_iff.1 h
  have htake : t.take (o + 1) = t.take o ++ [b] := by
    rw [List.take_succ_eq_append_getElem ho, hbyte]
  have hcode : ¬ 0x10000 ≤ b.toNat := by
    have := b.toNat_lt
    omega
  have hunits : (⟨b.toNat, [b]⟩ : TextChar).units = 1 := if_neg hcode
  rw [utf16Col, utf16Col, htake, chars_append _ (Utf8.fresh_cons [] hb), chars_ascii_cons [] hb,
    chars_nil, ← List.sum_eq_foldr, ← List.sum_eq_foldr, List.map_append, List.sum_append,
    List.map_singleton, hunits, List.sum_singleton]

end Text
end RuleLang
