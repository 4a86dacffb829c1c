import Mathlib.Order.Monotone.Defs
import RuleLang.Proofs.Text.Cursor
import RuleLang.Proofs.Text.Encoding

/-!
# RuleLang.Proofs.Text.ColumnInverse

UTF-16 columns and byte offsets name the same places of a line.

A column counts the units of the characters before it. Surrogates and numbers above U+10FFFF have no
units of their own (`Utf16.length?`), but no character of a text is one of these, whatever the bytes
are: well-formed sequences stand for scalar values (`Utf8.isValidChar_of_decode?`), and so does the
replacement for ill-formed ones. So `TextChar.units` is right for every character
(`Text.length?_of_mem_chars`).

`Text.utf16Col_byteOffset_inverse` is the whole: between the offsets at which characters meet and
their columns, `utf16Col` and `byteOffset` undo each other, and any other column is rounded down.
-/

namespace RuleLang

/-- The number of UTF-16 code units of a code point, if it has any. -/
def Utf16.length? (code : Nat) : Option Nat :=
  if code < 0xD800 then some 1
  else if code < 0xE000 then none
  else if code < 0x10000 then some 1
  else if code < 0x110000 then some 2
  else none

theorem Utf16.length?_of_isValidChar {r : TextChar} (h : r.code.isValidChar) :
    length? r.code = some r.units := by
  unfold Nat.isValidChar at h
  unfold length? TextChar.units
  by_cases hlow : r.code < 0xD800
  · rw [if_pos hlow, if_neg (by omega)]
  · rw [if_neg hlow, if_neg (by omega)]
    by_cases hplane : r.code < 0x10000
    · rw [if_pos hplane, if_neg (by omega)]
    · rw [if_neg hplane, if_pos (by omega), if_pos (by omega)]

/-! ## Decoded characters -/

namespace Utf8

theorem payload_eq {b : UInt8} (h : isCont b = true) : payload b + 0x80 = b.toNat := by
  rw [isCont_iff] at h
  rw [payload]
  omega

theorem payload_lt (b : UInt8) : payload b < 64 := Nat.mod_lt _ (by decide)

/-- The second byte keeps a sequence out of the surrogates and below U+110000. -/
theorem isValidChar_of_decode? {b : UInt8} {t : Text} {x : Nat × Nat} (h : decode? b t = some x) :
    x.1.isValidChar := by
  revert h
  unfold Nat.isValidChar
  fun_cases decode? b t <;> intro h <;> cases h <;> dsimp only
  · have hbyte := b.toNat_lt
    omega
  · rename_i b1 _ _
    have hlow := payload_lt b1
    omega
  · rename_i _ _ hlow hhigh b1 b2 _ hcont
    obtain ⟨hsecond, -⟩ := Bool.and_eq_true_iff.1 hcont
    obtain ⟨hcont1, -, hsurrogate, -, -⟩ := isSecond_iff.1 hsecond
    have hb1 := payload_eq hcont1
    have hlow1 := payload_lt b1
    have hlow2 := payload_lt b2
    simp only [UInt8.lt_iff_toNat_lt, UInt8.reduceToNat] at hlow hhigh
    omega
  · rename_i _ _ _ hlow hhigh b1 b2 b3 _ hcont
    obtain ⟨hsecond, -⟩ := Bool.and_eq_true_iff.1 (Bool.and_eq_true_iff.1 hcont).1
    obtain ⟨hcont1, -, -, hplane, htop⟩ := isSecond_iff.1 hsecond
    have hb1 := payload_eq hcont1
    have hlow1 := payload_lt b1
    have hlow2 := payload_lt b2
    have hlow3 := payload_lt b3
    simp only [UInt8.lt_iff_toNat_lt, UInt8.reduceToNat] at hlow hhigh
    omega

theorem isValidChar_first (b : UInt8) (t : Text) : (first b t).code.isValidChar := by
  unfold first
  cases hd : decode? b t with
  | none =>
    show replacement.isValidChar
    exact .inr (by decide)
  | some x => exact isValidChar_of_decode? hd

end Utf8

namespace Text

theorem length?_of_mem_chars {t : Text} {r : TextChar} (h : r ∈ t.chars) :
    Utf16.length? r.code = some r.units := by
  apply Utf16.length?_of_isValidChar
  obtain ⟨front, back, hchars⟩ := List.append_of_mem h
  -- `r` is the first character of what is left of the text there
  have hrest : chars (ofChars (r :: back)) = r :: back :=
    chars_ofChars_of_suffix ⟨front, hchars.symm⟩
  cases hbytes : ofChars (r :: back) with
  | nil => simp [hbytes] at hrest
  | cons b t =>
    rw [hbytes, chars_cons] at hrest
    rw [← (List.cons.inj hrest).1]
    exact Utf8.isValidChar_first b t

/-! ## Boundaries -/

/-- Boundaries are the offsets at which a character begins, and the end of the text. -/
theorem isBoundary_iff (t : Text) (o : Nat) :
    t.IsBoundary o ↔ o = t.length ∨
      ∃ front r back, t.chars = front ++ r :: back ∧ o = (ofChars front).length := by
  constructor
  · rintro ⟨front, ⟨back, hchars⟩, rfl⟩
    cases back with
    | nil =>
      rw [List.append_nil] at hchars
      exact .inl (by rw [hchars, ofChars_chars])
    | cons r back => exact .inr ⟨front, r, back, hchars.symm, rfl⟩
  · rintro (rfl | ⟨front, r, back, hchars, rfl⟩)
    · exact isBoundary_length t
    · exact ⟨front, ⟨r :: back, hchars.symm⟩, rfl⟩

theorem isGreatest_byteOffset_natCast (t : Text) (c : Nat) :
    IsGreatest {b | t.IsBoundary b ∧ t.utf16Col b ≤ c} (t.byteOffset c) := by
  have h := isGreatest_byteOffset t c
  rwa [Int.toNat_natCast] at h

/-- A column at a character, or inside it, gives the offset at which the character begins. -/
theorem byteOffset_within {t : Text} {front back : List TextChar} {r : TextChar}
    (h : t.chars = front ++ r :: back) {c : Nat}
    (hlow : t.utf16Col (ofChars front).length ≤ c)
    (hhigh : c < t.utf16Col (ofChars front).length + r.units) :
    t.byteOffset c = (ofChars front).length := by
  have hfront : front <+: t.chars := ⟨r :: back, h.symm⟩
  have hnext : front ++ [r] <+: t.chars := ⟨back, by rw [h, List.append_assoc]; rfl⟩
  rw [utf16Col_of_isPrefix hfront] at hlow hhigh
  refine (isGreatest_byteOffset_natCast t c).unique
    ⟨⟨⟨front, hfront, rfl⟩, by rwa [utf16Col_of_isPrefix hfront]⟩, ?_⟩
  rintro o ⟨⟨rs, hrs, rfl⟩, hcol⟩
  rw [utf16Col_of_isPrefix hrs] at hcol
  have hunits : ((front ++ [r]).map TextChar.units).sum =
      (front.map TextChar.units).sum + r.units := by
    rw [List.map_append, List.sum_append, List.map_singleton, List.sum_singleton]
  -- characters that reach behind `r` need more units than there are before column `c`
  have hshort : rs <+: front := by
    rcases List.prefix_or_prefix_of_prefix hrs hnext with hle | ⟨more, hmore⟩
    · rcases List.prefix_concat_iff.1 hle with rfl | hle
      · omega
      · exact hle
    · rw [← hmore, List.map_append, List.sum_append] at hcol
      omega
  obtain ⟨more, rfl⟩ := hshort
  rw [ofChars_append, List.length_append]
  omega

/-- A column behind the last character gives the end of the line. -/
theorem byteOffset_of_utf16Col_length_le {t : Text} {c : Nat} (h : t.utf16Col t.length ≤ c) :
    t.byteOffset c = t.length :=
  (isGreatest_byteOffset_natCast t c).unique
    ⟨⟨isBoundary_length t, h⟩, fun _ ho => ho.1.le_length⟩

/-- **Columns and offsets are inverse at the boundaries of characters.** Every character of a line,
an ill-formed byte included, has one or two UTF-16 units, and the boundaries are the offsets at which
characters begin and the end of the line. From one boundary to the next the column grows. The offset
of the column of a boundary is that boundary. The offset of any column is the last boundary whose
column is not behind it, so that a column inside a surrogate pair gives the beginning of the
character and a column past the end gives the length. -/
theorem utf16Col_byteOffset_inverse (line : Text) :
    (∀ r ∈ line.chars, Utf16.length? r.code = some r.units) ∧
    (∀ b, line.IsBoundary b ↔ b = line.length ∨
      ∃ front r back, line.chars = front ++ r :: back ∧ b = (ofChars front).length) ∧
    StrictMonoOn line.utf16Col {b | line.IsBoundary b} ∧
    (∀ b, line.IsBoundary b → line.byteOffset (line.utf16Col b) = b) ∧
    (∀ c : Nat, IsGreatest {b | line.IsBoundary b ∧ line.utf16Col b ≤ c} (line.byteOffset c)) ∧
    (∀ front r back, line.chars = front ++ r :: back →
      ∀ c : Nat, line.utf16Col (ofChars front).length ≤ c →
        c < line.utf16Col (ofChars front).length + r.units →
        line.byteOffset c = (ofChars front).length) ∧
    (∀ c : Nat, line.utf16Col line.length ≤ c → line.byteOffset c = line.length) := by
  refine ⟨fun r hr => length?_of_mem_chars hr, isBoundary_iff line, ?_, ?_,
    isGreatest_byteOffset_natCast line, ?_, ?_⟩
  · intro b hb b' hb' hlt
    exact utf16Col_lt hb hb' hlt
  · intro b hb
    exact byteOffset_utf16Col hb
  · intro front r back hchars c hlow hhigh
    exact byteOffset_within hchars hlow hhigh
  · intro c hc
    exact byteOffset_of_utf16Col_length_le hc

/-- A letter, a character outside the first plane, an ill-formed byte and the beginning of a sequence
that the line cuts off. -/
theorem utf16Col_byteOffset_inverse_broken_line :
    let line : Text := [0x61, 0xF0, 0x9F, 0x98, 0x80, 0xFF, 0xE2, 0x82]
    line.IsBoundary 5 ∧ line.utf16Col 5 = 3 ∧ line.byteOffset 3 = 5 ∧ line.byteOffset 2 = 1 ∧
      line.byteOffset 100 = 8 := by
  intro line
  obtain ⟨-, -, -, hinverse, -, hwithin, hend⟩ := utf16Col_byteOffset_inverse line
  have hbound : line.IsBoundary 5 := ⟨line.chars.take 2, List.take_prefix _ _, by decide⟩
  have hcol : line.utf16Col 5 = 3 := by decide
  have hinside : line.byteOffset (2 : Nat) = 1 :=
    hwithin (line.chars.take 1) ⟨0x1F600, [0xF0, 0x9F, 0x98, 0x80]⟩ (line.chars.drop 2) (by decide) 2
      (by decide) (by decide)
  have hback := hinverse 5 hbound
  rw [hcol] at hback
  exact ⟨hbound, hcol, hback, hinside, hend 100 (by decide)⟩

end Text
end RuleLang
