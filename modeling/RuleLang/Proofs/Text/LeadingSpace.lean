import Mathlib.Data.List.DropRight
import RuleLang.Text.Blank
import RuleLang.Text.Columns
import RuleLang.Proofs.Text.Decoding

/-!
# RuleLang.Proofs.Text.LeadingSpace

A text is its leading white space followed by `trimLeft`, and the two parts are decoded
independently of each other (`chars_eq_leadingChars_append`). From this follow

* what new padding in front of a trimmed text does: the trimmed text stays, and the padding is all
  the leading white space there is (`trimLeft_padding_append`, `leadingChars_padding_append`);
* where the leading white space ends. Characters and UTF-16 units count it alike, because no white
  space needs a surrogate pair, so `charOffset` and `byteOffset` find the same byte, also when
  something follows the line that cannot change its decoding (`byteOffset_append_eq_charOffset`).
-/

namespace RuleLang

theorem TextChar.units_of_isBlank {r : TextChar} (h : r.isBlank = true) : r.units = 1 := by
  have hc : r.code < 0x10000 := by
    simp only [TextChar.isBlank, isBlankCode, Bool.or_eq_true, Bool.and_eq_true,
      decide_eq_true_eq] at h
    omega
  rw [TextChar.units, if_neg (by omega)]

namespace Text

theorem ofChars_leadingChars_append (t : Text) : ofChars t.leadingChars ++ t.trimLeft = t := by
  rw [leadingChars, trimLeft, ← ofChars_append, List.takeWhile_append_dropWhile, ofChars_chars]

theorem length_ofChars_leadingChars (t : Text) :
    (ofChars t.leadingChars).length = t.length - t.trimLeft.length := by
  have hlen := congrArg List.length (ofChars_leadingChars_append t)
  rw [List.length_append] at hlen
  omega

theorem chars_trimLeft (t : Text) :
    t.trimLeft.chars = t.chars.dropWhile TextChar.isBlank :=
  chars_ofChars_of_suffix (List.dropWhile_suffix _)

theorem chars_eq_leadingChars_append (t : Text) :
    t.chars = t.leadingChars ++ t.trimLeft.chars := by
  rw [chars_trimLeft, leadingChars, List.takeWhile_append_dropWhile]

theorem isBlank_of_mem_leadingChars {t : Text} {r : TextChar} (h : r ∈ t.leadingChars) :
    r.isBlank = true :=
  List.mem_takeWhile_imp h

@[simp] theorem trimLeft_trimLeft (t : Text) : t.trimLeft.trimLeft = t.trimLeft := by
  rw [trimLeft, chars_trimLeft, List.dropWhile_idempotent, ← trimLeft]

@[simp] theorem leadingChars_trimLeft (t : Text) : t.trimLeft.leadingChars = [] := by
  have h := chars_eq_leadingChars_append t.trimLeft
  rw [trimLeft_trimLeft] at h
  simpa using h

/-- The characters of a text that are no white space. -/
def ink (t : Text) : List TextChar := t.chars.filter fun r => !r.isBlank

@[simp] theorem ink_trimLeft (t : Text) : t.trimLeft.ink = t.ink := by
  have hlead : t.leadingChars.filter (fun r => !r.isBlank) = [] := by
    rw [List.filter_eq_nil_iff]
    intro r hr
    simp [isBlank_of_mem_leadingChars hr]
  rw [ink, ink, chars_eq_leadingChars_append t, List.filter_append, hlead, List.nil_append]

theorem trimLeft_eq_nil_iff (t : Text) : t.trimLeft = [] ↔ t.ink = [] := by
  constructor
  · intro h
    rw [← ink_trimLeft, h]
    rfl
  · intro h
    have hblank : t.chars.dropWhile TextChar.isBlank = [] := by
      rw [List.dropWhile_eq_nil_iff]
      intro r hr
      simpa using List.filter_eq_nil_iff.1 h r hr
    rw [trimLeft, hblank]
    rfl

/-! ## Padding -/

/-- Nothing but spaces and tabs. -/
def IsPadding (p : Text) : Prop := ∀ b ∈ p, b = 32 ∨ b = 9

namespace IsPadding

theorem ascii {p : Text} (h : IsPadding p) : ∀ b ∈ p, b < 0x80 := by
  intro b hb
  rcases h b hb with rfl | rfl <;> decide

theorem not_mem {p : Text} (h : IsPadding p) {b : UInt8} (hs : b ≠ 32) (ht : b ≠ 9) : b ∉ p := by
  intro hb
  rcases h b hb with rfl | rfl
  · exact hs rfl
  · exact ht rfl

theorem isBlank {p : Text} (h : IsPadding p) : ∀ r ∈ p.chars, r.isBlank = true := by
  intro r hr
  rw [chars_ascii h.ascii] at hr
  obtain ⟨b, hb, rfl⟩ := List.mem_map.1 hr
  rcases h b hb with rfl | rfl <;> decide

end IsPadding

theorem trimLeft_padding_append {p : Text} (t : Text) (h : IsPadding p) :
    (p ++ t).trimLeft = t.trimLeft := by
  rw [trimLeft, chars_ascii_append t h.ascii, List.dropWhile_append_of_pos h.isBlank, ← trimLeft]

theorem leadingChars_padding_append {p : Text} (t : Text) (h : IsPadding p) :
    (p ++ t).leadingChars = p.chars ++ t.leadingChars := by
  rw [leadingChars, chars_ascii_append t h.ascii, List.takeWhile_append_of_pos h.isBlank,
    ← leadingChars]

/-- In front of a trimmed text, every byte of the padding is one leading character. -/
theorem length_leadingChars_padding {p : Text} (t : Text) (h : IsPadding p) :
    (p ++ t.trimLeft).leadingChars.length = p.length := by
  rw [leadingChars_padding_append _ h, leadingChars_trimLeft, List.append_nil,
    chars_ascii h.ascii, List.length_map]

/-! ## The end of the leading white space -/

theorem charOffset_zero (t : Text) : t.charOffset 0 = 0 := rfl

theorem take_chars_eq_leadingChars (t : Text) :
    t.chars.take t.leadingChars.length = t.leadingChars := by
  rw [chars_eq_leadingChars_append t, List.take_left]

theorem charOffset_leading (t : Text) :
    t.charOffset t.leadingChars.length = (ofChars t.leadingChars).length := by
  rw [charOffset, Int.toNat_natCast, take_chars_eq_leadingChars]

theorem drop_charOffset_leading (t : Text) :
    t.drop (t.charOffset t.leadingChars.length) = t.trimLeft := by
  have h : (ofChars t.leadingChars ++ t.trimLeft).drop (ofChars t.leadingChars).length
      = t.trimLeft := List.drop_left
  rwa [ofChars_leadingChars_append, ← charOffset_leading] at h

theorem bytesWithin_of_units {rs : List TextChar} {n : Nat}
    (h : ∀ r ∈ rs.take n, r.units = 1) : bytesWithin n rs = (ofChars (rs.take n)).length := by
  induction rs generalizing n with
  | nil => simp [bytesWithin]
  | cons r rs ih =>
    cases n with
    | zero =>
      have hr : ¬ r.units ≤ 0 := by
        unfold TextChar.units
        split <;> omega
      simp [bytesWithin, hr]
    | succ n =>
      have hr : r.units = 1 := h r (by simp)
      have hrs := ih (n := n) fun r' hr' => h r' (by simp [hr'])
      simp [bytesWithin, hr, hrs, ofChars]

/-- The characters before a column, within the leading white space, are white space. -/
theorem take_chars_of_le_leading {t : Text} {n : Nat} (hn : n ≤ t.leadingChars.length) :
    t.chars.take n = t.leadingChars.take n := by
  rw [chars_eq_leadingChars_append t, List.take_append_of_le_length hn]

theorem units_of_mem_take_leading {t : Text} {n : Nat} {r : TextChar}
    (h : r ∈ t.leadingChars.take n) : r.units = 1 :=
  TextChar.units_of_isBlank (isBlank_of_mem_leadingChars (List.mem_of_mem_take h))

/-- Up to the end of the leading white space of `t`, a column of characters and a column of UTF-16
units name the same byte, and what follows `t` does not matter. -/
theorem byteOffset_append_eq_charOffset (t : Text) {s : Text} (hs : Utf8.Fresh s) {n : Nat}
    (hn : n ≤ t.leadingChars.length) : (t ++ s).byteOffset n = t.charOffset n := by
  have hlen : n ≤ t.chars.length := by
    rw [chars_eq_leadingChars_append t, List.length_append]
    omega
  have htake : (t ++ s).chars.take n = t.leadingChars.take n := by
    rw [chars_append t hs, List.take_append_of_le_length hlen, take_chars_of_le_leading hn]
  rw [byteOffset, charOffset, Int.toNat_natCast, take_chars_of_le_leading hn,
    bytesWithin_of_units, htake]
  intro r hr
  rw [htake] at hr
  exact units_of_mem_take_leading hr

/-- At that byte stands the same UTF-16 column again. -/
theorem utf16Col_append_charOffset (t s : Text) {n : Nat} (hn : n ≤ t.leadingChars.length) :
    (t ++ s).utf16Col (t.charOffset n) = n := by
  have hcut : (t ++ s).take (t.charOffset n) = ofChars (t.chars.take n) := by
    have ht : ofChars (t.chars.take n) ++ (ofChars (t.chars.drop n) ++ s) = t ++ s := by
      rw [← List.append_assoc, ← ofChars_append, List.take_append_drop, ofChars_chars]
    rw [← ht, charOffset, Int.toNat_natCast, List.take_left]
  have hunits : (t.leadingChars.take n).map TextChar.units = List.replicate n 1 := by
    rw [List.eq_replicate_iff]
    refine ⟨by rw [List.length_map, List.length_take, Nat.min_eq_left hn], ?_⟩
    intro u hu
    obtain ⟨r, hr, rfl⟩ := List.mem_map.1 hu
    exact units_of_mem_take_leading hr
  rw [utf16Col, hcut, chars_ofChars_of_isPrefix (List.take_prefix _ _),
    take_chars_of_le_leading hn, hunits, ← List.sum_eq_foldr, List.sum_replicate_nat, Nat.mul_one]

/-- The UTF-16 column at which the leading white space ends. -/
theorem utf16Col_leading (t : Text) :
    t.utf16Col (t.length - t.trimLeft.length) = t.leadingChars.length := by
  have hlen := congrArg List.length (ofChars_leadingChars_append t)
  rw [List.length_append, ← charOffset_leading] at hlen
  have hcol := utf16Col_append_charOffset t [] (Nat.le_refl t.leadingChars.length)
  rw [List.append_nil] at hcol
  rw [← hlen, Nat.add_sub_cancel, hcol]

end Text
end RuleLang
