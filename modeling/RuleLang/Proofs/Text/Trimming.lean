import RuleLang.Proofs.Text.LeadingSpace

/-!
# RuleLang.Proofs.Text.Trimming

White space at both ends of a text, and well-formed texts.

* `chars_trim`: trimming drops whole characters, so what is left is decoded as it was within the
  text. Trimming again changes nothing (`trim_trim`).
* `chars_append_of_isUtf8`: a well-formed text is decoded alike whatever follows it. For ill-formed
  ones this fails: the bytes that follow may complete the last sequence.
* `leadingChars_of_append`: a text that does not begin with white space has no beginning that does,
  well formed or not.
-/

namespace RuleLang

theorem Utf8.first_append_of_some {b : UInt8} {s : Text} {x : Nat × Nat} (t : Text)
    (h : decode? b s = some x) : first b (s ++ t) = first b s := by
  have hw : x.2 - 1 ≤ s.length := decode?_width h
  unfold first
  rw [h, decode?_append_of_some t h]
  simp only [List.take_append_of_le_length hw]

namespace Text

theorem ofChars_isPrefix {rs rs' : List TextChar} (h : rs <+: rs') :
    ofChars rs <+: ofChars rs' := by
  obtain ⟨back, rfl⟩ := h
  exact ⟨ofChars back, (ofChars_append rs back).symm⟩

/-! ## Trimming -/

theorem chars_trimRight (t : Text) :
    t.trimRight.chars = t.chars.rdropWhile TextChar.isBlank :=
  chars_ofChars_of_isPrefix (List.rdropWhile_prefix TextChar.isBlank t.chars)

theorem chars_trim (t : Text) : t.trim.chars = t.trimLeft.chars.rdropWhile TextChar.isBlank :=
  chars_trimRight t.trimLeft

theorem chars_trim_isPrefix (t : Text) : t.trim.chars <+: t.trimLeft.chars := by
  rw [chars_trim]
  exact List.rdropWhile_prefix _ _

theorem trim_isPrefix (t : Text) : t.trim <+: t.trimLeft := by
  have h := ofChars_isPrefix (chars_trim_isPrefix t)
  rwa [ofChars_chars, ofChars_chars] at h

theorem trimLeft_of_leadingChars {t : Text} (h : t.leadingChars = []) : t.trimLeft = t := by
  have ht := ofChars_leadingChars_append t
  rwa [h] at ht

theorem leadingChars_of_isPrefix {s t : Text} (h : s.chars <+: t.chars)
    (ht : t.leadingChars = []) : s.leadingChars = [] := by
  unfold leadingChars at ht ⊢
  cases hs : s.chars with
  | nil => rfl
  | cons r rs =>
    obtain ⟨back, hback⟩ := h
    rw [← hback, hs, List.cons_append, List.takeWhile_eq_nil_iff] at ht
    exact List.takeWhile_cons_of_neg (ht (by simp))

theorem trimLeft_trim (t : Text) : t.trim.trimLeft = t.trim :=
  trimLeft_of_leadingChars
    (leadingChars_of_isPrefix (chars_trim_isPrefix t) (leadingChars_trimLeft t))

@[simp] theorem trim_trim (t : Text) : t.trim.trim = t.trim := by
  have hback : t.trim.trimRight.chars = t.trim.chars := by
    rw [chars_trimRight, chars_trim, List.rdropWhile_idempotent]
  rw [trim, trimLeft_trim, ← ofChars_chars t.trim.trimRight, hback, ofChars_chars]

/-! ## Well-formed texts -/

theorem chars_append_of_isUtf8 {s : Text} (t : Text) (h : s.isUtf8 = true) :
    chars (s ++ t) = chars s ++ chars t := by
  generalize hn : s.length = n
  induction n using Nat.strongRecOn generalizing s with
  | ind n ih =>
    cases s with
    | nil => rfl
    | cons b s =>
      simp only [isUtf8, chars_cons, List.all_cons, Bool.and_eq_true] at h
      obtain ⟨hfirst, hrest⟩ := h
      cases hd : Utf8.decode? b s with
      | none => simp [Utf8.first, hd, TextChar.isBad] at hfirst
      | some x =>
        have hlen := Utf8.first_length_le b s
        rw [List.cons_append, chars_cons, chars_cons, Utf8.first_append_of_some t hd,
          List.drop_append_of_le_length hlen, List.cons_append]
        rw [ih _ _ hrest rfl]
        simp only [List.length_drop, ← hn, List.length_cons]
        omega

theorem isUtf8_trim {t : Text} (h : t.isUtf8 = true) : t.trim.isUtf8 = true := by
  rw [isUtf8, List.all_eq_true] at h ⊢
  intro r hr
  apply h
  have hmem := (chars_trim_isPrefix t).subset hr
  rw [chars_trimLeft] at hmem
  exact (List.dropWhile_suffix _).subset hmem

/-! ## Beginnings -/

theorem leadingChars_of_append {s t : Text} (h : (s ++ t).leadingChars = []) :
    s.leadingChars = [] := by
  cases s with
  | nil => rfl
  | cons b s =>
    unfold leadingChars at h ⊢
    rw [chars_cons]
    apply List.takeWhile_cons_of_neg
    intro hblank
    cases hd : Utf8.decode? b s with
    | none =>
      -- an ill-formed byte is no white space
      simp [Utf8.first, hd, TextChar.isBlank, isBlankCode, Utf8.replacement] at hblank
    | some x =>
      rw [List.cons_append, chars_cons, Utf8.first_append_of_some t hd,
        List.takeWhile_cons_of_pos hblank] at h
      cases h

end Text
end RuleLang
