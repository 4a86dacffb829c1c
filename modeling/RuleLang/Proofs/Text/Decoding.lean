import RuleLang.Text.Utf8

/-!
# RuleLang.Proofs.Text.Decoding

What `chars` does with the parts of a text, for any bytes.

* `chars_ofChars_of_suffix`: from a character on, the rest of a text is cut into the same
  characters as within the whole text.
* `chars_ofChars_of_isPrefix`: so is the part of a text that ends with a character.
* `chars_append`: two texts are cut independently of each other when no character can reach from
  the first into the second (`Utf8.Fresh`).
* `chars_ascii_append`: ASCII bytes are characters of their own, whatever follows them.
-/

namespace RuleLang
namespace Utf8

/-- No character reaches into `t` from the left: `t` is empty, or its first byte continues
nothing. -/
def Fresh (t : Text) : Prop := ∀ b ∈ t.head?, isCont b = false

theorem fresh_nil : Fresh [] := by simp [Fresh]

theorem fresh_cons {b : UInt8} (t : Text) (hb : b < 0x80) : Fresh (b :: t) := by
  intro x hx
  obtain rfl : b = x := by simpa using hx
  have : ¬ 0x80 ≤ b := by simpa using hb
  simp [isCont, this]

theorem isSecond_eq_false {b0 b : UInt8} (h : isCont b = false) : isSecond b0 b = false := by
  simp [isSecond, h]

/-- A sequence is well formed by its own bytes only. -/
theorem decode?_append (b : UInt8) (s : Text) {t : Text} (h : Fresh t) :
    decode? b (s ++ t) = decode? b s := by
  cases t with
  | nil => rw [List.append_nil]
  | cons x t =>
    have hx : isCont x = false := h x (by simp)
    unfold decode?
    -- at most three bytes are looked at, so the bytes of `s` and `t` in sight are named
    rcases s with _ | ⟨b1, _ | ⟨b2, _ | ⟨b3, s⟩⟩⟩ <;> rcases t with _ | ⟨y, _ | ⟨z, t⟩⟩ <;>
      simp [hx, isSecond_eq_false]

theorem decode?_width {b : UInt8} {t : Text} {c w : Nat} (h : decode? b t = some (c, w)) :
    w - 1 ≤ t.length := by
  revert h
  fun_cases decode? b t <;> intro h <;> cases h <;> simp

theorem first_append (b : UInt8) (s : Text) {t : Text} (h : Fresh t) :
    first b (s ++ t) = first b s := by
  unfold first
  rw [decode?_append b s h]
  cases hd : decode? b s with
  | none => rfl
  | some p =>
    have hw : p.2 - 1 ≤ s.length := decode?_width hd
    simp only [List.take_append_of_le_length hw]

/-- More bytes after a well-formed sequence do not matter. -/
theorem decode?_append_of_some {b : UInt8} {s : Text} {x : Nat × Nat} (t : Text)
    (h : decode? b s = some x) : decode? b (s ++ t) = some x := by
  revert h
  fun_cases decode? b s <;> intro h <;> cases h <;> simp [decode?, *]

/-- A sequence needs no more than its own bytes. -/
theorem decode?_of_append {b : UInt8} {s t : Text} {c w : Nat}
    (h : decode? b (s ++ t) = some (c, w)) (hw : w - 1 ≤ s.length) :
    decode? b s = some (c, w) := by
  unfold decode? at h ⊢
  rcases s with _ | ⟨b1, _ | ⟨b2, _ | ⟨b3, s⟩⟩⟩ <;>
    rcases t with _ | ⟨x, _ | ⟨y, _ | ⟨z, t⟩⟩⟩ <;> grind

/-- Cutting a text off behind its first character does not change that character. -/
theorem first_of_append {b : UInt8} {s t : Text}
    (h : (first b (s ++ t)).bytes.length - 1 ≤ s.length) : first b s = first b (s ++ t) := by
  unfold first at h ⊢
  cases hd : decode? b (s ++ t) with
  | none =>
    cases hs : decode? b s with
    | none => rfl
    | some x =>
      rw [decode?_append_of_some t hs] at hd
      cases hd
  | some x =>
    obtain ⟨c, w⟩ := x
    have hwidth := decode?_width hd
    have hw : w - 1 ≤ s.length := by
      simp only [hd, List.length_cons, List.length_take, Nat.min_eq_left hwidth] at h
      omega
    rw [decode?_of_append hd hw]
    simp only [List.take_append_of_le_length hw]

theorem first_bytes_eq_cons (b : UInt8) (t : Text) :
    (first b t).bytes = b :: t.take ((first b t).bytes.length - 1) := by
  unfold first
  cases hd : decode? b t with
  | none => rfl
  | some x =>
    have hwidth : x.2 - 1 ≤ t.length := decode?_width hd
    simp only [List.length_cons, List.length_take, Nat.add_sub_cancel, Nat.min_eq_left hwidth]

theorem first_length_le (b : UInt8) (t : Text) : (first b t).bytes.length - 1 ≤ t.length := by
  have h := congrArg List.length (first_bytes b t)
  simp only [List.length_append, List.length_drop, List.length_cons] at h
  omega

theorem first_ascii {b : UInt8} (t : Text) (hb : b < 0x80) : first b t = ⟨b.toNat, [b]⟩ := by
  simp [first, decode?, hb]

end Utf8

namespace Text

/-- Skipping bytes before cutting is cutting what is left. -/
theorem charsFrom_eq_chars_drop (skip : Nat) (t : Text) :
    charsFrom skip t = chars (t.drop skip) := by
  induction t generalizing skip with
  | nil => cases skip <;> rfl
  | cons b t ih =>
    cases skip with
    | zero => rfl
    | succ skip => simpa [charsFrom] using ih skip

@[simp] theorem chars_nil : chars [] = [] := rfl

theorem chars_cons (b : UInt8) (t : Text) :
    chars (b :: t) =
      Utf8.first b t :: chars (t.drop ((Utf8.first b t).bytes.length - 1)) := by
  rw [chars, charsFrom, charsFrom_eq_chars_drop]

theorem chars_ascii_cons {b : UInt8} (t : Text) (hb : b < 0x80) :
    chars (b :: t) = ⟨b.toNat, [b]⟩ :: chars t := by
  simp [chars_cons, Utf8.first_ascii t hb]

@[simp] theorem ofChars_nil : ofChars [] = [] := rfl

@[simp] theorem ofChars_append (rs rs' : List TextChar) :
    ofChars (rs ++ rs') = ofChars rs ++ ofChars rs' := by
  simp [ofChars]

/-- What follows the first character is cut as it is within the whole text. -/
theorem chars_ofChars_of_cons {t : Text} {r : TextChar} {rs : List TextChar}
    (h : chars t = r :: rs) : chars (ofChars rs) = rs := by
  cases t with
  | nil => simp at h
  | cons b t =>
    rw [chars_cons] at h
    obtain ⟨-, rfl⟩ := List.cons.inj h
    rw [ofChars_chars]

theorem chars_ofChars_of_suffix {t : Text} {rs : List TextChar} (h : rs <:+ chars t) :
    chars (ofChars rs) = rs := by
  obtain ⟨front, hf⟩ := h
  induction front generalizing t with
  | nil => rw [← List.nil_append rs, hf, ofChars_chars]
  | cons r front ih =>
    have htail := chars_ofChars_of_cons hf.symm
    exact ih htail.symm

/-- A text that is cut off behind a character keeps the characters before. -/
theorem chars_ofChars_of_isPrefix {t : Text} {rs : List TextChar} (h : rs <+: chars t) :
    chars (ofChars rs) = rs := by
  induction rs generalizing t with
  | nil => rfl
  | cons r rs ih =>
    cases t with
    | nil => simp at h
    | cons b t =>
      rw [chars_cons, List.cons_prefix_cons] at h
      obtain ⟨rfl, h⟩ := h
      have hrest := ih h
      obtain ⟨back, hback⟩ := h
      -- `t` is what the first character takes of it, the other characters of `rs`, and the rest
      let k := (Utf8.first b t).bytes.length - 1
      have ht : t = (t.take k ++ ofChars rs) ++ ofChars back := by
        rw [List.append_assoc, ← ofChars_append, hback, ofChars_chars, List.take_append_drop]
      have hlen : (t.take k).length = k := by
        rw [List.length_take]
        exact Nat.min_eq_left (Utf8.first_length_le b t)
      have hfirst : Utf8.first b (t.take k ++ ofChars rs) = Utf8.first b t := by
        have h := Utf8.first_of_append (b := b) (s := t.take k ++ ofChars rs) (t := ofChars back)
        rw [← ht, List.length_append, hlen] at h
        exact h (Nat.le_add_right k _)
      have hbytes : ofChars (Utf8.first b t :: rs) = b :: (t.take k ++ ofChars rs) := by
        rw [ofChars, List.flatMap_cons, Utf8.first_bytes_eq_cons, ← ofChars, List.cons_append]
      rw [hbytes, chars_cons, hfirst, List.drop_left' hlen, hrest]

/-- Cutting does not look across a place where no sequence can go on. -/
theorem chars_append (s : Text) {t : Text} (h : Utf8.Fresh t) :
    chars (s ++ t) = chars s ++ chars t := by
  generalize hn : s.length = n
  induction n using Nat.strongRecOn generalizing s with
  | ind n ih =>
    cases s with
    | nil => rfl
    | cons b s =>
      have hlen := Utf8.first_length_le b s
      rw [List.cons_append, chars_cons, chars_cons, Utf8.first_append b s h,
        List.drop_append_of_le_length hlen]
      rw [ih (s.drop ((Utf8.first b s).bytes.length - 1)).length _ _ rfl, List.cons_append]
      simp only [List.length_drop, ← hn, List.length_cons]
      omega

theorem chars_ascii {s : Text} (h : ∀ b ∈ s, b < 0x80) :
    chars s = s.map fun b => ⟨b.toNat, [b]⟩ := by
  induction s with
  | nil => rfl
  | cons b s ih =>
    rw [chars_ascii_cons s (h b (by simp)), ih fun x hx => h x (by simp [hx]), List.map_cons]

theorem chars_ascii_append {s : Text} (t : Text) (h : ∀ b ∈ s, b < 0x80) :
    chars (s ++ t) = chars s ++ chars t := by
  induction s with
  | nil => rfl
  | cons b s ih =>
    have hb : b < 0x80 := h b (by simp)
    rw [List.cons_append, chars_ascii_cons _ hb, chars_ascii_cons s hb,
      ih fun x hx => h x (by simp [hx]), List.cons_append]

end Text
end RuleLang
