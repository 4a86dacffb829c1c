import RuleLang.Proofs.Text.Decoding

/-!
# RuleLang.Proofs.Text.Encoding

Characters that are written as UTF-8 are read back.

The bytes of a code point that is a character are those that Lean gives for it
(`Utf8.encode_toNat`), and in front of anything they are cut off as that character
(`Text.chars_utf8EncodeChar_append`). So a text that is written character by character is cut into
these characters (`Text.chars_flatMap`), no two rows of characters are the same text
(`Text.flatMap_utf8EncodeChar_inj`), and there is nothing to mend in it (`Text.scrub_flatMap`).
-/

namespace RuleLang

namespace Utf8

theorem char_range (c : Char) : c.toNat < 0xD800 ∨ (0xE000 ≤ c.toNat ∧ c.toNat < 0x110000) := by
  have hvalid := c.valid
  simp only [UInt32.isValidChar, Nat.isValidChar] at hvalid
  have htoNat : c.toNat = c.val.toNat := rfl
  omega

theorem encode_toNat (c : Char) : encode c.toNat = String.utf8EncodeChar c := by
  have hrange := char_range c
  unfold encode String.utf8EncodeChar
  have htoNat : c.val.toNat = c.toNat := rfl
  rw [htoNat]
  generalize c.toNat = v at hrange
  simp only [Bool.or_eq_true, Bool.and_eq_true, decide_eq_true_eq]
  by_cases h1 : v < 0x80
  · have h1' : v ≤ 127 := by omega
    rw [if_pos h1, if_pos h1']
  · have h1' : ¬ v ≤ 127 := by omega
    rw [if_neg h1, if_neg h1']
    by_cases h2 : v < 0x800
    · have h2' : v ≤ 2047 := by omega
      have hlead : 0xC0 + v / 64 = v / 64 % 32 + 192 := by omega
      rw [if_pos h2, if_pos h2', hlead, Nat.add_comm 0x80]
    · have h2' : ¬ v ≤ 2047 := by omega
      have hscalar : ¬ ((0xD800 ≤ v ∧ v < 0xE000) ∨ 0x110000 ≤ v) := by omega
      rw [if_neg h2, if_neg h2', if_neg hscalar]
      by_cases h3 : v < 0x10000
      · have h3' : v ≤ 65535 := by omega
        have hlead : 0xE0 + v / 4096 = v / 4096 % 16 + 224 := by omega
        rw [if_pos h3, if_pos h3', hlead, Nat.add_comm 0x80, Nat.add_comm 0x80]
      · have h3' : ¬ v ≤ 65535 := by omega
        have hlead : 0xF0 + v / 262144 = v / 262144 % 8 + 240 := by omega
        rw [if_neg h3, if_neg h3', hlead, Nat.add_comm 0x80, Nat.add_comm 0x80,
          Nat.add_comm 0x80]

/-! ## Decoding by the number of bytes -/

section

variable {b0 b1 b2 b3 : UInt8} (t : Text)

theorem isCont_iff {b : UInt8} : isCont b = true ↔ 0x80 ≤ b.toNat ∧ b.toNat ≤ 0xBF := by
  simp [isCont, UInt8.le_iff_toNat_le]

theorem decode?_two (h0 : 0xC2 ≤ b0.toNat ∧ b0.toNat < 0xE0) (h1 : isCont b1 = true) :
    decode? b0 (b1 :: t) = some (b0.toNat % 32 * 64 + payload b1, 2) := by
  unfold decode?
  simp only [UInt8.lt_iff_toNat_lt, UInt8.reduceToNat]
  rw [if_neg (by omega), if_neg (by omega), if_pos h0.2, if_pos h1]

theorem decode?_three (h0 : 0xE0 ≤ b0.toNat ∧ b0.toNat < 0xF0) (h1 : isSecond b0 b1 = true)
    (h2 : isCont b2 = true) :
    decode? b0 (b1 :: b2 :: t) =
      some ((b0.toNat % 16 * 64 + payload b1) * 64 + payload b2, 3) := by
  unfold decode?
  simp only [UInt8.lt_iff_toNat_lt, UInt8.reduceToNat]
  rw [if_neg (by omega), if_neg (by omega), if_neg (by omega), if_pos h0.2, h1, h2]
  rfl

theorem decode?_four (h0 : 0xF0 ≤ b0.toNat ∧ b0.toNat < 0xF5) (h1 : isSecond b0 b1 = true)
    (h2 : isCont b2 = true) (h3 : isCont b3 = true) :
    decode? b0 (b1 :: b2 :: b3 :: t) =
      some (((b0.toNat % 8 * 64 + payload b1) * 64 + payload b2) * 64 + payload b3, 4) := by
  unfold decode?
  simp only [UInt8.lt_iff_toNat_lt, UInt8.reduceToNat]
  rw [if_neg (by omega), if_neg (by omega), if_neg (by omega), if_neg (by omega), if_pos h0.2,
    h1, h2, h3]
  rfl

end

theorem toNat_ofNat_of_lt {n : Nat} (h : n < 256) : (UInt8.ofNat n).toNat = n := by
  rw [UInt8.toNat_ofNat']
  omega

theorem isCont_ofNat (v : Nat) : isCont (UInt8.ofNat (v % 64 + 128)) = true := by
  rw [isCont_iff, toNat_ofNat_of_lt (by omega)]
  omega

theorem payload_ofNat (v : Nat) : payload (UInt8.ofNat (v % 64 + 128)) = v % 64 := by
  rw [payload, toNat_ofNat_of_lt (by omega)]
  omega

theorem isSecond_iff {b0 b1 : UInt8} : isSecond b0 b1 = true ↔ isCont b1 = true ∧
    (b0.toNat = 0xE0 → 0xA0 ≤ b1.toNat) ∧ (b0.toNat = 0xED → b1.toNat ≤ 0x9F) ∧
    (b0.toNat = 0xF0 → 0x90 ≤ b1.toNat) ∧ (b0.toNat = 0xF4 → b1.toNat ≤ 0x8F) := by
  simp only [isSecond, Bool.and_eq_true, ← UInt8.toNat_inj, UInt8.reduceToNat]
  refine and_congr_right fun _ => ?_
  split
  · simp only [decide_eq_true_eq, UInt8.le_iff_toNat_le, UInt8.reduceToNat]
    omega
  · split
    · simp only [decide_eq_true_eq, UInt8.le_iff_toNat_le, UInt8.reduceToNat]
      omega
    · split
      · simp only [decide_eq_true_eq, UInt8.le_iff_toNat_le, UInt8.reduceToNat]
        omega
      · split
        · simp only [decide_eq_true_eq, UInt8.le_iff_toNat_le, UInt8.reduceToNat]
          omega
        · simp only [true_iff]
          omega

/-- The bytes of a character are decoded as it, whatever follows. -/
theorem first_utf8EncodeChar (c : Char) (t : Text) :
    ∃ b s, String.utf8EncodeChar c = b :: s ∧
      first b (s ++ t) = ⟨c.toNat, String.utf8EncodeChar c⟩ := by
  have hrange := char_range c
  unfold String.utf8EncodeChar
  have htoNat : c.val.toNat = c.toNat := rfl
  rw [htoNat]
  generalize c.toNat = v at hrange
  dsimp only
  by_cases h1 : v ≤ 127
  · rw [if_pos h1]
    refine ⟨_, [], rfl, ?_⟩
    rw [List.nil_append, first_ascii]
    · rw [toNat_ofNat_of_lt (by omega)]
    · rw [UInt8.lt_iff_toNat_lt, toNat_ofNat_of_lt (by omega)]
      exact Nat.lt_succ_of_le h1
  · rw [if_neg h1]
    by_cases h2 : v ≤ 2047
    · rw [if_pos h2]
      refine ⟨_, [_], rfl, ?_⟩
      have hlead := toNat_ofNat_of_lt (n := v / 64 % 32 + 192) (by omega)
      have hrange0 : 0xC2 ≤ (UInt8.ofNat (v / 64 % 32 + 192)).toNat ∧
          (UInt8.ofNat (v / 64 % 32 + 192)).toNat < 0xE0 := by
        rw [hlead]
        omega
      have hdecode := decode?_two t hrange0 (isCont_ofNat v)
      rw [hlead, payload_ofNat] at hdecode
      rw [List.singleton_append, first, hdecode]
      have hcode : (v / 64 % 32 + 192) % 32 * 64 + v % 64 = v := by omega
      simp only [hcode, List.take_succ_cons, List.take_zero, Nat.reduceSub]
    · rw [if_neg h2]
      by_cases h3 : v ≤ 65535
      · rw [if_pos h3]
        refine ⟨_, [_, _], rfl, ?_⟩
        have hlead := toNat_ofNat_of_lt (n := v / 4096 % 16 + 224) (by omega)
        have hsecond : isSecond (UInt8.ofNat (v / 4096 % 16 + 224))
            (UInt8.ofNat (v / 64 % 64 + 128)) = true := by
          rw [isSecond_iff, hlead, toNat_ofNat_of_lt (by omega)]
          exact ⟨isCont_ofNat _, by omega, by omega, by omega, by omega⟩
        have hdecode := decode?_three t (by rw [hlead]; omega) hsecond (isCont_ofNat v)
        rw [hlead, payload_ofNat, payload_ofNat] at hdecode
        rw [List.cons_append, List.singleton_append, first, hdecode]
        have hcode : ((v / 4096 % 16 + 224) % 16 * 64 + v / 64 % 64) * 64 + v % 64 = v := by omega
        simp only [hcode, List.take_succ_cons, List.take_zero, Nat.reduceSub]
      · rw [if_neg h3]
        refine ⟨_, [_, _, _], rfl, ?_⟩
        have hlead := toNat_ofNat_of_lt (n := v / 262144 % 8 + 240) (by omega)
        have hsecond : isSecond (UInt8.ofNat (v / 262144 % 8 + 240))
            (UInt8.ofNat (v / 4096 % 64 + 128)) = true := by
          rw [isSecond_iff, hlead, toNat_ofNat_of_lt (by omega)]
          exact ⟨isCont_ofNat _, by omega, by omega, by omega, by omega⟩
        have hdecode := decode?_four t (by rw [hlead]; omega) hsecond (isCont_ofNat (v / 64))
          (isCont_ofNat v)
        rw [hlead, payload_ofNat, payload_ofNat, payload_ofNat] at hdecode
        rw [List.cons_append, List.cons_append, List.singleton_append, first, hdecode]
        have hcode : (((v / 262144 % 8 + 240) % 8 * 64 + v / 4096 % 64) * 64 + v / 64 % 64) * 64 +
            v % 64 = v := by omega
        simp only [hcode, List.take_succ_cons, List.take_zero, Nat.reduceSub]

/-- A byte of a character is the whole of it, or above ASCII. -/
theorem toNat_of_mem_utf8EncodeChar {c : Char} {b : UInt8} (h : b ∈ String.utf8EncodeChar c) :
    b.toNat = c.toNat ∨ 0x80 ≤ b.toNat := by
  unfold String.utf8EncodeChar at h
  have htoNat : c.val.toNat = c.toNat := rfl
  rw [htoNat] at h
  generalize c.toNat = v at h
  dsimp only at h
  split at h
  · rename_i hascii
    rw [List.mem_singleton.1 h, toNat_ofNat_of_lt (by omega)]
    exact .inl rfl
  · refine .inr ?_
    split at h
    · simp only [List.mem_cons, List.not_mem_nil, or_false] at h
      rcases h with rfl | rfl <;> rw [toNat_ofNat_of_lt (by omega)] <;> omega
    · split at h
      · simp only [List.mem_cons, List.not_mem_nil, or_false] at h
        rcases h with rfl | rfl | rfl <;> rw [toNat_ofNat_of_lt (by omega)] <;> omega
      · simp only [List.mem_cons, List.not_mem_nil, or_false] at h
        rcases h with rfl | rfl | rfl | rfl <;> rw [toNat_ofNat_of_lt (by omega)] <;> omega

end Utf8

namespace TextChar

/-- A character with its bytes. -/
def ofChar (c : Char) : TextChar := ⟨c.toNat, String.utf8EncodeChar c⟩

@[simp] theorem code_ofChar (c : Char) : (ofChar c).code = c.toNat := rfl

@[simp] theorem bytes_ofChar (c : Char) : (ofChar c).bytes = String.utf8EncodeChar c := rfl

theorem isBad_ofChar (c : Char) : (ofChar c).isBad = false := by
  by_cases hcode : c.toNat = Utf8.replacement
  · have hlength : (String.utf8EncodeChar c).length = 3 := by
      rw [← Utf8.encode_toNat, hcode]
      decide
    simp [isBad, hlength]
  · simp [isBad, hcode]

theorem ofChar_injective {c d : Char} (h : ofChar c = ofChar d) : c = d :=
  Char.toNat_inj.1 (congrArg code h)

end TextChar

namespace Text

theorem chars_utf8EncodeChar_append (c : Char) (t : Text) :
    chars (String.utf8EncodeChar c ++ t) = .ofChar c :: chars t := by
  obtain ⟨b, s, hbytes, hfirst⟩ := Utf8.first_utf8EncodeChar c t
  rw [hbytes, List.cons_append, chars_cons, hfirst]
  simp [TextChar.ofChar, hbytes]

theorem chars_flatMap (cs : List Char) :
    chars (cs.flatMap String.utf8EncodeChar) = cs.map TextChar.ofChar := by
  induction cs with
  | nil => rfl
  | cons c cs ih => rw [List.flatMap_cons, chars_utf8EncodeChar_append, ih, List.map_cons]

theorem flatMap_utf8EncodeChar_inj {cs ds : List Char}
    (h : cs.flatMap String.utf8EncodeChar = ds.flatMap String.utf8EncodeChar) : cs = ds := by
  have hchars := congrArg chars h
  rw [chars_flatMap, chars_flatMap] at hchars
  exact (List.map_inj_right fun _ _ => TextChar.ofChar_injective).1 hchars

theorem scrub_flatMap (cs : List Char) :
    scrub (cs.flatMap String.utf8EncodeChar) = cs.flatMap String.utf8EncodeChar := by
  rw [scrub, chars_flatMap, List.flatMap_map]
  congr 1
  funext c
  exact Utf8.encode_toNat c

end Text

end RuleLang
