import Mathlib.Tactic.IntervalCases
import RuleLang.Numeral.Integer
import RuleLang.Proofs.Text.LeadingSpace

/-!
# RuleLang.Proofs.Numeral.ReadBack

A number written in decimal digits is read back as that number (`Numeral.decimal?_ofNat`), as long
as it fits in a signed 64-bit word. The digits are ASCII and visible, so white space in front of
them is all that `trim` takes away (`Text.trim_padding_append`).
-/

namespace RuleLang

namespace Text

theorem ofNat_of_lt {n : Nat} (h : n < 10) : ofNat n = [UInt8.ofNat (48 + n)] := by
  rw [ofNat, Nat.toDigits_of_lt_base h]
  interval_cases n <;> rfl

theorem ofNat_of_le {n : Nat} (h : 10 ≤ n) : ofNat n = ofNat (n / 10) ++ ofNat (n % 10) := by
  have hmod : n % 10 < 10 := Nat.mod_lt n (by omega)
  rw [ofNat, Nat.toDigits_of_base_le (by omega) h, List.map_append, ← ofNat, ofNat,
    ofNat, Nat.toDigits_of_lt_base hmod]

theorem ofNat_ne_nil (n : Nat) : ofNat n ≠ [] := by
  simp [ofNat, Nat.toDigits_ne_nil]

theorem isDigit_of_mem_ofNat {n : Nat} {b : UInt8} (h : b ∈ ofNat n) : isDigit b = true := by
  induction n using Nat.strongRecOn with
  | ind n ih =>
    by_cases hn : n < 10
    · rw [ofNat_of_lt hn, List.mem_singleton] at h
      subst h
      interval_cases n <;> decide
    · rw [ofNat_of_le (by omega), List.mem_append] at h
      rcases h with h | h
      · exact ih (n / 10) (by omega) h
      · exact ih (n % 10) (by omega) h

theorem isDigit_iff {b : UInt8} : isDigit b = true ↔ 48 ≤ b.toNat ∧ b.toNat ≤ 57 := by
  simp [isDigit, UInt8.le_iff_toNat_le]

theorem ascii_of_isDigit {b : UInt8} (h : isDigit b = true) : b < 0x80 := by
  have hb := isDigit_iff.1 h
  have h128 : (0x80 : UInt8).toNat = 128 := rfl
  rw [UInt8.lt_iff_toNat_lt]
  omega

theorem isBlankCode_of_isDigit {b : UInt8} (h : isDigit b = true) :
    isBlankCode b.toNat = false := by
  have hb := isDigit_iff.1 h
  simp only [isBlankCode, Bool.or_eq_false_iff, Bool.and_eq_false_iff, decide_eq_false_iff_not]
  omega

theorem dropWhile_of_visible {rs : List TextChar} (h : ∀ r ∈ rs, r.isBlank = false) :
    rs.dropWhile TextChar.isBlank = rs := by
  cases rs with
  | nil => rfl
  | cons r rs => exact List.dropWhile_cons_of_neg (by simp [h r List.mem_cons_self])

/-- Digits with white space in front of them are trimmed to the digits. -/
theorem trim_padding_append {p ds : Text} (hp : p.IsPadding)
    (hds : ∀ b ∈ ds, isDigit b = true) : (p ++ ds).trim = ds := by
  have hchars : ds.chars = ds.map fun b => ⟨b.toNat, [b]⟩ :=
    chars_ascii fun b hb => ascii_of_isDigit (hds b hb)
  have hvisible : ∀ r ∈ ds.chars, r.isBlank = false := by
    intro r hr
    rw [hchars] at hr
    obtain ⟨b, hb, rfl⟩ := List.mem_map.1 hr
    exact isBlankCode_of_isDigit (hds b hb)
  have hback : ∀ r ∈ ds.chars.reverse, r.isBlank = false := by simpa using hvisible
  have hleft : ds.trimLeft = ds := by
    rw [trimLeft, dropWhile_of_visible hvisible, ofChars_chars]
  have hright : ds.trimRight = ds := by
    rw [trimRight, dropWhile_of_visible hback, List.reverse_reverse, ofChars_chars]
  rw [trim, trimLeft_padding_append ds hp, hleft, hright]

end Text

namespace Numeral

/-- Reading goes on where it stopped. -/
theorem magnitude_append {base value n : Nat} {gaps : Bool} {s : Text}
    (h : magnitude base gaps value s = .ok n) (t : Text) :
    magnitude base gaps value (s ++ t) = magnitude base gaps n t := by
  induction s generalizing value with
  | nil =>
    simp only [magnitude, Except.ok.injEq] at h
    rw [List.nil_append, h]
  | cons b s ih =>
    rw [List.cons_append]
    simp only [magnitude] at h ⊢
    split at h
    · rename_i hgap
      rw [if_pos hgap]
      exact ih h
    · rename_i hgap
      rw [if_neg hgap]
      cases hd : digit? b with
      | none => simp [hd] at h
      | some d =>
        simp only [hd] at h ⊢
        split at h
        · cases h
        · rename_i hbase
          rw [if_neg hbase]
          split at h
          · cases h
          · rename_i hfit
            rw [if_neg hfit]
            exact ih h

theorem magnitude_digit (value : Nat) {d : Nat} (hd : d < 10) (h : value * 10 + d < 2 ^ 64) :
    magnitude 10 false value (Text.ofNat d) = .ok (value * 10 + d) := by
  have hdigit : digit? (UInt8.ofNat (48 + d)) = some d := by
    interval_cases d <;> rfl
  have hbase : ¬ 10 ≤ d := by omega
  have hfit : ¬ 0x10000000000000000 ≤ value * 10 + d := by omega
  simp only [Text.ofNat_of_lt hd, magnitude, Bool.false_and, Bool.false_eq_true, if_false, hdigit,
    if_neg hbase, if_neg hfit]

theorem magnitude_ofNat {n : Nat} (h : n < 2 ^ 64) :
    magnitude 10 false 0 (Text.ofNat n) = .ok n := by
  induction n using Nat.strongRecOn with
  | ind n ih =>
    by_cases hn : n < 10
    · simpa using magnitude_digit 0 hn (by omega)
    · have hfront := ih (n / 10) (by omega) (by omega)
      have hlast := magnitude_digit (n / 10) (d := n % 10) (by omega) (by omega)
      rw [Text.ofNat_of_le (by omega), magnitude_append hfront, hlast]
      congr 1
      omega

theorem splitSign_ofNat (n : Nat) : splitSign (Text.ofNat n) = (false, Text.ofNat n) := by
  cases h : Text.ofNat n with
  | nil => rfl
  | cons b t =>
    have hb : Text.isDigit b = true := Text.isDigit_of_mem_ofNat (by rw [h]; simp)
    unfold splitSign
    split
    · rename_i heq; cases heq; exact absurd hb (by decide)
    · rename_i heq; cases heq; exact absurd hb (by decide)
    · rfl

theorem decimal?_ofNat {n : Nat} (h : n < 2 ^ 63) : decimal? (Text.ofNat n) = .ok n := by
  have hne : (Text.ofNat n).isEmpty = false := by simp [Text.ofNat_ne_nil]
  have hmag := magnitude_ofNat (n := n) (by omega)
  have hsigned : signed false n = .ok n := by
    simp only [signed, Bool.false_eq_true, if_false]
    exact if_pos (by omega)
  simp only [decimal?, inBase, splitSign_ofNat, hne, hmag]
  exact hsigned

end Numeral

end RuleLang
