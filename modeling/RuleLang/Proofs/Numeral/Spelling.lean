import RuleLang.Numeral.Decimal
import RuleLang.Proofs.Numeral.ReadBack

/-!
# RuleLang.Proofs.Numeral.Spelling

Decimal integers as texts: digits, perhaps after a sign (`Numeral.Spells`). A text spells at most
one integer (`Numeral.Spells.unique`). Reading accepts a text if and only if it spells an integer
that fits in a signed 64-bit word, and gives that integer (`Numeral.decimal?_eq_ok_iff`): reading
stops at the first digit at which the magnitude is too large, and more digits would not make it
smaller.
-/

namespace RuleLang

namespace Numeral

def IsDigits (ds : Text) : Prop := ds ≠ [] ∧ ∀ b ∈ ds, Text.isDigit b = true

/-- The text writes the integer in decimal digits, after a sign or none. -/
inductive Spells : Text → Int → Prop where
  | plain {ds : Text} : IsDigits ds → Spells ds (Decimal.digitsValue ds)
  | plus {ds : Text} : IsDigits ds → Spells (43 :: ds) (Decimal.digitsValue ds)
  | minus {ds : Text} : IsDigits ds → Spells (45 :: ds) (-(Decimal.digitsValue ds : Int))

theorem IsDigits.head_ne {b : UInt8} {ds : Text} (h : IsDigits (b :: ds)) : b ≠ 43 ∧ b ≠ 45 := by
  have hb := h.2 b List.mem_cons_self
  constructor
  · rintro rfl
    exact absurd hb (by decide)
  · rintro rfl
    exact absurd hb (by decide)

theorem Spells.unique {v : Text} {n m : Int} (hn : Spells v n) (hm : Spells v m) : n = m := by
  cases hn with
  | plain hd =>
    cases hm with
    | plain _ => rfl
    | plus _ => exact absurd rfl hd.head_ne.1
    | minus _ => exact absurd rfl hd.head_ne.2
  | plus _ =>
    cases hm with
    | plain hd => exact absurd rfl hd.head_ne.1
    | plus _ => rfl
  | minus _ =>
    cases hm with
    | plain hd => exact absurd rfl hd.head_ne.2
    | minus _ => rfl

/-! ## Magnitudes -/

theorem digit?_of_isDigit {b : UInt8} (h : Text.isDigit b = true) :
    digit? b = some (b.toNat - 48) ∧ b.toNat - 48 < 10 := by
  have hb := Text.isDigit_iff.1 h
  exact ⟨by simp [digit?, h], by omega⟩

/-- As digits, letters stand for ten and more. -/
theorem ten_le_of_isLetter {b : UInt8} (h : Text.isLetter b = true) :
    10 ≤ (Text.lowerByte b).toNat - 87 := by
  simp only [Text.isLetter, Text.isUpper, Text.isLower, Bool.or_eq_true, Bool.and_eq_true,
    decide_eq_true_eq, UInt8.le_iff_toNat_le, UInt8.reduceToNat] at h
  simp only [Text.lowerByte, Text.isUpper, Bool.and_eq_true, decide_eq_true_eq,
    UInt8.le_iff_toNat_le, UInt8.reduceToNat]
  split
  · have hadd : (b + 32).toNat = (b.toNat + 32) % 2 ^ 8 := UInt8.toNat_add b 32
    omega
  · omega

theorem isDigit_of_digit? {b : UInt8} {d : Nat} (h : digit? b = some d) (hd : d < 10) :
    Text.isDigit b = true := by
  by_contra hb
  simp only [digit?, hb, if_false] at h
  split at h
  · rename_i hletter
    have hten := ten_le_of_isLetter hletter
    cases h
    omega
  · cases h

theorem foldl_digits_le (value : Nat) (ds : Text) :
    value ≤ ds.foldl (fun n b => n * 10 + (b.toNat - 48)) value := by
  induction ds generalizing value with
  | nil => exact Nat.le_refl _
  | cons b ds ih =>
    have hstep : value ≤ value * 10 + (b.toNat - 48) := by omega
    exact Nat.le_trans hstep (ih _)

/-- Digits are read unless the whole number has more than 64 bits. -/
theorem magnitude_eq_ok_iff {value n : Nat} {ds : Text} (hv : value < 2 ^ 64) :
    magnitude 10 false value ds = .ok n ↔ (∀ b ∈ ds, Text.isDigit b = true) ∧
      ds.foldl (fun n b => n * 10 + (b.toNat - 48)) value = n ∧ n < 2 ^ 64 := by
  induction ds generalizing value with
  | nil =>
    simp only [magnitude, Except.ok.injEq, List.not_mem_nil, false_implies, implies_true,
      List.foldl_nil, true_and]
    exact ⟨fun h => ⟨h, h ▸ hv⟩, fun h => h.1⟩
  | cons b ds ih =>
    simp only [magnitude, Bool.false_and, Bool.false_eq_true, if_false, List.forall_mem_cons,
      List.foldl_cons]
    by_cases hb : Text.isDigit b = true
    · obtain ⟨hdigit, hlt⟩ := digit?_of_isDigit hb
      simp only [hdigit, if_neg (Nat.not_le_of_lt hlt), hb, true_and]
      split
      · rename_i hbig
        have hle := foldl_digits_le (value * 10 + (b.toNat - 48)) ds
        constructor
        · intro h
          cases h
        · rintro ⟨-, rfl, hsmall⟩
          omega
      · rename_i hfit
        exact ih (by omega)
    · simp only [hb, Bool.false_eq_true, false_and, iff_false]
      intro h
      split at h
      · cases h
      · rename_i d hd
        split at h
        · cases h
        · rename_i hbase
          exact hb (isDigit_of_digit? hd (by omega))

/-! ## Signed words -/

/-- The text spells an integer that fits in a signed 64-bit word. -/
def SpellsWord (v : Text) (n : Int) : Prop := Spells v n ∧ -2 ^ 63 ≤ n ∧ n < 2 ^ 63

theorem inBase_eq (v : Text) :
    decimal? v = if (splitSign v).2.isEmpty then .error .notNumber else
      (magnitude 10 false 0 (splitSign v).2).bind (signed (splitSign v).1) := by
  simp only [decimal?, inBase]
  split <;> rfl

theorem signed_eq_ok_iff {negative : Bool} {m : Nat} {n : Int} :
    signed negative m = .ok n ↔
      n = (if negative then -(m : Int) else m) ∧ -2 ^ 63 ≤ n ∧ n < 2 ^ 63 := by
  unfold signed
  cases negative with
  | true =>
    simp only [if_true]
    split
    · simp only [Except.ok.injEq]
      omega
    · simp only [reduceCtorEq, false_iff]
      omega
  | false =>
    simp only [Bool.false_eq_true, if_false]
    split
    · simp only [Except.ok.injEq]
      omega
    · simp only [reduceCtorEq, false_iff]
      omega

theorem spells_iff {v : Text} {n : Int} :
    Spells v n ↔ IsDigits (splitSign v).2 ∧
      n = if (splitSign v).1 then -(Decimal.digitsValue (splitSign v).2 : Int)
        else Decimal.digitsValue (splitSign v).2 := by
  constructor
  · intro h
    cases h with
    | plain hd =>
      cases v with
      | nil => exact absurd rfl hd.1
      | cons b ds =>
        have hsign : splitSign (b :: ds) = (false, b :: ds) := by
          unfold splitSign
          split
          · rename_i heq
            cases heq
            exact absurd rfl hd.head_ne.1
          · rename_i heq
            cases heq
            exact absurd rfl hd.head_ne.2
          · rfl
        rw [hsign]
        exact ⟨hd, rfl⟩
    | plus hd => exact ⟨hd, rfl⟩
    | minus hd => exact ⟨hd, rfl⟩
  · unfold splitSign
    split
    · rintro ⟨hd, rfl⟩
      exact .plus hd
    · rintro ⟨hd, rfl⟩
      exact .minus hd
    · rintro ⟨hd, rfl⟩
      exact .plain hd

theorem decimal?_eq_ok_iff {v : Text} {n : Int} : decimal? v = .ok n ↔ SpellsWord v n := by
  rw [inBase_eq, SpellsWord, spells_iff]
  generalize splitSign v = p
  obtain ⟨negative, ds⟩ := p
  dsimp only
  by_cases hempty : ds = []
  · simp [hempty, IsDigits]
  · have hne : ds.isEmpty = false := by simpa using hempty
    rw [hne]
    simp only [Bool.false_eq_true, if_false, IsDigits, ne_eq, hempty, not_false_eq_true, true_and]
    constructor
    · intro h
      cases hm : magnitude 10 false 0 ds with
      | error f => simp [hm, Except.bind] at h
      | ok m =>
        obtain ⟨hdigits, hvalue, -⟩ := (magnitude_eq_ok_iff (by omega)).1 hm
        rw [hm] at h
        obtain ⟨hn, hlow, hhigh⟩ := signed_eq_ok_iff.1 h
        rw [← hvalue] at hn
        exact ⟨⟨hdigits, hn⟩, hlow, hhigh⟩
    · rintro ⟨⟨hdigits, hn⟩, hlow, hhigh⟩
      -- the magnitude of a signed word has at most 64 bits
      have hfit : Decimal.digitsValue ds < 2 ^ 64 := by
        split at hn <;> omega
      have hm : magnitude 10 false 0 ds = .ok (Decimal.digitsValue ds) :=
        (magnitude_eq_ok_iff (by omega)).2 ⟨hdigits, rfl, hfit⟩
      rw [hm]
      exact signed_eq_ok_iff.2 ⟨hn, hlow, hhigh⟩

end Numeral

end RuleLang
