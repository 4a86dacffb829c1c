import Mathlib.Data.List.DropRight
import Mathlib.Data.Nat.Digits.Defs
import RuleLang.Numeral.Decimal
import RuleLang.Proofs.Numeral.ReadBack

/-!
# RuleLang.Proofs.Numeral.ExactDouble

Integers up to `2 ^ 53` are doubles, and are written with all their digits.

Below the bound the nearest double of an integer is the integer itself (`Double.ofDecimal?_exact`),
and a decimal without fraction that rounds to it is equal to it (`Double.eq_of_reads`). So the
fewest digits that read back are its own digits, less zeros at the end
(`Double.shortestFrom_exact`), and the zeros are put back where the number is written
(`Double.toText_ofDecimal?`).
-/

namespace RuleLang

namespace Text

theorem ofNat_mul_pow {q : Nat} (hq : 0 < q) (k : Nat) :
    ofNat (q * 10 ^ k) = ofNat q ++ List.replicate k 48 := by
  induction k with
  | zero => simp
  | succ k ih =>
    have hpos : 0 < q * 10 ^ k := Nat.mul_pos hq (Nat.pow_pos (by omega))
    have hzero : ofNat 0 = [48] := ofNat_of_lt (by omega)
    rw [Nat.pow_succ, ← Nat.mul_assoc, ofNat_of_le (by omega),
      Nat.mul_div_cancel _ (by omega), Nat.mul_mod_left, ih, hzero, List.append_assoc,
      List.replicate_succ']

theorem length_ofNat_le {n k : Nat} (hk : 0 < k) (h : n < 10 ^ k) : (ofNat n).length ≤ k := by
  rw [ofNat, List.length_map]
  exact Nat.toDigits_length 10 n k hk h

end Text

namespace Double

/-! ## Rounding integers -/

theorem scaled_nat (x k : Nat) (e : Int) :
    scaled x k e = (x * 10 ^ k * 2 ^ (-e).toNat, 2 ^ e.toNat) := by
  simp [scaled]

/-- The mantissa of an integer below `2 ^ 53`. -/
def exactMant (n : Nat) : Nat := n * 2 ^ (52 - n.log2)

/-- The exponent of an integer below `2 ^ 53`. -/
def exactExp (n : Nat) : Int := n.log2 - 52

section

variable {n x k : Nat}

theorem log2_le (hpos : 0 < n) (hn : n < 2 ^ 53) : n.log2 ≤ 52 :=
  Nat.le_of_lt_succ ((Nat.log2_lt (Nat.ne_of_gt hpos)).2 hn)

theorem le_exactMant (hpos : 0 < n) (hn : n < 2 ^ 53) : 2 ^ 52 ≤ exactMant n := by
  have hlog := log2_le hpos hn
  calc 2 ^ 52 = 2 ^ n.log2 * 2 ^ (52 - n.log2) := by rw [← Nat.pow_add]; congr 1; omega
    _ ≤ n * 2 ^ (52 - n.log2) := Nat.mul_le_mul_right _ (Nat.log2_self_le (Nat.ne_of_gt hpos))

theorem exactMant_lt (hpos : 0 < n) (hn : n < 2 ^ 53) : exactMant n < 2 ^ 53 := by
  have hlog := log2_le hpos hn
  calc n * 2 ^ (52 - n.log2) < 2 ^ (n.log2 + 1) * 2 ^ (52 - n.log2) :=
        Nat.mul_lt_mul_of_pos_right Nat.lt_log2_self (Nat.pow_pos (by omega))
    _ = 2 ^ 53 := by rw [← Nat.pow_add]; congr 1; omega

/-- Without a fraction the top bit is where the logarithm says. -/
theorem binaryExponent_nat (hpos : 0 < n) (hx : x * 10 ^ k = n) :
    binaryExponent x k = (n.log2 : Int) - 52 := by
  have hquotient : ¬ n * 2 ^ (-((n.log2 : Int) - 52)).toNat / 2 ^ ((n.log2 : Int) - 52).toNat <
      0x10000000000000 := by
    have hself := Nat.log2_self_le (Nat.ne_of_gt hpos)
    rw [Nat.not_lt, Nat.le_div_iff_mul_le (Nat.pow_pos (by omega))]
    have hbits : 0x10000000000000 * 2 ^ ((n.log2 : Int) - 52).toNat =
        2 ^ n.log2 * 2 ^ (-((n.log2 : Int) - 52)).toNat := by
      rw [show 0x10000000000000 = 2 ^ 52 from rfl, ← Nat.pow_add, ← Nat.pow_add]
      congr 1
      omega
    rw [hbits]
    exact Nat.mul_le_mul_right _ hself
  have hone : Nat.log2 1 = 0 := by decide
  unfold binaryExponent
  simp only [scaled_nat, hx, Int.neg_zero, Int.toNat_zero, Nat.pow_zero, Nat.mul_one, hone,
    Int.natCast_zero, Int.sub_zero, if_neg hquotient]
  omega

theorem ofDecimal?_exact (hpos : 0 < n) (hx : x * 10 ^ k = n) (hn : n < 2 ^ 53)
    (negative : Bool) :
    ofDecimal? ⟨negative, x, k⟩ = some ⟨negative, exactMant n, exactExp n⟩ := by
  have hlog := log2_le hpos hn
  have hx0 : x ≠ 0 := by
    rintro rfl
    omega
  have hten : 0 < 10 ^ k := Nat.pow_pos (by omega)
  -- neither the digits nor the zeros after them are more than sixteen
  have hxlt : x < 10 ^ 16 := by
    have hle : x * 1 ≤ x * 10 ^ k := Nat.mul_le_mul_left x hten
    omega
  have hk : k < 16 := by
    have hle : 1 * 10 ^ k ≤ x * 10 ^ k := Nat.mul_le_mul_right _ (Nat.pos_of_ne_zero hx0)
    exact (Nat.pow_lt_pow_iff_right (by omega : 1 < 10)).1 (by omega)
  have hsize := Nat.toDigits_length 10 x 16 (by omega) hxlt
  have hmant : n * 2 ^ (-((n.log2 : Int) - 52)).toNat = exactMant n := by
    rw [exactMant]
    congr 2
    omega
  have hden : ((n.log2 : Int) - 52).toNat = 0 := by omega
  have hround : roundDiv (exactMant n) 1 = exactMant n := by
    simp [roundDiv, Nat.mod_one]
  have hlow := le_exactMant hpos hn
  have hhigh := exactMant_lt hpos hn
  have hnotLarge : ¬ ((Nat.toDigits 10 x).length + k : Int) > 310 := by omega
  have hnotSmall : ¬ ((Nat.toDigits 10 x).length + k : Int) < -330 := by omega
  have hcarry : exactMant n ≠ 0x20000000000000 := by omega
  have hexp : ¬ 971 < (n.log2 : Int) - 52 := by omega
  have hzero : exactMant n ≠ 0 := by omega
  simp only [ofDecimal?, hx0, hnotLarge, hnotSmall, binaryExponent_nat hpos hx, scaled_nat, hx,
    hmant, hden, Nat.pow_zero, hround, hcarry, hexp, hzero, if_false, exactExp]

/-- From `2 ^ 53` on the exponent is positive. -/
theorem ofDecimal?_large (hn : 2 ^ 53 ≤ x * 10 ^ k) {negative : Bool} {d : Double}
    (h : ofDecimal? ⟨negative, x, k⟩ = some d) : d.mant = 0 ∨ 1 ≤ d.exp := by
  have hpos : 0 < x * 10 ^ k := Nat.lt_of_lt_of_le (by omega) hn
  have hlog : 53 ≤ (x * 10 ^ k).log2 := (Nat.le_log2 (Nat.ne_of_gt hpos)).2 hn
  simp only [ofDecimal?, binaryExponent_nat hpos rfl, scaled_nat] at h
  split at h
  · cases h
    exact .inl rfl
  · split at h
    · cases h
    · split at h
      · cases h
        exact .inl rfl
      · generalize roundDiv _ _ = m at h
        -- a mantissa that is rounded up to the next power of two raises the exponent
        split at h
        all_goals
          split at h
          · cases h
          · split at h
            · cases h
              exact .inl rfl
            · cases h
              refine .inr ?_
              dsimp only
              omega

end

/-! ## Reading back -/

theorem reads_of_withDigits? {mant count q : Nat} {exp e : Int}
    (h : withDigits? mant exp count = some (q, e)) :
    reads mant exp q e = true ∧ e = decimalPoint mant exp - count := by
  simp only [withDigits?] at h
  generalize roundDiv _ _ = near at h
  generalize (if near = _ then _ else _ : Nat) = far at h
  split at h
  · rename_i hreads
    cases h
    exact ⟨hreads, rfl⟩
  · split at h
    · rename_i hreads
      cases h
      exact ⟨hreads, rfl⟩
    · cases h

section

variable {n x k : Nat} (hpos : 0 < n) (hn : n < 2 ^ 53)

include hpos hn

theorem reads_exact : reads (exactMant n) (exactExp n) n 0 = true := by
  have hread := ofDecimal?_exact (x := n) (k := 0) hpos (by simp) hn false
  unfold reads
  rw [show (0 : Int) = ((0 : Nat) : Int) from rfl, hread]
  simp

/-- A decimal without fraction that rounds to an integer below `2 ^ 53` is the integer. -/
theorem eq_of_reads (h : reads (exactMant n) (exactExp n) x k = true) : x * 10 ^ k = n := by
  have hlow := le_exactMant hpos hn
  have hlog := log2_le hpos hn
  unfold reads at h
  split at h
  · rename_i d hd
    simp only [Bool.and_eq_true, decide_eq_true_eq] at h
    obtain ⟨hmant, hexp⟩ := h
    rcases Nat.lt_or_ge (x * 10 ^ k) (2 ^ 53) with hsmall | hlarge
    · rcases Nat.eq_zero_or_pos (x * 10 ^ k) with hzero | hpos'
      · have hx : x = 0 := by
          rcases Nat.mul_eq_zero.1 hzero with hx | hten
          · exact hx
          · exact absurd hten (Nat.ne_of_gt (Nat.pow_pos (by omega)))
        simp only [ofDecimal?, hx, if_true, Option.some.injEq] at hd
        rw [← hd] at hmant
        simp only at hmant
        omega
      · rw [ofDecimal?_exact hpos' rfl hsmall, Option.some.injEq] at hd
        rw [← hd] at hmant hexp
        simp only [exactExp, exactMant] at hmant hexp
        have hsame : (x * 10 ^ k).log2 = n.log2 := by omega
        rw [hsame] at hmant
        exact Nat.eq_of_mul_eq_mul_right (Nat.pow_pos (by omega)) hmant
    · rcases ofDecimal?_large hlarge hd with hzero | hone
      · omega
      · rw [hexp, exactExp] at hone
        omega
  · cases h

/-! ## The fewest digits -/

theorem toNat_exactExp : (exactExp n).toNat = 0 ∧ (-exactExp n).toNat = 52 - n.log2 := by
  have hlog := log2_le hpos hn
  unfold exactExp
  omega

theorem decimalPoint_exact :
    decimalPoint (exactMant n) (exactExp n) = (Nat.toDigits 10 n).length := by
  obtain ⟨hup, hdown⟩ := toNat_exactExp hpos hn
  have hbits : 0 < 2 ^ (52 - n.log2) := Nat.pow_pos (by omega)
  have hle : 2 ^ (52 - n.log2) ≤ exactMant n := Nat.le_mul_of_pos_left _ hpos
  simp only [decimalPoint, hup, hdown, Nat.pow_eq, Nat.pow_zero, Nat.mul_one, hle, if_true]
  rw [exactMant, Nat.mul_div_cancel _ hbits]

theorem eq_of_withDigits? {q : Nat} {e : Int}
    (h : withDigits? (exactMant n) (exactExp n) ((Nat.toDigits 10 n).length - k) = some (q, e))
    (hk : k ≤ (Nat.toDigits 10 n).length) : e = k ∧ q * 10 ^ k = n := by
  obtain ⟨hreads, he⟩ := reads_of_withDigits? h
  have hexp : e = k := by
    rw [he, decimalPoint_exact hpos hn]
    omega
  rw [hexp] at hreads
  exact ⟨hexp, eq_of_reads hpos hn hreads⟩

/-- All digits read back. -/
theorem withDigits?_all :
    withDigits? (exactMant n) (exactExp n) (Nat.toDigits 10 n).length = some (n, 0) := by
  obtain ⟨hup, hdown⟩ := toNat_exactExp hpos hn
  have hbits : 0 < 2 ^ (52 - n.log2) := Nat.pow_pos (by omega)
  have hround : roundDiv (exactMant n) (2 ^ (52 - n.log2)) = n := by
    simp [roundDiv, exactMant, Nat.mul_div_cancel _ hbits, hbits]
  simp only [withDigits?, decimalPoint_exact hpos hn, Int.sub_self, hup, hdown, Nat.pow_eq,
    Int.neg_zero, Int.toNat_zero, Nat.pow_zero, Nat.mul_one, hround, reads_exact hpos hn, if_true]

theorem shortestFrom_exact {count left : Nat} (hcount : count ≤ (Nat.toDigits 10 n).length)
    (hleft : (Nat.toDigits 10 n).length < count + left) :
    ∃ q k : Nat, shortestFrom (exactMant n) (exactExp n) count left = (q, (k : Int)) ∧
      q * 10 ^ k = n := by
  induction left generalizing count with
  | zero => omega
  | succ left ih =>
    unfold shortestFrom
    cases hdigits : withDigits? (exactMant n) (exactExp n) count with
    | some r =>
      obtain ⟨q, e⟩ := r
      have hk : (Nat.toDigits 10 n).length - ((Nat.toDigits 10 n).length - count) = count := by
        omega
      rw [← hk] at hdigits
      obtain ⟨rfl, hq⟩ := eq_of_withDigits? hpos hn hdigits (by omega)
      exact ⟨q, _, rfl, hq⟩
    | none =>
      have hne : count ≠ (Nat.toDigits 10 n).length := by
        rintro rfl
        rw [withDigits?_all hpos hn] at hdigits
        cases hdigits
      exact ih (by omega) (by omega)

end

/-! ## Writing -/

/-- Zeros that were left out at the end of the digits are put back. -/
theorem positional_stripped (all : Text) (k : Nat) (h : 0 < all.length) :
    positional (all.reverse.dropWhile (· = 48)).reverse ((all.length : Int) + k) =
      all ++ List.replicate k 48 := by
  generalize hds : (all.reverse.dropWhile (· = 48)).reverse = ds
  obtain ⟨zeros, rfl⟩ : ∃ zeros, all = ds ++ List.replicate zeros 48 := by
    refine ⟨(all.rtakeWhile (· = 48)).length, ?_⟩
    have hzeros : all.rtakeWhile (· = 48) = List.replicate (all.rtakeWhile (· = 48)).length 48 :=
      List.eq_replicate_iff.2 ⟨rfl, fun b hb => by simpa using List.mem_rtakeWhile_imp hb⟩
    rw [← hzeros, ← hds]
    exact List.rdropWhile_append_rtakeWhile.symm
  simp only [List.length_append, List.length_replicate] at h ⊢
  have hpoint : ¬ (((ds.length + zeros : Nat) : Int) + k ≤ 0) := by omega
  have hlength : ((((ds.length + zeros : Nat) : Int) + k).toNat) = ds.length + zeros + k := by omega
  have hzeros : ds.length + zeros + k - ds.length = zeros + k := by omega
  simp only [positional, if_neg hpoint, hlength, hzeros]
  rw [if_pos (by omega), List.append_assoc, List.replicate_append_replicate]

theorem toText_exact {n : Nat} (hpos : 0 < n) (hn : n < 2 ^ 53) (negative : Bool) :
    toText ⟨negative, exactMant n, exactExp n⟩ =
      (if negative then txt "-" else []) ++ Text.ofNat n := by
  have hlow := le_exactMant hpos hn
  have hdigits : (Nat.toDigits 10 n).length ≤ 16 :=
    Nat.toDigits_length 10 n 16 (by omega) (by omega)
  have hone : 0 < (Nat.toDigits 10 n).length := List.length_pos_iff.2 Nat.toDigits_ne_nil
  have htries : (Nat.toDigits 10 n).length < 1 + 17 := by omega
  obtain ⟨q, k, hshortest, hq⟩ := shortestFrom_exact hpos hn hone htries
  have hqpos : 0 < q := by
    rcases Nat.eq_zero_or_pos q with rfl | hq'
    · omega
    · exact hq'
  have hall : Text.ofNat q ++ List.replicate k 48 = Text.ofNat n := by
    rw [← Text.ofNat_mul_pow hqpos, hq]
  have hlength : (Text.ofNat q).length + k ≤ 16 := by
    have hlen := congrArg List.length hall
    have hle := Text.length_ofNat_le (n := n) (k := 16) (by omega) (by omega)
    rw [List.length_append, List.length_replicate] at hlen
    omega
  have hpoint : (decide (-6 < ((Text.ofNat q).length : Int) + k) &&
      decide (((Text.ofNat q).length : Int) + k ≤ 21)) = true := by
    simp only [Bool.and_eq_true, decide_eq_true_eq]
    omega
  have hmant : exactMant n ≠ 0 := by omega
  simp only [toText, shortest, hmant, if_false, hshortest, hpoint, if_true]
  rw [positional_stripped _ _ (List.length_pos_iff.2 (Text.ofNat_ne_nil q)), hall]

/-- An integer up to `2 ^ 53` comes through as it is. -/
theorem toText_ofDecimal? {n : Nat} (hn : n ≤ 2 ^ 53) (negative : Bool) :
    (ofDecimal? ⟨negative, n, 0⟩).map toText =
      some ((if negative then txt "-" else []) ++ Text.ofNat n) := by
  rcases Nat.eq_zero_or_pos n with rfl | hpos
  · cases negative <;> decide
  · rcases Nat.lt_or_eq_of_le hn with hlt | rfl
    · have hexact := ofDecimal?_exact (x := n) (k := 0) hpos (by simp) hlt negative
      rw [show (0 : Int) = ((0 : Nat) : Int) from rfl, hexact, Option.map_some,
        toText_exact hpos hlt]
    · cases negative <;> decide +kernel

end Double

/-! ## Literals of integers -/

namespace Decimal

theorem digitsValue_append (ds es : Text) :
    digitsValue (ds ++ es) = es.foldl (fun n b => n * 10 + (b.toNat - 48)) (digitsValue ds) := by
  rw [digitsValue, List.foldl_append, digitsValue]

theorem digitsValue_ofNat (n : Nat) : digitsValue (Text.ofNat n) = n := by
  have hdigit : ∀ d < 10, (UInt8.ofNat (48 + d)).toNat - 48 = d := by decide
  induction n using Nat.strongRecOn with
  | ind n ih =>
    by_cases hn : n < 10
    · rw [Text.ofNat_of_lt hn]
      exact (Nat.zero_add _).trans (hdigit n hn)
    · have hmod : n % 10 < 10 := Nat.mod_lt n (by omega)
      rw [Text.ofNat_of_le (by omega), digitsValue_append, ih (n / 10) (by omega),
        Text.ofNat_of_lt hmod, List.foldl_cons, List.foldl_nil, hdigit _ hmod]
      omega

end Decimal

namespace Text

theorem ofNat_inj {n m : Nat} (h : ofNat n = ofNat m) : n = m := by
  rw [← Decimal.digitsValue_ofNat n, h, Decimal.digitsValue_ofNat]

theorem ofNat_ne_cons {n : Nat} {b : UInt8} {t : Text} (hb : isDigit b = false) :
    ofNat n ≠ b :: t := by
  intro h
  have hdigit := isDigit_of_mem_ofNat (n := n) (b := b) (by simp [h])
  rw [hb] at hdigit
  cases hdigit

theorem takeWhile_ofNat (n : Nat) : (ofNat n).takeWhile isDigit = ofNat n :=
  List.takeWhile_eq_self_iff.2 fun _ hb => isDigit_of_mem_ofNat hb

end Text

namespace Decimal

theorem ofLiteral_ofNat (n : Nat) : ofLiteral (Text.ofNat n) = ⟨false, n, 0⟩ := by
  have hvalue := digitsValue_ofNat n
  have hwhole := Text.takeWhile_ofNat n
  unfold ofLiteral
  split
  rename_i negative t hsign
  split at hsign
  · rename_i hn
    exact absurd hn (Text.ofNat_ne_cons (by decide))
  · rename_i hn
    exact absurd hn (Text.ofNat_ne_cons (by decide))
  · cases hsign
    simp [hwhole, hvalue]

theorem ofLiteral_neg_ofNat (n : Nat) : ofLiteral (45 :: Text.ofNat n) = ⟨true, n, 0⟩ := by
  have hvalue := digitsValue_ofNat n
  have hwhole := Text.takeWhile_ofNat n
  simp [ofLiteral, hwhole, hvalue]

end Decimal

end RuleLang
