import Mathlib.Data.List.Basic
import RuleLang.Json.Reader
import RuleLang.Json.Writer
import RuleLang.Proofs.Text.Encoding

/-!
# RuleLang.Proofs.Json.StringLiteral

String literals and the characters they stand for (`Json.StringLiteral`): characters as they are,
escapes of a letter, escapes of a code point and of a surrogate pair. A surrogate without its
partner stands for no character.

Reading a literal gives its characters (`Json.readString?_literal`), so a literal stands for one
row of characters only (`Json.StringLiteral.unique`). What is written for characters is a literal
of them (`Json.exists_literal_of_quoted`).
-/

namespace RuleLang

namespace Json

/-- The letters of escapes, and what they stand for. -/
def letterEscapes : List (UInt8 × Char) :=
  [(34, '"'), (92, '\\'), (47, '/'), (98, '\x08'), (102, '\x0c'), (110, '\n'), (114, '\r'),
    (116, '\t')]

/-- The text between the quotes of a string literal, and its characters. -/
inductive StringLiteral : Text → List Char → Prop where
  | nil : StringLiteral [] []
  | plain {c : Char} {t : Text} {cs : List Char} : 0x20 ≤ c.toNat → c ≠ '"' → c ≠ '\\' →
      StringLiteral t cs → StringLiteral (String.utf8EncodeChar c ++ t) (c :: cs)
  | letter {b : UInt8} {c : Char} {t : Text} {cs : List Char} : (b, c) ∈ letterEscapes →
      StringLiteral t cs → StringLiteral (92 :: b :: t) (c :: cs)
  | code {x₁ x₂ x₃ x₄ : UInt8} {c : Char} {t : Text} {cs : List Char} :
      hex4? x₁ x₂ x₃ x₄ = some c.toNat →
      StringLiteral t cs → StringLiteral (92 :: 117 :: x₁ :: x₂ :: x₃ :: x₄ :: t) (c :: cs)
  | pair {x₁ x₂ x₃ x₄ y₁ y₂ y₃ y₄ : UInt8} {high low : Nat} {c : Char} {t : Text}
      {cs : List Char} :
      hex4? x₁ x₂ x₃ x₄ = some high → 0xD800 ≤ high → high < 0xDC00 →
      hex4? y₁ y₂ y₃ y₄ = some low → 0xDC00 ≤ low → low < 0xE000 →
      c.toNat = 0x10000 + (high - 0xD800) * 0x400 + (low - 0xDC00) →
      StringLiteral t cs →
      StringLiteral (92 :: 117 :: x₁ :: x₂ :: x₃ :: x₄ :: 92 :: 117 :: y₁ :: y₂ :: y₃ :: y₄ :: t)
        (c :: cs)

/-! ## Reading -/

theorem readString?_bytes (acc t : Text) {bs : Text}
    (h : ∀ b ∈ bs, 0x20 ≤ b.toNat ∧ b.toNat ≠ 34 ∧ b.toNat ≠ 92) :
    readString? none acc (bs ++ t) = readString? none (bs.reverse ++ acc) t := by
  induction bs generalizing acc with
  | nil => rfl
  | cons b bs ih =>
    obtain ⟨hlow, hquote, hslash⟩ := h b List.mem_cons_self
    have hb34 : b ≠ 34 := fun hb => hquote (congrArg UInt8.toNat hb)
    have hb92 : b ≠ 92 := fun hb => hslash (congrArg UInt8.toNat hb)
    have hb32 : ¬ b < 32 := by
      rw [UInt8.lt_iff_toNat_lt]
      exact Nat.not_lt.2 hlow
    rw [List.cons_append, readString?.eq_5 _ _ _ _ hb34 (fun _ _ _ _ _ h _ => hb92 h)
      (fun _ _ h _ => hb92 h)]
    simp only [hb32, hb92, decide_false, Bool.or_self, Bool.false_eq_true, if_false, settle]
    rw [ih _ fun b hb => h b (List.mem_cons_of_mem _ hb)]
    simp

theorem readString?_letter (acc t : Text) {b : UInt8} {c : Char} (h : (b, c) ∈ letterEscapes) :
    readString? none acc (92 :: b :: t) =
      readString? none ((String.utf8EncodeChar c).reverse ++ acc) t := by
  have htable : ∀ p ∈ letterEscapes, p.1 ≠ 117 ∧
      escaped? p.1 = some (UInt8.ofNat p.2.toNat) ∧
      String.utf8EncodeChar p.2 = [UInt8.ofNat p.2.toNat] := by decide
  obtain ⟨hne, hescaped, hbytes⟩ := htable (b, c) h
  dsimp only at hne hescaped hbytes
  rw [readString?.eq_4 _ _ _ _ fun _ _ _ _ _ hb _ => hne hb, hescaped, hbytes]
  rfl

theorem readString?_code (acc t : Text) {x₁ x₂ x₃ x₄ : UInt8} {c : Char}
    (h : hex4? x₁ x₂ x₃ x₄ = some c.toNat) :
    readString? none acc (92 :: 117 :: x₁ :: x₂ :: x₃ :: x₄ :: t) =
      readString? none ((String.utf8EncodeChar c).reverse ++ acc) t := by
  have hrange := Utf8.char_range c
  have hlow : (decide (0xDC00 ≤ c.toNat) && decide (c.toNat < 0xE000)) = false := by
    simp only [Bool.and_eq_false_iff, decide_eq_false_iff_not]
    omega
  have hhigh : (decide (0xD800 ≤ c.toNat) && decide (c.toNat < 0xDC00)) = false := by
    simp only [Bool.and_eq_false_iff, decide_eq_false_iff_not]
    omega
  rw [readString?.eq_3, h]
  dsimp only
  rw [hlow, hhigh, Utf8.encode_toNat]
  rfl

theorem readString?_pair (acc t : Text) {x₁ x₂ x₃ x₄ y₁ y₂ y₃ y₄ : UInt8} {high low : Nat}
    {c : Char} (hx : hex4? x₁ x₂ x₃ x₄ = some high) (hhigh : 0xD800 ≤ high) (hhigh' : high < 0xDC00)
    (hy : hex4? y₁ y₂ y₃ y₄ = some low) (hlow : 0xDC00 ≤ low) (hlow' : low < 0xE000)
    (hc : c.toNat = 0x10000 + (high - 0xD800) * 0x400 + (low - 0xDC00)) :
    readString? none acc
        (92 :: 117 :: x₁ :: x₂ :: x₃ :: x₄ :: 92 :: 117 :: y₁ :: y₂ :: y₃ :: y₄ :: t) =
      readString? none ((String.utf8EncodeChar c).reverse ++ acc) t := by
  have hnotlow : (decide (0xDC00 ≤ high) && decide (high < 0xE000)) = false := by
    simp only [Bool.and_eq_false_iff, decide_eq_false_iff_not]
    omega
  have hishigh : (decide (0xD800 ≤ high) && decide (high < 0xDC00)) = true := by
    simp [hhigh, hhigh']
  have hislow : (decide (0xDC00 ≤ low) && decide (low < 0xE000)) = true := by
    simp [hlow, hlow']
  rw [readString?.eq_3, hx]
  dsimp only
  rw [hnotlow, hishigh, if_neg Bool.false_ne_true, if_pos rfl, readString?.eq_3, hy]
  dsimp only
  rw [hislow, if_pos rfl, ← hc, Utf8.encode_toNat]
  rfl

theorem readString?_literal {body : Text} {cs : List Char} (h : StringLiteral body cs)
    (before : List Char) (t : Text) :
    readString? none (before.flatMap String.utf8EncodeChar).reverse (body ++ 34 :: t) =
      some ((before ++ cs).flatMap String.utf8EncodeChar, t) := by
  -- `before` are the characters read so far
  have hstep : ∀ (c : Char) (before : List Char),
      (String.utf8EncodeChar c).reverse ++ (before.flatMap String.utf8EncodeChar).reverse =
        ((before ++ [c]).flatMap String.utf8EncodeChar).reverse := by
    simp
  induction h generalizing before with
  | nil =>
    rw [List.nil_append, readString?.eq_2, settle, List.reverse_reverse, Text.scrub_flatMap,
      List.append_nil]
  | @plain c body cs hlow hquote hslash _ ih =>
    rw [List.append_assoc, readString?_bytes, hstep, ih, List.append_assoc, List.singleton_append]
    intro b hb
    have hq : c.toNat ≠ 34 := fun h => hquote (Char.toNat_inj.1 h)
    have hs : c.toNat ≠ 92 := fun h => hslash (Char.toNat_inj.1 h)
    have hbyte := Utf8.toNat_of_mem_utf8EncodeChar hb
    omega
  | letter hmem _ ih =>
    rw [List.cons_append, List.cons_append, readString?_letter _ _ hmem, hstep, ih,
      List.append_assoc, List.singleton_append]
  | code hcode _ ih =>
    simp only [List.cons_append]
    rw [readString?_code _ _ hcode, hstep, ih, List.append_assoc, List.singleton_append]
  | pair hx hhigh hhigh' hy hlow hlow' hc _ ih =>
    simp only [List.cons_append]
    rw [readString?_pair _ _ hx hhigh hhigh' hy hlow hlow' hc, hstep, ih, List.append_assoc,
      List.singleton_append]

theorem StringLiteral.unique {body : Text} {cs ds : List Char} (hc : StringLiteral body cs)
    (hd : StringLiteral body ds) : cs = ds := by
  have h := (readString?_literal hc [] []).symm.trans (readString?_literal hd [] [])
  simp only [List.nil_append, Option.some.injEq, Prod.mk.injEq, and_true] at h
  exact Text.flatMap_utf8EncodeChar_inj h

/-! ## Writing -/

/-- The code points that are written by their number. -/
def numbered : List Nat := List.range 0x20 ++ [0x2028, 0x2029, 60, 62, 38]

theorem hex_numbered {n : Nat} (h : n ∈ numbered) :
    ∃ x₁ x₂ x₃ x₄, Text.hex false 4 n = [x₁, x₂, x₃, x₄] ∧ hex4? x₁ x₂ x₃ x₄ = some n := by
  have htable : ∀ n ∈ numbered, (Text.hex false 4 n).length = 4 ∧
      hex4? ((Text.hex false 4 n).getD 0 0) ((Text.hex false 4 n).getD 1 0)
        ((Text.hex false 4 n).getD 2 0) ((Text.hex false 4 n).getD 3 0) = some n := by decide
  obtain ⟨hlength, hvalue⟩ := htable n h
  generalize Text.hex false 4 n = digits at hlength hvalue
  obtain ⟨x₁, x₂, x₃, x₄, rfl⟩ := List.length_eq_four.1 hlength
  exact ⟨x₁, x₂, x₃, x₄, rfl, hvalue⟩

theorem mem_numbered {n : Nat} :
    n ∈ numbered ↔ n < 0x20 ∨ n = 0x2028 ∨ n = 0x2029 ∨ n = 60 ∨ n = 62 ∨ n = 38 := by
  simp [numbered]

/-- All letters of escapes are written but the solidus, which is written as it is. -/
theorem escape_of_letter {p : UInt8 × Char} (h : p ∈ letterEscapes) (hsolidus : p.1 ≠ 47) :
    escape true (.ofChar p.2) = [92, p.1] := by
  have htable : ∀ p ∈ letterEscapes, p.1 ≠ 47 → escape true (.ofChar p.2) = [92, p.1] := by decide
  exact htable p h hsolidus

theorem escape_of_other {r : TextChar} (hbad : r.isBad = false)
    (h : ∀ p ∈ letterEscapes, p.1 ≠ 47 → r.code ≠ p.2.toNat) :
    escape true r =
      if r.code ∈ numbered then 92 :: 117 :: Text.hex false 4 r.code else r.bytes := by
  have hquote : r.code ≠ 34 := h (34, '"') (by decide) (by decide)
  have hslash : r.code ≠ 92 := h (92, '\\') (by decide) (by decide)
  have hback : r.code ≠ 8 := h (98, '\x08') (by decide) (by decide)
  have hform : r.code ≠ 12 := h (102, '\x0c') (by decide) (by decide)
  have hline : r.code ≠ 10 := h (110, '\n') (by decide) (by decide)
  have hreturn : r.code ≠ 13 := h (114, '\r') (by decide) (by decide)
  have htab : r.code ≠ 9 := h (116, '\t') (by decide) (by decide)
  have hnumber : txt "\\u" = [92, 117] := by decide
  simp [escape, hbad, hquote, hslash, hback, hform, hline, hreturn, htab, hnumber, mem_numbered,
    or_assoc]

theorem StringLiteral.escape_append (c : Char) {t : Text} {cs : List Char}
    (h : StringLiteral t cs) : StringLiteral (escape true (.ofChar c) ++ t) (c :: cs) := by
  by_cases hletter : ∃ p ∈ letterEscapes, p.1 ≠ 47 ∧ c = p.2
  · obtain ⟨p, hp, hsolidus, rfl⟩ := hletter
    rw [escape_of_letter hp hsolidus]
    exact .letter hp h
  · have hother : ∀ p ∈ letterEscapes, p.1 ≠ 47 → c ≠ p.2 :=
      fun p hp hsolidus heq => hletter ⟨p, hp, hsolidus, heq⟩
    rw [escape_of_other (TextChar.isBad_ofChar c)
      fun p hp hsolidus heq => hother p hp hsolidus (Char.toNat_inj.1 heq), TextChar.code_ofChar]
    split
    · rename_i hnumber
      obtain ⟨x₁, x₂, x₃, x₄, hhex, hvalue⟩ := hex_numbered hnumber
      rw [hhex]
      exact .code hvalue h
    · rename_i hplain
      rw [mem_numbered] at hplain
      exact .plain (by omega) (hother (34, '"') (by decide) (by decide))
        (hother (92, '\\') (by decide) (by decide)) h

theorem exists_literal_of_quoted (cs : List Char) :
    ∃ body, quoted true (cs.flatMap String.utf8EncodeChar) = 34 :: (body ++ [34]) ∧
      StringLiteral body cs := by
  refine ⟨(cs.map TextChar.ofChar).flatMap (escape true), ?_, ?_⟩
  · have hquote : txt "\"" = [34] := by decide
    rw [quoted, Text.chars_flatMap, hquote]
    rfl
  · induction cs with
    | nil => exact .nil
    | cons c cs ih =>
      rw [List.map_cons, List.flatMap_cons]
      exact ih.escape_append c

end Json

end RuleLang
