import RuleLang.Proofs.Indent.Formatted
import RuleLang.Proofs.Indent.Sections

/-!
# RuleLang.Proofs.Indent.FinalLineFeed

When a formatted text ends in a line feed.

A final line feed is never lost. It can be gained: a last line without line feed that is nothing
but white space and stands at the root becomes empty, and then the line feed before it is the
last byte (`formatText_gains_lineFeed`). This is the only way (`endsWith_formatText_iff`). Below
the root the new padding of such a line is not empty (`Style.indentation_eq_nil_iff`), and a
carriage return behind it stays.
-/

namespace RuleLang

/-! ## Lines that become empty -/

/-- While two levels fit in a signed 64-bit word, one or two levels are indented by something. -/
theorem Style.indentation_ne_nil {s : Style} (h : 2 * s.unitWidth < 0x8000000000000000) {n : Int}
    (hlow : 1 ≤ n) (hhigh : n ≤ 2) : s.indentation n ≠ [] := by
  have hwidth : 1 ≤ s.normalize.unitWidth ∧ 2 * s.normalize.unitWidth < 0x8000000000000000 := by
    unfold normalize
    split
    · simp [defaultWidth]
    · exact ⟨by omega, h⟩
  have hcount : indentCount n s.normalize.unitWidth ≠ 0 := by
    have hpos : 1 * 1 ≤ n * s.normalize.unitWidth :=
      Int.mul_le_mul hlow hwidth.1 (by omega) (by omega)
    have hfits : n * s.normalize.unitWidth ≤ 2 * s.normalize.unitWidth :=
      Int.mul_le_mul_of_nonneg_right hhigh (by omega)
    rw [indentCount, Int.bmod_eq_of_le (by omega) (by omega)]
    omega
  rw [indentation, if_neg (by omega)]
  split
  · simpa using hcount
  · have hpos : 0 < n := by omega
    simpa using hpos

theorem Style.indentation_eq_nil_iff {s : Style} (h : 2 * s.unitWidth < 0x8000000000000000)
    (d : Depth) : s.indentation d.level = [] ↔ d = .root := by
  cases d with
  | root => exact iff_of_true rfl rfl
  | rule => exact iff_of_false (indentation_ne_nil h (by decide) (by decide)) (by decide)
  | pattern => exact iff_of_false (indentation_ne_nil h (by decide) (by decide)) (by decide)

theorem reindent_eq_nil_iff (s : Style) (d : Depth) (raw : Text) :
    reindent s d raw = [] ↔ raw.trimLeft = [] ∧ s.indentation d.level = [] := by
  constructor
  · intro h
    have htrim := trimLeft_reindent s d raw
    have hlen := length_leadingChars_reindent s d raw
    rw [h] at htrim hlen
    exact ⟨htrim.symm, List.length_eq_zero_iff.1 hlen.symm⟩
  · rintro ⟨htrim, hindent⟩
    unfold reindent
    split
    · rename_i hlen
      rw [hindent, List.length_nil, List.length_eq_zero_iff] at hlen
      rw [← Text.ofChars_leadingChars_append raw, hlen, htrim]
      rfl
    · rw [hindent, htrim]
      rfl

theorem reindentRow_toPiece_eq_nil_iff {s : Style} (h : 2 * s.unitWidth < 0x8000000000000000)
    (d : Depth) (p : Text) :
    (reindentRow s d (Row.ofPiece p)).toPiece = [] ↔
      p.endsWith [13] = false ∧ p.trimLeft = [] ∧ d = .root := by
  rw [Row.toPiece_eq_nil_iff]
  show (Row.ofPiece p).cr = false ∧ reindent s d (Row.ofPiece p).body = [] ↔ _
  rw [Row.cr_ofPiece, reindent_eq_nil_iff, Style.indentation_eq_nil_iff h]
  exact and_congr_right fun hcr => by rw [Row.body_ofPiece hcr]

section LastLine

variable (c : Catalog) (s : Style)

/-- The last piece is formatted at the depth of the last line. -/
theorem formatPieces_append_last (ps : List Text) (p : Text) {d : Depth}
    (h : (Line.depths c .root (((ps ++ [p]).map Row.ofPiece).map Row.body)).getLast? = some d) :
    formatPieces c s (ps ++ [p]) =
      formatPieces c s ps ++ [(reindentRow s d (Row.ofPiece p)).toPiece] := by
  rw [List.map_append, List.map_append, Line.depths_append, List.map_singleton,
    List.map_singleton, Line.depths_cons] at h
  obtain rfl : depthAfter c (Line.carry c .root ((ps.map Row.ofPiece).map Row.body))
      (Row.ofPiece p).body.trimLeft = d :=
    Option.some.inj (List.getLast?_concat.symm.trans h)
  rw [formatPieces, List.map_append, reindentRows_append, List.map_append, ← formatPieces]
  rfl

theorem formatPieces_ne_nil_iff (ps : List Text) : formatPieces c s ps ≠ [] ↔ ps ≠ [] := by
  cases ps with
  | nil => simp [formatPieces, reindentRows]
  | cons p ps => simp [formatPieces, reindentRows_cons]

end LastLine

/-- **The final line feed.** A formatted text ends in a line feed if the text did, and else exactly
if the text ends in a line feed followed by white space, without a carriage return at its end, and
this last line stands at the root. -/
theorem endsWith_formatText_iff (c : Catalog) (t : Text) {s : Style}
    (hs : 2 * s.unitWidth < 0x8000000000000000) :
    (formatText c t s).endsWith [10] = true ↔
      t.endsWith [10] = true ∨
      ∃ last : Text, (∃ front, t = front ++ 10 :: last ∧ 10 ∉ last) ∧
        last ≠ [] ∧ last.trimLeft = [] ∧ last.endsWith [13] = false ∧
        ((Line.classifyAll c t.lines).map Line.depth).getLast? = some .root := by
  rcases t.cut_eq_concat with ⟨ps, h⟩ | ⟨ps, (p : Text), h, hp⟩
  · have hcut := cut_formatText_concat_nil c s h
    simp only [Text.endsWith_lineFeed_iff hcut, Text.endsWith_lineFeed_iff h,
      Text.eq_append_last_iff h, formatPieces_ne_nil_iff, and_true]
    constructor
    · exact .inl
    · rintro (hps | ⟨last, ⟨hps, -⟩, -⟩) <;> exact hps
  · have hlines := Text.lines_of_cut h hp
    have hne : Line.depths c .root t.lines ≠ [] := by
      rw [← List.length_pos_iff, Line.length_depths, hlines]
      simp
    obtain ⟨d, hd⟩ : ∃ d, (Line.depths c .root t.lines).getLast? = some d :=
      ⟨_, List.getLast?_eq_some_getLast hne⟩
    have hcut := cut_formatText c s h hp
    rw [formatPieces_append_last c s ps p (hlines ▸ hd)] at hcut
    have hdepth : ((Line.classifyAll c t.lines).map Line.depth).getLast? = some d := hd
    simp only [Text.endsWith_lineFeed_iff hcut, Text.endsWith_lineFeed_iff h,
      Text.eq_append_last_iff h, formatPieces_ne_nil_iff, reindentRow_toPiece_eq_nil_iff hs, hdepth,
      Option.some.injEq]
    constructor
    · rintro ⟨hps, hcr, htrim, hd⟩
      exact .inr ⟨p, ⟨hps, rfl⟩, hp, htrim, hcr, hd⟩
    · rintro (⟨-, hnil⟩ | ⟨last, ⟨hps, rfl⟩, -, htrim, hcr, hd⟩)
      · exact absurd hnil hp
      · exact ⟨hps, hcr, htrim, hd⟩

/-- The same white space behind a root's keyword and behind a rule's: the one line goes, the other
is padded. -/
theorem endsWith_formatText_iff_blank_last :
    let s : Style := { useSpaces := true, unitWidth := 4 }
    2 * s.unitWidth < 0x8000000000000000 ∧
    (formatText .builtin (txt "rules:\n\t ") s).endsWith [10] = true ∧
    (formatText .builtin (txt "rules:\n- id: a\n\t ") s).endsWith [10] = false := by
  intro s
  have hs : 2 * s.unitWidth < 0x8000000000000000 := by decide
  refine ⟨hs, ?_, ?_⟩
  · rw [endsWith_formatText_iff .builtin _ hs]
    exact .inr ⟨txt "\t ", ⟨txt "rules:", by decide +kernel, by decide +kernel⟩, by decide +kernel,
      by decide +kernel, by decide +kernel, by decide +kernel⟩
  · rw [Bool.eq_false_iff, Ne, endsWith_formatText_iff .builtin _ hs]
    rintro (h | ⟨-, -, -, -, -, h⟩)
    · revert h
      decide +kernel
    · revert h
      decide +kernel

/-- A text without final line feed that is formatted to one with it. -/
theorem formatText_gains_lineFeed :
    Catalog.ofTable Catalog.builtinTable = .ok .builtin ∧
    (txt "rules:\n  ").endsWith [10] = false ∧
    formatText .builtin (txt "rules:\n  ") {} = txt "rules:\n" ∧
    (formatText .builtin (txt "rules:\n  ") {}).endsWith [10] = true := by
  have htext : formatText .builtin (txt "rules:\n  ") {} = txt "rules:\n" := by decide +kernel
  refine ⟨Catalog.ofTable_builtinTable, by decide +kernel, htext, ?_⟩
  rw [htext]
  decide +kernel

end RuleLang
