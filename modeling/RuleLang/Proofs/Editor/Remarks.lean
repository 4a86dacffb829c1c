import RuleLang.Editor.Diagnostic
import RuleLang.Proofs.Indent.Formatted

/-!
# RuleLang.Proofs.Editor.Remarks

Remarks are made on exactly the lines that the formatter changes, blank lines apart.

* `Diagnostic.map_range_ofLine?`: what one classified line says, and
  `Diagnostic.map_range_collect` for all lines, in their order.
* `getElem?_cut_formatText`: a line and its piece of the text are changed by the formatter or
  left alone together, so no remark at all means that only blank lines change
  (`Diagnostic.collect_eq_nil_iff`).
* `Diagnostic.collect_agrees_with_formatter` is the whole.
-/

namespace RuleLang

/-! ## Lines that change -/

theorem Row.trimLeft_toPiece_eq_nil_iff (r : Row) :
    r.toPiece.trimLeft = [] ↔ r.body.trimLeft = [] := by
  rw [Text.trimLeft_eq_nil_iff, Row.ink_toPiece, Text.trimLeft_eq_nil_iff]

/-- The leading white space of line `i`, as editors count columns. -/
def Range.leading (i : Nat) (line : Text) : Range :=
  .inLine i 0 (line.utf16Col (line.length - line.trimLeft.length))

/-- Two lines at one place: is the first not blank, and the second another one? -/
def InkedChange (p : Text × Text) : Prop := p.1.trimLeft ≠ [] ∧ p.2 ≠ p.1

instance : DecidablePred InkedChange := fun _ => inferInstanceAs (Decidable (_ ∧ _))

/-- The lines that are not blank and are not the same afterwards, with their numbers. -/
def inkedChanges (lines lines' : List Text) : List (Nat × Text) :=
  ((lines.zip lines').zipIdx.filter fun p => InkedChange p.1).map fun p => (p.2, p.1.1)

theorem inkedChanges_eq_nil_iff (lines lines' : List Text) :
    inkedChanges lines lines' = [] ↔
      ∀ (i : Nat) (raw raw' : Text), lines[i]? = some raw → lines'[i]? = some raw' →
        raw' ≠ raw → raw.trimLeft = [] := by
  simp only [inkedChanges, List.map_eq_nil_iff, List.filter_eq_nil_iff, decide_eq_true_eq,
    List.mem_zipIdx_iff_getElem?, List.getElem?_zip_eq_some]
  constructor
  · intro h i raw raw' hraw hraw' hne
    by_contra hink
    exact h ((raw, raw'), i) ⟨hraw, hraw'⟩ ⟨hink, hne⟩
  · rintro h ⟨⟨raw, raw'⟩, i⟩ ⟨hraw, hraw'⟩ ⟨hink, hne⟩
    exact hink (h i raw raw' hraw hraw' hne)

/-! ## One remark for each change -/

namespace Diagnostic

theorem map_range_ofLine? (c : Catalog) (s : Style) (d : Depth) (i : Nat) (raw : Text) :
    (ofLine? s (Line.classify c d i raw)).map range =
      if InkedChange (raw, reindent s (depthAfter c d raw.trimLeft) raw)
        then some (.leading i raw) else none := by
  let l := Line.classify c d i raw
  by_cases hlen : l.leading = (s.indentation l.depth.level).length
  · have hsame : reindent s (depthAfter c d raw.trimLeft) raw = raw :=
      (reindent_eq_self_iff s _ raw).2 hlen
    rw [ofLine?, Edit.ofLine?_of_eq hlen, if_neg fun h => h.2 hsame]
    rfl
  · have hchange : reindent s (depthAfter c d raw.trimLeft) raw ≠ raw :=
      mt (reindent_eq_self_iff s _ raw).1 hlen
    rw [ofLine?, Edit.ofLine?_of_ne hlen]
    by_cases hblank : raw.trimLeft = []
    · rw [if_neg fun h => h.1 hblank]
      simp [Line.classify, hblank]
    · rw [if_pos ⟨hblank, hchange⟩]
      simp [l, Line.classify, hblank, Range.leading, Text.utf16Col_leading]

theorem map_range_classifyFrom (c : Catalog) (s : Style) (d : Depth) (i : Nat)
    (lines : List Text) :
    ((Line.classifyFrom c d i lines).filterMap (ofLine? s)).map range =
      (((lines.zip (reindentAll c s d lines)).zipIdx i).filter fun p => InkedChange p.1).map
        fun p => .leading p.2 p.1.1 := by
  induction lines generalizing d i with
  | nil => rfl
  | cons raw rest ih =>
    have hfirst := map_range_ofLine? c s d i raw
    rw [Line.classifyFrom, reindentAll_cons, List.zip_cons_cons, List.zipIdx_cons]
    by_cases hline : InkedChange (raw, reindent s (depthAfter c d raw.trimLeft) raw)
    · rw [if_pos hline, Option.map_eq_some_iff] at hfirst
      obtain ⟨remark, hremark, hrange⟩ := hfirst
      rw [List.filterMap_cons_some hremark, List.filter_cons_of_pos (by simpa using hline),
        List.map_cons, List.map_cons, hrange]
      exact congrArg _ (ih _ (i + 1))
    · rw [if_neg hline, Option.map_eq_none_iff] at hfirst
      rw [List.filterMap_cons_none hfirst, List.filter_cons_of_neg (by simpa using hline)]
      exact ih _ (i + 1)

theorem map_range_collect (c : Catalog) (t : Text) (s : Style) :
    (collect c t s).map range =
      (inkedChanges t.lines (reindentAll c s .root t.lines)).map fun p => .leading p.1 p.2 := by
  rw [collect, Line.classifyAll, map_range_classifyFrom, inkedChanges, List.map_map]
  rfl

end Diagnostic

/-! ## Lines and pieces -/

/-- The piece of a line, and what the formatter makes of it. -/
theorem getElem?_cut_formatText (c : Catalog) (t : Text) (s : Style) {i : Nat} {raw : Text}
    (h : t.lines[i]? = some raw) :
    ∃ (r : Row) (d : Depth), r.body = raw ∧ (t.cut 10)[i]? = some r.toPiece ∧
      (reindentAll c s .root t.lines)[i]? = some (reindent s d raw) ∧
      ((formatText c t s).cut 10)[i]? = some (reindentRow s d r).toPiece := by
  obtain ⟨ps, tail, hcut, hlines, hafter⟩ := exists_cut_formatText c t s
  obtain ⟨p, hp, rfl⟩ : ∃ p, ps[i]? = some p ∧ (Row.ofPiece p).body = raw := by
    rw [hlines, List.getElem?_map] at h
    exact Option.map_eq_some_iff.1 h
  have hi : i < ps.length := (List.getElem?_eq_some_iff.1 hp).1
  obtain ⟨d, hd⟩ : ∃ d, (Line.depths c .root t.lines)[i]? = some d := by
    have hlt : i < (Line.depths c .root t.lines).length := by simpa [hlines] using hi
    exact ⟨_, List.getElem?_eq_getElem hlt⟩
  refine ⟨Row.ofPiece p, d, rfl, ?_, ?_, ?_⟩
  · rw [hcut, List.getElem?_append_left hi, hp, Row.toPiece_ofPiece]
  · have hzip : (t.lines.zip (Line.depths c .root t.lines))[i]? =
        some ((Row.ofPiece p).body, d) := List.getElem?_zip_eq_some.2 ⟨h, hd⟩
    rw [getElem?_reindentAll, hzip]
    rfl
  · have hlen := length_formatPieces c s ps
    have hzip : (ps.zip (Line.depths c .root t.lines))[i]? = some (p, d) :=
      List.getElem?_zip_eq_some.2 ⟨hp, hd⟩
    rw [hafter, List.getElem?_append_left (hlen ▸ hi), getElem?_formatPieces, ← hlines, hzip]
    rfl

/-- Pieces that hold no line stay. -/
theorem getElem?_cut_formatText_of_le (c : Catalog) (t : Text) (s : Style) {i : Nat}
    (h : t.lines.length ≤ i) : ((formatText c t s).cut 10)[i]? = (t.cut 10)[i]? := by
  obtain ⟨ps, tail, hcut, hlines, hafter⟩ := exists_cut_formatText c t s
  have hlen := length_formatPieces c s ps
  rw [hlines, List.length_map] at h
  rw [hcut, hafter, List.getElem?_append_right h, List.getElem?_append_right (hlen ▸ h), hlen]

/-- A row and its piece change together. -/
theorem reindentRow_toPiece_eq_iff (s : Style) (d : Depth) (r : Row) :
    (reindentRow s d r).toPiece = r.toPiece ↔ reindent s d r.body = r.body := by
  rw [Row.toPiece_eq_append, Row.toPiece_eq_append]
  exact List.append_left_inj _

namespace Diagnostic

theorem collect_eq_nil_iff (c : Catalog) (t : Text) (s : Style) :
    collect c t s = [] ↔
      ∀ i : Nat, ((formatText c t s).cut 10)[i]? ≠ (t.cut 10)[i]? →
        ∃ p : Text, (t.cut 10)[i]? = some p ∧ p.trimLeft = [] := by
  rw [← List.map_eq_nil_iff, map_range_collect, List.map_eq_nil_iff, inkedChanges_eq_nil_iff]
  constructor
  · intro h i hne
    cases hraw : t.lines[i]? with
    | none =>
      exact absurd (getElem?_cut_formatText_of_le c t s (List.getElem?_eq_none_iff.1 hraw)) hne
    | some raw =>
      obtain ⟨r, d, rfl, hp, hraw', hp'⟩ := getElem?_cut_formatText c t s hraw
      have hchange : reindent s d r.body ≠ r.body := by
        rw [hp, hp', Ne, Option.some.injEq, reindentRow_toPiece_eq_iff] at hne
        exact hne
      exact ⟨r.toPiece, hp, r.trimLeft_toPiece_eq_nil_iff.2 (h i _ _ hraw hraw' hchange)⟩
  · intro h i raw raw' hraw hraw' hne
    obtain ⟨r, d, rfl, hp, hline', hp'⟩ := getElem?_cut_formatText c t s hraw
    obtain rfl : reindent s d r.body = raw' := Option.some.inj (hline'.symm.trans hraw')
    obtain ⟨p, hpiece, hblank⟩ := h i (by
      rw [hp, hp', Ne, Option.some.injEq, reindentRow_toPiece_eq_iff]
      exact hne)
    obtain rfl : r.toPiece = p := Option.some.inj (hp.symm.trans hpiece)
    exact r.trimLeft_toPiece_eq_nil_iff.1 hblank

/-- **Remarks and the formatter agree.** There is one remark for each line that is not blank and
that the edits change, in line order, and its range is the line's leading white space. So there is
none exactly if formatting the text changes blank lines only, and there is none on a formatted
text. -/
theorem collect_agrees_with_formatter (c : Catalog) (t : Text) (s : Style) :
    let lines' := Edit.applyAll t.lines (Edit.compute c t.lines s)
    lines'.length = t.lines.length ∧
    (collect c t s).map range = (inkedChanges t.lines lines').map (fun p => .leading p.1 p.2) ∧
    (collect c t s = [] ↔
      ∀ i : Nat, ((formatText c t s).cut 10)[i]? ≠ (t.cut 10)[i]? →
        ∃ p : Text, (t.cut 10)[i]? = some p ∧ p.trimLeft = []) ∧
    collect c (formatText c t s) s = [] := by
  intro lines'
  have hlines' : lines' = reindentAll c s .root t.lines := Edit.applyAll_compute c t.lines s
  refine ⟨?_, ?_, collect_eq_nil_iff c t s, ?_⟩
  · rw [hlines', length_reindentAll]
  · rw [hlines', map_range_collect]
  · -- a second formatting changes no piece at all
    rw [collect_eq_nil_iff, formatText_formatText]
    intro i hne
    exact absurd rfl hne

end Diagnostic

end RuleLang
