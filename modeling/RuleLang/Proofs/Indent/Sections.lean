import RuleLang.Proofs.Indent.ClosedForm
import RuleLang.Proofs.Indent.FormatText

/-!
# RuleLang.Proofs.Indent.Sections

A text may be formatted section by section, if every section begins with a keyword.

* `Document.ofText_append`: behind a text that ends in a line feed, the lines of another text are
  the lines they were.
* `formatText_append`: the second text is indented after the depth that the first one leaves.
* `Line.depths_of_keyword`, `reindentRows_of_keyword`: a keyword line forgets that depth, for
  itself and for all lines after it.
* `formatText_append_of_keyword` puts them together.
-/

namespace RuleLang

/-! ## Lines of two texts -/

namespace Document

theorem rows_ne_nil {t : Text} (h : t ≠ []) : (ofText t).rows ≠ [] := by
  rcases t.cut_eq_concat with ⟨ps, hcut⟩ | ⟨ps, p, hcut, hp⟩
  · have hps : ps ≠ [] := by
      rintro rfl
      exact h (by rw [← Text.join_cut 10 t, hcut]; rfl)
    simpa [ofText_of_cut_concat_nil hcut] using hps
  · simp [ofText_of_cut hcut hp]

theorem ofText_closed (t : Text) :
    ofText (t ++ [10]) = ⟨(t.cut 10).map Row.ofPiece, true⟩ := by
  have hne : !(t.cut 10).isEmpty := by simpa using Text.cut_ne_nil 10 t
  rw [ofText_of_cut_concat_nil (Text.cut_append_sep 10 t), hne]

theorem ofText_append {front back : Text} (hfront : front.endsWith [10] = true)
    (hback : back ≠ []) :
    ofText (front ++ back) =
      ⟨(ofText front).rows ++ (ofText back).rows, (ofText back).closed⟩ := by
  obtain ⟨t, rfl⟩ := Text.endsWith_iff.1 hfront
  have hcut : (t ++ [10] ++ back).cut 10 = t.cut 10 ++ back.cut 10 := by
    rw [List.append_assoc, List.singleton_append, Text.cut_append_cons]
  rw [ofText_closed]
  -- the last piece of the whole is the last piece of `back`, so both are closed or both open
  rcases back.cut_eq_concat with ⟨ps, h⟩ | ⟨ps, p, h, hp⟩
  · have hps : ps ≠ [] := by simpa [ofText_of_cut_concat_nil h] using rows_ne_nil hback
    rw [h, ← List.append_assoc] at hcut
    have hempty : (t.cut 10 ++ ps).isEmpty = ps.isEmpty := by
      rw [List.isEmpty_eq_false_iff.2 hps,
        List.isEmpty_eq_false_iff.2 (List.append_ne_nil_of_right_ne_nil _ hps)]
    rw [ofText_of_cut_concat_nil hcut, ofText_of_cut_concat_nil h, List.map_append, hempty]
  · rw [h, ← List.append_assoc] at hcut
    rw [ofText_of_cut hcut hp, ofText_of_cut h hp, List.append_assoc, List.map_append]

theorem toText_append (closed : Bool) {rows rows' : List Row} (h : rows ≠ []) (h' : rows' ≠ []) :
    toText ⟨rows ++ rows', closed⟩ = toText ⟨rows, true⟩ ++ toText ⟨rows', closed⟩ := by
  have hjoin := Text.join_append [10] (mt List.map_eq_nil_iff.1 h : rows.map Row.toPiece ≠ [])
    (mt List.map_eq_nil_iff.1 h' : rows'.map Row.toPiece ≠ [])
  simp only [toText, List.map_append, hjoin, if_true, List.append_assoc]

end Document

theorem Text.lines_append {front : Text} (hfront : front = [] ∨ front.endsWith [10] = true)
    (back : Text) : (front ++ back).lines = front.lines ++ back.lines := by
  rcases hfront with rfl | hfront
  · rfl
  · by_cases hback : back = []
    · rw [hback, List.append_nil]
      exact (List.append_nil _).symm
    · rw [lines, Document.ofText_append hfront hback, Document.bodies, List.map_append]
      rfl

/-! ## Depths of two lists of lines -/

namespace Line

theorem depths_append (c : Catalog) (d : Depth) (lines lines' : List Text) :
    depths c d (lines ++ lines') = depths c d lines ++ depths c (carry c d lines) lines' := by
  induction lines generalizing d with
  | nil => rfl
  | cons raw rest ih =>
    rw [List.cons_append, depths_cons, ih, depths_cons, List.cons_append]
    rfl

theorem depths_of_keyword {c : Catalog} {raw : Text} {e : Entry}
    (h : c.match? raw.trimLeft = some e) (d d' : Depth) (rest : List Text) :
    depths c d (raw :: rest) = depths c d' (raw :: rest) := by
  rw [depths_cons, depths_cons, depthAfter_keyword d h, depthAfter_keyword d' h]

end Line

theorem reindentRows_append (c : Catalog) (s : Style) (d : Depth) (rows rows' : List Row) :
    reindentRows c s d (rows ++ rows') =
      reindentRows c s d rows ++ reindentRows c s (Line.carry c d (rows.map Row.body)) rows' := by
  have hlen : (Line.depths c d (rows.map Row.body)).length = rows.length := by simp
  rw [reindentRows, List.map_append, Line.depths_append, List.zipWith_append hlen]
  rfl

theorem reindentRows_of_keyword {c : Catalog} (s : Style) {rows : List Row} {raw : Text}
    {rest : List Text} {e : Entry} (hrows : rows.map Row.body = raw :: rest)
    (h : c.match? raw.trimLeft = some e) (d d' : Depth) :
    reindentRows c s d rows = reindentRows c s d' rows := by
  rw [reindentRows, reindentRows, hrows, Line.depths_of_keyword h d d']

theorem reindentRows_ne_nil (c : Catalog) (s : Style) (d : Depth) {rows : List Row}
    (h : rows ≠ []) : reindentRows c s d rows ≠ [] := by
  cases rows with
  | nil => exact absurd rfl h
  | cons r rows => simp [reindentRows_cons]

/-! ## Sections -/

theorem formatText_append (c : Catalog) (s : Style) {front back : Text}
    (hfront : front.endsWith [10] = true) (hback : back ≠ []) :
    formatText c (front ++ back) s =
      formatText c front s ++
        Document.toText ⟨reindentRows c s (Line.carry c .root front.lines)
          (Document.ofText back).rows, (Document.ofText back).closed⟩ := by
  have hne : front ≠ [] := by
    rintro rfl
    cases hfront
  have hclosed : (Document.ofText front).closed = true := by
    obtain ⟨t, rfl⟩ := Text.endsWith_iff.1 hfront
    rw [Document.ofText_closed]
  rw [formatText_eq_toText, Document.ofText_append hfront hback, reindentRows_append,
    Document.toText_append _ (reindentRows_ne_nil c s _ (Document.rows_ne_nil hne))
      (reindentRows_ne_nil c s _ (Document.rows_ne_nil hback)),
    formatText_eq_toText, hclosed]
  rfl

/-- **Keyword lines cut a text into independent sections.** What comes before a keyword line, up to
and including a line feed, changes neither its depth nor the depth of any line after it, and the
formatted text is the one section formatted and then the other. -/
theorem formatText_append_of_keyword (c : Catalog) (s : Style) {front back line : Text} {e : Entry}
    (hfront : front = [] ∨ front.endsWith [10] = true) (hline : back.lines.head? = some line)
    (hkey : c.match? line.trimLeft = some e) :
    formatText c (front ++ back) s = formatText c front s ++ formatText c back s ∧
    (Line.classifyAll c (front ++ back).lines).map Line.depth =
      (Line.classifyAll c front.lines).map Line.depth ++
        (Line.classifyAll c back.lines).map Line.depth := by
  obtain ⟨rest, hlines⟩ : ∃ rest, back.lines = line :: rest := List.head?_eq_some_iff.1 hline
  constructor
  · rcases hfront with rfl | hfront
    · rfl
    · have hback : back ≠ [] := by
        rintro rfl
        cases hline
      rw [formatText_append c s hfront hback, reindentRows_of_keyword s hlines hkey _ .root,
        ← formatText_eq_toText]
  · have hdepths := Line.depths_append c .root front.lines back.lines
    rw [← Text.lines_append hfront, hlines, Line.depths_of_keyword hkey _ .root, ← hlines]
      at hdepths
    exact hdepths

/-- The front leaves the depth of a pattern; the back begins with a rule's keyword, after a tab and
with a carriage return behind it. -/
theorem formatText_append_of_keyword_rule :
    let front := txt "rules:\n- id: a\n- x\r\n"
    let back := txt "\tfix: b\r\nc"
    front.endsWith [10] = true ∧ back.lines.head? = some (txt "\tfix: b") ∧
      (∃ e, Catalog.builtin.match? (txt "\tfix: b").trimLeft = some e) ∧
      formatText .builtin (front ++ back) {} =
        txt "rules:\n  - id: a\n    - x\r\n" ++ txt "  fix: b\r\n  c" := by
  intro front back
  have hfront : front.endsWith [10] = true := by decide +kernel
  have hline : back.lines.head? = some (txt "\tfix: b") := by decide +kernel
  have hkey : Catalog.builtin.match? (txt "\tfix: b").trimLeft =
      some (.ofRow .rule (Catalog.builtinRow "fix:" "fix: $REPLACEMENT"
        "Autofix replacement for the matched pattern")) := by decide +kernel
  have hfrontText : formatText .builtin front {} = txt "rules:\n  - id: a\n    - x\r\n" := by
    decide +kernel
  have hbackText : formatText .builtin back {} = txt "  fix: b\r\n  c" := by decide +kernel
  refine ⟨hfront, hline, ⟨_, hkey⟩, ?_⟩
  rw [(formatText_append_of_keyword .builtin {} (.inr hfront) hline hkey).1, hfrontText, hbackText]

end RuleLang
