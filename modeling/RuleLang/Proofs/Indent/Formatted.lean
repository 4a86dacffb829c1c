import RuleLang.Proofs.Indent.FormatText

/-!
# RuleLang.Proofs.Indent.Formatted

When a text is formatted already: exactly when its lines need no edits.

* `Edit.compute_eq_nil_iff`: lines need no edits if and only if reindenting leaves every line as it
  is.
* `formatText_eq_self_iff`: formatting leaves a text as it is if and only if its lines need no
  edits. A line that changes cannot hide behind its ending, because the rows of the formatted text
  are read back from its pieces.
* `compute_lines_formatText`: after formatting no edits are left.
-/

namespace RuleLang

theorem Edit.compute_eq_nil_iff (c : Catalog) (lines : List Text) (s : Style) :
    compute c lines s = [] ↔ reindentAll c s .root lines = lines := by
  constructor
  · intro h
    rw [← applyAll_compute, h]
    rfl
  · intro h
    rw [List.eq_nil_iff_forall_not_mem]
    intro e he
    obtain ⟨i, raw, d, hraw, hd, hne, -⟩ := (mem_compute c lines s e).1 he
    have hzip : (lines.zip (Line.depths c .root lines))[i]? = some (raw, d) :=
      List.getElem?_zip_eq_some.2 ⟨hraw, hd⟩
    have hline := getElem?_reindentAll c s .root lines i
    rw [h, hraw, hzip, Option.map_some, Option.some.injEq] at hline
    apply hne
    rw [hline]
    exact length_leadingChars_reindent s d raw

theorem reindentAll_reindentAll (c : Catalog) (s : Style) (carried : Depth)
    (lines : List Text) :
    reindentAll c s carried (reindentAll c s carried lines) = reindentAll c s carried lines := by
  induction lines generalizing carried with
  | nil => rfl
  | cons raw rest ih =>
    rw [reindentAll_cons, reindentAll_cons, trimLeft_reindent, reindent_reindent, ih]

theorem Document.withBodies_bodies (d : Document) : d.withBodies d.bodies = d := by
  have hrows : d.rows.zipWith (fun r b => { r with body := b }) (d.rows.map Row.body) = d.rows := by
    rw [List.zipWith_map_right, List.zipWith_self]
    exact List.map_id _
  rw [withBodies, bodies, hrows]

theorem formatText_eq_self_iff (c : Catalog) (t : Text) (s : Style) :
    formatText c t s = t ↔ Edit.compute c t.lines s = [] := by
  rw [Edit.compute_eq_nil_iff]
  constructor
  · intro h
    obtain ⟨ps, tail, hbefore, hlines, hafter⟩ := exists_cut_formatText c t s
    have hpieces : formatPieces c s ps = ps := by
      rw [h, hbefore] at hafter
      exact (List.append_cancel_right hafter).symm
    -- the rows are read back from the pieces, so they are the same rows
    have hrows := map_ofPiece_formatPieces c s ps
    rw [hpieces] at hrows
    have hbodies := congrArg (List.map Row.body) hrows
    rw [map_body_reindentRows, List.map_map] at hbodies
    rw [hlines]
    exact hbodies.symm
  · intro h
    have hbodies : reindentAll c s .root (Document.ofText t).bodies =
        (Document.ofText t).bodies := h
    rw [formatText, Edit.applyAll_compute, hbodies, Document.withBodies_bodies,
      Document.toText_ofText]

/-- The lines of pieces that end in an empty one, or in one that is a line. -/
theorem Text.lines_of_cut_concat_nil {t : Text} {ps : List Text} (h : t.cut 10 = ps ++ [[]]) :
    t.lines = (ps.map Row.ofPiece).map Row.body := by
  rw [lines, Document.ofText_of_cut_concat_nil h, Document.bodies]

theorem Text.lines_of_cut {t : Text} {ps : List Text} {p : Text} (h : t.cut 10 = ps ++ [p])
    (hp : p ≠ []) : t.lines = ((ps ++ [p]).map Row.ofPiece).map Row.body := by
  rw [lines, Document.ofText_of_cut h hp, Document.bodies]

/-- Formatted texts have reindented lines. -/
theorem exists_lines_formatText (c : Catalog) (t : Text) (s : Style) :
    ∃ lines, (formatText c t s).lines = reindentAll c s .root lines := by
  rcases t.cut_eq_concat with ⟨ps, h⟩ | ⟨ps, p, h, hp⟩
  · have hcut := cut_formatText_concat_nil c s h
    refine ⟨(ps.map Row.ofPiece).map Row.body, ?_⟩
    rw [Text.lines_of_cut_concat_nil hcut, map_ofPiece_formatPieces, map_body_reindentRows]
  · have hcut := cut_formatText c s h hp
    obtain ⟨p', hp'⟩ := formatPieces_concat c s ps p
    by_cases hlast : p' = []
    · -- the last line was white space at the root, and is no line any more
      rw [hp', hlast] at hcut
      refine ⟨(ps.map Row.ofPiece).map Row.body, ?_⟩
      rw [Text.lines_of_cut_concat_nil hcut, map_ofPiece_formatPieces, map_body_reindentRows]
    · rw [hp'] at hcut
      refine ⟨((ps ++ [p]).map Row.ofPiece).map Row.body, ?_⟩
      rw [Text.lines_of_cut hcut hlast, ← hp', map_ofPiece_formatPieces, map_body_reindentRows]

theorem compute_lines_formatText (c : Catalog) (t : Text) (s : Style) :
    Edit.compute c (formatText c t s).lines s = [] := by
  obtain ⟨lines, hlines⟩ := exists_lines_formatText c t s
  rw [hlines, Edit.compute_eq_nil_iff, reindentAll_reindentAll]

theorem formatText_formatText (c : Catalog) (s : Style) (t : Text) :
    formatText c (formatText c t s) s = formatText c t s :=
  (formatText_eq_self_iff c _ s).2 (compute_lines_formatText c t s)

end RuleLang
