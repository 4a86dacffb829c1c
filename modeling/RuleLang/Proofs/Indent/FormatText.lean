import RuleLang.Indent.Format
import RuleLang.Proofs.Text.Pieces
import RuleLang.Proofs.Indent.Reindent

/-!
# RuleLang.Proofs.Indent.FormatText

Re-indenting a whole text, seen on the pieces between its line feeds.

* `cut_formatText_concat_nil`, `cut_formatText`: formatting a text is formatting its pieces; an
  empty last piece is no line and stays.
* `formatText_idempotent`: a second pass changes nothing. The second pass may see one line less
  than the first: a last line of white space at the root becomes empty, and then it only closes
  the line before it.
* `formatText_frame`: nothing but leading white space is lost or added.
-/

namespace RuleLang

/-! ## What reindenting leaves alone -/

theorem not_mem_reindent (s : Style) (d : Depth) {raw : Text} (h : 10 ∉ raw) :
    10 ∉ reindent s d raw := by
  unfold reindent
  split
  · exact h
  · intro hmem
    rcases List.mem_append.1 hmem with hp | ht
    · exact (s.indentation_isPadding _).not_mem (by decide) (by decide) hp
    · rw [← Text.ofChars_leadingChars_append raw] at h
      exact h (List.mem_append_right _ ht)

/-- New padding never ends a line in a carriage return. -/
theorem endsWith_reindent (s : Style) (d : Depth) {raw : Text}
    (h : raw.endsWith [13] = false) : (reindent s d raw).endsWith [13] = false := by
  unfold reindent
  split
  · exact h
  · rw [Text.endsWith_padding_append (s.indentation_isPadding _)]
    rw [Bool.eq_false_iff, Ne, Text.endsWith_iff] at h ⊢
    rintro ⟨u, hu⟩
    refine h ⟨Text.ofChars raw.leadingChars ++ u, ?_⟩
    rw [List.append_assoc, hu, Text.ofChars_leadingChars_append]

/-! ## Rows -/

/-- A row whose body is brought to a depth; its ending stays. -/
def reindentRow (s : Style) (d : Depth) (r : Row) : Row := { r with body := reindent s d r.body }

theorem reindentRow_settled (s : Style) (d : Depth) {r : Row} (h : r.Settled) :
    (reindentRow s d r).Settled :=
  fun hcr => endsWith_reindent s d (h hcr)

/-- Every row brought to its own depth, after a line of depth `carried`. -/
def reindentRows (c : Catalog) (s : Style) (carried : Depth) (rows : List Row) : List Row :=
  List.zipWith (reindentRow s) (Line.depths c carried (rows.map Row.body)) rows

theorem reindentRows_cons (c : Catalog) (s : Style) (carried : Depth) (r : Row)
    (rows : List Row) :
    reindentRows c s carried (r :: rows) =
      reindentRow s (depthAfter c carried r.body.trimLeft) r ::
        reindentRows c s (depthAfter c carried r.body.trimLeft) rows := by
  rw [reindentRows, List.map_cons, Line.depths_cons, List.zipWith_cons_cons, ← reindentRows]

theorem map_body_reindentRows (c : Catalog) (s : Style) (carried : Depth) (rows : List Row) :
    (reindentRows c s carried rows).map Row.body =
      reindentAll c s carried (rows.map Row.body) := by
  induction rows generalizing carried with
  | nil => rfl
  | cons r rows ih =>
    rw [reindentRows_cons, List.map_cons, ih, List.map_cons, reindentAll_cons]
    rfl

theorem map_cr_reindentRows (c : Catalog) (s : Style) (carried : Depth) (rows : List Row) :
    (reindentRows c s carried rows).map Row.cr = rows.map Row.cr := by
  induction rows generalizing carried with
  | nil => rfl
  | cons r rows ih =>
    rw [reindentRows_cons, List.map_cons, ih, List.map_cons]
    rfl

/-- What holds of rows and is kept for one row at any depth is kept for all of them. -/
theorem forall_reindentRows {P : Row → Prop} {s : Style}
    (hstep : ∀ d r, P r → P (reindentRow s d r)) (c : Catalog) (carried : Depth)
    {rows : List Row} (h : ∀ r ∈ rows, P r) : ∀ r ∈ reindentRows c s carried rows, P r := by
  induction rows generalizing carried with
  | nil => exact h
  | cons r rows ih =>
    rw [reindentRows_cons]
    intro r' hr'
    rcases List.mem_cons.1 hr' with rfl | hr'
    · exact hstep _ r (h r List.mem_cons_self)
    · exact ih _ (fun x hx => h x (List.mem_cons_of_mem r hx)) r' hr'

theorem reindentRows_reindentRows (c : Catalog) (s : Style) (carried : Depth)
    (rows : List Row) :
    reindentRows c s carried (reindentRows c s carried rows) = reindentRows c s carried rows := by
  induction rows generalizing carried with
  | nil => rfl
  | cons r rows ih =>
    have hrow : ∀ d, reindentRow s d (reindentRow s d r) = reindentRow s d r := by
      intro d
      simp only [reindentRow, reindent_reindent]
    have htrim : ∀ d, (reindentRow s d r).body.trimLeft = r.body.trimLeft :=
      fun d => trimLeft_reindent s d r.body
    rw [reindentRows_cons, reindentRows_cons, htrim, hrow, ih]

theorem reindentRows_concat (c : Catalog) (s : Style) (carried : Depth) (rows : List Row)
    (r : Row) :
    ∃ d, reindentRows c s carried (rows ++ [r]) =
      reindentRows c s carried rows ++ [reindentRow s d r] := by
  induction rows generalizing carried with
  | nil => exact ⟨_, reindentRows_cons c s carried r []⟩
  | cons r' rows ih =>
    obtain ⟨d, hd⟩ := ih (depthAfter c carried r'.body.trimLeft)
    exact ⟨d, by rw [List.cons_append, reindentRows_cons, hd, reindentRows_cons, List.cons_append]⟩

theorem zipWith_reindentAll (c : Catalog) (s : Style) (carried : Depth) (rows : List Row) :
    rows.zipWith (fun r b => { r with body := b }) (reindentAll c s carried (rows.map Row.body)) =
      reindentRows c s carried rows := by
  induction rows generalizing carried with
  | nil => rfl
  | cons r rows ih =>
    rw [List.map_cons, reindentAll_cons, List.zipWith_cons_cons, ih, reindentRows_cons]
    rfl

/-- The formatter changes the rows of a document and nothing else. -/
theorem formatText_eq_toText (c : Catalog) (t : Text) (s : Style) :
    formatText c t s =
      Document.toText ⟨reindentRows c s .root (Document.ofText t).rows,
        (Document.ofText t).closed⟩ := by
  simp only [formatText, Document.withBodies, Document.bodies, Edit.applyAll_compute,
    zipWith_reindentAll]

/-! ## Pieces -/

/-- The pieces of lines, with every line brought to its own depth. -/
def formatPieces (c : Catalog) (s : Style) (ps : List Text) : List Text :=
  (reindentRows c s .root (ps.map Row.ofPiece)).map Row.toPiece

section Pieces

variable (c : Catalog) (s : Style)

/-- The rows of formatted pieces are read back from them. -/
theorem map_ofPiece_formatPieces (ps : List Text) :
    (formatPieces c s ps).map Row.ofPiece = reindentRows c s .root (ps.map Row.ofPiece) := by
  have hsettled : ∀ r ∈ reindentRows c s .root (ps.map Row.ofPiece), r.Settled := by
    apply forall_reindentRows fun d r h => reindentRow_settled s d h
    intro r hr
    obtain ⟨p, -, rfl⟩ := List.mem_map.1 hr
    exact Row.ofPiece_settled p
  rw [formatPieces, List.map_map]
  exact (List.map_congr_left fun r hr => Row.ofPiece_toPiece (hsettled r hr)).trans (List.map_id _)

theorem not_mem_formatPieces {ps : List Text} (h : ∀ p ∈ ps, 10 ∉ p) :
    ∀ p ∈ formatPieces c s ps, 10 ∉ p := by
  have hrows : ∀ r ∈ reindentRows c s .root (ps.map Row.ofPiece), 10 ∉ r.body := by
    apply forall_reindentRows (P := fun r => 10 ∉ r.body) fun d r hr => not_mem_reindent s d hr
    intro r hr
    obtain ⟨p, hp, rfl⟩ := List.mem_map.1 hr
    exact Row.not_mem_body_ofPiece (h p hp)
  intro p hp
  obtain ⟨r, hr, rfl⟩ := List.mem_map.1 hp
  exact Row.not_mem_toPiece (hrows r hr)

theorem formatPieces_formatPieces (ps : List Text) :
    formatPieces c s (formatPieces c s ps) = formatPieces c s ps := by
  rw [formatPieces, map_ofPiece_formatPieces, reindentRows_reindentRows, ← formatPieces]

theorem formatPieces_concat (ps : List Text) (p : Text) :
    ∃ p', formatPieces c s (ps ++ [p]) = formatPieces c s ps ++ [p'] := by
  obtain ⟨d, hd⟩ := reindentRows_concat c s .root (ps.map Row.ofPiece) (Row.ofPiece p)
  refine ⟨(reindentRow s d (Row.ofPiece p)).toPiece, ?_⟩
  rw [formatPieces, List.map_append, List.map_singleton, hd, List.map_append, List.map_singleton,
    ← formatPieces]

@[simp] theorem length_formatPieces (ps : List Text) :
    (formatPieces c s ps).length = ps.length := by
  simp [formatPieces, reindentRows]

theorem getElem?_formatPieces (ps : List Text) (i : Nat) :
    (formatPieces c s ps)[i]? =
      (ps.zip (Line.depths c .root (ps.map fun p => (Row.ofPiece p).body)))[i]?.map fun p =>
        (reindentRow s p.2 (Row.ofPiece p.1)).toPiece := by
  rw [formatPieces, reindentRows, List.map_map, List.getElem?_map, List.zipWith_map_right,
    List.zipWith_comm, ← List.map_uncurry_zip_eq_zipWith, List.getElem?_map, Option.map_map]
  rfl

theorem cut_formatText_concat_nil {t : Text} {ps : List Text} (h : t.cut 10 = ps ++ [[]]) :
    (formatText c t s).cut 10 = formatPieces c s ps ++ [[]] := by
  rw [formatText_eq_toText, Document.ofText_of_cut_concat_nil h]
  cases ps with
  | nil => rfl
  | cons p ps =>
    have hfree : ∀ q ∈ p :: ps, 10 ∉ q := by
      intro q hq
      have hcut : q ∈ t.cut 10 := h ▸ List.mem_append_left _ hq
      exact Text.not_mem_of_mem_cut hcut
    have hne : formatPieces c s (p :: ps) ≠ [] := by
      simp [formatPieces, reindentRows_cons]
    simp only [Document.toText, List.isEmpty_cons, Bool.not_false, if_true]
    rw [Text.cut_append_sep, ← formatPieces, Text.cut_join hne (not_mem_formatPieces c s hfree)]

theorem cut_formatText {t : Text} {ps : List Text} {p : Text} (h : t.cut 10 = ps ++ [p])
    (hp : p ≠ []) : (formatText c t s).cut 10 = formatPieces c s (ps ++ [p]) := by
  have hfree : ∀ q ∈ ps ++ [p], 10 ∉ q := fun q hq => Text.not_mem_of_mem_cut (h ▸ hq)
  have hne : formatPieces c s (ps ++ [p]) ≠ [] := by
    obtain ⟨p', hp'⟩ := formatPieces_concat c s ps p
    simp [hp']
  rw [formatText_eq_toText, Document.ofText_of_cut h hp]
  simp only [Document.toText, Bool.false_eq_true, if_false, List.append_nil]
  rw [← formatPieces, Text.cut_join hne (not_mem_formatPieces c s hfree)]

end Pieces

/-! ## Whole texts -/

/-- The pieces of a text end in an empty one or in one that is a line. -/
theorem Text.cut_eq_concat (t : Text) :
    (∃ ps, t.cut 10 = ps ++ [[]]) ∨ ∃ ps p, t.cut 10 = ps ++ [p] ∧ p ≠ [] := by
  obtain ⟨ps, p, hps⟩ := (List.eq_nil_or_concat (t.cut 10)).resolve_left (Text.cut_ne_nil 10 t)
  rw [List.concat_eq_append] at hps
  by_cases hp : p = []
  · exact .inl ⟨ps, hp ▸ hps⟩
  · exact .inr ⟨ps, p, hps, hp⟩

/-- **Formatting twice is formatting once.** -/
theorem formatText_idempotent (c : Catalog) (t : Text) (s : Style) :
    formatText c (formatText c t s) s = formatText c t s := by
  apply Text.eq_of_cut_eq 10
  rcases t.cut_eq_concat with ⟨ps, h⟩ | ⟨ps, p, h, hp⟩
  · have hfirst := cut_formatText_concat_nil c s h
    rw [cut_formatText_concat_nil c s hfirst, formatPieces_formatPieces, hfirst]
  · have hfirst := cut_formatText c s h hp
    obtain ⟨p', hp'⟩ := formatPieces_concat c s ps p
    rw [hp'] at hfirst
    by_cases hlast : p' = []
    · -- the last line was white space at the root, and is no line any more
      subst hlast
      rw [cut_formatText_concat_nil c s hfirst, formatPieces_formatPieces, hfirst]
    · rw [cut_formatText c s hfirst hlast, hfirst, ← hp', formatPieces_formatPieces]

/-! ## What stays -/

/-- The pieces `ps` are the lines of the text; what is left of its pieces holds no line. -/
theorem exists_cut_formatText (c : Catalog) (t : Text) (s : Style) :
    ∃ ps tail, t.cut 10 = ps ++ tail ∧ t.lines = ps.map (fun p => (Row.ofPiece p).body) ∧
      (formatText c t s).cut 10 = formatPieces c s ps ++ tail := by
  rcases t.cut_eq_concat with ⟨ps, h⟩ | ⟨ps, p, h, hp⟩
  · refine ⟨ps, [[]], h, ?_, cut_formatText_concat_nil c s h⟩
    rw [Text.lines, Document.ofText_of_cut_concat_nil h, Document.bodies, List.map_map]
    rfl
  · refine ⟨ps ++ [p], [], by rw [h, List.append_nil], ?_, ?_⟩
    · rw [Text.lines, Document.ofText_of_cut h hp, Document.bodies, List.map_map]
      rfl
    · rw [cut_formatText c s h hp, List.append_nil]

theorem map_cr_cut_formatText (c : Catalog) (t : Text) (s : Style) :
    ((formatText c t s).cut 10).map (fun p => (Row.ofPiece p).cr) =
      (t.cut 10).map fun p => (Row.ofPiece p).cr := by
  obtain ⟨ps, tail, hbefore, -, hafter⟩ := exists_cut_formatText c t s
  have hcr : (((formatText c t s).cut 10).map Row.ofPiece).map Row.cr
      = ((t.cut 10).map Row.ofPiece).map Row.cr := by
    rw [hbefore, hafter, List.map_append, List.map_append, map_ofPiece_formatPieces,
      List.map_append, List.map_append, map_cr_reindentRows]
  simpa only [List.map_map, Function.comp_def] using hcr

theorem map_trimLeft_cut_formatText (c : Catalog) (t : Text) (s : Style) :
    ((formatText c t s).cut 10).map (fun p => (Row.ofPiece p).body.trimLeft) =
      (t.cut 10).map fun p => (Row.ofPiece p).body.trimLeft := by
  obtain ⟨ps, tail, hbefore, -, hafter⟩ := exists_cut_formatText c t s
  have hbody : ((((formatText c t s).cut 10).map Row.ofPiece).map Row.body).map Text.trimLeft
      = (((t.cut 10).map Row.ofPiece).map Row.body).map Text.trimLeft := by
    rw [hbefore, hafter, List.map_append, List.map_append, map_ofPiece_formatPieces,
      List.map_append, List.map_append, map_body_reindentRows, List.map_append, List.map_append,
      map_trimLeft_reindentAll]
  simpa only [List.map_map, Function.comp_def] using hbody

theorem Text.ink_append (t : Text) {s : Text} (h : Utf8.Fresh s) :
    (t ++ s).ink = t.ink ++ s.ink := by
  rw [ink, chars_append t h, List.filter_append, ← ink, ← ink]

theorem Text.ink_lineFeed (t : Text) : ink (10 :: t) = t.ink := by
  rw [ink, chars_ascii_cons t (by decide)]
  rfl

theorem Text.ink_join (ps : List Text) : (join [10] ps).ink = ps.flatMap ink := by
  induction ps with
  | nil => rfl
  | cons p ps ih =>
    cases ps with
    | nil => simp [join, List.intercalate]
    | cons p' ps =>
      have hfresh : Utf8.Fresh (10 :: join [10] (p' :: ps)) := Utf8.fresh_cons _ (by decide)
      rw [join_cons_cons, List.append_assoc, List.singleton_append, ink_append p hfresh,
        ink_lineFeed, ih]
      exact List.flatMap_cons.symm

theorem Row.ink_toPiece (r : Row) : r.toPiece.ink = r.body.ink := by
  unfold toPiece
  split
  · rw [Text.ink_append _ (Utf8.fresh_cons [] (by decide))]
    exact List.append_nil _
  · rfl

/-- The visible characters of a text are those of its trimmed lines. -/
theorem Text.ink_eq_flatMap (t : Text) :
    t.ink = ((t.cut 10).map fun p => (Row.ofPiece p).body.trimLeft).flatMap ink := by
  conv_lhs => rw [← join_cut 10 t]
  rw [ink_join, List.flatMap_map]
  congr 1
  funext p
  rw [ink_trimLeft, ← Row.ink_toPiece, Row.toPiece_ofPiece]

/-- **Only leading white space changes.** Between the same line feeds stand the same lines but for
their leading white space, with the carriage returns they had. So the characters that are no
white space are the same, in the same order. -/
theorem formatText_frame (c : Catalog) (t : Text) (s : Style) :
    let t' := formatText c t s
    t'.count 10 = t.count 10 ∧
    (∀ (i : Nat) (p : Text), (t.cut 10)[i]? = some p → ∃ line line' cr : Text,
      cr = (if p.endsWith [13] then [13] else []) ∧ p = line ++ cr ∧
      (t'.cut 10)[i]? = some (line' ++ cr) ∧ line'.trimLeft = line.trimLeft) ∧
    (t'.cut 10).map (fun p => p.endsWith [13]) = (t.cut 10).map (fun p => p.endsWith [13]) ∧
    t'.chars.filter (fun r => !r.isBlank) = t.chars.filter (fun r => !r.isBlank) := by
  intro t'
  have hcr := map_cr_cut_formatText c t s
  have htrim := map_trimLeft_cut_formatText c t s
  refine ⟨?_, ?_, ?_, ?_⟩
  · have hlen := congrArg List.length hcr
    simp only [List.length_map, Text.length_cut] at hlen
    exact Nat.add_right_cancel hlen
  · intro i p hp
    have htrim_i := congrArg (fun l => l[i]?) htrim
    have hcr_i := congrArg (fun l => l[i]?) hcr
    simp only [List.getElem?_map, hp, Option.map_some] at htrim_i hcr_i
    obtain ⟨p', hp', htrim'⟩ := Option.map_eq_some_iff.1 htrim_i
    rw [hp', Option.map_some, Option.some.injEq] at hcr_i
    refine ⟨(Row.ofPiece p).body, (Row.ofPiece p').body, _, rfl, ?_, ?_, htrim'⟩
    · rw [← Row.cr_ofPiece, ← Row.toPiece_eq_append, Row.toPiece_ofPiece]
    · rw [← Row.cr_ofPiece, ← hcr_i, ← Row.toPiece_eq_append, Row.toPiece_ofPiece]
      exact hp'
  · simpa only [Row.cr_ofPiece] using hcr
  · have hink : t'.ink = t.ink := by rw [Text.ink_eq_flatMap, Text.ink_eq_flatMap, htrim]
    exact hink

end RuleLang
