import Mathlib.Data.List.Perm.Subperm
import RuleLang.Indent.Edit
import RuleLang.Proofs.Text.LeadingSpace

/-!
# RuleLang.Proofs.Indent.Reindent

What the computed edits do to a list of lines, for every catalog, every style and any bytes.

* `Line.depths_congr`: depths depend on the lines without their leading white space only. So
  putting other white space in front of lines never moves a line to another depth.
* `reindent`: one line brought to its depth. It is the line itself, or padding in front of the
  trimmed line.
* `Edit.applyAll_compute`: the edits, applied one after another, reindent every line at its own
  depth.
* `Edit.applyAll_compute_postcondition` puts this together with the exact list of edits: one for
  every line that needs it, in line order, and no list of edits does with fewer.
-/

namespace RuleLang

theorem Style.indentation_isPadding (s : Style) (n : Int) : (s.indentation n).IsPadding := by
  intro b hb
  unfold Style.indentation at hb
  split at hb
  · simp at hb
  · split at hb
    · exact .inl (List.eq_of_mem_replicate hb)
    · exact .inr (List.eq_of_mem_replicate hb)

/-! ## Depths -/

namespace Line

/-- The depths of lines that follow a line of depth `carried`. -/
def depths (c : Catalog) (carried : Depth) (lines : List Text) : List Depth :=
  (classifyFrom c carried 0 lines).map depth

/-- Line numbers play no part in the depths. -/
theorem map_depth_classifyFrom (c : Catalog) (carried : Depth) (i j : Nat) (lines : List Text) :
    (classifyFrom c carried i lines).map depth = (classifyFrom c carried j lines).map depth := by
  induction lines generalizing carried i j with
  | nil => rfl
  | cons raw rest ih =>
    simp only [classifyFrom, List.map_cons]
    exact congrArg _ (ih _ (i + 1) (j + 1))

theorem depths_cons (c : Catalog) (carried : Depth) (raw : Text) (rest : List Text) :
    depths c carried (raw :: rest) =
      depthAfter c carried raw.trimLeft ::
        depths c (depthAfter c carried raw.trimLeft) rest := by
  simp only [depths, classifyFrom, List.map_cons]
  exact congrArg _ (map_depth_classifyFrom c _ 1 0 rest)

@[simp] theorem length_depths (c : Catalog) (carried : Depth) (lines : List Text) :
    (depths c carried lines).length = lines.length := by
  induction lines generalizing carried with
  | nil => rfl
  | cons raw rest ih => rw [depths_cons, List.length_cons, ih, List.length_cons]

theorem depths_congr (c : Catalog) {lines lines' : List Text}
    (h : lines.map Text.trimLeft = lines'.map Text.trimLeft) (carried : Depth) :
    depths c carried lines = depths c carried lines' := by
  induction lines generalizing lines' carried with
  | nil =>
    obtain rfl : lines' = [] := by simpa using h.symm
    rfl
  | cons raw rest ih =>
    cases lines' with
    | nil => simp at h
    | cons raw' rest' =>
      simp only [List.map_cons, List.cons.injEq] at h
      rw [depths_cons, depths_cons, h.1, ih h.2]

/-- The classified line at a place holds the text and the depth of that place. -/
theorem getElem?_classifyFrom (c : Catalog) (carried : Depth) (i : Nat) (lines : List Text)
    (k : Nat) :
    (classifyFrom c carried i lines)[k]? =
      (lines.zip (depths c carried lines))[k]?.map fun p =>
        { index := i + k, raw := p.1, leading := p.1.leadingChars.length, trimmed := p.1.trimLeft,
          depth := p.2 } := by
  induction lines generalizing carried i k with
  | nil => rfl
  | cons raw rest ih =>
    rw [classifyFrom, depths_cons, List.zip_cons_cons]
    cases k with
    | zero => rfl
    | succ k =>
      rw [List.getElem?_cons_succ, List.getElem?_cons_succ, ih, Nat.add_right_comm, Nat.add_assoc]
      rfl

theorem mem_classifyAll (c : Catalog) (lines : List Text) (l : Line) :
    l ∈ classifyAll c lines ↔ ∃ (i : Nat) (raw : Text) (d : Depth), lines[i]? = some raw ∧
      (depths c .root lines)[i]? = some d ∧
      l = ⟨i, raw, raw.leadingChars.length, raw.trimLeft, d⟩ := by
  rw [classifyAll, List.mem_iff_getElem?]
  simp only [getElem?_classifyFrom, Option.map_eq_some_iff, List.getElem?_zip_eq_some,
    Nat.zero_add]
  constructor
  · rintro ⟨i, p, ⟨hraw, hd⟩, rfl⟩
    exact ⟨i, p.1, p.2, hraw, hd, rfl⟩
  · rintro ⟨i, raw, d, hraw, hd, rfl⟩
    exact ⟨i, (raw, d), ⟨hraw, hd⟩, rfl⟩

theorem map_index_classifyFrom (c : Catalog) (carried : Depth) (i : Nat) (lines : List Text) :
    (classifyFrom c carried i lines).map index = List.range' i lines.length := by
  induction lines generalizing carried i with
  | nil => rfl
  | cons raw rest ih =>
    rw [classifyFrom, List.map_cons, ih, List.length_cons, List.range'_succ]
    rfl

end Line

/-! ## One line -/

/-- A line brought to a depth: it stays as it is if its leading white space has the right number
of characters, and gets new padding otherwise. -/
def reindent (s : Style) (d : Depth) (raw : Text) : Text :=
  if raw.leadingChars.length = (s.indentation d.level).length then raw
  else s.indentation d.level ++ raw.trimLeft

@[simp] theorem trimLeft_reindent (s : Style) (d : Depth) (raw : Text) :
    (reindent s d raw).trimLeft = raw.trimLeft := by
  unfold reindent
  split
  · rfl
  · rw [Text.trimLeft_padding_append _ (s.indentation_isPadding _), Text.trimLeft_trimLeft]

theorem length_leadingChars_reindent (s : Style) (d : Depth) (raw : Text) :
    (reindent s d raw).leadingChars.length = (s.indentation d.level).length := by
  unfold reindent
  split
  · rename_i h; exact h
  · exact Text.length_leadingChars_padding raw (s.indentation_isPadding _)

@[simp] theorem reindent_reindent (s : Style) (d : Depth) (raw : Text) :
    reindent s d (reindent s d raw) = reindent s d raw := by
  conv_lhs => rw [reindent]
  rw [if_pos (length_leadingChars_reindent s d raw)]

theorem reindent_eq_self_iff (s : Style) (d : Depth) (raw : Text) :
    reindent s d raw = raw ↔ raw.leadingChars.length = (s.indentation d.level).length := by
  constructor
  · intro h
    rw [← length_leadingChars_reindent s d raw, h]
  · intro h
    rw [reindent, if_pos h]

/-! ## All lines -/

/-- Every line brought to its own depth. -/
def reindentAll (c : Catalog) (s : Style) (carried : Depth) (lines : List Text) : List Text :=
  List.zipWith (reindent s) (Line.depths c carried lines) lines

theorem reindentAll_cons (c : Catalog) (s : Style) (carried : Depth) (raw : Text)
    (rest : List Text) :
    reindentAll c s carried (raw :: rest) =
      reindent s (depthAfter c carried raw.trimLeft) raw ::
        reindentAll c s (depthAfter c carried raw.trimLeft) rest := by
  rw [reindentAll, Line.depths_cons, List.zipWith_cons_cons, ← reindentAll]

@[simp] theorem length_reindentAll (c : Catalog) (s : Style) (carried : Depth)
    (lines : List Text) : (reindentAll c s carried lines).length = lines.length := by
  simp [reindentAll]

theorem getElem?_reindentAll (c : Catalog) (s : Style) (carried : Depth) (lines : List Text)
    (i : Nat) :
    (reindentAll c s carried lines)[i]? =
      (lines.zip (Line.depths c carried lines))[i]?.map fun p => reindent s p.2 p.1 := by
  rw [reindentAll, List.zipWith_comm, ← List.map_uncurry_zip_eq_zipWith, List.getElem?_map]
  rfl

theorem map_trimLeft_reindentAll (c : Catalog) (s : Style) (carried : Depth)
    (lines : List Text) :
    (reindentAll c s carried lines).map Text.trimLeft = lines.map Text.trimLeft := by
  induction lines generalizing carried with
  | nil => rfl
  | cons raw rest ih => rw [reindentAll_cons, List.map_cons, trimLeft_reindent, ih, List.map_cons]

theorem depths_reindentAll (c : Catalog) (s : Style) (carried : Depth) (lines : List Text) :
    Line.depths c carried (reindentAll c s carried lines) = Line.depths c carried lines :=
  Line.depths_congr c (map_trimLeft_reindentAll c s carried lines) carried

/-- Every line has as many leading characters as its depth asks for. -/
def Indented (s : Style) (depths : List Depth) (lines : List Text) : Prop :=
  ∀ (i : Nat) (raw : Text) (d : Depth), lines[i]? = some raw → depths[i]? = some d →
    raw.leadingChars.length = (s.indentation d.level).length

/-! ## The edits -/

namespace Edit

/-- An edit that does not name line `i` leaves it alone. -/
theorem getElem?_apply_of_ne (lines : List Text) {e : Edit} {i : Nat} (h : e.line ≠ i) :
    (apply lines e)[i]? = lines[i]? := by
  unfold apply
  split
  · rfl
  · rename_i hneg
    exact List.getElem?_modify_ne _ _ (by omega)

theorem getElem?_applyAll_of_ne (lines : List Text) {es : List Edit} {i : Nat}
    (h : ∀ e ∈ es, e.line ≠ i) : (applyAll lines es)[i]? = lines[i]? := by
  induction es generalizing lines with
  | nil => rfl
  | cons e es ih =>
    have hstep := getElem?_apply_of_ne lines (h e (by simp))
    have hrest := ih (apply lines e) fun e' he' => h e' (by simp [he'])
    exact hrest.trans hstep

theorem modify_length_append (front : List Text) (raw : Text) (rest : List Text)
    (f : Text → Text) :
    (front ++ raw :: rest).modify front.length f = front ++ f raw :: rest := by
  induction front with
  | nil => rfl
  | cons l front ih => simp [ih]

/-- The leading white space, taken as a range of columns and replaced. -/
theorem replaceIn_leading (line : Int) (raw target : Text) :
    replaceIn ⟨line, 0, raw.leadingChars.length, target⟩ raw = target ++ raw.trimLeft := by
  simp only [replaceIn, Text.charOffset_zero, Nat.zero_max, Text.drop_charOffset_leading,
    List.take_zero, List.nil_append]

theorem ofLine?_of_eq {s : Style} {l : Line}
    (h : l.leading = (s.indentation l.depth.level).length) : ofLine? s l = none :=
  if_pos h.symm

theorem ofLine?_of_ne {s : Style} {l : Line}
    (h : l.leading ≠ (s.indentation l.depth.level).length) :
    ofLine? s l = some ⟨l.index, 0, l.leading, s.indentation l.depth.level⟩ :=
  if_neg fun h' => h h'.symm

theorem ofLine?_eq_some {s : Style} {l : Line} {e : Edit} (h : ofLine? s l = some e) :
    l.leading ≠ (s.indentation l.depth.level).length ∧
      e = ⟨l.index, 0, l.leading, s.indentation l.depth.level⟩ := by
  by_cases hl : l.leading = (s.indentation l.depth.level).length
  · rw [ofLine?_of_eq hl] at h
    cases h
  · rw [ofLine?_of_ne hl] at h
    cases h
    exact ⟨hl, rfl⟩

/-- What the edit of a classified line does, if it has one. -/
theorem applyAll_ofLine? (c : Catalog) (s : Style) (carried : Depth) (front : List Text)
    (raw : Text) (rest : List Text) :
    applyAll (front ++ raw :: rest) (ofLine? s (Line.classify c carried front.length raw)).toList =
      front ++ reindent s (depthAfter c carried raw.trimLeft) raw :: rest := by
  by_cases h : raw.leadingChars.length
      = (s.indentation (depthAfter c carried raw.trimLeft).level).length
  · rw [ofLine?_of_eq (l := Line.classify c carried front.length raw) h, reindent, if_pos h]
    rfl
  · rw [ofLine?_of_ne (l := Line.classify c carried front.length raw) h, reindent, if_neg h]
    simp only [Option.toList_some, applyAll, List.foldl_cons, List.foldl_nil, apply,
      Line.classify, Int.toNat_natCast]
    rw [if_neg (by omega), modify_length_append, replaceIn_leading]

/-- The edits of the lines from `front` on, when the lines of `front` are done. -/
theorem applyAll_classifyFrom (c : Catalog) (s : Style) (carried : Depth) (front rest : List Text) :
    applyAll (front ++ rest)
        ((Line.classifyFrom c carried front.length rest).filterMap (ofLine? s)) =
      front ++ reindentAll c s carried rest := by
  induction rest generalizing carried front with
  | nil => rfl
  | cons raw rest ih =>
    have hstep := applyAll_ofLine? c s carried front raw rest
    have hrest := ih (depthAfter c carried raw.trimLeft)
      (front ++ [reindent s (depthAfter c carried raw.trimLeft) raw])
    rw [List.length_append, List.length_singleton, List.append_assoc, List.append_assoc] at hrest
    rw [reindentAll_cons, Line.classifyFrom, List.filterMap_eq_flatMap_toList, List.flatMap_cons,
      ← List.filterMap_eq_flatMap_toList, applyAll, List.foldl_append, ← applyAll, ← applyAll,
      hstep]
    exact hrest

theorem applyAll_compute (c : Catalog) (lines : List Text) (s : Style) :
    applyAll lines (compute c lines s) = reindentAll c s .root lines :=
  applyAll_classifyFrom c s .root [] lines

/-- Exactly the lines with the wrong number of leading characters have an edit. -/
theorem mem_compute (c : Catalog) (lines : List Text) (s : Style) (e : Edit) :
    e ∈ compute c lines s ↔ ∃ (i : Nat) (raw : Text) (d : Depth), lines[i]? = some raw ∧
      (Line.depths c .root lines)[i]? = some d ∧
      raw.leadingChars.length ≠ (s.indentation d.level).length ∧
      e = ⟨i, 0, raw.leadingChars.length, s.indentation d.level⟩ := by
  rw [compute, List.mem_filterMap]
  constructor
  · rintro ⟨l, hl, he⟩
    obtain ⟨i, raw, d, hraw, hd, rfl⟩ := (Line.mem_classifyAll c lines l).1 hl
    obtain ⟨hne, rfl⟩ := ofLine?_eq_some he
    exact ⟨i, raw, d, hraw, hd, hne, rfl⟩
  · rintro ⟨i, raw, d, hraw, hd, hne, rfl⟩
    exact ⟨_, (Line.mem_classifyAll c lines _).2 ⟨i, raw, d, hraw, hd, rfl⟩, ofLine?_of_ne hne⟩

theorem compute_pairwise (c : Catalog) (lines : List Text) (s : Style) :
    (compute c lines s).Pairwise fun e e' => e.line < e'.line := by
  have hindex : (Line.classifyAll c lines).Pairwise fun l l' => l.index < l'.index := by
    rw [← List.pairwise_map, Line.classifyAll, Line.map_index_classifyFrom]
    exact List.pairwise_lt_range'
  refine List.Pairwise.filterMap _ ?_ hindex
  intro l l' hlt e he e' he'
  obtain ⟨-, rfl⟩ := ofLine?_eq_some he
  obtain ⟨-, rfl⟩ := ofLine?_eq_some he'
  exact Int.ofNat_lt.2 hlt

/-- Lines that end up with the right number of leading characters were edited if they had the
wrong number, so no list of edits is shorter. -/
theorem length_compute_le (c : Catalog) (lines : List Text) (s : Style) {es : List Edit}
    (h : Indented s (Line.depths c .root lines) (applyAll lines es)) :
    (compute c lines s).length ≤ es.length := by
  have hsub : (compute c lines s).map line ⊆ es.map line := by
    intro n hn
    obtain ⟨e, he, rfl⟩ := List.mem_map.1 hn
    obtain ⟨i, raw, d, hraw, hd, hne, rfl⟩ := (mem_compute c lines s e).1 he
    by_contra hmissing
    have hframe : (applyAll lines es)[i]? = lines[i]? := by
      apply getElem?_applyAll_of_ne
      intro e' he' heq
      exact hmissing (List.mem_map.2 ⟨e', he', heq⟩)
    exact hne (h i raw d (hframe.trans hraw) hd)
  have hnodup : ((compute c lines s).map line).Nodup := by
    rw [List.Nodup, List.pairwise_map]
    exact (compute_pairwise c lines s).imp fun hlt heq => by omega
  simpa using (hnodup.subperm hsub).length_le

/-- **Formatting postcondition.** After the edits, every line has the text, the depth and the
number of leading characters it should have, and lines that were right before are the same bytes.
The edits are one per line that was wrong, in line order, and as few as possible. -/
theorem applyAll_compute_postcondition (c : Catalog) (lines : List Text) (s : Style) :
    let depths := (Line.classifyAll c lines).map Line.depth
    let edits := compute c lines s
    let result := applyAll lines edits
    result.length = lines.length ∧
    (∀ (i : Nat) (raw : Text), lines[i]? = some raw → ∃ (d : Depth) (raw' : Text),
      depths[i]? = some d ∧ result[i]? = some raw' ∧
      raw'.trimLeft = raw.trimLeft ∧
      ((Line.classifyAll c result).map Line.depth)[i]? = some d ∧
      raw'.leadingChars.length = (s.indentation d.level).length ∧
      raw' = if raw.leadingChars.length = (s.indentation d.level).length then raw
        else s.indentation d.level ++ raw.trimLeft) ∧
    edits.Pairwise (fun e e' => e.line < e'.line) ∧
    (∀ e, e ∈ edits ↔ ∃ (i : Nat) (raw : Text) (d : Depth),
      lines[i]? = some raw ∧ depths[i]? = some d ∧
      raw.leadingChars.length ≠ (s.indentation d.level).length ∧
      e = { line := i, start := 0, stop := raw.leadingChars.length,
            text := s.indentation d.level }) ∧
    (∀ others : List Edit, Indented s depths (applyAll lines others) →
      edits.length ≤ others.length) := by
  intro depths edits result
  have hresult : result = reindentAll c s .root lines := applyAll_compute c lines s
  refine ⟨?_, ?_, compute_pairwise c lines s, mem_compute c lines s,
    fun others h => length_compute_le c lines s h⟩
  · rw [hresult, length_reindentAll]
  · intro i raw hraw
    obtain ⟨d, hd⟩ : ∃ d, depths[i]? = some d := by
      have hlt := (List.getElem?_eq_some_iff.1 hraw).1
      have hlen : depths.length = lines.length := Line.length_depths c .root lines
      exact ⟨depths[i], List.getElem?_eq_getElem (by omega)⟩
    have hzip : (lines.zip depths)[i]? = some (raw, d) :=
      List.getElem?_zip_eq_some.2 ⟨hraw, hd⟩
    refine ⟨d, reindent s d raw, hd, ?_, trimLeft_reindent s d raw, ?_,
      length_leadingChars_reindent s d raw, rfl⟩
    · rw [hresult, getElem?_reindentAll]
      exact congrArg (Option.map _) hzip
    · have hdepths : (Line.classifyAll c result).map Line.depth = depths := by
        rw [hresult]
        exact depths_reindentAll c s .root lines
      rw [hdepths, hd]

end Edit

end RuleLang
