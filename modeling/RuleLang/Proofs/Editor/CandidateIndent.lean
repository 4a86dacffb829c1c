import RuleLang.Editor.Diagnostic
import RuleLang.Proofs.Indent.ClosedForm
import RuleLang.Proofs.Indent.Formatted
import RuleLang.Proofs.Text.Trimming

/-!
# RuleLang.Proofs.Editor.CandidateIndent

A keyword snippet that is taken over from the candidates is indented as the formatter wants it.

The candidates put the spaces of the entry's depth in front of a snippet, and these spaces stand in
front of its first line (`Text.head?_lines_padding_append`). The formatter does not know which entry
the snippet belongs to. It looks for a keyword that begins the line, and may find another one; but
keywords of a valid catalog that begin one line have one depth (`Catalog.Valid.exists_match?`), so the
line is placed at the depth of the entry and needs no edit (`Catalog.candidates_indented`).
-/

namespace RuleLang

/-! ## The first line of a text -/

namespace Text

theorem cut_append_of_not_mem {sep : UInt8} {p : Text} (h : sep ∉ p) (t : Text) :
    cut sep (p ++ t) = (cut sep t).modifyHead (p ++ ·) := by
  induction p with
  | nil => cases hc : cut sep t <;> simp [hc]
  | cons b p ih =>
    rw [List.mem_cons, not_or] at h
    have hb : ¬ b = sep := fun heq => h.1 heq.symm
    rw [List.cons_append, cut, if_neg hb, ih h.2]
    cases hc : cut sep t with
    | nil => exact absurd hc (cut_ne_nil sep t)
    | cons l ls => rfl

theorem head?_lines {t : Text} (h : t ≠ []) :
    t.lines.head? = (t.cut 10).head?.map fun p => (Row.ofPiece p).body := by
  rcases t.cut_eq_concat with ⟨ps, hcut⟩ | ⟨ps, p, hcut, hp⟩
  · cases ps with
    | nil =>
      -- one empty piece is the empty text
      have hnil := join_cut 10 t
      rw [hcut] at hnil
      exact absurd hnil.symm h
    | cons p ps =>
      rw [lines_of_cut_concat_nil hcut, hcut]
      rfl
  · rw [lines_of_cut hcut hp, hcut, List.map_map, List.head?_map]
    rfl

theorem body_ofPiece_padding_append {p : Text} (hp : IsPadding p) (q : Text) :
    (Row.ofPiece (p ++ q)).body = p ++ (Row.ofPiece q).body := by
  have hcr := endsWith_padding_append hp q
  by_cases hq : q.endsWith [13] = true
  · have hne : q ≠ [] := by
      rintro rfl
      cases hq
    rw [Row.ofPiece, if_pos (hcr.trans hq), Row.ofPiece, if_pos hq]
    exact List.dropLast_append_of_ne_nil hne
  · rw [Row.ofPiece, if_neg (by rwa [hcr]), Row.ofPiece, if_neg hq]

theorem ne_nil_of_head?_lines {t line : Text} (h : t.lines.head? = some line) : t ≠ [] := by
  rintro rfl
  cases h

theorem head?_lines_padding_append {p t line : Text} (hp : IsPadding p)
    (h : t.lines.head? = some line) : (p ++ t).lines.head? = some (p ++ line) := by
  have ht := ne_nil_of_head?_lines h
  have hpt : p ++ t ≠ [] := List.append_ne_nil_of_right_ne_nil p ht
  rw [head?_lines ht, Option.map_eq_some_iff] at h
  obtain ⟨q, hq, rfl⟩ := h
  have hfeed : 10 ∉ p := hp.not_mem (by decide) (by decide)
  rw [head?_lines hpt, cut_append_of_not_mem hfeed, List.head?_modifyHead, hq, Option.map_some,
    Option.map_some, body_ofPiece_padding_append hp]

theorem not_mem_of_head?_lines {t line : Text} (h : t.lines.head? = some line) : 10 ∉ line := by
  have ht := ne_nil_of_head?_lines h
  rw [head?_lines ht, Option.map_eq_some_iff] at h
  obtain ⟨q, hq, rfl⟩ := h
  exact Row.not_mem_body_ofPiece (not_mem_of_mem_cut (List.mem_of_head? hq))

/-- A line with a full ending is the only line of its text. -/
theorem lines_append_ending {line : Text} (h : 10 ∉ line) : (line ++ txt "\r\n").lines = [line] := by
  have hcut : (line ++ txt "\r\n").cut 10 = [line ++ [13]] ++ [[]] := by
    have hpiece : 10 ∉ line ++ [13] := by simp [h]
    have hlast := cut_append_sep 10 (line ++ [13])
    rw [cut_of_not_mem hpiece, List.append_assoc] at hlast
    exact hlast
  have hbody : (Row.ofPiece (line ++ [13])).body = line := by
    rw [Row.ofPiece, if_pos (endsWith_iff.2 ⟨line, rfl⟩), List.dropLast_concat]
  rw [lines_of_cut_concat_nil hcut]
  simp [hbody]

/-- So is a line without ending, unless its last byte would be taken for one. -/
theorem lines_of_not_mem {line : Text} (h : 10 ∉ line) (hne : line ≠ [])
    (hcr : line.endsWith [13] = false) : line.lines = [line] := by
  have hcut : line.cut 10 = [] ++ [line] := cut_of_not_mem h
  rw [lines_of_cut hcut hne]
  simp [Row.body_ofPiece hcr]

end Text

/-! ## The entry that is found -/

/-- A keyword that begins a line is found, or another one of its depth. -/
theorem Catalog.Valid.exists_match? {c : Catalog} (h : c.Valid) {e : Entry} (he : e ∈ c.entries)
    {line : Text} (hline : line.startsWith e.stem = true) :
    ∃ e', c.match? line = some e' ∧ e'.depth = e.depth := by
  cases hm : c.match? line with
  | none =>
    simp only [match?, List.find?_eq_none] at hm
    exact absurd hline (hm e he)
  | some e' =>
    obtain ⟨he', hline'⟩ := match?_eq_some hm
    exact ⟨e', rfl, h.depth_eq he' he hline' hline⟩

/-! ## One line -/

/-- While two levels fit in a signed 64-bit word, the spaces of a depth are as many as the product
says. -/
theorem indentCount_of_fits {w : Int} (hw : 1 ≤ w) (hfits : 2 * w < 0x8000000000000000) (d : Depth) :
    indentCount d.level w = d.level * w.toNat := by
  have hlow : 0 ≤ (d.level : Int) * w ∧ (d.level : Int) * w < 0x8000000000000000 := by
    cases d <;> simp only [Depth.level] <;> omega
  rw [indentCount, Int.bmod_eq_of_le (by omega) (by omega), Int.toNat_mul (by omega) (by omega),
    Int.toNat_natCast]

theorem Style.indentation_of_fits {w : Int} (hw : 1 ≤ w) (hfits : 2 * w < 0x8000000000000000)
    (d : Depth) :
    ({ useSpaces := true, unitWidth := w } : Style).indentation d.level =
      List.replicate (d.level * w.toNat) 32 := by
  have hnormal : ({ useSpaces := true, unitWidth := w } : Style).normalize.unitWidth = w := by
    rw [normalize, if_neg (by dsimp only; omega)]
  unfold indentation
  split
  · rename_i hroot
    have hlevel : d.level = 0 := by omega
    rw [hlevel, Nat.zero_mul]
    rfl
  · rw [if_pos rfl, hnormal, indentCount_of_fits hw hfits]

section OneLine

variable {c : Catalog} {s : Style} {first : Text} {e : Entry}

/-- A line whose keyword stands behind the padding of its depth. -/
theorem Line.classifyAll_padded {p : Text} (hp : p.IsPadding) (hblank : first.leadingChars = [])
    (hmatch : c.match? first = some e) :
    classifyAll c [p ++ first] = [⟨0, p ++ first, p.length, first, e.depth⟩] := by
  have htrim : (p ++ first).trimLeft = first := by
    rw [Text.trimLeft_padding_append first hp, Text.trimLeft_of_leadingChars hblank]
  have hleading : (p ++ first).leadingChars.length = p.length := by
    rw [Text.leadingChars_padding_append first hp, hblank, List.append_nil, Text.chars_ascii hp.ascii,
      List.length_map]
  rw [classifyAll, classifyFrom, classify, htrim, hleading, depthAfter_keyword _ hmatch]
  rfl

theorem Edit.compute_padded (hblank : first.leadingChars = []) (hmatch : c.match? first = some e) :
    compute c [s.indentation e.depth.level ++ first] s = [] := by
  rw [compute, Line.classifyAll_padded (s.indentation_isPadding _) hblank hmatch]
  simp [Edit.ofLine?]

theorem Diagnostic.collect_padded (hblank : first.leadingChars = [])
    (hmatch : c.match? first = some e) {text : Text}
    (htext : text.lines = [s.indentation e.depth.level ++ first]) : collect c text s = [] := by
  rw [collect, htext, Line.classifyAll_padded (s.indentation_isPadding _) hblank hmatch]
  simp [Diagnostic.ofLine?, Edit.ofLine?]

end OneLine

/-- The candidate of an entry has the entry's index. -/
theorem Catalog.getElem?_candidates {c : Catalog} {i : Nat} {e : Entry} (he : c.entries[i]? = some e)
    (w : Int) :
    (c.candidates w)[i]? = some
      { label := e.label
        kind := .keyword
        insert := List.replicate (indentCount e.depth.level (max w 0)) 32 ++ e.snippet
        docs := e.docs } := by
  have hi : i < c.entries.length := (List.getElem?_eq_some_iff.1 he).1
  simp only [candidates, List.append_assoc]
  rw [List.getElem?_append_left (by rwa [List.length_map]), List.getElem?_map, he]
  rfl

/-- **An accepted keyword snippet is indented already.** In a catalog that is built from a table, let
the first line of the snippet of an entry begin with the entry's keyword, without white space before
it. Then the candidate for this entry begins with this line behind the spaces of its depth. The
keyword that is found in this line need not be the one of the entry, but has its depth; so the line
by itself is classified at the depth of the entry, needs no edit, and no text that consists of this
line gets a remark: not the line with an ending, and not the line alone, unless it ends in a carriage
return that counts as an ending there. -/
theorem Catalog.candidates_indented {t : KeywordTable} {c : Catalog} (h : ofTable t = .ok c) {w : Int}
    (hw : 1 ≤ w) (hfits : 2 * w < 0x8000000000000000) {i : Nat} {e : Entry}
    (he : c.entries[i]? = some e) {first : Text} (hfirst : e.snippet.lines.head? = some first)
    (hblank : first.leadingChars = []) (hstem : first.startsWith e.stem = true) :
    let style : Style := { useSpaces := true, unitWidth := w }
    let line := List.replicate (e.depth.level * w.toNat) 32 ++ first
    (∃ candidate, (c.candidates w)[i]? = some candidate ∧ candidate.kind = .keyword ∧
      candidate.label = e.label ∧ candidate.insert.lines.head? = some line) ∧
    (∃ found, c.match? line.trimLeft = some found ∧ found.depth = e.depth) ∧
    (Line.classifyAll c [line]).map Line.depth = [e.depth] ∧
    Edit.compute c [line] style = [] ∧
    (∀ text : Text, text.lines = [line] → Diagnostic.collect c text style = []) ∧
    (line ++ txt "\r\n").lines = [line] ∧ (line.endsWith [13] = false → line.lines = [line]) := by
  intro style line
  obtain ⟨rfl, hvalid⟩ := (ofTable_eq_ok_iff t c).1 h
  have hmem : e ∈ (assemble t).entries := List.mem_of_getElem? he
  obtain ⟨found, hmatch, hdepth⟩ := hvalid.exists_match? hmem hstem
  have hspaces : style.indentation e.depth.level = List.replicate (e.depth.level * w.toNat) 32 :=
    Style.indentation_of_fits hw hfits e.depth
  have hpad : Text.IsPadding (List.replicate (e.depth.level * w.toNat) 32) :=
    hspaces ▸ style.indentation_isPadding e.depth.level
  -- the formatter places the line at the depth of the keyword it finds, which is the entry's
  have hline : line = style.indentation found.depth.level ++ first := by rw [hdepth, hspaces]
  have htrim : line.trimLeft = first := by
    rw [Text.trimLeft_padding_append first hpad, Text.trimLeft_of_leadingChars hblank]
  have hfeed : 10 ∉ line := by
    rw [List.mem_append, not_or]
    exact ⟨hpad.not_mem (by decide) (by decide), Text.not_mem_of_head?_lines hfirst⟩
  have hne : line ≠ [] := by
    intro hnil
    have hempty : first = [] := (List.append_eq_nil_iff.1 hnil).2
    rw [hempty, hvalid.match?_nil] at hmatch
    cases hmatch
  refine ⟨⟨_, getElem?_candidates he w, rfl, rfl, ?_⟩, ⟨found, by rw [htrim, hmatch], hdepth⟩, ?_, ?_,
    ?_, Text.lines_append_ending hfeed, Text.lines_of_not_mem hfeed hne⟩
  · have hmax : max w 0 = w := by omega
    rw [hmax, indentCount_of_fits hw hfits]
    exact Text.head?_lines_padding_append hpad hfirst
  · rw [Line.classifyAll_padded hpad hblank hmatch, List.map_singleton, hdepth]
  · rw [hline]
    exact Edit.compute_padded hblank hmatch
  · intro text htext
    rw [hline] at htext
    exact Diagnostic.collect_padded hblank hmatch htext

/-- `- pattern` is found for the snippet of `- pattern-inside:`. -/
theorem Catalog.candidates_indented_shadowed :
    let t : KeywordTable :=
      { root := []
        rule := []
        pattern := [⟨txt "- pattern", txt "- pattern", []⟩,
          ⟨txt "- pattern-inside:", txt "- pattern-inside: |\n  $X", []⟩]
        severities := []
        languages := []
        metavariables := [] }
    let e : Entry := ⟨txt "- pattern-inside:", txt "- pattern-inside: |\n  $X", [], .pattern⟩
    let first := txt "- pattern-inside: |"
    let line := txt "        - pattern-inside: |"
    ofTable t = .ok (assemble t) ∧ (assemble t).entries[1]? = some e ∧
      e.snippet.lines.head? = some first ∧ first.leadingChars = [] ∧
      first.startsWith e.stem = true ∧
      ((assemble t).match? line.trimLeft).map Entry.keyword = some (txt "- pattern") ∧
      (∃ candidate, ((assemble t).candidates 4)[1]? = some candidate ∧ candidate.kind = .keyword ∧
        candidate.label = e.label ∧ candidate.insert.lines.head? = some line) ∧
      (Line.classifyAll (assemble t) [line]).map Line.depth = [.pattern] ∧
      Edit.compute (assemble t) [line] { useSpaces := true, unitWidth := 4 } = [] ∧
      Diagnostic.collect (assemble t) line { useSpaces := true, unitWidth := 4 } = [] := by
  intro t e first line
  have hok : ofTable t = .ok (assemble t) := ofTable_of_fault?_eq_none (by decide +kernel)
  have hentry : (assemble t).entries[1]? = some e := by decide +kernel
  have hfirst : e.snippet.lines.head? = some first := by decide +kernel
  have hblank : first.leadingChars = [] := by decide +kernel
  have hstem : first.startsWith e.stem = true := by decide +kernel
  have hfound : ((assemble t).match? line.trimLeft).map Entry.keyword = some (txt "- pattern") := by
    decide +kernel
  have hcr : line.endsWith [13] = false := by decide +kernel
  obtain ⟨hcandidate, -, hdepth, hedit, hremark, -, hlines⟩ :=
    candidates_indented (w := 4) hok (by decide) (by decide) hentry hfirst hblank hstem
  exact ⟨hok, hentry, hfirst, hblank, hstem, hfound, hcandidate, hdepth, hedit,
    hremark line (hlines hcr)⟩

end RuleLang
