import RuleLang.Proofs.Editor.WordRuns
import RuleLang.Proofs.Indent.ClosedForm
import RuleLang.Proofs.Text.Trimming

/-!
# RuleLang.Proofs.Editor.HoverPlace

What is shown at a position is about what stands there.

There are two ways to an answer, the keyword that opens the line and the value token that the cursor
touches (`Hover.at?_eq_some`). In both the name is a stretch of whole characters of the line: a
label begins the line without its white space (`Entry.label_isPrefix`) and is well formed, a token
is a run of ASCII bytes. So byte offsets turn into UTF-16 columns without cutting a character, and
what holds of the offsets holds of the columns (`Hover.underCursor_append`).
-/

namespace RuleLang

/-- A line that begins with a stem begins with the label. At the root the stem is the keyword as it
stands, but a keyword with white space in front begins no trimmed line. -/
theorem Entry.label_isPrefix {e : Entry} {line : Text}
    (h : line.trimLeft.startsWith e.stem = true) : e.label <+: line.trimLeft := by
  rw [Text.startsWith_iff, stem] at h
  split at h
  · obtain ⟨rest, hrest⟩ := h
    have hlead := Text.leadingChars_trimLeft line
    rw [← hrest] at hlead
    have hlabel := Text.trim_isPrefix e.keyword
    rw [Text.trimLeft_of_leadingChars (Text.leadingChars_of_append hlead)] at hlabel
    exact hlabel.trans ⟨rest, hrest⟩
  · exact h

namespace Hover

/-- `name` stands between columns `start` and `stop` of the line, and so does a cursor that is put
at column `c`. -/
structure UnderCursor (line : Text) (c : Int) (start stop : Nat) (name : Text) : Prop where
  start_le : start ≤ stop
  stop_le : stop ≤ line.utf16Col line.length
  between : line.StandsBetween start stop name
  cursor : ∃ k, line.CursorAt c k ∧ start ≤ k ∧ k ≤ stop

theorem underCursor_append {a name b : Text} {c : Int}
    (hchars : Text.chars (a ++ (name ++ b)) = a.chars ++ (name.chars ++ b.chars))
    (hle : a.length ≤ Text.byteOffset (a ++ (name ++ b)) c)
    (hge : Text.byteOffset (a ++ (name ++ b)) c ≤ a.length + name.length) :
    UnderCursor (a ++ (name ++ b)) c (Text.utf16Col (a ++ (name ++ b)) a.length)
      (Text.utf16Col (a ++ (name ++ b)) (a.length + name.length)) name := by
  have hstart := Text.isBoundary_between hchars
  have hstop := Text.isBoundary_between_end hchars
  have hcursor := Text.isBoundary_byteOffset (a ++ (name ++ b)) c
  exact
    { start_le := Text.utf16Col_le hstart hstop (Nat.le_add_right _ _)
      stop_le := Text.utf16Col_le hstop (Text.isBoundary_length _) hstop.le_length
      between := Text.standsBetween_append hchars
      cursor := ⟨_, Text.cursorAt_byteOffset _ c, Text.utf16Col_le hstart hcursor hle,
        Text.utf16Col_le hcursor hstop hge⟩ }

/-! ## The two answers -/

theorem keyword?_eq_some {c : Catalog} {n : Int} {line : Text} {o : Nat} {hover : Hover}
    (h : keyword? c n line o = some hover) :
    ∃ e, c.match? line.trimLeft = some e ∧ line.length - line.trimLeft.length ≤ o ∧
      o ≤ line.length - line.trimLeft.length + e.label.length ∧
      hover = ⟨describe e.label e.depth.name e.docs,
        rangeOf n line (line.length - line.trimLeft.length)
          (line.length - line.trimLeft.length + e.label.length)⟩ := by
  simp only [keyword?, Option.bind_eq_bind, Option.bind_eq_some_iff] at h
  obtain ⟨e, he, h⟩ := h
  split at h
  · rename_i hplace
    cases h
    exact ⟨e, he, hplace.1, hplace.2, rfl⟩
  · cases h

theorem mem_of_tokenDocs? {c : Catalog} {word docs : Text} (h : tokenDocs? c word = some docs) :
    word ∈ c.severities ++ c.languages ++ c.metavariables := by
  simp only [List.mem_append]
  unfold tokenDocs? at h
  split at h
  · rename_i hsev
    exact .inl (.inl (List.contains_iff_mem.1 hsev))
  · split at h
    · rename_i hlang
      exact .inl (.inr (List.contains_iff_mem.1 hlang))
    · split at h
      · rename_i hmeta
        exact .inr (List.contains_iff_mem.1 hmeta)
      · cases h

theorem token?_eq_some {c : Catalog} {text line : Text} {n : Int} {o : Nat} {hover : Hover}
    (ho : o ≤ line.length) (h : token? c text n line o = some hover) :
    ∃ i word docs, line.IsRun isWordByte i word ∧ i ≤ o ∧ o ≤ i + word.length ∧
      word ∈ c.severities ++ c.languages ++ c.metavariables ∧
      hover = ⟨describe word (depthAt c text.lines n).name docs,
        rangeOf n line i (i + word.length)⟩ := by
  simp only [token?, Option.bind_eq_bind, Option.bind_eq_some_iff] at h
  obtain ⟨w, hw, docs, hdocs, h⟩ := h
  obtain ⟨hrun, hright, hle, hge⟩ := (wordAt?_eq_some_iff ho).1 hw
  cases h
  rw [hright] at hge ⊢
  exact ⟨w.left, w.word, docs, hrun, hle, hge, mem_of_tokenDocs? hdocs, rfl⟩

theorem exists_line_of_lineAt {text : Text} {n : Int} (h : text.lineAt n ≠ []) :
    ∃ i : Nat, n = i ∧ text.lines[i]? = some (text.lineAt n) := by
  unfold Text.lineAt at h ⊢
  split at h
  · exact absurd rfl h
  · rename_i hn
    rw [if_neg hn]
    refine ⟨n.toNat, by omega, ?_⟩
    cases hline : text.lines[n.toNat]? with
    | none => simp [hline] at h
    | some line => rfl

theorem at?_eq_some {c : Catalog} {text : Text} {p : Position} {hover : Hover}
    (h : at? c text p = some hover) :
    ∃ (i : Nat) (line : Text), p.line = i ∧ text.lines[i]? = some line ∧
      (keyword? c p.line line (line.byteOffset p.character) = some hover ∨
        token? c text p.line line (line.byteOffset p.character) = some hover) := by
  simp only [at?] at h
  split at h
  · cases h
  · rename_i hline
    obtain ⟨i, hi, hline⟩ := exists_line_of_lineAt (by simpa using hline)
    refine ⟨i, _, hi, hline, ?_⟩
    cases hk : keyword? c p.line (text.lineAt p.line)
        ((text.lineAt p.line).byteOffset p.character) with
    | none => exact .inr (by simpa [hk] using h)
    | some hover' => exact .inl (by simpa [hk] using h)

/-! ## Under the cursor -/

theorem keyword_underCursor {c : Catalog} {line : Text} {col : Int} {e : Entry}
    (he : c.match? line.trimLeft = some e) (hutf8 : e.keyword.isUtf8 = true)
    (hle : line.length - line.trimLeft.length ≤ line.byteOffset col)
    (hge : line.byteOffset col ≤ line.length - line.trimLeft.length + e.label.length) :
    UnderCursor line col (line.utf16Col (line.length - line.trimLeft.length))
      (line.utf16Col (line.length - line.trimLeft.length + e.label.length)) e.label := by
  have hline := Text.ofChars_leadingChars_append line
  obtain ⟨rest, hrest⟩ := Entry.label_isPrefix (Catalog.match?_eq_some he).2
  have hlead : Text.chars (Text.ofChars line.leadingChars) = line.leadingChars :=
    Text.chars_ofChars_of_isPrefix (List.takeWhile_prefix _)
  have hlabel : e.label.isUtf8 = true := Text.isUtf8_trim hutf8
  have hchars := Text.chars_eq_leadingChars_append line
  rw [← hrest, Text.chars_append_of_isUtf8 rest hlabel, ← hlead] at hchars
  rw [← hrest] at hline
  rw [← Text.length_ofChars_leadingChars] at hle hge ⊢
  generalize Text.ofChars line.leadingChars = lead at *
  subst hline
  exact underCursor_append hchars hle hge

theorem run_underCursor {line word : Text} {col : Int} {i : Nat}
    (h : line.IsRun isWordByte i word) (hle : i ≤ line.byteOffset col)
    (hge : line.byteOffset col ≤ i + word.length) :
    UnderCursor line col (line.utf16Col i) (line.utf16Col (i + word.length)) word := by
  obtain ⟨f, g, rfl, rfl, hne, hbytes, -, -⟩ := Text.isRun_iff_append.1 h
  have hascii : ∀ b ∈ word, b < 0x80 := fun b hb => ascii_of_isWordByte (hbytes b hb)
  have hfresh : Utf8.Fresh (word ++ g) := by
    obtain ⟨b, word, rfl⟩ := List.exists_cons_of_ne_nil hne
    exact Utf8.fresh_cons _ (hascii b List.mem_cons_self)
  apply underCursor_append _ hle hge
  rw [Text.chars_append f hfresh, Text.chars_ascii_append g hascii]

/-- **What is shown is about what stands under the cursor.** If the keywords of the catalog are well
formed, an answer has a range on the line of the position, between whose columns stand the cursor
and the name that the contents begin with. The name is the label of the line's keyword or a token of
the catalog, and the level that is named is the one that the whole document gives to the line. -/
theorem at?_underCursor (c : Catalog) (hutf8 : ∀ e ∈ c.entries, e.keyword.isUtf8 = true)
    (text : Text) (p : Position) {hover : Hover} (h : at? c text p = some hover) :
    ∃ (i start stop : Nat) (line name docs : Text) (l : Line),
      p.line = i ∧ text.lines[i]? = some line ∧ (Line.classifyAll c text.lines)[i]? = some l ∧
      hover.range = .inLine p.line start stop ∧
      hover.contents =
        txt "`" ++ name ++ txt "` (" ++ l.depth.name ++ txt " level)\n\n" ++ docs ∧
      UnderCursor line p.character start stop name ∧
      ((∃ e, c.match? line.trimLeft = some e ∧ e.label = name ∧ e.depth = l.depth) ∨
        name ∈ c.severities ++ c.languages ++ c.metavariables ∧
          depthAt c text.lines p.line = l.depth) := by
  obtain ⟨i, line, hi, hline, hanswer⟩ := at?_eq_some h
  obtain ⟨l, hl, hcarry⟩ : ∃ l, (Line.classifyAll c text.lines)[i]? = some l ∧
      l.depth = Line.carry c .root (text.lines.take (i + 1)) :=
    ⟨_, by rw [Line.getElem?_classifyAll, hline, Option.map_some], rfl⟩
  rcases hanswer with hkey | htoken
  · obtain ⟨e, he, hle, hge, rfl⟩ := keyword?_eq_some hkey
    have hdepth : e.depth = l.depth := by
      rw [hcarry, Line.carry_take_succ c .root hline, depthAfter_keyword _ he]
    have hplace := keyword_underCursor he (hutf8 e (Catalog.match?_eq_some he).1) hle hge
    refine ⟨i, _, _, line, e.label, e.docs, l, hi, hline, hl, rfl, ?_, hplace, ?_⟩
    · rw [← hdepth, describe]
    · exact .inl ⟨e, he, rfl, hdepth⟩
  · have ho := (Text.isBoundary_byteOffset line p.character).le_length
    obtain ⟨j, word, docs, hrun, hle, hge, hmem, rfl⟩ := token?_eq_some ho htoken
    have hdepth : depthAt c text.lines p.line = l.depth := by
      rw [hi, Line.depthAt_of_getElem? hl]
    have hplace := run_underCursor hrun hle hge
    refine ⟨i, _, _, line, word, docs, l, hi, hline, hl, rfl, ?_, hplace, ?_⟩
    · rw [← hdepth, describe]
    · exact .inr ⟨hmem, hdepth⟩

/-- A keyword of wide characters with a space behind it, on a line with a wide space in front. The
column is in the middle of a character. -/
theorem at?_underCursor_wide :
    let c := Catalog.assemble { root := [⟨txt "é😀: ", [], txt "Wide"⟩] }
    let line := txt "\u3000é😀: x"
    let text := txt "\n" ++ line
    let hover : Hover := ⟨txt "`é😀:` (root level)\n\nWide", .inLine 1 1 5⟩
    (∀ e ∈ c.entries, e.keyword.isUtf8 = true) ∧ at? c text ⟨1, 3⟩ = some hover ∧
      ∃ (start stop : Nat) (name : Text), hover.range = .inLine 1 start stop ∧
        UnderCursor line 3 start stop name := by
  intro c line text hover
  have hutf8 : ∀ e ∈ c.entries, e.keyword.isUtf8 = true := by decide +kernel
  have hat : at? c text ⟨1, 3⟩ = some hover := by decide +kernel
  have hlines : text.lines[1]? = some line := by decide +kernel
  obtain ⟨i, start, stop, line', name, docs, l, hi, hline, -, hrange, -, hplace, -⟩ :=
    at?_underCursor c hutf8 text ⟨1, 3⟩ hat
  obtain rfl : 1 = i := Int.ofNat.inj hi
  rw [hlines] at hline
  cases hline
  exact ⟨hutf8, hat, start, stop, name, hrange, hplace⟩

end Hover
end RuleLang
