import RuleLang.Catalog.Builtin
import RuleLang.Proofs.Editor.HoverPlace
import RuleLang.Proofs.Editor.TokenSpans

/-!
# RuleLang.Proofs.Editor.HoverTokens

What is coloured as a severity or a language is also explained.

A token span marks a run of word bytes of its line (`Span.mem_ofText_token_iff`), and the same run
is found around each of its columns. But the keyword of the line is asked first, and its label may
reach as far as the token: in the item `- id:go` it ends where `go` begins. So columns count only
behind the first one, and the catalog has to keep labels and tokens apart
(`Catalog.TokensApart`), as the built-in one does. Then no label goes past the start of a token
(`Hover.keyword?_eq_none_of_token`).
-/

namespace RuleLang

/-- No label ends within a word, and none has a severity or a language among its words. -/
structure Catalog.TokensApart (c : Catalog) : Prop where
  label_end : ∀ e ∈ c.entries, ∀ b ∈ e.label.getLast?, isWordByte b = false
  label_words : ∀ e ∈ c.entries, ∀ x ∈ words e.label, x.2 ∉ c.severities ++ c.languages

theorem Catalog.builtin_tokensApart : Catalog.builtin.TokensApart where
  label_end := by decide +kernel
  label_words := by decide +kernel

/-- A run stands behind a part of the line or within it, if the part does not end with a byte of its
kind. -/
theorem Text.IsRun.behind_or_within {p : UInt8 → Bool} {a part b w : Text} {i : Nat}
    (h : (a ++ (part ++ b)).IsRun p i w) (hi : a.length ≤ i)
    (hlast : ∀ x ∈ part.getLast?, p x = false) :
    a.length + part.length ≤ i ∨ ∃ j, part.IsRun p j w := by
  rcases Nat.lt_or_ge i (a.length + part.length) with hlt | hge
  · right
    obtain ⟨j, rfl⟩ : ∃ j, i = a.length + j := ⟨i - a.length, by omega⟩
    refine ⟨j, h.of_append ?_⟩
    by_contra hlong
    -- the last byte of the part would be one of the run
    obtain ⟨k, hk⟩ : ∃ k, part.length = j + k + 1 := ⟨part.length - 1 - j, by omega⟩
    have hkw : k < w.length := by omega
    have hbyte := h.standsAt.getElem? hkw
    rw [Nat.add_assoc, ← List.getElem?_drop, List.drop_left,
      List.getElem?_append_left (by omega), List.getElem?_eq_getElem hkw] at hbyte
    have hword := hlast w[k] (by
      rw [Option.mem_def, List.getLast?_eq_getElem?, hk, Nat.add_sub_cancel, hbyte])
    rw [h.bytes _ (List.getElem_mem hkw)] at hword
    cases hword
  · exact .inl hge

namespace Hover

variable {c : Catalog} {line w : Text} {i : Nat}

theorem keyword?_eq_none_of_token (hc : c.TokensApart) (hrun : line.IsRun isWordByte i w)
    (hi : line.bodyStart ≤ i) (hw : w ∈ c.severities ++ c.languages) {n : Int} {o : Nat}
    (ho : i < o) : keyword? c n line o = none := by
  rw [Option.eq_none_iff_forall_ne_some]
  intro hover h
  obtain ⟨e, he, -, hge, -⟩ := keyword?_eq_some h
  obtain ⟨hmem, hstem⟩ := Catalog.match?_eq_some he
  obtain ⟨rest, hrest⟩ := Entry.label_isPrefix hstem
  rw [← Text.ofChars_leadingChars_append line, ← hrest] at hrun
  rw [Text.bodyStart, ← Text.length_ofChars_leadingChars] at hi
  rw [← Text.length_ofChars_leadingChars] at hge
  rcases hrun.behind_or_within hi (hc.label_end e hmem) with hbehind | ⟨j, hj⟩
  · omega
  · exact hc.label_words e hmem (j, w) (mem_words_iff.2 hj) hw

theorem exists_tokenDocs? (hw : w ∈ c.severities ++ c.languages) :
    ∃ docs, tokenDocs? c w = some docs := by
  unfold tokenDocs?
  rcases List.mem_append.1 hw with hsev | hlang
  · exact ⟨_, if_pos (List.contains_iff_mem.2 hsev)⟩
  · split
    · exact ⟨_, rfl⟩
    · exact ⟨_, if_pos (List.contains_iff_mem.2 hlang)⟩

theorem lineAt_of_getElem? {t : Text} {n : Nat} (h : t.lines[n]? = some line) :
    t.lineAt n = line := by
  rw [Text.lineAt, if_neg (by omega), Int.toNat_natCast, h, Option.getD_some]

/-- The token that a cursor stands in or behind is explained. -/
theorem at?_of_token (hc : c.TokensApart) {t : Text} {n : Nat} (hline : t.lines[n]? = some line)
    (hrun : line.IsRun isWordByte i w) (hi : line.bodyStart ≤ i)
    (hw : w ∈ c.severities ++ c.languages) {k : Nat} (hpos : 0 < k) (hk : k ≤ w.length) :
    ∃ hover, at? c t ⟨n, (line.utf16Col i + k : Nat)⟩ = some hover ∧
      hover.range = rangeOf n line i (i + w.length) := by
  have hascii : ∀ b ∈ w, b < 0x80 := fun b hb => ascii_of_isWordByte (hrun.bytes b hb)
  have hoffset := hrun.standsAt.byteOffset_add hascii hk hrun.ne_nil
  have hne : line.isEmpty = false := by
    have hle := hrun.add_length_le
    rw [List.isEmpty_eq_false_iff, ← List.length_pos_iff]
    omega
  have hkeyword := keyword?_eq_none_of_token hc hrun hi hw (n := n) (Nat.lt_add_of_pos_right hpos)
  have hword := wordAt?_of_isRun hrun (Nat.le_add_right i k) (Nat.add_le_add_left hk i)
  obtain ⟨docs, hdocs⟩ := exists_tokenDocs? hw
  have htoken : token? c t n line (i + k) =
      some ⟨describe w (depthAt c t.lines n).name docs, rangeOf n line i (i + w.length)⟩ := by
    simp only [token?, hword, hdocs, Option.bind_eq_bind, Option.bind_some]
  have hat : at? c t ⟨n, (line.utf16Col i + k : Nat)⟩ = token? c t n line (i + k) := by
    simp only [at?, lineAt_of_getElem? hline, hne, hoffset, hkeyword]
    rfl
  exact ⟨_, hat.trans htoken, rfl⟩

end Hover

namespace Span

theorem accepts_mem {c : Catalog} {kind : SpanKind} {w : Text} (h : accepts c kind w = true) :
    w ∈ c.severities ++ c.languages := by
  rw [List.mem_append]
  cases kind with
  | enumMember => exact .inl (List.contains_iff_mem.1 h)
  | typeName => exact .inr (List.contains_iff_mem.1 h)
  | _ => cases h

/-- **Colours and explanations agree.** Wherever a document has a span for a severity or a language,
in UTF-16 columns, something is shown at every column of the span but the first, and at the one
behind it, with the span for its range. -/
theorem at?_of_mem_tokens (c : Catalog) (hc : c = .builtin ∨ c.TokensApart) (t : Text) {s : Span}
    (hs : s ∈ (ofText c t).map (toUtf16 t.lines))
    (hkind : s.kind = .enumMember ∨ s.kind = .typeName) (col : Int) (hlt : s.start < col)
    (hle : col ≤ s.start + s.length) :
    ∃ hover, Hover.at? c t ⟨s.line, col⟩ = some hover ∧
      hover.range = .inLine s.line s.start (s.start + s.length) := by
  have hapart : c.TokensApart := by
    rcases hc with rfl | hc
    · exact Catalog.builtin_tokensApart
    · exact hc
  obtain ⟨s, hmem, rfl⟩ := List.mem_map.1 hs
  rw [toUtf16_kind] at hkind
  obtain ⟨line, hline, v, w, -, hrun, hlen, haccept, hge, -⟩ :=
    (mem_ofText_token_iff c t hkind).1 hmem
  have hascii : ∀ b ∈ w, b < 0x80 := fun b hb => ascii_of_isWordByte (hrun.bytes b hb)
  have hstop := hrun.standsAt.utf16Col_add hascii (Nat.le_refl _)
  have hstart := toUtf16_start hline
  have hwidth : (toUtf16 t.lines s).length = w.length := by
    rw [toUtf16_length hline, ← hlen, hstop]
    omega
  rw [hstart, hwidth] at hle ⊢
  rw [hstart] at hlt
  rw [toUtf16_line]
  obtain ⟨k, rfl⟩ : ∃ k : Nat, col = (line.utf16Col s.start + k : Nat) :=
    ⟨(col - line.utf16Col s.start).toNat, by omega⟩
  obtain ⟨hover, hat, hrange⟩ :=
    Hover.at?_of_token hapart hline hrun (by omega) (accepts_mem haccept) (k := k) (by omega)
      (by omega)
  refine ⟨hover, hat, ?_⟩
  rw [hrange, Hover.rangeOf, hstop, Int.natCast_add]

/-- The item begins like a keyword of its own and has a wide space in front. -/
theorem at?_of_mem_tokens_item :
    let t := txt "languages:\n\u3000- id:go"
    let s : Span := ⟨1, 6, 2, .typeName⟩
    s ∈ (ofText .builtin t).map (toUtf16 t.lines) ∧
      ∃ hover, Hover.at? .builtin t ⟨1, 7⟩ = some hover ∧ hover.range = .inLine 1 6 8 := by
  intro t s
  have hs : s ∈ (ofText .builtin t).map (toUtf16 t.lines) := by decide +kernel
  exact ⟨hs, at?_of_mem_tokens .builtin (.inl rfl) t hs (.inr rfl) 7 (by decide) (by decide)⟩

end Span
end RuleLang
