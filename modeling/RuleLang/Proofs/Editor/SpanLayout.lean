import Mathlib.Data.List.Pairwise
import RuleLang.Catalog.Builtin
import RuleLang.Proofs.Editor.LineParts
import RuleLang.Proofs.Indent.Reindent

/-!
# RuleLang.Proofs.Editor.SpanLayout

Where the spans of a document lie, for every text and any bytes.

A line is white space, a body and a comment. The spans of the body are those of a key, of words
of the value and of metavariables (`Span.BodyParts`); each of them marks ASCII bytes, so it cuts no
character (`Span.Placed`). That they are apart from each other is a matter of the dollar sign: a
metavariable begins with one, no key has one, and a word that touches a metavariable holds the
whole of it (`Span.BodyParts.apart`). So words that are tokens without dollar signs are apart from
metavariables.

* `Span.mem_ofText`, `Span.ofText_sorted`: spans are placed in their lines, in the order of lines
  and starts. This holds for every catalog.
* `Span.ofText_inPlace`: with a catalog whose tokens have no dollar sign, no two spans overlap,
  neither in bytes nor in UTF-16 units.
-/

namespace RuleLang

/-- No severity and no language of the catalog has a dollar sign. -/
def Catalog.DollarFree (c : Catalog) : Prop := ∀ w ∈ c.severities ++ c.languages, 36 ∉ w

namespace Span

/-- The span marks some bytes of the line and cuts no character. -/
structure Placed (line : Text) (s : Span) : Prop where
  length_pos : 0 < s.length
  le_length : s.start + s.length ≤ line.length
  start_boundary : line.IsBoundary s.start
  stop_boundary : line.IsBoundary (s.start + s.length)

/-- The span marks ASCII bytes of a body that begins at byte `base`. -/
def Marks (base : Nat) (body : Text) (s : Span) : Prop :=
  ∃ i w, s.start = base + i ∧ s.length = w.length ∧ body.StandsAt i w ∧ w ≠ [] ∧
    ∀ b ∈ w, b < 0x80

theorem Marks.append_right {base : Nat} {body : Text} {s : Span} (h : s.Marks base body)
    (t : Text) : s.Marks base (body ++ t) := by
  obtain ⟨i, w, hstart, hlen, hstands, hw, hascii⟩ := h
  exact ⟨i, w, hstart, hlen, hstands.append_right t, hw, hascii⟩

theorem Marks.stop_le {base : Nat} {body : Text} {s : Span} (h : s.Marks base body) :
    s.start + s.length ≤ base + body.length := by
  obtain ⟨i, w, hstart, hlen, hstands, hw, -⟩ := h
  have hle := hstands.add_length_le hw
  omega

theorem Marks.placed {lead body comment : Text} {s : Span} (h : s.Marks lead.length body) :
    s.Placed (lead ++ (body ++ comment)) := by
  obtain ⟨i, w, hstart, hlen, hstands, hw, hascii⟩ := h
  have hline := (hstands.append_right comment).append_left lead
  refine ⟨?_, ?_, ?_, ?_⟩
  · rw [hlen]
    exact List.length_pos_iff.2 hw
  · rw [hstart, hlen]
    exact hline.add_length_le hw
  · rw [hstart]
    exact hline.isBoundary hw hascii
  · rw [hstart, hlen]
    exact hline.isBoundary_end hw hascii

/-! ## The spans of a body -/

theorem mem_ofWords {line base : Nat} {kind : SpanKind} {accept : Text → Bool} {t : Text}
    {s : Span} (h : s ∈ ofWords line base kind accept t) :
    ∃ i w, (i, w) ∈ words t ∧ accept w = true ∧ s = ⟨line, base + i, w.length, kind⟩ := by
  obtain ⟨⟨i, w⟩, hmem, hs⟩ := List.mem_filterMap.1 h
  dsimp only at hs
  split at hs
  · rename_i haccept
    cases hs
    exact ⟨i, w, hmem, haccept, rfl⟩
  · cases hs

theorem ofWords_pairwise (line base : Nat) (kind : SpanKind) (accept : Text → Bool) (t : Text) :
    (ofWords line base kind accept t).Pairwise fun a b => a.start + a.length ≤ b.start := by
  refine List.Pairwise.filterMap _ ?_ (words_pairwise t)
  rintro ⟨i, w⟩ ⟨j, v⟩ hlt a ha b hb
  dsimp only at ha hb hlt
  split at ha
  · split at hb
    · cases ha
      cases hb
      dsimp only
      omega
    · cases hb
  · cases ha

theorem ofWords_none (line base : Nat) (kind : SpanKind) (t : Text) :
    ofWords line base kind (fun _ => false) t = [] := by
  simp [ofWords]

/-- The spans of a body: at most one key, words that are tokens of the catalog, and
metavariables. The words are looked up in the value, and no dollar sign stands before it. -/
structure BodyParts (c : Catalog) (line base : Nat) (body : Text) where
  keys : List Span
  valueOffset : Nat
  kind : SpanKind
  accept : Text → Bool
  one_key : keys.length ≤ 1
  key_line : ∀ s ∈ keys, s.line = line
  key_kind : ∀ s ∈ keys, s.kind ≠ .comment
  key_marks : ∀ s ∈ keys, s.Marks base (body.take valueOffset)
  no_dollar : 36 ∉ body.take valueOffset
  kind_ne : kind ≠ .comment
  token_of_accept : ∀ w, accept w = true → w ∈ c.severities ++ c.languages

namespace BodyParts

section

variable {c : Catalog} {line base : Nat} {body : Text} (P : BodyParts c line base body)

def wordSpans : List Span :=
  ofWords line (base + P.valueOffset) P.kind P.accept (body.drop P.valueOffset)

def metaSpans (_ : BodyParts c line base body) : List Span :=
  (metavars body).map fun (i, m) => ⟨line, base + i, m.length, .variableName⟩

def spans : List Span := P.keys ++ P.wordSpans ++ P.metaSpans

end

/-- A body without a key, in which words from byte `v` on may be tokens. -/
def keyless {c : Catalog} {body : Text} (line base v : Nat) (kind : SpanKind)
    (accept : Text → Bool) (hdollar : 36 ∉ body.take v) (hkind : kind ≠ .comment)
    (haccept : ∀ w, accept w = true → w ∈ c.severities ++ c.languages) :
    BodyParts c line base body where
  keys := []
  valueOffset := v
  kind := kind
  accept := accept
  one_key := by simp
  key_line := by simp
  key_kind := by simp
  key_marks := by simp
  no_dollar := hdollar
  kind_ne := hkind
  token_of_accept := haccept

theorem not_mem_dollar_of_keyBytes {key : Text} (h : ∀ b ∈ key, isKeyByte b = true) :
    36 ∉ key := by
  intro hmem
  exact absurd (h 36 hmem) (by decide)

/-- A body with a key, in which words of the value may be tokens. -/
def keyed {c : Catalog} {body : Text} {kv : KeyValue} (line base : Nat) (keyKind kind : SpanKind)
    (accept : Text → Bool) (h : splitKey? body = some kv) (hkey : keyKind ≠ .comment)
    (hkind : kind ≠ .comment)
    (haccept : ∀ w, accept w = true → w ∈ c.severities ++ c.languages) :
    BodyParts c line base body where
  keys := [⟨line, base + kv.keyOffset, kv.key.length, keyKind⟩]
  valueOffset := kv.valueOffset
  kind := kind
  accept := accept
  one_key := by simp
  key_line := by simp
  key_kind := by simpa using hkey
  key_marks := by
    obtain ⟨-, dash, -, htake, hoffset⟩ := splitKey?_cut h
    obtain ⟨hne, hbytes⟩ := splitKey?_key h
    intro s hs
    obtain rfl := List.mem_singleton.1 hs
    refine ⟨kv.keyOffset, kv.key, rfl, rfl, ?_, hne, fun b hb => ascii_of_isKeyByte (hbytes b hb)⟩
    rw [htake, hoffset]
    exact Text.standsAt_append dash kv.key [58]
  no_dollar := by
    obtain ⟨-, dash, hdash, htake, -⟩ := splitKey?_cut h
    have hkey : 36 ∉ kv.key := not_mem_dollar_of_keyBytes (splitKey?_key h).2
    have hdash : 36 ∉ dash := by
      rcases hdash with rfl | rfl <;> decide
    rw [htake]
    simp [hkey, hdash]
  kind_ne := hkind
  token_of_accept := haccept

section

variable {c : Catalog} {line base : Nat} {body : Text} (P : BodyParts c line base body)

/-- What is found in the body is what stands there. -/
theorem marks_metaSpans {s : Span} (h : s ∈ P.metaSpans) :
    s.line = line ∧ s.kind = .variableName ∧ s.Marks base body := by
  obtain ⟨⟨i, m⟩, hmem, rfl⟩ := List.mem_map.1 h
  obtain ⟨hstands, -, hne, hbytes⟩ := standsAt_of_mem_metavars hmem
  exact ⟨rfl, rfl, i, m, rfl, rfl, hstands, hne, fun b hb => ascii_of_isWordByte (hbytes b hb)⟩

theorem marks_wordSpans {s : Span} (h : s ∈ P.wordSpans) :
    s.line = line ∧ s.kind = P.kind ∧ s.Marks base body := by
  obtain ⟨i, w, hmem, -, rfl⟩ := mem_ofWords h
  have hrun := isRun_of_mem_words hmem
  refine ⟨rfl, rfl, P.valueOffset + i, w, ?_, rfl, hrun.standsAt.of_drop, hrun.ne_nil,
    fun b hb => ascii_of_isWordByte (hrun.bytes b hb)⟩
  exact Nat.add_assoc base P.valueOffset i

theorem marks {s : Span} (h : s ∈ P.spans) :
    s.line = line ∧ s.kind ≠ .comment ∧ s.Marks base body := by
  rcases List.mem_append.1 h with h | h
  · rcases List.mem_append.1 h with h | h
    · have hmarks := (P.key_marks s h).append_right (body.drop P.valueOffset)
      rw [List.take_append_drop] at hmarks
      exact ⟨P.key_line s h, P.key_kind s h, hmarks⟩
    · obtain ⟨hline, hkind, hmarks⟩ := P.marks_wordSpans h
      exact ⟨hline, by rw [hkind]; exact P.kind_ne, hmarks⟩
  · obtain ⟨hline, hkind, hmarks⟩ := P.marks_metaSpans h
    exact ⟨hline, by rw [hkind]; decide, hmarks⟩

end

end BodyParts

theorem ofBody_parts (c : Catalog) (inLanguages : Bool) (line base : Nat) (body : Text) :
    ∃ P : BodyParts c line base body, (ofBody c inLanguages line base body).1 = P.spans := by
  have hsev : ∀ w, c.isSeverity w = true → w ∈ c.severities ++ c.languages := by
    intro w hw
    exact List.mem_append_left _ (List.contains_iff_mem.1 hw)
  have hlang : ∀ w, c.isLanguage w = true → w ∈ c.severities ++ c.languages := by
    intro w hw
    exact List.mem_append_right _ (List.contains_iff_mem.1 hw)
  have hnever : ∀ w : Text, (fun _ => false) w = true → w ∈ c.severities ++ c.languages := by
    intro w hw
    cases hw
  cases hkv : splitKey? body with
  | some kv =>
    have hdrop := (splitKey?_cut hkv).1
    have hkind : (if (c.match? body).isSome then SpanKind.keyword else .property) ≠ .comment := by
      split <;> decide
    by_cases hs : kv.key = txt "severity"
    · refine ⟨.keyed line base _ .enumMember c.isSeverity hkv hkind (by decide) hsev, ?_⟩
      simp only [ofBody, hkv, if_pos hs, BodyParts.spans, BodyParts.keyed, BodyParts.wordSpans,
        BodyParts.metaSpans, hdrop]
    · by_cases hl : kv.key = txt "languages"
      · refine ⟨.keyed line base _ .typeName c.isLanguage hkv hkind (by decide) hlang, ?_⟩
        simp only [ofBody, hkv, if_neg hs, if_pos hl, BodyParts.spans, BodyParts.keyed,
          BodyParts.wordSpans, BodyParts.metaSpans, hdrop]
      · refine ⟨.keyed line base _ .property (fun _ => false) hkv hkind (by decide) hnever, ?_⟩
        simp only [ofBody, hkv, if_neg hs, if_neg hl, BodyParts.spans, BodyParts.keyed,
          BodyParts.wordSpans, BodyParts.metaSpans, ofWords_none]
  | none =>
    by_cases hitem : (inLanguages && body.startsWith [45]) = true
    · have hdash : 36 ∉ body.take 1 := by
        obtain ⟨rest, rfl⟩ := List.isPrefixOf_iff_prefix.1 (Bool.and_eq_true_iff.1 hitem).2
        simp
      refine ⟨.keyless line base 1 .typeName c.isLanguage hdash (by decide) hlang, ?_⟩
      simp only [ofBody, hkv, if_pos hitem, BodyParts.spans, BodyParts.keyless,
        BodyParts.wordSpans, BodyParts.metaSpans]
    · refine ⟨.keyless line base 0 .typeName (fun _ => false) (by simp) (by decide) hnever, ?_⟩
      simp only [ofBody, hkv, if_neg hitem, BodyParts.spans, BodyParts.keyless,
        BodyParts.wordSpans, BodyParts.metaSpans, ofWords_none]

/-! ## Spans that are apart -/

/-- Neither span reaches into the other. -/
def Apart (a b : Span) : Prop := a.start + a.length ≤ b.start ∨ b.start + b.length ≤ a.start

theorem Apart.symm {a b : Span} (h : a.Apart b) : b.Apart a := Or.symm h

/-- Metavariables stand behind a beginning of the body without dollar signs. -/
theorem le_of_mem_metavars {body : Text} {v j : Nat} {m : Text} (hv : 36 ∉ body.take v)
    (hm : (j, m) ∈ metavars body) : v ≤ j := by
  obtain ⟨-, hj, -⟩ := standsAt_of_mem_metavars hm
  by_contra hlt
  apply hv
  rw [← List.getElem?_take_of_lt (by omega : j < v)] at hj
  exact List.mem_of_getElem? hj

/-- A word without a dollar sign does not touch a metavariable. -/
theorem apart_word_metavar {body : Text} {v i j : Nat} {w m : Text}
    (hv : 36 ∉ body.take v) (hw : (i, w) ∈ words (body.drop v)) (hdollar : 36 ∉ w)
    (hm : (j, m) ∈ metavars body) : v + i + w.length ≤ j ∨ j + m.length ≤ v + i := by
  have hrun := isRun_of_mem_words hw
  obtain ⟨hstands, hj, -, hbytes⟩ := standsAt_of_mem_metavars hm
  have hvj := le_of_mem_metavars hv hm
  by_contra hcross
  rcases Nat.lt_or_ge j (v + i) with hlt | hge
  · -- the byte before the word belongs to the metavariable
    obtain ⟨k, rfl⟩ : ∃ k, i = k + 1 := ⟨i - 1, by omega⟩
    have hbyte := hstands.getElem? (k := v + k - j) (by omega)
    obtain ⟨b, hb⟩ : ∃ b, m[v + k - j]? = some b := ⟨_, List.getElem?_eq_getElem (by omega)⟩
    rw [hb, Nat.add_sub_cancel' (by omega), ← List.getElem?_drop] at hbyte
    have hword := hbytes b (List.mem_of_getElem? hb)
    rw [hrun.before k b rfl hbyte] at hword
    cases hword
  · -- the dollar sign belongs to the word
    have hbyte := hrun.standsAt.of_drop.getElem? (k := j - (v + i)) (by omega)
    rw [Nat.add_sub_cancel' hge, hj] at hbyte
    exact hdollar (List.mem_of_getElem? hbyte.symm)

theorem pairwise_of_length_le_one {R : Span → Span → Prop} {ss : List Span}
    (h : ss.length ≤ 1) : ss.Pairwise R := by
  match ss, h with
  | [], _ => exact .nil
  | [s], _ => exact List.pairwise_singleton R s

namespace BodyParts

variable {c : Catalog} {line base : Nat} {body : Text} (P : BodyParts c line base body)

/-- A key ends before the value begins, and so before all other spans. -/
theorem key_apart {s : Span} (hs : s ∈ P.keys) {i : Nat} {a : Span}
    (ha : a.start = base + i) (hi : P.valueOffset ≤ i) : s.Apart a := by
  have hstop := (P.key_marks s hs).stop_le
  have htake := List.length_take_le P.valueOffset body
  exact .inl (by omega)

theorem apart_wordSpans_metaSpans (hc : c.DollarFree) {a b : Span} (ha : a ∈ P.wordSpans)
    (hb : b ∈ P.metaSpans) : a.Apart b := by
  obtain ⟨i, w, hw, haccept, rfl⟩ := mem_ofWords ha
  obtain ⟨⟨j, m⟩, hm, rfl⟩ := List.mem_map.1 hb
  have hdollar := hc w (P.token_of_accept w haccept)
  rcases apart_word_metavar P.no_dollar hw hdollar hm with h | h
  · exact .inl (by dsimp only; omega)
  · exact .inr (by dsimp only; omega)

theorem apart (hc : c.DollarFree) : P.spans.Pairwise Apart := by
  have hwords : P.wordSpans.Pairwise Apart := (ofWords_pairwise _ _ _ _ _).imp .inl
  have hmetas : P.metaSpans.Pairwise Apart := by
    rw [metaSpans, List.pairwise_map]
    refine (metavars_pairwise body).imp ?_
    rintro ⟨i, m⟩ ⟨j, n⟩ hlt
    exact .inl (by dsimp only at hlt ⊢; omega)
  refine List.pairwise_append.2 ⟨List.pairwise_append.2
    ⟨pairwise_of_length_le_one P.one_key, hwords, ?_⟩, hmetas, ?_⟩
  · intro a ha b hb
    obtain ⟨i, w, -, -, rfl⟩ := mem_ofWords hb
    exact P.key_apart ha (Nat.add_assoc base P.valueOffset i) (Nat.le_add_right _ _)
  · intro a ha b hb
    rcases List.mem_append.1 ha with ha | ha
    · obtain ⟨⟨j, m⟩, hm, rfl⟩ := List.mem_map.1 hb
      exact P.key_apart ha rfl (le_of_mem_metavars P.no_dollar hm)
    · exact P.apart_wordSpans_metaSpans hc ha hb

end BodyParts

/-! ## The spans of a line -/

/-- The span of a comment, if there is one. -/
def commentSpans (line start : Nat) (comment : Text) : List Span :=
  if comment.isEmpty then [] else [⟨line, start, comment.length, .comment⟩]

theorem mem_commentSpans {line start : Nat} {comment : Text} {s : Span}
    (h : s ∈ commentSpans line start comment) :
    comment ≠ [] ∧ s = ⟨line, start, comment.length, .comment⟩ := by
  unfold commentSpans at h
  split at h
  · cases h
  · rename_i hne
    exact ⟨by simpa using hne, List.mem_singleton.1 h⟩

theorem length_commentSpans_le (line start : Nat) (comment : Text) :
    (commentSpans line start comment).length ≤ 1 := by
  unfold commentSpans
  split <;> simp

/-- A line is white space, a body and a comment; its spans are those of the body and of the
comment, in the order of their starts. -/
theorem ofLine_parts (c : Catalog) (inLanguages : Bool) {l : Line}
    (hl : l.trimmed = l.raw.trimLeft) :
    ∃ (lead body comment : Text) (P : BodyParts c l.index lead.length body),
      l.raw = lead ++ (body ++ comment) ∧ (∀ b ∈ comment.head?, b = 35) ∧
      (ofLine c inLanguages l).1.Perm
        (commentSpans l.index (lead.length + body.length) comment ++ P.spans) ∧
      (ofLine c inLanguages l).1.Pairwise fun a b => a.start ≤ b.start := by
  have hraw := Text.ofChars_leadingChars_append l.raw
  rw [← hl] at hraw
  have hbase : l.raw.length - l.trimmed.length = (Text.ofChars l.raw.leadingChars).length := by
    rw [← hraw, List.length_append, Nat.add_sub_cancel, hraw]
  generalize Text.ofChars l.raw.leadingChars = lead at hraw hbase
  have hsplit := splitComment_append l.trimmed
  have hcomment := splitComment_comment l.trimmed
  obtain ⟨P, hP⟩ := ofBody_parts c inLanguages l.index lead.length (splitComment l.trimmed).1
  refine ⟨lead, _, _, P, by rw [hsplit, hraw], hcomment, ?_⟩
  by_cases hempty : (splitComment l.trimmed).1.isEmpty = true
  · -- without a body there are no spans but the comment's
    have hspans : P.spans = [] := by
      rw [← hP, List.isEmpty_iff.1 hempty]
      cases inLanguages <;> rfl
    have hline : (ofLine c inLanguages l).1 =
        commentSpans l.index (lead.length + (splitComment l.trimmed).1.length)
          (splitComment l.trimmed).2 := by
      unfold ofLine
      split
      · rename_i htrimmed
        rw [List.isEmpty_iff.1 htrimmed]
        rfl
      · simp only [hempty, if_true, hbase]
        rfl
    rw [hline, hspans, List.append_nil]
    exact ⟨.refl _, pairwise_of_length_le_one (length_commentSpans_le _ _ _)⟩
  · have htrimmed : ¬ l.trimmed.isEmpty = true := by
      intro h
      rw [List.isEmpty_iff.1 h] at hempty
      exact hempty rfl
    have hline : (ofLine c inLanguages l).1 =
        (commentSpans l.index (lead.length + (splitComment l.trimmed).1.length)
          (splitComment l.trimmed).2 ++ P.spans).mergeSort fun a b => a.start ≤ b.start := by
      unfold ofLine
      rw [if_neg htrimmed]
      simp only [if_neg hempty, hbase, hP]
      rfl
    rw [hline]
    refine ⟨List.mergeSort_perm _ _, ?_⟩
    refine (List.pairwise_mergeSort ?_ ?_ _).imp fun h => by simpa using h
    · intro a b c hab hbc
      simp only [decide_eq_true_eq] at hab hbc ⊢
      omega
    · intro a b
      simp only [Bool.or_eq_true, decide_eq_true_eq]
      omega

section Line

variable (c : Catalog) (inLanguages : Bool) {l : Line} (hl : l.trimmed = l.raw.trimLeft)

include hl

theorem ofLine_placed {s : Span} (hs : s ∈ (ofLine c inLanguages l).1) :
    s.line = l.index ∧ s.Placed l.raw ∧
      (s.kind = .comment → s.start + s.length = l.raw.length) := by
  obtain ⟨lead, body, comment, P, hraw, hhash, hperm, -⟩ := ofLine_parts c inLanguages hl
  rcases List.mem_append.1 (hperm.mem_iff.1 hs) with h | h
  · obtain ⟨hne, rfl⟩ := mem_commentSpans h
    obtain ⟨b, rest, rfl⟩ := List.exists_cons_of_ne_nil hne
    obtain rfl : b = 35 := hhash b rfl
    have hlen : lead.length + body.length + (35 :: rest).length = l.raw.length := by
      rw [hraw, List.length_append, List.length_append, Nat.add_assoc]
    refine ⟨rfl, ⟨by simp, Nat.le_of_eq hlen, ?_, ?_⟩, fun _ => hlen⟩
    · apply Text.isBoundary_of_ascii (b := 35) _ (by decide)
      dsimp only
      rw [hraw, ← List.append_assoc, ← List.length_append, List.getElem?_append_right (by simp)]
      simp
    · dsimp only
      rw [hlen]
      exact Text.isBoundary_length l.raw
  · obtain ⟨hline, hkind, hmarks⟩ := P.marks h
    rw [hraw]
    exact ⟨hline, hmarks.placed, fun h => absurd h hkind⟩

theorem ofLine_sorted : (ofLine c inLanguages l).1.Pairwise fun a b => a.start ≤ b.start := by
  obtain ⟨_, _, _, _, -, -, -, hsorted⟩ := ofLine_parts c inLanguages hl
  exact hsorted

theorem ofLine_apart (hc : c.DollarFree) :
    (ofLine c inLanguages l).1.Pairwise fun a b => a.start + a.length ≤ b.start := by
  obtain ⟨lead, body, comment, P, hraw, -, hperm, hsorted⟩ := ofLine_parts c inLanguages hl
  have hparts : (commentSpans l.index (lead.length + body.length) comment ++ P.spans).Pairwise
      Apart := by
    refine List.pairwise_append.2
      ⟨pairwise_of_length_le_one (length_commentSpans_le _ _ _), P.apart hc, ?_⟩
    intro a ha b hb
    obtain ⟨-, rfl⟩ := mem_commentSpans ha
    exact .inr (P.marks hb).2.2.stop_le
  have hapart := (hperm.pairwise_iff Apart.symm).2 hparts
  refine (hsorted.and hapart).imp_of_mem ?_
  rintro a b - hb ⟨hle, hab | hba⟩
  · exact hab
  · -- a span that ends before an earlier one begins would be empty
    have hpos := (ofLine_placed c inLanguages hl hb).2.1.length_pos
    omega

end Line

/-! ## The spans of a document -/

theorem mem_ofLines {c : Catalog} {inLanguages : Bool} {ls : List Line} {s : Span}
    (h : s ∈ ofLines c inLanguages ls) :
    ∃ inLanguages', ∃ l ∈ ls, s ∈ (ofLine c inLanguages' l).1 := by
  induction ls generalizing inLanguages with
  | nil => cases h
  | cons l ls ih =>
    rcases List.mem_append.1 h with h | h
    · exact ⟨inLanguages, l, List.mem_cons_self, h⟩
    · obtain ⟨inLanguages', l', hl', hs⟩ := ih h
      exact ⟨inLanguages', l', List.mem_cons_of_mem l hl', hs⟩

/-- Spans are in the order of their lines, and what relates the spans of each line relates them in
the document. -/
theorem ofLines_pairwise {c : Catalog} {R : Span → Span → Prop} {ls : List Line}
    (hindex : ls.Pairwise fun l l' => l.index < l'.index)
    (hline : ∀ inLanguages, ∀ l ∈ ls, ∀ s ∈ (ofLine c inLanguages l).1, s.line = l.index)
    (hwithin : ∀ inLanguages, ∀ l ∈ ls, (ofLine c inLanguages l).1.Pairwise R)
    (inLanguages : Bool) :
    (ofLines c inLanguages ls).Pairwise fun a b => a.line < b.line ∨ a.line = b.line ∧ R a b := by
  induction ls generalizing inLanguages with
  | nil => exact .nil
  | cons l ls ih =>
    obtain ⟨hfirst, hrest⟩ := List.pairwise_cons.1 hindex
    refine List.pairwise_append.2 ⟨?_, ?_, ?_⟩
    · refine (hwithin inLanguages l List.mem_cons_self).imp_of_mem ?_
      intro a b ha hb hab
      have hla := hline inLanguages l List.mem_cons_self a ha
      have hlb := hline inLanguages l List.mem_cons_self b hb
      exact .inr ⟨by rw [hla, hlb], hab⟩
    · exact ih hrest (fun b l' hl' => hline b l' (List.mem_cons_of_mem l hl'))
        (fun b l' hl' => hwithin b l' (List.mem_cons_of_mem l hl')) _
    · intro a ha b hb
      obtain ⟨_, l', hl', hb⟩ := mem_ofLines hb
      left
      rw [hline _ l List.mem_cons_self a ha, hline _ l' (List.mem_cons_of_mem l hl') b hb]
      exact hfirst l' hl'

section Document

variable (c : Catalog) (t : Text)

theorem mem_ofText {s : Span} (h : s ∈ ofText c t) :
    ∃ line, t.lines[s.line]? = some line ∧ s.Placed line ∧
      (s.kind = .comment → s.start + s.length = line.length) := by
  obtain ⟨inLanguages, l, hl, hs⟩ := mem_ofLines h
  obtain ⟨i, raw, d, hraw, -, rfl⟩ := (Line.mem_classifyAll c t.lines l).1 hl
  obtain ⟨hline, hplaced, hcomment⟩ := ofLine_placed c inLanguages rfl hs
  exact ⟨raw, by rw [hline]; exact hraw, hplaced, hcomment⟩

theorem placed_of_line_eq {a b : Span} (ha : a ∈ ofText c t) (hb : b ∈ ofText c t)
    (heq : a.line = b.line) :
    ∃ line, t.lines[a.line]? = some line ∧ t.lines[b.line]? = some line ∧ a.Placed line ∧
      b.Placed line := by
  obtain ⟨line, hline, hplaced, -⟩ := mem_ofText c t ha
  obtain ⟨line', hline', hplaced', -⟩ := mem_ofText c t hb
  rw [heq, hline'] at hline
  cases hline
  exact ⟨line, by rw [heq, hline'], hline', hplaced, hplaced'⟩

theorem ofText_pairwise {R : Span → Span → Prop}
    (hwithin : ∀ inLanguages (l : Line), l.trimmed = l.raw.trimLeft →
      (ofLine c inLanguages l).1.Pairwise R) :
    (ofText c t).Pairwise fun a b => a.line < b.line ∨ a.line = b.line ∧ R a b := by
  have htrimmed : ∀ l ∈ Line.classifyAll c t.lines, l.trimmed = l.raw.trimLeft := by
    intro l hl
    obtain ⟨_, _, _, -, -, rfl⟩ := (Line.mem_classifyAll c t.lines l).1 hl
    rfl
  apply ofLines_pairwise
  · rw [← List.pairwise_map, Line.classifyAll, Line.map_index_classifyFrom]
    exact List.pairwise_lt_range'
  · exact fun inLanguages l hl s hs => (ofLine_placed c inLanguages (htrimmed l hl) hs).1
  · exact fun inLanguages l hl => hwithin inLanguages l (htrimmed l hl)

theorem ofText_sorted :
    (ofText c t).Pairwise fun a b => a.line < b.line ∨ a.line = b.line ∧ a.start ≤ b.start :=
  ofText_pairwise c t fun inLanguages _ hl => ofLine_sorted c inLanguages hl

theorem ofText_apart (hc : c.DollarFree) :
    (ofText c t).Pairwise fun a b =>
      a.line < b.line ∨ a.line = b.line ∧ a.start + a.length ≤ b.start :=
  ofText_pairwise c t fun inLanguages _ hl => ofLine_apart c inLanguages hl hc

end Document

/-! ## UTF-16 columns -/

@[simp] theorem toUtf16_line (lines : List Text) (s : Span) : (toUtf16 lines s).line = s.line := by
  unfold toUtf16
  split <;> rfl

@[simp] theorem toUtf16_kind (lines : List Text) (s : Span) : (toUtf16 lines s).kind = s.kind := by
  unfold toUtf16
  split <;> rfl

section Utf16

variable {lines : List Text} {line : Text} {s : Span} (hline : lines[s.line]? = some line)

include hline

theorem toUtf16_start : (toUtf16 lines s).start = line.utf16Col s.start := by
  simp only [toUtf16, hline]

theorem toUtf16_length :
    (toUtf16 lines s).length = line.utf16Col (s.start + s.length) - line.utf16Col s.start := by
  simp only [toUtf16, hline]

theorem toUtf16_length_pos (h : s.Placed line) : 0 < (toUtf16 lines s).length := by
  have hpos := h.length_pos
  have hlt := Text.utf16Col_lt h.start_boundary h.stop_boundary (by omega)
  rw [toUtf16_length hline]
  omega

theorem toUtf16_stop (h : s.Placed line) :
    (toUtf16 lines s).start + (toUtf16 lines s).length = line.utf16Col (s.start + s.length) := by
  have hle := Text.utf16Col_le h.start_boundary h.stop_boundary (Nat.le_add_right _ _)
  rw [toUtf16_start hline, toUtf16_length hline]
  omega

theorem toUtf16_stop_le (h : s.Placed line) :
    (toUtf16 lines s).start + (toUtf16 lines s).length ≤ line.utf16Col line.length := by
  rw [toUtf16_stop hline h]
  exact Text.utf16Col_le h.stop_boundary (Text.isBoundary_length line) h.le_length

end Utf16

/-- The spans lie in their lines, where `width` measures a line, one after another and without
overlap; a comment is the last span of its line and ends with it. -/
structure InPlace (width : Text → Nat) (lines : List Text) (spans : List Span) : Prop where
  ordered : spans.Pairwise fun a b => a.line < b.line ∨ a.line = b.line ∧ a.start < b.start
  disjoint : spans.Pairwise fun a b => a.line = b.line → a.start + a.length ≤ b.start
  inside : ∀ s ∈ spans, 1 ≤ s.length ∧
    ∃ line, lines[s.line]? = some line ∧ s.start + s.length ≤ width line
  comment_last : spans.Pairwise fun a b => a.kind = .comment → a.line ≠ b.line
  comment_stop : ∀ s ∈ spans, s.kind = .comment →
    ∃ line, lines[s.line]? = some line ∧ s.start + s.length = width line

/-- Spans that follow one another, each inside its line, are in place if comments end with their
lines. -/
theorem inPlace_of_apart {width : Text → Nat} {lines : List Text} {spans : List Span}
    (hapart : spans.Pairwise fun a b =>
      a.line < b.line ∨ a.line = b.line ∧ a.start + a.length ≤ b.start)
    (hinside : ∀ s ∈ spans, ∃ line, lines[s.line]? = some line ∧ 0 < s.length ∧
      s.start + s.length ≤ width line ∧ (s.kind = .comment → s.start + s.length = width line)) :
    InPlace width lines spans where
  ordered := by
    refine hapart.imp_of_mem ?_
    intro a b ha _ hab
    obtain ⟨_, -, hpos, -⟩ := hinside a ha
    omega
  disjoint := by
    refine hapart.imp ?_
    intro a b hab heq
    omega
  inside := by
    intro s hs
    obtain ⟨line, hline, hpos, hle, -⟩ := hinside s hs
    exact ⟨hpos, line, hline, hle⟩
  comment_last := by
    refine hapart.imp_of_mem ?_
    intro a b ha hb hab hkind heq
    obtain ⟨line, hla, -, -, hstop⟩ := hinside a ha
    obtain ⟨line', hlb, hpos, hle, -⟩ := hinside b hb
    rw [heq, hlb] at hla
    cases hla
    have hend := hstop hkind
    omega
  comment_stop := by
    intro s hs hkind
    obtain ⟨line, hline, -, -, hstop⟩ := hinside s hs
    exact ⟨line, hline, hstop hkind⟩

theorem builtin_dollarFree : Catalog.builtin.DollarFree := by
  unfold Catalog.DollarFree
  decide +kernel

/-- **Spans never overlap and stay inside their lines.** For the built-in catalog, and for every
catalog whose severities and languages have no dollar sign, in bytes and in UTF-16 units. -/
theorem ofText_inPlace (c : Catalog) (hc : c = .builtin ∨ c.DollarFree) (t : Text) :
    InPlace List.length t.lines (ofText c t) ∧
    InPlace (fun line => line.utf16Col line.length) t.lines
      ((ofText c t).map (toUtf16 t.lines)) := by
  have hfree : c.DollarFree := by
    rcases hc with rfl | hc
    · exact builtin_dollarFree
    · exact hc
  have hapart := ofText_apart c t hfree
  constructor
  · apply inPlace_of_apart hapart
    intro s hs
    obtain ⟨line, hline, hplaced, hcomment⟩ := mem_ofText c t hs
    exact ⟨line, hline, hplaced.length_pos, hplaced.le_length, hcomment⟩
  · apply inPlace_of_apart
    · rw [List.pairwise_map]
      refine hapart.imp_of_mem ?_
      rintro a b ha hb (hlt | ⟨heq, hle⟩)
      · left
        simpa using hlt
      · obtain ⟨line, hline, hline', hplaced, hplaced'⟩ := placed_of_line_eq c t ha hb heq
        right
        rw [toUtf16_stop hline hplaced, toUtf16_start hline']
        exact ⟨by simpa using heq,
          Text.utf16Col_le hplaced.stop_boundary hplaced'.start_boundary hle⟩
    · intro s' hs'
      obtain ⟨s, hs, rfl⟩ := List.mem_map.1 hs'
      obtain ⟨line, hline, hplaced, hcomment⟩ := mem_ofText c t hs
      refine ⟨line, by rw [toUtf16_line]; exact hline, toUtf16_length_pos hline hplaced,
        toUtf16_stop_le hline hplaced, ?_⟩
      intro hkind
      rw [toUtf16_kind] at hkind
      rw [toUtf16_stop hline hplaced, hcomment hkind]

/-- A language `X` beside the metavariable `$X`, behind wide characters and before a comment. -/
theorem ofText_inPlace_metavariable :
    let c : Catalog := ⟨[], [], [], [], [txt "X"], []⟩
    let t := txt "languages: \"😀\" X, $X # é"
    c.DollarFree ∧
    InPlace List.length t.lines (ofText c t) ∧
    InPlace (fun line => line.utf16Col line.length) t.lines
      ((ofText c t).map (toUtf16 t.lines)) := by
  intro c t
  have hc : c.DollarFree := by
    unfold Catalog.DollarFree
    decide
  exact ⟨hc, ofText_inPlace c (.inr hc) t⟩

end Span
end RuleLang
