import Mathlib.Data.List.Induction
import RuleLang.Proofs.Editor.SpanLayout
import RuleLang.Proofs.Editor.WordRuns
import RuleLang.Proofs.Indent.ClosedForm

/-!
# RuleLang.Proofs.Editor.TokenSpans

Which words of a document are coloured as severities and as languages.

Line by line, tokens are looked for in one field of the body: the value of `severity`, the value of
`languages`, or what follows the dash of an item while a list of languages is open
(`Span.tokenField?`). What is coloured are the runs of word bytes of that field which the catalog
accepts, and they are runs of the whole line, because the field stands between bytes of other kinds
(`Span.mem_ofLine_token_iff`).

Whether a list is open is carried from line to line. `Span.listOpen_iff` tells it without the
carrying: the last heading above has the key `languages`, where blank lines, comments and bare
items are no headings. `Span.mem_ofText_typeName_iff` reads the language spans of a document off
both.
-/

namespace RuleLang

namespace Text

/-- A line without the white space in front and without its comment. -/
def body (line : Text) : Text := (splitComment line.trimLeft).1

/-- The byte at which the body begins. -/
def bodyStart (line : Text) : Nat := line.length - line.trimLeft.length

/-- The key of a line, if it has one. -/
def key? (line : Text) : Option Text := (splitKey? line.body).map KeyValue.key

/-- A list item without a key. -/
def IsBareItem (line : Text) : Prop := line.body.startsWith [45] = true ∧ splitKey? line.body = none

instance : DecidablePred IsBareItem := fun _ => inferInstanceAs (Decidable (_ ∧ _))

/-- A line with a body that is no bare item. -/
def IsHeading (line : Text) : Prop := line.body ≠ [] ∧ ¬ line.IsBareItem

instance : DecidablePred IsHeading := fun _ => inferInstanceAs (Decidable (_ ∧ _))

/-- A line is white space, its body and a comment. -/
theorem exists_parts (line : Text) : ∃ lead comment : Text,
    line = lead ++ (line.body ++ comment) ∧ lead.length = line.bodyStart ∧
      ∀ b ∈ comment.head?, b = 35 := by
  refine ⟨ofChars line.leadingChars, (splitComment line.trimLeft).2, ?_,
    length_ofChars_leadingChars line, splitComment_comment line.trimLeft⟩
  rw [body, splitComment_append, ofChars_leadingChars_append]

end Text

namespace Span

/-! ## The field of a body -/

/-- The kind of tokens that are looked for in a body, and the byte from which on. -/
def tokenField? (isOpen : Bool) (body : Text) : Option (SpanKind × Nat) :=
  match splitKey? body with
  | some kv =>
    if kv.key = txt "severity" then some (.enumMember, kv.valueOffset)
    else if kv.key = txt "languages" then some (.typeName, kv.valueOffset)
    else none
  | none => if isOpen && body.startsWith [45] then some (.typeName, 1) else none

/-- Is the word a token of the given kind? -/
def accepts (c : Catalog) : SpanKind → Text → Bool
  | .enumMember => c.isSeverity
  | .typeName => c.isLanguage
  | _ => fun _ => false

/-- Severities and languages. -/
def IsToken (s : Span) : Prop := s.kind = .enumMember ∨ s.kind = .typeName

def tokenSpans (c : Catalog) (isOpen : Bool) (line base : Nat) (body : Text) : List Span :=
  match tokenField? isOpen body with
  | some (kind, v) => ofWords line (base + v) kind (accepts c kind) (body.drop v)
  | none => []

section Body

variable {c : Catalog} {isOpen : Bool} {line base : Nat} {body : Text} {s : Span}

theorem mem_ofWords_iff {kind : SpanKind} {accept : Text → Bool} {t : Text} :
    s ∈ ofWords line base kind accept t ↔
      ∃ i w, t.IsRun isWordByte i w ∧ accept w = true ∧ s = ⟨line, base + i, w.length, kind⟩ := by
  constructor
  · intro h
    obtain ⟨i, w, hmem, haccept, rfl⟩ := mem_ofWords h
    exact ⟨i, w, mem_words_iff.1 hmem, haccept, rfl⟩
  · rintro ⟨i, w, hrun, haccept, rfl⟩
    exact List.mem_filterMap.2 ⟨(i, w), mem_words_iff.2 hrun, if_pos haccept⟩

/-- Besides the tokens there are only keys and metavariables. -/
theorem mem_ofBody_token_iff (hs : s.IsToken) :
    s ∈ (ofBody c isOpen line base body).1 ↔ s ∈ tokenSpans c isOpen line base body := by
  have hmeta : s ∉ (metavars body).map fun x =>
      (⟨line, base + x.1, x.2.length, .variableName⟩ : Span) := by
    intro h
    obtain ⟨_, -, rfl⟩ := List.mem_map.1 h
    rcases hs with hs | hs <;> cases hs
  cases hkv : splitKey? body with
  | some kv =>
    have hkey : s ∉ [(⟨line, base + kv.keyOffset, kv.key.length,
        if (c.match? body).isSome then SpanKind.keyword else .property⟩ : Span)] := by
      intro h
      rw [List.mem_singleton.1 h] at hs
      rcases hs with hs | hs <;> dsimp only at hs <;> split at hs <;> cases hs
    have hdrop := (splitKey?_cut hkv).1
    by_cases hsev : kv.key = txt "severity"
    · simp only [ofBody, tokenSpans, tokenField?, hkv, if_pos hsev, List.mem_append, hkey, hmeta,
        false_or, or_false, hdrop, accepts]
    · by_cases hlang : kv.key = txt "languages"
      · simp only [ofBody, tokenSpans, tokenField?, hkv, if_neg hsev, if_pos hlang,
          List.mem_append, hkey, hmeta, false_or, or_false, hdrop, accepts]
      · simp only [ofBody, tokenSpans, tokenField?, hkv, if_neg hsev, if_neg hlang,
          List.mem_append, hkey, hmeta, false_or, or_false]
  | none =>
    by_cases hitem : (isOpen && body.startsWith [45]) = true
    · simp only [ofBody, tokenSpans, tokenField?, hkv, if_pos hitem, List.mem_append, hmeta,
        List.not_mem_nil, false_or, or_false, accepts]
    · simp only [ofBody, tokenSpans, tokenField?, hkv, if_neg hitem, List.mem_append, hmeta,
        List.not_mem_nil, or_false]

theorem tokenField?_eq_some_iff {kind : SpanKind} {v : Nat} :
    tokenField? isOpen body = some (kind, v) ↔
      (∃ kv, splitKey? body = some kv ∧ kv.valueOffset = v ∧
        (kind = .enumMember ∧ kv.key = txt "severity" ∨
          kind = .typeName ∧ kv.key = txt "languages")) ∨
      (splitKey? body = none ∧ body.startsWith [45] = true ∧ isOpen = true ∧
        kind = .typeName ∧ 1 = v) := by
  unfold tokenField?
  cases splitKey? body with
  | some kv =>
    constructor
    · intro h
      left
      refine ⟨kv, rfl, ?_⟩
      dsimp only at h
      split at h
      · rename_i hsev
        cases h
        exact ⟨rfl, .inl ⟨rfl, hsev⟩⟩
      · split at h
        · rename_i hlang
          cases h
          exact ⟨rfl, .inr ⟨rfl, hlang⟩⟩
        · cases h
    · rintro (⟨kv', hkv, rfl, ⟨rfl, hsev⟩ | ⟨rfl, hlang⟩⟩ | ⟨hkv, -⟩)
      · cases hkv
        exact if_pos hsev
      · cases hkv
        have hsev : kv.key ≠ txt "severity" := by
          rw [hlang]
          decide
        dsimp only
        rw [if_neg hsev, if_pos hlang]
      · cases hkv
  | none =>
    constructor
    · intro h
      right
      dsimp only at h
      split at h
      · rename_i hitem
        obtain ⟨hopen, hdash⟩ := Bool.and_eq_true_iff.1 hitem
        cases h
        exact ⟨rfl, hdash, hopen, rfl, rfl⟩
      · cases h
    · rintro (⟨_, hkv, -⟩ | ⟨-, hdash, hopen, rfl, rfl⟩)
      · cases hkv
      · exact if_pos (Bool.and_eq_true_iff.2 ⟨hopen, hdash⟩)

theorem ofBody_isOpen :
    (ofBody c isOpen line base body).2 =
      match splitKey? body with
      | some kv => decide (kv.key = txt "languages")
      | none => isOpen && body.startsWith [45] := by
  unfold ofBody
  cases splitKey? body with
  | some kv =>
    by_cases hsev : kv.key = txt "severity"
    · have hne : txt "severity" ≠ txt "languages" := by decide
      simp [hsev, hne]
    · simp only [if_neg hsev]
      by_cases hlang : kv.key = txt "languages" <;> simp [hlang]
  | none =>
    by_cases hitem : (isOpen && body.startsWith [45]) = true <;> simp [hitem]

/-- The field begins behind a colon or a dash. -/
theorem exists_before_field {kind : SpanKind} {v : Nat}
    (h : tokenField? isOpen body = some (kind, v)) :
    ∃ front b field, body = front ++ [b] ++ field ∧ (front ++ [b]).length = v ∧
      isWordByte b = false := by
  rcases tokenField?_eq_some_iff.1 h with ⟨kv, hkv, rfl, -⟩ | ⟨-, hdash, -, -, rfl⟩
  · obtain ⟨dash, -, hbody, -, hoffset, -⟩ := splitKey?_eq_some hkv
    refine ⟨dash ++ kv.key, 58, kv.value, by simp [hbody], ?_, by decide⟩
    simp only [hoffset, List.length_append, List.length_singleton]
  · obtain ⟨rest, rfl⟩ := Text.startsWith_iff.1 hdash
    exact ⟨[], 45, rest, rfl, rfl, by decide⟩

end Body

/-! ## The tokens of a line -/

/-- The span marks a token in the field of a line: a run of word bytes that the catalog accepts. -/
def MarksToken (c : Catalog) (isOpen : Bool) (line : Text) (s : Span) : Prop :=
  ∃ v w, tokenField? isOpen line.body = some (s.kind, v) ∧ line.IsRun isWordByte s.start w ∧
    w.length = s.length ∧ accepts c s.kind w = true ∧ line.bodyStart + v ≤ s.start ∧
    s.start + s.length ≤ line.bodyStart + line.body.length

theorem mem_tokenSpans_iff {c : Catalog} {isOpen : Bool} {n : Nat} {line : Text} {s : Span} :
    s ∈ tokenSpans c isOpen n line.bodyStart line.body ↔
      s.line = n ∧ s.MarksToken c isOpen line := by
  obtain ⟨lead, comment, hline, hlead, hhash⟩ := line.exists_parts
  have hcomment : ∀ b ∈ comment.head?, isWordByte b = false := by
    intro b hb
    rw [hhash b hb]
    decide
  unfold tokenSpans MarksToken
  cases hfield : tokenField? isOpen line.body with
  | none => simp
  | some found =>
    obtain ⟨kind, v⟩ := found
    obtain ⟨front, b, field, hbody, rfl, hb⟩ := exists_before_field hfield
    have hbefore : ∀ x ∈ (lead ++ (front ++ [b])).getLast?, isWordByte x = false := by
      intro x hx
      obtain rfl : b = x := by simpa using hx
      exact hb
    rw [hbody] at hline
    have hparts : line = lead ++ (front ++ [b]) ++ (field ++ comment) := by
      rw [hline]
      simp
    have hstart : (lead ++ (front ++ [b])).length = line.bodyStart + (front ++ [b]).length := by
      rw [List.length_append, hlead]
    have hstop : line.body.length = (front ++ [b]).length + field.length := by
      rw [hbody, List.length_append]
    have hdrop : line.body.drop (front ++ [b]).length = field := by rw [hbody, List.drop_left]
    simp only [hdrop, mem_ofWords_iff, Option.some.injEq, Prod.mk.injEq]
    constructor
    · rintro ⟨i, w, hrun, haccept, rfl⟩
      have hle := hrun.add_length_le
      have hwhole := hrun.append hbefore hcomment
      rw [← hparts, hstart] at hwhole
      refine ⟨rfl, _, w, ⟨rfl, rfl⟩, hwhole, rfl, haccept, Nat.le_add_right _ _, ?_⟩
      dsimp only
      omega
    · rintro ⟨rfl, _, w, ⟨rfl, rfl⟩, hrun, hlen, haccept, hge, hle⟩
      obtain ⟨i, hi⟩ : ∃ i, s.start = (lead ++ (front ++ [b])).length + i :=
        ⟨s.start - (lead ++ (front ++ [b])).length, by omega⟩
      rw [hparts, hi] at hrun
      refine ⟨i, w, hrun.of_append (by omega), haccept, ?_⟩
      rw [← hstart, ← hi, hlen]

section Line

variable (c : Catalog) (isOpen : Bool) {l : Line} (hl : l.trimmed = l.raw.trimLeft)

include hl

theorem ofLine_eq :
    ofLine c isOpen l =
      let comments := commentSpans l.index (l.raw.bodyStart + l.raw.body.length)
        (splitComment l.raw.trimLeft).2
      let rest := ofBody c isOpen l.index l.raw.bodyStart l.raw.body
      if l.raw.body = [] then (comments, isOpen)
      else ((comments ++ rest.1).mergeSort fun a b => a.start ≤ b.start, rest.2) := by
  unfold ofLine
  split
  · rename_i hblank
    rw [hl, List.isEmpty_iff] at hblank
    simp only [Text.body, hblank]
    rfl
  · simp only [hl, List.isEmpty_iff, commentSpans, Text.body, Text.bodyStart]

theorem mem_ofLine_token_iff {s : Span} (hs : s.IsToken) :
    s ∈ (ofLine c isOpen l).1 ↔ s.line = l.index ∧ s.MarksToken c isOpen l.raw := by
  have hcomment : ∀ start comment, s ∉ commentSpans l.index start comment := by
    intro start comment h
    rw [(mem_commentSpans h).2] at hs
    rcases hs with hs | hs <;> cases hs
  rw [← mem_tokenSpans_iff, ofLine_eq c isOpen hl]
  by_cases hbody : l.raw.body = []
  · have hnone : tokenSpans c isOpen l.index l.raw.bodyStart [] = [] := by
      cases isOpen <;> rfl
    simp [hbody, hcomment, hnone]
  · simp [hbody, hcomment, mem_ofBody_token_iff hs, List.mem_mergeSort]

/-- Only a heading opens or closes a list of languages. -/
theorem ofLine_isOpen :
    (ofLine c isOpen l).2 =
      if l.raw.IsHeading then decide (l.raw.key? = some (txt "languages")) else isOpen := by
  rw [ofLine_eq c isOpen hl]
  by_cases hbody : l.raw.body = []
  · have hhead : ¬ l.raw.IsHeading := fun h => h.1 hbody
    simp [hbody, hhead]
  · rcases Option.eq_none_or_eq_some (splitKey? l.raw.body) with hkv | ⟨kv, hkv⟩
    · by_cases hdash : l.raw.body.startsWith [45] = true
      · have hhead : ¬ l.raw.IsHeading := fun h => h.2 ⟨hdash, hkv⟩
        simp [hbody, hhead, ofBody_isOpen, hkv, hdash]
      · have hhead : l.raw.IsHeading := ⟨hbody, fun h => hdash h.1⟩
        simp [hbody, hhead, ofBody_isOpen, hkv, hdash, Text.key?]
    · have hhead : l.raw.IsHeading := ⟨hbody, fun h => absurd h.2 (by simp [hkv])⟩
      simp [hbody, hhead, ofBody_isOpen, hkv, Text.key?]

end Line

/-! ## Lists of languages -/

/-- Is a list of languages open after the lines? -/
def listOpen (lines : List Text) : Bool :=
  lines.foldl (fun isOpen line =>
    if line.IsHeading then decide (line.key? = some (txt "languages")) else isOpen) false

theorem listOpen_iff (lines : List Text) :
    listOpen lines = true ↔ ∃ above, (lines.filter Text.IsHeading).getLast? = some above ∧
      above.key? = some (txt "languages") := by
  induction lines using List.reverseRecOn with
  | nil => simp [listOpen]
  | append_singleton lines line ih =>
    by_cases hhead : line.IsHeading
    · simp [listOpen, hhead]
    · have hstep : listOpen (lines ++ [line]) = listOpen lines := by simp [listOpen, hhead]
      rw [hstep, ih]
      simp [hhead]

/-- Every line is coloured with what the lines above it have left open. -/
theorem mem_ofLines_iff {c : Catalog} {isOpen : Bool} {ls : List Line} {s : Span} :
    s ∈ ofLines c isOpen ls ↔ ∃ k l, ls[k]? = some l ∧
      s ∈ (ofLine c ((ls.take k).foldl (fun isOpen l => (ofLine c isOpen l).2) isOpen) l).1 := by
  induction ls generalizing isOpen with
  | nil => simp [ofLines]
  | cons l ls ih =>
    rw [ofLines, List.mem_append, ih]
    constructor
    · rintro (h | ⟨k, l', hl', h⟩)
      · exact ⟨0, l, rfl, h⟩
      · exact ⟨k + 1, l', hl', h⟩
    · rintro ⟨k, l', hl', h⟩
      cases k with
      | zero =>
        cases hl'
        exact .inl h
      | succ k => exact .inr ⟨k, l', hl', h⟩

theorem foldl_classifyFrom (c : Catalog) (d : Depth) (i : Nat) (lines : List Text)
    (isOpen : Bool) :
    (Line.classifyFrom c d i lines).foldl (fun isOpen l => (ofLine c isOpen l).2) isOpen =
      lines.foldl (fun isOpen line =>
        if line.IsHeading then decide (line.key? = some (txt "languages")) else isOpen)
        isOpen := by
  induction lines generalizing d i isOpen with
  | nil => rfl
  | cons raw rest ih =>
    rw [Line.classifyFrom, List.foldl_cons, List.foldl_cons, ih, ofLine_isOpen c isOpen rfl]
    rfl

/-- The tokens of a document, line by line. -/
theorem mem_ofText_token_iff (c : Catalog) (t : Text) {s : Span} (hs : s.IsToken) :
    s ∈ ofText c t ↔ ∃ line, t.lines[s.line]? = some line ∧
      s.MarksToken c (listOpen (t.lines.take s.line)) line := by
  rw [ofText, mem_ofLines_iff]
  constructor
  · rintro ⟨k, l, hl, h⟩
    rw [Line.classifyAll, Line.take_classifyFrom, foldl_classifyFrom] at h
    rw [Line.getElem?_classifyAll, Option.map_eq_some_iff] at hl
    obtain ⟨line, hline, rfl⟩ := hl
    obtain ⟨rfl, hmarks⟩ := (mem_ofLine_token_iff c _ rfl hs).1 h
    exact ⟨line, hline, hmarks⟩
  · rintro ⟨line, hline, hmarks⟩
    refine ⟨s.line, _, by rw [Line.getElem?_classifyAll, hline, Option.map_some], ?_⟩
    rw [Line.classifyAll, Line.take_classifyFrom, foldl_classifyFrom]
    exact (mem_ofLine_token_iff c _ rfl hs).2 ⟨rfl, hmarks⟩

/-- **Languages are coloured exactly in lists of languages.** A span of a line marks a language if
and only if it is a run of word bytes that the catalog takes for a language and stands in the body,
either in the value of the key `languages` or behind the dash of a bare item, where the last
heading above the item has the key `languages`. -/
theorem mem_ofText_typeName_iff (c : Catalog) (t : Text) (i start length : Nat) :
    ⟨i, start, length, .typeName⟩ ∈ ofText c t ↔
      ∃ line w : Text, t.lines[i]? = some line ∧ line.IsRun isWordByte start w ∧
        w.length = length ∧ c.isLanguage w = true ∧
        start + length ≤ line.bodyStart + line.body.length ∧
        ((∃ kv, splitKey? line.body = some kv ∧ kv.key = txt "languages" ∧
            line.bodyStart + kv.valueOffset ≤ start) ∨
          (line.body.startsWith [45] = true ∧ splitKey? line.body = none ∧
            line.bodyStart + 1 ≤ start ∧
            ∃ above, ((t.lines.take i).filter Text.IsHeading).getLast? = some above ∧
              above.key? = some (txt "languages"))) := by
  rw [mem_ofText_token_iff c t (.inr rfl), ← listOpen_iff]
  constructor
  · rintro ⟨line, hline, v, w, hfield, hrun, hlen, haccept, hge, hle⟩
    refine ⟨line, w, hline, hrun, hlen, haccept, hle, ?_⟩
    rcases tokenField?_eq_some_iff.1 hfield with
      ⟨kv, hkv, rfl, ⟨hkind, -⟩ | ⟨-, hkey⟩⟩ | ⟨hkv, hdash, hopen, -, rfl⟩
    · cases hkind
    · exact .inl ⟨kv, hkv, hkey, hge⟩
    · exact .inr ⟨hdash, hkv, hge, hopen⟩
  · rintro ⟨line, w, hline, hrun, hlen, haccept, hle, hplace⟩
    rcases hplace with ⟨kv, hkv, hkey, hge⟩ | ⟨hdash, hkv, hge, hopen⟩
    · have hfield : tokenField? (listOpen (t.lines.take i)) line.body =
          some (.typeName, kv.valueOffset) :=
        tokenField?_eq_some_iff.2 (.inl ⟨kv, hkv, rfl, .inr ⟨rfl, hkey⟩⟩)
      exact ⟨line, hline, _, w, hfield, hrun, hlen, haccept, hge, hle⟩
    · have hfield : tokenField? (listOpen (t.lines.take i)) line.body = some (.typeName, 1) :=
        tokenField?_eq_some_iff.2 (.inr ⟨hkv, hdash, hopen, rfl, rfl⟩)
      exact ⟨line, hline, _, w, hfield, hrun, hlen, haccept, hge, hle⟩

end Span
end RuleLang
