import RuleLang.Proofs.Catalog.RowOrder
import RuleLang.Proofs.Indent.Reindent

/-!
# RuleLang.Proofs.Indent.ClosedForm

The depth of a line, told without the depths of the lines before it.

A line that matches a keyword has the keyword's depth. Any other line is placed by two things only:
the depth of the last keyword above it (`Line.keywordDepth`) and the inked lines since that keyword
(`Line.sinceKeyword`). Under a pattern keyword everything is a pattern; under a rule keyword the
first list item opens a pattern; under a root keyword the first inked line opens a rule, and a list
item after it a pattern (`Line.plainDepth`).

`Line.carry_eq` is the invariant: after any lines, the depth carried on is the one of this closed
form. `Line.classifyAll_closed_form` reads every line off it.
-/

namespace RuleLang

/-! ## Keywords at the root -/

namespace Catalog

theorem depth_eq_root_iff {t : KeywordTable} {e : Entry} (he : e ∈ (assemble t).entries) :
    e.depth = .root ↔ e ∈ (assemble t).root := by
  simp only [entries, assemble, List.mem_append, List.mem_map] at he ⊢
  constructor
  · intro hd
    rcases he with (hroot | ⟨r, -, rfl⟩) | ⟨r, -, rfl⟩
    · exact hroot
    · cases hd
    · cases hd
  · rintro ⟨r, -, rfl⟩
    rfl

/-- The entry that a line matches is a root entry as soon as any root entry begins the line. -/
theorem Valid.match?_root_iff {t : KeywordTable} (h : (assemble t).Valid) (line : Text) :
    (∃ e, (assemble t).match? line = some e ∧ e.depth = .root) ↔
      ∃ e ∈ (assemble t).root, line.startsWith e.stem = true := by
  constructor
  · rintro ⟨e, hm, hd⟩
    obtain ⟨he, hline⟩ := match?_eq_some hm
    exact ⟨e, (depth_eq_root_iff he).1 hd, hline⟩
  · rintro ⟨e, he, hline⟩
    have hmem : e ∈ (assemble t).entries := by simp [entries, he]
    cases hm : (assemble t).match? line with
    | none =>
      simp only [match?, List.find?_eq_none] at hm
      exact absurd hline (hm e hmem)
    | some e' =>
      obtain ⟨he', hline'⟩ := match?_eq_some hm
      refine ⟨e', rfl, ?_⟩
      rw [h.depth_eq he' hmem hline' hline]
      exact (depth_eq_root_iff hmem).2 he

theorem Valid.match?_nil {c : Catalog} (h : c.Valid) : c.match? [] = none := by
  cases hm : c.match? [] with
  | none => rfl
  | some e =>
    obtain ⟨he, hline⟩ := match?_eq_some hm
    rw [Text.startsWith_iff, List.prefix_nil] at hline
    -- an empty stem would be nothing but white space
    exact absurd (by rw [hline]; rfl) (h.named e he)

end Catalog

/-! ## One line -/

section DepthAfter

variable {c : Catalog} {trimmed : Text} (d : Depth)

theorem depthAfter_keyword {e : Entry} (h : c.match? trimmed = some e) :
    depthAfter c d trimmed = e.depth := by
  simp [depthAfter, h]

theorem depthAfter_blank (h : c.match? [] = none) : depthAfter c d [] = d := by
  simp [depthAfter, h]

theorem depthAfter_plain (h : c.match? trimmed = none) (hink : trimmed ≠ []) :
    depthAfter c d trimmed =
      if trimmed.startsWith [45] && d = .rule then .pattern
      else if d = .root then .rule
      else d := by
  simp [depthAfter, h, hink]

end DepthAfter

namespace Line

/-! ## The carried depth -/

/-- The depth left after lines that follow a line of depth `d`. -/
def carry (c : Catalog) (d : Depth) (lines : List Text) : Depth :=
  lines.foldl (fun d raw => depthAfter c d raw.trimLeft) d

theorem carry_concat (c : Catalog) (d : Depth) (lines : List Text) (raw : Text) :
    carry c d (lines ++ [raw]) = depthAfter c (carry c d lines) raw.trimLeft := by
  simp [carry]

theorem carry_take_succ (c : Catalog) (d : Depth) {lines : List Text} {i : Nat} {raw : Text}
    (h : lines[i]? = some raw) :
    carry c d (lines.take (i + 1)) = depthAfter c (carry c d (lines.take i)) raw.trimLeft := by
  rw [List.take_add_one, h, Option.toList_some, carry_concat]

theorem getElem?_depths (c : Catalog) (d : Depth) (lines : List Text) (i : Nat) :
    (depths c d lines)[i]? = lines[i]?.map fun _ => carry c d (lines.take (i + 1)) := by
  induction lines generalizing d i with
  | nil => rfl
  | cons raw rest ih =>
    rw [depths_cons]
    cases i with
    | zero => rfl
    | succ i =>
      rw [List.getElem?_cons_succ, List.getElem?_cons_succ, ih]
      rfl

theorem getElem?_classifyAll (c : Catalog) (lines : List Text) (i : Nat) :
    (classifyAll c lines)[i]? = lines[i]?.map fun raw =>
      ⟨i, raw, raw.leadingChars.length, raw.trimLeft, carry c .root (lines.take (i + 1))⟩ := by
  rw [classifyAll, getElem?_classifyFrom]
  cases hraw : lines[i]? with
  | none =>
    have hzip : (lines.zip (depths c .root lines))[i]? = none := by
      simpa using hraw
    rw [hzip]
    rfl
  | some raw =>
    have hdepth : (depths c .root lines)[i]? = some (carry c .root (lines.take (i + 1))) := by
      rw [getElem?_depths, hraw, Option.map_some]
    have hzip : (lines.zip (depths c .root lines))[i]? =
        some (raw, carry c .root (lines.take (i + 1))) :=
      List.getElem?_zip_eq_some.2 ⟨hraw, hdepth⟩
    rw [hzip, Option.map_some, Option.map_some, Nat.zero_add]

theorem take_classifyFrom (c : Catalog) (d : Depth) (i : Nat) (lines : List Text) (k : Nat) :
    (classifyFrom c d i lines).take k = classifyFrom c d i (lines.take k) := by
  induction lines generalizing d i k with
  | nil => simp [classifyFrom]
  | cons raw rest ih =>
    cases k with
    | zero => rfl
    | succ k => simp only [classifyFrom, List.take_succ_cons, ih]

/-- The lines up to a line are enough to tell its depth. -/
theorem depthAt_of_getElem? {c : Catalog} {lines : List Text} {i : Nat} {l : Line}
    (h : (classifyAll c lines)[i]? = some l) : depthAt c lines i = l.depth := by
  have hlast : (classifyAll c (lines.take (i + 1))).getLast? = some l := by
    rw [classifyAll, ← take_classifyFrom, ← classifyAll, List.getLast?_take, if_neg (by omega),
      Nat.add_sub_cancel, h, Option.some_or]
  rw [depthAt, if_neg (by omega), Int.toNat_natCast, hlast]

/-! ## The closed form -/

/-- Does a line begin with a dash? -/
def isItem (trimmed : Text) : Bool := trimmed.startsWith [45]

/-- The depth of the last line that matches a keyword; the root's if there is none. -/
def keywordDepth (c : Catalog) (lines : List Text) : Depth :=
  ((lines.filterMap fun raw => c.match? raw.trimLeft).getLast?.map Entry.depth).getD .root

/-- The lines after the last one that matches a keyword, trimmed and without the blank ones. -/
def sinceKeyword (c : Catalog) (lines : List Text) : List Text :=
  ((lines.map Text.trimLeft).reverse.takeWhile fun t => (c.match? t).isNone).reverse.filter
    fun t => t ≠ []

/-- The depth after the inked lines `since` that follow a keyword of depth `b`. -/
def plainDepth : (b : Depth) → (since : List Text) → Depth
  | .pattern, _ => .pattern
  | .rule, since => if since.any isItem then .pattern else .rule
  | .root, [] => .root
  | .root, _ :: later => if later.any isItem then .pattern else .rule

theorem plainDepth_nil (b : Depth) : plainDepth b [] = b := by
  cases b <;> rfl

theorem plainDepth_ne_root {b : Depth} {since : List Text} (h : since ≠ []) :
    plainDepth b since ≠ .root := by
  cases b with
  | root =>
    cases since with
    | nil => exact absurd rfl h
    | cons t later =>
      rw [plainDepth]
      split <;> simp
  | rule =>
    rw [plainDepth]
    split <;> simp
  | pattern => simp [plainDepth]

section Concat

variable {c : Catalog} {lines : List Text} {raw : Text}

theorem keywordDepth_concat_some {e : Entry} (h : c.match? raw.trimLeft = some e) :
    keywordDepth c (lines ++ [raw]) = e.depth := by
  simp [keywordDepth, h]

theorem keywordDepth_concat_none (h : c.match? raw.trimLeft = none) :
    keywordDepth c (lines ++ [raw]) = keywordDepth c lines := by
  simp [keywordDepth, h]

theorem sinceKeyword_concat_some {e : Entry} (h : c.match? raw.trimLeft = some e) :
    sinceKeyword c (lines ++ [raw]) = [] := by
  simp [sinceKeyword, h]

theorem sinceKeyword_concat_none (h : c.match? raw.trimLeft = none) :
    sinceKeyword c (lines ++ [raw]) =
      sinceKeyword c lines ++ if raw.trimLeft = [] then [] else [raw.trimLeft] := by
  by_cases hblank : raw.trimLeft = []
  · rw [hblank] at h
    simp [sinceKeyword, hblank, h]
  · simp [sinceKeyword, hblank, h]

/-- One more inked line moves the closed form as it moves the carried depth. -/
theorem plainDepth_concat (b : Depth) (since : List Text) (h : c.match? raw.trimLeft = none)
    (hink : raw.trimLeft ≠ []) :
    plainDepth b (since ++ [raw.trimLeft]) = depthAfter c (plainDepth b since) raw.trimLeft := by
  rw [depthAfter_plain _ h hink, ← isItem]
  cases b with
  | pattern => simp [plainDepth]
  | rule =>
    simp only [plainDepth, List.any_append, List.any_cons, List.any_nil, Bool.or_false]
    by_cases hold : since.any isItem <;> by_cases hnew : isItem raw.trimLeft <;> simp [hold, hnew]
  | root =>
    cases since with
    | nil => simp [plainDepth]
    | cons t later =>
      simp only [plainDepth, List.cons_append, List.any_append, List.any_cons, List.any_nil,
        Bool.or_false]
      by_cases hold : later.any isItem <;> by_cases hnew : isItem raw.trimLeft <;> simp [hold, hnew]

end Concat

theorem carry_eq (c : Catalog) (lines : List Text) :
    carry c .root lines = plainDepth (keywordDepth c lines) (sinceKeyword c lines) := by
  induction lines using List.reverseRecOn with
  | nil => rfl
  | append_singleton lines raw ih =>
    rw [carry_concat, ih]
    cases hm : c.match? raw.trimLeft with
    | some e =>
      rw [keywordDepth_concat_some hm, sinceKeyword_concat_some hm, plainDepth_nil,
        depthAfter_keyword _ hm]
    | none =>
      rw [keywordDepth_concat_none hm, sinceKeyword_concat_none hm]
      by_cases hblank : raw.trimLeft = []
      · rw [hblank] at hm
        rw [hblank, if_pos rfl, List.append_nil, depthAfter_blank _ hm]
      · rw [if_neg hblank, plainDepth_concat _ _ hm hblank]

/-- What the closed form says of an inked line without a keyword: the line itself is the last of the
lines since the keyword. -/
theorem carry_take_plain {c : Catalog} {lines : List Text} {i : Nat} {raw : Text}
    (hraw : lines[i]? = some raw) (hm : c.match? raw.trimLeft = none) (hink : raw.trimLeft ≠ []) :
    sinceKeyword c (lines.take (i + 1)) ≠ [] ∧
    carry c .root (lines.take (i + 1)) =
      plainDepth (keywordDepth c (lines.take i)) (sinceKeyword c (lines.take (i + 1))) := by
  have htake : lines.take (i + 1) = lines.take i ++ [raw] := by
    rw [List.take_add_one, hraw, Option.toList_some]
  constructor
  · rw [htake, sinceKeyword_concat_none hm, if_neg hink]
    simp
  · rw [carry_eq, htake, keywordDepth_concat_none hm]

/-- **The depth of every line in closed form.** A line that matches a keyword has its depth. A blank
line matches none and has the depth of the line before it, at the beginning the root's. Any other
line has a depth that is told by the depth of the last keyword before it and the inked lines since
then, up to the line itself. So an inked line stands at the root exactly if a root keyword begins
it. -/
theorem classifyAll_closed_form {t : KeywordTable} {c : Catalog} (h : Catalog.ofTable t = .ok c)
    (lines : List Text) :
    (classifyAll c lines).length = lines.length ∧
    ∀ (i : Nat) (raw : Text), lines[i]? = some raw → ∃ l : Line,
      (classifyAll c lines)[i]? = some l ∧ l.raw = raw ∧
      (∀ e, c.match? raw.trimLeft = some e → l.depth = e.depth) ∧
      (raw.trimLeft = [] → c.match? raw.trimLeft = none ∧ (i = 0 → l.depth = .root) ∧
        ∀ j l', i = j + 1 → (classifyAll c lines)[j]? = some l' → l.depth = l'.depth) ∧
      (c.match? raw.trimLeft = none → raw.trimLeft ≠ [] →
        let since := sinceKeyword c (lines.take (i + 1))
        l.depth = match keywordDepth c (lines.take i) with
          | .pattern => .pattern
          | .rule => if since.any isItem then .pattern else .rule
          | .root => if since.tail.any isItem then .pattern else .rule) ∧
      l.depth.level ≤ 2 ∧
      (raw.trimLeft ≠ [] →
        (l.depth = .root ↔ ∃ e ∈ c.root, raw.trimLeft.startsWith e.stem = true)) := by
  obtain ⟨rfl, hvalid⟩ := (Catalog.ofTable_eq_ok_iff t c).1 h
  refine ⟨by simpa [depths, classifyAll] using length_depths (Catalog.assemble t) .root lines, ?_⟩
  intro i raw hraw
  have hcarry := carry_take_succ (Catalog.assemble t) .root hraw
  refine ⟨_, by rw [getElem?_classifyAll, hraw, Option.map_some], rfl, ?_, ?_, ?_, ?_, ?_⟩
  · intro e he
    dsimp only
    rw [hcarry, depthAfter_keyword _ he]
  · intro hblank
    rw [hblank] at hcarry ⊢
    rw [depthAfter_blank _ hvalid.match?_nil] at hcarry
    refine ⟨hvalid.match?_nil, ?_, ?_⟩
    · rintro rfl
      exact hcarry
    · rintro j l' rfl hl'
      rw [getElem?_classifyAll, Option.map_eq_some_iff] at hl'
      obtain ⟨raw', -, rfl⟩ := hl'
      exact hcarry
  · intro hm hink
    obtain ⟨hne, hdepth⟩ := carry_take_plain hraw hm hink
    dsimp only
    rw [hdepth]
    generalize sinceKeyword (Catalog.assemble t) (lines.take (i + 1)) = since at hne ⊢
    cases keywordDepth (Catalog.assemble t) (lines.take i) with
    | pattern => rfl
    | rule => rfl
    | root =>
      cases since with
      | nil => exact absurd rfl hne
      | cons first later => rfl
  · dsimp only
    cases carry (Catalog.assemble t) .root (lines.take (i + 1)) <;> decide
  · intro hink
    rw [← hvalid.match?_root_iff]
    dsimp only
    cases hm : (Catalog.assemble t).match? raw.trimLeft with
    | some e => simp [hcarry, depthAfter_keyword _ hm]
    | none =>
      obtain ⟨hne, hdepth⟩ := carry_take_plain hraw hm hink
      simp [hdepth, plainDepth_ne_root hne]

/-- Inked lines that no keyword precedes: the first opens a rule although it is an item, the blank
one does not count, and the next item opens a pattern. -/
theorem classifyAll_closed_form_items :
    Catalog.ofTable Catalog.builtinTable = .ok Catalog.builtin ∧
    let lines := [txt "- a", txt "\t ", txt "  - b"]
    keywordDepth .builtin (lines.take 2) = .root ∧
    sinceKeyword .builtin lines = [txt "- a", txt "- b"] ∧
    ∃ l, (classifyAll .builtin lines)[2]? = some l ∧ l.raw = txt "  - b" ∧ l.depth = .pattern := by
  have hbase : keywordDepth .builtin ([txt "- a", txt "\t ", txt "  - b"].take 2) = .root := by
    decide +kernel
  have hsince : sinceKeyword .builtin [txt "- a", txt "\t ", txt "  - b"] =
      [txt "- a", txt "- b"] := by decide +kernel
  obtain ⟨l, hl, hraw, -, -, hplain, -⟩ :=
    (classifyAll_closed_form Catalog.ofTable_builtinTable
      [txt "- a", txt "\t ", txt "  - b"]).2 2 (txt "  - b") rfl
  have hdepth := hplain (by decide +kernel) (by decide +kernel)
  rw [hbase, show List.take (2 + 1) [txt "- a", txt "\t ", txt "  - b"] =
    [txt "- a", txt "\t ", txt "  - b"] from rfl, hsince] at hdepth
  exact ⟨Catalog.ofTable_builtinTable, hbase, hsince, l, hl, hraw, hdepth⟩

end Line
end RuleLang
