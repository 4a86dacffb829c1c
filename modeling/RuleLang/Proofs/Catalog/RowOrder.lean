import Mathlib.Data.List.Nodup
import RuleLang.Catalog.Builtin
import RuleLang.Indent.Format

/-!
# RuleLang.Proofs.Catalog.RowOrder

The depth of a line does not depend on the order in which the keywords of a depth are tried.

A table is accepted if its entries are `Catalog.Valid`, and that says nothing about their order
(`Catalog.ofTable_eq_ok_iff`, `Catalog.Valid.of_perm`). Two stems that begin the same line begin
one another, so entries of a valid catalog that match one line have one depth
(`Catalog.Valid.depth_eq`). Everything that reads a catalog through the depth of the matching
entry then cannot tell two orders apart (`Line.classifyAll_congr`).
-/

namespace RuleLang

namespace Text

theorem startsWith_iff {t p : Text} : t.startsWith p = true ↔ p <+: t := List.isPrefixOf_iff_prefix

end Text

namespace Catalog

/-- What is asked of the entries of a catalog. -/
structure Valid (c : Catalog) : Prop where
  nonempty : c.entries ≠ []
  named : ∀ e ∈ c.entries, e.stem.trim ≠ []
  distinct : (c.entries.map Entry.stem).Nodup
  /-- no keyword begins a keyword of another depth -/
  apart : ∀ a ∈ c.entries, ∀ b ∈ c.entries, a.depth ≠ b.depth → ¬ a.stem <+: b.stem

/-! ## The checks -/

theorem rowFault?_eq_none_iff (seen : List Entry) (rows : List (Entry × Nat)) :
    rowFault? seen rows = none ↔
      (∀ r ∈ rows, r.1.stem.trim ≠ []) ∧ (rows.map fun r => r.1.stem).Nodup ∧
        ∀ r ∈ rows, ∀ p ∈ seen, p.stem ≠ r.1.stem := by
  induction rows generalizing seen with
  | nil => simp [rowFault?]
  | cons r rest ih =>
    obtain ⟨e, i⟩ := r
    by_cases hblank : e.stem.trim = []
    · simp [rowFault?, hblank]
    · cases hfind : seen.find? fun p => p.stem = e.stem with
      | some p =>
        have hp : p ∈ seen ∧ p.stem = e.stem :=
          ⟨List.mem_of_find?_eq_some hfind, by simpa using List.find?_some hfind⟩
        have hfault : rowFault? seen ((e, i) :: rest) ≠ none := by
          simp [rowFault?, hblank, hfind]
        refine iff_of_false hfault fun h => ?_
        exact h.2.2 (e, i) List.mem_cons_self p hp.1 hp.2
      | none =>
        have hfresh : ∀ p ∈ seen, p.stem ≠ e.stem := by simpa using hfind
        have hstep : rowFault? seen ((e, i) :: rest) = rowFault? (seen ++ [e]) rest := by
          simp [rowFault?, hblank, hfind]
        rw [hstep, ih]
        -- what is new in `seen ++ [e]` is that no later stem repeats the one of `e`
        simp only [List.forall_mem_cons, List.map_cons, List.nodup_cons, List.mem_map,
          List.mem_append, List.mem_singleton]
        constructor
        · rintro ⟨hnamed, hnodup, hseen⟩
          refine ⟨⟨hblank, hnamed⟩, ⟨?_, hnodup⟩, hfresh, fun r hr p hp => hseen r hr p (.inl hp)⟩
          rintro ⟨r, hr, heq⟩
          exact hseen r hr e (.inr rfl) heq.symm
        · rintro ⟨⟨-, hnamed⟩, ⟨hnew, hnodup⟩, -, hseen⟩
          refine ⟨hnamed, hnodup, ?_⟩
          rintro r hr p (hp | rfl)
          · exact hseen r hr p hp
          · exact fun heq => hnew ⟨r, hr, heq.symm⟩

theorem ambiguity?_eq_none_iff (es : List Entry) :
    ambiguity? es = none ↔
      ∀ a ∈ es, ∀ b ∈ es, a.depth ≠ b.depth → ¬ a.stem <+: b.stem := by
  simp only [ambiguity?, List.findSome?_eq_none_iff, Option.map_eq_none_iff, List.find?_eq_none,
    decide_eq_true_eq, not_and, Text.startsWith_iff]

theorem fault?_eq_none_iff (c : Catalog) : c.fault? = none ↔ c.Valid := by
  let rows := c.root.zipIdx ++ c.rule.zipIdx ++ c.pattern.zipIdx
  have hrows : rows.map Prod.fst = c.entries := by
    simp only [rows, List.map_append, List.zipIdx_map_fst, entries]
  have hstems : (rows.map fun r => r.1.stem) = c.entries.map Entry.stem := by
    rw [← hrows, List.map_map]
    rfl
  have hnamed : (∀ r ∈ rows, r.1.stem.trim ≠ []) ↔ ∀ e ∈ c.entries, e.stem.trim ≠ [] := by
    rw [← hrows, List.forall_mem_map]
  have hfault : rowFault? [] rows = none ↔
      (∀ e ∈ c.entries, e.stem.trim ≠ []) ∧ (c.entries.map Entry.stem).Nodup := by
    rw [rowFault?_eq_none_iff, hnamed, hstems]
    simp
  by_cases hnil : c.entries = []
  · have : c.fault? = some .noKeywords := by simp [fault?, hnil]
    exact iff_of_false (by simp [this]) fun h => h.nonempty hnil
  · have hcheck : c.fault? = none ↔ rowFault? [] rows = none ∧ ambiguity? c.entries = none := by
      simp only [fault?, List.isEmpty_iff, if_neg hnil]
      cases rowFault? [] rows with
      | none => simp only [true_and]
      | some f => simp
    rw [hcheck, hfault, ambiguity?_eq_none_iff]
    exact ⟨fun ⟨⟨hn, hd⟩, ha⟩ => ⟨hnil, hn, hd, ha⟩, fun h => ⟨⟨h.named, h.distinct⟩, h.apart⟩⟩

theorem ofTable_eq_ok_iff (t : KeywordTable) (c : Catalog) :
    ofTable t = .ok c ↔ c = assemble t ∧ (assemble t).Valid := by
  rw [← fault?_eq_none_iff]
  cases hf : (assemble t).fault? with
  | none => simp [ofTable, hf, eq_comm]
  | some e => simp [ofTable, hf]

theorem ofTable_of_fault?_eq_none {t : KeywordTable} (h : (assemble t).fault? = none) :
    ofTable t = .ok (assemble t) := by
  simp only [ofTable, h]

theorem ofTable_builtinTable : ofTable builtinTable = .ok builtin :=
  ofTable_of_fault?_eq_none (by decide +kernel)

/-! ## Order -/

theorem Valid.of_perm {c c' : Catalog} (h : c.Valid) (hp : c'.entries.Perm c.entries) :
    c'.Valid where
  nonempty := fun hnil => h.nonempty (by simpa [hnil] using hp.symm)
  named := fun e he => h.named e (hp.mem_iff.1 he)
  distinct := (hp.map Entry.stem).nodup_iff.2 h.distinct
  apart := fun a ha b hb => h.apart a (hp.mem_iff.1 ha) b (hp.mem_iff.1 hb)

theorem entries_assemble_perm {t t' : KeywordTable} (hroot : t'.root.Perm t.root)
    (hrule : t'.rule.Perm t.rule) (hpattern : t'.pattern.Perm t.pattern) :
    (assemble t').entries.Perm (assemble t).entries :=
  ((hroot.map _).append (hrule.map _)).append (hpattern.map _)

/-- Of two beginnings of one line the shorter begins the longer. -/
theorem Valid.depth_eq {c : Catalog} (h : c.Valid) {line : Text} {a b : Entry}
    (ha : a ∈ c.entries) (hb : b ∈ c.entries) (hal : line.startsWith a.stem = true)
    (hbl : line.startsWith b.stem = true) : a.depth = b.depth := by
  rw [Text.startsWith_iff] at hal hbl
  by_contra hne
  rcases List.prefix_or_prefix_of_prefix hal hbl with hab | hba
  · exact h.apart a ha b hb hne hab
  · exact h.apart b hb a ha (Ne.symm hne) hba

theorem match?_eq_some {c : Catalog} {line : Text} {e : Entry} (h : c.match? line = some e) :
    e ∈ c.entries ∧ line.startsWith e.stem = true := by
  have hstem := List.find?_some (p := fun e : Entry => line.startsWith e.stem) h
  exact ⟨List.mem_of_find?_eq_some h, hstem⟩

theorem Valid.depth_match?_congr {c c' : Catalog} (h : c.Valid)
    (hp : c'.entries.Perm c.entries) (line : Text) :
    (c'.match? line).map Entry.depth = (c.match? line).map Entry.depth := by
  cases hm : c.match? line with
  | none =>
    have hnone : c'.match? line = none := by
      simp only [match?, List.find?_eq_none] at hm ⊢
      exact fun e he => hm e (hp.mem_iff.1 he)
    rw [hnone]
  | some e =>
    obtain ⟨he, hel⟩ := match?_eq_some hm
    cases hm' : c'.match? line with
    | none =>
      simp only [match?, List.find?_eq_none] at hm'
      exact absurd hel (hm' e (hp.mem_iff.2 he))
    | some e' =>
      obtain ⟨he', hel'⟩ := match?_eq_some hm'
      rw [Option.map_some, Option.map_some, h.depth_eq (hp.mem_iff.1 he') he hel' hel]

end Catalog

/-! ## Documents -/

section Congr

variable {c c' : Catalog}
  (h : ∀ line, (c'.match? line).map Entry.depth = (c.match? line).map Entry.depth)

include h

theorem depthAfter_congr (carried : Depth) (trimmed : Text) :
    depthAfter c' carried trimmed = depthAfter c carried trimmed := by
  have hline := h trimmed
  unfold depthAfter
  cases hm : c.match? trimmed with
  | none =>
    obtain hm' : c'.match? trimmed = none := by simpa [hm] using hline
    rw [hm']
  | some e =>
    rw [hm, Option.map_some, Option.map_eq_some_iff] at hline
    obtain ⟨e', hm', hdepth⟩ := hline
    rw [hm']
    exact hdepth

theorem Line.classifyFrom_congr (carried : Depth) (i : Nat) (lines : List Text) :
    classifyFrom c' carried i lines = classifyFrom c carried i lines := by
  induction lines generalizing carried i with
  | nil => rfl
  | cons raw rest ih =>
    have hfirst : classify c' carried i raw = classify c carried i raw := by
      simp only [classify, depthAfter_congr h]
    simp only [classifyFrom, hfirst, ih]

theorem Line.classifyAll_congr (lines : List Text) :
    classifyAll c' lines = classifyAll c lines :=
  classifyFrom_congr h .root 0 lines

theorem Edit.compute_congr (lines : List Text) (s : Style) :
    compute c' lines s = compute c lines s := by
  rw [compute, Line.classifyAll_congr h, compute]

theorem formatText_congr (t : Text) (s : Style) : formatText c' t s = formatText c t s := by
  simp only [formatText, Edit.compute_congr h]

end Congr

/-- **The depth of a line does not depend on the order of the rows.** Entries of an accepted table
that begin one line have one depth. So the rows of each depth may stand in any order: the table
stays accepted, every line has a match at the same depth or none, and every document has the same
depths, the same edits and the same formatted text under every style. -/
theorem Catalog.depth_independent_of_row_order {t : KeywordTable} {c : Catalog}
    (h : Catalog.ofTable t = .ok c) :
    (∀ (line : Text), ∀ a ∈ c.entries, ∀ b ∈ c.entries,
      line.startsWith a.stem = true → line.startsWith b.stem = true → a.depth = b.depth) ∧
    ∀ t' : KeywordTable, t'.root.Perm t.root → t'.rule.Perm t.rule → t'.pattern.Perm t.pattern →
      ∃ c', Catalog.ofTable t' = .ok c' ∧
        (∀ line, (c'.match? line).map Entry.depth = (c.match? line).map Entry.depth) ∧
        (∀ lines, Line.classifyAll c' lines = Line.classifyAll c lines) ∧
        (∀ lines s, Edit.compute c' lines s = Edit.compute c lines s) ∧
        ∀ text s, formatText c' text s = formatText c text s := by
  obtain ⟨rfl, hvalid⟩ := (Catalog.ofTable_eq_ok_iff t c).1 h
  refine ⟨fun line a ha b hb hal hbl => hvalid.depth_eq ha hb hal hbl, ?_⟩
  intro t' hroot hrule hpattern
  have hperm := Catalog.entries_assemble_perm hroot hrule hpattern
  have hmatch := hvalid.depth_match?_congr hperm
  refine ⟨Catalog.assemble t', ?_, hmatch, Line.classifyAll_congr hmatch,
    Edit.compute_congr hmatch, formatText_congr hmatch⟩
  exact (Catalog.ofTable_eq_ok_iff t' _).2 ⟨rfl, hvalid.of_perm hperm⟩

/-- The built-in keywords in the opposite order. -/
theorem Catalog.depth_independent_of_row_order_builtin :
    Catalog.ofTable builtinTable = .ok builtin ∧
    ∃ c', Catalog.ofTable { builtinTable with
        rule := builtinTable.rule.reverse, pattern := builtinTable.pattern.reverse } = .ok c' ∧
      ∀ text s, formatText c' text s = formatText builtin text s := by
  obtain ⟨c', hc', -, -, -, hformat⟩ := (depth_independent_of_row_order ofTable_builtinTable).2
    { builtinTable with
      rule := builtinTable.rule.reverse, pattern := builtinTable.pattern.reverse }
    (.refl _) (List.reverse_perm _) (List.reverse_perm _)
  exact ⟨ofTable_builtinTable, c', hc', hformat⟩

end RuleLang
