import Mathlib.Data.List.Induction
import RuleLang.Proofs.Catalog.RowOrder

/-!
# RuleLang.Proofs.Catalog.TableFaults

Which tables are catalogs, and which fault the others are told.

The rows of a table are read in one order, root, rule, pattern (`KeywordTable.placed`). A row
`Offends` if it is blank or repeats the stem of a row before it. Of the rows that offend the first
one is reported (`Catalog.ofTable_of_blank`, `Catalog.ofTable_of_repeated`), and only among rows
of which none offends are the stems of different depths compared (`Catalog.ofTable_of_clean`).
`Catalog.ofTable_verdict` gives every outcome with its exact condition.
-/

namespace RuleLang

/-- A row of a table at its place: its depth and its number among the rows of that depth. -/
structure PlacedRow where
  depth : Depth
  index : Nat
  row : KeywordRow
deriving Repr, DecidableEq

namespace PlacedRow

/-- The keyword as it stands at the root, and without the white space around it elsewhere. -/
def stem (r : PlacedRow) : Text :=
  if r.depth = .root then r.row.keyword else r.row.keyword.trim

def entry (r : PlacedRow) : Entry := .ofRow r.depth r.row

def numbered (r : PlacedRow) : Entry × Nat := (r.entry, r.index)

@[simp] theorem depth_entry (r : PlacedRow) : r.entry.depth = r.depth := rfl

@[simp] theorem stem_entry (r : PlacedRow) : r.entry.stem = r.stem := by
  obtain ⟨d, i, row⟩ := r
  cases d <;> rfl

/-- Is the row blank, or does it repeat the stem of a row before it? -/
def Offends (before : List PlacedRow) (r : PlacedRow) : Prop :=
  r.stem.trim = [] ∨ ∃ p ∈ before, p.stem = r.stem

/-- No row offends. -/
def Clean (rows : List PlacedRow) : Prop :=
  ∀ before r after, rows = before ++ r :: after → ¬ r.Offends before

/-- `r` is the first row that offends, and `before` are the rows before it. -/
structure FirstOffence (rows before : List PlacedRow) (r : PlacedRow) : Prop where
  place : ∃ after, rows = before ++ r :: after
  clean : Clean before
  offends : r.Offends before

/-- Two rows at different depths, of which the first begins the second. -/
def Clash (a b : PlacedRow) : Prop := a.depth ≠ b.depth ∧ a.stem <+: b.stem

theorem clean_nil : Clean [] := by
  intro before r after h
  simp at h

theorem clean_concat_iff (rows : List PlacedRow) (r : PlacedRow) :
    Clean (rows ++ [r]) ↔ Clean rows ∧ ¬ r.Offends rows := by
  constructor
  · intro h
    refine ⟨?_, h rows r [] rfl⟩
    rintro before r' after rfl
    exact h before r' (after ++ [r]) (by simp)
  · rintro ⟨hrows, hr⟩ before r' after h
    rcases List.eq_nil_or_concat after with rfl | ⟨after, x, rfl⟩
    · obtain ⟨rfl, hlast⟩ := List.append_inj' h rfl
      obtain rfl : r = r' := by simpa using hlast
      exact hr
    · rw [List.concat_eq_append, ← List.cons_append, ← List.append_assoc] at h
      exact hrows before r' after (List.append_inj' h rfl).1

theorem exists_firstOffence {rows : List PlacedRow} (h : ¬ Clean rows) :
    ∃ before r, FirstOffence rows before r := by
  induction rows using List.reverseRecOn with
  | nil => exact absurd clean_nil h
  | append_singleton rows r ih =>
    by_cases hclean : Clean rows
    · have hoffends : r.Offends rows := by
        by_contra hr
        exact h ((clean_concat_iff rows r).2 ⟨hclean, hr⟩)
      exact ⟨rows, r, ⟨[], rfl⟩, hclean, hoffends⟩
    · obtain ⟨before, r', ⟨after, hplace⟩, hbefore, hoffends⟩ := ih hclean
      exact ⟨before, r', ⟨after ++ [r], by rw [hplace]; simp⟩, hbefore, hoffends⟩

end PlacedRow

open PlacedRow

namespace KeywordTable

def placedAt (d : Depth) (rows : List KeywordRow) : List PlacedRow :=
  rows.zipIdx.map fun p => ⟨d, p.2, p.1⟩

/-- All rows in the order in which they are read. -/
def placed (t : KeywordTable) : List PlacedRow :=
  placedAt .root t.root ++ placedAt .rule t.rule ++ placedAt .pattern t.pattern

theorem map_numbered_placedAt (d : Depth) (rows : List KeywordRow) :
    (placedAt d rows).map numbered = (rows.map (Entry.ofRow d)).zipIdx := by
  rw [placedAt, List.map_map, List.zipIdx_map]
  rfl

theorem placed_eq_nil_iff (t : KeywordTable) :
    t.placed = [] ↔ t.root = [] ∧ t.rule = [] ∧ t.pattern = [] := by
  simp [placed, placedAt]

end KeywordTable

namespace Catalog

theorem map_numbered_placed (t : KeywordTable) :
    t.placed.map numbered =
      (assemble t).root.zipIdx ++ (assemble t).rule.zipIdx ++ (assemble t).pattern.zipIdx := by
  simp only [KeywordTable.placed, List.map_append, KeywordTable.map_numbered_placedAt]
  rfl

theorem entries_assemble (t : KeywordTable) :
    (assemble t).entries = t.placed.map PlacedRow.entry := by
  have h := congrArg (List.map Prod.fst) (map_numbered_placed t)
  simp only [List.map_append, List.zipIdx_map_fst, List.map_map] at h
  exact h.symm

/-! ## The rows one by one -/

theorem rowFault?_append (seen : List Entry) (rows rows' : List (Entry × Nat)) :
    rowFault? seen (rows ++ rows') =
      (rowFault? seen rows).or (rowFault? (seen ++ rows.map Prod.fst) rows') := by
  induction rows generalizing seen with
  | nil => simp [rowFault?]
  | cons r rows ih =>
    obtain ⟨e, i⟩ := r
    by_cases hblank : e.stem.trim = []
    · simp [rowFault?, hblank]
    · cases hfind : seen.find? fun p => p.stem = e.stem with
      | some p => simp [rowFault?, hblank, hfind]
      | none => simp [rowFault?, hblank, hfind, ih]

theorem rowFault?_singleton_eq_none_iff (before : List PlacedRow) (r : PlacedRow) :
    rowFault? (before.map entry) [r.numbered] = none ↔ ¬ r.Offends before := by
  rw [rowFault?_eq_none_iff]
  simp [numbered, Offends]

theorem rowFault?_numbered_eq_none_iff (rows : List PlacedRow) :
    rowFault? [] (rows.map numbered) = none ↔ Clean rows := by
  induction rows using List.reverseRecOn with
  | nil => exact iff_of_true rfl clean_nil
  | append_singleton rows r ih =>
    rw [List.map_append, rowFault?_append, Option.or_eq_none_iff, ih, clean_concat_iff,
      List.nil_append, List.map_map]
    exact and_congr_right fun _ => rowFault?_singleton_eq_none_iff rows r

/-- The clean rows before an offence are only remembered. -/
theorem rowFault?_of_firstOffence {rows before : List PlacedRow} {r : PlacedRow}
    (h : FirstOffence rows before r) :
    ∃ rest, rowFault? [] (rows.map numbered) =
      rowFault? (before.map entry) (r.numbered :: rest) := by
  obtain ⟨after, rfl⟩ := h.place
  refine ⟨after.map numbered, ?_⟩
  rw [List.map_append, rowFault?_append, (rowFault?_numbered_eq_none_iff before).2 h.clean,
    Option.none_or, List.nil_append, List.map_map]
  rfl

theorem clean_stem_inj {rows : List PlacedRow} (h : Clean rows) {p q : PlacedRow} (hp : p ∈ rows)
    (hq : q ∈ rows) (heq : p.stem = q.stem) : p = q := by
  have hnone := (rowFault?_numbered_eq_none_iff rows).2 h
  have hnodup := ((rowFault?_eq_none_iff [] _).1 hnone).2.1
  simp only [List.map_map, Function.comp_def, numbered, stem_entry] at hnodup
  exact List.inj_on_of_nodup_map hnodup hp hq heq

/-! ## The table as a whole -/

section Outcomes

variable {t : KeywordTable} {before : List PlacedRow} {r p : PlacedRow}

theorem ofTable_of_nil (h : t.placed = []) : ofTable t = .error .noKeywords := by
  have hentries : (assemble t).entries = [] := by simp [entries_assemble, h]
  simp [ofTable, fault?, hentries]

/-- The rows come first; the stems of different depths are compared only if no row offends. -/
theorem fault?_assemble (h : t.placed ≠ []) :
    (assemble t).fault? =
      (rowFault? [] (t.placed.map numbered)).or (ambiguity? (t.placed.map entry)) := by
  have hentries : ¬ (assemble t).entries.isEmpty = true := by simpa [entries_assemble] using h
  rw [fault?, if_neg hentries, ← map_numbered_placed, entries_assemble]
  cases rowFault? [] (t.placed.map numbered) <;> rfl

theorem ofTable_of_fault? {f : CatalogError} (h : (assemble t).fault? = some f) :
    ofTable t = .error f := by
  simp [ofTable, h]

theorem ofTable_of_firstOffence {f : CatalogError} (h : FirstOffence t.placed before r)
    (hf : ∀ rest, rowFault? (before.map entry) (r.numbered :: rest) = some f) :
    ofTable t = .error f := by
  obtain ⟨rest, hrest⟩ := rowFault?_of_firstOffence h
  have hne : t.placed ≠ [] := by
    obtain ⟨after, hplace⟩ := h.place
    simp [hplace]
  apply ofTable_of_fault?
  rw [fault?_assemble hne, hrest, hf rest, Option.some_or]

theorem ofTable_of_blank (h : FirstOffence t.placed before r) (hblank : r.stem.trim = []) :
    ofTable t = .error (.blankKeyword r.depth r.index) := by
  apply ofTable_of_firstOffence h
  intro rest
  simp [numbered, rowFault?, hblank]

/-- The row whose stem is repeated is the only one, because the rows before the offence are
clean. -/
theorem ofTable_of_repeated (h : FirstOffence t.placed before r) (hnamed : r.stem.trim ≠ [])
    (hp : p ∈ before) (hstem : p.stem = r.stem) :
    ofTable t = .error (.repeated r.stem p.depth r.depth) := by
  apply ofTable_of_firstOffence h
  intro rest
  have hfind : (before.map entry).find? (fun q => q.stem = r.entry.stem) = some p.entry := by
    cases hfound : (before.map entry).find? fun q => q.stem = r.entry.stem with
    | none =>
      have hnone := List.find?_eq_none.1 hfound p.entry (List.mem_map_of_mem hp)
      simp [hstem] at hnone
    | some e =>
      obtain ⟨q, hq, rfl⟩ := List.mem_map.1 (List.mem_of_find?_eq_some hfound)
      have hqstem : q.stem = r.stem := by simpa using List.find?_some hfound
      rw [clean_stem_inj h.clean hq hp (hqstem.trans hstem.symm)]
  rw [numbered, rowFault?, if_neg (by simpa using hnamed), hfind, stem_entry]
  rfl

theorem ambiguity?_eq_some {es : List Entry} {f : CatalogError} (h : ambiguity? es = some f) :
    ∃ a ∈ es, ∃ b ∈ es, a.depth ≠ b.depth ∧ a.stem <+: b.stem ∧ f = .ambiguous a b := by
  obtain ⟨a, ha, hfound⟩ := List.exists_of_findSome?_eq_some h
  obtain ⟨b, hb, rfl⟩ := Option.map_eq_some_iff.1 hfound
  have hclash : a.depth ≠ b.depth ∧ b.stem.startsWith a.stem = true := by
    simpa using List.find?_some hb
  exact ⟨a, ha, b, List.mem_of_find?_eq_some hb, hclash.1, Text.startsWith_iff.1 hclash.2, rfl⟩

/-- Without offending row a table is a catalog, or some pair of rows that clash is reported. -/
theorem ofTable_of_clean (hne : t.placed ≠ []) (hclean : Clean t.placed) :
    ((∀ a ∈ t.placed, ∀ b ∈ t.placed, ¬ Clash a b) ∧ ofTable t = .ok (assemble t)) ∨
    ∃ a ∈ t.placed, ∃ b ∈ t.placed, Clash a b ∧
      ofTable t = .error (.ambiguous a.entry b.entry) := by
  have hfault := fault?_assemble hne
  rw [(rowFault?_numbered_eq_none_iff t.placed).2 hclean, Option.none_or] at hfault
  cases hamb : ambiguity? (t.placed.map entry) with
  | none =>
    refine .inl ⟨?_, by simp [ofTable, hfault, hamb]⟩
    intro a ha b hb hclash
    have hapart := (ambiguity?_eq_none_iff _).1 hamb a.entry (List.mem_map_of_mem ha) b.entry
      (List.mem_map_of_mem hb)
    simp only [depth_entry, stem_entry] at hapart
    exact hapart hclash.1 hclash.2
  | some f =>
    obtain ⟨e, he, e', he', hdepth, hstem, rfl⟩ := ambiguity?_eq_some hamb
    obtain ⟨a, ha, rfl⟩ := List.mem_map.1 he
    obtain ⟨b, hb, rfl⟩ := List.mem_map.1 he'
    rw [stem_entry, stem_entry] at hstem
    exact .inr ⟨a, ha, b, hb, ⟨hdepth, hstem⟩, ofTable_of_fault? (hfault.trans hamb)⟩

end Outcomes

/-- Everything that can be said of a table. -/
inductive Verdict (t : KeywordTable) : Except CatalogError Catalog → Prop where
  | noKeywords : t.placed = [] → Verdict t (.error .noKeywords)
  | blank {before : List PlacedRow} {r : PlacedRow} : FirstOffence t.placed before r →
      r.stem.trim = [] → Verdict t (.error (.blankKeyword r.depth r.index))
  | repeated {before : List PlacedRow} {r p : PlacedRow} : FirstOffence t.placed before r →
      r.stem.trim ≠ [] → p ∈ before → p.stem = r.stem →
      Verdict t (.error (.repeated r.stem p.depth r.depth))
  | ambiguous {a b : PlacedRow} : Clean t.placed → a ∈ t.placed → b ∈ t.placed → Clash a b →
      Verdict t (.error (.ambiguous a.entry b.entry))
  | accepted : t.placed ≠ [] → Clean t.placed →
      (∀ a ∈ t.placed, ∀ b ∈ t.placed, ¬ Clash a b) → Verdict t (.ok (assemble t))

theorem ofTable_cases (t : KeywordTable) : Verdict t (ofTable t) := by
  by_cases hne : t.placed = []
  · rw [ofTable_of_nil hne]
    exact .noKeywords hne
  · by_cases hclean : Clean t.placed
    · rcases ofTable_of_clean hne hclean with ⟨hapart, hok⟩ | ⟨a, ha, b, hb, hclash, herror⟩
      · rw [hok]
        exact .accepted hne hclean hapart
      · rw [herror]
        exact .ambiguous hclean ha hb hclash
    · obtain ⟨before, r, h⟩ := exists_firstOffence hclean
      by_cases hblank : r.stem.trim = []
      · rw [ofTable_of_blank h hblank]
        exact .blank h hblank
      · obtain ⟨p, hp, hstem⟩ := h.offends.resolve_left hblank
        rw [ofTable_of_repeated h hblank hp hstem]
        exact .repeated h hblank hp hstem

theorem valid_assemble_iff (t : KeywordTable) :
    (assemble t).Valid ↔
      t.placed ≠ [] ∧ (∀ r ∈ t.placed, r.stem.trim ≠ []) ∧ (t.placed.map stem).Nodup ∧
        ∀ a ∈ t.placed, ∀ b ∈ t.placed, a.depth ≠ b.depth → ¬ a.stem <+: b.stem := by
  have hstems : (t.placed.map entry).map Entry.stem = t.placed.map stem := by
    rw [List.map_map]
    exact List.map_congr_left fun r _ => r.stem_entry
  constructor
  · rintro ⟨hne, hnamed, hdistinct, hapart⟩
    simp only [entries_assemble, List.forall_mem_map, stem_entry, depth_entry, hstems, Ne,
      List.map_eq_nil_iff] at hne hnamed hdistinct hapart
    exact ⟨hne, hnamed, hdistinct, hapart⟩
  · rintro ⟨hne, hnamed, hdistinct, hapart⟩
    constructor <;>
      simpa only [entries_assemble, List.forall_mem_map, stem_entry, depth_entry, hstems, Ne,
        List.map_eq_nil_iff]

/-- **The verdict on a table.** A table is a catalog if it has a row, no stem is blank, no two
stems are the same and none begins a stem of another depth. Otherwise it is told that it has no
row, or the fault of the first row that offends, or else two rows that clash. -/
theorem ofTable_verdict (t : KeywordTable) :
    let rows := t.placed
    ((∃ c, ofTable t = .ok c) ↔
      rows ≠ [] ∧ (∀ r ∈ rows, r.stem.trim ≠ []) ∧ (rows.map PlacedRow.stem).Nodup ∧
        ∀ a ∈ rows, ∀ b ∈ rows, a.depth ≠ b.depth → ¬ a.stem <+: b.stem) ∧
    (ofTable t = .error .noKeywords ↔ t.root = [] ∧ t.rule = [] ∧ t.pattern = []) ∧
    (∀ d i, ofTable t = .error (.blankKeyword d i) ↔
      ∃ before r, FirstOffence rows before r ∧ r.stem.trim = [] ∧ r.depth = d ∧ r.index = i) ∧
    (∀ stem d d', ofTable t = .error (.repeated stem d d') ↔
      ∃ before r, FirstOffence rows before r ∧ r.stem.trim ≠ [] ∧
        ∃ p ∈ before, p.stem = r.stem ∧ r.stem = stem ∧ p.depth = d ∧ r.depth = d') ∧
    ((∃ e e', ofTable t = .error (.ambiguous e e')) ↔
      Clean rows ∧ ∃ a ∈ rows, ∃ b ∈ rows, Clash a b) ∧
    ∀ e e', ofTable t = .error (.ambiguous e e') →
      ∃ a ∈ rows, ∃ b ∈ rows, Clash a b ∧ a.entry = e ∧ b.entry = e' := by
  intro rows
  have hcases := ofTable_cases t
  refine ⟨?_, ?_, ?_, ?_, ?_, ?_⟩
  · rw [← valid_assemble_iff]
    simp only [ofTable_eq_ok_iff, exists_eq_left]
  · rw [← KeywordTable.placed_eq_nil_iff]
    constructor
    · intro herror
      rw [herror] at hcases
      cases hcases with
      | noKeywords hnil => exact hnil
    · exact ofTable_of_nil
  · intro d i
    constructor
    · intro herror
      rw [herror] at hcases
      cases hcases with
      | blank h hblank => exact ⟨_, _, h, hblank, rfl, rfl⟩
    · rintro ⟨before, r, h, hblank, rfl, rfl⟩
      exact ofTable_of_blank h hblank
  · intro stem d d'
    constructor
    · intro herror
      rw [herror] at hcases
      cases hcases with
      | repeated h hnamed hp hstem => exact ⟨_, _, h, hnamed, _, hp, hstem, rfl, rfl, rfl⟩
    · rintro ⟨before, r, h, hnamed, p, hp, hstem, rfl, rfl, rfl⟩
      exact ofTable_of_repeated h hnamed hp hstem
  · constructor
    · rintro ⟨e, e', herror⟩
      rw [herror] at hcases
      cases hcases with
      | ambiguous hclean ha hb hclash => exact ⟨hclean, _, ha, _, hb, hclash⟩
    · rintro ⟨hclean, a, ha, b, hb, hclash⟩
      rcases ofTable_of_clean (List.ne_nil_of_mem ha) hclean with
        ⟨hapart, -⟩ | ⟨a', -, b', -, -, herror⟩
      · exact absurd hclash (hapart a ha b hb)
      · exact ⟨_, _, herror⟩
  · intro e e' herror
    rw [herror] at hcases
    cases hcases with
    | ambiguous hclean ha hb hclash => exact ⟨_, ha, _, hb, hclash, rfl, rfl⟩

end Catalog

end RuleLang
