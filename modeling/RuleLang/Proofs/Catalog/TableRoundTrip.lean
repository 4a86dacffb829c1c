import Mathlib.Data.List.Induction
import RuleLang.Command.Run
import RuleLang.Proofs.Catalog.RowOrder
import RuleLang.Proofs.Text.Trimming

/-!
# RuleLang.Proofs.Catalog.TableRoundTrip

A catalog is described by the table that it is written as.

Reading a table into a catalog drops the white space around documentation and tokens, blank tokens
and repeated ones, and nothing else (`Catalog.toTable_assemble`). What is left is tidy, and tidy
tokens are left alone (`Catalog.tidy_cleanTokens`, `Catalog.cleanTokens_of_tidy`), so the second
reading drops nothing (`Catalog.assemble_toTable`). Keywords are never rewritten, so the second
reading is checked against the same stems and succeeds as the first one did.
-/

namespace RuleLang

/-! ## Tokens -/

namespace Catalog

/-- Distinct tokens, none of them blank or with white space around it. -/
structure Tidy (ts : List Text) : Prop where
  nodup : ts.Nodup
  trimmed : ∀ t ∈ ts, t.trim = t
  ne_nil : ∀ t ∈ ts, t ≠ []

theorem cleanTokens_concat (ts : List Text) (t : Text) :
    cleanTokens (ts ++ [t]) =
      if t.trim = [] ∨ t.trim ∈ cleanTokens ts then cleanTokens ts
      else cleanTokens ts ++ [t.trim] := by
  simp [cleanTokens, List.foldl_append]

/-- The tokens trimmed, without the blank ones, each at its first occurrence. -/
theorem cleanTokens_eq (ts : List Text) :
    cleanTokens ts = ((ts.map Text.trim).filter (· ≠ [])).eraseDups := by
  induction ts using List.reverseRecOn with
  | nil => rfl
  | append_singleton ts t ih =>
    rw [cleanTokens_concat, List.map_append, List.filter_append, List.eraseDups_append, ih]
    generalize (ts.map Text.trim).filter (· ≠ []) = seen
    by_cases hblank : t.trim = []
    · simp [hblank, List.removeAll]
    · by_cases hseen : t.trim ∈ seen <;>
        simp [hblank, hseen, List.removeAll, List.eraseDups_cons]

theorem tidy_cleanTokens (ts : List Text) : Tidy (cleanTokens ts) := by
  induction ts using List.reverseRecOn with
  | nil => exact ⟨.nil, by simp [cleanTokens], by simp [cleanTokens]⟩
  | append_singleton ts t ih =>
    rw [cleanTokens_concat]
    split
    · exact ih
    · rename_i h
      obtain ⟨hblank, hseen⟩ := not_or.1 h
      refine ⟨?_, ?_, ?_⟩
      · rw [List.nodup_append_comm, List.singleton_append, List.nodup_cons]
        exact ⟨hseen, ih.nodup⟩
      · intro x hx
        rcases List.mem_append.1 hx with hx | hx
        · exact ih.trimmed x hx
        · rw [List.mem_singleton.1 hx, Text.trim_trim]
      · intro x hx
        rcases List.mem_append.1 hx with hx | hx
        · exact ih.ne_nil x hx
        · rwa [List.mem_singleton.1 hx]

theorem cleanTokens_of_tidy {ts : List Text} (h : Tidy ts) : cleanTokens ts = ts := by
  induction ts using List.reverseRecOn with
  | nil => rfl
  | append_singleton ts t ih =>
    obtain ⟨hnodup, htrimmed, hne⟩ := h
    rw [List.nodup_append_comm, List.singleton_append, List.nodup_cons] at hnodup
    have hts : cleanTokens ts = ts := ih
      ⟨hnodup.2, fun x hx => htrimmed x (by simp [hx]), fun x hx => hne x (by simp [hx])⟩
    have ht : t.trim = t := htrimmed t (by simp)
    rw [cleanTokens_concat, hts, ht, if_neg]
    rintro (hblank | hseen)
    · exact hne t (by simp) hblank
    · exact hnodup.1 hseen

theorem cleanTokens_cleanTokens (ts : List Text) : cleanTokens (cleanTokens ts) = cleanTokens ts :=
  cleanTokens_of_tidy (tidy_cleanTokens ts)

/-! ## Tables -/

theorem ofRow_toRow_ofRow (d : Depth) (r : KeywordRow) :
    Entry.ofRow d (Entry.ofRow d r).toRow = Entry.ofRow d r := by
  simp [Entry.ofRow, Entry.toRow]

theorem assemble_toTable (t : KeywordTable) : assemble (assemble t).toTable = assemble t := by
  simp only [assemble, toTable, List.map_map, Function.comp_def, ofRow_toRow_ofRow,
    cleanTokens_cleanTokens]

theorem toTable_assemble (t : KeywordTable) :
    (assemble t).toTable =
      { root := t.root.map fun r => { r with docs := r.docs.trim }
        rule := t.rule.map fun r => { r with docs := r.docs.trim }
        pattern := t.pattern.map fun r => { r with docs := r.docs.trim }
        severities := cleanTokens t.severities
        languages := cleanTokens t.languages
        metavariables := cleanTokens t.metavariables } := by
  simp only [assemble, toTable, List.map_map]
  rfl

end Catalog

/-! ## The written form -/

/-- The text is a document that holds the table, without any fault. -/
def TableReader.Decodes (text : Text) (t : KeywordTable) : Prop :=
  (Yaml.Tree.read text).toOption.bind run = some (t, [])

theorem Catalog.read_of_decodes {text : Text} {t : KeywordTable} {c : Catalog}
    (h : TableReader.Decodes text t) (hc : ofTable t = .ok c) : read text = .ok c := by
  cases htree : Yaml.Tree.read text with
  | error e => simp [TableReader.Decodes, htree, Except.toOption] at h
  | ok tree =>
    have htable : TableReader.run tree = some (t, []) := by
      simpa [TableReader.Decodes, htree, Except.toOption] using h
    simp only [read, htree, htable, hc]

theorem CatalogCommand.run_yaml {path : Text} {w : World} {c : Catalog}
    (hload : Catalog.load w.files path = .ok c) (hout : w.stdoutFault = none) :
    run (txt "yaml") path w = { files := w.files, stdout := c.toTable.toYaml } := by
  simp [run, hload, World.print, hout]

/-- **Tables survive the round trip.** The table of an accepted catalog is accepted and gives the
same catalog. It has the rows that the catalog was made of, in their order and with their
documentation trimmed, and of each list of tokens the trimmed ones that are not blank, at their
first occurrence. So a document that holds the table as it is written describes the same catalog
again, and that is the document which the command prints. -/
theorem Catalog.ofTable_toTable {t : KeywordTable} {c : Catalog} (h : ofTable t = .ok c) :
    let rows (rs : List KeywordRow) := rs.map fun r => { r with docs := r.docs.trim }
    let tokens (ts : List Text) := ((ts.map Text.trim).filter (· ≠ [])).eraseDups
    ofTable c.toTable = .ok c ∧
    c.toTable =
      { root := rows t.root, rule := rows t.rule, pattern := rows t.pattern
        severities := tokens t.severities, languages := tokens t.languages
        metavariables := tokens t.metavariables } ∧
    (TableReader.Decodes c.toTable.toYaml c.toTable →
      ∀ (path : Text) (w : World), load w.files path = .ok c → w.stdoutFault = none →
        let printed := CatalogCommand.run (txt "yaml") path w
        printed.error = none ∧ read printed.stdout = .ok c) := by
  intro rows tokens
  obtain ⟨rfl, hvalid⟩ := (ofTable_eq_ok_iff t c).1 h
  have hagain : ofTable (assemble t).toTable = .ok (assemble t) := by
    rw [ofTable_eq_ok_iff, assemble_toTable]
    exact ⟨rfl, hvalid⟩
  refine ⟨hagain, ?_, ?_⟩
  · simp only [toTable_assemble, cleanTokens_eq, rows, tokens]
  · intro hdecodes path w hload hout printed
    have hprinted : printed = _ := CatalogCommand.run_yaml hload hout
    rw [hprinted]
    exact ⟨rfl, read_of_decodes hdecodes hagain⟩

/-- Documentation and tokens with white space around them, a blank token and a repeated one. -/
theorem Catalog.ofTable_toTable_untidy :
    let t : KeywordTable :=
      { root := [⟨txt "rules: ", txt "rules:", txt " all\n"⟩]
        rule := [⟨txt " - id:", [], []⟩]
        languages := [txt "go ", txt " ", txt "c", txt "\tgo"] }
    let file := txt "root:\n- keyword: 'rules: '\n  snippet: 'rules:'\n  docs: all\n" ++
      txt "rule: [keyword: ' - id:']\nlanguages: [go, c]\n"
    let w : World := { files := .ofNodes [] [([txt "c.yaml"], .file file)] }
    ∃ c, ofTable t = .ok c ∧ c.toTable.languages = [txt "go", txt "c"] ∧
      TableReader.Decodes c.toTable.toYaml c.toTable ∧ load w.files (txt "c.yaml") = .ok c ∧
      ofTable c.toTable = .ok c ∧
      read (CatalogCommand.run (txt "yaml") (txt "c.yaml") w).stdout = .ok c := by
  intro t file w
  have hok : ofTable t = .ok (assemble t) := ofTable_of_fault?_eq_none (by decide +kernel)
  have hload : load w.files (txt "c.yaml") = .ok (assemble t) := by decide +kernel
  have hdecodes : TableReader.Decodes (assemble t).toTable.toYaml (assemble t).toTable := by
    unfold TableReader.Decodes
    decide +kernel
  obtain ⟨hagain, -, hprinted⟩ := ofTable_toTable hok
  exact ⟨assemble t, hok, by decide +kernel, hdecodes, hload, hagain,
    (hprinted hdecodes (txt "c.yaml") w hload rfl).2⟩

end RuleLang
