import RuleLang.Command.Run
import RuleLang.Proofs.Command.Schedule

/-!
# RuleLang.Proofs.Command.FileSafety

No command line damages a file, also if it fails.

Along every schedule of the tasks of `format --write`, failed tasks included, the files are the old
ones with some of them formatted (`FormatCommand.Batch.Safe`). `FormatCommand.Leaves` puts the rest of
the command around the schedules, and `files_never_damaged` all other commands, which write no file.
-/

namespace RuleLang

@[simp] theorem World.fail_files (w : World) (e : CommandError) : (w.fail e).files = w.files := rfl

@[simp] theorem World.print_files (w : World) (t : Text) (onFault : Text → CommandError) :
    (w.print t onFault).files = w.files := by
  unfold print
  split <;> rfl

namespace FormatCommand

open FileTree

/-! ## The work on the inputs -/

/-- Without writing back, inputs are read only. -/
theorem formatAll_files {mode : Mode} (hmode : mode ≠ .write) (format : Text → Text) (w : World)
    (names : List Text) : (formatAll mode format w names).1.files = w.files := by
  induction names generalizing w with
  | nil => rfl
  | cons name names ih =>
    rw [formatAll]
    cases hsource : source w name with
    | error e => simp only [formatOne, hsource]
    | ok result =>
      obtain ⟨text, w'⟩ := result
      rw [formatOne_of_source hmode format hsource]
      dsimp only
      rw [ih, (source_frame hsource).1]

/-! ## The command -/

theorem report_files (w : World) (rs : List Result) : (report w rs).files = w.files := by
  unfold report
  dsimp only
  split
  · rfl
  · split <;> simp

/-- Printing after the work on the inputs changes no file. -/
theorem runMode_files (mode : Mode) (format : Text → Text) (w : World) (names : List Text) :
    (runMode mode format w names).files = (formatAll mode format w names).1.files := by
  unfold runMode
  obtain ⟨w', rs, e⟩ := formatAll mode format w names
  cases e with
  | some e => rfl
  | none =>
    cases mode with
    | print => simp
    | check => simp [report_files]
    | write => rfl

/-- The file trees that a format command can leave behind: it writes only if it is asked to and
finds its catalog, and then does whatever its tasks do. -/
inductive Leaves (o : FormatOptions) (words : List Text) (t : FileTree) : FileTree → Prop where
  | untouched : Leaves o words t t
  | written {c : Catalog} {t' : FileTree} {tasks : List Task} : o.write = true →
      o.check = false → Catalog.load t o.catalogPath = .ok c →
      Batch.Steps .write (fun text => formatText c text (style o))
        (.start t (inputNames words)) ⟨t', tasks⟩ →
      Leaves o words t t'

theorem run_leaves (o : FormatOptions) (words : List Text) (w : World) :
    Leaves o words w.files (run o words w).files := by
  unfold run
  dsimp only
  split
  · exact .untouched
  · split
    · exact .untouched
    · cases hcat : Catalog.load w.files o.catalogPath with
      | error e => exact .untouched
      | ok c =>
        dsimp only
        split
        · exact .untouched
        · rw [runMode_files]
          cases hcheck : o.check with
          | true =>
            rw [if_pos rfl, formatAll_files (by simp)]
            exact .untouched
          | false =>
            rw [if_neg (by simp)]
            cases hwrite : o.write with
            | true =>
              obtain ⟨tasks, hsteps, -⟩ := formatAll_steps (.inl rfl) (Prod.eta _).symm []
              exact .written hwrite hcheck hcat hsteps
            | false =>
              rw [if_neg (by simp), formatAll_files (by simp)]
              exact .untouched

/-- The node at `p` is a file that the inputs name; it was to be written back, and now holds its
formatted content. -/
def WrittenBack (o : FormatOptions) (words : List Text) (t t' : FileTree) (p : Path) : Prop :=
  o.write = true ∧ o.check = false ∧
  (∃ name ∈ inputNames words, name ≠ stdinName ∧ t.resolve name = .ok p) ∧
  ∃ c content, Catalog.load t o.catalogPath = .ok c ∧ t.get? p = some (.file content) ∧
    t'.get? p = some (.file (formatText c content (style o)))

theorem Leaves.kept_or_writtenBack {o : FormatOptions} {words : List Text} {t t' : FileTree}
    (h : Leaves o words t t') (p : Path) : t'.get? p = t.get? p ∨ WrittenBack o words t t' p := by
  cases h with
  | untouched => exact .inl rfl
  | written hwrite hcheck hcat hsteps =>
    rename_i c tasks
    obtain ⟨ps, hsafe⟩ := Batch.safe_start.steps (formatText_formatText c (style o)) hsteps
    have hfiles := hsafe.files
    by_cases hp : p ∈ ps
    · cases hnode : t.get? p with
      | none =>
        rw [hfiles.node, if_pos hp, hnode]
        exact .inl rfl
      | some n =>
        cases n with
        | directory =>
          rw [hfiles.node, if_pos hp, hnode]
          exact .inl rfl
        | file content =>
          exact .inr ⟨hwrite, hcheck, mem_filePlaces.1 (hsafe.named p hp), c, content, hcat, hnode,
            hfiles.get?_of_mem hp hnode⟩
    · exact .inl (hfiles.get?_of_not_mem hp)

end FormatCommand

/-! ## Command lines -/

/-- Only the format command writes files. -/
theorem Request.run_files (cfg : Config) (b : BuildInfo) (w : World) {r : Request}
    (h : ∀ o words, r ≠ .format o words) : (r.run cfg b w).files = w.files := by
  cases r with
  | format o words => exact absurd rfl (h o words)
  | serve =>
    simp only [Request.run, ServeCommand.run]
    split
    · rfl
    · split <;> rfl
  | catalog output path =>
    simp only [Request.run, CatalogCommand.run]
    split
    · rfl
    · split
      · simp
      · split <;> simp
  | version => simp [Request.run]
  | help topic => simp [Request.run]
  | unknownTopic words => simp [Request.run]

open FormatCommand in
/-- **No command line damages a file.** Whatever the arguments, the settings, the files and the
standard streams are, and whether the command fails or not: every place holds what it held before,
or a file that `format --write` without `--check` names, and that file then holds its old content
formatted with the catalog and the style in effect. This is so in whatever order the inputs are
worked on, if several are worked on at a time, if any of their reads and writes fail, and if one of
them is named more than once; the run that takes one input after another is one of these. -/
theorem files_never_damaged (cfg : Config) (b : BuildInfo) (args : List Text) (w : World) :
    (∀ p, (runCommandLine cfg b args w).files.get? p = w.files.get? p ∨
      ∃ o words, Request.ofArgs cfg args = .ok (.format o words) ∧
        WrittenBack o words w.files (runCommandLine cfg b args w).files p) ∧
    ∀ o words, Request.ofArgs cfg args = .ok (.format o words) →
      Leaves o words w.files (runCommandLine cfg b args w).files ∧
      ∀ t', Leaves o words w.files t' →
        ∀ p, t'.get? p = w.files.get? p ∨ WrittenBack o words w.files t' p := by
  have hformat : ∀ o words, Request.ofArgs cfg args = .ok (.format o words) →
      runCommandLine cfg b args w = FormatCommand.run o words w := by
    intro o words hargs
    simp only [runCommandLine, hargs, Request.run]
  constructor
  · intro p
    cases hargs : Request.ofArgs cfg args with
    | error e =>
      left
      simp only [runCommandLine, hargs, World.fail_files]
    | ok r =>
      by_cases hr : ∃ o words, r = .format o words
      · obtain ⟨o, words, rfl⟩ := hr
        rw [hformat o words hargs]
        rcases (run_leaves o words w).kept_or_writtenBack p with hkept | hwritten
        · exact .inl hkept
        · exact .inr ⟨o, words, rfl, hwritten⟩
      · left
        simp only [runCommandLine, hargs]
        rw [Request.run_files cfg b w fun o words heq => hr ⟨o, words, heq⟩]
  · intro o words hargs
    refine ⟨?_, fun t' ht' p => ht'.kept_or_writtenBack p⟩
    rw [hformat o words hargs]
    exact run_leaves o words w

/-- A file that is named twice is formatted, though the command fails at the next name; a file that
is not named is as before. -/
theorem files_never_damaged_repeated_path :
    let w : World := { files := .ofNodes [] [([txt "a.yaml"], .file (txt "rules:\n- id: x")),
      ([txt "b.yaml"], .file (txt "rules:\n- id: x"))] }
    let args := [txt "format", txt "-w", txt "a.yaml", txt " a.yaml", txt "c.yaml"]
    let o := runCommandLine {} {} args w
    o.error = some (.readFile (txt "c.yaml") ⟨.opening, txt "c.yaml", .notFound⟩) ∧
      o.files.read (txt "a.yaml") = .ok (txt "rules:\n  - id: x") ∧
      o.files.get? [txt "b.yaml"] = w.files.get? [txt "b.yaml"] := by
  intro w args o
  refine ⟨by decide +kernel, by decide +kernel, ?_⟩
  have hargs : Request.ofArgs {} args = .ok (.format ⟨2, false, true, false, []⟩
      [txt "a.yaml", txt " a.yaml", txt "c.yaml"]) := by decide +kernel
  obtain ⟨hleaves, hsafe⟩ := (files_never_damaged {} {} args w).2 _ _ hargs
  rcases hsafe _ hleaves [txt "b.yaml"] with hkept | ⟨-, -, hnamed, -⟩
  · exact hkept
  · exact absurd hnamed (by decide +kernel)

end RuleLang
