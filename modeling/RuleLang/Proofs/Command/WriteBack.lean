import RuleLang.Proofs.Command.Schedule

/-!
# RuleLang.Proofs.Command.WriteBack

What `format --write` leaves behind, and that `format --check` tells it in advance.

One input written back keeps the invariant that the files are the old ones with some of them
formatted (`FormatCommand.formatOne_write`). Formatting is idempotent, so this also holds of a file
that was written before, under this name or another; hence a run formats the files that its inputs
name (`FormatCommand.run_write_files`), and nothing about it depends on their order. A check after
it reads formatted files only. `FormatCommand.check_predicts_write` puts both runs together, and
shows that they come to the same in every schedule of the tasks.
-/

namespace RuleLang
namespace FormatCommand

open FileTree

/-! ## Writing -/

section Write

variable (format : Text → Text) (hidem : ∀ t, format (format t) = format t)
  {t : FileTree} {done : List Path} {w : World} (hw : Rewritten format done t w.files)

include hidem hw

theorem formatOne_write {name c : Text} {p : Path} (hname : name ≠ stdinName)
    (hp : t.resolve name = .ok p) (hc : t.get? p = some (.file c)) :
    ∃ r files, formatOne .write format w name = .ok (r, { w with files := files }) ∧
      Rewritten format (p :: done) t files := by
  obtain ⟨src, hsrc, hformat⟩ := hw.exists_get? hidem hc
  have hp' : w.files.resolve name = .ok p := by rw [hw.resolve, hp]
  have hread := source_of_read hname (read_eq_ok_iff.2 ⟨p, hp', hsrc⟩)
  -- the file may have been written before; what it holds now is formatted to the same text
  by_cases hsame : format src = src
  · refine ⟨⟨name, src, format src⟩, w.files, ?_, hw.keep hc ?_⟩
    · simp [formatOne, hread, writeBack, hname, Result.changed, hsame, Except.map]
    · rw [hsrc, ← hformat, hsame]
  · refine ⟨⟨name, src, format src⟩, w.files.insert p (.file (format src)), ?_, ?_⟩
    · simp [formatOne, hread, writeBack, hname, Result.changed, hsame, Except.map,
        write_of_file (format src) hp' hsrc]
    · rw [hformat]
      exact hw.insert hc

theorem formatAll_write {names : List Text}
    (hnames : ∀ name ∈ names, name ≠ stdinName ∧ ∃ c, t.read name = .ok c) :
    ∃ files rs, formatAll .write format w names = ({ w with files := files }, rs, none) ∧
      Rewritten format ((t.places names).reverse ++ done) t files := by
  induction names generalizing w done with
  | nil => exact ⟨w.files, [], rfl, hw⟩
  | cons name names ih =>
    obtain ⟨⟨hname, c, hread⟩, hrest⟩ := List.forall_mem_cons.1 hnames
    obtain ⟨p, hp, hc⟩ := read_eq_ok_iff.1 hread
    obtain ⟨r, files, hone, hfiles⟩ := formatOne_write format hidem hw hname hp hc
    obtain ⟨files', rs, hall, hfiles'⟩ := ih (w := { w with files := files }) hfiles hrest
    refine ⟨files', r :: rs, ?_, ?_⟩
    · rw [formatAll, hone]
      dsimp only
      rw [hall]
    · rw [places_cons hp, List.reverse_cons, List.append_assoc]
      exact hfiles'

end Write

/-! ## Files only -/

theorem inputNames_perm {words words' : List Text} (h : words'.Perm words) :
    (inputNames words').Perm (inputNames words) := by
  cases words with
  | nil => rw [h.eq_nil]
  | cons word words =>
    have hwords' : words' ≠ [] := fun h' => by simp [h'] at h
    simp only [inputNames, List.isEmpty_iff, hwords', reduceCtorEq, if_false]
    exact h.map _

section Files

variable {o : FormatOptions} {words : List Text} {w : World} {c : Catalog} {content : Text → Text}
  (hfiles : ∀ p ∈ inputNames words, p ≠ stdinName ∧ w.files.read p = .ok (content p))
  (hcat : Catalog.load w.files o.catalogPath = .ok c)

theorem filePlaces_of_files {names : List Text} (hnames : ∀ p ∈ names, p ≠ stdinName)
    (t : FileTree) : filePlaces t names = t.places names := by
  rw [filePlaces, List.filter_eq_self.2 (by simpa using hnames)]

theorem sources_of_files {names : List Text}
    (hnames : ∀ p ∈ names, p ≠ stdinName ∧ w.files.read p = .ok (content p)) :
    sources w names = .ok (names.map content) := by
  induction names with
  | nil => rfl
  | cons name names ih =>
    obtain ⟨⟨hname, hread⟩, hrest⟩ := List.forall_mem_cons.1 hnames
    rw [sources, source_of_read hname hread]
    dsimp only
    rw [ih hrest]
    rfl

/-- The results of files list those that formatting changes, by name. -/
theorem report_of_files {names : List Text} (hnames : ∀ p ∈ names, p ≠ stdinName)
    (hw : w.stdoutFault = none) (format : Text → Text) (content : Text → Text) :
    let changed := names.filter fun p => format (content p) ≠ content p
    report w (names.map fun p => resultOf format (p, content p)) =
      { files := w.files
        stdout := changed.flatMap (· ++ txt "\n")
        error := if changed = [] then none
          else some (.needsFormatting changed.length names.length) } := by
  intro changed
  have hchanged : changedInputs format (names.map fun p => (p, content p)) =
      changed.map fun p => (p, content p) := by
    rw [changedInputs, List.filter_map]
    rfl
  have hlisting : listing (changed.map fun p => (p, content p)) =
      changed.flatMap (· ++ txt "\n") := by
    rw [listing, List.flatMap_map]
    refine List.flatMap_congr fun p hp => ?_
    rw [titleOf, if_neg (hnames p (List.mem_filter.1 hp).1)]
  have hreport := report_of_stdout hw format (names.map fun p => (p, content p))
  rw [List.map_map, hchanged, hlisting] at hreport
  rw [← Function.comp_def (resultOf format), hreport]
  simp

include hfiles

/-! What the files and the catalog are after `format` was applied to the files that the inputs
name. -/

theorem read_rewritten {format : Text → Text} {files : FileTree}
    (h : Rewritten format (w.files.places (inputNames words)) w.files files) {p : Text}
    (hp : p ∈ inputNames words) : files.read p = .ok (format (content p)) := by
  obtain ⟨q, hq, hc⟩ := read_eq_ok_iff.1 (hfiles p hp).2
  exact h.read_of_mem hq (mem_places.2 ⟨p, hp, hq⟩) hc

theorem load_rewritten {format : Text → Text} {files : FileTree}
    (h : Rewritten format (w.files.places (inputNames words)) w.files files) {path : Text}
    (hpath : ∀ p ∈ inputNames words, w.files.resolve p = w.files.resolve path →
      format (content p) = content p) :
    Catalog.load files path = Catalog.load w.files path := by
  have hread : files.read path = w.files.read path := by
    apply h.read_of_fixed
    intro q hq hres
    obtain ⟨p, hp, hpq⟩ := mem_places.1 hq
    obtain ⟨q', hq', hc⟩ := read_eq_ok_iff.1 (hfiles p hp).2
    obtain rfl : q' = q := Except.ok.inj (hq'.symm.trans hpq)
    rw [hc, Option.map_some, FileNode.map, hpath p hp (hpq.trans hres.symm)]
  rw [Catalog.load, Catalog.load, hread]

include hcat

/-- A check of files lists those that formatting changes, by name. -/
theorem run_check_files (hcheck : o.check = true) (hwrite : o.write = false)
    (hw : w.stdoutFault = none) :
    let changed := (inputNames words).filter fun p =>
      formatText c (content p) (style o) ≠ content p
    run o words w =
      { files := w.files
        stdout := changed.flatMap (· ++ txt "\n")
        error := if changed = [] then none
          else some (.needsFormatting changed.length (inputNames words).length) } := by
  intro changed
  have hzip : (inputNames words).zip ((inputNames words).map content) =
      (inputNames words).map fun p => (p, content p) := List.map_prod_left_eq_zip.symm
  have hreport := report_of_files (fun p hp => (hfiles p hp).1) hw
    (fun t => formatText c t (style o)) content
  rw [← hreport, run_check hcheck hwrite hcat hw (sources_of_files hfiles), hzip,
    ← report_of_stdout hw, List.map_map]
  rfl

theorem run_check_formatted (hcheck : o.check = true) (hwrite : o.write = false)
    (hw : w.stdoutFault = none)
    (hformatted : ∀ p ∈ inputNames words, formatText c (content p) (style o) = content p) :
    run o words w = { files := w.files } := by
  have hnone : ((inputNames words).filter fun p =>
      formatText c (content p) (style o) ≠ content p) = [] := by
    simpa using hformatted
  rw [run_check_files hfiles hcat hcheck hwrite hw, hnone]
  rfl

/-- Writing files back formats the files that the inputs name. -/
theorem run_write_files (hcheck : o.check = false) (hwrite : o.write = true) :
    ∃ files rs, run o words w = { files := files } ∧
      Completes .write (fun t => formatText c t (style o)) w.files (inputNames words) files rs ∧
      Rewritten (fun t => formatText c t (style o)) (w.files.places (inputNames words))
        w.files files := by
  have hnames : ∀ p ∈ inputNames words, p ≠ stdinName ∧ ∃ t, w.files.read p = .ok t := by
    intro p hp
    exact ⟨(hfiles p hp).1, _, (hfiles p hp).2⟩
  have hstdin : inputNames words ≠ [stdinName] := by
    intro h
    rw [h] at hfiles
    exact (hfiles stdinName List.mem_cons_self).1 rfl
  obtain ⟨files, rs, hall, hrewritten⟩ := formatAll_write (fun t => formatText c t (style o))
    (formatText_formatText c (style o)) (rewritten_nil _ w.files) hnames
  refine ⟨files, rs, ?_, completes_of_formatAll (.inl rfl) hall, hrewritten.congr (by simp)⟩
  have hrun : run o words w =
      runMode .write (fun t => formatText c t (style o)) w (inputNames words) := by
    simp [run, hcheck, hwrite, hcat, hstdin]
  rw [hrun, runMode, hall]

/-- The order of the inputs makes no difference. -/
theorem get?_run_write_perm (hcheck : o.check = false) (hwrite : o.write = true)
    {words' : List Text} (hperm : words'.Perm words) (q : Path) :
    (run o words' w).files.get? q = (run o words w).files.get? q := by
  have hnames := inputNames_perm hperm
  have hfiles' : ∀ p ∈ inputNames words', p ≠ stdinName ∧ w.files.read p = .ok (content p) :=
    fun p hp => hfiles p (hnames.mem_iff.1 hp)
  obtain ⟨files, -, hrun, -, hrewritten⟩ := run_write_files hfiles hcat hcheck hwrite
  obtain ⟨files', -, hrun', -, hrewritten'⟩ := run_write_files hfiles' hcat hcheck hwrite
  have hplaces : ∀ q, q ∈ w.files.places (inputNames words') ↔
      q ∈ w.files.places (inputNames words) := by
    simp [mem_places, hnames.mem_iff]
  rw [hrun, hrun', (hrewritten'.congr hplaces).node, hrewritten.node]

end Files

/-! ## Schedules -/

section Schedules

variable {w : World} {names : List Text} {content format : Text → Text}
  (hfiles : ∀ p ∈ names, p ≠ stdinName ∧ w.files.read p = .ok (content p))

include hfiles

theorem completes_check : ∃ rs, Completes .check format w.files names w.files rs := by
  have hstdin : stdinName ∉ names := fun hmem => (hfiles stdinName hmem).1 rfl
  obtain ⟨w', hall, hsame, -⟩ := formatAll_check format (sources_of_files hfiles)
  have hdone := completes_of_formatAll (.inr hstdin) hall
  rw [hsame] at hdone
  exact ⟨_, hdone⟩

variable (hidem : ∀ t, format (format t) = format t)

include hidem

theorem exists_completed {mode : Mode} {b : Batch}
    (hsteps : Batch.Steps mode format (.start w.files names) b) (hgoing : .stopped ∉ b.tasks) :
    ∃ (t' : FileTree) (rs : List Result), Batch.Steps mode format b ⟨t', rs.map .done⟩ := by
  obtain ⟨ps, hsafe⟩ := Batch.safe_start.steps hidem hsteps
  refine hsafe.exists_completed hidem ?_ hgoing
  intro name hname
  exact ⟨(hfiles name hname).1, _, (hfiles name hname).2⟩

theorem rewritten_of_completes {t' : FileTree} {rs : List Result}
    (h : Completes .write format w.files names t' rs) :
    Rewritten format (w.files.places names) w.files t' := by
  have hrewritten := h.rewritten hidem
  rwa [filePlaces_of_files fun p hp => (hfiles p hp).1] at hrewritten

end Schedules

/-! ## Both runs -/

/-- **A check predicts what writing back does, and writing back settles it.** The inputs name files.
The check changes no file, lists the files that formatting changes in the order of the inputs, and
fails with their number if and only if there are any. Writing back succeeds without output; then
each of the files holds its formatted content, everything at other places is as before, and the
order of the inputs makes no difference. If the catalog is still the same, as it is unless one of
the changed files is the catalog file itself, then another check succeeds and lists nothing.

Both runs take one input after another, and are among the schedules in which all inputs are
completed. Every such schedule, in whatever order and however many inputs are worked on at a time,
gives the report of the check, or leaves the files of the run that writes back, and a check after it
lists nothing. No input keeps another one from being completed. -/
theorem check_predicts_write (o : FormatOptions) (words : List Text) (w : World) (c : Catalog)
    (content : Text → Text)
    (hfiles : ∀ p ∈ inputNames words, p ≠ stdinName ∧ w.files.read p = .ok (content p))
    (hcat : Catalog.load w.files o.catalogPath = .ok c) (hw : w.stdoutFault = none) :
    let format t := formatText c t (style o)
    let changed := (inputNames words).filter fun p => format (content p) ≠ content p
    let check := run { o with check := true, write := false } words
    let write words := run { o with check := false, write := true } words w
    let written := (write words).files
    check w =
      { files := w.files
        stdout := changed.flatMap (· ++ txt "\n")
        error := if changed = [] then none
          else some (.needsFormatting changed.length (inputNames words).length) } ∧
    write words = { files := written } ∧
    (∀ p ∈ inputNames words, written.read p = .ok (format (content p))) ∧
    (∀ q, (∀ p ∈ inputNames words, w.files.resolve p ≠ .ok q) →
      written.get? q = w.files.get? q) ∧
    (∀ words', words'.Perm words → ∀ q, (write words').files.get? q = written.get? q) ∧
    ((∀ p ∈ changed, w.files.resolve p ≠ w.files.resolve o.catalogPath) →
      Catalog.load written o.catalogPath = .ok c) ∧
    (Catalog.load written o.catalogPath = .ok c →
      check { w with files := written } = { files := written }) ∧
    (∃ rs, Completes .check format w.files (inputNames words) w.files rs) ∧
    (∃ rs, Completes .write format w.files (inputNames words) written rs) ∧
    (∀ t' rs, Completes .check format w.files (inputNames words) t' rs →
      t' = w.files ∧ report w rs = check w) ∧
    (∀ t' rs, Completes .write format w.files (inputNames words) t' rs →
      (∀ q, t'.get? q = written.get? q) ∧
      (Catalog.load t' o.catalogPath = .ok c → check { w with files := t' } = { files := t' })) ∧
    (∀ mode b, Batch.Steps mode format (.start w.files (inputNames words)) b →
      .stopped ∉ b.tasks →
      ∃ (t' : FileTree) (rs : List Result), Batch.Steps mode format b ⟨t', rs.map .done⟩) := by
  intro format changed check write written
  have hidem : ∀ t, format (format t) = format t := formatText_formatText c (style o)
  obtain ⟨files, rs, hrun, hdone, hrewritten⟩ : ∃ files rs, write words = { files := files } ∧
      Completes .write format w.files (inputNames words) files rs ∧
      Rewritten format (w.files.places (inputNames words)) w.files files :=
    run_write_files (o := { o with check := false, write := true }) hfiles hcat rfl rfl
  have hwritten : written = files := congrArg Outcome.files hrun
  -- a check after some run that writes back, be it the command itself or another schedule
  have hafter : ∀ t', Rewritten format (w.files.places (inputNames words)) w.files t' →
      Catalog.load t' o.catalogPath = .ok c → check { w with files := t' } = { files := t' } := by
    intro t' ht' hcat'
    have hread : ∀ p ∈ inputNames words, p ≠ stdinName ∧
        t'.read p = .ok (format (content p)) :=
      fun p hp => ⟨(hfiles p hp).1, read_rewritten hfiles ht' hp⟩
    exact run_check_formatted (o := { o with check := true, write := false })
      (w := { w with files := t' }) hread hcat' rfl rfl hw fun p _ => hidem (content p)
  have hcheck : check w = _ :=
    run_check_files (o := { o with check := true, write := false }) hfiles hcat rfl rfl hw
  refine ⟨hcheck, ?_, ?_, ?_, ?_, ?_, ?_, completes_check hfiles, ?_, ?_, ?_, ?_⟩
  · rw [hwritten]
    exact hrun
  · rw [hwritten]
    intro p hp
    exact read_rewritten hfiles hrewritten hp
  · intro q hq
    rw [hwritten]
    apply hrewritten.get?_of_not_mem
    rw [mem_places]
    rintro ⟨p, hp, hres⟩
    exact hq p hp hres
  · intro words' hperm q
    exact get?_run_write_perm (o := { o with check := false, write := true }) hfiles hcat rfl rfl
      hperm q
  · intro hother
    rw [hwritten, ← hcat]
    apply load_rewritten hfiles hrewritten
    intro p hp hres
    by_contra hne
    exact hother p (List.mem_filter.2 ⟨hp, by simpa using hne⟩) hres
  · rw [hwritten]
    exact hafter files hrewritten
  · rw [hwritten]
    exact ⟨rs, hdone⟩
  · intro t' rs hcompletes
    obtain ⟨rfl, rfl⟩ := hcompletes.results hidem (by simp) fun p hp => (hfiles p hp).2
    rw [hcheck]
    exact ⟨rfl, report_of_files (fun p hp => (hfiles p hp).1) hw format content⟩
  · intro t' rs hcompletes
    have ht' := rewritten_of_completes hfiles hidem hcompletes
    refine ⟨?_, hafter t' ht'⟩
    intro q
    rw [hwritten, ht'.node, hrewritten.node]
  · intro mode b hsteps hgoing
    exact exists_completed hfiles hidem hsteps hgoing

/-- Of two files one is listed; written back, it is formatted, and nothing is left to list. -/
theorem check_predicts_write_two_files :
    let w : World := { files := .ofNodes [] [([txt "a.yaml"], .file (txt "rules:\n- id: x")),
      ([txt "b.yaml"], .file (txt "rules:\r\n  - id: x\r\n"))] }
    let o : FormatOptions := ⟨2, false, false, false, []⟩
    let words := [txt "b.yaml", txt "a.yaml "]
    let check := run { o with check := true, write := false } words
    let written := (run { o with check := false, write := true } words w).files
    (check w).stdout = txt "a.yaml\n" ∧ (check w).error = some (.needsFormatting 1 2) ∧
      written.read (txt "a.yaml") = .ok (txt "rules:\n  - id: x") ∧
      check { w with files := written } = { files := written } := by
  intro w o words check written
  obtain ⟨hcheck, -, hread, -, -, -, hafter, -⟩ := check_predicts_write o words w .builtin
    (fun p => if p = txt "a.yaml" then txt "rules:\n- id: x" else txt "rules:\r\n  - id: x\r\n")
    (by decide +kernel) rfl rfl
  refine ⟨?_, ?_, ?_, hafter rfl⟩
  · exact (congrArg Outcome.stdout hcheck).trans (by decide +kernel)
  · exact (congrArg Outcome.error hcheck).trans (by decide +kernel)
  · exact (hread (txt "a.yaml") (by decide +kernel)).trans (by decide +kernel)

/-- Why the catalog has to stay the same, and why the files are those of `inputNames`: a catalog file
that is written back may be no catalog any more, so that the next check fails, and a file whose name
starts with a blank is not found, because white space around a word does not count. -/
theorem check_after_write_may_fail :
    let catalog := txt "root:\n  - keyword: \"rules:\"\n    docs: x\n"
    let w : World := { files := .ofNodes [] [([txt "c.yaml"], .file catalog),
      ([txt " a.yaml"], .file (txt "rules:\n- id: x\n"))] }
    let o : FormatOptions := ⟨2, false, false, false, []⟩
    let write := run { o with write := true, catalogPath := txt "c.yaml" } [txt "c.yaml"]
    let check := run { o with check := true, catalogPath := txt "c.yaml" } [txt "c.yaml"]
    ((check w).error = some (.needsFormatting 1 1) ∧ (write w).error = none ∧
      (check { w with files := (write w).files }).error =
        some (.catalog (.unfit (txt "c.yaml") .malformed))) ∧
    (w.files.read (txt " a.yaml") = .ok (txt "rules:\n- id: x\n") ∧
      formatText .builtin (txt "rules:\n- id: x\n") (style o) ≠ txt "rules:\n- id: x\n" ∧
      run { o with check := true } [txt " a.yaml"] w =
        w.fail (.readFile (txt "a.yaml") ⟨.opening, txt "a.yaml", .notFound⟩)) := by
  intro catalog w o write check
  exact ⟨⟨by decide +kernel, by decide +kernel, by decide +kernel⟩,
    by decide +kernel, by decide +kernel, by decide +kernel⟩

end FormatCommand
end RuleLang
