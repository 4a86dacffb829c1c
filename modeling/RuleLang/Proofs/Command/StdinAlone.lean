import RuleLang.Command.Run
import RuleLang.Proofs.Command.WriteBack

/-!
# RuleLang.Proofs.Command.StdinAlone

Standard input among several inputs.

A command line that mixes standard input with other inputs is refused when its words are read
(`Request.isDash`), and the words are turned into inputs later (`FormatCommand.inputName`). Both do
not agree: a blank word is standard input for the latter only. `FormatCommand.stdin_alone_or_blank`
tells which command lines fail before they read anything: those with a dash, and those that would
also fail for several files. With the others standard input is read like any file, which
`FormatCommand.formatAll_stdin_fault` tells from the fault of a stream that cannot be read.
-/

namespace RuleLang

/-- The command line runs the format command, with these arguments. -/
def Request.Formats (cfg : Config) (args : List Text) (a : Arguments) : Prop :=
  ∃ rest, select args = .ok (.format, rest) ∧
    Arguments.read (Command.flags cfg .format) rest = .ok a ∧ a.switch "help" false = false

/-- The command line fails before it reads or writes anything: whatever it would find, it ends with
the same error, and nothing else happens. -/
def FailsAtOnce (cfg : Config) (b : BuildInfo) (args : List Text) : Prop :=
  ∃ e, ∀ w, runCommandLine cfg b args w = w.fail e

section Formats

variable {cfg : Config} {args : List Text} {a : Arguments} (h : Request.Formats cfg args a)

include h

theorem Request.Formats.ofArgs_eq : ofArgs cfg args = ofArguments cfg .format a := by
  obtain ⟨rest, hselect, hread, hhelp⟩ := h
  simp [ofArgs, hselect, hread, hhelp, bind, Except.bind]

theorem Request.Formats.failsAtOnce (b : BuildInfo) (hwords : 1 < a.words.length)
    (hdash : a.words.any isDash = true) : FailsAtOnce cfg b args := by
  refine ⟨.request .mixedStdin, fun w => ?_⟩
  simp [runCommandLine, h.ofArgs_eq, ofArguments, hwords, hdash]

theorem Request.Formats.runs (b : BuildInfo) (hdash : a.words.any isDash = false) :
    ∃ o : FormatOptions, o.write = a.switch "write" false ∧ o.check = a.switch "check" false ∧
      o.catalogPath = a.text "catalog" cfg.catalogPath ∧
      ∀ w, runCommandLine cfg b args w = FormatCommand.run o a.words w := by
  refine ⟨⟨a.number "tab-size" cfg.tabSize, a.switch "tabs" cfg.useTabs, _, _, _⟩, rfl, rfl, rfl,
    fun w => ?_⟩
  rw [runCommandLine, h.ofArgs_eq, ofArguments, hdash, Bool.and_false]
  rfl

end Formats

namespace FormatCommand

open FileTree

/-! ## Words for standard input -/

theorem inputName_eq_stdinName_iff {word : Text} :
    inputName word = stdinName ↔ Request.isDash word = true ∨ word.trim = [] := by
  unfold inputName Request.isDash
  by_cases hblank : word.trim = []
  · simp [hblank]
  · simp [hblank, stdinName]

theorem stdinName_mem_inputNames_iff {words : List Text} (h : words ≠ []) :
    stdinName ∈ inputNames words ↔
      ∃ word ∈ words, Request.isDash word = true ∨ word.trim = [] := by
  simp [inputNames, h, inputName_eq_stdinName_iff]

theorem length_inputNames {words : List Text} (h : words ≠ []) :
    (inputNames words).length = words.length := by
  simp [inputNames, h]

/-! ## Reading up to standard input -/

section Fault

variable (mode : Mode) (format : Text → Text) (hidem : ∀ t, format (format t) = format t)
  {t : FileTree} {fault : Text}

include hidem

/-- A file is worked on, and all files can still be read. -/
theorem formatOne_file {w : World} {done : List Path} (hw : Rewritten format done t w.files)
    {name : Text} (hname : name ≠ stdinName) (hread : ∃ c, t.read name = .ok c) :
    ∃ r files done', formatOne mode format w name = .ok (r, { w with files := files }) ∧
      Rewritten format done' t files := by
  obtain ⟨c, hc⟩ := hread
  obtain ⟨p, hp, hc⟩ := read_eq_ok_iff.1 hc
  by_cases hmode : mode = .write
  · obtain ⟨r, files, hone, hfiles⟩ := formatOne_write format hidem hw hname hp hc
    exact ⟨r, files, p :: done, by rw [hmode, hone], hfiles⟩
  · obtain ⟨src, hsrc, -⟩ := hw.exists_get? hidem hc
    have hp' : w.files.resolve name = .ok p := by rw [hw.resolve, hp]
    have hsource := source_of_read hname (read_eq_ok_iff.2 ⟨p, hp', hsrc⟩)
    exact ⟨_, w.files, done, formatOne_of_source hmode format hsource, hw⟩

theorem formatAll_stdin_fault {w : World} {done : List Path} {names : List Text}
    (hw : Rewritten format done t w.files) (hfault : w.stdin = .error fault)
    (hnames : ∀ name ∈ names, name ≠ stdinName → ∃ c, t.read name = .ok c)
    (hstdin : stdinName ∈ names) :
    ∃ w' rs, formatAll mode format w names = (w', rs, some (.stdin fault)) := by
  induction names generalizing w done with
  | nil => cases hstdin
  | cons name names ih =>
    obtain ⟨hread, hrest⟩ := List.forall_mem_cons.1 hnames
    by_cases hname : name = stdinName
    · exact ⟨w, [], by simp [formatAll, formatOne, source, hname, hfault]⟩
    · obtain ⟨r, files, done', hone, hfiles⟩ :=
        formatOne_file mode format hidem hw hname (hread hname)
      have hstdin : stdinName ∈ names := (List.mem_cons.1 hstdin).resolve_left (Ne.symm hname)
      obtain ⟨w', rs, hall⟩ := ih (w := { w with files := files }) hfiles hfault hrest hstdin
      refine ⟨w', r :: rs, ?_⟩
      rw [formatAll, hone]
      dsimp only
      rw [hall]

end Fault

theorem run_several {o : FormatOptions} {words : List Text} (hmode : o.write = o.check)
    (hlen : 1 < (inputNames words).length) : ∃ e, ∀ w, run o words w = w.fail e := by
  cases hcheck : o.check with
  | true => exact ⟨.writeAndCheck, fun w => by simp [run, hmode, hcheck]⟩
  | false => exact ⟨.severalFiles, fun w => by simp [run, hmode, hcheck, hlen]⟩

theorem run_stdin_fault {o : FormatOptions} {words : List Text} {w : World} {c : Catalog}
    {fault : Text} (hmode : o.write ≠ o.check) (hlen : 1 < (inputNames words).length)
    (hcat : Catalog.load w.files o.catalogPath = .ok c) (hfault : w.stdin = .error fault)
    (hnames : ∀ name ∈ inputNames words, name ≠ stdinName → ∃ t, w.files.read name = .ok t)
    (hstdin : stdinName ∈ inputNames words) : (run o words w).error = some (.stdin fault) := by
  have hne : inputNames words ≠ [stdinName] := by
    intro h
    simp [h] at hlen
  have hrun : ∃ mode, run o words w =
      runMode mode (fun t => formatText c t (style o)) w (inputNames words) := by
    cases hwrite : o.write with
    | true =>
      have hcheck : o.check = false := by simpa [hwrite] using hmode
      exact ⟨.write, by simp [run, hwrite, hcheck, hcat, hne]⟩
    | false =>
      have hcheck : o.check = true := by simpa [hwrite] using hmode
      exact ⟨.check, by simp [run, hwrite, hcheck, hcat]⟩
  obtain ⟨mode, hrun⟩ := hrun
  obtain ⟨w', rs, hall⟩ := formatAll_stdin_fault mode (fun t => formatText c t (style o))
    (formatText_formatText c (style o)) (rewritten_nil _ w.files) hfault hnames hstdin
  rw [hrun, runMode, hall]
  rfl

/-! ## Several inputs -/

/-- **Standard input is alone, or it is a blank word.** The format command has several words, and one
of them is standard input. If one is a dash, or if it would also fail for several files, the command
fails before it reads or writes anything. Otherwise a word is blank, and nothing keeps the command
from reading standard input: if it finds its catalog and its files, then it fails as standard input
does. -/
theorem stdin_alone_or_blank (cfg : Config) (b : BuildInfo) (args : List Text) (a : Arguments)
    (hformat : Request.Formats cfg args a) (hwords : 1 < a.words.length)
    (hstdin : stdinName ∈ inputNames a.words) :
    ((∃ word ∈ a.words, Request.isDash word = true) ∨
        a.switch "write" false = a.switch "check" false → FailsAtOnce cfg b args) ∧
    (¬ ((∃ word ∈ a.words, Request.isDash word = true) ∨
        a.switch "write" false = a.switch "check" false) →
      (∃ word ∈ a.words, word.trim = []) ∧
      ∀ w c fault, Catalog.load w.files (a.text "catalog" cfg.catalogPath) = .ok c →
        (∀ name ∈ inputNames a.words, name ≠ stdinName → ∃ t, w.files.read name = .ok t) →
        w.stdin = .error fault → (runCommandLine cfg b args w).error = some (.stdin fault)) := by
  have hne : a.words ≠ [] := by
    intro h
    simp [h] at hwords
  have hlen : 1 < (inputNames a.words).length := by rwa [length_inputNames hne]
  by_cases hdash : ∃ word ∈ a.words, Request.isDash word = true
  · refine ⟨fun _ => ?_, fun h => absurd (.inl hdash) h⟩
    exact hformat.failsAtOnce b hwords (List.any_eq_true.2 hdash)
  · have hnone : a.words.any Request.isDash = false := by
      rw [← Bool.not_eq_true, List.any_eq_true]
      exact hdash
    obtain ⟨o, hwrite, hcheck, hpath, hrun⟩ := hformat.runs b hnone
    simp only [hdash, false_or, FailsAtOnce, hrun, ← hwrite, ← hcheck, ← hpath]
    refine ⟨fun hmode => run_several hmode hlen, fun hmode => ⟨?_, ?_⟩⟩
    · obtain ⟨word, hword, hor⟩ := (stdinName_mem_inputNames_iff hne).1 hstdin
      exact ⟨word, hword, hor.resolve_left fun h => hdash ⟨word, hword, h⟩⟩
    · intro w c fault hcat hnames hfault
      exact run_stdin_fault hmode hlen hcat hfault hnames hstdin

/-- A dash with blanks around it is refused at once; a blank word leads to standard input. -/
theorem stdin_alone_or_blank_check :
    let line word := [txt "format", txt "--check", word, txt "a.yaml"]
    let w : World :=
      { files := .ofNodes [] [([txt "a.yaml"], .file (txt "rules:\n"))]
        stdin := .error (txt "boom") }
    FailsAtOnce {} {} (line (txt " - ")) ∧
      (runCommandLine {} {} (line (txt " ")) w).error = some (.stdin (txt "boom")) := by
  intro line w
  have hformat : ∀ word ∈ [txt " - ", txt " "], Request.Formats {} (line word)
      ⟨[("check", .switch true)], [word, txt "a.yaml"]⟩ := by
    intro word hword
    refine ⟨[txt "--check", word, txt "a.yaml"], ?_⟩
    revert word
    decide +kernel
  constructor
  · apply (stdin_alone_or_blank {} {} _ _ (hformat (txt " - ") (by decide)) (by decide)
      (by decide +kernel)).1
    left
    decide +kernel
  · apply ((stdin_alone_or_blank {} {} _ _ (hformat (txt " ") (by decide)) (by decide)
      (by decide +kernel)).2 (by decide +kernel)).2 w .builtin _ rfl _ rfl
    intro name hname hne
    have hfile : name = txt "a.yaml" := by
      revert name
      decide +kernel
    exact ⟨txt "rules:\n", by rw [hfile]; rfl⟩

/-- A blank word puts standard input beside files: it is checked and listed together with a file, and
a file in front of it is written before the command fails. -/
theorem blank_word_not_alone :
    let w : World :=
      { files := .ofNodes [] [([txt "a.yaml"], .file (txt "rules:\n- id: x\n"))]
        stdin := .ok (txt "rules:\n- id: x\n") }
    let checked := runCommandLine {} {} [txt "format", txt "--check", [], txt "a.yaml"] w
    let written := runCommandLine {} {} [txt "format", txt "-w", txt "a.yaml", txt " "] w
    (checked.stdout = txt "<stdin>\na.yaml\n" ∧ checked.error = some (.needsFormatting 2 2)) ∧
    (written.files.read (txt "a.yaml") = .ok (txt "rules:\n  - id: x\n") ∧
      written.error = some .writeToStdin) ∧
    ¬ ∀ args a, Request.Formats {} args a → 1 < a.words.length →
      stdinName ∈ inputNames a.words → FailsAtOnce {} {} args := by
  intro w checked written
  have hstdout : checked.stdout = txt "<stdin>\na.yaml\n" := by decide +kernel
  refine ⟨⟨hstdout, by decide +kernel⟩, ⟨by decide +kernel, by decide +kernel⟩, ?_⟩
  intro hall
  have hformat : Request.Formats {} [txt "format", txt "--check", [], txt "a.yaml"]
      ⟨[("check", .switch true)], [[], txt "a.yaml"]⟩ :=
    ⟨[txt "--check", [], txt "a.yaml"], by decide +kernel⟩
  obtain ⟨e, he⟩ := hall _ _ hformat (by decide) (by decide +kernel)
  have hnothing : checked.stdout = [] := congrArg Outcome.stdout (he w)
  rw [hstdout] at hnothing
  exact absurd hnothing (by decide)

end FormatCommand
end RuleLang
