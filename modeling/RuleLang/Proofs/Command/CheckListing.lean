import RuleLang.Command.Format
import RuleLang.Proofs.Indent.Formatted
import RuleLang.Proofs.Server.CacheTransparency

/-!
# RuleLang.Proofs.Command.CheckListing

What `format --check` lists, and why an editor agrees with it.

A check reads its inputs one after another and changes nothing but standard input, which is empty
once it is read (`FormatCommand.formatAll_check`). It lists the inputs that formatting changes
(`FormatCommand.run_check`). These are the inputs whose lines need edits, and for them a server
answers a formatting request with an edit (`FormatCommand.check_agrees_with_editor`).
-/

namespace RuleLang
namespace FormatCommand

/-- The name of an input in listings. -/
def titleOf (name : Text) : Text := if name = stdinName then txt "<stdin>" else name

/-- The inputs that a check lists, one a line. -/
def listing (inputs : List (Text × Text)) : Text :=
  inputs.flatMap fun input => titleOf input.1 ++ txt "\n"

/-- The texts of inputs, read one after another. -/
def sources : World → List Text → Except CommandError (List Text)
  | _, [] => .ok []
  | w, name :: names =>
    match source w name with
    | .error e => .error e
    | .ok (t, w) => (sources w names).map (t :: ·)

/-! ## Reading -/

theorem source_of_read {w : World} {name t : Text} (hname : name ≠ stdinName)
    (h : w.files.read name = .ok t) : source w name = .ok (t, w) := by
  simp [source, hname, h]

/-- Reading an input leaves files and standard output alone. -/
theorem source_frame {w w' : World} {name t : Text} (h : source w name = .ok (t, w')) :
    w'.files = w.files ∧ w'.stdoutFault = w.stdoutFault := by
  unfold source at h
  split at h
  · split at h
    · cases h
    · cases h
      exact ⟨rfl, rfl⟩
  · split at h
    · cases h
    · cases h
      exact ⟨rfl, rfl⟩

/-- Without writing back, an input is read and formatted. -/
theorem formatOne_of_source {mode : Mode} (hmode : mode ≠ .write) (format : Text → Text)
    {w w' : World} {name t : Text} (h : source w name = .ok (t, w')) :
    formatOne mode format w name = .ok (⟨name, t, format t⟩, w') := by
  cases mode with
  | write => exact absurd rfl hmode
  | print | check => simp only [formatOne, h]

/-- What becomes of an input with a text. -/
def resultOf (format : Text → Text) (input : Text × Text) : Result :=
  ⟨input.1, input.2, format input.2⟩

theorem formatAll_check (format : Text → Text) {w : World} {names texts : List Text}
    (h : sources w names = .ok texts) :
    ∃ w', formatAll .check format w names = (w', (names.zip texts).map (resultOf format), none) ∧
      w'.files = w.files ∧ w'.stdoutFault = w.stdoutFault := by
  induction names generalizing w texts with
  | nil =>
    cases h
    exact ⟨w, rfl, rfl, rfl⟩
  | cons name names ih =>
    rw [sources] at h
    cases hs : source w name with
    | error e =>
      rw [hs] at h
      cases h
    | ok r =>
      obtain ⟨t, w1⟩ := r
      rw [hs] at h
      dsimp only at h
      obtain ⟨hfiles, hstdout⟩ := source_frame hs
      cases hrest : sources w1 names with
      | error e =>
        rw [hrest] at h
        cases h
      | ok ts =>
        rw [hrest] at h
        cases h
        obtain ⟨w', hall, hfiles', hstdout'⟩ := ih hrest
        refine ⟨w', ?_, by rw [hfiles', hfiles], by rw [hstdout', hstdout]⟩
        simp only [formatAll, formatOne, hs, hall]
        rfl

/-! ## Listing -/

section Check

variable {o : FormatOptions} {words : List Text} {w : World} {c : Catalog} {texts : List Text}

/-- The inputs that formatting changes. -/
def changedInputs (format : Text → Text) (inputs : List (Text × Text)) : List (Text × Text) :=
  inputs.filter fun input => format input.2 ≠ input.2

theorem filter_changed_resultOf (format : Text → Text) (inputs : List (Text × Text)) :
    (inputs.map (resultOf format)).filter Result.changed =
      (changedInputs format inputs).map (resultOf format) := by
  rw [List.filter_map]
  rfl

theorem report_of_stdout (hw : w.stdoutFault = none) (format : Text → Text)
    (inputs : List (Text × Text)) :
    report w (inputs.map (resultOf format)) =
      { files := w.files
        stdout := listing (changedInputs format inputs)
        error := if changedInputs format inputs = [] then none
          else some (.needsFormatting (changedInputs format inputs).length inputs.length) } := by
  unfold report
  rw [filter_changed_resultOf]
  by_cases hnone : changedInputs format inputs = []
  · simp [hnone, listing]
  · have hlist : ((changedInputs format inputs).map (resultOf format)).flatMap
        (fun r => r.title ++ txt "\n") = listing (changedInputs format inputs) := by
      rw [List.flatMap_map]
      rfl
    simp [hnone, World.print, hw, hlist]

theorem run_check (hcheck : o.check = true) (hwrite : o.write = false)
    (hcat : Catalog.load w.files o.catalogPath = .ok c) (hw : w.stdoutFault = none)
    (htexts : sources w (inputNames words) = .ok texts) :
    let changed := changedInputs (fun t => formatText c t (style o)) ((inputNames words).zip texts)
    run o words w =
      { files := w.files
        stdout := listing changed
        error := if changed = [] then none
          else some (.needsFormatting changed.length ((inputNames words).zip texts).length) } := by
  intro changed
  obtain ⟨w', hall, hfiles, hstdout⟩ :=
    formatAll_check (fun t => formatText c t (style o)) htexts
  have hrun : run o words w =
      runMode .check (fun t => formatText c t (style o)) w (inputNames words) := by
    simp [run, hcheck, hwrite, hcat]
  rw [hrun, runMode, hall]
  dsimp only
  rw [report_of_stdout (hstdout.trans hw), hfiles]

end Check

/-! ## The editor -/

/-- A server answers a formatting request by the edits of the text that is open, whatever messages
came before. -/
theorem send_formatting {c : Catalog} {messages : List Text}
    (hdigest : Set.InjOn Text.sha256 {t | t ∈ documentTexts messages}) (version : Text)
    (start : Style) (size : Int) {e : Envelope} {id : MessageId} {p : Params.Formatting} {t : Text}
    (hmethod : Method.ofName e.method = .formatting) (hid : e.id = some id)
    (hparams : e.params.bind Params.formatting? = some p)
    (ht : ((Server.start c version start size).after messages).text? p.uri = some t) :
    (((Server.start c version start size).after messages).handle e).send =
      some (Server.response id (.arr ((Edit.compute c t.lines p.options.bounded).map fun e =>
        (TextEdit.ofEdit e).toJson))) := by
  have hstart := Server.coherent_start c version start size (documentTexts messages)
  have hserver := hstart.after hdigest (List.Subset.refl _)
  rw [hserver.handle_formatting hmethod hparams ht, hid]
  rfl

/-- **The check and the editor agree on what is formatted.** Formatting leaves a text as it is if and
only if its lines need no edits. So a check lists exactly the inputs whose lines need edits under
its catalog and style; and a server with this catalog that is asked to format one of these texts in
this style sends exactly these edits, which are none if and only if the text is formatted. -/
theorem check_agrees_with_editor :
    (∀ (c : Catalog) (t : Text) (s : Style),
      formatText c t s = t ↔ Edit.compute c t.lines s = []) ∧
    ∀ (o : FormatOptions) (words : List Text) (w : World) (c : Catalog) (texts : List Text),
      o.check = true → o.write = false → Catalog.load w.files o.catalogPath = .ok c →
      w.stdoutFault = none → sources w (inputNames words) = .ok texts →
      (run o words w).stdout = listing (((inputNames words).zip texts).filter fun input =>
        Edit.compute c input.2.lines (style o) ≠ []) ∧
      ∀ (version : Text) (start : Style) (size : Int) (messages : List Text) (e : Envelope)
        (id : MessageId) (p : Params.Formatting) (t : Text),
        let s := (Server.start c version start size).after messages
        let edits := (Edit.compute c t.lines (style o)).map fun e => (TextEdit.ofEdit e).toJson
        Set.InjOn Text.sha256 {t | t ∈ documentTexts messages} →
        Method.ofName e.method = .formatting → e.id = some id →
        e.params.bind Params.formatting? = some p → p.options.bounded = style o →
        s.text? p.uri = some t →
        (s.handle e).send = some (Server.response id (.arr edits)) ∧
          (edits = [] ↔ formatText c t (style o) = t) := by
  refine ⟨formatText_eq_self_iff, ?_⟩
  intro o words w c texts hcheck hwrite hcat hw htexts
  constructor
  · rw [run_check hcheck hwrite hcat hw htexts]
    simp only [changedInputs, ne_eq, formatText_eq_self_iff]
  · intro version start size messages e id p t s edits hdigest hmethod hid hparams hstyle ht
    have hsend := send_formatting hdigest version start size hmethod hid hparams ht
    rw [hstyle] at hsend
    exact ⟨hsend, by rw [List.map_eq_nil_iff, formatText_eq_self_iff]⟩

/-- Of two files one is listed, and a client that has opened a document with its text is sent an
edit. -/
theorem check_agrees_with_editor_two_files :
    let w : World := { files := .ofNodes [] [([txt "a.yaml"], .file (txt "rules:\n- id: x")),
      ([txt "b.yaml"], .file (txt "rules:\r\n  - id: x\r\n"))] }
    let o : FormatOptions := ⟨2, false, false, true, []⟩
    let s := (Server.start .builtin [] {} 1).after ((twoDocuments.take 2).map Json.toText)
    let e : Envelope := {
      method := txt "textDocument/formatting"
      id := some ⟨.int 1, txt "1"⟩
      params := some (.record [("textDocument", .record [("uri", .lit "a")]),
        ("options", .record [("tabSize", .int 2), ("insertSpaces", .bool true)])]) }
    (run o [txt "a.yaml", txt " b.yaml"] w).stdout = txt "a.yaml\n" ∧
      s.text? (txt "a") = some (txt "rules:\n- id: x") ∧
      (s.handle e).send = some (Server.response ⟨.int 1, txt "1"⟩
        (.arr [(TextEdit.mk (.inLine 1 0 0) (txt "  ")).toJson])) := by
  intro w o s e
  obtain ⟨hlist, hserver⟩ := check_agrees_with_editor.2 o [txt "a.yaml", txt " b.yaml"] w .builtin
    [txt "rules:\n- id: x", txt "rules:\r\n  - id: x\r\n"] rfl rfl rfl rfl (by rfl)
  have htext : s.text? (txt "a") = some (txt "rules:\n- id: x") := by decide +kernel
  have htexts : documentTexts ((twoDocuments.take 2).map Json.toText) =
      [txt "rules:\n- id: x", txt "  rules:"] := by decide +kernel
  have hdigest : (txt "rules:\n- id: x").sha256 ≠ (txt "  rules:").sha256 := by decide +kernel
  have hanswer := hserver [] {} 1 ((twoDocuments.take 2).map Json.toText) e ⟨.int 1, txt "1"⟩
    ⟨txt "a", ⟨true, 2⟩⟩ (txt "rules:\n- id: x")
    (by rw [htexts]; simp [Set.InjOn, hdigest, hdigest.symm]) (by decide) rfl (by rfl) rfl htext
  have hedits : Edit.compute .builtin (txt "rules:\n- id: x").lines (style o) =
      [⟨1, 0, 0, txt "  "⟩] := by decide +kernel
  rw [hedits] at hanswer
  exact ⟨by rw [hlist]; decide +kernel, htext, hanswer.1⟩

end FormatCommand
end RuleLang
