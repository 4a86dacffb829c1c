import Mathlib.Data.List.Forall2
import Mathlib.Logic.Relation
import RuleLang.Proofs.Command.CheckListing
import RuleLang.Proofs.Files.Rewriting

/-!
# RuleLang.Proofs.Command.Schedule

The inputs of a format command, worked on in any order.

Every input has a task: it reads a file, formats the text, writes it back if asked to, and leaves a
result at its own place. `Batch.Step` lets the tasks go on in any order and in between each other, and
lets each of them stop at any point, since an operation may fail and a failed task makes the others
give up. How many tasks go on at a time is left open.

Along every such schedule the files are the old ones with some of them formatted (`Batch.Safe`): a
task holds a text that was read from the old file or from the formatted one, and formatting takes
both to the same text. This is kept by every step (`Batch.Safe.step`), and tells what a schedule
comes to in which every task has left its result (`Completes.results`, `Completes.rewritten`). No
schedule gets stuck (`Batch.Safe.exists_completed`), and one input after another is one of them
(`formatAll_steps`).
-/

namespace RuleLang
namespace FormatCommand

open FileTree

/-! ## Tasks -/

/-- Where the work on an input stands. -/
inductive Task where
  | waiting (name : Text)
  | loaded (name source : Text)
  | done (result : Result)
  | stopped

structure Batch where
  files : FileTree
  tasks : List Task

namespace Batch

/-- One of the tasks goes on. A text that is formatted already need not be written. A write that
fails leaves the files alone, so that it is a `stop`. -/
inductive Step (mode : Mode) (format : Text → Text) : Batch → Batch → Prop where
  | load {t : FileTree} {before after : List Task} {name source : Text} : name ≠ stdinName →
      t.read name = .ok source →
      Step mode format ⟨t, before ++ .waiting name :: after⟩
        ⟨t, before ++ .loaded name source :: after⟩
  | leave {t : FileTree} {before after : List Task} {name source : Text} :
      (mode = .write → format source = source) →
      Step mode format ⟨t, before ++ .loaded name source :: after⟩
        ⟨t, before ++ .done ⟨name, source, format source⟩ :: after⟩
  | store {t t' : FileTree} {before after : List Task} {name source : Text} : mode = .write →
      t.write name (format source) = .ok t' →
      Step mode format ⟨t, before ++ .loaded name source :: after⟩
        ⟨t', before ++ .done ⟨name, source, format source⟩ :: after⟩
  | stop {t : FileTree} {before after : List Task} (task : Task) :
      Step mode format ⟨t, before ++ task :: after⟩ ⟨t, before ++ .stopped :: after⟩

abbrev Steps (mode : Mode) (format : Text → Text) : Batch → Batch → Prop :=
  Relation.ReflTransGen (Step mode format)

def start (t : FileTree) (names : List Text) : Batch := ⟨t, names.map .waiting⟩

end Batch

/-- In some schedule, all tasks have left their results, each at the place of its input. -/
def Completes (mode : Mode) (format : Text → Text) (t : FileTree) (names : List Text)
    (t' : FileTree) (rs : List Result) : Prop :=
  Batch.Steps mode format (.start t names) ⟨t', rs.map .done⟩

/-- The places of the files that inputs name. -/
def filePlaces (t : FileTree) (names : List Text) : List Path :=
  t.places (names.filter fun name => name ≠ stdinName)

theorem mem_filePlaces {t : FileTree} {names : List Text} {p : Path} :
    p ∈ filePlaces t names ↔ ∃ name ∈ names, name ≠ stdinName ∧ t.resolve name = .ok p := by
  simp [filePlaces, mem_places, and_assoc]

/-! ## What every step keeps -/

/-- The list on the left is cut where the one on the right is. -/
theorem forall₂_append_cons {α β : Type} {R : α → β → Prop} {l : List α} {before after : List β}
    {b : β} (h : List.Forall₂ R l (before ++ b :: after)) :
    ∃ front a back, l = front ++ a :: back ∧ List.Forall₂ R front before ∧ R a b ∧
      List.Forall₂ R back after := by
  induction before generalizing l with
  | nil =>
    cases h with
    | cons hab hrest => exact ⟨[], _, _, rfl, .nil, hab, hrest⟩
  | cons x before ih =>
    cases h with
    | cons hax hrest =>
      obtain ⟨front, a, back, rfl, hfront, hab, hback⟩ := ih hrest
      exact ⟨_ :: front, a, back, rfl, .cons hax hfront, hab, hback⟩

section Safe

variable (mode : Mode) (format : Text → Text) (t : FileTree) (names : List Text) (ps : List Path)

/-- The text was read from the file with content `c` at the place `p` that the name stands for, or
from this file formatted, if `p` is among the places `ps`. -/
structure ReadFrom (name source : Text) (p : Path) (c : Text) : Prop where
  name_ne : name ≠ stdinName
  resolve : t.resolve name = .ok p
  file : t.get? p = some (.file c)
  source : source = c ∨ p ∈ ps ∧ source = format c

/-- A task works on its own input and holds what was read for it. -/
def Task.Safe (name : Text) : Task → Prop
  | .waiting name' => name' = name
  | .loaded name' source => name' = name ∧ ∃ p c, ReadFrom format t ps name source p c
  | .done r => ∃ source p c, r = ⟨name, source, format source⟩ ∧
      ReadFrom format t ps name source p c ∧ (mode = .write → p ∈ ps)
  | .stopped => True

/-- The files are those of `t`, formatted at the places `ps`, and the tasks are those of the inputs,
in their order. -/
structure Batch.Safe (b : Batch) : Prop where
  named : ∀ p ∈ ps, p ∈ filePlaces t names
  files : Rewritten format ps t b.files
  readOnly : mode ≠ .write → ps = [] ∧ b.files = t
  tasks : List.Forall₂ (Task.Safe mode format t ps) names b.tasks

variable {mode format t names ps}

theorem ReadFrom.mono {ps' : List Path} (hps : ps ⊆ ps') {name source c : Text} {p : Path}
    (h : ReadFrom format t ps name source p c) : ReadFrom format t ps' name source p c where
  name_ne := h.name_ne
  resolve := h.resolve
  file := h.file
  source := h.source.imp_right fun hp => ⟨hps hp.1, hp.2⟩

theorem ReadFrom.format_eq (hidem : ∀ c, format (format c) = format c) {name source c : Text}
    {p : Path} (h : ReadFrom format t ps name source p c) : format source = format c := by
  rcases h.source with heq | ⟨-, heq⟩
  · rw [heq]
  · rw [heq, hidem]

/-- The file is still there, so that it can be written. -/
theorem ReadFrom.write_eq (hidem : ∀ c, format (format c) = format c) {name source c : Text}
    {p : Path} (h : ReadFrom format t ps name source p c) {files : FileTree}
    (hfiles : Rewritten format ps t files) (content : Text) :
    files.write name content = .ok (files.insert p (.file content)) := by
  obtain ⟨old, hold, -⟩ := hfiles.exists_get? hidem h.file
  have hp : files.resolve name = .ok p := by rw [hfiles.resolve, h.resolve]
  exact write_of_file content hp hold

theorem Task.Safe.mono {ps' : List Path} (hps : ps ⊆ ps') {name : Text} {task : Task}
    (h : task.Safe mode format t ps name) : task.Safe mode format t ps' name := by
  cases task with
  | waiting name' => exact h
  | loaded name' source =>
    obtain ⟨hname, p, c, hread⟩ := h
    exact ⟨hname, p, c, hread.mono hps⟩
  | done r =>
    obtain ⟨source, p, c, hr, hread, hp⟩ := h
    exact ⟨source, p, c, hr, hread.mono hps, fun hmode => hps (hp hmode)⟩
  | stopped => trivial

namespace Batch

theorem safe_start : Safe mode format t names [] (.start t names) := by
  refine ⟨by simp, rewritten_nil format t, fun _ => ⟨rfl, rfl⟩, ?_⟩
  rw [start, List.forall₂_map_right_iff, List.forall₂_same]
  intro name _
  rfl

/-- The task of one input has changed, and perhaps the file at one more place. -/
theorem Safe.replace {files files' : FileTree} {before after : List Task} {task task' : Task}
    {ps' : List Path} (h : Safe mode format t names ps ⟨files, before ++ task :: after⟩)
    (hps : ps ⊆ ps') (hnamed : ∀ p ∈ ps', p ∈ filePlaces t names)
    (hfiles : Rewritten format ps' t files') (hreadOnly : mode ≠ .write → ps' = [] ∧ files' = t)
    (htask : ∀ name, task.Safe mode format t ps name → task'.Safe mode format t ps' name) :
    Safe mode format t names ps' ⟨files', before ++ task' :: after⟩ := by
  refine ⟨hnamed, hfiles, hreadOnly, ?_⟩
  obtain ⟨front, name, back, rfl, hfront, hname, hback⟩ := forall₂_append_cons h.tasks
  have hmono : ∀ name task, Task.Safe mode format t ps name task →
      Task.Safe mode format t ps' name task := fun _ _ hsafe => hsafe.mono hps
  exact List.rel_append (hfront.imp hmono) (.cons (htask name hname) (hback.imp hmono))

theorem Safe.exists_name {files : FileTree} {before after : List Task} {task : Task}
    (h : Safe mode format t names ps ⟨files, before ++ task :: after⟩) :
    ∃ name ∈ names, task.Safe mode format t ps name := by
  obtain ⟨front, name, back, rfl, -, hname, -⟩ := forall₂_append_cons h.tasks
  exact ⟨name, by simp, hname⟩

theorem Safe.load {files : FileTree} {before after : List Task} {name source : Text}
    (h : Safe mode format t names ps ⟨files, before ++ .waiting name :: after⟩)
    (hname : name ≠ stdinName) (hread : files.read name = .ok source) :
    Safe mode format t names ps ⟨files, before ++ .loaded name source :: after⟩ := by
  obtain ⟨p, hp, hsource⟩ := read_eq_ok_iff.1 hread
  obtain ⟨c, hc, heq⟩ := h.files.exists_old hsource
  rw [h.files.resolve] at hp
  have hfrom : ReadFrom format t ps name source p c :=
    ⟨hname, hp, hc, heq.imp And.right id⟩
  refine h.replace (List.Subset.refl ps) h.named h.files h.readOnly ?_
  rintro _ rfl
  exact ⟨rfl, p, c, hfrom⟩

/-- A task whose file has its formatted content leaves its result. -/
theorem Safe.finish {files files' : FileTree} {before after : List Task} {name source c : Text}
    {p : Path} (h : Safe mode format t names ps ⟨files, before ++ .loaded name source :: after⟩)
    (hname : name ∈ names) (hread : ReadFrom format t ps name source p c) (hmode : mode = .write)
    (hfiles : Rewritten format (p :: ps) t files') :
    Safe mode format t names (p :: ps)
      ⟨files', before ++ .done ⟨name, source, format source⟩ :: after⟩ := by
  have hplace : p ∈ filePlaces t names := mem_filePlaces.2 ⟨name, hname, hread.name_ne, hread.resolve⟩
  refine h.replace (List.subset_cons_self p ps) (List.forall_mem_cons.2 ⟨hplace, h.named⟩) hfiles
    (fun hne => absurd hmode hne) ?_
  rintro _ ⟨rfl, -⟩
  exact ⟨source, p, c, rfl, hread.mono (List.subset_cons_self p ps), fun _ => List.mem_cons_self⟩

theorem Safe.step (hidem : ∀ c, format (format c) = format c) {b b' : Batch}
    (h : b.Safe mode format t names ps) (hstep : Step mode format b b') :
    ∃ ps', b'.Safe mode format t names ps' := by
  cases hstep with
  | load hname hread => exact ⟨ps, h.load hname hread⟩
  | @leave files before after name source hsame =>
    obtain ⟨_, hmem, rfl, p, c, hread⟩ := h.exists_name
    by_cases hmode : mode = .write
    · -- the file is as it was read, or it has been formatted since
      refine ⟨p :: ps, h.finish hmem hread hmode (h.files.keep hread.file ?_)⟩
      by_cases hp : p ∈ ps
      · exact h.files.get?_of_mem hp hread.file
      · obtain rfl : source = c := hread.source.resolve_right fun hold => hp hold.1
        rw [h.files.get?_of_not_mem hp, hread.file, hsame hmode]
    · refine ⟨ps, h.replace (List.Subset.refl ps) h.named h.files h.readOnly ?_⟩
      rintro _ ⟨rfl, -⟩
      exact ⟨source, p, c, rfl, hread, fun hwrite => absurd hwrite hmode⟩
  | @store files files' before after name source hmode hwrite =>
    obtain ⟨_, hmem, rfl, p, c, hread⟩ := h.exists_name
    -- what is written is the formatted old text, also if the file was read later
    rw [hread.write_eq hidem h.files, hread.format_eq hidem] at hwrite
    cases hwrite
    exact ⟨p :: ps, h.finish hmem hread hmode (h.files.insert hread.file)⟩
  | stop task =>
    exact ⟨ps, h.replace (List.Subset.refl ps) h.named h.files h.readOnly fun _ _ => trivial⟩

theorem Safe.steps (hidem : ∀ c, format (format c) = format c) {b b' : Batch}
    (h : b.Safe mode format t names ps) (hsteps : Steps mode format b b') :
    ∃ ps', b'.Safe mode format t names ps' := by
  induction hsteps with
  | refl => exact ⟨ps, h⟩
  | tail _ hstep ih =>
    obtain ⟨ps', h'⟩ := ih
    exact h'.step hidem hstep

/-! ## No schedule gets stuck -/

section Progress

variable (hidem : ∀ c, format (format c) = format c)
  (hnames : ∀ name ∈ names, name ≠ stdinName ∧ ∃ c, t.read name = .ok c)

include hidem

/-- What is loaded can be left or stored, whatever the other tasks have done. -/
theorem Safe.exists_done_of_loaded {files : FileTree} {before after : List Task}
    {name source : Text}
    (h : Safe mode format t names ps ⟨files, before ++ .loaded name source :: after⟩) :
    ∃ files' r, Step mode format ⟨files, before ++ .loaded name source :: after⟩
      ⟨files', before ++ .done r :: after⟩ := by
  by_cases hmode : mode = .write
  · obtain ⟨_, -, rfl, p, c, hread⟩ := h.exists_name
    exact ⟨_, _, .store hmode (hread.write_eq hidem h.files _)⟩
  · exact ⟨files, _, .leave fun hwrite => absurd hwrite hmode⟩

include hnames

theorem Safe.exists_done {files : FileTree} {before after : List Task} {task : Task}
    (h : Safe mode format t names ps ⟨files, before ++ task :: after⟩) (htask : task ≠ .stopped) :
    ∃ files' r, Steps mode format ⟨files, before ++ task :: after⟩
      ⟨files', before ++ .done r :: after⟩ := by
  cases task with
  | stopped => exact absurd rfl htask
  | done r => exact ⟨files, r, .refl⟩
  | loaded name source =>
    obtain ⟨files', r, hstep⟩ := h.exists_done_of_loaded hidem
    exact ⟨files', r, .single hstep⟩
  | waiting name =>
    obtain ⟨_, hmem, rfl⟩ := h.exists_name
    obtain ⟨hname, c, hread⟩ := hnames name hmem
    obtain ⟨p, hp, hc⟩ := read_eq_ok_iff.1 hread
    obtain ⟨source, hsource, -⟩ := h.files.exists_get? hidem hc
    have hload : files.read name = .ok source :=
      read_eq_ok_iff.2 ⟨p, by rw [h.files.resolve, hp], hsource⟩
    obtain ⟨files', r, hstep⟩ := (h.load hname hload).exists_done_of_loaded hidem
    exact ⟨files', r, .tail (.single (.load hname hload)) hstep⟩

/-- Tasks of which none has stopped can all leave their results. -/
theorem Safe.exists_completed {b : Batch} (h : b.Safe mode format t names ps)
    (hgoing : .stopped ∉ b.tasks) :
    ∃ (t' : FileTree) (rs : List Result), Steps mode format b ⟨t', rs.map .done⟩ := by
  obtain ⟨files, tasks⟩ := b
  -- the tasks are finished from the first to the last; `rs` are the results so far
  suffices hfrom : ∀ rs : List Result,
      Safe mode format t names ps ⟨files, rs.map .done ++ tasks⟩ →
      ∃ (t' : FileTree) (rs' : List Result),
        Steps mode format ⟨files, rs.map .done ++ tasks⟩ ⟨t', rs'.map .done⟩ from hfrom [] h
  clear h
  induction tasks generalizing files ps with
  | nil =>
    intro rs _
    exact ⟨files, rs, by rw [List.append_nil]⟩
  | cons task tasks ih =>
    intro rs h
    rw [List.mem_cons, not_or] at hgoing
    obtain ⟨files', r, hdone⟩ := h.exists_done hidem hnames (Ne.symm hgoing.1)
    obtain ⟨ps', h'⟩ := h.steps hidem hdone
    have hnext : rs.map Task.done ++ .done r :: tasks = (rs ++ [r]).map Task.done ++ tasks := by
      simp
    rw [hnext] at hdone h'
    obtain ⟨t', rs', hrest⟩ := ih files' hgoing.2 (rs ++ [r]) h'
    exact ⟨t', rs', hdone.trans hrest⟩

end Progress

end Batch

/-! ## What a schedule comes to -/

namespace Completes

variable {t' : FileTree} {rs : List Result}

/-- Without writing back, the files stay as they are, and the results are those of the inputs, in
their order. -/
theorem results (h : Completes mode format t names t' rs)
    (hidem : ∀ c, format (format c) = format c) (hmode : mode ≠ .write) {content : Text → Text}
    (hcontent : ∀ name ∈ names, t.read name = .ok (content name)) :
    t' = t ∧ rs = names.map fun name => resultOf format (name, content name) := by
  obtain ⟨ps, hsafe⟩ := Batch.safe_start.steps hidem h
  obtain ⟨rfl, hfiles⟩ := hsafe.readOnly hmode
  refine ⟨hfiles, ?_⟩
  have htasks := List.forall₂_map_right_iff.1 hsafe.tasks
  have hread := (List.forall₂_and_left names rs).2 ⟨hcontent, htasks⟩
  have heach : List.Forall₂ (fun name r => resultOf format (name, content name) = r) names rs := by
    refine hread.imp ?_
    rintro name _ ⟨hname, source, p, c, rfl, hfrom, -⟩
    -- no file is formatted, so the text is the one of the file
    obtain rfl : source = c := hfrom.source.resolve_right fun hold => List.not_mem_nil hold.1
    have hsource : t.read name = .ok source := read_eq_ok_iff.2 ⟨p, hfrom.resolve, hfrom.file⟩
    rw [Except.ok.inj (hname.symm.trans hsource)]
    rfl
  rw [← List.forall₂_map_left_iff, List.forall₂_eq_eq_eq] at heach
  exact heach.symm

/-- After writing back, the files that the inputs name are formatted. -/
theorem rewritten (h : Completes .write format t names t' rs)
    (hidem : ∀ c, format (format c) = format c) : Rewritten format (filePlaces t names) t t' := by
  obtain ⟨ps, hsafe⟩ := Batch.safe_start.steps hidem h
  refine hsafe.files.congr fun p => ⟨hsafe.named p, fun hp => ?_⟩
  obtain ⟨name, hname, -, hres⟩ := mem_filePlaces.1 hp
  have htasks := List.forall₂_map_right_iff.1 hsafe.tasks
  obtain ⟨front, back, rfl⟩ := List.append_of_mem hname
  obtain ⟨_, r, _, -, -, hr, -⟩ := forall₂_append_cons htasks.flip
  obtain ⟨source, q, c, -, hfrom, hq⟩ := hr
  obtain rfl : p = q := Except.ok.inj (hres.symm.trans hfrom.resolve)
  exact hq rfl

end Completes

end Safe

/-! ## One input after another -/

section Sequential

variable {mode : Mode} {format : Text → Text} {w w' : World}

theorem formatOne_steps {name : Text} {r : Result} (hname : mode = .write ∨ name ≠ stdinName)
    (h : formatOne mode format w name = .ok (r, w')) (before after : List Task) :
    Batch.Steps mode format ⟨w.files, before ++ .waiting name :: after⟩
      ⟨w'.files, before ++ .done r :: after⟩ := by
  by_cases hstdin : name = stdinName
  · -- standard input is read, but not written
    obtain rfl : mode = .write := hname.resolve_right fun hne => hne hstdin
    simp only [formatOne, source, writeBack, hstdin, if_true] at h
    cases hin : w.stdin with
    | error fault => simp [hin] at h
    | ok text => simp [hin, Except.map] at h
  · cases hread : w.files.read name with
    | error e => simp [formatOne, source, hstdin, hread] at h
    | ok text =>
      have hload : Batch.Step mode format ⟨w.files, before ++ .waiting name :: after⟩
          ⟨w.files, before ++ .loaded name text :: after⟩ := .load hstdin hread
      by_cases hmode : mode = .write
      · subst hmode
        simp only [formatOne, source_of_read hstdin hread, writeBack, hstdin, if_false] at h
        split at h
        · rename_i hsame
          cases h
          refine .tail (.single hload) (.leave fun _ => ?_)
          simpa [Result.changed] using hsame
        · cases hwrite : w.files.write name (format text) with
          | error e => simp [hwrite, Except.map] at h
          | ok files =>
            simp only [hwrite, Except.map, Except.ok.injEq, Prod.mk.injEq] at h
            obtain ⟨rfl, rfl⟩ := h
            exact .tail (.single hload) (.store rfl hwrite)
      · rw [formatOne_of_source hmode format (source_of_read hstdin hread)] at h
        cases h
        exact .tail (.single hload) (.leave fun hwrite => absurd hwrite hmode)

/-- The tasks behind the first error are still waiting. -/
theorem formatAll_steps {names : List Text} {rs : List Result} {e : Option CommandError}
    (hnames : mode = .write ∨ stdinName ∉ names)
    (h : formatAll mode format w names = (w', rs, e)) (before : List Task) :
    ∃ tasks, Batch.Steps mode format ⟨w.files, before ++ names.map .waiting⟩
      ⟨w'.files, before ++ rs.map .done ++ tasks⟩ ∧ (e = none → tasks = []) := by
  induction names generalizing w rs before with
  | nil =>
    cases h
    exact ⟨[], by simpa using .refl, fun _ => rfl⟩
  | cons name names ih =>
    rw [formatAll] at h
    cases hone : formatOne mode format w name with
    | error e =>
      rw [hone] at h
      cases h
      exact ⟨(name :: names).map .waiting, by simpa using .refl, fun hnone => by cases hnone⟩
    | ok result =>
      obtain ⟨r, w1⟩ := result
      rw [hone] at h
      cases h
      have hfirst : mode = .write ∨ name ≠ stdinName :=
        hnames.imp_right fun hno heq => hno (by simp [heq])
      have hothers : mode = .write ∨ stdinName ∉ names :=
        hnames.imp_right fun hno hmem => hno (List.mem_cons_of_mem name hmem)
      obtain ⟨tasks, hrest, hnone⟩ := ih hothers rfl (before ++ [.done r])
      refine ⟨tasks, (formatOne_steps hfirst hone before _).trans ?_, hnone⟩
      simpa using hrest

theorem completes_of_formatAll {names : List Text} {rs : List Result}
    (hnames : mode = .write ∨ stdinName ∉ names)
    (h : formatAll mode format w names = (w', rs, none)) :
    Completes mode format w.files names w'.files rs := by
  obtain ⟨tasks, hsteps, htasks⟩ := formatAll_steps hnames h []
  rw [htasks rfl, List.append_nil] at hsteps
  exact hsteps

end Sequential

end FormatCommand
end RuleLang
