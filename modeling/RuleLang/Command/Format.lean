import RuleLang.Command.World
import RuleLang.Indent.Format

/-!
# RuleLang.Command.Format

The format command. It prints one formatted input, or writes formatted files back, or lists the
inputs that are not formatted. The inputs are taken one after another, and the first error ends
the command; files written before it stay written. The number of jobs is read and not used: for
files of which none fails, the outcome is the same however many are worked on at a time.
-/

namespace RuleLang

namespace FormatCommand

/-- Standard input among the inputs. -/
def stdinName : Text := txt "-"

/-- The input that a word names: blanks around it do not count, and nothing else means standard
input. -/
def inputName (word : Text) : Text :=
  let t := word.trim
  if t.isEmpty then stdinName else t

/-- The inputs that the words name; without a word, standard input. -/
def inputNames (words : List Text) : List Text :=
  if words.isEmpty then [stdinName] else words.map inputName

inductive Mode where
  | print
  | check
  | write
deriving Repr, DecidableEq

/-- What became of an input. -/
structure Result where
  name : Text
  source : Text
  formatted : Text
deriving Repr, DecidableEq

namespace Result

def changed (r : Result) : Bool := r.formatted ≠ r.source

/-- The name in listings. -/
def title (r : Result) : Text := if r.name = stdinName then txt "<stdin>" else r.name

end Result

/-- Read an input. Standard input is empty once it has been read. -/
def source (w : World) (name : Text) : Except CommandError (Text × World) :=
  if name = stdinName then
    match w.stdin with
    | .error fault => .error (.stdin fault)
    | .ok t => .ok (t, { w with stdin := .ok [] })
  else match w.files.read name with
    | .error e => .error (.readFile name e)
    | .ok t => .ok (t, w)

/-- Write a formatted file back, unless it was formatted already. -/
def writeBack (w : World) (r : Result) : Except CommandError World :=
  if r.name = stdinName then .error .writeToStdin
  else if !r.changed then .ok w
  else match w.files.write r.name r.formatted with
    | .error e => .error (.writeFile r.name e)
    | .ok files => .ok { w with files := files }

/-- Format one input and, if asked to, write it back. -/
def formatOne (mode : Mode) (format : Text → Text) (w : World) (name : Text) :
    Except CommandError (Result × World) :=
  match source w name with
  | .error e => .error e
  | .ok (src, w) =>
    let r : Result := ⟨name, src, format src⟩
    match mode with
    | .write => (writeBack w r).map fun w => (r, w)
    | _ => .ok (r, w)

/-- Format inputs up to the first error: the world then, the results and the error. -/
def formatAll (mode : Mode) (format : Text → Text) :
    World → List Text → World × List Result × Option CommandError
  | w, [] => (w, [], none)
  | w, name :: names =>
    match formatOne mode format w name with
    | .error e => (w, [], some e)
    | .ok (r, w) =>
      let (w, rs, e) := formatAll mode format w names
      (w, r :: rs, e)

/-- List the results that changed; the error counts them. -/
def report (w : World) (rs : List Result) : Outcome :=
  let changed := rs.filter Result.changed
  if changed.isEmpty then { files := w.files }
  else
    let o := w.print (changed.flatMap fun r => r.title ++ txt "\n") .stdout
    if o.error.isSome then o
    else { o with error := some (.needsFormatting changed.length rs.length) }

/-- Work on the inputs in one of the modes. -/
def runMode (mode : Mode) (format : Text → Text) (w : World) (names : List Text) : Outcome :=
  match formatAll mode format w names with
  | (w, _, some e) => w.fail e
  | (w, rs, none) =>
    match mode with
    | .print => w.print (rs.flatMap Result.formatted) .stdout
    | .check => report w rs
    | .write => { files := w.files }

/-- The indentation that the options ask for. -/
def style (o : FormatOptions) : Style := (⟨!o.useTabs, o.tabSize⟩ : Style).bounded

def run (o : FormatOptions) (words : List Text) (w : World) : Outcome :=
  let names := inputNames words
  if o.write && o.check then w.fail .writeAndCheck
  else if 1 < names.length && !o.write && !o.check then w.fail .severalFiles
  else match Catalog.load w.files o.catalogPath with
    | .error e => w.fail (.catalog e)
    | .ok c =>
      if names = [stdinName] && o.write then w.fail .writeToStdin
      else
        let mode : Mode := if o.check then .check else if o.write then .write else .print
        runMode mode (fun t => formatText c t (style o)) w names

end FormatCommand

end RuleLang
