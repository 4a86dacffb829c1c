import RuleLang.Command.Run
import RuleLang.Grammar.Highlighting

/-!
# RuleLang.Command.GrammarFile

The tool that writes the highlighting grammar of a catalog to a file. Its flags are written with
one dash or two, and end at the first argument that is none.
-/

namespace RuleLang

namespace GrammarTool

def toolName : Text := txt "semgrep-tmgen"

structure Options where
  output : Text := txt "vscode/syntaxes/semgrep.tmLanguage.json"
  catalogPath : Text := []
deriving Repr, DecidableEq

def usage : Text :=
  txt "Usage of " ++ toolName ++ txt ":\n  -catalog string\n    \tcustom keyword catalog (YAML)\n" ++
    txt "  -output string\n    \toutput grammar file path (default " ++
    ({} : Options).output.quote ++ txt ")\n"

/-- Why the arguments give no options. -/
inductive ArgError where
  | help
  | malformed (arg : Text)
  | unknown (name : Text)
  | missingValue (name : Text)
deriving Repr, DecidableEq

/-- The line about an error; there is none about a call for help. -/
def ArgError.message : ArgError → Text
  | help => []
  | malformed arg => txt "bad flag syntax: " ++ arg ++ txt "\n"
  | unknown name => txt "flag provided but not defined: -" ++ name ++ txt "\n"
  | missingValue name => txt "flag needs an argument: -" ++ name ++ txt "\n"

/-- The flag in an argument, without its dashes; other arguments end the flags. -/
def flagOf? (arg : Text) : Option Text :=
  match arg with
  | [45] => none
  | [45, 45] => none
  | 45 :: 45 :: t => some t
  | 45 :: t => some t
  | _ => none

def set? (o : Options) (name value : Text) : Option Options :=
  if name = txt "output" then some { o with output := value }
  else if name = txt "catalog" then some { o with catalogPath := value }
  else none

def readOptions (o : Options) : List Text → Except ArgError Options
  | [] => .ok o
  | arg :: args =>
    match flagOf? arg with
    | none => .ok o
    | some t =>
      if t.headD 45 = 45 || t.headD 45 = 61 then .error (.malformed arg)
      else
        let (name, value) := Flag.splitValue t
        if (set? o name []).isNone then
          .error (if name = txt "help" || name = txt "h" then .help else .unknown name)
        else match value with
          | some v => readOptions ((set? o name v).getD o) args
          | none =>
            match args with
            | [] => .error (.missingValue name)
            | v :: args => readOptions ((set? o name v).getD o) args

/-- The output path seen from the root, and its text. An absolute path stays as it is written. -/
def target (cwd : Path) (output : Text) : Path × Text :=
  if output.startsWith (txt "/") then (Path.clean (Text.cut 47 output), output)
  else
    let p := Path.clean (cwd ++ Text.cut 47 output)
    (p, p.toText)

def fail (files : FileTree) (message : Text) : ExitReport :=
  { code := 1, stderr := toolName ++ txt ": " ++ message ++ txt "\n", files := files }

/-- Write the grammar to its file, below directories that are made for it. -/
def writeGrammar (files : FileTree) (o : Options) : ExitReport :=
  match Catalog.load files o.catalogPath with
  | .error e => fail files e.message
  | .ok c =>
    let (p, path) := target files.cwd o.output
    match files.makeDirectories p.parents with
    | .error e => fail files (txt "mkdir output dir: " ++ e.message)
    | .ok files =>
      match files.write path (Grammar.file c) with
      | .error e => fail files (txt "write grammar: " ++ e.message)
      | .ok files => { code := 0, files := files }

def run (files : FileTree) (args : List Text) : ExitReport :=
  match readOptions {} args with
  | .error e =>
    { code := if e = .help then 0 else 2, stderr := e.message ++ usage, files := files }
  | .ok o => writeGrammar files o

end GrammarTool

end RuleLang
