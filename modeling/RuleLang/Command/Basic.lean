import RuleLang.Command.Flag
import RuleLang.Config.Basic

/-!
# RuleLang.Command.Basic

The commands of the program, with their names, descriptions and flags.
-/

namespace RuleLang

inductive Command where
  /-- no command: the program itself -/
  | program
  | serve
  | format
  | catalog
  | version
  | help
  | completion
deriving Repr, DecidableEq

namespace Command

def programName : Text := txt "semgrep-lsp"

def name : Command → Text
  | program => programName
  | serve => txt "serve"
  | format => txt "format"
  | catalog => txt "catalog"
  | version => txt "version"
  | help => txt "help"
  | completion => txt "completion"

/-- The commands that can be named. -/
def all : List Command := [serve, format, catalog, version, help, completion]

def named? (word : Text) : Option Command := all.find? fun c => c.name = word

/-- The command as it is typed. -/
def path : Command → Text
  | program => programName
  | c => programName ++ txt " " ++ c.name

def summary : Command → Text
  | program => txt "Semgrep rule language server CLI"
  | serve => txt "Run Semgrep rule language server over stdio"
  | format => txt "Re-indent Semgrep rule documents"
  | catalog => txt "Print the keyword catalog in effect"
  | version => txt "Show version information"
  | help => txt "Help about any command"
  | completion => txt "Generate the autocompletion script for the specified shell"

/-- What stands at the top of the help text. -/
def description : Command → Text
  | help =>
    txt "Help provides help for any command in the application.\nSimply type " ++ programName ++
      txt " help [path to command] for full details."
  | completion =>
    txt "Generate the autocompletion script for " ++ programName ++
      txt " for the specified shell.\nSee each sub-command's help for details on how to use " ++
      txt "the generated script."
  | c => c.summary

/-- The words that a command takes, as the usage line shows them. -/
def operands : Command → Text
  | format => txt " [file|-]..."
  | help => txt " [command]"
  | _ => []

def helpFlag (c : Command) : Flag :=
  ⟨"help", some 104, "help for " ++ match c with
    | program => "semgrep-lsp"
    | serve => "serve"
    | format => "format"
    | catalog => "catalog"
    | version => "version"
    | help => "help"
    | completion => "completion", .switch false⟩

/-- The flags of a command. Their defaults come from the settings. -/
def flags (cfg : Config) (c : Command) : List Flag :=
  let own := match c with
    | format =>
      [⟨"tab-size", none, "tab size when using spaces", .number cfg.tabSize⟩,
        ⟨"tabs", none, "use tabs for indentation", .switch cfg.useTabs⟩,
        ⟨"write", some 119, "write result back to file", .switch false⟩,
        ⟨"check", some 108, "list files whose formatting differs and fail if any", .switch false⟩,
        ⟨"jobs", some 106, "number of files formatted in parallel", .number 1⟩,
        ⟨"catalog", none, "custom keyword catalog (YAML)", .text cfg.catalogPath⟩]
    | catalog =>
      [⟨"output", some 111, "output format: yaml or json", .text (txt "yaml")⟩,
        ⟨"catalog", none, "custom keyword catalog (YAML)", .text cfg.catalogPath⟩]
    | _ => []
  own ++ [c.helpFlag]

/-! ## Help -/

/-- The commands under a command, with their summaries. -/
def below : Command → List (Text × Text)
  | program =>
    ([catalog, completion, format, help, serve, version] : List Command).map fun c =>
      (c.name, c.summary)
  | completion =>
    ["bash", "fish", "powershell", "zsh"].map fun shell =>
      (txt shell, txt "Generate the autocompletion script for " ++ txt shell)
  | _ => []

/-- How a command is used; `flagged` lists its flags too. -/
def usage (cfg : Config) (flagged : Bool) (c : Command) : Text :=
  let lines := (if c = completion then [] else
      [txt "  " ++ c.path ++ c.operands ++ if flagged then txt " [flags]" else []]) ++
    if c.below.isEmpty then [] else [txt "  " ++ c.path ++ txt " [command]"]
  let commands := c.below.flatMap fun (name, summary) =>
    txt "  " ++ name ++ List.replicate (12 - name.length) 32 ++ summary ++ txt "\n"
  txt "Usage:\n" ++ lines.flatMap (· ++ txt "\n") ++
    (if commands.isEmpty then [] else txt "\nAvailable Commands:\n" ++ commands) ++
    (if flagged then txt "\nFlags:\n" ++ Flag.overview (c.flags cfg) else []) ++
    if c.below.isEmpty then []
    else txt "\nUse \"" ++ c.path ++
      txt " [command] --help\" for more information about a command.\n"

def helpText (cfg : Config) (c : Command) : Text :=
  c.description ++ txt "\n\n" ++ c.usage cfg true

/-- May the text stand between backquotes as it is? -/
def fitsBackquotes (t : Text) : Bool :=
  t.chars.all fun r =>
    if 1 < r.bytes.length then r.code ≠ 0xFEFF
    else !r.isBad && (0x20 ≤ r.code || r.code = 9) && r.code ≠ 96 && r.code ≠ 0x7F

/-- The answer to a question about something that is no command. -/
def unknownTopicText (cfg : Config) (words : List Text) : Text :=
  let shown := words.map fun w => if fitsBackquotes w then 96 :: w ++ [96] else w.quote
  txt "Unknown help topic [" ++ Text.join (txt " ") shown ++ txt "]\n" ++
    program.usage cfg false

end Command

end RuleLang
