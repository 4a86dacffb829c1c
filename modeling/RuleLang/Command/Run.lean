import RuleLang.Catalog.Writer
import RuleLang.Command.Format
import RuleLang.Config.EnvFile
import RuleLang.Server.Session

/-!
# RuleLang.Command.Run

Carrying out a request. Everything but the server reads its input at once and ends; the server
works on standard input until it ends or the client leaves.
-/

namespace RuleLang

/-- What is known about the build of the program. -/
structure BuildInfo where
  version : Text := []
  commit : Text := []
  date : Text := []
deriving Repr, DecidableEq

namespace BuildInfo

def line (b : BuildInfo) : Text :=
  Command.programName ++ txt " version=" ++ b.version ++ txt " commit=" ++ b.commit ++
    txt " build_date=" ++ b.date.trim ++ txt "\n"

/-- The version that the server gives to its clients. -/
def serverVersion (b : BuildInfo) : Text := if b.version.isEmpty then txt "dev" else b.version

end BuildInfo

/-- The settings from the environment and the file `.env` in the working directory. -/
def Config.load (files : FileTree) (env : Env) : Config :=
  .ofEnv (env.withFile (files.read (txt ".env")).toOption)

namespace ServeCommand

/-- A server with the settings, ready for input. -/
def session (cfg : Config) (b : BuildInfo) (w : World) : Except CommandError Session :=
  match Catalog.load w.files cfg.catalogPath with
  | .error e => .error (.serverCatalog e)
  | .ok c =>
    .ok { server := .start c b.serverVersion cfg.style cfg.cacheSize
          sink := ⟨w.stdoutFault.map fun _ => 0⟩ }

def logText (lines : List LogLine) : Text :=
  lines.flatMap fun l => Command.programName ++ txt ": " ++ l.message ++ txt "\n"

def run (cfg : Config) (b : BuildInfo) (w : World) : Outcome :=
  match session cfg b w with
  | .error e => w.fail e
  | .ok s =>
    match w.stdin with
    | .error fault => w.fail (.server fault)
    | .ok input =>
      let (s, t) := s.run input
      { files := w.files
        stdout := t.out
        stderr := logText t.log
        error := s.finish.map fun e => .server e.message }

end ServeCommand

/-- Print the catalog in one of its written forms. -/
def CatalogCommand.run (output path : Text) (w : World) : Outcome :=
  match Catalog.load w.files path with
  | .error e => w.fail (.catalog e)
  | .ok c =>
    if output = txt "yaml" then w.print c.toTable.toYaml .encodeCatalog
    else if output = txt "json" then w.print (c.toTable.toJson.pretty true ++ txt "\n") .stdout
    else w.fail (.unsupportedOutput output)

namespace Request

/-- Carry out a request. A help text that cannot be printed is no error. -/
def run (cfg : Config) (b : BuildInfo) (w : World) : Request → Outcome
  | .serve => ServeCommand.run cfg b w
  | .format o words => FormatCommand.run o words w
  | .catalog output path => CatalogCommand.run output path w
  | .version => w.print b.line .stdout
  | .help topic => { w.print (topic.helpText cfg) .stdout with error := none }
  | .unknownTopic words => { w.print (Command.unknownTopicText cfg words) .stdout with error := none }

end Request

/-- Run a command line. -/
def runCommandLine (cfg : Config) (b : BuildInfo) (args : List Text) (w : World) : Outcome :=
  match Request.ofArgs cfg args with
  | .error e => w.fail (.request e)
  | .ok r => r.run cfg b w

/-- How a program ends. -/
structure ExitReport where
  code : Nat
  stdout : Text := []
  stderr : Text := []
  files : FileTree
deriving Repr, DecidableEq

/-- The report of an outcome: an error goes to standard error, after the log. -/
def Outcome.report (o : Outcome) : ExitReport :=
  match o.error with
  | none => ⟨0, o.stdout, o.stderr, o.files⟩
  | some e =>
    ⟨1, o.stdout, o.stderr ++ Command.programName ++ txt ": " ++ e.message ++ txt "\n", o.files⟩

end RuleLang
