import RuleLang.Command.Run

/-!
# RuleLang.Main

The program on a terminal: it takes the arguments, the environment and the files that the request
names, runs the request, and puts out what is left behind. The server works on the stream as it
comes in.
-/

namespace RuleLang

namespace Terminal

def ofString (s : String) : Text := s.toUTF8.toList

def toBytes (t : Text) : ByteArray := ⟨t.toArray⟩

def toString? (t : Text) : Option String := String.fromUTF8? (toBytes t)

/-- The node at a path, if there is one. Only a directory can be followed by a dot. -/
def node? (path : String) : IO (Option FileNode) := do
  try return some (.file (← IO.FS.readBinFile path).toList)
  catch _ =>
    try
      let _ ← IO.FS.realPath (path ++ "/.")
      return some .directory
    catch _ => return none

/-- A tree with the nodes at the given paths and above them, seen from the working directory. -/
def snapshot (paths : List Text) : IO FileTree := do
  let cwd := Path.clean (Text.cut 47 (ofString (← IO.currentDir).toString))
  let places := paths.flatMap fun path =>
    let start := if path.startsWith (txt "/") then [] else cwd
    let p := Path.clean (start ++ Text.cut 47 path)
    p :: p.parents
  let nodes ← places.filterMapM fun p => do
    match toString? p.toText with
    | none => return none
    | some path => return (← node? path).map fun n => (p, n)
  return { cwd := cwd, nodes := nodes ++ (cwd :: cwd.parents).map fun d => (d, .directory) }

/-- The variables of the environment that hold settings. -/
def environment : IO Env := do
  let names := ["SEMGREP_LSP_TAB_SIZE", "SEMGREP_LSP_USE_TABS", "SEMGREP_LSP_CATALOG",
    "SEMGREP_LSP_CACHE_SIZE"]
  names.filterMapM fun name => do
    return (← IO.getEnv name).map fun v => (txt name, ofString v)

/-- The files that a request reads or writes. -/
def pathsOf (cfg : Config) : Request → List Text
  | .serve => [cfg.catalogPath]
  | .format o words => o.catalogPath :: FormatCommand.inputNames words
  | .catalog _ path => [path]
  | _ => []

def put (stream : IO.FS.Stream) (t : Text) : IO Unit := do
  stream.write (toBytes t)
  stream.flush

/-- Feed a session with standard input until either ends. -/
partial def converse (s : Session) : IO Session := do
  if s.ending.isSome then return s
  let bytes ← (← IO.getStdin).read (USize.ofNat (Frame.wanted s.pending))
  if bytes.isEmpty then return s
  let (s, t) := s.feed bytes.toList
  put (← IO.getStdout) t.out
  put (← IO.getStderr) (ServeCommand.logText t.log)
  converse s

partial def readAll (stream : IO.FS.Stream) (acc : ByteArray) : IO ByteArray := do
  let bytes ← stream.read 65536
  if bytes.isEmpty then return acc else readAll stream (acc ++ bytes)

def buildInfo : BuildInfo := ⟨txt "dev", txt "none", txt "unknown"⟩

/-- Run a request on files and leave its outcome to be reported. -/
def outcome (cfg : Config) (files : FileTree) (r : Request) : IO Outcome := do
  let w : World := { files := files }
  match r with
  | .serve =>
    match ServeCommand.session cfg buildInfo w with
    | .error e => return w.fail e
    | .ok s =>
      let s ← converse s
      return { files := w.files, error := s.finish.map fun e => .server e.message }
  | .format _ words =>
    let input ← if (FormatCommand.inputNames words).contains FormatCommand.stdinName
      then readAll (← IO.getStdin) .empty else pure .empty
    return r.run cfg buildInfo { w with stdin := .ok input.toList }
  | r => return r.run cfg buildInfo w

/-- Write back the files that have changed. -/
def save (old new : FileTree) : IO Unit :=
  (new.changesSince old).forM fun (p, c) =>
    match toString? p.toText with
    | none => return
    | some path => IO.FS.writeBinFile path (toBytes c)

def run (args : List Text) : IO UInt32 := do
  let cfg := Config.load (← snapshot [txt ".env"]) (← environment)
  let report ← match Request.ofArgs cfg args with
    | .error e => pure (({} : World).fail (.request e)).report
    | .ok r => do
      let files ← snapshot (pathsOf cfg r)
      let o ← outcome cfg files r
      save files o.files
      pure o.report
  put (← IO.getStdout) report.stdout
  put (← IO.getStderr) report.stderr
  return UInt32.ofNat report.code

end Terminal

end RuleLang

def main (args : List String) : IO UInt32 := RuleLang.Terminal.run (args.map RuleLang.Terminal.ofString)
