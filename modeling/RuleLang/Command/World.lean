import RuleLang.Catalog.Builtin
import RuleLang.Catalog.Reader
import RuleLang.Command.Request
import RuleLang.Files.Tree

/-!
# RuleLang.Command.World

What a command finds and what it leaves behind: the files, the standard streams, and the error
with which it ends.
-/

namespace RuleLang

/-- The surroundings of a command. A stream that fails does so with a message. -/
structure World where
  files : FileTree := {}
  stdin : Except Text Text := .ok []
  stdoutFault : Option Text := none

/-- Why there is no catalog. -/
inductive CatalogLoadError where
  | unreadable (path : Text) (e : FileError)
  | unfit (path : Text) (e : CatalogReadError)
deriving Repr, DecidableEq

namespace CatalogLoadError

def message : CatalogLoadError → Text
  | unreadable p e => txt "read catalog " ++ p.quote ++ txt ": " ++ e.message
  | unfit p e => txt "catalog " ++ p.quote ++ txt ": " ++ e.message

end CatalogLoadError

/-- The catalog in a file, or the built-in one if no path is given. -/
def Catalog.load (files : FileTree) (path : Text) : Except CatalogLoadError Catalog :=
  if path.isEmpty then .ok .builtin
  else match files.read path with
    | .error e => .error (.unreadable path e)
    | .ok content =>
      match Catalog.read content with
      | .error e => .error (.unfit path e)
      | .ok c => .ok c

inductive CommandError where
  | request (e : RequestError)
  | catalog (e : CatalogLoadError)
  | writeAndCheck
  | severalFiles
  | writeToStdin
  | stdin (fault : Text)
  | stdout (fault : Text)
  | readFile (path : Text) (e : FileError)
  | writeFile (path : Text) (e : FileError)
  | needsFormatting (changed total : Nat)
  | unsupportedOutput (output : Text)
  | encodeCatalog (fault : Text)
  | serverCatalog (e : CatalogLoadError)
  | server (fault : Text)
deriving Repr, DecidableEq

namespace CommandError

def message : CommandError → Text
  | request e => e.message
  | catalog e => e.message
  | writeAndCheck => txt "--write and --check are mutually exclusive"
  | severalFiles => txt "formatting multiple files requires --write or --check"
  | writeToStdin => txt "--write requires a file path"
  | stdin fault => txt "read stdin: " ++ fault
  | stdout fault => fault
  | readFile p e => txt "read file " ++ p.quote ++ txt ": " ++ e.message
  | writeFile p e => txt "write file " ++ p.quote ++ txt ": " ++ e.message
  | needsFormatting k n =>
    txt "files need formatting: " ++ Text.ofNat k ++ txt " of " ++ Text.ofNat n
  | unsupportedOutput o =>
    txt "unsupported output " ++ o.quote ++ txt " (want yaml or json)"
  | encodeCatalog fault => txt "encode catalog: yaml: write error: " ++ fault
  | serverCatalog e => txt "load catalog: " ++ e.message
  | server fault => txt "server exited with error: " ++ fault

/-- Does the error say that inputs are not formatted? -/
def isNeedsFormatting : CommandError → Bool
  | needsFormatting _ _ => true
  | _ => false

end CommandError

/-- What a command leaves behind. -/
structure Outcome where
  files : FileTree
  stdout : Text := []
  stderr : Text := []
  error : Option CommandError := none
deriving Repr, DecidableEq

namespace World

/-- Nothing happens but the error. -/
def fail (w : World) (e : CommandError) : Outcome := { files := w.files, error := some e }

/-- Print a text; the fault of a stream that fails becomes the error. -/
def print (w : World) (t : Text) (onFault : Text → CommandError) : Outcome :=
  match w.stdoutFault with
  | none => { files := w.files, stdout := t }
  | some fault => w.fail (onFault fault)

end World

end RuleLang
