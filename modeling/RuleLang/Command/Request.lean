import RuleLang.Command.Suggestion
import RuleLang.Text.Blank

/-!
# RuleLang.Command.Request

What a command line asks for. The first word that is neither a flag nor a flag's value names the
command; the other arguments are read with the flags of that command.
-/

namespace RuleLang

/-- How the format command works on its inputs. -/
structure FormatOptions where
  tabSize : Int
  useTabs : Bool
  write : Bool
  check : Bool
  catalogPath : Text
deriving Repr, DecidableEq

inductive Request where
  | serve
  | format (options : FormatOptions) (words : List Text)
  | catalog (output path : Text)
  | version
  | help (topic : Command)
  | unknownTopic (words : List Text)
deriving Repr, DecidableEq

/-- Why a command line asks for nothing. -/
inductive RequestError where
  | flag (e : FlagError)
  /-- the first word names no command -/
  | unknownCommand (word : Text)
  /-- a command that takes no words has one -/
  | unexpectedWord (command : Command) (word : Text)
  | mixedStdin
deriving Repr, DecidableEq

namespace RequestError

def message : RequestError → Text
  | flag e => e.message
  | unknownCommand w =>
    txt "unknown command " ++ w.quote ++ txt " for " ++ Command.programName.quote ++
      Suggestion.text w
  | unexpectedWord c w => txt "unknown command " ++ w.quote ++ txt " for " ++ c.path.quote
  | mixedStdin => txt "stdin cannot be combined with file paths"

end RequestError

namespace Request

/-- Before the command is known, a flag without `=` seems to take the next argument. -/
def takesNext (arg : Text) : Bool :=
  !arg.contains 61 && (arg.startsWith (txt "--") || (arg.startsWith (txt "-") && arg.length = 2))

/-- The words among the arguments, as far as they can be told from values of flags. -/
def looseWords : List Text → List Text
  | [] => []
  | arg :: args =>
    if arg = txt "--" then []
    else if takesNext arg then
      match args with
      | _ :: next :: args => looseWords (next :: args)
      | _ => []
    else if arg.isEmpty || arg.startsWith (txt "-") then looseWords args
    else arg :: looseWords args

/-- The arguments without the word that named the command. -/
def withoutWord (word : Text) : List Text → List Text
  | [] => []
  | arg :: args =>
    if arg = txt "--" then arg :: args
    else if takesNext arg then
      match args with
      | [] => [arg]
      | value :: args => arg :: value :: withoutWord word args
    else if arg = word then args
    else arg :: withoutWord word args

/-- The command that the arguments name, and its own arguments. -/
def select (args : List Text) : Except RequestError (Command × List Text) :=
  match looseWords args with
  | [] => .ok (.program, args)
  | word :: _ =>
    match Command.named? word with
    | some c => .ok (c, withoutWord word args)
    | none => .error (.unknownCommand word)

/-- The topic that the words after `help` name. -/
def helpOn (words : List Text) : Request :=
  match select words with
  | .ok (c, _) => .help c
  | .error _ => .unknownTopic words

/-- Does a word of the format command stand for standard input, in so many letters? -/
def isDash (word : Text) : Bool := word.trim = txt "-"

/-- What a command asks for with its arguments. -/
def ofArguments (cfg : Config) (c : Command) (a : Arguments) : Except RequestError Request :=
  match c with
  | .program | .serve => .ok .serve
  | .version => .ok .version
  | .help => .ok (helpOn a.words)
  | .completion => .ok (.help .completion)
  | .catalog =>
    match a.words with
    | [] => .ok (.catalog (a.text "output" (txt "yaml")) (a.text "catalog" cfg.catalogPath))
    | w :: _ => .error (.unexpectedWord .catalog w)
  | .format =>
    if 1 < a.words.length && a.words.any isDash then .error .mixedStdin
    else .ok (.format
      { tabSize := a.number "tab-size" cfg.tabSize
        useTabs := a.switch "tabs" cfg.useTabs
        write := a.switch "write" false
        check := a.switch "check" false
        catalogPath := a.text "catalog" cfg.catalogPath } a.words)

/-- Read a command line. -/
def ofArgs (cfg : Config) (args : List Text) : Except RequestError Request := do
  let (c, args) ← select args
  match Arguments.read (c.flags cfg) args with
  | .error e => .error (.flag e)
  | .ok a => if a.switch "help" false then .ok (.help c) else ofArguments cfg c a

end Request

end RuleLang
