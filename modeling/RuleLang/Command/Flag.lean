import RuleLang.Numeral.Integer
import RuleLang.Text.Quoted

/-!
# RuleLang.Command.Flag

Flags of a command line. A flag has a long name and perhaps a letter: `--name value`,
`--name=value`, `-l value`, `-lvalue` and `-l=value` set it. Switches take a value only after
`=`, and their letters can be written together. Flags and words may be mixed; after `--` all
arguments are words.
-/

namespace RuleLang

inductive FlagValue where
  | switch (on : Bool)
  | number (n : Int)
  | text (t : Text)
deriving Repr, DecidableEq

structure Flag where
  name : String
  letter : Option UInt8 := none
  usage : String
  /-- the value without the flag; it also fixes the kind of value -/
  default : FlagValue
deriving Repr, DecidableEq

namespace Flag

def isSwitch (f : Flag) : Bool :=
  match f.default with
  | .switch _ => true
  | _ => false

/-- The flag as messages show it. -/
def title (f : Flag) : Text :=
  match f.letter with
  | some l => txt "-" ++ [l] ++ txt ", --" ++ txt f.name
  | none => txt "--" ++ txt f.name

end Flag

/-- Why an argument list is refused. -/
inductive FlagError where
  | unknownName (name : Text)
  | unknownLetter (letter : UInt8) (letters : Text)
  | malformed (arg : Text)
  | missingValue (name : Text)
  | missingLetterValue (letter : UInt8)
  | badSwitch (flag : Flag) (value : Text)
  | badNumber (flag : Flag) (value : Text) (fault : NumeralFault)
deriving Repr, DecidableEq

namespace FlagError

/-- A letter in single quotes. -/
def quoteLetter (l : UInt8) : Text :=
  if l = 39 then txt "'\\''"
  else if l = 34 then txt "'\"'"
  else txt "'" ++ Text.quoteChar ⟨l.toNat, Utf8.encode l.toNat⟩ ++ txt "'"

def badValue (flag : Flag) (value : Text) (reader : String) (fault : NumeralFault) : Text :=
  txt "invalid argument " ++ value.quote ++ txt " for " ++ flag.title.quote ++ txt " flag: " ++
    txt reader ++ txt ": parsing " ++ value.quote ++ txt ": " ++ fault.message

def message : FlagError → Text
  | unknownName name => txt "unknown flag: --" ++ name
  | unknownLetter l ls => txt "unknown shorthand flag: " ++ quoteLetter l ++ txt " in -" ++ ls
  | malformed arg => txt "bad flag syntax: " ++ arg
  | missingValue name => txt "flag needs an argument: --" ++ name
  | missingLetterValue l =>
    txt "flag needs an argument: " ++ quoteLetter l ++ txt " in -" ++ [l]
  | badSwitch f v => badValue f v "strconv.ParseBool" .notNumber
  | badNumber f v fault => badValue f v "strconv.ParseInt" fault

end FlagError

/-- What an argument list sets, in order, and its words. -/
structure Arguments where
  settings : List (String × FlagValue) := []
  words : List Text := []
deriving Repr, DecidableEq

namespace Flag

/-- The flag with a value read from text. -/
def setting (f : Flag) (value : Text) : Except FlagError (String × FlagValue) :=
  match f.default with
  | .switch _ =>
    match Numeral.bool? value with
    | some b => .ok (f.name, .switch b)
    | none => .error (.badSwitch f value)
  | .number _ =>
    match Numeral.integer? value with
    | .ok n => .ok (f.name, .number n)
    | .error e => .error (.badNumber f value e)
  | .text _ => .ok (f.name, .text value)

def named? (flags : List Flag) (name : Text) : Option Flag := flags.find? fun f => txt f.name = name

def lettered? (flags : List Flag) (l : UInt8) : Option Flag := flags.find? fun f => f.letter = some l

/-- Letters written together: what they set, and the flag that takes the next argument for its
value, if there is one. Letters that begin with `test.` are passed over. -/
def readLetters (flags : List Flag) : Text → Except FlagError (List (String × FlagValue) × Option Flag)
  | [] => .ok ([], none)
  | l :: ls =>
    if Text.startsWith (l :: ls) (txt "test.") then .ok ([], none)
    else match lettered? flags l with
      | none => .error (.unknownLetter l (l :: ls))
      | some f =>
        match ls with
        | 61 :: b :: bs => do return ([← f.setting (b :: bs)], none)
        | _ =>
          if f.isSwitch then do
            let (more, waiting) ← readLetters flags ls
            return ((f.name, .switch true) :: more, waiting)
          else if ls.isEmpty then .ok ([], some f)
          else do return ([← f.setting ls], none)

/-- A name and, after `=`, a value. -/
def splitValue (t : Text) : Text × Option Text :=
  let name := t.takeWhile (· ≠ 61)
  if name.length < t.length then (name, some (t.drop (name.length + 1))) else (name, none)

end Flag

namespace Arguments

def set (a : Arguments) (more : List (String × FlagValue)) : Arguments :=
  { a with settings := a.settings ++ more }

/-- Read arguments on top of what is known. -/
def readFrom (flags : List Flag) : Arguments → List Text → Except FlagError Arguments
  | a, [] => .ok a
  | a, arg :: args =>
    match arg with
    | [45, 45] => .ok { a with words := a.words ++ args }
    | 45 :: 45 :: t =>
      if t.headD 0 = 45 || t.headD 0 = 61 then .error (.malformed arg)
      else
        let (name, value) := Flag.splitValue t
        match Flag.named? flags name with
        | none => .error (.unknownName name)
        | some f =>
          match value with
          | some v => do readFrom flags (a.set [← f.setting v]) args
          | none =>
            if f.isSwitch then readFrom flags (a.set [(f.name, .switch true)]) args
            else match args with
              | [] => .error (.missingValue name)
              | v :: args => do readFrom flags (a.set [← f.setting v]) args
    | 45 :: l :: ls => do
      let (settings, waiting) ← Flag.readLetters flags (l :: ls)
      match waiting with
      | none => readFrom flags (a.set settings) args
      | some f =>
        match args with
        | [] => .error (.missingLetterValue (f.letter.getD 0))
        | v :: args => readFrom flags (a.set (settings ++ [← f.setting v])) args
    | word => readFrom flags { a with words := a.words ++ [word] } args

def read (flags : List Flag) (args : List Text) : Except FlagError Arguments := readFrom flags {} args

/-- The value that a flag has in the end. -/
def value? (a : Arguments) (name : String) : Option FlagValue := a.settings.reverse.lookup name

def switch (a : Arguments) (name : String) (default : Bool) : Bool :=
  match a.value? name with
  | some (.switch b) => b
  | _ => default

def number (a : Arguments) (name : String) (default : Int) : Int :=
  match a.value? name with
  | some (.number n) => n
  | _ => default

def text (a : Arguments) (name : String) (default : Text) : Text :=
  match a.value? name with
  | some (.text t) => t
  | _ => default

end Arguments

/-! ## Overview -/

namespace Flag

/-- The left column: how the flag is written. -/
def synopsis (f : Flag) : Text :=
  let kind := match f.default with
    | .switch _ => ""
    | .number _ => " int"
    | .text _ => " string"
  txt (if f.letter.isSome then "  " else "      ") ++ f.title ++ txt kind

/-- The right column: what the flag does, with its default unless that is nothing. -/
def description (f : Flag) : Text :=
  txt f.usage ++ match f.default with
    | .switch false => []
    | .switch true => txt " (default true)"
    | .number n => if n = 0 then [] else txt " (default " ++ Text.ofInt n ++ txt ")"
    | .text t => if t.isEmpty then [] else txt " (default " ++ t.quote ++ txt ")"

/-- The flags in two columns, by name. -/
def overview (flags : List Flag) : Text :=
  let flags := flags.mergeSort fun a b => (txt a.name).le (txt b.name)
  let width := (flags.map fun f => f.synopsis.length).foldl max 0
  flags.flatMap fun f =>
    f.synopsis ++ List.replicate (width + 3 - f.synopsis.length) 32 ++ f.description ++ txt "\n"

end Flag

end RuleLang
