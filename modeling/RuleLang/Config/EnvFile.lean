import RuleLang.Text.Blank
import RuleLang.Config.Basic

/-!
# RuleLang.Config.EnvFile

Files of environment variables. A statement is `KEY=VALUE` or `KEY: VALUE`, optionally after
`export`. A value in single quotes is taken literally; in double quotes escapes and variables are
expanded; without quotes it ends at the line's end or at a comment, and variables are expanded.
Variables in values refer to earlier statements of the file. A file with a fault counts as
empty, and variables that the environment has already win over those of the file.
-/

namespace RuleLang

namespace EnvFile

/-- White space within a line, as a code point. -/
def isGap (c : Nat) : Bool :=
  c = 9 || c = 11 || c = 12 || c = 13 || c = 32 || c = 0x85 || c = 0xA0

def trimGap (t : Text) : Text := Text.ofChars (t.chars.dropWhile fun r => isGap r.code)

def trimGapEnd (t : Text) : Text :=
  Text.ofChars (t.chars.reverse.dropWhile fun r => isGap r.code).reverse

/-- Is the byte, read as a Latin-1 character, a letter, a digit or a number sign of its own? -/
def isKeyByte (b : UInt8) : Bool :=
  Text.isLetter b || Text.isDigit b || b = 95 || b = 46 ||
    b = 0xAA || b = 0xB5 || b = 0xBA || (0xC0 ≤ b && b ≠ 0xD7 && b ≠ 0xF7) ||
    b = 0xB2 || b = 0xB3 || b = 0xB9 || (0xBC ≤ b && b ≤ 0xBE)

/-- Carriage returns before line feeds do not count. -/
def unixLines : Text → Text
  | [] => []
  | 13 :: 10 :: t => 10 :: unixLines t
  | b :: t => b :: unixLines t

/-- The next statement, past white space and comment lines. -/
def nextStatement : (fuel : Nat) → Text → Option Text
  | 0, _ => none
  | fuel + 1, t =>
    match t.trimLeft with
    | [] => none
    | 35 :: r => nextStatement fuel (r.dropWhile (· ≠ 10))
    | t => some t

/-- Drop `export` and the white space after it. -/
def dropExport (t : Text) : Text :=
  match t.dropStart? (txt "export") with
  | none => t
  | some r =>
    let r' := trimGap r
    if r'.length < r.length then r' else t

/-- The bytes before the first `=` or `:`, and what follows it. Without either, the whole text is
a value without a key. A byte that cannot stand in a key is a fault. -/
def splitKeyAt : (acc : Text) → Text → Option (Text × Option Text)
  | _, [] => some ([], none)
  | acc, b :: t =>
    if isGap b.toNat then splitKeyAt (b :: acc) t
    else if b = 61 || b = 58 then some (acc.reverse, some t)
    else if isKeyByte b then splitKeyAt (b :: acc) t
    else none

/-- The key of a statement and the text from its value on. -/
def splitKey? (t : Text) : Option (Text × Text) :=
  let t := dropExport (trimGap t)
  match splitKeyAt [] t with
  | none => none
  | some (key, some rest) => some (key.trimRight, trimGap rest)
  | some (_, none) => if t.isEmpty then none else some ([], trimGap t)

/-! ## Values -/

/-- Replace `\n` and `\r`; other escapes stay for the next step. -/
def lineEscapes : Text → Text
  | [] => []
  | 92 :: 110 :: t => 10 :: lineEscapes t
  | 92 :: 114 :: t => 13 :: lineEscapes t
  | 92 :: b :: t => if b = 10 then 92 :: 10 :: lineEscapes t else 92 :: b :: lineEscapes t
  | b :: t => b :: lineEscapes t

/-- Drop the backslash of every other escape; an escaped dollar sign keeps it. -/
def plainEscapes : Text → Text
  | [] => []
  | 92 :: b :: t => if b = 36 then 92 :: 36 :: plainEscapes t else b :: plainEscapes t
  | b :: t => b :: plainEscapes t

def isVariableByte (b : UInt8) : Bool := Text.isUpper b || Text.isDigit b || b = 95

/-- What follows a dollar sign of a variable: an optional parenthesis and brace, the name, an
optional brace. Gives the name and the number of bytes. -/
def variableAt (t : Text) : Text × Nat :=
  let paren := if t.startsWith (txt "(") then 1 else 0
  let brace := if Text.startsWith (t.drop paren) (txt "\x7b") then 1 else 0
  let name := (t.drop (paren + brace)).takeWhile isVariableByte
  let n := paren + brace + name.length
  (name, n + if Text.startsWith (t.drop n) (txt "\x7d") then 1 else 0)

/-- Replace variables by their values, unset ones by nothing; a dollar sign after a backslash
stands for itself. `skip` bytes still belong to the variable before. -/
def expandFrom (vars : Env) : (skip : Nat) → Text → Text
  | _, [] => []
  | skip + 1, _ :: t => expandFrom vars skip t
  | 0, 92 :: 36 :: t =>
    let n := (variableAt t).2
    36 :: (t.take n ++ expandFrom vars (n + 1) (36 :: t))
  | 0, 36 :: t =>
    let (name, n) := variableAt t
    if name.isEmpty then 36 :: (t.take n ++ expandFrom vars n t)
    else ((vars.lookup name).getD []) ++ expandFrom vars n t
  | 0, b :: t => b :: expandFrom vars 0 t

def expand (vars : Env) (t : Text) : Text := expandFrom vars 0 t

/-- The characters before a comment: a `#` after white space. -/
def beforeComment : List TextChar → List TextChar
  | [] => []
  | [r] => [r]
  | r :: s :: rs =>
    if isGap r.code && s.code = 35 then [r] else r :: beforeComment (s :: rs)

/-- A value without quotes, and what follows it. -/
def bareValue (vars : Env) (t : Text) : Text × Text :=
  let line := t.takeWhile fun b => b ≠ 10 && b ≠ 13
  let kept := Text.ofChars (beforeComment (Text.scrub line).chars)
  (expand vars (trimGapEnd (trimGap kept)), t.drop line.length)

/-- The bytes up to the closing quote, and what follows it. A quote after a backslash does not
close. -/
def untilQuote? (quote : UInt8) : (before : UInt8) → (acc : Text) → Text → Option (Text × Text)
  | _, _, [] => none
  | before, acc, b :: t =>
    if b = quote && before ≠ 92 then some (acc.reverse, t)
    else untilQuote? quote b (b :: acc) t

/-- A value in quotes: quotation marks at either end of the content go too. -/
def quotedValue? (vars : Env) (quote : UInt8) (t : Text) : Option (Text × Text) :=
  match untilQuote? quote quote [] t with
  | none => none
  | some (content, rest) =>
    let content := ((content.reverse.dropWhile (· = quote)).reverse).dropWhile (· = quote)
    if quote = 34 then some (expand vars (plainEscapes (lineEscapes content)), rest)
    else some (content, rest)

/-- The value at the start of a text, and what follows it. -/
def value? (vars : Env) : Text → Option (Text × Text)
  | 34 :: t => quotedValue? vars 34 t
  | 39 :: t => quotedValue? vars 39 t
  | t => some (bareValue vars t)

/-- Read statements on top of the variables read so far, last first. Every statement takes at
least one byte. -/
def readFrom? : (fuel : Nat) → (vars : Env) → Text → Option Env
  | 0, _, _ => none
  | fuel + 1, vars, t =>
    match nextStatement (t.length + 1) t with
    | none => some vars
    | some t =>
      match splitKey? t with
      | none => none
      | some (key, t) =>
        match value? vars t with
        | none => none
        | some (v, rest) => readFrom? fuel ((key, v) :: vars) rest

/-- The variables of a file, the latest of a name first. -/
def read? (t : Text) : Option Env :=
  let t := unixLines t
  readFrom? (t.length + 1) [] t

end EnvFile

namespace Env

/-- The environment with the variables of a file added. Names that are set already stay; a name
whose latest value holds a NUL byte cannot be set. -/
def withFile (e : Env) (file : Option Text) : Env :=
  match file.bind EnvFile.read? with
  | none => e
  | some vars =>
    e ++ vars.filter fun (k, _) => !k.isEmpty && !((vars.lookup k).getD []).contains 0

end Env

end RuleLang
