import RuleLang.Yaml.Source
import RuleLang.Yaml.Resolve

/-!
# RuleLang.Yaml.Style

How a string is written: plain if that reads back as the same string, in quotes otherwise, and
as a literal block if it has several lines. Each style can carry only some strings; what stands
in the way is an indicator character, a blank next to a line break, or a character that only an
escape can name.
-/

namespace RuleLang

namespace Yaml

inductive ScalarStyle where
  | plain
  | single
  | double
  | literal
deriving Repr, DecidableEq

/-- Where a scalar stands: among the lines of a block, or between brackets. -/
inductive Place where
  | block
  | flow
deriving Repr, DecidableEq

/-! ## Characters that stand in the way -/

/-- A blank or the end of the string. -/
def isGapAfter : Option Nat → Bool
  | none => true
  | some c => isBlank c

/-- Does the character, which has the given neighbours, mean something else in a plain scalar? -/
def isIndicator (place : Place) (before : Option Nat) (c : Nat) (after : Option Nat) : Bool :=
  match before with
  | none =>
    if [35, 44, 91, 93, 123, 125, 38, 42, 33, 124, 62, 39, 34, 37, 64, 96].contains c then true
    else if c = 63 || c = 58 then place = .flow || isGapAfter after
    else c = 45 && isGapAfter after
  | some b =>
    if [44, 63, 91, 93, 123, 125].contains c then place = .flow
    else if c = 58 then place = .flow || isGapAfter after
    else c = 35 && isBlankOrEnd b

def indicatorFrom (place : Place) : (before : Option Nat) → List Nat → Bool
  | _, [] => false
  | before, c :: cs => isIndicator place before c cs.head? || indicatorFrom place (some c) cs

/-- Does an indicator or a document marker keep the string from being plain? -/
def hasIndicator (place : Place) (cs : List Nat) : Bool :=
  [45, 45, 45].isPrefixOf cs || [46, 46, 46].isPrefixOf cs || indicatorFrom place none cs

/-- May the character be written as it is? Characters outside the basic plane may not. -/
def isWritable (c : Nat) : Bool :=
  c = 10 || (0x20 ≤ c && c ≤ 0x7E) || (0xA0 ≤ c && c ≤ 0xD7FF) ||
    (0xE000 ≤ c && c ≤ 0xFFFD && c ≠ 0xFEFF)

/-- A character that only an escape can name; tabs are no such characters. -/
def needsEscape (c : Nat) : Bool := c ≠ 9 && !isWritable c

/-- Is there a character of the first kind right before one of the second? -/
def hasPair (p q : Nat → Bool) (cs : List Nat) : Bool :=
  (cs.zip (cs.drop 1)).any fun (a, b) => p a && q b

def isSpace (c : Nat) : Bool := c = 32

/-! ## What each style can carry -/

def plainFits (place : Place) (cs : List Nat) : Bool :=
  !(cs.isEmpty && place = .flow) && !cs.any isBreak && !cs.contains 9 && !cs.any needsEscape &&
    !(cs.head?.any isSpace) && !(cs.getLast?.any isSpace) && !hasIndicator place cs

def singleFits (cs : List Nat) : Bool :=
  !cs.contains 9 && !cs.any needsEscape && !hasPair isBreak isSpace cs && !hasPair isSpace isBreak cs

def literalFits (cs : List Nat) : Bool :=
  !cs.isEmpty && !cs.any needsEscape && !(cs.getLast?.any isSpace) && !hasPair isSpace isBreak cs

/-! ## Strings that look like something else -/

def isGroupOfSixty (g : Text) : Bool :=
  g.all Text.isDigit && (g.length = 1 || (g.length = 2 && g.headD 0 ≤ 53))

def isDigitOrGap (b : UInt8) : Bool := Text.isDigit b || b = 95

/-- A number in base sixty, such as `1:30:00`: some readers take it for a number. -/
def isSexagesimal (t : Text) : Bool :=
  let t := (Numeral.splitSign t).2
  let whole := t.takeWhile (· ≠ 46)
  let fraction := t.drop (whole.length + 1)
  match Text.cut 58 whole with
  | lead :: g :: gs =>
    Text.isDigit (lead.headD 0) && lead.all isDigitOrGap && (g :: gs).all isGroupOfSixty &&
      fraction.all isDigitOrGap
  | _ => false

/-- A word that some readers take for a truth value. -/
def isYesOrNo (t : Text) : Bool :=
  ["y", "Y", "yes", "Yes", "YES", "on", "On", "ON", "n", "N", "no", "No", "NO", "off", "Off",
    "OFF"].any (txt · = t)

/-- Does the text, written plain, read as a string everywhere? -/
def readsAsString (t : Text) : Bool := typeOf true t = .str && !isSexagesimal t && !isYesOrNo t

namespace ScalarStyle

/-- The style for a string: `free` says that it need not read as a string without its tag. -/
def choose (place : Place) (free : Bool) (t : Text) : ScalarStyle :=
  let cs := t.chars.map TextChar.code
  if t.contains 10 then
    if place = .block && literalFits cs then .literal else .double
  else if free || readsAsString t then
    if plainFits place cs then .plain else if singleFits cs then .single else .double
  else .double

end ScalarStyle

end Yaml

end RuleLang
