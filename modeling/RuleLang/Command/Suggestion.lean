import RuleLang.Command.Basic

/-!
# RuleLang.Command.Suggestion

Commands that a misspelt word may stand for: those that begin with it, and those that two
changes of single bytes turn it into. Case does not count.
-/

namespace RuleLang

namespace Suggestion

/-- Capitals whose small letter takes another number of bytes, with that letter. -/
def resizedLetters : List (Nat × Nat) :=
  [(0x130, 0x69), (0x23A, 0x2C65), (0x23E, 0x2C66), (0x1E9E, 0xDF), (0x2126, 0x3C9),
    (0x212A, 0x6B), (0x212B, 0xE5), (0x2C62, 0x26B), (0x2C64, 0x27D), (0x2C6D, 0x251),
    (0x2C6E, 0x271), (0x2C6F, 0x250), (0x2C70, 0x252), (0x2C7E, 0x23F), (0x2C7F, 0x240),
    (0xA78D, 0x265), (0xA7AA, 0x266), (0xA7AB, 0x25C), (0xA7AC, 0x261), (0xA7AD, 0x26C),
    (0xA7AE, 0x26A), (0xA7B0, 0x29E), (0xA7B1, 0x287), (0xA7B2, 0x29D), (0xA7C5, 0x282)]

/-- A word in small letters. Letters outside ASCII stay unless their length changes: in a
comparison with the name of a command nothing but their length counts. -/
def lower (t : Text) : Text :=
  t.chars.flatMap fun r =>
    if r.code < 0x80 then r.bytes.map Text.lowerByte
    else Utf8.encode ((resizedLetters.lookup r.code).getD r.code)

/-- One row of the table of distances: `left` is the entry before, the list is the row above. -/
def nextRow (a : UInt8) : (left : Nat) → List Nat → Text → List Nat
  | left, d :: u :: ds, b :: bs =>
    let x := if a = b then d else min left (min d u) + 1
    x :: nextRow a x (u :: ds) bs
  | _, _, _ => []

/-- How many bytes have to be put in, taken out or replaced to turn one text into the other. -/
def distance (s t : Text) : Nat :=
  let row := s.foldl (fun row a => let d := row.headD 0 + 1; d :: nextRow a d row t)
    (List.range (t.length + 1))
  row.getLast?.getD 0

/-- The commands that a word may stand for, in the order in which they are known. -/
def commandsFor (word : Text) : List Command :=
  let word := lower word
  ([.serve, .format, .catalog, .version, .completion] : List Command).filter fun c =>
    distance word c.name ≤ 2 || c.name.startsWith word

/-- The end of a message about an unknown command. -/
def text (word : Text) : Text :=
  match commandsFor word with
  | [] => []
  | cs => txt "\n\nDid you mean this?\n" ++ cs.flatMap fun c => txt "\t" ++ c.name ++ txt "\n"

end Suggestion

end RuleLang
