import RuleLang.Text.Basic

/-!
# RuleLang.Yaml.Timestamp

Which texts are dates or points in time: a year of four digits, month and day of one or two, and
optionally a time of day with a fraction. A time after `T` carries its zone, a time after a blank
has none.
-/

namespace RuleLang

namespace Yaml

/-- A number of one or two digits within bounds, and what follows it. -/
def shortNumber? (low high : Nat) (t : Text) : Option (Nat × Text) :=
  let ds := (t.take 2).takeWhile Text.isDigit
  let n := ds.foldl (fun n d => n * 10 + (d.toNat - 48)) 0
  if ds.isEmpty || n < low || high < n then none else some (n, t.drop ds.length)

/-- What follows one given byte. -/
def after? (b : UInt8) : Text → Option Text
  | c :: t => if c = b then some t else none
  | [] => none

def daysIn (year month : Nat) : Nat :=
  if month = 2 then
    if year % 4 = 0 && (year % 100 ≠ 0 || year % 400 = 0) then 29 else 28
  else if month = 4 || month = 6 || month = 9 || month = 11 then 30
  else 31

/-- What follows a date. -/
def afterDate? (t : Text) : Option Text := do
  let year := t.takeWhile Text.isDigit
  if year.length ≠ 4 then none
  let t ← after? 45 (t.drop 4)
  let (month, t) ← shortNumber? 1 12 t
  let t ← after? 45 t
  let (day, t) ← shortNumber? 0 99 t
  let y := year.foldl (fun n d => n * 10 + (d.toNat - 48)) 0
  if day = 0 || daysIn y month < day then none else some t

/-- What follows a time of day; a fraction begins with a point or a comma. -/
def afterTime? (t : Text) : Option Text := do
  let (_, t) ← shortNumber? 0 23 t
  let t ← after? 58 t
  let (_, t) ← shortNumber? 0 59 t
  let t ← after? 58 t
  let (_, t) ← shortNumber? 0 59 t
  match t with
  | b :: r =>
    if (b = 46 || b = 44) && r.head?.any Text.isDigit then some (r.dropWhile Text.isDigit)
    else some t
  | [] => some []

/-- Two digits with a value of at most `high`. -/
def pair? (high : Nat) (t : Text) : Option Text := do
  if ((t.take 2).takeWhile Text.isDigit).length ≠ 2 then none
  let (_, t) ← shortNumber? 0 high t
  some t

/-- What follows a zone: `Z`, or a sign with hours and minutes. -/
def afterZone? : Text → Option Text
  | 90 :: t => some t
  | s :: t =>
    if s = 43 || s = 45 then do
      let t ← pair? 24 t
      let t ← after? 58 t
      pair? 60 t
    else none
  | [] => none

def isTimestamp (t : Text) : Bool :=
  match afterDate? t with
  | none => false
  | some [] => true
  | some (b :: r) =>
    if b = 84 || b = 116 then (afterTime? r).bind afterZone? = some []
    else if b = 32 then afterTime? (r.dropWhile (· = 32)) = some []
    else false

end Yaml

end RuleLang
