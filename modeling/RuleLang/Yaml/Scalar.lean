import RuleLang.Yaml.Source

/-!
# RuleLang.Yaml.Scalar

Reading scalars: plain, quoted and block scalars, with their rules for line folding and escapes.
Each reader starts at the scalar's first character and gives the content and the cursor after it.
-/

namespace RuleLang

namespace Yaml

/-! ## White space inside flow scalars -/

/-- Blanks and line breaks between two words. `blanks` counts only while no line has been broken;
`first` is the first break, `more` the others. -/
structure Gap where
  broken : Bool := false
  blanks : List Nat := []
  first : List Nat := []
  more : List Nat := []
deriving Repr

namespace Gap

/-- What a gap contributes to the content: a single line feed folds to a space, further ones are
kept. -/
def text (g : Gap) : List Nat :=
  if g.broken then
    if g.first = [10] then (if g.more.isEmpty then [32] else g.more) else g.first ++ g.more
  else g.blanks

/-- Read blanks and breaks. Past the first break, a tab before column `margin` is refused. -/
def read? : (fuel : Nat) → (margin : Int) → Gap → Cursor → Option (Gap × Cursor)
  | 0, _, _, _ => none
  | fuel + 1, margin, g, c =>
    if isBlank c.peek then
      if g.broken then
        if c.peek = 9 && (c.column : Int) < margin then none else read? fuel margin g c.skip
      else read? fuel margin { g with blanks := g.blanks ++ [c.peek] } c.skip
    else if isBreak c.peek then
      let b := c.breakValue
      let g := if g.broken then { g with more := g.more ++ b }
        else { broken := true, blanks := [], first := b, more := g.more }
      read? fuel margin g c.skipLine
    else some (g, c)

end Gap

/-! ## Plain scalars -/

/-- Characters that end a plain scalar in a flow collection. -/
def isFlowIndicator (c : Nat) : Bool :=
  c = 44 || c = 63 || c = 91 || c = 93 || c = 123 || c = 125

/-- Number of characters up to the next blank, or up to a colon before a blank. -/
def plainWord (inFlow : Bool) : List Nat → Nat
  | [] => 0
  | c :: r =>
    if isBlankOrEnd c || (c = 58 && isBlankOrEnd (r.headD 0)) || (inFlow && isFlowIndicator c) then 0
    else plainWord inFlow r + 1

/-- A plain scalar: its content, whether a line break was passed after it, and the cursor there.
`acc` holds the content so far, last character first, `gap` the white space after it. -/
def plainFrom? : (fuel : Nat) → (inFlow : Bool) → (indent : Int) → (acc : List Nat) → Gap → Cursor →
    Option (List Nat × Bool × Cursor)
  | 0, _, _, _, _, _ => none
  | fuel + 1, inFlow, indent, acc, gap, c =>
    if c.atAnyMarker || c.peek = 35 then some (acc.reverse, gap.broken, c)
    else
      let n := plainWord inFlow c.rest
      let acc' := if n = 0 then acc else (c.rest.take n).reverse ++ gap.text.reverse ++ acc
      let gap' := if n = 0 then gap else {}
      let c := c.skip n
      if !(isBlank c.peek || isBreak c.peek) then some (acc'.reverse, gap'.broken, c)
      else match Gap.read? (c.rest.length + 1) (indent + 1) gap' c with
        | none => none
        | some (gap, c) =>
          if !inFlow && (c.column : Int) < indent + 1 then some (acc'.reverse, gap.broken, c)
          else plainFrom? fuel inFlow indent acc' gap c

def plain? (inFlow : Bool) (indent : Int) (c : Cursor) : Option (List Nat × Bool × Cursor) :=
  plainFrom? (c.rest.length + 1) inFlow indent [] {} c

/-! ## Quoted scalars -/

/-- What the character after a backslash stands for. -/
def escapeValue? (c : Nat) : Option Nat :=
  [(48, 0), (97, 7), (98, 8), (116, 9), (9, 9), (110, 10), (118, 11), (102, 12), (114, 13),
    (101, 27), (32, 32), (34, 34), (39, 39), (92, 92), (78, 0x85), (95, 0xA0), (76, 0x2028),
    (80, 0x2029)].lookup c

/-- Number of hexadecimal digits after `x`, `u` and `U`. -/
def escapeDigits? (c : Nat) : Option Nat := [(120, 2), (117, 4), (85, 8)].lookup c

def hexDigit? (c : Nat) : Option Nat := if c < 128 then Text.hexValue? (UInt8.ofNat c) else none

/-- The code point that hexadecimal digits write. -/
def hexCode? (ds : List Nat) : Option Nat := do
  let code ← ds.foldlM (fun n d => (hexDigit? d).map (n * 16 + ·)) 0
  if (0xD800 ≤ code && code < 0xE000) || 0x110000 ≤ code then none else some code

/-- Characters up to a blank, the closing quote or an escaped line break; the flag tells that it
was an escaped break. -/
def quotedWord? : (fuel : Nat) → (single : Bool) → (acc : List Nat) → Cursor →
    Option (List Nat × Bool × Cursor)
  | 0, _, _, _ => none
  | fuel + 1, single, acc, c =>
    let ch := c.peek
    if isBlankOrEnd ch then some (acc, false, c)
    else if single then
      if ch = 39 then
        if c.peek 1 = 39 then quotedWord? fuel single (39 :: acc) (c.skip 2)
        else some (acc, false, c)
      else quotedWord? fuel single (ch :: acc) c.skip
    else if ch = 34 then some (acc, false, c)
    else if ch = 92 then
      if isBreak (c.peek 1) then some (acc, true, c.skip.skipLine)
      else match escapeValue? (c.peek 1) with
        | some v => quotedWord? fuel single (v :: acc) (c.skip 2)
        | none =>
          match escapeDigits? (c.peek 1) with
          | none => none
          | some n =>
            let ds := (c.rest.drop 2).take n
            if ds.length < n then none
            else match hexCode? ds with
              | none => none
              | some v => quotedWord? fuel single (v :: acc) (c.skip (2 + n))
    else quotedWord? fuel single (ch :: acc) c.skip

/-- The content of a quoted scalar after its opening quote, and the cursor after the closing
one. -/
def quotedFrom? : (fuel : Nat) → (single : Bool) → (acc : List Nat) → Cursor →
    Option (List Nat × Cursor)
  | 0, _, _, _ => none
  | fuel + 1, single, acc, c =>
    if c.atAnyMarker || c.peek = 0 then none
    else match quotedWord? (c.rest.length + 1) single acc c with
      | none => none
      | some (acc, escapedBreak, c) =>
        if c.peek = (if single then 39 else 34) then some (acc.reverse, c.skip)
        else match Gap.read? (c.rest.length + 1) 0 { broken := escapedBreak } c with
          | none => none
          | some (gap, c) => quotedFrom? fuel single (gap.text.reverse ++ acc) c

def quoted? (single : Bool) (c : Cursor) : Option (List Nat × Cursor) :=
  quotedFrom? (c.rest.length + 1) single [] c.skip

/-! ## Block scalars -/

inductive Chomp where
  | strip
  | clip
  | keep
deriving Repr, DecidableEq

/-- The header of a block scalar: chomping, indentation (0 if not given), and the cursor after
it. -/
def blockHeader? (c : Cursor) : Option (Chomp × Nat × Cursor) :=
  let chomp? (c : Cursor) : Option (Chomp × Cursor) :=
    if c.peek = 43 then some (.keep, c.skip) else if c.peek = 45 then some (.strip, c.skip) else none
  let digit? (c : Cursor) : Option (Option (Nat × Cursor)) :=
    if 49 ≤ c.peek && c.peek ≤ 57 then some (some (c.peek - 48, c.skip))
    else if c.peek = 48 then none
    else some none
  match chomp? c with
  | some (k, c) =>
    match digit? c with
    | none => none
    | some (some (n, c)) => some (k, n, c)
    | some none => some (k, 0, c)
  | none =>
    match digit? c with
    | none => none
    | some (some (n, c)) =>
      match chomp? c with
      | some (k, c) => some (k, n, c)
      | none => some (.clip, n, c)
    | some none => some (.clip, 0, c)

/-- Pass over indentation and empty lines: the widest indentation seen, the line breaks, and the
cursor at the first character that is neither. -/
def blockBreaks? : (fuel : Nat) → (indent widest : Nat) → (breaks : List Nat) → Cursor →
    Option (Nat × List Nat × Cursor)
  | 0, _, _, _, _ => none
  | fuel + 1, indent, widest, breaks, c =>
    let spaces := (c.rest.takeWhile (· = 32)).length
    let c := c.skip (if indent = 0 then spaces else min spaces (indent - c.column))
    let widest := max widest c.column
    if (indent = 0 || c.column < indent) && c.peek = 9 then none
    else if isBreak c.peek then
      blockBreaks? fuel indent widest (breaks ++ c.breakValue) c.skipLine
    else some (widest, breaks, c)

/-- The lines of a block scalar. `first` and `breaks` are the line breaks after the last line,
`leadingBlank` tells that the last line began with a blank. -/
def blockLines? : (fuel : Nat) → (literal : Bool) → (indent : Nat) → (acc first breaks : List Nat) →
    (leadingBlank : Bool) → Cursor → Option (List Nat × List Nat × List Nat × Cursor)
  | 0, _, _, _, _, _, _, _ => none
  | fuel + 1, literal, indent, acc, first, breaks, leadingBlank, c =>
    if c.column = indent && c.peek ≠ 0 then
      let blank := isBlank c.peek
      let glue :=
        if !literal && !leadingBlank && !blank && first = [10] then
          (if breaks.isEmpty then [32] else [])
        else first
      let line := c.rest.takeWhile fun ch => !isBreakOrEnd ch
      let acc := line.reverse ++ breaks.reverse ++ glue.reverse ++ acc
      let c := c.skip line.length
      let first := c.breakValue
      match blockBreaks? (c.rest.length + 1) indent 0 [] c.skipLine with
      | none => none
      | some (_, breaks, c) => blockLines? fuel literal indent acc first breaks blank c
    else some (acc, first, breaks, c)

/-- A block scalar from its indicator on, inside a block of indentation `parent`. -/
def block? (literal : Bool) (parent : Int) (c : Cursor) : Option (List Nat × Cursor) := do
  let (chomp, given, c) ← blockHeader? c.skip
  let c := c.skipWhile isBlank
  let c := if c.peek = 35 then c.skipWhile (fun ch => !isBreakOrEnd ch) else c
  if !isBreakOrEnd c.peek then none
  let c := c.skipLine
  let fixed : Nat := if given = 0 then 0 else if 0 ≤ parent then parent.toNat + given else given
  let (widest, breaks, c) ← blockBreaks? (c.rest.length + 1) fixed 0 [] c
  let indent : Nat := if fixed = 0 then max (max widest (parent + 1).toNat) 1 else fixed
  let (acc, first, breaks, c) ←
    blockLines? (c.rest.length + 2) literal indent [] [] breaks false c
  let content := acc.reverse ++
    (if chomp = .strip then [] else first) ++ (if chomp = .keep then breaks else [])
  return (content, c)

end Yaml

end RuleLang
