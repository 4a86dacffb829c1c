import RuleLang.Yaml.Scalar

/-!
# RuleLang.Yaml.Token

The tokens of a YAML stream. Indentation shows as tokens that open and close blocks; a key that is
recognised only by the colon after it gets its `key` token in front of it afterwards. `lex`
gives the tokens up to the end of the stream or up to the first fault.
-/

namespace RuleLang

namespace Yaml

inductive TokenKind where
  | streamEnd
  | version (major minor : Nat)
  | tagHandle (handle base : Text)
  | documentStart
  | documentEnd
  | listStart
  | mappingStart
  | blockEnd
  | flowListStart
  | flowListEnd
  | flowMappingStart
  | flowMappingEnd
  | entry
  | comma
  | key
  | value
  | aliasOf (name : Text)
  | anchor (name : Text)
  | tag (handle suffix : Text)
  | scalar (content : Text) (isPlain : Bool)
deriving Repr, DecidableEq

/-- A token and the line on which it begins. -/
structure Token where
  line : Nat
  kind : TokenKind
deriving Repr, DecidableEq

/-- A place where a key may have begun that has no indicator of its own. -/
structure KeySpot where
  /-- the block cannot go on unless this is a key -/
  required : Bool
  /-- number of tokens before it -/
  number : Nat
  line : Nat
  column : Nat
  index : Nat
deriving Repr

structure Lexer where
  cursor : Cursor
  /-- column of the innermost block, -1 outside all blocks -/
  indent : Int := -1
  indents : List Int := []
  /-- number of open flow collections -/
  flow : Nat := 0
  keyAllowed : Bool := true
  /-- one for each open flow collection, and one for the block around them -/
  spots : List (Option KeySpot) := [none]
  /-- last first -/
  tokens : List Token := []
  count : Nat := 0
deriving Repr

namespace Lexer

/-- The deepest nesting of blocks and of flow collections. -/
def maxNesting : Nat := 10000

/-- The longest key without an indicator. -/
def maxKeyLength : Nat := 1024

def push (x : Lexer) (kind : TokenKind) : Lexer :=
  { x with tokens := ⟨x.cursor.line, kind⟩ :: x.tokens, count := x.count + 1 }

/-- Put a token in front of the token with number `n`. -/
def insertAt (x : Lexer) (n line : Nat) (kind : TokenKind) : Lexer :=
  let after := x.count - n
  { x with
    tokens := x.tokens.take after ++ ⟨line, kind⟩ :: x.tokens.drop after
    count := x.count + 1 }

/-- Give up on a key of the current collection. -/
def dropSpot? (x : Lexer) : Option Lexer :=
  match x.spots with
  | some s :: rest => if s.required then none else some { x with spots := none :: rest }
  | _ => some x

/-- Remember that a key may begin here. -/
def saveSpot? (x : Lexer) : Option Lexer :=
  if x.keyAllowed then do
    let x ← x.dropSpot?
    let c := x.cursor
    let spot : KeySpot :=
      ⟨x.flow = 0 && x.indent = c.column, x.count, c.line, c.column, c.index⟩
    return { x with spots := some spot :: x.spots.tail }
  else some x

/-- Open a block at `column` unless one is open there; its token gets the number `n`. -/
def roll? (x : Lexer) (column n line : Nat) (kind : TokenKind) : Option Lexer :=
  if x.flow = 0 && x.indent < column then
    if maxNesting < x.indents.length + 1 then none
    else some
      { (x.insertAt n line kind) with indents := x.indent :: x.indents, indent := column }
  else some x

/-- Close the blocks further in than `column`. -/
def unrollFrom (column : Int) : List Int → Lexer → Lexer
  | [], x => x
  | outer :: rest, x =>
    if x.indent > column then
      unrollFrom column rest { (x.push .blockEnd) with indent := outer, indents := rest }
    else x

def unroll (x : Lexer) (column : Int) : Lexer :=
  if x.flow = 0 then unrollFrom column x.indents x else x

/-! ## Between tokens -/

/-- Characters from a line break up to a comment on a later line, if nothing else stands between;
at most `left` characters are looked at. -/
def toComment? : (left : Nat) → (n : Nat) → List Nat → Option Nat
  | 0, _, _ => none
  | _, _, [] => none
  | left + 1, n, c :: r =>
    if c = 35 then some n
    else if isBlank c || c = 10 || c = 13 then toComment? left (n + 1) r
    else none

/-- Pass over `n` characters that may hold line breaks. -/
def skipAcross : (n : Nat) → Cursor → Cursor
  | 0, c => c
  | n + 1, c =>
    if c.peek = 13 && c.peek 1 = 10 then skipAcross n { c.skip with column := c.column }
    else if isBreak c.peek then skipAcross n c.skipLine
    else skipAcross n c.skip

/-- Pass over a comment and the comments on the lines right after it, which may be indented with
tabs. -/
def skipComments : (fuel : Nat) → Cursor → Cursor
  | 0, c => c
  | fuel + 1, c =>
    let c := c.skipWhile fun ch => !isBreakOrEnd ch
    match c.rest with
    | [] => c
    | b :: r =>
      if b = 10 || b = 13 then
        match toComment? 511 1 r with
        | some n => skipComments fuel (skipAcross n c)
        | none => c
      else c

/-- Pass over white space, comments and line breaks. Tabs count as white space only where no key
may begin. -/
def toNext : (fuel : Nat) → Lexer → Lexer
  | 0, x => x
  | fuel + 1, x =>
    let c := x.cursor
    let c := if c.column = 0 && c.peek = 0xFEFF then c.skip else c
    let tabs := 0 < x.flow || !x.keyAllowed
    let c := c.skipWhile fun ch => ch = 32 || (tabs && ch = 9)
    let c := if c.peek = 35 then skipComments (c.rest.length + 1) c else c
    if isBreak c.peek then
      toNext fuel { x with cursor := c.skipLine, keyAllowed := x.keyAllowed || x.flow = 0 }
    else { x with cursor := c }

/-! ## Tokens with content -/

/-- The bytes that percent escapes write. -/
def uriByte? (a b : Nat) : Option UInt8 := do
  return UInt8.ofNat ((← hexDigit? a) * 16 + (← hexDigit? b))

def isUriChar (c : Nat) : Bool :=
  isNameChar c || [59, 47, 63, 58, 64, 38, 61, 43, 36, 44, 46, 33, 126, 42, 39, 40, 41, 91, 93].contains c

/-- The characters of a URI, percent escapes resolved; `acc` holds the bytes so far. -/
def uri? : (fuel : Nat) → (acc : Text) → Cursor → Option (Text × Cursor)
  | 0, _, _ => none
  | fuel + 1, acc, c =>
    if c.peek = 37 then
      match uriByte? (c.peek 1) (c.peek 2) with
      | some b => uri? fuel (acc ++ [b]) (c.skip 3)
      | none => none
    else if isUriChar c.peek then uri? fuel (acc ++ toText [c.peek]) c.skip
    else if Text.isUtf8 acc then some (acc, c)
    else none

/-- The name of an anchor or alias after its indicator. -/
def name? (c : Cursor) : Option (Text × Cursor) :=
  let name := c.rest.takeWhile isNameChar
  let c := c.skip name.length
  if name.isEmpty ||
      !(isBlankOrEnd c.peek || [63, 58, 44, 93, 125, 37, 64, 96].contains c.peek) then none
  else some (toText name, c)

/-- A handle: an exclamation mark, a name, and perhaps another exclamation mark. -/
def handle (c : Cursor) : Text × Cursor :=
  let name := c.skip.rest.takeWhile isNameChar
  let h := 33 :: toText name
  let c := c.skip (1 + name.length)
  if c.peek = 33 then (h ++ [33], c.skip) else (h, c)

/-- The handle and the suffix of a tag. -/
def tag? (c : Cursor) : Option (Text × Text × Cursor) := do
  let (h, suffix, c) ←
    if c.peek 1 = 60 then do
      let c := c.skip 2
      let (u, c) ← uri? (c.rest.length + 1) [] c
      if u.isEmpty || c.peek ≠ 62 then none else pure ([], u, c.skip)
    else
      let (h, c) := handle c
      if 1 < h.length && h.endsWith [33] then do
        let (u, c) ← uri? (c.rest.length + 1) [] c
        if u.isEmpty then none else pure (h, u, c)
      else do
        let (u, c) ← uri? (c.rest.length + 1) (h.drop 1) c
        -- a lone exclamation mark is a tag of its own
        if u.isEmpty then pure ([], [33], c) else pure ([33], u, c)
  if isBlankOrEnd c.peek then some (h, suffix, c) else none

/-- A number of a version: one or two digits. -/
def versionNumber? (c : Cursor) : Option (Nat × Cursor) :=
  let ds := c.rest.takeWhile fun d => 48 ≤ d && d ≤ 57
  if ds.isEmpty || 2 < ds.length then none
  else some (ds.foldl (fun n d => n * 10 + (d - 48)) 0, c.skip ds.length)

/-- A directive after its percent sign. -/
def directive? (c : Cursor) : Option (TokenKind × Cursor) := do
  let name := c.rest.takeWhile isNameChar
  let c := c.skip name.length
  if !isBlankOrEnd c.peek then none
  let c := c.skipWhile isBlank
  let (kind, c) ←
    if toText name = txt "YAML" then do
      let (major, c) ← versionNumber? c
      if c.peek ≠ 46 then none
      let (minor, c) ← versionNumber? c.skip
      pure (TokenKind.version major minor, c)
    else if toText name = txt "TAG" then do
      if c.peek ≠ 33 then none
      let (h, c) := handle c
      if !h.endsWith [33] || !isBlank c.peek then none
      let c := c.skipWhile isBlank
      let (u, c) ← uri? (c.rest.length + 1) [] c
      if u.isEmpty || !isBlankOrEnd c.peek then none
      pure (TokenKind.tagHandle h u, c)
    else none
  let c := c.skipWhile isBlank
  let c := if c.peek = 35 then c.skipWhile (fun ch => !isBreakOrEnd ch) else c
  if isBreakOrEnd c.peek then some (kind, c.skipLine) else none

/-! ## Fetching -/

/-- A token of `n` indicator characters. -/
def indicator (x : Lexer) (kind : TokenKind) (n : Nat := 1) : Lexer :=
  let x := x.push kind
  { x with cursor := x.cursor.skip n }

/-- A scalar that may be a key. -/
def scalarToken (x : Lexer) (content : List Nat) (isPlain : Bool) (c : Cursor) : Lexer :=
  { (x.push (.scalar (toText content) isPlain)) with cursor := c }

def openFlow? (x : Lexer) (kind : TokenKind) : Option Lexer := do
  let x ← x.saveSpot?
  if maxNesting < x.flow + 1 then none
  let x := x.indicator kind
  return { x with flow := x.flow + 1, spots := none :: x.spots, keyAllowed := true }

def closeFlow? (x : Lexer) (kind : TokenKind) : Option Lexer := do
  let x ← x.dropSpot?
  let x := x.indicator kind
  return { x with
    spots := if 0 < x.flow then x.spots.tail else x.spots
    flow := x.flow - 1
    keyAllowed := false }

def fetchEntry? (x : Lexer) : Option Lexer := do
  let c := x.cursor
  let x ← if x.flow = 0 then
      if x.keyAllowed then x.roll? c.column x.count c.line .listStart else none
    else some x
  let x ← x.dropSpot?
  return { (x.indicator .entry) with keyAllowed := true }

def fetchKey? (x : Lexer) : Option Lexer := do
  let c := x.cursor
  let x ← if x.flow = 0 then
      if x.keyAllowed then x.roll? c.column x.count c.line .mappingStart else none
    else some x
  let x ← x.dropSpot?
  return { (x.indicator .key) with keyAllowed := x.flow = 0 }

/-- Is the spot still close enough to the cursor to be a key? -/
def inReach (s : KeySpot) (c : Cursor) : Bool :=
  s.line = c.line && c.index ≤ s.index + maxKeyLength

def fetchValue? (x : Lexer) : Option Lexer := do
  let c := x.cursor
  let spot := x.spots.head?.join
  match spot with
  | some s =>
    if inReach s c then
      let x := x.insertAt s.number s.line .key
      let x ← x.roll? s.column s.number s.line .mappingStart
      return { (x.indicator .value) with spots := none :: x.spots.tail, keyAllowed := false }
    else if s.required then none
    else complexValue { x with spots := none :: x.spots.tail }
  | none => complexValue x
where
  /-- a value whose key had an indicator, or that has no key -/
  complexValue (x : Lexer) : Option Lexer := do
    let c := x.cursor
    let x ← if x.flow = 0 then
        if x.keyAllowed then x.roll? c.column x.count c.line .mappingStart else none
      else some x
    return { (x.indicator .value) with keyAllowed := x.flow = 0 }

/-- An anchor, alias or tag; it may begin a key. -/
def fetchProperty? (x : Lexer) (read : Cursor → Option (TokenKind × Cursor)) : Option Lexer := do
  let x ← x.saveSpot?
  let (kind, c) ← read x.cursor
  return { (x.push kind) with cursor := c, keyAllowed := false }

def fetchBlock? (x : Lexer) (literal : Bool) : Option Lexer := do
  let x ← x.dropSpot?
  let (content, c) ← block? literal x.indent x.cursor
  return { (x.scalarToken content false c) with keyAllowed := true }

def fetchQuoted? (x : Lexer) (single : Bool) : Option Lexer := do
  let x ← x.saveSpot?
  let (content, c) ← quoted? single x.cursor
  return { (x.scalarToken content false c) with keyAllowed := false }

def fetchPlain? (x : Lexer) : Option Lexer := do
  let x ← x.saveSpot?
  let (content, broken, c) ← plain? (0 < x.flow) x.indent x.cursor
  return { (x.scalarToken content true c) with keyAllowed := broken }

/-- Leave all blocks. -/
def reset? (x : Lexer) : Option Lexer := do
  let x ← (x.unroll (-1)).dropSpot?
  return { x with keyAllowed := false }

/-- May a plain scalar begin with this character, seeing the next one? -/
def startsPlain (x : Lexer) : Bool :=
  let ch := x.cursor.peek
  let next := x.cursor.peek 1
  !(isBlankOrEnd ch ||
      [45, 63, 58, 44, 91, 93, 123, 125, 35, 38, 42, 33, 124, 62, 39, 34, 37, 64, 96].contains ch) ||
    (ch = 45 && !isBlank next) ||
    (x.flow = 0 && (ch = 63 || ch = 58) && !isBlankOrEnd next)

/-- Read the next token, and the tokens that come with it. -/
def fetch? (x : Lexer) : Option Lexer :=
  let x := toNext (x.cursor.rest.length + 1) x
  let c := x.cursor
  let x := x.unroll c.column
  let ch := c.peek
  let next := c.peek 1
  if ch = 0 then x.reset?.map fun x => x.push .streamEnd
  else if c.column = 0 && ch = 37 then do
    let x ← x.reset?
    let (kind, c) ← directive? c.skip
    return { (x.push kind) with cursor := c }
  else if c.atMarker 45 then x.reset?.map fun x => x.indicator .documentStart 3
  else if c.atMarker 46 then x.reset?.map fun x => x.indicator .documentEnd 3
  else if ch = 91 then x.openFlow? .flowListStart
  else if ch = 123 then x.openFlow? .flowMappingStart
  else if ch = 93 then x.closeFlow? .flowListEnd
  else if ch = 125 then x.closeFlow? .flowMappingEnd
  else if ch = 44 then
    x.dropSpot?.map fun x => { (x.indicator .comma) with keyAllowed := true }
  else if ch = 45 && isBlankOrEnd next then x.fetchEntry?
  else if ch = 63 && (0 < x.flow || isBlankOrEnd next) then x.fetchKey?
  else if ch = 58 && (0 < x.flow || isBlankOrEnd next) then x.fetchValue?
  else if ch = 42 then
    x.fetchProperty? fun c => (name? c.skip).map fun (n, c) => (.aliasOf n, c)
  else if ch = 38 then
    x.fetchProperty? fun c => (name? c.skip).map fun (n, c) => (.anchor n, c)
  else if ch = 33 then
    x.fetchProperty? fun c => (tag? c).map fun (h, s, c) => (.tag h s, c)
  else if ch = 124 && x.flow = 0 then x.fetchBlock? true
  else if ch = 62 && x.flow = 0 then x.fetchBlock? false
  else if ch = 39 then x.fetchQuoted? true
  else if ch = 34 then x.fetchQuoted? false
  else if x.startsPlain then x.fetchPlain?
  else none

/-- Read tokens up to the end of the stream; the flag tells that there was no fault. -/
def run : (fuel : Nat) → Lexer → Lexer × Bool
  | 0, x => (x, false)
  | fuel + 1, x =>
    match x.fetch? with
    | none => (x, false)
    | some x =>
      match x.tokens with
      | ⟨_, .streamEnd⟩ :: _ => (x, true)
      | _ => run fuel x

end Lexer

/-- The tokens of a stream, and whether they reach its end. -/
def lex (cs : List Nat) : List Token × Bool :=
  let (x, sound) := Lexer.run (cs.length + 2) { cursor := { rest := cs } }
  (x.tokens.reverse, sound)

end Yaml

end RuleLang
