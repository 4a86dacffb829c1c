import RuleLang.Text.Document
import RuleLang.Text.Columns
import RuleLang.Indent.Classify

/-!
# RuleLang.Editor.Span

Coloured spans of a rule document. Keys are keywords if the catalog knows them and properties
otherwise; severities and languages are coloured only as values of their own keys, where a list of
languages may go on over several lines; metavariables and comments are coloured everywhere.

Spans are found in byte columns (`spans`), moved to UTF-16 columns (`toUtf16`), and sent to
editors as differences (`encode`).
-/

namespace RuleLang

inductive SpanKind where
  | keyword
  | property
  | enumMember
  | typeName
  | variableName
  | comment
deriving Repr, DecidableEq

namespace SpanKind

/-- All kinds, in the order of their codes. -/
def legend : List SpanKind := [keyword, property, enumMember, typeName, variableName, comment]

def code : SpanKind → Nat
  | keyword => 0
  | property => 1
  | enumMember => 2
  | typeName => 3
  | variableName => 4
  | comment => 5

def name : SpanKind → Text
  | keyword => txt "keyword"
  | property => txt "property"
  | enumMember => txt "enumMember"
  | typeName => txt "type"
  | variableName => txt "variable"
  | comment => txt "comment"

end SpanKind

structure Span where
  line : Nat
  start : Nat
  length : Nat
  kind : SpanKind
deriving Repr, DecidableEq

/-! ## Parts of a line -/

def isSpaceOrTab (b : UInt8) : Bool := b = 32 || b = 9

/-- A byte of a word: letter, digit, underscore or dollar sign. -/
def isWordByte (b : UInt8) : Bool :=
  Text.isLetter b || Text.isDigit b || b = 95 || b = 36

/-- A byte of a key: letter, digit, underscore or dash. -/
def isKeyByte (b : UInt8) : Bool :=
  Text.isLetter b || Text.isDigit b || b = 95 || b = 45

/-- A capital letter or an underscore. -/
def isMetavarStart (b : UInt8) : Bool := Text.isUpper b || b = 95

def isMetavarByte (b : UInt8) : Bool := isMetavarStart b || Text.isDigit b

/-- What stands before the comment, and the comment. `quote` is the quotation mark that is open;
`fresh` tells that the text before ends in a blank, or that there is none. -/
def splitCommentFrom : (quote : Option UInt8) → (fresh : Bool) → Text → Text × Text
  | _, _, [] => ([], [])
  | some q, _, b :: t =>
    let (body, comment) :=
      splitCommentFrom (if b = q then none else some q) (isSpaceOrTab b) t
    (b :: body, comment)
  | none, fresh, b :: t =>
    if b = 35 && fresh then ([], b :: t)
    else
      let (body, comment) :=
        splitCommentFrom (if b = 34 || b = 39 then some b else none) (isSpaceOrTab b) t
      (b :: body, comment)

/-- Separate a comment: it begins at a `#` outside quotation marks, at the start or after a
blank. -/
def splitComment (s : Text) : Text × Text := splitCommentFrom none true s

/-- A key and its value, with the byte offsets at which they begin. -/
structure KeyValue where
  key : Text
  keyOffset : Nat
  value : Text
  valueOffset : Nat
deriving Repr, DecidableEq

/-- The `key:` at the start of a body, after an optional `- `. The colon ends the body or is
followed by a blank. -/
def splitKey? (body : Text) : Option KeyValue :=
  let offset := if body.startsWith (txt "- ") then 2 else 0
  let rest := body.drop offset
  let key := rest.takeWhile isKeyByte
  match rest.drop key.length with
  | 58 :: value =>
    if key.isEmpty || !(value.head?.all isSpaceOrTab) then none
    else some ⟨key, offset, value, offset + key.length + 1⟩
  | _ => none

/-- The maximal runs of bytes that satisfy `p`, each with its offset; `skip` bytes still belong to
the last run. -/
def runsFrom (p : UInt8 → Bool) : (pos skip : Nat) → Text → List (Nat × Text)
  | _, _, [] => []
  | pos, skip + 1, _ :: t => runsFrom p (pos + 1) skip t
  | pos, 0, b :: t =>
    if p b then
      let run := b :: t.takeWhile p
      (pos, run) :: runsFrom p (pos + 1) (run.length - 1) t
    else runsFrom p (pos + 1) 0 t

/-- The words of a text with their offsets. -/
def words (t : Text) : List (Nat × Text) := runsFrom isWordByte 0 0 t

/-- Metavariables: a dollar sign, a capital or underscore, then capitals, digits and
underscores. -/
def metavarsFrom : (pos skip : Nat) → Text → List (Nat × Text)
  | _, _, [] => []
  | pos, skip + 1, _ :: t => metavarsFrom (pos + 1) skip t
  | pos, 0, b :: t =>
    if b = 36 && t.head?.any isMetavarStart then
      let run := b :: t.takeWhile isMetavarByte
      (pos, run) :: metavarsFrom (pos + 1) (run.length - 1) t
    else metavarsFrom (pos + 1) 0 t

def metavars (t : Text) : List (Nat × Text) := metavarsFrom 0 0 t

/-! ## Spans of a document -/

namespace Span

/-- Spans of the words that a test accepts, in a text that begins at byte `base`. -/
def ofWords (line base : Nat) (kind : SpanKind) (accept : Text → Bool) (t : Text) : List Span :=
  (words t).filterMap fun (i, w) =>
    if accept w then some ⟨line, base + i, w.length, kind⟩ else none

/-- The spans of a line with a body, and whether a list of languages is open after it. -/
def ofBody (c : Catalog) (inLanguages : Bool) (line base : Nat) (body : Text) :
    List Span × Bool :=
  let kv := splitKey? body
  let keySpan := match kv with
    | some kv =>
      [⟨line, base + kv.keyOffset, kv.key.length,
        if (c.match? body).isSome then SpanKind.keyword else .property⟩]
    | none => []
  let (valueSpans, inLanguages) := match kv with
    | some kv =>
      if kv.key = txt "severity" then
        (ofWords line (base + kv.valueOffset) .enumMember c.isSeverity kv.value, false)
      else if kv.key = txt "languages" then
        (ofWords line (base + kv.valueOffset) .typeName c.isLanguage kv.value, true)
      else ([], false)
    | none =>
      if inLanguages && body.startsWith [45] then
        (ofWords line (base + 1) .typeName c.isLanguage (body.drop 1), true)
      else ([], false)
  let metaSpans := (metavars body).map fun (i, m) => ⟨line, base + i, m.length, .variableName⟩
  (keySpan ++ valueSpans ++ metaSpans, inLanguages)

/-- The spans of a line in order of their start, and whether a list of languages is open after
it. -/
def ofLine (c : Catalog) (inLanguages : Bool) (l : Line) : List Span × Bool :=
  if l.trimmed.isEmpty then ([], inLanguages)
  else
    let base := l.raw.length - l.trimmed.length
    let (body, comment) := splitComment l.trimmed
    let commentSpan : List Span :=
      if comment.isEmpty then [] else [⟨l.index, base + body.length, comment.length, .comment⟩]
    if body.isEmpty then (commentSpan, inLanguages)
    else
      let (rest, inLanguages) := ofBody c inLanguages l.index base body
      ((commentSpan ++ rest).mergeSort (fun a b => a.start ≤ b.start), inLanguages)

def ofLines (c : Catalog) : (inLanguages : Bool) → List Line → List Span
  | _, [] => []
  | inLanguages, l :: ls =>
    let (spans, inLanguages) := ofLine c inLanguages l
    spans ++ ofLines c inLanguages ls

/-- The spans of a document, in byte columns. -/
def ofText (c : Catalog) (t : Text) : List Span :=
  ofLines c false (Line.classifyAll c t.lines)

/-- The span in UTF-16 columns of its line. -/
def toUtf16 (lines : List Text) (s : Span) : Span :=
  match lines[s.line]? with
  | none => s
  | some line =>
    let start := line.utf16Col s.start
    { s with start, length := line.utf16Col (s.start + s.length) - start }

/-- Five numbers for a span: lines after the line of the span before, columns after that span's
start (or from the line's start on a new line), length, kind, and no modifiers. -/
def delta (line start : Nat) (s : Span) : List UInt32 :=
  let lineDelta : Int := s.line - line
  let startDelta : Int := if lineDelta = 0 then s.start - start else s.start
  [UInt32.ofInt lineDelta, UInt32.ofInt startDelta, UInt32.ofNat s.length,
    UInt32.ofNat s.kind.code, 0]

def encodeFrom : (line start : Nat) → List Span → List UInt32
  | _, _, [] => []
  | line, start, s :: ss => delta line start s ++ encodeFrom s.line s.start ss

/-- The numbers that an editor receives. -/
def encode (ss : List Span) : List UInt32 := encodeFrom 0 0 ss

/-- The numbers for a whole document. -/
def tokens (c : Catalog) (t : Text) : List UInt32 :=
  encode ((ofText c t).map (toUtf16 t.lines))

end Span

end RuleLang
