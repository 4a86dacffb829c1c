import RuleLang.Text.Blank
import RuleLang.Text.Quoted
import RuleLang.Numeral.Integer

/-!
# RuleLang.Server.Frame

The framing of messages in a byte stream: header lines, an empty line, and a body whose length
the `Content-Length` header gives. Lines end at a line feed, carriage returns before it do not
count, header names are compared without regard to case, and of several lengths the last counts.
-/

namespace RuleLang

/-- Why a stream of frames cannot be read on. -/
inductive FrameError where
  | missingLength
  | badLength (value : Text) (fault : NumeralFault)
  /-- the stream ends within a body -/
  | truncated
deriving Repr, DecidableEq

namespace FrameError

def message : FrameError → Text
  | missingLength => txt "missing Content-Length header"
  | badLength v f =>
    txt "invalid Content-Length " ++ v.quote ++ txt ": strconv.Atoi: parsing " ++ v.quote ++
      txt ": " ++ f.message
  | truncated => txt "unexpected EOF"

end FrameError

namespace Frame

/-- What the header lines say so far: the length, a fault, or that there are lines to come. -/
inductive Head where
  | incomplete
  | faulty (e : FrameError)
  | complete (length : Nat) (rest : Text)
deriving Repr, DecidableEq

/-- The value of a `Content-Length` header line. -/
def lengthValue? (line : Text) : Option Text :=
  let name := txt "content-length:"
  if (line.take name.length).map Text.lowerByte = name then some (Text.trim (line.drop name.length))
  else none

/-- Read header lines; `length` is the last length seen. Each line takes at least one byte, so
`fuel` need not exceed the number of bytes. -/
def readHead : (fuel : Nat) → (length : Option Int) → Text → Head
  | 0, _, _ => .incomplete
  | fuel + 1, length, t =>
    let line := t.takeWhile (· ≠ 10)
    match t.drop line.length with
    | [] => .incomplete
    | _ :: rest =>
      let line := (line.reverse.dropWhile (· = 13)).reverse
      if line.isEmpty then
        match length with
        | some (.ofNat n) => .complete n rest
        | _ => .faulty .missingLength
      else match lengthValue? line with
        | none => readHead fuel length rest
        | some v =>
          match Numeral.decimal? v with
          | .ok n => readHead fuel (some n) rest
          | .error f => .faulty (.badLength v f)

/-- The first frame of a stream. -/
inductive First where
  /-- a complete frame: its body and the stream after it -/
  | frame (body rest : Text)
  /-- more bytes are needed; `inBody` tells that the body has begun to arrive -/
  | wait (inBody : Bool)
  | faulty (e : FrameError)
deriving Repr, DecidableEq

def first (t : Text) : First :=
  match readHead t.length none t with
  | .incomplete => .wait false
  | .faulty e => .faulty e
  | .complete n rest =>
    let body := rest.take n
    if body.length = n then .frame body (rest.drop n) else .wait (!body.isEmpty)

/-- How a stream goes on after its complete frames. -/
inductive Tail where
  | wait (rest : Text) (inBody : Bool)
  | faulty (e : FrameError)
deriving Repr, DecidableEq

/-- The bodies of the complete frames, and what is left; `fuel` bounds their number. -/
def splitFrom : (fuel : Nat) → Text → List Text × Tail
  | 0, t => ([], .wait t false)
  | fuel + 1, t =>
    match first t with
    | .frame body rest =>
      let (bodies, tail) := splitFrom fuel rest
      (body :: bodies, tail)
    | .wait inBody => ([], .wait t inBody)
    | .faulty e => ([], .faulty e)

/-- Cut a stream into the bodies of its frames. Every frame takes at least one byte. -/
def split (t : Text) : List Text × Tail := splitFrom (t.length + 1) t

/-- How many bytes can be taken from a stream, after the pending ones, without passing the end of
the frame: one of a header, all that are missing of a body. -/
def wanted (pending : Text) : Nat :=
  match readHead pending.length none pending with
  | .complete n rest => max 1 (n - rest.length)
  | _ => 1

/-- The header in front of a body. -/
def header (body : Text) : Text :=
  txt "Content-Length: " ++ Text.ofNat body.length ++ txt "\r\n\r\n"

end Frame

end RuleLang
