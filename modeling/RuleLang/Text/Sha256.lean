import RuleLang.Text.Basic

/-!
# RuleLang.Text.Sha256

The SHA-256 digest of a text: the text is padded to whole blocks of sixteen words, and every block
stirs eight words of state in sixty-four rounds.
-/

namespace RuleLang

namespace Sha256

/-- The words that go from block to block. -/
structure State where
  a : UInt32
  b : UInt32
  c : UInt32
  d : UInt32
  e : UInt32
  f : UInt32
  g : UInt32
  h : UInt32
deriving Repr, DecidableEq

namespace State

def initial : State :=
  ⟨0x6a09e667, 0xbb67ae85, 0x3c6ef372, 0xa54ff53a, 0x510e527f, 0x9b05688c, 0x1f83d9ab, 0x5be0cd19⟩

def add (s t : State) : State :=
  ⟨s.a + t.a, s.b + t.b, s.c + t.c, s.d + t.d, s.e + t.e, s.f + t.f, s.g + t.g, s.h + t.h⟩

def words (s : State) : List UInt32 := [s.a, s.b, s.c, s.d, s.e, s.f, s.g, s.h]

end State

def roundConstants : List UInt32 := [
  0x428a2f98, 0x71374491, 0xb5c0fbcf, 0xe9b5dba5,
  0x3956c25b, 0x59f111f1, 0x923f82a4, 0xab1c5ed5,
  0xd807aa98, 0x12835b01, 0x243185be, 0x550c7dc3,
  0x72be5d74, 0x80deb1fe, 0x9bdc06a7, 0xc19bf174,
  0xe49b69c1, 0xefbe4786, 0x0fc19dc6, 0x240ca1cc,
  0x2de92c6f, 0x4a7484aa, 0x5cb0a9dc, 0x76f988da,
  0x983e5152, 0xa831c66d, 0xb00327c8, 0xbf597fc7,
  0xc6e00bf3, 0xd5a79147, 0x06ca6351, 0x14292967,
  0x27b70a85, 0x2e1b2138, 0x4d2c6dfc, 0x53380d13,
  0x650a7354, 0x766a0abb, 0x81c2c92e, 0x92722c85,
  0xa2bfe8a1, 0xa81a664b, 0xc24b8b70, 0xc76c51a3,
  0xd192e819, 0xd6990624, 0xf40e3585, 0x106aa070,
  0x19a4c116, 0x1e376c08, 0x2748774c, 0x34b0bcb5,
  0x391c0cb3, 0x4ed8aa4a, 0x5b9cca4f, 0x682e6ff3,
  0x748f82ee, 0x78a5636f, 0x84c87814, 0x8cc70208,
  0x90befffa, 0xa4506ceb, 0xbef9a3f7, 0xc67178f2]

def rotateRight (x n : UInt32) : UInt32 := (x >>> n) ||| (x <<< (32 - n))

def choose (x y z : UInt32) : UInt32 := (x &&& y) ^^^ (~~~x &&& z)

def majority (x y z : UInt32) : UInt32 := (x &&& y) ^^^ (x &&& z) ^^^ (y &&& z)

/-- Three rotations of a word, combined. -/
def mix (i j k x : UInt32) : UInt32 := rotateRight x i ^^^ rotateRight x j ^^^ rotateRight x k

/-- Two rotations and a shift of a word, combined. -/
def spread (i j k x : UInt32) : UInt32 := rotateRight x i ^^^ rotateRight x j ^^^ (x >>> k)

/-- One round with its constant and its word of the schedule. -/
def round (s : State) (constant word : UInt32) : State :=
  let t1 := s.h + mix 6 11 25 s.e + choose s.e s.f s.g + constant + word
  let t2 := mix 2 13 22 s.a + majority s.a s.b s.c
  ⟨t1 + t2, s.a, s.b, s.c, s.d + t1, s.e, s.f, s.g⟩

/-- The next `n` words of the schedule. `window` holds the sixteen words from the next one on. -/
def schedule : (n : Nat) → (window : List UInt32) → List UInt32
  | 0, _ => []
  | _ + 1, [] => []
  | n + 1, w :: window =>
    let new := spread 17 19 10 (window.getD 13 0) + window.getD 8 0 +
      spread 7 18 3 (window.getD 0 0) + w
    w :: schedule n (window ++ [new])

/-- Take a block of sixteen words into the state. -/
def compress (s : State) (block : List UInt32) : State :=
  let rounds := roundConstants.zip (schedule 64 block)
  s.add (rounds.foldl (fun s (constant, word) => round s constant word) s)

def compressAll : (blocks : Nat) → State → List UInt32 → State
  | 0, s, _ => s
  | n + 1, s, ws => compressAll n (compress s (ws.take 16)) (ws.drop 16)

/-- Four bytes are a word, the highest byte first. -/
def wordsOf : Text → List UInt32
  | a :: b :: c :: d :: t =>
    (a.toUInt32 <<< 24 ||| b.toUInt32 <<< 16 ||| c.toUInt32 <<< 8 ||| d.toUInt32) :: wordsOf t
  | _ => []

def bytesOf (w : UInt32) : Text :=
  [(w >>> 24).toUInt8, (w >>> 16).toUInt8, (w >>> 8).toUInt8, w.toUInt8]

/-- The text, a single bit, zeros up to the end of a block, and the number of bits. -/
def pad (t : Text) : Text :=
  let bits := 8 * t.length
  t ++ [0x80] ++ List.replicate ((119 - t.length % 64) % 64) 0 ++
    bytesOf (UInt32.ofNat (bits / 0x100000000)) ++ bytesOf (UInt32.ofNat bits)

end Sha256

open Sha256 in
/-- The digest of a text, 32 bytes. -/
def Text.sha256 (t : Text) : Text :=
  let ws := wordsOf (pad t)
  (compressAll (ws.length / 16) .initial ws).words.flatMap bytesOf

example : ((txt "abc").sha256.take 8, (txt "abc").sha256.drop 24) =
    ([0xba, 0x78, 0x16, 0xbf, 0x8f, 0x01, 0xcf, 0xea],
      [0xb4, 0x10, 0xff, 0x61, 0xf2, 0x00, 0x15, 0xad]) := by
  decide +kernel

end RuleLang
