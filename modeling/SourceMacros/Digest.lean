-- Content digests: SHA-256, written in lower-case hexadecimal digits.
namespace SourceMacros

namespace Digest

/-- The round constants. -/
def roundConstants : List UInt32 := [
  0x428a2f98, 0x71374491, 0xb5c0fbcf, 0xe9b5dba5, 0x3956c25b, 0x59f111f1, 0x923f82a4, 0xab1c5ed5,
  0xd807aa98, 0x12835b01, 0x243185be, 0x550c7dc3, 0x72be5d74, 0x80deb1fe, 0x9bdc06a7, 0xc19bf174,
  0xe49b69c1, 0xefbe4786, 0x0fc19dc6, 0x240ca1cc, 0x2de92c6f, 0x4a7484aa, 0x5cb0a9dc, 0x76f988da,
  0x983e5152, 0xa831c66d, 0xb00327c8, 0xbf597fc7, 0xc6e00bf3, 0xd5a79147, 0x06ca6351, 0x14292967,
  0x27b70a85, 0x2e1b2138, 0x4d2c6dfc, 0x53380d13, 0x650a7354, 0x766a0abb, 0x81c2c92e, 0x92722c85,
  0xa2bfe8a1, 0xa81a664b, 0xc24b8b70, 0xc76c51a3, 0xd192e819, 0xd6990624, 0xf40e3585, 0x106aa070,
  0x19a4c116, 0x1e376c08, 0x2748774c, 0x34b0bcb5, 0x391c0cb3, 0x4ed8aa4a, 0x5b9cca4f, 0x682e6ff3,
  0x748f82ee, 0x78a5636f, 0x84c87814, 0x8cc70208, 0x90befffa, 0xa4506ceb, 0xbef9a3f7, 0xc67178f2]

/-- The eight words that are carried from block to block. -/
structure State where
  a : UInt32
  b : UInt32
  c : UInt32
  d : UInt32
  e : UInt32
  f : UInt32
  g : UInt32
  h : UInt32

/-- The words before the first block. -/
def start : State where
  a := 0x6a09e667
  b := 0xbb67ae85
  c := 0x3c6ef372
  d := 0xa54ff53a
  e := 0x510e527f
  f := 0x9b05688c
  g := 0x1f83d9ab
  h := 0x5be0cd19

def rotateRight (x : UInt32) (n : UInt32) : UInt32 := (x >>> n) ||| (x <<< (32 - n))

/-- The four bytes of a word from an offset on, the highest first. -/
def wordAt (bytes : ByteArray) (offset : Nat) : UInt32 :=
  (bytes.get! offset).toUInt32 <<< 24 ||| (bytes.get! (offset + 1)).toUInt32 <<< 16 |||
    (bytes.get! (offset + 2)).toUInt32 <<< 8 ||| (bytes.get! (offset + 3)).toUInt32

/-- The message padded to whole blocks: a one bit, zeros, and the length in bits. -/
def pad (message : ByteArray) : ByteArray :=
  let zeros := (119 - message.size % 64) % 64
  let bits := message.size * 8
  let length := (List.range 8).map fun i => UInt8.ofNat (bits >>> (8 * (7 - i)))
  ⟨message.data ++ #[0x80] ++ Array.replicate zeros 0 ++ length.toArray⟩

/-- The next word of the schedule. -/
def nextWord (words : Array UInt32) (i : Nat) : UInt32 :=
  let x := words[i - 15]?.getD 0
  let y := words[i - 2]?.getD 0
  let low := rotateRight x 7 ^^^ rotateRight x 18 ^^^ (x >>> 3)
  let high := rotateRight y 17 ^^^ rotateRight y 19 ^^^ (y >>> 10)
  words[i - 16]?.getD 0 + low + words[i - 7]?.getD 0 + high

/-- The sixty-four words of a block: sixteen from the message, the others from those before them. -/
def schedule (bytes : ByteArray) (offset : Nat) : Array UInt32 :=
  let first := ((List.range 16).map fun i => wordAt bytes (offset + 4 * i)).toArray
  (List.range 48).foldl (fun words i => words.push (nextWord words (i + 16))) first

/-- One round with its constant and its word of the schedule. -/
def round (s : State) (k word : UInt32) : State :=
  let high := rotateRight s.e 6 ^^^ rotateRight s.e 11 ^^^ rotateRight s.e 25
  let choice := (s.e &&& s.f) ^^^ (~~~s.e &&& s.g)
  let one := s.h + high + choice + k + word
  let low := rotateRight s.a 2 ^^^ rotateRight s.a 13 ^^^ rotateRight s.a 22
  let majority := (s.a &&& s.b) ^^^ (s.a &&& s.c) ^^^ (s.b &&& s.c)
  { a := one + (low + majority), b := s.a, c := s.b, d := s.c, e := s.d + one, f := s.e, g := s.f,
    h := s.g }

/-- The words after one block. -/
def compress (bytes : ByteArray) (s : State) (offset : Nat) : State :=
  let r := (roundConstants.zip (schedule bytes offset).toList).foldl
    (fun s (k, word) => round s k word) s
  { a := s.a + r.a, b := s.b + r.b, c := s.c + r.c, d := s.d + r.d, e := s.e + r.e, f := s.f + r.f,
    g := s.g + r.g, h := s.h + r.h }

/-- A word in eight hexadecimal digits. -/
def hexWord (w : UInt32) : String :=
  String.ofList ((List.range 8).map fun i => Nat.digitChar (w.toNat >>> (4 * (7 - i)) % 16))

/-- The digest of a content. -/
def ofContent (content : ByteArray) : String :=
  let bytes := pad content
  let s := (List.range (bytes.size / 64)).foldl (fun s i => compress bytes s (64 * i)) start
  String.join ([s.a, s.b, s.c, s.d, s.e, s.f, s.g, s.h].map hexWord)

end Digest

end SourceMacros
