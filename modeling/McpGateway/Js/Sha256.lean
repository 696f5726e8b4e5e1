import McpGateway.Js.Json

/-!
# SHA-256 of a string

`createHash('sha256').update(input, 'utf8').digest('hex')`. The text is encoded
as UTF-8, an unpaired surrogate as the replacement character, and the digest is
printed in lower-case hexadecimal. The laws of the chain rest on the shape of
the digest alone.
-/

namespace McpGateway.Js

-- ---------------------------------------------------------------------------
-- UTF-8
-- ---------------------------------------------------------------------------

def utf8CodePoint (n : Nat) : List UInt8 :=
  if n < 0x80 then [.ofNat n]
  else if n < 0x800 then [.ofNat (0xC0 + n / 0x40), .ofNat (0x80 + n % 0x40)]
  else if n < 0x10000 then
    [.ofNat (0xE0 + n / 0x1000), .ofNat (0x80 + n / 0x40 % 0x40), .ofNat (0x80 + n % 0x40)]
  else
    [.ofNat (0xF0 + n / 0x40000), .ofNat (0x80 + n / 0x1000 % 0x40),
      .ofNat (0x80 + n / 0x40 % 0x40), .ofNat (0x80 + n % 0x40)]

def utf8Unit (c : CodeUnit) : List UInt8 :=
  utf8CodePoint (if isHighSurrogate c || isLowSurrogate c then 0xFFFD else c.toNat)

def utf8 : JsString → List UInt8
  | [] => []
  | [c] => utf8Unit c
  | c :: d :: s =>
    if isHighSurrogate c && isLowSurrogate d then
      utf8CodePoint (0x10000 + (c.toNat - 0xD800) * 0x400 + (d.toNat - 0xDC00)) ++ utf8 s
    else utf8Unit c ++ utf8 (d :: s)

-- ---------------------------------------------------------------------------
-- The compression function
-- ---------------------------------------------------------------------------

namespace Sha256

structure Words where
  a : UInt32
  b : UInt32
  c : UInt32
  d : UInt32
  e : UInt32
  f : UInt32
  g : UInt32
  h : UInt32

def initial : Words :=
  ⟨0x6a09e667, 0xbb67ae85, 0x3c6ef372, 0xa54ff53a, 0x510e527f, 0x9b05688c, 0x1f83d9ab, 0x5be0cd19⟩

def constants : List UInt32 :=
  [0x428a2f98, 0x71374491, 0xb5c0fbcf, 0xe9b5dba5, 0x3956c25b, 0x59f111f1, 0x923f82a4, 0xab1c5ed5,
    0xd807aa98, 0x12835b01, 0x243185be, 0x550c7dc3, 0x72be5d74, 0x80deb1fe, 0x9bdc06a7, 0xc19bf174,
    0xe49b69c1, 0xefbe4786, 0x0fc19dc6, 0x240ca1cc, 0x2de92c6f, 0x4a7484aa, 0x5cb0a9dc, 0x76f988da,
    0x983e5152, 0xa831c66d, 0xb00327c8, 0xbf597fc7, 0xc6e00bf3, 0xd5a79147, 0x06ca6351, 0x14292967,
    0x27b70a85, 0x2e1b2138, 0x4d2c6dfc, 0x53380d13, 0x650a7354, 0x766a0abb, 0x81c2c92e, 0x92722c85,
    0xa2bfe8a1, 0xa81a664b, 0xc24b8b70, 0xc76c51a3, 0xd192e819, 0xd6990624, 0xf40e3585, 0x106aa070,
    0x19a4c116, 0x1e376c08, 0x2748774c, 0x34b0bcb5, 0x391c0cb3, 0x4ed8aa4a, 0x5b9cca4f, 0x682e6ff3,
    0x748f82ee, 0x78a5636f, 0x84c87814, 0x8cc70208, 0x90befffa, 0xa4506ceb, 0xbef9a3f7, 0xc67178f2]

def rotate (x n : UInt32) : UInt32 := (x >>> n) ||| (x <<< (32 - n))

/-- The message schedule, its latest word first, extended by `n` words. -/
def extend : Nat → List UInt32 → List UInt32
  | 0, ws => ws
  | n + 1, ws =>
    let x := ws.getD 14 0
    let y := ws.getD 1 0
    let s0 := rotate x 7 ^^^ rotate x 18 ^^^ (x >>> 3)
    let s1 := rotate y 17 ^^^ rotate y 19 ^^^ (y >>> 10)
    extend n ((s1 + ws.getD 6 0 + s0 + ws.getD 15 0) :: ws)

def round (s : Words) (kw : UInt32 × UInt32) : Words :=
  let s1 := rotate s.e 6 ^^^ rotate s.e 11 ^^^ rotate s.e 25
  let ch := (s.e &&& s.f) ^^^ (~~~s.e &&& s.g)
  let t1 := s.h + s1 + ch + kw.1 + kw.2
  let s0 := rotate s.a 2 ^^^ rotate s.a 13 ^^^ rotate s.a 22
  let maj := (s.a &&& s.b) ^^^ (s.a &&& s.c) ^^^ (s.b &&& s.c)
  ⟨t1 + (s0 + maj), s.a, s.b, s.c, s.d + t1, s.e, s.f, s.g⟩

def compress (s : Words) (block : List UInt32) : Words :=
  let t := (constants.zip (extend 48 block.reverse).reverse).foldl round s
  ⟨s.a + t.a, s.b + t.b, s.c + t.c, s.d + t.d, s.e + t.e, s.f + t.f, s.g + t.g, s.h + t.h⟩

-- ---------------------------------------------------------------------------
-- Padding and blocks
-- ---------------------------------------------------------------------------

def bigEndian (width n : Nat) : List UInt8 :=
  (List.range width).map fun i => .ofNat (n / 256 ^ (width - 1 - i))

def pad (message : List UInt8) : List UInt8 :=
  message ++ 0x80 :: List.replicate ((119 - message.length % 64) % 64) 0 ++
    bigEndian 8 (message.length * 8)

def toWords : List UInt8 → List UInt32
  | a :: b :: c :: d :: bytes =>
    .ofNat (((a.toNat * 256 + b.toNat) * 256 + c.toNat) * 256 + d.toNat) :: toWords bytes
  | _ => []

/-- Compress sixteen words at a time; `n` bounds the blocks. -/
def blocks : Nat → Words → List UInt32 → Words
  | 0, s, _ => s
  | n + 1, s, ws => if ws = [] then s else blocks n (compress s (ws.take 16)) (ws.drop 16)

def digest (message : List UInt8) : Words :=
  blocks (message.length / 64 + 2) initial (toWords (pad message))

def hexWord (w : UInt32) : JsString :=
  (List.range 8).map fun i => Json.hexDigit (w.toNat / 16 ^ (7 - i) % 16)

end Sha256

open Sha256 in
/-- `sha256Hex` of the shared package. -/
def sha256Hex (input : JsString) : JsString :=
  let s := digest (utf8 input)
  [s.a, s.b, s.c, s.d, s.e, s.f, s.g, s.h].flatMap hexWord

theorem sha256Hex_length (input : JsString) : (sha256Hex input).length = 64 := rfl

def isHexUnit (c : CodeUnit) : Bool := isDigit c || (0x61 ≤ c && c ≤ 0x66)

theorem isHexUnit_hexDigit (h : n < 16) : isHexUnit (Json.hexDigit n) = true := by
  exact (by decide : ∀ n < 16, isHexUnit (Json.hexDigit n) = true) n h

theorem isHexUnit_of_mem_sha256Hex (h : c ∈ sha256Hex input) : isHexUnit c = true := by
  obtain ⟨w, -, hc⟩ := List.mem_flatMap.mp h
  obtain ⟨i, -, rfl⟩ := List.mem_map.mp hc
  exact isHexUnit_hexDigit (Nat.mod_lt _ (by decide))

end McpGateway.Js
