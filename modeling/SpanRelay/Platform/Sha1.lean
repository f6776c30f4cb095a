import SpanRelay.Text.Bytes

/-! The SHA-1 digest of a byte sequence. -/
namespace SpanRelay.Sha1

structure Chain where
  a : UInt32
  b : UInt32
  c : UInt32
  d : UInt32
  e : UInt32
  deriving DecidableEq, Repr

def start : Chain := ⟨0x67452301, 0xefcdab89, 0x98badcfe, 0x10325476, 0xc3d2e1f0⟩

def rotate (x : UInt32) (n : UInt32) : UInt32 := (x <<< n) ||| (x >>> (32 - n))

/-- The length in bits as eight bytes, after a one bit and zeros up to a multiple of 64 bytes. -/
def padding (length : Nat) : Bytes :=
  let filler : Bytes := 0x80 :: List.replicate ((119 - length % 64) % 64) 0
  filler ++ (List.range 8).map fun i => UInt8.ofNat ((length * 8) >>> (8 * (7 - i)))

def word (block : Bytes) : UInt32 :=
  block.foldl (fun w b => (w <<< 8) ||| b.toUInt32) 0

/-- The next schedule word from the last sixteen, oldest first. -/
def nextWord (window : List UInt32) : UInt32 :=
  match window with
  | w0 :: _ :: w2 :: _ :: _ :: _ :: _ :: _ :: w8 :: _ :: _ :: _ :: _ :: w13 :: _ =>
    rotate (w13 ^^^ w8 ^^^ w2 ^^^ w0) 1
  | _ => 0

def mix (round : Nat) (x : Chain) : UInt32 :=
  if round < 20 then ((x.b &&& x.c) ||| (~~~x.b &&& x.d)) + 0x5a827999
  else if round < 40 then (x.b ^^^ x.c ^^^ x.d) + 0x6ed9eba1
  else if round < 60 then ((x.b &&& x.c) ||| (x.b &&& x.d) ||| (x.c &&& x.d)) + 0x8f1bbcdc
  else (x.b ^^^ x.c ^^^ x.d) + 0xca62c1d6

def rounds : Nat → Nat → List UInt32 → Chain → Chain
  | 0, _, _, x => x
  | left + 1, round, window, x =>
    let head := rotate x.a 5 + mix round x + x.e + window.headD 0
    rounds left (round + 1) (window.tail ++ [nextWord window]) ⟨head, x.a, rotate x.b 30, x.c, x.d⟩

def wordsOf : Nat → Bytes → List UInt32
  | 0, _ => []
  | n + 1, block => word (block.take 4) :: wordsOf n (block.drop 4)

def compress (x : Chain) (block : Bytes) : Chain :=
  let y := rounds 80 0 (wordsOf 16 block) x
  ⟨x.a + y.a, x.b + y.b, x.c + y.c, x.d + y.d, x.e + y.e⟩

def blocks : Nat → Bytes → Chain → Chain
  | 0, _, x => x
  | n + 1, data, x => blocks n (data.drop 64) (compress x (data.take 64))

def wordBytes (w : UInt32) : Bytes :=
  [(w >>> 24).toUInt8, (w >>> 16).toUInt8, (w >>> 8).toUInt8, w.toUInt8]

def digest (data : Bytes) : Bytes :=
  let padded := data ++ padding data.length
  let x := blocks (padded.length / 64) padded start
  wordBytes x.a ++ wordBytes x.b ++ wordBytes x.c ++ wordBytes x.d ++ wordBytes x.e

end SpanRelay.Sha1
