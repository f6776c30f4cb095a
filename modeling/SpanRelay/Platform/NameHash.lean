import SpanRelay.Platform.Sha1

/-!
The hash by which a folder puts the names that it holds in order: MD4 with three rounds of eight
steps, over a name in pieces of 32 bytes.
-/
namespace SpanRelay.NameHash

structure Chain where
  a : UInt32
  b : UInt32
  c : UInt32
  d : UInt32
  deriving DecidableEq, Repr

def start : Chain := ⟨0x67452301, 0xefcdab89, 0x98badcfe, 0x10325476⟩

structure Round where
  mix : UInt32 → UInt32 → UInt32 → UInt32
  constant : UInt32
  /-- The words of a piece in the order in which the steps take them. -/
  order : List Nat
  /-- How far each of four steps rotates. -/
  amounts : List UInt32

def rounds : List Round :=
  [⟨fun x y z => z ^^^ (x &&& (y ^^^ z)), 0, [0, 1, 2, 3, 4, 5, 6, 7], [3, 7, 11, 19]⟩,
    ⟨fun x y z => (x &&& y) + ((x ^^^ y) &&& z), 0x5a827999, [1, 3, 5, 7, 0, 2, 4, 6],
      [3, 5, 9, 13]⟩,
    ⟨fun x y z => x ^^^ y ^^^ z, 0x6ed9eba1, [3, 7, 2, 6, 1, 5, 0, 4], [3, 9, 11, 15]⟩]

def Round.run (r : Round) (words : List UInt32) (x : Chain) : Chain :=
  (r.order.zip (r.amounts ++ r.amounts)).foldl (fun x e =>
    let sum := x.a + r.mix x.b x.c x.d + (words[e.1]?).getD 0 + r.constant
    ⟨x.d, Sha1.rotate sum e.2, x.b, x.c⟩) x

def absorb (words : List UInt32) (x : Chain) : Chain :=
  let y := rounds.foldl (fun x r => r.run words x) x
  ⟨x.a + y.a, x.b + y.b, x.c + y.c, x.d + y.d⟩

/-- A byte with its sign carried on. -/
def signed (b : UInt8) : UInt32 := if b < 0x80 then b.toUInt32 else b.toUInt32 - 0x100

/-- Up to four bytes behind what fills a word that they leave incomplete. -/
def word (filler : UInt32) (data : Bytes) : UInt32 :=
  data.foldl (fun w b => (w <<< 8) + signed b) filler

def wordsOf (filler : UInt32) : Nat → Bytes → List UInt32
  | 0, _ => []
  | n + 1, data => word filler (data.take 4) :: wordsOf filler n (data.drop 4)

/-- Each word is filled up with the length of what is left of the name. -/
def pieces : Nat → Bytes → Chain → Chain
  | 0, _, x => x
  | n + 1, data, x =>
    let filler := UInt32.ofNat data.length * 0x01010101
    pieces n (data.drop 32) (absorb (wordsOf filler 8 data) x)

/-- The place of a name among the names of a folder. -/
def rank (name : String) : Nat :=
  let data := Bytes.ofString name
  let x := pieces ((data.length + 31) / 32) data start
  (x.b >>> 1).toNat <<< 32 + x.c.toNat

end SpanRelay.NameHash
