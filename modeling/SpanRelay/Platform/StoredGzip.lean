import SpanRelay.Platform.Crc32

/-!
Gzip members made of stored blocks, and the reader of such members. Packing is left to whoever sets
up an encoder; this is the plainest way to do it, and nothing but the codec made of it knows of it.
-/
namespace SpanRelay.StoredGzip

def blockSize : Nat := 65535

/-- Magic number, deflate, no flags, no time, no extra flags, unknown system. -/
def header : Bytes := [0x1f, 0x8b, 8, 0, 0, 0, 0, 0, 0, 255]

def littleEndian : Nat → Nat → Bytes
  | 0, _ => []
  | width + 1, n => UInt8.ofNat (n % 256) :: littleEndian width (n / 256)

def ofLittleEndian (bytes : Bytes) : Nat := bytes.foldr (fun b n => b.toNat + 256 * n) 0

def storedBlock (last : Bool) (data : Bytes) : Bytes :=
  (if last then 1 else 0) :: littleEndian 2 data.length ++
    littleEndian 2 (65535 - data.length) ++ data

/-- Stored blocks for the data; `full` of them are followed by another. -/
def storedBlocks : Nat → Bytes → Bytes
  | 0, data => storedBlock true data
  | full + 1, data =>
    storedBlock false (data.take blockSize) ++ storedBlocks full (data.drop blockSize)

def trailer (data : Bytes) : Bytes :=
  littleEndian 4 (Crc32.checksum data).toNat ++ littleEndian 4 (data.length % UInt32.size)

def pack (data : Bytes) : Bytes :=
  header ++ storedBlocks ((data.length - 1) / blockSize) data ++ trailer data

/-- Data of the stored blocks at the front, and what follows the last of them. -/
def unstore : Nat → Bytes → Option (Bytes × Bytes)
  | 0, _ => none
  | fuel + 1, kind :: lo :: hi :: clo :: chi :: rest =>
    let size := ofLittleEndian [lo, hi]
    if 1 < kind ∨ ofLittleEndian [clo, chi] + size ≠ 65535 ∨ rest.length < size then none
    else if kind = 1 then some (rest.take size, rest.drop size)
    else (unstore fuel (rest.drop size)).map fun (data, after) => (rest.take size ++ data, after)
  | _ + 1, _ => none

def unpack? (bytes : Bytes) : Option Bytes :=
  if bytes.take 10 = header then
    match unstore bytes.length (bytes.drop 10) with
    | some (data, after) => if after = trailer data then some data else none
    | none => none
  else none

end SpanRelay.StoredGzip
