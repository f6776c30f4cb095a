import SpanRelay.Text.Bytes

/-! The CRC-32 checksum of a byte sequence. -/
namespace SpanRelay.Crc32

def shift (c : UInt32) : UInt32 :=
  if c &&& 1 == 1 then (c >>> 1) ^^^ 0xedb88320 else c >>> 1

def shifts : Nat → UInt32 → UInt32
  | 0, c => c
  | n + 1, c => shifts n (shift c)

def step (c : UInt32) (b : UInt8) : UInt32 := shifts 8 (c ^^^ b.toUInt32)

def checksum (data : Bytes) : UInt32 := ~~~(data.foldl step 0xffffffff)

end SpanRelay.Crc32
