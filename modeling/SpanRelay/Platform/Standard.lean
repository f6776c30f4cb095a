import SpanRelay.Payload.Encoder
import SpanRelay.Platform.Sha1
import SpanRelay.Platform.StoredGzip

/-! The codec that a relay is run with: members of stored blocks, and SHA-1. -/
namespace SpanRelay

def Codec.standard : Codec := ⟨StoredGzip.pack, Sha1.digest⟩

end SpanRelay
