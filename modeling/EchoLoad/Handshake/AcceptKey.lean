import EchoLoad.Digest.Sha1
import EchoLoad.Text.Base64
import EchoLoad.Text.Utf8

/-!
# Keys of the opening handshake

The client sends a key, sixteen random bytes in Base64; the server proves that it speaks the
protocol by sending back `acceptKey` of it.
-/

namespace EchoLoad.Handshake

/-- The identifier that RFC 6455 appends to the key. -/
def guid : String := "258EAFA5-E914-47DA-95CA-C5AB0DC85B11"

/-- Base64 of the SHA-1 digest of the key and the identifier. -/
def acceptKey (key : String) : String :=
  String.ofList (Base64.encode (Sha1.digest (Utf8.encode (key.toList ++ guid.toList))))

/-- The key made of sixteen random bytes. -/
def keyOf (random : Bytes) : String := String.ofList (Base64.encode random)

end EchoLoad.Handshake
