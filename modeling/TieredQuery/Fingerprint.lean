import TieredQuery.Digest.Sha256
import TieredQuery.Text.Hex

/-!
# Fingerprints of query texts

A query is known by the SHA-256 digest of its exact text. Nothing is normalised: two texts that
differ in a blank or in the case of a letter have fingerprints of their own.
-/

namespace TieredQuery

/-- The identity of a query text. -/
structure Fingerprint where
  bytes : Vector UInt8 32
deriving DecidableEq

namespace Fingerprint

/-- The fingerprint of a query text: the digest of its UTF-8 bytes. -/
def ofText (text : String) : Fingerprint := ⟨Sha256.digest text.toUTF8.data.toList⟩

/-- Sixty-four lowercase hexadecimal digits. -/
def hex (f : Fingerprint) : String := Text.Hex.bytes f.bytes.toList

instance : ToString Fingerprint := ⟨hex⟩

/-- The diagnostic text of a fingerprint. -/
def describe (f : Fingerprint) : String := "CacheKey(" ++ f.hex ++ ")"

end Fingerprint
end TieredQuery
