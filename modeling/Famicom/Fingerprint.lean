/-!
# Fingerprints

The 64-bit FNV-1a digest over a sequence of words: each word is mixed into the running value by
exclusive or, which is then multiplied by an odd constant. Both steps can be undone, so the digest
depends on every word and on their order.
-/

namespace Famicom.Fingerprint

/-- The digest of the empty sequence. -/
def basis : UInt64 := 0xcbf29ce484222325

/-- The odd multiplier. -/
def prime : UInt64 := 0x100000001b3

/-- Mixes one more word in. -/
def mix (digest word : UInt64) : UInt64 := (digest ^^^ word) * prime

/-- The digest of a sequence of bytes. -/
def ofBytes (bytes : Array UInt8) : UInt64 :=
  bytes.foldl (fun digest b ↦ mix digest b.toUInt64) basis

/-- The digest of a sequence of 32-bit words. -/
def ofWords (words : Array UInt32) : UInt64 :=
  words.foldl (fun digest w ↦ mix digest w.toUInt64) basis

end Famicom.Fingerprint
