import SpendScript.Digest.Sha256

/-!
# HMAC with SHA-256

A keyed hash over blocks of 64 bytes: the message is hashed under one mask of the key and the result
under another.
-/

namespace SpendScript.Digest

/-- A key of more than one block is hashed first; then zeros fill it up to a block. -/
def hmacBlock (key : Bytes) : Bytes :=
  let short := if 64 < key.length then sha256 key else key
  short ++ List.replicate (64 - short.length) 0

/-- The keyed hash of a message. -/
def hmacSha256 (key message : Bytes) : Bytes :=
  let block := hmacBlock key
  let inner := sha256 (block.map (· ^^^ 0x36) ++ message)
  sha256 (block.map (· ^^^ 0x5c) ++ inner)

theorem hmacSha256_length (key message : Bytes) : (hmacSha256 key message).length = 32 :=
  sha256_length _

end SpendScript.Digest
