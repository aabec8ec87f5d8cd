import SpendScript.Digest.Ripemd160
import SpendScript.Digest.Sha1
import SpendScript.Digest.Sha256
import SpendScript.Text.Hex

/-!
# Hash values

Digests of a fixed width and the two compositions that scripts and keys are named by.

* `Hash width`: a byte string of that width; read by `Hash.ofBytes` and `Hash.parse`, written by
  `Hash.text`.
* `hash256`: SHA-256 twice. `hash160`: RIPEMD-160 of SHA-256.
-/

namespace SpendScript.Digest

/-- A digest of `width` bytes. -/
structure Hash (width : Nat) where
  bytes : Bytes
  length_eq : bytes.length = width
deriving DecidableEq

/-- A digest of 20 bytes, as it names keys and scripts. -/
abbrev Hash160 := Hash 20

namespace Hash

theorem eq_of_bytes_eq {width : Nat} {h h' : Hash width} (hb : h.bytes = h'.bytes) : h = h' := by
  obtain ⟨bytes, hlen⟩ := h
  obtain ⟨bytes', hlen'⟩ := h'
  subst hb
  rfl

/-- Refuses any other width. -/
def ofBytes (width : Nat) (bs : Bytes) : Except Text.Hex.HexError (Hash width) :=
  if h : bs.length = width then .ok ⟨bs, h⟩ else .error .invalidStringLength

/-- Reads two digits for each byte. -/
def parse (width : Nat) (text : String) : Except Text.Hex.HexError (Hash width) := do
  ofBytes width (← Text.Hex.decodeExact width text)

/-- Two digits for each byte. -/
def text {width : Nat} (h : Hash width) : String :=
  Text.Hex.encode h.bytes

end Hash

/-- SHA-256 twice. -/
def hash256 (message : Bytes) : Hash 32 :=
  ⟨sha256 (sha256 message), sha256_length _⟩

/-- RIPEMD-160 of SHA-256. -/
def hash160 (message : Bytes) : Hash160 :=
  ⟨ripemd160 (sha256 message), ripemd160_length _⟩

end SpendScript.Digest
