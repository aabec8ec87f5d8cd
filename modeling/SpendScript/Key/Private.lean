import SpendScript.Key.Public

/-!
# Private keys

A secret number below the order of the generator, together with its public key.

* `PrivateKey.ofSecret`: the range check.
* `PrivateKey.sign`: the deterministic signature of a digest; `PrivateKey.Signs`: without a bound on
  the candidate nonces.
-/

namespace SpendScript

/-- A secret and the public key that belongs to it. -/
structure PrivateKey where
  secret : Nat
  publicKey : PublicKey
deriving DecidableEq

namespace PrivateKey

/-- Refuses a secret outside of `[1, n)`. -/
def ofSecret (secret : Nat) : Except EcError PrivateKey := do
  Secp256k1.group.checkSecret secret
  let point ← EcError.ofFault (Secp256k1.group.publicPoint secret)
  return ⟨secret, ← PublicKey.ofPoint point⟩

/-- Reads the secret from big-endian bytes. -/
def ofBytes (bs : Bytes) : Except EcError PrivateKey :=
  ofSecret (Bytes.toNat bs)

/-- The deterministic signature of a digest. -/
def sign (key : PrivateKey) (z : Nat) : Except Fault Signature :=
  Secp256k1.group.signUnchecked key.secret z

/-- Signing a digest, without a bound on the candidate nonces, returns `sig`. -/
def Signs (key : PrivateKey) (z : Nat) (sig : Signature) : Prop :=
  Secp256k1.group.Signs key.secret z sig

end PrivateKey

end SpendScript
