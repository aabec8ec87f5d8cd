import SpendScript.Curve.Basic
import SpendScript.Digest.Hmac
import SpendScript.Ecdsa.Nonce
import SpendScript.Ecdsa.Signature

/-!
# Signing and verifying

ECDSA over a cyclic group of curve points.

* `Group.ofGenerator`: checks that the order annihilates the generator.
* `Group.signWithNonce`, `Group.sign`: signatures with a given and with a deterministic nonce;
  `s` is always the lower of the two possible values.
* `Group.signWithin`: the same with a bound on the candidate nonces; `Group.Signs`: without one.
* `Group.verify`: takes either value of `s`.
-/

namespace SpendScript

open SpendScript.Field (Arith)

variable {F : Type} [Arith F] [DecidableEq F]

/-- A generator and the order of the group it generates, which has to be prime for signing. -/
structure Group (F : Type) [Arith F] [DecidableEq F] where
  generator : Point F
  order : Nat

namespace Group

/-- Refuses the neutral element, an order below two, and an order that does not annihilate the
generator. -/
def ofGenerator (generator : Point F) (order : Nat) : Except EcError (Group F) :=
  if generator.isInfinity ∨ order ≤ 1 then .error (.invalidGroup generator.text order)
  else
    match generator.smul order with
    | .ok q =>
      if q.isInfinity then .ok ⟨generator, order⟩
      else .error (.invalidGroup generator.text order)
    | .error f => .error (.fault f)

/-- Refuses a secret outside of `[1, order)`. -/
def checkSecret (g : Group F) (secret : Nat) : Except EcError Unit :=
  if 0 < secret ∧ secret < g.order then .ok () else .error (.scalarOutOfRange g.order)

/-- The multiple of the generator that belongs to a secret. -/
def publicPoint (g : Group F) (secret : Nat) : Except Fault (Point F) :=
  g.generator.smul secret

/-- The first coordinate of `p` modulo the order; the neutral element has none. -/
def xModOrder (g : Group F) (p : Point F) : Option Nat :=
  p.coords.map fun xy => Arith.value xy.1 % g.order

/-! ## Signing -/

/-- The lower of `s` and its negative. -/
def lowS (g : Group F) (s : Nat) : Nat :=
  if g.order / 2 < s then g.order - s else s

/-- The signature with nonce `k`, or none if a zero `r` or `s` arises. -/
def signWithNonce (g : Group F) (secret z k : Nat) : Except Fault (Option Signature) := do
  let point ← g.generator.smul k
  match g.xModOrder point with
  | none => return none
  | some r =>
    let s := (z + r * secret) * Number.fermatInverse g.order k % g.order
    if r = 0 ∨ s = 0 then return none else return some ⟨r, g.lowS s⟩

/-- What a search concludes that has to find something. -/
def orExhausted {α : Type} (found : Except Fault (Option α)) : Except Fault α := do
  match ← found with
  | some a => return a
  | none => throw .noncesExhausted

/-- The first result of `accept` on the candidate nonces in range, among `bound` candidates. -/
def firstAccepted {α : Type} (g : Group F) (accept : Nat → Except Fault (Option α))
    (bound secret z : Nat) : Except Fault α :=
  let s := Nonce.start Digest.hmacSha256 g.order secret z
  orExhausted (Nonce.search Digest.hmacSha256 g.order accept bound s)

/-- The first candidate nonce in range, among `bound` candidates. -/
def deterministicNonceWithin (g : Group F) (bound secret z : Nat) : Except Fault Nat :=
  g.firstAccepted (fun k => .ok (some k)) bound secret z

/-- The first candidate nonce in range. -/
def deterministicNonce (g : Group F) (secret z : Nat) : Except Fault Nat :=
  g.deterministicNonceWithin Nonce.attempts secret z

/-- The signature with the first of `bound` candidate nonces that gives one; the secret is not
checked. -/
def signWithin (g : Group F) (bound secret z : Nat) : Except Fault Signature :=
  g.firstAccepted (g.signWithNonce secret z) bound secret z

/-- The signature with the first deterministic nonce that gives one; the secret is not checked. -/
def signUnchecked (g : Group F) (secret z : Nat) : Except Fault Signature :=
  g.signWithin Nonce.attempts secret z

/-- Signing without a bound returns `sig`: it does so with enough candidate nonces. -/
def Signs (g : Group F) (secret z : Nat) (sig : Signature) : Prop :=
  ∃ bound, g.signWithin bound secret z = .ok sig

/-- The deterministic signature of a digest. -/
def sign (g : Group F) (secret z : Nat) : Except EcError Signature := do
  g.checkSecret secret
  EcError.ofFault (g.signUnchecked secret z)

/-! ## Verifying -/

/-- Whether `sig` is a signature of `z` under the public point `key`. -/
def verify (g : Group F) (key : Point F) (z : Nat) (sig : Signature) : Except Fault Bool :=
  if !sig.inRange g.order || key.isInfinity then .ok false
  else do
    let inverse := Number.fermatInverse g.order sig.s
    let p ← g.generator.smul (z * inverse % g.order)
    let q ← key.smul (sig.r * inverse % g.order)
    return g.xModOrder (← p.add q) == some sig.r

end Group

end SpendScript
