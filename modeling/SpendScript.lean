import SpendScript.Field.WordResidue
import SpendScript.Key.Private
import SpendScript.Main
import SpendScript.Script.Template
import SpendScript.Script.Wire
import SpendScript.Proofs.Field.Laws
import SpendScript.Proofs.Curve.Chord
import SpendScript.Proofs.Field.Prime
import SpendScript.Proofs.Curve.AbelianGroup
import SpendScript.Proofs.Curve.Multiples
import SpendScript.Proofs.Curve.MultipleLaws
import SpendScript.Proofs.Ecdsa.CyclicGroup
import SpendScript.Proofs.Ecdsa.Verification
import SpendScript.Proofs.Cache.PartialMap
import SpendScript.Proofs.Engine.Frame
import SpendScript.Proofs.Engine.Loop
import SpendScript.Proofs.Engine.Opcodes
import SpendScript.Proofs.Key.Primes
import SpendScript.Proofs.Encoding.Bytes
import SpendScript.Proofs.Field.FixedWidth
import SpendScript.Proofs.Field.SquareRoot
import SpendScript.Proofs.Key.Coding
import SpendScript.Proofs.Engine.Checks
import SpendScript.Proofs.Script.Builder
import SpendScript.Proofs.Lock.Security
import SpendScript.Proofs.Lock.Matching
import SpendScript.Proofs.Curve.Jacobian
import SpendScript.Proofs.Key.Generator
import SpendScript.Proofs.Ecdsa.Der
import SpendScript.Proofs.Engine.Reveal
import SpendScript.Proofs.Script.Coding
import SpendScript.Proofs.Script.Wire
import SpendScript.Proofs.Script.Concatenation
import SpendScript.Proofs.Key.Signing
import SpendScript.Proofs.Lock.Spending
import SpendScript.Proofs.Engine.Agreement
import SpendScript.Proofs.Engine.Lockstep
import SpendScript.Proofs.Engine.Outcomes
import SpendScript.Proofs.Engine.Structured
import SpendScript.Proofs.Lock.Redemption
import SpendScript.Proofs.Machine.Safety
import SpendScript.Proofs.Script.Stream
import SpendScript.Proofs.Script.CompactSize
import SpendScript.Proofs.Limits.Operands
import SpendScript.Proofs.Limits.StackSize
import SpendScript.Proofs.Limits.Invariants
import SpendScript.Proofs.Limits.Length
import SpendScript.Proofs.Key.Sec
import SpendScript.Proofs.Field.Agreement
import SpendScript.Proofs.Curve.Agreement
import SpendScript.Proofs.Machine.Word
import SpendScript.Proofs.Field.Implementations
import SpendScript.Proofs.Script.Multisig
import SpendScript.Proofs.Engine.Arithmetic
import SpendScript.Proofs.Script.Calls
import SpendScript.Proofs.Ecdsa.NonceStream
import SpendScript.Proofs.Script.Minimality
import SpendScript.Proofs.Engine.DerivedOpcodes
import SpendScript.Proofs.Field.Expressions
import SpendScript.Proofs.Script.Shapes
import SpendScript.Proofs.Script.SortedKeys
import SpendScript.Proofs.Script.Lines
import SpendScript.Proofs.Script.Expansion
import SpendScript.Proofs.Script.Annotations
import SpendScript.Proofs.Engine.Disassembly
import SpendScript.Proofs.Engine.Conditionals
import SpendScript.Proofs.Ecdsa.DerReader
import SpendScript.Proofs.Text.Blank
import SpendScript.Proofs.Encoding.Hex
import SpendScript.Proofs.Cli.Verdict
import SpendScript.Proofs.Log.Directives
import SpendScript.Proofs.Log.LastWins
import SpendScript.Proofs.Log.Spacing
