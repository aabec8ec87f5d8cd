import SpendScript.Proofs.Machine.Run
import SpendScript.Proofs.Script.Concatenation

/-!
# Runs never panic

A script comes from anyone, and so do its operands, keys and signatures. Whatever they are, the machine
ends a run with success or with one of the errors of scripts.

* `Machine.execute`: a whole run of the machine.

Results:
* `Machine.execute_panicFree`: a run of the machine never panics, and it ends like the run of
  `Script.execute`, in the state that it stands for.
-/

namespace SpendScript

namespace Machine

/-- How a run of the machine ended: without a stop or not, and in which state. -/
structure Outcome where
  result : Except (Stop ScriptError) Unit
  state : State

/-- Runs a script with remembered signature checks. -/
def execute (script : Script) (env : Env) (cache : SigCache) : Outcome :=
  match run env (State.start script cache) with
  | .ok _ σ => ⟨.ok (), σ⟩
  | .error stop σ => ⟨.error stop, σ⟩

/-- A run never panics, for any policy, digest and cache: no index leaves its list, no number its
range, and every assumption of the arithmetic holds. It ends with success or with an error of
scripts, like the run of `Script.execute` and in the state that this one ends in. Every script in
memory has fewer bytes than there are words of 64 bits, since its bytes lie at different
addresses. -/
theorem execute_panicFree {script : Script} (hmade : script.Made)
    (hlen : script.byteLength < Number.wordSize) (env : Env) (cache : SigCache) :
    ∃ r : Except ScriptError Unit,
      (execute script env cache).result = r.mapError .error ∧
      script.execute env cache = ⟨r.mapError .error, (execute script env cache).state.view⟩ := by
  have h : Matches Any (run env (State.start script cache))
      (Engine.run env (SpendScript.State.start script cache)) :=
    run_matches hmade.segmented hlen cache
  unfold execute Script.execute
  generalize run env (State.start script cache) = result at h ⊢
  generalize Engine.run env (SpendScript.State.start script cache) = result' at h ⊢
  cases h with
  | ok _ _ => exact ⟨.ok (), rfl, rfl⟩
  | error e σ => exact ⟨.error e, rfl, rfl⟩

/-- A multisignature check of no signatures and no keys, over two scripts. -/
def noKeys : Script :=
  Script.ofCommands [.op 0x00, .op 0x00] ++ Script.ofCommands [.op 0x00, .op Opcode.checkMultiSig]

theorem execute_panicFree_noKeys : noKeys.Made ∧ noKeys.byteLength < Number.wordSize ∧
    ∃ r : Except ScriptError Unit,
      (execute noKeys ⟨1, Flags.default⟩ Script.noCache).result = r.mapError .error ∧
      noKeys.execute ⟨1, Flags.default⟩ Script.noCache =
        ⟨r.mapError .error, (execute noKeys ⟨1, Flags.default⟩ Script.noCache).state.view⟩ := by
  have hmade : noKeys.Made := .append (.ofCommands _) (.ofCommands _)
  have hlen : noKeys.byteLength < Number.wordSize := by decide
  exact ⟨hmade, hlen, execute_panicFree hmade hlen _ _⟩

end Machine

end SpendScript
