import SpendScript.Proofs.Engine.Outcomes
import SpendScript.Proofs.Engine.Trace
import SpendScript.Proofs.Key.Faultless
import SpendScript.Proofs.Lock.Security

/-!
# Matching signatures with keys

A multisignature check goes through the keys once. Without the strict policy it always comes to an
answer, and the answer is whether the signatures can be assigned to keys in increasing order at all.

Results:
* `SigCache.Reachable`: a cache that evaluations have filled; `SigCache.Reachable.sound`: what it
  remembers is right.
* `Engine.exists_checkSignature_lenient`: without the strict policy a check answers.
* `Engine.HoldsOperands`: the operands of a multisignature check are on the stack;
  `Engine.HoldsOperands.checkMultiSig_iff`: what it does with them.
* `Engine.checkMultiSig_decides`: it decides whether there is an assignment.
-/

namespace SpendScript

/-! ## Caches -/

/-- A cache that evaluations have filled: a new one, the one that a run leaves, or the one of a
run that has come to some point. -/
inductive SigCache.Reachable : SigCache → Prop
  | empty (capacity : ℕ) (picks : ℕ → ℕ) : Reachable (Cache.empty capacity picks)
  | execute {cache : SigCache} (h : Reachable cache) (script : Script) (env : Env) :
      Reachable (script.execute env cache).state.cache
  | during {cache : SigCache} {script : Script} {env : Env} {past : List Executed} {place : Place}
      {s : State} (h : Reachable cache)
      (htrace : Engine.Trace env (State.start script cache) past place s) : Reachable s.cache

theorem Engine.Trace.sound {env : Env} {s₀ s : State} {past : List Executed} {place : Place}
    (h : Trace env s₀ past place s) (hs₀ : SigCache.Sound s₀.cache) : SigCache.Sound s.cache := by
  refine h.keeps (P := fun _ s => SigCache.Sound s.cache) hs₀ ?_ ?_
  · intro past place s t c rest _ _ hrun hs
    exact (runPlain_frame c hrun).sound hs
  · intro past data s t _ hsettle hs
    obtain ⟨item, stack, cs, -, -, -, rfl⟩ := settle_eq_ok.mp hsettle
    exact hs

theorem SigCache.Reachable.sound {cache : SigCache} (h : Reachable cache) : Sound cache := by
  induction h with
  | empty capacity picks => exact sound_empty capacity picks
  | execute _ script env ih => exact (script.execute_of_sound env ih).2
  | during _ htrace ih => exact htrace.sound ih

namespace Engine

variable {env : Env} {s t : State} {keys sigs : List Bytes} {dummy : Bytes} {rest : Stack}

/-! ## Answers of checks -/

/-- Without the strict policy, a check answers: whatever is malformed is no signature, and no key
and no signature break the arithmetic. -/
theorem exists_checkSignature_lenient (env : Env) (hlenient : env.flags.strictEncoding = false)
    (hs : SigCache.Sound s.cache) (key item : Bytes) :
    ∃ t, checkSignature env item key s = .ok (accepts env.digest key item) t := by
  have hreturns : ∃ valid t, checkSignature env item key s = .ok valid t := by
    unfold checkSignature
    split
    · exact ⟨false, s, rfl⟩
    · rw [get_bind]
      cases s.cache.get? ⟨item.dropLast, key, env.digest⟩ with
      | some valid => exact ⟨valid, s, rfl⟩
      | none =>
        cases hv : SigCheck.verdict ⟨item.dropLast, key, env.digest⟩ with
        | decided valid => exact ⟨valid, _, rfl⟩
        | malformed cause => exact ⟨false, _, by simp only [hlenient]; rfl⟩
        | fault f => exact absurd hv (SigCheck.verdict_ne_fault _ f)
  obtain ⟨valid, t, hcheck⟩ := hreturns
  rw [checkSignature_eq_ok hs hcheck] at hcheck
  exact ⟨t, hcheck⟩

/-! ## Operands -/

/-- On top of the stack are the operands of a multisignature check of `sigs` against `keys`, and
the keys can still be counted as operations. -/
structure HoldsOperands (s : State) (keys sigs : List Bytes) (dummy : Bytes) (rest : Stack) :
    Prop where
  stack_eq : s.stack = ScriptNumber.encode keys.length :: (keys.reverse ++
    ScriptNumber.encode sigs.length :: (sigs.reverse ++ dummy :: rest))
  sigs_le : sigs.length ≤ keys.length
  keys_le : keys.length ≤ 20
  operations_le : s.operations + keys.length ≤ Limits.operations

namespace HoldsOperands

variable {valid : Bool}

/-- The check takes its operands off the stack, counts the keys and searches. -/
theorem checkMultiSig_iff (h : HoldsOperands s keys sigs dummy rest) :
    checkMultiSig env s = .ok valid t ↔ matchKeys (checkSignature env) keys sigs
      { s with stack := rest, operations := s.operations + keys.length } = .ok valid t := by
  have hsigs : sigs.length ≤ Limits.multisigKeys := h.sigs_le.trans h.keys_le
  rw [checkMultiSig_eq_ok]
  constructor
  · rintro ⟨keyCount, keys', sigCount, sigs', dummy', rest', hs, hkeyCount, hsigCount, -, -, -,
      hmatch⟩
    obtain ⟨rfl, hbelow⟩ := Lock.counted_inj h.keys_le hkeyCount (h.stack_eq.symm.trans hs)
    obtain ⟨rfl, hdummy⟩ := Lock.counted_inj hsigs hsigCount hbelow
    obtain ⟨-, rfl⟩ := List.cons.inj hdummy
    exact hmatch
  · intro hmatch
    exact ⟨_, keys, _, sigs, dummy, rest, h.stack_eq, Lock.decode_encode h.keys_le,
      Lock.decode_encode hsigs, h.keys_le, h.sigs_le, h.operations_le, hmatch⟩

/-- Under every policy, a check that returns leaves what is below its operands, and its answer is
the one of the plain search. -/
theorem of_checkMultiSig (h : HoldsOperands s keys sigs dummy rest)
    (hcache : SigCache.Sound s.cache) (hcheck : checkMultiSig env s = .ok valid t) :
    valid = scan (accepts env.digest) keys sigs ∧ t.stack = rest := by
  have hmatch := h.checkMultiSig_iff.mp hcheck
  have hframe := Keeps.matchKeys (fun sig key => checkSignature_checkFrame sig key) keys sigs hmatch
  exact ⟨matchKeys_eq_ok (s := { s with
    stack := rest, operations := s.operations + keys.length }) keys sigs hcache hmatch,
    hframe.stack_eq⟩

/-- Without the strict policy, the check returns. -/
theorem exists_checkMultiSig (h : HoldsOperands s keys sigs dummy rest) (env : Env)
    (hlenient : env.flags.strictEncoding = false) (hcache : SigCache.Sound s.cache) :
    ∃ t, checkMultiSig env s = .ok (scan (accepts env.digest) keys sigs) t := by
  obtain ⟨valid, t, hmatch⟩ := exists_matchKeys_of_checks
    (s := { s with stack := rest, operations := s.operations + keys.length }) keys sigs hcache
    fun key _ item _ u hu => ⟨_, exists_checkSignature_lenient env hlenient hu key item⟩
  have hcheck := h.checkMultiSig_iff.mpr hmatch
  rw [(h.of_checkMultiSig hcache hcheck).1] at hcheck
  exact ⟨t, hcheck⟩

end HoldsOperands

/-! ## The decision -/

/-- A multisignature check decides whether the signatures can be matched with keys. On a stack that
holds its operands it leaves the items below them, and without the strict policy it answers yes if
and only if there is an increasing assignment of the signatures to keys such that every single
check answers yes. Under the strict policy it gives the same answer or none. -/
theorem checkMultiSig_decides {z : ℕ} {flags : Flags} (hlenient : flags.strictEncoding = false)
    (h : HoldsOperands s keys sigs dummy rest) (hcache : SigCache.Reachable s.cache) :
    ∃ valid, (valid = true ↔ ∃ assigned : Fin sigs.length → Fin keys.length, StrictMono assigned ∧
        ∀ i, ∃ t, checkSignature ⟨z, flags⟩ (sigs.get i) (keys.get (assigned i)) s = .ok true t) ∧
      (∃ t, checkMultiSig ⟨z, flags⟩ s = .ok valid t ∧ t.stack = rest) ∧
      ∀ flags' valid' t, checkMultiSig ⟨z, flags'⟩ s = .ok valid' t →
        valid' = valid ∧ t.stack = rest := by
  have hsound := hcache.sound
  have hanswer : ∀ key item, (∃ t, checkSignature ⟨z, flags⟩ item key s = .ok true t) ↔
      accepts z key item = true := by
    intro key item
    obtain ⟨t, hcheck⟩ := exists_checkSignature_lenient ⟨z, flags⟩ hlenient hsound key item
    constructor
    · rintro ⟨t', htrue⟩
      exact (checkSignature_eq_ok hsound htrue).symm
    · intro haccepts
      exact ⟨t, haccepts ▸ hcheck⟩
  refine ⟨scan (accepts z) keys sigs, ?_, ?_, ?_⟩
  · simp only [hanswer, scan_eq_true_iff (accepts_nil z)]
    exact exists_sublist_iff_exists_strictMono (R := fun key item => accepts z key item = true)
  · obtain ⟨t, hcheck⟩ := h.exists_checkMultiSig ⟨z, flags⟩ hlenient hsound
    exact ⟨t, hcheck, (h.of_checkMultiSig hsound hcheck).2⟩
  · intro flags' valid' t hcheck
    obtain ⟨hvalid, hstack⟩ := h.of_checkMultiSig hsound hcheck
    exact ⟨hvalid, hstack⟩

/-! ## Two signatures and three keys -/

/-- Bytes that are no key, and the two forms of the generator. -/
def threeKeys : List Bytes :=
  [[2, 0], Lock.generatorKey.sec .compressed, Lock.generatorKey.sec .uncompressed]

/-- The operands of a check of two signatures by the generator, above one more item, with the cache
that a run with one of the signatures has left. -/
def twoOfThree : State :=
  { State.start Script.empty ((Script.ofCommands [.op Opcode.zero, Lock.signaturePush] ++
      Lock.oneOfOne).execute ⟨Lock.doubledX, Flags.default⟩ (Cache.empty 8 id)).state.cache with
    stack := ScriptNumber.encode 3 :: (threeKeys.reverse ++
      ScriptNumber.encode 2 :: [Lock.doubledSignature, Lock.doubledSignature, [], [7]]) }

/-- The search passes over the bytes that are no key; the strict policy refuses them. -/
theorem checkMultiSig_decides_twoOfThree :
    HoldsOperands twoOfThree threeKeys [Lock.doubledSignature, Lock.doubledSignature] [] [[7]] ∧
    SigCache.Reachable twoOfThree.cache ∧
    (∃ assigned : Fin 2 → Fin 3, StrictMono assigned ∧ ∀ i, ∃ t, checkSignature
      ⟨Lock.doubledX, Flags.default⟩ ([Lock.doubledSignature, Lock.doubledSignature].get i)
      (threeKeys.get (assigned i)) twoOfThree = .ok true t) ∧
    (∃ t, checkMultiSig ⟨Lock.doubledX, Flags.default⟩ twoOfThree = .ok true t ∧
      t.stack = [[7]]) ∧
    ∀ flags valid t, checkMultiSig ⟨Lock.doubledX, flags⟩ twoOfThree = .ok valid t →
      valid = true ∧ t.stack = [[7]] := by
  have hoperands : HoldsOperands twoOfThree threeKeys
      [Lock.doubledSignature, Lock.doubledSignature] [] [[7]] :=
    ⟨rfl, by decide, by decide, by decide⟩
  have hcache : SigCache.Reachable twoOfThree.cache := .execute (.empty 8 id) _ _
  have hsigned : ∀ i : Fin 2, accepts Lock.doubledX (threeKeys.get i.succ)
      ([Lock.doubledSignature, Lock.doubledSignature].get i) = true := by
    decide +kernel
  have hassigned : ∃ assigned : Fin 2 → Fin 3, StrictMono assigned ∧ ∀ i, ∃ t, checkSignature
      ⟨Lock.doubledX, Flags.default⟩ ([Lock.doubledSignature, Lock.doubledSignature].get i)
      (threeKeys.get (assigned i)) twoOfThree = .ok true t := by
    refine ⟨Fin.succ, Fin.strictMono_succ, fun i => ?_⟩
    obtain ⟨t, hcheck⟩ := exists_checkSignature_lenient ⟨Lock.doubledX, Flags.default⟩ rfl
      hcache.sound (threeKeys.get i.succ)
      ([Lock.doubledSignature, Lock.doubledSignature].get i)
    rw [hsigned i] at hcheck
    exact ⟨t, hcheck⟩
  have hlenient : Flags.default.strictEncoding = false := rfl
  obtain ⟨valid, hiff, hreturns, hany⟩ :=
    checkMultiSig_decides (z := Lock.doubledX) hlenient hoperands hcache
  obtain rfl : valid = true := hiff.mpr hassigned
  exact ⟨hoperands, hcache, hassigned, hreturns, hany⟩

end Engine

end SpendScript
