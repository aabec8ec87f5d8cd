import SpendScript.Proofs.Engine.Lockstep

/-!
# What callers see of runs

The result of a run and the stack that it leaves depend neither on what its cache remembers, as long
as that is right, nor on the policy, except that a policy can stop a run.

Results:
* `Outcome.observed`: the result and the stack; `Script.execute_of_agree`: they are the same if the
  runs agree.
* `Script.executeAll_transparent`: runs that share a cache end like runs without a cache.
* `Flags.Within`: a stricter policy; `Script.execute_restricted`: it only adds its own errors.
-/

namespace SpendScript

/-- What a caller can see of a run: its result and the stack. -/
def Outcome.observed (o : Outcome) : Except Halt Unit × Stack :=
  (o.result, o.state.stack)

namespace Script

variable {E : Comparison} {script script' : Script} {env env' : Env} {cache cache' : SigCache}

/-! ## Runs that agree -/

/-- What agreeing runs show: the same result and the same stack, unless the second one halts for a
reason that is excused. The caches still answer alike. -/
theorem execute_of_agree
    (h : Engine.Agree E (State.SameEnd E) (Engine.run env (State.start script cache))
      (Engine.run env' (State.start script' cache'))) :
    (script'.execute env' cache').observed = (script.execute env cache).observed ∧
        SigCache.Agree E (script.execute env cache).state.cache
          (script'.execute env' cache').state.cache ∨
      ∃ halt, E.excused halt ∧ (script'.execute env' cache').result = .error halt := by
  unfold execute
  generalize Engine.run env (State.start script cache) = r at h
  generalize Engine.run env' (State.start script' cache') = r' at h
  cases h with
  | ok a hs => exact Or.inl ⟨congrArg (Prod.mk _) hs.stack_eq, hs.caches_agree⟩
  | halt e hs => exact Or.inl ⟨congrArg (Prod.mk _) hs.stack_eq, hs.caches_agree⟩
  | excused t' he => exact Or.inr ⟨_, he, rfl⟩

/-- Two runs of a script agree if their caches answer alike and the second policy is the first one
or a stricter one. -/
theorem run_agree (henv : Env.Refines E env env') (hcache : SigCache.Agree E cache cache')
    (script : Script) :
    Engine.Agree E (State.SameEnd E) (Engine.run env (State.start script cache))
      (Engine.run env' (State.start script cache')) := by
  have hstart : State.InStep E (State.start script cache) (State.start script cache') :=
    ⟨⟨⟨⟨rfl, hcache⟩, rfl, rfl⟩, rfl⟩, rfl, fun _ => Iff.rfl⟩
  rw [Engine.run_start, Engine.run_start]
  split_ifs
  · exact .halt _ hstart.toSameEnd
  · cases script.oversize? with
    | some size => exact .halt _ hstart.toSameEnd
    | none =>
      exact (Engine.loop_inStep henv _ hstart).bind fun _ _ _ _ _ h =>
        Engine.finish_agree h.toSameData

theorem observed_of_agree
    (h : Engine.Agree .exact (State.SameEnd .exact) (Engine.run env (State.start script cache))
      (Engine.run env' (State.start script' cache'))) :
    (script'.execute env' cache').observed = (script.execute env cache).observed := by
  rcases execute_of_agree h with h | ⟨_, hf, -⟩
  · exact h.1
  · exact hf.elim

/-! ## Caches -/

/-- Runs with caches that hold right results only; no error is excused. -/
def trustedCaches : Comparison :=
  ⟨fun _ => False, true⟩

/-- A cache with right results only changes nothing that a caller can see, and it holds right
results only after the run. -/
theorem execute_of_sound (script : Script) (env : Env) (hcache : SigCache.Sound cache) :
    (script.execute env cache).observed = (script.execute env noCache).observed ∧
      SigCache.Sound (script.execute env cache).state.cache := by
  have hcaches : SigCache.Agree trustedCaches cache noCache :=
    ⟨hcache, SigCache.sound_empty 0 fun _ => 0⟩
  rcases execute_of_agree (run_agree (.refl trustedCaches env) hcaches script) with h | ⟨_, hf, -⟩
  · exact ⟨h.1.symm, h.2.1⟩
  · exact hf.elim

/-- The cache is transparent. Runs that share a cache, whatever its capacity and whatever it evicts,
end like the same runs without a cache. -/
theorem executeAll_transparent (capacity : ℕ) (picks : ℕ → ℕ) (runs : List (Script × Env)) :
    (executeAll (Cache.empty capacity picks) runs).map Outcome.observed =
      runs.map fun run => (run.1.execute run.2 noCache).observed := by
  have hall : ∀ cache : SigCache, SigCache.Sound cache →
      (executeAll cache runs).map Outcome.observed =
        runs.map fun run => (run.1.execute run.2 noCache).observed := by
    induction runs with
    | nil =>
      intro cache _
      rfl
    | cons run rest ih =>
      intro cache hcache
      obtain ⟨script, env⟩ := run
      obtain ⟨hobserved, hsound⟩ := execute_of_sound script env hcache
      rw [executeAll, List.map_cons, List.map_cons, hobserved, ih _ hsound]
  exact hall _ (SigCache.sound_empty capacity picks)

/-! ## Policies -/

end Script

/-- Every policy of the first flags is one of the second ones. -/
structure Flags.Within (flags flags' : Flags) : Prop where
  strictEncoding : flags.strictEncoding = true → flags'.strictEncoding = true
  minimalData : flags.minimalData = true → flags'.minimalData = true
  minimalIf : flags.minimalIf = true → flags'.minimalIf = true

namespace Script

/-- Runs with one cache each, the second one under a stricter policy, whose errors are excused. -/
def stricterPolicy : Comparison :=
  ⟨fun halt => ∃ e : ScriptError, e.isPolicy = true ∧ halt = .error e, false⟩

theorem asks_stricterPolicy {asked asked' : Bool} (h : asked = true → asked' = true) :
    Asks stricterPolicy asked asked' := by
  cases asked with
  | true => exact Or.inl (h rfl)
  | false => exact Or.inr ⟨rfl, fun e he => ⟨e, he, rfl⟩⟩

/-- Policies only restrict. Under more flags a script ends in the same way, or with an error of the
policy; in particular, a script that is valid under them is valid under fewer. -/
theorem execute_restricted {flags flags' : Flags} (h : flags.Within flags') (script : Script)
    (digest : ℕ) (cache : SigCache) :
    ((script.execute ⟨digest, flags'⟩ cache).observed =
        (script.execute ⟨digest, flags⟩ cache).observed ∨
      ∃ e : ScriptError, e.isPolicy = true ∧
        (script.execute ⟨digest, flags'⟩ cache).result = .error (.error e)) ∧
    ((script.execute ⟨digest, flags'⟩ cache).result = .ok () →
      (script.execute ⟨digest, flags⟩ cache).result = .ok ()) := by
  have henv : Env.Refines stricterPolicy ⟨digest, flags⟩ ⟨digest, flags'⟩ :=
    ⟨rfl, asks_stricterPolicy h.strictEncoding, asks_stricterPolicy h.minimalData,
      asks_stricterPolicy h.minimalIf⟩
  have hcaches : SigCache.Agree stricterPolicy cache cache := rfl
  rcases execute_of_agree (run_agree henv hcaches script) with
    ⟨hobserved, -⟩ | ⟨_, ⟨e, he, rfl⟩, hresult⟩
  · refine ⟨Or.inl hobserved, fun hok => ?_⟩
    rw [← hok]
    exact (congrArg Prod.fst hobserved).symm
  · refine ⟨Or.inr ⟨e, he, hresult⟩, fun hok => ?_⟩
    rw [hok] at hresult
    cases hresult

/-- A check of two items that are no signature and no key, and the negation of its answer. -/
def malformedCheck : Script :=
  .ofCommands [.push ⟨[0x30, 0x00], .direct, by decide⟩, .push ⟨[0x02, 0x00], .direct, by decide⟩,
    .op Opcode.checkSig, .op 0x91]

/-- Without policy the failed check is an answer, and the script is valid; under all policies it is
an error. -/
theorem execute_restricted_malformedCheck :
    Flags.default.Within ⟨true, true, true, 10000⟩ ∧
    (malformedCheck.execute ⟨1, Flags.default⟩ noCache).result = .ok () ∧
    (malformedCheck.execute ⟨1, ⟨true, true, true, 10000⟩⟩ noCache).result ≠ .ok () ∧
    ((malformedCheck.execute ⟨1, ⟨true, true, true, 10000⟩⟩ noCache).observed =
        (malformedCheck.execute ⟨1, Flags.default⟩ noCache).observed ∨
      ∃ e : ScriptError, e.isPolicy = true ∧
        (malformedCheck.execute ⟨1, ⟨true, true, true, 10000⟩⟩ noCache).result =
          .error (.error e)) := by
  have hwithin : Flags.default.Within ⟨true, true, true, 10000⟩ :=
    ⟨fun _ => rfl, fun _ => rfl, fun _ => rfl⟩
  exact ⟨hwithin, by decide +kernel, by decide +kernel,
    (execute_restricted hwithin malformedCheck 1 noCache).1⟩

end Script

end SpendScript
