import SpendScript.Proofs.Engine.Checks

/-!
# Runs side by side

Two computations that start in states with the same items return the same value, or halt for the
same reason, as long as their caches answer alike. A second run under a stricter policy may also
halt with an error of that policy; nothing else depends on the policy.

Results:
* `Comparison`: how two runs are compared; `SigCache.Agree`: caches that answer alike.
* `State.SameEnd`: states in which runs leave the same; `State.SameData`: states with the same items
  and open conditionals; `State.Alike`: states with the same counts, too.
* `Engine.Agree`, `Engine.Follows`: the results of two computations agree, from all states that are
  alike; `Follows.bind`: so do sequences.
* `Env.Refines`: the second policy asks for what the first one asks for, and what it asks for in
  addition is excused.
* `Engine.checkSignature_follows`, `Engine.perform_follows`, `Engine.runOpcode_follows`,
  `Engine.runPlain_follows`: the operations of two such runs agree.
-/

namespace SpendScript

/-! ## Caches and states -/

/-- How two runs are compared. -/
structure Comparison where
  /-- The reasons for which the second run may halt where the first one does not. -/
  excused : Halt → Prop
  /-- Whether the caches of both runs hold right results only; else they are equal. -/
  trusted : Bool

/-- Runs with equal caches; no error is excused. -/
def Comparison.exact : Comparison :=
  ⟨fun _ => False, false⟩

/-- Caches that answer alike. -/
def SigCache.Agree (E : Comparison) (cache cache' : SigCache) : Prop :=
  match E.trusted with
  | true => SigCache.Sound cache ∧ SigCache.Sound cache'
  | false => cache' = cache

namespace SigCache.Agree

variable {E : Comparison} {cache cache' : SigCache}

theorem eq_or_sound (h : SigCache.Agree E cache cache') : cache' = cache ∨
    (SigCache.Sound cache ∧ SigCache.Sound cache') ∧
      ∀ {c c'}, SigCache.Sound c → SigCache.Sound c' → SigCache.Agree E c c' := by
  unfold SigCache.Agree at h ⊢
  cases htrusted : E.trusted with
  | true =>
    rw [htrusted] at h
    exact Or.inr ⟨h, And.intro⟩
  | false =>
    rw [htrusted] at h
    exact Or.inl h

theorem insert (h : SigCache.Agree E cache cache') {check : SigCheck} {valid : Bool}
    (hc : check.verdict = .decided valid) :
    SigCache.Agree E (cache.insert check valid) (cache'.insert check valid) := by
  unfold SigCache.Agree at h ⊢
  cases htrusted : E.trusted with
  | true =>
    rw [htrusted] at h
    exact ⟨h.1.insert hc, h.2.insert hc⟩
  | false =>
    rw [htrusted] at h
    exact congrArg (Cache.insert · check valid) h

end SigCache.Agree

/-- The same items are left, and caches that answer alike. -/
structure State.SameEnd (E : Comparison) (s s' : State) : Prop where
  stack_eq : s'.stack = s.stack
  caches_agree : SigCache.Agree E s.cache s'.cache

/-- The same items on both stacks, the same open conditionals, and caches that answer alike. -/
structure State.SameData (E : Comparison) (s s' : State) : Prop extends State.SameEnd E s s' where
  alt_eq : s'.alt = s.alt
  conditions_eq : s'.conditions = s.conditions

/-- The count of operations is the same, too. -/
structure State.Alike (E : Comparison) (s s' : State) : Prop extends State.SameData E s s' where
  operations_eq : s'.operations = s.operations

theorem State.SameData.symm {s t : State} (h : State.SameData .exact s t) :
    State.SameData .exact t s :=
  ⟨⟨h.stack_eq.symm, h.caches_agree.symm⟩, h.alt_eq.symm, h.conditions_eq.symm⟩

theorem State.SameData.trans {s t u : State} (h : State.SameData .exact s t)
    (h' : State.SameData .exact t u) : State.SameData .exact s u :=
  ⟨⟨h'.stack_eq.trans h.stack_eq, h'.caches_agree.trans h.caches_agree⟩,
    h'.alt_eq.trans h.alt_eq, h'.conditions_eq.trans h.conditions_eq⟩

namespace State.Alike

variable {E : Comparison} {s s' : State}

theorem isExecuting_eq (h : State.Alike E s s') : s'.isExecuting = s.isExecuting := by
  unfold State.isExecuting
  rw [h.conditions_eq]

theorem withStack (h : State.Alike E s s') (stack : Stack) :
    State.Alike E { s with stack := stack } { s' with stack := stack } :=
  ⟨⟨⟨rfl, h.caches_agree⟩, h.alt_eq, h.conditions_eq⟩, h.operations_eq⟩

theorem withConditions (h : State.Alike E s s') (conditions : List Condition) :
    State.Alike E { s with conditions := conditions } { s' with conditions := conditions } :=
  ⟨⟨⟨h.stack_eq, h.caches_agree⟩, h.alt_eq, rfl⟩, h.operations_eq⟩

theorem withEvents (h : State.Alike E s s') (events events' : List Event) :
    State.Alike E { s with events := events } { s' with events := events' } :=
  ⟨⟨⟨h.stack_eq, h.caches_agree⟩, h.alt_eq, h.conditions_eq⟩, h.operations_eq⟩

end State.Alike

/-! ## Policies -/

/-- Errors that only a policy asks for. -/
def ScriptError.isPolicy : ScriptError → Bool
  | .pushNotMinimal _ _ | .conditionNotMinimal _ | .signatureFormat _ | .publicKeyFormat _ => true
  | _ => false

theorem SigCheck.isPolicy_of_malformed {check : SigCheck} {cause : ScriptError}
    (h : check.verdict = .malformed cause) : cause.isPolicy = true := by
  unfold verdict at h
  split at h
  · cases h
    rfl
  · split at h
    · cases h
    · cases h
      rfl
    · split at h <;> cases h

/-- Two runs ask for the same, or only the second one asks, and its policy errors are excused. -/
def Asks (E : Comparison) (asked asked' : Bool) : Prop :=
  asked' = asked ∨ asked = false ∧ ∀ e : ScriptError, e.isPolicy = true → E.excused (.error e)

theorem Asks.and {E : Comparison} {asked asked' : Bool} (h : Asks E asked asked') (b : Bool) :
    Asks E (asked && b) (asked' && b) := by
  rcases h with rfl | ⟨rfl, hexcused⟩
  · exact Or.inl rfl
  · exact Or.inr ⟨rfl, hexcused⟩

/-- The second policy is the first one or a stricter one whose errors are excused, and the digest is
the same. -/
structure Env.Refines (E : Comparison) (env env' : Env) : Prop where
  digest_eq : env'.digest = env.digest
  strictEncoding : Asks E env.flags.strictEncoding env'.flags.strictEncoding
  minimalData : Asks E env.flags.minimalData env'.flags.minimalData
  minimalIf : Asks E env.flags.minimalIf env'.flags.minimalIf

theorem Env.Refines.refl (E : Comparison) (env : Env) : Env.Refines E env env :=
  ⟨rfl, Or.inl rfl, Or.inl rfl, Or.inl rfl⟩

namespace Engine

variable {α β : Type} {E : Comparison} {R R' : State → State → Prop} {s s' : State}

/-! ## Results that agree -/

/-- Both computations return the same value in states related by `R`, or both halt for the same
reason and leave the same, or the second one halts for a reason that is excused. -/
inductive Agree (E : Comparison) (R : State → State → Prop) :
    EStateM.Result Halt State α → EStateM.Result Halt State α → Prop
  | ok (a : α) {t t' : State} (h : R t t') : Agree E R (.ok a t) (.ok a t')
  | halt (h : Halt) {t t' : State} (hs : State.SameEnd E t t') :
      Agree E R (.error h t) (.error h t')
  | excused {r : EStateM.Result Halt State α} {h : Halt} (t' : State) (he : E.excused h) :
      Agree E R r (.error h t')

/-- From states that are alike, the computations agree and return in such states. -/
def Follows (E : Comparison) (m m' : Engine α) : Prop :=
  ∀ ⦃s s' : State⦄, State.Alike E s s' → Agree E (State.Alike E) (m s) (m' s')

theorem Agree.exists_ok {r' : EStateM.Result Halt State α} {a : α} {t : State}
    (h : Agree .exact R (.ok a t) r') : ∃ t', r' = .ok a t' ∧ R t t' := by
  cases h with
  | ok _ h => exact ⟨_, rfl, h⟩
  | excused _ he => exact he.elim

theorem Agree.mono {r r' : EStateM.Result Halt State α} (h : Agree E R r r')
    (hR : ∀ s s', R s s' → R' s s') : Agree E R' r r' := by
  cases h with
  | ok a h => exact .ok a (hR _ _ h)
  | halt h hs => exact .halt h hs
  | excused t' he => exact .excused t' he

/-- Sequences agree if their first parts do and the second parts do wherever the first ones
return. -/
theorem Agree.bind {m m' : Engine α} {f f' : α → Engine β} (h : Agree E R (m s) (m' s'))
    (hf : ∀ a t t', m s = .ok a t → m' s' = .ok a t' → R t t' → Agree E R' (f a t) (f' a t')) :
    Agree E R' ((m >>= f) s) ((m' >>= f') s') := by
  generalize hr : m s = r at h
  generalize hr' : m' s' = r' at h
  cases h with
  | ok a hR =>
    rw [bind_of_eq_ok hr, bind_of_eq_ok hr']
    exact hf a _ _ hr hr' hR
  | halt h hs =>
    rw [bind_of_eq_error hr, bind_of_eq_error hr']
    exact .halt h hs
  | excused t' he =>
    rw [bind_of_eq_error hr']
    exact .excused t' he

namespace Follows

theorem pure (a : α) : Follows E (Pure.pure a : Engine α) (Pure.pure a) := by
  intro s s' h
  exact .ok a h

theorem throw (e : Halt) : Follows E (MonadExcept.throw e : Engine α) (MonadExcept.throw e) := by
  intro s s' h
  exact .halt e h.toSameEnd

theorem fail (e : ScriptError) : Follows E (Engine.fail e : Engine α) (Engine.fail e) :=
  throw _

theorem bind {m m' : Engine α} {f f' : α → Engine β} (hm : Follows E m m')
    (hf : ∀ a, Follows E (f a) (f' a)) : Follows E (m >>= f) (m' >>= f') := by
  intro s s' h
  exact (hm h).bind fun a t t' _ _ ht => hf a ht

/-- A computation that first looks at the state. -/
theorem get_bind {f f' : State → Engine α}
    (hf : ∀ s s', State.Alike E s s' → Follows E (f s) (f' s')) :
    Follows E (MonadState.get >>= f) (MonadState.get >>= f') := by
  intro s s' h
  exact hf s s' h h

theorem modify {f f' : State → State}
    (hf : ∀ s s', State.Alike E s s' → State.Alike E (f s) (f' s')) :
    Follows E (modify f) (modify f') := by
  intro s s' h
  exact .ok () (hf s s' h)

theorem ite {p : Prop} [Decidable p] {m m' n n' : Engine α} (hm : Follows E m m')
    (hn : Follows E n n') : Follows E (if p then m else n) (if p then m' else n') := by
  split_ifs
  · exact hm
  · exact hn

/-- Where both runs ask for a policy or neither does, they agree; where only the second one asks,
its error is excused. -/
theorem policy {asked asked' : Bool} (h : Asks E asked asked') {e : ScriptError}
    (he : e.isPolicy = true) {m m' : Engine α} (hm : Follows E m m') :
    Follows E (if asked then Engine.fail e else m) (if asked' then Engine.fail e else m') := by
  rcases h with rfl | ⟨rfl, hexcused⟩
  · exact ite (fail e) hm
  · intro s s' hs
    rw [if_neg Bool.false_ne_true]
    cases asked' with
    | false => exact hm hs
    | true => exact .excused _ (hexcused e he)

theorem lift (r : Except ScriptError α) : Follows E (Engine.lift r) (Engine.lift r) := by
  cases r with
  | error e => exact fail e
  | ok a => exact pure a

theorem require (answer : Bool) : Follows E (Engine.require answer) (Engine.require answer) :=
  ite (pure ()) (fail _)

end Follows

/-! ## The stack -/

theorem emit_follows (e e' : Event) : Follows E (emit e) (emit e') :=
  .modify fun _ _ h => h.withEvents _ _

theorem setStack_follows (stack : Stack) : Follows E (setStack stack) (setStack stack) :=
  .modify fun _ _ h => h.withStack stack

theorem push_follows (item : Bytes) : Follows E (push item) (push item) := by
  refine .modify fun s s' h => ?_
  rw [h.stack_eq]
  exact h.withStack _

theorem rearrange_follows (f : Stack → Except ScriptError Stack) :
    Follows E (rearrange f) (rearrange f) := by
  refine .get_bind fun s s' h => ?_
  rw [h.stack_eq]
  exact .bind (.lift _) setStack_follows

theorem pop_follows : Follows E pop pop := by
  refine .get_bind fun s s' h => ?_
  rw [h.stack_eq]
  cases s.stack with
  | nil => exact .fail _
  | cons a rest => exact .bind (setStack_follows rest) fun _ => .pure a

theorem popTwo_follows : Follows E popTwo popTwo := by
  refine .get_bind fun s s' h => ?_
  rw [h.stack_eq]
  match s.stack with
  | [] | [_] => exact .fail _
  | b :: a :: rest => exact .bind (setStack_follows rest) fun _ => .pure (a, b)

theorem popThree_follows : Follows E popThree popThree := by
  refine .get_bind fun s s' h => ?_
  rw [h.stack_eq]
  match s.stack with
  | [] | [_] | [_, _] => exact .fail _
  | c :: b :: a :: rest => exact .bind (setStack_follows rest) fun _ => .pure (a, b, c)

theorem popMany_follows (n : ℕ) : Follows E (popMany n) (popMany n) := by
  refine .get_bind fun s s' h => ?_
  rw [h.stack_eq]
  exact .bind (.lift _) fun _ => .bind (setStack_follows _) fun _ => .pure _

/-! ## Numbers and answers -/

theorem popNumber_follows : Follows E popNumber popNumber :=
  .bind pop_follows fun _ => .lift _

theorem popTwoNumbers_follows : Follows E popTwoNumbers popTwoNumbers :=
  .bind popTwo_follows fun _ => .bind (.lift _) fun _ => .bind (.lift _) fun _ => .pure _

theorem popThreeNumbers_follows : Follows E popThreeNumbers popThreeNumbers :=
  .bind popThree_follows fun _ => .bind (.lift _) fun _ => .bind (.lift _) fun _ =>
    .bind (.lift _) fun _ => .pure _

theorem pushNumber_follows (n : ℤ) : Follows E (pushNumber n) (pushNumber n) :=
  .ite (push_follows _) (.throw _)

theorem count_follows (n : ℕ) : Follows E (count n) (count n) := by
  refine .bind (.modify fun s s' h => ?_) fun _ => .get_bind fun s s' h => ?_
  · exact ⟨⟨⟨h.stack_eq, h.caches_agree⟩, h.alt_eq, h.conditions_eq⟩,
      congrArg (· + n) h.operations_eq⟩
  · rw [h.operations_eq]
    exact .ite (.fail _) (.pure _)

theorem conclude_follows (verify answer : Bool) :
    Follows E (conclude verify answer) (conclude verify answer) :=
  .ite (.require _) (push_follows _)

theorem popDepth_follows : Follows E popDepth popDepth :=
  .bind popNumber_follows fun _ => .ite (.fail _) (.pure _)

/-! ## Signature checks -/

variable {env env' : Env}

/-- Caches that answer alike make no difference to a check: a remembered result is what the check
would find, and both caches remember the same result in addition. -/
theorem checkSignature_follows (henv : Env.Refines E env env') (item key : Bytes) :
    Follows E (checkSignature env item key) (checkSignature env' item key) := by
  intro s s' h
  cases item with
  | nil => exact .ok false h
  | cons b bs =>
    have hne : b :: bs ≠ [] := List.cons_ne_nil b bs
    -- Where neither cache knows the check, both runs make it.
    have hunknown : s.cache.get? ⟨(b :: bs).dropLast, key, env.digest⟩ = none →
        s'.cache.get? ⟨(b :: bs).dropLast, key, env.digest⟩ = none →
        Agree E (State.Alike E) (checkSignature env (b :: bs) key s)
          (checkSignature env' (b :: bs) key s') := by
      intro hget hget'
      unfold checkSignature
      rw [if_neg (by simp), if_neg (by simp), get_bind, get_bind]
      simp only [henv.digest_eq, hget, hget']
      cases hv : SigCheck.verdict ⟨(b :: bs).dropLast, key, env.digest⟩ with
      | decided valid =>
        exact .ok valid ⟨⟨⟨h.stack_eq, h.caches_agree.insert hv⟩, h.alt_eq, h.conditions_eq⟩,
          h.operations_eq⟩
      | malformed cause =>
        exact Follows.policy henv.strictEncoding (SigCheck.isPolicy_of_malformed hv)
          (.bind (emit_follows _ _) fun _ => .pure false) h
      | fault f => exact .halt _ h.toSameEnd
    rcases h.caches_agree.eq_or_sound with heq | ⟨⟨hs, hs'⟩, hagree⟩
    · cases hget : s.cache.get? ⟨(b :: bs).dropLast, key, env.digest⟩ with
      | none => exact hunknown hget (heq ▸ hget)
      | some valid =>
        unfold checkSignature
        rw [if_neg (by simp), if_neg (by simp), get_bind, get_bind]
        simp only [henv.digest_eq, heq, hget]
        exact .ok valid h
    · by_cases hdecided : ∃ valid, SigCheck.verdict ⟨(b :: bs).dropLast, key, env.digest⟩ =
          .decided valid
      · obtain ⟨valid, hv⟩ := hdecided
        obtain ⟨cache, hcache, hcheck⟩ := checkSignature_of_decided hs hne hv
        rw [← henv.digest_eq] at hv
        obtain ⟨cache', hcache', hcheck'⟩ := checkSignature_of_decided hs' hne hv
        rw [hcheck, hcheck']
        exact .ok valid ⟨⟨⟨h.stack_eq, hagree hcache hcache'⟩, h.alt_eq, h.conditions_eq⟩,
          h.operations_eq⟩
      · have hforget : ∀ {cache : SigCache}, SigCache.Sound cache →
            cache.get? ⟨(b :: bs).dropLast, key, env.digest⟩ = none := by
          intro cache hcache
          rw [Option.eq_none_iff_forall_ne_some]
          intro valid hget
          exact hdecided ⟨valid, hcache _ (Cache.mem_of_get? hget)⟩
        exact hunknown (hforget hs) (hforget hs')

/-- The search for keys agrees if the checks do. -/
theorem Follows.matchKeys {check check' : Bytes → Bytes → Engine Bool}
    (hcheck : ∀ item key, Follows E (check item key) (check' item key)) (keys : List Bytes) :
    ∀ items,
      Follows E (Engine.matchKeys check keys items) (Engine.matchKeys check' keys items) := by
  induction keys with
  | nil =>
    intro items
    cases items <;> exact .pure _
  | cons key keys ih =>
    intro items
    cases items with
    | nil => exact .pure _
    | cons item items =>
      unfold Engine.matchKeys
      exact .ite (.pure _) (.bind (hcheck item key) fun valid =>
        .ite (ih items) (ih (item :: items)))

theorem checkMultiSig_follows (henv : Env.Refines E env env') :
    Follows E (checkMultiSig env) (checkMultiSig env') := by
  refine .bind popNumber_follows fun keyCount => .ite (.fail _) (.ite (.fail _) ?_)
  refine .bind (count_follows _) fun _ => .bind (popMany_follows _) fun keys =>
    .bind popNumber_follows fun sigCount => .ite (.fail _) (.ite (.fail _) ?_)
  exact .bind (popMany_follows _) fun items => .bind pop_follows fun _ =>
    .matchKeys (checkSignature_follows henv) keys items

/-! ## Conditionals -/

theorem popCondition_follows (henv : Env.Refines E env env') :
    Follows E (popCondition env) (popCondition env') := by
  refine .get_bind fun s s' h => ?_
  rw [h.stack_eq]
  cases s.stack with
  | nil => exact .fail _
  | cons item rest =>
    exact .bind (setStack_follows rest) fun _ => .policy (henv.minimalIf.and _) rfl (.pure _)

theorem openBranch_follows (henv : Env.Refines E env env') (negated : Bool) :
    Follows E (openBranch env negated) (openBranch env' negated) := by
  have hopen : ∀ c : Condition, Follows E
      (modify fun s => { s with conditions := c :: s.conditions })
      (modify fun s => { s with conditions := c :: s.conditions }) := by
    refine fun c => .modify fun s s' h => ?_
    rw [h.conditions_eq]
    exact h.withConditions _
  refine .get_bind fun s s' h => ?_
  rw [h.isExecuting_eq]
  exact .ite (.bind (popCondition_follows henv) fun _ => .bind (.pure _) hopen)
    (.bind (.pure _) hopen)

theorem replaceInnermost_follows (f : Condition → List Condition) :
    Follows E (replaceInnermost f) (replaceInnermost f) := by
  refine .get_bind fun s s' h => ?_
  rw [h.conditions_eq]
  cases s.conditions with
  | nil => exact .fail _
  | cons c rest => exact .modify fun _ _ h => h.withConditions _

/-! ## The second stack -/

theorem toAlt_follows : Follows E toAlt toAlt := by
  refine .bind pop_follows fun item => .modify fun s s' h => ?_
  exact ⟨⟨⟨h.stack_eq, h.caches_agree⟩, congrArg (item :: ·) h.alt_eq, h.conditions_eq⟩,
    h.operations_eq⟩

theorem fromAlt_follows : Follows E fromAlt fromAlt := by
  refine .get_bind fun s s' h => ?_
  rw [h.alt_eq]
  cases s.alt with
  | nil => exact .fail _
  | cons item rest =>
    refine .modify fun s s' h => ?_
    exact ⟨⟨⟨congrArg (item :: ·) h.stack_eq, h.caches_agree⟩, rfl, h.conditions_eq⟩,
      h.operations_eq⟩

/-! ## Operations -/

theorem dupIfTrue_follows : Follows E dupIfTrue dupIfTrue := by
  refine .bind pop_follows fun item => ?_
  split_ifs
  · exact .bind (push_follows item) fun _ => push_follows item
  · exact push_follows item

theorem size_follows : Follows E size size := by
  refine .get_bind fun s s' h => ?_
  rw [h.stack_eq]
  cases s.stack with
  | nil => exact .fail _
  | cons item rest => exact pushNumber_follows _

theorem depth_follows : Follows E (do pushNumber (← get).stack.length)
    (do pushNumber (← get).stack.length) := by
  refine .get_bind fun s s' h => ?_
  rw [h.stack_eq]
  exact pushNumber_follows _

/-- Every operation agrees with itself under a stricter policy. -/
theorem perform_follows (henv : Env.Refines E env env') (code : Opcode) (op : Operation) :
    Follows E (perform env code op) (perform env' code op) := by
  cases op with
  | pushNumber n => exact pushNumber_follows n
  | nothing => exact .pure _
  | invalid => exact .fail _
  | reserved => exact .fail _
  | disabled => exact .fail _
  | openBranch negated => exact openBranch_follows henv negated
  | switchBranch => exact replaceInnermost_follows fun c => [c.switch]
  | closeBranch => exact replaceInnermost_follows fun _ => []
  | verify => exact .bind pop_follows fun _ => .require _
  | stop => exact .fail _
  | toAlt => exact toAlt_follows
  | fromAlt => exact fromAlt_follows
  | dupIfTrue => exact dupIfTrue_follows
  | depth => exact depth_follows
  | pick => exact .bind popDepth_follows fun _ => rearrange_follows _
  | roll => exact .bind popDepth_follows fun _ => rearrange_follows _
  | size => exact size_follows
  | equal verify => exact .bind popTwo_follows fun _ => conclude_follows _ _
  | unary f => exact .bind popNumber_follows fun _ => pushNumber_follows _
  | binary f => exact .bind popTwoNumbers_follows fun _ => pushNumber_follows _
  | verifyNumbersEqual => exact .bind popTwoNumbers_follows fun _ => .require _
  | within => exact .bind popThreeNumbers_follows fun _ => pushNumber_follows _
  | hash f => exact .bind pop_follows fun _ => push_follows _
  | checkSig verify =>
    exact .bind popTwo_follows fun _ => .bind (checkSignature_follows henv _ _) fun _ =>
      conclude_follows _ _
  | checkMultiSig verify =>
    exact .bind (checkMultiSig_follows henv) fun _ => conclude_follows _ _
  | drop | dup | copyBelow | rot | swap | nip | tuck => exact rearrange_follows _

/-! ## Commands -/

theorem runOpcode_follows (henv : Env.Refines E env env') (code : Opcode) :
    Follows E (runOpcode env code) (runOpcode env' code) := by
  unfold runOpcode
  refine .ite (.fail _) ?_
  have hact : Follows E (do
      let s ← MonadState.get
      if s.isExecuting || code.isConditional then
        emit (.executing code s.stack.length)
        perform env code (Operation.ofOpcode code)) (do
      let s ← MonadState.get
      if s.isExecuting || code.isConditional then
        emit (.executing code s.stack.length)
        perform env' code (Operation.ofOpcode code)) := by
    refine .get_bind fun s s' h => ?_
    rw [h.isExecuting_eq, h.stack_eq]
    exact .ite (.bind (emit_follows _ _) fun _ => perform_follows henv code _) (.pure _)
  split_ifs
  · exact .bind (count_follows 1) fun _ => hact
  · exact hact

theorem admitPush_follows (henv : Env.Refines E env env') (p : Push) :
    Follows E (admitPush env p) (admitPush env' p) := by
  refine .ite (.fail _) (.get_bind fun s s' h => ?_)
  rw [h.isExecuting_eq]
  exact .ite (.pure _) (.policy (henv.minimalData.and _) rfl (.pure _))

theorem runPlain_follows (henv : Env.Refines E env env') (c : Command) :
    Follows E (runPlain env c) (runPlain env' c) := by
  cases c with
  | op code => exact runOpcode_follows henv code
  | push p => exact .bind (admitPush_follows henv p) fun _ => .ite (push_follows _) (.pure _)

end Engine

end SpendScript
