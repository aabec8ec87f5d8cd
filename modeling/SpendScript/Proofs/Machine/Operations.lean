import SpendScript.Proofs.Engine.Growth
import SpendScript.Proofs.Machine.Key
import SpendScript.Proofs.Machine.Stack

/-!
# Operations of the machine

Conditionals, signature checks and the other operations, on the stack and the counters of the machine.

* `Machine.count`: the operation counter, in 32 bits.
* `Machine.checkSignature`, `Machine.checkMultiSig`: signature checks.
* `Machine.perform`, `Machine.runOpcode`: all operations, and an opcode.

Results:
* `Machine.checkMultiSig_simulates`: at every check as many keys are left as there are signatures.
* `Machine.perform_matches`, `Machine.runOpcode_matches`: every operation does what that of the engine
  does, if the number of items fits into a signed word.
-/

namespace SpendScript.Machine

variable {env : Env} {σ : State}

/-! ## Counting -/

/-- Counts operations against the limit. -/
def count (n : ℤ) : Machine Unit := do
  let operations ← exec (Checked.int32 ((← get).operations + n))
  modify fun σ => { σ with operations := operations }
  if (Limits.operations : ℤ) < (← get).operations then refuse .tooManyOperations

theorem count_simulates {n : ℕ} (hn : n ≤ Limits.multisigKeys) :
    Simulates Any (count n) (Engine.count n) := by
  intro σ hσ
  have hnonneg := hσ.operations_nonneg
  have hle := hσ.operations_le
  unfold Limits.operations at hle
  unfold Limits.multisigKeys at hn
  have hsum : Checked.int32 (σ.operations + n) = .ok (σ.operations + n) :=
    Checked.int32_eq_ok (by omega) (by omega)
  have htoNat : (σ.operations + n).toNat = σ.operations.toNat + n := by omega
  have hview : { σ with operations := σ.operations + n }.view =
      { σ.view with operations := σ.view.operations + n } := by
    unfold State.view
    simp only [htoNat]
  show Matches Any ((exec (Checked.int32 (σ.operations + n)) >>= _ : Machine Unit) σ)
    ((if Limits.operations < σ.operations.toNat + n then Engine.fail .tooManyOperations
      else pure () : Engine Unit) { σ.view with operations := σ.view.operations + n })
  rw [hsum, ← hview]
  show Matches Any ((if (Limits.operations : ℤ) < σ.operations + n then refuse .tooManyOperations
      else pure () : Machine Unit) { σ with operations := σ.operations + n }) _
  by_cases h : Limits.operations < σ.operations.toNat + n
  · rw [if_pos h, if_pos (by unfold Limits.operations at h ⊢; omega)]
    exact .error _ _
  · rw [if_neg h, if_neg (by unfold Limits.operations at h ⊢; omega)]
    refine .ok trivial ⟨?_, ?_, hσ.counter_le, hσ.bytes_lt, hσ.stack_small, hσ.alt_small⟩
    · show 0 ≤ σ.operations + n
      omega
    · show σ.operations + n ≤ Limits.operations
      unfold Limits.operations at h ⊢
      omega

/-! ## Conditionals -/

/-- The top item, if there is one. -/
def popTop? : Machine (Option Bytes) := do
  match (← get).stack.getLast? with
  | none => return none
  | some item =>
    modify fun σ => { σ with stack := σ.stack.dropLast }
    return some item

/-- The condition of a branch. -/
def popCondition (env : Env) : Machine Bool := do
  match ← popTop? with
  | none => refuse .emptyStack
  | some item =>
    if env.flags.minimalIf && !Engine.isMinimalCondition item then
      refuse (.conditionNotMinimal item)
    else return ScriptNumber.truth item

/-- Opens a conditional. -/
def openBranch (env : Env) (negated : Bool) : Machine Unit := do
  let condition ←
    if (← get).isExecuting then
      let holds ← popCondition env
      pure (if holds != negated then Condition.taken else Condition.notTaken)
    else pure Condition.skipped
  modify fun σ => { σ with conditions := condition :: σ.conditions }

/-- Goes to the next part of the innermost conditional. -/
def switchBranch : Machine Unit := do
  match (← get).conditions with
  | [] => refuse (.invalidState .noOpenConditional)
  | c :: rest => modify fun σ => { σ with conditions := c.switch :: rest }

/-- Closes the innermost conditional. -/
def closeBranch : Machine Unit := do
  match (← get).conditions with
  | [] => refuse (.invalidState .noOpenConditional)
  | _ :: rest => modify fun σ => { σ with conditions := rest }

/-- The last item of the list is the top one. -/
theorem getLast?_stack {s : List Bytes} (h : σ.stack = s.reverse) :
    σ.stack.getLast? = s.head? := by
  rw [h, List.getLast?_reverse]

theorem popCondition_simulates : Simulates Any (popCondition env) (Engine.popCondition env) := by
  intro σ hσ
  obtain ⟨s, hs⟩ := exists_stack_eq_reverse σ
  unfold popCondition popTop? Engine.popCondition
  rw [bind_assoc, get_bind, getLast?_stack hs, Engine.get_bind, view_stack hs]
  cases s with
  | nil => exact .error _ σ
  | cons item rest =>
    have hdrop : σ.stack.dropLast = rest.reverse := by
      rw [hs, List.reverse_cons, List.dropLast_concat]
    have htaken : { σ with stack := rest.reverse }.Valid :=
      hσ.withStack fun a ha => hσ.stack_small a (by
        rw [hs, List.mem_reverse]
        exact List.mem_cons_of_mem item (List.mem_reverse.mp ha))
    show Matches Any ((if env.flags.minimalIf && !Engine.isMinimalCondition item then _ else _ :
        Machine Bool) { σ with stack := σ.stack.dropLast })
      ((if env.flags.minimalIf && !Engine.isMinimalCondition item then _ else _ : Engine Bool)
        { σ.view with stack := rest })
    rw [hdrop, ← view_withStack]
    exact Simulates.ite (.refuse _) (.pure trivial) htaken

theorem openBranch_simulates (negated : Bool) :
    Simulates Any (openBranch env negated) (Engine.openBranch env negated) := by
  have hopen : ∀ c : Condition, Simulates Any
      (modify fun σ => { σ with conditions := c :: σ.conditions } : Machine Unit)
      (modify fun s => { s with conditions := c :: s.conditions }) :=
    fun c => .modify fun _ hσ => ⟨hσ.withConditions _, rfl⟩
  refine .get_bind fun σ hσ => ?_
  show Matches Any _ ((if σ.isExecuting = true then _ else _ : Engine Unit) σ.view)
  refine Simulates.ite ?_ ?_ hσ
  · exact popCondition_simulates.bind fun holds _ => hopen _
  · exact hopen _

theorem switchBranch_simulates : Simulates Any switchBranch Engine.switchBranch := by
  refine .get_bind fun σ hσ => ?_
  show Matches Any _ ((match σ.conditions with
    | [] => _
    | c :: rest => _ : Engine Unit) σ.view)
  cases σ.conditions with
  | nil => exact .error _ σ
  | cons c rest => exact .ok trivial (hσ.withConditions _)

theorem closeBranch_simulates : Simulates Any closeBranch Engine.closeBranch := by
  refine .get_bind fun σ hσ => ?_
  show Matches Any _ ((match σ.conditions with
    | [] => _
    | _ :: rest => _ : Engine Unit) σ.view)
  cases σ.conditions with
  | nil => exact .error _ σ
  | cons c rest => exact .ok trivial (hσ.withConditions _)

/-! ## Parts of operations -/

/-- Fails unless the answer is yes. -/
def require (answer : Bool) : Machine Unit :=
  if answer then pure () else refuse .verifyFailed

/-- Pushes an answer, or requires it. -/
def conclude (verify answer : Bool) : Machine Unit :=
  if verify then require answer else push (ScriptNumber.ofBool answer)

/-- The truth of the top item. -/
def popTruth : Machine Bool :=
  popValue fun item => .ok (ScriptNumber.truth item)

def toAlt : Machine Unit := do
  let item ← popOne
  modify fun σ => { σ with alt := item :: σ.alt }

def fromAlt : Machine Unit := do
  match (← get).alt with
  | [] => refuse .emptyStack
  | item :: rest =>
    modify fun σ => { σ with alt := rest }
    push item

/-- Copies the top item if it is true. -/
def dupIfTrue : Machine Unit := do
  let item ← popOne
  if ScriptNumber.truth item then push item
  push item

/-- A length as a signed word. -/
def signed (n : ℕ) : ℤ :=
  (n : ℤ).bmod Number.wordSize

/-- Pushes the number of bytes of the top item. -/
def size : Machine Unit := do
  match (← get).stack.getLast? with
  | none => refuse .emptyStack
  | some item => pushNumber (signed item.length)

/-- Pushes the number of items. -/
def depth : Machine Unit := do
  pushNumber (signed (← get).stack.length)

theorem signed_eq {n : ℕ} (h : n < 0x8000000000000000) : signed n = n := by
  rw [signed, Int.bmod_eq_of_le] <;> unfold Number.wordSize <;> omega

theorem pushLength_simulates {n : ℕ} (h : n < 0x8000000000000000) :
    Simulates Any (pushNumber (signed n)) (Engine.pushNumber n) := by
  rw [signed_eq h]
  exact pushNumber_simulates (by rwa [Int.natAbs_natCast])

theorem require_simulates (answer : Bool) :
    Simulates Any (require answer) (Engine.require answer) :=
  .ite (.pure trivial) (.refuse _)

theorem small_ofBool (b : Bool) : Small (ScriptNumber.ofBool b) := by
  unfold Small
  cases b <;> decide

theorem conclude_simulates (verify answer : Bool) :
    Simulates Any (conclude verify answer) (Engine.conclude verify answer) :=
  .ite (require_simulates answer) (push_simulates (small_ofBool answer))

theorem popTruth_simulates :
    Simulates Any popTruth (Engine.pop >>= fun item => pure (ScriptNumber.truth item)) := by
  have h : Simulates Any popTruth
      (Engine.pop >>= fun item => Engine.lift (.ok (ScriptNumber.truth item))) :=
    popValue_simulates (fun _ => rfl) fun _ _ _ => trivial
  exact h

theorem popTruth_bind_simulates {β : Type} {Q : β → Prop} {f : Bool → Machine β}
    {g : Bool → Engine β} (hf : ∀ b, Simulates Q (f b) (g b)) :
    Simulates Q (popTruth >>= f) (Engine.pop >>= fun item => g (ScriptNumber.truth item)) := by
  have h := popTruth_simulates.bind fun b _ => hf b
  simp only [bind_assoc, pure_bind] at h
  exact h

theorem toAlt_simulates : Simulates Any toAlt Engine.toAlt := by
  refine popOne_simulates.bind fun item hitem => .modify fun σ hσ => ⟨hσ.withAlt ?_, rfl⟩
  exact List.forall_mem_cons.mpr ⟨hitem, hσ.alt_small⟩

theorem fromAlt_simulates : Simulates Any fromAlt Engine.fromAlt := by
  refine .get_bind fun σ hσ => ?_
  show Matches Any _ ((match σ.alt with
    | [] => _
    | item :: rest => _ : Engine Unit) σ.view)
  cases halt : σ.alt with
  | nil => exact .error _ σ
  | cons item rest =>
    have hsmall := List.forall_mem_cons.mp (halt ▸ hσ.alt_small)
    exact push_simulates hsmall.1 (hσ.withAlt hsmall.2)

theorem dupIfTrue_simulates : Simulates Any dupIfTrue Engine.dupIfTrue := by
  refine popOne_simulates.bind fun item hitem => ?_
  refine .ite ?_ (push_simulates hitem)
  exact (push_simulates hitem).bind fun _ _ => push_simulates hitem

theorem size_simulates : Simulates Any size Engine.size := by
  intro σ hσ
  obtain ⟨s, hs⟩ := exists_stack_eq_reverse σ
  unfold size Engine.size
  rw [get_bind, getLast?_stack hs, Engine.get_bind, view_stack hs]
  cases s with
  | nil => exact .error _ σ
  | cons item rest =>
    have hsmall : item.length ≤ 520 := hσ.stack_small item (by simp [hs])
    exact pushLength_simulates (by omega) hσ

/-! ## Signature checks -/

/-- The cache with one more result. -/
def remember (cache : SigCache) (c : SigCheck) (valid : Bool) : Checked SigCache :=
  if cache.capacity = 0 then .ok cache
  else if cache.contains c then
    .ok { cache with entries := Cache.replace c valid cache.entries }
  else do
    let cache ←
      if cache.capacity ≤ cache.size then do
        let victim ← Checked.rem (cache.picks cache.evictions) cache.size
        pure { cache with
          entries := Cache.swapRemove victim cache.entries
          evictions := cache.evictions + 1 }
      else pure cache
    return { cache with entries := cache.entries ++ [(c, valid)] }

/-- Whether the signature belongs to the key and the digest of the run. -/
def checkSignature (env : Env) (signature key : Bytes) : Machine Bool := do
  match signature.getLast? with
  | none => return false
  | some _ =>
    let c : SigCheck := ⟨signature.dropLast, key, env.digest⟩
    match (← get).cache.get? c with
    | some valid => return valid
    | none =>
      match ← attempt (examine c) with
      | .ok valid =>
        let cache ← exec (remember (← get).cache c valid)
        modify fun σ => { σ with cache := cache }
        return valid
      | .error cause =>
        if env.flags.strictEncoding then refuse cause
        else
          emit (.checkFailed cause)
          return false

/-- A full cache has an entry that can be evicted. -/
theorem remember_eq (cache : SigCache) (c : SigCheck) (valid : Bool) :
    remember cache c valid = .ok (cache.insert c valid) := by
  unfold remember Cache.insert
  by_cases hcapacity : cache.capacity = 0
  · rw [if_pos hcapacity, if_pos hcapacity]
  · rw [if_neg hcapacity, if_neg hcapacity]
    by_cases hcontains : cache.contains c = true
    · rw [if_pos hcontains, if_pos hcontains]
    · rw [if_neg hcontains, if_neg hcontains]
      by_cases hfull : cache.capacity ≤ cache.size
      · rw [if_pos hfull, Checked.rem_eq_ok (show 0 < cache.size by omega)]
        simp only [if_pos hfull]
        rfl
      · rw [if_neg hfull]
        simp only [if_neg hfull]
        rfl

theorem checkSignature_simulates (signature key : Bytes) :
    Simulates Any (checkSignature env signature key) (Engine.checkSignature env signature key) := by
  unfold checkSignature Engine.checkSignature
  rcases List.eq_nil_or_concat' signature with rfl | ⟨init, last, rfl⟩
  · exact .pure trivial
  · rw [List.getLast?_concat, if_neg (by simp)]
    refine .get_bind fun σ hσ => ?_
    show Matches Any _ ((match σ.cache.get? _ with
      | some valid => _
      | none => _ : Engine Bool) σ.view)
    cases σ.cache.get? ⟨(init ++ [last]).dropLast, key, env.digest⟩ with
    | some valid => exact .ok trivial hσ
    | none =>
      rcases examine_cases ⟨(init ++ [last]).dropLast, key, env.digest⟩ with
        ⟨valid, hverdict, hexamine⟩ | ⟨cause, hverdict, hexamine⟩
      · simp only [hverdict, hexamine]
        show Matches Any ((exec (remember σ.cache _ valid) >>= _ : Machine Bool) σ) _
        rw [remember_eq]
        exact .ok trivial (hσ.withCache _)
      · simp only [hverdict, hexamine]
        refine Simulates.ite (.refuse cause) ?_ hσ
        exact (emit_simulates _).bind fun _ _ => .pure trivial

/-- Tries keys until one is accepted, for the signature numbered `i` of `count`, and gives the keys
after it, or nothing if fewer keys than signatures are left. -/
def tryKeys (accepts : Bytes → Machine Bool) (count i : ℕ) :
    (keys : List Bytes) → Machine (Option (List Bytes))
  | [] => do
    let left ← exec (Checked.sub count i)
    if 0 < left then return none else throw (.panic .unexpected)
  | key :: keys => do
    let left ← exec (Checked.sub count i)
    if keys.length + 1 < left then return none
    else if ← accepts key then return some keys
    else tryKeys accepts count i keys

/-- Whether the signatures from the one numbered `i` on match keys in order. -/
def matchKeys (check : Bytes → Bytes → Machine Bool) (count : ℕ) :
    (i : ℕ) → (signatures keys : List Bytes) → Machine Bool
  | _, [], _ => return true
  | i, sig :: sigs, keys => do
    if sig.isEmpty then return false
    else
      match ← tryKeys (check sig) count i keys with
      | none => return false
      | some keys => matchKeys check count (i + 1) sigs keys

/-- Takes a count of keys, the keys, a count of signatures, the signatures and one more item off
the stack. The keys count as operations. -/
def checkMultiSig (env : Env) : Machine Bool := do
  let keyCount ← popValue readInt32
  if keyCount < 0 then refuse (.invalidKeyCount (.negativeKeys keyCount))
  else if (Limits.multisigKeys : ℤ) < keyCount then
    refuse (.invalidKeyCount (.tooManyKeys keyCount))
  else
    count keyCount
    let keys ← splitTop keyCount.toNat
    let sigCount ← popValue readInt32
    if sigCount < 0 then refuse (.invalidSignatureCount (.negativeSignatures sigCount))
    else if keyCount < sigCount then
      refuse (.invalidSignatureCount (.moreSignaturesThanKeys sigCount keyCount))
    else
      let signatures ← splitTop sigCount.toNat
      let _ ← popOne
      matchKeys (checkSignature env) sigCount.toNat 0 signatures keys

section Multisignature

variable {check : Bytes → Bytes → Machine Bool} {check' : Bytes → Bytes → Engine Bool} {n i : ℕ}
  {sig : Bytes} {sigs : List Bytes}

/-- The keys for one signature. As long as signatures are left, there is one to be numbered. -/
theorem tryKeys_simulates (hcheck : ∀ sig key, Simulates Any (check sig key) (check' sig key))
    (hsig : sig.isEmpty = false) (hi : i + (sigs.length + 1) = n)
    (hrest : ∀ keys, Simulates Any (matchKeys check n (i + 1) sigs keys)
      (Engine.matchKeys check' keys sigs)) (keys : List Bytes) :
    Simulates Any
      (tryKeys (check sig) n i keys >>= fun
        | none => pure false
        | some keys => matchKeys check n (i + 1) sigs keys)
      (Engine.matchKeys check' keys (sig :: sigs)) := by
  have hsub : Checked.sub n i = .ok (sigs.length + 1) := by
    rw [Checked.sub_eq_ok (by omega)]
    congr 1
    omega
  induction keys with
  | nil =>
    unfold tryKeys
    rw [bind_assoc]
    refine .exec hsub ?_
    rw [if_pos (Nat.succ_pos _)]
    exact .pure trivial
  | cons key keys ih =>
    unfold tryKeys Engine.matchKeys
    rw [bind_assoc]
    refine .exec hsub ?_
    by_cases hfew : keys.length < sigs.length
    · rw [if_pos (Nat.succ_lt_succ hfew), if_pos (Or.inr hfew)]
      exact .pure trivial
    · rw [if_neg (mt Nat.lt_of_succ_lt_succ hfew), if_neg (by simp [hsig, hfew]), bind_assoc]
      refine (hcheck sig key).bind fun valid _ => ?_
      cases valid with
      | false => exact ih
      | true => exact hrest keys

/-- Every signature has its number below their count. -/
theorem matchKeys_simulates (hcheck : ∀ sig key, Simulates Any (check sig key) (check' sig key))
    (hi : i + sigs.length = n) (keys : List Bytes) :
    Simulates Any (matchKeys check n i sigs keys) (Engine.matchKeys check' keys sigs) := by
  induction sigs generalizing i keys with
  | nil => cases keys <;> exact .pure trivial
  | cons sig sigs ih =>
    rw [List.length_cons] at hi
    unfold matchKeys
    cases hsig : sig.isEmpty with
    | true =>
      cases keys with
      | nil => exact .pure trivial
      | cons key keys =>
        unfold Engine.matchKeys
        rw [if_pos (Or.inl hsig)]
        exact .pure trivial
    | false => exact tryKeys_simulates hcheck hsig hi (ih (by omega)) keys

end Multisignature

theorem checkMultiSig_simulates : Simulates Any (checkMultiSig env) (Engine.checkMultiSig env) := by
  unfold checkMultiSig Engine.checkMultiSig
  refine popInt32_simulates.bind fun keyCount _ => ?_
  by_cases hneg : keyCount < 0
  · rw [if_pos hneg, if_pos hneg]
    exact .refuse _
  rw [if_neg hneg, if_neg hneg]
  by_cases hmany : (Limits.multisigKeys : ℤ) < keyCount
  · rw [if_pos hmany, if_pos hmany]
    exact .refuse _
  rw [if_neg hmany, if_neg hmany]
  obtain ⟨n, rfl⟩ := Int.eq_ofNat_of_zero_le (Int.not_lt.mp hneg)
  have hn : n ≤ Limits.multisigKeys := by omega
  refine (count_simulates hn).bind fun _ _ => ?_
  refine (splitTop_simulates n).bind fun keys _ => popInt32_simulates.bind fun sigCount _ => ?_
  refine .ite (.refuse _) (.ite (.refuse _) ?_)
  refine (splitTop_simulates sigCount.toNat).bind fun signatures hlen =>
    popOne_simulates.bind fun _ _ => ?_
  exact matchKeys_simulates checkSignature_simulates (by rw [Nat.zero_add, hlen]) keys

/-! ## All operations -/

/-- The effect of an operation; `code` is the opcode it belongs to. -/
def perform (env : Env) (code : Opcode) : Operation → Machine Unit
  | .pushNumber n => pushNumber n
  | .nothing => pure ()
  | .invalid => refuse (.invalidOpcode code)
  | .reserved => refuse (.reservedOpcode code)
  | .disabled => refuse (.disabledOpcode code)
  | .openBranch negated => openBranch env negated
  | .switchBranch => switchBranch
  | .closeBranch => closeBranch
  | .verify => do require (← popTruth)
  | .stop => refuse .earlyReturn
  | .toAlt => toAlt
  | .fromAlt => fromAlt
  | .drop n => rearrange n (drop n)
  | .dup n => rearrange n (dup n)
  | .copyBelow n => rearrange (2 * n) (copyBelow n)
  | .rot n => rearrange (3 * n) (rot n)
  | .swap n => rearrange (2 * n) (swap n)
  | .dupIfTrue => dupIfTrue
  | .depth => depth
  | .nip => rearrange 2 nip
  | .pick => pick
  | .roll => roll
  | .tuck => rearrange 2 tuck
  | .size => size
  | .equal verify => do
    let (a, b) ← popTwo
    conclude verify (a == b)
  | .unary f => do
    let n ← popValue readNumber
    pushNumber (← exec (unary f n))
  | .binary f => do
    let (a, b) ← popTwoNumbers
    pushNumber (← exec (binary f a b))
  | .verifyNumbersEqual => do
    let (a, b) ← popTwoNumbers
    require (a == b)
  | .within => do
    let (x, lower, upper) ← popThreeNumbers
    pushNumber (numberOfBool (decide (lower ≤ x ∧ x < upper)))
  | .hash f => do push (f.digest (← popOne))
  | .checkSig verify => do
    let (sig, key) ← popTwo
    conclude verify (← checkSignature env sig key)
  | .checkMultiSig verify => do conclude verify (← checkMultiSig env)

/-- Checks an opcode and executes it. -/
def runOpcode (env : Env) (code : Opcode) : Machine Unit := do
  if code.isDisabled then refuse (.disabledOpcode code)
  else
    if code.isCounted then count 1
    let σ ← get
    if σ.isExecuting || code.isConditional then
      emit (.executing code σ.stack.length)
      perform env code (Operation.ofOpcode code)

theorem small_digest (f : HashFunction) (item : Bytes) : Small (f.digest item) := by
  unfold Small
  cases f with
  | ripemd160 => exact Nat.le_trans (Nat.le_of_eq (Digest.ripemd160_length _)) (by decide)
  | sha1 => exact Nat.le_trans (Nat.le_of_eq (Digest.sha1_length _)) (by decide)
  | sha256 => exact Nat.le_trans (Nat.le_of_eq (Digest.sha256_length _)) (by decide)
  | hash160 => exact Nat.le_trans (Nat.le_of_eq (Digest.hash160 item).length_eq) (by decide)
  | hash256 => exact Nat.le_trans (Nat.le_of_eq (Digest.hash256 item).length_eq) (by decide)

/-- The number of items is pushed where it has a sign. -/
theorem depth_matches (hσ : σ.Valid) (hroom : σ.view.items < 0x8000000000000000) :
    Matches Any (depth σ) ((do Engine.pushNumber (← get).stack.length : Engine Unit) σ.view) := by
  have hlen : σ.view.stack.length = σ.stack.length := List.length_reverse
  have hle : σ.view.stack.length ≤ σ.view.items := Nat.le_add_left _ _
  have hstack : σ.stack.length < 0x8000000000000000 :=
    Nat.lt_of_le_of_lt (hlen ▸ hle) hroom
  unfold depth
  rw [get_bind, Engine.get_bind, hlen]
  exact pushLength_simulates hstack hσ

/-- Every operation but one, from every valid state. -/
theorem perform_simulates {code : Opcode} {op : Operation} (hop : op ≠ .depth)
    (hconstant : op.constant.natAbs ≤ 16) :
    Simulates Any (perform env code op) (Engine.perform env code op) := by
  cases op with
  | pushNumber n => exact pushNumber_simulates (Nat.lt_of_le_of_lt hconstant (by decide))
  | nothing => exact .pure trivial
  | invalid => exact .refuse _
  | reserved => exact .refuse _
  | disabled => exact .refuse _
  | openBranch negated => exact openBranch_simulates negated
  | switchBranch => exact switchBranch_simulates
  | closeBranch => exact closeBranch_simulates
  | verify => exact popTruth_bind_simulates require_simulates
  | stop => exact .refuse _
  | toAlt => exact toAlt_simulates
  | fromAlt => exact fromAlt_simulates
  | drop n => exact rearrange_simulates (drop_rearranges n)
  | dup n => exact rearrange_simulates (dup_rearranges n)
  | copyBelow n => exact rearrange_simulates (copyBelow_rearranges n)
  | rot n => exact rearrange_simulates (rot_rearranges n)
  | swap n => exact rearrange_simulates (swap_rearranges n)
  | dupIfTrue => exact dupIfTrue_simulates
  | depth => exact absurd rfl hop
  | nip => exact rearrange_simulates nip_rearranges
  | pick => exact pick_simulates
  | roll => exact roll_simulates
  | tuck => exact rearrange_simulates tuck_rearranges
  | size => exact size_simulates
  | equal verify => exact popTwo_simulates.bind fun _ _ => conclude_simulates verify _
  | unary f =>
    refine popNumber_simulates.bind fun n hn => .exec (unary_eq f hn) (pushNumber_simulates ?_)
    exact Nat.lt_of_le_of_lt (natAbs_unary_lt f hn) (by decide)
  | binary f =>
    refine popTwoNumbers_simulates.bind fun ⟨a, b⟩ ⟨ha, hb⟩ =>
      .exec (binary_eq f ha hb) (pushNumber_simulates ?_)
    exact Nat.lt_of_le_of_lt (natAbs_binary_lt f ha hb) (by decide)
  | verifyNumbersEqual => exact popTwoNumbers_simulates.bind fun _ _ => require_simulates _
  | within =>
    refine popThreeNumbers_simulates.bind fun _ _ => pushNumber_simulates ?_
    exact Nat.lt_of_le_of_lt (numberOfBool_natAbs_le _) (by decide)
  | hash f => exact popOne_simulates.bind fun item _ => push_simulates (small_digest f item)
  | checkSig verify =>
    exact popTwo_simulates.bind fun _ _ => (checkSignature_simulates _ _).bind fun _ _ =>
      conclude_simulates verify _
  | checkMultiSig verify =>
    exact checkMultiSig_simulates.bind fun _ _ => conclude_simulates verify _

/-- The operation of an opcode, from a valid state whose stacks are not too large. -/
theorem perform_matches (code : Opcode) (hσ : σ.Valid)
    (hroom : σ.view.items < 0x8000000000000000) :
    Matches Any (perform env code (Operation.ofOpcode code) σ)
      (Engine.perform env code (Operation.ofOpcode code) σ.view) := by
  by_cases hop : Operation.ofOpcode code = .depth
  · rw [hop]
    exact depth_matches hσ hroom
  · exact perform_simulates hop (Operation.ofOpcode_bounded code).2 hσ

/-- An opcode, from a valid state whose stacks are not too large. -/
theorem runOpcode_matches (code : Opcode) (hσ : σ.Valid)
    (hroom : σ.view.items < 0x8000000000000000) :
    Matches Any (runOpcode env code σ) (Engine.runOpcode env code σ.view) := by
  have hact : ∀ τ : State, τ.Valid → τ.view.items < 0x8000000000000000 →
      Matches Any
        ((do
          let τ ← get
          if State.isExecuting τ || code.isConditional then
            emit (.executing code τ.stack.length)
            perform env code (Operation.ofOpcode code) : Machine Unit) τ)
        ((do
          let s ← get
          if s.isExecuting || code.isConditional then
            Engine.emit (.executing code s.stack.length)
            Engine.perform env code (Operation.ofOpcode code) : Engine Unit) τ.view) := by
    intro τ hτ hroom
    have hlen : τ.view.stack.length = τ.stack.length := List.length_reverse
    rw [get_bind, Engine.get_bind, State.isExecuting_view, hlen]
    split_ifs
    · refine (emit_simulates _ hτ).bind fun _ τ' hemit _ hτ' => perform_matches code hτ' ?_
      exact Nat.lt_of_le_of_lt (Engine.emit_grows _ hemit) hroom
    · exact .ok trivial hτ
  unfold runOpcode Engine.runOpcode
  split_ifs
  · exact .error _ σ
  · refine (count_simulates (n := 1) (by decide) hσ).bind fun _ τ hcount _ hτ => hact τ hτ ?_
    exact Nat.lt_of_le_of_lt (Engine.count_grows 1 hcount) hroom
  · exact hact σ hσ hroom

end SpendScript.Machine
