import SpendScript.Proofs.Engine.Outcomes
import SpendScript.Proofs.Lock.ScriptHash
import SpendScript.Proofs.Lock.Security

/-!
# Scripts behind hashes

A pay-to-script-hash lock runs the script that the last push of its opening reveals, as if that
script had been the lock.

Results:

* `Lock.redeemed`: spending through the hash of a script gives the result and the stack of the
  script itself, and a push of other data fails.
* `Script.Redemption`: an opening that ends with a push and what it reveals.
  `Lock.openedByRedeemScript`: every opening that succeeds is one, or leaves an item with the hash
  in another way.
-/

namespace SpendScript

namespace Script

variable {env : Env} {cache : SigCache} {opening : Script} {s : State} {xs cs : List Command}
  {hash : Digest.Hash160} {p : Push}

/-! ## What opens a lock to the hash of a script -/

theorem revealsNothing_lock (hash : Digest.Hash160) :
    RevealsNothingBefore (Lock.toScriptHash hash).commands [] := by
  intro init p tail heq
  apply scriptHashLock?_eq_none
  have hlen : 3 = (init ++ .push p :: tail).length := congrArg List.length heq
  rw [List.length_append, List.length_cons] at hlen
  rw [List.append_nil]
  omega

theorem isConditional_lock (hash : Digest.Hash160) :
    ∀ c ∈ (Lock.toScriptHash hash).commands, c.isConditional = false := by
  simp only [Lock.toScriptHash, ofCommands, List.forall_mem_cons]
  exact ⟨rfl, rfl, rfl, List.forall_mem_nil _⟩

/-- Without a push right before it, the lock is run like any commands: it takes an item and leaves
the answer whether the item has the hash. -/
theorem exists_of_loop_lock {t : State} (hp : s.pending = (Lock.toScriptHash hash).commands)
    (hc : s.conditions = []) (h : Engine.loop env 3 s = .ok () t) :
    ∃ x below, s.stack = x :: below ∧
      t.stack = ScriptNumber.ofBool ((Digest.hash160 x).bytes == hash.bytes) :: below := by
  have hexec : ∀ {s : State} (rest : List Command), s.conditions = [] →
      (Engine.fetched s rest).isExecuting = true :=
    fun _ hc => Engine.isExecuting_of_conditions_eq_nil hc
  obtain ⟨s₁, hrun₁, -, h₁⟩ := (Engine.loop_cons hp 2).mp h
  obtain ⟨-, hhash⟩ := (Engine.runOpcode_executing (by decide) (hexec _ hc)).mp hrun₁
  obtain ⟨x, below, hs, hs₁⟩ := Engine.perform_hash.mp hhash
  have hp₁ : s₁.pending = [.ofHash hash, .op Opcode.equal] := by
    rw [hs₁]
    rfl
  have hc₁ : s₁.conditions = [] := by
    rw [hs₁]
    exact hc
  obtain ⟨s₂, hrun₂, -, h₂⟩ := (Engine.loop_cons hp₁ 1).mp h₁
  rw [Engine.runCommand_eq_runPlain rfl] at hrun₂
  obtain ⟨-, -, hs₂⟩ := (Engine.runPlain_push_executing (hexec _ hc₁)).mp hrun₂
  have hp₂ : s₂.pending = [.op Opcode.equal] := by rw [hs₂]; rfl
  have hc₂ : s₂.conditions = [] := by
    rw [hs₂]
    exact hc₁
  obtain ⟨s₃, hrun₃, -, h₃⟩ := (Engine.loop_cons hp₂ 0).mp h₂
  obtain ⟨-, hequal⟩ := (Engine.runOpcode_executing (by decide) (hexec _ hc₂)).mp hrun₃
  obtain ⟨a, b, rest, hstack, hs₃⟩ := Engine.perform_equal.mp hequal
  have hitems : hash.bytes :: (Digest.hash160 x).bytes :: below = b :: a :: rest := by
    rw [← hstack]
    show _ = s₂.stack
    rw [hs₂, hs₁]
    rfl
  obtain ⟨rfl, hbelow⟩ := List.cons.inj hitems
  obtain ⟨rfl, rfl⟩ := List.cons.inj hbelow
  cases h₃
  refine ⟨x, below, hs, ?_⟩
  rw [hs₃]

theorem exists_of_execute_lock (hlast : ∀ p, opening.commands.getLast? ≠ some (.push p))
    (h : ((opening ++ Lock.toScriptHash hash).execute env cache).result = .ok ()) :
    ∃ s x, ReachedLock opening (Lock.toScriptHash hash) env cache s ∧ s.stack = [x] ∧
      Digest.hash160 x = hash := by
  have hopening : RevealsNothingBefore opening.commands (Lock.toScriptHash hash).commands := by
    intro init p tail heq
    apply scriptHashLock?_eq_none
    have hne : tail ≠ [] := by
      rintro rfl
      apply hlast p
      rw [heq, List.getLast?_concat]
    have hpos := List.length_pos_iff.mpr hne
    show (tail ++ _).length ≠ 3
    rw [List.length_append]
    show tail.length + 3 ≠ 3
    omega
  obtain ⟨s, t, item, hreached, -, hloop, hstack, htrue⟩ :=
    exists_lockRun hopening (revealsNothing_lock hash) (isConditional_lock hash) h
  obtain ⟨x, below, hs, ht⟩ :=
    exists_of_loop_lock hreached.pending_eq hreached.conditions_eq hloop
  rw [hstack] at ht
  obtain ⟨rfl, rfl⟩ := List.cons.inj ht
  have hanswer : ∀ answer, ScriptNumber.truth (ScriptNumber.ofBool answer) = answer := by decide
  rw [hanswer] at htrue
  exact ⟨s, x, hreached, hs, Digest.Hash.eq_of_bytes_eq (eq_of_beq htrue)⟩

/-- A successful run executes the push before the lock: a skipped push leaves a conditional open
that the lock cannot close. -/
theorem isExecuting_of_loop {t : State} {n : ℕ}
    (hp : s.pending = .push p :: (Lock.toScriptHash hash).commands)
    (h : Engine.loop env (3 + n + 1) s = .ok () t) (hc : t.conditions = []) :
    s.isExecuting = true := by
  by_contra hexec
  obtain ⟨u, hrun, -, hrest⟩ := (Engine.loop_cons hp (3 + n)).mp h
  have hskip : u = Engine.fetched s (Lock.toScriptHash hash).commands := by
    simp only [Engine.runCommand] at hrun
    obtain ⟨admitted, u', hadmit, hu⟩ := Engine.bind_eq_ok.mp hrun
    obtain ⟨rfl, -, hiff, -⟩ := Engine.admitPush_eq_ok.mp hadmit
    rw [if_neg (mt hiff.mp hexec)] at hu
    cases hu
    rfl
  rw [Engine.loop_add] at hrest
  obtain ⟨_, v, hlock, hend⟩ := Engine.bind_eq_ok.mp hrest
  have hpending : u.pending = (Lock.toScriptHash hash).commands ++ [] := by
    rw [hskip]
    rfl
  have hdone := Engine.loop_passed (revealsNothing_lock hash) hpending hlock
  rw [Engine.loop_nil hdone.pending_eq] at hend
  cases hend
  apply hexec
  apply Engine.isExecuting_of_conditions_eq_nil
  rw [← hc, hdone.conditions_eq (isConditional_lock hash), hskip]
  rfl

/-- If opening the lock with a push succeeds, so does the revealed script in place of the push and
the lock. -/
theorem execute_direct (hopening : opening.Segmented) (hxs : opening.commands = xs ++ [.push p])
    (hexec : ∀ s, Engine.loop env xs.length
      (State.start (opening ++ Lock.toScriptHash hash) cache) = .ok () s → s.isExecuting = true)
    (hreveals : p.Reveals env.flags hash cs) (hr : RevealsNothingBefore xs cs)
    (h : ((opening ++ Lock.toScriptHash hash).execute env cache).result = .ok ()) :
    ((opening.take xs.length ++ ofCommands cs).execute env cache).result = .ok () := by
  obtain ⟨-, hsizes, t, item, hloop, hconditions, hstack, htrue⟩ := execute_eq_ok_iff.mp h
  have hagree := loop_redeem_agree hopening hxs hexec hreveals hr
  rw [show Engine.loop env (opening ++ Lock.toScriptHash hash).byteLength _ = _ from hloop]
    at hagree
  obtain ⟨t', ht', hend⟩ := hagree.exists_ok
  refine execute_eq_ok_iff.mpr ⟨fun hnil => ?_, ?_, t', item, ht',
    hend.conditions_eq.trans hconditions, hend.stack_eq.trans hstack, htrue⟩
  · have hempty : (State.start (opening.take xs.length ++ ofCommands cs) cache).pending = [] :=
      hnil
    rw [Engine.loop_nil hempty] at ht'
    cases ht'
    cases hend.stack_eq.trans hstack
  · have hallowed : opening.SizesAllowed := by
      intro part hpart
      apply hsizes
      rw [parts_append hopening]
      exact List.mem_append_left _ hpart
    rw [← oversize?_eq_none, oversize?_append (hopening.take _) (sizesAllowed_of_reveals hreveals),
      oversize?_eq_none]
    exact hallowed.take _

/-- The opening is `front` and a push of the bytes of `redeem`, which have the hash. The script
succeeds on what `front` leaves in `s`, and also right after `front`, unless it is a lock there that
reveals a script of its own. -/
structure Redemption (opening : Script) (hash : Digest.Hash160) (env : Env) (cache : SigCache)
    (front redeem : Script) (p : Push) (s : State) : Prop where
  front_eq : front = opening.take front.commands.length
  commands_eq : opening.commands = front.commands ++ [.push p]
  hash_eq : Digest.hash160 p.data = hash
  ofBytes_eq : ofBytes p.data = .ok redeem
  run_eq : Engine.loop env front.commands.length
    (State.start (opening ++ Lock.toScriptHash hash) cache) = .ok () s
  succeeds : Engine.Succeeds env redeem.byteLength (s.resume redeem)
  direct : RevealsNothingBefore front.commands redeem.commands →
    ((front ++ redeem).execute env cache).result = .ok ()

/-- A successful run through an opening that ends with a push redeems the lock. -/
theorem exists_redemption (hopening : opening.Segmented)
    (hxs : opening.commands = xs ++ [.push p])
    (h : ((opening ++ Lock.toScriptHash hash).execute env cache).result = .ok ()) :
    ∃ s cs, Redemption opening hash env cache (opening.take xs.length) (ofCommands cs) p s := by
  obtain ⟨-, hsizes, t, item, hloop, hconditions, hstack, htrue⟩ := execute_eq_ok_iff.mp h
  have hbytes := byteLength_lock hash hxs
  have hxsLength := Command.length_le_totalLength xs
  have hdata : p.data.length ≤ p.byteLength := Nat.le_add_left _ _
  obtain ⟨n, hn⟩ : ∃ n, (opening ++ Lock.toScriptHash hash).byteLength =
      xs.length + (3 + n + 1) :=
    ⟨(opening ++ Lock.toScriptHash hash).byteLength - xs.length - 4, by omega⟩
  have hsplit := hloop
  rw [show Command.totalLength (opening ++ Lock.toScriptHash hash).commands =
    xs.length + (3 + n + 1) from hn, Engine.loop_add] at hsplit
  obtain ⟨_, s, hxsRun, hrest⟩ := Engine.bind_eq_ok.mp hsplit
  have hpassed := passed_of_loop hxs hxsRun
  have hexec := isExecuting_of_loop hpassed.pending_eq hrest hconditions
  have hoperations : (Engine.fetched (Engine.fetched s (Lock.toScriptHash hash).commands)
      []).operations = 0 :=
    if_pos ((mem_segmentStarts_of_loop hxs hxsRun).mpr (Or.inr rfl))
  obtain ⟨v, hpush, -⟩ := (Engine.loop_cons hpassed.pending_eq _).mp hrest
  obtain ⟨cs, hreveals⟩ := Engine.reveals_of_runCommand
    (s := Engine.fetched s (Lock.toScriptHash hash).commands) rfl hexec
    (by rw [hoperations]; decide) hpush
  obtain ⟨u, hu, hsame, hsteps⟩ := exists_begins_of_loop hopening hxs hxsRun hexec hreveals
  rw [hsteps] at hrest
  have hcs := Command.totalLength_of_decode hreveals.decode_eq
  have hfront := commands_take hxs
  refine ⟨s, cs, by rw [hfront], by rw [hfront, hxs], hreveals.hash_eq,
    ofBytes_eq_ok.mpr ⟨cs, hreveals.decode_eq, rfl⟩, by rw [hfront, hxsRun],
    Engine.succeeds_resume hu hsame (n := 3 + n) (by omega)
      ⟨t, item, hrest, hconditions, hstack, htrue⟩, fun hr => ?_⟩
  rw [hfront] at hr
  refine execute_direct hopening hxs (fun s' hs' => ?_) hreveals hr h
  rw [hxsRun] at hs'
  cases hs'
  exact hexec

/-! ## Scripts in place of their hashes -/

/-- What opens a lock to the hash of a script: an opening of the script, and a push of its bytes. -/
def thenPush (opening : Script) (p : Push) : Script :=
  opening ++ .ofCommands [.push p]

/-- Bytes that spell a script are no byte of an opcode for small numbers. -/
theorem hasOpcode_of_decode {b : UInt8} (h : Command.decode [b] = .ok cs) (hb : b ≠ 0x81) :
    Push.hasOpcode b = false := by
  obtain ⟨c, rest, ds, hread, -⟩ := Command.exists_of_decode_cons h
  simp only [Push.hasOpcode, decide_eq_false_iff_not]
  rintro (⟨hone, hle⟩ | heq)
  · have hdirect : 1 ≤ b ∧ b ≤ Opcode.lastDirect := ⟨hone, UInt8.le_trans hle (by decide)⟩
    unfold Command.read at hread
    rw [dif_pos hdirect] at hread
    obtain ⟨data, -, hlen, hnil, -⟩ := Command.exists_of_readData hread
    rw [(List.append_eq_nil_iff.mp hnil).1, List.length_nil] at hlen
    rw [UInt8.le_iff_toNat_le, ← hlen] at hone
    exact absurd hone (by decide)
  · exact hb heq

/-- The push and the lock are no parts that are too long. -/
theorem oversize?_thenPush (hopening : opening.Segmented)
    (hsize : p.data.length ≤ Limits.elementSize) (hash : Digest.Hash160) :
    (opening.thenPush p ++ Lock.toScriptHash hash).oversize? = opening.oversize? := by
  have hpush : (ofCommands [.push p]).SizesAllowed := by
    apply sizesAllowed_of_le
    have hle := p.byteLength_le
    show p.byteLength + 0 ≤ 10000
    have : p.data.length ≤ 520 := hsize
    omega
  have hlock : (Lock.toScriptHash hash).SizesAllowed := by
    apply sizesAllowed_of_le
    show Command.totalLength (Lock.toScriptHash hash).commands ≤ 10000
    rw [Engine.totalLength_toScriptHash]
    decide
  rw [thenPush, oversize?_append (hopening.append (segmented_ofCommands _)) hlock,
    oversize?_append hopening hpush]

/-- The run of a script behind a hash agrees with the run of the script itself. -/
theorem run_redeem_agree (hopening : opening.Segmented) (hreveals : p.Reveals env.flags hash cs)
    (hne : ¬(opening.commands = [] ∧ cs = []))
    (hexec : ∀ s, Engine.loop env opening.commands.length
      (State.start (opening.thenPush p ++ Lock.toScriptHash hash) cache) = .ok () s →
        s.isExecuting = true)
    (hr : RevealsNothingBefore opening.commands cs) :
    Engine.Agree .exact (State.SameEnd .exact)
      (Engine.run env (State.start (opening.thenPush p ++ Lock.toScriptHash hash) cache))
      (Engine.run env (State.start (opening ++ ofCommands cs) cache)) := by
  have hsizes := sizesAllowed_of_reveals hreveals
  have hagree := loop_redeem_agree (hopening.append (segmented_ofCommands _)) rfl hexec hreveals hr
  rw [take_append hopening] at hagree
  have hstart : State.SameEnd .exact
      (State.start (opening.thenPush p ++ Lock.toScriptHash hash) cache)
      (State.start (opening ++ ofCommands cs) cache) := ⟨rfl, show cache = cache from rfl⟩
  rw [Engine.run_start, Engine.run_start, oversize?_thenPush hopening hreveals.admitted.1,
    oversize?_append hopening hsizes,
    if_neg (commands_lock_ne_nil _ hash),
    if_neg (show ¬(opening ++ ofCommands cs).commands = [] from
      fun h => hne (List.append_eq_nil_iff.mp h))]
  cases opening.oversize? with
  | some size => exact .halt _ hstart
  | none => exact hagree.bind fun _ _ _ _ _ h => Engine.finish_agree h

/-- Spending through the hash of a script gives what the script itself gives. -/
theorem observed_redeem (hopening : opening.Segmented) {redeem : Script}
    (hredeem : ofBytes redeem.toBytes = .ok redeem)
    (hsize : redeem.toBytes.length ≤ Limits.elementSize) (hminus : redeem.toBytes ≠ [0x81])
    (hne : ¬(opening.commands = [] ∧ redeem.commands = []))
    (hp : Push.ofBytes redeem.toBytes = .ok p)
    (hexec : ∀ s, Engine.loop env opening.commands.length
      (State.start (opening.thenPush p ++ Lock.toScript redeem) cache) = .ok () s →
        s.isExecuting = true)
    (hr : RevealsNothingBefore opening.commands redeem.commands) :
    ((opening.thenPush p ++ Lock.toScript redeem).execute env cache).observed =
      ((opening ++ redeem).execute env cache).observed := by
  obtain ⟨hdata, -⟩ := Push.ofBytes_eq_ok hp
  obtain ⟨cs, hdecode, rfl⟩ := ofBytes_eq_ok.mp hredeem
  have hminimal : p.isMinimal = true := by
    apply Push.isMinimal_of_ofBytes hp
    intro b hb
    rw [hb] at hdecode hminus
    exact hasOpcode_of_decode hdecode fun h => hminus (congrArg ([·]) h)
  have hreveals : p.Reveals env.flags (ofCommands cs).hash160 cs := by
    refine ⟨⟨?_, fun _ => hminimal⟩, ?_, ?_⟩
    · rw [hdata]
      exact hsize
    · rw [hdata]
      rfl
    · rw [hdata]
      exact hdecode
  exact (observed_of_agree (run_redeem_agree hopening hreveals hne hexec hr)).symm

/-- A push of other data than the script fails the lock. -/
theorem execute_of_hash_ne (hopening : opening.Segmented) (hsizes : opening.SizesAllowed)
    (h : Engine.loop env opening.commands.length
      (State.start (opening.thenPush p ++ Lock.toScriptHash hash) cache) = .ok () s)
    (hexec : s.isExecuting = true) (hadm : (Command.push p).Admitted env.flags)
    (hhash : Digest.hash160 p.data ≠ hash) :
    ((opening.thenPush p ++ Lock.toScriptHash hash).execute env cache).result =
      .error (.error .verifyFailed) := by
  have hxs : (opening.thenPush p).commands = opening.commands ++ [.push p] := rfl
  have hbytes := byteLength_lock hash hxs
  have hsteps := Command.length_le_totalLength opening.commands
  obtain ⟨n, hn⟩ : ∃ n, (opening.thenPush p ++ Lock.toScriptHash hash).byteLength =
      opening.commands.length + (n + 1) :=
    ⟨(opening.thenPush p ++ Lock.toScriptHash hash).byteLength - opening.commands.length - 1,
      by omega⟩
  obtain ⟨t, herror⟩ := Engine.exists_loop_error (passed_of_loop hxs h).pending_eq
    ((mem_segmentStarts_of_loop hxs h).mpr (Or.inr rfl)) hexec hadm hhash n
  have hrun : Engine.run env (State.start (opening.thenPush p ++ Lock.toScriptHash hash) cache) =
      .error (.error .verifyFailed) t := by
    rw [Engine.run_start, if_neg (commands_lock_ne_nil _ hash), oversize?_thenPush hopening hadm.1,
      oversize?_eq_none.mpr hsizes]
    refine Engine.bind_of_eq_error ?_
    rw [hn, Engine.loop_add]
    exact (Engine.bind_of_eq_ok h).trans herror
  unfold execute
  rw [hrun]

end Script

namespace Lock

/-- Spending through a hash is running the script itself. -/
theorem redeemed (env : Env) (cache : SigCache) {opening : Script} (hopening : opening.Segmented) :
    (∀ (redeem : Script) (p : Push), Script.ofBytes redeem.toBytes = .ok redeem →
      redeem.toBytes.length ≤ Limits.elementSize → redeem.toBytes ≠ [0x81] →
      ¬(opening.commands = [] ∧ redeem.commands = []) → Push.ofBytes redeem.toBytes = .ok p →
      (∀ s, Engine.loop env opening.commands.length
        (State.start (opening.thenPush p ++ toScript redeem) cache) = .ok () s →
          s.isExecuting = true) →
      Script.RevealsNothingBefore opening.commands redeem.commands →
      ((opening.thenPush p ++ toScript redeem).execute env cache).observed =
        ((opening ++ redeem).execute env cache).observed) ∧
    ∀ (hash : Digest.Hash160) (p : Push) (s : State), opening.SizesAllowed →
      Engine.loop env opening.commands.length
        (State.start (opening.thenPush p ++ toScriptHash hash) cache) = .ok () s →
      s.isExecuting = true → p.data.length ≤ Limits.elementSize →
      (env.flags.minimalData = true → p.isMinimal = true) → Digest.hash160 p.data ≠ hash →
      ((opening.thenPush p ++ toScriptHash hash).execute env cache).result =
        .error (.error .verifyFailed) := by
  refine ⟨?_, ?_⟩
  · intro redeem p hredeem hsize hminus hne hp hexec hr
    exact Script.observed_redeem hopening hredeem hsize hminus hne hp hexec hr
  · intro hash p s hsizes h hexec hlen hmin hhash
    exact Script.execute_of_hash_ne hopening hsizes h hexec ⟨hlen, hmin⟩ hhash

/-- Succeeds if three and the item below make five. -/
def sumRedeem : Script :=
  .ofCommands [.op 0x53, .op 0x93, .op 0x55, .op Opcode.equal]

def sumPush : Push :=
  ⟨[0x53, 0x93, 0x55, 0x87], .direct, by decide⟩

/-- The script with six for five. -/
def wrongPush : Push :=
  ⟨[0x53, 0x93, 0x56, 0x87], .direct, by decide⟩

def twoOpening : Script :=
  .ofCommands [.op 0x52]

def allPolicies : Env :=
  ⟨0, ⟨true, true, true, 8⟩⟩

theorem execute_sum :
    ((twoOpening.thenPush sumPush ++ toScript sumRedeem).execute allPolicies
      Script.noCache).result = .ok () := by
  decide +kernel

/-- Two and three make five, behind the hash and in the open; another script has another hash. -/
theorem redeemed_sum :
    ((twoOpening.thenPush sumPush ++ toScript sumRedeem).execute allPolicies
      Script.noCache).result = .ok () ∧
    ((twoOpening.thenPush sumPush ++ toScript sumRedeem).execute allPolicies
      Script.noCache).observed =
        ((twoOpening ++ sumRedeem).execute allPolicies Script.noCache).observed ∧
    ((twoOpening.thenPush wrongPush ++ toScriptHash sumRedeem.hash160).execute allPolicies
      Script.noCache).result = .error (.error .verifyFailed) := by
  have htwo : twoOpening.Segmented := Script.segmented_ofCommands _
  have hreveals : Script.RevealsNothingBefore twoOpening.commands sumRedeem.commands :=
    .of_shields (Script.shields_of_length (by decide)) _
  refine ⟨execute_sum, ?_, ?_⟩
  · refine (redeemed allPolicies Script.noCache htwo).1 sumRedeem sumPush (by decide +kernel)
      (by decide +kernel) (by decide +kernel) (by decide +kernel) (by decide +kernel) ?_ hreveals
    intro s h
    cases h
    rfl
  · exact (redeemed allPolicies Script.noCache htwo).2 sumRedeem.hash160 wrongPush _
      (Script.sizesAllowed_of_le (by decide)) rfl rfl (by decide +kernel) (by decide +kernel)
      (by decide +kernel)

/-- Opcodes that are too many for one script, but not for the two that it is made of. -/
def twoParts : Script :=
  .ofCommands (List.replicate 150 (.op 0x61)) ++
    .ofCommands (List.replicate 60 (.op 0x61) ++ [.op Opcode.one])

def onePart : Script :=
  .ofCommands (List.replicate 210 (.op 0x61) ++ [.op Opcode.one])

/-- A script of two parts has the bytes of the same commands in one part, which can fail where the
parts do not. -/
theorem redeemed_not_of_sameCommands :
    ¬ ∀ (env : Env) (cache : SigCache) (opening redeem : Script) (p : Push),
      (∃ read, Script.ofBytes redeem.toBytes = .ok read ∧ read.sameCommands redeem = true) →
      redeem.toBytes.length ≤ Limits.elementSize → redeem.toBytes ≠ [0x81] →
      ¬(opening.commands = [] ∧ redeem.commands = []) → Push.ofBytes redeem.toBytes = .ok p →
      (∀ s, Engine.loop env opening.commands.length
        (State.start (opening.thenPush p ++ toScript redeem) cache) = .ok () s →
          s.isExecuting = true) →
      Script.RevealsNothingBefore opening.commands redeem.commands →
      ((opening.thenPush p ++ toScript redeem).execute env cache).observed =
        ((opening ++ redeem).execute env cache).observed := by
  intro h
  let p : Push := ⟨onePart.toBytes, .pushData1, by decide +kernel⟩
  have hbytes : twoParts.toBytes = onePart.toBytes := by decide +kernel
  have hlock : toScript twoParts = toScript onePart := by
    rw [toScript, toScript, Script.hash160, Script.hash160, hbytes]
  have hread : Script.ofBytes onePart.toBytes = .ok onePart := by decide +kernel
  have hsize : onePart.toBytes.length ≤ Limits.elementSize := by decide +kernel
  have hminus : onePart.toBytes ≠ [0x81] := by decide +kernel
  have hp : Push.ofBytes onePart.toBytes = .ok p := by decide +kernel
  have hexec : ∀ s, Engine.loop ⟨0, Flags.default⟩ 0
      (State.start (Script.empty.thenPush p ++ toScript onePart) Script.noCache) = .ok () s →
      s.isExecuting = true := by
    intro s hs
    cases hs
    rfl
  have hone := Script.observed_redeem (Script.segmented_ofCommands _) hread hsize hminus
    (fun h => List.cons_ne_nil _ _ h.2) hp hexec (.nil _)
  have htwo := h ⟨0, Flags.default⟩ Script.noCache .empty twoParts p
  rw [hbytes, hlock] at htwo
  have hparts := htwo ⟨onePart, hread, by decide +kernel⟩ hsize hminus
    (fun h => List.cons_ne_nil _ _ h.2) hp hexec (.nil _)
  -- The two differ without a lock: only the one part has too many opcodes.
  exact absurd (hone.symm.trans hparts) (by decide +kernel)

/-- A lock to a hash is opened by the script that a push right before it reveals, run on what the
rest of the opening leaves; or, without such a push, by an item with this hash alone. -/
theorem openedByRedeemScript (env : Env) (cache : SigCache) {opening : Script}
    (hopening : opening.Segmented) (hash : Digest.Hash160)
    (h : ((opening ++ toScriptHash hash).execute env cache).result = .ok ()) :
    ((∀ p, opening.commands.getLast? ≠ some (.push p)) ∧
      ∃ s x, Script.ReachedLock opening (toScriptHash hash) env cache s ∧ s.stack = [x] ∧
        Digest.hash160 x = hash) ∨
    ∃ front redeem p s, Script.Redemption opening hash env cache front redeem p s := by
  by_cases hlast : ∃ p, opening.commands.getLast? = some (.push p)
  · obtain ⟨p, hp⟩ := hlast
    obtain ⟨xs, hxs⟩ := List.getLast?_eq_some_iff.mp hp
    obtain ⟨s, cs, hredemption⟩ := Script.exists_redemption hopening hxs h
    exact Or.inr ⟨_, _, p, s, hredemption⟩
  · rw [not_exists] at hlast
    exact Or.inl ⟨hlast, Script.exists_of_execute_lock hlast h⟩

/-- The sum behind its hash can only be opened by the script for it. -/
theorem openedByRedeemScript_sum :
    ((twoOpening.thenPush sumPush ++ toScript sumRedeem).execute allPolicies
      Script.noCache).result = .ok () ∧
    ∃ front redeem p s, Script.Redemption (twoOpening.thenPush sumPush) sumRedeem.hash160
      allPolicies Script.noCache front redeem p s := by
  have hopening : (twoOpening.thenPush sumPush).Segmented :=
    (Script.segmented_ofCommands _).append (Script.segmented_ofCommands _)
  refine ⟨execute_sum, ?_⟩
  rcases openedByRedeemScript allPolicies Script.noCache hopening sumRedeem.hash160 execute_sum with
    ⟨hlast, -⟩ | hpush
  · exact absurd rfl (hlast sumPush)
  · exact hpush

/-- The bytes of a script that never succeeds, and an opcode that does nothing. -/
def pushThenNop : Script :=
  .ofCommands [.push ⟨[0x6a], .direct, by decide⟩, .op 0x61]

/-- A lock to the hash of a script, as a redeem script. -/
def innerLock : Script :=
  toScriptHash (Digest.hash160 [0x00])

/-- What the inner lock commits to, and the inner lock. -/
def innerOpening : Script :=
  .ofCommands
    [.push ⟨[0x00], .direct, by decide⟩, .push ⟨innerLock.toBytes, .direct, by decide +kernel⟩]

/-- A lock to a hash is opened by an item that no push right before the lock has left, and by a
redeem script that is a lock itself, whose own script is not run. -/
theorem openedOtherwise :
    (((pushThenNop ++ toScriptHash (Digest.hash160 [0x6a])).execute ⟨0, Flags.default⟩
        Script.noCache).result = .ok () ∧
      ∀ front p, pushThenNop.commands ≠ front ++ [.push p]) ∧
    ((innerOpening ++ toScript innerLock).execute ⟨0, Flags.default⟩ Script.noCache).result =
      .ok () ∧
    ∀ front p redeem, innerOpening.commands = front ++ [.push p] →
      Script.ofBytes p.data = .ok redeem →
      ((Script.ofCommands front ++ redeem).execute ⟨0, Flags.default⟩ Script.noCache).result ≠
        .ok () := by
  refine ⟨⟨by decide +kernel, fun front p heq => ?_⟩, by decide +kernel,
    fun front p redeem heq hredeem => ?_⟩
  · have hlast := congrArg List.getLast? heq
    rw [List.getLast?_concat] at hlast
    cases hlast
  · obtain ⟨rfl, hp⟩ := List.append_singleton_inj.mp
      (show [Command.push ⟨[0x00], .direct, by decide⟩] ++ [.push _] = front ++ [.push p] from heq)
    cases hp
    have hread : Script.ofBytes innerLock.toBytes = .ok innerLock := by decide +kernel
    cases hread.symm.trans hredeem
    decide +kernel

end Lock

end SpendScript
