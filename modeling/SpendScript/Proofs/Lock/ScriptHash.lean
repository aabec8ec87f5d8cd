import SpendScript.Proofs.Engine.Lockstep
import SpendScript.Proofs.Engine.Reveal
import SpendScript.Proofs.Engine.Termination

/-!
# Runs through a lock to a script's hash

A push right before a pay-to-script-hash lock reveals the script that comes next. Up to the push a
run cannot tell the lock from the script itself, and what follows the lock begins like a part of a
concatenation: with no opcode counted.

Results:

* `Push.Reveals`: what such a push must be. `Engine.reveals_of_runCommand`: no other push passes
  the lock; `Engine.exists_loop_error`: other data fails it.
* `Engine.exists_begins`: the push, the lock and the revealed script as one step.
* `Script.loop_redeem_agree`: the run through the lock agrees with the run of the script.
-/

namespace SpendScript

/-- The push passes the policy, and its data has the hash and spells the commands. -/
structure Push.Reveals (p : Push) (flags : Flags) (hash : Digest.Hash160) (cs : List Command) :
    Prop where
  admitted : (Command.push p).Admitted flags
  hash_eq : Digest.hash160 p.data = hash
  decode_eq : Command.decode p.data = .ok cs

/-- The state in which a script is run on what is left in `s`. -/
def State.resume (s : State) (script : Script) : State :=
  { s with
    operations := 0
    position := 0
    pending := script.commands
    segmentStarts := script.segmentStarts }

theorem State.sameData_resume (s : State) (script : Script) :
    State.SameData .exact s (s.resume script) :=
  ⟨⟨rfl, show s.cache = s.cache from rfl⟩, rfl, rfl⟩

theorem State.begins_resume (s : State) (cs : List Command) :
    (s.resume (.ofCommands cs)).Begins cs := by
  refine ⟨rfl, fun _ => Or.inr rfl, fun i hi => ?_⟩
  cases hi

namespace Engine

variable {env : Env} {s t u : State} {cs : List Command} {hash : Digest.Hash160} {p : Push}

/-! ## The push before the lock -/

/-- A push that opens the lock leaves the items as they are and begins the script that it
reveals. -/
theorem exists_begins (hp : s.pending = .push p :: (Lock.toScriptHash hash).commands)
    (hstart : s.position + 1 ∈ s.segmentStarts)
    (hstarts : ∀ i ∈ s.segmentStarts, i ≤ s.position + 1)
    (hsize : s.alt.length + s.stack.length ≤ Limits.stackSize) (hexec : s.isExecuting = true)
    (hreveals : p.Reveals env.flags hash cs) :
    ∃ u, u.Begins cs ∧ State.SameData .exact s u ∧ ∀ n, loop env (n + 1) s = loop env n u := by
  have hops : (fetched (fetched s (Lock.toScriptHash hash).commands) []).operations = 0 :=
    if_pos hstart
  obtain ⟨t, hreveal, ht, hstack, -⟩ := exists_reveal_eq
    (s := fetched s (Lock.toScriptHash hash).commands) env rfl hexec (by rw [hops]; decide) p.data
  rw [hreveals.hash_eq, beq_self_eq_true] at hreveal
  have hpending : t.pending = [] := ht.pending_eq
  have hposition : t.position = s.position + 4 := ht.position_eq
  have hsegments : (revealed t cs).segmentStarts = s.segmentStarts ++ [s.position + 4] := by
    show t.segmentStarts ++ [t.position + t.pending.length] = _
    rw [ht.segmentStarts_eq, hpending, hposition]
    rfl
  refine ⟨revealed t cs, ⟨?_, fun _ => Or.inl ?_, fun i hi => ?_⟩,
    ⟨⟨hstack, ht.cache_eq⟩, ht.alt_eq, ht.conditions_eq⟩, fun n => ?_⟩
  · show t.pending ++ cs = cs
    rw [hpending, List.nil_append]
  · rw [hsegments]
    exact List.mem_append_right _ (List.mem_singleton.mpr hposition)
  · show i ≤ t.position
    rw [hposition]
    rw [hsegments, List.mem_append, List.mem_singleton] at hi
    rcases hi with hi | rfl
    · have := hstarts i hi
      omega
    · exact Nat.le_refl _
  · have hrun : runCommand env (.push p) (fetched s (Lock.toScriptHash hash).commands) =
        .ok () (revealed t cs) := by
      rw [runCommand_push_lock (s := fetched s (Lock.toScriptHash hash).commands) rfl hexec
        hreveals.admitted, hreveal]
      exact afterLock_eq_ok.mpr ⟨rfl, cs, hreveals.decode_eq, rfl⟩
    have hsmall : (revealed t cs).alt.length + (revealed t cs).stack.length ≤ Limits.stackSize := by
      show t.alt.length + t.stack.length ≤ Limits.stackSize
      rw [ht.alt_eq, hstack]
      exact hsize
    rw [loop_succ hp, bind_of_eq_ok hrun]
    exact bind_of_eq_ok (checkStackSize_eq_ok.mpr ⟨rfl, hsmall⟩)

/-- What succeeds where a script begins also succeeds where the script resumes. -/
theorem succeeds_resume {n : ℕ} (hbegins : u.Begins cs) (hsame : State.SameData .exact s u)
    (hn : Command.totalLength cs ≤ n) (h : Succeeds env n u) :
    Succeeds env (Script.ofCommands cs).byteLength (s.resume (.ofCommands cs)) := by
  obtain ⟨t, item, hloop, hconditions, hstack, htrue⟩ := h
  have hresume := hsame.symm.trans (s.sameData_resume (.ofCommands cs))
  have hagree := loop_begins_agree (.refl .exact env) hresume hbegins (s.begins_resume cs) n
  rw [hloop] at hagree
  obtain ⟨t', ht', hend⟩ := hagree.exists_ok
  refine ⟨t', item, ?_, hend.conditions_eq.trans hconditions, hend.stack_eq.trans hstack, htrue⟩
  rw [← ht']
  exact loop_eq_loop (Nat.le_refl _) hn

/-- A push before the lock can only pass it by revealing a script with the hash. -/
theorem reveals_of_runCommand (hp : s.pending = (Lock.toScriptHash hash).commands)
    (hexec : s.isExecuting = true) (hlimit : (fetched s []).operations + 2 ≤ Limits.operations)
    (h : runCommand env (.push p) s = .ok () u) : ∃ cs, p.Reveals env.flags hash cs := by
  have hadm : (Command.push p).Admitted env.flags := by
    simp only [runCommand] at h
    obtain ⟨_, t, hadmit, -⟩ := bind_eq_ok.mp h
    obtain ⟨-, hle, -, hmin⟩ := admitPush_eq_ok.mp hadmit
    exact ⟨hle, hmin hexec⟩
  obtain ⟨t, hreveal, -⟩ := exists_reveal_eq env hp hexec hlimit p.data
  rw [runCommand_push_lock hp hexec hadm, hreveal] at h
  obtain ⟨hanswer, cs, hcs, -⟩ := afterLock_eq_ok.mp h
  exact ⟨cs, hadm, Digest.Hash.eq_of_bytes_eq (eq_of_beq hanswer), hcs⟩

/-- A push whose data has another hash fails the lock. -/
theorem exists_loop_error (hp : s.pending = .push p :: (Lock.toScriptHash hash).commands)
    (hstart : s.position + 1 ∈ s.segmentStarts) (hexec : s.isExecuting = true)
    (hadm : (Command.push p).Admitted env.flags) (hhash : Digest.hash160 p.data ≠ hash) (n : ℕ) :
    ∃ t, loop env (n + 1) s = .error (.error .verifyFailed) t := by
  have hops : (fetched (fetched s (Lock.toScriptHash hash).commands) []).operations = 0 :=
    if_pos hstart
  obtain ⟨t, hreveal, -⟩ := exists_reveal_eq
    (s := fetched s (Lock.toScriptHash hash).commands) env rfl hexec (by rw [hops]; decide) p.data
  have hanswer : ((Digest.hash160 p.data).bytes == hash.bytes) = false :=
    beq_eq_false_iff_ne.mpr (mt Digest.Hash.eq_of_bytes_eq hhash)
  refine ⟨t, ?_⟩
  rw [loop_succ hp]
  refine bind_of_eq_error ?_
  rw [runCommand_push_lock (s := fetched s (Lock.toScriptHash hash).commands) rfl hexec hadm,
    hreveal, hanswer]
  rfl

end Engine

namespace Script

variable {env : Env} {cache : SigCache} {opening : Script} {s : State} {xs cs : List Command}
  {hash : Digest.Hash160} {p : Push}

/-! ## Openings that end with a push -/

theorem commands_lock_ne_nil (opening : Script) (hash : Digest.Hash160) :
    (opening ++ Lock.toScriptHash hash).commands ≠ [] :=
  List.append_ne_nil_of_right_ne_nil opening.commands (List.cons_ne_nil _ _)

theorem mem_segmentStarts_lock (hxs : opening.commands = xs ++ [.push p]) {i : ℕ} :
    i ∈ (opening ++ Lock.toScriptHash hash).segmentStarts ↔
      i ∈ opening.segmentStarts ∨ i = xs.length + 1 := by
  have hlen : opening.commands.length = xs.length + 1 := by
    rw [hxs, List.length_append, List.length_singleton]
  rw [mem_segmentStarts_append, hlen]
  refine or_congr_right ⟨?_, ?_⟩
  · rintro (⟨h, -⟩ | ⟨_, hj, -⟩)
    · exact h
    · cases hj
  · intro h
    refine Or.inl ⟨h, ?_, List.cons_ne_nil _ _⟩
    rw [hxs]
    exact List.append_ne_nil_of_right_ne_nil xs (List.cons_ne_nil _ _)

theorem commands_take (hxs : opening.commands = xs ++ [.push p]) :
    (opening.take xs.length).commands = xs := by
  show opening.commands.take xs.length = xs
  rw [hxs, List.take_left]

theorem mem_segmentStarts_direct (hxs : opening.commands = xs ++ [.push p]) {i : ℕ} :
    i ∈ (opening.take xs.length ++ ofCommands cs).segmentStarts ↔
      (i ∈ opening.segmentStarts ∧ i < xs.length) ∨ (i = xs.length ∧ xs ≠ [] ∧ cs ≠ []) := by
  rw [mem_segmentStarts_append, commands_take hxs]
  refine or_congr ?_ ⟨?_, Or.inl⟩
  · show i ∈ opening.segmentStarts.filter (· < xs.length) ↔ _
    rw [List.mem_filter, decide_eq_true_iff]
  · rintro (h | ⟨_, hj, -⟩)
    · exact h
    · cases hj

/-- Nothing is revealed before the last push. -/
theorem shields_push_lock (p : Push) (hash : Digest.Hash160) :
    Shields (.push p :: (Lock.toScriptHash hash).commands) :=
  shields_of_length (Nat.le_refl 4)

theorem pending_start_lock (hash : Digest.Hash160) (cache : SigCache)
    (hxs : opening.commands = xs ++ [.push p]) :
    (State.start (opening ++ Lock.toScriptHash hash) cache).pending =
      xs ++ .push p :: (Lock.toScriptHash hash).commands := by
  show opening.commands ++ (Lock.toScriptHash hash).commands = _
  rw [hxs, List.append_assoc]
  rfl

theorem pending_start_direct (cs : List Command) (cache : SigCache)
    (hxs : opening.commands = xs ++ [.push p]) :
    (State.start (opening.take xs.length ++ ofCommands cs) cache).pending = xs ++ cs := by
  show (opening.take xs.length).commands ++ cs = _
  rw [commands_take hxs]

theorem byteLength_lock (hash : Digest.Hash160) (hxs : opening.commands = xs ++ [.push p]) :
    (opening ++ Lock.toScriptHash hash).byteLength =
      Command.totalLength xs + (p.byteLength + 23) := by
  show Command.totalLength (opening.commands ++ (Lock.toScriptHash hash).commands) = _
  rw [hxs, Command.totalLength_append, Command.totalLength_append,
    Engine.totalLength_toScriptHash, Nat.add_assoc]
  rfl

/-- A run fetches the commands before the push one by one. -/
theorem passed_of_loop (hxs : opening.commands = xs ++ [.push p])
    (h : Engine.loop env xs.length (State.start (opening ++ Lock.toScriptHash hash) cache) =
      .ok () s) :
    Engine.Passed xs (.push p :: (Lock.toScriptHash hash).commands)
      (State.start (opening ++ Lock.toScriptHash hash) cache) s :=
  Engine.loop_passed (.of_shields (shields_push_lock p hash) xs)
    (pending_start_lock hash cache hxs) h

/-- When the push before the lock comes next, a part begins after it. -/
theorem mem_segmentStarts_of_loop (hxs : opening.commands = xs ++ [.push p])
    (h : Engine.loop env xs.length (State.start (opening ++ Lock.toScriptHash hash) cache) =
      .ok () s) {i : ℕ} :
    i ∈ s.segmentStarts ↔ i ∈ opening.segmentStarts ∨ i = s.position + 1 := by
  have hpassed := passed_of_loop hxs h
  have hposition : s.position = xs.length := hpassed.position_eq.trans (Nat.zero_add _)
  rw [hpassed.segmentStarts_eq, hposition]
  exact mem_segmentStarts_lock hxs

/-- The push, the lock and the revealed script begin that script. -/
theorem exists_begins_of_loop (hopening : opening.Segmented)
    (hxs : opening.commands = xs ++ [.push p])
    (h : Engine.loop env xs.length (State.start (opening ++ Lock.toScriptHash hash) cache) =
      .ok () s) (hexec : s.isExecuting = true) (hreveals : p.Reveals env.flags hash cs) :
    ∃ u, u.Begins cs ∧ State.SameData .exact s u ∧
      ∀ n, Engine.loop env (n + 1) s = Engine.loop env n u := by
  have hpassed := passed_of_loop hxs h
  refine Engine.exists_begins hpassed.pending_eq
    ((mem_segmentStarts_of_loop hxs h).mpr (Or.inr rfl)) (fun i hi => ?_)
    (hpassed.size_le (Nat.zero_le _)) hexec hreveals
  rcases (mem_segmentStarts_of_loop hxs h).mp hi with hi | rfl
  · have hlt := hopening i hi
    rw [hxs, List.length_append, List.length_singleton] at hlt
    rw [show s.position = xs.length from hpassed.position_eq.trans (Nat.zero_add _)]
    exact Nat.le_of_lt hlt
  · exact Nat.le_refl _

/-- A revealed script is short. -/
theorem sizesAllowed_of_reveals (hreveals : p.Reveals env.flags hash cs) :
    (ofCommands cs).SizesAllowed := by
  apply sizesAllowed_of_le
  show Command.totalLength cs ≤ 10000
  rw [Command.totalLength_of_decode hreveals.decode_eq]
  have : p.data.length ≤ 520 := hreveals.admitted.1
  omega

theorem begins_of_loop (hxs : opening.commands = xs ++ [.push p])
    (hr : RevealsNothingBefore xs cs)
    (h : Engine.loop env xs.length
      (State.start (opening.take xs.length ++ ofCommands cs) cache) = .ok () s) : s.Begins cs := by
  have hpassed := Engine.loop_passed hr (pending_start_direct cs cache hxs) h
  have hposition : s.position = xs.length := hpassed.position_eq.trans (Nat.zero_add _)
  refine ⟨hpassed.pending_eq, fun hcs => ?_, fun i hi => ?_⟩
  · by_cases hnil : xs = []
    · subst hnil
      cases h
      exact Or.inr rfl
    · rw [hposition, hpassed.segmentStarts_eq]
      exact Or.inl ((mem_segmentStarts_direct hxs).mpr (Or.inr ⟨rfl, hnil, hcs⟩))
  · rw [hpassed.segmentStarts_eq] at hi
    rw [hposition]
    rcases (mem_segmentStarts_direct hxs).mp hi with ⟨-, hlt⟩ | ⟨rfl, -⟩
    · exact Nat.le_of_lt hlt
    · exact Nat.le_refl _

theorem byteLength_direct (hxs : opening.commands = xs ++ [.push p])
    (hdecode : Command.decode p.data = .ok cs) :
    (opening.take xs.length ++ ofCommands cs).byteLength =
      Command.totalLength xs + p.data.length := by
  show Command.totalLength ((opening.take xs.length).commands ++ cs) = _
  rw [commands_take hxs, Command.totalLength_append, Command.totalLength_of_decode hdecode]

/-- Up to the push, the runs through the lock and without it agree. -/
theorem loop_prefix_redeem_agree (hxs : opening.commands = xs ++ [.push p])
    (hr : RevealsNothingBefore xs cs) :
    Engine.Agree .exact (State.Alike .exact)
      (Engine.loop env xs.length (State.start (opening ++ Lock.toScriptHash hash) cache))
      (Engine.loop env xs.length
        (State.start (opening.take xs.length ++ ofCommands cs) cache)) := by
  have hstart : State.Alike .exact (State.start (opening ++ Lock.toScriptHash hash) cache)
      (State.start (opening.take xs.length ++ ofCommands cs) cache) :=
    ⟨⟨⟨rfl, show cache = cache from rfl⟩, rfl, rfl⟩, rfl⟩
  refine Engine.loop_prefix_agree (.refl _ env) hstart (pending_start_lock hash cache hxs)
    (pending_start_direct cs cache hxs) (.of_shields (shields_push_lock p hash) xs) hr
    fun k hk => ?_
  show 0 + k ∈ (opening.take xs.length ++ ofCommands cs).segmentStarts ↔
    0 + k ∈ (opening ++ Lock.toScriptHash hash).segmentStarts
  rw [mem_segmentStarts_direct hxs, mem_segmentStarts_lock hxs, Nat.zero_add,
    and_iff_left hk, or_iff_left (fun h => Nat.ne_of_lt hk h.1),
    or_iff_left (Nat.ne_of_lt (Nat.lt_succ_of_lt hk))]

/-- A run that opens the lock with a push agrees with the run that has the revealed script in place
of the push and the lock. -/
theorem loop_redeem_agree (hopening : opening.Segmented)
    (hxs : opening.commands = xs ++ [.push p])
    (hexec : ∀ s, Engine.loop env xs.length
      (State.start (opening ++ Lock.toScriptHash hash) cache) = .ok () s → s.isExecuting = true)
    (hreveals : p.Reveals env.flags hash cs) (hr : RevealsNothingBefore xs cs) :
    Engine.Agree .exact (State.SameData .exact)
      (Engine.loop env (opening ++ Lock.toScriptHash hash).byteLength
        (State.start (opening ++ Lock.toScriptHash hash) cache))
      (Engine.loop env (opening.take xs.length ++ ofCommands cs).byteLength
        (State.start (opening.take xs.length ++ ofCommands cs) cache)) := by
  have hbytes := byteLength_lock hash hxs
  have hbytes' := byteLength_direct hxs hreveals.decode_eq
  have hlength := Command.totalLength_of_decode hreveals.decode_eq
  have hsteps := Command.length_le_totalLength xs
  have hdata : p.data.length ≤ p.byteLength := Nat.le_add_left _ _
  obtain ⟨n, hn⟩ : ∃ n, (opening ++ Lock.toScriptHash hash).byteLength = xs.length + (n + 1) :=
    ⟨(opening ++ Lock.toScriptHash hash).byteLength - xs.length - 1, by omega⟩
  obtain ⟨m, hm⟩ : ∃ m, (opening.take xs.length ++ ofCommands cs).byteLength = xs.length + m :=
    ⟨(opening.take xs.length ++ ofCommands cs).byteLength - xs.length, by omega⟩
  rw [hn, hm, Engine.loop_add, Engine.loop_add]
  refine (loop_prefix_redeem_agree hxs hr).bind fun _ s t hs ht halike => ?_
  obtain ⟨u, hu, hsame, hloop⟩ := exists_begins_of_loop hopening hxs hs (hexec s hs) hreveals
  have ht := begins_of_loop hxs hr ht
  have hfuel : Engine.loop env m t = Engine.loop env n t :=
    Engine.loop_eq_loop (by rw [ht.pending_eq]; omega) (by rw [ht.pending_eq]; omega)
  rw [hloop, hfuel]
  exact Engine.loop_begins_agree (.refl _ env) (hsame.symm.trans halike.toSameData) hu ht n

end Script

end SpendScript
