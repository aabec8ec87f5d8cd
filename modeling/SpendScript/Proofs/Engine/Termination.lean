import SpendScript.Proofs.Engine.Loop
import SpendScript.Proofs.Script.Coding

/-!
# Runs end

Every command is longer than what it adds to the commands to come, so a run takes fewer steps than
there are bytes to be run, and with at least as many steps it always goes to its end.

Results:
* `Engine.runCommand_totalLength`: every command leaves fewer bytes to be run.
* `Engine.loop_eq_loop`: more steps than bytes make no difference.
* `Engine.loop_pending_eq_nil`: a run that does not fail leaves no command.
-/

namespace SpendScript

/-- A push has a header. -/
theorem Push.length_data_lt (p : Push) : p.data.length < p.byteLength := by
  unfold byteLength
  cases p.encoding <;> simp [PushEncoding.headerLength]

namespace Engine

variable {env : Env} {s t : State}

/-! ## Single commands -/

theorem totalLength_drop_le (n : ℕ) (cs : List Command) :
    Command.totalLength (cs.drop n) ≤ Command.totalLength cs := by
  have h := Command.totalLength_append (cs.take n) (cs.drop n)
  rw [List.take_append_drop] at h
  omega

theorem runNext_pending (n : ℕ) (h : runNext env n s = .ok () t) :
    t.pending = s.pending.drop n := by
  induction n generalizing s with
  | zero =>
    cases h
    rfl
  | succ n ih =>
    unfold runNext at h
    cases hp : s.pending with
    | nil =>
      rw [bind_of_eq_ok (next_nil hp)] at h
      cases h
      exact hp
    | cons c rest =>
      rw [bind_of_eq_ok (next_cons hp)] at h
      obtain ⟨_, s₁, hrun, hrest⟩ := bind_eq_ok.mp h
      rw [ih hrest, (runPlain_frame c hrun).pending_eq]
      rfl

/-- Commands that reveal nothing leave the end of the run where it is. -/
theorem runNext_position (n : ℕ) (h : runNext env n s = .ok () t) :
    t.position + t.pending.length = s.position + s.pending.length := by
  induction n generalizing s with
  | zero =>
    cases h
    rfl
  | succ n ih =>
    unfold runNext at h
    cases hp : s.pending with
    | nil =>
      rw [bind_of_eq_ok (next_nil hp)] at h
      cases h
      rw [hp]
    | cons c rest =>
      rw [bind_of_eq_ok (next_cons hp)] at h
      obtain ⟨_, s₁, hrun, hrest⟩ := bind_eq_ok.mp h
      have hframe := runPlain_frame c hrun
      rw [ih hrest, hframe.position_eq, hframe.pending_eq]
      show s.position + 1 + rest.length = s.position + (rest.length + 1)
      omega

/-- A revealed script comes after what the lock has left. -/
theorem reveal_pending {data : Bytes} (h : reveal env data s = .ok () t) :
    ∃ cs, Command.decode data = .ok cs ∧ t.pending = s.pending.drop 3 ++ cs := by
  unfold reveal at h
  obtain ⟨_, s₁, hpush, h₁⟩ := bind_eq_ok.mp h
  obtain ⟨_, s₂, hlock, h₂⟩ := bind_eq_ok.mp h₁
  obtain ⟨_, s₃, hpop, h₃⟩ := bind_eq_ok.mp h₂
  obtain ⟨_, s₄, hrequire, h₄⟩ := bind_eq_ok.mp h₃
  obtain ⟨-, rfl⟩ := require_eq_ok.mp hrequire
  obtain ⟨cs, s₅, hdecode, h₅⟩ := bind_eq_ok.mp h₄
  obtain ⟨hcs, rfl⟩ := lift_eq_ok.mp hdecode
  cases h₅
  refine ⟨cs, hcs, ?_⟩
  show s₅.pending ++ cs = _
  rw [(pop_dataFrame hpop).pending_eq, runNext_pending 3 hlock,
    (push_dataFrame data hpush).pending_eq]

/-- A command leaves fewer bytes to be run than itself and the commands after it have. -/
theorem runCommand_totalLength {c : Command} (h : runCommand env c s = .ok () t) :
    Command.totalLength t.pending < c.byteLength + Command.totalLength s.pending := by
  have hpos := c.one_le_byteLength
  cases c with
  | op code =>
    rw [(runOpcode_frame code h).pending_eq]
    omega
  | push p =>
    simp only [runCommand] at h
    obtain ⟨admitted, s₁, hadmit, hrun⟩ := bind_eq_ok.mp h
    obtain ⟨rfl, -⟩ := admitPush_eq_ok.mp hadmit
    split_ifs at hrun
    · rw [get_bind] at hrun
      split_ifs at hrun
      · obtain ⟨cs, hcs, ht⟩ := reveal_pending hrun
        have hdata := Command.totalLength_of_decode hcs
        have hdrop := totalLength_drop_le 3 s₁.pending
        have hheader := p.length_data_lt
        show _ < p.byteLength + _
        rw [ht, Command.totalLength_append]
        omega
      · rw [(push_dataFrame p.data hrun).pending_eq]
        omega
    · cases hrun
      omega

/-! ## Runs -/

/-- Two runs with at least as many steps as there are bytes to be run are the same. -/
theorem loop_eq_loop {n m : ℕ} (hn : Command.totalLength s.pending ≤ n)
    (hm : Command.totalLength s.pending ≤ m) : loop env n s = loop env m s := by
  induction n generalizing m s with
  | zero =>
    have hp : s.pending = [] := by
      have := Command.length_le_totalLength s.pending
      exact List.length_eq_zero_iff.mp (by omega)
    rw [loop_nil hp, loop_nil hp]
  | succ n ih =>
    cases hp : s.pending with
    | nil => rw [loop_nil hp, loop_nil hp]
    | cons c rest =>
      rw [hp, Command.totalLength] at hn hm
      have hpos := c.one_le_byteLength
      obtain ⟨m, rfl⟩ : ∃ k, m = k + 1 := ⟨m - 1, by omega⟩
      rw [loop_succ hp, loop_succ hp]
      refine bind_congr_of_ok fun _ t hrun => bind_congr_of_ok fun _ t' hsize => ?_
      obtain ⟨rfl, -⟩ := checkStackSize_eq_ok.mp hsize
      have hless := runCommand_totalLength hrun
      have hrest : (fetched s rest).pending = rest := rfl
      rw [hrest] at hless
      exact ih (by omega) (by omega)

/-- A run that does not fail leaves no command, if it has enough steps. -/
theorem loop_pending_eq_nil {n : ℕ} (hn : Command.totalLength s.pending ≤ n)
    (h : loop env n s = .ok () t) : t.pending = [] := by
  induction n generalizing s with
  | zero =>
    obtain rfl : s = t := by
      cases h
      rfl
    have := Command.length_le_totalLength s.pending
    exact List.length_eq_zero_iff.mp (by omega)
  | succ n ih =>
    cases hp : s.pending with
    | nil =>
      rw [loop_nil hp] at h
      cases h
      exact hp
    | cons c rest =>
      obtain ⟨s₁, hrun, -, hloop⟩ := (loop_cons hp n).mp h
      have hless := runCommand_totalLength hrun
      have hrest : (fetched s rest).pending = rest := rfl
      rw [hrest] at hless
      rw [hp, Command.totalLength] at hn
      exact ih (by omega) hloop

end Engine

end SpendScript
