import SpendScript.Cli.Program
import SpendScript.Proofs.Encoding.Hex
import SpendScript.Proofs.Engine.Outcomes
import SpendScript.Proofs.Machine.Run
import SpendScript.Proofs.Script.Coding
import SpendScript.Proofs.Script.Template

/-!
# The verdict of the command line

The program reads two scripts and a digest from texts, runs the scripts one after the other as one
script, and prints how that ends.

* `Cli.GivesScript`, `Cli.GivesDigest`: what an option gives.
* `Cli.Options.checks`, `Cli.FirstOf`: what can be wrong with the options, in the order in which it is
  looked for, and the error of the first check that fails.
* `Cli.AddsLine`: two results that are the same except for one line.

Results:
* `Script.exists_verdict`: two scripts that were read run to an end, or to an error of a script.
* `Cli.decodeScript_eq_ok_iff`, `Cli.decodeScript_eq_error_iff` and their likes for the digest: what is
  read from an option, and why nothing is.
* `Cli.Options.verdictPrinted`: the verdict that is printed is that of the run, and the program fails
  only with the error of the first check that fails.
-/

namespace SpendScript

/-! ## Runs of two scripts -/

namespace Script

variable {cs ds : List Command} {script : Script} {bs : Bytes}

theorem totalLength_le_of_sizesAllowed (h : (ofCommands cs).SizesAllowed) :
    Command.totalLength cs ≤ Limits.scriptSize := by
  by_cases hcs : cs = []
  · rw [hcs]
    exact Nat.zero_le _
  · have hparts : (ofCommands cs).parts = [cs] :=
      Engine.parts_eq_singleton hcs fun _ _ _ hmem => by cases hmem
    exact h cs (by rw [hparts]; exact List.mem_singleton_self cs)

/-- Two scripts of one part each are refused for their sizes, or they have few bytes together. -/
theorem byteLength_append_le (h : (ofCommands cs ++ ofCommands ds).oversize? = none) :
    (ofCommands cs ++ ofCommands ds).byteLength ≤ 2 * Limits.scriptSize := by
  have hsizes := oversize?_eq_none.mp h
  rw [SizesAllowed, parts_append (segmented_ofCommands cs)] at hsizes
  have hcs := totalLength_le_of_sizesAllowed fun part hpart =>
    hsizes part (List.mem_append_left _ hpart)
  have hds := totalLength_le_of_sizesAllowed fun part hpart =>
    hsizes part (List.mem_append_right _ hpart)
  show Command.totalLength (cs ++ ds) ≤ 2 * Limits.scriptSize
  rw [Command.totalLength_append]
  omega

/-- A run of two scripts of one part each does not break off: it ends, or an error ends it. -/
theorem exists_verdict (cs ds : List Command) (env : Env) (cache : SigCache) :
    ∃ verdict : Except ScriptError Unit,
      ((ofCommands cs ++ ofCommands ds).execute env cache).result = verdict.mapError .error := by
  cases hsize : (ofCommands cs ++ ofCommands ds).oversize? with
  | some size =>
    -- The run ends before its first command.
    unfold execute
    rw [Engine.run_start, hsize]
    split_ifs
    · exact ⟨.error .evalFalse, rfl⟩
    · exact ⟨.error (.scriptTooBig size), rfl⟩
  | none =>
    -- Each part is within the limit, so the machine has the words to count the bytes of both, and
    -- its runs end without a fault.
    have hlen : (ofCommands cs ++ ofCommands ds).byteLength < Number.wordSize :=
      Nat.lt_of_le_of_lt (byteLength_append_le hsize) (by decide)
    have hsegmented := (segmented_ofCommands cs).append (segmented_ofCommands ds)
    obtain ⟨run, hmatches⟩ : ∃ run, Machine.Matches Machine.Any run
        (Engine.run env (State.start (ofCommands cs ++ ofCommands ds) cache)) :=
      ⟨_, Machine.run_matches hsegmented hlen cache⟩
    unfold execute
    generalize Engine.run env (State.start (ofCommands cs ++ ofCommands ds) cache) = r at hmatches ⊢
    cases hmatches with
    | ok _ _ => exact ⟨.ok (), rfl⟩
    | error e _ => exact ⟨.error e, rfl⟩

/-- How a run ends does not depend on the size of its cache, nor on what it evicts. -/
theorem result_of_empty (script : Script) (env : Env) (capacity : ℕ) (picks : ℕ → ℕ) :
    (script.execute env (Cache.empty capacity picks)).result =
      (script.execute env noCache).result :=
  congrArg Prod.fst (execute_of_sound script env (SigCache.sound_empty capacity picks)).1

end Script

namespace Cli

open Text.Hex (Spells)

variable {o : Options} {name text line : String} {given : Option String} {script : Script}
  {digest : ℕ} {bs : Bytes} {e : RunError}

/-! ## What options give -/

/-- The option gives the script: by a text that spells its bytes, if they are read as it again, or,
left out, the empty script. -/
def GivesScript (script : Script) : Option String → Prop
  | none => script = Script.empty
  | some text => Spells text script.toBytes ∧ Script.ofBytes script.toBytes = .ok script

/-- The option gives the digest: by a text that spells it in at most 32 bytes, or, left out, zero. -/
def GivesDigest (digest : ℕ) : Option String → Prop
  | none => digest = 0
  | some text => ∃ bs, Spells text bs ∧ bs.length ≤ 32 ∧ Bytes.toNat bs = digest

/-- What is wrong with the text of a script. -/
inductive ScriptFlaw (name : String) : Option String → RunError → Prop
  | hex {text : String} {cause : Text.Hex.HexError}
      (h : Text.Hex.decode (String.ofList (Text.trim text.toList)) = .error cause) :
      ScriptFlaw name (some text) (.hex name cause)
  | parse {text : String} {bs : Bytes} {cause : ScriptError} (hbs : Spells text bs)
      (h : Script.ofBytes bs = .error cause) : ScriptFlaw name (some text) (.parse name cause)

/-- What is wrong with the text of a digest. -/
inductive DigestFlaw : Option String → RunError → Prop
  | hex {text : String} {cause : Text.Hex.HexError}
      (h : Text.Hex.decode (String.ofList (Text.trim text.toList)) = .error cause) :
      DigestFlaw (some text) (.hex "z" cause)
  | tooLong {text : String} {bs : Bytes} (hbs : Spells text bs) (h : 32 < bs.length) :
      DigestFlaw (some text) (.digestTooLong bs.length)

/-- A script that is given has one part. -/
theorem exists_commands (h : GivesScript script given) : ∃ cs, script = Script.ofCommands cs := by
  cases given with
  | none => exact ⟨[], h⟩
  | some text =>
    obtain ⟨cs, -, hscript⟩ := Script.ofBytes_eq_ok.mp h.2
    exact ⟨cs, hscript⟩

theorem decodeHex_eq_ok_iff : decodeHex name text = .ok bs ↔ Spells text bs := by
  rw [decodeHex, mapError_eq_ok, Text.Hex.decode_trim_eq_ok_iff]

theorem toBytes_of_ofBytes (h : Script.ofBytes bs = .ok script) : script.toBytes = bs := by
  obtain ⟨cs, hdecode, rfl⟩ := Script.ofBytes_eq_ok.mp h
  exact Command.encode_of_decode hdecode

theorem decodeScript_eq_ok_iff :
    decodeScript name given = .ok script ↔ GivesScript script given := by
  cases given with
  | none =>
    rw [decodeScript, Except.ok.injEq]
    exact eq_comm
  | some text =>
    rw [decodeScript, except_bind_eq_ok]
    simp only [decodeHex_eq_ok_iff, mapError_eq_ok]
    constructor
    · rintro ⟨bs, hbs, hscript⟩
      obtain rfl := toBytes_of_ofBytes hscript
      exact ⟨hbs, hscript⟩
    · exact fun h => ⟨script.toBytes, h⟩

theorem givesScript_empty (h : Spells text []) : GivesScript Script.empty (some text) :=
  ⟨h, Script.ofBytes_eq_ok.mpr ⟨[], Command.decode_encode nofun, rfl⟩⟩

/-- Every script that is read back from its bytes can be given. -/
theorem givesScript_encode (h : Script.ofBytes script.toBytes = .ok script) :
    GivesScript script (some (Text.Hex.encode script.toBytes)) :=
  ⟨Text.Hex.spells_encode _, h⟩

theorem decodeScript_eq_error_iff :
    decodeScript name given = .error e ↔ ScriptFlaw name given e := by
  cases given with
  | none => exact iff_of_false (fun h => by cases h) (fun h => by cases h)
  | some text =>
    rw [decodeScript, except_bind_eq_error]
    simp only [decodeHex_eq_ok_iff, mapError_eq_error]
    constructor
    · rintro (h | ⟨bs, hbs, cause, hparse, rfl⟩)
      · obtain ⟨cause, hhex, rfl⟩ := mapError_eq_error.mp h
        exact .hex hhex
      · exact .parse hbs hparse
    · rintro (hhex | ⟨hbs, hparse⟩)
      · exact Or.inl (mapError_eq_error.mpr ⟨_, hhex, rfl⟩)
      · exact Or.inr ⟨_, hbs, _, hparse, rfl⟩

theorem decodeDigest_eq_ok_iff : decodeDigest given = .ok digest ↔ GivesDigest digest given := by
  cases given with
  | none =>
    rw [decodeDigest, Except.ok.injEq]
    exact eq_comm
  | some text =>
    rw [decodeDigest, except_bind_eq_ok]
    simp only [decodeHex_eq_ok_iff]
    refine exists_congr fun bs => and_congr_right fun _ => ?_
    split_ifs with hlong
    · exact iff_of_false (fun h => by cases h) fun h => Nat.not_lt.mpr h.1 hlong
    · rw [and_iff_right (Nat.not_lt.mp hlong)]
      exact ⟨Except.ok.inj, congrArg Except.ok⟩

/-- Every number of at most 256 bits can be given as the digest. -/
theorem exists_givesDigest_iff : (∃ text, GivesDigest digest (some text)) ↔ digest < 2 ^ 256 := by
  have hpow : (2 : ℕ) ^ 256 = 256 ^ 32 := by norm_num
  rw [hpow]
  constructor
  · rintro ⟨text, bs, -, hlen, rfl⟩
    exact Nat.lt_of_lt_of_le (Bytes.toNat_lt bs) (Nat.pow_le_pow_right (by decide) hlen)
  · intro h
    exact ⟨_, Bytes.digits digest, Text.Hex.spells_encode _, Bytes.length_digits_le h,
      Bytes.toNat_digits digest⟩

theorem decodeDigest_eq_error_iff : decodeDigest given = .error e ↔ DigestFlaw given e := by
  cases given with
  | none => exact iff_of_false (fun h => by cases h) (fun h => by cases h)
  | some text =>
    rw [decodeDigest, except_bind_eq_error]
    simp only [decodeHex_eq_ok_iff]
    constructor
    · rintro (h | ⟨bs, hbs, h⟩)
      · obtain ⟨cause, hhex, rfl⟩ := mapError_eq_error.mp h
        exact .hex hhex
      · split_ifs at h with hlong
        · cases h
          exact .tooLong hbs hlong
        · cases h
    · rintro (hhex | ⟨hbs, hlong⟩)
      · exact Or.inl (mapError_eq_error.mpr ⟨_, hhex, rfl⟩)
      · exact Or.inr ⟨_, hbs, if_pos hlong⟩

/-! ## The first error -/

/-- The error of the first check that fails. -/
inductive FirstOf : List (RunError → Prop) → RunError → Prop
  | here {check : RunError → Prop} {checks : List (RunError → Prop)} {e : RunError} (h : check e) :
      FirstOf (check :: checks) e
  | later {check : RunError → Prop} {checks : List (RunError → Prop)} {e : RunError}
      (hpassed : ∀ e', ¬check e') (h : FirstOf checks e) : FirstOf (check :: checks) e

/-- What can be wrong with the options, in order. -/
def Options.checks (o : Options) : List (RunError → Prop) :=
  [fun e => e = .missingScript ∧ o.scriptSig = none ∧ o.scriptPubkey = none,
    ScriptFlaw "script-sig" o.scriptSig, ScriptFlaw "script-pubkey" o.scriptPubkey,
    DigestFlaw o.digest]

theorem not_firstOf_nil : ¬FirstOf [] e :=
  fun h => by cases h

/-- A step fails with the first error if it fails with that of its check, and what follows it with the
first one of the checks after that. -/
theorem bind_eq_error_iff_firstOf {α β : Type} {check : RunError → Prop}
    {checks : List (RunError → Prop)} {r : Except RunError α} {f : α → Except RunError β}
    (hcheck : ∀ e, r = .error e ↔ check e)
    (hrest : ∀ a, r = .ok a → (f a = .error e ↔ FirstOf checks e)) :
    (r >>= f) = .error e ↔ FirstOf (check :: checks) e := by
  rw [except_bind_eq_error, hcheck]
  constructor
  · rintro (h | ⟨a, ha, h⟩)
    · exact .here h
    · refine .later (fun e' he' => ?_) ((hrest a ha).mp h)
      rw [(hcheck e').mpr he'] at ha
      cases ha
  · rintro (h | ⟨hpassed, h⟩)
    · exact Or.inl h
    · cases hr : r with
      | error e' => exact absurd ((hcheck e').mp hr) (hpassed e')
      | ok a => exact Or.inr ⟨a, rfl, (hrest a hr).mpr h⟩

/-! ## What follows the options -/

/-- The line that tells how a run ended. -/
def verdictLine : Except ScriptError Unit → String
  | .ok _ => "valid\n"
  | .error e => s!"invalid: {e.message}\n"

namespace Options

/-- What the program does with the scripts and the digest. -/
def conclude (o : Options) (scriptSig scriptPubkey : Script) (digest : ℕ) :
    Except RunError Report :=
  if o.disasmOnly then .ok ⟨o.describeAll scriptSig scriptPubkey, true, []⟩
  else o.evaluate (o.describeAll scriptSig scriptPubkey) (scriptSig ++ scriptPubkey) digest

/-- What the program does if a script is given. -/
def proceed (o : Options) : Except RunError Report := do
  let scriptSig ← decodeScript "script-sig" o.scriptSig
  let scriptPubkey ← decodeScript "script-pubkey" o.scriptPubkey
  let digest ← decodeDigest o.digest
  o.conclude scriptSig scriptPubkey digest

theorem run_eq (o : Options) : o.run =
    (if o.scriptSig.isNone && o.scriptPubkey.isNone then .error .missingScript else .ok ()) >>=
      fun _ => o.proceed := by
  unfold run
  by_cases hmissing : (o.scriptSig.isNone && o.scriptPubkey.isNone) = true
  · rw [if_pos hmissing, if_pos hmissing]
    rfl
  · rw [if_neg hmissing, if_neg hmissing]
    rfl

theorem run_of_given (h : o.scriptSig ≠ none ∨ o.scriptPubkey ≠ none) : o.run = o.proceed := by
  rw [run_eq, if_neg]
  · rfl
  · simpa [Option.isNone_iff_eq_none, imp_iff_not_or] using h

/-- The report of a run with a verdict. -/
theorem exists_evaluate (hcache : o.flags.cacheSize ≤ Cache.largest)
    {verdict : Except ScriptError Unit}
    (hresult : (script.execute ⟨digest, o.flags⟩ Script.noCache).result = verdict.mapError .error)
    (shown : String) : ∃ records, o.evaluate shown script digest =
      .ok ⟨shown ++ verdictLine verdict, verdict.isOk, records⟩ := by
  have hempty : Script.cacheFor o.flags.cacheSize =
      .ok (Cache.empty o.flags.cacheSize fun _ => 0) :=
    if_neg (Nat.not_lt.mpr hcache)
  have hresult' : (script.execute ⟨digest, o.flags⟩
      (Cache.empty o.flags.cacheSize fun _ => 0)).result = verdict.mapError .error :=
    (Script.result_of_empty _ _ _ _).trans hresult
  cases verdict with
  | ok _ =>
    simp only [evaluate, hempty, Except.mapError, bind, Except.bind, hresult']
    exact ⟨_, rfl⟩
  | error cause =>
    simp only [evaluate, hempty, Except.mapError, bind, Except.bind, hresult']
    exact ⟨_, rfl⟩

end Options

/-! ## A further line -/

/-- The results are the same, except that the output of the second one has a further line. -/
inductive AddsLine (line : String) : Except RunError Report → Except RunError Report → Prop
  | error (e : RunError) : AddsLine line (.error e) (.error e)
  | ok (front back : String) (valid : Bool) (records : List Log.Record) :
      AddsLine line (.ok ⟨front ++ back, valid, records⟩)
        (.ok ⟨front ++ (line ++ back), valid, records⟩)

theorem AddsLine.bind {α : Type} {f g : α → Except RunError Report} (r : Except RunError α)
    (h : ∀ a, AddsLine line (f a) (g a)) : AddsLine line (r >>= f) (r >>= g) := by
  cases r with
  | error e => exact .error e
  | ok a => exact h a

namespace Options

theorem addsLine_evaluate (o : Options) (front back : String) (script : Script) (digest : ℕ) :
    AddsLine line (o.evaluate (front ++ back) script digest)
      (o.evaluate (front ++ (line ++ back)) script digest) := by
  refine .bind _ fun cache => ?_
  generalize script.execute ⟨digest, o.flags⟩ cache = outcome
  rcases hresult : outcome.result with (cause | cause) | _
  · simp only [hresult, String.append_assoc]
    exact .ok front _ false _
  · simp only [hresult]
    exact .error _
  · simp only [hresult, String.append_assoc]
    exact .ok front _ true _

/-- What is shown of the scripts decides the output, apart from the verdict. -/
theorem addsLine_conclude {o' : Options} (hflags : o'.flags = o.flags)
    (hdisasm : o'.disasmOnly = o.disasmOnly) (front back : String) {a b : Script}
    (hshown : o.describeAll a b = front ++ back)
    (hshown' : o'.describeAll a b = front ++ (line ++ back)) (digest : ℕ) :
    AddsLine line (o.conclude a b digest) (o'.conclude a b digest) := by
  have hevaluate : o'.evaluate = o.evaluate := by
    unfold evaluate
    rw [hflags]
  rw [conclude, conclude, hshown, hshown', hdisasm, hevaluate]
  split_ifs
  · exact .ok front back true []
  · exact addsLine_evaluate o front back _ digest

/-- A signature script that is left out is empty. -/
theorem addsLine_scriptSig (o : Options) (hgiven : o.scriptPubkey ≠ none) (htext : Spells text []) :
    AddsLine (describe o.disasmOnly "script-sig" Script.empty)
      { o with scriptSig := none }.run { o with scriptSig := some text }.run := by
  have hempty : decodeScript "script-sig" (some text) = .ok Script.empty :=
    decodeScript_eq_ok_iff.mpr (givesScript_empty htext)
  have hrun : ∀ given, { o with scriptSig := given }.run = { o with scriptSig := given }.proceed :=
    fun _ => run_of_given (.inr hgiven)
  rw [hrun, hrun, proceed, proceed, hempty]
  show AddsLine _ (decodeScript "script-pubkey" o.scriptPubkey >>= _)
    (decodeScript "script-pubkey" o.scriptPubkey >>= _)
  refine .bind _ fun b => .bind _ fun digest => addsLine_conclude ?_ ?_ "" _ rfl ?_ digest
  · rfl
  · rfl
  · rw [String.empty_append]
    rfl

/-- A script public key that is left out is empty. -/
theorem addsLine_scriptPubkey (o : Options) (hgiven : o.scriptSig ≠ none)
    (htext : Spells text []) :
    AddsLine (describe o.disasmOnly "script-pubkey" Script.empty)
      { o with scriptPubkey := none }.run { o with scriptPubkey := some text }.run := by
  have hempty : decodeScript "script-pubkey" (some text) = .ok Script.empty :=
    decodeScript_eq_ok_iff.mpr (givesScript_empty htext)
  have hrun : ∀ given, { o with scriptPubkey := given }.run =
      { o with scriptPubkey := given }.proceed :=
    fun _ => run_of_given (.inl hgiven)
  rw [hrun, hrun, proceed, proceed, hempty]
  refine .bind _ fun a => ?_
  show AddsLine _ (decodeDigest o.digest >>= _) (decodeDigest o.digest >>= _)
  refine .bind _ fun digest => addsLine_conclude ?_ ?_ _ "" rfl ?_ digest
  · rfl
  · rfl
  · rw [String.append_empty]
    rfl

/-! ## The verdict -/

/-- The report of a run with a verdict, if nothing is wrong with the options. -/
theorem exists_conclude {a b : Script}
    (hcache : o.disasmOnly = false → o.flags.cacheSize ≤ Cache.largest)
    (ha : GivesScript a o.scriptSig) (hb : GivesScript b o.scriptPubkey) (digest : ℕ) :
    ∃ records verdict,
      ((a ++ b).execute ⟨digest, o.flags⟩ Script.noCache).result = verdict.mapError .error ∧
      o.conclude a b digest =
        if o.disasmOnly then .ok ⟨o.describeAll a b, true, []⟩
        else .ok ⟨o.describeAll a b ++ verdictLine verdict, verdict.isOk, records⟩ := by
  obtain ⟨cs, rfl⟩ := exists_commands ha
  obtain ⟨ds, rfl⟩ := exists_commands hb
  obtain ⟨verdict, hverdict⟩ := Script.exists_verdict cs ds ⟨digest, o.flags⟩ Script.noCache
  unfold conclude
  cases hdisasm : o.disasmOnly with
  | true => exact ⟨[], verdict, hverdict, rfl⟩
  | false =>
    obtain ⟨records, hevaluate⟩ := exists_evaluate (hcache hdisasm) hverdict _
    exact ⟨records, verdict, hverdict, hevaluate⟩

/-- A run fails with the first error of the checks. -/
theorem run_eq_error_iff (hcache : o.disasmOnly = false → o.flags.cacheSize ≤ Cache.largest)
    (e : RunError) : o.run = .error e ↔ FirstOf o.checks e := by
  -- Each step has the check that stands at its place in the list, and the last one does not fail.
  rw [run_eq]
  refine bind_eq_error_iff_firstOf (fun e' => ?_) fun _ _ => ?_
  · rw [← Option.isNone_iff_eq_none, ← Option.isNone_iff_eq_none, ← Bool.and_eq_true]
    split_ifs with hmissing
    · rw [and_iff_left hmissing, Except.error.injEq, eq_comm]
    · exact iff_of_false (fun h => by cases h) fun h => hmissing h.2
  refine bind_eq_error_iff_firstOf (fun _ => decodeScript_eq_error_iff) fun a ha => ?_
  refine bind_eq_error_iff_firstOf (fun _ => decodeScript_eq_error_iff) fun b hb => ?_
  refine bind_eq_error_iff_firstOf (fun _ => decodeDigest_eq_error_iff) fun digest _ => ?_
  obtain ⟨records, verdict, -, hconclude⟩ := exists_conclude hcache
    (decodeScript_eq_ok_iff.mp ha) (decodeScript_eq_ok_iff.mp hb) digest
  rw [hconclude]
  refine iff_of_false (fun h => ?_) not_firstOf_nil
  split_ifs at h

/-- The command line prints the verdict of the library. Scripts that are read back from their bytes
and digests of at most 256 bits can be given. What is given is run with the policy and a cache of the
size that the options tell, whatever it evicts. A script that is left out is empty, and only its line
is missing. A run fails with the first error of the checks only, so it does not break off. -/
theorem verdictPrinted (o : Options)
    (hcache : o.disasmOnly = false → o.flags.cacheSize ≤ Cache.largest) :
    ((∀ script, Script.ofBytes script.toBytes = .ok script →
        GivesScript script (some (Text.Hex.encode script.toBytes))) ∧
        ∀ digest, digest < 2 ^ 256 → ∃ text, GivesDigest digest (some text)) ∧
      (∀ a b digest, GivesScript a o.scriptSig → GivesScript b o.scriptPubkey →
        GivesDigest digest o.digest → o.scriptSig ≠ none ∨ o.scriptPubkey ≠ none →
        o.disasmOnly = false →
        ∃ report verdict, o.run = .ok report ∧
          (∀ picks, ((a ++ b).execute ⟨digest, o.flags⟩
            (Cache.empty o.flags.cacheSize picks)).result = verdict.mapError .error) ∧
          (report.valid = true ↔ verdict = .ok ()) ∧
          report.output = o.describeAll a b ++ verdictLine verdict) ∧
      (∀ text, Spells text [] →
        (o.scriptPubkey ≠ none → AddsLine (describe o.disasmOnly "script-sig" Script.empty)
          { o with scriptSig := none }.run { o with scriptSig := some text }.run) ∧
        (o.scriptSig ≠ none → AddsLine (describe o.disasmOnly "script-pubkey" Script.empty)
          { o with scriptPubkey := none }.run { o with scriptPubkey := some text }.run)) ∧
      ∀ e, o.run = .error e ↔ FirstOf o.checks e := by
  refine ⟨⟨fun _ => givesScript_encode, fun _ => exists_givesDigest_iff.mpr⟩,
    fun a b digest ha hb hdigest hgiven hdisasm => ?_, fun text htext =>
    ⟨fun hgiven => addsLine_scriptSig o hgiven htext,
      fun hgiven => addsLine_scriptPubkey o hgiven htext⟩, run_eq_error_iff hcache⟩
  obtain ⟨records, verdict, hverdict, hconclude⟩ := exists_conclude hcache ha hb digest
  refine ⟨⟨o.describeAll a b ++ verdictLine verdict, verdict.isOk, records⟩, verdict, ?_,
    fun picks => (Script.result_of_empty _ _ _ picks).trans hverdict, ?_, rfl⟩
  · rw [run_of_given hgiven, proceed, decodeScript_eq_ok_iff.mpr ha,
      decodeScript_eq_ok_iff.mpr hb, decodeDigest_eq_ok_iff.mpr hdigest]
    rw [hdisasm] at hconclude
    exact hconclude
  · cases verdict with
    | ok _ => exact iff_of_true rfl rfl
    | error cause => exact iff_of_false Bool.false_ne_true fun h => by cases h

/-- A script that pushes one, an empty lock, and a digest with a large letter. -/
def pushOne : Options :=
  { default with scriptSig := some " 51\n", scriptPubkey := some "", digest := some "0A" }

theorem verdictPrinted_pushOne :
    (pushOne.disasmOnly = false → pushOne.flags.cacheSize ≤ Cache.largest) ∧
      (∃ report verdict, pushOne.run = .ok report ∧
        (∀ picks, ((Script.ofCommands [.op 0x51] ++ Script.empty).execute ⟨10, pushOne.flags⟩
          (Cache.empty pushOne.flags.cacheSize picks)).result = verdict.mapError .error) ∧
        (report.valid = true ↔ verdict = .ok ()) ∧
        report.output =
          pushOne.describeAll (Script.ofCommands [.op 0x51]) Script.empty ++ verdictLine verdict) ∧
      AddsLine (describe false "script-pubkey" Script.empty)
        { pushOne with scriptPubkey := none }.run { pushOne with scriptPubkey := some " " }.run ∧
      ∀ e, pushOne.run = .error e ↔ FirstOf pushOne.checks e := by
  have hcache : pushOne.disasmOnly = false → pushOne.flags.cacheSize ≤ Cache.largest :=
    fun _ => by decide
  obtain ⟨-, hverdict, hlines, herrors⟩ := verdictPrinted pushOne hcache
  have hempty : ∀ {text : String}, Text.Blank text.toList → Spells text [] :=
    fun h => ⟨_, [], [], by simp, h, Text.blank_nil, rfl⟩
  have hread : Command.decode [0x51] = .ok [.op 0x51] :=
    Command.decode_encode (List.forall_mem_singleton.mpr (Command.readable_op.mpr (by decide)))
  have hone : GivesScript (Script.ofCommands [.op 0x51]) pushOne.scriptSig :=
    ⟨⟨[' '], ['5', '1'], ['\n'], rfl, by decide, by decide, by decide⟩,
      Script.ofBytes_eq_ok.mpr ⟨_, hread, rfl⟩⟩
  have hdigest : GivesDigest 10 pushOne.digest :=
    ⟨[0x0a], ⟨[], ['0', 'A'], [], rfl, Text.blank_nil, Text.blank_nil, by decide⟩, by decide, rfl⟩
  refine ⟨hcache, hverdict _ _ _ hone (givesScript_empty (hempty Text.blank_nil)) hdigest
    (.inl nofun) rfl, (hlines " " (hempty (by decide))).2 nofun, herrors⟩

end Options

end Cli

end SpendScript
