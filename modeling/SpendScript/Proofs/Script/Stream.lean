import SpendScript.Number.Word
import SpendScript.Proofs.Script.Wire

/-!
# Scripts in a stream

The reader takes a length and as many bytes as it tells, so a script ends where its own bytes say
and what follows does not matter. Where the stream stops is noticed just if the reader asks for
more than there is.

Results:
* `Script.Reach`: how far the bytes of a stream reach into the script at its start.
* `Script.read_past`, `Script.read_into_length`, `Script.read_into_body`: what is read in each case,
  whatever the ending of the stream.
* `Script.read_serialize`: a script that is written is read back whatever follows it.
* `Script.selfDelimiting`: one script, a list of them, every cut and every ending.
-/

namespace SpendScript

/-! ## Sources that are too short -/

theorem Source.readExact_of_short {n : ℕ} {s : Source} (h : s.bytes.length < n) :
    s.readExact n = .error s.ending := by
  rw [readExact, if_neg (Nat.not_le.mpr h)]

namespace CompactSize

theorem read_of_short {first : UInt8} {digits : Bytes} (h : digits.length < width first)
    (ending : Ending) : read ⟨first :: digits, ending⟩ = .error ending := by
  have hfirst : Source.readByte ⟨first :: digits, ending⟩ = .ok (first, ⟨digits, ending⟩) := rfl
  have hdigits : Source.readExact (width first) ⟨digits, ending⟩ = .error ending :=
    Source.readExact_of_short h
  rw [read, hfirst]
  simp only [bind, Except.bind]
  rw [if_neg (Nat.ne_of_gt (Nat.zero_lt_of_lt h)), hdigits]

end CompactSize

namespace Script

open CompactSize (width value)

/-! ## How far a stream reaches -/

/-- How far the bytes of a stream reach into the script at its start. -/
inductive Reach : Bytes → Prop
  | nothing : Reach []
  | intoLength {first : UInt8} {digits : Bytes} (hdigits : digits.length < width first) :
      Reach (first :: digits)
  | intoBody {first : UInt8} {digits body : Bytes} (hdigits : digits.length = width first)
      (hbody : body.length < (value first digits).toNat) : Reach (first :: digits ++ body)
  | past {first : UInt8} {digits body after : Bytes} (hdigits : digits.length = width first)
      (hbody : body.length = (value first digits).toNat) :
      Reach (first :: digits ++ (body ++ after))

theorem reach (bs : Bytes) : Reach bs := by
  cases bs with
  | nil => exact .nothing
  | cons first tail =>
    by_cases hwidth : tail.length < width first
    · exact .intoLength hwidth
    have hdigits : (tail.take (width first)).length = width first :=
      List.length_take_of_le (Nat.not_lt.mp hwidth)
    set digits := tail.take (width first)
    set body := tail.drop (width first)
    have htail : first :: tail = first :: digits ++ body := by
      rw [List.cons_append, List.take_append_drop]
    by_cases hlength : body.length < (value first digits).toNat
    · rw [htail]
      exact .intoBody hdigits hlength
    · rw [htail, ← List.take_append_drop (value first digits).toNat body]
      exact .past hdigits (List.length_take_of_le (Nat.not_lt.mp hlength))

/-- The number of bytes that the reader asks for at the start of a stream: the first byte of a
length, its digits and, if they are there, the bytes that it tells. -/
def needed : Bytes → ℕ
  | [] => 1
  | first :: tail =>
    1 + width first +
      if tail.length < width first then 0 else (value first (tail.take (width first))).toNat

theorem needed_of_digits {first : UInt8} {digits : Bytes} (h : digits.length = width first)
    (tail : Bytes) :
    needed (first :: digits ++ tail) = 1 + width first + (value first digits).toNat := by
  have hlength : ¬(digits ++ tail).length < width first := by
    rw [List.length_append]
    omega
  rw [List.cons_append, needed, if_neg hlength, ← h, List.take_left]

/-! ## What is read -/

theorem read_nil (ending : Ending) : read ⟨[], ending⟩ = .error (lengthError ending) := rfl

theorem read_into_length {first : UInt8} {digits : Bytes} (h : digits.length < width first)
    (ending : Ending) : read ⟨first :: digits, ending⟩ = .error (lengthError ending) := by
  rw [read, CompactSize.read_of_short h]
  rfl

theorem read_into_body {first : UInt8} {digits body : Bytes} (hdigits : digits.length = width first)
    (hbody : body.length < (value first digits).toNat) (ending : Ending) :
    read ⟨first :: digits ++ body, ending⟩ =
      .error (bodyError body.length (value first digits).toNat ending) := by
  have hsize : CompactSize.read ⟨first :: digits ++ body, ending⟩ =
      .ok (value first digits, ⟨body, ending⟩) := CompactSize.read_of_value hdigits ⟨body, ending⟩
  have hshort : Source.readExact (value first digits).toNat ⟨body, ending⟩ = .error ending :=
    Source.readExact_of_short hbody
  rw [read, hsize]
  simp only [bind, Except.bind, Except.mapError]
  rw [hshort]

/-- The bytes that a length announces are decoded, and what follows them is left. -/
theorem read_past {first : UInt8} {digits body : Bytes} (hdigits : digits.length = width first)
    (hbody : body.length = (value first digits).toNat) (rest : Source) :
    read ⟨first :: digits ++ (body ++ rest.bytes), rest.ending⟩ =
      (ofBytes body).map fun s => (s, rest) := by
  have hsize : CompactSize.read ⟨first :: digits ++ (body ++ rest.bytes), rest.ending⟩ =
      .ok (value first digits, ⟨body ++ rest.bytes, rest.ending⟩) :=
    CompactSize.read_of_value hdigits ⟨body ++ rest.bytes, rest.ending⟩
  have htaken : Source.readExact (value first digits).toNat ⟨body ++ rest.bytes, rest.ending⟩ =
      .ok (body, rest) := Source.readExact_eq_ok.mpr ⟨rfl, hbody, rfl⟩
  rw [read, hsize]
  simp only [bind, Except.bind, Except.mapError]
  rw [htaken]
  simp only
  cases ofBytes body <;> rfl

theorem ofBytes_ne_readFailed (bs : Bytes) (reason : String) :
    ofBytes bs ≠ .error (.readFailed reason) := by
  intro h
  obtain ⟨_, _, -, -, hover⟩ := Command.exists_overruns_of_decode (ofBytes_eq_error.mp h)
  cases hover

/-! ## Endings -/

/-- A failure is reported just if the reader asks for more bytes than came before it. -/
theorem read_broken_iff (bs : Bytes) (reason : String) :
    read ⟨bs, .broken reason⟩ = .error (.readFailed reason) ↔ bs.length < needed bs := by
  cases reach bs with
  | nothing => exact iff_of_true (read_nil _) Nat.one_pos
  | intoLength hdigits =>
    refine iff_of_true (read_into_length hdigits _) ?_
    rw [needed, if_pos hdigits, List.length_cons]
    omega
  | intoBody hdigits hbody =>
    refine iff_of_true (read_into_body hdigits hbody _) ?_
    rw [needed_of_digits hdigits, List.length_append, List.length_cons]
    omega
  | @past first digits body after hdigits hbody =>
    refine iff_of_false (fun h => ?_) ?_
    · rw [read_past hdigits hbody ⟨after, _⟩] at h
      cases hs : ofBytes body with
      | ok s =>
        rw [hs] at h
        cases h
      | error e =>
        rw [hs] at h
        cases h
        exact ofBytes_ne_readFailed body reason hs
    · rw [needed_of_digits hdigits, List.length_append, List.length_append, List.length_cons]
      omega

/-- A stream that ends too early is one that ends. -/
theorem read_unexpectedEnd (bs : Bytes) :
    (read ⟨bs, .unexpectedEnd⟩).map (fun (s, rest) => (s, rest.bytes)) =
      (read ⟨bs, .clean⟩).map fun (s, rest) => (s, rest.bytes) := by
  cases reach bs with
  | nothing => rfl
  | intoLength hdigits =>
    rw [read_into_length hdigits, read_into_length hdigits]
    rfl
  | intoBody hdigits hbody =>
    rw [read_into_body hdigits hbody, read_into_body hdigits hbody]
    rfl
  | @past first digits body after hdigits hbody =>
    rw [read_past hdigits hbody ⟨after, _⟩, read_past hdigits hbody ⟨after, _⟩]
    cases ofBytes body <;> rfl

/-- If the bytes suffice, then neither what follows them nor the ending is looked at. -/
theorem read_append {bs : Bytes} (h : needed bs ≤ bs.length) (rest : Source) :
    read ⟨bs ++ rest.bytes, rest.ending⟩ =
      (read ⟨bs, .clean⟩).map fun (s, left) => (s, ⟨left.bytes ++ rest.bytes, rest.ending⟩) := by
  cases reach bs with
  | nothing => exact absurd h (by decide)
  | intoLength hdigits =>
    rw [needed, if_pos hdigits, List.length_cons] at h
    omega
  | intoBody hdigits hbody =>
    rw [needed_of_digits hdigits, List.length_append, List.length_cons] at h
    omega
  | @past first digits body after hdigits hbody =>
    rw [read_past hdigits hbody ⟨after, _⟩, List.append_assoc, List.append_assoc,
      read_past hdigits hbody ⟨after ++ rest.bytes, rest.ending⟩]
    cases ofBytes body <;> rfl

/-! ## Written scripts -/

/-- The number of bytes that the length of a script takes. -/
def prefixLength (s : Script) : ℕ :=
  (CompactSize.encode (UInt64.ofNat s.byteLength)).length

/-- What is written is a form of the length and the bytes of the script. -/
theorem exists_serialize_eq {s : Script} (h : s.byteLength < Number.wordSize) :
    ∃ first digits, s.serialize = first :: digits ++ s.toBytes ∧ digits.length = width first ∧
      (value first digits).toNat = s.byteLength ∧ 1 + digits.length = s.prefixLength := by
  set n := UInt64.ofNat s.byteLength with hn
  have hform : CompactSize.encode n =
      CompactSize.lead n :: Bytes.ofNatLE (width (CompactSize.lead n)) n.toNat :=
    CompactSize.encode_eq n
  refine ⟨CompactSize.lead n, Bytes.ofNatLE (width (CompactSize.lead n)) n.toNat, ?_,
    Bytes.length_ofNatLE _ _, ?_, ?_⟩
  · rw [← hform, serialize, toBytes, Command.length_encode]
    rfl
  · rw [CompactSize.value_lead, hn]
    exact UInt64.toNat_ofNat_of_lt h
  · rw [prefixLength, ← hn, hform, List.length_cons]
    omega

/-- A script that is read back from its bytes is read back from a stream, and no more is taken from
the stream than was written. -/
theorem read_serialize {s : Script} (hs : ∀ c ∈ s.commands, c.Readable)
    (hlength : s.byteLength < Number.wordSize) (rest : Source) :
    read ⟨s.serialize ++ rest.bytes, rest.ending⟩ = .ok (ofCommands s.commands, rest) := by
  obtain ⟨first, digits, hserialize, hdigits, hvalue, -⟩ := exists_serialize_eq hlength
  have hbody : s.toBytes.length = (value first digits).toNat := by
    rw [hvalue]
    exact Command.length_encode s.commands
  have hdecoded : ofBytes s.toBytes = .ok (ofCommands s.commands) :=
    ofBytes_eq_ok.mpr ⟨_, Command.decode_encode hs, rfl⟩
  rw [hserialize, List.append_assoc, read_past hdigits hbody, hdecoded]
  rfl

/-- A script that is cut off is not read, and the error tells where the cut is. -/
theorem read_cut {s : Script} (hlength : s.byteLength < Number.wordSize) {bs missing : Bytes}
    (hcut : bs ++ missing = s.serialize) (hmissing : missing ≠ []) (ending : Ending) :
    read ⟨bs, ending⟩ = .error (if bs.length < s.prefixLength then lengthError ending
      else bodyError (bs.length - s.prefixLength) s.byteLength ending) := by
  obtain ⟨first, digits, hserialize, hdigits, hvalue, hprefix⟩ := exists_serialize_eq hlength
  have hbs : bs <+: s.serialize := ⟨missing, hcut⟩
  have hform : first :: digits <+: s.serialize := ⟨s.toBytes, hserialize.symm⟩
  rw [add_comm, ← List.length_cons] at hprefix
  split_ifs with hshort
  · rw [← hprefix] at hshort
    have hinside := List.prefix_of_prefix_length_le hbs hform (Nat.le_of_lt hshort)
    cases bs with
    | nil => exact read_nil ending
    | cons b bs =>
      obtain ⟨rfl, -⟩ := List.cons_prefix_cons.mp hinside
      rw [List.length_cons, List.length_cons, hdigits] at hshort
      exact read_into_length (Nat.lt_of_succ_lt_succ hshort) ending
  · rw [← hprefix, Nat.not_lt] at hshort
    obtain ⟨body, rfl⟩ := List.prefix_of_prefix_length_le hform hbs hshort
    have hbody : body ++ missing = s.toBytes :=
      List.append_cancel_left (by rw [← List.append_assoc, hcut, hserialize])
    have htotal : body.length + missing.length = s.byteLength := by
      rw [← List.length_append, hbody]
      exact Command.length_encode s.commands
    have hcutBody : body.length < (value first digits).toNat := by
      have := List.length_pos_iff.mpr hmissing
      omega
    rw [read_into_body hdigits hcutBody, hvalue, List.length_append, hprefix,
      Nat.add_sub_cancel_left]

/-! ## Lists of scripts -/

theorem length_of_read {source rest : Source} {s : Script} (h : read source = .ok (s, rest)) :
    rest.bytes.length < source.bytes.length := by
  obtain ⟨n, after, hsize, hbody, -, -⟩ := exists_of_read h
  obtain ⟨first, digits, hbytes, -, -, -⟩ := CompactSize.exists_of_read hsize
  obtain ⟨hafter, -, -⟩ := Source.readExact_eq_ok.mp hbody
  rw [hbytes, hafter, List.length_append, List.length_append, List.length_cons]
  omega

/-- The scripts of a source, read until no bytes are left. -/
def readAll (source : Source) : Except ScriptError (List Script) :=
  if source.bytes = [] then .ok []
  else
    match _h : read source with
    | .error e => .error e
    | .ok (s, rest) => (s :: ·) <$> readAll rest
termination_by source.bytes.length
decreasing_by exact length_of_read _h

theorem readAll_cons {source rest : Source} {s : Script} (h : read source = .ok (s, rest)) :
    readAll source = (s :: ·) <$> readAll rest := by
  have hne : source.bytes ≠ [] := fun hnil =>
    absurd (length_of_read h) (by rw [hnil]; exact Nat.not_lt_zero _)
  rw [readAll, if_neg hne]
  split
  · rename_i e he
    rw [h] at he
    cases he
  · rename_i s' rest' h'
    rw [h] at h'
    cases h'
    rfl

theorem readAll_flatMap_serialize {ss : List Script}
    (h : ∀ s ∈ ss, (∀ c ∈ s.commands, c.Readable) ∧ s.byteLength < Number.wordSize)
    (ending : Ending) :
    readAll ⟨ss.flatMap serialize, ending⟩ = .ok (ss.map fun s => ofCommands s.commands) := by
  induction ss with
  | nil =>
    rw [readAll]
    rfl
  | cons s ss ih =>
    obtain ⟨⟨hs, hlength⟩, hrest⟩ := List.forall_mem_cons.mp h
    have hread := read_serialize hs hlength ⟨ss.flatMap serialize, ending⟩
    rw [List.flatMap_cons, readAll_cons hread, ih hrest]
    rfl

/-! ## The format -/

/-- The format tells where a script ends. A script that is read back from its bytes is read back
from a stream whatever follows it, and what follows is left; so a list of scripts is read back from
its scripts one after the other; and a stream that ends within a script gives no script but an
error that tells where it ends. Of any stream, a failure is reported just if more bytes are needed
than came before it, one that tells of an early end is taken for the end, and if the bytes suffice
then it makes no difference what comes after them. The lengths are those that a machine word holds,
which is all that memory does. -/
theorem selfDelimiting :
    (∀ s : Script, (∃ t, ofBytes s.toBytes = .ok t ∧ t.sameCommands s = true) →
      s.byteLength < Number.wordSize →
        (∀ rest : Source, read ⟨s.serialize ++ rest.bytes, rest.ending⟩ =
          .ok (ofCommands s.commands, rest)) ∧
        ∀ bs missing : Bytes, bs ++ missing = s.serialize → missing ≠ [] →
          read ⟨bs, .clean⟩ = .error (if bs.length < s.prefixLength then .truncatedLength
            else .truncatedScript (bs.length - s.prefixLength) s.byteLength)) ∧
      (∀ (ss : List Script) (ending : Ending),
        (∀ s ∈ ss, (∃ t, ofBytes s.toBytes = .ok t ∧ t.sameCommands s = true) ∧
          s.byteLength < Number.wordSize) →
        readAll ⟨ss.flatMap serialize, ending⟩ = .ok (ss.map fun s => ofCommands s.commands)) ∧
      ∀ bs : Bytes,
        (∀ reason, read ⟨bs, .broken reason⟩ = .error (.readFailed reason) ↔
          bs.length < needed bs) ∧
        ((read ⟨bs, .unexpectedEnd⟩).map (fun (s, rest) => (s, rest.bytes)) =
          (read ⟨bs, .clean⟩).map fun (s, rest) => (s, rest.bytes)) ∧
        (needed bs ≤ bs.length → ∀ rest : Source,
          read ⟨bs ++ rest.bytes, rest.ending⟩ = (read ⟨bs, .clean⟩).map
            fun (s, left) => (s, ⟨left.bytes ++ rest.bytes, rest.ending⟩)) := by
  refine ⟨fun s hs hlength => ⟨fun rest => ?_, fun bs missing hcut hmissing => ?_⟩,
    fun ss ending hss => ?_, fun bs => ?_⟩
  · exact read_serialize ((readsBack_iff s).mp hs) hlength rest
  · exact read_cut hlength hcut hmissing .clean
  · exact readAll_flatMap_serialize
      (fun s hmem => (hss s hmem).imp_left (readsBack_iff s).mp) ending
  · exact ⟨read_broken_iff bs, read_unexpectedEnd bs, read_append⟩

/-- Two scripts in one stream, the first one cut off, and a failure after it. -/
theorem selfDelimiting_twoScripts :
    readAll (Source.ofBytes [0x01, 0x51, 0x02, 0x52, 0x93]) =
        .ok [ofCommands [.op 0x51], ofCommands [.op 0x52, .op 0x93]] ∧
      read (Source.ofBytes [0x02, 0x52]) = .error (.truncatedScript 1 2) ∧
      read ⟨[0x02, 0x52], .broken "reset"⟩ = .error (.readFailed "reset") := by
  have hreadable : ∀ s ∈ [ofCommands [.op 0x51], ofCommands [.op 0x52, .op 0x93]],
      (∃ t, ofBytes s.toBytes = .ok t ∧ t.sameCommands s = true) ∧
        s.byteLength < Number.wordSize := by
    simp only [readsBack_iff, ofCommands, List.forall_mem_cons, List.not_mem_nil,
      IsEmpty.forall_iff, implies_true, and_true, Command.readable_op]
    decide
  obtain ⟨hsum, hlength⟩ := hreadable (ofCommands [.op 0x52, .op 0x93]) (by simp)
  exact ⟨selfDelimiting.2.1 _ .clean hreadable,
    (selfDelimiting.1 _ hsum hlength).2 [0x02, 0x52] [0x93] rfl (by decide),
    ((selfDelimiting.2.2 [0x02, 0x52]).1 "reset").mpr (by decide)⟩

end Script

end SpendScript
