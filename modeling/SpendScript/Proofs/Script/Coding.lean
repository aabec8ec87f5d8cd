import SpendScript.Proofs.Encoding.Bytes
import SpendScript.Script.Basic

/-!
# Scripts read back from their bytes

Every command but an empty direct push, which is written like the opcode that pushes nothing, and
opcodes that begin a push, reads back as itself.

Results:
* `Command.Readable`: such a command.
* `Command.decode_encode`: a list of readable commands is read back from its bytes.
* `Command.encode_of_decode`: what has been read is written as the same bytes.
* `Command.length_encode`: `totalLength` is the number of these bytes.
* `Command.Overruns`: bytes that begin with a push which their end cuts off.
* `Script.codingExact`: the reader and the writer of scripts are inverse to each other on the
  readable scripts, no other script reads back as itself, and the reader refuses what comes to an
  overrun, only that, and tells where.
-/

namespace SpendScript

/-! ## Lengths -/

theorem Push.length_toBytes (p : Push) : p.toBytes.length = p.byteLength := by
  have hheader : p.header.length = p.encoding.headerLength := by
    unfold header
    cases p.encoding with
    | direct => rfl
    | pushData1 => rfl
    | pushData2 => rw [List.length_cons, Bytes.length_ofNatLE]; rfl
  rw [toBytes, List.length_append, hheader, byteLength]

namespace Command

theorem length_toBytes (c : Command) : c.toBytes.length = c.byteLength := by
  cases c with
  | op code => rfl
  | push p => exact p.length_toBytes

theorem encode_cons (c : Command) (cs : List Command) : encode (c :: cs) = c.toBytes ++ encode cs :=
  List.flatMap_cons

theorem length_encode (cs : List Command) : (encode cs).length = totalLength cs := by
  induction cs with
  | nil => rfl
  | cons c cs ih => rw [encode_cons, List.length_append, length_toBytes, ih, totalLength]

/-! ## Reading -/

/-- The first byte of the command begins no other command. -/
def Readable : Command → Prop
  | .op code => ¬(1 ≤ code ∧ code ≤ Opcode.lastDirect) ∧ code ≠ Opcode.pushData1 ∧
      code ≠ Opcode.pushData2
  | .push p => p.data = [] → p.encoding ≠ .direct

theorem decode_cons {code : Opcode} {tail rest : Bytes} {c : Command} {cs : List Command}
    (hread : read code tail = .ok (c, rest)) (hrest : decode rest = .ok cs) :
    decode (code :: tail) = .ok (c :: cs) := by
  rw [decode]
  split
  · rename_i e he
    rw [hread] at he
    cases he
  · rename_i c' rest' h'
    rw [hread] at h'
    cases h'
    rw [hrest]
    rfl

theorem readData_append {data : Bytes} {encoding : PushEncoding} (rest : Bytes)
    (h : data.length ≤ encoding.maxLength) {k : Nat} (hk : k = data.length)
    (hmax : k ≤ encoding.maxLength) :
    readData encoding k hmax (data ++ rest) = .ok (.push ⟨data, encoding, h⟩, rest) := by
  subst hk
  unfold readData
  rw [if_pos (by rw [List.length_append]; exact Nat.le_add_right _ _)]
  simp only [List.take_left, List.drop_left]

theorem read_op {code : Opcode} (h : (Command.op code).Readable) (rest : Bytes) :
    read code rest = .ok (.op code, rest) := by
  obtain ⟨hdirect, h1, h2⟩ := h
  unfold read
  rw [dif_neg hdirect, if_neg h1, if_neg h2]

theorem read_direct {data : Bytes} (h : data.length ≤ PushEncoding.direct.maxLength)
    (hne : data ≠ []) (rest : Bytes) :
    read (UInt8.ofNat data.length) (data ++ rest) = .ok (.push ⟨data, .direct, h⟩, rest) := by
  have hle : data.length ≤ 75 := h
  have hnat : (UInt8.ofNat data.length).toNat = data.length := by
    rw [UInt8.toNat_ofNat']
    omega
  have hdirect : 1 ≤ UInt8.ofNat data.length ∧ UInt8.ofNat data.length ≤ Opcode.lastDirect := by
    constructor
    · rw [UInt8.le_iff_toNat_le, hnat]
      exact List.length_pos_iff.mpr hne
    · rw [UInt8.le_iff_toNat_le, hnat]
      exact hle
  unfold read
  rw [dif_pos hdirect]
  exact readData_append rest h hnat _

theorem read_pushData1 {data : Bytes} (h : data.length ≤ PushEncoding.pushData1.maxLength)
    (rest : Bytes) :
    read Opcode.pushData1 (UInt8.ofNat data.length :: (data ++ rest)) =
      .ok (.push ⟨data, .pushData1, h⟩, rest) := by
  have hle : data.length ≤ 255 := h
  have hnat : (UInt8.ofNat data.length).toNat = data.length := by
    rw [UInt8.toNat_ofNat']
    omega
  unfold read
  rw [dif_neg (by decide), if_pos rfl]
  exact readData_append rest h hnat _

theorem read_pushData2 {data : Bytes} (h : data.length ≤ PushEncoding.pushData2.maxLength)
    (rest : Bytes) :
    read Opcode.pushData2
        (UInt8.ofNat data.length :: UInt8.ofNat (data.length / 256) :: (data ++ rest)) =
      .ok (.push ⟨data, .pushData2, h⟩, rest) := by
  have hle : data.length ≤ 65535 := h
  have hnat : (UInt8.ofNat data.length).toNat + 256 * (UInt8.ofNat (data.length / 256)).toNat =
      data.length := by
    rw [UInt8.toNat_ofNat', UInt8.toNat_ofNat']
    omega
  unfold read
  rw [dif_neg (by decide), if_neg (by decide), if_pos rfl]
  exact readData_append rest h hnat _

/-- A readable command is read from the front of any bytes that begin with its own. -/
theorem exists_read {c : Command} (h : c.Readable) (rest : Bytes) :
    ∃ code tail, c.toBytes ++ rest = code :: tail ∧ read code tail = .ok (c, rest) := by
  cases c with
  | op code => exact ⟨code, rest, rfl, read_op h rest⟩
  | push p =>
    obtain ⟨data, encoding, hle⟩ := p
    cases encoding with
    | direct =>
      have hne : data ≠ [] := fun hnil => h hnil rfl
      exact ⟨_, _, rfl, read_direct hle hne rest⟩
    | pushData1 => exact ⟨_, _, rfl, read_pushData1 hle rest⟩
    | pushData2 => exact ⟨_, _, rfl, read_pushData2 hle rest⟩

/-- Readable commands are read back from their bytes. -/
theorem decode_encode {cs : List Command} (h : ∀ c ∈ cs, c.Readable) :
    decode (encode cs) = .ok cs := by
  induction cs with
  | nil => rw [encode, List.flatMap_nil, decode]
  | cons c cs ih =>
    obtain ⟨code, tail, hbytes, hread⟩ := exists_read (h c List.mem_cons_self) (encode cs)
    rw [encode_cons, hbytes]
    exact decode_cons hread (ih fun d hd => h d (List.mem_cons_of_mem c hd))

/-! ## Writing what has been read -/

theorem exists_of_readData {encoding : PushEncoding} {length : Nat}
    {h : length ≤ encoding.maxLength} {tail rest : Bytes} {c : Command}
    (hr : readData encoding length h tail = .ok (c, rest)) :
    ∃ (data : Bytes) (hle : data.length ≤ encoding.maxLength),
      data.length = length ∧ data ++ rest = tail ∧ c = .push ⟨data, encoding, hle⟩ := by
  unfold readData at hr
  split at hr
  · rename_i hlen
    simp only [Except.ok.injEq, Prod.mk.injEq] at hr
    obtain ⟨rfl, rfl⟩ := hr
    exact ⟨tail.take length, _, List.length_take_of_le hlen, List.take_append_drop length tail, rfl⟩
  · cases hr

/-- A command that has been read is written as it was. -/
theorem toBytes_of_read {code : Opcode} {tail rest : Bytes} {c : Command}
    (hr : read code tail = .ok (c, rest)) : c.toBytes ++ rest = code :: tail := by
  unfold read at hr
  split at hr
  · obtain ⟨data, hle, hlen, rfl, rfl⟩ := exists_of_readData hr
    show UInt8.ofNat data.length :: (data ++ rest) = _
    rw [hlen, UInt8.ofNat_toNat]
  split at hr
  · rename_i hcode
    split at hr
    · rename_i length tail
      obtain ⟨data, hle, hlen, rfl, rfl⟩ := exists_of_readData hr
      show Opcode.pushData1 :: UInt8.ofNat data.length :: (data ++ rest) = _
      rw [hlen, UInt8.ofNat_toNat, hcode]
    · cases hr
  split at hr
  · rename_i hcode
    split at hr
    · rename_i lo hi tail
      obtain ⟨data, hle, hlen, rfl, rfl⟩ := exists_of_readData hr
      show Opcode.pushData2 :: UInt8.ofNat data.length :: UInt8.ofNat (data.length / 256) ::
        (data ++ rest) = _
      have hlo : UInt8.ofNat data.length = lo := by
        apply UInt8.toNat.inj
        have := lo.toNat_lt
        rw [UInt8.toNat_ofNat', hlen]
        omega
      have hhi : UInt8.ofNat (data.length / 256) = hi := by
        apply UInt8.toNat.inj
        have := lo.toNat_lt
        have := hi.toNat_lt
        rw [UInt8.toNat_ofNat', hlen]
        omega
      rw [hlo, hhi, hcode]
    · cases hr
  · cases hr
    rfl

theorem exists_of_decode_cons {code : Opcode} {tail : Bytes} {cs : List Command}
    (h : decode (code :: tail) = .ok cs) :
    ∃ c rest ds, read code tail = .ok (c, rest) ∧ decode rest = .ok ds ∧ cs = c :: ds := by
  rw [decode] at h
  split at h
  · cases h
  · rename_i c rest hread
    cases hrest : decode rest with
    | error e =>
      rw [hrest] at h
      cases h
    | ok ds =>
      rw [hrest] at h
      cases h
      exact ⟨c, rest, ds, hread, hrest, rfl⟩

/-- The commands that a byte string spells are written as that byte string. -/
theorem encode_of_decode {bs : Bytes} {cs : List Command} (h : decode bs = .ok cs) :
    encode cs = bs := by
  match bs with
  | [] =>
    rw [decode] at h
    cases h
    rfl
  | code :: tail =>
    obtain ⟨c, rest, ds, hread, hrest, rfl⟩ := exists_of_decode_cons h
    rw [encode_cons, encode_of_decode hrest, toBytes_of_read hread]
termination_by bs.length
decreasing_by exact Nat.lt_succ_of_le (read_length hread)

theorem totalLength_of_decode {bs : Bytes} {cs : List Command} (h : decode bs = .ok cs) :
    totalLength cs = bs.length := by
  rw [← length_encode, encode_of_decode h]

/-! ## Only readable commands are read -/

theorem readable_of_read {code : Opcode} {tail rest : Bytes} {c : Command}
    (hr : read code tail = .ok (c, rest)) : c.Readable := by
  unfold read at hr
  split at hr
  · rename_i hcode
    obtain ⟨data, hle, hlen, -, rfl⟩ := exists_of_readData hr
    intro hnil
    rw [show data = [] from hnil, List.length_nil] at hlen
    have : 1 ≤ code.toNat := UInt8.le_iff_toNat_le.mp hcode.1
    omega
  rename_i hdirect
  split at hr
  · split at hr
    · obtain ⟨data, hle, -, -, rfl⟩ := exists_of_readData hr
      intro _ hencoding
      cases hencoding
    · cases hr
  rename_i h1
  split at hr
  · split at hr
    · obtain ⟨data, hle, -, -, rfl⟩ := exists_of_readData hr
      intro _ hencoding
      cases hencoding
    · cases hr
  rename_i h2
  cases hr
  exact ⟨hdirect, h1, h2⟩

theorem readable_of_decode {bs : Bytes} {cs : List Command} (h : decode bs = .ok cs) :
    ∀ c ∈ cs, c.Readable := by
  match bs with
  | [] =>
    rw [decode] at h
    cases h
    intro c hc
    cases hc
  | code :: tail =>
    obtain ⟨c, rest, ds, hread, hrest, rfl⟩ := exists_of_decode_cons h
    exact List.forall_mem_cons.mpr ⟨readable_of_read hread, readable_of_decode hrest⟩
termination_by bs.length
decreasing_by exact Nat.lt_succ_of_le (read_length hread)

/-- The readable opcodes are those outside the bytes that begin a push. -/
theorem readable_op {code : Opcode} : (op code).Readable ↔ ¬(0x01 ≤ code ∧ code ≤ 0x4d) := by
  simp only [Readable, Opcode.lastDirect, Opcode.pushData1, Opcode.pushData2, ne_eq,
    UInt8.le_iff_toNat_le, ← UInt8.toNat_inj, UInt8.reduceToNat]
  omega

/-! ## What the reader refuses -/

/-- The bytes begin with a push whose length field, or whose data, runs over their end. -/
inductive Overruns : Bytes → ScriptError → Prop
  | direct {code : Opcode} {tail : Bytes} (hcode : 1 ≤ code ∧ code ≤ Opcode.lastDirect)
      (hshort : tail.length < code.toNat) :
      Overruns (code :: tail) (.malformedPush code.toNat tail.length)
  | pushData1Length : Overruns [Opcode.pushData1] (.malformedPushSize [Opcode.pushData1])
  | pushData1 {length : UInt8} {tail : Bytes} (hshort : tail.length < length.toNat) :
      Overruns (Opcode.pushData1 :: length :: tail) (.malformedPush length.toNat tail.length)
  | pushData2Length {tail : Bytes} (hshort : tail.length < 2) :
      Overruns (Opcode.pushData2 :: tail) (.malformedPushSize (Opcode.pushData2 :: tail))
  | pushData2 {lo hi : UInt8} {tail : Bytes}
      (hshort : tail.length < lo.toNat + 256 * hi.toNat) :
      Overruns (Opcode.pushData2 :: lo :: hi :: tail)
        (.malformedPush (lo.toNat + 256 * hi.toNat) tail.length)

theorem readData_eq_error {encoding : PushEncoding} {length : Nat}
    {h : length ≤ encoding.maxLength} {tail : Bytes} {e : ScriptError} :
    readData encoding length h tail = .error e ↔
      tail.length < length ∧ e = .malformedPush length tail.length := by
  unfold readData
  split
  · rename_i hle
    simp only [reduceCtorEq, false_iff, not_and]
    exact fun hlt => absurd hle (Nat.not_le.mpr hlt)
  · rename_i hlt
    refine ⟨fun h => ?_, fun h => by rw [h.2]⟩
    cases h
    exact ⟨Nat.not_le.mp hlt, rfl⟩

theorem overruns_of_read {code : Opcode} {tail : Bytes} {e : ScriptError}
    (hr : read code tail = .error e) : Overruns (code :: tail) e := by
  unfold read at hr
  split at hr
  · rename_i hcode
    obtain ⟨hshort, rfl⟩ := readData_eq_error.mp hr
    exact .direct hcode hshort
  split at hr
  · rename_i hcode
    subst hcode
    split at hr
    · obtain ⟨hshort, rfl⟩ := readData_eq_error.mp hr
      exact .pushData1 hshort
    · cases hr
      exact .pushData1Length
  split at hr
  · rename_i hcode
    subst hcode
    split at hr
    · obtain ⟨hshort, rfl⟩ := readData_eq_error.mp hr
      exact .pushData2 hshort
    · rename_i hcons
      cases hr
      refine .pushData2Length (Nat.not_le.mp fun hle => ?_)
      cases tail with
      | nil => exact absurd hle (by decide)
      | cons lo tail =>
        cases tail with
        | nil => exact absurd hle (by simp)
        | cons hi tail => exact hcons lo hi tail rfl
  · cases hr

theorem read_of_overruns {code : Opcode} {tail : Bytes} {e : ScriptError}
    (h : Overruns (code :: tail) e) : read code tail = .error e := by
  unfold read
  cases h with
  | direct hcode hshort =>
    rw [dif_pos hcode]
    exact readData_eq_error.mpr ⟨hshort, rfl⟩
  | pushData1Length => rw [dif_neg (by decide), if_pos rfl]
  | pushData1 hshort =>
    rw [dif_neg (by decide), if_pos rfl]
    exact readData_eq_error.mpr ⟨hshort, rfl⟩
  | pushData2Length hshort =>
    rw [dif_neg (by decide), if_neg (by decide), if_pos rfl]
    match tail, hshort with
    | [], _ => rfl
    | [_], _ => rfl
  | pushData2 hshort =>
    rw [dif_neg (by decide), if_neg (by decide), if_pos rfl]
    exact readData_eq_error.mpr ⟨hshort, rfl⟩

theorem decode_cons_eq_error {code : Opcode} {tail : Bytes} {e : ScriptError} :
    decode (code :: tail) = .error e ↔
      read code tail = .error e ∨
        ∃ c rest, read code tail = .ok (c, rest) ∧ decode rest = .error e := by
  rw [decode]
  split
  · rename_i e' hread
    rw [hread]
    simp only [Except.error.injEq, reduceCtorEq, false_and, exists_false, or_false]
  · rename_i c rest hread
    rw [hread]
    simp only [reduceCtorEq, Except.ok.injEq, Prod.mk.injEq, false_or]
    constructor
    · intro h
      cases hrest : decode rest with
      | error e' =>
        rw [hrest] at h
        cases h
        exact ⟨c, rest, ⟨rfl, rfl⟩, hrest⟩
      | ok cs =>
        rw [hrest] at h
        cases h
    · rintro ⟨_, _, ⟨rfl, rfl⟩, hrest⟩
      rw [hrest]
      rfl

theorem exists_overruns_of_decode {bs : Bytes} {e : ScriptError} (h : decode bs = .error e) :
    ∃ cs rest, (∀ c ∈ cs, c.Readable) ∧ bs = encode cs ++ rest ∧ Overruns rest e := by
  match bs with
  | [] =>
    rw [decode] at h
    cases h
  | code :: tail =>
    rcases decode_cons_eq_error.mp h with hread | ⟨c, after, hread, hafter⟩
    · exact ⟨[], code :: tail, List.forall_mem_nil _, rfl, overruns_of_read hread⟩
    · obtain ⟨cs, rest, hcs, rfl, hover⟩ := exists_overruns_of_decode hafter
      refine ⟨c :: cs, rest, List.forall_mem_cons.mpr ⟨readable_of_read hread, hcs⟩, ?_, hover⟩
      rw [encode_cons, List.append_assoc, toBytes_of_read hread]
termination_by bs.length
decreasing_by exact Nat.lt_succ_of_le (read_length hread)

theorem decode_of_overruns {cs : List Command} {rest : Bytes} {e : ScriptError}
    (hcs : ∀ c ∈ cs, c.Readable) (hover : Overruns rest e) :
    decode (encode cs ++ rest) = .error e := by
  induction cs with
  | nil =>
    rw [encode, List.flatMap_nil, List.nil_append]
    match rest with
    | code :: tail => exact decode_cons_eq_error.mpr (.inl (read_of_overruns hover))
  | cons c cs ih =>
    obtain ⟨hc, hcs⟩ := List.forall_mem_cons.mp hcs
    rw [encode_cons, List.append_assoc]
    obtain ⟨code, tail, hbytes, hread⟩ := exists_read hc (encode cs ++ rest)
    rw [hbytes]
    exact decode_cons_eq_error.mpr (.inr ⟨c, _, hread, ih hcs⟩)

end Command

theorem Script.ofBytes_eq_ok {bs : Bytes} {s : Script} :
    Script.ofBytes bs = .ok s ↔ ∃ cs, Command.decode bs = .ok cs ∧ s = Script.ofCommands cs := by
  unfold ofBytes
  cases Command.decode bs with
  | error e =>
    constructor
    · intro h
      cases h
    · rintro ⟨cs, ⟨⟩, -⟩
  | ok cs =>
    constructor
    · rintro ⟨⟩
      exact ⟨cs, rfl, rfl⟩
    · rintro ⟨_, ⟨⟩, rfl⟩
      rfl

namespace Script

theorem ofBytes_eq_error {bs : Bytes} {e : ScriptError} :
    ofBytes bs = .error e ↔ Command.decode bs = .error e := by
  unfold ofBytes
  cases Command.decode bs with
  | error e' => simp only [Functor.map, Except.map, Except.error.injEq]
  | ok cs => simp only [Functor.map, Except.map, reduceCtorEq]

/-- A script reads back as itself just if each of its commands is readable. -/
theorem readsBack_iff (s : Script) :
    (∃ t, ofBytes s.toBytes = .ok t ∧ t.sameCommands s = true) ↔
      ∀ c ∈ s.commands, c.Readable := by
  constructor
  · rintro ⟨t, ht, hsame⟩
    obtain ⟨cs, hdecode, rfl⟩ := ofBytes_eq_ok.mp ht
    rw [show s.commands = cs from (of_decide_eq_true hsame).symm]
    exact Command.readable_of_decode hdecode
  · intro h
    exact ⟨ofCommands s.commands, ofBytes_eq_ok.mpr ⟨_, Command.decode_encode h, rfl⟩,
      decide_eq_true rfl⟩

/-- Reading and writing raw scripts is exact. What is accepted is written as it was read, with its
length told beforehand. A script reads back as itself just if it has no opcode that begins a push
and no empty direct push. And bytes are refused just if, after commands that read, a push runs
over the end; the error tells which part is missing. -/
theorem codingExact (bs : Bytes) (s : Script) :
    (∀ t, ofBytes bs = .ok t → t.toBytes = bs ∧ t.byteLength = bs.length) ∧
      ((∃ t, ofBytes s.toBytes = .ok t ∧ t.sameCommands s = true) ↔
        (∀ code, .op code ∈ s.commands → ¬(0x01 ≤ code ∧ code ≤ 0x4d)) ∧
          ∀ p, .push p ∈ s.commands → ¬(p.data = [] ∧ p.encoding = .direct)) ∧
      ∀ e, ofBytes bs = .error e ↔
        ∃ cs rest, (∀ c ∈ cs, c.Readable) ∧ bs = Command.encode cs ++ rest ∧
          Command.Overruns rest e := by
  refine ⟨fun t ht => ?_, ?_, fun e => ?_⟩
  · obtain ⟨cs, hdecode, rfl⟩ := ofBytes_eq_ok.mp ht
    exact ⟨Command.encode_of_decode hdecode, Command.totalLength_of_decode hdecode⟩
  · rw [readsBack_iff]
    constructor
    · intro h
      exact ⟨fun code hmem => Command.readable_op.mp (h _ hmem),
        fun p hmem hp => h _ hmem hp.1 hp.2⟩
    · rintro ⟨hop, hpush⟩ c hmem
      cases c with
      | op code => exact Command.readable_op.mpr (hop code hmem)
      | push p => exact fun hnil hdirect => hpush p hmem ⟨hnil, hdirect⟩
  · rw [ofBytes_eq_error]
    constructor
    · exact Command.exists_overruns_of_decode
    · rintro ⟨cs, rest, hcs, rfl, hover⟩
      exact Command.decode_of_overruns hcs hover

/-- A push in a longer form than it needs reads back as it was, and a push with a byte missing is
refused. -/
theorem codingExact_longPush :
    (∃ t, ofBytes [0x4c, 0x01, 0xab, 0x93] = .ok t ∧ t.toBytes = [0x4c, 0x01, 0xab, 0x93] ∧
        t.sameCommands (ofCommands [.push ⟨[0xab], .pushData1, by decide⟩, .op 0x93]) = true) ∧
      ofBytes [0x93, 0x02, 0xab] = .error (.malformedPush 2 1) := by
  constructor
  · obtain ⟨hwritten, hreadsBack, -⟩ := codingExact [0x4c, 0x01, 0xab, 0x93]
      (ofCommands [.push ⟨[0xab], .pushData1, by decide⟩, .op 0x93])
    obtain ⟨t, ht, hsame⟩ := hreadsBack.mpr
      ⟨by simp [ofCommands, UInt8.le_iff_toNat_le], by simp [ofCommands]⟩
    exact ⟨t, ht, (hwritten t ht).1, hsame⟩
  · refine ((codingExact [0x93, 0x02, 0xab] empty).2.2 _).mpr
      ⟨[.op 0x93], [0x02, 0xab], ?_, rfl, .direct (by decide) (by decide)⟩
    exact List.forall_mem_singleton.mpr (Command.readable_op.mpr (by decide))

end Script

end SpendScript
