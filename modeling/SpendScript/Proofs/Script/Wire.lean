import SpendScript.Script.Wire
import SpendScript.Proofs.Encoding.Bytes
import SpendScript.Proofs.Script.Coding

/-!
# Serialized scripts read back

A script that has been read from a source is written with the shortest form of its length. The
reader takes longer forms too and does not keep them, so what is written is what was read just if
the length was in its shortest form.

Results:
* `CompactSize.Shortest`: a length after this first byte needs all the bytes that follow.
* `CompactSize.encode_eq_iff`: the form that was read is the shortest just if it needs its bytes.
* `CompactSize.read_encode`: a number is read back from its shortest form.
* `Script.serializedAsRead`: what was read, what is written, and when they are equal.
* `Script.not_serializedAsRead`: the length one in three bytes is written in one.
-/

namespace SpendScript

/-! ## Sources -/

namespace Source

theorem readByte_eq_ok {s rest : Source} {b : UInt8} :
    s.readByte = .ok (b, rest) ↔ s.bytes = b :: rest.bytes ∧ s.ending = rest.ending := by
  obtain ⟨bytes, ending⟩ := s
  obtain ⟨after, ending'⟩ := rest
  cases bytes with
  | nil => simp only [readByte, reduceCtorEq, false_and]
  | cons c bytes =>
    simp only [readByte, Except.ok.injEq, Prod.mk.injEq, mk.injEq, List.cons.injEq, and_assoc]

theorem readExact_eq_ok {n : ℕ} {s rest : Source} {bs : Bytes} :
    s.readExact n = .ok (bs, rest) ↔
      s.bytes = bs ++ rest.bytes ∧ bs.length = n ∧ s.ending = rest.ending := by
  obtain ⟨bytes, ending⟩ := s
  obtain ⟨after, ending'⟩ := rest
  unfold readExact
  split
  · rename_i hle
    simp only [Except.ok.injEq, Prod.mk.injEq, mk.injEq]
    constructor
    · rintro ⟨rfl, rfl, rfl⟩
      exact ⟨(List.take_append_drop n bytes).symm, List.length_take_of_le hle, rfl⟩
    · rintro ⟨rfl, rfl, rfl⟩
      exact ⟨List.take_left, List.drop_left, rfl⟩
  · rename_i hlt
    simp only [reduceCtorEq, false_iff]
    rintro ⟨rfl, rfl, -⟩
    exact hlt (by rw [List.length_append]; exact Nat.le_add_right _ _)

end Source

/-! ## Compact sizes -/

namespace CompactSize

/-- The number is too large for the forms with fewer bytes than this first byte announces. -/
def Shortest (first : UInt8) (n : UInt64) : Prop :=
  (first = marker2 → 0xfd ≤ n) ∧ (first = marker4 → 0xffff < n) ∧
    (first = marker8 → 0xffffffff < n)

/-- The number that a first byte and the bytes after it spell. -/
def value (first : UInt8) (digits : Bytes) : UInt64 :=
  if width first = 0 then first.toUInt64 else UInt64.ofNat (Bytes.toNatLE digits)

/-- The first byte of the shortest form. -/
def lead (n : UInt64) : UInt8 :=
  if n < 0xfd then n.toUInt8 else if n ≤ 0xffff then marker2
  else if n ≤ 0xffffffff then marker4 else marker8

theorem exists_of_read {s rest : Source} {n : UInt64} (h : read s = .ok (n, rest)) :
    ∃ first digits, s.bytes = first :: digits ++ rest.bytes ∧ s.ending = rest.ending ∧
      digits.length = width first ∧ n = value first digits := by
  unfold read at h
  cases hfirst : s.readByte with
  | error e =>
    rw [hfirst] at h
    cases h
  | ok p =>
    obtain ⟨first, after⟩ := p
    obtain ⟨hbytes, hending⟩ := Source.readByte_eq_ok.mp hfirst
    rw [hfirst] at h
    simp only [bind, Except.bind] at h
    split at h
    · rename_i hwidth
      cases h
      exact ⟨first, [], hbytes, hending, hwidth.symm, by rw [value, if_pos hwidth]⟩
    · rename_i hwidth
      cases hdigits : after.readExact (width first) with
      | error e =>
        rw [hdigits] at h
        cases h
      | ok q =>
        obtain ⟨digits, after'⟩ := q
        obtain ⟨hbytes', hlength, hending'⟩ := Source.readExact_eq_ok.mp hdigits
        rw [hdigits] at h
        cases h
        refine ⟨first, digits, ?_, hending.trans hending', hlength, by rw [value, if_neg hwidth]⟩
        rw [hbytes, hbytes', List.cons_append]

theorem read_of_value {first : UInt8} {digits : Bytes} (hlength : digits.length = width first)
    (rest : Source) :
    read ⟨first :: digits ++ rest.bytes, rest.ending⟩ = .ok (value first digits, rest) := by
  have hfirst : Source.readByte ⟨first :: digits ++ rest.bytes, rest.ending⟩ =
      .ok (first, ⟨digits ++ rest.bytes, rest.ending⟩) := rfl
  unfold read value
  rw [hfirst]
  simp only [bind, Except.bind]
  split
  · rename_i hwidth
    rw [List.length_eq_zero_iff.mp (hlength.trans hwidth)]
    rfl
  · have hdigits : Source.readExact (width first) ⟨digits ++ rest.bytes, rest.ending⟩ =
        .ok (digits, rest) := Source.readExact_eq_ok.mpr ⟨rfl, hlength, rfl⟩
    rw [hdigits]
    rfl

/-! ### The shortest form -/

theorem toNat_lead (n : UInt64) :
    (lead n).toNat = if n.toNat < 253 then n.toNat else if n.toNat ≤ 65535 then 253
      else if n.toNat ≤ 4294967295 then 254 else 255 := by
  simp only [lead, marker2, marker4, marker8, UInt64.lt_iff_toNat_lt, UInt64.le_iff_toNat_le,
    UInt64.reduceToNat]
  split_ifs
  · rw [UInt64.toNat_toUInt8]
    omega
  · rfl
  · rfl
  · rfl

theorem width_eq (first : UInt8) :
    width first = if first.toNat = 253 then 2 else if first.toNat = 254 then 4
      else if first.toNat = 255 then 8 else 0 := by
  simp only [width, marker2, marker4, marker8, ← UInt8.toNat_inj, UInt8.reduceToNat]

theorem width_lead (n : UInt64) :
    width (lead n) = if n < 0xfd then 0 else if n ≤ 0xffff then 2
      else if n ≤ 0xffffffff then 4 else 8 := by
  rw [width_eq, toNat_lead]
  simp only [UInt64.lt_iff_toNat_lt, UInt64.le_iff_toNat_le, UInt64.reduceToNat]
  split_ifs <;> omega

theorem encode_eq (n : UInt64) : encode n = lead n :: Bytes.ofNatLE (width (lead n)) n.toNat := by
  rw [width_lead]
  unfold encode lead
  split_ifs <;> rfl

theorem lt_of_value {first : UInt8} {digits : Bytes} (hlength : digits.length = width first)
    (hwidth : width first ≠ 0) : (value first digits).toNat = Bytes.toNatLE digits := by
  have hle : width first ≤ 8 := by
    unfold width
    split_ifs <;> decide
  have hlt : Bytes.toNatLE digits < 2 ^ 64 :=
    calc Bytes.toNatLE digits < 256 ^ digits.length := Bytes.toNatLE_lt digits
      _ ≤ 256 ^ 8 := Nat.pow_le_pow_right (by decide) (hlength ▸ hle)
      _ = 2 ^ 64 := by decide
  rw [value, if_neg hwidth, UInt64.toNat_ofNat', Nat.mod_eq_of_lt hlt]

/-- A form has the right first byte just if it needs its bytes. -/
theorem lead_value_iff {first : UInt8} {digits : Bytes} (hlength : digits.length = width first) :
    lead (value first digits) = first ↔ Shortest first (value first digits) := by
  have hfits : width first = 0 ∧ (value first digits).toNat = first.toNat ∨
      width first ≠ 0 ∧ (value first digits).toNat < 256 ^ width first := by
    by_cases hwidth : width first = 0
    · exact .inl ⟨hwidth, by rw [value, if_pos hwidth, UInt8.toNat_toUInt64]⟩
    · have hlt := Bytes.toNatLE_lt digits
      rw [← lt_of_value hlength hwidth, hlength] at hlt
      exact .inr ⟨hwidth, hlt⟩
  have hbyte := first.toNat_lt
  rw [width_eq] at hfits
  simp only [Shortest, marker2, marker4, marker8, ← UInt8.toNat_inj, toNat_lead,
    UInt64.lt_iff_toNat_lt, UInt64.le_iff_toNat_le, UInt8.reduceToNat, UInt64.reduceToNat]
  generalize (value first digits).toNat = n at hfits ⊢
  generalize first.toNat = b at hfits hbyte ⊢
  split_ifs at hfits ⊢ <;> omega

/-- The form of a number is the one that is written just if it needs its bytes. -/
theorem encode_eq_iff {first : UInt8} {digits : Bytes} (hlength : digits.length = width first) :
    encode (value first digits) = first :: digits ↔ Shortest first (value first digits) := by
  rw [← lead_value_iff hlength, encode_eq, List.cons.injEq, and_iff_left_iff_imp]
  intro hlead
  rw [hlead]
  by_cases hwidth : width first = 0
  · rw [hwidth] at hlength ⊢
    rw [List.length_eq_zero_iff.mp hlength]
    rfl
  · rw [lt_of_value hlength hwidth, ← hlength, Bytes.ofNatLE_toNatLE]

/-- A form that does not need its bytes is longer than the one that is written. -/
theorem length_encode_lt {first : UInt8} {n : UInt64} (h : ¬Shortest first n) :
    (encode n).length < 1 + width first := by
  have hbyte := first.toNat_lt
  rw [encode_eq, List.length_cons, Bytes.length_ofNatLE, width_eq, width_eq, toNat_lead]
  simp only [Shortest, marker2, marker4, marker8, ← UInt8.toNat_inj, UInt64.lt_iff_toNat_lt,
    UInt64.le_iff_toNat_le, UInt8.reduceToNat, UInt64.reduceToNat] at h
  split_ifs <;> omega

/-- The shortest form spells its number. -/
theorem value_lead (n : UInt64) :
    value (lead n) (Bytes.ofNatLE (width (lead n)) n.toNat) = n := by
  apply UInt64.toNat_inj.mp
  have hn := n.toNat_lt
  by_cases hsmall : n < 0xfd
  · have hwidth : width (lead n) = 0 := by rw [width_lead, if_pos hsmall]
    rw [value, if_pos hwidth, lead, if_pos hsmall, UInt8.toNat_toUInt64, UInt64.toNat_toUInt8]
    have : n.toNat < 253 := UInt64.lt_iff_toNat_lt.mp hsmall
    omega
  · have hwidth : width (lead n) ≠ 0 := by
      rw [width_lead, if_neg hsmall]
      split_ifs <;> decide
    rw [lt_of_value (Bytes.length_ofNatLE _ _) hwidth]
    apply Bytes.toNatLE_ofNatLE
    rw [width_lead, if_neg hsmall]
    simp only [UInt64.le_iff_toNat_le, UInt64.reduceToNat]
    split_ifs <;> omega

/-- A number is read back from its shortest form. -/
theorem read_encode (n : UInt64) (rest : Source) :
    read ⟨encode n ++ rest.bytes, rest.ending⟩ = .ok (n, rest) := by
  rw [encode_eq, read_of_value (Bytes.length_ofNatLE _ _), value_lead]

end CompactSize

/-! ## Scripts -/

namespace Script

theorem exists_of_read {source rest : Source} {s : Script} (h : read source = .ok (s, rest)) :
    ∃ n after, CompactSize.read source = .ok (n, after) ∧
      after.readExact n.toNat = .ok (s.toBytes, rest) ∧ s.byteLength = n.toNat ∧
      ofBytes s.toBytes = .ok s := by
  unfold read at h
  cases hsize : CompactSize.read source with
  | error e =>
    rw [hsize] at h
    cases h
  | ok p =>
    obtain ⟨n, after⟩ := p
    rw [hsize] at h
    simp only [bind, Except.bind, Except.mapError] at h
    cases hbody : after.readExact n.toNat with
    | error e =>
      rw [hbody] at h
      cases h
    | ok q =>
      obtain ⟨body, after'⟩ := q
      rw [hbody] at h
      simp only at h
      cases hs : ofBytes body with
      | error e =>
        rw [hs] at h
        cases h
      | ok t =>
        rw [hs] at h
        cases h
        obtain ⟨cs, hdecode, rfl⟩ := ofBytes_eq_ok.mp hs
        have hbytes : (ofCommands cs).toBytes = body := Command.encode_of_decode hdecode
        have hlength : (ofCommands cs).byteLength = body.length :=
          Command.totalLength_of_decode hdecode
        rw [hbytes]
        exact ⟨n, after, rfl, hbody, hlength.trans (Source.readExact_eq_ok.mp hbody).2.1, hs⟩

/-- What is read from a source is a form of a length and the bytes of the script. What is written
is read back as the same script. It is what was read just if that form needed its bytes, and is
shorter if not. -/
theorem serializedAsRead {source rest : Source} {s : Script} (h : read source = .ok (s, rest)) :
    read ⟨s.serialize ++ rest.bytes, rest.ending⟩ = .ok (s, rest) ∧
      ∃ first digits, source.bytes = first :: digits ++ s.toBytes ++ rest.bytes ∧
        source.ending = rest.ending ∧
        (source.bytes = s.serialize ++ rest.bytes ↔
          CompactSize.Shortest first (UInt64.ofNat s.byteLength)) ∧
        (¬CompactSize.Shortest first (UInt64.ofNat s.byteLength) →
          s.serialize.length < (first :: digits ++ s.toBytes).length) := by
  obtain ⟨n, after, hsize, hbody, hlength, hs⟩ := exists_of_read h
  obtain ⟨first, digits, hbytes, hending, hwidth, hvalue⟩ := CompactSize.exists_of_read hsize
  obtain ⟨hafter, -, hending'⟩ := Source.readExact_eq_ok.mp hbody
  have hn : UInt64.ofNat s.byteLength = n := by rw [hlength, UInt64.ofNat_toNat]
  have hwritten : s.serialize = CompactSize.encode n ++ s.toBytes := by
    rw [serialize, ← hn, toBytes, Command.length_encode, byteLength]
  have hsource : source.bytes = first :: digits ++ s.toBytes ++ rest.bytes := by
    rw [hbytes, hafter, List.append_assoc]
  refine ⟨?_, first, digits, hsource, hending.trans hending', ?_, ?_⟩
  · have hread : CompactSize.read ⟨CompactSize.encode n ++ after.bytes, after.ending⟩ =
        .ok (n, after) := CompactSize.read_encode n after
    rw [hwritten, List.append_assoc, ← hafter, ← hending', read, hread]
    simp only [bind, Except.bind, Except.mapError]
    rw [hbody]
    simp only
    rw [hs]
    rfl
  · rw [hsource, hwritten, List.append_cancel_right_eq, List.append_cancel_right_eq, hn, hvalue,
      ← CompactSize.encode_eq_iff hwidth]
    exact eq_comm
  · intro hpadded
    rw [hn] at hpadded
    have hlt := CompactSize.length_encode_lt hpadded
    rw [hwritten, List.length_append, List.length_append, List.length_cons, hwidth]
    omega

/-- The length one in three bytes, and the script. -/
theorem read_padded :
    read (Source.ofBytes [0xfd, 0x01, 0x00, 0x51]) =
      .ok (ofCommands [.op Opcode.one], Source.ofBytes []) := by
  have hsize : CompactSize.read (Source.ofBytes [0xfd, 0x01, 0x00, 0x51]) =
      .ok (1, Source.ofBytes [0x51]) := by rfl
  have hbody : ofBytes [0x51] = .ok (ofCommands [.op Opcode.one]) :=
    ofBytes_eq_ok.mpr ⟨_, Command.decode_encode (List.forall_mem_singleton.mpr
      (Command.readable_op.mpr (by decide))), rfl⟩
  rw [read, hsize]
  simp only [bind, Except.bind, Except.mapError]
  rw [show Source.readExact _ (Source.ofBytes [0x51]) = .ok ([0x51], Source.ofBytes []) from rfl]
  simp only
  rw [hbody]
  rfl

theorem serializedAsRead_padded :
    read (Source.ofBytes [0xfd, 0x01, 0x00, 0x51]) =
        .ok (ofCommands [.op Opcode.one], Source.ofBytes []) ∧
      read (Source.ofBytes [0x01, 0x51]) = .ok (ofCommands [.op Opcode.one], Source.ofBytes []) :=
  ⟨read_padded, (serializedAsRead read_padded).1⟩

/-- Not every script that is read is written as it was read. -/
theorem not_serializedAsRead :
    ¬∀ (source rest : Source) (s : Script), read source = .ok (s, rest) →
      source.bytes = s.serialize ++ rest.bytes := by
  intro h
  have : ([0xfd, 0x01, 0x00, 0x51] : Bytes) = [0x01, 0x51] := h _ _ _ read_padded
  cases this

end Script

end SpendScript
