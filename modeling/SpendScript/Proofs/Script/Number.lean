import SpendScript.Proofs.Encoding.Bytes
import SpendScript.Proofs.Machine.Number

/-!
# Numbers in scripts

Every integer has one shortest byte string, and the reader of operands takes exactly the shortest
byte strings of at most four bytes.

* `ScriptNumber.signMagnitude`: the integer of a byte string whose highest bit is the sign.

Results:
* `ScriptNumber.value_encode`, `ScriptNumber.encode_value`: the shortest byte strings and the
  integers are the same. `ScriptNumber.encode_injective`: integers have different byte strings.
* `ScriptNumber.length_encode_le_iff`: how many bytes an integer needs.
* `ScriptNumber.decode_eq_ok_iff`, `ScriptNumber.decode_encode`: what the reader of operands takes.
* `ScriptNumber.value_eq_signMagnitude`, `ScriptNumber.truth_iff`: the sign is the highest bit, and
  true is what is not zero.
-/

namespace SpendScript

namespace ScriptNumber

variable {bs : Bytes} {n : ℤ}

/-! ## The sign -/

/-- The integer of a byte string whose highest bit is the sign; the other bits are its absolute
value, lowest byte first. -/
def signMagnitude (bs : Bytes) : ℤ :=
  let half := 2 ^ (8 * bs.length - 1)
  if Bytes.toNatLE bs < half then Bytes.toNatLE bs else -(Bytes.toNatLE bs - half : ℕ)

theorem signBit_iff {b : UInt8} : 128 ≤ b ↔ 128 ≤ b.toNat :=
  UInt8.le_iff_toNat_le

theorem magnitude_concat (init : Bytes) (b : UInt8) :
    magnitude (init ++ [b]) = Bytes.toNatLE init + 256 ^ init.length * (b.toNat % 128) := by
  induction init with
  | nil =>
    rw [List.nil_append, magnitude, Bytes.toNatLE, List.length_nil, pow_zero]
    omega
  | cons c init ih =>
    rw [List.cons_append, magnitude_cons_concat, ih, Bytes.toNatLE, List.length_cons, pow_succ',
      Nat.mul_add, Nat.mul_assoc, Nat.add_assoc]

theorem value_concat (init : Bytes) (b : UInt8) : value (init ++ [b]) =
    if 128 ≤ b then -(magnitude (init ++ [b]) : ℤ) else magnitude (init ++ [b]) := by
  rw [value, isNegative_concat]
  by_cases hneg : 128 ≤ b
  · rw [decide_eq_true hneg, if_pos rfl, if_pos hneg]
  · rw [decide_eq_false hneg, if_neg Bool.false_ne_true, if_neg hneg]

theorem natAbs_value (bs : Bytes) : (value bs).natAbs = magnitude bs := by
  unfold value
  split_ifs
  · rw [Int.natAbs_neg, Int.natAbs_natCast]
  · rw [Int.natAbs_natCast]

/-- Reading the sign from the last byte is reading it from the highest bit. -/
theorem value_eq_signMagnitude (bs : Bytes) : value bs = signMagnitude bs := by
  rcases List.eq_nil_or_concat' bs with rfl | ⟨init, b, rfl⟩
  · rfl
  have hinit := Bytes.toNatLE_lt init
  have hb := b.toNat_lt
  have hhalf : 2 ^ (8 * (init ++ [b]).length - 1) = 256 ^ init.length * 128 := by
    rw [List.length_append, List.length_singleton,
      show 8 * (init.length + 1) - 1 = 8 * init.length + 7 by omega, pow_add, pow_mul]
    rfl
  simp only [value_concat, signMagnitude, hhalf, magnitude_concat, Bytes.toNatLE_concat]
  by_cases hneg : 128 ≤ b
  · obtain ⟨m, hm⟩ := Nat.exists_eq_add_of_le (signBit_iff.mp hneg)
    rw [if_pos hneg, hm, Nat.mul_add, if_neg (by omega), show (128 + m) % 128 = m by omega]
    congr 2
    omega
  · have hb' : b.toNat < 128 := by
      rwa [signBit_iff, Nat.not_le] at hneg
    have hle : 256 ^ init.length * (b.toNat + 1) ≤ 256 ^ init.length * 128 :=
      Nat.mul_le_mul_left _ hb'
    rw [Nat.mul_succ] at hle
    rw [if_neg hneg, Nat.mod_eq_of_lt hb', if_pos (by omega)]

/-- True is what is not zero, of either sign and any length. -/
theorem truth_iff (bs : Bytes) : truth bs = true ↔ signMagnitude bs ≠ 0 := by
  have hmagnitude : truth bs = true ↔ magnitude bs ≠ 0 := by
    induction bs using truth.induct with
    | case1 => simp [truth, magnitude]
    | case2 b => simp [truth, magnitude]
    | case3 b bs hne ih =>
      have hzero : b ≠ 0 ↔ b.toNat ≠ 0 := by rw [ne_eq, ← UInt8.toNat_inj, UInt8.toNat_zero]
      rw [truth, magnitude, Bool.or_eq_true, bne_iff_ne, ih, hzero]
      · omega
      · exact hne
      · exact hne
  rw [hmagnitude, ← value_eq_signMagnitude, ← natAbs_value, ne_eq, ne_eq, Int.natAbs_eq_zero]

/-! ## The shortest form -/

theorem withSign_concat (negative : Bool) (init : Bytes) (b : UInt8) :
    withSign negative (init ++ [b]) = init ++ withSign negative [b] := by
  induction init with
  | nil => rfl
  | cons c init ih =>
    rw [List.cons_append, List.cons_append, ← ih, withSign]
    simp

theorem encode_zero : encode 0 = [] := by
  rw [encode, Int.natAbs_zero, Bytes.digits_zero]
  rfl

theorem toNat_setSign {b : UInt8} (h : ¬128 ≤ b) : (b ||| 0x80).toNat = 128 + b.toNat := by
  rw [signBit_iff, Nat.not_le] at h
  rw [UInt8.toNat_or, Nat.or_comm]
  exact (Nat.two_pow_add_eq_or_of_lt (i := 7) h 1).symm

/-- The shortest form of a positive or negative integer: either the sign has a byte of its own,
above a full one, or it is in the last byte. -/
inductive Spells (n : ℤ) : Bytes → Prop
  /-- The last byte holds nothing but the sign. -/
  | apart {init : Bytes} {full : UInt8} (hfull : 128 ≤ full)
      (hn : n.natAbs = Bytes.toNatLE init + 256 ^ init.length * full.toNat) :
      Spells n (init ++ [full, if n < 0 then 0x80 else 0])
  /-- The last byte holds the sign and the highest digits, which are not zero. -/
  | joint {init : Bytes} {high : ℕ} {last : UInt8} (hpos : 0 < high) (hhigh : high < 128)
      (hn : n.natAbs = Bytes.toNatLE init + 256 ^ init.length * high)
      (hlast : last.toNat = high + if n < 0 then 128 else 0) :
      Spells n (init ++ [last])

namespace Spells

theorem value_eq (h : Spells n bs) : value bs = n := by
  cases h with
  | @apart init full hfull hn =>
    have hfour : init ++ [full, if n < 0 then 0x80 else 0] =
        init ++ [full] ++ [if n < 0 then 0x80 else 0] := by simp
    rw [hfour, value_concat, magnitude_concat, Bytes.toNatLE_concat, ← hn]
    by_cases hneg : n < 0
    · rw [if_pos hneg, if_pos (by decide)]
      simp only [UInt8.reduceToNat]
      omega
    · rw [if_neg hneg, if_neg (by decide)]
      simp only [UInt8.reduceToNat]
      omega
  | @joint init high last hpos hhigh hn hlast =>
    have hmod : last.toNat % 128 = high := by
      rw [hlast]
      split_ifs <;> omega
    rw [value_concat, magnitude_concat, hmod, ← hn]
    have hsign : 128 ≤ last ↔ n < 0 := by
      rw [signBit_iff, hlast]
      split_ifs <;> omega
    by_cases hneg : n < 0
    · rw [if_pos (hsign.mpr hneg)]
      omega
    · rw [if_neg (mt hsign.mp hneg)]
      omega

theorem isShortest (h : Spells n bs) : isShortest bs = true := by
  cases h with
  | apart hfull hn =>
    rw [isShortest_concat_concat, decide_eq_true hfull, Bool.or_true]
  | @joint init high last hpos hhigh hn hlast =>
    have hused : (last.toNat % 128 != 0) = true := by
      rw [bne_iff_ne, hlast]
      split_ifs <;> omega
    rcases List.eq_nil_or_concat' init with rfl | ⟨init, below, rfl⟩
    · exact hused
    · rw [List.append_assoc, List.singleton_append, isShortest_concat_concat, hused, Bool.true_or]

theorem encode_eq (h : Spells n bs) : encode n = bs := by
  cases h with
  | @apart init full hfull hn =>
    have hne : full ≠ 0 := by
      rintro rfl
      exact absurd hfull (by decide)
    rw [encode, hn, ← Bytes.toNatLE_concat, Bytes.reverse_digits_toNatLE hne, withSign_concat,
      withSign, if_pos hfull]
    simp only [decide_eq_true_iff]
  | @joint init high last hpos hhigh hn hlast =>
    have hhigh' : (UInt8.ofNat high).toNat = high := by
      rw [UInt8.toNat_ofNat']
      omega
    have hne : UInt8.ofNat high ≠ 0 := by
      rw [ne_eq, ← UInt8.toNat_inj, hhigh', UInt8.toNat_zero]
      omega
    have hsmall : ¬128 ≤ UInt8.ofNat high := by
      rw [signBit_iff, hhigh', Nat.not_le]
      exact hhigh
    rw [encode, hn, ← hhigh', ← Bytes.toNatLE_concat, Bytes.reverse_digits_toNatLE hne,
      withSign_concat, withSign, if_neg hsmall]
    congr 2
    apply UInt8.toNat.inj
    simp only [decide_eq_true_iff]
    rw [hlast]
    split_ifs
    · rw [toNat_setSign hsmall, hhigh', Nat.add_comm]
    · rw [hhigh', Nat.add_zero]

/-- A byte more for every factor of 256, and the highest bit is taken. -/
theorem length_le_iff (h : Spells n bs) (k : ℕ) :
    bs.length ≤ k + 1 ↔ n.natAbs < 128 * 256 ^ k := by
  have hmono : ∀ {i j : ℕ}, i ≤ j → 256 ^ i ≤ 256 ^ j := Nat.pow_le_pow_right (by decide)
  have hvalue := h.value_eq
  constructor
  · intro hlen
    rw [← hvalue, natAbs_value]
    rcases List.eq_nil_or_concat' bs with rfl | ⟨init, last, rfl⟩
    · rw [magnitude]
      exact Nat.mul_pos (by decide) (Nat.pow_pos (by decide))
    · rw [List.length_append, List.length_singleton, Nat.add_le_add_iff_right] at hlen
      have := magnitude_concat_lt init last
      have := hmono hlen
      omega
  · intro hlt
    by_contra hlen
    rw [Nat.not_le] at hlen
    cases h with
    | @apart init full hfull hn =>
      rw [List.length_append, List.length_cons, List.length_singleton] at hlen
      have := Nat.mul_le_mul_left (256 ^ init.length) (signBit_iff.mp hfull)
      have := hmono (show k ≤ init.length by omega)
      omega
    | @joint init high last hpos hhigh hn hlast =>
      rw [List.length_append, List.length_singleton] at hlen
      have := Nat.mul_le_mul_left (256 ^ init.length) hpos
      have := hmono (show k + 1 ≤ init.length by omega)
      rw [pow_succ] at this
      omega

end Spells

theorem exists_spells (h : n ≠ 0) : ∃ bs, Spells n bs := by
  obtain ⟨init, last, hne, -, hn⟩ := Bytes.exists_reverse_digits (Int.natAbs_pos.mpr h)
  by_cases hfull : 128 ≤ last
  · exact ⟨_, .apart hfull hn⟩
  · have hlast : last.toNat < 128 := by
      rwa [signBit_iff, Nat.not_le] at hfull
    have hpos : 0 < last.toNat := Nat.pos_of_ne_zero fun h0 => hne (UInt8.toNat.inj h0)
    have hsigned : (if n < 0 then last ||| 0x80 else last).toNat =
        last.toNat + if n < 0 then 128 else 0 := by
      split_ifs
      · rw [toNat_setSign hfull, Nat.add_comm]
      · rfl
    exact ⟨_, .joint hpos hlast hn hsigned⟩

theorem spells_encode (h : n ≠ 0) : Spells n (encode n) := by
  obtain ⟨bs, hbs⟩ := exists_spells h
  rw [hbs.encode_eq]
  exact hbs

theorem value_lt_zero_iff {init : Bytes} {b : UInt8} (h : 0 < magnitude (init ++ [b])) :
    value (init ++ [b]) < 0 ↔ 128 ≤ b := by
  rw [value_concat]
  split_ifs with hneg
  · exact iff_of_true (by omega) hneg
  · exact iff_of_false (by omega) hneg

theorem spells_value (h : isShortest bs = true) (hne : bs ≠ []) : Spells (value bs) bs := by
  obtain ⟨init, last, rfl⟩ := (List.eq_nil_or_concat' bs).resolve_left hne
  have hn := (natAbs_value (init ++ [last])).trans (magnitude_concat init last)
  have hlt := last.toNat_lt
  have hpow : ∀ k, 0 < 256 ^ k := fun k => Nat.pow_pos (by decide)
  by_cases hused : last.toNat % 128 = 0
  · rcases List.eq_nil_or_concat' init with rfl | ⟨init, full, rfl⟩
    · rw [List.nil_append, isShortest, hused] at h
      cases h
    · rw [List.append_assoc, List.singleton_append, isShortest_concat_concat, hused] at h
      have hfull : 128 ≤ full := of_decide_eq_true h
      have hpos : 0 < magnitude (init ++ [full] ++ [last]) := by
        have hfull' := signBit_iff.mp hfull
        rw [magnitude_concat, Bytes.toNatLE_concat]
        exact Nat.add_pos_left (Nat.add_pos_right _ (Nat.mul_pos (hpow _) (by omega))) _
      rw [hused, Nat.mul_zero, Nat.add_zero, Bytes.toNatLE_concat] at hn
      have hlast : last = if value (init ++ [full] ++ [last]) < 0 then 0x80 else 0 := by
        apply UInt8.toNat.inj
        simp only [value_lt_zero_iff hpos, signBit_iff]
        split_ifs
        · show last.toNat = 128
          omega
        · show last.toNat = 0
          omega
      have happart := Spells.apart hfull hn
      rwa [← hlast, List.append_cons init full [last]] at happart
  · have hpos : 0 < magnitude (init ++ [last]) := by
      rw [magnitude_concat]
      exact Nat.add_pos_right _ (Nat.mul_pos (hpow _) (Nat.pos_of_ne_zero hused))
    refine .joint (Nat.pos_of_ne_zero hused) (Nat.mod_lt _ (by decide)) hn ?_
    simp only [value_lt_zero_iff hpos, signBit_iff]
    split_ifs <;> omega

/-! ## Writing and reading -/

theorem value_encode (n : ℤ) : value (encode n) = n := by
  by_cases h : n = 0
  · rw [h, encode_zero]
    rfl
  · exact (spells_encode h).value_eq

theorem isShortest_encode (n : ℤ) : isShortest (encode n) = true := by
  by_cases h : n = 0
  · rw [h, encode_zero]
    rfl
  · exact (spells_encode h).isShortest

theorem encode_value (h : isShortest bs = true) : encode (value bs) = bs := by
  by_cases hne : bs = []
  · rw [hne]
    exact encode_zero
  · exact (spells_value h hne).encode_eq

theorem encode_injective : Function.Injective encode :=
  Function.LeftInverse.injective value_encode

theorem length_encode_le_iff (n : ℤ) (k : ℕ) :
    (encode n).length ≤ k + 1 ↔ n.natAbs < 128 * 256 ^ k := by
  by_cases h : n = 0
  · rw [h, encode_zero]
    exact iff_of_true (Nat.zero_le _) (Nat.mul_pos (by decide) (Nat.pow_pos (by decide)))
  · exact (spells_encode h).length_le_iff k

/-- The reader of operands takes an integer of at most 31 bits and a sign, and refuses any other
one for its size alone. -/
theorem decode_encode (n : ℤ) : decode (encode n) =
    if n.natAbs ≤ 2 ^ 31 - 1 then .ok n else .error (.numberTooBig (encode n)) := by
  have hlen := length_encode_le_iff n 3
  rw [decode, Limits.numberSize, isShortest_encode, value_encode, if_pos rfl]
  by_cases hle : n.natAbs ≤ 2 ^ 31 - 1
  · rw [if_neg (by omega), if_pos hle]
  · rw [if_pos (by omega), if_neg hle]

theorem decode_eq_ok_iff : decode bs = .ok n ↔ n.natAbs ≤ 2 ^ 31 - 1 ∧ bs = encode n := by
  constructor
  · intro h
    have hlt := natAbs_lt_of_decode h
    unfold decode at h
    split_ifs at h with hlen hshortest
    rw [Except.ok.injEq] at h
    exact ⟨by omega, by rw [← h, encode_value hshortest]⟩
  · rintro ⟨hle, rfl⟩
    rw [decode_encode, if_pos hle]

end ScriptNumber

end SpendScript
