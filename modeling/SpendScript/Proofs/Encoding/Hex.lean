import Mathlib.Data.List.Basic
import Mathlib.Data.Nat.Notation
import SpendScript.Proofs.Text.Blank
import SpendScript.Text.Hex

/-!
# Texts that spell bytes

Hexadecimal digits are read from the UTF-8 bytes of a text. No byte of a character beyond ASCII is
taken for a digit, so it is the characters that decide.

* `Text.Hex.Spells`: the digits of a byte string, of either case, with blanks around them.

Results:
* `Text.Hex.toList_utf8`, `Text.Hex.byte_of_digit`: the bytes of a text, and those among them that are
  digits.
* `Text.Hex.decode_eq_ok_iff`: the texts that are read as given bytes.
* `Text.Hex.decode_trim_eq_ok_iff`: the same with blanks around them.
* `Text.Hex.spells_encode`: what is written spells its bytes.
-/

namespace SpendScript.Text.Hex

variable {b x : UInt8} {bs rest : Bytes} {c : Char} {cs : List Char} {v position : ℕ}

/-! ## The bytes of a text -/

theorem toList_loop (bytes : ByteArray) (i : ℕ) (acc : List UInt8) :
    ByteArray.toList.loop bytes i acc = acc.reverse ++ bytes.data.toList.drop i := by
  fun_induction ByteArray.toList.loop bytes i acc with
  | case1 i acc hlt ih =>
    have hlen : i < bytes.data.toList.length := hlt
    have hget : bytes.get! i = bytes.data.toList[i] := by
      show bytes.data[i]! = _
      rw [getElem!_pos bytes.data i hlt, Array.getElem_toList]
    rw [ih, List.reverse_cons, List.append_assoc, List.drop_eq_getElem_cons hlen, hget]
    rfl
  | case2 i acc hge =>
    rw [List.drop_eq_nil_of_le (Nat.not_lt.mp hge), List.append_nil]

theorem toList_utf8 (cs : List Char) :
    utf8 (String.ofList cs) = cs.flatMap String.utf8EncodeChar := by
  show (ByteArray.toList.loop (cs.flatMap String.utf8EncodeChar).toByteArray 0 []) = _
  rw [toList_loop, List.data_toByteArray]
  rfl

/-- An ASCII character is one byte. -/
theorem utf8EncodeChar_of_lt (h : c.toNat < 128) :
    String.utf8EncodeChar c = [UInt8.ofNat c.toNat] := by
  rw [String.utf8EncodeChar]
  exact if_pos (Nat.le_of_lt_succ h)

/-- Every other character begins with a byte that is not ASCII. -/
theorem exists_utf8EncodeChar_of_le (h : 128 ≤ c.toNat) :
    ∃ b bs, String.utf8EncodeChar c = b :: bs ∧ 128 ≤ b.toNat := by
  have hlead : ∀ {k n : ℕ}, 128 ≤ k → n + k < 256 → 128 ≤ (UInt8.ofNat (n + k)).toNat := by
    intro k n hk hn
    rw [UInt8.toNat_ofNat']
    omega
  have hlarge : ¬c.val.toNat ≤ 127 := Nat.not_le.mpr h
  rw [String.utf8EncodeChar, if_neg hlarge]
  split_ifs
  · exact ⟨_, _, rfl, hlead (by decide) (by omega)⟩
  · exact ⟨_, _, rfl, hlead (by decide) (by omega)⟩
  · exact ⟨_, _, rfl, hlead (by decide) (by omega)⟩

/-! ## Digits -/

/-- The ASCII digits of either case, by their values. -/
theorem digitValue?_table : ∀ n < 128, digitValue? (UInt8.ofNat n) =
    (List.range 16).find? fun v => (Char.ofNat n).toLower == digit v := by
  decide

theorem digitValue?_of_le (h : 128 ≤ x.toNat) : digitValue? x = none := by
  simp only [digitValue?, UInt8.le_iff_toNat_le, UInt8.reduceToNat]
  rw [if_neg (by omega), if_neg (by omega), if_neg (by omega)]

theorem lt_of_toLower_eq (hv : v < 16) (h : c.toLower = digit v) : c.toNat < 128 := by
  have hdigit : ∀ v < 16, (digit v).toNat < 128 := by decide
  unfold Char.toLower at h
  split_ifs at h with hupper
  · exact Nat.lt_of_le_of_lt (UInt32.le_iff_toNat_le.mp hupper.2) (by decide)
  · rw [h]
    exact hdigit v hv

/-- The digits are told apart by their values. -/
theorem digit_injective : ∀ v < 16, ∀ w < 16, digit v = digit w → v = w := by
  decide

/-- A byte is a digit just if it is that of a character which is one. -/
theorem digitValue?_eq_some_iff (hc : c.toNat < 128) :
    digitValue? (UInt8.ofNat c.toNat) = some v ↔ v < 16 ∧ c.toLower = digit v := by
  rw [digitValue?_table _ hc, Char.ofNat_toNat]
  constructor
  · intro h
    have hmem := List.mem_of_find?_eq_some h
    have hdigit := List.find?_some h
    exact ⟨List.mem_range.mp hmem, by simpa using hdigit⟩
  · rintro ⟨hv, hdigit⟩
    cases hfind : (List.range 16).find? fun v => c.toLower == digit v with
    | none =>
      have hne := List.find?_eq_none.mp hfind v (List.mem_range.mpr hv)
      exact absurd (by simpa using hdigit) hne
    | some w =>
      have hw := List.mem_range.mp (List.mem_of_find?_eq_some hfind)
      have hdigit' : c.toLower = digit w := by simpa using List.find?_some hfind
      rw [digit_injective w hw v hv (hdigit'.symm.trans hdigit)]

/-- A byte of a text that is a digit is a character of the text. -/
theorem byte_of_digit (hcs : cs.flatMap String.utf8EncodeChar = x :: rest)
    (hx : digitValue? x = some v) :
    ∃ c cs', cs = c :: cs' ∧ v < 16 ∧ c.toLower = digit v ∧
      rest = cs'.flatMap String.utf8EncodeChar := by
  cases cs with
  | nil => cases hcs
  | cons c cs =>
    rw [List.flatMap_cons] at hcs
    by_cases hc : c.toNat < 128
    · rw [utf8EncodeChar_of_lt hc, List.singleton_append, List.cons.injEq] at hcs
      obtain ⟨rfl, rfl⟩ := hcs
      obtain ⟨hv, hdigit⟩ := (digitValue?_eq_some_iff hc).mp hx
      exact ⟨c, cs, rfl, hv, hdigit, rfl⟩
    · obtain ⟨b, bs, hencode, hb⟩ := exists_utf8EncodeChar_of_le (Nat.not_lt.mp hc)
      rw [hencode, List.cons_append, List.cons.injEq] at hcs
      rw [← hcs.1, digitValue?_of_le hb] at hx
      cases hx

/-- A character that is a digit is one byte, with the same value. -/
theorem flatMap_of_digit (hv : v < 16) (h : c.toLower = digit v) (cs : List Char) :
    ∃ x, (c :: cs).flatMap String.utf8EncodeChar = x :: cs.flatMap String.utf8EncodeChar ∧
      digitValue? x = some v := by
  have hc := lt_of_toLower_eq hv h
  refine ⟨UInt8.ofNat c.toNat, ?_, (digitValue?_eq_some_iff hc).mpr ⟨hv, h⟩⟩
  rw [List.flatMap_cons, utf8EncodeChar_of_lt hc, List.singleton_append]

/-! ## Reading -/

theorem decodePairs_eq_ok_nil {raw : Bytes} : decodePairs position raw = .ok [] ↔ raw = [] := by
  match raw with
  | [] => exact iff_of_true rfl rfl
  | [_] => exact iff_of_false (fun h => by cases h) (List.cons_ne_nil _ _)
  | hi :: lo :: rest =>
    refine iff_of_false (fun h => ?_) (List.cons_ne_nil _ _)
    rw [decodePairs] at h
    split at h
    · cases h
    · cases h
    · cases hrest : decodePairs (position + 2) rest with
      | error e =>
        rw [hrest] at h
        cases h
      | ok bs =>
        rw [hrest] at h
        cases h

theorem decodePairs_eq_ok_cons {raw : Bytes} : decodePairs position raw = .ok (b :: bs) ↔
    ∃ hi lo rest h l, raw = hi :: lo :: rest ∧ digitValue? hi = some h ∧
      digitValue? lo = some l ∧ b = UInt8.ofNat (16 * h + l) ∧
      decodePairs (position + 2) rest = .ok bs := by
  constructor
  · intro hok
    match raw with
    | [] => cases hok
    | [_] => cases hok
    | hi :: lo :: rest =>
      rw [decodePairs] at hok
      split at hok
      · cases hok
      · cases hok
      · rename_i h l hhi hlo
        cases hrest : decodePairs (position + 2) rest with
        | error e =>
          rw [hrest] at hok
          cases hok
        | ok bs' =>
          rw [hrest] at hok
          cases hok
          exact ⟨hi, lo, rest, h, l, rfl, hhi, hlo, rfl, hrest⟩
  · rintro ⟨hi, lo, rest, h, l, rfl, hhi, hlo, rfl, hrest⟩
    rw [decodePairs, hhi, hlo]
    simp only [hrest]
    rfl

theorem encode_cons (b : UInt8) (bs : Bytes) : (b :: bs).flatMap encodeByte =
    digit (b.toNat / 16) :: digit (b.toNat % 16) :: bs.flatMap encodeByte :=
  rfl

/-- Pairs of digits are read as the bytes that are written so, up to the case of letters. -/
theorem decodePairs_eq_ok_iff :
    decodePairs position (cs.flatMap String.utf8EncodeChar) = .ok bs ↔
      cs.map Char.toLower = bs.flatMap encodeByte := by
  induction bs generalizing cs position with
  | nil =>
    rw [decodePairs_eq_ok_nil]
    show _ ↔ cs.map Char.toLower = []
    rw [List.map_eq_nil_iff, List.flatMap_eq_nil_iff]
    constructor
    · intro h
      rw [List.eq_nil_iff_forall_not_mem]
      exact fun c hc => String.utf8EncodeChar_ne_nil (h c hc)
    · rintro rfl c hc
      cases hc
  | cons b bs ih =>
    have hb := b.toNat_lt
    rw [decodePairs_eq_ok_cons, encode_cons]
    constructor
    · rintro ⟨hi, lo, rest, h, l, hraw, hhi, hlo, rfl, hrest⟩
      obtain ⟨c, cs, rfl, hh, hc, hraw'⟩ := byte_of_digit hraw hhi
      obtain ⟨d, cs, rfl, hl, hd, rfl⟩ := byte_of_digit hraw'.symm hlo
      have hvalue : (UInt8.ofNat (16 * h + l)).toNat = 16 * h + l := by
        rw [UInt8.toNat_ofNat']
        omega
      rw [List.map_cons, List.map_cons, hc, hd, ih.mp hrest, hvalue,
        show (16 * h + l) / 16 = h by omega, show (16 * h + l) % 16 = l by omega]
    · intro h
      obtain ⟨c, cs, rfl, hc, h⟩ := List.map_eq_cons_iff.mp h
      obtain ⟨d, cs, rfl, hd, h⟩ := List.map_eq_cons_iff.mp h
      obtain ⟨lo, hlo, hlovalue⟩ := flatMap_of_digit (by omega) hd cs
      obtain ⟨hi, hhi, hhivalue⟩ := flatMap_of_digit (by omega) hc (d :: cs)
      refine ⟨hi, lo, _, _, _, hhi.trans (by rw [hlo]), hhivalue, hlovalue, ?_, ih.mpr h⟩
      rw [show 16 * (b.toNat / 16) + b.toNat % 16 = b.toNat by omega, UInt8.ofNat_toNat]

theorem length_of_decodePairs {raw : Bytes} (h : decodePairs position raw = .ok bs) :
    raw.length = 2 * bs.length := by
  induction bs generalizing raw position with
  | nil =>
    rw [decodePairs_eq_ok_nil.mp h]
    rfl
  | cons b bs ih =>
    obtain ⟨hi, lo, rest, _, _, rfl, -, -, -, hrest⟩ := decodePairs_eq_ok_cons.mp h
    rw [List.length_cons, List.length_cons, ih hrest, List.length_cons]
    omega

/-- A text is read as bytes just if it is how they are written, up to the case of letters. -/
theorem decode_eq_ok_iff :
    decode (String.ofList cs) = .ok bs ↔ cs.map Char.toLower = (encode bs).toList := by
  have hpairs : decodePairs 0 (cs.flatMap String.utf8EncodeChar) = .ok bs ↔ _ :=
    decodePairs_eq_ok_iff
  rw [encode, String.toList_ofList, ← hpairs, decode]
  simp only [toList_utf8]
  constructor
  · intro h
    split_ifs at h
    exact h
  · intro h
    rw [if_neg (by rw [length_of_decodePairs h]; omega), h]

/-! ## Blanks around digits -/

/-- The text has the digits of `bs`, of either case, and blanks around them. -/
def Spells (text : String) (bs : Bytes) : Prop :=
  ∃ before digits after, text.toList = before ++ digits ++ after ∧ Blank before ∧ Blank after ∧
    digits.map Char.toLower = (encode bs).toList

/-- No digit is a blank, whatever its case. -/
theorem isBlank_of_toLower (hv : v < 16) (h : c.toLower = digit v) : isBlank c = false := by
  have htable : ∀ n < 128, ∀ v < 16, (Char.ofNat n).toLower = digit v →
      isBlank (Char.ofNat n) = false := by decide +kernel
  have hc := htable c.toNat (lt_of_toLower_eq hv h) v hv
  rw [Char.ofNat_toNat] at hc
  exact hc h

theorem exists_digit_of_mem {bs : Bytes} (h : c ∈ bs.flatMap encodeByte) :
    ∃ v < 16, c = digit v := by
  obtain ⟨b, -, hc⟩ := List.mem_flatMap.mp h
  have hb := b.toNat_lt
  rcases List.mem_pair.mp hc with rfl | rfl
  · exact ⟨b.toNat / 16, by omega, rfl⟩
  · exact ⟨b.toNat % 16, by omega, rfl⟩

theorem trim_of_digits (h : cs.map Char.toLower = (encode bs).toList) : trim cs = cs := by
  rw [encode, String.toList_ofList] at h
  refine trim_of_forall fun c hc => ?_
  have hmem : c.toLower ∈ bs.flatMap encodeByte := h ▸ List.mem_map_of_mem hc
  obtain ⟨v, hv, hdigit⟩ := exists_digit_of_mem hmem
  exact isBlank_of_toLower hv hdigit

/-- Without the blanks around it, a text is read as the bytes that it spells. -/
theorem decode_trim_eq_ok_iff {text : String} :
    decode (String.ofList (trim text.toList)) = .ok bs ↔ Spells text bs := by
  rw [decode_eq_ok_iff]
  constructor
  · intro h
    obtain ⟨l, r, hl, hr, htext⟩ := exists_trim text.toList
    exact ⟨l, trim text.toList, r, htext, hl, hr, h⟩
  · rintro ⟨l, digits, r, htext, hl, hr, h⟩
    rw [htext, trim_append_right hr, trim_append_left hl, trim_of_digits h, h]

theorem toLower_digit : ∀ v < 16, (digit v).toLower = digit v := by
  decide

theorem spells_encode (bs : Bytes) : Spells (encode bs) bs := by
  refine ⟨[], (encode bs).toList, [], by simp, blank_nil, blank_nil, ?_⟩
  rw [encode, String.toList_ofList]
  refine (List.map_congr_left fun c hc => ?_).trans (List.map_id _)
  obtain ⟨v, hv, rfl⟩ := exists_digit_of_mem hc
  exact toLower_digit v hv

end SpendScript.Text.Hex
