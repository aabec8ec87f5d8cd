import Mathlib.Algebra.Group.Nat.Defs
import SpendScript.Ecdsa.Signature
import SpendScript.Proofs.Encoding.Bytes

/-!
# The DER form of signatures

Results:
* `Der.readInteger_integer`, `Der.eq_integer_of_readInteger`: a positive integer is read back,
  whatever follows it, and what is read as an integer is how that integer is written.
* `Signature.length_toDer`, `Signature.ofDer_toDer`: signatures of 256-bit numbers are short enough
  for the strict reader.
* `Signature.strictlyCoded`: the strict reader takes the encodings of positive numbers that are short
  enough, and nothing else.
-/

namespace SpendScript

namespace Der

variable {n : ℕ} {body bs rest : Bytes}

/-! ## Contents of integers -/

/-- The contents of a number begin with its first digit, or with a zero before that. -/
theorem integerBody_toNat {b : UInt8} (hb : b ≠ 0) (bs : Bytes) :
    integerBody (Bytes.toNat (b :: bs)) = if 128 ≤ b then 0 :: b :: bs else b :: bs := by
  obtain ⟨hpos, hdigits⟩ := Bytes.digits_toNat hb bs
  unfold integerBody
  rw [Bytes.ofNat, if_neg (by omega), hdigits]

theorem exists_integerBody (hpos : 0 < n) : ∃ b bs, Bytes.ofNat n = b :: bs ∧ b ≠ 0 ∧
    integerBody n = if 128 ≤ b then 0 :: b :: bs else b :: bs := by
  obtain ⟨b, bs, h⟩ := List.exists_cons_of_ne_nil (Bytes.digits_ne_nil hpos)
  have hb := Bytes.head_digits h
  have hn : Bytes.toNat (b :: bs) = n := by rw [← h, Bytes.toNat_digits]
  refine ⟨b, bs, by rw [Bytes.ofNat, if_neg (by omega), h], hb, ?_⟩
  rw [← integerBody_toNat hb, hn]

theorem one_le_length_integerBody (hpos : 0 < n) : 1 ≤ (integerBody n).length := by
  obtain ⟨b, bs, -, -, hbody⟩ := exists_integerBody hpos
  rw [hbody]
  split_ifs <;> simp

theorem length_integerBody_le (hpos : 0 < n) (hlt : n < 256 ^ 32) :
    (integerBody n).length ≤ 33 := by
  obtain ⟨b, bs, h, -, hbody⟩ := exists_integerBody hpos
  have hlen : (Bytes.ofNat n).length ≤ 32 := Bytes.length_ofNat_le (by decide) hlt
  rw [h, List.length_cons] at hlen
  rw [hbody]
  split_ifs
  · simp only [List.length_cons]
    omega
  · simp only [List.length_cons]
    omega

/-- The contents of a positive integer are positive, minimal and spell it. -/
theorem integerValue_integerBody (hpos : 0 < n) : integerValue (integerBody n) = .ok n := by
  obtain ⟨b, bs, h, hb, hbody⟩ := exists_integerBody hpos
  have hn : Bytes.toNat (b :: bs) = n := by rw [← h, Bytes.toNat_ofNat]
  rw [hbody]
  by_cases hhigh : 128 ≤ b
  · have hhead : ¬((0 : UInt8) = 0 ∧ ((b :: bs).head?.any (· < 128)) = true) := by
      simp only [List.head?_cons, Option.any_some, decide_eq_true_iff, true_and, UInt8.not_lt]
      exact hhigh
    rw [if_pos hhigh, integerValue, if_neg (by decide), if_neg hhead, Bytes.toNat_zero_cons, hn,
      if_neg (by omega)]
  · rw [if_neg hhigh, integerValue, if_neg hhigh, if_neg fun h => hb h.1, hn, if_neg (by omega)]

/-- What is taken as the contents of an integer is how that integer is written: a byte in front of
it that it does not need, and one that makes it negative, are refused. -/
theorem integerBody_of_integerValue (h : integerValue body = .ok n) :
    0 < n ∧ integerBody n = body := by
  match body with
  | [] => cases h
  | b :: bs =>
    simp only [integerValue] at h
    split_ifs at h with hneg hpadded hzero
    obtain rfl : Bytes.toNat (b :: bs) = n := Except.ok.inj h
    refine ⟨Nat.pos_of_ne_zero hzero, ?_⟩
    by_cases hb : b = 0
    · subst hb
      rw [Bytes.toNat_zero_cons] at hzero ⊢
      cases bs with
      | nil => exact absurd rfl hzero
      | cons c cs =>
        have hhigh : 128 ≤ c := by simpa using hpadded
        have hc : c ≠ 0 := by
          rintro rfl
          exact absurd hhigh (by decide)
        rw [integerBody_toNat hc, if_pos hhigh]
    · rw [integerBody_toNat hb, if_neg hneg]

/-! ## Integers -/

theorem lengthBytes_of_lt {k : ℕ} (h : k < 128) : lengthBytes k = [UInt8.ofNat k] :=
  if_pos h

theorem one_le_length_lengthBytes (k : ℕ) : 1 ≤ (lengthBytes k).length := by
  unfold lengthBytes
  split_ifs <;> simp

theorem toNat_ofNat_of_lt {k : ℕ} (h : k < 128) : (UInt8.ofNat k).toNat = k := by
  rw [UInt8.toNat_ofNat']
  omega

theorem length_integerBody_add_two_le (n : ℕ) :
    (integerBody n).length + 2 ≤ (integer n).length := by
  have := one_le_length_lengthBytes (integerBody n).length
  rw [integer, List.length_append, List.length_cons]
  omega

theorem integer_eq (h : (integerBody n).length < 128) : integer n =
    integerTag :: UInt8.ofNat (integerBody n).length :: integerBody n := by
  rw [integer, lengthBytes_of_lt h]
  rfl

theorem readInteger_integer (hpos : 0 < n) (h : (integerBody n).length < 128) (rest : Bytes) :
    readInteger (integer n ++ rest) = .ok (n, rest) := by
  have hlen := one_le_length_integerBody hpos
  have hnat : (UInt8.ofNat (integerBody n).length).toNat = (integerBody n).length :=
    toNat_ofNat_of_lt h
  have hzero : UInt8.ofNat (integerBody n).length ≠ 0 := by
    intro h0
    rw [h0] at hnat
    have : (0 : UInt8).toNat = 0 := rfl
    omega
  rw [integer_eq h, List.cons_append, List.cons_append, readInteger, if_neg (not_not.mpr rfl),
    if_neg hzero, hnat, List.length_append, if_neg (by omega), List.take_left, List.drop_left,
    integerValue_integerBody hpos]
  rfl

/-- What is read as an integer is how that integer is written, as long as the bytes are too few for
a length in more than one byte. -/
theorem eq_integer_of_readInteger (hshort : bs.length < 130)
    (h : readInteger bs = .ok (n, rest)) : 0 < n ∧ bs = integer n ++ rest := by
  match bs with
  | [] => cases h
  | [_] => cases h
  | tag :: len :: cs =>
    rw [List.length_cons, List.length_cons] at hshort
    rw [readInteger] at h
    split_ifs at h with htag hempty hover
    cases hvalue : integerValue (cs.take len.toNat) with
    | error flaw =>
      rw [hvalue] at h
      cases h
    | ok m =>
      rw [hvalue] at h
      cases h
      obtain ⟨hpos, hbody⟩ := integerBody_of_integerValue hvalue
      have hlen : (integerBody n).length = len.toNat := by
        rw [hbody, List.length_take]
        omega
      refine ⟨hpos, ?_⟩
      rw [integer_eq (by omega), hlen, UInt8.ofNat_toNat, hbody, List.cons_append, List.cons_append,
        List.take_append_drop, not_not.mp htag]

end Der

namespace Signature

variable {sig : Signature} {bs : Bytes}

/-! ## Signatures -/

theorem toDer_eq (h : (Der.integer sig.r ++ Der.integer sig.s).length < 128) :
    sig.toDer = Der.sequenceTag :: UInt8.ofNat (Der.integer sig.r ++ Der.integer sig.s).length ::
      (Der.integer sig.r ++ Der.integer sig.s) := by
  rw [toDer, Der.lengthBytes_of_lt h]
  rfl

/-- Two positive integers take at least six bytes, and the header two more. -/
theorem length_contents (hr : 0 < sig.r) (hs : 0 < sig.s) :
    (Der.integerBody sig.r).length + (Der.integerBody sig.s).length + 4 ≤
        (Der.integer sig.r ++ Der.integer sig.s).length ∧
      6 ≤ (Der.integer sig.r ++ Der.integer sig.s).length ∧
      (Der.integer sig.r ++ Der.integer sig.s).length + 2 ≤ sig.toDer.length := by
  have hrlen := Der.length_integerBody_add_two_le sig.r
  have hslen := Der.length_integerBody_add_two_le sig.s
  have hrpos := Der.one_le_length_integerBody hr
  have hspos := Der.one_le_length_integerBody hs
  have hheader := Der.one_le_length_lengthBytes (Der.integer sig.r ++ Der.integer sig.s).length
  have htotal : sig.toDer.length =
      (Der.lengthBytes (Der.integer sig.r ++ Der.integer sig.s).length).length +
        (Der.integer sig.r ++ Der.integer sig.s).length + 1 := by
    rw [toDer, List.length_append, List.length_cons, Nat.add_right_comm]
  rw [List.length_append] at hheader htotal ⊢
  omega

/-- A signature of positive numbers is read back from its encoding, if that is not too long. -/
theorem ofDer_toDer_of_length_le (hr : 0 < sig.r) (hs : 0 < sig.s) (hlen : sig.toDer.length ≤ 72) :
    ofDer sig.toDer = .ok sig := by
  obtain ⟨hcontents, hmin, hheader⟩ := length_contents hr hs
  have hnat := Der.toNat_ofNat_of_lt (k := (Der.integer sig.r ++ Der.integer sig.s).length)
    (by omega)
  have hread : Der.readInteger (Der.integer sig.s) = .ok (sig.s, []) := by
    rw [← List.append_nil (Der.integer sig.s)]
    exact Der.readInteger_integer hs (by omega) []
  unfold ofDer
  rw [if_neg (by omega), if_neg (by omega), toDer_eq (by omega)]
  show (if Der.sequenceTag ≠ Der.sequenceTag then _ else _) = _
  rw [if_neg (not_not.mpr rfl), if_neg (not_not.mpr hnat), ofDerBody,
    Der.readInteger_integer hr (by omega)]
  simp only [bind, Except.bind, hread]
  rfl

/-- Signatures of 256-bit numbers take 8 to 72 bytes. -/
theorem length_toDer (hr : 0 < sig.r ∧ sig.r < 256 ^ 32) (hs : 0 < sig.s ∧ sig.s < 256 ^ 32) :
    8 ≤ sig.toDer.length ∧ sig.toDer.length ≤ 72 := by
  have hrlen := Der.length_integerBody_le hr.1 hr.2
  have hslen := Der.length_integerBody_le hs.1 hs.2
  obtain ⟨-, hmin, hheader⟩ := length_contents hr.1 hs.1
  have hcontents : (Der.integer sig.r ++ Der.integer sig.s).length =
      (Der.integerBody sig.r).length + 2 + ((Der.integerBody sig.s).length + 2) := by
    rw [List.length_append, Der.integer_eq (by omega), Der.integer_eq (by omega)]
    rfl
  have htotal : sig.toDer.length = (Der.integer sig.r ++ Der.integer sig.s).length + 2 := by
    rw [toDer_eq (by omega)]
    rfl
  omega

/-- A signature of 256-bit numbers is read back from its encoding. -/
theorem ofDer_toDer (hr : 0 < sig.r ∧ sig.r < 256 ^ 32) (hs : 0 < sig.s ∧ sig.s < 256 ^ 32) :
    ofDer sig.toDer = .ok sig :=
  ofDer_toDer_of_length_le hr.1 hs.1 (length_toDer hr hs).2

/-- What is read as a signature is how that signature is written. -/
theorem toDer_of_ofDer (h : ofDer bs = .ok sig) : 0 < sig.r ∧ 0 < sig.s ∧ sig.toDer = bs := by
  unfold ofDer at h
  split_ifs at h with hmin hmax
  match bs with
  | [] => cases h
  | [_] => cases h
  | tag :: len :: body =>
    rw [List.length_cons, List.length_cons] at hmax
    simp only at h
    split_ifs at h with htag hlen
    rw [ofDerBody] at h
    cases hr : Der.readInteger body with
    | error flaw =>
      rw [hr] at h
      cases h
    | ok found =>
      obtain ⟨r, rest⟩ := found
      obtain ⟨hrpos, hbody⟩ := Der.eq_integer_of_readInteger (by omega) hr
      have hrest : rest.length ≤ body.length := by
        rw [hbody, List.length_append]
        omega
      rw [hr] at h
      cases hs : Der.readInteger rest with
      | error flaw =>
        simp only [bind, Except.bind, hs] at h
        cases h
      | ok found =>
        obtain ⟨s, left⟩ := found
        obtain ⟨hspos, hrest'⟩ := Der.eq_integer_of_readInteger (by omega) hs
        simp only [bind, Except.bind, hs] at h
        cases left with
        | cons b left => cases h
        | nil =>
          cases h
          rw [List.append_nil] at hrest'
          subst hrest'
          refine ⟨hrpos, hspos, ?_⟩
          rw [toDer_eq (by rw [← hbody]; omega), ← hbody, ← not_not.mp hlen, UInt8.ofNat_toNat,
            not_not.mp htag]

/-- Reading is strict. The encoding of a signature of positive numbers is read back as the
signature, or refused for its length if it has more than 72 bytes. What is read is the encoding of
the signature that it gives, whose numbers are positive, so no signature is read from two byte
strings. -/
theorem strictlyCoded :
    (∀ sig : Signature, 0 < sig.r → 0 < sig.s →
      ofDer sig.toDer = if sig.toDer.length ≤ 72 then .ok sig else .error .tooLong) ∧
      (∀ (bs : Bytes) (sig : Signature), ofDer bs = .ok sig →
        0 < sig.r ∧ 0 < sig.s ∧ sig.toDer = bs) ∧
      ∀ (bs cs : Bytes) (sig : Signature), ofDer bs = .ok sig → ofDer cs = .ok sig → bs = cs := by
  refine ⟨fun sig hr hs => ?_, fun bs sig => toDer_of_ofDer, fun bs cs sig hbs hcs => ?_⟩
  · split_ifs with hlen
    · exact ofDer_toDer_of_length_le hr hs hlen
    · have hmin := length_contents hr hs
      unfold ofDer
      rw [if_neg (by omega), if_pos (by omega)]
  · rw [← (toDer_of_ofDer hbs).2.2, (toDer_of_ofDer hcs).2.2]

/-- The longest encodings that are read, with a zero byte in front of both numbers, one byte more,
and an encoding that is read. -/
theorem strictlyCoded_longest :
    ofDer (toDer ⟨2 ^ 255, 2 ^ 255⟩) = .ok ⟨2 ^ 255, 2 ^ 255⟩ ∧
      ofDer (toDer ⟨256 ^ 33, 2 ^ 255⟩) = .error .tooLong ∧
      toDer ⟨128, 1⟩ = [0x30, 0x07, 0x02, 0x02, 0x00, 0x80, 0x02, 0x01, 0x01] := by
  have hfits : (toDer ⟨2 ^ 255, 2 ^ 255⟩).length ≤ 72 := by decide +kernel
  have hover : ¬(toDer ⟨256 ^ 33, 2 ^ 255⟩).length ≤ 72 := by decide +kernel
  refine ⟨?_, ?_, (strictlyCoded.2.1 _ ⟨128, 1⟩ rfl).2.2⟩
  · rw [strictlyCoded.1 _ (by decide) (by decide), if_pos hfits]
  · rw [strictlyCoded.1 _ (by decide) (by decide), if_neg hover]

end Signature

end SpendScript
