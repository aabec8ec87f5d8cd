import SpendScript.Number.Word
import SpendScript.Proofs.Ecdsa.Der

/-!
# Reading DER of any size

The rules of DER for a sequence of two integers, as a reader of its own: every part has a tag and a
length, lengths are definite and take the fewest bytes, and so do the contents of an integer, whose
highest bit is the sign. The reader has no limit on the size of numbers, and it takes zero.

* `Der.Spec.readLength`, `Der.Spec.readPart`, `Der.Spec.readNatural`: the rules for lengths, for parts
  and for the contents of integers that are not negative.
* `Der.Spec.read`: a signature at the start of a byte string, and what follows it.

Results:
* `Der.Spec.readLength_eq_some_iff`, `Der.Spec.readNatural_eq_some_iff`,
  `Der.Spec.read_eq_some_iff`: what each rule reads is what is written, and nothing else.
* `Signature.uniquelyRead`: an encoding is read as its signature, no other byte string is, and
  signatures with the same encoding are the same.
-/

namespace SpendScript

namespace Der

/-! ## The rules -/

namespace Spec

/-- A length, and what follows it. Lengths below 128 are a byte on their own. From 128 on, a byte
tells the number of length bytes, of which there are 1 to 126, and the first one is not zero. -/
def readLength : Bytes → Option (ℕ × Bytes)
  | [] => none
  | b :: bs =>
    if b < 0x80 then some (b.toNat, bs)
    else if b = 0x80 ∨ b = 0xff then none
    else
      let digits := bs.take (b.toNat - 0x80)
      if digits.length = b.toNat - 0x80 ∧ digits.head? ≠ some 0 ∧ 0x80 ≤ Bytes.toNat digits then
        some (Bytes.toNat digits, bs.drop (b.toNat - 0x80))
      else none

/-- The contents of a part with the given tag, and what follows it. -/
def readPart (tag : UInt8) : Bytes → Option (Bytes × Bytes)
  | [] => none
  | t :: bs =>
    if t = tag then do
      let (length, rest) ← readLength bs
      if length ≤ rest.length then some (rest.take length, rest.drop length) else none
    else none

/-- The number that the contents of an integer spell. The highest bit is that of a negative number,
and a first byte that is zero has to keep the second one from having it. -/
def readNatural : Bytes → Option ℕ
  | [] => none
  | [b] => if b < 0x80 then some b.toNat else none
  | b :: c :: bs =>
    if b < 0x80 ∧ ¬(b = 0 ∧ c < 0x80) then some (Bytes.toNat (b :: c :: bs)) else none

/-- An integer that is not negative, and what follows it. -/
def readInteger (bs : Bytes) : Option (ℕ × Bytes) := do
  let (contents, rest) ← readPart integerTag bs
  let n ← readNatural contents
  return (n, rest)

/-- A sequence of two integers, and what follows it. -/
def read (bs : Bytes) : Option (Signature × Bytes) := do
  let (contents, rest) ← readPart sequenceTag bs
  let (r, more) ← readInteger contents
  let (s, trailing) ← readInteger more
  if trailing = [] then some (⟨r, s⟩, rest) else none

/-! ## Lengths -/

variable {n : ℕ} {tag : UInt8} {bs contents rest : Bytes} {sig : Signature}

/-- The longest lengths have 126 bytes. -/
def lengthBound : ℕ := 256 ^ 126

theorem lengthBytes_of_le (h : 128 ≤ n) :
    lengthBytes n = UInt8.ofNat (128 + (Bytes.digits n).length) :: Bytes.digits n :=
  if_neg (Nat.not_lt.mpr h)

theorem readLength_lengthBytes (h : n < lengthBound) (rest : Bytes) :
    readLength (lengthBytes n ++ rest) = some (n, rest) := by
  by_cases hshort : n < 128
  · have hnat := toNat_ofNat_of_lt hshort
    have hlow : UInt8.ofNat n < 0x80 := by
      rw [UInt8.lt_iff_toNat_lt, hnat]
      exact hshort
    rw [lengthBytes_of_lt hshort, List.singleton_append, readLength, if_pos hlow, hnat]
  · obtain ⟨d, ds, hdigits⟩ := List.exists_cons_of_ne_nil (Bytes.digits_ne_nil (n := n) (by omega))
    have hle : (Bytes.digits n).length ≤ 126 := Bytes.length_digits_le h
    have hpos : 1 ≤ (Bytes.digits n).length := by
      rw [hdigits]
      exact Nat.le_add_left 1 _
    have hnat : (UInt8.ofNat (128 + (Bytes.digits n).length)).toNat =
        128 + (Bytes.digits n).length := by
      rw [UInt8.toNat_ofNat']
      omega
    have hcount : (UInt8.ofNat (128 + (Bytes.digits n).length)).toNat - 0x80 =
        (Bytes.digits n).length := by omega
    have hhigh : ¬UInt8.ofNat (128 + (Bytes.digits n).length) < 0x80 := by
      rw [UInt8.lt_iff_toNat_lt, hnat]
      exact Nat.not_lt.mpr (Nat.le_add_right 128 _)
    have hdefinite : ¬(UInt8.ofNat (128 + (Bytes.digits n).length) = 0x80 ∨
        UInt8.ofNat (128 + (Bytes.digits n).length) = 0xff) := by
      rw [← UInt8.toNat_inj, ← UInt8.toNat_inj, hnat]
      simp only [UInt8.reduceToNat]
      omega
    have hhead : (Bytes.digits n).head? ≠ some 0 := by
      rw [hdigits]
      exact fun h0 => Bytes.head_digits hdigits (Option.some.inj h0)
    rw [lengthBytes_of_le (Nat.not_lt.mp hshort), List.cons_append, readLength, if_neg hhigh,
      if_neg hdefinite]
    simp only [hcount, List.take_left, List.drop_left, Bytes.toNat_digits]
    rw [if_pos ⟨trivial, hhead, Nat.not_lt.mp hshort⟩]

theorem eq_of_readLength (h : readLength bs = some (n, rest)) :
    bs = lengthBytes n ++ rest ∧ n < lengthBound := by
  match bs with
  | [] => cases h
  | b :: bs =>
    simp only [readLength] at h
    split_ifs at h with hshort hindefinite hform
    · cases h
      have hlow : b.toNat < 128 := UInt8.lt_iff_toNat_lt.mp hshort
      refine ⟨?_, Nat.lt_trans hlow (by decide)⟩
      rw [lengthBytes_of_lt hlow, UInt8.ofNat_toNat, List.singleton_append]
    · simp only [Option.some.injEq, Prod.mk.injEq] at h
      obtain ⟨rfl, rfl⟩ := h
      obtain ⟨hlength, hhead, hlarge⟩ := hform
      generalize hds : bs.take (b.toNat - 0x80) = ds at hlength hhead hlarge ⊢
      have hrest : bs = ds ++ bs.drop (b.toNat - 0x80) := by
        rw [← hds, List.take_append_drop]
      have hcount : 128 ≤ b.toNat ∧ b.toNat ≤ 254 := by
        have hlt := b.toNat_lt
        rw [UInt8.lt_iff_toNat_lt] at hshort
        rw [← UInt8.toNat_inj, ← UInt8.toNat_inj] at hindefinite
        simp only [UInt8.reduceToNat] at hshort hindefinite
        omega
      have hbound : Bytes.toNat ds < lengthBound :=
        Nat.lt_of_lt_of_le (Bytes.toNat_lt ds) (Nat.pow_le_pow_right (by decide) (by omega))
      refine ⟨?_, hbound⟩
      have hdigits : Bytes.digits (Bytes.toNat ds) = ds := by
        cases ds with
        | nil => exact absurd hlarge (by decide)
        | cons d ds => exact (Bytes.digits_toNat (fun h0 => hhead (by rw [h0]; rfl)) ds).2
      rw [lengthBytes_of_le hlarge, hdigits, hlength, Nat.add_sub_cancel' hcount.1,
        UInt8.ofNat_toNat, List.cons_append, ← hrest]

theorem readLength_eq_some_iff :
    readLength bs = some (n, rest) ↔ bs = lengthBytes n ++ rest ∧ n < lengthBound :=
  ⟨eq_of_readLength, fun ⟨hbs, hlt⟩ => hbs ▸ readLength_lengthBytes hlt rest⟩

/-! ## Parts -/

theorem readPart_eq_some_iff : readPart tag bs = some (contents, rest) ↔
    bs = tag :: lengthBytes contents.length ++ contents ++ rest ∧
      contents.length < lengthBound := by
  match bs with
  | [] => exact iff_of_false (fun h => by cases h) (fun h => by cases h.1)
  | t :: bs =>
    rw [readPart, List.cons_append, List.cons_append, List.cons.injEq, List.append_assoc]
    constructor
    · intro h
      split_ifs at h with htag
      obtain ⟨⟨length, after⟩, hlength, hbody⟩ := Option.bind_eq_some_iff.mp h
      simp only at hbody
      split_ifs at hbody with hle
      cases hbody
      obtain ⟨hbs, hlt⟩ := readLength_eq_some_iff.mp hlength
      rw [List.length_take_of_le hle, List.take_append_drop]
      exact ⟨⟨htag, hbs⟩, hlt⟩
    · rintro ⟨⟨rfl, rfl⟩, hlt⟩
      rw [if_pos rfl, readLength_lengthBytes hlt]
      show (if contents.length ≤ (contents ++ rest).length then _ else _) = _
      rw [if_pos (by rw [List.length_append]; exact Nat.le_add_right _ _), List.take_left,
        List.drop_left]

/-! ## Integers -/

theorem readNatural_integerBody (n : ℕ) : readNatural (integerBody n) = some n := by
  by_cases hzero : n = 0
  · subst hzero
    rfl
  · obtain ⟨b, bs, hspelled, hb, hbody⟩ := exists_integerBody (Nat.pos_of_ne_zero hzero)
    have hvalue : Bytes.toNat (b :: bs) = n := by rw [← hspelled, Bytes.toNat_ofNat]
    rw [hbody]
    split_ifs with hhigh
    · rw [readNatural, if_pos ⟨by decide, fun h => UInt8.not_le.mpr h.2 hhigh⟩,
        Bytes.toNat_zero_cons, hvalue]
    · have hlow : b < 0x80 := UInt8.not_le.mp hhigh
      cases bs with
      | nil =>
        rw [readNatural, if_pos hlow, ← hvalue]
        exact congrArg some (Nat.zero_add _).symm
      | cons c bs => rw [readNatural, if_pos ⟨hlow, fun h => hb h.1⟩, hvalue]

theorem eq_of_readNatural (h : readNatural bs = some n) : bs = integerBody n := by
  match bs with
  | [] => cases h
  | [b] =>
    rw [readNatural] at h
    split_ifs at h with hlow
    cases h
    by_cases hb : b = 0
    · subst hb
      rfl
    · have hbody := integerBody_toNat hb []
      rw [if_neg (UInt8.not_le.mpr hlow)] at hbody
      rw [← hbody]
      exact congrArg integerBody (Nat.zero_add _)
  | b :: c :: bs =>
    rw [readNatural] at h
    split_ifs at h with hminimal
    cases h
    obtain ⟨hlow, hneeded⟩ := hminimal
    by_cases hb : b = 0
    · subst hb
      have hhigh : 0x80 ≤ c := UInt8.not_lt.mp fun h => hneeded ⟨rfl, h⟩
      have hc : c ≠ 0 := by
        rintro rfl
        exact absurd hhigh (by decide)
      rw [Bytes.toNat_zero_cons, integerBody_toNat hc, if_pos hhigh]
    · rw [integerBody_toNat hb, if_neg (UInt8.not_le.mpr hlow)]

theorem readNatural_eq_some_iff : readNatural bs = some n ↔ bs = integerBody n :=
  ⟨eq_of_readNatural, fun h => h ▸ readNatural_integerBody n⟩

theorem readInteger_eq_some_iff : readInteger bs = some (n, rest) ↔
    bs = integer n ++ rest ∧ (integerBody n).length < lengthBound := by
  unfold readInteger
  constructor
  · intro h
    obtain ⟨⟨contents, after⟩, hpart, h⟩ := Option.bind_eq_some_iff.mp h
    obtain ⟨m, hm, h⟩ := Option.bind_eq_some_iff.mp h
    cases h
    obtain rfl := readNatural_eq_some_iff.mp hm
    exact readPart_eq_some_iff.mp hpart
  · rintro ⟨hbs, hlt⟩
    rw [readPart_eq_some_iff.mpr ⟨hbs, hlt⟩]
    show (readNatural (integerBody n)).bind _ = _
    rw [readNatural_integerBody]
    rfl

theorem length_integerBody_le_integer (n : ℕ) : (integerBody n).length ≤ (integer n).length := by
  rw [integer, List.length_append]
  exact Nat.le_add_left _ _

/-! ## Signatures -/

theorem read_eq_some_iff : read bs = some (sig, rest) ↔
    bs = sig.toDer ++ rest ∧ (integer sig.r ++ integer sig.s).length < lengthBound := by
  unfold read
  constructor
  · intro h
    obtain ⟨⟨contents, after⟩, hpart, h⟩ := Option.bind_eq_some_iff.mp h
    obtain ⟨⟨r, more⟩, hr, h⟩ := Option.bind_eq_some_iff.mp h
    obtain ⟨⟨s, trailing⟩, hs, h⟩ := Option.bind_eq_some_iff.mp h
    simp only at hr hs h
    split_ifs at h with htrailing
    cases h
    obtain ⟨rfl, -⟩ := readInteger_eq_some_iff.mp hr
    obtain ⟨rfl, -⟩ := readInteger_eq_some_iff.mp hs
    rw [htrailing, List.append_nil] at hpart
    exact readPart_eq_some_iff.mp hpart
  · rintro ⟨hbs, hlt⟩
    have hboth := hlt
    rw [List.length_append] at hboth
    have hr := length_integerBody_le_integer sig.r
    have hs := length_integerBody_le_integer sig.s
    have hread : readInteger (integer sig.s) = some (sig.s, []) :=
      readInteger_eq_some_iff.mpr ⟨(List.append_nil _).symm, by omega⟩
    rw [readPart_eq_some_iff.mpr ⟨hbs, hlt⟩]
    show (readInteger (integer sig.r ++ integer sig.s)).bind _ = _
    rw [readInteger_eq_some_iff.mpr ⟨rfl, by omega⟩]
    show (readInteger (integer sig.s)).bind _ = _
    rw [hread]
    rfl

end Spec

end Der

namespace Signature

/-- The length of the two integers can be told in 64 bits. -/
def Describable (sig : Signature) : Prop :=
  (Der.integer sig.r ++ Der.integer sig.s).length < Number.wordSize

/-- An encoding is read to its end as the signature that it encodes, whatever comes after it, and
no other byte string is read as this signature. So different signatures have different encodings.
The numbers are of any size that a length of 64 bits can describe. -/
theorem uniquelyRead :
    (∀ sig : Signature, sig.Describable →
      Der.Spec.read sig.toDer = some (sig, []) ∧
        ∀ bs rest : Bytes, Der.Spec.read bs = some (sig, rest) ↔ bs = sig.toDer ++ rest) ∧
      ∀ sig sig' : Signature, sig.Describable → sig'.Describable →
        sig.toDer = sig'.toDer → sig = sig' := by
  have hread : ∀ sig : Signature, sig.Describable → ∀ bs rest : Bytes,
      Der.Spec.read bs = some (sig, rest) ↔ bs = sig.toDer ++ rest := by
    intro sig hsig bs rest
    have hbound : Number.wordSize ≤ Der.Spec.lengthBound := by decide
    rw [Der.Spec.read_eq_some_iff, and_iff_left (Nat.lt_of_lt_of_le hsig hbound)]
  have hencoded : ∀ sig : Signature, sig.Describable →
      Der.Spec.read sig.toDer = some (sig, []) :=
    fun sig hsig => (hread sig hsig _ _).mpr (List.append_nil _).symm
  refine ⟨fun sig hsig => ⟨hencoded sig hsig, hread sig hsig⟩, fun sig sig' hsig hsig' h => ?_⟩
  have hsame := hencoded sig hsig
  rw [h, hencoded sig' hsig'] at hsame
  exact (congrArg Prod.fst (Option.some.inj hsame)).symm

/-- A number of 130 bytes, whose length takes a byte more, beside zero. -/
theorem uniquelyRead_longForm : Describable ⟨256 ^ 129, 0⟩ ∧
    (toDer ⟨256 ^ 129, 0⟩).take 8 = [0x30, 0x81, 0x88, 0x02, 0x81, 0x82, 0x01, 0x00] ∧
    Der.Spec.read (toDer ⟨256 ^ 129, 0⟩) = some (⟨256 ^ 129, 0⟩, []) := by
  have hsig : Describable ⟨256 ^ 129, 0⟩ := by
    unfold Describable
    decide +kernel
  exact ⟨hsig, by decide +kernel, (uniquelyRead.1 _ hsig).1⟩

end Signature

end SpendScript
