import SpendScript.Proofs.Key.Faultless
import SpendScript.Proofs.Machine.Curve

/-!
# Signature checks of the machine

The machine reads signatures and keys by indexes and slices, makes the constants of secp256k1 when
they are needed first, and verifies with the curve arithmetic in memory.

* `Machine.readInteger`, `Machine.ofDer`: the strict reader of signatures.
* `Machine.secp256k1`: the group, whose constants are expected to be accepted.
* `Machine.ofSec`: the reader of keys. `Machine.examine`: a whole signature check.

Results:
* `Machine.ofDer_eq`, `Machine.ofSec_eq`: both readers give what the readers on lists give.
* `Machine.secp256k1_eq`: the constants are accepted.
* `Machine.examine_cases`: a check never panics, and finds what `SigCheck.verdict` finds.
-/

namespace SpendScript.Machine

open SpendScript.Attempt (fail check check_ok ofExcept)
open SpendScript.Field (Residue Modulus)

/-! ## Signatures -/

/-- Whether an integer begins with a zero byte that it does not need. -/
def isPadded (int : Bytes) : Checked Bool :=
  if 1 < int.length then do
    let first ← Checked.item int 0
    if first = 0 then return decide ((← Checked.item int 1) < 128) else return false
  else return false

/-- The value of the contents of an integer. -/
def integerValue (int : Bytes) : Attempt DerFlaw ℕ := do
  let first ← check (Checked.item int 0)
  if 128 ≤ first then fail .negativeInteger
  else
    let padded ← check (isPadded int)
    if padded then fail .integerNotMinimal
    else if Bytes.toNat int = 0 then fail .zeroInteger
    else return Bytes.toNat int

/-- An integer at the start of `bs`, and what follows it. -/
def readInteger (bs : Bytes) : Attempt DerFlaw (ℕ × Bytes) :=
  if bs.length < 2 then fail .truncatedIntegerHeader
  else do
    let tag ← check (Checked.item bs 0)
    if tag ≠ Der.integerTag then fail .missingIntegerTag
    else
      let length ← check (Checked.item bs 1)
      if length.toNat = 0 then fail .emptyInteger
      else
        let stop ← check (Checked.addWord 2 length.toNat)
        if bs.length < stop then fail .integerOverrun
        else
          let n ← integerValue ((bs.take stop).drop 2)
          let rest ← check (Checked.slice bs stop bs.length)
          return (n, rest)

/-- Reads a strictly encoded signature of 8 to 72 bytes. -/
def ofDer (bs : Bytes) : Attempt DerFlaw Signature :=
  if bs.length < 8 then fail .tooShort
  else if 72 < bs.length then fail .tooLong
  else do
    let tag ← check (Checked.item bs 0)
    if tag ≠ Der.sequenceTag then fail .missingSequenceTag
    else
      let length ← check (Checked.item bs 1)
      let body ← check (Checked.sub bs.length 2)
      if length.toNat ≠ body then fail .sequenceLengthMismatch
      else
        let (r, rest) ← readInteger (← check (Checked.slice bs 2 bs.length))
        let (s, rest) ← readInteger rest
        if rest.isEmpty then return ⟨r, s⟩ else fail .trailingBytes

/-! ## The constants of secp256k1 -/

/-- The modulus of the field. -/
def field : Checked ℕ :=
  Modulus.val <$> Checked.expect (Modulus.ofNat Secp256k1.p)

/-- The element with a big-endian representative. -/
def ofBytes (p : ℕ) (bs : Bytes) : Except Field.FieldError Element :=
  if Number.byteLength p < bs.length then .error (.byteLength (Number.byteLength p) bs.length)
  else if Bytes.toNat bs < p then .ok ⟨p, Bytes.toNat bs⟩
  else .error (.valueOutOfRange (Bytes.toNat bs) p)

def curve : Checked (Curve Element) := do
  let p ← field
  let b ← Checked.rem 7 p
  return ⟨⟨p, 0⟩, ⟨p, b⟩⟩

/-- The point with given coordinates. -/
def point (c : Curve Element) (x y : Element) : Attempt EcError Point := do
  if ← check (contains c x y) then return .affine c x y else fail (.notOnCurve x.text y.text)

/-- The group of a generator that is expected to be finite and annihilated by the order. -/
def Group.ofGenerator (generator : Point) (order : ℕ) : Checked Group :=
  if generator.isInfinity ∨ order ≤ 1 then throw .unexpected
  else do
    if (← smul order generator).isInfinity then return ⟨generator, order⟩ else throw .unexpected

/-- The group of signatures, which is made when it is needed first. -/
def secp256k1 : Checked Group := do
  let p ← field
  let c ← curve
  let x ← Checked.expect (ofBytes p Secp256k1.generatorX.toBytes)
  let y ← Checked.expect (ofBytes p Secp256k1.generatorY.toBytes)
  let generator ← Attempt.expect (point c x y)
  Group.ofGenerator generator Secp256k1.n

/-! ## Keys -/

/-- A coordinate of a key. -/
def readCoordinate (p : ℕ) (bs : Bytes) : Attempt EcError Element :=
  ofExcept (EcError.ofField (ofBytes p bs))

/-- The point with first coordinate `x` and the parity of `y` that the tag tells. -/
def ofX (c : Curve Element) (x : Element) (even : Bool) : Attempt EcError Point := do
  let square ← check x.square
  let cube ← check (square.mul x)
  let cubic ← check (cube.add c.b)
  match ← check cubic.sqrt with
  | none => fail (.invalidSec .noPointAtX)
  | some root => point c x (← if root.isEven = even then pure root else check root.neg)

/-- Reads either form of a key. -/
def ofSec (bs : Bytes) : Attempt EcError Point := do
  let p ← check field
  let c ← check curve
  match bs with
  | [] => fail (.invalidSec .emptyKey)
  | tag :: body =>
    if tag = PublicKey.uncompressedTag then
      if body.length + 1 ≠ PublicKey.uncompressedSize then fail (.invalidSec .uncompressedLength)
      else
        let x ← readCoordinate p (← check (Checked.slice body 0 32))
        let y ← readCoordinate p (← check (Checked.slice body 32 body.length))
        point c x y
    else if tag = PublicKey.parityTag true ∨ tag = PublicKey.parityTag false then
      if body.length + 1 ≠ PublicKey.compressedSize then fail (.invalidSec .compressedLength)
      else
        let x ← readCoordinate p body
        ofX c x (tag == PublicKey.parityTag true)
    else fail (.invalidSec .unknownTag)

/-! ## Checks -/

/-- Reads the signature, then the key, and verifies. -/
def examine (c : SigCheck) : Attempt ScriptError Bool := do
  let sig ← (ofDer c.signature).mapError fun flaw => .signatureFormat (.invalidDer flaw)
  let key ← (ofSec c.key).mapError .publicKeyFormat
  let group ← check secp256k1
  check (group.verify key c.digest sig)

/-! ## Signatures are read like on lists -/

theorem isPadded_cons (b : UInt8) (bs : Bytes) :
    isPadded (b :: bs) = .ok (decide (b = 0 ∧ bs.head?.any (· < 128) = true)) := by
  cases bs with
  | nil => simp [isPadded, pure, Except.pure]
  | cons b' bs =>
    have hlen : 1 < (b :: b' :: bs).length := by simp
    rw [isPadded, if_pos hlen]
    show (if b = 0 then _ else _) = _
    by_cases hb : b = 0
    · rw [if_pos hb]
      simp only [hb, true_and, List.head?_cons, Option.any_some, decide_eq_true_iff]
      rfl
    · rw [if_neg hb]
      simp only [hb, false_and, decide_false]
      rfl

theorem integerValue_eq {int : Bytes} (h : int ≠ []) :
    integerValue int = ofExcept (Der.integerValue int) := by
  obtain ⟨b, bs, rfl⟩ := List.exists_cons_of_ne_nil h
  rw [Der.integerValue]
  show (if 128 ≤ b then _ else _) = _
  by_cases hneg : 128 ≤ b
  · rw [if_pos hneg, if_pos hneg]
    rfl
  · rw [if_neg hneg, if_neg hneg, isPadded_cons]
    by_cases hpadded : b = 0 ∧ (bs.head?.any (· < 128)) = true
    · rw [if_pos hpadded, decide_eq_true hpadded]
      rfl
    · rw [if_neg hpadded, decide_eq_false hpadded]
      show (if Bytes.toNat (b :: bs) = 0 then _ else _) = _
      by_cases hzero : Bytes.toNat (b :: bs) = 0
      · simp only [if_pos hzero]
        rfl
      · simp only [if_neg hzero]
        rfl

theorem readInteger_eq (bs : Bytes) : readInteger bs = ofExcept (Der.readInteger bs) := by
  match bs with
  | [] => rfl
  | [_] => rfl
  | tag :: length :: rest =>
    have hlen : ¬(tag :: length :: rest).length < 2 := by simp
    rw [readInteger, if_neg hlen, Der.readInteger]
    show (if tag ≠ Der.integerTag then _ else _) = _
    by_cases htag : tag ≠ Der.integerTag
    · rw [if_pos htag, if_pos htag]
      rfl
    · rw [if_neg htag, if_neg htag]
      show (if length.toNat = 0 then _ else _) = _
      have hzero : length.toNat = 0 ↔ length = 0 := by
        rw [← UInt8.toNat_inj, UInt8.toNat_zero]
      by_cases h0 : length = 0
      · rw [if_pos h0, if_pos (hzero.mpr h0)]
        rfl
      · have hlt := length.toNat_lt
        have hword : 2 + length.toNat < Number.wordSize := by
          unfold Number.wordSize
          omega
        rw [if_neg h0, if_neg (mt hzero.mp h0), Checked.addWord_eq_ok hword]
        show (if rest.length + 1 + 1 < 2 + length.toNat then _ else _) = _
        by_cases hover : rest.length < length.toNat
        · rw [if_pos hover, if_pos (by omega)]
          rfl
        · have hint : ((tag :: length :: rest).take (2 + length.toNat)).drop 2 =
              rest.take length.toNat := by
            rw [Nat.add_comm, List.take_succ_cons, List.take_succ_cons]
            rfl
          have hdrop : (tag :: length :: rest).drop (2 + length.toNat) = rest.drop length.toNat := by
            rw [Nat.add_comm]
            rfl
          have hne : rest.take length.toNat ≠ [] := by
            rw [ne_eq, ← List.length_eq_zero_iff, List.length_take]
            have := mt hzero.mp h0
            omega
          have hslice : Checked.slice (tag :: length :: rest) (2 + length.toNat)
              (tag :: length :: rest).length = .ok (rest.drop length.toNat) := by
            rw [Checked.slice_eq_ok (by simp only [List.length_cons]; omega) (Nat.le_refl _),
              List.take_length, hdrop]
          rw [if_neg hover, if_neg (by omega), hint, hslice, integerValue_eq hne]
          cases Der.integerValue (rest.take length.toNat) with
          | error flaw => rfl
          | ok n => rfl

theorem ofDer_eq (bs : Bytes) : ofDer bs = ofExcept (Signature.ofDer bs) := by
  unfold ofDer Signature.ofDer
  by_cases hshort : bs.length < 8
  · rw [if_pos hshort, if_pos hshort]
    rfl
  · rw [if_neg hshort, if_neg hshort]
    by_cases hlong : 72 < bs.length
    · rw [if_pos hlong, if_pos hlong]
      rfl
    · rw [if_neg hlong, if_neg hlong]
      match bs with
      | [] => exact absurd (by simp) hshort
      | [_] => exact absurd (by simp) hshort
      | tag :: length :: body =>
        show (if tag ≠ Der.sequenceTag then _ else _) = ofExcept (if tag ≠ Der.sequenceTag then _ else _)
        by_cases htag : tag ≠ Der.sequenceTag
        · rw [if_pos htag, if_pos htag]
          rfl
        · rw [if_neg htag, if_neg htag]
          have hlen : (tag :: length :: body).length = body.length + 2 := rfl
          have hbody : Checked.sub (tag :: length :: body).length 2 = .ok body.length :=
            Checked.sub_eq_ok (by simp)
          have hslice : Checked.slice (tag :: length :: body) 2 (tag :: length :: body).length =
              .ok body := by
            rw [Checked.slice_eq_ok (by simp) (Nat.le_refl _), List.take_length]
            rfl
          rw [hbody]
          show (if length.toNat ≠ body.length then _ else _) = _
          by_cases hmatch : length.toNat ≠ body.length
          · rw [if_pos hmatch, if_pos hmatch]
            rfl
          · rw [if_neg hmatch, if_neg hmatch, hslice]
            show (readInteger body >>= _) = _
            rw [readInteger_eq, Signature.ofDerBody]
            cases Der.readInteger body with
            | error flaw => rfl
            | ok found =>
              obtain ⟨r, rest⟩ := found
              show (readInteger rest >>= _) = _
              rw [readInteger_eq]
              show _ = ofExcept (Der.readInteger rest >>= _)
              cases Der.readInteger rest with
              | error flaw => rfl
              | ok found =>
                obtain ⟨s, rest⟩ := found
                cases rest <;> rfl

/-! ## The constants are accepted -/

theorem field_eq : field = .ok Secp256k1.p := by
  have hmodulus : Modulus.ofNat Secp256k1.p = .ok Secp256k1.field :=
    dif_pos Secp256k1.field.one_lt
  rw [field, hmodulus]
  rfl

theorem curve_eq : curve = .ok Secp256k1.curve.held := by
  have hpos : 0 < Secp256k1.p := Secp256k1.field.pos
  rw [curve, field_eq, ok_bind, Checked.rem_eq_ok hpos]
  rfl

theorem ofBytes_held (m : Modulus) (bs : Bytes) :
    ofBytes m.val bs = Residue.held <$> m.ofBytes bs := by
  unfold ofBytes Modulus.ofBytes Modulus.element
  by_cases hlen : Number.byteLength m.val < bs.length
  · rw [if_pos hlen, if_pos (show m.byteLength < bs.length from hlen)]
    rfl
  · rw [if_neg hlen, if_neg (show ¬m.byteLength < bs.length from hlen)]
    split_ifs <;> rfl

/-- The coordinates of a key make the point in memory that holds it, others are refused. -/
theorem point_held {x y : Residue} (hx : x.modulus = Secp256k1.field)
    (hy : y.modulus = Secp256k1.field) :
    point Secp256k1.curve.held x.held y.held =
      ofExcept ((fun key => key.point.held) <$> PublicKey.ofCoords x y) := by
  unfold point
  rw [contains_held]
  rcases PublicKey.ofCoords_cases hx hy with ⟨h, hok⟩ | ⟨hfalse, herror⟩
  · rw [h, hok]
    rfl
  · rw [hfalse, herror]
    rfl

theorem group_ofGenerator_eq :
    Group.ofGenerator Secp256k1.generator.held Secp256k1.n = .ok Secp256k1.group.held := by
  obtain ⟨c, hc⟩ := Secp256k1.exists_order_smul
  have hchecks : ¬((Secp256k1.generator.held.isInfinity : Prop) ∨ Secp256k1.n ≤ 1) := by decide
  rw [Group.ofGenerator, if_neg hchecks, smul_held, hc]
  rfl

theorem secp256k1_eq : secp256k1 = .ok Secp256k1.group.held := by
  have hread : ∀ x : Residue, x.modulus = Secp256k1.field →
      ofBytes Secp256k1.p x.toBytes = .ok x.held := by
    intro x hx
    have h := ofBytes_held x.modulus x.toBytes
    rw [Field.Residue.ofBytes_toBytes, hx] at h
    exact h
  have hpoint : point Secp256k1.curve.held Secp256k1.generatorX.held Secp256k1.generatorY.held =
      .ok Secp256k1.generator.held := by
    rw [point_held rfl rfl, PublicKey.ofCoords_of_contains Secp256k1.generator_on_curve]
    rfl
  rw [secp256k1, field_eq, ok_bind, curve_eq, ok_bind, hread Secp256k1.generatorX rfl,
    hread Secp256k1.generatorY rfl, Checked.expect, ok_bind, Checked.expect, ok_bind, hpoint,
    Attempt.expect, ok_bind, group_ofGenerator_eq]

/-! ## Keys are read like on lists -/

/-- As the coefficient `a` is zero, the machine leaves its product out. -/
theorem exists_cubic_steps {x : Residue} (hx : x.modulus = Secp256k1.field) :
    ∃ cube z, x.square.mul x = .ok cube ∧ cube.add Secp256k1.curve.b = .ok z ∧
      Secp256k1.curve.cubic x = .ok z := by
  have hcombine : ∀ (f : ℕ → ℕ → ℕ) {a b : Residue}, a.modulus = Secp256k1.field →
      b.modulus = Secp256k1.field →
      Residue.combine f a b = .ok (Secp256k1.field.reduce (f a.value b.value)) := by
    intro f a b ha hb
    rw [Residue.combine, if_pos (ha.trans hb.symm), ha]
  have hreduce : ∀ k, Secp256k1.field.reduce (Secp256k1.field.reduce k).value =
      Secp256k1.field.reduce k := by
    intro k
    simp only [Modulus.reduce, Nat.mod_mod]
  have hcube : x.square.mul x = .ok (Secp256k1.field.reduce (x.square.value * x.value)) :=
    hcombine (· * ·) hx hx
  have hax : Secp256k1.curve.a.mul x = .ok (Secp256k1.field.reduce 0) := by
    have hzero : Secp256k1.curve.a.value * x.value = 0 := Nat.zero_mul _
    rw [← hzero]
    exact hcombine (· * ·) rfl hx
  refine ⟨_, _, hcube, hcombine (· + ·) rfl rfl, ?_⟩
  show (x.square.mul x >>= fun cube => Secp256k1.curve.a.mul x >>= fun ax =>
    cube.add ax >>= fun sum => sum.add Secp256k1.curve.b) = _
  rw [hcube, ok_bind, hax, ok_bind]
  have hsum : (Secp256k1.field.reduce (x.square.value * x.value)).add (Secp256k1.field.reduce 0) =
      .ok (Secp256k1.field.reduce (x.square.value * x.value)) := by
    rw [Residue.add, hcombine (· + ·) rfl rfl]
    show Except.ok (Secp256k1.field.reduce (Secp256k1.field.reduce _).value) = _
    rw [hreduce]
  rw [hsum, ok_bind]
  exact hcombine (· + ·) rfl rfl

theorem readCoordinate_eq (bs : Bytes) : readCoordinate Secp256k1.p bs =
    ofExcept (Residue.held <$> EcError.ofField (Secp256k1.field.ofBytes bs)) := by
  have h := ofBytes_held Secp256k1.field bs
  rw [readCoordinate]
  show ofExcept (EcError.ofField (ofBytes Secp256k1.field.val bs)) = _
  rw [h]
  cases Secp256k1.field.ofBytes bs <;> rfl

theorem ofX_eq {x : Residue} (hx : x.modulus = Secp256k1.field) (even : Bool) :
    ofX Secp256k1.curve.held x.held even =
      ofExcept ((fun key => key.point.held) <$> PublicKey.ofX x even) := by
  obtain ⟨cube, z, hcube, hz, hcubic⟩ := exists_cubic_steps hx
  have hmz : z.modulus = Secp256k1.field := (PublicKey.cubic_modulus hcubic).2
  have hb : Secp256k1.curve.held.b = Secp256k1.curve.b.held := rfl
  rw [ofX, Element.square_held, check_ok, ok_bind, Element.mul_held, hcube, hb]
  show (check (cube.held.add Secp256k1.curve.b.held) >>= _) = _
  rw [Element.add_held, hz]
  show (check z.held.sqrt >>= _) = _
  rw [Element.sqrt_held, PublicKey.ofX, hcubic]
  cases hroot : z.sqrt with
  | none =>
    simp only [Option.map_none, check_ok, ok_bind, EcError.ofFault, hroot]
    rfl
  | some root =>
    have hmroot : root.modulus = Secp256k1.field := (PublicKey.modulus_sqrt hroot).trans hmz
    simp only [Option.map_some, check_ok, ok_bind, EcError.ofFault, hroot]
    by_cases heven : root.isEven = even
    · have heven' : root.held.isEven = even := heven
      rw [if_pos heven, if_pos heven']
      exact point_held hx hmroot
    · have heven' : ¬root.held.isEven = even := heven
      rw [if_neg heven, if_neg heven', Element.neg_held]
      exact point_held hx hmroot

theorem ofSec_eq (bs : Bytes) :
    ofSec bs = ofExcept ((fun key => key.point.held) <$> PublicKey.ofSec bs) := by
  rw [ofSec, field_eq, check_ok, ok_bind, curve_eq, check_ok, ok_bind]
  cases bs with
  | nil => rfl
  | cons tag body =>
    simp only [PublicKey.ofSec]
    by_cases htag : tag = PublicKey.uncompressedTag
    · rw [if_pos htag, if_pos htag]
      by_cases hlen : body.length + 1 ≠ PublicKey.uncompressedSize
      · rw [if_pos hlen, if_pos hlen]
        rfl
      · have hbody : body.length = 64 := Nat.succ_injective (not_not.mp hlen)
        have hx : Checked.slice body 0 32 = .ok (body.take 32) :=
          Checked.slice_eq_ok (Nat.zero_le 32) (by omega)
        have hy : Checked.slice body 32 body.length = .ok (body.drop 32) := by
          rw [Checked.slice_eq_ok (by omega) (Nat.le_refl _), List.take_length]
        rw [if_neg hlen, if_neg hlen, hx, check_ok, ok_bind, readCoordinate_eq]
        cases hx : Secp256k1.field.ofBytes (body.take 32) with
        | error e => rfl
        | ok x =>
          show (check (Checked.slice body 32 body.length) >>= _) = _
          rw [hy, check_ok, ok_bind, readCoordinate_eq]
          cases hy : Secp256k1.field.ofBytes (body.drop 32) with
          | error e => rfl
          | ok y => exact point_held (PublicKey.ofBytes_modulus hx) (PublicKey.ofBytes_modulus hy)
    · rw [if_neg htag, if_neg htag]
      by_cases hparity : tag = PublicKey.parityTag true ∨ tag = PublicKey.parityTag false
      · rw [if_pos hparity, if_pos hparity]
        by_cases hlen : body.length + 1 ≠ PublicKey.compressedSize
        · rw [if_pos hlen, if_pos hlen]
          rfl
        · rw [if_neg hlen, if_neg hlen, readCoordinate_eq]
          cases hx : Secp256k1.field.ofBytes body with
          | error e => rfl
          | ok x => exact ofX_eq (PublicKey.ofBytes_modulus hx) _
      · rw [if_neg hparity, if_neg hparity]
        rfl

/-! ## Checks never panic -/

/-- What a check finds in memory is what it finds on lists, and it does not panic. -/
theorem examine_cases (c : SigCheck) :
    (∃ valid, c.verdict = .decided valid ∧ examine c = .ok valid) ∨
      ∃ cause, c.verdict = .malformed cause ∧ examine c = fail cause := by
  unfold SigCheck.verdict examine
  rw [ofDer_eq, ofSec_eq, secp256k1_eq]
  cases Signature.ofDer c.signature with
  | error flaw => exact Or.inr ⟨_, rfl, rfl⟩
  | ok sig =>
    cases hkey : PublicKey.ofSec c.key with
    | error cause =>
      cases cause with
      | fault f => exact absurd hkey (PublicKey.ofSec_ne_fault c.key f)
      | _ => exact Or.inr ⟨_, rfl, rfl⟩
    | ok key =>
      obtain ⟨valid, hvalid⟩ := key.exists_verify c.digest sig
      have hheld : Secp256k1.group.held.verify key.point.held c.digest sig = .ok valid := by
        rw [Group.verify_held (by decide)]
        exact congrArg Checked.ofFault hvalid
      refine Or.inl ⟨valid, ?_, ?_⟩
      · simp only [hvalid]
      · show check (Secp256k1.group.held.verify key.point.held c.digest sig) = _
        rw [hheld]
        rfl

end SpendScript.Machine
