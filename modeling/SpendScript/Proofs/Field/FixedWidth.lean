import SpendScript.Proofs.Encoding.Bytes
import SpendScript.Proofs.Machine.Field

/-!
# Elements in bytes of a fixed width

The width is the fewest bytes that hold the modulus, so what the shortest spelling of an element
leaves of it is never negative, also for zero, which is spelled with one byte.

Results:
* `Modulus.ofBytes_eq_ok_iff`: which bytes spell which element.
* `Residue.toBytes_eq_padLeft`, `Residue.ofBytes_toBytes`: bytes that spell an element are, after
  padding, its fixed-width form, which spells the element too.
* `Modulus.fixedWidthExact`: the width, the padding and both directions, for every modulus.
-/

namespace SpendScript.Field

namespace Modulus

variable {m : Modulus} {bs : Bytes} {x : Residue}

/-- Bytes spell an element if they are not more than the width and their value is its
representative. -/
theorem ofBytes_eq_ok_iff : m.ofBytes bs = .ok x ↔
    bs.length ≤ m.byteLength ∧ x.modulus = m ∧ x.value = Bytes.toNat bs := by
  unfold ofBytes element
  constructor
  · intro h
    split_ifs at h with hlen hlt
    obtain rfl := Except.ok.inj h
    exact ⟨by omega, rfl, rfl⟩
  · rintro ⟨hlen, rfl, hvalue⟩
    rw [if_neg (by omega), dif_pos (hvalue ▸ x.value_lt)]
    obtain ⟨m, v, hv⟩ := x
    obtain rfl : v = Bytes.toNat bs := hvalue
    rfl

/-- Bytes spell some element if they are not more than the width and their value is below the
modulus. -/
theorem exists_ofBytes_iff : (∃ x, m.ofBytes bs = .ok x) ↔
    bs.length ≤ m.byteLength ∧ Bytes.toNat bs < m.val := by
  constructor
  · rintro ⟨x, hx⟩
    obtain ⟨hlen, rfl, hvalue⟩ := ofBytes_eq_ok_iff.mp hx
    exact ⟨hlen, hvalue ▸ x.value_lt⟩
  · rintro ⟨hlen, hlt⟩
    exact ⟨⟨m, Bytes.toNat bs, hlt⟩, ofBytes_eq_ok_iff.mpr ⟨hlen, rfl, rfl⟩⟩

end Modulus

namespace Residue

variable {x : Residue}

theorem toNat_toBytes (x : Residue) : Bytes.toNat x.toBytes = x.value := by
  rw [toBytes, Bytes.toNat_padLeft, Bytes.toNat_ofNat]

theorem ofBytes_toBytes (x : Residue) : x.modulus.ofBytes x.toBytes = .ok x :=
  Modulus.ofBytes_eq_ok_iff.mpr ⟨(toBytes_length x).le, rfl, (toNat_toBytes x).symm⟩

theorem toBytes_eq_padLeft {bs : Bytes} (hlen : bs.length ≤ x.modulus.byteLength)
    (hvalue : x.value = Bytes.toNat bs) : x.toBytes = Bytes.padLeft x.modulus.byteLength bs := by
  have hpos : 0 < x.modulus.byteLength := Number.byteLength_pos x.modulus.pos
  rw [toBytes, hvalue, Bytes.padLeft_ofNat_toNat hpos hlen]

/-- Bytes of the full width that spell an element are its fixed-width form. -/
theorem toBytes_eq {bs : Bytes} (hlen : bs.length = x.modulus.byteLength)
    (hvalue : x.value = Bytes.toNat bs) : x.toBytes = bs := by
  rw [toBytes_eq_padLeft hlen.le hvalue, Bytes.padLeft, hlen, Nat.sub_self]
  rfl

end Residue

/-- The width of a modulus is the fewest bytes that hold it. An element is padded without leaving
the range of a length, fills the width, and is read back. Bytes are read if and only if they are
not more than the width and their value is below the modulus, and then the element that they spell
is written as the same bytes after zeros. -/
theorem Modulus.fixedWidthExact (m : Modulus) :
    (∀ k, m.byteLength ≤ k ↔ m.val < 256 ^ k) ∧
    (∀ x : Residue, x.modulus = m →
      x.held.toBytes = .ok x.toBytes ∧ x.toBytes.length = m.byteLength ∧
      m.ofBytes x.toBytes = .ok x) ∧
    ∀ bs : Bytes,
      ((∃ x, m.ofBytes bs = .ok x) ↔ bs.length ≤ m.byteLength ∧ Bytes.toNat bs < m.val) ∧
      ∀ x, m.ofBytes bs = .ok x →
        x.modulus = m ∧ x.toBytes = List.replicate (m.byteLength - bs.length) 0 ++ bs := by
  refine ⟨fun k => Number.byteLength_le_iff, ?_, fun bs => ⟨exists_ofBytes_iff, ?_⟩⟩
  · rintro x rfl
    exact ⟨Machine.Element.toBytes_held x, x.toBytes_length, x.ofBytes_toBytes⟩
  · intro x hx
    obtain ⟨hlen, rfl, hvalue⟩ := ofBytes_eq_ok_iff.mp hx
    exact ⟨rfl, Residue.toBytes_eq_padLeft hlen hvalue⟩

/-- A power of 256 has a width of one byte more than its elements need. -/
theorem Modulus.fixedWidthExact_power :
    let m : Modulus := ⟨256, by decide⟩
    (m.byteLength = 2 ∧ ¬m.byteLength ≤ 1) ∧
      ((m.reduce 255).held.toBytes = .ok (m.reduce 255).toBytes ∧
        m.ofBytes (m.reduce 255).toBytes = .ok (m.reduce 255)) ∧
      (∃ x, m.ofBytes [0xff] = .ok x ∧ x.toBytes = [0x00, 0xff]) ∧
      ¬∃ x, m.ofBytes [0x01, 0x00] = .ok x := by
  intro m
  obtain ⟨hwidth, helements, hbytes⟩ := fixedWidthExact m
  have htwo : m.byteLength = 2 := by decide
  obtain ⟨hpadded, -, hread⟩ := helements (m.reduce 255) rfl
  obtain ⟨x, hx⟩ := (hbytes [0xff]).1.mpr ⟨by rw [htwo]; decide, by decide⟩
  refine ⟨⟨htwo, mt (hwidth 1).mp (by decide)⟩, ⟨hpadded, hread⟩, ⟨x, hx, ?_⟩, ?_⟩
  · rw [((hbytes [0xff]).2 x hx).2, htwo]
    rfl
  · exact fun h => absurd ((hbytes _).1.mp h).2 (by decide)

end SpendScript.Field
