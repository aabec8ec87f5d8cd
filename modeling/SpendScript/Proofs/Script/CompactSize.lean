import SpendScript.Proofs.Script.Stream

/-!
# Forms of compact sizes

A number has a form for each first byte that announces enough bytes. The first byte tells how long a
form is, so no form begins with another one, and a source that ends within a form ends before the
reader is done.

Results:
* `CompactSize.exists_form_of_read`: whatever is read is a form, the written one or a longer one.
* `CompactSize.read_of_cut`: a form that is cut off is not read.
* `CompactSize.eq_of_encode_prefix`: no written form begins with that of another number.
* `CompactSize.shortest_prefixFree`: all of this for every number.
-/

namespace SpendScript.CompactSize

variable {u v : UInt64}

/-- What is taken from a source for a number is its written form, or a longer one. -/
theorem exists_form_of_read {source rest : Source} (h : read source = .ok (v, rest)) :
    ∃ form, source.bytes = form ++ rest.bytes ∧ source.ending = rest.ending ∧
      (form ≠ encode v → (encode v).length < form.length) := by
  obtain ⟨first, digits, hbytes, hending, hlength, rfl⟩ := exists_of_read h
  refine ⟨first :: digits, hbytes, hending, fun hne => ?_⟩
  have hpadded : ¬Shortest first (value first digits) := fun hshortest =>
    hne ((encode_eq_iff hlength).mpr hshortest).symm
  rw [List.length_cons, hlength, Nat.add_comm]
  exact length_encode_lt hpadded

/-- A source that ends within a form is asked for more than it has. -/
theorem read_of_cut {first : UInt8} {digits bs : Bytes} (hlength : digits.length = width first)
    (hcut : bs <+: first :: digits) (hne : bs ≠ first :: digits) (ending : Ending) :
    read ⟨bs, ending⟩ = .error ending := by
  cases bs with
  | nil => rfl
  | cons b bs =>
    obtain ⟨rfl, hinside⟩ := List.cons_prefix_cons.mp hcut
    have hshort : bs.length ≠ digits.length := fun heq => hne (by rw [hinside.eq_of_length heq])
    exact read_of_short (hlength ▸ Nat.lt_of_le_of_ne hinside.length_le hshort) ending

/-- What follows the first form would be read into the second one. -/
theorem eq_of_encode_prefix (h : encode u <+: encode v) : u = v := by
  obtain ⟨missing, hmissing⟩ := h
  have hu := read_encode u (Source.ofBytes missing)
  have hv := read_encode v (Source.ofBytes [])
  have hsame : encode v ++ (Source.ofBytes []).bytes =
      encode u ++ (Source.ofBytes missing).bytes := by
    rw [← hmissing]
    exact List.append_nil _
  rw [hsame] at hv
  cases hu.symm.trans hv
  rfl

/-- A number is read back from its written form whatever follows, and just that form is taken. Every
other form that is read as the number is longer. A written form that is cut off is an early end of
the source, and none begins with that of another number. -/
theorem shortest_prefixFree (v : UInt64) :
    (∀ rest : Source, read ⟨encode v ++ rest.bytes, rest.ending⟩ = .ok (v, rest)) ∧
      (∀ source rest : Source, read source = .ok (v, rest) →
        ∃ form, source.bytes = form ++ rest.bytes ∧ source.ending = rest.ending ∧
          (form ≠ encode v → (encode v).length < form.length)) ∧
      (∀ bs : Bytes, bs <+: encode v → bs ≠ encode v →
        (∀ ending, read ⟨bs, ending⟩ = .error ending) ∧
        Script.read (Source.ofBytes bs) = .error .truncatedLength) ∧
      ∀ u : UInt64, encode u <+: encode v → u = v := by
  refine ⟨read_encode v, fun _ _ => exists_form_of_read, fun bs hcut hne => ?_,
    fun _ => eq_of_encode_prefix⟩
  rw [encode_eq] at hcut hne
  have hend := read_of_cut (Bytes.length_ofNatLE _ _) hcut hne
  refine ⟨hend, ?_⟩
  rw [Script.read, Source.ofBytes, hend]
  rfl

/-- The least number that needs two bytes after the first one: in four of them, and cut off. -/
theorem shortest_prefixFree_first :
    read (Source.ofBytes [0xfe, 0xfd, 0x00, 0x00, 0x00]) = .ok (0xfd, Source.ofBytes []) ∧
      (encode 0xfd).length < 5 ∧
      ([0xfd, 0xfd] : Bytes) <+: encode 0xfd ∧
      read (Source.ofBytes [0xfd, 0xfd]) = .error .clean := by
  obtain ⟨-, hforms, hcuts, -⟩ := shortest_prefixFree 0xfd
  have hread : read (Source.ofBytes [0xfe, 0xfd, 0x00, 0x00, 0x00]) =
      .ok (0xfd, Source.ofBytes []) := by rfl
  have hcut : ([0xfd, 0xfd] : Bytes) <+: encode 0xfd := by decide
  obtain ⟨form, hbytes, -, hlonger⟩ := hforms _ _ hread
  have hform : form = [0xfe, 0xfd, 0x00, 0x00, 0x00] := by
    rw [← List.append_nil form]
    exact hbytes.symm
  subst hform
  exact ⟨hread, hlonger (by decide), hcut, (hcuts _ hcut (by decide)).1 .clean⟩

end SpendScript.CompactSize
