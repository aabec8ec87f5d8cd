import Mathlib.Data.List.Prime
import Mathlib.NumberTheory.LucasPrimality
import SpendScript.Proofs.Number.Power

/-!
# Primes by their certificates

Lucas's test proves a number `p` prime by an element of order `p - 1`. It needs the prime factors
of `p - 1`, which are small or have passed the test before.

Results:
* `LucasEntry.passes`: the test, with `powMod`.
* `prime_of_certified`: the numbers of a list of entries, each of which passes the test with the
  ones before it, are primes.
-/

namespace SpendScript.Number

/-- A number, an element of the highest order modulo it, and the factors of its predecessor. -/
structure LucasEntry where
  number : ℕ
  witness : ℕ
  factors : List ℕ

/-- Whether a number below `10000` has no divisor below `100` but one and itself. -/
def trial (q : ℕ) : Bool :=
  decide (1 < q) && decide (q < 10000) &&
    (List.range 100).all fun d => decide (d < 2) || decide (q ≤ d) || q % d != 0

theorem prime_of_trial {q : ℕ} (h : trial q = true) : q.Prime := by
  simp only [trial, Bool.and_eq_true, decide_eq_true_iff, List.all_eq_true, List.mem_range,
    Bool.or_eq_true, bne_iff_ne] at h
  obtain ⟨⟨hlt, hbound⟩, hdivisors⟩ := h
  rw [Nat.prime_def_le_sqrt]
  refine ⟨hlt, fun m hm hsqrt hdvd => ?_⟩
  have hsq : m * m ≤ q := Nat.le_sqrt.mp hsqrt
  have hm100 : m < 100 := by nlinarith
  have hmq : m < q := by nlinarith
  rcases hdivisors m hm100 with (h2 | hle) | hmod
  · omega
  · omega
  · exact hmod (Nat.mod_eq_zero_of_dvd hdvd)

namespace LucasEntry

/-- Lucas's test, where the primes in `known` may be used as factors. -/
def passes (known : List ℕ) (e : LucasEntry) : Bool :=
  decide (1 < e.number) && e.factors.prod == e.number - 1 &&
    (e.factors.all fun q => known.contains q || trial q) &&
    powMod e.number e.witness (e.number - 1) == 1 &&
    e.factors.all fun q => powMod e.number e.witness ((e.number - 1) / q) != 1

theorem cast_pow_eq_one_iff {p : ℕ} (hp : 1 < p) (a k : ℕ) :
    (a : ZMod p) ^ k = 1 ↔ powMod p a k = 1 := by
  rw [powMod_eq, ← Nat.cast_pow, ← Nat.cast_one, ZMod.natCast_eq_natCast_iff', Nat.mod_eq_of_lt hp]

theorem prime_of_passes {known : List ℕ} {e : LucasEntry} (hknown : ∀ q ∈ known, q.Prime)
    (h : e.passes known = true) : e.number.Prime := by
  simp only [passes, Bool.and_eq_true, decide_eq_true_iff, beq_iff_eq, List.all_eq_true,
    Bool.or_eq_true, List.contains_iff_mem, bne_iff_ne] at h
  obtain ⟨⟨⟨⟨hlt, hprod⟩, hfactors⟩, hone⟩, hne⟩ := h
  have hprime : ∀ q ∈ e.factors, q.Prime := by
    intro q hq
    rcases hfactors q hq with hmem | hsmall
    · exact hknown q hmem
    · exact prime_of_trial hsmall
  refine lucas_primality e.number (e.witness : ZMod e.number)
    ((cast_pow_eq_one_iff hlt _ _).mpr hone) ?_
  intro q hq hdvd hpow
  rw [← hprod] at hdvd
  obtain ⟨f, hf, hqf⟩ := (hq.prime.dvd_prod_iff).mp hdvd
  obtain rfl := (Nat.prime_dvd_prime_iff_eq hq (hprime f hf)).mp hqf
  exact hne q hf ((cast_pow_eq_one_iff hlt _ _).mp hpow)

end LucasEntry

/-- Whether every entry passes the test with the numbers of the entries before it. -/
def certified : (known : List ℕ) → List LucasEntry → Bool
  | _, [] => true
  | known, e :: es => e.passes known && certified (e.number :: known) es

theorem prime_of_certified {known : List ℕ} {es : List LucasEntry}
    (hknown : ∀ q ∈ known, q.Prime) (h : certified known es = true) :
    ∀ e ∈ es, e.number.Prime := by
  induction es generalizing known with
  | nil =>
    intro e he
    cases he
  | cons e es ih =>
    unfold certified at h
    obtain ⟨hpass, hrest⟩ := (Bool.and_eq_true _ _).mp h
    have hprime := LucasEntry.prime_of_passes hknown hpass
    have hall : ∀ q ∈ e.number :: known, q.Prime := by
      intro q hq
      rcases List.mem_cons.mp hq with rfl | hq
      · exact hprime
      · exact hknown q hq
    intro e' he'
    rcases List.mem_cons.mp he' with rfl | he'
    · exact hprime
    · exact ih hall hrest e' he'

end SpendScript.Number
