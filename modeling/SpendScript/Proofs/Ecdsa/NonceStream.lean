import SpendScript.Proofs.Ecdsa.NonceBits
import SpendScript.Proofs.Ecdsa.Verification

/-!
# The nonces that signing tries

Candidates are rejected in two loops: one looks for a candidate in range, the other for one that
gives a signature. They share the generator, which advances before every candidate but the first.

* `Nonce.Generator`, `Nonce.Returns`, `Nonce.Tries`: the generator and the two loops, without a
  bound on their passes.
* `Nonce.search`: both loops in one, over a bounded number of candidates; the bound can be any.

Results:
* `Nonce.pass_after`, `Nonce.tries_after_iff`: a pass gives the next candidate of the specification,
  so the nonces tried are its values, in their order.
* `Nonce.search_eq`: a search tries the same nonces; `Group.signs_iff`: signing with enough
  candidates returns what the loops return.
* `Group.StandardNonces`: this, for signing and for the deterministic nonce, which depend on the
  digest modulo the order; `Group.standardNonces`: it holds for every order and every keyed hash.
-/

namespace SpendScript

namespace Nonce

open Spec

/-! ## The two loops -/

/-- The generator, which has started once it has generated a candidate. -/
structure Generator where
  state : State
  started : Bool

section Loops

variable (mac : Mac) (q : ℕ)

def Generator.fresh (x z : ℕ) : Generator :=
  ⟨start mac.hash q x z, false⟩

/-- One pass: the next candidate, and the generator after it. -/
def Generator.pass (g : Generator) : ℕ × Generator :=
  let s := if g.started then advance mac.hash g.state else g.state
  let (k, s) := candidate mac.hash q s
  (k, ⟨s, true⟩)

/-- The loop for candidates in range: from generator `g` it returns `k` and leaves `g'`. -/
inductive Returns : Generator → ℕ → Generator → Prop
  | inRange {g : Generator} : 0 < (g.pass mac q).1 ∧ (g.pass mac q).1 < q →
      Returns g (g.pass mac q).1 (g.pass mac q).2
  | outOfRange {g g' : Generator} {k : ℕ} : ¬(0 < (g.pass mac q).1 ∧ (g.pass mac q).1 < q) →
      Returns (g.pass mac q).2 k g' → Returns g k g'

/-- The loop for nonces that `accept` takes: from generator `g` it tries the nonces `ks`, one after
the other, and then has generator `g'`. It may go on to others after them. -/
inductive Tries {α : Type} (accept : ℕ → Except Fault (Option α)) :
    Generator → List ℕ → Generator → Prop
  | none {g : Generator} : Tries accept g [] g
  | last {g g' : Generator} {k : ℕ} : Returns mac q g k g' → Tries accept g [k] g'
  | rejected {g g' g'' : Generator} {k : ℕ} {ks : List ℕ} : Returns mac q g k g' →
      accept k = .ok .none → Tries accept g' ks g'' → Tries accept g (k :: ks) g''

/-- The generator after `n` candidates of the specification, whatever became of them. -/
def Generator.after (x z : ℕ) : (n : ℕ) → Generator
  | 0 => fresh mac q x z
  | n + 1 => ⟨(generate mac q (stateAt mac q x z n)).2, true⟩

end Loops

/-! ## Values among some of the candidates -/

variable (mac : Mac) (q x z : ℕ)

/-- The values among the `n` candidates from `m` on. -/
def Spec.window (m n : ℕ) : List ℕ :=
  ((List.range' m n).map (candidateAt mac q x z)).filter fun k => 1 ≤ k ∧ k ≤ q - 1

theorem values_eq_window (n : ℕ) : values mac q x z n = window mac q x z 0 n := by
  rw [values, window, List.range_eq_range']

@[simp] theorem window_zero (m : ℕ) : window mac q x z m 0 = [] :=
  rfl

theorem window_succ (m n : ℕ) : window mac q x z m (n + 1) =
    if 0 < candidateAt mac q x z m ∧ candidateAt mac q x z m < q then
      candidateAt mac q x z m :: window mac q x z (m + 1) n
    else window mac q x z (m + 1) n := by
  have hrange (k : ℕ) : (1 ≤ k ∧ k ≤ q - 1) ↔ 0 < k ∧ k < q := by omega
  rw [window, List.range'_succ, List.map_cons, List.filter_cons, ← window]
  simp only [decide_eq_true_eq, hrange]

theorem window_add (m n l : ℕ) :
    window mac q x z m (n + l) = window mac q x z m n ++ window mac q x z (m + n) l := by
  rw [window, ← List.range'_append_1, List.map_append, List.filter_append, ← window, ← window]

variable {mac q x z}

theorem mem_window {m n k : ℕ} (h : k ∈ window mac q x z m n) : 1 ≤ k ∧ k ≤ q - 1 :=
  of_decide_eq_true (List.mem_filter.mp h).2

/-- Fewer candidates give the first of the values. -/
theorem exists_window_of_append {ks rest : List ℕ} {m n : ℕ}
    (h : window mac q x z m n = ks ++ rest) : ∃ l, window mac q x z m l = ks := by
  induction n generalizing m ks with
  | zero => exact ⟨0, (List.append_eq_nil_iff.mp h.symm).1.symm⟩
  | succ n ih =>
    rw [window_succ] at h
    split_ifs at h with hk
    · cases ks with
      | nil => exact ⟨0, rfl⟩
      | cons k ks =>
        rw [List.cons_append, List.cons.injEq] at h
        obtain ⟨l, hl⟩ := ih h.2
        exact ⟨l + 1, by rw [window_succ, if_pos hk, hl, h.1]⟩
    · obtain ⟨l, hl⟩ := ih h
      exact ⟨l + 1, by rw [window_succ, if_neg hk, hl]⟩

/-! ## The loops follow the specification -/

variable (mac z) in
/-- A pass gives the next candidate of the specification. The first one starts from the state as it
is; a later one first does what ends step h, whichever loop has rejected the candidate before. -/
theorem pass_after (hx : x < q) (n : ℕ) : (Generator.after mac q x z n).pass mac q =
    (candidateAt mac q x z n, Generator.after mac q x z (n + 1)) := by
  unfold Generator.pass
  simp only [candidate_eq]
  cases n with
  | zero =>
    have hstart : stateAt mac q x z 0 = start mac.hash q x z := (start_eq mac hx z).symm
    rw [candidateAt, Generator.after, Generator.after, hstart]
    rfl
  | succ n => rfl

section Runs

variable (hx : x < q)
include hx

theorem returns_after {m : ℕ} (hk : 0 < candidateAt mac q x z m ∧ candidateAt mac q x z m < q) :
    Returns mac q (Generator.after mac q x z m) (candidateAt mac q x z m)
      (Generator.after mac q x z (m + 1)) := by
  have hpass := pass_after mac z hx m
  have h := @Returns.inRange mac q (Generator.after mac q x z m)
  rw [hpass] at h
  exact h hk

/-- A return passes over candidates without a value, up to the first one that is a value. -/
theorem window_of_returns {g g' : Generator} {k : ℕ} (h : Returns mac q g k g') {m : ℕ}
    (hg : g = Generator.after mac q x z m) :
    ∃ l, window mac q x z m l = [k] ∧ g' = Generator.after mac q x z (m + l) := by
  induction h generalizing m with
  | inRange hk =>
    rw [hg, pass_after mac z hx] at hk ⊢
    exact ⟨1, by rw [window_succ, if_pos hk, window_zero], rfl⟩
  | outOfRange hk _ ih =>
    rw [hg, pass_after mac z hx] at hk ih
    obtain ⟨l, hl, hg'⟩ := ih (m := m + 1) rfl
    refine ⟨l + 1, ?_, ?_⟩
    · rw [window_succ, if_neg hk, hl]
    · rw [hg', Nat.add_assoc, Nat.add_comm 1]

variable {α : Type} {accept : ℕ → Except Fault (Option α)}

theorem window_of_tries {g g' : Generator} {ks : List ℕ} (h : Tries mac q accept g ks g') {m : ℕ}
    (hg : g = Generator.after mac q x z m) :
    ∃ l, window mac q x z m l = ks ∧ g' = Generator.after mac q x z (m + l) := by
  induction h generalizing m with
  | none => exact ⟨0, rfl, hg⟩
  | last hk => exact window_of_returns hx hk hg
  | rejected hk _ _ ih =>
    obtain ⟨n, hn, hg'⟩ := window_of_returns hx hk hg
    obtain ⟨l, hl, hg''⟩ := ih hg'
    exact ⟨n + l, by rw [window_add, hn, hl]; rfl, by rw [hg'', Nat.add_assoc]⟩

omit hx in
theorem rejected_of_tries {g g' : Generator} {ks : List ℕ} (h : Tries mac q accept g ks g') :
    ∀ k ∈ ks.dropLast, accept k = .ok none := by
  induction h with
  | none => simp
  | last _ => simp
  | @rejected _ _ _ k ks _ hk _ ih =>
    intro k' hk'
    cases ks with
    | nil => simp at hk'
    | cons k₂ ks =>
      rw [List.dropLast_cons_cons, List.mem_cons] at hk'
      rcases hk' with rfl | hk'
      · exact hk
      · exact ih k' hk'

omit hx in
/-- A candidate out of range is passed over. -/
theorem Tries.outOfRange {g g' : Generator} {ks : List ℕ}
    (hk : ¬(0 < (g.pass mac q).1 ∧ (g.pass mac q).1 < q))
    (h : Tries mac q accept (g.pass mac q).2 ks g') : ∃ g'', Tries mac q accept g ks g'' := by
  cases h with
  | none => exact ⟨g, .none⟩
  | last h => exact ⟨_, .last (.outOfRange hk h)⟩
  | rejected h hacc hks => exact ⟨_, .rejected (.outOfRange hk h) hacc hks⟩

/-- The loop reaches every value. The induction is on the candidates: one that is a value is a
return of its own, and any other is added to the return that follows. -/
theorem tries_of_window {m l : ℕ} {ks : List ℕ} (hks : window mac q x z m l = ks)
    (hacc : ∀ k ∈ ks.dropLast, accept k = .ok none) :
    ∃ g', Tries mac q accept (Generator.after mac q x z m) ks g' := by
  induction l generalizing m ks with
  | zero =>
    cases hks
    exact ⟨_, .none⟩
  | succ l ih =>
    rw [window_succ] at hks
    split_ifs at hks with hk
    · have hreturns := returns_after hx hk
      -- The last value need not be rejected, so it is told apart.
      cases hrest : window mac q x z (m + 1) l with
      | nil =>
        rw [← hks, hrest]
        exact ⟨_, .last hreturns⟩
      | cons k₂ rest =>
        rw [hrest] at hks
        rw [← hks, List.dropLast_cons_cons, List.forall_mem_cons] at hacc
        obtain ⟨g', hg'⟩ := ih hrest hacc.2
        rw [← hks]
        exact ⟨g', .rejected hreturns hacc.1 hg'⟩
    · obtain ⟨g', hg'⟩ := ih hks hacc
      have hpass := pass_after mac z hx m
      have hnext : Tries mac q accept ((Generator.after mac q x z m).pass mac q).2 ks g' := by
        rwa [hpass]
      exact Tries.outOfRange (by rwa [hpass]) hnext

/-- The nonces tried are values of the specification in their order, and the loop goes on exactly
as long as they are rejected. -/
theorem tries_after_iff {m : ℕ} {ks : List ℕ} :
    (∃ g', Tries mac q accept (Generator.after mac q x z m) ks g') ↔
      (∃ l, window mac q x z m l = ks) ∧ ∀ k ∈ ks.dropLast, accept k = .ok none := by
  constructor
  · rintro ⟨g', h⟩
    obtain ⟨l, hl, -⟩ := window_of_tries hx h rfl
    exact ⟨⟨l, hl⟩, rejected_of_tries h⟩
  · rintro ⟨⟨l, hl⟩, hacc⟩
    exact tries_of_window hx hl hacc

/-- The first loop returns the first value. -/
theorem returns_after_iff {m k : ℕ} : (∃ g', Returns mac q (Generator.after mac q x z m) k g') ↔
    ∃ l, window mac q x z m l = [k] := by
  constructor
  · rintro ⟨g', h⟩
    obtain ⟨l, hl, -⟩ := window_of_returns hx h rfl
    exact ⟨l, hl⟩
  · rintro ⟨l, hl⟩
    let accept : ℕ → Except Fault (Option Unit) := fun _ => .ok none
    have hall : ∀ k' ∈ [k].dropLast, accept k' = .ok none := fun _ _ => rfl
    obtain ⟨g', h⟩ := tries_of_window hx hl hall
    cases h with
    | last h => exact ⟨g', h⟩
    | rejected h _ _ => exact ⟨_, h⟩

end Runs

/-! ## The search -/

variable {α : Type} {accept : ℕ → Except Fault (Option α)}

/-- From any candidate on, a search tries the values among the candidates that it has. -/
theorem search_stateAt (m l : ℕ) : search mac.hash q accept l (stateAt mac q x z m) =
    (window mac q x z m l).findSomeM? accept := by
  induction l generalizing m with
  | zero => rfl
  | succ l ih =>
    have hnext : advance mac.hash (generate mac q (stateAt mac q x z m)).2 =
      stateAt mac q x z (m + 1) := advance_eq mac _
    have hk : (generate mac q (stateAt mac q x z m)).1 = candidateAt mac q x z m := rfl
    rw [window_succ, search, candidate_eq]
    simp only [hnext, hk, ih]
    split_ifs <;> rfl

theorem search_eq (hx : x < q) (n : ℕ) : search mac.hash q accept n (start mac.hash q x z) =
    (values mac q x z n).findSomeM? accept := by
  rw [start_eq mac hx, values_eq_window]
  exact search_stateAt 0 n

theorem findSomeM?_cons_of_rejected {k : ℕ} {ks : List ℕ} (hk : accept k = .ok none) :
    (k :: ks).findSomeM? accept = ks.findSomeM? accept := by
  rw [List.findSomeM?, hk]
  rfl

theorem findSomeM?_cons_of_not_rejected {k : ℕ} {ks : List ℕ} (hk : accept k ≠ .ok none) :
    (k :: ks).findSomeM? accept = accept k := by
  rw [List.findSomeM?]
  cases hacc : accept k with
  | error f => rfl
  | ok found =>
    cases found with
    | none => exact absurd hacc hk
    | some a => rfl

/-- The first result on a list comes from an element after rejected ones. -/
theorem findSomeM?_eq_iff {ks : List ℕ} {r : Except Fault (Option α)} (hr : r ≠ .ok none) :
    ks.findSomeM? accept = r ↔
      ∃ before k rest, ks = before ++ k :: rest ∧ (∀ k' ∈ before, accept k' = .ok none) ∧
        accept k = r := by
  induction ks with
  | nil =>
    refine iff_of_false (fun h => hr h.symm) ?_
    rintro ⟨before, k, rest, h, -⟩
    cases before <;> cases h
  | cons k ks ih =>
    by_cases hk : accept k = .ok none
    · rw [findSomeM?_cons_of_rejected hk, ih]
      constructor
      · rintro ⟨before, k₂, rest, rfl, hbefore, h⟩
        exact ⟨k :: before, k₂, rest, rfl, List.forall_mem_cons.mpr ⟨hk, hbefore⟩, h⟩
      · rintro ⟨before, k₂, rest, heq, hbefore, h⟩
        cases before with
        | nil =>
          cases heq
          exact absurd (h.symm.trans hk) hr
        | cons k' before =>
          cases heq
          exact ⟨before, k₂, rest, rfl, (List.forall_mem_cons.mp hbefore).2, h⟩
    · rw [findSomeM?_cons_of_not_rejected hk]
      constructor
      · intro h
        exact ⟨[], k, ks, rfl, List.forall_mem_nil _, h⟩
      · rintro ⟨before, k₂, rest, heq, hbefore, h⟩
        cases before with
        | nil =>
          cases heq
          exact h
        | cons k' before =>
          cases heq
          exact absurd (hbefore k List.mem_cons_self) hk

/-- A search ends, with enough candidates, as the loops do. -/
theorem exists_search_iff (hx : x < q) {r : Except Fault (Option α)} (hr : r ≠ .ok none) :
    (∃ n, search mac.hash q accept n (start mac.hash q x z) = r) ↔
      ∃ ks k g', Tries mac q accept (Generator.fresh mac q x z) (ks ++ [k]) g' ∧ accept k = r := by
  simp only [search_eq hx, values_eq_window]
  constructor
  · rintro ⟨n, h⟩
    obtain ⟨before, k, rest, hvalues, hbefore, hk⟩ := (findSomeM?_eq_iff hr).mp h
    rw [List.append_cons] at hvalues
    obtain ⟨g', hg'⟩ := (tries_after_iff (m := 0) hx).mpr ⟨exists_window_of_append hvalues,
      by rwa [List.dropLast_concat]⟩
    exact ⟨before, k, g', hg', hk⟩
  · rintro ⟨ks, k, g', h, hk⟩
    obtain ⟨⟨n, hn⟩, hks⟩ := (tries_after_iff (m := 0) hx).mp ⟨g', h⟩
    rw [List.dropLast_concat] at hks
    exact ⟨n, (findSomeM?_eq_iff hr).mpr ⟨ks, k, [], hn, hks, hk⟩⟩

theorem findSomeM?_head (ks : List ℕ) :
    ks.findSomeM? (fun k => .ok (some k) : ℕ → Except Fault (Option ℕ)) = .ok ks.head? := by
  cases ks <;> rfl

/-! ## The digest modulo the order -/

theorem start_congr {hash : KeyedHash} {z z' : ℕ} (h : z' ≡ z [MOD q]) :
    start hash q x z' = start hash q x z := by
  unfold start
  rw [h]

theorem stateAt_congr {z z' : ℕ} (h : z' ≡ z [MOD q]) (i : ℕ) :
    stateAt mac q x z' i = stateAt mac q x z i := by
  induction i with
  | zero =>
    unfold stateAt Spec.init
    rw [h]
  | succ i ih => rw [stateAt, stateAt, ih]

theorem values_congr {z z' : ℕ} (h : z' ≡ z [MOD q]) (n : ℕ) :
    values mac q x z' n = values mac q x z n := by
  have hcandidates : candidateAt mac q x z' = candidateAt mac q x z := by
    funext i
    rw [candidateAt, candidateAt, stateAt_congr h]
  rw [values, values, hcandidates]

end Nonce

namespace Group

open SpendScript.Field (Arith)
open Nonce (Mac Generator Returns Tries)
open Nonce.Spec (values)

variable {F : Type} [Arith F] [DecidableEq F]

/-! ## Signing -/

section Candidates

variable (g : Group F) {secret : ℕ} (hx : secret < g.order) (z : ℕ)
include hx

theorem firstAccepted_eq {α : Type} (accept : ℕ → Except Fault (Option α)) (bound : ℕ) :
    g.firstAccepted accept bound secret z =
      orExhausted ((values .hmacSha256 g.order secret z bound).findSomeM? accept) := by
  rw [← Nonce.search_eq hx]
  rfl

theorem deterministicNonceWithin_eq (bound : ℕ) : g.deterministicNonceWithin bound secret z =
    orExhausted (.ok (values .hmacSha256 g.order secret z bound).head?) := by
  rw [deterministicNonceWithin, firstAccepted_eq g hx, Nonce.findSomeM?_head]

/-- Signing without a bound returns what the loops return. -/
theorem signs_iff (sig : Signature) : g.Signs secret z sig ↔
    ∃ ks k next, Tries .hmacSha256 g.order (g.signWithNonce secret z)
      (.fresh .hmacSha256 g.order secret z) (ks ++ [k]) next ∧
      g.signWithNonce secret z k = .ok (some sig) := by
  have hfound : (Except.ok (some sig) : Except Fault (Option Signature)) ≠ .ok none := nofun
  rw [← Nonce.exists_search_iff hx hfound]
  exact exists_congr fun _ => orExhausted_eq_ok

/-- With enough candidates, the first nonce is what the loop for candidates in range returns. -/
theorem exists_deterministicNonceWithin_iff (k : ℕ) :
    (∃ bound, g.deterministicNonceWithin bound secret z = .ok k) ↔
      ∃ next, Returns .hmacSha256 g.order (.fresh .hmacSha256 g.order secret z) k next := by
  refine Iff.trans ?_ (Nonce.returns_after_iff (m := 0) hx).symm
  simp only [deterministicNonceWithin_eq g hx, orExhausted_eq_ok, Except.ok.injEq,
    Nonce.values_eq_window]
  constructor
  · rintro ⟨bound, h⟩
    obtain ⟨rest, hrest⟩ := List.head?_eq_some_iff.mp h
    rw [← List.singleton_append] at hrest
    exact Nonce.exists_window_of_append hrest
  · rintro ⟨l, hl⟩
    exact ⟨l, by rw [hl]; rfl⟩

end Candidates

section Congr

variable (g : Group F) (secret : ℕ) {z z' : ℕ} (h : z' ≡ z [MOD g.order])
include h

theorem signWithNonce_congr : g.signWithNonce secret z' = g.signWithNonce secret z := by
  funext k
  have hs (r : ℕ) : (z' + r * secret) * Number.fermatInverse g.order k % g.order =
      (z + r * secret) * Number.fermatInverse g.order k % g.order :=
    (h.add_right _).mul_right _
  unfold signWithNonce
  simp only [hs]

theorem firstAccepted_congr {α : Type} (accept : ℕ → Except Fault (Option α)) (bound : ℕ) :
    g.firstAccepted accept bound secret z' = g.firstAccepted accept bound secret z := by
  unfold firstAccepted
  rw [Nonce.start_congr h]

theorem signWithin_congr (bound : ℕ) :
    g.signWithin bound secret z' = g.signWithin bound secret z := by
  unfold signWithin
  rw [firstAccepted_congr g secret h, signWithNonce_congr g secret h]

end Congr

/-- The nonces for a secret and a digest are those of the specification. -/
structure StandardNonces (g : Group F) (secret z : ℕ) : Prop where
  /-- The nonces tried are values of the specification, from the first one on and in their order.
  The loop goes on to the next one if and only if a nonce is rejected. -/
  tries_iff : ∀ (mac : Mac) {α : Type} (accept : ℕ → Except Fault (Option α)) (ks : List ℕ),
    (∃ next, Tries mac g.order accept (.fresh mac g.order secret z) ks next) ↔
      (∃ n, values mac g.order secret z n = ks) ∧ ∀ k ∈ ks.dropLast, accept k = .ok none
  /-- Then the generator is as after a number of candidates of the specification, whichever loop
  has rejected them. -/
  generator_eq : ∀ (mac : Mac) {α : Type} (accept : ℕ → Except Fault (Option α)) ks next,
    Tries mac g.order accept (.fresh mac g.order secret z) ks next →
      ∃ n, values mac g.order secret z n = ks ∧ next = .after mac g.order secret z n
  inRange : ∀ (mac : Mac) {α : Type} (accept : ℕ → Except Fault (Option α)) ks next,
    Tries mac g.order accept (.fresh mac g.order secret z) ks next →
      ∀ k ∈ ks, 1 ≤ k ∧ k ≤ g.order - 1
  /-- The first nonce is the first value. -/
  returns_iff : ∀ (mac : Mac) k,
    (∃ next, Returns mac g.order (.fresh mac g.order secret z) k next) ↔
      ∃ n, values mac g.order secret z n = [k]
  /-- A search has a result, be it a fault, exactly if the last nonce tried gives it. -/
  search_iff : ∀ (mac : Mac) {α : Type} (accept : ℕ → Except Fault (Option α)) r, r ≠ .ok none →
    ((∃ n, Nonce.search mac.hash g.order accept n (Nonce.start mac.hash g.order secret z) = r) ↔
      ∃ ks k next, Tries mac g.order accept (.fresh mac g.order secret z) (ks ++ [k]) next ∧
        accept k = r)
  /-- With any bound, signing tries the values among its candidates one by one. -/
  signWithin_eq : ∀ bound, g.signWithin bound secret z =
    orExhausted ((values .hmacSha256 g.order secret z bound).findSomeM?
      (g.signWithNonce secret z))
  deterministicNonceWithin_eq : ∀ bound, g.deterministicNonceWithin bound secret z =
    orExhausted (.ok (values .hmacSha256 g.order secret z bound).head?)
  /-- A bound only decides whether there is a result, and not which one. -/
  signWithin_of_le : ∀ n m sig, n ≤ m → g.signWithin n secret z = .ok sig →
    g.signWithin m secret z = .ok sig
  /-- Without a bound, signing returns what the loops return. -/
  signs_iff : ∀ sig, g.Signs secret z sig ↔
    ∃ ks k next, Tries .hmacSha256 g.order (g.signWithNonce secret z)
      (.fresh .hmacSha256 g.order secret z) (ks ++ [k]) next ∧
      g.signWithNonce secret z k = .ok (some sig)
  /-- Without a bound, the deterministic nonce is what the loop for candidates in range returns. -/
  deterministicNonce_iff : ∀ k, (∃ bound, g.deterministicNonceWithin bound secret z = .ok k) ↔
    ∃ next, Returns .hmacSha256 g.order (.fresh .hmacSha256 g.order secret z) k next
  /-- Digests that are congruent modulo the order have the same nonces and signatures. -/
  congr : ∀ z', z' ≡ z [MOD g.order] →
    (∀ mac n, values mac g.order secret z' n = values mac g.order secret z n) ∧
      (∀ bound, g.deterministicNonceWithin bound secret z' =
        g.deterministicNonceWithin bound secret z) ∧
      g.deterministicNonce secret z' = g.deterministicNonce secret z ∧
      g.signWithNonce secret z' = g.signWithNonce secret z ∧
      (∀ bound, g.signWithin bound secret z' = g.signWithin bound secret z) ∧
      g.signUnchecked secret z' = g.signUnchecked secret z ∧
      g.sign secret z' = g.sign secret z

/-- For every order, every secret below it and every digest, and with every keyed hash of 32 bytes,
the nonces that signing tries are those of RFC 6979, section 3.2. -/
theorem standardNonces (g : Group F) {secret : ℕ} (hx : secret < g.order) (z : ℕ) :
    g.StandardNonces secret z where
  tries_iff mac _ accept ks := by
    simp only [Nonce.values_eq_window]
    exact Nonce.tries_after_iff (m := 0) hx
  generator_eq mac _ accept ks next h := by
    obtain ⟨n, hn, hnext⟩ := Nonce.window_of_tries (m := 0) hx h rfl
    rw [← Nonce.values_eq_window] at hn
    exact ⟨n, hn, by rwa [Nat.zero_add] at hnext⟩
  inRange mac _ accept ks next h k hk := by
    obtain ⟨n, hn, -⟩ := Nonce.window_of_tries (m := 0) hx h rfl
    exact Nonce.mem_window (hn ▸ hk)
  returns_iff mac k := by
    simp only [Nonce.values_eq_window]
    exact Nonce.returns_after_iff (m := 0) hx
  search_iff mac _ accept r hr := Nonce.exists_search_iff hx hr
  signWithin_eq := firstAccepted_eq g hx z (g.signWithNonce secret z)
  deterministicNonceWithin_eq := deterministicNonceWithin_eq g hx z
  signWithin_of_le n m sig hle h := signWithin_of_le hle h
  signs_iff := signs_iff g hx z
  deterministicNonce_iff := exists_deterministicNonceWithin_iff g hx z
  congr z' h := by
    have hnonce (bound : ℕ) := firstAccepted_congr g secret h (fun k => .ok (some k)) bound
    have hsign := signWithin_congr g secret h
    have hunchecked : g.signUnchecked secret z' = g.signUnchecked secret z := hsign Nonce.attempts
    refine ⟨fun mac => Nonce.values_congr h, hnonce, hnonce Nonce.attempts,
      signWithNonce_congr g secret h, hsign, hunchecked, ?_⟩
    unfold sign
    rw [hunchecked]

/-- In the group of order seven, for secret 3 and digest 4, the nonce 1 gives a zero `s`, so the
next one is tried. -/
theorem standardNonces_orderSeven : 3 < orderSeven.order ∧
    orderSeven.signWithNonce 3 4 1 = .ok none ∧ orderSeven.StandardNonces 3 4 := by
  have hzero : orderSeven.signWithNonce 3 4 1 = .ok none := by cbv
  exact ⟨by decide, hzero, standardNonces orderSeven (by decide) 4⟩

end Group

end SpendScript
