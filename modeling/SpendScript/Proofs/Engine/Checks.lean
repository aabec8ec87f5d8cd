import Mathlib.Data.List.Forall2
import Mathlib.Data.List.NodupEquivFin
import SpendScript.Proofs.Engine.Frame

/-!
# Signature checks

A check of a run succeeds if and only if the item is a signature of the digest by the key, as long
as the remembered results are right. A multisignature check looks for an increasing assignment of
the signatures to the keys, and finds one if there is one.

Results:
* `PublicKey.Signed`, `SignedBy`: an item of a script is a signature under a key, and under a
  written key; `signedBy_iff`: a check decides it.
* `Engine.checkSignature_eq_ok`, `Engine.checkSignature_of_decided`: single checks.
* `Engine.scan`: the search for keys where checks only answer; `Engine.scan_eq_true_iff`: it finds
  an assignment if there is one. `Engine.matchKeys_eq_ok`: a search of a run answers like it.
* `Engine.matchKeys_eq_true`, `Engine.exists_matchKeys`: the search for keys.
* `exists_sublist_iff_exists_strictMono`: chosen keys as increasing places in the list of keys.
-/

namespace SpendScript

/-- The item is a DER signature of the digest `z`, with one more byte, and the key verifies it. -/
def PublicKey.Signed (publicKey : PublicKey) (z : ℕ) (item : Bytes) : Prop :=
  ∃ der kind sig, item = der ++ [kind] ∧ Signature.ofDer der = .ok sig ∧
    publicKey.verify z sig = .ok true

/-- The bytes are the SEC form of a key that has signed `z` by the item. -/
def SignedBy (z : ℕ) (key item : Bytes) : Prop :=
  ∃ publicKey, PublicKey.ofSec key = .ok publicKey ∧ publicKey.Signed z item

theorem SigCheck.verdict_eq_decided {check : SigCheck} {valid : Bool} :
    check.verdict = .decided valid ↔ ∃ sig key, Signature.ofDer check.signature = .ok sig ∧
      PublicKey.ofSec check.key = .ok key ∧ key.verify check.digest sig = .ok valid := by
  unfold verdict
  cases Signature.ofDer check.signature with
  | error flaw => simp
  | ok sig =>
    cases hkey : PublicKey.ofSec check.key with
    | error cause => cases cause <;> simp
    | ok key =>
      cases hverify : key.verify check.digest sig with
      | error f => simp [hverify]
      | ok b => simp [hverify]

theorem signedBy_iff {z : ℕ} {key item : Bytes} :
    SignedBy z key item ↔ item ≠ [] ∧ SigCheck.verdict ⟨item.dropLast, key, z⟩ = .decided true := by
  rw [SigCheck.verdict_eq_decided]
  constructor
  · rintro ⟨publicKey, hkey, der, kind, sig, rfl, hsig, hverify⟩
    refine ⟨List.append_ne_nil_of_right_ne_nil _ (List.cons_ne_nil _ _), sig, publicKey, ?_, hkey,
      hverify⟩
    rw [List.dropLast_concat]
    exact hsig
  · rintro ⟨hne, sig, publicKey, hsig, hkey, hverify⟩
    exact ⟨publicKey, hkey, item.dropLast, item.getLast hne, sig,
      (List.dropLast_append_getLast hne).symm, hsig, hverify⟩

/-- Whether the item is a signature of the digest by the key. -/
def accepts (z : ℕ) (key item : Bytes) : Bool :=
  !item.isEmpty && decide (SigCheck.verdict ⟨item.dropLast, key, z⟩ = .decided true)

theorem accepts_eq_true {z : ℕ} {key item : Bytes} :
    accepts z key item = true ↔ SignedBy z key item := by
  rw [signedBy_iff, accepts, Bool.and_eq_true, decide_eq_true_iff, Bool.not_eq_true',
    List.isEmpty_eq_false_iff]

theorem accepts_nil (z : ℕ) (key : Bytes) : accepts z key [] = false :=
  rfl

theorem accepts_of_decided {z : ℕ} {key item : Bytes} {valid : Bool} (hitem : item ≠ [])
    (hv : SigCheck.verdict ⟨item.dropLast, key, z⟩ = .decided valid) :
    accepts z key item = valid := by
  rw [accepts, hv, List.isEmpty_eq_false_iff.mpr hitem]
  cases valid <;> rfl

theorem accepts_of_malformed {z : ℕ} {key item : Bytes} {cause : ScriptError}
    (hv : SigCheck.verdict ⟨item.dropLast, key, z⟩ = .malformed cause) :
    accepts z key item = false := by
  rw [accepts, hv]
  exact Bool.and_false _

/-! ## Assignments -/

/-- To choose some entries of a list in their order is to name their places in increasing order. -/
theorem exists_sublist_iff_exists_strictMono {α β : Type} {R : α → β → Prop} {xs : List α}
    {ys : List β} :
    (∃ chosen, chosen.Sublist xs ∧ List.Forall₂ R chosen ys) ↔
      ∃ place : Fin ys.length → Fin xs.length, StrictMono place ∧
        ∀ i, R (xs.get (place i)) (ys.get i) := by
  constructor
  · rintro ⟨chosen, hchosen, hR⟩
    obtain ⟨place, hplace⟩ := List.sublist_iff_exists_fin_orderEmbedding_get_eq.mp hchosen
    obtain ⟨hlen, hget⟩ := List.forall₂_iff_get.mp hR
    refine ⟨fun i => place (i.cast hlen.symm), fun i j hij => place.strictMono hij, fun i => ?_⟩
    rw [← hplace]
    exact hget i (i.cast hlen.symm).isLt i.isLt
  · rintro ⟨place, hmono, hR⟩
    have hlen : (List.ofFn fun i => xs.get (place i)).length = ys.length := List.length_ofFn
    refine ⟨List.ofFn fun i => xs.get (place i), ?_, List.forall₂_iff_get.mpr ⟨hlen, ?_⟩⟩
    · refine List.sublist_iff_exists_fin_orderEmbedding_get_eq.mpr
        ⟨OrderEmbedding.ofStrictMono (fun i => place (i.cast hlen)) fun i j hij => hmono hij, ?_⟩
      intro i
      rw [List.get_ofFn]
      rfl
    · intro i hi hi'
      rw [List.get_ofFn]
      exact hR ⟨i, hi'⟩

namespace Engine

variable {env : Env} {s s' : State}

/-! ## Single checks -/

/-- Under every policy, a check that returns has found out whether the item is a signature. -/
theorem checkSignature_eq_ok {key item : Bytes} {valid : Bool} (hs : SigCache.Sound s.cache)
    (h : checkSignature env item key s = .ok valid s') : valid = accepts env.digest key item := by
  unfold checkSignature at h
  cases item with
  | nil =>
    cases h
    rfl
  | cons b bs =>
    have hne : b :: bs ≠ [] := List.cons_ne_nil _ _
    rw [if_neg (show ¬ (b :: bs).isEmpty = true from Bool.false_ne_true), get_bind] at h
    cases hget : s.cache.get? ⟨(b :: bs).dropLast, key, env.digest⟩ with
    | some found =>
      simp only [hget, pure_apply, EStateM.Result.ok.injEq] at h
      rw [← h.1, accepts_of_decided hne (hs _ (Cache.mem_of_get? hget))]
    | none =>
      simp only [hget] at h
      cases hv : SigCheck.verdict ⟨(b :: bs).dropLast, key, env.digest⟩ with
      | decided found =>
        simp only [hv] at h
        obtain ⟨_, t, -, hpure⟩ := bind_eq_ok.mp h
        rw [pure_apply, EStateM.Result.ok.injEq] at hpure
        rw [← hpure.1, accepts_of_decided hne hv]
      | malformed cause =>
        simp only [hv] at h
        split_ifs at h
        · cases h
        · obtain ⟨_, t, -, hpure⟩ := bind_eq_ok.mp h
          cases hpure
          rw [accepts_of_malformed hv]
      | fault f =>
        simp only [hv] at h
        cases h

theorem checkSignature_eq_true {key item : Bytes} (hs : SigCache.Sound s.cache)
    (h : checkSignature env item key s = .ok true s') : SignedBy env.digest key item :=
  accepts_eq_true.mp (checkSignature_eq_ok hs h).symm

/-- A check of a readable signature and a readable key returns what it finds, and only the cache
changes. -/
theorem checkSignature_of_decided {key item : Bytes} {valid : Bool}
    (hs : SigCache.Sound s.cache) (hitem : item ≠ [])
    (hv : SigCheck.verdict ⟨item.dropLast, key, env.digest⟩ = .decided valid) :
    ∃ cache, SigCache.Sound cache ∧
      checkSignature env item key s = .ok valid { s with cache := cache } := by
  unfold checkSignature
  rw [if_neg (by simpa using hitem), get_bind]
  cases hget : s.cache.get? ⟨item.dropLast, key, env.digest⟩ with
  | some found =>
    have hfound := hs _ (Cache.mem_of_get? hget)
    rw [hv, Verdict.decided.injEq] at hfound
    rw [hfound]
    exact ⟨s.cache, hs, rfl⟩
  | none =>
    simp only [hv]
    exact ⟨_, hs.insert hv, rfl⟩

theorem exists_checkSignature {key item : Bytes} {valid : Bool} (hs : SigCache.Sound s.cache)
    (hitem : item ≠ [])
    (hv : SigCheck.verdict ⟨item.dropLast, key, env.digest⟩ = .decided valid) :
    ∃ t, checkSignature env item key s = .ok valid t := by
  obtain ⟨cache, -, hcheck⟩ := checkSignature_of_decided hs hitem hv
  exact ⟨_, hcheck⟩

/-! ## Searches for keys -/

/-- The search for keys, with checks that only answer. -/
def scan (check : Bytes → Bytes → Bool) : (keys items : List Bytes) → Bool
  | _, [] => true
  | [], _ :: _ => false
  | key :: keys, item :: items =>
    if item.isEmpty ∨ keys.length < items.length then false
    else if check key item then scan check keys items
    else scan check keys (item :: items)

/-- The search tries the keys in order and never needs to go back: a key that verifies the next
signature can stand for any later one that does. -/
theorem scan_eq_true_iff {check : Bytes → Bytes → Bool} (hempty : ∀ key, check key [] = false)
    {keys items : List Bytes} : scan check keys items = true ↔
      ∃ chosen, chosen.Sublist keys ∧ List.Forall₂ (fun key item => check key item = true)
        chosen items := by
  induction keys generalizing items with
  | nil =>
    cases items with
    | nil => exact ⟨fun _ => ⟨[], List.Sublist.refl [], .nil⟩, fun _ => rfl⟩
    | cons item items =>
      refine ⟨fun h => Bool.noConfusion h, ?_⟩
      rintro ⟨chosen, hsub, hchosen⟩
      rw [List.sublist_nil.mp hsub] at hchosen
      cases hchosen
  | cons key keys ih =>
    cases items with
    | nil => exact ⟨fun _ => ⟨[], List.nil_sublist _, .nil⟩, fun _ => rfl⟩
    | cons item items =>
      unfold scan
      by_cases hstop : item.isEmpty ∨ keys.length < items.length
      · -- An empty signature matches no key, and more signatures than keys match no list of them.
        rw [if_pos hstop]
        refine ⟨fun h => Bool.noConfusion h, ?_⟩
        rintro ⟨chosen, hsub, hchosen⟩
        have hlen := hsub.length_le
        rw [hchosen.length_eq, List.length_cons, List.length_cons] at hlen
        obtain ⟨c, cs, hc, -, rfl⟩ := List.forall₂_cons_right_iff.mp hchosen
        rcases hstop with hitem | hmore
        · rw [List.isEmpty_iff.mp hitem, hempty] at hc
          cases hc
        · omega
      · rw [if_neg hstop]
        cases hcheck : check key item with
        | true =>
          rw [if_pos rfl, ih]
          constructor
          · rintro ⟨chosen, hsub, hchosen⟩
            exact ⟨key :: chosen, hsub.cons_cons key, .cons hcheck hchosen⟩
          · rintro ⟨chosen, hsub, hchosen⟩
            obtain ⟨c, cs, -, hcs, rfl⟩ := List.forall₂_cons_right_iff.mp hchosen
            exact ⟨cs, hsub.tail, hcs⟩
        | false =>
          rw [if_neg Bool.false_ne_true, ih]
          constructor
          · rintro ⟨chosen, hsub, hchosen⟩
            exact ⟨chosen, hsub.cons key, hchosen⟩
          · rintro ⟨chosen, hsub, hchosen⟩
            obtain ⟨c, cs, hc, hcs, rfl⟩ := List.forall₂_cons_right_iff.mp hchosen
            rcases List.cons_sublist_cons'.mp hsub with h | ⟨rfl, -⟩
            · exact ⟨c :: cs, h, hchosen⟩
            · rw [hcheck] at hc
              cases hc

/-- A search that returns has found out whether there is an assignment. -/
theorem matchKeys_eq_ok {valid : Bool} (keys : List Bytes) : ∀ (items : List Bytes) {s : State},
    SigCache.Sound s.cache → matchKeys (checkSignature env) keys items s = .ok valid s' →
      valid = scan (accepts env.digest) keys items := by
  induction keys with
  | nil =>
    intro items s _ h
    cases items <;> cases h <;> rfl
  | cons key keys ih =>
    intro items s hs h
    cases items with
    | nil =>
      cases h
      rfl
    | cons item items =>
      unfold matchKeys at h
      unfold scan
      by_cases hstop : item.isEmpty ∨ keys.length < items.length
      · rw [if_pos hstop] at h ⊢
        cases h
        rfl
      · rw [if_neg hstop] at h ⊢
        obtain ⟨found, t, hcheck, hrest⟩ := bind_eq_ok.mp h
        have ht := (checkSignature_checkFrame item key hcheck).sound hs
        rw [← checkSignature_eq_ok hs hcheck]
        cases found with
        | false => exact ih (item :: items) ht hrest
        | true => exact ih items ht hrest

/-- A search returns if all its checks do. -/
theorem exists_matchKeys_of_checks (keys : List Bytes) : ∀ (items : List Bytes) {s : State},
    SigCache.Sound s.cache →
      (∀ key ∈ keys, ∀ item ∈ items, ∀ u : State, SigCache.Sound u.cache →
        ∃ valid t, checkSignature env item key u = .ok valid t) →
      ∃ valid t, matchKeys (checkSignature env) keys items s = .ok valid t := by
  induction keys with
  | nil =>
    intro items s _ _
    cases items <;> exact ⟨_, s, rfl⟩
  | cons key keys ih =>
    intro items s hs hchecks
    cases items with
    | nil => exact ⟨true, s, rfl⟩
    | cons item items =>
      unfold matchKeys
      by_cases hstop : item.isEmpty ∨ keys.length < items.length
      · rw [if_pos hstop]
        exact ⟨false, s, rfl⟩
      · rw [if_neg hstop]
        obtain ⟨found, t, hcheck⟩ := hchecks key List.mem_cons_self item List.mem_cons_self s hs
        have ht := (checkSignature_checkFrame item key hcheck).sound hs
        have hkeys := fun k (hk : k ∈ keys) => hchecks k (List.mem_cons_of_mem _ hk)
        rw [bind_of_eq_ok hcheck]
        cases found with
        | false => exact ih (item :: items) ht hkeys
        | true => exact ih items ht fun k hk i hi => hkeys k hk i (List.mem_cons_of_mem _ hi)

theorem scan_accepts_iff {z : ℕ} {keys items : List Bytes} : scan (accepts z) keys items = true ↔
    ∃ chosen, chosen.Sublist keys ∧ List.Forall₂ (SignedBy z) chosen items := by
  simp only [scan_eq_true_iff (accepts_nil z), accepts_eq_true]

theorem matchKeys_eq_true (keys : List Bytes) (items : List Bytes) {s : State}
    (hs : SigCache.Sound s.cache)
    (h : matchKeys (checkSignature env) keys items s = .ok true s') :
    ∃ chosen, chosen.Sublist keys ∧ List.Forall₂ (SignedBy env.digest) chosen items :=
  scan_accepts_iff.mp (matchKeys_eq_ok keys items hs h).symm

/-- Where all signatures and keys are readable, the search finds the keys if there are some. -/
theorem exists_matchKeys (keys items chosen : List Bytes) {s : State} (hs : SigCache.Sound s.cache)
    (hsub : chosen.Sublist keys) (hsigned : List.Forall₂ (SignedBy env.digest) chosen items)
    (hverdicts : ∀ key ∈ keys, ∀ item ∈ items, ∃ valid,
      SigCheck.verdict ⟨item.dropLast, key, env.digest⟩ = .decided valid) :
    ∃ t, matchKeys (checkSignature env) keys items s = .ok true t := by
  obtain ⟨valid, t, hmatch⟩ := exists_matchKeys_of_checks keys items hs
    fun key hkey item hitem u hu => by
      obtain ⟨valid, hv⟩ := hverdicts key hkey item hitem
      by_cases hne : item = []
      · subst hne
        exact ⟨false, u, rfl⟩
      · exact ⟨valid, exists_checkSignature hu hne hv⟩
  rw [matchKeys_eq_ok keys items hs hmatch, scan_accepts_iff.mpr ⟨chosen, hsub, hsigned⟩] at hmatch
  exact ⟨t, hmatch⟩

end Engine

end SpendScript
