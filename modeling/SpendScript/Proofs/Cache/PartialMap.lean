import Mathlib.Data.List.Induction
import Mathlib.Data.List.Nodup
import Mathlib.Logic.Function.Basic
import SpendScript.Proofs.Cache

/-!
# Bounded caches are partial maps

In a cache the keys of the entries differ, so an entry is what is found for its key, and the order
of the entries, which changes when one is removed, does not show.

* `Cache.Call`, `Cache.after`: what is done with a cache, and the cache that calls lead to.

Results:
* `Cache.WellFormed`: the keys differ and the entries are not more than there may be.
* `Cache.WellFormed.insert`: an insertion keeps this.
* `Cache.get?_insert_fits`, `Cache.exists_victim`: what is found after an insertion.
* `Cache.Follows.serve`, `Cache.follows_after`: what a call keeps, and so all calls.
* `Cache.boundedMap`: the cache after any calls and any evictions, and one more insertion.
-/

namespace SpendScript.Cache

variable {κ ν : Type} [DecidableEq κ] {c : Cache κ ν} {k key : κ} {v old : ν}
  {es kept : List (κ × ν)}

/-! ## Lookups -/

theorem lookup_cons_eq (es : List (κ × ν)) (e : κ × ν) (key : κ) :
    (e :: es).lookup key = if key = e.1 then some e.2 else es.lookup key := by
  rw [List.lookup_cons]
  by_cases h : key = e.1
  · rw [if_pos h, beq_iff_eq.mpr h]
  · rw [if_neg h, beq_false_of_ne h]

theorem lookup_eq_some (h : (es.map Prod.fst).Nodup) : es.lookup key = some v ↔ (key, v) ∈ es := by
  refine ⟨mem_of_lookup, fun hmem => ?_⟩
  induction es with
  | nil => cases hmem
  | cons e es ih =>
    obtain ⟨hkey, hrest⟩ := List.nodup_cons.mp h
    rw [lookup_cons_eq]
    rcases List.mem_cons.mp hmem with rfl | hmem
    · exact if_pos rfl
    · have hother : key ∈ es.map Prod.fst := List.mem_map.mpr ⟨(key, v), hmem, rfl⟩
      rw [if_neg fun heq : key = e.1 => hkey (heq ▸ hother)]
      exact ih hrest hmem

/-- The order of entries with different keys does not show. -/
theorem lookup_perm (h : (es.map Prod.fst).Nodup) (hperm : es.Perm kept) (key : κ) :
    es.lookup key = kept.lookup key := by
  apply Option.ext
  intro v
  rw [lookup_eq_some h, lookup_eq_some ((hperm.map _).nodup_iff.mp h)]
  exact hperm.mem_iff

theorem map_replace (k : κ) (v : ν) (es : List (κ × ν)) :
    (replace k v es).map Prod.fst = es.map Prod.fst := by
  induction es with
  | nil => rfl
  | cons e es ih =>
    unfold replace
    split_ifs with hk
    · rw [List.map_cons, List.map_cons, hk]
    · rw [List.map_cons, List.map_cons, ih]

theorem lookup_replace (h : k ∈ es.map Prod.fst) (key : κ) :
    (replace k v es).lookup key = if key = k then some v else es.lookup key := by
  induction es with
  | nil => cases h
  | cons e es ih =>
    unfold replace
    rw [lookup_cons_eq es]
    by_cases hk : e.1 = k
    · rw [if_pos hk, lookup_cons_eq, hk]
      split_ifs <;> rfl
    · have hrest : k ∈ es.map Prod.fst := (List.mem_cons.mp h).resolve_left (Ne.symm hk)
      rw [if_neg hk, lookup_cons_eq, ih hrest]
      by_cases hkey : key = k
      · rw [if_pos hkey, if_pos hkey, if_neg (hkey ▸ Ne.symm hk)]
      · rw [if_neg hkey, if_neg hkey]

/-- An entry at the end is found if its key is new. -/
theorem lookup_concat (h : k ∉ es.map Prod.fst) (key : κ) :
    (es ++ [(k, v)]).lookup key = if key = k then some v else es.lookup key := by
  rw [List.lookup_append, lookup_cons_eq]
  split_ifs with hkey
  · rw [hkey, lookup_eq_none.mpr h]
    rfl
  · exact Option.or_none

/-- Without an entry, nothing is found for its key. -/
theorem lookup_of_perm_cons (h : (es.map Prod.fst).Nodup) {e : κ × ν} (hperm : es.Perm (e :: kept))
    (key : κ) : kept.lookup key = if key = e.1 then none else es.lookup key := by
  have hnodup : ((e :: kept).map Prod.fst).Nodup := (hperm.map _).nodup_iff.mp h
  rw [lookup_perm h hperm, lookup_cons_eq]
  split_ifs with hkey
  · rw [hkey]
    exact lookup_eq_none.mpr (List.nodup_cons.mp hnodup).1
  · rfl

/-! ## Insertions -/

/-- The keys differ and the entries are not more than there may be. -/
structure WellFormed (c : Cache κ ν) : Prop where
  nodup : c.keys.Nodup
  size_le : c.size ≤ c.capacity

theorem capacity_insert (c : Cache κ ν) (k : κ) (v : ν) : (c.insert k v).capacity = c.capacity := by
  unfold insert
  split_ifs <;> rfl

theorem picks_insert (c : Cache κ ν) (k : κ) (v : ν) : (c.insert k v).picks = c.picks := by
  unfold insert
  split_ifs <;> rfl

omit [DecidableEq κ] in
theorem nodup_concat (h : (es.map Prod.fst).Nodup) (hk : k ∉ es.map Prod.fst) (v : ν) :
    ((es ++ [(k, v)]).map Prod.fst).Nodup := by
  rw [List.map_append]
  exact h.append (List.nodup_singleton k) (List.disjoint_singleton.mpr hk)

omit [DecidableEq κ] in
/-- The entries that are kept have keys of their own, which the new one does not. -/
theorem WellFormed.nodup_kept {e : κ × ν} (h : c.WellFormed) (hk : k ∉ c.keys)
    (hkept : c.entries.Perm (e :: kept)) : (kept.map Prod.fst).Nodup ∧ k ∉ kept.map Prod.fst := by
  have hkeys : c.keys.Perm (e.1 :: kept.map Prod.fst) := hkept.map Prod.fst
  exact ⟨(List.nodup_cons.mp (hkeys.nodup_iff.mp h.nodup)).2,
    fun hmem => hk (hkeys.mem_iff.mpr (List.mem_cons_of_mem _ hmem))⟩

theorem WellFormed.insert (h : c.WellFormed) (k : κ) (v : ν) : (c.insert k v).WellFormed := by
  suffices hes : ∀ es, Insertion c k v es → (es.map Prod.fst).Nodup ∧ es.length ≤ c.capacity by
    obtain ⟨hnodup, hsize⟩ := hes _ (insertion c k v)
    exact ⟨hnodup, capacity_insert c k v ▸ hsize⟩
  intro es hes
  cases hes with
  | refused _ => exact ⟨h.nodup, h.size_le⟩
  | replaced _ =>
    refine ⟨(map_replace k v c.entries).symm ▸ h.nodup, ?_⟩
    rw [← List.length_map Prod.fst, map_replace, List.length_map]
    exact h.size_le
  | added hk hroom =>
    refine ⟨nodup_concat h.nodup hk v, ?_⟩
    rw [List.length_append]
    exact hroom
  | evicted hk _ _ hkept =>
    obtain ⟨hnodup, hk⟩ := h.nodup_kept hk hkept
    refine ⟨nodup_concat hnodup hk v, ?_⟩
    rw [List.length_append, List.length_singleton, ← List.length_cons, ← hkept.length_eq]
    exact h.size_le

/-! ### What is found -/

/-- Where nothing has to go, the value is set and nothing else changes. -/
theorem get?_insert_fits (hcapacity : 0 < c.capacity)
    (hfits : c.contains k = true ∨ c.size < c.capacity) (v : ν) :
    (c.insert k v).get? = Function.update c.get? k (some v) := by
  funext key
  have hes := insertion c k v
  rw [Function.update_apply, get?]
  generalize (c.insert k v).entries = es at hes ⊢
  cases hes with
  | refused hzero => exact absurd hzero (Nat.ne_of_gt hcapacity)
  | replaced hk => exact lookup_replace hk key
  | added hk _ => exact lookup_concat hk key
  | evicted hk hfull =>
    rcases hfits with hcontains | hroom
    · exact absurd (contains_iff.mp hcontains) hk
    · exact absurd hroom (Nat.not_lt.mpr hfull)

/-- Into a full cache, the value comes in place of that of one other key. -/
theorem exists_victim (h : c.WellFormed) (hcapacity : 0 < c.capacity) (hnew : c.contains k = false)
    (hfull : c.capacity ≤ c.size) (v : ν) :
    ∃ victim old, c.entries[c.picks c.evictions % c.size]? = some (victim, old) ∧ victim ≠ k ∧
      (c.insert k v).get? = Function.update (Function.update c.get? victim none) k (some v) := by
  have hes := insertion c k v
  unfold get?
  generalize (c.insert k v).entries = es at hes ⊢
  cases hes with
  | refused hzero => exact absurd hzero (Nat.ne_of_gt hcapacity)
  | replaced hk => exact absurd (contains_iff.mpr hk) (Bool.eq_false_iff.mp hnew)
  | added _ hroom => exact absurd hroom (Nat.not_lt.mpr hfull)
  | @evicted victim kept hk _ hvictim hkept =>
    refine ⟨victim.1, victim.2, hvictim, ?_, funext fun key => ?_⟩
    · rintro rfl
      exact hk (List.mem_map_of_mem (List.mem_of_getElem? hvictim))
    · rw [lookup_concat (h.nodup_kept hk hkept).2, lookup_of_perm_cons h.nodup hkept,
        Function.update_apply, Function.update_apply]

/-- The value is set, and what else is found was found before. -/
theorem exists_found (h : c.WellFormed) (hcapacity : 0 < c.capacity) (k : κ) (v : ν) :
    ∃ found : κ → Option ν, (c.insert k v).get? = Function.update found k (some v) ∧
      ∀ key old, found key = some old → c.get? key = some old := by
  by_cases hfits : c.contains k = true ∨ c.size < c.capacity
  · exact ⟨c.get?, get?_insert_fits hcapacity hfits v, fun _ _ => id⟩
  · rw [not_or, Bool.not_eq_true, Nat.not_lt] at hfits
    obtain ⟨victim, _, -, -, hget⟩ := exists_victim h hcapacity hfits.1 hfits.2 v
    refine ⟨_, hget, fun key old hold => ?_⟩
    rw [Function.update_apply] at hold
    split_ifs at hold
    exact hold

theorem get?_insert_self (h : c.WellFormed) (hcapacity : 0 < c.capacity) (k : κ) (v : ν) :
    (c.insert k v).get? k = some v := by
  obtain ⟨found, hget, -⟩ := exists_found h hcapacity k v
  rw [hget, Function.update_self]

omit [DecidableEq κ] in
theorem WellFormed.entries_eq_nil (h : c.WellFormed) (hzero : c.capacity = 0) : c.entries = [] :=
  List.length_eq_zero_iff.mp (Nat.le_zero.mp (hzero ▸ h.size_le))

/-- A value that is found after an insertion is the inserted one or was found before. -/
theorem get?_of_insert (h : c.WellFormed) (hold : (c.insert k v).get? key = some old) :
    (k = key ∧ v = old) ∨ (k ≠ key ∧ c.get? key = some old) := by
  rcases Nat.eq_zero_or_pos c.capacity with hzero | hcapacity
  · rw [insert, if_pos hzero, get?, h.entries_eq_nil hzero] at hold
    cases hold
  · obtain ⟨found, hget, hbefore⟩ := exists_found h hcapacity k v
    rw [hget, Function.update_apply] at hold
    split_ifs at hold with hkey
    · exact .inl ⟨hkey.symm, Option.some.inj hold⟩
    · exact .inr ⟨Ne.symm hkey, hbefore key old hold⟩

/-! ## Calls -/

/-- What is done with a cache. -/
inductive Call (κ ν : Type) where
  | insert (k : κ) (v : ν)
  | get (k : κ)

/-- The cache after a call. -/
def serve (c : Cache κ ν) : Call κ ν → Cache κ ν
  | .insert k v => c.insert k v
  | .get _ => c

/-- The cache that calls lead to from an empty one. -/
def after (capacity : ℕ) (picks : ℕ → ℕ) (calls : List (Call κ ν)) : Cache κ ν :=
  calls.foldl serve (empty capacity picks)

/-- The value that a call gives to a key. -/
def Call.value? (key : κ) : Call κ ν → Option ν
  | .insert k v => if k = key then some v else none
  | .get _ => none

/-- The value of the last insertion of a key. -/
def lastInserted (calls : List (Call κ ν)) (key : κ) : Option ν :=
  calls.reverse.findSome? (Call.value? key)

variable {capacity : ℕ} {picks : ℕ → ℕ} {calls : List (Call κ ν)}

theorem lastInserted_concat (calls : List (Call κ ν)) (call : Call κ ν) (key : κ) :
    lastInserted (calls ++ [call]) key = (call.value? key).or (lastInserted calls key) := by
  rw [lastInserted, List.reverse_concat, List.findSome?_cons]
  cases call.value? key <;> rfl

/-- A cache with these bounds and victims, in which nothing but the last value of a key is found. -/
structure Follows (capacity : ℕ) (picks : ℕ → ℕ) (calls : List (Call κ ν)) (c : Cache κ ν) :
    Prop where
  capacity_eq : c.capacity = capacity
  picks_eq : c.picks = picks
  wellFormed : c.WellFormed
  last : ∀ key v, c.get? key = some v → lastInserted calls key = some v

theorem follows_empty (capacity : ℕ) (picks : ℕ → ℕ) :
    Follows capacity picks [] (empty capacity picks : Cache κ ν) where
  capacity_eq := rfl
  picks_eq := rfl
  wellFormed := ⟨.nil, Nat.zero_le _⟩
  last _ _ h := by cases h

theorem Follows.serve (h : Follows capacity picks calls c) (call : Call κ ν) :
    Follows capacity picks (calls ++ [call]) (c.serve call) := by
  cases call with
  | get k =>
    refine ⟨h.capacity_eq, h.picks_eq, h.wellFormed, fun key v hget => ?_⟩
    rw [lastInserted_concat]
    exact h.last key v hget
  | insert k v =>
    refine ⟨(capacity_insert c k v).trans h.capacity_eq, (picks_insert c k v).trans h.picks_eq,
      h.wellFormed.insert k v, fun key old hget => ?_⟩
    rw [lastInserted_concat, Call.value?]
    rcases get?_of_insert h.wellFormed hget with ⟨hkey, rfl⟩ | ⟨hkey, hbefore⟩
    · rw [if_pos hkey]
      rfl
    · rw [if_neg hkey]
      exact h.last key old hbefore

theorem follows_after (capacity : ℕ) (picks : ℕ → ℕ) (calls : List (Call κ ν)) :
    Follows capacity picks calls (after capacity picks calls) := by
  induction calls using List.reverseRecOn with
  | nil => exact follows_empty capacity picks
  | append_singleton calls call ih =>
    rw [after, List.foldl_concat]
    exact ih.serve call

/-- After any calls, and whatever entries were evicted, a cache is a map with a bound: each key has
at most one entry, and nothing but the last inserted value is found for it. If it may have entries,
an inserted value is found, and all else that is found stays, unless the cache is full and the key
new; then one other entry, the picked one, is gone and the rest stays. -/
theorem boundedMap (capacity : ℕ) (picks : ℕ → ℕ) (calls : List (Call κ ν)) {c : Cache κ ν}
    (hc : c = after capacity picks calls) :
    c.size ≤ capacity ∧ c.keys.Nodup ∧
      (∀ key, c.get? key = none ∨ c.get? key = lastInserted calls key) ∧
      (capacity = 0 → c.entries = []) ∧
      (0 < capacity → ∀ k v,
        (c.insert k v).get? k = some v ∧
        (c.contains k = true ∨ c.size < capacity →
          (c.insert k v).get? = Function.update c.get? k (some v)) ∧
        (c.contains k = false → c.size = capacity →
          ∃ victim old, c.entries[picks c.evictions % capacity]? = some (victim, old) ∧
            victim ≠ k ∧ (c.insert k v).get? =
              Function.update (Function.update c.get? victim none) k (some v))) := by
  have h : Follows capacity picks calls c := hc ▸ follows_after capacity picks calls
  clear hc
  obtain ⟨rfl, rfl, hwellFormed, hlast⟩ := h
  refine ⟨hwellFormed.size_le, hwellFormed.nodup, fun key => ?_, hwellFormed.entries_eq_nil,
    fun hcapacity k v => ⟨get?_insert_self hwellFormed hcapacity k v,
      fun hfits => get?_insert_fits hcapacity hfits v, fun hnew hfull => ?_⟩⟩
  · cases hget : c.get? key with
    | none => exact .inl rfl
    | some v => exact .inr (hlast key v hget).symm
  · obtain ⟨victim, old, hvictim, hne, hget⟩ := exists_victim hwellFormed hcapacity hnew
      (Nat.le_of_eq hfull.symm) v
    exact ⟨victim, old, hfull ▸ hvictim, hne, hget⟩

/-- Two keys, one of them given a second value. -/
def twoKeys : List (Call ℕ ℕ) :=
  [.insert 1 10, .insert 2 20, .get 1, .insert 1 11]

/-- A cache full of two keys, in which the pick for a third one falls on the second entry. -/
theorem boundedMap_twoKeys :
    (after 2 (· + 1) twoKeys).contains 3 = false ∧ (after 2 (· + 1) twoKeys).size = 2 ∧
      (after 2 (· + 1) twoKeys).get? 1 = lastInserted twoKeys 1 ∧
      ((after 2 (· + 1) twoKeys).insert 3 30).get? =
        Function.update (Function.update (after 2 (· + 1) twoKeys).get? 2 none) 3 (some 30) := by
  obtain ⟨-, -, hlast, -, hinsert⟩ := boundedMap 2 (· + 1) twoKeys rfl
  have hnew : (after 2 (· + 1) twoKeys).contains 3 = false := by decide
  have hfull : (after 2 (· + 1) twoKeys).size = 2 := by decide
  obtain ⟨victim, old, hvictim, -, hget⟩ := (hinsert (by decide) 3 30).2.2 hnew hfull
  obtain ⟨rfl, rfl⟩ : (2, 20) = (victim, old) := Option.some.inj hvictim
  exact ⟨hnew, hfull, (hlast 1).resolve_left (by decide), hget⟩

end SpendScript.Cache
