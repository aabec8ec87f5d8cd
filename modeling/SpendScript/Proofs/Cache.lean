import Mathlib.Data.List.Perm.Basic
import SpendScript.Cache

/-!
# Entries of bounded caches

Results:
* `Cache.mem_of_get?`: a value that is found is the value of an entry.
* `Cache.perm_cons_swapRemove`: an eviction removes one item and keeps the others.
* `Cache.insertion`: an insertion is refused, replaces a value, adds an entry or evicts one for it.
* `Cache.mem_insert`: an insertion brings no entry but the inserted one.
-/

namespace SpendScript.Cache

variable {κ ν : Type} [DecidableEq κ] {c : Cache κ ν} {k : κ} {v : ν} {e : κ × ν}
  {es : List (κ × ν)}

/-! ## Lookups -/

theorem mem_of_lookup (h : es.lookup k = some v) : (k, v) ∈ es := by
  obtain ⟨before, after, rfl, -⟩ := List.lookup_eq_some_iff.mp h
  exact List.mem_append_right before List.mem_cons_self

theorem mem_of_get? (h : c.get? k = some v) : (k, v) ∈ c.entries :=
  mem_of_lookup h

theorem lookup_eq_none : es.lookup k = none ↔ k ∉ es.map Prod.fst := by
  simp only [List.lookup_eq_none_iff, bne_iff_ne, List.mem_map, not_exists, not_and]
  exact forall₂_congr fun _ _ => ne_comm

/-- The keys with an entry. -/
def keys (c : Cache κ ν) : List κ :=
  c.entries.map Prod.fst

theorem contains_iff : c.contains k = true ↔ k ∈ c.keys := by
  rw [contains, Option.isSome_iff_ne_none, ne_eq, get?, lookup_eq_none, not_not]
  rfl

/-! ## Insertions -/

/-- The items are the one that is removed and those that are kept. -/
theorem perm_cons_swapRemove {α : Type} {i : ℕ} {items : List α} {x : α} (h : items[i]? = some x) :
    items.Perm (x :: swapRemove i items) := by
  obtain ⟨hi, rfl⟩ := List.getElem?_eq_some_iff.mp h
  obtain ⟨init, last, rfl⟩ := (List.eq_nil_or_concat' items).resolve_left
    (List.ne_nil_of_length_pos (Nat.zero_lt_of_lt hi))
  rw [List.length_append, List.length_singleton] at hi
  rw [swapRemove, List.getLast?_concat]
  simp only
  rcases Nat.lt_or_eq_of_le (Nat.le_of_lt_succ hi) with hi | rfl
  · rw [List.set_append_left _ _ hi, List.dropLast_concat, List.getElem_append_left hi]
    calc (init ++ [last]).Perm (last :: init) := List.perm_append_singleton last init
      _ |>.Perm (last :: init[i] :: init.eraseIdx i) :=
        (List.getElem_cons_eraseIdx_perm hi).symm.cons last
      _ |>.Perm (init[i] :: last :: init.eraseIdx i) := .swap _ _ _
      _ |>.Perm (init[i] :: init.set i last) := (List.set_perm_cons_eraseIdx hi last).symm.cons _
  · rw [List.set_append_right _ _ (Nat.le_refl _), Nat.sub_self, List.set_cons_zero,
      List.dropLast_concat, List.getElem_concat_length rfl]
    exact List.perm_append_singleton last init

theorem mem_replace (h : e ∈ replace k v es) : e = (k, v) ∨ e ∈ es := by
  induction es with
  | nil => cases h
  | cons e' es ih =>
    unfold replace at h
    split_ifs at h with hk
    · rcases List.mem_cons.mp h with h | h
      · exact Or.inl h
      · exact Or.inr (List.mem_cons_of_mem _ h)
    · rcases List.mem_cons.mp h with h | h
      · exact Or.inr (h ▸ List.mem_cons_self)
      · exact (ih h).imp_right (List.mem_cons_of_mem _)

/-- What an insertion makes of the entries. -/
inductive Insertion (c : Cache κ ν) (k : κ) (v : ν) : List (κ × ν) → Prop
  | refused (hcapacity : c.capacity = 0) : Insertion c k v c.entries
  | replaced (hk : k ∈ c.keys) : Insertion c k v (replace k v c.entries)
  | added (hk : k ∉ c.keys) (hroom : c.size < c.capacity) : Insertion c k v (c.entries ++ [(k, v)])
  | evicted {victim : κ × ν} {kept : List (κ × ν)} (hk : k ∉ c.keys) (hfull : c.capacity ≤ c.size)
      (hvictim : c.entries[c.picks c.evictions % c.size]? = some victim)
      (hkept : c.entries.Perm (victim :: kept)) : Insertion c k v (kept ++ [(k, v)])

/-- A new key in a full cache has an entry to evict, unless no entry may be stored at all. -/
theorem insertion (c : Cache κ ν) (k : κ) (v : ν) : Insertion c k v (c.insert k v).entries := by
  unfold insert
  split_ifs with hcapacity hk hfull
  · exact .refused hcapacity
  · exact .replaced (contains_iff.mp hk)
  · have hpick : c.picks c.evictions % c.size < c.entries.length :=
      Nat.mod_lt _ (Nat.lt_of_lt_of_le (Nat.pos_of_ne_zero hcapacity) hfull)
    have hvictim := List.getElem?_eq_getElem hpick
    exact .evicted (fun hmem => hk (contains_iff.mpr hmem)) hfull hvictim
      (perm_cons_swapRemove hvictim)
  · exact .added (fun hmem => hk (contains_iff.mpr hmem)) (Nat.not_le.mp hfull)

theorem mem_insert (h : e ∈ (c.insert k v).entries) : e = (k, v) ∨ e ∈ c.entries := by
  have hes := insertion c k v
  generalize (c.insert k v).entries = es at hes h
  cases hes with
  | refused => exact .inr h
  | replaced => exact mem_replace h
  | added => exact (List.mem_append.mp h).symm.imp_left List.mem_singleton.mp
  | evicted _ _ _ hkept =>
    refine (List.mem_append.mp h).symm.imp List.mem_singleton.mp fun h => ?_
    exact hkept.mem_iff.mpr (List.mem_cons_of_mem _ h)

end SpendScript.Cache
