import Mathlib.Algebra.BigOperators.Group.Finset.Basic

/-!
# Ordered tables built from lists

A list of items is indexed by a key, or a table is filled from a list of keys. A later entry
replaces an earlier one with the same key. What a lookup returns, how many entries there are and
what a sum over the table is depend on the list only as a set once its keys are distinct.
-/

namespace Zkpi.IndexedTables

open Std List

variable {K A M : Type} [Ord K]

def indexBy (key : A → K) (items : List A) : TreeMap K A :=
  .ofList (items.map fun item => (key item, item))

def tabulate (keys : List K) (value : K → A) : TreeMap K A :=
  .ofList (keys.map fun k => (k, value k))

section Lookups

variable [TransOrd K]

variable {k : K}

theorem getElem?_eq_getElem! [Inhabited A] {table : TreeMap K A} (h : k ∈ table) :
    table[k]? = some table[k]! := by
  obtain ⟨a, ha⟩ := Option.isSome_iff_exists.mp (TreeMap.mem_iff_isSome_getElem?.mp h)
  rw [TreeMap.getElem!_eq_get!_getElem?, ha]
  rfl

variable [LawfulEqOrd K]

theorem mem_of_getElem?_ofList (h : (TreeMap.ofList entries compare)[k]? = some a) :
    (k, a) ∈ entries := by
  induction entries using reverseRecOn with
  | nil => simp at h
  | append_singleton earlier last ih =>
    obtain ⟨_, _⟩ := last
    rw [TreeMap.ofList_eq_insertMany_empty, TreeMap.insertMany_append,
      TreeMap.insertMany_list_singleton, TreeMap.getElem?_insert] at h
    split_ifs at h with hkey
    · obtain rfl := LawfulEqOrd.eq_of_compare hkey
      cases h
      exact mem_append_right _ (mem_singleton.mpr rfl)
    · rw [← TreeMap.ofList_eq_insertMany_empty] at h
      exact mem_append_left _ (ih h)

variable [DecidableEq K]

theorem mem_ofList_iff : k ∈ TreeMap.ofList entries compare ↔ ∃ a, (k, a) ∈ entries := by
  rw [TreeMap.mem_ofList, contains_iff_mem, mem_map]
  constructor
  · rintro ⟨⟨_, a⟩, hmem, rfl⟩
    exact ⟨a, hmem⟩
  · rintro ⟨a, hmem⟩
    exact ⟨(k, a), hmem, rfl⟩

variable {key : A → K} {items : List A}

theorem mem_indexBy : k ∈ indexBy key items ↔ ∃ item ∈ items, key item = k := by
  simp only [indexBy, mem_ofList_iff, mem_map, Prod.mk.injEq]
  constructor
  · rintro ⟨_, item, hmem, hkey, _⟩
    exact ⟨item, hmem, hkey⟩
  · rintro ⟨item, hmem, hkey⟩
    exact ⟨item, item, hmem, hkey, rfl⟩

variable {keys : List K} {value : K → A}

theorem mem_tabulate : k ∈ tabulate keys value ↔ k ∈ keys := by
  simp only [tabulate, mem_ofList_iff, mem_map, Prod.mk.injEq]
  constructor
  · rintro ⟨_, _, hmem, rfl, _⟩
    exact hmem
  · intro hmem
    exact ⟨value k, k, hmem, rfl, rfl⟩

omit [DecidableEq K] in
theorem indexBy_getElem! [Inhabited A] (h : k ∈ indexBy key items) :
    (indexBy key items)[k]! ∈ items ∧ key (indexBy key items)[k]! = k := by
  obtain ⟨_, hmem, hentry⟩ := mem_map.mp (mem_of_getElem?_ofList (getElem?_eq_getElem! h))
  obtain ⟨hkey, hitem⟩ := Prod.mk.inj hentry
  rw [hitem] at hmem hkey
  exact ⟨hmem, hkey⟩

theorem tabulate_getElem! [Inhabited A] (h : k ∈ keys) : (tabulate keys value)[k]! = value k := by
  have hfound := getElem?_eq_getElem! (mem_tabulate.mpr h : k ∈ tabulate keys value)
  obtain ⟨_, _, hentry⟩ := mem_map.mp (mem_of_getElem?_ofList hfound)
  obtain ⟨rfl, hvalue⟩ := Prod.mk.inj hentry
  exact hvalue.symm

theorem size_indexBy :
    (indexBy key items).size = (items.map key).toFinset.card := by
  rw [← TreeMap.length_keys, ← toFinset_card_of_nodup TreeMap.nodup_keys]
  congr 1
  ext k
  simp [TreeMap.mem_keys, mem_indexBy]

end Lookups

/-! ## Tables of groups -/

def groups (entries : List (K × A)) : TreeMap K (List A) :=
  entries.foldl (fun table entry => table.insert entry.1 (table.getD entry.1 [] ++ [entry.2])) ∅

theorem groups_concat (entries : List (K × A)) (entry : K × A) :
    groups (entries ++ [entry]) =
      (groups entries).insert entry.1 ((groups entries).getD entry.1 [] ++ [entry.2]) := by
  simp [groups]

theorem group_ne_nil [TransOrd K] {entries : List (K × A)} {k : K} {group : List A}
    (h : (groups entries)[k]? = some group) : group ≠ [] := by
  induction entries using reverseRecOn generalizing group with
  | nil => simp [groups] at h
  | append_singleton earlier last ih =>
    rw [groups_concat, TreeMap.getElem?_insert] at h
    split at h
    · cases h
      simp
    · exact ih h

section Groups

variable [TransOrd K] [LawfulEqOrd K] [DecidableEq K]

theorem getD_groups (entries : List (K × A)) (k : K) :
    (groups entries).getD k [] = (entries.filter (·.1 = k)).map Prod.snd := by
  induction entries using reverseRecOn with
  | nil => simp [groups]
  | append_singleton earlier last ih =>
    rw [groups_concat, TreeMap.getD_insert, filter_append, map_append, ← ih]
    by_cases hkey : last.1 = k
    · simp [hkey]
    · have hcompare : compare last.1 k ≠ .eq := fun h => hkey (LawfulEqOrd.eq_of_compare h)
      simp [hkey, hcompare]

theorem getElem?_groups {entries : List (K × A)} {k : K} {group : List A}
    (h : (groups entries)[k]? = some group) :
    group = (entries.filter (·.1 = k)).map Prod.snd := by
  rw [← getD_groups, TreeMap.getD_eq_getD_getElem?, h, Option.getD_some]

end Groups

/-! ## Tables that match a list of keys -/

def Covers [TransOrd K] (table : TreeMap K A) (keys : List K) : Prop :=
  table.size = keys.length ∧ ∀ k ∈ keys, k ∈ table

section Covers

variable [TransOrd K]

instance (table : TreeMap K A) (keys : List K) : Decidable (Covers table keys) :=
  inferInstanceAs (Decidable (_ ∧ _))

variable [LawfulEqOrd K] [DecidableEq K]

theorem covers_indexBy {key : A → K} {keys : List K} (hnodup : keys.Nodup)
    (h : ∀ k, (∃ item ∈ items, key item = k) ↔ k ∈ keys) : Covers (indexBy key items) keys := by
  refine ⟨?_, fun k hk => mem_indexBy.mpr ((h k).mpr hk)⟩
  rw [size_indexBy, ← toFinset_card_of_nodup hnodup]
  congr 1
  ext k
  simp [h]

variable {key : A → K} {items : List A} {keys : List K}

omit [Ord K] [TransOrd K] [LawfulEqOrd K] [DecidableEq K] in
theorem keys_of_perm (hperm : items.Perm (keys.map item)) (hkey : ∀ k ∈ keys, key (item k) = k)
    (k : K) : (∃ found ∈ items, key found = k) ↔ k ∈ keys := by
  simp only [hperm.mem_iff, mem_map]
  constructor
  · rintro ⟨_, ⟨k', hk', rfl⟩, rfl⟩
    rwa [hkey k' hk']
  · intro hk
    exact ⟨item k, ⟨k, hk, rfl⟩, hkey k hk⟩

theorem getElem!_of_perm [Inhabited A] (hperm : items.Perm (keys.map item))
    (hkey : ∀ k ∈ keys, key (item k) = k) (hk : k ∈ keys) : (indexBy key items)[k]! = item k := by
  obtain ⟨hmem, heq⟩ :=
    indexBy_getElem! (mem_indexBy.mpr ((keys_of_perm hperm hkey k).mpr hk))
  obtain ⟨k', hk', hitem⟩ := mem_map.mp (hperm.mem_iff.mp hmem)
  rw [← hitem, hkey k' hk'] at heq
  rw [← hitem, heq]

end Covers

/-! ## Sums over tables -/

section Sums

variable [TransOrd K] [LawfulEqOrd K] [DecidableEq K] [AddCommMonoid M]

variable {keys : List K}

omit [Ord K] [TransOrd K] [LawfulEqOrd K] in
theorem foldl_add_eq_sum (hnodup : keys.Nodup) (term : K → M) :
    keys.foldl (fun sum k => sum + term k) 0 = ∑ k ∈ keys.toFinset, term k := by
  rw [sum_toFinset _ hnodup, sum_eq_foldl, foldl_map]

theorem foldl_tabulate (hnodup : keys.Nodup) (value : K → A) (term : K → A → M) :
    (tabulate keys value).foldl (fun sum k a => sum + term k a) 0 =
      ∑ k ∈ keys.toFinset, term k (value k) := by
  have hlist : (tabulate keys value).toList.Perm (keys.map fun k => (k, value k)) := by
    refine (perm_ext_iff_of_nodup ?_ ?_).mpr fun entry => ?_
    · exact List.Nodup.of_map Prod.fst (TreeMap.map_fst_toList_eq_keys ▸ TreeMap.nodup_keys)
    · exact hnodup.map fun _ _ h => (Prod.mk.inj h).1
    · obtain ⟨k, a⟩ := entry
      rw [TreeMap.mem_toList_iff_getElem?_eq_some]
      refine ⟨mem_of_getElem?_ofList, fun hmem => ?_⟩
      obtain ⟨k', hk, hentry⟩ := mem_map.mp hmem
      obtain ⟨rfl, rfl⟩ := Prod.mk.inj hentry
      have : Inhabited A := ⟨value k'⟩
      rw [getElem?_eq_getElem! (mem_tabulate.mpr hk), tabulate_getElem! hk]
  rw [TreeMap.foldl_eq_foldl_toList, sum_toFinset _ hnodup]
  have hsum := (hlist.map fun entry => term entry.1 entry.2).sum_eq
  rw [map_map, sum_eq_foldl, foldl_map] at hsum
  exact hsum

end Sums

end Zkpi.IndexedTables
