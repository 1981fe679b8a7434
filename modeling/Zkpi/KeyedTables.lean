import Mathlib.Data.Finmap
import Mathlib.Algebra.BigOperators.Group.Finset.Basic

/-!
# Keyed tables

Ordered and hashed maps of the sources are finite maps: only lookup,
insertion and removal are observable. Insertion and removal change one key
and no other, and a sum over all keys follows a change at one key exactly.
-/

namespace Zkpi.KeyedTables

/-- A finite map from keys to values. -/
abbrev Table (K V : Type) := Finmap fun _ : K => V

variable {K V : Type} [DecidableEq K]

variable (table : Table K V)

def size : ℕ := table.keys.card

theorem lookup_insert_ite (key key' : K) (value : V) : (table.insert key value).lookup key' =
      if key' = key then some value else table.lookup key' := by
  split_ifs with h
  · rw [h, Finmap.lookup_insert]
  · exact Finmap.lookup_insert_of_ne table h

section Found

variable {table}

theorem lookup_insert_some (h : (table.insert key value).lookup key' = some found) :
    key' = key ∧ found = value ∨ table.lookup key' = some found := by
  rw [lookup_insert_ite] at h
  split_ifs at h with hkey
  · exact .inl ⟨hkey, (Option.some.inj h).symm⟩
  · exact .inr h

theorem lookup_erase_some (h : (table.erase key).lookup key' = some found) :
    key' ≠ key ∧ table.lookup key' = some found := by
  have hkey : key' ≠ key := by
    rintro rfl
    cases (Finmap.lookup_erase key' table).symm.trans h
  exact ⟨hkey, (Finmap.lookup_erase_ne hkey).symm.trans h⟩

end Found

theorem sum_change_one {I : Type} [Fintype I] [DecidableEq I] {f g : I → ℕ} (i : I)
    (h : ∀ j, j ≠ i → g j = f j) : ∑ j, g j + f i = ∑ j, f j + g i := by
  have hrest : ∑ j ∈ Finset.univ.erase i, g j = ∑ j ∈ Finset.univ.erase i, f j :=
    Finset.sum_congr rfl fun j hj => h j (Finset.ne_of_mem_erase hj)
  rw [← Finset.add_sum_erase Finset.univ g (Finset.mem_univ i),
    ← Finset.add_sum_erase Finset.univ f (Finset.mem_univ i), hrest]
  omega

end Zkpi.KeyedTables
