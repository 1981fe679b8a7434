import Mathlib.Data.UInt
import Mathlib.Data.Nat.Size

/-!
# Checked and saturating machine integers

The sources guard unsigned 64-bit arithmetic with checked and saturating
operations. Each operation is characterized by the exact natural numbers it
relates, so later arguments never mention wrapping.
-/

namespace Zkpi.CheckedIntegers

variable (a b : UInt64)

/-- Addition that fails instead of wrapping. -/
def checkedAdd : Option UInt64 :=
  if a.toNat + b.toNat < 2 ^ 64 then some (a + b) else none

/-- Subtraction that fails instead of wrapping. -/
def checkedSub : Option UInt64 :=
  if b.toNat ≤ a.toNat then some (a - b) else none

/-- Addition that stops at the largest value. -/
def saturatingAdd : UInt64 :=
  if a.toNat + b.toNat < 2 ^ 64 then a + b else UInt64.ofNat (2 ^ 64 - 1)

def leadingZeros (a : UInt64) : ℕ := 64 - Nat.size a.toNat

@[simp] theorem checkedAdd_eq_some {a b c : UInt64} :
    checkedAdd a b = some c ↔ c.toNat = a.toNat + b.toNat := by
  have hc := c.toNat_lt
  unfold checkedAdd
  split_ifs with h
  · have hsum : (a + b).toNat = a.toNat + b.toNat := by
      rw [UInt64.toNat_add, Nat.mod_eq_of_lt h]
    rw [Option.some.injEq, ← UInt64.toNat_inj, hsum]
    exact eq_comm
  · constructor
    · intro h
      cases h
    · intro h
      omega

@[simp] theorem checkedSub_eq_some {a b c : UInt64} :
    checkedSub a b = some c ↔ c.toNat + b.toNat = a.toNat := by
  unfold checkedSub
  split_ifs with h
  · have hdiff := UInt64.toNat_sub_of_le a b (UInt64.le_iff_toNat_le.mpr h)
    rw [Option.some.injEq, ← UInt64.toNat_inj, hdiff]
    omega
  · constructor
    · intro h
      cases h
    · intro h
      omega

theorem checkedSub_of_le {a b : UInt64} (h : b ≤ a) : checkedSub a b = some (a - b) := by
  rw [checkedSub_eq_some, UInt64.toNat_sub_of_le _ _ h]
  exact Nat.sub_add_cancel (UInt64.le_iff_toNat_le.mp h)

@[simp] theorem saturatingAdd_toNat :
    (saturatingAdd a b).toNat = min (a.toNat + b.toNat) (2 ^ 64 - 1) := by
  unfold saturatingAdd
  split_ifs with h
  · rw [UInt64.toNat_add, Nat.mod_eq_of_lt h]
    omega
  · have hmax : (UInt64.ofNat (2 ^ 64 - 1)).toNat = 2 ^ 64 - 1 := by decide
    rw [hmax]
    omega

/-- An exact integer as an unsigned machine integer, if it is one. -/
def u64TryFrom (value : ℤ) : Option UInt64 :=
  if 0 ≤ value ∧ value < 2 ^ 64 then some (UInt64.ofNat value.toNat) else none

@[simp] theorem u64TryFrom_eq_some :
    u64TryFrom value = some result ↔ (result.toNat : ℤ) = value := by
  have hr := result.toNat_lt
  unfold u64TryFrom
  split_ifs with h
  · have hn : (UInt64.ofNat value.toNat).toNat = value.toNat :=
      UInt64.toNat_ofNat_of_lt' (by simp only [UInt64.size]; omega)
    rw [Option.some.injEq, ← UInt64.toNat_inj, hn]
    omega
  · constructor
    · intro h
      cases h
    · intro h
      omega

end Zkpi.CheckedIntegers
