import Mathlib.Data.UInt

/-!
# Checked signed machine integers

Signed 64-bit arithmetic that fails instead of wrapping. Every operation is the
exact one on integers followed by one conversion, so a result is characterized by
the integer it denotes and no later argument mentions wrapping.
-/

namespace Zkpi.SignedIntegers

def checked (exact : ℤ) : Option Int64 :=
  if -2 ^ 63 ≤ exact ∧ exact < 2 ^ 63 then some (Int64.ofInt exact) else none

@[simp] theorem checked_eq_some : checked exact = some result ↔ result.toInt = exact := by
  have hlow := Int64.le_toInt result
  have hhigh := Int64.toInt_lt result
  unfold checked
  split_ifs with h
  · have hexact : (Int64.ofInt exact).toInt = exact :=
      Int64.toInt_ofInt_of_le (by omega) (by omega)
    rw [Option.some.injEq, ← Int64.toInt_inj, hexact]
    exact eq_comm
  · constructor
    · intro h
      cases h
    · intro h
      omega

/-- Addition that fails instead of wrapping. -/
def checkedAdd (a b : Int64) : Option Int64 := checked (a.toInt + b.toInt)

/-- Subtraction that fails instead of wrapping. -/
def checkedSub (a b : Int64) : Option Int64 := checked (a.toInt - b.toInt)

/-- Multiplication that fails instead of wrapping. -/
def checkedMul (a b : Int64) : Option Int64 := checked (a.toInt * b.toInt)

def checkedNeg (a : Int64) : Option Int64 := checked (-a.toInt)

@[simp] theorem checkedAdd_eq_some :
    checkedAdd a b = some c ↔ c.toInt = a.toInt + b.toInt := checked_eq_some

@[simp] theorem checkedSub_eq_some :
    checkedSub a b = some c ↔ c.toInt = a.toInt - b.toInt := checked_eq_some

@[simp] theorem checkedMul_eq_some :
    checkedMul a b = some c ↔ c.toInt = a.toInt * b.toInt := checked_eq_some

@[simp] theorem checkedNeg_eq_some : checkedNeg a = some c ↔ c.toInt = -a.toInt := checked_eq_some

def ofFlag (flag : Bool) : Int64 := if flag then 1 else 0

@[simp] theorem ofFlag_toInt (flag : Bool) : (ofFlag flag).toInt = if flag then 1 else 0 := by
  cases flag <;> rfl

theorem toUInt64_toNat {a : Int64} (h : 0 ≤ a.toInt) : (a.toUInt64.toNat : ℤ) = a.toInt := by
  have hle : 0 ≤ a := Int64.le_iff_toInt_le.mpr h
  rw [Int64.toNat_toUInt64_of_le hle, Int64.toNatClampNeg, Int.toNat_of_nonneg h]

end Zkpi.SignedIntegers
