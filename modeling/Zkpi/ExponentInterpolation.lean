import Mathlib.LinearAlgebra.Lagrange

/-!
# Interpolation in a module

A polynomial whose coefficients lie in a module over a field is read like an ordinary one:
fixed weights at distinct points give back one coefficient of every polynomial with few enough
coefficients. Two weightings are used, the one that reads the constant term and the one that
reads the highest.
-/

namespace Zkpi.ExponentInterpolation

open Polynomial Finset

variable {F M I : Type} [Field F] [AddCommGroup M] [Module F M] [DecidableEq I]

/-- Weights at the points of a set read one coefficient of every polynomial with fewer than a
number of coefficients. -/
def Reads (s : Finset I) (x w : I → F) (n m : ℕ) : Prop :=
  ∀ k < n, ∑ i ∈ s, w i * x i ^ k = if k = m then 1 else 0

omit [DecidableEq I] in
theorem Reads.sum_smul {x w : I → F} (h : Reads s x w n m) (hm : m < n)
    (c : ℕ → M) : ∑ i ∈ s, w i • ∑ k ∈ Finset.range n, x i ^ k • c k = c m := by
  have hswap : ∑ i ∈ s, w i • ∑ k ∈ Finset.range n, x i ^ k • c k =
      ∑ k ∈ Finset.range n, (∑ i ∈ s, w i * x i ^ k) • c k := by
    simp only [Finset.smul_sum, Finset.sum_smul, mul_smul]
    exact Finset.sum_comm
  have hread : ∀ k ∈ Finset.range n, (∑ i ∈ s, w i * x i ^ k) • c k =
      if k = m then c k else 0 := by
    intro k hk
    rw [h k (mem_range.mp hk), ite_smul, one_smul, zero_smul]
  rw [hswap, sum_congr rfl hread, sum_ite_eq', if_pos (mem_range.mpr hm)]

omit [DecidableEq I] in
theorem Reads.mono {x w : I → F} (h : Reads s x w n m) (hn : n' ≤ n) : Reads s x w n' m :=
  fun k hk => h k (hk.trans_le hn)

def leadingWeight (s : Finset I) (x : I → F) (i : I) : F :=
  (∏ j ∈ s.erase i, (x i - x j))⁻¹

theorem reads_leading {s : Finset I} {x : I → F} (hx : Set.InjOn x s) :
    Reads s x (leadingWeight s x) s.card (s.card - 1) := by
  intro k hk
  have hdegree : (X ^ k : F[X]).degree < s.card := by
    rw [degree_X_pow]
    exact_mod_cast hk
  have hcoeff := Lagrange.coeff_eq_sum hx hdegree
  rw [coeff_X_pow] at hcoeff
  simp only [eq_comm (a := k), hcoeff, eval_pow, eval_X, div_eq_mul_inv, leadingWeight, mul_comm]

def zeroWeight (s : Finset I) (x : I → F) (i : I) : F :=
  ∏ j ∈ s.erase i, (-x j * (x i - x j)⁻¹)

theorem reads_zero {s : Finset I} {x : I → F} (hx : Set.InjOn x s) :
    Reads s x (zeroWeight s x) s.card 0 := by
  intro k hk
  have hdegree : (X ^ k : F[X]).degree < s.card := by
    rw [degree_X_pow]
    exact_mod_cast hk
  have hbasis : ∀ i, (Lagrange.basis s x i).eval 0 = zeroWeight s x i := by
    intro i
    rw [Lagrange.basis, eval_prod, zeroWeight]
    refine prod_congr rfl fun j _ => ?_
    rw [Lagrange.basisDivisor, eval_mul, eval_C, eval_sub, eval_X, eval_C, zero_sub, mul_comm]
  have hvalue := congrArg (eval 0) (Lagrange.eq_interpolate hx hdegree)
  rw [Lagrange.interpolate_apply, eval_finsetSum] at hvalue
  simp only [eval_mul, eval_C, eval_pow, eval_X, hbasis] at hvalue
  simp only [mul_comm (zeroWeight s x _), ← hvalue, zero_pow_eq]

end Zkpi.ExponentInterpolation
