import Zkpi.CertifiedPrimes
import Mathlib.Tactic.LinearCombination
import Mathlib.Tactic.NormNum.Prime

/-!
# The ristretto255 scalar field

Scalars are residues modulo the prime group order. The order is certified
prime, so a product of scalars vanishes only when a factor does. Exact
integers embed into the field without wrapping exactly as far as their
distance stays below the order; every range argument of the proof system
rests on that one fact.
-/

namespace Zkpi.ScalarField

open CertifiedPrimes

def order : ℕ := 2^252 + 27742317777372353535851937790883648493

def smallPrimes : List ℕ :=
  [2, 3, 5, 7, 11, 23, 41, 43, 73, 269, 307, 1361, 2851, 5879, 30703, 82163, 132667, 137849,
    531581, 1224481, 58964693]

theorem prime_of_mem_smallPrimes : ∀ q ∈ smallPrimes, q.Prime := by
  simp only [smallPrimes, List.forall_mem_cons]
  norm_num

def orderCertificate : List Entry :=
  [⟨3044861653679985063343, 5, 72, [132667, 137849, 82163, 30703, 11, 3, 2]⟩,
    ⟨198211423230930754013084525763697, 5, 108,
      [58964693, 3044861653679985063343, 23, 3, 2, 2, 2, 2]⟩,
    ⟨292386187, 2, 29, [5879, 307, 3, 3, 3, 3, 2]⟩,
    ⟨213441916511, 13, 38, [292386187, 73, 5, 2]⟩,
    ⟨1257559732178653, 2, 51, [1224481, 531581, 23, 7, 3, 2, 2]⟩,
    ⟨4434155615661930479, 17, 62, [1257559732178653, 43, 41, 2]⟩,
    ⟨172054593956031949258510691, 2, 88, [4434155615661930479, 2851, 1361, 5, 2]⟩,
    ⟨19757330305831588566944191468367130476339, 2, 134,
      [213441916511, 172054593956031949258510691, 269, 2]⟩,
    ⟨276602624281642239937218680557139826668747, 2, 138,
      [19757330305831588566944191468367130476339, 7, 2]⟩,
    ⟨order, 2, 253, [2, 2, 3, 11, 198211423230930754013084525763697,
      276602624281642239937218680557139826668747]⟩]

/-- The group order is prime, by the complete factorization of its
predecessor and the base two. -/
theorem order_prime : order.Prime := by
  have hcertified : certifiesAll smallPrimes orderCertificate = true := by decide +kernel
  have hlast : (⟨order, 2, 253, [2, 2, 3, 11, 198211423230930754013084525763697,
      276602624281642239937218680557139826668747]⟩ : Entry) ∈ orderCertificate :=
    List.mem_of_getLast? rfl
  exact prime_of_certifiesAll prime_of_mem_smallPrimes hcertified _ hlast

instance : Fact order.Prime := ⟨order_prime⟩

abbrev Scalar := ZMod order

/-- Two integers with equal scalar images coincide as long as their distance
is below the group order. -/
theorem intCast_scalar_inj {a b : ℤ} (h : (a : Scalar) = (b : Scalar))
    (hd : |a - b| < (order : ℤ)) : a = b := by
  have hdvd : (order : ℤ) ∣ a - b := by
    rw [← ZMod.intCast_zmod_eq_zero_iff_dvd]
    push_cast
    rw [h, sub_self]
  exact sub_eq_zero.mp (Int.eq_zero_of_abs_lt_dvd hdvd hd)

/-- A scalar solving `x * x = x` is zero or one; the field has no zero divisors. -/
theorem scalar_idempotent {x : Scalar} (h : x = x * x) : x = 0 ∨ x = 1 := by
  have hz : x * (x - 1) = 0 := by linear_combination -h
  rcases mul_eq_zero.mp hz with hx | hx
  · exact Or.inl hx
  · exact Or.inr (sub_eq_zero.mp hx)

theorem pow_252_lt_order : 2^252 < order := by norm_num [order]

end Zkpi.ScalarField
