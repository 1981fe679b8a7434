import Mathlib.NumberTheory.LucasPrimality

/-!
# Checked prime certificates

Large primes are certified by a base whose modular powers separate every
prime factor of the predecessor. Square-and-multiply powers are evaluated by
the kernel; the certificate itself is the Lucas criterion of the library.
-/

namespace Zkpi.CertifiedPrimes

/-- Square-and-multiply power modulo `m`. The fuel bounds the binary length
of the exponent, so evaluation is structural. -/
def powMod (m a : ℕ) : ℕ → ℕ → ℕ
  | 0, _ => 1 % m
  | fuel+1, e =>
    if e = 0 then 1 % m
    else
      let half := powMod m a fuel (e/2)
      if e % 2 = 0 then half*half % m else half*half % m * a % m

theorem powMod_eq (m a fuel e : ℕ) (he : e < 2^fuel) : powMod m a fuel e = a^e % m := by
  induction fuel generalizing e with
  | zero =>
    have hz : e = 0 := by simpa using he
    simp [powMod, hz]
  | succ fuel ih =>
    have hh := ih (e/2) (by rw [pow_succ] at he; omega)
    have hm : a^(e/2) % m * (a^(e/2) % m) % m = a^(2*(e/2)) % m := by
      rw [← Nat.mul_mod, two_mul, pow_add]
    rw [powMod]
    split
    · next hz => simp [hz]
    · dsimp only
      rw [hh, hm]
      split
      · next hp =>
        rw [show 2*(e/2) = e by omega]
      · next hp =>
        conv_rhs => rw [show e = 2*(e/2)+1 by omega, pow_succ, Nat.mul_mod]
        rw [Nat.mul_mod, Nat.mod_mod]

/-- A listed complete factorization of `p - 1` and one base of full order
certify that `p` is prime. -/
theorem certified_prime {p a fuel : ℕ} {factors : List ℕ} (hp : 1 < p) (hfuel : p < 2^fuel)
    (hprime : ∀ q ∈ factors, q.Prime) (hprod : factors.prod = p-1)
    (hone : powMod p a fuel (p-1) = 1)
    (hne : ∀ q ∈ factors, powMod p a fuel ((p-1)/q) ≠ 1) : p.Prime := by
  have hcast : ∀ e, e < 2^fuel → ((a : ZMod p)^e = 1 ↔ powMod p a fuel e = 1) := by
    intro e he
    rw [powMod_eq p a fuel e he, ← Nat.cast_pow, ← Nat.cast_one, ZMod.natCast_eq_natCast_iff',
      Nat.mod_eq_of_lt hp]
  apply lucas_primality p (a : ZMod p)
  · exact (hcast _ (by omega)).mpr hone
  · intro q hq hdvd h
    rw [← hprod] at hdvd
    obtain ⟨r, hr, hqr⟩ := (Prime.dvd_prod_iff hq.prime).mp hdvd
    have he : q = r := (Nat.prime_dvd_prime_iff_eq hq (hprime r hr)).mp hqr
    have hle : (p-1)/q < 2^fuel := lt_of_le_of_lt (Nat.div_le_self _ _) (by omega)
    exact hne q (he ▸ hr) ((hcast _ hle).mp h)

/-- One line of a certificate: a number, a base of full order and the factors of its
predecessor. -/
structure Entry where
  prime : ℕ
  base : ℕ
  /-- A bound on the binary length of the number. -/
  fuel : ℕ
  factors : List ℕ

/-- A line holds if its factors are known primes that multiply to the predecessor and the base
has full order. -/
def Entry.certifies (known : List ℕ) (entry : Entry) : Bool :=
  1 < entry.prime && entry.prime < 2^entry.fuel && entry.factors.all (· ∈ known) &&
    entry.factors.prod = entry.prime - 1 &&
    powMod entry.prime entry.base entry.fuel (entry.prime - 1) = 1 &&
    entry.factors.all fun q => powMod entry.prime entry.base entry.fuel ((entry.prime - 1)/q) ≠ 1

/-- Every line holds once the lines above it are known. -/
def certifiesAll : List ℕ → List Entry → Bool
  | _, [] => true
  | known, entry :: rest => entry.certifies known && certifiesAll (entry.prime :: known) rest

theorem Entry.prime_of_certifies {entry : Entry}
    (hknown : ∀ q ∈ known, q.Prime) (h : entry.certifies known = true) : entry.prime.Prime := by
  simp only [Entry.certifies, Bool.and_eq_true, decide_eq_true_eq, List.all_eq_true] at h
  obtain ⟨⟨⟨⟨⟨hone, hfuel⟩, hlisted⟩, hprod⟩, hpower⟩, hne⟩ := h
  exact certified_prime hone hfuel
    (fun q hq => hknown q (hlisted q hq)) hprod hpower hne

/-- The numbers of a certificate are prime if the numbers it starts from are. -/
theorem prime_of_certifiesAll
    (hknown : ∀ q ∈ known, q.Prime) (h : certifiesAll known entries = true) :
    ∀ entry ∈ entries, entry.prime.Prime := by
  induction entries generalizing known with
  | nil => exact fun _ hmem => nomatch hmem
  | cons first rest ih =>
    rw [certifiesAll, Bool.and_eq_true] at h
    have hfirst := Entry.prime_of_certifies hknown h.1
    have hrest := ih (List.forall_mem_cons.mpr ⟨hfirst, hknown⟩) h.2
    exact List.forall_mem_cons.mpr ⟨hfirst, hrest⟩

end Zkpi.CertifiedPrimes
