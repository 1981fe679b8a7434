import Zkpi.LimbArithmetic
import Zkpi.FallibleChecks
import Mathlib.Data.Nat.Prime.Basic

/-!
# Leaving Montgomery form

A stored field element is the product of the element with a power of the word size, modulo an odd
prime. Word by word a multiple of the modulus is added that clears the lowest word, which is then
dropped; the multiple comes from an inverse modulo `2 ^ 64` found by six refinements. What remains
after all words is below the modulus, so the final correction is never needed, let alone twice. No
step indexes outside the work buffer or overflows its 128-bit sums.
-/

namespace Zkpi.MontgomeryForm

open FallibleChecks LimbArithmetic List Nat

/-- An element of any width, least significant word first, without leading zeros. -/
structure FieldElement where
  limbs : List UInt64
  normal : Normal limbs

namespace FieldElement

variable (element : FieldElement)

def val : ℕ := value element.limbs

theorem ext_val {a b : FieldElement} (h : a.val = b.val) : a = b := by
  have hlength : a.limbs.length = b.limbs.length := by
    rcases lt_trichotomy a.limbs.length b.limbs.length with hlt | heq | hgt
    · exact absurd h (b.normal.lt_of_length_lt hlt).ne
    · exact heq
    · exact absurd h.symm (a.normal.lt_of_length_lt hgt).ne
  have hlimbs := value_inj hlength h
  cases a
  cases b
  cases hlimbs
  rfl

def paddedLimbs (width : ℕ) : List UInt64 :=
  element.limbs.take width ++ replicate (width - element.limbs.length) 0

theorem paddedLimbs_length (width : ℕ) : (element.paddedLimbs width).length = width := by
  rw [paddedLimbs, length_append, length_take, length_replicate]
  omega

variable {element : FieldElement} {width : ℕ}

theorem limbs_length_le (h : element.val < 2 ^ (64 * width)) : element.limbs.length ≤ width := by
  by_contra hlong
  have hlt := element.normal.lt_of_length_lt (a := replicate width 0 ++ [])
    (by simpa using hlong)
  obtain ⟨limbs, limb, hsplit⟩ : ∃ limbs limb, element.limbs = limbs ++ [limb] :=
    ⟨_, _, (dropLast_concat_getLast (fun hnil => by simp [hnil] at hlong)).symm⟩
  have hnormal := element.normal
  rw [hsplit] at hnormal
  have hlarge := hnormal.value_ge
  rw [val, hsplit] at h
  have hlength : width ≤ limbs.length := by
    rw [hsplit, length_append, length_singleton] at hlong
    omega
  have hpow : 2 ^ (64 * width) ≤ 2 ^ (64 * limbs.length) :=
    Nat.pow_le_pow_right (by norm_num) (by omega)
  omega

theorem value_paddedLimbs (h : element.val < 2 ^ (64 * width)) :
    value (element.paddedLimbs width) = element.val := by
  rw [paddedLimbs, take_of_length_le (limbs_length_le h), value_append, value_replicate_zero,
    mul_zero, add_zero]
  rfl

end FieldElement

inductive Stop where
  | invalid (message : String)
  | fault (fault : Fault)
deriving DecidableEq

def subtractLimbs : ℕ → List UInt64 → List UInt64 → Except Fault (List UInt64)
  | borrow, [], _ => if borrow = 0 then .ok [] else .error .assertion
  | borrow, item :: rest, right => do
    let rhs := (right.head?.elim 0 UInt64.toNat) + borrow
    if rhs ≤ item.toNat then do
      let rest ← subtractLimbs 0 rest right.tail
      .ok (UInt64.ofNat (item.toNat - rhs) :: rest)
    else do
      let rest ← subtractLimbs 1 rest right.tail
      .ok (UInt64.ofNat (2 ^ 64 + item.toNat - rhs) :: rest)

def subtractAssign (left right : List UInt64) : Except Fault FieldElement := do
  let limbs ← subtractLimbs 0 left right
  .ok ⟨normalize limbs, normalize_normal limbs⟩

def negatedInverse (lowest : UInt64) : UInt64 := -((newtonStep lowest)^[6] 1)

/-- Clear and drop the lowest word, some number of times. -/
def reduceSteps (n0 : UInt64) (modulus : List UInt64) :
    ℕ → List UInt64 → Except Fault (List UInt64)
  | 0, work => .ok work
  | _ + 1, [] => .error .index
  | steps + 1, low :: rest => do
    let work ← addMultiple (low * n0) 0 modulus (low :: rest)
    refuseIf (work.head? ≠ some 0) .assertion
    reduceSteps n0 modulus steps work.tail

def correct (work : List UInt64) (prime : FieldElement) (modulus : List UInt64) :
    Except Fault FieldElement :=
  if lengthCompare (normalize work) prime.limbs = .lt then
    .ok ⟨normalize work, normalize_normal work⟩
  else subtractAssign (normalize work) modulus

def fromMontgomery (element prime : FieldElement) (elementBytes : ℕ) :
    Except Stop FieldElement :=
  if elementBytes = 0 ∨ elementBytes % 8 ≠ 0 then
    .error (.invalid s!"invalid Montgomery element width {elementBytes}")
  else
    let width := elementBytes / 8
    let modulus := prime.paddedLimbs width
    let lowest := modulus.head?.getD 0
    if lowest.toNat % 2 = 0 then .error (.invalid "Montgomery field modulus must be odd")
    else
      (do
        let work ← reduceSteps (negatedInverse lowest) modulus width
          (element.paddedLimbs (2 * width + 2))
        correct work prime modulus).mapError .fault

/-! ## One word -/

variable {lowest : UInt64}

theorem inverts_newton (hodd : lowest.toNat % 2 = 1) :
    Inverts 64 lowest ((newtonStep lowest)^[6] 1) := by
  have hone : Inverts 1 lowest 1 := by
    refine ⟨(lowest.toNat : ℤ) / 2, ?_⟩
    have hunit : ((1 : UInt64).toNat : ℤ) = 1 := rfl
    rw [hunit]
    omega
  have h2 := hone.step (by norm_num)
  have h4 := h2.step (by norm_num)
  have h8 := h4.step (by norm_num)
  have h16 := h8.step (by norm_num)
  have h32 := h16.step (by norm_num)
  exact h32.step (by norm_num)

theorem negatedInverse_spec (hodd : lowest.toNat % 2 = 1) :
    (lowest.toNat : ℤ) * (negatedInverse lowest).toNat ≡ -1 [ZMOD 2 ^ 64] := by
  have hinverts := inverts_newton hodd
  unfold negatedInverse
  generalize (newtonStep lowest)^[6] 1 = inverse at hinverts
  have hone : (lowest.toNat : ℤ) * inverse.toNat ≡ 1 [ZMOD 2 ^ 64] :=
    (Int.modEq_iff_dvd.mpr hinverts).symm
  have hproduct := (toNat_neg_modEq inverse).mul_left (lowest.toNat : ℤ)
  rw [mul_neg] at hproduct
  exact hproduct.trans hone.neg

theorem lowest_cleared (low : UInt64) (hodd : lowest.toNat % 2 = 1) (rest high : ℕ) :
    (2 ^ 64 : ℤ) ∣ ((low.toNat + 2 ^ 64 * rest +
      (low * negatedInverse lowest).toNat * (lowest.toNat + 2 ^ 64 * high) : ℕ) : ℤ) := by
  apply Int.modEq_zero_iff_dvd.mp
  have hmultiplier := toNat_mul_modEq low (negatedInverse lowest)
  have hspec := (negatedInverse_spec hodd).mul_left (low.toNat : ℤ)
  have hproduct : ((low * negatedInverse lowest).toNat : ℤ) * lowest.toNat ≡
      -low.toNat [ZMOD 2 ^ 64] := by
    refine (hmultiplier.mul_right _).trans ?_
    have hassoc : (low.toNat : ℤ) * (negatedInverse lowest).toNat * lowest.toNat =
        low.toNat * (lowest.toNat * (negatedInverse lowest).toNat) := by ring
    rw [hassoc]
    rw [mul_neg_one] at hspec
    exact hspec
  have hsum : ((low.toNat + 2 ^ 64 * rest +
      (low * negatedInverse lowest).toNat * (lowest.toNat + 2 ^ 64 * high) : ℕ) : ℤ) =
      low.toNat + ((low * negatedInverse lowest).toNat : ℤ) * lowest.toNat +
        2 ^ 64 * (rest + (low * negatedInverse lowest).toNat * high) := by
    push_cast
    ring
  rw [hsum]
  have hcleared := (hproduct.add_left (low.toNat : ℤ)).add
    (Int.modEq_zero_iff_dvd.mpr (Dvd.intro
      (rest + ((low * negatedInverse lowest).toNat : ℤ) * high) rfl))
  rw [add_neg_cancel, add_zero] at hcleared
  exact hcleared

/-! ## All words -/

section Reduction

variable {lowest : UInt64} {others : List UInt64}

theorem reduceSteps_ok (hodd : lowest.toNat % 2 = 1) (steps : ℕ) {work : List UInt64}
    (hlength : others.length + 2 + steps ≤ work.length)
    (hlt : value work < value (lowest :: others)) :
    ∃ result, reduceSteps (negatedInverse lowest) (lowest :: others) steps work = .ok result ∧
      value result < value (lowest :: others) ∧
      value result * 2 ^ (64 * steps) ≡ value work [MOD value (lowest :: others)] := by
  induction steps generalizing work with
  | zero => exact ⟨work, by cases work <;> rfl, hlt, by simp [ModEq]⟩
  | succ steps ih =>
    cases work with
    | nil => simp at hlength
    | cons low rest =>
      have hmodulus := value_lt (lowest :: others)
      have hmultiplier := (low * negatedInverse lowest).toNat_lt
      have hbound : value (low :: rest) + (low * negatedInverse lowest).toNat *
          value (lowest :: others) < 2 ^ 64 * value (lowest :: others) := by nlinarith
      have hroom : 2 ^ 64 * 2 ^ (64 * (lowest :: others).length) ≤
          2 ^ (64 * (low :: rest).length) := by
        rw [← radix_succ]
        apply Nat.pow_le_pow_right (by norm_num)
        simp only [length_cons] at hlength ⊢
        omega
      have hfits : value (low :: rest) + (low * negatedInverse lowest).toNat *
          value (lowest :: others) + 0 < 2 ^ (64 * (low :: rest).length) := by
        refine lt_of_lt_of_le ?_ hroom
        nlinarith
      obtain ⟨sum, hsum, hsize, hvalue⟩ := addMultiple_ok (by norm_num)
        (by simp only [length_cons] at hlength ⊢; omega) hfits
      rw [add_zero] at hvalue
      cases sum with
      | nil => cases hsize
      | cons word tail =>
        have hcleared := lowest_cleared low hodd (value rest) (value others)
        have hword : word = 0 := by
          have hdvd : 2 ^ 64 ∣ value (low :: rest) +
              (low * negatedInverse lowest).toNat * value (lowest :: others) := by
            exact_mod_cast hcleared
          rw [← hvalue, value_cons] at hdvd
          have hdvdWord : 2 ^ 64 ∣ word.toNat := (Nat.dvd_add_left (Dvd.intro _ rfl)).mp hdvd
          exact (UInt64.toNat_inj (b := 0)).mp (eq_zero_of_dvd_of_lt hdvdWord word.toNat_lt)
        subst hword
        rw [value_cons (0 : UInt64), UInt64.toNat_zero, zero_add] at hvalue
        have htail : value tail < value (lowest :: others) := by omega
        have hroomTail : others.length + 2 + steps ≤ tail.length := by
          simp only [length_cons] at hsize hlength
          omega
        obtain ⟨result, hresult, hresultLt, hmod⟩ := ih hroomTail htail
        refine ⟨result, ?_, hresultLt, ?_⟩
        · rw [reduceSteps]
          exact bind_ok.mpr ⟨_, hsum, refuseIf_bind_ok.mpr ⟨not_not.mpr rfl, hresult⟩⟩
        · have hstep :
              2 ^ 64 * value tail ≡ value (low :: rest) [MOD value (lowest :: others)] := by
            rw [hvalue]
            exact add_mul_mod_self_right _ _ _
          have hpower : value result * 2 ^ (64 * (steps + 1)) =
              2 ^ 64 * (value result * 2 ^ (64 * steps)) := by
            rw [radix_succ]
            ring
          rw [hpower]
          exact (hmod.mul_left _).trans hstep

end Reduction

theorem eq_of_mul_pow_modEq (hodd : Odd modulus) (ha : a < modulus)
    (hb : b < modulus) (h : a * 2 ^ exponent ≡ b * 2 ^ exponent [MOD modulus]) : a = b := by
  have hcoprime : Nat.gcd modulus (2 ^ exponent) = 1 :=
    (Coprime.pow_right exponent (coprime_two_right.mpr hodd))
  have hcancel := ModEq.cancel_right_of_coprime hcoprime h
  rwa [ModEq, mod_eq_of_lt ha, mod_eq_of_lt hb] at hcancel

/-- For every odd modulus that fits a width and every stored number below it, the conversion
returns, in normal form, the one number below the modulus whose product with the radix is the
stored number. It neither leaves the work buffer nor overflows, its assertions hold, and what the
words leave over is below twice the modulus. -/
theorem fromMontgomery_exact (element prime : FieldElement) (width : ℕ) (hodd : Odd prime.val)
    (hwidth : prime.val < 2 ^ (64 * width)) (helement : element.val < prime.val) :
    (∃ work, reduceSteps (negatedInverse ((prime.paddedLimbs width).head?.getD 0))
        (prime.paddedLimbs width) width (element.paddedLimbs (2 * width + 2)) = .ok work ∧
      value work < 2 * prime.val) ∧
    ∃ result, fromMontgomery element prime (8 * width) = .ok result ∧ result.val < prime.val ∧
      result.val * 2 ^ (64 * width) ≡ element.val [MOD prime.val] ∧
      ∀ other : FieldElement, other.val < prime.val →
        other.val * 2 ^ (64 * width) ≡ element.val [MOD prime.val] → other = result := by
  have hmodulus := FieldElement.value_paddedLimbs hwidth
  have hlength := prime.paddedLimbs_length width
  have hpositive : 0 < prime.val := hodd.pos
  obtain ⟨lowest, others, hsplit⟩ :
      ∃ lowest others, prime.paddedLimbs width = lowest :: others := by
    cases hlimbs : prime.paddedLimbs width with
    | nil =>
      rw [hlimbs] at hmodulus
      exact absurd hmodulus.symm hpositive.ne'
    | cons lowest others => exact ⟨lowest, others, rfl⟩
  rw [hsplit] at hmodulus hlength
  rw [length_cons] at hlength
  have hlowest : lowest.toNat % 2 = 1 := by
    have hmod := odd_iff.mp hodd
    rw [← hmodulus, value_cons] at hmod
    omega
  have hwork : value (element.paddedLimbs (2 * width + 2)) = element.val := by
    apply FieldElement.value_paddedLimbs
    refine (helement.trans hwidth).trans_le (Nat.pow_le_pow_right (by norm_num) ?_)
    omega
  have hroom : others.length + 2 + width ≤ (element.paddedLimbs (2 * width + 2)).length := by
    rw [FieldElement.paddedLimbs_length]
    omega
  have hless : value (element.paddedLimbs (2 * width + 2)) < value (lowest :: others) := by
    rw [hwork, hmodulus]
    exact helement
  obtain ⟨work, hreduced, hlt, hmod⟩ := reduceSteps_ok hlowest width hroom hless
  rw [hmodulus, hwork] at hmod
  rw [hmodulus] at hlt
  rw [hsplit, head?_cons, Option.getD_some]
  have hval : (⟨normalize work, normalize_normal work⟩ : FieldElement).val = value work :=
    value_normalize work
  refine ⟨⟨work, hreduced, by omega⟩, ⟨normalize work, normalize_normal work⟩, ?_, ?_, ?_, ?_⟩
  · have hcompare : lengthCompare (normalize work) prime.limbs = .lt := by
      rw [lengthCompare_eq (normalize_normal work) prime.normal, value_normalize, Nat.compare_eq_lt]
      exact hlt
    have hdiv : 8 * width / 8 = width := by omega
    simp only [fromMontgomery, hdiv, hsplit, head?_cons, Option.getD_some]
    rw [if_neg (by omega), if_neg (by omega), hreduced]
    simp only [bind, Except.bind, correct, hcompare, if_true]
    rfl
  · rw [hval]
    exact hlt
  · rw [hval]
    exact hmod
  · intro other hother hsame
    apply FieldElement.ext_val
    rw [hval]
    exact eq_of_mul_pow_modEq hodd hother hlt (hsame.trans hmod.symm)

def word (limb : UInt64) (h : limb ≠ 0) : FieldElement :=
  ⟨[limb], by simpa [LimbArithmetic.Normal] using h⟩

/-- Two in Montgomery form modulo seven, in one word. -/
theorem fromMontgomery_exact_seven :
    fromMontgomery (word 4 (by decide)) (word 7 (by decide)) 8 = .ok (word 2 (by decide)) ∧
    ∃ result, fromMontgomery (word 4 (by decide)) (word 7 (by decide)) (8 * 1) = .ok result ∧
      result.val < 7 ∧ result.val * 2 ^ (64 * 1) ≡ 4 [MOD 7] ∧
      ∀ other : FieldElement, other.val < 7 →
        other.val * 2 ^ (64 * 1) ≡ 4 [MOD 7] → other = result := by
  refine ⟨?_, (fromMontgomery_exact (word 4 (by decide)) (word 7 (by decide)) 1
    (by decide) (by decide) (by decide)).2⟩
  rfl

end Zkpi.MontgomeryForm
