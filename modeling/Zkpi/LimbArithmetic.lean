import Mathlib.Data.Int.ModEq
import Mathlib.Data.List.DropRight
import Mathlib.Tactic.Linarith
import Mathlib.Tactic.Ring
import Mathlib.Tactic.LinearCombination

/-!
# Numbers in 64-bit limbs

A list of machine words stands for the number it writes in base `2 ^ 64`, least significant word
first. Ripple addition and subtraction are exact up to the carry or borrow they return, comparison
from the most significant word on is comparison of the numbers, and dropping leading zeros gives
every number one form. Adding a multiple of a number word by word is exact as long as the sum fits
the words that are there.
-/

namespace Zkpi.LimbArithmetic

open List Bool

def value : List UInt64 → ℕ
  | [] => 0
  | limb :: rest => limb.toNat + 2 ^ 64 * value rest

@[simp] theorem value_nil : value [] = 0 := rfl

@[simp] theorem value_cons (limb : UInt64) (rest : List UInt64) :
    value (limb :: rest) = limb.toNat + 2 ^ 64 * value rest := rfl

theorem radix_succ (count : ℕ) : 2 ^ (64 * (count + 1)) = 2 ^ 64 * 2 ^ (64 * count) := by
  rw [Nat.mul_succ, Nat.add_comm, Nat.pow_add]

theorem value_append :
    value (low ++ high) = value low + 2 ^ (64 * low.length) * value high := by
  induction low with
  | nil => simp
  | cons limb rest ih =>
    simp only [cons_append, value_cons, ih, length_cons, radix_succ]
    ring

variable (limbs : List UInt64)

theorem value_lt : value limbs < 2 ^ (64 * limbs.length) := by
  induction limbs with
  | nil => simp
  | cons limb =>
    have hlimb := limb.toNat_lt
    simp only [value_cons, length_cons, radix_succ]
    omega

theorem value_replicate_zero (count : ℕ) : value (replicate count 0) = 0 := by
  induction count with
  | zero => rfl
  | succ count ih =>
    rw [replicate_succ, value_cons, ih]
    rfl

theorem value_inj {a b : List UInt64} (hlength : a.length = b.length) (h : value a = value b) :
    a = b := by
  induction a generalizing b with
  | nil => exact (eq_nil_of_length_eq_zero hlength.symm).symm
  | cons limb rest ih =>
    cases b with
    | nil => cases hlength
    | cons other others =>
      have hlimb := limb.toNat_lt
      have hother := other.toNat_lt
      simp only [value_cons] at h
      have hfirst : limb.toNat = other.toNat := by omega
      have hrest : value rest = value others := by omega
      rw [UInt64.toNat_inj.mp hfirst, ih (Nat.succ.inj hlength) hrest]

/-! ## Comparison -/

def lexCompare : List UInt64 → List UInt64 → Ordering
  | [], [] => .eq
  | [], _ :: _ => .lt
  | _ :: _, [] => .gt
  | a :: as, b :: bs => (compare a.toNat b.toNat).then (lexCompare as bs)

theorem lexCompare_eq {a b : List UInt64} (hlength : a.length = b.length) :
    lexCompare a b = compare (value a.reverse) (value b.reverse) := by
  induction a generalizing b with
  | nil =>
    obtain rfl := eq_nil_of_length_eq_zero hlength.symm
    rfl
  | cons x as ih =>
    cases b with
    | nil => cases hlength
    | cons y bs =>
      have hrest : as.length = bs.length := Nat.succ.inj hlength
      have hlow := value_lt as.reverse
      have hlow' := value_lt bs.reverse
      simp only [reverse_cons, value_append, value_cons, value_nil, length_reverse,
        hrest] at hlow hlow' ⊢
      rw [lexCompare, ih hrest]
      have hpos : 0 < 2 ^ (64 * bs.length) := by positivity
      generalize 2 ^ (64 * bs.length) = radix at hlow hlow' hpos ⊢
      generalize value as.reverse = low at hlow ⊢
      generalize value bs.reverse = low' at hlow' ⊢
      rcases Nat.lt_trichotomy x.toNat y.toNat with hlt | heq | hgt
      · have hcompare : low + radix * (x.toNat + 2 ^ 64 * 0) <
            low' + radix * (y.toNat + 2 ^ 64 * 0) := by nlinarith
        rw [Nat.compare_eq_lt.mpr hlt, Nat.compare_eq_lt.mpr hcompare]
        rfl
      · rw [heq, Nat.compare_eq_eq.mpr rfl, Ordering.eq_then]
        rcases Nat.lt_trichotomy low low' with hl | he | hg
        · rw [Nat.compare_eq_lt.mpr hl, Nat.compare_eq_lt.mpr (by omega)]
        · rw [he, Nat.compare_eq_eq.mpr rfl, Nat.compare_eq_eq.mpr rfl]
        · rw [Nat.compare_eq_gt.mpr hg, Nat.compare_eq_gt.mpr (by omega)]
      · have hcompare : low' + radix * (y.toNat + 2 ^ 64 * 0) <
            low + radix * (x.toNat + 2 ^ 64 * 0) := by nlinarith
        rw [Nat.compare_eq_gt.mpr hgt, Nat.compare_eq_gt.mpr hcompare]
        rfl

/-! ## Ripple addition and subtraction -/

variable (a b : UInt64)

/-- Addition with the information whether it wrapped. -/
def overflowingAdd : UInt64 × Bool := (a + b, decide (2 ^ 64 ≤ a.toNat + b.toNat))

/-- Subtraction with the information whether it wrapped. -/
def overflowingSub : UInt64 × Bool := (a - b, decide (a.toNat < b.toNat))

theorem overflowingAdd_value :
    (overflowingAdd a b).1.toNat + 2 ^ 64 * (overflowingAdd a b).2.toNat =
      a.toNat + b.toNat := by
  have ha := a.toNat_lt
  have hb := b.toNat_lt
  simp only [overflowingAdd, UInt64.toNat_add]
  by_cases h : 2 ^ 64 ≤ a.toNat + b.toNat
  · rw [decide_eq_true h, toNat_true]
    omega
  · rw [decide_eq_false h, toNat_false]
    omega

theorem overflowingSub_value : (overflowingSub a b).1.toNat + b.toNat =
      a.toNat + 2 ^ 64 * (overflowingSub a b).2.toNat := by
  have ha := a.toNat_lt
  have hb := b.toNat_lt
  simp only [overflowingSub, UInt64.toNat_sub]
  by_cases h : a.toNat < b.toNat
  · rw [decide_eq_true h, toNat_true]
    omega
  · rw [decide_eq_false h, toNat_false]
    omega

variable (carry : Bool)

def carryLimb : UInt64 := if carry then 1 else 0

@[simp] theorem carryLimb_toNat : (carryLimb carry).toNat = carry.toNat := by
  cases carry <;> rfl

def addLimbs : Bool → List UInt64 → List UInt64 → List UInt64 × Bool
  | carry, a :: as, b :: bs =>
    let (first, overflow) := overflowingAdd a b
    let (second, overflow') := overflowingAdd first (carryLimb carry)
    let (rest, last) := addLimbs (overflow || overflow') as bs
    (second :: rest, last)
  | carry, _, _ => ([], carry)

/-- Subtract word by word, with an incoming borrow. -/
def subLimbs : Bool → List UInt64 → List UInt64 → List UInt64 × Bool
  | borrow, a :: as, b :: bs =>
    let (first, overflow) := overflowingSub a b
    let (second, overflow') := overflowingSub first (carryLimb borrow)
    let (rest, last) := subLimbs (overflow || overflow') as bs
    (second :: rest, last)
  | borrow, _, _ => ([], borrow)

/-- At most one of the two additions of a word overflows. -/
theorem add_limb :
    (overflowingAdd (overflowingAdd a b).1 (carryLimb carry)).1.toNat +
      2 ^ 64 * ((overflowingAdd a b).2 ||
        (overflowingAdd (overflowingAdd a b).1 (carryLimb carry)).2).toNat =
      a.toNat + b.toNat + carry.toNat := by
  have hfirst := overflowingAdd_value a b
  have hsecond := overflowingAdd_value (overflowingAdd a b).1 (carryLimb carry)
  have ha := a.toNat_lt
  have hb := b.toNat_lt
  have hcarry := carry.toNat_le
  rw [carryLimb_toNat] at hsecond
  cases h : (overflowingAdd a b).2 <;>
    cases h' : (overflowingAdd (overflowingAdd a b).1 (carryLimb carry)).2 <;>
    rw [h] at hfirst <;> rw [h'] at hsecond <;>
    simp only [Bool.toNat_true, Bool.toNat_false, Bool.or_true, Bool.or_false]
      at hfirst hsecond ⊢ <;>
    omega

theorem sub_limb (borrow : Bool) :
    (overflowingSub (overflowingSub a b).1 (carryLimb borrow)).1.toNat + b.toNat + borrow.toNat =
      a.toNat + 2 ^ 64 * ((overflowingSub a b).2 ||
        (overflowingSub (overflowingSub a b).1 (carryLimb borrow)).2).toNat := by
  have hfirst := overflowingSub_value a b
  have hsecond := overflowingSub_value (overflowingSub a b).1 (carryLimb borrow)
  have hb := b.toNat_lt
  have hlast := (overflowingSub (overflowingSub a b).1 (carryLimb borrow)).1.toNat_lt
  have hborrow := borrow.toNat_le
  rw [carryLimb_toNat] at hsecond
  cases h : (overflowingSub a b).2 <;>
    cases h' : (overflowingSub (overflowingSub a b).1 (carryLimb borrow)).2 <;>
    rw [h] at hfirst <;> rw [h'] at hsecond <;>
    simp only [Bool.toNat_true, Bool.toNat_false, Bool.or_true, Bool.or_false]
      at hfirst hsecond ⊢ <;>
    omega

theorem addLimbs_value {a b : List UInt64} (hlength : a.length = b.length) :
    (addLimbs carry a b).1.length = a.length ∧
      value (addLimbs carry a b).1 + 2 ^ (64 * a.length) * (addLimbs carry a b).2.toNat =
        value a + value b + carry.toNat := by
  induction a generalizing b carry with
  | nil =>
    obtain rfl := eq_nil_of_length_eq_zero hlength.symm
    simp [addLimbs]
  | cons x as ih =>
    cases b with
    | nil => cases hlength
    | cons y =>
      obtain ⟨hsize, hvalue⟩ := ih ((overflowingAdd x y).2 ||
        (overflowingAdd (overflowingAdd x y).1 (carryLimb carry)).2) (Nat.succ.inj hlength)
      simp only [addLimbs, length_cons, value_cons, radix_succ]
      refine ⟨by rw [hsize], ?_⟩
      linear_combination add_limb x y carry + 2 ^ 64 * hvalue

theorem subLimbs_value {a b : List UInt64} (borrow : Bool) (hlength : a.length = b.length) :
    (subLimbs borrow a b).1.length = a.length ∧
      value (subLimbs borrow a b).1 + value b + borrow.toNat =
        value a + 2 ^ (64 * a.length) * (subLimbs borrow a b).2.toNat := by
  induction a generalizing b borrow with
  | nil =>
    obtain rfl := eq_nil_of_length_eq_zero hlength.symm
    simp [subLimbs]
  | cons x as ih =>
    cases b with
    | nil => cases hlength
    | cons y =>
      obtain ⟨hsize, hvalue⟩ := ih ((overflowingSub x y).2 ||
        (overflowingSub (overflowingSub x y).1 (carryLimb borrow)).2) (Nat.succ.inj hlength)
      simp only [subLimbs, length_cons, value_cons, radix_succ]
      refine ⟨by rw [hsize], ?_⟩
      linear_combination sub_limb x y borrow + 2 ^ 64 * hvalue

theorem subLimbs_of_le {a b : List UInt64} (hlength : a.length = b.length)
    (hle : value b ≤ value a) :
    value (subLimbs false a b).1 = value a - value b := by
  obtain ⟨hsize, hvalue⟩ := subLimbs_value false hlength
  have hlt := value_lt (subLimbs false a b).1
  rw [hsize] at hlt
  rw [toNat_false] at hvalue
  cases hborrow : (subLimbs false a b).2 with
  | false =>
    rw [hborrow, toNat_false] at hvalue
    omega
  | true =>
    rw [hborrow, toNat_true] at hvalue
    omega

/-! ## Leading zeros -/

/-- Drop zero words at the most significant end. -/
def normalize : List UInt64 := limbs.rdropWhile (· = 0)

def Normal : Prop := limbs.getLast? ≠ some 0

theorem normalize_normal : Normal (normalize limbs) := by
  intro hlast
  have hne : normalize limbs ≠ [] := by
    intro hnil
    rw [hnil] at hlast
    cases hlast
  rw [getLast?_eq_some_getLast hne, Option.some.injEq] at hlast
  exact rdropWhile_last_not _ limbs hne (decide_eq_true hlast)

theorem value_normalize : value (normalize limbs) = value limbs := by
  induction limbs using reverseRecOn with
  | nil => rfl
  | append_singleton limbs limb ih =>
    rw [normalize, rdropWhile_concat]
    split_ifs with hzero
    · rw [of_decide_eq_true hzero, value_append]
      exact ih.trans (by simp)
    · rfl

theorem Normal.value_ge {limbs : List UInt64} {limb : UInt64}
    (h : Normal (limbs ++ [limb])) : 2 ^ (64 * limbs.length) ≤ value (limbs ++ [limb]) := by
  have hlimb : limb.toNat ≠ 0 := by
    intro hzero
    apply h
    rw [getLast?_concat, (UInt64.toNat_inj (b := 0)).mp hzero]
  have hone : 1 ≤ limb.toNat := Nat.pos_of_ne_zero hlimb
  rw [value_append, value_cons, value_nil]
  nlinarith [Nat.two_pow_pos (64 * limbs.length)]

theorem Normal.lt_of_length_lt {a b : List UInt64} (hb : Normal b) (h : a.length < b.length) :
    value a < value b := by
  induction b using reverseRecOn with
  | nil => cases h
  | append_singleton limbs =>
    rw [length_append, length_singleton] at h
    have hlow := value_lt a
    have hhigh := hb.value_ge
    have hpow : 2 ^ (64 * a.length) ≤ 2 ^ (64 * limbs.length) :=
      Nat.pow_le_pow_right (by norm_num) (by omega)
    omega

def lengthCompare (a b : List UInt64) : Ordering :=
  (compare a.length b.length).then (lexCompare a.reverse b.reverse)

theorem lengthCompare_eq {a b : List UInt64} (ha : Normal a) (hb : Normal b) :
    lengthCompare a b = compare (value a) (value b) := by
  rcases Nat.lt_trichotomy a.length b.length with hlt | heq | hgt
  · rw [lengthCompare, Nat.compare_eq_lt.mpr hlt, Nat.compare_eq_lt.mpr (hb.lt_of_length_lt hlt)]
    rfl
  · rw [lengthCompare, Nat.compare_eq_eq.mpr heq, Ordering.eq_then,
      lexCompare_eq (by simpa using heq), reverse_reverse, reverse_reverse]
  · rw [lengthCompare, Nat.compare_eq_gt.mpr hgt, Nat.compare_eq_gt.mpr (ha.lt_of_length_lt hgt)]
    rfl

/-! ## Adding a multiple -/

/-- What can go wrong in a loop over words: an index outside the buffer, an intermediate sum of more
than 128 bits, or a failed assertion. -/
inductive Fault where
  | index
  | overflow
  | assertion
deriving DecidableEq

def addCarry : ℕ → List UInt64 → Except Fault (List UInt64)
  | 0, limbs => .ok limbs
  | _ + 1, [] => .error .index
  | carry + 1, limb :: rest =>
    let sum := limb.toNat + (carry + 1)
    if 2 ^ 128 ≤ sum then .error .overflow
    else do
      let rest ← addCarry (sum / 2 ^ 64) rest
      .ok (UInt64.ofNat sum :: rest)

def addMultiple (multiplier : UInt64) : ℕ → List UInt64 → List UInt64 →
    Except Fault (List UInt64)
  | carry, [], limbs => addCarry carry limbs
  | _, _ :: _, [] => .error .index
  | carry, factor :: factors, limb :: rest =>
    let sum := limb.toNat + multiplier.toNat * factor.toNat + carry
    if 2 ^ 128 ≤ sum then .error .overflow
    else do
      let rest ← addMultiple multiplier (sum / 2 ^ 64) factors rest
      .ok (UInt64.ofNat sum :: rest)

theorem ofNat_add_carry (sum high : ℕ) :
    (UInt64.ofNat sum).toNat + 2 ^ 64 * (high + sum / 2 ^ 64) = sum + 2 ^ 64 * high := by
  rw [UInt64.toNat_ofNat']
  omega

theorem addCarry_ok {carry : ℕ} {limbs : List UInt64} (hcarry : carry < 2 ^ 64)
    (hfits : value limbs + carry < 2 ^ (64 * limbs.length)) :
    ∃ result, addCarry carry limbs = .ok result ∧ result.length = limbs.length ∧
      value result = value limbs + carry := by
  induction limbs generalizing carry with
  | nil =>
    obtain rfl : carry = 0 := by simpa using hfits
    exact ⟨[], rfl, rfl, rfl⟩
  | cons limb rest ih =>
    cases carry with
    | zero => exact ⟨limb :: rest, rfl, rfl, rfl⟩
    | succ carry =>
      have hlimb := limb.toNat_lt
      rw [value_cons, length_cons, radix_succ] at hfits
      obtain ⟨result, hresult, hlength, hvalue⟩ :=
        @ih ((limb.toNat + (carry + 1)) / 2 ^ 64) (by omega) (by omega)
      refine ⟨UInt64.ofNat (limb.toNat + (carry + 1)) :: result, ?_, by simp [hlength], ?_⟩
      · rw [addCarry, if_neg (by omega), hresult]
        rfl
      · have hword := ofNat_add_carry (limb.toNat + (carry + 1)) (value rest)
        rw [value_cons, value_cons, hvalue]
        omega

/-- Adding a multiple is exact if the sum fits the buffer, and no intermediate sum overflows. -/
theorem addMultiple_ok {multiplier : UInt64} {carry : ℕ} {factors limbs : List UInt64}
    (hcarry : carry < 2 ^ 64) (hlength : factors.length ≤ limbs.length)
    (hfits : value limbs + multiplier.toNat * value factors + carry < 2 ^ (64 * limbs.length)) :
    ∃ result, addMultiple multiplier carry factors limbs = .ok result ∧
      result.length = limbs.length ∧
      value result = value limbs + multiplier.toNat * value factors + carry := by
  induction factors generalizing carry limbs with
  | nil =>
    rw [value_nil, Nat.mul_zero, Nat.add_zero] at hfits ⊢
    cases limbs with
    | nil => exact addCarry_ok hcarry hfits
    | cons => exact addCarry_ok hcarry hfits
  | cons factor factors ih =>
    cases limbs with
    | nil => cases hlength
    | cons limb rest =>
      have hlimb := limb.toNat_lt
      have hproduct : multiplier.toNat * factor.toNat ≤ (2 ^ 64 - 1) * (2 ^ 64 - 1) :=
        Nat.mul_le_mul (Nat.le_pred_of_lt multiplier.toNat_lt) (Nat.le_pred_of_lt factor.toNat_lt)
      have hsplit : multiplier.toNat * (factor.toNat + 2 ^ 64 * value factors) =
          multiplier.toNat * factor.toNat + 2 ^ 64 * (multiplier.toNat * value factors) := by ring
      rw [value_cons, value_cons, length_cons, radix_succ, hsplit] at hfits
      rw [value_cons, value_cons, hsplit]
      obtain ⟨product, hequal⟩ : ∃ product, multiplier.toNat * factor.toNat = product := ⟨_, rfl⟩
      rw [hequal] at hproduct hfits ⊢
      obtain ⟨result, hresult, hsize, hvalue⟩ :=
        @ih ((limb.toNat + product + carry) / 2 ^ 64) rest (by omega)
          (Nat.le_of_succ_le_succ hlength) (by omega)
      refine ⟨UInt64.ofNat (limb.toNat + product + carry) :: result, ?_, by simp [hsize], ?_⟩
      · simp only [addMultiple, hequal]
        rw [if_neg (by omega), hresult]
        rfl
      · have hword := ofNat_add_carry (limb.toNat + product + carry)
          (value rest + multiplier.toNat * value factors)
        rw [value_cons, hvalue]
        omega

/-! ## Inverses of odd words -/

def newtonStep (word inverse : UInt64) : UInt64 := inverse * (2 - word * inverse)

def Inverts (bits : ℕ) (word inverse : UInt64) : Prop :=
  (2 ^ bits : ℤ) ∣ (word.toNat : ℤ) * inverse.toNat - 1

theorem toNat_mul_modEq : ((a * b).toNat : ℤ) ≡ a.toNat * b.toNat [ZMOD 2 ^ 64] := by
  rw [UInt64.toNat_mul]
  push_cast
  exact Int.mod_modEq _ _

theorem toNat_sub_modEq : ((a - b).toNat : ℤ) ≡ a.toNat - b.toNat [ZMOD 2 ^ 64] := by
  have hb := b.toNat_lt
  rw [UInt64.toNat_sub, Int.natCast_mod]
  have hcast : ((2 ^ 64 - b.toNat + a.toNat : ℕ) : ℤ) = (a.toNat : ℤ) - b.toNat + 2 ^ 64 := by
    push_cast [Nat.cast_sub hb.le]
    ring
  rw [hcast]
  push_cast
  exact (Int.mod_modEq _ _).trans (Int.add_modEq_right)

theorem toNat_neg_modEq (a : UInt64) : ((-a).toNat : ℤ) ≡ -a.toNat [ZMOD 2 ^ 64] := by
  have hsub := toNat_sub_modEq 0 a
  rwa [UInt64.zero_sub, UInt64.toNat_zero, Nat.cast_zero, zero_sub] at hsub

theorem Inverts.step (h : Inverts bits word inverse)
    (hbits : 2 * bits ≤ 64) : Inverts (2 * bits) word (newtonStep word inverse) := by
  obtain ⟨k, hk⟩ := h
  have hwrap : ((newtonStep word inverse).toNat : ℤ) ≡
      inverse.toNat * (2 - word.toNat * inverse.toNat) [ZMOD 2 ^ 64] := by
    refine (toNat_mul_modEq _ _).trans (Int.ModEq.mul_left _ ?_)
    exact (toNat_sub_modEq 2 _).trans (Int.ModEq.sub_left _ (toNat_mul_modEq _ _))
  have hdvd : ((2 : ℤ) ^ (2 * bits)) ∣ 2 ^ 64 := pow_dvd_pow 2 hbits
  have hlow := (hwrap.mul_left (word.toNat : ℤ)).of_dvd hdvd
  have hsquare : (word.toNat : ℤ) * (inverse.toNat * (2 - word.toNat * inverse.toNat)) - 1 =
      2 ^ (2 * bits) * -(k * k) := by
    have hproduct : (word.toNat : ℤ) * inverse.toNat = 1 + 2 ^ bits * k := by linarith
    have hpow : (2 : ℤ) ^ (2 * bits) = 2 ^ bits * 2 ^ bits := by rw [two_mul, pow_add]
    rw [hpow]
    linear_combination (1 - (word.toNat : ℤ) * inverse.toNat - 2 ^ bits * k) * hproduct
  have hone : (word.toNat : ℤ) * (newtonStep word inverse).toNat ≡ 1 [ZMOD 2 ^ (2 * bits)] := by
    refine hlow.trans (Int.modEq_iff_dvd.mpr ?_).symm
    exact ⟨-(k * k), hsquare⟩
  exact (Int.modEq_iff_dvd.mp hone.symm)

end Zkpi.LimbArithmetic
