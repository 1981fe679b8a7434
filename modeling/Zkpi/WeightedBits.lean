import Mathlib.Data.Nat.Digits.Lemmas
import Mathlib.Tactic.Module

/-!
# Sums with doubling weights

A list is summed with weights one, two, four and so on by one loop that
doubles its weight as it goes. The loop commutes with linear maps, and on the
binary digits of a number it returns that number. Nothing here refers to a
particular ring: the same loop runs over group elements and over scalars.
-/

namespace Zkpi.WeightedBits

open List Nat

variable (R : Type) {M N : Type} [CommRing R] [AddCommGroup M] [Module R M]
  [AddCommGroup N] [Module R N]

def doublingLoop (items : List M) : M × R :=
  items.foldl (fun state item => (state.1 + state.2 • item, state.2 + state.2)) (0, 1)

def doublingSum (items : List M) : M := (doublingLoop R items).1

theorem foldl_doubling :
    (items.foldl (fun (state : M × R) item => (state.1 + state.2 • item, state.2 + state.2))
      (total, weight)).1 = total + weight • doublingSum R items := by
  induction items generalizing total weight with
  | nil => simp only [foldl_nil, doublingSum, doublingLoop, smul_zero, add_zero]
  | cons item rest ih =>
    simp only [foldl_cons, doublingSum, doublingLoop, zero_add, one_smul]
    rw [ih, ih]
    module

@[simp] theorem doublingSum_nil : doublingSum R ([] : List M) = 0 := rfl

@[simp] theorem doublingSum_cons (item : M) (rest : List M) :
    doublingSum R (item :: rest) = item + (2 : R) • doublingSum R rest := by
  rw [doublingSum, doublingLoop, foldl_cons, foldl_doubling]
  module

theorem map_doublingSum (f : M →ₗ[R] N) (items : List M) :
    f (doublingSum R items) = doublingSum R (items.map f) := by
  induction items with
  | nil => simp only [doublingSum_nil, map_zero, map_nil]
  | cons item rest ih => simp only [doublingSum_cons, map_add, map_smul, ih, map_cons]

theorem doublingSum_combine {I : Type} (items : List I) (x y : I → R) (a b : M) :
    doublingSum R (items.map fun i => x i • a + y i • b) =
      doublingSum R (items.map x) • a + doublingSum R (items.map y) • b := by
  induction items with
  | nil => simp only [map_nil, doublingSum_nil, zero_smul, add_zero]
  | cons item rest ih =>
    simp only [map_cons, doublingSum_cons, ih, smul_eq_mul]
    module

theorem doublingSum_digits (digits : List ℕ) :
    doublingSum R (digits.map fun digit : ℕ => (digit : R)) = (ofDigits 2 digits : ℕ) := by
  induction digits with
  | nil => simp only [map_nil, doublingSum_nil, ofDigits_nil, cast_zero]
  | cons digit rest ih =>
    simp only [map_cons, doublingSum_cons, ih, ofDigits_cons, smul_eq_mul]
    push_cast
    rfl

variable (value width : ℕ)

def lowBits : List Bool := (range width).map value.testBit

@[simp] theorem lowBits_length : (lowBits value width).length = width := by
  simp [lowBits]

theorem lowBits_succ :
    lowBits value (width + 1) = value.testBit 0 :: lowBits (value / 2) width := by
  simp only [lowBits, range_succ_eq_map, map_cons, map_map, List.cons.injEq, true_and]
  apply map_congr_left
  intro index _
  exact testBit_succ value index

theorem ofDigits_lowBits :
    ofDigits 2 ((lowBits value width).map Bool.toNat) = value % 2 ^ width := by
  induction width generalizing value with
  | zero => simp only [lowBits, range_zero, map_nil, ofDigits_nil, pow_zero, mod_one]
  | succ width ih =>
    rw [lowBits_succ, map_cons, ofDigits_cons, ih, testBit_zero]
    have hsplit := mod_mul (x := value) (a := 2) (b := 2 ^ width)
    rw [pow_succ', hsplit]
    have hbit : (decide (value % 2 = 1)).toNat = value % 2 := by
      rcases mod_two_eq_zero_or_one value with h | h <;> rw [h] <;> rfl
    rw [hbit]

theorem ofDigits_eq_sum (digits : List ℕ) :
    ofDigits 2 digits = ∑ j ∈ Finset.range digits.length, 2 ^ j * digits.getD j 0 := by
  induction digits with
  | nil => simp only [ofDigits_nil, length_nil, Finset.range_zero, Finset.sum_empty]
  | cons digit rest ih =>
    rw [length_cons, Finset.sum_range_succ', ofDigits_cons, ih, Finset.mul_sum]
    simp only [getD_cons_succ, getD_cons_zero, pow_zero, one_mul]
    rw [add_comm]
    congr 1
    apply Finset.sum_congr rfl
    intro j _
    rw [pow_succ]
    ring

theorem ofDigits_bits_lt {digits : List ℕ} (h : ∀ digit ∈ digits, digit < 2) :
    ofDigits 2 digits < 2 ^ digits.length :=
  ofDigits_lt_base_pow_length (by norm_num) h

end Zkpi.WeightedBits
