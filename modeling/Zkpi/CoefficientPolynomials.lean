import Mathlib.Algebra.Polynomial.Roots
import Mathlib.Data.List.GetD

/-!
# Polynomials as lists of coefficients

Coefficients stand lowest first. Evaluation, long division and Lagrange interpolation work on
the lists; each is shown to compute what its polynomial says.
-/

namespace Zkpi.CoefficientPolynomials

open Polynomial List

section Algorithms

variable {F : Type} [Field F] [DecidableEq F]

/-- The value at a point, by Horner's rule. -/
def evaluate (coefficients : List F) (x : F) : F :=
  coefficients.reverse.foldl (fun acc c => acc * x + c) 0

def subtractShifted (denominator : List F) (factor : F) (shift : ℕ) (remainder : List F) :
    List F :=
  remainder.mapIdx fun k value =>
    if shift ≤ k then value - denominator.getD (k - shift) 0 * factor else value

/-- The places of the quotient that remain, from the highest down. -/
def divideLoop (denominator : List F) (lead : F) : ℕ → List F → List F → List F × List F
  | 0, quotient, remainder => (quotient, remainder)
  | i + 1, quotient, remainder =>
    let factor := remainder.getD (i + (denominator.length - 1)) 0 * lead
    divideLoop denominator lead i (factor :: quotient)
      (subtractShifted denominator factor i remainder)

def divide (numerator denominator : List F) : Option (List F × Bool) :=
  let d := denominator.length - 1
  if numerator.length ≤ d then some ([0], numerator.all (· = 0))
  else
    let lead := (denominator.getD d 0)⁻¹
    let (quotient, remainder) :=
      divideLoop denominator lead (numerator.length - d) [] numerator
    some (quotient, (remainder.take (min d remainder.length)).all (· = 0))

def timesRoot (basis : List F) (root : F) : List F :=
  zipWith (· + ·) (basis.map (fun b => -(b * root)) ++ [0]) (0 :: basis)

def timesLinear (basis : List F) (low high : F) : List F :=
  zipWith (· + ·) (basis.map (· * low) ++ [0]) (0 :: basis.map (· * high))

def denominatorAt (points : List F) (i : ℕ) : F :=
  (points.eraseIdx i).foldl (fun product xj => product * (points.getD i 0 - xj)) 1

def interpolate (points values : List F) : List F :=
  (range points.length).foldl (fun result i =>
    let basis := (points.eraseIdx i).foldl timesRoot [1]
    let scale := values.getD i 0 * (denominatorAt points i)⁻¹
    zipWith (fun sum b => sum + b * scale) result basis)
    (replicate points.length 0)

/-- Lagrange at zero. -/
def reconstruct (points shares : List F) : F :=
  (range points.length).foldl (fun total i =>
    let numerator := (points.eraseIdx i).foldl (fun product xj => product * -xj) 1
    total + shares.getD i 0 * numerator * (denominatorAt points i)⁻¹) 0

end Algorithms

/-! ## The polynomial of a list -/

section Meaning

variable {F : Type} [Field F]

noncomputable def polynomial : List F → F[X]
  | [] => 0
  | c :: rest => C c + X * polynomial rest

@[simp] theorem polynomial_nil : polynomial ([] : List F) = 0 := rfl

@[simp] theorem polynomial_cons (c : F) (rest : List F) :
    polynomial (c :: rest) = C c + X * polynomial rest := rfl

variable (coefficients : List F)

theorem evaluate_eq (x : F) : evaluate coefficients x = (polynomial coefficients).eval x := by
  rw [evaluate, foldl_reverse]
  induction coefficients with
  | nil => simp
  | cons c rest ih =>
    rw [foldr_cons, ih, polynomial_cons, eval_add, eval_C, eval_mul, eval_X]
    ring

theorem coeff_polynomial (k : ℕ) : (polynomial coefficients).coeff k = coefficients.getD k 0 := by
  induction coefficients generalizing k with
  | nil => simp
  | cons c rest ih =>
    cases k with
    | zero => simp
    | succ => simp [ih, coeff_C_succ]

theorem polynomial_ext {p q : List F} (h : ∀ k, p.getD k 0 = q.getD k 0) :
    polynomial p = polynomial q := by
  ext k
  rw [coeff_polynomial, coeff_polynomial, h]

theorem degree_polynomial_lt :
    (polynomial coefficients).degree < (coefficients.length : WithBot ℕ) := by
  rw [degree_lt_iff_coeff_zero]
  intro k hk
  rw [coeff_polynomial, getD_eq_default _ _ hk]

theorem natDegree_polynomial_le {coefficients : List F}
    (hlength : coefficients.length ≤ d + 1) : (polynomial coefficients).natDegree ≤ d := by
  rw [natDegree_le_iff_coeff_eq_zero]
  intro k hk
  rw [coeff_polynomial, getD_eq_default _ _ (by omega)]

theorem eval_zero_polynomial : (polynomial coefficients).eval 0 = coefficients.headD 0 := by
  cases coefficients <;> simp

theorem polynomial_append (p q : List F) :
    polynomial (p ++ q) = polynomial p + X ^ p.length * polynomial q := by
  induction p with
  | nil => simp
  | cons c rest ih =>
    simp only [cons_append, polynomial_cons, ih, length_cons]
    ring

theorem eval_polynomial (x : F) : (polynomial coefficients).eval x =
    ∑ k ∈ Finset.range coefficients.length, coefficients.getD k 0 * x ^ k := by
  induction coefficients with
  | nil => simp
  | cons c rest ih =>
    rw [polynomial_cons, eval_add, eval_C, eval_mul, eval_X, ih, length_cons,
      Finset.sum_range_succ', Finset.mul_sum, add_comm]
    refine congrArg₂ (· + ·) (Finset.sum_congr rfl fun k _ => ?_) (by simp)
    rw [getD_cons_succ]
    ring

theorem monic_polynomial_append_one (low : List F) : (polynomial (low ++ [1])).Monic ∧
    (polynomial (low ++ [1])).natDegree = low.length := by
  have hform : polynomial (low ++ [1]) = X ^ low.length + polynomial low := by
    rw [polynomial_append]
    simp [add_comm]
  rw [hform]
  have hlow := degree_polynomial_lt low
  refine ⟨monic_X_pow_add hlow, ?_⟩
  rw [natDegree_add_eq_left_of_degree_lt (by rwa [degree_X_pow]), natDegree_X_pow]

end Meaning

/-! ## Division -/

section Division

variable {F : Type} [Field F] {denominator : List F} {d : ℕ}

variable {remainder : List F}

section

variable (hlength : denominator.length = d + 1)

include hlength

theorem getD_subtractShifted (factor : F) (hfits : shift + d < remainder.length) (k : ℕ) :
    (subtractShifted denominator factor shift remainder).getD k 0 =
      remainder.getD k 0 -
        (if shift ≤ k then denominator.getD (k - shift) 0 * factor else 0) := by
  unfold subtractShifted
  by_cases hk : k < remainder.length
  · rw [getD_eq_getElem _ _ (by simpa using hk), getElem_mapIdx, getD_eq_getElem _ _ hk]
    split
    · rfl
    · rw [sub_zero]
  · have hhigh : denominator.getD (k - shift) 0 = 0 :=
      getD_eq_default _ _ (by omega)
    rw [getD_eq_default _ _ (by simpa using hk), getD_eq_default _ _ (by omega), hhigh]
    simp

theorem polynomial_subtractShifted (factor : F) (hfits : shift + d < remainder.length) :
    polynomial (subtractShifted denominator factor shift remainder) =
      polynomial remainder - X ^ shift * (C factor * polynomial denominator) := by
  ext k
  rw [coeff_polynomial, getD_subtractShifted hlength factor hfits, coeff_sub, coeff_polynomial,
    coeff_X_pow_mul', coeff_C_mul, coeff_polynomial, mul_comm factor]

/-- The loop divides: what it returns and what it started from are the same combination, and
nothing of the remainder is left above the denominator. -/
theorem divideLoop_spec (hlead : denominator.getD d 0 * lead = 1) (i : ℕ)
    (quotient remainder : List F)
    (hfits : i + d ≤ remainder.length) (hhigh : ∀ k, i + d ≤ k → remainder.getD k 0 = 0) :
    (divideLoop denominator lead i quotient remainder).1.length = i + quotient.length ∧
    (∀ k, d ≤ k → (divideLoop denominator lead i quotient remainder).2.getD k 0 = 0) ∧
    polynomial (divideLoop denominator lead i quotient remainder).1 * polynomial denominator +
        polynomial (divideLoop denominator lead i quotient remainder).2 =
      X ^ i * polynomial quotient * polynomial denominator + polynomial remainder := by
  induction i generalizing quotient remainder with
  | zero =>
    refine ⟨(Nat.zero_add _).symm, fun k hk => hhigh k (by omega), ?_⟩
    simp [divideLoop]
  | succ i ih =>
    simp only [divideLoop, hlength, Nat.add_sub_cancel]
    generalize hfactor : remainder.getD (i + d) 0 * lead = factor
    have hroom : i + d < remainder.length := by omega
    have hkept : (subtractShifted denominator factor i remainder).length = remainder.length := by
      simp [subtractShifted]
    have hcleared : ∀ k, i + d ≤ k →
        (subtractShifted denominator factor i remainder).getD k 0 = 0 := by
      intro k hk
      rw [getD_subtractShifted hlength factor hroom, if_pos (by omega)]
      rcases Nat.eq_or_lt_of_le hk with rfl | hk
      · rw [Nat.add_sub_cancel_left, ← hfactor, mul_comm (remainder.getD _ 0), ← mul_assoc, hlead,
          one_mul, sub_self]
      · rw [hhigh k (by omega), getD_eq_default denominator _ (by omega), zero_mul, sub_zero]
    obtain ⟨hquotient, hlow, hsum⟩ := ih (factor :: quotient) _ (by omega) hcleared
    refine ⟨by rw [hquotient, length_cons]; omega, hlow, ?_⟩
    rw [hsum, polynomial_subtractShifted hlength factor hroom, polynomial_cons]
    ring

end

variable [DecidableEq F]

/-- A remainder without high places is zero if its low places are. -/
theorem all_low_iff (hhigh : ∀ k, d ≤ k → remainder.getD k 0 = 0) :
    (remainder.take (min d remainder.length)).all (· = 0) = true ↔ polynomial remainder = 0 := by
  constructor
  · intro hall
    refine polynomial_ext (q := []) fun k => ?_
    by_cases hk : k < min d remainder.length
    · have hmem : remainder.getD k 0 ∈ remainder.take (min d remainder.length) := by
        rw [getD_eq_getElem _ _ (by omega)]
        exact mem_take_iff_getElem.mpr ⟨k, by omega, rfl⟩
      exact of_decide_eq_true (all_eq_true.mp hall _ hmem)
    · by_cases hlength : k < remainder.length
      · exact hhigh k (by omega)
      · exact getD_eq_default _ _ (by omega)
  · intro hzero
    refine all_eq_true.mpr fun value hvalue => decide_eq_true ?_
    obtain ⟨k, hk, rfl⟩ := mem_take_iff_getElem.mp hvalue
    have hcoeff := coeff_polynomial remainder k
    rw [hzero, coeff_zero, getD_eq_getElem _ _ (by omega)] at hcoeff
    exact hcoeff.symm

variable {low : List F}

theorem divide_spec (hlonger : low.length < numerator.length) :
    ∃ quotient remainder exact, divide numerator (low ++ [1]) = some (quotient, exact) ∧
      (exact = true ↔ polynomial remainder = 0) ∧
      quotient.length = numerator.length - low.length ∧
      (polynomial remainder).degree < (low.length : WithBot ℕ) ∧
      polynomial quotient * polynomial (low ++ [1]) + polynomial remainder =
        polynomial numerator := by
  have hlength : (low ++ [(1 : F)]).length = low.length + 1 := length_append
  have hlast : (low ++ [(1 : F)]).getD low.length 0 = 1 := by
    simp [getD_eq_getElem?_getD]
  have hlead : (low ++ [(1 : F)]).getD low.length 0 *
      ((low ++ [(1 : F)]).getD low.length 0)⁻¹ = 1 := by
    rw [hlast, inv_one, mul_one]
  obtain ⟨hquotient, hhigh, hsum⟩ := divideLoop_spec hlength hlead
    (numerator.length - low.length) [] numerator (by omega)
    fun k hk => getD_eq_default _ _ (by omega)
  refine ⟨_, _, _, ?_, all_low_iff hhigh, hquotient, ?_, ?_⟩
  · unfold divide
    simp only [hlength, Nat.add_sub_cancel]
    rw [if_neg (by omega)]
  · rw [degree_lt_iff_coeff_zero]
    intro k hk
    rw [coeff_polynomial]
    exact hhigh k hk
  · rw [hsum, polynomial_nil, mul_zero, zero_mul, zero_add]

theorem divide_mul {factor : F[X]} (hlonger : low.length < numerator.length)
    (hproduct : polynomial numerator = factor * polynomial (low ++ [1])) :
    ∃ quotient, divide numerator (low ++ [1]) = some (quotient, true) ∧
      polynomial quotient = factor := by
  obtain ⟨quotient, remainder, exact, hdivide, hexact, -, _, hsum⟩ := divide_spec hlonger
  obtain ⟨hmonic, hnatDegree⟩ := monic_polynomial_append_one low
  have hbelow : (polynomial remainder).degree < (polynomial (low ++ [1])).degree := by
    rwa [degree_eq_natDegree hmonic.ne_zero, hnatDegree]
  have hnothing : (0 : F[X]).degree < (polynomial (low ++ [1])).degree := by
    rw [degree_zero]
    exact bot_lt_iff_ne_bot.mpr (degree_ne_bot.mpr hmonic.ne_zero)
  have hleft : polynomial numerator /ₘ polynomial (low ++ [1]) = polynomial quotient ∧
      polynomial numerator %ₘ polynomial (low ++ [1]) = polynomial remainder :=
    div_modByMonic_unique _ _ hmonic ⟨by rw [← hsum]; ring, hbelow⟩
  have hright : polynomial numerator /ₘ polynomial (low ++ [1]) = factor ∧
      polynomial numerator %ₘ polynomial (low ++ [1]) = 0 :=
    div_modByMonic_unique _ _ hmonic ⟨by rw [hproduct]; ring, hnothing⟩
  have hzero : polynomial remainder = 0 := hleft.2.symm.trans hright.2
  refine ⟨quotient, ?_, hleft.1.symm.trans hright.1⟩
  rw [hdivide, hexact.mpr hzero]

end Division

/-! ## Interpolation -/

section Interpolation

variable {F : Type} [Field F]

variable (basis : List F)

theorem timesRoot_length (root : F) : (timesRoot basis root).length = basis.length + 1 := by
  simp [timesRoot]

theorem polynomial_zipWith_add {p q : List F} (hlength : p.length = q.length) (a : F) :
    polynomial (zipWith (fun sum b => sum + b * a) p q) =
      polynomial p + C a * polynomial q := by
  induction p generalizing q with
  | nil =>
    obtain rfl := length_eq_zero_iff.mp hlength.symm
    simp
  | cons x p ih =>
    cases q with
    | nil => cases hlength
    | cons =>
      rw [zipWith_cons_cons, polynomial_cons, ih (Nat.succ.inj hlength), polynomial_cons,
        polynomial_cons, C_add, C_mul]
      ring

theorem polynomial_map_mul (a : F) : polynomial (basis.map (· * a)) = C a * polynomial basis := by
  induction basis with
  | nil => simp
  | cons b rest ih =>
    rw [map_cons, polynomial_cons, ih, polynomial_cons, C_mul]
    ring

theorem timesLinear_length (low high : F) :
    (timesLinear basis low high).length = basis.length + 1 := by
  simp [timesLinear]

theorem polynomial_timesLinear (low high : F) :
    polynomial (timesLinear basis low high) = (C low + C high * X) * polynomial basis := by
  have hplain : timesLinear basis low high = zipWith (fun sum b => sum + b * 1)
      (basis.map (· * low) ++ [0]) (0 :: basis.map (· * high)) := by
    simp [timesLinear]
  rw [hplain, polynomial_zipWith_add (by simp), polynomial_append]
  simp only [polynomial_cons, polynomial_nil, polynomial_map_mul, C_0, C_1]
  ring

theorem polynomial_timesRoot (root : F) :
    polynomial (timesRoot basis root) = (X - C root) * polynomial basis := by
  have hlinear : timesRoot basis root = timesLinear basis (-root) 1 := by
    simp [timesRoot, timesLinear]
  rw [hlinear, polynomial_timesLinear, C_neg, C_1]
  ring

theorem polynomial_foldl_timesRoot (roots basis : List F) :
    polynomial (roots.foldl timesRoot basis) =
      (roots.map fun root => X - C root).prod * polynomial basis := by
  induction roots generalizing basis with
  | nil => simp
  | cons root rest ih =>
    rw [foldl_cons, ih, polynomial_timesRoot, map_cons, prod_cons]
    ring

theorem foldl_timesRoot_length (roots basis : List F) :
    (roots.foldl timesRoot basis).length = basis.length + roots.length := by
  induction roots generalizing basis with
  | nil => rfl
  | cons root rest ih =>
    rw [foldl_cons, ih, timesRoot_length, length_cons]
    omega

theorem foldl_mul_eq_prod (f : F → F) (start : F) (xs : List F) :
    xs.foldl (fun product x => product * f x) start = start * (xs.map f).prod := by
  induction xs generalizing start with
  | nil => simp
  | cons x rest ih =>
    rw [foldl_cons, ih, map_cons, prod_cons, mul_assoc]

theorem denominatorAt_eq (points : List F) (i : ℕ) : denominatorAt points i =
    ((points.eraseIdx i).map fun xj => points.getD i 0 - xj).prod := by
  rw [denominatorAt, foldl_mul_eq_prod, one_mul]

variable (points values : List F)

def summand (i : ℕ) (x : F) : F :=
  values.getD i 0 * (denominatorAt points i)⁻¹ * ((points.eraseIdx i).map (x - ·)).prod

theorem foldl_summands {indices : List ℕ} (hindices : ∀ i ∈ indices, i < points.length)
    {result : List F} (hlength : result.length = points.length) :
    (indices.foldl (fun result i =>
      zipWith (fun sum b => sum + b * (values.getD i 0 * (denominatorAt points i)⁻¹)) result
        ((points.eraseIdx i).foldl timesRoot [1])) result).length = points.length ∧
    ∀ x, (polynomial (indices.foldl (fun result i =>
      zipWith (fun sum b => sum + b * (values.getD i 0 * (denominatorAt points i)⁻¹)) result
        ((points.eraseIdx i).foldl timesRoot [1])) result)).eval x =
      (polynomial result).eval x + (indices.map (summand points values · x)).sum := by
  induction indices generalizing result with
  | nil => exact ⟨hlength, fun x => by simp⟩
  | cons i rest ih =>
    have hi : i < points.length := hindices i mem_cons_self
    have hbasis : ((points.eraseIdx i).foldl timesRoot [1]).length = points.length := by
      rw [foldl_timesRoot_length, length_eraseIdx_of_lt hi, length_singleton]
      omega
    have hnext : (zipWith (fun sum b =>
        sum + b * (values.getD i 0 * (denominatorAt points i)⁻¹)) result
        ((points.eraseIdx i).foldl timesRoot [1])).length = points.length := by
      rw [length_zipWith, hlength, hbasis, Nat.min_self]
    obtain ⟨hfinal, hsum⟩ := ih (fun j hj => hindices j (mem_cons_of_mem i hj)) hnext
    refine ⟨hfinal, fun x => ?_⟩
    rw [foldl_cons, hsum, polynomial_zipWith_add (hlength.trans hbasis.symm),
      polynomial_foldl_timesRoot, map_cons, sum_cons, summand]
    simp only [polynomial_cons, polynomial_nil, mul_zero, add_zero, eval_add, eval_mul, eval_C,
      mul_one, eval_list_prod, map_map, Function.comp_def, eval_sub, eval_X]
    ring

theorem interpolate_length : (interpolate points values).length = points.length :=
  (foldl_summands points values (fun _ => mem_range.mp) length_replicate).1

theorem evaluate_interpolate (x : F) : evaluate (interpolate points values) x =
    ((range points.length).map (summand points values · x)).sum := by
  have hzero : polynomial (replicate points.length (0 : F)) = 0 := by
    refine polynomial_ext (q := []) fun k => ?_
    simp only [getD_eq_getElem?_getD, getElem?_replicate]
    split <;> rfl
  rw [evaluate_eq, interpolate]
  rw [(foldl_summands points values (fun _ => mem_range.mp) length_replicate).2, hzero,
    eval_zero, zero_add]

theorem reconstruct_eq : reconstruct points values = evaluate (interpolate points values) 0 := by
  have hfold : ∀ (indices : List ℕ) (total : F), indices.foldl (fun total i =>
      total + values.getD i 0 * (points.eraseIdx i).foldl (fun product xj => product * -xj) 1 *
        (denominatorAt points i)⁻¹) total =
      total + (indices.map (summand points values · 0)).sum := by
    intro indices total
    induction indices generalizing total with
    | nil => simp
    | cons i rest ih =>
      rw [foldl_cons, ih, map_cons, sum_cons, summand, foldl_mul_eq_prod, one_mul]
      simp only [zero_sub]
      ring
  rw [evaluate_interpolate, reconstruct]
  exact (hfold _ 0).trans (zero_add _)

theorem interpolate_at {points : List F} (hnodup : points.Nodup) (hk : k < points.length) :
    evaluate (interpolate points values) (points.getD k 0) = values.getD k 0 := by
  have hself : summand points values k (points.getD k 0) = values.getD k 0 := by
    have hdenominator : denominatorAt points k ≠ 0 := by
      rw [denominatorAt_eq, Ne, prod_eq_zero_iff]
      intro hmem
      obtain ⟨_, hxj, hzero⟩ := mem_map.mp hmem
      obtain ⟨j, _, hne, rfl⟩ := mem_eraseIdx_iff_getElem.mp hxj
      rw [sub_eq_zero, getD_eq_getElem _ _ hk] at hzero
      exact hne ((hnodup.getElem_inj_iff).mp hzero.symm)
    rw [summand, ← denominatorAt_eq, mul_assoc, inv_mul_cancel₀ hdenominator, mul_one]
  have hothers : ∀ i ∈ Finset.range points.length, i ≠ k →
      summand points values i (points.getD k 0) = 0 := by
    intro i _ hne
    have hmem : points.getD k 0 ∈ points.eraseIdx i := by
      rw [getD_eq_getElem _ _ hk]
      exact mem_eraseIdx_iff_getElem.mpr ⟨k, hk, Ne.symm hne, rfl⟩
    have hzero : ((points.eraseIdx i).map (points.getD k 0 - ·)).prod = 0 := by
      rw [prod_eq_zero_iff]
      exact mem_map.mpr ⟨_, hmem, sub_self _⟩
    rw [summand, hzero, mul_zero]
  rw [evaluate_interpolate]
  calc ((range points.length).map (summand points values · (points.getD k 0))).sum
      = ∑ i ∈ Finset.range points.length, summand points values i (points.getD k 0) := rfl
    _ = summand points values k (points.getD k 0) :=
      Finset.sum_eq_single_of_mem k (Finset.mem_range.mpr hk) hothers
    _ = values.getD k 0 := hself

end Interpolation

end Zkpi.CoefficientPolynomials
