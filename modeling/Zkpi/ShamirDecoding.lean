import Zkpi.CoefficientPolynomials
import Zkpi.ErrorLocators
import Zkpi.LinearElimination
import Zkpi.ScalarField

/-!
# Shamir shares and the party whose share is wrong

Shares of a secret are values of a polynomial of low degree, a Reed-Solomon codeword. The
decoder interpolates through the first shares and, if the others disagree, looks for an error
locator of growing degree by Berlekamp and Welch. It finds the polynomial whenever the wrong
shares are within capacity, names exactly the parties that sent them, and never names a party
otherwise.
-/

namespace Zkpi.ShamirDecoding

open ScalarField CoefficientPolynomials LinearElimination ErrorLocators List
open Polynomial

/-! ## The decoder -/

/-- How many wrong shares a codeword of this shape can be corrected through. -/
def capacity (n degree : ℕ) : ℕ := if n ≤ degree then 0 else (n - degree - 1) / 2

def shareWithCoefficients (secret : Scalar) (random points : List Scalar) :
    List Scalar × List Scalar :=
  let coefficients := secret :: random
  (points.map (evaluate coefficients), coefficients)

/-- What a decode concluded. -/
inductive Verdict where
  | decoded (secret : Scalar) (culprits : List ℕ)
  /-- More wrong shares than the code can resolve. -/
  | beyond (capacity : ℕ) (reason : String)
deriving DecidableEq

/-- The key equation of one share: the powers of its point, and its value times them. The
leading coefficient of the locator is one and stands on the right. -/
def keyRow (qLen errors : ℕ) (point share : Scalar) : Equation Scalar where
  coefficients := (range qLen).map (point ^ ·) ++
    (range errors).map fun k => -share * point ^ k
  rhs := share * point ^ errors

def welch (points shares : List Scalar) (degree errors : ℕ) : Option Verdict := do
  let n := points.length
  let qLen := degree + errors + 1
  let unknowns := qLen + errors
  let solution ← solve (zipWith (keyRow qLen errors) points shares) unknowns
  let q := solution.take qLen
  let e := solution.drop qLen ++ [1]
  let (p, exact) ← divide q e
  if ¬ exact then none
  else
    let culprits := (range n).filter fun i => evaluate e (points.getD i 0) = 0
    if culprits.length ≠ errors then none
    -- a decoded polynomial has to agree with every share that is not a culprit's
    else if ∃ i ∈ range n, i ∉ culprits ∧ evaluate p (points.getD i 0) ≠ shares.getD i 0 then
      none
    else some (.decoded (p.headD 0) culprits)

def locate (points shares : List Scalar) (degree : ℕ) : Verdict :=
  let n := points.length
  let limit := capacity n degree
  if shares.length ≠ n then
    let given := shares.length
    .beyond limit s!"{n} points and {given} shares"
  else if n < degree + 1 then
    .beyond limit
      s!"{n} shares cannot determine a degree-{degree} polynomial, which needs {degree + 1}"
  else
    let secret := reconstruct (points.take (degree + 1)) (shares.take (degree + 1))
    let coefficients := interpolate (points.take (degree + 1)) (shares.take (degree + 1))
    let disagreeing := (range' (degree + 1) (n - (degree + 1))).filter fun i =>
      evaluate coefficients (points.getD i 0) ≠ shares.getD i 0
    if disagreeing.isEmpty then .decoded secret []
    else
      match (range' 1 limit).findSome? (welch points shares degree) with
      | some verdict => verdict
      | none => .beyond limit
          (s!"more than {limit} wrong share(s): at n={n} and degree {degree} " ++
          s!"the code has distance {n - degree}, so this is beyond what any decoder can resolve")

/-! ## Codewords -/

section Codewords

noncomputable def wrong (points shares : List Scalar) (P : Scalar[X]) : List ℕ :=
  (range points.length).filter fun i => P.eval (points.getD i 0) ≠ shares.getD i 0

structure Explains (points shares : List Scalar) (degree : ℕ) (P : Scalar[X]) : Prop where
  degree_le : P.natDegree ≤ degree
  few : (wrong points shares P).length ≤ capacity points.length degree

variable {points shares : List Scalar} {degree : ℕ}

theorem mem_wrong : i ∈ wrong points shares P ↔
    i < points.length ∧ P.eval (points.getD i 0) ≠ shares.getD i 0 := by
  rw [wrong, mem_filter, mem_range, decide_eq_true_eq]

theorem mem_disagreements_iff :
    i ∈ disagreements (Finset.range points.length) (points.getD · 0) (shares.getD · 0) P ↔
      i ∈ wrong points shares P := by
  rw [mem_disagreements, mem_wrong, Finset.mem_range]

theorem points_injOn (hnodup : points.Nodup) :
    Set.InjOn (points.getD · 0) (Finset.range points.length) := by
  intro i hi j hj heq
  have hi' : i < points.length := Finset.mem_range.mp hi
  have hj' : j < points.length := Finset.mem_range.mp hj
  simp only [getD_eq_getElem _ _ hi', getD_eq_getElem _ _ hj'] at heq
  exact hnodup.getElem_inj_iff.mp heq

theorem capacity_room (hdegree : degree < points.length) :
    degree + 1 + 2 * capacity points.length degree ≤ points.length := by
  unfold capacity
  rw [if_neg (by omega)]
  omega

theorem Explains.unique (hnodup : points.Nodup) (hdegree : degree < points.length)
    (hP : Explains points shares degree P) (hQ : Explains points shares degree Q) : P = Q := by
  have hroom : degree + 1 + 2 * capacity points.length degree ≤
      (Finset.range points.length).card := by
    rw [Finset.card_range]
    exact capacity_room hdegree
  exact eq_of_few_disagreements (points_injOn hnodup) hroom hP.degree_le hQ.degree_le hP.few hQ.few

end Codewords

/-! ## The key equation -/

section KeyEquations

variable {points shares : List Scalar} {degree : ℕ}

theorem keyRow_length (qLen errors : ℕ) (point share : Scalar) :
    (keyRow qLen errors point share).coefficients.length = qLen + errors := by
  simp [keyRow]

theorem keyRow_low (point share : Scalar) (hk : k < qLen) :
    (keyRow qLen errors point share).coefficient k = point ^ k := by
  rw [Equation.coefficient, keyRow, getD_append _ _ _ _ (by simpa using hk),
    getD_eq_getElem _ _ (by simpa using hk), getElem_map, getElem_range]

theorem keyRow_high (point share : Scalar) (hk : k < errors) :
    (keyRow qLen errors point share).coefficient (qLen + k) = -share * point ^ k := by
  rw [Equation.coefficient, keyRow, getD_append_right _ _ _ _ (by simp),
    length_map, length_range, Nat.add_sub_cancel_left,
    getD_eq_getElem _ _ (by simpa using hk), getElem_map, getElem_range]

theorem keyRow_defect :
    (keyRow qLen errors point share).defect (qLen + errors) values =
      ∑ k ∈ Finset.range qLen, values k * point ^ k -
        share * (∑ k ∈ Finset.range errors, values (qLen + k) * point ^ k + point ^ errors) := by
  have hlow : ∑ k ∈ Finset.range qLen,
      (keyRow qLen errors point share).coefficient k * values k =
      ∑ k ∈ Finset.range qLen, values k * point ^ k := by
    refine Finset.sum_congr rfl fun k hk => ?_
    rw [keyRow_low point share (Finset.mem_range.mp hk), mul_comm]
  have hhigh : ∑ k ∈ Finset.range errors,
      (keyRow qLen errors point share).coefficient (qLen + k) * values (qLen + k) =
      -share * ∑ k ∈ Finset.range errors, values (qLen + k) * point ^ k := by
    rw [Finset.mul_sum]
    refine Finset.sum_congr rfl fun k hk => ?_
    rw [keyRow_high point share (Finset.mem_range.mp hk)]
    ring
  rw [Equation.defect, Finset.sum_range_add, hlow, hhigh, keyRow]
  ring

theorem solves_keyRows (hlength : shares.length = points.length) (qLen : ℕ)
    (values : ℕ → Scalar) :
    Solves (qLen + errors) values (zipWith (keyRow qLen errors) points shares) ↔
      ∀ i < points.length, (keyRow qLen errors (points.getD i 0) (shares.getD i 0)).defect
        (qLen + errors) values = 0 := by
  have hrows : (zipWith (keyRow qLen errors) points shares).length = points.length := by
    rw [length_zipWith, hlength, Nat.min_self]
  have hrow : ∀ i < points.length, rowOf (zipWith (keyRow qLen errors) points shares) i =
      keyRow qLen errors (points.getD i 0) (shares.getD i 0) := by
    intro i hi
    rw [rowOf_eq (by rw [hrows]; exact hi), getElem_zipWith, getD_eq_getElem _ _ hi,
      getD_eq_getElem]
  unfold Solves
  rw [hrows]
  exact forall₂_congr fun i hi => by rw [hrow i hi]

theorem keyRows_width (qLen : ℕ) : ∀ equation ∈
    zipWith (keyRow qLen errors) points shares,
      equation.coefficients.length = qLen + errors := by
  intro equation hmem
  obtain ⟨i, _, rfl⟩ := mem_iff_getElem.mp hmem
  rw [getElem_zipWith]
  exact keyRow_length ..

theorem keyEquation_of_solves (hlength : shares.length = points.length)
    {solution : List Scalar} (hsolution : solution.length = qLen + errors)
    (hsolves : Solves (qLen + errors) (fun c => solution.getD c 0)
      (zipWith (keyRow qLen errors) points shares)) :
    KeyEquation (Finset.range points.length) (points.getD · 0) (shares.getD · 0)
      (polynomial (solution.take qLen)) (polynomial (solution.drop qLen ++ [1])) := by
  intro i hi
  have hrow := (solves_keyRows hlength qLen _).mp hsolves i (Finset.mem_range.mp hi)
  have htake : (solution.take qLen).length = qLen := by
    rw [length_take, hsolution]
    omega
  have hdrop : (solution.drop qLen).length = errors := by
    rw [length_drop, hsolution]
    omega
  have hlow : ∀ k < qLen, (solution.take qLen).getD k 0 = solution.getD k 0 := by
    intro k hk
    rw [getD_eq_getElem?_getD, getElem?_take_of_lt hk, ← getD_eq_getElem?_getD]
  have hhigh : ∀ k, (solution.drop qLen).getD k 0 = solution.getD (qLen + k) 0 := by
    intro k
    rw [getD_eq_getElem?_getD, getElem?_drop, ← getD_eq_getElem?_getD]
  rw [keyRow_defect, sub_eq_zero] at hrow
  rw [eval_polynomial, htake, polynomial_append, eval_add, eval_polynomial, hdrop]
  simp only [hhigh, polynomial_cons, polynomial_nil, mul_zero, add_zero, C_1, mul_one, eval_pow,
    eval_X]
  rw [Finset.sum_congr rfl fun k hk => by rw [hlow k (Finset.mem_range.mp hk)]]
  exact hrow

theorem exists_solution (hlength : shares.length = points.length) {P : Scalar[X]}
    (hP : P.natDegree ≤ degree) (hwrong : (wrong points shares P).length = errors) :
    ∃ values, Solves (degree + errors + 1 + errors) values
      (zipWith (keyRow (degree + errors + 1) errors) points shares) := by
  set errorPlaces := disagreements (Finset.range points.length) (points.getD · 0)
    (shares.getD · 0) P with herrorPlaces
  have hcard : errorPlaces.card = errors := hwrong
  set L := locator (points.getD · 0) errorPlaces with hL
  have hmonic : L.Monic := locator_monic _ _
  have hdegree : L.natDegree = errors := (locator_natDegree _ _).trans hcard
  refine ⟨fun c => if c < degree + errors + 1 then (P * L).coeff c
    else L.coeff (c - (degree + errors + 1)), (solves_keyRows hlength _ _).mpr fun i hi => ?_⟩
  have hproduct : ∀ x, ∑ k ∈ Finset.range (degree + errors + 1), (P * L).coeff k * x ^ k =
      (P * L).eval x := by
    intro x
    refine (eval_eq_sum_range' (Nat.lt_succ_of_le (natDegree_mul_le.trans ?_)) x).symm
    omega
  have hlocator : ∀ x, ∑ k ∈ Finset.range errors, L.coeff k * x ^ k + x ^ errors = L.eval x := by
    intro x
    have hlead : L.coeff errors = 1 := hdegree ▸ hmonic.coeff_natDegree
    rw [eval_eq_sum_range' (Nat.lt_succ_of_le hdegree.le) x, Finset.sum_range_succ, hlead, one_mul]
  rw [keyRow_defect]
  have hlow : ∑ k ∈ Finset.range (degree + errors + 1), (if k < degree + errors + 1 then
      (P * L).coeff k else L.coeff (k - (degree + errors + 1))) * points.getD i 0 ^ k =
      (P * L).eval (points.getD i 0) := by
    rw [← hproduct]
    exact Finset.sum_congr rfl fun k hk => by rw [if_pos (Finset.mem_range.mp hk)]
  simp only [hlow, Nat.not_lt.mpr (Nat.le_add_right _ _), if_false, Nat.add_sub_cancel_left,
    hlocator]
  rw [keyEquation_locator (Finset.range points.length) (points.getD · 0) (shares.getD · 0) P i
    (Finset.mem_range.mpr hi), sub_self]

end KeyEquations

/-! ## Welch's step -/

section Welch

variable {points shares : List Scalar} {degree : ℕ}

/-- What is decoded is a polynomial that only disagrees with the culprits. -/
theorem welch_sound (h : welch points shares degree errors = some verdict) :
    ∃ P : Scalar[X], ∃ culprits, verdict = .decoded (P.eval 0) culprits ∧
      P.natDegree ≤ degree ∧ culprits.length = errors ∧
      ∀ i ∈ wrong points shares P, i ∈ culprits := by
  obtain ⟨solution, hsolution, h⟩ := Option.bind_eq_some_iff.mp h
  obtain ⟨⟨p, exact⟩, hdivide, h⟩ := Option.bind_eq_some_iff.mp h
  obtain ⟨hunknowns, -⟩ := solve_solves (keyRows_width _) hsolution
  have htake : (solution.take (degree + errors + 1)).length = degree + errors + 1 := by
    rw [length_take, hunknowns]
    omega
  have hdrop : (solution.drop (degree + errors + 1)).length = errors := by
    rw [length_drop, hunknowns]
    omega
  have hlonger : (solution.drop (degree + errors + 1)).length <
      (solution.take (degree + errors + 1)).length := by omega
  obtain ⟨quotient, remainder, exactly, hquotient, -, hp, -⟩ := divide_spec hlonger
  obtain ⟨rfl, -⟩ := Prod.mk.inj (Option.some.inj (hdivide.symm.trans hquotient))
  simp only at h
  split at h
  · cases h
  split at h
  · cases h
  rename_i hcount
  split at h
  · cases h
  rename_i hagree
  cases h
  refine ⟨polynomial p, _, by rw [eval_zero_polynomial], natDegree_polynomial_le (by omega),
    not_not.mp hcount, fun i hi => ?_⟩
  obtain ⟨hbound, _⟩ := mem_wrong.mp hi
  by_contra hnot
  exact hagree ⟨i, mem_range.mpr hbound, hnot, by rwa [evaluate_eq]⟩

theorem welch_complete (hnodup : points.Nodup) (hlength : shares.length = points.length)
    {P : Scalar[X]} (hP : P.natDegree ≤ degree)
    (hwrong : (wrong points shares P).length = errors)
    (hroom : degree + 1 + 2 * errors ≤ points.length) :
    welch points shares degree errors =
      some (.decoded (P.eval 0) (wrong points shares P)) := by
  obtain ⟨values, hvalues⟩ := exists_solution hlength hP hwrong
  obtain ⟨solution, hsolution⟩ := Option.ne_none_iff_exists'.mp
    (solve_ne_none (keyRows_width _) hvalues)
  obtain ⟨hunknowns, hsolves⟩ := solve_solves (keyRows_width _) hsolution
  have htake : (solution.take (degree + errors + 1)).length = degree + errors + 1 := by
    rw [length_take, hunknowns]
    omega
  have hdrop : (solution.drop (degree + errors + 1)).length = errors := by
    rw [length_drop, hunknowns]
    omega
  obtain ⟨hmonic, hnatDegree⟩ :=
    monic_polynomial_append_one (solution.drop (degree + errors + 1))
  have hcard : (disagreements (Finset.range points.length) (points.getD · 0) (shares.getD · 0)
      P).card = errors := hwrong
  have hdegree := degree_polynomial_lt (solution.take (degree + errors + 1))
  rw [htake] at hdegree
  -- the only solution is the polynomial times its locator
  obtain ⟨hproduct, hroots⟩ := keyEquation_unique (points_injOn hnodup) hP
    (by rw [hcard, Finset.card_range]; exact hroom) hmonic (by rw [hnatDegree, hdrop, hcard])
    (by rw [hcard]; exact hdegree) (keyEquation_of_solves hlength hunknowns hsolves)
  obtain ⟨quotient, hdivide, hquotient⟩ := divide_mul (by omega) hproduct
  have hculprits : (range points.length).filter (fun i =>
      evaluate (solution.drop (degree + errors + 1) ++ [1]) (points.getD i 0) = 0) =
      wrong points shares P := by
    refine filter_congr fun i hi => ?_
    rw [evaluate_eq]
    have hroot := hroots i (Finset.mem_range.mpr (mem_range.mp hi))
    rw [mem_disagreements_iff, mem_wrong] at hroot
    simp only [hroot, mem_range.mp hi, true_and]
  have hagree : ¬ ∃ i ∈ range points.length, i ∉ wrong points shares P ∧
      evaluate quotient (points.getD i 0) ≠ shares.getD i 0 := by
    rintro ⟨i, hi, hright, hne⟩
    rw [evaluate_eq, hquotient] at hne
    exact hright (mem_wrong.mpr ⟨mem_range.mp hi, hne⟩)
  unfold welch
  simp only [hsolution, Option.bind_eq_bind, Option.bind_some, hdivide, hculprits]
  rw [if_neg (by simp), if_neg (not_not.mpr hwrong), if_neg hagree, ← eval_zero_polynomial,
    hquotient]

end Welch

/-! ## The decoder is exact -/

section Locate

variable {points shares : List Scalar} {degree : ℕ}

noncomputable def firstInterpolant (points shares : List Scalar) (degree : ℕ) : Scalar[X] :=
  polynomial (interpolate (points.take (degree + 1)) (shares.take (degree + 1)))

theorem firstInterpolant_degree (hdegree : degree < points.length) :
    (firstInterpolant points shares degree).natDegree ≤ degree := by
  refine natDegree_polynomial_le ?_
  rw [interpolate_length, length_take]
  omega

section

variable (hnodup : points.Nodup)

include hnodup

section

variable (hdegree : degree < points.length)

include hdegree

theorem firstInterpolant_eval (hi : i ≤ degree) :
    (firstInterpolant points shares degree).eval (points.getD i 0) =
      shares.getD i 0 := by
  have htake : ∀ xs : List Scalar, (xs.take (degree + 1)).getD i 0 = xs.getD i 0 := by
    intro xs
    rw [getD_eq_getElem?_getD, getElem?_take_of_lt (by omega), ← getD_eq_getElem?_getD]
  have hshort : i < (points.take (degree + 1)).length := by
    rw [length_take]
    omega
  have hat := interpolate_at (shares.take (degree + 1))
    (hnodup.sublist (take_sublist (degree + 1) points)) hshort
  rw [htake, htake, evaluate_eq] at hat
  exact hat

/-- The shares all lie on one polynomial exactly if the later ones lie on the interpolant of the
first. -/
theorem disagreeing_isEmpty :
    ((range' (degree + 1) (points.length - (degree + 1))).filter fun i =>
      evaluate (interpolate (points.take (degree + 1)) (shares.take (degree + 1)))
        (points.getD i 0) ≠ shares.getD i 0).isEmpty = true ↔
      wrong points shares (firstInterpolant points shares degree) = [] := by
  rw [List.isEmpty_iff, filter_eq_nil_iff, wrong, filter_eq_nil_iff]
  constructor
  · intro hlater i hi
    by_cases hfirst : i ≤ degree
    · simp only [firstInterpolant_eval hnodup hdegree hfirst, ne_eq, not_true_eq_false,
        decide_false, Bool.false_eq_true, not_false_eq_true]
    · have hi' := mem_range.mp hi
      have hbad := hlater i (mem_range'_1.mpr (by omega))
      rwa [evaluate_eq] at hbad
  · intro hall i hi
    have hi' := mem_range'_1.mp hi
    have hbad := hall i (mem_range.mpr (by omega))
    rwa [evaluate_eq]

theorem eq_firstInterpolant {P : Scalar[X]} (hP : P.natDegree ≤ degree)
    (hright : wrong points shares P = []) :
    P = firstInterpolant points shares degree := by
  have hcard : degree < (Finset.range (degree + 1)).card := by simp
  refine eq_of_degrees_lt_of_eval_index_eq (Finset.range (degree + 1))
    ((points_injOn hnodup).mono ?_) (degree_lt_of_le hP hcard)
    (degree_lt_of_le (firstInterpolant_degree hdegree) hcard) fun i hi => ?_
  · exact Finset.coe_subset.mpr (Finset.range_subset_range.mpr hdegree)
  · have hi' := Finset.mem_range.mp hi
    rw [firstInterpolant_eval hnodup hdegree (by omega)]
    by_contra hne
    have hmem := mem_wrong.mpr ⟨show i < points.length by omega, hne⟩
    rw [hright] at hmem
    cases hmem

end

section

variable (hlength : shares.length = points.length)

include hlength

/-- The search finds the polynomial that explains the shares: no smaller number of errors decodes
anything, because it would decode the same polynomial. -/
theorem search_of_explains (hdegree : degree < points.length) (hP : Explains points shares degree P)
    (hpositive : 1 ≤ (wrong points shares P).length) :
    (range' 1 (capacity points.length degree)).findSome? (welch points shares degree) =
      some (.decoded (P.eval 0) (wrong points shares P)) := by
  have hroom := capacity_room hdegree
  have hfew := hP.few
  have hfound := welch_complete hnodup hlength hP.degree_le rfl
    (show degree + 1 + 2 * (wrong points shares P).length ≤ points.length by omega)
  have htried : (wrong points shares P).length ∈
      range' 1 (capacity points.length degree) := mem_range'_1.mpr (by omega)
  cases hsearch : (range' 1 (capacity points.length degree)).findSome?
      (welch points shares degree) with
  | none =>
    have hnone := findSome?_eq_none_iff.mp hsearch _ htried
    exact nomatch hnone.symm.trans hfound
  | some verdict =>
    obtain ⟨before, errors, after, hsplit, hverdict, hbefore⟩ :=
      findSome?_eq_some_iff.mp hsearch
    have hsorted := pairwise_lt_range' (s := 1) (n := capacity points.length degree)
    rw [hsplit] at htried hsorted
    obtain ⟨Q, culprits, -, hQ, hculprits, hsub⟩ := welch_sound hverdict
    have hfewer : (wrong points shares Q).length ≤ errors := by
      rw [← hculprits]
      exact (nodup_range.filter _).length_le_of_subset hsub
    have herrors : errors ∈ range' 1 (capacity points.length degree) := by
      rw [hsplit]
      exact mem_append_right _ mem_cons_self
    have hexplains : Explains points shares degree Q :=
      ⟨hQ, hfewer.trans (by have hlimit := mem_range'_1.mp herrors; omega)⟩
    obtain rfl := hP.unique hnodup hdegree hexplains
    rcases mem_append.mp htried with hearlier | hlater
    · exact nomatch (hbefore _ hearlier).symm.trans hfound
    · rcases mem_cons.mp hlater with hsame | hafter
      · rw [hsame] at hfound
        exact hverdict.symm.trans hfound
      · have hlt := (pairwise_cons.mp (pairwise_append.mp hsorted).2.1).1 _ hafter
        omega

theorem locate_of_explains (hdegree : degree < points.length)
    (hP : Explains points shares degree P) :
    locate points shares degree = .decoded (P.eval 0) (wrong points shares P) := by
  unfold locate
  simp only
  rw [if_neg (not_not.mpr hlength), if_neg (by omega)]
  split
  · rename_i hempty
    have hclean := (disagreeing_isEmpty hnodup hdegree).mp hempty
    have hfirst : Explains points shares degree (firstInterpolant points shares degree) :=
      ⟨firstInterpolant_degree hdegree, by rw [hclean]; exact Nat.zero_le _⟩
    obtain rfl := hP.unique hnodup hdegree hfirst
    rw [hclean, reconstruct_eq, evaluate_eq]
    rfl
  · rename_i hsome
    have hpositive : 1 ≤ (wrong points shares P).length := by
      by_contra hzero
      have hclean : wrong points shares P = [] := length_eq_zero_iff.mp (by omega)
      have hfirst := eq_firstInterpolant hnodup hdegree hP.degree_le hclean
      exact hsome ((disagreeing_isEmpty hnodup hdegree).mpr (hfirst ▸ hclean))
    rw [search_of_explains hnodup hlength hdegree hP hpositive]

theorem locate_of_unexplained (hdegree : degree < points.length)
    (hnone : ∀ P, ¬ Explains points shares degree P) :
    ∃ reason, locate points shares degree =
      .beyond (capacity points.length degree) reason := by
  unfold locate
  simp only
  rw [if_neg (not_not.mpr hlength), if_neg (by omega)]
  split_ifs with hempty
  · have hclean := (disagreeing_isEmpty hnodup hdegree).mp hempty
    exact absurd ⟨firstInterpolant_degree hdegree, by rw [hclean]; exact Nat.zero_le _⟩
      (hnone (firstInterpolant points shares degree))
  · split
    · rename_i verdict hsearch
      obtain ⟨errors, herrors, hverdict⟩ := exists_of_findSome?_eq_some hsearch
      obtain ⟨Q, culprits, -, hQ, hculprits, hsub⟩ := welch_sound hverdict
      have hfewer : (wrong points shares Q).length ≤ culprits.length :=
        (nodup_range.filter _).length_le_of_subset hsub
      refine absurd ⟨hQ, ?_⟩ (hnone Q)
      have hlimit := mem_range'_1.mp herrors
      omega
    · exact ⟨_, rfl⟩

end

end

/-- The decoder is exact. For distinct points and a degree below their number it decodes a secret
and culprits exactly if some polynomial of that degree explains all shares but as many as can be
corrected; that polynomial is the only one, the secret is its value at zero and the culprits are
the parties whose shares are not on it. Otherwise it gives up and names nobody. In particular,
of dealt shares of which no more were altered, it recovers the secret and names the altered. -/
theorem locate_exact (points shares : List Scalar) (degree : ℕ) (hnodup : points.Nodup)
    (hlength : shares.length = points.length) (hdegree : degree < points.length) :
    (∀ secret culprits, locate points shares degree = .decoded secret culprits ↔
      ∃ P, Explains points shares degree P ∧ secret = P.eval 0 ∧
        culprits = wrong points shares P) ∧
    (∀ P Q, Explains points shares degree P → Explains points shares degree Q → P = Q) ∧
    ((∃ limit reason, locate points shares degree = .beyond limit reason) ↔
      ∀ P, ¬ Explains points shares degree P) ∧
    ∀ secret random, random.length = degree →
      ((range points.length).filter fun i => shares.getD i 0 ≠
        (shareWithCoefficients secret random points).1.getD i 0).length ≤
          capacity points.length degree →
      locate points shares degree = .decoded secret
        ((range points.length).filter fun i => shares.getD i 0 ≠
          (shareWithCoefficients secret random points).1.getD i 0) := by
  refine ⟨fun secret culprits => ⟨fun hdecoded => ?_, ?_⟩, fun P Q hP hQ =>
    hP.unique hnodup hdegree hQ, ⟨?_, fun hnone => ?_⟩, fun secret random hrandom hfew => ?_⟩
  · by_cases hsome : ∃ P, Explains points shares degree P
    · obtain ⟨P, hP⟩ := hsome
      rw [locate_of_explains hnodup hlength hdegree hP, Verdict.decoded.injEq] at hdecoded
      exact ⟨P, hP, hdecoded.1.symm, hdecoded.2.symm⟩
    · obtain ⟨reason, hbeyond⟩ :=
        locate_of_unexplained hnodup hlength hdegree (not_exists.mp hsome)
      exact nomatch hbeyond.symm.trans hdecoded
  · rintro ⟨P, hP, rfl, rfl⟩
    exact locate_of_explains hnodup hlength hdegree hP
  · rintro ⟨_, reason, hbeyond⟩ P hP
    exact nomatch hbeyond.symm.trans (locate_of_explains hnodup hlength hdegree hP)
  · obtain ⟨reason, hbeyond⟩ := locate_of_unexplained hnodup hlength hdegree hnone
    exact ⟨_, reason, hbeyond⟩
  · have hwrong : (range points.length).filter (fun i => shares.getD i 0 ≠
        (shareWithCoefficients secret random points).1.getD i 0) =
        wrong points shares (polynomial (secret :: random)) := by
      refine filter_congr fun i hi => ?_
      have hi' := mem_range.mp hi
      have hdealt : (shareWithCoefficients secret random points).1.getD i 0 =
          (polynomial (secret :: random)).eval (points.getD i 0) := by
        rw [shareWithCoefficients, getD_eq_getElem _ _ (by simpa using hi'),
          getElem_map, evaluate_eq, getD_eq_getElem _ _ hi']
      rw [hdealt]
      exact decide_eq_decide.mpr ne_comm
    rw [hwrong] at hfew ⊢
    have hexplains : Explains points shares degree (polynomial (secret :: random)) :=
      ⟨natDegree_polynomial_le (by rw [length_cons, hrandom]), hfew⟩
    rw [locate_of_explains hnodup hlength hdegree hexplains, eval_zero_polynomial]
    rfl

/-- Five shares of a line, the third of them wrong. -/
theorem locate_exact_five :
    locate [1, 2, 3, 4, 5] [8, 9, 17, 11, 12] 1 = .decoded 7 [2] ∧
      ∀ P, Explains [1, 2, 3, 4, 5] [8, 9, 17, 11, 12] 1 P → P.eval 0 = 7 := by
  have hdecoded : locate [1, 2, 3, 4, 5] [8, 9, 17, 11, 12] 1 = .decoded 7 [2] := by
    decide +kernel
  have hexact := locate_exact [1, 2, 3, 4, 5] [8, 9, 17, 11, 12] 1 (by decide +kernel) rfl
    (by decide)
  obtain ⟨Q, hQ, hsecret, -⟩ := (hexact.1 7 [2]).mp hdecoded
  exact ⟨hdecoded, fun P hP => (hexact.2.1 P Q hP hQ) ▸ hsecret.symm⟩

end Locate

end Zkpi.ShamirDecoding
