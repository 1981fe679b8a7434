import Mathlib.Algebra.BigOperators.Field
import Mathlib.Data.List.GetD
import Mathlib.Tactic.Ring

/-!
# Gauss-Jordan elimination on a list of equations

The sweep visits the unknowns in order. In a column with a usable row it swaps that row up,
scales it to one and clears the column everywhere else; a column without one leaves its
unknown free. Free unknowns are set to zero at the end. The result solves the system, and
there is a result whenever the system has a solution.
-/

namespace Zkpi.LinearElimination

open List Finset Equiv

structure Equation (F : Type) where
  coefficients : List F
  /-- The right-hand side. -/
  rhs : F

open Equation

section Algorithm

variable {F : Type} [Field F] [DecidableEq F]

def Equation.coefficient (equation : Equation F) (column : ℕ) : F :=
  equation.coefficients.getD column 0

def Equation.scale (column : ℕ) (factor : F) (equation : Equation F) : Equation F where
  coefficients := equation.coefficients.mapIdx fun c cell =>
    if column ≤ c then cell * factor else cell
  rhs := equation.rhs * factor

def Equation.clear (column : ℕ) (equation pivot : Equation F) : Equation F :=
  let factor := equation.coefficient column
  if factor = 0 then equation
  else
    { coefficients := equation.coefficients.mapIdx fun c cell =>
        if column ≤ c then cell - pivot.coefficient c * factor else cell
      rhs := equation.rhs - pivot.rhs * factor }

variable (equations : List (Equation F))

def rowOf (row : ℕ) : Equation F :=
  equations.getD row ⟨[], 0⟩

def swapRows (i j : ℕ) : List (Equation F) :=
  (equations.set i (rowOf equations j)).set j (rowOf equations i)

structure Sweep (F : Type) where
  equations : List (Equation F)
  pivotOf : List (Option ℕ)
  row : ℕ

def usableRow (state : Sweep F) (column : ℕ) : Option ℕ :=
  (range' state.row (state.equations.length - state.row)).find? fun r =>
    (rowOf state.equations r).coefficient column ≠ 0

def pivotOn (state : Sweep F) (column found : ℕ) : Sweep F :=
  let swapped := swapRows state.equations state.row found
  let first := rowOf swapped state.row
  let pivot := first.scale column (first.coefficient column)⁻¹
  { equations := swapped.mapIdx fun r equation =>
      if r = state.row then pivot else equation.clear column pivot
    pivotOf := state.pivotOf.set column (some state.row)
    row := state.row + 1 }

def sweep : List ℕ → Sweep F → Sweep F
  | [], state => state
  | column :: rest, state =>
    match usableRow state column with
    | none => sweep rest state
    | some found =>
      let next := pivotOn state column found
      if next.row = next.equations.length then next else sweep rest next

/-- The state a solution is read off from. -/
def finalSweep (unknowns : ℕ) : Sweep F :=
  sweep (range unknowns) ⟨equations, replicate unknowns none, 0⟩

def Sweep.value (state : Sweep F) : Option ℕ → F
  | none => 0
  | some row => (rowOf state.equations row).rhs

/-- Gaussian elimination with the free variables set to zero. A row that is all zeros with a
right-hand side that is not has no solution. -/
def solve (unknowns : ℕ) : Option (List F) :=
  let final := finalSweep equations unknowns
  if ∃ equation ∈ final.equations.drop final.row,
      equation.rhs ≠ 0 ∧ ∀ value ∈ equation.coefficients, value = 0 then none
  else some (final.pivotOf.map final.value)

end Algorithm

/-! ## Rows -/

section Rows

variable {F : Type} [Field F] {equations : List (Equation F)}

theorem rowOf_eq (h : row < equations.length) : rowOf equations row = equations[row] :=
  getD_eq_getElem _ _ h

theorem rowOf_mem (h : row < equations.length) : rowOf equations row ∈ equations :=
  rowOf_eq h ▸ getElem_mem h

theorem swapRows_length (i j : ℕ) : (swapRows equations i j).length = equations.length := by
  simp [swapRows]

theorem rowOf_swapRows (hi : i < equations.length) (hj : j < equations.length) (r : ℕ) :
    rowOf (swapRows equations i j) r = rowOf equations (swap i j r) := by
  unfold rowOf swapRows
  rw [getD_eq_getElem?_getD, getElem?_set, getElem?_set, length_set, swap_apply_def]
  by_cases hrj : j = r
  · subst hrj
    by_cases hij : j = i
    · subst hij
      simp [hj, rowOf]
    · simp [hj, hij, rowOf]
  · by_cases hri : i = r
    · subst hri
      simp [hrj, hi, rowOf]
    · simp [hrj, hri, Ne.symm hrj, Ne.symm hri, getD_eq_getElem?_getD]

variable {r : ℕ}

theorem swap_lt (hi : i < n) (hj : j < n) (hr : r < n) : swap i j r < n := by
  rw [swap_apply_def]
  split_ifs <;> assumption

theorem rowOf_mapIdx {f : ℕ → Equation F → Equation F} (h : r < equations.length) :
    rowOf (equations.mapIdx f) r = f r (rowOf equations r) := by
  rw [rowOf_eq h, rowOf_eq (by simpa using h), getElem_mapIdx]

theorem getD_mapIdx {cells : List F} {f : ℕ → F → F} (h : c < cells.length) :
    (cells.mapIdx f).getD c 0 = f c (cells.getD c 0) := by
  rw [getD_eq_getElem _ _ (by simpa using h), getD_eq_getElem _ _ h, getElem_mapIdx]

theorem Equation.scale_length (column : ℕ) (factor : F) (equation : Equation F) :
    (equation.scale column factor).coefficients.length = equation.coefficients.length := by
  simp [scale]

variable {equation : Equation F}

/-- Scaling acts on every coefficient if those before its column are zero. -/
theorem Equation.scale_coefficient (hzero : ∀ c < column, equation.coefficient c = 0)
    (hc : c < equation.coefficients.length) :
    (equation.scale column factor).coefficient c = equation.coefficient c * factor := by
  unfold coefficient scale
  rw [getD_mapIdx hc]
  split_ifs with hcolumn
  · rfl
  · have hcell : equation.coefficients.getD c 0 = 0 := hzero c (Nat.lt_of_not_le hcolumn)
    rw [hcell, zero_mul]

variable [DecidableEq F]

theorem Equation.clear_length (column : ℕ) (equation pivot : Equation F) :
    (equation.clear column pivot).coefficients.length = equation.coefficients.length := by
  unfold clear
  simp only
  split
  · rfl
  · exact length_mapIdx

/-- Clearing subtracts a multiple of the pivot if the pivot is zero before its column. -/
theorem Equation.clear_coefficient {pivot : Equation F}
    (hzero : ∀ c < column, pivot.coefficient c = 0) (hc : c < equation.coefficients.length) :
    (equation.clear column pivot).coefficient c =
      equation.coefficient c - pivot.coefficient c * equation.coefficient column := by
  unfold clear
  simp only
  split_ifs with hfactor
  · rw [hfactor, mul_zero, sub_zero]
  · change (mapIdx _ _).getD c 0 = _
    rw [getD_mapIdx hc]
    split_ifs with hcolumn
    · rfl
    · rw [hzero c (Nat.lt_of_not_le hcolumn), zero_mul, sub_zero]
      rfl

theorem Equation.clear_rhs :
    (equation.clear column pivot).rhs =
      equation.rhs - pivot.rhs * equation.coefficient column := by
  unfold clear
  simp only
  split_ifs with hfactor
  · rw [hfactor, mul_zero, sub_zero]
  · rfl

end Rows

/-! ## What a sweep keeps -/

section Invariant

variable {F : Type} [Field F]

def Equation.defect (unknowns : ℕ) (values : ℕ → F) (equation : Equation F) : F :=
  ∑ c ∈ Finset.range unknowns, equation.coefficient c * values c - equation.rhs

def Solves (unknowns : ℕ) (values : ℕ → F) (equations : List (Equation F)) : Prop :=
  ∀ r < equations.length, (rowOf equations r).defect unknowns values = 0

def Sweep.pivot (state : Sweep F) (unknown : ℕ) : Option ℕ := state.pivotOf.getD unknown none

structure Swept (unknowns column : ℕ) (state : Sweep F) : Prop where
  width : ∀ r < state.equations.length,
    (rowOf state.equations r).coefficients.length = unknowns
  pivots : state.pivotOf.length = unknowns
  bounded : state.row ≤ state.equations.length
  cleared : ∀ k r, state.pivot k = some r → r < state.row ∧
    (rowOf state.equations r).coefficient k = 1 ∧
    ∀ other < state.equations.length, other ≠ r → (rowOf state.equations other).coefficient k = 0
  free : ∀ k < column, state.pivot k = none → ∀ r, state.row ≤ r → r < state.equations.length →
    (rowOf state.equations r).coefficient k = 0
  ahead : ∀ k, column ≤ k → state.pivot k = none
  used : ∀ r < state.row, ∃ k < unknowns, state.pivot k = some r ∧
    ∀ other, state.pivot other = some r → other = k

variable {unknowns : ℕ} {state : Sweep F}

variable {r k : ℕ}

theorem Swept.zero_before (h : Swept unknowns column state) (hrow : state.row ≤ r)
    (hr : r < state.equations.length) (hk : k < column) :
    (rowOf state.equations r).coefficient k = 0 := by
  cases hpivot : state.pivot k with
  | none => exact h.free k hk hpivot r hrow hr
  | some other =>
    obtain ⟨hother, -, hclear⟩ := h.cleared k other hpivot
    exact hclear r hr (by omega)

theorem Swept.pivot_before (h : Swept unknowns column state) (hpivot : state.pivot k = some r) :
    k < column := by
  by_contra hnot
  have hnone := h.ahead k (by omega)
  exact nomatch hnone.symm.trans hpivot

theorem swept_start {equations : List (Equation F)}
    (hwidth : ∀ equation ∈ equations, equation.coefficients.length = unknowns) :
    Swept unknowns 0 ⟨equations, replicate unknowns none, 0⟩ := by
  have hnone : ∀ k, Sweep.pivot ⟨equations, replicate unknowns none, 0⟩ k = none := by
    intro k
    simp only [Sweep.pivot, getD_eq_getElem?_getD, getElem?_replicate]
    split <;> rfl
  exact
    { width := fun r hr => hwidth _ (rowOf_mem hr)
      pivots := length_replicate
      bounded := Nat.zero_le _
      cleared := fun k r hpivot => nomatch (hnone k).symm.trans hpivot
      free := fun k hk => absurd hk (Nat.not_lt_zero k)
      ahead := fun k _ => hnone k
      used := fun r hr => absurd hr (Nat.not_lt_zero r) }

def scaledRow (state : Sweep F) (column found : ℕ) : Equation F :=
  (rowOf state.equations found).scale column ((rowOf state.equations found).coefficient column)⁻¹

theorem Swept.scaledRow_coefficient (h : Swept unknowns column state) (hrow : state.row ≤ found)
    (hfound : found < state.equations.length) (hk : k < unknowns) :
    (scaledRow state column found).coefficient k = (rowOf state.equations found).coefficient k *
      ((rowOf state.equations found).coefficient column)⁻¹ := by
  refine scale_coefficient (fun c hc => h.zero_before hrow hfound hc) ?_
  rw [h.width found hfound]
  exact hk

theorem Swept.scaledRow_before (h : Swept unknowns column state) (hrow : state.row ≤ found)
    (hfound : found < state.equations.length) (hcolumn : column < unknowns) (hk : k < column) :
    (scaledRow state column found).coefficient k = 0 := by
  rw [h.scaledRow_coefficient hrow hfound (by omega), h.zero_before hrow hfound hk, zero_mul]

variable [DecidableEq F]

theorem Swept.pass (h : Swept unknowns column state) (hnone : usableRow state column = none) :
    Swept unknowns (column + 1) state := by
  refine ⟨h.width, h.pivots, h.bounded, h.cleared, fun k hk hpivot r hrow hr => ?_,
    fun k hk => h.ahead k (by omega), h.used⟩
  rcases Nat.lt_succ_iff_lt_or_eq.mp hk with hbefore | rfl
  · exact h.free k hbefore hpivot r hrow hr
  · have hall := find?_eq_none.mp hnone r (mem_range'_1.mpr ⟨hrow, by omega⟩)
    simpa using hall

theorem usableRow_some (h : usableRow state column = some found) :
    state.row ≤ found ∧ found < state.equations.length ∧
      (rowOf state.equations found).coefficient column ≠ 0 := by
  have hmem := mem_range'_1.mp (mem_of_find?_eq_some h)
  have hne := find?_some h
  refine ⟨hmem.1, by omega, ?_⟩
  simpa using hne

section Pivot

theorem pivotOn_length : (pivotOn state column found).equations.length =
    state.equations.length := by
  simp [pivotOn, swapRows_length]

variable {r : ℕ}

theorem rowOf_pivotOn (hrow : state.row < state.equations.length)
    (hfound : found < state.equations.length) (hr : r < state.equations.length) :
    rowOf (pivotOn state column found).equations r =
      if r = state.row then scaledRow state column found
      else (rowOf state.equations (swap state.row found r)).clear column
        (scaledRow state column found) := by
  have hfirst : rowOf (swapRows state.equations state.row found) state.row =
      rowOf state.equations found := by
    rw [rowOf_swapRows hrow hfound, swap_apply_left]
  simp only [pivotOn]
  rw [rowOf_mapIdx (by rwa [swapRows_length]), hfirst, rowOf_swapRows hrow hfound]
  rfl

theorem Swept.cleared_coefficient (h : Swept unknowns column state) (hrow : state.row ≤ found)
    (hfound : found < state.equations.length) (hcolumn : column < unknowns)
    (hr : r < state.equations.length) (hk : k < unknowns) :
    ((rowOf state.equations r).clear column (scaledRow state column found)).coefficient k =
      (rowOf state.equations r).coefficient k - (rowOf state.equations found).coefficient k *
        ((rowOf state.equations found).coefficient column)⁻¹ *
        (rowOf state.equations r).coefficient column := by
  rw [clear_coefficient (fun c hc => h.scaledRow_before hrow hfound hcolumn hc)
    (by rw [h.width r hr]; exact hk), h.scaledRow_coefficient hrow hfound hk]

theorem Swept.pivot_pivotOn (h : Swept unknowns column state) (hcolumn : column < unknowns)
    (found k : ℕ) : (pivotOn state column found).pivot k =
      if k = column then some state.row else state.pivot k := by
  simp only [Sweep.pivot, pivotOn, getD_eq_getElem?_getD, getElem?_set, h.pivots]
  by_cases hk : k = column
  · subst hk
    simp [hcolumn]
  · simp only [if_neg hk, if_neg (Ne.symm hk)]

end Pivot

section Found

variable (h : Swept unknowns column state) (hcolumn : column < unknowns)
  (husable : usableRow state column = some found)

include h hcolumn

theorem Swept.used_pivotOn (hr : r < state.row + 1) :
    ∃ k < unknowns, (pivotOn state column found).pivot k = some r ∧
      ∀ other, (pivotOn state column found).pivot other = some r → other = k := by
  have hsame : ∀ other, (pivotOn state column found).pivot other = some r →
      (other = column ∧ r = state.row) ∨ state.pivot other = some r := by
    intro other hother
    rw [h.pivot_pivotOn hcolumn] at hother
    split at hother
    · exact .inl ⟨‹_›, (Option.some.inj hother).symm⟩
    · exact .inr hother
  rcases Nat.lt_succ_iff_lt_or_eq.mp hr with hold | rfl
  · obtain ⟨k, hk, hpivot, hunique⟩ := h.used r hold
    have hbefore := h.pivot_before hpivot
    refine ⟨k, hk, ?_, fun other hother => ?_⟩
    · rw [h.pivot_pivotOn hcolumn, if_neg (by omega), hpivot]
    · rcases hsame other hother with ⟨-, rfl⟩ | hpivot'
      · exact absurd hold (Nat.lt_irrefl _)
      · exact hunique other hpivot'
  · refine ⟨column, hcolumn, ?_, fun other hother => ?_⟩
    · rw [h.pivot_pivotOn hcolumn, if_pos rfl]
    · rcases hsame other hother with ⟨hcol, -⟩ | hpivot'
      · exact hcol
      · exact absurd (h.cleared other _ hpivot').1 (Nat.lt_irrefl _)

include husable

/-- The column of the new pivot is cleared. -/
theorem Swept.clears_column :
    (rowOf (pivotOn state column found).equations state.row).coefficient column = 1 ∧
      ∀ other < state.equations.length, other ≠ state.row →
        (rowOf (pivotOn state column found).equations other).coefficient column = 0 := by
  obtain ⟨hrow, hfound, hne⟩ := usableRow_some husable
  have hfirst : state.row < state.equations.length := by omega
  refine ⟨?_, fun other hother hne' => ?_⟩
  · rw [rowOf_pivotOn hfirst hfound hfirst, if_pos rfl,
      h.scaledRow_coefficient hrow hfound hcolumn, mul_inv_cancel₀ hne]
  · rw [rowOf_pivotOn hfirst hfound hother, if_neg hne',
      h.cleared_coefficient hrow hfound hcolumn (swap_lt hfirst hfound hother) hcolumn,
      mul_inv_cancel₀ hne, one_mul, sub_self]

/-- The column of an earlier pivot stays cleared: the pivot's row stays where it is, and the row of
the new pivot is zero in that column. -/
theorem Swept.keeps_column (hpivot : state.pivot k = some r) :
    (rowOf (pivotOn state column found).equations r).coefficient k = 1 ∧
      ∀ other < state.equations.length, other ≠ r →
        (rowOf (pivotOn state column found).equations other).coefficient k = 0 := by
  obtain ⟨hrow, hfound, -⟩ := usableRow_some husable
  have hfirst : state.row < state.equations.length := by omega
  obtain ⟨hused, hone, hclear⟩ := h.cleared k r hpivot
  have hk : k < unknowns := (h.pivot_before hpivot).trans hcolumn
  have hzero := hclear found hfound (by omega)
  have hstays : swap state.row found r = r := swap_apply_of_ne_of_ne (by omega) (by omega)
  refine ⟨?_, fun other hother hne' => ?_⟩
  · rw [rowOf_pivotOn hfirst hfound (by omega), if_neg (by omega), hstays,
      h.cleared_coefficient hrow hfound hcolumn (by omega) hk, hzero, hone, zero_mul,
      zero_mul, sub_zero]
  · have hmoved := swap_lt hfirst hfound hother
    rw [rowOf_pivotOn hfirst hfound hother]
    split
    · rw [h.scaledRow_coefficient hrow hfound hk, hzero, zero_mul]
    · have hother' : swap state.row found other ≠ r := by
        rw [← hstays]
        exact fun heq => hne' ((swap state.row found).injective heq)
      rw [h.cleared_coefficient hrow hfound hcolumn hmoved hk, hzero, hclear _ hmoved hother',
        zero_mul, zero_mul, sub_zero]

theorem Swept.pivotOn : Swept unknowns (column + 1) (pivotOn state column found) := by
  obtain ⟨hrow, hfound, -⟩ := usableRow_some husable
  have hfirst : state.row < state.equations.length := by omega
  have hlength : (LinearElimination.pivotOn state column found).equations.length =
      state.equations.length := pivotOn_length
  refine
    { width := fun r hr => ?_
      pivots := (length_set ..).trans h.pivots
      bounded := hlength ▸ hfirst
      cleared := fun k r hpivot => ?_
      free := fun k hk hpivot r hused hr => ?_
      ahead := fun k hk => ?_
      used := fun r hr => h.used_pivotOn hcolumn hr }
  · rw [hlength] at hr
    rw [rowOf_pivotOn hfirst hfound hr]
    split
    · exact (scale_length ..).trans (h.width found hfound)
    · exact (clear_length ..).trans (h.width _ (swap_lt hfirst hfound hr))
  · rw [h.pivot_pivotOn hcolumn] at hpivot
    rw [hlength]
    split at hpivot
    · rename_i hk
      subst hk
      cases hpivot
      exact ⟨Nat.lt_succ_self _, h.clears_column hcolumn husable⟩
    · exact ⟨Nat.lt_succ_of_lt (h.cleared k r hpivot).1, h.keeps_column hcolumn husable hpivot⟩
  · rw [h.pivot_pivotOn hcolumn] at hpivot
    rw [hlength] at hr
    split at hpivot
    · cases hpivot
    · have hrow' : state.row < r := hused
      have hmoved := swap_lt hfirst hfound hr
      have hunused : state.row ≤ swap state.row found r := by
        rw [swap_apply_def]
        split_ifs <;> omega
      rw [rowOf_pivotOn hfirst hfound hr, if_neg (by omega),
        h.cleared_coefficient hrow hfound hcolumn hmoved (by omega),
        h.zero_before hunused hmoved (by omega), h.zero_before hrow hfound (by omega), zero_mul,
        zero_mul, sub_zero]
  · rw [h.pivot_pivotOn hcolumn, if_neg (by omega)]
    exact h.ahead k (by omega)

end Found

/-! ## Solutions -/

variable (values : ℕ → F)

section

variable (h : Swept unknowns column state)

include h

omit [DecidableEq F] in
theorem Swept.scaledRow_defect (hrow : state.row ≤ found)
    (hfound : found < state.equations.length) :
    (scaledRow state column found).defect unknowns values =
      (rowOf state.equations found).defect unknowns values *
        ((rowOf state.equations found).coefficient column)⁻¹ := by
  have hsum : ∑ c ∈ Finset.range unknowns, (scaledRow state column found).coefficient c * values c =
      (∑ c ∈ Finset.range unknowns, (rowOf state.equations found).coefficient c * values c) *
        ((rowOf state.equations found).coefficient column)⁻¹ := by
    rw [sum_mul]
    refine sum_congr rfl fun c hc => ?_
    rw [h.scaledRow_coefficient hrow hfound (Finset.mem_range.mp hc)]
    ring
  rw [defect, defect, hsum, sub_mul]
  rfl

theorem Swept.clear_defect (hrow : state.row ≤ found) (hfound : found < state.equations.length)
    (hcolumn : column < unknowns)
    (hr : r < state.equations.length) :
    ((rowOf state.equations r).clear column (scaledRow state column found)).defect unknowns values =
      (rowOf state.equations r).defect unknowns values -
        (scaledRow state column found).defect unknowns values *
          (rowOf state.equations r).coefficient column := by
  have hsum : ∑ c ∈ Finset.range unknowns,
      ((rowOf state.equations r).clear column (scaledRow state column found)).coefficient c *
        values c =
      ∑ c ∈ Finset.range unknowns, (rowOf state.equations r).coefficient c * values c -
        (∑ c ∈ Finset.range unknowns, (scaledRow state column found).coefficient c * values c) *
          (rowOf state.equations r).coefficient column := by
    rw [sum_mul, ← sum_sub_distrib]
    refine sum_congr rfl fun c hc => ?_
    rw [clear_coefficient (fun c hc => h.scaledRow_before hrow hfound hcolumn hc)
      (by rw [h.width r hr]; exact Finset.mem_range.mp hc)]
    ring
  rw [defect, hsum, clear_rhs, defect, defect]
  ring

theorem Swept.solves_pivotOn (hcolumn : column < unknowns)
    (husable : usableRow state column = some found) :
    Solves unknowns values (LinearElimination.pivotOn state column found).equations ↔
      Solves unknowns values state.equations := by
  obtain ⟨hrow, hfound, hne⟩ := usableRow_some husable
  have hfirst : state.row < state.equations.length := by omega
  have hscaled := h.scaledRow_defect values hrow hfound
  unfold Solves
  rw [pivotOn_length]
  constructor
  · intro hsolves
    have hpivot := hsolves state.row hfirst
    rw [rowOf_pivotOn hfirst hfound hfirst, if_pos rfl] at hpivot
    have hzero : (rowOf state.equations found).defect unknowns values = 0 := by
      rw [hpivot] at hscaled
      exact (mul_eq_zero.mp hscaled.symm).resolve_right (inv_ne_zero hne)
    intro r hr
    have hback := hsolves (swap state.row found r) (swap_lt hfirst hfound hr)
    rw [rowOf_pivotOn hfirst hfound (swap_lt hfirst hfound hr), swap_apply_self] at hback
    split_ifs at hback with hswap
    · rw [swap_apply_eq_iff, swap_apply_left] at hswap
      rw [hswap]
      exact hzero
    · rw [h.clear_defect values hrow hfound hcolumn hr, hpivot, zero_mul, sub_zero] at hback
      exact hback
  · intro hsolves r hr
    have hzero : (scaledRow state column found).defect unknowns values = 0 := by
      rw [hscaled, hsolves found hfound, zero_mul]
    rw [rowOf_pivotOn hfirst hfound hr]
    split
    · exact hzero
    · rw [h.clear_defect values hrow hfound hcolumn (swap_lt hfirst hfound hr), hzero,
        hsolves _ (swap_lt hfirst hfound hr), zero_mul, sub_zero]

theorem Swept.sweep (hcolumns : columns = range' column (unknowns - column))
    (hbound : column ≤ unknowns) :
    Swept unknowns unknowns (LinearElimination.sweep columns state) ∧
      ∀ values, Solves unknowns values (LinearElimination.sweep columns state).equations ↔
        Solves unknowns values state.equations := by
  induction columns generalizing column state with
  | nil =>
    have hdone : column = unknowns := by
      have hlength := congrArg length hcolumns
      simp only [length_nil, length_range'] at hlength
      omega
    subst hdone
    exact ⟨h, fun _ => Iff.rfl⟩
  | cons head rest ih =>
    obtain ⟨hmore, rfl, hrest⟩ : column < unknowns ∧ head = column ∧
        rest = range' (column + 1) (unknowns - (column + 1)) := by
      rcases hn : unknowns - column with _ | m
      · rw [hn] at hcolumns
        cases hcolumns
      · rw [hn, range'_succ, List.cons.injEq] at hcolumns
        have hm : m = unknowns - (column + 1) := by omega
        exact ⟨by omega, hcolumns.1, hm ▸ hcolumns.2⟩
    unfold LinearElimination.sweep
    split
    · rename_i hnone
      exact ih (h.pass hnone) hrest hmore
    · rename_i found hfound
      have hnext := h.pivotOn hmore hfound
      have hsolves := fun values => h.solves_pivotOn values hmore hfound
      simp only
      split
      · -- the rows are used up: the remaining unknowns are free
        rename_i hfull
        refine ⟨⟨hnext.width, hnext.pivots, hnext.bounded, hnext.cleared, ?_, ?_, hnext.used⟩,
          hsolves⟩
        · intro k hk hpivot r hrow hr
          omega
        · exact fun k hk => hnext.ahead k (by omega)
      · obtain ⟨hswept, hkept⟩ := ih hnext hrest hmore
        exact ⟨hswept, fun values => (hkept values).trans (hsolves values)⟩

end

omit [DecidableEq F] in
theorem Swept.used_defect (h : Swept unknowns unknowns state)
    (hfree : ∀ k < unknowns, state.pivot k = none → values k = 0)
    (hbound : ∀ k r, state.pivot k = some r → values k = (rowOf state.equations r).rhs)
    (hr : r < state.row) :
    (rowOf state.equations r).defect unknowns values = 0 := by
  obtain ⟨k, hk, hpivot, hunique⟩ := h.used r hr
  have hsum : ∑ c ∈ Finset.range unknowns, (rowOf state.equations r).coefficient c * values c =
      (rowOf state.equations r).coefficient k * values k := by
    refine Finset.sum_eq_single_of_mem k (Finset.mem_range.mpr hk) fun c hc hne => ?_
    cases hother : state.pivot c with
    | none => rw [hfree c (Finset.mem_range.mp hc) hother, mul_zero]
    | some r' =>
      have hne' : r ≠ r' := by
        rintro rfl
        exact hne (hunique c hother)
      have hlength : r < state.equations.length := by
        have hbounded := h.bounded
        omega
      rw [(h.cleared c r' hother).2.2 r hlength hne', zero_mul]
  rw [defect, hsum, (h.cleared k r hpivot).2.1, one_mul, hbound k r hpivot, sub_self]

omit [DecidableEq F] in
theorem Swept.unused_zero (h : Swept unknowns unknowns state) (hrow : state.row ≤ r)
    (hr : r < state.equations.length) : ∀ value ∈ (rowOf state.equations r).coefficients,
      value = 0 := by
  intro _ hvalue
  obtain ⟨k, hk, rfl⟩ := mem_iff_getElem.mp hvalue
  have hzero := h.zero_before hrow hr (k := k) (by rwa [← h.width r hr])
  rwa [coefficient, getD_eq_getElem _ _ hk] at hzero

omit [DecidableEq F] in
theorem Equation.defect_of_zero {equation : Equation F}
    (hzero : ∀ value ∈ equation.coefficients, value = 0) :
    equation.defect unknowns values = - equation.rhs := by
  have hcoefficient : ∀ c, equation.coefficient c = 0 := by
    intro c
    rw [coefficient, getD_eq_getElem?_getD]
    cases hcell : equation.coefficients[c]? with
    | none => rfl
    | some value => exact hzero value (mem_of_getElem? hcell)
  simp [defect, hcoefficient]

end Invariant

/-! ## The result -/

section Result

variable {F : Type} [Field F] [DecidableEq F] {equations : List (Equation F)} {unknowns : ℕ}

section

variable (hwidth : ∀ equation ∈ equations, equation.coefficients.length = unknowns)

include hwidth

theorem finalSweep_spec :
    Swept unknowns unknowns (finalSweep equations unknowns) ∧
      ∀ values, Solves unknowns values (finalSweep equations unknowns).equations ↔
        Solves unknowns values equations :=
  (swept_start hwidth).sweep (range_eq_range' ..) (Nat.zero_le _)

theorem solve_solves
    (h : solve equations unknowns = some solution) :
    solution.length = unknowns ∧ Solves unknowns (fun c => solution.getD c 0) equations := by
  obtain ⟨hswept, hkept⟩ := finalSweep_spec hwidth
  unfold solve at h
  generalize finalSweep equations unknowns = final at h hswept hkept
  simp only at h
  split at h
  · cases h
  rename_i hconsistent
  cases h
  refine ⟨(length_map ..).trans hswept.pivots, (hkept _).mp fun r hr => ?_⟩
  have hread : ∀ k < unknowns,
      (final.pivotOf.map final.value).getD k 0 = final.value (final.pivot k) := by
    intro k hk
    rw [getD_eq_getElem _ _ (by rw [length_map, hswept.pivots]; exact hk),
      getElem_map, Sweep.pivot, getD_eq_getElem]
  by_cases hrow : r < final.row
  · refine hswept.used_defect _ (fun k hk hnone => ?_) (fun k r' hsome => ?_) hrow
    · rw [hread k hk, hnone]
      rfl
    · have hk : k < unknowns := by
        by_contra hnot
        exact nomatch (hswept.ahead k (by omega)).symm.trans hsome
      rw [hread k hk, hsome]
      rfl
  · have hzero := hswept.unused_zero (Nat.le_of_not_lt hrow) hr
    rw [defect_of_zero _ hzero, neg_eq_zero]
    by_contra hrhs
    refine hconsistent ⟨_, ?_, hrhs, hzero⟩
    have hlast : (final.equations.drop final.row)[r - final.row]? =
        some (rowOf final.equations r) := by
      rw [getElem?_drop, Nat.add_sub_cancel' (Nat.le_of_not_lt hrow),
        getElem?_eq_getElem hr, rowOf_eq hr]
    exact mem_of_getElem? hlast

/-- Something is returned if the system has a solution. -/
theorem solve_ne_none
    {values : ℕ → F} (hsolves : Solves unknowns values equations) :
    solve equations unknowns ≠ none := by
  obtain ⟨-, hkept⟩ := finalSweep_spec hwidth
  intro h
  unfold solve at h
  generalize finalSweep equations unknowns = final at h hkept
  simp only at h
  split at h
  · rename_i hbad
    obtain ⟨_, hmem, hrhs, hzero⟩ := hbad
    obtain ⟨r, hr, rfl⟩ := mem_iff_getElem.mp (mem_of_mem_drop hmem)
    have hdefect := (hkept values).mpr hsolves r hr
    rw [rowOf_eq hr, defect_of_zero _ hzero, neg_eq_zero] at hdefect
    exact hrhs hdefect
  · cases h

end

end Result

end Zkpi.LinearElimination
