import Mathlib.LinearAlgebra.Lagrange

/-!
# Error locators

Values at distinct points that differ from a polynomial of low degree in few places determine
that polynomial. The key equation of Berlekamp and Welch has exactly one solution with a monic
locator of the right degree, and the locator vanishes exactly at the places in error.
-/

namespace Zkpi.ErrorLocators

open Polynomial Finset

section Locators

variable {F I : Type} [Field F]

def KeyEquation (places : Finset I) (points values : I → F) (Q E : F[X]) : Prop :=
  ∀ i ∈ places, Q.eval (points i) = values i * E.eval (points i)

noncomputable def locator (points : I → F) (errors : Finset I) : F[X] :=
  ∏ i ∈ errors, (X - C (points i))

theorem locator_monic (points : I → F) (errors : Finset I) : (locator points errors).Monic :=
  monic_prod_X_sub_C points errors

theorem locator_natDegree (points : I → F) (errors : Finset I) :
    (locator points errors).natDegree = errors.card :=
  natDegree_finsetProd_X_sub_C_eq_card errors points

theorem locator_eval_of_mem {points : I → F} (hi : i ∈ errors) :
    (locator points errors).eval (points i) = 0 := by
  rw [locator, eval_prod]
  exact prod_eq_zero hi (by simp)

theorem degree_lt_of_le {P : F[X]} (hP : P.natDegree ≤ d) (hd : d < n) :
    P.degree < (n : WithBot ℕ) :=
  (degree_le_of_natDegree_le hP).trans_lt (by exact_mod_cast hd)

end Locators

section Decoding

variable {F I : Type} [Field F] [DecidableEq F]

noncomputable def disagreements (places : Finset I) (points values : I → F) (P : F[X]) :
    Finset I :=
  places.filter fun i => P.eval (points i) ≠ values i

variable {places : Finset I} {values : I → F}

theorem mem_disagreements :
    i ∈ disagreements places points values P ↔ i ∈ places ∧ P.eval (points i) ≠ values i :=
  mem_filter

theorem eval_of_not_mem (hi : i ∈ places)
    (hagree : i ∉ disagreements places points values P) : P.eval (points i) = values i := by
  by_contra hne
  exact hagree (mem_disagreements.mpr ⟨hi, hne⟩)

variable [DecidableEq I]

theorem eq_of_few_disagreements (hpoints : Set.InjOn points places)
    (hroom : d + 1 + 2 * e ≤ places.card) {P Q : F[X]} (hP : P.natDegree ≤ d)
    (hQ : Q.natDegree ≤ d) (hfewP : (disagreements places points values P).card ≤ e)
    (hfewQ : (disagreements places points values Q).card ≤ e) : P = Q := by
  have hagreed : (disagreements places points values P ∪
      disagreements places points values Q).card ≤ e + e :=
    (card_union_le _ _).trans (Nat.add_le_add hfewP hfewQ)
  have hsub : disagreements places points values P ∪ disagreements places points values Q ⊆
      places := union_subset (filter_subset _ _) (filter_subset _ _)
  have hcard : d < (places \ (disagreements places points values P ∪
      disagreements places points values Q)).card := by
    rw [card_sdiff_of_subset hsub]
    omega
  refine eq_of_degrees_lt_of_eval_index_eq (places \ (disagreements places points values P ∪
    disagreements places points values Q)) (hpoints.mono ?_)
    (degree_lt_of_le hP hcard) (degree_lt_of_le hQ hcard) fun i hi => ?_
  · exact coe_subset.mpr sdiff_subset
  · obtain ⟨hi, hagree⟩ := mem_sdiff.mp hi
    rw [mem_union, not_or] at hagree
    rw [eval_of_not_mem hi hagree.1, eval_of_not_mem hi hagree.2]

theorem keyEquation_locator (places : Finset I) (points values : I → F) (P : F[X]) :
    KeyEquation places points values
      (P * locator points (disagreements places points values P))
      (locator points (disagreements places points values P)) := by
  intro i hi
  rw [eval_mul]
  by_cases herror : i ∈ disagreements places points values P
  · rw [locator_eval_of_mem herror, mul_zero, mul_zero]
  · rw [eval_of_not_mem hi herror]

/-- Every solution of the key equation with a monic locator of the right degree is the one of
the polynomial: its quotient is the polynomial and its roots are the disagreements. -/
theorem keyEquation_unique (hpoints : Set.InjOn points places) {P Q E : F[X]} (hP : P.natDegree ≤ d)
    (hroom : d + 1 + 2 * (disagreements places points values P).card ≤ places.card)
    (hmonic : E.Monic) (hE : E.natDegree = (disagreements places points values P).card)
    (hQ : Q.degree < ((d + (disagreements places points values P).card + 1 : ℕ) : WithBot ℕ))
    (hkey : KeyEquation places points values Q E) :
    Q = P * E ∧ ∀ i ∈ places, E.eval (points i) = 0 ↔
      i ∈ disagreements places points values P := by
  have hsub : disagreements places points values P ⊆ places := filter_subset _ _
  have hgood : d + (disagreements places points values P).card + 1 ≤
      (places \ disagreements places points values P).card := by
    rw [card_sdiff_of_subset hsub]
    omega
  have hproduct : Q = P * E := by
    have hdegree : (P * E).natDegree ≤ d + (disagreements places points values P).card :=
      natDegree_mul_le.trans (Nat.add_le_add hP hE.le)
    refine eq_of_degrees_lt_of_eval_index_eq (places \ disagreements places points values P)
      (hpoints.mono (coe_subset.mpr sdiff_subset))
      (hQ.trans_le (by exact_mod_cast hgood)) (degree_lt_of_le hdegree hgood)
      fun i hi => ?_
    obtain ⟨hi, hagree⟩ := mem_sdiff.mp hi
    rw [hkey i hi, eval_mul, eval_of_not_mem hi hagree]
  -- the locator has as many roots among the places as its degree allows
  have hroots : disagreements places points values P ⊆
      places.filter fun i => E.eval (points i) = 0 := by
    intro i hi
    obtain ⟨hplace, hne⟩ := mem_disagreements.mp hi
    refine mem_filter.mpr ⟨hplace, ?_⟩
    have hvalue := hkey i hplace
    rw [hproduct, eval_mul] at hvalue
    by_contra hroot
    exact hne (mul_right_cancel₀ hroot hvalue)
  have hfew : (places.filter fun i => E.eval (points i) = 0).card ≤
      (disagreements places points values P).card := by
    rw [← hE]
    have himage : (places.filter fun i => E.eval (points i) = 0).image points ⊆
        E.roots.toFinset := by
      intro x hx
      obtain ⟨i, hi, rfl⟩ := mem_image.mp hx
      rw [Multiset.mem_toFinset, mem_roots hmonic.ne_zero]
      exact (mem_filter.mp hi).2
    have hcard : ((places.filter fun i => E.eval (points i) = 0).image points).card =
        (places.filter fun i => E.eval (points i) = 0).card :=
      card_image_of_injOn (hpoints.mono (coe_subset.mpr (filter_subset _ _)))
    rw [← hcard]
    exact (card_le_card himage).trans ((Multiset.toFinset_card_le _).trans (card_roots' E))
  refine ⟨hproduct, fun i hi => ?_⟩
  rw [eq_of_subset_of_card_le hroots hfew, mem_filter]
  exact ⟨fun hroot => ⟨hi, hroot⟩, fun hmem => hmem.2⟩

end Decoding

end Zkpi.ErrorLocators
