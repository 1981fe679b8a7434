import Zkpi.FallibleChecks
import Mathlib.Data.List.GetD
import Mathlib.Order.Interval.Finset.Nat
import Mathlib.SetTheory.Cardinal.Finite

/-!
# Noise drawn from a table

A 64-bit draw is turned into noise by the endpoints of the noise distribution. The endpoints are
the floors of cumulative probabilities, which floating-point arithmetic supplies, and `2 ^ 64`
after them; each has to lie above the one before it. The program for the nodes compares the
shared draw with all endpoints but the last.
-/

namespace Zkpi.NoiseTables

open FallibleChecks List

def addEndpoint (endpoints : List ℕ) (endpoint : ℕ) : Except String (List ℕ) := do
  refuseIf (endpoints.getLast?.any (endpoint ≤ ·))
    "64-bit CDF has a zero-probability cell; lower support or epsilon"
  .ok (endpoints ++ [endpoint])

def thresholds (floors : List ℕ) : Except String (List ℕ) :=
  (floors ++ [2 ^ 64]).foldlM addEndpoint []

variable (support : UInt16)

def sampleU64 (floors : List ℕ) (uniform : UInt64) : Except String ℤ := do
  let endpoints ← thresholds floors
  .ok (-support.toNat + endpoints.findIdx (uniform.toNat < ·))

/-- The noise the program for the nodes computes from a draw. -/
def emittedNoise (endpoints : List ℕ) (u : ℕ) : ℤ :=
  -support.toNat +
    (endpoints.dropLast.map fun threshold => if threshold ≤ u then 1 else 0 : List ℕ).sum

variable {floors endpoints : List ℕ}

theorem foldlM_addEndpoint {start : List ℕ} (hchain : start.IsChain (· < ·))
    (h : floors.foldlM addEndpoint start = .ok endpoints) :
    endpoints = start ++ floors ∧ endpoints.Pairwise (· < ·) := by
  induction floors generalizing start with
  | nil =>
    obtain rfl := Except.ok.inj h
    exact ⟨(append_nil _).symm, isChain_iff_pairwise.mp hchain⟩
  | cons endpoint rest ih =>
    rw [foldlM_cons] at h
    obtain ⟨_, hstep, h⟩ := bind_ok.mp h
    obtain ⟨habove, hstep⟩ := refuseIf_bind_ok.mp hstep
    obtain rfl := Except.ok.inj hstep
    rw [append_cons]
    refine ih (isChain_append.mpr ⟨hchain, .singleton _, ?_⟩) h
    intro previous hprevious _ hnext
    obtain rfl := Option.some.inj hnext
    rw [hprevious] at habove
    simpa using habove

theorem countP_eq_findIdx (h : endpoints.Pairwise (· < ·)) (u : ℕ) :
    endpoints.countP (· ≤ u) = endpoints.findIdx (u < ·) := by
  induction h with
  | nil => rfl
  | @cons first rest hfirst _ ih =>
    rw [findIdx_cons, countP_cons]
    rcases le_or_gt first u with hbelow | habove
    · simp [ih, hbelow, not_lt.mpr hbelow]
    · have hnone : rest.countP (· ≤ u) = 0 :=
        countP_eq_zero.mpr fun other hother => by simpa using habove.trans (hfirst other hother)
      simp [hnone, habove, not_le.mpr habove]

/-- A draw falls into the cell between two endpoints that follow each other. -/
theorem findIdx_eq_iff (hsorted : endpoints.Pairwise (· < ·)) {u index : ℕ}
    (hindex : index < endpoints.length) :
    endpoints.findIdx (u < ·) = index ↔
      (0 :: endpoints).getD index 0 ≤ u ∧ u < endpoints.getD index 0 := by
  rw [findIdx_eq hindex, getD_eq_getElem _ _ hindex, decide_eq_true_eq, and_comm]
  refine and_congr_left fun _ => ?_
  cases index with
  | zero => simp
  | succ before =>
    rw [getD_cons_succ, getD_eq_getElem _ _ (by omega)]
    simp only [decide_eq_false_iff_not, not_lt]
    refine ⟨fun h => h before (Nat.lt_succ_self _), fun h other hother => ?_⟩
    exact (hsorted.sortedLT.getElem_le_getElem_iff.mpr (Nat.le_of_lt_succ hother)).trans h

theorem card_between {low high : ℕ} (h : high ≤ 2 ^ 64) :
    Nat.card {uniform : UInt64 // low ≤ uniform.toNat ∧ uniform.toNat < high} = high - low := by
  have hfits : ∀ n ∈ Finset.Ico low high, (UInt64.ofNat n).toNat = n := fun n hn =>
    UInt64.toNat_ofNat_of_lt' ((Finset.mem_Ico.mp hn).2.trans_le h)
  rw [← Nat.card_Ico, ← Nat.card_eq_finsetCard]
  exact Nat.card_congr
    { toFun := fun uniform => ⟨uniform.1.toNat, Finset.mem_Ico.mpr uniform.2⟩
      invFun := fun n => ⟨UInt64.ofNat n.1, by simpa [hfits n.1 n.2] using Finset.mem_Ico.mp n.2⟩
      left_inv := fun uniform => by simp
      right_inv := fun n => Subtype.ext (hfits n.1 n.2) }

/-- Sampling agrees with the program for the nodes on every draw, and a noise value is drawn in as
many cases as its endpoints are apart. -/
theorem sampled_noise_exact (h : thresholds floors = .ok endpoints) :
    (∀ uniform, sampleU64 support floors uniform =
      .ok (emittedNoise support endpoints uniform.toNat)) ∧
    (∀ uniform, ∃ index < endpoints.length,
      sampleU64 support floors uniform = .ok (-support.toNat + index)) ∧
    ∀ index < endpoints.length,
      Nat.card {uniform // sampleU64 support floors uniform = .ok (-support.toNat + index)} =
        endpoints.getD index 0 - (0 :: endpoints).getD index 0 := by
  obtain ⟨hall, hsorted⟩ := foldlM_addEndpoint .nil h
  rw [nil_append] at hall
  have hsample : ∀ uniform, sampleU64 support floors uniform =
      .ok (-support.toNat + endpoints.findIdx (uniform.toNat < ·)) := by
    intro uniform
    rw [sampleU64, h]
    rfl
  have hbelow : ∀ endpoint ∈ endpoints, endpoint ≤ 2 ^ 64 := by
    rw [hall] at hsorted ⊢
    intro endpoint hmem
    rcases mem_append.mp hmem with hfloor | hlast
    · exact ((pairwise_append.mp hsorted).2.2 _ hfloor _ (mem_singleton_self _)).le
    · exact (mem_singleton.mp hlast).le
  refine ⟨fun uniform => ?_, fun uniform => ⟨_, ?_, hsample uniform⟩, fun index hindex => ?_⟩
  · have hsum : ∀ items : List ℕ, items.countP (· ≤ uniform.toNat) =
        (items.map fun threshold => if threshold ≤ uniform.toNat then 1 else 0).sum := by
      intro items
      induction items with
      | nil => rfl
      | cons _ _ ih => simp [countP_cons, ih, add_comm]
    rw [hsample, emittedNoise, ← countP_eq_findIdx hsorted, hall, dropLast_concat, countP_append,
      hsum, countP_eq_zero.mpr (by simpa using uniform.toNat_lt), add_zero]
  · rw [findIdx_lt_length]
    exact ⟨2 ^ 64, by simp [hall], by simpa using uniform.toNat_lt⟩
  · simp only [hsample, Except.ok.injEq, add_right_inj, Nat.cast_inj, findIdx_eq_iff hsorted hindex]
    refine card_between ?_
    rw [getD_eq_getElem _ _ hindex]
    exact hbelow _ (getElem_mem hindex)

/-- Half of the draws leave a value as it is. -/
theorem even_table_exact :
    Nat.card {uniform // sampleU64 1 [2 ^ 62, 3 * 2 ^ 62] uniform = .ok 0} = 2 ^ 63 :=
  (sampled_noise_exact 1 (show thresholds _ = .ok [2 ^ 62, 3 * 2 ^ 62, 2 ^ 64] from rfl)).2.2 1
    (by decide)

end Zkpi.NoiseTables
