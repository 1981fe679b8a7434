import Zkpi.BitRange
import Mathlib.Data.List.GetD

/-!
# Threshold range proofs

A threshold quorum proves each bit of a range by a square: the committed bit
times itself is itself. The public verifier is the same composition as for
branch-selecting bits. What it accepts is an exact binary expansion, and up to
252 bits that expansion stays below the group order, so the opening is neither
negative nor wrapped.
-/

namespace Zkpi.ThresholdRange

open ScalarField ByteText PedersenSigma WeightedBits BitRange List

abbrev ThresholdRangeProof (P : Type) := DecompositionProof P (ProductProof P)

variable {P : Type} [AddCommGroup P] [Module Scalar P] [DecidableEq P]

def verifySquareBit (primitives : Primitives P) (key : Pedersen P) (transcript : Transcript)
    (commitment : P) (proof : ProductProof P) : Bool :=
  verifyProduct primitives key transcript commitment commitment commitment proof

def verifyThresholdRange (primitives : Primitives P) (key : Pedersen P) (commitment : P)
    (proof : ThresholdRangeProof P) (context : Bytes) : Bool :=
  verifyDecomposition (verifySquareBit primitives key) primitives key commitment proof context

variable {primitives : Primitives P} {key : Pedersen P} {commitment : P}
  {proof : ThresholdRangeProof P} {context : Bytes}

theorem verifyThresholdRange_digits {binding : Binding key}
    (hproduct : ProductSound primitives binding) (hzero : ZeroOpeningSound primitives binding)
    (h : verifyThresholdRange primitives key commitment proof context = true) :
    ∃ digits : List ℕ, digits.length = proof.bits ∧ (∀ digit ∈ digits, digit < 2) ∧
      proof.bitCommitments.map binding.value = digits.map (fun digit : ℕ => (digit : Scalar)) ∧
      binding.value commitment = (Nat.ofDigits 2 digits : ℕ) :=
  decomposition_digits binding (fun _ _ _ hone => hproduct.square hone) hzero h

theorem verifyThresholdRange_value {binding : Binding key}
    (hproduct : ProductSound primitives binding) (hzero : ZeroOpeningSound primitives binding)
    (h : verifyThresholdRange primitives key commitment proof context = true) :
    ∃ n : ℕ, n < 2 ^ proof.bits ∧ binding.value commitment = (n : Scalar) := by
  obtain ⟨digits, hlength, hdigits, _, hvalue⟩ := verifyThresholdRange_digits hproduct hzero h
  refine ⟨Nat.ofDigits 2 digits, ?_, hvalue⟩
  rw [← hlength]
  exact ofDigits_bits_lt hdigits

/-- Every accepted threshold range proof is an exact binary expansion. Each bit
commitment opens to zero or one, the commitment opens to the sum of the bits
under their weights, and up to 252 bits that sum is below the power of two of
the width and is the canonical representative of the opening. -/
theorem threshold_range_exact (primitives : Primitives P) {key : Pedersen P}
    (binding : Binding key) (hproduct : ProductSound primitives binding)
    (hzero : ZeroOpeningSound primitives binding) (commitment : P)
    (proof : ThresholdRangeProof P) (context : Bytes)
    (h : verifyThresholdRange primitives key commitment proof context = true) :
    ∃ bit : ℕ → ℕ, (∀ j, bit j = 0 ∨ bit j = 1) ∧
      proof.bitCommitments.map binding.value =
        (range proof.bits).map (fun j => (bit j : Scalar)) ∧
      binding.value commitment = (∑ j ∈ Finset.range proof.bits, 2 ^ j * bit j : ℕ) ∧
      (proof.bits ≤ 252 → ∑ j ∈ Finset.range proof.bits, 2 ^ j * bit j < 2 ^ proof.bits ∧
        (binding.value commitment).val = ∑ j ∈ Finset.range proof.bits, 2 ^ j * bit j) := by
  obtain ⟨digits, hlength, hdigits, hvalues, hvalue⟩ :=
    verifyThresholdRange_digits hproduct hzero h
  have hsum : Nat.ofDigits 2 digits =
      ∑ j ∈ Finset.range proof.bits, 2 ^ j * digits.getD j 0 := by
    rw [← hlength]
    exact ofDigits_eq_sum digits
  refine ⟨fun j => digits.getD j 0, ?_, ?_, ?_, ?_⟩
  · intro j
    by_cases hj : j < digits.length
    · have hd := hdigits _ (getElem_mem hj)
      dsimp only
      rw [getD_eq_getElem digits 0 hj]
      omega
    · left
      exact getD_eq_default digits 0 (by omega)
  · rw [hvalues, ← hlength]
    apply ext_getElem
    · simp
    · intro j hj _
      have hlt : j < digits.length := by simpa only [length_map] using hj
      simp only [getElem_map, getElem_range, getD_eq_getElem digits 0 hlt]
  · rw [hvalue, hsum]
  · intro hbits
    have hlt : Nat.ofDigits 2 digits < 2 ^ proof.bits := by
      rw [← hlength]
      exact ofDigits_bits_lt hdigits
    have horder : 2 ^ proof.bits ≤ 2 ^ 252 := Nat.pow_le_pow_right (by norm_num) hbits
    refine ⟨by rw [← hsum]; exact hlt, ?_⟩
    rw [hvalue, ZMod.val_natCast, Nat.mod_eq_of_lt (hlt.trans_le (horder.trans
      pow_252_lt_order.le)), hsum]

/-! ## A quorum proof in the ideal model -/

section Sample

open IdealChallenges

variable (context : Bytes)

noncomputable def sampleSquare (bit : Bool) (index : ℕ) : ProductProof Point :=
  proveProduct idealPrimitives idealKey
    (componentTranscript (context ++ utf8 ":bit:" ++ beBytes 2 index))
    (idealKey.commit (bitScalar bit) 0) (bitScalar bit) 0 (bitScalar bit) 0 0 0 0 0

theorem sampleSquare_accepted : verifySquareBit idealPrimitives idealKey
      (componentTranscript (context ++ utf8 ":bit:" ++ beBytes 2 index))
      (idealKey.commit (bitScalar bit) 0) (sampleSquare context bit index) = true := by
  have h := proveProduct_accepted idealPrimitives idealKey
    (componentTranscript (context ++ utf8 ":bit:" ++ beBytes 2 index))
    (rfl : idealKey.commit (bitScalar bit) 0 = _) (bitScalar bit) 0 0 0 0 0
  have hsquare : bitScalar bit * bitScalar bit = bitScalar bit := by
    cases bit <;> simp [bitScalar]
  rw [hsquare] at h
  exact h

noncomputable def sampleThreshold : ThresholdRangeProof Point where
  bitCommitments := [idealKey.commit (bitScalar false) 0, idealKey.commit (bitScalar true) 0]
  bitProofs := [sampleSquare context false 0, sampleSquare context true 1]
  linkage := proveZeroOpening idealPrimitives idealKey
    (componentTranscript (suffixedContext context ":link"))
    (BitRange.residual (idealKey.commit 2 0)
      [idealKey.commit (bitScalar false) 0, idealKey.commit (bitScalar true) 0]) 0 0 0
  bits := 2

theorem sampleThreshold_accepted :
    verifyThresholdRange idealPrimitives idealKey (idealKey.commit 2 0) (sampleThreshold context)
      context = true := by
  rw [verifyThresholdRange, verifyDecomposition_iff]
  refine ⟨rfl, rfl, ?_, proveZeroOpening_accepted idealPrimitives idealKey _ ?_ _ _⟩
  · simp only [sampleThreshold, verifyBits, zip_cons_cons, zip_nil_left,
      zipIdx_cons, zipIdx_nil, all_cons, all_nil, bitContext,
      Nat.zero_add, Nat.reducePow, Nat.reduceLT, if_true, sampleSquare_accepted, Bool.and_self]
  · simp only [sampleThreshold, BitRange.residual, doublingSum_cons, doublingSum_nil,
      Pedersen.commit, bitScalar, Bool.false_eq_true, if_false, if_true]
    module

/-- The sample quorum proof meets the hypotheses and hides exactly two. -/
theorem threshold_range_exact_sample :
    (sampleThreshold []).bits = 2 ∧ ∃ bit : ℕ → ℕ, (∀ j, bit j = 0 ∨ bit j = 1) ∧
      (idealBinding.value (idealKey.commit 2 0)).val =
        ∑ j ∈ Finset.range (sampleThreshold []).bits, 2 ^ j * bit j := by
  obtain ⟨bit, hbit, _, _, hexact⟩ := threshold_range_exact idealPrimitives idealBinding
    ideal_productSound ideal_zeroOpeningSound (idealKey.commit 2 0) (sampleThreshold []) []
    (sampleThreshold_accepted [])
  exact ⟨rfl, bit, hbit, (hexact (by decide)).2⟩

end Sample

end Zkpi.ThresholdRange
