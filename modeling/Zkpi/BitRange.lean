import Zkpi.FallibleChecks
import Zkpi.IdealChallenges
import Zkpi.WeightedBits
import Zkpi.CheckedIntegers

/-!
# Bit-decomposition range proofs

One proof for each little-endian bit and a zero opening that links their
weighted sum to the commitment. The same composition is used with
branch-selecting bit proofs and with square product proofs, so its checks are
written once over an arbitrary bit verifier.

A bounded proof is a pair of such proofs at the width of the interval. It pins
the committed value exactly: neither side can wrap modulo the group order at
that width, and every honest value of the interval can be proved.
-/

namespace Zkpi.BitRange

open ScalarField ByteText CheckedIntegers PedersenSigma WeightedBits List

/-! ## The composition -/

def componentTranscript (context : Bytes) : Transcript :=
  (Transcript.new (utf8 "qomm:bitrange:v1")).appendMessage "context" context

def bitContext (context : Bytes) (index : ℕ) : Except String Bytes :=
  if index < 2 ^ 16 then .ok (context ++ utf8 ":bit:" ++ beBytes 2 index)
  else .error "bit width exceeds the transcript index"

theorem bitContext_eq (h : index < 2 ^ 16) :
    bitContext context index = .ok (context ++ utf8 ":bit:" ++ beBytes 2 index) :=
  if_pos h

def suffixedContext (context : Bytes) (suffix : String) : Bytes := context ++ utf8 suffix

structure DecompositionProof (P Q : Type) where
  bitCommitments : List P
  bitProofs : List Q
  /-- The zero opening of the commitment less the weighted bits. -/
  linkage : OpeningProof P
  /-- The declared width. -/
  bits : ℕ

abbrev RangeProof (P : Type) := DecompositionProof P (BitProof P)

section Composition

variable {P Q : Type} (verifyOne : Transcript → P → Q → Bool)

def verifyBits (context : Bytes) (bits : List (P × Q)) : Bool :=
  bits.zipIdx.all fun entry =>
    match bitContext context entry.2 with
    | .ok derived => verifyOne (componentTranscript derived) entry.1.1 entry.1.2
    | .error _ => false

variable {context : Bytes} {bits : List (P × Q)}

theorem verifyBits_mem (h : verifyBits verifyOne context bits = true) (hmem : entry ∈ bits) :
    ∃ transcript, verifyOne transcript entry.1 entry.2 = true := by
  obtain ⟨index, hindex, rfl⟩ := mem_iff_getElem.mp hmem
  have hentry := all_eq_true.mp h (bits[index], index)
    (mem_zipIdx_iff_getElem?.mpr (getElem?_eq_getElem hindex))
  dsimp only at hentry
  split at hentry
  · exact ⟨_, hentry⟩
  · cases hentry

theorem verifyBits_of_getElem
    (h : ∀ (index : ℕ) (hindex : index < bits.length), ∃ derived, bitContext context index = .ok
      derived ∧ verifyOne (componentTranscript derived) bits[index].1 bits[index].2 = true) :
    verifyBits verifyOne context bits = true := by
  refine all_eq_true.mpr fun entry hentry => ?_
  obtain ⟨hindex, hbit⟩ :=
    List.getElem?_eq_some_iff.mp (mem_zipIdx_iff_getElem?.mp hentry)
  obtain ⟨_, hcontext, hone⟩ := h entry.2 hindex
  rw [hcontext, ← hbit]
  exact hone

variable [AddCommGroup P] [Module Scalar P] [DecidableEq P]
variable (primitives : Primitives P) (key : Pedersen P)

/-- What the linkage has to open to zero. -/
def residual (commitment : P) (bitCommitments : List P) : P :=
  commitment - doublingSum Scalar bitCommitments

def verifyDecomposition (commitment : P) (proof : DecompositionProof P Q) (context : Bytes) :
    Bool :=
  if proof.bitCommitments.length ≠ proof.bits ∨ proof.bitProofs.length ≠ proof.bits then false
  else if ¬ verifyBits verifyOne context (proof.bitCommitments.zip proof.bitProofs) then false
  else verifyZeroOpening primitives key
    (componentTranscript (suffixedContext context ":link"))
    (residual commitment proof.bitCommitments) proof.linkage

theorem verifyDecomposition_iff (commitment : P) (proof : DecompositionProof P Q)
    (context : Bytes) :
    verifyDecomposition verifyOne primitives key commitment proof context = true ↔
      proof.bitCommitments.length = proof.bits ∧ proof.bitProofs.length = proof.bits ∧
      verifyBits verifyOne context (proof.bitCommitments.zip proof.bitProofs) = true ∧
      verifyZeroOpening primitives key (componentTranscript (suffixedContext context ":link"))
        (residual commitment proof.bitCommitments) proof.linkage = true := by
  unfold verifyDecomposition
  split
  · rename_i h
    simp only [Bool.false_eq_true, false_iff]
    rintro ⟨hc, hp, _⟩
    exact h.elim (fun hn => hn hc) (fun hn => hn hp)
  · rename_i h
    rw [not_or, not_not, not_not] at h
    split
    · rename_i hb
      simp [hb]
    · rename_i hb
      rw [not_not] at hb
      simp [h.1, h.2, hb]

/-- Against fixed openings, an accepted decomposition whose bit proofs are
sound writes the committed value in binary digits. -/
theorem decomposition_digits {key : Pedersen P} {verifyOne : Transcript → P → Q → Bool}
    {primitives : Primitives P} (binding : Binding key)
    (hbit : ∀ transcript commitment proof, verifyOne transcript commitment proof = true →
      binding.value commitment = 0 ∨ binding.value commitment = 1)
    (hzero : ZeroOpeningSound primitives binding)
    (h : verifyDecomposition verifyOne primitives key commitment proof context = true) :
    ∃ digits : List ℕ, digits.length = proof.bits ∧ (∀ digit ∈ digits, digit < 2) ∧
      proof.bitCommitments.map binding.value = digits.map (fun digit : ℕ => (digit : Scalar)) ∧
      binding.value commitment = (Nat.ofDigits 2 digits : ℕ) := by
  obtain ⟨hcommitments, hproofs, hbits, hlink⟩ :=
    (verifyDecomposition_iff verifyOne primitives key commitment proof context).mp h
  have hvalues : ∀ point ∈ proof.bitCommitments,
      binding.value point = 0 ∨ binding.value point = 1 := by
    intro point hpoint
    obtain ⟨index, hindex, rfl⟩ := mem_iff_getElem.mp hpoint
    have hpaired : index < (proof.bitCommitments.zip proof.bitProofs).length := by
      rw [length_zip]
      omega
    obtain ⟨transcript, hone⟩ := verifyBits_mem verifyOne hbits (getElem_mem hpaired)
    rw [getElem_zip] at hone
    exact hbit transcript _ _ hone
  let digits := proof.bitCommitments.map fun point => if binding.value point = 1 then 1 else 0
  have hdigits : proof.bitCommitments.map binding.value =
      digits.map (fun digit : ℕ => (digit : Scalar)) := by
    rw [map_map]
    apply map_congr_left
    intro point hpoint
    rcases hvalues point hpoint with hv | hv <;> simp [hv]
  refine ⟨digits, ?_, ?_, hdigits, ?_⟩
  · rw [length_map, hcommitments]
  · intro digit hdigit
    obtain ⟨point, _, rfl⟩ := mem_map.mp hdigit
    split <;> omega
  · have hsum := hzero _ _ _ hlink
    rw [residual, map_sub, map_doublingSum, hdigits, doublingSum_digits, sub_eq_zero] at hsum
    exact hsum

end Composition

/-! ## Range proofs -/

section Ranges

variable {P : Type} [AddCommGroup P] [Module Scalar P] [DecidableEq P]
variable (primitives : Primitives P) (key : Pedersen P)

def valueFits (value : UInt64) (bits : ℕ) : Bool := bits ≥ 64 || value.toNat < 2 ^ bits

def valueBit (value : UInt64) (index : ℕ) : Bool := index < 64 && value.toNat.testBit index

def bitCommitment (value : UInt64) (draws : ℕ → Scalar) (index : ℕ) : P :=
  key.commit (bitScalar (valueBit value index)) (draws index)

/-- The proof of the bit at an index. Its three scalars are drawn after the
blindings of all bits. -/
def bitProofAt (value : UInt64) (bits : ℕ) (context : Bytes) (draws : ℕ → Scalar) (index : ℕ) :
    Except String (BitProof P) := do
  let derived ← bitContext context index
  pure (proveBit primitives key (componentTranscript derived) (bitCommitment key value draws index)
    (valueBit value index) (draws index) (draws (bits + 3 * index))
    (draws (bits + 3 * index + 1)) (draws (bits + 3 * index + 2)))

/-- The zero opening of the commitment less its weighted bits. Its two scalars
are drawn last. -/
def linkageProof (commitment : P) (bitCommitments : List P) (blinding : Scalar) (bits : ℕ)
    (context : Bytes) (draws : ℕ → Scalar) : OpeningProof P :=
  let combinedBlinding := doublingSum Scalar ((range bits).map draws)
  proveZeroOpening primitives key (componentTranscript (suffixedContext context ":link"))
    (residual commitment bitCommitments) (blinding - combinedBlinding)
    (draws (4 * bits)) (draws (4 * bits + 1))

/-- Prove that a commitment opens to a value of the given width, drawing
randomness in the order of the source. -/
def proveRange (commitment : P) (value : UInt64) (blinding : Scalar) (bits : ℕ) (context : Bytes)
    (draws : ℕ → Scalar) : Except String (RangeProof P) :=
  if ¬ valueFits value bits then .error "value outside the range being proved"
  else if bits > 2 ^ 16 then .error "bit width exceeds the transcript index"
  else do
    let bitCommitments := (range bits).map (bitCommitment key value draws)
    let bitProofs ← (range bits).mapM (bitProofAt primitives key value bits context draws)
    pure {
      bitCommitments := bitCommitments
      bitProofs := bitProofs
      linkage := linkageProof primitives key commitment bitCommitments blinding bits context draws
      bits := bits }

def verifyRange (commitment : P) (proof : RangeProof P) (context : Bytes) : Bool :=
  verifyDecomposition (verifyBit primitives key) primitives key commitment proof context

def rangeDraws (bits : ℕ) : ℕ := 4 * bits + 2

theorem valueBit_eq :
    valueBit value index = value.toNat.testBit index := by
  unfold valueBit
  by_cases h : index < 64
  · simp [h]
  · have hlt : value.toNat < 2 ^ index :=
      lt_of_lt_of_le value.toNat_lt (Nat.pow_le_pow_right (by norm_num) (by omega))
    simp only [Nat.testBit_lt_two_pow hlt, Bool.and_false]

variable {value : UInt64} {bits : ℕ}

theorem doublingSum_valueBits (h : valueFits value bits = true) :
    doublingSum Scalar ((range bits).map fun index => bitScalar (valueBit value index)) =
      (value.toNat : Scalar) := by
  have hfits : value.toNat < 2 ^ bits := by
    simp only [valueFits, ge_iff_le, Bool.or_eq_true, decide_eq_true_eq] at h
    rcases h with h | h
    · exact lt_of_lt_of_le value.toNat_lt (Nat.pow_le_pow_right (by norm_num) h)
    · exact h
  have hdigits : (range bits).map (fun index => bitScalar (valueBit value index)) =
      ((lowBits value.toNat bits).map Bool.toNat).map (fun digit : ℕ => (digit : Scalar)) := by
    rw [lowBits, map_map, map_map]
    apply map_congr_left
    intro index _
    rw [valueBit_eq]
    simp only [Function.comp_apply, bitScalar]
    cases value.toNat.testBit index <;> simp
  rw [hdigits, doublingSum_digits, ofDigits_lowBits, Nat.mod_eq_of_lt hfits]

theorem bitProofAt_ok (value : UInt64) (bits : ℕ) (context : Bytes) (draws : ℕ → Scalar)
    (h : index < 2 ^ 16) :
    ∃ proof, bitProofAt primitives key value bits context draws index = .ok proof ∧
      verifyBit primitives key (componentTranscript (context ++ utf8 ":bit:" ++ beBytes 2 index))
        (bitCommitment key value draws index) proof = true := by
  refine ⟨proveBit primitives key
    (componentTranscript (context ++ utf8 ":bit:" ++ beBytes 2 index))
    (bitCommitment key value draws index) (valueBit value index) (draws index)
    (draws (bits + 3 * index)) (draws (bits + 3 * index + 1)) (draws (bits + 3 * index + 2)),
    ?_, ?_⟩
  · rw [bitProofAt, bitContext_eq h]
    rfl
  · exact proveBit_accepted primitives key _ rfl _ _ _

theorem verifyBits_honest {commitments : ℕ → P} {proofs : ℕ → BitProof P} (hbits : bits ≤ 2 ^ 16)
    (h : ∀ index, index < bits → verifyBit primitives key (componentTranscript (context ++ utf8
      ":bit:" ++ beBytes 2 index)) (commitments index) (proofs index) = true) :
    verifyBits (verifyBit primitives key) context
      (((range bits).map commitments).zip ((range bits).map proofs)) = true := by
  rw [zip_map', verifyBits, all_eq_true]
  rintro ⟨⟨point, proof⟩, index⟩ hentry
  have hget := mem_zipIdx_iff_getElem?.mp hentry
  have hindex : index < bits := by
    have hlt := (List.getElem?_eq_some_iff.mp hget).1
    simpa only [length_map, length_range] using hlt
  simp only [getElem?_map, getElem?_range hindex, Option.map_some,
    Option.some.injEq, Prod.mk.injEq] at hget
  obtain ⟨rfl, rfl⟩ := hget
  simp only [bitContext_eq (hindex.trans_le hbits)]
  exact h index hindex

variable {commitment : P} {blinding : Scalar}

omit [DecidableEq P] in
theorem residual_honest (hcommit : commitment = key.commit (value.toNat : Scalar) blinding)
    (hfits : valueFits value bits = true) (draws : ℕ → Scalar) :
    residual commitment ((range bits).map (bitCommitment key value draws)) =
      (blinding - doublingSum Scalar ((range bits).map draws)) • key.h := by
  have hsum : doublingSum Scalar ((range bits).map (bitCommitment key value draws)) =
      doublingSum Scalar ((range bits).map fun index => bitScalar (valueBit value index)) •
        key.g + doublingSum Scalar ((range bits).map draws) • key.h :=
    doublingSum_combine Scalar (range bits) _ draws key.g key.h
  rw [residual, hsum, doublingSum_valueBits hfits, hcommit, Pedersen.commit]
  module

theorem proveRange_accepted (hcommit : commitment = key.commit (value.toNat : Scalar) blinding)
    (hfits : valueFits value bits = true) (hbits : bits ≤ 2 ^ 16) (context : Bytes)
    (draws : ℕ → Scalar) :
    ∃ proof, proveRange primitives key commitment value blinding bits context draws = .ok proof ∧
      proof.bits = bits ∧ verifyRange primitives key commitment proof context = true := by
  have hexists : ∀ index : ℕ, ∃ proof, index < bits →
      bitProofAt primitives key value bits context draws index = .ok proof ∧
      verifyBit primitives key (componentTranscript (context ++ utf8 ":bit:" ++ beBytes 2 index))
        (bitCommitment key value draws index) proof = true := by
    intro index
    have hframed : min index (2 ^ 16 - 1) < 2 ^ 16 := by omega
    obtain ⟨proof, hproof⟩ := bitProofAt_ok primitives key value bits context draws hframed
    refine ⟨proof, fun hindex => ?_⟩
    rwa [min_eq_left (by omega)] at hproof
  choose proofs hproofs using hexists
  have hall : (range bits).mapM (bitProofAt primitives key value bits context draws) =
      .ok ((range bits).map proofs) := by
    rw [FallibleChecks.mapM_ok, map_map]
    exact map_congr_left fun index hindex => (hproofs index (mem_range.mp hindex)).1
  refine ⟨⟨(range bits).map (bitCommitment key value draws), (range bits).map proofs,
    linkageProof primitives key commitment ((range bits).map (bitCommitment key value draws))
      blinding bits context draws, bits⟩, ?_, rfl, ?_⟩
  · rw [proveRange, if_neg (not_not.mpr hfits), if_neg (by omega), hall]
    rfl
  · rw [verifyRange, verifyDecomposition_iff]
    refine ⟨by simp,
      by simp, ?_, ?_⟩
    · exact verifyBits_honest primitives key hbits fun index hindex => (hproofs index hindex).2
    · exact proveZeroOpening_accepted primitives key _
        (residual_honest key hcommit hfits draws) _ _

end Ranges

/-! ## Bounded intervals -/

structure BoundedProof (P : Type) where
  /-- The value less the low end. -/
  above : RangeProof P
  /-- The high end less the value. -/
  below : RangeProof P
  /-- The declared width of both. -/
  bits : ℕ

def scalarFromI64 (value : Int64) : Scalar :=
  if 0 ≤ value.toInt then (value.toInt.toNat : Scalar) else -(value.toInt.natAbs : Scalar)

def spanWidth (span : UInt64) : ℕ := max (64 - leadingZeros span) 1

def interval (value low high : Int64) : Except String (UInt64 × UInt64 × ℕ) :=
  let span := high.toInt - low.toInt
  if span < 0 then .error "empty interval"
  else if value.toInt < low.toInt ∨ value.toInt > high.toInt then
    .error "value outside the bounded interval"
  else
    match u64TryFrom span with
    | none => .error "bounded interval is too wide"
    | some span =>
      match u64TryFrom (value.toInt - low.toInt) with
      | none => .error "value outside the bounded interval"
      | some above => .ok (span, above, spanWidth span)

section Bounded

variable {P : Type} [AddCommGroup P] [Module Scalar P] [DecidableEq P]

def shiftCommitment (key : Pedersen P) (commitment : P) (low : Int64) : P :=
  commitment - scalarFromI64 low • key.g

def belowCommitment (key : Pedersen P) (commitment : P) (high : Int64) : P :=
  key.commit (scalarFromI64 high) 0 - commitment

variable (primitives : Primitives P) (key : Pedersen P)

/-- Prove that a value lies in an interval. The second range proof draws after
the first. -/
def proveBounded (value : Int64) (blinding : Scalar) (low high : Int64) (context : Bytes)
    (draws : ℕ → Scalar) : Except String (P × BoundedProof P × ℕ) := do
  let (span, aboveValue, bits) ← interval value low high
  let commitment := key.commit (scalarFromI64 value) blinding
  let above ← proveRange primitives key (shiftCommitment key commitment low) aboveValue blinding
    bits (suffixedContext context "|above") draws
  let below ← proveRange primitives key (belowCommitment key commitment high) (span - aboveValue)
    (-blinding) bits (suffixedContext context "|below") (fun n => draws (rangeDraws bits + n))
  pure (commitment, ⟨above, below, bits⟩, bits)

def verifyBounded (commitment : P) (proof : BoundedProof P) (low high : Int64)
    (context : Bytes) : Bool :=
  let span := high.toInt - low.toInt
  if span < 0 then false
  else
    match u64TryFrom span with
    | none => false
    | some span =>
      let bits := spanWidth span
      if proof.bits ≠ bits then false
      else if proof.above.bits ≠ bits ∨ proof.below.bits ≠ bits then false
      else if ¬ verifyRange primitives key (shiftCommitment key commitment low) proof.above
          (suffixedContext context "|above") then false
      else verifyRange primitives key (belowCommitment key commitment high) proof.below
        (suffixedContext context "|below")

theorem scalarFromI64_eq (value : Int64) : scalarFromI64 value = ((value.toInt : ℤ) : Scalar) := by
  unfold scalarFromI64
  split_ifs with h
  · rw [← Int.cast_natCast, Int.toNat_of_nonneg h]
  · rw [← Int.cast_natCast, Int.ofNat_natAbs_of_nonpos (by omega), Int.cast_neg, neg_neg]

theorem spanWidth_bounds (span : UInt64) :
    span.toNat < 2 ^ spanWidth span ∧ 1 ≤ spanWidth span ∧ spanWidth span ≤ 64 := by
  have hsize : Nat.size span.toNat ≤ 64 := Nat.size_le.mpr span.toNat_lt
  have hwidth : Nat.size span.toNat ≤ spanWidth span := by
    simp only [spanWidth, leadingZeros]
    omega
  refine ⟨Nat.size_le.mp hwidth, by simp only [spanWidth]; omega, ?_⟩
  simp only [spanWidth, leadingZeros]
  omega

theorem verifyBounded_iff (commitment : P) (proof : BoundedProof P) (low high : Int64)
    (context : Bytes) :
    verifyBounded primitives key commitment proof low high context = true ↔
      ∃ span : UInt64, (span.toNat : ℤ) = high.toInt - low.toInt ∧
        proof.bits = spanWidth span ∧ proof.above.bits = spanWidth span ∧
        proof.below.bits = spanWidth span ∧
        verifyRange primitives key (shiftCommitment key commitment low) proof.above
          (suffixedContext context "|above") = true ∧
        verifyRange primitives key (belowCommitment key commitment high) proof.below
          (suffixedContext context "|below") = true := by
  unfold verifyBounded
  dsimp only
  split
  · simp only [Bool.false_eq_true, false_iff, not_exists]
    intro span
    omega
  · split
    · rename_i hnone
      simp only [Bool.false_eq_true, false_iff, not_exists]
      rintro span ⟨hspan, _⟩
      rw [u64TryFrom_eq_some.mpr hspan] at hnone
      cases hnone
    · rename_i span hsome
      have hspan := u64TryFrom_eq_some.mp hsome
      have hunique : ∀ other : UInt64, (other.toNat : ℤ) = high.toInt - low.toInt →
          other = span := fun other hother => UInt64.toNat_inj.mp (by omega)
      constructor
      · intro h
        split at h
        · cases h
        · split at h
          · cases h
          · split at h
            · cases h
            · rename_i hbits hinner habove
              simp only [not_or, ne_eq, not_not] at hbits hinner habove
              exact ⟨span, hspan, hbits, hinner.1, hinner.2, habove, h⟩
      · rintro ⟨other, hother, hbits, habits, hbbits, habove, hbelow⟩
        rw [hunique other hother] at hbits habits hbbits
        rw [if_neg (not_not.mpr hbits), if_neg (by simp [habits, hbbits]),
          if_neg (not_not.mpr habove)]
        exact hbelow

variable {commitment : P} {context : Bytes}

/-- Against sound bit proofs, an accepted range proof hides a number of its
width. -/
theorem verifyRange_value {primitives : Primitives P} {key : Pedersen P} {binding : Binding key}
    (hbit : BitSound primitives binding) (hzero : ZeroOpeningSound primitives binding)
    {proof : RangeProof P} (h : verifyRange primitives key commitment proof context = true) :
    ∃ n : ℕ, n < 2 ^ proof.bits ∧ binding.value commitment = (n : Scalar) := by
  obtain ⟨digits, hlength, hdigits, _, hvalue⟩ := decomposition_digits binding hbit hzero h
  refine ⟨Nat.ofDigits 2 digits, ?_, hvalue⟩
  rw [← hlength]
  exact ofDigits_bits_lt hdigits

theorem interval_scalar_inj {low high a b : ℤ} (hspan : high - low < 2 ^ 64)
    (ha : low ≤ a ∧ a ≤ high) (hb : low ≤ b ∧ b ≤ high) (h : (a : Scalar) = (b : Scalar)) :
    a = b := by
  apply intCast_scalar_inj h
  have horder : (2 : ℤ) ^ 64 < (order : ℤ) := by norm_num [order]
  rw [abs_lt]
  omega

variable {low : Int64}

theorem verifyBounded_value {primitives : Primitives P} {key : Pedersen P} {binding : Binding key}
    (hbit : BitSound primitives binding) (hzero : ZeroOpeningSound primitives binding)
    {proof : BoundedProof P} {high : Int64}
    (h : verifyBounded primitives key commitment proof low high context = true) :
    ∃ v : ℤ, (low.toInt ≤ v ∧ v ≤ high.toInt) ∧ binding.value commitment = (v : Scalar) := by
  obtain ⟨span, hspan, _, habits, hbbits, habove, hbelow⟩ :=
    (verifyBounded_iff primitives key commitment proof low high context).mp h
  obtain ⟨a, ha, hva⟩ := verifyRange_value hbit hzero habove
  obtain ⟨b, hb, hvb⟩ := verifyRange_value hbit hzero hbelow
  obtain ⟨_, _, hwidth⟩ := spanWidth_bounds span
  have hpow : 2 ^ spanWidth span ≤ 2 ^ 64 := Nat.pow_le_pow_right (by norm_num) hwidth
  rw [habits] at ha
  rw [hbbits] at hb
  rw [shiftCommitment, map_sub, map_smul, binding.value_g, scalarFromI64_eq, smul_eq_mul,
    mul_one] at hva
  rw [belowCommitment, map_sub, binding.value_commit, scalarFromI64_eq] at hvb
  have hvalue : binding.value commitment = ((low.toInt + a : ℤ) : Scalar) := by
    push_cast
    linear_combination hva
  -- The two offsets add up to the span modulo the order, and both sides are small.
  have hsum : ((a + b : ℤ) : Scalar) = ((high.toInt - low.toInt : ℤ) : Scalar) := by
    push_cast
    linear_combination -hva - hvb
  have hexact : (a + b : ℤ) = high.toInt - low.toInt := by
    apply intCast_scalar_inj hsum
    have hlarge : (2 : ℤ) ^ 66 < (order : ℤ) := by norm_num [order]
    have hs := span.toNat_lt
    rw [abs_lt]
    constructor <;> push_cast at * <;> omega
  exact ⟨low.toInt + a, ⟨by omega, by omega⟩, hvalue⟩

theorem interval_ok {value high : Int64} (hlow : low.toInt ≤ value.toInt)
    (hhigh : value.toInt ≤ high.toInt) :
    ∃ span above : UInt64, interval value low high = .ok (span, above, spanWidth span) ∧
      (span.toNat : ℤ) = high.toInt - low.toInt ∧ (above.toNat : ℤ) = value.toInt - low.toInt := by
  have hlo := low.le_toInt
  have hhi := high.toInt_lt
  have hspan : (UInt64.ofNat (high.toInt - low.toInt).toNat).toNat =
      (high.toInt - low.toInt).toNat :=
    UInt64.toNat_ofNat_of_lt' (by simp only [UInt64.size]; omega)
  have habove : (UInt64.ofNat (value.toInt - low.toInt).toNat).toNat =
      (value.toInt - low.toInt).toNat :=
    UInt64.toNat_ofNat_of_lt' (by simp only [UInt64.size]; omega)
  have hfrom : u64TryFrom (high.toInt - low.toInt) =
      some (UInt64.ofNat (high.toInt - low.toInt).toNat) := u64TryFrom_eq_some.mpr (by omega)
  have hoffset : u64TryFrom (value.toInt - low.toInt) =
      some (UInt64.ofNat (value.toInt - low.toInt).toNat) := u64TryFrom_eq_some.mpr (by omega)
  refine ⟨UInt64.ofNat (high.toInt - low.toInt).toNat, UInt64.ofNat (value.toInt - low.toInt).toNat,
    ?_, by omega, by omega⟩
  simp only [interval, hfrom, hoffset]
  rw [if_neg (by omega), if_neg (by omega)]

theorem proveBounded_accepted (value low high : Int64) (blinding : Scalar) (context : Bytes)
    (draws : ℕ → Scalar) (hlow : low.toInt ≤ value.toInt) (hhigh : value.toInt ≤ high.toInt) :
    ∃ proof bits, proveBounded primitives key value blinding low high context draws =
        .ok (key.commit (scalarFromI64 value) blinding, proof, bits) ∧
      verifyBounded primitives key (key.commit (scalarFromI64 value) blinding) proof low high
        context = true := by
  obtain ⟨span, above, hinterval, hspan, habove⟩ := interval_ok hlow hhigh
  obtain ⟨hfits, _, hwidth⟩ := spanWidth_bounds span
  have hle : above ≤ span := UInt64.le_iff_toNat_le.mpr (by omega)
  have hrest := UInt64.toNat_sub_of_le span above hle
  have hfit : ∀ v : UInt64, v.toNat ≤ span.toNat → valueFits v (spanWidth span) = true := by
    intro v hv
    simp only [valueFits, ge_iff_le, Bool.or_eq_true, decide_eq_true_eq]
    exact Or.inr (lt_of_le_of_lt hv hfits)
  have hshift : shiftCommitment key (key.commit (scalarFromI64 value) blinding) low =
      key.commit (above.toNat : Scalar) blinding := by
    rw [← Int.cast_natCast, habove]
    simp only [shiftCommitment, Pedersen.commit, scalarFromI64_eq]
    push_cast
    module
  have hbelow : belowCommitment key (key.commit (scalarFromI64 value) blinding) high =
      key.commit ((span - above).toNat : Scalar) (-blinding) := by
    have hint : ((span - above).toNat : ℤ) = high.toInt - value.toInt := by omega
    rw [← Int.cast_natCast, hint]
    simp only [belowCommitment, Pedersen.commit, scalarFromI64_eq]
    push_cast
    module
  obtain ⟨aproof, haprove, habits, haverify⟩ := proveRange_accepted primitives key hshift
    (hfit above (by omega)) (by omega) (suffixedContext context "|above") draws
  obtain ⟨bproof, hbprove, hbbits, hbverify⟩ := proveRange_accepted primitives key hbelow
    (hfit (span - above) (by omega)) (by omega) (suffixedContext context "|below")
    (fun n => draws (rangeDraws (spanWidth span) + n))
  refine ⟨⟨aproof, bproof, spanWidth span⟩, spanWidth span, ?_, ?_⟩
  · rw [proveBounded, hinterval]
    dsimp only [Bind.bind, Except.bind]
    rw [haprove]
    dsimp only
    rw [hbprove]
    rfl
  · rw [verifyBounded_iff]
    exact ⟨span, hspan, rfl, habits, hbbits, haverify, hbverify⟩

/-- Bounded proofs are exact. Whatever `verifyBounded` accepts hides the image
of one integer of the interval and of no other, provided accepted bit proofs and
zero openings are sound for the fixed openings; and for every value of the
interval, every blinding and all randomness `proveBounded` succeeds and its
output is accepted. -/
theorem bounded_exact (primitives : Primitives P) (key : Pedersen P) :
    (∀ binding : Binding key, BitSound primitives binding → ZeroOpeningSound primitives binding →
      ∀ (low high : Int64) (commitment : P) (proof : BoundedProof P) (context : Bytes),
        verifyBounded primitives key commitment proof low high context = true →
        ∃! v : ℤ, (low.toInt ≤ v ∧ v ≤ high.toInt) ∧ binding.value commitment = (v : Scalar)) ∧
    (∀ (value low high : Int64) (blinding : Scalar) (context : Bytes) (draws : ℕ → Scalar),
      low.toInt ≤ value.toInt → value.toInt ≤ high.toInt →
        ∃ proof bits, proveBounded primitives key value blinding low high context draws =
            .ok (key.commit (scalarFromI64 value) blinding, proof, bits) ∧
          verifyBounded primitives key (key.commit (scalarFromI64 value) blinding) proof low high
            context = true) := by
  constructor
  · intro binding hbit hzero low high commitment proof context h
    obtain ⟨v, hv, hvalue⟩ := verifyBounded_value hbit hzero h
    refine ⟨v, ⟨hv, hvalue⟩, ?_⟩
    rintro w ⟨hw, hwvalue⟩
    have hlo := low.le_toInt
    have hhi := high.toInt_lt
    exact interval_scalar_inj (by omega) hw hv (hwvalue.symm.trans hvalue)
  · intro value low high blinding context draws hlow hhigh
    exact proveBounded_accepted primitives key value low high blinding context draws hlow hhigh

open IdealChallenges in
/-- In the ideal model: the value minus three is provable in the interval from
minus five to four, and its accepted proof determines it. -/
theorem bounded_exact_ideal :
    ∃ proof bits, proveBounded idealPrimitives idealKey (-3) 7 (-5) 4 [] (fun _ => 0) =
        .ok (idealKey.commit (scalarFromI64 (-3)) 7, proof, bits) ∧
      ∃! v : ℤ, ((-5 : Int64).toInt ≤ v ∧ v ≤ (4 : Int64).toInt) ∧
        idealBinding.value (idealKey.commit (scalarFromI64 (-3)) 7) = (v : Scalar) := by
  obtain ⟨hsound, hcomplete⟩ := bounded_exact idealPrimitives idealKey
  obtain ⟨proof, bits, hprove, hverify⟩ :=
    hcomplete (-3) (-5) 4 7 [] (fun _ => 0) (by decide) (by decide)
  exact ⟨proof, bits, hprove, hsound idealBinding ideal_bitSound ideal_zeroOpeningSound (-5) 4 _
    proof [] hverify⟩

end Bounded

end Zkpi.BitRange
