import Zkpi.ScalarField
import Zkpi.ByteText
import Mathlib.Tactic.Module

/-!
# Pedersen commitments and their sigma protocols

The opening, zero-opening, product and bit protocols are written out as the
sources compute them: transcript labels, first moves, responses and the
verification equations in their multiscalar form. The group is an arbitrary
module over the scalar field; its encoding and the challenge a transcript
yields are arbitrary functions.

Every prover is complete for every randomness. Soundness is stated in the only
form it can take without a computational model: openings are a linear reading
of commitments that the blinding generator does not touch, and against such a
reading a false statement is accepted for at most one challenge.
-/

namespace Zkpi.PedersenSigma

open ScalarField ByteText List

/-- A transcript is what was appended to it; only the challenge reads it. -/
structure Transcript where
  label : Bytes
  /-- Label and content of each appended message, oldest first. -/
  messages : List (Bytes × Bytes)

namespace Transcript

def new (label : Bytes) : Transcript := ⟨label, []⟩

def appendMessage (transcript : Transcript) (label : String) (message : Bytes) : Transcript :=
  { transcript with messages := transcript.messages ++ [(utf8 label, message)] }

end Transcript

/-- What the group and transcript libraries provide: the encoding of a point
and the scalar drawn from a transcript under a label. -/
structure Primitives (P : Type) where
  /-- Canonical encoding of a group element. -/
  compress : P → Bytes
  challengeScalar : Transcript → Bytes → Scalar

def Transcript.appendPoint {P : Type} (transcript : Transcript) (primitives : Primitives P)
    (label : String) (point : P) : Transcript :=
  transcript.appendMessage label (primitives.compress point)

/-- A commitment key: a value generator and a blinding generator. -/
structure Pedersen (P : Type) where
  /-- Carries the value. -/
  g : P
  /-- Carries the blinding. -/
  h : P

open Pedersen

section Protocols

variable {P : Type} [AddCommGroup P] [Module Scalar P] [DecidableEq P]

variable (key : Pedersen P)

def Pedersen.withValueGenerator (g : P) : Pedersen P := ⟨g, key.h⟩

def Pedersen.commit (value blinding : Scalar) : P :=
  value • key.g + blinding • key.h

def Pedersen.commitU64 (value : UInt64) (blinding : Scalar) : P :=
  key.commit (value.toNat : Scalar) blinding

def Pedersen.shift (commitment : P) (low : UInt64) : P :=
  commitment - (low.toNat : Scalar) • key.g

def multiscalarMul (scalars : List Scalar) (points : List P) : P :=
  (zipWith (fun scalar point => scalar • point) scalars points).sum

variable (primitives : Primitives P) (key : Pedersen P)

/-! ## Openings -/

/-- The prover knows the value and the blinding of a commitment. -/
structure OpeningProof (P : Type) where
  t : P
  zValue : Scalar
  zBlinding : Scalar

section

variable (transcript : Transcript)

def openingChallenge (commitment t : P) : Scalar :=
  primitives.challengeScalar
    (((transcript.appendMessage "dom" (utf8 "qomm/opening")).appendPoint primitives "C"
      commitment).appendPoint primitives "T" t) (utf8 "c")

def proveOpening (commitment : P) (value blinding : Scalar)
    (kValue kBlinding : Scalar) : OpeningProof P :=
  let t := kValue • key.g + kBlinding • key.h
  let c := openingChallenge primitives transcript commitment t
  ⟨t, kValue + c * value, kBlinding + c * blinding⟩

/-- The verification equation as a weighted sum that must vanish. -/
def openingTerms (commitment : P) (proof : OpeningProof P)
    (weight : Scalar) : List Scalar × List P :=
  let c := openingChallenge primitives transcript commitment proof.t
  ([weight * proof.zValue, weight * proof.zBlinding, -weight, -(weight * c)],
    [key.g, key.h, proof.t, commitment])

def verifyOpening (commitment : P) (proof : OpeningProof P) : Bool :=
  let terms := openingTerms primitives key transcript commitment proof 1
  multiscalarMul terms.1 terms.2 = 0

def zeroOpeningTranscript : Transcript :=
  transcript.appendMessage "relation" (utf8 "zero-opening:v2")

/-- Prove that a residual hides zero: an opening whose value generator is
disabled and whose value response is fixed. -/
def proveZeroOpening (residual : P) (blinding : Scalar)
    (kValue kBlinding : Scalar) : OpeningProof P :=
  let proof := proveOpening primitives (key.withValueGenerator 0)
    (zeroOpeningTranscript transcript) residual 0 blinding kValue kBlinding
  { proof with zValue := 0 }

def verifyZeroOpening (residual : P) (proof : OpeningProof P) : Bool :=
  if proof.zValue ≠ 0 then false
  else verifyOpening primitives (key.withValueGenerator 0) (zeroOpeningTranscript transcript)
    residual proof

end

/-! ## Products -/

/-- A commitment hides the product of two committed values. -/
structure ProductProof (P : Type) where
  tFactor : P
  tProduct : P
  zB : Scalar
  zRb : Scalar
  zS : Scalar

variable (transcript : Transcript)

def productChallenge (ca cb cc tFactor tProduct : P) : Scalar :=
  primitives.challengeScalar
    ((((((transcript.appendMessage "dom" (utf8 "qomm/product")).appendPoint primitives "Ca"
      ca).appendPoint primitives "Cb" cb).appendPoint primitives "Cc" cc).appendPoint primitives
      "Tf" tFactor).appendPoint primitives "Tp" tProduct) (utf8 "c")

def proveProduct (ca : P) (a ra b rb rc : Scalar) (kB kRb kS : Scalar) : ProductProof P :=
  let cb := key.commit b rb
  let cc := key.commit (a * b) rc
  let s := rc - ra * b
  let tFactor := key.commit kB kRb
  let tProduct := kB • ca + kS • key.h
  let c := productChallenge primitives transcript ca cb cc tFactor tProduct
  ⟨tFactor, tProduct, kB + c * b, kRb + c * rb, kS + c * s⟩

/-- Both verification equations, one after the other. -/
def productTerms (ca cb cc : P) (proof : ProductProof P) (weight : Scalar) : List Scalar × List P :=
  let c := productChallenge primitives transcript ca cb cc proof.tFactor proof.tProduct
  let w2 := weight * weight
  ([weight * proof.zB, weight * proof.zRb, -weight, -(weight * c),
      w2 * proof.zB, w2 * proof.zS, -w2, -(w2 * c)],
    [key.g, key.h, proof.tFactor, cb, ca, key.h, proof.tProduct, cc])

/-- Check a pair of equations by separating them. -/
def halvesHold (scalars : List Scalar) (points : List P) : Bool :=
  let half := scalars.length / 2
  decide (multiscalarMul (scalars.take half) (points.take half) = 0) &&
    decide (multiscalarMul (scalars.drop half) (points.drop half) = 0)

def verifyProduct (ca cb cc : P) (proof : ProductProof P) : Bool :=
  let terms := productTerms primitives key transcript ca cb cc proof 1
  halvesHold terms.1 terms.2

/-! ## Bits -/

/-- A commitment opens to zero or one. -/
structure BitProof (P : Type) where
  t0 : P
  t1 : P
  c0 : Scalar
  z0 : Scalar
  z1 : Scalar

def bitChallenge (commitment t0 t1 : P) : Scalar :=
  primitives.challengeScalar
    ((((transcript.appendMessage "dom" (utf8 "qomm/bit")).appendPoint primitives "C"
      commitment).appendPoint primitives "T0" t0).appendPoint primitives "T1" t1) (utf8 "c")

def proveBit (commitment : P) (bit : Bool) (blinding : Scalar) (k cFake zFake : Scalar) :
    BitProof P :=
  let shiftedFake := if bit then commitment else commitment - key.g
  let tReal := k • key.h
  let tFake := zFake • key.h - cFake • shiftedFake
  let t0 := if bit then tFake else tReal
  let t1 := if bit then tReal else tFake
  let total := bitChallenge primitives transcript commitment t0 t1
  let cReal := total - cFake
  let zReal := k + cReal * blinding
  if bit then ⟨t0, t1, cFake, zFake, zReal⟩ else ⟨t0, t1, cReal, zReal, zFake⟩

def verifyBit (commitment : P) (proof : BitProof P) : Bool :=
  let total := bitChallenge primitives transcript commitment proof.t0 proof.t1
  let c1 := total - proof.c0
  decide (proof.z0 • key.h = proof.t0 + proof.c0 • commitment) &&
    decide (proof.z1 • key.h = proof.t1 + c1 • (commitment - key.g))

/-! ## What acceptance says -/

section

variable (transcript : Transcript)

theorem verifyOpening_iff :
    verifyOpening primitives key transcript commitment proof = true ↔
      proof.zValue • key.g + proof.zBlinding • key.h =
        proof.t + openingChallenge primitives transcript commitment proof.t • commitment := by
  simp only [verifyOpening, openingTerms, multiscalarMul, zipWith_cons_cons,
    zipWith_nil_left, sum_cons, sum_nil, decide_eq_true_eq, one_mul]
  rw [← sub_eq_zero (a := proof.zValue • key.g + proof.zBlinding • key.h)]
  apply Eq.congr_left
  module

theorem verifyZeroOpening_iff (residual : P) (proof : OpeningProof P) :
    verifyZeroOpening primitives key transcript residual proof = true ↔
      proof.zValue = 0 ∧ proof.zBlinding • key.h = proof.t +
        openingChallenge primitives (zeroOpeningTranscript transcript) residual proof.t •
          residual := by
  unfold verifyZeroOpening
  split_ifs with h
  · simp [h]
  · rw [not_not] at h
    rw [verifyOpening_iff]
    simp [withValueGenerator, h]

theorem halvesHold_pair (zValue zFirst zSecond c : Scalar) (g1 g2 h t1 t2 c1 c2 : P) :
    halvesHold [1 * zValue, 1 * zFirst, -1, -(1 * c),
        1 * 1 * zValue, 1 * 1 * zSecond, -(1 * 1), -(1 * 1 * c)]
      [g1, h, t1, c1, g2, h, t2, c2] = true ↔
      zValue • g1 + zFirst • h = t1 + c • c1 ∧ zValue • g2 + zSecond • h = t2 + c • c2 := by
  simp only [halvesHold, multiscalarMul, length_cons, length_nil, Bool.and_eq_true,
    decide_eq_true_eq, one_mul]
  norm_num only [take_succ_cons, take_zero, drop_succ_cons, drop_zero,
    zipWith_cons_cons, zipWith_nil_left, sum_cons, sum_nil]
  rw [← sub_eq_zero (a := zValue • g1 + zFirst • h), ← sub_eq_zero (a := zValue • g2 + zSecond • h)]
  refine and_congr (Eq.congr_left ?_) (Eq.congr_left ?_) <;> module

theorem verifyProduct_iff (ca cb cc : P) (proof : ProductProof P) :
    verifyProduct primitives key transcript ca cb cc proof = true ↔
      proof.zB • key.g + proof.zRb • key.h = proof.tFactor +
        productChallenge primitives transcript ca cb cc proof.tFactor proof.tProduct • cb ∧
      proof.zB • ca + proof.zS • key.h = proof.tProduct +
        productChallenge primitives transcript ca cb cc proof.tFactor proof.tProduct • cc :=
  halvesHold_pair ..

theorem verifyBit_iff (commitment : P) (proof : BitProof P) :
    verifyBit primitives key transcript commitment proof = true ↔
      proof.z0 • key.h = proof.t0 + proof.c0 • commitment ∧
      proof.z1 • key.h = proof.t1 +
        (bitChallenge primitives transcript commitment proof.t0 proof.t1 - proof.c0) •
          (commitment - key.g) := by
  simp [verifyBit]

end

/-! ## Completeness -/

theorem proveZeroOpening_accepted {residual : P} (h : residual = blinding • key.h)
    (kValue kBlinding : Scalar) :
    verifyZeroOpening primitives key transcript residual
      (proveZeroOpening primitives key transcript residual blinding kValue kBlinding) = true := by
  rw [verifyZeroOpening_iff]
  refine ⟨rfl, ?_⟩
  simp only [proveZeroOpening, proveOpening, withValueGenerator, smul_zero, zero_add]
  rw [h]
  module

theorem proveProduct_accepted (h : ca = key.commit a ra) (b rb rc kB kRb kS : Scalar) :
    verifyProduct primitives key transcript ca (key.commit b rb) (key.commit (a * b) rc)
      (proveProduct primitives key transcript ca a ra b rb rc kB kRb kS) = true := by
  rw [verifyProduct_iff]
  simp only [proveProduct]
  constructor
  · simp only [commit]
    module
  · generalize productChallenge primitives transcript ca (key.commit b rb)
      (key.commit (a * b) rc) (key.commit kB kRb) (kB • ca + kS • key.h) = c
    rw [h]
    simp only [commit]
    module

def bitScalar (bit : Bool) : Scalar := if bit then 1 else 0

theorem proveBit_accepted
    (h : commitment = key.commit (bitScalar bit) blinding) (k cFake zFake : Scalar) :
    verifyBit primitives key transcript commitment
      (proveBit primitives key transcript commitment bit blinding k cFake zFake) = true := by
  rw [verifyBit_iff]
  cases bit with
  | false =>
    simp only [proveBit, Bool.false_eq_true, if_false, sub_sub_cancel]
    generalize bitChallenge primitives transcript commitment (k • key.h)
      (zFake • key.h - cFake • (commitment - key.g)) = c
    rw [h]
    simp only [commit, bitScalar, Bool.false_eq_true, if_false]
    constructor <;> module
  | true =>
    simp only [proveBit, if_true]
    generalize bitChallenge primitives transcript commitment
      (zFake • key.h - cFake • commitment) (k • key.h) = c
    rw [h]
    simp only [commit, bitScalar, if_true]
    constructor <;> module

end Protocols

/-! ## Openings and soundness -/

section Soundness

variable {P : Type} [AddCommGroup P] [Module Scalar P]

/-- Fixed binding openings: every commitment hides one value, values combine
as commitments do, and the blinding generator hides nothing. -/
structure Binding (key : Pedersen P) where
  value : P →ₗ[Scalar] Scalar
  value_g : value key.g = 1
  /-- The blinding generator hides zero. -/
  value_h : value key.h = 0

variable {key : Pedersen P}

@[simp] theorem Binding.value_commit (binding : Binding key) (value blinding : Scalar) :
    binding.value (key.commit value blinding) = value := by
  simp only [commit, map_add, map_smul, binding.value_g, binding.value_h, smul_eq_mul,
    mul_one, mul_zero, add_zero]

@[simp] theorem Binding.value_shift (binding : Binding key) (commitment : P) (low : UInt64) :
    binding.value (key.shift commitment low) = binding.value commitment - (low.toNat : Scalar) := by
  simp only [shift, map_sub, map_smul, binding.value_g, smul_eq_mul, mul_one]

variable [DecidableEq P]

variable (primitives : Primitives P) {key : Pedersen P} (binding : Binding key)

def ProductSound : Prop :=
  ∀ transcript ca cb cc proof, verifyProduct primitives key transcript ca cb cc proof = true →
    binding.value cc = binding.value ca * binding.value cb

def BitSound : Prop :=
  ∀ transcript commitment proof, verifyBit primitives key transcript commitment proof = true →
    binding.value commitment = 0 ∨ binding.value commitment = 1

def ZeroOpeningSound : Prop :=
  ∀ transcript residual proof,
    verifyZeroOpening primitives key transcript residual proof = true →
      binding.value residual = 0

theorem ProductSound.square {primitives : Primitives P} {binding : Binding key}
    (h : ProductSound primitives binding)
    (hv : verifyProduct primitives key transcript commitment commitment commitment proof = true) :
    binding.value commitment = 0 ∨ binding.value commitment = 1 :=
  scalar_idempotent (h transcript commitment commitment commitment proof hv)

theorem zeroOpening_false_challenge {residual : P} {proof : OpeningProof P}
    (h : verifyZeroOpening primitives key transcript residual proof = true)
    (hfalse : binding.value residual ≠ 0) :
    openingChallenge primitives (zeroOpeningTranscript transcript) residual proof.t =
      -binding.value proof.t / binding.value residual := by
  obtain ⟨_, heq⟩ := (verifyZeroOpening_iff primitives key transcript residual proof).mp h
  have hv := congrArg binding.value heq
  simp only [map_add, map_smul, binding.value_h, smul_eq_mul, mul_zero] at hv
  rw [eq_div_iff hfalse]
  linear_combination -hv

theorem product_false_challenge (h : verifyProduct primitives key transcript ca cb cc proof = true)
    (hfalse : binding.value ca * binding.value cb - binding.value cc ≠ 0) :
    productChallenge primitives transcript ca cb cc proof.tFactor proof.tProduct =
      (binding.value proof.tProduct - binding.value ca * binding.value proof.tFactor) /
        (binding.value ca * binding.value cb - binding.value cc) := by
  obtain ⟨hfactor, hproduct⟩ :=
    (verifyProduct_iff primitives key transcript ca cb cc proof).mp h
  have hf := congrArg binding.value hfactor
  have hp := congrArg binding.value hproduct
  simp only [map_add, map_smul, binding.value_g, binding.value_h, smul_eq_mul, mul_one, mul_zero,
    add_zero] at hf hp
  rw [eq_div_iff hfalse]
  linear_combination hp - binding.value ca * hf

theorem bit_false_challenge {proof : BitProof P}
    (h : verifyBit primitives key transcript commitment proof = true)
    (hzero : binding.value commitment ≠ 0) (hone : binding.value commitment - 1 ≠ 0) :
    bitChallenge primitives transcript commitment proof.t0 proof.t1 =
      -binding.value proof.t0 / binding.value commitment -
        binding.value proof.t1 / (binding.value commitment - 1) := by
  obtain ⟨h0, h1⟩ := (verifyBit_iff primitives key transcript commitment proof).mp h
  have hv0 := congrArg binding.value h0
  have hv1 := congrArg binding.value h1
  simp only [map_add, map_sub, map_smul, binding.value_g, binding.value_h, smul_eq_mul,
    mul_zero] at hv0 hv1
  have hc0 : proof.c0 = -binding.value proof.t0 / binding.value commitment := by
    rw [eq_div_iff hzero]
    linear_combination -hv0
  have hc1 : bitChallenge primitives transcript commitment proof.t0 proof.t1 - proof.c0 =
      -binding.value proof.t1 / (binding.value commitment - 1) := by
    rw [eq_div_iff hone]
    linear_combination -hv1
  rw [← hc0]
  rw [neg_div] at hc1
  linear_combination hc1

end Soundness

end Zkpi.PedersenSigma
