import Zkpi.PedersenSigma

/-!
# Batched verification of sigma proofs

A product proof and a proof that two commitments hide the same value each stand for two group
equations. A lone verifier checks the two apart. A batch adds the equations of all its proofs,
each proof with a weight and the square of the weight, so that a proof with a wrong equation
passes for at most two of its weights.
-/

namespace Zkpi.SigmaBatches

open ByteText ScalarField PedersenSigma List

/-- Two commitments under different value generators hide the same number. -/
structure CrossGeneratorProof (P : Type) where
  tFirst : P
  tSecond : P
  zValue : Scalar
  zFirst : Scalar
  zSecond : Scalar

structure Batch (P : Type) where
  scalars : List Scalar
  points : List P

/-- A proof to be checked, with its transcript and statement. -/
inductive Entry (P : Type) where
  | product (transcript : Transcript) (ca cb cc : P) (proof : ProductProof P)
  | sameValue (transcript : Transcript) (g1 g2 c1 c2 : P) (proof : CrossGeneratorProof P)

variable {P : Type} [AddCommGroup P] [Module Scalar P] [DecidableEq P]
variable (primitives : Primitives P) (key : Pedersen P)

def crossChallenge (transcript : Transcript) (g1 g2 c1 c2 t1 t2 : P) : Scalar :=
  primitives.challengeScalar
    (((((((transcript.appendMessage "dom" (utf8 "qomm/xgen")).appendPoint primitives "g1"
      g1).appendPoint primitives "g2" g2).appendPoint primitives "c1" c1).appendPoint primitives
      "c2" c2).appendPoint primitives "t1" t1).appendPoint primitives "t2" t2) (utf8 "c")

section

variable (transcript : Transcript) (firstGenerator secondGenerator firstCommitment
  secondCommitment : P) (proof : CrossGeneratorProof P)

def sameValueTerms (weight : Scalar) : List Scalar × List P :=
  let c := crossChallenge primitives transcript firstGenerator secondGenerator firstCommitment
    secondCommitment proof.tFirst proof.tSecond
  let w2 := weight * weight
  ([weight * proof.zValue, weight * proof.zFirst, -weight, -(weight * c),
      w2 * proof.zValue, w2 * proof.zSecond, -w2, -(w2 * c)],
    [firstGenerator, key.h, proof.tFirst, firstCommitment,
      secondGenerator, key.h, proof.tSecond, secondCommitment])

def verifySameValue : Bool :=
  let terms := sameValueTerms primitives key transcript firstGenerator secondGenerator
    firstCommitment secondCommitment proof 1
  halvesHold terms.1 terms.2

end

def Batch.push (batch : Batch P) (terms : List Scalar × List P) : Batch P :=
  ⟨batch.scalars ++ terms.1, batch.points ++ terms.2⟩

def Batch.verify (batch : Batch P) : Bool :=
  batch.points = [] ∨ multiscalarMul batch.scalars batch.points = 0

section

variable (transcript : Transcript) (commitments : List P) (coefficients : List Scalar)
  (constant : Scalar)

def linearResidual : P := multiscalarMul coefficients commitments - constant • key.g

def verifyLinear (proof : OpeningProof P) : Bool :=
  if commitments.length ≠ coefficients.length then false
  else verifyZeroOpening primitives key transcript
    (linearResidual key commitments coefficients constant) proof

end

/-! ## The two equations of a proof -/

def Entry.terms : Entry P → Scalar → List Scalar × List P
  | product transcript ca cb cc proof => productTerms primitives key transcript ca cb cc proof
  | sameValue transcript g1 g2 c1 c2 proof =>
    sameValueTerms primitives key transcript g1 g2 c1 c2 proof

def Entry.verify : Entry P → Bool
  | product transcript ca cb cc proof => verifyProduct primitives key transcript ca cb cc proof
  | sameValue transcript g1 g2 c1 c2 proof =>
    verifySameValue primitives key transcript g1 g2 c1 c2 proof

def Entry.Holds : Entry P → Prop
  | product transcript ca cb cc proof =>
    let c := productChallenge primitives transcript ca cb cc proof.tFactor proof.tProduct
    proof.zB • key.g + proof.zRb • key.h = proof.tFactor + c • cb ∧
      proof.zB • ca + proof.zS • key.h = proof.tProduct + c • cc
  | sameValue transcript g1 g2 c1 c2 proof =>
    let c := crossChallenge primitives transcript g1 g2 c1 c2 proof.tFirst proof.tSecond
    proof.zValue • g1 + proof.zFirst • key.h = proof.tFirst + c • c1 ∧
      proof.zValue • g2 + proof.zSecond • key.h = proof.tSecond + c • c2

def Entry.sum (entry : Entry P) (weight : Scalar) : P :=
  multiscalarMul (entry.terms primitives key weight).1 (entry.terms primitives key weight).2

/-- The batch of all entries, each with its weight. -/
def batchOf (entries : List (Entry P × Scalar)) : Batch P :=
  entries.foldl (fun batch entry => batch.push (entry.1.terms primitives key entry.2)) ⟨[], []⟩

variable {primitives key}

omit [DecidableEq P] in
/-- The terms add up to the defects of both equations, scaled by the weight and by its square. -/
theorem Entry.sum_eq (entry : Entry P) : ∃ first second : P,
    (entry.Holds primitives key ↔ first = 0 ∧ second = 0) ∧
      ∀ weight, entry.sum primitives key weight = weight • first + (weight * weight) • second := by
  cases entry with
  | product | sameValue =>
    refine ⟨_, _, and_congr sub_eq_zero.symm sub_eq_zero.symm, fun weight => ?_⟩
    simp only [sum, terms, productTerms, sameValueTerms, multiscalarMul, zipWith_cons_cons,
      zipWith_nil_left, sum_cons, sum_nil]
    module

omit [DecidableEq P] in
theorem multiscalarMul_batchOf (entries : List (Entry P × Scalar)) :
    (batchOf primitives key entries).scalars.length =
      (batchOf primitives key entries).points.length ∧
    multiscalarMul (batchOf primitives key entries).scalars
      (batchOf primitives key entries).points =
      (entries.map fun entry => entry.1.sum primitives key entry.2).sum := by
  induction entries using reverseRecOn with
  | nil => exact ⟨rfl, rfl⟩
  | append_singleton entries entry ih =>
    obtain ⟨hlength, hsum⟩ := ih
    have hterms : (entry.1.terms primitives key entry.2).1.length =
        (entry.1.terms primitives key entry.2).2.length := by
      cases entry.1 <;> rfl
    simp only [batchOf, multiscalarMul, foldl_append, foldl_cons, foldl_nil,
      Batch.push, length_append, map_append, map_singleton, sum_append,
      sum_singleton] at hlength hsum ⊢
    rw [hlength, hterms, zipWith_append hlength, sum_append, hsum]
    exact ⟨rfl, rfl⟩

theorem verify_batchOf : (batchOf primitives key entries).verify = true ↔
      (entries.map fun entry => entry.1.sum primitives key entry.2).sum = 0 := by
  rw [← (multiscalarMul_batchOf entries).2, Batch.verify, decide_eq_true_eq, or_iff_right_iff_imp]
  intro hnil
  rw [hnil, multiscalarMul, zipWith_nil_right, sum_nil]

omit [DecidableEq P] in
/-- Three weights determine both coefficients. -/
theorem card_weights_le_two {rest first second : P} (h : ¬ (first = 0 ∧ second = 0))
    {weights : Finset Scalar}
    (hweights : ∀ w ∈ weights, w • first + (w * w) • second = rest) : weights.card ≤ 2 := by
  by_contra hcard
  obtain ⟨a, ha, b, hb, c, hc, hab, hac, hbc⟩ := Finset.two_lt_card.mp (not_le.mp hcard)
  have hline : ∀ x ∈ weights, a ≠ x → first + (a + x) • second = 0 := by
    intro x hx hne
    have hzero : (a - x) • (first + (a + x) • second) = 0 := by
      rw [← sub_eq_zero.mpr ((hweights a ha).trans (hweights x hx).symm)]
      module
    exact (smul_eq_zero.mp hzero).resolve_left (sub_ne_zero.mpr hne)
  have hdifference : (b - c) • second = 0 := by
    rw [← sub_eq_zero.mpr ((hline b hb hab).trans (hline c hc hac).symm)]
    module
  have hsecond := (smul_eq_zero.mp hdifference).resolve_left (sub_ne_zero.mpr hbc)
  have hfirst := hline b hb hab
  rw [hsecond, smul_zero, add_zero] at hfirst
  exact h ⟨hfirst, hsecond⟩

/-- Verification of one product or one same-value proof accepts exactly if both of its equations
hold. A batch passes for all weights if every equation holds, and with a proof that violates one
of its equations it passes for at most two weights of that proof, whatever the others' are.
A linear relation is accepted exactly if its residual has the zero opening. -/
theorem batch_verification (primitives : Primitives P) (key : Pedersen P) :
    (∀ entry : Entry P, entry.verify primitives key = true ↔ entry.Holds primitives key) ∧
    (∀ entries : List (Entry P × Scalar), (∀ entry ∈ entries, entry.1.Holds primitives key) →
      (batchOf primitives key entries).verify = true) ∧
    (∀ before after (entry : Entry P), ¬ entry.Holds primitives key → ∀ weights : Finset Scalar,
      (∀ weight ∈ weights,
        (batchOf primitives key (before ++ (entry, weight) :: after)).verify = true) →
      weights.card ≤ 2) ∧
    ∀ transcript commitments coefficients constant (proof : OpeningProof P),
      let residual := linearResidual key commitments coefficients constant
      verifyLinear primitives key transcript commitments coefficients constant proof = true ↔
        commitments.length = coefficients.length ∧ proof.zValue = 0 ∧
          proof.zBlinding • key.h = proof.t + openingChallenge primitives
            (zeroOpeningTranscript transcript) residual proof.t • residual := by
  refine ⟨fun entry => ?_, fun entries hentries => ?_, fun before after entry hentry weights
    hweights => ?_, fun transcript commitments coefficients constant proof => ?_⟩
  · cases entry with
    | product => exact verifyProduct_iff ..
    | sameValue => exact halvesHold_pair ..
  · refine verify_batchOf.mpr (sum_eq_zero fun value hvalue => ?_)
    obtain ⟨entry, hmem, rfl⟩ := mem_map.mp hvalue
    obtain ⟨first, second, hholds, hsum⟩ := entry.1.sum_eq
    obtain ⟨rfl, rfl⟩ := hholds.mp (hentries entry hmem)
    rw [hsum, smul_zero, smul_zero, add_zero]
  · obtain ⟨_, _, hholds, hsum⟩ := entry.sum_eq
    apply card_weights_le_two (mt hholds.mpr hentry)
    intro weight hweight
    have hbatch := verify_batchOf.mp (hweights weight hweight)
    rw [map_append, map_cons, sum_append, sum_cons, hsum, add_left_comm] at hbatch
    exact eq_neg_of_add_eq_zero_left hbatch
  · rw [verifyLinear]
    split_ifs with hlength
    · simp [hlength]
    · rw [verifyZeroOpening_iff, not_not.mp hlength]
      simp

end Zkpi.SigmaBatches
