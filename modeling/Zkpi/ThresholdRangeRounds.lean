import Zkpi.ThresholdOpening
import Zkpi.ThresholdProduct
import Zkpi.ThresholdRange

/-!
# Range proofs by a quorum in rounds

A range proof of a quorum is a square product for every bit and a zero opening that links the
weighted bits to the value, all in one pair of rounds. Read at one bit the rounds are those of a
product, and read at the link they are those of a zero opening, so what is known of these two
carries over. The link's ladder is computed from the public ladders of the value and the bits.
-/

namespace Zkpi.ThresholdRangeRounds

open Std (TreeMap)
open ScalarField ByteText WeightedBits FallibleChecks IndexedTables List
open PedersenSigma BitRange ThresholdRange QuorumInterpolation SealedRounds SharedWires
open ThresholdOpening ThresholdProduct

structure BitScalars where
  value : Scalar
  blinding : Scalar
  relation : Scalar

instance : Inhabited BitScalars := ⟨⟨0, 0, 0⟩⟩

structure NodeBitShares (P : Type) where
  shared : NodeShared P
  crossShare : Scalar

structure NodeValueShares (P : Type) where
  party : PartyId
  commitment : P
  valueShare : Scalar
  blindingShare : Scalar
  valueCoefficientCommitments : List P
  bits : List (NodeBitShares P)
  threshold : ℕ

structure RangeStatement (P : Type) where
  commitment : P
  valueCoefficients : List P
  bitCommitments : List P
  bitCoefficients : List (List P)
  threshold : ℕ

structure RangeRelationStatement (P : Type) where
  coefficients : List (List P)
  threshold : ℕ

/-- A node's revealed first move. -/
structure RangeRound1 (P : Type) where
  party : PartyId
  contextDigest : Digest32
  bitFactor : List P
  bitProduct : List P
  linkage : P

/-- What a node keeps until it answers. -/
structure RangeRound1Secret where
  party : PartyId
  bitNonces : List BitScalars
  linkageNonce : Scalar × Scalar
  messageDigest : Digest32
  contextDigest : Digest32

structure RangeChallenge (P : Type) where
  quorum : List PartyId
  contextDigest : Digest32
  bitFactor : List P
  bitProduct : List P
  bitChallenges : List Scalar
  linkage : P
  linkageChallenge : Scalar

open RangeChallenge

/-- A node's answer. -/
structure RangeRound2 where
  party : PartyId
  bitAnswers : List BitScalars
  linkageAnswer : Scalar × Scalar

instance : Inhabited RangeRound2 := ⟨⟨0, [], 0, 0⟩⟩

section Rounds

variable {P : Type} [AddCommGroup P] [Module Scalar P] [DecidableEq P]

instance : Inhabited (RangeRound1 P) := ⟨⟨0, zeroDigest, [], [], 0⟩⟩

variable (lib : RoundLibrary P) (key : Pedersen P)

/-- What the seal of a first move carries. -/
def rangeRound1Digest (message : RangeRound1 P) : Digest32 :=
  lib.sha256 (utf8 "QOMM:THRESHOLD-RANGE:ROUND1:v1" ++ beBytes 8 message.party.toNat ++
    message.contextDigest.toList ++ beBytes 8 message.bitFactor.length ++
    (message.bitFactor.zip message.bitProduct).flatMap (fun pair =>
      lib.primitives.compress pair.1 ++ lib.primitives.compress pair.2) ++
    lib.primitives.compress message.linkage)

/-- Draw and seal a first move: three nonces for each bit and one for the link, which as a zero
opening has no value nonce. -/
def prepareRangeRound1 (shares : NodeValueShares P) (context : Bytes) (bitDraws : ℕ → BitScalars)
    (linkageDraw : Scalar) : Round1Seal × RangeRound1Secret × RangeRound1 P :=
  let bitNonces := (range shares.bits.length).map bitDraws
  let message : RangeRound1 P := ⟨shares.party, lib.sha256 context,
    bitNonces.map fun nonce => key.commit nonce.value nonce.blinding,
    zipWith (fun nonce bit => nonce.value • bit.shared.commitment + nonce.relation • key.h)
      bitNonces shares.bits,
    key.commit 0 linkageDraw⟩
  let digest := rangeRound1Digest lib message
  (⟨shares.party, digest⟩,
    ⟨shares.party, bitNonces, (0, linkageDraw), digest, lib.sha256 context⟩, message)

/-- Check revealed first moves against their seals and the width. Unlike for openings and
products, the quorum itself is not checked for repetitions here. -/
def checkedRound1 (messages : List (RangeRound1 P)) (seals : List Round1Seal)
    (quorum : List PartyId) (context : Bytes) (width : ℕ) :
    Except String (TreeMap PartyId (RangeRound1 P)) := do
  let expectedContext := lib.sha256 context
  let byParty := indexBy RangeRound1.party messages
  let sealByParty := indexBy Round1Seal.party seals
  refuseIf (byParty.size ≠ quorum.length ∨ sealByParty.size ≠ quorum.length ∨
    ∃ party ∈ quorum, party ∉ byParty ∨ party ∉ sealByParty)
    "round-one messages and seals do not exactly match the quorum"
  quorum.forM fun party =>
    refuseIf (byParty[party]!.contextDigest ≠ expectedContext ∨
      byParty[party]!.bitFactor.length ≠ width ∨ byParty[party]!.bitProduct.length ≠ width ∨
      rangeRound1Digest lib byParty[party]! ≠ sealByParty[party]!.digest)
      s!"party {party} supplied an invalid range round-one reveal"
  pure byParty

variable (statement : RangeStatement P)

def bitChallengeAt (byParty : TreeMap PartyId (RangeRound1 P)) (quorum : List PartyId)
    (context : Bytes) (index : ℕ) :
    Except String (P × P × Scalar) := do
  let factor ← combineCommitments
    (tabulate quorum fun party => byParty[party]!.bitFactor.getD index 0)
  let product ← combineCommitments
    (tabulate quorum fun party => byParty[party]!.bitProduct.getD index 0)
  let component ← bitContext context index
  let bit := statement.bitCommitments.getD index 0
  pure (factor, product, productChallenge lib.primitives (componentTranscript component) bit bit
    bit factor product)

def makeRangeChallenge (messages : List (RangeRound1 P)) (seals : List Round1Seal)
    (quorum : List PartyId) (context : Bytes) :
    Except String (RangeChallenge P) := do
  let byParty ←
    checkedRound1 lib messages seals quorum context statement.bitCommitments.length
  let bits ← (range statement.bitCommitments.length).mapM
    (bitChallengeAt lib statement byParty quorum context)
  let linkage ← combineCommitments (tabulate quorum fun party => byParty[party]!.linkage)
  let linkTranscript :=
    zeroOpeningTranscript (componentTranscript (suffixedContext context ":link"))
  pure ⟨quorum, lib.sha256 context, bits.map (·.1), bits.map (·.2.1), bits.map (·.2.2), linkage,
    openingChallenge lib.primitives linkTranscript
      (residual statement.commitment statement.bitCommitments) linkage⟩

def residualShare (share : Scalar) (bits : List Scalar) : Scalar :=
  (bits.foldl (fun state bit => (state.1 - state.2 * bit, state.2 + state.2))
    ((share, 1) : Scalar × Scalar)).1

def answerRangeChallenge (shares : NodeValueShares P) (secret : RangeRound1Secret)
    (challenge : RangeChallenge P) : Except String RangeRound2 := do
  refuseIf (shares.party ≠ secret.party ∨ shares.party ∉ challenge.quorum ∨
    secret.bitNonces.length ≠ shares.bits.length ∨ secret.messageDigest = zeroDigest ∨
    secret.contextDigest ≠ challenge.contextDigest)
    "range challenge does not match this node's sealed first round"
  let bitAnswers := zipWith (fun (entry : NodeBitShares P × BitScalars) c =>
      (⟨entry.2.value + c * entry.1.shared.valueShare,
        entry.2.blinding + c * entry.1.shared.blindingShare,
        entry.2.relation + c * entry.1.crossShare⟩ : BitScalars))
    (shares.bits.zip secret.bitNonces) challenge.bitChallenges
  let residualValue := residualShare shares.valueShare (shares.bits.map (·.shared.valueShare))
  let residualBlinding :=
    residualShare shares.blindingShare (shares.bits.map (·.shared.blindingShare))
  pure ⟨shares.party, bitAnswers,
    (secret.linkageNonce.1 + challenge.linkageChallenge * residualValue,
      secret.linkageNonce.2 + challenge.linkageChallenge * residualBlinding)⟩

def subtractScaled (scale : Scalar) : List P → List P → List P
  | target :: targets, coefficient :: ladder =>
    (target - scale • coefficient) :: subtractScaled scale targets ladder
  | targets, _ => targets

/-- The ladder of the value less the ladders of its bits under doubling weights. -/
def residualCoefficients : List P :=
  (statement.bitCoefficients.foldl
    (fun state ladder => (subtractScaled state.2 state.1 ladder, state.2 + state.2))
    ((statement.valueCoefficients, 1) : List P × Scalar)).1

def checkBitAnswer (relations : RangeRelationStatement P) (challenge : RangeChallenge P)
    (first : RangeRound1 P) (answer : RangeRound2)
    (party : PartyId) (index : ℕ) : Except String Unit := do
  let z := answer.bitAnswers.getD index default
  let factorEvaluation ← shareCommitment (statement.bitCoefficients.getD index []) party
  refuseIf (lib.primitives.compress (key.commit z.value z.blinding) ≠
    lib.primitives.compress (first.bitFactor.getD index 0 +
      challenge.bitChallenges.getD index 0 • factorEvaluation))
    s!"party {party} supplied a bad bit-{index} factor answer"
  let relationEvaluation ← shareCommitment (relations.coefficients.getD index []) party
  refuseIf (lib.primitives.compress
      (z.value • statement.bitCommitments.getD index 0 + z.relation • key.h) ≠
    lib.primitives.compress (first.bitProduct.getD index 0 +
      challenge.bitChallenges.getD index 0 • relationEvaluation))
    s!"party {party} supplied a bad bit-{index} relation answer"

def checkRangeAnswer (relations : RangeRelationStatement P) (challenge : RangeChallenge P)
    (first : TreeMap PartyId (RangeRound1 P))
    (answers : TreeMap PartyId RangeRound2) (party : PartyId) : Except String Unit := do
  refuseIf (answers[party]!.bitAnswers.length ≠ statement.bitCommitments.length)
    s!"party {party} returned the wrong number of bit answers"
  (range statement.bitCommitments.length).forM
    (checkBitAnswer lib key statement relations challenge first[party]! answers[party]! party)
  let residualEvaluation ← shareCommitment (residualCoefficients statement) party
  refuseIf (lib.primitives.compress
      (key.commit answers[party]!.linkageAnswer.1 answers[party]!.linkageAnswer.2) ≠
    lib.primitives.compress
      (first[party]!.linkage + challenge.linkageChallenge • residualEvaluation))
    s!"party {party} supplied a bad range-link answer"

variable (challenge : RangeChallenge P)

def assembledBit (coefficients : TreeMap PartyId Scalar) (quorum : List PartyId)
    (answers : TreeMap PartyId RangeRound2) (index : ℕ) :
    ProductProof P :=
  ⟨challenge.bitFactor.getD index 0, challenge.bitProduct.getD index 0,
    combineAnswers coefficients quorum fun party =>
      (answers[party]!.bitAnswers.getD index default).value,
    combineAnswers coefficients quorum fun party =>
      (answers[party]!.bitAnswers.getD index default).blinding,
    combineAnswers coefficients quorum fun party =>
      (answers[party]!.bitAnswers.getD index default).relation⟩

def assembleRangeFromRounds (relations : RangeRelationStatement P) (messages : List (RangeRound1 P))
    (seals : List Round1Seal) (responses : List RangeRound2)
    (quorum : List PartyId) (context : Bytes) : Except String (ThresholdRangeProof P) := do
  refuseIf (relations.threshold ≠ statement.threshold ∨
    relations.coefficients.length ≠ statement.bitCommitments.length)
    "range relation and value statements have different shapes"
  let challenge ← makeRangeChallenge lib statement messages seals quorum context
  let first := indexBy RangeRound1.party messages
  let answers := indexBy RangeRound2.party responses
  refuseIf (answers.size ≠ quorum.length ∨ ∃ party ∈ quorum, party ∉ answers)
    "range responses do not exactly match the quorum"
  quorum.forM (checkRangeAnswer lib key statement relations challenge first answers)
  let coefficients ← lagrangeAtZero quorum
  let proof : ThresholdRangeProof P := ⟨statement.bitCommitments,
    (range statement.bitCommitments.length).map
      (assembledBit challenge coefficients quorum answers),
    ⟨challenge.linkage,
      combineAnswers coefficients quorum fun party => answers[party]!.linkageAnswer.1,
      combineAnswers coefficients quorum fun party => answers[party]!.linkageAnswer.2⟩,
    statement.bitCommitments.length⟩
  refuseIf (¬ verifyThresholdRange lib.primitives key statement.commitment proof context)
    "assembled threshold range proof does not verify"
  pure proof

/-! ## One bit and the link -/

def bitStatement (relations : RangeRelationStatement P) (index : ℕ) : ProductStatement P where
  multiplicand := statement.bitCommitments.getD index 0
  factorCommitment := statement.bitCommitments.getD index 0
  productCommitment := statement.bitCommitments.getD index 0
  factorCoefficients := statement.bitCoefficients.getD index []
  relationCoefficients := relations.coefficients.getD index []
  threshold := statement.threshold

def RangeRound1.bit (message : RangeRound1 P) (index : ℕ) : ProductRound1 P :=
  ⟨message.party, message.contextDigest, message.bitFactor.getD index 0,
    message.bitProduct.getD index 0⟩

def RangeRound1.link (message : RangeRound1 P) : OpeningRound1 P :=
  ⟨message.party, message.contextDigest, message.linkage⟩

def RangeRound2.bit (answer : RangeRound2) (index : ℕ) : ProductRound2 :=
  let z := answer.bitAnswers.getD index default
  ⟨answer.party, z.value, z.blinding, z.relation⟩

def RangeRound2.link (answer : RangeRound2) : OpeningRound2 :=
  ⟨answer.party, answer.linkageAnswer.1, answer.linkageAnswer.2⟩

def RangeChallenge.bit (index : ℕ) : ProductChallenge P :=
  ⟨challenge.quorum, challenge.contextDigest, challenge.bitFactor.getD index 0,
    challenge.bitProduct.getD index 0, challenge.bitChallenges.getD index 0⟩

def RangeChallenge.link : OpeningChallenge P :=
  ⟨challenge.quorum, challenge.contextDigest, challenge.linkage, challenge.linkageChallenge⟩

def bitTranscript (context : Bytes) (index : ℕ) : Transcript :=
  componentTranscript (context ++ utf8 ":bit:" ++ beBytes 2 index)

def linkTranscript (context : Bytes) : Transcript :=
  componentTranscript (suffixedContext context ":link")

def rangeChallengeOf (first : PartyId → RangeRound1 P) (quorum : List PartyId) (context : Bytes) :
    RangeChallenge P :=
  let bitAt (index : ℕ) : ProductChallenge P :=
    productChallengeOf lib (bitStatement statement ⟨[], 0⟩ index) (fun p => (first p).bit index)
      quorum context (bitTranscript context index)
  let indices := range statement.bitCommitments.length
  let link := openingChallengeOf lib (residual statement.commitment statement.bitCommitments)
    (fun p => (first p).linkage) quorum context (linkTranscript context) .zero
  ⟨quorum, lib.sha256 context, indices.map fun index => (bitAt index).factor,
    indices.map fun index => (bitAt index).product,
    indices.map fun index => (bitAt index).challenge, link.nonceCommitment, link.challenge⟩

def rangeProofOf (answer : PartyId → RangeRound2) : ThresholdRangeProof P where
  bitCommitments := statement.bitCommitments
  bitProofs := (range statement.bitCommitments.length).map fun index =>
    productProofOf (challenge.bit index) fun p => (answer p).bit index
  linkage := openingProofOf challenge.link fun p => (answer p).link
  bits := statement.bitCommitments.length

variable {lib key} {statement : RangeStatement P} {relations : RangeRelationStatement P}
  {messages : List (RangeRound1 P)} {seals : List Round1Seal} {responses : List RangeRound2}
  {quorum : List PartyId} {context : Bytes}

variable {A : Type}

variable {index : ℕ}

theorem bitContext_ok (h : bitContext context index = .ok derived) : index < 2 ^ 16 := by
  unfold bitContext at h
  split at h
  · assumption
  · cases h

omit [DecidableEq P] in
theorem bitChallengeAt_eq (hquorum : Committee quorum) (byParty : TreeMap PartyId (RangeRound1 P))
    (h : index < 2 ^ 16) :
    bitChallengeAt lib statement byParty quorum context index =
      let bit := productChallengeOf lib (bitStatement statement ⟨[], 0⟩ index)
        (fun p => byParty[p]!.bit index) quorum context (bitTranscript context index)
      .ok (bit.factor, bit.product, bit.challenge) := by
  rw [bitChallengeAt, combineCommitments_eq hquorum, combineCommitments_eq hquorum, bitContext_eq h]
  rfl

/-- First moves that match the quorum, the width, their seals and the context. -/
structure RevealedRange (lib : RoundLibrary P) (messages : List (RangeRound1 P))
    (seals : List Round1Seal) (quorum : List PartyId) (context : Bytes) (width : ℕ) : Prop where
  revealed : Covers (indexBy RangeRound1.party messages) quorum
  sealed : Covers (indexBy Round1Seal.party seals) quorum
  context_eq : ∀ p ∈ quorum,
    (indexBy RangeRound1.party messages)[p]!.contextDigest = lib.sha256 context
  factors : ∀ p ∈ quorum, (indexBy RangeRound1.party messages)[p]!.bitFactor.length = width
  products : ∀ p ∈ quorum, (indexBy RangeRound1.party messages)[p]!.bitProduct.length = width
  /-- Every move is the sealed one. -/
  digest_eq : ∀ p ∈ quorum, rangeRound1Digest lib (indexBy RangeRound1.party messages)[p]! =
    (indexBy Round1Seal.party seals)[p]!.digest

variable {width : ℕ}

omit [Module Scalar P] [DecidableEq P] in
theorem checkedRound1_eq (h : RevealedRange lib messages seals quorum context width) :
    checkedRound1 lib messages seals quorum context width =
      .ok (indexBy RangeRound1.party messages) := by
  simp only [checkedRound1, refuseIf_bind_ok, not_or, not_not, not_exists, not_and]
  refine ⟨⟨h.revealed.1, h.sealed.1, fun p hp => ⟨h.revealed.2 p hp, h.sealed.2 p hp⟩⟩,
    bind_ok.mpr ⟨(), forM_ok.mpr fun p hp => ?_, rfl⟩⟩
  simp only [refuseIf_ok, not_or, not_not]
  exact ⟨h.context_eq p hp, h.factors p hp, h.products p hp, h.digest_eq p hp⟩

omit [Module Scalar P] [DecidableEq P] in
theorem checkedRound1_ok (h : checkedRound1 lib messages seals quorum context width = .ok byParty) :
    RevealedRange lib messages seals quorum context width ∧
      byParty = indexBy RangeRound1.party messages := by
  simp only [checkedRound1, refuseIf_bind_ok, not_or, not_not, not_exists, not_and] at h
  obtain ⟨⟨hmessages, hseals, hmem⟩, hrest⟩ := h
  obtain ⟨_, hloop, hresult⟩ := bind_ok.mp hrest
  have hvalid := forM_ok.mp hloop
  simp only [refuseIf_ok, not_or, not_not] at hvalid
  exact ⟨⟨⟨hmessages, fun p hp => (hmem p hp).1⟩, ⟨hseals, fun p hp => (hmem p hp).2⟩,
    fun p hp => (hvalid p hp).1, fun p hp => (hvalid p hp).2.1,
    fun p hp => (hvalid p hp).2.2.1, fun p hp => (hvalid p hp).2.2.2⟩,
    (Except.ok.inj hresult).symm⟩

omit [DecidableEq P] in
theorem makeRangeChallenge_eq (hquorum : Committee quorum)
    (hwidth : statement.bitCommitments.length ≤ 2 ^ 16)
    (h : RevealedRange lib messages seals quorum context statement.bitCommitments.length) :
    makeRangeChallenge lib statement messages seals quorum context =
      .ok (rangeChallengeOf lib statement (fun p => (indexBy RangeRound1.party messages)[p]!)
        quorum context) := by
  have hbits : (range statement.bitCommitments.length).mapM
      (bitChallengeAt lib statement (indexBy RangeRound1.party messages) quorum context) =
      .ok ((range statement.bitCommitments.length).map fun index =>
        let bit := productChallengeOf lib (bitStatement statement ⟨[], 0⟩ index)
          (fun p => (indexBy RangeRound1.party messages)[p]!.bit index) quorum context
          (bitTranscript context index)
        (bit.factor, bit.product, bit.challenge)) := by
    rw [mapM_ok, map_map]
    refine map_congr_left fun index hindex => ?_
    exact bitChallengeAt_eq hquorum _ ((mem_range.mp hindex).trans_le hwidth)
  rw [makeRangeChallenge, checkedRound1_eq h]
  refine bind_ok.mpr ⟨_, rfl, bind_ok.mpr ⟨_, hbits, bind_ok.mpr
    ⟨_, combineCommitments_eq hquorum _, ?_⟩⟩⟩
  simp only [map_map, Function.comp_def]
  rfl

variable {challenge : RangeChallenge P}

omit [DecidableEq P] in
/-- A challenge is made only for a width the transcript can index and first moves that are the
sealed ones, of parties away from zero. -/
theorem makeRangeChallenge_ok (hnodup : quorum.Nodup)
    (h : makeRangeChallenge lib statement messages seals quorum context = .ok challenge) :
    Committee quorum ∧ statement.bitCommitments.length ≤ 2 ^ 16 ∧
      RevealedRange lib messages seals quorum context statement.bitCommitments.length ∧
      challenge = rangeChallengeOf lib statement
        (fun p => (indexBy RangeRound1.party messages)[p]!) quorum context := by
  obtain ⟨_, hchecked, hrest⟩ := bind_ok.mp h
  obtain ⟨hrevealed, rfl⟩ := checkedRound1_ok hchecked
  obtain ⟨_, hbits, hrest⟩ := bind_ok.mp hrest
  obtain ⟨_, hlinkage, _⟩ := bind_ok.mp hrest
  obtain ⟨hnonempty, hnonzero⟩ := combineCommitments_ok hlinkage
  have hwidth : statement.bitCommitments.length ≤ 2 ^ 16 := by
    by_contra hlarge
    have hmem : 2 ^ 16 ∈ range statement.bitCommitments.length :=
      mem_range.mpr (Nat.lt_of_not_le hlarge)
    obtain ⟨_, _, hbit⟩ := mem_map.mp (mapM_ok.mp hbits ▸ mem_map_of_mem hmem)
    obtain ⟨_, _, hbit⟩ := bind_ok.mp hbit.symm
    obtain ⟨_, _, hbit⟩ := bind_ok.mp hbit
    obtain ⟨_, hcontext, _⟩ := bind_ok.mp hbit
    exact absurd (bitContext_ok hcontext) (lt_irrefl _)
  have hquorum : Committee quorum := ⟨hnonempty, hnodup, hnonzero⟩
  exact ⟨hquorum, hwidth, hrevealed,
    Except.ok.inj (h.symm.trans (makeRangeChallenge_eq hquorum hwidth hrevealed))⟩

theorem assembleRange_eq (hnodup : quorum.Nodup)
    (hchallenge : makeRangeChallenge lib statement messages seals quorum context = .ok challenge)
    (hthreshold : relations.threshold = statement.threshold)
    (hrelations : relations.coefficients.length = statement.bitCommitments.length)
    (hcovers : Covers (indexBy RangeRound2.party responses) quorum) :
    assembleRangeFromRounds lib key statement relations messages seals responses quorum context =
        (do
      quorum.forM (checkRangeAnswer lib key statement relations challenge
        (indexBy RangeRound1.party messages) (indexBy RangeRound2.party responses))
      let proof :=
        rangeProofOf statement challenge fun p => (indexBy RangeRound2.party responses)[p]!
      refuseIf (¬ verifyThresholdRange lib.primitives key statement.commitment proof context)
        "assembled threshold range proof does not verify"
      pure proof) := by
  obtain ⟨hquorum, _, _, hvalue⟩ := makeRangeChallenge_ok hnodup hchallenge
  obtain ⟨coefficients, hlagrange, hweights⟩ := lagrangeAtZero_eq hquorum
  have hshape : ¬ (relations.threshold ≠ statement.threshold ∨
      relations.coefficients.length ≠ statement.bitCommitments.length) := by
    simp only [not_or, not_not]
    exact ⟨hthreshold, hrelations⟩
  have hmatch : ¬ ((indexBy RangeRound2.party responses).size ≠ quorum.length ∨
      ∃ party ∈ quorum, party ∉ indexBy RangeRound2.party responses) := by
    simp only [not_or, not_exists, not_and, not_not]
    exact hcovers
  have hquorumOf : challenge.quorum = quorum := by rw [hvalue]; rfl
  have hproof : rangeProofOf statement challenge
      (fun p => (indexBy RangeRound2.party responses)[p]!) = ⟨statement.bitCommitments,
        (range statement.bitCommitments.length).map
          (assembledBit challenge coefficients quorum (indexBy RangeRound2.party responses)),
        ⟨challenge.linkage,
          combineAnswers coefficients quorum fun p =>
            (indexBy RangeRound2.party responses)[p]!.linkageAnswer.1,
          combineAnswers coefficients quorum fun p =>
            (indexBy RangeRound2.party responses)[p]!.linkageAnswer.2⟩,
        statement.bitCommitments.length⟩ := by
    have hbits : assembledBit challenge coefficients quorum (indexBy RangeRound2.party responses) =
        fun index => productProofOf (challenge.bit index)
          fun p => (indexBy RangeRound2.party responses)[p]!.bit index := by
      funext index
      simp only [assembledBit, combineAnswers_eq hquorum.nodup hweights, productProofOf,
        bit, RangeRound2.bit, hquorumOf]
    simp only [hbits, combineAnswers_eq hquorum.nodup hweights, rangeProofOf, openingProofOf,
      link, RangeRound2.link, hquorumOf]
  rw [assembleRangeFromRounds, hchallenge, hlagrange, hproof]
  simp only [bind, Except.bind, refuseIf, if_neg hshape, if_neg hmatch]

structure OpensRange (key : Pedersen P) (statement : RangeStatement P)
    (relations : RangeRelationStatement P) (challenge : RangeChallenge P) (party : PartyId)
    (first : RangeRound1 P) (answer : RangeRound2) : Prop where
  width : answer.bitAnswers.length = statement.bitCommitments.length
  bits : ∀ index < statement.bitCommitments.length, OpensFirstMoves key
    (bitStatement statement relations index) (challenge.bit index) party (first.bit index)
    (answer.bit index)
  link : OpensFirstMove key (residualCoefficients statement) challenge.link party first.link
    answer.link

variable {answer : RangeRound2}

section

omit [DecidableEq P]

/-- A bad answer to a bit is reported under the name of its party, and only a bad one is. -/
theorem checkBitAnswer_error (hparty : party ≠ 0)
    (h : checkBitAnswer lib key statement relations challenge first answer party index = .error
      error) :
    NamesParty error party ∧ ¬ OpensFirstMoves key (bitStatement statement relations index)
      (challenge.bit index) party (first.bit index) (answer.bit index) := by
  rw [checkBitAnswer, shareCommitment_eq hparty, shareCommitment_eq hparty] at h
  rcases bind_error.mp (show (refuseIf _ _ >>= _) = Except.error error from h) with
    hfactor | ⟨_, _, hrelation⟩
  · obtain ⟨hbad, rfl⟩ := refuseIf_error.mp hfactor
    refine ⟨⟨s!"supplied a bad bit-{index} factor answer", ?_⟩, fun hopens => hbad ?_⟩
    · simp only [String.append_assoc]
      rfl
    · exact congrArg lib.primitives.compress hopens.factor
  · obtain ⟨hbad, rfl⟩ := refuseIf_error.mp hrelation
    refine ⟨⟨s!"supplied a bad bit-{index} relation answer", ?_⟩, fun hopens => hbad ?_⟩
    · simp only [String.append_assoc]
      rfl
    · exact congrArg lib.primitives.compress hopens.relation

/-- A bad answer is reported under the name of its party, and only a bad one is. -/
theorem checkRangeAnswer_error (hparty : party ≠ 0)
    (h : checkRangeAnswer lib key statement relations challenge first answers party = .error
      error) :
    NamesParty error party ∧
      ¬ OpensRange key statement relations challenge party first[party]! answers[party]! := by
  rcases bind_error.mp h with hwidth | ⟨_, _, h⟩
  · obtain ⟨hbad, rfl⟩ := refuseIf_error.mp hwidth
    refine ⟨⟨"returned the wrong number of bit answers", ?_⟩, fun hopens => hbad hopens.width⟩
    simp only [String.append_assoc]
    rfl
  rcases bind_error.mp h with hbits | ⟨_, _, h⟩
  · obtain ⟨index, hindex, hbit⟩ := forM_error hbits
    obtain ⟨hnames, hbad⟩ := checkBitAnswer_error hparty hbit
    exact ⟨hnames, fun hopens => hbad (hopens.bits index (mem_range.mp hindex))⟩
  · rw [shareCommitment_eq hparty] at h
    obtain ⟨hbad, rfl⟩ := refuseIf_error.mp h
    refine ⟨⟨"supplied a bad range-link answer", ?_⟩, fun hopens => hbad ?_⟩
    · simp only [String.append_assoc]
      rfl
    · exact congrArg lib.primitives.compress hopens.link

theorem opens_of_checkRangeAnswers (hcompress : Function.Injective lib.primitives.compress)
    (hnonzero : 0 ∉ quorum)
    (h : quorum.forM (checkRangeAnswer lib key statement relations challenge first answers) = .ok
      ()) (hp : p ∈ quorum) :
    OpensRange key statement relations challenge p first[p]! answers[p]! := by
  have hparty : p ≠ 0 := fun hzero => hnonzero (hzero ▸ hp)
  have hcheck := forM_ok.mp h p hp
  obtain ⟨_, hwidth, hcheck⟩ := bind_ok.mp hcheck
  obtain ⟨_, hbits, hlink⟩ := bind_ok.mp hcheck
  rw [shareCommitment_eq hparty] at hlink
  refine ⟨not_not.mp (refuseIf_ok.mp hwidth), fun index hindex => ?_,
    hcompress (not_not.mp (refuseIf_ok.mp hlink))⟩
  have hbit := forM_ok.mp hbits index (mem_range.mpr hindex)
  rw [checkBitAnswer, shareCommitment_eq hparty, shareCommitment_eq hparty] at hbit
  obtain ⟨_, hfactor, hrelation⟩ :=
    bind_ok.mp (show (refuseIf _ _ >>= _) = Except.ok () from hbit)
  exact ⟨hcompress (not_not.mp (refuseIf_ok.mp hfactor)),
    hcompress (not_not.mp (refuseIf_ok.mp hrelation))⟩

/-! ## Statements whose ladders fit together -/

end

/-- A statement of a degree: every ladder has one more coefficient than the degree, and the
ladders start at the commitments. -/
structure Anchored (statement : RangeStatement P) (relations : RangeRelationStatement P)
    (length : ℕ) : Prop where
  threshold : relations.threshold = statement.threshold
  relations_length : relations.coefficients.length = statement.bitCommitments.length
  value : statement.valueCoefficients.head? = some statement.commitment
  bits : statement.bitCoefficients.map head? = statement.bitCommitments.map some
  squares : relations.coefficients.map head? = statement.bitCommitments.map some
  value_length : statement.valueCoefficients.length = length
  bits_length : ∀ ladder ∈ statement.bitCoefficients, ladder.length = length
  coefficients_length : ∀ ladder ∈ relations.coefficients, ladder.length = length

theorem getElem_of_map_eq {B C : Type} {f : A → C} {g : B → C} {xs : List A} {ys : List B}
    (h : xs.map f = ys.map g) (hindex : index < xs.length) (d : B) :
    f xs[index] = g (ys.getD index d) ∧ ys.getD index d ∈ ys := by
  have hlength : index < ys.length := by
    have := congrArg length h
    simp only [length_map] at this
    omega
  have hplace := congrArg (·[index]?) h
  simp only [getElem?_map, getElem?_eq_getElem hindex,
    getElem?_eq_getElem hlength, Option.map_some, Option.some.injEq] at hplace
  rw [getD_eq_getElem _ _ hlength]
  exact ⟨hplace, getElem_mem hlength⟩

variable {length : ℕ}

omit [Module Scalar P] [DecidableEq P] in
theorem Anchored.bit (h : Anchored statement relations length)
    (hindex : index < statement.bitCommitments.length) :
    (bitStatement statement relations index).Anchored ∧
      (bitStatement statement relations index).factorCoefficients.length = length ∧
      (bitStatement statement relations index).relationCoefficients.length = length := by
  obtain ⟨hfactor, hfactorMem⟩ := getElem_of_map_eq h.bits.symm hindex []
  obtain ⟨hrelation, hrelationMem⟩ := getElem_of_map_eq h.squares.symm hindex []
  rw [← getD_eq_getElem _ 0 hindex] at hfactor hrelation
  exact ⟨⟨hfactor.symm, hrelation.symm⟩, h.bits_length _ hfactorMem,
    h.coefficients_length _ hrelationMem⟩

section

omit [DecidableEq P]

theorem subtractScaled_length (scale : Scalar) (targets ladder : List P) :
    (subtractScaled scale targets ladder).length = targets.length := by
  fun_induction subtractScaled with
  | case1 target targets coefficient ladder ih => simp only [length_cons, ih]
  | case2 => rfl

theorem ladderAt_subtractScaled (scale : Scalar) {targets ladder : List P}
    (hlength : ladder.length = targets.length) (x : Scalar) :
    ladderAt (subtractScaled scale targets ladder) x =
      ladderAt targets x - scale • ladderAt ladder x := by
  induction targets generalizing ladder with
  | nil =>
    obtain rfl := length_eq_zero_iff.mp hlength
    simp [subtractScaled, ladderAt_nil]
  | cons target targets ih =>
    cases ladder with
    | nil => cases hlength
    | cons =>
      simp only [subtractScaled, ladderAt_cons, ih (Nat.succ.inj hlength)]
      module

theorem residualCoefficients_eq
    (h : ∀ ladder ∈ statement.bitCoefficients,
      ladder.length = statement.valueCoefficients.length) (x : Scalar) :
    (residualCoefficients statement).length = statement.valueCoefficients.length ∧
      ladderAt (residualCoefficients statement) x = ladderAt statement.valueCoefficients x -
        doublingSum Scalar (statement.bitCoefficients.map (ladderAt · x)) := by
  have hloop : ∀ (ladders : List (List P)) (targets : List P) (weight : Scalar),
      (∀ ladder ∈ ladders, ladder.length = targets.length) →
      (ladders.foldl (fun state ladder => (subtractScaled state.2 state.1 ladder,
        state.2 + state.2)) ((targets, weight) : List P × Scalar)).1.length = targets.length ∧
      ladderAt (ladders.foldl (fun state ladder => (subtractScaled state.2 state.1 ladder,
        state.2 + state.2)) ((targets, weight) : List P × Scalar)).1 x =
        ladderAt targets x - weight • doublingSum Scalar (ladders.map (ladderAt · x)) := by
    intro ladders
    induction ladders with
    | nil =>
      intro targets weight _
      simp [doublingSum_nil]
    | cons ladder rest ih =>
      intro targets weight hladders
      have hrest := ih (subtractScaled weight targets ladder) (weight + weight) fun other hother =>
        (hladders other (mem_cons_of_mem _ hother)).trans
          (subtractScaled_length weight targets ladder).symm
      rw [subtractScaled_length,
        ladderAt_subtractScaled weight (hladders ladder mem_cons_self)] at hrest
      refine ⟨hrest.1, hrest.2.trans ?_⟩
      rw [map_cons, doublingSum_cons]
      module
  have hresult := hloop statement.bitCoefficients statement.valueCoefficients 1 h
  rw [one_smul] at hresult
  exact hresult

theorem Anchored.residual (h : Anchored statement relations length) :
    (residualCoefficients statement).length = length ∧
      (residualCoefficients statement).head? =
        some (BitRange.residual statement.commitment statement.bitCommitments) := by
  have hbits : ∀ ladder ∈ statement.bitCoefficients,
      ladder.length = statement.valueCoefficients.length :=
    fun ladder hladder => (h.bits_length ladder hladder).trans h.value_length.symm
  obtain ⟨hlength, hzero⟩ := residualCoefficients_eq hbits 0
  have hconstants : statement.bitCoefficients.map (ladderAt · 0) = statement.bitCommitments := by
    have hheads := congrArg (map fun head : Option P => head.getD 0) h.bits
    simp only [map_map, Function.comp_def, Option.getD_some, map_id'] at hheads
    simp [ladderAt_zero, hheads]
  refine ⟨hlength.trans h.value_length, ?_⟩
  have hvalue : statement.valueCoefficients.headD 0 = statement.commitment := by
    rw [headD_eq_head?_getD, h.value, Option.getD_some]
  rw [ladderAt_zero, ladderAt_zero, hconstants, hvalue] at hzero
  cases hladder : residualCoefficients statement with
  | nil =>
    rw [hladder, length_nil, eq_comm, length_eq_zero_iff] at hlength
    have hempty := h.value
    rw [hlength] at hempty
    cases hempty
  | cons =>
    rw [hladder, headD_cons] at hzero
    rw [head?_cons, hzero]
    rfl

end

/-- If every answer opens its first moves and the interpolated value answer of the link vanishes,
the interpolated proof is accepted. -/
theorem rangeProofOf_accepted (hquorum : Committee quorum)
    (hstatement : Anchored statement relations length) (hlength : length ≤ quorum.length)
    (hwidth : statement.bitCommitments.length ≤ 2 ^ 16) {first : PartyId → RangeRound1 P}
    {answer : PartyId → RangeRound2}
    (hchallenge : challenge = rangeChallengeOf lib statement first quorum context)
    (h : ∀ p ∈ quorum, OpensRange key statement relations challenge p (first p) (answer p))
    (hzero : interpolated quorum (fun p => (answer p).linkageAnswer.1) = 0) :
    verifyThresholdRange lib.primitives key statement.commitment
      (rangeProofOf statement challenge answer) context = true := by
  have hbit : ∀ index < statement.bitCommitments.length,
      verifySquareBit lib.primitives key (bitTranscript context index)
        (statement.bitCommitments.getD index 0)
        (productProofOf (challenge.bit index) fun p => (answer p).bit index) = true := by
    intro index hindex
    obtain ⟨hanchored, hfactor, hrelation⟩ := hstatement.bit hindex
    have hbitChallenge : challenge.bit index =
        productChallengeOf lib (bitStatement statement relations index)
          (fun p => (first p).bit index) quorum context (bitTranscript context index) := by
      simp only [hchallenge, rangeChallengeOf, bit, getD_eq_getElem?_getD,
        getElem?_map, getElem?_range hindex]
      rfl
    exact productProofOf_accepted hquorum hanchored (hfactor.trans_le hlength)
      (hrelation.trans_le hlength) hbitChallenge fun p hp => (h p hp).bits index hindex
  have hlink : verifyZeroOpening lib.primitives key (linkTranscript context)
      (BitRange.residual statement.commitment statement.bitCommitments)
      (openingProofOf challenge.link fun p => (answer p).link) = true := by
    obtain ⟨hresidual, hhead⟩ := hstatement.residual
    have hlinkChallenge : challenge.link = openingChallengeOf lib
        (BitRange.residual statement.commitment statement.bitCommitments)
        (fun p => (first p).link.nonceCommitment) quorum context (linkTranscript context)
        .zero := by
      rw [hchallenge]
      rfl
    exact openingProofOf_accepted hquorum hhead (hresidual.trans_le hlength) hlinkChallenge
      (fun p hp => (h p hp).link) fun _ => hzero
  rw [verifyThresholdRange, verifyDecomposition_iff]
  refine ⟨rfl, by simp [rangeProofOf],
    verifyBits_of_getElem _ fun index hindex => ?_, hlink⟩
  have hlt : index < statement.bitCommitments.length := by
    rw [length_zip] at hindex
    exact hindex.trans_le (min_le_left _ _)
  refine ⟨_, bitContext_eq (hlt.trans_le hwidth), ?_⟩
  have hone := hbit index hlt
  rw [getD_eq_getElem _ _ hlt] at hone
  simp only [rangeProofOf, getElem_zip, getElem_map, getElem_range]
  exact hone

/-! ## Nodes that follow the rounds -/

def FollowedRange (lib : RoundLibrary P) (key : Pedersen P) (context : Bytes)
    (shares : NodeValueShares P) (challenge : RangeChallenge P) (message : RangeRound1 P)
    (answer : RangeRound2) : Prop :=
  ∃ bitDraws linkageDraw,
    message = (prepareRangeRound1 lib key shares context bitDraws linkageDraw).2.2 ∧
    answerRangeChallenge shares
      (prepareRangeRound1 lib key shares context bitDraws linkageDraw).2.1 challenge = .ok answer

structure OpensRangeLadders (key : Pedersen P) (statement : RangeStatement P)
    (relations : RangeRelationStatement P) (shares : NodeValueShares P) : Prop where
  commitments : shares.bits.map (·.shared.commitment) = statement.bitCommitments
  value : key.commit shares.valueShare shares.blindingShare =
    ladderAt statement.valueCoefficients (partyScalar shares.party)
  bits : shares.bits.map (fun bit => key.commit bit.shared.valueShare bit.shared.blindingShare) =
    statement.bitCoefficients.map (ladderAt · (partyScalar shares.party))
  relations : shares.bits.map (fun bit =>
      bit.shared.valueShare • bit.shared.commitment + bit.crossShare • key.h) =
    relations.coefficients.map (ladderAt · (partyScalar shares.party))

theorem residualShare_eq :
    residualShare share bits = share - doublingSum Scalar bits := by
  have hloop : ∀ (bits : List Scalar) (share weight : Scalar),
      (bits.foldl (fun state bit => (state.1 - state.2 * bit, state.2 + state.2))
        ((share, weight) : Scalar × Scalar)).1 = share - weight * doublingSum Scalar bits := by
    intro bits
    induction bits with
    | nil => intro share weight; simp only [foldl_nil, doublingSum_nil, mul_zero, sub_zero]
    | cons bit rest ih =>
      intro _ _
      rw [foldl_cons, ih, doublingSum_cons, smul_eq_mul]
      ring
  rw [residualShare, hloop, one_mul]

variable {shares : NodeValueShares P}

section

omit [DecidableEq P]

theorem OpensRangeLadders.residual (hstatement : Anchored statement relations length)
    (h : OpensRangeLadders key statement relations shares) :
    key.commit (residualShare shares.valueShare (shares.bits.map (·.shared.valueShare)))
        (residualShare shares.blindingShare (shares.bits.map (·.shared.blindingShare))) =
      ladderAt (residualCoefficients statement) (partyScalar shares.party) := by
  have hbits : ∀ ladder ∈ statement.bitCoefficients,
      ladder.length = statement.valueCoefficients.length :=
    fun ladder hladder =>
      (hstatement.bits_length ladder hladder).trans hstatement.value_length.symm
  have hcombine := doublingSum_combine Scalar shares.bits (·.shared.valueShare)
    (·.shared.blindingShare) key.g key.h
  rw [(residualCoefficients_eq hbits _).2, ← h.value, ← h.bits, residualShare_eq, residualShare_eq]
  simp only [Pedersen.commit] at hcombine ⊢
  rw [hcombine]
  module

theorem FollowedRange.opens (hstatement : Anchored statement relations length)
    (hwidth : challenge.bitChallenges.length = statement.bitCommitments.length)
    (h : FollowedRange lib key context shares challenge message answer)
    (hshare : OpensRangeLadders key statement relations shares) :
    OpensRange key statement relations challenge shares.party message answer := by
  obtain ⟨bitDraws, linkageDraw, rfl, hanswer⟩ := h
  obtain rfl := Except.ok.inj (refuseIf_bind_ok.mp hanswer).2
  have hbits : shares.bits.length = statement.bitCommitments.length := by
    rw [← hshare.commitments, length_map]
  refine ⟨?_, fun index hindex => ?_, ?_⟩
  · simp [prepareRangeRound1, hbits, hwidth, min_self]
  · have hlt : index < shares.bits.length := hbits ▸ hindex
    have hcommitment : shares.bits[index].shared.commitment =
        statement.bitCommitments.getD index 0 := by
      rw [← hshare.commitments, getD_eq_getElem _ _ (by simpa using hlt), getElem_map]
    obtain ⟨hfactor, _⟩ := getElem_of_map_eq hshare.bits hlt []
    obtain ⟨hrelation, _⟩ := getElem_of_map_eq hshare.relations hlt []
    simp only [hcommitment] at hrelation
    have hchallenge : index < challenge.bitChallenges.length := hwidth ▸ hindex
    constructor
    · simp only [bitStatement, RangeRound1.bit, RangeRound2.bit, bit,
        prepareRangeRound1, ← hfactor]
      rw [getD_eq_getElem _ _ (by simp [hlt, hchallenge]),
        getD_eq_getElem _ _ (by simp [hlt]), getD_eq_getElem _ _ hchallenge]
      simp only [getElem_zipWith, getElem_zip, getElem_map, getElem_range, Pedersen.commit]
      module
    · simp only [bitStatement, RangeRound1.bit, RangeRound2.bit, bit,
        prepareRangeRound1, ← hrelation]
      rw [getD_eq_getElem (zipWith _ (zip _ _) _) _ (by simp [hlt, hchallenge]),
        getD_eq_getElem (zipWith _ (map _ _) _) _ (by simp [hlt]),
        getD_eq_getElem challenge.bitChallenges _ hchallenge]
      simp only [getElem_zipWith, getElem_zip, getElem_map, getElem_range, hcommitment]
      module
  · rw [OpensFirstMove, ← hshare.residual hstatement]
    simp only [RangeRound1.link, RangeRound2.link, link, prepareRangeRound1,
      Pedersen.commit]
    module

theorem FollowedRange.value (h : FollowedRange lib key context shares challenge message answer) :
    answer.linkageAnswer.1 = challenge.linkageChallenge *
      residualShare shares.valueShare (shares.bits.map (·.shared.valueShare)) := by
  obtain ⟨_, _, _, hanswer⟩ := h
  obtain rfl := Except.ok.inj (refuseIf_bind_ok.mp hanswer).2
  exact zero_add _

/-- Nodes that followed the rounds on bits that sum to the value answer the link with shares of
zero. -/
theorem interpolated_link_of_followed {shares : PartyId → NodeValueShares P}
    {message : PartyId → RangeRound1 P} {answer : PartyId → RangeRound2}
    (h : ∀ p ∈ quorum, FollowedRange lib key context (shares p) challenge (message p) (answer p))
    (hzero : interpolated quorum (fun p => residualShare (shares p).valueShare ((shares p).bits.map
      (·.shared.valueShare))) = 0) :
    interpolated quorum (fun p => (answer p).linkageAnswer.1) = 0 := by
  have hvalue := interpolated_smul quorum challenge.linkageChallenge
    fun p => residualShare (shares p).valueShare ((shares p).bits.map (·.shared.valueShare))
  rw [hzero, smul_zero] at hvalue
  rw [← hvalue]
  exact interpolated_congr fun p hp => (h p hp).value

end

/-! ## Assemblies -/

section Assemblies

variable (hnodup : quorum.Nodup)
  (hchallenge : makeRangeChallenge lib statement messages seals quorum context = .ok challenge)
  (hstatement : Anchored statement relations length) (hlength : length ≤ quorum.length)
  (hcovers : Covers (indexBy RangeRound2.party responses) quorum)

include hnodup hchallenge hstatement hlength hcovers

theorem assembleRange_of_opens
    (h : ∀ p ∈ quorum, OpensRange key statement relations challenge p (indexBy RangeRound1.party
      messages)[p]! (indexBy RangeRound2.party responses)[p]!)
    (hzero : interpolated quorum (fun p => (indexBy RangeRound2.party
      responses)[p]!.linkageAnswer.1) = 0) :
    ∃ proof, assembleRangeFromRounds lib key statement relations messages seals responses quorum
        context = .ok proof ∧
      verifyThresholdRange lib.primitives key statement.commitment proof context = true := by
  obtain ⟨hquorum, hwidth, _, hvalue⟩ := makeRangeChallenge_ok hnodup hchallenge
  have haccepted := rangeProofOf_accepted hquorum hstatement hlength hwidth hvalue h hzero
  refine ⟨_, ?_, haccepted⟩
  rw [assembleRange_eq hnodup hchallenge hstatement.threshold hstatement.relations_length hcovers]
  refine bind_ok.mpr ⟨(), answers_ok checkRangeAnswer_error hquorum.nonzero h, ?_⟩
  exact refuseIf_bind_ok.mpr ⟨not_not.mpr haccepted, rfl⟩

/-- After the challenge, an assembly fails under the name of a party whose answer does not open
its first moves, or when all answers open their first moves and the interpolated value answer of
the link does not vanish. -/
theorem assembleRange_error (hcompress : Function.Injective lib.primitives.compress)
    (h : assembleRangeFromRounds lib key statement relations messages seals responses quorum context
      = .error error) :
    (∃ p ∈ quorum, NamesParty error p ∧ ¬ OpensRange key statement relations challenge p
      (indexBy RangeRound1.party messages)[p]! (indexBy RangeRound2.party responses)[p]!) ∨
    (error = "assembled threshold range proof does not verify" ∧
      (∀ p ∈ quorum, OpensRange key statement relations challenge p
        (indexBy RangeRound1.party messages)[p]! (indexBy RangeRound2.party responses)[p]!) ∧
      interpolated quorum
        (fun p => (indexBy RangeRound2.party responses)[p]!.linkageAnswer.1) ≠ 0) := by
  obtain ⟨hquorum, hwidth, _, hvalue⟩ := makeRangeChallenge_ok hnodup hchallenge
  rw [assembleRange_eq hnodup hchallenge hstatement.threshold hstatement.relations_length
    hcovers] at h
  rcases bind_error.mp h with hloop | ⟨_, hloop, hfinal⟩
  · exact .inl (answers_error checkRangeAnswer_error hquorum.nonzero hloop)
  · have hopens := fun p (hp : p ∈ quorum) =>
      opens_of_checkRangeAnswers hcompress hquorum.nonzero hloop hp
    rcases bind_error.mp hfinal with hverify | ⟨_, _, hnever⟩
    · obtain ⟨hrejected, rfl⟩ := refuseIf_error.mp hverify
      exact .inr ⟨rfl, hopens, fun hzero => hrejected
        (rangeProofOf_accepted hquorum hstatement hlength hwidth hvalue hopens hzero)⟩
    · cases hnever

end Assemblies

/-- Whatever the nodes draw and in whatever order their messages are listed, a challenge is made,
every node whose seal is not the empty one answers it, and the answers assemble to a proof that
the public check accepts. -/
def RangeCompletes (lib : RoundLibrary P) (key : Pedersen P) (statement : RangeStatement P)
    (relations : RangeRelationStatement P) (shares : PartyId → NodeValueShares P)
    (quorum : List PartyId) (context : Bytes) : Prop :=
  ∀ (bitDraws : PartyId → ℕ → BitScalars) (linkageDraw : PartyId → Scalar)
    (messages : List (RangeRound1 P)) (seals : List Round1Seal),
    messages.Perm (quorum.map fun p =>
      (prepareRangeRound1 lib key (shares p) context (bitDraws p) (linkageDraw p)).2.2) →
    seals.Perm (quorum.map fun p =>
      (prepareRangeRound1 lib key (shares p) context (bitDraws p) (linkageDraw p)).1) →
    ∃ challenge, makeRangeChallenge lib statement messages seals quorum context =
        .ok challenge ∧
      (∀ p ∈ quorum, (prepareRangeRound1 lib key (shares p) context (bitDraws p)
          (linkageDraw p)).1.digest ≠ zeroDigest →
        ∃ answer, answerRangeChallenge (shares p) (prepareRangeRound1 lib key (shares p) context
          (bitDraws p) (linkageDraw p)).2.1 challenge = .ok answer) ∧
      ∀ (answer : PartyId → RangeRound2) (responses : List RangeRound2),
        (∀ p ∈ quorum, answerRangeChallenge (shares p) (prepareRangeRound1 lib key (shares p)
          context (bitDraws p) (linkageDraw p)).2.1 challenge = .ok (answer p)) →
        responses.Perm (quorum.map answer) →
        ∃ proof, assembleRangeFromRounds lib key statement relations messages seals responses
            quorum context = .ok proof ∧
          verifyThresholdRange lib.primitives key statement.commitment proof context = true

/-- Nodes whose shares open their evaluations of all ladders complete the rounds if the bits sum
to the value. -/
theorem range_complete (hquorum : Committee quorum)
    (hstatement : Anchored statement relations length) (hlength : length ≤ quorum.length)
    (hwidth : statement.bitCommitments.length ≤ 2 ^ 16) {shares : PartyId → NodeValueShares P}
    (hparty : ∀ p ∈ quorum, (shares p).party = p)
    (hshare : ∀ p ∈ quorum, OpensRangeLadders key statement relations (shares p))
    (hzero : interpolated quorum (fun p => residualShare (shares p).valueShare ((shares p).bits.map
      (·.shared.valueShare))) = 0) :
    RangeCompletes lib key statement relations shares quorum context := by
  intro bitDraws linkageDraw messages seals hmessages hseals
  have hbits : ∀ p ∈ quorum, (shares p).bits.length = statement.bitCommitments.length := by
    intro p hp
    rw [← (hshare p hp).commitments, length_map]
  have hfirst : ∀ p ∈ quorum, (indexBy RangeRound1.party messages)[p]! =
      (prepareRangeRound1 lib key (shares p) context (bitDraws p) (linkageDraw p)).2.2 :=
    fun p hp => getElem!_of_perm hmessages hparty hp
  have hrevealed : RevealedRange lib messages seals quorum context
      statement.bitCommitments.length := by
    refine ⟨covers_indexBy hquorum.nodup (keys_of_perm hmessages hparty),
      covers_indexBy hquorum.nodup (keys_of_perm hseals hparty), fun p hp => ?_, fun p hp => ?_,
      fun p hp => ?_, fun p hp => ?_⟩
    · rw [hfirst p hp]
      rfl
    · simp [hfirst p hp, prepareRangeRound1, hbits p hp]
    · simp [hfirst p hp, prepareRangeRound1, hbits p hp, min_self]
    · rw [hfirst p hp, getElem!_of_perm hseals hparty hp]
      rfl
  have hchallenge := makeRangeChallenge_eq hquorum hwidth hrevealed
  refine ⟨_, hchallenge, fun p hp hseal => ⟨_, refuseIf_bind_ok.mpr ⟨?_, rfl⟩⟩,
    fun answer responses hanswer hresponses => ?_⟩
  · have hmember : (shares p).party ∈ quorum := by rwa [hparty p hp]
    simp only [not_or, not_not]
    exact ⟨rfl, hmember, by simp [prepareRangeRound1], hseal, rfl⟩
  · have hanswerer : ∀ p ∈ quorum, (answer p).party = p := by
      intro p hp
      rw [← Except.ok.inj (refuseIf_bind_ok.mp (hanswer p hp)).2]
      exact hparty p hp
    have hsecond : ∀ p ∈ quorum, (indexBy RangeRound2.party responses)[p]! = answer p :=
      fun p hp => getElem!_of_perm hresponses hanswerer hp
    refine assembleRange_of_opens hquorum.nodup hchallenge hstatement hlength
      (covers_indexBy hquorum.nodup (keys_of_perm hresponses hanswerer)) (fun p hp => ?_) ?_
    · rw [hfirst p hp, hsecond p hp]
      have hopens : OpensRange key statement relations _ (shares p).party _ _ :=
        FollowedRange.opens hstatement
          (by simp [rangeChallengeOf])
          ⟨_, _, rfl, hanswer p hp⟩ (hshare p hp)
      rw [hparty p hp] at hopens
      exact hopens
    · rw [interpolated_congr fun p hp =>
        congrArg (fun answer : RangeRound2 => answer.linkageAnswer.1) (hsecond p hp)]
      exact interpolated_link_of_followed (fun p hp => ⟨_, _, rfl, hanswer p hp⟩) hzero

end Rounds

end Zkpi.ThresholdRangeRounds
