import Zkpi.SealedRounds
import Zkpi.SharedWires

/-!
# Products proved by a quorum in rounds

The multiplicand is a public commitment; each node holds a share of the factor and of the cross
term that corrects the blinding. First moves and answers interpolate as for openings, once for
the factor and once for the relation. If every answer opens both first moves of its node, both
equations of the ordinary product proof hold.
-/

namespace Zkpi.ThresholdProduct

open Std (TreeMap)
open ScalarField ByteText FallibleChecks IndexedTables PedersenSigma
open QuorumInterpolation SealedRounds SharedWires

structure ProductNodeContribution (P : Type) where
  factor : NodeShared P
  crossShare : Scalar

def ProductNodeContribution.party {P : Type} (contribution : ProductNodeContribution P) :
    PartyId :=
  contribution.factor.party

/-- The public statement of a product. The constants of its ladders are the commitments to the
factor and to the product. -/
structure ProductStatement (P : Type) where
  multiplicand : P
  factorCommitment : P
  productCommitment : P
  factorCoefficients : List P
  relationCoefficients : List P
  threshold : ℕ

structure ProductStatement.Anchored {P : Type} (statement : ProductStatement P) : Prop where
  factor : statement.factorCoefficients.head? = some statement.factorCommitment
  relation : statement.relationCoefficients.head? = some statement.productCommitment

/-- A node's revealed first move. -/
structure ProductRound1 (P : Type) where
  party : PartyId
  contextDigest : Digest32
  factor : P
  product : P

/-- What a node keeps until it answers. -/
structure ProductRound1Secret where
  party : PartyId
  factorNonce : Scalar
  factorBlindingNonce : Scalar
  relationNonce : Scalar
  messageDigest : Digest32
  contextDigest : Digest32

structure ProductChallenge (P : Type) where
  quorum : List PartyId
  contextDigest : Digest32
  factor : P
  product : P
  challenge : Scalar

/-- A node's answer. -/
structure ProductRound2 where
  party : PartyId
  factorAnswer : Scalar
  factorBlindingAnswer : Scalar
  relationAnswer : Scalar

instance : Inhabited ProductRound2 := ⟨⟨0, 0, 0, 0⟩⟩

section Rounds

variable {P : Type} [AddCommGroup P] [Module Scalar P] [DecidableEq P]

instance : Inhabited (ProductRound1 P) := ⟨⟨0, zeroDigest, 0, 0⟩⟩

variable (lib : RoundLibrary P)

/-- What the seal of a first move carries. -/
def productRound1Digest (message : ProductRound1 P) : Digest32 :=
  lib.sha256 (utf8 "QOMM:THRESHOLD-PRODUCT:ROUND1:v1" ++ beBytes 8 message.party.toNat ++
    message.contextDigest.toList ++ lib.primitives.compress message.factor ++
    lib.primitives.compress message.product)

/-- Draw and seal a first move. -/
def prepareProductRound1 (key : Pedersen P) (contribution : ProductNodeContribution P)
    (multiplicand : P) (context : Bytes) (factorNonce factorBlindingNonce relationNonce : Scalar) :
    Round1Seal × ProductRound1Secret × ProductRound1 P :=
  let message : ProductRound1 P := ⟨contribution.party, lib.sha256 context,
    key.commit factorNonce factorBlindingNonce,
    factorNonce • multiplicand + relationNonce • key.h⟩
  let digest := productRound1Digest lib message
  (⟨contribution.party, digest⟩, ⟨contribution.party, factorNonce, factorBlindingNonce,
    relationNonce, digest, lib.sha256 context⟩, message)

def productForm : RevealForm (ProductRound1 P) where
  party := ProductRound1.party
  contextDigest := ProductRound1.contextDigest
  digest := productRound1Digest lib
  mismatch := "product round-one messages and seals do not exactly match the quorum"
  invalid party := s!"party {party} supplied an invalid product round-one reveal"

def checkedProductRound1 (messages : List (ProductRound1 P)) (seals : List Round1Seal)
    (quorum : List PartyId) (context : Bytes) :
    Except String (TreeMap PartyId (ProductRound1 P)) :=
  checkedReveals lib (productForm lib) messages seals quorum context

def makeProductChallengeWithTranscript (statement : ProductStatement P)
    (messages : List (ProductRound1 P)) (seals : List Round1Seal) (quorum : List PartyId)
    (context : Bytes) (transcript : Transcript) : Except String (ProductChallenge P) := do
  let byParty ← checkedProductRound1 lib messages seals quorum context
  let factor ← combineCommitments (tabulate quorum fun party => byParty[party]!.factor)
  let product ← combineCommitments (tabulate quorum fun party => byParty[party]!.product)
  let challenge := productChallenge lib.primitives transcript statement.multiplicand
    statement.factorCommitment statement.productCommitment factor product
  pure ⟨quorum, lib.sha256 context, factor, product, challenge⟩

def answerProductChallenge (contribution : ProductNodeContribution P)
    (secret : ProductRound1Secret) (challenge : ProductChallenge P) :
    Except String ProductRound2 := do
  refuseIf (contribution.party ≠ secret.party ∨ secret.party ∉ challenge.quorum ∨
    secret.messageDigest = zeroDigest ∨ secret.contextDigest ≠ challenge.contextDigest)
    "product challenge does not match this node's sealed first round"
  pure ⟨secret.party, secret.factorNonce + challenge.challenge * contribution.factor.valueShare,
    secret.factorBlindingNonce + challenge.challenge * contribution.factor.blindingShare,
    secret.relationNonce + challenge.challenge * contribution.crossShare⟩

variable (key : Pedersen P)

variable (statement : ProductStatement P)

def checkProductAnswer (challenge : ProductChallenge P) (first : TreeMap PartyId (ProductRound1 P))
    (answers : TreeMap PartyId ProductRound2)
    (party : PartyId) : Except String Unit := do
  let factorEvaluation ← shareCommitment statement.factorCoefficients party
  refuseIf (lib.primitives.compress
      (key.commit answers[party]!.factorAnswer answers[party]!.factorBlindingAnswer) ≠
    lib.primitives.compress (first[party]!.factor + challenge.challenge • factorEvaluation))
    s!"party {party} supplied a bad product factor answer"
  let relationEvaluation ← shareCommitment statement.relationCoefficients party
  refuseIf (lib.primitives.compress (answers[party]!.factorAnswer • statement.multiplicand +
      answers[party]!.relationAnswer • key.h) ≠
    lib.primitives.compress (first[party]!.product + challenge.challenge • relationEvaluation))
    s!"party {party} supplied a bad product relation answer"

variable (messages : List (ProductRound1 P))

variable (seals : List Round1Seal)

/-- Check every answer and interpolate them to an ordinary proof. -/
def assembleProductFromRoundsWithTranscript (responses : List ProductRound2) (quorum : List PartyId)
    (context : Bytes)
    (transcript : Transcript) : Except String (ProductProof P) := do
  let challenge ←
    makeProductChallengeWithTranscript lib statement messages seals quorum context transcript
  let first := indexBy ProductRound1.party messages
  let answers := indexBy ProductRound2.party responses
  refuseIf (answers.size ≠ quorum.length ∨ ∃ party ∈ quorum, party ∉ answers)
    "product responses do not exactly match the quorum"
  quorum.forM (checkProductAnswer lib key statement challenge first answers)
  let coefficients ← lagrangeAtZero quorum
  let proof : ProductProof P := ⟨challenge.factor, challenge.product,
    combineAnswers coefficients quorum fun party => answers[party]!.factorAnswer,
    combineAnswers coefficients quorum fun party => answers[party]!.factorBlindingAnswer,
    combineAnswers coefficients quorum fun party => answers[party]!.relationAnswer⟩
  refuseIf (¬ verifyProduct lib.primitives key transcript statement.multiplicand
      statement.factorCommitment statement.productCommitment proof)
    "assembled threshold product proof does not verify"
  pure proof

/-! ## What the rounds compute -/

def productChallengeOf (first : PartyId → ProductRound1 P) (quorum : List PartyId) (context : Bytes)
    (transcript : Transcript) : ProductChallenge P where
  quorum := quorum
  contextDigest := lib.sha256 context
  factor := interpolated quorum fun p => (first p).factor
  product := interpolated quorum fun p => (first p).product
  challenge := productChallenge lib.primitives transcript statement.multiplicand
    statement.factorCommitment statement.productCommitment
    (interpolated quorum fun p => (first p).factor)
    (interpolated quorum fun p => (first p).product)

def productProofOf (challenge : ProductChallenge P) (answer : PartyId → ProductRound2) :
    ProductProof P where
  tFactor := challenge.factor
  tProduct := challenge.product
  zB := interpolated challenge.quorum fun p => (answer p).factorAnswer
  zRb := interpolated challenge.quorum fun p => (answer p).factorBlindingAnswer
  zS := interpolated challenge.quorum fun p => (answer p).relationAnswer

variable {lib key} {statement : ProductStatement P} {messages : List (ProductRound1 P)}
  {seals : List Round1Seal} {responses : List ProductRound2} {quorum : List PartyId}
  {context : Bytes} {transcript : Transcript}

omit [DecidableEq P] in
theorem makeProductChallenge_eq (hquorum : Committee quorum)
    (h : Revealed lib (productForm lib) messages seals quorum context) :
    makeProductChallengeWithTranscript lib statement messages seals quorum context transcript =
      .ok (productChallengeOf lib statement (fun p => (indexBy ProductRound1.party messages)[p]!)
        quorum context transcript) := by
  rw [makeProductChallengeWithTranscript, checkedProductRound1, checkedReveals_eq h]
  exact bind_ok.mpr ⟨_, rfl, bind_ok.mpr ⟨_, combineCommitments_eq hquorum _,
    bind_ok.mpr ⟨_, combineCommitments_eq hquorum _, rfl⟩⟩⟩

variable {challenge : ProductChallenge P}

omit [DecidableEq P] in
/-- A challenge is made only for a committee whose first moves are the sealed ones. -/
theorem makeProductChallenge_ok
    (h : makeProductChallengeWithTranscript lib statement messages seals quorum context transcript =
      .ok challenge) :
    Committee quorum ∧ Revealed lib (productForm lib) messages seals quorum context ∧
      challenge = productChallengeOf lib statement
        (fun p => (indexBy ProductRound1.party messages)[p]!) quorum context transcript := by
  obtain ⟨_, hchecked, hrest⟩ := bind_ok.mp h
  obtain ⟨hrevealed, rfl⟩ := checkedReveals_ok hchecked
  obtain ⟨_, hcombined, _⟩ := bind_ok.mp hrest
  obtain ⟨hnonempty, hnonzero⟩ := combineCommitments_ok hcombined
  have hquorum : Committee quorum := ⟨hnonempty, hrevealed.nodup, hnonzero⟩
  exact ⟨hquorum, hrevealed,
    Except.ok.inj (h.symm.trans (makeProductChallenge_eq hquorum hrevealed))⟩

theorem assembleProduct_eq
    (hchallenge : makeProductChallengeWithTranscript lib statement messages seals quorum context
      transcript = .ok challenge)
    (hcovers : Covers (indexBy ProductRound2.party responses) quorum) :
    assembleProductFromRoundsWithTranscript lib key statement messages seals responses quorum
        context transcript = (do
      quorum.forM (checkProductAnswer lib key statement challenge
        (indexBy ProductRound1.party messages) (indexBy ProductRound2.party responses))
      let proof := productProofOf challenge fun p => (indexBy ProductRound2.party responses)[p]!
      refuseIf (¬ verifyProduct lib.primitives key transcript statement.multiplicand
          statement.factorCommitment statement.productCommitment proof)
        "assembled threshold product proof does not verify"
      pure proof) := by
  obtain ⟨hquorum, _, hvalue⟩ := makeProductChallenge_ok hchallenge
  obtain ⟨coefficients, hlagrange, hweights⟩ := lagrangeAtZero_eq hquorum
  have hmatch : ¬ ((indexBy ProductRound2.party responses).size ≠ quorum.length ∨
      ∃ party ∈ quorum, party ∉ indexBy ProductRound2.party responses) := by
    simp only [not_or, not_exists, not_and, not_not]
    exact hcovers
  have hproof : productProofOf challenge
      (fun p => (indexBy ProductRound2.party responses)[p]!) = ⟨challenge.factor,
        challenge.product,
        combineAnswers coefficients quorum fun p =>
          (indexBy ProductRound2.party responses)[p]!.factorAnswer,
        combineAnswers coefficients quorum fun p =>
          (indexBy ProductRound2.party responses)[p]!.factorBlindingAnswer,
        combineAnswers coefficients quorum fun p =>
          (indexBy ProductRound2.party responses)[p]!.relationAnswer⟩ := by
    simp only [combineAnswers_eq hquorum.nodup hweights, productProofOf, hvalue, productChallengeOf]
  rw [assembleProductFromRoundsWithTranscript, hchallenge, hlagrange, hproof]
  simp only [bind, Except.bind, refuseIf, if_neg hmatch]

structure OpensFirstMoves (key : Pedersen P) (statement : ProductStatement P)
    (challenge : ProductChallenge P) (party : PartyId) (first : ProductRound1 P)
    (answer : ProductRound2) : Prop where
  factor : key.commit answer.factorAnswer answer.factorBlindingAnswer = first.factor +
    challenge.challenge • ladderAt statement.factorCoefficients (partyScalar party)
  relation : answer.factorAnswer • statement.multiplicand + answer.relationAnswer • key.h =
    first.product +
      challenge.challenge • ladderAt statement.relationCoefficients (partyScalar party)

variable {first : TreeMap PartyId (ProductRound1 P)}

omit [DecidableEq P] in
/-- A bad answer is reported under the name of its party, and only a bad one is. -/
theorem checkProductAnswer_error (hparty : party ≠ 0)
    (h : checkProductAnswer lib key statement challenge first answers party = .error error) :
    NamesParty error party ∧
      ¬ OpensFirstMoves key statement challenge party first[party]! answers[party]! := by
  rw [checkProductAnswer, shareCommitment_eq hparty, shareCommitment_eq hparty] at h
  rcases bind_error.mp (show (refuseIf _ _ >>= _) = Except.error error from h) with
    hfactor | ⟨_, _, hrelation⟩
  · obtain ⟨hbad, rfl⟩ := refuseIf_error.mp hfactor
    refine ⟨⟨"supplied a bad product factor answer", ?_⟩, fun hopens => hbad ?_⟩
    · simp only [String.append_assoc]
      rfl
    · rw [hopens.factor]
  · obtain ⟨hbad, rfl⟩ := refuseIf_error.mp hrelation
    refine ⟨⟨"supplied a bad product relation answer", ?_⟩, fun hopens => hbad ?_⟩
    · simp only [String.append_assoc]
      rfl
    · rw [hopens.relation]

omit [DecidableEq P] in
theorem opens_of_checkProductAnswers (hcompress : Function.Injective lib.primitives.compress)
    (hnonzero : 0 ∉ quorum)
    (h : quorum.forM (checkProductAnswer lib key statement challenge first answers) = .ok ())
    (hp : p ∈ quorum) : OpensFirstMoves key statement challenge p first[p]! answers[p]! := by
  have hparty : p ≠ 0 := fun hzero => hnonzero (hzero ▸ hp)
  have hcheck := forM_ok.mp h p hp
  rw [checkProductAnswer, shareCommitment_eq hparty, shareCommitment_eq hparty] at hcheck
  obtain ⟨_, hfactor, hrelation⟩ :=
    bind_ok.mp (show (refuseIf _ _ >>= _) = Except.ok () from hcheck)
  exact ⟨hcompress (not_not.mp (refuseIf_ok.mp hfactor)),
    hcompress (not_not.mp (refuseIf_ok.mp hrelation))⟩

theorem productProofOf_accepted (hquorum : Committee quorum) (hstatement : statement.Anchored)
    (hfactor : statement.factorCoefficients.length ≤ quorum.length)
    (hrelation : statement.relationCoefficients.length ≤ quorum.length)
    {first : PartyId → ProductRound1 P} {answer : PartyId → ProductRound2}
    (hchallenge : challenge = productChallengeOf lib statement first quorum context transcript)
    (h : ∀ p ∈ quorum, OpensFirstMoves key statement challenge p (first p) (answer p)) :
    verifyProduct lib.primitives key transcript statement.multiplicand statement.factorCommitment
      statement.productCommitment (productProofOf challenge answer) = true := by
  have hfactors := interpolated_masked hquorum hfactor fun p hp => (h p hp).factor
  -- the relation is an opening under the key whose value generator is the multiplicand
  have hrelations := interpolated_masked hquorum hrelation fun p hp => (h p hp).relation
  have hcommit := interpolated_commit quorum (key.withValueGenerator statement.multiplicand)
    (fun p => (answer p).factorAnswer) fun p => (answer p).relationAnswer
  rw [interpolated_commit, List.headD_eq_head?_getD, hstatement.factor,
    Option.getD_some] at hfactors
  rw [List.headD_eq_head?_getD, hstatement.relation, Option.getD_some] at hrelations
  rw [verifyProduct_iff]
  subst hchallenge
  exact ⟨hfactors, hcommit.symm.trans hrelations⟩

/-! ## Nodes that follow the rounds -/

def FollowedProduct (lib : RoundLibrary P) (key : Pedersen P) (multiplicand : P)
    (context : Bytes) (contribution : ProductNodeContribution P) (challenge : ProductChallenge P)
    (message : ProductRound1 P) (answer : ProductRound2) : Prop :=
  ∃ factorDraw blindingDraw relationDraw,
    message = (prepareProductRound1 lib key contribution multiplicand context factorDraw
      blindingDraw relationDraw).2.2 ∧
    answerProductChallenge contribution (prepareProductRound1 lib key contribution multiplicand
      context factorDraw blindingDraw relationDraw).2.1 challenge = .ok answer

structure OpensLadders (key : Pedersen P) (statement : ProductStatement P)
    (contribution : ProductNodeContribution P) : Prop where
  factor : key.commit contribution.factor.valueShare contribution.factor.blindingShare =
    ladderAt statement.factorCoefficients (partyScalar contribution.party)
  relation : contribution.factor.valueShare • statement.multiplicand +
    contribution.crossShare • key.h =
      ladderAt statement.relationCoefficients (partyScalar contribution.party)

variable {contribution : ProductNodeContribution P}

omit [DecidableEq P] in
theorem FollowedProduct.opens
    (h : FollowedProduct lib key statement.multiplicand context contribution challenge message
      answer) (hshare : OpensLadders key statement contribution) :
    OpensFirstMoves key statement challenge contribution.party message answer := by
  obtain ⟨_, _, _, rfl, hanswer⟩ := h
  obtain rfl := Except.ok.inj (refuseIf_bind_ok.mp hanswer).2
  constructor
  · rw [← hshare.factor]
    simp only [prepareProductRound1, Pedersen.commit]
    module
  · rw [← hshare.relation]
    simp only [prepareProductRound1]
    module

/-! ## Assemblies -/

section Assemblies

variable (hchallenge : makeProductChallengeWithTranscript lib statement messages seals quorum
    context transcript = .ok challenge) (hstatement : statement.Anchored)
  (hfactor : statement.factorCoefficients.length ≤ quorum.length)
  (hrelation : statement.relationCoefficients.length ≤ quorum.length)
  (hcovers : Covers (indexBy ProductRound2.party responses) quorum)

include hchallenge hstatement hfactor hrelation hcovers

theorem assembleProduct_of_opens
    (h : ∀ p ∈ quorum, OpensFirstMoves key statement challenge p (indexBy ProductRound1.party
      messages)[p]! (indexBy ProductRound2.party responses)[p]!) :
    ∃ proof, assembleProductFromRoundsWithTranscript lib key statement messages seals responses
        quorum context transcript = .ok proof ∧
      verifyProduct lib.primitives key transcript statement.multiplicand
        statement.factorCommitment statement.productCommitment proof = true := by
  obtain ⟨hquorum, _, hvalue⟩ := makeProductChallenge_ok hchallenge
  have haccepted := productProofOf_accepted hquorum hstatement hfactor hrelation hvalue h
  refine ⟨_, ?_, haccepted⟩
  rw [assembleProduct_eq hchallenge hcovers]
  refine bind_ok.mpr ⟨(), answers_ok checkProductAnswer_error hquorum.nonzero h, ?_⟩
  exact refuseIf_bind_ok.mpr ⟨not_not.mpr haccepted, rfl⟩

/-- After the challenge, an assembly fails only under the name of a party whose answer does not
open its first moves. -/
theorem assembleProduct_error (hcompress : Function.Injective lib.primitives.compress)
    (h : assembleProductFromRoundsWithTranscript lib key statement messages seals responses quorum
      context transcript = .error error) :
    ∃ p ∈ quorum, NamesParty error p ∧ ¬ OpensFirstMoves key statement challenge p
      (indexBy ProductRound1.party messages)[p]! (indexBy ProductRound2.party responses)[p]! := by
  obtain ⟨hquorum, _, hvalue⟩ := makeProductChallenge_ok hchallenge
  rw [assembleProduct_eq hchallenge hcovers] at h
  rcases bind_error.mp h with hloop | ⟨_, hloop, hfinal⟩
  · exact answers_error checkProductAnswer_error hquorum.nonzero hloop
  · have hopens := fun p (hp : p ∈ quorum) =>
      opens_of_checkProductAnswers hcompress hquorum.nonzero hloop hp
    rcases bind_error.mp hfinal with hverify | ⟨_, _, hnever⟩
    · exact absurd (productProofOf_accepted hquorum hstatement hfactor hrelation hvalue hopens)
        (refuseIf_error.mp hverify).1
    · cases hnever

end Assemblies

/-- Whatever the nodes draw and in whatever order their messages are listed, a challenge is made,
every node whose seal is not the empty one answers it, and the answers assemble to a proof that
the public check accepts. -/
def ProductCompletes (lib : RoundLibrary P) (key : Pedersen P) (statement : ProductStatement P)
    (contribution : PartyId → ProductNodeContribution P) (quorum : List PartyId)
    (context : Bytes) (transcript : Transcript) : Prop :=
  ∀ (factorDraw blindingDraw relationDraw : PartyId → Scalar) (messages : List (ProductRound1 P))
    (seals : List Round1Seal),
    messages.Perm (quorum.map fun p => (prepareProductRound1 lib key (contribution p)
      statement.multiplicand context (factorDraw p) (blindingDraw p) (relationDraw p)).2.2) →
    seals.Perm (quorum.map fun p => (prepareProductRound1 lib key (contribution p)
      statement.multiplicand context (factorDraw p) (blindingDraw p) (relationDraw p)).1) →
    ∃ challenge, makeProductChallengeWithTranscript lib statement messages seals quorum context
        transcript = .ok challenge ∧
      (∀ p ∈ quorum, (prepareProductRound1 lib key (contribution p) statement.multiplicand
          context (factorDraw p) (blindingDraw p) (relationDraw p)).1.digest ≠ zeroDigest →
        ∃ answer, answerProductChallenge (contribution p) (prepareProductRound1 lib key
          (contribution p) statement.multiplicand context (factorDraw p) (blindingDraw p)
          (relationDraw p)).2.1 challenge = .ok answer) ∧
      ∀ (answer : PartyId → ProductRound2) (responses : List ProductRound2),
        (∀ p ∈ quorum, answerProductChallenge (contribution p) (prepareProductRound1 lib key
          (contribution p) statement.multiplicand context (factorDraw p) (blindingDraw p)
          (relationDraw p)).2.1 challenge = .ok (answer p)) →
        responses.Perm (quorum.map answer) →
        ∃ proof, assembleProductFromRoundsWithTranscript lib key statement messages seals
            responses quorum context transcript = .ok proof ∧
          verifyProduct lib.primitives key transcript statement.multiplicand
            statement.factorCommitment statement.productCommitment proof = true

theorem product_complete (hquorum : Committee quorum) (hstatement : statement.Anchored)
    (hfactor : statement.factorCoefficients.length ≤ quorum.length)
    (hrelation : statement.relationCoefficients.length ≤ quorum.length)
    {contribution : PartyId → ProductNodeContribution P}
    (hparty : ∀ p ∈ quorum, (contribution p).party = p)
    (hshare : ∀ p ∈ quorum, OpensLadders key statement (contribution p)) :
    ProductCompletes lib key statement contribution quorum context transcript := by
  intro factorDraw blindingDraw relationDraw messages seals hmessages hseals
  have hrevealed : Revealed lib (productForm lib) messages seals quorum context :=
    revealed_of_perm hquorum.nodup hmessages hseals hparty (fun _ _ => rfl) hparty fun _ _ => rfl
  have hchallenge : makeProductChallengeWithTranscript lib statement messages seals quorum context
      transcript = .ok _ := makeProductChallenge_eq hquorum hrevealed
  refine ⟨_, hchallenge, fun p hp hseal => ⟨_, refuseIf_bind_ok.mpr ⟨?_, rfl⟩⟩,
    fun answer responses hanswer hresponses => ?_⟩
  · have hmember : (contribution p).party ∈ quorum := by rwa [hparty p hp]
    simp only [not_or, not_not]
    exact ⟨rfl, hmember, hseal, rfl⟩
  · have hanswerer : ∀ p ∈ quorum, (answer p).party = p := by
      intro p hp
      rw [← Except.ok.inj (refuseIf_bind_ok.mp (hanswer p hp)).2]
      exact hparty p hp
    have hfirst : ∀ p ∈ quorum, (indexBy ProductRound1.party messages)[p]! = _ :=
      fun p hp => getElem!_of_perm hmessages hparty hp
    have hsecond : ∀ p ∈ quorum, (indexBy ProductRound2.party responses)[p]! = answer p :=
      fun p hp => getElem!_of_perm hresponses hanswerer hp
    refine assembleProduct_of_opens hchallenge hstatement hfactor hrelation
      (covers_indexBy hquorum.nodup (keys_of_perm hresponses hanswerer)) fun p hp => ?_
    rw [hfirst p hp, hsecond p hp]
    have hopens : OpensFirstMoves key statement _ (contribution p).party _ _ :=
      FollowedProduct.opens ⟨_, _, _, rfl, hanswer p hp⟩ (hshare p hp)
    rw [hparty p hp] at hopens
    exact hopens

theorem assembleProduct_ok
    (h : assembleProductFromRoundsWithTranscript lib key statement messages seals responses
      quorum context transcript = .ok proof) :
    verifyProduct lib.primitives key transcript statement.multiplicand statement.factorCommitment
      statement.productCommitment proof = true := by
  obtain ⟨_, _, h⟩ := bind_ok.mp h
  obtain ⟨_, _, h⟩ := bind_ok.mp h
  obtain ⟨_, _, h⟩ := bind_ok.mp h
  obtain ⟨_, _, h⟩ := bind_ok.mp h
  obtain ⟨haccepted, hproof⟩ := refuseIf_bind_ok.mp h
  rw [← Except.ok.inj hproof]
  exact not_not.mp haccepted

end Rounds

end Zkpi.ThresholdProduct
