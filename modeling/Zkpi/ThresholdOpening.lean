import Zkpi.SealedRounds

/-!
# Openings proved by a quorum in rounds

Each node forms its response from its own Shamir shares, and a quorum interpolates the responses
at zero. The same rounds prove a general opening and, with nonces that have no value part, that
a commitment opens to zero.

The assembly checks every answer against its node's sealed first move and the public ladder.
If all answers pass, the interpolated response satisfies the opening equation. That settles a
general opening; a zero opening is accepted exactly when the interpolated value response
vanishes as well, which no single answer shows.
-/

namespace Zkpi.ThresholdOpening

open Std (TreeMap)
open ScalarField ByteText FallibleChecks IndexedTables PedersenSigma
open QuorumInterpolation SealedRounds

inductive Relation where
  /-- Knowledge of some opening. -/
  | general
  /-- The commitment is a multiple of the blinding generator. -/
  | zero
deriving DecidableEq

def frame (transcript : Transcript) : Relation → Transcript
  | .general => transcript
  | .zero => zeroOpeningTranscript transcript

structure OpeningNodeContribution where
  party : PartyId
  valueShare : Scalar
  blindingShare : Scalar

/-- A node's revealed first move. -/
structure OpeningRound1 (P : Type) where
  party : PartyId
  contextDigest : Digest32
  nonceCommitment : P

/-- What a node keeps until it answers. -/
structure OpeningRound1Secret where
  party : PartyId
  valueNonce : Scalar
  blindingNonce : Scalar
  messageDigest : Digest32
  contextDigest : Digest32

structure OpeningChallenge (P : Type) where
  quorum : List PartyId
  contextDigest : Digest32
  nonceCommitment : P
  challenge : Scalar

/-- A node's answer. -/
structure OpeningRound2 where
  party : PartyId
  valueAnswer : Scalar
  blindingAnswer : Scalar

instance : Inhabited OpeningRound2 := ⟨⟨0, 0, 0⟩⟩

section Rounds

variable {P : Type} [AddCommGroup P] [Module Scalar P] [DecidableEq P]

instance : Inhabited (OpeningRound1 P) := ⟨⟨0, zeroDigest, 0⟩⟩

def verifyRelation (primitives : Primitives P) (key : Pedersen P) (transcript : Transcript)
    (commitment : P) (proof : OpeningProof P) : Relation → Bool
  | .general => verifyOpening primitives key transcript commitment proof
  | .zero => verifyZeroOpening primitives key transcript commitment proof

variable (lib : RoundLibrary P)

/-- What the seal of a first move carries. -/
def openingRound1Digest (message : OpeningRound1 P) : Digest32 :=
  lib.sha256 (utf8 "QOMM:THRESHOLD-OPENING:ROUND1:v1" ++ beBytes 8 message.party.toNat ++
    message.contextDigest.toList ++ lib.primitives.compress message.nonceCommitment)

section

variable (key : Pedersen P) (contribution : OpeningNodeContribution) (context : Bytes)

def prepareOpeningRound1With (relation : Relation) (valueDraw blindingDraw : Scalar) :
    Round1Seal × OpeningRound1Secret × OpeningRound1 P :=
  let valueNonce := if relation = .zero then 0 else valueDraw
  let message : OpeningRound1 P :=
    ⟨contribution.party, lib.sha256 context, key.commit valueNonce blindingDraw⟩
  let digest := openingRound1Digest lib message
  (⟨contribution.party, digest⟩,
    ⟨contribution.party, valueNonce, blindingDraw, digest, lib.sha256 context⟩, message)

end

def openingForm : RevealForm (OpeningRound1 P) where
  party := OpeningRound1.party
  contextDigest := OpeningRound1.contextDigest
  digest := openingRound1Digest lib
  mismatch := "opening round-one messages and seals do not exactly match the quorum"
  invalid party := s!"party {party} supplied an invalid opening round-one reveal"

def checkedOpeningRound1 (messages : List (OpeningRound1 P)) (seals : List Round1Seal)
    (quorum : List PartyId) (context : Bytes) :
    Except String (TreeMap PartyId (OpeningRound1 P)) :=
  checkedReveals lib (openingForm lib) messages seals quorum context

section

variable (commitment : P) (messages : List (OpeningRound1 P)) (seals : List Round1Seal)
variable (quorum : List PartyId) (context : Bytes) (transcript : Transcript)

def makeOpeningChallengeWith
    (relation : Relation) : Except String (OpeningChallenge P) := do
  let byParty ← checkedOpeningRound1 lib messages seals quorum context
  let nonceCommitment ←
    combineCommitments (tabulate quorum fun party => byParty[party]!.nonceCommitment)
  let challenge :=
    openingChallenge lib.primitives (frame transcript relation) commitment nonceCommitment
  pure ⟨quorum, lib.sha256 context, nonceCommitment, challenge⟩

def makeOpeningChallengeWithTranscript : Except String (OpeningChallenge P) :=
  makeOpeningChallengeWith lib commitment messages seals quorum context transcript .general

def makeZeroOpeningChallengeWithTranscript : Except String (OpeningChallenge P) :=
  makeOpeningChallengeWith lib commitment messages seals quorum context transcript .zero

end

def answerOpeningChallenge (contribution : OpeningNodeContribution)
    (secret : OpeningRound1Secret) (challenge : OpeningChallenge P) :
    Except String OpeningRound2 := do
  refuseIf (contribution.party ≠ secret.party ∨ secret.party ∉ challenge.quorum ∨
    secret.messageDigest = zeroDigest ∨ secret.contextDigest ≠ challenge.contextDigest)
    "opening challenge does not match this node's sealed first round"
  pure ⟨secret.party, secret.valueNonce + challenge.challenge * contribution.valueShare,
    secret.blindingNonce + challenge.challenge * contribution.blindingShare⟩

variable (key : Pedersen P)

def checkOpeningAnswer (ladder : List P) (challenge : OpeningChallenge P)
    (first : TreeMap PartyId (OpeningRound1 P)) (answers : TreeMap PartyId OpeningRound2)
    (party : PartyId) : Except String Unit := do
  let evaluation ← shareCommitment ladder party
  refuseIf (lib.primitives.compress
      (key.commit answers[party]!.valueAnswer answers[party]!.blindingAnswer) ≠
    lib.primitives.compress
      (first[party]!.nonceCommitment + challenge.challenge • evaluation))
    s!"party {party} supplied a bad opening answer"

section

variable (commitment : P) (coefficientCommitments : List P) (messages : List (OpeningRound1 P))
variable (seals : List Round1Seal) (responses : List OpeningRound2) (quorum : List PartyId)
variable (context : Bytes) (transcript : Transcript)

def assembleOpeningFromRoundsWith (relation : Relation) : Except String (OpeningProof P) := do
  let challenge ←
    makeOpeningChallengeWith lib commitment messages seals quorum context transcript relation
  let first := indexBy OpeningRound1.party messages
  let answers := indexBy OpeningRound2.party responses
  refuseIf (coefficientCommitments = [] ∨ lib.primitives.compress (coefficientCommitments.headD 0) ≠
      lib.primitives.compress commitment ∨ answers.size ≠ quorum.length ∨
      ∃ party ∈ quorum, party ∉ answers)
    "opening statement or responses do not match the quorum"
  quorum.forM (checkOpeningAnswer lib key coefficientCommitments challenge first answers)
  let coefficients ← lagrangeAtZero quorum
  let proof : OpeningProof P := ⟨challenge.nonceCommitment,
    combineAnswers coefficients quorum fun party => answers[party]!.valueAnswer,
    combineAnswers coefficients quorum fun party => answers[party]!.blindingAnswer⟩
  refuseIf (¬ verifyRelation lib.primitives key transcript commitment proof relation)
    "assembled threshold opening proof does not verify"
  pure proof

def assembleOpeningFromRoundsWithTranscript : Except String (OpeningProof P) :=
  assembleOpeningFromRoundsWith lib key commitment coefficientCommitments messages seals responses
    quorum context transcript .general

def assembleZeroOpeningFromRoundsWithTranscript : Except String (OpeningProof P) :=
  assembleOpeningFromRoundsWith lib key commitment coefficientCommitments messages seals responses
    quorum context transcript .zero

end

/-! ## What the rounds compute -/

def openingChallengeOf (commitment : P) (nonceCommitment : PartyId → P) (quorum : List PartyId)
    (context : Bytes) (transcript : Transcript) (relation : Relation) : OpeningChallenge P where
  quorum := quorum
  contextDigest := lib.sha256 context
  nonceCommitment := interpolated quorum nonceCommitment
  challenge := openingChallenge lib.primitives (frame transcript relation) commitment
    (interpolated quorum nonceCommitment)

def openingProofOf (challenge : OpeningChallenge P) (answer : PartyId → OpeningRound2) :
    OpeningProof P where
  t := challenge.nonceCommitment
  zValue := interpolated challenge.quorum fun p => (answer p).valueAnswer
  zBlinding := interpolated challenge.quorum fun p => (answer p).blindingAnswer

variable {lib key} {commitment : P} {ladder : List P} {messages : List (OpeningRound1 P)}
  {seals : List Round1Seal} {responses : List OpeningRound2} {quorum : List PartyId}
  {context : Bytes} {transcript : Transcript} {relation : Relation}

omit [DecidableEq P] in
theorem makeOpeningChallenge_eq (hquorum : Committee quorum)
    (h : Revealed lib (openingForm lib) messages seals quorum context) :
    makeOpeningChallengeWith lib commitment messages seals quorum context transcript relation =
      .ok (openingChallengeOf lib commitment
        (fun p => (indexBy OpeningRound1.party messages)[p]!.nonceCommitment) quorum context
        transcript relation) := by
  rw [makeOpeningChallengeWith, checkedOpeningRound1, checkedReveals_eq h]
  exact bind_ok.mpr ⟨_, rfl, bind_ok.mpr ⟨_, combineCommitments_eq hquorum _, rfl⟩⟩

variable {challenge : OpeningChallenge P}

omit [DecidableEq P] in
/-- A challenge is made only for a committee whose first moves are the sealed ones. -/
theorem makeOpeningChallenge_ok
    (h : makeOpeningChallengeWith lib commitment messages seals quorum context transcript relation =
      .ok challenge) :
    Committee quorum ∧ Revealed lib (openingForm lib) messages seals quorum context ∧
      challenge = openingChallengeOf lib commitment
        (fun p => (indexBy OpeningRound1.party messages)[p]!.nonceCommitment) quorum context
        transcript relation := by
  obtain ⟨_, hchecked, hrest⟩ := bind_ok.mp h
  obtain ⟨hrevealed, rfl⟩ := checkedReveals_ok hchecked
  obtain ⟨_, hcombined, _⟩ := bind_ok.mp hrest
  obtain ⟨hnonempty, hnonzero⟩ := combineCommitments_ok hcombined
  have hquorum : Committee quorum := ⟨hnonempty, hrevealed.nodup, hnonzero⟩
  exact ⟨hquorum, hrevealed,
    Except.ok.inj (h.symm.trans (makeOpeningChallenge_eq hquorum hrevealed))⟩

theorem assembleOpening_eq
    (hchallenge : makeOpeningChallengeWith lib commitment messages seals quorum context transcript
      relation = .ok challenge) (hladder : ladder.head? = some commitment)
    (hcovers : Covers (indexBy OpeningRound2.party responses) quorum) :
    assembleOpeningFromRoundsWith lib key commitment ladder messages seals responses quorum
        context transcript relation = (do
      quorum.forM (checkOpeningAnswer lib key ladder challenge
        (indexBy OpeningRound1.party messages) (indexBy OpeningRound2.party responses))
      let proof := openingProofOf challenge fun p => (indexBy OpeningRound2.party responses)[p]!
      refuseIf (¬ verifyRelation lib.primitives key transcript commitment proof relation)
        "assembled threshold opening proof does not verify"
      pure proof) := by
  obtain ⟨hquorum, _, hvalue⟩ := makeOpeningChallenge_ok hchallenge
  obtain ⟨coefficients, hlagrange, hweights⟩ := lagrangeAtZero_eq hquorum
  obtain ⟨rest, rfl⟩ : ∃ rest, ladder = commitment :: rest := by
    cases ladder with
    | nil => cases hladder
    | cons constant rest =>
      cases hladder
      exact ⟨rest, rfl⟩
  have hmatch : ¬ (commitment :: rest = [] ∨ lib.primitives.compress ((commitment :: rest).headD 0)
      ≠ lib.primitives.compress commitment ∨
      (indexBy OpeningRound2.party responses).size ≠ quorum.length ∨
      ∃ party ∈ quorum, party ∉ indexBy OpeningRound2.party responses) := by
    simp only [not_or, not_exists, not_and, not_not]
    exact ⟨List.cons_ne_nil _ _, rfl, hcovers.1, hcovers.2⟩
  have hproof : openingProofOf challenge
      (fun p => (indexBy OpeningRound2.party responses)[p]!) = ⟨challenge.nonceCommitment,
        combineAnswers coefficients quorum fun p =>
          (indexBy OpeningRound2.party responses)[p]!.valueAnswer,
        combineAnswers coefficients quorum fun p =>
          (indexBy OpeningRound2.party responses)[p]!.blindingAnswer⟩ := by
    rw [combineAnswers_eq hquorum.nodup hweights, combineAnswers_eq hquorum.nodup hweights,
      openingProofOf, hvalue]
    rfl
  rw [assembleOpeningFromRoundsWith, hchallenge, hlagrange, hproof]
  simp only [bind, Except.bind, refuseIf, if_neg hmatch]

def OpensFirstMove (key : Pedersen P) (ladder : List P) (challenge : OpeningChallenge P)
    (party : PartyId) (first : OpeningRound1 P) (answer : OpeningRound2) : Prop :=
  key.commit answer.valueAnswer answer.blindingAnswer =
    first.nonceCommitment + challenge.challenge • ladderAt ladder (partyScalar party)

variable {first : TreeMap PartyId (OpeningRound1 P)}

omit [DecidableEq P] in
/-- A bad answer is reported under the name of its party, and only a bad one is. -/
theorem checkOpeningAnswer_error (hparty : party ≠ 0)
    (h : checkOpeningAnswer lib key ladder challenge first answers party = .error error) :
    NamesParty error party ∧
      ¬ OpensFirstMove key ladder challenge party first[party]! answers[party]! := by
  rw [checkOpeningAnswer, shareCommitment_eq hparty] at h
  obtain ⟨hbad, rfl⟩ := refuseIf_error.mp h
  refine ⟨⟨"supplied a bad opening answer", ?_⟩, fun hopens => hbad ?_⟩
  · simp only [String.append_assoc]
    rfl
  · rw [hopens]

omit [DecidableEq P] in
theorem opens_of_checkOpeningAnswers (hcompress : Function.Injective lib.primitives.compress)
    (hnonzero : 0 ∉ quorum)
    (h : quorum.forM (checkOpeningAnswer lib key ladder challenge first answers) = .ok ())
    (hp : p ∈ quorum) : OpensFirstMove key ladder challenge p first[p]! answers[p]! := by
  have hcheck := forM_ok.mp h p hp
  rw [checkOpeningAnswer, shareCommitment_eq fun hzero => hnonzero (hzero ▸ hp)] at hcheck
  exact hcompress (not_not.mp (refuseIf_ok.mp hcheck))

variable {answer : PartyId → OpeningRound2}

section Accepted

variable (hquorum : Committee quorum) (hladder : ladder.head? = some commitment)
  (hlength : ladder.length ≤ quorum.length) {first : PartyId → OpeningRound1 P}
  (hchallenge : challenge = openingChallengeOf lib commitment (fun p => (first p).nonceCommitment)
    quorum context transcript relation)
  (h : ∀ p ∈ quorum, OpensFirstMove key ladder challenge p (first p) (answer p))

include hquorum hladder hlength hchallenge h

omit [DecidableEq P] in
theorem interpolated_opening :
    (openingProofOf challenge answer).zValue • key.g +
        (openingProofOf challenge answer).zBlinding • key.h =
      challenge.nonceCommitment + challenge.challenge • commitment := by
  have hmasked := interpolated_masked hquorum hlength h
  have hconstant : ladder.headD 0 = commitment := by
    rw [List.headD_eq_head?_getD, hladder, Option.getD_some]
  rw [interpolated_commit, hconstant] at hmasked
  rw [hchallenge] at hmasked ⊢
  exact hmasked

/-- If every answer opens its first move, a general proof is accepted and a zero proof is
accepted when the interpolated value answer vanishes. -/
theorem openingProofOf_accepted
    (hzero : relation = .zero → interpolated quorum (fun p => (answer p).valueAnswer) = 0) :
    verifyRelation lib.primitives key transcript commitment (openingProofOf challenge answer)
      relation = true := by
  have hequation := interpolated_opening hquorum hladder hlength hchallenge h
  cases relation with
  | general =>
    rw [verifyRelation, verifyOpening_iff, hequation, hchallenge]
    rfl
  | zero =>
    have hvalue : (openingProofOf challenge answer).zValue = 0 := by
      rw [hchallenge]
      exact hzero rfl
    rw [hvalue, zero_smul, zero_add] at hequation
    rw [verifyRelation, verifyZeroOpening_iff]
    refine ⟨hvalue, hequation.trans ?_⟩
    rw [hchallenge]
    rfl

end Accepted

/-! ## Nodes that follow the rounds -/

def FollowedOpening (lib : RoundLibrary P) (key : Pedersen P) (relation : Relation)
    (context : Bytes) (contribution : OpeningNodeContribution) (challenge : OpeningChallenge P)
    (message : OpeningRound1 P) (answer : OpeningRound2) : Prop :=
  ∃ valueDraw blindingDraw,
    message = (prepareOpeningRound1With lib key contribution context relation valueDraw
      blindingDraw).2.2 ∧
    answerOpeningChallenge contribution (prepareOpeningRound1With lib key contribution context
      relation valueDraw blindingDraw).2.1 challenge = .ok answer

variable {contribution : OpeningNodeContribution}

section

omit [DecidableEq P]

theorem FollowedOpening.opens {answer : OpeningRound2}
    (h : FollowedOpening lib key relation context contribution challenge message answer)
    (hshare : key.commit contribution.valueShare contribution.blindingShare = ladderAt ladder
      (partyScalar contribution.party)) :
    OpensFirstMove key ladder challenge contribution.party message answer := by
  obtain ⟨_, _, rfl, hanswer⟩ := h
  obtain rfl := Except.ok.inj (refuseIf_bind_ok.mp hanswer).2
  rw [OpensFirstMove, ← hshare]
  simp only [prepareOpeningRound1With, Pedersen.commit]
  module

theorem FollowedOpening.value {answer : OpeningRound2}
    (h : FollowedOpening lib key .zero context contribution challenge message answer) :
    answer.valueAnswer = challenge.challenge * contribution.valueShare := by
  obtain ⟨_, _, _, hanswer⟩ := h
  obtain rfl := Except.ok.inj (refuseIf_bind_ok.mp hanswer).2
  simp [prepareOpeningRound1With]

theorem interpolated_value_of_followed {contribution : PartyId → OpeningNodeContribution}
    {message : PartyId → OpeningRound1 P}
    (h : ∀ p ∈ quorum, FollowedOpening lib key .zero context (contribution p) challenge (message p)
      (answer p)) (hzero : interpolated quorum (fun p => (contribution p).valueShare) = 0) :
    interpolated quorum (fun p => (answer p).valueAnswer) = 0 := by
  have hvalue := interpolated_smul quorum challenge.challenge
    fun p => (contribution p).valueShare
  rw [hzero, smul_zero] at hvalue
  rw [← hvalue]
  exact interpolated_congr fun p hp => (h p hp).value

end

/-! ## Assemblies -/

section Assemblies

variable (hchallenge : makeOpeningChallengeWith lib commitment messages seals quorum context
    transcript relation = .ok challenge) (hladder : ladder.head? = some commitment)
  (hlength : ladder.length ≤ quorum.length)
  (hcovers : Covers (indexBy OpeningRound2.party responses) quorum)

include hchallenge hladder hlength hcovers

theorem assembleOpening_of_opens
    (h : ∀ p ∈ quorum, OpensFirstMove key ladder challenge p (indexBy OpeningRound1.party
      messages)[p]! (indexBy OpeningRound2.party responses)[p]!)
    (hzero : relation = .zero → interpolated quorum (fun p => (indexBy OpeningRound2.party
      responses)[p]!.valueAnswer) = 0) :
    ∃ proof, assembleOpeningFromRoundsWith lib key commitment ladder messages seals responses
        quorum context transcript relation = .ok proof ∧
      verifyRelation lib.primitives key transcript commitment proof relation = true := by
  obtain ⟨hquorum, _, hvalue⟩ := makeOpeningChallenge_ok hchallenge
  have haccepted := openingProofOf_accepted hquorum hladder hlength hvalue h hzero
  refine ⟨_, ?_, haccepted⟩
  rw [assembleOpening_eq hchallenge hladder hcovers]
  refine bind_ok.mpr ⟨(), answers_ok checkOpeningAnswer_error hquorum.nonzero h, ?_⟩
  exact refuseIf_bind_ok.mpr ⟨not_not.mpr haccepted, rfl⟩

/-- After the challenge, an assembly fails under the name of a party whose answer does not open
its first move; only a zero opening can fail otherwise, when all answers open their first moves
and the interpolated value answer does not vanish. -/
theorem assembleOpening_error (hcompress : Function.Injective lib.primitives.compress)
    (h : assembleOpeningFromRoundsWith lib key commitment ladder messages seals responses quorum
      context transcript relation = .error error) :
    (∃ p ∈ quorum, NamesParty error p ∧ ¬ OpensFirstMove key ladder challenge p
      (indexBy OpeningRound1.party messages)[p]! (indexBy OpeningRound2.party responses)[p]!) ∨
    (relation = .zero ∧ error = "assembled threshold opening proof does not verify" ∧
      (∀ p ∈ quorum, OpensFirstMove key ladder challenge p
        (indexBy OpeningRound1.party messages)[p]! (indexBy OpeningRound2.party responses)[p]!) ∧
      interpolated quorum
        (fun p => (indexBy OpeningRound2.party responses)[p]!.valueAnswer) ≠ 0) := by
  obtain ⟨hquorum, _, hvalue⟩ := makeOpeningChallenge_ok hchallenge
  rw [assembleOpening_eq hchallenge hladder hcovers] at h
  rcases bind_error.mp h with hloop | ⟨_, hloop, hfinal⟩
  · exact .inl (answers_error checkOpeningAnswer_error hquorum.nonzero hloop)
  · have hopens := fun p (hp : p ∈ quorum) =>
      opens_of_checkOpeningAnswers hcompress hquorum.nonzero hloop hp
    rcases bind_error.mp hfinal with hverify | ⟨_, _, hnever⟩
    · obtain ⟨hrejected, rfl⟩ := refuseIf_error.mp hverify
      by_cases hzero : relation = .zero →
          interpolated quorum (fun p => (indexBy OpeningRound2.party responses)[p]!.valueAnswer) = 0
      · exact absurd (openingProofOf_accepted hquorum hladder hlength hvalue hopens hzero) hrejected
      · rw [Classical.not_imp] at hzero
        exact .inr ⟨hzero.1, rfl, hopens, hzero.2⟩
    · cases hnever

end Assemblies

/-- Whatever the nodes draw and in whatever order their messages are listed, a challenge is made,
every node whose seal is not the empty one answers it, and the answers assemble to a proof that
the public check accepts. -/
def OpeningCompletes (lib : RoundLibrary P) (key : Pedersen P) (commitment : P) (ladder : List P)
    (contribution : PartyId → OpeningNodeContribution) (quorum : List PartyId) (context : Bytes)
    (transcript : Transcript) (relation : Relation) : Prop :=
  ∀ (valueDraw blindingDraw : PartyId → Scalar) (messages : List (OpeningRound1 P))
    (seals : List Round1Seal),
    messages.Perm (quorum.map fun p => (prepareOpeningRound1With lib key (contribution p) context
      relation (valueDraw p) (blindingDraw p)).2.2) →
    seals.Perm (quorum.map fun p => (prepareOpeningRound1With lib key (contribution p) context
      relation (valueDraw p) (blindingDraw p)).1) →
    ∃ challenge, makeOpeningChallengeWith lib commitment messages seals quorum context transcript
        relation = .ok challenge ∧
      (∀ p ∈ quorum, (prepareOpeningRound1With lib key (contribution p) context relation
          (valueDraw p) (blindingDraw p)).1.digest ≠ zeroDigest →
        ∃ answer, answerOpeningChallenge (contribution p) (prepareOpeningRound1With lib key
          (contribution p) context relation (valueDraw p) (blindingDraw p)).2.1 challenge =
            .ok answer) ∧
      ∀ (answer : PartyId → OpeningRound2) (responses : List OpeningRound2),
        (∀ p ∈ quorum, answerOpeningChallenge (contribution p) (prepareOpeningRound1With lib key
          (contribution p) context relation (valueDraw p) (blindingDraw p)).2.1 challenge =
            .ok (answer p)) →
        responses.Perm (quorum.map answer) →
        ∃ proof, assembleOpeningFromRoundsWith lib key commitment ladder messages seals responses
            quorum context transcript relation = .ok proof ∧
          verifyRelation lib.primitives key transcript commitment proof relation = true

theorem opening_complete (hquorum : Committee quorum) (hladder : ladder.head? = some commitment)
    (hlength : ladder.length ≤ quorum.length) {contribution : PartyId → OpeningNodeContribution}
    (hparty : ∀ p ∈ quorum, (contribution p).party = p)
    (hshare : ∀ p ∈ quorum, key.commit (contribution p).valueShare (contribution p).blindingShare =
      ladderAt ladder (partyScalar p))
    (hzero : relation = .zero → interpolated quorum (fun p => (contribution p).valueShare) = 0) :
    OpeningCompletes lib key commitment ladder contribution quorum context transcript
      relation := by
  intro valueDraw blindingDraw messages seals hmessages hseals
  have hrevealed : Revealed lib (openingForm lib) messages seals quorum context :=
    revealed_of_perm hquorum.nodup hmessages hseals hparty (fun _ _ => rfl) hparty fun _ _ => rfl
  have hchallenge : makeOpeningChallengeWith lib commitment messages seals quorum context
      transcript relation = .ok _ := makeOpeningChallenge_eq hquorum hrevealed
  refine ⟨_, hchallenge, fun p hp hseal => ⟨_, refuseIf_bind_ok.mpr ⟨?_, rfl⟩⟩,
    fun answer responses hanswer hresponses => ?_⟩
  · have hmember : (contribution p).party ∈ quorum := by rwa [hparty p hp]
    simp only [not_or, not_not]
    exact ⟨rfl, hmember, hseal, rfl⟩
  · have hanswerer : ∀ p ∈ quorum, (answer p).party = p := by
      intro p hp
      rw [← Except.ok.inj (refuseIf_bind_ok.mp (hanswer p hp)).2]
      exact hparty p hp
    have hfirst : ∀ p ∈ quorum, (indexBy OpeningRound1.party messages)[p]! = _ :=
      fun p hp => getElem!_of_perm hmessages hparty hp
    have hsecond : ∀ p ∈ quorum, (indexBy OpeningRound2.party responses)[p]! = answer p :=
      fun p hp => getElem!_of_perm hresponses hanswerer hp
    refine assembleOpening_of_opens hchallenge hladder hlength
      (covers_indexBy hquorum.nodup (keys_of_perm hresponses hanswerer)) (fun p hp => ?_) ?_
    · rw [hfirst p hp, hsecond p hp]
      have hopens : OpensFirstMove key ladder _ (contribution p).party _ _ :=
        FollowedOpening.opens ⟨_, _, rfl, hanswer p hp⟩ (by rw [hshare p hp, hparty p hp])
      rw [hparty p hp] at hopens
      exact hopens
    · rintro rfl
      rw [interpolated_congr fun p hp => congrArg OpeningRound2.valueAnswer (hsecond p hp)]
      exact interpolated_value_of_followed (fun p hp => ⟨_, _, rfl, hanswer p hp⟩) (hzero rfl)

theorem assembleOpening_ok
    (h : assembleOpeningFromRoundsWith lib key commitment ladder messages seals responses quorum
      context transcript relation = .ok proof) :
    verifyRelation lib.primitives key transcript commitment proof relation = true := by
  obtain ⟨_, _, h⟩ := bind_ok.mp h
  obtain ⟨_, _, h⟩ := bind_ok.mp h
  obtain ⟨_, _, h⟩ := bind_ok.mp h
  obtain ⟨_, _, h⟩ := bind_ok.mp h
  obtain ⟨haccepted, hproof⟩ := refuseIf_bind_ok.mp h
  rw [← Except.ok.inj hproof]
  exact not_not.mp haccepted

end Rounds

end Zkpi.ThresholdOpening
