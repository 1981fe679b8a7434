import Zkpi.OptimisticMachine
import Zkpi.QuoteStatement
import Zkpi.SettlementVenue

/-!
# What a proof party is built on

A proof party keeps one node's share of every secret behind a request loop. The
threshold-signature, key-enrollment, sealing and proof-share code it calls is
gathered here as interfaces whose types and functions are arbitrary: nothing
below assumes that they are correct, only that a decoder, an encoder or a check
gives a result or an error. The records are those the party reads fields of.
-/

namespace Zkpi.ProofPartyLibrary

open ScalarField ByteText KeyedTables PedersenSigma AggregatedRanges ThresholdRange
open PaymentInstruction TypedSettlement QuoteStatement OptimisticMachine

abbrev Param (A : Type) := Except String A

abbrev Wire (A : Type) := Param (Digest32 × Option A)

/-- An encoding that may fail in both directions. -/
structure Codec (A : Type) where
  serialize : A → Option Bytes
  deserialize : Bytes → Option A

/-! ## Threshold signatures and enrolled identities -/

structure FrostLibrary (PublicKeyPackage : Type) where
  KeyPackage : Type
  Round1Secret : Type
  Round1Package : Type
  Round2Secret : Type
  Round2Package : Type
  SigningNonces : Type
  SigningCommitments : Type
  keyPackage : Codec KeyPackage
  publicKeyPackage : Bytes → Option PublicKeyPackage
  round1Secret : Codec Round1Secret
  round1Package : Codec Round1Package
  round2Secret : Codec Round2Secret
  round2Package : Codec Round2Package
  commitments : Codec SigningCommitments
  part1 : ℕ → ℕ → ℕ → Bytes → Option (Round1Secret × Round1Package)
  part2 : Round1Secret → Table ℕ Round1Package → Option (Round2Secret × Table ℕ Round2Package)
  part3 : Round2Secret → Table ℕ Round1Package → Table ℕ Round2Package →
    Option (KeyPackage × PublicKeyPackage)
  commit : KeyPackage → ℕ → SigningNonces × SigningCommitments
  sign : Table ℕ SigningCommitments → Bytes → SigningNonces → KeyPackage → Option Bytes

structure NodeKeys (KeyRecord : Type) where
  identityPrivate : Bytes
  applicationPrivate : Bytes
  exchangePrivate : Bytes
  pqPrivate : Bytes
  pqKey : KeyRecord

structure VerifiedPeerIdentity where
  identityRaw : Bytes
  exchangeRaw : Bytes
  publicationPublic : Bytes
  signature : Bytes
  pqSignature : Bytes

structure IdentityLibrary (KeyRecord : Type) where
  keyRecordEq : DecidableEq KeyRecord
  /-- One node's self-signed identity. -/
  PeerEntry : Type
  entryEq : DecidableEq PeerEntry
  party : PeerEntry → ℕ
  pqKey : PeerEntry → KeyRecord
  identityPublicText : PeerEntry → String
  publicationPublicText : PeerEntry → String
  exchangePublicText : PeerEntry → String
  verifyPeerIdentity : PeerEntry → Digest32 → Except String VerifiedPeerIdentity
  keyRecordBytes : KeyRecord → Bytes
  validAt : KeyRecord → UInt64 → Except String Unit
  validateRecord : KeyRecord → Except String Unit
  ownSettlementKey : NodeKeys KeyRecord → Bool
  generate : Bytes → Option UInt64 → Except String (NodeKeys KeyRecord)
  kemSuite : Bytes
  identityPublic : NodeKeys KeyRecord → Bytes
  publicationPublic : NodeKeys KeyRecord → Bytes
  exchangePublic : NodeKeys KeyRecord → Except String Bytes
  applicationPublic : NodeKeys KeyRecord → Digest32
  identitySign : NodeKeys KeyRecord → Bytes → Bytes
  transportSign : NodeKeys KeyRecord → Bytes → Bytes → Except String Bytes
  publicationSign : NodeKeys KeyRecord → Bytes → Except String Bytes
  applicationSign : NodeKeys KeyRecord → Bytes → Except String Bytes
  verifyIdentity : PeerEntry → Bytes → Bytes → Bool
  verifyTransport : KeyRecord → Bytes → Bytes → Bool
  sealForWinner : NodeKeys KeyRecord → PeerEntry → Bytes → Bytes → Digest32 → Bytes →
    Except String Bytes
  openIfWinner : NodeKeys KeyRecord → PeerEntry → Bytes → Bytes → Digest32 → UInt64 →
    Except String (Option Bytes)
  envelopeDecodes : Bytes → Bool

/-! ## Proof shares -/

/-- One node's share of a distributed proof. What its first step, its commitment
round and its later steps read besides the share are parameters. -/
structure Issuer (Early Prepare Late : Type) where
  Node : Type
  Bound : Type
  Secret : Type
  Evaluation : Type
  Statement : Type
  Challenge : Type
  party : Node → ℕ
  evaluations : Digest32 → Node → Early → Except String Bytes
  bind : Node → Statement → Except String Bound
  relations : Digest32 → Bound → Late → Except String (Except String Bytes)
  /-- The first-round secret with the encoded seal and round. -/
  prepare : Digest32 → Bound → Prepare → Bytes →
    Except String (Secret × Except String Bytes × Except String Bytes)
  answer : Digest32 → Bound → Late → Secret → Challenge → Except String (Except String Bytes)

structure QuoteInput (P : Type) where
  circuit : QuoteCircuit P
  statement : Public P

structure DvpEvaluationPoints (P : Type) where
  party : ℕ
  product : P
  securitiesRemainder : P
  cashRemainder : P

structure DvpProofs (P : Type) where
  product : ProductProof P
  securitiesRemainder : ThresholdRangeProof P
  cashRemainder : ThresholdRangeProof P

inductive Leg where
  | securitiesDelivery | securitiesRefund | cashDelivery | cashRefund
deriving DecidableEq

def Leg.ofText (text : String) : Option Leg :=
  if text = "securities_delivery" then some .securitiesDelivery
  else if text = "securities_refund" then some .securitiesRefund
  else if text = "cash_delivery" then some .cashDelivery
  else if text = "cash_refund" then some .cashRefund
  else none

/-! ## Mandates, acknowledgements and allocations -/

structure MakerPolicyMandate where
  venueId : Digest32
  defmiId : Digest32
  policyDigest : Digest32
  policyVersion : UInt64
  assetId : Digest32
  direction : TradeDirection
  reserveId : Digest32
  maximumAmountCommitment : Bytes
  makerHandle : Bytes
  entityCommitment : Digest32
  validUntil : UInt64
  /-- The signed encoding, with the fields a proof party does not read. -/
  signed : Bytes

structure TakerExecutionMandate where
  venueId : Digest32
  defmiId : Digest32
  rfqNullifier : Digest32
  direction : TradeDirection
  maximumAmountCommitment : Bytes
  reserveId : Digest32
  takerHandle : Bytes
  deadline : UInt64
  /-- The signed encoding, with the fields a proof party does not read. -/
  signed : Bytes

inductive ReserveMandate where
  | maker (mandate : MakerPolicyMandate)
  | taker (mandate : TakerExecutionMandate)

inductive ReservationParty where
  | maker | taker
deriving DecidableEq

structure PretradeReservationBinding where
  party : ReservationParty
  ownerHandle : Bytes
  direction : TradeDirection
  reserveId : Digest32
  mandateDigest : Digest32
  policyDigest : Digest32
  reserveReceiptDigest : Digest32
  amountCommitment : Bytes

structure PretradeAcknowledgement where
  defmiId : Digest32
  afterStateRoot : Digest32
  bindings : List PretradeReservationBinding
  signed : Bytes

/-- The reservation of one owner in one direction. -/
def PretradeAcknowledgement.bindingFor (acknowledgement : PretradeAcknowledgement)
    (party : ReservationParty) (ownerHandle : Bytes) (direction : TradeDirection) :
    Option PretradeReservationBinding :=
  acknowledgement.bindings.find? fun value =>
    value.party = party ∧ value.ownerHandle = ownerHandle ∧ value.direction = direction

structure StandingPoolMakerAuthorization where
  entityCommitment : Digest32
  assetId : Digest32
  direction : UInt8
  policyDigest : Digest32
  mandateDigest : Digest32
  policyVersion : UInt64

structure StandingPoolAllocationBinding where
  poolId : Digest32
  delegationDigest : Digest32
  committeeEpoch : UInt64
  expectedPoolSequence : UInt64
  previousAmountCommitment : Bytes
  escrowValueCommitment : Bytes
  remainderValueCommitment : Bytes
  proofJobId : Digest32
  quoteProofDigest : Digest32
  dvpProofDigest : Digest32
  remainderRangeProofDigest : Digest32
  authorization : StandingPoolMakerAuthorization
  /-- The signed encoding, with the fields a proof party does not read. -/
  signed : Bytes

/-! ## Quote authorizations -/

structure NodeExecutionAdmission where
  policy : OptimisticPolicy
  execution : RegisteredExecution
  acceptedState : Digest32
  acceptedHeight : UInt64
  signature : Bytes

structure OptimisticQuote (P : Type) where
  context : Digest32
  eligibilityBits : ℕ
  spanBits : ℕ
  statement : Public P
  winnerIndex : ℕ
  winnerValue : UInt64
  policy : OptimisticPolicy
  proposal : Proposal

inductive QuoteAuthorization (P : Type) where
  | jointProof (bundle : Bytes)
  | optimistic (quote : OptimisticQuote P)

structure PublicationStatement where
  operationId : Digest32
  body : Except String Bytes

structure AdmissionClaim where
  slot : UInt64
  sequence : UInt64
  principal : String
  ticketId : Digest32
  claimDigest : Digest32
  batchDigest : Digest32
  orderDigest : Digest32

structure ExecutionClaim where
  slot : UInt64
  lane : UInt64
  batchDigest : Digest32
  sourceDigest : Digest32
  stateGeneration : UInt64
  frameCount : UInt64
  inputCount : UInt64
  stdoutDigest : Digest32
  stderrDigest : Digest32

/-! ## The whole interface -/

structure PartyLibrary (P : Type) where
  primitives : Primitives P
  bulletproofs : Bulletproofs P
  quorum : QuorumLibrary
  frost : FrostLibrary quorum.PublicKeyPackage
  identity : IdentityLibrary quorum.KeyRecord
  sha256 : Bytes → Digest32
  sha512 : Bytes → Digest64
  defaultGens : Pedersen P
  key : Pedersen P
  decompress : Bytes → Option P
  receiptKeyValid : Digest32 → Bool
  recipientPublicBytes : ℕ
  -- the shares a persistence file holds
  zkpi : Issuer Unit Unit Unit
  limit : Issuer Unit Bytes Unit
  dvp : Issuer P P Unit
  quote : Issuer (QuoteCircuit P) (QuoteInput P × Bytes) (QuoteInput P)
  zkpiStatements : List zkpi.Evaluation → ℕ → Except String zkpi.Statement
  zkpiAmount : zkpi.Statement → P
  zkpiPrice : zkpi.Statement → P
  limitStatement : List limit.Evaluation → ℕ → Except String limit.Statement
  limitCommitment : limit.Statement → P
  dvpPoints : dvp.Evaluation → DvpEvaluationPoints P
  dvpStatements : P → P → P → P → P → List dvp.Evaluation → ℕ → Except String dvp.Statement
  coefficientCommitments : Table ℕ P → ℕ → Except String (List P)
  quoteStatement : QuoteCircuit P → List quote.Evaluation → Public P → ℕ → UInt64 → List ℕ → ℕ →
    Except String quote.Statement
  winnerIndex : quote.Statement → ℕ
  winnerValue : quote.Statement → UInt64
  QuoteRelation : Type
  QuoteRelations : Type
  quoteRelations : QuoteCircuit P → quote.Statement → Public P → List QuoteRelation →
    Except String QuoteRelations
  QuoteRound : Type
  QuoteSeal : Type
  QuoteResponse : Type
  assembleQuote : QuoteCircuit P → quote.Statement → QuoteRelations → Public P →
    List QuoteRound → List QuoteSeal → List QuoteResponse → List ℕ → Bytes →
    Except String Digest32
  zkpiAmountOpening : zkpi.Bound → Scalar × Scalar
  dvpSecuritiesOpening : dvp.Bound → Scalar × Scalar
  dvpCashOpening : dvp.Bound → Except String (Scalar × Scalar)
  dvpCashRemainderOpening : dvp.Bound → Scalar × Scalar
  encryptOpeningShare : Digest32 → Leg → ℕ → Scalar × Scalar → P → Bytes → Bytes →
    Except String Bytes
  -- mandates, acknowledgements and allocations
  verifyMakerMandate : MakerPolicyMandate → UInt64 → Except String Unit
  makerMandateDigest : MakerPolicyMandate → Except String Digest32
  verifyTakerMandate : TakerExecutionMandate → UInt64 → Except String Unit
  takerMandateDigest : TakerExecutionMandate → Except String Digest32
  verifyAcknowledgement : PretradeAcknowledgement → Digest32 → Except String Unit
  allocationMessage : StandingPoolAllocationBinding → Except String Bytes
  standingNotePoolId : Digest32 → Digest32 → Digest32 → Digest32 → UInt8 → Except String Digest32
  delegationDigest : Digest32 → Digest32 → Digest32 → UInt64 → UInt64 → Except String Digest32
  dvpPackageDigest : Instruction P bulletproofs quorum → P → P → P → DvpProofs P → Digest32
  rangeProofDigest : ThresholdRangeProof P → Digest32
  -- optimistic quotes and attestations
  authentication : ClaimAuthentication
  quoteInputRoot : Public P → Digest32 → ℕ → ℕ → Except String Digest32
  /-- Check an encoded complete quote proof; the result is its digest. -/
  verifyBundle : Bytes → Except String Digest32
  encodeQuoteAuthorization : QuoteAuthorization P → Except String Bytes
  principalTicketId : ℕ → String → Except String Digest32
  signAdmission : NodeKeys quorum.KeyRecord → ℕ → AdmissionClaim → Except String Bytes
  signExecution : NodeKeys quorum.KeyRecord → ℕ → ExecutionClaim → Digest32 → Except String Bytes
  signMember : QuorumPolicy quorum.KeyRecord → ℕ → NodeKeys quorum.KeyRecord → Bytes → UInt64 →
    Except String Bytes
  policyDigest : QuorumPolicy quorum.KeyRecord → Except String Digest32
  policyBytes : QuorumPolicy quorum.KeyRecord → Bytes

namespace PartyLibrary

variable {P : Type} (lib : PartyLibrary P)

instance : DecidableEq lib.quorum.KeyRecord := lib.identity.keyRecordEq

instance : DecidableEq lib.identity.PeerEntry := lib.identity.entryEq

abbrev KeyRecord : Type := lib.quorum.KeyRecord

abbrev Payment : Type := Instruction P lib.bulletproofs lib.quorum

end PartyLibrary

end Zkpi.ProofPartyLibrary
