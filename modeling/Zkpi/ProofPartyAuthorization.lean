import Zkpi.ProofPartyJobs

/-!
# Authorization and one-use signing

A node signs a message only after one of its authorize methods has recomputed that
message from evidence of its own. Authorization, nonce commitment and share are three
requests: the first writes the digest of the message under the signing job the message
determines, the second burns the authorization before the commitment leaves the node,
the third burns the nonce before the share does.
-/

namespace Zkpi.ProofPartyAuthorization

open ScalarField ByteText CheckedIntegers FallibleChecks KeyedTables StatefulMethods
open StatefulMethods.Method PaymentInstruction
open ProofPartyLibrary ProofPartyState ProofPartyJobs

variable {P : Type} {lib : PartyLibrary P}

def failClosed : String := "proof-party durable state is unavailable; node is fail-closed"

/-- The process stops, as on a failed assertion. -/
def abort {A : Type} : Method (Node lib) A := fun node => (.error "", { node with down := true })

/-! ## One-use signing jobs -/

def signingJob (lib : PartyLibrary P) (message : Bytes) : Digest32 :=
  lib.sha256 (utf8 "QOMM:FROST:SIGNING-JOB:v1" ++ message)

def usedJob (party : ProofParty lib) (job : Digest32) : Bool :=
  job ∈ party.frostReserved ∨ job ∈ party.frostConsumed ∨ (party.frostNonces.lookup job).isSome

variable (env : Env)

def authorizeFrost (job : Digest32) (message : Bytes) : Method (Node lib) Unit := do
  record (.presented message)
  let party ← theParty
  failIf (job ≠ signingJob lib message ∨ usedJob party job)
    "FROST authorization names an invalid or used signing job"
  update fun party => { party with
    frostAuthorized := party.frostAuthorized.insert job (lib.sha256 message) }
  failIf ((party.frostAuthorized.lookup job).any (· ≠ lib.sha256 message))
    "FROST signing authorization was changed"
  record (.accepted job message)
  persist env []

def drawNonce : Method (Node lib) ℕ := fun node =>
  (.ok node.drawn, { node with drawn := node.drawn + 1 })

def reserveJob (job : Digest32) (state : FrostNonceState lib) (party : ProofParty lib) :
    ProofParty lib :=
  { party with
    frostNonces := party.frostNonces.insert job state
    frostAuthorized := party.frostAuthorized.erase job
    frostReserved := insert job party.frostReserved }

def frostCommit (jobId : Param Digest32) (message : Param Bytes) : Method (Node lib) Reply := do
  let party ← theParty
  let id ← lift jobId
  failIf (usedJob party id) "FROST signing job identifier was already used"
  let message ← lift message
  record (.presented message)
  failIf (party.frostAuthorized.lookup id ≠ some (lib.sha256 message) ∨
      id ≠ signingJob lib message)
    "FROST node will sign only a locally authorized proof output"
  let key ← need party.frostKey "FROST DKG is not complete"
  let serial ← drawNonce
  update (reserveJob id ⟨lib.sha256 message, (lib.frost.commit key serial).1, serial⟩)
  persist env [.reserved id serial]
  let bytes ← need (lib.frost.commitments.serialize (lib.frost.commit key serial).2)
    "FROST commitment serialization failed"
  record (.committed id serial)
  pure (.object [("party", .number party.number), ("commitments", .bytes bytes)])

structure CommitmentEntry where
  party : Param ℕ
  commitments : Param Bytes

def decodeCommitments (lib : PartyLibrary P) :
    Table ℕ lib.frost.SigningCommitments → List CommitmentEntry →
      Except String (Table ℕ lib.frost.SigningCommitments)
  | decoded, [] => .ok decoded
  | decoded, next :: rest => do
    let number ← next.party
    let raw ← next.commitments
    refuseIf (number = 0) "FROST commitment identifier is invalid"
    let commitments ← orRefuse (lib.frost.commitments.deserialize raw)
      "FROST commitment cannot be decoded"
    refuseIf (decoded.lookup number).isSome "FROST commitment party is duplicated"
    decodeCommitments lib (decoded.insert number commitments) rest

def burnJob (job : Digest32) (party : ProofParty lib) : ProofParty lib :=
  { party with
    frostNonces := party.frostNonces.erase job
    frostReserved := party.frostReserved.erase job
    frostConsumed := insert job party.frostConsumed }

def frostSign (jobId : Param Digest32) (message : Param Bytes)
    (commitments : Param (List CommitmentEntry)) : Method (Node lib) Reply := do
  let party ← theParty
  let id ← lift jobId
  let message ← lift message
  record (.presented message)
  let entries ← lift commitments
  failIf (entries.length < party.config.threshold + 1 ∨ 64 < entries.length)
    "FROST commitment quorum is outside its bound"
  let decoded ← lift (decodeCommitments lib ∅ entries)
  failIf (decoded.lookup party.number).isNone "FROST signing package omits this node"
  let state ← need (party.frostNonces.lookup id) "FROST nonce is absent or already consumed"
  update (burnJob id)
  persist env []
  failIf (state.messageDigest ≠ lib.sha256 message)
    "FROST signing message changed after nonce commitment"
  let key ← need party.frostKey "FROST DKG is not complete"
  let share ← need (lib.frost.sign decoded message state.nonces key)
    "FROST node refused its signing round"
  let committee ← need party.pqCommittee "PQ committee is absent"
  let now ← need env.now "system clock precedes Unix epoch"
  let approval ← lift (lib.signMember committee party.number party.keys message now)
  let digest ← lift (lib.policyDigest committee)
  record (.released id message state.serial)
  pure (.object [("party", .number party.number), ("share", .bytes share),
    ("pq_approval", .bytes approval), ("pq_committee", .bytes digest.toList)])

def authorized (kind : String) : Reply :=
  .object [("authorized", .flag true), ("kind", .text kind)]

def clockError : String := "system clock is before the Unix epoch"

/-! ## Health probes and publications -/

inductive HealthStage where
  | preRestart | postRestart

def HealthStage.toByte : HealthStage → UInt8
  | .preRestart => 1
  | .postRestart => 2

def authorizeHealth (signingJobId : Param Digest32) (message : Param Bytes)
    (cluster : Param Digest32) (stage : Param HealthStage) : Method (Node lib) Reply := do
  let party ← theParty
  failIf (¬ party.config.allowHealthSigning) "health signing is disabled on this proof node"
  let job ← lift signingJobId
  let message ← lift message
  let cluster ← lift cluster
  let stage ← lift stage
  let session ← need party.frostSession "FROST DKG is not complete"
  failIf (message ≠ (lib.sha256 (utf8 "QOMM:FROST:HEALTH:v1" ++ session.toList ++
      [stage.toByte] ++ cluster.toList)).toList)
    "health signing message is not domain-separated"
  authorizeFrost env job message
  pure (authorized "health")

def nodeId (party : ProofParty lib) : String := "node-" ++ Nat.repr party.config.node

def signPublication (statement : Param PublicationStatement) (mechanism : Param Unit)
    (evidence : Param Unit) : Method (Node lib) Reply := do
  let party ← theParty
  let statement ← lift statement
  lift mechanism
  failIf (statement.operationId ∈ party.publicationConsumed)
    "publication operation was already signed by this node"
  lift evidence
  let body ← lift statement.body
  let signature ← lift (lib.identity.publicationSign party.keys body)
  update fun party => { party with
    publicationConsumed := insert statement.operationId party.publicationConsumed }
  persist env []
  pure (.object [("node_id", .text (nodeId party)),
    ("publication_public", .bytes (lib.identity.publicationPublic party.keys)),
    ("signature", .bytes signature), ("operation_id", .bytes statement.operationId.toList)])

def signAdmissionAttestation (claim : Param AdmissionClaim) : Method (Node lib) Reply := do
  let party ← theParty
  let claim ← lift claim
  failIf (¬ party.stateHealthy) failClosed
  failIf (2 ^ 32 ≤ claim.slot.toNat) "admission slot is outside the resident-node range"
  let ticket ← lift (lib.principalTicketId claim.slot.toNat claim.principal)
  failIf (ticket ≠ claim.ticketId)
    "admission ticket does not match the authenticated principal and slot"
  let signature ← lift (lib.signAdmission party.keys party.config.node claim)
  pure (.object [("node", .number party.config.node),
    ("identity_public", .bytes (lib.identity.applicationPublic party.keys).toList),
    ("signature", .bytes signature)])

/-! ## In-process application authorizations -/

structure CompletedApplicationProof (lib : PartyLibrary P) where
  jobId : Digest32
  paymentDigest : Digest64
  quoteDigest : Digest32
  makerHandle : Bytes
  takerHandle : Bytes
  makerIsPayer : Bool
  securitiesReserve : Bytes
  cashReserve : Bytes
  openingShares : Table Leg Bytes
  committeePublic : lib.quorum.PublicKeyPackage

structure ApplicationStatementAuthorization where
  message : Digest32
  actionDigest : Digest32

structure ApplicationControlAuthorization where
  controlId : Digest32
  message : Digest32
  actionDigest : Digest32

def applicationProof (id : Digest32) (proof : CompletedProof)
    (committeePublic : lib.quorum.PublicKeyPackage) :
    Except String (CompletedApplicationProof lib) := do
  let missing := "application signing lacks locally bound payment endpoints or reserves"
  let makerHandle ← orRefuse proof.makerHandle missing
  let takerHandle ← orRefuse proof.takerHandle missing
  let makerIsPayer ← orRefuse proof.makerIsPayer missing
  let securitiesReserve ← orRefuse proof.securitiesReserve missing
  let cashReserve ← orRefuse proof.cashReserve missing
  .ok ⟨id, proof.paymentDigest, proof.quoteDigest, makerHandle, takerHandle, makerIsPayer,
    securitiesReserve, cashReserve, proof.openingShares, committeePublic⟩

def keepEvidence (id : Digest32) (proof : CompletedProof) (party : ProofParty lib) :
    ProofParty lib :=
  { party with completedEvidence := party.completedEvidence.insert id proof }

def authorizeApplicationStatement (id : Digest32)
    (verifier : CompletedApplicationProof lib → Except String ApplicationStatementAuthorization) :
    Method (Node lib) Digest32 := do
  let party ← theParty
  failIf (¬ party.stateHealthy ∨ id ∉ party.completed)
    "application signing requires a healthy completed local proof"
  let proof ← need (party.completedEvidence.lookup id)
    "application signing lacks local completed evidence"
  failIf (size proof.openingShares ≠ 4 ∨ party.frostKey.isNone)
    "application signing requires the node's four encrypted openings and key"
  let committeePublic ← need party.frostPublic "application signing committee is not initialized"
  let evidence ← lift (applicationProof id proof committeePublic)
  let allowed ← lift (verifier evidence)
  failIf (allowed.message = zeroDigest ∨ allowed.actionDigest = zeroDigest ∨
      proof.applicationActionDigest.any (· ≠ allowed.actionDigest))
    "application proof cannot authorize an empty or different action"
  failIf (usedJob party (signingJob lib allowed.message.toList))
    "application signing job is already reserved or consumed"
  update (keepEvidence id { proof with applicationActionDigest := some allowed.actionDigest })
  authorizeFrost env (signingJob lib allowed.message.toList) allowed.message.toList
  pure allowed.message

def authorizeApplicationControl
    (verifier : lib.quorum.PublicKeyPackage → Except String ApplicationControlAuthorization) :
    Method (Node lib) Digest32 := do
  let party ← theParty
  failIf (¬ party.stateHealthy ∨ party.frostKey.isNone)
    "control signing requires a healthy initialized committee"
  let committeePublic ← need party.frostPublic "control signing committee is not initialized"
  let allowed ← lift (verifier committeePublic)
  failIf (allowed.controlId = zeroDigest ∨ allowed.message = zeroDigest ∨
      allowed.actionDigest = zeroDigest ∨
      (party.applicationControls.lookup allowed.controlId).any (· ≠ allowed.actionDigest) ∨
      ((party.applicationControls.lookup allowed.controlId).isNone ∧
        maxCompletedEvidence ≤ size party.applicationControls))
    "control signing cannot authorize an empty, different or unbounded action"
  failIf (usedJob party (signingJob lib allowed.message.toList))
    "control signing job is already reserved or consumed"
  update fun party => { party with
    applicationControls :=
      party.applicationControls.insert allowed.controlId allowed.actionDigest }
  authorizeFrost env (signingJob lib allowed.message.toList) allowed.message.toList
  pure allowed.message

/-! ## Reserves -/

variable (lib) in
def verifyPayment (mandate : ReserveMandate) (amountCommitment payerHandle : P)
    (deadline now : UInt64) : Except String Unit :=
  match mandate with
  | .maker mandate => do
    lib.verifyMakerMandate mandate now
    refuseIf (mandate.maximumAmountCommitment ≠ lib.primitives.compress amountCommitment ∨
        mandate.makerHandle ≠ lib.primitives.compress payerHandle ∨
        deadline > mandate.validUntil)
      "reserve payment differs from the signed Maker mandate"
  | .taker mandate => do
    lib.verifyTakerMandate mandate now
    refuseIf (mandate.maximumAmountCommitment ≠ lib.primitives.compress amountCommitment ∨
        mandate.takerHandle ≠ lib.primitives.compress payerHandle ∨
        deadline > mandate.deadline)
      "reserve payment differs from the signed Taker mandate"

def verifyContext (mandate : ReserveMandate) (payment : lib.Payment)
    (context : TypedSettlement.ExecutionContext P) (now : UInt64) : Except String Unit := do
  verifyPayment lib mandate payment.amountCommitment payment.payerHandle
    payment.deadline now
  match mandate with
  | .maker mandate => do
    let refusal := "typed reserve differs from the signed Maker mandate"
    refuseIf (context.scope ≠ .maker ∨ context.direction ≠ mandate.direction ∨
      context.venueId ≠ mandate.venueId ∨ context.defmiId ≠ mandate.defmiId ∨
      lib.primitives.compress context.makerHandle ≠ mandate.makerHandle ∨
      context.makerReservationId ≠ mandate.reserveId ∨
      context.makerPolicyDigest ≠ mandate.policyDigest) refusal
    let digest ← lib.makerMandateDigest mandate
    refuseIf (context.makerMandateDigest ≠ digest ∨ context.rfqNullifier ≠ zeroDigest) refusal
  | .taker mandate => do
    let refusal := "typed reserve differs from the signed Taker mandate"
    refuseIf (context.scope ≠ .taker ∨ context.direction ≠ mandate.direction ∨
      context.venueId ≠ mandate.venueId ∨ context.defmiId ≠ mandate.defmiId ∨
      lib.primitives.compress context.takerHandle ≠ mandate.takerHandle ∨
      context.takerReservationId ≠ mandate.reserveId) refusal
    let digest ← lib.takerMandateDigest mandate
    refuseIf (context.takerMandateDigest ≠ digest ∨
      context.rfqNullifier ≠ mandate.rfqNullifier) refusal

structure ReservePaymentRequest (P : Type) where
  signingJobId : Param Digest32
  message : Param Bytes
  mandate : Param ReserveMandate
  amountCommitment : Param P
  priceCommitment : Param P
  assetCommitment : Param P
  payerHandle : Param P
  payeeHandle : Param P
  deadline : Param UInt64
  nonce : Param Digest32
  quoteBinding : Param QuoteBinding

def authorizeReservePayment [DecidableEq P] (env : Env) (request : ReservePaymentRequest P) :
    Method (Node lib) Reply := do
  let job ← lift request.signingJobId
  let message ← lift request.message
  failIf (message.length ≠ 64) "reserve payment message must be one SHA-512 digest"
  let mandate ← lift request.mandate
  let amountCommitment ← lift request.amountCommitment
  let priceCommitment ← lift request.priceCommitment
  let assetCommitment ← lift request.assetCommitment
  let payerHandle ← lift request.payerHandle
  let payeeHandle ← lift request.payeeHandle
  failIf (payerHandle = payeeHandle) "reserve payment cannot pay its owner handle"
  let deadline ← lift request.deadline
  let nonce ← lift request.nonce
  let quoteBinding ← lift request.quoteBinding
  let now ← need env.now clockError
  failIf (deadline < now ∨ deadline > saturatingAdd now 86400)
    "reserve deadline is outside the signer horizon"
  lift (verifyPayment lib mandate amountCommitment payerHandle deadline now)
  failIf (message ≠ (digestPublicFieldsFor lib.primitives lib.sha512 defaultDomain
      amountCommitment priceCommitment assetCommitment payerHandle payeeHandle deadline nonce
      quoteBinding).toList)
    "reserve payment signing request changed a signed field"
  authorizeFrost env job message
  pure (authorized "pretrade-reserve-payment")

structure ReserveTypedRequest (lib : PartyLibrary P) where
  signingJobId : Param Digest32
  message : Param Bytes
  mandate : Param ReserveMandate
  payment : Param lib.Payment
  context : Param (TypedSettlement.ExecutionContext P)

def authorizeReserveTyped [DecidableEq P] (env : Env) (request : ReserveTypedRequest lib) :
    Method (Node lib) Reply := do
  let party ← theParty
  let job ← lift request.signingJobId
  let message ← lift request.message
  failIf (message.length ≠ 64) "typed reserve message must be one SHA-512 digest"
  let mandate ← lift request.mandate
  let payment ← lift request.payment
  let committeePublic ← need party.frostPublic "FROST key generation is incomplete"
  failIf (¬ lib.quorum.verify committeePublic
      (payment.digestFor lib.primitives lib.sha512 defaultDomain).toList payment.signature)
    "reserve payment lacks this committee's signature"
  let context ← lift request.context
  failIf (context.operation ≠ .reserve) "reserve signer received a non-reserve operation"
  let now ← need env.now clockError
  lift (verifyContext mandate payment context now)
  let expected ← lift
    (TypedSettlement.digestFor lib.primitives lib.sha512 payment context defaultDomain)
  failIf (message ≠ expected.toList) "typed reserve signing request changed its context"
  authorizeFrost env job message
  pure (authorized "pretrade-reserve-context")

end Zkpi.ProofPartyAuthorization
