import Zkpi.ProofPartyAuthorization

/-!
# Certifying one trade

The methods that tie a proof job to one trade: the quote it accepts optimistically, the
payment it certifies, the standing-pool allocation that funds the payment, and the typed
settlement of a completed job. Each recomputes its message from the evidence this node
holds for the job.
-/

namespace Zkpi.ProofPartyTrades

open ScalarField ByteText CheckedIntegers FallibleChecks StatefulMethods
open StatefulMethods.Method PedersenSigma AggregatedRanges ThresholdRange PaymentInstruction
open SettlementVenue ProofPartyLibrary ProofPartyState
open ProofPartyJobs ProofPartyAuthorization
open OptimisticMachine (OptimisticPolicy Proposal)

variable {P : Type} {lib : PartyLibrary P}

/-! ## Optimistic quotes -/

def admissionDigest (lib : PartyLibrary P) (admission : NodeExecutionAdmission) : Digest32 :=
  OptimisticMachine.digest lib.sha256 "zkFMI:optimistic:node-admission:v1"
    (.array [admission.policy.toJson,
      .object [("policy", .digest admission.execution.policy),
        ("context", admission.execution.context.toJson),
        ("valid_until", .number admission.execution.validUntil.toNat)],
      .digest admission.acceptedState, .number admission.acceptedHeight.toNat])

def verifyAdmission (lib : PartyLibrary P) (admission : NodeExecutionAdmission)
    (trusted : Digest32) (now : UInt64) : Except String Unit := do
  let context := admission.execution.context
  let policyDigest ← admission.policy.digest lib.sha256
  refuseIf (admission.execution.policy ≠ policyDigest ∨ admission.acceptedState = zeroDigest ∨
      admission.acceptedHeight = 0 ∨ admission.execution.validUntil < now ∨
      context.network ≠ admission.policy.network ∨
      context.application ≠ admission.policy.application ∨
      context.verifier ≠ admission.policy.verifier)
    "optimistic node admission is invalid or expired"
  lib.authentication.verify trusted (admissionDigest lib admission).toList admission.signature

def quoteOutputRoot (lib : PartyLibrary P) (winnerIndex : ℕ) (winnerValue : UInt64) : Digest32 :=
  lib.sha256 (utf8 "zkFMI:optimistic:quote-output:v1" ++ beBytes 8 winnerIndex ++
    beBytes 8 winnerValue.toNat)

def verifyQuote (lib : PartyLibrary P) : QuoteAuthorization P → Except String Digest32
  | .jointProof bundle => lib.verifyBundle bundle
  | .optimistic quote => do
    let refusal := "optimistic quote does not match its signed complete input and output"
    refuseIf (quote.statement.registry = [] ∨ 24 < quote.statement.registry.length ∨
      quote.statement.registry.length ≤ quote.winnerIndex ∨
      quote.proposal.context.verifier ≠
        lib.sha256 (utf8 "zkFMI:optimistic:complete-quote-verifier:v1")) refusal
    let inputRoot ← lib.quoteInputRoot quote.statement quote.context quote.eligibilityBits
      quote.spanBits
    refuseIf (quote.proposal.context.inputRoot ≠ inputRoot ∨
      quote.proposal.outputRoot ≠ quoteOutputRoot lib quote.winnerIndex quote.winnerValue) refusal
    quote.proposal.verify lib.sha256 quote.policy 0 lib.authentication
    .ok (quote.proposal.id lib.sha256)

def proposalKey (lib : PartyLibrary P) (context : OptimisticMachine.ExecutionContext) :
    Digest32 :=
  lib.sha256 (utf8 "zkFMI:optimistic:node-job:v1" ++ context.network.toList ++
    context.application.toList ++ context.job.toList)

def signedProposal (keys : NodeKeys lib.KeyRecord) (policy : OptimisticPolicy)
    (context : OptimisticMachine.ExecutionContext) (outputRoot : Digest32) (validUntil : UInt64) :
    Except String Proposal := do
  refuseIf (lib.identity.applicationPublic keys ≠ policy.proposer)
    "optimistic proposer is not enrolled by the policy"
  let policyDigest ← policy.digest lib.sha256
  let proposal : Proposal := ⟨policyDigest, context, outputRoot, validUntil, []⟩
  let signature ← lib.identity.applicationSign keys (proposal.signingDigest lib.sha256).toList
  .ok { proposal with signature := signature }

variable (env : Env)

def signOptimisticExecution (policy : OptimisticPolicy)
    (context : OptimisticMachine.ExecutionContext) (outputRoot : Digest32) (validUntil : UInt64) :
    Method (Node lib) Proposal := do
  let party ← theParty
  failIf (¬ party.stateHealthy) failClosed
  match party.optimisticProposals.lookup (proposalKey lib context) with
  | some existing => do
    let policyDigest ← lift (policy.digest lib.sha256)
    failIf (existing.policy ≠ policyDigest ∨ existing.context ≠ context ∨
        existing.outputRoot ≠ outputRoot ∨ existing.validUntil ≠ validUntil)
      "node already signed another optimistic claim for this execution"
    pure existing
  | none => do
    let proposal ← lift (signedProposal party.keys policy context outputRoot validUntil)
    update fun party => { party with
      optimisticProposals := party.optimisticProposals.insert (proposalKey lib context) proposal }
    persist env []
    pure proposal

def signAdmittedOptimisticExecution (admission : NodeExecutionAdmission) (outputRoot : Digest32) :
    Method (Node lib) Proposal := do
  let party ← theParty
  let now ← need env.now "second time provided was later than self"
  let trusted ← need party.config.trustedDefmiReceiptPublic
    "node has no pinned DeFMI receipt authority"
  lift (verifyAdmission lib admission trusted now)
  signOptimisticExecution env admission.policy admission.execution.context outputRoot
    admission.execution.validUntil

def digestOfBytes (bytes : Bytes) : Option Digest32 :=
  if h : bytes.length = 32 then some ⟨bytes, h⟩ else none

def admittedOptimisticQuote (party : ProofParty lib) (jobId : Param Digest32)
    (admission : Param NodeExecutionAdmission) :
    Except String (NodeExecutionAdmission × OptimisticQuote P) := do
  let id ← jobId
  let admission ← admission
  let now ← orRefuse env.now "second time provided was later than self"
  let trusted ← orRefuse party.config.trustedDefmiReceiptPublic
    "node has no pinned DeFMI receipt authority"
  verifyAdmission lib admission trusted now
  let job ← orRefuse (party.jobs.lookup id) "optimistic quote job is not loaded"
  refuseIf (job.quoteRelations.isNone ∨ admission.execution.context.job ≠ id)
    "optimistic quote has not bound the complete MPC statement"
  let quotePublic ← orRefuse job.quotePublic "optimistic quote public input is absent"
  let statement ← orRefuse job.quoteStatement "optimistic quote statement is absent"
  let bytes ← orRefuse job.quoteContext "quote context is absent"
  let context ← orRefuse (digestOfBytes bytes) "quote context is not 32 bytes"
  let inputRoot ← lib.quoteInputRoot quotePublic context (witnessBits party.config)
    party.config.quoteSpanBits
  refuseIf (inputRoot ≠ admission.execution.context.inputRoot)
    "optimistic admission does not name this node's bound MPC input"
  let proposal : Proposal := ⟨admission.execution.policy, admission.execution.context,
    quoteOutputRoot lib (lib.winnerIndex statement) (lib.winnerValue statement),
    admission.execution.validUntil, []⟩
  .ok (admission, ⟨context, witnessBits party.config, party.config.quoteSpanBits, quotePublic,
    lib.winnerIndex statement, lib.winnerValue statement, admission.policy, proposal⟩)

def optimisticQuotePropose (jobId : Param Digest32) (admission : Param NodeExecutionAdmission) :
    Method (Node lib) Reply := do
  let party ← theParty
  let (admission, quote) ← lift (admittedOptimisticQuote env party jobId admission)
  let proposal ← signOptimisticExecution env admission.policy admission.execution.context
    quote.proposal.outputRoot admission.execution.validUntil
  let raw ← lift (lib.encodeQuoteAuthorization (.optimistic { quote with proposal := proposal }))
  pure (.wire raw)

def matchesAdmission (quote : QuoteAuthorization P) (admission : NodeExecutionAdmission)
    (expected : OptimisticQuote P) : Bool :=
  match quote with
  | .jointProof _ => false
  | .optimistic quote => quote.policy = admission.policy ∧
      quote.proposal.context = admission.execution.context ∧
      quote.proposal.outputRoot = expected.proposal.outputRoot

def optimisticQuoteAccept (jobId : Param Digest32) (admission : Param NodeExecutionAdmission)
    (quote : Param (QuoteAuthorization P)) :
    Method (Node lib) Reply := do
  let party ← theParty
  let id ← lift jobId
  let (admission, expected) ← lift (admittedOptimisticQuote env party (.ok id) admission)
  let quote ← lift quote
  let digest ← lift (verifyQuote lib quote)
  failIf (¬ matchesAdmission quote admission expected)
    "optimistic quote differs from this node's admitted MPC statement"
  onJob id do
    let job ← read
    failIf (job.quoteVerified ∨ job.optimisticQuote.any (· ≠ digest))
      "quote job already has another assurance result"
    modify fun job => { job with expectedQuoteDigest := digest, optimisticQuote := some digest }
    pure (.object [("quote_digest", .bytes digest.toList), ("assurance", .text "optimistic")])

/-! ## The payment of a job -/

variable [AddCommGroup P] [Module Scalar P] [DecidableEq P]

/-- A payment to certify for a job. -/
structure ZkpiRequest (P : Type) where
  jobId : Param Digest32
  signingJobId : Param Digest32
  message : Param Bytes
  amountRange : Param (ThresholdRangeProof P)
  priceRange : Param (ThresholdRangeProof P)
  assetCommitment : Param P
  payerHandle : Param P
  payeeHandle : Param P
  deadline : Param UInt64
  nonce : Param Digest32
  quoteDigest : Param Digest32

def bounds (config : ProofPartyConfig) : Bounds := ⟨config.amountBits, config.priceBits, 3600⟩

structure CheckedPayment (P : Type) where
  terms : PaymentTerms P
  takerHandle : P
  makerIsPayer : Bool

/-- The payment a job certifies: its hidden amount and price are the job's own, its quote is
the one the job stands behind, and the winning Maker is exactly one of its endpoints. -/
def checkedPayment (env : Env) (party : ProofParty lib) (job : ProofJob lib) (message : Bytes)
    (amountRange priceRange : ThresholdRangeProof P) (assetCommitment payerHandle payeeHandle : P)
    (deadline : UInt64) (nonce quoteDigest : Digest32) : Except String (CheckedPayment P) := do
  let statements ← orRefuse job.zkpiStatements "zkPI proof statement is not ready"
  let selected ← orRefuse job.selectedMakerHandle
    "winning Maker handle is not bound to the zkPI job"
  refuseIf (¬ job.quoteVerified ∧ job.optimisticQuote.isNone)
    "zkPI cannot be authorized before the complete quote proof"
  refuseIf (quoteDigest ≠ job.expectedQuoteDigest)
    "zkPI quote digest differs from the loaded MPC job"
  let now ← orRefuse env.now clockError
  refuseIf (deadline < now ∨ deadline > saturatingAdd now 3600)
    "zkPI deadline is outside the proof-node horizon"
  let makerIsPayer : Bool :=
    lib.primitives.compress payerHandle = lib.primitives.compress selected
  let makerIsPayee : Bool :=
    lib.primitives.compress payeeHandle = lib.primitives.compress selected
  refuseIf (makerIsPayer = makerIsPayee)
    "zkPI must bind the MPC-selected Maker to exactly one payment endpoint"
  let terms : PaymentTerms P := ⟨lib.zkpiAmount statements, lib.zkpiPrice statements,
    assetCommitment, payerHandle, payeeHandle, deadline, nonce, .proofDigest quoteDigest⟩
  let (partialInstruction : PartialInstruction P lib.bulletproofs) ←
    PartialInstruction.fromThresholdRanges lib.primitives lib.key (bounds party.config) terms
      amountRange priceRange
  refuseIf (message ≠
      (partialInstruction.terms.digestFor lib.primitives lib.sha512 defaultDomain).toList)
    "FROST request is not the verified MPC-derived zkPI"
  .ok ⟨terms, if makerIsPayer then payeeHandle else payerHandle, makerIsPayer⟩

def bindPayment (payment : CheckedPayment P) : Method (ProofJob lib) Unit := do
  let job ← read
  let digest := payment.terms.digestFor lib.primitives lib.sha512 defaultDomain
  failIf (job.authorizedPaymentDigest.any (· ≠ digest))
    "proof job was rebound to another payment instruction"
  modify fun job => { job with authorizedPaymentDigest := some digest }
  match job.authorizedTakerHandle, job.makerIsPayer with
  | some priorHandle, some priorSide =>
    failIf (lib.primitives.compress priorHandle ≠ lib.primitives.compress payment.takerHandle ∨
        priorSide ≠ payment.makerIsPayer)
      "proof job was rebound to another Maker/Taker payment side"
  | none, none =>
    modify fun job => { job with
      authorizedTakerHandle := some payment.takerHandle
      makerIsPayer := some payment.makerIsPayer }
  | _, _ => fail "proof job has incomplete payment-side evidence"

def authorizeZkpi (env : Env) (request : ZkpiRequest P) : Method (Node lib) Reply := do
  let party ← theParty
  let id ← lift request.jobId
  let signingJobId ← lift request.signingJobId
  let message ← lift request.message
  failIf (message.length ≠ 64) "zkPI signing message must be one SHA-512 digest"
  let amountRange ← lift request.amountRange
  let priceRange ← lift request.priceRange
  let assetCommitment ← lift request.assetCommitment
  let payerHandle ← lift request.payerHandle
  let payeeHandle ← lift request.payeeHandle
  let deadline ← lift request.deadline
  let nonce ← lift request.nonce
  let quoteDigest ← lift request.quoteDigest
  let job ← need (party.jobs.lookup id) "zkPI authorization proof job is not active"
  let payment ← lift (checkedPayment env party job message amountRange priceRange
    assetCommitment payerHandle payeeHandle deadline nonce quoteDigest)
  record (.bound id payment.terms)
  onJob id (bindPayment payment)
  authorizeFrost env signingJobId message
  record (.paymentAuthorized id payment.terms)
  pure (authorized "mpc-zkpi")

/-! ## The standing-pool allocation of a job -/

structure AllocationRequest (lib : PartyLibrary P) where
  jobId : Param Digest32
  signingJobId : Param Digest32
  message : Param Bytes
  binding : Param StandingPoolAllocationBinding
  mandate : Param ReserveMandate
  payment : Param lib.Payment
  dvpProofs : Param (DvpProofs P)
  poolRemainderRange : Param (ThresholdRangeProof P)

variable (lib) in
def checkMandate (binding : StandingPoolAllocationBinding) (maker : MakerPolicyMandate) :
    Except String Unit := do
  let refusal := "standing pool allocation differs from the signed Maker mandate"
  let mandateDigest ← lib.makerMandateDigest maker
  refuseIf (binding.authorization.entityCommitment ≠ maker.entityCommitment ∨
    binding.authorization.assetId ≠ maker.assetId ∨
    binding.authorization.direction ≠ maker.direction.toByte ∨
    binding.authorization.policyDigest ≠ maker.policyDigest ∨
    binding.authorization.mandateDigest ≠ mandateDigest ∨
    binding.authorization.policyVersion ≠ maker.policyVersion) refusal
  let poolId ← lib.standingNotePoolId maker.entityCommitment maker.policyDigest mandateDigest
    maker.assetId maker.direction.toByte
  refuseIf (binding.poolId ≠ poolId) refusal
  let delegation ← lib.delegationDigest binding.poolId maker.venueId maker.defmiId
    binding.committeeEpoch maker.validUntil
  refuseIf (binding.delegationDigest ≠ delegation ∨ (binding.expectedPoolSequence = 0 ∧
    binding.previousAmountCommitment ≠ maker.maximumAmountCommitment)) refusal

def checkCommittee (party : ProofParty lib) (payment : lib.Payment) (now : UInt64) :
    Except String Unit := do
  let digest := (payment.digestFor lib.primitives lib.sha512 defaultDomain).toList
  let committeePublic ← orRefuse party.frostPublic "FROST key generation is incomplete"
  refuseIf (¬ lib.quorum.verify committeePublic digest payment.signature)
    "standing pool payment lacks this committee's signature"
  let committee ← orRefuse party.pqCommittee "proof node lacks its PQ committee"
  let approval ← orRefuse payment.pqApproval "standing pool payment lacks PQ approval"
  refuseIf (¬ lib.quorum.verifyApproval committee approval digest now)
    "standing pool payment PQ approval is invalid"

structure AllocationFacts (P : Type) where
  winningPolicyDigest : Digest32
  selectedMakerHandle : P
  authorizedPaymentDigest : Digest64
  makerIsPayer : Bool
  quantityCommitment : P
  cashCommitment : P
  securitiesRemainder : P
  cashRemainder : P
  securitiesReserve : P
  cashReserve : P
  poolRemainderCommitment : P

def allocationFacts (job : ProofJob lib) : Except String (AllocationFacts P) := do
  refuseIf ((¬ job.quoteVerified ∧ job.optimisticQuote.isNone) ∨ ¬ job.dvpResponseIssued ∨
      ¬ job.poolRemainderResponseIssued)
    "standing pool cannot be allocated before quote, DvP, and pool-remainder proofs"
  let winningPolicyDigest ← orRefuse job.winningPolicyDigest
    "standing pool proof has no winning policy"
  let selectedMakerHandle ← orRefuse job.selectedMakerHandle
    "standing pool proof has no winning Maker"
  let authorizedPaymentDigest ← orRefuse job.authorizedPaymentDigest
    "standing pool proof has no authorized zkPI"
  let makerIsPayer ← orRefuse job.makerIsPayer "standing pool proof has no Maker payment side"
  let quantityCommitment ← orRefuse job.quantityCommitment
    "standing pool proof has no quantity commitment"
  let cashCommitment ← orRefuse job.cashCommitment "standing pool proof has no cash commitment"
  let securitiesRemainder ← orRefuse job.securitiesRemainder
    "standing pool proof has no securities remainder"
  let cashRemainder ← orRefuse job.cashRemainder "standing pool proof has no cash remainder"
  let securitiesReserve ← orRefuse job.securitiesReserve
    "standing pool proof has no securities reserve"
  let cashReserve ← orRefuse job.cashReserve "standing pool proof has no cash reserve"
  let poolRemainderCommitment ← orRefuse job.poolRemainderCommitment
    "standing pool proof has no parent-pool remainder commitment"
  .ok ⟨winningPolicyDigest, selectedMakerHandle, authorizedPaymentDigest, makerIsPayer,
    quantityCommitment, cashCommitment, securitiesRemainder, cashRemainder, securitiesReserve,
    cashReserve, poolRemainderCommitment⟩

def dvpProductContext : Bytes := utf8 "qomm:defmi:threshold-dvp:value:v1"

def dvpSecuritiesRemainderContext : Bytes :=
  utf8 "qomm:defmi:threshold-dvp:securities-remainder:v1"

def dvpCashRemainderContext : Bytes := utf8 "qomm:defmi:threshold-dvp:cash-remainder:v1"

def checkAllocation (job : ProofJob lib) (facts : AllocationFacts P)
    (binding : StandingPoolAllocationBinding) (maker : MakerPolicyMandate) (payment : lib.Payment)
    (dvpProofs : DvpProofs P) (poolRemainderRange : ThresholdRangeProof P) :
    Except String Unit := do
  let compress := lib.primitives.compress
  let makerHandle ← orRefuse (lib.decompress maker.makerHandle)
    "Maker mandate handle is not canonical"
  refuseIf (maker.policyDigest ≠ facts.winningPolicyDigest ∨
      compress makerHandle ≠ compress facts.selectedMakerHandle ∨
      binding.authorization.direction ≠ (if facts.makerIsPayer then 2 else 1) ∨
      payment.digestFor lib.primitives lib.sha512 defaultDomain ≠ facts.authorizedPaymentDigest ∨
      payment.quoteProofDigest ≠ some job.expectedQuoteDigest ∨
      binding.quoteProofDigest ≠ job.expectedQuoteDigest ∨
      compress payment.amountCommitment ≠ compress facts.quantityCommitment ∨
      (facts.makerIsPayer ∧
        compress payment.payerHandle ≠ compress facts.selectedMakerHandle) ∨
      (¬ facts.makerIsPayer ∧
        compress payment.payeeHandle ≠ compress facts.selectedMakerHandle))
    "standing pool allocation differs from the MPC-selected Maker quote"
  refuseIf (¬ verifyProduct lib.primitives lib.key (Transcript.new dvpProductContext)
        facts.quantityCommitment payment.priceCommitment facts.cashCommitment dvpProofs.product ∨
      ¬ verifyThresholdRange lib.primitives lib.key facts.securitiesRemainder
        dvpProofs.securitiesRemainder dvpSecuritiesRemainderContext ∨
      ¬ verifyThresholdRange lib.primitives lib.key facts.cashRemainder
        dvpProofs.cashRemainder dvpCashRemainderContext)
    "standing pool received an invalid public DvP proof"
  refuseIf (binding.dvpProofDigest ≠ lib.dvpPackageDigest payment facts.cashCommitment
      facts.securitiesRemainder facts.cashRemainder dvpProofs)
    "standing pool names another DvP proof package"
  let poolRemainder ← orRefuse (lib.decompress binding.remainderValueCommitment)
    "standing pool remainder is not canonical"
  refuseIf (binding.escrowValueCommitment ≠
        compress (if facts.makerIsPayer then facts.cashReserve else facts.securitiesReserve) ∨
      compress poolRemainder ≠ compress facts.poolRemainderCommitment ∨
      binding.remainderRangeProofDigest ≠ lib.rangeProofDigest poolRemainderRange ∨
      ¬ verifyThresholdRange lib.primitives lib.key poolRemainder poolRemainderRange
        standingPoolRemainderContext)
    "standing pool split differs from the proved Maker reserve or remainder"

def authorizeStandingPoolAllocation (env : Env) (request : AllocationRequest lib) :
    Method (Node lib) Reply := do
  let party ← theParty
  let id ← lift request.jobId
  let signingJobId ← lift request.signingJobId
  let message ← lift request.message
  failIf (message.length ≠ 64) "standing pool signing message must be one SHA-512 digest"
  let binding ← lift request.binding
  failIf (binding.proofJobId ≠ id) "standing pool signing request changed its canonical allocation"
  let expected ← lift (lib.allocationMessage binding)
  failIf (expected ≠ message) "standing pool signing request changed its canonical allocation"
  let mandate ← lift request.mandate
  match mandate with
  | .taker _ => fail "a Taker mandate cannot allocate a Maker standing pool"
  | .maker maker => do
    let payment ← lift request.payment
    let dvpProofs ← lift request.dvpProofs
    let poolRemainderRange ← lift request.poolRemainderRange
    let now ← need env.now clockError
    lift (lib.verifyMakerMandate maker now)
    lift (checkMandate lib binding maker)
    lift (checkCommittee party payment now)
    let job ← need (party.jobs.lookup id) "standing pool authorization proof job is not active"
    let facts ← lift (allocationFacts job)
    lift (checkAllocation job facts binding maker payment dvpProofs poolRemainderRange)
    authorizeFrost env signingJobId message
    pure (authorized "standing-pool-allocation")

/-! ## The typed settlement of a completed job -/

structure TypedRequest (lib : PartyLibrary P) where
  jobId : Param Digest32
  signingJobId : Param Digest32
  message : Param Bytes
  payment : Param lib.Payment
  context : Param (TypedSettlement.ExecutionContext P)
  acknowledgement : Param PretradeAcknowledgement

structure SettlementRoles where
  makerHandle : Bytes
  takerHandle : Bytes
  makerIsPayer : Bool
  winningPolicyDigest : Digest32

def settlementRoles (completed : CompletedProof) (payment : lib.Payment)
    (context : TypedSettlement.ExecutionContext P) : Except String SettlementRoles := do
  refuseIf (payment.digestFor lib.primitives lib.sha512 defaultDomain ≠ completed.paymentDigest ∨
      context.quoteProofDigest ≠ completed.quoteDigest)
    "typed authorization differs from the completed MPC quote"
  let makerHandle ← orRefuse completed.makerHandle
    "completed proof predates winning-Maker settlement binding"
  let takerHandle ← orRefuse completed.takerHandle
    "completed proof predates Taker settlement binding"
  let makerIsPayer ← orRefuse completed.makerIsPayer
    "completed proof predates payment-side settlement binding"
  let winningPolicyDigest ← orRefuse completed.winningPolicyDigest
    "completed proof predates winning-policy settlement binding"
  refuseIf (lib.primitives.compress context.makerHandle ≠ makerHandle ∨
      lib.primitives.compress context.takerHandle ≠ takerHandle ∨
      context.direction ≠ (if makerIsPayer then .takerSells else .takerBuys))
    "typed settlement does not use the MPC-selected Maker/Taker roles"
  .ok ⟨makerHandle, takerHandle, makerIsPayer, winningPolicyDigest⟩

def checkReserves (party : ProofParty lib) (completed : CompletedProof) (roles : SettlementRoles)
    (context : TypedSettlement.ExecutionContext P)
    (acknowledgement : Param PretradeAcknowledgement) : Except String Unit := do
  let trusted ← orRefuse party.config.trustedDefmiReceiptPublic
    "proof node has no pinned DeFMI reservation receipt key"
  refuseIf (¬ lib.receiptKeyValid trusted) "pinned DeFMI reservation receipt key is malformed"
  let acknowledgement ← acknowledgement
  lib.verifyAcknowledgement acknowledgement trusted
  refuseIf (acknowledgement.defmiId ≠ context.defmiId ∨
      acknowledgement.afterStateRoot ≠ context.beforeStateRoot)
    "typed settlement is not based on the acknowledged DeFMI state"
  let maker ← orRefuse (acknowledgement.bindingFor .maker roles.makerHandle context.direction)
    "pre-trade acknowledgement lacks the selected reservation"
  let taker ← orRefuse (acknowledgement.bindingFor .taker roles.takerHandle context.direction)
    "pre-trade acknowledgement lacks the selected reservation"
  let securitiesReserve ← orRefuse completed.securitiesReserve
    "completed proof predates securities-reserve binding"
  let cashReserve ← orRefuse completed.cashReserve
    "completed proof predates cash-reserve binding"
  refuseIf (maker.reserveId ≠ context.makerReservationId ∨
      maker.mandateDigest ≠ context.makerMandateDigest ∨
      maker.policyDigest ≠ context.makerPolicyDigest ∨
      maker.policyDigest ≠ roles.winningPolicyDigest ∨
      maker.reserveReceiptDigest ≠ context.makerReserveReceiptDigest ∨
      maker.amountCommitment ≠ (if roles.makerIsPayer then cashReserve else securitiesReserve) ∨
      taker.reserveId ≠ context.takerReservationId ∨
      taker.mandateDigest ≠ context.takerMandateDigest ∨
      taker.reserveReceiptDigest ≠ context.takerReserveReceiptDigest ∨
      taker.amountCommitment ≠ (if roles.makerIsPayer then securitiesReserve else cashReserve))
    "typed settlement differs from the acknowledged pre-trade reserves"

def checkVenue (party : ProofParty lib) (committeePublic : lib.quorum.PublicKeyPackage)
    (hamount : validBits party.config.amountBits = true)
    (hprice : validBits party.config.priceBits = true) (payment : lib.Payment) (now : UInt64) :
    Except String Unit := do
  let venue := (Venue.new lib.defaultGens lib.key (bounds party.config) committeePublic hamount
    hprice).withThresholdRanges
  let committee ← orRefuse party.pqCommittee "proof node lacks its PQ committee"
  let venue ← venue.requirePqCommittee lib.sha256 committee
  (venue.verify lib.primitives lib.sha512 payment now).mapError
    ("typed authorization payment failed: " ++ ·)

def authorizeTyped (env : Env) (request : TypedRequest lib) : Method (Node lib) Reply := do
  let party ← theParty
  let id ← lift request.jobId
  let signingJobId ← lift request.signingJobId
  let message ← lift request.message
  failIf (message.length ≠ 64) "typed zkPI signing message must be one SHA-512 digest"
  let payment ← lift request.payment
  let context ← lift request.context
  failIf (¬ (context.operation = .consume ∨ context.operation = .settle) ∨
      context.scope ≠ .joint) "typed proof finalization must jointly settle a trade"
  let completed ← need (party.completedEvidence.lookup id)
    "typed authorization has no completed MPC proof"
  let roles ← lift (settlementRoles completed payment context)
  lift (checkReserves party completed roles context request.acknowledgement)
  let committeePublic ← need party.frostPublic "FROST DKG is not complete"
  let now ← need env.now clockError
  if hbits : validBits party.config.amountBits = true ∧
      validBits party.config.priceBits = true then do
    lift (checkVenue party committeePublic hbits.1 hbits.2 payment now)
    let expected ← lift
      (TypedSettlement.digestFor lib.primitives lib.sha512 payment context defaultDomain)
    failIf (message ≠ expected.toList) "typed FROST message does not encode this execution context"
    failIf (completed.typedMessageDigest.any (· ≠ lib.sha256 message))
      "completed MPC proof was already bound to another settlement"
    update (keepEvidence id { completed with typedMessageDigest := some (lib.sha256 message) })
    authorizeFrost env signingJobId message
    record (.typedAuthorized id message)
    pure (authorized "typed-mpc-zkpi")
  else
    -- the venue's range contexts exist for four widths only
    abort

end Zkpi.ProofPartyTrades
