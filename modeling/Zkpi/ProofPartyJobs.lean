import Zkpi.ProofPartyState

/-!
# Proof jobs

A job starts from this node's persisted shares of one executed quote. Its distributed
proofs run in phases: public evaluations, binding to the common statement, one
committing round, one answer. A share is taken when it is bound and a round secret is
taken when it is answered, whether or not the rest of the call succeeds. A job that
certified a payment leaves its evidence behind; the other jobs of the committee are
closed without any.
-/

namespace Zkpi.ProofPartyJobs

open ScalarField ByteText FallibleChecks KeyedTables StatefulMethods StatefulMethods.Method
open QuoteStatement ProofPartyLibrary
open ProofPartyState

section Phases

variable {Early Prepare Late : Type} {issuer : Issuer Early Prepare Late}

def evaluate (closed : String) (job : Digest32) (early : Early) :
    Method (Phase issuer) Reply := do
  let phase ← read
  let node ← need phase.node closed
  let bytes ← lift (issuer.evaluations job node early)
  pure (.wire bytes)

def bindPhase (already : String) (job : Digest32) (statement : issuer.Statement) (late : Late) :
    Method (Phase issuer) (Except String Bytes) := do
  let phase ← read
  let node ← need phase.node already
  write { phase with node := none }
  let bound ← lift (issuer.bind node statement)
  let relations ← lift (issuer.relations job bound late)
  write { phase with node := none, bound := some bound }
  pure relations

/-- Commit to a first round. What the round needs besides the share is checked around
the check that the share is bound. -/
def prepare (issued notBound : String) (job : Digest32) (before : Except String Unit)
    (input : Except String Prepare) (entropy : Bytes) : Method (Phase issuer) Reply := do
  let phase ← read
  failIf phase.round1.isSome issued
  lift before
  let bound ← need phase.bound notBound
  let input ← lift input
  let (secret, sealed, round) ← lift (issuer.prepare job bound input entropy)
  write { phase with round1 := some secret }
  let sealed ← lift sealed
  let round ← lift round
  pure (.object [("seal", .bytes sealed), ("round", .bytes round)])

def answer (consumed notBound : String) (job : Digest32) (late : Except String Late)
    (challenge : issuer.Challenge) : Method (Phase issuer) (Except String Bytes) := do
  let phase ← read
  let secret ← need phase.round1 consumed
  write { phase with round1 := none }
  let bound ← need phase.bound notBound
  let late ← lift late
  lift (issuer.answer job bound late secret challenge)

end Phases

def ownMessage {A : Type} (job : Digest32) (refusal : String) (wire : Wire A) :
    Except String A := do
  let (wireJob, message) ← wire
  refuseIf (wireJob ≠ job) refusal
  orRefuse message refusal

def ownMessages {A : Type} (job : Digest32) (refusal : String) (wires : Param (List (Wire A))) :
    Except String (List A) := do
  let wires ← wires
  wires.mapM (ownMessage job refusal)

variable {P : Type} [AddCommGroup P] [Module Scalar P] [DecidableEq P] {lib : PartyLibrary P}

def onJob {A : Type} (id : Digest32) (method : Method (ProofJob lib) A) :
    Method (Node lib) A := do
  let party ← theParty
  let job ← need (party.jobs.lookup id) "proof job is not loaded on this node"
  update fun party => { party with jobs := party.jobs.insert id (method job).2 }
  lift (method job).1

def onZkpi {A : Type} (method : Method (Phase lib.zkpi) A) : Method (ProofJob lib) A :=
  zoom (·.zkpi) (fun phase job => { job with zkpi := phase }) method

def onLimit {A : Type} (method : Method (Phase lib.limit) A) : Method (ProofJob lib) A :=
  zoom (·.limit) (fun phase job => { job with limit := phase }) method

def onPoolRemainder {A : Type} (method : Method (Phase lib.limit) A) : Method (ProofJob lib) A :=
  zoom (·.poolRemainder) (fun phase job => { job with poolRemainder := phase }) method

def onDvp {A : Type} (method : Method (Phase lib.dvp) A) : Method (ProofJob lib) A :=
  zoom (·.dvp) (fun phase job => { job with dvp := phase }) method

def onQuote {A : Type} (method : Method (Phase lib.quote) A) : Method (ProofJob lib) A :=
  zoom (·.quote) (fun phase job => { job with quote := phase }) method

/-! ## Loading -/

structure PersistedShares (lib : PartyLibrary P) where
  makerHandleShare : Scalar
  limit : lib.limit.Node
  zkpi : lib.zkpi.Node
  poolRemainder : lib.limit.Node
  dvp : lib.dvp.Node
  quote : Param lib.quote.Node

def freshJob (config : ProofPartyConfig) (quoteDigest persistenceDigest : Digest32)
    (shares : PersistedShares lib) (quote : Option lib.quote.Node) : ProofJob lib where
  expectedQuoteDigest := quoteDigest
  persistenceDigest := persistenceDigest
  authorizedPaymentDigest := none
  authorizedTakerHandle := none
  makerIsPayer := none
  makerHandleShare := shares.makerHandleShare
  selectedMakerHandle := none
  quote := .fresh quote
  quoteStatement := none
  quoteRelations := none
  quotePublic := none
  winningPolicyDigest := none
  quoteContext := none
  quoteVerified := ! config.completeQuoteProof
  optimisticQuote := none
  zkpi := .fresh (some shares.zkpi)
  zkpiStatements := none
  limit := .fresh (some shares.limit)
  poolRemainder := .fresh (some shares.poolRemainder)
  poolRemainderCommitment := none
  poolRemainderResponseIssued := false
  dvp := .fresh (some shares.dvp)
  quantityCommitment := none
  cashCommitment := none
  securitiesRemainder := none
  cashRemainder := none
  securitiesReserve := none
  cashReserve := none
  dvpResponseIssued := false
  openingShares := ∅

variable (env : Env)

def load (jobId quoteDigest : Param Digest32) (persistence : Param Bytes)
    (shares : Param (PersistedShares lib)) : Method (Node lib) Reply := do
  let party ← theParty
  let id ← lift jobId
  let quoteDigest ← lift quoteDigest
  failIf (quoteDigest = zeroDigest) "proof job quote digest cannot be zero"
  failIf (id ∈ party.completed ∨ id ∈ party.reserved ∨ (party.jobs.lookup id).isSome)
    "proof job identifier was already used on this node"
  failIf (maxJobs ≤ size party.jobs) "proof party has reached its active-job bound"
  let persistence ← lift persistence
  failIf (64 * 2 ^ 20 < persistence.length) "node-local persistence exceeds its proof bound"
  let shares ← lift shares
  let quote ← lift (if party.config.completeQuoteProof then shares.quote.map some else .ok none)
  failIf (lib.zkpi.party shares.zkpi ≠ party.number ∨ lib.limit.party shares.limit ≠ party.number ∨
      lib.limit.party shares.poolRemainder ≠ party.number ∨
      lib.dvp.party shares.dvp ≠ party.number ∨
      quote.any fun node => lib.quote.party node ≠ party.number)
    "persistence handoff belongs to another proof party"
  update fun party => { party with
    jobs := party.jobs.insert id
      (freshJob party.config quoteDigest (lib.sha256 persistence) shares quote)
    reserved := insert id party.reserved }
  persist env []
  pure (.object [("party", .number party.number)])

variable (jobId : Param Digest32)

def makerHandleEvaluation : Method (Node lib) Reply := do
  let party ← theParty
  let id ← lift jobId
  let job ← need (party.jobs.lookup id) "proof job is not loaded on this node"
  pure (.object [("party", .number party.number),
    ("point", .bytes (lib.primitives.compress (job.makerHandleShare • lib.key.g)))])

/-! ## The quote proof -/

def witnessBits (config : ProofPartyConfig) : ℕ :=
  (config.quoteEligibilityBits + 2 ^ 64 - 2) % 2 ^ 64

def quoteCircuit (party : ProofParty lib) : Except String (QuoteCircuit P) :=
  QuoteCircuit.tryNew lib.defaultGens (witnessBits party.config) party.config.quoteSpanBits

def quoteEvaluations : Method (Node lib) Reply := do
  let party ← theParty
  let id ← lift jobId
  let circuit ← lift (quoteCircuit party)
  onJob id (onQuote (evaluate "complete quote evaluation phase is closed" id circuit))

structure QuoteRequest (P : Type) where
  statement : Public P
  winnerIndex : ℕ
  winnerValue : UInt64
  context : Bytes

def quoteBind (evaluations : Param (List (Wire lib.quote.Evaluation)))
    (request : Param (QuoteRequest P)) : Method (Node lib) Reply := do
  let party ← theParty
  let id ← lift jobId
  let evaluations ← lift
    (ownMessages id "quote bind received another job or message type" evaluations)
  let request ← lift request
  let circuit ← lift (quoteCircuit party)
  let statement ← lift (lib.quoteStatement circuit evaluations request.statement
    request.winnerIndex request.winnerValue (List.range' 1 party.config.nParties)
    party.config.threshold)
  let policy ← need request.statement.registry[request.winnerIndex]?
    "quote winner is outside the registered policy set"
  onJob id do
    let relations ← onQuote (bindPhase "complete quote node was already bound" id statement
      ⟨circuit, request.statement⟩)
    modify fun job => { job with
      quoteStatement := some statement
      quotePublic := some request.statement
      winningPolicyDigest := some
        (registeredPolicyDigest lib.primitives lib.sha256 request.winnerIndex policy)
      quoteContext := some request.context }
    let bytes ← lift relations
    pure (.wire bytes)

def quoteRelationBind (evaluations : Param (List (Wire lib.QuoteRelation))) :
    Method (Node lib) Reply := do
  let party ← theParty
  let id ← lift jobId
  let evaluations ← lift
    (ownMessages id "quote relation bind received another job or message type" evaluations)
  let circuit ← lift (quoteCircuit party)
  onJob id do
    let job ← read
    let statement ← need job.quoteStatement "quote base statement is not bound"
    let quotePublic ← need job.quotePublic "quote public statement is absent"
    let relations ← lift (lib.quoteRelations circuit statement quotePublic evaluations)
    modify fun job => { job with quoteRelations := some relations }
    pure (.object [("party", .number party.number), ("bound", .flag true)])

variable (jobId : Param Digest32)

def quoteRound1 : Method (Node lib) Reply := do
  let party ← theParty
  let id ← lift jobId
  let circuit ← lift (quoteCircuit party)
  onJob id do
    let job ← read
    onQuote (prepare "quote round one was already issued for this job" "quote node is not bound" id
      (refuseIf job.quoteRelations.isNone "quote relation statement is not bound")
      (do let quotePublic ← orRefuse job.quotePublic "quote public statement is absent"
          let context ← orRefuse job.quoteContext "quote context is absent"
          .ok (⟨circuit, quotePublic⟩, context)) env.entropy)

def quoteRound2 (challenge : Wire lib.quote.Challenge) : Method (Node lib) Reply := do
  let party ← theParty
  let id ← lift jobId
  let challenge ← lift
    (ownMessage id "quote response received another job or message type" challenge)
  let circuit ← lift (quoteCircuit party)
  onJob id do
    let job ← read
    let response ← onQuote (answer "quote first-round secret is absent or already consumed"
      "quote node is not bound" id
      ((orRefuse job.quotePublic "quote public statement is absent").map (⟨circuit, ·⟩)) challenge)
    let bytes ← lift response
    pure (.wire bytes)

structure QuoteFinalization (lib : PartyLibrary P) where
  rounds : Param (List (Wire lib.QuoteRound))
  seals : Param (List (Wire lib.QuoteSeal))
  responses : Param (List (Wire lib.QuoteResponse))
  quorum : Param (List ℕ)

def finalizationMessages {A : Type} (job : Digest32) (name refusal : String)
    (wires : Param (List (Wire A))) : Except String (List A) := do
  let wires ← wires
  let messages ← wires.mapM fun wire => do
    let (wireJob, message) ← wire
    refuseIf (wireJob ≠ job) (name ++ " contains another quote job")
    .ok message
  messages.mapM (orRefuse · refusal)

def quoteFinalize (finalization : QuoteFinalization lib) : Method (Node lib) Reply := do
  let party ← theParty
  let id ← lift jobId
  let rounds ← lift (finalizationMessages id "rounds"
    "quote finalization received a non-round-one message" finalization.rounds)
  let seals ← lift (finalizationMessages id "seals"
    "quote finalization received a non-seal message" finalization.seals)
  let responses ← lift (finalizationMessages id "responses"
    "quote finalization received a non-response message" finalization.responses)
  let quorum ← lift finalization.quorum
  failIf (∃ member ∈ quorum, ¬ (1 ≤ member ∧ member ≤ party.config.nParties))
    "quote quorum party is invalid"
  let circuit ← lift (quoteCircuit party)
  onJob id do
    let job ← read
    failIf job.quoteVerified "quote proof was already finalized"
    let quotePublic ← need job.quotePublic "quote public statement is absent"
    let statement ← need job.quoteStatement "quote base statement is absent"
    let relations ← need job.quoteRelations "quote relation statement is absent"
    let context ← need job.quoteContext "quote context is absent"
    let digest ← lift (lib.assembleQuote circuit statement relations quotePublic rounds seals
      responses quorum context)
    modify fun job => { job with
      expectedQuoteDigest :=
        if job.optimisticQuote.isNone then digest else job.expectedQuoteDigest
      quoteVerified := true }
    pure (.object [("party", .number party.number), ("quote_digest", .bytes digest.toList)])

/-! ## The payment proof -/

def zkpiEvaluations : Method (Node lib) Reply := do
  let id ← lift jobId
  onJob id (onZkpi (evaluate "zkPI evaluation phase is closed" id ()))

structure HandleEvaluation (P : Type) where
  party : Param ℕ
  point : Param P

def collectHandles (nParties : ℕ) :
    Table ℕ P → List (HandleEvaluation P) → Except String (Table ℕ P)
  | collected, [] => .ok collected
  | collected, next :: rest => do
    let number ← next.party
    refuseIf (¬ (1 ≤ number ∧ number ≤ nParties))
      "winning Maker handle has a missing or duplicate committee party"
    let point ← next.point
    refuseIf (collected.lookup number).isSome
      "winning Maker handle has a missing or duplicate committee party"
    collectHandles nParties (collected.insert number point) rest

def selectedMakerHandle (party : ProofParty lib) (id : Digest32)
    (handles : Param (List (HandleEvaluation P))) : Except String P := do
  let handles ← handles
  refuseIf (handles.length ≠ party.config.nParties)
    "winning Maker handle omitted a configured proof party"
  let collected ← collectHandles party.config.nParties ∅ handles
  let ladder ← lib.coefficientCommitments collected party.config.threshold
  let selected ← orRefuse ladder.head? "winning Maker handle coefficient ladder is empty"
  refuseIf (selected = 0) "winning Maker handle is the identity point"
  let job ← orRefuse (party.jobs.lookup id) "proof job is not loaded on this node"
  refuseIf ((collected.lookup party.number).map lib.primitives.compress ≠
      some (lib.primitives.compress (job.makerHandleShare • lib.key.g)))
    "coordinator changed this node's Maker handle evaluation"
  .ok selected

def zkpiBind (evaluations : Param (List (Wire lib.zkpi.Evaluation)))
    (handles : Param (List (HandleEvaluation P))) : Method (Node lib) Reply := do
  let party ← theParty
  let id ← lift jobId
  let evaluations ← lift
    (ownMessages id "zkPI bind received another job or message type" evaluations)
  let statements ← lift (lib.zkpiStatements evaluations party.config.threshold)
  let selected ← lift (selectedMakerHandle party id handles)
  onJob id do
    let relations ← onZkpi (bindPhase "zkPI node was already bound" id statements ())
    modify fun job => { job with
      selectedMakerHandle := some selected
      zkpiStatements := some statements }
    let bytes ← lift relations
    pure (.wire bytes)

def zkpiRound1 : Method (Node lib) Reply := do
  let id ← lift jobId
  onJob id (onZkpi (prepare "zkPI round one was already issued for this job"
    "zkPI node is not bound" id (.ok ()) (.ok ()) env.entropy))

def zkpiRound2 (challenge : Wire lib.zkpi.Challenge) : Method (Node lib) Reply := do
  let id ← lift jobId
  let challenge ← lift
    (ownMessage id "zkPI response received another job or message type" challenge)
  onJob id do
    let response ← onZkpi (answer "zkPI first-round secret is absent or already consumed"
      "zkPI node is not bound" id (.ok ()) challenge)
    let bytes ← lift response
    pure (.wire bytes)

/-! ## The hidden-limit proof -/

def limitEvaluations : Method (Node lib) Reply := do
  let id ← lift jobId
  onJob id (onLimit (evaluate "hidden-limit evaluation phase is closed" id ()))

def limitBind (evaluations : Param (List (Wire lib.limit.Evaluation))) :
    Method (Node lib) Reply := do
  let party ← theParty
  let id ← lift jobId
  let evaluations ← lift
    (ownMessages id "hidden-limit bind received another job or message type" evaluations)
  let statement ← lift (lib.limitStatement evaluations party.config.threshold)
  onJob id do
    let relations ← onLimit (bindPhase "hidden-limit node was already bound" id statement ())
    let bytes ← lift relations
    pure (.wire bytes)

def limitRound1 (jobId context : Param Digest32) : Method (Node lib) Reply := do
  let id ← lift jobId
  let context ← lift context
  onJob id (onLimit (prepare "hidden-limit round one was already issued for this job"
    "hidden-limit node is not bound" id (.ok ()) (.ok context.toList) env.entropy))

def limitRound2 (challenge : Wire lib.limit.Challenge) : Method (Node lib) Reply := do
  let id ← lift jobId
  let challenge ← lift
    (ownMessage id "hidden-limit response received another job or message type" challenge)
  onJob id do
    let response ← onLimit (answer "hidden-limit first-round secret is absent or already consumed"
      "hidden-limit node is not bound" id (.ok ()) challenge)
    let bytes ← lift response
    pure (.wire bytes)

/-! ## The standing-pool remainder proof -/

def standingPoolRemainderContext : Bytes := utf8 "qomm:defmi:standing-pool-remainder:v1"

def poolRemainderEvaluations : Method (Node lib) Reply := do
  let id ← lift jobId
  onJob id (onPoolRemainder
    (evaluate "standing-pool remainder evaluation phase is closed" id ()))

def poolRemainderBind (evaluations : Param (List (Wire lib.limit.Evaluation))) :
    Method (Node lib) Reply := do
  let party ← theParty
  let id ← lift jobId
  let evaluations ← lift (ownMessages id
    "standing-pool remainder bind received another job or message type" evaluations)
  let statement ← lift (lib.limitStatement evaluations party.config.threshold)
  onJob id do
    let relations ← onPoolRemainder
      (bindPhase "standing-pool remainder node was already bound" id statement ())
    modify fun job => { job with
      poolRemainderCommitment := some (lib.limitCommitment statement) }
    let bytes ← lift relations
    pure (.wire bytes)

def poolRemainderRound1 : Method (Node lib) Reply := do
  let id ← lift jobId
  onJob id (onPoolRemainder (prepare
    "standing-pool remainder round one was already issued for this job"
    "standing-pool remainder node is not bound" id (.ok ()) (.ok standingPoolRemainderContext)
    env.entropy))

def poolRemainderRound2 (challenge : Wire lib.limit.Challenge) : Method (Node lib) Reply := do
  let id ← lift jobId
  let challenge ← lift (ownMessage id
    "standing-pool remainder response received another job or message type" challenge)
  onJob id do
    let response ← onPoolRemainder (answer
      "standing-pool remainder first-round secret is absent or already consumed"
      "standing-pool remainder node is not bound" id (.ok ()) challenge)
    modify fun job => { job with poolRemainderResponseIssued := true }
    let bytes ← lift response
    pure (.wire bytes)

/-! ## The delivery-versus-payment proof -/

def dvpEvaluations : Method (Node lib) Reply := do
  let id ← lift jobId
  onJob id do
    let job ← read
    let statements ← need job.zkpiStatements "zkPI statements are not ready"
    onDvp (evaluate "DvP evaluation phase is closed" id (lib.zkpiAmount statements))

def dvpConstant (threshold : ℕ) (evaluations : List lib.dvp.Evaluation)
    (part : DvpEvaluationPoints P → P) : Except String P := do
  let points := evaluations.foldl (fun table evaluation =>
    table.insert (lib.dvpPoints evaluation).party (part (lib.dvpPoints evaluation)))
    (∅ : Table ℕ P)
  let ladder ← lib.coefficientCommitments points threshold
  orRefuse ladder.head? "empty DvP coefficient ladder"

def dvpBind (evaluations : Param (List (Wire lib.dvp.Evaluation))) : Method (Node lib) Reply := do
  let party ← theParty
  let id ← lift jobId
  let evaluations ← lift
    (ownMessages id "DvP bind received another job or message type" evaluations)
  let threshold := party.config.threshold
  let cash ← lift (dvpConstant threshold evaluations (·.product))
  let securitiesRemainder ← lift (dvpConstant threshold evaluations (·.securitiesRemainder))
  let cashRemainder ← lift (dvpConstant threshold evaluations (·.cashRemainder))
  onJob id do
    let job ← read
    let zkpi ← need job.zkpiStatements "zkPI statements are not ready"
    let statements ← lift (lib.dvpStatements (lib.zkpiAmount zkpi) (lib.zkpiPrice zkpi) cash
      securitiesRemainder cashRemainder evaluations threshold)
    let relations ← onDvp (bindPhase "DvP node was already bound" id statements ())
    modify fun job => { job with
      quantityCommitment := some (lib.zkpiAmount zkpi)
      cashCommitment := some cash
      securitiesRemainder := some securitiesRemainder
      cashRemainder := some cashRemainder
      securitiesReserve := some (lib.zkpiAmount zkpi + securitiesRemainder)
      cashReserve := some (cash + cashRemainder) }
    let bytes ← lift relations
    pure (.wire bytes)

def dvpRound1 : Method (Node lib) Reply := do
  let id ← lift jobId
  onJob id do
    let job ← read
    let quantity := orRefuse job.quantityCommitment "DvP quantity commitment is absent"
    onDvp (prepare "DvP round one was already issued for this job" "DvP node is not bound" id
      (quantity.map fun _ => ()) quantity env.entropy)

def dvpRound2 (challenge : Wire lib.dvp.Challenge) : Method (Node lib) Reply := do
  let id ← lift jobId
  let challenge ← lift
    (ownMessage id "DvP response received another job or message type" challenge)
  onJob id do
    let response ← onDvp (answer "DvP first-round secret is absent or already consumed"
      "DvP node is not bound" id (.ok ()) challenge)
    modify fun job => { job with dvpResponseIssued := true }
    let bytes ← lift response
    pure (.wire bytes)

/-! ## Claim openings and completion -/

def unanswered (job : ProofJob lib) : Bool :=
  job.zkpi.round1.isSome || job.limit.round1.isSome || job.poolRemainder.round1.isSome ||
    job.dvp.round1.isSome || job.quote.round1.isSome

def Leg.recipient (leg : Leg) (maker taker : P) (makerIsPayer : Bool) : P :=
  match leg, makerIsPayer with
  | .securitiesDelivery, true => maker
  | .securitiesDelivery, false => taker
  | .securitiesRefund, true => taker
  | .securitiesRefund, false => maker
  | .cashDelivery, true => taker
  | .cashDelivery, false => maker
  | .cashRefund, true => maker
  | .cashRefund, false => taker

def openingShare (job : ProofJob lib) : Leg → Except String (Scalar × Scalar)
  | .securitiesDelivery => do
    let bound ← orRefuse job.zkpi.bound "zkPI node is not bound"
    .ok (lib.zkpiAmountOpening bound)
  | .securitiesRefund => do
    let bound ← orRefuse job.dvp.bound "DvP node is not bound"
    .ok (lib.dvpSecuritiesOpening bound)
  | .cashDelivery => do
    let bound ← orRefuse job.dvp.bound "DvP node is not bound"
    lib.dvpCashOpening bound
  | .cashRefund => do
    let bound ← orRefuse job.dvp.bound "DvP node is not bound"
    .ok (lib.dvpCashRemainderOpening bound)

def claimOpeningShare (leg : Param String) (recipientView : Param P) : Method (Node lib) Reply := do
  let party ← theParty
  let id ← lift jobId
  let text ← lift leg
  let recipientView ← lift recipientView
  let job ← need (party.jobs.lookup id) "claim opening proof job is not active"
  failIf (job.authorizedPaymentDigest.isNone ∨ ¬ job.dvpResponseIssued ∨
      ¬ job.poolRemainderResponseIssued ∨ unanswered job)
    "claim opening is unavailable before authorization and completed proof rounds"
  let maker ← need job.selectedMakerHandle "claim opening Maker handle is absent"
  let taker ← need job.authorizedTakerHandle "claim opening Taker handle is absent"
  let makerIsPayer ← need job.makerIsPayer "claim opening payment side is absent"
  let leg ← need (Leg.ofText text) "claim opening leg is invalid"
  failIf (lib.primitives.compress recipientView ≠
      lib.primitives.compress (Leg.recipient leg maker taker makerIsPayer))
    "proof node refuses to encrypt a claim opening for another recipient"
  match job.openingShares.lookup leg with
  | some prior => pure (.wire prior)
  | none => do
    let share ← lift (openingShare job leg)
    let recipient ← need (party.config.recipientOpeningKeys.find? fun entry =>
        entry.view.toList = lib.primitives.compress recipientView)
      "claim recipient has no independently enrolled hybrid opening key"
    let response ← lift (lib.encryptOpeningShare id leg party.number share recipientView
      recipient.publicKey env.entropy)
    onJob id (modify fun job => { job with
      openingShares := job.openingShares.insert leg response })
    pure (.wire response)

def signExecutionAttestation (claim : Param ExecutionClaim) : Method (Node lib) Reply := do
  let party ← theParty
  let id ← lift jobId
  let claim ← lift claim
  let job ← need (party.jobs.lookup id) "execution attestation proof job is not active"
  let bytes ← lift (lib.signExecution party.keys party.config.node claim job.persistenceDigest)
  pure (.object [("identity_public", .bytes (lib.identity.applicationPublic party.keys).toList),
    ("wire", .bytes bytes)])

def evidenceOf (job : ProofJob lib) : Option CompletedProof :=
  job.authorizedPaymentDigest.map fun paymentDigest =>
    { paymentDigest := paymentDigest
      quoteDigest := job.expectedQuoteDigest
      winningPolicyDigest := job.winningPolicyDigest
      typedMessageDigest := none
      makerHandle := job.selectedMakerHandle.map lib.primitives.compress
      takerHandle := job.authorizedTakerHandle.map lib.primitives.compress
      makerIsPayer := job.makerIsPayer
      securitiesReserve := job.securitiesReserve.map lib.primitives.compress
      cashReserve := job.cashReserve.map lib.primitives.compress
      openingShares := job.openingShares
      applicationActionDigest := none }

def closeJob (id : Digest32) (evidence : Option CompletedProof) (party : ProofParty lib) :
    ProofParty lib :=
  { party with
    jobs := party.jobs.erase id
    reserved := party.reserved.erase id
    completed := insert id party.completed
    completedEvidence := match evidence with
      | some proof => party.completedEvidence.insert id proof
      | none => party.completedEvidence }

def complete (env : Env) (jobId : Param Digest32) : Method (Node lib) Reply := do
  let party ← theParty
  let id ← lift jobId
  failIf (maxCompletedEvidence ≤ size party.completedEvidence ∧
      (party.completedEvidence.lookup id).isNone)
    "completed proof evidence has reached its retention bound"
  let job ← need (party.jobs.lookup id) "proof job is not active"
  failIf (unanswered job) "proof job still has an unanswered first round"
  failIf (job.authorizedPaymentDigest.isNone ∨ ¬ job.dvpResponseIssued ∨
      ¬ job.poolRemainderResponseIssued)
    "proof job cannot complete before zkPI, DvP, and standing-pool remainder proofs"
  update (closeJob id (evidenceOf job))
  persist env []
  pure (.object [("completed", .flag true)])

def completeObserver : Method (Node lib) Reply := do
  let party ← theParty
  let id ← lift jobId
  if id ∈ party.completed then
    pure (.object [("observer_completed", .flag true), ("already_completed", .flag true)])
  else do
    let job ← need (party.jobs.lookup id) "observer proof job is not active"
    failIf (unanswered job) "observer proof job still has an unanswered first round"
    failIf (job.authorizedPaymentDigest.isSome ∨ job.dvpResponseIssued ∨
        job.poolRemainderResponseIssued)
      "a signing proof job cannot be closed through the observer path"
    failIf ((¬ job.quoteVerified ∧ job.optimisticQuote.isNone) ∨ job.zkpi.bound.isNone ∨
        job.zkpiStatements.isNone ∨ job.limit.bound.isNone ∨ job.dvp.bound.isNone ∨
        job.poolRemainder.bound.isNone)
      "observer proof job did not participate in every public proof phase"
    update (closeJob id none)
    persist env []
    pure (.object [("observer_completed", .flag true), ("already_completed", .flag false)])

end Zkpi.ProofPartyJobs
