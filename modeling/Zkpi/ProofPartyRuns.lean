import Zkpi.ProofPartyEnrollment
import Zkpi.ProofPartyTrades

/-!
# Runs of a proof party

A node over its whole life: processes start from the state file, serve requests in any
order with any parameters, may fail to write, and die at any point. What survives a
process is its file. The two application authorizations and the signing of executions
run inside the process and are part of the same runs.
-/

namespace Zkpi.ProofPartyRuns

open ScalarField ByteText FallibleChecks KeyedTables StatefulMethods StatefulMethods.Method
open ProofPartyLibrary ProofPartyState ProofPartyEnrollment
open ProofPartyJobs ProofPartyAuthorization ProofPartyTrades
open OptimisticMachine (OptimisticPolicy)

variable {P : Type} {lib : PartyLibrary P}

/-! ## Starting from the state file -/

def restoreRound1 (stored : Bytes × Bytes) : Except String (PendingDkgRound1 lib) := do
  let secret ← orRefuse (lib.frost.round1Secret.deserialize stored.1)
    "stored FROST round-one secret is malformed"
  refuseIf (stored.2 = [] ∨ maxWireBytes < stored.2.length)
    "stored FROST round-one broadcast exceeds its bound"
  let _ ← orRefuse (lib.frost.round1Package.deserialize stored.2)
    "stored FROST round-one broadcast is malformed"
  .ok ⟨secret, stored.2⟩

variable (config : ProofPartyConfig)

def restoreRound2 (stored : Bytes × Digest32 × List lib.identity.PeerEntry × Bytes × Digest32 ×
      List SealedPackage) :
    Except String ((Digest32 × List lib.identity.PeerEntry) × PendingDkgRound2 lib) := do
  let (encoded, session, entries, round1Package, broadcasts, encrypted) := stored
  let secret ← orRefuse (lib.frost.round2Secret.deserialize encoded)
    "stored FROST round-two secret is malformed"
  refuseIf (round1Package = [] ∨ maxWireBytes < round1Package.length)
    "stored FROST round-one broadcast exceeds its bound"
  let _ ← orRefuse (lib.frost.round1Package.deserialize round1Package)
    "stored FROST round-one broadcast is malformed"
  refuseIf (encrypted.length + 1 ≠ config.nParties)
    "stored FROST encrypted package set is incomplete"
  refuseIf (∃ package ∈ encrypted, ¬ lib.identity.envelopeDecodes package.envelope)
    "stored FROST round two requires winner-envelope v3"
  .ok ((session, entries), ⟨secret, round1Package, broadcasts, encrypted⟩)

def canonicalHandle (lib : PartyLibrary P) (handle : Option Bytes) : Bool :=
  handle.all fun bytes => (lib.decompress bytes).isSome

def checkEvidence (lib : PartyLibrary P) (evidence : Table Digest32 CompletedProof) :
    Except String Unit := do
  refuseIf (¬ evidence.all fun _ proof => canonicalHandle lib proof.makerHandle)
    "stored completed Maker handle is not canonical"
  refuseIf (¬ evidence.all fun _ proof => canonicalHandle lib proof.takerHandle)
    "stored completed Taker handle is not canonical"
  refuseIf (¬ evidence.all fun _ proof => canonicalHandle lib proof.securitiesReserve)
    "stored completed securities reserve is not canonical"
  refuseIf (¬ evidence.all fun _ proof => canonicalHandle lib proof.cashReserve)
    "stored completed cash reserve is not canonical"

/-- The stored secrets have their fixed widths. -/
def checkKeys (keys : NodeKeys lib.KeyRecord) : Except String Unit := do
  refuseIf (keys.exchangePrivate.length ≠ 96) "stored hybrid exchange seed must be 96 bytes"
  refuseIf (keys.pqPrivate.length ≠ 32) "stored PQ signing seed is malformed"
  refuseIf (keys.applicationPrivate.length ≠ 64)
    "stored application identity requires independent 64-byte seeds"
  refuseIf (keys.identityPrivate.length ≠ 32) "stored FROST identity is malformed"

/-- The enrolled key and committee belong to this node and its group. -/
def validatePqState (party : ProofParty lib) : Except String Unit := do
  lib.identity.validateRecord party.keys.pqKey
  refuseIf (¬ lib.identity.ownSettlementKey party.keys ∨ 64 < size party.pqIdentityCache ∨
      party.pqCommittee.isSome ≠ party.frostPublic.isSome)
    "stored PQ identity or committee is inconsistent"
  match party.pqCommittee with
  | none => .ok ()
  | some policy => do
    lib.quorum.validate policy
    let frostPublic ← orRefuse party.frostPublic "PQ committee lacks its FROST group"
    let encoded ← orRefuse (lib.quorum.serialize frostPublic)
      "FROST public package cannot be serialized"
    let session ← orRefuse party.frostSession "PQ committee lacks its DKG session"
    refuseIf (policy.classicalBinding ≠ lib.sha256 encoded ∨
        policy.context ≠ utf8 "QOMM:MPC-SETTLEMENT-COMMITTEE:v1" ++ session.toList ∨
        policy.threshold ≠ party.config.threshold + 1 ∨
        policy.members.length ≠ party.config.nParties ∨
        (party.number, party.keys.pqKey) ∉ policy.members)
      "PQ committee is not bound to this node and classical group"

/-- The key-generation state of a file, decoded and consistent with itself. -/
structure RestoredRounds {P : Type} (lib : PartyLibrary P) where
  round1 : Option (PendingDkgRound1 lib)
  round2 : Option (PendingDkgRound2 lib)

variable (state : DurableProofState lib)

def restoreRounds : Except String (RestoredRounds lib) := do
  refuseIf (state.frostPeerManifest.any fun stored => stored.2.length ≠ config.nParties)
    "stored FROST peer manifest is incomplete"
  let round1 ← onSome state.packages.frostDkgRound1 restoreRound1
  let round2 ← onSome state.packages.frostDkgRound2 (restoreRound2 config)
  refuseIf (round1.isSome ∧ round2.isSome)
    "stored FROST state contains two DKG rounds at once"
  refuseIf ((round1.isSome ∨ round2.isSome) ∧ state.frostPeerManifest.isNone)
    "stored FROST DKG state has no peer manifest"
  refuseIf (round2.any fun stored => some stored.1 ≠ state.frostPeerManifest)
    "stored FROST DKG state disagrees with its peer manifest"
  .ok ⟨round1, round2.map Prod.snd⟩

def decodedParty (rounds : RestoredRounds lib) (frostKey : Option lib.frost.KeyPackage)
    (frostPublic : Option lib.quorum.PublicKeyPackage) (peers : Option (PendingPeers lib)) :
    ProofParty lib where
  config := config
  keys := state.keys
  jobs := ∅
  reserved := state.proofReserved
  completed := state.proofCompleted
  completedEvidence := state.completedEvidence
  applicationControls := state.applicationControls
  pqCommittee := state.pqCommittee
  pqIdentityCache := state.pqIdentityCache
  pendingPeers := none
  peers := peers
  dkgRound1 := rounds.round1
  dkgRound2 := rounds.round2
  frostKey := frostKey
  frostPublic := frostPublic
  frostSession := state.frostSession
  frostDkgFinalizeDigest := state.frostDkgFinalizeDigest
  frostNonces := ∅
  frostReserved := state.frostReserved
  frostConsumed := state.frostConsumed
  frostAuthorized := state.frostAuthorized
  publicationConsumed := state.publicationConsumed
  optimisticProposals := state.optimisticProposals
  stateGeneration := state.generation
  stateHealthy := true

def contradictory (party : ProofParty lib) : Prop :=
  (party.reserved ∩ party.completed).Nonempty ∨
    (party.frostReserved ∩ party.frostConsumed).Nonempty ∨
    maxCompletedEvidence < size party.completedEvidence ∨
    maxCompletedEvidence < size party.applicationControls ∨
    (∃ job ∈ party.completedEvidence.keys, job ∉ party.completed) ∨
    ∃ job ∈ party.frostAuthorized.keys, job ∈ party.frostReserved ∨ job ∈ party.frostConsumed

instance (party : ProofParty lib) : Decidable (contradictory party) := by
  unfold contradictory
  infer_instance

def restore (now : Option UInt64) : Except String (ProofParty lib) := do
  refuseIf (state.node ≠ config.node ∨ state.nMm ≠ config.nMm ∨
      state.nParties ≠ config.nParties ∨ state.threshold ≠ config.threshold ∨
      state.trustedDefmiReceiptPublic ≠ config.trustedDefmiReceiptPublic ∨
      state.proofConfigurationDigest ≠ config.securityDigest lib)
    "proof-party state belongs to another node or security configuration"
  let rounds ← restoreRounds config state
  checkEvidence lib state.completedEvidence
  refuseIf (¬ state.applicationControls.all fun id action =>
      decide (id ≠ zeroDigest ∧ action ≠ zeroDigest))
    "stored control binding is empty"
  let frostKey ← onSome state.packages.frostKeyPackage fun encoded =>
    orRefuse (lib.frost.keyPackage.deserialize encoded) "stored FROST key package is malformed"
  let frostPublic ← onSome state.packages.frostPublicPackage fun encoded =>
    orRefuse (lib.frost.publicKeyPackage encoded) "stored FROST public package is malformed"
  refuseIf (frostKey.isSome ≠ frostPublic.isSome ∨ frostKey.isSome ≠ state.frostSession.isSome ∨
      (state.frostDkgFinalizeDigest.isSome ∧ frostKey.isNone))
    "stored FROST state is incomplete"
  checkKeys state.keys
  refuseIf (state.frostPeerManifest.isSome ∧ frostKey.isSome)
    "stored FROST state is both pending and finalized"
  -- rounds without a manifest were refused above
  let peers ← onSome state.frostPeerManifest fun stored =>
    manifest config state.keys now stored.1 stored.2
  let party := decodedParty config state rounds frostKey frostPublic peers
  refuseIf (contradictory party) "proof-party state contains contradictory lifecycle sets"
  validatePqState party
  .ok party

/-- A restored party holds the sets of its file, has no jobs and no nonces, and is not both
enrolled and enrolling. -/
theorem restore_ok {config : ProofPartyConfig} {state : DurableProofState lib}
    {now : Option UInt64} {party : ProofParty lib} (h : restore config state now = .ok party) :
    ∃ rounds frostKey frostPublic peers,
      party = decodedParty config state rounds frostKey frostPublic peers ∧
      frostKey.isSome = frostPublic.isSome ∧ (frostKey.isSome = true → peers = none) ∧
      ¬ contradictory party := by
  obtain ⟨-, h⟩ := refuseIf_bind_ok.mp h
  obtain ⟨rounds, -, h⟩ := FallibleChecks.bind_ok.mp h
  obtain ⟨-, -, h⟩ := FallibleChecks.bind_ok.mp h
  obtain ⟨-, h⟩ := refuseIf_bind_ok.mp h
  obtain ⟨frostKey, -, h⟩ := FallibleChecks.bind_ok.mp h
  obtain ⟨frostPublic, -, h⟩ := FallibleChecks.bind_ok.mp h
  obtain ⟨hcomplete, h⟩ := refuseIf_bind_ok.mp h
  obtain ⟨-, -, h⟩ := FallibleChecks.bind_ok.mp h
  obtain ⟨hpending, h⟩ := refuseIf_bind_ok.mp h
  obtain ⟨peers, hpeers, h⟩ := FallibleChecks.bind_ok.mp h
  obtain ⟨hsets, h⟩ := refuseIf_bind_ok.mp h
  obtain ⟨-, -, h⟩ := FallibleChecks.bind_ok.mp h
  cases h
  refine ⟨rounds, frostKey, frostPublic, peers, rfl, ?_, fun hkey => ?_, hsets⟩
  · exact not_not.mp (not_or.mp hcomplete).1
  · cases hmanifest : state.frostPeerManifest with
    | none =>
      rw [hmanifest] at hpeers
      cases hpeers
      rfl
    | some => exact absurd ⟨by rw [hmanifest]; rfl, hkey⟩ hpending

def initialState (keys : NodeKeys lib.KeyRecord) : DurableProofState lib where
  generation := 0
  proofConfigurationDigest := config.securityDigest lib
  node := config.node
  nMm := config.nMm
  nParties := config.nParties
  threshold := config.threshold
  trustedDefmiReceiptPublic := config.trustedDefmiReceiptPublic
  keys := keys
  pqCommittee := none
  pqIdentityCache := ∅
  frostSession := none
  frostDkgFinalizeDigest := none
  frostPeerManifest := none
  packages := ⟨none, none, none, none⟩
  frostReserved := ∅
  frostConsumed := ∅
  frostAuthorized := ∅
  publicationConsumed := ∅
  optimisticProposals := ∅
  proofReserved := ∅
  proofCompleted := ∅
  completedEvidence := ∅
  applicationControls := ∅

/-! ## The node over its whole life -/

/-- A node between requests. -/
structure World (lib : PartyLibrary P) where
  process : Option (ProofParty lib)
  disk : Option (DurableProofState lib)
  drawn : ℕ
  journal : List (Event P)

/-- A node that was never started. -/
def World.fresh : World lib := ⟨none, none, 0, []⟩

def startFrom (env : Env) (state : DurableProofState lib) (world : World lib) :
    Except String Reply × World lib :=
  match restore config state env.now with
  | .ok party => (.ok (.object []), { world with process := some party })
  | .error message => (.error message, world)

def start (env : Env) (world : World lib) : Except String Reply × World lib :=
  match config.validate lib, world.disk with
  | .error message, _ => (.error message, world)
  | .ok _, some state => startFrom config env state world
  | .ok _, none =>
    match lib.identity.generate env.entropy env.now with
    | .error message => (.error message, world)
    | .ok keys =>
      let written := { world with disk := some (initialState config keys) }
      match env.write with
      | .stored => startFrom config env (initialState config keys) written
      | .failed applied reason => (.error reason, if applied then written else world)
      | .crashed applied => (.error "", if applied then written else world)

def serve (method : Method (Node lib) Reply) (world : World lib) :
    Except String Reply × World lib :=
  match world.process with
  | none => (.error "proof party is not running", world)
  | some party =>
    match method ⟨party, world.disk, false, world.drawn, world.journal⟩ with
    | (result, node) =>
      if node.down then (.error "proof party died", ⟨none, node.disk, node.drawn, node.journal⟩)
      else (result, ⟨some node.party, node.disk, node.drawn, node.journal⟩)

variable [AddCommGroup P] [Module Scalar P] [DecidableEq P]

inductive Request (lib : PartyLibrary P) where
  | frostStatus
  | frostIdentity (session : Param Digest32)
  | frostConfigurePeers (session : Param Digest32)
      (entries : Param (List lib.identity.PeerEntry))
  | frostConfirmPeers (confirmations : Param (List Confirmation))
  | frostDkgRound1
  | frostDkgRound2 (broadcasts : DkgBroadcasts)
  | frostDkgFinalize (encoding : Param Bytes) (broadcasts : DkgBroadcasts)
      (incoming : Param (List DirectedPackage))
  | authorizeReservePayment (request : ReservePaymentRequest P)
  | authorizeReserveTyped (request : ReserveTypedRequest lib)
  | authorizeStandingPoolAllocation (request : AllocationRequest lib)
  | authorizeZkpi (request : ZkpiRequest P)
  | authorizeTyped (request : TypedRequest lib)
  | signPublication (statement : Param PublicationStatement) (mechanism evidence : Param Unit)
  | authorizeHealth (signingJobId : Param Digest32) (message : Param Bytes)
      (cluster : Param Digest32) (stage : Param HealthStage)
  | frostCommit (jobId : Param Digest32) (message : Param Bytes)
  | frostSign (jobId : Param Digest32) (message : Param Bytes)
      (commitments : Param (List CommitmentEntry))
  | load (jobId quoteDigest : Param Digest32) (persistence : Param Bytes)
      (shares : Param (PersistedShares lib))
  | makerHandleEvaluation (jobId : Param Digest32)
  | quoteEvaluations (jobId : Param Digest32)
  | quoteBind (jobId : Param Digest32) (evaluations : Param (List (Wire lib.quote.Evaluation)))
      (request : Param (QuoteRequest P))
  | quoteRelationBind (jobId : Param Digest32)
      (evaluations : Param (List (Wire lib.QuoteRelation)))
  | quoteRound1 (jobId : Param Digest32)
  | quoteRound2 (jobId : Param Digest32) (challenge : Wire lib.quote.Challenge)
  | optimisticQuotePropose (jobId : Param Digest32) (admission : Param NodeExecutionAdmission)
  | optimisticQuoteAccept (jobId : Param Digest32) (admission : Param NodeExecutionAdmission)
      (quote : Param (QuoteAuthorization P))
  | quoteFinalize (jobId : Param Digest32) (finalization : QuoteFinalization lib)
  | zkpiEvaluations (jobId : Param Digest32)
  | zkpiBind (jobId : Param Digest32) (evaluations : Param (List (Wire lib.zkpi.Evaluation)))
      (handles : Param (List (HandleEvaluation P)))
  | zkpiRound1 (jobId : Param Digest32)
  | zkpiRound2 (jobId : Param Digest32) (challenge : Wire lib.zkpi.Challenge)
  | limitEvaluations (jobId : Param Digest32)
  | limitBind (jobId : Param Digest32) (evaluations : Param (List (Wire lib.limit.Evaluation)))
  | limitRound1 (jobId context : Param Digest32)
  | limitRound2 (jobId : Param Digest32) (challenge : Wire lib.limit.Challenge)
  | poolRemainderEvaluations (jobId : Param Digest32)
  | poolRemainderBind (jobId : Param Digest32)
      (evaluations : Param (List (Wire lib.limit.Evaluation)))
  | poolRemainderRound1 (jobId : Param Digest32)
  | poolRemainderRound2 (jobId : Param Digest32) (challenge : Wire lib.limit.Challenge)
  | dvpEvaluations (jobId : Param Digest32)
  | dvpBind (jobId : Param Digest32) (evaluations : Param (List (Wire lib.dvp.Evaluation)))
  | dvpRound1 (jobId : Param Digest32)
  | dvpRound2 (jobId : Param Digest32) (challenge : Wire lib.dvp.Challenge)
  | claimOpeningShare (jobId : Param Digest32) (leg : Param String) (recipientView : Param P)
  | signAdmissionAttestation (claim : Param AdmissionClaim)
  | signExecutionAttestation (jobId : Param Digest32) (claim : Param ExecutionClaim)
  | complete (jobId : Param Digest32)
  | completeObserver (jobId : Param Digest32)
  | health
  | unknown

/-- The identity of this node's keys and settings. -/
def instanceId (party : ProofParty lib) : Digest32 :=
  lib.sha256 (utf8 "QOMM:PROOF-PARTY:INSTANCE:v3" ++
    (lib.identity.applicationPublic party.keys).toList ++
    (party.config.securityDigest lib).toList ++ lib.identity.identityPublic party.keys)

def health : Method (Node lib) Reply := do
  let party ← theParty
  let publicPackage ← lift (encodedPublic party)
  pure (.object [("node", .number party.config.node),
    ("instance_id", .bytes (instanceId party).toList),
    ("security_configuration_digest", .bytes (party.config.securityDigest lib).toList),
    ("protocol_version", .number 1), ("n_mm", .number party.config.nMm),
    ("n_parties", .number party.config.nParties), ("threshold", .number party.config.threshold),
    ("amount_bits", .number party.config.amountBits),
    ("price_bits", .number party.config.priceBits),
    ("remainder_bits", .number party.config.remainderBits),
    ("complete_quote_proof", .flag party.config.completeQuoteProof),
    ("quote_eligibility_bits", .number party.config.quoteEligibilityBits),
    ("quote_span_bits", .number party.config.quoteSpanBits),
    ("active_jobs", .number (size party.jobs)), ("reserved_jobs", .number party.reserved.card),
    ("completed_jobs", .number party.completed.card),
    ("frost_ready", .flag party.frostKey.isSome),
    ("frost_session", .optional ((activeFrostSession party).map List.Vector.toList)),
    ("frost_peer_manifest_persisted", .flag party.peers.isSome),
    ("frost_dkg_round1_persisted", .flag party.dkgRound1.isSome),
    ("frost_dkg_round2_persisted", .flag party.dkgRound2.isSome),
    ("frost_public_package_sha256",
      .optional (publicPackage.map fun encoded => (lib.sha256 encoded).toList)),
    ("frost_reserved_jobs", .number party.frostReserved.card),
    ("frost_consumed_jobs", .number party.frostConsumed.card),
    ("frost_authorized_jobs", .number (size party.frostAuthorized)),
    ("state_generation", .number party.stateGeneration.toNat)])

def Request.method (env : Env) : Request lib → Method (Node lib) Reply
  | .frostStatus => ProofPartyEnrollment.frostStatus
  | .frostIdentity session => ProofPartyEnrollment.frostIdentity env session
  | .frostConfigurePeers session entries =>
    ProofPartyEnrollment.frostConfigurePeers env session entries
  | .frostConfirmPeers confirmations => ProofPartyEnrollment.frostConfirmPeers env confirmations
  | .frostDkgRound1 => ProofPartyEnrollment.frostDkgRound1 env
  | .frostDkgRound2 broadcasts => ProofPartyEnrollment.frostDkgRound2 env broadcasts
  | .frostDkgFinalize encoding broadcasts incoming =>
    ProofPartyEnrollment.frostDkgFinalize env encoding broadcasts incoming
  | .authorizeReservePayment request =>
    ProofPartyAuthorization.authorizeReservePayment env request
  | .authorizeReserveTyped request => ProofPartyAuthorization.authorizeReserveTyped env request
  | .authorizeStandingPoolAllocation request =>
    ProofPartyTrades.authorizeStandingPoolAllocation env request
  | .authorizeZkpi request => ProofPartyTrades.authorizeZkpi env request
  | .authorizeTyped request => ProofPartyTrades.authorizeTyped env request
  | .signPublication statement mechanism evidence =>
    ProofPartyAuthorization.signPublication env statement mechanism evidence
  | .authorizeHealth signingJobId message cluster stage =>
    ProofPartyAuthorization.authorizeHealth env signingJobId message cluster stage
  | .frostCommit jobId message => ProofPartyAuthorization.frostCommit env jobId message
  | .frostSign jobId message commitments =>
    ProofPartyAuthorization.frostSign env jobId message commitments
  | .load jobId quoteDigest persistence shares =>
    ProofPartyJobs.load env jobId quoteDigest persistence shares
  | .makerHandleEvaluation jobId => ProofPartyJobs.makerHandleEvaluation jobId
  | .quoteEvaluations jobId => ProofPartyJobs.quoteEvaluations jobId
  | .quoteBind jobId evaluations request => ProofPartyJobs.quoteBind jobId evaluations request
  | .quoteRelationBind jobId evaluations => ProofPartyJobs.quoteRelationBind jobId evaluations
  | .quoteRound1 jobId => ProofPartyJobs.quoteRound1 env jobId
  | .quoteRound2 jobId challenge => ProofPartyJobs.quoteRound2 jobId challenge
  | .optimisticQuotePropose jobId admission =>
    ProofPartyTrades.optimisticQuotePropose env jobId admission
  | .optimisticQuoteAccept jobId admission quote =>
    ProofPartyTrades.optimisticQuoteAccept env jobId admission quote
  | .quoteFinalize jobId finalization => ProofPartyJobs.quoteFinalize jobId finalization
  | .zkpiEvaluations jobId => ProofPartyJobs.zkpiEvaluations jobId
  | .zkpiBind jobId evaluations handles => ProofPartyJobs.zkpiBind jobId evaluations handles
  | .zkpiRound1 jobId => ProofPartyJobs.zkpiRound1 env jobId
  | .zkpiRound2 jobId challenge => ProofPartyJobs.zkpiRound2 jobId challenge
  | .limitEvaluations jobId => ProofPartyJobs.limitEvaluations jobId
  | .limitBind jobId evaluations => ProofPartyJobs.limitBind jobId evaluations
  | .limitRound1 jobId context => ProofPartyJobs.limitRound1 env jobId context
  | .limitRound2 jobId challenge => ProofPartyJobs.limitRound2 jobId challenge
  | .poolRemainderEvaluations jobId => ProofPartyJobs.poolRemainderEvaluations jobId
  | .poolRemainderBind jobId evaluations => ProofPartyJobs.poolRemainderBind jobId evaluations
  | .poolRemainderRound1 jobId => ProofPartyJobs.poolRemainderRound1 env jobId
  | .poolRemainderRound2 jobId challenge => ProofPartyJobs.poolRemainderRound2 jobId challenge
  | .dvpEvaluations jobId => ProofPartyJobs.dvpEvaluations jobId
  | .dvpBind jobId evaluations => ProofPartyJobs.dvpBind jobId evaluations
  | .dvpRound1 jobId => ProofPartyJobs.dvpRound1 env jobId
  | .dvpRound2 jobId challenge => ProofPartyJobs.dvpRound2 jobId challenge
  | .claimOpeningShare jobId leg recipientView =>
    ProofPartyJobs.claimOpeningShare env jobId leg recipientView
  | .signAdmissionAttestation claim => ProofPartyAuthorization.signAdmissionAttestation claim
  | .signExecutionAttestation jobId claim => ProofPartyJobs.signExecutionAttestation jobId claim
  | .complete jobId => ProofPartyJobs.complete env jobId
  | .completeObserver jobId => ProofPartyJobs.completeObserver env jobId
  | .health => ProofPartyRuns.health
  | .unknown => fail "unknown proof-party operation"

def dispatch (env : Env) (request : Request lib) : Method (Node lib) Reply := do
  let party ← theParty
  failIf (¬ party.stateHealthy) failClosed
  request.method env

/-- What can happen to a node. -/
inductive Op (lib : PartyLibrary P) where
  | start (config : ProofPartyConfig) (env : Env)
  | crash
  | request (request : Request lib) (env : Env)
  | applicationStatement (job : Digest32) (verifier : CompletedApplicationProof lib →
      Except String ApplicationStatementAuthorization) (env : Env)
  | applicationControl (verifier : lib.quorum.PublicKeyPackage →
      Except String ApplicationControlAuthorization) (env : Env)
  | optimisticExecution (policy : OptimisticPolicy)
      (context : OptimisticMachine.ExecutionContext) (outputRoot : Digest32)
      (validUntil : UInt64) (env : Env)
  | admittedExecution (admission : NodeExecutionAdmission) (outputRoot : Digest32) (env : Env)

def step (world : World lib) : Op lib → Except String Reply × World lib
  | .start config env =>
    match world.process with
    | some _ => (.error "proof party is already running", world)
    | none => start config env world
  | .crash => (.ok (.object []), { world with process := none })
  | .request request env => serve (dispatch env request) world
  | .applicationStatement job verifier env =>
    serve (do
      let message ← authorizeApplicationStatement env job verifier
      pure (.wire message.toList)) world
  | .applicationControl verifier env =>
    serve (do
      let message ← authorizeApplicationControl env verifier
      pure (.wire message.toList)) world
  | .optimisticExecution policy context outputRoot validUntil env =>
    serve (do
      let proposal ← signOptimisticExecution env policy context outputRoot validUntil
      pure (.wire proposal.signature)) world
  | .admittedExecution admission outputRoot env =>
    serve (do
      let proposal ← signAdmittedOptimisticExecution env admission outputRoot
      pure (.wire proposal.signature)) world

end Zkpi.ProofPartyRuns
