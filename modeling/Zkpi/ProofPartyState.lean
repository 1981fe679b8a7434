import Zkpi.ProofPartyLibrary

/-!
# The state of a proof party

One node of the proof committee: its configuration, the proof jobs it has loaded,
the evidence of the jobs it has completed, its enrollment in the threshold-signing
group and the lifecycle sets that make a signing job one-use. Jobs and nonces live
in memory only; everything else is written to one state file before a reply that
depends on it leaves the node.

A running request may also fail to write or die at its write. Both are inputs of the
request here, so that every statement about runs covers every such fault. Beside the
process and its file, the model keeps a journal of what the node did. No method reads
it.
-/

namespace Zkpi.ProofPartyState

open ScalarField ByteText CheckedIntegers FallibleChecks KeyedTables StatefulMethods
open PaymentInstruction QuoteStatement OptimisticMachine ProofPartyLibrary

def maxJobs : ℕ := 64

def maxCompletedEvidence : ℕ := 4096

def maxWireBytes : ℕ := 2 ^ 20

/-! ## Configuration -/

structure RecipientOpeningKey where
  view : Digest32
  publicKey : Bytes

structure ProofPartyConfig where
  recipientOpeningKeys : List RecipientOpeningKey
  node : ℕ
  statePassphrase : Bytes
  nMm : ℕ
  /-- The fixed population of the committee. -/
  nParties : ℕ
  threshold : ℕ
  amountBits : ℕ
  priceBits : ℕ
  remainderBits : ℕ
  completeQuoteProof : Bool
  quoteEligibilityBits : ℕ
  quoteSpanBits : ℕ
  trustedDefmiReceiptPublic : Option Digest32
  allowHealthSigning : Bool

def flagByte (flag : Bool) : Bytes := [if flag then 1 else 0]

section Configuration

variable {P : Type} (lib : PartyLibrary P)

def ProofPartyConfig.validate (config : ProofPartyConfig) : Except String Unit := do
  refuseIf (¬ (config.recipientOpeningKeys.map (·.view)).Nodup ∨
      ∃ recipient ∈ config.recipientOpeningKeys,
        recipient.publicKey.length ≠ lib.recipientPublicBytes ∨ recipient.view = zeroDigest)
    "recipient opening directory is malformed or repeats an identity"
  refuseIf (64 ≤ config.node ∨ config.nMm = 0 ∨ 4096 < config.nMm ∨
      ¬ (2 ≤ config.nParties ∧ config.nParties ≤ 64) ∨ config.nParties ≤ config.node ∨
      config.threshold = 0 ∨ config.nParties ≤ config.threshold ∨
      ¬ (1 ≤ config.amountBits ∧ config.amountBits ≤ 64) ∨
      ¬ (1 ≤ config.priceBits ∧ config.priceBits ≤ 64) ∨
      ¬ (1 ≤ config.remainderBits ∧ config.remainderBits ≤ 64) ∨
      ¬ (1 ≤ config.quoteEligibilityBits ∧ config.quoteEligibilityBits ≤ 64) ∨
      ¬ (1 ≤ config.quoteSpanBits ∧ config.quoteSpanBits ≤ 64) ∨
      config.statePassphrase.length < 16)
    "proof-party configuration is outside its fixed bounds"
  refuseIf (config.completeQuoteProof ∧ config.quoteEligibilityBits < 3)
    "complete quote proofs need at least three eligibility witness bits"
  refuseIf (config.trustedDefmiReceiptPublic.any fun key => ! lib.receiptKeyValid key)
    "proof-party DeFMI receipt key is malformed"

def ProofPartyConfig.securityDigest (config : ProofPartyConfig) : Digest32 :=
  lib.sha256 (utf8 "QOMM:PROOF-PARTY:SECURITY-CONFIG:v2" ++ beBytes 2 config.node ++
    beBytes 8 config.nMm ++ beBytes 8 config.nParties ++ beBytes 8 config.threshold ++
    beBytes 8 config.amountBits ++ beBytes 8 config.priceBits ++
    beBytes 8 config.remainderBits ++ flagByte config.completeQuoteProof ++
    beBytes 8 config.quoteEligibilityBits ++ beBytes 8 config.quoteSpanBits ++
    flagByte config.allowHealthSigning ++
    (match config.trustedDefmiReceiptPublic with
      | some key => 1 :: key.toList
      | none => [0]) ++
    beBytes 8 config.recipientOpeningKeys.length ++
    config.recipientOpeningKeys.flatMap fun recipient =>
      recipient.view.toList ++ recipient.publicKey)

end Configuration

/-! ## Jobs and evidence -/

structure Phase {Early Prepare Late : Type} (issuer : Issuer Early Prepare Late) where
  /-- The unbound share, until the statement is bound. -/
  node : Option issuer.Node
  bound : Option issuer.Bound
  round1 : Option issuer.Secret

/-- A share that has not taken part in anything. -/
def Phase.fresh {Early Prepare Late : Type} {issuer : Issuer Early Prepare Late}
    (node : Option issuer.Node) : Phase issuer := ⟨node, none, none⟩

structure ProofJob {P : Type} (lib : PartyLibrary P) where
  expectedQuoteDigest : Digest32
  persistenceDigest : Digest32
  authorizedPaymentDigest : Option Digest64
  authorizedTakerHandle : Option P
  makerIsPayer : Option Bool
  makerHandleShare : Scalar
  selectedMakerHandle : Option P
  quote : Phase lib.quote
  quoteStatement : Option lib.quote.Statement
  quoteRelations : Option lib.QuoteRelations
  quotePublic : Option (Public P)
  winningPolicyDigest : Option Digest32
  quoteContext : Option Bytes
  quoteVerified : Bool
  optimisticQuote : Option Digest32
  zkpi : Phase lib.zkpi
  zkpiStatements : Option lib.zkpi.Statement
  limit : Phase lib.limit
  poolRemainder : Phase lib.limit
  poolRemainderCommitment : Option P
  poolRemainderResponseIssued : Bool
  dvp : Phase lib.dvp
  quantityCommitment : Option P
  cashCommitment : Option P
  securitiesRemainder : Option P
  cashRemainder : Option P
  securitiesReserve : Option P
  cashReserve : Option P
  /-- Set only after this node has answered its delivery-versus-payment round. -/
  dvpResponseIssued : Bool
  openingShares : Table Leg Bytes

structure CompletedProof where
  paymentDigest : Digest64
  quoteDigest : Digest32
  winningPolicyDigest : Option Digest32
  typedMessageDigest : Option Digest32
  makerHandle : Option Bytes
  takerHandle : Option Bytes
  makerIsPayer : Option Bool
  securitiesReserve : Option Bytes
  cashReserve : Option Bytes
  openingShares : Table Leg Bytes
  applicationActionDigest : Option Digest32

/-! ## Enrollment in the signing group -/

structure SealedPackage where
  sender : ℕ
  recipient : ℕ
  envelope : Bytes

structure PendingPeers {P : Type} (lib : PartyLibrary P) where
  session : Digest32
  digest : Digest32
  entries : List lib.identity.PeerEntry

structure PendingDkgRound1 {P : Type} (lib : PartyLibrary P) where
  secret : lib.frost.Round1Secret
  broadcastPackage : Bytes

structure PendingDkgRound2 {P : Type} (lib : PartyLibrary P) where
  secret : lib.frost.Round2Secret
  round1Package : Bytes
  broadcastsDigest : Digest32
  encrypted : List SealedPackage

/-- A nonce pair waiting for its signing round. The serial counts the pairs the
node ever generated, across restarts. -/
structure FrostNonceState {P : Type} (lib : PartyLibrary P) where
  messageDigest : Digest32
  nonces : lib.frost.SigningNonces
  serial : ℕ

/-! ## The process and its file -/

structure ProofParty {P : Type} (lib : PartyLibrary P) where
  config : ProofPartyConfig
  keys : NodeKeys lib.KeyRecord
  jobs : Table Digest32 (ProofJob lib)
  reserved : Finset Digest32
  completed : Finset Digest32
  completedEvidence : Table Digest32 CompletedProof
  applicationControls : Table Digest32 Digest32
  pqCommittee : Option (QuorumPolicy lib.KeyRecord)
  pqIdentityCache : Table Digest32 Bytes
  pendingPeers : Option (PendingPeers lib)
  peers : Option (PendingPeers lib)
  dkgRound1 : Option (PendingDkgRound1 lib)
  dkgRound2 : Option (PendingDkgRound2 lib)
  frostKey : Option lib.frost.KeyPackage
  frostPublic : Option lib.quorum.PublicKeyPackage
  frostSession : Option Digest32
  frostDkgFinalizeDigest : Option Digest32
  frostNonces : Table Digest32 (FrostNonceState lib)
  frostReserved : Finset Digest32
  frostConsumed : Finset Digest32
  /-- Signing job to message digest, written before a nonce is generated. -/
  frostAuthorized : Table Digest32 Digest32
  publicationConsumed : Finset Digest32
  optimisticProposals : Table Digest32 Proposal
  stateGeneration : UInt64
  stateHealthy : Bool

/-- The encoded secrets of a state file. -/
structure DurablePackages {P : Type} (lib : PartyLibrary P) where
  frostKeyPackage : Option Bytes
  frostPublicPackage : Option Bytes
  frostDkgRound1 : Option (Bytes × Bytes)
  frostDkgRound2 : Option (Bytes × Digest32 × List lib.identity.PeerEntry ×
    Bytes × Digest32 × List SealedPackage)

structure DurableProofState {P : Type} (lib : PartyLibrary P) where
  generation : UInt64
  proofConfigurationDigest : Digest32
  node : ℕ
  nMm : ℕ
  nParties : ℕ
  threshold : ℕ
  trustedDefmiReceiptPublic : Option Digest32
  keys : NodeKeys lib.KeyRecord
  pqCommittee : Option (QuorumPolicy lib.KeyRecord)
  pqIdentityCache : Table Digest32 Bytes
  frostSession : Option Digest32
  frostDkgFinalizeDigest : Option Digest32
  frostPeerManifest : Option (Digest32 × List lib.identity.PeerEntry)
  packages : DurablePackages lib
  frostReserved : Finset Digest32
  frostConsumed : Finset Digest32
  frostAuthorized : Table Digest32 Digest32
  publicationConsumed : Finset Digest32
  optimisticProposals : Table Digest32 Proposal
  proofReserved : Finset Digest32
  proofCompleted : Finset Digest32
  completedEvidence : Table Digest32 CompletedProof
  applicationControls : Table Digest32 Digest32

/-- What the node did, as seen from outside. -/
inductive Event (P : Type) where
  | presented (message : Bytes)
  | accepted (job : Digest32) (message : Bytes)
  | reserved (job : Digest32) (serial : ℕ)
  | committed (job : Digest32) (serial : ℕ)
  /-- A signature share was returned for a message, from a nonce pair. -/
  | released (job : Digest32) (message : Bytes) (serial : ℕ)
  | bound (job : Digest32) (payment : PaymentTerms P)
  | paymentAuthorized (job : Digest32) (payment : PaymentTerms P)
  | typedAuthorized (job : Digest32) (message : Bytes)
deriving DecidableEq

structure Node {P : Type} (lib : PartyLibrary P) where
  party : ProofParty lib
  /-- The state file, absent before the first start. -/
  disk : Option (DurableProofState lib)
  /-- The process died during the request. -/
  down : Bool
  /-- How many nonce pairs were generated so far. -/
  drawn : ℕ
  /-- What the node did so far, oldest first. -/
  journal : List (Event P)

inductive WriteOutcome where
  | stored
  /-- The write reported an error. Whether the new file is in place is not known. -/
  | failed (applied : Bool) (reason : String)
  /-- The process died before or after the new file was in place. -/
  | crashed (applied : Bool)

/-- What a request reads from its surroundings. -/
structure Env where
  /-- The clock, in seconds, unless it stands before its epoch. -/
  now : Option UInt64
  /-- Randomness other than signing nonces. -/
  entropy : Bytes
  write : WriteOutcome

/-- One value of a reply. -/
inductive Field where
  | number (value : ℕ)
  | flag (value : Bool)
  | text (value : String)
  | bytes (value : Bytes)
  | packages (value : List SealedPackage)
  | absent

def Field.optional : Option Bytes → Field
  | some value => .bytes value
  | none => .absent

inductive Reply where
  | wire (bytes : Bytes)
  | object (fields : List (String × Field))

section Persistence

variable {P : Type} {lib : PartyLibrary P}

variable (party : ProofParty lib)

def ProofParty.number : ℕ := party.config.node + 1

def theParty : Method (Node lib) (ProofParty lib) := fun node => (.ok node.party, node)

def update (change : ProofParty lib → ProofParty lib) : Method (Node lib) Unit :=
  Method.modify fun node => { node with party := change node.party }

def record (event : Event P) : Method (Node lib) Unit :=
  Method.modify fun node => { node with journal := node.journal ++ [event] }

/-- Encode the secrets of the signing group for the state file. -/
def ProofParty.durablePackages : Except String (DurablePackages lib) := do
  let frostKeyPackage ← onSome party.frostKey fun key =>
    orRefuse (lib.frost.keyPackage.serialize key) "FROST key package serialization failed"
  let frostPublicPackage ← onSome party.frostPublic fun key =>
    orRefuse (lib.quorum.serialize key) "FROST public package serialization failed"
  let frostDkgRound1 ← onSome party.dkgRound1 fun pending => do
    let secret ← orRefuse (lib.frost.round1Secret.serialize pending.secret)
      "FROST round-one secret serialization failed"
    .ok (secret, pending.broadcastPackage)
  let frostDkgRound2 ← onSome party.dkgRound2 fun pending => do
    let peers ← orRefuse party.peers "FROST round-two state has no authenticated peer manifest"
    let secret ← orRefuse (lib.frost.round2Secret.serialize pending.secret)
      "FROST round-two secret serialization failed"
    .ok (secret, peers.session, peers.entries, pending.round1Package, pending.broadcastsDigest,
      pending.encrypted)
  .ok ⟨frostKeyPackage, frostPublicPackage, frostDkgRound1, frostDkgRound2⟩

def ProofParty.durableWith (generation : UInt64) (packages : DurablePackages lib) :
    DurableProofState lib where
  generation := generation
  proofConfigurationDigest := party.config.securityDigest lib
  node := party.config.node
  nMm := party.config.nMm
  nParties := party.config.nParties
  threshold := party.config.threshold
  trustedDefmiReceiptPublic := party.config.trustedDefmiReceiptPublic
  keys := party.keys
  pqCommittee := party.pqCommittee
  pqIdentityCache := party.pqIdentityCache
  frostSession := party.frostSession
  frostDkgFinalizeDigest := party.frostDkgFinalizeDigest
  frostPeerManifest := party.peers.map fun peers => (peers.session, peers.entries)
  packages := packages
  frostReserved := party.frostReserved
  frostConsumed := party.frostConsumed
  frostAuthorized := party.frostAuthorized
  publicationConsumed := party.publicationConsumed
  optimisticProposals := party.optimisticProposals
  proofReserved := party.reserved
  proofCompleted := party.completed
  completedEvidence := party.completedEvidence
  applicationControls := party.applicationControls

def ProofParty.durableState (generation : UInt64) : Except String (DurableProofState lib) := do
  let packages ← party.durablePackages
  .ok (party.durableWith generation packages)

/-- Write the state file. The mark is what becomes true once the file is in place. -/
def persist (env : Env) (mark : List (Event P)) : Method (Node lib) Unit := fun node =>
  match checkedAdd node.party.stateGeneration 1 with
  | none => (.error "proof-party state generation overflow", node)
  | some generation =>
    match node.party.durableState generation with
    | .error message => (.error message, node)
    | .ok state =>
      let written := { node with disk := some state, journal := node.journal ++ mark }
      match env.write with
      | .stored =>
        (.ok (), { written with party := { node.party with stateGeneration := generation } })
      | .failed applied reason =>
        (.error ("proof-party durable state failed; node is fail-closed: " ++ reason),
          { (if applied then written else node) with
            party := { node.party with stateHealthy := false } })
      | .crashed applied => (.error "", { (if applied then written else node) with down := true })

end Persistence

end Zkpi.ProofPartyState
