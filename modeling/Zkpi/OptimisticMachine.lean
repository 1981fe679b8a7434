import Zkpi.ByteText
import Zkpi.CheckedIntegers
import Zkpi.KeyedTables
import Zkpi.StatefulMethods
import Zkpi.RecordedRuns

/-!
# The optimistic assurance state machine

Policies are enrolled, executions are registered, escrow is credited and
withdrawn, and a proposal becomes a claim that can be challenged, answered and
advanced. Every operation is the source's method on the mutable state: its
checks in their order, its error texts and the point at which it writes.

SHA-256 is an arbitrary function of the hashed bytes, and a host's
authentication scheme and proof verifiers are arbitrary functions passed with
each call. The serialization that is hashed is written out. Environment
parsing, signing helpers and snapshot validation are not part of this module.
-/

namespace Zkpi.OptimisticMachine

open ByteText CheckedIntegers KeyedTables StatefulMethods StatefulMethods.Method

/-- A host's check that an identity signed a message. -/
structure ClaimAuthentication where
  /-- Accepts or rejects a signature of an identity over a message. -/
  verify : Digest32 → Bytes → Bytes → Except String Unit

structure ExecutionContext where
  network : Digest32
  application : Digest32
  verifier : Digest32
  job : Digest32
  inputRoot : Digest32
  beforeState : Digest32
deriving DecidableEq

/-- Enrolled collateral sizes, time windows and identities. -/
structure OptimisticPolicy where
  network : Digest32
  application : Digest32
  verifier : Digest32
  proposer : Digest32
  bondAsset : Digest32
  proposerBond : UInt64
  challengerBond : UInt64
  challengeWindowSeconds : UInt64
  responseWindowSeconds : UInt64
deriving DecidableEq

/-- A signed assertion of one output for one execution. -/
structure Proposal where
  policy : Digest32
  context : ExecutionContext
  outputRoot : Digest32
  /-- Deadline for accepting this signed proposal, not the challenge deadline. -/
  validUntil : UInt64
  signature : Bytes
deriving DecidableEq

/-- A signed demand for the proof behind a claim. -/
structure Challenge where
  claim : Digest32
  challenger : Digest32
  signature : Bytes
deriving DecidableEq

inductive ClaimStatus where
  | pending
  | challenged (challenger : Digest32) (responseDeadline : UInt64)
  | proven (proof : Digest32)
  | finalized (proof : Option Digest32)
  | rejected (challenger : Digest32) (proof : Option Digest32)
deriving DecidableEq

def ClaimStatus.isFinalized : ClaimStatus → Bool
  | .finalized _ => true
  | _ => false

/-- An accepted proposal with the policy and the times it was accepted under. -/
structure Claim where
  proposal : Proposal
  policy : OptimisticPolicy
  acceptedAt : UInt64
  challengeDeadline : UInt64
  status : ClaimStatus
deriving DecidableEq

structure ChallengeVerifier where
  /-- The identity a policy enrolls. -/
  verifierId : Digest32
  verify : ExecutionContext → Bytes → Except String Digest32

/-- Escrowed funds of one owner in one asset. -/
structure BondAccount where
  available : UInt64 := 0
  locked : UInt64 := 0
deriving DecidableEq

structure RegisteredExecution where
  policy : Digest32
  context : ExecutionContext
  validUntil : UInt64
deriving DecidableEq

structure OptimisticState where
  policies : Table String OptimisticPolicy := ∅
  executions : Table String RegisteredExecution := ∅
  claims : Table String Claim := ∅
  jobs : Table String Digest32 := ∅
  bonds : Table String BondAccount := ∅

def OptimisticState.default : OptimisticState := {}

section Digests

variable (sha256 : Bytes → Digest32)

/-- The hash of a domain tag followed by the compact JSON of a value. Writing
plain records as JSON cannot fail. -/
def digest (domain : String) (value : Json) : Digest32 :=
  sha256 (utf8 domain ++ value.render)

def ExecutionContext.toJson (context : ExecutionContext) : Json :=
  .object [("network", .digest context.network), ("application", .digest context.application),
    ("verifier", .digest context.verifier), ("job", .digest context.job),
    ("input_root", .digest context.inputRoot), ("before_state", .digest context.beforeState)]

def OptimisticPolicy.toJson (policy : OptimisticPolicy) : Json :=
  .object [("network", .digest policy.network), ("application", .digest policy.application),
    ("verifier", .digest policy.verifier), ("proposer", .digest policy.proposer),
    ("bond_asset", .digest policy.bondAsset),
    ("proposer_bond", .number policy.proposerBond.toNat),
    ("challenger_bond", .number policy.challengerBond.toNat),
    ("challenge_window_seconds", .number policy.challengeWindowSeconds.toNat),
    ("response_window_seconds", .number policy.responseWindowSeconds.toNat)]

def OptimisticPolicy.validate (policy : OptimisticPolicy) : Except String Unit :=
  if zeroDigest ∈ [policy.network, policy.application, policy.verifier, policy.proposer,
      policy.bondAsset]
      ∨ policy.proposerBond = 0 ∨ policy.challengerBond = 0
      ∨ policy.challengeWindowSeconds = 0 ∨ policy.responseWindowSeconds = 0 then
    .error "optimistic policy has an empty identity, bond or deadline"
  else .ok ()

def OptimisticPolicy.digest (policy : OptimisticPolicy) : Except String Digest32 := do
  policy.validate
  pure (OptimisticMachine.digest sha256 "zkFMI:optimistic:policy:v1" policy.toJson)

def Proposal.signingDigest (proposal : Proposal) : Digest32 :=
  digest sha256 "zkFMI:optimistic:proposal:v1"
    (.array [.digest proposal.policy, proposal.context.toJson, .digest proposal.outputRoot,
      .number proposal.validUntil.toNat])

def Proposal.id (proposal : Proposal) : Digest32 := proposal.signingDigest sha256

def Proposal.verify (proposal : Proposal) (policy : OptimisticPolicy) (now : UInt64)
    (authentication : ClaimAuthentication) : Except String Unit := do
  let policyDigest ← policy.digest sha256
  if proposal.policy ≠ policyDigest
      ∨ proposal.context.network ≠ policy.network
      ∨ proposal.context.application ≠ policy.application
      ∨ proposal.context.verifier ≠ policy.verifier
      ∨ zeroDigest ∈ [proposal.context.job, proposal.context.inputRoot,
        proposal.context.beforeState, proposal.outputRoot]
      ∨ now > proposal.validUntil then
    .error "optimistic proposal has another scope, empty binding or expired admission"
  else
    authentication.verify policy.proposer (proposal.signingDigest sha256).toList
      proposal.signature

def Challenge.signingDigest (challenge : Challenge) : Digest32 :=
  digest sha256 "zkFMI:optimistic:challenge:v1"
    (.array [.digest challenge.claim, .digest challenge.challenger])

def jobKey (context : ExecutionContext) : String :=
  hexEncode (digest sha256 "zkFMI:optimistic:job:v1"
    (.array [.digest context.network, .digest context.application, .digest context.job])).toList

/-- The index of an escrow account. -/
def bondKey (asset owner : Digest32) : String := joinedKey asset owner

end Digests

namespace OptimisticState

variable (self : OptimisticState)

def policy (id : Digest32) : Option OptimisticPolicy :=
  self.policies.lookup (hexEncode id.toList)

def claim (id : Digest32) : Option Claim :=
  self.claims.lookup (hexEncode id.toList)

variable (asset owner : Digest32)

def bond : BondAccount :=
  (self.bonds.lookup (bondKey asset owner)).getD {}

def setBond (account : BondAccount) : OptimisticState :=
  { self with bonds := self.bonds.insert (bondKey asset owner) account }

def setClaim (id : Digest32) (claim : Claim) : OptimisticState :=
  { self with claims := self.claims.insert (hexEncode id.toList) claim }

variable (amount : UInt64)

def creditEscrow : Method OptimisticState Unit := do
  failIf (asset = zeroDigest ∨ owner = zeroDigest ∨ amount = 0)
    "invalid optimistic escrow credit"
  let self ← read
  let account := self.bond asset owner
  let available ← need (checkedAdd account.available amount) "escrow overflow"
  write (self.setBond asset owner { account with available := available })

def withdrawEscrow : Method OptimisticState Unit := do
  failIf (amount = 0) "zero escrow withdrawal"
  let self ← read
  let account := self.bond asset owner
  let available ← need (checkedSub account.available amount) "insufficient unlocked escrow"
  write (self.setBond asset owner { account with available := available })

def lock : Method OptimisticState Unit := do
  let self ← read
  let account := self.bond asset owner
  let available ← need (checkedSub account.available amount) "insufficient optimistic collateral"
  let locked ← need (checkedAdd account.locked amount) "locked collateral overflow"
  write (self.setBond asset owner { available := available, locked := locked })

/-- Move locked funds of one owner to the available funds of another. The
debit is stored before the credit is tried. -/
def award (asset source target : Digest32) (amount : UInt64) : Method OptimisticState Unit := do
  let self ← read
  let debit := self.bond asset source
  let locked ← need (checkedSub debit.locked amount) "inconsistent locked collateral"
  write (self.setBond asset source { debit with locked := locked })
  creditEscrow asset target amount

def unlock : Method OptimisticState Unit :=
  award asset owner owner amount

def resolveBonds (policy : OptimisticPolicy) (challenger : Digest32) (valid : Bool) :
    Method OptimisticState Unit := do
  let beneficiary := if valid then policy.proposer else challenger
  award policy.bondAsset policy.proposer beneficiary policy.proposerBond
  award policy.bondAsset challenger beneficiary policy.challengerBond

section Operations

variable (sha256 : Bytes → Digest32)

def enrollPolicy (policy : OptimisticPolicy) : Method OptimisticState Digest32 := do
  let id ← lift (policy.digest sha256)
  let self ← read
  failIf (hexEncode id.toList ∈ self.policies) "optimistic policy is already enrolled"
  write { self with policies := self.policies.insert (hexEncode id.toList) policy }
  pure id

def registerExecution (execution : RegisteredExecution) : Method OptimisticState Unit := do
  let self ← read
  let policy ← need (self.policy execution.policy) "execution policy is not enrolled"
  failIf (execution.context.network ≠ policy.network
      ∨ execution.context.application ≠ policy.application
      ∨ execution.context.verifier ≠ policy.verifier
      ∨ execution.validUntil = 0
      ∨ zeroDigest ∈ [execution.context.job, execution.context.inputRoot,
        execution.context.beforeState])
    "execution does not match enrolled scope"
  let id := jobKey sha256 execution.context
  failIf (id ∈ self.executions) "execution inputs are already registered"
  write { self with executions := self.executions.insert id execution }

def propose (proposal : Proposal) (now : UInt64) (authentication : ClaimAuthentication) :
    Method OptimisticState Digest32 := do
  let self ← read
  let policy ← need (self.policy proposal.policy) "optimistic policy is not enrolled"
  lift (proposal.verify sha256 policy now authentication)
  let id := proposal.id sha256
  let job := jobKey sha256 proposal.context
  let execution ← need (self.executions.lookup job)
    "optimistic execution inputs are not registered"
  failIf (execution.context ≠ proposal.context
      ∨ execution.policy ≠ proposal.policy
      ∨ proposal.validUntil > execution.validUntil
      ∨ ((checkedAdd now policy.challengeWindowSeconds).bind fun value =>
          checkedAdd value policy.responseWindowSeconds).all
        fun deadline => deadline > execution.validUntil)
    "proposal differs from admitted inputs or exceeds the execution deadline"
  failIf (hexEncode id.toList ∈ self.claims ∨ job ∈ self.jobs)
    "optimistic execution already has a claim"
  let challengeDeadline ← need (checkedAdd now policy.challengeWindowSeconds)
    "challenge now overflow"
  let next ← onCopy self (lock policy.bondAsset policy.proposer policy.proposerBond)
  let next := next.setClaim id
    { proposal := proposal, policy := policy, acceptedAt := now,
      challengeDeadline := challengeDeadline, status := .pending }
  write { next with jobs := next.jobs.insert job id }
  pure id

def challenge (request : Challenge) (now : UInt64) (authentication : ClaimAuthentication) :
    Method OptimisticState Unit := do
  lift (authentication.verify request.challenger (request.signingDigest sha256).toList
    request.signature)
  let self ← read
  let claim ← need (self.claim request.claim) "unknown optimistic claim"
  failIf (claim.status ≠ .pending ∨ now < claim.acceptedAt ∨ now ≥ claim.challengeDeadline)
    "optimistic claim is outside its challenge window"
  failIf (request.challenger = claim.policy.proposer)
    "proposer cannot occupy its own challenge slot"
  let responseDeadline ← need (checkedAdd now claim.policy.responseWindowSeconds)
    "response now overflow"
  let next ← onCopy self
    (lock claim.policy.bondAsset request.challenger claim.policy.challengerBond)
  write (next.setClaim request.claim
    { claim with status := .challenged request.challenger responseDeadline })

/-- A verified proof resolves a challenge: for the proposer if it establishes
the claimed output, against it if it establishes another one. -/
def answer (id : Digest32) (proof : Bytes) (verifier : ChallengeVerifier) (now : UInt64) :
    Method OptimisticState Unit := do
  let self ← read
  let claim ← need (self.claim id) "unknown optimistic claim"
  match claim.status with
  | .challenged challenger responseDeadline =>
    failIf (now < claim.acceptedAt ∨ now ≥ responseDeadline
        ∨ verifier.verifierId ≠ claim.policy.verifier)
      "challenge proof has a late timestamp or another verifier"
    let output ← lift (verifier.verify claim.proposal.context proof)
    let evidence := sha256 proof
    if output = claim.proposal.outputRoot then
      let next ← onCopy self (award claim.policy.bondAsset challenger
        claim.policy.proposer claim.policy.challengerBond)
      write (next.setClaim id { claim with status := .proven evidence })
    else
      let next ← onCopy self (resolveBonds claim.policy challenger false)
      write (next.setClaim id { claim with status := .rejected challenger (some evidence) })
  | _ => fail "optimistic claim has no unresolved challenge"

end Operations

def finalize (id : Digest32) (claim : Claim) (proof : Option Digest32) :
    Method OptimisticState Unit := do
  let next ← onCopy self
    (unlock claim.policy.bondAsset claim.policy.proposer claim.policy.proposerBond)
  write (next.setClaim id { claim with status := .finalized proof })

def notElapsed : String := "optimistic deadline has not elapsed or claim is terminal"

/-- Anyone may use an elapsed deadline. -/
def advance (id : Digest32) (now : UInt64) : Method OptimisticState Unit := do
  let self ← read
  let claim ← need (self.claim id) "unknown optimistic claim"
  match claim.status with
  | .pending =>
    failIf (now < claim.challengeDeadline) notElapsed
    finalize self id claim none
  | .proven proof =>
    failIf (now < claim.challengeDeadline) notElapsed
    finalize self id claim (some proof)
  | .challenged challenger responseDeadline =>
    failIf (now < responseDeadline) notElapsed
    let next ← onCopy self (resolveBonds claim.policy challenger false)
    write (next.setClaim id { claim with status := .rejected challenger none })
  | _ => fail notElapsed

def requireFinalized (id : Digest32) (context : ExecutionContext) (outputRoot : Digest32) :
    Except String Claim :=
  match self.claim id with
  | none => .error "unknown optimistic claim"
  | some claim =>
    if claim.proposal.context ≠ context ∨ claim.proposal.outputRoot ≠ outputRoot
        ∨ ¬ claim.status.isFinalized then
      .error "optimistic execution is not finalized for this settlement"
    else .ok claim

end OptimisticState

/-! ## Runs -/

/-- A call on the state with all of its arguments. -/
inductive Operation where
  | enrollPolicy (policy : OptimisticPolicy)
  | registerExecution (execution : RegisteredExecution)
  | creditEscrow (asset owner : Digest32) (amount : UInt64)
  | withdrawEscrow (asset owner : Digest32) (amount : UInt64)
  | propose (proposal : Proposal) (now : UInt64) (authentication : ClaimAuthentication)
  | challenge (request : Challenge) (now : UInt64) (authentication : ClaimAuthentication)
  | answer (id : Digest32) (proof : Bytes) (verifier : ChallengeVerifier) (now : UInt64)
  | advance (id : Digest32) (now : UInt64)

/-- What a successful call returns. -/
inductive Reply where
  | done
  | identity (id : Digest32)
deriving DecidableEq

def Operation.method (sha256 : Bytes → Digest32) : Operation → Method OptimisticState Reply
  | .enrollPolicy policy => Reply.identity <$> OptimisticState.enrollPolicy sha256 policy
  | .registerExecution execution =>
    (fun _ => Reply.done) <$> OptimisticState.registerExecution sha256 execution
  | .creditEscrow asset owner amount =>
    (fun _ => Reply.done) <$> OptimisticState.creditEscrow asset owner amount
  | .withdrawEscrow asset owner amount =>
    (fun _ => Reply.done) <$> OptimisticState.withdrawEscrow asset owner amount
  | .propose proposal now authentication =>
    Reply.identity <$> OptimisticState.propose sha256 proposal now authentication
  | .challenge request now authentication =>
    (fun _ => Reply.done) <$> OptimisticState.challenge sha256 request now authentication
  | .answer id proof verifier now =>
    (fun _ => Reply.done) <$> OptimisticState.answer sha256 id proof verifier now
  | .advance id now => (fun _ => Reply.done) <$> OptimisticState.advance id now

/-- A recorded call with its result. -/
abbrev Event := Operation × Except String Reply

def step (sha256 : Bytes → Digest32) (s : OptimisticState) (op : Operation) :
    Except String Reply × OptimisticState := op.method sha256 s

abbrev runOf (sha256 : Bytes → Digest32) (ops : List Operation) :=
  RecordedRuns.run (step sha256) OptimisticState.default ops

end Zkpi.OptimisticMachine
