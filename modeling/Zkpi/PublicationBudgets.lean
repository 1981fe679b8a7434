import Zkpi.ByteText
import Zkpi.CheckedIntegers
import Zkpi.FallibleChecks
import Zkpi.KeyedTables
import Zkpi.StatefulMethods

/-!
# Privacy budgets and publication certificates

A statistic is published under a certificate of the nodes that computed it. The certificate
states what was released, how much of a legal entity's privacy budget the release costs, and
which certificate it follows. A ledger holds the budgets that governance approved; it debits a
budget, stores the newest certificate and marks the operation as done in one write of its file.

Hashes, signatures and the JSON writer are arbitrary functions, and so are the two computations
with floating-point numbers: the `delta` a mechanism is certified with and the check of a stated
`delta` against the mechanism. What the file system answers is given with each call; a write
either replaces the whole state or fails.
-/

namespace Zkpi.PublicationBudgets

open ByteText CheckedIntegers FallibleChecks KeyedTables StatefulMethods StatefulMethods.Method
open Std (TreeMap)

/-- A value of a JSON object. -/
inductive Field where
  | text (value : String)
  | number (value : ℤ)
  | bytes (value : Bytes)

structure DpMechanism where
  epsilonMicros : UInt64
  sensitivity : UInt64
  support : UInt16
  version : String

structure PublicationLibrary where
  sha256 : Bytes → Digest32
  /-- Whether a public key accepts a signature on a message. -/
  verify : Bytes → Bytes → Bytes → Bool
  json : List (String × Field) → Bytes
  certificateDelta : DpMechanism → Except String (UInt64 × ℕ)
  checkDelta : DpMechanism → UInt64 → ℕ → Except String Unit

variable (lib : PublicationLibrary)

def DpMechanism.digest (mechanism : DpMechanism) : Digest32 :=
  lib.sha256 (utf8 "QOMM:DISTRIBUTED-DP:v1" ++ utf8 mechanism.version ++
    beBytes 8 mechanism.epsilonMicros.toNat ++ beBytes 8 mechanism.sensitivity.toNat ++
    beBytes 4 mechanism.support.toNat)

/-! ## Registries and signatures -/

abbrev Registry := TreeMap String Bytes

/-- Every key has both of its parts, and no part is shared between two signers. -/
def independentRegistry (registry : Registry) : Bool :=
  registry.values.all (·.length = 1984) &&
    (registry.values.map (·.take 32)).toFinset.card = registry.size &&
    (registry.values.map (·.drop 32)).toFinset.card = registry.size

structure NodeSignature where
  nodeId : String
  signature : Bytes
  deriving DecidableEq

def countGood (good : NodeSignature → Bool) : List String → List NodeSignature → ℕ
  | _, [] => 0
  | seen, signed :: rest =>
    (if signed.nodeId ∉ seen ∧ good signed then 1 else 0) +
      countGood good (signed.nodeId :: seen) rest

def signers (registry : Registry) (body : Bytes) (signatures : List NodeSignature) : ℕ :=
  countGood (fun signed => match registry[signed.nodeId]? with
    | none => false
    | some key => lib.verify key body signed.signature) [] signatures

/-! ## Statements and certificates -/

/-- What is released and what it costs. -/
structure PublicationStatement where
  operationId : Digest32
  budgetScope : Digest32
  venue : String
  epoch : UInt64
  slotStart : UInt64
  slotEnd : UInt64
  sourceDigest : Digest32
  ruleDigest : Digest32
  mechanismDigest : Digest32
  privateInputCommitment : Digest32
  transcriptDigest : Digest32
  outputName : String
  outputValue : Int64
  epsilonMicros : UInt64
  deltaNumerator : UInt64
  deltaDenominator : ℕ
  budgetTotalMicros : UInt64
  budgetBeforeMicros : UInt64
  budgetAfterMicros : UInt64
  previousCertificate : Digest32
  deriving DecidableEq

def PublicationStatement.validate (statement : PublicationStatement) : Except String Unit := do
  refuseIf (statement.venue = "" ∨ statement.outputName = "") "venue and output name are required"
  refuseIf (statement.slotEnd < statement.slotStart) "invalid epoch or slot range"
  refuseIf (statement.epsilonMicros = 0) "epsilon must be positive"
  refuseIf (zeroDigest ∈ [statement.operationId, statement.budgetScope, statement.sourceDigest,
      statement.ruleDigest, statement.mechanismDigest, statement.privateInputCommitment,
      statement.transcriptDigest])
    "publication statement contains an unbound digest"
  refuseIf (statement.deltaDenominator = 0 ∨
      statement.deltaDenominator ≤ statement.deltaNumerator.toNat)
    "delta must be a proper non-negative fraction"
  refuseIf (statement.budgetAfterMicros < statement.budgetBeforeMicros ∨
      statement.budgetTotalMicros < statement.budgetAfterMicros)
    "invalid privacy budget transition"
  refuseIf (statement.budgetAfterMicros - statement.budgetBeforeMicros ≠ statement.epsilonMicros)
    "privacy budget transition does not equal epsilon spent"

def PublicationStatement.validateAgainst (statement : PublicationStatement)
    (mechanism : DpMechanism) : Except String Unit := do
  statement.validate
  refuseIf (statement.mechanismDigest ≠ mechanism.digest lib)
    "statement does not name this mechanism"
  refuseIf (statement.epsilonMicros ≠ mechanism.epsilonMicros)
    "statement epsilon does not match the mechanism"
  lib.checkDelta mechanism statement.deltaNumerator statement.deltaDenominator

/-- The message a certificate's signatures are on. -/
def PublicationStatement.body (statement : PublicationStatement) : Except String Bytes := do
  statement.validate
  .ok (utf8 "QOMM:PUBLICATION-CERTIFICATE:v2" ++ lib.json
    [("operation_id", .text (hexEncode statement.operationId.toList)),
      ("budget_scope", .text (hexEncode statement.budgetScope.toList)),
      ("venue", .text statement.venue),
      ("epoch", .number statement.epoch.toNat),
      ("slot_start", .number statement.slotStart.toNat),
      ("slot_end", .number statement.slotEnd.toNat),
      ("source_digest", .text (hexEncode statement.sourceDigest.toList)),
      ("rule_digest", .text (hexEncode statement.ruleDigest.toList)),
      ("mechanism_digest", .text (hexEncode statement.mechanismDigest.toList)),
      ("private_input_commitment", .text (hexEncode statement.privateInputCommitment.toList)),
      ("transcript_digest", .text (hexEncode statement.transcriptDigest.toList)),
      ("output_name", .text statement.outputName),
      ("output_value", .number statement.outputValue.toInt),
      ("epsilon_micros", .number statement.epsilonMicros.toNat),
      ("delta_numerator", .number statement.deltaNumerator.toNat),
      ("delta_denominator", .number statement.deltaDenominator),
      ("budget_total_micros", .number statement.budgetTotalMicros.toNat),
      ("budget_before_micros", .number statement.budgetBeforeMicros.toNat),
      ("budget_after_micros", .number statement.budgetAfterMicros.toNat),
      ("previous_certificate", .text (hexEncode statement.previousCertificate.toList))])

/-- A statement with the signatures of the nodes. -/
structure PublicationCertificate where
  statement : PublicationStatement
  signatures : List NodeSignature
  deriving DecidableEq

def PublicationCertificate.digest (certificate : PublicationCertificate) :
    Except String Digest32 := do
  let body ← certificate.statement.body lib
  .ok (lib.sha256 (body ++
    (certificate.signatures.insertionSort fun left right => left.nodeId ≤ right.nodeId).flatMap
      fun signed => utf8 signed.nodeId ++ signed.signature))

def PublicationStatement.follows (statement : PublicationStatement) :
    Option PublicationCertificate → Bool
  | none => statement.previousCertificate = zeroDigest
  | some previous =>
    previous.digest lib = .ok statement.previousCertificate &&
      previous.statement.epoch < statement.epoch &&
      statement.budgetBeforeMicros = previous.statement.budgetAfterMicros &&
      statement.budgetScope = previous.statement.budgetScope &&
      statement.venue = previous.statement.venue &&
      statement.outputName = previous.statement.outputName &&
      statement.budgetTotalMicros = previous.statement.budgetTotalMicros

/-- Whether enough signers of a registry certify a statement that follows the certificate
before it. -/
def PublicationCertificate.verify (certificate : PublicationCertificate) (registry : Registry)
    (threshold : ℕ) (previous : Option PublicationCertificate) : Bool :=
  independentRegistry registry && certificate.statement.validate = .ok () &&
    (1 ≤ threshold && threshold ≤ registry.size) && certificate.statement.follows lib previous &&
    match certificate.statement.body lib with
    | .error _ => false
    | .ok body => threshold ≤ signers lib registry body certificate.signatures

/-! ## Stored records -/

structure BudgetAllocation where
  budgetScope : Digest32
  venue : String
  outputName : String
  totalMicros : UInt64
  policyVersion : UInt64
  deriving DecidableEq

def isWhitespace (c : Char) : Bool :=
  (9 ≤ c.toNat && c.toNat ≤ 13) || (0x2000 ≤ c.toNat && c.toNat ≤ 0x200a) ||
    c.toNat ∈ [0x20, 0x85, 0xa0, 0x1680, 0x2028, 0x2029, 0x202f, 0x205f, 0x3000]

def isBlank (text : String) : Bool := text.toList.all isWhitespace

def BudgetAllocation.body (allocation : BudgetAllocation) : Except String Bytes := do
  refuseIf (allocation.budgetScope = zeroDigest ∨ isBlank allocation.venue ∨
      isBlank allocation.outputName ∨ allocation.totalMicros = 0 ∨ allocation.policyVersion = 0)
    "privacy-budget allocation is incomplete"
  .ok (utf8 "QOMM:DP:BUDGET-ALLOCATION:v1" ++ lib.json
    [("budget_scope", .bytes allocation.budgetScope.toList), ("venue", .text allocation.venue),
      ("output_name", .text allocation.outputName),
      ("total_micros", .number allocation.totalMicros.toNat),
      ("policy_version", .number allocation.policyVersion.toNat)])

structure StoredSignature where
  nodeId : String
  signature : String
  deriving DecidableEq

def storedSignatures (signatures : List NodeSignature) : List StoredSignature :=
  signatures.map fun signed => ⟨signed.nodeId, hexEncode signed.signature⟩

structure StoredCertificate where
  statement : PublicationStatement
  signatures : List StoredSignature
  deriving DecidableEq

def StoredCertificate.fromCertificate (certificate : PublicationCertificate) :
    StoredCertificate :=
  ⟨certificate.statement, storedSignatures certificate.signatures⟩

def StoredSignature.load (signed : StoredSignature) : Except String NodeSignature := do
  let raw ← orRefuse (hexDecode signed.signature) "stored publication signature is malformed"
  refuseIf (raw.length ≠ 3373)
    "legacy publication requires an archived checkpoint and explicit PQ migration"
  .ok ⟨signed.nodeId, raw⟩

def StoredCertificate.certificate (stored : StoredCertificate) :
    Except String PublicationCertificate := do
  let signatures ← stored.signatures.mapM StoredSignature.load
  .ok ⟨stored.statement, signatures⟩

structure BudgetRecord where
  allocation : BudgetAllocation
  allocationSignatures : List StoredSignature
  spentMicros : UInt64
  lastEpoch : UInt64
  latest : Option StoredCertificate
  deriving DecidableEq

structure LedgerState where
  generation : UInt64
  budgets : Table String BudgetRecord
  operations : Table String String

def LedgerState.empty : LedgerState := ⟨0, ∅, ∅⟩

structure PublicationLedger where
  publicationRegistry : Registry
  publicationThreshold : ℕ
  governanceRegistry : Registry
  governanceThreshold : ℕ

/-- What the file system answers to a call. -/
structure Disk where
  lock : Except String Unit
  read : Except String Unit
  write : Except String Unit

/-- Replace the file, or fail and leave it as it is. -/
def writeUnlocked (disk : Disk) (next : LedgerState) : Method LedgerState Unit := do
  lift disk.write
  write next

def budgetKey (scope : Digest32) (venue outputName : String) : String :=
  hexEncode (lib.sha256 (utf8 "QOMM:DP:BUDGET-KEY:v1" ++ scope.toList ++
    beBytes 8 (utf8 venue).length ++ utf8 venue ++ beBytes 8 (utf8 outputName).length ++
    utf8 outputName)).toList

def BudgetAllocation.key (allocation : BudgetAllocation) : String :=
  budgetKey lib allocation.budgetScope allocation.venue allocation.outputName

def PublicationStatement.key (statement : PublicationStatement) : String :=
  budgetKey lib statement.budgetScope statement.venue statement.outputName

/-- A release to be certified. -/
structure PublicationRequest where
  operationId : Digest32
  budgetScope : Digest32
  venue : String
  epoch : UInt64
  slotStart : UInt64
  slotEnd : UInt64
  sourceDigest : Digest32
  ruleDigest : Digest32
  privateInputCommitment : Digest32
  transcriptDigest : Digest32
  outputName : String
  outputValue : Int64

def PublicationRequest.key (request : PublicationRequest) : String :=
  budgetKey lib request.budgetScope request.venue request.outputName

def PublicationRequest.statement (request : PublicationRequest) (mechanism : DpMechanism)
    (budget : BudgetRecord) (after : UInt64) (delta : UInt64 × ℕ) (previous : Option Digest32) :
    PublicationStatement where
  operationId := request.operationId
  budgetScope := request.budgetScope
  venue := request.venue
  epoch := request.epoch
  slotStart := request.slotStart
  slotEnd := request.slotEnd
  sourceDigest := request.sourceDigest
  ruleDigest := request.ruleDigest
  mechanismDigest := mechanism.digest lib
  privateInputCommitment := request.privateInputCommitment
  transcriptDigest := request.transcriptDigest
  outputName := request.outputName
  outputValue := request.outputValue
  epsilonMicros := mechanism.epsilonMicros
  deltaNumerator := delta.1
  deltaDenominator := delta.2
  budgetTotalMicros := budget.allocation.totalMicros
  budgetBeforeMicros := budget.spentMicros
  budgetAfterMicros := after
  previousCertificate := previous.getD zeroDigest

def BudgetRecord.debit (budget : BudgetRecord) (after : UInt64)
    (certificate : PublicationCertificate) : BudgetRecord :=
  { budget with
    spentMicros := after
    lastEpoch := certificate.statement.epoch
    latest := some (.fromCertificate certificate) }

variable (ledger : PublicationLedger)

def configureBudget (allocation : BudgetAllocation) (signatures : List NodeSignature)
    (disk : Disk) : Method LedgerState Unit := do
  let body ← lift (allocation.body lib)
  failIf (¬ (independentRegistry ledger.governanceRegistry ∧ ledger.governanceThreshold ≤
      signers lib ledger.governanceRegistry body signatures))
    "privacy-budget allocation lacks 3-of-7 approval"
  lift disk.lock
  lift disk.read
  let state ← read
  failIf ((state.budgets.lookup (allocation.key lib)).isSome)
    "privacy-budget allocation already exists; budgets cannot be reset"
  let generation ← need (checkedAdd state.generation 1) "publication-ledger generation overflow"
  writeUnlocked disk
    { state with
      generation
      budgets := state.budgets.insert (allocation.key lib)
        ⟨allocation, storedSignatures signatures, 0, 0, none⟩ }

/-- Debit a budget and append a certificate to its chain. The signatures are collected while
the lock is held. -/
def publishWith (request : PublicationRequest) (mechanism : DpMechanism)
    (sign : PublicationStatement → Except String (List NodeSignature)) (disk : Disk) :
    Method LedgerState PublicationCertificate := do
  failIf (request.operationId = zeroDigest) "publication operation identifier is required"
  lift disk.lock
  lift disk.read
  let state ← read
  failIf ((state.operations.lookup (hexEncode request.operationId.toList)).isSome)
    "publication operation was already committed"
  let budget ← need (state.budgets.lookup (request.key lib))
    "no approved privacy budget for this legal-entity scope"
  failIf (request.venue ≠ budget.allocation.venue ∨
      request.outputName ≠ budget.allocation.outputName ∨ request.epoch ≤ budget.lastEpoch)
    "publication scope or epoch does not follow its budget state"
  let after ← need (checkedAdd budget.spentMicros mechanism.epsilonMicros)
    "privacy budget exhausted"
  failIf (budget.allocation.totalMicros < after) "privacy budget exhausted"
  let previous ← lift (onSome budget.latest StoredCertificate.certificate)
  let delta ← lift (lib.certificateDelta mechanism)
  let link ← lift (onSome previous (PublicationCertificate.digest lib))
  lift ((request.statement lib mechanism budget after delta link).validateAgainst lib mechanism)
  let signatures ← lift (sign (request.statement lib mechanism budget after delta link))
  failIf (¬ PublicationCertificate.verify lib
      ⟨request.statement lib mechanism budget after delta link, signatures⟩
      ledger.publicationRegistry ledger.publicationThreshold previous)
    "publication lacks a valid 3-of-7 certificate or budget chain"
  let digest ← lift (PublicationCertificate.digest lib
    ⟨request.statement lib mechanism budget after delta link, signatures⟩)
  let generation ← need (checkedAdd state.generation 1) "publication-ledger generation overflow"
  writeUnlocked disk
    { generation
      budgets := state.budgets.insert (request.key lib) (budget.debit after
        ⟨request.statement lib mechanism budget after delta link, signatures⟩)
      operations := state.operations.insert (hexEncode request.operationId.toList)
        (hexEncode digest.toList) }
  pure ⟨request.statement lib mechanism budget after delta link, signatures⟩

end Zkpi.PublicationBudgets
