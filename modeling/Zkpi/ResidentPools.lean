import Zkpi.ByteText
import Zkpi.CheckedIntegers
import Zkpi.FallibleChecks
import Zkpi.ScalarField

/-!
# Resident shares of standing pools

A node keeps its shares of every maker's two reserve rails, securities and cash, in one encrypted
file. Two calls change them. A commit stores what is left of a pool after an accepted allocation,
read from the node's own output of the computation; a rebind points a rail at a newly registered
pool with shares that the coordinator deals. Both load the file, change one rail and swap the
changed state in under the generation they were prepared from.

Digests and the table of interpolation coefficients are arbitrary functions. What the node's
output file yields is given with a commit: its bytes, and the two shares read from it.
-/

namespace Zkpi.ResidentPools

open ByteText CheckedIntegers FallibleChecks ScalarField

/-! ## The stored state -/

structure StandingPoolBinding where
  maker : ℕ
  /-- Zero for the securities pool, one for the cash pool. -/
  direction : UInt8
  poolId : Digest32
  poolSequence : UInt64
  deriving DecidableEq

/-- A node's shares. -/
structure MpcSecretState where
  version : UInt8
  node : UInt16
  generation : UInt64
  sourceSha256 : String
  /-- Five shares for each maker: both rails with their blindings, and a handle. -/
  dvpInputShares : List String
  policyInputShares : List String
  quotePolicyBlindingInputShares : List String
  standingPoolBindings : List StandingPoolBinding
  deriving DecidableEq

def isDigest (value : String) : Bool :=
  value.toList.length = 64 && value.toList.all fun digit => (hexValue digit).isSome

def digitsOf (value : String) : List Char :=
  match value.toList with
  | '-' :: digits => digits
  | digits => digits

def isDecimal (value : String) : Bool :=
  digitsOf value ≠ [] && (digitsOf value).length ≤ 80 && (digitsOf value).all Char.isDigit &&
    (digitsOf value = ['0'] || (digitsOf value).head? ≠ some '0') && value ≠ "-0"

/-- Multiplication of machine words that stops at the largest one. -/
def saturatingMul (a b : ℕ) : ℕ := min (a * b) (2 ^ 64 - 1)

def StandingPoolBinding.invalid (binding : StandingPoolBinding) (nMm : ℕ)
    (seen : List (ℕ × UInt8)) : Bool :=
  nMm ≤ binding.maker || 1 < binding.direction || binding.poolId = zeroDigest ||
    (binding.maker, binding.direction) ∈ seen

def checkBindings (nMm : ℕ) : List (ℕ × UInt8) → List StandingPoolBinding → Except String Unit
  | _, [] => .ok ()
  | seen, binding :: rest => do
    refuseIf (binding.invalid nMm seen = true)
      "encrypted MPC state names an invalid or duplicate standing pool"
    checkBindings nMm ((binding.maker, binding.direction) :: seen) rest

namespace MpcSecretState

def verify (state : MpcSecretState) (node : UInt16) (sourceSha256 : String) (nMm : ℕ) :
    Except String Unit := do
  refuseIf (state.version ≠ 1 ∨ state.node ≠ node ∨ state.sourceSha256 ≠ sourceSha256 ∨
      ¬ isDigest state.sourceSha256 ∨ state.dvpInputShares.length ≠ 5 * nMm ∨
      (state.policyInputShares ≠ [] ∧ state.policyInputShares.length ≠ saturatingMul nMm 10) ∨
      (state.policyInputShares = [] ∧ state.quotePolicyBlindingInputShares ≠ []) ∨
      ¬ (state.quotePolicyBlindingInputShares = [] ∨
        state.quotePolicyBlindingInputShares.length = saturatingMul nMm 9) ∨
      (state.dvpInputShares ++ state.policyInputShares ++
        state.quotePolicyBlindingInputShares).any fun value => !isDecimal value)
    "encrypted MPC state does not match the approved node/circuit shape"
  checkBindings nMm [] state.standingPoolBindings

def standingShareOffset (maker : ℕ) (direction : UInt8) : Except String ℕ := do
  refuseIf (1 < direction) "standing pool direction is outside its rail bound"
  refuseIf (2 ^ 64 ≤ maker * 5 + direction.toNat * 2) "standing-pool MPC state offset overflowed"
  .ok (maker * 5 + direction.toNat * 2)

def standingPoolBinding (state : MpcSecretState) (maker : ℕ) (direction : UInt8) :
    Option StandingPoolBinding :=
  state.standingPoolBindings.find? fun binding =>
    binding.maker = maker && binding.direction = direction

end MpcSecretState

def StandingPoolBinding.rail (binding : StandingPoolBinding) : ℕ ×ₗ ℕ :=
  toLex (binding.maker, binding.direction.toNat)

def replaceBinding (binding : StandingPoolBinding) :
    List StandingPoolBinding → List StandingPoolBinding
  | [] => [binding]
  | existing :: rest =>
    if existing.maker = binding.maker ∧ existing.direction = binding.direction then binding :: rest
    else existing :: replaceBinding binding rest

def MpcSecretState.setStandingPoolBinding (state : MpcSecretState)
    (binding : StandingPoolBinding) : MpcSecretState :=
  { state with standingPoolBindings :=
      (replaceBinding binding state.standingPoolBindings).insertionSort fun left right =>
        left.rail ≤ right.rail }

def MpcSecretState.bindRail (state : MpcSecretState) :
    Option StandingPoolBinding → MpcSecretState
  | none => state
  | some binding => state.setStandingPoolBinding binding

def MpcSecretState.replaceRail (state : MpcSecretState) (offset : ℕ) (amount blinding : String)
    (binding : Option StandingPoolBinding) (expectedGeneration : UInt64) :
    Except String MpcSecretState := do
  refuseIf (state.dvpInputShares.length ≤ offset) "standing-pool amount share is outside node state"
  refuseIf (state.dvpInputShares.length ≤ offset + 1)
    "standing-pool blinding share is outside node state"
  let generation ← orRefuse (checkedAdd expectedGeneration 1)
    "standing-pool MPC generation overflowed"
  .ok { state.bindRail binding with
    dvpInputShares := (state.dvpInputShares.set offset amount).set (offset + 1) blinding
    generation }

def compareAndSwap (expectedGeneration : UInt64) (next current : MpcSecretState) :
    Except String Unit := do
  refuseIf (current.generation ≠ expectedGeneration)
    "MPC secret-state generation changed before commit"
  let generation ← orRefuse (checkedAdd expectedGeneration 1)
    "MPC secret-state generation overflowed before commit"
  refuseIf (next.generation ≠ generation ∨ next.version ≠ current.version ∨
      next.node ≠ current.node ∨ next.sourceSha256 ≠ current.sourceSha256 ∨
      next.dvpInputShares.length ≠ current.dvpInputShares.length ∨
      next.policyInputShares ≠ current.policyInputShares ∨
      next.quotePolicyBlindingInputShares ≠ current.quotePolicyBlindingInputShares)
    "MPC secret-state update changed its circuit, identity, or policy"

/-! ## Shares -/

structure ResidentLibrary where
  sha256 : Bytes → Digest32
  lagrangeAtZero : ℕ → Except String (List String)

inductive InputSharing where
  /-- The circuit applies the interpolation coefficients; evaluations are stored as they are. -/
  | shamir
  /-- The circuit adds the inputs up; evaluations are stored with their coefficient applied. -/
  | additive
  deriving DecidableEq

def decimalToScalar (value : String) : Except String Scalar := do
  refuseIf (¬ isDecimal value) "field element is not a canonical decimal"
  refuseIf (2 ^ 512 ≤ Nat.ofDigitChars 10 (digitsOf value) 0) "field element exceeds 512 bits"
  if value.toList.head? = some '-' then
    .ok (-(Nat.ofDigitChars 10 (digitsOf value) 0 : Scalar))
  else .ok (Nat.ofDigitChars 10 (digitsOf value) 0 : Scalar)

def scalarToDecimal (value : Scalar) : String := Nat.repr value.val

variable (lib : ResidentLibrary)

def nodeLagrangeCoefficient (node nParties : UInt16) : Except String Scalar := do
  let coefficients ← lib.lagrangeAtZero nParties.toNat
  let value ← orRefuse coefficients[node.toNat]?
    "MPC node index is outside the Lagrange coefficient table"
  decimalToScalar value

def residentShareFromEvaluation (node nParties : UInt16) (sharing : InputSharing)
    (evaluation : String) : Except String String := do
  let evaluation ← decimalToScalar evaluation
  match sharing with
  | .shamir => .ok (scalarToDecimal evaluation)
  | .additive => do
    let coefficient ← nodeLagrangeCoefficient lib node nParties
    .ok (scalarToDecimal (coefficient * evaluation))

/-! ## The two calls -/

/-- The remainder shares in a node's output file. -/
structure DvpHandoff where
  party : ℕ
  valueShare : String
  blindingShare : String
  deriving DecidableEq

structure StandingPoolCommitRequest where
  node : UInt16
  nParties : UInt16
  nMm : ℕ
  sourceSha256 : String
  sharing : InputSharing
  /-- The bytes of the node's output file, if it is protected and readable. -/
  persistence : Except String Bytes
  /-- What is read from the output file. -/
  handoff : Except String DvpHandoff
  maker : ℕ
  direction : UInt8
  expectedGeneration : UInt64
  proofJobId : Digest32
  allocationStatement : Digest32
  /-- The pool the remainder mirrors, where the deployment tracks it here. -/
  binding : Option StandingPoolBinding
  deriving DecidableEq

def StandingPoolCommitRequest.prepare (request : StandingPoolCommitRequest)
    (loaded : MpcSecretState) : Except String MpcSecretState := do
  refuseIf (request.nMm ≤ request.maker ∨ 1 < request.direction ∨
      request.expectedGeneration = 0 ∨ request.proofJobId = zeroDigest ∨
      request.allocationStatement = zeroDigest ∨
      request.binding.any fun binding => binding.maker ≠ request.maker ||
        binding.direction ≠ request.direction || binding.poolId = zeroDigest)
    "standing-pool MPC state commit is outside its bound"
  let _ ← request.persistence
  let handoff ← request.handoff
  refuseIf (handoff.party ≠ request.node.toNat) "standing-pool handoff belongs to another MPC node"
  loaded.verify request.node request.sourceSha256 request.nMm
  refuseIf (loaded.generation ≠ request.expectedGeneration)
    "standing-pool commit was proved from a stale MPC generation"
  let offset ← MpcSecretState.standingShareOffset request.maker request.direction
  let amount ← residentShareFromEvaluation lib request.node request.nParties request.sharing
    handoff.valueShare
  let blinding ← residentShareFromEvaluation lib request.node request.nParties request.sharing
    handoff.blindingShare
  loaded.replaceRail offset amount blinding request.binding request.expectedGeneration

structure StandingPoolStateReceipt where
  node : UInt16
  maker : ℕ
  direction : UInt8
  beforeGeneration : UInt64
  afterGeneration : UInt64
  proofJobId : Digest32
  allocationStatement : Digest32
  persistenceDigest : Digest32
  receiptDigest : Digest32

def StandingPoolStateReceipt.unsignedDigest (receipt : StandingPoolStateReceipt) : Digest32 :=
  lib.sha256 (utf8 "QOMM:MPC:STANDING-POOL-STATE-RECEIPT:v1" ++ beBytes 2 receipt.node.toNat ++
    beBytes 8 receipt.maker ++ [receipt.direction] ++ beBytes 8 receipt.beforeGeneration.toNat ++
    beBytes 8 receipt.afterGeneration.toNat ++ receipt.proofJobId.toList ++
    receipt.allocationStatement.toList ++ receipt.persistenceDigest.toList)

def StandingPoolStateReceipt.verify (receipt : StandingPoolStateReceipt) : Except String Unit :=
  refuseIf (1 < receipt.direction ∨ receipt.beforeGeneration = 0 ∨
      receipt.afterGeneration ≠ saturatingAdd receipt.beforeGeneration 1 ∨
      receipt.proofJobId = zeroDigest ∨ receipt.allocationStatement = zeroDigest ∨
      receipt.persistenceDigest = zeroDigest ∨
      receipt.receiptDigest ≠ receipt.unsignedDigest lib)
    "standing-pool MPC state receipt is incomplete"

/-- What a commit returns once its state is swapped in. The receipt is checked after the swap. -/
def StandingPoolCommitRequest.reply (request : StandingPoolCommitRequest)
    (next : MpcSecretState) : Except String StandingPoolStateReceipt := do
  let bytes ← request.persistence
  let receipt : StandingPoolStateReceipt := {
    node := request.node
    maker := request.maker
    direction := request.direction
    beforeGeneration := request.expectedGeneration
    afterGeneration := next.generation
    proofJobId := request.proofJobId
    allocationStatement := request.allocationStatement
    persistenceDigest := lib.sha256 bytes
    receiptDigest := zeroDigest }
  StandingPoolStateReceipt.verify lib
    { receipt with receiptDigest := receipt.unsignedDigest lib }
  .ok { receipt with receiptDigest := receipt.unsignedDigest lib }

structure StandingPoolRebindRequest where
  node : UInt16
  nMm : ℕ
  sourceSha256 : String
  expectedGeneration : UInt64
  binding : StandingPoolBinding
  amountShare : String
  blindingShare : String
  deriving DecidableEq

/-- The state a rebind writes over the one it loaded. Only the sequence that the request itself
states has to be zero. -/
def StandingPoolRebindRequest.prepare (request : StandingPoolRebindRequest)
    (loaded : MpcSecretState) : Except String MpcSecretState := do
  refuseIf (request.nMm ≤ request.binding.maker ∨ 1 < request.binding.direction ∨
      request.binding.poolId = zeroDigest ∨ request.binding.poolSequence ≠ 0 ∨
      request.expectedGeneration = 0 ∨ ¬ isDecimal request.amountShare ∨
      ¬ isDecimal request.blindingShare)
    "standing-pool rebind is outside its bound"
  loaded.verify request.node request.sourceSha256 request.nMm
  refuseIf (loaded.generation ≠ request.expectedGeneration)
    "standing-pool rebind was prepared from a stale MPC generation"
  let offset ← MpcSecretState.standingShareOffset request.binding.maker request.binding.direction
  loaded.replaceRail offset request.amountShare request.blindingShare (some request.binding)
    request.expectedGeneration

inductive Call where
  | commit (request : StandingPoolCommitRequest)
  | rebind (request : StandingPoolRebindRequest)
  deriving DecidableEq

namespace Call

def expectedGeneration : Call → UInt64
  | commit request => request.expectedGeneration
  | rebind request => request.expectedGeneration

def rail : Call → ℕ × UInt8
  | commit request => (request.maker, request.direction)
  | rebind request => (request.binding.maker, request.binding.direction)

def binding : Call → Option StandingPoolBinding
  | commit request => request.binding
  | rebind request => some request.binding

/-- The amount and blinding shares that a call puts into its rail. -/
def shares : Call → Except String (String × String)
  | commit request => do
    let handoff ← request.handoff
    let amount ← residentShareFromEvaluation lib request.node request.nParties request.sharing
      handoff.valueShare
    let blinding ← residentShareFromEvaluation lib request.node request.nParties request.sharing
      handoff.blindingShare
    .ok (amount, blinding)
  | rebind request => .ok (request.amountShare, request.blindingShare)

def prepare : Call → MpcSecretState → Except String MpcSecretState
  | commit request => request.prepare lib
  | rebind request => request.prepare

end Call

end Zkpi.ResidentPools
