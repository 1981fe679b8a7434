import Zkpi.PaymentInstruction

/-!
# Typed execution contexts

A payment instruction says nothing about how its quote was selected. The typed
wrapper adds the operation, the parties, their reservations and mandates, the
quote proof and the market snapshot, checks that these fit the payment, and is
signed together with the payment's own digest.
-/

namespace Zkpi.TypedSettlement

open ByteText FallibleChecks PedersenSigma AggregatedRanges PaymentInstruction

/-- What a typed instruction does. -/
inductive OperationKind where
  | reserve | consume | release | settle
deriving DecidableEq

def OperationKind.toByte : OperationKind → UInt8
  | .reserve => 1
  | .consume => 2
  | .release => 3
  | .settle => 4

theorem OperationKind.toByte_inj {a b : OperationKind} (h : a.toByte = b.toByte) : a = b := by
  cases a <;> cases b <;> first | rfl | cases h

/-- The side the taker is on. -/
inductive TradeDirection where
  | takerBuys | takerSells
deriving DecidableEq

def TradeDirection.toByte : TradeDirection → UInt8
  | .takerBuys => 1
  | .takerSells => 2

theorem TradeDirection.toByte_inj {a b : TradeDirection} (h : a.toByte = b.toByte) : a = b := by
  cases a <;> cases b <;> first | rfl | cases h

inductive AuthorizationScope where
  | maker | taker | joint
deriving DecidableEq

def AuthorizationScope.toByte : AuthorizationScope → UInt8
  | .maker => 1
  | .taker => 2
  | .joint => 3

theorem AuthorizationScope.toByte_inj {a b : AuthorizationScope} (h : a.toByte = b.toByte) :
    a = b := by
  cases a <;> cases b <;> first | rfl | cases h

structure ExecutionContext (P : Type) where
  operation : OperationKind
  scope : AuthorizationScope
  direction : TradeDirection
  venueId : Digest32
  defmiId : Digest32
  makerHandle : P
  takerHandle : P
  reserveHandle : P
  makerReservationId : Digest32
  makerReservationSequence : UInt64
  takerReservationId : Digest32
  takerReservationSequence : UInt64
  rfqNullifier : Digest32
  takerMandateDigest : Digest32
  makerPolicyDigest : Digest32
  makerMandateDigest : Digest32
  makerReserveReceiptDigest : Digest32
  takerReserveReceiptDigest : Digest32
  quoteProofDigest : Digest32
  marketStatementDigest : Digest32
  beforeStateRoot : Digest32

/-- Some byte is not zero. -/
def nonzero (value : Digest32) : Bool := value.toList.any (· ≠ 0)

section Validation

variable {P : Type} [DecidableEq P] {library : Bulletproofs P} {quorum : QuorumLibrary}

section

variable (context : ExecutionContext P)

variable (payment : Instruction P library quorum)

def ExecutionContext.validateReserve : Except String Unit := do
  let (owner, ownId, otherId, authority, forbiddenAuthority) ← match context.scope with
    | .maker => Except.ok (context.makerHandle, context.makerReservationId,
        context.takerReservationId, context.makerPolicyDigest, context.takerMandateDigest)
    | .taker => Except.ok (context.takerHandle, context.takerReservationId,
        context.makerReservationId, context.takerMandateDigest, context.makerPolicyDigest)
    | .joint => Except.error "a reserve belongs to exactly one trading party"
  refuseIf (payment.payerHandle ≠ owner ∨ payment.payeeHandle ≠ context.reserveHandle)
    "reserve payer/payee do not move from its owner into escrow"
  refuseIf (¬ nonzero ownId ∨ nonzero otherId ∨ ¬ nonzero authority ∨ nonzero forbiddenAuthority ∨
      nonzero context.makerReserveReceiptDigest ∨ nonzero context.takerReserveReceiptDigest ∨
      nonzero context.quoteProofDigest ∨ nonzero context.marketStatementDigest)
    "reserve context contains missing or future execution data"
  refuseIf (context.scope = .maker ∧ ¬ nonzero context.makerMandateDigest)
    "Maker reserve lacks its signed policy mandate"
  refuseIf (context.scope = .taker ∧ nonzero context.makerMandateDigest)
    "Taker reserve contains an unrelated Maker mandate"
  refuseIf (context.scope = .maker ∧ nonzero context.rfqNullifier)
    "a Maker reserve cannot claim a later RFQ"
  refuseIf (context.scope = .taker ∧ ¬ nonzero context.rfqNullifier)
    "a Taker reserve must bind its one-use RFQ"

def ExecutionContext.validateRelease : Except String Unit := do
  let (owner, ownId, otherId, receipt, otherReceipt) ← match context.scope with
    | .maker => Except.ok (context.makerHandle, context.makerReservationId,
        context.takerReservationId, context.makerReserveReceiptDigest,
        context.takerReserveReceiptDigest)
    | .taker => Except.ok (context.takerHandle, context.takerReservationId,
        context.makerReservationId, context.takerReserveReceiptDigest,
        context.makerReserveReceiptDigest)
    | .joint => Except.error "a release belongs to exactly one trading party"
  refuseIf (payment.payerHandle ≠ context.reserveHandle ∨ payment.payeeHandle ≠ owner)
    "release payer/payee do not return escrow to its owner"
  refuseIf (¬ nonzero ownId ∨ nonzero otherId ∨ ¬ nonzero receipt ∨ nonzero otherReceipt)
    "release lacks its unique reservation receipt"

/-- The payment's legs are those of the direction. -/
def ExecutionContext.roleMapping : Bool :=
  match context.direction with
  | .takerBuys =>
    payment.payerHandle = context.takerHandle && payment.payeeHandle = context.makerHandle
  | .takerSells =>
    payment.payerHandle = context.makerHandle && payment.payeeHandle = context.takerHandle

def ExecutionContext.settlementFacts : List (Digest32 × String) :=
  [(context.makerReservationId, "settlement lacks the Maker reservation"),
    (context.takerReservationId, "settlement lacks the Taker reservation"),
    (context.rfqNullifier, "settlement lacks the one-use RFQ"),
    (context.takerMandateDigest, "settlement lacks the Taker mandate"),
    (context.makerMandateDigest, "settlement lacks the Maker mandate"),
    (context.makerPolicyDigest, "settlement lacks the Maker policy"),
    (context.makerReserveReceiptDigest, "settlement lacks the Maker reserve receipt"),
    (context.takerReserveReceiptDigest, "settlement lacks the Taker reserve receipt"),
    (context.quoteProofDigest, "settlement lacks the quote proof"),
    (context.marketStatementDigest, "settlement lacks the reference-market statement")]

def ExecutionContext.validateSettlement : Except String Unit := do
  refuseIf (context.scope ≠ .joint) "settlement must jointly consume Maker and Taker authority"
  refuseIf (payment.quoteProofDigest.any (· ≠ context.quoteProofDigest))
    "the payment zkPI and execution context name different quote proofs"
  refuseIf (¬ context.roleMapping payment) "Maker/Taker roles do not match the payer/payee legs"
  context.settlementFacts.forM fun fact => refuseIf (¬ nonzero fact.1) fact.2

def ExecutionContext.validateAgainst : Except String Unit := do
  refuseIf (context.makerHandle = context.takerHandle)
    "Maker and Taker resolve to the same settlement handle"
  refuseIf (context.reserveHandle = context.makerHandle ∨
      context.reserveHandle = context.takerHandle)
    "the reserve handle must not be a trading-party handle"
  refuseIf (¬ nonzero context.beforeStateRoot ∨ ¬ nonzero context.venueId ∨
      ¬ nonzero context.defmiId) "typed zkPI lacks its venue, DeFMI, or prior state root"
  match context.operation with
  | .reserve => context.validateReserve payment
  | .release => context.validateRelease payment
  | .consume => context.validateSettlement payment
  | .settle => context.validateSettlement payment

end

/-- A context that settles and fits its payment uses both authorities, moves from payer to payee as
the direction says and carries every fact; if the payment was signed for a quote proof, the context
names that proof. A payment signed for a packed key names no proof to compare with. -/
theorem settlement_context_fits {context : ExecutionContext P}
    {payment : Instruction P library quorum}
    (hoperation : context.operation = .consume ∨ context.operation = .settle)
    (h : context.validateAgainst payment = .ok ()) :
    context.scope = .joint ∧
      ((payment.payerHandle, payment.payeeHandle) = match context.direction with
        | .takerBuys => (context.takerHandle, context.makerHandle)
        | .takerSells => (context.makerHandle, context.takerHandle)) ∧
      (∀ value ∈ [context.makerReservationId, context.takerReservationId,
        context.makerReserveReceiptDigest, context.takerReserveReceiptDigest,
        context.makerMandateDigest, context.takerMandateDigest, context.rfqNullifier,
        context.makerPolicyDigest, context.quoteProofDigest], nonzero value = true) ∧
      ∀ digest, payment.quoteBinding = .proofDigest digest →
        context.quoteProofDigest = digest := by
  have hsettles : context.validateSettlement payment = .ok () := by
    unfold ExecutionContext.validateAgainst at h
    obtain ⟨-, h⟩ := refuseIf_bind_ok.mp h
    obtain ⟨-, h⟩ := refuseIf_bind_ok.mp h
    obtain ⟨-, h⟩ := refuseIf_bind_ok.mp h
    obtain hequal | hequal := hoperation <;> rw [hequal] at h <;> exact h
  obtain ⟨hscope, h⟩ := refuseIf_bind_ok.mp hsettles
  obtain ⟨hquote, h⟩ := refuseIf_bind_ok.mp h
  obtain ⟨hroles, h⟩ := refuseIf_bind_ok.mp h
  have hfact : ∀ fact ∈ context.settlementFacts, nonzero fact.1 = true := by
    intro fact hmem
    exact not_not.mp (refuseIf_ok.mp (forM_ok.mp h fact hmem))
  refine ⟨not_not.mp hscope, ?_, ?_, ?_⟩
  · rw [ExecutionContext.roleMapping] at hroles
    split at hroles <;> simpa using hroles
  · simp only [ExecutionContext.settlementFacts, List.forall_mem_cons] at hfact ⊢
    obtain ⟨hmaker, htaker, hrfq, htakes, hmakes, hpolicy, hmade, htook, hproof, -⟩ := hfact
    exact ⟨hmaker, htaker, hmade, htook, hmakes, htakes, hrfq, hpolicy, hproof, nofun⟩
  · intro digest hbinding
    by_contra hother
    refine hquote ?_
    rw [Instruction.quoteProofDigest, hbinding]
    exact decide_eq_true (Ne.symm hother)

/-- A payment with its context and the second authorization. -/
structure TypedInstruction (P : Type) (library : Bulletproofs P) (quorum : QuorumLibrary) where
  payment : Instruction P library quorum
  context : ExecutionContext P
  authorization : quorum.Signature
  pqAuthorization : Option quorum.QuorumApproval

variable (primitives : Primitives P) (sha512 : Bytes → Digest64)

def ExecutionContext.bytes (context : ExecutionContext P) : Bytes :=
  [context.operation.toByte, context.scope.toByte, context.direction.toByte] ++
    context.venueId.toList ++ context.defmiId.toList ++ primitives.compress context.makerHandle ++
    primitives.compress context.takerHandle ++ primitives.compress context.reserveHandle ++
    context.makerReservationId.toList ++ beBytes 8 context.makerReservationSequence.toNat ++
    context.takerReservationId.toList ++ beBytes 8 context.takerReservationSequence.toNat ++
    context.rfqNullifier.toList ++ context.takerMandateDigest.toList ++
    context.makerPolicyDigest.toList ++ context.makerMandateDigest.toList ++
    context.makerReserveReceiptDigest.toList ++ context.takerReserveReceiptDigest.toList ++
    context.quoteProofDigest.toList ++ context.marketStatementDigest.toList ++
    context.beforeStateRoot.toList

def digestFor (payment : Instruction P library quorum) (context : ExecutionContext P)
    (domain : Bytes) : Except String Digest64 := do
  context.validateAgainst payment
  Except.ok (sha512 (utf8 "QOMM:ZKPI:TYPED:v1" ++ beBytes 8 domain.length ++ domain ++
    (payment.digestFor primitives sha512 domain).toList ++ context.bytes primitives))

def TypedInstruction.digestFor (instruction : TypedInstruction P library quorum)
    (domain : Bytes) : Except String Digest64 :=
  TypedSettlement.digestFor primitives sha512 instruction.payment instruction.context domain

end Validation

end Zkpi.TypedSettlement
