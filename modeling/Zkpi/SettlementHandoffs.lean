import Zkpi.PaymentInstruction

/-!
# The handoff of settlement records

After a slot closes, the committee hands its proof records over to settlement. A bundle carries,
for every lane of the slot, the attestations by which the seven nodes admitted it and the receipts
of its execution, and a list of records that name the lanes they settle. Verifying the bundle
collapses the attestations to certified lanes, checks that these are the lanes of the slot in their
order, and binds each record to the lane it names.

Each record is checked by itself. Nothing compares two records, so a bundle may carry one record
twice as long as there are as many lanes as records.
-/

namespace Zkpi.SettlementHandoffs

open ScalarField ByteText FallibleChecks PedersenSigma AggregatedRanges PaymentInstruction List

structure HandoffLibrary (P : Type) where
  primitives : Primitives P
  bulletproofs : Bulletproofs P
  quorum : QuorumLibrary
  sha256 : Bytes → Digest32
  VerifyingKey : Type
  /-- Check a node's signature on a message. -/
  verify : VerifyingKey → Bytes → Bytes → Bool
  QuoteAuthorization : Type
  verifyQuote : QuoteAuthorization → Except String Digest32
  quoteContext : QuoteAuthorization → Digest32
  SealedMessage : Type
  /-- Check the shape of an encrypted opening share of sixty-four bytes. -/
  validateSealed : SealedMessage → Except String Unit
  recipientPublicBytes : ℕ

def committeeNodes : ℕ := 7

/-! ## Admissions -/

structure NodeAdmissionAttestation where
  node : UInt16
  slot : UInt64
  sequence : UInt64
  principalDigest : Digest32
  ticketId : Digest32
  claimDigest : Digest32
  batchDigest : Digest32
  orderDigest : Digest32
  signature : Bytes

def NodeAdmissionAttestation.unsigned (value : NodeAdmissionAttestation) :
    Except String Bytes := do
  refuseIf (committeeNodes ≤ value.node.toNat ∨ value.sequence = 0 ∨
      2 ^ 63 ≤ value.sequence.toNat ∨ 2 ^ 63 ≤ value.slot.toNat ∨
      zeroDigest ∈ [value.principalDigest, value.ticketId, value.claimDigest, value.batchDigest,
        value.orderDigest])
    "node admission attestation is incomplete"
  .ok (utf8 "QOMM:ORDER:NODE-ADMISSION:v2" ++ beBytes 2 value.node.toNat ++
    beBytes 8 value.slot.toNat ++ beBytes 8 value.sequence.toNat ++
    value.principalDigest.toList ++ value.ticketId.toList ++ value.claimDigest.toList ++
    value.batchDigest.toList ++ value.orderDigest.toList)

structure CertifiedAdmissionLane where
  slot : UInt64
  sequence : UInt64
  principalDigest : Digest32
  ticketId : Digest32
  claimDigest : Digest32
  clusterDigest : Digest32
  orderDigest : Digest32

/-! ## Executions -/

structure NodeExecutionAttestation where
  node : UInt16
  slot : UInt64
  lane : UInt64
  batchDigest : Digest32
  sourceDigest : Digest32
  stateGeneration : UInt64
  frameCount : UInt64
  inputCount : UInt64
  stdoutDigest : Digest32
  stderrDigest : Digest32
  persistenceDigest : Digest32
  receiptDigest : Digest32
  signature : Bytes

structure CertifiedExecutionLane where
  slot : UInt64
  lane : UInt64
  clusterDigest : Digest32
  sourceDigest : Digest32
  digest : Digest32

section Lanes

variable {P : Type} (lib : HandoffLibrary P)

def NodeAdmissionAttestation.verify (value : NodeAdmissionAttestation)
    (key : lib.VerifyingKey) : Bool :=
  match value.unsigned with
  | .ok body => lib.verify key body value.signature
  | .error _ => false

def NodeExecutionAttestation.recomputeReceiptDigest (value : NodeExecutionAttestation) :
    Except String Digest32 := do
  refuseIf (2 ^ 32 ≤ value.slot.toNat) "execution receipt slot is outside the MPC range"
  .ok (lib.sha256 (utf8 "QOMM:MPC:EXECUTION-RECEIPT:v1" ++ beBytes 2 value.node.toNat ++
    beBytes 4 value.slot.toNat ++ beBytes 8 value.lane.toNat ++ value.batchDigest.toList ++
    value.sourceDigest.toList ++ beBytes 8 value.stateGeneration.toNat ++
    beBytes 8 value.frameCount.toNat ++ beBytes 8 value.inputCount.toNat ++
    value.stdoutDigest.toList ++ value.stderrDigest.toList ++ value.persistenceDigest.toList))

def NodeExecutionAttestation.unsigned (value : NodeExecutionAttestation) :
    Except String Bytes := do
  refuseIf (committeeNodes ≤ value.node.toNat ∨ 4095 < value.lane.toNat ∨
      value.stateGeneration = 0 ∨ value.frameCount = 0 ∨ 4096 < value.frameCount.toNat ∨
      value.inputCount = 0 ∨ 1000000 < value.inputCount.toNat ∨
      zeroDigest ∈ [value.batchDigest, value.sourceDigest, value.stdoutDigest,
        value.stderrDigest, value.persistenceDigest, value.receiptDigest])
    "node execution attestation is incomplete or inconsistent"
  let receiptDigest ← value.recomputeReceiptDigest lib
  refuseIf (receiptDigest ≠ value.receiptDigest)
    "node execution attestation is incomplete or inconsistent"
  .ok (utf8 "QOMM:ORDER:NODE-EXECUTION:v2" ++ beBytes 2 value.node.toNat ++
    beBytes 8 value.slot.toNat ++ beBytes 8 value.lane.toNat ++ value.batchDigest.toList ++
    value.sourceDigest.toList ++ beBytes 8 value.stateGeneration.toNat ++
    beBytes 8 value.frameCount.toNat ++ beBytes 8 value.inputCount.toNat ++
    value.stdoutDigest.toList ++ value.stderrDigest.toList ++ value.persistenceDigest.toList ++
    value.receiptDigest.toList)

def NodeExecutionAttestation.verify (value : NodeExecutionAttestation)
    (key : lib.VerifyingKey) : Bool :=
  match value.unsigned lib with
  | .ok body => lib.verify key body value.signature
  | .error _ => false

def clusterBatchDigest (slot : ℕ) (orderDigest : Digest32)
    (nodeBatches : List (UInt16 × Digest32)) : Except String Digest32 := do
  refuseIf (orderDigest = zeroDigest ∨ nodeBatches.length ≠ committeeNodes)
    "cluster batch needs a non-zero order and exactly seven nodes"
  let ordered := nodeBatches.insertionSort fun a b => a.1 ≤ b.1
  ordered.zipIdx.forM fun item =>
    refuseIf (item.1.1.toNat ≠ item.2 ∨ item.1.2 = zeroDigest)
      "cluster batch nodes must be exactly 0..6 with non-zero digests"
  .ok (lib.sha256 (utf8 "QOMM:ORDER:CLUSTER-BATCH:v1" ++ beBytes 4 slot ++ orderDigest.toList ++
    ordered.flatMap fun item => beBytes 2 item.1.toNat ++ item.2.toList))

def verifyAdmissionLane (attestations : List NodeAdmissionAttestation)
    (trustedNodeKeys : List lib.VerifyingKey) : Except String CertifiedAdmissionLane := do
  refuseIf (attestations.length ≠ committeeNodes ∨ trustedNodeKeys.length ≠ committeeNodes)
    "admission lane needs exactly seven attestations and trusted keys"
  let ordered := attestations.insertionSort fun a b => a.node ≤ b.node
  ordered.zipIdx.forM fun item =>
    refuseIf (item.1.node.toNat ≠ item.2 ∨ ¬ (trustedNodeKeys[item.2]?).any (item.1.verify lib))
      "admission lane contains an unknown, duplicate, or invalid node"
  let first ← orRefuse ordered.head? "index out of bounds"
  refuseIf (∃ value ∈ ordered.tail, value.slot ≠ first.slot ∨ value.sequence ≠ first.sequence ∨
      value.principalDigest ≠ first.principalDigest ∨ value.ticketId ≠ first.ticketId ∨
      value.claimDigest ≠ first.claimDigest ∨ value.orderDigest ≠ first.orderDigest)
    "resident nodes disagree on the admitted principal, claim, or order"
  refuseIf (2 ^ 32 ≤ first.slot.toNat) "admission slot is outside the resident-node range"
  let clusterDigest ← clusterBatchDigest lib first.slot.toNat first.orderDigest
    (ordered.map fun value => (value.node, value.batchDigest))
  .ok ⟨first.slot, first.sequence, first.principalDigest, first.ticketId, first.claimDigest,
    clusterDigest, first.orderDigest⟩

def deriveExecutionLane (attestations : List NodeExecutionAttestation) (orderDigest : Digest32) :
    Except String CertifiedExecutionLane := do
  refuseIf (attestations.length ≠ committeeNodes)
    "execution lane needs exactly seven receipt statements"
  let ordered := attestations.insertionSort fun a b => a.node ≤ b.node
  ordered.zipIdx.forM fun item =>
    refuseIf (item.1.node.toNat ≠ item.2 ∨ (failure (item.1.unsigned lib)).isSome)
      "execution lane contains an incomplete or duplicate receipt"
  let first ← orRefuse ordered.head? "index out of bounds"
  refuseIf (∃ value ∈ ordered.tail, value.slot ≠ first.slot ∨ value.lane ≠ first.lane ∨
      value.sourceDigest ≠ first.sourceDigest ∨ value.stateGeneration ≠ first.stateGeneration ∨
      value.frameCount ≠ first.frameCount ∨ value.inputCount ≠ first.inputCount)
    "resident nodes disagree on the execution slot, source, or shape"
  refuseIf (2 ^ 32 ≤ first.slot.toNat) "execution lane slot is outside the resident-node range"
  let clusterDigest ← clusterBatchDigest lib first.slot.toNat orderDigest
    (ordered.map fun value => (value.node, value.batchDigest))
  .ok ⟨first.slot, first.lane, clusterDigest, first.sourceDigest,
    lib.sha256 (utf8 "QOMM:ORDER:EXECUTION-LANE:v1" ++ beBytes 8 first.slot.toNat ++
      beBytes 8 first.lane.toNat ++ clusterDigest.toList ++ first.sourceDigest.toList ++
      beBytes 8 first.stateGeneration.toNat ++ beBytes 8 first.frameCount.toNat ++
      beBytes 8 first.inputCount.toNat ++
      ordered.flatMap fun value => beBytes 2 value.node.toNat ++ value.receiptDigest.toList)⟩

def verifyExecutionLane (attestations : List NodeExecutionAttestation)
    (trustedNodeKeys : List lib.VerifyingKey) (orderDigest : Digest32) :
    Except String CertifiedExecutionLane := do
  refuseIf (attestations.length ≠ committeeNodes ∨ trustedNodeKeys.length ≠ committeeNodes)
    "execution lane needs exactly seven attestations and trusted keys"
  let ordered := attestations.insertionSort fun a b => a.node ≤ b.node
  ordered.zipIdx.forM fun item =>
    refuseIf (item.1.node.toNat ≠ item.2 ∨ ¬ (trustedNodeKeys[item.2]?).any (item.1.verify lib))
      "execution lane contains an unknown, duplicate, or invalid node"
  deriveExecutionLane lib ordered orderDigest

def jobBytes (slot : UInt32) (lane : ℕ) (digest : Digest32) : Bytes :=
  utf8 "QOMM:LIVE-PROOF-JOB:v1" ++ beBytes 4 slot.toNat ++ beBytes 8 lane ++ digest.toList

def liveProofJobId (slot : UInt32) (lane : ℕ) (quoteDigest : Digest32) :
    Except String Digest32 := do
  refuseIf (quoteDigest = zeroDigest ∨ 4095 < lane)
    "live proof job is outside its quote or lane bound"
  .ok (lib.sha256 (jobBytes slot lane quoteDigest))

def completeQuoteContext (jobId requestContext : Digest32) : Digest32 :=
  lib.sha256 (utf8 "QOMM:LIVE:COMPLETE-QUOTE-CONTEXT:v1" ++ jobId.toList ++ requestContext.toList)

end Lanes

/-! ## Opening envelopes -/

structure EncryptedOpeningShare {P : Type} (lib : HandoffLibrary P) where
  party : ℕ
  recipientPublic : Bytes
  sealed : lib.SealedMessage

structure OpeningEnvelope {P : Type} (lib : HandoffLibrary P) where
  context : Digest32
  threshold : ℕ
  recipientView : P
  shares : List (EncryptedOpeningShare lib)

section Envelopes

variable {P : Type} {lib : HandoffLibrary P}

def EncryptedOpeningShare.validate (share : EncryptedOpeningShare lib) : Except String Unit := do
  refuseIf (share.party = 0 ∨ share.recipientPublic.length ≠ lib.recipientPublicBytes)
    "encrypted opening share has an invalid party or recipient key"
  lib.validateSealed share.sealed

def validateShares (recipientPublic : Bytes) :
    List ℕ → List (EncryptedOpeningShare lib) → Except String Unit
  | _, [] => .ok ()
  | parties, share :: rest => do
    share.validate
    refuseIf (share.recipientPublic ≠ recipientPublic)
      "opening shares disagree on enrolled recipient key"
    refuseIf (share.party ∈ parties) "opening envelope repeats a proof party"
    validateShares recipientPublic (share.party :: parties) rest

def OpeningEnvelope.validate [Zero P] [DecidableEq P] (envelope : OpeningEnvelope lib) :
    Except String Unit := do
  refuseIf (envelope.threshold = 0 ∨ envelope.shares.length < envelope.threshold ∨
      64 < envelope.shares.length ∨ envelope.recipientView = 0)
    "opening envelope has invalid dimensions"
  let first ← orRefuse envelope.shares.head? "index out of bounds"
  validateShares first.recipientPublic [] envelope.shares

def openingContext (lib : HandoffLibrary P) (jobId : Digest32) (leg : String) :
    Except String Digest32 := do
  refuseIf (leg ∉ ["securities_delivery", "securities_refund", "cash_delivery", "cash_refund"])
    "claim opening leg is invalid"
  .ok (lib.sha256 (utf8 "QOMM:MPC:CLAIM-OPENING-ENVELOPE:v2" ++ utf8 ":context:" ++
    jobId.toList ++ beBytes 8 (utf8 leg).length ++ utf8 leg))

end Envelopes

/-! ## Bundles -/

structure SettlementHandoff {P : Type} (lib : HandoffLibrary P) where
  jobId : Digest32
  lane : ℕ
  admissionSequence : UInt64
  admissionTicketId : Digest32
  instruction : Instruction P lib.bulletproofs lib.quorum
  quoteDigest : Digest32
  quoteVerification : lib.QuoteAuthorization
  limitContext : Digest32
  securitiesDeliveryOpening : OpeningEnvelope lib
  securitiesRefundOpening : OpeningEnvelope lib
  cashDeliveryOpening : OpeningEnvelope lib
  cashRefundOpening : OpeningEnvelope lib

/-- The records of a slot with the attestations of its lanes. -/
structure SettlementHandoffBundle {P : Type} (lib : HandoffLibrary P) where
  sourceDigest : Digest32
  clusterDigest : Digest32
  orderDigest : Digest32
  slot : UInt32
  admissionLanes : List (List NodeAdmissionAttestation)
  executionLanes : List (List NodeExecutionAttestation)
  records : List (SettlementHandoff lib)

section Bundles

variable {P : Type} [Zero P] [DecidableEq P] {lib : HandoffLibrary P}

def SettlementHandoff.verifyOpeningEnvelope (record : SettlementHandoff lib) (leg : String)
    (envelope : OpeningEnvelope lib) (recipient : P) : Except String Unit := do
  envelope.validate
  let context ← openingContext lib record.jobId leg
  refuseIf (envelope.context ≠ context ∨ lib.primitives.compress envelope.recipientView ≠
      lib.primitives.compress recipient)
    s!"{leg} opening envelope is not bound to its proof job and recipient"

def SettlementHandoff.verifyOpeningEnvelopes (record : SettlementHandoff lib) :
    Except String Unit := do
  let payer := record.instruction.payerHandle
  let payee := record.instruction.payeeHandle
  record.verifyOpeningEnvelope "securities_delivery" record.securitiesDeliveryOpening payer
  record.verifyOpeningEnvelope "securities_refund" record.securitiesRefundOpening payee
  record.verifyOpeningEnvelope "cash_delivery" record.cashDeliveryOpening payee
  record.verifyOpeningEnvelope "cash_refund" record.cashRefundOpening payer

namespace SettlementHandoffBundle

variable (bundle : SettlementHandoffBundle lib)

def verifyLane (executions : List CertifiedExecutionLane) (lane : CertifiedAdmissionLane)
    (index : ℕ) : Except String Unit := do
  refuseIf (lane.sequence ≠ UInt64.ofNat index + 1 ∨ lane.slot.toNat ≠ bundle.slot.toNat ∨
      lane.clusterDigest ≠ bundle.clusterDigest ∨ lane.orderDigest ≠ bundle.orderDigest)
    "settlement handoff admission lanes are incomplete or reordered"
  let execution ← orRefuse executions[index]? "index out of bounds"
  refuseIf (execution.slot.toNat ≠ bundle.slot.toNat ∨ execution.lane ≠ UInt64.ofNat index ∨
      execution.clusterDigest ≠ bundle.clusterDigest ∨
      execution.sourceDigest ≠ bundle.sourceDigest)
    "settlement handoff execution receipt differs from its admitted lane"

def verifyRecord (lanes : List CertifiedAdmissionLane) (executions : List CertifiedExecutionLane)
    (record : SettlementHandoff lib) :
    Except String Unit := do
  let lane ← orRefuse lanes[record.lane]? "settlement proof names an absent admission lane"
  refuseIf (record.admissionSequence ≠ lane.sequence ∨
      record.admissionTicketId ≠ lane.ticketId ∨ record.limitContext ≠ lane.claimDigest)
    "settlement proof metadata is not bound to its certified admission lane"
  refuseIf (record.instruction.quoteProofDigest ≠ some record.quoteDigest)
    "settlement record is not bound to the quote proof signed by its zkPI"
  let quoteDigest ← lib.verifyQuote record.quoteVerification
  refuseIf (quoteDigest ≠ record.quoteDigest)
    "settlement record quote digest does not match its complete proof"
  record.verifyOpeningEnvelopes
  let execution ← orRefuse executions[record.lane]?
    "settlement proof names an absent execution lane"
  let jobId ← liveProofJobId lib bundle.slot record.lane execution.digest
  refuseIf (record.jobId ≠ jobId)
    "settlement proof job is not bound to its signed MPC execution lane"
  refuseIf (lib.quoteContext record.quoteVerification ≠
      completeQuoteContext lib record.jobId record.limitContext)
    "settlement quote proof is not bound to its signed MPC execution lane"

def verifyAdmission (trustedNodeKeys : List lib.VerifyingKey) :
    Except String (List CertifiedAdmissionLane) := do
  refuseIf (bundle.admissionLanes = [] ∨ 4096 < bundle.admissionLanes.length ∨
      bundle.admissionLanes.length < bundle.records.length)
    "settlement handoff admission population is outside its bound"
  refuseIf (bundle.executionLanes.length ≠ bundle.admissionLanes.length)
    "settlement handoff execution population differs from admission"
  let verified ← bundle.admissionLanes.mapM fun values =>
    verifyAdmissionLane lib values trustedNodeKeys
  let lanes := verified.insertionSort fun a b => a.sequence ≤ b.sequence
  let executions ← bundle.executionLanes.mapM fun values =>
    verifyExecutionLane lib values trustedNodeKeys bundle.orderDigest
  lanes.zipIdx.forM fun item => bundle.verifyLane executions item.1 item.2
  bundle.records.forM (bundle.verifyRecord lanes executions)
  .ok lanes

/-! ## What a verified bundle guarantees -/

structure LaneAt (bundle : SettlementHandoffBundle lib) (lane : CertifiedAdmissionLane)
    (index : ℕ) : Prop where
  sequence : lane.sequence.toNat = index + 1
  slot : lane.slot.toNat = bundle.slot.toNat
  cluster : lane.clusterDigest = bundle.clusterDigest
  order : lane.orderDigest = bundle.orderDigest

structure Bound (bundle : SettlementHandoffBundle lib) (record : SettlementHandoff lib)
    (lane : CertifiedAdmissionLane) (execution : CertifiedExecutionLane) : Prop where
  sequence : record.admissionSequence = lane.sequence
  ticket : record.admissionTicketId = lane.ticketId
  claim : record.limitContext = lane.claimDigest
  signed : record.instruction.quoteProofDigest = some record.quoteDigest
  quote : lib.verifyQuote record.quoteVerification = .ok record.quoteDigest
  envelopes : record.verifyOpeningEnvelopes = .ok ()
  job : record.jobId = lib.sha256 (jobBytes bundle.slot record.lane execution.digest)
  context : lib.quoteContext record.quoteVerification =
    completeQuoteContext lib record.jobId record.limitContext

def ExecutedAt (trustedNodeKeys : List lib.VerifyingKey) (index : ℕ)
    (execution : CertifiedExecutionLane) : Prop :=
  ∃ values, bundle.executionLanes[index]? = some values ∧
    verifyExecutionLane lib values trustedNodeKeys bundle.orderDigest = .ok execution

variable {bundle : SettlementHandoffBundle lib} {trustedNodeKeys : List lib.VerifyingKey}
  {lanes : List CertifiedAdmissionLane}

omit [Zero P] [DecidableEq P] in
theorem verifyLane_ok (hindex : index < 4096)
    (h : bundle.verifyLane executions lane index = .ok ()) : bundle.LaneAt lane index := by
  obtain ⟨hlane, _⟩ := refuseIf_bind_ok.mp h
  simp only [not_or, not_not] at hlane
  obtain ⟨hsequence, hslot, hcluster, horder⟩ := hlane
  refine ⟨?_, hslot, hcluster, horder⟩
  rw [hsequence, UInt64.toNat_add, UInt64.toNat_ofNat']
  change (index % 2 ^ 64 + 1) % 2 ^ 64 = index + 1
  omega

theorem verifyRecord_ok (h : bundle.verifyRecord lanes executions record = .ok ()) :
    ∃ lane execution, lanes[record.lane]? = some lane ∧
      executions[record.lane]? = some execution ∧ bundle.Bound record lane execution := by
  obtain ⟨lane, hlane, h⟩ := bind_ok.mp h
  obtain ⟨hmetadata, h⟩ := refuseIf_bind_ok.mp h
  simp only [not_or, not_not] at hmetadata
  obtain ⟨hsequence, hticket, hclaim⟩ := hmetadata
  obtain ⟨hsigned, h⟩ := refuseIf_bind_ok.mp h
  obtain ⟨_, hquote, h⟩ := bind_ok.mp h
  obtain ⟨hdigest, h⟩ := refuseIf_bind_ok.mp h
  obtain ⟨_, henvelopes, h⟩ := bind_ok.mp h
  obtain ⟨execution, hexecution, h⟩ := bind_ok.mp h
  obtain ⟨_, hjob, h⟩ := bind_ok.mp h
  obtain ⟨hjobId, hcontext⟩ := refuseIf_bind_ok.mp h
  rw [refuseIf_ok, not_not] at hcontext
  rw [not_not] at hsigned hdigest hjobId
  obtain ⟨_, hjob⟩ := refuseIf_bind_ok.mp hjob
  cases hjob
  exact ⟨lane, execution, orRefuse_ok.mp hlane, orRefuse_ok.mp hexecution,
    ⟨hsequence, hticket, hclaim, hsigned, hdigest ▸ hquote, henvelopes, hjobId,
      hcontext⟩⟩

section

variable (h : bundle.verifyAdmission trustedNodeKeys = .ok lanes)

include h

theorem verifyAdmission_ok :
    bundle.admissionLanes.length ≤ 4096 ∧ bundle.records.length ≤ bundle.admissionLanes.length ∧
    ∃ verified executions,
      (bundle.admissionLanes.mapM fun values => verifyAdmissionLane lib values trustedNodeKeys) =
        .ok verified ∧
      lanes.Perm verified ∧
      (bundle.executionLanes.mapM fun values =>
        verifyExecutionLane lib values trustedNodeKeys bundle.orderDigest) = .ok executions ∧
      (∀ item ∈ lanes.zipIdx, bundle.verifyLane executions item.1 item.2 = .ok ()) ∧
      ∀ record ∈ bundle.records, bundle.verifyRecord lanes executions record = .ok () := by
  obtain ⟨hpopulation, h⟩ := refuseIf_bind_ok.mp h
  simp only [not_or, not_lt] at hpopulation
  obtain ⟨_, h⟩ := refuseIf_bind_ok.mp h
  obtain ⟨verified, hverified, h⟩ := bind_ok.mp h
  obtain ⟨executions, hexecutions, h⟩ := bind_ok.mp h
  obtain ⟨_, hlanes, h⟩ := bind_ok.mp h
  obtain ⟨_, hrecords, h⟩ := bind_ok.mp h
  cases h
  exact ⟨hpopulation.2.1, hpopulation.2.2, verified, executions, hverified,
    perm_insertionSort _ _, hexecutions, forM_ok.mp hlanes, forM_ok.mp hrecords⟩

theorem laneAt_of_verifyAdmission :
    lanes.length = bundle.admissionLanes.length ∧
      ∀ index lane, lanes[index]? = some lane → bundle.LaneAt lane index := by
  obtain ⟨hbound, _, verified, executions, hverified, hperm, _, hlanes, _⟩ := verifyAdmission_ok h
  have hlength : lanes.length = bundle.admissionLanes.length :=
    hperm.length_eq.trans (mapM_length hverified)
  refine ⟨hlength, fun index lane hlane => ?_⟩
  have hindex := (List.getElem?_eq_some_iff.mp hlane).1
  exact verifyLane_ok (by omega)
    (hlanes (lane, index) (mem_zipIdx_iff_getElem?.mpr hlane))

theorem bound_of_verifyAdmission
    (hrecord : record ∈ bundle.records) : ∃ lane execution, lanes[record.lane]? = some lane ∧
      bundle.ExecutedAt trustedNodeKeys record.lane execution ∧
      bundle.Bound record lane execution := by
  obtain ⟨_, _, _, _, _, _, hexecutions, _, hrecords⟩ := verifyAdmission_ok h
  obtain ⟨lane, execution, hlane, hexecution, hbound⟩ := verifyRecord_ok (hrecords record hrecord)
  refine ⟨lane, execution, hlane, ?_, hbound⟩
  have hindex := (List.getElem?_eq_some_iff.mp hexecution).1
  rw [mapM_length hexecutions] at hindex
  have hvalues := getElem?_eq_getElem hindex
  exact ⟨_, hvalues, mapM_getElem hexecutions hvalues hexecution⟩

end

def distinctLanes (bundle : SettlementHandoffBundle lib) : Bool :=
  (bundle.records.map (·.lane)).Nodup

/-- No two records name the same lane or carry the same job. -/
def Unique (bundle : SettlementHandoffBundle lib) : Prop :=
  bundle.records.Pairwise fun first second =>
    first.lane ≠ second.lane ∧ first.jobId ≠ second.jobId

def JobCollision (bundle : SettlementHandoffBundle lib)
    (trustedNodeKeys : List lib.VerifyingKey) : Prop :=
  ∃ first ∈ bundle.records, ∃ second ∈ bundle.records, ∃ execution execution',
    bundle.ExecutedAt trustedNodeKeys first.lane execution ∧
    bundle.ExecutedAt trustedNodeKeys second.lane execution' ∧
    jobBytes bundle.slot first.lane execution.digest ≠
      jobBytes bundle.slot second.lane execution'.digest ∧
    lib.sha256 (jobBytes bundle.slot first.lane execution.digest) =
      lib.sha256 (jobBytes bundle.slot second.lane execution'.digest)

theorem lane_of_jobBytes {slot : UInt32} {lane lane' : ℕ} {digest digest' : Digest32}
    (hlane : lane < 4096) (hlane' : lane' < 4096)
    (h : jobBytes slot lane digest = jobBytes slot lane' digest') : lane = lane' := by
  unfold jobBytes at h
  obtain ⟨h, _⟩ := append_inj' h (by rw [digest.toList_length, digest'.toList_length])
  obtain ⟨_, h⟩ := append_inj' h (by rw [beBytes_length, beBytes_length])
  exact beBytes_inj (by omega) (by omega) h

section

variable (h : bundle.verifyAdmission trustedNodeKeys = .ok lanes)
  (hcollision : ¬ bundle.JobCollision trustedNodeKeys)

include h hcollision

/-- Records of different lanes are of different jobs, unless the hash collides on their
statements. -/
theorem jobId_of_lane_ne
    {first second : SettlementHandoff lib} (hfirst : first ∈ bundle.records)
    (hsecond : second ∈ bundle.records) (hlane : first.lane ≠ second.lane) :
    first.jobId ≠ second.jobId := by
  intro hjob
  obtain ⟨lane, execution, hat, hexecution, hbound⟩ := bound_of_verifyAdmission h hfirst
  obtain ⟨lane', execution', hat', hexecution', hbound'⟩ := bound_of_verifyAdmission h hsecond
  obtain ⟨hlimit, _⟩ := verifyAdmission_ok h
  obtain ⟨hlength, _⟩ := laneAt_of_verifyAdmission h
  have hindex := (List.getElem?_eq_some_iff.mp hat).1
  have hindex' := (List.getElem?_eq_some_iff.mp hat').1
  rw [hbound.job, hbound'.job] at hjob
  refine hcollision ⟨first, hfirst, second, hsecond, execution, execution', hexecution,
    hexecution', fun hbytes => hlane ?_, hjob⟩
  exact lane_of_jobBytes (by omega) (by omega) hbytes

theorem unique_iff : bundle.Unique ↔ bundle.distinctLanes = true := by
  rw [distinctLanes, decide_eq_true_eq, List.Nodup, pairwise_map, Unique]
  constructor
  · exact fun hunique => hunique.imp fun hpair => hpair.1
  · intro hdistinct
    refine hdistinct.imp_of_mem fun hfirst hsecond hlane => ⟨hlane, ?_⟩
    exact jobId_of_lane_ne h hcollision hfirst hsecond hlane

end

end SettlementHandoffBundle

/-- If a bundle is verified, then the returned lanes are the sequences from one on of its slot,
cluster and order, one for each set of attestations, and every record is bound to the ticket, claim,
quote and execution of the lane it names. Unless the hash collides on the job statements of two
records, no two records name one lane or carry one job exactly if the lanes they name are
different. -/
theorem verified_bundle_bindings (bundle : SettlementHandoffBundle lib)
    (trustedNodeKeys : List lib.VerifyingKey) (lanes : List CertifiedAdmissionLane)
    (h : bundle.verifyAdmission trustedNodeKeys = .ok lanes) :
    (lanes.length = bundle.admissionLanes.length ∧
      (∃ verified, (bundle.admissionLanes.mapM fun values =>
        verifyAdmissionLane lib values trustedNodeKeys) = .ok verified ∧ lanes.Perm verified) ∧
      ∀ index lane, lanes[index]? = some lane → bundle.LaneAt lane index) ∧
    (∀ record ∈ bundle.records, ∃ lane execution, lanes[record.lane]? = some lane ∧
      bundle.ExecutedAt trustedNodeKeys record.lane execution ∧
      bundle.Bound record lane execution) ∧
    ((bundle.Unique ↔ bundle.distinctLanes = true) ∨ bundle.JobCollision trustedNodeKeys) := by
  obtain ⟨hlength, hlanes⟩ := SettlementHandoffBundle.laneAt_of_verifyAdmission h
  obtain ⟨_, _, verified, _, hverified, hperm, _⟩ :=
    SettlementHandoffBundle.verifyAdmission_ok h
  refine ⟨⟨hlength, ⟨verified, hverified, hperm⟩, hlanes⟩,
    fun record hrecord => SettlementHandoffBundle.bound_of_verifyAdmission h hrecord, ?_⟩
  by_cases hcollision : bundle.JobCollision trustedNodeKeys
  · exact .inr hcollision
  · exact .inl (SettlementHandoffBundle.unique_iff h hcollision)

end Bundles

/-! ## Two bundles -/

def checksum (bytes : Bytes) : Digest32 :=
  repeated (UInt8.ofNat (bytes.foldl (fun sum byte => (31 * sum + byte.toNat) % 251) 7 + 1))

def plainLibrary : HandoffLibrary ℕ where
  primitives := ⟨beBytes 32, fun _ _ => 0⟩
  bulletproofs := ⟨Unit, fun _ _ _ _ _ _ _ => none, fun _ _ _ _ _ _ => false⟩
  quorum := ⟨Unit, fun _ => none, fun _ => [], Unit, fun _ _ _ => false, Unit, fun _ => .ok (),
    Unit, fun _ _ _ _ => false, fun _ _ _ => false⟩
  sha256 := checksum
  VerifyingKey := Unit
  verify _ _ _ := true
  QuoteAuthorization := Digest32 × Digest32
  verifyQuote quote := .ok quote.1
  quoteContext quote := quote.2
  SealedMessage := Unit
  validateSealed _ := .ok ()
  recipientPublicBytes := 1

def plainAdmission (sequence : UInt64) (node : UInt16) : NodeAdmissionAttestation :=
  ⟨node, 5, sequence, repeated 10, repeated 11, repeated 12, repeated 13, repeated 14, []⟩

def plainExecution (lane : UInt64) (node : UInt16) : NodeExecutionAttestation :=
  let receipt : NodeExecutionAttestation := ⟨node, 5, lane, repeated 13, repeated 15, 1, 1, 1,
    repeated 16, repeated 17, repeated 18, zeroDigest, []⟩
  { receipt with receiptDigest :=
    (receipt.recomputeReceiptDigest plainLibrary).toOption.getD zeroDigest }

def plainNodes : List UInt16 := [0, 1, 2, 3, 4, 5, 6]

def plainKeys : List Unit := plainNodes.map fun _ => ()

def plainJob (lane : UInt64) : Digest32 :=
  match verifyExecutionLane plainLibrary (plainNodes.map (plainExecution lane)) plainKeys
      (repeated 14) with
  | .ok execution => checksum (jobBytes 5 lane.toNat execution.digest)
  | .error _ => zeroDigest

def plainEnvelope (jobId : Digest32) (leg : String) (recipient : ℕ) :
    OpeningEnvelope plainLibrary :=
  ⟨(openingContext plainLibrary jobId leg).toOption.getD zeroDigest, 1, recipient, [⟨1, [0], ()⟩]⟩

def plainRecord (lane : UInt64) : SettlementHandoff plainLibrary where
  jobId := plainJob lane
  lane := lane.toNat
  admissionSequence := lane + 1
  admissionTicketId := repeated 11
  instruction := ⟨0, 0, 0, .bulletproof () () [], 1, 2, 0, repeated 1, .proofDigest (repeated 20),
    (), none⟩
  quoteDigest := repeated 20
  quoteVerification := (repeated 20,
    completeQuoteContext plainLibrary (plainJob lane) (repeated 12))
  limitContext := repeated 12
  securitiesDeliveryOpening := plainEnvelope (plainJob lane) "securities_delivery" 1
  securitiesRefundOpening := plainEnvelope (plainJob lane) "securities_refund" 2
  cashDeliveryOpening := plainEnvelope (plainJob lane) "cash_delivery" 2
  cashRefundOpening := plainEnvelope (plainJob lane) "cash_refund" 1

def plainBundle (records : List (SettlementHandoff plainLibrary)) :
    SettlementHandoffBundle plainLibrary where
  sourceDigest := repeated 15
  clusterDigest := (clusterBatchDigest plainLibrary 5 (repeated 14)
    (plainNodes.map fun node => (node, repeated 13))).toOption.getD zeroDigest
  orderDigest := repeated 14
  slot := 5
  admissionLanes := [plainNodes.map (plainAdmission 1), plainNodes.map (plainAdmission 2)]
  executionLanes := [plainNodes.map (plainExecution 0), plainNodes.map (plainExecution 1)]
  records := records

/-- A bundle that carries the record of its first lane twice is verified. -/
theorem repeated_record_verified :
    (∃ lanes, (plainBundle [plainRecord 0, plainRecord 0]).verifyAdmission plainKeys = .ok lanes) ∧
      (plainBundle [plainRecord 0, plainRecord 0]).records.map (·.lane) = [0, 0] ∧
      ¬ (plainBundle [plainRecord 0, plainRecord 0]).Unique := by
  have hrun : ((plainBundle [plainRecord 0, plainRecord 0]).verifyAdmission plainKeys).isOk =
      true := by
    decide +kernel
  refine ⟨isOk_iff.mp hrun, rfl, fun hunique => ?_⟩
  exact (rel_of_pairwise_cons hunique mem_cons_self).1 rfl

/-- A bundle with a record for each of its two lanes. -/
theorem separate_records_bound :
    ∃ lanes, (plainBundle [plainRecord 1, plainRecord 0]).verifyAdmission plainKeys = .ok lanes ∧
      ∀ record ∈ [plainRecord 1, plainRecord 0], ∃ lane, lanes[record.lane]? = some lane ∧
        record.admissionTicketId = lane.ticketId := by
  have hrun : ((plainBundle [plainRecord 1, plainRecord 0]).verifyAdmission plainKeys).isOk =
      true := by
    decide +kernel
  obtain ⟨lanes, hlanes⟩ := isOk_iff.mp hrun
  refine ⟨lanes, hlanes, fun record hrecord => ?_⟩
  obtain ⟨_, hbound, _⟩ := verified_bundle_bindings
    (plainBundle [plainRecord 1, plainRecord 0]) plainKeys lanes hlanes
  obtain ⟨lane, _, hlane, _, hbound⟩ := hbound record hrecord
  exact ⟨lane, hlane, hbound.ticket⟩

end Zkpi.SettlementHandoffs
