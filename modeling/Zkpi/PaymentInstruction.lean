import Zkpi.AggregatedRanges
import Zkpi.ThresholdRange

/-!
# Payment instructions

What a quorum issues: commitments to amount, price and asset, evidence that the
first two are within the published bounds, the handles of both parties, a
deadline, a nonce, the quote the payment came from, and the quorum's signatures.
The signed digest covers everything but the evidence and the signatures; the
nullifier covers the nonce and the handles only, so two instructions that differ
elsewhere spend the same nullifier.
-/

namespace Zkpi.PaymentInstruction

open ScalarField ByteText FallibleChecks PedersenSigma AggregatedRanges ThresholdRange

abbrev Digest64 := List.Vector UInt8 64

inductive KeyPurpose where
  | settlementInstruction | transport | auditCheckpoint
  | other (code : ℕ)
deriving DecidableEq

/-- An enrolled post-quantum committee. -/
structure QuorumPolicy (KeyRecord : Type) where
  epoch : UInt64
  purpose : KeyPurpose
  context : Bytes
  classicalBinding : Digest32
  threshold : ℕ
  members : List (ℕ × KeyRecord)

/-- The signature libraries: their key and signature types and their verifiers,
all of them arbitrary. -/
structure QuorumLibrary where
  PublicKeyPackage : Type
  serialize : PublicKeyPackage → Option Bytes
  verifyingShares : PublicKeyPackage → List ℕ
  Signature : Type
  verify : PublicKeyPackage → Bytes → Signature → Bool
  KeyRecord : Type
  /-- Check a committee by itself. -/
  validate : QuorumPolicy KeyRecord → Except String Unit
  QuorumApproval : Type
  verifyApproval : QuorumPolicy KeyRecord → QuorumApproval → Bytes → UInt64 → Bool
  /-- Check an approval of a message without its validity window. -/
  verifyArchivedSignatures : QuorumPolicy KeyRecord → QuorumApproval → Bytes → Bool

inductive RangeEvidence (P : Type) (library : Bulletproofs P) where
  | bulletproof (amount price : library.RangeProof) (commitments : List Bytes)
  /-- A quorum of provers. -/
  | threshold (amount price : ThresholdRangeProof P)

inductive QuoteBinding where
  | legacyPackedKey (value : UInt64)
  | proofDigest (value : Digest32)
deriving DecidableEq

structure Instruction (P : Type) (library : Bulletproofs P) (quorum : QuorumLibrary) where
  amountCommitment : P
  priceCommitment : P
  assetCommitment : P
  ranges : RangeEvidence P library
  payerHandle : P
  payeeHandle : P
  deadline : UInt64
  nonce : Digest32
  quoteBinding : QuoteBinding
  signature : quorum.Signature
  /-- Present only in the hybrid wire version. -/
  pqApproval : Option quorum.QuorumApproval

structure PaymentTerms (P : Type) where
  amountCommitment : P
  priceCommitment : P
  assetCommitment : P
  payerHandle : P
  payeeHandle : P
  deadline : UInt64
  nonce : Digest32
  quoteBinding : QuoteBinding
deriving DecidableEq

/-- A payment before the quorum has signed it. -/
structure PartialInstruction (P : Type) (library : Bulletproofs P) where
  terms : PaymentTerms P
  ranges : RangeEvidence P library

structure Bounds where
  amountBits : ℕ
  priceBits : ℕ
  /-- How far ahead a deadline may lie. -/
  maxHorizon : UInt64

def amountRangeContext : Bytes := utf8 "qomm:zkpi:ranges:amount"

def priceRangeContext : Bytes := utf8 "qomm:zkpi:ranges:price"

def defaultDomain : Bytes := utf8 "qomm:default-venue"

section Digests

variable {P : Type} {library : Bulletproofs P} {quorum : QuorumLibrary}
variable (primitives : Primitives P) (sha512 : Bytes → Digest64)

def QuoteBinding.bytes : QuoteBinding → Bytes
  | .legacyPackedKey value => beBytes 8 value.toNat
  | .proofDigest value => utf8 "QOMM:QUOTE-PROOF-DIGEST:v1" ++ value.toList

def digestPublicFieldsFor (domain : Bytes) (amountCommitment priceCommitment assetCommitment
    payerHandle payeeHandle : P) (deadline : UInt64) (nonce : Digest32)
    (quoteBinding : QuoteBinding) : Digest64 :=
  sha512 (utf8 "QOMM:ZKPI:v2" ++ beBytes 8 domain.length ++ domain ++
    primitives.compress amountCommitment ++ primitives.compress priceCommitment ++
    primitives.compress assetCommitment ++ primitives.compress payerHandle ++
    primitives.compress payeeHandle ++ beBytes 8 deadline.toNat ++ nonce.toList ++
    quoteBinding.bytes)

def PaymentTerms.digestFor (terms : PaymentTerms P) (domain : Bytes) : Digest64 :=
  digestPublicFieldsFor primitives sha512 domain terms.amountCommitment terms.priceCommitment
    terms.assetCommitment terms.payerHandle terms.payeeHandle terms.deadline terms.nonce
    terms.quoteBinding

variable (instruction : Instruction P library quorum)

def Instruction.digestFor (domain : Bytes) : Digest64 :=
  digestPublicFieldsFor primitives sha512 domain instruction.amountCommitment
    instruction.priceCommitment instruction.assetCommitment instruction.payerHandle
    instruction.payeeHandle instruction.deadline instruction.nonce instruction.quoteBinding

def Instruction.nullifier : Digest32 :=
  (sha512 (utf8 "QOMM:ZKPI:NUL:v1" ++ instruction.nonce.toList ++
    primitives.compress instruction.payerHandle ++
    primitives.compress instruction.payeeHandle)).take 32

def Instruction.quoteProofDigest : Option Digest32 :=
  match instruction.quoteBinding with
  | .legacyPackedKey _ => none
  | .proofDigest value => some value

/-- A payment from evidence the quorum assembled, checked against the published bounds. -/
def PartialInstruction.fromThresholdRanges [AddCommGroup P] [Module Scalar P] [DecidableEq P]
    (key : Pedersen P) (bounds : Bounds) (terms : PaymentTerms P)
    (amountRange priceRange : ThresholdRangeProof P) :
    Except String (PartialInstruction P library) := do
  refuseIf (amountRange.bits ≠ bounds.amountBits ∨
      ¬ verifyThresholdRange primitives key terms.amountCommitment amountRange amountRangeContext)
    "the threshold amount proof is outside the published bounds"
  refuseIf (priceRange.bits ≠ bounds.priceBits ∨
      ¬ verifyThresholdRange primitives key terms.priceCommitment priceRange priceRangeContext)
    "the threshold price proof is outside the published bounds"
  refuseIf (primitives.compress terms.payerHandle = primitives.compress terms.payeeHandle)
    "the payer and the payee are the same handle"
  .ok ⟨terms, .threshold amountRange priceRange⟩

theorem PartialInstruction.fromThresholdRanges_ok [AddCommGroup P] [Module Scalar P]
    [DecidableEq P] {key : Pedersen P} {bounds : Bounds} {terms : PaymentTerms P}
    {amountRange priceRange : ThresholdRangeProof P} {payment : PartialInstruction P library}
    (h : PartialInstruction.fromThresholdRanges primitives key bounds terms amountRange
      priceRange = .ok payment) :
    payment.terms = terms ∧
      primitives.compress terms.payerHandle ≠ primitives.compress terms.payeeHandle := by
  obtain ⟨-, h⟩ := refuseIf_bind_ok.mp h
  obtain ⟨-, h⟩ := refuseIf_bind_ok.mp h
  obtain ⟨happart, h⟩ := refuseIf_bind_ok.mp h
  cases h
  exact ⟨rfl, happart⟩

end Digests

end Zkpi.PaymentInstruction
