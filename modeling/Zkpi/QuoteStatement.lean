import Zkpi.AggregatedRanges
import Zkpi.ThresholdRange

/-!
# The quote statement and its verifier

A quote is the smallest packed key over a public register of committed maker
policies. The proof carries, maker by maker, the products, bits and ranges that
tie the key to the registered commitments, the request and the clock, and over
the whole set an opening of the winner and a range for every difference to it.
The verifier below makes every check of the source in the source's order.
-/

namespace Zkpi.QuoteStatement

open ScalarField ByteText FallibleChecks PedersenSigma BitRange AggregatedRanges ThresholdRange

/-! ## Statements and proofs -/

/-- The commitments a maker put on the record before any request arrived. -/
structure RegisteredPolicy (P : Type) where
  /-- The market this policy serves. -/
  makerAsset : UInt32
  askLevel : P
  spread : P
  slope : P
  invcoef : P
  inv : P
  maxqty : P
  expiry : P
  active : P
  /-- Selects the reference price as the base of the level. -/
  useRef : P

/-- The commitments in the order they are hashed. -/
def RegisteredPolicy.parts {P : Type} (policy : RegisteredPolicy P) : List P :=
  [policy.askLevel, policy.spread, policy.slope, policy.invcoef, policy.inv, policy.maxqty,
    policy.expiry, policy.active, policy.useRef]

/-- What the verifier is told in the clear. -/
structure Public (P : Type) where
  qtyCommitment : P
  now : Int64
  sentinel : Int64
  nSlots : Int64
  /-- Zero when the user buys and pays the ask, one when the user sells. -/
  direction : UInt8
  asset : UInt32
  referencePrice : Int64
  registry : List (RegisteredPolicy P)
  registryDigest : Digest32
  marketDigest : Digest32
  slot : UInt64

inductive BitValidityProof (P : Type) where
  | disjunction (proof : BitProof P)
  | square (proof : ProductProof P)

/-- One sign test: the bit, what proves it and the value its range covers. -/
structure Gate (P : Type) where
  commitment : P
  bitProof : BitValidityProof P
  product : ProductProof P
  productCommitment : P
  witnessCommitment : P

inductive EligibilityProof (P : Type) (library : Bulletproofs P) where
  | bulletproof (proof : library.RangeProof) (commitments : List Bytes)
  | threshold (fits fresh : ThresholdRangeProof P)

/-- The ranges of the differences to the winner. -/
inductive MinimalityProof (P : Type) (library : Bulletproofs P) where
  | bulletproof (proof : library.RangeProof) (commitments : List Bytes)
  | threshold (proofs : List (ThresholdRangeProof P))

structure MakerCommitments (P : Type) where
  slope : P
  invcoef : P
  inv : P
  depth : P
  skew : P
  fits : P
  /-- The expiry less the clock; carried, and never read by the verifier. -/
  fresh : P
  active : P
  ok : P
  /-- The expiry less the clock and one. -/
  freshStrict : P
  /-- Both margins hold, before the activity flag is folded in. -/
  both : P
  cost : P
  gated : P
  shiftedCost : P

structure MakerProof (P : Type) (library : Bulletproofs P) where
  depth : ProductProof P
  skew : ProductProof P
  gateCost : ProductProof P
  eligibility : EligibilityProof P library
  activeBit : BitValidityProof P
  referenceBit : BitValidityProof P
  fitsGate : Gate P
  freshGate : Gate P
  /-- Both margins, then that and the activity flag. -/
  conjunction : ProductProof P × ProductProof P
  commitments : MakerCommitments P

structure QuoteProof (P : Type) (library : Bulletproofs P) where
  winnerIndex : ℕ
  winnerValue : UInt64
  makerProofs : List (MakerProof P library)
  winnerOpening : OpeningProof P
  minimality : MinimalityProof P library
  keyCommitments : List P

/-- Why a quote proof is refused. -/
inductive Invalid where
  | noMakers
  | malformed (message : String)
  | direction
  | slotCount
  | notOnTheRegister (index : ℕ) (name : String)
  | registryDigest
  | registrySize
  | depth (index : ℕ)
  | skew (index : ℕ)
  | eligibility (index : ℕ)
  | activeNotABit (index : ℕ)
  | referenceFlagNotABit (index : ℕ)
  | cost (index : ℕ)
  | shiftedCost (index : ℕ)
  | costNotGated (index : ℕ)
  | key (index : ℕ)
  | winnerDoesNotOpen
  | notMinimal
deriving DecidableEq

open Invalid

/-! ## Widths -/

def bpWidth (bits : ℕ) : Option ℕ := [8, 16, 32, 64].find? (bits ≤ ·)

theorem bpWidth_some (h : bits ≤ 64) :
    ∃ width, bpWidth bits = some width ∧ validBits width = true := by
  by_cases h8 : bits ≤ 8
  · exact ⟨8, by simp [bpWidth, h8], rfl⟩
  · by_cases h16 : bits ≤ 16
    · exact ⟨16, by simp [bpWidth, h8, h16], rfl⟩
    · by_cases h32 : bits ≤ 32
      · exact ⟨32, by simp [bpWidth, h8, h16, h32], rfl⟩
      · exact ⟨64, by simp [bpWidth, h8, h16, h32, h], rfl⟩

def roundedWidth (bits : ℕ) (h : bits ≤ 64) : ℕ :=
  (bpWidth bits).get (by
    obtain ⟨_, hwidth, _⟩ := bpWidth_some h
    rw [hwidth, Option.isSome_some])

theorem roundedWidth_valid (h : bits ≤ 64) : validBits (roundedWidth bits h) = true := by
  obtain ⟨_, hwidth, hvalid⟩ := bpWidth_some h
  simp [roundedWidth, hwidth, hvalid]

/-- A commitment key with the two proof widths. Only the checked constructor
builds one. -/
structure QuoteCircuit (P : Type) where
  key : Pedersen P
  eligibilityBits : ℕ
  spanBits : ℕ
  eligibility_le : eligibilityBits + 2 ≤ 64
  span_pos : 0 < spanBits
  span_le : spanBits ≤ 64

theorem QuoteCircuit.eligibility_supported {P : Type} (circuit : QuoteCircuit P) :
    validBits (roundedWidth (circuit.eligibilityBits + 2) circuit.eligibility_le) = true :=
  roundedWidth_valid circuit.eligibility_le

theorem QuoteCircuit.span_supported {P : Type} (circuit : QuoteCircuit P) :
    validBits (roundedWidth circuit.spanBits circuit.span_le) = true :=
  roundedWidth_valid circuit.span_le

/-- The checked constructor; the key is the range library's own. -/
def QuoteCircuit.tryNew {P : Type} (defaultGens : Pedersen P) (eligibilityBits spanBits : ℕ) :
    Except String (QuoteCircuit P) :=
  if h : eligibilityBits > 62 then
    .error "eligibility width plus its two gadget bits exceeds 64"
  else if hspan : spanBits = 0 ∨ spanBits > 64 then
    .error "minimality span width must be between 1 and 64 bits"
  else .ok ⟨defaultGens, eligibilityBits, spanBits, by omega, by omega, by omega⟩

theorem tryNew_key {P : Type} {defaultGens : Pedersen P} {eligibilityBits spanBits : ℕ}
    {circuit : QuoteCircuit P}
    (h : QuoteCircuit.tryNew defaultGens eligibilityBits spanBits = .ok circuit) :
    circuit.key = defaultGens := by
  unfold QuoteCircuit.tryNew at h
  split at h
  · cases h
  · split at h
    · cases h
    · cases h
      rfl

/-! ## Contexts and transcripts -/

def i64Bytes (value : Int64) : Bytes := beBytes 8 value.toUInt64.toNat

section Contexts

variable {P : Type} (primitives : Primitives P) (sha256 : Bytes → Digest32)

def registeredPolicyDigest (index : ℕ) (policy : RegisteredPolicy P) : Digest32 :=
  sha256 (utf8 "QOMM:QUOTE:REGISTERED-POLICY:v1" ++ beBytes 8 index ++
    beBytes 4 policy.makerAsset.toNat ++ policy.parts.flatMap primitives.compress)

def registryDigest (registered : List (RegisteredPolicy P)) : Digest32 :=
  sha256 (utf8 "QOMM:QUOTE:REGISTRY:v2" ++ beBytes 8 registered.length ++
    registered.flatMap fun policy =>
      beBytes 4 policy.makerAsset.toNat ++ policy.parts.flatMap primitives.compress)

/-- The context every proof transcript is bound to: the caller's, length first,
and the complete public statement. -/
def statementContext (context : Bytes) (statement : Public P) : Bytes :=
  (sha256 (utf8 "QOMM:QUOTE:STATEMENT:v3" ++ beBytes 8 context.length ++ context ++
    primitives.compress statement.qtyCommitment ++ i64Bytes statement.now ++
    i64Bytes statement.sentinel ++ i64Bytes statement.nSlots ++ [statement.direction] ++
    beBytes 4 statement.asset.toNat ++ i64Bytes statement.referencePrice ++
    statement.registryDigest.toList ++ statement.marketDigest.toList ++
    beBytes 8 statement.slot.toNat)).toList

end Contexts

variable (context : Bytes)

variable (index : ℕ)

def gateContext (what : String) : Bytes :=
  context ++ utf8 ":mm:" ++ beBytes 8 index ++ utf8 ":" ++ utf8 what

def gateRangeContext (what : String) : Bytes :=
  gateContext context index what ++ utf8 ":ge"

def minimalityContext : Bytes :=
  context ++ utf8 ":min:" ++ beBytes 8 index

def tag (part : String) : Transcript :=
  (((Transcript.new (utf8 "qomm:quote:v1")).appendMessage "ctx" context).appendMessage "mm"
    (leBytes 8 index)).appendMessage "part" (utf8 part)

def whole (part : String) : Transcript :=
  ((Transcript.new (utf8 "qomm:quote:v1")).appendMessage "ctx" context).appendMessage "part"
    (utf8 part)

def gateBitTranscript : Transcript :=
  (Transcript.new (utf8 "qomm:quote:gate:bit")).appendMessage "ctx" context

def gateProductTranscript : Transcript :=
  (Transcript.new (utf8 "qomm:quote:gate:prod")).appendMessage "ctx" context

/-- Twice a signed machine integer, if it is one. -/
def checkedDouble (value : Int64) : Option Int64 :=
  if -2 ^ 63 ≤ 2 * value.toInt ∧ 2 * value.toInt < 2 ^ 63 then some (Int64.ofInt (2 * value.toInt))
  else none

theorem checkedDouble_some (h : checkedDouble value = some double) :
    double.toInt = 2 * value.toInt := by
  unfold checkedDouble at h
  split at h
  · rename_i hrange
    cases h
    exact Int64.toInt_ofInt_of_le (by omega) (by omega)
  · cases h

/-! ## The verifier -/

section Verifier

variable {P : Type} [AddCommGroup P] [Module Scalar P] [DecidableEq P]
variable {library : Bulletproofs P}
variable (primitives : Primitives P) (sha256 : Bytes → Digest32)

namespace QuoteCircuit

variable (circuit : QuoteCircuit P)

def checkBitProof (commitment : P) (proof : BitValidityProof P) (transcript : Transcript) : Bool :=
  match proof with
  | .disjunction proof => verifyBit primitives circuit.key transcript commitment proof
  | .square proof =>
    verifyProduct primitives circuit.key transcript commitment commitment commitment proof

def derivedWitness (base : P) (gate : Gate P) : P :=
  gate.productCommitment + gate.productCommitment - base + gate.commitment - circuit.key.commit 1 0

def checkGate (base : P) (gate : Gate P) (context : Bytes) : Bool :=
  if ¬ circuit.checkBitProof primitives gate.commitment gate.bitProof
      (gateBitTranscript context) then false
  else if ¬ verifyProduct primitives circuit.key (gateProductTranscript context) gate.commitment
      base gate.productCommitment gate.product then false
  else primitives.compress (circuit.derivedWitness base gate) =
    primitives.compress gate.witnessCommitment

/-- Range contexts of a width for a number of values, under the library's own
generators, which are the circuit's key. -/
def ranges (bits count : ℕ) (supported : validBits bits = true) : RangeCtx P :=
  RangeCtx.new circuit.key bits (max count.nextPowerOfTwo 1) supported

def checkShape (proof : QuoteProof P library) (statement : Public P) : Except Invalid Unit := do
  refuseIf (statement.registry = []) noMakers
  refuseIf (statement.direction > 1) direction
  refuseIf (statement.nSlots.toInt ≤ 0 ∨ statement.nSlots.toInt.toNat < statement.registry.length)
    slotCount
  refuseIf (statement.registry.length ≠ proof.makerProofs.length) registrySize
  refuseIf (proof.keyCommitments.length ≠ statement.registry.length)
    (malformed "one key commitment is required per maker")
  refuseIf (proof.winnerIndex ≥ statement.registry.length)
    (malformed "winner index is outside the registry")
  refuseIf (QuoteStatement.registryDigest primitives sha256 statement.registry ≠
    statement.registryDigest) Invalid.registryDigest

variable (statement : Public P)

def checkRegister (index : ℕ) (registered : RegisteredPolicy P) (maker : MakerProof P library) :
    Except Invalid Unit :=
  [("slope", registered.slope, maker.commitments.slope),
    ("invcoef", registered.invcoef, maker.commitments.invcoef),
    ("inv", registered.inv, maker.commitments.inv),
    ("maxqty", registered.maxqty, maker.commitments.fits + statement.qtyCommitment),
    ("expiry", registered.expiry, maker.commitments.freshStrict +
      circuit.key.commit (scalarFromI64 statement.now) 0 + circuit.key.commit 1 0),
    ("active", registered.active, maker.commitments.active)].forM fun entry =>
      refuseIf (primitives.compress entry.2.1 ≠ primitives.compress entry.2.2)
        (notOnTheRegister index entry.1)

def checkEligibility (context : Bytes) (index : ℕ) (maker : MakerProof P library) :
    Except Invalid Unit :=
  match maker.eligibility with
  | .bulletproof proof commitments => do
    refuseIf (commitments.length ≠ 2)
      (malformed "each eligibility proof must carry exactly two commitments")
    refuseIf (commitments ≠ [primitives.compress maker.fitsGate.witnessCommitment,
      primitives.compress maker.freshGate.witnessCommitment]) (eligibility index)
    refuseIf (¬ (circuit.ranges
        (roundedWidth (circuit.eligibilityBits + 2) circuit.eligibility_le) 2
        circuit.eligibility_supported).verify library (tag context index "eligibility") proof
          commitments)
      (eligibility index)
  | .threshold fits fresh => do
    refuseIf (fits.bits ≠ circuit.eligibilityBits + 2 ∨ fresh.bits ≠ circuit.eligibilityBits + 2)
      (eligibility index)
    refuseIf (¬ verifyThresholdRange primitives circuit.key maker.fitsGate.witnessCommitment fits
        (gateRangeContext context index "fits") ∨
      ¬ verifyThresholdRange primitives circuit.key maker.freshGate.witnessCommitment fresh
        (gateRangeContext context index "fresh")) (eligibility index)

def derivedCost (registered : RegisteredPolicy P) (maker : MakerProof P library) : P :=
  let c := maker.commitments
  let anchored :=
    registered.askLevel + scalarFromI64 statement.referencePrice • registered.useRef
  let ask := anchored + c.depth + c.skew
  let bid := anchored - registered.spread - c.depth + c.skew
  if statement.direction = 1 then -bid else ask

def checkMargins (context : Bytes) (index : ℕ) (registered : RegisteredPolicy P)
    (maker : MakerProof P library) : Except Invalid Unit := do
  let c := maker.commitments
  refuseIf (¬ verifyProduct primitives circuit.key (tag context index "depth") c.slope
    statement.qtyCommitment c.depth maker.depth) (depth index)
  refuseIf (¬ verifyProduct primitives circuit.key (tag context index "skew") c.invcoef c.inv
    c.skew maker.skew) (skew index)
  circuit.checkEligibility primitives context index maker
  refuseIf (¬ circuit.checkBitProof primitives c.active maker.activeBit
    (tag context index "active")) (activeNotABit index)
  refuseIf (¬ circuit.checkBitProof primitives registered.useRef maker.referenceBit
    (tag context index "reference")) (referenceFlagNotABit index)
  refuseIf (primitives.compress (registered.maxqty - statement.qtyCommitment) ≠
    primitives.compress c.fits) (notOnTheRegister index "fits")
  refuseIf (primitives.compress (registered.expiry -
      circuit.key.commit (scalarFromI64 statement.now) 0 - circuit.key.commit 1 0) ≠
    primitives.compress c.freshStrict) (notOnTheRegister index "fresh")
  refuseIf (¬ circuit.checkGate primitives c.fits maker.fitsGate
    (gateContext context index "fits")) (eligibility index)
  refuseIf (¬ circuit.checkGate primitives c.freshStrict maker.freshGate
    (gateContext context index "fresh")) (eligibility index)

def checkKey (context : Bytes) (index : ℕ) (registered : RegisteredPolicy P)
    (maker : MakerProof P library) (keyCommitment : P) :
    Except Invalid Unit := do
  let c := maker.commitments
  refuseIf (¬ verifyProduct primitives circuit.key (tag context index "ok1")
    maker.fitsGate.commitment maker.freshGate.commitment c.both maker.conjunction.1)
    (eligibility index)
  let effectiveActive := bitScalar (registered.makerAsset = statement.asset) • c.active
  refuseIf (¬ verifyProduct primitives circuit.key (tag context index "ok2") c.both effectiveActive
    c.ok maker.conjunction.2) (eligibility index)
  refuseIf (primitives.compress (derivedCost statement registered maker) ≠
    primitives.compress c.cost) (cost index)
  refuseIf (primitives.compress (c.cost - circuit.key.commit (scalarFromI64 statement.sentinel) 0) ≠
    primitives.compress c.shiftedCost) (shiftedCost index)
  refuseIf (¬ verifyProduct primitives circuit.key (tag context index "gate") c.ok c.shiftedCost
    c.gated maker.gateCost) (costNotGated index)
  let double ← orRefuse (checkedDouble statement.sentinel) (malformed "sentinel overflow")
  let ranked := c.gated + circuit.key.commit (scalarFromI64 double) 0
  let derivedKey := scalarFromI64 statement.nSlots • ranked + circuit.key.commit (index : Scalar) 0
  refuseIf (primitives.compress derivedKey ≠ primitives.compress keyCommitment)
    (Invalid.key index)

def checkMinimality (proof : QuoteProof P library) (context : Bytes) : Except Invalid Unit :=
  let winner := proof.keyCommitments.getD proof.winnerIndex 0
  match proof.minimality with
  | .bulletproof rangeProof commitments => do
    let expected := proof.keyCommitments.map fun commitment => commitment - winner
    -- Aggregation sizes are powers of two; the rest is filled with the identity.
    let padded := expected ++ List.replicate (expected.length.nextPowerOfTwo - expected.length) 0
    refuseIf (commitments ≠ padded.map primitives.compress) notMinimal
    refuseIf (¬ (circuit.ranges (roundedWidth circuit.spanBits circuit.span_le)
      proof.keyCommitments.length circuit.span_supported).verify library
      (whole context "minimality") rangeProof commitments) notMinimal
  | .threshold proofs => do
    refuseIf (proofs.length ≠ proof.keyCommitments.length)
      (malformed "one minimality proof is required per maker")
    (proof.keyCommitments.zip proofs).zipIdx.forM fun entry =>
      refuseIf (entry.1.2.bits ≠ circuit.spanBits ∨
        ¬ verifyThresholdRange primitives circuit.key (entry.1.1 - winner) entry.1.2
          (minimalityContext context entry.2)) notMinimal

/-- Verify a quote proof for a statement. The lengths agree once the shape is
checked, so indexing the register and the keys is pairing them up. -/
def verify (proof : QuoteProof P library) (statement : Public P) (context : Bytes) :
    Except Invalid Unit := do
  checkShape primitives sha256 proof statement
  let proofContext := statementContext primitives sha256 context statement
  (statement.registry.zip proof.makerProofs).zipIdx.forM fun entry =>
    circuit.checkRegister primitives statement entry.2 entry.1.1 entry.1.2
  (statement.registry.zip (proof.makerProofs.zip proof.keyCommitments)).zipIdx.forM fun entry => do
    circuit.checkMargins primitives statement proofContext entry.2 entry.1.1 entry.1.2.1
    circuit.checkKey primitives statement proofContext entry.2 entry.1.1 entry.1.2.1 entry.1.2.2
  refuseIf (¬ verifyZeroOpening primitives circuit.key (whole proofContext "winner")
    (circuit.key.shift (proof.keyCommitments.getD proof.winnerIndex 0) proof.winnerValue)
    proof.winnerOpening) winnerDoesNotOpen
  circuit.checkMinimality primitives proof proofContext

end QuoteCircuit

end Verifier

end Zkpi.QuoteStatement
