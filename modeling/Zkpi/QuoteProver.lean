import Zkpi.QuoteStatement
import Zkpi.SignedIntegers

/-!
# The prover that holds every witness

One prover knows every maker's policy and the blindings it was registered under.
Its prices, margins and keys are checked signed 64-bit arithmetic, each step with
its own error; everything else is commitments and sub-proofs. Randomness is a tape
of scalars read in the order the source draws it: one for the request, 42 for each
maker and two for the winner. The range library draws its own.
-/

namespace Zkpi.QuoteProver

open ScalarField ByteText FallibleChecks SignedIntegers PedersenSigma BitRange AggregatedRanges
open QuoteStatement

/-! ## Witnesses -/

structure Registered where
  askLevel : Scalar
  spread : Scalar
  slope : Scalar
  invcoef : Scalar
  inv : Scalar
  maxqty : Scalar
  expiry : Scalar
  active : Scalar

def Registered.isRegistered (blindings : Registered) : Bool :=
  !([blindings.askLevel, blindings.spread, blindings.slope, blindings.invcoef, blindings.inv,
    blindings.maxqty, blindings.expiry, blindings.active].all fun blinding => blinding = 0)

structure MakerWitness where
  askLevel : Int64
  spread : Int64
  slope : Int64
  invcoef : Int64
  inv : Int64
  maxqty : Int64
  expiry : Int64
  active : Bool
  blindings : Registered

/-- What a single-market policy puts on the record: asset zero, no reference. -/
def MakerWitness.registered {P : Type} [AddCommGroup P] [Module Scalar P] (maker : MakerWitness)
    (key : Pedersen P) : RegisteredPolicy P where
  makerAsset := 0
  askLevel := key.commit (scalarFromI64 maker.askLevel) maker.blindings.askLevel
  spread := key.commit (scalarFromI64 maker.spread) maker.blindings.spread
  slope := key.commit (scalarFromI64 maker.slope) maker.blindings.slope
  invcoef := key.commit (scalarFromI64 maker.invcoef) maker.blindings.invcoef
  inv := key.commit (scalarFromI64 maker.inv) maker.blindings.inv
  maxqty := key.commit (scalarFromI64 maker.maxqty) maker.blindings.maxqty
  expiry := key.commit (scalarFromI64 maker.expiry) maker.blindings.expiry
  active := key.commit (bitScalar maker.active) maker.blindings.active
  useRef := 0

/-! ## Checked values -/

structure MarginValues where
  depth : Int64
  skew : Int64
  ask : Int64
  bid : Int64
  fits : Int64
  fresh : Int64
  freshStrict : Int64

def marginValues (maker : MakerWitness) (qty now : Int64) : Except String MarginValues := do
  let depth ← orRefuse (checkedMul maker.slope qty) "depth overflow"
  let skew ← orRefuse (checkedMul maker.invcoef maker.inv) "inventory skew overflow"
  let ask ← orRefuse ((checkedAdd maker.askLevel depth).bind fun v => checkedAdd v skew)
    "ask price overflow"
  let bid ← orRefuse ((checkedSub maker.askLevel maker.spread).bind fun v =>
    (checkedSub v depth).bind fun v => checkedAdd v skew) "bid price overflow"
  let fits ← orRefuse (checkedSub maker.maxqty qty) "size margin overflow"
  let fresh ← orRefuse (checkedSub maker.expiry now) "expiry margin overflow"
  let freshStrict ← orRefuse (checkedSub fresh 1) "strict expiry overflow"
  .ok ⟨depth, skew, ask, bid, fits, fresh, freshStrict⟩

structure MarginValues.Exact (maker : MakerWitness) (qty now : Int64) (values : MarginValues) :
    Prop where
  depth : values.depth.toInt = maker.slope.toInt * qty.toInt
  skew : values.skew.toInt = maker.invcoef.toInt * maker.inv.toInt
  ask : values.ask.toInt = maker.askLevel.toInt + values.depth.toInt + values.skew.toInt
  bid : values.bid.toInt =
    maker.askLevel.toInt - maker.spread.toInt - values.depth.toInt + values.skew.toInt
  fits : values.fits.toInt = maker.maxqty.toInt - qty.toInt
  fresh : values.fresh.toInt = maker.expiry.toInt - now.toInt
  freshStrict : values.freshStrict.toInt = maker.expiry.toInt - now.toInt - 1

theorem marginValues_ok
    (h : marginValues maker qty now = .ok values) : values.Exact maker qty now := by
  simp only [marginValues, bind_ok, orRefuse_ok, Option.bind_eq_some_iff, checkedMul_eq_some,
    checkedAdd_eq_some, checkedSub_eq_some] at h
  obtain ⟨_, hdepth, _, hskew, _, ⟨_, hlevel, hask⟩, _,
    ⟨_, hlower, _, hdeeper, hbid⟩, _, hfits, _, hfresh, _, hstrict, hvalues⟩ :=
    h
  cases hvalues
  refine ⟨hdepth, hskew, ?_, ?_, hfits, hfresh, ?_⟩
  · rw [hask, hlevel]
  · rw [hbid, hdeeper, hlower]
  · rw [hstrict, hfresh]
    rfl

structure KeyValues where
  cost : Int64
  shiftedCost : Int64
  gated : Int64
  packed : Int64

def costValue (margins : MarginValues) (direction : UInt8) : Except String Int64 :=
  if direction = 1 then orRefuse (checkedNeg margins.bid) "sell cost overflow"
  else .ok margins.ask

/-- Compute the cost and the key, or name the first step that overflows. A key
below zero means that the sentinel does not cover the cost. -/
def keyValues (margins : MarginValues) (ok : Bool) (direction : UInt8) (sentinel nSlots : Int64)
    (index : ℕ) : Except String KeyValues := do
  let cost ← costValue margins direction
  let shiftedCost ← orRefuse (checkedSub cost sentinel) "shifted cost overflow"
  let gated := if ok then shiftedCost else 0
  let effective ← orRefuse (checkedAdd gated sentinel) "effective cost overflow"
  let ranked ← orRefuse (checkedAdd effective sentinel) "ranked cost overflow"
  let packed ← orRefuse ((checkedMul ranked nSlots).bind fun v =>
    (checked index).bind fun slot => checkedAdd v slot) "packed key overflow"
  refuseIf (packed.toInt < 0) "the sentinel does not cover the signed quote cost"
  .ok ⟨cost, shiftedCost, gated, packed⟩

structure KeyValues.Exact (margins : MarginValues) (ok : Bool) (direction : UInt8)
    (sentinel nSlots : Int64) (index : ℕ) (values : KeyValues) : Prop where
  cost : values.cost.toInt = if direction = 1 then -margins.bid.toInt else margins.ask.toInt
  shiftedCost : values.shiftedCost.toInt = values.cost.toInt - sentinel.toInt
  gated : values.gated.toInt = if ok then values.shiftedCost.toInt else 0
  packed : values.packed.toInt =
    (values.gated.toInt + 2 * sentinel.toInt) * nSlots.toInt + index
  covered : 0 ≤ values.packed.toInt

theorem keyValues_ok
    (h : keyValues margins ok direction sentinel nSlots index = .ok values) :
    values.Exact margins ok direction sentinel nSlots index := by
  simp only [keyValues, bind_ok, refuseIf_ok, orRefuse_ok, Option.bind_eq_some_iff,
    checkedMul_eq_some, checkedAdd_eq_some, checkedSub_eq_some, checked_eq_some] at h
  obtain ⟨cost, hcost, shifted, hshifted, effective, heffective, ranked, hranked, packed,
    ⟨scaled, hscaled, slot, hslot, hpacked⟩, _, hcovered, hvalues⟩ := h
  cases hvalues
  refine ⟨?_, hshifted, ?_, ?_, not_lt.mp hcovered⟩
  · unfold costValue at hcost
    split at hcost
    · rename_i hsell
      rw [if_pos hsell]
      exact checkedNeg_eq_some.mp (orRefuse_ok.mp hcost)
    · rename_i hbuy
      cases hcost
      rw [if_neg hbuy]
  · cases ok <;> rfl
  · rw [hpacked, hscaled, hslot, hranked, heffective]
    ring

/-! ## Sign tests -/

/-- What the prover keeps of a sign test. -/
structure GateWitness where
  holds : Bool
  blinding : Scalar
  /-- The derived value a range has to cover. -/
  witness : Int64
  witnessBlinding : Scalar

/-- The derived value of a sign test: the value itself when it is not negative,
its complement otherwise. -/
def gateWitness (value : Int64) (holds : Bool) : Option Int64 :=
  (checkedMul (if holds then value else 0) 2).bind fun v =>
    (checkedSub v value).bind fun v =>
      (checkedAdd v (ofFlag holds)).bind fun v => checkedSub v 1

theorem gateWitness_some (h : gateWitness value (decide (0 ≤ value.toInt)) = some witness) :
    0 ≤ witness.toInt ∧
    witness.toInt = 2 * (if 0 ≤ value.toInt then value.toInt else 0) - value.toInt +
      (if 0 ≤ value.toInt then 1 else 0) - 1 := by
  simp only [gateWitness, Option.bind_eq_some_iff, checkedMul_eq_some, checkedSub_eq_some,
    checkedAdd_eq_some, ofFlag_toInt, decide_eq_true_eq] at h
  obtain ⟨double, hdouble, difference, hdifference, raised, hraised, hwitness⟩ := h
  have htwo : (2 : Int64).toInt = 2 := rfl
  have hone : (1 : Int64).toInt = 1 := rfl
  have hzero : (0 : Int64).toInt = 0 := rfl
  rw [htwo] at hdouble
  rw [hone] at hwitness
  split at hdouble
  · rename_i hpos
    simp only [hpos, if_true] at hraised ⊢
    omega
  · rename_i hneg
    rw [hzero] at hdouble
    simp only [hneg, if_false] at hraised ⊢
    omega

section Prover

variable {P : Type} [AddCommGroup P] [Module Scalar P]
variable {library : Bulletproofs P}
variable (primitives : Primitives P) (sha256 : Bytes → Digest32) (circuit : QuoteCircuit P)

/-- Commit to the sign of a committed value, with its proofs and the derived value
a range has to cover. Reads eight draws. -/
def geZeroBit (value : Int64) (blinding : Scalar) (commitment : P) (context : Bytes)
    (draws : ℕ → Scalar) : Except String (Gate P × GateWitness) := do
  let key := circuit.key
  let holds : Bool := 0 ≤ value.toInt
  let rBit := draws 0
  let cBit := key.commit (bitScalar holds) rBit
  let bitProof := BitValidityProof.disjunction (proveBit primitives key
    (gateBitTranscript context) cBit holds rBit (draws 1) (draws 2) (draws 3))
  let rProduct := draws 4
  let product := proveProduct primitives key (gateProductTranscript context) cBit
    (bitScalar holds) rBit (scalarFromI64 value) blinding rProduct (draws 5) (draws 6) (draws 7)
  let productValue := if holds then value else 0
  let cProduct := key.commit (scalarFromI64 productValue) rProduct
  let witness ← orRefuse (gateWitness value holds) "eligibility witness overflow"
  let witnessBlinding := rProduct + rProduct - blinding + rBit
  let cWitness := cProduct + cProduct - commitment + cBit - key.commit 1 0
  .ok (⟨cBit, bitProof, product, cProduct, cWitness⟩, ⟨holds, rBit, witness, witnessBlinding⟩)

/-! ## One maker -/

structure WireBlindings where
  qty : Scalar
  depth : Scalar
  skew : Scalar
  both : Scalar
  ok : Scalar
  gated : Scalar

def costBlinding (maker : MakerWitness) (direction : UInt8) (r : WireBlindings) : Scalar :=
  let rAsk := maker.blindings.askLevel + r.depth + r.skew
  let rBid := maker.blindings.askLevel - maker.blindings.spread - r.depth + r.skew
  if direction = 1 then -rBid else rAsk

def makerCommitments (key : Pedersen P) (maker : MakerWitness) (direction : UInt8)
    (margins : MarginValues) (both ok : Bool) (keys : KeyValues) (r : WireBlindings) :
    MakerCommitments P where
  slope := key.commit (scalarFromI64 maker.slope) maker.blindings.slope
  invcoef := key.commit (scalarFromI64 maker.invcoef) maker.blindings.invcoef
  inv := key.commit (scalarFromI64 maker.inv) maker.blindings.inv
  depth := key.commit (scalarFromI64 margins.depth) r.depth
  skew := key.commit (scalarFromI64 margins.skew) r.skew
  fits := key.commit (scalarFromI64 margins.fits) (maker.blindings.maxqty - r.qty)
  fresh := key.commit (scalarFromI64 margins.fresh) maker.blindings.expiry
  active := key.commit (bitScalar maker.active) maker.blindings.active
  ok := key.commit (bitScalar ok) r.ok
  freshStrict := key.commit (scalarFromI64 margins.fresh) maker.blindings.expiry - key.commit 1 0
  both := key.commit (bitScalar both) r.both
  cost := key.commit (scalarFromI64 keys.cost) (costBlinding maker direction r)
  gated := key.commit (scalarFromI64 keys.gated) r.gated
  shiftedCost := key.commit (scalarFromI64 keys.shiftedCost) (costBlinding maker direction r)

structure ProvedMaker (P : Type) (library : Bulletproofs P) where
  packed : UInt64
  blinding : Scalar
  keyCommitment : P
  proof : MakerProof P library

def makerDraws : ℕ := 42

def wireBlindings (rQty : Scalar) (draws : ℕ → Scalar) : WireBlindings :=
  ⟨rQty, draws 0, draws 4, draws 30, draws 34, draws 38⟩

/-- Prove one maker's part of a quote. The register's entry for the maker is the
one its own witness commits to. -/
def proveMaker (statement : Public P) (context : Bytes) (qty : Int64) (rQty : Scalar)
    (maker : MakerWitness) (index : ℕ) (draws entropy : ℕ → Scalar) :
    Except String (ProvedMaker P library) := do
  let key := circuit.key
  let blindings := maker.blindings
  let r := wireBlindings rQty draws
  let cActive := key.commit (bitScalar maker.active) blindings.active
  let margins ← marginValues maker qty statement.now
  let (fitsGate, fitsWitness) ← geZeroBit primitives circuit margins.fits
    (blindings.maxqty - rQty)
    (key.commit (scalarFromI64 margins.fits) (blindings.maxqty - rQty))
    (gateContext context index "fits") (fun n => draws (8 + n))
  let (freshGate, freshWitness) ← geZeroBit primitives circuit margins.freshStrict
    blindings.expiry
    (key.commit (scalarFromI64 margins.fresh) blindings.expiry - key.commit 1 0)
    (gateContext context index "fresh") (fun n => draws (16 + n))
  let (eligibility, eligibilityCommitments) ← (circuit.ranges
      (roundedWidth (circuit.eligibilityBits + 2) circuit.eligibility_le) 2
      circuit.eligibility_supported).prove library (tag context index "eligibility")
    [fitsWitness.witness.toUInt64, freshWitness.witness.toUInt64]
    [fitsWitness.witnessBlinding, freshWitness.witnessBlinding] entropy
  let both := fitsWitness.holds && freshWitness.holds
  let assetMatch : Bool := (maker.registered key).makerAsset = statement.asset
  let effectiveActive := maker.active && assetMatch
  let effectiveActiveBlinding := if assetMatch then blindings.active else 0
  let ok := both && effectiveActive
  let keys ← keyValues margins ok statement.direction statement.sentinel statement.nSlots index
  let c := makerCommitments key maker statement.direction margins both ok keys r
  let rCost := costBlinding maker statement.direction r
  let rPacked := r.gated * scalarFromI64 statement.nSlots
  let packed := keys.packed.toUInt64
  .ok {
    packed
    blinding := rPacked
    keyCommitment := key.commitU64 packed rPacked
    proof := {
      depth := proveProduct primitives key (tag context index "depth") c.slope
        (scalarFromI64 maker.slope) blindings.slope (scalarFromI64 qty) rQty r.depth
        (draws 1) (draws 2) (draws 3)
      skew := proveProduct primitives key (tag context index "skew") c.invcoef
        (scalarFromI64 maker.invcoef) blindings.invcoef (scalarFromI64 maker.inv) blindings.inv
        r.skew (draws 5) (draws 6) (draws 7)
      gateCost := proveProduct primitives key (tag context index "gate") c.ok (bitScalar ok) r.ok
        (scalarFromI64 keys.shiftedCost) rCost r.gated (draws 39) (draws 40) (draws 41)
      eligibility := .bulletproof eligibility eligibilityCommitments
      activeBit := .disjunction (proveBit primitives key (tag context index "active") cActive
        maker.active blindings.active (draws 24) (draws 25) (draws 26))
      referenceBit := .disjunction (proveBit primitives key (tag context index "reference") 0
        false 0 (draws 27) (draws 28) (draws 29))
      fitsGate
      freshGate
      conjunction :=
        (proveProduct primitives key (tag context index "ok1") fitsGate.commitment
          (bitScalar fitsWitness.holds) fitsWitness.blinding (bitScalar freshWitness.holds)
          freshWitness.blinding r.both (draws 31) (draws 32) (draws 33),
        proveProduct primitives key (tag context index "ok2") c.both (bitScalar both) r.both
          (bitScalar effectiveActive) effectiveActiveBlinding r.ok (draws 35) (draws 36)
          (draws 37))
      commitments := c } }

/-! ## The whole quote -/

def firstMinimum (keys : List UInt64) : Option ℕ :=
  (List.range keys.length).argmin fun index => (keys.getD index 0).toNat

theorem firstMinimum_some (h : firstMinimum keys = some winner) :
    winner < keys.length ∧ ∀ packed ∈ keys, keys.getD winner 0 ≤ packed := by
  have hmem : winner ∈ (List.range keys.length).argmin fun index => (keys.getD index 0).toNat := h
  refine ⟨List.mem_range.mp (List.argmin_mem hmem), ?_⟩
  intro packed hpacked
  obtain ⟨_, hindex, rfl⟩ := List.mem_iff_getElem.mp hpacked
  have hle := List.le_of_mem_argmin (List.mem_range.mpr hindex) hmem
  rw [List.getD_eq_getElem keys 0 hindex] at hle
  exact UInt64.le_iff_toNat_le.mpr hle

def publicStatement (makers : List MakerWitness) (qty : Int64) (rQty : Scalar) (direction : UInt8)
    (now sentinel nSlots : Int64) (marketDigest : Digest32) (slot : UInt64) : Public P :=
  let registry := makers.map fun maker => maker.registered circuit.key
  { qtyCommitment := circuit.key.commit (scalarFromI64 qty) rQty
    now, sentinel, nSlots, direction
    asset := 0
    referencePrice := 0
    registry
    registryDigest := registryDigest primitives sha256 registry
    marketDigest, slot }

/-- Open the first of the smallest keys and prove that no key is below it. Reads
two draws. -/
def proveWinner (context : Bytes) (proved : List (ProvedMaker P library))
    (draws entropy : ℕ → Scalar) : Except String (QuoteProof P library) := do
  let keys := proved.map (·.packed)
  let keyBlindings := proved.map (·.blinding)
  let keyCommitments := proved.map (·.keyCommitment)
  let winner ← orRefuse (firstMinimum keys) "no makers"
  let value := keys.getD winner 0
  -- The published number is bound, not only the commitment to it.
  let residual := circuit.key.shift (keyCommitments.getD winner 0) value
  let winnerOpening := proveZeroOpening primitives circuit.key (whole context "winner") residual
    (keyBlindings.getD winner 0) (draws 0) (draws 1)
  let differences := keys.map fun packed => packed - value
  let differenceBlindings := keyBlindings.map fun blinding => blinding - keyBlindings.getD winner 0
  let (minimality, commitments) ← (circuit.ranges
      (roundedWidth circuit.spanBits circuit.span_le) differences.length
      circuit.span_supported).prove library (whole context "minimality") differences
    differenceBlindings entropy
  .ok {
    winnerIndex := winner
    winnerValue := value
    makerProofs := proved.map (·.proof)
    winnerOpening
    minimality := .bulletproof minimality commitments
    keyCommitments }

def prove (makers : List MakerWitness) (qty : Int64) (direction : UInt8)
    (now sentinel nSlots : Int64) (context : Bytes) (draws : ℕ → Scalar)
    (entropy : ℕ → ℕ → Scalar) (marketDigest : Digest32) (slot : UInt64) :
    Except String (QuoteProof P library × Public P) := do
  refuseIf (makers.isEmpty) "a quote needs at least one registered maker"
  refuseIf (direction > 1) "direction must be 0 (buy) or 1 (sell)"
  refuseIf (nSlots.toInt ≤ 0 ∨ nSlots.toInt.toNat < makers.length)
    "n_slots must provide a distinct low slot for every maker"
  makers.forM fun maker => refuseIf (¬ maker.blindings.isRegistered)
    ("a maker has no registered blindings: a quote proof is about policies that were put on the " ++
      "record, and a witness without them is a policy invented now")
  let statement := publicStatement primitives sha256 circuit makers qty (draws 0) direction now
    sentinel nSlots marketDigest slot
  let proofContext := statementContext primitives sha256 context statement
  let proved ← makers.zipIdx.mapM fun entry =>
    proveMaker primitives circuit statement proofContext qty (draws 0) entry.1 entry.2
      (fun n => draws (1 + makerDraws * entry.2 + n)) (entropy entry.2)
  let proof ← proveWinner primitives circuit proofContext proved
    (fun n => draws (1 + makerDraws * makers.length + n)) (entropy makers.length)
  .ok (proof, statement)

end Prover

end Zkpi.QuoteProver
