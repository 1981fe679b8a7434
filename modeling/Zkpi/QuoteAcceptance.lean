import Zkpi.QuoteStatement

/-!
# What makes the quote verifier accept

The verifier rebuilds every derived commitment of a maker from the register, the
request and the clock, and compares encodings. Equal points have equal encodings,
so a proof whose commitments are related as the verifier relates them, and whose
sub-proofs are accepted, passes every check. Two provers use this: the one that
holds every witness, and the quorum that holds shares of them.
-/

namespace Zkpi.QuoteAcceptance

open ScalarField ByteText FallibleChecks PedersenSigma BitRange AggregatedRanges
open QuoteStatement QuoteStatement.QuoteCircuit

section Acceptance

variable {P : Type} [AddCommGroup P] [Module Scalar P] [DecidableEq P]
variable {library : Bulletproofs P} {primitives : Primitives P}

/-- One maker's commitments are related as the verifier relates them, and each of
its sub-proofs is accepted. -/
structure MakerAccepted (primitives : Primitives P) (circuit : QuoteCircuit P)
    (statement : Public P) (context : Bytes) (index : ℕ) (registered : RegisteredPolicy P)
    (maker : MakerProof P library) (keyCommitment : P) : Prop where
  slope : registered.slope = maker.commitments.slope
  invcoef : registered.invcoef = maker.commitments.invcoef
  inv : registered.inv = maker.commitments.inv
  active : registered.active = maker.commitments.active
  /-- The size margin is the registered size less the request. -/
  fits : registered.maxqty - statement.qtyCommitment = maker.commitments.fits
  fresh : registered.expiry - circuit.key.commit (scalarFromI64 statement.now) 0 -
    circuit.key.commit 1 0 = maker.commitments.freshStrict
  depth : verifyProduct primitives circuit.key (tag context index "depth")
    maker.commitments.slope statement.qtyCommitment maker.commitments.depth maker.depth = true
  skew : verifyProduct primitives circuit.key (tag context index "skew")
    maker.commitments.invcoef maker.commitments.inv maker.commitments.skew maker.skew = true
  /-- Both derived values of the sign tests are in range. -/
  eligibility : circuit.checkEligibility primitives context index maker = .ok ()
  activeBit : circuit.checkBitProof primitives maker.commitments.active maker.activeBit
    (tag context index "active") = true
  referenceBit : circuit.checkBitProof primitives registered.useRef maker.referenceBit
    (tag context index "reference") = true
  fitsGate : circuit.checkGate primitives maker.commitments.fits maker.fitsGate
    (gateContext context index "fits") = true
  freshGate : circuit.checkGate primitives maker.commitments.freshStrict maker.freshGate
    (gateContext context index "fresh") = true
  both : verifyProduct primitives circuit.key (tag context index "ok1")
    maker.fitsGate.commitment maker.freshGate.commitment maker.commitments.both
    maker.conjunction.1 = true
  ok : verifyProduct primitives circuit.key (tag context index "ok2") maker.commitments.both
    (bitScalar (registered.makerAsset = statement.asset) • maker.commitments.active)
    maker.commitments.ok maker.conjunction.2 = true
  cost : derivedCost statement registered maker = maker.commitments.cost
  shifted : maker.commitments.cost - circuit.key.commit (scalarFromI64 statement.sentinel) 0 =
    maker.commitments.shiftedCost
  gated : verifyProduct primitives circuit.key (tag context index "gate") maker.commitments.ok
    maker.commitments.shiftedCost maker.commitments.gated maker.gateCost = true
  packed : scalarFromI64 statement.nSlots • (maker.commitments.gated +
      circuit.key.commit ((2 * statement.sentinel.toInt : ℤ) : Scalar) 0) +
    circuit.key.commit (index : Scalar) 0 = keyCommitment

variable {circuit : QuoteCircuit P} {statement : Public P} {context : Bytes} {index : ℕ}

/-- A sign test passes when its bit and its product do and its derived value is
the one the verifier derives. -/
theorem checkGate_of_accepted {gate : Gate P}
    (hbit : circuit.checkBitProof primitives gate.commitment gate.bitProof
      (gateBitTranscript context) = true)
    (hproduct : verifyProduct primitives circuit.key (gateProductTranscript context)
      gate.commitment base gate.productCommitment gate.product = true)
    (hderived : circuit.derivedWitness base gate = gate.witnessCommitment) :
    circuit.checkGate primitives base gate context = true := by
  unfold checkGate
  rw [if_neg (not_not.mpr hbit), if_neg (not_not.mpr hproduct), hderived]
  exact decide_eq_true rfl

variable {registered : RegisteredPolicy P} {maker : MakerProof P library} {keyCommitment : P}

namespace MakerAccepted

section

variable
  (h : MakerAccepted primitives circuit statement context index registered maker keyCommitment)

include h

theorem checkRegister :
    circuit.checkRegister primitives statement index registered maker = .ok () := by
  have hmaxqty : maker.commitments.fits + statement.qtyCommitment = registered.maxqty := by
    rw [← h.fits, sub_add_cancel]
  have hexpiry : maker.commitments.freshStrict +
      circuit.key.commit (scalarFromI64 statement.now) 0 + circuit.key.commit 1 0 =
        registered.expiry := by
    rw [← h.fresh]
    abel
  refine forM_ok.mpr ?_
  simp [refuseIf_ok, h.slope, h.invcoef, h.inv, h.active, hmaxqty, hexpiry]

theorem checkMargins :
    circuit.checkMargins primitives statement context index registered maker = .ok () := by
  simp only [QuoteCircuit.checkMargins, refuseIf_bind_ok, not_not]
  refine ⟨h.depth, h.skew, bind_ok.mpr ⟨(), h.eligibility, ?_⟩⟩
  simp only [refuseIf_bind_ok, refuseIf_ok, ne_eq, not_not]
  exact ⟨h.activeBit, h.referenceBit, congrArg _ h.fits, congrArg _ h.fresh, h.fitsGate,
    h.freshGate⟩

theorem checkKey (hdouble : checkedDouble statement.sentinel = some double) :
    circuit.checkKey primitives statement context index registered maker keyCommitment =
      .ok () := by
  simp only [QuoteCircuit.checkKey, refuseIf_bind_ok, ne_eq, not_not]
  refine ⟨h.both, h.ok, congrArg _ h.cost, congrArg _ h.shifted, h.gated,
    bind_ok.mpr ⟨double, orRefuse_ok.mpr hdouble, refuseIf_ok.mpr (not_not.mpr (congrArg _ ?_))⟩⟩
  rw [← h.packed, scalarFromI64_eq double, checkedDouble_some hdouble]

end

end MakerAccepted

/-- A proof of the right shape whose makers are accepted, whose winner opens and
whose differences to the winner are in range is accepted. -/
theorem verify_of_accepted (hshape : checkShape primitives sha256 proof statement = .ok ())
    (hdouble : checkedDouble statement.sentinel = some double)
    (hmakers : ∀ index registered maker keyCommitment,
      statement.registry[index]? = some registered → proof.makerProofs[index]? = some maker →
      proof.keyCommitments[index]? = some keyCommitment →
      MakerAccepted primitives circuit statement
        (statementContext primitives sha256 context statement) index registered maker
        keyCommitment)
    (hwinner : verifyZeroOpening primitives circuit.key
      (whole (statementContext primitives sha256 context statement) "winner")
      (circuit.key.shift (proof.keyCommitments.getD proof.winnerIndex 0) proof.winnerValue)
      proof.winnerOpening = true)
    (hminimality : circuit.checkMinimality primitives proof
      (statementContext primitives sha256 context statement) = .ok ()) :
    circuit.verify primitives sha256 proof statement context = .ok () := by
  have hlengths : proof.keyCommitments.length = statement.registry.length := by
    simp only [checkShape, refuseIf_bind_ok, ne_eq, not_not] at hshape
    exact hshape.2.2.2.2.1
  refine bind_ok.mpr ⟨(), hshape, bind_ok.mpr ⟨(), forM_ok.mpr ?_, bind_ok.mpr ⟨(),
    forM_ok.mpr ?_, refuseIf_bind_ok.mpr ⟨not_not.mpr hwinner, hminimality⟩⟩⟩⟩
  · rintro ⟨⟨registered, maker⟩, index⟩ hmem
    obtain ⟨hregistered, hmaker⟩ := List.getElem?_zip_eq_some.mp
      (List.mem_zipIdx_iff_getElem?.mp hmem)
    obtain ⟨hlt, _⟩ := List.getElem?_eq_some_iff.mp hregistered
    exact (hmakers index registered maker _ hregistered hmaker
      (List.getElem?_eq_getElem (by omega))).checkRegister
  · rintro ⟨⟨registered, maker, keyCommitment⟩, index⟩ hmem
    obtain ⟨hregistered, hpair⟩ := List.getElem?_zip_eq_some.mp
      (List.mem_zipIdx_iff_getElem?.mp hmem)
    obtain ⟨hmaker, hkey⟩ := List.getElem?_zip_eq_some.mp hpair
    have haccepted := hmakers index registered maker keyCommitment hregistered hmaker hkey
    exact bind_ok.mpr ⟨(), haccepted.checkMargins, haccepted.checkKey hdouble⟩

end Acceptance

end Zkpi.QuoteAcceptance
