import Zkpi.QuoteAcceptance
import Zkpi.QuoteProver
import Zkpi.QuoteSoundness

/-!
# When a proved quote verifies

The prover and the verifier reach the packed key by different routes. The prover
adds the sentinel to an effective cost twice, in checked arithmetic; the verifier
adds a commitment to twice the sentinel, and refuses a sentinel whose double is
not a machine integer. When every maker is eligible the prover never forms that
double. So every proof the prover returns is accepted exactly when the sentinel
is below a quarter of the machine range, and the large sentinels it lets through
give proofs that nobody accepts.
-/

namespace Zkpi.QuoteCompleteness

open ScalarField ByteText FallibleChecks SignedIntegers PedersenSigma BitRange AggregatedRanges List
open Pedersen
open QuoteStatement QuoteStatement.QuoteCircuit QuoteAcceptance QuoteProver
open QuoteSoundness

/-! ## Arithmetic of the prover -/

variable {sentinel : Int64}

theorem sentinel_lower
    {keys : KeyValues} (h : keys.Exact margins ok direction sentinel nSlots index)
    (hindex : (index : ℤ) < nSlots.toInt) : -2 ^ 62 ≤ sentinel.toInt := by
  have hranked : 0 ≤ keys.gated.toInt + 2 * sentinel.toInt := by
    by_contra hneg
    have hscaled : (keys.gated.toInt + 2 * sentinel.toInt) * nSlots.toInt ≤ -1 * nSlots.toInt :=
      mul_le_mul_of_nonneg_right (by omega) (by omega)
    have hcovered := h.covered
    rw [h.packed] at hcovered
    omega
  have hgated := Int64.toInt_lt keys.gated
  omega

theorem checkedDouble_isSome :
    (∃ double, checkedDouble sentinel = some double) ↔
      -2 ^ 62 ≤ sentinel.toInt ∧ sentinel.toInt < 2 ^ 62 := by
  unfold checkedDouble
  split_ifs with h
  · constructor
    · intro _
      omega
    · intro _
      exact ⟨_, rfl⟩
  · constructor
    · rintro ⟨_, hnone⟩
      cases hnone
    · intro hmiddle
      exact absurd (by omega) h

/-! ## Commitments of honest values -/

section Commitments

variable {P : Type} [AddCommGroup P] [Module Scalar P]
variable {key : Pedersen P} {direction : UInt8} {margins : MarginValues}
variable {ok : Bool} {keys : KeyValues} {qty now : Int64}

theorem fits_commitment (h : margins.Exact maker qty now) :
    (maker.registered key).maxqty - key.commit (scalarFromI64 qty) r.qty =
      (makerCommitments key maker direction margins both ok keys r).fits := by
  simp only [MakerWitness.registered, makerCommitments, scalarFromI64_eq, h.fits, Int.cast_sub,
    commit]
  module

theorem fresh_commitment (h : margins.Exact maker qty now) :
    (maker.registered key).expiry - key.commit (scalarFromI64 now) 0 - key.commit 1 0 =
      (makerCommitments key maker direction margins both ok keys r).freshStrict := by
  simp only [MakerWitness.registered, makerCommitments, scalarFromI64_eq, h.fresh, Int.cast_sub,
    commit]
  module

theorem freshStrict_commitment (h : margins.Exact maker qty now) (blinding : Scalar) :
    key.commit (scalarFromI64 margins.fresh) blinding - key.commit 1 0 =
      key.commit (scalarFromI64 margins.freshStrict) blinding := by
  simp only [scalarFromI64_eq, h.fresh, h.freshStrict, Int.cast_sub, Int.cast_one, commit]
  module

variable {nSlots : Int64}

theorem cost_commitment {statement : Public P}
    {proof : MakerProof P library} (h : margins.Exact maker qty now)
    (hkeys : keys.Exact margins ok statement.direction statement.sentinel nSlots index)
    (hproof : proof.commitments = makerCommitments key maker statement.direction margins both ok
      keys r) :
    derivedCost statement (maker.registered key) proof = proof.commitments.cost := by
  rw [hproof]
  unfold derivedCost
  simp only [hproof, makerCommitments, MakerWitness.registered, costBlinding, scalarFromI64_eq,
    hkeys.cost, smul_zero, add_zero]
  split
  · simp only [h.bid, Int.cast_neg, Int.cast_add, Int.cast_sub, commit]
    module
  · simp only [h.ask, Int.cast_add, commit]
    module

variable {sentinel : Int64}

theorem shifted_commitment (hkeys : keys.Exact margins ok direction sentinel nSlots index) :
    (makerCommitments key maker direction margins both ok keys r).cost -
        key.commit (scalarFromI64 sentinel) 0 =
      (makerCommitments key maker direction margins both ok keys r).shiftedCost := by
  simp only [makerCommitments, scalarFromI64_eq, hkeys.shiftedCost, Int.cast_sub, commit]
  module

theorem packed_commitment (hkeys : keys.Exact margins ok direction sentinel nSlots index) :
    scalarFromI64 nSlots • ((makerCommitments key maker direction margins both ok keys r).gated +
        key.commit ((2 * sentinel.toInt : ℤ) : Scalar) 0) + key.commit (index : Scalar) 0 =
      key.commitU64 keys.packed.toUInt64 (r.gated * scalarFromI64 nSlots) := by
  have hpacked : (keys.packed.toUInt64.toNat : Scalar) = ((keys.packed.toInt : ℤ) : Scalar) := by
    rw [← toUInt64_toNat hkeys.covered, Int.cast_natCast]
  simp only [commitU64, hpacked, hkeys.packed, makerCommitments, scalarFromI64_eq,
    commit]
  push_cast
  module

end Commitments

/-! ## Sub-proofs of one maker -/

section Makers

variable {P : Type} [AddCommGroup P] [Module Scalar P] [DecidableEq P]
variable {library : Bulletproofs P} {primitives : Primitives P} {sha256 : Bytes → Digest32}
variable {circuit : QuoteCircuit P}

theorem bitScalar_mul_scalar (bit : Bool) (value : Int64) :
    bitScalar bit * scalarFromI64 value = scalarFromI64 (if bit then value else 0) := by
  cases bit with
  | false => simp [bitScalar, scalarFromI64]
  | true => simp [bitScalar]

theorem bitScalar_and : bitScalar a * bitScalar b = bitScalar (a && b) := by
  cases a <;> simp [bitScalar]

omit [DecidableEq P] in
/-- An activity flag switched by the market is committed under a blinding switched
the same way. -/
theorem smul_active {key : Pedersen P} {active : Bool} {blinding : Scalar} {assetMatch : Bool} :
    bitScalar assetMatch • key.commit (bitScalar active) blinding =
      key.commit (bitScalar (active && assetMatch)) (if assetMatch then blinding else 0) := by
  cases assetMatch <;> simp [bitScalar, commit]

theorem gated_scalar {keys : KeyValues}
    (h : keys.Exact margins ok direction sentinel nSlots index) :
    bitScalar ok * scalarFromI64 keys.shiftedCost = scalarFromI64 keys.gated := by
  simp only [scalarFromI64_eq, h.gated]
  cases ok <;> simp [bitScalar]

/-- A product proof made for commitments to the factors is accepted for every
commitment to their product. -/
theorem proveProduct_of_commit {key : Pedersen P} {transcript : Transcript}
    (ha : ca = key.commit a ra)
    (hb : cb = key.commit b rb) (hc : cc = key.commit c rc) (hproduct : a * b = c)
    {kB kRb kS : Scalar} :
    verifyProduct primitives key transcript ca cb cc
      (proveProduct primitives key transcript ca a ra b rb rc kB kRb kS) = true := by
  rw [hb, hc, ← hproduct]
  exact proveProduct_accepted primitives key transcript ha b rb rc kB kRb kS

variable {context : Bytes} {draws : ℕ → Scalar}

/-- A sign test made for a commitment to the value passes, and the value its range
has to cover is committed and not negative. -/
theorem geZeroBit_accepted
    (hcommitment : commitment = circuit.key.commit (scalarFromI64 value) blinding)
    (h : geZeroBit primitives circuit value blinding commitment context draws = .ok (gate,
      witness)) :
    circuit.checkGate primitives commitment gate context = true ∧
    gate.commitment = circuit.key.commit (bitScalar witness.holds) witness.blinding ∧
    gate.witnessCommitment =
      circuit.key.commitU64 witness.witness.toUInt64 witness.witnessBlinding ∧
    witness.holds = decide (0 ≤ value.toInt) := by
  obtain ⟨derived, hderived, h⟩ := bind_ok.mp h
  cases h
  obtain ⟨hnonneg, hexact⟩ := gateWitness_some (orRefuse_ok.mp hderived)
  refine ⟨checkGate_of_accepted ?_ ?_ rfl, rfl, ?_, rfl⟩
  · exact proveBit_accepted primitives circuit.key _ rfl _ _ _
  · exact proveProduct_of_commit rfl hcommitment rfl
      (bitScalar_mul_scalar _ value)
  · have hderivedScalar : (derived.toUInt64.toNat : Scalar) =
        2 * scalarFromI64 (if decide (0 ≤ value.toInt) then value else 0) - scalarFromI64 value +
          bitScalar (decide (0 ≤ value.toInt)) - 1 := by
      rw [← Int.cast_natCast, toUInt64_toNat hnonneg, hexact, ← bitScalar_mul_scalar,
        scalarFromI64_eq]
      by_cases hpos : 0 ≤ value.toInt
      · simp only [hpos, if_true, bitScalar, decide_true]
        push_cast
        ring
      · simp only [hpos, if_false, bitScalar, decide_false, Bool.false_eq_true]
        push_cast
        ring
    simp only [commitU64, hderivedScalar, hcommitment, commit]
    module

variable {entropy : ℕ → Scalar} {proof : library.RangeProof}

section

variable (hcomplete : RangeComplete primitives library circuit.key)

include hcomplete

omit [DecidableEq P] in
/-- Ranges proved in a context of the circuit, for as many values as it was made
for, are accepted there. -/
theorem ranges_accepted {A : Type} {items : List A} {value : A → UInt64}
    {blinding : A → Scalar} (h : (circuit.ranges bits items.length supported).prove library
      transcript (items.map value) (items.map blinding) entropy = .ok (proof, commitments)) :
    commitments = (items.map (fun item => circuit.key.commitU64 (value item) (blinding item)) ++
      replicate (items.length.nextPowerOfTwo - items.length) 0).map primitives.compress ∧
    (circuit.ranges bits items.length supported).verify library transcript proof commitments =
      true :=
  RangeCtx.prove_accepted hcomplete le_rfl
    ((le_max_left _ 1).trans (le_nextPowerOfTwo _)) h

theorem checkEligibility_accepted {maker : MakerProof P library}
    (hfits : maker.fitsGate.witnessCommitment = circuit.key.commitU64 fits rFits)
    (hfresh : maker.freshGate.witnessCommitment = circuit.key.commitU64 fresh rFresh)
    (hproof : maker.eligibility = .bulletproof proof commitments)
    (h : (circuit.ranges (roundedWidth (circuit.eligibilityBits + 2) circuit.eligibility_le) 2
      circuit.eligibility_supported).prove library (tag context index "eligibility") [fits, fresh]
      [rFits, rFresh] entropy = .ok (proof, commitments)) :
    circuit.checkEligibility primitives context index maker = .ok () := by
  have htwo : (2 : ℕ).nextPowerOfTwo - 2 = 0 := by decide +kernel
  obtain ⟨hcommitments, hverify⟩ : commitments = _ ∧ _ :=
    ranges_accepted hcomplete (show (circuit.ranges _ [(fits, rFits), (fresh, rFresh)].length
      _).prove library _ ([(fits, rFits), (fresh, rFresh)].map Prod.fst)
      ([(fits, rFits), (fresh, rFresh)].map Prod.snd) entropy = _ from h)
  simp only [map_cons, map_nil, length_cons, length_nil, Nat.zero_add,
    Nat.reduceAdd, htwo, replicate_zero, append_nil] at hcommitments hverify
  simp only [checkEligibility, hproof, refuseIf_bind_ok, refuseIf_ok, ne_eq, not_not]
  refine ⟨by rw [hcommitments]; rfl, ?_, hverify⟩
  rw [hcommitments, hfits, hfresh]

theorem proveMaker_accepted
    {statement : Public P} {qty : Int64} {rQty : Scalar} {maker : MakerWitness}
    {proved : ProvedMaker P library}
    (hqty : statement.qtyCommitment = circuit.key.commit (scalarFromI64 qty) rQty)
    (h : proveMaker primitives circuit statement context qty rQty maker index draws entropy = .ok
      proved) :
    MakerAccepted primitives circuit statement context index (maker.registered circuit.key)
      proved.proof proved.keyCommitment ∧
    proved.keyCommitment = circuit.key.commitU64 proved.packed proved.blinding ∧
    ((index : ℤ) < statement.nSlots.toInt → -2 ^ 62 ≤ statement.sentinel.toInt) := by
  obtain ⟨margins, hmargins, h⟩ := bind_ok.mp h
  obtain ⟨⟨fitsGate, _⟩, hfits, h⟩ := bind_ok.mp h
  obtain ⟨⟨freshGate, _⟩, hfresh, h⟩ := bind_ok.mp h
  obtain ⟨⟨eligibility, _⟩, heligibility, h⟩ := bind_ok.mp h
  obtain ⟨_, hkeys, h⟩ := bind_ok.mp h
  cases h
  have hmarginsExact := marginValues_ok hmargins
  have hkeysExact := keyValues_ok hkeys
  obtain ⟨hfitsGate, hfitsBit, hfitsCommitment, _⟩ := geZeroBit_accepted rfl hfits
  have hstrict : circuit.key.commit (scalarFromI64 margins.fresh) maker.blindings.expiry -
      circuit.key.commit 1 0 = _ := freshStrict_commitment hmarginsExact _
  obtain ⟨hfreshGate, hfreshBit, hfreshCommitment, _⟩ :=
    geZeroBit_accepted hstrict hfresh
  refine ⟨?_, rfl, sentinel_lower hkeysExact⟩
  exact {
    slope := rfl
    invcoef := rfl
    inv := rfl
    active := rfl
    fits := by
      rw [hqty]
      exact fits_commitment (r := wireBlindings rQty draws) hmarginsExact
    fresh := fresh_commitment hmarginsExact
    depth := proveProduct_of_commit rfl hqty rfl
      (by simp [scalarFromI64_eq, hmarginsExact.depth])
    skew := proveProduct_of_commit rfl rfl rfl
      (by simp [scalarFromI64_eq, hmarginsExact.skew])
    eligibility := checkEligibility_accepted hcomplete hfitsCommitment hfreshCommitment rfl
      heligibility
    activeBit := proveBit_accepted primitives circuit.key _ rfl _ _ _
    referenceBit := proveBit_accepted primitives circuit.key _
      (by simp [commit, bitScalar]) _ _ _
    fitsGate := hfitsGate
    freshGate := hfreshGate
    both := proveProduct_of_commit hfitsBit hfreshBit rfl
      bitScalar_and
    ok := proveProduct_of_commit rfl smul_active rfl
      bitScalar_and
    cost := cost_commitment hmarginsExact hkeysExact rfl
    shifted := shifted_commitment hkeysExact
    gated := proveProduct_of_commit rfl rfl rfl
      (gated_scalar hkeysExact)
    packed := packed_commitment hkeysExact }

end

/-! ## The whole quote -/

omit [DecidableEq P] in
/-- Differences to the winner, committed under the differences of the blindings,
are the differences of the commitments. -/
theorem difference_commitment {key : Pedersen P} (h : value ≤ packed) (blinding other : Scalar) :
    key.commitU64 (packed - value) (blinding - other) =
      key.commitU64 packed blinding - key.commitU64 value other := by
  rw [commitU64, UInt64.toNat_sub_of_le _ _ h, Nat.cast_sub (UInt64.le_iff_toNat_le.mp h)]
  simp only [commitU64, commit]
  module

/-- The second half of a proved quote: it carries the makers' proofs and keys, the
winner is one of them and opens, and no key is below it. -/
theorem proveWinner_accepted (hcomplete : RangeComplete primitives library circuit.key)
    {proved : List (ProvedMaker P library)} {proof : QuoteProof P library}
    (hcommitted : ∀ maker ∈ proved, maker.keyCommitment = circuit.key.commitU64 maker.packed
      maker.blinding)
    (h : proveWinner primitives circuit context proved draws entropy = .ok proof) :
    proof.makerProofs = proved.map (·.proof) ∧
    proof.keyCommitments = proved.map (·.keyCommitment) ∧
    proof.winnerIndex < proved.length ∧
    verifyZeroOpening primitives circuit.key (whole context "winner")
      (circuit.key.shift (proof.keyCommitments.getD proof.winnerIndex 0) proof.winnerValue)
      proof.winnerOpening = true ∧
    circuit.checkMinimality primitives proof context = .ok () := by
  obtain ⟨winner, hwinner, h⟩ := bind_ok.mp h
  obtain ⟨⟨rangeProof, commitments⟩, hranges, h⟩ := bind_ok.mp h
  cases h
  obtain ⟨hlt, hleast⟩ := firstMinimum_some (orRefuse_ok.mp hwinner)
  rw [length_map] at hlt
  have hbest := hcommitted _ (getElem_mem hlt)
  have hgetD : ∀ {A : Type} (field : ProvedMaker P library → A) (default : A),
      (proved.map field).getD winner default = field proved[winner] := by
    intro A field default
    rw [getD_eq_getElem _ _ (by rw [length_map]; exact hlt), getElem_map]
  refine ⟨rfl, rfl, hlt, ?_, ?_⟩
  · apply proveZeroOpening_accepted
    simp only [hgetD, hbest, shift, commitU64, commit]
    module
  · simp only [hgetD, map_map, length_map] at hranges hleast
    obtain ⟨hcommitments, hverify⟩ := ranges_accepted hcomplete hranges
    have hdifferences : proved.map (fun maker => circuit.key.commitU64
        (maker.packed - proved[winner].packed) (maker.blinding - proved[winner].blinding)) =
        proved.map fun maker => maker.keyCommitment - proved[winner].keyCommitment := by
      refine map_congr_left fun maker hmem => ?_
      rw [difference_commitment (hleast _ (mem_map_of_mem hmem)), hbest,
        hcommitted maker hmem]
    simp only [Function.comp_def, hdifferences] at hcommitments hverify
    simp only [checkMinimality, refuseIf_bind_ok, refuseIf_ok, ne_eq, not_not, hgetD,
      map_map, Function.comp_def, length_map]
    exact ⟨hcommitments, hverify⟩

section Quotes

variable {makers : List MakerWitness} {qty : Int64} {direction : UInt8}
variable {now sentinel nSlots : Int64} {context : Bytes} {draws : ℕ → Scalar}
variable {entropy : ℕ → ℕ → Scalar} {marketDigest : Digest32} {slot : UInt64}
variable {proof : QuoteProof P library} {statement : Public P}

omit [DecidableEq P] in
theorem prove_ok (h : prove primitives sha256 circuit makers qty direction now sentinel nSlots
      context draws entropy marketDigest slot = .ok (proof, statement)) :
    statement = publicStatement primitives sha256 circuit makers qty (draws 0) direction now
      sentinel nSlots marketDigest slot ∧
    makers ≠ [] ∧ ¬ direction > 1 ∧
    ¬ (nSlots.toInt ≤ 0 ∨ nSlots.toInt.toNat < makers.length) ∧
    ∃ proved, makers.zipIdx.mapM (fun entry =>
        proveMaker primitives circuit statement
          (statementContext primitives sha256 context statement) qty (draws 0) entry.1 entry.2
          (fun n => draws (1 + makerDraws * entry.2 + n)) (entropy entry.2)) = .ok proved ∧
      proveWinner primitives circuit (statementContext primitives sha256 context statement) proved
        (fun n => draws (1 + makerDraws * makers.length + n)) (entropy makers.length) =
          .ok proof := by
  simp only [prove, refuseIf_bind_ok] at h
  obtain ⟨hmakers, hdirection, hslots, h⟩ := h
  obtain ⟨_, _, h⟩ := bind_ok.mp h
  obtain ⟨proved, hproved, h⟩ := bind_ok.mp h
  obtain ⟨_, hwinner, h⟩ := bind_ok.mp h
  cases h
  exact ⟨rfl, fun hnil => hmakers (by rw [hnil]; rfl), hdirection, hslots, proved, hproved,
    hwinner⟩

/-- A proved quote passes everything but the sentinel: whenever the double of the
sentinel is a machine integer the proof is accepted, and the sentinel is never
below the lower quarter. -/
theorem prove_accepted (hcomplete : RangeComplete primitives library circuit.key)
    (h : prove primitives sha256 circuit makers qty direction now sentinel nSlots context draws
      entropy marketDigest slot = .ok (proof, statement)) :
    (∀ double, checkedDouble sentinel = some double →
      circuit.verify primitives sha256 proof statement context = .ok ()) ∧
    -2 ^ 62 ≤ sentinel.toInt := by
  obtain ⟨hstatement, hmakers, hdirection, hslots, proved, hproved, hwinner⟩ := prove_ok h
  have hlength : proved.length = makers.length := by
    rw [mapM_length hproved, length_zipIdx]
  have hentry : ∀ index maker item, makers[index]? = some maker → proved[index]? = some item →
      MakerAccepted primitives circuit statement
        (statementContext primitives sha256 context statement) index
        (maker.registered circuit.key) item.proof item.keyCommitment ∧
      item.keyCommitment = circuit.key.commitU64 item.packed item.blinding ∧
      ((index : ℤ) < nSlots.toInt → -2 ^ 62 ≤ sentinel.toInt) := by
    intro index maker item hmaker hitem
    have hzip : makers.zipIdx[index]? = some (maker, index) := by
      simp [hmaker]
    have haccepted := proveMaker_accepted hcomplete (by rw [hstatement]; rfl)
      (mapM_getElem hproved hzip hitem)
    rw [hstatement] at haccepted ⊢
    exact haccepted
  have hpair : ∀ (index : ℕ) item, proved[index]? = some item →
      ∃ maker, makers[index]? = some maker := by
    intro index item hitem
    obtain ⟨hlt, _⟩ := List.getElem?_eq_some_iff.mp hitem
    exact ⟨_, getElem?_eq_getElem (by omega)⟩
  have hcommitted : ∀ item ∈ proved,
      item.keyCommitment = circuit.key.commitU64 item.packed item.blinding := by
    intro item hmem
    obtain ⟨index, hitem⟩ := mem_iff_getElem?.mp hmem
    obtain ⟨maker, hmaker⟩ := hpair index item hitem
    exact (hentry index maker item hmaker hitem).2.1
  obtain ⟨hproofs, hkeys, hindex, hopening, hminimality⟩ :=
    proveWinner_accepted hcomplete hcommitted hwinner
  have hregistry : statement.registry = makers.map fun maker => maker.registered circuit.key := by
    rw [hstatement]
    rfl
  constructor
  · intro double hdouble
    refine verify_of_accepted ?_ (by rw [hstatement]; exact hdouble) ?_ hopening hminimality
    · have hdigest : statement.registryDigest =
          registryDigest primitives sha256 statement.registry := by
        rw [hregistry, hstatement]
        rfl
      have hfields : statement.direction = direction ∧ statement.nSlots = nSlots := by
        rw [hstatement]
        exact ⟨rfl, rfl⟩
      simp only [checkShape, refuseIf_bind_ok, refuseIf_ok, ne_eq, not_not, hdigest, hproofs, hkeys,
        hregistry, length_map, hlength, map_eq_nil_iff, hfields]
      exact ⟨hmakers, hdirection, hslots, trivial, trivial, by omega, trivial⟩
    · intro index registered maker keyCommitment hregistered hmaker hkey
      rw [hregistry, getElem?_map, Option.map_eq_some_iff] at hregistered
      rw [hproofs, getElem?_map, Option.map_eq_some_iff] at hmaker
      rw [hkeys, getElem?_map, Option.map_eq_some_iff] at hkey
      obtain ⟨witness, hwitness, rfl⟩ := hregistered
      obtain ⟨item, hitem, rfl⟩ := hmaker
      obtain ⟨same, hsame, rfl⟩ := hkey
      obtain rfl : item = same := Option.some.inj (hitem.symm.trans hsame)
      exact (hentry index witness item hwitness hitem).1
  · obtain ⟨maker, hmaker⟩ : ∃ maker, makers[0]? = some maker :=
      ⟨_, getElem?_eq_getElem (length_pos_of_ne_nil hmakers)⟩
    have hitem := getElem?_eq_getElem
      (show 0 < proved.length from hlength ▸ length_pos_of_ne_nil hmakers)
    exact (hentry 0 maker _ hmaker hitem).2.2 (by omega)

end Quotes

/-- Completeness of the prover that holds every witness, as far as it goes. For
every circuit, makers, request, clock, sentinel, slots, context and randomness, a
proof that was returned is accepted exactly when the sentinel is below a quarter of
the machine range. -/
theorem proved_quote_verifies_iff {defaultGens : Pedersen P}
    (hcomplete : RangeComplete primitives library defaultGens) {eligibilityBits spanBits : ℕ}
    (hcircuit : QuoteCircuit.tryNew defaultGens eligibilityBits spanBits = .ok circuit)
    (makers : List MakerWitness) (qty : Int64) (direction : UInt8) (now sentinel nSlots : Int64)
    (context : Bytes) (draws : ℕ → Scalar) (entropy : ℕ → ℕ → Scalar) (marketDigest : Digest32)
    (slot : UInt64) (proof : QuoteProof P library) (statement : Public P)
    (hproved : prove primitives sha256 circuit makers qty direction now sentinel nSlots context
      draws entropy marketDigest slot = .ok (proof, statement)) :
    circuit.verify primitives sha256 proof statement context = .ok () ↔
      sentinel.toInt < 2 ^ 62 := by
  rw [← tryNew_key hcircuit] at hcomplete
  obtain ⟨haccepted, hlower⟩ := prove_accepted hcomplete hproved
  obtain ⟨hstatement, hmakers, _⟩ := prove_ok hproved
  constructor
  · intro hverify
    have hregistered : 0 < statement.registry.length := by
      rw [hstatement]
      simpa [publicStatement] using length_pos_of_ne_nil hmakers
    obtain ⟨_, _, _, _, _, _, hkey⟩ := verify_maker hverify (getElem?_eq_getElem hregistered)
    simp only [checkKey, refuseIf_bind_ok] at hkey
    obtain ⟨double, hdouble, _⟩ := bind_ok.mp hkey.2.2.2.2.2
    rw [hstatement] at hdouble
    exact (checkedDouble_isSome.mp ⟨double, orRefuse_ok.mp hdouble⟩).2
  · intro hupper
    obtain ⟨double, hdouble⟩ := checkedDouble_isSome.mpr ⟨hlower, hupper⟩
    exact haccepted double hdouble

end Makers

/-! ## A sentinel that the prover lets through -/

def plainPrimitives : Primitives Scalar := ⟨fun point => beBytes 32 point.val, fun _ _ => 1⟩

def plainCircuit : QuoteCircuit Scalar :=
  ⟨⟨1, (2 : ℕ)⟩, 32, 32, by decide, by decide, by decide⟩

def plainMaker : MakerWitness where
  askLevel := 100
  spread := 2
  slope := 0
  invcoef := 0
  inv := 0
  maxqty := 10
  expiry := 10
  active := true
  blindings := ⟨1, (2 : ℕ), (3 : ℕ), (4 : ℕ), (5 : ℕ), (6 : ℕ), (7 : ℕ), (8 : ℕ)⟩

def plainQuote (sentinel : Int64) : Except String
    (QuoteProof Scalar (transparentLibrary plainPrimitives) × Public Scalar) :=
  prove plainPrimitives (fun _ => zeroDigest) plainCircuit [plainMaker] 1 0 5 sentinel 1 []
    (fun n => n) (fun _ _ => 0) zeroDigest 0

def plainRefusal (sentinel : Int64) : Option Invalid :=
  match plainQuote sentinel with
  | .ok (proof, statement) =>
    failure (plainCircuit.verify plainPrimitives (fun _ => zeroDigest) proof statement [])
  | .error _ => none

theorem plainRefusal_some (h : plainRefusal sentinel = some error) :
    ∃ proof statement, plainQuote sentinel = .ok (proof, statement) ∧
      plainCircuit.verify plainPrimitives (fun _ => zeroDigest) proof statement [] =
        .error error := by
  unfold plainRefusal at h
  split at h
  · rename_i proof statement hquote
    exact ⟨proof, statement, hquote, failure_eq_some.mp h⟩
  · cases h

/-- With a sentinel of a quarter of the machine range the eligible maker's key is
formed, the proof is returned, and the verifier refuses it. -/
theorem quarter_sentinel_refused :
    QuoteCircuit.tryNew ⟨1, 2⟩ 32 32 = .ok plainCircuit ∧
    ∃ proof statement, plainQuote (2 ^ 62) = .ok (proof, statement) ∧
      plainCircuit.verify plainPrimitives (fun _ => zeroDigest) proof statement [] =
        .error (.malformed "sentinel overflow") :=
  ⟨rfl, plainRefusal_some (by decide +kernel)⟩

/-- With a sentinel of a thousand the same quote is accepted. -/
theorem proved_quote_verifies_thousand :
    ∃ proof statement, plainQuote 1000 = .ok (proof, statement) ∧
      plainCircuit.verify plainPrimitives (fun _ => zeroDigest) proof statement [] = .ok () := by
  have hquote : failure (plainQuote 1000) = none := by decide +kernel
  cases hproved : plainQuote 1000 with
  | error =>
    rw [hproved] at hquote
    cases hquote
  | ok result =>
    obtain ⟨proof, statement⟩ := result
    have hcircuit : QuoteCircuit.tryNew ⟨1, 2⟩ 32 32 = .ok plainCircuit := rfl
    exact ⟨proof, statement, rfl, (proved_quote_verifies_iff
      (transparent_rangeComplete plainPrimitives ⟨1, 2⟩) hcircuit _ _ _ _ _ _ _ _ _ _ _ _ _
      hproved).mpr (by decide)⟩

end Zkpi.QuoteCompleteness
