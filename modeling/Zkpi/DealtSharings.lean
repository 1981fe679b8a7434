import Zkpi.ThresholdRangeRounds

/-!
# Honest sharings complete the rounds

A sharing of degree `t` is its coefficients, and its ladder commits to them one by one. A product
adds the coefficients of a cross term, a range the sharings and cross terms of its bits. Every
quorum of more than `t` parties that holds the evaluations of such a sharing and follows the
rounds, with any nonces and with its messages in any order, assembles a proof that the ordinary
verifier accepts.
-/

namespace Zkpi.DealtSharings

open ScalarField ByteText WeightedBits PedersenSigma QuorumInterpolation SealedRounds
open SharedWires List
open ThresholdOpening ThresholdProduct ThresholdRangeRounds

abbrev Coefficients (t : ℕ) := Fin (t + 1) → Scalar

variable {P : Type} [AddCommGroup P] [Module Scalar P] {t : ℕ}

def shareOf (coefficients : Coefficients t) (party : PartyId) : Scalar :=
  ∑ k : Fin (t + 1), partyScalar party ^ (k : ℕ) * coefficients k

def ladderOf (key : Pedersen P) (values blindings : Coefficients t) : List P :=
  ofFn fun k => key.commit (values k) (blindings k)

@[simp] theorem ladderOf_length {key : Pedersen P} {values blindings : Coefficients t} :
    (ladderOf key values blindings).length = t + 1 :=
  length_ofFn

@[simp] theorem ladderOf_head? (key : Pedersen P) (values blindings : Coefficients t) :
    (ladderOf key values blindings).head? = some (key.commit (values 0) (blindings 0)) := by
  rw [ladderOf, ofFn_succ, head?_cons]

theorem ladderAt_ofFn (f : Fin n → P) (x : Scalar) :
    ladderAt (List.ofFn f) x = ∑ k : Fin n, x ^ (k : ℕ) • f k := by
  rw [ladderAt_eq, length_ofFn, Finset.sum_range]
  refine Finset.sum_congr rfl fun k _ => ?_
  rw [getD_eq_getElem _ _ (by rw [length_ofFn]; exact k.isLt), List.getElem_ofFn]

theorem commit_shareOf (key : Pedersen P) (values blindings : Coefficients t) (party : PartyId) :
    key.commit (shareOf values party) (shareOf blindings party) =
      ladderAt (ladderOf key values blindings) (partyScalar party) := by
  rw [ladderOf, ladderAt_ofFn]
  simp only [shareOf, Pedersen.commit, Finset.sum_smul, ← Finset.sum_add_distrib, smul_add,
    smul_smul]

theorem interpolated_shareOf (hquorum : Committee quorum)
    (hsize : t + 1 ≤ quorum.length) (coefficients : Coefficients t) :
    interpolated quorum (shareOf coefficients) = coefficients 0 := by
  have hlength : (ofFn coefficients).length ≤ quorum.length := by
    rw [length_ofFn]
    exact hsize
  have hladder := interpolated_ladder hquorum hlength
  rw [ofFn_succ, headD_cons, ← ofFn_succ] at hladder
  rw [← hladder]
  refine interpolated_congr fun p _ => ?_
  rw [ladderAt_ofFn]
  rfl

/-! ## Openings -/

def openingContribution (values blindings : Coefficients t) (party : PartyId) :
    OpeningNodeContribution :=
  ⟨party, shareOf values party, shareOf blindings party⟩

def nodeShared (key : Pedersen P) (values blindings : Coefficients t) (party : PartyId) :
    NodeShared P :=
  ⟨party, key.commit (values 0) (blindings 0), shareOf values party, shareOf blindings party,
    ladderOf key values blindings⟩

/-! ## Products -/

/-- The sharing of a product: a multiplicand with its blinding, the sharing of the factor, the
blinding of the product and the sharing of the cross term that corrects it. -/
structure ProductSharing (t : ℕ) where
  multiplicand : Scalar
  multiplicandBlinding : Scalar
  values : Coefficients t
  blindings : Coefficients t
  productBlinding : Scalar
  crosses : Coefficients t
  cross_eq : crosses 0 = productBlinding - multiplicandBlinding * values 0

namespace ProductSharing

variable (key : Pedersen P)

variable (sharing : ProductSharing t)

/-- The committed multiplicand. -/
def base : P :=
  key.commit sharing.multiplicand sharing.multiplicandBlinding

def statement : ProductStatement P where
  multiplicand := sharing.base key
  factorCommitment := key.commit (sharing.values 0) (sharing.blindings 0)
  productCommitment := key.commit (sharing.multiplicand * sharing.values 0) sharing.productBlinding
  factorCoefficients := ladderOf key sharing.values sharing.blindings
  relationCoefficients :=
    ladderOf (key.withValueGenerator (sharing.base key)) sharing.values sharing.crosses
  threshold := t

def contribution (party : PartyId) : ProductNodeContribution P :=
  ⟨nodeShared key sharing.values sharing.blindings party, shareOf sharing.crosses party⟩

theorem anchored : (sharing.statement key).Anchored := by
  refine ⟨ladderOf_head? _ _ _, (ladderOf_head? _ _ _).trans (congrArg some ?_)⟩
  rw [sharing.cross_eq]
  simp only [statement, base, Pedersen.withValueGenerator, Pedersen.commit]
  module

theorem opensLadders (party : PartyId) :
    OpensLadders key (sharing.statement key) (sharing.contribution key party) :=
  ⟨commit_shareOf key _ _ party, commit_shareOf (key.withValueGenerator _) _ _ party⟩

end ProductSharing

/-! ## Ranges -/

structure BitSharing (t : ℕ) where
  values : Coefficients t
  blindings : Coefficients t
  crosses : Coefficients t
  cross_eq : crosses 0 = blindings 0 * (1 - values 0)

structure RangeSharing (t width : ℕ) where
  value : ℕ
  fits : value < 2 ^ width
  values : Coefficients t
  blindings : Coefficients t
  secret_eq : values 0 = (value : Scalar)
  bits : List (BitSharing t)
  bits_eq : bits.map (·.values 0) = (lowBits value width).map bitScalar

namespace BitSharing

def commitment (key : Pedersen P) (bit : BitSharing t) : P :=
  key.commit (bit.values 0) (bit.blindings 0)

def relationLadder (key : Pedersen P) (bit : BitSharing t) : List P :=
  ladderOf (key.withValueGenerator (bit.commitment key)) bit.values bit.crosses

def node (key : Pedersen P) (bit : BitSharing t) (party : PartyId) : NodeBitShares P :=
  ⟨nodeShared key bit.values bit.blindings party, shareOf bit.crosses party⟩

end BitSharing

namespace RangeSharing

variable {width : ℕ} (key : Pedersen P) (sharing : RangeSharing t width)

def statement : RangeStatement P where
  commitment := key.commit (sharing.values 0) (sharing.blindings 0)
  valueCoefficients := ladderOf key sharing.values sharing.blindings
  bitCommitments := sharing.bits.map (·.commitment key)
  bitCoefficients := sharing.bits.map fun bit => ladderOf key bit.values bit.blindings
  threshold := t

def relations : RangeRelationStatement P where
  coefficients := sharing.bits.map (·.relationLadder key)
  threshold := t

def node (party : PartyId) : NodeValueShares P where
  party := party
  commitment := key.commit (sharing.values 0) (sharing.blindings 0)
  valueShare := shareOf sharing.values party
  blindingShare := shareOf sharing.blindings party
  valueCoefficientCommitments := ladderOf key sharing.values sharing.blindings
  bits := sharing.bits.map (·.node key party)
  threshold := t

theorem bits_length : sharing.bits.length = width := by
  have h := congrArg length sharing.bits_eq
  rwa [length_map, length_map, lowBits_length] at h

theorem bit_idempotent (h : bit ∈ sharing.bits) : bit.values 0 * bit.values 0 = bit.values 0 := by
  have hmem : bit.values 0 ∈ (lowBits sharing.value width).map bitScalar := by
    rw [← sharing.bits_eq]
    exact mem_map_of_mem h
  obtain ⟨digit, _, hdigit⟩ := mem_map.mp hmem
  rw [← hdigit]
  cases digit <;> simp [bitScalar]

theorem bits_sum : doublingSum Scalar (sharing.bits.map (·.values 0)) = sharing.values 0 := by
  have hdigits : (lowBits sharing.value width).map bitScalar =
      ((lowBits sharing.value width).map Bool.toNat).map fun digit : ℕ => (digit : Scalar) := by
    rw [map_map]
    refine map_congr_left fun digit _ => ?_
    cases digit <;> simp [bitScalar]
  rw [sharing.bits_eq, hdigits, doublingSum_digits, ofDigits_lowBits,
    Nat.mod_eq_of_lt sharing.fits, sharing.secret_eq]

theorem anchored : Anchored (sharing.statement key) (sharing.relations key) (t + 1) where
  threshold := rfl
  relations_length := by simp [relations, statement]
  value := ladderOf_head? _ _ _
  bits := by
    simp only [statement, map_map, Function.comp_def, ladderOf_head?]
    rfl
  squares := by
    simp only [relations, statement, map_map, Function.comp_def]
    refine map_congr_left fun bit hbit => ?_
    rw [BitSharing.relationLadder, ladderOf_head?, bit.cross_eq]
    have hsquare := sharing.bit_idempotent hbit
    -- the bit's square and its cross term give the commitment back
    have hcommit : (key.withValueGenerator (bit.commitment key)).commit (bit.values 0)
        (bit.blindings 0 * (1 - bit.values 0)) =
        key.commit (bit.values 0 * bit.values 0) (bit.blindings 0) := by
      simp only [BitSharing.commitment, Pedersen.withValueGenerator, Pedersen.commit]
      module
    rw [hcommit, hsquare]
    rfl
  value_length := ladderOf_length
  bits_length := by
    intro ladder hladder
    obtain ⟨bit, _, rfl⟩ := mem_map.mp hladder
    exact ladderOf_length
  coefficients_length := by
    intro ladder hladder
    obtain ⟨_, _, rfl⟩ := mem_map.mp hladder
    exact ladderOf_length

theorem opensLadders (party : PartyId) :
    OpensRangeLadders key (sharing.statement key) (sharing.relations key)
      (sharing.node key party) where
  commitments := by
    simp only [node, statement, map_map]
    rfl
  value := commit_shareOf key _ _ party
  bits := by
    simp only [node, statement, map_map]
    exact map_congr_left fun bit _ => commit_shareOf key _ _ party
  relations := by
    simp only [node, relations, map_map]
    exact map_congr_left fun bit _ =>
      commit_shareOf (key.withValueGenerator (bit.commitment key)) _ _ party

theorem interpolated_residual (hquorum : Committee quorum) (hsize : t + 1 ≤ quorum.length) :
    interpolated quorum (fun p => residualShare (sharing.node key p).valueShare
      ((sharing.node key p).bits.map (·.shared.valueShare))) = 0 := by
  have hsum : ∀ bits : List (BitSharing t), interpolated quorum (fun p =>
      doublingSum Scalar (bits.map fun bit => shareOf bit.values p)) =
      doublingSum Scalar (bits.map (·.values 0)) := by
    intro bits
    induction bits with
    | nil =>
      simp [doublingSum_nil, interpolated]
    | cons bit rest ih =>
      simp only [map_cons, doublingSum_cons]
      rw [interpolated_add, interpolated_smul, ih, interpolated_shareOf hquorum hsize bit.values]
  have hnode : ∀ p, (sharing.node key p).bits.map (·.shared.valueShare) =
      sharing.bits.map fun bit => shareOf bit.values p := by
    intro p
    rw [node, map_map]
    rfl
  have hsplit : ∀ p, shareOf sharing.values p = residualShare (sharing.node key p).valueShare
      ((sharing.node key p).bits.map (·.shared.valueShare)) +
        doublingSum Scalar (sharing.bits.map fun bit => shareOf bit.values p) := by
    intro p
    rw [residualShare_eq, hnode, sub_add_cancel]
    rfl
  have hvalue := interpolated_shareOf hquorum hsize sharing.values
  rw [interpolated_congr fun p _ => hsplit p, interpolated_add, hsum, sharing.bits_sum] at hvalue
  exact add_eq_right.mp hvalue

end RangeSharing

/-! ## Completeness -/

section Completeness

variable [DecidableEq P]

variable {quorum : List PartyId}

section

variable (lib : RoundLibrary P) (key : Pedersen P) (hquorum : Committee quorum)
  (hsize : t + 1 ≤ quorum.length) (context : Bytes)

include lib key hquorum hsize context

theorem opening_completes (transcript : Transcript)
    (values blindings : Coefficients t) (hzero : relation = .zero → values 0 = 0) :
    OpeningCompletes lib key (key.commit (values 0) (blindings 0))
      (ladderOf key values blindings) (openingContribution values blindings) quorum context
      transcript relation := by
  refine opening_complete hquorum (ladderOf_head? _ _ _)
    (ladderOf_length.trans_le hsize) (fun _ _ => rfl)
    (fun p _ => commit_shareOf key values blindings p) fun hrelation => ?_
  rw [← hzero hrelation]
  exact interpolated_shareOf hquorum hsize values

theorem product_completes (transcript : Transcript)
    (sharing : ProductSharing t) :
    ProductCompletes lib key (sharing.statement key) (sharing.contribution key) quorum context
      transcript :=
  product_complete hquorum (sharing.anchored key) (ladderOf_length.trans_le hsize)
    (ladderOf_length.trans_le hsize) (fun _ _ => rfl) fun p _ => sharing.opensLadders key p

theorem range_completes (sharing : RangeSharing t width) (hwidth : width ≤ 2 ^ 16) :
    RangeCompletes lib key (sharing.statement key) (sharing.relations key) (sharing.node key)
      quorum context := by
  refine range_complete hquorum (sharing.anchored key) hsize ?_ (fun _ _ => rfl)
    (fun p _ => sharing.opensLadders key p) (sharing.interpolated_residual key hquorum hsize)
  rw [RangeSharing.statement, length_map, sharing.bits_length]
  exact hwidth

end

/-- Every sharing of degree `t` completes its rounds with every quorum of more than `t` parties,
whatever the nonces and the order of the lists: a general opening of any sharing, a zero opening
of a sharing of zero, a product, and a range of a value with its binary digits in every width
whose bit indices the transcript can frame. -/
theorem rounds_complete (lib : RoundLibrary P) (key : Pedersen P) (hquorum : Committee quorum)
    (hsize : t + 1 ≤ quorum.length) (context : Bytes) (transcript : Transcript) :
    (∀ values blindings : Coefficients t,
      OpeningCompletes lib key (key.commit (values 0) (blindings 0))
        (ladderOf key values blindings) (openingContribution values blindings) quorum context
        transcript .general) ∧
    (∀ values blindings : Coefficients t, values 0 = 0 →
      OpeningCompletes lib key (key.commit (values 0) (blindings 0))
        (ladderOf key values blindings) (openingContribution values blindings) quorum context
        transcript .zero) ∧
    (∀ sharing : ProductSharing t,
      ProductCompletes lib key (sharing.statement key) (sharing.contribution key) quorum context
        transcript) ∧
    (∀ (width : ℕ) (sharing : RangeSharing t width), width ≤ 2 ^ 16 →
      RangeCompletes lib key (sharing.statement key) (sharing.relations key) (sharing.node key)
        quorum context) := by
  refine ⟨fun values blindings => ?_, fun values blindings hzero => ?_, fun sharing => ?_,
    fun width sharing hwidth => ?_⟩
  · exact opening_completes lib key hquorum hsize context transcript values blindings
      fun hrelation => nomatch hrelation
  · exact opening_completes lib key hquorum hsize context transcript values blindings
      fun _ => hzero
  · exact product_completes lib key hquorum hsize context transcript sharing
  · exact range_completes lib key hquorum hsize context sharing hwidth

/-- A library over the scalars themselves: numbers are encoded in 32 bytes, every challenge is
one and every digest is the same. -/
def plainLibrary : RoundLibrary Scalar where
  primitives := ⟨fun point => beBytes 32 point.val, fun _ _ => 1⟩
  sha256 _ := repeated 1

def plainKey : Pedersen Scalar := ⟨1, (2 : ℕ)⟩

theorem committee_three : Committee [3, 1, 2] := ⟨by decide, by decide, by decide⟩

/-- Three parties complete a general opening of a line through five. -/
theorem rounds_complete_three : Committee [3, 1, 2] ∧ ∃ messages seals responses proof,
    assembleOpeningFromRoundsWithTranscript plainLibrary plainKey (plainKey.commit 5 2)
      (ladderOf plainKey ![5, 7] ![2, 3]) messages seals responses [3, 1, 2] (utf8 "context")
      (Transcript.new []) = .ok proof ∧
    verifyOpening plainLibrary.primitives plainKey (Transcript.new []) (plainKey.commit 5 2)
      proof = true := by
  obtain ⟨_, _, hanswers, hassemble⟩ := (rounds_complete plainLibrary plainKey
    committee_three (by decide) (utf8 "context") (Transcript.new [])).1 ![5, 7] ![2, 3]
    (fun _ => 4) (fun _ => 6) _ _ (.refl _) (.refl _)
  have hseal : repeated 1 ≠ zeroDigest := by decide
  choose answer hanswer using fun p hp => hanswers p hp hseal
  obtain ⟨proof, hproof, haccepted⟩ := hassemble
    (fun p => if hp : p ∈ [3, 1, 2] then answer p hp else default) _
    (fun p hp => by rw [dif_pos hp]; exact hanswer p hp) (.refl _)
  exact ⟨committee_three, _, _, _, proof, hproof, haccepted⟩

end Completeness

end Zkpi.DealtSharings
