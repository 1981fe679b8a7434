import Zkpi.QuoteStatement
import Mathlib.Data.ZMod.ValMinAbs

/-!
# An accepted quote is the exact integer minimum

The verifier only ever sees residues modulo the group order. When every
registered field and the quantity open to signed 64-bit integers, none of the
quantities it derives can wrap: costs stay below 128 bits, packed keys below 193,
and the order has 252. So the eligibility bits, the effective costs, the
published winner value and the comparison of keys are statements about integers.

The relations of the sub-proofs are assumed on fixed openings, and encodings are
assumed to determine points. Nothing is assumed about the hash.
-/

namespace Zkpi.QuoteSoundness

open ScalarField ByteText FallibleChecks PedersenSigma BitRange AggregatedRanges ThresholdRange List
open QuoteStatement QuoteStatement.QuoteCircuit

/-! ## The quote over the integers -/

structure MakerTerms where
  makerAsset : UInt32
  askLevel : Int64
  spread : Int64
  slope : Int64
  invcoef : Int64
  inv : Int64
  maxqty : Int64
  expiry : Int64
  active : Int64
  useRef : Int64

open MakerTerms

section Integers

variable {P : Type} (statement : Public P) (quantity : Int64) (terms : MakerTerms)

def MakerTerms.ask : ℤ :=
  terms.askLevel.toInt + terms.useRef.toInt * statement.referencePrice.toInt +
    terms.slope.toInt * quantity.toInt + terms.invcoef.toInt * terms.inv.toInt

def MakerTerms.bid : ℤ :=
  terms.askLevel.toInt + terms.useRef.toInt * statement.referencePrice.toInt -
    terms.spread.toInt - terms.slope.toInt * quantity.toInt +
    terms.invcoef.toInt * terms.inv.toInt

def MakerTerms.Eligible : Prop :=
  terms.makerAsset = statement.asset ∧ terms.active.toInt = 1 ∧
    quantity.toInt ≤ terms.maxqty.toInt ∧ statement.now.toInt < terms.expiry.toInt

instance : Decidable (terms.Eligible statement quantity) :=
  inferInstanceAs (Decidable (_ ∧ _ ∧ _ ∧ _))

def MakerTerms.cost : ℤ :=
  if statement.direction = 1 then -terms.bid statement quantity else terms.ask statement quantity

def MakerTerms.effectiveCost : ℤ :=
  if terms.Eligible statement quantity then terms.cost statement quantity
  else statement.sentinel.toInt

def MakerTerms.packedKey (index : ℕ) : ℤ :=
  (terms.effectiveCost statement quantity + statement.sentinel.toInt) * statement.nSlots.toInt +
    index

end Integers

/-! ## Magnitudes -/

theorem abs_toInt_le (a : Int64) : |a.toInt| ≤ 2 ^ 63 := by
  have hlow := Int64.le_toInt a
  have hhigh := Int64.toInt_lt a
  rw [abs_le]
  omega

theorem abs_mul_toInt_le (a b : Int64) : |a.toInt * b.toInt| ≤ 2 ^ 126 := by
  rw [abs_mul]
  calc |a.toInt| * |b.toInt| ≤ 2 ^ 63 * 2 ^ 63 :=
        mul_le_mul (abs_toInt_le a) (abs_toInt_le b) (abs_nonneg _) (by norm_num)
    _ = 2 ^ 126 := by norm_num

section Bounds

variable {P : Type} (statement : Public P) (quantity : Int64) (terms : MakerTerms)

theorem abs_cost_lt : |terms.cost statement quantity| < 2 ^ 128 := by
  have hlevel := abs_le.mp (abs_toInt_le terms.askLevel)
  have hspread := abs_le.mp (abs_toInt_le terms.spread)
  have hreference := abs_le.mp (abs_mul_toInt_le terms.useRef statement.referencePrice)
  have hdepth := abs_le.mp (abs_mul_toInt_le terms.slope quantity)
  have hskew := abs_le.mp (abs_mul_toInt_le terms.invcoef terms.inv)
  unfold cost
  rw [abs_lt]
  split
  · unfold bid
    constructor <;> linarith
  · unfold ask
    constructor <;> linarith

theorem abs_effectiveCost_lt : |terms.effectiveCost statement quantity| < 2 ^ 128 := by
  unfold effectiveCost
  split
  · exact abs_cost_lt statement quantity terms
  · exact (abs_toInt_le _).trans_lt (by norm_num)

theorem abs_packedKey_lt {index : ℕ} (hindex : (index : ℤ) < statement.nSlots.toInt) :
    |terms.packedKey statement quantity index| < 2 ^ 193 := by
  have hcost := abs_effectiveCost_lt statement quantity terms
  have hsentinel := abs_toInt_le statement.sentinel
  have hslots := abs_toInt_le statement.nSlots
  have hranked : |terms.effectiveCost statement quantity + statement.sentinel.toInt| ≤ 2 ^ 129 :=
    (abs_add_le _ _).trans (by linarith)
  have hscaled : |(terms.effectiveCost statement quantity + statement.sentinel.toInt) *
      statement.nSlots.toInt| ≤ 2 ^ 192 := by
    rw [abs_mul]
    calc _ ≤ (2 : ℤ) ^ 129 * 2 ^ 63 := mul_le_mul hranked hslots (abs_nonneg _) (by norm_num)
      _ = 2 ^ 192 := by norm_num
  have hlow : |(index : ℤ)| ≤ 2 ^ 63 := by
    rw [abs_of_nonneg (Int.natCast_nonneg index)]
    exact hindex.le.trans ((le_abs_self _).trans hslots)
  unfold packedKey
  exact (abs_add_le _ _).trans_lt (by linarith)

theorem packedKey_slot {other : MakerTerms} {i j : ℕ} (hi : (i : ℤ) < statement.nSlots.toInt)
    (hj : (j : ℤ) < statement.nSlots.toInt)
    (h : terms.packedKey statement quantity i = other.packedKey statement quantity j) : i = j := by
  have hmod := congrArg (· % statement.nSlots.toInt) h
  simp only [packedKey] at hmod
  rw [add_comm, Int.add_mul_emod_self_right, add_comm, Int.add_mul_emod_self_right,
    Int.emod_eq_of_lt (Int.natCast_nonneg i) hi,
    Int.emod_eq_of_lt (Int.natCast_nonneg j) hj] at hmod
  exact_mod_cast hmod

end Bounds

/-! ## Sub-proofs on fixed openings -/

section Soundness

variable {P : Type} [AddCommGroup P] [Module Scalar P] [DecidableEq P]
variable {library : Bulletproofs P} {primitives : Primitives P} {sha256 : Bytes → Digest32}
variable {circuit : QuoteCircuit P} {binding : Binding circuit.key}

/-- What is assumed: encodings determine points, and every accepted sub-proof
implies its own relation on the openings. -/
structure SubProofsSound (primitives : Primitives P) (library : Bulletproofs P)
    {key : Pedersen P} (binding : Binding key) : Prop where
  encoding : Function.Injective primitives.compress
  product : ProductSound primitives binding
  bit : BitSound primitives binding
  zeroOpening : ZeroOpeningSound primitives binding
  range : RangeSound primitives library binding

variable {context : Bytes} {index : ℕ} {maker : MakerProof P library} {statement : Public P}
  {registered : RegisteredPolicy P} {terms : MakerTerms} {quantity : Int64} {keyCommitment : P}
  {proof : QuoteProof P library}

structure Opens {key : Pedersen P} (binding : Binding key) (policy : RegisteredPolicy P)
    (terms : MakerTerms) : Prop where
  makerAsset : policy.makerAsset = terms.makerAsset
  askLevel : binding.value policy.askLevel = (terms.askLevel.toInt : Scalar)
  spread : binding.value policy.spread = (terms.spread.toInt : Scalar)
  slope : binding.value policy.slope = (terms.slope.toInt : Scalar)
  invcoef : binding.value policy.invcoef = (terms.invcoef.toInt : Scalar)
  inv : binding.value policy.inv = (terms.inv.toInt : Scalar)
  maxqty : binding.value policy.maxqty = (terms.maxqty.toInt : Scalar)
  expiry : binding.value policy.expiry = (terms.expiry.toInt : Scalar)
  active : binding.value policy.active = (terms.active.toInt : Scalar)
  useRef : binding.value policy.useRef = (terms.useRef.toInt : Scalar)

omit [DecidableEq P] in
theorem checkRegister_ok (hencoding : Function.Injective primitives.compress)
    (h : circuit.checkRegister primitives statement index registered maker = .ok ()) :
    registered.slope = maker.commitments.slope ∧
    registered.invcoef = maker.commitments.invcoef ∧
    registered.inv = maker.commitments.inv ∧ registered.active = maker.commitments.active := by
  have hall := forM_ok.mp h
  simp only [forall_mem_cons, refuseIf_ok, ne_eq, not_not, not_mem_nil, false_imp_iff,
    implies_true, and_true] at hall
  obtain ⟨hslope, hinvcoef, hinv, _, _, hactive⟩ := hall
  exact ⟨hencoding hslope, hencoding hinvcoef, hencoding hinv, hencoding hactive⟩

omit [DecidableEq P] in
theorem derivedCost_value (hopens : Opens binding registered terms)
    (hdepth : binding.value maker.commitments.depth = (terms.slope.toInt : Scalar) * (quantity.toInt
      : Scalar))
    (hskew : binding.value maker.commitments.skew = (terms.invcoef.toInt : Scalar) *
      (terms.inv.toInt : Scalar)) :
    binding.value (derivedCost statement registered maker) =
      ((terms.cost statement quantity : ℤ) : Scalar) := by
  unfold derivedCost cost
  dsimp only
  split
  · simp only [map_neg, map_add, map_sub, map_smul, smul_eq_mul, hopens.askLevel, hopens.useRef,
      hopens.spread, hdepth, hskew, scalarFromI64_eq, bid]
    push_cast
    ring
  · simp only [map_add, map_smul, smul_eq_mul, hopens.askLevel, hopens.useRef, hdepth, hskew,
      scalarFromI64_eq, ask]
    push_cast
    ring

structure MakerHides {key : Pedersen P} (binding : Binding key) (statement : Public P)
    (quantity : Int64) (terms : MakerTerms) (index : ℕ) (maker : MakerProof P library)
    (keyCommitment : P) : Prop where
  ok : binding.value maker.commitments.ok = bitScalar (terms.Eligible statement quantity)
  gated : binding.value maker.commitments.gated =
    ((terms.effectiveCost statement quantity - statement.sentinel.toInt : ℤ) : Scalar)
  packed : binding.value keyCommitment = ((terms.packedKey statement quantity index : ℤ) : Scalar)

theorem active_bit {active : Int64}
    (h : (active.toInt : Scalar) = 0 ∨ (active.toInt : Scalar) = 1) :
    (active.toInt : Scalar) = bitScalar (active.toInt = 1) := by
  have hbound := abs_le.mp (abs_toInt_le active)
  have hlarge : (2 : ℤ) ^ 65 < (order : ℤ) := by norm_num [order]
  rcases h with hzero | hone
  · have hexact : active.toInt = 0 := by
      apply intCast_scalar_inj (by rw [hzero, Int.cast_zero])
      rw [abs_lt]
      omega
    simp [hexact, bitScalar]
  · have hexact : active.toInt = 1 := by
      apply intCast_scalar_inj (by rw [hone, Int.cast_one])
      rw [abs_lt]
      omega
    simp [hexact, bitScalar]

theorem bitScalar_mul (a b : Prop) [Decidable a] [Decidable b] :
    bitScalar (decide a) * bitScalar (decide b) = bitScalar (decide (a ∧ b)) := by
  by_cases ha : a <;> by_cases hb : b <;> simp [ha, hb, bitScalar]

omit [AddCommGroup P] [Module Scalar P] [DecidableEq P] in
theorem checkShape_ok (h : checkShape primitives sha256 proof statement = .ok ()) :
    statement.direction ≤ 1 ∧ (statement.registry.length : ℤ) ≤ statement.nSlots.toInt ∧
    statement.registry.length = proof.makerProofs.length ∧
    proof.keyCommitments.length = statement.registry.length ∧
    proof.winnerIndex < statement.registry.length := by
  simp only [checkShape, refuseIf_bind_ok, refuseIf_ok, not_not, ne_eq, not_or, not_le, not_lt,
    gt_iff_lt, ge_iff_le, UInt8.not_lt] at h
  obtain ⟨_, hdirection, hslots, hmakers, hkeys, hwinner, _⟩ := h
  refine ⟨hdirection, ?_, hmakers, hkeys, hwinner⟩
  omega

theorem verify_maker (h : circuit.verify primitives sha256 proof statement context = .ok ())
    (hindex : statement.registry[index]? = some registered) :
    ∃ maker keyCommitment, proof.makerProofs[index]? = some maker ∧
      proof.keyCommitments[index]? = some keyCommitment ∧
      circuit.checkRegister primitives statement index registered maker = .ok () ∧
      circuit.checkMargins primitives statement
        (statementContext primitives sha256 context statement) index registered maker = .ok () ∧
      circuit.checkKey primitives statement
        (statementContext primitives sha256 context statement) index registered maker
        keyCommitment = .ok () := by
  obtain ⟨_, hshape, h⟩ := bind_ok.mp h
  obtain ⟨_, _, hmakers, hkeys, _⟩ := checkShape_ok hshape
  obtain ⟨_, hregister, h⟩ := bind_ok.mp h
  obtain ⟨_, hloop, _⟩ := bind_ok.mp h
  obtain ⟨hlt, _⟩ := List.getElem?_eq_some_iff.mp hindex
  have hmaker : proof.makerProofs[index]? = some proof.makerProofs[index] :=
    getElem?_eq_getElem (by omega)
  have hkey : proof.keyCommitments[index]? = some proof.keyCommitments[index] :=
    getElem?_eq_getElem (by omega)
  have hfirst := forM_ok.mp hregister ((registered, proof.makerProofs[index]), index)
    (mem_zipIdx_iff_getElem?.mpr (List.getElem?_zip_eq_some.mpr ⟨hindex, hmaker⟩))
  have hsecond := forM_ok.mp hloop
    ((registered, proof.makerProofs[index], proof.keyCommitments[index]), index)
    (mem_zipIdx_iff_getElem?.mpr (List.getElem?_zip_eq_some.mpr
      ⟨hindex, List.getElem?_zip_eq_some.mpr ⟨hmaker, hkey⟩⟩))
  obtain ⟨_, hmargins, hpacked⟩ := bind_ok.mp hsecond
  exact ⟨_, _, hmaker, hkey, hfirst, hmargins, hpacked⟩

section Accepted

variable (hsound : SubProofsSound primitives library binding)

include hsound

theorem checkBitProof_bit {commitment : P} {proof : BitValidityProof P} {transcript : Transcript}
    (h : circuit.checkBitProof primitives commitment proof transcript = true) :
    binding.value commitment = 0 ∨ binding.value commitment = 1 := by
  cases proof with
  | disjunction proof => exact hsound.bit transcript commitment proof h
  | square => exact hsound.product.square h

/-- The bit of an accepted sign test decides the sign. The derived value is the
base when the bit is one and its complement when the bit is zero, and only the
right one is small. -/
theorem checkGate_sign (h : circuit.checkGate primitives base gate context = true) {s : ℤ} {n : ℕ}
    (hbase : binding.value base = (s : Scalar)) (hs : |s| ≤ 2 ^ 65) (hn : n < 2 ^ 64)
    (hwitness : binding.value gate.witnessCommitment = (n : Scalar)) :
    binding.value gate.commitment = bitScalar (0 ≤ s) := by
  simp only [checkGate, Bool.if_false_left, Bool.and_eq_true, decide_eq_true_eq, not_not,
    Bool.not_eq_true', decide_eq_false_iff_not] at h
  obtain ⟨hbit, hproduct, hderived⟩ := h
  have hproductValue := hsound.product _ _ _ _ _ hproduct
  have hderivedValue := congrArg binding.value (hsound.encoding hderived)
  simp only [derivedWitness, map_add, map_sub, binding.value_commit, hproductValue, hbase,
    hwitness] at hderivedValue
  have hlarge : (2 : ℤ) ^ 67 < (order : ℤ) := by norm_num [order]
  rw [abs_le] at hs
  rcases checkBitProof_bit hsound hbit with hzero | hone
  · rw [hzero] at hderivedValue ⊢
    have hexact : (-s - 1 : ℤ) = n := by
      apply intCast_scalar_inj
      · push_cast
        linear_combination hderivedValue
      · rw [abs_lt]
        omega
    have hneg : ¬ 0 ≤ s := by omega
    simp [bitScalar, hneg]
  · rw [hone] at hderivedValue ⊢
    have hexact : s = n := by
      apply intCast_scalar_inj
      · push_cast
        linear_combination hderivedValue
      · rw [abs_lt]
        omega
    have hpos : 0 ≤ s := by omega
    simp [bitScalar, hpos]

theorem checkEligibility_ok (h : circuit.checkEligibility primitives context index maker = .ok ()) :
    (∃ n : ℕ, n < 2 ^ 64 ∧
      binding.value maker.fitsGate.witnessCommitment = (n : Scalar)) ∧
    ∃ n : ℕ, n < 2 ^ 64 ∧ binding.value maker.freshGate.witnessCommitment = (n : Scalar) := by
  unfold checkEligibility at h
  split at h
  · simp only [refuseIf_bind_ok, refuseIf_ok, not_not, ne_eq] at h
    obtain ⟨_, hcommitments, hverify⟩ := h
    have hwidth : 2 ^ roundedWidth (circuit.eligibilityBits + 2) circuit.eligibility_le ≤ 2 ^ 64 :=
      Nat.pow_le_pow_right (by norm_num) (validBits_le circuit.eligibility_supported)
    have hrange := hsound.range _ _ _
      [maker.fitsGate.witnessCommitment, maker.freshGate.witnessCommitment] _
      (by rw [hcommitments] at hverify; exact hverify)
    obtain ⟨n, hn, hfits⟩ := hrange _ mem_cons_self
    obtain ⟨m, hm, hfresh⟩ := hrange _ (mem_cons_of_mem _ mem_cons_self)
    exact ⟨⟨n, hn.trans_le hwidth, hfits⟩, m, hm.trans_le hwidth, hfresh⟩
  · simp only [refuseIf_bind_ok, refuseIf_ok, not_or, not_not, ne_eq] at h
    obtain ⟨⟨hfitsBits, hfreshBits⟩, hfits, hfresh⟩ := h
    have hwidth : 2 ^ (circuit.eligibilityBits + 2) ≤ 2 ^ 64 :=
      Nat.pow_le_pow_right (by norm_num) circuit.eligibility_le
    obtain ⟨n, hn, hfitsValue⟩ := verifyThresholdRange_value hsound.product hsound.zeroOpening hfits
    obtain ⟨m, hm, hfreshValue⟩ :=
      verifyThresholdRange_value hsound.product hsound.zeroOpening hfresh
    rw [hfitsBits] at hn
    rw [hfreshBits] at hm
    exact ⟨⟨n, hn.trans_le hwidth, hfitsValue⟩, m, hm.trans_le hwidth, hfreshValue⟩

/-! ## One maker -/

/-- The sign tests of a checked maker decide its two margins, and its products
are products. -/
theorem checkMargins_ok
    (h : circuit.checkMargins primitives statement context index registered maker = .ok ())
    (hopens : Opens binding registered terms)
    (hquantity : binding.value statement.qtyCommitment = (quantity.toInt : Scalar)) :
    binding.value maker.commitments.depth =
      binding.value maker.commitments.slope * (quantity.toInt : Scalar) ∧
    binding.value maker.commitments.skew =
      binding.value maker.commitments.invcoef * binding.value maker.commitments.inv ∧
    (binding.value maker.commitments.active = 0 ∨ binding.value maker.commitments.active = 1) ∧
    binding.value maker.fitsGate.commitment =
      bitScalar (quantity.toInt ≤ terms.maxqty.toInt) ∧
    binding.value maker.freshGate.commitment =
      bitScalar (statement.now.toInt < terms.expiry.toInt) := by
  simp only [checkMargins, refuseIf_bind_ok, not_not, ne_eq] at h
  obtain ⟨hdepth, hskew, h⟩ := h
  obtain ⟨_, heligibility, h⟩ := bind_ok.mp h
  simp only [refuseIf_bind_ok, refuseIf_ok, not_not] at h
  obtain ⟨hactive, _, hfits, hfresh, hfitsGate, hfreshGate⟩ := h
  obtain ⟨⟨n, hn, hfitsWitness⟩, m, hm, hfreshWitness⟩ := checkEligibility_ok hsound heligibility
  have hquantityBound := abs_le.mp (abs_toInt_le quantity)
  have hmaxBound := abs_le.mp (abs_toInt_le terms.maxqty)
  have hnowBound := abs_le.mp (abs_toInt_le statement.now)
  have hexpiryBound := abs_le.mp (abs_toInt_le terms.expiry)
  have hfitsBase : binding.value maker.commitments.fits =
      ((terms.maxqty.toInt - quantity.toInt : ℤ) : Scalar) := by
    rw [← hsound.encoding hfits, map_sub, hopens.maxqty, hquantity]
    push_cast
    rfl
  have hfreshBase : binding.value maker.commitments.freshStrict =
      ((terms.expiry.toInt - statement.now.toInt - 1 : ℤ) : Scalar) := by
    rw [← hsound.encoding hfresh, map_sub, map_sub, hopens.expiry, binding.value_commit,
      binding.value_commit, scalarFromI64_eq]
    push_cast
    rfl
  have hfitsBit := checkGate_sign hsound hfitsGate hfitsBase
    (by rw [abs_le]; constructor <;> omega) hn hfitsWitness
  have hfreshBit := checkGate_sign hsound hfreshGate hfreshBase
    (by rw [abs_le]; constructor <;> omega) hm hfreshWitness
  refine ⟨?_, hsound.product _ _ _ _ _ hskew, checkBitProof_bit hsound hactive, ?_, ?_⟩
  · rw [hsound.product _ _ _ _ _ hdepth, hquantity]
  · rw [hfitsBit]
    simp
  · rw [hfreshBit]
    have hiff : (0 ≤ terms.expiry.toInt - statement.now.toInt - 1) ↔
        statement.now.toInt < terms.expiry.toInt := by omega
    simp only [hiff]

theorem checkKey_ok (h : circuit.checkKey primitives statement context index registered maker
      keyCommitment = .ok ()) :
    binding.value maker.commitments.ok = binding.value maker.fitsGate.commitment *
      binding.value maker.freshGate.commitment *
        (bitScalar (registered.makerAsset = statement.asset) *
          binding.value maker.commitments.active) ∧
    binding.value maker.commitments.gated = binding.value maker.commitments.ok *
      (binding.value (derivedCost statement registered maker) -
        (statement.sentinel.toInt : Scalar)) ∧
    binding.value keyCommitment = (statement.nSlots.toInt : Scalar) *
      (binding.value maker.commitments.gated + ((2 * statement.sentinel.toInt : ℤ) : Scalar)) +
        (index : Scalar) := by
  simp only [checkKey, refuseIf_bind_ok, not_not, ne_eq] at h
  obtain ⟨hboth, hok, hcost, hshifted, hgated, h⟩ := h
  obtain ⟨double, hdouble, h⟩ := bind_ok.mp h
  simp only [refuseIf_ok, not_not] at h
  rw [orRefuse_ok] at hdouble
  have hbothValue := hsound.product _ _ _ _ _ hboth
  have hokValue := hsound.product _ _ _ _ _ hok
  have hgatedValue := hsound.product _ _ _ _ _ hgated
  rw [map_smul, smul_eq_mul, hbothValue] at hokValue
  rw [← hsound.encoding hshifted, map_sub, ← hsound.encoding hcost, binding.value_commit,
    scalarFromI64_eq] at hgatedValue
  refine ⟨hokValue, hgatedValue, ?_⟩
  rw [← hsound.encoding h, map_add, map_smul, map_add, binding.value_commit, binding.value_commit,
    scalarFromI64_eq, scalarFromI64_eq, checkedDouble_some hdouble, smul_eq_mul]

theorem maker_hides (hopens : Opens binding registered terms)
    (hquantity : binding.value statement.qtyCommitment = (quantity.toInt : Scalar))
    (hregister : circuit.checkRegister primitives statement index registered maker = .ok ())
    (hmargins : circuit.checkMargins primitives statement context index registered maker = .ok ())
    (hkey : circuit.checkKey primitives statement context index registered maker keyCommitment = .ok
      ()) :
    MakerHides binding statement quantity terms index maker keyCommitment := by
  obtain ⟨hslope, hinvcoef, hinv, hactive⟩ := checkRegister_ok hsound.encoding hregister
  obtain ⟨hdepth, hskew, hbit, hfits, hfresh⟩ := checkMargins_ok hsound hmargins hopens hquantity
  obtain ⟨hok, hgated, hpacked⟩ := checkKey_ok hsound hkey
  rw [← hslope, hopens.slope] at hdepth
  rw [← hinvcoef, ← hinv, hopens.invcoef, hopens.inv] at hskew
  rw [← hactive, hopens.active] at hbit
  rw [hfits, hfresh, ← hactive, hopens.active, active_bit hbit, hopens.makerAsset, bitScalar_mul,
    bitScalar_mul, bitScalar_mul] at hok
  have heligible : ((quantity.toInt ≤ terms.maxqty.toInt ∧
      statement.now.toInt < terms.expiry.toInt) ∧
      terms.makerAsset = statement.asset ∧ terms.active.toInt = 1) ↔
      terms.Eligible statement quantity := by
    unfold Eligible
    tauto
  simp only [heligible] at hok
  rw [derivedCost_value hopens hdepth hskew, hok] at hgated
  have hgatedExact : binding.value maker.commitments.gated =
      ((terms.effectiveCost statement quantity - statement.sentinel.toInt : ℤ) : Scalar) := by
    rw [hgated, effectiveCost]
    by_cases h : terms.Eligible statement quantity
    · simp only [bitScalar, h, decide_true, if_true]
      push_cast
      ring
    · simp only [bitScalar, h, decide_false, Bool.false_eq_true, if_false]
      push_cast
      ring
  refine ⟨hok, hgatedExact, ?_⟩
  rw [hpacked, hgatedExact, packedKey]
  push_cast
  ring

/-! ## The whole register -/

theorem checkMinimality_ok (h : circuit.checkMinimality primitives proof context = .ok ())
    (hmem : keyCommitment ∈ proof.keyCommitments) :
    ∃ n : ℕ, n < 2 ^ 64 ∧ binding.value
      (keyCommitment - proof.keyCommitments.getD proof.winnerIndex 0) = (n : Scalar) := by
  unfold checkMinimality at h
  dsimp only at h
  split at h
  · simp only [refuseIf_bind_ok, refuseIf_ok, not_not, ne_eq] at h
    obtain ⟨hcommitments, hverify⟩ := h
    rw [hcommitments] at hverify
    obtain ⟨n, hn, hvalue⟩ := hsound.range _ _ _ _ _ hverify _
      (mem_append_left _ (mem_map_of_mem hmem))
    exact ⟨n, hn.trans_le (Nat.pow_le_pow_right (by norm_num)
      (validBits_le (roundedWidth_valid circuit.span_le))), hvalue⟩
  · rename_i proofs _
    simp only [refuseIf_bind_ok, not_not, ne_eq] at h
    obtain ⟨hlength, hloop⟩ := h
    obtain ⟨index, hlt, rfl⟩ := List.mem_iff_getElem.mp hmem
    have hentry := forM_ok.mp hloop ((proof.keyCommitments[index], proofs[index]), index)
      (mem_zipIdx_iff_getElem?.mpr (List.getElem?_zip_eq_some.mpr
        ⟨getElem?_eq_getElem hlt, getElem?_eq_getElem (by omega)⟩))
    simp only [refuseIf_ok, not_or, not_not] at hentry
    obtain ⟨n, hn, hvalue⟩ :=
      verifyThresholdRange_value hsound.product hsound.zeroOpening hentry.2
    rw [hentry.1] at hn
    exact ⟨n, hn.trans_le (Nat.pow_le_pow_right (by norm_num) circuit.span_le), hvalue⟩

theorem verify_winner (h : circuit.verify primitives sha256 proof statement context = .ok ()) :
    binding.value (proof.keyCommitments.getD proof.winnerIndex 0) =
      (proof.winnerValue.toNat : Scalar) ∧
    ∀ keyCommitment ∈ proof.keyCommitments, ∃ n : ℕ, n < 2 ^ 64 ∧
      binding.value (keyCommitment - proof.keyCommitments.getD proof.winnerIndex 0) =
        (n : Scalar) := by
  obtain ⟨_, _, h⟩ := bind_ok.mp h
  obtain ⟨_, _, h⟩ := bind_ok.mp h
  obtain ⟨_, _, h⟩ := bind_ok.mp h
  simp only [refuseIf_bind_ok, not_not] at h
  have hzero := hsound.zeroOpening _ _ _ h.1
  rw [binding.value_shift, sub_eq_zero] at hzero
  exact ⟨hzero, fun _ hmem => checkMinimality_ok hsound h.2 hmem⟩

variable {terms : ℕ → MakerTerms}
  (h : circuit.verify primitives sha256 proof statement context = .ok ())
  (hquantity : binding.value statement.qtyCommitment = (quantity.toInt : Scalar))
  (hopens : ∀ index policy, statement.registry[index]? = some policy →
    Opens binding policy (terms index))

include h hquantity hopens

theorem verify_hides (hindex : index < statement.registry.length) :
    ∃ maker keyCommitment, proof.makerProofs[index]? = some maker ∧
      proof.keyCommitments[index]? = some keyCommitment ∧
      MakerHides binding statement quantity (terms index) index maker keyCommitment := by
  have hpolicy := getElem?_eq_getElem hindex
  obtain ⟨maker, keyCommitment, hmaker, hkey, hregister, hmargins, hpacked⟩ :=
    verify_maker h hpolicy
  exact ⟨maker, keyCommitment, hmaker, hkey, maker_hides hsound (hopens index _ hpolicy) hquantity
    hregister hmargins hpacked⟩

theorem winner_exact :
    proof.winnerIndex < statement.registry.length ∧
    (proof.winnerValue.toNat : ℤ) =
      (terms proof.winnerIndex).packedKey statement quantity proof.winnerIndex := by
  obtain ⟨_, hshape, _⟩ := bind_ok.mp h
  obtain ⟨_, hslots, _, _, hwinner⟩ := checkShape_ok hshape
  obtain ⟨_, keyCommitment, _, hkey, hhides⟩ := verify_hides hsound h hquantity hopens hwinner
  have hopening := (verify_winner hsound h).1
  rw [getD_eq_getElem?_getD, hkey, Option.getD_some, hhides.packed] at hopening
  have hbound := abs_lt.mp (abs_packedKey_lt statement quantity (terms proof.winnerIndex)
    (show (proof.winnerIndex : ℤ) < statement.nSlots.toInt by omega))
  have hvalue := proof.winnerValue.toNat_lt
  have hlarge : (2 : ℤ) ^ 194 < (order : ℤ) := by norm_num [order]
  refine ⟨hwinner, (intCast_scalar_inj ?_ ?_).symm⟩
  · rw [hopening, Int.cast_natCast]
  · rw [abs_lt]
    omega

theorem winner_minimal (hindex : index < statement.registry.length)
    (hother : index ≠ proof.winnerIndex) :
    (proof.winnerValue.toNat : ℤ) < (terms index).packedKey statement quantity index := by
  obtain ⟨_, hshape, _⟩ := bind_ok.mp h
  obtain ⟨_, hslots, _, _, _⟩ := checkShape_ok hshape
  obtain ⟨hwinner, hexact⟩ := winner_exact hsound h hquantity hopens
  obtain ⟨_, keyCommitment, _, hkey, hhides⟩ := verify_hides hsound h hquantity hopens hindex
  obtain ⟨hopening, hdifferences⟩ := verify_winner hsound h
  obtain ⟨n, hn, hdifference⟩ := hdifferences keyCommitment (mem_of_getElem? hkey)
  rw [map_sub, hhides.packed, hopening] at hdifference
  have hslot : (index : ℤ) < statement.nSlots.toInt := by omega
  have hbound := abs_lt.mp (abs_packedKey_lt statement quantity (terms index) hslot)
  have hvalue := proof.winnerValue.toNat_lt
  have hlarge : (2 : ℤ) ^ 194 < (order : ℤ) := by norm_num [order]
  have hsum : (terms index).packedKey statement quantity index = proof.winnerValue.toNat + n := by
    apply intCast_scalar_inj
    · push_cast
      linear_combination hdifference
    · rw [abs_lt]
      omega
  have hne : (terms index).packedKey statement quantity index ≠ proof.winnerValue.toNat := by
    intro hsame
    rw [hexact] at hsame
    exact hother (packedKey_slot statement quantity (terms index) hslot (by omega) hsame)
  omega

end Accepted

variable (circuit) in
/-- An accepted quote proof is the exact integer statement. For every registered
maker the eligibility bit is one exactly when the maker serves the request, and
its effective cost is, as a signed integer, the ask, the negated bid or the
sentinel. The published value packs the winner's effective cost and index, and
every other registered maker has a larger key. No reduction modulo the group
order takes place anywhere. -/
theorem quote_exact (defaultGens : Pedersen P) (binding : Binding defaultGens)
    (hsound : SubProofsSound primitives library binding) (eligibilityBits spanBits : ℕ)
    (hcircuit : QuoteCircuit.tryNew defaultGens eligibilityBits spanBits = .ok circuit)
    (proof : QuoteProof P library) (statement : Public P) (context : Bytes)
    (haccepted : circuit.verify primitives sha256 proof statement context = .ok ())
    (quantity : Int64)
    (hquantity : binding.value statement.qtyCommitment = (quantity.toInt : Scalar))
    (terms : ℕ → MakerTerms)
    (hopens : ∀ index policy, statement.registry[index]? = some policy →
      Opens binding policy (terms index)) :
    (statement.direction = 0 ∨ statement.direction = 1) ∧
    (∀ index < statement.registry.length, ∃ maker, proof.makerProofs[index]? = some maker ∧
      (binding.value maker.commitments.ok = 1 ↔ (terms index).Eligible statement quantity) ∧
      (binding.value maker.commitments.ok = 0 ↔ ¬ (terms index).Eligible statement quantity) ∧
      ZMod.valMinAbs (binding.value maker.commitments.gated +
        (statement.sentinel.toInt : Scalar)) = (terms index).effectiveCost statement quantity) ∧
    proof.winnerIndex < statement.registry.length ∧
    (proof.winnerValue.toNat : ℤ) =
      ((terms proof.winnerIndex).effectiveCost statement quantity + statement.sentinel.toInt) *
        statement.nSlots.toInt + proof.winnerIndex ∧
    ∀ index < statement.registry.length, index ≠ proof.winnerIndex →
      (proof.winnerValue.toNat : ℤ) <
        ((terms index).effectiveCost statement quantity + statement.sentinel.toInt) *
          statement.nSlots.toInt + index := by
  have hkey := tryNew_key hcircuit
  subst hkey
  obtain ⟨_, hshape, _⟩ := bind_ok.mp haccepted
  have hdirection := UInt8.le_iff_toNat_le.mp (checkShape_ok hshape).1
  obtain ⟨hwinner, hexact⟩ := winner_exact hsound haccepted hquantity hopens
  refine ⟨?_, ?_, hwinner, hexact, fun index hindex hother =>
    winner_minimal hsound haccepted hquantity hopens hindex hother⟩
  · have hone : statement.direction.toNat ≤ 1 := hdirection
    rw [← UInt8.toNat_inj, ← UInt8.toNat_inj]
    have hcases : statement.direction.toNat = 0 ∨ statement.direction.toNat = 1 := by omega
    exact hcases
  · intro index hindex
    obtain ⟨maker, _, hmaker, _, hhides⟩ := verify_hides hsound haccepted hquantity hopens hindex
    refine ⟨maker, hmaker, ?_, ?_, ?_⟩
    iterate 2
      rw [hhides.ok]
      by_cases h : (terms index).Eligible statement quantity <;> simp [bitScalar, h]
    · have hbound := abs_lt.mp (abs_effectiveCost_lt statement quantity (terms index))
      have hlarge : (2 : ℤ) ^ 130 < (order : ℤ) := by norm_num [order]
      rw [hhides.gated, ← Int.cast_add, sub_add_cancel, ZMod.valMinAbs_spec]
      refine ⟨rfl, ?_, ?_⟩ <;> omega

end Soundness

/-! ## Two makers in the ideal model -/

section Sample

open IdealChallenges

def clear (value : Scalar) : Point := idealKey.commit value 0

theorem clear_add (a b : Scalar) : clear a + clear b = clear (a + b) := by
  simp only [clear, Pedersen.commit]
  module

theorem clear_sub (a b : Scalar) : clear a - clear b = clear (a - b) := by
  simp only [clear, Pedersen.commit]
  module

theorem smul_clear (a b : Scalar) : a • clear b = clear (a * b) := by
  simp only [clear, Pedersen.commit]
  module

variable (transcript : Transcript)

noncomputable def clearProduct (a b : Scalar) : ProductProof Point :=
  proveProduct idealPrimitives idealKey transcript (clear a) a 0 b 0 0 0 0 0

theorem clearProduct_accepted (h : a * b = c) :
    verifyProduct idealPrimitives idealKey transcript (clear a) (clear b) (clear c)
      (clearProduct transcript a b) = true := by
  rw [← h]
  exact proveProduct_accepted idealPrimitives idealKey transcript rfl b 0 0 0 0 0

noncomputable def clearBit (bit : Bool) : BitValidityProof Point :=
  .square (clearProduct transcript (bitScalar bit) (bitScalar bit))

/-- The policy of a maker that offers at five, up to three units until ten. -/
def samplePolicy (active : Bool) : RegisteredPolicy Point where
  makerAsset := 7
  askLevel := clear (5 : ℕ)
  spread := clear 1
  slope := clear (2 : ℕ)
  invcoef := clear 0
  inv := clear 0
  maxqty := clear (3 : ℕ)
  expiry := clear (10 : ℕ)
  active := clear (bitScalar active)
  useRef := clear 0

/-- A request for one unit at time four, served by an active and an inactive maker. -/
noncomputable def sampleStatement : Public Point where
  qtyCommitment := clear 1
  now := 4
  sentinel := 100
  nSlots := 2
  direction := 0
  asset := 7
  referencePrice := 50
  registry := [samplePolicy true, samplePolicy false]
  registryDigest := zeroDigest
  marketDigest := zeroDigest
  slot := 0

def sampleKey (index : ℕ) (active : Bool) : Scalar :=
  (2 : ℕ) * (bitScalar active * ((7 : ℕ) - (100 : ℕ)) + (200 : ℕ)) + index

variable (context : Bytes)

noncomputable def sampleGate (value : Scalar) : Gate Point where
  commitment := clear 1
  bitProof := clearBit (gateBitTranscript context) true
  product := clearProduct (gateProductTranscript context) 1 value
  productCommitment := clear value
  witnessCommitment := clear value

variable (index : ℕ)

variable (active : Bool)

noncomputable def sampleMaker : MakerProof Point idealLibrary where
  depth := clearProduct (tag context index "depth") (2 : ℕ) 1
  skew := clearProduct (tag context index "skew") 0 0
  gateCost := clearProduct (tag context index "gate") (bitScalar active) ((7 : ℕ) - (100 : ℕ))
  eligibility := .bulletproof () [idealEncode (clear (2 : ℕ)), idealEncode (clear (5 : ℕ))]
  activeBit := clearBit (tag context index "active") active
  referenceBit := clearBit (tag context index "reference") false
  fitsGate := sampleGate (gateContext context index "fits") (2 : ℕ)
  freshGate := sampleGate (gateContext context index "fresh") (5 : ℕ)
  conjunction := (clearProduct (tag context index "ok1") 1 1,
    clearProduct (tag context index "ok2") 1 (bitScalar active))
  commitments := {
    slope := clear (2 : ℕ)
    invcoef := clear 0
    inv := clear 0
    depth := clear (2 : ℕ)
    skew := clear 0
    fits := clear (2 : ℕ)
    fresh := clear (6 : ℕ)
    active := clear (bitScalar active)
    ok := clear (bitScalar active)
    freshStrict := clear (5 : ℕ)
    both := clear 1
    cost := clear (7 : ℕ)
    gated := clear (bitScalar active * ((7 : ℕ) - (100 : ℕ)))
    shiftedCost := clear ((7 : ℕ) - (100 : ℕ)) }

noncomputable def sampleContext : Bytes :=
  statementContext idealPrimitives (fun _ => zeroDigest) [] sampleStatement

noncomputable def sampleQuote : QuoteProof Point idealLibrary where
  winnerIndex := 0
  winnerValue := 214
  makerProofs := [sampleMaker sampleContext 0 true, sampleMaker sampleContext 1 false]
  winnerOpening := proveZeroOpening idealPrimitives idealKey (whole sampleContext "winner")
    (idealKey.shift (clear (sampleKey 0 true)) 214) 0 0 0
  minimality := .bulletproof () [idealEncode (clear 0), idealEncode (clear 187)]
  keyCommitments := [clear (sampleKey 0 true), clear (sampleKey 1 false)]

def sampleCircuit : QuoteCircuit Point := ⟨idealKey, 32, 32, by norm_num, by norm_num, by norm_num⟩

variable {n : ℕ}

theorem scalarFromI64_small {value : Int64} (h : value.toInt = n) :
    scalarFromI64 value = (n : Scalar) := by
  rw [scalarFromI64_eq, h, Int.cast_natCast]

theorem clear_congr (h : a = b) :
    idealPrimitives.compress (clear a) = idealPrimitives.compress (clear b) := by rw [h]

theorem clearBit_accepted (bit : Bool) :
    sampleCircuit.checkBitProof idealPrimitives (clear (bitScalar bit))
      (clearBit transcript bit) transcript = true := by
  apply clearProduct_accepted
  cases bit <;> simp [bitScalar]

theorem sampleGate_accepted (value : Scalar) :
    sampleCircuit.checkGate idealPrimitives (clear value) (sampleGate context value) context =
      true := by
  have hbit : sampleCircuit.checkBitProof idealPrimitives (sampleGate context value).commitment
      (sampleGate context value).bitProof (gateBitTranscript context) = true :=
    clearBit_accepted (gateBitTranscript context) true
  have hproduct : verifyProduct idealPrimitives sampleCircuit.key (gateProductTranscript context)
      (sampleGate context value).commitment (clear value)
      (sampleGate context value).productCommitment (sampleGate context value).product = true :=
    clearProduct_accepted _ (one_mul value)
  have hderived : sampleCircuit.derivedWitness (clear value) (sampleGate context value) =
      clear value := by
    change clear value + clear value - clear value + clear 1 - clear 1 = clear value
    abel
  rw [checkGate, if_neg (not_not.mpr hbit), if_neg (not_not.mpr hproduct), hderived]
  exact decide_eq_true rfl

theorem small_val (hn : n < 2 ^ 8) (hwidth : 8 ≤ width) : (n : Scalar).val < 2 ^ width := by
  have horder := pow_252_lt_order
  rw [ZMod.val_natCast, Nat.mod_eq_of_lt (by omega)]
  exact hn.trans_le (Nat.pow_le_pow_right (by norm_num) hwidth)

theorem clear_ranges_accepted (ctx : RangeCtx Point) (transcript : Transcript) (values : List ℕ)
    (h : ∀ value ∈ values, value < 2 ^ 8) :
    ctx.verify idealLibrary transcript () (values.map fun value : ℕ =>
      idealEncode (clear (value : Scalar))) = true := by
  have hwidth : 8 ≤ ctx.bits := by
    have hsupported := ctx.supported
    simp only [validBits, Bool.or_eq_true, decide_eq_true_eq] at hsupported
    omega
  simp only [RangeCtx.verify, idealLibrary, decide_eq_true_eq]
  intro commitment hmem
  obtain ⟨value, hvalue, rfl⟩ := List.mem_map.mp hmem
  refine ⟨clear (value : Scalar), rfl, ?_⟩
  have hfirst : (clear (value : Scalar)).1 = (value : Scalar) := idealBinding.value_commit _ _
  rw [hfirst]
  exact small_val (h value hvalue) hwidth

theorem sampleMaker_register :
    sampleCircuit.checkRegister idealPrimitives sampleStatement index (samplePolicy active)
      (sampleMaker context index active) = .ok () := by
  have hnow : scalarFromI64 4 = ((4 : ℕ) : Scalar) := scalarFromI64_small rfl
  rw [checkRegister, forM_ok]
  simp only [forall_mem_cons, refuseIf_ok, ne_eq, not_not, not_mem_nil, false_imp_iff,
    implies_true, and_true]
  refine ⟨rfl, rfl, rfl, ?_, ?_, rfl⟩
  · change idealPrimitives.compress (clear 3) = idealPrimitives.compress (clear 2 + clear 1)
    rw [clear_add]
    exact clear_congr (by norm_num)
  · change idealPrimitives.compress (clear 10) =
      idealPrimitives.compress (clear 5 + clear (scalarFromI64 4) + clear 1)
    rw [clear_add, clear_add, hnow]
    exact clear_congr (by norm_num)

theorem sampleMaker_margins :
    sampleCircuit.checkMargins idealPrimitives sampleStatement context index (samplePolicy active)
      (sampleMaker context index active) = .ok () := by
  have hnow : scalarFromI64 4 = ((4 : ℕ) : Scalar) := scalarFromI64_small rfl
  simp only [checkMargins, refuseIf_bind_ok, not_not]
  refine ⟨clearProduct_accepted _ (mul_one 2), clearProduct_accepted _ (mul_zero 0), ?_⟩
  rw [bind_ok]
  refine ⟨(), ?_, ?_⟩
  · have hranges := clear_ranges_accepted (sampleCircuit.ranges
      (roundedWidth (sampleCircuit.eligibilityBits + 2) sampleCircuit.eligibility_le) 2
      (roundedWidth_valid _)) (tag context index "eligibility") [2, 5] (by simp)
    exact refuseIf_bind_ok.mpr ⟨not_not.mpr rfl, refuseIf_bind_ok.mpr ⟨not_not.mpr rfl,
      refuseIf_ok.mpr (not_not.mpr hranges)⟩⟩
  · simp only [refuseIf_bind_ok, refuseIf_ok, not_not, ne_eq]
    refine ⟨clearBit_accepted _ active, clearBit_accepted _ false, ?_, ?_, sampleGate_accepted _ 2,
      sampleGate_accepted _ 5⟩
    · change idealPrimitives.compress (clear 3 - clear 1) = idealPrimitives.compress (clear 2)
      rw [clear_sub]
      exact clear_congr (by norm_num)
    · change idealPrimitives.compress (clear 10 - clear (scalarFromI64 4) - clear 1) =
        idealPrimitives.compress (clear 5)
      rw [clear_sub, clear_sub, hnow]
      exact clear_congr (by norm_num)

theorem sampleMaker_key :
    sampleCircuit.checkKey idealPrimitives sampleStatement context index (samplePolicy active)
      (sampleMaker context index active) (clear (sampleKey index active)) = .ok () := by
  have hsentinel : scalarFromI64 100 = ((100 : ℕ) : Scalar) := scalarFromI64_small rfl
  have hdouble : scalarFromI64 200 = ((200 : ℕ) : Scalar) := scalarFromI64_small rfl
  have hslots : scalarFromI64 2 = ((2 : ℕ) : Scalar) := scalarFromI64_small rfl
  have hactive : (1 : Scalar) • clear (bitScalar active) = clear (bitScalar active) := one_smul _ _
  simp only [checkKey, refuseIf_bind_ok, not_not, ne_eq]
  refine ⟨clearProduct_accepted _ (mul_one 1), ?_, ?_, ?_, clearProduct_accepted _ rfl, ?_⟩
  · change verifyProduct idealPrimitives idealKey (tag context index "ok2") (clear 1)
      ((1 : Scalar) • clear (bitScalar active)) (clear (bitScalar active))
      (clearProduct (tag context index "ok2") 1 (bitScalar active)) = true
    rw [hactive]
    exact clearProduct_accepted _ (one_mul _)
  · change idealPrimitives.compress
      (clear 5 + scalarFromI64 50 • clear 0 + clear 2 + clear 0) =
        idealPrimitives.compress (clear 7)
    rw [smul_clear, clear_add, clear_add, clear_add, mul_zero]
    exact clear_congr (by norm_num)
  · change idealPrimitives.compress (clear 7 - clear (scalarFromI64 100)) =
      idealPrimitives.compress (clear (7 - 100))
    rw [clear_sub, hsentinel]
    exact clear_congr (by norm_num)
  · refine bind_ok.mpr ⟨200, rfl, refuseIf_ok.mpr (not_not.mpr ?_)⟩
    change idealPrimitives.compress (scalarFromI64 2 •
      (clear (bitScalar active * (7 - 100)) + clear (scalarFromI64 200)) + clear (index : Scalar)) =
      idealPrimitives.compress (clear (sampleKey index active))
    rw [clear_add, smul_clear, clear_add, hslots, hdouble]
    refine clear_congr ?_
    simp only [sampleKey]
    push_cast
    ring

theorem sampleQuote_accepted :
    sampleCircuit.verify idealPrimitives (fun _ => zeroDigest) sampleQuote sampleStatement [] =
      .ok () := by
  refine bind_ok.mpr ⟨(), by decide, bind_ok.mpr ⟨(), forM_ok.mpr ?_,
    bind_ok.mpr ⟨(), forM_ok.mpr ?_, refuseIf_bind_ok.mpr ⟨not_not.mpr ?_, ?_⟩⟩⟩⟩
  · simp only [sampleStatement, sampleQuote, zip_cons_cons, zip_nil_left,
      zipIdx_cons, zipIdx_nil, forall_mem_cons, not_mem_nil, false_imp_iff,
      implies_true, and_true]
    exact ⟨sampleMaker_register _ 0 true, sampleMaker_register _ 1 false⟩
  · simp only [sampleStatement, sampleQuote, zip_cons_cons, zip_nil_left,
      zipIdx_cons, zipIdx_nil, forall_mem_cons, not_mem_nil, false_imp_iff,
      implies_true, and_true]
    exact ⟨bind_ok.mpr ⟨(), sampleMaker_margins _ 0 true, sampleMaker_key _ 0 true⟩,
      bind_ok.mpr ⟨(), sampleMaker_margins _ 1 false, sampleMaker_key _ 1 false⟩⟩
  · apply proveZeroOpening_accepted
    have hkey : sampleKey 0 true = ((214 : ℕ) : Scalar) := by
      simp only [sampleKey, bitScalar]
      norm_num
    change clear (sampleKey 0 true) - ((214 : ℕ) : Scalar) • idealKey.g = (0 : Scalar) • idealKey.h
    rw [hkey]
    simp only [clear, Pedersen.commit]
    module
  · have hwinner : clear (sampleKey 0 true) - clear (sampleKey 0 true) =
        clear ((0 : ℕ) : Scalar) := by
      rw [clear_sub, sub_self, Nat.cast_zero]
    have hother : clear (sampleKey 1 false) - clear (sampleKey 0 true) =
        clear ((187 : ℕ) : Scalar) := by
      rw [clear_sub]
      refine congrArg clear ?_
      simp only [sampleKey, bitScalar]
      norm_num
    have hpower : (2 : ℕ).nextPowerOfTwo = 2 := by decide +kernel
    have hranges := clear_ranges_accepted (sampleCircuit.ranges
      (roundedWidth sampleCircuit.spanBits sampleCircuit.span_le) 2 (roundedWidth_valid _))
      (whole sampleContext "minimality") [0, 187] (by simp)
    refine refuseIf_bind_ok.mpr ⟨not_not.mpr ?_, refuseIf_ok.mpr (not_not.mpr hranges)⟩
    simp only [sampleQuote, map_cons, map_nil, length_cons, length_nil,
      Nat.zero_add, Nat.reduceAdd, hpower, Nat.sub_self, replicate_zero, append_nil,
      getD_cons_zero, hwinner, hother]
    rfl

def sampleTerms : MakerTerms where
  makerAsset := 7
  askLevel := 5
  spread := 1
  slope := 2
  invcoef := 0
  inv := 0
  maxqty := 3
  expiry := 10
  active := if index = 0 then 1 else 0
  useRef := 0

theorem value_clear {n : Int64} (h : value = (n.toInt : Scalar)) :
    idealBinding.value (clear value) = (n.toInt : Scalar) := by
  rw [clear, idealBinding.value_commit, h]

theorem ideal_subProofsSound : SubProofsSound idealPrimitives idealLibrary idealBinding where
  encoding := fun _ _ h => idealEncode_inj h
  product := ideal_productSound
  bit := ideal_bitSound
  zeroOpening := ideal_zeroOpeningSound
  range := ideal_rangeSound

theorem sampleTerms_opens (policy : RegisteredPolicy Point)
    (h : sampleStatement.registry[index]? = some policy) :
    Opens idealBinding policy (sampleTerms index) := by
  match index, h with
  | 0, h | 1, h =>
    cases h
    exact ⟨rfl, value_clear rfl, value_clear rfl, value_clear rfl, value_clear rfl,
      value_clear rfl, value_clear rfl, value_clear rfl, value_clear rfl, value_clear rfl⟩

/-- The accepted two-maker proof meets every hypothesis. The active maker wins at
its cost of seven, and the inactive one is parked at the sentinel. -/
theorem quote_exact_two_makers :
    (sampleTerms 0).effectiveCost sampleStatement 1 = 7 ∧
    (sampleTerms 1).effectiveCost sampleStatement 1 = 100 ∧
    (sampleQuote.winnerValue.toNat : ℤ) =
      ((sampleTerms 0).effectiveCost sampleStatement 1 + 100) * 2 + 0 := by
  have h := quote_exact sampleCircuit idealKey idealBinding ideal_subProofsSound 32 32 rfl
    sampleQuote sampleStatement [] sampleQuote_accepted 1
    (value_clear rfl) sampleTerms sampleTerms_opens
  exact ⟨by decide, by decide, h.2.2.2.1⟩

end Sample

end Zkpi.QuoteSoundness
