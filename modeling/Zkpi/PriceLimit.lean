import Zkpi.AggregatedRanges
import Zkpi.ThresholdRange

/-!
# Hidden limit prices

A taker commits to a maximum buy price or a minimum sell price. The proof that
a selected quote respects it is a range proof of the committed difference, taken
in the direction of the trade. Since both prices are machine integers, a
negative difference is nowhere near the accepted range modulo the group order,
whichever form the evidence has.

The fields of a proof are private to its module: only `prove` and
`fromThreshold` build one, and both keep the width of threshold evidence equal
to the declared width. The verifier relies on that and does not check it again,
so the invariant is part of the type here.
-/

namespace Zkpi.PriceLimit

open ScalarField ByteText CheckedIntegers PedersenSigma AggregatedRanges ThresholdRange

inductive PriceLimitDirection where
  /-- The taker buys and will not pay above the limit. -/
  | maximumBuyPrice
  /-- The taker sells and will not receive below the limit. -/
  | minimumSellPrice
deriving DecidableEq

def PriceLimitDirection.toNat : PriceLimitDirection → ℕ
  | .maximumBuyPrice => 1
  | .minimumSellPrice => 2

inductive PriceLimitEvidence (P : Type) (library : Bulletproofs P) where
  | bulletproof (proof : library.RangeProof)
  | threshold (proof : ThresholdRangeProof P)

structure PriceLimitProof (P : Type) (library : Bulletproofs P) where
  direction : PriceLimitDirection
  bits : ℕ
  evidence : PriceLimitEvidence P library
  width : ∀ proof, evidence = .threshold proof → proof.bits = bits

section Limits

variable {P : Type} [AddCommGroup P] [Module Scalar P] [DecidableEq P]
variable (primitives : Primitives P) (library : Bulletproofs P) (sha256 : Bytes → Digest32)
variable (key : Pedersen P)

section

variable (direction : PriceLimitDirection)

def transcript (bits : ℕ) (quote limit : P) (context : Bytes) :
    Transcript :=
  (((((Transcript.new (utf8 "QOMM:TAKER:PRICE-LIMIT:v1")).appendMessage "direction"
    (leBytes 8 direction.toNat)).appendMessage "bits" (leBytes 8 bits)).appendMessage "quote"
    (primitives.compress quote)).appendMessage "limit" (primitives.compress limit)).appendMessage
    "context" context

def differenceCommitment (quote limit : P) : P :=
  match direction with
  | .maximumBuyPrice => limit - quote
  | .minimumSellPrice => quote - limit

def thresholdContext (bits : ℕ) (quote limit : P)
    (context : Bytes) : Bytes :=
  (sha256 (utf8 "QOMM:TAKER:THRESHOLD-PRICE-LIMIT:v1" ++ [UInt8.ofNat direction.toNat] ++
    beBytes 8 bits ++ primitives.compress quote ++ primitives.compress limit ++
    beBytes 8 context.length ++ context)).toList

def priceDifference (quoteValue limitValue : UInt64) :
    Except String UInt64 :=
  match direction with
  | .maximumBuyPrice =>
    match checkedSub limitValue quoteValue with
    | some difference => .ok difference
    | none => .error "quote exceeds the signed maximum buy price"
  | .minimumSellPrice =>
    match checkedSub quoteValue limitValue with
    | some difference => .ok difference
    | none => .error "quote is below the signed minimum sell price"

def differenceBlinding (quoteBlinding limitBlinding : Scalar) :
    Scalar :=
  match direction with
  | .maximumBuyPrice => limitBlinding - quoteBlinding
  | .minimumSellPrice => quoteBlinding - limitBlinding

end

def prove (quoteValue : UInt64) (quoteBlinding : Scalar) (limitValue : UInt64)
    (limitBlinding : Scalar) (direction : PriceLimitDirection) (bits : ℕ) (context : Bytes)
    (entropy : ℕ → Scalar) : Except String (PriceLimitProof P library) :=
  if ¬ validBits bits then .error "price limit width must be 8, 16, 32, or 64 bits"
  else do
    let difference ← priceDifference direction quoteValue limitValue
    if bits < 64 ∧ difference.toNat ≥ 2 ^ bits then
      .error "price difference does not fit the configured proof width"
    else
      let quote := key.commitU64 quoteValue quoteBlinding
      let limit := key.commitU64 limitValue limitBlinding
      match library.proveMultiple ⟨bits, 1⟩ key
          (transcript primitives direction bits quote limit context) [difference]
          [differenceBlinding direction quoteBlinding limitBlinding] bits entropy with
      | none => .error "price limit range proof generation failed"
      | some (rangeProof, commitments) =>
        if commitments ≠ [primitives.compress (differenceCommitment direction quote limit)] then
          .error "price limit proof commitment differs from the signed prices"
        else .ok ⟨direction, bits, .bulletproof rangeProof, fun _ h => by cases h⟩

/-- Accept a proof assembled by a quorum. -/
def fromThreshold (quote limit : P) (direction : PriceLimitDirection) (bits : ℕ) (context : Bytes)
    (proof : ThresholdRangeProof P) : Except String (PriceLimitProof P library) :=
  if h : ¬ validBits bits ∨ proof.bits ≠ bits then
    .error "threshold price limit proof uses an unsupported width"
  else if ¬ verifyThresholdRange primitives key (differenceCommitment direction quote limit) proof
      (thresholdContext primitives sha256 direction bits quote limit context) then
    .error "joint proof does not establish the signed hidden price limit"
  else .ok ⟨direction, bits, .threshold proof, fun other hother => by
    cases hother
    exact not_not.mp fun hne => h (Or.inr hne)⟩

def verify (quote limit : P) (expectedDirection : PriceLimitDirection) (expectedBits : ℕ)
    (context : Bytes) (proof : PriceLimitProof P library) : Except String Unit :=
  if proof.direction ≠ expectedDirection ∨ proof.bits ≠ expectedBits ∨
      ¬ validBits proof.bits then
    .error "price limit proof uses another direction or width"
  else
    match proof.evidence with
    | .bulletproof rangeProof =>
      if library.verifyMultiple rangeProof ⟨proof.bits, 1⟩ key
          (transcript primitives proof.direction proof.bits quote limit context)
          [primitives.compress (differenceCommitment proof.direction quote limit)] proof.bits then
        .ok ()
      else .error "quote violates the signed hidden price limit"
    | .threshold rangeProof =>
      if verifyThresholdRange primitives key
          (differenceCommitment proof.direction quote limit) rangeProof
          (thresholdContext primitives sha256 proof.direction proof.bits quote limit context) then
        .ok ()
      else .error "joint proof violates the signed hidden price limit"

theorem verify_ok {quote limit : P} {direction : PriceLimitDirection} {bits : ℕ} {context : Bytes}
    {proof : PriceLimitProof P library}
    (h : verify primitives library sha256 key quote limit direction bits context proof = .ok ()) :
    proof.direction = direction ∧ proof.bits = bits ∧ validBits bits = true ∧
    ((∃ rangeProof, proof.evidence = .bulletproof rangeProof ∧
      library.verifyMultiple rangeProof ⟨bits, 1⟩ key
        (transcript primitives direction bits quote limit context)
        ([differenceCommitment direction quote limit].map primitives.compress) bits = true) ∨
    ∃ rangeProof, proof.evidence = .threshold rangeProof ∧ rangeProof.bits = bits ∧
      verifyThresholdRange primitives key (differenceCommitment direction quote limit) rangeProof
        (thresholdContext primitives sha256 direction bits quote limit context) = true) := by
  unfold verify at h
  split at h
  · cases h
  · rename_i hmeta
    simp only [not_or, ne_eq, not_not] at hmeta
    obtain ⟨rfl, rfl, hbits⟩ := hmeta
    refine ⟨rfl, rfl, hbits, ?_⟩
    split at h
    · rename_i rangeProof hevidence
      split at h
      · rename_i hverify
        exact Or.inl ⟨rangeProof, hevidence, hverify⟩
      · cases h
    · rename_i rangeProof hevidence
      split at h
      · rename_i hverify
        exact Or.inr ⟨rangeProof, hevidence, proof.width rangeProof hevidence, hverify⟩
      · cases h

end Limits

/-! ## What acceptance means -/

def PriceLimitDirection.Allows (direction : PriceLimitDirection) (quote limit : UInt64) : Prop :=
  match direction with
  | .maximumBuyPrice => quote ≤ limit
  | .minimumSellPrice => limit ≤ quote

def PriceLimitDirection.gap (direction : PriceLimitDirection) (quote limit : UInt64) : ℕ :=
  match direction with
  | .maximumBuyPrice => limit.toNat - quote.toNat
  | .minimumSellPrice => quote.toNat - limit.toNat

/-- Numbers of 64 bits whose difference is a number of 64 bits in the field are
in order. -/
theorem le_of_small_difference {n : ℕ} {low high : UInt64} (hn : n < 2 ^ 64)
    (h : (high.toNat : Scalar) - (low.toNat : Scalar) = (n : Scalar)) : low ≤ high := by
  have hcast : ((n + low.toNat : ℕ) : Scalar) = ((high.toNat : ℕ) : Scalar) := by
    rw [Nat.cast_add, ← h, sub_add_cancel]
  have hlow := low.toNat_lt
  have hhigh := high.toNat_lt
  have horder := pow_252_lt_order
  rw [ZMod.natCast_eq_natCast_iff', Nat.mod_eq_of_lt (by omega), Nat.mod_eq_of_lt (by omega)]
    at hcast
  rw [UInt64.le_iff_toNat_le]
  omega

section Meaning

variable {P : Type} [AddCommGroup P] [Module Scalar P] [DecidableEq P]
variable {primitives : Primitives P} {library : Bulletproofs P} {sha256 : Bytes → Digest32}
variable {key : Pedersen P}

variable {binding : Binding key} {quote limit : P} {direction : PriceLimitDirection} {bits : ℕ}
  {context : Bytes} {proof : PriceLimitProof P library}

theorem verify_ok_value (hrange : RangeSound primitives library binding)
    (hproduct : ProductSound primitives binding) (hzero : ZeroOpeningSound primitives binding)
    (h : verify primitives library sha256 key quote limit direction bits context proof = .ok ()) :
    ∃ n : ℕ, n < 2 ^ 64 ∧
      binding.value (differenceCommitment direction quote limit) = (n : Scalar) := by
  obtain ⟨_, _, hbits, hevidence⟩ := verify_ok primitives library sha256 key h
  have hwidth : 2 ^ bits ≤ 2 ^ 64 := Nat.pow_le_pow_right (by norm_num) (validBits_le hbits)
  rcases hevidence with ⟨rangeProof, _, hverify⟩ | ⟨rangeProof, _, hsame, hverify⟩
  · obtain ⟨n, hn, hvalue⟩ := hrange rangeProof _ _ _ _ hverify _ (List.mem_singleton_self _)
    exact ⟨n, hn.trans_le hwidth, hvalue⟩
  · obtain ⟨n, hn, hvalue⟩ := verifyThresholdRange_value hproduct hzero hverify
    rw [hsame] at hn
    exact ⟨n, hn.trans_le hwidth, hvalue⟩

variable {quoteValue limitValue : UInt64}

theorem verify_ok_allows (hrange : RangeSound primitives library binding)
    (hproduct : ProductSound primitives binding) (hzero : ZeroOpeningSound primitives binding)
    (h : verify primitives library sha256 key quote limit direction bits context proof = .ok ())
    (hquote : binding.value quote = (quoteValue.toNat : Scalar))
    (hlimit : binding.value limit = (limitValue.toNat : Scalar)) :
    direction.Allows quoteValue limitValue := by
  obtain ⟨n, hn, hvalue⟩ := verify_ok_value hrange hproduct hzero h
  cases direction with
  | maximumBuyPrice | minimumSellPrice =>
    rw [differenceCommitment, map_sub, hquote, hlimit] at hvalue
    exact le_of_small_difference hn hvalue

theorem priceDifference_allowed (h : direction.Allows quoteValue limitValue) :
    ∃ difference, priceDifference direction quoteValue limitValue = .ok difference ∧
      difference.toNat = direction.gap quoteValue limitValue := by
  cases direction with
  | maximumBuyPrice =>
    refine ⟨limitValue - quoteValue, ?_, UInt64.toNat_sub_of_le _ _ h⟩
    rw [priceDifference, checkedSub_of_le h]
  | minimumSellPrice =>
    refine ⟨quoteValue - limitValue, ?_, UInt64.toNat_sub_of_le _ _ h⟩
    rw [priceDifference, checkedSub_of_le h]

variable (key) in
omit [DecidableEq P] in
theorem differenceCommitment_commit {difference : UInt64}
    (h : direction.Allows quoteValue limitValue)
    (hgap : difference.toNat = direction.gap quoteValue limitValue)
    (quoteBlinding limitBlinding : Scalar) :
    differenceCommitment direction (key.commitU64 quoteValue quoteBlinding)
        (key.commitU64 limitValue limitBlinding) =
      key.commitU64 difference (differenceBlinding direction quoteBlinding limitBlinding) := by
  cases direction with
  | maximumBuyPrice | minimumSellPrice =>
    rw [Pedersen.commitU64, Pedersen.commitU64, Pedersen.commitU64, hgap, PriceLimitDirection.gap,
      Nat.cast_sub (UInt64.le_iff_toNat_le.mp h)]
    simp only [differenceCommitment, differenceBlinding, Pedersen.commit]
    module

/-- Allowed prices whose gap fits a supported width are proved, and the proof is
accepted for the commitments of those prices. -/
theorem prove_accepted (hcomplete : RangeComplete primitives library key)
    (hallows : direction.Allows quoteValue limitValue) (hbits : validBits bits = true)
    (hfits : direction.gap quoteValue limitValue < 2 ^ bits) (quoteBlinding limitBlinding : Scalar)
    (context : Bytes) (entropy : ℕ → Scalar) :
    ∃ proof, prove primitives library key quoteValue quoteBlinding limitValue limitBlinding
        direction bits context entropy = .ok proof ∧
      verify primitives library sha256 key (key.commitU64 quoteValue quoteBlinding)
        (key.commitU64 limitValue limitBlinding) direction bits context proof = .ok () := by
  obtain ⟨difference, hdifference, hgap⟩ := priceDifference_allowed hallows
  have hcommit := differenceCommitment_commit key hallows hgap quoteBlinding limitBlinding
  obtain ⟨rangeProof, hprove, hverify⟩ := hcomplete ⟨bits, 1⟩
    (transcript primitives direction bits (key.commitU64 quoteValue quoteBlinding)
      (key.commitU64 limitValue limitBlinding) context)
    [(difference, differenceBlinding direction quoteBlinding limitBlinding)] bits entropy hbits
    le_rfl le_rfl ⟨0, rfl⟩ (by simpa [hgap] using hfits)
  simp only [List.map_cons, List.map_nil] at hprove hverify
  have hnarrow : ¬ (bits < 64 ∧ difference.toNat ≥ 2 ^ bits) := by omega
  refine ⟨⟨direction, bits, .bulletproof rangeProof, fun _ h => by cases h⟩, ?_, ?_⟩
  · simp only [prove, hbits, not_true_eq_false, if_false, hdifference, bind, Except.bind,
      if_neg hnarrow, hprove, hcommit, ne_eq]
  · simp [verify, hbits, hcommit, hverify]

theorem fromThreshold_accepted
    (h : fromThreshold primitives library sha256 key quote limit direction bits context rangeProof =
      .ok proof) :
    verify primitives library sha256 key quote limit direction bits context proof = .ok () := by
  unfold fromThreshold at h
  split at h
  · cases h
  · rename_i hmeta
    split at h
    · cases h
    · rename_i hverify
      rw [not_or, not_not] at hmeta
      rw [not_not] at hverify
      cases h
      simp [verify, hmeta.1, hverify]

variable (primitives library sha256 key) in
/-- A price limit cannot be violated by an accepted proof, and honest proofs of
a supported width are accepted.

Soundness of the range evidence is assumed on binding openings, where a violation is
excluded, and completeness of the range library where a proof is produced. The prover refuses
every width that is not 8, 16, 32 or 64, whatever the difference and the library. -/
theorem price_limit_exact (direction : PriceLimitDirection) (bits : ℕ) (context : Bytes) :
    (∀ binding : Binding key, RangeSound primitives library binding →
      ProductSound primitives binding → ZeroOpeningSound primitives binding →
      ∀ (quote limit : P) (proof : PriceLimitProof P library) (quoteValue limitValue : UInt64),
      verify primitives library sha256 key quote limit direction bits context proof = .ok () →
      binding.value quote = (quoteValue.toNat : Scalar) →
      binding.value limit = (limitValue.toNat : Scalar) →
      direction.Allows quoteValue limitValue) ∧
    (∀ (quoteValue limitValue : UInt64) (quoteBlinding limitBlinding : Scalar)
      (entropy : ℕ → Scalar), direction.Allows quoteValue limitValue →
      direction.gap quoteValue limitValue < 2 ^ bits →
      if validBits bits then RangeComplete primitives library key →
        ∃ proof, prove primitives library key quoteValue quoteBlinding limitValue limitBlinding
            direction bits context entropy = .ok proof ∧
          verify primitives library sha256 key (key.commitU64 quoteValue quoteBlinding)
            (key.commitU64 limitValue limitBlinding) direction bits context proof = .ok ()
      else prove primitives library key quoteValue quoteBlinding limitValue limitBlinding
        direction bits context entropy =
          .error "price limit width must be 8, 16, 32, or 64 bits") ∧
    ∀ (quote limit : P) (rangeProof : ThresholdRangeProof P) (proof : PriceLimitProof P library),
      fromThreshold primitives library sha256 key quote limit direction bits context rangeProof =
        .ok proof →
      verify primitives library sha256 key quote limit direction bits context proof = .ok () := by
  refine ⟨?_, ?_, fun _ _ _ _ h => fromThreshold_accepted h⟩
  · intro binding hsound hproduct hzero quote limit proof quoteValue limitValue h hquote hlimit
    exact verify_ok_allows hsound hproduct hzero h hquote hlimit
  · intro quoteValue limitValue quoteBlinding limitBlinding entropy hallows hfits
    split_ifs with hbits
    · intro hcomplete
      exact prove_accepted hcomplete hallows hbits hfits quoteBlinding limitBlinding context entropy
    · simp [prove, hbits]

end Meaning

/-! ## The ideal model -/

section Sample

open IdealChallenges

/-- A quote of nothing under a limit of one differs by one, which fits ten bits,
yet no proof of that width is produced. -/
theorem prove_ten_bits :
    PriceLimitDirection.maximumBuyPrice.Allows 0 1 ∧
    PriceLimitDirection.maximumBuyPrice.gap 0 1 < 2 ^ 10 ∧
    prove idealPrimitives idealLibrary idealKey 0 0 1 0 .maximumBuyPrice 10 [] 0 =
      .error "price limit width must be 8, 16, 32, or 64 bits" := by
  refine ⟨?_, ?_, rfl⟩
  · change (0 : UInt64) ≤ 1
    decide
  · decide

/-- The library and the sigma protocols of the ideal model meet the hypotheses. A
quote of three under a limit of five is proved and accepted at eight bits, and no opening of the
two commitments violates the limit. -/
theorem price_limit_exact_ideal :
    ∃ proof, prove idealPrimitives idealLibrary idealKey 3 1 5 2 .maximumBuyPrice 8 [] 0 =
        .ok proof ∧
      verify idealPrimitives idealLibrary (fun _ => zeroDigest) idealKey (idealKey.commitU64 3 1)
        (idealKey.commitU64 5 2) .maximumBuyPrice 8 [] proof = .ok () ∧
      ∀ quote limit : UInt64, idealBinding.value (idealKey.commitU64 3 1) = quote.toNat →
        idealBinding.value (idealKey.commitU64 5 2) = limit.toNat → quote ≤ limit := by
  obtain ⟨hsound, hcomplete, -⟩ := price_limit_exact idealPrimitives idealLibrary
    (fun _ => zeroDigest) idealKey .maximumBuyPrice 8 []
  have h := hcomplete 3 5 1 2 0 (by change (3 : UInt64) ≤ 5; decide) (by decide)
  rw [if_pos (by decide)] at h
  obtain ⟨proof, hprove, hverify⟩ := h ideal_rangeComplete
  exact ⟨proof, hprove, hverify, fun quote limit => hsound idealBinding ideal_rangeSound
    ideal_productSound ideal_zeroOpeningSound _ _ proof quote limit hverify⟩

end Sample

end Zkpi.PriceLimit
