import Zkpi.RuleWidths
import Zkpi.TournamentCircuit

/-!
# The sentinel of excluded makers

The generator gives an excluded maker a fixed cost, the sentinel, which is meant to lie above every
cost that the price policy allows. It is as large as the packing of keys permits, and the generator
only compares it with eight times the largest reference price, while the policy declares bounds of
its own for levels, spreads, slopes and inventories.
-/

namespace Zkpi.PackingSentinel

open FallibleChecks MachineArithmetic RuleAnalysis RuleSyntax TournamentCircuit

/-! ## Configurations -/

inductive Mode where
  | rfq
  | rfm
  | rfs
  deriving DecidableEq

def Mode.asStr : Mode → String
  | .rfq => "rfq"
  | .rfm => "rfm"
  | .rfs => "rfs"

inductive StopAfter where
  | price
  | direction
  | gates
  | tournament
  deriving DecidableEq

/-- Whether quotes are anchored at a public reference price. -/
inductive Reference where
  | anchored
  | none
  deriving DecidableEq

/-- The options that decide whether a program is generated, how its costs are packed and what it
opens. -/
structure ProgramConfig where
  nMm : ℕ
  mode : Mode
  nowT : I128
  refMid : I128
  nRequests : ℕ
  nAssets : ℕ
  refTable : List I128
  makerAssets : List ℕ
  publicMakerAssets : Bool
  auditGates : Bool
  bitLength : ℕ
  argminArity : ℕ
  priceConditionals : ℕ
  bindingLimit : Bool
  stopAfter : StopAfter
  persistWires : Bool
  persistZkpiWires : Bool
  persistQuoteProofWires : Bool
  zkpiAmountBits : ℕ
  zkpiPriceBits : ℕ
  quoteEligibilityBits : ℕ
  quoteSpanBits : ℕ
  persistDvpWires : Bool
  dvpRemainderBits : ℕ
  reference : Reference

open ProgramConfig

/-! ## The sentinel -/

def bitLengthI128 (value : ℤ) : ℕ := if value ≤ 0 then 0 else value.toNat.log2 + 1

def sentinelFor (machine : Machine) (bitLength paddedMm : ℕ) (maxCost : I128) :
    Except Stop ℤ := do
  refuseIf (¬ (2 ≤ bitLength ∧ bitLength ≤ 127) ∨ paddedMm = 0)
    (.refused s!"bit_length={bitLength} cannot pack {paddedMm} makers")
  let headroom : ℤ := 2 ^ (bitLength - 2)
  let sentinel := headroom / paddedMm
  if sentinel ≤ maxCost.val then
    let packed : I128 ← machine.number (maxCost.val * paddedMm)
    let scaled : I128 ← machine.number (packed.val * 4)
    let need := bitLengthI128 scaled.val + 1
    let cost := maxCost.val
    .error (.refused (s!"bit_length={bitLength} is too narrow: packing {paddedMm} makers with " ++
      s!"costs up to {cost} needs at least {need} bits"))
  else pure sentinel

namespace ProgramConfig

def maximumReference (config : ProgramConfig) : I128 :=
  match config.refTable with
  | [] => config.refMid
  | first :: rest => rest.foldl Word.largest first

def packingBits (config : ProgramConfig) : Except Stop ℕ :=
  if config.persistQuoteProofWires then do
    refuseIf (2 ^ 32 ≤ config.quoteSpanBits) (.refused "quote span width exceeds u32")
    pure (min config.bitLength config.quoteSpanBits)
  else pure config.bitLength

def packingSentinel (machine : Machine) (config : ProgramConfig) : Except Stop ℤ := do
  let packingBits ← config.packingBits
  let maxCost : I128 ← machine.number (8 * config.maximumReference.val)
  sentinelFor machine packingBits config.nMm maxCost

end ProgramConfig

/-! ## The price policy -/

def skewSource : ℕ → String
  | 0 => "invcoef * inv"
  | index + 1 =>
    let bound := 200 * (index + 1)
    if index % 2 = 0 then "max(" ++ skewSource index ++ s!", -{bound})"
    else "min(" ++ skewSource index ++ s!", {bound})"

def policyRuleSource (config : ProgramConfig) : String :=
  let skew := skewSource config.priceConditionals
  let (declarations, anchored) := match config.reference with
    | .anchored =>
      ("param ask_level[-200000,200000] spread[0,200000] slope[0,16] " ++
        "invcoef[-8,8] use_ref[0,1]\n" ++ "state inv[-4000,4000]\n" ++
        "input qty[1,1000] ref_price[0,1000000]\n", "ask_level + use_ref * ref_price")
    | .none =>
      ("param ask_level[-200000,200000] spread[0,200000] slope[0,16] " ++
        "invcoef[-8,8]\n" ++ "state inv[-4000,4000]\n" ++ "input qty[1,1000]\n", "ask_level")
  declarations ++ "anchored = " ++ anchored ++ "\n" ++ "depth = slope * qty\n" ++
    "skew = " ++ skew ++ "\n" ++
    "ask = (" ++ anchored ++ ") + slope * qty + (" ++ skew ++ ")\n" ++
    "bid = (" ++ anchored ++ ") - spread - slope * qty + (" ++ skew ++ ")\n"

def isBulletproofWidth (bits : ℕ) : Bool := bits ∈ [8, 16, 32, 64]

/-- The checks on the way to a program, which writes the sentinel into its text. -/
def buildProgram (unicode : Unicode) (machine : Machine) (c : ProgramConfig) :
    Except Stop ℤ := do
  refuseIf (c.persistZkpiWires ∧ ¬ c.persistWires)
    (.refused "zkPI persistence requires the circuit wire persistence block")
  refuseIf (c.persistQuoteProofWires ∧ (¬ c.persistZkpiWires ∨ ¬ c.publicMakerAssets ∨
      c.nRequests ≠ 1 ∨ c.quoteEligibilityBits = 0 ∨ c.quoteEligibilityBits > 64 ∨
      c.quoteSpanBits = 0 ∨ c.quoteSpanBits > 64))
    (.refused ("full quote-proof persistence requires one request, zkPI persistence, public " ++
      "maker assets, and 1..=64 eligibility/minimality widths"))
  refuseIf (c.persistZkpiWires ∧
      (¬ isBulletproofWidth c.zkpiAmountBits ∨ ¬ isBulletproofWidth c.zkpiPriceBits))
    (.refused "zkPI amount and price widths must be one of 8, 16, 32 or 64 bits")
  refuseIf (c.persistDvpWires ∧
      (¬ c.persistZkpiWires ∨ c.dvpRemainderBits = 0 ∨ c.dvpRemainderBits > 64))
    (.refused "DvP persistence requires zkPI persistence and a 1..=64 remainder width")
  let mode := c.mode.asStr
  refuseIf (c.stopAfter ≠ .tournament ∧ c.mode ≠ .rfq) (.refused
    s!"--stop-after names layers of the RFQ circuit; mode {mode} is built differently")
  -- the default assets are remainders by the number of assets
  refuseIf (c.makerAssets = [] ∧ c.nMm ≠ 0 ∧ c.nAssets = 0) .panicked
  let large ← c.packingSentinel machine
  let _ ← compileRule unicode machine (policyRuleSource c) "qomm_quote_policy"
  pure large

/-! ## Costs -/

/-- The numbers of a maker's price policy. -/
structure MakerPolicy (F : Type) where
  askLevel : F
  spread : F
  slope : F
  invcoef : F
  useRef : F

structure Admitted (policy : MakerPolicy ℤ) (inv qty : ℤ) : Prop where
  askLevel : -200000 ≤ policy.askLevel ∧ policy.askLevel ≤ 200000
  spread : 0 ≤ policy.spread ∧ policy.spread ≤ 200000
  slope : 0 ≤ policy.slope ∧ policy.slope ≤ 16
  invcoef : -8 ≤ policy.invcoef ∧ policy.invcoef ≤ 8
  useRef : 0 ≤ policy.useRef ∧ policy.useRef ≤ 1
  inv : -4000 ≤ inv ∧ inv ≤ 4000
  qty : 1 ≤ qty ∧ qty ≤ 1000

section Prices

variable {F : Type} [CommRing F] (signed : F → ℤ)

/-- What a bit chooses. -/
def ifElse (bit yes no : F) : F := bit * (yes - no) + no

/-- The clamps of the skew, each a comparison and a choice. -/
def skewOf : ℕ → F → F
  | 0, product => product
  | index + 1, product =>
    let skew := skewOf index product
    let bound : F := (200 * (index + 1) : ℕ)
    if index % 2 = 0 then ifElse (bit (signed skew < signed (-bound))) (-bound) skew
    else ifElse (bit (signed skew < signed bound)) skew bound

namespace ProgramConfig

variable (config : ProgramConfig) (policy : MakerPolicy F) (inv qty refPrice : F)

def anchored : F :=
  match config.reference with
  | .anchored => policy.askLevel + policy.useRef * refPrice
  | .none => policy.askLevel

def skew : F := skewOf signed config.priceConditionals (policy.invcoef * inv)

def ask : F :=
  config.anchored policy refPrice + policy.slope * qty + config.skew signed policy inv

def bid : F :=
  config.anchored policy refPrice - policy.spread - policy.slope * qty +
    config.skew signed policy inv

end ProgramConfig

end Prices

namespace ProgramConfig

variable (config : ProgramConfig)

/-- What the user pays: the ask, or less the bid. -/
def cost (policy : MakerPolicy ℤ) (inv qty refPrice : ℤ) (sells : Bool) : ℤ :=
  if sells then -config.bid id policy inv qty refPrice else config.ask id policy inv qty refPrice

/-- The entries of the reference table inside their declared bounds; a policy that is not anchored
has no use for one. -/
def references : List ℤ :=
  match config.reference with
  | .anchored =>
    let refTable := if config.refTable = [] then [config.refMid] else config.refTable
    (refTable.map Subtype.val).filter fun refPrice => 0 ≤ refPrice ∧ refPrice ≤ 1000000
  | .none => [0]

def keys (large : ℤ) (policy : ℕ → MakerPolicy ℤ) (inv : ℕ → ℤ) (qty refPrice : ℤ) (sells : Bool)
    (ok : ℕ → Bool) : ℕ → ℤ :=
  packKey config.nMm fun i =>
    if ok i then config.cost (policy i) (inv i) qty refPrice sells else large

end ProgramConfig

/-- What the sentinel is for: every admitted cost is below it, so no excluded maker wins against
another, and differences of keys fit the widths they are compared and proved in. -/
structure Dominates (config : ProgramConfig) (large : ℤ) : Prop where
  costs : ∀ policy inv qty, Admitted policy inv qty → ∀ refPrice ∈ config.references, ∀ sells,
    |config.cost policy inv qty refPrice sells| < large
  keys : ∀ policy inv qty, (∀ i < config.nMm, Admitted (policy i) (inv i) qty) →
    ∀ refPrice ∈ config.references, ∀ sells ok, ∀ i < config.nMm, ∀ j < config.nMm,
      let key := config.keys large policy inv qty refPrice sells ok
      (ok i = true → ok j = false → key i < key j) ∧
      |key i - key j| < 2 ^ (config.bitLength - 1) ∧
      (config.persistQuoteProofWires = true → key i - key j < 2 ^ config.quoteSpanBits)

/-! ## The worst costs -/

theorem ifElse_lt_max (a b : ℤ) : ifElse (bit (a < b)) b a = max a b := by
  unfold ifElse bit
  split <;> omega

theorem ifElse_lt_min (a b : ℤ) : ifElse (bit (a < b)) a b = min a b := by
  unfold ifElse bit
  split <;> omega

theorem skewOf_mono (conditionals : ℕ) (h : a ≤ b) :
    skewOf id conditionals a ≤ skewOf id conditionals b := by
  induction conditionals with
  | zero => exact h
  | succ index ih =>
    simp only [skewOf, id, ifElse_lt_max, ifElse_lt_min] at ih ⊢
    split
    · exact max_le_max ih le_rfl
    · exact min_le_min ih le_rfl

variable {config : ProgramConfig} {inv qty refPrice : ℤ}

theorem Admitted.depth (h : Admitted policy inv qty) :
    0 ≤ policy.slope * qty ∧ policy.slope * qty ≤ 16000 := by
  obtain ⟨hlow, hhigh⟩ := h.slope
  obtain ⟨hone, hthousand⟩ := h.qty
  refine ⟨mul_nonneg hlow (by omega), ?_⟩
  have := mul_le_mul hhigh hthousand (by omega) (by omega)
  omega

theorem Admitted.skew (config : ProgramConfig) (h : Admitted policy inv qty) :
    skewOf id config.priceConditionals (-32000) ≤ config.skew id policy inv ∧
      config.skew id policy inv ≤ skewOf id config.priceConditionals 32000 := by
  have hproduct : |policy.invcoef * inv| ≤ 8 * 4000 := by
    rw [abs_mul]
    exact mul_le_mul (abs_le.mpr h.invcoef) (abs_le.mpr h.inv) (abs_nonneg _) (by omega)
  obtain ⟨hlow, hhigh⟩ := abs_le.mp hproduct
  exact ⟨skewOf_mono _ (by omega), skewOf_mono _ (by omega)⟩

theorem references_nonneg (h : refPrice ∈ config.references) : 0 ≤ refPrice := by
  unfold references at h
  split at h
  · have hfilter := (List.mem_filter.mp h).2
    exact (of_decide_eq_true hfilter).1
  · rw [List.mem_singleton.mp h]

theorem anchored_bounds (config : ProgramConfig) (h : Admitted policy inv qty)
    (href : 0 ≤ refPrice) :
    -200000 ≤ config.anchored policy refPrice ∧
      config.anchored policy refPrice ≤ 200000 + refPrice := by
  obtain ⟨hlow, hhigh⟩ := h.askLevel
  unfold anchored
  split
  · have hused := mul_nonneg h.useRef.1 href
    have hmost := mul_le_mul_of_nonneg_right h.useRef.2 href
    omega
  · omega

/-- No admitted cost exceeds the one of the widest level, slope and inventory. -/
theorem cost_bounds (h : Admitted policy inv qty) (href : 0 ≤ refPrice) (sells : Bool) :
    |config.cost policy inv qty refPrice sells| ≤
      max (216000 + refPrice + skewOf id config.priceConditionals 32000)
        (416000 - skewOf id config.priceConditionals (-32000)) := by
  have hanchored := anchored_bounds config h href
  have hskew := h.skew config
  have hdepth := h.depth
  have hspread := h.spread
  have hmost := le_max_left (216000 + refPrice + skewOf id config.priceConditionals 32000)
    (416000 - skewOf id config.priceConditionals (-32000))
  have hleast := le_max_right (216000 + refPrice + skewOf id config.priceConditionals 32000)
    (416000 - skewOf id config.priceConditionals (-32000))
  refine abs_le.mpr ?_
  unfold cost bid ask
  split <;> omega

/-- The costs that the configuration would have to pack: the ask of the highest level and the
opposite of the lowest bid. -/
def worstCosts (config : ProgramConfig) (refPrice : ℤ) : List ℤ :=
  [216000 + refPrice + skewOf id config.priceConditionals 32000,
    416000 - skewOf id config.priceConditionals (-32000)]

theorem anchored_most (h : refPrice ∈ config.references) (spread slope invcoef : ℤ) :
    config.anchored ⟨200000, spread, slope, invcoef, 1⟩ refPrice = 200000 + refPrice := by
  unfold references at h
  unfold anchored
  split at h
  · rw [one_mul]
  · rw [List.mem_singleton.mp h, add_zero]

theorem anchored_least (config : ProgramConfig) (spread slope invcoef refPrice : ℤ) :
    config.anchored ⟨-200000, spread, slope, invcoef, 0⟩ refPrice = -200000 := by
  unfold anchored
  split
  · rw [zero_mul, add_zero]
  · rfl

theorem costs_dominated_iff (large : ℤ) :
    (∀ policy inv qty, Admitted policy inv qty → ∀ refPrice ∈ config.references, ∀ sells,
      |config.cost policy inv qty refPrice sells| < large) ↔
    ∀ refPrice ∈ config.references, ∀ worst ∈ worstCosts config refPrice, worst < large := by
  constructor
  · intro h refPrice href worst hworst
    simp only [worstCosts, List.mem_cons, List.not_mem_nil, or_false] at hworst
    obtain rfl | rfl := hworst
    · have hask := (abs_lt.mp (h ⟨200000, 0, 16, 8, 1⟩ 4000 1000
        ⟨by decide, by decide, by decide, by decide, by decide, by decide, by decide⟩
        refPrice href false)).2
      change config.anchored _ refPrice + 16000 + skewOf id _ 32000 < large at hask
      rw [anchored_most href] at hask
      omega
    · have hbid := (abs_lt.mp (h ⟨-200000, 200000, 16, 8, 0⟩ (-4000) 1000
        ⟨by decide, by decide, by decide, by decide, by decide, by decide, by decide⟩
        refPrice href true)).2
      change -(config.anchored _ refPrice - 200000 - 16000 + skewOf id _ (-32000)) < large at hbid
      rw [anchored_least] at hbid
      omega
  · intro h policy inv qty hadmitted refPrice href sells
    have hworst := h refPrice href
    simp only [worstCosts, List.forall_mem_cons, List.not_mem_nil, false_imp_iff, implies_true,
      and_true] at hworst
    exact (cost_bounds hadmitted (references_nonneg href) sells).trans_lt
      (max_lt hworst.1 hworst.2)

/-! ## The keys -/

/-- The width that keys are packed in. -/
def packingWidth (config : ProgramConfig) : ℕ :=
  if config.persistQuoteProofWires then min config.bitLength config.quoteSpanBits
  else config.bitLength

theorem packingWidth_le (config : ProgramConfig) : packingWidth config ≤ config.bitLength ∧
    (config.persistQuoteProofWires = true → packingWidth config ≤ config.quoteSpanBits) := by
  unfold packingWidth
  split
  · exact ⟨min_le_left _ _, fun _ => min_le_right _ _⟩
  · exact ⟨le_rfl, fun htrue => absurd htrue ‹_›⟩

theorem packingBits_ok (h : config.packingBits = .ok bits) : bits = packingWidth config := by
  unfold packingBits at h
  unfold packingWidth
  split_ifs at h ⊢
  · obtain ⟨-, h⟩ := refuseIf_bind_ok.mp h
    exact (Except.ok.inj h).symm
  · exact (Except.ok.inj h).symm

theorem packingSentinel_ok (h : config.packingSentinel machine = .ok large) :
    0 < config.nMm ∧ 2 ≤ packingWidth config ∧
      large = 2 ^ (packingWidth config - 2) / (config.nMm : ℤ) := by
  obtain ⟨bits, hbits, h⟩ := bind_ok.mp h
  obtain rfl := packingBits_ok hbits
  obtain ⟨maxCost, -, h⟩ := bind_ok.mp h
  obtain ⟨hfits, h⟩ := refuseIf_bind_ok.mp h
  refine ⟨by omega, by omega, ?_⟩
  simp only at h
  split at h
  · obtain ⟨_, -, h⟩ := bind_ok.mp h
    obtain ⟨_, -, h⟩ := bind_ok.mp h
    cases h
  · exact (Except.ok.inj h).symm

/-- Keys of costs up to a sentinel lie within twice its room. -/
theorem packKey_near {cost : ℕ → ℤ} (hi : i < makers)
    (hj : j < makers) (hci : -large < cost i ∧ cost i ≤ large)
    (hcj : -large < cost j ∧ cost j ≤ large) :
    |packKey makers cost i - packKey makers cost j| < 2 * (large * makers) := by
  have hgap : |cost i - cost j| * makers ≤ (2 * large - 1) * makers := by
    refine mul_le_mul_of_nonneg_right (abs_le.mpr ?_) (Int.natCast_nonneg _)
    omega
  have hdigits : |(i : ℤ) - j| ≤ makers - 1 := abs_le.mpr ⟨by omega, by omega⟩
  calc |packKey makers cost i - packKey makers cost j|
      = |(cost i - cost j) * makers + ((i : ℤ) - j)| := by
        unfold packKey
        congr 1
        ring
    _ ≤ |cost i - cost j| * makers + |(i : ℤ) - j| := by
        refine (abs_add_le _ _).trans_eq ?_
        rw [abs_mul, Nat.abs_cast]
    _ ≤ (2 * large - 1) * makers + (makers - 1) := add_le_add hgap hdigits
    _ < 2 * (large * makers) := by linarith

theorem Dominates.of_costs (hlarge : config.packingSentinel machine = .ok large)
    (h : ∀ policy inv qty, Admitted policy inv qty → ∀ refPrice ∈ config.references, ∀ sells,
      |config.cost policy inv qty refPrice sells| < large) : Dominates config large := by
  refine ⟨h, fun policy inv qty hadmitted refPrice href sells ok i hi j hj => ?_⟩
  obtain ⟨hmakers, htwo, hsentinel⟩ := packingSentinel_ok hlarge
  obtain ⟨hwidth, hspan⟩ := packingWidth_le config
  have hroom : large * config.nMm ≤ 2 ^ (packingWidth config - 2) :=
    hsentinel ▸ Int.ediv_mul_le _ (by omega)
  have hcost : ∀ k < config.nMm, |config.cost (policy k) (inv k) qty refPrice sells| < large :=
    fun k hk => h _ _ _ (hadmitted k hk) refPrice href sells
  let gated : ℕ → ℤ := fun k =>
    if ok k then config.cost (policy k) (inv k) qty refPrice sells else large
  have hgated : ∀ k < config.nMm, -large < gated k ∧ gated k ≤ large := by
    intro k hk
    obtain ⟨hlow, hhigh⟩ := abs_lt.mp (hcost k hk)
    simp only [gated]
    split <;> omega
  have hnear : |packKey config.nMm gated i - packKey config.nMm gated j| <
      2 * 2 ^ (packingWidth config - 2) :=
    (packKey_near hi hj (hgated i hi) (hgated j hj)).trans_le
      (mul_le_mul_of_nonneg_left hroom (by omega))
  have hbits : (2 : ℤ) * 2 ^ (packingWidth config - 2) = 2 ^ (packingWidth config - 1) := by
    rw [← pow_succ']
    congr 1
    omega
  rw [hbits] at hnear
  refine ⟨fun hoki hokj => ?_, hnear.trans_le (pow_le_pow_right₀ (by omega) (by omega)),
    fun hpersist => (le_abs_self _).trans_lt (hnear.trans_le ?_)⟩
  · -- a cost below the sentinel leaves room for every index
    have hbelow : (config.cost (policy i) (inv i) qty refPrice sells + 1) * config.nMm ≤
        large * config.nMm :=
      mul_le_mul_of_nonneg_right (Int.add_one_le_of_lt (abs_lt.mp (hcost i hi)).2)
        (Int.natCast_nonneg _)
    simp only [ProgramConfig.keys, packKey, hoki, hokj, if_true, Bool.false_eq_true, if_false]
    linarith [Int.natCast_nonneg j, Int.ofNat_lt.mpr hi]
  · have := hspan hpersist
    exact pow_le_pow_right₀ (by omega) (by omega)

/-- The sentinel that a configuration packs with dominates exactly if the worst costs that the
declared bounds allow, for each reference price the configuration lists within its bounds, fit the
share of a maker in a quarter of the packing width; the generator checks eight times the largest
reference price instead. -/
theorem sentinel_dominates_iff {machine : Machine} {large : ℤ}
    (h : config.packingSentinel machine = .ok large) :
    Dominates config large ↔ ∀ refPrice ∈ config.references,
      ∀ worst ∈ worstCosts config refPrice,
        worst < 2 ^ (packingWidth config - 2) / (config.nMm : ℤ) := by
  rw [← (packingSentinel_ok h).2.2, ← costs_dominated_iff]
  exact ⟨Dominates.costs, Dominates.of_costs h⟩

/-- A configuration of two makers with a small reference price. -/
def narrowConfig : ProgramConfig where
  nMm := 2
  mode := .rfq
  nowT := ⟨1000, by decide⟩
  refMid := ⟨100, by decide⟩
  nRequests := 1
  nAssets := 1
  refTable := []
  makerAssets := []
  publicMakerAssets := false
  auditGates := false
  bitLength := 13
  argminArity := 2
  priceConditionals := 0
  bindingLimit := false
  stopAfter := .tournament
  persistWires := false
  persistZkpiWires := false
  persistQuoteProofWires := false
  zkpiAmountBits := 32
  zkpiPriceBits := 32
  quoteEligibilityBits := 34
  quoteSpanBits := 32
  persistDvpWires := false
  dvpRemainderBits := 32
  reference := .anchored

theorem narrow_builds : buildProgram RuleWidths.plainText .checked narrowConfig = .ok 1024 := by
  decide +kernel

/-- With 63 bits the same makers are packed below a sentinel above all admitted costs. -/
theorem wide_sentinel_dominates : Dominates { narrowConfig with bitLength := 63 } (2 ^ 60) := by
  have hpacks : ({ narrowConfig with bitLength := 63 }).packingSentinel .checked =
      .ok (2 ^ 60) := by
    decide +kernel
  exact (sentinel_dominates_iff hpacks).mpr (by decide +kernel)

/-- A program is generated with a sentinel that a maker's admitted level exceeds, so that an
excluded maker wins against it. -/
theorem narrow_sentinel_exceeded :
    buildProgram RuleWidths.plainText .checked narrowConfig = .ok 1024 ∧
    narrowConfig.packingSentinel .checked = .ok 1024 ∧ 100 ∈ narrowConfig.references ∧
    Admitted ⟨200000, 0, 0, 0, 0⟩ 0 1 ∧
    narrowConfig.cost ⟨200000, 0, 0, 0, 0⟩ 0 1 100 false = 200000 ∧
    narrowConfig.keys 1024 (fun _ => ⟨200000, 0, 0, 0, 0⟩) (fun _ => 0) 1 100 false (· = 0) 1 <
      narrowConfig.keys 1024 (fun _ => ⟨200000, 0, 0, 0, 0⟩) (fun _ => 0) 1 100 false (· = 0)
        0 := by
  refine ⟨narrow_builds, by decide +kernel, by decide +kernel, ?_, by decide +kernel,
    by decide +kernel⟩
  exact ⟨by decide, by decide, by decide, by decide, by decide, by decide, by decide⟩

end Zkpi.PackingSentinel
