import Mathlib.Data.ZMod.ValMinAbs
import Mathlib.Tactic.LinearCombination
import Zkpi.PackingSentinel

/-!
# What the masked answers reveal

The generated program opens its answers under one-time masks that only the trader knows. An answer
under a mask of its own is uniform whatever the secret inputs are; two answers under the same mask
show their difference. The program masks the answers of all request lanes with one mask, and the
two sides of a request for a market as well.
-/

namespace Zkpi.MaskedAnswers

open PackingSentinel TournamentCircuit List ZMod

/-- The secret inputs, other than the masks, that the opened values are computed from. -/
structure Secrets (F : Type) where
  reqAsset : ℕ → F
  reqQty : ℕ → F
  reqDir : ℕ → F
  isReal : F
  limit : F
  policy : ℕ → MakerPolicy F
  maxqty : ℕ → F
  expiry : ℕ → F
  active : ℕ → F
  asset : ℕ → F
  inv : ℕ → F

section Circuit

variable {F : Type} [CommRing F] [DecidableEq F] (signed : F → ℤ) (c : ProgramConfig) (large : ℤ)
variable (x : Secrets F)

/-- The reference price that a request selects without showing which. -/
def refSecret (r : ℕ) : F :=
  let refTable := if c.refTable = [] then [c.refMid] else c.refTable
  ∑ a ∈ Finset.range c.nAssets,
    bit (x.reqAsset r = a) * ((refTable.map Subtype.val).getD a 0 : ℤ)

def ask (r i : ℕ) : F :=
  c.ask signed (x.policy i) (x.inv i) (x.reqQty r) (refSecret c x r)

def bid (r i : ℕ) : F :=
  c.bid signed (x.policy i) (x.inv i) (x.reqQty r) (refSecret c x r)

def makerAsset (i : ℕ) : F :=
  let makerAssets := if c.makerAssets = [] then (range c.nMm).map (· % c.nAssets)
    else c.makerAssets
  (makerAssets.getD i 0 : ℕ)

/-- Whether a maker is eligible. Public assets are looked up for the first request, whatever the
lane. -/
def ok (r i : ℕ) : F :=
  let gAsset : F := if c.publicMakerAssets then bit (x.reqAsset 0 = makerAsset c i)
    else bit (x.asset i = x.reqAsset r)
  let gQty : F := bit (signed (x.reqQty r) ≤ signed (x.maxqty i))
  let gExp : F := bit (signed (c.nowT.val : F) < signed (x.expiry i))
  if c.auditGates then x.active i * gAsset * gQty else x.active i * gAsset * gQty * gExp

/-- The keys of a lane for given costs, with the sentinel where a maker is not eligible. -/
def laneKeys (cost : ℕ → ℕ → F) (r : ℕ) : ℕ → F :=
  packKey c.nMm fun i => ifElse (ok signed c x r i) (cost r i) large

def wideKeys (r : ℕ) : ℕ → F :=
  laneKeys signed c large x
    (fun r i => ifElse (x.reqDir r) (-bid signed c x r i) (ask signed c x r i)) r

/-- The answer to the first request: its masked key, with a limit after its masked fill bit. -/
def firstAnswer (uMask fillMask : F) : List F :=
  if c.bindingLimit then
    let costLimit := ifElse (x.reqDir 0) (-x.limit) x.limit
    let raw := argminFill signed c.argminArity (wideKeys signed c large x 0) c.nMm
      (limitKey c.nMm costLimit)
    let bestKey := raw.1 * x.isReal
    let fill := raw.2 * x.isReal
    [fill + fillMask, fill * bestKey + uMask]
  else [argmin signed c.argminArity (wideKeys signed c large x 0) c.nMm * x.isReal + uMask]

/-- Everything that a whole program opens in answer to requests for a quote or for a market, without
its optional disclosures and checks. A stream of quotes opens its keys to one node unmasked. -/
def openings (uMask fillMask : F) : List F :=
  match c.mode with
  | .rfq =>
    (range' 1 (c.nRequests - 1)).map (fun r =>
      argmin signed c.argminArity (wideKeys signed c large x r) c.nMm * x.isReal + uMask) ++
      firstAnswer signed c large x uMask fillMask
  | .rfm =>
    let side := fun cost => argmin signed c.argminArity (laneKeys signed c large x cost 0) c.nMm
    [side (ask signed c x) + uMask, side (fun r i => -bid signed c x r i) + uMask]
  | .rfs => []

/-- For any two choices of the secret inputs, a bijection of the masks turns what one run opens into
what the other one opens. -/
def Hides : Prop :=
  ∀ x y : Secrets F, ∃ masks : F × F ≃ F × F, ∀ u f : F,
    openings signed c large x u f =
      openings signed c large y (masks (u, f)).1 (masks (u, f)).2

end Circuit

section Hiding

variable {F : Type} [CommRing F] [DecidableEq F] {signed : F → ℤ} {c : ProgramConfig} {large : ℤ}

variable (signed c large) in
theorem firstAnswer_masked (x : Secrets F) : ∃ key fill, ∀ u f,
    firstAnswer signed c large x u f =
      if c.bindingLimit then [fill + f, key + u] else [key + u] := by
  unfold firstAnswer
  split
  · exact ⟨_, _, fun _ _ => rfl⟩
  · exact ⟨_, 0, fun _ _ => rfl⟩

theorem single_answer_hidden (hmode : c.mode = .rfq) (hsingle : c.nRequests ≤ 1) :
    Hides signed c large := by
  intro x y
  obtain ⟨key, fill, hx⟩ := firstAnswer_masked signed c large x
  obtain ⟨key', fill', hy⟩ := firstAnswer_masked signed c large y
  refine ⟨(Equiv.addRight (key - key')).prodCongr (Equiv.addRight (fill - fill')), fun u f => ?_⟩
  have hlanes : range' 1 (c.nRequests - 1) = [] := by
    rw [Nat.sub_eq_zero_of_le hsingle]
    rfl
  have hkey : key' + (u + (key - key')) = key + u := by ring
  have hfill : fill' + (f + (fill - fill')) = fill + f := by ring
  simp [openings, hmode, hlanes, hx, hy, Equiv.prodCongr_apply, Equiv.coe_addRight, hkey, hfill]

end Hiding

/-! ## Two answers under one mask -/

section Differences

variable {p : ℕ} {c : ProgramConfig} {large : ℤ}

/-- The field tells the keys of small costs, and the time from the next second. -/
structure Wide (p : ℕ) (c : ProgramConfig) (large : ℤ) : Prop where
  keys : 2 * ((large + 4) * c.nMm) < p
  time : 2 * (|c.nowT.val| + 1) < p

theorem valMinAbs_small {z : ℤ} (h : 2 * |z| < p) : (z : ZMod p).valMinAbs = z := by
  have hnonneg := abs_nonneg z
  have : NeZero p := ⟨by omega⟩
  refine (valMinAbs_spec _ _).mpr ⟨rfl, ?_⟩
  obtain ⟨hlow, hhigh⟩ := abs_lt.mp (show |2 * z| < p by rwa [abs_mul])
  constructor <;> omega

/-- Inputs by which only the first maker is eligible. The level makes up for the skew. -/
def lone (c : ProgramConfig) (askLevel spread : ZMod p) (qty : ℕ → ZMod p) : Secrets (ZMod p) where
  reqAsset _ := makerAsset c 0
  reqQty := qty
  reqDir _ := 0
  isReal := 1
  limit := 0
  policy _ := ⟨askLevel - skewOf valMinAbs c.priceConditionals 0, spread, -1, 0, 0⟩
  maxqty _ := (3 : ℕ)
  expiry _ := c.nowT.val + 1
  active i := if i = 0 then 1 else 0
  asset _ := makerAsset c 0
  inv _ := 0

section Lone

variable (askLevel spread : ZMod p) (qty : ℕ → ZMod p) (r i : ℕ)

theorem lone_anchored (refPrice : ZMod p) :
    c.anchored ((lone c askLevel spread qty).policy i) refPrice =
      askLevel - skewOf valMinAbs c.priceConditionals 0 := by
  unfold ProgramConfig.anchored
  split
  · simp [lone]
  · rfl

theorem lone_ask : ask valMinAbs c (lone c askLevel spread qty) r i = askLevel - qty r := by
  rw [ask, ProgramConfig.ask, lone_anchored, ProgramConfig.skew]
  simp only [lone, mul_zero]
  ring

theorem lone_bid :
    bid valMinAbs c (lone c askLevel spread qty) r i = askLevel - spread + qty r := by
  rw [bid, ProgramConfig.bid, lone_anchored, ProgramConfig.skew]
  simp only [lone, mul_zero]
  ring

end Lone

variable {qty : ℕ → ZMod p}

section

variable (hwide : Wide p c large) (hmakers : 0 < c.nMm) (hlarge : 0 ≤ large)

include hwide hmakers hlarge

theorem lone_ok {q : ℕ}
    (hqty : qty r = q) (hq : q ≤ 3) (i : ℕ) :
    ok valMinAbs c (lone c askLevel spread qty) r i = if i = 0 then 1 else 0 := by
  by_cases hi : i = 0
  · subst hi
    have hroom : (4 : ℤ) ≤ (large + 4) * c.nMm := by nlinarith
    have hkeys := hwide.keys
    have htime := hwide.time
    have hqty' : ((q : ℤ) : ZMod p).valMinAbs = q :=
      valMinAbs_small (by rw [abs_of_nonneg (by omega)]; omega)
    have hmost : ((3 : ℤ) : ZMod p).valMinAbs = 3 := valMinAbs_small (by norm_num; omega)
    have hnow : ((c.nowT.val : ℤ) : ZMod p).valMinAbs = c.nowT.val := valMinAbs_small (by omega)
    have hnext : ((c.nowT.val + 1 : ℤ) : ZMod p).valMinAbs = c.nowT.val + 1 := by
      have hstep := abs_add_le c.nowT.val 1
      rw [abs_one] at hstep
      exact valMinAbs_small (by linarith)
    push_cast at hqty' hmost hnext
    simp only [ok, lone, Nat.cast_ofNat, hqty, hqty', hmost, hnow, hnext, bit, if_true, lt_add_one,
      one_mul]
    have hle : (q : ℤ) ≤ 3 := by omega
    simp only [if_pos hle, ite_self, one_mul]
  · simp only [ok, lone, if_neg hi, zero_mul, ite_self]

theorem lone_argmin {q k : ℕ}
    (hqty : qty r = q) (hq : q ≤ 3) {cost : ℕ → ℕ → ZMod p} (hk : 0 < k) (hmost : k ≤ 3)
    (hcost : cost r 0 = -k) :
    argmin valMinAbs c.argminArity
      (laneKeys valMinAbs c large (lone c askLevel spread qty) cost r) c.nMm =
        -k * c.nMm := by
  let key : ℕ → ℤ := fun i => if i = 0 then -k * c.nMm else large * c.nMm + i
  have hkey : ∀ i, laneKeys valMinAbs c large (lone c askLevel spread qty) cost r i =
      (key i : ZMod p) := by
    intro i
    simp only [laneKeys, packKey, ifElse, lone_ok hwide hmakers hlarge hqty hq, key]
    split_ifs with hi
    · subst hi
      rw [hcost]
      push_cast
      ring
    · push_cast
      ring
  have hsmall : ∀ i < c.nMm, ((key i : ℤ) : ZMod p).valMinAbs = key i := by
    intro i hi
    refine valMinAbs_small (lt_of_le_of_lt ?_ hwide.keys)
    refine mul_le_mul_of_nonneg_left (abs_le.mpr ?_) (by omega)
    simp only [key]
    split <;> constructor <;> nlinarith
  have happart : ∀ i, i ≠ 0 → key 0 < key i := by
    intro i hi
    simp only [key, if_neg hi, if_true]
    nlinarith
  rw [argmin_first injective_valMinAbs c.argminArity hmakers ?_ ?_, hkey]
  · simp only [key, if_true]
    push_cast
    ring
  · intro i hi j hj heq
    have hequal : key i = key j := by
      rw [← hsmall i hi, ← hsmall j hj, ← hkey, ← hkey, heq]
    rcases Nat.eq_zero_or_pos i with rfl | hipos <;> rcases Nat.eq_zero_or_pos j with rfl | hjpos
    · rfl
    · exact absurd hequal (happart j hjpos.ne').ne
    · exact absurd hequal (happart i hipos.ne').ne'
    · simp only [key, if_neg hipos.ne', if_neg hjpos.ne'] at hequal
      omega
  · intro j hj hne
    rw [hkey, hkey, hsmall 0 hmakers, hsmall j hj]
    exact happart j hne

theorem makers_ne_zero : (c.nMm : ZMod p) ≠ 0 := by
  intro hzero
  have hle := Nat.le_of_dvd hmakers ((natCast_eq_zero_iff _ _).mp hzero)
  have hkeys := hwide.keys
  nlinarith

/-- Two sides under one mask: the spread shows. -/
theorem market_shown
    (hmode : c.mode = .rfm) : ¬ Hides (F := ZMod p) valMinAbs c large := by
  intro h
  obtain ⟨masks, hmasks⟩ := h (lone c 2 0 fun _ => 0) (lone c 2 1 fun _ => 0)
  have hopened := hmasks 0 0
  have hask : ∀ spread : ZMod p, laneKeys valMinAbs c large (lone c 2 spread fun _ => 0)
      (ask valMinAbs c (lone c 2 spread fun _ => 0)) 0 =
      laneKeys valMinAbs c large (lone c 2 0 fun _ => 0) (fun _ _ => 2 - 0) 0 := by
    intro spread
    funext i
    simp only [laneKeys, packKey, lone_ask]
    rfl
  simp only [openings, hmode, hask, List.cons.injEq, add_zero, left_eq_add, and_true] at hopened
  obtain ⟨hmask, hbid⟩ := hopened
  rw [hmask, add_zero, lone_argmin (q := 0) (k := 2) hwide hmakers hlarge Nat.cast_zero.symm
    (by omega) (by omega) (by omega) (by rw [lone_bid]; push_cast; ring),
    lone_argmin (q := 0) (k := 1) hwide hmakers hlarge Nat.cast_zero.symm
    (by omega) (by omega) (by omega) (by rw [lone_bid]; push_cast; ring)] at hbid
  refine makers_ne_zero hwide hmakers hlarge ?_
  push_cast at hbid
  linear_combination -hbid

end

/-- A quantity in the second lane only. -/
def secondQty (k : ℕ) : ℕ → ZMod p
  | 1 => k
  | _ => 0

/-- Two lanes under one mask: the second quantity shows. -/
theorem lanes_shown (hwide : Wide p c large) (hmakers : 0 < c.nMm) (hlarge : 0 ≤ large)
    (hmode : c.mode = .rfq) (hlanes : 1 < c.nRequests) :
    ¬ Hides (F := ZMod p) valMinAbs c large := by
  intro h
  obtain ⟨masks, hmasks⟩ := h (lone c 0 0 (secondQty 2)) (lone c 0 0 (secondQty 3))
  have hopened := hmasks 0 0
  have hlane : ∀ k : ℕ, 0 < k → k ≤ 3 → argmin valMinAbs c.argminArity
      (wideKeys valMinAbs c large (lone (p := p) c 0 0 (secondQty k)) 1) c.nMm =
        -k * c.nMm := by
    intro k hk hmost
    have hqty : (secondQty k : ℕ → ZMod p) 1 = k := rfl
    have hdir : (lone c 0 0 (secondQty k) : Secrets (ZMod p)).reqDir 1 = 0 := rfl
    rw [wideKeys]
    refine lone_argmin hwide hmakers hlarge hqty hmost hk hmost ?_
    rw [lone_ask, hqty, hdir, ifElse]
    ring
  obtain ⟨key, fill, hfirst⟩ := firstAnswer_masked valMinAbs c large
    (lone (p := p) c 0 0 (secondQty 3))
  have hsame : firstAnswer valMinAbs c large (lone (p := p) c 0 0 (secondQty 2)) 0 0 =
      firstAnswer valMinAbs c large (lone c 0 0 (secondQty 3)) 0 0 := rfl
  simp only [openings, hmode, hsame, hfirst] at hopened
  obtain ⟨hrest, hlast⟩ := append_inj hopened (by rw [length_map, length_map])
  have hmask : (masks (0, 0)).1 = 0 := by
    split at hlast <;> simp only [List.cons.injEq, and_true, add_right_inj] at hlast
    · exact hlast.2.symm
    · exact hlast.symm
  obtain ⟨more, hmore⟩ : ∃ more, c.nRequests - 1 = more + 1 := ⟨c.nRequests - 2, by omega⟩
  rw [hmore, range'_succ, map_cons, map_cons, List.cons.injEq] at hrest
  have hone := hrest.1
  rw [hlane 2 (by omega) (by omega), hlane 3 (by omega) (by omega), hmask] at hone
  refine makers_ne_zero hwide hmakers hlarge ?_
  simp only [lone] at hone
  push_cast at hone
  linear_combination hone

/-- Over a field that is wide enough for the keys, the answers to requests for quotes or for a
market hide the secret inputs exactly if they answer no more than one request for a quote. -/
theorem masked_answers_hidden_iff {machine : MachineArithmetic.Machine}
    (hpacks : c.packingSentinel machine = .ok large) (hmode : c.mode ≠ .rfs)
    (hwide : Wide p c large) :
    Hides (F := ZMod p) valMinAbs c large ↔ c.mode = .rfq ∧ c.nRequests ≤ 1 := by
  obtain ⟨hmakers, -, hsentinel⟩ := packingSentinel_ok hpacks
  have hlarge : 0 ≤ large := hsentinel ▸ Int.ediv_nonneg (by positivity) (by omega)
  constructor
  · intro h
    cases hequal : c.mode with
    | rfq => exact ⟨rfl, not_lt.mp fun hlanes =>
        lanes_shown hwide hmakers hlarge hequal hlanes h⟩
    | rfm => exact absurd h (market_shown hwide hmakers hlarge hequal)
    | rfs => exact absurd hequal hmode
  · rintro ⟨hquote, hsingle⟩
    exact single_answer_hidden hquote hsingle

end Differences

theorem lone_quote_hidden : Hides (F := ZMod 65537) valMinAbs narrowConfig 1024 := by
  have hpacks : narrowConfig.packingSentinel .checked = .ok 1024 := by decide +kernel
  exact (masked_answers_hidden_iff hpacks (by decide) ⟨by decide, by decide⟩).mpr ⟨rfl, le_rfl⟩

/-- The same configuration for a market, and for two requests. -/
theorem shared_masks_show :
    buildProgram RuleWidths.plainText .checked { narrowConfig with mode := .rfm } = .ok 1024 ∧
    ¬ Hides (F := ZMod 65537) valMinAbs { narrowConfig with mode := .rfm } 1024 ∧
    buildProgram RuleWidths.plainText .checked { narrowConfig with nRequests := 2 } = .ok 1024 ∧
    ¬ Hides (F := ZMod 65537) valMinAbs { narrowConfig with nRequests := 2 } 1024 := by
  have hbuilt : buildProgram RuleWidths.plainText .checked narrowConfig = .ok 1024 := narrow_builds
  refine ⟨hbuilt, market_shown ⟨by decide, by decide⟩ (by decide) (by decide) rfl, hbuilt,
    lanes_shown ⟨by decide, by decide⟩ (by decide) (by decide) rfl (by decide)⟩

end Zkpi.MaskedAnswers
