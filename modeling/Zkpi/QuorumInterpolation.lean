import Zkpi.CoefficientPolynomials
import Zkpi.ExponentInterpolation
import Zkpi.FallibleChecks
import Zkpi.IndexedTables
import Zkpi.PedersenSigma

/-!
# Interpolation over a quorum

Every party holds the value of a polynomial at its own identifier, and a quorum recovers the
value at zero by Lagrange weights, of scalars and of group elements alike. A ladder is the list
of coefficients of such a polynomial in the group. Whatever every party of a quorum relates to
its own value of a ladder, the quorum relates to the constant of the ladder, provided the ladder
has no more coefficients than the quorum has parties.
-/

namespace Zkpi.QuorumInterpolation

open Std (TreeMap)
open ScalarField CoefficientPolynomials ExponentInterpolation FallibleChecks IndexedTables List
open PedersenSigma

abbrev PartyId := UInt64

def partyScalar (party : PartyId) : Scalar := (party.toNat : Scalar)

def partyPoint (party : PartyId) : Except String Scalar := do
  refuseIf (party = 0) "party identifiers start at one; zero is the Shamir secret"
  pure (partyScalar party)

def checkedParties (parties : List PartyId) : Except String (List Scalar) := do
  refuseIf (parties = []) "at least one party is required"
  refuseIf (¬ parties.Nodup) "party identifiers must be distinct"
  parties.mapM partyPoint

def lagrangeAtZero (parties : List PartyId) : Except String (TreeMap PartyId Scalar) := do
  let points ← checkedParties parties
  pure (.ofList (parties.zipIdx.map fun entry =>
    (entry.1, reconstruct points ((replicate parties.length 0).set entry.2 1))))

section Ladders

variable {P : Type} [AddCommGroup P] [Module Scalar P]

def ladderAt (ladder : List P) (x : Scalar) : P :=
  (ladder.foldl (fun state coefficient => (state.1 + state.2 • coefficient, state.2 * x))
    ((0, 1) : P × Scalar)).1

def shareCommitment (coefficientCommitments : List P) (party : PartyId) : Except String P := do
  let x ← partyPoint party
  pure (ladderAt coefficientCommitments x)

/-- Interpolate first moves in the exponent. -/
def combineCommitments (partials : TreeMap PartyId P) : Except String P := do
  let coefficients ← lagrangeAtZero partials.keys
  pure (partials.foldl (fun sum party first => sum + coefficients[party]! • first) 0)

def combineAnswers (coefficients : TreeMap PartyId Scalar) (quorum : List PartyId)
    (answer : PartyId → Scalar) : Scalar :=
  quorum.foldl (fun sum party => sum + coefficients[party]! * answer party) 0

end Ladders

/-! ## Committees and their weights -/

structure Committee (parties : List PartyId) : Prop where
  nonempty : parties ≠ []
  nodup : parties.Nodup
  nonzero : 0 ∉ parties

theorem partyScalar_injective : Function.Injective partyScalar := by
  intro p q h
  have hp : (p.toNat : ℤ) < 2 ^ 64 := by exact_mod_cast p.toNat_lt
  have hq : (q.toNat : ℤ) < 2 ^ 64 := by exact_mod_cast q.toNat_lt
  have horder : (2 : ℤ) ^ 64 < order := by norm_num [order]
  have heq : (p.toNat : ℤ) = q.toNat := by
    refine intCast_scalar_inj ?_ (by rw [abs_lt]; constructor <;> omega)
    rw [Int.cast_natCast, Int.cast_natCast]
    exact h
  exact UInt64.toNat.inj (by exact_mod_cast heq)

theorem partyPoint_eq (h : party ≠ 0) : partyPoint party = .ok (partyScalar party) := by
  simp only [partyPoint, refuseIf_bind_ok, h, not_false_eq_true, true_and]
  rfl

theorem partyPoint_ok (h : partyPoint party = .ok x) : party ≠ 0 :=
  (refuseIf_bind_ok.mp h).1

theorem checkedParties_eq (h : Committee parties) :
    checkedParties parties = .ok (parties.map partyScalar) := by
  simp only [checkedParties, refuseIf_bind_ok, h.nonempty, h.nodup, not_true_eq_false,
    not_false_eq_true, true_and]
  rw [mapM_ok, map_map]
  exact map_congr_left fun p hp => partyPoint_eq fun hzero => h.nonzero (hzero ▸ hp)

theorem checkedParties_ok (h : checkedParties parties = .ok points) : Committee parties := by
  simp only [checkedParties, refuseIf_bind_ok, not_not] at h
  obtain ⟨hnonempty, hnodup, hpoints⟩ := h
  refine ⟨hnonempty, hnodup, fun hzero => ?_⟩
  have hmem : partyPoint 0 ∈ points.map Except.ok :=
    mapM_ok.mp hpoints ▸ mem_map_of_mem hzero
  obtain ⟨x, _, hx⟩ := mem_map.mp hmem
  exact partyPoint_ok hx.symm rfl

def weight (quorum : List PartyId) : PartyId → Scalar :=
  zeroWeight quorum.toFinset partyScalar

theorem reconstruct_unit (hnodup : parties.Nodup) (hi : i < parties.length) :
    reconstruct (parties.map partyScalar) ((replicate parties.length 0).set i 1) =
      weight parties parties[i] := by
  have hother : ∀ j ∈ range parties.length, j ≠ i →
      summand (parties.map partyScalar) ((replicate parties.length 0).set i 1) j 0 = 0 := by
    intro j hj hne
    rw [summand, getD_eq_getElem _ _ (by simpa using hj), getElem_set_ne (Ne.symm hne),
      getElem_replicate, zero_mul, zero_mul]
  have hunit : ((replicate parties.length (0 : Scalar)).set i 1).getD i 0 = 1 := by
    rw [getD_eq_getElem _ _ (by simpa using hi), getElem_set_self]
  have herase : (parties.eraseIdx i).toFinset = parties.toFinset.erase parties[i] := by
    ext q
    rw [← hnodup.erase_getElem i hi, mem_toFinset, hnodup.mem_erase_iff, Finset.mem_erase,
      mem_toFinset]
  rw [reconstruct_eq, evaluate_interpolate, length_map,
    ← sum_toFinset _ nodup_range, Finset.sum_eq_single i
      (fun j hj hne => hother j (mem_toFinset.mp hj) hne)
      (fun hmem => absurd (mem_toFinset.mpr (mem_range.mpr hi)) hmem)]
  rw [summand, hunit, denominatorAt_eq, one_mul, eraseIdx_map, map_map, map_map,
    getD_eq_getElem _ _ (by simpa using hi), getElem_map,
    ← prod_toFinset _ (hnodup.eraseIdx i), ← prod_toFinset _ (hnodup.eraseIdx i),
    herase, weight, zeroWeight, Finset.prod_mul_distrib, Finset.prod_inv_distrib, mul_comm]
  simp

variable {quorum : List PartyId}

theorem lagrangeAtZero_eq (h : Committee quorum) :
    ∃ coefficients, lagrangeAtZero quorum = .ok coefficients ∧
      ∀ p ∈ quorum, coefficients[p]! = weight quorum p := by
  have hentries : (quorum.zipIdx.map fun entry => (entry.1, reconstruct (quorum.map partyScalar)
      ((replicate quorum.length 0).set entry.2 1))) =
      quorum.map fun p => (p, weight quorum p) := by
    apply ext_getElem
    · simp
    · intro i hi _
      have hlt : i < quorum.length := by simpa using hi
      simp [reconstruct_unit h.nodup hlt]
  refine ⟨tabulate quorum (weight quorum), ?_, fun p hp => tabulate_getElem! hp⟩
  rw [lagrangeAtZero, checkedParties_eq h, tabulate, ← hentries]
  rfl

theorem lagrangeAtZero_ok (h : lagrangeAtZero quorum = .ok coefficients) : Committee quorum := by
  obtain ⟨_, hpoints, _⟩ := bind_ok.mp h
  exact checkedParties_ok hpoints

/-! ## What a quorum recovers -/

section Interpolation

variable {P : Type} [AddCommGroup P] [Module Scalar P]

def interpolated (quorum : List PartyId) (value : PartyId → P) : P :=
  ∑ p ∈ quorum.toFinset, weight quorum p • value p

variable {quorum : List PartyId}

theorem interpolated_congr {f g : PartyId → P} (h : ∀ p ∈ quorum, f p = g p) :
    interpolated quorum f = interpolated quorum g :=
  Finset.sum_congr rfl fun p hp => by rw [h p (mem_toFinset.mp hp)]

theorem interpolated_add (quorum : List PartyId) (f g : PartyId → P) :
    interpolated quorum (fun p => f p + g p) = interpolated quorum f + interpolated quorum g := by
  simp only [interpolated, smul_add, Finset.sum_add_distrib]

theorem interpolated_smul (quorum : List PartyId) (c : Scalar) (f : PartyId → P) :
    interpolated quorum (fun p => c • f p) = c • interpolated quorum f := by
  simp only [interpolated, Finset.smul_sum]
  exact Finset.sum_congr rfl fun p _ => smul_comm _ _ _

theorem interpolated_commit (quorum : List PartyId) (key : Pedersen P)
    (value blinding : PartyId → Scalar) :
    interpolated quorum (fun p => key.commit (value p) (blinding p)) =
      key.commit (interpolated quorum value) (interpolated quorum blinding) := by
  simp only [Pedersen.commit, interpolated, Finset.sum_smul, ← Finset.sum_add_distrib, smul_add,
    smul_smul, smul_eq_mul]

@[simp] theorem ladderAt_nil (x : Scalar) : ladderAt ([] : List P) x = 0 := rfl

theorem foldl_ladder (ladder : List P) (x power : Scalar) (total : P) :
    (ladder.foldl (fun state coefficient => (state.1 + state.2 • coefficient, state.2 * x))
      (total, power)).1 = total + power • ladderAt ladder x := by
  induction ladder generalizing total power with
  | nil => simp only [foldl_nil, ladderAt_nil, smul_zero, add_zero]
  | cons coefficient rest ih =>
    simp only [ladderAt, foldl_cons, zero_add, one_mul, one_smul]
    rw [ih, ih]
    module

@[simp] theorem ladderAt_cons (coefficient : P) (rest : List P) (x : Scalar) :
    ladderAt (coefficient :: rest) x = coefficient + x • ladderAt rest x := by
  rw [ladderAt, foldl_cons, foldl_ladder]
  simp

theorem ladderAt_zero (ladder : List P) : ladderAt ladder 0 = ladder.headD 0 := by
  cases ladder with
  | nil => rfl
  | cons => rw [ladderAt_cons, zero_smul, add_zero, headD_cons]

theorem ladderAt_eq (ladder : List P) (x : Scalar) :
    ladderAt ladder x = ∑ k ∈ Finset.range ladder.length, x ^ k • ladder.getD k 0 := by
  induction ladder with
  | nil => rfl
  | cons coefficient rest ih =>
    rw [ladderAt_cons, ih, length_cons, Finset.sum_range_succ', pow_zero, one_smul,
      getD_cons_zero, add_comm, Finset.smul_sum]
    congr 1
    refine Finset.sum_congr rfl fun k _ => ?_
    rw [getD_cons_succ, smul_smul, pow_succ']

variable {ladder : List P}

theorem interpolated_ladder (h : Committee quorum) (hlength : ladder.length ≤ quorum.length) :
    interpolated quorum (fun p => ladderAt ladder (partyScalar p)) = ladder.headD 0 := by
  cases ladder with
  | nil =>
    simp [interpolated, ladderAt_nil]
  | cons constant rest =>
    have hreads : Reads quorum.toFinset partyScalar (weight quorum) quorum.length 0 := by
      rw [← toFinset_card_of_nodup h.nodup]
      exact reads_zero partyScalar_injective.injOn
    have hread := (hreads.mono hlength).sum_smul (Nat.succ_pos _)
      (fun k => (constant :: rest).getD k 0)
    simp only [interpolated, ladderAt_eq]
    exact hread

theorem interpolated_masked (h : Committee quorum) (hlength : ladder.length ≤ quorum.length)
    {c : Scalar} {answer mask : PartyId → P}
    (hparty : ∀ p ∈ quorum, answer p = mask p + c • ladderAt ladder (partyScalar p)) :
    interpolated quorum answer = interpolated quorum mask + c • ladder.headD 0 := by
  rw [interpolated_congr hparty, interpolated_add, interpolated_smul, interpolated_ladder h hlength]

theorem combineCommitments_eq (h : Committee quorum) (first : PartyId → P) :
    combineCommitments (tabulate quorum first) = .ok (interpolated quorum first) := by
  have hkeys : ∀ p, p ∈ (tabulate quorum first).keys ↔ p ∈ quorum := fun p => by
    rw [TreeMap.mem_keys, mem_tabulate]
  have hset : (tabulate quorum first).keys.toFinset = quorum.toFinset := by
    ext p
    simp [hkeys]
  have hcommittee : Committee (tabulate quorum first).keys := by
    refine ⟨fun hnil => ?_, TreeMap.nodup_keys, fun hzero => h.nonzero ((hkeys 0).mp hzero)⟩
    obtain ⟨p, hp⟩ := exists_mem_of_ne_nil quorum h.nonempty
    exact absurd ((hkeys p).mpr hp) (hnil ▸ not_mem_nil)
  obtain ⟨coefficients, hok, hweights⟩ := lagrangeAtZero_eq hcommittee
  rw [combineCommitments, hok]
  refine congrArg Except.ok ((foldl_tabulate h.nodup first
    fun p point => coefficients[p]! • point).trans ?_)
  refine Finset.sum_congr rfl fun p hp => ?_
  rw [hweights p ((hkeys p).mpr (mem_toFinset.mp hp)), weight, hset]
  rfl

/-- First moves are combined only for parties away from zero. -/
theorem combineCommitments_ok {first : PartyId → P}
    (h : combineCommitments (tabulate quorum first) = .ok point) : quorum ≠ [] ∧ 0 ∉ quorum := by
  obtain ⟨_, hok, _⟩ := bind_ok.mp h
  have hcommittee := lagrangeAtZero_ok hok
  refine ⟨fun hnil => ?_, fun hzero => ?_⟩
  · obtain ⟨p, hp⟩ := exists_mem_of_ne_nil _ hcommittee.nonempty
    rw [TreeMap.mem_keys, mem_tabulate, hnil] at hp
    exact not_mem_nil hp
  · exact hcommittee.nonzero (TreeMap.mem_keys.mpr (mem_tabulate.mpr hzero))

theorem combineAnswers_eq (hnodup : quorum.Nodup)
    (hweights : ∀ p ∈ quorum, coefficients[p]! = weight quorum p) (answer : PartyId → Scalar) :
    combineAnswers coefficients quorum answer = interpolated quorum answer := by
  rw [combineAnswers, foldl_add_eq_sum hnodup fun p => coefficients[p]! * answer p]
  refine Finset.sum_congr rfl fun p hp => ?_
  rw [hweights p (mem_toFinset.mp hp), smul_eq_mul]

theorem shareCommitment_eq (h : party ≠ 0) :
    shareCommitment ladder party = .ok (ladderAt ladder (partyScalar party)) := by
  rw [shareCommitment, partyPoint_eq h]
  rfl

end Interpolation

end Zkpi.QuorumInterpolation
