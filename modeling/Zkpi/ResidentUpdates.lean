import Zkpi.OptimisticSwaps
import Zkpi.ResidentPools

/-!
# Updates of resident shares

Commits and rebinds of one node's file may overlap in any way. Those that swap are exactly a
sequence of calls run alone, one generation after another, each of which changes its own rail and
nothing else.
-/

namespace Zkpi.ResidentUpdates

open ByteText CheckedIntegers FallibleChecks RecordedRuns OptimisticSwaps ResidentPools List
open MpcSecretState

/-! ## Bindings of rails -/

section Sorting

variable {A K : Type} [LinearOrder K] (key : A → K)

/-- Inserting by key puts an item before those that come after it and behind none of its own
key. -/
theorem find?_orderedInsert (item : A) (items : List A) (wanted : K) :
    (items.orderedInsert (fun left right => key left ≤ key right) item).find?
        (fun other => key other = wanted) =
      if key item = wanted then some item else items.find? fun other => key other = wanted := by
  induction items with
  | nil => by_cases h : key item = wanted <;> simp [h]
  | cons first rest ih =>
    rw [orderedInsert_cons]
    split
    · rw [find?_cons]
      by_cases h : key item = wanted <;> simp [h]
    · rename_i hbefore
      rw [find?_cons, find?_cons, ih]
      by_cases hitem : key item = wanted
      · have hfirst : key first ≠ wanted := fun h => hbefore (hitem.trans h.symm).le
        simp [hitem, hfirst]
      · simp [hitem]

theorem find?_insertionSort (items : List A) (wanted : K) :
    (items.insertionSort fun left right => key left ≤ key right).find?
        (fun other => key other = wanted) = items.find? fun other => key other = wanted := by
  induction items with
  | nil => rfl
  | cons first rest ih =>
    rw [insertionSort_cons, find?_orderedInsert, ih, find?_cons]
    by_cases h : key first = wanted <;> simp [h]

end Sorting

variable {maker : ℕ} {direction : UInt8}

theorem rail_eq {binding : StandingPoolBinding} :
    binding.rail = toLex (maker, direction.toNat) ↔
      binding.maker = maker ∧ binding.direction = direction := by
  rw [StandingPoolBinding.rail, toLex_inj, Prod.mk.injEq, UInt8.toNat_inj]

variable (state : MpcSecretState)

theorem standingPoolBinding_eq :
    state.standingPoolBinding maker direction =
      state.standingPoolBindings.find? fun binding =>
        binding.rail = toLex (maker, direction.toNat) := by
  rw [standingPoolBinding]
  congr 1
  funext binding
  rw [decide_eq_decide.mpr rail_eq, Bool.decide_and]

theorem find?_replaceBinding :
    (replaceBinding binding bindings).find? (fun other => other.rail = wanted) =
      if binding.rail = wanted then some binding
      else bindings.find? fun other => other.rail = wanted := by
  induction bindings with
  | nil => by_cases h : binding.rail = wanted <;> simp [replaceBinding, h]
  | cons existing rest ih =>
    unfold replaceBinding
    split
    · rename_i hsame
      have hrail : existing.rail = binding.rail := rail_eq.mpr hsame
      by_cases h : binding.rail = wanted <;> simp [h, hrail]
    · rename_i hother
      have hrail : existing.rail ≠ binding.rail := fun h => hother (rail_eq.mp h)
      rw [find?_cons, find?_cons, ih]
      by_cases h : binding.rail = wanted
      · have hexisting : existing.rail ≠ wanted := h ▸ hrail
        simp [h, hexisting]
      · simp [h]

/-- A binding that is set is found under its rail, and no other rail changes. -/
theorem standingPoolBinding_set :
    (state.setStandingPoolBinding binding).standingPoolBinding maker direction =
      if binding.maker = maker ∧ binding.direction = direction then some binding
      else state.standingPoolBinding maker direction := by
  rw [standingPoolBinding_eq, standingPoolBinding_eq, setStandingPoolBinding]
  refine (find?_insertionSort StandingPoolBinding.rail _ _).trans ?_
  rw [find?_replaceBinding]
  exact if_congr rail_eq rfl rfl

/-! ## What a call changes -/

/-- Where the amount of a rail stands among the shares; its blinding follows it. -/
def offsetOf (rail : ℕ × UInt8) : ℕ := rail.1 * 5 + rail.2.toNat * 2

/-- A call moves on to the next generation, writes its two shares and its binding into its rail and
leaves the rest alone. -/
structure RailOnly (lib : ResidentLibrary) (call : Call) (before after : MpcSecretState) :
    Prop where
  generation : after.generation.toNat = before.generation.toNat + 1
  identity : after.version = before.version ∧ after.node = before.node ∧
    after.sourceSha256 = before.sourceSha256
  policies : after.policyInputShares = before.policyInputShares ∧
    after.quotePolicyBlindingInputShares = before.quotePolicyBlindingInputShares
  shares : after.dvpInputShares.length = before.dvpInputShares.length ∧
    ∀ index, index ≠ offsetOf call.rail → index ≠ offsetOf call.rail + 1 →
      after.dvpInputShares[index]? = before.dvpInputShares[index]?
  written : ∃ amount blinding, call.shares lib = .ok (amount, blinding) ∧
    after.dvpInputShares[offsetOf call.rail]? = some amount ∧
    after.dvpInputShares[offsetOf call.rail + 1]? = some blinding
  bindings : ∀ maker direction, after.standingPoolBinding maker direction =
    if (maker, direction) = call.rail then
      call.binding.or (before.standingPoolBinding maker direction)
    else before.standingPoolBinding maker direction

theorem standingPoolBinding_bindRail
    (hrail : ∀ found ∈ binding, (found.maker, found.direction) = rail)
    (maker : ℕ) (direction : UInt8) :
    (state.bindRail binding).standingPoolBinding maker direction =
      if (maker, direction) = rail then binding.or (state.standingPoolBinding maker direction)
      else state.standingPoolBinding maker direction := by
  cases binding with
  | none =>
    rw [Option.none_or, ite_self]
    rfl
  | some found =>
    obtain rfl := hrail found rfl
    rw [bindRail, standingPoolBinding_set, Option.some_or]
    refine if_congr ?_ rfl rfl
    rw [Prod.mk.injEq]
    exact and_congr eq_comm eq_comm

variable {before after : MpcSecretState}

theorem replaceRail_ok (call : Call) (hshares : call.shares lib = .ok (amount, blinding))
    (hbinding : ∀ binding ∈ call.binding, (binding.maker, binding.direction) = call.rail)
    (hexpected : before.generation = call.expectedGeneration)
    (h : before.replaceRail (offsetOf call.rail) amount blinding call.binding
      call.expectedGeneration = .ok after) : RailOnly lib call before after := by
  unfold replaceRail at h
  obtain ⟨_, h⟩ := refuseIf_bind_ok.mp h
  obtain ⟨hlength, h⟩ := refuseIf_bind_ok.mp h
  obtain ⟨_, hgeneration, h⟩ := bind_ok.mp h
  have hnext := checkedAdd_eq_some.mp (orRefuse_ok.mp hgeneration)
  cases h
  refine ⟨hexpected ▸ hnext, ?_, ?_, ⟨by simp, fun index hne hne' => ?_⟩,
    ⟨amount, blinding, hshares, ?_, ?_⟩, standingPoolBinding_bindRail before hbinding⟩
  · cases call.binding <;> exact ⟨rfl, rfl, rfl⟩
  · cases call.binding <;> exact ⟨rfl, rfl⟩
  · change ((before.dvpInputShares.set _ amount).set _ blinding)[index]? = _
    rw [getElem?_set_ne hne'.symm, getElem?_set_ne hne.symm]
  · rw [getElem?_set_ne (Nat.succ_ne_self _), getElem?_set_self (by omega)]
  · rw [getElem?_set_self (by rw [length_set]; omega)]

theorem standingShareOffset_ok
    (h : standingShareOffset maker direction = .ok offset) :
    offset = offsetOf (maker, direction) := by
  unfold standingShareOffset at h
  obtain ⟨-, h⟩ := refuseIf_bind_ok.mp h
  obtain ⟨-, h⟩ := refuseIf_bind_ok.mp h
  exact (Except.ok.inj h).symm

variable {lib : ResidentLibrary} {call : Call}

/-- A prepared state is for the generation the call expects, and differs on its rail only. -/
theorem prepare_ok (h : call.prepare lib before = .ok after) :
    before.generation = call.expectedGeneration ∧ RailOnly lib call before after := by
  cases call with
  | commit request =>
    unfold Call.prepare StandingPoolCommitRequest.prepare at h
    obtain ⟨hbound, h⟩ := refuseIf_bind_ok.mp h
    obtain ⟨_, -, h⟩ := bind_ok.mp h
    obtain ⟨handoff, hhandoff, h⟩ := bind_ok.mp h
    obtain ⟨-, h⟩ := refuseIf_bind_ok.mp h
    obtain ⟨_, -, h⟩ := bind_ok.mp h
    obtain ⟨hexpected, h⟩ := refuseIf_bind_ok.mp h
    obtain ⟨offset, hoffset, h⟩ := bind_ok.mp h
    obtain ⟨amount, hamount, h⟩ := bind_ok.mp h
    obtain ⟨blinding, hblinding, h⟩ := bind_ok.mp h
    have hshares : Call.shares lib (.commit request) = .ok (amount, blinding) :=
      bind_ok.mpr ⟨handoff, hhandoff, bind_ok.mpr ⟨amount, hamount,
        bind_ok.mpr ⟨blinding, hblinding, rfl⟩⟩⟩
    have hexpected : before.generation = request.expectedGeneration := not_not.mp hexpected
    obtain rfl := standingShareOffset_ok hoffset
    refine ⟨hexpected, replaceRail_ok (.commit request) hshares ?_ hexpected h⟩
    intro binding hbinding
    have hbinding : request.binding = some binding := hbinding
    simp only [hbinding, Option.any_some, Bool.or_eq_true, decide_eq_true_eq, not_or,
      not_not] at hbound
    obtain ⟨-, -, -, -, -, ⟨hmaker, hdirection⟩, -⟩ := hbound
    exact Prod.ext hmaker hdirection
  | rebind request =>
    unfold Call.prepare StandingPoolRebindRequest.prepare at h
    obtain ⟨-, h⟩ := refuseIf_bind_ok.mp h
    obtain ⟨_, -, h⟩ := bind_ok.mp h
    obtain ⟨hexpected, h⟩ := refuseIf_bind_ok.mp h
    obtain ⟨_, hoffset, h⟩ := bind_ok.mp h
    have hexpected : before.generation = request.expectedGeneration := not_not.mp hexpected
    obtain rfl := standingShareOffset_ok hoffset
    refine ⟨hexpected, replaceRail_ok (.rebind request) rfl ?_ hexpected h⟩
    intro _ hbinding
    rw [← Option.some.inj hbinding]
    rfl

theorem compareAndSwap_of_railOnly (hexpected : before.generation = call.expectedGeneration)
    (h : RailOnly lib call before after) :
    compareAndSwap call.expectedGeneration after before = .ok () := by
  have hnext : checkedAdd call.expectedGeneration 1 = some after.generation := by
    rw [checkedAdd_eq_some, ← hexpected]
    exact h.generation
  unfold compareAndSwap
  refine refuseIf_bind_ok.mpr ⟨not_not.mpr hexpected, bind_ok.mpr ⟨after.generation, ?_, ?_⟩⟩
  · exact orRefuse_ok.mpr hnext
  · simp [refuseIf_ok, h.identity, h.policies, h.shares]

/-! ## Any interleaving -/

/-- Each call loads a state, prepares the next one and swaps it in, guarded by the generation. -/
def protocol (lib : ResidentLibrary) : Protocol MpcSecretState Call String where
  version state := state.generation.toNat
  prepare call := call.prepare lib
  swap call := compareAndSwap call.expectedGeneration

theorem protocol_guarded (lib : ResidentLibrary) : (protocol lib).Guarded where
  next h := (prepare_ok h).2.generation
  same {call loaded _ _} h hswap := by
    have hcurrent := (refuseIf_bind_ok.mp hswap).1
    rw [not_not] at hcurrent
    exact congrArg UInt64.toNat (hcurrent.trans (prepare_ok h).1.symm)

/-- Calls that succeed one after the other expect consecutive generations. -/
theorem expected_sequential (h : sequential (protocol lib) start calls = .ok final) :
    calls.map (fun call => call.expectedGeneration.toNat) =
      range' start.generation.toNat calls.length := by
  induction calls using reverseRecOn generalizing final with
  | nil => rfl
  | append_singleton calls call ih =>
    rw [sequential_concat] at h
    obtain ⟨middle, hmiddle, hlast⟩ := bind_ok.mp h
    have hversion := version_sequential (protocol_guarded lib) hmiddle
    have hexpected := congrArg UInt64.toNat (prepare_ok hlast).1
    rw [map_append, ih hmiddle, length_append, length_singleton,
      range'_concat, map_singleton, ← hexpected, Nat.one_mul]
    rw [show middle.generation.toNat = _ from hversion]
    rfl

/-- What a call returns once its state is swapped in. -/
inductive Reply where
  | receipt (receipt : StandingPoolStateReceipt)
  | state (state : MpcSecretState)

def reply (lib : ResidentLibrary) (next : MpcSecretState) : Call → Except String Reply
  | .commit request => .receipt <$> request.reply lib next
  | .rebind _ => .ok (.state next)

/-- A call that swapped returns successfully, except for a commit from an output file whose
digest is zero: the check of the receipt, after the swap, takes that for a missing digest. -/
theorem reply_ok (h : call.prepare lib before = .ok after) :
    (reply lib after call).isOk = true ∨
      ∃ request bytes, call = .commit request ∧ request.persistence = .ok bytes ∧
        lib.sha256 bytes = zeroDigest := by
  obtain ⟨hexpected, hrail⟩ := prepare_ok h
  cases call with
  | rebind => exact .inl rfl
  | commit request =>
    unfold Call.prepare StandingPoolCommitRequest.prepare at h
    obtain ⟨hbound, h⟩ := refuseIf_bind_ok.mp h
    obtain ⟨bytes, hbytes, -⟩ := bind_ok.mp h
    simp only [not_or] at hbound
    obtain ⟨-, hdirection, hgeneration, hjob, hallocation, -⟩ := hbound
    by_cases hzero : lib.sha256 bytes = zeroDigest
    · exact .inr ⟨request, bytes, rfl, hbytes, hzero⟩
    · left
      have hafter : after.generation = saturatingAdd request.expectedGeneration 1 := by
        have hnext := hrail.generation
        rw [hexpected] at hnext
        have hlt := after.generation.toNat_lt
        rw [← UInt64.toNat_inj, saturatingAdd_toNat]
        change _ = min (request.expectedGeneration.toNat + 1) _
        change _ = request.expectedGeneration.toNat + 1 at hnext
        omega
      simp only [reply, StandingPoolCommitRequest.reply, hbytes, StandingPoolStateReceipt.verify,
        bind, Except.bind]
      rw [show refuseIf _ _ = .ok () from refuseIf_ok.mpr ?_]
      · rfl
      · simp only [not_or]
        exact ⟨hdirection, hgeneration, not_not.mpr hafter, hjob, hallocation, hzero,
          not_not.mpr rfl⟩

/-- Over any interleaving of commits and rebinds of one file, the calls that swap have the
generations from the start on as their expected ones, one each; the generation grows by one for
each of them; and the file holds what these calls make of the start when they are run one after
another. Each changes only its own rail, would have swapped run alone, and returns successfully
unless its output file has the digest zero. -/
theorem resident_updates_linearise (lib : ResidentLibrary) (start : MpcSecretState)
    (actions : List (Action Call)) :
    ((swaps (run (step (protocol lib)) ⟨start, []⟩ actions).events).map
        fun call => call.expectedGeneration.toNat) =
      range' start.generation.toNat
        (swaps (run (step (protocol lib)) ⟨start, []⟩ actions).events).length ∧
    (run (step (protocol lib)) ⟨start, []⟩ actions).state.store.generation.toNat =
      start.generation.toNat +
        (swaps (run (step (protocol lib)) ⟨start, []⟩ actions).events).length ∧
    sequential (protocol lib) start
        (swaps (run (step (protocol lib)) ⟨start, []⟩ actions).events) =
      .ok (run (step (protocol lib)) ⟨start, []⟩ actions).state.store ∧
    ∀ call before after, call.prepare lib before = .ok after →
      compareAndSwap call.expectedGeneration after before = .ok () ∧
      RailOnly lib call before after ∧
      ((reply lib after call).isOk = true ∨
        ∃ request bytes, call = .commit request ∧ request.persistence = .ok bytes ∧
          lib.sha256 bytes = zeroDigest) := by
  have hlinear := (linear_run (protocol_guarded lib) start actions).store
  generalize swaps (run (step (protocol lib)) ⟨start, []⟩ actions).events = calls at *
  refine ⟨?_, version_sequential (protocol_guarded lib) hlinear, hlinear, ?_⟩
  · exact expected_sequential hlinear
  · intro _ _ _ hprepare
    obtain ⟨hexpected, hrail⟩ := prepare_ok hprepare
    exact ⟨compareAndSwap_of_railOnly hexpected hrail, hrail, reply_ok hprepare⟩

end Zkpi.ResidentUpdates
