import Zkpi.FallibleChecks
import Zkpi.OptimisticConservation
import Zkpi.OptimisticLifecycle

/-!
# No claim gets stuck

The locked funds of every account are the bonds of the claims it has a stake in. So when a deadline
has passed, the bond to be paid out is there, and as long as the funds of an asset fit a machine
word, paying it cannot overflow: anybody can finish the claim, and no later than the execution it
belongs to is valid.
-/

namespace Zkpi.OptimisticProgress

open ByteText CheckedIntegers KeyedTables OptimisticMachine OptimisticCollateral RecordedRuns List
open OptimisticTransitions StatefulMethods.Method
open OptimisticMachine.OptimisticState OptimisticLifecycle

variable {s s' : OptimisticState} {asset owner : Digest32} {amount : UInt64}

/-! ## What each move does to every account -/

def amountAt (asset owner : Digest32) (amount : UInt64) (a o : Digest32) : ℕ :=
  if a = asset ∧ o = owner then amount.toNat else 0

theorem creditEscrow_bond (h : creditEscrow asset owner amount s = (.ok (), s')) :
    owner ≠ zeroDigest ∧ ∀ a o, (s'.bond a o).locked = (s.bond a o).locked ∧
      (s'.bond a o).available.toNat =
        (s.bond a o).available.toNat + amountAt asset owner amount a o := by
  simp only [creditEscrow, bind_ok, failIf_ok, read_ok, need_ok, write_ok, checkedAdd_eq_some,
    not_or] at h
  obtain ⟨_, _, ⟨⟨_, howner, _⟩, rfl⟩, _, _, ⟨rfl, rfl⟩, _, _, ⟨ha, rfl⟩, rfl⟩ := h
  refine ⟨howner, fun a o => ?_⟩
  rw [setBond_bond, amountAt]
  split_ifs with hsame
  · obtain ⟨rfl, rfl⟩ := hsame
    exact ⟨rfl, ha⟩
  · exact ⟨rfl, rfl⟩

theorem withdrawEscrow_bond (h : withdrawEscrow asset owner amount s = (.ok (), s'))
    (a o : Digest32) :
    (s'.bond a o).locked = (s.bond a o).locked ∧
      (s'.bond a o).available.toNat ≤ (s.bond a o).available.toNat := by
  simp only [withdrawEscrow, bind_ok, failIf_ok, read_ok, need_ok, write_ok,
    checkedSub_eq_some] at h
  obtain ⟨_, _, ⟨_, rfl⟩, _, _, ⟨rfl, rfl⟩, _, _, ⟨ha, rfl⟩, rfl⟩ := h
  rw [setBond_bond]
  split_ifs with hsame
  · obtain ⟨rfl, rfl⟩ := hsame
    exact ⟨rfl, Nat.le.intro ha⟩
  · exact ⟨rfl, le_rfl⟩

theorem lock_bond (h : lock asset owner amount s = (.ok (), s')) (a o : Digest32) :
    (s'.bond a o).locked.toNat = (s.bond a o).locked.toNat + amountAt asset owner amount a o ∧
      (s'.bond a o).available.toNat + amountAt asset owner amount a o =
        (s.bond a o).available.toNat := by
  simp only [lock, bind_ok, read_ok, need_ok, write_ok, checkedSub_eq_some, checkedAdd_eq_some] at h
  obtain ⟨_, _, ⟨rfl, rfl⟩, _, _, ⟨ha, rfl⟩, _, _, ⟨hl, rfl⟩, rfl⟩ := h
  rw [setBond_bond, amountAt]
  split_ifs with hsame
  · obtain ⟨rfl, rfl⟩ := hsame
    exact ⟨hl, ha⟩
  · exact ⟨rfl, rfl⟩

theorem award_bond (h : award asset source target amount s = (.ok (), s')) :
    target ≠ zeroDigest ∧ ∀ a o,
      (s'.bond a o).locked.toNat + amountAt asset source amount a o = (s.bond a o).locked.toNat ∧
      (s'.bond a o).available.toNat =
        (s.bond a o).available.toNat + amountAt asset target amount a o := by
  simp only [award, bind_ok, read_ok, need_ok, write_ok, checkedSub_eq_some] at h
  obtain ⟨_, _, ⟨rfl, rfl⟩, _, _, ⟨hl, rfl⟩, _, _, rfl, hcredit⟩ := h
  obtain ⟨htarget, hpaid⟩ := creditEscrow_bond hcredit
  refine ⟨htarget, fun a o => ?_⟩
  obtain ⟨hlocked, havailable⟩ := hpaid a o
  rw [hlocked, havailable, setBond_bond, amountAt]
  split_ifs with hsame
  · obtain ⟨rfl, rfl⟩ := hsame
    exact ⟨hl, rfl⟩
  · exact ⟨rfl, rfl⟩

theorem creditEscrow_succeeds
    (hfits : (s.bond asset owner).available.toNat + amount.toNat < 2 ^ 64)
    (hgiven : ¬ (asset = zeroDigest ∨ owner = zeroDigest ∨ amount = 0)) :
    ∃ s', creditEscrow asset owner amount s = (.ok (), s') := by
  refine ⟨s.setBond asset owner { s.bond asset owner with
    available := (s.bond asset owner).available + amount }, ?_⟩
  simp only [creditEscrow, bind_ok, read_ok, need_ok, write_ok, failIf_ok, checkedAdd_eq_some]
  refine ⟨(), _, ⟨hgiven, rfl⟩, _, _, ⟨rfl, rfl⟩, _, _, ⟨?_, rfl⟩, rfl⟩
  rw [UInt64.toNat_add, Nat.mod_eq_of_lt hfits]

/-- An award whose funds are locked goes through if the asset's funds fit a machine word. -/
theorem award_succeeds (hlocked : amount.toNat ≤ (s.bond asset source).locked.toNat)
    (hfits : escrowTotal s asset < 2 ^ 64)
    (hgiven : ¬ (asset = zeroDigest ∨ target = zeroDigest ∨ amount = 0)) :
    ∃ s', award asset source target amount s = (.ok (), s') := by
  have hl := checkedSub_eq_some.mp (checkedSub_of_le (UInt64.le_iff_toNat_le.mpr hlocked))
  generalize (s.bond asset source).locked - amount = locked at hl
  -- the debited amount leaves room for the credit
  have htotal := setBond_total s asset source { s.bond asset source with locked := locked }
  generalize hmid : s.setBond asset source { s.bond asset source with locked := locked } = mid
    at htotal
  have hpart : held (mid.bond asset target) ≤ escrowTotal mid asset :=
    Finset.single_le_sum (f := fun o => held (mid.bond asset o)) (fun _ _ => Nat.zero_le _)
      (Finset.mem_univ target)
  simp only [held] at htotal hpart
  obtain ⟨s', hcredit⟩ := creditEscrow_succeeds (s := mid) (by omega) hgiven
  refine ⟨s', ?_⟩
  simp only [award, bind_ok, read_ok, need_ok, write_ok, checkedSub_eq_some]
  exact ⟨_, _, ⟨rfl, rfl⟩, locked, _, ⟨hl, rfl⟩, (), mid, hmid, hcredit⟩

/-! ## The bonds of the claims -/

def stake (policy : OptimisticPolicy) (a o : Digest32) : ClaimStatus → ℕ
  | .pending | .proven _ => amountAt policy.bondAsset policy.proposer policy.proposerBond a o
  | .challenged challenger _ =>
    amountAt policy.bondAsset policy.proposer policy.proposerBond a o +
      amountAt policy.bondAsset challenger policy.challengerBond a o
  | _ => 0

def stakeOf (a o : Digest32) (claim : Option Claim) : ℕ :=
  claim.elim 0 fun claim => stake claim.policy a o claim.status

/-- What a call did to the accounts: who got funds is not the zero digest, and an account's locked
funds changed with a stake. -/
structure Settled (s s' : OptimisticState) (before after : Digest32 → Digest32 → ℕ) : Prop where
  locked : ∀ a o, (s'.bond a o).locked.toNat + before a o = (s.bond a o).locked.toNat + after a o
  nobody : ∀ a, (s'.bond a zeroDigest).available.toNat ≤ (s.bond a zeroDigest).available.toNat

theorem amountAt_zero (h : owner ≠ zeroDigest) (a : Digest32) :
    amountAt asset owner amount a zeroDigest = 0 := if_neg fun hsame => h hsame.2.symm

theorem award_settled (h : award asset source target amount s = (.ok (), s')) :
    Settled s s' (amountAt asset source amount) fun _ _ => 0 := by
  obtain ⟨htarget, hbond⟩ := award_bond h
  refine ⟨fun a o => (hbond a o).1, fun a => ?_⟩
  rw [(hbond a _).2, amountAt_zero htarget, Nat.add_zero]

theorem lock_settled (h : lock asset owner amount s = (.ok (), s')) :
    Settled s s' (fun _ _ => 0) (amountAt asset owner amount) :=
  ⟨fun a o => (lock_bond h a o).1, fun a => Nat.le.intro (lock_bond h a zeroDigest).2⟩

theorem Paid.settled {policy : OptimisticPolicy} {before after : ClaimStatus}
    (h : Paid policy s s' before after) :
    Settled s s' (fun a o => stake policy a o before) fun a o => stake policy a o after := by
  cases h with
  | challenged h =>
    obtain ⟨hlocked, hnobody⟩ := lock_settled h
    refine ⟨fun a o => ?_, hnobody⟩
    have := hlocked a o
    simp only [stake]
    omega
  | defended h =>
    obtain ⟨hlocked, hnobody⟩ := award_settled h
    refine ⟨fun a o => ?_, hnobody⟩
    have := hlocked a o
    simp only [stake]
    omega
  | resolved h =>
    obtain ⟨_, mid, hfirst, hsecond⟩ := bind_ok.mp h
    obtain ⟨hlocked, hnobody⟩ := award_settled hfirst
    obtain ⟨hlocked', hnobody'⟩ := award_settled hsecond
    refine ⟨fun a o => ?_, fun a => (hnobody' a).trans (hnobody a)⟩
    have := hlocked a o
    have := hlocked' a o
    simp only [stake]
    omega
  | released hheld h =>
    obtain ⟨hlocked, hnobody⟩ := award_settled h
    refine ⟨fun a o => ?_, hnobody⟩
    have := hlocked a o
    obtain rfl | ⟨proof, rfl⟩ := hheld <;> simp only [stake] <;> omega

/-! ## What every state keeps -/

/-- A claim has a valid policy, a challenger with funds, and ends before its execution does. -/
structure Timely (sha256 : Bytes → Digest32) (s : OptimisticState) (claim : Claim) : Prop where
  valid : claim.policy.validate = .ok ()
  challenger : ∀ challenger deadline, claim.status = .challenged challenger deadline →
    challenger ≠ zeroDigest
  ends : ∃ execution, s.executions.lookup (jobKey sha256 claim.proposal.context) = some execution ∧
    claim.challengeDeadline.toNat + claim.policy.responseWindowSeconds.toNat ≤
      execution.validUntil.toNat ∧
    ∀ challenger deadline, claim.status = .challenged challenger deadline →
      deadline.toNat ≤ execution.validUntil.toNat

structure Backed (sha256 : Bytes → Digest32) (s : OptimisticState) : Prop where
  locked : ∀ a o, (s.bond a o).locked.toNat = ∑ id : Digest32, stakeOf a o (s.claim id)
  nobody : ∀ a, (s.bond a zeroDigest).available.toNat = 0
  timely : ∀ id claim, s.claim id = some claim → Timely sha256 s claim

variable {sha256 : Bytes → Digest32} {id : Digest32} {claim : Claim}

theorem claim_validates (h : claim.policy.validate = .ok ()) :
    zeroDigest ∉ [claim.policy.proposer, claim.policy.bondAsset] ∧
      claim.policy.proposerBond ≠ 0 ∧ claim.policy.challengerBond ≠ 0 := by
  unfold OptimisticPolicy.validate at h
  split at h
  · cases h
  · rename_i hgood
    simp only [mem_cons, not_or] at hgood ⊢
    tauto

theorem Backed.store (claim : Claim) (h : Backed sha256 s)
    (hsettled : Settled s mid (fun a o => stakeOf a o (s.claim id)) fun a o =>
      stakeOf a o (some claim)) (hrest : Reallots s mid) (htimely : Timely sha256 s claim)
    (hclaims : s'.claims = mid.claims.insert (hexEncode id.toList) claim)
    (hbonds : s'.bonds = mid.bonds) (hexecutions : s'.executions = mid.executions) :
    Backed sha256 s' := by
  have hclaim : ∀ id', s'.claim id' = if id' = id then some claim else s.claim id' := by
    rw [hrest.claims] at hclaims
    exact claim_insert hclaims
  have hbond : ∀ a o, s'.bond a o = mid.bond a o := fun a o => by simp [bond, hbonds]
  have hsame : s'.executions = s.executions := by rw [hexecutions, hrest.rest]
  refine ⟨fun a o => ?_, fun a => ?_, fun id' claim' hclaim' => ?_⟩
  · have hsum := sum_change_one (f := fun i => stakeOf a o (s.claim i))
      (g := fun i => stakeOf a o (s'.claim i)) id fun i hi => by rw [hclaim, if_neg hi]
    have hlocked := hsettled.locked a o
    rw [hclaim, if_pos rfl, ← h.locked] at hsum
    rw [hbond]
    omega
  · have hnobody := hsettled.nobody a
    rw [hbond]
    have := h.nobody a
    omega
  · rw [hclaim] at hclaim'
    have hkept : ∀ {claim}, Timely sha256 s claim → Timely sha256 s' claim := fun ht =>
      ⟨ht.valid, ht.challenger, hsame ▸ ht.ends⟩
    split at hclaim'
    · cases hclaim'
      exact hkept htimely
    · exact hkept (h.timely _ _ hclaim')

theorem stakeOf_some (a o : Digest32) (hclaim : s.claim id = some claim) :
    stakeOf a o (s.claim id) = stake claim.policy a o claim.status := by rw [hclaim]; rfl

theorem Backed.moved (h : Backed sha256 s) (hmoved : Moved s s' id op) : Backed sha256 s' := by
  obtain ⟨claim, status, mid, hclaim, hedge, hpaid, rfl⟩ := hmoved
  obtain ⟨hvalid, -, execution, hexecution, hends, -⟩ := h.timely id claim hclaim
  refine h.store { claim with status := status } ?_ hpaid.reallots ?_ rfl rfl rfl
  · simp only [stakeOf_some _ _ hclaim]
    exact Paid.settled hpaid
  · refine ⟨hvalid, fun challenger deadline hstatus => ?_, execution, hexecution, hends,
      fun challenger deadline hstatus => ?_⟩
    · obtain rfl := hstatus
      rintro rfl
      generalize claim.status = before at hpaid
      -- nobody has funds under the zero digest, so nothing could be locked there
      cases hpaid with
      | challenged hlock =>
        have hlocked := (lock_bond hlock claim.policy.bondAsset zeroDigest).2
        have hnobody := h.nobody claim.policy.bondAsset
        rw [amountAt, if_pos ⟨rfl, rfl⟩] at hlocked
        exact (claim_validates hvalid).2.2 (UInt64.toNat_inj.mp (by rw [UInt64.toNat_zero]; omega))
    · obtain rfl := hstatus
      cases hedge with
      | challenged _ _ _ hbefore _ hwindow =>
        have := UInt64.lt_iff_toNat_lt.mp hbefore
        rw [hwindow]
        omega

theorem verify_validates {proposal : Proposal} {policy : OptimisticPolicy} {now : UInt64}
    {authentication : ClaimAuthentication}
    (h : proposal.verify sha256 policy now authentication = .ok ()) :
    policy.validate = .ok () := by
  obtain ⟨_, hdigest, -⟩ := FallibleChecks.bind_ok.mp h
  obtain ⟨_, hvalid, -⟩ := FallibleChecks.bind_ok.mp hdigest
  exact hvalid

theorem Backed.aside (h : Backed sha256 s) (hclaims : s'.claims = s.claims)
    (hlocked : ∀ a o, (s'.bond a o).locked = (s.bond a o).locked)
    (hnobody : ∀ a, (s'.bond a zeroDigest).available.toNat ≤
      (s.bond a zeroDigest).available.toNat)
    (hexecutions : ∀ key execution, s.executions.lookup key = some execution →
      s'.executions.lookup key = some execution) : Backed sha256 s' := by
  have hclaim : ∀ id, s'.claim id = s.claim id := fun id => by
    simp only [OptimisticState.claim, hclaims]
  refine ⟨fun a o => ?_, fun a => ?_, fun id claim hfound => ?_⟩
  · simp only [hlocked, hclaim, h.locked]
  · have := hnobody a
    have := h.nobody a
    omega
  · rw [hclaim] at hfound
    obtain ⟨hvalid, hchallenger, execution, hexecution, hends⟩ := h.timely id claim hfound
    exact ⟨hvalid, hchallenger, execution, hexecutions _ _ hexecution, hends⟩

theorem Backed.step_ok (h : Backed sha256 s)
    (hstep : step sha256 s op = (.ok reply, s')) : Backed sha256 s' := by
  cases op with
  | enrollPolicy =>
    obtain ⟨id, hid, _⟩ := map_ok.mp hstep
    rw [enrollPolicy_ok hid]
    exact h.aside rfl (fun _ _ => rfl) (fun _ => le_rfl) fun _ _ hfound => hfound
  | registerExecution =>
    obtain ⟨_, hdone, _⟩ := map_ok.mp hstep
    obtain ⟨hnew, rfl⟩ := registerExecution_ok hdone
    refine h.aside rfl (fun _ _ => rfl) (fun _ => le_rfl) fun key found hfound => ?_
    rw [lookup_insert_ite, if_neg, hfound]
    rintro rfl
    rw [Finmap.lookup_eq_none.mpr hnew] at hfound
    cases hfound
  | creditEscrow =>
    obtain ⟨_, hdone, _⟩ := map_ok.mp hstep
    obtain ⟨howner, hbond⟩ := creditEscrow_bond hdone
    obtain ⟨account, _, rfl⟩ := creditEscrow_ok hdone
    refine h.aside rfl (fun a o => (hbond a o).1) (fun a => ?_) fun _ _ hfound => hfound
    rw [(hbond a _).2, amountAt_zero howner, Nat.add_zero]
  | withdrawEscrow =>
    obtain ⟨_, hdone, _⟩ := map_ok.mp hstep
    have hbond := withdrawEscrow_bond hdone
    obtain ⟨_, _, rfl⟩ := withdrawEscrow_ok hdone
    exact h.aside rfl (fun a o => (hbond a o).1) (fun a => (hbond a _).2) fun _ _ hfound => hfound
  | propose proposal now =>
    obtain ⟨_, hid, _⟩ := map_ok.mp hstep
    obtain ⟨policy, deadline, execution, _, rfl, hverify, hclaims, _, hexecution, hends, hlock,
      rfl⟩ := propose_ok hid
    refine h.store (openedClaim proposal policy now deadline) ?_ (lock_ok hlock) ?_ rfl rfl rfl
    · have hfresh : s.claim (proposal.id sha256) = none := Finmap.lookup_eq_none.mpr hclaims
      rw [hfresh]
      exact lock_settled hlock
    · exact ⟨verify_validates hverify, nofun, execution, hexecution, hends, nofun⟩
  | challenge =>
    obtain ⟨_, hdone, _⟩ := map_ok.mp hstep
    exact h.moved (challenge_ok hdone)
  | answer =>
    obtain ⟨_, hdone, _⟩ := map_ok.mp hstep
    exact h.moved (answer_ok hdone)
  | advance =>
    obtain ⟨_, hdone, _⟩ := map_ok.mp hstep
    exact h.moved (advance_ok hdone)

theorem run_backed (sha256 : Bytes → Digest32) (ops : List Operation) :
    Backed sha256 (runOf sha256 ops).state := by
  refine run_preserves (step sha256) (P := Backed sha256) (fun s op h => ?_) ?_ ops
  · cases hstep : step sha256 s op with
    | mk result =>
      cases result with
      | ok => exact h.step_ok hstep
      | error => exact (step_error hstep).symm ▸ h
  · refine ⟨fun a o => ?_, fun _ => rfl, fun _ _ hclaim => nomatch hclaim⟩
    have hnone : ∀ id, stakeOf a o (OptimisticState.default.claim id) = 0 := fun _ => rfl
    simp only [hnone, Finset.sum_const_zero]
    rfl

/-! ## Finishing a claim -/

theorem Backed.covers (h : Backed sha256 s) (hclaim : s.claim id = some claim) (a o : Digest32) :
    stake claim.policy a o claim.status ≤ (s.bond a o).locked.toNat := by
  rw [h.locked, ← stakeOf_some a o hclaim]
  exact Finset.single_le_sum (f := fun i => stakeOf a o (s.claim i)) (fun _ _ => Nat.zero_le _)
    (Finset.mem_univ id)

theorem resolveBonds_succeeds {policy : OptimisticPolicy}
    (hgiven : zeroDigest ∉ [policy.bondAsset, challenger]) (hproposer : policy.proposerBond ≠ 0)
    (hchallenger : policy.challengerBond ≠ 0)
    (hcovers : ∀ o,
      amountAt policy.bondAsset policy.proposer policy.proposerBond policy.bondAsset o +
      amountAt policy.bondAsset challenger policy.challengerBond policy.bondAsset o ≤
        (s.bond policy.bondAsset o).locked.toNat)
    (hfits : escrowTotal s policy.bondAsset < 2 ^ 64) :
    ∃ s', resolveBonds policy challenger false s = (.ok (), s') := by
  simp only [mem_cons, not_mem_nil, or_false, not_or] at hgiven
  obtain ⟨hasset, hwinner⟩ := hgiven
  have hpays : ∀ {amount : UInt64}, amount ≠ 0 →
      ¬ (policy.bondAsset = zeroDigest ∨ challenger = zeroDigest ∨ amount = 0) := fun hamount =>
    not_or.mpr ⟨Ne.symm hasset, not_or.mpr ⟨Ne.symm hwinner, hamount⟩⟩
  have hbond : ∀ (owner : Digest32) amount,
      amountAt policy.bondAsset owner amount policy.bondAsset owner = amount.toNat :=
    fun _ _ => if_pos ⟨rfl, rfl⟩
  have hfirst : policy.proposerBond.toNat ≤
      (s.bond policy.bondAsset policy.proposer).locked.toNat := by
    have := hcovers policy.proposer
    rw [hbond] at this
    omega
  obtain ⟨mid, hmid⟩ := award_succeeds hfirst hfits (hpays hproposer)
  -- the first award leaves the locked funds of the challenger's bond where they are
  have hsecond : policy.challengerBond.toNat ≤
      (mid.bond policy.bondAsset challenger).locked.toNat := by
    have hleft := ((award_bond hmid).2 policy.bondAsset challenger).1
    have := hcovers challenger
    rw [hbond challenger policy.challengerBond] at this
    omega
  have hroom : escrowTotal mid policy.bondAsset < 2 ^ 64 := by
    rw [(award_ok hmid).total]
    exact hfits
  obtain ⟨s', hs'⟩ := award_succeeds hsecond hroom (hpays hchallenger)
  refine ⟨s', ?_⟩
  simp only [resolveBonds, bind_ok, Bool.false_eq_true, if_false]
  exact ⟨(), mid, hmid, hs'⟩

def evidenceOf : ClaimStatus → Option Digest32
  | .proven proof => some proof
  | _ => none

theorem advance_releases (hclaim : s.claim id = some claim)
    (hstatus : claim.status = .pending ∨ ∃ proof, claim.status = .proven proof)
    (hnow : claim.challengeDeadline ≤ now)
    (h : unlock claim.policy.bondAsset claim.policy.proposer claim.policy.proposerBond s =
      (.ok (), mid)) :
    advance id now s = (.ok (), mid.setClaim id
      { claim with status := .finalized (evidenceOf claim.status) }) := by
  have hfinal : ∀ evidence, finalize s id claim evidence s =
      (.ok (), mid.setClaim id { claim with status := .finalized evidence }) := fun evidence => by
    simp only [finalize, bind_ok, onCopy_ok, write_ok]
    exact ⟨mid, s, ⟨h, rfl⟩, rfl⟩
  simp only [advance, bind_ok, read_ok, need_ok]
  refine ⟨s, s, ⟨rfl, rfl⟩, claim, s, ⟨hclaim, rfl⟩, ?_⟩
  obtain hstatus | ⟨_, hstatus⟩ := hstatus <;>
    simp only [hstatus, failIf_bind_ok, UInt64.not_lt] <;> exact ⟨hnow, hfinal _⟩

theorem advance_rejects
    (hclaim : s.claim id = some claim) (hstatus : claim.status = .challenged challenger deadline)
    (hnow : deadline ≤ now)
    (h : resolveBonds claim.policy challenger false s = (.ok (), mid)) :
    advance id now s =
      (.ok (), mid.setClaim id { claim with status := .rejected challenger none }) := by
  simp only [advance, bind_ok, read_ok, need_ok]
  refine ⟨s, s, ⟨rfl, rfl⟩, claim, s, ⟨hclaim, rfl⟩, ?_⟩
  simp only [hstatus, bind_ok, failIf_ok, onCopy_ok, write_ok, UInt64.not_lt]
  exact ⟨(), s, ⟨hnow, rfl⟩, mid, s, ⟨h, rfl⟩, rfl⟩

/-- An advance that stores a claim answers so and leaves that claim. -/
theorem step_advance {mid : OptimisticState}
    (h : advance id now s = (.ok (), mid.setClaim id stored)) :
    (step sha256 s (.advance id now)).1 = .ok .done ∧
      (step sha256 s (.advance id now)).2.claim id = some stored := by
  have hstep : step sha256 s (.advance id now) = (.ok .done, mid.setClaim id stored) :=
    map_ok.mpr ⟨(), h, rfl⟩
  rw [hstep]
  refine ⟨rfl, ?_⟩
  rw [claim_insert (rfl : (mid.setClaim id stored).claims = _), if_pos rfl]

/-- In every state that a run reaches and in which the funds of every asset fit a machine word, a
pending or proven claim is finalized by every advance from its challenge deadline on, a challenged
one is rejected by every advance from its response deadline on, and neither deadline is later than
the end of the registered execution of the job. -/
theorem no_claim_stuck (sha256 : Bytes → Digest32) (ops : List Operation)
    (hfits : ∀ asset, escrowTotal (runOf sha256 ops).state asset ≤ 2 ^ 64 - 1) (id : Digest32)
    (claim : Claim) (hclaim : (runOf sha256 ops).state.claim id = some claim) :
    (∀ now, (claim.status = .pending ∨ ∃ proof, claim.status = .proven proof) →
      claim.challengeDeadline ≤ now →
        (step sha256 (runOf sha256 ops).state (.advance id now)).1 = .ok .done ∧
        (step sha256 (runOf sha256 ops).state (.advance id now)).2.claim id =
          some { claim with status := .finalized (evidenceOf claim.status) }) ∧
    (∀ challenger deadline now, claim.status = .challenged challenger deadline → deadline ≤ now →
      (step sha256 (runOf sha256 ops).state (.advance id now)).1 = .ok .done ∧
      (step sha256 (runOf sha256 ops).state (.advance id now)).2.claim id =
        some { claim with status := .rejected challenger none }) ∧
    ∃ execution, (runOf sha256 ops).state.executions.lookup
        (jobKey sha256 claim.proposal.context) = some execution ∧
      claim.challengeDeadline ≤ execution.validUntil ∧
      ∀ challenger deadline, claim.status = .challenged challenger deadline →
        deadline ≤ execution.validUntil := by
  have hbacked := run_backed sha256 ops
  generalize (runOf sha256 ops).state = s at *
  have hcovers := hbacked.covers hclaim claim.policy.bondAsset
  have hroom : escrowTotal s claim.policy.bondAsset < 2 ^ 64 := by
    have := hfits claim.policy.bondAsset
    omega
  obtain ⟨hvalid, hchallenger, execution, hexecution, hends, hresponse⟩ :=
    hbacked.timely id claim hclaim
  obtain ⟨hnonzero, hproposed, hchallenged⟩ := claim_validates hvalid
  simp only [mem_cons, not_mem_nil, or_false, not_or] at hnonzero
  obtain ⟨hproposer, hasset⟩ := hnonzero
  refine ⟨fun now hstatus hnow => ?_, fun challenger deadline now hstatus hnow => ?_, execution,
    hexecution, UInt64.le_iff_toNat_le.mpr (by omega), fun challenger deadline hstatus =>
      UInt64.le_iff_toNat_le.mpr (hresponse _ _ hstatus)⟩
  · have hlocked := hcovers claim.policy.proposer
    have hstake : claim.policy.proposerBond.toNat ≤
        (s.bond claim.policy.bondAsset claim.policy.proposer).locked.toNat := by
      obtain hstatus | ⟨_, hstatus⟩ := hstatus <;>
        simpa only [hstatus, stake, amountAt, and_self, if_true] using hlocked
    have hpays : ¬ (claim.policy.bondAsset = zeroDigest ∨ claim.policy.proposer = zeroDigest ∨
        claim.policy.proposerBond = 0) :=
      not_or.mpr ⟨Ne.symm hasset, not_or.mpr ⟨Ne.symm hproposer, hproposed⟩⟩
    obtain ⟨mid, haward⟩ := award_succeeds hstake hroom hpays
    exact step_advance (advance_releases hclaim hstatus hnow haward)
  · have hwinner := hchallenger _ _ hstatus
    rw [hstatus] at hcovers
    have hgiven : zeroDigest ∉ [claim.policy.bondAsset, challenger] := by
      simp only [mem_cons, not_mem_nil, or_false, not_or]
      exact ⟨hasset, Ne.symm hwinner⟩
    obtain ⟨_, hresolved⟩ := resolveBonds_succeeds hgiven hproposed hchallenged hcovers hroom
    exact step_advance (advance_rejects hclaim hstatus hnow hresolved)

def offered : Operation → ℕ
  | .creditEscrow _ _ amount => amount.toNat
  | _ => 0

theorem escrowTotal_le_offered (sha256 : Bytes → Digest32) (ops : List Operation)
    (asset : Digest32) : escrowTotal (runOf sha256 ops).state asset ≤
      ((runOf sha256 ops).events.map fun event => offered event.1).sum := by
  have htotal := OptimisticConservation.run_total sha256 ops asset
  have hoffered : OptimisticConservation.credited (runOf sha256 ops).events asset ≤
      ((runOf sha256 ops).events.map fun event => offered event.1).sum := by
    refine sum_le_sum fun event _ => ?_
    unfold OptimisticConservation.creditedBy
    split
    · split
      · exact le_rfl
      · exact Nat.zero_le _
    · exact Nat.zero_le _
  omega

theorem no_claim_stuck_sample :
    (step (fun _ => repeated 9) (runOf (fun _ => repeated 9) sampleDispute).state
      (.advance (repeated 9) 60)).1 = .ok .done ∧
    (step (fun _ => repeated 9) (runOf (fun _ => repeated 9) sampleDispute).state
      (.advance (repeated 9) 60)).2.claim (repeated 9) =
        some (sampleClaim (.rejected (repeated 11) none)) :=
  (no_claim_stuck (fun _ => repeated 9) sampleDispute
    (fun asset => (escrowTotal_le_offered _ _ asset).trans (by decide +kernel)) (repeated 9)
    (sampleClaim (.challenged (repeated 11) 60)) (by decide +kernel)).2.1 (repeated 11) 60 60 rfl
    (by decide)

end Zkpi.OptimisticProgress
