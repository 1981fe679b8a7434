import Zkpi.OptimisticCollateral

/-!
# Transitions of the optimistic state machine

A claim has a lifecycle of its own: it is challenged, defended, refuted,
finalized or timed out, each under the conditions its edge lists. The faithful
operations refine that lifecycle: a successful call either leaves all claims
alone, opens one claim for a job that had none, or moves one claim along one
edge. A failing call changes nothing, because every operation works on a copy
and stores it last.
-/

namespace Zkpi.OptimisticTransitions

open ByteText CheckedIntegers KeyedTables OptimisticMachine OptimisticCollateral
open StatefulMethods.Method
open OptimisticMachine.OptimisticState

/-! ## The lifecycle of one claim -/

/-- The moves of one claim: which call moves it, under which conditions, and
to which status. -/
inductive Edge (id : Digest32) (claim : Claim) : Operation → ClaimStatus → Prop where
  | challenged {request : Challenge} {now : UInt64} {authentication : ClaimAuthentication}
      {deadline : UInt64} (target : request.claim = id) (status : claim.status = .pending)
      (opened : claim.acceptedAt ≤ now) (before : now < claim.challengeDeadline)
      (other : request.challenger ≠ claim.policy.proposer)
      (window : deadline.toNat = now.toNat + claim.policy.responseWindowSeconds.toNat) :
      Edge id claim (.challenge request now authentication)
        (.challenged request.challenger deadline)
  /-- The enrolled verifier confirms the claimed output in time. -/
  | defended {proof : Bytes} {verifier : ChallengeVerifier} {now : UInt64}
      {challenger : Digest32} {deadline : UInt64} {evidence : Digest32}
      (status : claim.status = .challenged challenger deadline)
      (opened : claim.acceptedAt ≤ now) (before : now < deadline)
      (enrolled : verifier.verifierId = claim.policy.verifier)
      (proved : verifier.verify claim.proposal.context proof = .ok claim.proposal.outputRoot) :
      Edge id claim (.answer id proof verifier now) (.proven evidence)
  /-- The enrolled verifier establishes another output in time. -/
  | refuted {proof : Bytes} {verifier : ChallengeVerifier} {now : UInt64}
      {challenger : Digest32} {deadline : UInt64} {output evidence : Digest32}
      (status : claim.status = .challenged challenger deadline)
      (opened : claim.acceptedAt ≤ now) (before : now < deadline)
      (enrolled : verifier.verifierId = claim.policy.verifier)
      (proved : verifier.verify claim.proposal.context proof = .ok output)
      (differs : output ≠ claim.proposal.outputRoot) :
      Edge id claim (.answer id proof verifier now) (.rejected challenger (some evidence))
  | unchallenged {now : UInt64} (status : claim.status = .pending)
      (elapsed : claim.challengeDeadline ≤ now) :
      Edge id claim (.advance id now) (.finalized none)
  | upheld {now : UInt64} {proof : Digest32} (status : claim.status = .proven proof)
      (elapsed : claim.challengeDeadline ≤ now) :
      Edge id claim (.advance id now) (.finalized (some proof))
  | timedOut {now : UInt64} {challenger : Digest32} {deadline : UInt64}
      (status : claim.status = .challenged challenger deadline) (elapsed : deadline ≤ now) :
      Edge id claim (.advance id now) (.rejected challenger none)

def openedClaim (proposal : Proposal) (policy : OptimisticPolicy) (now deadline : UInt64) :
    Claim where
  proposal := proposal
  policy := policy
  acceptedAt := now
  challengeDeadline := deadline
  status := .pending

inductive Paid (policy : OptimisticPolicy) (s s' : OptimisticState) :
    ClaimStatus → ClaimStatus → Prop where
  | challenged {challenger : Digest32} {deadline : UInt64}
      (h : lock policy.bondAsset challenger policy.challengerBond s = (.ok (), s')) :
      Paid policy s s' .pending (.challenged challenger deadline)
  | defended {challenger evidence : Digest32} {deadline : UInt64}
      (h : award policy.bondAsset challenger policy.proposer policy.challengerBond s =
        (.ok (), s')) : Paid policy s s' (.challenged challenger deadline) (.proven evidence)
  | resolved {challenger : Digest32} {deadline : UInt64} {evidence : Option Digest32}
      (h : resolveBonds policy challenger false s = (.ok (), s')) :
      Paid policy s s' (.challenged challenger deadline) (.rejected challenger evidence)
  | released {status : ClaimStatus} {evidence : Option Digest32}
      (held : status = .pending ∨ ∃ proof, status = .proven proof)
      (h : unlock policy.bondAsset policy.proposer policy.proposerBond s = (.ok (), s')) :
      Paid policy s s' status (.finalized evidence)

def Moved (s s' : OptimisticState) (id : Digest32) (op : Operation) : Prop :=
  ∃ claim status mid, s.claim id = some claim ∧ Edge id claim op status ∧
    Paid claim.policy s mid claim.status status ∧
    s' = mid.setClaim id { claim with status := status }

variable {s s' : OptimisticState} {id : Digest32} {claim : Claim}

theorem Paid.reallots {policy : OptimisticPolicy} {before after : ClaimStatus}
    (h : Paid policy s s' before after) : Reallots s s' := by
  cases h with
  | challenged h => exact lock_ok h
  | defended h => exact award_ok h
  | resolved h => exact resolveBonds_ok h
  | released _ h => exact award_ok h

theorem claim_insert (h : s'.claims = s.claims.insert (hexEncode id.toList) claim)
    (id' : Digest32) :
    s'.claim id' = if id' = id then some claim else s.claim id' := by
  simp only [OptimisticState.claim, h, lookup_insert_ite, hexEncode_digest_inj]

/-! ## What each successful operation did -/

variable {sha256 : Bytes → Digest32} {now : UInt64} {authentication : ClaimAuthentication}

theorem propose_ok (h : propose sha256 proposal now authentication s = (.ok id, s')) :
    ∃ policy deadline execution mid, id = proposal.id sha256 ∧
      proposal.verify sha256 policy now authentication = .ok () ∧
      hexEncode id.toList ∉ s.claims ∧ jobKey sha256 proposal.context ∉ s.jobs ∧
      s.executions.lookup (jobKey sha256 proposal.context) = some execution ∧
      deadline.toNat + policy.responseWindowSeconds.toNat ≤ execution.validUntil.toNat ∧
      lock policy.bondAsset policy.proposer policy.proposerBond s = (.ok (), mid) ∧
      s' = { mid.setClaim id (openedClaim proposal policy now deadline) with
        jobs := mid.jobs.insert (jobKey sha256 proposal.context) id } := by
  simp only [propose, bind_ok, read_ok, need_ok, lift_ok, failIf_ok, onCopy_ok, write_ok,
    pure_ok, checkedAdd_eq_some, not_or] at h
  obtain ⟨_, _, ⟨rfl, rfl⟩, policy, _, ⟨_, rfl⟩, _, _, ⟨hverify, rfl⟩, execution, _,
    ⟨hexecution, rfl⟩, _, _, ⟨⟨_, _, _, hwindows⟩, rfl⟩, _, _, ⟨⟨hclaims, hjobs⟩, rfl⟩, deadline, _,
    ⟨hdeadline, rfl⟩, mid, _, ⟨hlock, rfl⟩, _, _, hwrite, rfl, rfl⟩ := h
  refine ⟨policy, deadline, execution, mid, rfl, hverify, hclaims, hjobs, hexecution, ?_, hlock,
    hwrite.symm⟩
  rw [checkedAdd_eq_some.mpr hdeadline, Option.bind_some] at hwindows
  cases hlast : checkedAdd deadline policy.responseWindowSeconds with
  | none =>
    rw [hlast] at hwindows
    exact absurd rfl hwindows
  | some =>
    rw [hlast, Option.all_some, decide_eq_true_eq, UInt64.not_lt] at hwindows
    rw [← checkedAdd_eq_some.mp hlast]
    exact UInt64.le_iff_toNat_le.mp hwindows

theorem challenge_ok (h : challenge sha256 request now authentication s = (.ok (), s')) :
    Moved s s' request.claim (.challenge request now authentication) := by
  simp only [challenge, bind_ok, read_ok, need_ok, lift_ok, failIf_ok, onCopy_ok, write_ok,
    checkedAdd_eq_some, not_or, not_not, ge_iff_le, UInt64.not_le, UInt64.not_lt] at h
  obtain ⟨_, _, ⟨_, rfl⟩, _, _, ⟨rfl, rfl⟩, claim, _, ⟨hclaim, rfl⟩, _, _,
    ⟨⟨hstatus, hopened, hbefore⟩, rfl⟩, _, _, ⟨hother, rfl⟩, _, _, ⟨hwindow, rfl⟩,
    mid, _, ⟨hlock, rfl⟩, hwrite⟩ := h
  exact ⟨claim, _, mid, hclaim, .challenged rfl hstatus hopened hbefore hother hwindow,
    hstatus ▸ .challenged hlock, hwrite.symm⟩

theorem answer_ok (h : answer sha256 id proof verifier now s = (.ok (), s')) :
    Moved s s' id (.answer id proof verifier now) := by
  simp only [answer, bind_ok, read_ok, need_ok] at h
  obtain ⟨_, _, ⟨rfl, rfl⟩, claim, _, ⟨hclaim, rfl⟩, h⟩ := h
  cases hstatus : claim.status with
  | challenged challenger deadline =>
    simp only [hstatus, bind_ok, failIf_ok, lift_ok, not_or, not_not, ge_iff_le, UInt64.not_le,
      UInt64.not_lt] at h
    obtain ⟨_, _, ⟨⟨hopened, hbefore, henrolled⟩, rfl⟩, _, _, ⟨hproved, rfl⟩, h⟩ := h
    split_ifs at h with houtput
    · simp only [bind_ok, onCopy_ok, write_ok] at h
      obtain ⟨mid, _, ⟨haward, rfl⟩, hwrite⟩ := h
      rw [houtput] at hproved
      exact ⟨claim, _, mid, hclaim, .defended hstatus hopened hbefore henrolled hproved,
        hstatus ▸ .defended haward, hwrite.symm⟩
    · simp only [bind_ok, onCopy_ok, write_ok] at h
      obtain ⟨mid, _, ⟨hresolve, rfl⟩, hwrite⟩ := h
      exact ⟨claim, _, mid, hclaim,
        .refuted hstatus hopened hbefore henrolled hproved houtput,
        hstatus ▸ .resolved hresolve, hwrite.symm⟩
  | pending | proven | finalized | rejected => simp only [hstatus, fail_ok] at h

theorem finalize_ok (h : finalize self id claim proof s = (.ok (), s')) :
    ∃ mid, unlock claim.policy.bondAsset claim.policy.proposer claim.policy.proposerBond self =
      (.ok (), mid) ∧ s' = mid.setClaim id { claim with status := .finalized proof } := by
  simp only [finalize, bind_ok, onCopy_ok, write_ok] at h
  obtain ⟨mid, _, ⟨hunlock, rfl⟩, hwrite⟩ := h
  exact ⟨mid, hunlock, hwrite.symm⟩

theorem advance_ok (h : advance id now s = (.ok (), s')) : Moved s s' id (.advance id now) := by
  simp only [advance, bind_ok, read_ok, need_ok] at h
  obtain ⟨_, _, ⟨rfl, rfl⟩, claim, _, ⟨hclaim, rfl⟩, h⟩ := h
  cases hstatus : claim.status with
  | pending =>
    simp only [hstatus, bind_ok, failIf_ok, UInt64.not_lt] at h
    obtain ⟨_, _, ⟨helapsed, rfl⟩, hfinal⟩ := h
    obtain ⟨mid, hmid, hs⟩ := finalize_ok hfinal
    exact ⟨claim, _, mid, hclaim, .unchallenged hstatus helapsed, .released (.inl hstatus) hmid, hs⟩
  | proven =>
    simp only [hstatus, bind_ok, failIf_ok, UInt64.not_lt] at h
    obtain ⟨_, _, ⟨helapsed, rfl⟩, hfinal⟩ := h
    obtain ⟨mid, hmid, hs⟩ := finalize_ok hfinal
    exact ⟨claim, _, mid, hclaim, .upheld hstatus helapsed, .released (.inr ⟨_, hstatus⟩) hmid, hs⟩
  | challenged =>
    simp only [hstatus, bind_ok, failIf_ok, onCopy_ok, write_ok, UInt64.not_lt] at h
    obtain ⟨_, _, ⟨helapsed, rfl⟩, mid, _, ⟨hresolve, rfl⟩, hwrite⟩ := h
    exact ⟨claim, _, mid, hclaim, .timedOut hstatus helapsed, hstatus ▸ .resolved hresolve,
      hwrite.symm⟩
  | finalized => simp only [hstatus, fail_ok] at h
  | rejected => simp only [hstatus, fail_ok] at h

theorem enrollPolicy_ok {policy : OptimisticPolicy}
    (h : enrollPolicy sha256 policy s = (.ok id, s')) :
    s' = { s with policies := s.policies.insert (hexEncode id.toList) policy } := by
  simp only [enrollPolicy, bind_ok, lift_ok, read_ok, failIf_ok, write_ok, pure_ok] at h
  obtain ⟨_, _, ⟨_, rfl⟩, _, _, ⟨rfl, rfl⟩, _, _, ⟨_, rfl⟩, _, _, rfl, rfl, rfl⟩ := h
  rfl

theorem registerExecution_ok (h : registerExecution sha256 execution s = (.ok (), s')) :
    jobKey sha256 execution.context ∉ s.executions ∧ s' = { s with
      executions := s.executions.insert (jobKey sha256 execution.context) execution } := by
  simp only [registerExecution, bind_ok, read_ok, need_ok, failIf_ok, write_ok] at h
  obtain ⟨_, _, ⟨rfl, rfl⟩, _, _, ⟨_, rfl⟩, _, _, ⟨_, rfl⟩, _, _, ⟨hnew, rfl⟩, rfl⟩ := h
  exact ⟨hnew, rfl⟩

/-! ## One step -/

/-- What a successful call did to the claims and to the job index. -/
inductive Change (sha256 : Bytes → Digest32) (s s' : OptimisticState) : Operation → Prop where
  /-- The call concerned policies, executions or escrow only. -/
  | aside {op : Operation} (plain : ∀ request now authentication,
        op ≠ .challenge request now authentication)
      (claims : s'.claims = s.claims) (jobs : s'.jobs = s.jobs) : Change sha256 s s' op
  | opened {proposal : Proposal} {now : UInt64} {authentication : ClaimAuthentication}
      (policy : OptimisticPolicy) (deadline : UInt64)
      (fresh : s.claim (proposal.id sha256) = none)
      (free : s.jobs.lookup (jobKey sha256 proposal.context) = none)
      (claims : s'.claims = s.claims.insert (hexEncode (proposal.id sha256).toList)
        (openedClaim proposal policy now deadline))
      (jobs : s'.jobs = s.jobs.insert (jobKey sha256 proposal.context) (proposal.id sha256)) :
      Change sha256 s s' (.propose proposal now authentication)
  | moved {op : Operation} {id : Digest32} {claim : Claim} {status : ClaimStatus}
      (found : s.claim id = some claim) (edge : Edge id claim op status)
      (claims : s'.claims = s.claims.insert (hexEncode id.toList) { claim with status := status })
      (jobs : s'.jobs = s.jobs) : Change sha256 s s' op

theorem Moved.change (h : Moved s s' id op) : Change sha256 s s' op := by
  obtain ⟨_, _, _, hfound, hedge, hpaid, rfl⟩ := h
  have hmid := hpaid.reallots
  refine .moved hfound hedge ?_ ?_
  · simp only [setClaim, hmid.claims]
  · simp only [setClaim, hmid.jobs]

theorem step_change (h : step sha256 s op = (.ok reply, s')) : Change sha256 s s' op := by
  cases op with
  | enrollPolicy =>
    obtain ⟨id, hid, _⟩ := map_ok.mp h
    rw [enrollPolicy_ok hid]
    exact .aside (by intros; exact Operation.noConfusion) rfl rfl
  | registerExecution =>
    obtain ⟨_, hdone, _⟩ := map_ok.mp h
    rw [(registerExecution_ok hdone).2]
    exact .aside (by intros; exact Operation.noConfusion) rfl rfl
  | creditEscrow =>
    obtain ⟨_, hdone, _⟩ := map_ok.mp h
    obtain ⟨account, _, rfl⟩ := creditEscrow_ok hdone
    exact .aside (by intros; exact Operation.noConfusion) rfl rfl
  | withdrawEscrow =>
    obtain ⟨_, hdone, _⟩ := map_ok.mp h
    obtain ⟨_, _, rfl⟩ := withdrawEscrow_ok hdone
    exact .aside (by intros; exact Operation.noConfusion) rfl rfl
  | propose =>
    obtain ⟨_, hid, _⟩ := map_ok.mp h
    obtain ⟨policy, deadline, _, _, rfl, _, hclaims, hjobs, _, _, hlock, rfl⟩ := propose_ok hid
    have hmid := lock_ok hlock
    refine .opened policy deadline (Finmap.lookup_eq_none.mpr hclaims)
      (Finmap.lookup_eq_none.mpr hjobs) ?_ ?_
    · simp only [setClaim, hmid.claims]
    · simp only [hmid.jobs]
  | challenge =>
    obtain ⟨_, hdone, _⟩ := map_ok.mp h
    exact (challenge_ok hdone).change
  | answer =>
    obtain ⟨_, hdone, _⟩ := map_ok.mp h
    exact (answer_ok hdone).change
  | advance =>
    obtain ⟨_, hdone, _⟩ := map_ok.mp h
    exact (advance_ok hdone).change

/-! ## Failing calls -/

theorem propose_atomic : Atomic (propose sha256 proposal now authentication) :=
  atomic_bind readOnly_read fun _ =>
  atomic_bind readOnly_need fun _ =>
  atomic_bind readOnly_lift fun _ =>
  atomic_bind readOnly_need fun _ =>
  atomic_bind readOnly_failIf fun _ =>
  atomic_bind readOnly_failIf fun _ =>
  atomic_bind readOnly_need fun _ =>
  atomic_bind readOnly_onCopy fun _ =>
  atomic_write_pure

theorem challenge_atomic : Atomic (challenge sha256 request now authentication) :=
  atomic_bind readOnly_lift fun _ =>
  atomic_bind readOnly_read fun _ =>
  atomic_bind readOnly_need fun _ =>
  atomic_bind readOnly_failIf fun _ =>
  atomic_bind readOnly_failIf fun _ =>
  atomic_bind readOnly_need fun _ =>
  atomic_bind readOnly_onCopy fun _ =>
  atomic_write

theorem answer_atomic : Atomic (answer sha256 id proof verifier now) := by
  apply atomic_bind readOnly_read
  intro self
  apply atomic_bind readOnly_need
  intro claim
  split
  · apply atomic_bind readOnly_failIf
    intro _
    apply atomic_bind readOnly_lift
    intro output
    dsimp only
    split <;> exact atomic_bind readOnly_onCopy fun _ => atomic_write
  · exact readOnly_fail.atomic

theorem finalize_atomic : Atomic (finalize self id claim proof) :=
  atomic_bind readOnly_onCopy fun _ => atomic_write

theorem advance_atomic : Atomic (advance id now) := by
  apply atomic_bind readOnly_read
  intro self
  apply atomic_bind readOnly_need
  intro claim
  split
  · exact atomic_bind readOnly_failIf fun _ => finalize_atomic
  · exact atomic_bind readOnly_failIf fun _ => finalize_atomic
  · exact atomic_bind readOnly_failIf fun _ =>
      atomic_bind readOnly_onCopy fun _ => atomic_write
  · exact readOnly_fail.atomic

theorem method_atomic {op : Operation} : Atomic (op.method sha256) := by
  cases op with
  | enrollPolicy policy =>
    exact (atomic_bind readOnly_lift fun _ => atomic_bind readOnly_read fun _ =>
      atomic_bind readOnly_failIf fun _ => atomic_write_pure : Atomic
        (enrollPolicy sha256 policy)).map _
  | registerExecution execution =>
    exact (atomic_bind readOnly_read fun _ => atomic_bind readOnly_need fun _ =>
      atomic_bind readOnly_failIf fun _ => atomic_bind readOnly_failIf fun _ =>
      atomic_write : Atomic (registerExecution sha256 execution)).map _
  | creditEscrow asset owner amount =>
    exact (atomic_bind readOnly_failIf fun _ => atomic_bind readOnly_read fun _ =>
      atomic_bind readOnly_need fun _ => atomic_write : Atomic
        (creditEscrow asset owner amount)).map _
  | withdrawEscrow asset owner amount =>
    exact (atomic_bind readOnly_failIf fun _ => atomic_bind readOnly_read fun _ =>
      atomic_bind readOnly_need fun _ => atomic_write : Atomic
        (withdrawEscrow asset owner amount)).map _
  | propose => exact propose_atomic.map _
  | challenge => exact challenge_atomic.map _
  | answer => exact answer_atomic.map _
  | advance => exact advance_atomic.map _

theorem step_error (h : step sha256 s op = (.error message, s')) : s' = s :=
  method_atomic s message s' h

end Zkpi.OptimisticTransitions
