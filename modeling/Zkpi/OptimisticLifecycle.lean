import Zkpi.OptimisticTransitions

/-!
# The lifecycle of a claim over whole runs

The recorded history of a run explains the status of every claim. A finalized
claim was advanced after its challenge deadline, and up to that call it was
either never challenged or challenged once and defended in time by the enrolled
verifier with exactly the claimed output. A refuted or timed-out claim is
rejected, and a terminal status never changes again. Clocks are whatever each
call was given; nothing assumes that they increase.
-/

namespace Zkpi.OptimisticLifecycle

open ByteText OptimisticMachine OptimisticTransitions RecordedRuns List
open StatefulMethods.Method

def challengesOf (id : Digest32) (events : List Event) : List (Challenge × UInt64) :=
  events.filterMap fun
    | (.challenge request now _, .ok _) => if request.claim = id then some (request, now) else none
    | _ => none

/-- Exactly one challenge succeeded, and an answer inside its response window
used the enrolled verifier and established exactly the claimed output. -/
def Defended (id : Digest32) (claim : Claim) (events : List Event) : Prop :=
  ∃ request challengedAt, challengesOf id events = [(request, challengedAt)] ∧
    ∃ proof verifier now reply, (.answer id proof verifier now, .ok reply) ∈ events ∧
      claim.acceptedAt ≤ now ∧
      now.toNat < challengedAt.toNat + claim.policy.responseWindowSeconds.toNat ∧
      verifier.verifierId = claim.policy.verifier ∧
      verifier.verify claim.proposal.context proof = .ok claim.proposal.outputRoot

/-- A successful advance at or after the challenge deadline, before which the
claim was never challenged or was defended. -/
def FinalizedBy (id : Digest32) (claim : Claim) (events : List Event) : Prop :=
  ∃ before now reply after, events = before ++ (.advance id now, .ok reply) :: after ∧
    claim.challengeDeadline ≤ now ∧ (challengesOf id before = [] ∨ Defended id claim before)

def History (id : Digest32) (events : List Event) : Option Claim → Prop
  | none => challengesOf id events = []
  | some claim =>
    match claim.status with
    | .pending => challengesOf id events = []
    | .challenged _ deadline => ∃ request challengedAt,
      challengesOf id events = [(request, challengedAt)] ∧
        deadline.toNat = challengedAt.toNat + claim.policy.responseWindowSeconds.toNat
    | .proven _ => Defended id claim events
    | .finalized _ => FinalizedBy id claim events
    | .rejected _ _ => True

def Terminal : ClaimStatus → Prop
  | .finalized _ => True
  | .rejected _ _ => True
  | _ => False

/-! ## Extending a history -/

theorem challengesOf_append (id : Digest32) (first second : List Event) :
    challengesOf id (first ++ second) = challengesOf id first ++ challengesOf id second :=
  filterMap_append

variable {id : Digest32} {op : Operation}

theorem challengesOf_other
    (h : ∀ request now authentication, op = .challenge request now authentication → request.claim ≠
      id) : challengesOf id [(op, result)] = [] := by
  cases op with
  | challenge =>
    cases result with
    | ok => simp [challengesOf, h _ _ _ rfl]
    | error => rfl
  | _ => rfl

theorem challengesOf_error (id : Digest32) (op : Operation) (message : String) :
    challengesOf id [(op, .error message)] = [] := by
  cases op <;> rfl

variable {claim : Claim} {events : List Event}

theorem Defended.extend (hevent : challengesOf id [event] = []) (h : Defended id claim events) :
    Defended id claim (events ++ [event]) := by
  obtain ⟨request, challengedAt, honce, proof, verifier, now, reply, hmem, hrest⟩ := h
  refine ⟨request, challengedAt, ?_, proof, verifier, now, reply, ?_, hrest⟩
  · rw [challengesOf_append, hevent, append_nil, honce]
  · exact mem_append_left _ hmem

theorem FinalizedBy.extend (event : Event) (h : FinalizedBy id claim events) :
    FinalizedBy id claim (events ++ [event]) := by
  obtain ⟨before, now, reply, after, rfl, hrest⟩ := h
  refine ⟨before, now, reply, after ++ [event], ?_, hrest⟩
  simp

theorem history_extend {claim : Option Claim} (hevent : challengesOf id [event] = [])
    (h : History id events claim) : History id (events ++ [event]) claim := by
  have hsame : challengesOf id (events ++ [event]) = challengesOf id events := by
    rw [challengesOf_append, hevent, append_nil]
  cases claim with
  | none => simpa only [History, hsame] using h
  | some claim =>
    cases hstatus : claim.status with
    | pending | challenged => simpa only [History, hstatus, hsame] using h
    | proven =>
      simp only [History, hstatus] at h ⊢
      exact h.extend hevent
    | finalized =>
      simp only [History, hstatus] at h ⊢
      exact h.extend event
    | rejected => simp only [History, hstatus]

variable {status : ClaimStatus}

theorem history_edge (reply : Reply) (h : History id events (some claim))
    (hedge : Edge id claim op status) :
    History id (events ++ [(op, .ok reply)]) (some { claim with status := status }) := by
  cases hedge with
  | challenged target hstatus hopened hbefore hother hwindow =>
    rename_i request now authentication deadline
    simp only [History, hstatus] at h ⊢
    refine ⟨request, now, ?_, hwindow⟩
    rw [challengesOf_append, h]
    simp [challengesOf, target]
  | defended hstatus hopened hbefore henrolled hproved =>
    rename_i proof verifier now challenger deadline evidence
    simp only [History, hstatus] at h ⊢
    obtain ⟨request, challengedAt, honce, hdeadline⟩ := h
    have hlt := UInt64.lt_iff_toNat_lt.mp hbefore
    refine ⟨request, challengedAt, ?_, proof, verifier, now, reply, ?_, hopened, ?_, henrolled,
      hproved⟩
    · rw [challengesOf_append, honce]
      rfl
    · exact mem_append_right _ (mem_singleton.mpr rfl)
    · dsimp only
      omega
  | refuted => simp only [History]
  | unchallenged hstatus helapsed =>
    rename_i now
    simp only [History, hstatus] at h ⊢
    exact ⟨events, now, reply, [], rfl, helapsed, Or.inl h⟩
  | upheld hstatus helapsed =>
    rename_i now proof
    simp only [History, hstatus] at h ⊢
    exact ⟨events, now, reply, [], rfl, helapsed, Or.inr h⟩
  | timedOut => simp only [History]

variable {now : UInt64}

theorem edge_challenge_target (hedge : Edge id claim op status)
    (hop : op = .challenge request now authentication) : request.claim = id := by
  cases hedge with
  | challenged target =>
    cases hop
    exact target
  | _ => cases hop

variable {s : OptimisticState}

theorem history_change {sha256 : Bytes → Digest32} {s' : OptimisticState} (reply : Reply)
    (h : History id events (s.claim id)) (hchange : Change sha256 s s' op) :
    History id (events ++ [(op, .ok reply)]) (s'.claim id) := by
  cases hchange with
  | aside plain claims =>
    have hsame : s'.claim id = s.claim id := by
      simp only [OptimisticState.claim, claims]
    rw [hsame]
    exact history_extend (challengesOf_other fun r n a hop => absurd hop (plain r n a)) h
  | opened policy deadline fresh free claims jobs =>
    rename_i proposal now authentication
    have hquiet : challengesOf id [(.propose proposal now authentication, .ok reply)] = [] := rfl
    rw [claim_insert claims]
    split_ifs with hid
    · rw [hid] at h hquiet ⊢
      rw [fresh] at h
      exact history_extend hquiet h
    · exact history_extend hquiet h
  | moved found edge claims jobs =>
    rename_i moved claim status
    rw [claim_insert claims]
    split_ifs with hid
    · subst hid
      rw [found] at h
      exact history_edge reply h edge
    · refine history_extend (challengesOf_other ?_) h
      intro request now authentication hop htarget
      exact hid (htarget.symm.trans (edge_challenge_target edge hop))

variable (sha256 : Bytes → Digest32)

theorem history_step (id : Digest32) (events : List Event) (s : OptimisticState) (op : Operation)
    (h : History id events (s.claim id)) :
    History id (events ++ [(op, (step sha256 s op).1)]) ((step sha256 s op).2.claim id) := by
  cases hstep : step sha256 s op with
  | mk result =>
    cases result with
    | ok reply => exact history_change reply h (step_change hstep)
    | error message =>
      rw [step_error hstep]
      exact history_extend (challengesOf_error id op message) h

theorem run_history (ops : List Operation) (id : Digest32) :
    History id (runOf sha256 ops).events ((runOf sha256 ops).state.claim id) := by
  apply run_induction (step sha256) (P := fun events s => History id events (s.claim id))
  · exact (rfl : challengesOf id [] = [])
  · exact history_step sha256 id

/-! ## Terminal claims -/

theorem edge_not_terminal (h : Edge id claim op status) : ¬ Terminal claim.status := by
  cases h with
  | challenged _ hstatus => simp only [hstatus, Terminal, not_false_eq_true]
  | defended hstatus | refuted hstatus | unchallenged hstatus | upheld hstatus | timedOut hstatus =>
    simp [hstatus, Terminal]

/-- A step leaves a claim as it is or moves it along an edge. -/
theorem claim_step (op : Operation) (hclaim : s.claim id = some claim) :
    (step sha256 s op).2.claim id = some claim ∨ ∃ status, Edge id claim op status ∧
      (step sha256 s op).2.claim id = some { claim with status := status } := by
  cases hstep : step sha256 s op with
  | mk result s' =>
    cases result with
    | error =>
      rw [step_error hstep]
      exact .inl hclaim
    | ok reply =>
      cases step_change hstep with
      | aside plain claims =>
        rw [← hclaim]
        simp [OptimisticState.claim, claims]
      | opened policy deadline fresh free claims =>
        rw [claim_insert claims, if_neg]
        · exact .inl hclaim
        · rintro rfl
          rw [fresh] at hclaim
          cases hclaim
      | moved found edge claims jobs =>
        rename_i moved claim' status
        rw [claim_insert claims]
        by_cases hid : id = moved
        · subst hid
          rw [hclaim] at found
          cases found
          exact .inr ⟨status, edge, if_pos rfl⟩
        · rw [if_neg hid]
          exact .inl hclaim

theorem terminal_step (op : Operation) (hclaim : s.claim id = some claim)
    (hterminal : Terminal claim.status) :
    (step sha256 s op).2.claim id = some claim := by
  obtain h | ⟨_, hedge, _⟩ := claim_step sha256 op hclaim
  · exact h
  · exact absurd hterminal (edge_not_terminal hedge)

theorem terminal_run (hclaim : s.claim id = some claim) (hterminal : Terminal claim.status)
    (ops : List Operation) :
    (run (step sha256) s ops).state.claim id = some claim :=
  run_preserves (step sha256) (P := fun s => s.claim id = some claim)
    (fun _ op h => terminal_step sha256 op h hterminal) hclaim ops

theorem claim_of_move (hclaim : s.claim id = some claim) (h : Moved s s' id op) :
    ∃ status, Edge id claim op status ∧ s'.claim id = some { claim with status := status } := by
  obtain ⟨_, status, mid, hclaim', hedge, _, rfl⟩ := h
  rw [hclaim] at hclaim'
  cases hclaim'
  refine ⟨status, hedge, ?_⟩
  have hstored : (mid.setClaim id { claim with status := status }).claims =
      mid.claims.insert (hexEncode id.toList) { claim with status := status } := rfl
  rw [claim_insert hstored, if_pos rfl]

variable {reply : Reply}

theorem answer_rejects (hclaim : s.claim id = some claim)
    (hok : (step sha256 s (.answer id proof verifier now)).1 = .ok reply)
    (hproved : verifier.verify claim.proposal.context proof = .ok output)
    (hdiffers : output ≠ claim.proposal.outputRoot) :
    ∃ challenger evidence, (step sha256 s (.answer id proof verifier now)).2.claim id =
      some { claim with status := .rejected challenger evidence } := by
  obtain ⟨_, hdone, _⟩ := map_ok.mp (Prod.ext hok rfl : step sha256 s _ = (.ok reply, _))
  obtain ⟨_, hedge, hstored⟩ := claim_of_move hclaim (answer_ok hdone)
  cases hedge with
  | defended _ _ _ _ hclaimed =>
    rw [hproved] at hclaimed
    cases hclaimed
    exact absurd rfl hdiffers
  | refuted => exact ⟨_, _, hstored⟩

theorem advance_rejects
    (hclaim : s.claim id = some claim) (hstatus : claim.status = .challenged challenger deadline)
    (hok : (step sha256 s (.advance id now)).1 = .ok reply) :
    deadline ≤ now ∧ (step sha256 s (.advance id now)).2.claim id =
      some { claim with status := .rejected challenger none } := by
  obtain ⟨_, hdone, _⟩ := map_ok.mp (Prod.ext hok rfl : step sha256 s _ = (.ok reply, _))
  obtain ⟨_, hedge, hstored⟩ := claim_of_move hclaim (advance_ok hdone)
  cases hedge with
  | unchallenged hpending => rw [hstatus] at hpending; cases hpending
  | upheld hproven => rw [hstatus] at hproven; cases hproven
  | timedOut hchallenged helapsed =>
    rw [hstatus] at hchallenged
    cases hchallenged
    exact ⟨helapsed, hstored⟩

/-- In every run from the empty state, with any clocks:

* a claim is finalized only if a successful advance ran at or after its
  challenge deadline, before which it was never successfully challenged, or was
  challenged exactly once and answered inside that challenge's response window
  by the enrolled verifier with exactly the claimed output;
* a claim whose challenge was answered with a verified different output is
  rejected from then on;
* a claim whose response deadline an advance used is rejected from then on;
* a finalized or rejected claim never changes again. -/
theorem claim_lifecycle (sha256 : Bytes → Digest32) (first second : List Operation)
    (id : Digest32) (claim : Claim)
    (hclaim : (runOf sha256 first).state.claim id = some claim) :
    (∀ proof, claim.status = .finalized proof → FinalizedBy id claim (runOf sha256 first).events) ∧
    (∀ proof verifier now output reply,
      (step sha256 (runOf sha256 first).state (.answer id proof verifier now)).1 = .ok reply →
      verifier.verify claim.proposal.context proof = .ok output →
      output ≠ claim.proposal.outputRoot →
      ∃ challenger evidence,
        (runOf sha256 (first ++ .answer id proof verifier now :: second)).state.claim id =
          some { claim with status := .rejected challenger evidence }) ∧
    (∀ challenger deadline now reply, claim.status = .challenged challenger deadline →
      (step sha256 (runOf sha256 first).state (.advance id now)).1 = .ok reply →
      deadline ≤ now ∧ (runOf sha256 (first ++ .advance id now :: second)).state.claim id =
        some { claim with status := .rejected challenger none }) ∧
    (Terminal claim.status → (runOf sha256 (first ++ second)).state.claim id = some claim) := by
  refine ⟨?_, ?_, ?_, ?_⟩
  · intro proof hstatus
    have h := run_history sha256 first id
    simpa only [hclaim, History, hstatus] using h
  · intro proof verifier now output reply hok hproved hdiffers
    obtain ⟨challenger, evidence, hrejected⟩ :=
      answer_rejects sha256 hclaim hok hproved hdiffers
    refine ⟨challenger, evidence, ?_⟩
    rw [run_append_cons_state]
    exact terminal_run sha256 hrejected trivial second
  · intro challenger deadline now reply hstatus hok
    obtain ⟨helapsed, hrejected⟩ := advance_rejects sha256 hclaim hstatus hok
    refine ⟨helapsed, ?_⟩
    rw [run_append_cons_state]
    exact terminal_run sha256 hrejected trivial second
  · intro hterminal
    rw [run_append_state]
    exact terminal_run sha256 hclaim hterminal second

/-- A policy with a challenge window of one hundred and a response window of
fifty seconds. -/
def samplePolicy : OptimisticPolicy where
  network := repeated 1
  application := repeated 2
  verifier := repeated 3
  proposer := repeated 4
  bondAsset := repeated 5
  proposerBond := 10
  challengerBond := 4
  challengeWindowSeconds := 100
  responseWindowSeconds := 50

def sampleContext : ExecutionContext :=
  ⟨repeated 1, repeated 2, repeated 3, repeated 6, repeated 7, repeated 8⟩

def sampleProposal : Proposal := ⟨repeated 9, sampleContext, repeated 10, 500, []⟩

def sampleHost : ClaimAuthentication := ⟨fun _ _ _ => .ok ()⟩

def sampleVerifier (output : Digest32) : ChallengeVerifier := ⟨repeated 3, fun _ _ => .ok output⟩

/-- A funded proposal at time zero, challenged at time ten. -/
def sampleDispute : List Operation :=
  [.enrollPolicy samplePolicy, .registerExecution ⟨repeated 9, sampleContext, 1000⟩,
    .creditEscrow (repeated 5) (repeated 4) 10, .creditEscrow (repeated 5) (repeated 11) 4,
    .propose sampleProposal 0 sampleHost,
    .challenge ⟨repeated 9, repeated 11, []⟩ 10 sampleHost]

def sampleFinalized : List Operation :=
  sampleDispute ++ [.answer (repeated 9) [] (sampleVerifier (repeated 10)) 20,
    .advance (repeated 9) 100]

def sampleClaim (status : ClaimStatus) : Claim := ⟨sampleProposal, samplePolicy, 0, 100, status⟩

/-- The sample dispute with a defense finalizes as the history demands, with a
contradicting proof or without an answer it ends rejected. -/
theorem claim_lifecycle_dispute :
    FinalizedBy (repeated 9) (sampleClaim (.finalized (some (repeated 9))))
      (runOf (fun _ => repeated 9) sampleFinalized).events ∧
    (∃ challenger evidence, (runOf (fun _ => repeated 9) (sampleDispute ++
        [.answer (repeated 9) [] (sampleVerifier (repeated 12)) 20])).state.claim (repeated 9) =
      some (sampleClaim (.rejected challenger evidence))) ∧
    (runOf (fun _ => repeated 9) (sampleDispute ++
        [.advance (repeated 9) 60])).state.claim (repeated 9) =
      some (sampleClaim (.rejected (repeated 11) none)) := by
  have hfinal : (runOf (fun _ => repeated 9) sampleFinalized).state.claim (repeated 9) =
      some (sampleClaim (.finalized (some (repeated 9)))) := by decide +kernel
  have hopen : (runOf (fun _ => repeated 9) sampleDispute).state.claim (repeated 9) =
      some (sampleClaim (.challenged (repeated 11) 60)) := by decide +kernel
  have hanswer : (step (fun _ => repeated 9) (runOf (fun _ => repeated 9) sampleDispute).state
      (.answer (repeated 9) [] (sampleVerifier (repeated 12)) 20)).1 = .ok .done := by
    decide +kernel
  have hadvance : (step (fun _ => repeated 9) (runOf (fun _ => repeated 9) sampleDispute).state
      (.advance (repeated 9) 60)).1 = .ok .done := by decide +kernel
  obtain ⟨_, hrefuted, htimedOut, _⟩ := claim_lifecycle _ _ [] _ _ hopen
  exact ⟨(claim_lifecycle _ _ [] _ _ hfinal).1 _ rfl,
    hrefuted _ _ _ (repeated 12) _ hanswer rfl (by decide +kernel),
    (htimedOut _ _ _ _ rfl hadvance).2⟩

end Zkpi.OptimisticLifecycle
