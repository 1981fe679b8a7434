import Zkpi.OptimisticLifecycle

/-!
# One result for each execution

The job index ties every claim to its network, application and job. A state
reached by any run therefore holds at most one claim for such a triple, and
since a claim keeps its proposal for ever, settlement can only ever be shown
one context and one output for it. The argument needs no property of the hash
function: equal triples have equal job keys, and a second claim under a used
job key is refused.
-/

namespace Zkpi.OptimisticUniqueness

open ByteText KeyedTables OptimisticMachine OptimisticTransitions OptimisticLifecycle RecordedRuns
open OptimisticMachine.OptimisticState

def SameExecution (a b : ExecutionContext) : Prop :=
  a.network = b.network ∧ a.application = b.application ∧ a.job = b.job

def Indexed (sha256 : Bytes → Digest32) (s : OptimisticState) : Prop :=
  ∀ key claim, s.claims.lookup key = some claim →
    ∃ id : Digest32, key = hexEncode id.toList ∧
      s.jobs.lookup (jobKey sha256 claim.proposal.context) = some id

/-- The job key depends on the execution only. -/
theorem jobKey_congr (sha256 : Bytes → Digest32)
    (h : SameExecution a b) : jobKey sha256 a = jobKey sha256 b := by
  obtain ⟨hn, ha, hj⟩ := h
  simp only [jobKey, hn, ha, hj]

variable {sha256 : Bytes → Digest32} {s : OptimisticState}

theorem Indexed.unique (h : Indexed sha256 s)
    (hx : s.claims.lookup a = some x) (hy : s.claims.lookup b = some y)
    (hsame : SameExecution x.proposal.context y.proposal.context) : a = b := by
  obtain ⟨i, rfl, hi⟩ := h a x hx
  obtain ⟨j, rfl, hj⟩ := h b y hy
  rw [jobKey_congr sha256 hsame, hj] at hi
  cases hi
  rfl

theorem Indexed.change (h : Indexed sha256 s)
    (hchange : Change sha256 s s' op) : Indexed sha256 s' := by
  intro key claim hlookup
  cases hchange with
  | aside plain claims jobs =>
    rw [claims] at hlookup
    rw [jobs]
    exact h key claim hlookup
  | opened policy deadline fresh free claims jobs =>
    rename_i proposal now authentication
    rw [claims] at hlookup
    rw [jobs]
    obtain ⟨hkey, rfl⟩ | hlookup := lookup_insert_some hlookup
    · exact ⟨proposal.id sha256, hkey, by rw [lookup_insert_ite]; exact if_pos rfl⟩
    · obtain ⟨id, hkey, hid⟩ := h key claim hlookup
      refine ⟨id, hkey, ?_⟩
      rw [lookup_insert_ite, if_neg, hid]
      intro hjob
      rw [hjob, free] at hid
      cases hid
  | moved found edge claims jobs =>
    rw [claims] at hlookup
    rw [jobs]
    obtain ⟨hkey, rfl⟩ | hlookup := lookup_insert_some hlookup
    · obtain ⟨id, hid, hjob⟩ := h _ _ found
      exact ⟨id, hkey.trans hid, hjob⟩
    · exact h key claim hlookup

theorem run_indexed (sha256 : Bytes → Digest32) (ops : List Operation) :
    Indexed sha256 (runOf sha256 ops).state := by
  apply run_preserves (step sha256)
  · intro s op h
    cases hstep : step sha256 s op with
    | mk result =>
      cases result with
      | ok => exact h.change (step_change hstep)
      | error => rwa [step_error hstep]
  · intro _ _ hlookup
    cases hlookup

def Holds (s : OptimisticState) (id : Digest32) (proposal : Proposal) : Prop :=
  ∃ claim, s.claim id = some claim ∧ claim.proposal = proposal

variable {id : Digest32}

theorem holds_step (sha256 : Bytes → Digest32) (op : Operation) (h : Holds s id proposal) :
    Holds (step sha256 s op).2 id proposal := by
  obtain ⟨claim, hclaim, hproposal⟩ := h
  obtain hsame | ⟨_, _, hmoved⟩ := claim_step sha256 op hclaim
  · exact ⟨claim, hsame, hproposal⟩
  · exact ⟨_, hmoved, hproposal⟩

variable {context : ExecutionContext} {claim : Claim}

theorem requireFinalized_ok (h : s.requireFinalized id context outputRoot = .ok claim) :
    s.claim id = some claim ∧ claim.proposal.context = context ∧
      claim.proposal.outputRoot = outputRoot := by
  unfold requireFinalized at h
  split at h
  · cases h
  · rename_i found hfound
    split at h
    · cases h
    · rename_i hmatch
      cases h
      simp only [not_or, ne_eq, not_not] at hmatch
      exact ⟨hfound, hmatch.1, hmatch.2.1⟩

/-- A settlement check that succeeded at some moment of a run is backed by a
claim that the end of the run still holds. -/
theorem holds_of_requireFinalized (sha256 : Bytes → Digest32)
    (h : (runOf sha256 first).state.requireFinalized id context outputRoot = .ok claim)
    (rest : List Operation) : Holds (runOf sha256 (first ++ rest)).state id claim.proposal := by
  rw [run_append_state]
  exact run_preserves (step sha256) (P := fun s => Holds s id claim.proposal)
    (fun _ op hs => holds_step sha256 op hs) ⟨claim, (requireFinalized_ok h).1, rfl⟩ rest

/-- In every reachable state each execution has at most one claim; and over a
whole run, at whatever moments settlement asks, two successful checks for one
execution saw the same context and the same output. -/
theorem execution_result_unique (sha256 : Bytes → Digest32) (ops : List Operation) :
    (∀ a b x y, (runOf sha256 ops).state.claims.lookup a = some x →
      (runOf sha256 ops).state.claims.lookup b = some y →
      SameExecution x.proposal.context y.proposal.context → a = b) ∧
    ∀ (first first' second second' : List Operation) (i j : Digest32)
      (c d : ExecutionContext) (p q : Digest32) (x y : Claim),
      ops = first ++ first' → ops = second ++ second' →
      (runOf sha256 first).state.requireFinalized i c p = .ok x →
      (runOf sha256 second).state.requireFinalized j d q = .ok y →
      SameExecution c d → c = d ∧ p = q := by
  have hindexed := run_indexed sha256 ops
  refine ⟨fun a b x y hx hy hsame => hindexed.unique hx hy hsame, ?_⟩
  intro _ first' _ second' i j c d p q x y hfirst hsecond hx hy hsame
  obtain ⟨_, rfl, rfl⟩ := requireFinalized_ok hx
  obtain ⟨_, rfl, rfl⟩ := requireFinalized_ok hy
  obtain ⟨_, hx', hxp⟩ := holds_of_requireFinalized sha256 hx first'
  obtain ⟨_, hy', hyp⟩ := holds_of_requireFinalized sha256 hy second'
  rw [← hfirst] at hx'
  rw [← hsecond] at hy'
  rw [← hxp, ← hyp] at hsame ⊢
  have hkeys := hindexed.unique hx' hy' hsame
  rw [hexEncode_digest_inj.mp hkeys, hy'] at hx'
  cases hx'
  exact ⟨rfl, rfl⟩

/-- The defended sample claim settles when it finalizes, still settles after a
further call, and no other context or output of its execution ever does. -/
theorem execution_result_unique_sample :
    (runOf (fun _ => repeated 9) sampleFinalized).state.requireFinalized (repeated 9)
        sampleContext (repeated 10) = .ok (sampleClaim (.finalized (some (repeated 9)))) ∧
    (runOf (fun _ => repeated 9)
        (sampleFinalized ++ [.advance (repeated 9) 200])).state.requireFinalized (repeated 9)
        sampleContext (repeated 10) = .ok (sampleClaim (.finalized (some (repeated 9)))) ∧
    ∀ id context output claim, (runOf (fun _ => repeated 9)
        (sampleFinalized ++ [.advance (repeated 9) 200])).state.requireFinalized id
        context output = .ok claim →
      SameExecution sampleContext context → sampleContext = context ∧ repeated 10 = output := by
  have hfirst : (runOf (fun _ => repeated 9) sampleFinalized).state.requireFinalized (repeated 9)
      sampleContext (repeated 10) = .ok (sampleClaim (.finalized (some (repeated 9)))) := by
    decide +kernel
  refine ⟨hfirst, by decide +kernel, ?_⟩
  intro _ _ _ _ hsecond hsame
  have hunique := (execution_result_unique (fun _ => repeated 9)
    (sampleFinalized ++ [.advance (repeated 9) 200])).2
  have hend := (List.append_nil (sampleFinalized ++ [.advance (repeated 9) 200])).symm
  exact hunique _ _ _ _ _ _ _ _ _ _ _ _ rfl hend hfirst hsecond hsame

end Zkpi.OptimisticUniqueness
