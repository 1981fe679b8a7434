import Zkpi.ResidentUpdates

/-!
# The sequences of standing pools

A rebind puts coordinator-supplied shares into a rail and is meant for new pools only: a pool that
was allocated from should be reached by commits alone. The check looks at the sequence stated in
the request and not at what was recorded for the pool, so a pool that a commit has advanced can be
named again at sequence zero. Where the calls name a pool at sequences that do not fall from one
generation to a later one, the recorded sequences never decrease and no such rebind occurs.
-/

namespace Zkpi.PoolSequences

open ByteText FallibleChecks RecordedRuns OptimisticSwaps ResidentPools ResidentUpdates List

def recorded (calls : List Call) : List StandingPoolBinding := calls.filterMap Call.binding

variable {lib : ResidentLibrary} {start : MpcSecretState} {calls : List Call}

variable {maker : ℕ} {direction : UInt8} {binding : StandingPoolBinding}

theorem binding_sequential (h : sequential (protocol lib) start calls = .ok final)
    (hbinding : final.standingPoolBinding maker direction = some binding) :
    binding ∈ recorded calls ∨ start.standingPoolBinding maker direction = some binding := by
  induction calls using reverseRecOn generalizing final with
  | nil =>
    cases h
    exact .inr hbinding
  | append_singleton calls call ih =>
    rw [sequential_concat] at h
    obtain ⟨middle, hmiddle, hlast⟩ := bind_ok.mp h
    rw [(prepare_ok hlast).2.bindings, recorded, filterMap_append] at *
    have hearlier : middle.standingPoolBinding maker direction = some binding →
        binding ∈ calls.filterMap Call.binding ++ [call].filterMap Call.binding ∨
          start.standingPoolBinding maker direction = some binding := fun hsame =>
      (ih hmiddle hsame).imp (mem_append_left _) id
    split at hbinding
    · cases hcall : call.binding with
      | none =>
        rw [hcall, Option.none_or] at hbinding
        exact hearlier hbinding
      | some =>
        rw [hcall, Option.some_or] at hbinding
        cases hbinding
        refine .inl (mem_append_right _ ?_)
        exact mem_filterMap.mpr ⟨call, mem_singleton_self call, hcall⟩
    · exact hearlier hbinding

/-- Among the calls that were made, one of a later generation that names a pool does not name it at
a lower sequence, and none names it below what the start records. -/
def Ordered (start : MpcSecretState) (calls : List Call) : Prop :=
  ∀ call ∈ calls, ∀ binding ∈ call.binding,
    (∀ earlier ∈ start.standingPoolBindings, earlier.poolId = binding.poolId →
      earlier.poolSequence ≤ binding.poolSequence) ∧
    ∀ other ∈ calls, other.expectedGeneration < call.expectedGeneration →
      ∀ earlier ∈ other.binding, earlier.poolId = binding.poolId →
        earlier.poolSequence ≤ binding.poolSequence

variable {before after made : List Call} {earlier : StandingPoolBinding}

theorem ascending_sequential (h : sequential (protocol lib) start calls = .ok final) :
    calls.Pairwise fun call later => call.expectedGeneration < later.expectedGeneration := by
  have hgenerations := expected_sequential h
  have hascending : (calls.map fun call => call.expectedGeneration.toNat).Pairwise (· < ·) :=
    hgenerations ▸ pairwise_lt_range'
  exact (pairwise_map.mp hascending).imp UInt64.lt_iff_toNat_lt.mpr

/-- A pool that a call binds has no lower sequence than before, whoever recorded it. -/
theorem Ordered.le (h : Ordered start made) (hmade : before ++ after ⊆ made)
    (hcalls : sequential (protocol lib) start (before ++ after) = .ok final)
    (hearlier : earlier ∈ recorded before ∨ earlier ∈ start.standingPoolBindings)
    (hbinding : binding ∈ recorded after) (hpool : earlier.poolId = binding.poolId) :
    earlier.poolSequence ≤ binding.poolSequence := by
  obtain ⟨call, hcall, hbinding⟩ := mem_filterMap.mp hbinding
  obtain ⟨hstart, hothers⟩ := h call (hmade (mem_append_right _ hcall)) binding hbinding
  rcases hearlier with hearlier | hearlier
  · obtain ⟨other, hother, hearlier⟩ := mem_filterMap.mp hearlier
    have hgeneration := (pairwise_append.mp (ascending_sequential hcalls)).2.2 other hother call
      hcall
    exact hothers other (hmade (mem_append_left _ hother)) hgeneration earlier hearlier hpool
  · exact hstart earlier hearlier hpool

theorem rebind_fresh
    (h : sequential (protocol lib) start (before ++ .rebind request :: after) = .ok final) :
    request.binding.poolSequence = 0 := by
  rw [sequential_append] at h
  obtain ⟨_, -, h⟩ := bind_ok.mp h
  obtain ⟨_, hprepare, -⟩ := bind_ok.mp h
  obtain ⟨hbound, -⟩ := refuseIf_bind_ok.mp hprepare
  simp only [not_or, not_not] at hbound
  exact hbound.2.2.2.1

/-- When calls name a pool at sequences that do not fall from one generation to a later one, no
rebind names a pool that a commit bound at a sequence of one or more before, and the sequence a rail
records for a pool never decreases. -/
theorem ordered_pools_not_refilled (lib : ResidentLibrary) (start : MpcSecretState)
    (actions : List (Action Call)) (hordered : Ordered start (loads actions)) :
    (∀ before commit between rebind after,
      swaps (run (step (protocol lib)) ⟨start, []⟩ actions).events =
        before ++ .commit commit :: between ++ .rebind rebind :: after →
      ∀ binding ∈ commit.binding, 1 ≤ binding.poolSequence →
        rebind.binding.poolId ≠ binding.poolId) ∧
    ∀ first second, actions = first ++ second → ∀ maker direction earlier later,
      (run (step (protocol lib)) ⟨start, []⟩ first).state.store.standingPoolBinding maker
        direction = some earlier →
      (run (step (protocol lib)) ⟨start, []⟩ actions).state.store.standingPoolBinding maker
        direction = some later →
      earlier.poolId = later.poolId → earlier.poolSequence ≤ later.poolSequence := by
  have hmade : swaps (run (step (protocol lib)) ⟨start, []⟩ actions).events ⊆ loads actions :=
    swaps_subset_loads start actions
  have hcalls := (linear_run (protocol_guarded lib) start actions).store
  constructor
  · intro before commit between rebind after hsplit binding hbinding hone hpool
    rw [hsplit] at hmade hcalls
    have hrecorded : binding ∈ recorded (before ++ .commit commit :: between) :=
      mem_filterMap.mpr ⟨.commit commit, by simp, hbinding⟩
    have hle := hordered.le hmade hcalls (.inl hrecorded)
      (mem_filterMap.mpr ⟨.rebind rebind, mem_cons_self, rfl⟩) hpool.symm
    rw [rebind_fresh hcalls] at hle
    exact absurd (UInt64.le_trans hone hle) (by decide)
  · rintro first second rfl maker direction earlier later hearlier hlater hpool
    have hfirst := (linear_run (protocol_guarded lib) start first).store
    rw [run_append_events, swaps_append] at hmade hcalls
    have hall := hcalls
    rw [sequential_append] at hall
    obtain ⟨_, hmiddle, hfinal⟩ := bind_ok.mp hall
    obtain rfl := Except.ok.inj (hfirst.symm.trans hmiddle)
    rcases binding_sequential hfinal hlater with hmem | hsame
    · exact hordered.le hmade hcalls ((binding_sequential hfirst hearlier).imp id
        mem_of_find?_eq_some) hmem hpool
    · rw [Option.some.inj (hearlier.symm.trans hsame)]
      exact UInt64.le_refl _

def plainLibrary : ResidentLibrary := ⟨fun _ => repeated 1, fun _ => .ok ["1"]⟩

/-- The digest of a circuit. -/
def sampleSource : String := String.ofList (replicate 64 '4')

def sampleState : MpcSecretState :=
  ⟨1, 2, 1, sampleSource, ["0", "0", "0", "0", "0"], [], [], []⟩

def samplePool (sequence : UInt64) : StandingPoolBinding := ⟨0, 0, repeated 7, sequence⟩

def sampleCommit (generation : UInt64) : Call :=
  .commit ⟨2, 7, 1, sampleSource, .shamir, .ok [], .ok ⟨2, "5", "6"⟩, 0, 0, generation, repeated 8,
    repeated 9, some (samplePool 1)⟩

def sampleRebind (generation : UInt64) : Call :=
  .rebind ⟨2, 1, sampleSource, generation, samplePool 0, "77", "78"⟩

/-- Commit, then rebind. -/
def refill : List (Action Call) :=
  [.load (sampleCommit 1), .swap 0, .load (sampleRebind 2), .swap 0]

/-- After a commit bound the pool at sequence one, a rebind that names the pool is let through: it
replaces the remainder by the dealt shares and takes the recorded sequence back to zero. -/
theorem rebind_refills_allocated_pool :
    (swaps (run (step (protocol plainLibrary)) ⟨sampleState, []⟩ refill).events).map Call.binding =
      [some (samplePool 1), some (samplePool 0)] ∧
    (run (step (protocol plainLibrary)) ⟨sampleState, []⟩ (refill.take 2)).state.store =
      { sampleState with
        generation := 2
        dvpInputShares := ["5", "6", "0", "0", "0"]
        standingPoolBindings := [samplePool 1] } ∧
    (run (step (protocol plainLibrary)) ⟨sampleState, []⟩ refill).state.store =
      { sampleState with
        generation := 3
        dvpInputShares := ["77", "78", "0", "0", "0"]
        standingPoolBindings := [samplePool 0] } := by
  decide +kernel

/-- A rebind and a commit of one pool, then a rebind of the rail to another pool. -/
def renewal : List (Action Call) :=
  [.load (sampleRebind 1), .swap 0, .load (sampleCommit 2), .swap 0,
    .load (.rebind ⟨2, 1, sampleSource, 3, ⟨0, 0, repeated 6, 0⟩, "79", "80"⟩), .swap 0]

/-- All three calls swap, and the rebind after the commit names the other pool. -/
theorem renewed_pool_not_refilled :
    (swaps (run (step (protocol plainLibrary)) ⟨sampleState, []⟩ renewal).events).map
        Call.binding =
      [some (samplePool 0), some (samplePool 1), some ⟨0, 0, repeated 6, 0⟩] ∧
    ∀ before commit between rebind after,
      swaps (run (step (protocol plainLibrary)) ⟨sampleState, []⟩ renewal).events =
        before ++ .commit commit :: between ++ .rebind rebind :: after →
      ∀ binding ∈ commit.binding, 1 ≤ binding.poolSequence →
        rebind.binding.poolId ≠ binding.poolId := by
  have hordered : Ordered sampleState (loads renewal) := by
    unfold Ordered
    decide +kernel
  exact ⟨by decide +kernel, (ordered_pools_not_refilled _ _ _ hordered).1⟩

end Zkpi.PoolSequences
