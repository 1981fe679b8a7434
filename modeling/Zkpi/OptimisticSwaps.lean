import Zkpi.FallibleChecks
import Zkpi.RecordedRuns

/-!
# Updates that load, prepare and swap

Calls share a store. A call loads the store, prepares a replacement from what it found and later
tries to swap it in; loading and swapping are atomic, and any other calls may act in between. A
swap is refused when the store no longer has the version that was loaded. Since every replacement
has the next version, a swap that is let through finds exactly the state it was prepared from:
the store went through the calls that swapped, one after another.
-/

namespace Zkpi.OptimisticSwaps

open FallibleChecks RecordedRuns List

variable {S C E : Type}

/-- How calls update a store. -/
structure Protocol (S C E : Type) where
  version : S → ℕ
  /-- What a call would write over the state it loaded. -/
  prepare : C → S → Except E S
  /-- Whether a prepared state may replace the current one. -/
  swap : C → S → S → Except E Unit

/-- A replacement has the next version, and it replaces the version it was prepared from. -/
structure Protocol.Guarded (protocol : Protocol S C E) : Prop where
  next : ∀ {call loaded prepared}, protocol.prepare call loaded = .ok prepared →
    protocol.version prepared = protocol.version loaded + 1
  same : ∀ {call loaded prepared current}, protocol.prepare call loaded = .ok prepared →
    protocol.swap call prepared current = .ok () →
      protocol.version current = protocol.version loaded

/-- The store and the calls that have loaded it. -/
structure Shared (S C : Type) where
  store : S
  /-- The calls between their two steps, each with what it prepared. -/
  pending : List (C × S)

/-- What happens next. -/
inductive Action (C : Type) where
  | load (call : C)
  | swap (place : ℕ)
  /-- A pending call ends without swapping. -/
  | abandon (place : ℕ)

/-- What came of it. -/
inductive Outcome (C E : Type) where
  | loaded
  | failed (error : E)
  | swapped (call : C)
  | nothing

variable (protocol : Protocol S C E)

def step (shared : Shared S C) : Action C → Outcome C E × Shared S C
  | .load call =>
    match protocol.prepare call shared.store with
    | .ok prepared => (.loaded, { shared with pending := shared.pending ++ [(call, prepared)] })
    | .error error => (.failed error, shared)
  | .swap place =>
    match shared.pending[place]? with
    | none => (.nothing, shared)
    | some (call, prepared) =>
      match protocol.swap call prepared shared.store with
      | .ok _ => (.swapped call, ⟨prepared, shared.pending.eraseIdx place⟩)
      | .error error => (.failed error, { shared with pending := shared.pending.eraseIdx place })
  | .abandon place => (.nothing, { shared with pending := shared.pending.eraseIdx place })

def swaps (events : List (Action C × Outcome C E)) : List C :=
  events.filterMap fun
    | (_, .swapped call) => some call
    | _ => none

/-- The calls that were made. -/
def loads (actions : List (Action C)) : List C :=
  actions.filterMap fun
    | .load call => some call
    | _ => none

theorem swaps_append :
    swaps (first ++ second) = swaps first ++ swaps second :=
  filterMap_append

def sequential (start : S) (calls : List C) : Except E S :=
  calls.foldlM (fun state call => protocol.prepare call state) start

theorem sequential_append :
    sequential protocol start (first ++ second) =
      (sequential protocol start first >>= fun middle => sequential protocol middle second) :=
  foldlM_append

theorem sequential_concat :
    sequential protocol start (calls ++ [call]) =
      (sequential protocol start calls >>= protocol.prepare call) := by
  rw [sequential_append]
  congr 1
  funext state
  rw [sequential, foldlM_cons]
  cases protocol.prepare call state <;> rfl

variable {protocol}

theorem version_sequential (hguarded : protocol.Guarded)
    (h : sequential protocol start calls = .ok final) :
    protocol.version final = protocol.version start + calls.length := by
  induction calls using reverseRecOn generalizing final with
  | nil =>
    cases h
    rfl
  | append_singleton calls call ih =>
    rw [sequential_concat] at h
    obtain ⟨_, hmiddle, hlast⟩ := bind_ok.mp h
    rw [hguarded.next hlast, ih hmiddle, length_append, length_singleton, Nat.add_assoc]

/-- The store is what the swapped calls make of the start, and pending calls loaded it or an
older version. -/
structure Linear (protocol : Protocol S C E) (start : S) (events : List (Action C × Outcome C E))
    (shared : Shared S C) : Prop where
  store : sequential protocol start (swaps events) = .ok shared.store
  pending : ∀ entry ∈ shared.pending, ∃ loaded, protocol.prepare entry.1 loaded = .ok entry.2 ∧
    (loaded = shared.store ∨ protocol.version loaded < protocol.version shared.store)

theorem Linear.prepared_from_store (hguarded : protocol.Guarded)
    (h : Linear protocol start events shared) (hmem : (call, prepared) ∈ shared.pending)
    (hswap : protocol.swap call prepared shared.store = .ok ()) :
    protocol.prepare call shared.store = .ok prepared := by
  obtain ⟨loaded, hloaded, rfl | holder⟩ := h.pending (call, prepared) hmem
  · exact hloaded
  · have hsame := hguarded.same hloaded hswap
    omega

variable {pending : List (C × S)}

theorem Linear.quiet (h : Linear protocol start events shared) (hevent : swaps [event] = [])
    (hpending : pending ⊆ shared.pending) :
    Linear protocol start (events ++ [event]) { shared with pending } where
  store := by
    rw [swaps_append, hevent, append_nil]
    exact h.store
  pending entry hmem := h.pending entry (hpending hmem)

theorem Linear.loading (h : Linear protocol start events shared) (hevent : swaps [event] = [])
    (hprepared : protocol.prepare call shared.store = .ok prepared) :
    Linear protocol start (events ++ [event])
      { shared with pending := shared.pending ++ [(call, prepared)] } where
  store := by
    rw [swaps_append, hevent, append_nil]
    exact h.store
  pending := by
    intro entry hmem
    rcases mem_append.mp hmem with hmem | hmem
    · exact h.pending entry hmem
    · rw [mem_singleton.mp hmem]
      exact ⟨shared.store, hprepared, .inl rfl⟩

/-- A swap that is let through extends the order, and whatever was loaded before is older now. -/
theorem Linear.swapping (hguarded : protocol.Guarded) (h : Linear protocol start events shared)
    (hevent : swaps [event] = [call]) (hmem : (call, prepared) ∈ shared.pending)
    (hswap : protocol.swap call prepared shared.store = .ok ())
    (hpending : pending ⊆ shared.pending) :
    Linear protocol start (events ++ [event]) ⟨prepared, pending⟩ := by
  have hprepared := h.prepared_from_store hguarded hmem hswap
  have hversion := hguarded.next hprepared
  constructor
  · rw [swaps_append, hevent, sequential_concat, h.store]
    exact hprepared
  · intro entry hentry
    obtain ⟨loaded, hloaded, hage⟩ := h.pending entry (hpending hentry)
    refine ⟨loaded, hloaded, .inr ?_⟩
    rcases hage with rfl | hage
    · exact hversion ▸ Nat.lt_succ_self _
    · change protocol.version loaded < protocol.version prepared
      omega

theorem Linear.step (hguarded : protocol.Guarded) (h : Linear protocol start events shared)
    (action : Action C) :
    Linear protocol start (events ++ [(action, (step protocol shared action).1)])
      (step protocol shared action).2 := by
  cases action with
  | load call =>
    simp only [OptimisticSwaps.step]
    split
    · rename_i prepared hprepared
      exact h.loading rfl hprepared
    · exact h.quiet rfl (List.Subset.refl _)
  | swap place =>
    simp only [OptimisticSwaps.step]
    split
    · exact h.quiet rfl (List.Subset.refl _)
    · rename_i call prepared hplace
      split
      · rename_i hswap
        exact h.swapping hguarded rfl (mem_of_getElem? hplace) hswap
          (eraseIdx_subset)
      · exact h.quiet rfl (eraseIdx_subset)
  | abandon => exact h.quiet rfl (eraseIdx_subset)

/-- Over any interleaving, the store is what the calls that swapped make of the start when they
run alone, in the order of their swaps. -/
theorem linear_run (hguarded : protocol.Guarded) (start : S) (actions : List (Action C)) :
    Linear protocol start (run (step protocol) ⟨start, []⟩ actions).events
      (run (step protocol) ⟨start, []⟩ actions).state :=
  run_induction (OptimisticSwaps.step protocol) ⟨rfl, fun _ hmem => nomatch hmem⟩
    (fun _ _ action h => h.step hguarded action) actions

theorem step_called (shared : Shared S C) (action : Action C) :
    swaps [(action, (step protocol shared action).1)] ++
        (step protocol shared action).2.pending.map Prod.fst ⊆
      shared.pending.map Prod.fst ++ loads [action] := by
  have herased : ∀ place, (shared.pending.eraseIdx place).map Prod.fst ⊆
      shared.pending.map Prod.fst ++ [] := fun place =>
    List.Subset.trans (map_subset _ eraseIdx_subset) (subset_append_left _ _)
  cases action with
  | load call =>
    simp only [OptimisticSwaps.step]
    split
    · rw [map_append]
      exact Subset.refl _
    · exact subset_append_left _ _
  | swap place =>
    simp only [OptimisticSwaps.step]
    split
    · exact subset_append_left _ _
    · rename_i hplace
      split
      · refine cons_subset.mpr ⟨mem_append_left _ ?_, herased place⟩
        exact mem_map_of_mem (mem_of_getElem? hplace)
      · exact herased place
  | abandon place => exact herased place

/-- Only calls that were made swap. -/
theorem swaps_subset_loads (start : S) (actions : List (Action C)) :
    swaps (run (step protocol) ⟨start, []⟩ actions).events ⊆ loads actions := by
  have hcalled : swaps (run (step protocol) ⟨start, []⟩ actions).events ++
      (run (step protocol) ⟨start, []⟩ actions).state.pending.map Prod.fst ⊆ loads actions := by
    induction actions using reverseRecOn with
    | nil => exact nil_subset _
    | append_singleton actions action ih =>
      rw [run_concat, Trace.extend, swaps_append, loads, filterMap_append, append_assoc]
      obtain ⟨hswaps, hpending⟩ := append_subset.mp ih
      refine append_subset.mpr ⟨List.Subset.trans hswaps (subset_append_left _ _), ?_⟩
      refine List.Subset.trans (step_called _ action)
        (append_subset.mpr ⟨?_, subset_append_right _ _⟩)
      exact List.Subset.trans hpending (subset_append_left _ _)
  exact List.Subset.trans (subset_append_left _ _) hcalled

end Zkpi.OptimisticSwaps
