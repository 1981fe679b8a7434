import Zkpi.OutboxMoves
import Zkpi.RecordedRuns

/-!
# The life of a request in the outbox

Requests are numbered in the order in which they come in and handed out in that order. Each is
handed out at most ten times, as it was submitted and only before it expires; once it has left the
queue it does not come back, and once it is finished it stays so until it is pruned.

A request that the committee took cannot be recorded as aborted directly, but it can be put aside
for review, and from there it can.
-/

namespace Zkpi.OutboxLifecycle

open ByteText DurableOutbox OutboxMoves RecordedRuns List OutboxData
open Std (TreeMap)

variable {sha256 : Bytes → Digest32}

/-! ## Histories -/

def history (sha256 : Bytes → Digest32) (calls : List Call) : List (Call × Answer) :=
  (run (step sha256) OutboxData.default calls).events

def contents (sha256 : Bytes → Digest32) (calls : List Call) : OutboxData :=
  (run (step sha256) OutboxData.default calls).state

theorem contents_append (sha256 : Bytes → Digest32) (first second : List Call) :
    contents sha256 (first ++ second) = (run (step sha256) (contents sha256 first) second).state :=
  run_append_state (step sha256) default first second

variable (events : List (Call × Answer))

/-- The requests that were handed out, oldest first. -/
def dispatches : List Dispatch := events.filterMap dispatchOf

/-- The requests that were numbered, oldest first. -/
def enqueues : List Enqueued := events.filterMap enqueueOf

def attemptsOf (sequence : UInt64) : List ℕ :=
  ((dispatches events).filter (·.request.sequence = sequence)).map (·.request.attempt.toNat)

section Histories

variable {events : List (Call × Answer)}

theorem dispatches_concat_none (h : dispatchOf event = none) :
    dispatches (events ++ [event]) = dispatches events := by
  simp [dispatches, h]

theorem dispatches_concat_some (h : dispatchOf event = some dispatch) :
    dispatches (events ++ [event]) = dispatches events ++ [dispatch] := by
  simp [dispatches, h]

theorem enqueues_concat_none (h : enqueueOf event = none) :
    enqueues (events ++ [event]) = enqueues events := by
  simp [enqueues, h]

theorem enqueues_concat_some (h : enqueueOf event = some request) :
    enqueues (events ++ [event]) = enqueues events ++ [request] := by
  simp [enqueues, h]

theorem attemptsOf_concat_none (h : dispatchOf event = none) (sequence : UInt64) :
    attemptsOf (events ++ [event]) sequence = attemptsOf events sequence := by
  rw [attemptsOf, dispatches_concat_none h]
  rfl

theorem attemptsOf_concat_self (h : dispatchOf event = some dispatch) :
    attemptsOf (events ++ [event]) dispatch.request.sequence =
      attemptsOf events dispatch.request.sequence ++ [dispatch.request.attempt.toNat] := by
  simp [attemptsOf, dispatches_concat_some h]

theorem attemptsOf_concat_other {dispatch : Dispatch} (h : dispatchOf event = some dispatch)
    {sequence : UInt64} (hne : dispatch.request.sequence ≠ sequence) :
    attemptsOf (events ++ [event]) sequence = attemptsOf events sequence := by
  simp [attemptsOf, dispatches_concat_some h, hne]

end Histories

/-! ## Requests that go on -/

/-- A request went on to another state, if to any, but not back to the queue. -/
structure Turned (old new : OutboxEntry) : Prop where
  same : new = { old with state := new.state }
  final : old.state.isFinal → new = old
  queued : new.state.isDispatchable → new = old

theorem Turned.refl (entry : OutboxEntry) : Turned entry entry :=
  ⟨rfl, fun _ => rfl, fun _ => rfl⟩

theorem Turned.trans (h : Turned first second) (h' : Turned second third) : Turned first third where
  same := by rw [h'.same, h.same]
  final := by
    intro hfinal
    obtain rfl := h.final hfinal
    exact h'.final hfinal
  queued := by
    intro hqueued
    obtain rfl := h'.queued hqueued
    exact h.queued hqueued

variable {entry : OutboxEntry} {state : OutboxState}

theorem turned_of_not (hfinal : entry.state.isFinal = false)
    (hqueued : state.isDispatchable = false) :
    Turned entry { entry with state } where
  same := rfl
  final := fun h => by rw [hfinal] at h; cases h
  queued := fun h => by rw [hqueued] at h; cases h

structure Descends (before after : Queue) : Prop where
  next : after.nextSequence = before.nextSequence
  origin : ∀ (key : String) (new : OutboxEntry), after.entries[key]? = some new →
    ∃ old, before.entries[key]? = some old ∧ Turned old new

theorem Descends.refl (q : Queue) : Descends q q :=
  ⟨rfl, fun _ new h => ⟨new, h, .refl new⟩⟩

theorem Descends.trans (h : Descends first second)
    (h' : Descends second third) : Descends first third where
  next := h'.next.trans h.next
  origin := by
    intro key new hnew
    obtain ⟨mid, hmid, hlater⟩ := h'.origin key new hnew
    obtain ⟨old, hold, hearlier⟩ := h.origin key mid hmid
    exact ⟨old, hold, hearlier.trans hlater⟩

variable {q : Queue} {key : String}

theorem stored_setState (h : (q.setState key entry state).entries[k]? = some new) :
    key = k ∧ { entry with state } = new ∨ ¬ key = k ∧ q.entries[k]? = some new := by
  rwa [Queue.getElem?_setState, ite_eq_iff, Option.some.injEq] at h

theorem descends_setState (hstored : q.entries[key]? = some entry)
    (hturned : Turned entry { entry with state }) :
    Descends q (q.setState key entry state) where
  next := rfl
  origin := by
    intro k new hnew
    obtain ⟨rfl, rfl⟩ | ⟨-, hnew⟩ := stored_setState hnew
    · exact ⟨entry, hstored, hturned⟩
    · exact ⟨new, hnew, .refl new⟩

variable {before after : Queue}

theorem descends_of_moves (h : Moves before after) : Descends before after := by
  induction h with
  | refl => exact .refl before
  | tail _ hmove ih =>
    obtain ⟨hstored, hallowed⟩ := hmove
    exact ih.trans (descends_setState hstored
      (turned_of_not (isFinal_of_mayBecome hallowed) (isDispatchable_of_mayBecome hallowed)))

theorem descends_prune {q : Queue} {time : UInt64} :
    Descends q
      { q with entries := q.entries.filter fun _ entry => !entry.finalizedBefore time } where
  next := rfl
  origin := by
    intro key new hnew
    rw [TreeMap.getElem?_filter', Option.filter_eq_some_iff] at hnew
    exact ⟨new, hnew.1, .refl new⟩

theorem outline {P : Prop} (h : Effect sha256 before event after)
    (hquiet : dispatchOf event = none → enqueueOf event = none → Descends before after → P)
    (henqueue : ∀ request, dispatchOf event = none → enqueueOf event = some request → Numbered
      sha256 before request after → P)
    (hdispatch : ∀ dispatch, dispatchOf event = some dispatch → enqueueOf event = none → HandedOut
      before dispatch after → P) : P := by
  cases h with
  | moved noDispatch noEnqueue moves =>
    exact hquiet noDispatch noEnqueue (descends_of_moves moves)
  | reviewed noDispatch noEnqueue call succeeded stored unfinished change =>
    subst change
    exact hquiet noDispatch noEnqueue (descends_setState stored (turned_of_not unfinished rfl))
  | pruned noDispatch noEnqueue call change =>
    subst change
    exact hquiet noDispatch noEnqueue descends_prune
  | enqueued noDispatch enqueue numbered => exact henqueue _ noDispatch enqueue numbered
  | dispatched claim noEnqueue handedOut => exact hdispatch _ claim noEnqueue handedOut

variable {request : Enqueued}

/-- The key of a new request is not in use, so the others keep theirs. -/
theorem getElem?_numbered (h : Numbered sha256 before request after) (key : String) :
    after.entries[key]? =
      if request.requestId = key then some (request.entry sha256 .queued)
      else before.entries[key]? := by
  rw [h.change, TreeMap.getElem?_insert]
  simp

theorem stored_numbered (h : Numbered sha256 before request after)
    (hentry : after.entries[key]? = some entry) :
    request.requestId = key ∧ request.entry sha256 .queued = entry ∨
      ¬ request.requestId = key ∧ before.entries[key]? = some entry := by
  rwa [getElem?_numbered h, ite_eq_iff, Option.some.injEq] at hentry

variable {attempt : UInt32}

theorem isDispatchable_of_nextAttempt (h : NextAttempt state attempt) : state.isDispatchable := by
  cases h <;> rfl

theorem not_isFinal_of_nextAttempt (h : NextAttempt state attempt) : state.isFinal = false := by
  cases h <;> rfl

/-! ## What a history says about the queue it led to -/

structure Kept (sha256 : Bytes → Digest32) (events : List (Call × Answer)) (q : Queue) :
    Prop where
  numbered : (enqueues events).map (·.sequence.toNat) = range q.nextSequence.toNat
  submitted : ∀ (key : String) (entry : OutboxEntry), q.entries[key]? = some entry →
    entry.requestId = key ∧ ∃ request ∈ enqueues events, entry = request.entry sha256 entry.state
  /-- A request that was handed out had been submitted so and had not expired. -/
  fair : ∀ dispatch ∈ dispatches events, ∃ request ∈ enqueues events,
    dispatch.request = claimed (request.entry sha256 .queued) dispatch.request.attempt ∧
      dispatch.now < request.expiresAt
  /-- No request in the queue is older than one that was handed out. -/
  ahead : ∀ dispatch ∈ dispatches events, ∀ (key : String) (entry : OutboxEntry),
    q.entries[key]? = some entry → entry.state.isDispatchable →
      dispatch.request.sequence.toNat ≤ entry.sequence.toNat
  ordered : (dispatches events).Pairwise fun earlier later =>
    earlier.request.sequence.toNat ≤ later.request.sequence.toNat
  attempts : ∀ sequence, ∃ count ≤ 10, attemptsOf events sequence = range' 1 count
  waiting : ∀ (key : String) (entry : OutboxEntry), q.entries[key]? = some entry →
    entry.state = .queued → attemptsOf events entry.sequence = []
  sent : ∀ (key : String) (entry : OutboxEntry), q.entries[key]? = some entry →
    ∀ attempt startedAt, entry.state = .dispatching attempt startedAt →
      (attemptsOf events entry.sequence).length = attempt.toNat

namespace Kept

variable {events : List (Call × Answer)} {q : Queue}

variable {request : Enqueued}

theorem sequence_lt (h : Kept sha256 events q) (hrequest : request ∈ enqueues events) :
    request.sequence.toNat < q.nextSequence.toNat := by
  have hmem : request.sequence.toNat ∈ (enqueues events).map (·.sequence.toNat) :=
    mem_map_of_mem hrequest
  rw [h.numbered] at hmem
  exact mem_range.mp hmem

variable {key : String} {entry : OutboxEntry}

theorem stored_lt (h : Kept sha256 events q) (hentry : q.entries[key]? = some entry) :
    entry.sequence.toNat < q.nextSequence.toNat := by
  obtain ⟨_, _, hrequest, hsame⟩ := h.submitted key entry hentry
  rw [hsame]
  exact h.sequence_lt hrequest

theorem dispatched_lt (h : Kept sha256 events q) (hdispatch : dispatch ∈ dispatches events) :
    dispatch.request.sequence.toNat < q.nextSequence.toNat := by
  obtain ⟨_, hrequest, hsame, _⟩ := h.fair dispatch hdispatch
  rw [hsame]
  exact h.sequence_lt hrequest

theorem stored_injective (h : Kept sha256 events q)
    (hentry : q.entries[key]? = some entry) (hentry' : q.entries[other]? = some entry')
    (hsequence : entry.sequence = entry'.sequence) :
    key = other := by
  obtain ⟨hkey, request, hrequest, hsame⟩ := h.submitted key entry hentry
  obtain ⟨hother, request', hrequest', hsame'⟩ := h.submitted other entry' hentry'
  have hnodup : ((enqueues events).map (·.sequence.toNat)).Nodup := by
    rw [h.numbered]
    exact nodup_range
  have hnumber : request.sequence.toNat = request'.sequence.toNat := by
    rw [hsame, hsame'] at hsequence
    exact congrArg UInt64.toNat hsequence
  have hrequests : request = request' :=
    inj_on_of_nodup_map hnodup hrequest hrequest' hnumber
  rw [← hkey, ← hother, hsame, hsame', hrequests]
  rfl

variable {after : Queue}

section

variable (h : Kept sha256 events q)

include h

theorem descend (hdescends : Descends q after) :
    Kept sha256 events after where
  numbered := by
    rw [hdescends.next]
    exact h.numbered
  submitted := by
    intro key new hnew
    obtain ⟨old, hold, hturned⟩ := hdescends.origin key new hnew
    obtain ⟨hkey, request, hrequest, hsame⟩ := h.submitted key old hold
    refine ⟨?_, request, hrequest, ?_⟩
    · rw [hturned.same]
      exact hkey
    · rw [hturned.same, hsame]
      rfl
  fair := h.fair
  ahead := by
    intro dispatch hdispatch key new hnew hqueued
    obtain ⟨old, hold, hturned⟩ := hdescends.origin key new hnew
    obtain rfl := hturned.queued hqueued
    exact h.ahead dispatch hdispatch key new hold hqueued
  ordered := h.ordered
  attempts := h.attempts
  waiting := by
    intro key new hnew hstate
    obtain ⟨old, hold, hturned⟩ := hdescends.origin key new hnew
    obtain rfl := hturned.queued (by rw [hstate]; rfl)
    exact h.waiting key new hold hstate
  sent := by
    intro key new hnew attempt startedAt hstate
    obtain ⟨_, hold, hturned⟩ := hdescends.origin key new hnew
    obtain rfl := hturned.queued (by rw [hstate]; rfl)
    exact h.sent key new hold attempt startedAt hstate

theorem quiet (hdispatch : dispatchOf event = none)
    (henqueue : enqueueOf event = none) : Kept sha256 (events ++ [event]) q := by
  obtain ⟨numbered, submitted, fair, ahead, ordered, attempts, waiting, sent⟩ := h
  constructor <;> simpa only [enqueues_concat_none henqueue, dispatches_concat_none hdispatch,
    attemptsOf_concat_none hdispatch]

theorem attemptsOf_unused : attemptsOf events q.nextSequence = [] := by
  rw [attemptsOf, map_eq_nil_iff, filter_eq_nil_iff]
  intro dispatch hdispatch hsequence
  have hlt := h.dispatched_lt hdispatch
  rw [of_decide_eq_true hsequence] at hlt
  exact absurd hlt (lt_irrefl _)

theorem enqueue (hdispatch : dispatchOf event = none)
    (henqueue : enqueueOf event = some request) (hnumbered : Numbered sha256 q request after) :
    Kept sha256 (events ++ [event]) after where
  numbered := by
    rw [enqueues_concat_some henqueue, map_append, h.numbered, hnumbered.next,
      range_succ, map_cons, map_nil, hnumbered.number]
  submitted := by
    intro key entry hentry
    rw [enqueues_concat_some henqueue]
    obtain ⟨hkey, rfl⟩ | ⟨-, hentry⟩ := stored_numbered hnumbered hentry
    · exact ⟨hkey, request, mem_append_right _ (mem_singleton_self _), rfl⟩
    · obtain ⟨hkey, old, hold, hsame⟩ := h.submitted key entry hentry
      exact ⟨hkey, old, mem_append_left _ hold, hsame⟩
  fair := by
    intro dispatch hmem
    rw [dispatches_concat_none hdispatch] at hmem
    rw [enqueues_concat_some henqueue]
    obtain ⟨old, hold, hsame⟩ := h.fair dispatch hmem
    exact ⟨old, mem_append_left _ hold, hsame⟩
  ahead := by
    intro dispatch hmem key entry hentry hqueued
    rw [dispatches_concat_none hdispatch] at hmem
    obtain ⟨-, rfl⟩ | ⟨-, hentry⟩ := stored_numbered hnumbered hentry
    · have hlt := h.dispatched_lt hmem
      rw [← hnumbered.number] at hlt
      exact hlt.le
    · exact h.ahead dispatch hmem key entry hentry hqueued
  ordered := by
    rw [dispatches_concat_none hdispatch]
    exact h.ordered
  attempts := by
    simp only [attemptsOf_concat_none hdispatch]
    exact h.attempts
  waiting := by
    intro key entry hentry hstate
    rw [attemptsOf_concat_none hdispatch]
    obtain ⟨-, rfl⟩ | ⟨-, hentry⟩ := stored_numbered hnumbered hentry
    · change attemptsOf events request.sequence = []
      rw [hnumbered.number]
      exact h.attemptsOf_unused
    · exact h.waiting key entry hentry hstate
  sent := by
    intro key entry hentry attempt startedAt hstate
    rw [attemptsOf_concat_none hdispatch]
    obtain ⟨-, rfl⟩ | ⟨-, hentry⟩ := stored_numbered hnumbered hentry
    · cases hstate
    · exact h.sent key entry hentry attempt startedAt hstate

/-- The attempts made so far, and the one that follows. -/
theorem attempts_next
    (hentry : q.entries[key]? = some entry) (hattempt : NextAttempt entry.state attempt) :
    attempt.toNat ≤ 10 ∧
      attemptsOf events entry.sequence ++ [attempt.toNat] = range' 1 attempt.toNat := by
  generalize hstate : entry.state = state at hattempt
  cases hattempt with
  | first =>
    rw [h.waiting key entry hentry hstate]
    exact ⟨by decide, rfl⟩
  | @again last _ startedAt limit following =>
    obtain ⟨count, _, hcount⟩ := h.attempts entry.sequence
    have hlength := h.sent key entry hentry last startedAt hstate
    rw [hcount, length_range'] at hlength
    have hlimit := UInt32.lt_iff_toNat_lt.mp limit
    simp only [UInt32.reduceToNat] at hlimit
    refine ⟨by omega, ?_⟩
    rw [hcount, following, hlength, range'_1_concat, Nat.add_comm 1]

theorem submitted_setState (stored : q.entries[key]? = some entry)
    (hnew : (q.setState key entry state).entries[k]? = some new) :
    new.requestId = k ∧ ∃ request ∈ enqueues events, new = request.entry sha256 new.state := by
  obtain ⟨rfl, rfl⟩ | ⟨-, hnew⟩ := stored_setState hnew
  · obtain ⟨hkey, request, hmem, hsame⟩ := h.submitted key entry stored
    refine ⟨hkey, request, hmem, ?_⟩
    rw [hsame]
    rfl
  · exact h.submitted k new hnew

variable {claim : Dispatch} (hdispatch : dispatchOf event = some claim)

include hdispatch

theorem attempts_concat (hlimit : claim.request.attempt.toNat ≤ 10)
    (hattempts : attemptsOf events claim.request.sequence ++
      [claim.request.attempt.toNat] = range' 1 claim.request.attempt.toNat)
    (sequence : UInt64) :
    ∃ count ≤ 10, attemptsOf (events ++ [event]) sequence = range' 1 count := by
  by_cases heq : claim.request.sequence = sequence
  · subst heq
    exact ⟨_, hlimit, (attemptsOf_concat_self hdispatch).trans hattempts⟩
  · rw [attemptsOf_concat_other hdispatch heq]
    exact h.attempts sequence

/-- A request that changes while it is in the queue counts as it did before. -/
theorem ahead_setState {k : String} {new : OutboxEntry}
    (stored : q.entries[key]? = some entry) (hqueued : entry.state.isDispatchable)
    (oldest : ∀ (k : String) (other : OutboxEntry), q.entries[k]? = some other →
      other.state.isDispatchable → claim.request.sequence.toNat ≤ other.sequence.toNat)
    (hd : d ∈ dispatches (events ++ [event]))
    (hnew : (q.setState key entry state).entries[k]? = some new)
    (hnewQueued : new.state.isDispatchable) :
    d.request.sequence.toNat ≤ new.sequence.toNat := by
  rw [dispatches_concat_some hdispatch, mem_append, mem_singleton] at hd
  obtain ⟨old, hold, holdQueued, hnumber⟩ : ∃ old, q.entries[k]? = some old ∧
      old.state.isDispatchable ∧ new.sequence = old.sequence := by
    obtain ⟨rfl, rfl⟩ | ⟨-, hnew⟩ := stored_setState hnew
    · exact ⟨entry, stored, hqueued, rfl⟩
    · exact ⟨new, hnew, hnewQueued, rfl⟩
  rw [hnumber]
  obtain hd | rfl := hd
  · exact h.ahead d hd k old hold holdQueued
  · exact oldest k old hold holdQueued

theorem dispatch (henqueue : enqueueOf event = none) (handedOut : HandedOut q claim after) :
    Kept sha256 (events ++ [event]) after := by
  obtain ⟨mid, key, entry, aside, stored, hattempt, oldest, unexpired, hrequest, change⟩ :=
    handedOut
  subst change
  have hmid : Kept sha256 events mid := h.descend (descends_of_moves aside)
  have hsequence : claim.request.sequence = entry.sequence := by rw [hrequest]; rfl
  have hqueued := isDispatchable_of_nextAttempt hattempt
  obtain ⟨hlimit, hattempts⟩ := hmid.attempts_next stored hattempt
  rw [← hsequence] at hattempts oldest
  have hother {k new} (hk : ¬key = k) (hnew : mid.entries[k]? = some new) :
      claim.request.sequence ≠ new.sequence := fun heq =>
    hk (hmid.stored_injective stored hnew (hsequence.symm.trans heq))
  have hnumbers : enqueues (events ++ [event]) = enqueues events := enqueues_concat_none henqueue
  refine ⟨hnumbers ▸ hmid.numbered,
    fun k new hnew => hnumbers ▸ hmid.submitted_setState stored hnew, fun d hd => ?_,
    fun d hd k new => hmid.ahead_setState hdispatch stored hqueued oldest hd, ?_,
    hmid.attempts_concat hdispatch hlimit hattempts, fun k new hnew hstate => ?_,
    fun k new hnew attempt startedAt hstate => ?_⟩
  · rw [hnumbers]
    rw [dispatches_concat_some hdispatch, mem_append, mem_singleton] at hd
    obtain hd | rfl := hd
    · exact hmid.fair d hd
    · obtain ⟨_, request, hmem, hsame⟩ := hmid.submitted key entry stored
      rw [hsame] at hrequest unexpired
      exact ⟨request, hmem, hrequest, unexpired⟩
  · rw [dispatches_concat_some hdispatch, pairwise_append]
    refine ⟨hmid.ordered, pairwise_singleton _ _, fun d hd last hlast => ?_⟩
    rw [mem_singleton.mp hlast, hsequence]
    exact hmid.ahead d hd key entry stored hqueued
  · obtain ⟨-, rfl⟩ | ⟨hk, hnew⟩ := stored_setState hnew
    · cases hstate
    · rw [attemptsOf_concat_other hdispatch (hother hk hnew)]
      exact hmid.waiting k new hnew hstate
  · obtain ⟨-, rfl⟩ | ⟨hk, hnew⟩ := stored_setState hnew
    · cases hstate
      change (attemptsOf _ entry.sequence).length = _
      rw [← hsequence, attemptsOf_concat_self hdispatch, hattempts, length_range']
    · rw [attemptsOf_concat_other hdispatch (hother hk hnew)]
      exact hmid.sent k new hnew attempt startedAt hstate

end

end Kept

theorem kept_default {sha256 : Bytes → Digest32} : Kept sha256 [] (queue default) := by
  have hempty : ∀ key : String, (queue default).entries[key]? = none :=
    fun key => TreeMap.getElem?_emptyc
  have hstored : ∀ {P : Prop} {key : String} {entry : OutboxEntry},
      (queue default).entries[key]? = some entry → P := by
    intro P key entry h
    rw [hempty] at h
    cases h
  exact ⟨rfl, fun _ _ h => hstored h, nofun, nofun, .nil, fun _ => ⟨0, Nat.zero_le _, rfl⟩,
    fun _ _ h => hstored h, fun _ _ h => hstored h⟩

theorem kept_history (sha256 : Bytes → Digest32) (calls : List Call) :
    Kept sha256 (history sha256 calls) (queue (contents sha256 calls)) := by
  refine run_induction (step sha256) (P := fun events data => Kept sha256 events (queue data))
    kept_default (fun events data call h => ?_) calls
  refine outline (step_effect sha256 data call) ?_ ?_ ?_
  · intro hdispatch henqueue hdescends
    exact (h.descend hdescends).quiet hdispatch henqueue
  · intro request hdispatch henqueue hnumbered
    exact h.enqueue hdispatch henqueue hnumbered
  · intro dispatch hdispatch henqueue handedOut
    exact h.dispatch hdispatch henqueue handedOut

/-! ## Later queues -/

/-- A request at a later time: finished requests stay, and what is in the queue was in it. -/
structure Aged (old new : OutboxEntry) : Prop where
  sequence : new.sequence = old.sequence
  final : old.state.isFinal → new = old
  queued : new.state.isDispatchable → old.state.isDispatchable

theorem Turned.aged (h : Turned old new) : Aged old new where
  sequence := by rw [h.same]
  final := h.final
  queued := fun hqueued => h.queued hqueued ▸ hqueued

theorem Aged.trans (h : Aged first second) (h' : Aged second third) : Aged first third where
  sequence := h'.sequence.trans h.sequence
  final := by
    intro hfinal
    obtain rfl := h.final hfinal
    exact h'.final hfinal
  queued := fun hqueued => h.queued (h'.queued hqueued)

structure Later (start q : Queue) : Prop where
  next : start.nextSequence.toNat ≤ q.nextSequence.toNat
  origin : ∀ (key : String) (new : OutboxEntry), q.entries[key]? = some new →
    start.nextSequence.toNat ≤ new.sequence.toNat ∨
      ∃ old, start.entries[key]? = some old ∧ Aged old new

theorem Later.refl (q : Queue) : Later q q :=
  ⟨le_refl _, fun _ new h => .inr ⟨new, h, (Turned.refl new).aged⟩⟩

variable {start : Queue}

theorem Later.descend (h : Later start q) (hdescends : Descends q after) :
    Later start after where
  next := by
    rw [hdescends.next]
    exact h.next
  origin := by
    intro key new hnew
    obtain ⟨mid, hmid, hturned⟩ := hdescends.origin key new hnew
    obtain hrecent | ⟨old, hold, haged⟩ := h.origin key mid hmid
    · refine .inl ?_
      rw [hturned.same]
      exact hrecent
    · exact .inr ⟨old, hold, haged.trans hturned.aged⟩

theorem Later.dispatch (h : Later start q) {dispatch : Dispatch}
    (handedOut : HandedOut q dispatch after) : Later start after := by
  obtain ⟨_, key, entry, aside, stored, hattempt, _, _, _, change⟩ := handedOut
  subst change
  have hmid := h.descend (descends_of_moves aside)
  have hqueued := isDispatchable_of_nextAttempt hattempt
  refine ⟨hmid.next, fun k new hnew => ?_⟩
  obtain ⟨rfl, rfl⟩ | ⟨-, hnew⟩ := stored_setState hnew
  · obtain hrecent | ⟨old, hold, haged⟩ := hmid.origin key entry stored
    · exact .inl hrecent
    · refine .inr ⟨old, hold, haged.sequence, fun hfinal => ?_, fun _ => haged.queued hqueued⟩
      -- A finished request is not in the queue, so it is not the one handed out.
      obtain rfl := haged.final hfinal
      rw [not_isFinal_of_nextAttempt hattempt] at hfinal
      cases hfinal
  · exact hmid.origin k new hnew

theorem Later.enqueue (h : Later start q) (hnumbered : Numbered sha256 q request after) :
    Later start after where
  next := by
    rw [hnumbered.next]
    exact Nat.le_succ_of_le h.next
  origin := by
    intro key new hnew
    obtain ⟨-, rfl⟩ | ⟨-, hnew⟩ := stored_numbered hnumbered hnew
    · refine .inl ?_
      change start.nextSequence.toNat ≤ request.sequence.toNat
      rw [hnumbered.number]
      exact h.next
    · exact h.origin key new hnew

def FromQueue (start : Queue) (dispatch : Dispatch) : Prop :=
  start.nextSequence.toNat ≤ dispatch.request.sequence.toNat ∨
    ∃ (key : String) (old : OutboxEntry), start.entries[key]? = some old ∧
      old.sequence = dispatch.request.sequence ∧ old.state.isDispatchable

theorem Later.fromQueue (h : Later start q) {dispatch : Dispatch}
    (handedOut : HandedOut q dispatch after) : FromQueue start dispatch := by
  have hmid := h.descend (descends_of_moves handedOut.aside)
  have hqueued := isDispatchable_of_nextAttempt handedOut.attempt
  have hsequence : dispatch.request.sequence = handedOut.entry.sequence := by
    rw [handedOut.request]
    rfl
  rw [FromQueue, hsequence]
  obtain hrecent | ⟨old, hold, haged⟩ := hmid.origin _ _ handedOut.stored
  · exact .inl hrecent
  · exact .inr ⟨handedOut.key, old, hold, haged.sequence.symm, haged.queued hqueued⟩

theorem later_run (sha256 : Bytes → Digest32) (start : OutboxData) (calls : List Call) :
    Later (queue start) (queue (run (step sha256) start calls).state) ∧
      ∀ dispatch ∈ dispatches (run (step sha256) start calls).events,
        FromQueue (queue start) dispatch := by
  refine run_induction (step sha256) (P := fun events data => Later (queue start) (queue data) ∧
    ∀ dispatch ∈ dispatches events, FromQueue (queue start) dispatch) ⟨.refl _, nofun⟩
    (fun events data call h => ?_) calls
  refine outline (step_effect sha256 data call) ?_ ?_ ?_
  · intro hdispatch _ hdescends
    rw [dispatches_concat_none hdispatch]
    exact ⟨h.1.descend hdescends, h.2⟩
  · intro request hdispatch _ hnumbered
    rw [dispatches_concat_none hdispatch]
    exact ⟨h.1.enqueue hnumbered, h.2⟩
  · intro dispatch hdispatch _ handedOut
    rw [dispatches_concat_some hdispatch]
    refine ⟨h.1.dispatch handedOut, fun d hd => ?_⟩
    obtain hd | hd := mem_append.mp hd
    · exact h.2 d hd
    · rw [mem_singleton.mp hd]
      exact h.1.fromQueue handedOut

/-! ## Finished requests -/

theorem final_of_setState (hfinal : entry.state.isFinal)
    (hentry : q.entries[key]? = some entry) (hstored : q.entries[other]? = some changed)
    (hunfinished : changed.state.isFinal = false) :
    (q.setState other changed state).entries[key]? = some entry := by
  rw [Queue.getElem?_setState]
  split_ifs with hk
  · rw [hk, hentry] at hstored
    cases hstored
    rw [hunfinished] at hfinal
    cases hfinal
  · exact hentry

theorem final_of_moves (h : Moves before after) (hfinal : entry.state.isFinal)
    (hentry : before.entries[key]? = some entry) : after.entries[key]? = some entry := by
  induction h with
  | refl => exact hentry
  | tail _ hmove ih =>
    obtain ⟨hstored, hallowed⟩ := hmove
    exact final_of_setState hfinal ih hstored (isFinal_of_mayBecome hallowed)

theorem final_of_effect (h : Effect sha256 before event after) (hfinal : entry.state.isFinal)
    (hkept : ∀ outbox time disk, event.1 = .pruneFinalized outbox time disk → entry.finalizedBefore
      time = false) (hentry : before.entries[key]? = some entry) :
    after.entries[key]? = some entry := by
  cases h with
  | moved _ _ moves => exact final_of_moves moves hfinal hentry
  | reviewed _ _ call succeeded stored unfinished change =>
    subst change
    exact final_of_setState hfinal hentry stored unfinished
  | pruned _ _ call change =>
    subst change
    rw [TreeMap.getElem?_filter', Option.filter_eq_some_iff]
    refine ⟨hentry, ?_⟩
    rw [hkept _ _ _ call]
    rfl
  | enqueued _ _ numbered =>
    rw [getElem?_numbered numbered]
    split_ifs with hk
    · rw [← hk, numbered.unused] at hentry
      cases hentry
    · exact hentry
  | dispatched _ _ handedOut =>
    obtain ⟨_, _, _, aside, stored, hattempt, _, _, _, change⟩ := handedOut
    subst change
    exact final_of_setState hfinal (final_of_moves aside hfinal hentry) stored
      (not_isFinal_of_nextAttempt hattempt)

theorem final_of_run {sha256 : Bytes → Digest32} {start : OutboxData} {calls : List Call}
    (hfinal : entry.state.isFinal)
    (hkept : ∀ outbox time disk, Call.pruneFinalized outbox time disk ∈ calls →
      entry.finalizedBefore time = false) (hentry : start.entries[key]? = some entry) :
    (run (step sha256) start calls).state.entries[key]? = some entry := by
  have hrun : (∀ outbox time disk, Call.pruneFinalized outbox time disk ∈
      (run (step sha256) start calls).events.map Prod.fst → entry.finalizedBefore time = false) →
      (run (step sha256) start calls).state.entries[key]? = some entry := by
    refine run_induction (step sha256) (P := fun events data => (∀ outbox time disk,
      Call.pruneFinalized outbox time disk ∈ events.map Prod.fst →
        entry.finalizedBefore time = false) → data.entries[key]? = some entry)
      (fun _ => hentry) (fun events data call ih hevents => ?_) calls
    rw [map_append] at hevents
    refine final_of_effect (step_effect sha256 data call) hfinal ?_ (ih ?_)
    · intro outbox time disk hcall
      refine hevents outbox time disk (mem_append_right _ ?_)
      exact mem_singleton.mpr hcall.symm
    · intro outbox time disk hmem
      exact hevents outbox time disk (mem_append_left _ hmem)
  rw [run_operations] at hrun
  exact hrun hkept

/-- However calls follow one another, requests are handed out in the order of their numbers, each
at most ten times as the attempts one, two, three and so on, with the bytes it was submitted with
and their digest, and before it expires. What a later part of a run hands out was in the queue when
that part began, or was numbered since. A finished request stays as it is until it is pruned. -/
theorem outbox_hands_out_in_order (sha256 : Bytes → Digest32) (first second : List Call) :
    let events := history sha256 (first ++ second)
    let midway := contents sha256 first
    let later := contents sha256 (first ++ second)
    ((dispatches events).map (·.request.sequence)).Pairwise (· ≤ ·) ∧
    (enqueues events).map (·.sequence.toNat) = range later.nextSequence.toNat ∧
    (∀ sequence, ∃ count ≤ 10, attemptsOf events sequence = range' 1 count) ∧
    (∀ dispatch ∈ dispatches events, ∃ request ∈ enqueues events,
      dispatch.request.sequence = request.sequence ∧
      dispatch.request.requestId = request.requestId ∧
      dispatch.request.signedRequest = request.signedRequest ∧
      dispatch.request.requestDigest = sha256 request.signedRequest ∧
      dispatch.request.expiresAt = request.expiresAt ∧ dispatch.now < request.expiresAt) ∧
    (∀ dispatch ∈ dispatches (run (step sha256) midway second).events,
      midway.nextSequence ≤ dispatch.request.sequence ∨
        ∃ (key : String) (entry : OutboxEntry), midway.entries[key]? = some entry ∧
          entry.sequence = dispatch.request.sequence ∧
          (entry.state = .queued ∨
            ∃ attempt startedAt, entry.state = .dispatching attempt startedAt)) ∧
    (∀ (key : String) (entry : OutboxEntry), midway.entries[key]? = some entry →
      entry.state.isFinal →
      (∀ (key' : String) (entry' : OutboxEntry), later.entries[key']? = some entry' →
        entry'.sequence = entry.sequence → entry' = entry) ∧
      ((∀ outbox time disk, Call.pruneFinalized outbox time disk ∈ second →
        entry.finalizedBefore time = false) → later.entries[key]? = some entry)) := by
  intro events midway later
  have hkept := kept_history sha256 (first ++ second)
  have hmidway := kept_history sha256 first
  have hlater : later = (run (step sha256) midway second).state :=
    contents_append sha256 first second
  obtain ⟨hqueue, hdispatches⟩ := later_run sha256 midway second
  refine ⟨?_, hkept.numbered, hkept.attempts, ?_, ?_, ?_⟩
  · exact pairwise_map.mpr (hkept.ordered.imp UInt64.le_iff_toNat_le.mpr)
  · intro dispatch hdispatch
    obtain ⟨request, hrequest, hsame, hnow⟩ := hkept.fair dispatch hdispatch
    refine ⟨request, hrequest, ?_⟩
    rw [hsame]
    exact ⟨rfl, rfl, rfl, rfl, rfl, hnow⟩
  · intro dispatch hdispatch
    obtain hrecent | ⟨key, entry, hentry, hsequence, hqueued⟩ := hdispatches dispatch hdispatch
    · exact .inl (UInt64.le_iff_toNat_le.mpr hrecent)
    · refine .inr ⟨key, entry, hentry, hsequence, ?_⟩
      cases hstate : entry.state with
      | queued => exact .inl rfl
      | dispatching attempt startedAt => exact .inr ⟨attempt, startedAt, rfl⟩
      | _ =>
        rw [hstate] at hqueued
        cases hqueued
  · intro key entry hentry hfinal
    rw [hlater]
    refine ⟨fun key' entry' hentry' hsequence => ?_, fun hprunes => ?_⟩
    · obtain hrecent | ⟨old, hold, haged⟩ := hqueue.origin key' entry' hentry'
      · rw [hsequence] at hrecent
        exact absurd (hmidway.stored_lt hentry) (Nat.not_lt.mpr hrecent)
      · -- The request with that number at the start is the finished one.
        obtain rfl := hmidway.stored_injective hold hentry (haged.sequence.symm.trans hsequence)
        obtain rfl : old = entry := Option.some.inj (hold.symm.trans hentry)
        exact haged.final hfinal
    · exact final_of_run hfinal hprunes hentry

/-! ## Requests the committee took -/

def pastAdmission : OutboxState → Bool
  | .mpcAdmitted _ _ _ | .settled _ | .released _ => true
  | _ => false

theorem pastAdmission_of_mayBecome {before after : OutboxState} (h : mayBecome before after)
    (hbefore : pastAdmission before) : pastAdmission after := by
  cases before with
  | mpcAdmitted => cases after <;> first | rfl | cases h
  | settled => cases isFinal_of_mayBecome h
  | released => cases isFinal_of_mayBecome h
  | _ => cases hbefore

/-- The request with a number, while it is stored, is one that the committee took. -/
def Admitted (q : Queue) (sequence : UInt64) : Prop :=
  ∀ (key : String) (entry : OutboxEntry), q.entries[key]? = some entry →
    entry.sequence = sequence → pastAdmission entry.state

variable {sequence : UInt64}

theorem admitted_setState (h : Admitted q sequence) (hstored : q.entries[key]? = some entry)
    (hstate : entry.sequence = sequence → pastAdmission entry.state → pastAdmission state) :
    Admitted (q.setState key entry state) sequence := by
  intro k new hnew hsequence
  obtain ⟨-, rfl⟩ | ⟨-, hnew⟩ := stored_setState hnew
  · exact hstate hsequence (h key entry hstored hsequence)
  · exact h k new hnew hsequence

theorem admitted_of_moves (hmoves : Moves before after) (h : Admitted before sequence) :
    Admitted after sequence := by
  induction hmoves with
  | refl => exact h
  | tail _ hmove ih =>
    obtain ⟨hstored, hallowed⟩ := hmove
    exact admitted_setState ih hstored fun _ => pastAdmission_of_mayBecome hallowed

/-- Whether the committee took a request. -/
def isMpcAdmitted : OutboxState → Bool
  | .mpcAdmitted _ _ _ => true
  | _ => false

theorem isMpcAdmitted_of_pastAdmission (hpast : pastAdmission state)
    (hunfinished : state.isFinal = false) : isMpcAdmitted state := by
  cases state with
  | mpcAdmitted => rfl
  | settled => cases hunfinished
  | released => cases hunfinished
  | _ => cases hpast

theorem pastAdmission_of_isMpcAdmitted (h : isMpcAdmitted state) : pastAdmission state := by
  cases state <;> first | rfl | cases h

theorem not_pastAdmission_of_nextAttempt (h : NextAttempt state attempt) :
    pastAdmission state = false := by
  cases h <;> rfl

/-- Unless it is reviewed, a request that the committee took only settles or is released. -/
theorem admitted_of_effect (heffect : Effect sha256 before event after)
    (hgiven : sequence.toNat < before.nextSequence.toNat) (h : Admitted before sequence)
    (hreview : ∀ outbox key digest time reason disk, event.1 = .markManualReview outbox key digest
      time reason disk → ∀ entry, before.entries[key]? = some entry → entry.sequence = sequence →
      isMpcAdmitted entry.state → event.2 ≠ .recorded (.ok ())) :
    Admitted after sequence := by
  cases heffect with
  | moved _ _ moves => exact admitted_of_moves moves h
  | reviewed _ _ call succeeded stored unfinished change =>
    subst change
    refine admitted_setState h stored fun hsequence hpast => ?_
    have hadmitted := isMpcAdmitted_of_pastAdmission hpast unfinished
    exact absurd succeeded (hreview _ _ _ _ _ _ call _ stored hsequence hadmitted)
  | pruned _ _ call change =>
    subst change
    intro key entry hentry hsequence
    rw [TreeMap.getElem?_filter', Option.filter_eq_some_iff] at hentry
    exact h key entry hentry.1 hsequence
  | enqueued _ _ numbered =>
    rename_i request _ _
    intro key entry hentry hsequence
    obtain ⟨-, rfl⟩ | ⟨-, hentry⟩ := stored_numbered numbered hentry
    · rw [← hsequence] at hgiven
      change request.sequence.toNat < _ at hgiven
      rw [numbered.number] at hgiven
      exact absurd hgiven (lt_irrefl _)
    · exact h key entry hentry hsequence
  | dispatched _ _ handedOut =>
    obtain ⟨_, _, _, aside, stored, hattempt, _, _, _, change⟩ := handedOut
    subst change
    refine admitted_setState (admitted_of_moves aside h) stored fun _ hpast => ?_
    rw [not_pastAdmission_of_nextAttempt hattempt] at hpast
    cases hpast

/-- If no review of a request succeeds while the committee has it, then a request that the
committee took is from then on settled or released or still with the committee for as long as it
is stored, and never aborted before its reserve. -/
theorem unreviewed_admissions_never_abort (sha256 : Bytes → Digest32) (first second : List Call)
    (key : String) (entry : OutboxEntry)
    (hentry : (contents sha256 first).entries[key]? = some entry)
    (hadmitted : isMpcAdmitted entry.state)
    (hreview : ∀ before after outbox key' digest time reason disk,
      second = before ++ Call.markManualReview outbox key' digest time reason disk :: after →
      ∀ reviewed, (contents sha256 (first ++ before)).entries[key']? = some reviewed →
        reviewed.sequence = entry.sequence → isMpcAdmitted reviewed.state →
        (step sha256 (contents sha256 (first ++ before))
          (.markManualReview outbox key' digest time reason disk)).1 ≠ .recorded (.ok ())) :
    ∀ (key' : String) (entry' : OutboxEntry),
      (contents sha256 (first ++ second)).entries[key']? = some entry' →
      entry'.sequence = entry.sequence →
      pastAdmission entry'.state ∧ ∀ time, entry'.state ≠ .abortedBeforeReserve time := by
  have hkept := kept_history sha256 first
  have hall : Admitted (queue (contents sha256 (first ++ second))) entry.sequence := by
    induction second using reverseRecOn with
    | nil =>
      rw [append_nil]
      intro key' entry' hentry' hsequence
      obtain rfl := hkept.stored_injective hentry' hentry hsequence
      obtain rfl : entry' = entry := Option.some.inj (hentry'.symm.trans hentry)
      exact pastAdmission_of_isMpcAdmitted hadmitted
    | append_singleton second call ih =>
      have hbefore := ih fun before after outbox key' digest time reason disk hsplit => by
        refine hreview before (after ++ [call]) outbox key' digest time reason disk ?_
        rw [hsplit, append_assoc, cons_append]
      have hcontents : contents sha256 (first ++ (second ++ [call])) =
          (step sha256 (contents sha256 (first ++ second)) call).2 := by
        rw [contents, ← append_assoc, run_concat]
        rfl
      have hgiven : entry.sequence.toNat <
          (queue (contents sha256 (first ++ second))).nextSequence.toNat := by
        refine (hkept.stored_lt hentry).trans_le ?_
        rw [contents_append]
        exact (later_run sha256 _ second).1.next
      rw [hcontents]
      refine admitted_of_effect (step_effect sha256 _ call) hgiven hbefore ?_
      intro outbox key' digest time reason disk hcall
      obtain rfl : call = .markManualReview outbox key' digest time reason disk := hcall
      exact hreview second [] outbox key' digest time reason disk rfl
  intro key' entry' hentry' hsequence
  have hpast := hall key' entry' hentry' hsequence
  refine ⟨hpast, fun time hstate => ?_⟩
  rw [hstate] at hpast
  cases hpast

/-! ### A run -/

def sampleHash (bytes : Bytes) : Digest32 := .replicate 32 (UInt8.ofNat bytes.length)

/-- A request is submitted, handed out and taken by the committee. -/
def admittedCalls : List Call :=
  [.enqueue ⟨8, 64⟩ "request-1" [1, 2, 3] 10 100 ⟨.ok (), .ok ()⟩,
    .claimNext ⟨8, 64⟩ 11 true 5 ⟨.ok (), .ok ()⟩,
    .recordMpcAdmission ⟨8, 64⟩ "request-1" (sampleHash [1, 2, 3]) 12
      ⟨"committee", "job-1", sampleHash [1, 2, 3]⟩ ⟨.ok (), .ok ()⟩]

def reviewedCalls : List Call :=
  [.markManualReview ⟨8, 64⟩ "request-1" (sampleHash [1, 2, 3]) 13 "late" ⟨.ok (), .ok ()⟩,
    .recordPreReserveAbort ⟨8, 64⟩ "request-1" (sampleHash [1, 2, 3]) 14 ⟨.ok (), .ok ()⟩]

/-- A request that the committee took is recorded as aborted after a review. -/
theorem reviewed_admission_aborts :
    ((contents sampleHash admittedCalls).entries["request-1"]?).map (·.state) =
      some (.mpcAdmitted 1 12 ⟨"committee", "job-1", sampleHash [1, 2, 3]⟩) ∧
    ((contents sampleHash (admittedCalls ++ reviewedCalls)).entries["request-1"]?).map
      (fun entry => (entry.sequence, entry.state)) = some (0, .abortedBeforeReserve 14) ∧
    (history sampleHash (admittedCalls ++ reviewedCalls)).map Prod.snd =
      [.enqueued (.ok (.enqueued 0)),
        .claimed (.ok (some (.dispatch ⟨"request-1", 0, 10, 100, sampleHash [1, 2, 3], [1, 2, 3],
          1⟩))),
        .recorded (.ok ()), .recorded (.ok ()), .recorded (.ok ())] := by
  decide +kernel

def settledCalls : List Call :=
  [.recordSettlement ⟨8, 64⟩ "request-1" (sampleHash [1, 2, 3])
    ⟨"network", "tx-1", 7, sampleHash [1, 2, 3], 13⟩ ⟨.ok (), .ok ()⟩]

theorem settled_admission_never_aborts :
    ∃ entry : OutboxEntry, (contents sampleHash admittedCalls).entries["request-1"]? = some entry ∧
      isMpcAdmitted entry.state ∧
      ∀ (key : String) (entry' : OutboxEntry),
        (contents sampleHash (admittedCalls ++ settledCalls)).entries[key]? = some entry' →
        entry'.sequence = entry.sequence →
        pastAdmission entry'.state ∧ ∀ time, entry'.state ≠ .abortedBeforeReserve time := by
  refine ⟨⟨"request-1", 0, 10, 100, sampleHash [1, 2, 3], [1, 2, 3],
    .mpcAdmitted 1 12 ⟨"committee", "job-1", sampleHash [1, 2, 3]⟩⟩, by decide +kernel, rfl, ?_⟩
  refine unreviewed_admissions_never_abort sampleHash admittedCalls settledCalls "request-1" _
    (by decide +kernel) rfl ?_
  intro before after outbox key digest time reason disk hsplit
  cases before with
  | nil => cases hsplit
  | cons call rest =>
    have htail := (List.cons.inj hsplit).2
    cases rest <;> cases htail

end Zkpi.OutboxLifecycle
