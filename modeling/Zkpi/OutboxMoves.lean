import Zkpi.DurableOutbox

/-!
# What a call does to the queue

Only the numbered requests and the next number decide what is handed out. A call moves requests
along a fixed graph of states, and at most one call in the history of a request puts it in the
queue; handing out takes the oldest request that may be sent. A call that fails changes nothing.
-/

namespace Zkpi.OutboxMoves

open ByteText CheckedIntegers FallibleChecks StatefulMethods StatefulMethods.Method DurableOutbox
open Std (TreeMap)

/-! ## Calls -/

inductive Call where
  | enqueue (outbox : CorporateOutbox) (requestId : String) (signedRequest : Bytes)
      (acceptedAt expiresAt : UInt64) (disk : Disk)
  | enqueueFirstSeen (outbox : CorporateOutbox) (requestId : String) (signedRequest : Bytes)
      (firstSeenAt expiresAt : UInt64) (disk : Disk)
  | claimNext (outbox : CorporateOutbox) (now : UInt64) (quorumHealthy : Bool)
      (retryAfterSeconds : UInt64) (disk : Disk)
  | claimCoverSlot (outbox : CorporateOutbox) (now : UInt64) (quorumHealthy : Bool)
      (retryAfterSeconds intervalSeconds : UInt64) (disk : Disk)
  | recordMpcAdmission (outbox : CorporateOutbox) (requestId : String) (requestDigest : Digest32)
      (admittedAt : UInt64) (receipt : MpcAdmissionReceipt) (disk : Disk)
  | recordSettlement (outbox : CorporateOutbox) (requestId : String) (requestDigest : Digest32)
      (receipt : CanonicalReceipt) (disk : Disk)
  | markReleasePending (outbox : CorporateOutbox) (requestId : String) (requestDigest : Digest32)
      (requestedAt : UInt64) (disk : Disk)
  | recordRelease (outbox : CorporateOutbox) (requestId : String) (requestDigest : Digest32)
      (receipt : CanonicalReceipt) (disk : Disk)
  | recordPreReserveAbort (outbox : CorporateOutbox) (requestId : String)
      (requestDigest : Digest32) (finalizedAt : UInt64) (disk : Disk)
  | markManualReview (outbox : CorporateOutbox) (requestId : String) (requestDigest : Digest32)
      (markedAt : UInt64) (reason : String) (disk : Disk)
  | pruneFinalized (outbox : CorporateOutbox) (finalizedBefore : UInt64) (disk : Disk)

/-- What a call returns. -/
inductive Answer where
  | enqueued (result : Except String EnqueueOutcome)
  | claimed (result : Except String (Option QueueAction))
  | covered (result : Except String (Option CoverSlot))
  | recorded (result : Except String Unit)
  | pruned (result : Except String ℕ)
  deriving DecidableEq

def step (sha256 : Bytes → Digest32) (data : OutboxData) : Call → Answer × OutboxData
  | .enqueue outbox requestId signedRequest acceptedAt expiresAt disk =>
    (enqueue sha256 outbox requestId signedRequest acceptedAt expiresAt disk data).map .enqueued id
  | .enqueueFirstSeen outbox requestId signedRequest firstSeenAt expiresAt disk =>
    (enqueueFirstSeen sha256 outbox requestId signedRequest firstSeenAt expiresAt disk data).map
      .enqueued id
  | .claimNext outbox now quorumHealthy retryAfterSeconds disk =>
    (claimNext sha256 outbox now quorumHealthy retryAfterSeconds disk data).map .claimed id
  | .claimCoverSlot outbox now quorumHealthy retryAfterSeconds intervalSeconds disk =>
    (claimCoverSlot sha256 outbox now quorumHealthy retryAfterSeconds intervalSeconds disk data).map
      .covered id
  | .recordMpcAdmission outbox requestId requestDigest admittedAt receipt disk =>
    (recordMpcAdmission sha256 outbox requestId requestDigest admittedAt receipt disk data).map
      .recorded id
  | .recordSettlement outbox requestId requestDigest receipt disk =>
    (recordSettlement sha256 outbox requestId requestDigest receipt disk data).map .recorded id
  | .markReleasePending outbox requestId requestDigest requestedAt disk =>
    (markReleasePending sha256 outbox requestId requestDigest requestedAt disk data).map
      .recorded id
  | .recordRelease outbox requestId requestDigest receipt disk =>
    (recordRelease sha256 outbox requestId requestDigest receipt disk data).map .recorded id
  | .recordPreReserveAbort outbox requestId requestDigest finalizedAt disk =>
    (recordPreReserveAbort sha256 outbox requestId requestDigest finalizedAt disk data).map
      .recorded id
  | .markManualReview outbox requestId requestDigest markedAt reason disk =>
    (markManualReview sha256 outbox requestId requestDigest markedAt reason disk data).map
      .recorded id
  | .pruneFinalized outbox finalizedBefore disk =>
    (pruneFinalized sha256 outbox finalizedBefore disk data).map .pruned id

/-- A request that was handed out, and when. -/
structure Dispatch where
  now : UInt64
  request : ClaimedRequest

def dispatchOf : Call × Answer → Option Dispatch
  | (.claimNext _ now _ _ _, .claimed (.ok (some (.dispatch request)))) => some ⟨now, request⟩
  | (.claimCoverSlot _ now _ _ _ _, .covered (.ok (some ⟨_, _, .real request⟩))) =>
    some ⟨now, request⟩
  | _ => none

/-- A request that was numbered, as it was submitted. -/
structure Enqueued where
  requestId : String
  signedRequest : Bytes
  acceptedAt : UInt64
  expiresAt : UInt64
  sequence : UInt64

def enqueueOf : Call × Answer → Option Enqueued
  | (.enqueue _ requestId signedRequest acceptedAt expiresAt _,
      .enqueued (.ok (.enqueued sequence)))
  | (.enqueueFirstSeen _ requestId signedRequest acceptedAt expiresAt _,
      .enqueued (.ok (.enqueued sequence))) =>
    some ⟨requestId, signedRequest, acceptedAt, expiresAt, sequence⟩
  | _ => none

/-! ## The graph of states -/

/-- The part of the file that decides what is handed out. -/
structure Queue where
  nextSequence : UInt64
  entries : TreeMap String OutboxEntry

def queue (data : OutboxData) : Queue := ⟨data.nextSequence, data.entries⟩

def Queue.setState (q : Queue) (key : String) (entry : OutboxEntry) (state : OutboxState) : Queue :=
  { q with entries := q.entries.insert key { entry with state } }

theorem Queue.getElem?_setState (q : Queue) (key : String) (entry : OutboxEntry)
    (state : OutboxState) (k : String) :
    (q.setState key entry state).entries[k]? =
      if key = k then some { entry with state } else q.entries[k]? := by
  simp [Queue.setState, TreeMap.getElem?_insert]

def mayBecome : OutboxState → OutboxState → Bool
  | .queued, .expired _ | .queued, .released _ | .queued, .abortedBeforeReserve _ => true
  | .dispatching attempt _, .mpcAdmitted admitted _ _ => attempt = admitted
  | .dispatching _ _, .settled _ | .dispatching _ _, .expired _ | .dispatching _ _, .released _
  | .dispatching _ _, .abortedBeforeReserve _ | .dispatching _ _, .manualReview _ _ => true
  | .mpcAdmitted _ _ _, .settled _ | .mpcAdmitted _ _ _, .released _ => true
  | .expired _, .releasePending _ | .expired _, .released _
  | .expired _, .abortedBeforeReserve _ => true
  | .releasePending _, .released _ | .releasePending _, .abortedBeforeReserve _ => true
  | .manualReview _ _, .expired _ | .manualReview _ _, .releasePending _
  | .manualReview _ _, .released _ | .manualReview _ _, .abortedBeforeReserve _ => true
  | _, _ => false

variable {before after : OutboxState}

theorem isFinal_of_mayBecome (h : mayBecome before after) : before.isFinal = false := by
  cases before <;> first | rfl | (cases after <;> cases h)

theorem isDispatchable_of_mayBecome (h : mayBecome before after) :
    after.isDispatchable = false := by
  cases after <;> first | rfl | (cases before <;> cases h)

/-- One stored request changes its state. -/
inductive Move (before : Queue) : Queue → Prop
  | intro {key : String} {entry : OutboxEntry} {state : OutboxState}
      (stored : before.entries[key]? = some entry) (allowed : mayBecome entry.state state) :
      Move before (before.setState key entry state)

/-- Any number of stored requests change their states. -/
abbrev Moves := Relation.ReflTransGen Move

/-! ## Effects -/

inductive NextAttempt : OutboxState → UInt32 → Prop
  | first : NextAttempt .queued 1
  | again {attempt next : UInt32} {startedAt : UInt64} (limit : attempt < 10)
      (following : next.toNat = attempt.toNat + 1) :
      NextAttempt (.dispatching attempt startedAt) next

def claimed (entry : OutboxEntry) (attempt : UInt32) : ClaimedRequest :=
  ⟨entry.requestId, entry.sequence, entry.acceptedAt, entry.expiresAt, entry.requestDigest,
    entry.signedRequest, attempt⟩

/-- The request as it is stored. -/
def Enqueued.entry (sha256 : Bytes → Digest32) (enqueued : Enqueued) (state : OutboxState) :
    OutboxEntry :=
  ⟨enqueued.requestId, enqueued.sequence, enqueued.acceptedAt, enqueued.expiresAt,
    sha256 enqueued.signedRequest, enqueued.signedRequest, state⟩

structure HandedOut (before : Queue) (dispatch : Dispatch) (after : Queue) where
  /-- The queue once the requests sent too often are put aside. -/
  mid : Queue
  key : String
  entry : OutboxEntry
  aside : Moves before mid
  stored : mid.entries[key]? = some entry
  attempt : NextAttempt entry.state dispatch.request.attempt
  /-- No request that may be sent has a lower number. -/
  oldest : ∀ (k : String) (other : OutboxEntry), mid.entries[k]? = some other →
    other.state.isDispatchable → entry.sequence.toNat ≤ other.sequence.toNat
  unexpired : dispatch.now < entry.expiresAt
  request : dispatch.request = claimed entry dispatch.request.attempt
  change : after = mid.setState key entry (.dispatching dispatch.request.attempt dispatch.now)

structure Numbered (sha256 : Bytes → Digest32) (before : Queue) (enqueued : Enqueued)
    (after : Queue) : Prop where
  unused : before.entries[enqueued.requestId]? = none
  number : enqueued.sequence = before.nextSequence
  next : after.nextSequence.toNat = before.nextSequence.toNat + 1
  change : after.entries = before.entries.insert enqueued.requestId (enqueued.entry sha256 .queued)

inductive Effect (sha256 : Bytes → Digest32) (before : Queue) (event : Call × Answer)
    (after : Queue) : Prop
  | moved (noDispatch : dispatchOf event = none) (noEnqueue : enqueueOf event = none)
      (moves : Moves before after)
  | reviewed (noDispatch : dispatchOf event = none) (noEnqueue : enqueueOf event = none)
      {outbox : CorporateOutbox} {key : String} {digest : Digest32} {time : UInt64}
      {reason : String} {disk : Disk} {entry : OutboxEntry}
      (call : event.1 = .markManualReview outbox key digest time reason disk)
      (succeeded : event.2 = .recorded (.ok ()))
      (stored : before.entries[key]? = some entry) (unfinished : entry.state.isFinal = false)
      (change : after = before.setState key entry (.manualReview time reason))
  | pruned (noDispatch : dispatchOf event = none) (noEnqueue : enqueueOf event = none)
      {outbox : CorporateOutbox} {time : UInt64} {disk : Disk}
      (call : event.1 = .pruneFinalized outbox time disk)
      (change : after =
        { before with entries := before.entries.filter fun _ entry => !entry.finalizedBefore time })
  | enqueued {request : Enqueued} (noDispatch : dispatchOf event = none)
      (enqueue : enqueueOf event = some request) (numbered : Numbered sha256 before request after)
  | dispatched {dispatch : Dispatch} (claim : dispatchOf event = some dispatch)
      (noEnqueue : enqueueOf event = none) (handedOut : HandedOut before dispatch after)

/-! ## Reading and writing -/

section Update

variable {sha256 : Bytes → Digest32} {A : Type} {data : OutboxData}

/-- Every request is stored under its own identifier. -/
def Indexed (data : OutboxData) : Prop :=
  ∀ (key : String) (entry : OutboxEntry), data.entries[key]? = some entry → entry.requestId = key

theorem indexed_of_validateData {outbox : CorporateOutbox}
    (h : outbox.validateData sha256 data = .ok ()) : Indexed data := by
  intro key entry hentry
  obtain ⟨_, h⟩ := refuseIf_bind_ok.mp h
  obtain ⟨_, h⟩ := refuseIf_bind_ok.mp h
  have hmem : (key, entry) ∈ data.entries.toList :=
    TreeMap.mem_toList_iff_getElem?_eq_some.mpr hentry
  have hvalid := forM_ok.mp h (key, entry) hmem
  obtain ⟨_, _, hvalid⟩ := bind_ok.mp hvalid
  obtain ⟨hkey, _⟩ := refuseIf_bind_ok.mp hvalid
  exact (not_not.mp hkey).symm

def Performs (method : Method OutboxData A) (data : OutboxData)
    (operation : OutboxData → Except String (A × OutboxData)) : Prop :=
  (∃ message, method data = (.error message, data)) ∨
    ∃ value next after, method data = (.ok value, after) ∧ Indexed data ∧
      operation data = .ok (value, next) ∧ queue after = queue next

theorem performs_update {outbox : CorporateOutbox} {disk : Disk}
    {operation : OutboxData → Except String (A × OutboxData)} :
    Performs (outbox.update sha256 disk operation) data operation := by
  have hatomic : Atomic (outbox.update sha256 disk operation) := by
    refine atomic_bind readOnly_lift fun _ => atomic_bind readOnly_read fun _ => ?_
    refine atomic_bind readOnly_lift fun _ => atomic_bind readOnly_lift fun _ => ?_
    refine atomic_bind readOnly_need fun _ => atomic_bind readOnly_lift fun _ => ?_
    exact atomic_bind readOnly_lift fun _ => atomic_write_pure
  cases hcall : outbox.update sha256 disk operation data with
  | mk result after =>
    cases result with
    | error message =>
      obtain rfl := hatomic data message after hcall
      exact .inl ⟨message, hcall⟩
    | ok value =>
      refine .inr ⟨value, ?_⟩
      have h := hcall
      obtain ⟨_, _, h⟩ := lift_bind_ok.mp h
      obtain ⟨_, _, hread, h⟩ := Method.bind_ok.mp h
      obtain ⟨rfl, rfl⟩ := read_ok.mp hread
      obtain ⟨_, hvalid, h⟩ := lift_bind_ok.mp h
      obtain ⟨⟨_, next⟩, hoperation, h⟩ := lift_bind_ok.mp h
      obtain ⟨_, _, h⟩ := need_bind_ok.mp h
      obtain ⟨_, _, h⟩ := lift_bind_ok.mp h
      obtain ⟨_, _, h⟩ := lift_bind_ok.mp h
      obtain ⟨_, _, hwrite, h⟩ := Method.bind_ok.mp h
      obtain rfl := write_ok.mp hwrite
      obtain ⟨rfl, rfl⟩ := pure_ok.mp h
      exact ⟨next, _, hcall, indexed_of_validateData hvalid, hoperation, rfl⟩

theorem performs_lift_bind {B : Type} {check : Except String B} {rest : B → Method OutboxData A}
    (h : ∀ value, Performs (rest value) data operation) :
    Performs (lift check >>= rest) data operation := by
  cases check with
  | error message => exact .inl ⟨message, rfl⟩
  | ok value => exact h value

theorem performs_failIf_bind [Decidable condition]
    {rest : Unit → Method OutboxData A} (h : Performs (rest ()) data operation) :
    Performs (failIf condition message >>= rest) data operation := by
  by_cases hc : condition
  · exact .inl ⟨message, failIf_bind_of hc⟩
  · unfold Performs
    rw [failIf_bind_of_not hc]
    exact h

end Update

/-! ## Claims -/

section Claim

variable {data after : OutboxData} {now : UInt64}

theorem mem_values : entry ∈ data.values ↔ ∃ key : String, data.entries[key]? = some entry := by
  simp [OutboxData.values, TreeMap.mem_toList_iff_getElem?_eq_some]

theorem oldest_filter (hindexed : Indexed data)
    (h : oldest (data.values.filter kind) = some found) :
    data.entries[found.requestId]? = some found ∧ kind found ∧
      ∀ (key : String) (other : OutboxEntry), data.entries[key]? = some other → kind other →
        found.sequence.toNat ≤ other.sequence.toNat := by
  have hmem := List.mem_filter.mp (List.argmin_mem h)
  obtain ⟨key, hkey⟩ := mem_values.mp hmem.1
  obtain rfl := hindexed key found hkey
  refine ⟨hkey, hmem.2, fun k other hother hkind => ?_⟩
  exact List.le_of_mem_argmin (f := fun entry : OutboxEntry => entry.sequence.toNat)
    (List.mem_filter.mpr ⟨mem_values.mpr ⟨k, hother⟩, hkind⟩) h

/-- There is no oldest request of a kind only if there is none. -/
theorem oldest_filter_none (h : oldest (data.values.filter kind) = none) (key : String)
    (entry : OutboxEntry) (hentry : data.entries[key]? = some entry) : kind entry = false := by
  by_contra hkind
  have hmem : entry ∈ data.values.filter kind :=
    List.mem_filter.mpr ⟨mem_values.mpr ⟨key, hentry⟩, by simpa using hkind⟩
  rw [List.argmin_eq_none.mp h] at hmem
  cases hmem

variable {key : String}

theorem getElem?_setState (data : OutboxData) (key : String) (entry : OutboxEntry)
    (state : OutboxState) (k : String) : (data.setState key entry state).entries[k]? =
      if key = k then some { entry with state } else data.entries[k]? :=
  Queue.getElem?_setState (queue data) key entry state k

theorem indexed_setState (h : Indexed data)
    (hentry : data.entries[key]? = some entry) (state : OutboxState) :
    Indexed (data.setState key entry state) := by
  intro k other hother
  rw [getElem?_setState] at hother
  split_ifs at hother with hk
  · cases hother
    exact (h key entry hentry).trans hk
  · exact h k other hother

/-- No request that may be sent has expired. -/
def Unexpired (data : OutboxData) (now : UInt64) : Prop :=
  ∀ (key : String) (entry : OutboxEntry), data.entries[key]? = some entry →
    entry.state.isDispatchable → now < entry.expiresAt

theorem unexpired_setState (h : Unexpired data now) (key : String) (entry : OutboxEntry)
    (hstate : state.isDispatchable = false) :
    Unexpired (data.setState key entry state) now := by
  intro k other hother hdispatchable
  rw [getElem?_setState] at hother
  split at hother
  · cases hother
    rw [hstate] at hdispatchable
    cases hdispatchable
  · exact h k other hother hdispatchable

/-- What a claim did: requests were put aside, and at most one was handed out. -/
inductive Claimed (before : Queue) (now : UInt64) : Option QueueAction → Queue → Prop
  | none {after : Queue} (moves : Moves before after) : Claimed before now none after
  | expire {after : Queue} {requestId : String} {requestDigest : Digest32}
      (moves : Moves before after) :
      Claimed before now (some (.expire requestId requestDigest)) after
  | dispatch {after : Queue} {request : ClaimedRequest}
      (handedOut : HandedOut before ⟨now, request⟩ after) :
      Claimed before now (some (.dispatch request)) after

theorem Claimed.head {before mid after : Queue} (hmove : Move before mid)
    (h : Claimed mid now action after) : Claimed before now action after := by
  cases h with
  | none moves => exact .none (.head hmove moves)
  | expire moves => exact .expire (.head hmove moves)
  | dispatch handedOut =>
    exact .dispatch { handedOut with aside := .head hmove handedOut.aside }

theorem claimed_dispatchEntry
    (hstored : data.entries[key]? = some entry) (hattempt : NextAttempt entry.state attempt)
    (holdest : ∀ (k : String) (other : OutboxEntry), data.entries[k]? = some other →
      other.state.isDispatchable → entry.sequence.toNat ≤ other.sequence.toNat)
    (hunexpired : now < entry.expiresAt) :
    Claimed (queue data) now (dispatchEntry data key entry attempt now).1
      (queue (dispatchEntry data key entry attempt now).2) :=
  .dispatch {
    mid := queue data
    key := key
    entry := entry
    aside := .refl
    stored := hstored
    attempt := hattempt
    oldest := holdest
    unexpired := hunexpired
    request := rfl
    change := rfl }

theorem claimDispatchable_ok (hindexed : Indexed data) (hunexpired : Unexpired data now)
    (h : claimDispatchable fuel data now retryAfterSeconds = .ok outcome) :
    Claimed (queue data) now outcome.1 (queue outcome.2) := by
  induction fuel generalizing data with
  | zero => cases h
  | succ fuel ih =>
    rw [claimDispatchable] at h
    split at h
    · cases h
      exact .none .refl
    · rename_i found hfound
      obtain ⟨hstored, hkind, holdest⟩ := oldest_filter hindexed hfound
      obtain ⟨entry, hentry, h⟩ := bind_ok.mp h
      rw [orRefuse_ok, hstored] at hentry
      cases hentry
      have hnow := hunexpired _ _ hstored hkind
      split at h
      · rename_i hstate
        cases h
        exact claimed_dispatchEntry hstored (hstate ▸ .first) holdest hnow
      · rename_i attempt startedAt hstate
        split at h
        · have hmove : Move (queue data) ((queue data).setState found.requestId found
              (.manualReview now "automatic MPC dispatch retry limit reached")) :=
            .intro hstored (hstate ▸ rfl)
          exact .head hmove
            (ih (indexed_setState hindexed hstored _) (unexpired_setState hunexpired _ _ rfl) h)
        · rename_i hlimit
          split at h
          · cases h
            exact .none .refl
          · obtain ⟨_, h⟩ := refuseIf_bind_ok.mp h
            cases h
            have hlimit := UInt32.not_le.mp hlimit
            refine claimed_dispatchEntry hstored ?_ holdest hnow
            rw [hstate]
            refine .again hlimit ?_
            rw [UInt32.toNat_add]
            have := UInt32.lt_iff_toNat_lt.mp hlimit
            exact Nat.mod_eq_of_lt (by simp only [UInt32.reduceToNat] at *; omega)
      · cases h

theorem claimOldest_ok (hindexed : Indexed data)
    (h : claimOldest data now retryAfterSeconds quorumHealthy = .ok outcome) :
    Claimed (queue data) now outcome.1 (queue outcome.2) := by
  unfold claimOldest at h
  split at h
  · cases h
    exact .expire .refl
  · split at h
    · rename_i found hfound
      obtain ⟨hstored, hkind, _⟩ := oldest_filter hindexed hfound
      obtain ⟨entry, hentry, h⟩ := bind_ok.mp h
      rw [orRefuse_ok, hstored] at hentry
      cases hentry
      cases h
      refine .expire (.single (.intro hstored ?_))
      have hstate := (Bool.and_eq_true_iff.mp hkind).2
      cases hfound : found.state <;> rw [hfound] at hstate <;> first | rfl | cases hstate
    · rename_i hnone
      split at h
      · refine claimDispatchable_ok hindexed (fun key entry hentry hkind => ?_) h
        have hkept := oldest_filter_none hnone key entry hentry
        have hmay : entry.state.mayExpire = true := by
          cases hstate : entry.state <;> rw [hstate] at hkind <;> first | rfl | cases hkind
        rw [hmay, Bool.and_true, decide_eq_false_iff_not] at hkept
        exact UInt64.not_le.mp hkept
      · cases h
        exact .none .refl

/-! ## The search ends -/

def dispatchableKeys (data : OutboxData) : Finset String :=
  data.entries.keys.toFinset.filter fun key => (data.entries[key]?).any (·.state.isDispatchable)

theorem mem_dispatchableKeys : key ∈ dispatchableKeys data ↔
    ∃ entry, data.entries[key]? = some entry ∧ entry.state.isDispatchable := by
  rw [dispatchableKeys, Finset.mem_filter, List.mem_toFinset, TreeMap.mem_keys, Option.any_eq_true]
  constructor
  · exact fun h => h.2
  · rintro ⟨entry, hentry, hkind⟩
    refine ⟨TreeMap.mem_iff_isSome_getElem?.mpr ?_, entry, hentry, hkind⟩
    rw [hentry]
    rfl

theorem card_dispatchableKeys_le {data : OutboxData} :
    (dispatchableKeys data).card ≤ data.entries.size := by
  rw [← TreeMap.length_keys]
  exact (Finset.card_filter_le _ _).trans (List.toFinset_card_le _)

theorem dispatchableKeys_setState {key : String} {entry : OutboxEntry}
    (hstate : state.isDispatchable = false) :
    dispatchableKeys (data.setState key entry state) = (dispatchableKeys data).erase key := by
  ext k
  rw [Finset.mem_erase, mem_dispatchableKeys, mem_dispatchableKeys, getElem?_setState]
  by_cases hk : key = k
  · simp [hk, hstate]
  · simp [hk, Ne.symm hk]

theorem claimDispatchable_total (hindexed : Indexed data)
    (hfuel : (dispatchableKeys data).card < fuel) :
    ∃ outcome, claimDispatchable fuel data now retryAfterSeconds = .ok outcome := by
  induction fuel generalizing data with
  | zero => exact absurd hfuel (Nat.not_lt_zero _)
  | succ fuel ih =>
    rw [claimDispatchable]
    split
    · exact ⟨_, rfl⟩
    · rename_i found hfound
      obtain ⟨hstored, hkind, _⟩ := oldest_filter hindexed hfound
      suffices hrest : ∃ outcome, _ = Except.ok outcome by
        obtain ⟨outcome, hrest⟩ := hrest
        exact ⟨outcome, bind_ok.mpr ⟨found, orRefuse_ok.mpr hstored, hrest⟩⟩
      split
      · exact ⟨_, rfl⟩
      · rename_i attempt startedAt hstate
        split
        · refine ih (indexed_setState hindexed hstored _) ?_
          have hmem := mem_dispatchableKeys.mpr ⟨found, hstored, hkind⟩
          have hpos := Finset.card_pos.mpr ⟨_, hmem⟩
          rw [dispatchableKeys_setState rfl, Finset.card_erase_of_mem hmem]
          omega
        · rename_i hlimit
          split
          · exact ⟨_, rfl⟩
          · have hlimit := UInt32.lt_iff_toNat_lt.mp (UInt32.not_le.mp hlimit)
            refine ⟨_, refuseIf_bind_ok.mpr ⟨?_, rfl⟩⟩
            simp only [UInt32.reduceToNat] at hlimit
            omega
      · rename_i hqueued hdispatching
        cases hstate : found.state with
        | queued => exact absurd hstate hqueued
        | dispatching attempt startedAt => exact absurd hstate (hdispatching attempt startedAt)
        | _ =>
          rw [hstate] at hkind
          cases hkind

/-- On valid contents a claim itself does not fail, so its search is never cut short. -/
theorem claimOldest_total (hindexed : Indexed data) :
    ∃ outcome, claimOldest data now retryAfterSeconds quorumHealthy = .ok outcome := by
  unfold claimOldest
  split
  · exact ⟨_, rfl⟩
  · split
    · rename_i found hfound
      obtain ⟨hstored, _⟩ := oldest_filter hindexed hfound
      rw [hstored]
      exact ⟨_, rfl⟩
    · split
      · exact claimDispatchable_total hindexed (Nat.lt_succ_of_le card_dispatchableKeys_le)
      · exact ⟨_, rfl⟩

/-- Two requests that were sent ten times each, and one that was not sent. -/
def exhausted : OutboxData where
  generation := 4
  nextSequence := 3
  nextCoverSlot := 0
  nextCoverDueAt := none
  entries := TreeMap.ofList
    [("a", (⟨"a", 0, 1, 100, repeated 0, [1], .dispatching 10 2⟩ : OutboxEntry)),
      ("b", ⟨"b", 1, 1, 100, repeated 0, [1], .dispatching 10 3⟩),
      ("c", ⟨"c", 2, 1, 100, repeated 0, [1], .queued⟩)]

/-- The search passes over both requests, each of which it hands over for review. -/
theorem claimOldest_total_exhausted :
    (∃ outcome, claimOldest exhausted 50 5 true = .ok outcome) ∧
    passes (claimOldest exhausted 50 5 true) (fun outcome => ["a", "b"].all fun key =>
      (outcome.2.entries[key]?).map (·.state) =
        some (.manualReview 50 "automatic MPC dispatch retry limit reached")) = true := by
  have hvalid : CorporateOutbox.validateData (fun _ => repeated 0) ⟨8, 64⟩ exhausted = .ok () := by
    decide +kernel
  exact ⟨claimOldest_total (indexed_of_validateData hvalid), by decide +kernel⟩

theorem coverSlot_ok {intervalSeconds : UInt64} {outcome : Option CoverSlot × OutboxData}
    (hindexed : Indexed data)
    (h : coverSlot now quorumHealthy retryAfterSeconds intervalSeconds data = .ok outcome) :
    (outcome.1 = none ∧ outcome.2 = data) ∨
      ∃ action slot, outcome.1 = some slot ∧ coverAction quorumHealthy action = .ok slot.action ∧
        Claimed (queue data) now action (queue outcome.2) := by
  simp only [coverSlot] at h
  split at h
  · cases h
    exact .inl ⟨rfl, rfl⟩
  · obtain ⟨nextCoverSlot, _, h⟩ := bind_ok.mp h
    obtain ⟨nextDueAt, _, h⟩ := bind_ok.mp h
    obtain ⟨_, hclaim, h⟩ := bind_ok.mp h
    obtain ⟨_, haction, h⟩ := bind_ok.mp h
    cases h
    have hscheduled : Indexed { data with nextCoverSlot, nextCoverDueAt := some nextDueAt } :=
      hindexed
    have hclaimed := claimOldest_ok hscheduled hclaim
    exact .inr ⟨_, _, rfl, haction, hclaimed⟩

end Claim

/-! ## Rulings -/

def Lawful (ruling : Ruling) : Prop :=
  ∀ before after, ruling before = .ok (some after) → mayBecome before after

theorem lawful_admissionRuling :
    Lawful (admissionRuling admittedAt receipt) := by
  intro before _ h
  cases before with
  | dispatching =>
    cases h
    exact decide_eq_true rfl
  | mpcAdmitted =>
    simp only [admissionRuling] at h
    split at h <;> cases h
  | _ => cases h

theorem lawful_settlementRuling :
    Lawful (settlementRuling receipt) := by
  intro before _ h
  cases before with
  | settled =>
    simp only [settlementRuling] at h
    split at h <;> cases h
  | dispatching =>
    cases h
    rfl
  | mpcAdmitted =>
    cases h
    rfl
  | _ => cases h

theorem lawful_releasePendingRuling :
    Lawful (releasePendingRuling requestedAt) := by
  intro before _ h
  cases before <;> cases h <;> rfl

theorem lawful_releaseRuling : Lawful (releaseRuling receipt) := by
  intro before _ h
  cases before with
  | released =>
    simp only [releaseRuling] at h
    split at h <;> cases h
  | _ => cases h <;> rfl

theorem lawful_abortRuling : Lawful (abortRuling finalizedAt) := by
  intro before _ h
  cases before <;> cases h <;> rfl

variable {data : OutboxData}

theorem recordState_ok (h : recordState requestId requestDigest ruling data = .ok outcome) :
    outcome.2 = data ∨ ∃ entry state, data.entries[requestId]? = some entry ∧
      ruling entry.state = .ok (some state) ∧ outcome.2 = data.setState requestId entry state := by
  obtain ⟨entry, hentry, h⟩ := bind_ok.mp h
  obtain ⟨found, hfound, hentry⟩ := bind_ok.mp hentry
  obtain ⟨_, hentry⟩ := refuseIf_bind_ok.mp hentry
  obtain rfl : found = entry := Except.ok.inj hentry
  obtain ⟨change, hchange, h⟩ := bind_ok.mp h
  cases change with
  | none =>
    cases h
    exact .inl rfl
  | some state =>
    cases h
    exact .inr ⟨found, state, orRefuse_ok.mp hfound, hchange, rfl⟩

theorem moves_of_lawful (hlawful : Lawful ruling)
    (h : Performs method data (recordState requestId requestDigest ruling)) :
    Moves (queue data) (queue (method data).2) := by
  obtain ⟨_, hcall⟩ | ⟨_, next, _, hcall, _, hrecord, hafter⟩ := h
  · rw [hcall]
  · rw [hcall, hafter]
    obtain hnext | ⟨entry, state, hentry, hruling, hnext⟩ := recordState_ok hrecord
    · rw [show next = data from hnext]
    · rw [show next = data.setState requestId entry state from hnext]
      exact .single (.intro hentry (hlawful _ _ hruling))

/-! ## Calls and their effects -/

section Effects

variable {sha256 : Bytes → Digest32} {data : OutboxData}

variable {outbox : CorporateOutbox}

theorem enqueueRequest_ok
    (h : enqueueRequest sha256 outbox requestId signedRequest acceptedAt expiresAt sameTime data =
      .ok outcome) :
    (∃ sequence, outcome = (.alreadyPresent sequence, data)) ∨
      ∃ sequence, outcome.1 = .enqueued sequence ∧
        Numbered sha256 (queue data)
          ⟨requestId, signedRequest, acceptedAt, expiresAt, sequence⟩ (queue outcome.2) := by
  unfold enqueueRequest at h
  split at h
  · split at h
    · cases h
      exact .inl ⟨_, rfl⟩
    · cases h
  · rename_i hnone
    obtain ⟨_, h⟩ := refuseIf_bind_ok.mp h
    obtain ⟨_, hnext, h⟩ := bind_ok.mp h
    cases h
    refine .inr ⟨_, rfl, hnone, rfl, ?_, rfl⟩
    exact checkedAdd_eq_some.mp (orRefuse_ok.mp hnext)

variable {call : Call}

variable (sha256 data) in
abbrev StepEffect (call : Call) : Prop :=
  Effect sha256 (queue data) (call, (step sha256 data call).1) (queue (step sha256 data call).2)

/-- A call has the effect of its operation, and none if it fails. -/
theorem effect_of_performs {A : Type} {method : Method OutboxData A}
    {operation : OutboxData → Except String (A × OutboxData)} {answer : Except String A → Answer}
    (hperforms : Performs method data operation)
    (hstep : step sha256 data call = (method data).map answer id)
    (hfailed : ∀ message, Effect sha256 (queue data) (call, answer (.error message)) (queue data))
    (hdone : ∀ value next, Indexed data → operation data = .ok (value, next) →
      Effect sha256 (queue data) (call, answer (.ok value)) (queue next)) :
    StepEffect sha256 data call := by
  rw [StepEffect, hstep]
  obtain ⟨message, hresult⟩ | ⟨value, next, after, hresult, hindexed, hnext, hafter⟩ := hperforms
  · rw [hresult]
    exact hfailed message
  · rw [hresult]
    change Effect sha256 (queue data) (call, answer (.ok value)) (queue after)
    rw [hafter]
    exact hdone value next hindexed hnext

/-- The effect of either way to enqueue, whose events differ only in the call. -/
theorem effect_enqueueWith {disk : Disk}
    (hdispatch : ∀ result, dispatchOf (call, .enqueued result) = none)
    (hnone : ∀ message, enqueueOf (call, .enqueued (.error message)) = none)
    (hpresent : ∀ sequence, enqueueOf (call, .enqueued (.ok (.alreadyPresent sequence))) = none)
    (hnew : ∀ sequence, enqueueOf (call, .enqueued (.ok (.enqueued sequence))) = some ⟨requestId,
      signedRequest, acceptedAt, expiresAt, sequence⟩)
    (hcall : step sha256 data call = ((enqueueWith sha256 outbox requestId signedRequest acceptedAt
      expiresAt sameTime disk data).map .enqueued id)) :
    StepEffect sha256 data call := by
  refine effect_of_performs (performs_lift_bind fun _ => performs_failIf_bind <|
    performs_failIf_bind <| performs_update) hcall
    (fun message => .moved (hdispatch _) (hnone message) .refl) fun value next _ hnext => ?_
  obtain ⟨sequence, houtcome⟩ | ⟨sequence, hvalue, hnumbered⟩ := enqueueRequest_ok hnext
  · cases houtcome
    exact .moved (hdispatch _) (hpresent sequence) .refl
  · rw [show value = .enqueued sequence from hvalue]
    exact .enqueued (hdispatch _) (hnew sequence) hnumbered

variable (outbox : CorporateOutbox)

theorem effect_claimNext :
    StepEffect sha256 data (.claimNext outbox now quorumHealthy retryAfterSeconds disk) := by
  have hperforms : Performs (claimNext sha256 outbox now quorumHealthy retryAfterSeconds disk) data
      fun data => claimOldest data now retryAfterSeconds quorumHealthy :=
    performs_update
  refine effect_of_performs hperforms rfl (fun _ => .moved rfl rfl .refl)
    fun value next hindexed hnext => ?_
  cases claimOldest_ok hindexed hnext with
  | none moves | expire moves => exact .moved rfl rfl moves
  | dispatch handedOut => exact .dispatched rfl rfl handedOut

theorem effect_claimCoverSlot :
    StepEffect sha256 data
      (.claimCoverSlot outbox now quorumHealthy retryAfterSeconds intervalSeconds disk) := by
  have hperforms : Performs (claimCoverSlot sha256 outbox now quorumHealthy retryAfterSeconds
      intervalSeconds disk) data
      (coverSlot now quorumHealthy retryAfterSeconds intervalSeconds) :=
    performs_failIf_bind performs_update
  refine effect_of_performs hperforms rfl (fun _ => .moved rfl rfl .refl)
    fun value next hindexed hnext => ?_
  obtain ⟨hvalue, hdata⟩ | ⟨_, slot, hvalue, haction, hclaimed⟩ := coverSlot_ok hindexed hnext
  · rw [show value = none from hvalue, show next = data from hdata]
    exact .moved rfl rfl .refl
  · rw [show value = some slot from hvalue]
    obtain ⟨_, _, _⟩ := slot
    cases hclaimed with
    | none moves | expire moves =>
      cases haction
      exact .moved rfl rfl moves
    | dispatch handedOut =>
      simp only [coverAction] at haction
      split at haction
      · cases haction
        exact .dispatched rfl rfl handedOut
      · cases haction

theorem effect_markManualReview :
    StepEffect sha256 data
      (.markManualReview outbox requestId requestDigest markedAt reason disk) := by
  have hperforms : Performs (markManualReview sha256 outbox requestId requestDigest markedAt reason
      disk) data (recordState requestId requestDigest (reviewRuling markedAt reason)) :=
    performs_failIf_bind performs_update
  refine effect_of_performs hperforms rfl (fun _ => .moved rfl rfl .refl)
    fun value next _ hnext => ?_
  obtain hdata | ⟨entry, state, hentry, hruling, hdata⟩ := recordState_ok hnext
  · rw [show next = data from hdata]
    exact .moved rfl rfl .refl
  · rw [show next = data.setState requestId entry state from hdata]
    have hstate : entry.state.isFinal = false ∧ state = .manualReview markedAt reason := by
      cases hbefore : entry.state <;> rw [hbefore] at hruling <;> cases hruling <;>
        exact ⟨rfl, rfl⟩
    rw [hstate.2]
    exact .reviewed rfl rfl rfl rfl hentry hstate.1 rfl

theorem effect_pruneFinalized :
    StepEffect sha256 data (.pruneFinalized outbox finalizedBefore disk) := by
  have hperforms : Performs (pruneFinalized sha256 outbox finalizedBefore disk) data _ :=
    performs_update
  refine effect_of_performs hperforms rfl (fun _ => .moved rfl rfl .refl)
    fun value next _ hnext => ?_
  cases hnext
  exact .pruned rfl rfl rfl rfl

theorem step_effect (sha256 : Bytes → Digest32) (data : OutboxData) (call : Call) :
    StepEffect sha256 data call := by
  cases call with
  | enqueue | enqueueFirstSeen =>
    exact effect_enqueueWith (fun _ => rfl) (fun _ => rfl) (fun _ => rfl) (fun _ => rfl) rfl
  | claimNext => exact effect_claimNext _
  | claimCoverSlot => exact effect_claimCoverSlot _
  | recordMpcAdmission outbox requestId requestDigest admittedAt receipt disk =>
    refine .moved rfl rfl ?_
    rw [step, Prod.map_snd]
    apply moves_of_lawful lawful_admissionRuling
    exact performs_lift_bind fun _ => performs_lift_bind fun _ => performs_failIf_bind <|
      performs_update
  | recordSettlement outbox requestId requestDigest receipt disk =>
    refine .moved rfl rfl ?_
    rw [step, Prod.map_snd]
    apply moves_of_lawful lawful_settlementRuling
    exact performs_lift_bind fun _ => performs_update
  | markReleasePending outbox requestId requestDigest requestedAt disk =>
    refine .moved rfl rfl ?_
    rw [step, Prod.map_snd]
    apply moves_of_lawful lawful_releasePendingRuling
    exact performs_update
  | recordRelease outbox requestId requestDigest receipt disk =>
    refine .moved rfl rfl ?_
    rw [step, Prod.map_snd]
    apply moves_of_lawful lawful_releaseRuling
    exact performs_lift_bind fun _ => performs_update
  | recordPreReserveAbort outbox requestId requestDigest finalizedAt disk =>
    refine .moved rfl rfl ?_
    rw [step, Prod.map_snd]
    apply moves_of_lawful lawful_abortRuling
    exact performs_update
  | markManualReview => exact effect_markManualReview _
  | pruneFinalized => exact effect_pruneFinalized _

end Effects

end Zkpi.OutboxMoves
