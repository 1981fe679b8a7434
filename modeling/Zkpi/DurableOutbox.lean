import Zkpi.ByteText
import Zkpi.CheckedIntegers
import Zkpi.FallibleChecks
import Zkpi.StatefulMethods

/-!
# The corporate request outbox

A corporate participant keeps signed requests in an encrypted file while the committee cannot take
them. Requests are numbered as they come in, handed out oldest first and retried with growing
delays; a request that expires is held back until its reserve is released. What became of each
request is recorded until it is pruned.

The hash is an arbitrary function. Every call comes with the handle it is made on, since handles of
one file may have different limits, and with what the file system answers; a write either replaces
the whole file or fails. The contents of a file are checked when it is read and before it is
written.
-/

namespace Zkpi.DurableOutbox

open ByteText CheckedIntegers FallibleChecks StatefulMethods StatefulMethods.Method
open Std (TreeMap)

/-! ## Requests and their states -/

/-- The committee's word that it took a request. -/
structure MpcAdmissionReceipt where
  committeeId : String
  jobId : String
  admittedRequestDigest : Digest32
  deriving DecidableEq

/-- The ledger's word on a request. -/
structure CanonicalReceipt where
  defmiNetworkId : String
  transactionId : String
  ledgerHeight : UInt64
  requestDigest : Digest32
  finalizedAt : UInt64
  deriving DecidableEq

/-- What became of a request. -/
inductive OutboxState where
  | queued
  | dispatching (attempt : UInt32) (startedAt : UInt64)
  | mpcAdmitted (attempt : UInt32) (admittedAt : UInt64) (receipt : MpcAdmissionReceipt)
  | settled (receipt : CanonicalReceipt)
  | expired (expiredAt : UInt64)
  | releasePending (requestedAt : UInt64)
  | released (receipt : CanonicalReceipt)
  | abortedBeforeReserve (finalizedAt : UInt64)
  | manualReview (markedAt : UInt64) (reason : String)
  deriving DecidableEq

namespace OutboxState

/-- May still be handed out. -/
def isDispatchable : OutboxState → Bool
  | queued | dispatching _ _ => true
  | _ => false

def isReleasing : OutboxState → Bool
  | expired _ | releasePending _ => true
  | _ => false

def mayExpire : OutboxState → Bool
  | queued | dispatching _ _ | manualReview _ _ => true
  | _ => false

/-- Nothing more is to happen. -/
def isFinal : OutboxState → Bool
  | settled _ | released _ | abortedBeforeReserve _ => true
  | _ => false

/-- When a finished request was finished. -/
def finalizedAt : OutboxState → Option UInt64
  | settled receipt | released receipt => some receipt.finalizedAt
  | abortedBeforeReserve finalizedAt => some finalizedAt
  | _ => none

end OutboxState

/-- A stored request. -/
structure OutboxEntry where
  requestId : String
  sequence : UInt64
  acceptedAt : UInt64
  expiresAt : UInt64
  requestDigest : Digest32
  signedRequest : Bytes
  state : OutboxState
  deriving DecidableEq

/-- The contents of the file. -/
structure OutboxData where
  generation : UInt64
  nextSequence : UInt64
  nextCoverSlot : UInt64
  nextCoverDueAt : Option UInt64
  entries : TreeMap String OutboxEntry

/-- A new file. -/
def OutboxData.default : OutboxData := ⟨0, 0, 0, none, ∅⟩

/-- The stored requests. -/
def OutboxData.values (data : OutboxData) : List OutboxEntry := data.entries.toList.map Prod.snd

def OutboxData.setState (data : OutboxData) (key : String) (entry : OutboxEntry)
    (state : OutboxState) : OutboxData :=
  { data with entries := data.entries.insert key { entry with state } }

/-! ## Checks -/

/-- A handle of the file. -/
structure CorporateOutbox where
  maxEntries : ℕ
  maxRequestBytes : ℕ

def isIdentifierChar (c : Char) : Bool :=
  c.isAlphanum || c = '-' || c = '_' || c = ':' || c = '.'

def validateIdentifier (label value : String) (maximum : ℕ) : Except String Unit :=
  refuseIf (value = "" ∨ maximum < (utf8 value).length ∨ ¬ value.toList.all isIdentifierChar)
    s!"{label} is invalid"

variable (sha256 : Bytes → Digest32)

variable (outbox : CorporateOutbox)

def CorporateOutbox.validateEntry (key : String) (entry : OutboxEntry) : Except String Unit := do
  validateIdentifier "request id" key 128
  refuseIf (key ≠ entry.requestId) "corporate outbox request index is inconsistent"
  refuseIf (entry.signedRequest = [] ∨ outbox.maxRequestBytes < entry.signedRequest.length)
    "corporate outbox request exceeds its configured limit"
  refuseIf (entry.expiresAt ≤ entry.acceptedAt) "corporate outbox contains an invalid expiry"
  refuseIf (sha256 entry.signedRequest ≠ entry.requestDigest)
    "corporate outbox request digest mismatch"

/-- Check the contents of the file. -/
def CorporateOutbox.validateData (data : OutboxData) : Except String Unit := do
  refuseIf (outbox.maxEntries < data.entries.size) "corporate outbox contains too many entries"
  refuseIf ((data.values.map (·.sequence)).toFinset.card ≠ data.entries.size)
    "corporate outbox contains duplicate sequence numbers"
  data.entries.toList.forM fun entry => outbox.validateEntry sha256 entry.1 entry.2

def validateCanonicalReceipt (receipt : CanonicalReceipt) (requestDigest : Digest32) :
    Except String Unit := do
  validateIdentifier "DeFMI network id" receipt.defmiNetworkId 256
  validateIdentifier "transaction id" receipt.transactionId 256
  refuseIf (receipt.requestDigest ≠ requestDigest)
    "canonical receipt is bound to a different request"

def sameCanonicalTransition (left right : CanonicalReceipt) : Bool :=
  left.defmiNetworkId = right.defmiNetworkId && left.transactionId = right.transactionId &&
    left.ledgerHeight = right.ledgerHeight && left.requestDigest = right.requestDigest

/-! ## Reading and writing the file -/

/-- What the file system answers to a call. -/
structure Disk where
  read : Except String Unit
  write : Except String Unit

/-- Read the file, change its contents and write it. An operation that fails is not written. -/
def CorporateOutbox.update {A : Type} (outbox : CorporateOutbox) (disk : Disk)
    (operation : OutboxData → Except String (A × OutboxData)) : Method OutboxData A := do
  lift disk.read
  let data ← read
  lift (outbox.validateData sha256 data)
  let outcome ← lift (operation data)
  let generation ← need (checkedAdd outcome.2.generation 1) "corporate outbox generation exhausted"
  lift (outbox.validateData sha256 { outcome.2 with generation })
  lift disk.write
  write { outcome.2 with generation }
  pure outcome.1

/-! ## Enqueueing -/

inductive EnqueueOutcome where
  | enqueued (sequence : UInt64)
  | alreadyPresent (sequence : UInt64)
  deriving DecidableEq

section

variable (outbox : CorporateOutbox) (requestId : String) (signedRequest : Bytes)

variable (acceptedAt expiresAt : UInt64)

def enqueueRequest (sameTime : Bool) (data : OutboxData) :
    Except String (EnqueueOutcome × OutboxData) :=
  match data.entries[requestId]? with
  | some existing =>
    if existing.requestDigest = sha256 signedRequest ∧ existing.signedRequest = signedRequest ∧
        (sameTime → existing.acceptedAt = acceptedAt) ∧ existing.expiresAt = expiresAt then
      .ok (.alreadyPresent existing.sequence, data)
    else .error "request id was reused with different signed bytes"
  | none => do
    refuseIf (outbox.maxEntries ≤ data.entries.size) "corporate outbox capacity is exhausted"
    let next ← orRefuse (checkedAdd data.nextSequence 1) "corporate outbox sequence exhausted"
    .ok (.enqueued data.nextSequence, { data with
      nextSequence := next
      entries := data.entries.insert requestId ⟨requestId, data.nextSequence, acceptedAt, expiresAt,
        sha256 signedRequest, signedRequest, .queued⟩ })

def enqueueWith (sameTime : Bool) (disk : Disk) : Method OutboxData EnqueueOutcome := do
  lift (validateIdentifier "request id" requestId 128)
  failIf (signedRequest = [] ∨ outbox.maxRequestBytes < signedRequest.length)
    "signed request length is outside the configured outbox limit"
  failIf (expiresAt ≤ acceptedAt) "request expiry must be later than its acceptance time"
  outbox.update sha256 disk
    (enqueueRequest sha256 outbox requestId signedRequest acceptedAt expiresAt sameTime)

def enqueue (disk : Disk) : Method OutboxData EnqueueOutcome :=
  enqueueWith sha256 outbox requestId signedRequest acceptedAt expiresAt true disk

def enqueueFirstSeen
    (firstSeenAt expiresAt : UInt64) (disk : Disk) : Method OutboxData EnqueueOutcome :=
  enqueueWith sha256 outbox requestId signedRequest firstSeenAt expiresAt false disk

end

/-! ## Claiming -/

structure ClaimedRequest where
  requestId : String
  sequence : UInt64
  acceptedAt : UInt64
  expiresAt : UInt64
  requestDigest : Digest32
  signedRequest : Bytes
  attempt : UInt32
  deriving DecidableEq

inductive QueueAction where
  | dispatch (request : ClaimedRequest)
  | expire (requestId : String) (requestDigest : Digest32)
  deriving DecidableEq

/-- The request with the lowest number. -/
def oldest (entries : List OutboxEntry) : Option OutboxEntry :=
  entries.argmin fun entry => entry.sequence.toNat

/-- The time at which a request that was sent may be sent again. -/
def retryAt (attempt : UInt32) (startedAt retryAfterSeconds : UInt64) : ℕ :=
  let delay := min (min (retryAfterSeconds.toNat * 2 ^ min (attempt.toNat - 1) 7) (2 ^ 64 - 1)) 300
  min (startedAt.toNat + delay) (2 ^ 64 - 1)

variable (data : OutboxData)

/-- Hand a request out. -/
def dispatchEntry (key : String) (entry : OutboxEntry) (attempt : UInt32) (now : UInt64) :
    Option QueueAction × OutboxData :=
  (some (.dispatch ⟨entry.requestId, entry.sequence, entry.acceptedAt, entry.expiresAt,
    entry.requestDigest, entry.signedRequest, attempt⟩),
    data.setState key entry (.dispatching attempt now))

def endless : String := "corporate outbox search did not end"

/-- Hand out the oldest request that may be sent, putting those aside that were sent ten times.
The first argument bounds the search; it is never used up. -/
def claimDispatchable : ℕ → OutboxData → UInt64 → UInt64 →
    Except String (Option QueueAction × OutboxData)
  | 0, _, _, _ => .error endless
  | fuel + 1, data, now, retryAfterSeconds =>
    match oldest (data.values.filter fun entry => entry.state.isDispatchable) with
    | none => .ok (none, data)
    | some found => do
      let entry ← orRefuse data.entries[found.requestId]?
        "corporate outbox index changed unexpectedly"
      match entry.state with
      | .queued => .ok (dispatchEntry data found.requestId entry 1 now)
      | .dispatching attempt startedAt =>
        if 10 ≤ attempt then
          claimDispatchable fuel (data.setState found.requestId entry
            (.manualReview now "automatic MPC dispatch retry limit reached")) now retryAfterSeconds
        else if now.toNat < retryAt attempt startedAt retryAfterSeconds then .ok (none, data)
        else do
          refuseIf (2 ^ 32 ≤ attempt.toNat + 1) "corporate outbox retry counter exhausted"
          .ok (dispatchEntry data found.requestId entry (attempt + 1) now)
      | _ => .error "corporate outbox selected a non-dispatchable request"

/-- Report the oldest expired request, or expire one whose time has come, or hand one out. -/
def claimOldest (now retryAfterSeconds : UInt64) (quorumHealthy : Bool) :
    Except String (Option QueueAction × OutboxData) :=
  match oldest (data.values.filter fun entry => entry.state.isReleasing) with
  | some entry => .ok (some (.expire entry.requestId entry.requestDigest), data)
  | none =>
    match oldest (data.values.filter fun entry =>
        entry.expiresAt ≤ now && entry.state.mayExpire) with
    | some found => do
      let entry ← orRefuse data.entries[found.requestId]?
        "corporate outbox index changed unexpectedly"
      .ok (some (.expire entry.requestId entry.requestDigest),
        data.setState found.requestId entry (.expired now))
    | none =>
      if quorumHealthy then claimDispatchable (data.entries.size + 1) data now retryAfterSeconds
      else .ok (none, data)

def claimNext (now : UInt64) (quorumHealthy : Bool) (retryAfterSeconds : UInt64) (disk : Disk) :
    Method OutboxData (Option QueueAction) :=
  outbox.update sha256 disk fun data => claimOldest data now retryAfterSeconds quorumHealthy

inductive CoverAction where
  | real (request : ClaimedRequest)
  | dummy
  | expire (requestId : String) (requestDigest : Digest32)
  deriving DecidableEq

structure CoverSlot where
  slot : UInt64
  dueAt : UInt64
  action : CoverAction
  deriving DecidableEq

/-- What a slot carries. -/
def coverAction (quorumHealthy : Bool) : Option QueueAction → Except String CoverAction
  | some (.dispatch request) =>
    if quorumHealthy then .ok (.real request)
    else .error "an unhealthy MPC quorum cannot receive a request"
  | some (.expire requestId requestDigest) => .ok (.expire requestId requestDigest)
  | none => .ok .dummy

def coverSlot (now : UInt64) (quorumHealthy : Bool) (retryAfterSeconds intervalSeconds : UInt64)
    (data : OutboxData) : Except String (Option CoverSlot × OutboxData) :=
  let dueAt := data.nextCoverDueAt.getD now
  if now < dueAt then .ok (none, data)
  else do
    let nextCoverSlot ← orRefuse (checkedAdd data.nextCoverSlot 1) "cover slot sequence exhausted"
    let nextDueAt ← orRefuse (checkedAdd dueAt intervalSeconds) "cover schedule exhausted"
    let claimed ← claimOldest { data with nextCoverSlot, nextCoverDueAt := some nextDueAt } now
      retryAfterSeconds quorumHealthy
    let action ← coverAction quorumHealthy claimed.1
    .ok (some ⟨data.nextCoverSlot, dueAt, action⟩, claimed.2)

def claimCoverSlot (now : UInt64) (quorumHealthy : Bool)
    (retryAfterSeconds intervalSeconds : UInt64) (disk : Disk) :
    Method OutboxData (Option CoverSlot) := do
  failIf (intervalSeconds = 0) "cover interval must be greater than zero"
  outbox.update sha256 disk (coverSlot now quorumHealthy retryAfterSeconds intervalSeconds)

/-! ## Recording -/

def matchingEntry (requestId : String) (requestDigest : Digest32) : Except String OutboxEntry := do
  let entry ← orRefuse data.entries[requestId]? "corporate outbox request was not found"
  refuseIf (entry.requestDigest ≠ requestDigest) "corporate outbox request digest does not match"
  .ok entry

abbrev Ruling := OutboxState → Except String (Option OutboxState)

def recordState (requestId : String) (requestDigest : Digest32) (ruling : Ruling)
    (data : OutboxData) : Except String (Unit × OutboxData) := do
  let entry ← matchingEntry data requestId requestDigest
  let change ← ruling entry.state
  match change with
  | none => .ok ((), data)
  | some state => .ok ((), data.setState requestId entry state)

/-- The committee took a request that was sent. -/
def admissionRuling (admittedAt : UInt64) (receipt : MpcAdmissionReceipt) : Ruling
  | .dispatching attempt _ => .ok (some (.mpcAdmitted attempt admittedAt receipt))
  | .mpcAdmitted _ _ existing =>
    if existing = receipt then .ok none
    else .error "request is not awaiting an MPC admission receipt"
  | .settled _ => .ok none
  | _ => .error "request is not awaiting an MPC admission receipt"

def settlementRuling (receipt : CanonicalReceipt) : Ruling
  | .settled existing =>
    if sameCanonicalTransition existing receipt then .ok none
    else .error "canonical settlement is incompatible with the request state"
  | .dispatching _ _ | .mpcAdmitted _ _ _ => .ok (some (.settled receipt))
  | _ => .error "canonical settlement is incompatible with the request state"

def releasePendingRuling (requestedAt : UInt64) : Ruling
  | .expired _ | .manualReview _ _ => .ok (some (.releasePending requestedAt))
  | .releasePending _ | .released _ => .ok none
  | _ => .error "only an expired or reviewed request may release its reserve"

def releaseRuling (receipt : CanonicalReceipt) : Ruling
  | .released existing =>
    if sameCanonicalTransition existing receipt then .ok none
    else .error "request is not awaiting a canonical reserve-release receipt"
  | .queued | .dispatching _ _ | .mpcAdmitted _ _ _ | .expired _ | .releasePending _
  | .manualReview _ _ => .ok (some (.released receipt))
  | _ => .error "request is not awaiting a canonical reserve-release receipt"

/-- A request failed before its reserve was created. -/
def abortRuling (finalizedAt : UInt64) : Ruling
  | .queued | .dispatching _ _ | .expired _ | .releasePending _ | .manualReview _ _ =>
    .ok (some (.abortedBeforeReserve finalizedAt))
  | .abortedBeforeReserve _ => .ok none
  | _ => .error "only a request that has not reached MPC admission may abort before reserve"

/-- A request is put aside for a person to look at. -/
def reviewRuling (markedAt : UInt64) (reason : String) : Ruling
  | .settled _ | .released _ | .abortedBeforeReserve _ =>
    .error "a finalized request cannot be moved to manual review"
  | _ => .ok (some (.manualReview markedAt reason))

section

variable (outbox : CorporateOutbox) (requestId : String) (requestDigest : Digest32)

def recordMpcAdmission
    (admittedAt : UInt64) (receipt : MpcAdmissionReceipt) (disk : Disk) :
    Method OutboxData Unit := do
  lift (validateIdentifier "committee id" receipt.committeeId 256)
  lift (validateIdentifier "MPC job id" receipt.jobId 256)
  failIf (receipt.admittedRequestDigest ≠ requestDigest)
    "MPC admission receipt is bound to a different request"
  outbox.update sha256 disk
    (recordState requestId requestDigest (admissionRuling admittedAt receipt))

def recordSettlement
    (receipt : CanonicalReceipt) (disk : Disk) : Method OutboxData Unit := do
  lift (validateCanonicalReceipt receipt requestDigest)
  outbox.update sha256 disk (recordState requestId requestDigest (settlementRuling receipt))

def markReleasePending
    (requestedAt : UInt64) (disk : Disk) : Method OutboxData Unit :=
  outbox.update sha256 disk (recordState requestId requestDigest (releasePendingRuling requestedAt))

def recordRelease
    (receipt : CanonicalReceipt) (disk : Disk) : Method OutboxData Unit := do
  lift (validateCanonicalReceipt receipt requestDigest)
  outbox.update sha256 disk (recordState requestId requestDigest (releaseRuling receipt))

def recordPreReserveAbort (finalizedAt : UInt64) (disk : Disk) : Method OutboxData Unit :=
  outbox.update sha256 disk (recordState requestId requestDigest (abortRuling finalizedAt))

def markManualReview
    (markedAt : UInt64) (reason : String) (disk : Disk) : Method OutboxData Unit := do
  failIf (reason = "" ∨ 512 < (utf8 reason).length) "manual-review reason length is invalid"
  outbox.update sha256 disk (recordState requestId requestDigest (reviewRuling markedAt reason))

end

def OutboxEntry.finalizedBefore (entry : OutboxEntry) (time : UInt64) : Bool :=
  entry.state.finalizedAt.any (· < time)

def pruneFinalized (finalizedBefore : UInt64) (disk : Disk) : Method OutboxData ℕ :=
  outbox.update sha256 disk fun data =>
    let kept := data.entries.filter fun _ entry => !entry.finalizedBefore finalizedBefore
    .ok (data.entries.size - kept.size, { data with entries := kept })

end Zkpi.DurableOutbox
