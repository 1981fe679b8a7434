import Zkpi.ByteText
import Zkpi.FallibleChecks
import Zkpi.KeyedTables
import Zkpi.RecordedRuns
import Zkpi.StatefulMethods

/-!
# Admission and ordering for one market slot

A sealer is built for one slot and a population of tickets that is fixed beforehand. It admits
one frame for every ticket and signs a receipt for each; after the deadline it closes the slot
with a manifest that orders the tickets by a hash of their identities under a beacon. Neither
the frames nor the times at which they came enter the order.

Signatures and hashes are arbitrary functions. What the signing key answers is given with each
call, so that a signer may fail and need not answer the same message twice alike.
-/

namespace Zkpi.SlotSealer

open ByteText FallibleChecks KeyedTables StatefulMethods StatefulMethods.Method

structure OrderLibrary where
  sha256 : Bytes → Digest32
  verifySignature : Digest32 → Bytes → Bytes → Bool

abbrev Signer := Bytes → Except String Bytes

/-! ## Tickets, frames and receipts -/

/-- Leave to submit one frame in a slot. -/
structure AdmissionTicket where
  slot : UInt64
  ticketId : Digest32
  issuedAt : UInt64
  expiresAt : UInt64
  signature : Bytes
  deriving DecidableEq

def AdmissionTicket.unsigned (ticket : AdmissionTicket) : Except String Bytes := do
  refuseIf (ticket.expiresAt ≤ ticket.issuedAt) "ticket expiry must follow issuance"
  .ok (utf8 "QOMM:ORDER:TICKET:v2" ++ beBytes 8 ticket.slot.toNat ++ ticket.ticketId.toList ++
    beBytes 8 ticket.issuedAt.toNat ++ beBytes 8 ticket.expiresAt.toNat)

def framed (parts : List Bytes) : Bytes :=
  parts.flatMap fun part => beBytes 4 part.length ++ part

structure Frame where
  slot : UInt32
  node : UInt16
  payload : List.Vector UInt8 448
  mac : List.Vector UInt8 32
  deriving DecidableEq

def Frame.encode (frame : Frame) : Bytes :=
  utf8 "QOMMWIRE" ++ [4] ++ beBytes 4 frame.slot.toNat ++ beBytes 2 frame.node.toNat ++
    frame.payload.toList ++ frame.mac.toList

structure RandomnessBeacon where
  round : UInt64
  value : Digest32
  signature : Bytes
  deriving DecidableEq

def RandomnessBeacon.unsigned (round : UInt64) (value : Digest32) : Bytes :=
  utf8 "QOMM:ORDER:BEACON:v2" ++ beBytes 8 round.toNat ++ value.toList

/-- A sealer's promise to include a frame. -/
structure AdmissionReceipt where
  slot : UInt64
  node : UInt64
  ticketDigest : Digest32
  frameDigest : Digest32
  receivedAtNs : UInt64
  signature : Bytes
  deriving DecidableEq

def AdmissionReceipt.unsigned (receipt : AdmissionReceipt) : Bytes :=
  utf8 "QOMM:ORDER:RECEIPT:v2" ++ beBytes 8 receipt.slot.toNat ++ beBytes 8 receipt.node.toNat ++
    receipt.ticketDigest.toList ++ receipt.frameDigest.toList ++
    beBytes 8 receipt.receivedAtNs.toNat

structure BatchManifest where
  slot : UInt64
  node : UInt64
  beaconRound : UInt64
  beaconValue : Digest32
  orderedTicketDigests : List Digest32
  orderedFrameDigests : List Digest32
  previousDigest : Digest32
  signature : Bytes
  deriving DecidableEq

def BatchManifest.unsigned (manifest : BatchManifest) : Except String Bytes := do
  refuseIf (manifest.orderedTicketDigests.length ≠ manifest.orderedFrameDigests.length)
    "ticket and frame manifests have different lengths"
  .ok (utf8 "QOMM:ORDER:MANIFEST:v2" ++ beBytes 8 manifest.slot.toNat ++
    beBytes 8 manifest.node.toNat ++ beBytes 8 manifest.beaconRound.toNat ++
    manifest.beaconValue.toList ++ manifest.previousDigest.toList ++
    beBytes 8 manifest.orderedTicketDigests.length ++
    (manifest.orderedTicketDigests.zip manifest.orderedFrameDigests).flatMap fun entry =>
      entry.1.toList ++ entry.2.toList)

def BatchManifest.includes (manifest : BatchManifest) (receipt : AdmissionReceipt) : Bool :=
  (manifest.orderedTicketDigests.zip manifest.orderedFrameDigests).any fun entry =>
    entry.1 = receipt.ticketDigest && entry.2 = receipt.frameDigest

section Checks

variable (lib : OrderLibrary)

variable (ticket : AdmissionTicket)

def AdmissionTicket.hashed : Except String Bytes := do
  let body ← ticket.unsigned
  .ok (framed [body, ticket.signature])

def AdmissionTicket.digest : Except String Digest32 := do
  let bytes ← ticket.hashed
  .ok (lib.sha256 bytes)

def AdmissionTicket.verify (authority : Digest32) (now : UInt64) : Bool :=
  ticket.issuedAt ≤ now && now ≤ ticket.expiresAt &&
    match ticket.unsigned with
    | .ok body => lib.verifySignature authority body ticket.signature
    | .error _ => false

def RandomnessBeacon.verify (beacon : RandomnessBeacon) (key : Digest32) : Bool :=
  lib.verifySignature key (RandomnessBeacon.unsigned beacon.round beacon.value) beacon.signature

def AdmissionReceipt.verify (receipt : AdmissionReceipt) (key : Digest32) : Bool :=
  lib.verifySignature key receipt.unsigned receipt.signature

def BatchManifest.verify (manifest : BatchManifest) (key : Digest32) : Bool :=
  match manifest.unsigned with
  | .ok body => lib.verifySignature key body manifest.signature
  | .error _ => false

def proveOmission (receipt : AdmissionReceipt) (manifest : BatchManifest) (sealerKey : Digest32) :
    Bool :=
  receipt.slot = manifest.slot && receipt.node = manifest.node &&
    receipt.verify lib sealerKey && manifest.verify lib sealerKey && !manifest.includes receipt

end Checks

/-! ## The sealer -/

structure FixedSlotSealer where
  slot : UInt64
  node : UInt64
  deadlineNs : UInt64
  /-- The population, fixed beforehand. -/
  tickets : List AdmissionTicket
  authorityKey : Digest32
  beaconKey : Digest32
  previousDigest : Digest32
  frames : Table Digest32 Frame
  receipts : Table Digest32 AdmissionReceipt
  closed : Bool

open FixedSlotSealer

def FixedSlotSealer.new (slot node deadlineNs : UInt64) (tickets : List AdmissionTicket)
    (authorityKey beaconKey previousDigest : Digest32) : Except String FixedSlotSealer := do
  let ids := (tickets.map (·.ticketId)).dedup
  refuseIf (ids.length ≠ tickets.length) "the expected ticket list contains a duplicate"
  refuseIf (∃ ticket ∈ tickets, ticket.slot ≠ slot) "a ticket belongs to another slot"
  .ok ⟨slot, node, deadlineNs, tickets, authorityKey, beaconKey, previousDigest, ∅, ∅, false⟩

section Methods

variable (lib : OrderLibrary)

variable (sealer : FixedSlotSealer)

def FixedSlotSealer.receiptFor (ticketDigest : Digest32) (frame : Frame) (nowNs : UInt64) :
    AdmissionReceipt :=
  ⟨sealer.slot, sealer.node, ticketDigest, lib.sha256 frame.encode, nowNs, List.replicate 64 0⟩

/-- Admit a frame for a ticket. Looking up the receipt of an admitted frame would stop the
process if there were none. -/
def FixedSlotSealer.admitFrame (ticket : AdmissionTicket) (frame : Frame) (nowNs : UInt64)
    (sign : Signer) : Method FixedSlotSealer AdmissionReceipt := do
  let sealer ← read
  failIf (sealer.closed = true) "the slot is already closed"
  failIf (sealer.deadlineNs < nowNs) "the frame arrived after the sealed deadline"
  failIf (¬ ticket.verify lib sealer.authorityKey (nowNs / 1000000000))
    "the admission ticket is invalid or expired"
  let ticketDigest ← lift (ticket.digest lib)
  let expected ← lift (sealer.tickets.mapM (AdmissionTicket.digest lib))
  failIf (ticketDigest ∉ expected)
    "the ticket was not in the slot's precommitted population"
  failIf (frame.slot.toUInt64 ≠ sealer.slot ∨ frame.node.toUInt64 ≠ sealer.node)
    "the frame belongs to another slot or node"
  match sealer.frames.lookup ticketDigest with
  | some prior =>
    failIf (prior.encode ≠ frame.encode)
      "one ticket attempted to replace its admitted frame"
    need (sealer.receipts.lookup ticketDigest) "no entry found for key"
  | none =>
    let receipt := sealer.receiptFor lib ticketDigest frame nowNs
    let signature ← lift (sign receipt.unsigned)
    let receipt := { receipt with signature }
    write { sealer with
      frames := sealer.frames.insert ticketDigest frame
      receipts := sealer.receipts.insert ticketDigest receipt }
    pure receipt

def orderKey (slot round : UInt64) (value : Digest32) (ticket : AdmissionTicket) : List ℕ :=
  (lib.sha256 (utf8 "QOMM:ORDER:KEY:v1" ++ beBytes 8 slot.toNat ++ beBytes 8 round.toNat ++
    value.toList ++ ticket.ticketId.toList)).toList.map UInt8.toNat

def inOrder (slot round : UInt64) (value : Digest32) (tickets : List AdmissionTicket) :
    List AdmissionTicket :=
  tickets.insertionSort fun left right =>
    orderKey lib slot round value left ≤ orderKey lib slot round value right

/-- The tickets no frame was admitted for. A ticket without a digest is not counted. -/
def FixedSlotSealer.missing : ℕ :=
  sealer.tickets.countP fun ticket =>
    match ticket.digest lib with
    | .ok digest => (sealer.frames.lookup digest).isNone
    | .error _ => false

def FixedSlotSealer.manifestFor (beacon : RandomnessBeacon) (ticketDigests : List Digest32)
    (frames : List Frame) : BatchManifest :=
  ⟨sealer.slot, sealer.node, beacon.round, beacon.value, ticketDigests,
    frames.map fun frame => lib.sha256 frame.encode, sealer.previousDigest, List.replicate 64 0⟩

/-- Close the slot with a beacon. Looking up the frame of a counted ticket would stop the process
if there were none. -/
def FixedSlotSealer.close (beacon : RandomnessBeacon) (nowNs : UInt64) (sign : Signer) :
    Method FixedSlotSealer (List Frame × BatchManifest) := do
  let sealer ← read
  failIf (sealer.closed = true) "the slot is already closed"
  failIf (nowNs ≤ sealer.deadlineNs) "the batch cannot close before its deadline"
  failIf (¬ beacon.verify lib sealer.beaconKey) "the ordering beacon signature is invalid"
  failIf (beacon.round ≤ sealer.slot)
    "ordering randomness must be generated after the slot"
  let missing := sealer.missing lib
  failIf (missing ≠ 0)
    s!"fixed population incomplete: {missing} cover or request frame(s) missing"
  let ordered := inOrder lib sealer.slot beacon.round beacon.value sealer.tickets
  let ticketDigests ← lift (ordered.mapM (AdmissionTicket.digest lib))
  let frames ← lift (ticketDigests.mapM fun digest =>
    orRefuse (sealer.frames.lookup digest) "no entry found for key")
  let manifest := sealer.manifestFor lib beacon ticketDigests frames
  let body ← lift manifest.unsigned
  let signature ← lift (sign body)
  write { sealer with closed := true }
  pure (frames, { manifest with signature })

/-! ## What a call does -/

variable {lib} {sealer : FixedSlotSealer} {ticket : AdmissionTicket} {frame : Frame}
  {nowNs : UInt64} {beacon : RandomnessBeacon} {frames : List Frame} {manifest : BatchManifest}

variable (lib) in
structure Admissible (sealer : FixedSlotSealer) (ticket : AdmissionTicket) (frame : Frame)
    (nowNs : UInt64) (digest : Digest32) : Prop where
  unclosed : sealer.closed = false
  inTime : nowNs ≤ sealer.deadlineNs
  valid : ticket.verify lib sealer.authorityKey (nowNs / 1000000000) = true
  digested : ticket.digest lib = .ok digest
  population : ∃ expected, sealer.tickets.mapM (AdmissionTicket.digest lib) = .ok expected ∧
    digest ∈ expected
  addressed : frame.slot.toUInt64 = sealer.slot ∧ frame.node.toUInt64 = sealer.node

/-- A successful admission either repeats the receipt of the same frame and changes nothing, or
records a frame for a ticket that had none. -/
theorem admit_ok (h : admitFrame lib ticket frame nowNs sign sealer =
    (.ok receipt, next)) :
    ∃ digest, Admissible lib sealer ticket frame nowNs digest ∧
      ((∃ prior, sealer.frames.lookup digest = some prior ∧ prior.encode = frame.encode ∧
          sealer.receipts.lookup digest = some receipt ∧ next = sealer) ∨
        (sealer.frames.lookup digest = none ∧
          (∃ signature,
            receipt = { sealer.receiptFor lib digest frame nowNs with signature := signature }) ∧
          next = { sealer with
            frames := sealer.frames.insert digest frame
            receipts := sealer.receipts.insert digest receipt })) := by
  obtain ⟨_, _, hread, h⟩ := Method.bind_ok.mp h
  obtain ⟨rfl, rfl⟩ := read_ok.mp hread
  obtain ⟨hclosed, h⟩ := failIf_bind_ok.mp h
  obtain ⟨htime, h⟩ := failIf_bind_ok.mp h
  obtain ⟨hvalid, h⟩ := failIf_bind_ok.mp h
  obtain ⟨digest, hdigest, h⟩ := lift_bind_ok.mp h
  obtain ⟨expected, hexpected, h⟩ := lift_bind_ok.mp h
  obtain ⟨hmem, h⟩ := failIf_bind_ok.mp h
  obtain ⟨haddressed, h⟩ := failIf_bind_ok.mp h
  rw [not_or, not_not, not_not] at haddressed
  refine ⟨digest, ⟨by simpa using hclosed, UInt64.not_lt.mp htime, not_not.mp hvalid, hdigest,
    ⟨expected, hexpected, not_not.mp hmem⟩, haddressed⟩, ?_⟩
  cases hlookup : sealer.frames.lookup digest with
  | some prior =>
    rw [hlookup] at h
    obtain ⟨hsame, h⟩ := failIf_bind_ok.mp h
    obtain ⟨hreceipt, rfl⟩ := need_ok.mp h
    exact .inl ⟨prior, rfl, not_not.mp hsame, hreceipt, rfl⟩
  | none =>
    rw [hlookup] at h
    obtain ⟨signature, _, h⟩ := lift_bind_ok.mp h
    obtain ⟨_, _, hwrite, h⟩ := Method.bind_ok.mp h
    obtain rfl := write_ok.mp hwrite
    obtain ⟨rfl, rfl⟩ := pure_ok.mp h
    exact .inr ⟨rfl, ⟨signature, rfl⟩, rfl⟩

theorem admit_atomic : Atomic (admitFrame lib ticket frame nowNs sign) := by
  refine atomic_bind readOnly_read fun sealer => ?_
  iterate 3 refine atomic_bind readOnly_failIf fun _ => ?_
  iterate 2 refine atomic_bind readOnly_lift fun _ => ?_
  iterate 2 refine atomic_bind readOnly_failIf fun _ => ?_
  dsimp only
  split
  · exact atomic_bind readOnly_failIf fun _ => readOnly_need.atomic
  · exact atomic_bind readOnly_lift fun _ => atomic_write_pure

/-- A ticket with an admitted frame gets its receipt again for that frame and is refused any
other. -/
theorem admit_again (h : Admissible lib sealer ticket frame nowNs digest)
    (hprior : sealer.frames.lookup digest = some prior)
    (hreceipt : sealer.receipts.lookup digest = some receipt) :
    admitFrame lib ticket frame nowNs sign sealer =
      (if prior.encode = frame.encode then .ok receipt
        else .error "one ticket attempted to replace its admitted frame", sealer) := by
  obtain ⟨expected, hexpected, hmem⟩ := h.population
  unfold admitFrame
  rw [Method.bind_of_ok (rfl : read sealer = (.ok sealer, sealer)),
    failIf_bind_of_not (by simp [h.unclosed]),
    failIf_bind_of_not (UInt64.not_lt.mpr h.inTime),
    failIf_bind_of_not (not_not.mpr h.valid),
    Method.bind_of_ok (by rw [lift, h.digested]),
    Method.bind_of_ok (by rw [lift, hexpected]),
    failIf_bind_of_not (not_not.mpr hmem),
    failIf_bind_of_not (by simp [h.addressed])]
  rw [hprior]
  split
  · rename_i hsame
    dsimp only
    rw [failIf_bind_of_not (not_not.mpr hsame), hreceipt]
    rfl
  · rename_i hother
    exact failIf_bind_of hother

structure Seals (lib : OrderLibrary) (sealer : FixedSlotSealer) (beacon : RandomnessBeacon)
    (frames : List Frame) (manifest : BatchManifest) : Prop where
  slot : manifest.slot = sealer.slot
  beaconRound : manifest.beaconRound = beacon.round
  beaconValue : manifest.beaconValue = beacon.value
  ticketDigests :
    (inOrder lib sealer.slot beacon.round beacon.value sealer.tickets).map
      (AdmissionTicket.digest lib) = manifest.orderedTicketDigests.map .ok
  admitted : manifest.orderedTicketDigests.map sealer.frames.lookup = frames.map some
  frameDigests : manifest.orderedFrameDigests = frames.map fun frame => lib.sha256 frame.encode

theorem close_ok (h : close lib beacon nowNs sign sealer =
    (.ok (frames, manifest), next)) :
    sealer.closed = false ∧ sealer.deadlineNs < nowNs ∧ Seals lib sealer beacon frames manifest ∧
      next = { sealer with closed := true } := by
  obtain ⟨_, _, hread, h⟩ := Method.bind_ok.mp h
  obtain ⟨rfl, rfl⟩ := read_ok.mp hread
  obtain ⟨hclosed, h⟩ := failIf_bind_ok.mp h
  obtain ⟨htime, h⟩ := failIf_bind_ok.mp h
  obtain ⟨_, h⟩ := failIf_bind_ok.mp h
  obtain ⟨_, h⟩ := failIf_bind_ok.mp h
  obtain ⟨_, h⟩ := failIf_bind_ok.mp h
  obtain ⟨_, hdigests, h⟩ := lift_bind_ok.mp h
  obtain ⟨_, hbatch, h⟩ := lift_bind_ok.mp h
  obtain ⟨_, _, h⟩ := lift_bind_ok.mp h
  obtain ⟨_, _, h⟩ := lift_bind_ok.mp h
  obtain ⟨_, _, hwrite, h⟩ := Method.bind_ok.mp h
  obtain rfl := write_ok.mp hwrite
  obtain ⟨hresult, rfl⟩ := pure_ok.mp h
  simp only [Prod.mk.injEq] at hresult
  obtain ⟨rfl, rfl⟩ := hresult
  exact ⟨by simpa using hclosed, UInt64.not_le.mp htime, ⟨rfl, rfl, rfl, mapM_ok.mp hdigests,
    mapM_orRefuse_ok.mp hbatch, rfl⟩, rfl⟩

theorem close_atomic : Atomic (close lib beacon nowNs sign) := by
  refine atomic_bind readOnly_read fun sealer => ?_
  iterate 5 refine atomic_bind readOnly_failIf fun _ => ?_
  iterate 4 refine atomic_bind readOnly_lift fun _ => ?_
  exact atomic_write_pure

end Methods

end Zkpi.SlotSealer
