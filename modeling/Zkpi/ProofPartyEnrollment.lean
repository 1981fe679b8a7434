import Zkpi.ProofPartyState

/-!
# Enrollment of a proof party

How a node joins the signing group. It publishes a self-signed identity, agrees with
its peers on one signed manifest, runs the two rounds of the key generation and keeps
the resulting key. Every round is written to the state file before its reply, so a
repeated request is answered with what was written.
-/

namespace Zkpi.ProofPartyEnrollment

open ByteText FallibleChecks KeyedTables StatefulMethods StatefulMethods.Method
open PaymentInstruction ProofPartyLibrary ProofPartyState

variable {P : Type} {lib : PartyLibrary P}

/-! ## Identities and the peer manifest -/

def identityBody (session : Digest32) (party : ℕ) (identity exchange : Bytes)
    (pqKey : lib.KeyRecord) (publication : Bytes) : Bytes :=
  utf8 "QOMM:FROST:PEER-IDENTITY:v3" ++ session.toList ++ beBytes 2 party ++ identity ++
    lib.identity.kemSuite ++ exchange ++ lib.identity.keyRecordBytes pqKey ++
    beBytes 2 publication.length ++ publication

def activeFrostSession (party : ProofParty lib) : Option Digest32 :=
  (party.frostSession.or (party.peers.map (·.session))).or (party.pendingPeers.map (·.session))

variable (env : Env)

/-- The post-quantum self-signature of an identity body. It is randomized, so the first
one is kept and repeated. -/
def pqIdentitySignature (body : Bytes) : Method (Node lib) Bytes := do
  let party ← theParty
  match party.pqIdentityCache.lookup (lib.sha256 body) with
  | some signature => pure signature
  | none => do
    failIf (64 ≤ size party.pqIdentityCache)
      "PQ identity attestation cache reached its enrollment bound"
    let signature ← lift (lib.identity.transportSign party.keys body env.entropy)
    update fun party => { party with
      pqIdentityCache := party.pqIdentityCache.insert (lib.sha256 body) signature }
    persist env []
    pure signature

/-- How far the key generation has come. -/
def stage (party : ProofParty lib) : String :=
  if party.frostKey.isSome then "ready"
  else if party.dkgRound2.isSome then "round2"
  else if party.dkgRound1.isSome then "round1"
  else if party.peers.isSome then "peers-confirmed"
  else if party.pendingPeers.isSome then "peers-proposed"
  else "fresh"

def encodedPublic (party : ProofParty lib) : Except String (Option Bytes) :=
  onSome party.frostPublic fun key =>
    orRefuse (lib.quorum.serialize key) "FROST public package serialization failed"

def frostStatus : Method (Node lib) Reply := do
  let party ← theParty
  let publicPackage ← lift (encodedPublic party)
  pure (.object [("party", .number party.number), ("ready", .flag publicPackage.isSome),
    ("session", .optional ((activeFrostSession party).map List.Vector.toList)),
    ("stage", .text (stage party)), ("public_package", .optional publicPackage),
    ("pq_committee", .optional (party.pqCommittee.map lib.policyBytes)),
    ("state_generation", .number party.stateGeneration.toNat)])

def frostIdentity (session : Param Digest32) : Method (Node lib) Reply := do
  let party ← theParty
  let session ← lift session
  failIf ((activeFrostSession party).any (· ≠ session))
    "FROST node is already bound to another DKG session"
  let exchange ← lift (lib.identity.exchangePublic party.keys)
  let identity := lib.identity.identityPublic party.keys
  let publication := lib.identity.publicationPublic party.keys
  let body := identityBody session party.number identity exchange party.keys.pqKey publication
  let pqSignature ← pqIdentitySignature env body
  pure (.object [("party", .number party.number), ("identity_public", .bytes identity),
    ("publication_public", .bytes publication), ("exchange_suite", .bytes lib.identity.kemSuite),
    ("exchange_public", .bytes exchange),
    ("self_signature", .bytes (lib.identity.identitySign party.keys body)),
    ("pq_key", .bytes (lib.identity.keyRecordBytes party.keys.pqKey)),
    ("pq_self_signature", .bytes pqSignature)])

def manifestBodies (session : Digest32) (now : Option UInt64) :
    ℕ → List lib.identity.PeerEntry → Except String Bytes
  | _, [] => .ok []
  | number, entry :: rest => do
    refuseIf (lib.identity.party entry ≠ number)
      "FROST peer manifest parties must be contiguous and one-based"
    let verified ← lib.identity.verifyPeerIdentity entry session
    let now ← orRefuse now "system clock precedes Unix epoch"
    lib.identity.validAt (lib.identity.pqKey entry) now
    let tail ← manifestBodies session (some now) (number + 1) rest
    .ok (lib.identity.keyRecordBytes (lib.identity.pqKey entry) ++ verified.pqSignature ++
      beBytes 2 number ++ verified.identityRaw ++ lib.identity.kemSuite ++
      verified.exchangeRaw ++ beBytes 2 verified.publicationPublic.length ++
      verified.publicationPublic ++ verified.signature ++ tail)

/-- The error of a manifest that replaces this node's keys. -/
def substituted : String :=
  "FROST manifest substituted this node's identity, publication or exchange key"

/-- Check the entries of all peers and digest them. -/
def manifest (config : ProofPartyConfig) (keys : NodeKeys lib.KeyRecord) (now : Option UInt64)
    (session : Digest32) (entries : List lib.identity.PeerEntry) :
    Except String (PendingPeers lib) := do
  let entries := entries.insertionSort fun a b => lib.identity.party a ≤ lib.identity.party b
  refuseIf (entries.length ≠ config.nParties ∨ 64 < entries.length)
    "FROST peer manifest is outside its participant bound"
  let bodies ← manifestBodies session now 1 entries
  let own ← orRefuse entries[config.node]? "FROST manifest omits this node"
  refuseIf (lib.identity.party own ≠ config.node + 1 ∨
    lib.identity.identityPublicText own ≠ hexEncode (lib.identity.identityPublic keys) ∨
    lib.identity.publicationPublicText own ≠ hexEncode (lib.identity.publicationPublic keys))
    substituted
  let exchange ← lib.identity.exchangePublic keys
  refuseIf (lib.identity.exchangePublicText own ≠ hexEncode exchange ∨
    lib.identity.pqKey own ≠ keys.pqKey) substituted
  .ok ⟨session, lib.sha256 (utf8 "QOMM:FROST:PEER-MANIFEST:v3" ++ session.toList ++
    beBytes 2 entries.length ++ bodies), entries⟩

variable (peers : PendingPeers lib)

def peer (number : ℕ) : Option lib.identity.PeerEntry :=
  peers.entries.find? fun entry => lib.identity.party entry = number

def confirmationBody : Bytes :=
  utf8 "QOMM:FROST:PEER-CONFIRM:v3" ++ peers.session.toList ++ peers.digest.toList

variable (party : ProofParty lib)

variable (peers : PendingPeers lib)

def peerConfirmation : Except String Reply := do
  let pqConfirmation ← lib.identity.transportSign party.keys (confirmationBody peers) env.entropy
  .ok (.object [("party", .number party.number), ("manifest_digest", .bytes peers.digest.toList),
    ("confirmation", .bytes (lib.identity.identitySign party.keys (confirmationBody peers))),
    ("pq_confirmation", .bytes pqConfirmation)])

def frostConfigurePeers (session : Param Digest32) (entries : Param (List lib.identity.PeerEntry)) :
    Method (Node lib) Reply := do
  let party ← theParty
  let session ← lift session
  let entries ← lift entries
  let pending ← lift (manifest party.config party.keys env.now session entries)
  failIf party.frostKey.isSome "FROST group is already finalized on this node"
  match party.peers.or party.pendingPeers with
  | some existing => do
    failIf (existing.session ≠ pending.session ∨ existing.digest ≠ pending.digest)
      "FROST peer manifest was already configured differently"
    lift (peerConfirmation env party existing)
  | none => do
    let result ← lift (peerConfirmation env party pending)
    update fun party => { party with pendingPeers := some pending }
    pure result

structure Confirmation where
  party : Param ℕ
  confirmation : Param Bytes
  pqConfirmation : Param Bytes

def checkConfirmations (peers : PendingPeers lib) :
    List ℕ → List Confirmation → Except String Unit
  | _, [] => .ok ()
  | seen, next :: rest => do
    let number ← next.party
    refuseIf (number ∈ seen) "FROST confirmation party is duplicated"
    let confirmation ← next.confirmation
    let entry ← orRefuse (peer peers number) "FROST confirmation names an unknown peer"
    refuseIf (¬ lib.identity.verifyIdentity entry (confirmationBody peers) confirmation)
      "FROST manifest lacks an authentic peer confirmation"
    let pqConfirmation ← next.pqConfirmation
    refuseIf (¬ lib.identity.verifyTransport (lib.identity.pqKey entry) (confirmationBody peers)
      pqConfirmation) "PQ peer confirmation is invalid"
    checkConfirmations peers (number :: seen) rest

def verifyPeerConfirmations (confirmations : Param (List Confirmation)) : Except String Unit := do
  let confirmations ← confirmations
  refuseIf (confirmations.length ≠ peers.entries.length)
    "FROST peer confirmation set is incomplete"
  checkConfirmations peers [] confirmations

def frostConfirmPeers (confirmations : Param (List Confirmation)) : Method (Node lib) Reply := do
  let party ← theParty
  match party.peers with
  | some peers => do
    lift (verifyPeerConfirmations peers confirmations)
    pure (.object [("confirmed", .flag true)])
  | none => do
    let pending ← need party.pendingPeers "FROST peer manifest is not pending"
    lift (verifyPeerConfirmations pending confirmations)
    update fun party => { party with pendingPeers := none, peers := some pending }
    persist env []
    pure (.object [("confirmed", .flag true)])

/-! ## Key generation -/

structure Broadcast where
  party : Param ℕ
  package : Param Bytes

structure DkgBroadcasts where
  encoding : Param Bytes
  entries : Param (List Broadcast)

def broadcastsDigest (lib : PartyLibrary P) (broadcasts : DkgBroadcasts) :
    Except String Digest32 := do
  let encoding ← broadcasts.encoding
  .ok (lib.sha256 (utf8 "QOMM:FROST:DKG-BROADCASTS:v1" ++ encoding))

def decodeBroadcasts (peers : PendingPeers lib) :
    Table ℕ lib.frost.Round1Package → List Broadcast →
      Except String (Table ℕ lib.frost.Round1Package)
  | decoded, [] => .ok decoded
  | decoded, next :: rest => do
    let number ← next.party
    refuseIf (peer peers number).isNone "FROST DKG broadcast names an unknown party"
    let raw ← next.package
    refuseIf (raw = [] ∨ maxWireBytes < raw.length) "FROST DKG broadcast exceeds its bound"
    refuseIf (number = 0) "FROST DKG identifier is invalid"
    let package ← orRefuse (lib.frost.round1Package.deserialize raw)
      "FROST DKG broadcast cannot be decoded"
    refuseIf (decoded.lookup number).isSome "FROST DKG broadcast party is duplicated"
    decodeBroadcasts peers (decoded.insert number package) rest

variable (broadcasts : DkgBroadcasts)

def frostBroadcasts : Except String (Table ℕ lib.frost.Round1Package) := do
  let entries ← broadcasts.entries
  refuseIf (entries.length ≠ peers.entries.length) "FROST DKG broadcast set is incomplete"
  decodeBroadcasts peers ∅ entries

def round1Reply (package : Bytes) : Reply :=
  .object [("party", .number party.number), ("package", .bytes package)]

def frostDkgRound1 : Method (Node lib) Reply := do
  let party ← theParty
  failIf party.frostKey.isSome "FROST group is already finalized on this node"
  match party.dkgRound2, party.dkgRound1 with
  | some pending, _ => pure (round1Reply party pending.round1Package)
  | none, some pending => pure (round1Reply party pending.broadcastPackage)
  | none, none => do
    let peers ← need party.peers "FROST peer manifest is not confirmed"
    let (secret, package) ← need (lib.frost.part1 party.number peers.entries.length
      (party.config.threshold + 1) env.entropy) "FROST DKG round one failed"
    let broadcastPackage ← need (lib.frost.round1Package.serialize package)
      "FROST DKG round-one serialization failed"
    update fun party => { party with dkgRound1 := some ⟨secret, broadcastPackage⟩ }
    persist env []
    pure (round1Reply party broadcastPackage)

/-- What a directed package is authenticated with besides its contents. -/
def exchangeAad (session : Digest32) (sender recipient : ℕ) : Bytes :=
  utf8 "QOMM:FROST:DKG-EXCHANGE:v2" ++ session.toList ++ beBytes 2 sender ++ beBytes 2 recipient

def sealPackage (directed : Table ℕ lib.frost.Round2Package) (recipient : ℕ) :
    Except String SealedPackage := do
  let package ← orRefuse (directed.lookup recipient) "FROST DKG omitted a directed package"
  let raw ← orRefuse (lib.frost.round2Package.serialize package)
    "FROST directed package serialization failed"
  let entry ← orRefuse (peer peers recipient) "FROST directed package names an unknown peer"
  let envelope ← lib.identity.sealForWinner party.keys entry raw
    (exchangeAad peers.session party.number recipient) peers.digest env.entropy
  .ok ⟨party.number, recipient, envelope⟩

def round2Packages (digest : Digest32) (broadcasts : Table ℕ lib.frost.Round1Package) :
    Except String (PendingDkgRound2 lib) := do
  let round1 ← orRefuse party.dkgRound1 "FROST DKG round-one secret is absent"
  let own ← orRefuse (broadcasts.lookup party.number) "FROST DKG broadcasts omit this node"
  let ownBroadcast ← orRefuse (lib.frost.round1Package.serialize own)
    "FROST DKG round-one serialization failed"
  refuseIf (ownBroadcast ≠ round1.broadcastPackage)
    "FROST DKG broadcasts substituted this node's round one"
  let encoded ← orRefuse (lib.frost.round1Secret.serialize round1.secret)
    "FROST DKG round-one serialization failed"
  let secret ← orRefuse (lib.frost.round1Secret.deserialize encoded)
    "FROST DKG round-one secret cannot be restored"
  let (secret, directed) ← orRefuse (lib.frost.part2 secret (broadcasts.erase party.number))
    "FROST DKG round two failed"
  let recipients := (List.range' 1 peers.entries.length).filter (· ≠ party.number)
  let encrypted ← recipients.mapM (sealPackage env party peers directed)
  .ok ⟨secret, ownBroadcast, digest, encrypted⟩

def frostDkgRound2 : Method (Node lib) Reply := do
  let party ← theParty
  let digest ← lift (broadcastsDigest lib broadcasts)
  match party.dkgRound2 with
  | some pending => do
    failIf (pending.broadcastsDigest ≠ digest)
      "FROST DKG round two was already persisted for another transcript"
    pure (.object [("encrypted", .packages pending.encrypted)])
  | none => do
    let peers ← need party.peers "FROST peer manifest is not confirmed"
    let decoded ← lift (frostBroadcasts peers broadcasts)
    let pending ← lift (round2Packages env party peers digest decoded)
    update fun party => { party with dkgRound1 := none, dkgRound2 := some pending }
    persist env []
    pure (.object [("encrypted", .packages pending.encrypted)])

structure DirectedPackage where
  sender : Param ℕ
  recipient : Param ℕ
  envelope : Param Bytes

def openPackages (env : Env) (party : ProofParty lib) (peers : PendingPeers lib) :
    Table ℕ lib.frost.Round2Package → List DirectedPackage →
      Except String (Table ℕ lib.frost.Round2Package)
  | received, [] => .ok received
  | received, next :: rest => do
    let sender ← next.sender
    let recipient ← next.recipient
    refuseIf (sender = party.number ∨ recipient ≠ party.number)
      "FROST directed package has the wrong endpoints"
    let envelope ← next.envelope
    let entry ← orRefuse (peer peers sender) "FROST directed sender is unknown"
    let now ← orRefuse env.now "system clock precedes Unix epoch"
    let opened ← lib.identity.openIfWinner party.keys entry envelope
      (exchangeAad peers.session sender recipient) peers.digest now
    let clear ← orRefuse opened "FROST directed package authentication failed"
    refuseIf (sender = 0) "FROST directed sender identifier is invalid"
    let package ← orRefuse (lib.frost.round2Package.deserialize clear)
      "FROST directed package cannot be decoded"
    refuseIf (received.lookup sender).isSome "FROST directed sender is duplicated"
    openPackages env party peers (received.insert sender package) rest

def makePqCommittee (config : ProofPartyConfig) (peers : PendingPeers lib) (encoded : Bytes) :
    Except String (QuorumPolicy lib.KeyRecord) := do
  let policy : QuorumPolicy lib.KeyRecord :=
    { epoch := 1
      purpose := .settlementInstruction
      context := utf8 "QOMM:MPC-SETTLEMENT-COMMITTEE:v1" ++ peers.session.toList
      classicalBinding := lib.sha256 encoded
      threshold := config.threshold + 1
      members := peers.entries.map fun entry =>
        (lib.identity.party entry, lib.identity.pqKey entry) }
  lib.quorum.validate policy
  .ok policy

/-- What the last round of the key generation yields. -/
structure FinalizedGroup (lib : PartyLibrary P) where
  keyPackage : lib.frost.KeyPackage
  publicPackage : lib.quorum.PublicKeyPackage
  encoded : Bytes
  committee : QuorumPolicy lib.KeyRecord

/-- The last round of a node from the broadcasts and the directed packages of all. -/
def finalizedGroup (incoming : Param (List DirectedPackage)) :
    Except String (FinalizedGroup lib) := do
  let decoded ← frostBroadcasts peers broadcasts
  let pending ← orRefuse party.dkgRound2 "FROST DKG round-two secret is absent"
  let digest ← broadcastsDigest lib broadcasts
  refuseIf (digest ≠ pending.broadcastsDigest)
    "FROST finalization changed the round-two broadcasts"
  let incoming ← incoming
  refuseIf (incoming.length + 1 ≠ peers.entries.length)
    "FROST directed package set is incomplete"
  let received ← openPackages env party peers ∅ incoming
  let (keyPackage, publicPackage) ←
    orRefuse (lib.frost.part3 pending.secret (decoded.erase party.number) received)
      "FROST DKG final verification failed"
  let encoded ← orRefuse (lib.quorum.serialize publicPackage)
    "FROST public key serialization failed"
  let committee ← makePqCommittee party.config peers encoded
  .ok ⟨keyPackage, publicPackage, encoded, committee⟩

/-- Finish the key generation. -/
def frostDkgFinalize (encoding : Param Bytes) (broadcasts : DkgBroadcasts)
    (incoming : Param (List DirectedPackage)) : Method (Node lib) Reply := do
  let party ← theParty
  let encoding ← lift encoding
  let finalizeDigest := lib.sha256 (utf8 "QOMM:FROST:DKG-FINALIZE:v1" ++
    beBytes 2 party.config.node ++ encoding)
  match party.frostPublic with
  | some publicPackage => do
    failIf (party.frostDkgFinalizeDigest ≠ some finalizeDigest)
      "FROST DKG was already finalized with another transcript"
    let encoded ← need (lib.quorum.serialize publicPackage)
      "FROST public key serialization failed"
    pure (.object [("public_package", .bytes encoded)])
  | none => do
    let peers ← need party.peers "FROST peer manifest is not confirmed"
    let group ← lift (finalizedGroup env party peers broadcasts incoming)
    update fun party => { party with
      pqCommittee := some group.committee
      frostKey := some group.keyPackage
      frostPublic := some group.publicPackage
      frostSession := some peers.session
      frostDkgFinalizeDigest := some finalizeDigest
      dkgRound2 := none
      dkgRound1 := none
      peers := none
      pendingPeers := none }
    persist env []
    pure (.object [("public_package", .bytes group.encoded)])

end Zkpi.ProofPartyEnrollment
