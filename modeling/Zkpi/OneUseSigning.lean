import Zkpi.Chronicles
import Zkpi.ProofPartyRequests

/-!
# One-use signing across crashes

A signature share leaves a node only for a message one of its authorize methods accepted,
after exactly one commitment to a nonce pair for the job of that message, and once. The
argument follows the state file: a job enters the reserved set in the same write that makes
its commitment possible and never leaves the reserved and consumed sets together, so a
restart cannot bring an authorization, a commitment or a share of it back.
-/

namespace Zkpi.OneUseSigning

open ScalarField ByteText KeyedTables StatefulMethods.Method RecordedRuns List
open Chronicles ProofPartyLibrary ProofPartyState ProofPartyEnrollment
open ProofPartyJobs ProofPartyAuthorization ProofPartyRuns ProofPartyMoves
open ProofPartyRequests

variable {P : Type} {lib : PartyLibrary P} {journal : List (Event P)}

/-! ## The journal -/

/-- Two messages the node was asked to sign have one signing job. -/
def Collides (lib : PartyLibrary P) (journal : List (Event P)) : Prop :=
  ∃ message other, .presented message ∈ journal ∧ .presented other ∈ journal ∧
    message ≠ other ∧ signingJob lib message = signingJob lib other

def Accepted (lib : PartyLibrary P) (journal : List (Event P)) (job digest : Digest32) : Prop :=
  Collides lib journal ∨ ∃ message, .accepted job message ∈ journal ∧ lib.sha256 message = digest

/-- When the node may do what it does. -/
def Allowed (lib : PartyLibrary P) (past : List (Event P)) : Event P → Prop
  | .accepted job message => job = signingJob lib message ∧ .presented message ∈ past ∧
      ∀ serial, .reserved job serial ∉ past
  | .reserved job serial =>
      (∀ other, .reserved job other ∉ past) ∧ ∀ other, .reserved other serial ∉ past
  | .committed job serial => .reserved job serial ∈ past ∧ ∀ other, .committed job other ∉ past
  | .released job message serial => .presented message ∈ past ∧ .committed job serial ∈ past ∧
      Accepted lib past job (lib.sha256 message) ∧
      (∀ other nonce, .released job other nonce ∉ past) ∧
      ∀ other signed, .released other signed serial ∉ past
  | _ => True

structure InOrder (lib : PartyLibrary P) (drawn : ℕ) (journal : List (Event P)) : Prop where
  chronicle : Chronicle (Allowed lib) journal
  serials : ∀ job serial, .reserved job serial ∈ journal → serial < drawn

theorem Collides.mono (hsub : journal ⊆ more) (h : Collides lib journal) : Collides lib more := by
  obtain ⟨message, other, hmessage, hother, hne, hjob⟩ := h
  exact ⟨message, other, hsub hmessage, hsub hother, hne, hjob⟩

variable {job : Digest32}

theorem Accepted.mono (hsub : journal ⊆ more)
    (h : Accepted lib journal job digest) : Accepted lib more job digest := by
  rcases h with h | ⟨message, hmessage, hdigest⟩
  · exact .inl (h.mono hsub)
  · exact .inr ⟨message, hsub hmessage, hdigest⟩

section InOrder

variable {job : Digest32} {message : Bytes} {serial : ℕ}

section

variable (h : InOrder lib drawn journal)

include h

theorem InOrder.accepted_own (hmem : .accepted job message ∈ journal) :
    job = signingJob lib message ∧ .presented message ∈ journal := by
  obtain ⟨_, ⟨hown, hpresented, -⟩, hsub⟩ := h.chronicle.of_mem hmem
  exact ⟨hown, hsub hpresented⟩

theorem InOrder.committed_reserved (hmem : .committed job serial ∈ journal) :
    .reserved job serial ∈ journal := by
  obtain ⟨_, ⟨hreserved, -⟩, hsub⟩ := h.chronicle.of_mem hmem
  exact hsub hreserved

theorem InOrder.released_reserved (hmem : .released job message serial ∈ journal) :
    .reserved job serial ∈ journal := by
  obtain ⟨_, ⟨-, hcommitted, -⟩, hsub⟩ := h.chronicle.of_mem hmem
  exact h.committed_reserved (hsub hcommitted)

theorem InOrder.fresh_serial (job : Digest32) :
    .reserved job drawn ∉ journal := fun hmem => Nat.lt_irrefl drawn (h.serials job drawn hmem)

theorem InOrder.snoc (hevent : Allowed lib journal event)
    (hother : ∀ job serial, event ≠ .reserved job serial) :
    InOrder lib drawn (journal ++ [event]) := by
  refine ⟨.snoc h.chronicle hevent, fun job serial hmem => ?_⟩
  rcases mem_append.mp hmem with hold | hnew
  · exact h.serials job serial hold
  · exact absurd (mem_singleton.mp hnew).symm (hother job serial)

theorem InOrder.reserve (hunused : ∀ serial, .reserved job serial ∉ journal) :
    InOrder lib (drawn + 1) (journal ++ [.reserved job drawn]) := by
  refine ⟨.snoc h.chronicle ⟨hunused, fun other => h.fresh_serial other⟩,
    fun job' serial hmem => ?_⟩
  rcases mem_append.mp hmem with hold | hnew
  · exact Nat.lt_succ_of_lt (h.serials job' serial hold)
  · cases mem_singleton.mp hnew
    exact Nat.lt_succ_self drawn

theorem InOrder.drawn_succ : InOrder lib (drawn + 1) journal :=
  ⟨h.chronicle, fun job serial hmem => Nat.lt_succ_of_lt (h.serials job serial hmem)⟩

end

end InOrder

/-! ## What the sets of a node say about its journal -/

structure SigningView where
  reserved : Finset Digest32
  consumed : Finset Digest32
  authorized : Table Digest32 Digest32

def viewOf (party : ProofParty lib) : SigningView :=
  ⟨party.frostReserved, party.frostConsumed, party.frostAuthorized⟩

def diskView : Option (DurableProofState lib) → SigningView
  | none => ⟨∅, ∅, ∅⟩
  | some state => ⟨state.frostReserved, state.frostConsumed, state.frostAuthorized⟩

/-- The sets cover the journal: no reserved job is free, every job with a share is consumed,
and whatever is authorized was accepted. -/
structure Covers (lib : PartyLibrary P) (journal : List (Event P)) (view : SigningView) :
    Prop where
  reserved : ∀ job serial, .reserved job serial ∈ journal →
    job ∈ view.reserved ∨ job ∈ view.consumed
  released : ∀ job message serial, .released job message serial ∈ journal → job ∈ view.consumed
  authorized : ∀ job digest, view.authorized.lookup job = some digest →
    Accepted lib journal job digest

theorem Covers.append (h : Covers lib journal view)
    (hreserved : ∀ job serial, .reserved job serial ∈ more → job ∈ view.reserved ∨ job ∈
      view.consumed)
    (hreleased : ∀ job message serial, .released job message serial ∈ more → job ∈ view.consumed) :
    Covers lib (journal ++ more) view where
  reserved job serial hmem := (mem_append.mp hmem).elim (h.reserved job serial)
    (hreserved job serial)
  released job message serial hmem := (mem_append.mp hmem).elim (h.released job message serial)
    (hreleased job message serial)
  authorized job digest hlookup :=
    (h.authorized job digest hlookup).mono (subset_append_left journal more)

/-- A nonce pair in memory belongs to an accepted message and was never used. -/
structure Live (lib : PartyLibrary P) (drawn : ℕ) (journal : List (Event P)) (job : Digest32)
    (state : FrostNonceState lib) : Prop where
  drawn : state.serial < drawn
  accepted : Accepted lib journal job state.messageDigest
  unsigned : ∀ message serial, .released job message serial ∉ journal
  unreleased : ∀ other message, .released other message state.serial ∉ journal

structure SigningMemory (lib : PartyLibrary P) where
  view : SigningView
  nonces : Table Digest32 (FrostNonceState lib)
  keyed : Bool
  grouped : Bool
  enrolling : Bool

def memoryOf (party : ProofParty lib) : SigningMemory lib where
  view := viewOf party
  nonces := party.frostNonces
  keyed := party.frostKey.isSome
  grouped := party.frostPublic.isSome
  enrolling := party.pendingPeers.isSome || party.peers.isSome

structure Remembers (lib : PartyLibrary P) (drawn : ℕ) (journal : List (Event P))
    (memory : SigningMemory lib) : Prop where
  covers : Covers lib journal memory.view
  grouped : memory.keyed = memory.grouped
  settled : memory.keyed = true → memory.enrolling = false
  keyed : ∀ job state, memory.nonces.lookup job = some state → memory.keyed = true
  live : ∀ job state, memory.nonces.lookup job = some state → Live lib drawn journal job state
  distinct : ∀ job job' state state', memory.nonces.lookup job = some state →
    memory.nonces.lookup job' = some state' → state.serial = state'.serial → job = job'

theorem Live.append {drawn : ℕ} {state : FrostNonceState lib} (h : Live lib drawn journal job state)
    (hmore : ∀ other message serial, .released other message serial ∈ more → other ≠ job ∧ serial ≠
      state.serial) : Live lib drawn (journal ++ more) job state where
  drawn := h.drawn
  accepted := h.accepted.mono (subset_append_left journal more)
  unsigned message serial hmem := (mem_append.mp hmem).elim (h.unsigned message serial)
    fun hnew => (hmore job message serial hnew).1 rfl
  unreleased other message hmem := (mem_append.mp hmem).elim (h.unreleased other message)
    fun hnew => (hmore other message state.serial hnew).2 rfl

section Remembers

theorem Remembers.append (h : Remembers lib drawn journal memory)
    (hreserved : ∀ job serial, .reserved job serial ∉ more)
    (hreleased : ∀ job message serial, .released job message serial ∈ more → job ∈
      memory.view.consumed ∧ ∀ other state, memory.nonces.lookup other = some state → job ≠ other ∧
      serial ≠ state.serial) :
    Remembers lib drawn (journal ++ more) memory where
  covers := h.covers.append (fun job serial hmem => absurd hmem (hreserved job serial))
    fun job message serial hmem => (hreleased job message serial hmem).1
  grouped := h.grouped
  settled := h.settled
  keyed := h.keyed
  live job state hstate := (h.live job state hstate).append
    fun other message serial hmem => (hreleased other message serial hmem).2 job state hstate
  distinct := h.distinct

variable {job : Digest32}

theorem Remembers.authorize (h : Remembers lib drawn journal memory)
    (haccepted : Accepted lib journal job digest) :
    Remembers lib drawn journal { memory with
      view := { memory.view with authorized := memory.view.authorized.insert job digest } } := by
  refine { h with covers := { h.covers with authorized := fun other found hlookup => ?_ } }
  obtain ⟨rfl, rfl⟩ | hold := lookup_insert_some hlookup
  · exact haccepted
  · exact h.covers.authorized other found hold

/-- Memory after a job was reserved for the next nonce pair, whether or not the reservation
has reached the journal. -/
theorem Remembers.reserve {nonces : lib.frost.SigningNonces}
    (h : Remembers lib drawn journal memory) (horder : InOrder lib drawn journal)
    (hkeyed : memory.keyed = true) (hconsumed : job ∉ memory.view.consumed)
    (hunused : memory.nonces.lookup job = none)
    (hauthorized : memory.view.authorized.lookup job = some digest)
    (hreserved : ∀ other serial, .reserved other serial ∈ more → other = job)
    (hreleased : ∀ other message serial, .released other message serial ∉ more) :
    Remembers lib (drawn + 1) (journal ++ more) { memory with
      view := { memory.view with
        reserved := insert job memory.view.reserved
        authorized := memory.view.authorized.erase job }
      nonces := memory.nonces.insert job ⟨digest, nonces, drawn⟩ } where
  covers :=
    { reserved := by
        intro other serial hmem
        rcases mem_append.mp hmem with hold | hnew
        · exact (h.covers.reserved other serial hold).imp Finset.mem_insert_of_mem id
        · exact .inl (Finset.mem_insert.mpr (.inl (hreserved other serial hnew)))
      released := fun other message serial hmem => (mem_append.mp hmem).elim
        (h.covers.released other message serial)
        fun hnew => absurd hnew (hreleased other message serial)
      authorized := by
        intro other found hlookup
        exact (h.covers.authorized other found (lookup_erase_some hlookup).2).mono
          (subset_append_left journal more) }
  grouped := h.grouped
  settled := h.settled
  keyed _ _ _ := hkeyed
  live := by
    intro other state hlookup
    have hkeep : ∀ other message serial, .released other message serial ∉ more := hreleased
    obtain ⟨rfl, rfl⟩ | hlookup := lookup_insert_some hlookup
    · exact
        { drawn := Nat.lt_succ_self drawn
          accepted := (h.covers.authorized other digest hauthorized).mono
            (subset_append_left journal more)
          unsigned := fun message serial hmem => (mem_append.mp hmem).elim
            (fun hold => hconsumed (h.covers.released other message serial hold))
            (hkeep other message serial)
          unreleased := fun signed message hmem => (mem_append.mp hmem).elim
            (fun hold => horder.fresh_serial signed (horder.released_reserved hold))
            (hkeep signed message drawn) }
    · have hold := h.live other state hlookup
      exact { (hold.append fun other message serial hmem =>
          absurd hmem (hkeep other message serial)) with drawn := Nat.lt_succ_of_lt hold.drawn }
  distinct := by
    intro one two state state' hone htwo hserial
    obtain ⟨rfl, rfl⟩ | hfirst := lookup_insert_some hone <;>
      obtain ⟨rfl, rfl⟩ | hsecond := lookup_insert_some htwo
    · rfl
    · exact absurd hserial.symm (Nat.ne_of_lt (h.live two state' hsecond).drawn)
    · exact absurd hserial (Nat.ne_of_lt (h.live one state hfirst).drawn)
    · exact h.distinct one two state state' hfirst hsecond hserial

theorem Remembers.burn (h : Remembers lib drawn journal memory) :
    Remembers lib drawn journal { memory with
      view := { memory.view with
        reserved := memory.view.reserved.erase job
        consumed := insert job memory.view.consumed }
      nonces := memory.nonces.erase job } where
  covers :=
    { reserved := by
        intro other serial hmem
        by_cases hsame : other = job
        · exact .inr (Finset.mem_insert.mpr (.inl hsame))
        · exact (h.covers.reserved other serial hmem).imp
            (fun hin => Finset.mem_erase.mpr ⟨hsame, hin⟩) Finset.mem_insert_of_mem
      released := fun other message serial hmem =>
        Finset.mem_insert_of_mem (h.covers.released other message serial hmem)
      authorized := h.covers.authorized }
  grouped := h.grouped
  settled := h.settled
  keyed other state hlookup := h.keyed other state (lookup_erase_some hlookup).2
  live other state hlookup := h.live other state (lookup_erase_some hlookup).2
  distinct one two state state' hone htwo := h.distinct one two state state'
    (lookup_erase_some hone).2 (lookup_erase_some htwo).2

end Remembers

/-! ## The invariant of a running node -/

/-- Every nonce pair in memory was committed to, unless the node can no longer sign. -/
def Backed (node : Node lib) : Prop :=
  ∀ job state, node.party.frostNonces.lookup job = some state →
    .committed job state.serial ∈ node.journal ∨ Stuck node.party ∨
      node.party.stateHealthy = false ∨ node.down = true

structure Signing (node : Node lib) : Prop where
  order : InOrder lib node.drawn node.journal
  disk : Covers lib node.journal (diskView node.disk)
  memory : Remembers lib node.drawn node.journal (memoryOf node.party)
  backed : Backed node

/-- What remains of the signing invariant while no process runs. -/
def Rested (disk : Option (DurableProofState lib)) (drawn : ℕ) (journal : List (Event P)) : Prop :=
  InOrder lib drawn journal ∧ Covers lib journal (diskView disk)

def CommitmentsEncode (lib : PartyLibrary P) : Prop :=
  ∀ key serial, lib.frost.commitments.serialize (lib.frost.commit key serial).2 ≠ none

section Steps

variable {node : Node lib}

def Quiet : Event P → Prop
  | .presented _ | .bound _ _ | .paymentAuthorized _ _ | .typedAuthorized _ _ => True
  | _ => False

theorem Signing.noted_quiet (h : Signing node) (hquiet : Quiet event) :
    Signing (noted node event) := by
  have hreserved : ∀ job serial, event ≠ .reserved job serial := by
    rintro job serial rfl
    exact hquiet
  have hreleased : ∀ job message serial, event ≠ .released job message serial := by
    rintro job message serial rfl
    exact hquiet
  have hallowed : Allowed lib node.journal event := by
    cases event <;> first | exact trivial | exact hquiet.elim
  have hnew : ∀ job serial, .reserved job serial ∉ [event] :=
    fun job serial hmem => hreserved job serial (mem_singleton.mp hmem).symm
  have hnone : ∀ job message serial, .released job message serial ∉ [event] :=
    fun job message serial hmem => hreleased job message serial (mem_singleton.mp hmem).symm
  exact
    { order := h.order.snoc hallowed hreserved
      disk := h.disk.append (fun job serial hmem => absurd hmem (hnew job serial))
        fun job message serial hmem => absurd hmem (hnone job message serial)
      memory := h.memory.append hnew fun _ _ _ hmem => absurd hmem (hnone _ _ _)
      backed := fun job state hstate => (h.backed job state hstate).imp_left
        (mem_append_left [event]) }

/-- A write without a mark keeps the invariant, however it ends. -/
theorem Signing.persisted (h : Signing node)
    (hpersist : Persisted [] node result node') : Signing node' := by
  have hwritten : ∀ base, MaybeWritten [] node base →
      base.journal = node.journal ∧ base.drawn = node.drawn ∧ base.party = node.party ∧
        Covers lib node.journal (diskView base.disk) := by
    rintro _ (_ | ⟨_, _⟩)
    · exact ⟨rfl, rfl, rfl, h.disk⟩
    · exact ⟨append_nil _, rfl, rfl, h.memory.covers⟩
  cases hpersist with
  | stuck => exact h
  | stored hstuck =>
    refine ⟨?_, ?_, ?_, fun job state hstate => ?_⟩
    · rw [written, append_nil]
      exact h.order
    · rw [written, append_nil]
      exact h.memory.covers
    · rw [written, append_nil]
      exact h.memory
    · rw [written, append_nil]
      rcases h.backed job state hstate with hcommitted | hold | hdown
      · exact .inl hcommitted
      · exact absurd hold hstuck
      · exact .inr (.inr hdown)
  | failed hbase =>
    obtain ⟨hjournal, hdrawn, -, hdisk⟩ := hwritten _ hbase
    refine ⟨?_, ?_, ?_, fun job state hstate => .inr (.inr (.inl rfl))⟩
    · rw [hjournal, hdrawn]
      exact h.order
    · rw [hjournal]
      exact hdisk
    · rw [hjournal, hdrawn]
      exact h.memory
  | crashed hbase =>
    obtain ⟨hjournal, hdrawn, hparty, hdisk⟩ := hwritten _ hbase
    refine ⟨?_, ?_, ?_, fun job state hstate => .inr (.inr (.inr rfl))⟩
    · rw [hjournal, hdrawn]
      exact h.order
    · rw [hjournal]
      exact hdisk
    · rw [hjournal, hdrawn, hparty]
      exact h.memory

variable {job : Digest32}

theorem not_mem_of_unused (hunused : usedJob party job = false) :
    job ∉ party.frostReserved ∧ job ∉ party.frostConsumed ∧
      party.frostNonces.lookup job = none := by
  have hused : ¬ (job ∈ party.frostReserved ∨ job ∈ party.frostConsumed ∨
      (party.frostNonces.lookup job).isSome = true) := of_decide_eq_false hunused
  obtain ⟨hreserved, hrest⟩ := not_or.mp hused
  obtain ⟨hconsumed, hnonce⟩ := not_or.mp hrest
  exact ⟨hreserved, hconsumed, Option.not_isSome_iff_eq_none.mp hnonce⟩

theorem Signing.never_reserved (h : Signing node) (hunused : usedJob node.party job = false)
    (serial : ℕ) :
    .reserved job serial ∉ node.journal := by
  intro hmem
  obtain ⟨hreserved, hconsumed, -⟩ := not_mem_of_unused hunused
  exact (h.memory.covers.reserved job serial hmem).elim hreserved hconsumed

variable {message : Bytes}

/-- The memory of a node that drew a nonce pair agrees with its journal, with or without the
reservation. -/
theorem Signing.reserved_memory (h : Signing node) (hjob : Reservable node job message)
    (nonces : lib.frost.SigningNonces) (more : List (Event P))
    (hreserved : ∀ other serial, .reserved other serial ∈ more → other = job)
    (hreleased : ∀ other message serial, .released other message serial ∉ more) :
    Remembers lib (node.drawn + 1) (node.journal ++ more)
      (memoryOf (reservedNode node job message nonces).party) := by
  obtain ⟨-, hconsumed, hnonce⟩ := not_mem_of_unused hjob.unused
  exact h.memory.reserve h.order hjob.keyed hconsumed hnonce hjob.authorized hreserved hreleased

variable {other : Digest32} {serial : ℕ}

theorem mem_reservation (hmem : Event.reserved (P := P) other number ∈ [.reserved job serial]) :
    other = job := by
  cases mem_singleton.mp hmem
  rfl

theorem not_released_mem_reservation {signed : Bytes} :
    Event.released (P := P) other signed number ∉ [.reserved job serial] := by
  intro hmem
  cases mem_singleton.mp hmem

/-- Whether or not the reservation is written, the file and the memory agree with the
journal. -/
theorem Signing.reservation_base (h : Signing node)
    (hjob : Reservable node job message) (nonces : lib.frost.SigningNonces)
    (hbase : MaybeWritten [.reserved job node.drawn] (reservedNode node job message nonces) base) :
    base.party = (reservedNode node job message nonces).party ∧
      InOrder lib base.drawn base.journal ∧ Covers lib base.journal (diskView base.disk) ∧
      Remembers lib base.drawn base.journal
        (memoryOf (reservedNode node job message nonces).party) := by
  have hwritten := h.reserved_memory hjob nonces [.reserved job node.drawn]
    (fun _ _ => mem_reservation) fun _ _ _ => not_released_mem_reservation
  cases hbase with
  | unchanged =>
    have hmemory := h.reserved_memory hjob nonces []
      (fun _ _ hmem => nomatch hmem) fun _ _ _ hmem => nomatch hmem
    rw [append_nil] at hmemory
    exact ⟨rfl, h.order.drawn_succ, h.disk, hmemory⟩
  | written =>
    exact ⟨rfl, h.order.reserve (h.never_reserved hjob.unused), hwritten.covers, hwritten⟩

section

variable (h : Signing node)

include h

theorem Signing.unreserved (hjob : Reservable node job message)
    (hpersist : Persisted [.reserved job node.drawn] (reservedNode node job message nonces) (.error
      error) node') : Signing node' := by
  cases hpersist with
  | stuck hstuck =>
    obtain ⟨-, horder, hdisk, hmemory⟩ := h.reservation_base hjob nonces .unchanged
    exact ⟨horder, hdisk, hmemory, fun _ _ _ => .inr (.inl hstuck)⟩
  | failed hbase =>
    obtain ⟨-, horder, hdisk, hmemory⟩ := h.reservation_base hjob nonces hbase
    exact ⟨horder, hdisk, hmemory, fun _ _ _ => .inr (.inr (.inl rfl))⟩
  | crashed hbase =>
    obtain ⟨hparty, horder, hdisk, hmemory⟩ := h.reservation_base hjob nonces hbase
    refine ⟨horder, hdisk, ?_, fun _ _ _ => .inr (.inr (.inr rfl))⟩
    rw [hparty]
    exact hmemory

theorem Signing.committed (hjob : Reservable node job message)
    (hstuck : ¬ Stuck (reservedNode node job message nonces).party) :
    Signing (noted { written (reservedNode node job message nonces) [.reserved job node.drawn]
        generation packages with
      party := { (reservedNode node job message nonces).party with
        stateGeneration := generation } } (.committed job node.drawn)) := by
  obtain ⟨-, horder, hdisk, hmemory⟩ :=
    h.reservation_base hjob nonces (.written generation packages)
  have hfirst : ∀ serial, .committed job serial ∉ node.journal ++ [.reserved job node.drawn] := by
    intro serial hmem
    rcases mem_append.mp hmem with hold | hnew
    · exact h.never_reserved hjob.unused serial (h.order.committed_reserved hold)
    · cases mem_singleton.mp hnew
  have hallowed : Allowed lib (node.journal ++ [.reserved job node.drawn])
      (.committed job node.drawn) :=
    ⟨mem_append_right _ mem_cons_self, hfirst⟩
  have hreserved : ∀ other serial, Event.reserved (P := P) other serial ∉
      [.committed job node.drawn] := fun _ _ hmem => nomatch mem_singleton.mp hmem
  have hreleased : ∀ other signed serial, Event.released (P := P) other signed serial ∉
      [.committed job node.drawn] := fun _ _ _ hmem => nomatch mem_singleton.mp hmem
  refine ⟨horder.snoc hallowed (fun _ _ heq => nomatch heq),
    hdisk.append (fun _ _ hmem => absurd hmem (hreserved _ _)) fun _ _ _ hmem =>
      absurd hmem (hreleased _ _ _),
    hmemory.append hreserved fun _ _ _ hmem => absurd hmem (hreleased _ _ _),
    fun other state hstate => ?_⟩
  obtain ⟨rfl, rfl⟩ | hlookup := lookup_insert_some hstate
  · exact .inl (mem_append_right _ mem_cons_self)
  · rcases h.backed other state hlookup with hcommitted | hold | hdown
    · exact .inl (mem_append_left _ (mem_append_left _ hcommitted))
    · exact absurd hold hstuck
    · exact .inr (.inr hdown)

theorem Signing.authorized (hunused : usedJob node.party (signingJob lib message) = false)
    (hpresented : .presented message ∈ node.journal) :
    Signing (noted (withParty node
      (authorizedParty node.party (signingJob lib message) message))
      (.accepted (signingJob lib message) message)) := by
  have hreserved : ∀ other serial, Event.reserved (P := P) other serial ∉
      [.accepted (signingJob lib message) message] :=
    fun _ _ hmem => nomatch mem_singleton.mp hmem
  have hreleased : ∀ other signed serial, Event.released (P := P) other signed serial ∉
      [.accepted (signingJob lib message) message] :=
    fun _ _ _ hmem => nomatch mem_singleton.mp hmem
  have haccepted : Accepted lib
      (node.journal ++ [.accepted (signingJob lib message) message]) (signingJob lib message)
      (lib.sha256 message) :=
    .inr ⟨message, mem_append_right _ mem_cons_self, rfl⟩
  exact
    { order := h.order.snoc ⟨rfl, hpresented, h.never_reserved hunused⟩ (fun _ _ heq => nomatch heq)
      disk := h.disk.append (fun _ _ hmem => absurd hmem (hreserved _ _)) fun _ _ _ hmem =>
        absurd hmem (hreleased _ _ _)
      memory := (h.memory.append hreserved fun _ _ _ hmem =>
        absurd hmem (hreleased _ _ _)).authorize haccepted
      backed := fun job state hstate => (h.backed job state hstate).imp_left
        (mem_append_left _) }

theorem Signing.overwritten (hpresented : .presented message ∈ node.journal)
    (hprior : node.party.frostAuthorized.lookup (signingJob lib message) = some prior)
    (hother : prior ≠ lib.sha256 message) :
    Signing (withParty node (authorizedParty node.party (signingJob lib message) message)) := by
  have hcollides : Collides lib node.journal := by
    rcases h.memory.covers.authorized _ prior hprior with hcollides | ⟨earlier, hearlier, hdigest⟩
    · exact hcollides
    · obtain ⟨hjob, hshown⟩ := h.order.accepted_own hearlier
      refine ⟨message, earlier, hpresented, hshown, ?_, hjob⟩
      rintro rfl
      exact hother hdigest.symm
  exact ⟨h.order, h.disk, h.memory.authorize (.inl hcollides), h.backed⟩

theorem Signing.burned : Signing (withParty node (burnJob job node.party)) := by
  refine ⟨h.order, h.disk, h.memory.burn, fun other state hstate => ?_⟩
  exact h.backed other state (lookup_erase_some hstate).2

end

theorem Signing.released (h : Signing node) (hhealthy : node.party.stateHealthy = true)
    (hup : node.down = false) (hstate : node.party.frostNonces.lookup job = some state)
    (hpresented : .presented message ∈ node.journal)
    (hdigest : state.messageDigest = lib.sha256 message)
    (hstored : persist env [] (withParty node (burnJob job node.party)) = (.ok (), node')) :
    Signing (noted node' (.released job message state.serial)) := by
  have hspec := persist_spec env [] (withParty node (burnJob job node.party))
  rw [hstored] at hspec
  have hafter : Signing node' := h.burned.persisted hspec
  obtain ⟨hstuck, generation, packages, rfl⟩ := persist_ok hstored
  have hjournal : (written (withParty node (burnJob job node.party)) [] generation
      packages).journal = node.journal := append_nil _
  have hlive := h.memory.live job state hstate
  have hcommitted : .committed job state.serial ∈ node.journal := by
    rcases h.backed job state hstate with hcommitted | hold | hunhealthy | hdown
    · exact hcommitted
    · exact absurd hold hstuck
    · exact absurd (hhealthy.symm.trans hunhealthy) (Bool.false_ne_true ∘ Eq.symm)
    · exact absurd (hup.symm.trans hdown) Bool.false_ne_true
  have hallowed : Allowed lib node.journal (.released job message state.serial) := by
    refine ⟨hpresented, hcommitted, ?_, hlive.unsigned, hlive.unreleased⟩
    rw [← hdigest]
    exact hlive.accepted
  have hconsumed : job ∈ (burnJob job node.party).frostConsumed := Finset.mem_insert_self _ _
  have hreserved : ∀ other serial, Event.reserved (P := P) other serial ∉
      [.released job message state.serial] := fun _ _ hmem => nomatch mem_singleton.mp hmem
  refine ⟨?_, ?_, ?_, fun other state' hstate' => ?_⟩
  · rw [← hjournal] at hallowed
    exact hafter.order.snoc hallowed (fun _ _ heq => nomatch heq)
  · refine hafter.disk.append (fun _ _ hmem => absurd hmem (hreserved _ _)) ?_
    intro other signed serial hmem
    cases mem_singleton.mp hmem
    exact hconsumed
  · refine hafter.memory.append hreserved ?_
    intro other signed serial hmem
    cases mem_singleton.mp hmem
    refine ⟨hconsumed, fun left kept hkept => ?_⟩
    obtain ⟨hleft, hlookup⟩ := lookup_erase_some hkept
    refine ⟨Ne.symm hleft, fun hserial => hleft ?_⟩
    exact h.memory.distinct left job kept state hlookup hstate hserial.symm
  · exact (hafter.backed other state' hstate').imp_left (mem_append_left _)

theorem Signing.no_nonces (h : Signing node) (hkey : node.party.frostKey.isSome = false) :
    node.party.frostNonces.lookup job ≠ some state := by
  intro hstate
  have hkeyed : node.party.frostKey.isSome = true := h.memory.keyed job state hstate
  rw [hkey] at hkeyed
  exact Bool.false_ne_true hkeyed

theorem Signing.unkeyed_of_open (h : Signing node)
    (hopen : node.party.frostKey = none ∨ node.party.pendingPeers.isSome = true ∨
      node.party.peers.isSome = true) : node.party.frostKey.isSome = false := by
  rcases hopen with hnone | henrolling
  · rw [hnone]
    rfl
  · by_contra hkeyed
    have hsettled := h.memory.settled (Bool.eq_true_of_not_eq_false hkeyed)
    have henrolling : (memoryOf node.party).enrolling = true := Bool.or_eq_true_iff.mpr henrolling
    rw [hsettled] at henrolling
    exact Bool.false_ne_true henrolling

theorem Signing.enrolling (h : Signing node)
    (hopen : node.party.frostKey = none ∨ node.party.pendingPeers.isSome = true ∨
      node.party.peers.isSome = true)
    (pendingPeers peers : Option (PendingPeers lib)) (round1 : Option (PendingDkgRound1 lib))
    (round2 : Option (PendingDkgRound2 lib)) :
    Signing (withParty node { node.party with
      pendingPeers := pendingPeers
      peers := peers
      dkgRound1 := round1
      dkgRound2 := round2 }) := by
  have hkey := h.unkeyed_of_open hopen
  refine ⟨h.order, h.disk, ?_, fun job state hstate => absurd hstate (h.no_nonces hkey)⟩
  exact
    { covers := h.memory.covers
      grouped := h.memory.grouped
      settled := fun hkeyed => absurd (hkey.symm.trans hkeyed) Bool.false_ne_true
      keyed := h.memory.keyed
      live := h.memory.live
      distinct := h.memory.distinct }

theorem Signing.grouped (h : Signing node) (hnone : node.party.frostPublic = none)
    (group : FinalizedGroup lib) (session digest : Digest32) :
    Signing (withParty node { node.party with
      pqCommittee := some group.committee
      frostKey := some group.keyPackage
      frostPublic := some group.publicPackage
      frostSession := some session
      frostDkgFinalizeDigest := some digest
      dkgRound2 := none
      dkgRound1 := none
      peers := none
      pendingPeers := none }) := by
  have hkey : node.party.frostKey.isSome = false := by
    have hgrouped : node.party.frostKey.isSome = node.party.frostPublic.isSome := h.memory.grouped
    rw [hgrouped, hnone]
    rfl
  refine ⟨h.order, h.disk, ?_, fun job state hstate => absurd hstate (h.no_nonces hkey)⟩
  exact
    { covers := h.memory.covers
      grouped := rfl
      settled := fun _ => rfl
      keyed := fun _ _ _ => rfl
      live := h.memory.live
      distinct := h.memory.distinct }

theorem Signing.move (hencode : CommitmentsEncode lib) (hmove : Move env node node')
    (h : Signing node) : Signing node' := by
  cases hmove with
  | saved => exact h.persisted (persist_spec env [] node)
  | aborted => exact ⟨h.order, h.disk, h.memory, fun _ _ _ => .inr (.inr (.inr rfl))⟩
  | presented | checked | paymentAuthorized | typedAuthorized => exact h.noted_quiet trivial
  | recorded | loaded | worked | paid | closed | acted | typed =>
    exact ⟨h.order, h.disk, h.memory, h.backed⟩
  | enrolling hopen pendingPeers peers round1 round2 =>
    exact h.enrolling hopen pendingPeers peers round1 round2
  | grouped hnone group session digest => exact h.grouped hnone group session digest
  | authorized hunused hpresented => exact h.authorized hunused hpresented
  | overwritten _ hpresented hprior hother => exact h.overwritten hpresented hprior hother
  | @unreserved job message hjob nonces error herror =>
    have hspec := persist_spec env [.reserved job node.drawn]
      (reservedNode node job message nonces)
    rw [herror] at hspec
    exact h.unreserved hjob hspec
  | unencoded hkey hjob hnone _ => exact absurd hnone (hencode _ _)
  | committed hjob nonces hstored =>
    obtain ⟨hstuck, _, _, rfl⟩ := persist_ok hstored
    exact h.committed hjob hstuck
  | burned => exact h.burned
  | released hhealthy hup hstate hpresented hdigest hstored =>
    exact h.released hhealthy hup hstate hpresented hdigest hstored

theorem signing_lifelong (hencode : CommitmentsEncode lib) :
    Lifelong (Signing : Node lib → Prop) Rested where
  fresh :=
    ⟨⟨.nil, fun _ _ hmem => nomatch hmem⟩,
      { reserved := fun _ _ hmem => nomatch hmem
        released := fun _ _ _ hmem => nomatch hmem
        authorized := fun _ _ hlookup => nomatch hlookup }⟩
  create _ _ h := h
  restart := by
    intro config state now drawn journal party hrestore ⟨horder, hcovers⟩
    obtain ⟨_, _, _, peers, rfl, hgrouped, hpeers, -⟩ := restore_ok hrestore
    refine ⟨horder, hcovers, ?_, fun _ _ hlookup => nomatch hlookup⟩
    exact
      { covers := hcovers
        grouped := hgrouped
        settled := fun hkeyed => by
          change (false || peers.isSome) = false
          rw [hpeers hkeyed]
          rfl
        keyed := fun _ _ hlookup => nomatch hlookup
        live := fun _ _ hlookup => nomatch hlookup
        distinct := fun _ _ _ _ hlookup => nomatch hlookup }
  move := Signing.move hencode
  rest h := ⟨h.order, h.disk⟩

end Steps

/-! ## Shares and the replies that carry them -/

def isShareOf (message : Bytes) : Event P → Bool
  | .released _ signed _ => signed = message
  | _ => false

def isShareFor (job : Digest32) : Event P → Bool
  | .released signed _ _ => signed = job
  | _ => false

def usesNonce (serial : ℕ) : Event P → Bool
  | .released _ _ used => used = serial
  | _ => false

def isCommitFor (job : Digest32) : Event P → Bool
  | .committed committed _ => committed = job
  | _ => false

def hashed (journal : List (Event P)) : Set Bytes :=
  { bytes | ∃ message, .presented message ∈ journal ∧
    (bytes = message ∨ bytes = utf8 "QOMM:FROST:SIGNING-JOB:v1" ++ message) }

theorem not_collides (hinjective : Set.InjOn lib.sha256 (hashed journal)) :
    ¬ Collides lib journal := by
  rintro ⟨message, other, hmessage, hother, hne, hjob⟩
  have hsame := hinjective ⟨message, hmessage, .inr rfl⟩ ⟨other, hother, .inr rfl⟩ hjob
  exact hne (append_cancel_left hsame)

section Counting

section

variable (h : Chronicle (Allowed lib) journal)

include h

theorem countP_isCommitFor_le_one (job : Digest32) : journal.countP (isCommitFor job) ≤ 1 := by
  refine h.countP_le_one _ fun past event hallowed hkind earlier hearlier => ?_
  cases event with
  | committed committed =>
    obtain rfl := of_decide_eq_true hkind
    cases earlier with
    | committed other number =>
      refine decide_eq_false ?_
      rintro rfl
      exact hallowed.2 number hearlier
    | _ => rfl
  | _ => cases hkind

theorem countP_isShareFor_le_one (job : Digest32) : journal.countP (isShareFor job) ≤ 1 := by
  refine h.countP_le_one _ fun past event hallowed hkind earlier hearlier => ?_
  cases event with
  | released =>
    obtain rfl := of_decide_eq_true hkind
    cases earlier with
    | released other text number =>
      refine decide_eq_false ?_
      rintro rfl
      exact hallowed.2.2.2.1 text number hearlier
    | _ => rfl
  | _ => cases hkind

theorem countP_usesNonce_le_one (serial : ℕ) : journal.countP (usesNonce serial) ≤ 1 := by
  refine h.countP_le_one _ fun past event hallowed hkind earlier hearlier => ?_
  cases event with
  | released =>
    obtain rfl := of_decide_eq_true hkind
    cases earlier with
    | released other text =>
      refine decide_eq_false ?_
      rintro rfl
      exact hallowed.2.2.2.2 other text hearlier
    | _ => rfl
  | _ => cases hkind

end

variable {past future : List (Event P)} {job : Digest32} {serial : ℕ}

theorem InOrder.share (h : InOrder lib drawn journal)
    (hinjective : Set.InjOn lib.sha256 (hashed journal))
    (hsplit : journal = past ++ .released job message serial :: future) :
    job = signingJob lib message ∧ .accepted job message ∈ past ∧ .committed job serial ∈ past ∧
      past.countP (isCommitFor job) = 1 := by
  have hchronicle := h.chronicle
  rw [hsplit] at hchronicle
  have hsub : past ⊆ journal := by
    rw [hsplit]
    exact subset_append_left _ _
  obtain ⟨hpresented, hcommitted, haccepted, -, -⟩ := hchronicle.allowed
  have hone : past.countP (isCommitFor job) = 1 := by
    have hle := countP_isCommitFor_le_one hchronicle.of_append job
    have hpos : 0 < past.countP (isCommitFor job) :=
      countP_pos_iff.mpr ⟨_, hcommitted, decide_eq_true rfl⟩
    omega
  rcases haccepted with hcollides | ⟨accepted, haccepted, hdigest⟩
  · exact absurd (hcollides.mono hsub) (not_collides hinjective)
  · obtain ⟨hjob, hshown⟩ := h.accepted_own (hsub haccepted)
    obtain rfl := hinjective ⟨accepted, hshown, .inl rfl⟩ ⟨message, hsub hpresented, .inl rfl⟩
      hdigest
    exact ⟨hjob, haccepted, hcommitted, hone⟩

theorem InOrder.countP_isShareOf_le_one (h : InOrder lib drawn journal)
    (hinjective : Set.InjOn lib.sha256 (hashed journal)) (message : Bytes) :
    journal.countP (isShareOf message) ≤ 1 := by
  refine le_trans (countP_mono_left fun event hmem hkind => ?_)
    (countP_isShareFor_le_one h.chronicle (signingJob lib message))
  cases event with
  | released =>
    obtain rfl := of_decide_eq_true hkind
    obtain ⟨_, _, hsplit⟩ := append_of_mem hmem
    exact decide_eq_true (h.share hinjective hsplit).1
  | _ => cases hkind

theorem InOrder.after_commitment (h : InOrder lib drawn journal)
    (hsplit : journal = past ++ event :: future)
    (hevent : event = .reserved job serial ∨ event = .committed job serial) :
    (∀ message, .accepted job message ∉ future) ∧ ∀ other, .reserved job other ∉ future := by
  have hchronicle := h.chronicle
  rw [hsplit] at hchronicle
  -- the reservation is in every past that holds the event and the past of the event
  have hreserved : ∀ before, event ∈ before → past ⊆ before → .reserved job serial ∈ before := by
    intro before hmem hsub
    rcases hevent with rfl | rfl
    · exact hmem
    · exact hsub hchronicle.allowed.1
  constructor
  · intro message hmem
    obtain ⟨before, hallowed, hin, hsub⟩ := hchronicle.of_mem_later hmem
    exact hallowed.2.2 serial (hreserved before hin hsub)
  · intro other hmem
    obtain ⟨before, hallowed, hin, hsub⟩ := hchronicle.of_mem_later hmem
    exact hallowed.1 serial (hreserved before hin hsub)

end Counting

theorem frostSign_ok {env : Env} {node node' : Node lib} {jobId : Param Digest32}
    {message : Bytes} {commitments : Param (List CommitmentEntry)} {reply : Reply}
    (h : frostSign env jobId (.ok message) commitments node = (.ok reply, node')) :
    ∃ job serial,
      node'.journal = node.journal ++ [.presented message, .released job message serial] := by
  change (lift jobId >>= _) node = _ at h
  obtain ⟨job, -, h⟩ := lift_bind_ok.mp h
  obtain ⟨_, hsigned, h⟩ := lift_bind_ok.mp h
  cases hsigned
  change (lift commitments >>= _) (noted node (.presented message)) = _ at h
  obtain ⟨_, -, h⟩ := lift_bind_ok.mp h
  obtain ⟨-, h⟩ := failIf_bind_ok.mp h
  obtain ⟨_, -, h⟩ := lift_bind_ok.mp h
  obtain ⟨-, h⟩ := failIf_bind_ok.mp h
  obtain ⟨state, -, h⟩ := need_bind_ok.mp h
  obtain ⟨_, mid, hpersist, h⟩ := bind_ok.mp h
  cases hpersist
  obtain ⟨_, _, hpersist, h⟩ := bind_ok.mp h
  obtain ⟨-, _, _, rfl⟩ := persist_ok hpersist
  obtain ⟨-, h⟩ := failIf_bind_ok.mp h
  obtain ⟨_, -, h⟩ := need_bind_ok.mp h
  obtain ⟨_, -, h⟩ := need_bind_ok.mp h
  obtain ⟨_, -, h⟩ := need_bind_ok.mp h
  obtain ⟨_, -, h⟩ := need_bind_ok.mp h
  obtain ⟨_, -, h⟩ := lift_bind_ok.mp h
  obtain ⟨_, -, h⟩ := lift_bind_ok.mp h
  cases h
  refine ⟨job, state.serial, ?_⟩
  simp [written, noted]

section Runs

variable [AddCommGroup P] [Module Scalar P] [DecidableEq P]

def sharedMessage : Op lib × Except String Reply → Option Bytes
  | (.request (.frostSign _ (.ok message) _) _, .ok _) => some message
  | _ => none

theorem step_share {world : World lib} {op : Op lib} {message : Bytes}
    (h : sharedMessage (op, (step world op).1) = some message) :
    ∃ job serial, (step world op).2.journal =
      world.journal ++ [.presented message, .released job message serial] := by
  unfold sharedMessage at h
  split at h
  · rename_i jobId signed commitments env reply heq
    obtain ⟨rfl, hreply⟩ := Prod.mk.inj heq
    cases h
    obtain ⟨_, _, hrun, hafter⟩ := serve_ok hreply
    obtain ⟨job, serial, hjournal⟩ := frostSign_ok (dispatch_ok hrun)
    refine ⟨job, serial, ?_⟩
    change (serve _ world).2.journal = _
    rw [hafter]
    exact hjournal
  · cases h

theorem replies_le_shares (ops : List (Op lib)) (message : Bytes) :
    (run step World.fresh ops).events.countP (fun event => sharedMessage event = some message) ≤
      (run step World.fresh ops).state.journal.countP (isShareOf message) := by
  refine run_induction step (P := fun events world =>
    events.countP (fun event => sharedMessage event = some message) ≤
      world.journal.countP (isShareOf message)) (Nat.zero_le _) ?_ ops
  intro events world op hold
  rw [countP_append, countP_singleton]
  split_ifs with hshared
  · obtain ⟨job, serial, hjournal⟩ := step_share (of_decide_eq_true hshared)
    rw [hjournal, countP_append]
    have hone : [Event.presented message, .released (P := P) job message serial].countP
        (isShareOf message) = 1 := by
      simp [isShareOf]
    omega
  · exact hold.trans ((step_journal world op).sublist.countP_le)

/-! ## The theorem -/

/-- **One-use signing.** Over every run of a node with crashes and restarts at any point, if
SHA-256 is injective on the strings the node hashed: a share for a message is returned only
after that message was accepted and after exactly one commitment for its job; every nonce
pair yields at most one share; every message gets at most one share, in the journal and in
the replies; and after a job was committed to it is never accepted or committed to again and
yields at most one share. -/
theorem one_use_signing (hencode : CommitmentsEncode lib) (ops : List (Op lib))
    (hinjective : Set.InjOn lib.sha256 (hashed (run step World.fresh ops).state.journal)) :
    (∀ past future job message serial,
      (run step World.fresh ops).state.journal = past ++ .released job message serial :: future →
        job = signingJob lib message ∧ .accepted job message ∈ past ∧
        .committed job serial ∈ past ∧ past.countP (isCommitFor job) = 1) ∧
    (∀ serial, (run step World.fresh ops).state.journal.countP (usesNonce serial) ≤ 1) ∧
    (∀ message, (run step World.fresh ops).state.journal.countP (isShareOf message) ≤ 1) ∧
    (∀ message, (run step World.fresh ops).events.countP
      (fun event => sharedMessage event = some message) ≤ 1) ∧
    ∀ past future job serial event,
      (run step World.fresh ops).state.journal = past ++ event :: future →
      event = .reserved job serial ∨ event = .committed job serial →
        (∀ message, .accepted job message ∉ future) ∧ (∀ other, .reserved job other ∉ future) ∧
        (run step World.fresh ops).state.journal.countP (isCommitFor job) ≤ 1 ∧
        (run step World.fresh ops).state.journal.countP (isShareFor job) ≤ 1 := by
  have horder := (holdsAt_run (signing_lifelong hencode) ops).resting.1
  refine ⟨fun past future job message serial hsplit => horder.share hinjective hsplit,
    countP_usesNonce_le_one horder.chronicle, horder.countP_isShareOf_le_one hinjective,
    fun message => ?_, fun past future job serial event hsplit hevent => ?_⟩
  · exact (replies_le_shares ops message).trans (horder.countP_isShareOf_le_one hinjective message)
  · obtain ⟨haccepted, hreserved⟩ := horder.after_commitment hsplit hevent
    exact ⟨haccepted, hreserved, countP_isCommitFor_le_one horder.chronicle job,
      countP_isShareFor_le_one horder.chronicle job⟩

end Runs

/-! ## A node that signs a probe -/

section Sample

open SettlementVenue

def sampleCodec : Codec Unit := ⟨fun _ => some [1], fun _ => some ()⟩

def sampleFrost : FrostLibrary sampleQuorum.PublicKeyPackage where
  KeyPackage := Unit
  Round1Secret := Unit
  Round1Package := Unit
  Round2Secret := Unit
  Round2Package := Unit
  SigningNonces := Unit
  SigningCommitments := Unit
  keyPackage := sampleCodec
  publicKeyPackage := fun _ => some ()
  round1Secret := sampleCodec
  round1Package := sampleCodec
  round2Secret := sampleCodec
  round2Package := sampleCodec
  commitments := sampleCodec
  part1 := fun _ _ _ _ => some ((), ())
  part2 := fun _ _ => some ((), Finmap.singleton 2 ())
  part3 := fun _ _ _ => some ((), ())
  commit := fun _ _ => ((), ())
  sign := fun _ _ _ _ => some [7]

def sampleIdentity : IdentityLibrary sampleQuorum.KeyRecord where
  keyRecordEq := inferInstanceAs (DecidableEq Unit)
  PeerEntry := ℕ
  entryEq := inferInstance
  party := fun entry => entry
  pqKey := fun _ => ()
  identityPublicText := fun _ => ""
  publicationPublicText := fun _ => ""
  exchangePublicText := fun _ => ""
  verifyPeerIdentity := fun _ _ => .ok ⟨[], [], [], [], []⟩
  keyRecordBytes := fun _ => []
  validAt := fun _ _ => .ok ()
  validateRecord := fun _ => .ok ()
  ownSettlementKey := fun _ => true
  generate := fun _ _ => .ok ⟨replicate 32 1, replicate 64 1, replicate 96 1,
    replicate 32 1, ()⟩
  kemSuite := []
  identityPublic := fun _ => []
  publicationPublic := fun _ => []
  exchangePublic := fun _ => .ok []
  applicationPublic := fun _ => repeated 3
  identitySign := fun _ _ => []
  transportSign := fun _ _ _ => .ok []
  publicationSign := fun _ _ => .ok []
  applicationSign := fun _ _ => .ok []
  verifyIdentity := fun _ _ _ => true
  verifyTransport := fun _ _ _ => true
  sealForWinner := fun _ _ _ _ _ _ => .ok [1]
  openIfWinner := fun _ _ _ _ _ _ => .ok (some [1])
  envelopeDecodes := fun _ => true

/-- Proof shares without content. -/
def sampleIssuer (Early Prepare Late : Type) : Issuer Early Prepare Late where
  Node := Unit
  Bound := Unit
  Secret := Unit
  Evaluation := Unit
  Statement := Unit
  Challenge := Unit
  party := fun _ => 1
  evaluations := fun _ _ _ => .ok []
  bind := fun _ _ => .ok ()
  relations := fun _ _ _ => .ok (.ok [])
  prepare := fun _ _ _ _ => .ok ((), .ok [], .ok [])
  answer := fun _ _ _ _ _ => .ok (.ok [])

def sampleDigest (bytes : Bytes) : Digest32 := repeated (UInt8.ofNat bytes.length)

def sampleParty : PartyLibrary Scalar where
  primitives := sampleGroup
  bulletproofs := sampleLibrary
  quorum := sampleQuorum
  frost := sampleFrost
  identity := sampleIdentity
  sha256 := sampleDigest
  sha512 := sampleHash
  defaultGens := ⟨0, 0⟩
  key := ⟨0, 0⟩
  decompress := fun _ => some 0
  receiptKeyValid := fun _ => true
  recipientPublicBytes := 1
  zkpi := sampleIssuer Unit Unit Unit
  limit := sampleIssuer Unit Bytes Unit
  dvp := sampleIssuer Scalar Scalar Unit
  quote := sampleIssuer _ _ _
  zkpiStatements := fun _ _ => .ok ()
  zkpiAmount := fun _ => 0
  zkpiPrice := fun _ => 0
  limitStatement := fun _ _ => .ok ()
  limitCommitment := fun _ => 0
  dvpPoints := fun _ => ⟨1, 0, 0, 0⟩
  dvpStatements := fun _ _ _ _ _ _ _ => .ok ()
  coefficientCommitments := fun _ _ => .ok [1]
  quoteStatement := fun _ _ _ _ _ _ _ => .ok ()
  winnerIndex := fun _ => 0
  winnerValue := fun _ => 0
  QuoteRelation := Unit
  QuoteRelations := Unit
  quoteRelations := fun _ _ _ _ => .ok ()
  QuoteRound := Unit
  QuoteSeal := Unit
  QuoteResponse := Unit
  assembleQuote := fun _ _ _ _ _ _ _ _ _ => .ok zeroDigest
  zkpiAmountOpening := fun _ => (0, 0)
  dvpSecuritiesOpening := fun _ => (0, 0)
  dvpCashOpening := fun _ => .ok (0, 0)
  dvpCashRemainderOpening := fun _ => (0, 0)
  encryptOpeningShare := fun _ _ _ _ _ _ _ => .ok []
  verifyMakerMandate := fun _ _ => .ok ()
  makerMandateDigest := fun _ => .ok zeroDigest
  verifyTakerMandate := fun _ _ => .ok ()
  takerMandateDigest := fun _ => .ok zeroDigest
  verifyAcknowledgement := fun _ _ => .ok ()
  allocationMessage := fun _ => .ok []
  standingNotePoolId := fun _ _ _ _ _ => .ok zeroDigest
  delegationDigest := fun _ _ _ _ _ => .ok zeroDigest
  dvpPackageDigest := fun _ _ _ _ _ => zeroDigest
  rangeProofDigest := fun _ => zeroDigest
  authentication := ⟨fun _ _ _ => .ok ()⟩
  quoteInputRoot := fun _ _ _ _ => .ok zeroDigest
  verifyBundle := fun _ => .ok zeroDigest
  encodeQuoteAuthorization := fun _ => .ok []
  principalTicketId := fun _ _ => .ok zeroDigest
  signAdmission := fun _ _ _ => .ok []
  signExecution := fun _ _ _ _ => .ok []
  signMember := fun _ _ _ _ _ => .ok [8]
  policyDigest := fun _ => .ok zeroDigest
  policyBytes := fun _ => []

/-- The first of two nodes, with probes allowed. -/
def sampleConfig : ProofPartyConfig where
  recipientOpeningKeys := []
  node := 0
  statePassphrase := replicate 16 1
  nMm := 1
  nParties := 2
  threshold := 1
  amountBits := 8
  priceBits := 8
  remainderBits := 8
  completeQuoteProof := false
  quoteEligibilityBits := 8
  quoteSpanBits := 8
  trustedDefmiReceiptPublic := none
  allowHealthSigning := true

/-- Surroundings in which writes succeed. -/
def calm : Env := ⟨some 10, [], .stored⟩

def sampleBroadcasts : DkgBroadcasts :=
  ⟨.ok [], .ok [⟨.ok 1, .ok [1]⟩, ⟨.ok 2, .ok [1]⟩]⟩

def sampleEnrollment : List (Op sampleParty) :=
  [.start sampleConfig calm,
    .request (.frostConfigurePeers (.ok (repeated 4)) (.ok [(1 : ℕ), (2 : ℕ)])) calm,
    .request (.frostConfirmPeers (.ok [⟨.ok 1, .ok [], .ok []⟩, ⟨.ok 2, .ok [], .ok []⟩])) calm,
    .request .frostDkgRound1 calm,
    .request (.frostDkgRound2 sampleBroadcasts) calm,
    .request (.frostDkgFinalize (.ok []) sampleBroadcasts
      (.ok [⟨.ok 2, .ok 1, .ok [1]⟩])) calm]

def sampleProbe : Bytes := (repeated 85).toList

def sampleJob : Digest32 := repeated 57

def sampleSigning : List (Op sampleParty) :=
  [.request (.authorizeHealth (.ok sampleJob) (.ok sampleProbe) (.ok (repeated 5))
      (.ok .preRestart)) calm,
    .request (.frostCommit (.ok sampleJob) (.ok sampleProbe)) calm,
    .request (.frostSign (.ok sampleJob) (.ok sampleProbe)
      (.ok [⟨.ok 1, .ok [1]⟩, ⟨.ok 2, .ok [1]⟩])) calm]

/-- Enroll, sign the probe, crash, restart and try all of it again. -/
def sampleRun : List (Op sampleParty) :=
  sampleEnrollment ++ sampleSigning ++ [.crash, .start sampleConfig calm] ++ sampleSigning

/-- Only the probe is presented, once by each signing call that gets so far. -/
theorem sampleRun_journal : (run step World.fresh sampleRun).state.journal =
    [.presented sampleProbe, .accepted sampleJob sampleProbe, .presented sampleProbe,
      .reserved sampleJob 0, .committed sampleJob 0, .presented sampleProbe,
      .released sampleJob sampleProbe 0, .presented sampleProbe, .presented sampleProbe] := by
  decide +kernel

theorem sampleRun_injective :
    Set.InjOn sampleParty.sha256 (hashed (run step World.fresh sampleRun).state.journal) := by
  have hprobe : ∀ message, Event.presented message ∈
      (run step World.fresh sampleRun).state.journal → message = sampleProbe := by
    intro message hmessage
    rw [sampleRun_journal] at hmessage
    simpa using hmessage
  have hne : sampleDigest sampleProbe ≠
      sampleDigest (utf8 "QOMM:FROST:SIGNING-JOB:v1" ++ sampleProbe) := by
    decide +kernel
  rintro _ ⟨message, hmessage, hleft⟩ _ ⟨other, hother, hright⟩ heq
  obtain rfl := hprobe message hmessage
  obtain rfl := hprobe other hother
  rcases hleft with rfl | rfl <;> rcases hright with rfl | rfl
  · rfl
  · exact absurd heq hne
  · exact absurd heq.symm hne
  · rfl

/-- The probe is signed once; after the restart the node refuses to sign it again. -/
theorem one_use_signing_probe :
    Event.released sampleJob sampleProbe 0 ∈ (run step World.fresh sampleRun).state.journal ∧
    (run step World.fresh sampleRun).state.journal.countP (isShareOf sampleProbe) ≤ 1 ∧
    (run step World.fresh sampleRun).events.countP
      (fun event => sharedMessage event = some sampleProbe) ≤ 1 := by
  have hsigning := one_use_signing (fun _ _ => by simp [sampleParty,
    sampleFrost, sampleCodec]) sampleRun sampleRun_injective
  refine ⟨?_, hsigning.2.2.1 sampleProbe, hsigning.2.2.2.1 sampleProbe⟩
  rw [sampleRun_journal]
  simp

end Sample

end Zkpi.OneUseSigning
