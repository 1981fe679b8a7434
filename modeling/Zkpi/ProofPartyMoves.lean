import Zkpi.ProofPartyRuns

/-!
# What a request can do to a node

Every method of a proof party, whether it succeeds, refuses or dies on the way, changes the
node by a sequence of moves from one short list. The moves carry the checks that precede
them, so an invariant of a node over its whole life is proved move by move and never
method by method.
-/

namespace Zkpi.ProofPartyMoves

open ScalarField ByteText CheckedIntegers KeyedTables StatefulMethods
open StatefulMethods.Method PaymentInstruction ProofPartyLibrary ProofPartyState
open ProofPartyEnrollment ProofPartyJobs ProofPartyAuthorization ProofPartyTrades
open ProofPartyRuns
open OptimisticMachine (OptimisticPolicy Proposal)

variable {P : Type} {lib : PartyLibrary P} {env : Env} {node : Node lib}

/-! ## Writing the state file -/

/-- The state file cannot be written: its generations are used up or a secret of the
signing group does not encode. -/
def Stuck (party : ProofParty lib) : Prop :=
  checkedAdd party.stateGeneration 1 = none ∨ ∃ message, party.durablePackages = .error message

def written (node : Node lib) (mark : List (Event P)) (generation : UInt64)
    (packages : DurablePackages lib) : Node lib :=
  { node with
    disk := some (node.party.durableWith generation packages)
    journal := node.journal ++ mark }

inductive MaybeWritten (mark : List (Event P)) (node : Node lib) : Node lib → Prop
  | unchanged : MaybeWritten mark node node
  | written (generation : UInt64) (packages : DurablePackages lib) :
      MaybeWritten mark node (written node mark generation packages)

/-- How a write of the state file can end. -/
inductive Persisted (mark : List (Event P)) (node : Node lib) :
    Except String Unit → Node lib → Prop
  | stuck (hstuck : Stuck node.party) (message : String) :
      Persisted mark node (.error message) node
  | stored (hstuck : ¬ Stuck node.party) (generation : UInt64) (packages : DurablePackages lib) :
      Persisted mark node (.ok ()) { written node mark generation packages with
        party := { node.party with stateGeneration := generation } }
  | failed {base : Node lib} (hbase : MaybeWritten mark node base) (message : String) :
      Persisted mark node (.error message)
        { base with party := { node.party with stateHealthy := false } }
  | crashed {base : Node lib} (hbase : MaybeWritten mark node base) (message : String) :
      Persisted mark node (.error message) { base with down := true }

theorem persist_spec (env : Env) (mark : List (Event P)) (node : Node lib) :
    Persisted mark node (persist env mark node).1 (persist env mark node).2 := by
  cases hgeneration : checkedAdd node.party.stateGeneration 1 with
  | none =>
    simp only [persist, hgeneration]
    exact .stuck (.inl hgeneration) _
  | some generation =>
    cases hpackages : node.party.durablePackages with
    | error message =>
      simp only [persist, hgeneration, ProofParty.durableState, hpackages, bind, Except.bind]
      exact .stuck (.inr ⟨message, hpackages⟩) _
    | ok packages =>
      have hstuck : ¬ Stuck node.party := by
        rintro (h | ⟨_, h⟩)
        · rw [hgeneration] at h
          cases h
        · rw [hpackages] at h
          cases h
      simp only [persist, hgeneration, ProofParty.durableState, hpackages, bind, Except.bind]
      cases env.write with
      | stored => exact .stored hstuck generation packages
      | failed applied =>
        cases applied with
        | false => exact .failed .unchanged _
        | true => exact .failed (.written generation packages) _
      | crashed applied =>
        cases applied with
        | false => exact .crashed .unchanged _
        | true => exact .crashed (.written generation packages) _

theorem persist_ok (h : persist env mark node = (.ok result, node')) :
    ¬ Stuck node.party ∧ ∃ generation packages,
      node' = { written node mark generation packages with
        party := { node.party with stateGeneration := generation } } := by
  have hspec := persist_spec env mark node
  rw [h] at hspec
  cases hspec with
  | stored hstuck generation packages => exact ⟨hstuck, generation, packages, rfl⟩

/-- The state file holds what the party holds. -/
def Saved (node : Node lib) : Prop :=
  ∃ generation packages, node.disk = some (node.party.durableWith generation packages)

/-! ## Moves of a job -/

structure TradeView (P : Type) where
  expectedQuoteDigest : Digest32
  authorizedPaymentDigest : Option Digest64
  authorizedTakerHandle : Option P
  makerIsPayer : Option Bool
  selectedMakerHandle : Option P
  quoteVerified : Bool
  optimisticQuote : Option Digest32
  /-- The payment share has not been bound. -/
  unbound : Bool

def trade (job : ProofJob lib) : TradeView P where
  expectedQuoteDigest := job.expectedQuoteDigest
  authorizedPaymentDigest := job.authorizedPaymentDigest
  authorizedTakerHandle := job.authorizedTakerHandle
  makerIsPayer := job.makerIsPayer
  selectedMakerHandle := job.selectedMakerHandle
  quoteVerified := job.quoteVerified
  optimisticQuote := job.optimisticQuote
  unbound := job.zkpi.node.isSome

/-- What a request other than the authorization of its payment can do to a job. -/
inductive TradeMove : TradeView P → TradeView P → Prop
  | kept {view : TradeView P} : TradeMove view view
  | taken {view : TradeView P} (hunbound : view.unbound = true) :
      TradeMove view { view with unbound := false }
  | selected {view : TradeView P} (hunbound : view.unbound = true) (maker : P) :
      TradeMove view { view with unbound := false, selectedMakerHandle := some maker }
  | accepted {view : TradeView P} (hverified : view.quoteVerified = false) (digest : Digest32)
      (hsame : ∀ prior, view.optimisticQuote = some prior → prior = digest) :
      TradeMove view
        { view with expectedQuoteDigest := digest, optimisticQuote := some digest }
  | finalized {view : TradeView P} (hverified : view.quoteVerified = false) (digest : Digest32) :
      TradeMove view { view with
        expectedQuoteDigest :=
          if view.optimisticQuote.isNone then digest else view.expectedQuoteDigest
        quoteVerified := true }

structure Certifies (lib : PartyLibrary P) (view : TradeView P) (payment : CheckedPayment P) :
    Prop where
  quote : payment.terms.quoteBinding = .proofDigest view.expectedQuoteDigest
  assured : view.quoteVerified = true ∨ view.optimisticQuote.isSome = true
  maker : ∃ selected, view.selectedMakerHandle = some selected ∧
    lib.primitives.compress selected = lib.primitives.compress
      (if payment.makerIsPayer then payment.terms.payerHandle else payment.terms.payeeHandle)
  taker : payment.takerHandle =
    if payment.makerIsPayer then payment.terms.payeeHandle else payment.terms.payerHandle
  apart : lib.primitives.compress payment.terms.payerHandle ≠
    lib.primitives.compress payment.terms.payeeHandle

/-! ## Moves of a node -/

def withParty (node : Node lib) (party : ProofParty lib) : Node lib := { node with party := party }

def noted (node : Node lib) (event : Event P) : Node lib :=
  { node with journal := node.journal ++ [event] }

structure Reservable (node : Node lib) (job : Digest32) (message : Bytes) : Prop where
  keyed : node.party.frostKey.isSome = true
  unused : usedJob node.party job = false
  own : job = signingJob lib message
  authorized : node.party.frostAuthorized.lookup job = some (lib.sha256 message)
  presented : .presented message ∈ node.journal

def reservedNode (node : Node lib) (job : Digest32) (message : Bytes)
    (nonces : lib.frost.SigningNonces) : Node lib :=
  { node with
    party := reserveJob job ⟨lib.sha256 message, nonces, node.drawn⟩ node.party
    drawn := node.drawn + 1 }

def authorizedParty (party : ProofParty lib) (job : Digest32) (message : Bytes) :
    ProofParty lib :=
  { party with frostAuthorized := party.frostAuthorized.insert job (lib.sha256 message) }

inductive Move (env : Env) : Node lib → Node lib → Prop
  | saved {node : Node lib} : Move env node (persist env [] node).2
  | aborted {node : Node lib} : Move env node { node with down := true }
  | presented {node : Node lib} (message : Bytes) : Move env node (noted node (.presented message))
  | recorded {node : Node lib} (cache : Table Digest32 Bytes) (controls : Table Digest32 Digest32)
      (publications : Finset Digest32) (proposals : Table Digest32 Proposal) :
      Move env node (withParty node { node.party with
        pqIdentityCache := cache
        applicationControls := controls
        publicationConsumed := publications
        optimisticProposals := proposals })
  | enrolling {node : Node lib}
      (hopen : node.party.frostKey = none ∨ node.party.pendingPeers.isSome = true ∨
        node.party.peers.isSome = true)
      (pendingPeers peers : Option (PendingPeers lib)) (round1 : Option (PendingDkgRound1 lib))
      (round2 : Option (PendingDkgRound2 lib)) :
      Move env node (withParty node { node.party with
        pendingPeers := pendingPeers
        peers := peers
        dkgRound1 := round1
        dkgRound2 := round2 })
  | grouped {node : Node lib} (hnone : node.party.frostPublic = none)
      (group : FinalizedGroup lib) (session digest : Digest32) :
      Move env node (withParty node { node.party with
        pqCommittee := some group.committee
        frostKey := some group.keyPackage
        frostPublic := some group.publicPackage
        frostSession := some session
        frostDkgFinalizeDigest := some digest
        dkgRound2 := none
        dkgRound1 := none
        peers := none
        pendingPeers := none })
  | authorized {node : Node lib} {message : Bytes}
      (hunused : usedJob node.party (signingJob lib message) = false)
      (hpresented : .presented message ∈ node.journal)
      (hsame : ∀ prior, node.party.frostAuthorized.lookup (signingJob lib message) = some prior →
        prior = lib.sha256 message) :
      Move env node (noted (withParty node
        (authorizedParty node.party (signingJob lib message) message))
        (.accepted (signingJob lib message) message))
  | overwritten {node : Node lib} {message : Bytes} {prior : Digest32}
      (hunused : usedJob node.party (signingJob lib message) = false)
      (hpresented : .presented message ∈ node.journal)
      (hprior : node.party.frostAuthorized.lookup (signingJob lib message) = some prior)
      (hother : prior ≠ lib.sha256 message) :
      Move env node (withParty node (authorizedParty node.party (signingJob lib message) message))
  /-- A nonce pair is drawn and its reservation is not written, as far as the node knows. -/
  | unreserved {node : Node lib} {job : Digest32} {message : Bytes}
      (hjob : Reservable node job message) (nonces : lib.frost.SigningNonces) {error : String}
      (herror : (persist env [.reserved job node.drawn]
        (reservedNode node job message nonces)).1 = .error error) :
      Move env node (persist env [.reserved job node.drawn]
        (reservedNode node job message nonces)).2
  /-- A nonce pair is reserved and its commitment does not encode. -/
  | unencoded {node node' : Node lib} {job : Digest32} {message : Bytes}
      {key : lib.frost.KeyPackage} (hkey : node.party.frostKey = some key)
      (hjob : Reservable node job message)
      (hencode : lib.frost.commitments.serialize (lib.frost.commit key node.drawn).2 = none)
      (hstored : persist env [.reserved job node.drawn]
        (reservedNode node job message (lib.frost.commit key node.drawn).1) = (.ok (), node')) :
      Move env node node'
  | committed {node node' : Node lib} {job : Digest32} {message : Bytes}
      (hjob : Reservable node job message) (nonces : lib.frost.SigningNonces)
      (hstored : persist env [.reserved job node.drawn]
        (reservedNode node job message nonces) = (.ok (), node')) :
      Move env node (noted node' (.committed job node.drawn))
  | burned {node : Node lib} {job : Digest32} {state : FrostNonceState lib}
      (hstate : node.party.frostNonces.lookup job = some state) :
      Move env node (withParty node (burnJob job node.party))
  /-- A nonce pair is taken, its job is burned for good and its share is returned. -/
  | released {node node' : Node lib} {job : Digest32} {message : Bytes}
      {state : FrostNonceState lib} (hhealthy : node.party.stateHealthy = true)
      (hup : node.down = false) (hstate : node.party.frostNonces.lookup job = some state)
      (hpresented : .presented message ∈ node.journal)
      (hdigest : state.messageDigest = lib.sha256 message)
      (hstored : persist env [] (withParty node (burnJob job node.party)) = (.ok (), node')) :
      Move env node (noted node' (.released job message state.serial))
  | loaded {node : Node lib} {job : Digest32} (hcompleted : job ∉ node.party.completed)
      (hreserved : job ∉ node.party.reserved) (quoteDigest persistenceDigest : Digest32)
      (shares : PersistedShares lib) (quote : Option lib.quote.Node) :
      Move env node (withParty node { node.party with
        jobs := node.party.jobs.insert job
          (freshJob node.party.config quoteDigest persistenceDigest shares quote)
        reserved := insert job node.party.reserved })
  | worked {node : Node lib} {id : Digest32} {job job' : ProofJob lib}
      (hjob : node.party.jobs.lookup id = some job) (hmove : TradeMove (trade job) (trade job')) :
      Move env node (withParty node { node.party with jobs := node.party.jobs.insert id job' })
  | checked {node : Node lib} (job : Digest32) (payment : PaymentTerms P) :
      Move env node (noted node (.bound job payment))
  | paid {node : Node lib} {id : Digest32} {job : ProofJob lib} {payment : CheckedPayment P}
      (hjob : node.party.jobs.lookup id = some job) (hpayment : Certifies lib (trade job) payment)
      (hbound : .bound id payment.terms ∈ node.journal) :
      Move env node (withParty node { node.party with
        jobs := node.party.jobs.insert id (bindPayment payment job).2 })
  | paymentAuthorized {node : Node lib} {id : Digest32} {job : ProofJob lib}
      {payment : PaymentTerms P} (hjob : node.party.jobs.lookup id = some job)
      (hdigest : job.authorizedPaymentDigest =
        some (payment.digestFor lib.primitives lib.sha512 defaultDomain))
      (hbound : .bound id payment ∈ node.journal) (hsaved : Saved node) :
      Move env node (noted node (.paymentAuthorized id payment))
  | closed {node : Node lib} {id : Digest32} {job : ProofJob lib}
      (hjob : node.party.jobs.lookup id = some job) :
      Move env node (withParty node (closeJob id (evidenceOf job) node.party))
  | acted {node : Node lib} {id : Digest32} {proof : CompletedProof}
      (hproof : node.party.completedEvidence.lookup id = some proof) (action : Digest32) :
      Move env node (withParty node
        (keepEvidence id { proof with applicationActionDigest := some action } node.party))
  | typed {node : Node lib} {id : Digest32} {proof : CompletedProof}
      (hproof : node.party.completedEvidence.lookup id = some proof) (digest : Digest32)
      (hsame : ∀ prior, proof.typedMessageDigest = some prior → prior = digest) :
      Move env node (withParty node
        (keepEvidence id { proof with typedMessageDigest := some digest } node.party))
  | typedAuthorized {node : Node lib} {id : Digest32} {proof : CompletedProof} {message : Bytes}
      (hproof : node.party.completedEvidence.lookup id = some proof)
      (hdigest : proof.typedMessageDigest = some (lib.sha256 message))
      (hpresented : .presented message ∈ node.journal) (hsaved : Saved node) :
      Move env node (noted node (.typedAuthorized id message))

/-! ## Rules -/

abbrev Moves {A : Type} (env : Env) (node : Node lib) (method : Method (Node lib) A) : Prop :=
  Within (Move env) node method

variable {A : Type}

theorem moves_pure {value : A} : Moves env node (pure value) := readOnly_pure.within

theorem moves_fail : Moves env node (fail message : Method (Node lib) A) :=
  readOnly_fail.within

theorem moves_lift {outcome : Except String A} : Moves env node (lift outcome) :=
  readOnly_lift.within

variable {B : Type}

theorem moves_theParty_bind {rest : ProofParty lib → Method (Node lib) B}
    (hrest : Moves env node (rest node.party)) : Moves env node (theParty >>= rest) := hrest

theorem moves_update_bind {change : ProofParty lib → ProofParty lib}
    {rest : Unit → Method (Node lib) B} (hmove : Move env node (withParty node (change node.party)))
    (hrest : Moves env (withParty node (change node.party)) (rest ())) :
    Moves env node (update change >>= rest) :=
  within_modify_bind hmove hrest

theorem moves_record_bind {rest : Unit → Method (Node lib) B}
    (hmove : Move env node (noted node event)) (hrest : Moves env (noted node event) (rest ())) :
    Moves env node (record event >>= rest) :=
  within_modify_bind hmove hrest

theorem moves_persist : Moves env node (persist env []) := within_step .saved

theorem moves_persist_pure {value : B} :
    Moves env node (persist env [] >>= fun _ => pure value) := within_bind_pure moves_persist

variable {id : Digest32}

theorem moves_onJob {method : Method (ProofJob lib) A}
    (hmethod : ∀ job, node.party.jobs.lookup id = some job → TradeMove (trade job) (trade (method
      job).2)) : Moves env node (onJob id method) := by
  refine moves_theParty_bind (within_need_bind fun job hjob => ?_)
  exact moves_update_bind (.worked hjob (hmethod job hjob)) moves_lift

theorem moves_onJob_kept {method : Method (ProofJob lib) A}
    (hmethod : ∀ job, Within (fun before after => trade after = trade before) job method) :
    Moves env node (onJob id method) := by
  refine moves_onJob fun job _ => ?_
  rw [(hmethod job).view_eq]
  exact .kept

/-- A request parses something and then works on a loaded job without touching its trade. -/
theorem moves_lift_onJob {A B : Type} {outcome : Except String B} {id : B → Digest32}
    {method : B → Method (ProofJob lib) A} (hmethod : ∀ value job,
      Within (fun before after => trade after = trade before) job (method value)) :
    Moves env node (lift outcome >>= fun value => onJob (id value) (method value)) :=
  within_lift_bind fun value => moves_onJob_kept (hmethod value)

end Zkpi.ProofPartyMoves
