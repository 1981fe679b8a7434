import Zkpi.ProofPartyMoves

/-!
# Every request is a sequence of moves

One lemma for each method of a proof party, read off the order of its checks and changes,
and from them one for everything that can be asked of a node. An invariant that every move
keeps, and that a restart from the state file recovers, then holds over the node's whole
life.
-/

namespace Zkpi.ProofPartyRequests

open ScalarField ByteText FallibleChecks StatefulMethods StatefulMethods.Method List Option
open PaymentInstruction ProofPartyLibrary ProofPartyState ProofPartyEnrollment ProofPartyJobs
open ProofPartyAuthorization ProofPartyTrades ProofPartyRuns ProofPartyMoves RecordedRuns
open OptimisticMachine (OptimisticPolicy)

variable {P : Type} {lib : PartyLibrary P} {env : Env} {node : Node lib}

/-! ## One-use signing -/

theorem authorizeFrost_moves : Moves env node (authorizeFrost env job message) := by
  refine moves_record_bind (.presented message) (moves_theParty_bind ?_)
  refine within_failIf_bind fun hguard => ?_
  have hpresented : Event.presented message ∈ (noted node (.presented message)).journal :=
    mem_append_right _ mem_cons_self
  obtain ⟨hjob, hused⟩ := not_or.mp hguard
  have hunused := Bool.eq_false_iff.mpr hused
  obtain rfl := not_not.mp hjob
  -- whether the entry was new decides which of the two moves the update belongs to
  by_cases hprior : ((noted node (.presented message)).party.frostAuthorized.lookup
      (signingJob lib message)).any (· ≠ lib.sha256 message) = true
  · obtain ⟨prior, hlookup, hother⟩ := (any_eq_true _ _).mp hprior
    refine moves_update_bind
      (.overwritten hunused hpresented hlookup (of_decide_eq_true hother)) ?_
    exact within_failIf_bind fun hsame => absurd hprior hsame
  · have hsame : ∀ prior, (noted node (.presented message)).party.frostAuthorized.lookup
        (signingJob lib message) = some prior → prior = lib.sha256 message := by
      intro prior hlookup
      by_contra hother
      exact hprior ((any_eq_true _ _).mpr ⟨prior, hlookup, decide_eq_true hother⟩)
    refine Relation.ReflTransGen.head (.authorized hunused hpresented hsame) ?_
    change Relation.ReflTransGen _ _ ((failIf _ _ >>= _ : Method (Node lib) Unit) _).2
    rw [failIf_bind_of_not hprior]
    exact moves_persist

variable {job : Digest32} {message : Bytes} {result : Unit} {node' : Node lib}

/-- An authorization that succeeds changed only the authorized messages, and wrote them. -/
theorem authorizeFrost_ok (h : authorizeFrost env job message node = (.ok result, node')) :
    Saved node' ∧ node'.party.jobs = node.party.jobs ∧
      node'.party.completedEvidence = node.party.completedEvidence ∧
      node'.journal = node.journal ++ [.presented message, .accepted job message] := by
  obtain ⟨_, _, hrecord, h⟩ := bind_ok.mp h
  obtain ⟨_, _, hparty, h⟩ := bind_ok.mp h
  obtain ⟨_, _, hguard, h⟩ := bind_ok.mp h
  obtain ⟨_, _, hupdate, h⟩ := bind_ok.mp h
  obtain ⟨_, _, hprior, h⟩ := bind_ok.mp h
  obtain ⟨_, _, haccepted, h⟩ := bind_ok.mp h
  cases hrecord
  cases hparty
  obtain ⟨-, rfl⟩ := failIf_ok.mp hguard
  cases hupdate
  obtain ⟨-, rfl⟩ := failIf_ok.mp hprior
  cases haccepted
  obtain ⟨-, generation, packages, rfl⟩ := persist_ok h
  refine ⟨⟨generation, packages, rfl⟩, rfl, rfl, ?_⟩
  simp [written]

/-- Drawing a nonce pair and reserving its job become visible only with the write. -/
theorem reservation_moves (hjob : Reservable node job message)
    (hkey : node.party.frostKey = some key) (reply : Bytes → Reply) :
    Moves env node (do
      let serial ← drawNonce
      update (reserveJob job ⟨lib.sha256 message, (lib.frost.commit key serial).1, serial⟩)
      persist env [.reserved job serial]
      let bytes ← need (lib.frost.commitments.serialize (lib.frost.commit key serial).2)
        "FROST commitment serialization failed"
      record (.committed job serial)
      pure (reply bytes)) := by
  change Relation.ReflTransGen _ _ ((persist env [.reserved job node.drawn] >>= _ :
    Method (Node lib) Reply)
      (reservedNode node job message (lib.frost.commit key node.drawn).1)).2
  rcases hstored : persist env [.reserved job node.drawn]
    (reservedNode node job message (lib.frost.commit key node.drawn).1) with ⟨error | _, node'⟩
  · have hmove := Move.unreserved hjob _ (congrArg Prod.fst hstored)
    rw [hstored] at hmove
    rw [bind_of_error hstored]
    exact .single hmove
  · rw [bind_of_ok hstored]
    cases hencode : lib.frost.commitments.serialize (lib.frost.commit key node.drawn).2 with
    | none => exact .single (.unencoded hkey hjob hencode hstored)
    | some => exact .single (.committed hjob _ hstored)

theorem frostCommit_moves {message} : Moves env node (frostCommit env jobId message) := by
  refine moves_theParty_bind (within_lift_bind fun job => ?_)
  refine within_failIf_bind fun hused => within_lift_bind fun message => ?_
  refine moves_record_bind (.presented message) (within_failIf_bind fun hguard => ?_)
  refine within_need_bind fun key hkey => ?_
  obtain ⟨hauthorized, hown⟩ := not_or.mp hguard
  have hkey : (noted node (.presented message)).party.frostKey = some key := hkey
  refine reservation_moves ?_ hkey _
  exact
    { keyed := isSome_iff_exists.mpr ⟨key, hkey⟩
      unused := Bool.eq_false_iff.mpr hused
      own := not_not.mp hown
      authorized := not_not.mp hauthorized
      presented := mem_append_right _ mem_cons_self }

/-- Burning a job and writing the state, before checks that end by noting the share. -/
theorem share_moves (hhealthy : node.party.stateHealthy = true) (hup : node.down = false)
    {state : FrostNonceState lib} (hpresented : .presented message ∈ node.journal)
    (hstate : node.party.frostNonces.lookup job = some state) {tail : Method (Node lib) Reply}
    (htail : ∀ mid, Within (fun _ after => state.messageDigest = lib.sha256 message ∧
      after = noted mid (.released job message state.serial)) mid tail) :
    Moves env node (do
      update (burnJob job)
      persist env []
      tail) := by
  change Relation.ReflTransGen _ _ ((persist env [] >>= _ : Method (Node lib) Reply)
    (withParty node (burnJob job node.party))).2
  have hburned : Relation.ReflTransGen (Move env) node
      (persist env [] (withParty node (burnJob job node.party))).2 :=
    .head (.burned hstate) (.single .saved)
  rcases hstored : persist env [] (withParty node (burnJob job node.party))
    with ⟨error | _, mid⟩
  · rw [hstored] at hburned
    rw [bind_of_error hstored]
    exact hburned
  · rw [hstored] at hburned
    rw [bind_of_ok hstored]
    rcases (htail mid).cases_tail with hsame | ⟨_, _, hdigest, hnoted⟩
    · rw [hsame]
      exact hburned
    · rw [hnoted]
      exact .single (.released hhealthy hup hstate hpresented hdigest hstored)

theorem frostSign_moves (hhealthy : node.party.stateHealthy = true) (hup : node.down = false)
    (jobId message commitments) :
    Moves env node (frostSign env jobId message commitments) := by
  refine moves_theParty_bind (within_lift_bind fun job => within_lift_bind fun message => ?_)
  refine moves_record_bind (.presented message) (within_lift_bind fun entries => ?_)
  refine within_failIf_bind fun _ => within_lift_bind fun decoded => ?_
  refine within_failIf_bind fun _ => within_need_bind fun state hstate => ?_
  have hpresented : Event.presented message ∈ (noted node (.presented message)).journal :=
    mem_append_right _ mem_cons_self
  have hstate : (noted node (.presented message)).party.frostNonces.lookup job = some state :=
    hstate
  have hhealthy : (noted node (.presented message)).party.stateHealthy = true := hhealthy
  refine share_moves hhealthy hup hpresented hstate fun mid => ?_
  -- from here on the call only checks, and notes the share at its end
  refine within_failIf_bind fun hdigest => within_need_bind fun _ _ => ?_
  refine within_need_bind fun _ _ => within_need_bind fun _ _ => ?_
  refine within_need_bind fun _ _ => within_lift_bind fun _ => ?_
  refine within_lift_bind fun _ => within_modify_bind ⟨not_not.mp hdigest, rfl⟩ ?_
  exact readOnly_pure.within

/-! ## Enrollment -/

theorem pqIdentitySignature_moves : Moves env node (pqIdentitySignature env body) := by
  refine moves_theParty_bind ?_
  split
  · exact moves_pure
  · refine within_failIf_bind fun _ => within_lift_bind fun signature => ?_
    exact moves_update_bind (.recorded _ _ _ _) moves_persist_pure

theorem frostIdentity_moves : Moves env node (frostIdentity env session) := by
  refine moves_theParty_bind (within_lift_bind fun session => ?_)
  refine within_failIf_bind fun _ => within_lift_bind fun exchange => ?_
  exact within_bind_pure pqIdentitySignature_moves

theorem frostConfigurePeers_moves : Moves env node (frostConfigurePeers env session entries) := by
  refine moves_theParty_bind (within_lift_bind fun session => ?_)
  refine within_lift_bind fun entries => within_lift_bind fun pending => ?_
  refine within_failIf_bind fun hkey => ?_
  split
  · exact within_failIf_bind fun _ => moves_lift
  · refine within_lift_bind fun result => ?_
    have hnone := not_isSome_iff_eq_none.mp hkey
    exact moves_update_bind (.enrolling (.inl hnone) _ _ _ _) moves_pure

theorem frostConfirmPeers_moves : Moves env node (frostConfirmPeers env confirmations) := by
  refine moves_theParty_bind ?_
  split
  · exact within_lift_bind fun _ => moves_pure
  · refine within_need_bind fun pending hpending => within_lift_bind fun _ => ?_
    have hopen := isSome_iff_exists.mpr ⟨pending, hpending⟩
    exact moves_update_bind (.enrolling (.inr (.inl hopen)) _ _ _ _) moves_persist_pure

theorem frostDkgRound1_moves : Moves env node (frostDkgRound1 env) := by
  refine moves_theParty_bind (within_failIf_bind fun hkey => ?_)
  split
  · exact moves_pure
  · exact moves_pure
  · refine within_need_bind fun peers _ => within_need_bind fun round _ => ?_
    refine within_need_bind fun broadcast _ => ?_
    have hnone := not_isSome_iff_eq_none.mp hkey
    exact moves_update_bind (.enrolling (.inl hnone) _ _ _ _) moves_persist_pure

theorem frostDkgRound2_moves : Moves env node (frostDkgRound2 env broadcasts) := by
  refine moves_theParty_bind (within_lift_bind fun digest => ?_)
  split
  · exact within_failIf_bind fun _ => moves_pure
  · refine within_need_bind fun peers hpeers => within_lift_bind fun decoded => ?_
    refine within_lift_bind fun pending => ?_
    have hopen := isSome_iff_exists.mpr ⟨peers, hpeers⟩
    exact moves_update_bind (.enrolling (.inr (.inr hopen)) _ _ _ _) moves_persist_pure

theorem frostDkgFinalize_moves :
    Moves env node (frostDkgFinalize env encoding broadcasts incoming) := by
  refine moves_theParty_bind (within_lift_bind fun encoding => ?_)
  split
  · exact within_failIf_bind fun _ => within_need_bind fun _ _ => moves_pure
  · rename_i hnone
    refine within_need_bind fun peers _ => within_lift_bind fun group => ?_
    exact moves_update_bind (.grouped hnone group peers.session _) moves_persist_pure

/-! ## Phases of a job -/

section Phases

variable {Early Prepare Late : Type}

theorem evaluate_node : (evaluate closed job early phase).2.node = phase.node := by
  have h : Within (fun before after => after.node = before.node) phase
      (evaluate closed job early) :=
    within_read_bind (within_need_bind fun _ _ => within_lift_bind fun _ =>
      readOnly_pure.within)
  exact h.view_eq

theorem prepare_node :
    (prepare issued notBound job before input entropy phase).2.node = phase.node := by
  have h : Within (fun before after => after.node = before.node) phase
      (prepare issued notBound job before input entropy) := by
    refine within_read_bind (within_failIf_bind fun _ => within_lift_bind fun _ => ?_)
    refine within_need_bind fun bound _ => within_lift_bind fun input => ?_
    refine within_lift_bind fun round => within_write_bind rfl ?_
    exact within_lift_bind fun _ => within_lift_bind fun _ => readOnly_pure.within
  exact h.view_eq

theorem answer_node :
    (answer consumed notBound job late challenge phase).2.node = phase.node := by
  have h : Within (fun before after => after.node = before.node) phase
      (answer consumed notBound job late challenge) := by
    refine within_read_bind (within_need_bind fun secret _ => within_write_bind rfl ?_)
    refine within_need_bind fun bound _ => within_lift_bind fun late => ?_
    exact readOnly_lift.within
  exact h.view_eq

/-- Binding takes the share, unless it was taken before. -/
theorem bindPhase_cases (already : String) (job : Digest32) (statement : issuer.Statement)
    (late : Late) (phase : Phase issuer) :
    bindPhase already job statement late phase = (.error already, phase) ∨
      phase.node.isSome = true ∧ (bindPhase already job statement late phase).2.node = none := by
  cases hnode : phase.node with
  | none =>
    left
    simp only [bindPhase, Bind.bind, Method.read, need, hnode]
  | some node =>
    refine .inr ⟨rfl, ?_⟩
    have h : Within (fun _ after => after.node = none) { phase with node := none } (do
        let bound ← lift (issuer.bind node statement)
        let relations ← lift (issuer.relations job bound late)
        write { phase with node := none, bound := some bound }
        pure relations) := by
      refine within_lift_bind fun bound => within_lift_bind fun relations => ?_
      exact within_write_bind rfl readOnly_pure.within
    have hrun : bindPhase already job statement late phase = (do
        let bound ← lift (issuer.bind node statement)
        let relations ← lift (issuer.relations job bound late)
        write { phase with node := none, bound := some bound }
        pure relations) { phase with node := none } := by
      simp only [bindPhase, Bind.bind, Method.read, need, hnode, write]
    rw [hrun]
    exact h.preserves (fun _ _ hafter _ => hafter) rfl

end Phases

variable {A : Type}

/-- A call whose only change, if any, is one move of what the job certifies. -/
theorem tradeMove_of_within {job : ProofJob lib} {method : Method (ProofJob lib) A}
    (h : Within (fun _ after => TradeMove (trade job) (trade after)) job method) :
    TradeMove (trade job) (trade (method job).2) :=
  h.preserves (fun _ _ hafter _ => hafter) .kept

/-! ## Calls that keep what a job certifies -/

abbrev KeepsTrade {A : Type} (job : ProofJob lib) (method : Method (ProofJob lib) A) : Prop :=
  Within (fun before after => trade after = trade before) job method

section Keeping

variable {A : Type} {job : ProofJob lib}

theorem keepsTrade_onLimit :
    KeepsTrade job (onLimit method) := within_step rfl

theorem keepsTrade_onPoolRemainder (method : Method (Phase lib.limit) A) :
    KeepsTrade job (onPoolRemainder method) := within_step rfl

theorem keepsTrade_onDvp :
    KeepsTrade job (onDvp method) := within_step rfl

theorem keepsTrade_onQuote :
    KeepsTrade job (onQuote method) := within_step rfl

theorem keepsTrade_onZkpi
    (hnode : (method job.zkpi).2.node = job.zkpi.node) : KeepsTrade job (onZkpi method) := by
  refine within_step ?_
  simp only [trade, onZkpi, zoom, hnode]

variable {method : Method (ProofJob lib) (Except String Bytes)}

theorem keepsTrade_wire (hmethod : KeepsTrade job method) : KeepsTrade job (do
      let response ← method
      let bytes ← lift response
      pure (Reply.wire bytes)) :=
  within_bind hmethod fun _ _ _ => within_lift_bind fun _ => readOnly_pure.within

theorem keepsTrade_change_wire {change : ProofJob lib → ProofJob lib}
    (hmethod : KeepsTrade job method) (hchange : ∀ job, trade (change job) = trade job) :
    KeepsTrade job (do
      let response ← method
      modify change
      let bytes ← lift response
      pure (Reply.wire bytes)) := by
  refine within_bind hmethod fun _ mid _ => within_modify_bind (hchange mid) ?_
  exact within_lift_bind fun _ => readOnly_pure.within

end Keeping

/-! ## Proof jobs -/

theorem load_moves : Moves env node (load env jobId quoteDigest persistence shares) := by
  refine moves_theParty_bind (within_lift_bind fun id => within_lift_bind fun digest => ?_)
  refine within_failIf_bind fun _ => within_failIf_bind fun hfresh => ?_
  refine within_failIf_bind fun _ => within_lift_bind fun persistence => ?_
  refine within_failIf_bind fun _ => within_lift_bind fun shares => ?_
  refine within_lift_bind fun quote => within_failIf_bind fun _ => ?_
  obtain ⟨hcompleted, hrest⟩ := not_or.mp hfresh
  obtain ⟨hreserved, -⟩ := not_or.mp hrest
  exact moves_update_bind (.loaded hcompleted hreserved digest _ shares quote)
    moves_persist_pure

theorem quoteBind_moves : Moves env node (quoteBind jobId evaluations request) := by
  refine moves_theParty_bind (within_lift_bind fun id => within_lift_bind fun _ => ?_)
  refine within_lift_bind fun request => within_lift_bind fun circuit => ?_
  refine within_lift_bind fun statement => within_need_bind fun policy _ => ?_
  exact moves_onJob_kept fun _ =>
    keepsTrade_change_wire keepsTrade_onQuote fun _ => rfl

theorem quoteRelationBind_moves : Moves env node (quoteRelationBind jobId evaluations) := by
  refine moves_theParty_bind (within_lift_bind fun id => within_lift_bind fun _ => ?_)
  refine within_lift_bind fun circuit => moves_onJob_kept fun job => ?_
  refine within_read_bind (within_need_bind fun statement _ => ?_)
  refine within_need_bind fun quotePublic _ => within_lift_bind fun relations => ?_
  exact within_modify_bind rfl readOnly_pure.within

theorem quoteRound2_moves : Moves env node (quoteRound2 jobId challenge) := by
  refine moves_theParty_bind (within_lift_bind fun id => within_lift_bind fun _ => ?_)
  refine within_lift_bind fun circuit => moves_onJob_kept fun _ => ?_
  exact within_read_bind (keepsTrade_wire keepsTrade_onQuote)

theorem quoteFinalize_moves : Moves env node (quoteFinalize jobId finalization) := by
  refine moves_theParty_bind (within_lift_bind fun id => within_lift_bind fun rounds => ?_)
  refine within_lift_bind fun seals => within_lift_bind fun responses => ?_
  refine within_lift_bind fun quorum => within_failIf_bind fun _ => ?_
  refine within_lift_bind fun circuit => moves_onJob fun job _ => tradeMove_of_within ?_
  refine within_read_bind (within_failIf_bind fun hverified => ?_)
  refine within_need_bind fun quotePublic _ => within_need_bind fun statement _ => ?_
  refine within_need_bind fun relations _ => within_need_bind fun context _ => ?_
  refine within_lift_bind fun digest => within_modify_bind ?_ readOnly_pure.within
  have hopen : (trade job).quoteVerified = false := Bool.eq_false_iff.mpr hverified
  exact .finalized hopen digest

theorem limitBind_moves : Moves env node (limitBind jobId evaluations) := by
  refine moves_theParty_bind (within_lift_bind fun id => within_lift_bind fun _ => ?_)
  refine within_lift_bind fun statement => moves_onJob_kept fun _ => ?_
  exact keepsTrade_wire keepsTrade_onLimit

theorem poolRemainderBind_moves : Moves env node (poolRemainderBind jobId evaluations) := by
  refine moves_theParty_bind (within_lift_bind fun id => within_lift_bind fun _ => ?_)
  refine within_lift_bind fun statement => moves_onJob_kept fun _ => ?_
  exact keepsTrade_change_wire (keepsTrade_onPoolRemainder _) fun _ => rfl

theorem claimOpeningShare_moves :
    Moves env node (claimOpeningShare env jobId leg recipientView) := by
  refine moves_theParty_bind (within_lift_bind fun id => within_lift_bind fun text => ?_)
  refine within_lift_bind fun view => within_need_bind fun job _ => ?_
  refine within_failIf_bind fun _ => within_need_bind fun maker _ => ?_
  refine within_need_bind fun taker _ => within_need_bind fun side _ => ?_
  refine within_need_bind fun leg _ => within_failIf_bind fun _ => ?_
  split
  · exact moves_pure
  · refine within_lift_bind fun share => within_need_bind fun recipient _ => ?_
    refine within_lift_bind fun response => within_bind_pure (moves_onJob_kept fun _ => ?_)
    exact within_step rfl

theorem complete_moves : Moves env node (complete env jobId) := by
  refine moves_theParty_bind (within_lift_bind fun id => within_failIf_bind fun _ => ?_)
  refine within_need_bind fun job hjob => within_failIf_bind fun _ => ?_
  exact within_failIf_bind fun _ => moves_update_bind (.closed hjob) moves_persist_pure

theorem completeObserver_moves : Moves env node (completeObserver env jobId) := by
  refine moves_theParty_bind (within_lift_bind fun id => ?_)
  split
  · exact moves_pure
  · refine within_need_bind fun job hjob => within_failIf_bind fun _ => ?_
    refine within_failIf_bind fun hsigning => within_failIf_bind fun _ => ?_
    -- a job that certified no payment leaves no evidence, whichever way it is closed
    have hnone : evidenceOf job = none := by
      have hpayment := not_isSome_iff_eq_none.mp (not_or.mp hsigning).1
      rw [evidenceOf, hpayment, map_none]
    have hmove : Move env node (withParty node (closeJob id (evidenceOf job) node.party)) :=
      .closed hjob
    rw [hnone] at hmove
    exact moves_update_bind hmove moves_persist_pure

/-! ## Other signatures -/

theorem authorizeHealth_moves {message stage} :
    Moves env node (authorizeHealth env signingJobId message cluster stage) := by
  refine moves_theParty_bind (within_failIf_bind fun _ => within_lift_bind fun job => ?_)
  refine within_lift_bind fun message => within_lift_bind fun cluster => ?_
  refine within_lift_bind fun stage => within_need_bind fun session _ => ?_
  exact within_failIf_bind fun _ => within_bind_pure authorizeFrost_moves

theorem signPublication_moves :
    Moves env node (signPublication env statement mechanism evidence) := by
  refine moves_theParty_bind (within_lift_bind fun statement => within_lift_bind fun _ => ?_)
  refine within_failIf_bind fun _ => within_lift_bind fun _ => ?_
  refine within_lift_bind fun body => within_lift_bind fun signature => ?_
  exact moves_update_bind (.recorded _ _ _ _) moves_persist_pure

theorem signAdmissionAttestation_moves : Moves env node (signAdmissionAttestation claim) := by
  refine moves_theParty_bind (within_lift_bind fun claim => within_failIf_bind fun _ => ?_)
  refine within_failIf_bind fun _ => within_lift_bind fun ticket => ?_
  exact within_failIf_bind fun _ => within_lift_bind fun signature => moves_pure

theorem authorizeApplicationStatement_moves {id} :
    Moves env node (authorizeApplicationStatement env id verifier) := by
  refine moves_theParty_bind (within_failIf_bind fun _ => within_need_bind fun proof hproof => ?_)
  refine within_failIf_bind fun _ => within_need_bind fun committee _ => ?_
  refine within_lift_bind fun evidence => within_lift_bind fun allowed => ?_
  refine within_failIf_bind fun _ => within_failIf_bind fun _ => ?_
  exact moves_update_bind (.acted hproof _) (within_bind_pure authorizeFrost_moves)

theorem authorizeApplicationControl_moves :
    Moves env node (authorizeApplicationControl env verifier) := by
  refine moves_theParty_bind (within_failIf_bind fun _ => within_need_bind fun committee _ => ?_)
  refine within_lift_bind fun allowed => within_failIf_bind fun _ => ?_
  refine within_failIf_bind fun _ => moves_update_bind (.recorded _ _ _ _) ?_
  exact within_bind_pure authorizeFrost_moves

theorem signOptimisticExecution_moves :
    Moves env node (signOptimisticExecution env policy context outputRoot validUntil) := by
  refine moves_theParty_bind (within_failIf_bind fun _ => ?_)
  split
  · exact within_lift_bind fun _ => within_failIf_bind fun _ => moves_pure
  · refine within_lift_bind fun proposal => ?_
    exact moves_update_bind (.recorded _ _ _ _) moves_persist_pure

theorem signAdmittedOptimisticExecution_moves :
    Moves env node (signAdmittedOptimisticExecution env admission outputRoot) := by
  refine moves_theParty_bind (within_need_bind fun now _ => within_need_bind fun trusted _ => ?_)
  exact within_lift_bind fun _ => signOptimisticExecution_moves

theorem optimisticQuotePropose_moves :
    Moves env node (optimisticQuotePropose env jobId admission) := by
  refine moves_theParty_bind (within_lift_bind fun quote => ?_)
  refine within_bind signOptimisticExecution_moves fun proposal _ _ => ?_
  exact within_lift_bind fun _ => moves_pure

theorem optimisticQuoteAccept_moves :
    Moves env node (optimisticQuoteAccept env jobId admission quote) := by
  refine moves_theParty_bind (within_lift_bind fun id => within_lift_bind fun admitted => ?_)
  refine within_lift_bind fun quote => within_lift_bind fun digest => ?_
  refine within_failIf_bind fun _ => moves_onJob fun job _ => tradeMove_of_within ?_
  refine within_read_bind (within_failIf_bind fun hguard => ?_)
  obtain ⟨hverified, hother⟩ := not_or.mp hguard
  refine within_modify_bind ?_ readOnly_pure.within
  have hsame : ∀ prior, (trade job).optimisticQuote = some prior → prior = digest := by
    intro prior hprior
    by_contra hne
    exact hother ((any_eq_true _ _).mpr ⟨prior, hprior, decide_eq_true hne⟩)
  exact .accepted (Bool.eq_false_iff.mpr hverified) digest hsame

theorem onZkpi_eq {method : Method (Phase lib.zkpi) A} {job : ProofJob lib}
    {result : Except String A} {phase : Phase lib.zkpi} (h : method job.zkpi = (result, phase)) :
    onZkpi method job = (result, { job with zkpi := phase }) := by
  simp only [onZkpi, zoom, h]

/-- Binding the payment share takes it, and selects the Maker if it succeeds. -/
theorem selection_tradeMove (id : Digest32) (statements : lib.zkpi.Statement) (selected : P)
    (job : ProofJob lib) :
    TradeMove (trade job) (trade ((do
      let relations ← onZkpi (bindPhase "zkPI node was already bound" id statements ())
      modify fun job => { job with
        selectedMakerHandle := some selected
        zkpiStatements := some statements }
      let bytes ← lift relations
      pure (.wire bytes) : Method (ProofJob lib) Reply) job).2) := by
  have hcases := bindPhase_cases "zkPI node was already bound" id statements () job.zkpi
  rcases hphase : bindPhase "zkPI node was already bound" id statements () job.zkpi
    with ⟨error | relations, phase⟩
  · rw [bind_of_error (onZkpi_eq hphase)]
    rw [hphase] at hcases
    rcases hcases with hsame | ⟨hsome, hnone⟩
    · obtain ⟨-, rfl⟩ := Prod.mk.inj hsame
      exact .kept
    · have hnode : phase.node = none := hnone
      have htaken : trade { job with zkpi := phase } = { trade job with unbound := false } := by
        simp [trade, hnode]
      rw [htaken]
      exact .taken hsome
  · rw [bind_of_ok (onZkpi_eq hphase)]
    rw [hphase] at hcases
    rcases hcases with hsame | ⟨hsome, hnone⟩
    · cases hsame
    · have hnode : phase.node = none := hnone
      have hselected : trade { job with
          zkpi := phase
          selectedMakerHandle := some selected
          zkpiStatements := some statements } =
          { trade job with unbound := false, selectedMakerHandle := some selected } := by
        simp [trade, hnode]
      have hunbound : (trade job).unbound = true := hsome
      have hmove := TradeMove.selected hunbound selected
      rw [← hselected] at hmove
      cases relations <;> exact hmove

theorem bindPayment_ok {payment : CheckedPayment P} {job job' : ProofJob lib}
    (h : bindPayment payment job = (.ok result, job')) :
    job'.authorizedPaymentDigest =
      some (payment.terms.digestFor lib.primitives lib.sha512 defaultDomain) := by
  obtain ⟨_, _, hread, h⟩ := bind_ok.mp h
  cases hread
  obtain ⟨_, _, hguard, h⟩ := bind_ok.mp h
  obtain ⟨-, rfl⟩ := failIf_ok.mp hguard
  obtain ⟨_, _, hmodify, h⟩ := bind_ok.mp h
  cases hmodify
  rcases htaker : job.authorizedTakerHandle with _ | taker <;>
    rcases hside : job.makerIsPayer with _ | side <;> simp only [htaker, hside] at h
  · cases h
    rfl
  · cases h
  · cases h
  · obtain ⟨-, rfl⟩ := failIf_ok.mp h
    rfl

theorem onJob_ok {id : Digest32} {method : Method (ProofJob lib) A} {value : A}
    (h : onJob id method node = (.ok value, node')) :
    ∃ job job', node.party.jobs.lookup id = some job ∧ method job = (.ok value, job') ∧
      node' = withParty node { node.party with jobs := node.party.jobs.insert id job' } := by
  obtain ⟨_, _, hparty, h⟩ := bind_ok.mp h
  cases hparty
  obtain ⟨job, _, hneed, h⟩ := bind_ok.mp h
  obtain ⟨hjob, rfl⟩ := need_ok.mp hneed
  obtain ⟨_, _, hupdate, h⟩ := bind_ok.mp h
  cases hupdate
  obtain ⟨hresult, rfl⟩ := lift_ok.mp h
  refine ⟨job, (method job).2, hjob, ?_, rfl⟩
  rw [← hresult]

/-! ## Methods that compute in the group -/

section Group

variable [AddCommGroup P]

theorem dvpBind_moves : Moves env node (dvpBind jobId evaluations) := by
  refine moves_theParty_bind (within_lift_bind fun id => within_lift_bind fun _ => ?_)
  refine within_lift_bind fun cash => within_lift_bind fun securities => ?_
  refine within_lift_bind fun remainder => moves_onJob_kept fun _ => ?_
  refine within_read_bind (within_need_bind fun zkpi _ => within_lift_bind fun statements => ?_)
  exact keepsTrade_change_wire keepsTrade_onDvp fun _ => rfl

variable [Module Scalar P]

variable [DecidableEq P]

theorem zkpiBind_moves {handles : Param (List (HandleEvaluation P))} :
    Moves env node (zkpiBind jobId evaluations handles) := by
  refine moves_theParty_bind (within_lift_bind fun id => within_lift_bind fun _ => ?_)
  refine within_lift_bind fun statements => within_lift_bind fun selected => ?_
  exact moves_onJob fun job _ => selection_tradeMove id statements selected job

omit [AddCommGroup P] [Module Scalar P] in
theorem authorizeReservePayment_moves : Moves env node (authorizeReservePayment env request) := by
  refine within_lift_bind fun job => within_lift_bind fun message => ?_
  refine within_failIf_bind fun _ => within_lift_bind fun mandate => ?_
  refine within_lift_bind fun amount => within_lift_bind fun price => ?_
  refine within_lift_bind fun asset => within_lift_bind fun payer => ?_
  refine within_lift_bind fun payee => within_failIf_bind fun _ => ?_
  refine within_lift_bind fun deadline => within_lift_bind fun nonce => ?_
  refine within_lift_bind fun quoteBinding => within_need_bind fun now _ => ?_
  refine within_failIf_bind fun _ => within_lift_bind fun _ => ?_
  exact within_failIf_bind fun _ => within_bind_pure authorizeFrost_moves

omit [AddCommGroup P] [Module Scalar P] in
theorem authorizeReserveTyped_moves : Moves env node (authorizeReserveTyped env request) := by
  refine moves_theParty_bind (within_lift_bind fun job => within_lift_bind fun message => ?_)
  refine within_failIf_bind fun _ => within_lift_bind fun mandate => ?_
  refine within_lift_bind fun payment => within_need_bind fun committee _ => ?_
  refine within_failIf_bind fun _ => within_lift_bind fun context => ?_
  refine within_failIf_bind fun _ => within_need_bind fun now _ => ?_
  refine within_lift_bind fun _ => within_lift_bind fun expected => ?_
  exact within_failIf_bind fun _ => within_bind_pure authorizeFrost_moves

theorem authorizeStandingPoolAllocation_moves :
    Moves env node (authorizeStandingPoolAllocation env request) := by
  refine moves_theParty_bind (within_lift_bind fun id => within_lift_bind fun job => ?_)
  refine within_lift_bind fun message => within_failIf_bind fun _ => ?_
  refine within_lift_bind fun binding => within_failIf_bind fun _ => ?_
  refine within_lift_bind fun expected => within_failIf_bind fun _ => ?_
  refine within_lift_bind fun mandate => ?_
  cases mandate with
  | taker _ => exact moves_fail
  | maker =>
    refine within_lift_bind fun payment => within_lift_bind fun dvpProofs => ?_
    refine within_lift_bind fun range => within_need_bind fun now _ => ?_
    refine within_lift_bind fun _ => within_lift_bind fun _ => ?_
    refine within_lift_bind fun _ => within_need_bind fun proofJob _ => ?_
    refine within_lift_bind fun facts => within_lift_bind fun _ => ?_
    exact within_bind_pure authorizeFrost_moves

/-- A payment that passed its checks is one the job may certify, and the message is its
digest. -/
theorem checkedPayment_ok {party : ProofParty lib} {job : ProofJob lib} {message : Bytes}
    {amountRange priceRange : ThresholdRange.ThresholdRangeProof P}
    {assetCommitment payerHandle payeeHandle : P} {deadline : UInt64}
    {nonce quoteDigest : Digest32} {payment : CheckedPayment P}
    (h : checkedPayment env party job message amountRange priceRange assetCommitment payerHandle
      payeeHandle deadline nonce quoteDigest = .ok payment) :
    Certifies lib (trade job) payment ∧
      message = (payment.terms.digestFor lib.primitives lib.sha512 defaultDomain).toList := by
  obtain ⟨_, -, h⟩ := bind_ok.mp h
  obtain ⟨selected, hselected, h⟩ := bind_ok.mp h
  obtain ⟨hassured, h⟩ := refuseIf_bind_ok.mp h
  obtain ⟨hquote, h⟩ := refuseIf_bind_ok.mp h
  obtain ⟨_, -, h⟩ := bind_ok.mp h
  obtain ⟨-, h⟩ := refuseIf_bind_ok.mp h
  obtain ⟨hside, h⟩ := refuseIf_bind_ok.mp h
  obtain ⟨_, hinstruction, h⟩ := bind_ok.mp h
  obtain ⟨hmessage, h⟩ := refuseIf_bind_ok.mp h
  obtain ⟨hterms, hapart⟩ := PartialInstruction.fromThresholdRanges_ok _ hinstruction
  rw [hterms] at hmessage
  cases h
  -- exactly one endpoint is the Maker, and the side says which
  have hendpoint : lib.primitives.compress selected = lib.primitives.compress
      (if decide (lib.primitives.compress payerHandle = lib.primitives.compress selected) = true
        then payerHandle else payeeHandle) := by
    by_cases hpayer : lib.primitives.compress payerHandle = lib.primitives.compress selected
    · rw [if_pos (decide_eq_true hpayer), hpayer]
    · have hpayee : lib.primitives.compress payeeHandle = lib.primitives.compress selected := by
        by_contra hneither
        exact hside ((decide_eq_false hpayer).trans (decide_eq_false hneither).symm)
      rw [if_neg (by rw [decide_eq_false hpayer]; exact Bool.false_ne_true), hpayee]
  refine ⟨?_, not_not.mp hmessage⟩
  exact
    { quote := congrArg QuoteBinding.proofDigest (not_not.mp hquote)
      assured := by
        by_contra hnone
        obtain ⟨hverified, hoptimistic⟩ := not_or.mp hnone
        exact hassured ⟨hverified, isNone_iff_eq_none.mpr
          (not_isSome_iff_eq_none.mp hoptimistic)⟩
      maker := ⟨selected, orRefuse_ok.mp hselected, hendpoint⟩
      taker := rfl
      apart := hapart }

theorem authorizeZkpi_moves : Moves env node (authorizeZkpi env request) := by
  refine moves_theParty_bind (within_lift_bind fun id => within_lift_bind fun signingId => ?_)
  refine within_lift_bind fun message => within_failIf_bind fun _ => ?_
  refine within_lift_bind fun amount => within_lift_bind fun price => ?_
  refine within_lift_bind fun asset => within_lift_bind fun payer => ?_
  refine within_lift_bind fun payee => within_lift_bind fun deadline => ?_
  refine within_lift_bind fun nonce => within_lift_bind fun quoteDigest => ?_
  refine within_need_bind fun job hjob => within_bind moves_lift fun payment _ hlift => ?_
  obtain ⟨hpayment, rfl⟩ := lift_ok.mp hlift
  refine moves_record_bind (.checked id payment.terms) ?_
  have hbound : Event.bound id payment.terms ∈ (noted node (.bound id payment.terms)).journal :=
    mem_append_right _ mem_cons_self
  have hpaid : Moves env (noted node (.bound id payment.terms)) (onJob id (bindPayment payment)) :=
    moves_theParty_bind (within_need_bind fun loaded hloaded => by
      obtain rfl := some.inj (hjob.symm.trans hloaded)
      exact moves_update_bind (.paid hloaded (checkedPayment_ok hpayment).1 hbound) moves_lift)
  refine within_bind hpaid fun _ mid hmid => ?_
  obtain ⟨_, _, -, hbind, rfl⟩ := onJob_ok hmid
  refine within_bind authorizeFrost_moves fun _ final hfinal => ?_
  obtain ⟨hsaved, hjobs, -, hjournal⟩ := authorizeFrost_ok hfinal
  refine moves_record_bind (.paymentAuthorized ?_ (bindPayment_ok hbind) ?_ hsaved) moves_pure
  · rw [hjobs]
    exact Finmap.lookup_insert _
  · rw [hjournal]
    exact mem_append_left _ hbound

theorem authorizeTyped_moves : Moves env node (authorizeTyped env request) := by
  refine moves_theParty_bind (within_lift_bind fun id => within_lift_bind fun signingId => ?_)
  refine within_lift_bind fun message => within_failIf_bind fun _ => ?_
  refine within_lift_bind fun payment => within_lift_bind fun context => ?_
  refine within_failIf_bind fun _ => within_need_bind fun completed hcompleted => ?_
  refine within_lift_bind fun roles => within_lift_bind fun _ => ?_
  refine within_need_bind fun committee _ => within_need_bind fun now _ => ?_
  split
  · refine within_lift_bind fun _ => within_lift_bind fun expected => ?_
    refine within_failIf_bind fun _ => within_failIf_bind fun hother => ?_
    have hsame : ∀ prior, completed.typedMessageDigest = some prior →
        prior = lib.sha256 message := by
      intro prior hprior
      by_contra hne
      exact hother ((any_eq_true _ _).mpr ⟨prior, hprior, decide_eq_true hne⟩)
    refine moves_update_bind (.typed hcompleted _ hsame) ?_
    refine within_bind authorizeFrost_moves fun _ final hfinal => ?_
    obtain ⟨hsaved, -, hevidence, hjournal⟩ := authorizeFrost_ok hfinal
    have hproof : final.party.completedEvidence.lookup id =
        some { completed with typedMessageDigest := some (lib.sha256 message) } := by
      rw [hevidence]
      exact Finmap.lookup_insert _
    have hpresented : Event.presented message ∈ final.journal := by
      rw [hjournal]
      exact mem_append_right _ mem_cons_self
    exact moves_record_bind (.typedAuthorized hproof rfl hpresented hsaved) moves_pure
  · exact within_step .aborted

/-! ## Every request -/

/-- Whatever is asked of a node whose state file is in order, it moves. -/
theorem method_moves (hhealthy : node.party.stateHealthy = true) (hup : node.down = false)
    (request : Request lib) :
    Moves env node (request.method env) := by
  cases request with
  | frostStatus | health =>
    exact moves_theParty_bind (within_lift_bind fun _ => moves_pure)
  | frostIdentity => exact frostIdentity_moves
  | frostConfigurePeers => exact frostConfigurePeers_moves
  | frostConfirmPeers => exact frostConfirmPeers_moves
  | frostDkgRound1 => exact frostDkgRound1_moves
  | frostDkgRound2 => exact frostDkgRound2_moves
  | frostDkgFinalize => exact frostDkgFinalize_moves
  | authorizeReservePayment => exact authorizeReservePayment_moves
  | authorizeReserveTyped => exact authorizeReserveTyped_moves
  | authorizeStandingPoolAllocation => exact authorizeStandingPoolAllocation_moves
  | authorizeZkpi => exact authorizeZkpi_moves
  | authorizeTyped => exact authorizeTyped_moves
  | signPublication => exact signPublication_moves
  | authorizeHealth => exact authorizeHealth_moves
  | frostCommit => exact frostCommit_moves
  | frostSign => exact frostSign_moves hhealthy hup _ _ _
  | load => exact load_moves
  | makerHandleEvaluation =>
    refine moves_theParty_bind (within_lift_bind fun id => ?_)
    exact within_need_bind fun job _ => moves_pure
  | quoteEvaluations =>
    refine moves_theParty_bind (within_lift_bind fun id => within_lift_bind fun circuit => ?_)
    exact moves_onJob_kept fun _ => keepsTrade_onQuote
  | quoteBind => exact quoteBind_moves
  | quoteRelationBind => exact quoteRelationBind_moves
  | quoteRound1 =>
    refine moves_theParty_bind (within_lift_bind fun id => within_lift_bind fun circuit => ?_)
    exact moves_onJob_kept fun _ => within_read_bind keepsTrade_onQuote
  | quoteRound2 => exact quoteRound2_moves
  | optimisticQuotePropose => exact optimisticQuotePropose_moves
  | optimisticQuoteAccept => exact optimisticQuoteAccept_moves
  | quoteFinalize => exact quoteFinalize_moves
  | zkpiEvaluations =>
    exact moves_lift_onJob fun _ _ => keepsTrade_onZkpi evaluate_node
  | zkpiBind => exact zkpiBind_moves
  | zkpiRound1 =>
    exact moves_lift_onJob fun _ _ => keepsTrade_onZkpi prepare_node
  | zkpiRound2 =>
    exact within_lift_bind fun _ => moves_lift_onJob fun _ _ =>
      keepsTrade_wire (keepsTrade_onZkpi answer_node)
  | limitEvaluations =>
    exact moves_lift_onJob fun _ _ => keepsTrade_onLimit
  | limitBind => exact limitBind_moves
  | limitRound1 =>
    exact within_lift_bind fun _ => moves_lift_onJob fun _ _ => keepsTrade_onLimit
  | limitRound2 =>
    exact within_lift_bind fun _ => moves_lift_onJob fun _ _ => keepsTrade_wire keepsTrade_onLimit
  | poolRemainderEvaluations jobId | poolRemainderRound1 jobId =>
    exact moves_lift_onJob fun _ _ => keepsTrade_onPoolRemainder _
  | poolRemainderBind => exact poolRemainderBind_moves
  | poolRemainderRound2 =>
    exact within_lift_bind fun _ => moves_lift_onJob fun _ _ =>
      keepsTrade_change_wire (keepsTrade_onPoolRemainder _) fun _ => rfl
  | dvpEvaluations =>
    exact moves_lift_onJob fun _ _ =>
      within_read_bind (within_need_bind fun _ _ => keepsTrade_onDvp)
  | dvpBind => exact dvpBind_moves
  | dvpRound1 =>
    exact moves_lift_onJob fun _ _ => within_read_bind keepsTrade_onDvp
  | dvpRound2 =>
    exact within_lift_bind fun _ => moves_lift_onJob fun _ _ =>
      keepsTrade_change_wire keepsTrade_onDvp fun _ => rfl
  | claimOpeningShare => exact claimOpeningShare_moves
  | signAdmissionAttestation => exact signAdmissionAttestation_moves
  | signExecutionAttestation jobId claim =>
    refine moves_theParty_bind (within_lift_bind fun id => within_lift_bind fun claim => ?_)
    exact within_need_bind fun job _ => within_lift_bind fun bytes => moves_pure
  | complete => exact complete_moves
  | completeObserver => exact completeObserver_moves
  | unknown => exact moves_fail

theorem dispatch_moves (hup : node.down = false) (request) :
    Moves env node (dispatch env request) :=
  moves_theParty_bind (within_failIf_bind fun hhealthy =>
    method_moves (not_not.mp hhealthy) hup request)

end Group

/-! ## The journal only grows -/

theorem persisted_journal {mark : List (Event P)} {result : Except String Unit}
    (h : Persisted mark node result node') :
    node.journal <+: node'.journal := by
  have hbase : ∀ {base}, MaybeWritten mark node base → node.journal <+: base.journal := by
    rintro _ (_ | ⟨_, _⟩)
    · exact prefix_refl _
    · exact prefix_append _ _
  cases h with
  | stuck => exact prefix_refl _
  | stored => exact prefix_append _ _
  | failed hwritten =>
    have hgrows := hbase hwritten
    exact hgrows
  | crashed hwritten =>
    have hgrows := hbase hwritten
    exact hgrows

theorem move_journal (h : Move env node node') : node.journal <+: node'.journal := by
  have hpersist : ∀ mark (before : Node lib),
      before.journal <+: (persist env mark before).2.journal :=
    fun mark before => persisted_journal (persist_spec env mark before)
  cases h with
  | saved => exact hpersist [] node
  | presented | authorized | checked | paymentAuthorized | typedAuthorized =>
    exact prefix_append _ _
  | @unreserved job message _ nonces _ _ =>
    exact hpersist [.reserved job node.drawn] (reservedNode node job message nonces)
  | @unencoded _ job message key _ _ _ hstored =>
    have h := hpersist [.reserved job node.drawn]
      (reservedNode node job message (lib.frost.commit key node.drawn).1)
    rw [hstored] at h
    exact h
  | @committed node' job message _ nonces hstored =>
    have h := hpersist [.reserved job node.drawn] (reservedNode node job message nonces)
    rw [hstored] at h
    exact h.trans (prefix_append _ _)
  | @released node' job message state _ _ _ _ _ hstored =>
    have h := hpersist [] (withParty node (burnJob job node.party))
    rw [hstored] at h
    exact h.trans (prefix_append _ _)
  | _ => exact prefix_refl _

theorem moves_journal (h : Moves env node method) : node.journal <+: (method node).2.journal :=
  h.preserves (P := fun after => node.journal <+: after.journal)
    (fun _ _ hmove hold => hold.trans (move_journal hmove)) (prefix_refl _)

/-! ## Invariants over a node's whole life -/

def nodeOf (world : World lib) (party : ProofParty lib) : Node lib :=
  ⟨party, world.disk, false, world.drawn, world.journal⟩

variable {reply : Reply}

theorem serve_ok (h : (serve method world).1 = .ok reply) :
    ∃ party after, method (nodeOf world party) = (.ok reply, after) ∧
      (serve method world).2 = ⟨some after.party, after.disk, after.drawn, after.journal⟩ := by
  unfold serve at h ⊢
  split at h
  · cases h
  · rename_i party hparty
    rcases hrun : method ⟨party, world.disk, false, world.drawn, world.journal⟩ with ⟨result, after⟩
    simp only [hrun] at h ⊢
    split at h
    · cases h
    · rename_i hdown
      refine ⟨party, after, ?_, ?_⟩
      · rw [← h]
        exact hrun
      · rw [if_neg hdown]

theorem dispatch_ok [AddCommGroup P] [Module Scalar P] [DecidableEq P] {request : Request lib}
    {after : Node lib} (h : dispatch env request node = (.ok reply, after)) :
    request.method env node = (.ok reply, after) :=
  (failIf_bind_ok.mp h).2

structure Lifelong (Running : Node lib → Prop)
    (Resting : Option (DurableProofState lib) → ℕ → List (Event P) → Prop) : Prop where
  fresh : Resting none 0 []
  create : ∀ {drawn journal} (config : ProofPartyConfig) (keys : NodeKeys lib.KeyRecord),
    Resting none drawn journal → Resting (some (initialState config keys)) drawn journal
  restart : ∀ {config state now drawn journal} {party : ProofParty lib},
    restore config state now = .ok party → Resting (some state) drawn journal →
      Running ⟨party, some state, false, drawn, journal⟩
  move : ∀ {env node node'}, Move env node node' → Running node → Running node'
  rest : ∀ {node}, Running node → Resting node.disk node.drawn node.journal

structure HoldsAt (Running : Node lib → Prop)
    (Resting : Option (DurableProofState lib) → ℕ → List (Event P) → Prop) (world : World lib) :
    Prop where
  resting : Resting world.disk world.drawn world.journal
  running : ∀ party, world.process = some party → Running (nodeOf world party)

section Life

variable {Resting : Option (DurableProofState lib) → ℕ → List (Event P) → Prop} {world : World lib}

theorem holdsAt_serve (h : Lifelong Running Resting)
    (hmethod : ∀ node, node.down = false → Moves env node method)
    (hworld : HoldsAt Running Resting world) : HoldsAt Running Resting (serve method world).2 := by
  unfold serve
  split
  · exact hworld
  · rename_i party hparty
    have hafter : Running (method (nodeOf world party)).2 :=
      (hmethod (nodeOf world party) rfl).preserves (fun _ _ hmove => h.move hmove)
        (hworld.running party hparty)
    split
    · rename_i result node hrun
      have hnode : (method (nodeOf world party)).2 = node := congrArg Prod.snd hrun
      rw [hnode] at hafter
      split_ifs with hdown
      · exact ⟨h.rest hafter, fun _ hnone => nomatch hnone⟩
      · refine ⟨h.rest hafter, fun running hrunning => ?_⟩
        cases hrunning
        have hlive : node.down = false := Bool.eq_false_iff.mpr hdown
        obtain ⟨_, _, _, _, _⟩ := node
        obtain rfl := hlive
        exact hafter

theorem holdsAt_startFrom (h : Lifelong Running Resting) (config : ProofPartyConfig) (env : Env)
    (hdisk : world.disk = some state) (hworld : HoldsAt Running Resting world) :
    HoldsAt Running Resting (startFrom config env state world).2 := by
  unfold startFrom
  split
  · rename_i party hparty
    refine ⟨hworld.resting, fun running hrunning => ?_⟩
    cases hrunning
    have hresting := hworld.resting
    rw [hdisk] at hresting
    simp only [nodeOf, hdisk]
    exact h.restart hparty hresting
  · exact hworld

theorem holdsAt_start (h : Lifelong Running Resting) (config : ProofPartyConfig) (env : Env)
    (hprocess : world.process = none) (hworld : HoldsAt Running Resting world) :
    HoldsAt Running Resting (start config env world).2 := by
  unfold start
  split
  · exact hworld
  · rename_i hdisk
    exact holdsAt_startFrom h config env hdisk hworld
  · rename_i hdisk
    split
    · exact hworld
    · rename_i keys _
      have hwritten : HoldsAt Running Resting
          { world with disk := some (initialState config keys) } := by
        refine ⟨h.create config keys (hdisk ▸ hworld.resting), fun party hparty => ?_⟩
        rw [hprocess] at hparty
        cases hparty
      have hmaybe : ∀ applied : Bool, HoldsAt Running Resting
          (if applied then { world with disk := some (initialState config keys) } else world) := by
        intro applied
        cases applied with
        | false => exact hworld
        | true => exact hwritten
      split
      · exact holdsAt_startFrom h config env rfl hwritten
      · exact hmaybe _
      · exact hmaybe _

variable [AddCommGroup P] [Module Scalar P] [DecidableEq P]

omit [AddCommGroup P] [Module Scalar P] [DecidableEq P] in
inductive Happens (world : World lib) : Except String Reply × World lib → Prop
  | started (config : ProofPartyConfig) (env : Env) (hprocess : world.process = none) :
      Happens world (start config env world)
  | refused (message : String) : Happens world (.error message, world)
  | crashed (reply : Except String Reply) : Happens world (reply, { world with process := none })
  | served {env : Env} {method : Method (Node lib) Reply}
      (hmethod : ∀ node : Node lib, node.down = false → Moves env node method) :
      Happens world (serve method world)

theorem step_happens (world : World lib) (op : Op lib) : Happens world (step world op) := by
  cases op with
  | start config env =>
    cases hprocess : world.process with
    | some =>
      simp only [step, hprocess]
      exact .refused _
    | none =>
      simp only [step, hprocess]
      exact .started config env hprocess
  | crash => exact .crashed _
  | request request => exact .served fun _ hup => dispatch_moves hup request
  | applicationStatement job verifier =>
    exact .served fun _ _ => within_bind_pure authorizeApplicationStatement_moves
  | applicationControl verifier =>
    exact .served fun _ _ => within_bind_pure authorizeApplicationControl_moves
  | optimisticExecution policy context outputRoot validUntil =>
    exact .served fun _ _ => within_bind_pure
      signOptimisticExecution_moves
  | admittedExecution admission outputRoot =>
    exact .served fun _ _ => within_bind_pure
      signAdmittedOptimisticExecution_moves

/-- Whatever happens to a node keeps a lifelong invariant. -/
theorem holdsAt_step (h : Lifelong Running Resting) (hworld : HoldsAt Running Resting world)
    (op : Op lib) : HoldsAt Running Resting (step world op).2 := by
  have hhappens := step_happens world op
  generalize step world op = after at hhappens ⊢
  cases hhappens with
  | started config env hprocess => exact holdsAt_start h config env hprocess hworld
  | refused => exact hworld
  | crashed => exact ⟨hworld.resting, fun _ hnone => nomatch hnone⟩
  | served hmethod => exact holdsAt_serve h hmethod hworld

omit [AddCommGroup P] [Module Scalar P] [DecidableEq P] in
theorem start_journal :
    (start config env world).2.journal = world.journal := by
  have hfrom : ∀ state (world : World lib),
      (startFrom config env state world).2.journal = world.journal := by
    intro state world
    unfold startFrom
    split <;> rfl
  unfold start
  split
  · rfl
  · exact hfrom _ _
  · split
    · rfl
    · split
      · exact hfrom _ _
      · split <;> rfl
      · split <;> rfl

/-- Whatever happens to a node, its journal only grows. -/
theorem step_journal (world : World lib) (op : Op lib) :
    world.journal <+: (step world op).2.journal := by
  have hhappens := step_happens world op
  generalize step world op = after at hhappens ⊢
  cases hhappens with
  | started => rw [start_journal]
  | refused => exact prefix_refl _
  | crashed => exact prefix_refl _
  | @served env method hmethod =>
    unfold serve
    split
    · exact prefix_refl _
    · rename_i party hparty
      have hgrows := moves_journal (hmethod (nodeOf world party) rfl)
      split
      rename_i result node hrun
      have hnode : (method (nodeOf world party)).2 = node := congrArg Prod.snd hrun
      rw [hnode] at hgrows
      split <;> exact hgrows

theorem holdsAt_run (h : Lifelong Running Resting) (ops : List (Op lib)) :
    HoldsAt Running Resting (run step World.fresh ops).state := by
  have hstart : HoldsAt Running Resting World.fresh := ⟨h.fresh, fun _ hnone => nomatch hnone⟩
  exact run_preserves step (P := HoldsAt Running Resting)
    (fun _ op hworld => holdsAt_step h hworld op) hstart ops

end Life

end Zkpi.ProofPartyRequests
