import Zkpi.OneUseSigning

/-!
# A proof job certifies one trade

A job gathers its trade over many requests: an optimistic quote, a checked quote, the winning
Maker, a payment. Some of these may be given again, and two of them may rewrite the quote the
job stands behind. What the job certifies is nevertheless fixed from the moment a payment is
bound to it: no later request, completion or restart changes it, and over the node's whole
life one payment and one settlement message are authorized for a job.
-/

namespace Zkpi.TradeBinding

open ScalarField ByteText FallibleChecks KeyedTables StatefulMethods.Method List Option
open RecordedRuns PaymentInstruction ProofPartyLibrary ProofPartyState ProofPartyJobs
open ProofPartyAuthorization ProofPartyTrades ProofPartyRuns ProofPartyMoves ProofPartyRequests

variable {P : Type} {lib : PartyLibrary P}

/-! ## Certificates -/

@[ext]
structure Certificate where
  paymentDigest : Digest64
  quoteDigest : Digest32
  makerHandle : Option Bytes
  takerHandle : Option Bytes
  makerIsPayer : Option Bool

def certified (proof : CompletedProof) : Certificate :=
  ⟨proof.paymentDigest, proof.quoteDigest, proof.makerHandle, proof.takerHandle,
    proof.makerIsPayer⟩

variable (lib) in
def pledged (view : TradeView P) : Option Certificate :=
  view.authorizedPaymentDigest.map fun digest =>
    ⟨digest, view.expectedQuoteDigest, view.selectedMakerHandle.map lib.primitives.compress,
      view.authorizedTakerHandle.map lib.primitives.compress, view.makerIsPayer⟩

theorem certified_evidenceOf (job : ProofJob lib) :
    (evidenceOf job).map certified = pledged lib (trade job) := by
  simp only [evidenceOf, Option.map_map]
  rfl

variable (lib) in
def paymentDigest (payment : PaymentTerms P) : Digest64 :=
  payment.digestFor lib.primitives lib.sha512 defaultDomain

variable (lib) in
/-- A certificate says what a payment says: its digest, its quote, and which of its two
endpoints is the Maker. -/
structure Encodes (certificate : Certificate) (payment : PaymentTerms P) : Prop where
  digest : certificate.paymentDigest = paymentDigest lib payment
  quote : payment.quoteBinding = .proofDigest certificate.quoteDigest
  apart : lib.primitives.compress payment.payerHandle ≠
    lib.primitives.compress payment.payeeHandle
  roles : ∃ makerIsPayer, certificate.makerIsPayer = some makerIsPayer ∧
    certificate.makerHandle = some (lib.primitives.compress
      (if makerIsPayer then payment.payerHandle else payment.payeeHandle)) ∧
    certificate.takerHandle = some (lib.primitives.compress
      (if makerIsPayer then payment.payeeHandle else payment.payerHandle))

/-! ## One job -/

/-- The parts of a job fit together. -/
structure Coherent (view : TradeView P) : Prop where
  optimistic : ∀ digest, view.optimisticQuote = some digest → view.expectedQuoteDigest = digest
  selected : view.selectedMakerHandle.isSome = true → view.unbound = false
  free : view.authorizedPaymentDigest = none →
    view.authorizedTakerHandle = none ∧ view.makerIsPayer = none
  /-- A job with a payment has both sides, a winning Maker and a quote. -/
  bound : view.authorizedPaymentDigest.isSome = true →
    view.authorizedTakerHandle.isSome = true ∧ view.makerIsPayer.isSome = true ∧
      view.selectedMakerHandle.isSome = true ∧
      (view.quoteVerified = true ∨ view.optimisticQuote.isSome = true)

variable {view : TradeView P}

theorem Coherent.unselected (h : Coherent view) (hunbound : view.unbound = true) :
    view.selectedMakerHandle = none := by
  by_contra hsome
  have hbound := h.selected (isSome_iff_ne_none.mpr hsome)
  exact Bool.false_ne_true (hbound.symm.trans hunbound)

theorem Coherent.unpaid (h : Coherent view) (hunbound : view.unbound = true) :
    view.authorizedPaymentDigest = none := by
  by_contra hsome
  have hselected := (h.bound (isSome_iff_ne_none.mpr hsome)).2.2.1
  rw [h.unselected hunbound] at hselected
  cases hselected

theorem coherent_freshJob (config : ProofPartyConfig) (quoteDigest persistenceDigest : Digest32)
    (shares : PersistedShares lib) (quote : Option lib.quote.Node) :
    Coherent (trade (freshJob config quoteDigest persistenceDigest shares quote)) where
  optimistic _ hnone := nomatch hnone
  selected hnone := nomatch hnone
  free _ := ⟨rfl, rfl⟩
  bound hnone := nomatch hnone

theorem payment_kept (hmove : TradeMove view view') :
    view'.authorizedPaymentDigest = view.authorizedPaymentDigest := by
  cases hmove <;> rfl

theorem Coherent.move (h : Coherent view) (hmove : TradeMove view view') : Coherent view' := by
  cases hmove with
  | kept => exact h
  | taken => exact ⟨h.optimistic, fun _ => rfl, h.free, h.bound⟩
  | selected hunbound =>
    refine ⟨h.optimistic, fun _ => rfl, h.free, fun hsome => ?_⟩
    have hnone : view.authorizedPaymentDigest = none := h.unpaid hunbound
    have hpaid : view.authorizedPaymentDigest.isSome = true := hsome
    rw [hnone] at hpaid
    cases hpaid
  | accepted =>
    refine ⟨fun other hother => some.inj hother, h.selected, h.free, fun hsome => ?_⟩
    obtain ⟨htaker, hside, hmaker, -⟩ := h.bound hsome
    exact ⟨htaker, hside, hmaker, .inr rfl⟩
  | finalized =>
    refine ⟨fun other hother => ?_, h.selected, h.free, fun hsome => ?_⟩
    · have hquote : view.optimisticQuote = some other := hother
      simp only [hquote, isNone_some, Bool.false_eq_true, if_false]
      exact h.optimistic other hquote
    · obtain ⟨htaker, hside, hmaker, -⟩ := h.bound hsome
      exact ⟨htaker, hside, hmaker, .inl rfl⟩

/-- Once a payment is bound no request but its own changes the quote the job stands behind:
a checked quote is not checked again, and an accepted quote is only accepted again. -/
theorem Coherent.quote_kept (h : Coherent view) (hmove : TradeMove view view')
    (hpaid : view.authorizedPaymentDigest.isSome = true) :
    view'.expectedQuoteDigest = view.expectedQuoteDigest := by
  obtain ⟨-, -, -, hassured⟩ := h.bound hpaid
  cases hmove with
  | kept => rfl
  | taken => rfl
  | selected => rfl
  | accepted hverified digest hsame =>
    rcases hassured with hchecked | haccepted
    · exact absurd (hverified.symm.trans hchecked) Bool.false_ne_true
    · obtain ⟨prior, hprior⟩ := isSome_iff_exists.mp haccepted
      exact (hsame prior hprior).symm.trans (h.optimistic prior hprior).symm
  | finalized hverified =>
    rcases hassured with hchecked | haccepted
    · exact absurd (hverified.symm.trans hchecked) Bool.false_ne_true
    · simp only [isNone_eq_false_iff.mpr haccepted, Bool.false_eq_true, if_false]

theorem Coherent.pledged_kept (h : Coherent view) (hmove : TradeMove view view') :
    pledged lib view' = pledged lib view := by
  cases hpaid : view.authorizedPaymentDigest with
  | none =>
    simp [pledged, payment_kept hmove, hpaid]
  | some =>
    have hsome : view.authorizedPaymentDigest.isSome = true := by rw [hpaid]; rfl
    have hquote := h.quote_kept hmove hsome
    have hbound := h.unpaid
    rw [hpaid] at hbound
    cases hmove with
    | kept => rfl
    | taken => rfl
    | selected hunbound => exact absurd (hbound hunbound) (some_ne_none _)
    | accepted | finalized =>
      simp only [pledged] at hquote ⊢
      rw [hquote]

/-! ## The payment of a job -/

section Payment

variable {job : ProofJob lib} {payment : CheckedPayment P}

theorem trade_bindPayment (h : Coherent (trade job)) (payment : CheckedPayment P) :
    (job.authorizedPaymentDigest.isSome = true ∧
      trade (bindPayment payment job).2 = trade job) ∨
    (job.authorizedPaymentDigest = none ∧
      trade (bindPayment payment job).2 = { trade job with
        authorizedPaymentDigest := some (paymentDigest lib payment.terms)
        authorizedTakerHandle := some payment.takerHandle
        makerIsPayer := some payment.makerIsPayer }) := by
  cases hpaid : job.authorizedPaymentDigest with
  | none =>
    obtain ⟨htaker, hside⟩ := h.free hpaid
    have htaker : job.authorizedTakerHandle = none := htaker
    have hside : job.makerIsPayer = none := hside
    refine .inr ⟨rfl, ?_⟩
    have hopen : ¬ (job.authorizedPaymentDigest.any (· ≠
        payment.terms.digestFor lib.primitives lib.sha512 defaultDomain)) = true := by
      rw [hpaid]
      exact Bool.false_ne_true
    have hrun : (bindPayment payment job).2 = { job with
        authorizedPaymentDigest := some (paymentDigest lib payment.terms)
        authorizedTakerHandle := some payment.takerHandle
        makerIsPayer := some payment.makerIsPayer } := by
      change ((failIf _ _ >>= _) job).2 = _
      rw [failIf_bind_of_not hopen, htaker, hside]
      rfl
    rw [hrun]
    rfl
  | some digest =>
    obtain ⟨htaker, hside, -, -⟩ := h.bound (by rw [trade, hpaid]; rfl)
    obtain ⟨taker, htaker⟩ : ∃ taker, job.authorizedTakerHandle = some taker :=
      isSome_iff_exists.mp htaker
    obtain ⟨side, hside⟩ : ∃ side, job.makerIsPayer = some side :=
      isSome_iff_exists.mp hside
    refine .inl ⟨rfl, ?_⟩
    change trade ((failIf (job.authorizedPaymentDigest.any
      (· ≠ paymentDigest lib payment.terms) = true) _ >>= _) job).2 = _
    by_cases hsame : digest = paymentDigest lib payment.terms
    · have hopen : ¬ job.authorizedPaymentDigest.any
          (· ≠ paymentDigest lib payment.terms) = true := by
        rw [hpaid, any_some, hsame]
        simp
      rw [failIf_bind_of_not hopen, htaker, hside]
      change trade (failIf _ _ { job with
        authorizedPaymentDigest := some (paymentDigest lib payment.terms) }).2 = _
      rw [readOnly_failIf, ← hsame, ← hpaid]
    · have hother : job.authorizedPaymentDigest.any
          (· ≠ paymentDigest lib payment.terms) = true := by
        rw [hpaid]
        exact decide_eq_true hsame
      rw [failIf_bind_of hother]

theorem Coherent.paid (h : Coherent (trade job)) (hpayment : Certifies lib (trade job) payment) :
    Coherent (trade (bindPayment payment job).2) := by
  rcases trade_bindPayment h payment with ⟨-, hsame⟩ | ⟨-, hbound⟩
  · rw [hsame]
    exact h
  · rw [hbound]
    obtain ⟨_, hselected, -⟩ := hpayment.maker
    refine ⟨h.optimistic, h.selected, (fun hnone => nomatch hnone), fun _ => ?_⟩
    refine ⟨rfl, rfl, ?_, hpayment.assured⟩
    have hsome : (trade job).selectedMakerHandle.isSome = true := by
      rw [hselected]
      rfl
    exact hsome

theorem pledged_paid (h : Coherent (trade job)) (hpayment : Certifies lib (trade job) payment) :
    (job.authorizedPaymentDigest.isSome = true ∧
      pledged lib (trade (bindPayment payment job).2) = pledged lib (trade job)) ∨
    ∃ certificate, pledged lib (trade (bindPayment payment job).2) = some certificate ∧
      Encodes lib certificate payment.terms := by
  rcases trade_bindPayment h payment with ⟨hpaid, hsame⟩ | ⟨-, hbound⟩
  · exact .inl ⟨hpaid, congrArg (pledged lib) hsame⟩
  · refine .inr ⟨_, by rw [hbound]; rfl, ?_⟩
    obtain ⟨_, hselected, hmaker⟩ := hpayment.maker
    refine ⟨rfl, hpayment.quote, hpayment.apart, payment.makerIsPayer, rfl, ?_, ?_⟩
    · simp [hselected, hmaker]
    · simp [hpayment.taker]

end Payment

/-! ## What a node knows of its jobs -/

structure JobLedger where
  reserved : Finset Digest32
  completed : Finset Digest32
  evidence : Table Digest32 CompletedProof

def ledgerOf (party : ProofParty lib) : JobLedger :=
  ⟨party.reserved, party.completed, party.completedEvidence⟩

def diskLedger : Option (DurableProofState lib) → JobLedger
  | none => ⟨∅, ∅, ∅⟩
  | some state => ⟨state.proofReserved, state.proofCompleted, state.completedEvidence⟩

variable (lib) in
/-- The authorizations a node gave so far are consistent. -/
structure History (journal : List (Event P)) : Prop where
  bound : ∀ {id payment}, .paymentAuthorized id payment ∈ journal → .bound id payment ∈ journal
  payment : ∀ {id left right}, .paymentAuthorized id left ∈ journal →
    .paymentAuthorized id right ∈ journal → paymentDigest lib left = paymentDigest lib right
  presented : ∀ {id message}, .typedAuthorized id message ∈ journal →
    .presented message ∈ journal
  typed : ∀ {id left right}, .typedAuthorized id left ∈ journal →
    .typedAuthorized id right ∈ journal → lib.sha256 left = lib.sha256 right

variable (lib) in
structure Records (journal : List (Event P)) (ledger : JobLedger) : Prop where
  known : ∀ {id payment}, .paymentAuthorized id payment ∈ journal →
    id ∈ ledger.reserved ∨ id ∈ ledger.completed
  completed : ∀ {id proof}, ledger.evidence.lookup id = some proof → id ∈ ledger.completed
  encodes : ∀ {id proof}, ledger.evidence.lookup id = some proof →
    ∃ payment, .bound id payment ∈ journal ∧ Encodes lib (certified proof) payment
  agrees : ∀ {id proof payment}, ledger.evidence.lookup id = some proof →
    .paymentAuthorized id payment ∈ journal → proof.paymentDigest = paymentDigest lib payment
  typed : ∀ {id message}, .typedAuthorized id message ∈ journal →
    ∃ proof, ledger.evidence.lookup id = some proof ∧
      proof.typedMessageDigest = some (lib.sha256 message)

structure Active (journal : List (Event P)) (ledger : JobLedger) (id : Digest32)
    (job : ProofJob lib) : Prop where
  reserved : id ∈ ledger.reserved
  running : id ∉ ledger.completed
  coherent : Coherent (trade job)
  encodes : ∀ {certificate}, pledged lib (trade job) = some certificate →
    ∃ payment, .bound id payment ∈ journal ∧ Encodes lib certificate payment
  agrees : ∀ {payment}, .paymentAuthorized id payment ∈ journal →
    job.authorizedPaymentDigest = some (paymentDigest lib payment)

structure Binding (node : Node lib) : Prop where
  history : History lib node.journal
  disk : Records lib node.journal (diskLedger node.disk)
  memory : Records lib node.journal (ledgerOf node.party)
  active : ∀ {id job}, node.party.jobs.lookup id = some job →
    Active node.journal (ledgerOf node.party) id job

/-- What remains of the invariant while no process runs. -/
def Settled (disk : Option (DurableProofState lib)) (_ : ℕ) (journal : List (Event P)) : Prop :=
  History lib journal ∧ Records lib journal (diskLedger disk)

/-! ## Events that authorize no trade -/

section Steps

variable {node : Node lib} {journal more : List (Event P)} {ledger : JobLedger}

def Idle (events : List (Event P)) : Prop :=
  (∀ id payment, .paymentAuthorized id payment ∉ events) ∧
    ∀ id message, .typedAuthorized id message ∉ events

variable {id : Digest32}

theorem Idle.payment (h : Idle more) {payment : PaymentTerms P}
    (hmem : .paymentAuthorized id payment ∈ journal ++ more) :
    .paymentAuthorized id payment ∈ journal :=
  (mem_append.mp hmem).resolve_right (h.1 id payment)

variable {message : Bytes}

theorem Idle.typed (h : Idle more) (hmem : .typedAuthorized id message ∈ journal ++ more) :
    .typedAuthorized id message ∈ journal :=
  (mem_append.mp hmem).resolve_right (h.2 id message)

theorem History.append (h : History lib journal) (hidle : Idle more) :
    History lib (journal ++ more) where
  bound hmem := mem_append_left _ (h.bound (hidle.payment hmem))
  payment hleft hright := h.payment (hidle.payment hleft) (hidle.payment hright)
  presented hmem := mem_append_left _ (h.presented (hidle.typed hmem))
  typed hleft hright := h.typed (hidle.typed hleft) (hidle.typed hright)

variable {proof : CompletedProof}

theorem Records.encodes_append (h : Records lib journal ledger)
    (hproof : ledger.evidence.lookup id = some proof) :
    ∃ payment, .bound id payment ∈ journal ++ more ∧ Encodes lib (certified proof) payment := by
  obtain ⟨payment, hbound, hencodes⟩ := h.encodes hproof
  exact ⟨payment, mem_append_left _ hbound, hencodes⟩

theorem Records.append (h : Records lib journal ledger) (hidle : Idle more) :
    Records lib (journal ++ more) ledger where
  known hmem := h.known (hidle.payment hmem)
  completed := h.completed
  encodes := h.encodes_append
  agrees hproof hmem := h.agrees hproof (hidle.payment hmem)
  typed hmem := h.typed (hidle.typed hmem)

variable {job : ProofJob lib}

theorem Active.append (h : Active journal ledger id job)
    (hagrees : ∀ {payment}, .paymentAuthorized id payment ∈ more → job.authorizedPaymentDigest =
      some (paymentDigest lib payment)) :
    Active (journal ++ more) ledger id job where
  reserved := h.reserved
  running := h.running
  coherent := h.coherent
  encodes hpledged := by
    obtain ⟨payment, hbound, hencodes⟩ := h.encodes hpledged
    exact ⟨payment, mem_append_left _ hbound, hencodes⟩
  agrees hmem := (mem_append.mp hmem).elim h.agrees hagrees

theorem Binding.elsewhere (h : Binding node) (hidle : Idle more)
    (hjournal : node'.journal = node.journal ++ more) (hjobs : node'.party.jobs = node.party.jobs)
    (hledger : ledgerOf node'.party = ledgerOf node.party)
    (hdisk : diskLedger node'.disk = diskLedger node.disk ∨
      diskLedger node'.disk = ledgerOf node.party) : Binding node' := by
  refine ⟨?_, ?_, ?_, fun {id job} hjob => ?_⟩
  · rw [hjournal]
    exact h.history.append hidle
  · rw [hjournal]
    rcases hdisk with hkept | hsaved
    · rw [hkept]
      exact h.disk.append hidle
    · rw [hsaved]
      exact h.memory.append hidle
  · rw [hjournal, hledger]
    exact h.memory.append hidle
  · rw [hjobs] at hjob
    rw [hjournal, hledger]
    exact (h.active hjob).append fun hmem => absurd hmem (hidle.1 _ _)

def authorizes : Event P → Bool
  | .paymentAuthorized _ _ | .typedAuthorized _ _ => true
  | _ => false

variable {event : Event P}

theorem idle_singleton (h : authorizes event = false) : Idle [event] := by
  refine ⟨fun id payment hmem => ?_, fun id message hmem => ?_⟩ <;>
    obtain rfl := mem_singleton.mp hmem <;> cases h

theorem idle_nil : Idle ([] : List (Event P)) :=
  ⟨fun _ _ => not_mem_nil, fun _ _ => not_mem_nil⟩

theorem Binding.noted (h : Binding node) (hidle : Idle [event]) : Binding (noted node event) :=
  h.elsewhere hidle rfl rfl rfl (.inl rfl)

section

variable (h : Binding node)

include h

theorem Binding.aside (hjobs : party.jobs = node.party.jobs)
    (hledger : ledgerOf party = ledgerOf node.party) :
    Binding (withParty node party) :=
  h.elsewhere idle_nil (append_nil _).symm hjobs hledger (.inl rfl)

/-- A write keeps the invariant, however it ends. -/
theorem Binding.persisted (hidle : Idle mark) (hpersist : Persisted mark node result node') :
    Binding node' := by
  have hbase : ∀ {base}, MaybeWritten mark node base → ∃ more, Idle more ∧
      base.journal = node.journal ++ more ∧ base.party = node.party ∧
      (diskLedger base.disk = diskLedger node.disk ∨
        diskLedger base.disk = ledgerOf node.party) := by
    rintro _ (_ | ⟨_, _⟩)
    · exact ⟨[], idle_nil, (append_nil _).symm, rfl, .inl rfl⟩
    · exact ⟨mark, hidle, rfl, rfl, .inr rfl⟩
  cases hpersist with
  | stuck => exact h
  | stored => exact h.elsewhere hidle rfl rfl rfl (.inr rfl)
  | failed hwritten =>
    obtain ⟨more, hmore, hjournal, -, hdisk⟩ := hbase hwritten
    exact h.elsewhere hmore hjournal rfl rfl hdisk
  | crashed hwritten =>
    obtain ⟨_, hmore, hjournal, hparty, hdisk⟩ := hbase hwritten
    exact h.elsewhere hmore hjournal (congrArg _ hparty) (congrArg _ hparty) hdisk

/-! ## Moves of the jobs -/

theorem Binding.unauthorized (hcompleted : id ∉ node.party.completed)
    (hreserved : id ∉ node.party.reserved) (payment : PaymentTerms P) :
    .paymentAuthorized id payment ∉ node.journal := fun hmem =>
  (h.memory.known hmem).elim hreserved hcompleted

/-- A job with evidence is completed, so it is not being worked on. -/
theorem Binding.no_evidence (hjob : node.party.jobs.lookup id = some job) :
    node.party.completedEvidence.lookup id = none := by
  by_contra hsome
  obtain ⟨_, hproof⟩ := ne_none_iff_exists'.mp hsome
  exact (h.active hjob).running (h.memory.completed hproof)

theorem Binding.loaded (hcompleted : id ∉ node.party.completed)
    (hreserved : id ∉ node.party.reserved) (quoteDigest persistenceDigest : Digest32)
    (shares : PersistedShares lib) (quote : Option lib.quote.Node) :
    Binding (withParty node { node.party with
      jobs := node.party.jobs.insert id
        (freshJob node.party.config quoteDigest persistenceDigest shares quote)
      reserved := insert id node.party.reserved }) := by
  have hmemory : Records lib node.journal
      ⟨insert id node.party.reserved, node.party.completed, node.party.completedEvidence⟩ :=
    { h.memory with
      known := fun hmem => (h.memory.known hmem).imp_left Finset.mem_insert_of_mem }
  refine ⟨h.history, h.disk, hmemory, fun {other job} hjob => ?_⟩
  obtain ⟨rfl, rfl⟩ | hlookup := lookup_insert_some hjob
  · refine ⟨Finset.mem_insert_self _ _, hcompleted, coherent_freshJob ..,
      (fun hnone => nomatch hnone), fun hmem => absurd hmem (h.unauthorized hcompleted hreserved _)⟩
  · have hold := h.active hlookup
    exact { hold with reserved := Finset.mem_insert_of_mem hold.reserved }

theorem Binding.replaced (hactive : Active node.journal (ledgerOf node.party) id job) :
    Binding (withParty node { node.party with jobs := node.party.jobs.insert id job }) := by
  refine ⟨h.history, h.disk, h.memory, fun {other job'} hjob => ?_⟩
  obtain ⟨rfl, rfl⟩ | hlookup := lookup_insert_some hjob
  · exact hactive
  · exact h.active hlookup

end

theorem Active.worked {job' : ProofJob lib} (h : Active journal ledger id job)
    (hmove : TradeMove (trade job) (trade job')) :
    Active journal ledger id job' where
  reserved := h.reserved
  running := h.running
  coherent := h.coherent.move hmove
  encodes hpledged := by
    rw [h.coherent.pledged_kept hmove] at hpledged
    exact h.encodes hpledged
  agrees hmem := (payment_kept hmove).trans (h.agrees hmem)

theorem Active.paid (h : Active journal ledger id job)
    (hpayment : Certifies lib (trade job) payment) (hbound : .bound id payment.terms ∈ journal) :
    Active journal ledger id (bindPayment payment job).2 where
  reserved := h.reserved
  running := h.running
  coherent := h.coherent.paid hpayment
  encodes hpledged := by
    rcases pledged_paid h.coherent hpayment with ⟨-, hsame⟩ | ⟨_, hnew, hencodes⟩
    · exact h.encodes (hsame.symm.trans hpledged)
    · obtain rfl := some.inj (hnew.symm.trans hpledged)
      exact ⟨payment.terms, hbound, hencodes⟩
  agrees hmem := by
    have hpaid := h.agrees hmem
    rcases trade_bindPayment h.coherent payment with ⟨-, hsame⟩ | ⟨hnone, -⟩
    · exact (congrArg TradeView.authorizedPaymentDigest hsame).trans hpaid
    · exact nomatch hnone.symm.trans hpaid

/-! ## Authorizations -/

variable {other : Digest32}

theorem mem_paid
    (hmem : .paymentAuthorized other left ∈ journal ++ [.paymentAuthorized id payment]) :
    .paymentAuthorized other left ∈ journal ∨ (other = id ∧ left = payment) := by
  refine (mem_append.mp hmem).imp_right fun hlast => ?_
  cases mem_singleton.mp hlast
  exact ⟨rfl, rfl⟩

theorem mem_typed (hmem : .typedAuthorized other left ∈ journal ++ [.typedAuthorized id message]) :
    .typedAuthorized other left ∈ journal ∨ (other = id ∧ left = message) := by
  refine (mem_append.mp hmem).imp_right fun hlast => ?_
  cases mem_singleton.mp hlast
  exact ⟨rfl, rfl⟩

theorem mem_typed_of_paid
    (hmem : .typedAuthorized other message ∈ journal ++ [.paymentAuthorized id payment]) :
    .typedAuthorized other message ∈ journal :=
  (mem_append.mp hmem).resolve_right fun hlast => nomatch mem_singleton.mp hlast

theorem mem_paid_of_typed
    (hmem : .paymentAuthorized other payment ∈ journal ++ [.typedAuthorized id message]) :
    .paymentAuthorized other payment ∈ journal :=
  (mem_append.mp hmem).resolve_right fun hlast => nomatch mem_singleton.mp hlast

/-- The history stays consistent when a payment is authorized that agrees with the earlier
ones of its job. -/
theorem History.pay {payment : PaymentTerms P} (h : History lib journal)
    (hbound : .bound id payment ∈ journal)
    (hsame : ∀ {left}, .paymentAuthorized id left ∈ journal → paymentDigest lib left = paymentDigest
      lib payment) :
    History lib (journal ++ [.paymentAuthorized id payment]) where
  bound hmem := by
    rcases mem_paid hmem with hold | ⟨rfl, rfl⟩
    · exact mem_append_left _ (h.bound hold)
    · exact mem_append_left _ hbound
  payment hleft hright := by
    rcases mem_paid hleft with holdLeft | ⟨rfl, rfl⟩ <;>
      rcases mem_paid hright with holdRight | ⟨hid, hpayment⟩
    · exact h.payment holdLeft holdRight
    · subst hid hpayment
      exact hsame holdLeft
    · exact (hsame holdRight).symm
    · rw [hpayment]
  presented hmem := mem_append_left _ (h.presented (mem_typed_of_paid hmem))
  typed hleft hright := h.typed (mem_typed_of_paid hleft) (mem_typed_of_paid hright)

/-- The history stays consistent when a settlement message is authorized that agrees with the
earlier ones of its job. -/
theorem History.settle (h : History lib journal) (hpresented : .presented message ∈ journal)
    (hsame : ∀ {left}, .typedAuthorized id left ∈ journal → lib.sha256 left = lib.sha256 message) :
    History lib (journal ++ [.typedAuthorized id message]) where
  bound hmem := mem_append_left _ (h.bound (mem_paid_of_typed hmem))
  payment hleft hright := h.payment (mem_paid_of_typed hleft) (mem_paid_of_typed hright)
  presented hmem := by
    rcases mem_typed hmem with hold | ⟨rfl, rfl⟩
    · exact mem_append_left _ (h.presented hold)
    · exact mem_append_left _ hpresented
  typed hleft hright := by
    rcases mem_typed hleft with holdLeft | ⟨rfl, rfl⟩ <;>
      rcases mem_typed hright with holdRight | ⟨hid, hmessage⟩
    · exact h.typed holdLeft holdRight
    · subst hid hmessage
      exact hsame holdLeft
    · exact (hsame holdRight).symm
    · rw [hmessage]

theorem Records.pay (h : Records lib journal ledger) (hreserved : id ∈ ledger.reserved)
    (hrunning : id ∉ ledger.completed) (payment : PaymentTerms P) :
    Records lib (journal ++ [.paymentAuthorized id payment]) ledger where
  known hmem := by
    rcases mem_paid hmem with hold | ⟨rfl, -⟩
    · exact h.known hold
    · exact .inl hreserved
  completed := h.completed
  encodes := h.encodes_append
  agrees hproof hmem := by
    rcases mem_paid hmem with hold | ⟨rfl, -⟩
    · exact h.agrees hproof hold
    · exact absurd (h.completed hproof) hrunning
  typed hmem := h.typed (mem_typed_of_paid hmem)

theorem Records.settle (h : Records lib journal ledger)
    (hproof : ledger.evidence.lookup id = some proof)
    (hdigest : proof.typedMessageDigest = some (lib.sha256 message)) :
    Records lib (journal ++ [.typedAuthorized id message]) ledger where
  known hmem := h.known (mem_paid_of_typed hmem)
  completed := h.completed
  encodes := h.encodes_append
  agrees hother hmem := h.agrees hother (mem_paid_of_typed hmem)
  typed hmem := by
    rcases mem_typed hmem with hold | ⟨rfl, rfl⟩
    · exact h.typed hold
    · exact ⟨proof, hproof, hdigest⟩

theorem diskLedger_of_saved (hsaved : Saved node) : diskLedger node.disk = ledgerOf node.party := by
  obtain ⟨_, _, hdisk⟩ := hsaved
  rw [hdisk]
  rfl

theorem Binding.paymentAuthorized (h : Binding node) (hjob : node.party.jobs.lookup id = some job)
    (hdigest : job.authorizedPaymentDigest = some (paymentDigest lib payment))
    (hbound : .bound id payment ∈ node.journal) (hsaved : Saved node) :
    Binding (ProofPartyMoves.noted node (.paymentAuthorized id payment)) := by
  have hactive := h.active hjob
  have hmemory := h.memory.pay hactive.reserved hactive.running payment
  refine ⟨h.history.pay hbound fun hmem => ?_, diskLedger_of_saved hsaved ▸ hmemory, hmemory,
    fun {other job'} hjob' => (h.active hjob').append fun hmem => ?_⟩
  · exact some.inj ((hactive.agrees hmem).symm.trans hdigest)
  · cases mem_singleton.mp hmem
    obtain rfl := some.inj (hjob.symm.trans hjob')
    exact hdigest

theorem Binding.typedAuthorized (h : Binding node)
    (hproof : node.party.completedEvidence.lookup id = some proof)
    (hdigest : proof.typedMessageDigest = some (lib.sha256 message))
    (hpresented : .presented message ∈ node.journal) (hsaved : Saved node) :
    Binding (ProofPartyMoves.noted node (.typedAuthorized id message)) := by
  have hmemory := h.memory.settle hproof hdigest
  refine ⟨h.history.settle hpresented fun hmem => ?_, diskLedger_of_saved hsaved ▸ hmemory,
    hmemory, fun hjob => (h.active hjob).append fun hmem => nomatch mem_singleton.mp hmem⟩
  obtain ⟨_, hother, htyped⟩ := h.memory.typed hmem
  obtain rfl := some.inj (hproof.symm.trans hother)
  exact some.inj (htyped.symm.trans hdigest)

/-! ## Evidence -/

theorem authorized_of_pledged (h : pledged lib view = some certificate) :
    view.authorizedPaymentDigest = some certificate.paymentDigest := by
  obtain ⟨_, hdigest, rfl⟩ := map_eq_some_iff.mp h
  exact hdigest

theorem lookup_closeJob {evidence : Option CompletedProof} {party : ProofParty lib}
    (hother : other ≠ id) :
    (closeJob id evidence party).completedEvidence.lookup other =
      party.completedEvidence.lookup other := by
  cases evidence with
  | none => rfl
  | some => exact Finmap.lookup_insert_of_ne _ hother

theorem lookup_closeJob_self (hnone : party.completedEvidence.lookup id = none)
    (hproof : (closeJob id (evidenceOf job) party).completedEvidence.lookup id = some proof) :
    pledged lib (trade job) = some (certified proof) := by
  rw [← certified_evidenceOf]
  cases hevidence : evidenceOf job with
  | none =>
    rw [hevidence] at hproof
    exact nomatch hnone.symm.trans hproof
  | some left =>
    rw [hevidence] at hproof
    have hinsert : (party.completedEvidence.insert id left).lookup id = some proof := hproof
    rw [Finmap.lookup_insert] at hinsert
    exact congrArg (Option.map certified) hinsert

theorem Binding.records_closed (h : Binding node) (hjob : node.party.jobs.lookup id = some job) :
    Records lib node.journal (ledgerOf (closeJob id (evidenceOf job) node.party)) where
  known {other payment} hmem := by
    by_cases hother : other = id
    · exact .inr (hother ▸ Finset.mem_insert_self _ _)
    · exact (h.memory.known hmem).imp (Finset.mem_erase_of_ne_of_mem hother)
        Finset.mem_insert_of_mem
  completed {other proof} hproof := by
    by_cases hother : other = id
    · exact hother ▸ Finset.mem_insert_self _ _
    · have hold := (lookup_closeJob hother).symm.trans hproof
      exact Finset.mem_insert_of_mem (h.memory.completed hold)
  encodes {other proof} hproof := by
    by_cases hother : other = id
    · subst hother
      exact (h.active hjob).encodes (lookup_closeJob_self (h.no_evidence hjob) hproof)
    · exact h.memory.encodes
        ((lookup_closeJob hother).symm.trans hproof)
  agrees {other proof payment} hproof hmem := by
    by_cases hother : other = id
    · subst hother
      have hpledged := lookup_closeJob_self (h.no_evidence hjob) hproof
      exact some.inj ((authorized_of_pledged hpledged).symm.trans
        ((h.active hjob).agrees hmem))
    · exact h.memory.agrees
        ((lookup_closeJob hother).symm.trans hproof) hmem
  typed {other message} hmem := by
    obtain ⟨proof, hproof, hdigest⟩ := h.memory.typed hmem
    have hother : other ≠ id := by
      rintro rfl
      exact nomatch (h.no_evidence hjob).symm.trans hproof
    exact ⟨proof, (lookup_closeJob hother).trans hproof, hdigest⟩

theorem Binding.closed (h : Binding node) (hjob : node.party.jobs.lookup id = some job) :
    Binding (withParty node (closeJob id (evidenceOf job) node.party)) := by
  refine ⟨h.history, h.disk, h.records_closed hjob, fun {other job'} hjob' => ?_⟩
  obtain ⟨hother, hlookup⟩ := lookup_erase_some hjob'
  have hold := h.active hlookup
  exact { hold with
    reserved := Finset.mem_erase_of_ne_of_mem hother hold.reserved
    running := fun hmem => (Finset.mem_insert.mp hmem).elim hother hold.running }

/-- Evidence is replaced by evidence of the same certificate that keeps its settlement
message. -/
theorem Binding.kept (h : Binding node)
    (hproof : node.party.completedEvidence.lookup id = some proof)
    (hcertified : certified proof' = certified proof)
    (htyped : ∀ {digest}, proof.typedMessageDigest = some digest → proof'.typedMessageDigest = some
      digest) :
    Binding (withParty node (keepEvidence id proof' node.party)) := by
  -- what is stored under an identifier was stored there before, up to the certificate
  have hstored : ∀ {other left},
      (keepEvidence id proof' node.party).completedEvidence.lookup other = some left →
      ∃ old, node.party.completedEvidence.lookup other = some old ∧
        certified left = certified old := by
    intro other left hleft
    obtain ⟨rfl, rfl⟩ | hlookup := lookup_insert_some hleft
    · exact ⟨proof, hproof, hcertified⟩
    · exact ⟨left, hlookup, rfl⟩
  refine ⟨h.history, h.disk, ?_, fun hjob => ?_⟩
  · refine ⟨h.memory.known, fun hleft => ?_, fun hleft => ?_, fun hleft hmem => ?_, fun hmem => ?_⟩
    · obtain ⟨old, hold, -⟩ := hstored hleft
      exact h.memory.completed hold
    · obtain ⟨old, hold, hsame⟩ := hstored hleft
      rw [hsame]
      exact h.memory.encodes hold
    · obtain ⟨old, hold, hsame⟩ := hstored hleft
      exact (congrArg Certificate.paymentDigest hsame).trans (h.memory.agrees hold hmem)
    · rename_i other message
      obtain ⟨old, hold, hdigest⟩ := h.memory.typed hmem
      have hlookup : (keepEvidence id proof' node.party).completedEvidence.lookup other =
          if other = id then some proof' else node.party.completedEvidence.lookup other :=
        lookup_insert_ite ..
      by_cases hother : other = id
      · subst hother
        obtain rfl := some.inj (hproof.symm.trans hold)
        exact ⟨proof', hlookup.trans (if_pos rfl), htyped hdigest⟩
      · exact ⟨old, (hlookup.trans (if_neg hother)).trans hold, hdigest⟩
  · have hold := h.active hjob
    exact { hold with }

/-! ## Every move -/

theorem Binding.move (h : Binding node) (hmove : Move env node node') : Binding node' := by
  have hreserved : ∀ job message nonces, Binding (reservedNode node job message nonces) :=
    fun _ _ _ => h.elsewhere idle_nil (append_nil _).symm rfl rfl (.inl rfl)
  cases hmove with
  | saved => exact h.persisted idle_nil (persist_spec env [] node)
  | aborted => exact h.elsewhere idle_nil (append_nil _).symm rfl rfl (.inl rfl)
  | presented => exact h.noted (idle_singleton rfl)
  | recorded | enrolling | grouped | overwritten | burned => exact h.aside rfl rfl
  | authorized => exact h.elsewhere (idle_singleton rfl) rfl rfl rfl (.inl rfl)
  | unreserved hjob nonces =>
    exact (hreserved _ _ nonces).persisted (idle_singleton rfl) (persist_spec ..)
  | unencoded hkey hjob hencode hstored =>
    exact (hreserved _ _ _).persisted (idle_singleton rfl) (hstored ▸ persist_spec ..)
  | committed hjob nonces hstored =>
    have hafter := (hreserved _ _ nonces).persisted (idle_singleton rfl)
      (hstored ▸ persist_spec ..)
    exact hafter.noted (idle_singleton rfl)
  | @released _ job _ _ hhealthy hup hstate hpresented hdigest hstored =>
    have hburned : Binding (withParty node (burnJob job node.party)) := h.aside rfl rfl
    exact (hburned.persisted idle_nil (hstored ▸ persist_spec ..)).noted (idle_singleton rfl)
  | loaded hcompleted hreserved quoteDigest persistenceDigest shares quote =>
    exact h.loaded hcompleted hreserved quoteDigest persistenceDigest shares quote
  | worked hjob hmove => exact h.replaced ((h.active hjob).worked hmove)
  | checked => exact h.noted (idle_singleton rfl)
  | paid hjob hpayment hbound => exact h.replaced ((h.active hjob).paid hpayment hbound)
  | paymentAuthorized hjob hdigest hbound hsaved =>
    exact h.paymentAuthorized hjob hdigest hbound hsaved
  | closed hjob => exact h.closed hjob
  | acted hproof => exact h.kept hproof rfl fun hdigest => hdigest
  | typed hproof digest hsame =>
    exact h.kept hproof rfl fun hprior => congrArg some (hsame _ hprior).symm
  | typedAuthorized hproof hdigest hpresented hsaved =>
    exact h.typedAuthorized hproof hdigest hpresented hsaved

end Steps

/-! ## The whole life of a node -/

variable (lib) in
theorem history_nil : History lib ([] : List (Event P)) where
  bound hmem := nomatch hmem
  payment hmem := nomatch hmem
  presented hmem := nomatch hmem
  typed hmem := nomatch hmem

variable (lib) in
theorem records_nil : Records lib ([] : List (Event P)) ⟨∅, ∅, ∅⟩ where
  known hmem := nomatch hmem
  completed hproof := nomatch hproof
  encodes hproof := nomatch hproof
  agrees hproof := nomatch hproof
  typed hmem := nomatch hmem

variable (lib) in
theorem binding_lifelong : Lifelong (Binding : Node lib → Prop) Settled where
  fresh := ⟨history_nil lib, records_nil lib⟩
  create config keys h := h
  restart hrestore h := by
    obtain ⟨_, _, _, _, rfl, -, -, -⟩ := restore_ok hrestore
    exact ⟨h.1, h.2, h.2, fun hjob => nomatch hjob⟩
  move hmove h := h.move hmove
  rest h := ⟨h.history, h.disk⟩

section Replies

variable [AddCommGroup P] [Module Scalar P] [DecidableEq P]

variable {node : Node lib} {id : Digest32} {message : Bytes} {reply : Reply}

theorem authorizeZkpi_ok {request : ZkpiRequest P} (hid : request.jobId = .ok id)
    (hmessage : request.message = .ok message)
    (h : authorizeZkpi env request node = (.ok reply, node')) :
    ∃ payment, .paymentAuthorized id payment ∈ node'.journal ∧
      message = (paymentDigest lib payment).toList := by
  change (lift request.jobId >>= _) node = _ at h
  obtain ⟨_, hjob, h⟩ := lift_bind_ok.mp h
  obtain rfl := Except.ok.inj (hid.symm.trans hjob)
  obtain ⟨_, -, h⟩ := lift_bind_ok.mp h
  obtain ⟨_, hsigned, h⟩ := lift_bind_ok.mp h
  obtain rfl := Except.ok.inj (hmessage.symm.trans hsigned)
  obtain ⟨-, h⟩ := failIf_bind_ok.mp h
  obtain ⟨_, -, h⟩ := lift_bind_ok.mp h
  obtain ⟨_, -, h⟩ := lift_bind_ok.mp h
  obtain ⟨_, -, h⟩ := lift_bind_ok.mp h
  obtain ⟨_, -, h⟩ := lift_bind_ok.mp h
  obtain ⟨_, -, h⟩ := lift_bind_ok.mp h
  obtain ⟨_, -, h⟩ := lift_bind_ok.mp h
  obtain ⟨_, -, h⟩ := lift_bind_ok.mp h
  obtain ⟨_, -, h⟩ := lift_bind_ok.mp h
  obtain ⟨_, -, h⟩ := need_bind_ok.mp h
  obtain ⟨payment, hpayment, h⟩ := lift_bind_ok.mp h
  obtain ⟨_, _, -, h⟩ := bind_ok.mp h
  obtain ⟨_, _, -, h⟩ := bind_ok.mp h
  obtain ⟨_, _, -, h⟩ := bind_ok.mp h
  cases h
  exact ⟨payment.terms, mem_append_right _ mem_cons_self,
    (checkedPayment_ok hpayment).2⟩

theorem authorizeTyped_ok {request : TypedRequest lib} (hid : request.jobId = .ok id)
    (hmessage : request.message = .ok message)
    (h : authorizeTyped env request node = (.ok reply, node')) :
    .typedAuthorized id message ∈ node'.journal := by
  change (lift request.jobId >>= _) node = _ at h
  obtain ⟨_, hjob, h⟩ := lift_bind_ok.mp h
  obtain rfl := Except.ok.inj (hid.symm.trans hjob)
  obtain ⟨_, -, h⟩ := lift_bind_ok.mp h
  obtain ⟨_, hsigned, h⟩ := lift_bind_ok.mp h
  obtain rfl := Except.ok.inj (hmessage.symm.trans hsigned)
  obtain ⟨-, h⟩ := failIf_bind_ok.mp h
  obtain ⟨_, -, h⟩ := lift_bind_ok.mp h
  obtain ⟨_, -, h⟩ := lift_bind_ok.mp h
  obtain ⟨-, h⟩ := failIf_bind_ok.mp h
  obtain ⟨_, -, h⟩ := need_bind_ok.mp h
  obtain ⟨_, -, h⟩ := lift_bind_ok.mp h
  obtain ⟨_, -, h⟩ := lift_bind_ok.mp h
  obtain ⟨_, -, h⟩ := need_bind_ok.mp h
  obtain ⟨_, -, h⟩ := need_bind_ok.mp h
  split at h
  · obtain ⟨_, -, h⟩ := lift_bind_ok.mp h
    obtain ⟨_, -, h⟩ := lift_bind_ok.mp h
    obtain ⟨-, h⟩ := failIf_bind_ok.mp h
    obtain ⟨-, h⟩ := failIf_bind_ok.mp h
    obtain ⟨_, _, -, h⟩ := bind_ok.mp h
    obtain ⟨_, _, -, h⟩ := bind_ok.mp h
    cases h
    exact mem_append_right _ mem_cons_self
  · cases h

def PaymentReply (event : Op lib × Except String Reply) (id : Digest32) (message : Bytes) : Prop :=
  ∃ request env reply, event = (.request (.authorizeZkpi request) env, .ok reply) ∧
    request.jobId = .ok id ∧ request.message = .ok message

def TypedReply (event : Op lib × Except String Reply) (id : Digest32) (message : Bytes) : Prop :=
  ∃ request env reply, event = (.request (.authorizeTyped request) env, .ok reply) ∧
    request.jobId = .ok id ∧ request.message = .ok message

structure Reported (event : Op lib × Except String Reply) (journal : List (Event P)) : Prop where
  payment : ∀ {id message}, PaymentReply event id message →
    ∃ payment, .paymentAuthorized id payment ∈ journal ∧
      message = (paymentDigest lib payment).toList
  typed : ∀ {id message}, TypedReply event id message → .typedAuthorized id message ∈ journal

omit [AddCommGroup P] [Module Scalar P] [DecidableEq P] in
theorem Reported.later {event : Op lib × Except String Reply} {journal later : List (Event P)}
    (h : Reported event journal) (hlater : journal <+: later) : Reported event later where
  payment hreply := by
    obtain ⟨payment, hmem, hmessage⟩ := h.payment hreply
    exact ⟨payment, hlater.subset hmem, hmessage⟩
  typed hreply := hlater.subset (h.typed hreply)

theorem step_reported (world : World lib) (op : Op lib) :
    Reported (op, (step world op).1) (step world op).2.journal where
  payment := by
    rintro id message ⟨request, env, reply, heq, hid, hmessage⟩
    obtain ⟨rfl, hreply⟩ := Prod.mk.inj heq
    obtain ⟨party, after, hrun, hafter⟩ := serve_ok hreply
    obtain ⟨payment, hmem, hdigest⟩ := authorizeZkpi_ok hid hmessage (dispatch_ok hrun)
    refine ⟨payment, ?_, hdigest⟩
    change _ ∈ (serve _ world).2.journal
    rw [hafter]
    exact hmem
  typed := by
    rintro _ _ ⟨_, _, _, heq, hid, hmessage⟩
    obtain ⟨rfl, hreply⟩ := Prod.mk.inj heq
    obtain ⟨_, _, hrun, hafter⟩ := serve_ok hreply
    change _ ∈ (serve _ world).2.journal
    rw [hafter]
    exact authorizeTyped_ok hid hmessage (dispatch_ok hrun)

theorem run_reported (ops : List (Op lib)) :
    ∀ event ∈ (run step World.fresh ops).events,
      Reported event (run step World.fresh ops).state.journal := by
  refine run_induction step (P := fun events world =>
    ∀ event ∈ events, Reported event world.journal) (fun _ hmem => nomatch hmem) ?_ ops
  intro _ world op hold event hmem
  rcases mem_append.mp hmem with hearlier | hlast
  · exact (hold event hearlier).later (step_journal world op)
  · rw [mem_singleton.mp hlast]
    exact step_reported world op

/-! ## The theorem -/

/-- Evidence a node holds for a job, in its process or in its state file. -/
def Stored (world : World lib) (id : Digest32) (proof : CompletedProof) : Prop :=
  (∃ party, world.process = some party ∧ party.completedEvidence.lookup id = some proof) ∨
    ∃ state, world.disk = some state ∧ state.completedEvidence.lookup id = some proof

omit [AddCommGroup P] [Module Scalar P] [DecidableEq P] in
/-- Evidence a node holds certifies a payment that passed every check, and the payment that was
authorized is that one. -/
theorem stored_encodes {world : World lib} (h : HoldsAt Binding Settled world)
    {proof : CompletedProof} (hproof : Stored world id proof) :
    (∃ payment, .bound id payment ∈ world.journal ∧ Encodes lib (certified proof) payment) ∧
      ∀ payment, .paymentAuthorized id payment ∈ world.journal →
        proof.paymentDigest = paymentDigest lib payment := by
  rcases hproof with ⟨party, hparty, hproof⟩ | ⟨_, hstate, hproof⟩
  · have hmemory := (h.running party hparty).memory
    exact ⟨hmemory.encodes hproof, fun _ hmem => hmemory.agrees hproof hmem⟩
  · have hdisk := h.resting.2
    rw [hstate] at hdisk
    exact ⟨hdisk.encodes hproof, fun _ hmem => hdisk.agrees hproof hmem⟩

/-- A proof job never changes the trade it certifies. Over the whole life of a node, with
payment digests and message digests free of collisions:
* a reply that authorizes a payment for a job authorizes the payment its message is the digest
  of, and all of these are one payment;
* the evidence a job leaves says exactly what one checked payment says about quote, Maker, Taker
  and payer side, and a payment that was authorized for the job is that one;
* replies that authorize a settlement message for a job all authorize the same message. -/
theorem trade_bound_once (ops : List (Op lib))
    (hpayments : Set.InjOn (paymentDigest lib)
      { payment | ∃ id, .bound id payment ∈ (run step World.fresh ops).state.journal })
    (hmessages : Set.InjOn lib.sha256
      { message | .presented message ∈ (run step World.fresh ops).state.journal }) :
    (∀ event ∈ (run step World.fresh ops).events, ∀ id message, PaymentReply event id message →
      ∃ payment, .paymentAuthorized id payment ∈ (run step World.fresh ops).state.journal ∧
        message = (paymentDigest lib payment).toList) ∧
    (∀ id left right, .paymentAuthorized id left ∈ (run step World.fresh ops).state.journal →
      .paymentAuthorized id right ∈ (run step World.fresh ops).state.journal → left = right) ∧
    (∀ id proof, Stored (run step World.fresh ops).state id proof →
      ∃ payment, Encodes lib (certified proof) payment ∧
        ∀ other, .paymentAuthorized id other ∈ (run step World.fresh ops).state.journal →
          other = payment) ∧
    ∀ id left right messageLeft messageRight,
      left ∈ (run step World.fresh ops).events → right ∈ (run step World.fresh ops).events →
      TypedReply left id messageLeft → TypedReply right id messageRight →
      messageLeft = messageRight := by
  have hholds := holdsAt_run (binding_lifelong lib) ops
  have hhistory := hholds.resting.1
  have hreported := run_reported ops
  refine ⟨fun event hevent id message hreply => (hreported event hevent).payment hreply,
    fun id left right hleft hright => ?_, fun id proof hproof => ?_,
    fun id left right messageLeft messageRight hleft hright hreplyLeft hreplyRight => ?_⟩
  · exact hpayments ⟨id, hhistory.bound hleft⟩ ⟨id, hhistory.bound hright⟩
      (hhistory.payment hleft hright)
  · obtain ⟨⟨payment, hbound, hencodes⟩, hagrees⟩ := stored_encodes hholds hproof
    refine ⟨payment, hencodes, fun other hother => ?_⟩
    exact hpayments ⟨id, hhistory.bound hother⟩ ⟨id, hbound⟩
      ((hagrees other hother).symm.trans hencodes.digest)
  · have htypedLeft := (hreported left hleft).typed hreplyLeft
    have htypedRight := (hreported right hright).typed hreplyRight
    exact hmessages (hhistory.presented htypedLeft) (hhistory.presented htypedRight)
      (hhistory.typed htypedLeft htypedRight)

end Replies

/-! ## A node that certifies a trade -/

section Sample

open OneUseSigning

def sampleRange : ThresholdRange.ThresholdRangeProof Scalar where
  bits := 8
  bitCommitments := replicate 8 0
  bitProofs := replicate 8 ⟨0, 0, 0, 0, 0⟩
  linkage := ⟨0, 0, 0⟩

def tradeJob : Digest32 := repeated 6

def tradeQuote : Digest32 := repeated 9

/-- The Maker pays the Taker. -/
def tradePayment : PaymentTerms Scalar :=
  ⟨0, 0, 0, 1, (2 : ℕ), 20, repeated 1, .proofDigest tradeQuote⟩

def tradeRequest (payment : PaymentTerms Scalar) : ZkpiRequest Scalar where
  jobId := .ok tradeJob
  signingJobId := .ok (signingJob sampleParty (paymentDigest sampleParty payment).toList)
  message := .ok (paymentDigest sampleParty payment).toList
  amountRange := .ok sampleRange
  priceRange := .ok sampleRange
  assetCommitment := .ok payment.assetCommitment
  payerHandle := .ok payment.payerHandle
  payeeHandle := .ok payment.payeeHandle
  deadline := .ok payment.deadline
  nonce := .ok payment.nonce
  quoteDigest := .ok tradeQuote

def tradeLoad : Op sampleParty :=
  .request (.load (.ok tradeJob) (.ok tradeQuote) (.ok []) (.ok ⟨0, (), (), (), (), .ok ()⟩)) calm

def tradeRun : List (Op sampleParty) :=
  sampleEnrollment ++
  [tradeLoad,
    .request (.zkpiBind (.ok tradeJob) (.ok []) (.ok [⟨.ok 1, .ok 0⟩, ⟨.ok 2, .ok 0⟩])) calm,
    .request (.authorizeZkpi (tradeRequest tradePayment)) calm,
    .request (.poolRemainderBind (.ok tradeJob) (.ok [])) calm,
    .request (.poolRemainderRound1 (.ok tradeJob)) calm,
    .request (.poolRemainderRound2 (.ok tradeJob) (.ok (tradeJob, some ()))) calm,
    .request (.dvpBind (.ok tradeJob) (.ok [])) calm,
    .request (.dvpRound1 (.ok tradeJob)) calm,
    .request (.dvpRound2 (.ok tradeJob) (.ok (tradeJob, some ()))) calm,
    .request (.complete (.ok tradeJob)) calm,
    .crash, .start sampleConfig calm, tradeLoad]

def tradeMessage : Bytes := (paymentDigest sampleParty tradePayment).toList

theorem tradeRun_journal : (run step World.fresh tradeRun).state.journal =
    [.bound tradeJob tradePayment, .presented tradeMessage,
      .accepted (signingJob sampleParty tradeMessage) tradeMessage,
      .paymentAuthorized tradeJob tradePayment] := by
  decide +kernel

theorem tradeRun_stored : ∃ proof, Stored (run step World.fresh tradeRun).state tradeJob proof := by
  have hdisk : ((run step World.fresh tradeRun).state.disk.bind
      fun state => state.completedEvidence.lookup tradeJob).isSome = true := by
    decide +kernel
  obtain ⟨proof, hproof⟩ := isSome_iff_exists.mp hdisk
  obtain ⟨state, hstate, hlookup⟩ := bind_eq_some_iff.mp hproof
  exact ⟨proof, .inr ⟨state, hstate, hlookup⟩⟩

/-- The evidence of the sample trade encodes its payment, also after a restart. -/
theorem trade_bound_once_sample :
    Event.paymentAuthorized tradeJob tradePayment ∈
        (run step World.fresh tradeRun).state.journal ∧
      ∃ proof, Stored (run step World.fresh tradeRun).state tradeJob proof ∧
        Encodes sampleParty (certified proof) tradePayment := by
  have hpaid : Event.paymentAuthorized tradeJob tradePayment ∈
      (run step World.fresh tradeRun).state.journal := by
    rw [tradeRun_journal]
    simp
  have hpayment : ∀ payment, (∃ id, .bound id payment ∈
      (run step World.fresh tradeRun).state.journal) → payment = tradePayment := by
    rintro payment ⟨_, hmem⟩
    rw [tradeRun_journal] at hmem
    simp only [mem_cons, Event.bound.injEq, reduceCtorEq, not_mem_nil, or_false] at hmem
    exact hmem.2
  have hmessage : ∀ message, .presented message ∈
      (run step World.fresh tradeRun).state.journal → message = tradeMessage := by
    intro _ hmem
    rw [tradeRun_journal] at hmem
    simpa using hmem
  obtain ⟨-, -, hevidence, -⟩ := trade_bound_once tradeRun
    (fun left hleft right hright _ => (hpayment left hleft).trans (hpayment right hright).symm)
    (fun left hleft right hright _ => (hmessage left hleft).trans (hmessage right hright).symm)
  obtain ⟨proof, hproof⟩ := tradeRun_stored
  obtain ⟨_, hencodes, honly⟩ := hevidence tradeJob proof hproof
  exact ⟨hpaid, proof, hproof, honly tradePayment hpaid ▸ hencodes⟩

end Sample

end Zkpi.TradeBinding
