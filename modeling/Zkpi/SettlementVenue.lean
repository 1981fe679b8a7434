import Zkpi.RecordedRuns
import Zkpi.StatefulMethods
import Zkpi.TypedSettlement

/-!
# Settlement venues

A venue verifies an instruction and spends its nullifier. It knows nothing about
how the price was reached. Its verifiers are arbitrary predicates here: whatever
they accept, a nullifier is spent at most once over any sequence of calls, and a
call that fails leaves nothing behind.
-/

namespace Zkpi.SettlementVenue

open ScalarField ByteText CheckedIntegers FallibleChecks StatefulMethods RecordedRuns
open PedersenSigma List StatefulMethods.Method
open AggregatedRanges ThresholdRange PaymentInstruction TypedSettlement

/-- The settlement side of one rail. -/
structure Venue (P : Type) (quorum : QuorumLibrary) where
  key : Pedersen P
  /-- Which venue, chain, rail and protocol version this is. -/
  domain : Bytes
  amountRanges : RangeCtx P
  priceRanges : RangeCtx P
  groupPublic : quorum.PublicKeyPackage
  /-- Every nullifier settled so far. -/
  spent : Finset Digest32
  maxHorizon : UInt64
  requireThresholdRanges : Bool
  /-- The enrolled post-quantum committee, if any. -/
  pqPolicy : Option (QuorumPolicy quorum.KeyRecord)

open Venue

def approves (quorum : QuorumLibrary) (policy : QuorumPolicy quorum.KeyRecord)
    (value : quorum.QuorumApproval) (message : Bytes) : Option UInt64 → Bool
  | some now => quorum.verifyApproval policy value message now
  | none => quorum.verifyArchivedSignatures policy value message

section Venues

variable {P : Type} [AddCommGroup P] [Module Scalar P] [DecidableEq P]
variable {library : Bulletproofs P} {quorum : QuorumLibrary}
variable (primitives : Primitives P) (sha512 : Bytes → Digest64)

def Venue.new (defaultGens key : Pedersen P) (bounds : Bounds)
    (groupPublic : quorum.PublicKeyPackage) (hamount : validBits bounds.amountBits = true)
    (hprice : validBits bounds.priceBits = true) : Venue P quorum where
  key := key
  domain := defaultDomain
  amountRanges := RangeCtx.new defaultGens bounds.amountBits 1 hamount
  priceRanges := RangeCtx.new defaultGens bounds.priceBits 1 hprice
  groupPublic := groupPublic
  spent := ∅
  maxHorizon := bounds.maxHorizon
  requireThresholdRanges := false
  pqPolicy := none

variable (venue : Venue P quorum)

def Venue.withThresholdRanges : Venue P quorum :=
  { venue with requireThresholdRanges := true }

def validateSettlementCommittee (sha256 : Bytes → Digest32)
    (policy : QuorumPolicy quorum.KeyRecord) (groupPublic : quorum.PublicKeyPackage) :
    Except String Unit := do
  (quorum.validate policy).mapError fun _ => "PQ committee is invalid"
  let bytes ← orRefuse (quorum.serialize groupPublic) "FROST public package is invalid"
  refuseIf (policy.purpose ≠ .settlementInstruction ∨ policy.classicalBinding ≠ sha256 bytes ∨
      policy.members.length ≠ (quorum.verifyingShares groupPublic).length ∨
      ∃ member ∈ policy.members,
        member.1 = 0 ∨ member.1 ∉ quorum.verifyingShares groupPublic)
    "PQ committee differs from the registered FROST committee"

def Venue.requirePqCommittee (sha256 : Bytes → Digest32) (venue : Venue P quorum)
    (policy : QuorumPolicy quorum.KeyRecord) : Except String (Venue P quorum) := do
  validateSettlementCommittee sha256 policy venue.groupPublic
  .ok { venue with pqPolicy := some policy }

def Venue.verifyPqApprovalAt (approval : Option quorum.QuorumApproval) (message : Bytes)
    (now : Option UInt64) : Except String Unit :=
  match venue.pqPolicy, approval with
  | some policy, some value =>
    refuseIf (¬ approves quorum policy value message now) "PQ quorum approval does not verify"
  | some _, none => .error "this venue requires the PQ quorum approval"
  | none, some _ => .error "a hybrid instruction requires an enrolled PQ committee"
  | none, none => .ok ()

variable (instruction : Instruction P library quorum)

/-- Check that the hidden amount and price are within the published bounds. -/
def Venue.verifyRanges : Except String Unit :=
  match instruction.ranges with
  | .bulletproof amount price commitments => do
    refuseIf venue.requireThresholdRanges
      "this venue requires range proofs produced by the MPC quorum"
    refuseIf (commitments.length ≠ 2) "the range proof has the wrong number of commitments"
    refuseIf (¬ venue.amountRanges.verify library (Transcript.new amountRangeContext) amount
      (commitments.take 1)) "the amount is outside the published bounds"
    refuseIf (¬ venue.priceRanges.verify library (Transcript.new priceRangeContext) price
      ((commitments.drop 1).take 1)) "the price is outside the published bounds"
    refuseIf (commitments[0]? ≠ some (primitives.compress instruction.amountCommitment) ∨
        commitments[1]? ≠ some (primitives.compress instruction.priceCommitment))
      "the range proof does not cover this instruction"
  | .threshold amount price => do
    refuseIf (amount.bits ≠ venue.amountRanges.bits ∨
        ¬ verifyThresholdRange primitives venue.key instruction.amountCommitment amount
          amountRangeContext) "the amount is outside the published bounds"
    refuseIf (price.bits ≠ venue.priceRanges.bits ∨
        ¬ verifyThresholdRange primitives venue.key instruction.priceCommitment price
          priceRangeContext) "the price is outside the published bounds"

def Venue.verifyAt (now : UInt64) (archived : Bool) : Except String Unit := do
  refuseIf (instruction.deadline > saturatingAdd now venue.maxHorizon)
    "the deadline is further out than this venue will hold a nullifier for"
  refuseIf (now > instruction.deadline) "past the deadline"
  refuseIf (primitives.compress instruction.payerHandle =
    primitives.compress instruction.payeeHandle) "the payer and the payee are the same handle"
  refuseIf (instruction.nullifier primitives sha512 ∈ venue.spent) "already settled"
  venue.verifyRanges primitives instruction
  refuseIf (¬ quorum.verify venue.groupPublic
    (instruction.digestFor primitives sha512 venue.domain).toList instruction.signature)
    "the quorum signature does not verify"
  venue.verifyPqApprovalAt instruction.pqApproval
    (instruction.digestFor primitives sha512 venue.domain).toList
    (if archived then none else some now)

def Venue.verify (now : UInt64) : Except String Unit :=
  venue.verifyAt primitives sha512 instruction now false

def Venue.verifyTyped (instruction : TypedInstruction P library quorum) (now : UInt64) :
    Except String Unit := do
  venue.verify primitives sha512 instruction.payment now
  let digest ← instruction.digestFor primitives sha512 venue.domain
  refuseIf (¬ quorum.verify venue.groupPublic digest.toList instruction.authorization)
    "the typed zkPI authorization does not verify"
  venue.verifyPqApprovalAt instruction.pqAuthorization digest.toList (some now)

/-- Verify the integrity of a record that was accepted earlier. -/
def Venue.verifyArchived : Except String Unit :=
  venue.verifyAt primitives sha512 instruction instruction.deadline true

/-- Verify and spend. -/
def settle (now : UInt64) : Method (Venue P quorum) Unit := do
  let venue ← read
  lift (venue.verify primitives sha512 instruction now)
  write { venue with
    spent := insert (instruction.nullifier primitives sha512) venue.spent }

def settleTyped (instruction : TypedInstruction P library quorum) (now : UInt64) :
    Method (Venue P quorum) Unit := do
  let venue ← read
  lift (venue.verifyTyped primitives sha512 instruction now)
  write { venue with
    spent := insert (instruction.payment.nullifier primitives sha512) venue.spent }

/-! ## What an accepted call has passed -/

/-- The range evidence of an instruction verified against its own commitments at
the venue's widths. -/
def Venue.RangesVerified : Prop :=
  match instruction.ranges with
  | .bulletproof amount price _ =>
    venue.amountRanges.verify library (Transcript.new amountRangeContext) amount
      [primitives.compress instruction.amountCommitment] = true ∧
    venue.priceRanges.verify library (Transcript.new priceRangeContext) price
      [primitives.compress instruction.priceCommitment] = true
  | .threshold amount price =>
    amount.bits = venue.amountRanges.bits ∧ price.bits = venue.priceRanges.bits ∧
    verifyThresholdRange primitives venue.key instruction.amountCommitment amount
      amountRangeContext = true ∧
    verifyThresholdRange primitives venue.key instruction.priceCommitment price
      priceRangeContext = true

/-- An approval is present exactly when a committee is enrolled, and that
committee approved the message. -/
def Venue.PqApproved (approval : Option quorum.QuorumApproval) (message : Bytes) (now : UInt64) :
    Prop :=
  (approval.isSome ↔ venue.pqPolicy.isSome) ∧
  ∀ policy value, venue.pqPolicy = some policy → approval = some value →
    quorum.verifyApproval policy value message now = true

structure Venue.Accepts (venue : Venue P quorum) (payment : Instruction P library quorum)
    (now : UInt64) : Prop where
  notExpired : now ≤ payment.deadline
  withinHorizon : payment.deadline ≤ saturatingAdd now venue.maxHorizon
  distinctParties : payment.payerHandle ≠ payment.payeeHandle
  fresh : payment.nullifier primitives sha512 ∉ venue.spent
  ranges : venue.RangesVerified primitives payment
  signature : quorum.verify venue.groupPublic
    (payment.digestFor primitives sha512 venue.domain).toList payment.signature = true
  approval : venue.PqApproved payment.pqApproval
    (payment.digestFor primitives sha512 venue.domain).toList now

variable {primitives sha512}

variable {venue : Venue P quorum}

omit [AddCommGroup P] [Module Scalar P] [DecidableEq P] in
theorem verifyPqApprovalAt_ok (h : venue.verifyPqApprovalAt approval message (some now) = .ok ()) :
    venue.PqApproved approval message now := by
  unfold verifyPqApprovalAt at h
  split at h
  · rename_i policy value hpolicy
    simp only [refuseIf_ok, not_not] at h
    refine ⟨by simp [hpolicy], ?_⟩
    intro other another hother hanother
    rw [hpolicy] at hother
    cases hother
    cases hanother
    exact h
  · cases h
  · cases h
  · rename_i hpolicy
    refine ⟨by simp [hpolicy], ?_⟩
    intro policy value _ hvalue
    cases hvalue

theorem verifyRanges_ok {instruction : Instruction P library quorum}
    (h : venue.verifyRanges primitives instruction = .ok ()) :
    venue.RangesVerified primitives instruction := by
  unfold verifyRanges at h
  unfold RangesVerified
  cases hranges : instruction.ranges with
  | bulletproof =>
    rw [hranges] at h
    simp only [refuseIf_bind_ok, refuseIf_ok, not_or, not_not, ne_eq] at h
    obtain ⟨_, hlength, hamount, hprice, hfirst, hsecond⟩ := h
    obtain ⟨_, _, rfl⟩ := length_eq_two.mp hlength
    cases hfirst
    cases hsecond
    exact ⟨hamount, hprice⟩
  | threshold =>
    rw [hranges] at h
    simp only [refuseIf_bind_ok, refuseIf_ok, not_or, not_not, ne_eq] at h
    obtain ⟨⟨hamountBits, hamount⟩, hpriceBits, hprice⟩ := h
    exact ⟨hamountBits, hpriceBits, hamount, hprice⟩

theorem verify_ok (h : venue.verify primitives sha512 payment now = .ok ()) :
    venue.Accepts primitives sha512 payment now := by
  simp only [verify, verifyAt, refuseIf_bind_ok, gt_iff_lt, UInt64.not_lt] at h
  obtain ⟨hhorizon, hdeadline, hparties, hfresh, h⟩ := h
  obtain ⟨_, hranges, h⟩ := bind_ok.mp h
  simp only [refuseIf_bind_ok, not_not, Bool.false_eq_true, if_false] at h
  exact ⟨hdeadline, hhorizon, fun hsame => hparties (congrArg _ hsame), hfresh,
    verifyRanges_ok hranges, h.1, verifyPqApprovalAt_ok h.2⟩

/-- A typed call has passed its payment's checks, and its own authorization is
signed over the typed digest by the same quorum. -/
theorem verifyTyped_ok {instruction : TypedInstruction P library quorum}
    (h : venue.verifyTyped primitives sha512 instruction now = .ok ()) :
    venue.Accepts primitives sha512 instruction.payment now ∧
    ∃ digest, instruction.digestFor primitives sha512 venue.domain = .ok digest ∧
      quorum.verify venue.groupPublic digest.toList instruction.authorization = true ∧
      venue.PqApproved instruction.pqAuthorization digest.toList now := by
  obtain ⟨_, hpayment, h⟩ := bind_ok.mp h
  obtain ⟨digest, hdigest, h⟩ := bind_ok.mp h
  simp only [refuseIf_bind_ok, not_not] at h
  exact ⟨verify_ok hpayment, digest, hdigest, h.1, verifyPqApprovalAt_ok h.2⟩

/-- A record that the venue accepted is accepted from the archive by those spent sets that do not
hold its nullifier, if its archived approval verifies. -/
theorem verifyArchived_iff
    (h : venue.verify primitives sha512 payment now = .ok ()) (spent : Finset Digest32) :
    { venue with spent := spent }.verifyArchived primitives sha512 payment = .ok () ↔
      payment.nullifier primitives sha512 ∉ spent ∧
      venue.verifyPqApprovalAt payment.pqApproval
        (payment.digestFor primitives sha512 venue.domain).toList none = .ok () := by
  simp only [verify, verifyAt, refuseIf_bind_ok] at h
  obtain ⟨_, _, hparties, _, h⟩ := h
  obtain ⟨_, hranges, h⟩ := bind_ok.mp h
  obtain ⟨hsigned, _⟩ := refuseIf_bind_ok.mp h
  have hhorizon : ¬ payment.deadline > saturatingAdd payment.deadline venue.maxHorizon := by
    rw [gt_iff_lt, UInt64.lt_iff_toNat_lt, saturatingAdd_toNat]
    have := payment.deadline.toNat_lt
    omega
  rw [verifyArchived, verifyAt]
  simp only [refuseIf_bind_ok]
  constructor
  · rintro ⟨-, -, -, hfresh, hrest⟩
    obtain ⟨_, -, hrest⟩ := bind_ok.mp hrest
    exact ⟨hfresh, (refuseIf_bind_ok.mp hrest).2⟩
  · rintro ⟨hfresh, happroval⟩
    exact ⟨hhorizon, UInt64.lt_irrefl _, hparties, hfresh,
      bind_ok.mpr ⟨(), hranges, refuseIf_bind_ok.mpr ⟨hsigned, happroval⟩⟩⟩

/-! ## Sequences of calls -/

inductive Call (P : Type) (library : Bulletproofs P) (quorum : QuorumLibrary) where
  | settle (instruction : Instruction P library quorum) (now : UInt64)
  | settleTyped (instruction : TypedInstruction P library quorum) (now : UInt64)

def Call.payment : Call P library quorum → Instruction P library quorum
  | .settle instruction _ => instruction
  | .settleTyped instruction _ => instruction.payment

def Call.now : Call P library quorum → UInt64
  | .settle _ now => now
  | .settleTyped _ now => now

variable (primitives sha512)

def step (venue : Venue P quorum) : Call P library quorum → Except String Unit × Venue P quorum
  | .settle instruction now => settle primitives sha512 instruction now venue
  | .settleTyped instruction now => settleTyped primitives sha512 instruction now venue

/-- A successful call: the payment was accepted, a typed call was authorized as
such, and the nullifier is spent. -/
def Venue.Settles (venue : Venue P quorum) (call : Call P library quorum) : Prop :=
  venue.Accepts primitives sha512 call.payment call.now ∧
  match call with
  | .settle _ _ => True
  | .settleTyped instruction now =>
    ∃ digest, instruction.digestFor primitives sha512 venue.domain = .ok digest ∧
      quorum.verify venue.groupPublic digest.toList instruction.authorization = true ∧
      venue.PqApproved instruction.pqAuthorization digest.toList now

variable {primitives sha512}

variable {venue' : Venue P quorum} {call : Call P library quorum}

section

variable (h : step primitives sha512 venue call = (.ok (), venue'))

include h

theorem step_checked : (match call with
      | .settle instruction now => venue.verify primitives sha512 instruction now
      | .settleTyped instruction now => venue.verifyTyped primitives sha512 instruction now) =
      .ok () ∧ venue' = { venue with
      spent := insert (call.payment.nullifier primitives sha512) venue.spent } := by
  cases call with
  | settle instruction now | settleTyped instruction now =>
    obtain ⟨_, _, hread, h⟩ := Method.bind_ok.mp h
    obtain ⟨rfl, rfl⟩ := read_ok.mp hread
    obtain ⟨_, _, hlift, h⟩ := Method.bind_ok.mp h
    obtain ⟨hverify, rfl⟩ := lift_ok.mp hlift
    exact ⟨hverify, (write_ok.mp h).symm⟩

theorem step_ok : venue.Settles primitives sha512 call ∧ venue' = { venue with
      spent := insert (call.payment.nullifier primitives sha512) venue.spent } := by
  obtain ⟨hcheck, hspent⟩ := step_checked h
  cases call with
  | settle => exact ⟨⟨verify_ok hcheck, trivial⟩, hspent⟩
  | settleTyped => exact ⟨verifyTyped_ok hcheck, hspent⟩

theorem step_verified : venue.verify primitives sha512 call.payment call.now = .ok () := by
  obtain ⟨hcheck, -⟩ := step_checked h
  cases call with
  | settle => exact hcheck
  | settleTyped =>
    obtain ⟨_, hpayment, _⟩ := bind_ok.mp hcheck
    exact hpayment

end

theorem step_error (h : step primitives sha512 venue call = (.error message, venue')) :
    venue' = venue := by
  cases call with
  | settle instruction now | settleTyped instruction now =>
    exact atomic_bind readOnly_read (fun _ => atomic_bind
      readOnly_lift fun _ => atomic_write) venue message venue' h

theorem Venue.Settles.of_subset {spent : Finset Digest32} (hsubset : venue.spent ⊆ spent)
    (h : { venue with spent := spent }.Settles primitives sha512 call) :
    venue.Settles primitives sha512 call := by
  obtain ⟨haccepts, htyped⟩ := h
  refine ⟨⟨haccepts.notExpired, haccepts.withinHorizon, haccepts.distinctParties,
    fun hmem => haccepts.fresh (hsubset hmem), haccepts.ranges, haccepts.signature,
    haccepts.approval⟩, ?_⟩
  cases call with
  | settle => exact trivial
  | settleTyped => exact htyped

variable (primitives sha512)

def settled (events : List (Call P library quorum × Except String Unit)) :
    List (Call P library quorum) :=
  events.filterMap fun event => match event.2 with
    | .ok _ => some event.1
    | .error _ => none

variable {events : List (Call P library quorum × Except String Unit)}

omit [AddCommGroup P] [Module Scalar P] [DecidableEq P] in
theorem settled_error :
    settled (events ++ [(call, .error message)]) = settled events := by
  simp [settled]

omit [AddCommGroup P] [Module Scalar P] [DecidableEq P] in
theorem settled_ok :
    settled (events ++ [(call, .ok value)]) = settled events ++ [call] := by
  simp [settled]

structure Spending (start : Venue P quorum)
    (events : List (Call P library quorum × Except String Unit)) (venue : Venue P quorum) :
    Prop where
  configuration : venue = { start with spent := venue.spent }
  /-- Nothing was forgotten. -/
  kept : start.spent ⊆ venue.spent
  recorded : ∀ call ∈ settled events, call.payment.nullifier primitives sha512 ∈ venue.spent
  accepted : ∀ call ∈ settled events, start.Settles primitives sha512 call
  distinct : (settled events).Pairwise fun earlier later =>
    earlier.payment.nullifier primitives sha512 ≠ later.payment.nullifier primitives sha512

variable {primitives sha512}

theorem Spending.step
    (h : Spending primitives sha512 start events venue) (call : Call P library quorum) :
    Spending primitives sha512 start
      (events ++ [(call, (SettlementVenue.step primitives sha512 venue call).1)])
      (SettlementVenue.step primitives sha512 venue call).2 := by
  cases hstep : SettlementVenue.step primitives sha512 venue call with
  | mk result =>
    cases result with
    | error =>
      rw [step_error hstep]
      refine ⟨h.configuration, h.kept, ?_, ?_, ?_⟩ <;> rw [settled_error]
      · exact h.recorded
      · exact h.accepted
      · exact h.distinct
    | ok =>
      obtain ⟨hsettles, rfl⟩ := step_ok hstep
      rw [h.configuration] at hsettles
      have hfresh : call.payment.nullifier primitives sha512 ∉ venue.spent := hsettles.1.fresh
      refine ⟨?_, h.kept.trans (Finset.subset_insert _ _), ?_, ?_, ?_⟩
      · rw [h.configuration]
      · rw [settled_ok]
        intro other hother
        rcases mem_append.mp hother with hold | hnew
        · exact Finset.mem_insert_of_mem (h.recorded other hold)
        · rw [mem_singleton.mp hnew]
          exact Finset.mem_insert_self _ _
      · rw [settled_ok]
        intro other hother
        rcases mem_append.mp hother with hold | hnew
        · exact h.accepted other hold
        · rw [mem_singleton.mp hnew]
          exact hsettles.of_subset h.kept
      · rw [settled_ok, pairwise_append]
        refine ⟨h.distinct, pairwise_singleton _ _, ?_⟩
        intro earlier hearlier later hlater heq
        rw [mem_singleton.mp hlater] at heq
        exact hfresh (heq ▸ h.recorded earlier hearlier)

variable (primitives sha512)

theorem run_spending (start : Venue P quorum) (calls : List (Call P library quorum)) :
    Spending primitives sha512 start (run (step primitives sha512) start calls).events
      (run (step primitives sha512) start calls).state := by
  apply run_induction (step primitives sha512)
    (P := fun events venue => Spending primitives sha512 start events venue)
  · exact ⟨rfl, Finset.Subset.refl _, fun _ h => absurd h not_mem_nil,
      fun _ h => absurd h not_mem_nil, List.Pairwise.nil⟩
  · intro events venue call h
    exact h.step call

/-- A nullifier settles once. Over every sequence of calls on a venue, two
successful calls never spend one nullifier, so they never agree in nonce, payer
and payee however else they differ; every successful call passed the venue's
deadline window, range evidence, signature and committee checks in the venue's
own domain; and a failing call leaves the venue unchanged. The verifiers are
arbitrary. -/
theorem nullifier_settles_once (venue : Venue P quorum) (calls : List (Call P library quorum)) :
    (settled (run (step primitives sha512) venue calls).events).Pairwise (fun earlier later =>
      earlier.payment.nullifier primitives sha512 ≠ later.payment.nullifier primitives sha512 ∧
      ¬ (earlier.payment.nonce = later.payment.nonce ∧
        earlier.payment.payerHandle = later.payment.payerHandle ∧
        earlier.payment.payeeHandle = later.payment.payeeHandle)) ∧
    (∀ call ∈ settled (run (step primitives sha512) venue calls).events,
      venue.Settles primitives sha512 call) ∧
    ∀ (before after : Venue P quorum) (call : Call P library quorum) (message : String),
      step primitives sha512 before call = (.error message, after) → after = before := by
  have hrun := run_spending primitives sha512 venue calls
  refine ⟨hrun.distinct.imp ?_, hrun.accepted, fun _ _ _ _ h => step_error h⟩
  intro earlier later hne
  -- one nonce and one pair of handles spend one nullifier
  refine ⟨hne, fun hsame => hne ?_⟩
  simp only [Instruction.nullifier, hsame.1, hsame.2.1, hsame.2.2]

/-- Every settled call passed the check of the venue, at some set of spent nullifiers. -/
structure Verified (start : Venue P quorum)
    (events : List (Call P library quorum × Except String Unit)) (venue : Venue P quorum) :
    Prop where
  configuration : venue = { start with spent := venue.spent }
  passed : ∀ call ∈ settled events, ∃ spent,
    { start with spent := spent }.verify primitives sha512 call.payment call.now = .ok ()

theorem run_verified (start : Venue P quorum) (calls : List (Call P library quorum)) :
    Verified primitives sha512 start (run (step primitives sha512) start calls).events
      (run (step primitives sha512) start calls).state := by
  apply run_induction (step primitives sha512)
    (P := fun events venue => Verified primitives sha512 start events venue)
  · exact ⟨rfl, fun _ h => absurd h not_mem_nil⟩
  rintro _ venue call ⟨hsame, hpast⟩
  cases hstep : step primitives sha512 venue call with
  | mk result =>
    cases result with
    | error =>
      rw [step_error hstep]
      refine ⟨hsame, ?_⟩
      rw [settled_error]
      exact hpast
    | ok =>
      obtain ⟨_, rfl⟩ := step_ok hstep
      refine ⟨by rw [hsame], fun other hother => ?_⟩
      rw [settled_ok] at hother
      rcases mem_append.mp hother with hold | hnew
      · exact hpast other hold
      · rw [mem_singleton.mp hnew]
        exact ⟨venue.spent, hsame ▸ step_verified hstep⟩

/-- After any calls the archive check of a venue refuses what the venue settled, since settling
spent the nullifier that the check still looks up. Against another spent set it accepts the record
exactly if the nullifier is not in it and the archived approval verifies. -/
theorem settled_refused_from_archive (venue : Venue P quorum) (calls : List (Call P library quorum))
    (call : Call P library quorum)
    (hsettled : call ∈ settled (run (step primitives sha512) venue calls).events) :
    (run (step primitives sha512) venue calls).state.verifyArchived primitives sha512 call.payment ≠
      .ok () ∧
    ∀ spent, { venue with spent := spent }.verifyArchived primitives sha512 call.payment = .ok () ↔
      call.payment.nullifier primitives sha512 ∉ spent ∧
      venue.verifyPqApprovalAt call.payment.pqApproval
        (call.payment.digestFor primitives sha512 venue.domain).toList none = .ok () := by
  obtain ⟨_, hverified⟩ := (run_verified primitives sha512 venue calls).passed call hsettled
  have hrun := run_spending primitives sha512 venue calls
  have hiff := verifyArchived_iff hverified
  refine ⟨fun haccepted => ?_, hiff⟩
  rw [hrun.configuration] at haccepted
  exact ((hiff _).mp haccepted).1 (hrun.recorded call hsettled)

end Venues

/-! ## A replayed payment -/

def sampleGroup : Primitives Scalar := ⟨fun point => beBytes 32 point.val, fun _ _ => 0⟩

def sampleLibrary : Bulletproofs Scalar where
  RangeProof := Unit
  proveMultiple := fun _ _ _ _ _ _ _ => none
  verifyMultiple := fun _ _ _ _ _ _ => true

def sampleQuorum : QuorumLibrary where
  PublicKeyPackage := Unit
  serialize := fun _ => some []
  verifyingShares := fun _ => [1]
  Signature := Unit
  verify := fun _ _ _ => true
  KeyRecord := Unit
  validate := fun _ => .ok ()
  QuorumApproval := Unit
  verifyApproval := fun _ _ _ _ => true
  verifyArchivedSignatures := fun _ _ _ => true

def sampleHash (bytes : Bytes) : Digest64 :=
  ⟨(bytes ++ replicate 64 0).take 64, by simp⟩

def sampleVenue : Venue Scalar sampleQuorum :=
  Venue.new ⟨1, (2 : ℕ)⟩ ⟨1, (2 : ℕ)⟩ ⟨32, 32, 86400⟩ () rfl rfl

def samplePayment (amount : Scalar) : Instruction Scalar sampleLibrary sampleQuorum where
  amountCommitment := amount
  priceCommitment := (7 : ℕ)
  assetCommitment := (8 : ℕ)
  ranges := .bulletproof () () [sampleGroup.compress amount, sampleGroup.compress (7 : ℕ)]
  payerHandle := 1
  payeeHandle := (2 : ℕ)
  deadline := 100
  nonce := repeated 9
  quoteBinding := .legacyPackedKey 3
  signature := ()
  pqApproval := none

/-- A payment settles, and the same nonce and handles with another amount are
refused afterwards. -/
theorem nullifier_settles_once_replay :
    (run (step sampleGroup sampleHash) sampleVenue
      [.settle (samplePayment 5) 50, .settle (samplePayment 6) 60]).events.map Prod.snd =
        [.ok (), .error "already settled"] ∧
    (settled (run (step sampleGroup sampleHash) sampleVenue
      [.settle (samplePayment 5) 50, .settle (samplePayment 6) 60]).events).Pairwise
        fun earlier later => earlier.payment.nullifier sampleGroup sampleHash ≠
          later.payment.nullifier sampleGroup sampleHash := by
  refine ⟨by decide +kernel, ?_⟩
  exact (nullifier_settles_once sampleGroup sampleHash sampleVenue
    [.settle (samplePayment 5) 50, .settle (samplePayment 6) 60]).1.imp fun h => h.1

/-- Against a spent set without its nullifier the settled payment is accepted from the archive. -/
theorem settled_payment_in_archive :
    sampleVenue.verifyArchived sampleGroup sampleHash (samplePayment 5) = .ok () :=
  ((settled_refused_from_archive sampleGroup sampleHash sampleVenue [.settle (samplePayment 5) 50]
    (.settle (samplePayment 5) 50) (by
      have hevents : (run (step sampleGroup sampleHash) sampleVenue
          [.settle (samplePayment 5) 50]).events = [(.settle (samplePayment 5) 50, .ok ())] :=
        congrArg (fun result => [(Call.settle (samplePayment 5) 50, result)])
          (by decide +kernel : (step sampleGroup sampleHash sampleVenue
            (.settle (samplePayment 5) 50)).1 = .ok ())
      rw [hevents]
      exact mem_singleton_self _)).2 ∅).mpr
    ⟨Finset.notMem_empty _, rfl⟩

/-- The venue that settled the payment refuses it from the archive. -/
theorem settled_payment_refused :
    (run (step sampleGroup sampleHash) sampleVenue [.settle (samplePayment 5) 50]).events.map
      Prod.snd = [.ok ()] ∧
    (run (step sampleGroup sampleHash) sampleVenue
      [.settle (samplePayment 5) 50]).state.verifyArchived sampleGroup sampleHash
        (samplePayment 5) = .error "already settled" :=
  ⟨by decide +kernel, by decide +kernel⟩

end Zkpi.SettlementVenue
