import Zkpi.PaymentWire

/-!
# The bytes of a typed instruction

A typed instruction carries the encoding of its payment behind a length, the fields of its context,
a second signature and, in the hybrid version, a second approval. Decoding checks what encoding does
not: that the context fits the payment and that the payment is approved exactly if the typed
instruction is. So there are instructions with an encoding that does not decode, and on all others
the two are inverse to each other.
-/

namespace Zkpi.TypedWire

open ByteText FallibleChecks ByteReaders AggregatedRanges PaymentInstruction TypedSettlement List
open Option
open PaymentWire (WireCodec framed)
open SignedStatements (plainRanges plainQuorum plainPayment)

variable {P : Type} {library : Bulletproofs P} {quorum : QuorumLibrary}

/-! ## Encoding -/

def magic : Bytes := utf8 "QOMMTZPI"

def version : ℕ := 1

def hybridVersion : ℕ := 2

def maxBaseBytes : ℕ := 1048576

section Encode

variable (codec : WireCodec P library quorum)

def appendContext (context : ExecutionContext P) : Bytes :=
  [context.operation.toByte] ++ [context.scope.toByte] ++ [context.direction.toByte] ++
    context.venueId.toList ++ context.defmiId.toList ++ codec.compress context.makerHandle ++
    codec.compress context.takerHandle ++ codec.compress context.reserveHandle ++
    context.makerReservationId.toList ++ beBytes 8 context.makerReservationSequence.toNat ++
    context.takerReservationId.toList ++ beBytes 8 context.takerReservationSequence.toNat ++
    context.rfqNullifier.toList ++ context.takerMandateDigest.toList ++
    context.makerPolicyDigest.toList ++ context.makerMandateDigest.toList ++
    context.makerReserveReceiptDigest.toList ++ context.takerReserveReceiptDigest.toList ++
    context.quoteProofDigest.toList ++ context.marketStatementDigest.toList ++
    context.beforeStateRoot.toList

def encodeAuthorization : Option quorum.QuorumApproval → Option Bytes
  | none => some []
  | some approval => (codec.encodeApproval approval).map framed

def typedVersion (pqAuthorization : Option quorum.QuorumApproval) : ℕ :=
  if pqAuthorization.isSome then hybridVersion else version

def encode (instruction : TypedInstruction P library quorum) : Option Bytes := do
  let base ← PaymentWire.encode codec instruction.payment
  let authorization ← codec.serializeSignature instruction.authorization
  let pqAuthorization ← encodeAuthorization codec instruction.pqAuthorization
  some (magic ++ beBytes 2 (typedVersion instruction.pqAuthorization) ++ framed base ++
    appendContext codec instruction.context ++ authorization ++ pqAuthorization)

end Encode

/-! ## Decoding -/

inductive Error where
  | wrongMagic
  | unknownVersion (version : ℕ)
  | truncated (name : String)
  | oversizedBase
  | invalidBase
  | invalidPoint (name : String)
  | invalidOperation
  | invalidScope
  | invalidDirection
  | invalidSignature
  | invalidContext
  | trailing (count : ℕ)
deriving DecidableEq

variable (byte : UInt8)

def OperationKind.ofByte : Option OperationKind :=
  if byte = 1 then some .reserve
  else if byte = 2 then some .consume
  else if byte = 3 then some .release
  else if byte = 4 then some .settle
  else none

def AuthorizationScope.ofByte : Option AuthorizationScope :=
  if byte = 1 then some .maker
  else if byte = 2 then some .taker
  else if byte = 3 then some .joint
  else none

def TradeDirection.ofByte : Option TradeDirection :=
  if byte = 1 then some .takerBuys
  else if byte = 2 then some .takerSells
  else none

section Decode

variable (codec : WireCodec P library quorum)

def takeBytes (count : ℕ) (name : String) : Reader Error Bytes :=
  take (fun _ => .truncated name) count

def kind {K : Type} (ofByte : UInt8 → Option K) (name : String) (error : Error) :
    Reader Error K :=
  decoded (takeBytes 1 name) (fun raw => raw.head?.bind ofByte) error

def id (name : String) : Reader Error Digest32 := digest fun _ => .truncated name

def sequence (name : String) : Reader Error UInt64 := word fun _ => .truncated name

def point (name : String) : Reader Error P :=
  decoded (takeBytes 32 name) codec.decompress (.invalidPoint name)

def readKinds : Reader Error (OperationKind × AuthorizationScope × TradeDirection) := do
  let operation ← kind OperationKind.ofByte "operation" .invalidOperation
  let scope ← kind AuthorizationScope.ofByte "scope" .invalidScope
  let direction ← kind TradeDirection.ofByte "direction" .invalidDirection
  pure (operation, scope, direction)

/-- The venue, the ledger and the handles of a context. -/
def readParties : Reader Error (Digest32 × Digest32 × P × P × P) := do
  let venueId ← id "venue id"
  let defmiId ← id "DeFMI id"
  let makerHandle ← point codec "maker handle"
  let takerHandle ← point codec "taker handle"
  let reserveHandle ← point codec "reserve handle"
  pure (venueId, defmiId, makerHandle, takerHandle, reserveHandle)

def readReservations : Reader Error (Digest32 × UInt64 × Digest32 × UInt64) := do
  let makerReservationId ← id "Maker reservation id"
  let makerReservationSequence ← sequence "Maker reservation sequence"
  let takerReservationId ← id "Taker reservation id"
  let takerReservationSequence ← sequence "Taker reservation sequence"
  pure (makerReservationId, makerReservationSequence, takerReservationId, takerReservationSequence)

def readMandates : Reader Error (Digest32 × Digest32 × Digest32 × Digest32) := do
  let rfqNullifier ← id "RFQ nullifier"
  let takerMandateDigest ← id "Taker mandate digest"
  let makerPolicyDigest ← id "Maker policy digest"
  let makerMandateDigest ← id "Maker mandate digest"
  pure (rfqNullifier, takerMandateDigest, makerPolicyDigest, makerMandateDigest)

def readEvidence : Reader Error (Digest32 × Digest32 × Digest32 × Digest32 × Digest32) := do
  let makerReserveReceiptDigest ← id "Maker reserve receipt digest"
  let takerReserveReceiptDigest ← id "Taker reserve receipt digest"
  let quoteProofDigest ← id "quote proof digest"
  let marketStatementDigest ← id "market statement digest"
  let beforeStateRoot ← id "before state root"
  pure (makerReserveReceiptDigest, takerReserveReceiptDigest, quoteProofDigest,
    marketStatementDigest, beforeStateRoot)

def readContext : Reader Error (ExecutionContext P) := do
  let kinds ← readKinds
  let parties ← readParties codec
  let reservations ← readReservations
  let mandates ← readMandates
  let evidence ← readEvidence
  pure {
    operation := kinds.1
    scope := kinds.2.1
    direction := kinds.2.2
    venueId := parties.1
    defmiId := parties.2.1
    makerHandle := parties.2.2.1
    takerHandle := parties.2.2.2.1
    reserveHandle := parties.2.2.2.2
    makerReservationId := reservations.1
    makerReservationSequence := reservations.2.1
    takerReservationId := reservations.2.2.1
    takerReservationSequence := reservations.2.2.2
    rfqNullifier := mandates.1
    takerMandateDigest := mandates.2.1
    makerPolicyDigest := mandates.2.2.1
    makerMandateDigest := mandates.2.2.2
    makerReserveReceiptDigest := evidence.1
    takerReserveReceiptDigest := evidence.2.1
    quoteProofDigest := evidence.2.2.1
    marketStatementDigest := evidence.2.2.2.1
    beforeStateRoot := evidence.2.2.2.2 }

def readAuthorization (wire : ℕ) (payment : Instruction P library quorum) :
    Reader Error (Option quorum.QuorumApproval) :=
  if wire = hybridVersion then do
    failIf (payment.pqApproval.isNone) .invalidBase
    let length ← number (fun _ => .truncated "PQ authorization length") 4
    let approval ← decoded (takeBytes length "PQ authorization") codec.decodeApproval
      .invalidSignature
    pure (some approval)
  else do
    failIf (payment.pqApproval.isSome) .invalidBase
    pure none

/-- The payment behind its length. -/
def readBase : Reader Error (Instruction P library quorum) := do
  let baseLength ← number (fun _ => .truncated "base length") 4
  failIf (maxBaseBytes < baseLength) .oversizedBase
  let base ← takeBytes baseLength "base instruction"
  given ((PaymentWire.decode codec base).mapError fun _ => .invalidBase)

def readInstruction : Reader Error (TypedInstruction P library quorum) := do
  let start ← takeBytes 8 "magic"
  failIf (start ≠ magic) .wrongMagic
  let wire ← number (fun _ => .truncated "version") 2
  failIf (wire ≠ version ∧ wire ≠ hybridVersion) (.unknownVersion wire)
  let payment ← readBase codec
  let context ← readContext codec
  let authorization ← decoded (takeBytes 64 "authorization") codec.deserializeSignature
    .invalidSignature
  let pqAuthorization ← readAuthorization codec wire payment
  pure ⟨payment, context, authorization, pqAuthorization⟩

def decode [DecidableEq P] (bytes : Bytes) : Except Error (TypedInstruction P library quorum) := do
  let instruction ← whole (readInstruction codec) .trailing bytes
  (instruction.context.validateAgainst instruction.payment).mapError fun _ => .invalidContext
  .ok instruction

end Decode

/-! ## What each reader takes -/

variable {bytes rest : Bytes}

theorem kind_ok {K : Type} {ofByte : UInt8 → Option K} {toByte : K → UInt8}
    (h : ∀ byte value, ofByte byte = some value ↔ byte = toByte value) {name : String}
    {error : Error} {value : K} :
    kind ofByte name error bytes = .ok (value, rest) ↔ bytes = [toByte value] ++ rest := by
  simp only [kind, takeBytes, decoded_ok, take_ok]
  constructor
  · rintro ⟨_, ⟨rfl, hlength⟩, hvalue⟩
    obtain ⟨byte, rfl⟩ := length_eq_one_iff.mp hlength
    rw [(h byte value).mp hvalue]
  · rintro rfl
    exact ⟨[toByte value], ⟨rfl, rfl⟩, (h _ value).mpr rfl⟩

theorem operation_ofByte :
    OperationKind.ofByte byte = some value ↔ byte = value.toByte := by
  constructor
  · intro h
    unfold OperationKind.ofByte at h
    split_ifs at h with h1 h2 h3 h4 <;> cases h <;> assumption
  · rintro rfl
    cases value <;> rfl

theorem scope_ofByte :
    AuthorizationScope.ofByte byte = some value ↔ byte = value.toByte := by
  constructor
  · intro h
    unfold AuthorizationScope.ofByte at h
    split_ifs at h with h1 h2 h3 <;> cases h <;> assumption
  · rintro rfl
    cases value <;> rfl

theorem direction_ofByte :
    TradeDirection.ofByte byte = some value ↔ byte = value.toByte := by
  constructor
  · intro h
    unfold TradeDirection.ofByte at h
    split_ifs at h with h1 h2 <;> cases h <;> assumption
  · rintro rfl
    cases value <;> rfl

section Reads

variable {codec : WireCodec P library quorum}

theorem readKinds_ok {value : OperationKind × AuthorizationScope × TradeDirection} :
    readKinds bytes = .ok (value, rest) ↔
      bytes = [value.1.toByte] ++ ([value.2.1.toByte] ++ ([value.2.2.toByte] ++ rest)) := by
  simp only [readKinds, read_bind_ok, read_pure_ok, kind_ok operation_ofByte,
    kind_ok scope_ofByte, kind_ok direction_ofByte]
  constructor
  · rintro ⟨_, _, rfl, _, _, rfl, _, _, rfl, rfl, rfl⟩
    rfl
  · rintro rfl
    exact ⟨_, _, rfl, _, _, rfl, _, _, rfl, rfl, rfl⟩

theorem readReservations_ok : readReservations bytes = .ok (value, rest) ↔
      bytes = value.1.toList ++ (beBytes 8 value.2.1.toNat ++ (value.2.2.1.toList ++
        (beBytes 8 value.2.2.2.toNat ++ rest))) := by
  simp only [readReservations, id, sequence, read_bind_ok, read_pure_ok, digest_ok, word_ok]
  constructor
  · rintro ⟨_, _, rfl, _, _, rfl, _, _, rfl, _, _, rfl, rfl, rfl⟩
    rfl
  · rintro rfl
    exact ⟨_, _, rfl, _, _, rfl, _, _, rfl, _, _, rfl, rfl, rfl⟩

theorem readMandates_ok : readMandates bytes = .ok (value, rest) ↔
      bytes = value.1.toList ++ (value.2.1.toList ++ (value.2.2.1.toList ++
        (value.2.2.2.toList ++ rest))) := by
  simp only [readMandates, id, read_bind_ok, read_pure_ok, digest_ok]
  constructor
  · rintro ⟨_, _, rfl, _, _, rfl, _, _, rfl, _, _, rfl, rfl, rfl⟩
    rfl
  · rintro rfl
    exact ⟨_, _, rfl, _, _, rfl, _, _, rfl, _, _, rfl, rfl, rfl⟩

theorem readEvidence_ok : readEvidence bytes = .ok (value, rest) ↔
      bytes = value.1.toList ++ (value.2.1.toList ++ (value.2.2.1.toList ++
        (value.2.2.2.1.toList ++ (value.2.2.2.2.toList ++ rest)))) := by
  simp only [readEvidence, id, read_bind_ok, read_pure_ok, digest_ok]
  constructor
  · rintro ⟨_, _, rfl, _, _, rfl, _, _, rfl, _, _, rfl, _, _, rfl, rfl, rfl⟩
    rfl
  · rintro rfl
    exact ⟨_, _, rfl, _, _, rfl, _, _, rfl, _, _, rfl, _, _, rfl, rfl, rfl⟩

theorem appendContext_eq :
    appendContext codec context ++ rest =
      [context.operation.toByte] ++ ([context.scope.toByte] ++ ([context.direction.toByte] ++
      (context.venueId.toList ++ (context.defmiId.toList ++ (codec.compress context.makerHandle ++
      (codec.compress context.takerHandle ++ (codec.compress context.reserveHandle ++
      (context.makerReservationId.toList ++ (beBytes 8 context.makerReservationSequence.toNat ++
      (context.takerReservationId.toList ++ (beBytes 8 context.takerReservationSequence.toNat ++
      (context.rfqNullifier.toList ++ (context.takerMandateDigest.toList ++
      (context.makerPolicyDigest.toList ++ (context.makerMandateDigest.toList ++
      (context.makerReserveReceiptDigest.toList ++ (context.takerReserveReceiptDigest.toList ++
      (context.quoteProofDigest.toList ++ (context.marketStatementDigest.toList ++
      (context.beforeStateRoot.toList ++ rest)))))))))))))))))))) := by
  unfold appendContext
  simp

theorem typedVersion_cases (pqAuthorization : Option quorum.QuorumApproval) :
    typedVersion pqAuthorization = version ∨ typedVersion pqAuthorization = hybridVersion := by
  cases pqAuthorization with
  | none => exact .inl rfl
  | some => exact .inr rfl

theorem magic_length : magic.length = 8 := by decide +kernel

variable (hcodec : codec.Canonical)

include hcodec

theorem point_ok :
    point codec name bytes = .ok (value, rest) ↔ bytes = codec.compress value ++ rest :=
  taken_ok fun raw => hcodec.point raw value

theorem readParties_ok : readParties codec bytes = .ok (value, rest) ↔
      bytes = value.1.toList ++ (value.2.1.toList ++ (codec.compress value.2.2.1 ++
        (codec.compress value.2.2.2.1 ++ (codec.compress value.2.2.2.2 ++ rest)))) := by
  simp only [readParties, id, read_bind_ok, read_pure_ok, digest_ok, point_ok hcodec]
  constructor
  · rintro ⟨_, _, rfl, _, _, rfl, _, _, rfl, _, _, rfl, _, _, rfl, rfl, rfl⟩
    rfl
  · rintro rfl
    exact ⟨_, _, rfl, _, _, rfl, _, _, rfl, _, _, rfl, _, _, rfl, rfl, rfl⟩

theorem readContext_ok : readContext codec bytes = .ok (context, rest) ↔
      bytes = appendContext codec context ++ rest := by
  rw [appendContext_eq]
  simp only [readContext, read_bind_ok, read_pure_ok, readKinds_ok, readParties_ok hcodec,
    readReservations_ok, readMandates_ok, readEvidence_ok]
  constructor
  · rintro ⟨_, _, rfl, _, _, rfl, _, _, rfl, _, _, rfl, _, _, rfl, rfl, rfl⟩
    rfl
  · rintro rfl
    exact ⟨(_, _, _), _, rfl, (_, _, _, _, _), _, rfl, (_, _, _, _), _, rfl, (_, _, _, _), _, rfl,
      (_, _, _, _, _), _, rfl, rfl, rfl⟩

variable {payment : Instruction P library quorum}

theorem readBase_ok :
    readBase codec bytes = .ok (payment, rest) ↔
      PaymentWire.WellFormed codec payment ∧ ∃ base, PaymentWire.encode codec payment = some base ∧
        base.length ≤ maxBaseBytes ∧ bytes = framed base ++ rest := by
  have hdecode : ∀ base, (PaymentWire.decode codec base).mapError (fun _ => Error.invalidBase) =
      .ok payment ↔ PaymentWire.WellFormed codec payment ∧
        PaymentWire.encode codec payment = some base := by
    intro base
    rw [← PaymentWire.decodeNested_ok hcodec]
    change _ ↔ PaymentWire.decode codec base = .ok payment
    cases PaymentWire.decode codec base with
    | error => simp only [Except.mapError, reduceCtorEq]
    | ok => simp only [Except.mapError, Except.ok.injEq]
  simp only [readBase, takeBytes, read_bind_ok, failIf_ok, number_ok, take_ok, given_ok, hdecode,
    not_lt, framed]
  constructor
  · rintro ⟨_, _, ⟨rfl, _⟩, _, _, ⟨hsize, rfl⟩, base, _, ⟨rfl, rfl⟩, ⟨hformed, hencode⟩, rfl⟩
    exact ⟨hformed, base, hencode, hsize, by rw [append_assoc]⟩
  · rintro ⟨hformed, base, hencode, hsize, rfl⟩
    have hfits : base.length < 256 ^ 4 := lt_of_le_of_lt hsize (by decide)
    exact ⟨_, _, ⟨by rw [append_assoc], hfits⟩, (), _, ⟨hsize, rfl⟩, base, _, ⟨rfl, rfl⟩,
      ⟨hformed, hencode⟩, rfl⟩

/-- The second approval is read in the version that belongs to it, if the payment has one too. -/
theorem readAuthorization_ok (hwire : wire = version ∨ wire = hybridVersion) :
    readAuthorization codec wire payment bytes = .ok (pqAuthorization, rest) ↔
      typedVersion pqAuthorization = wire ∧
        pqAuthorization.isSome = payment.pqApproval.isSome ∧
        ∃ raw, encodeAuthorization codec pqAuthorization = some raw ∧ bytes = raw ++ rest := by
  obtain rfl | rfl := hwire
  · rw [readAuthorization, if_neg (by decide)]
    simp only [read_bind_ok, failIf_ok, read_pure_ok, Bool.not_eq_true]
    constructor
    · rintro ⟨_, _, ⟨hnone, rfl⟩, rfl, rfl⟩
      exact ⟨rfl, hnone.symm, [], rfl, rfl⟩
    · rintro ⟨hversion, hpair, raw, hraw, rfl⟩
      cases pqAuthorization with
      | none =>
        cases hraw
        exact ⟨(), rest, ⟨hpair.symm, rfl⟩, rfl, rfl⟩
      | some => cases hversion
  · rw [readAuthorization, if_pos rfl]
    simp only [takeBytes, read_bind_ok, failIf_ok, number_ok, decoded_ok, take_ok, hcodec.approval,
      read_pure_ok]
    constructor
    · rintro ⟨_, _, ⟨hsome, rfl⟩, _, _, ⟨rfl, _⟩, approval, _, ⟨pq, ⟨rfl, rfl⟩, hpq⟩, rfl, rfl⟩
      refine ⟨rfl, ?_, framed pq, ?_, ?_⟩
      · rw [isSome_some, eq_comm, isSome_iff_ne_none]
        exact fun hnone => hsome (by rw [hnone]; rfl)
      · rw [encodeAuthorization, hpq]
        rfl
      · rw [framed, append_assoc]
    · rintro ⟨hversion, hpair, _, hraw, rfl⟩
      cases pqAuthorization with
      | none => cases hversion
      | some approval =>
        obtain ⟨pq, hpq, rfl⟩ := map_eq_some_iff.mp hraw
        have hsome : ¬ payment.pqApproval.isNone = true := by
          rw [isNone_iff_eq_none, ← ne_eq, ← isSome_iff_ne_none, ← hpair]
          rfl
        exact ⟨(), _, ⟨hsome, rfl⟩, _, _, ⟨by rw [framed, append_assoc],
          hcodec.approval_size _ _ hpq⟩, approval, _, ⟨pq, ⟨rfl, rfl⟩, hpq⟩, rfl, rfl⟩

/-- The payment is well formed and not oversized, and approved exactly if the typed instruction
is. -/
structure Paired (codec : WireCodec P library quorum)
    (instruction : TypedInstruction P library quorum) : Prop where
  payment : PaymentWire.WellFormed codec instruction.payment
  approvals : instruction.pqAuthorization.isSome = instruction.payment.pqApproval.isSome

variable {instruction : TypedInstruction P library quorum}

theorem readInstruction_ok :
    readInstruction codec bytes = .ok (instruction, []) ↔
      Paired codec instruction ∧
        (∃ base, PaymentWire.encode codec instruction.payment = some base ∧
          base.length ≤ maxBaseBytes) ∧
        encode codec instruction = some bytes := by
  simp only [readInstruction, takeBytes, read_bind_ok, failIf_ok, take_ok, number_ok, decoded_ok,
    readBase_ok hcodec, readContext_ok hcodec, read_pure_ok, not_not]
  constructor
  · rintro ⟨_, _, ⟨hstart, -⟩, _, _, ⟨hmagic, rfl⟩, wire, _, ⟨rfl, -⟩, _, _, ⟨hknown, rfl⟩,
      _, _, ⟨hformed, base, hbase, hsize, rfl⟩, _, _, hcontext, _, _,
      ⟨raw, ⟨hraw, hlength⟩, hsignature⟩, _, _, hpq, hinstruction, rfl⟩
    cases hinstruction
    have hversion : wire = version ∨ wire = hybridVersion := by
      by_contra hother
      exact hknown (not_or.mp hother)
    obtain ⟨rfl, hpair, rawPq, hrawPq, hrest⟩ := (readAuthorization_ok hcodec hversion).mp hpq
    refine ⟨⟨hformed, hpair⟩, ⟨base, hbase, hsize⟩, ?_⟩
    rw [encode, hbase, (hcodec.signature _ _).mp ⟨hlength, hsignature⟩, hrawPq, hstart, hmagic,
      hcontext, hraw, hrest]
    simp
  · rintro ⟨⟨hformed, hpair⟩, ⟨base, hbase, hsize⟩, hbytes⟩
    obtain ⟨_, hbase', hbytes⟩ := bind_eq_some_iff.mp hbytes
    obtain rfl := some.inj (hbase.symm.trans hbase')
    obtain ⟨raw, hraw, hbytes⟩ := bind_eq_some_iff.mp hbytes
    obtain ⟨rawPq, hrawPq, hbytes⟩ := bind_eq_some_iff.mp hbytes
    obtain ⟨hlength, hsignature⟩ := (hcodec.signature _ _).mpr hraw
    have hversion := typedVersion_cases instruction.pqAuthorization
    have hsmall : typedVersion instruction.pqAuthorization < 256 ^ 2 := by
      obtain hequal | hequal := hversion <;> rw [hequal] <;> decide
    cases hbytes
    simp only [append_assoc]
    exact ⟨_, _, ⟨rfl, magic_length⟩, (), _, ⟨rfl, rfl⟩, _, _, ⟨rfl, hsmall⟩, (), _,
      ⟨fun hother => hversion.elim hother.1 hother.2, rfl⟩, instruction.payment, _,
      ⟨hformed, base, hbase, hsize, rfl⟩, instruction.context, _, rfl, instruction.authorization, _,
      ⟨raw, ⟨rfl, hlength⟩, hsignature⟩, instruction.pqAuthorization, [],
      (readAuthorization_ok hcodec hversion).mpr
        ⟨rfl, hpair, rawPq, hrawPq, (append_nil rawPq).symm⟩, rfl, rfl⟩

theorem decode_ok [DecidableEq P] :
    decode codec bytes = .ok instruction ↔
      (Paired codec instruction ∧
        instruction.context.validateAgainst instruction.payment = .ok ()) ∧
      (∃ base, PaymentWire.encode codec instruction.payment = some base ∧
        base.length ≤ maxBaseBytes) ∧
      encode codec instruction = some bytes := by
  have hvalid : ∀ (result : Except String Unit),
      (result.mapError fun _ => Error.invalidContext) = .ok () ↔ result = .ok () := by
    intro result
    cases result with
    | error => simp only [Except.mapError, reduceCtorEq]
    | ok => simp only [Except.mapError]
  unfold decode
  rw [bind_ok]
  constructor
  · rintro ⟨_, hvalue, h⟩
    obtain ⟨_, hcontext, h⟩ := bind_ok.mp h
    cases h
    obtain ⟨hpaired, hbase, hbytes⟩ := (readInstruction_ok hcodec).mp (whole_ok.mp hvalue)
    exact ⟨⟨hpaired, (hvalid _).mp hcontext⟩, hbase, hbytes⟩
  · rintro ⟨⟨hpaired, hcontext⟩, hbase, hbytes⟩
    exact ⟨instruction, whole_ok.mpr ((readInstruction_ok hcodec).mpr ⟨hpaired, hbase, hbytes⟩),
      bind_ok.mpr ⟨(), (hvalid _).mpr hcontext, rfl⟩⟩

end Reads

/-- The version field of an encoding. -/
def wireOf (bytes : Bytes) : Bytes := (bytes.drop 8).take 2

theorem wireOf_encode {codec : WireCodec P library quorum}
    {instruction : TypedInstruction P library quorum} (h : encode codec instruction = some bytes) :
    wireOf bytes = beBytes 2 (typedVersion instruction.pqAuthorization) := by
  obtain ⟨_, _, h⟩ := bind_eq_some_iff.mp h
  obtain ⟨_, _, h⟩ := bind_eq_some_iff.mp h
  obtain ⟨_, _, h⟩ := bind_eq_some_iff.mp h
  cases h
  simp only [wireOf, append_assoc]
  rw [drop_left' magic_length, take_left' (beBytes_length _ _)]

/-- Assuming canonical encodings of the libraries: a typed instruction that encoding accepts and
whose payment takes at most a mebibyte is decoded from its encoding exactly if the payment is well
formed, the payment is approved exactly if the typed instruction is, and the context fits the
payment; every byte string that decodes is the encoding of the instruction, whose context fits its
payment, and is of the hybrid format exactly if both approvals are there. -/
theorem typed_wire_roundtrip [DecidableEq P] {codec : WireCodec P library quorum}
    (hcodec : codec.Canonical) :
    (∀ (instruction : TypedInstruction P library quorum) (bytes base : Bytes),
      encode codec instruction = some bytes →
      PaymentWire.encode codec instruction.payment = some base → base.length ≤ 2 ^ 20 →
      (decode codec bytes = .ok instruction ↔ Paired codec instruction ∧
        instruction.context.validateAgainst instruction.payment = .ok ())) ∧
    ∀ (bytes : Bytes) (instruction : TypedInstruction P library quorum),
      decode codec bytes = .ok instruction →
      encode codec instruction = some bytes ∧
        instruction.context.validateAgainst instruction.payment = .ok () ∧
        (wireOf bytes = beBytes 2 hybridVersion ↔
          instruction.payment.pqApproval.isSome = true ∧
            instruction.pqAuthorization.isSome = true) := by
  refine ⟨fun instruction bytes base hbytes hbase hsize => ?_, fun bytes instruction hdecode => ?_⟩
  · rw [decode_ok hcodec]
    exact and_iff_left ⟨⟨base, hbase, hsize⟩, hbytes⟩
  · obtain ⟨⟨hpaired, hcontext⟩, _, hbytes⟩ := (decode_ok hcodec).mp hdecode
    refine ⟨hbytes, hcontext, ?_⟩
    rw [wireOf_encode hbytes, ← hpaired.approvals, and_self]
    cases instruction.pqAuthorization with
    | none =>
      have hformats : beBytes 2 version ≠ beBytes 2 hybridVersion := by decide
      exact iff_of_false hformats Bool.false_ne_true
    | some => exact iff_of_true rfl rfl

/-! ## Two instructions -/

def plainTyped (makerHandle : Digest32) : TypedInstruction Digest32 plainRanges plainQuorum where
  payment := plainPayment (.legacyPackedKey 7)
  context :=
    { operation := .settle
      scope := .joint
      direction := .takerBuys
      venueId := repeated 1
      defmiId := repeated 1
      makerHandle := makerHandle
      takerHandle := repeated 4
      reserveHandle := repeated 9
      makerReservationId := repeated 1
      makerReservationSequence := 1
      takerReservationId := repeated 1
      takerReservationSequence := 1
      rfqNullifier := repeated 1
      takerMandateDigest := repeated 1
      makerPolicyDigest := repeated 1
      makerMandateDigest := repeated 1
      makerReserveReceiptDigest := repeated 1
      takerReserveReceiptDigest := repeated 1
      quoteProofDigest := repeated 1
      marketStatementDigest := repeated 1
      beforeStateRoot := repeated 1 }
  authorization := ()
  pqAuthorization := none

theorem plainPayment_encoded :
    ∃ base, PaymentWire.encode PaymentWire.plainCodec (plainPayment (.legacyPackedKey 7)) =
      some base ∧ base.length ≤ 2 ^ 20 := by
  refine ⟨_, rfl, ?_⟩
  decide +kernel

/-- A settlement of a Maker with itself has an encoding, whose payment takes less than a mebibyte,
and does not decode. -/
theorem unfit_context_refused :
    ∃ bytes base, encode PaymentWire.plainCodec (plainTyped (repeated 4)) = some bytes ∧
      PaymentWire.encode PaymentWire.plainCodec (plainTyped (repeated 4)).payment = some base ∧
      base.length ≤ 2 ^ 20 ∧
      decode PaymentWire.plainCodec bytes ≠ .ok (plainTyped (repeated 4)) := by
  obtain ⟨base, hbase, hsize⟩ := plainPayment_encoded
  refine ⟨_, base, rfl, hbase, hsize, fun hdecode => ?_⟩
  obtain ⟨⟨_, hcontext⟩, _⟩ := (decode_ok PaymentWire.plainCodec_canonical).mp hdecode
  have hrefused : ((plainTyped (repeated 4)).context.validateAgainst
      (plainTyped (repeated 4)).payment).isOk = false := by decide +kernel
  rw [hcontext] at hrefused
  cases hrefused

/-- A settlement between two parties is decoded from its encoding. -/
theorem plain_settlement_decoded :
    ∃ bytes, encode PaymentWire.plainCodec (plainTyped (repeated 5)) = some bytes ∧
      decode PaymentWire.plainCodec bytes = .ok (plainTyped (repeated 5)) := by
  obtain ⟨base, hbase, hsize⟩ := plainPayment_encoded
  refine ⟨_, rfl, ((typed_wire_roundtrip PaymentWire.plainCodec_canonical).1 _ _ base rfl hbase
    hsize).mpr ⟨⟨⟨rfl, ⟨by decide, ?_⟩, ?_⟩, rfl⟩, ?_⟩⟩
  · intro commitment hmem
    cases hmem
  · intro hsome
    cases hsome
  · decide +kernel

/-- A settlement of a payment that was signed for a packed key is accepted with either of two quote
proofs in its context. -/
theorem legacy_settlement_names_any_proof :
    ({ (plainTyped (repeated 5)).context with quoteProofDigest := repeated 1 }).validateAgainst
        (plainTyped (repeated 5)).payment = .ok () ∧
    ({ (plainTyped (repeated 5)).context with quoteProofDigest := repeated 2 }).validateAgainst
        (plainTyped (repeated 5)).payment = .ok () ∧ repeated 1 ≠ repeated 2 := by
  decide +kernel

theorem proved_settlement_names_its_proof :
    (plainTyped (repeated 5)).context.quoteProofDigest = repeated 1 := by
  have haccepted : (plainTyped (repeated 5)).context.validateAgainst
      (plainPayment (.proofDigest (repeated 1))) = .ok () := by decide +kernel
  exact (settlement_context_fits (.inr rfl) haccepted).2.2.2 _ rfl

end Zkpi.TypedWire
