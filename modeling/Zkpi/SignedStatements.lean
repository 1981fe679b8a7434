import Zkpi.TypedSettlement

/-!
# What is signed determines the instruction

A payment is signed under the hash of a statement: a tag, the domain with its length, the fields of
the payment one after the other, and the quote it came from, as a packed key or as a tagged digest.
Nothing after the domain has a length in front of it. The statement still determines the domain and
every field, because the two kinds of quote differ in size by less than a domain length can wrap.
A typed instruction is signed under a statement that is built from the digest of its payment.
-/

namespace Zkpi.SignedStatements

open ByteText PedersenSigma AggregatedRanges PaymentInstruction TypedSettlement List

variable {P : Type} {library : Bulletproofs P} {quorum : QuorumLibrary}
  (primitives : Primitives P)

/-! ## Statements -/

def QuoteBinding.updates : QuoteBinding → List Bytes
  | .legacyPackedKey value => [beBytes 8 value.toNat]
  | .proofDigest value => [utf8 "QOMM:QUOTE-PROOF-DIGEST:v1", value.toList]

def Instruction.updatesFor (instruction : Instruction P library quorum) (domain : Bytes) :
    List Bytes :=
  [utf8 "QOMM:ZKPI:v2", beBytes 8 domain.length, domain] ++
    [instruction.amountCommitment, instruction.priceCommitment, instruction.assetCommitment,
      instruction.payerHandle, instruction.payeeHandle].map primitives.compress ++
    [beBytes 8 instruction.deadline.toNat, instruction.nonce.toList] ++
    QuoteBinding.updates instruction.quoteBinding

def publicUpdatesFor (domain : Bytes) (amountCommitment priceCommitment assetCommitment payerHandle
    payeeHandle : P) (deadline : UInt64) (nonce : Digest32) (quoteBinding : QuoteBinding) :
    List Bytes :=
  [utf8 "QOMM:ZKPI:v2", beBytes 8 domain.length, domain] ++
    [amountCommitment, priceCommitment, assetCommitment, payerHandle, payeeHandle].map
      primitives.compress ++
    [beBytes 8 deadline.toNat, nonce.toList] ++ QuoteBinding.updates quoteBinding

variable (sha512 : Bytes → Digest64)

def typedUpdatesFor (payment : Instruction P library quorum) (context : ExecutionContext P)
    (domain : Bytes) : List Bytes :=
  [utf8 "QOMM:ZKPI:TYPED:v1", beBytes 8 domain.length, domain,
    (payment.digestFor primitives sha512 domain).toList,
    [context.operation.toByte, context.scope.toByte, context.direction.toByte],
    context.venueId.toList, context.defmiId.toList, primitives.compress context.makerHandle,
    primitives.compress context.takerHandle, primitives.compress context.reserveHandle,
    context.makerReservationId.toList, beBytes 8 context.makerReservationSequence.toNat,
    context.takerReservationId.toList, beBytes 8 context.takerReservationSequence.toNat,
    context.rfqNullifier.toList, context.takerMandateDigest.toList,
    context.makerPolicyDigest.toList, context.makerMandateDigest.toList,
    context.makerReserveReceiptDigest.toList, context.takerReserveReceiptDigest.toList,
    context.quoteProofDigest.toList, context.marketStatementDigest.toList,
    context.beforeStateRoot.toList]

def signedTerms (instruction : Instruction P library quorum) : PaymentTerms P :=
  ⟨instruction.amountCommitment, instruction.priceCommitment, instruction.assetCommitment,
    instruction.payerHandle, instruction.payeeHandle, instruction.deadline, instruction.nonce,
    instruction.quoteBinding⟩

theorem digestFor_eq (instruction : Instruction P library quorum) (domain : Bytes) :
    instruction.digestFor primitives sha512 domain =
      sha512 (Instruction.updatesFor primitives instruction domain).flatten := by
  have hbinding : ∀ binding,
      QuoteBinding.bytes binding = (QuoteBinding.updates binding).flatten := by
    intro binding
    cases binding <;> simp [QuoteBinding.bytes, QuoteBinding.updates]
  rw [Instruction.digestFor, digestPublicFieldsFor, hbinding, Instruction.updatesFor]
  simp

/-! ## Fixed sizes -/

/-- The encoding of group elements has a fixed size and tells them apart. -/
structure CanonicalPoints (primitives : Primitives P) : Prop where
  length : ∀ point, (primitives.compress point).length = 32
  injective : Function.Injective primitives.compress

/-- Lists of texts of the same sizes are equal if they read the same. -/
theorem updates_inj {first second : List Bytes} (h : first.flatten = second.flatten)
    (hlengths : first.map length = second.map length) : first = second :=
  eq_iff_flatten_eq.mpr ⟨h, hlengths⟩

theorem header_length : (utf8 "QOMM:ZKPI:v2").length = 12 := by decide +kernel

theorem quoteTag_length : (utf8 "QOMM:QUOTE-PROOF-DIGEST:v1").length = 26 := by decide +kernel

def bindingSize : QuoteBinding → ℕ
  | .legacyPackedKey _ => 8
  | .proofDigest _ => 58

variable {primitives}

theorem updatesFor_length (hpoints : CanonicalPoints primitives)
    (instruction : Instruction P library quorum) (domain : Bytes) :
    (Instruction.updatesFor primitives instruction domain).flatten.length =
      220 + domain.length + bindingSize instruction.quoteBinding := by
  have hbinding : ∀ binding,
      (QuoteBinding.updates binding).flatten.length = bindingSize binding := by
    intro binding
    cases binding <;> simp [QuoteBinding.updates, bindingSize, quoteTag_length]
  rw [Instruction.updatesFor, flatten_append, length_append, hbinding]
  simp only [flatten_append, flatten_cons, flatten_nil, map_cons, map_nil,
    append_nil, length_append, header_length, beBytes_length, hpoints.length,
    List.Vector.toList_length]
  omega

variable {a b : Instruction P library quorum} {domain domain' : Bytes}

theorem domain_length_mod
    (h : (Instruction.updatesFor primitives a domain).flatten = (Instruction.updatesFor primitives b
      domain').flatten) :
    domain.length % 256 ^ 8 = domain'.length % 256 ^ 8 := by
  simp only [Instruction.updatesFor, cons_append, flatten_cons] at h
  obtain ⟨_, h⟩ := append_inj h rfl
  obtain ⟨h, _⟩ := append_inj h (by rw [beBytes_length, beBytes_length])
  exact mod_eq_of_beBytes h

/-- The domains have one length and the quotes are of one kind: a packed key and a digest differ by
fifty bytes, which no multiple of two to the sixty-four makes up for. -/
theorem sizes_eq (hpoints : CanonicalPoints primitives)
    (h : (Instruction.updatesFor primitives a domain).flatten = (Instruction.updatesFor primitives b
      domain').flatten) :
    domain.length = domain'.length ∧
      bindingSize a.quoteBinding = bindingSize b.quoteBinding := by
  have hmod := domain_length_mod h
  have htotal := congrArg length h
  rw [updatesFor_length hpoints, updatesFor_length hpoints] at htotal
  have hbound : ∀ binding, bindingSize binding = 8 ∨ bindingSize binding = 58 := by
    intro binding
    cases binding
    · exact .inl rfl
    · exact .inr rfl
  have ha := hbound a.quoteBinding
  have hb := hbound b.quoteBinding
  omega

variable {first : QuoteBinding}

theorem updates_lengths (h : bindingSize first = bindingSize second) :
    (QuoteBinding.updates first).map length =
      (QuoteBinding.updates second).map length := by
  cases first <;> cases second
  · simp [QuoteBinding.updates]
  · cases h
  · cases h
  · simp [QuoteBinding.updates]

theorem binding_inj (h : QuoteBinding.updates first = QuoteBinding.updates second) :
    first = second := by
  cases first with
  | legacyPackedKey =>
    cases second with
    | legacyPackedKey => rw [toNat_inj_of_beBytes (List.cons.inj h).1]
    | proofDigest => cases (List.cons.inj h).2
  | proofDigest =>
    cases second with
    | legacyPackedKey => cases (List.cons.inj h).2
    | proofDigest => rw [List.Vector.toList_injective (List.cons.inj (List.cons.inj h).2).1]

theorem updatesFor_inj (hpoints : CanonicalPoints primitives)
    (h : (Instruction.updatesFor primitives a domain).flatten = (Instruction.updatesFor primitives b
      domain').flatten) :
    domain = domain' ∧ signedTerms a = signedTerms b := by
  obtain ⟨hdomain, hbinding⟩ := sizes_eq hpoints h
  have hupdates := updates_inj h (by
    simp only [Instruction.updatesFor, map_append, map_cons, map_nil,
      beBytes_length, hpoints.length, hdomain, List.Vector.toList_length,
      updates_lengths hbinding])
  simp only [Instruction.updatesFor, map_cons, map_nil, cons_append,
    nil_append, List.cons.injEq, true_and] at hupdates
  obtain ⟨_, hdomain, hamount, hprice, hasset, hpayer, hpayee, hdeadline, hnonce, hquote⟩ :=
    hupdates
  refine ⟨hdomain, ?_⟩
  rw [signedTerms, signedTerms, hpoints.injective hamount, hpoints.injective hprice,
    hpoints.injective hasset, hpoints.injective hpayer, hpoints.injective hpayee,
    toNat_inj_of_beBytes hdeadline, List.Vector.toList_injective hnonce, binding_inj hquote]

/-! ## Typed statements -/

variable {context context' : ExecutionContext P}

theorem typedUpdatesFor_inj (hpoints : CanonicalPoints primitives) (sha512 : Bytes → Digest64)
    (h : (typedUpdatesFor primitives sha512 payment context domain).flatten = (typedUpdatesFor
      primitives sha512 payment' context' domain').flatten) :
    domain = domain' ∧
      payment.digestFor primitives sha512 domain = payment'.digestFor primitives sha512 domain' ∧
      context = context' := by
  have hdomain : domain.length = domain'.length := by
    have htotal := congrArg length h
    simp only [typedUpdatesFor, flatten_cons, flatten_nil, length_append,
      beBytes_length, hpoints.length, List.Vector.toList_length, length_cons,
      length_nil] at htotal
    omega
  have hupdates := updates_inj h (by
    simp only [typedUpdatesFor, map_cons, map_nil, beBytes_length, hpoints.length,
      hdomain, List.Vector.toList_length, length_cons])
  simp only [typedUpdatesFor] at hupdates
  rw [List.cons.injEq, List.cons.injEq, List.cons.injEq, List.cons.injEq, List.cons.injEq]
    at hupdates
  obtain ⟨_, _, hdomain, hpayment, hkinds, hupdates⟩ := hupdates
  simp only [List.cons.injEq, and_true, List.Vector.toList_injective.eq_iff,
    hpoints.injective.eq_iff] at hkinds hupdates
  obtain ⟨hvenue, hdefmi, hmaker, htaker, hreserve, hmakerId, hmakerSequence, htakerId,
    htakerSequence, hdigests⟩ := hupdates
  refine ⟨hdomain, List.Vector.toList_injective hpayment, ?_⟩
  cases context
  cases context'
  simp only [ExecutionContext.mk.injEq]
  exact ⟨OperationKind.toByte_inj hkinds.1, AuthorizationScope.toByte_inj hkinds.2.1,
    TradeDirection.toByte_inj hkinds.2.2, hvenue, hdefmi, hmaker, htaker, hreserve, hmakerId,
    toNat_inj_of_beBytes hmakerSequence, htakerId, toNat_inj_of_beBytes htakerSequence, hdigests⟩

theorem foldl_append_eq (first : Bytes) (rest : List Bytes) :
    rest.foldl (· ++ ·) first = first ++ rest.flatten := by
  induction rest generalizing first with
  | nil => rw [flatten_nil, append_nil, foldl_nil]
  | cons next rest ih => rw [foldl_cons, ih, flatten_cons, append_assoc]

variable [DecidableEq P]

/-- The digest of a typed instruction is the hash of its statement, if the context fits. -/
theorem typed_digestFor_eq (payment : Instruction P library quorum) (context : ExecutionContext P)
    (domain : Bytes) :
    TypedSettlement.digestFor primitives sha512 payment context domain =
      (context.validateAgainst payment).map fun _ =>
        sha512 (typedUpdatesFor primitives sha512 payment context domain).flatten := by
  have hbytes : utf8 "QOMM:ZKPI:TYPED:v1" ++ beBytes 8 domain.length ++ domain ++
      (payment.digestFor primitives sha512 domain).toList ++ context.bytes primitives =
      (typedUpdatesFor primitives sha512 payment context domain).flatten := by
    have hcontext : context.bytes primitives =
        ((typedUpdatesFor primitives sha512 payment context domain).drop 5).foldl (· ++ ·)
          [context.operation.toByte, context.scope.toByte, context.direction.toByte] := rfl
    rw [hcontext, foldl_append_eq, append_assoc, append_assoc, append_assoc]
    rfl
  rw [TypedSettlement.digestFor, hbytes]
  cases context.validateAgainst payment <;> rfl

/-- The digest of an instruction, the digest of its public fields and the digest of a typed
instruction are hashes of statements, the first two of one statement. Equal payment statements, of
any two instructions for any two domains, have one domain and the same signed fields, the kind of
quote among them; equal typed statements have one domain, one payment digest and one context. -/
theorem signed_statements_determine (hpoints : CanonicalPoints primitives)
    (sha512 : Bytes → Digest64) :
    (∀ (instruction : Instruction P library quorum) (domain : Bytes),
      instruction.digestFor primitives sha512 domain =
        sha512 (Instruction.updatesFor primitives instruction domain).flatten ∧
      instruction.digestFor primitives sha512 domain = digestPublicFieldsFor primitives sha512
        domain instruction.amountCommitment instruction.priceCommitment
        instruction.assetCommitment instruction.payerHandle instruction.payeeHandle
        instruction.deadline instruction.nonce instruction.quoteBinding ∧
      Instruction.updatesFor primitives instruction domain = publicUpdatesFor primitives domain
        instruction.amountCommitment instruction.priceCommitment instruction.assetCommitment
        instruction.payerHandle instruction.payeeHandle instruction.deadline instruction.nonce
        instruction.quoteBinding) ∧
    (∀ (a b : Instruction P library quorum) (domain domain' : Bytes),
      (Instruction.updatesFor primitives a domain).flatten =
        (Instruction.updatesFor primitives b domain').flatten →
      domain = domain' ∧ signedTerms a = signedTerms b) ∧
    (∀ (payment : Instruction P library quorum) (context : ExecutionContext P) (domain : Bytes),
      TypedSettlement.digestFor primitives sha512 payment context domain =
        (context.validateAgainst payment).map fun _ =>
          sha512 (typedUpdatesFor primitives sha512 payment context domain).flatten) ∧
    ∀ (payment payment' : Instruction P library quorum) (context context' : ExecutionContext P)
      (domain domain' : Bytes),
      (typedUpdatesFor primitives sha512 payment context domain).flatten =
        (typedUpdatesFor primitives sha512 payment' context' domain').flatten →
      domain = domain' ∧
        payment.digestFor primitives sha512 domain =
          payment'.digestFor primitives sha512 domain' ∧
        context = context' :=
  ⟨fun instruction domain => ⟨digestFor_eq primitives sha512 instruction domain, rfl,
      rfl⟩,
    fun _ _ _ _ h => updatesFor_inj hpoints h,
    typed_digestFor_eq sha512, fun _ _ _ _ _ _ h => typedUpdatesFor_inj hpoints sha512 h⟩

/-! ## Two payments -/

/-- Points that are their encodings. -/
def plainPrimitives : Primitives Digest32 := ⟨List.Vector.toList, fun _ _ => 0⟩

theorem plainPrimitives_canonical : CanonicalPoints plainPrimitives :=
  ⟨List.Vector.toList_length, List.Vector.toList_injective⟩

def plainRanges : Bulletproofs Digest32 :=
  ⟨Unit, fun _ _ _ _ _ _ _ => none, fun _ _ _ _ _ _ => false⟩

/-- Keys, signatures and approvals without content. -/
def plainQuorum : QuorumLibrary where
  PublicKeyPackage := Unit
  serialize _ := none
  verifyingShares _ := []
  Signature := Unit
  verify _ _ _ := false
  KeyRecord := Unit
  validate _ := .ok ()
  QuorumApproval := Unit
  verifyApproval _ _ _ _ := false
  verifyArchivedSignatures _ _ _ := false

def plainPayment (quoteBinding : QuoteBinding) : Instruction Digest32 plainRanges plainQuorum where
  amountCommitment := repeated 1
  priceCommitment := repeated 2
  assetCommitment := repeated 3
  ranges := .bulletproof () () []
  payerHandle := repeated 4
  payeeHandle := repeated 5
  deadline := 600
  nonce := repeated 6
  quoteBinding := quoteBinding
  signature := ()
  pqApproval := none

/-- A packed key and a digest are signed under different statements. -/
theorem quote_kinds_apart :
    (Instruction.updatesFor plainPrimitives (plainPayment (.legacyPackedKey 0))
        defaultDomain).flatten ≠
      (Instruction.updatesFor plainPrimitives (plainPayment (.proofDigest zeroDigest))
        defaultDomain).flatten := by
  intro h
  obtain ⟨_, hterms⟩ := (signed_statements_determine plainPrimitives_canonical
    fun _ => List.Vector.replicate 64 0).2.1 _ _ _ _ h
  cases congrArg PaymentTerms.quoteBinding hterms

end Zkpi.SignedStatements
