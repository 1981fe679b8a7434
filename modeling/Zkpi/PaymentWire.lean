import Zkpi.ByteReaders
import Zkpi.SignedStatements

/-!
# The bytes of a payment instruction

An instruction travels in one of three versions. The first carries a packed quote key and two
bulletproofs, the second the digest of a quote proof and two range proofs assembled by a quorum.
The third wraps one of them together with a post-quantum approval. Encoding and decoding are
inverse to each other on all instructions that have an encoding and on all byte strings that decode,
and a wrapped instruction never wraps another one.
-/

namespace Zkpi.PaymentWire

open ScalarField ByteText FallibleChecks ByteReaders PedersenSigma AggregatedRanges List Option
open ThresholdRange PaymentInstruction
open SignedStatements (plainRanges plainQuorum plainPayment)

structure WireCodec (P : Type) (library : Bulletproofs P) (quorum : QuorumLibrary) where
  compress : P → Bytes
  decompress : Bytes → Option P
  scalarToBytes : Scalar → Bytes
  scalarFromCanonicalBytes : Bytes → Option Scalar
  proofToBytes : library.RangeProof → Bytes
  proofFromBytes : Bytes → Option library.RangeProof
  serializeSignature : quorum.Signature → Option Bytes
  deserializeSignature : Bytes → Option quorum.Signature
  encodeApproval : quorum.QuorumApproval → Option Bytes
  decodeApproval : Bytes → Option quorum.QuorumApproval

variable {P : Type} {library : Bulletproofs P} {quorum : QuorumLibrary}

/-- Documented behaviour of the libraries: every value has one encoding, only that encoding
decodes to it, points and scalars take thirty-two bytes and signatures sixty-four, and the size of
a proof or an approval fits its length field. -/
structure WireCodec.Canonical (codec : WireCodec P library quorum) : Prop where
  point : ∀ bytes point, bytes.length = 32 ∧ codec.decompress bytes = some point ↔
    bytes = codec.compress point
  scalar : ∀ bytes scalar, bytes.length = 32 ∧ codec.scalarFromCanonicalBytes bytes = some scalar ↔
    bytes = codec.scalarToBytes scalar
  proof : ∀ bytes proof, codec.proofFromBytes bytes = some proof ↔
    bytes = codec.proofToBytes proof
  proof_size : ∀ proof, (codec.proofToBytes proof).length < 256 ^ 4
  signature : ∀ bytes signature,
    bytes.length = 64 ∧ codec.deserializeSignature bytes = some signature ↔
      codec.serializeSignature signature = some bytes
  signature_total : ∀ signature, (codec.serializeSignature signature).isSome
  approval : ∀ bytes approval, codec.decodeApproval bytes = some approval ↔
    codec.encodeApproval approval = some bytes
  approval_total : ∀ approval, (codec.encodeApproval approval).isSome
  approval_size : ∀ approval bytes, codec.encodeApproval approval = some bytes →
    bytes.length < 256 ^ 4

/-! ## Encoding -/

def magic : Bytes := utf8 "QOMMZKPI"

def legacyVersion : ℕ := 1

def version : ℕ := 2

def hybridVersion : ℕ := 3

def framed (bytes : Bytes) : Bytes := beBytes 4 bytes.length ++ bytes

section Encode

variable (codec : WireCodec P library quorum)

def encodeBit (bit : P × ProductProof P) : Bytes :=
  codec.compress bit.1 ++ codec.compress bit.2.tFactor ++ codec.compress bit.2.tProduct ++
    codec.scalarToBytes bit.2.zB ++ codec.scalarToBytes bit.2.zRb ++ codec.scalarToBytes bit.2.zS

/-- A width that does not fit its field is aborted. -/
def encodeThresholdRange (proof : ThresholdRangeProof P) : Option Bytes :=
  if proof.bits < 256 ^ 2 then
    some (beBytes 2 proof.bits ++
      (proof.bitCommitments.zip proof.bitProofs).flatMap (encodeBit codec) ++
      (codec.compress proof.linkage.t ++ codec.scalarToBytes proof.linkage.zValue ++
        codec.scalarToBytes proof.linkage.zBlinding))
  else none

def wireVersion : RangeEvidence P library → QuoteBinding → Option ℕ
  | .bulletproof _ _ _, .legacyPackedKey _ => some legacyVersion
  | .threshold _ _, .proofDigest _ => some version
  | _, _ => none

def encodeBinding : QuoteBinding → Bytes
  | .legacyPackedKey value => beBytes 8 value.toNat
  | .proofDigest value => value.toList

def encodeRanges : RangeEvidence P library → Option Bytes
  | .bulletproof amount price commitments =>
    some (beBytes 2 commitments.length ++ commitments.flatMap id ++
      framed (codec.proofToBytes amount) ++ framed (codec.proofToBytes price))
  | .threshold amount price => do
    let amount ← encodeThresholdRange codec amount
    let price ← encodeThresholdRange codec price
    some (framed amount ++ framed price)

variable (instruction : Instruction P library quorum)

def encodeBody : Option Bytes := do
  let signature ← codec.serializeSignature instruction.signature
  let ranges ← encodeRanges codec instruction.ranges
  some (codec.compress instruction.amountCommitment ++
    codec.compress instruction.priceCommitment ++ codec.compress instruction.assetCommitment ++
    codec.compress instruction.payerHandle ++ codec.compress instruction.payeeHandle ++
    beBytes 8 instruction.deadline.toNat ++ instruction.nonce.toList ++
    encodeBinding instruction.quoteBinding ++ signature ++ ranges)

def encodeClassical : Option Bytes := do
  let version ← wireVersion instruction.ranges instruction.quoteBinding
  let body ← encodeBody codec instruction
  some (magic ++ beBytes 2 version ++ body)

def encode : Option Bytes := do
  let classical ← encodeClassical codec instruction
  match instruction.pqApproval with
  | none => some classical
  | some approval => do
    let pq ← codec.encodeApproval approval
    some (magic ++ beBytes 2 hybridVersion ++ framed classical ++ framed pq)

end Encode

/-! ## Decoding -/

inductive WireError where
  | notAnInstruction
  | unknownVersion (version : ℕ)
  | truncated (wanted had : ℕ) (place : String)
  | notAPoint (what : String)
  | badScalar (what : String)
  | badSignature
  | trailing (count : ℕ)
deriving DecidableEq

section Decode

variable (codec : WireCodec P library quorum)

def takeBytes (count : ℕ) (what : String) : Reader WireError Bytes :=
  take (fun had => .truncated count had what) count

variable (what : String)

def point : Reader WireError P :=
  decoded (takeBytes 32 what) codec.decompress (.notAPoint what)

def scalar : Reader WireError Scalar :=
  decoded (takeBytes 32 what) codec.scalarFromCanonicalBytes (.badScalar what)

def u64 : Reader WireError UInt64 :=
  word fun had => .truncated 8 had what

def u32 : Reader WireError ℕ :=
  number (fun had => .truncated 4 had what) 4

def u16 : Reader WireError ℕ :=
  number (fun had => .truncated 2 had what) 2

/-- Thirty-two bytes as they are. -/
def bytes32 : Reader WireError Digest32 :=
  digest fun had => .truncated 32 had what

def readBit : Reader WireError (P × ProductProof P) := do
  let commitment ← point codec "threshold bit commitment"
  let tFactor ← point codec "threshold bit factor nonce"
  let tProduct ← point codec "threshold bit product nonce"
  let zB ← scalar codec "threshold bit value response"
  let zRb ← scalar codec "threshold bit blinding response"
  let zS ← scalar codec "threshold bit relation response"
  pure (commitment, ⟨tFactor, tProduct, zB, zRb, zS⟩)

def readThresholdRange : Reader WireError (ThresholdRangeProof P) := do
  let bits ← u16 "threshold range width"
  let items ← many (readBit codec) bits
  let t ← point codec "threshold range linkage nonce"
  let zValue ← scalar codec "threshold range linkage value response"
  let zBlinding ← scalar codec "threshold range linkage blinding response"
  pure ⟨items.map Prod.fst, items.map Prod.snd, ⟨t, zValue, zBlinding⟩, bits⟩

def decodeThresholdRange (raw : Bytes) : Except WireError (ThresholdRangeProof P) :=
  whole (readThresholdRange codec) .trailing raw

def readBinding (wire : ℕ) : Reader WireError QuoteBinding :=
  if wire = legacyVersion then do
    let value ← u64 "quote key"
    pure (.legacyPackedKey value)
  else do
    let value ← bytes32 "quote proof digest"
    pure (.proofDigest value)

/-- A bulletproof behind its length. -/
def readProof : Reader WireError library.RangeProof := do
  let length ← u32 what
  decoded (takeBytes length what) codec.proofFromBytes (.notAPoint what)

def readFramedRange : Reader WireError (ThresholdRangeProof P) := do
  let length ← u32 what
  let raw ← takeBytes length what
  given (decodeThresholdRange codec raw)

def readRanges (wire : ℕ) : Reader WireError (RangeEvidence P library) :=
  if wire = legacyVersion then do
    let count ← u16 "range commitment count"
    let commitments ← many (takeBytes 32 "range commitment") count
    let amount ← readProof codec "amount range proof"
    let price ← readProof codec "price range proof"
    pure (.bulletproof amount price commitments)
  else do
    let amount ← readFramedRange codec "threshold amount range proof"
    let price ← readFramedRange codec "threshold price range proof"
    pure (.threshold amount price)

def readClassical (wire : ℕ) : Reader WireError (Instruction P library quorum) := do
  let amountCommitment ← point codec "amount commitment"
  let priceCommitment ← point codec "price commitment"
  let assetCommitment ← point codec "asset commitment"
  let payerHandle ← point codec "payer handle"
  let payeeHandle ← point codec "payee handle"
  let deadline ← u64 "deadline"
  let nonce ← bytes32 "nonce"
  let quoteBinding ← readBinding wire
  let signature ← decoded (takeBytes 64 "signature") codec.deserializeSignature .badSignature
  let ranges ← readRanges codec wire
  pure ⟨amountCommitment, priceCommitment, assetCommitment, ranges, payerHandle, payeeHandle,
    deadline, nonce, quoteBinding, signature, none⟩

def classicalBody (body : Bytes) : Bool :=
  10 ≤ body.length && ((body.drop 8).take 2 = beBytes 2 legacyVersion ||
    (body.drop 8).take 2 = beBytes 2 version)

def readHybrid (inner : Bytes → Except WireError (Instruction P library quorum)) :
    Reader WireError (Instruction P library quorum) := do
  let length ← u32 "classical instruction length"
  failIf (2 ^ 20 < length) .badSignature
  let body ← takeBytes length "classical instruction"
  failIf (¬ classicalBody body) .badSignature
  let instruction ← given (inner body)
  let pqLength ← u32 "PQ approval length"
  let approval ← decoded (takeBytes pqLength "PQ approval") codec.decodeApproval .badSignature
  pure { instruction with pqApproval := some approval }

/-- The magic and the version. -/
def readHeader : Reader WireError ℕ := do
  let start ← takeBytes 8 "magic"
  failIf (start ≠ magic) .notAnInstruction
  u16 "version"

def readInstruction (inner : Bytes → Except WireError (Instruction P library quorum)) :
    Reader WireError (Instruction P library quorum) := do
  let wire ← readHeader
  if wire = hybridVersion then readHybrid codec inner
  else do
    failIf (wire ≠ legacyVersion ∧ wire ≠ version) (.unknownVersion wire)
    readClassical codec wire

def decodeNested : ℕ → Bytes → Except WireError (Instruction P library quorum)
  | 0, _ => .error .badSignature
  | depth + 1, bytes => whole (readInstruction codec (decodeNested depth)) .trailing bytes

/-- Decode an instruction. The body of a wrapped instruction is shorter than the instruction, so the
recursion ends within the bound. -/
def decode (bytes : Bytes) : Except WireError (Instruction P library quorum) :=
  decodeNested codec (bytes.length + 2) bytes

end Decode

/-! ## Well-formed instructions -/

def wellSized (proof : ThresholdRangeProof P) : Prop :=
  proof.bits < 256 ^ 2 ∧ proof.bitCommitments.length = proof.bits ∧
    proof.bitProofs.length = proof.bits

/-- The counts of range evidence are those of its proofs and fit their fields, and commitments have
the size of points. -/
def RangesWellFormed : RangeEvidence P library → Prop
  | .bulletproof _ _ commitments =>
    commitments.length < 256 ^ 2 ∧ ∀ commitment ∈ commitments, commitment.length = 32
  | .threshold amount price => wellSized amount ∧ wellSized price

/-- Evidence and quote belong to one version, the counts of the evidence fit, and the classical body
of a wrapped instruction is at most a mebibyte. -/
structure WellFormed (codec : WireCodec P library quorum)
    (instruction : Instruction P library quorum) : Prop where
  versions : (wireVersion instruction.ranges instruction.quoteBinding).isSome
  ranges : RangesWellFormed instruction.ranges
  classical : instruction.pqApproval.isSome → ∀ bytes,
    encodeClassical codec instruction = some bytes → bytes.length ≤ 2 ^ 20

def bindingVersion : QuoteBinding → ℕ
  | .legacyPackedKey _ => legacyVersion
  | .proofDigest _ => version

def rangesVersion : RangeEvidence P library → ℕ
  | .bulletproof _ _ _ => legacyVersion
  | .threshold _ _ => version

theorem wireVersion_eq_some {ranges : RangeEvidence P library} {quoteBinding : QuoteBinding}
    {wire : ℕ} : wireVersion ranges quoteBinding = some wire ↔
      rangesVersion ranges = wire ∧ bindingVersion quoteBinding = wire := by
  cases ranges <;> cases quoteBinding <;>
    simp [wireVersion, rangesVersion, bindingVersion, legacyVersion, version] <;> omega

/-! ## What each reader takes -/

section Reads

variable {codec : WireCodec P library quorum} {bytes rest : Bytes}
variable {wire : ℕ} {ranges : RangeEvidence P library} {instruction : Instruction P library quorum}

theorem readBinding_ok (hwire : wire = legacyVersion ∨ wire = version) :
    readBinding wire bytes = .ok (value, rest) ↔
      bytes = encodeBinding value ++ rest ∧ bindingVersion value = wire := by
  obtain rfl | rfl := hwire
  · rw [readBinding, if_pos rfl]
    simp only [u64, read_bind_ok, word_ok, read_pure_ok]
    constructor
    · rintro ⟨key, _, rfl, rfl, rfl⟩
      exact ⟨rfl, rfl⟩
    · rintro ⟨rfl, hversion⟩
      cases value with
      | legacyPackedKey key => exact ⟨key, rest, rfl, rfl, rfl⟩
      | proofDigest => cases hversion
  · rw [readBinding, if_neg (by decide)]
    simp only [bytes32, read_bind_ok, digest_ok, read_pure_ok]
    constructor
    · rintro ⟨digest, _, rfl, rfl, rfl⟩
      exact ⟨rfl, rfl⟩
    · rintro ⟨rfl, hversion⟩
      cases value with
      | legacyPackedKey => cases hversion
      | proofDigest digest => exact ⟨digest, rest, rfl, rfl, rfl⟩

theorem encodeBody_eq {signature ranges : Bytes}
    (hsignature : codec.serializeSignature instruction.signature = some signature)
    (hranges : encodeRanges codec instruction.ranges = some ranges) :
    encodeBody codec instruction = some (codec.compress instruction.amountCommitment ++
      codec.compress instruction.priceCommitment ++ codec.compress instruction.assetCommitment ++
      codec.compress instruction.payerHandle ++ codec.compress instruction.payeeHandle ++
      beBytes 8 instruction.deadline.toNat ++ instruction.nonce.toList ++
      encodeBinding instruction.quoteBinding ++ signature ++ ranges) := by
  rw [encodeBody, hsignature, hranges]
  rfl

theorem magic_length : magic.length = 8 := by decide +kernel

theorem readHeader_ok :
    readHeader bytes = .ok (wire, rest) ↔
      bytes = magic ++ (beBytes 2 wire ++ rest) ∧ wire < 256 ^ 2 := by
  simp only [readHeader, takeBytes, u16, read_bind_ok, failIf_ok, take_ok, number_ok, not_not]
  constructor
  · rintro ⟨_, _, ⟨rfl, _⟩, _, _, ⟨rfl, rfl⟩, rfl, hwire⟩
    exact ⟨rfl, hwire⟩
  · rintro ⟨rfl, hwire⟩
    exact ⟨magic, _, ⟨rfl, magic_length⟩, (), _, ⟨rfl, rfl⟩, rfl, hwire⟩

theorem encodeClassical_eq_some :
    encodeClassical codec instruction = some bytes ↔
      ∃ wire body, wireVersion instruction.ranges instruction.quoteBinding = some wire ∧
        encodeBody codec instruction = some body ∧ bytes = magic ++ (beBytes 2 wire ++ body) := by
  simp only [encodeClassical, bind_eq_bind, bind_eq_some_iff, some.injEq,
    append_assoc]
  constructor
  · rintro ⟨wire, hwire, body, hbody, rfl⟩
    exact ⟨wire, body, hwire, hbody, rfl⟩
  · rintro ⟨wire, body, hwire, hbody, rfl⟩
    exact ⟨wire, hwire, body, hbody, rfl⟩

theorem wireVersion_cases {quoteBinding : QuoteBinding}
    (h : wireVersion ranges quoteBinding = some wire) :
    wire = legacyVersion ∨ wire = version := by
  obtain ⟨hranges, _⟩ := wireVersion_eq_some.mp h
  cases ranges with
  | bulletproof => exact .inl hranges.symm
  | threshold => exact .inr hranges.symm

def Classical (codec : WireCodec P library quorum) (instruction : Instruction P library quorum)
    (bytes : Bytes) : Prop :=
  RangesWellFormed instruction.ranges ∧ encodeClassical codec instruction = some bytes

theorem classicalBody_of_encode (h : encodeClassical codec instruction = some bytes) :
    classicalBody bytes = true := by
  obtain ⟨wire, body, hwire, _, rfl⟩ := encodeClassical_eq_some.mp h
  have hdrop : ((magic ++ (beBytes 2 wire ++ body)).drop 8).take 2 = beBytes 2 wire := by
    rw [drop_left' magic_length, take_left' (beBytes_length 2 wire)]
  have hlength : 10 ≤ (magic ++ (beBytes 2 wire ++ body)).length := by
    rw [length_append, length_append, magic_length, beBytes_length]
    omega
  rw [classicalBody, hdrop, decide_eq_true hlength, Bool.true_and, Bool.or_eq_true,
    decide_eq_true_eq, decide_eq_true_eq]
  obtain rfl | rfl := wireVersion_cases hwire
  · exact .inl rfl
  · exact .inr rfl

theorem not_classicalBody_hybrid (rest : Bytes) :
    classicalBody (magic ++ (beBytes 2 hybridVersion ++ rest)) = false := by
  have hdrop : ((magic ++ (beBytes 2 hybridVersion ++ rest)).drop 8).take 2 =
      beBytes 2 hybridVersion := by
    rw [drop_left' magic_length, take_left' (beBytes_length 2 hybridVersion)]
  have hlegacy : beBytes 2 hybridVersion ≠ beBytes 2 legacyVersion := by decide
  have hversion : beBytes 2 hybridVersion ≠ beBytes 2 version := by decide
  rw [classicalBody, hdrop, decide_eq_false hlegacy, decide_eq_false hversion, Bool.or_self,
    Bool.and_false]

theorem encode_eq_some :
    encode codec instruction = some bytes ↔
      (instruction.pqApproval = none ∧ encodeClassical codec instruction = some bytes) ∨
      ∃ classical approval pq, instruction.pqApproval = some approval ∧
        encodeClassical codec instruction = some classical ∧
        codec.encodeApproval approval = some pq ∧
        bytes = magic ++ beBytes 2 hybridVersion ++ framed classical ++ framed pq := by
  rw [encode]
  cases hpq : instruction.pqApproval with
  | none =>
    simp
  | some approval =>
    simp only [bind_eq_bind, bind_eq_some_iff, some.injEq, reduceCtorEq,
      false_and, false_or]
    constructor
    · rintro ⟨classical, hclassical, pq, hencoded, rfl⟩
      exact ⟨classical, approval, pq, rfl, hclassical, hencoded, rfl⟩
    · rintro ⟨classical, _, pq, rfl, hclassical, hencoded, rfl⟩
      exact ⟨classical, hclassical, pq, hencoded, rfl⟩

theorem encodeClassical_versions (h : encodeClassical codec instruction = some bytes) :
    (wireVersion instruction.ranges instruction.quoteBinding).isSome = true := by
  obtain ⟨_, _, hwire, _⟩ := encodeClassical_eq_some.mp h
  rw [hwire]
  rfl

variable (hcodec : codec.Canonical)

include hcodec

theorem point_ok :
    point codec what bytes = .ok (value, rest) ↔ bytes = codec.compress value ++ rest :=
  taken_ok fun raw => hcodec.point raw value

theorem scalar_ok :
    scalar codec what bytes = .ok (value, rest) ↔ bytes = codec.scalarToBytes value ++ rest :=
  taken_ok fun raw => hcodec.scalar raw value

theorem readBit_ok :
    readBit codec bytes = .ok (bit, rest) ↔ bytes = encodeBit codec bit ++ rest ∧ True := by
  simp only [readBit, read_bind_ok, read_pure_ok, point_ok hcodec, scalar_ok hcodec, encodeBit]
  constructor
  · rintro ⟨_, _, rfl, _, _, rfl, _, _, rfl, _, _, rfl, _, _, rfl, _, _, rfl, rfl, rfl⟩
    simp
  · rintro ⟨rfl, _⟩
    simp only [append_assoc]
    exact ⟨_, _, rfl, _, _, rfl, _, _, rfl, _, _, rfl, _, _, rfl, _, _, rfl, rfl, rfl⟩

theorem readThresholdRange_ok :
    readThresholdRange codec bytes = .ok (proof, rest) ↔
      wellSized proof ∧ ∃ raw, encodeThresholdRange codec proof = some raw ∧
        bytes = raw ++ rest := by
  simp only [readThresholdRange, u16, read_bind_ok, read_pure_ok, number_ok,
    many_ok (readBit_ok hcodec), point_ok hcodec, scalar_ok hcodec]
  constructor
  · rintro ⟨bits, _, ⟨rfl, hbits⟩, items, _, ⟨rfl, rfl, _⟩, t, _, rfl, zValue, _, rfl, zBlinding, _,
      rfl, rfl, rfl⟩
    refine ⟨⟨hbits, length_map _, length_map _⟩, _, if_pos hbits, ?_⟩
    rw [← zip_of_prod rfl rfl]
    simp
  · rintro ⟨⟨hbits, hcommitments, hproofs⟩, raw, hraw, rfl⟩
    rw [encodeThresholdRange, if_pos hbits] at hraw
    cases hraw
    have hlengths : proof.bitCommitments.length = proof.bitProofs.length := by
      rw [hcommitments, hproofs]
    refine ⟨proof.bits, _, ⟨by simp, hbits⟩,
      proof.bitCommitments.zip proof.bitProofs, _,
      ⟨rfl, by rw [length_zip, hcommitments, hproofs, Nat.min_self], fun _ _ => trivial⟩,
      proof.linkage.t, _, rfl, proof.linkage.zValue, _, rfl, proof.linkage.zBlinding, _, rfl, ?_,
      rfl⟩
    rw [map_fst_zip hlengths.le, map_snd_zip hlengths.ge]

theorem decodeThresholdRange_ok :
    decodeThresholdRange codec raw = .ok proof ↔
      wellSized proof ∧ encodeThresholdRange codec proof = some raw := by
  rw [decodeThresholdRange, whole_ok, readThresholdRange_ok hcodec]
  simp only [append_nil]
  constructor
  · rintro ⟨hsized, _, hraw, rfl⟩
    exact ⟨hsized, hraw⟩
  · rintro ⟨hsized, hraw⟩
    exact ⟨hsized, raw, hraw, rfl⟩

theorem encodeBit_length (bit : P × ProductProof P) : (encodeBit codec bit).length = 192 := by
  have hpoint : ∀ point, (codec.compress point).length = 32 := fun point =>
    ((hcodec.point _ point).mpr rfl).1
  have hscalar : ∀ scalar, (codec.scalarToBytes scalar).length = 32 := fun scalar =>
    ((hcodec.scalar _ scalar).mpr rfl).1
  simp [encodeBit, hpoint, hscalar]

theorem encodeThresholdRange_size (hsized : wellSized proof)
    (h : encodeThresholdRange codec proof = some raw) : raw.length < 256 ^ 4 := by
  obtain ⟨hbits, hcommitments, hproofs⟩ := hsized
  rw [encodeThresholdRange, if_pos hbits] at h
  cases h
  have hitems : ((proof.bitCommitments.zip proof.bitProofs).flatMap (encodeBit codec)).length =
      proof.bits * 192 := by
    have hsum : ∀ items : List (P × ProductProof P),
        (items.flatMap (encodeBit codec)).length = items.length * 192 := by
      intro items
      induction items with
      | nil => rfl
      | cons item rest ih =>
        rw [flatMap_cons, length_append, encodeBit_length hcodec, ih, length_cons]
        omega
    rw [hsum, length_zip, hcommitments, hproofs, Nat.min_self]
  simp only [length_append, hitems, beBytes_length, ((hcodec.point _ _).mpr rfl).1,
    ((hcodec.scalar _ _).mpr rfl).1]
  omega

theorem readProof_ok {proof : library.RangeProof} :
    readProof codec what bytes = .ok (proof, rest) ↔
      bytes = framed (codec.proofToBytes proof) ++ rest := by
  simp only [readProof, u32, takeBytes, read_bind_ok, number_ok, decoded_ok, take_ok, hcodec.proof,
    framed]
  constructor
  · rintro ⟨_, _, ⟨rfl, _⟩, _, ⟨rfl, rfl⟩, rfl⟩
    rw [append_assoc]
  · rintro rfl
    exact ⟨_, _, ⟨by rw [append_assoc], hcodec.proof_size proof⟩, _, ⟨rfl, rfl⟩, rfl⟩

theorem readFramedRange_ok :
    readFramedRange codec what bytes = .ok (proof, rest) ↔
      wellSized proof ∧ ∃ raw, encodeThresholdRange codec proof = some raw ∧
        bytes = framed raw ++ rest := by
  simp only [readFramedRange, u32, takeBytes, read_bind_ok, number_ok, take_ok, given_ok,
    decodeThresholdRange_ok hcodec, framed]
  constructor
  · rintro ⟨_, _, ⟨rfl, _⟩, raw, _, ⟨rfl, rfl⟩, ⟨hsized, hraw⟩, rfl⟩
    exact ⟨hsized, raw, hraw, by rw [append_assoc]⟩
  · rintro ⟨hsized, raw, hraw, rfl⟩
    exact ⟨_, _, ⟨by rw [append_assoc], encodeThresholdRange_size hcodec hsized hraw⟩, raw, _,
      ⟨rfl, rfl⟩, ⟨hsized, hraw⟩, rfl⟩

theorem readRanges_ok (hwire : wire = legacyVersion ∨ wire = version) :
    readRanges codec wire bytes = .ok (ranges, rest) ↔
      RangesWellFormed ranges ∧ rangesVersion ranges = wire ∧
        ∃ raw, encodeRanges codec ranges = some raw ∧ bytes = raw ++ rest := by
  have hcommitment : ∀ {bytes value rest}, takeBytes 32 "range commitment" bytes =
      .ok (value, rest) ↔ bytes = id value ++ rest ∧ value.length = 32 := take_ok
  obtain rfl | rfl := hwire
  · rw [readRanges, if_pos rfl]
    simp only [u16, read_bind_ok, number_ok, many_ok hcommitment, readProof_ok hcodec, read_pure_ok]
    constructor
    · rintro ⟨_, _, ⟨rfl, hcount⟩, commitments, _, ⟨rfl, rfl, hall⟩, amount, _, rfl, price, _, rfl,
        rfl, rfl⟩
      exact ⟨⟨hcount, hall⟩, rfl, _, rfl, by simp⟩
    · rintro ⟨hformed, hversion, raw, hraw, rfl⟩
      cases ranges with
      | bulletproof amount price commitments =>
        cases hraw
        exact ⟨_, _, ⟨by simp, hformed.1⟩, commitments, _,
          ⟨rfl, rfl, hformed.2⟩, amount, _, rfl, price, _, rfl, rfl, rfl⟩
      | threshold => cases hversion
  · rw [readRanges, if_neg (by decide)]
    simp only [read_bind_ok, readFramedRange_ok hcodec, read_pure_ok]
    constructor
    · rintro ⟨amount, _, ⟨hamount, rawAmount, hrawAmount, rfl⟩, price, _,
        ⟨hprice, rawPrice, hrawPrice, rfl⟩, rfl, rfl⟩
      refine ⟨⟨hamount, hprice⟩, rfl, framed rawAmount ++ framed rawPrice, ?_, ?_⟩
      · rw [encodeRanges, hrawAmount, hrawPrice]
        rfl
      · rw [append_assoc]
    · rintro ⟨hformed, hversion, _, hraw, rfl⟩
      cases ranges with
      | bulletproof => cases hversion
      | threshold amount price =>
        obtain ⟨rawAmount, hrawAmount, hraw⟩ := bind_eq_some_iff.mp hraw
        obtain ⟨rawPrice, hrawPrice, hraw⟩ := bind_eq_some_iff.mp hraw
        cases hraw
        exact ⟨amount, _, ⟨hformed.1, rawAmount, hrawAmount, by rw [append_assoc]⟩, price, _,
          ⟨hformed.2, rawPrice, hrawPrice, rfl⟩, rfl, rfl⟩

/-- A classical reader takes exactly the bodies of well-formed instructions of its version without
an approval. -/
theorem readClassical_ok (hwire : wire = legacyVersion ∨ wire = version) :
    readClassical codec wire bytes = .ok (instruction, rest) ↔
      RangesWellFormed instruction.ranges ∧
        wireVersion instruction.ranges instruction.quoteBinding = some wire ∧
        instruction.pqApproval = none ∧
        ∃ body, encodeBody codec instruction = some body ∧ bytes = body ++ rest := by
  simp only [readClassical, u64, bytes32, takeBytes, read_bind_ok, read_pure_ok, point_ok hcodec,
    word_ok, digest_ok, readBinding_ok hwire, decoded_ok, take_ok, readRanges_ok hcodec hwire,
    wireVersion_eq_some]
  constructor
  · rintro ⟨_, _, rfl, _, _, rfl, _, _, rfl, _, _, rfl, _, _, rfl, _, _,
      rfl, _, _, rfl, _, _, ⟨rfl, hbinding⟩, _, _,
      ⟨rawSignature, ⟨rfl, hlength⟩, hsignature⟩, _, _,
      ⟨hformed, hversion, rawRanges, hranges, rfl⟩, rfl, rfl⟩
    refine ⟨hformed, ⟨hversion, hbinding⟩, rfl, _,
      encodeBody_eq ((hcodec.signature _ _).mp ⟨hlength, hsignature⟩) hranges, ?_⟩
    simp
  · rintro ⟨hformed, ⟨hversion, hbinding⟩, hnone, _, hbody, rfl⟩
    obtain ⟨rawSignature, hsignature, hbody⟩ := bind_eq_some_iff.mp hbody
    obtain ⟨rawRanges, hranges, hbody⟩ := bind_eq_some_iff.mp hbody
    cases hbody
    obtain ⟨hlength, hsignature⟩ := (hcodec.signature _ _).mpr hsignature
    simp only [append_assoc]
    refine ⟨_, _, rfl, _, _, rfl, _, _, rfl, _, _, rfl, _, _, rfl, _, _, rfl, _, _, rfl, _, _,
      ⟨rfl, hbinding⟩, _, _, ⟨rawSignature, ⟨rfl, hlength⟩, hsignature⟩, _, _,
      ⟨hformed, hversion, rawRanges, hranges, rfl⟩, ?_, rfl⟩
    rw [← hnone]

/-- What reading a whole instruction takes: a classical instruction, or a wrapped one whose body
the inner decoder takes. -/
theorem whole_readInstruction_ok {inner : Bytes → Except WireError (Instruction P library quorum)} :
    whole (readInstruction codec inner) .trailing bytes = .ok instruction ↔
      (instruction.pqApproval = none ∧ Classical codec instruction bytes) ∨
      ∃ body wrapped approval pq, body.length ≤ 2 ^ 20 ∧ classicalBody body = true ∧
        inner body = .ok wrapped ∧ codec.encodeApproval approval = some pq ∧
        instruction = { wrapped with pqApproval := some approval } ∧
        bytes = magic ++ beBytes 2 hybridVersion ++ framed body ++ framed pq := by
  rw [whole_ok, readInstruction]
  simp only [read_bind_ok, readHeader_ok]
  constructor
  · rintro ⟨wire, _, ⟨rfl, _⟩, h⟩
    split at h
    case isTrue hhybrid =>
      subst hhybrid
      simp only [readHybrid, u32, takeBytes, read_bind_ok, failIf_ok, number_ok, take_ok,
        given_ok, decoded_ok, hcodec.approval, read_pure_ok, not_not, not_lt] at h
      obtain ⟨_, _, ⟨rfl, _⟩, _, _, ⟨hlimit, rfl⟩, body, _, ⟨rfl, rfl⟩, _, _, ⟨hbody, rfl⟩, wrapped,
        _, ⟨hinner, rfl⟩, _, _, ⟨rfl, _⟩, approval, _, ⟨pq, ⟨rfl, rfl⟩, hpq⟩, rfl, rfl⟩ := h
      refine .inr ⟨body, wrapped, approval, pq, hlimit, hbody, hinner, hpq, rfl, ?_⟩
      simp [framed]
    case isFalse hclassical =>
      obtain ⟨_, _, hcheck, h⟩ := read_bind_ok.mp h
      obtain ⟨hversions, rfl⟩ := failIf_ok.mp hcheck
      have hversion : wire = legacyVersion ∨ wire = version := by
        by_contra hother
        exact hversions (not_or.mp hother)
      obtain ⟨hformed, hwireVersion, hnone, body, hbody, rfl⟩ :=
        (readClassical_ok hcodec hversion).mp h
      refine .inl ⟨hnone, hformed, encodeClassical_eq_some.mpr
        ⟨wire, body, hwireVersion, hbody, ?_⟩⟩
      rw [append_nil]
  · rintro (⟨hnone, hformed, hbytes⟩ | ⟨body, wrapped, approval, pq, hlimit, hbody, hinner, hpq,
      rfl, rfl⟩)
    · obtain ⟨wire, body, hwireVersion, hbody, rfl⟩ := encodeClassical_eq_some.mp hbytes
      have hversion := wireVersion_cases hwireVersion
      have hsmall : wire < 256 ^ 2 ∧ wire ≠ hybridVersion := by
        obtain rfl | rfl := hversion <;> decide
      refine ⟨wire, body, ⟨rfl, hsmall.1⟩, ?_⟩
      rw [if_neg hsmall.2]
      refine read_bind_ok.mpr ⟨(), body,
        failIf_ok.mpr ⟨fun hother => hversion.elim hother.1 hother.2, rfl⟩, ?_⟩
      exact (readClassical_ok hcodec hversion).mpr
        ⟨hformed, hwireVersion, hnone, body, hbody, (append_nil body).symm⟩
    · refine ⟨hybridVersion, framed body ++ framed pq,
        ⟨by simp, by decide⟩, ?_⟩
      rw [if_pos rfl]
      simp only [readHybrid, u32, takeBytes, read_bind_ok, failIf_ok, number_ok, take_ok,
        given_ok, decoded_ok, hcodec.approval, read_pure_ok, not_not, not_lt]
      have hsize : body.length < 256 ^ 4 := lt_of_le_of_lt hlimit (by decide)
      exact ⟨_, _, ⟨by simp [framed], hsize⟩, (), _, ⟨hlimit, rfl⟩, body, _,
        ⟨rfl, rfl⟩, (), _, ⟨hbody, rfl⟩, wrapped, _, ⟨hinner, rfl⟩, _, _,
        ⟨rfl, hcodec.approval_size _ _ hpq⟩, approval, _,
        ⟨pq, ⟨(append_nil pq).symm, rfl⟩, hpq⟩, rfl, rfl⟩

variable {depth : ℕ}

/-- The body of a wrapped instruction decodes to a classical one, however deep decoding may go. -/
theorem decodeNested_body_ok (hbody : classicalBody body = true) :
    decodeNested codec (depth + 1) body = .ok instruction ↔
      instruction.pqApproval = none ∧ Classical codec instruction body := by
  rw [decodeNested, whole_readInstruction_ok hcodec]
  refine or_iff_left ?_
  rintro ⟨_, _, _, _, _, _, _, _, _, rfl⟩
  rw [append_assoc, append_assoc, not_classicalBody_hybrid] at hbody
  cases hbody

theorem decodeNested_ok :
    decodeNested codec (depth + 2) bytes = .ok instruction ↔
      WellFormed codec instruction ∧ encode codec instruction = some bytes := by
  rw [decodeNested, whole_readInstruction_ok hcodec, encode_eq_some]
  constructor
  · rintro (⟨hnone, hformed, hencoded⟩ | ⟨body, wrapped, approval, pq, hlimit, hbody, hinner, hpq,
      rfl, rfl⟩)
    · refine ⟨⟨encodeClassical_versions hencoded, hformed, ?_⟩, .inl ⟨hnone, hencoded⟩⟩
      rw [hnone]
      exact fun hsome => nomatch hsome
    · obtain ⟨_, hformed, hencoded⟩ := (decodeNested_body_ok hcodec hbody).mp hinner
      refine ⟨⟨encodeClassical_versions hencoded, hformed, fun _ raw hraw => ?_⟩,
        .inr ⟨body, approval, pq, rfl, hencoded, hpq, rfl⟩⟩
      -- The classical encoding does not read the approval.
      change encodeClassical codec wrapped = some raw at hraw
      rw [hencoded] at hraw
      cases hraw
      exact hlimit
  · rintro ⟨hformed, ⟨hnone, hencoded⟩ | ⟨classical, approval, pq, happroval, hencoded, hpq, rfl⟩⟩
    · exact .inl ⟨hnone, hformed.ranges, hencoded⟩
    · have hbody := classicalBody_of_encode hencoded
      refine .inr ⟨classical, { instruction with pqApproval := none }, approval, pq,
        hformed.classical (by rw [happroval]; rfl) _ hencoded, hbody,
        (decodeNested_body_ok hcodec hbody).mpr ⟨rfl, hformed.ranges, hencoded⟩, hpq, ?_, rfl⟩
      rw [← happroval]

theorem encode_total (h : WellFormed codec instruction) :
    ∃ bytes, encode codec instruction = some bytes := by
  have hrange : ∀ proof : ThresholdRangeProof P, wellSized proof →
      ∃ raw, encodeThresholdRange codec proof = some raw := fun proof hsized =>
    ⟨_, if_pos hsized.1⟩
  have hranges : ∃ raw, encodeRanges codec instruction.ranges = some raw := by
    have hformed := h.ranges
    cases hcases : instruction.ranges with
    | bulletproof => exact ⟨_, rfl⟩
    | threshold amount price =>
      rw [hcases] at hformed
      obtain ⟨rawAmount, hamount⟩ := hrange amount hformed.1
      obtain ⟨rawPrice, hprice⟩ := hrange price hformed.2
      refine ⟨framed rawAmount ++ framed rawPrice, ?_⟩
      rw [encodeRanges, hamount, hprice]
      rfl
  obtain ⟨_, hrawRanges⟩ := hranges
  obtain ⟨_, hsignature⟩ := isSome_iff_exists.mp
    (hcodec.signature_total instruction.signature)
  obtain ⟨wire, hwire⟩ := isSome_iff_exists.mp h.versions
  have hclassical := encodeClassical_eq_some.mpr
    ⟨wire, _, hwire, encodeBody_eq hsignature hrawRanges, rfl⟩
  cases happroval : instruction.pqApproval with
  | none => exact ⟨_, encode_eq_some.mpr (.inl ⟨happroval, hclassical⟩)⟩
  | some approval =>
    obtain ⟨pq, hpq⟩ := isSome_iff_exists.mp (hcodec.approval_total approval)
    exact ⟨_, encode_eq_some.mpr (.inr ⟨_, approval, pq, happroval, hclassical, hpq, rfl⟩)⟩

end Reads

/-! ## The depth of the recursion -/

section Depth

variable (codec : WireCodec P library quorum)

theorem readInstruction_body (hbody : classicalBody body = true)
    (first second : Bytes → Except WireError (Instruction P library quorum)) :
    readInstruction codec first body = readInstruction codec second body := by
  change (readHeader body >>= _) = (readHeader body >>= _)
  cases hheader : readHeader body with
  | error => rfl
  | ok header =>
    obtain ⟨wire, rest⟩ := header
    obtain ⟨rfl, _⟩ := readHeader_ok.mp hheader
    change (if wire = hybridVersion then _ else _ : Reader WireError _) rest =
      (if wire = hybridVersion then _ else _ : Reader WireError _) rest
    by_cases hwire : wire = hybridVersion
    · subst hwire
      rw [not_classicalBody_hybrid] at hbody
      cases hbody
    · rw [if_neg hwire, if_neg hwire]

/-- A wrapped instruction asks the inner decoder about bodies with a classical version only. -/
theorem readHybrid_congr {first second : Bytes → Except WireError (Instruction P library quorum)}
    (h : ∀ body, classicalBody body = true → first body = second body) :
    readHybrid codec first = readHybrid codec second := by
  have hbody : ∀ body (next : Instruction P library quorum → Reader WireError
      (Instruction P library quorum)),
      (failIf (¬ classicalBody body) WireError.badSignature >>= fun _ =>
        given (first body) >>= next) =
      (failIf (¬ classicalBody body) WireError.badSignature >>= fun _ =>
        given (second body) >>= next) := by
    intro body _
    by_cases hclassical : classicalBody body = true
    · rw [h body hclassical]
    · rw [failIf, refuseIf, if_pos hclassical]
      rfl
  simp only [readHybrid, hbody]

theorem decodeNested_depth (depth : ℕ) (bytes : Bytes) :
    decodeNested codec (depth + 2) bytes = decodeNested codec 2 bytes := by
  have hinner : ∀ body, classicalBody body = true →
      decodeNested codec (depth + 1) body = decodeNested codec 1 body := by
    intro _ hbody
    rw [decodeNested, decodeNested, whole, whole, readInstruction_body codec hbody]
  rw [decodeNested, decodeNested, whole, whole, readInstruction, readInstruction,
    readHybrid_congr codec hinner]

end Depth

/-- Assuming canonical encodings of the libraries: every well-formed instruction has an encoding,
which decodes to it; every byte string that decodes is the encoding of the instruction, which is
well formed; and the body of a wrapped instruction is the only place where decoding calls itself. -/
theorem payment_wire_bijective {codec : WireCodec P library quorum} (hcodec : codec.Canonical) :
    (∀ instruction : Instruction P library quorum, WellFormed codec instruction →
      ∃ bytes, encode codec instruction = some bytes ∧ decode codec bytes = .ok instruction) ∧
    (∀ (bytes : Bytes) (instruction : Instruction P library quorum),
      decode codec bytes = .ok instruction →
        encode codec instruction = some bytes ∧ WellFormed codec instruction) ∧
    ∀ (depth : ℕ) (bytes : Bytes), decodeNested codec (depth + 2) bytes = decode codec bytes := by
  refine ⟨fun instruction hformed => ?_, fun bytes instruction hdecode => ?_,
    fun depth bytes => ?_⟩
  · obtain ⟨bytes, hbytes⟩ := encode_total hcodec hformed
    exact ⟨bytes, hbytes, (decodeNested_ok hcodec).mpr ⟨hformed, hbytes⟩⟩
  · obtain ⟨hformed, hbytes⟩ := (decodeNested_ok hcodec).mp hdecode
    exact ⟨hbytes, hformed⟩
  · rw [decode, decodeNested_depth codec depth, decodeNested_depth codec bytes.length]

/-! ## A codec -/

/-- Points that are their encodings, scalars as numbers, and proofs, signatures and approvals
without content. -/
def plainCodec : WireCodec Digest32 plainRanges plainQuorum where
  compress := List.Vector.toList
  decompress := fixed 32
  scalarToBytes value := beBytes 32 value.val
  scalarFromCanonicalBytes bytes :=
    if beNumber bytes < order then some (beNumber bytes : Scalar) else none
  proofToBytes _ := []
  proofFromBytes bytes := if bytes = [] then some () else none
  serializeSignature _ := some (replicate 64 0)
  deserializeSignature bytes := if bytes = replicate 64 0 then some () else none
  encodeApproval _ := some []
  decodeApproval bytes := if bytes = [] then some () else none

theorem only_from {raw bytes : Bytes} {value : Unit} :
    (if bytes = raw then some () else none) = some value ↔ bytes = raw := by
  by_cases h : bytes = raw <;> simp [h]

theorem plainCodec_canonical : plainCodec.Canonical where
  point bytes point := by
    change bytes.length = 32 ∧ fixed 32 bytes = some point ↔ bytes = point.toList
    rw [fixed_eq_some]
    exact ⟨fun h => h.2, fun h => ⟨h ▸ point.toList_length, h⟩⟩
  scalar bytes scalar := by
    change bytes.length = 32 ∧ (if beNumber bytes < order then some (beNumber bytes : Scalar)
      else none) = some scalar ↔ bytes = beBytes 32 scalar.val
    constructor
    · rintro ⟨hlength, hvalue⟩
      split at hvalue
      case isTrue hlt =>
        cases hvalue
        rw [ZMod.val_natCast_of_lt hlt, ← hlength, beBytes_beNumber]
      case isFalse => cases hvalue
    · rintro rfl
      have hlt : scalar.val < order := ZMod.val_lt scalar
      rw [beNumber_beBytes (hlt.trans (by decide +kernel)), if_pos hlt, ZMod.natCast_zmod_val]
      exact ⟨beBytes_length _ _, rfl⟩
  proof bytes proof := only_from
  proof_size _ := Nat.zero_lt_succ _
  signature bytes signature := by
    refine (and_congr_right fun _ => only_from).trans
      ⟨fun h => congrArg some h.2.symm, fun h => ?_⟩
    cases h
    exact ⟨length_replicate, rfl⟩
  signature_total _ := rfl
  approval bytes approval := (only_from).trans
    ⟨fun h => congrArg some h.symm, fun h => (some.inj h).symm⟩
  approval_total _ := rfl
  approval_size _ bytes h := by
    cases h
    exact Nat.zero_lt_succ _

/-- A wrapped payment of the first version is decoded from its encoding. -/
theorem wrapped_payment_decoded :
    ∃ bytes, encode plainCodec { plainPayment (.legacyPackedKey 7) with pqApproval := some () } =
        some bytes ∧
      decode plainCodec bytes =
        .ok { plainPayment (.legacyPackedKey 7) with pqApproval := some () } := by
  refine (payment_wire_bijective plainCodec_canonical).1 _ ⟨rfl, ⟨by decide, ?_⟩, ?_⟩
  · intro _ hmem
    cases hmem
  · intro _ _ hbytes
    cases hbytes
    decide +kernel

end Zkpi.PaymentWire
