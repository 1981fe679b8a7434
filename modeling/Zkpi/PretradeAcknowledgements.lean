import Zkpi.ProofPartyLibrary

/-!
# Pre-trade acknowledgements

A ledger acknowledges the reserves it holds for a trade by a signed list of bindings. What is
signed lists the bindings by party, owner index and direction, and refuses a repeated triple; a
lookup walks the stored list and asks for party, owner handle and direction. The signed bytes
determine the bindings up to their order. They determine every answer exactly when no two bindings
answer the same question.
-/

namespace Zkpi.PretradeAcknowledgements

open ByteText FallibleChecks TypedSettlement List
open ProofPartyLibrary (ReservationParty)

def partyByte : ReservationParty → UInt8
  | .maker => 1
  | .taker => 2

theorem partyByte_inj (h : partyByte a = partyByte b) : a = b := by
  cases a <;> cases b <;> first | rfl | cases h

structure PretradeReservationBinding where
  party : ReservationParty
  ownerIndex : UInt16
  direction : TradeDirection
  ownerHandle : Digest32
  facilityId : Digest32
  reserveId : Digest32
  mandateDigest : Digest32
  /-- Zero for a Taker; a Maker names its registered policy. -/
  policyDigest : Digest32
  amountCommitment : Digest32
  reserveReceiptDigest : Digest32
deriving DecidableEq

structure PretradeAcknowledgement where
  authorityDigest : Digest32
  defmiId : Digest32
  afterStateRoot : Digest32
  bindings : List PretradeReservationBinding
  signerPublic : Digest32

structure KeyLibrary where
  isVerifyingKey : Digest32 → Bool
  /-- The canonical encoding of a group element. -/
  isPoint : Digest32 → Bool

/-- A field that may not be zero. -/
def nonzero (value : Digest32) (name : String) : Except String Unit :=
  refuseIf (value = zeroDigest) s!"{name} cannot be zero"

namespace PretradeReservationBinding

def key (value : PretradeReservationBinding) : ℕ ×ₗ (ℕ ×ₗ ℕ) :=
  toLex ((partyByte value.party).toNat,
    toLex (value.ownerIndex.toNat, value.direction.toByte.toNat))

def check (lib : KeyLibrary) (value : PretradeReservationBinding) : Except String Unit := do
  nonzero value.ownerHandle "reservation owner handle"
  refuseIf (¬ lib.isPoint value.ownerHandle) "reservation owner handle is not canonical"
  [("facility id", value.facilityId), ("reserve id", value.reserveId),
    ("mandate digest", value.mandateDigest), ("amount commitment", value.amountCommitment),
    ("reserve receipt", value.reserveReceiptDigest)].forM fun entry => nonzero entry.2 entry.1
  refuseIf ((value.party = .maker) ≠ (value.policyDigest ≠ zeroDigest))
    "Maker/Taker policy binding is inconsistent"

def encode (value : PretradeReservationBinding) : Bytes :=
  [partyByte value.party] ++ beBytes 2 value.ownerIndex.toNat ++ [value.direction.toByte] ++
    value.ownerHandle.toList ++ value.facilityId.toList ++ value.reserveId.toList ++
    value.mandateDigest.toList ++ value.policyDigest.toList ++ value.amountCommitment.toList ++
    value.reserveReceiptDigest.toList

def Rivals (a b : PretradeReservationBinding) : Prop :=
  a.party = b.party ∧ a.ownerHandle = b.ownerHandle ∧ a.direction = b.direction

end PretradeReservationBinding

open PretradeReservationBinding

namespace PretradeAcknowledgement

/-- The largest number of bindings. -/
def maxAuthorities : ℕ := 4096

def sorted (bindings : List PretradeReservationBinding) : List PretradeReservationBinding :=
  bindings.insertionSort fun a b => a.key ≤ b.key

def sortedBindings (lib : KeyLibrary) (self : PretradeAcknowledgement) :
    Except String (List PretradeReservationBinding) := do
  refuseIf (self.bindings = [] ∨ maxAuthorities < self.bindings.length)
    "pre-trade acknowledgement binding population is invalid"
  let values := sorted self.bindings
  refuseIf ((values.zip values.tail).any fun pair => pair.1.key = pair.2.key)
    "pre-trade acknowledgement repeats a reservation authority"
  values.forM (PretradeReservationBinding.check lib)
  .ok values

def ackDomain : String := "QOMM:DEFMI:PRETRADE-ACK:v2"

def body (self : PretradeAcknowledgement) (bindings : List PretradeReservationBinding) : Bytes :=
  utf8 ackDomain ++ self.authorityDigest.toList ++ self.defmiId.toList ++
    self.afterStateRoot.toList ++ beBytes 4 bindings.length ++ bindings.flatMap encode ++
    self.signerPublic.toList

def unsigned (lib : KeyLibrary) (self : PretradeAcknowledgement) : Except String Bytes := do
  nonzero self.authorityDigest "authority digest"
  nonzero self.defmiId "DeFMI id"
  nonzero self.afterStateRoot "DeFMI state root"
  refuseIf (¬ lib.isVerifyingKey self.signerPublic) "pre-trade acknowledgement key is malformed"
  let bindings ← self.sortedBindings lib
  .ok (self.body bindings)

def bindingFor (self : PretradeAcknowledgement) (party : ReservationParty)
    (ownerHandle : Digest32) (direction : TradeDirection) :
    Except String PretradeReservationBinding :=
  orRefuse (self.bindings.find? fun value =>
      value.party = party ∧ value.ownerHandle = ownerHandle ∧ value.direction = direction)
    "pre-trade acknowledgement lacks the selected reservation"

end PretradeAcknowledgement

open PretradeAcknowledgement

variable {lib : KeyLibrary}

/-! ## What the signed bytes determine -/

theorem encode_length (value : PretradeReservationBinding) : value.encode.length = 228 := by
  simp [encode]

theorem encode_inj {a b : PretradeReservationBinding} (h : a.encode = b.encode) : a = b := by
  unfold encode at h
  obtain ⟨h, hreceipt⟩ := append_inj' h (by simp)
  obtain ⟨h, hamount⟩ := append_inj' h (by simp)
  obtain ⟨h, hpolicy⟩ := append_inj' h (by simp)
  obtain ⟨h, hmandate⟩ := append_inj' h (by simp)
  obtain ⟨h, hreserve⟩ := append_inj' h (by simp)
  obtain ⟨h, hfacility⟩ := append_inj' h (by simp)
  obtain ⟨h, howner⟩ := append_inj' h (by simp)
  obtain ⟨h, hdirection⟩ := append_inj' h rfl
  obtain ⟨hparty, hindex⟩ := append_inj h rfl
  have hparty := partyByte_inj (singleton_inj.mp hparty)
  have hdirection := TradeDirection.toByte_inj (singleton_inj.mp hdirection)
  have hindex := UInt16.toNat_inj.mp
    (beBytes_inj a.ownerIndex.toNat_lt b.ownerIndex.toNat_lt hindex)
  cases a
  cases b
  simp only [PretradeReservationBinding.mk.injEq]
  exact ⟨hparty, hindex, hdirection, List.Vector.toList_injective howner,
    List.Vector.toList_injective hfacility, List.Vector.toList_injective hreserve,
    List.Vector.toList_injective hmandate, List.Vector.toList_injective hpolicy,
    List.Vector.toList_injective hamount, List.Vector.toList_injective hreceipt⟩

theorem flatMap_encode_inj {a b : List PretradeReservationBinding} (hlength : a.length = b.length)
    (h : a.flatMap encode = b.flatMap encode) : a = b := by
  induction a generalizing b with
  | nil => exact (eq_nil_of_length_eq_zero hlength.symm).symm
  | cons value rest ih =>
    cases b with
    | nil => cases hlength
    | cons =>
      rw [flatMap_cons, flatMap_cons] at h
      obtain ⟨hfirst, hrest⟩ := append_inj h (by rw [encode_length, encode_length])
      rw [encode_inj hfirst, ih (Nat.succ.inj hlength) hrest]

variable {ack : PretradeAcknowledgement}

theorem sortedBindings_ok (h : ack.sortedBindings lib = .ok values) :
    values = sorted ack.bindings ∧ ack.bindings.length ≤ maxAuthorities ∧
      values.Pairwise fun a b => a.key < b.key := by
  simp only [sortedBindings, refuseIf_bind_ok, not_or, Nat.not_lt] at h
  obtain ⟨⟨_, hsize⟩, hdistinct, h⟩ := h
  obtain ⟨_, _, h⟩ := bind_ok.mp h
  cases h
  refine ⟨rfl, hsize, ?_⟩
  have hsorted : (sorted ack.bindings).Pairwise fun a b => a.key ≤ b.key :=
    pairwise_insertionSort _ ack.bindings
  generalize sorted ack.bindings = values at hdistinct hsorted
  rw [← isChain_iff_pairwise] at hsorted ⊢
  rw [isChain_iff_getElem] at hsorted ⊢
  intro i hi
  refine lt_of_le_of_ne (hsorted i hi) ?_
  intro hkey
  apply hdistinct
  rw [any_eq_true]
  refine ⟨(values[i], values[i + 1]), ?_, decide_eq_true hkey⟩
  rw [mem_iff_getElem]
  refine ⟨i, ?_, ?_⟩
  · rw [length_zip, length_tail]
    omega
  · rw [getElem_zip, getElem_tail]

variable {bytes : Bytes}

theorem unsigned_ok (h : ack.unsigned lib = .ok bytes) :
    ∃ values, ack.sortedBindings lib = .ok values ∧ bytes = ack.body values := by
  simp only [unsigned, nonzero, refuseIf_bind_ok] at h
  obtain ⟨_, _, _, _, h⟩ := h
  obtain ⟨values, hvalues, h⟩ := bind_ok.mp h
  exact ⟨values, hvalues, (Except.ok.inj h).symm⟩

variable {a b : PretradeAcknowledgement}

theorem body_inj {others : List PretradeReservationBinding} (hvalues : values.length < 256 ^ 4)
    (hothers : others.length < 256 ^ 4) (h : a.body values = b.body others) : values = others := by
  unfold body at h
  obtain ⟨h, _⟩ := append_inj' h (by simp)
  simp only [append_assoc] at h
  have h := append_cancel_left h
  obtain ⟨_, h⟩ := append_inj h (by simp)
  obtain ⟨_, h⟩ := append_inj h (by simp)
  obtain ⟨_, h⟩ := append_inj h (by simp)
  obtain ⟨hcount, h⟩ := append_inj h (by simp)
  exact flatMap_encode_inj (beBytes_inj hvalues hothers hcount) h

theorem sorted_perm {bindings : List PretradeReservationBinding} :
    (sorted bindings).Perm bindings := perm_insertionSort _ bindings

theorem bindings_perm (ha : a.unsigned lib = .ok bytes) (hb : b.unsigned lib = .ok bytes) :
    a.bindings.Perm b.bindings := by
  obtain ⟨_, hvalues, rfl⟩ := unsigned_ok ha
  obtain ⟨_, hothers, hbody⟩ := unsigned_ok hb
  obtain ⟨rfl, hsize, _⟩ := sortedBindings_ok hvalues
  obtain ⟨rfl, hsize', _⟩ := sortedBindings_ok hothers
  have hsmall : ∀ bindings : List PretradeReservationBinding,
      bindings.length ≤ maxAuthorities → (sorted bindings).length < 256 ^ 4 := by
    intro bindings h
    rw [(sorted_perm).length_eq]
    exact h.trans_lt (by decide)
  have hsorted := body_inj (hsmall _ hsize) (hsmall _ hsize') hbody
  exact (sorted_perm).symm.trans (hsorted ▸ sorted_perm)

theorem eq_of_key (ha : a.unsigned lib = .ok bytes)
    (hx : x ∈ a.bindings) (hy : y ∈ a.bindings) (hkey : x.key = y.key) : x = y := by
  obtain ⟨_, hvalues, _⟩ := unsigned_ok ha
  obtain ⟨rfl, _, hpairs⟩ := sortedBindings_ok hvalues
  have hnodup : ((sorted a.bindings).map key).Nodup :=
    pairwise_map.mpr (hpairs.imp fun h => h.ne)
  exact inj_on_of_nodup_map hnodup ((sorted_perm).mem_iff.mpr hx)
    ((sorted_perm).mem_iff.mpr hy) hkey

theorem unsigned_of_perm {bindings : List PretradeReservationBinding}
    (ha : a.unsigned lib = .ok bytes) (hperm : a.bindings.Perm bindings) :
    ({ a with bindings := bindings } : PretradeAcknowledgement).unsigned lib = .ok bytes := by
  have hsorted : sorted bindings = sorted a.bindings := by
    refine List.Perm.eq_of_pairwise ?_ (pairwise_insertionSort _ _)
      (pairwise_insertionSort _ _) ((sorted_perm).trans
        (hperm.symm.trans (sorted_perm).symm))
    intro x y hx hy hxy hyx
    exact eq_of_key ha (hperm.mem_iff.mpr ((sorted_perm).mem_iff.mp hx))
      ((sorted_perm).mem_iff.mp hy) (le_antisymm hxy hyx)
  have hempty : bindings = [] ↔ a.bindings = [] := by
    rw [← length_eq_zero_iff, ← hperm.length_eq, length_eq_zero_iff]
  have hbindings : ({ a with bindings := bindings } : PretradeAcknowledgement).sortedBindings lib =
      a.sortedBindings lib := by
    simp only [sortedBindings, hsorted, hempty, hperm.length_eq]
  rw [← ha]
  simp only [unsigned, hbindings]
  rfl

/-! ## Lookups -/

theorem bindingFor_ok {party : ReservationParty} {ownerHandle : Digest32}
    {direction : TradeDirection} (h : ack.bindingFor party ownerHandle direction = .ok value) :
    value ∈ ack.bindings ∧ value.party = party ∧ value.ownerHandle = ownerHandle ∧
      value.direction = direction := by
  have hfound := orRefuse_ok.mp h
  have hanswers := find?_some hfound
  exact ⟨mem_of_find?_eq_some hfound, of_decide_eq_true hanswers⟩

/-- A lookup succeeds if some binding answers it. -/
theorem bindingFor_of_mem (h : value ∈ ack.bindings) :
    ∃ found, ack.bindingFor value.party value.ownerHandle value.direction = .ok found := by
  have hsome : (ack.bindings.find? fun other => other.party = value.party ∧
      other.ownerHandle = value.ownerHandle ∧ other.direction = value.direction).isSome := by
    rw [find?_isSome]
    exact ⟨value, h, decide_eq_true ⟨rfl, rfl, rfl⟩⟩
  obtain ⟨found, hfound⟩ := Option.isSome_iff_exists.mp hsome
  exact ⟨found, orRefuse_ok.mpr hfound⟩

theorem bindingFor_perm (hperm : a.bindings.Perm b.bindings)
    (hunique : ∀ x ∈ a.bindings, ∀ y ∈ a.bindings, Rivals x y → x = y) (party : ReservationParty)
    (ownerHandle : Digest32) (direction : TradeDirection) :
    a.bindingFor party ownerHandle direction = b.bindingFor party ownerHandle direction := by
  have hfind : (a.bindings.find? fun value => value.party = party ∧
      value.ownerHandle = ownerHandle ∧ value.direction = direction) =
      b.bindings.find? fun value => value.party = party ∧
        value.ownerHandle = ownerHandle ∧ value.direction = direction := by
    apply Option.ext
    intro value
    constructor
    · intro h
      have hanswer : a.bindingFor party ownerHandle direction = .ok value := orRefuse_ok.mpr h
      obtain ⟨hmem, rfl, rfl, rfl⟩ := bindingFor_ok hanswer
      obtain ⟨found, hfound⟩ := bindingFor_of_mem (hperm.mem_iff.mp hmem)
      obtain ⟨hfoundMem, hrival⟩ := bindingFor_ok hfound
      obtain rfl := hunique found (hperm.mem_iff.mpr hfoundMem) value hmem hrival
      exact orRefuse_ok.mp hfound
    · intro h
      have hanswer : b.bindingFor party ownerHandle direction = .ok value := orRefuse_ok.mpr h
      obtain ⟨hmem, rfl, rfl, rfl⟩ := bindingFor_ok hanswer
      obtain ⟨found, hfound⟩ := bindingFor_of_mem (hperm.mem_iff.mpr hmem)
      obtain ⟨hfoundMem, hrival⟩ := bindingFor_ok hfound
      obtain rfl := hunique found hfoundMem value (hperm.mem_iff.mpr hmem) hrival
      exact orRefuse_ok.mp hfound
  rw [bindingFor, bindingFor, hfind]

/-- The signed bytes of an acknowledgement fix the answer to every lookup, whatever order the
bindings are stored in, exactly when no two of its bindings answer the same lookup. -/
theorem signed_lookups_fixed (lib : KeyLibrary) (a : PretradeAcknowledgement) (bytes : Bytes)
    (ha : a.unsigned lib = .ok bytes) :
    (∀ b : PretradeAcknowledgement, b.unsigned lib = .ok bytes →
      ∀ party ownerHandle direction, a.bindingFor party ownerHandle direction =
        b.bindingFor party ownerHandle direction) ↔
      ∀ x ∈ a.bindings, ∀ y ∈ a.bindings, Rivals x y → x = y := by
  constructor
  · intro hsame
    -- Whatever binding is stored first answers, so all rivals equal the answer of `a`.
    have hanswer : ∀ x ∈ a.bindings,
        a.bindingFor x.party x.ownerHandle x.direction = .ok x := by
      intro x hx
      have hperm := perm_cons_erase hx
      rw [hsame _ (unsigned_of_perm ha hperm)]
      exact orRefuse_ok.mpr (find?_cons_of_pos (decide_eq_true ⟨rfl, rfl, rfl⟩))
    intro x hx y hy hrival
    have hxAnswer := hanswer x hx
    rw [hrival.1, hrival.2.1, hrival.2.2, hanswer y hy] at hxAnswer
    exact (Except.ok.inj hxAnswer).symm
  · intro hunique b hb
    exact bindingFor_perm (bindings_perm ha hb) hunique

/-! ## Samples -/

def anyKeys : KeyLibrary := ⟨fun _ => true, fun _ => true⟩

def sampleBinding (index : UInt16) (reserve : UInt8) : PretradeReservationBinding :=
  ⟨.maker, index, .takerBuys, repeated 1, repeated 2, repeated reserve, repeated 3, repeated 4,
    repeated 5, repeated 6⟩

def sampleAck (bindings : List PretradeReservationBinding) : PretradeAcknowledgement :=
  ⟨repeated 7, repeated 8, repeated 9, bindings, repeated 10⟩

/-- A reservation of the same owner in the other direction. -/
def otherBinding : PretradeReservationBinding :=
  { sampleBinding 1 12 with direction := .takerSells }

/-- Two bindings that are not rivals answer every lookup alike in both orders. -/
theorem signed_lookups_fixed_apart :
    (sampleAck [sampleBinding 0 11, otherBinding]).unsigned anyKeys =
      (sampleAck [otherBinding, sampleBinding 0 11]).unsigned anyKeys ∧
    ∀ party ownerHandle direction,
      (sampleAck [sampleBinding 0 11, otherBinding]).bindingFor party ownerHandle direction =
        (sampleAck [otherBinding, sampleBinding 0 11]).bindingFor party ownerHandle direction := by
  have hbytes : passes ((sampleAck [sampleBinding 0 11, otherBinding]).unsigned anyKeys)
      (fun bytes => (sampleAck [otherBinding, sampleBinding 0 11]).unsigned anyKeys = .ok bytes) =
        true := by
    decide +kernel
  obtain ⟨bytes, hfirst, hsecond⟩ := passes_iff.mp hbytes
  have hsecond := of_decide_eq_true hsecond
  refine ⟨hfirst.trans hsecond.symm, (signed_lookups_fixed anyKeys _ bytes hfirst).mpr ?_ _ hsecond⟩
  have hdirection : (sampleBinding 0 11).direction ≠ otherBinding.direction := by decide
  simp only [sampleAck, mem_cons, not_mem_nil, or_false]
  rintro x (rfl | rfl) y (rfl | rfl) hrivals
  · rfl
  · exact absurd hrivals.2.2 hdirection
  · exact absurd hrivals.2.2.symm hdirection
  · rfl

/-- Two reservations of one owner under two indices are signed alike in both orders, and a lookup
answers with whichever is stored first. -/
theorem reordered_lookup_differs :
    (sampleAck [sampleBinding 0 11, sampleBinding 1 12]).unsigned anyKeys =
      (sampleAck [sampleBinding 1 12, sampleBinding 0 11]).unsigned anyKeys ∧
    ((sampleAck [sampleBinding 0 11, sampleBinding 1 12]).unsigned anyKeys).isOk = true ∧
    (sampleAck [sampleBinding 0 11, sampleBinding 1 12]).bindingFor .maker (repeated 1)
      .takerBuys = .ok (sampleBinding 0 11) ∧
    (sampleAck [sampleBinding 1 12, sampleBinding 0 11]).bindingFor .maker (repeated 1)
      .takerBuys = .ok (sampleBinding 1 12) := by
  decide +kernel

end Zkpi.PretradeAcknowledgements
