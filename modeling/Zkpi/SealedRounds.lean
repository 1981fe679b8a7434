import Zkpi.QuorumInterpolation

/-!
# Sealed first rounds

Every node of a quorum publishes a seal of its first move before any move is revealed. A reveal
is checked against its seal and against the context it was made for. The checks are the same for
openings and products up to their texts, so they are written once over the form of a message.

An error that blames a node begins with its identifier, and no error blames two nodes.
-/

namespace Zkpi.SealedRounds

open Std (TreeMap)
open ByteText FallibleChecks IndexedTables PedersenSigma QuorumInterpolation

structure RoundLibrary (P : Type) where
  /-- Encodings and challenges. -/
  primitives : Primitives P
  sha256 : Bytes → Digest32

structure Round1Seal where
  party : PartyId
  digest : Digest32
deriving DecidableEq

instance : Inhabited Round1Seal := ⟨⟨0, zeroDigest⟩⟩

/-- How the first moves of a protocol are read and refused. -/
structure RevealForm (M : Type) where
  /-- Who made the move. -/
  party : M → PartyId
  contextDigest : M → Digest32
  digest : M → Digest32
  /-- The error for lists that are not those of the quorum. -/
  mismatch : String
  /-- The error for a move that is not the sealed one. -/
  invalid : PartyId → String

section Reveals

variable {M P : Type} [Inhabited M] (lib : RoundLibrary P) (form : RevealForm M)

def checkedReveals (messages : List M) (seals : List Round1Seal) (quorum : List PartyId)
    (context : Bytes) : Except String (TreeMap PartyId M) := do
  let expectedContext := lib.sha256 context
  let byParty := indexBy form.party messages
  let sealByParty := indexBy Round1Seal.party seals
  refuseIf (byParty.size ≠ quorum.length ∨ sealByParty.size ≠ quorum.length ∨ ¬ quorum.Nodup ∨
    ∃ party ∈ quorum, party ∉ byParty ∨ party ∉ sealByParty) form.mismatch
  quorum.forM fun party =>
    refuseIf (form.contextDigest byParty[party]! ≠ expectedContext ∨
      form.digest byParty[party]! ≠ sealByParty[party]!.digest) (form.invalid party)
  pure byParty

structure Revealed (messages : List M) (seals : List Round1Seal) (quorum : List PartyId)
    (context : Bytes) : Prop where
  nodup : quorum.Nodup
  revealed : Covers (indexBy form.party messages) quorum
  sealed : Covers (indexBy Round1Seal.party seals) quorum
  context_eq : ∀ p ∈ quorum,
    form.contextDigest (indexBy form.party messages)[p]! = lib.sha256 context
  /-- Every move is the sealed one. -/
  digest_eq : ∀ p ∈ quorum, form.digest (indexBy form.party messages)[p]! =
    (indexBy Round1Seal.party seals)[p]!.digest

variable {lib form} {quorum : List PartyId}

theorem checkedReveals_eq (h : Revealed lib form messages seals quorum context) :
    checkedReveals lib form messages seals quorum context =
      .ok (indexBy form.party messages) := by
  simp only [checkedReveals, refuseIf_bind_ok, not_or, not_not, not_exists, not_and]
  refine ⟨⟨h.revealed.1, h.sealed.1, h.nodup, fun p hp => ⟨h.revealed.2 p hp, h.sealed.2 p hp⟩⟩,
    bind_ok.mpr ⟨(), forM_ok.mpr fun p hp => ?_, rfl⟩⟩
  rw [refuseIf_ok, not_or, not_not, not_not]
  exact ⟨h.context_eq p hp, h.digest_eq p hp⟩

theorem checkedReveals_ok
    (h : checkedReveals lib form messages seals quorum context = .ok byParty) :
    Revealed lib form messages seals quorum context ∧ byParty = indexBy form.party messages := by
  simp only [checkedReveals, refuseIf_bind_ok, not_or, not_not, not_exists, not_and] at h
  obtain ⟨⟨hmessages, hseals, hnodup, hmem⟩, hrest⟩ := h
  obtain ⟨_, hloop, hresult⟩ := bind_ok.mp hrest
  have hvalid : ∀ p ∈ quorum, form.contextDigest (indexBy form.party messages)[p]! =
      lib.sha256 context ∧ form.digest (indexBy form.party messages)[p]! =
        (indexBy Round1Seal.party seals)[p]!.digest := by
    intro p hp
    have hcheck := forM_ok.mp hloop p hp
    rw [refuseIf_ok, not_or, not_not, not_not] at hcheck
    exact hcheck
  exact ⟨⟨hnodup, ⟨hmessages, fun p hp => (hmem p hp).1⟩, ⟨hseals, fun p hp => (hmem p hp).2⟩,
    fun p hp => (hvalid p hp).1, fun p hp => (hvalid p hp).2⟩, (Except.ok.inj hresult).symm⟩

theorem revealed_of_perm (hnodup : quorum.Nodup) {message : PartyId → M}
    {sealed : PartyId → Round1Seal} (hmessages : messages.Perm (quorum.map message))
    (hseals : seals.Perm (quorum.map sealed))
    (hparty : ∀ p ∈ quorum, form.party (message p) = p)
    (hcontext : ∀ p ∈ quorum, form.contextDigest (message p) = lib.sha256 context)
    (hsealer : ∀ p ∈ quorum, (sealed p).party = p)
    (hsealed : ∀ p ∈ quorum, (sealed p).digest = form.digest (message p)) :
    Revealed lib form messages seals quorum context := by
  refine ⟨hnodup, covers_indexBy hnodup (keys_of_perm hmessages hparty),
    covers_indexBy hnodup (keys_of_perm hseals hsealer), fun p hp => ?_, fun p hp => ?_⟩
  · rw [getElem!_of_perm hmessages hparty hp, hcontext p hp]
  · rw [getElem!_of_perm hmessages hparty hp, getElem!_of_perm hseals hsealer hp, hsealed p hp]

end Reveals

/-! ## Errors that blame a node -/

def NamesParty (error : String) (party : PartyId) : Prop :=
  ∃ rest : String, error = "party " ++ toString party ++ (" " ++ rest)

section Blame

variable {quorum : List PartyId} {check : PartyId → Except String Unit} {Opens : PartyId → Prop}
  (hblames : ∀ {p error}, p ≠ 0 → check p = .error error → NamesParty error p ∧ ¬ Opens p)
  (hnonzero : 0 ∉ quorum)

include hblames hnonzero

/-- A round of answers fails with an error that names a party whose answer does not open. -/
theorem answers_error (h : quorum.forM check = .error error) :
    ∃ p ∈ quorum, NamesParty error p ∧ ¬ Opens p := by
  obtain ⟨p, hp, hcheck⟩ := forM_error h
  exact ⟨p, hp, hblames (fun hzero => hnonzero (hzero ▸ hp)) hcheck⟩

theorem answers_ok (h : ∀ p ∈ quorum, Opens p) : quorum.forM check = .ok () := by
  cases hcheck : quorum.forM check with
  | ok => rfl
  | error =>
    obtain ⟨p, hp, -, hshut⟩ := answers_error hblames hnonzero hcheck
    exact absurd (h p hp) hshut

end Blame

theorem NamesParty.digits (h : NamesParty error party) :
    (error.toList.drop 6).takeWhile Char.isDigit = Nat.toDigits 10 party.toNat := by
  obtain ⟨rest, rfl⟩ := h
  have hdigits : (toString party).toList = Nat.toDigits 10 party.toNat := Nat.toList_repr
  simp only [String.toList_append, hdigits, List.append_assoc]
  change List.takeWhile Char.isDigit (Nat.toDigits 10 party.toNat ++ (' ' :: rest.toList)) = _
  rw [List.takeWhile_append_of_pos fun c hc =>
    Nat.isDigit_of_mem_toDigits (by norm_num) (by norm_num) hc]
  exact List.append_nil _

theorem NamesParty.unique (hp : NamesParty error p) (hq : NamesParty error q) : p = q := by
  have h := congrArg (Nat.ofDigitChars 10 · 0) (hp.digits.symm.trans hq.digits)
  simp only [Nat.ofDigitChars_ten_toDigits] at h
  exact UInt64.toNat.inj h

theorem NamesParty.head (h : NamesParty error party) : error.toList.head? = some 'p' := by
  obtain ⟨_, rfl⟩ := h
  simp only [String.toList_append, List.append_assoc]
  rfl

end Zkpi.SealedRounds
