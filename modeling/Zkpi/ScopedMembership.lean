import Zkpi.FallibleChecks
import Zkpi.PedersenSigma
import Mathlib.Data.List.GetD

/-!
# One-out-of-many membership with a scope nullifier

A prover knows the discrete logarithm of one of several public points, and the nullifier is
that same secret applied to the generator of a scope. Every branch but the real one is
simulated and the branch challenges have to sum to the transcript's. Two conversations that
share their first moves and differ in the total challenge differ in some branch, and that
branch gives away the secret.
-/

namespace Zkpi.ScopedMembership

open ScalarField ByteText FallibleChecks PedersenSigma List

structure GroupLibrary (P : Type) where
  primitives : Primitives P
  /-- The base point of the group. -/
  basepoint : P
  /-- A point nobody knows the logarithm of. -/
  hashFromBytes : Bytes → P

/-- Everything the verifier already knows. -/
structure Statement (P : Type) where
  registryId : Bytes
  points : List P
  scope : Bytes
  contextHash : Bytes

structure Proof (P : Type) where
  nullifier : P
  challenges : List Scalar
  responses : List Scalar

section Protocol

variable {P : Type} [AddCommGroup P] [Module Scalar P] [DecidableEq P] (lib : GroupLibrary P)

def scopeGenerator (scope : Bytes) : P := lib.hashFromBytes scope

def nullifier (scope : Bytes) (secret : Scalar) : P := secret • scopeGenerator lib scope

variable (statement : Statement P)

def challenge (nullifier : P) (commitG commitH : List P) : Scalar :=
  let appendAll (label : String) (transcript : Transcript) (points : List P) : Transcript :=
    points.foldl (fun t point => t.appendPoint lib.primitives label point) transcript
  let t := (((Transcript.new (utf8 "qomm:or-dleq:v1")).appendMessage "registry"
    statement.registryId).appendMessage "scope" statement.scope).appendMessage "context"
      statement.contextHash
  let t := t.appendPoint lib.primitives "N" nullifier
  let t := appendAll "B" (appendAll "A" (appendAll "P" t statement.points) commitG) commitH
  lib.primitives.challengeScalar t (utf8 "c")

def drawn (n index : ℕ) (draw : ℕ → Scalar) : List Scalar :=
  (range n).map fun position => if position = index then 0 else draw position

/-- The first moves over one generator. The real branch commits to a nonce; the others are
simulated: the commitment is derived from the challenge and the response. -/
def firstMoves (n index : ℕ) (witnessNonce : Scalar) (draws : ℕ → Scalar × Scalar)
    (generator : P) (point : ℕ → P) : List P :=
  (range n).map fun position =>
    if position = index then witnessNonce • generator
    else (draws position).2 • generator - (draws position).1 • point position

/-- Prove membership at an index, with a nonce for the real branch and a challenge and a response
drawn for every other. -/
def prove (secret : Scalar) (index : ℕ) (witnessNonce : Scalar) (draws : ℕ → Scalar × Scalar) :
    Except String (Proof P) := do
  let n := statement.points.length
  refuseIf (n ≤ index) "the witness is not in this registry"
  let hScope := scopeGenerator lib statement.scope
  let null := secret • hScope
  refuseIf (statement.points.getD index 0 ≠ secret • lib.basepoint)
    "the secret does not open the point at that index"
  let challenges := drawn n index fun position => (draws position).1
  let responses := drawn n index fun position => (draws position).2
  let commitG := firstMoves n index witnessNonce draws lib.basepoint (statement.points.getD · 0)
  let commitH := firstMoves n index witnessNonce draws hScope fun _ => null
  let total := challenge lib statement null commitG commitH
  let others := challenges.sum
  let own := total - others
  .ok ⟨null, challenges.set index own, responses.set index (witnessNonce + own * secret)⟩

def answered (n : ℕ) (challenges responses : List Scalar) (generator : P) (point : ℕ → P) :
    List P :=
  (range n).map fun i =>
    responses.getD i 0 • generator - challenges.getD i 0 • point i

def commitmentsG (proof : Proof P) : List P :=
  answered statement.points.length proof.challenges proof.responses lib.basepoint
    (statement.points.getD · 0)

def commitmentsH (proof : Proof P) : List P :=
  answered statement.points.length proof.challenges proof.responses
    (scopeGenerator lib statement.scope) fun _ => proof.nullifier

def verify (proof : Proof P) : Bool :=
  if proof.challenges.length ≠ statement.points.length ∨
      proof.responses.length ≠ statement.points.length then false
  else
    let total := challenge lib statement proof.nullifier (commitmentsG lib statement proof)
      (commitmentsH lib statement proof)
    proof.challenges.sum = total

end Protocol

/-! ## Completeness -/

section Completeness

variable {P : Type} [AddCommGroup P] [Module Scalar P]

theorem drawn_length : (drawn n index draw).length = n := by
  simp [drawn]

theorem getD_drawn_set (own : Scalar) (hi : i < n) :
    ((drawn n index draw).set index own).getD i 0 = if i = index then own else draw i := by
  rw [getD_eq_getElem _ _ (by rwa [length_set, drawn_length]), getElem_set]
  by_cases hindex : index = i
  · rw [if_pos hindex, if_pos hindex.symm]
  · rw [if_neg hindex, if_neg (Ne.symm hindex)]
    simp [drawn, Ne.symm hindex]

theorem sum_drawn_set (total : Scalar) (hindex : index < n) :
    ((drawn n index draw).set index (total - (drawn n index draw).sum)).sum = total := by
  have hlength : index < (drawn n index draw).length := by rwa [drawn_length]
  have hzero : (drawn n index draw)[index] = 0 := by simp [drawn]
  rw [sum_set', dif_pos hlength, hzero]
  ring

theorem answered_drawn {point : ℕ → P} (own : Scalar) (hpoint : point index = secret • generator) :
    answered n ((drawn n index fun position => (draws position).1).set index own)
        ((drawn n index fun position => (draws position).2).set index
          (witnessNonce + own * secret)) generator point =
      firstMoves n index witnessNonce draws generator point := by
  refine map_congr_left fun i hi => ?_
  rw [getD_drawn_set _ (mem_range.mp hi), getD_drawn_set _ (mem_range.mp hi)]
  by_cases hindex : i = index
  · rw [if_pos hindex, if_pos hindex, if_pos hindex, hindex, hpoint]
    module
  · simp only [if_neg hindex]

variable [DecidableEq P] {lib : GroupLibrary P}

/-- What the prover returns is accepted, whatever it drew. -/
theorem verify_prove (h : prove lib statement secret index witnessNonce draws = .ok proof) :
    verify lib statement proof = true := by
  obtain ⟨hindex, h⟩ := refuseIf_bind_ok.mp h
  obtain ⟨hopens, h⟩ := refuseIf_bind_ok.mp h
  cases h
  have hindex : index < statement.points.length := Nat.lt_of_not_le hindex
  unfold verify
  rw [if_neg (by simp [drawn_length])]
  have hnull : (fun _ : ℕ => secret • scopeGenerator lib statement.scope) index =
      secret • scopeGenerator lib statement.scope := rfl
  refine decide_eq_true ?_
  simp only [commitmentsG, commitmentsH]
  rw [answered_drawn _ (not_not.mp hopens), answered_drawn _ hnull, sum_drawn_set _ hindex]

theorem prove_ok (hindex : index < statement.points.length)
    (hopens : statement.points.getD index 0 = secret • lib.basepoint) (witnessNonce : Scalar)
    (draws : ℕ → Scalar × Scalar) :
    ∃ proof, prove lib statement secret index witnessNonce draws = .ok proof ∧
      proof.nullifier = nullifier lib statement.scope secret := by
  unfold prove
  simp only
  rw [refuseIf, if_neg (Nat.not_le.mpr hindex), refuseIf, if_neg (not_not.mpr hopens)]
  exact ⟨_, rfl, rfl⟩

end Completeness

/-! ## Special soundness -/

section Soundness

variable {P : Type} [AddCommGroup P] [Module Scalar P] {lib : GroupLibrary P}

variable (lib) in
structure Accepts (statement : Statement P) (commitG commitH : List P) (total : Scalar)
    (proof : Proof P) : Prop where
  challenges_length : proof.challenges.length = statement.points.length
  responses_length : proof.responses.length = statement.points.length
  first_g : commitmentsG lib statement proof = commitG
  first_h : commitmentsH lib statement proof = commitH
  sum : proof.challenges.sum = total

theorem verify_iff [DecidableEq P] : verify lib statement proof = true ↔
      Accepts lib statement (commitmentsG lib statement proof) (commitmentsH lib statement proof)
        (challenge lib statement proof.nullifier (commitmentsG lib statement proof)
          (commitmentsH lib statement proof)) proof := by
  unfold verify
  constructor
  · intro h
    split at h
    · cases h
    · rename_i hlengths
      obtain ⟨hchallenges, hresponses⟩ := not_or.mp hlengths
      exact ⟨not_not.mp hchallenges, not_not.mp hresponses, rfl, rfl, of_decide_eq_true h⟩
  · rintro ⟨hchallenges, hresponses, -, -, hsum⟩
    rw [if_neg (not_or.mpr ⟨not_not.mpr hchallenges, not_not.mpr hresponses⟩)]
    exact decide_eq_true hsum

/-- The index and the secret two answers to the same first moves give away: those of the first
branch whose challenges differ. -/
def extract (left right : Proof P) : Option (ℕ × Scalar) :=
  (range left.challenges.length).findSome? fun i =>
    let difference := left.challenges.getD i 0 - right.challenges.getD i 0
    if difference = 0 then none
    else some (i, (left.responses.getD i 0 - right.responses.getD i 0) * difference⁻¹)

theorem exists_getD_ne {left right : List Scalar} (hlength : left.length = right.length)
    (hsum : left.sum ≠ right.sum) : ∃ i < left.length, left.getD i 0 ≠ right.getD i 0 := by
  by_contra hnone
  refine hsum (congrArg sum (ext_getElem hlength fun i hleft hright => ?_))
  by_contra hne
  refine hnone ⟨i, hleft, ?_⟩
  rwa [getD_eq_getElem _ _ hleft, getD_eq_getElem _ _ hright]

theorem logarithm_of_answers {point : P} {c c' z z' : Scalar}
    (hsame : z • generator - c • point = z' • generator - c' • point) (hne : c - c' ≠ 0) :
    point = ((z - z') * (c - c')⁻¹) • generator := by
  have hdifference : (c - c') • point = (z - z') • generator := by
    rw [sub_smul, sub_smul]
    rw [sub_eq_sub_iff_add_eq_add] at hsame
    rw [sub_eq_sub_iff_add_eq_add, add_comm, hsame.symm]
  calc point = ((c - c')⁻¹ * (c - c')) • point := by rw [inv_mul_cancel₀ hne, one_smul]
    _ = (c - c')⁻¹ • ((z - z') • generator) := by rw [mul_smul, hdifference]
    _ = ((z - z') * (c - c')⁻¹) • generator := by rw [smul_smul, mul_comm]

theorem answered_eq {point : ℕ → P}
    (hsame : answered n challenges responses generator point = answered n challenges' responses'
      generator point) (hi : i < n) :
    responses.getD i 0 • generator - challenges.getD i 0 • point i =
      responses'.getD i 0 • generator - challenges'.getD i 0 • point i := by
  have hbranch := congrArg (fun moves => moves.getD i 0) hsame
  simpa [answered, getD_eq_getElem?_getD, getElem?_range hi] using hbranch

/-- Two accepting conversations with the same first moves and different totals give away the
secret of a member, and the nullifier is that secret applied to the scope. -/
theorem extract_spec {commitG commitH : List P} {total total' : Scalar} {left right : Proof P}
    (hnullifier : left.nullifier = right.nullifier)
    (hleft : Accepts lib statement commitG commitH total left)
    (hright : Accepts lib statement commitG commitH total' right) (htotal : total ≠ total') :
    ∃ i secret, extract left right = some (i, secret) ∧ i < statement.points.length ∧
      statement.points.getD i 0 = secret • lib.basepoint ∧
      left.nullifier = nullifier lib statement.scope secret := by
  have hlength : left.challenges.length = right.challenges.length :=
    hleft.challenges_length.trans hright.challenges_length.symm
  have hsum : left.challenges.sum ≠ right.challenges.sum := by
    rw [hleft.sum, hright.sum]
    exact htotal
  obtain ⟨j, hj, hdiffers⟩ := exists_getD_ne hlength hsum
  cases hextract : extract left right with
  | none =>
    have hnone := findSome?_eq_none_iff.mp hextract j (mem_range.mpr hj)
    simp only [sub_eq_zero, hdiffers, if_false, reduceCtorEq] at hnone
  | some result =>
    obtain ⟨i, hi, hbranch⟩ := exists_of_findSome?_eq_some hextract
    have hi : i < statement.points.length := by
      rw [← hleft.challenges_length]
      exact mem_range.mp hi
    simp only at hbranch
    split at hbranch
    · cases hbranch
    · rename_i hne
      cases hbranch
      have hg := answered_eq (hleft.first_g.trans hright.first_g.symm) hi
      have hh := hleft.first_h.trans hright.first_h.symm
      rw [commitmentsH, commitmentsH, hnullifier] at hh
      refine ⟨i, _, rfl, hi, logarithm_of_answers hg hne, ?_⟩
      rw [hnullifier]
      exact logarithm_of_answers (answered_eq hh hi) hne

theorem secrets_ne
    (hne : nullifier lib scope secret ≠ nullifier lib scope secret') : secret ≠ secret' := by
  rintro rfl
  exact hne rfl

end Soundness

end Zkpi.ScopedMembership
