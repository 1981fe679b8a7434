import Zkpi.ScopedMembership

/-!
# Presentations of legal-entity credentials

An issuer signs one registry of public points for every cohort. A presentation proves that its
holder knows the secret of one of the points, for one scope and one context, and shows the
nullifier of the scope. A venue counts requests by nullifier.
-/

namespace Zkpi.KybPresentations

open ScalarField ByteText FallibleChecks ScopedMembership

structure KybLibrary (P : Type) extends GroupLibrary P where
  sha256 : Bytes → Digest32
  verifyAttestation : Bytes → Bytes → Bytes → Bool

structure KybCredential (P : Type) where
  secret : Scalar
  publicPoint : P
  cohorts : List String

structure SignedCohortRegistry (P : Type) where
  cohort : String
  registryEpoch : UInt64
  expiresAt : UInt64
  points : List P
  issuer : Bytes
  registryId : Digest32
  signature : Bytes

/-- A membership proof with what it is about. -/
structure KybPresentation (P : Type) where
  cohort : String
  registryId : Digest32
  scope : Bytes
  contextHash : Digest32
  proof : Proof P

/-- Why a presentation is refused. -/
inductive Invalid where
  | notFromTrustedIssuer
  | expired
  | duplicateEntries
  | registryIdMismatch
  | badIssuerSignature
  | wrongCohort
  | wrongRegistryEpoch
  | wrongScopeOrContext
  | membershipProofFailed
deriving DecidableEq

section Presentations

variable {P : Type} (lib : KybLibrary P)

def SignedCohortRegistry.body (cohort : String) (epoch expiresAt : UInt64) (points : List P)
    (issuer : Bytes) : Digest32 :=
  lib.sha256 (utf8 "QOMM:KYB:HYBRID-REGISTRY:v2:" ++ utf8 cohort ++ beBytes 8 epoch.toNat ++
    beBytes 8 expiresAt.toNat ++ beBytes 8 points.length ++
    points.flatMap lib.primitives.compress ++ issuer)

def verifyRegistry (registry : SignedCohortRegistry P) (trusted : Bytes) (now : UInt64) :
    Except Invalid Unit := do
  refuseIf (registry.issuer ≠ trusted) .notFromTrustedIssuer
  refuseIf (registry.expiresAt ≤ now) .expired
  refuseIf (¬ (registry.points.map lib.primitives.compress).Nodup) .duplicateEntries
  refuseIf (SignedCohortRegistry.body lib registry.cohort registry.registryEpoch
      registry.expiresAt registry.points registry.issuer ≠ registry.registryId)
    .registryIdMismatch
  refuseIf (¬ lib.verifyAttestation trusted registry.registryId.toList registry.signature)
    .badIssuerSignature

def contextHash (context : Bytes) : Digest32 :=
  lib.sha256 (utf8 "qomm:kyb-context:" ++ context)

def presentedStatement (registry : SignedCohortRegistry P) (scope context : Bytes) :
    Statement P :=
  ⟨registry.registryId.toList, registry.points, scope, (contextHash lib context).toList⟩

variable [AddCommGroup P] [Module Scalar P]

def present [DecidableEq P] (credential : KybCredential P) (registry : SignedCohortRegistry P)
    (scope context : Bytes) (witnessNonce : Scalar) (draws : ℕ → Scalar × Scalar) :
    Except String (KybPresentation P) := do
  refuseIf (registry.cohort ∉ credential.cohorts) "credential does not qualify for this cohort"
  let index ← orRefuse (registry.points.findIdx? (· = credential.publicPoint))
    "credential is not in this registry"
  let proof ← prove lib.toGroupLibrary (presentedStatement lib registry scope context)
    credential.secret index witnessNonce draws
  .ok ⟨registry.cohort, registry.registryId, scope, contextHash lib context, proof⟩

def verifyPresentation (presentation : KybPresentation P) (registry : SignedCohortRegistry P)
    (trusted scope context : Bytes) (now : UInt64) (requiredCohort : String) :
    Except Invalid Unit := do
  verifyRegistry lib registry trusted now
  refuseIf (registry.cohort ≠ requiredCohort ∨ presentation.cohort ≠ requiredCohort) .wrongCohort
  refuseIf (presentation.registryId ≠ registry.registryId) .wrongRegistryEpoch
  refuseIf (presentation.scope ≠ scope ∨ presentation.contextHash ≠ contextHash lib context)
    .wrongScopeOrContext
  refuseIf (¬ verify lib.toGroupLibrary (presentedStatement lib registry scope context)
    presentation.proof) .membershipProofFailed

variable {lib} {registry : SignedCohortRegistry P} {scope context trusted : Bytes} {now : UInt64}
  {requiredCohort : String} {presentation : KybPresentation P}

/-- A presentation is accepted exactly if its registry is, it is about that registry, scope and
context, and its proof is accepted. -/
theorem verifyPresentation_iff :
    verifyPresentation lib presentation registry trusted scope context now requiredCohort =
        .ok () ↔
      verifyRegistry lib registry trusted now = .ok () ∧
      (registry.cohort = requiredCohort ∧ presentation.cohort = requiredCohort) ∧
      presentation.registryId = registry.registryId ∧
      (presentation.scope = scope ∧ presentation.contextHash = contextHash lib context) ∧
      verify lib.toGroupLibrary (presentedStatement lib registry scope context)
        presentation.proof = true := by
  unfold verifyPresentation
  rw [bind_ok]
  simp only [refuseIf_bind_ok, refuseIf_ok, not_or, not_not]
  constructor
  · rintro ⟨_, h⟩
    exact h
  · intro h
    exact ⟨(), h⟩

variable [DecidableEq P]

/-- Whoever qualifies for a cohort and is in its registry is admitted, whatever is drawn, and
counted under one nullifier in each scope. -/
theorem members_admitted (credential : KybCredential P)
    (hregistry : verifyRegistry lib registry trusted now = .ok ())
    (hcohort : registry.cohort ∈ credential.cohorts)
    (hmember : credential.publicPoint ∈ registry.points)
    (hpoint : credential.publicPoint = credential.secret • lib.basepoint) (scope context : Bytes)
    (witnessNonce : Scalar) (draws : ℕ → Scalar × Scalar) : ∃ presentation,
      present lib credential registry scope context witnessNonce draws = .ok presentation ∧
      verifyPresentation lib presentation registry trusted scope context now registry.cohort =
        .ok () ∧
      presentation.proof.nullifier = nullifier lib.toGroupLibrary scope credential.secret := by
  have hsome : (registry.points.findIdx? (· = credential.publicPoint)).isSome := by
    simpa using hmember
  obtain ⟨index, hfound⟩ := Option.isSome_iff_exists.mp hsome
  obtain ⟨hindex, hat, -⟩ := List.findIdx?_eq_some_iff_getElem.mp hfound
  have hopens : (presentedStatement lib registry scope context).points.getD index 0 =
      credential.secret • lib.basepoint := by
    rw [← hpoint, ← of_decide_eq_true hat]
    exact List.getD_eq_getElem _ _ hindex
  obtain ⟨proof, hproof, hnullifier⟩ := prove_ok (by exact hindex) hopens witnessNonce draws
  refine ⟨_, refuseIf_bind_ok.mpr ⟨not_not.mpr hcohort, bind_ok.mpr
    ⟨index, orRefuse_ok.mpr hfound, bind_ok.mpr ⟨proof, hproof, rfl⟩⟩⟩, ?_, hnullifier⟩
  exact verifyPresentation_iff.mpr ⟨hregistry, ⟨rfl, rfl⟩, rfl, ⟨rfl, rfl⟩, verify_prove hproof⟩

variable (lib) in
/-- A presentation that was accepted, and a second answer to its first moves under another total
challenge. -/
structure Forked (registry : SignedCohortRegistry P) (trusted scope context : Bytes) (now : UInt64)
    (requiredCohort : String) (presentation : KybPresentation P) (fork : Proof P) : Prop where
  accepted : verifyPresentation lib presentation registry trusted scope context now
    requiredCohort = .ok ()
  nullifier : presentation.proof.nullifier = fork.nullifier
  answers : ∃ total, Accepts lib.toGroupLibrary (presentedStatement lib registry scope context)
      (commitmentsG lib.toGroupLibrary (presentedStatement lib registry scope context)
        presentation.proof)
      (commitmentsH lib.toGroupLibrary (presentedStatement lib registry scope context)
        presentation.proof) total fork ∧
    presentation.proof.challenges.sum ≠ total

theorem Forked.secret
    (h : Forked lib registry trusted scope context now requiredCohort presentation fork) :
    ∃ i secret, extract presentation.proof fork = some (i, secret) ∧ i < registry.points.length ∧
      registry.points.getD i 0 = secret • lib.basepoint ∧
      presentation.proof.nullifier =
        ScopedMembership.nullifier lib.toGroupLibrary scope secret := by
  obtain ⟨-, -, -, -, hverify⟩ := verifyPresentation_iff.mp h.accepted
  have haccepts := ScopedMembership.verify_iff.mp hverify
  obtain ⟨_, hfork, htotal⟩ := h.answers
  rw [haccepts.sum] at htotal
  exact extract_spec h.nullifier haccepts hfork htotal

variable (lib) in
/-- Membership proofs are complete and specially sound. A member who knows the secret of their
point proves it, whatever is drawn. Two accepting conversations with the same first moves and
different total challenges give away an index and a secret that opens the point there and the
nullifier under the scope. So presentations for one scope with different nullifiers come from
different secrets. -/
theorem membership_exact :
    (∀ (statement : Statement P) (secret : Scalar) (index : ℕ) (witnessNonce : Scalar)
      (draws : ℕ → Scalar × Scalar), index < statement.points.length →
      statement.points.getD index 0 = secret • lib.basepoint →
      ∃ proof, prove lib.toGroupLibrary statement secret index witnessNonce draws = .ok proof ∧
        verify lib.toGroupLibrary statement proof = true) ∧
    (∀ (statement : Statement P) (commitG commitH : List P) (total total' : Scalar)
      (left right : Proof P), left.nullifier = right.nullifier →
      Accepts lib.toGroupLibrary statement commitG commitH total left →
      Accepts lib.toGroupLibrary statement commitG commitH total' right → total ≠ total' →
      ∃ i secret, extract left right = some (i, secret) ∧ i < statement.points.length ∧
        statement.points.getD i 0 = secret • lib.basepoint ∧
        left.nullifier = secret • scopeGenerator lib.toGroupLibrary statement.scope) ∧
    ∀ (registry registry' : SignedCohortRegistry P)
      (trusted trusted' scope context context' : Bytes)
      (now now' : UInt64) (cohort cohort' : String) (first second : KybPresentation P)
      (fork fork' : Proof P),
      Forked lib registry trusted scope context now cohort first fork →
      Forked lib registry' trusted' scope context' now' cohort' second fork' →
      first.proof.nullifier ≠ second.proof.nullifier →
      ∃ i secret j secret', extract first.proof fork = some (i, secret) ∧
        extract second.proof fork' = some (j, secret') ∧
        registry.points.getD i 0 = secret • lib.basepoint ∧
        registry'.points.getD j 0 = secret' • lib.basepoint ∧ secret ≠ secret' := by
  refine ⟨fun statement secret index witnessNonce draws hindex hopens => ?_,
    fun statement commitG commitH total total' left right hnullifier hleft hright htotal =>
      extract_spec hnullifier hleft hright htotal, ?_⟩
  · obtain ⟨proof, hproof, -⟩ := prove_ok hindex hopens witnessNonce draws
    exact ⟨proof, hproof, verify_prove hproof⟩
  · intro registry registry' trusted trusted' scope context context' now now' cohort cohort'
      first second fork fork' hfirst hsecond hne
    obtain ⟨i, secret, hextract, -, hopens, hnullifier⟩ := hfirst.secret
    obtain ⟨j, secret', hextract', -, hopens', hnullifier'⟩ := hsecond.secret
    refine ⟨i, secret, j, secret', hextract, hextract', hopens, hopens', ?_⟩
    rw [hnullifier, hnullifier'] at hne
    exact secrets_ne hne

end Presentations

def sampleLibrary : KybLibrary Scalar where
  primitives := ⟨fun point => beBytes 32 point.val, fun _ _ => 1⟩
  basepoint := 1
  hashFromBytes := fun _ => 3
  sha256 := fun _ => zeroDigest
  verifyAttestation := fun _ _ _ => true

theorem members_admitted_five :
    let registry : SignedCohortRegistry Scalar := ⟨"EU", 1, 9, [5, 7], [], zeroDigest, []⟩
    ∃ presentation,
      verifyPresentation sampleLibrary presentation registry [] [] [] 0 "EU" = .ok () := by
  intro registry
  obtain ⟨presentation, -, hverified, -⟩ := members_admitted ⟨5, 5, ["EU"]⟩
    (show verifyRegistry sampleLibrary registry [] 0 = .ok () by decide +kernel) (by decide)
    (by decide +kernel) (by decide +kernel) [] [] 0 fun _ => 0
  exact ⟨presentation, hverified⟩

/-- Two answers to the same first moves, for a member with the secret five. -/
theorem membership_exact_five :
    extract (⟨15, [1, 0], [5, 0]⟩ : Proof Scalar) ⟨15, [2, 0], [10, 0]⟩ = some (0, 5) ∧
      ∃ i secret, extract (⟨15, [1, 0], [5, 0]⟩ : Proof Scalar) ⟨15, [2, 0], [10, 0]⟩ =
        some (i, secret) ∧ i < 2 ∧ ([5, 7] : List Scalar).getD i 0 = secret • 1 ∧
        (15 : Scalar) = secret • 3 := by
  refine ⟨by decide +kernel, ?_⟩
  have hleft : Accepts sampleLibrary.toGroupLibrary ⟨[], [5, 7], [], []⟩ [0, 0] [0, 0] 1
      ⟨15, [1, 0], [5, 0]⟩ :=
    ⟨rfl, rfl, by decide +kernel, by decide +kernel, by decide +kernel⟩
  have hright : Accepts sampleLibrary.toGroupLibrary ⟨[], [5, 7], [], []⟩ [0, 0] [0, 0] 2
      ⟨15, [2, 0], [10, 0]⟩ :=
    ⟨rfl, rfl, by decide +kernel, by decide +kernel, by decide +kernel⟩
  exact (membership_exact sampleLibrary).2.1 ⟨[], [5, 7], [], []⟩ [0, 0] [0, 0] 1 2
    ⟨15, [1, 0], [5, 0]⟩ ⟨15, [2, 0], [10, 0]⟩ rfl hleft hright (by decide +kernel)

end Zkpi.KybPresentations
