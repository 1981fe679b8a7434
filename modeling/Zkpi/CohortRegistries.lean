import Zkpi.KybPresentations

/-!
# Cohort registries

An issuer enrols an entity in every cohort its attributes qualify it for and signs one registry
for each cohort. A cohort is named by a text that joins jurisdiction, entity type and tier, and
the signed bytes join the cohort's name, two numbers, a counted list of points and the issuer.
Neither escapes what it joins.
-/

namespace Zkpi.CohortRegistries

open ScalarField ByteText FallibleChecks KybPresentations List

/-! ## Cohorts -/

structure BusinessAttributes where
  jurisdiction : String
  entityType : String
  collateralTier : UInt32

def cohortId (jurisdiction entityType : String) (minTier : UInt32) : String :=
  jurisdiction ++ "/" ++ entityType ++ "/tier>=" ++ Nat.repr minTier.toNat

def BusinessAttributes.cohorts (attributes : BusinessAttributes) (maxTier : UInt32) :
    List String :=
  (range' 1 (min attributes.collateralTier maxTier).toNat).map fun tier =>
    cohortId attributes.jurisdiction attributes.entityType (UInt32.ofNat tier)

section

variable (attributes : BusinessAttributes) (jurisdiction entityType : String)
  (tier maxTier : UInt32)

/-- What the name of a cohort asks of an entity. -/
def BusinessAttributes.Satisfies : Prop :=
  jurisdiction = attributes.jurisdiction ∧ entityType = attributes.entityType ∧
    1 ≤ tier ∧ tier ≤ min attributes.collateralTier maxTier

/-- A jurisdiction and a type that are not the entity's join to the same text, at a tier that it
has. -/
def BusinessAttributes.Collides : Prop :=
  (jurisdiction, entityType) ≠ (attributes.jurisdiction, attributes.entityType) ∧
    jurisdiction ++ "/" ++ entityType = attributes.jurisdiction ++ "/" ++ attributes.entityType ∧
    1 ≤ tier ∧ tier ≤ min attributes.collateralTier maxTier

end

theorem append_cons_inj_of_last {A : Type} {a : A} {first first' last last' : List A}
    (hlast : a ∉ last) (hlast' : a ∉ last') (h : first ++ a :: last = first' ++ a :: last') :
    first = first' ∧ last = last' := by
  have hstart : ∀ {between l l' : List A}, a ∉ l → a :: l = between ++ a :: l' →
      between = [] ∧ l = l' := by
    intro between l _ hl h
    cases between with
    | nil => exact ⟨rfl, (List.cons.inj h).2⟩
    | cons =>
      obtain ⟨-, rfl⟩ := List.cons.inj h
      exact absurd (mem_append_right _ mem_cons_self) hl
  obtain ⟨_, rfl, hrest⟩ | ⟨_, rfl, hrest⟩ := append_eq_append_iff.mp h
  · obtain ⟨rfl, rfl⟩ := hstart hlast hrest
    exact ⟨(append_nil _).symm, rfl⟩
  · obtain ⟨rfl, rfl⟩ := hstart hlast' hrest
    exact ⟨append_nil _, rfl⟩

theorem cohortId_inj {j j' e e' : String} {tier tier' : UInt32} :
    cohortId j e tier = cohortId j' e' tier' ↔
      j ++ "/" ++ e = j' ++ "/" ++ e' ∧ tier = tier' := by
  refine ⟨fun h => ?_, fun ⟨hjoined, htier⟩ => by rw [cohortId, hjoined, htier, cohortId]⟩
  have hsplit : ∀ (j e : String) (tier : UInt32), (cohortId j e tier).toList =
      (j ++ "/" ++ e).toList ++ '/' :: ("tier>=".toList ++ Nat.toDigits 10 tier.toNat) := by
    intro j e tier
    simp [cohortId]
  have hplain : ∀ tier : UInt32, '/' ∉ "tier>=".toList ++ Nat.toDigits 10 tier.toNat := by
    intro _ hmem
    rcases mem_append.mp hmem with hmem | hmem
    · revert hmem
      decide
    · have hdigit := Nat.isDigit_of_mem_toDigits (by decide) (by decide) hmem
      revert hdigit
      decide
  have hlist := congrArg String.toList h
  rw [hsplit, hsplit] at hlist
  obtain ⟨hjoined, hlast⟩ := append_cons_inj_of_last (hplain _) (hplain _) hlist
  have hdigits := congrArg (Nat.ofDigitChars 10 · 0) (append_cancel_left hlast)
  simp only [Nat.ofDigitChars_ten_toDigits] at hdigits
  exact ⟨String.toList_injective hjoined, UInt32.toNat_inj.mp hdigits⟩

/-- The cohorts of an entity are those that it satisfies and those that it collides with. -/
theorem mem_cohorts {attributes : BusinessAttributes} (j e : String) (tier maxTier : UInt32) :
    cohortId j e tier ∈ attributes.cohorts maxTier ↔
      attributes.Satisfies j e tier maxTier ∨ attributes.Collides j e tier maxTier := by
  have hjoined : cohortId j e tier ∈ attributes.cohorts maxTier ↔
      j ++ "/" ++ e = attributes.jurisdiction ++ "/" ++ attributes.entityType ∧
        1 ≤ tier ∧ tier ≤ min attributes.collateralTier maxTier := by
    have htier := tier.toNat_lt
    have hlargest := (min attributes.collateralTier maxTier).toNat_lt
    unfold BusinessAttributes.cohorts
    simp only [mem_map, mem_range'_1, UInt32.le_iff_toNat_le]
    constructor
    · rintro ⟨k, hk, h⟩
      obtain ⟨hsame, rfl⟩ := cohortId_inj.mp h
      rw [UInt32.toNat_ofNat_of_lt' (by simp only [UInt32.size]; omega)]
      exact ⟨hsame.symm, hk.1, by omega⟩
    · rintro ⟨hsame, hpositive, hle⟩
      refine ⟨tier.toNat, ⟨hpositive, by omega⟩, cohortId_inj.mpr ⟨hsame.symm, ?_⟩⟩
      rw [UInt32.ofNat_toNat]
  rw [hjoined, BusinessAttributes.Satisfies, BusinessAttributes.Collides]
  by_cases hsame : (j, e) = (attributes.jurisdiction, attributes.entityType)
  · obtain ⟨rfl, rfl⟩ := Prod.mk.inj hsame
    simp
  · refine ⟨fun h => .inr ⟨hsame, h⟩, fun h => (h.resolve_left fun hown => hsame ?_).2⟩
    rw [hown.1, hown.2.1]

/-! ## Registries -/

/-- An issuer's signing key, as far as it signs attestations. -/
structure HybridSigner where
  publicKey : Bytes
  sign : Bytes → Option Bytes

structure IssuingLibrary (P : Type) extends KybLibrary P where
  isWhitespace : Char → Bool
  issuerKey : Bytes → Except String Bytes

/-- A credential with the attributes that its cohorts were derived from. -/
structure EnrolledCredential (P : Type) (maxTier : UInt32) extends KybCredential P where
  attributes : BusinessAttributes
  cohorts_eq : cohorts = attributes.cohorts maxTier

structure KybIssuer (P : Type) where
  signing : HybridSigner
  maxTier : UInt32
  enrolled : List (String × EnrolledCredential P maxTier)

section Issuing

variable {P : Type} (lib : IssuingLibrary P)

def issue (cohort : String) (registryEpoch expiresAt : UInt64) (points : List P)
    (signing : HybridSigner) : Except String (SignedCohortRegistry P) := do
  refuseIf (cohort.toList.all lib.isWhitespace ∨ registryEpoch = 0 ∨ expiresAt = 0 ∨ points = [])
    "cohort registry is incomplete"
  let points := points.mergeSort fun a b => lib.primitives.compress a ≤ lib.primitives.compress b
  refuseIf (∃ pair ∈ points.zip points.tail,
      lib.primitives.compress pair.1 = lib.primitives.compress pair.2)
    "cohort registry contains duplicate entities"
  let issuer ← lib.issuerKey signing.publicKey
  let registryId :=
    SignedCohortRegistry.body lib.toKybLibrary cohort registryEpoch expiresAt points issuer
  let signature ← orRefuse (signing.sign registryId.toList) "KYB registry signing failed"
  .ok ⟨cohort, registryEpoch, expiresAt, points, issuer, registryId, signature⟩

def KybIssuer.publish (issuer : KybIssuer P) (cohort : String)
    (registryEpoch expiresAt : UInt64) : Except String (SignedCohortRegistry P) := do
  let points := (issuer.enrolled.filter fun entry => cohort ∈ entry.2.cohorts).map
    (·.2.publicPoint)
  refuseIf (points = []) "no entity qualifies for this cohort"
  issue lib cohort registryEpoch expiresAt points issuer.signing

variable {lib} {cohort : String} {registryEpoch expiresAt : UInt64}
  {registry : SignedCohortRegistry P}

/-- A registry has the points it was issued for, in another order. -/
theorem mem_points_issue
    (h : issue lib cohort registryEpoch expiresAt points signing = .ok registry) (point : P) :
    point ∈ registry.points ↔ point ∈ points := by
  obtain ⟨-, h⟩ := refuseIf_bind_ok.mp h
  obtain ⟨-, h⟩ := refuseIf_bind_ok.mp h
  obtain ⟨_, -, h⟩ := bind_ok.mp h
  obtain ⟨_, -, h⟩ := bind_ok.mp h
  rw [← Except.ok.inj h]
  exact mem_mergeSort

/-- An entity is in a cohort exactly if its attributes satisfy it, unless they collide with it, and
then not; and a published registry has exactly the members its cohort's name says unless an enrolled
entity that collides has brought a point of its own. -/
theorem cohort_members_exact (j e : String) (tier : UInt32) :
    (∀ (attributes : BusinessAttributes) (maxTier : UInt32),
      (cohortId j e tier ∈ attributes.cohorts maxTier ↔ attributes.Satisfies j e tier maxTier) ↔
        ¬ attributes.Collides j e tier maxTier) ∧
    ∀ (P : Type) (lib : IssuingLibrary P) (issuer : KybIssuer P) (registryEpoch expiresAt : UInt64)
      (registry : SignedCohortRegistry P),
      issuer.publish lib (cohortId j e tier) registryEpoch expiresAt = .ok registry →
      ((∀ point, point ∈ registry.points ↔ ∃ entry ∈ issuer.enrolled,
          entry.2.attributes.Satisfies j e tier issuer.maxTier ∧ entry.2.publicPoint = point) ↔
        ∀ entry ∈ issuer.enrolled, entry.2.attributes.Collides j e tier issuer.maxTier →
          ∃ other ∈ issuer.enrolled, other.2.attributes.Satisfies j e tier issuer.maxTier ∧
            other.2.publicPoint = entry.2.publicPoint) := by
  constructor
  · intro attributes maxTier
    rw [mem_cohorts]
    have hother : attributes.Collides j e tier maxTier → ¬ attributes.Satisfies j e tier maxTier :=
      fun hcollides hsame => hcollides.1 (by rw [hsame.1, hsame.2.1])
    tauto
  · intro P _ issuer _ _ registry h
    obtain ⟨-, h⟩ := refuseIf_bind_ok.mp h
    have hpoints : ∀ point, point ∈ registry.points ↔ ∃ entry ∈ issuer.enrolled,
        (entry.2.attributes.Satisfies j e tier issuer.maxTier ∨
          entry.2.attributes.Collides j e tier issuer.maxTier) ∧ entry.2.publicPoint = point := by
      intro point
      rw [mem_points_issue h, mem_map]
      simp only [mem_filter, decide_eq_true_eq, and_assoc]
      refine exists_congr fun entry => and_congr_right fun _ => and_congr_left fun _ => ?_
      rw [entry.2.cohorts_eq, mem_cohorts]
    constructor
    · intro hexact entry hentry hcollides
      exact (hexact _).mp ((hpoints _).mpr ⟨entry, hentry, .inr hcollides, rfl⟩)
    · intro hcovered point
      rw [hpoints]
      constructor
      · rintro ⟨entry, hentry, hsatisfies | hcollides, rfl⟩
        · exact ⟨entry, hentry, hsatisfies, rfl⟩
        · exact hcovered entry hentry hcollides
      · rintro ⟨entry, hentry, hsatisfies, rfl⟩
        exact ⟨entry, hentry, .inl hsatisfies, rfl⟩

/-- A separator inside the entity type does not keep an entity out of its own cohort. -/
theorem cohort_members_exact_branch :
    cohortId "EU" "bank/branch" 1 ∈ BusinessAttributes.cohorts ⟨"EU", "bank/branch", 1⟩ 5 :=
  (((cohort_members_exact "EU" "bank/branch" 1).1 ⟨"EU", "bank/branch", 1⟩ 5).mpr
    fun hcollides => hcollides.1 rfl).mpr ⟨rfl, rfl, by decide, by decide⟩

/-- It moves the entity into another jurisdiction's cohort as well. -/
theorem divided_type_joins_other_cohort :
    cohortId "EU/bank" "branch" 1 ∈ BusinessAttributes.cohorts ⟨"EU", "bank/branch", 1⟩ 5 ∧
      ¬ BusinessAttributes.Satisfies ⟨"EU", "bank/branch", 1⟩ "EU/bank" "branch" 1 5 :=
  ⟨by decide, fun h => absurd h.1 (by decide)⟩

/-! ## Signed bytes -/

/-- The bytes whose digest identifies a registry. -/
def registryBytes (compress : P → Bytes) (cohort : String) (epoch expiresAt : UInt64)
    (points : List P) (issuer : Bytes) : Bytes :=
  utf8 "QOMM:KYB:HYBRID-REGISTRY:v2:" ++ utf8 cohort ++ beBytes 8 epoch.toNat ++
    beBytes 8 expiresAt.toNat ++ beBytes 8 points.length ++ points.flatMap compress ++ issuer

end Issuing

/-- What a registry is signed for, with points in any encoding of 32 bytes. -/
structure RegistryTerms where
  cohort : String
  epoch : UInt64
  expiresAt : UInt64
  points : List Digest32
  issuer : List.Vector UInt8 1984

def RegistryTerms.bytes (terms : RegistryTerms) : Bytes :=
  registryBytes List.Vector.toList terms.cohort terms.epoch terms.expiresAt terms.points
    terms.issuer.toList

def RegistryTerms.body (lib : KybLibrary Digest32) (terms : RegistryTerms) : Digest32 :=
  SignedCohortRegistry.body lib terms.cohort terms.epoch terms.expiresAt terms.points
    terms.issuer.toList

theorem flatMap_toList_inj {points points' : List Digest32}
    (h : points.flatMap List.Vector.toList = points'.flatMap List.Vector.toList) :
    points = points' := by
  have hlength : points.length = points'.length := by
    have hbytes := congrArg length h
    simp only [length_flatMap, List.Vector.toList_length, map_const', sum_replicate,
      smul_eq_mul] at hbytes
    omega
  refine map_injective_iff.mpr List.Vector.toList_injective ?_
  refine eq_iff_flatten_eq.mpr ⟨h, ?_⟩
  simp [Function.comp_def, map_const', hlength]

/-- The signed digest is one of the joined bytes, and registries with the same bytes are the same
exactly if their cohorts have names of one length. -/
theorem registry_bytes_determine (a b : RegistryTerms) :
    (∀ lib : KybLibrary Digest32, lib.primitives.compress = List.Vector.toList →
      a.body lib = lib.sha256 a.bytes) ∧
    (a.bytes = b.bytes → (a = b ↔ (utf8 a.cohort).length = (utf8 b.cohort).length)) := by
  constructor
  · intro lib hcompress
    rw [RegistryTerms.body, SignedCohortRegistry.body, hcompress, RegistryTerms.bytes,
      registryBytes]
  refine fun h => ⟨fun hsame => hsame ▸ rfl, fun hlength => ?_⟩
  obtain ⟨_, epoch, expiresAt, _, _⟩ := a
  obtain ⟨_, epoch', expiresAt', _, _⟩ := b
  simp only [RegistryTerms.bytes, registryBytes, append_assoc] at h hlength
  obtain ⟨hcohort, h⟩ := append_inj (append_cancel_left h) hlength
  obtain ⟨hepoch, h⟩ := append_inj h (by simp)
  obtain ⟨hexpires, h⟩ := append_inj h (by simp)
  obtain ⟨-, h⟩ := append_inj h (by simp)
  obtain ⟨hpoints, hissuer⟩ := append_inj' h (by simp)
  congr
  · exact utf8_inj hcohort
  · exact toNat_inj_of_beBytes hepoch
  · exact toNat_inj_of_beBytes hexpires
  · exact flatMap_toList_inj hpoints
  · exact List.Vector.toList_injective hissuer

def sampleIssuer : List.Vector UInt8 1984 := List.Vector.replicate 1984 0

/-- The encoding of a point whose last eight bytes count the others: its cohort's registry reads as
one of the others under a longer cohort name. -/
def shiftedPoint : Digest32 :=
  ⟨replicate 8 66 ++ beBytes 8 7 ++ beBytes 8 26 ++ beBytes 8 1, by decide⟩

/-- The encoding of the group's base point. -/
def basePoint : Digest32 :=
  ⟨[0xe2, 0xf2, 0xae, 0x0a, 0x6a, 0xbc, 0x4e, 0x71, 0xa8, 0x84, 0xa9, 0x61, 0xc5, 0x00, 0x51, 0x5f,
    0x58, 0xe3, 0x0b, 0x6a, 0xa5, 0x82, 0xdd, 0x8d, 0xb6, 0xa6, 0x59, 0x45, 0xe0, 0x8d, 0x2d, 0x76],
    rfl⟩

theorem shifted_registry_same_bytes :
    let name := "A\x00\x00\x00\x00\x00\x00\x00\x07\x00\x00\x00\x00\x00\x00\x00\x1a" ++
      "\x00\x00\x00\x00\x00\x00\x00\x02BBBBBBBB"
    RegistryTerms.bytes ⟨"A", 7, 26, [shiftedPoint, basePoint], sampleIssuer⟩ =
        RegistryTerms.bytes ⟨name, 7, 26, [basePoint], sampleIssuer⟩ ∧ "A" ≠ name := by
  refine ⟨congrArg (· ++ sampleIssuer.toList) ?_, by decide⟩
  decide +kernel

end Zkpi.CohortRegistries
