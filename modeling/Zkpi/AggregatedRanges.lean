import Zkpi.IdealChallenges

/-!
# The aggregated range-proof library

Range proofs of the four supported widths come from a library outside the
repository. Its prover and verifier are arbitrary functions of everything they
are given; what its documentation promises is stated as two properties and
assumed only where a result needs it. Both hold together in the ideal model.
-/

namespace Zkpi.AggregatedRanges

open ScalarField ByteText PedersenSigma List

/-- Generators for aggregated proofs: bit capacity and party capacity. -/
structure BulletproofGens where
  gensCapacity : ℕ
  partyCapacity : ℕ

/-- The library: its proof objects, prover and verifier. The prover's own
randomness is an argument. -/
structure Bulletproofs (P : Type) where
  RangeProof : Type
  /-- Prove that every value fits the width; also returns the commitments. -/
  proveMultiple : BulletproofGens → Pedersen P → Transcript → List UInt64 → List Scalar → ℕ →
    (ℕ → Scalar) → Option (RangeProof × List Bytes)
  verifyMultiple : RangeProof → BulletproofGens → Pedersen P → Transcript → List Bytes → ℕ → Bool

/-- The widths the library takes. -/
def validBits (bits : ℕ) : Bool := bits = 8 || bits = 16 || bits = 32 || bits = 64

theorem validBits_le (h : validBits bits = true) : bits ≤ 64 := by
  simp only [validBits, Bool.or_eq_true, decide_eq_true_eq] at h
  omega

section Promises

variable {P : Type} [AddCommGroup P] [Module Scalar P]
variable (primitives : Primitives P) (library : Bulletproofs P) (key : Pedersen P)

/-- Documented completeness: in-range values of a supported width, as many as a
power of two within the party capacity, are proved, the returned commitments
are theirs, and the verifier accepts under the same transcript. -/
def RangeComplete : Prop :=
  ∀ (gens : BulletproofGens) (transcript : Transcript) (openings : List (UInt64 × Scalar))
    (bits : ℕ) (entropy : ℕ → Scalar), validBits bits = true → bits ≤ gens.gensCapacity →
    openings.length ≤ gens.partyCapacity → (∃ k, openings.length = 2 ^ k) →
    (∀ opening ∈ openings, opening.1.toNat < 2 ^ bits) →
    ∃ proof, library.proveMultiple gens key transcript (openings.map Prod.fst)
        (openings.map Prod.snd) bits entropy =
      some (proof, openings.map fun opening =>
        primitives.compress (key.commitU64 opening.1 opening.2)) ∧
      library.verifyMultiple proof gens key transcript
        (openings.map fun opening => primitives.compress (key.commitU64 opening.1 opening.2))
        bits = true

/-- Assumed soundness: every commitment of an accepted proof hides a number of
the width the verifier used. -/
def RangeSound {key : Pedersen P} (binding : Binding key) : Prop :=
  ∀ (proof : library.RangeProof) (gens : BulletproofGens) (transcript : Transcript)
    (points : List P) (bits : ℕ),
    library.verifyMultiple proof gens key transcript (points.map primitives.compress) bits =
      true → ∀ point ∈ points, ∃ n : ℕ, n < 2 ^ bits ∧ binding.value point = (n : Scalar)

end Promises

/-! ## Contexts of one width -/

/-- A width with generators for it. The constructor of the source refuses every
other width. -/
structure RangeCtx (P : Type) where
  pcGens : Pedersen P
  bpGens : BulletproofGens
  bits : ℕ
  /-- The width is one the library takes. -/
  supported : validBits bits = true

variable {P : Type}

def RangeCtx.new (defaultGens : Pedersen P) (bits maxAggregate : ℕ)
    (supported : validBits bits = true) : RangeCtx P where
  pcGens := defaultGens
  bpGens := ⟨bits, maxAggregate.nextPowerOfTwo⟩
  bits := bits
  supported := supported

/-- Check an aggregated proof in a context. -/
def RangeCtx.verify (ctx : RangeCtx P) (library : Bulletproofs P) (transcript : Transcript)
    (proof : library.RangeProof) (commitments : List Bytes) : Bool :=
  library.verifyMultiple proof ctx.bpGens ctx.pcGens transcript commitments ctx.bits

/-- Prove several values at once. The width is checked here because the library
does not check it, and the number of values is padded to a power of two. -/
def RangeCtx.prove (ctx : RangeCtx P) (library : Bulletproofs P) (transcript : Transcript)
    (values : List UInt64) (blindings : List Scalar) (entropy : ℕ → Scalar) :
    Except String (library.RangeProof × List Bytes) :=
  if ctx.bits < 64 ∧ values.any (fun value => 2 ^ ctx.bits ≤ value.toNat) then
    .error "a value does not fit the range being proved"
  else
    let padding := values.length.nextPowerOfTwo - values.length
    match library.proveMultiple ctx.bpGens ctx.pcGens transcript
        (values ++ replicate padding 0) (blindings ++ replicate padding 0) ctx.bits
        entropy with
    | none => .error "range proof failed"
    | some proved => .ok proved

theorem le_of_doubling {search : (power : ℕ) → power > 0 → ℕ}
    (hsearch : ∀ power (h : power > 0), search power h =
      if power < n then search (power * 2) (Nat.mul_pos h (by decide)) else power)
    (power : ℕ) (h : power > 0) : n ≤ search power h := by
  rw [hsearch]
  split
  · exact le_of_doubling hsearch (power * 2) _
  · omega
termination_by n - power
decreasing_by exact Nat.nextPowerOfTwo_dec h (by assumption)

theorem le_nextPowerOfTwo (n : ℕ) : n ≤ n.nextPowerOfTwo := by
  unfold Nat.nextPowerOfTwo
  refine le_of_doubling (fun power h => ?_) 1 _
  -- The search has no public name, so its recursion is read off its definition.
  with_unfolding_all exact WellFounded.Nat.fix_eq _ _ (⟨power, h⟩ : PSigma fun n : ℕ => n > 0)

/-- A context that proves what it is given also accepts it, with the commitments
of the openings and the identity in the places that were padded. -/
theorem RangeCtx.prove_accepted [AddCommGroup P] [Module Scalar P] {primitives : Primitives P}
    {library : Bulletproofs P} {ctx : RangeCtx P}
    (hcomplete : RangeComplete primitives library ctx.pcGens)
    (hbits : ctx.bits ≤ ctx.bpGens.gensCapacity) {A : Type} {items : List A}
    {value : A → UInt64} {blinding : A → Scalar}
    (hparties : items.length.nextPowerOfTwo ≤ ctx.bpGens.partyCapacity)
    {transcript : Transcript} {entropy : ℕ → Scalar} {proof : library.RangeProof}
    {commitments : List Bytes}
    (h : ctx.prove library transcript (items.map value) (items.map blinding) entropy =
      .ok (proof, commitments)) :
    commitments = (items.map (fun item => ctx.pcGens.commitU64 (value item) (blinding item)) ++
      replicate (items.length.nextPowerOfTwo - items.length) 0).map primitives.compress ∧
    ctx.verify library transcript proof commitments = true := by
  have hfill := le_nextPowerOfTwo items.length
  unfold RangeCtx.prove at h
  split at h
  · cases h
  · rename_i hfits
    have hvalues : ∀ item ∈ items, (value item).toNat < 2 ^ ctx.bits := by
      intro item hmem
      by_contra hwide
      rcases Nat.lt_or_ge ctx.bits 64 with hlt | hge
      · refine hfits ⟨hlt, any_eq_true.mpr ⟨value item, mem_map_of_mem hmem, ?_⟩⟩
        exact decide_eq_true (by omega)
      · exact hwide ((value item).toNat_lt.trans_le (Nat.pow_le_pow_right (by norm_num) hge))
    dsimp only at h
    rw [length_map] at h
    generalize hpadding : items.length.nextPowerOfTwo - items.length = padding at h ⊢
    obtain ⟨other, hprove, hverify⟩ := hcomplete ctx.bpGens transcript
      (items.map (fun item => (value item, blinding item)) ++ replicate padding (0, 0))
      ctx.bits entropy ctx.supported hbits (by simp; omega)
      ⟨_, by
        rw [length_append, length_map, length_replicate, ← hpadding, Nat.add_sub_cancel' hfill]
        exact (Nat.isPowerOfTwo_nextPowerOfTwo items.length).choose_spec⟩
      (by simpa [or_imp, forall_and] using hvalues)
    have hzero : ctx.pcGens.commitU64 0 0 = 0 := by
      simp [Pedersen.commitU64, Pedersen.commit]
    simp only [map_append, map_map, map_replicate, Function.comp_def, hzero]
      at hprove hverify ⊢
    rw [hprove] at h
    cases h
    exact ⟨rfl, hverify⟩

/-! ## The transparent library -/

section Transparent

variable [AddCommGroup P] [Module Scalar P]

/-- Proofs that list the openings; the verifier commits to them again. It hides
nothing and can be run. -/
def transparentLibrary (primitives : Primitives P) : Bulletproofs P where
  RangeProof := List (UInt64 × Scalar)
  proveMultiple := fun _ key _ values blindings _ _ =>
    some (values.zip blindings, (values.zip blindings).map fun opening =>
      primitives.compress (key.commitU64 opening.1 opening.2))
  verifyMultiple := fun proof _ key _ commitments bits =>
    proof.all (fun opening => opening.1.toNat < 2 ^ bits) &&
      decide (commitments = proof.map fun opening =>
        primitives.compress (key.commitU64 opening.1 opening.2))

theorem transparent_rangeComplete (primitives : Primitives P) (key : Pedersen P) :
    RangeComplete primitives (transparentLibrary primitives) key := by
  intro _ _ openings _ _ _ _ _ _ hvalues
  have hzip : (openings.map Prod.fst).zip (openings.map Prod.snd) = openings := by
    rw [zip_map']
    exact map_id openings
  refine ⟨openings, ?_, ?_⟩
  · simp only [transparentLibrary, hzip]
  · simp only [transparentLibrary, Bool.and_eq_true, decide_true, and_true, all_eq_true,
      decide_eq_true_eq]
    exact hvalues

end Transparent

/-! ## The ideal library -/

section Ideal

open IdealChallenges Classical

/-- Proofs that carry nothing; the verifier reads the commitments themselves. -/
noncomputable def idealLibrary : Bulletproofs Point where
  RangeProof := Unit
  proveMultiple := fun _ key _ values blindings _ _ =>
    some ((), (values.zip blindings).map fun opening =>
      idealEncode (key.commitU64 opening.1 opening.2))
  verifyMultiple := fun _ _ _ _ commitments bits =>
    decide (∀ commitment ∈ commitments, ∃ point : Point,
      idealEncode point = commitment ∧ point.1.val < 2 ^ bits)

theorem ideal_rangeComplete : RangeComplete idealPrimitives idealLibrary idealKey := by
  intro _ _ openings bits _ hbits _ _ _ hvalues
  refine ⟨(), ?_, ?_⟩
  · have hzip : (openings.map Prod.fst).zip (openings.map Prod.snd) = openings := by
      rw [zip_map']
      exact map_id openings
    simp only [idealLibrary, hzip]
    rfl
  · simp only [idealLibrary, decide_eq_true_eq]
    intro _ hmem
    obtain ⟨opening, hopening, rfl⟩ := mem_map.mp hmem
    refine ⟨idealKey.commitU64 opening.1 opening.2, rfl, ?_⟩
    have hvalue : (idealKey.commitU64 opening.1 opening.2).1 = (opening.1.toNat : Scalar) :=
      idealBinding.value_commit _ _
    have hlt := hvalues opening hopening
    have horder : 2 ^ bits ≤ order :=
      (Nat.pow_le_pow_right (by norm_num) ((validBits_le hbits).trans (by norm_num))).trans
        pow_252_lt_order.le
    rw [hvalue, ZMod.val_natCast, Nat.mod_eq_of_lt (hlt.trans_le horder)]
    exact hlt

theorem ideal_rangeSound : RangeSound idealPrimitives idealLibrary idealBinding := by
  intro _ _ _ _ _ h point hpoint
  simp only [idealLibrary, decide_eq_true_eq] at h
  obtain ⟨_, hother, hlt⟩ := h _ (mem_map_of_mem hpoint)
  rw [idealEncode_inj hother] at hlt
  exact ⟨point.1.val, hlt, (ZMod.natCast_zmod_val point.1).symm⟩

end Ideal

end Zkpi.AggregatedRanges
