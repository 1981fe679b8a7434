import Zkpi.FallibleChecks
import Zkpi.PedersenSigma
import Zkpi.CoefficientPolynomials
import Zkpi.ExponentInterpolation

/-!
# One commitment in a set opens to zero

The set has a power of two members. The prover commits to the bits of an index and to masks,
and the answers to a challenge are linear in it. For every member the product of its answers
is a polynomial in the challenge, and only the polynomial of the chosen index has full degree.
So the weighted sum of the members, less its lower terms, is the chosen member times the
highest power of the challenge.

One more accepting conversation than there are bits gives that highest coefficient back, and
with it an opening of a member; if the answers are not those of one index, they open a
commitment in two ways.
-/

namespace Zkpi.OneOfMany

open ScalarField ByteText FallibleChecks PedersenSigma CoefficientPolynomials List
  ExponentInterpolation Polynomial

structure GkProof (P : Type) where
  /-- Commitments to the bits of the index. -/
  cl : List P
  /-- Commitments to the masks. -/
  ca : List P
  /-- Commitments to bit times mask. -/
  cb : List P
  /-- The lower terms of the weighted sum, blinded. -/
  gk : List P
  f : List Scalar
  za : List Scalar
  zb : List Scalar
  zd : Scalar

structure Draws where
  a : ℕ → Scalar
  r : ℕ → Scalar
  s : ℕ → Scalar
  t : ℕ → Scalar
  rho : ℕ → Scalar

section Protocol

variable {P : Type}

def absorb (primitives : Primitives P) (label : String) (points : List P)
    (transcript : Transcript) : Transcript :=
  points.foldl (fun t point => t.appendMessage label (primitives.compress point))
    (transcript.appendMessage "n" (leBytes 8 points.length))

def challenge (primitives : Primitives P) (transcript : Transcript)
    (commitments cl ca cb gk : List P) : Scalar :=
  let t := transcript.appendMessage "dom" (utf8 "qomm/gk")
  let t := absorb primitives "cl" cl (absorb primitives "C" commitments t)
  let t := absorb primitives "gk" gk (absorb primitives "cb" cb (absorb primitives "ca" ca t))
  primitives.challengeScalar t (utf8 "x")

def lowTerm (index j : ℕ) (a : ℕ → Scalar) : Scalar := if index.testBit j then a j else -a j

/-- The slope of the factor of a member at a bit. -/
def highTerm (index j : ℕ) (ell : ℕ → Scalar) : Scalar :=
  if index.testBit j then ell j else 1 - ell j

def polyCoefficients (index bits : ℕ) (a ell : ℕ → Scalar) : List Scalar :=
  (range bits).foldl
    (fun poly j => timesLinear poly (lowTerm index j a) (highTerm index j ell)) [1]

def bitsOf (index j : ℕ) : Scalar := if index.testBit j then 1 else 0

/-- Whether a set has a size the protocol works for: a power of two, at least two. The trailing
zeros of such a size are its logarithm. -/
def WellSized (size : ℕ) : Prop := size = 2 ^ size.log2 ∧ 2 ≤ size

instance (size : ℕ) : Decidable (WellSized size) :=
  inferInstanceAs (Decidable (size = 2 ^ size.log2 ∧ 2 ≤ size))

variable [AddCommGroup P] [Module Scalar P]

def prove (primitives : Primitives P) (key : Pedersen P) (transcript : Transcript)
    (commitments : List P) (index : ℕ) (randomness : Scalar) (draws : Draws) :
    Except String (GkProof P) := do
  let size := commitments.length
  refuseIf (¬ WellSized size) "the set must be a power of two, at least two"
  refuseIf (size ≤ index) "the index is outside the set"
  let bits := size.log2
  let each {A : Type} (entry : ℕ → A) : List A := (range bits).map entry
  let ell := bitsOf index
  let cl := each fun j => key.commit (ell j) (draws.r j)
  let ca := each fun j => key.commit (draws.a j) (draws.s j)
  let cb := each fun j => key.commit (ell j * draws.a j) (draws.t j)
  let coefficients := (range size).map fun i => polyCoefficients i bits draws.a ell
  let gk := each fun k =>
    multiscalarMul (coefficients.map (·.getD k 0)) commitments + draws.rho k • key.h
  let x := challenge primitives transcript commitments cl ca cb gk
  let f := fun j => ell j * x + draws.a j
  .ok {
    cl, ca, cb, gk
    f := each f
    za := each fun j => draws.r j * x + draws.s j
    zb := each fun j => draws.r j * (x - f j) + draws.t j
    zd := randomness * x ^ bits - ((range bits).map fun k => draws.rho k * x ^ k).sum }

def weightOf (bits : ℕ) (x : Scalar) (f : ℕ → Scalar) (i : ℕ) : Scalar :=
  ((range bits).map fun j => if i.testBit j then f j else x - f j).prod

variable [DecidableEq P]

def accepts (key : Pedersen P) (commitments : List P) (x : Scalar) (proof : GkProof P) : Bool :=
  let size := commitments.length
  let bits := size.log2
  let f := (proof.f.getD · 0)
  decide (WellSized size ∧ proof.f.length = bits ∧ proof.cl.length = bits ∧
    proof.ca.length = bits ∧ proof.cb.length = bits ∧ proof.gk.length = bits ∧
    proof.za.length = bits ∧ proof.zb.length = bits) &&
  ((range bits).all fun j =>
    decide (key.commit (f j) (proof.za.getD j 0) =
      x • proof.cl.getD j 0 + proof.ca.getD j 0) &&
    decide (key.commit 0 (proof.zb.getD j 0) =
      (x - f j) • proof.cl.getD j 0 + proof.cb.getD j 0)) &&
  decide (multiscalarMul
    ((range size).map (weightOf bits x f) ++ (range bits).map (fun k => -x ^ k) ++
      [-proof.zd])
    (commitments ++ proof.gk ++ [key.h]) = 0)

def verify (primitives : Primitives P) (key : Pedersen P) (transcript : Transcript)
    (commitments : List P) (proof : GkProof P) : Bool :=
  accepts key commitments
    (challenge primitives transcript commitments proof.cl proof.ca proof.cb proof.gk) proof

end Protocol

/-! ## The polynomial of a member -/

section Members

variable (index bits : ℕ) (a ell : ℕ → Scalar)

theorem polyCoefficients_succ : polyCoefficients index (bits + 1) a ell =
    timesLinear (polyCoefficients index bits a ell) (lowTerm index bits a)
      (highTerm index bits ell) := by
  rw [polyCoefficients, range_succ, foldl_append]
  rfl

theorem polyCoefficients_length : (polyCoefficients index bits a ell).length = bits + 1 := by
  induction bits with
  | zero => rfl
  | succ bits ih => rw [polyCoefficients_succ, timesLinear_length, ih]

theorem polynomial_polyCoefficients : polynomial (polyCoefficients index bits a ell) =
    ∏ j ∈ Finset.range bits, (C (lowTerm index j a) + C (highTerm index j ell) * X) := by
  induction bits with
  | zero => simp [polyCoefficients]
  | succ bits ih =>
    rw [polyCoefficients_succ, polynomial_timesLinear, ih, Finset.prod_range_succ, mul_comm]

theorem weightOf_eq {f : ℕ → Scalar}
    (hf : ∀ j < bits, f j = ell j * x + a j) : weightOf bits x f index =
      ∑ k ∈ Finset.range (bits + 1), x ^ k * (polyCoefficients index bits a ell).getD k 0 := by
  have hfactor : ∀ j ∈ Finset.range bits, (if index.testBit j then f j else x - f j) =
      (C (lowTerm index j a) + C (highTerm index j ell) * X).eval x := by
    intro j hj
    rw [eval_add, eval_mul, eval_C, eval_C, eval_X, hf j (Finset.mem_range.mp hj), lowTerm,
      highTerm]
    split <;> ring
  have heval := eval_polynomial (polyCoefficients index bits a ell) x
  rw [polyCoefficients_length, polynomial_polyCoefficients, eval_prod,
    ← Finset.prod_congr rfl hfactor] at heval
  simp only [mul_comm (x ^ _), ← heval]
  rfl

theorem polyCoefficients_top : (polyCoefficients index bits a ell).getD bits 0 =
    ∏ j ∈ Finset.range bits, highTerm index j ell := by
  have hdegree : ∀ j ∈ Finset.range bits,
      (C (lowTerm index j a) + C (highTerm index j ell) * X).natDegree ≤ 1 := by
    intro j _
    rw [add_comm]
    exact natDegree_linear_le
  have htop := coeff_prod_of_natDegree_le _ _ 1 hdegree
  rw [Finset.card_range, mul_one, ← polynomial_polyCoefficients, coeff_polynomial] at htop
  rw [htop]
  refine Finset.prod_congr rfl fun j _ => ?_
  simp

theorem polyCoefficients_top_bitsOf (hi : i < 2 ^ bits) (hindex : index < 2 ^ bits) :
    (polyCoefficients i bits a (bitsOf index)).getD bits 0 = if i = index then 1 else 0 := by
  have hslope : ∀ j, highTerm i j (bitsOf index) =
      if i.testBit j = index.testBit j then 1 else 0 := by
    intro j
    rw [highTerm, bitsOf]
    cases i.testBit j <;> cases index.testBit j <;> simp
  rw [polyCoefficients_top]
  simp only [hslope]
  rw [Finset.prod_ite_zero, Finset.prod_const_one]
  refine if_congr ⟨fun h => Nat.eq_of_testBit_eq fun j => ?_, fun h j _ => by rw [h]⟩ rfl rfl
  by_cases hj : j < bits
  · exact h j (Finset.mem_range.mpr hj)
  · have hpow : 2 ^ bits ≤ 2 ^ j := Nat.pow_le_pow_right (by decide) (by omega)
    rw [Nat.testBit_lt_two_pow (hi.trans_le hpow), Nat.testBit_lt_two_pow (hindex.trans_le hpow)]

end Members

/-! ## What an accepted proof satisfies -/

section Acceptance

variable {P : Type} [AddCommGroup P] [Module Scalar P]

theorem multiscalarMul_append {scalars scalars' : List Scalar} {points points' : List P}
    (hlength : scalars.length = points.length) :
    multiscalarMul (scalars ++ scalars') (points ++ points') =
      multiscalarMul scalars points + multiscalarMul scalars' points' := by
  rw [multiscalarMul, zipWith_append hlength, sum_append, multiscalarMul, multiscalarMul]

theorem multiscalarMul_range (points : List P) (f : ℕ → Scalar) :
    multiscalarMul ((range points.length).map f) points =
      ∑ i ∈ Finset.range points.length, f i • points.getD i 0 := by
  induction points generalizing f with
  | nil => rfl
  | cons point rest ih =>
    have hrest := ih (fun i => f (i + 1))
    rw [multiscalarMul] at hrest ⊢
    rw [length_cons, range_succ_eq_map, map_cons, map_map,
      zipWith_cons_cons, sum_cons, Finset.sum_range_succ', add_comm]
    refine congrArg₂ (· + ·) hrest ?_
    rw [getD_cons_zero]

/-- The coefficient of one power of the challenge in the weighted sum of the members. -/
def termAt (commitments : List P) (bits index : ℕ) (a : ℕ → Scalar) (k : ℕ) : P :=
  ∑ i ∈ Finset.range commitments.length,
    (polyCoefficients i bits a (bitsOf index)).getD k 0 • commitments.getD i 0

variable {bits index : ℕ}

theorem sum_weightOf (commitments : List P) {a f : ℕ → Scalar}
    (hf : ∀ j < bits, f j = bitsOf index j * x + a j) :
    ∑ i ∈ Finset.range commitments.length, weightOf bits x f i • commitments.getD i 0 =
      ∑ k ∈ Finset.range (bits + 1), x ^ k • termAt commitments bits index a k := by
  simp only [weightOf_eq _ _ _ _ hf, Finset.sum_smul, termAt, Finset.smul_sum, mul_smul]
  exact Finset.sum_comm

theorem termAt_top {commitments : List P} (a : ℕ → Scalar) (hsize : commitments.length = 2 ^ bits)
    (hindex : index < commitments.length) :
    termAt commitments bits index a bits = commitments.getD index 0 := by
  have htop : ∀ i ∈ Finset.range commitments.length,
      (polyCoefficients i bits a (bitsOf index)).getD bits 0 • commitments.getD i 0 =
        if i = index then commitments.getD i 0 else 0 := by
    intro i hi
    rw [polyCoefficients_top_bitsOf _ _ _ (by rw [← hsize]; exact Finset.mem_range.mp hi)
      (by rw [← hsize]; exact hindex), ite_smul, one_smul, zero_smul]
  rw [termAt, Finset.sum_congr rfl htop, Finset.sum_ite_eq', if_pos (Finset.mem_range.mpr hindex)]

structure Answers (key : Pedersen P) (commitments : List P) (x : Scalar) (proof : GkProof P) :
    Prop where
  sized : WellSized commitments.length
  shape : proof.f.length = commitments.length.log2 ∧ proof.cl.length = commitments.length.log2 ∧
    proof.ca.length = commitments.length.log2 ∧ proof.cb.length = commitments.length.log2 ∧
    proof.gk.length = commitments.length.log2 ∧ proof.za.length = commitments.length.log2 ∧
    proof.zb.length = commitments.length.log2
  /-- The answers open the bit times the challenge plus the mask. -/
  linear : ∀ j < commitments.length.log2, key.commit (proof.f.getD j 0) (proof.za.getD j 0) =
    x • proof.cl.getD j 0 + proof.ca.getD j 0
  /-- The bit times its complement opens to zero. -/
  boolean : ∀ j < commitments.length.log2, key.commit 0 (proof.zb.getD j 0) =
    (x - proof.f.getD j 0) • proof.cl.getD j 0 + proof.cb.getD j 0
  /-- The weighted sum of the members is the lower terms and a power of the blinding. -/
  total : ∑ i ∈ Finset.range commitments.length,
      weightOf commitments.length.log2 x (proof.f.getD · 0) i • commitments.getD i 0 =
    ∑ k ∈ Finset.range commitments.length.log2, x ^ k • proof.gk.getD k 0 + proof.zd • key.h

variable [DecidableEq P] {key : Pedersen P} {commitments : List P} {proof : GkProof P}

theorem accepts_iff : accepts key commitments x proof = true ↔
    Answers key commitments x proof := by
  have htotal : proof.gk.length = commitments.length.log2 →
      (multiscalarMul
        ((range commitments.length).map (weightOf commitments.length.log2 x
          (proof.f.getD · 0)) ++ (range commitments.length.log2).map (fun k => -x ^ k) ++
          [-proof.zd])
        (commitments ++ proof.gk ++ [key.h]) = 0 ↔
      ∑ i ∈ Finset.range commitments.length,
          weightOf commitments.length.log2 x (proof.f.getD · 0) i • commitments.getD i 0 =
        ∑ k ∈ Finset.range commitments.length.log2, x ^ k • proof.gk.getD k 0 +
          proof.zd • key.h) := by
    intro hgk
    rw [multiscalarMul_append (by simp [hgk]), multiscalarMul_append (by simp), ← hgk,
      multiscalarMul_range, multiscalarMul_range]
    simp only [neg_smul, Finset.sum_neg_distrib, multiscalarMul, zipWith_cons_cons,
      zipWith_nil_right, sum_cons, sum_nil, add_zero]
    rw [← sub_eq_add_neg, ← sub_eq_add_neg, sub_sub, sub_eq_zero]
  unfold accepts
  simp only [Bool.and_eq_true, decide_eq_true_eq, all_eq_true, mem_range]
  constructor
  · rintro ⟨⟨⟨hsized, hshape⟩, hbits⟩, hsum⟩
    exact ⟨hsized, hshape, fun j hj => (hbits j hj).1, fun j hj => (hbits j hj).2,
      (htotal hshape.2.2.2.2.1).mp hsum⟩
  · intro h
    exact ⟨⟨⟨h.sized, h.shape⟩, fun j hj => ⟨h.linear j hj, h.boolean j hj⟩⟩,
      (htotal h.shape.2.2.2.2.1).mpr h.total⟩

end Acceptance

/-! ## Completeness -/

section Completeness

variable {P : Type} [AddCommGroup P] [Module Scalar P] {primitives : Primitives P}
  {key : Pedersen P} {transcript : Transcript} {commitments : List P} {index : ℕ}
  {randomness : Scalar} {draws : Draws}

theorem getD_map_range {A : Type} {entry : ℕ → A} {fallback : A} (hj : j < n) :
    ((range n).map entry).getD j fallback = entry j := by
  simp [hj]

theorem verify_prove [DecidableEq P]
    (hproof : prove primitives key transcript commitments index randomness draws = .ok proof)
    (hopens : commitments.getD index 0 = randomness • key.h) :
    verify primitives key transcript commitments proof = true := by
  unfold prove at hproof
  simp only [refuseIf_bind_ok, not_not, not_le, Except.ok.injEq] at hproof
  obtain ⟨hsized, hindex, rfl⟩ := hproof
  rw [verify, accepts_iff]
  generalize challenge primitives transcript commitments _ _ _ _ = x
  refine ⟨hsized, by simp, fun j hj => ?_, fun j hj => ?_, ?_⟩
  · simp only [getD_map_range hj, Pedersen.commit]
    module
  · have hvalue : (x - (bitsOf index j * x + draws.a j)) * bitsOf index j +
        bitsOf index j * draws.a j = 0 := by
      rw [bitsOf]
      split <;> ring
    simp only [getD_map_range hj, Pedersen.commit]
    rw [← hvalue]
    module
  · have hf : ∀ j < commitments.length.log2,
        ((range commitments.length.log2).map
          (fun j => bitsOf index j * x + draws.a j)).getD j 0 =
        bitsOf index j * x + draws.a j := fun j hj => getD_map_range hj
    rw [sum_weightOf commitments hf, Finset.sum_range_succ, termAt_top _ hsized.1 hindex, hopens]
    have hlower : ∀ k ∈ Finset.range commitments.length.log2,
        x ^ k • ((range commitments.length.log2).map (fun k => multiscalarMul
          (((range commitments.length).map fun i =>
            polyCoefficients i commitments.length.log2 draws.a (bitsOf index)).map (·.getD k 0))
          commitments + draws.rho k • key.h)).getD k 0 =
        x ^ k • termAt commitments commitments.length.log2 index draws.a k +
          (draws.rho k * x ^ k) • key.h := by
      intro k hk
      rw [getD_map_range (Finset.mem_range.mp hk), map_map, multiscalarMul_range, smul_add,
        smul_smul, mul_comm (x ^ k)]
      rfl
    rw [Finset.sum_congr rfl hlower, Finset.sum_add_distrib, ← Finset.sum_smul, sub_smul]
    have hrho : ((range commitments.length.log2).map fun k => draws.rho k * x ^ k).sum =
        ∑ k ∈ Finset.range commitments.length.log2, draws.rho k * x ^ k := rfl
    rw [hrho]
    module

theorem prove_ok (hsized : WellSized commitments.length) (hindex : index < commitments.length) :
    ∃ proof, prove primitives key transcript commitments index randomness draws = .ok proof := by
  unfold prove
  simp only [refuseIf_bind_ok, not_not, not_le, Except.ok.injEq]
  exact ⟨_, hsized, hindex, rfl⟩

end Completeness

/-! ## Special soundness -/

/-- A challenge and a proof that answers it. -/
structure Conversation (P : Type) where
  x : Scalar
  proof : GkProof P

/-- What the prover published before the challenge. -/
def GkProof.first {P : Type} (proof : GkProof P) : List P × List P × List P × List P :=
  (proof.cl, proof.ca, proof.cb, proof.gk)

/-- What conversations give away: the opening of a member, or two openings of one commitment. -/
inductive Extraction where
  | opening (index : ℕ) (blinding : Scalar)
  | collision (left right : Scalar × Scalar)
  deriving DecidableEq

section Extractor

variable {P : Type}

def Conversation.answer (conversation : Conversation P) (j : ℕ) : Scalar × Scalar :=
  (conversation.proof.f.getD j 0, conversation.proof.za.getD j 0)

variable (left right : Conversation P)

def bitOpening (j : ℕ) : Scalar × Scalar :=
  (left.x - right.x)⁻¹ • (left.answer j - right.answer j)

def maskOpening (j : ℕ) : Scalar × Scalar := left.answer j - left.x • bitOpening left right j

/-- The answer at a bit that two conversations give for a challenge. -/
def lineAt (j : ℕ) (x : Scalar) : Scalar × Scalar :=
  x • bitOpening left right j + maskOpening left right j

/-- A third conversation off the line of the first two opens one commitment in two ways. -/
def strays (conversation : Conversation P) (j : ℕ) :
    Option ((Scalar × Scalar) × (Scalar × Scalar)) :=
  if conversation.answer j = lineAt left right j conversation.x then none
  else some (conversation.answer j, lineAt left right j conversation.x)

def scaledBit (j : ℕ) : Scalar × Scalar :=
  ((left.x - (left.answer j).1) - (right.x - (right.answer j).1)) • bitOpening left right j

/-- A bit that is neither zero nor one opens one commitment in two ways. -/
def notBoolean (j : ℕ) : Option ((Scalar × Scalar) × (Scalar × Scalar)) :=
  if (scaledBit left right j).1 = 0 then none
  else some ((0, left.proof.zb.getD j 0 - right.proof.zb.getD j 0), scaledBit left right j)

def firstCollision (bits : ℕ) (conversations : List (Conversation P)) :
    Option ((Scalar × Scalar) × (Scalar × Scalar)) :=
  (range bits).findSome? fun j =>
    (notBoolean left right j).or (conversations.findSome? (strays left right · j))

def blindingOf (conversations : List (Conversation P)) : Scalar :=
  ∑ t ∈ Finset.range conversations.length,
    leadingWeight (Finset.range conversations.length)
      (fun s => (conversations.map (·.x)).getD s 0) t *
      (conversations.map (·.proof.zd)).getD t 0

def extract (bits : ℕ) : List (Conversation P) → Option Extraction
  | left :: right :: rest =>
    match firstCollision left right bits (left :: right :: rest) with
    | some (opening, opening') => some (.collision opening opening')
    | none => some (.opening
        (Nat.ofBits fun j : Fin bits => decide ((bitOpening left right j).1 = 1))
        (blindingOf (left :: right :: rest)))
  | _ => none

end Extractor

section Soundness

variable {P : Type} [AddCommGroup P] [Module Scalar P]

def openedBy (key : Pedersen P) (opening : Scalar × Scalar) : P :=
  key.commit opening.1 opening.2

theorem openedBy_add (key : Pedersen P) (left right : Scalar × Scalar) :
    openedBy key (left + right) = openedBy key left + openedBy key right := by
  simp only [openedBy, Pedersen.commit, Prod.fst_add, Prod.snd_add]
  module

theorem openedBy_smul (key : Pedersen P) (scalar : Scalar) (opening : Scalar × Scalar) :
    openedBy key (scalar • opening) = scalar • openedBy key opening := by
  simp only [openedBy, Pedersen.commit, Prod.smul_fst, Prod.smul_snd, smul_eq_mul]
  module

theorem openedBy_sub (key : Pedersen P) (left right : Scalar × Scalar) :
    openedBy key (left - right) = openedBy key left - openedBy key right := by
  simp only [openedBy, Pedersen.commit, Prod.fst_sub, Prod.snd_sub]
  module

def Extraction.Valid (key : Pedersen P) (commitments : List P) : Extraction → Prop
  | .opening index blinding => commitments[index]? = some (blinding • key.h)
  | .collision left right => left ≠ right ∧
      key.commit left.1 left.2 = key.commit right.1 right.2

variable {key : Pedersen P} {commitments : List P} {left right : Conversation P} {j : ℕ}

theorem openedBy_bitOpening (hleft : Answers key commitments left.x left.proof)
    (hright : Answers key commitments right.x right.proof)
    (hfirst : left.proof.first = right.proof.first) (hx : left.x ≠ right.x)
    (hj : j < commitments.length.log2) :
    openedBy key (bitOpening left right j) = left.proof.cl.getD j 0 ∧
      openedBy key (maskOpening left right j) = left.proof.ca.getD j 0 := by
  obtain ⟨hcl, hca, -, -⟩ : left.proof.cl = right.proof.cl ∧ left.proof.ca = right.proof.ca ∧
      left.proof.cb = right.proof.cb ∧ left.proof.gk = right.proof.gk := by
    simpa only [GkProof.first, Prod.mk.injEq] using hfirst
  have hl : openedBy key (left.answer j) =
      left.x • left.proof.cl.getD j 0 + left.proof.ca.getD j 0 := hleft.linear j hj
  have hr : openedBy key (right.answer j) =
      right.x • left.proof.cl.getD j 0 + left.proof.ca.getD j 0 := by
    rw [hcl, hca]
    exact hright.linear j hj
  have hbit : openedBy key (bitOpening left right j) = left.proof.cl.getD j 0 := by
    have hdiff : left.x - right.x ≠ 0 := sub_ne_zero.mpr hx
    rw [bitOpening, openedBy_smul, openedBy_sub, hl, hr, add_sub_add_right_eq_sub, ← sub_smul,
      smul_smul, inv_mul_cancel₀ hdiff, one_smul]
  refine ⟨hbit, ?_⟩
  rw [maskOpening, openedBy_sub, openedBy_smul, hbit, hl, add_sub_cancel_left]

variable {conversation : Conversation P}

theorem strays_spec (hanswers : Answers key commitments conversation.x conversation.proof)
    (hj : j < commitments.length.log2)
    (hbit : openedBy key (bitOpening left right j) = conversation.proof.cl.getD j 0)
    (hmask : openedBy key (maskOpening left right j) = conversation.proof.ca.getD j 0)
    (h : strays left right conversation j = some (opening, opening')) :
    opening ≠ opening' ∧ openedBy key opening = openedBy key opening' := by
  unfold strays at h
  split at h
  · cases h
  · rename_i hne
    simp only [Option.some.injEq, Prod.mk.injEq] at h
    obtain ⟨rfl, rfl⟩ := h
    refine ⟨hne, ?_⟩
    rw [lineAt, openedBy_add, openedBy_smul, hbit, hmask]
    exact hanswers.linear j hj

theorem notBoolean_spec (hleft : Answers key commitments left.x left.proof)
    (hright : Answers key commitments right.x right.proof)
    (hfirst : left.proof.first = right.proof.first) (hj : j < commitments.length.log2)
    (hbit : openedBy key (bitOpening left right j) = left.proof.cl.getD j 0)
    (h : notBoolean left right j = some (opening, opening')) :
    opening ≠ opening' ∧ openedBy key opening = openedBy key opening' := by
  unfold notBoolean at h
  split at h
  · cases h
  · rename_i hne
    simp only [Option.some.injEq, Prod.mk.injEq] at h
    obtain ⟨rfl, rfl⟩ := h
    refine ⟨fun heq => hne (congrArg Prod.fst heq).symm, ?_⟩
    obtain ⟨hcl, -, hcb, -⟩ : left.proof.cl = right.proof.cl ∧ left.proof.ca = right.proof.ca ∧
        left.proof.cb = right.proof.cb ∧ left.proof.gk = right.proof.gk := by
      simpa only [GkProof.first, Prod.mk.injEq] using hfirst
    have hl := hleft.boolean j hj
    have hr := hright.boolean j hj
    rw [← hcl, ← hcb] at hr
    have hsplit : openedBy key (0, left.proof.zb.getD j 0 - right.proof.zb.getD j 0) =
        key.commit 0 (left.proof.zb.getD j 0) - key.commit 0 (right.proof.zb.getD j 0) := by
      simp only [openedBy, Pedersen.commit]
      module
    rw [hsplit, hl, hr, scaledBit, openedBy_smul, hbit, Conversation.answer, Conversation.answer]
    module

omit [AddCommGroup P] [Module Scalar P] in
theorem boolean_of_notBoolean (hx : left.x ≠ right.x) (h : notBoolean left right j = none) :
    (bitOpening left right j).1 = 0 ∨ (bitOpening left right j).1 = 1 := by
  unfold notBoolean at h
  split at h
  · rename_i hzero
    have hdiff : left.x - right.x ≠ 0 := sub_ne_zero.mpr hx
    have hslope : (left.answer j).1 - (right.answer j).1 =
        (left.x - right.x) * (bitOpening left right j).1 := by
      rw [bitOpening, Prod.smul_fst, Prod.fst_sub, smul_eq_mul, mul_inv_cancel_left₀ hdiff]
    have hproduct : (left.x - right.x) * ((1 - (bitOpening left right j).1) *
        (bitOpening left right j).1) = 0 := by
      rw [scaledBit, Prod.smul_fst, smul_eq_mul] at hzero
      linear_combination hzero + hslope * (bitOpening left right j).1
    rcases mul_eq_zero.mp ((mul_eq_zero.mp hproduct).resolve_left hdiff) with hone | hzero
    · exact .inr (sub_eq_zero.mp hone).symm
    · exact .inl hzero
  · cases h

/-- Accepting conversations that share their first message: one more than there are bits, with
distinct challenges. -/
structure Forked (key : Pedersen P) (commitments : List P)
    (conversations : List (Conversation P)) : Prop where
  enough : conversations.length = commitments.length.log2 + 1
  answers : ∀ conversation ∈ conversations,
    Answers key commitments conversation.x conversation.proof
  first : ∀ conversation ∈ conversations, ∀ conversation' ∈ conversations,
    conversation.proof.first = conversation'.proof.first
  distinct : (conversations.map (·.x)).Nodup

variable {conversations : List (Conversation P)}

/-- If all conversations answer for the bits of one index, the highest coefficient of their
equations opens the member there. -/
theorem Forked.blinding {index : ℕ} {a : ℕ → Scalar} (h : Forked key commitments conversations)
    (hindex : index < commitments.length)
    (hline : ∀ conversation ∈ conversations, ∀ j < commitments.length.log2,
      conversation.proof.f.getD j 0 = bitsOf index j * conversation.x + a j) :
    commitments.getD index 0 = blindingOf conversations • key.h := by
  obtain ⟨start, hstart⟩ : ∃ start, start ∈ conversations :=
    exists_mem_of_length_pos (by rw [h.enough]; omega)
  have hsize := (h.answers start hstart).sized.1
  have hgk : start.proof.gk.length = commitments.length.log2 :=
    (h.answers start hstart).shape.2.2.2.2.1
  let c (k : ℕ) : P :=
    termAt commitments commitments.length.log2 index a k - start.proof.gk.getD k 0
  have htop : c commitments.length.log2 = commitments.getD index 0 := by
    show termAt commitments _ index a _ - _ = _
    rw [termAt_top a hsize hindex, getD_eq_default _ _ hgk.le, sub_zero]
  have hequation : ∀ conversation ∈ conversations,
      ∑ k ∈ Finset.range conversations.length, conversation.x ^ k • c k =
        conversation.proof.zd • key.h := by
    intro conversation hmem
    have htotal := (h.answers conversation hmem).total
    have hsame : conversation.proof.gk = start.proof.gk := by
      have := h.first conversation hmem start hstart
      simp only [GkProof.first, Prod.mk.injEq] at this
      exact this.2.2.2
    rw [sum_weightOf commitments (hline conversation hmem), hsame] at htotal
    have hlast : (start.proof.gk.getD commitments.length.log2 0) = 0 :=
      getD_eq_default _ _ hgk.le
    simp only [c, smul_sub, Finset.sum_sub_distrib, h.enough]
    rw [htotal, Finset.sum_range_succ, hlast, smul_zero, add_zero, add_sub_cancel_left]
  have hinj : Set.InjOn (fun s => (conversations.map (·.x)).getD s 0)
      (Finset.range conversations.length) := by
    intro s hs t ht heq
    dsimp only at heq
    have hs' : s < (conversations.map (·.x)).length := by simpa using hs
    have ht' : t < (conversations.map (·.x)).length := by simpa using ht
    rw [getD_eq_getElem _ _ hs', getD_eq_getElem _ _ ht'] at heq
    exact (h.distinct.getElem_inj_iff).mp heq
  have hreads := reads_leading hinj
  rw [Finset.card_range] at hreads
  have hlt : conversations.length - 1 < conversations.length := by
    rw [h.enough]
    omega
  have hread := hreads.sum_smul hlt c
  rw [h.enough, Nat.add_sub_cancel, htop, ← h.enough] at hread
  rw [← hread, blindingOf, Finset.sum_smul]
  refine Finset.sum_congr rfl fun t ht => ?_
  have ht' : t < conversations.length := Finset.mem_range.mp ht
  rw [mul_smul]
  have hx : (conversations.map (·.x)).getD t 0 = conversations[t].x := by simp [ht']
  have hzd : (conversations.map (·.proof.zd)).getD t 0 = conversations[t].proof.zd := by
    simp [ht']
  rw [hx, hzd, hequation _ (getElem_mem ht')]

theorem firstCollision_some
    (h : Forked key commitments (left :: right :: rest)) (hx : left.x ≠ right.x)
    (hfound : firstCollision left right commitments.length.log2 (left :: right :: rest) = some
      (opening, opening')) :
    opening ≠ opening' ∧ openedBy key opening = openedBy key opening' := by
  have hleft := h.answers left mem_cons_self
  have hright := h.answers right (mem_cons_of_mem _ mem_cons_self)
  have hsame := h.first left mem_cons_self right (mem_cons_of_mem _ mem_cons_self)
  obtain ⟨j, hj, hat⟩ := exists_of_findSome?_eq_some hfound
  rw [mem_range] at hj
  obtain ⟨hbit, hmask⟩ := openedBy_bitOpening hleft hright hsame hx hj
  rcases Option.or_eq_some_iff.mp hat with hboolean | ⟨-, hstrays⟩
  · exact notBoolean_spec hleft hright hsame hj hbit hboolean
  · obtain ⟨conversation, hmem, hstray⟩ := exists_of_findSome?_eq_some hstrays
    have hfirst := h.first left mem_cons_self conversation hmem
    simp only [GkProof.first, Prod.mk.injEq] at hfirst
    rw [hfirst.1] at hbit
    rw [hfirst.2.1] at hmask
    exact strays_spec (h.answers conversation hmem) hj hbit hmask hstray

omit [AddCommGroup P] [Module Scalar P] in
theorem firstCollision_none {bits : ℕ} (hx : left.x ≠ right.x)
    (hnone : firstCollision left right bits conversations = none)
    (hmem : conversation ∈ conversations) {j : ℕ} (hj : j < bits) :
    conversation.proof.f.getD j 0 =
      bitsOf (Nat.ofBits fun i : Fin bits => decide ((bitOpening left right i).1 = 1)) j *
        conversation.x + (maskOpening left right j).1 := by
  have hat := findSome?_eq_none_iff.mp hnone j (mem_range.mpr hj)
  obtain ⟨hboolean, hstrays⟩ := Option.or_eq_none_iff.mp hat
  have hbit : bitsOf (Nat.ofBits fun i : Fin bits => decide ((bitOpening left right i).1 = 1)) j =
      (bitOpening left right j).1 := by
    rw [bitsOf, Nat.testBit_ofBits_lt _ _ hj]
    rcases boolean_of_notBoolean hx hboolean with hzero | hone
    · simp [hzero]
    · simp [hone]
  have honline := findSome?_eq_none_iff.mp hstrays conversation hmem
  unfold strays at honline
  split at honline
  · rename_i hanswer
    have hfst := congrArg Prod.fst hanswer
    rw [hbit, mul_comm]
    exact hfst
  · cases honline

theorem extract_valid (h : Forked key commitments conversations) :
    ∃ result, extract commitments.length.log2 conversations = some result ∧
      result.Valid key commitments := by
  match conversations, h with
  | [], h => exact absurd h.enough (by simp)
  | [only], h =>
    have hsized := (h.answers only mem_cons_self).sized
    have henough := h.enough
    rw [length_singleton] at henough
    have hsize := hsized.1
    rw [show commitments.length.log2 = 0 by omega] at hsize
    have := hsized.2
    omega
  | left :: right :: rest, h =>
    have hx : left.x ≠ right.x := by
      have hdistinct := h.distinct
      rw [map_cons, nodup_cons, map_cons] at hdistinct
      exact fun heq => hdistinct.1 (heq ▸ mem_cons_self)
    cases hcollision : firstCollision left right commitments.length.log2
        (left :: right :: rest) with
    | some collision =>
      refine ⟨.collision collision.1 collision.2, by simp [extract, hcollision], ?_⟩
      exact firstCollision_some h hx hcollision
    | none =>
      refine ⟨_, by simp only [extract, hcollision]; rfl, ?_⟩
      have hindex := Nat.ofBits_lt_two_pow
        fun i : Fin commitments.length.log2 => decide ((bitOpening left right i).1 = 1)
      rw [← (h.answers left mem_cons_self).sized.1] at hindex
      have hopens := h.blinding hindex fun conversation hmem j hj =>
        firstCollision_none hx hcollision hmem hj
      rw [getD_eq_getElem _ _ hindex] at hopens
      rw [Extraction.Valid, getElem?_eq_getElem hindex, hopens]

/-- One-out-of-many proofs are complete and specially sound. For every set of a power of two, at
least two, members and every member that is a power of the blinding generator, what the prover
publishes is accepted, whatever is drawn. And accepting conversations with one first message and
distinct challenges, one more than the logarithm of the set, give away an index and a blinding
that opens the member there, or two openings of one commitment. -/
theorem one_of_many_exact [DecidableEq P] (primitives : Primitives P) (key : Pedersen P)
    (commitments : List P) :
    (∀ bits, 1 ≤ bits → commitments.length = 2 ^ bits →
      ∀ (transcript : Transcript) (index : ℕ) (randomness : Scalar) (draws : Draws),
        commitments[index]? = some (randomness • key.h) →
        ∃ proof, prove primitives key transcript commitments index randomness draws = .ok proof ∧
          verify primitives key transcript commitments proof = true) ∧
    ∀ conversations : List (Conversation P),
      conversations.length = commitments.length.log2 + 1 →
      (∀ conversation ∈ conversations,
        accepts key commitments conversation.x conversation.proof = true) →
      (∀ conversation ∈ conversations, ∀ conversation' ∈ conversations,
        conversation.proof.first = conversation'.proof.first) →
      (conversations.map (·.x)).Nodup →
      ∃ result, extract commitments.length.log2 conversations = some result ∧
        result.Valid key commitments := by
  refine ⟨fun bits hbits hsize transcript index randomness draws hopens => ?_,
    fun conversations henough haccepts hfirst hdistinct => ?_⟩
  · have hsized : WellSized commitments.length := by
      refine ⟨by rw [hsize, Nat.log2_two_pow], ?_⟩
      rw [hsize]
      exact Nat.le_self_pow (by omega) 2
    obtain ⟨hindex, hvalue⟩ := List.getElem?_eq_some_iff.mp hopens
    obtain ⟨proof, hproof⟩ := prove_ok hsized hindex
    refine ⟨proof, hproof, verify_prove hproof ?_⟩
    rw [getD_eq_getElem _ _ hindex, hvalue]
  · exact extract_valid ⟨henough, fun conversation hmem => accepts_iff.mp (haccepts _ hmem), hfirst,
      hdistinct⟩

end Soundness

def sampleProof (zd : Scalar) : GkProof Scalar := ⟨[0], [0], [0], [0], [0], [0], [0], zd⟩

/-- Two answers about the set of five and seven give the blinding five of the first member. -/
theorem one_of_many_exact_pair :
    extract 1 [⟨1, sampleProof 5⟩, ⟨2, sampleProof 10⟩] = some (.opening 0 5) ∧
      ∃ result, extract 1 [⟨1, sampleProof 5⟩, ⟨2, sampleProof 10⟩] = some result ∧
        result.Valid (⟨1, 1⟩ : Pedersen Scalar) [5, 7] := by
  refine ⟨by decide +kernel, ?_⟩
  have hsame : ∀ conversation ∈ [⟨1, sampleProof 5⟩, (⟨2, sampleProof 10⟩ : Conversation Scalar)],
      conversation.proof.first = (sampleProof 5).first := by
    simp [sampleProof, GkProof.first]
  exact (one_of_many_exact ⟨fun _ => [], fun _ _ => 0⟩ ⟨1, 1⟩ [5, 7]).2
    [⟨1, sampleProof 5⟩, ⟨2, sampleProof 10⟩] rfl (by decide +kernel)
    (fun conversation hmem conversation' hmem' =>
      (hsame conversation hmem).trans (hsame conversation' hmem').symm) (by decide +kernel)

end Zkpi.OneOfMany
