import Zkpi.PedersenSigma
import Mathlib.LinearAlgebra.Prod

/-!
# A model in which every accepted proof is sound

Soundness of the sigma protocols is an assumption wherever it is used. This
module shows that the assumption is consistent with everything the verifiers
compute: in the group of pairs of scalars, with independent generators and an
injective encoding, there are challenges that avoid, transcript by transcript,
the one value for which a false statement could be accepted. Honest proofs are
accepted there as everywhere.
-/

namespace Zkpi.IdealChallenges

open ScalarField ByteText PedersenSigma List Transcript

abbrev Point := Scalar × Scalar

def idealKey : Pedersen Point := ⟨(1, 0), (0, 1)⟩

/-- The value of a point is its first coordinate. -/
def idealBinding : Binding idealKey where
  value := LinearMap.fst Scalar Scalar Scalar
  value_g := rfl
  value_h := rfl

def idealEncode (point : Point) : Bytes := replicate (Nat.pair point.1.val point.2.val) 0

theorem idealEncode_inj {a b : Point} (h : idealEncode a = idealEncode b) : a = b := by
  have hlength := congrArg length h
  simp only [idealEncode, length_replicate, Nat.pair_eq_pair] at hlength
  exact Prod.ext (ZMod.val_injective order hlength.1) (ZMod.val_injective order hlength.2)

section Recovery

variable {X : Type} (messages : X → List (Bytes × Bytes)) (bad : X → Scalar)

open Classical in
/-- The bad challenge of the statement that a transcript ends with, if it ends
with one. -/
noncomputable def recovered (transcript : Transcript) : Scalar :=
  if h : ∃ statement before, transcript.messages = before ++ messages statement then
    bad h.choose else 0

theorem recovered_eq (hlength : ∀ x y, (messages x).length = (messages y).length)
    (hinjective : ∀ x y, messages x = messages y → x = y) (label : Bytes)
    (before : List (Bytes × Bytes)) (statement : X) :
    recovered messages bad ⟨label, before ++ messages statement⟩ = bad statement := by
  have hexists : ∃ other earlier, before ++ messages statement = earlier ++ messages other :=
    ⟨statement, before, rfl⟩
  rw [recovered, dif_pos hexists]
  obtain ⟨_, hother⟩ := hexists.choose_spec
  have hends := (append_inj' hother (hlength _ _)).2
  rw [hinjective _ _ hends.symm]

end Recovery

def productMessages (x : Point × Point × Point × Point × Point) : List (Bytes × Bytes) :=
  [(utf8 "dom", utf8 "qomm/product"), (utf8 "Ca", idealEncode x.1),
    (utf8 "Cb", idealEncode x.2.1), (utf8 "Cc", idealEncode x.2.2.1),
    (utf8 "Tf", idealEncode x.2.2.2.1), (utf8 "Tp", idealEncode x.2.2.2.2)]

def productBad (x : Point × Point × Point × Point × Point) : Scalar :=
  (x.2.2.2.2.1 - x.1.1 * x.2.2.2.1.1) / (x.1.1 * x.2.1.1 - x.2.2.1.1)

def bitMessages (x : Point × Point × Point) : List (Bytes × Bytes) :=
  [(utf8 "dom", utf8 "qomm/bit"), (utf8 "C", idealEncode x.1), (utf8 "T0", idealEncode x.2.1),
    (utf8 "T1", idealEncode x.2.2)]

def bitBad (x : Point × Point × Point) : Scalar :=
  -x.2.1.1 / x.1.1 - x.2.2.1 / (x.1.1 - 1)

def openingMessages (x : Point × Point) : List (Bytes × Bytes) :=
  [(utf8 "dom", utf8 "qomm/opening"), (utf8 "C", idealEncode x.1), (utf8 "T", idealEncode x.2)]

def openingBad (x : Point × Point) : Scalar := -x.2.1 / x.1.1

theorem exists_other (a b c : Scalar) : ∃ d : Scalar, d ≠ a ∧ d ≠ b ∧ d ≠ c := by
  have hcard : ({a, b, c} : Finset Scalar).card < (Finset.univ : Finset Scalar).card := by
    have hthree : ({a, b, c} : Finset Scalar).card ≤ 3 := Finset.card_le_three
    rw [Finset.card_univ, ZMod.card]
    have horder : 3 < order := by norm_num [order]
    omega
  obtain ⟨d, _, hd⟩ := Finset.exists_mem_notMem_of_card_lt_card hcard
  simp only [Finset.mem_insert, Finset.mem_singleton, not_or] at hd
  exact ⟨d, hd⟩

variable (transcript : Transcript)

noncomputable def idealChallenge (_label : Bytes) : Scalar :=
  (exists_other (recovered productMessages productBad transcript)
    (recovered bitMessages bitBad transcript)
    (recovered openingMessages openingBad transcript)).choose

noncomputable def idealPrimitives : Primitives Point := ⟨idealEncode, idealChallenge⟩

theorem idealChallenge_ne (label : Bytes) :
    idealChallenge transcript label ≠ recovered productMessages productBad transcript ∧
    idealChallenge transcript label ≠ recovered bitMessages bitBad transcript ∧
    idealChallenge transcript label ≠ recovered openingMessages openingBad transcript :=
  (exists_other _ _ _).choose_spec

theorem product_challenge_ne (ca cb cc tf tp : Point) :
    productChallenge idealPrimitives transcript ca cb cc tf tp ≠
      productBad (ca, cb, cc, tf, tp) := by
  have hinjective : ∀ x y, productMessages x = productMessages y → x = y := by
    rintro ⟨a, b, c, d, e⟩ ⟨_, _, _, _, _⟩ hm
    simp only [productMessages, List.cons.injEq, Prod.mk.injEq, true_and, and_true] at hm
    simp only [Prod.mk.injEq]
    exact ⟨idealEncode_inj hm.1, idealEncode_inj hm.2.1, idealEncode_inj hm.2.2.1,
      idealEncode_inj hm.2.2.2.1, idealEncode_inj hm.2.2.2.2⟩
  have hne := (idealChallenge_ne ⟨transcript.label,
    transcript.messages ++ productMessages (ca, cb, cc, tf, tp)⟩ (utf8 "c")).1
  rw [recovered_eq productMessages productBad (fun _ _ => rfl) hinjective] at hne
  simp only [productChallenge, appendPoint, appendMessage, append_assoc]
  exact hne

theorem bit_challenge_ne (c t0 t1 : Point) :
    bitChallenge idealPrimitives transcript c t0 t1 ≠ bitBad (c, t0, t1) := by
  have hinjective : ∀ x y, bitMessages x = bitMessages y → x = y := by
    rintro ⟨a, b, c⟩ ⟨_, _, _⟩ hm
    simp only [bitMessages, List.cons.injEq, Prod.mk.injEq, true_and, and_true] at hm
    simp only [Prod.mk.injEq]
    exact ⟨idealEncode_inj hm.1, idealEncode_inj hm.2.1, idealEncode_inj hm.2.2⟩
  have hne := (idealChallenge_ne ⟨transcript.label, transcript.messages ++ bitMessages (c, t0, t1)⟩
    (utf8 "c")).2.1
  rw [recovered_eq bitMessages bitBad (fun _ _ => rfl) hinjective] at hne
  simp only [bitChallenge, appendPoint, appendMessage, append_assoc]
  exact hne

theorem opening_challenge_ne (c t : Point) :
    openingChallenge idealPrimitives transcript c t ≠ openingBad (c, t) := by
  have hinjective : ∀ x y, openingMessages x = openingMessages y → x = y := by
    rintro ⟨a, b⟩ ⟨_, _⟩ hm
    simp only [openingMessages, List.cons.injEq, Prod.mk.injEq, true_and, and_true] at hm
    simp only [Prod.mk.injEq]
    exact ⟨idealEncode_inj hm.1, idealEncode_inj hm.2⟩
  have hne := (idealChallenge_ne ⟨transcript.label, transcript.messages ++ openingMessages (c, t)⟩
    (utf8 "c")).2.2
  rw [recovered_eq openingMessages openingBad (fun _ _ => rfl) hinjective] at hne
  simp only [openingChallenge, appendPoint, appendMessage, append_assoc]
  exact hne

theorem ideal_productSound : ProductSound idealPrimitives idealBinding := by
  intro transcript ca cb cc proof h
  by_contra hne
  have hfalse : idealBinding.value ca * idealBinding.value cb - idealBinding.value cc ≠ 0 :=
    fun hzero => hne (sub_eq_zero.mp hzero).symm
  exact product_challenge_ne transcript ca cb cc proof.tFactor proof.tProduct
    (product_false_challenge idealPrimitives idealBinding h hfalse)

theorem ideal_bitSound : BitSound idealPrimitives idealBinding := by
  intro transcript commitment proof h
  by_contra hne
  rw [not_or] at hne
  exact bit_challenge_ne transcript commitment proof.t0 proof.t1
    (bit_false_challenge idealPrimitives idealBinding h hne.1 (sub_ne_zero.mpr hne.2))

theorem ideal_zeroOpeningSound : ZeroOpeningSound idealPrimitives idealBinding := by
  intro transcript residual proof h
  by_contra hne
  exact opening_challenge_ne (zeroOpeningTranscript transcript) residual proof.t
    (zeroOpening_false_challenge idealPrimitives idealBinding h hne)

end Zkpi.IdealChallenges
