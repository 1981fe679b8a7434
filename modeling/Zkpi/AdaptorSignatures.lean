import Zkpi.PedersenSigma

/-!
# Adaptor signatures

A pre-signature is a Schnorr signature whose nonce point lacks an adaptor point. The discrete
logarithm of that point finishes it, and the finished signature gives the logarithm away. Finishing
shifts the nonce of an ordinary signature, so it is signed no differently.
-/

namespace Zkpi.AdaptorSignatures

open ScalarField ByteText PedersenSigma

/-- A signature that is one scalar short of valid. -/
structure PreSignature (P : Type) where
  /-- The nonce point without the adaptor. -/
  r : P
  s : Scalar

structure Signature (P : Type) where
  r : P
  s : Scalar

structure Adaptor (P : Type) where
  secret : Scalar
  point : P

variable {P : Type} [AddCommGroup P] [Module Scalar P]

section Protocol

variable (primitives : Primitives P) (basepoint : P)

def Adaptor.random (secret : Scalar) : Adaptor P := ⟨secret, secret • basepoint⟩

def publicKey (secret : Scalar) : P := secret • basepoint

def challenge (noncePoint key : P) (message : Bytes) : Scalar :=
  let t := Transcript.new (utf8 "qomm:zk:adaptor:v1")
  let t := t.appendPoint primitives "R" noncePoint
  let t := t.appendPoint primitives "X" key
  let t := t.appendMessage "m" message
  primitives.challengeScalar t (utf8 "c")

def preSign (signingKey : Scalar) (adaptorPoint : P) (message : Bytes) (r : Scalar) :
    PreSignature P :=
  let nonce := r • basepoint
  let c := challenge primitives (nonce + adaptorPoint) (publicKey basepoint signingKey) message
  ⟨nonce, r + c * signingKey⟩

def adapt (pre : PreSignature P) (adaptor : Adaptor P) : Signature P :=
  ⟨pre.r + adaptor.point, pre.s + adaptor.secret⟩

def extract (pre : PreSignature P) (signature : Signature P) : Scalar := signature.s - pre.s

def sign (signingKey : Scalar) (message : Bytes) (r : Scalar) : Signature P :=
  let pre := preSign primitives basepoint signingKey 0 message r
  ⟨pre.r, pre.s⟩

variable [DecidableEq P]

def verifyPreSignature (key adaptorPoint : P) (message : Bytes) (pre : PreSignature P) : Bool :=
  let c := challenge primitives (pre.r + adaptorPoint) key message
  publicKey basepoint pre.s = pre.r + c • key

def verify (key : P) (message : Bytes) (signature : Signature P) : Bool :=
  let c := challenge primitives signature.r key message
  publicKey basepoint signature.s = signature.r + c • key

end Protocol

variable {primitives : Primitives P} {basepoint : P}

/-- What the holder of a key pre-signs is accepted under its public key. -/
theorem preSign_accepted [DecidableEq P] (signingKey r : Scalar) (adaptorPoint : P)
    (message : Bytes) :
    verifyPreSignature primitives basepoint (publicKey basepoint signingKey) adaptorPoint message
      (preSign primitives basepoint signingKey adaptorPoint message r) = true := by
  refine decide_eq_true ?_
  simp only [publicKey, preSign, add_smul, mul_smul]

/-- Finishing a pre-signature with a secret gives the signature of the shifted nonce. -/
theorem adapt_preSign :
    adapt (preSign primitives basepoint signingKey (secret • basepoint) message r)
        (.random basepoint secret) =
      sign primitives basepoint signingKey message (r + secret) := by
  simp only [adapt, preSign, sign, Adaptor.random, add_smul, add_zero, Signature.mk.injEq, true_and]
  ring

theorem sign_injective (signingKey : Scalar) (message : Bytes) :
    Function.Injective (sign primitives basepoint signingKey message) := by
  intro r r' h
  obtain ⟨hpoint, hresponse⟩ := Signature.mk.inj h
  -- signatures with one nonce point answer one challenge
  have hpoint : r • basepoint = r' • basepoint := hpoint
  simp only [preSign, hpoint] at hresponse
  exact add_right_cancel hresponse

/-- For every challenge function: whoever made it, a pre-signature that is accepted becomes an
accepted signature with every discrete logarithm of the adaptor point, and every accepted signature
under the completed nonce point gives a discrete logarithm away; and for every signing key and
adaptor, finishing maps the nonces one to one onto the signatures of ordinary signing, each of which
comes from as many nonces. -/
theorem adaptor_signatures [DecidableEq P] (primitives : Primitives P) (basepoint : P) :
    (∀ key adaptorPoint message pre secret,
      verifyPreSignature primitives basepoint key adaptorPoint message pre = true →
      secret • basepoint = adaptorPoint →
      verify primitives basepoint key message (adapt pre ⟨secret, adaptorPoint⟩) = true) ∧
    (∀ key adaptorPoint message pre signature,
      verifyPreSignature primitives basepoint key adaptorPoint message pre = true →
      signature.r = pre.r + adaptorPoint →
      verify primitives basepoint key message signature = true →
      extract pre signature • basepoint = adaptorPoint) ∧
    ∀ signingKey secret message,
      Set.BijOn (fun r => adapt
        (preSign primitives basepoint signingKey (secret • basepoint) message r)
        (.random basepoint secret)) Set.univ
        (Set.range (sign primitives basepoint signingKey message)) ∧
      ∀ signature, Nat.card { r // adapt
          (preSign primitives basepoint signingKey (secret • basepoint) message r)
          (.random basepoint secret) = signature } =
        Nat.card { r // sign primitives basepoint signingKey message r = signature } := by
  refine ⟨fun key adaptorPoint message pre secret hpre hsecret => ?_,
    fun key adaptorPoint message pre signature hpre hpoint hsignature => ?_,
    fun signingKey secret message => ?_⟩
  · have hequation := of_decide_eq_true hpre
    refine decide_eq_true ?_
    simp only [publicKey, adapt, add_smul, hsecret] at hequation ⊢
    rw [hequation, add_right_comm]
  · have hequation := of_decide_eq_true hpre
    have hfinished := of_decide_eq_true hsignature
    simp only [publicKey, hpoint] at hequation hfinished
    rw [extract, sub_smul, hequation, hfinished]
    abel
  · simp only [adapt_preSign]
    refine ⟨⟨fun r _ => ⟨_, rfl⟩, fun r _ r' _ h => ?_, ?_⟩, fun signature => ?_⟩
    · exact add_right_cancel (sign_injective signingKey message h)
    · rintro _ ⟨r, rfl⟩
      exact ⟨r - secret, trivial, congrArg _ (sub_add_cancel r secret)⟩
    · exact Nat.card_congr ((Equiv.addRight secret).subtypeEquiv fun r => Iff.rfl)

end Zkpi.AdaptorSignatures
