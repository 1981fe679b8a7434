import Zkpi.DealtSharings

/-!
# Who is blamed when an assembly fails

Once a challenge has been made from sealed first moves, a general opening and a product either
assemble to an accepted proof or fail under the name of a party whose answer does not open its
own first move. A party that followed the rounds is never named.

Zero openings and ranges are different. Their nodes may draw no value nonce, but a node that
draws one passes its own check all the same, and then the assembly fails under nobody's name.
That is the only failure without a name, and it happens exactly when all answers open their
first moves while the interpolated value answer does not vanish.
-/

namespace Zkpi.IdentifiableAbort

open ScalarField ByteText FallibleChecks IndexedTables PedersenSigma Transcript
open QuorumInterpolation SealedRounds ThresholdOpening ThresholdProduct
open ThresholdRangeRounds DealtSharings

def Answering {A : Type} (party : A → PartyId) (responses : List A) (quorum : List PartyId) :
    Prop :=
  ∀ p, (∃ answer ∈ responses, party answer = p) ↔ p ∈ quorum

section Abort

variable {P : Type} [AddCommGroup P] [Module Scalar P] [DecidableEq P]

variable (lib : RoundLibrary P)

variable (key : Pedersen P)

/-- A party followed the rounds of a general opening with shares that open its evaluation of the
ladder. -/
def HonestOpener (ladder : List P) (context : Bytes) (challenge : OpeningChallenge P)
    (messages : List (OpeningRound1 P))
    (responses : List OpeningRound2) (party : PartyId) : Prop :=
  ∃ contribution : OpeningNodeContribution, contribution.party = party ∧
    key.commit contribution.valueShare contribution.blindingShare =
      ladderAt ladder (partyScalar party) ∧
    FollowedOpening lib key .general context contribution challenge
      (indexBy OpeningRound1.party messages)[party]!
      (indexBy OpeningRound2.party responses)[party]!

/-- A party followed the rounds of a product with shares that open its evaluations of both
ladders. -/
def HonestMultiplier (statement : ProductStatement P) (context : Bytes)
    (challenge : ProductChallenge P) (messages : List (ProductRound1 P))
    (responses : List ProductRound2) (party : PartyId) : Prop :=
  ∃ contribution : ProductNodeContribution P, contribution.party = party ∧
    OpensLadders key statement contribution ∧
    FollowedProduct lib key statement.multiplicand context contribution challenge
      (indexBy ProductRound1.party messages)[party]!
      (indexBy ProductRound2.party responses)[party]!

/-- General openings and products identify who made them fail. For every ladder that starts at
its commitment and is no longer than the quorum, every first moves from which a challenge was
made and every answers of the quorum, an assembly returns an accepted proof, or an error that
names a party of the quorum whose answer does not open its first move plus the challenge times
its evaluation. The error never names a party that followed the rounds, and it is never the one
for a proof that does not verify. -/
theorem failures_identified (lib : RoundLibrary P) (key : Pedersen P)
    (hcompress : Function.Injective lib.primitives.compress) (quorum : List PartyId)
    (context : Bytes) (transcript : Transcript) :
    (∀ (commitment : P) (ladder : List P) (messages : List (OpeningRound1 P))
      (seals : List Round1Seal) (responses : List OpeningRound2)
      (challenge : OpeningChallenge P),
      ladder.head? = some commitment → ladder.length ≤ quorum.length →
      makeOpeningChallengeWithTranscript lib commitment messages seals quorum context transcript =
        .ok challenge →
      Answering OpeningRound2.party responses quorum →
      match assembleOpeningFromRoundsWithTranscript lib key commitment ladder messages seals
          responses quorum context transcript with
      | .ok proof => verifyOpening lib.primitives key transcript commitment proof = true
      | .error error =>
        (∃ p ∈ quorum, NamesParty error p ∧ ¬ OpensFirstMove key ladder challenge p
          (indexBy OpeningRound1.party messages)[p]!
          (indexBy OpeningRound2.party responses)[p]!) ∧
        (∀ p, HonestOpener lib key ladder context challenge messages responses p →
          ¬ NamesParty error p) ∧
        error ≠ "assembled threshold opening proof does not verify") ∧
    (∀ (statement : ProductStatement P) (messages : List (ProductRound1 P))
      (seals : List Round1Seal) (responses : List ProductRound2)
      (challenge : ProductChallenge P),
      statement.Anchored → statement.factorCoefficients.length ≤ quorum.length →
      statement.relationCoefficients.length ≤ quorum.length →
      makeProductChallengeWithTranscript lib statement messages seals quorum context transcript =
        .ok challenge →
      Answering ProductRound2.party responses quorum →
      match assembleProductFromRoundsWithTranscript lib key statement messages seals responses
          quorum context transcript with
      | .ok proof => verifyProduct lib.primitives key transcript statement.multiplicand
          statement.factorCommitment statement.productCommitment proof = true
      | .error error =>
        (∃ p ∈ quorum, NamesParty error p ∧ ¬ OpensFirstMoves key statement challenge p
          (indexBy ProductRound1.party messages)[p]!
          (indexBy ProductRound2.party responses)[p]!) ∧
        (∀ p, HonestMultiplier lib key statement context challenge messages responses p →
          ¬ NamesParty error p) ∧
        error ≠ "assembled threshold product proof does not verify") := by
  constructor
  · intro commitment ladder messages seals responses challenge hladder hlength hchallenge hanswers
    have hcovers := covers_indexBy (makeOpeningChallenge_ok hchallenge).1.nodup hanswers
    split
    · rename_i proof hproof
      exact assembleOpening_ok hproof
    · rename_i error herror
      obtain ⟨p, hp, hnames, hbad⟩ := (assembleOpening_error hchallenge hladder hlength hcovers
        hcompress herror).resolve_right fun hzero => nomatch hzero.1
      refine ⟨⟨p, hp, hnames, hbad⟩, fun q hq hblamed => hbad ?_, ?_⟩
      · obtain rfl := hblamed.unique hnames
        obtain ⟨contribution, rfl, hshare, hfollowed⟩ := hq
        exact hfollowed.opens hshare
      · rintro rfl
        exact absurd hnames.head (by decide)
  · intro statement messages seals responses challenge hstatement hfactor hrelation hchallenge
      hanswers
    have hcovers := covers_indexBy (makeProductChallenge_ok hchallenge).1.nodup hanswers
    split
    · rename_i proof hproof
      exact assembleProduct_ok hproof
    · rename_i error herror
      obtain ⟨p, hp, hnames, hbad⟩ := assembleProduct_error hchallenge hstatement hfactor hrelation
        hcovers hcompress herror
      refine ⟨⟨p, hp, hnames, hbad⟩, fun q hq hblamed => hbad ?_, ?_⟩
      · obtain rfl := hblamed.unique hnames
        obtain ⟨_, rfl, hshare, hfollowed⟩ := hq
        exact hfollowed.opens hshare
      · rintro rfl
        exact absurd hnames.head (by decide)

/-! ## Zero openings and ranges -/

def StrayOpener {t : ℕ} (values blindings : Coefficients t) (context : Bytes)
    (challenge : OpeningChallenge P)
    (messages : List (OpeningRound1 P)) (responses : List OpeningRound2) (party : PartyId) :
    Prop :=
  ¬ FollowedOpening lib key .zero context (openingContribution values blindings party) challenge
    (indexBy OpeningRound1.party messages)[party]! (indexBy OpeningRound2.party responses)[party]!

def StrayRanger {t width : ℕ} (sharing : RangeSharing t width) (context : Bytes)
    (challenge : RangeChallenge P)
    (messages : List (RangeRound1 P)) (responses : List RangeRound2) (party : PartyId) : Prop :=
  ¬ FollowedRange lib key context (sharing.node key party) challenge
    (indexBy RangeRound1.party messages)[party]! (indexBy RangeRound2.party responses)[party]!

/-- What makes a zero opening or a range of an honest statement fail after its challenge. Either
the error names a party that left the rounds, or it is the one for a proof that does not verify:
then every answer opens its first move, the interpolated value answer (for a range, of its link)
does not vanish, and some party of the quorum left the rounds. -/
theorem failures_explained (lib : RoundLibrary P) (key : Pedersen P)
    (hcompress : Function.Injective lib.primitives.compress) {quorum : List PartyId}
    (hnodup : quorum.Nodup) {t : ℕ} (hsize : t + 1 ≤ quorum.length) (context : Bytes)
    (transcript : Transcript) :
    (∀ (values blindings : Coefficients t) (messages : List (OpeningRound1 P))
      (seals : List Round1Seal) (responses : List OpeningRound2) (challenge : OpeningChallenge P)
      (error : String),
      values 0 = 0 →
      makeZeroOpeningChallengeWithTranscript lib (key.commit (values 0) (blindings 0)) messages
        seals quorum context transcript = .ok challenge →
      Answering OpeningRound2.party responses quorum →
      assembleZeroOpeningFromRoundsWithTranscript lib key (key.commit (values 0) (blindings 0))
        (ladderOf key values blindings) messages seals responses quorum context transcript =
          .error error →
      (∃ p ∈ quorum, NamesParty error p ∧
        StrayOpener lib key values blindings context challenge messages responses p) ∨
      (error = "assembled threshold opening proof does not verify" ∧
        (∀ p ∈ quorum, OpensFirstMove key (ladderOf key values blindings) challenge p
          (indexBy OpeningRound1.party messages)[p]!
          (indexBy OpeningRound2.party responses)[p]!) ∧
        interpolated quorum (fun p => (indexBy OpeningRound2.party responses)[p]!.valueAnswer) ≠
          0 ∧
        ∃ p ∈ quorum,
          StrayOpener lib key values blindings context challenge messages responses p)) ∧
    (∀ (width : ℕ) (sharing : RangeSharing t width) (messages : List (RangeRound1 P))
      (seals : List Round1Seal) (responses : List RangeRound2) (challenge : RangeChallenge P)
      (error : String),
      makeRangeChallenge lib (sharing.statement key) messages seals quorum context =
        .ok challenge →
      Answering RangeRound2.party responses quorum →
      assembleRangeFromRounds lib key (sharing.statement key) (sharing.relations key) messages
        seals responses quorum context = .error error →
      (∃ p ∈ quorum, NamesParty error p ∧
        StrayRanger lib key sharing context challenge messages responses p) ∨
      (error = "assembled threshold range proof does not verify" ∧
        (∀ p ∈ quorum, OpensRange key (sharing.statement key) (sharing.relations key) challenge p
          (indexBy RangeRound1.party messages)[p]! (indexBy RangeRound2.party responses)[p]!) ∧
        interpolated quorum (fun p => (indexBy RangeRound2.party responses)[p]!.linkageAnswer.1) ≠
          0 ∧
        ∃ p ∈ quorum, StrayRanger lib key sharing context challenge messages responses p)) := by
  constructor
  · intro values _ messages seals responses challenge error hzero hchallenge hanswers herror
    have hquorum := (makeOpeningChallenge_ok hchallenge).1
    rcases assembleOpening_error hchallenge (ladderOf_head? _ _ _)
      (ladderOf_length.trans_le hsize) (covers_indexBy hnodup hanswers) hcompress
      herror with
      ⟨p, hp, hnames, hbad⟩ | ⟨_, hfinal, hopens, hvalue⟩
    · exact .inl ⟨p, hp, hnames, fun hfollowed => hbad (hfollowed.opens (commit_shareOf key _ _ p))⟩
    · refine .inr ⟨hfinal, hopens, hvalue, ?_⟩
      by_contra hall
      simp only [StrayOpener, not_exists, not_and, not_not] at hall
      refine hvalue (interpolated_value_of_followed hall ?_)
      rw [← hzero]
      exact interpolated_shareOf hquorum hsize values
  · intro _ sharing _ _ _ _ _ hchallenge hanswers herror
    obtain ⟨hquorum, _, _, hvalueOf⟩ := makeRangeChallenge_ok hnodup hchallenge
    rcases assembleRange_error hnodup hchallenge (sharing.anchored key) hsize
      (covers_indexBy hnodup hanswers) hcompress herror with
      ⟨p, hp, hnames, hbad⟩ | ⟨hfinal, hopens, hvalue⟩
    · refine .inl ⟨p, hp, hnames, fun hfollowed => hbad ?_⟩
      refine hfollowed.opens (sharing.anchored key) ?_ (sharing.opensLadders key p)
      rw [hvalueOf]
      simp [rangeChallengeOf]
    · refine .inr ⟨hfinal, hopens, hvalue, ?_⟩
      by_contra hall
      simp only [StrayRanger, not_exists, not_and, not_not] at hall
      exact hvalue (interpolated_link_of_followed hall
        (sharing.interpolated_residual key hquorum hsize))

end Abort

/-! ## Samples -/

theorem plainLibrary_compress : Function.Injective plainLibrary.primitives.compress := by
  intro x y h
  have hbound : ∀ z : Scalar, z.val < 256 ^ 32 := fun z => z.val_lt.trans (by norm_num [order])
  exact ZMod.val_injective order (beBytes_inj (hbound x) (hbound y) h)

theorem answering_three {A : Type} {party : A → PartyId} {a b c : A} :
    Answering party [a, b, c] [party a, party b, party c] := by
  intro p
  simp [eq_comm]

def plainMove (valueNonce : Scalar) (party : PartyId) : OpeningRound1 Scalar :=
  ⟨party, plainLibrary.sha256 [], plainKey.commit valueNonce 1⟩

def plainSeal (valueNonce : Scalar) (party : PartyId) : Round1Seal :=
  ⟨party, openingRound1Digest plainLibrary (plainMove valueNonce party)⟩

/-- Two times five, by a line through five. -/
def plainProduct : ProductSharing 1 :=
  ⟨(2 : ℕ), 1, ![(5 : ℕ), (7 : ℕ)], ![(4 : ℕ), (3 : ℕ)], (6 : ℕ), ![1, (2 : ℕ)], by decide⟩

def plainProductMove (party : PartyId) : Round1Seal × ProductRound1Secret × ProductRound1 Scalar :=
  prepareProductRound1 plainLibrary plainKey (plainProduct.contribution plainKey party)
    (plainProduct.base plainKey) [] (3 : ℕ) 1 (2 : ℕ)

/-- Three parties open a commitment with the same value nonce. -/
def openThree (commitment : Scalar) (ladder : List Scalar) (nonce : Scalar)
    (responses : List OpeningRound2) : Except String (OpeningProof Scalar) :=
  assembleOpeningFromRoundsWithTranscript plainLibrary plainKey commitment ladder
    ([1, 2, 3].map (plainMove nonce)) ([1, 2, 3].map (plainSeal nonce)) responses [1, 2, 3] []
    (new [])

/-- Three parties multiply two and five. -/
def multiplyThree (responses : List ProductRound2) : Except String (ProductProof Scalar) :=
  assembleProductFromRoundsWithTranscript plainLibrary plainKey (plainProduct.statement plainKey)
    ([1, 2, 3].map fun p => (plainProductMove p).2.2)
    ([1, 2, 3].map fun p => (plainProductMove p).1) responses [1, 2, 3] [] (new [])

/-- The second party answers wrongly, and either assembly fails under its name. -/
theorem failures_identified_second :
    (openThree (plainKey.commit 5 4) (ladderOf plainKey ![5, 7] ![4, 3]) 3
        [⟨1, 15, 8⟩, ⟨2, 0, 0⟩, ⟨3, 29, 14⟩] = .error "party 2 supplied a bad opening answer" ∧
      ∃ challenge, ¬ OpensFirstMove plainKey (ladderOf plainKey ![5, 7] ![4, 3]) challenge 2
        (plainMove 3 2) ⟨2, 0, 0⟩) ∧
    multiplyThree [⟨1, 15, 8, 5⟩, ⟨2, 0, 0, 0⟩, ⟨3, 29, 14, 9⟩] =
        .error "party 2 supplied a bad product factor answer" ∧
      ∃ challenge, ¬ OpensFirstMoves plainKey (plainProduct.statement plainKey) challenge 2
        (plainProductMove 2).2.2 ⟨2, 0, 0, 0⟩ := by
  have hidentified := failures_identified plainLibrary plainKey plainLibrary_compress [1, 2, 3] []
    (new [])
  constructor
  · have hmade : (makeOpeningChallengeWithTranscript plainLibrary (plainKey.commit 5 4)
        ([1, 2, 3].map (plainMove 3)) ([1, 2, 3].map (plainSeal 3)) [1, 2, 3] []
        (new [])).isOk = true := by
      decide +kernel
    obtain ⟨challenge, hchallenge⟩ := isOk_iff.mp hmade
    have hcase := hidentified.1 (plainKey.commit 5 4) (ladderOf plainKey ![5, 7] ![4, 3]) _ _
      [⟨1, 15, 8⟩, ⟨2, 0, 0⟩, ⟨3, 29, 14⟩] challenge (ladderOf_head? plainKey ![5, 7] ![4, 3])
      (by decide) hchallenge answering_three
    have herror := failure_eq_some.mp (by decide +kernel : failure (openThree (plainKey.commit 5 4)
      (ladderOf plainKey ![5, 7] ![4, 3]) 3 [⟨1, 15, 8⟩, ⟨2, 0, 0⟩, ⟨3, 29, 14⟩]) =
        some "party 2 supplied a bad opening answer")
    refine ⟨herror, challenge, ?_⟩
    rw [← openThree, herror] at hcase
    obtain ⟨⟨p, _, hnames, hbad⟩, _⟩ := hcase
    obtain rfl : p = 2 := hnames.unique ⟨"supplied a bad opening answer", rfl⟩
    exact hbad
  · have hmade : (makeProductChallengeWithTranscript plainLibrary
        (plainProduct.statement plainKey) ([1, 2, 3].map fun p => (plainProductMove p).2.2)
        ([1, 2, 3].map fun p => (plainProductMove p).1) [1, 2, 3] [] (new [])).isOk = true := by
      decide +kernel
    obtain ⟨challenge, hchallenge⟩ := isOk_iff.mp hmade
    have hcase := hidentified.2 _ _ _ [⟨1, 15, 8, 5⟩, ⟨2, 0, 0, 0⟩, ⟨3, 29, 14, 9⟩] challenge
      (plainProduct.anchored plainKey) (by decide) (by decide) hchallenge answering_three
    have herror := failure_eq_some.mp (by decide +kernel : failure (multiplyThree
      [⟨1, 15, 8, 5⟩, ⟨2, 0, 0, 0⟩, ⟨3, 29, 14, 9⟩]) =
        some "party 2 supplied a bad product factor answer")
    refine ⟨herror, challenge, ?_⟩
    rw [← multiplyThree, herror] at hcase
    obtain ⟨⟨p, _, hnames, hbad⟩, _⟩ := hcase
    obtain rfl : p = 2 := hnames.unique ⟨"supplied a bad product factor answer", rfl⟩
    exact hbad

def strayMove : OpeningRound1 Scalar :=
  ⟨1, plainLibrary.sha256 [], plainKey.commit (3 : ℕ) 0⟩

def plainRange : RangeSharing 0 1 where
  value := 0
  fits := by decide
  values := ![0]
  blindings := ![(4 : ℕ)]
  secret_eq := rfl
  bits := [⟨![0], ![1], ![1], by decide⟩]
  bits_eq := by decide

def strayRangeMove : RangeRound1 Scalar :=
  { (prepareRangeRound1 plainLibrary plainKey (plainRange.node plainKey 1) [] (fun _ => default)
      0).2.2 with linkage := plainKey.commit (3 : ℕ) 0 }

theorem strayMove_challenged : ∃ challenge, makeZeroOpeningChallengeWithTranscript plainLibrary
    (plainKey.commit 0 4) [strayMove] [⟨1, openingRound1Digest plainLibrary strayMove⟩] [1] []
    (new []) = .ok challenge :=
  isOk_iff.mp (by decide +kernel)

theorem strayMove_fails : assembleZeroOpeningFromRoundsWithTranscript plainLibrary plainKey
    (plainKey.commit 0 4) (ladderOf plainKey ![0] ![4]) [strayMove]
    [⟨1, openingRound1Digest plainLibrary strayMove⟩] [⟨1, 3, 4⟩] [1] [] (new []) =
      .error "assembled threshold opening proof does not verify" :=
  failure_eq_some.mp (by decide +kernel)

/-- A party with a value nonce answers what its first move and its dealt share require, for a
zero opening and for a range of zero. The assembly fails, and its error names nobody. -/
theorem stray_nonce_unnamed :
    (∃ challenge, makeZeroOpeningChallengeWithTranscript plainLibrary (plainKey.commit 0 4)
        [strayMove] [⟨1, openingRound1Digest plainLibrary strayMove⟩] [1] [] (new []) =
          .ok challenge) ∧
    (∃ error, assembleZeroOpeningFromRoundsWithTranscript plainLibrary plainKey
        (plainKey.commit 0 4) (ladderOf plainKey ![0] ![4]) [strayMove]
        [⟨1, openingRound1Digest plainLibrary strayMove⟩] [⟨1, 3, 4⟩] [1] []
        (new []) = .error error ∧ ∀ p, ¬ NamesParty error p) ∧
    (makeRangeChallenge plainLibrary (plainRange.statement plainKey) [strayRangeMove]
        [⟨1, rangeRound1Digest plainLibrary strayRangeMove⟩] [1] []).isOk ∧
    (∃ error, assembleRangeFromRounds plainLibrary plainKey (plainRange.statement plainKey)
        (plainRange.relations plainKey) [strayRangeMove]
        [⟨1, rangeRound1Digest plainLibrary strayRangeMove⟩] [⟨1, [⟨0, 1, 1⟩], 3, 3⟩] [1] [] =
          .error error ∧ ∀ p, ¬ NamesParty error p) := by
  have hunnamed : ∀ (error : String) (p : PartyId), error.toList.head? = some 'a' →
      ¬ NamesParty error p := fun error p hhead hnames =>
    absurd (hhead.symm.trans hnames.head) (by decide)
  refine ⟨strayMove_challenged, ⟨_, strayMove_fails, fun p => hunnamed _ p (by decide)⟩,
    by decide +kernel, ⟨"assembled threshold range proof does not verify", ?_,
      fun p => hunnamed _ p (by decide)⟩⟩
  exact failure_eq_some.mp (by decide +kernel)

/-- Of three parties that open zero the second answers wrongly; it did leave the rounds. -/
theorem failures_explained_second : ∃ challenge,
    StrayOpener plainLibrary plainKey ![0, 7] ![4, 3] [] challenge ([1, 2, 3].map (plainMove 0))
      [⟨1, 7, 8⟩, ⟨2, 0, 0⟩, ⟨3, 21, 14⟩] 2 := by
  have hmade : (makeZeroOpeningChallengeWithTranscript plainLibrary (plainKey.commit 0 4)
      ([1, 2, 3].map (plainMove 0)) ([1, 2, 3].map (plainSeal 0)) [1, 2, 3] []
      (new [])).isOk = true := by
    decide +kernel
  obtain ⟨challenge, hchallenge⟩ := isOk_iff.mp hmade
  have herror := failure_eq_some.mp (by decide +kernel : failure
    (assembleZeroOpeningFromRoundsWithTranscript plainLibrary plainKey (plainKey.commit 0 4)
      (ladderOf plainKey ![0, 7] ![4, 3]) ([1, 2, 3].map (plainMove 0))
      ([1, 2, 3].map (plainSeal 0)) [⟨1, 7, 8⟩, ⟨2, 0, 0⟩, ⟨3, 21, 14⟩] [1, 2, 3] [] (new [])) =
        some "party 2 supplied a bad opening answer")
  refine ⟨challenge, ?_⟩
  rcases (failures_explained plainLibrary plainKey plainLibrary_compress (by decide)
    (by decide : 1 + 1 ≤ [1, 2, 3].length) [] (new [])).1 ![0, 7] ![4, 3] _ _
    [⟨1, 7, 8⟩, ⟨2, 0, 0⟩, ⟨3, 21, 14⟩] challenge _ rfl hchallenge answering_three herror with
    ⟨p, _, hnames, hstray⟩ | ⟨hfinal, _⟩
  · obtain rfl : p = 2 := hnames.unique ⟨"supplied a bad opening answer", rfl⟩
    exact hstray
  · exact absurd hfinal (by decide)

end Zkpi.IdentifiableAbort
