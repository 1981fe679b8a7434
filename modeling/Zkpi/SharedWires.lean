import Zkpi.QuorumInterpolation

/-!
# Committed wires carried as shares

A node holds one evaluation of a committed wire and of its blinding, together with the public
commitment and its ladder.
-/

namespace Zkpi.SharedWires

open ScalarField QuorumInterpolation

structure NodeShared (P : Type) where
  party : PartyId
  commitment : P
  valueShare : Scalar
  blindingShare : Scalar
  coefficientCommitments : List P

end Zkpi.SharedWires
