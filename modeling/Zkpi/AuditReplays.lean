import Zkpi.AuditAccountability

/-!
# Forks and bonds

Blame for a fork is given against the state with the most nodes, before it is known whether the
slot settles. Evidence cuts a bond each time it comes in.
-/

namespace Zkpi.AuditReplays

open ByteText IndexedTables KeyedTables RecordedRuns AuditReceipts AuditAccountability List
open Std (TreeMap)

variable {lib : AuditLibrary} {ledger : AuditLedger} {spec : SlotSpec} {slot : UInt64}
  {node : UInt32} {evidence : Evidence}

/-! ## Blame for a fork -/

/-- The bonds after the evidence of each report is applied. -/
def punished (bonds : BondLedger) (reports : List (List Evidence)) : BondLedger :=
  reports.foldl (fun bonds found => (bonds.apply found).2) bonds

/-- A node's bond and everything that was cut from it. -/
def staked (bonds : BondLedger) (node : UInt32) : ℕ :=
  ((bonds.bonds.lookup node).getD 0).toNat +
    ((bonds.slashed.filter (·.node = node)).map (·.amount.toNat)).sum

theorem staked_cut {bonds : BondLedger} (h : bonds.slash evidence = some slash) :
    staked (bonds.cut slash) node = staked bonds node := by
  simp only [BondLedger.slash, Option.bind_eq_bind, Option.bind_eq_some_iff] at h
  obtain ⟨_, -, bond, hbond, h⟩ := h
  -- The amount is the penalty, or the whole bond if that is less.
  have hle : min bond ((bonds.penalties.lookup evidence.fault).getD 0) ≤ bond := Std.min_le_left
  split at h
  · cases h
  cases h
  have hcut := UInt64.toNat_sub_of_le _ _ hle
  rw [UInt64.le_iff_toNat_le] at hle
  simp only [staked, BondLedger.cut, lookup_insert_ite, filter_append, map_append, sum_append]
  split
  · rename_i hnode
    subst hnode
    simp [hbond]
    omega
  · rename_i hnode
    simp [Ne.symm hnode]

theorem staked_apply (bonds : BondLedger) (found : List Evidence) :
    staked (bonds.apply found).2 node = staked bonds node := by
  induction found generalizing bonds with
  | nil => rfl
  | cons item rest ih =>
    simp only [BondLedger.apply]
    split
    · exact ih bonds
    · rename_i hslash
      exact (ih _).trans (staked_cut hslash)

/-- Whatever evidence comes in, a node's bond and all cuts of it that the bond ledger lists make up
the bond the node began with: no cut is lost or goes past the bond. -/
theorem cuts_make_up_bonds (bonds : BondLedger) (reports : List (List Evidence)) (node : UInt32) :
    staked (punished bonds reports) node = staked bonds node := by
  unfold punished
  induction reports generalizing bonds with
  | nil => rfl
  | cons found reports ih => exact (ih _).trans (staked_apply bonds found)

end Zkpi.AuditReplays
