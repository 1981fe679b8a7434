import Zkpi.IndexedTables
import Zkpi.SlotSealer

/-!
# Signed receipts and fault evidence

For every market slot the ledger fixes a maker set, a market, a deadline and how many agreeing
receipts settle it. Nodes hand in signed receipts; the ledger files them, reports faults it can
read off them and settles a slot on the state that enough nodes signed. A second ledger holds
bonds and cuts them by a schedule of penalties. It takes evidence as it is given.

The hash and the signature check are arbitrary functions. Receipts are checked for the single
key purpose of audit checkpoints, which is part of the check.
-/

namespace Zkpi.AuditReceipts

open ByteText IndexedTables KeyedTables SlotSealer List
open Std (TreeMap)

structure AuditLibrary where
  sha256 : Bytes → Digest32
  /-- Whether a public key accepts a signature on a message. -/
  verify : Bytes → Digest32 → Bytes → Bool

/-- Digests are ordered as byte strings. -/
instance : Ord Digest32 where
  compare a b := compare a.toList b.toList

instance : Std.TransOrd Digest32 :=
  inferInstanceAs (Std.TransCmp (compareOn List.Vector.toList))

instance : Std.LawfulEqOrd Digest32 where
  eq_of_compare h := List.Vector.toList_injective (Std.LawfulEqOrd.eq_of_compare h)

def digested (parts : List Bytes) : Bytes := utf8 "QOMM:AUDIT:v2" ++ framed parts

variable (lib : AuditLibrary)

def digest (parts : List Bytes) : Digest32 := lib.sha256 (digested parts)

structure SlotSpec where
  slot : UInt64
  mmSetDigest : Digest32
  marketDigest : Digest32
  deadline : UInt64
  requiredReceipts : ℕ
  deriving DecidableEq

structure NodeReceipt where
  node : UInt32
  slot : UInt64
  mmSetDigest : Digest32
  marketDigest : Digest32
  deadline : UInt64
  prevStateDigest : Digest32
  newStateDigest : Digest32
  resultDigest : Digest32
  emittedAt : UInt64
  signature : Bytes
  deriving DecidableEq

variable (receipt : NodeReceipt)

def NodeReceipt.signedBody : Digest32 :=
  digest lib [utf8 "receipt:v2", utf8 "2", beBytes 4 receipt.node.toNat,
    beBytes 8 receipt.slot.toNat, receipt.mmSetDigest.toList, receipt.marketDigest.toList,
    beBytes 8 receipt.deadline.toNat, beBytes 8 receipt.emittedAt.toNat,
    receipt.prevStateDigest.toList, receipt.newStateDigest.toList, receipt.resultDigest.toList]

def NodeReceipt.content (receipt : NodeReceipt) : Bytes :=
  digested [utf8 "content", receipt.mmSetDigest.toList, receipt.prevStateDigest.toList,
    receipt.newStateDigest.toList, receipt.resultDigest.toList]

def NodeReceipt.contentDigest : Digest32 :=
  lib.sha256 receipt.content

theorem NodeReceipt.newStateDigest_of_content {left right : NodeReceipt}
    (h : left.content = right.content) : left.newStateDigest = right.newStateDigest := by
  simp only [content, digested, framed, flatMap_cons, append_assoc] at h
  have h := append_cancel_left h
  obtain ⟨-, h⟩ := append_inj h rfl
  obtain ⟨-, h⟩ := append_inj h rfl
  obtain ⟨-, h⟩ := append_inj h (by simp)
  obtain ⟨-, h⟩ := append_inj h (by simp)
  obtain ⟨-, h⟩ := append_inj h (by simp)
  obtain ⟨-, h⟩ := append_inj h (by simp)
  obtain ⟨-, h⟩ := append_inj h (by simp)
  obtain ⟨h, -⟩ := append_inj h (by simp)
  exact List.Vector.toList_injective h

/-! ## Evidence -/

/-- What a node may be reported for. -/
inductive Fault where
  | equivocation
  | omittedMakers
  | staleState
  | missingReceipt
  | badSignature
  | forkedState
  deriving DecidableEq

/-- A reported fault. -/
structure Evidence where
  fault : Fault
  node : ℤ
  slot : UInt64
  detail : String
  exhibits : List NodeReceipt
  deriving DecidableEq

def Evidence.new (fault : Fault) (node : ℤ) (slot : UInt64) (detail : String) : Evidence :=
  ⟨fault, node, slot, detail, []⟩

def NodeReceipt.faulty (fault : Fault) (detail : String) (exhibits : List NodeReceipt) : Evidence :=
  ⟨fault, receipt.node.toNat, receipt.slot, detail, exhibits⟩

/-! ## The ledger -/

structure AuditLedger where
  nodeKeys : TreeMap UInt32 Bytes
  bySlot : Table UInt64 (TreeMap UInt32 (List NodeReceipt))
  specs : Table UInt64 SlotSpec
  arrived : Table (UInt64 × UInt32) UInt64
  settledState : Table UInt64 Digest32
  evidence : List Evidence

namespace AuditLedger

def new (nodeKeys : TreeMap UInt32 Bytes) : AuditLedger :=
  ⟨nodeKeys, ∅, ∅, ∅, ∅, []⟩

variable (ledger : AuditLedger)

def receipts (slot : UInt64) : TreeMap UInt32 (List NodeReceipt) :=
  (ledger.bySlot.lookup slot).getD ∅

def filed (slot : UInt64) (node : UInt32) : List NodeReceipt :=
  (ledger.receipts slot).getD node []

variable (spec : SlotSpec)

def openSlot : AuditLedger :=
  { ledger with
    bySlot := ledger.bySlot.insert spec.slot (ledger.receipts spec.slot)
    specs := ledger.specs.insert spec.slot spec }

def termFaults (receipt : NodeReceipt) : List Evidence :=
  (if receipt.marketDigest ≠ spec.marketDigest then
    [receipt.faulty .staleState "signed a market other than the one fixed for this slot" [receipt]]
  else []) ++
  (if receipt.deadline ≠ spec.deadline then
    [receipt.faulty .staleState "signed a deadline other than the one fixed for this slot"
      [receipt]]
  else [])

def equivocations (earlier : List NodeReceipt) (receipt : NodeReceipt) : List Evidence :=
  (earlier.filter fun other => other.contentDigest lib ≠ receipt.contentDigest lib).map
    fun other => receipt.faulty .equivocation "two signed results for one slot" [other, receipt]

def omissions (receipt : NodeReceipt) : List Evidence :=
  if receipt.mmSetDigest ≠ spec.mmSetDigest then
    [receipt.faulty .omittedMakers "signed a maker set other than the one fixed for this slot"
      [receipt]]
  else []

def discontinuities (settledState : Table UInt64 Digest32) (receipt : NodeReceipt) :
    List Evidence :=
  if 0 < receipt.slot then
    match settledState.lookup (receipt.slot - 1) with
    | none => []
    | some expected =>
      if receipt.prevStateDigest ≠ expected then
        [receipt.faulty .staleState "continued from a state other than the settled predecessor"
          [receipt]]
      else []
  else []

def faults (ledger : AuditLedger) (spec : SlotSpec) (receipt : NodeReceipt) : List Evidence :=
  termFaults spec receipt ++ equivocations lib (ledger.filed receipt.slot receipt.node) receipt ++
    omissions spec receipt ++ discontinuities ledger.settledState receipt

def arrivals (ledger : AuditLedger) (receipt : NodeReceipt) (arrivedAt : Option UInt64) :
    Table (UInt64 × UInt32) UInt64 :=
  match arrivedAt with
  | none => ledger.arrived
  | some time =>
    ledger.arrived.insert (receipt.slot, receipt.node)
      (((ledger.arrived.lookup (receipt.slot, receipt.node)).map (min · time)).getD time)

def file (ledger : AuditLedger) (receipt : NodeReceipt) :
    Table UInt64 (TreeMap UInt32 (List NodeReceipt)) :=
  ledger.bySlot.insert receipt.slot ((ledger.receipts receipt.slot).insert receipt.node
    (ledger.filed receipt.slot receipt.node ++ [receipt]))

/-- Take a receipt and report what is wrong with it. The first two refusals leave no entry in
the ledger's own evidence. -/
def record (ledger : AuditLedger) (receipt : NodeReceipt) (arrivedAt : Option UInt64) :
    List Evidence × AuditLedger :=
  match ledger.specs.lookup receipt.slot with
  | none =>
    ([.new .missingReceipt receipt.node.toNat receipt.slot
      "receipt for a slot that was never opened"], ledger)
  | some spec =>
    match ledger.nodeKeys[receipt.node]? with
    | none => ([.new .badSignature receipt.node.toNat receipt.slot "unknown node"], ledger)
    | some key =>
      if lib.verify key (receipt.signedBody lib) receipt.signature then
        (ledger.faults lib spec receipt,
          { ledger with
            arrived := ledger.arrivals receipt arrivedAt
            bySlot := ledger.file receipt
            evidence := ledger.evidence ++ ledger.faults lib spec receipt })
      else
        let found := [.new .badSignature receipt.node.toNat receipt.slot
          "signature does not verify"]
        (found, { ledger with evidence := ledger.evidence ++ found })

/-! ## Settlement -/

def seenAt (slot : UInt64) (node : UInt32) (receipt : NodeReceipt) : UInt64 :=
  (ledger.arrived.lookup (slot, node)).getD receipt.emittedAt

/-- The nodes without a receipt by the deadline. -/
def absences (slot now : UInt64) : List Evidence :=
  (ledger.nodeKeys.keys.filter fun node => !(ledger.filed slot node).any fun receipt =>
      ledger.seenAt slot node receipt ≤ spec.deadline).map fun node =>
    .new .missingReceipt node.toNat slot
      s!"no receipt by the deadline ({spec.deadline}); observed at {now}"

def counts (slot : UInt64) (node : UInt32) (receipt : NodeReceipt) : Bool :=
  ledger.seenAt slot node receipt ≤ spec.deadline && receipt.mmSetDigest = spec.mmSetDigest &&
    receipt.marketDigest = spec.marketDigest && receipt.deadline = spec.deadline

/-- The states signed by the receipts that count, each with its node. -/
def votes (slot : UInt64) : List (Digest32 × UInt32) :=
  (ledger.receipts slot).toList.flatMap fun (node, items) =>
    (items.filter (ledger.counts spec slot node)).map fun receipt => (receipt.newStateDigest, node)

def distinct (nodes : List UInt32) : List UInt32 := (indexBy id nodes).keys

def lastMaximum {A : Type} (measure : A → ℕ) (items : List A) : Option A :=
  items.foldl (fun best item =>
    match best with
    | none => some item
    | some best => if measure item < measure best then some best else some item) none

def forks (tally : TreeMap Digest32 (List UInt32)) (plurality : Digest32) (slot : UInt64) :
    List Evidence :=
  (tally.toList.filter fun entry => entry.1 ≠ plurality).flatMap fun entry =>
    (distinct entry.2).map fun node => .new .forkedState node.toNat slot
      "signed a new state that the quorum did not agree with"

def unresolved (spec : SlotSpec) (slot : UInt64) (agreeing : ℕ) : Evidence :=
  .new .missingReceipt (-1) slot (s!"only {agreeing} agreeing receipts, {spec.requiredReceipts} " ++
    "required; the slot is unresolved and the state does not advance")

def settle (slot now : UInt64) : Except String (Option Digest32 × List Evidence) × AuditLedger :=
  match ledger.specs.lookup slot with
  | none => (.error s!"slot {slot} was not opened", ledger)
  | some spec =>
    let tally := groups (ledger.votes spec slot)
    match lastMaximum (fun entry => (distinct entry.2).length) tally.toList with
    | none =>
      let found := ledger.absences spec slot now
      (.ok (none, found), { ledger with evidence := ledger.evidence ++ found })
    | some (plurality, nodes) =>
      if (distinct nodes).length < spec.requiredReceipts then
        let found := ledger.absences spec slot now ++ forks tally plurality slot ++
          [unresolved spec slot (distinct nodes).length]
        (.ok (none, found), { ledger with evidence := ledger.evidence ++ found })
      else
        let found := ledger.absences spec slot now ++ forks tally plurality slot
        (.ok (some plurality, found),
          { ledger with
            settledState := ledger.settledState.insert slot plurality
            evidence := ledger.evidence ++ found })

end AuditLedger

/-! ## Bonds -/

/-- A cut of a bond. -/
structure Slash where
  node : UInt32
  slot : UInt64
  fault : Fault
  amount : UInt64
  remainingBond : UInt64
  deriving DecidableEq

structure BondLedger where
  bonds : Table UInt32 UInt64
  penalties : Table Fault UInt64
  slashed : List Slash

def schedule : Table Fault UInt64 :=
  (∅ : Table Fault UInt64).insert .equivocation 1000000
    |>.insert .forkedState 500000
    |>.insert .omittedMakers 500000
    |>.insert .staleState 250000
    |>.insert .badSignature 250000
    |>.insert .missingReceipt 50000

def BondLedger.new (bonds : Table UInt32 UInt64) : BondLedger := ⟨bonds, schedule, []⟩

def Evidence.accused (evidence : Evidence) : Option UInt32 :=
  if 0 ≤ evidence.node ∧ evidence.node < 2 ^ 32 then some (.ofNat evidence.node.toNat) else none

def BondLedger.slash (ledger : BondLedger) (evidence : Evidence) : Option Slash := do
  let node ← evidence.accused
  let bond ← ledger.bonds.lookup node
  let amount := min bond ((ledger.penalties.lookup evidence.fault).getD 0)
  if amount = 0 then none
  else some ⟨node, evidence.slot, evidence.fault, amount, bond - amount⟩

def BondLedger.cut (ledger : BondLedger) (slash : Slash) : BondLedger :=
  { ledger with
    bonds := ledger.bonds.insert slash.node slash.remainingBond
    slashed := ledger.slashed ++ [slash] }

def BondLedger.apply (ledger : BondLedger) : List Evidence → List Slash × BondLedger
  | [] => ([], ledger)
  | evidence :: rest =>
    match ledger.slash evidence with
    | none => ledger.apply rest
    | some slash =>
      let (applied, next) := (ledger.cut slash).apply rest
      (slash :: applied, next)

end Zkpi.AuditReceipts
