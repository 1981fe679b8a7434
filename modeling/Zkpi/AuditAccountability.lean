import Zkpi.AuditReceipts

/-!
# Who a settlement can be held against

Receipts may come from anyone. A fault that is read off a receipt's contents is only reported
once the receipt's signature was checked, so it names a node that signed; a receipt for a slot
that is not open or with a bad signature names whoever it claims to be from. When a slot settles
on two different states, enough nodes signed both, and each of them was reported when its second
receipt was filed.
-/

namespace Zkpi.AuditAccountability

open ByteText IndexedTables KeyedTables RecordedRuns AuditReceipts List AuditLedger
open Std (TreeMap)

/-! ## Runs -/

inductive Call where
  | openSlot (spec : SlotSpec)
  | record (receipt : NodeReceipt) (arrivedAt : Option UInt64)
  | settle (slot now : UInt64)
  deriving DecidableEq

/-- What a call returns. -/
inductive Answer where
  | opened
  | recorded (found : List Evidence)
  | settled (result : Except String (Option Digest32 × List Evidence))
  deriving DecidableEq

def step (lib : AuditLibrary) (ledger : AuditLedger) : Call → Answer × AuditLedger
  | .openSlot spec => (.opened, ledger.openSlot spec)
  | .record receipt arrivedAt =>
    (.recorded (ledger.record lib receipt arrivedAt).1, (ledger.record lib receipt arrivedAt).2)
  | .settle slot now => (.settled (ledger.settle slot now).1, (ledger.settle slot now).2)

variable {lib : AuditLibrary} {ledger : AuditLedger}

/-! ## What a receipt does -/

def Signed (lib : AuditLibrary) (nodeKeys : TreeMap UInt32 Bytes) (receipt : NodeReceipt) : Prop :=
  ∃ key, nodeKeys[receipt.node]? = some key ∧
    lib.verify key (receipt.signedBody lib) receipt.signature = true

def Fault.unchecked (fault : Fault) : Prop := fault = .missingReceipt ∨ fault = .badSignature

instance (fault : Fault) : Decidable (Fault.unchecked fault) :=
  inferInstanceAs (Decidable (_ ∨ _))

/-- A receipt is refused with a single unchecked fault and is not filed, or it is signed, filed
and reported for the faults read off it. -/
theorem record_cases (lib : AuditLibrary) (ledger : AuditLedger) (receipt : NodeReceipt)
    (arrivedAt : Option UInt64) :
    ((∀ evidence ∈ (ledger.record lib receipt arrivedAt).1, Fault.unchecked evidence.fault) ∧
      ∃ noted, (ledger.record lib receipt arrivedAt).2 =
        { ledger with evidence := ledger.evidence ++ noted }) ∨
    ∃ spec, Signed lib ledger.nodeKeys receipt ∧
      ledger.record lib receipt arrivedAt = (ledger.faults lib spec receipt,
        { ledger with
          arrived := ledger.arrivals receipt arrivedAt
          bySlot := ledger.file receipt
          evidence := ledger.evidence ++ ledger.faults lib spec receipt }) := by
  unfold record
  split
  · refine .inl ⟨?_, [], by rw [append_nil]⟩
    intro evidence hmem
    rw [mem_singleton.mp hmem]
    exact .inl rfl
  · rename_i spec _
    split
    · refine .inl ⟨?_, [], by rw [append_nil]⟩
      intro evidence hmem
      rw [mem_singleton.mp hmem]
      exact .inr rfl
    · rename_i key hkey
      split_ifs with hverify
      · exact .inr ⟨spec, ⟨key, hkey, hverify⟩, rfl⟩
      · refine .inl ⟨?_, _, rfl⟩
        intro _ hmem
        rw [mem_singleton.mp hmem]
        exact .inr rfl

variable {spec : SlotSpec} {receipt : NodeReceipt} {evidence : Evidence}

theorem node_of_mem_faults (h : evidence ∈ ledger.faults lib spec receipt) :
    evidence.node = receipt.node.toNat := by
  simp only [faults, mem_append] at h
  rcases h with ((hterms | hequivocation) | homission) | hstale
  · simp only [termFaults, mem_append, ite_not, mem_ite_nil_left,
      mem_singleton] at hterms
    rcases hterms with ⟨-, rfl⟩ | ⟨-, rfl⟩ <;> rfl
  · simp only [equivocations, mem_map] at hequivocation
    obtain ⟨_, -, rfl⟩ := hequivocation
    rfl
  · simp only [omissions, ite_not, mem_ite_nil_left, mem_singleton]
      at homission
    obtain ⟨-, rfl⟩ := homission
    rfl
  · unfold discontinuities at hstale
    split at hstale
    · split at hstale
      · cases hstale
      · simp only [ite_not, mem_ite_nil_left, mem_singleton] at hstale
        obtain ⟨-, rfl⟩ := hstale
        rfl
    · cases hstale

/-- A call keeps the keys of the nodes, and only opening a slot changes the slots. -/
theorem step_keeps (lib : AuditLibrary) (ledger : AuditLedger) (call : Call) :
    (step lib ledger call).2.nodeKeys = ledger.nodeKeys ∧
    (step lib ledger call).2.specs = match call with
      | .openSlot spec => ledger.specs.insert spec.slot spec
      | _ => ledger.specs := by
  cases call with
  | openSlot => exact ⟨rfl, rfl⟩
  | record receipt arrivedAt =>
    simp only [step]
    rcases record_cases lib ledger receipt arrivedAt with ⟨-, _, h⟩ | ⟨_, -, h⟩ <;> rw [h] <;>
      exact ⟨rfl, rfl⟩
  | settle slot now =>
    simp only [step, settle]
    split
    · exact ⟨rfl, rfl⟩
    · split
      · exact ⟨rfl, rfl⟩
      · split <;> exact ⟨rfl, rfl⟩

theorem run_nodeKeys (lib : AuditLibrary) (nodeKeys : TreeMap UInt32 Bytes) (calls : List Call) :
    (run (step lib) (.new nodeKeys) calls).state.nodeKeys = nodeKeys := by
  refine run_preserves (step lib) (P := fun ledger => ledger.nodeKeys = nodeKeys) ?_ rfl calls
  intro _ _ hkeys
  rw [(step_keeps ..).1, hkeys]

/-! ## Bonds -/

variable {node : UInt32}

theorem accused_eq_some : evidence.accused = some node ↔ evidence.node = node.toNat := by
  have hnode := node.toNat_lt
  unfold Evidence.accused
  split_ifs with hrange
  · rw [Option.some.injEq, ← UInt32.toNat_inj, UInt32.toNat_ofNat']
    omega
  · constructor
    · intro h
      cases h
    · intro h
      omega

theorem slash_node {bonds : BondLedger} (h : bonds.slash evidence = some slash) :
    evidence.accused = some slash.node := by
  simp only [BondLedger.slash, Option.bind_eq_bind, Option.bind_eq_some_iff] at h
  obtain ⟨_, haccused, _, -, hslash⟩ := h
  split at hslash
  · cases hslash
  · cases hslash
    exact haccused

theorem apply_untouched {evidence : List Evidence} (h : ∀ item ∈ evidence, item.node ≠ node.toNat)
    (bonds : BondLedger) :
    (bonds.apply evidence).2.bonds.lookup node = bonds.bonds.lookup node := by
  induction evidence generalizing bonds with
  | nil => rfl
  | cons item rest ih =>
    have hrest := ih fun other hmem => h other (mem_cons_of_mem item hmem)
    simp only [BondLedger.apply]
    split
    · exact hrest bonds
    · rename_i slash hslash
      have hother : node ≠ slash.node := by
        rintro rfl
        exact h item mem_cons_self (accused_eq_some.mp (slash_node hslash))
      rw [hrest, BondLedger.cut, lookup_insert_ite, if_neg hother]

/-! ## Frame-proofness -/

def reported (events : List (Call × Answer)) : List Evidence :=
  events.flatMap fun
    | (_, .recorded found) => found
    | _ => []

theorem mem_reported : evidence ∈ reported events ↔
      ∃ call found, (call, Answer.recorded found) ∈ events ∧ evidence ∈ found := by
  rw [reported, mem_flatMap]
  constructor
  · rintro ⟨⟨call, answer⟩, hevent, hmem⟩
    cases answer with
    | recorded found => exact ⟨call, found, hevent, hmem⟩
    | opened => cases hmem
    | settled => cases hmem
  · rintro ⟨call, found, hevent, hmem⟩
    exact ⟨(call, .recorded found), hevent, hmem⟩

theorem reported_signed (nodeKeys : TreeMap UInt32 Bytes) (calls : List Call) :
    ∀ call found, (call, Answer.recorded found) ∈ (run (step lib) (.new nodeKeys) calls).events →
      ∃ receipt arrivedAt, call = .record receipt arrivedAt ∧ call ∈ calls ∧
        ∀ evidence ∈ found, ¬ Fault.unchecked evidence.fault →
          evidence.node = receipt.node.toNat ∧ Signed lib nodeKeys receipt := by
  induction calls using reverseRecOn with
  | nil => intro call found hmem; cases hmem
  | append_singleton calls last ih =>
    intro call found hmem
    rw [run_concat, Trace.extend, mem_append, mem_singleton] at hmem
    rcases hmem with hmem | hlast
    · obtain ⟨receipt, arrivedAt, hcall, hin, hfound⟩ := ih call found hmem
      exact ⟨receipt, arrivedAt, hcall, mem_append_left _ hin, hfound⟩
    · obtain ⟨rfl, hanswer⟩ := Prod.mk.inj hlast
      cases call with
      | openSlot => cases hanswer
      | settle => cases hanswer
      | record receipt arrivedAt =>
        have hkeys := run_nodeKeys lib nodeKeys calls
        obtain rfl := Answer.recorded.inj hanswer
        refine ⟨receipt, arrivedAt, rfl, mem_append_right _ mem_cons_self, ?_⟩
        intro evidence hmem hchecked
        rcases record_cases lib (run (step lib) (.new nodeKeys) calls).state receipt arrivedAt with
          ⟨hunchecked, -⟩ | ⟨spec, hsigned, hrecord⟩
        · exact absurd (hunchecked evidence hmem) hchecked
        · rw [hkeys] at hsigned
          rw [hrecord] at hmem
          exact ⟨node_of_mem_faults hmem, hsigned⟩

/-- Whoever hands in receipts, a report other than of a missing receipt or a bad signature names
the node whose key the receipt was checked under, and all such reports together leave the bond
of a node that signed none of the receipts as it was. -/
theorem checked_reports_spare_nonsigners (lib : AuditLibrary) (nodeKeys : TreeMap UInt32 Bytes)
    (calls : List Call) :
    (∀ receipt arrivedAt found,
      (Call.record receipt arrivedAt, Answer.recorded found) ∈
        (run (step lib) (.new nodeKeys) calls).events →
      ∀ evidence ∈ found, ¬ Fault.unchecked evidence.fault →
        ∀ node : UInt32, evidence.node = node.toNat →
          receipt.node = node ∧ Signed lib nodeKeys receipt) ∧
    ∀ (bonds : BondLedger) (node : UInt32),
      (∀ receipt arrivedAt, Call.record receipt arrivedAt ∈ calls → receipt.node = node →
        ¬ Signed lib nodeKeys receipt) →
      (bonds.apply ((reported (run (step lib) (.new nodeKeys) calls).events).filter
        fun evidence => ¬ Fault.unchecked evidence.fault)).2.bonds.lookup node =
          bonds.bonds.lookup node := by
  constructor
  · intro receipt arrivedAt found hevent evidence hmem hchecked node hnode
    obtain ⟨_, _, hcall, -, hfound⟩ := reported_signed nodeKeys calls _ found hevent
    obtain ⟨rfl, rfl⟩ := Call.record.inj hcall
    obtain ⟨hnamed, hsigned⟩ := hfound evidence hmem hchecked
    rw [hnode, Int.natCast_inj] at hnamed
    exact ⟨(UInt32.toNat_inj.mp hnamed).symm, hsigned⟩
  · intro bonds _ hnone
    refine apply_untouched ?_ bonds
    intro evidence hmem hnode
    rw [mem_filter, decide_eq_true_eq, mem_reported] at hmem
    obtain ⟨⟨call, found, hevent, hin⟩, hchecked⟩ := hmem
    obtain ⟨receipt, arrivedAt, rfl, hcall, hfound⟩ :=
      reported_signed nodeKeys calls call found hevent
    obtain ⟨hnamed, hsigned⟩ := hfound evidence hin hchecked
    rw [hnode, Int.natCast_inj] at hnamed
    exact hnone receipt arrivedAt hcall (UInt32.toNat_inj.mp hnamed).symm hsigned

/-- A library whose signatures repeat the key, and whose digest keeps the first byte of the new
state of a receipt's content. -/
def echo : AuditLibrary where
  sha256 bytes := repeated (bytes.getD 100 0)
  verify key _ signature := key == signature

/-- Two nodes and their keys. -/
def pair : TreeMap UInt32 Bytes := (∅ : TreeMap UInt32 Bytes).insert 0 [10] |>.insert 1 [11]

def sampleSpec : SlotSpec := ⟨1, zeroDigest, zeroDigest, 100, 1⟩

def sampleReceipt (node : UInt32) (market state : UInt8) (signature : Bytes) : NodeReceipt :=
  ⟨node, 1, zeroDigest, repeated market, 100, zeroDigest, repeated state, zeroDigest, 50, signature⟩

/-- The first node signs another market, and somebody hands in a receipt for the second node. -/
def forgedCalls : List Call :=
  [.openSlot sampleSpec, .record (sampleReceipt 0 7 3 [10]) none,
    .record (sampleReceipt 1 0 3 [99]) none]

def sampleBonds : BondLedger := .new ((∅ : Table UInt32 UInt64).insert 0 900000 |>.insert 1 900000)

theorem forged_unsigned (receipt : NodeReceipt) (arrivedAt : Option UInt64)
    (hmem : Call.record receipt arrivedAt ∈ forgedCalls) (hnode : receipt.node = 1) :
    ¬ Signed echo pair receipt := by
  simp only [forgedCalls, mem_cons, reduceCtorEq, Call.record.injEq, not_mem_nil,
    or_false, false_or] at hmem
  rcases hmem with ⟨rfl, -⟩ | ⟨rfl, -⟩
  · exact absurd hnode (by decide)
  · rintro ⟨_, hkey, hverify⟩
    have hfound : pair[(1 : UInt32)]? = some [11] := by decide +kernel
    rw [show (sampleReceipt 1 0 3 [99]).node = 1 from rfl, hfound] at hkey
    cases hkey
    cases hverify

/-- The second node signed none of the receipts, is named by a report and loses part of its bond
when the reports are applied. -/
theorem forged_receipt_cuts_bond :
    (∀ receipt arrivedAt, Call.record receipt arrivedAt ∈ forgedCalls → receipt.node = 1 →
      ¬ Signed echo pair receipt) ∧
    (reported (run (step echo) (.new pair) forgedCalls).events).map (fun e => (e.fault, e.node)) =
      [(.staleState, 0), (.badSignature, 1)] ∧
    sampleBonds.bonds.lookup 1 = some 900000 ∧
    (sampleBonds.apply (reported (run (step echo) (.new pair) forgedCalls).events)).2.bonds.lookup
      1 = some 650000 :=
  ⟨forged_unsigned, by decide +kernel, by decide +kernel, by decide +kernel⟩

/-- Without the report of the bad signature the bond is left as it was. -/
theorem checked_reports_spare_second :
    (sampleBonds.apply ((reported (run (step echo) (.new pair) forgedCalls).events).filter
      fun evidence => ¬ Fault.unchecked evidence.fault)).2.bonds.lookup 1 = some 900000 :=
  ((checked_reports_spare_nonsigners echo pair forgedCalls).2 sampleBonds 1 forged_unsigned).trans
    (by decide +kernel)

/-! ## What is filed -/

theorem filed_openSlot (spec : SlotSpec) (slot : UInt64) (node : UInt32) :
    (ledger.openSlot spec).filed slot node = ledger.filed slot node := by
  simp only [filed, receipts, openSlot, lookup_insert_ite]
  split_ifs with h
  · rw [h, Option.getD_some]
  · rfl

variable {next : AuditLedger}

theorem filed_file (h : next.bySlot = ledger.file receipt) (slot : UInt64) (node : UInt32) :
    next.filed slot node = if slot = receipt.slot ∧ node = receipt.node
      then ledger.filed slot node ++ [receipt] else ledger.filed slot node := by
  simp only [filed, receipts, h, file, lookup_insert_ite]
  by_cases hslot : slot = receipt.slot
  · rw [if_pos hslot, Option.getD_some, TreeMap.getD_insert, hslot]
    by_cases hnode : node = receipt.node
    · rw [hnode, if_pos (Std.ReflOrd.compare_self), if_pos ⟨rfl, rfl⟩]
    · rw [if_neg fun h => hnode (Std.LawfulEqOrd.eq_of_compare h).symm, if_neg fun h => hnode h.2]
  · rw [if_neg hslot, if_neg fun h => hslot h.1]

/-- A settlement files nothing and only adds evidence. -/
theorem settle_kept (slot now : UInt64) :
    (ledger.settle slot now).2.bySlot = ledger.bySlot ∧
      ledger.evidence ⊆ (ledger.settle slot now).2.evidence := by
  simp only [settle]
  split
  · exact ⟨rfl, List.Subset.refl _⟩
  · split
    · exact ⟨rfl, subset_append_left _ _⟩
    · split <;> exact ⟨rfl, subset_append_left _ _⟩

/-- A call files nothing, or it files one signed receipt and reports it against the earlier ones
of its node; evidence is never taken back. -/
theorem step_files (lib : AuditLibrary) (ledger : AuditLedger) (call : Call) :
    ledger.evidence ⊆ (step lib ledger call).2.evidence ∧
    ((∀ slot node, (step lib ledger call).2.filed slot node = ledger.filed slot node) ∨
    ∃ receipt arrivedAt, call = .record receipt arrivedAt ∧ Signed lib ledger.nodeKeys receipt ∧
      (step lib ledger call).2.bySlot = ledger.file receipt ∧
      equivocations lib (ledger.filed receipt.slot receipt.node) receipt ⊆
        (step lib ledger call).2.evidence) := by
  cases call with
  | openSlot spec => exact ⟨List.Subset.refl _, .inl (filed_openSlot spec)⟩
  | settle slot now =>
    refine ⟨(settle_kept slot now).2, .inl fun other node => ?_⟩
    change (ledger.settle slot now).2.filed other node = _
    simp only [filed, receipts, (settle_kept slot now).1]
  | record receipt arrivedAt =>
    simp only [step]
    rcases record_cases lib ledger receipt arrivedAt with ⟨-, _, h⟩ | ⟨_, hsigned, h⟩
    · rw [h]
      exact ⟨subset_append_left _ _, .inl fun _ _ => rfl⟩
    · rw [h]
      refine ⟨subset_append_left _ _, .inr ⟨receipt, arrivedAt, rfl, hsigned, rfl, ?_⟩⟩
      intro _ hmem
      simp only [faults, mem_append]
      exact .inr (.inl (.inl (.inr hmem)))

theorem filed_subset {lib : AuditLibrary} {ledger : AuditLedger} {call : Call} {slot : UInt64}
    {node : UInt32} : ledger.filed slot node ⊆ (step lib ledger call).2.filed slot node := by
  rcases (step_files lib ledger call).2 with hsame | ⟨_, _, _, _, hfile, _⟩
  · rw [hsame]
    exact List.Subset.refl _
  · rw [filed_file hfile]
    split
    · exact subset_append_left _ _
    · exact List.Subset.refl _

/-! ## Equivocation is always caught -/

def Caught (ledger : AuditLedger) (slot : UInt64) (node : UInt32) : Prop :=
  ∃ evidence ∈ ledger.evidence,
    evidence.fault = .equivocation ∧ evidence.slot = slot ∧ evidence.node = node.toNat

structure Filed (lib : AuditLibrary) (nodeKeys : TreeMap UInt32 Bytes) (calls : List Call)
    (ledger : AuditLedger) : Prop where
  /-- They were handed in by somebody, and their nodes have a key. -/
  known : ∀ slot node, ∀ receipt ∈ ledger.filed slot node,
    node ∈ nodeKeys ∧ ∃ arrivedAt, Call.record receipt arrivedAt ∈ calls
  caught : ∀ slot node, ∀ left ∈ ledger.filed slot node, ∀ right ∈ ledger.filed slot node,
    left.contentDigest lib ≠ right.contentDigest lib → Caught ledger slot node

variable {slot : UInt64}

theorem Caught.mono (h : Caught ledger slot node) (hsubset : ledger.evidence ⊆ next.evidence) :
    Caught next slot node := by
  obtain ⟨evidence, hmem, hfault⟩ := h
  exact ⟨evidence, hsubset hmem, hfault⟩

variable {nodeKeys : TreeMap UInt32 Bytes} {calls : List Call}

theorem filed_new :
    (new nodeKeys).filed slot node = [] := by
  simp [new, filed, receipts]

theorem Filed.initial : Filed lib nodeKeys [] (.new nodeKeys) := by
  constructor
  all_goals
    intro slot node _ hmem
    rw [filed_new] at hmem
    cases hmem

section

variable (h : Filed lib nodeKeys calls ledger)

include h

theorem Filed.kept (call : Call)
    (hsame : ∀ slot node, next.filed slot node = ledger.filed slot node)
    (hevidence : ledger.evidence ⊆ next.evidence) : Filed lib nodeKeys (calls ++ [call]) next := by
  constructor
  · intro slot node receipt hmem
    rw [hsame] at hmem
    obtain ⟨hnode, time, hcall⟩ := h.known slot node receipt hmem
    exact ⟨hnode, time, mem_append_left _ hcall⟩
  · intro slot node left hleft right hright hne
    rw [hsame] at hleft hright
    exact (h.caught slot node left hleft right hright hne).mono hevidence

/-- Filing a signed receipt keeps it too: the new receipt is reported against every earlier one
with another content. -/
theorem Filed.filing {new : NodeReceipt} (hnode : new.node ∈ nodeKeys)
    (hfile : next.bySlot = ledger.file new) (hevidence : ledger.evidence ⊆ next.evidence)
    (hreported : equivocations lib (ledger.filed new.slot new.node) new ⊆
      next.evidence) : Filed lib nodeKeys (calls ++ [.record new arrivedAt]) next := by
  have hreport : ∀ other ∈ ledger.filed new.slot new.node,
      other.contentDigest lib ≠ new.contentDigest lib → Caught next new.slot new.node := by
    intro other hmem hne
    have hlisted : other ∈ (ledger.filed new.slot new.node).filter fun other =>
        other.contentDigest lib ≠ new.contentDigest lib :=
      mem_filter.mpr ⟨hmem, decide_eq_true hne⟩
    exact ⟨_, hreported (mem_map.mpr ⟨other, hlisted, rfl⟩), rfl, rfl, rfl⟩
  have hearlier : ∀ slot node, ∀ receipt ∈ ledger.filed slot node,
      node ∈ nodeKeys ∧ ∃ time, Call.record receipt time ∈ calls ++ [.record new arrivedAt] := by
    intro slot node receipt hmem
    obtain ⟨hnode, time, hcall⟩ := h.known slot node receipt hmem
    exact ⟨hnode, time, mem_append_left _ hcall⟩
  constructor
  · intro slot node receipt hmem
    rw [filed_file hfile] at hmem
    split_ifs at hmem with hplace
    · rcases mem_append.mp hmem with hmem | hmem
      · exact hearlier slot node receipt hmem
      · rw [mem_singleton.mp hmem, hplace.2]
        exact ⟨hnode, arrivedAt, mem_append_right _ mem_cons_self⟩
    · exact hearlier slot node receipt hmem
  · intro slot node left hleft right hright hne
    rw [filed_file hfile] at hleft hright
    split_ifs at hleft with hplace
    · obtain ⟨rfl, rfl⟩ := hplace
      rw [if_pos ⟨rfl, rfl⟩] at hright
      -- Either receipt may be the new one, but not both: their contents differ.
      simp only [mem_append, mem_singleton] at hleft hright
      rcases hleft with hleft | rfl <;> rcases hright with hright | rfl
      · exact (h.caught _ _ left hleft right hright hne).mono hevidence
      · exact hreport left hleft hne
      · exact hreport right hright hne.symm
      · exact absurd rfl hne
    · rw [if_neg hplace] at hright
      exact (h.caught slot node left hleft right hright hne).mono hevidence

theorem Filed.step (hkeys : ledger.nodeKeys = nodeKeys) (call : Call) :
    Filed lib nodeKeys (calls ++ [call]) (step lib ledger call).2 := by
  obtain ⟨hevidence, hsame | ⟨receipt, _, rfl, ⟨_, hkey, -⟩, hfile, hreported⟩⟩ :=
    step_files lib ledger call
  · exact h.kept call hsame hevidence
  · have hnode : receipt.node ∈ nodeKeys := by
      rw [hkeys] at hkey
      rw [TreeMap.mem_iff_isSome_getElem?, hkey]
      rfl
    exact h.filing hnode hfile hevidence hreported

end

theorem filed_run (lib : AuditLibrary) (nodeKeys : TreeMap UInt32 Bytes) (calls : List Call) :
    Filed lib nodeKeys calls (run (step lib) (.new nodeKeys) calls).state := by
  induction calls using reverseRecOn with
  | nil => exact .initial
  | append_singleton calls call ih =>
    rw [run_concat]
    exact ih.step (run_nodeKeys lib nodeKeys calls) call

/-! ## Settlements -/

theorem lastMaximum_spec {A : Type} (measure : A → ℕ) (items : List A) :
    match lastMaximum measure items with
    | none => items = []
    | some found => found ∈ items ∧ ∀ item ∈ items, measure item ≤ measure found := by
  induction items using reverseRecOn with
  | nil => rfl
  | append_singleton items last ih =>
    have hlast : lastMaximum measure (items ++ [last]) = match lastMaximum measure items with
        | none => some last
        | some best => if measure last < measure best then some best else some last := by
      rw [lastMaximum, foldl_append]
      rfl
    rw [hlast]
    cases hbest : lastMaximum measure items with
    | none =>
      rw [hbest] at ih
      rw [show items = [] from ih]
      simp
    | some best =>
      rw [hbest] at ih
      dsimp only at ih ⊢
      split_ifs <;> grind

def supporters (ledger : AuditLedger) (slot : UInt64) (state : Digest32) : Finset UInt32 :=
  ledger.nodeKeys.keys.toFinset.filter fun node =>
    (ledger.filed slot node).any fun receipt => receipt.newStateDigest = state

variable {state : Digest32}

theorem mem_supporters :
    node ∈ supporters ledger slot state ↔ node ∈ ledger.nodeKeys ∧
      ∃ receipt ∈ ledger.filed slot node, receipt.newStateDigest = state := by
  simp [supporters, TreeMap.mem_keys]

theorem counted_of_vote (h : (state, node) ∈ ledger.votes spec slot) :
    ∃ receipt ∈ ledger.filed slot node, ledger.counts spec slot node receipt = true ∧
      receipt.newStateDigest = state := by
  simp only [votes, mem_flatMap, mem_map, Prod.mk.injEq] at h
  obtain ⟨⟨_, _⟩, hitems, receipt, hreceipt, rfl, rfl⟩ := h
  rw [TreeMap.mem_toList_iff_getElem?_eq_some] at hitems
  obtain ⟨hmem, hcounts⟩ := mem_filter.mp hreceipt
  refine ⟨receipt, ?_, hcounts, rfl⟩
  rw [filed, TreeMap.getD_eq_getD_getElem?, hitems]
  exact hmem

theorem length_distinct :
    (distinct nodes).length = nodes.toFinset.card := by
  rw [distinct, TreeMap.length_keys, size_indexBy, map_id]

variable {now : UInt64} {found : List Evidence}

theorem mem_group
    (h : (state, nodes) ∈ (groups entries).toList) : node ∈ nodes ↔ (state, node) ∈ entries := by
  rw [getElem?_groups (TreeMap.mem_toList_iff_getElem?_eq_some.mp h)]
  simp

theorem exists_group {entries : List (Digest32 × UInt32)} (h : (state, node) ∈ entries) :
    ∃ nodes, (state, nodes) ∈ (groups entries).toList ∧ node ∈ nodes := by
  have hlisted : node ∈ (groups entries).getD state [] := by
    rw [getD_groups]
    exact mem_map.mpr ⟨_, mem_filter.mpr ⟨h, decide_eq_true rfl⟩, rfl⟩
  rw [TreeMap.getD_eq_getD_getElem?] at hlisted
  cases hgroup : (groups entries)[state]? with
  | none =>
    rw [hgroup] at hlisted
    cases hlisted
  | some nodes =>
    rw [hgroup] at hlisted
    exact ⟨nodes, TreeMap.mem_toList_iff_getElem?_eq_some.mpr hgroup, hlisted⟩

/-- The nodes with a receipt that counts for a state. -/
def agreeing (ledger : AuditLedger) (spec : SlotSpec) (slot : UInt64) (state : Digest32) :
    Finset UInt32 :=
  (((ledger.votes spec slot).filter (·.1 = state)).map Prod.snd).toFinset

theorem mem_agreeing :
    node ∈ agreeing ledger spec slot state ↔ (state, node) ∈ ledger.votes spec slot := by
  simp [agreeing]

theorem card_agreeing (h : (state, nodes) ∈ (groups (ledger.votes spec slot)).toList) :
    (agreeing ledger spec slot state).card = (distinct nodes).length := by
  rw [length_distinct, agreeing,
    ← getElem?_groups (TreeMap.mem_toList_iff_getElem?_eq_some.mp h)]

/-- Either no receipt counts, or the state with the most nodes is settled if it has enough of
them, and the other states are reported. -/
theorem settle_ok {settled : Option Digest32}
    (h : (ledger.settle slot now).1 = .ok (settled, found)) :
    ∃ spec, ledger.specs.lookup slot = some spec ∧
      ((ledger.votes spec slot = [] ∧ settled = none ∧ found = ledger.absences spec slot now) ∨
      ∃ plurality noted, (∃ node, (plurality, node) ∈ ledger.votes spec slot) ∧
        (∀ state, (agreeing ledger spec slot state).card ≤
          (agreeing ledger spec slot plurality).card) ∧
        found = ledger.absences spec slot now ++
          forks (groups (ledger.votes spec slot)) plurality slot ++ noted ∧
        (noted = [] ∨ ∃ agreed, noted = [unresolved spec slot agreed]) ∧
        settled = if (agreeing ledger spec slot plurality).card < spec.requiredReceipts then none
          else some plurality) := by
  unfold settle at h
  split at h
  · cases h
  · rename_i spec hspec
    refine ⟨spec, hspec, ?_⟩
    dsimp only at h
    have hmaximum := lastMaximum_spec (fun entry : Digest32 × List UInt32 =>
      (distinct entry.2).length) (groups (ledger.votes spec slot)).toList
    split at h
    · rename_i hnone
      rw [hnone] at hmaximum
      cases h
      refine .inl ⟨eq_nil_iff_forall_not_mem.mpr fun ⟨_, _⟩ hvote => ?_, rfl, rfl⟩
      obtain ⟨_, hentry, -⟩ := exists_group hvote
      rw [show (groups (ledger.votes spec slot)).toList = [] from hmaximum] at hentry
      cases hentry
    · rename_i plurality nodes hsome
      rw [hsome] at hmaximum
      obtain ⟨hentry, hmost⟩ := hmaximum
      obtain ⟨node, hnode⟩ := exists_mem_of_ne_nil nodes
        (group_ne_nil (TreeMap.mem_toList_iff_getElem?_eq_some.mp hentry))
      have hvote := (mem_group hentry).mp hnode
      have hplurality : ∀ state, (agreeing ledger spec slot state).card ≤
          (agreeing ledger spec slot plurality).card := by
        intro state
        rw [card_agreeing hentry]
        rcases (agreeing ledger spec slot state).eq_empty_or_nonempty with hempty | ⟨voter, hvoter⟩
        · rw [hempty, Finset.card_empty]
          exact Nat.zero_le _
        · obtain ⟨_, hgroup, -⟩ := exists_group (mem_agreeing.mp hvoter)
          rw [card_agreeing hgroup]
          exact hmost _ hgroup
      rw [← card_agreeing hentry] at h
      split_ifs at h with hfew
      · cases h
        exact .inr ⟨plurality, _, ⟨node, hvote⟩, hplurality, rfl, .inr ⟨_, rfl⟩, (if_pos hfew).symm⟩
      · cases h
        exact .inr ⟨plurality, [], ⟨node, hvote⟩, hplurality, (append_nil _).symm, .inl rfl,
          (if_neg hfew).symm⟩

/-- A slot that settles on a state is open and as many nodes as it requires filed a receipt for
that state. -/
theorem settle_supported
    (hknown : ∀ node, ∀ receipt ∈ ledger.filed slot node, node ∈ ledger.nodeKeys)
    (h : (ledger.settle slot now).1 = .ok (some state, found)) :
    ∃ spec, ledger.specs.lookup slot = some spec ∧
      spec.requiredReceipts ≤ (supporters ledger slot state).card := by
  obtain ⟨spec, hspec, ⟨-, hnone, -⟩ | ⟨plurality, _, -, -, -, -, hsettled⟩⟩ := settle_ok h
  · cases hnone
  split at hsettled
  · cases hsettled
  · rename_i hrequired
    cases hsettled
    refine ⟨spec, hspec, (not_lt.mp hrequired).trans (Finset.card_le_card fun node hmem => ?_)⟩
    obtain ⟨receipt, hfiled, -, hstate⟩ := counted_of_vote (mem_agreeing.mp hmem)
    exact mem_supporters.mpr ⟨hknown _ receipt hfiled, receipt, hfiled, hstate⟩

theorem supporters_subset (lib : AuditLibrary) (ledger : AuditLedger) (call : Call)
    (slot : UInt64) (state : Digest32) :
    supporters ledger slot state ⊆ supporters (step lib ledger call).2 slot state := by
  intro node hmem
  obtain ⟨hnode, receipt, hfiled, hstate⟩ := mem_supporters.mp hmem
  refine mem_supporters.mpr ⟨?_, receipt, filed_subset hfiled, hstate⟩
  rw [(step_keeps ..).1]
  exact hnode

theorem spec_opened {calls : List Call}
    (h : (run (step lib) (.new nodeKeys) calls).state.specs.lookup slot = some spec) :
    spec.slot = slot ∧ Call.openSlot spec ∈ calls := by
  induction calls using reverseRecOn with
  | nil =>
    rw [run_nil] at h
    cases h
  | append_singleton calls call ih =>
    rw [run_concat, Trace.extend] at h
    generalize (run (step lib) (.new nodeKeys) calls).state = ledger at h ih
    rw [(step_keeps ..).2] at h
    have hearlier : ledger.specs.lookup slot = some spec →
        spec.slot = slot ∧ Call.openSlot spec ∈ calls ++ [call] := fun hspec =>
      ⟨(ih hspec).1, mem_append_left _ (ih hspec).2⟩
    cases call with
    | openSlot =>
      obtain ⟨rfl, rfl⟩ | h := lookup_insert_some h
      · exact ⟨rfl, mem_append_right _ mem_cons_self⟩
      · exact hearlier h
    | record | settle => exact hearlier h

theorem settled_supported {calls : List Call}
    (h : (Call.settle slot now, Answer.settled (.ok (some state, found))) ∈ (run (step lib) (.new
      nodeKeys) calls).events) :
    ∃ spec, spec.slot = slot ∧ Call.openSlot spec ∈ calls ∧ spec.requiredReceipts ≤
      (supporters (run (step lib) (.new nodeKeys) calls).state slot state).card := by
  induction calls using reverseRecOn with
  | nil => cases h
  | append_singleton calls call ih =>
    rw [run_concat, Trace.extend, mem_append, mem_singleton] at h
    rw [run_concat, Trace.extend]
    have hgrow := Finset.card_le_card (supporters_subset lib
      (run (step lib) (.new nodeKeys) calls).state call slot state)
    rcases h with h | h
    · obtain ⟨spec, hslot, hcall, hrequired⟩ := ih h
      exact ⟨spec, hslot, mem_append_left _ hcall, hrequired.trans hgrow⟩
    · obtain ⟨rfl, hanswer⟩ := Prod.mk.inj h
      have hknown : ∀ node, ∀ receipt ∈
          (run (step lib) (.new nodeKeys) calls).state.filed slot node,
          node ∈ (run (step lib) (.new nodeKeys) calls).state.nodeKeys := by
        intro node receipt hmem
        rw [run_nodeKeys]
        exact ((filed_run lib nodeKeys calls).known slot node receipt hmem).1
      obtain ⟨spec, hspec, hrequired⟩ :=
        settle_supported hknown (Answer.settled.inj hanswer).symm
      obtain ⟨hslot, hcall⟩ := spec_opened hspec
      exact ⟨spec, hslot, mem_append_left _ hcall, hrequired.trans hgrow⟩

/-! ## Accountable safety -/

def openedSpecs (calls : List Call) : List SlotSpec :=
  calls.filterMap fun
    | .openSlot spec => some spec
    | _ => none

theorem mem_openedSpecs : spec ∈ openedSpecs calls ↔ Call.openSlot spec ∈ calls := by
  rw [openedSpecs, mem_filterMap]
  constructor
  · rintro ⟨call, hmem, hcall⟩
    cases call with
    | openSlot =>
      cases hcall
      exact hmem
    | record => cases hcall
    | settle => cases hcall
  · intro hmem
    exact ⟨.openSlot spec, hmem, rfl⟩

def equivocators (ledger : AuditLedger) (slot : UInt64) : Finset ℤ :=
  ((ledger.evidence.filter fun evidence =>
    evidence.fault = .equivocation ∧ evidence.slot = slot).map (·.node)).toFinset

theorem Caught.mem_equivocators (h : Caught ledger slot node) :
    (node.toNat : ℤ) ∈ equivocators ledger slot := by
  obtain ⟨evidence, hmem, hfault, hslot, hnode⟩ := h
  rw [equivocators, mem_toFinset, mem_map]
  exact ⟨evidence, mem_filter.mpr ⟨hmem, decide_eq_true ⟨hfault, hslot⟩⟩, hnode⟩

/-- A node that supports two states of a slot was caught, if the contents handed in have
different digests. -/
theorem caught_of_supports (hfiled : Filed lib nodeKeys calls ledger)
    (hinjective : Set.InjOn lib.sha256 {bytes | ∃ receipt arrivedAt, Call.record receipt arrivedAt ∈
      calls ∧ receipt.content = bytes}) (hfirst : node ∈ supporters ledger slot first)
    (hsecond : node ∈ supporters ledger slot second) (hne : first ≠ second) :
    Caught ledger slot node := by
  obtain ⟨-, left, hleft, rfl⟩ := mem_supporters.mp hfirst
  obtain ⟨-, right, hright, rfl⟩ := mem_supporters.mp hsecond
  obtain ⟨-, time, hcall⟩ := hfiled.known slot node left hleft
  obtain ⟨-, time', hcall'⟩ := hfiled.known slot node right hright
  refine hfiled.caught slot node left hleft right hright fun hsame => hne ?_
  exact NodeReceipt.newStateDigest_of_content
    (hinjective ⟨left, time, hcall, rfl⟩ ⟨right, time', hcall', rfl⟩ hsame)

/-- When a slot that was opened once settles on two different states, the quorums of the two
states share nodes, and each of them has an entry for equivocation in the ledger. -/
theorem two_states_expose_equivocators (lib : AuditLibrary) (nodeKeys : TreeMap UInt32 Bytes)
    (calls : List Call) (honce : ((openedSpecs calls).map (·.slot)).Nodup)
    (hinjective : Set.InjOn lib.sha256
      {bytes | ∃ receipt arrivedAt, Call.record receipt arrivedAt ∈ calls ∧
        receipt.content = bytes})
    {spec : SlotSpec} (hspec : Call.openSlot spec ∈ calls) {now now' : UInt64}
    {first second : Digest32} {found found' : List Evidence}
    (hfirst : (Call.settle spec.slot now, Answer.settled (.ok (some first, found))) ∈
      (run (step lib) (.new nodeKeys) calls).events)
    (hsecond : (Call.settle spec.slot now', Answer.settled (.ok (some second, found'))) ∈
      (run (step lib) (.new nodeKeys) calls).events)
    (hne : first ≠ second) :
    2 * spec.requiredReceipts - nodeKeys.size ≤
      (equivocators (run (step lib) (.new nodeKeys) calls).state spec.slot).card := by
  have hsame : ∀ other : SlotSpec, other.slot = spec.slot → Call.openSlot other ∈ calls →
      other = spec := fun other hslot hmem =>
    inj_on_of_nodup_map honce (mem_openedSpecs.mpr hmem) (mem_openedSpecs.mpr hspec) hslot
  obtain ⟨other, hslot, hopened, hleft⟩ := settled_supported hfirst
  obtain rfl := hsame other hslot hopened
  obtain ⟨again, hslot, hopened, hright⟩ := settled_supported hsecond
  obtain rfl := hsame again hslot hopened
  have hfiled := filed_run lib nodeKeys calls
  have hkeys := run_nodeKeys lib nodeKeys calls
  generalize (run (step lib) (.new nodeKeys) calls).state = ledger at *
  have hunion : (supporters ledger again.slot first ∪ supporters ledger again.slot second).card ≤
      nodeKeys.size := by
    rw [← TreeMap.length_keys, ← toFinset_card_of_nodup TreeMap.nodup_keys, ← hkeys]
    exact Finset.card_le_card (Finset.union_subset (Finset.filter_subset _ _)
      (Finset.filter_subset _ _))
  have hshared : (supporters ledger again.slot first ∩ supporters ledger again.slot second).card ≤
      (equivocators ledger again.slot).card := by
    refine Finset.card_le_card_of_injOn (fun node => (node.toNat : ℤ)) (fun node hnode => ?_) ?_
    · obtain ⟨hfirst, hsecond⟩ := Finset.mem_inter.mp hnode
      exact (caught_of_supports hfiled hinjective hfirst hsecond hne).mem_equivocators
    · intro node _ node' _ hnode
      exact UInt32.toNat_inj.mp (Int.natCast_inj.mp hnode)
  have hinter := Finset.card_union_add_card_inter (supporters ledger again.slot first)
    (supporters ledger again.slot second)
  omega

/-- Both nodes sign one state, the slot settles, and both sign another state. -/
def forkedCalls : List Call :=
  [.openSlot { sampleSpec with requiredReceipts := 2 },
    .record (sampleReceipt 0 0 3 [10]) none, .record (sampleReceipt 1 0 3 [11]) none,
    .settle 1 60,
    .record (sampleReceipt 0 0 4 [10]) none, .record (sampleReceipt 1 0 4 [11]) none,
    .settle 1 70]

theorem forkedCalls_injective : Set.InjOn echo.sha256
    {bytes | ∃ receipt arrivedAt, Call.record receipt arrivedAt ∈ forkedCalls ∧
      receipt.content = bytes} := by
  have hcontent : ∀ bytes, (∃ receipt arrivedAt, Call.record receipt arrivedAt ∈ forkedCalls ∧
      receipt.content = bytes) → bytes = (sampleReceipt 0 0 3 []).content ∨
        bytes = (sampleReceipt 0 0 4 []).content := by
    rintro _ ⟨_, _, hmem, rfl⟩
    simp only [forkedCalls, mem_cons, reduceCtorEq, Call.record.injEq, not_mem_nil,
      or_false, false_or] at hmem
    rcases hmem with ⟨rfl, -⟩ | ⟨rfl, -⟩ | ⟨rfl, -⟩ | ⟨rfl, -⟩
    · exact .inl rfl
    · exact .inl rfl
    · exact .inr rfl
    · exact .inr rfl
  have hapart : echo.sha256 (sampleReceipt 0 0 3 []).content ≠
      echo.sha256 (sampleReceipt 0 0 4 []).content := by decide +kernel
  intro left hleft right hright hsame
  rcases hcontent left hleft with rfl | rfl <;> rcases hcontent right hright with rfl | rfl
  · rfl
  · exact absurd hsame hapart
  · exact absurd hsame.symm hapart
  · rfl

/-- Two of two nodes are required for either state, so both are exposed. -/
theorem forked_slot_exposes_both :
    2 ≤ (equivocators (run (step echo) (.new pair) forkedCalls).state 1).card := by
  have hspec : Call.openSlot { sampleSpec with requiredReceipts := 2 } ∈ forkedCalls :=
    mem_cons_self
  have hfirst : (Call.settle 1 60, Answer.settled (.ok (some (repeated 3), []))) ∈
      (run (step echo) (.new pair) forkedCalls).events := by decide +kernel
  have hsecond : (Call.settle 1 70, Answer.settled (.ok (some (repeated 4),
      [.new .forkedState 0 1 "signed a new state that the quorum did not agree with",
        .new .forkedState 1 1 "signed a new state that the quorum did not agree with"]))) ∈
      (run (step echo) (.new pair) forkedCalls).events := by decide +kernel
  exact two_states_expose_equivocators echo pair forkedCalls (by decide +kernel)
    forkedCalls_injective hspec hfirst hsecond (by decide)

end Zkpi.AuditAccountability
