import Zkpi.Chronicles
import Zkpi.PublicationBudgets
import Zkpi.RecordedRuns

/-!
# What a publication ledger accounts for

Over any sequence of calls, each budget has spent exactly what its certificates state, its
certificates form one chain with growing epochs, and no operation is certified twice. A call that
fails leaves the file as it was.
-/

namespace Zkpi.PublicationAccounting

open ByteText CheckedIntegers FallibleChecks KeyedTables RecordedRuns Chronicles List
open StatefulMethods.Method PublicationBudgets

variable {lib : PublicationLibrary} {ledger : PublicationLedger}

/-! ## Runs -/

inductive Call where
  | configureBudget (allocation : BudgetAllocation) (signatures : List NodeSignature)
      (disk : Disk)
  | publishWith (request : PublicationRequest) (mechanism : DpMechanism)
      (sign : PublicationStatement → Except String (List NodeSignature)) (disk : Disk)

/-- What a call returns. -/
inductive Answer where
  | configured (result : Except String Unit)
  | published (result : Except String PublicationCertificate)

/-- Whether a call returned an error. -/
def Answer.failed : Answer → Bool
  | configured result => !result.isOk
  | published result => !result.isOk

/-- One call. -/
def step (lib : PublicationLibrary) (ledger : PublicationLedger) (state : LedgerState) :
    Call → Answer × LedgerState
  | .configureBudget allocation signatures disk =>
    (configureBudget lib ledger allocation signatures disk state).map .configured id
  | .publishWith request mechanism sign disk =>
    (publishWith lib ledger request mechanism sign disk state).map .published id

def certificates (events : List (Call × Answer)) : List PublicationCertificate :=
  events.filterMap fun
    | (_, .published (.ok certificate)) => some certificate
    | _ => none

def certificatesOf (lib : PublicationLibrary) (key : String) (events : List (Call × Answer)) :
    List PublicationCertificate :=
  (certificates events).filter fun certificate => certificate.statement.key lib = key

def allocationsOf (lib : PublicationLibrary) (key : String) (events : List (Call × Answer)) :
    List BudgetAllocation :=
  events.filterMap fun
    | (.configureBudget allocation _ _, .configured (.ok _)) =>
      if allocation.key lib = key then some allocation else none
    | _ => none

/-! ## What a successful call did -/

variable {disk : Disk} {state state' : LedgerState}

theorem writeUnlocked_ok {next : LedgerState} :
    writeUnlocked disk next state = (.ok result, state') ↔
      disk.write = .ok () ∧ next = state' := by
  unfold writeUnlocked
  rw [lift_bind_ok]
  simp only [write_ok, exists_and_right]
  constructor
  · rintro ⟨⟨_, hwrite⟩, hnext⟩
    exact ⟨hwrite, hnext⟩
  · rintro ⟨hwrite, hnext⟩
    exact ⟨⟨(), hwrite⟩, hnext⟩

theorem atomic_writeUnlocked (disk : Disk) (next : LedgerState) :
    Atomic (writeUnlocked disk next) :=
  atomic_bind readOnly_lift fun _ => atomic_write

variable {signatures : List NodeSignature}

theorem configureBudget_ok
    (h : configureBudget lib ledger allocation signatures disk state = (.ok result, state')) :
    state.budgets.lookup (allocation.key lib) = none ∧ state'.operations = state.operations ∧
      state'.budgets = state.budgets.insert (allocation.key lib)
        ⟨allocation, storedSignatures signatures, 0, 0, none⟩ := by
  unfold configureBudget at h
  obtain ⟨_, -, h⟩ := lift_bind_ok.mp h
  obtain ⟨-, h⟩ := failIf_bind_ok.mp h
  obtain ⟨_, -, h⟩ := lift_bind_ok.mp h
  obtain ⟨_, -, h⟩ := lift_bind_ok.mp h
  obtain ⟨_, _, hread, h⟩ := bind_ok.mp h
  obtain ⟨rfl, rfl⟩ := read_ok.mp hread
  obtain ⟨hnew, h⟩ := failIf_bind_ok.mp h
  obtain ⟨_, -, h⟩ := need_bind_ok.mp h
  obtain ⟨-, rfl⟩ := writeUnlocked_ok.mp h
  exact ⟨Option.not_isSome_iff_eq_none.mp hnew, rfl, rfl⟩

structure Published (lib : PublicationLibrary) (ledger : PublicationLedger) (state : LedgerState)
    (certificate : PublicationCertificate) (state' : LedgerState) : Prop where
  fresh : state.operations.lookup (hexEncode certificate.statement.operationId.toList) = none
  budget : ∃ budget after previous,
    state.budgets.lookup (certificate.statement.key lib) = some budget ∧
    budget.lastEpoch < certificate.statement.epoch ∧
    after.toNat = budget.spentMicros.toNat + certificate.statement.epsilonMicros.toNat ∧
    after ≤ budget.allocation.totalMicros ∧
    onSome budget.latest StoredCertificate.certificate = .ok previous ∧
    certificate.verify lib ledger.publicationRegistry ledger.publicationThreshold previous = true ∧
    state'.budgets =
      state.budgets.insert (certificate.statement.key lib) (budget.debit after certificate)
  marked : ∃ digest, state'.operations =
    state.operations.insert (hexEncode certificate.statement.operationId.toList) digest

variable {certificate : PublicationCertificate}

theorem publishWith_ok {sign : PublicationStatement → Except String (List NodeSignature)}
    (h : publishWith lib ledger request mechanism sign disk state = (.ok certificate, state')) :
    Published lib ledger state certificate state' ∧
      certificate.statement.key lib = request.key lib := by
  unfold publishWith at h
  obtain ⟨-, h⟩ := failIf_bind_ok.mp h
  obtain ⟨_, -, h⟩ := lift_bind_ok.mp h
  obtain ⟨_, -, h⟩ := lift_bind_ok.mp h
  obtain ⟨_, _, hread, h⟩ := bind_ok.mp h
  obtain ⟨rfl, rfl⟩ := read_ok.mp hread
  obtain ⟨hfresh, h⟩ := failIf_bind_ok.mp h
  obtain ⟨budget, hbudget, h⟩ := need_bind_ok.mp h
  obtain ⟨hscope, h⟩ := failIf_bind_ok.mp h
  obtain ⟨after, hafter, h⟩ := need_bind_ok.mp h
  obtain ⟨hwithin, h⟩ := failIf_bind_ok.mp h
  obtain ⟨previous, hprevious, h⟩ := lift_bind_ok.mp h
  obtain ⟨_, -, h⟩ := lift_bind_ok.mp h
  obtain ⟨_, -, h⟩ := lift_bind_ok.mp h
  obtain ⟨_, -, h⟩ := lift_bind_ok.mp h
  obtain ⟨_, -, h⟩ := lift_bind_ok.mp h
  obtain ⟨hverify, h⟩ := failIf_bind_ok.mp h
  obtain ⟨_, -, h⟩ := lift_bind_ok.mp h
  obtain ⟨_, -, h⟩ := need_bind_ok.mp h
  obtain ⟨_, _, hwrite, h⟩ := bind_ok.mp h
  obtain ⟨-, rfl⟩ := writeUnlocked_ok.mp hwrite
  obtain ⟨rfl, rfl⟩ := pure_ok.mp h
  simp only [not_or, UInt64.not_le] at hscope
  refine ⟨⟨Option.not_isSome_iff_eq_none.mp hfresh, ⟨budget, after, previous, hbudget,
    hscope.2.2, checkedAdd_eq_some.mp hafter, UInt64.not_lt.mp hwithin, hprevious, ?_, rfl⟩, _,
    rfl⟩, rfl⟩
  exact not_not.mp hverify

theorem step_failed (state : LedgerState) (call : Call)
    (h : (step lib ledger state call).1.failed = true) :
    (step lib ledger state call).2 = state := by
  cases call with
  | configureBudget allocation signatures disk =>
    have hatomic : Atomic (configureBudget lib ledger allocation signatures disk) := by
      unfold configureBudget
      refine atomic_bind readOnly_lift fun body => ?_
      refine atomic_bind readOnly_failIf fun _ => ?_
      refine atomic_bind readOnly_lift fun _ => ?_
      refine atomic_bind readOnly_lift fun _ => ?_
      refine atomic_bind readOnly_read fun state => ?_
      refine atomic_bind readOnly_failIf fun _ => ?_
      refine atomic_bind readOnly_need fun generation => ?_
      exact atomic_writeUnlocked disk _
    exact hatomic.kept (Bool.not_eq_true' _ ▸ h)
  | publishWith request mechanism sign disk =>
    have hatomic : Atomic (publishWith lib ledger request mechanism sign disk) := by
      unfold publishWith
      refine atomic_bind readOnly_failIf fun _ => ?_
      refine atomic_bind readOnly_lift fun _ => ?_
      refine atomic_bind readOnly_lift fun _ => ?_
      refine atomic_bind readOnly_read fun state => ?_
      refine atomic_bind readOnly_failIf fun _ => ?_
      refine atomic_bind readOnly_need fun budget => ?_
      refine atomic_bind readOnly_failIf fun _ => ?_
      refine atomic_bind readOnly_need fun after => ?_
      refine atomic_bind readOnly_failIf fun _ => ?_
      refine atomic_bind readOnly_lift fun previous => ?_
      refine atomic_bind readOnly_lift fun delta => ?_
      refine atomic_bind readOnly_lift fun link => ?_
      refine atomic_bind readOnly_lift fun _ => ?_
      refine atomic_bind readOnly_lift fun signatures => ?_
      refine atomic_bind readOnly_failIf fun _ => ?_
      refine atomic_bind readOnly_lift fun digest => ?_
      refine atomic_bind readOnly_need fun generation => ?_
      exact (atomic_writeUnlocked disk _).map _
    exact hatomic.kept (Bool.not_eq_true' _ ▸ h)

/-! ## One budget -/

structure Accounted (lib : PublicationLibrary) (ledger : PublicationLedger) (record : BudgetRecord)
    (certificates : List PublicationCertificate) : Prop where
  /-- The debits add up exactly. -/
  spent : record.spentMicros.toNat =
    (certificates.map fun certificate => certificate.statement.epsilonMicros.toNat).sum
  within : record.spentMicros ≤ record.allocation.totalMicros
  last : ∀ certificate ∈ certificates, certificate.statement.epoch ≤ record.lastEpoch
  epochs : certificates.Pairwise fun earlier later =>
    earlier.statement.epoch < later.statement.epoch
  chained : Chronicle (fun past certificate => certificate.verify lib ledger.publicationRegistry
    ledger.publicationThreshold past.getLast? = true) certificates
  latest : record.latest = certificates.getLast?.map .fromCertificate

theorem Accounted.initial (allocation : BudgetAllocation) (signatures : List StoredSignature) :
    Accounted lib ledger ⟨allocation, signatures, 0, 0, none⟩ [] where
  spent := rfl
  within := UInt64.zero_le
  last _ hmem := nomatch hmem
  epochs := .nil
  chained := .nil
  latest := rfl

theorem load_stored {signed loaded : NodeSignature} :
    StoredSignature.load ⟨signed.nodeId, hexEncode signed.signature⟩ = .ok loaded ↔
      loaded = signed ∧ signed.signature.length = 3373 := by
  unfold StoredSignature.load
  rw [hexDecode_hexEncode]
  constructor
  · intro h
    obtain ⟨_, hraw, h⟩ := FallibleChecks.bind_ok.mp h
    obtain rfl := Option.some.inj (orRefuse_ok.mp hraw)
    obtain ⟨hlength, h⟩ := refuseIf_bind_ok.mp h
    exact ⟨(Except.ok.inj h).symm, not_not.mp hlength⟩
  · rintro ⟨rfl, hlength⟩
    exact refuseIf_bind_ok.mpr ⟨not_not.mpr hlength, rfl⟩

/-- A stored certificate is read back as it was if all of its signatures have the length of a
hybrid signature, and not at all otherwise. -/
theorem load_fromCertificate {read : PublicationCertificate} :
    (StoredCertificate.fromCertificate certificate).certificate = .ok read ↔
      read = certificate ∧
        ∀ signed ∈ certificate.signatures, signed.signature.length = 3373 := by
  obtain ⟨_, signatures⟩ := certificate
  have hload : ∀ loaded, (storedSignatures signatures).mapM StoredSignature.load = .ok loaded ↔
      loaded = signatures ∧ ∀ signed ∈ signatures, signed.signature.length = 3373 := by
    simp only [mapM_ok, storedSignatures, map_map]
    induction signatures with
    | nil => simp [eq_comm]
    | cons signed rest ih =>
      rintro (_ | ⟨head, tail⟩)
      · simp
      · simp only [map_cons, cons.injEq, forall_mem_cons, ih, Function.comp_apply,
          load_stored]
        exact and_and_and_comm
  unfold StoredCertificate.certificate
  simp only [FallibleChecks.bind_ok, StoredCertificate.fromCertificate, hload]
  constructor
  · rintro ⟨_, ⟨rfl, hall⟩, hread⟩
    exact ⟨(Except.ok.inj hread).symm, hall⟩
  · rintro ⟨rfl, hall⟩
    exact ⟨_, ⟨rfl, hall⟩, rfl⟩

theorem onSome_latest {latest read : Option PublicationCertificate} :
    onSome (latest.map .fromCertificate) StoredCertificate.certificate = .ok read ↔
      read = latest ∧ ∀ certificate ∈ latest,
        ∀ signed ∈ certificate.signatures, signed.signature.length = 3373 := by
  cases latest with
  | none => simp [onSome, eq_comm]
  | some certificate =>
    simp only [onSome, Option.map_some, FallibleChecks.bind_ok, load_fromCertificate,
      Except.ok.injEq, existsAndEq, true_and, Option.mem_def, Option.some.injEq, forall_eq']
    rw [and_comm, eq_comm]

variable {record : BudgetRecord}

theorem Accounted.previous {certificates : List PublicationCertificate}
    {previous : Option PublicationCertificate} (h : Accounted lib ledger record certificates)
    (hprevious : onSome record.latest StoredCertificate.certificate = .ok previous) :
    previous = certificates.getLast? := by
  rw [h.latest, onSome_latest] at hprevious
  exact hprevious.1

theorem Accounted.debit {certificates : List PublicationCertificate} {after : UInt64}
    {previous : Option PublicationCertificate} (h : Accounted lib ledger record certificates)
    (hepoch : record.lastEpoch < certificate.statement.epoch)
    (hafter : after.toNat = record.spentMicros.toNat + certificate.statement.epsilonMicros.toNat)
    (hwithin : after ≤ record.allocation.totalMicros)
    (hprevious : onSome record.latest StoredCertificate.certificate = .ok previous)
    (hverify : certificate.verify lib ledger.publicationRegistry ledger.publicationThreshold
      previous = true) :
    Accounted lib ledger (record.debit after certificate) (certificates ++ [certificate]) where
  spent := by
    rw [map_append, sum_append, ← h.spent]
    simpa [BudgetRecord.debit] using hafter
  within := hwithin
  last := by
    intro other hmem
    rcases mem_append.mp hmem with hmem | hmem
    · exact UInt64.le_of_lt (UInt64.lt_of_le_of_lt (h.last other hmem) hepoch)
    · rw [mem_singleton.mp hmem]
      exact UInt64.le_refl _
  epochs := by
    refine pairwise_append.mpr ⟨h.epochs, pairwise_singleton _ _, ?_⟩
    intro other hmem last hlast
    rw [mem_singleton.mp hlast]
    exact UInt64.lt_of_le_of_lt (h.last other hmem) hepoch
  chained := by
    rw [h.previous hprevious] at hverify
    exact .snoc h.chained hverify
  latest := by
    rw [getLast?_concat]
    rfl

/-! ## The whole ledger -/

structure Kept (lib : PublicationLibrary) (ledger : PublicationLedger)
    (events : List (Call × Answer)) (state : LedgerState) : Prop where
  installed : ∀ key record, state.budgets.lookup key = some record →
    allocationsOf lib key events = [record.allocation] ∧
      Accounted lib ledger record (certificatesOf lib key events)
  absent : ∀ key, state.budgets.lookup key = none →
    allocationsOf lib key events = [] ∧ certificatesOf lib key events = []
  marked : ∀ certificate ∈ certificates events,
    (state.operations.lookup (hexEncode certificate.statement.operationId.toList)).isSome = true
  once : ((certificates events).map fun certificate => certificate.statement.operationId).Nodup

variable {events : List (Call × Answer)} {state : LedgerState}

theorem Kept.initial : Kept lib ledger [] .empty where
  installed _ _ h := nomatch h
  absent _ _ := ⟨rfl, rfl⟩
  marked _ hmem := nomatch hmem
  once := .nil

variable {call : Call}

section

variable (h : Kept lib ledger events state)

include h

theorem Kept.failed {answer : Answer}
    (hfailed : answer.failed = true) : Kept lib ledger (events ++ [(call, answer)]) state := by
  have hcertificates : certificates (events ++ [(call, answer)]) = certificates events := by
    rw [certificates, filterMap_append]
    cases answer with
    | configured => exact append_nil _
    | published result =>
      cases result with
      | ok => cases hfailed
      | error => exact append_nil _
  have hallocations : ∀ key,
      allocationsOf lib key (events ++ [(call, answer)]) = allocationsOf lib key events := by
    intro key
    rw [allocationsOf, filterMap_append]
    cases answer with
    | configured result =>
      cases result with
      | ok => cases hfailed
      | error => cases call <;> exact append_nil _
    | published => cases call <;> exact append_nil _
  constructor
  · intro key record hlookup
    rw [hallocations, certificatesOf, hcertificates]
    exact h.installed key record hlookup
  · intro key hlookup
    rw [hallocations, certificatesOf, hcertificates]
    exact h.absent key hlookup
  · rw [hcertificates]
    exact h.marked
  · rw [hcertificates]
    exact h.once

theorem Kept.configure
    (hok : configureBudget lib ledger allocation signatures disk state = (.ok (), state')) :
    Kept lib ledger
      (events ++ [(.configureBudget allocation signatures disk, .configured (.ok ()))]) state' := by
  obtain ⟨hnew, hoperations, hbudgets⟩ := configureBudget_ok hok
  generalize hlast : (Call.configureBudget allocation signatures disk,
    Answer.configured (.ok ())) = last
  have hcertificates : certificates (events ++ [last]) = certificates events := by
    rw [certificates, filterMap_append, ← hlast]
    exact append_nil _
  have hallocations : ∀ key, allocationsOf lib key (events ++ [last]) =
      allocationsOf lib key events ++ if allocation.key lib = key then [allocation] else [] := by
    intro key
    rw [allocationsOf, filterMap_append, ← hlast]
    by_cases hkey : allocation.key lib = key <;> simp [hkey, allocationsOf]
  constructor
  · intro key record hlookup
    rw [hbudgets, lookup_insert_ite] at hlookup
    rw [hallocations, certificatesOf, hcertificates]
    split_ifs at hlookup with hkey
    · obtain ⟨hnone, hcerts⟩ := h.absent key (hkey ▸ hnew)
      cases hlookup
      rw [hnone, if_pos hkey.symm, show (certificates events).filter _ = [] from hcerts]
      exact ⟨rfl, .initial allocation _⟩
    · rw [if_neg (Ne.symm hkey), append_nil]
      exact h.installed key record hlookup
  · intro key hlookup
    rw [hbudgets, lookup_insert_ite] at hlookup
    rw [hallocations, certificatesOf, hcertificates]
    split at hlookup
    · cases hlookup
    · rename_i hkey
      rw [if_neg (Ne.symm hkey), append_nil]
      exact h.absent key hlookup
  · rw [hcertificates, hoperations]
    exact h.marked
  · rw [hcertificates]
    exact h.once

theorem Kept.publish
    (hok : Published lib ledger state certificate state') :
    Kept lib ledger (events ++ [(call, .published (.ok certificate))]) state' := by
  have hcertificates : certificates (events ++ [(call, .published (.ok certificate))]) =
      certificates events ++ [certificate] := by
    rw [certificates, filterMap_append]
    rfl
  have hallocations : ∀ key, allocationsOf lib key
      (events ++ [(call, .published (.ok certificate))]) = allocationsOf lib key events := by
    intro key
    rw [allocationsOf, filterMap_append]
    cases call <;> exact append_nil _
  have hof : ∀ key, certificatesOf lib key (events ++ [(call, .published (.ok certificate))]) =
      certificatesOf lib key events ++
        if certificate.statement.key lib = key then [certificate] else [] := by
    intro key
    rw [certificatesOf, hcertificates, filter_append, certificatesOf]
    by_cases hkey : certificate.statement.key lib = key <;> simp [hkey]
  obtain ⟨budget, after, previous, hbudget, hepoch, hafter, hwithin, hprevious, hverify,
    hbudgets⟩ := hok.budget
  obtain ⟨digest, hoperations⟩ := hok.marked
  constructor
  · intro key record hlookup
    rw [hbudgets, lookup_insert_ite] at hlookup
    rw [hallocations, hof]
    split_ifs at hlookup with hkey
    · cases hlookup
      rw [if_pos hkey.symm]
      obtain ⟨hinstalled, haccount⟩ := h.installed key budget (hkey ▸ hbudget)
      exact ⟨hinstalled, haccount.debit hepoch hafter hwithin hprevious hverify⟩
    · rw [if_neg (Ne.symm hkey), append_nil]
      exact h.installed key record hlookup
  · intro key hlookup
    rw [hbudgets, lookup_insert_ite] at hlookup
    rw [hallocations, hof]
    split at hlookup
    · cases hlookup
    · rename_i hkey
      rw [if_neg (Ne.symm hkey), append_nil]
      exact h.absent key hlookup
  · intro other hmem
    rw [hcertificates] at hmem
    rw [hoperations, lookup_insert_ite]
    split_ifs with hother
    · rfl
    · rcases mem_append.mp hmem with hmem | hmem
      · exact h.marked other hmem
      · rw [mem_singleton.mp hmem] at hother
        exact absurd rfl hother
  · rw [hcertificates, map_append, map_singleton]
    refine nodup_append.mpr ⟨h.once, nodup_singleton _, ?_⟩
    -- An earlier certificate of the operation would have left its mark.
    intro operation hmem operation' hmem'
    obtain ⟨other, hother, rfl⟩ := mem_map.mp hmem
    rw [mem_singleton.mp hmem']
    intro hsame
    have hmarked := h.marked other hother
    rw [hsame, hok.fresh] at hmarked
    cases hmarked

theorem Kept.step (call : Call) :
    Kept lib ledger (events ++ [(call, (step lib ledger state call).1)])
      (step lib ledger state call).2 := by
  by_cases hfailed : (PublicationAccounting.step lib ledger state call).1.failed = true
  · rw [step_failed state call hfailed]
    exact h.failed hfailed
  · cases call with
    | configureBudget allocation signatures disk =>
      simp only [PublicationAccounting.step, Prod.map, id] at hfailed ⊢
      cases hresult : configureBudget lib ledger allocation signatures disk state with
      | mk result =>
        rw [hresult] at hfailed
        cases result with
        | error => exact absurd rfl hfailed
        | ok => exact h.configure hresult
    | publishWith request mechanism sign disk =>
      simp only [PublicationAccounting.step, Prod.map, id] at hfailed ⊢
      cases hresult : publishWith lib ledger request mechanism sign disk state with
      | mk result =>
        rw [hresult] at hfailed
        cases result with
        | error => exact absurd rfl hfailed
        | ok => exact h.publish (publishWith_ok hresult).1

end

theorem kept_run (lib : PublicationLibrary) (ledger : PublicationLedger) (calls : List Call) :
    Kept lib ledger (run (step lib ledger) .empty calls).events
      (run (step lib ledger) .empty calls).state :=
  run_induction (step lib ledger) .initial (fun _ _ call h => h.step call) calls

/-- Over any sequence of calls a budget is installed once and has spent exactly what the
certificates returned for it cost, which is within its total; these certificates have growing
epochs and each of them verifies against the one before it; no operation is certified twice;
and a call that fails leaves the file as it was. -/
theorem publication_ledger_accounts (lib : PublicationLibrary) (ledger : PublicationLedger)
    (calls : List Call) :
    (∀ key record,
      (run (step lib ledger) .empty calls).state.budgets.lookup key = some record →
      allocationsOf lib key (run (step lib ledger) .empty calls).events = [record.allocation] ∧
      record.spentMicros.toNat =
        ((certificatesOf lib key (run (step lib ledger) .empty calls).events).map
          fun certificate => certificate.statement.epsilonMicros.toNat).sum ∧
      record.spentMicros ≤ record.allocation.totalMicros) ∧
    (∀ key,
      (certificatesOf lib key (run (step lib ledger) .empty calls).events).Pairwise
        (fun earlier later => earlier.statement.epoch < later.statement.epoch) ∧
      Chronicle (fun past certificate => certificate.verify lib ledger.publicationRegistry
          ledger.publicationThreshold past.getLast? = true)
        (certificatesOf lib key (run (step lib ledger) .empty calls).events)) ∧
    ((certificates (run (step lib ledger) .empty calls).events).map
      fun certificate => certificate.statement.operationId).Nodup ∧
    ∀ state call, (step lib ledger state call).1.failed = true →
      (step lib ledger state call).2 = state := by
  have hkept := kept_run lib ledger calls
  refine ⟨fun key record hlookup => ?_, fun key => ?_, hkept.once, step_failed⟩
  · obtain ⟨hinstalled, haccount⟩ := hkept.installed key record hlookup
    exact ⟨hinstalled, haccount.spent, haccount.within⟩
  · cases hlookup : (run (PublicationAccounting.step lib ledger) .empty calls).state.budgets.lookup
      key with
    | none =>
      rw [(hkept.absent key hlookup).2]
      exact ⟨.nil, .nil⟩
    | some record =>
      obtain ⟨-, haccount⟩ := hkept.installed key record hlookup
      exact ⟨haccount.epochs, haccount.chained⟩

/-- After any sequence of calls the newest certificate of a budget is read back as it was
returned exactly if all of its signatures have the length of a hybrid signature, and otherwise
every later publication on the budget fails. -/
theorem latest_certificate_read (lib : PublicationLibrary) (ledger : PublicationLedger)
    (calls : List Call) {key : String} {record : BudgetRecord}
    (hlookup :
      (run (step lib ledger) .empty calls).state.budgets.lookup key = some record) :
    (onSome record.latest StoredCertificate.certificate =
        .ok (certificatesOf lib key (run (step lib ledger) .empty calls).events).getLast? ↔
      ∀ certificate ∈
        (certificatesOf lib key (run (step lib ledger) .empty calls).events).getLast?,
        ∀ signed ∈ certificate.signatures, signed.signature.length = 3373) ∧
    ((∃ certificate ∈
        (certificatesOf lib key (run (step lib ledger) .empty calls).events).getLast?,
        ∃ signed ∈ certificate.signatures, signed.signature.length ≠ 3373) →
      ∀ request mechanism sign disk, request.key lib = key →
        ∃ message, (publishWith lib ledger request mechanism sign disk
          (run (step lib ledger) .empty calls).state).1 = .error message) := by
  obtain ⟨-, haccount⟩ := (kept_run lib ledger calls).installed key record hlookup
  constructor
  · rw [haccount.latest, onSome_latest]
    exact and_iff_right rfl
  · rintro ⟨certificate, hlatest, signed, hsigned, hlength⟩ request mechanism sign disk rfl
    cases hresult : publishWith lib ledger request mechanism sign disk
      (run (PublicationAccounting.step lib ledger) .empty calls).state with
    | mk result after =>
      cases result with
      | error message => exact ⟨message, rfl⟩
      | ok published =>
        -- The publication would have read the newest certificate back.
        obtain ⟨hpublished, hkey⟩ := publishWith_ok hresult
        obtain ⟨budget, _, _, hbudget, -, -, -, hprevious, -⟩ := hpublished.budget
        obtain rfl := Option.some.inj (hlookup.symm.trans (hkey ▸ hbudget))
        rw [haccount.latest, onSome_latest] at hprevious
        exact absurd (hprevious.2 certificate hlatest signed hsigned) hlength

def accepting : PublicationLibrary where
  sha256 _ := repeated 1
  verify _ _ _ := true
  json _ := []
  certificateDelta _ := .ok (1, 2)
  checkDelta _ _ _ := .ok ()

/-- Seven signers with keys of their own. -/
def sampleRegistry (first : ℕ) : Registry :=
  .ofList (["a", "b", "c", "d", "e", "f", "g"].mapIdx fun index node =>
    (node, replicate 1984 (UInt8.ofNat (first + index))))

/-- Three of seven signers for publications and three of seven others for budgets. -/
def sampleLedger : PublicationLedger := ⟨sampleRegistry 0, 3, sampleRegistry 7, 3⟩

def sampleSignatures : List NodeSignature :=
  ["a", "b", "c"].map (⟨·, replicate 3373 0⟩)

/-- A file system without faults. -/
def sound : Disk := ⟨.ok (), .ok (), .ok ()⟩

def sampleRequest (operation : UInt8) (epoch : UInt64) : PublicationRequest :=
  ⟨repeated operation, repeated 2, "venue", epoch, 0, 9, repeated 3, repeated 4, repeated 5,
    repeated 6, "volume", 7⟩

def samplePublish (operation : UInt8) (epoch : UInt64) : Call :=
  .publishWith (sampleRequest operation epoch) ⟨400, 1, 8, "v1"⟩
    (fun _ => .ok sampleSignatures) sound

def sampleBudget : Call :=
  .configureBudget ⟨repeated 2, "venue", "volume", 1000, 1⟩ sampleSignatures sound

theorem sample_certificate_read : ∃ record,
    (run (step accepting sampleLedger) .empty
      [sampleBudget, samplePublish 1 1]).state.budgets.lookup
        ((sampleRequest 1 1).key accepting) = some record ∧
    onSome record.latest StoredCertificate.certificate =
      .ok (certificatesOf accepting ((sampleRequest 1 1).key accepting)
        (run (step accepting sampleLedger) .empty
          [sampleBudget, samplePublish 1 1]).events).getLast? := by
  obtain ⟨record, hlookup⟩ := Option.isSome_iff_exists.mp
    (by decide +kernel : ((run (step accepting sampleLedger) .empty
      [sampleBudget, samplePublish 1 1]).state.budgets.lookup
        ((sampleRequest 1 1).key accepting)).isSome = true)
  exact ⟨record, hlookup, (latest_certificate_read _ _ _ hlookup).1.mpr (by decide +kernel)⟩

/-- A surplus signature, by a node that is not registered and of another length, does not count
but is stored; the next publication on the budget fails. -/
theorem surplus_signature_blocks :
    (∀ registry ∈ [sampleLedger.publicationRegistry, sampleLedger.governanceRegistry],
      independentRegistry registry = true ∧ registry.size = 7) ∧
    (run (step accepting sampleLedger) .empty
      [sampleBudget,
        .publishWith (sampleRequest 1 1) ⟨400, 1, 8, "v1"⟩
          (fun _ => .ok (⟨"other", []⟩ :: sampleSignatures)) sound,
        samplePublish 2 2]).events.map (fun event => match event.2 with
          | .published (.error message) => message
          | _ => "") =
      ["", "", "legacy publication requires an archived checkpoint and explicit PQ migration"] := by
  decide +kernel

end Zkpi.PublicationAccounting
