import Zkpi.SlotSealer

/-!
# What a slot sealer answers for

A run is any sequence of admissions and closes, by anyone, at any times. Its history says for
every ticket digest which frame was admitted first and which receipt was given for it. The
sealer's two maps are exactly that history, so a second frame never replaces the first, every
receipt is the first one, and the one manifest of a run lists every promise.
-/

namespace Zkpi.SealerAccountability

open ByteText FallibleChecks KeyedTables RecordedRuns SlotSealer List FixedSlotSealer

/-! ## Encodings -/

theorem encode_inj {left right : Frame} (h : left.encode = right.encode) : left = right := by
  obtain ⟨slot, node, payload, mac⟩ := left
  obtain ⟨slot', node', payload', mac'⟩ := right
  simp only [Frame.encode] at h
  obtain ⟨h, hmac⟩ := append_inj' h (by simp)
  obtain ⟨h, hpayload⟩ := append_inj' h (by simp)
  obtain ⟨h, hnode⟩ := append_inj' h (by simp)
  obtain ⟨-, hslot⟩ := append_inj' h (by simp)
  obtain rfl : slot = slot' :=
    UInt32.toNat_inj.mp (beBytes_inj slot.toNat_lt slot'.toNat_lt hslot)
  obtain rfl : node = node' :=
    UInt16.toNat_inj.mp (beBytes_inj node.toNat_lt node'.toNat_lt hnode)
  obtain rfl : payload = payload' := List.Vector.toList_injective hpayload
  obtain rfl : mac = mac' := List.Vector.toList_injective hmac
  rfl

theorem ticketId_of_hashed {left right : AdmissionTicket}
    (hleft : left.hashed = .ok bytes) (hright : right.hashed = .ok bytes) :
    left.ticketId = right.ticketId := by
  unfold AdmissionTicket.hashed AdmissionTicket.unsigned at hleft hright
  simp only [bind_ok, Except.ok.injEq] at hleft hright
  obtain ⟨_, ⟨_, -, rfl⟩, rfl⟩ := hleft
  obtain ⟨_, ⟨_, -, rfl⟩, h⟩ := hright
  simp only [framed, flatMap_cons, append_assoc] at h
  obtain ⟨-, h⟩ := append_inj h (by simp)
  obtain ⟨-, h⟩ := append_inj h rfl
  obtain ⟨-, h⟩ := append_inj h (by simp)
  obtain ⟨h, -⟩ := append_inj h (by simp)
  exact (List.Vector.toList_injective h).symm

/-! ## Runs and their history -/

inductive Call where
  | admitFrame (ticket : AdmissionTicket) (frame : Frame) (nowNs : UInt64) (sign : Signer)
  | close (beacon : RandomnessBeacon) (nowNs : UInt64) (sign : Signer)

/-- What a call returns. -/
inductive Answer where
  | received (result : Except String AdmissionReceipt)
  | batched (result : Except String (List Frame × BatchManifest))

variable (lib : OrderLibrary)

def step (sealer : FixedSlotSealer) : Call → Answer × FixedSlotSealer
  | .admitFrame ticket frame nowNs sign =>
    let (result, next) := admitFrame lib ticket frame nowNs sign sealer
    (.received result, next)
  | .close beacon nowNs sign =>
    let (result, next) := close lib beacon nowNs sign sealer
    (.batched result, next)

def admission (digest : Digest32) : Call × Answer → Option (Frame × AdmissionReceipt)
  | (.admitFrame ticket frame _ _, .received (.ok receipt)) =>
    match ticket.digest lib with
    | .ok own => if own = digest then some (frame, receipt) else none
    | .error _ => none
  | _ => none

def firstAdmission (events : List (Call × Answer)) (digest : Digest32) :
    Option (Frame × AdmissionReceipt) :=
  events.findSome? (admission lib digest)

def receiptOf : Call × Answer → Option AdmissionReceipt
  | (_, .received (.ok receipt)) => some receipt
  | _ => none

def batchOf : Call × Answer → Option (List Frame × BatchManifest)
  | (.close _ _ _, .batched (.ok batch)) => some batch
  | _ => none

theorem firstAdmission_concat : firstAdmission lib (events ++ [event]) digest =
      (firstAdmission lib events digest).or (admission lib digest event) := by
  rw [firstAdmission, findSome?_append]
  simp only [findSome?_cons, findSome?_nil]
  cases admission lib digest event <;> rfl

structure Kept (start : FixedSlotSealer) (events : List (Call × Answer))
    (sealer : FixedSlotSealer) : Prop where
  /-- Only the maps and the flag change. -/
  fixed : sealer = { start with
    frames := sealer.frames, receipts := sealer.receipts, closed := sealer.closed }
  frames : ∀ digest, sealer.frames.lookup digest = (firstAdmission lib events digest).map (·.1)
  receipts : ∀ digest,
    sealer.receipts.lookup digest = (firstAdmission lib events digest).map (·.2)
  promised : ∀ digest frame receipt, firstAdmission lib events digest = some (frame, receipt) →
    receipt.ticketDigest = digest ∧ receipt.frameDigest = lib.sha256 frame.encode ∧
      (frame.slot.toUInt64 = start.slot ∧ frame.node.toUInt64 = start.node) ∧
      ∃ expected, start.tickets.mapM (AdmissionTicket.digest lib) = .ok expected ∧
        digest ∈ expected
  first : ∀ receipt ∈ events.filterMap receiptOf, ∃ frame,
    firstAdmission lib events receipt.ticketDigest = some (frame, receipt)
  once : (events.filterMap batchOf).length = if sealer.closed then 1 else 0
  batch : ∀ beacon nowNs sign frames manifest,
    (.close beacon nowNs sign, .batched (.ok (frames, manifest))) ∈ events →
      Seals lib sealer beacon frames manifest

variable {lib} {start sealer next : FixedSlotSealer} {events : List (Call × Answer)}

/-- An event that adds nothing to the history of an unchanged sealer: at most it returns a receipt
once more. -/
theorem Kept.unchanged (h : Kept lib start events sealer)
    (hadmission : ∀ digest, firstAdmission lib events digest = none →
      admission lib digest event = none)
    (hreceipt : ∀ receipt, receiptOf event = some receipt →
      ∃ frame, firstAdmission lib events receipt.ticketDigest = some (frame, receipt))
    (hbatch : batchOf event = none) : Kept lib start (events ++ [event]) sealer := by
  have hsame : ∀ digest,
      firstAdmission lib (events ++ [event]) digest = firstAdmission lib events digest := by
    intro digest
    rw [firstAdmission_concat]
    cases hfirst : firstAdmission lib events digest with
    | some => rfl
    | none => rw [hadmission digest hfirst, Option.none_or]
  have hbatches : (events ++ [event]).filterMap batchOf = events.filterMap batchOf := by
    simp [filterMap_append, hbatch]
  constructor
  · exact h.fixed
  · simpa only [hsame] using h.frames
  · simpa only [hsame] using h.receipts
  · simpa only [hsame] using h.promised
  · intro receipt hmem
    rw [hsame]
    rw [filterMap_append, mem_append] at hmem
    rcases hmem with hmem | hmem
    · exact h.first receipt hmem
    · refine hreceipt receipt ?_
      simpa using hmem
  · simpa only [hbatches] using h.once
  · intro beacon nowNs sign frames manifest hmem
    rw [mem_append, mem_singleton] at hmem
    rcases hmem with hmem | rfl
    · exact h.batch beacon nowNs sign frames manifest hmem
    · cases hbatch

variable {beacon : RandomnessBeacon} {nowNs : UInt64} {sign : Signer} {frames : List Frame}
  {manifest : BatchManifest}

theorem Kept.no_batch (h : Kept lib start events sealer) (hunclosed : sealer.closed = false) :
    (.close beacon nowNs sign, .batched (.ok (frames, manifest))) ∉ events := by
  intro hmem
  have hnone : events.filterMap batchOf = [] := by
    rw [← length_eq_zero_iff, h.once, hunclosed]
    rfl
  have hbatch := filterMap_eq_nil_iff.mp hnone _ hmem
  cases hbatch

variable {ticket : AdmissionTicket} {frame : Frame} {receipt : AdmissionReceipt}

theorem admission_recorded (hdigest : ticket.digest lib = .ok own) (digest : Digest32) :
    admission lib digest (.admitFrame ticket frame nowNs sign, .received (.ok receipt)) =
      if own = digest then some (frame, receipt) else none := by
  simp only [admission, hdigest]

section

variable (h : Kept lib start events sealer)

include h

theorem Kept.fresh (hown : Admissible lib sealer ticket frame nowNs own)
    (hnone : sealer.frames.lookup own = none)
    (hpromise : receipt.ticketDigest = own ∧ receipt.frameDigest = lib.sha256 frame.encode) :
    Kept lib start (events ++ [(.admitFrame ticket frame nowNs sign, .received (.ok receipt))])
      { sealer with
        frames := sealer.frames.insert own frame
        receipts := sealer.receipts.insert own receipt } := by
  rw [h.frames, Option.map_eq_none_iff] at hnone
  have hfirst : ∀ digest, firstAdmission lib
      (events ++ [(.admitFrame ticket frame nowNs sign, .received (.ok receipt))]) digest =
        if own = digest then some (frame, receipt) else firstAdmission lib events digest := by
    intro digest
    rw [firstAdmission_concat, admission_recorded hown.digested]
    split_ifs with heq
    · subst heq
      rw [hnone, Option.none_or]
    · rw [Option.or_none]
  have hbatches : (events ++ [(Call.admitFrame ticket frame nowNs sign,
      Answer.received (.ok receipt))]).filterMap batchOf = events.filterMap batchOf := by
    simp [filterMap_append, batchOf]
  constructor
  · have hfixed := h.fixed
    dsimp only
    rw [hfixed]
  · intro digest
    rw [hfirst, lookup_insert_ite, h.frames]
    split <;> rename_i heq
    · rw [if_pos heq.symm, Option.map_some]
    · rw [if_neg (Ne.symm heq)]
  · intro digest
    rw [hfirst, lookup_insert_ite, h.receipts]
    split <;> rename_i heq
    · rw [if_pos heq.symm, Option.map_some]
    · rw [if_neg (Ne.symm heq)]
  · intro digest admitted returned hentry
    rw [hfirst] at hentry
    split_ifs at hentry with heq
    · subst heq
      simp only [Option.some.injEq, Prod.mk.injEq] at hentry
      obtain ⟨rfl, rfl⟩ := hentry
      have haddressed := hown.addressed
      have hpopulation := hown.population
      rw [h.fixed] at haddressed hpopulation
      exact ⟨hpromise.1, hpromise.2, haddressed, hpopulation⟩
    · exact h.promised digest admitted returned hentry
  · intro returned hmem
    rw [filterMap_append, mem_append] at hmem
    rcases hmem with hmem | hmem
    · obtain ⟨admitted, hentry⟩ := h.first returned hmem
      refine ⟨admitted, ?_⟩
      rw [hfirst, if_neg, hentry]
      intro heq
      rw [← heq, hnone] at hentry
      cases hentry
    · obtain rfl : returned = receipt := by
        simpa [receiptOf, eq_comm] using hmem
      exact ⟨frame, by rw [hfirst, if_pos hpromise.1.symm]⟩
  · rw [hbatches]
    exact h.once
  · intro _ _ _ _ _ hmem
    rw [mem_append, mem_singleton] at hmem
    rcases hmem with hmem | hmem
    · exact absurd hmem (h.no_batch hown.unclosed)
    · cases hmem

theorem Kept.closes (hunclosed : sealer.closed = false)
    (hseals : Seals lib sealer beacon frames manifest) :
    Kept lib start (events ++ [(.close beacon nowNs sign, .batched (.ok (frames, manifest)))])
      { sealer with closed := true } := by
  have hsame : ∀ digest, firstAdmission lib
      (events ++ [(.close beacon nowNs sign, .batched (.ok (frames, manifest)))]) digest =
        firstAdmission lib events digest := by
    intro _
    simp [firstAdmission_concat, admission]
  constructor
  · have hfixed := h.fixed
    dsimp only
    rw [hfixed]
  · simpa only [hsame] using h.frames
  · simpa only [hsame] using h.receipts
  · simpa only [hsame] using h.promised
  · simpa [filterMap_append, receiptOf, hsame] using h.first
  · rw [filterMap_append, length_append, h.once, hunclosed]
    rfl
  · intro _ _ _ _ _ hmem
    rw [mem_append, mem_singleton] at hmem
    rcases hmem with hmem | hmem
    · exact absurd hmem (h.no_batch hunclosed)
    · cases hmem
      exact ⟨hseals.slot, hseals.beaconRound, hseals.beaconValue, hseals.ticketDigests,
        hseals.admitted, hseals.frameDigests⟩

theorem Kept.after (call : Call) :
    Kept lib start (events ++ [(call, (step lib sealer call).1)]) (step lib sealer call).2 := by
  cases call with
  | admitFrame ticket frame nowNs sign =>
    simp only [step]
    rcases hcall : admitFrame lib ticket frame nowNs sign sealer with ⟨result, next⟩
    cases result with
    | error message =>
      obtain rfl := admit_atomic _ _ _ hcall
      exact h.unchanged (fun _ _ => rfl) (fun _ hreceipt => nomatch hreceipt) rfl
    | ok =>
      obtain ⟨_, hown, ⟨_, -, -, hreceipt, rfl⟩ | ⟨hnone, ⟨_, rfl⟩, rfl⟩⟩ :=
        admit_ok hcall
      · rw [h.receipts, Option.map_eq_some_iff] at hreceipt
        obtain ⟨⟨first, returned⟩, hfirst, rfl⟩ := hreceipt
        refine h.unchanged (fun digest hdigest => ?_) (fun again hagain => ?_) rfl
        · rw [admission_recorded hown.digested, if_neg]
          rintro rfl
          rw [hfirst] at hdigest
          cases hdigest
        · obtain rfl : returned = again := Option.some.inj hagain
          rw [(h.promised _ _ _ hfirst).1]
          exact ⟨first, hfirst⟩
      · exact h.fresh hown hnone ⟨rfl, rfl⟩
  | close beacon nowNs sign =>
    simp only [step]
    rcases hcall : close lib beacon nowNs sign sealer with ⟨result, next⟩
    cases result with
    | error message =>
      obtain rfl := close_atomic _ _ _ hcall
      exact h.unchanged (fun _ _ => rfl) (fun _ hreceipt => nomatch hreceipt) rfl
    | ok =>
      obtain ⟨hunclosed, -, hseals, rfl⟩ := close_ok hcall
      exact h.closes hunclosed hseals

end

variable {slot node deadlineNs : UInt64} {tickets : List AdmissionTicket}
  {authorityKey beaconKey previousDigest : Digest32}

theorem new_ok
    (h : new slot node deadlineNs tickets authorityKey beaconKey previousDigest =
      .ok start) :
    (tickets.map (·.ticketId)).Nodup ∧ (∀ ticket ∈ tickets, ticket.slot = slot) ∧
      start = ⟨slot, node, deadlineNs, tickets, authorityKey, beaconKey, previousDigest, ∅, ∅,
        false⟩ := by
  unfold new at h
  simp only [refuseIf_bind_ok, not_not, not_exists, not_and, Except.ok.injEq] at h
  obtain ⟨hlength, hslot, rfl⟩ := h
  refine ⟨?_, hslot, rfl⟩
  have hself : (tickets.map (·.ticketId)).dedup = tickets.map (·.ticketId) :=
    (dedup_sublist _).eq_of_length (by rw [hlength, length_map])
  rw [← hself]
  exact nodup_dedup _

theorem kept_run
    (hnew : new slot node deadlineNs tickets authorityKey beaconKey previousDigest =
      .ok start) (calls : List Call) :
    Kept lib start (run (step lib) start calls).events (run (step lib) start calls).state := by
  obtain ⟨-, -, rfl⟩ := new_ok hnew
  refine run_induction (step lib) ?_ (fun events sealer call h => h.after call) calls
  exact ⟨rfl, fun _ => rfl, fun _ => rfl, (fun _ _ _ h => nomatch h), (fun _ h => nomatch h),
    rfl, (fun _ _ _ _ _ h => nomatch h)⟩

/-! ## The one manifest -/

section Manifest

variable {beacon : RandomnessBeacon} {frames : List Frame} {manifest : BatchManifest}

variable (lib) in
theorem inOrder_perm (slot round : UInt64) (value : Digest32) (tickets : List AdmissionTicket) :
    (inOrder lib slot round value tickets).Perm tickets :=
  perm_insertionSort _ _

theorem seals_population (h : Seals lib sealer beacon frames manifest) :
    ∃ digests, sealer.tickets.mapM (AdmissionTicket.digest lib) = .ok digests ∧
      manifest.orderedTicketDigests.Perm digests :=
  mapM_perm (inOrder_perm lib _ _ _ _) (mapM_ok.mpr h.ticketDigests)

/-- A digest is listed twice only if two tickets of the population hash different bytes to it. -/
theorem seals_nodup (hids : (sealer.tickets.map (·.ticketId)).Nodup)
    (h : Seals lib sealer beacon frames manifest) :
    manifest.orderedTicketDigests.Nodup ∨
      ∃ ticket ∈ sealer.tickets, ∃ ticket' ∈ sealer.tickets, ∃ bytes bytes',
        ticket.hashed = .ok bytes ∧ ticket'.hashed = .ok bytes' ∧ bytes ≠ bytes' ∧
          lib.sha256 bytes = lib.sha256 bytes' := by
  have hperm := inOrder_perm lib sealer.slot beacon.round beacon.value sealer.tickets
  by_cases hcollision : ∃ ticket ∈ sealer.tickets, ∃ ticket' ∈ sealer.tickets, ticket ≠ ticket' ∧
      ∃ digest, ticket.digest lib = .ok digest ∧ ticket'.digest lib = .ok digest
  · right
    obtain ⟨ticket, hticket, ticket', hticket', hne, digest, hdigest, hdigest'⟩ := hcollision
    obtain ⟨bytes, hbytes, hsha⟩ := bind_ok.mp hdigest
    obtain ⟨bytes', hbytes', hsha'⟩ := bind_ok.mp hdigest'
    refine ⟨ticket, hticket, ticket', hticket', bytes, bytes', hbytes, hbytes', ?_, ?_⟩
    · rintro rfl
      exact hne (inj_on_of_nodup_map hids hticket hticket'
        (ticketId_of_hashed hbytes hbytes'))
    · rw [Except.ok.inj hsha, Except.ok.inj hsha']
  · left
    have hlisted : (manifest.orderedTicketDigests.map
        fun digest => (.ok digest : Except String Digest32)).Nodup := by
      rw [← h.ticketDigests]
      refine List.Nodup.map_on (fun ticket hticket ticket' hticket' heq => ?_)
        (hperm.nodup_iff.mpr hids.of_map)
      have hmem : ticket.digest lib ∈ manifest.orderedTicketDigests.map .ok := by
        rw [← h.ticketDigests]
        exact mem_map_of_mem hticket
      obtain ⟨digest, -, hdigest⟩ := mem_map.mp hmem
      by_contra hne
      exact hcollision ⟨ticket, hperm.mem_iff.mp hticket, ticket', hperm.mem_iff.mp hticket', hne,
        digest, hdigest.symm, heq ▸ hdigest.symm⟩
    exact hlisted.of_map

theorem Kept.includes (h : Kept lib start events sealer)
    (hseals : Seals lib sealer beacon frames manifest)
    (hreceipt : receipt ∈ events.filterMap receiptOf) : manifest.includes receipt = true := by
  obtain ⟨frame, hfirst⟩ := h.first receipt hreceipt
  obtain ⟨-, hdigest, -, expected, hexpected, hmem⟩ := h.promised _ _ _ hfirst
  obtain ⟨digests, hdigests, hperm⟩ := seals_population hseals
  rw [h.fixed] at hdigests
  obtain rfl : expected = digests := Except.ok.inj (hexpected.symm.trans hdigests)
  obtain ⟨i, hi, hat⟩ := mem_iff_getElem.mp (hperm.mem_iff.mpr hmem)
  have hlength : manifest.orderedTicketDigests.length = frames.length := by
    simpa using congrArg length hseals.admitted
  have hframe : frames[i]? = some frame := by
    have hadmitted := congrArg (·[i]?) hseals.admitted
    simp only [getElem?_map, getElem?_eq_getElem hi, hat, Option.map_some, h.frames,
      hfirst] at hadmitted
    cases hentry : frames[i]? with
    | none => rw [hentry] at hadmitted; cases hadmitted
    | some =>
      rw [hentry] at hadmitted
      exact (Option.some.inj hadmitted).symm
  have hentry : (receipt.ticketDigest, receipt.frameDigest) ∈
      manifest.orderedTicketDigests.zip manifest.orderedFrameDigests := by
    refine mem_iff_getElem?.mpr ⟨i, ?_⟩
    rw [getElem?_zip_eq_some, hseals.frameDigests, getElem?_map, hframe,
      getElem?_eq_getElem hi, hat, hdigest]
    exact ⟨rfl, rfl⟩
  rw [BatchManifest.includes, any_eq_true]
  exact ⟨_, hentry, by simp⟩

end Manifest

/-! ## Accountability -/

section Calls

variable {ticket : AdmissionTicket} {frame : Frame} {nowNs : UInt64} {sign : Signer}
  {receipt : AdmissionReceipt}

theorem Kept.unclosed_iff (h : Kept lib start events sealer) :
    events.filterMap batchOf = [] ↔ sealer.closed = false := by
  rw [← length_eq_zero_iff, h.once]
  cases sealer.closed <;> simp

theorem step_admit_ok (h : step lib sealer (.admitFrame ticket frame nowNs sign) =
    (.received (.ok receipt), next)) :
    admitFrame lib ticket frame nowNs sign sealer = (.ok receipt, next) := by
  simp only [step, Prod.mk.injEq, Answer.received.injEq] at h
  exact Prod.ext h.1 h.2

theorem step_admit_error
    (h : (admitFrame lib ticket frame nowNs sign sealer).1 = .error message) :
    step lib sealer (.admitFrame ticket frame nowNs sign) =
      (.received (.error message), sealer) := by
  rcases hcall : admitFrame lib ticket frame nowNs sign sealer with ⟨result, next⟩
  rw [hcall] at h
  obtain rfl : result = .error message := h
  obtain rfl := admit_atomic _ _ _ hcall
  simp only [step, hcall]

variable {digest : Digest32} {prior : Frame}

theorem Kept.readmitted (h : Kept lib start events sealer)
    (hdigest : ticket.digest lib = .ok digest)
    (hfirst : firstAdmission lib events digest = some (prior, receipt))
    (hcall : admitFrame lib ticket frame nowNs sign sealer = (.ok again, next)) :
    frame = prior ∧ again = receipt := by
  obtain ⟨own, hown, hcase⟩ := admit_ok hcall
  obtain rfl : digest = own := Except.ok.inj (hdigest.symm.trans hown.digested)
  have hframe := h.frames digest
  have hreceipt := h.receipts digest
  rw [hfirst] at hframe hreceipt
  rcases hcase with ⟨held, hheld, hsame, hreturned, -⟩ | ⟨hnone, -, -⟩
  · obtain rfl : prior = held := Option.some.inj (hframe.symm.trans hheld)
    exact ⟨(encode_inj hsame).symm, (Option.some.inj (hreceipt.symm.trans hreturned)).symm⟩
  · rw [hnone] at hframe
    cases hframe

theorem Kept.readmit (h : Kept lib start events sealer) (hdigest : ticket.digest lib = .ok digest)
    (hfirst : firstAdmission lib events digest = some (prior, receipt))
    (hunclosed : sealer.closed = false) (htime : nowNs ≤ start.deadlineNs)
    (hvalid : ticket.verify lib start.authorityKey (nowNs / 1000000000) = true) :
    step lib sealer (.admitFrame ticket prior nowNs sign) = (.received (.ok receipt), sealer) := by
  have hframe := h.frames digest
  have hreceipt := h.receipts digest
  rw [hfirst] at hframe hreceipt
  obtain ⟨-, -, haddressed, hpopulation⟩ := h.promised _ _ _ hfirst
  have hadmissible : Admissible lib sealer ticket prior nowNs digest := by
    refine ⟨hunclosed, ?_, ?_, hdigest, ?_, ?_⟩ <;> rw [h.fixed] <;> assumption
  simp [step, admit_again hadmissible hframe hreceipt]

end Calls

/-- A run of admissions and closes on one sealer, whatever the calls and their times. At most one
manifest is produced. It includes every receipt ever returned, so no receipt convicts the sealer;
it lists the digest of every ticket of the population once, unless two tickets hash different
bytes to one digest; with each stands the digest of the frame first admitted for it, and the
frames are returned in that order. Nothing is admitted after the deadline or after the manifest.
A ticket that has an admitted frame gets the same receipt for that frame, as long as the ticket
can be used at all, and is refused any other frame without a change of state. -/
theorem sealer_accountable (lib : OrderLibrary) {slot node deadlineNs : UInt64}
    {tickets : List AdmissionTicket} {authorityKey beaconKey previousDigest : Digest32}
    {start : FixedSlotSealer} (hnew : new slot node deadlineNs tickets authorityKey
      beaconKey previousDigest = .ok start) (calls : List Call) :
    ((run (step lib) start calls).events.filterMap batchOf).length ≤ 1 ∧
    (∀ frames manifest,
      (frames, manifest) ∈ (run (step lib) start calls).events.filterMap batchOf →
      (∀ receipt ∈ (run (step lib) start calls).events.filterMap receiptOf,
        manifest.includes receipt = true ∧
          ∀ sealerKey, proveOmission lib receipt manifest sealerKey = false) ∧
      (∃ digests, tickets.mapM (AdmissionTicket.digest lib) = .ok digests ∧
        manifest.orderedTicketDigests.Perm digests) ∧
      (manifest.orderedTicketDigests.Nodup ∨
        ∃ ticket ∈ tickets, ∃ ticket' ∈ tickets, ∃ bytes bytes',
          ticket.hashed = .ok bytes ∧ ticket'.hashed = .ok bytes' ∧ bytes ≠ bytes' ∧
            lib.sha256 bytes = lib.sha256 bytes') ∧
      (manifest.orderedTicketDigests.map fun digest =>
        (firstAdmission lib (run (step lib) start calls).events digest).map (·.1)) =
          frames.map some ∧
      manifest.orderedFrameDigests = frames.map fun frame => lib.sha256 frame.encode) ∧
    (∀ ticket frame nowNs sign receipt next,
      step lib (run (step lib) start calls).state (.admitFrame ticket frame nowNs sign) =
        (.received (.ok receipt), next) →
      nowNs ≤ deadlineNs ∧ (run (step lib) start calls).events.filterMap batchOf = []) ∧
    ∀ (ticket : AdmissionTicket) frame nowNs sign digest prior receipt,
      ticket.digest lib = .ok digest →
      firstAdmission lib (run (step lib) start calls).events digest = some (prior, receipt) →
      (∀ again next,
        step lib (run (step lib) start calls).state (.admitFrame ticket frame nowNs sign) =
          (.received (.ok again), next) → frame = prior ∧ again = receipt) ∧
      (frame = prior → (run (step lib) start calls).events.filterMap batchOf = [] →
        nowNs ≤ deadlineNs → ticket.verify lib authorityKey (nowNs / 1000000000) = true →
        step lib (run (step lib) start calls).state (.admitFrame ticket frame nowNs sign) =
          (.received (.ok receipt), (run (step lib) start calls).state)) ∧
      (frame ≠ prior → ∃ message,
        step lib (run (step lib) start calls).state (.admitFrame ticket frame nowNs sign) =
          (.received (.error message), (run (step lib) start calls).state)) := by
  have h : Kept lib start _ _ := kept_run hnew calls
  obtain ⟨hids, -, hstart⟩ := new_ok hnew
  generalize (run (step lib) start calls).events = events at h ⊢
  generalize (run (step lib) start calls).state = sealer at h ⊢
  have htickets : sealer.tickets = tickets := by rw [h.fixed, hstart]
  have hdeadline : start.deadlineNs = deadlineNs := by rw [hstart]
  have hauthority : start.authorityKey = authorityKey := by rw [hstart]
  refine ⟨?_, ?_, ?_, ?_⟩
  · rw [h.once]
    split <;> omega
  · intro _ _ hmem
    obtain ⟨_, hevent, hbatch⟩ := mem_filterMap.mp hmem
    unfold batchOf at hbatch
    split at hbatch
    · cases hbatch
      have hseals := h.batch _ _ _ _ _ hevent
      have hnodup := seals_nodup (htickets.symm ▸ hids) hseals
      have hpopulation := seals_population hseals
      rw [htickets] at hnodup hpopulation
      refine ⟨fun receipt hreceipt => ⟨h.includes hseals hreceipt, fun sealerKey => ?_⟩,
        hpopulation, hnodup, ?_, hseals.frameDigests⟩
      · simp [proveOmission, h.includes hseals hreceipt]
      · simpa only [h.frames] using hseals.admitted
    · cases hbatch
  · intro ticket frame nowNs sign receipt next hcall
    obtain ⟨_, hown, -⟩ := admit_ok (step_admit_ok hcall)
    have htime := hown.inTime
    rw [h.fixed] at htime
    exact ⟨hdeadline ▸ htime, h.unclosed_iff.mpr hown.unclosed⟩
  · intro ticket frame nowNs sign _ _ _ hdigest hfirst
    refine ⟨fun again next hcall => h.readmitted hdigest hfirst (step_admit_ok hcall), ?_, ?_⟩
    · rintro rfl hopen htime hvalid
      exact h.readmit hdigest hfirst (h.unclosed_iff.mp hopen) (hdeadline.symm ▸ htime)
        (hauthority.symm ▸ hvalid)
    · intro hother
      rcases hcall : admitFrame lib ticket frame nowNs sign sealer with
        ⟨result, next⟩
      cases result with
      | ok => exact absurd (h.readmitted hdigest hfirst hcall).1 hother
      | error message => exact ⟨message, step_admit_error (by rw [hcall])⟩

/-! ## Fairness of the order -/

def closingOf : Call × Answer → Option (RandomnessBeacon × BatchManifest)
  | (.close beacon _ _, .batched (.ok (_, manifest))) => some (beacon, manifest)
  | _ => none

theorem inOrder_eq_of_perm {round : UInt64} {value : Digest32} {tickets' : List AdmissionTicket}
    (hids : (tickets.map (·.ticketId)).Nodup) (hperm : tickets.Perm tickets')
    (hkeys : ∀ ticket ∈ tickets, ∀ ticket' ∈ tickets, orderKey lib slot round value ticket =
      orderKey lib slot round value ticket' → ticket.ticketId = ticket'.ticketId) :
    inOrder lib slot round value tickets = inOrder lib slot round value tickets' := by
  let le (left right : AdmissionTicket) : Prop :=
    orderKey lib slot round value left ≤ orderKey lib slot round value right
  have : Std.Total le := ⟨fun _ _ => le_total _ _⟩
  have : IsTrans AdmissionTicket le := ⟨fun _ _ _ => le_trans⟩
  have hsorted := inOrder_perm lib slot round value tickets
  have hsorted' := inOrder_perm lib slot round value tickets'
  refine List.Perm.eq_of_pairwise (fun ticket ticket' hticket hticket' hle hge => ?_)
    (pairwise_insertionSort le tickets) (pairwise_insertionSort le tickets')
    (hsorted.trans (hperm.trans hsorted'.symm))
  have hmem := hsorted.mem_iff.mp hticket
  have hmem' := hperm.mem_iff.mpr (hsorted'.mem_iff.mp hticket')
  exact inj_on_of_nodup_map hids hmem hmem'
    (hkeys ticket hmem ticket' hmem' (le_antisymm hle hge))

theorem run_closing
    (hnew : new slot node deadlineNs tickets authorityKey beaconKey previousDigest =
      .ok start)
    (hclosing : (beacon, manifest) ∈ (run (step lib) start calls).events.filterMap closingOf) :
    (inOrder lib slot beacon.round beacon.value tickets).map (AdmissionTicket.digest lib) =
      manifest.orderedTicketDigests.map .ok := by
  have h : Kept lib start _ _ := kept_run hnew calls
  obtain ⟨-, -, hstart⟩ := new_ok hnew
  obtain ⟨_, hevent, hclosed⟩ := mem_filterMap.mp hclosing
  unfold closingOf at hclosed
  split at hclosed
  · simp only [Option.some.injEq, Prod.mk.injEq] at hclosed
    obtain ⟨rfl, rfl⟩ := hclosed
    have hdigests := (h.batch _ _ _ _ _ hevent).ticketDigests
    rw [h.fixed, hstart] at hdigests
    exact hdigests
  · cases hclosed

/-- Two sealers of one slot with the same tickets, listed in any order, at any nodes, after any
runs, that close with beacons of equal round and value list the ticket digests in the same order,
if the ordering hash tells the tickets apart. So neither arrivals nor frames nor the order of the
list have any influence. -/
theorem order_fair (lib : OrderLibrary) {slot node node' deadlineNs deadlineNs' : UInt64}
    {tickets tickets' : List AdmissionTicket}
    {authorityKey authorityKey' beaconKey beaconKey' previousDigest previousDigest' : Digest32}
    {start start' : FixedSlotSealer}
    (hnew : new slot node deadlineNs tickets authorityKey beaconKey
      previousDigest = .ok start)
    (hnew' : new slot node' deadlineNs' tickets' authorityKey' beaconKey'
      previousDigest' = .ok start')
    (htickets : ∀ ticket, ticket ∈ tickets ↔ ticket ∈ tickets') (calls calls' : List Call)
    {beacon beacon' : RandomnessBeacon} {manifest manifest' : BatchManifest}
    (hclosing : (beacon, manifest) ∈ (run (step lib) start calls).events.filterMap closingOf)
    (hclosing' : (beacon', manifest') ∈
      (run (step lib) start' calls').events.filterMap closingOf)
    (hround : beacon.round = beacon'.round) (hvalue : beacon.value = beacon'.value)
    (hkeys : ∀ ticket ∈ tickets, ∀ ticket' ∈ tickets,
      orderKey lib slot beacon.round beacon.value ticket =
        orderKey lib slot beacon.round beacon.value ticket' →
      ticket.ticketId = ticket'.ticketId) :
    manifest.orderedTicketDigests = manifest'.orderedTicketDigests := by
  have hids := (new_ok hnew).1
  have hids' := (new_ok hnew').1
  have hperm : tickets.Perm tickets' :=
    (perm_ext_iff_of_nodup hids.of_map hids'.of_map).mpr htickets
  have hdigests := run_closing hnew hclosing
  have hdigests' := run_closing hnew' hclosing'
  rw [← hround, ← hvalue, ← inOrder_eq_of_perm hids hperm hkeys, hdigests] at hdigests'
  exact map_injective_iff.mpr (fun _ _ heq => Except.ok.inj heq) hdigests'

/-! ## A slot of two tickets -/

/-- The last bytes of a message stand for its hash, and every signature is accepted. -/
def sampleLibrary : OrderLibrary where
  sha256 := fun bytes => ⟨(replicate 32 0 ++ bytes).drop bytes.length, by
    rw [length_drop, length_append, length_replicate]
    omega⟩
  verifySignature := fun _ _ _ => true

def sampleTicket (identity : UInt8) : AdmissionTicket :=
  ⟨7, repeated identity, 0, 100, (repeated identity).toList⟩

def sampleFrame (mac : UInt8) : Frame := ⟨7, 1, List.Vector.replicate 448 0, repeated mac⟩

def sampleSign : Signer := fun _ => .ok []

/-- Both tickets are used, the second at an earlier time, one frame comes twice and another too
late to replace it, and the slot is closed. -/
def sampleCalls : List Call :=
  [.admitFrame (sampleTicket 2) (sampleFrame 5) 9 sampleSign,
    .admitFrame (sampleTicket 1) (sampleFrame 6) 3 sampleSign,
    .admitFrame (sampleTicket 2) (sampleFrame 5) 4 sampleSign,
    .admitFrame (sampleTicket 2) (sampleFrame 8) 4 sampleSign,
    .close ⟨8, zeroDigest, []⟩ 11 sampleSign]

def sampleStart (tickets : List AdmissionTicket) : FixedSlotSealer :=
  ⟨7, 1, 10, tickets, zeroDigest, zeroDigest, zeroDigest, ∅, ∅, false⟩

theorem sampleStart_new {tickets : List AdmissionTicket}
    (hids : (tickets.map (·.ticketId)).dedup.length = tickets.length)
    (hslot : ¬ ∃ ticket ∈ tickets, ticket.slot ≠ 7) :
    new 7 1 10 tickets zeroDigest zeroDigest zeroDigest =
      .ok (sampleStart tickets) := by
  simp only [new, refuseIf_bind_ok]
  exact ⟨not_not.mpr hids, hslot, rfl⟩

/-- The sample run closes one batch of the two first frames. -/
theorem sealer_accountable_sample :
    ((run (step sampleLibrary) (sampleStart [sampleTicket 2, sampleTicket 1])
        sampleCalls).events.filterMap batchOf).map (·.1) = [[sampleFrame 6, sampleFrame 5]] ∧
      ((run (step sampleLibrary) (sampleStart [sampleTicket 2, sampleTicket 1])
        sampleCalls).events.filterMap batchOf).length ≤ 1 :=
  ⟨by decide +kernel, (sealer_accountable sampleLibrary
    (sampleStart_new (by decide +kernel) (by decide +kernel)) sampleCalls).1⟩

def sampleManifest (first second : UInt8) : BatchManifest :=
  ⟨7, 1, 8, zeroDigest, [repeated 1, repeated 2], [repeated first, repeated second], zeroDigest, []⟩

def otherCalls : List Call :=
  [.admitFrame (sampleTicket 1) (sampleFrame 9) 1 sampleSign,
    .admitFrame (sampleTicket 2) (sampleFrame 8) 2 sampleSign,
    .close ⟨8, zeroDigest, []⟩ 12 sampleSign]

/-- Neither the listing of the tickets nor the frames change the order of the sample slot. -/
theorem order_fair_sample :
    (⟨8, zeroDigest, []⟩, sampleManifest 6 5) ∈ (run (step sampleLibrary)
        (sampleStart [sampleTicket 2, sampleTicket 1]) sampleCalls).events.filterMap closingOf ∧
      (sampleManifest 6 5).orderedTicketDigests = (sampleManifest 9 8).orderedTicketDigests := by
  have hfirst : (⟨8, zeroDigest, []⟩, sampleManifest 6 5) ∈ (run (step sampleLibrary)
      (sampleStart [sampleTicket 2, sampleTicket 1]) sampleCalls).events.filterMap closingOf := by
    decide +kernel
  have hsecond : (⟨8, zeroDigest, []⟩, sampleManifest 9 8) ∈ (run (step sampleLibrary)
      (sampleStart [sampleTicket 1, sampleTicket 2]) otherCalls).events.filterMap closingOf := by
    decide +kernel
  exact ⟨hfirst, order_fair sampleLibrary
    (sampleStart_new (by decide +kernel) (by decide +kernel))
    (sampleStart_new (by decide +kernel) (by decide +kernel))
    (fun ticket => (List.Perm.swap _ _ []).mem_iff)
    sampleCalls otherCalls hfirst hsecond rfl rfl (by decide +kernel)⟩

end Zkpi.SealerAccountability
