import Zkpi.OptimisticTransitions

/-!
# Conservation of escrow over whole runs

Along every run from the empty state, whatever the calls, clocks,
authenticators and verifiers, the funds of an asset summed over all owners are
what successful credits brought in less what successful withdrawals took out.
Bonds that are locked, awarded or forfeited stay inside that sum.
-/

namespace Zkpi.OptimisticConservation

open ByteText OptimisticMachine OptimisticCollateral OptimisticTransitions RecordedRuns List
open StatefulMethods.Method OptimisticMachine.OptimisticState

def creditedBy (asset : Digest32) : Event → ℕ
  | (.creditEscrow credited _ amount, .ok _) => if credited = asset then amount.toNat else 0
  | _ => 0

def withdrawnBy (asset : Digest32) : Event → ℕ
  | (.withdrawEscrow withdrawn _ amount, .ok _) => if withdrawn = asset then amount.toNat else 0
  | _ => 0

def credited (events : List Event) (asset : Digest32) : ℕ := (events.map (creditedBy asset)).sum

def withdrawn (events : List Event) (asset : Digest32) : ℕ := (events.map (withdrawnBy asset)).sum

theorem setBond_total_of_held {s : OptimisticState} (gained lost : ℕ)
    (h : held account + lost = held (s.bond asset owner) + gained) (asset' : Digest32) :
    escrowTotal (s.setBond asset owner account) asset' + (if asset = asset' then lost else 0) =
      escrowTotal s asset' + (if asset = asset' then gained else 0) := by
  by_cases ha : asset = asset'
  · subst ha
    have ht := setBond_total s asset owner account
    simp only [if_true]
    omega
  · rw [setBond_total_ne s owner account (Ne.symm ha), if_neg ha, if_neg ha]

theorem move_total {op : Operation} {id : Digest32} {s s' : OptimisticState}
    (h : Moved s s' id op) (asset : Digest32) : escrowTotal s' asset = escrowTotal s asset := by
  obtain ⟨_, _, mid, _, _, hpaid, rfl⟩ := h
  exact (escrowTotal_congr (s := mid) rfl asset).trans (hpaid.reallots.total asset)

theorem step_ok_total {sha256 : Bytes → Digest32}
    (h : step sha256 s op = (.ok reply, s')) (asset : Digest32) :
    escrowTotal s' asset + withdrawnBy asset (op, .ok reply) =
      escrowTotal s asset + creditedBy asset (op, .ok reply) := by
  cases op with
  | enrollPolicy =>
    obtain ⟨id, hid, _⟩ := map_ok.mp h
    simp only [creditedBy, withdrawnBy, Nat.add_zero, enrollPolicy_ok hid]
    exact escrowTotal_congr rfl asset
  | registerExecution =>
    obtain ⟨_, hdone, _⟩ := map_ok.mp h
    simp only [creditedBy, withdrawnBy, Nat.add_zero, (registerExecution_ok hdone).2]
    exact escrowTotal_congr rfl asset
  | creditEscrow credited owner amount =>
    obtain ⟨_, hdone, _⟩ := map_ok.mp h
    obtain ⟨account, haccount, rfl⟩ := creditEscrow_ok hdone
    have ht := setBond_total_of_held amount.toNat 0 haccount asset
    simpa only [ite_self, creditedBy, withdrawnBy] using ht
  | withdrawEscrow withdrawn owner amount =>
    obtain ⟨_, hdone, _⟩ := map_ok.mp h
    obtain ⟨_, haccount, rfl⟩ := withdrawEscrow_ok hdone
    have ht := setBond_total_of_held 0 amount.toNat haccount asset
    simpa only [ite_self, creditedBy, withdrawnBy] using ht
  | propose =>
    obtain ⟨_, hid, _⟩ := map_ok.mp h
    obtain ⟨_, _, _, _, _, _, _, _, _, _, hlock, rfl⟩ := propose_ok hid
    simp only [creditedBy, withdrawnBy, Nat.add_zero]
    rw [← (lock_ok hlock).total asset]
    exact escrowTotal_congr rfl asset
  | challenge =>
    obtain ⟨_, hdone, _⟩ := map_ok.mp h
    simpa only [creditedBy, withdrawnBy, Nat.add_zero] using move_total (challenge_ok hdone) asset
  | answer =>
    obtain ⟨_, hdone, _⟩ := map_ok.mp h
    simpa only [creditedBy, withdrawnBy, Nat.add_zero] using move_total (answer_ok hdone) asset
  | advance =>
    obtain ⟨_, hdone, _⟩ := map_ok.mp h
    simpa only [creditedBy, withdrawnBy, Nat.add_zero] using move_total (advance_ok hdone) asset

theorem step_total (sha256 : Bytes → Digest32) (s : OptimisticState) (op : Operation)
    (asset : Digest32) :
    escrowTotal (step sha256 s op).2 asset + withdrawnBy asset (op, (step sha256 s op).1) =
      escrowTotal s asset + creditedBy asset (op, (step sha256 s op).1) := by
  cases hstep : step sha256 s op with
  | mk result =>
    cases result with
    | ok => exact step_ok_total hstep asset
    | error =>
      rw [step_error hstep]
      cases op <;> simp [creditedBy, withdrawnBy]

theorem run_total (sha256 : Bytes → Digest32) (ops : List Operation) (asset : Digest32) :
    escrowTotal (runOf sha256 ops).state asset + withdrawn (runOf sha256 ops).events asset =
      credited (runOf sha256 ops).events asset := by
  apply run_induction (step sha256) (P := fun events s =>
    escrowTotal s asset + withdrawn events asset = credited events asset)
  · have hempty : ∀ owner, held (OptimisticState.default.bond asset owner) = 0 := fun _ => rfl
    simp only [escrowTotal, hempty, Finset.sum_const_zero]
    rfl
  · intro events s op ih
    have hstep := step_total sha256 s op asset
    simp only [withdrawn, credited, map_append, map_cons, map_nil,
      sum_append, sum_cons, sum_nil] at ih ⊢
    omega

/-- In every run from the empty state, and for every asset, the exact sum of
available and locked funds over all owners is the sum of successful credits
less the sum of successful withdrawals; and a call that returns an error leaves
the complete state as it was. -/
theorem escrow_conserved (sha256 : Bytes → Digest32) (ops : List Operation) :
    (∀ asset, (escrowTotal (runOf sha256 ops).state asset : ℤ) =
      credited (runOf sha256 ops).events asset - withdrawn (runOf sha256 ops).events asset) ∧
    ∀ (op : Operation) (message : String),
      (step sha256 (runOf sha256 ops).state op).1 = .error message →
        (step sha256 (runOf sha256 ops).state op).2 = (runOf sha256 ops).state := by
  constructor
  · intro asset
    have ht := run_total sha256 ops asset
    omega
  · intro op message h
    exact step_error (Prod.ext h rfl)

/-- Ten units in and three out of one account. -/
def sampleDeposit : List Operation :=
  [.creditEscrow (repeated 1) (repeated 2) 10, .withdrawEscrow (repeated 1) (repeated 2) 3]

/-- After the sample deposit seven units are escrowed, and an overdraft of
eight fails without changing anything. -/
theorem escrow_conserved_seven :
    escrowTotal (runOf (fun _ => repeated 9) sampleDeposit).state (repeated 1) = 7 ∧
    (step (fun _ => repeated 9) (runOf (fun _ => repeated 9) sampleDeposit).state
      (.withdrawEscrow (repeated 1) (repeated 2) 8)).1 =
        .error "insufficient unlocked escrow" ∧
    (step (fun _ => repeated 9) (runOf (fun _ => repeated 9) sampleDeposit).state
      (.withdrawEscrow (repeated 1) (repeated 2) 8)).2 =
        (runOf (fun _ => repeated 9) sampleDeposit).state := by
  obtain ⟨htotal, herror⟩ := escrow_conserved (fun _ => repeated 9) sampleDeposit
  have hcredited : credited (runOf (fun _ => repeated 9) sampleDeposit).events (repeated 1) =
      10 := by decide +kernel
  have hwithdrawn : withdrawn (runOf (fun _ => repeated 9) sampleDeposit).events (repeated 1) =
      3 := by decide +kernel
  have hfails : (step (fun _ => repeated 9) (runOf (fun _ => repeated 9) sampleDeposit).state
      (.withdrawEscrow (repeated 1) (repeated 2) 8)).1 =
      .error "insufficient unlocked escrow" := by decide +kernel
  have hseven := htotal (repeated 1)
  exact ⟨by omega, hfails, herror _ _ hfails⟩

end Zkpi.OptimisticConservation
