import Zkpi.OptimisticMachine

/-!
# Escrowed collateral

The funds of an asset are summed exactly over every owner, not in a machine
integer. Crediting and withdrawing change that sum by their amount; locking,
awarding and paying out a dispute only reallot it, although an award stores
its debit before it tries the matching credit.
-/

namespace Zkpi.OptimisticCollateral

open ByteText CheckedIntegers KeyedTables OptimisticMachine
open StatefulMethods.Method
open OptimisticMachine.OptimisticState

def held (account : BondAccount) : ℕ := account.available.toNat + account.locked.toNat

variable (s : OptimisticState)

noncomputable def escrowTotal (asset : Digest32) : ℕ :=
  ∑ owner : Digest32, held (s.bond asset owner)

theorem setBond_bond :
    (s.setBond asset owner account).bond asset' owner' =
      if asset' = asset ∧ owner' = owner then account else s.bond asset' owner' := by
  simp only [bond, setBond, lookup_insert_ite, bondKey, joinedKey_inj]
  split <;> rfl

theorem setBond_total (asset owner : Digest32) (account : BondAccount) :
    escrowTotal (s.setBond asset owner account) asset + held (s.bond asset owner) =
      escrowTotal s asset + held account := by
  have hsum := sum_change_one (f := fun o => held (s.bond asset o))
    (g := fun o => held ((s.setBond asset owner account).bond asset o)) owner (by
      intro o ho
      rw [setBond_bond, if_neg (fun h => ho h.2)])
  rw [setBond_bond, if_pos ⟨rfl, rfl⟩] at hsum
  exact hsum

variable {asset : Digest32}

theorem setBond_total_ne (owner : Digest32) (account : BondAccount) (h : asset' ≠ asset) :
    escrowTotal (s.setBond asset owner account) asset' = escrowTotal s asset' := by
  apply Finset.sum_congr rfl
  intro o _
  rw [setBond_bond, if_neg (fun hk => h hk.1)]

structure Reallots (s s' : OptimisticState) : Prop where
  /-- Nothing but the accounts changed. -/
  rest : s' = { s with bonds := s'.bonds }
  total : ∀ asset, escrowTotal s' asset = escrowTotal s asset

variable {s : OptimisticState}

theorem Reallots.trans (hst : Reallots s t) (htu : Reallots t u) : Reallots s u where
  rest := by
    rw [htu.rest, hst.rest]
  total := fun asset => (htu.total asset).trans (hst.total asset)

variable {s' : OptimisticState}

theorem Reallots.claims (h : Reallots s s') : s'.claims = s.claims := by
  rw [h.rest]

theorem Reallots.jobs (h : Reallots s s') : s'.jobs = s.jobs := by
  rw [h.rest]

theorem escrowTotal_congr (h : s'.bonds = s.bonds) (asset : Digest32) :
    escrowTotal s' asset = escrowTotal s asset := by
  simp only [escrowTotal, bond, h]

theorem reallots_setBond (h : held account = held (s.bond asset owner)) :
    Reallots s (s.setBond asset owner account) where
  rest := rfl
  total := by
    intro asset'
    by_cases ha : asset' = asset
    · subst ha
      have ht := setBond_total s asset' owner account
      omega
    · exact setBond_total_ne s owner account ha

theorem creditEscrow_ok (h : creditEscrow asset owner amount s = (.ok (), s')) :
    ∃ account, held account = held (s.bond asset owner) + amount.toNat ∧
      s' = s.setBond asset owner account := by
  simp only [creditEscrow, bind_ok, failIf_ok, read_ok, need_ok, write_ok, checkedAdd_eq_some] at h
  obtain ⟨_, _, ⟨_, rfl⟩, _, _, ⟨rfl, rfl⟩, available, _, ⟨ha, rfl⟩, rfl⟩ := h
  exact ⟨_, by simp only [held]; omega, rfl⟩

theorem withdrawEscrow_ok (h : withdrawEscrow asset owner amount s = (.ok (), s')) :
    ∃ account, held account + amount.toNat = held (s.bond asset owner) ∧
      s' = s.setBond asset owner account := by
  simp only [withdrawEscrow, bind_ok, failIf_ok, read_ok, need_ok, write_ok,
    checkedSub_eq_some] at h
  obtain ⟨_, _, ⟨_, rfl⟩, _, _, ⟨rfl, rfl⟩, available, _, ⟨ha, rfl⟩, rfl⟩ := h
  exact ⟨_, by simp only [held]; omega, rfl⟩

theorem lock_ok (h : lock asset owner amount s = (.ok (), s')) : Reallots s s' := by
  simp only [lock, bind_ok, read_ok, need_ok, write_ok, checkedSub_eq_some, checkedAdd_eq_some] at h
  obtain ⟨_, _, ⟨rfl, rfl⟩, available, _, ⟨ha, rfl⟩, locked, _, ⟨hl, rfl⟩, rfl⟩ := h
  apply reallots_setBond
  simp only [held]
  omega

theorem award_ok (h : award asset source target amount s = (.ok (), s')) : Reallots s s' := by
  simp only [award, bind_ok, read_ok, need_ok, write_ok, checkedSub_eq_some] at h
  obtain ⟨_, _, ⟨rfl, rfl⟩, locked, _, ⟨hl, rfl⟩, _, mid, rfl, hcredit⟩ := h
  obtain ⟨account, haccount, rfl⟩ := creditEscrow_ok hcredit
  refine ⟨rfl, ?_⟩
  intro asset'
  by_cases ha : asset' = asset
  · subst ha
    have hdebit := setBond_total s asset' source
      { s.bond asset' source with locked := locked }
    have hpaid := setBond_total
      (s.setBond asset' source { s.bond asset' source with locked := locked })
      asset' target account
    simp only [held] at hdebit hpaid haccount
    omega
  · rw [setBond_total_ne _ _ _ ha, setBond_total_ne _ _ _ ha]

theorem resolveBonds_ok {policy : OptimisticPolicy} {challenger : Digest32} {valid : Bool}
    (h : resolveBonds policy challenger valid s = (.ok (), s')) :
    Reallots s s' := by
  simp only [resolveBonds, bind_ok] at h
  obtain ⟨_, _, hfirst, hsecond⟩ := h
  exact (award_ok hfirst).trans (award_ok hsecond)

end Zkpi.OptimisticCollateral
