import Mathlib.Tactic.Common

/-!
# Sequences of checks that may refuse

A verifier is a sequence of checks, each with the error it reports. Acceptance
means that every check passed, and the rules below read that off one check at a
time.
-/

namespace Zkpi.FallibleChecks

open List

variable {E A B : Type}

instance decideResult [DecidableEq E] [DecidableEq A] : DecidableEq (Except E A)
  | .ok value, .ok other => decidable_of_iff (value = other) (by rw [Except.ok.injEq])
  | .error error, .error other => decidable_of_iff (error = other) (by rw [Except.error.injEq])
  | .ok _, .error _ => isFalse nofun
  | .error _, .ok _ => isFalse nofun

def refuseIf (condition : Prop) [Decidable condition] (error : E) : Except E Unit :=
  if condition then .error error else .ok ()

variable {error : E}

@[simp] theorem refuseIf_ok [Decidable condition] :
    refuseIf condition error = .ok result ↔ ¬ condition := by
  unfold refuseIf
  split_ifs with h
  · simp [h]
  · simp [h]

def orRefuse (value : Option A) (error : E) : Except E A :=
  match value with
  | some value => .ok value
  | none => .error error

@[simp] theorem orRefuse_ok : orRefuse value error = .ok result ↔ value = some result := by
  cases value <;> simp [orRefuse]

def failure (computation : Except E A) : Option E :=
  match computation with
  | .ok _ => none
  | .error error => some error

theorem failure_eq_some : failure computation = some error ↔ computation = .error error := by
  cases computation <;> simp [failure]

/-- Whether a computation gives a value that passes a test. -/
def passes (computation : Except E A) (test : A → Bool) : Bool :=
  match computation with
  | .ok value => test value
  | .error _ => false

theorem passes_iff {test : A → Bool} :
    passes computation test = true ↔ ∃ value, computation = .ok value ∧ test value = true := by
  cases computation <;> simp [passes]

theorem isOk_iff {computation : Except E A} :
    computation.isOk = true ↔ ∃ value, computation = .ok value := by
  cases computation <;> simp [Except.isOk, Except.toBool]

def onSome (value : Option A) (compute : A → Except E B) : Except E (Option B) :=
  match value with
  | none => .ok none
  | some value => do
    let result ← compute value
    .ok (some result)

variable {rest : A → Except E B}

theorem bind_ok :
    (first >>= rest) = .ok result ↔ ∃ value, first = .ok value ∧ rest value = .ok result := by
  cases first with
  | error => simp only [bind, Except.bind, reduceCtorEq, false_and, exists_false]
  | ok value =>
    simp only [bind, Except.bind, Except.ok.injEq]
    constructor
    · intro h
      exact ⟨value, rfl, h⟩
    · rintro ⟨_, rfl, h⟩
      exact h

theorem bind_error :
    (first >>= rest) = .error error ↔
      first = .error error ∨ ∃ value, first = .ok value ∧ rest value = .error error := by
  cases first with
  | error =>
    simp only [bind, Except.bind, Except.error.injEq, reduceCtorEq, false_and, exists_false,
      or_false]
  | ok => simp only [bind, Except.bind, reduceCtorEq, false_or, Except.ok.injEq, exists_eq_left']

@[simp] theorem refuseIf_error [Decidable condition] :
    refuseIf condition error = .error reported ↔ condition ∧ error = reported := by
  unfold refuseIf
  split_ifs with h
  · simp [h]
  · simp [h]

@[simp] theorem refuseIf_bind_ok [Decidable condition] {rest : Unit → Except E B} :
    (refuseIf condition error >>= rest) = .ok result ↔ ¬ condition ∧ rest () = .ok result := by
  by_cases h : condition
  · simp only [refuseIf, h, if_true, bind, Except.bind, reduceCtorEq, not_true_eq_false, false_and]
  · simp only [refuseIf, h, if_false, bind, Except.bind, not_false_eq_true, true_and]

variable {items : List A} {check : A → Except E Unit}

theorem forM_ok : items.forM check = .ok () ↔ ∀ item ∈ items, check item = .ok () := by
  induction items with
  | nil =>
    simp only [not_mem_nil, false_imp_iff, implies_true, iff_true]
    rfl
  | cons item rest ih =>
    change (check item >>= fun _ => rest.forM check) = .ok () ↔ _
    rw [bind_ok, forall_mem_cons, ih]
    constructor
    · rintro ⟨_, hitem, hrest⟩
      exact ⟨hitem, hrest⟩
    · rintro ⟨hitem, hrest⟩
      exact ⟨(), hitem, hrest⟩

theorem forM_error (h : items.forM check = .error error) :
    ∃ item ∈ items, check item = .error error := by
  induction items with
  | nil => cases h
  | cons item rest ih =>
    rcases bind_error.mp (show (check item >>= fun _ => rest.forM check) = _ from h) with
      hitem | ⟨_, _, hrest⟩
    · exact ⟨item, mem_cons_self, hitem⟩
    · obtain ⟨found, hmem, hfound⟩ := ih hrest
      exact ⟨found, mem_cons_of_mem item hmem, hfound⟩

variable {compute : A → Except E B}

theorem mapM_ok : items.mapM compute = .ok results ↔ items.map compute = results.map .ok := by
  induction items generalizing results with
  | nil =>
    rw [mapM_nil, map_nil, eq_comm (a := []), map_eq_nil_iff]
    exact ⟨fun h => (Except.ok.inj h).symm, fun h => h ▸ rfl⟩
  | cons item rest ih =>
    rw [mapM_cons, bind_ok, map_cons]
    constructor
    · rintro ⟨first, hfirst, hrest⟩
      obtain ⟨others, hothers, hresults⟩ := bind_ok.mp hrest
      obtain rfl : first :: others = results := Except.ok.inj hresults
      rw [map_cons, hfirst, ih.mp hothers]
    · intro h
      cases results with
      | nil => cases h
      | cons first others =>
        rw [map_cons, List.cons.injEq] at h
        exact ⟨first, h.1, bind_ok.mpr ⟨others, ih.mpr h.2, rfl⟩⟩

theorem mapM_getElem (h : items.mapM compute = .ok results) {index : ℕ} {item : A}
    (hitem : items[index]? = some item) (hresult : results[index]? = some result) :
    compute item = .ok result := by
  have hmaps := congrArg (·[index]?) (mapM_ok.mp h)
  simpa only [getElem?_map, hitem, hresult, Option.map_some, Option.some.injEq] using hmaps

theorem mapM_length (h : items.mapM compute = .ok results) : results.length = items.length := by
  have hmaps := congrArg length (mapM_ok.mp h)
  rw [length_map, length_map] at hmaps
  exact hmaps.symm

theorem mapM_perm (hperm : items.Perm items') (h : items.mapM compute = .ok results) :
    ∃ results', items'.mapM compute = .ok results' ∧ results.Perm results' := by
  simp only [mapM_ok] at h ⊢
  induction hperm generalizing results with
  | nil => exact ⟨results, h, .refl _⟩
  | cons item _ ih =>
    cases results with
    | nil => cases h
    | cons first =>
      rw [map_cons, map_cons, List.cons.injEq] at h
      obtain ⟨others', hothers, hperm⟩ := ih h.2
      exact ⟨first :: others', by rw [map_cons, map_cons, h.1, hothers],
        hperm.cons first⟩
  | swap =>
    match results, h with
    | [_], h => simp at h
    | first :: second :: others, h =>
      simp only [map_cons, List.cons.injEq] at h
      exact ⟨second :: first :: others, by simp [h], .swap second first others⟩
  | trans _ _ ih ih' =>
    obtain ⟨_, hmiddle, hfirst⟩ := ih h
    obtain ⟨last, hlast, hsecond⟩ := ih' hmiddle
    exact ⟨last, hlast, hfirst.trans hsecond⟩

theorem mapM_orRefuse_ok {lookup : A → Option B} :
    items.mapM (fun item => orRefuse (lookup item) error) = .ok results ↔
      items.map lookup = results.map some := by
  rw [mapM_ok]
  induction items generalizing results with
  | nil => cases results <;> simp
  | cons item rest ih => cases results <;> simp [ih]

end Zkpi.FallibleChecks
