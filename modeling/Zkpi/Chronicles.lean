import Mathlib.Data.List.Induction

/-!
# Chronicles

A chronicle is a list of events, oldest first, in which every event was allowed by the
events before it. What an event allows or forbids later on is read off the list: an event
after another one was allowed in a past that holds the other, and a kind of event that
forbids itself occurs at most once.
-/

namespace Zkpi.Chronicles

open List

variable {E : Type} {Allowed : List E → E → Prop}

inductive Chronicle (Allowed : List E → E → Prop) : List E → Prop
  | nil : Chronicle Allowed []
  | snoc {past : List E} {event : E} (hpast : Chronicle Allowed past)
      (hevent : Allowed past event) : Chronicle Allowed (past ++ [event])

namespace Chronicle

theorem allowed (h : Chronicle Allowed (past ++ event :: future)) : Allowed past event := by
  generalize hall : past ++ event :: future = all at h
  induction h generalizing future with
  | nil => cases past <;> cases hall
  | snoc hpast hevent ih =>
    obtain rfl | ⟨_, _, rfl⟩ := eq_nil_or_concat future
    · obtain ⟨rfl, rfl⟩ := append_inj' hall rfl |>.imp id singleton_inj.mp
      exact hevent
    · rw [concat_eq_append, ← cons_append, ← append_assoc] at hall
      exact ih (append_inj' hall rfl).1

theorem of_append (h : Chronicle Allowed (past ++ future)) : Chronicle Allowed past := by
  induction future using reverseRecOn with
  | nil => rwa [append_nil] at h
  | append_singleton future event ih =>
    rw [← append_assoc] at h
    generalize hall : past ++ future ++ [event] = all at h
    cases h with
    | nil => simp at hall
    | snoc hpast => exact ih ((append_inj' hall rfl).1 ▸ hpast)

theorem of_mem (h : Chronicle Allowed events) (hmem : event ∈ events) :
    ∃ past, Allowed past event ∧ past ⊆ events := by
  obtain ⟨past, _, rfl⟩ := append_of_mem hmem
  exact ⟨past, h.allowed, subset_append_left past _⟩

theorem of_mem_later {later : E} (h : Chronicle Allowed (past ++ event :: future))
    (hmem : later ∈ future) :
    ∃ before, Allowed before later ∧ event ∈ before ∧ past ⊆ before := by
  obtain ⟨between, _, rfl⟩ := append_of_mem hmem
  rw [← cons_append, ← append_assoc] at h
  refine ⟨past ++ event :: between, h.allowed, ?_, subset_append_left past _⟩
  exact mem_append_right past mem_cons_self

theorem countP_le_one (kind : E → Bool) (h : Chronicle Allowed events)
    (hkind : ∀ past event, Allowed past event → kind event = true → ∀ earlier ∈ past, kind earlier =
      false) : events.countP kind ≤ 1 := by
  induction h with
  | nil => exact Nat.zero_le 1
  | @snoc past event hpast hevent ih =>
    rw [countP_append, countP_singleton]
    split_ifs with hk
    · have hnone : past.countP kind = 0 := by
        rw [countP_eq_zero]
        intro earlier hmem
        rw [hkind past event hevent hk earlier hmem]
        exact Bool.false_ne_true
      omega
    · exact ih

end Chronicle

end Zkpi.Chronicles
