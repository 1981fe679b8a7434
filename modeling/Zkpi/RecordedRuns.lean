import Mathlib.Data.List.Induction

/-!
# Recorded runs of a state machine

A run takes operations one after another and records every operation with its
outcome, oldest first. What a single step preserves holds along every run, and
a run over a concatenation is a run continued from where the first part ended.
-/

namespace Zkpi.RecordedRuns

open List

variable {State Op Out : Type}

structure Trace (State Op Out : Type) where
  /-- Every operation with its outcome, oldest first. -/
  events : List (Op × Out)
  state : State

variable (step : State → Op → Out × State)

/-- Take one more operation and record its outcome. -/
def Trace.extend (trace : Trace State Op Out) (op : Op) : Trace State Op Out where
  events := trace.events ++ [(op, (step trace.state op).1)]
  state := (step trace.state op).2

variable (start : State)

def run (ops : List Op) : Trace State Op Out :=
  ops.foldl (Trace.extend step) ⟨[], start⟩

@[simp] theorem run_nil : run step start [] = ⟨[], start⟩ := rfl

theorem run_concat :
    run step start (ops ++ [op]) = (run step start ops).extend step op := by
  simp [run]

/-- A property of the recorded events and the state that holds initially and
is kept by every step holds after every run. -/
theorem run_induction {P : List (Op × Out) → State → Prop} {start : State} (hstart : P [] start)
    (hstep : ∀ events s op, P events s →
      P (events ++ [(op, (step s op).1)]) (step s op).2) (ops : List Op) :
    P (run step start ops).events (run step start ops).state := by
  induction ops using reverseRecOn with
  | nil => exact hstart
  | append_singleton ops op ih =>
    rw [run_concat]
    exact hstep _ _ op ih

theorem run_operations (ops : List Op) : (run step start ops).events.map Prod.fst = ops := by
  induction ops using reverseRecOn with
  | nil => rfl
  | append_singleton ops op ih =>
    rw [run_concat, Trace.extend, map_append, ih, map_cons, map_nil]

variable (first second : List Op)

theorem run_append_events : (run step start (first ++ second)).events =
      (run step start first).events ++
        (run step (run step start first).state second).events := by
  have hstate : ∀ (events : List (Op × Out)) (state : State) (ops : List Op),
      ops.foldl (Trace.extend step) ⟨events, state⟩ =
        ⟨events ++ (run step state ops).events, (run step state ops).state⟩ := by
    intro events state ops
    induction ops using reverseRecOn with
    | nil => simp only [foldl_nil, run_nil, append_nil]
    | append_singleton ops op ih =>
      rw [foldl_append, ih, run_concat]
      simp [Trace.extend]
  rw [run, foldl_append]
  exact congrArg Trace.events (hstate _ _ second)

theorem run_append_state : (run step start (first ++ second)).state =
      (run step (run step start first).state second).state := by
  induction second using reverseRecOn with
  | nil => simp only [append_nil, run_nil]
  | append_singleton second op ih =>
    rw [← append_assoc, run_concat, run_concat]
    simp only [Trace.extend, ih]

theorem run_append_cons_state (op : Op) : (run step start (first ++ op :: second)).state =
      (run step (step (run step start first).state op).2 second).state := by
  have hsplit : first ++ op :: second = (first ++ [op]) ++ second := by
    rw [append_assoc, singleton_append]
  rw [hsplit, run_append_state, run_concat]
  rfl

theorem run_preserves {P : State → Prop} (hstep : ∀ s op, P s → P (step s op).2)
    {start : State} (hstart : P start) (ops : List Op) : P (run step start ops).state :=
  run_induction step (P := fun _ s => P s) hstart (fun _ s op h => hstep s op h) ops

end Zkpi.RecordedRuns
