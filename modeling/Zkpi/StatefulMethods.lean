import Mathlib.Logic.Relation
import Mathlib.Tactic.Common

/-!
# Methods that read, change and fail

A method with mutable access to a state returns a value or an error text, and
in both cases it leaves some state behind. A failing method therefore keeps
whatever it changed before failing: that it changed nothing is a theorem about
the method, not a property of the representation. The rules below peel a
successful call apart step by step, prove a whole call free of partial
effects from the shape of its body, and confine what a call can do, successful or
not, to the steps of a relation.
-/

namespace Zkpi.StatefulMethods

/-- A call on a mutable state: the result and the state left behind. -/
def Method (S A : Type) : Type := S → Except String A × S

namespace Method

variable {S T A B : Type}

instance : Monad (Method S) where
  pure value := fun s => (.ok value, s)
  bind first rest := fun s =>
    match first s with
    | (.ok value, next) => rest value next
    | (.error message, next) => (.error message, next)

/-- The current state. -/
def read : Method S S := fun s => (.ok s, s)

/-- Replace the state. -/
def write (next : S) : Method S Unit := fun _ => (.ok (), next)

def fail (message : String) : Method S A := fun s => (.error message, s)

def failIf (condition : Prop) [Decidable condition] (message : String) : Method S Unit :=
  fun s => if condition then (.error message, s) else (.ok (), s)

def lift (result : Except String A) : Method S A := fun s => (result, s)

def need (value : Option A) (message : String) : Method S A :=
  fun s => match value with
    | some value => (.ok value, s)
    | none => (.error message, s)

/-- Run a method on a copy of some state and return the changed copy. An
error drops the copy. -/
def onCopy (copy : T) (method : Method T Unit) : Method S T :=
  fun s => match method copy with
    | (.ok _, next) => (.ok next, s)
    | (.error message, _) => (.error message, s)

def modify (change : S → S) : Method S Unit := fun s => (.ok (), change s)

def zoom (get : S → T) (set : T → S → S) (method : Method T A) : Method S A :=
  fun s => ((method (get s)).1, set (method (get s)).2 s)

/-! ## What a successful call did -/

variable {value : A} {s s' : S}

theorem pure_ok : (pure value : Method S A) s = (.ok result, s') ↔ value = result ∧ s = s' := by
  simp [Pure.pure]

variable {result : B} {rest : A → Method S B}

theorem bind_ok :
    (first >>= rest) s = (.ok result, s') ↔
      ∃ value mid, first s = (.ok value, mid) ∧ rest value mid = (.ok result, s') := by
  simp only [Bind.bind]
  constructor
  · intro h
    split at h
    · rename_i value mid hfirst
      exact ⟨value, mid, hfirst, h⟩
    · cases h
  · rintro ⟨_, _, hfirst, hrest⟩
    rw [hfirst]
    exact hrest

theorem read_ok {value : S} : (read : Method S S) s = (.ok value, s') ↔ s = value ∧ s = s' := by
  simp [read]

theorem write_ok {next : S} {result : Unit} : write next s = (.ok result, s') ↔ next = s' := by
  simp [write]

theorem fail_ok {result : A} : ¬ (fail message : Method S A) s = (.ok result, s') := by
  simp [fail]

theorem failIf_ok [Decidable condition] {result : Unit} :
    failIf condition message s = (.ok result, s') ↔ ¬ condition ∧ s = s' := by
  unfold failIf
  split_ifs with h
  · simp [h]
  · simp [h]

theorem lift_ok {result : A} :
    lift outcome s = (.ok result, s') ↔ outcome = .ok result ∧ s = s' := by
  simp [lift]

theorem need_ok {value : Option A} {result : A} :
    need value message s = (.ok result, s') ↔ value = some result ∧ s = s' := by
  cases value with
  | none => simp only [need, Prod.mk.injEq, reduceCtorEq, false_and]
  | some => simp only [need, Prod.mk.injEq, Except.ok.injEq, Option.some.injEq]

theorem onCopy_ok :
    onCopy copy method s = (.ok next, s') ↔ method copy = (.ok (), next) ∧ s = s' := by
  unfold onCopy
  split
  · rename_i changed h
    rw [h]
    simp
  · rename_i message changed h
    rw [h]
    simp

variable {method : Method S A}

theorem map_ok {f : A → B} :
    (f <$> method) s = (.ok result, s') ↔
      ∃ value, method s = (.ok value, s') ∧ f value = result := by
  constructor
  · intro h
    obtain ⟨value, _, hm, hp⟩ := bind_ok.mp h
    obtain ⟨hr, rfl⟩ := pure_ok.mp hp
    exact ⟨value, hm, hr⟩
  · rintro ⟨value, hm, rfl⟩
    exact bind_ok.mpr ⟨value, s', hm, rfl⟩

theorem lift_bind_ok :
    (lift outcome >>= rest) s = (.ok result, s') ↔
      ∃ value, outcome = .ok value ∧ rest value s = (.ok result, s') := by
  rw [bind_ok]
  constructor
  · rintro ⟨value, _, hlift, hrest⟩
    obtain ⟨hvalue, rfl⟩ := lift_ok.mp hlift
    exact ⟨value, hvalue, hrest⟩
  · rintro ⟨value, hvalue, hrest⟩
    exact ⟨value, s, lift_ok.mpr ⟨hvalue, rfl⟩, hrest⟩

theorem need_bind_ok {value : Option A} : (need value message >>= rest) s = (.ok result, s') ↔
      ∃ found, value = some found ∧ rest found s = (.ok result, s') := by
  rw [bind_ok]
  constructor
  · rintro ⟨found, _, hneed, hrest⟩
    obtain ⟨hfound, rfl⟩ := need_ok.mp hneed
    exact ⟨found, hfound, hrest⟩
  · rintro ⟨found, hfound, hrest⟩
    exact ⟨found, s, need_ok.mpr ⟨hfound, rfl⟩, hrest⟩

theorem failIf_bind_ok [Decidable condition] {rest : Unit → Method S B} :
    (failIf condition message >>= rest) s = (.ok result, s') ↔
      ¬ condition ∧ rest () s = (.ok result, s') := by
  rw [bind_ok]
  constructor
  · rintro ⟨_, _, hfail, hrest⟩
    obtain ⟨hcondition, rfl⟩ := failIf_ok.mp hfail
    exact ⟨hcondition, hrest⟩
  · rintro ⟨hcondition, hrest⟩
    exact ⟨(), s, failIf_ok.mpr ⟨hcondition, rfl⟩, hrest⟩

theorem bind_of_ok (h : first s = (.ok value, mid)) : (first >>= rest) s = rest value mid := by
  simp only [Bind.bind, h]

theorem bind_of_error (h : first s = (.error message, mid)) :
    (first >>= rest) s = (.error message, mid) := by
  simp only [Bind.bind, h]

theorem failIf_bind_of [Decidable condition] {rest : Unit → Method S B} (h : condition) :
    (failIf condition message >>= rest) s = (.error message, s) :=
  bind_of_error (if_pos h)

theorem failIf_bind_of_not [Decidable condition] {rest : Unit → Method S B} (h : ¬ condition) :
    (failIf condition message >>= rest) s = rest () s := by
  simp only [Bind.bind, failIf, if_neg h]

/-! ## Methods without partial effects -/

def ReadOnly (method : Method S A) : Prop := ∀ s, (method s).2 = s

def Atomic (method : Method S A) : Prop :=
  ∀ s message s', method s = (.error message, s') → s' = s

theorem Atomic.kept (h : Atomic method) (hfailed : (method s).1.isOk = false) :
    (method s).2 = s := by
  cases hcall : method s with
  | mk result next =>
    rw [hcall] at hfailed
    cases result with
    | error message => exact h s message next hcall
    | ok => cases hfailed

theorem readOnly_pure : ReadOnly (pure value : Method S A) := fun _ => rfl

theorem readOnly_read : ReadOnly (read : Method S S) := fun _ => rfl

theorem readOnly_fail : ReadOnly (fail message : Method S A) := fun _ => rfl

theorem readOnly_lift : ReadOnly (lift outcome : Method S A) := fun _ => rfl

theorem readOnly_failIf [Decidable condition] :
    ReadOnly (failIf condition message : Method S Unit) := by
  intro s
  unfold failIf
  split <;> rfl

theorem readOnly_need {value : Option A} :
    ReadOnly (need value message : Method S A) := by
  intro s
  cases value <;> rfl

theorem readOnly_onCopy {method : Method T Unit} :
    ReadOnly (onCopy copy method : Method S T) := by
  intro s
  unfold onCopy
  split <;> rfl

/-- A read-only method followed by an atomic one is atomic. -/
theorem atomic_bind (hfirst : ReadOnly first) (hrest : ∀ value, Atomic (rest value)) :
    Atomic (first >>= rest) := by
  intro s message s' h
  have hs := hfirst s
  simp only [Bind.bind] at h
  split at h
  · rename_i value next hf
    rw [hf] at hs
    have hr := hrest value next message s' h
    rw [hr]
    exact hs
  · rename_i other next hf
    rw [hf] at hs
    cases h
    exact hs

/-- A read-only method is atomic. -/
theorem ReadOnly.atomic (h : ReadOnly method) : Atomic method := by
  intro s message s' hm
  have hs := h s
  rw [hm] at hs
  exact hs

theorem atomic_write_pure :
    Atomic (write next >>= fun _ => pure value : Method S A) := by
  intro s message s' h
  cases h

theorem atomic_write : Atomic (write next : Method S Unit) := by
  intro s message s' h
  cases h

theorem Atomic.map (h : Atomic method) (f : A → B) : Atomic (f <$> method) := by
  intro s message s' hm
  change (method >>= fun value => pure (f value)) s = _ at hm
  simp only [Bind.bind] at hm
  split at hm
  · cases hm
  · rename_i other next hother
    cases hm
    exact h s message s' hother

/-! ## Methods confined to the steps of a relation -/

section Within

variable {R : S → S → Prop} {s : S}

/-- From this state a call takes only steps of a relation, whether or not it succeeds. -/
def Within (R : S → S → Prop) (s : S) (method : Method S A) : Prop :=
  Relation.ReflTransGen R s (method s).2

variable {method : Method S A}

theorem within_step (h : R s (method s).2) : Within R s method :=
  .single h

theorem ReadOnly.within (h : ReadOnly method) : Within R s method := by
  unfold Within
  rw [h s]

variable {rest : A → Method S B}

theorem within_bind (hfirst : Within R s first)
    (hrest : ∀ value mid, first s = (.ok value, mid) → Within R mid (rest value)) :
    Within R s (first >>= rest) := by
  unfold Within at hfirst
  simp only [Within, Bind.bind]
  split
  · rename_i value mid hok
    rw [hok] at hfirst
    exact hfirst.trans (hrest value mid hok)
  · rename_i message mid herror
    rw [herror] at hfirst
    exact hfirst

/-- The result of a call only depends on its value, so renaming the value adds no step. -/
theorem within_bind_pure {f : A → B} (hfirst : Within R s first) :
    Within R s (first >>= fun value => pure (f value)) :=
  within_bind hfirst fun _ _ _ => readOnly_pure.within

theorem within_read_bind {rest : S → Method S B} (hrest : Within R s (rest s)) :
    Within R s (read >>= rest) := hrest

theorem within_lift_bind (hrest : ∀ value, Within R s (rest value)) :
    Within R s (lift outcome >>= rest) := by
  refine within_bind readOnly_lift.within fun value mid h => ?_
  obtain ⟨-, rfl⟩ := lift_ok.mp h
  exact hrest value

theorem within_need_bind {value : Option A}
    (hrest : ∀ result, value = some result → Within R s (rest result)) :
    Within R s (need value message >>= rest) := by
  refine within_bind readOnly_need.within fun result mid h => ?_
  obtain ⟨hvalue, rfl⟩ := need_ok.mp h
  exact hrest result hvalue

theorem within_failIf_bind [Decidable condition] {rest : Unit → Method S B}
    (hrest : ¬ condition → Within R s (rest ())) :
    Within R s (failIf condition message >>= rest) := by
  refine within_bind readOnly_failIf.within fun value mid h => ?_
  obtain ⟨hcondition, rfl⟩ := failIf_ok.mp h
  exact hrest hcondition

theorem within_modify_bind {change : S → S} {rest : Unit → Method S B} (hstep : R s (change s))
    (hrest : Within R (change s) (rest ())) : Within R s (modify change >>= rest) :=
  .head hstep hrest

theorem within_write_bind {rest : Unit → Method S B} (hstep : R s next)
    (hrest : Within R next (rest ())) : Within R s (write next >>= rest) :=
  .head hstep hrest

theorem Within.view_eq {V : Type} {view : S → V}
    (h : Within (fun before after => view after = view before) s method) :
    view (method s).2 = view s := by
  unfold Within at h
  generalize (method s).2 = after at h
  induction h with
  | refl => rfl
  | tail _ hstep ih => exact hstep.trans ih

theorem Within.preserves {P : S → Prop} (h : Within R s method)
    (hstep : ∀ before after, R before after → P before → P after) (hs : P s) :
    P (method s).2 := by
  unfold Within at h
  generalize (method s).2 = after at h
  induction h with
  | refl => exact hs
  | tail _ hlast ih => exact hstep _ _ hlast ih

end Within

end Method

end Zkpi.StatefulMethods
