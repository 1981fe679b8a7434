import Mathlib.Tactic.Positivity
import Mathlib.Tactic.Ring

/-!
# Programs over machine integers

A machine computes with signed integers of a fixed width. A build with overflow checks stops when
a result does not fit; a build without them keeps its low bits. A program is checked against the
list of exact results it comes across: where all of them fit, both builds compute the same, and a
checked build that succeeds has come across none that does not.
-/

namespace Zkpi.MachineArithmetic

/-- The integers with a number of bits besides the sign. -/
def Fits (n : ℕ) (x : ℤ) : Prop := -2 ^ n ≤ x ∧ x < 2 ^ n

instance (n : ℕ) (x : ℤ) : Decidable (Fits n x) := inferInstanceAs (Decidable (_ ∧ _))

/-- A machine integer. -/
abbrev Word (n : ℕ) := {x : ℤ // Fits n x}

/-- The smaller of two machine integers. -/
def Word.least {n : ℕ} (a b : Word n) : Word n := if b.val < a.val then b else a

def Word.largest {n : ℕ} (a b : Word n) : Word n := if b.val < a.val then a else b

theorem val_least (a b : Word n) : (a.least b).val = min a.val b.val := by
  unfold Word.least
  split_ifs with h
  · exact (min_eq_right h.le).symm
  · exact (min_eq_left (not_lt.mp h)).symm

theorem val_largest (a b : Word n) : (a.largest b).val = max a.val b.val := by
  unfold Word.largest
  split_ifs with h
  · exact (max_eq_left h.le).symm
  · exact (max_eq_right (not_lt.mp h)).symm

theorem Fits.between (hlow : Fits n low) (hhigh : Fits n high)
    (h : low ≤ x ∧ x ≤ high) : Fits n x :=
  ⟨hlow.1.trans h.1, h.2.trans_lt hhigh.2⟩

/-- How a program ends without a result. -/
inductive Stop where
  /-- It returned an error. -/
  | refused (message : String)
  /-- It was aborted. -/
  | panicked
  /-- It used up the steps it was given. -/
  | unfinished
  deriving DecidableEq

/-- What a build does with a result that does not fit. -/
inductive Machine where
  | checked
  | wrapping
  deriving DecidableEq

/-- The low bits of a result. -/
def wrap (n : ℕ) (x : ℤ) : Word n :=
  ⟨x.bmod (2 ^ (n + 1)), by
    have hpos : (0 : ℤ) < 2 ^ n := by positivity
    have hsize : ((2 ^ (n + 1) : ℕ) : ℤ) = 2 * 2 ^ n := by push_cast; ring
    have hlow := Int.le_bmod (x := x) (m := 2 ^ (n + 1)) (by positivity)
    have hhigh := Int.bmod_lt (x := x) (m := 2 ^ (n + 1)) (by positivity)
    rw [hsize] at hlow hhigh
    constructor <;> omega⟩

def Machine.number {n : ℕ} (machine : Machine) (x : ℤ) : Except Stop (Word n) :=
  match machine with
  | .checked => if h : Fits n x then .ok ⟨x, h⟩ else .error .panicked
  | .wrapping => .ok (wrap n x)

theorem wrap_of_fits (h : Fits n x) : wrap n x = ⟨x, h⟩ := by
  apply Subtype.ext
  have hsize : ((2 ^ (n + 1) : ℕ) : ℤ) = 2 * 2 ^ n := by push_cast; ring
  obtain ⟨hlow, hhigh⟩ := h
  apply Int.bmod_eq_of_le_mul_two <;> rw [hsize] <;> omega

theorem Machine.number_of_fits (machine : Machine) (h : Fits n x) :
    machine.number x = .ok (⟨x, h⟩ : Word n) := by
  cases machine with
  | checked => exact dif_pos h
  | wrapping => exact congrArg Except.ok (wrap_of_fits h)

theorem fits_of_number {result : Word n} (h : Machine.checked.number x = .ok result) :
    Fits n x ∧ result.val = x := by
  simp only [Machine.number] at h
  split at h
  · rename_i hfits
    cases h
    exact ⟨hfits, rfl⟩
  · cases h

/-! ## Programs and the exact results they come across -/

/-- A program comes across a list of exact results. If they all fit then it computes, on either
build, a value with a given property; if the checked build succeeds then they do. -/
structure Computes {A : Type} (n : ℕ) (machine : Machine) (program : Machine → Except Stop A)
    (numbers : List ℤ) (Post : A → Prop) : Prop where
  fits : ∀ value, program .checked = .ok value → ∀ x ∈ numbers, Fits n x
  same : ∀ value, program .checked = .ok value → program machine = .ok value
  exact : ∀ value, program machine = .ok value → (∀ x ∈ numbers, Fits n x) →
    program .checked = .ok value ∧ Post value

namespace Computes

variable {A B : Type} {machine : Machine} {Post : A → Prop}

theorem pure (h : Post value) : Computes n machine (fun _ => .ok value) [] Post where
  fits := nofun
  same := fun _ h => h
  exact := by
    rintro _ ⟨⟩ _
    exact ⟨rfl, h⟩

theorem error : Computes n machine (fun _ => .error stop) numbers Post :=
  ⟨nofun, nofun, nofun⟩

theorem number (x : ℤ) : Computes n machine (fun machine => machine.number (n := n) x) [x]
    (fun result => result.val = x) where
  fits := by
    intro _ h y hy
    obtain rfl := List.mem_singleton.mp hy
    exact (fits_of_number h).1
  same := by
    intro result h
    obtain ⟨hfits, hvalue⟩ := fits_of_number h
    rw [machine.number_of_fits hfits]
    exact congrArg Except.ok (Subtype.ext hvalue.symm)
  exact := by
    intro result h hfits
    have hx := hfits x (List.mem_singleton_self x)
    rw [machine.number_of_fits hx] at h
    cases h
    exact ⟨Machine.checked.number_of_fits hx, rfl⟩

theorem bind {rest : A → Machine → Except Stop B} (h : Computes n machine program numbers Post)
    (hrest : ∀ value, Post value → Computes n machine (rest value) more Post') :
    Computes n machine (fun machine => program machine >>= fun value => rest value machine)
      (numbers ++ more) Post' := by
  -- What a successful checked run did, and that the rest may rely on its first part.
  have hchecked : ∀ {result}, (program .checked >>= fun value => rest value .checked) = .ok result →
      ∃ value, program .checked = .ok value ∧ rest value .checked = .ok result ∧
        Computes n machine (rest value) more Post' := by
    intro result hresult
    cases hprogram : program .checked with
    | error =>
      rw [hprogram] at hresult
      cases hresult
    | ok value =>
      rw [hprogram] at hresult
      exact ⟨value, rfl, hresult, hrest value
        (h.exact value (h.same value hprogram) (h.fits value hprogram)).2⟩
  constructor
  · intro result hresult x hx
    obtain ⟨value, hprogram, hvalue, hcomputes⟩ := hchecked hresult
    obtain hx | hx := List.mem_append.mp hx
    · exact h.fits value hprogram x hx
    · exact hcomputes.fits result hvalue x hx
  · intro result hresult
    obtain ⟨value, hprogram, hvalue, hcomputes⟩ := hchecked hresult
    rw [h.same value hprogram]
    exact hcomputes.same result hvalue
  · intro result hresult hfits
    cases hprogram : program machine with
    | error =>
      rw [hprogram] at hresult
      cases hresult
    | ok value =>
      rw [hprogram] at hresult
      obtain ⟨hsame, hpost⟩ := h.exact value hprogram
        fun x hx => hfits x (List.mem_append_left _ hx)
      obtain ⟨hlast, hpost'⟩ := (hrest value hpost).exact result hresult
        fun x hx => hfits x (List.mem_append_right _ hx)
      rw [hsame]
      exact ⟨hlast, hpost'⟩

/-- A program whose result is only renamed. -/
theorem last {rename : A → B} (h : Computes n machine program numbers Post)
    (himp : ∀ value, Post value → Post' (rename value)) :
    Computes n machine (fun machine => program machine >>= fun value => .ok (rename value)) numbers
      Post' := by
  have hbind : Computes n machine
      (fun machine => program machine >>= fun value => .ok (rename value)) (numbers ++ []) Post' :=
    h.bind fun value hvalue => .pure (himp value hvalue)
  rwa [List.append_nil] at hbind

theorem const (h : ∀ value, result = .ok value → Post value) :
    Computes n machine (fun _ => result) [] Post :=
  ⟨nofun, fun _ h => h, fun value hvalue _ => ⟨hvalue, h value hvalue⟩⟩

theorem congr (h : Computes n machine program numbers Post) (hmem : ∀ x, x ∈ more ↔ x ∈ numbers) :
    Computes n machine program more Post :=
  ⟨fun value hvalue x hx => h.fits value hvalue x ((hmem x).mp hx), h.same,
    fun value hvalue hfits => h.exact value hvalue fun x hx => hfits x ((hmem x).mpr hx)⟩

end Computes

end Zkpi.MachineArithmetic
