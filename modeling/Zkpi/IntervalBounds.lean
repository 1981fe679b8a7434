import Mathlib.Tactic.Ring

/-!
# Interval arithmetic

An interval stands for the numbers between its bounds. Each operation on intervals contains the
results of the operation on numbers; a product is bounded by its four corners.
-/

namespace Zkpi.IntervalBounds

@[ext] structure Bounds (R : Type) where
  lo : R
  hi : R
  deriving DecidableEq

namespace Bounds

variable {R : Type} [CommRing R] [LinearOrder R]

def Contains (bounds : Bounds R) (x : R) : Prop := bounds.lo ≤ x ∧ x ≤ bounds.hi

instance (bounds : Bounds R) (x : R) : Decidable (bounds.Contains x) :=
  inferInstanceAs (Decidable (_ ∧ _))

/-- A single number. -/
def point (x : R) : Bounds R := ⟨x, x⟩

/-- The numbers zero and one. -/
def condition : Bounds R := ⟨0, 1⟩

variable (first second : Bounds R)

def plus : Bounds R := ⟨first.lo + second.lo, first.hi + second.hi⟩

def minus : Bounds R := ⟨first.lo - second.hi, first.hi - second.lo⟩

def negated (bounds : Bounds R) : Bounds R := ⟨-bounds.hi, -bounds.lo⟩

def times : Bounds R :=
  ⟨min (min (min (first.lo * second.lo) (first.lo * second.hi)) (first.hi * second.lo))
      (first.hi * second.hi),
    max (max (max (first.lo * second.lo) (first.lo * second.hi)) (first.hi * second.lo))
      (first.hi * second.hi)⟩

/-- The smaller of two numbers. -/
def minimum : Bounds R :=
  ⟨min first.lo second.lo, min first.hi second.hi⟩

/-- The larger of two numbers. -/
def maximum : Bounds R :=
  ⟨max first.lo second.lo, max first.hi second.hi⟩

def symmetric (size : R) : Bounds R := ⟨-size, size⟩

section Contains

variable {first second bounds : Bounds R} {x y : R}

omit [CommRing R] in
theorem contains_point : (point x).Contains x := ⟨le_refl x, le_refl x⟩

omit [CommRing R] in
theorem contains_minimum (hx : first.Contains x) (hy : second.Contains y) :
    (minimum first second).Contains (min x y) :=
  ⟨min_le_min hx.1 hy.1, min_le_min hx.2 hy.2⟩

omit [CommRing R] in
theorem contains_maximum (hx : first.Contains x) (hy : second.Contains y) :
    (maximum first second).Contains (max x y) :=
  ⟨max_le_max hx.1 hy.1, max_le_max hx.2 hy.2⟩

variable [IsStrictOrderedRing R]

theorem contains_plus (hx : first.Contains x) (hy : second.Contains y) :
    (first.plus second).Contains (x + y) :=
  ⟨add_le_add hx.1 hy.1, add_le_add hx.2 hy.2⟩

theorem contains_minus (hx : first.Contains x) (hy : second.Contains y) :
    (first.minus second).Contains (x - y) :=
  ⟨sub_le_sub hx.1 hy.2, sub_le_sub hx.2 hy.1⟩

theorem contains_negated (hx : bounds.Contains x) : bounds.negated.Contains (-x) :=
  ⟨neg_le_neg hx.2, neg_le_neg hx.1⟩

theorem mul_le_max (hx : bounds.Contains x) (y : R) :
    x * y ≤ max (bounds.lo * y) (bounds.hi * y) := by
  obtain hy | hy := le_total 0 y
  · exact le_max_of_le_right (mul_le_mul_of_nonneg_right hx.2 hy)
  · exact le_max_of_le_left (mul_le_mul_of_nonpos_right hx.1 hy)

theorem min_le_mul (hx : bounds.Contains x) (y : R) :
    min (bounds.lo * y) (bounds.hi * y) ≤ x * y := by
  obtain hy | hy := le_total 0 y
  · exact min_le_of_left_le (mul_le_mul_of_nonneg_right hx.1 hy)
  · exact min_le_of_right_le (mul_le_mul_of_nonpos_right hx.2 hy)

theorem contains_times (hx : first.Contains x) (hy : second.Contains y) :
    (first.times second).Contains (x * y) := by
  -- Move one factor to its bounds, then the other.
  have hlow : ∀ z, min (z * second.lo) (z * second.hi) ≤ z * y := by
    intro z
    have h := min_le_mul hy z
    rwa [mul_comm, mul_comm second.hi, mul_comm y] at h
  have hhigh : ∀ z, z * y ≤ max (z * second.lo) (z * second.hi) := by
    intro z
    have h := mul_le_max hy z
    rwa [mul_comm second.lo, mul_comm second.hi, mul_comm y] at h
  constructor
  · calc (first.times second).lo
        = min (min (first.lo * second.lo) (first.lo * second.hi))
            (min (first.hi * second.lo) (first.hi * second.hi)) := min_assoc _ _ _
      _ ≤ min (first.lo * y) (first.hi * y) := min_le_min (hlow _) (hlow _)
      _ ≤ x * y := min_le_mul hx y
  · calc x * y ≤ max (first.lo * y) (first.hi * y) := mul_le_max hx y
      _ ≤ max (max (first.lo * second.lo) (first.lo * second.hi))
            (max (first.hi * second.lo) (first.hi * second.hi)) := max_le_max (hhigh _) (hhigh _)
      _ = (first.times second).hi := (max_assoc _ _ _).symm

/-- A number between bounds whose lower one is at least minus the upper one is of at most its size,
and so is its opposite. -/
theorem contains_symmetric (hx : bounds.Contains x) (hbalanced : -bounds.hi ≤ bounds.lo) :
    (symmetric bounds.hi).Contains x ∧ (symmetric bounds.hi).Contains (-x) :=
  ⟨⟨hbalanced.trans hx.1, hx.2⟩, ⟨neg_le_neg hx.2, neg_le.mp (hbalanced.trans hx.1)⟩⟩

omit [IsStrictOrderedRing R] in
theorem balanced_of_contains_symmetric (hnonempty : bounds.lo ≤ bounds.hi)
    (h : ∀ x, bounds.Contains x → (symmetric bounds.hi).Contains x) : -bounds.hi ≤ bounds.lo :=
  (h bounds.lo ⟨le_refl _, hnonempty⟩).1

end Contains

end Bounds

end Zkpi.IntervalBounds
