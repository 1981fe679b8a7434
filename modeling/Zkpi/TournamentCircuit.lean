import Mathlib.Algebra.BigOperators.Ring.Finset
import Mathlib.Tactic.Linarith
import Mathlib.Data.Nat.Prime.Basic

/-!
# The tournament of the generated circuit

The circuit packs every cost with its maker's index into one key and finds the least key in levels:
each level cuts the array into groups and keeps one key of every group. The values are those of a
ring, and a comparison reads the signed integers that they stand for. A level keeps all candidates
exactly if its groups cover the array, and the groups come from an integer division.
-/

namespace Zkpi.TournamentCircuit

open Finset Nat

section Circuit

variable {R : Type} [CommRing R] (signed : R → ℤ)

/-- What a comparison yields. -/
def bit (condition : Prop) [Decidable condition] : R := if condition then 1 else 0

/-- The part of an array from a position on. -/
def getVector (cur : ℕ → R) (start : ℕ) : ℕ → R := fun i => cur (start + i)

/-- Overwrite the first cells of an array. -/
def assign (cur values : ℕ → R) (length : ℕ) : ℕ → R := fun i =>
  if i < length then values i else cur i

/-- An array in use with the number of cells still in play. -/
abbrev Round (R : Type) := (ℕ → R) × ℕ

def whileAbove (bound : ℕ) (level : Round R → Round R) : ℕ → Round R → Round R
  | 0, round => round
  | fuel + 1, round =>
    if bound < round.2 then whileAbove bound level fuel (level round) else round

variable (before : ℤ → ℤ → Bool)

def binaryLevel (round : Round R) : Round R :=
  let half := round.2 / 2
  let a := getVector round.1 0
  let b := getVector round.1 half
  (assign round.1 (fun i => if before (signed (a i)) (signed (b i)) then a i else b i) half, half)

def rank (candidates : ℕ → R) (size p : ℕ) : ℕ :=
  ∑ q ∈ (range size).erase p,
    if before (signed (candidates q)) (signed (candidates p)) then 1 else 0

def karyLevel (arity : ℕ) (round : Round R) : Round R :=
  let a := min arity round.2
  let groups := round.2 / a
  let blocks := fun p => getVector round.1 (p * groups)
  let winner := fun i => ∑ p ∈ range a,
    bit (rank signed (· < ·) (fun p => blocks p i) a p = 0) * blocks p i
  (assign round.1 winner groups, groups)

def minTree (keys : ℕ → R) (n : ℕ) : R :=
  (whileAbove 1 (binaryLevel signed (· < ·)) n (keys, n)).1 0

def minKary (keys : ℕ → R) (n arity : ℕ) : R :=
  (whileAbove 1 (karyLevel signed arity) n (keys, n)).1 0

def argmin (arity : ℕ) (keys : ℕ → R) (n : ℕ) : R :=
  if arity ≤ 2 then minTree signed keys n else minKary signed keys n arity

/-- The last level of the binary tournament with its two extra comparisons. -/
def binaryFill (limit : R) (round : Round R) : R × R :=
  if round.2 = 1 then (round.1 0, bit (signed (round.1 0) ≤ signed limit))
  else
    let first := signed (round.1 0) ≤ signed (round.1 1)
    let fits := fun p => bit (signed (round.1 p) ≤ signed limit)
    (if first then round.1 0 else round.1 1, if first then fits 0 else fits 1)

/-- The last level of the other tournaments. A finalist's rank and whether it fills come from one
square of comparisons, the latter from the diagonal. -/
def karyFill (limit : R) (round : Round R) : R × R :=
  if round.2 = 1 then (round.1 0, bit (signed (round.1 0) ≤ signed limit))
  else
    let finalists := getVector round.1 0
    let chosen := fun p => (bit (rank signed (· ≤ ·) finalists round.2 p = 0) : R)
    (∑ p ∈ range round.2, chosen p * finalists p,
      ∑ p ∈ range round.2, chosen p * bit (signed (finalists p) ≤ signed limit))

def argminFill (arity : ℕ) (keys : ℕ → R) (n : ℕ) (limit : R) : R × R :=
  if arity ≤ 2 then
    binaryFill signed limit (whileAbove 2 (binaryLevel signed (· ≤ ·)) n (keys, n))
  else karyFill signed limit (whileAbove arity (karyLevel signed arity) n (keys, n))

def packKey (makers : ℕ) (cost : ℕ → R) : ℕ → R := fun i => cost i * makers + i

def limitKey (makers : ℕ) (costLimit : R) : R := costLimit * makers + (makers - 1)

end Circuit

/-! ## One level -/

variable {R : Type} (signed : R → ℤ) (before : ℤ → ℤ → Bool)

def Picks (a groups : ℕ) (cur next : ℕ → R) : Prop :=
  ∀ g < groups, ∃ p < a, next g = cur (p * groups + g) ∧
    ∀ q < a, signed (next g) ≤ signed (cur (q * groups + g))

variable {signed} {keys : ℕ → R} {a size n : ℕ} {m : ℤ}

theorem group_index_lt (hp : p < a) (hg : g < groups) : p * groups + g < a * groups := by
  calc p * groups + g < (p + 1) * groups := by rw [succ_mul]; omega
    _ ≤ a * groups := mul_le_mul_right _ hp

theorem Picks.injOn (h : Picks signed a groups cur next)
    (hcur : Set.InjOn cur (Set.Iio (a * groups))) : Set.InjOn next (Set.Iio groups) := by
  intro g hg g' hg' heq
  obtain ⟨p, hp, hpick, -⟩ := h g hg
  obtain ⟨p', hp', hpick', -⟩ := h g' hg'
  have hindex : p * groups + g = p' * groups + g' :=
    hcur (group_index_lt hp hg) (group_index_lt hp' hg') (by rw [← hpick, ← hpick', heq])
  have hmod := congrArg (· % groups) hindex
  simpa only [mul_add_mod_self_right, mod_eq_of_lt hg, mod_eq_of_lt hg'] using hmod

theorem Picks.isLeast (h : Picks signed a groups cur next)
    (hcur : IsLeast (signed ∘ cur '' Set.Iio (a * groups)) m) :
    IsLeast (signed ∘ next '' Set.Iio groups) m := by
  have hlower : ∀ g < groups, m ≤ signed (next g) := by
    intro g hg
    obtain ⟨p, hp, hpick, -⟩ := h g hg
    rw [hpick]
    exact hcur.2 ⟨_, group_index_lt hp hg, rfl⟩
  obtain ⟨⟨i, hi, rfl⟩, -⟩ := hcur
  have hgroups : 0 < groups := Nat.pos_of_mul_pos_left (lt_of_le_of_lt (Nat.zero_le i) hi)
  -- the group of the least key keeps it
  have hg : i % groups < groups := mod_lt _ hgroups
  obtain ⟨p, _, -, hleast⟩ := h _ hg
  have hle := hleast (i / groups) (Nat.div_lt_of_lt_mul (by rwa [Nat.mul_comm groups a]))
  rw [mul_comm, div_add_mod] at hle
  refine ⟨⟨_, hg, le_antisymm hle (hlower _ hg)⟩, ?_⟩
  rintro _ ⟨g, hg, rfl⟩
  exact hlower g hg

theorem exists_rank_zero (hsigned : Function.Injective signed) (before : ℤ → ℤ → Bool)
    (hbefore : ∀ x y, x ≠ y → (before x y = true ↔ x < y)) {f : ℕ → R} (hsize : 0 < size)
    (hf : Set.InjOn f (Set.Iio size)) :
    ∃ p < size, (∀ q < size, signed (f p) ≤ signed (f q)) ∧
      ∀ q < size, rank signed before f size q = 0 ↔ q = p := by
  obtain ⟨p, hp, hleast⟩ := exists_min_image (range size) (fun i => signed (f i)) ⟨0, by simpa⟩
  simp only [mem_range] at hp hleast
  refine ⟨p, hp, hleast, fun q hq => ?_⟩
  have hapart : ∀ x < size, ∀ y < size, x ≠ y → signed (f x) ≠ signed (f y) := by
    intro x hx y hy hne heq
    exact hne (hf hx hy (hsigned heq))
  rw [rank, sum_eq_zero_iff]
  constructor
  · intro hzero
    by_contra hne
    have hterm := hzero p (mem_erase.mpr ⟨Ne.symm hne, mem_range.mpr hp⟩)
    have hlt := lt_of_le_of_ne (hleast q hq) (hapart p hp q hq (Ne.symm hne))
    rw [if_pos ((hbefore _ _ hlt.ne).mpr hlt)] at hterm
    exact one_ne_zero hterm
  · rintro rfl r hr
    obtain ⟨hne, hr⟩ := mem_erase.mp hr
    rw [mem_range] at hr
    rw [if_neg]
    intro hlt
    exact absurd ((hbefore _ _ (hapart r hr q hq hne)).mp hlt) (not_lt.mpr (hleast r hr))

theorem binaryLevel_picks (hbefore : ∀ x y, x ≠ y → (before x y = true ↔ x < y)) (cur : ℕ → R)
    (size : ℕ) :
    Picks signed 2 (size / 2) cur (binaryLevel signed before (cur, size)).1 := by
  intro g hg
  simp only [binaryLevel, assign, getVector, if_pos hg, zero_add]
  have hboth : ∀ {m : ℤ}, m ≤ signed (cur g) → m ≤ signed (cur (size / 2 + g)) →
      ∀ q < 2, m ≤ signed (cur (q * (size / 2) + g)) := by
    intro m hleft hright q hq
    obtain rfl | rfl : q = 0 ∨ q = 1 := by omega
    · rwa [zero_mul, zero_add]
    · rwa [one_mul]
  by_cases heq : signed (cur g) = signed (cur (size / 2 + g))
  · split
    · exact ⟨0, by omega, by rw [zero_mul, zero_add], hboth le_rfl heq.le⟩
    · exact ⟨1, by omega, by rw [one_mul], hboth heq.ge le_rfl⟩
  · split
    · rename_i hfirst
      have hlt := (hbefore _ _ heq).mp hfirst
      exact ⟨0, by omega, by rw [zero_mul, zero_add], hboth le_rfl hlt.le⟩
    · rename_i hsecond
      have hle := not_lt.mp (mt (hbefore _ _ heq).mpr hsecond)
      exact ⟨1, by omega, by rw [one_mul], hboth hle le_rfl⟩

/-! ## The loop -/

theorem whileAbove_keeps {bound : ℕ} {level : Round R → Round R} (P : Round R → Prop)
    (hlevel : ∀ round, bound < round.2 → P round → P (level round)) (fuel : ℕ) {round : Round R}
    (h : P round) : P (whileAbove bound level fuel round) := by
  induction fuel generalizing round with
  | zero => exact h
  | succ fuel ih =>
    rw [whileAbove]
    split
    · exact ih (hlevel round ‹_› h)
    · exact h

theorem whileAbove_le {level : Round R → Round R} (hbound : 0 < bound)
    (hlevel : ∀ round, bound < round.2 → (level round).2 < round.2) {round : Round R}
    (hfuel : round.2 ≤ fuel) : (whileAbove bound level fuel round).2 ≤ bound := by
  induction fuel generalizing round with
  | zero =>
    rw [whileAbove]
    omega
  | succ fuel ih =>
    rw [whileAbove]
    split_ifs with habove
    · have hless := hlevel round habove
      exact ih (by omega)
    · omega

structure Plays (signed : R → ℤ) (arity : ℕ) (level : Round R → Round R) : Prop where
  size : ∀ round : Round R, 1 < round.2 → (level round).2 = round.2 / min arity round.2
  picks : ∀ round : Round R, 1 < round.2 → Set.InjOn round.1 (Set.Iio round.2) →
    Picks signed (min arity round.2) (round.2 / min arity round.2) round.1 (level round).1

theorem binaryLevel_plays (hbefore : ∀ x y, x ≠ y → (before x y = true ↔ x < y)) :
    Plays signed 2 (binaryLevel signed before) where
  size := fun round hsize => by rw [min_eq_left hsize]; rfl
  picks := fun round hsize _ => by
    rw [min_eq_left hsize]
    exact binaryLevel_picks before hbefore round.1 round.2

structure Kept (keys : ℕ → R) (bound : ℕ) (round : Round R) : Prop where
  pos : 0 < round.2
  injOn : Set.InjOn round.1 (Set.Iio round.2)
  held : ∀ i < round.2, ∃ j < bound, round.1 i = keys j

/-- The least key is still in play, and no later level will drop a cell. -/
structure Exact (signed : R → ℤ) (arity : ℕ) (m : ℤ) (round : Round R) : Prop where
  least : IsLeast (signed ∘ round.1 '' Set.Iio round.2) m
  power : ∃ k, round.2 = 2 ^ k
  divides : (∃ j, arity = 2 ^ j) ∨ round.2 ≤ arity

section Runs

variable {arity : ℕ} {level : Round R → Round R} {round : Round R}

section

variable (h : Plays signed arity level)

include h

theorem Plays.shrinks (harity : 2 ≤ arity) (hsize : 1 < round.2) :
    0 < (level round).2 ∧ (level round).2 < round.2 := by
  have ha : 2 ≤ min arity round.2 := le_min harity hsize
  rw [h.size round hsize]
  exact ⟨div_pos (min_le_right _ _) (by omega), div_lt_self (by omega) ha⟩

/-- A level reads only the cells that its groups cover. -/
theorem Plays.kept (harity : 2 ≤ arity) (hsize : 1 < round.2)
    (hinj : Set.InjOn round.1 (Set.Iio round.2))
    (hheld : ∀ i < min arity round.2 * (round.2 / min arity round.2), ∃ j < n,
      round.1 i = keys j) : Kept keys n (level round) := by
  have hpicks := h.picks round hsize hinj
  refine ⟨(h.shrinks harity hsize).1, ?_, ?_⟩
  · rw [h.size round hsize]
    exact hpicks.injOn (hinj.mono (Set.Iio_subset_Iio (mul_div_le _ _)))
  · intro g hg
    rw [h.size round hsize] at hg
    obtain ⟨p, hp, hpick, -⟩ := hpicks g hg
    rw [hpick]
    exact hheld _ (group_index_lt hp hg)

theorem whileAbove_kept (harity : 2 ≤ arity) (hbound : 0 < bound) (fuel : ℕ)
    (hround : Kept keys n round) : Kept keys n (whileAbove bound level fuel round) := by
  refine whileAbove_keeps _ (fun round habove hround => ?_) fuel hround
  refine h.kept harity (by omega) hround.injOn fun i hi => ?_
  exact hround.held i (lt_of_lt_of_le hi (mul_div_le _ _))

theorem Plays.exact (hsize : 1 < round.2) (hinj : Set.InjOn round.1 (Set.Iio round.2))
    (hround : Exact signed arity m round) :
    Exact signed arity m (level round) := by
  obtain ⟨k, hk⟩ := hround.power
  -- the number of groups is a power of two, and they cover the array
  obtain ⟨j, hj⟩ : ∃ j, min arity round.2 = 2 ^ j := by
    rcases le_total arity round.2 with hle | hle
    · rcases hround.divides with ⟨j, rfl⟩ | hall
      · exact ⟨j, min_eq_left hle⟩
      · exact ⟨k, by rw [min_eq_right hall, hk]⟩
    · exact ⟨k, by rw [min_eq_right hle, hk]⟩
  have hjk : j ≤ k := by
    have hle : min arity round.2 ≤ round.2 := min_le_right _ _
    rw [hj, hk] at hle
    exact (Nat.pow_le_pow_iff_right (by omega)).mp hle
  have hgroups : (level round).2 = 2 ^ (k - j) := by
    rw [h.size round hsize, hj, hk, Nat.pow_div hjk (by omega)]
  have hcover : min arity round.2 * (round.2 / min arity round.2) = round.2 := by
    rw [hj, hk, Nat.pow_div hjk (by omega), ← pow_add, Nat.add_sub_cancel' hjk]
  have hless : (level round).2 ≤ round.2 := by
    rw [hgroups, hk]
    exact Nat.pow_le_pow_right (by omega) (Nat.sub_le k j)
  refine ⟨?_, ⟨_, hgroups⟩, hround.divides.imp id fun hall => hless.trans hall⟩
  rw [h.size round hsize]
  refine (h.picks round hsize hinj).isLeast ?_
  rw [hcover]
  exact hround.least

theorem whileAbove_exact (harity : 2 ≤ arity) (hbound : 0 < bound) (fuel : ℕ)
    (hkept : Kept keys n round) (hround : Exact signed arity m round) :
    Exact signed arity m (whileAbove bound level fuel round) := by
  refine (whileAbove_keeps (fun round => Kept keys n round ∧ Exact signed arity m round)
    (fun round habove hround => ⟨?_, ?_⟩) fuel ⟨hkept, hround⟩).2
  · refine h.kept harity (by omega) hround.1.injOn fun i hi => ?_
    exact hround.1.held i (lt_of_lt_of_le hi (mul_div_le _ _))
  · exact h.exact (by omega) hround.1.injOn hround.2

end

end Runs

/-! ## Results -/

theorem least_cell {round : Round R} (hround : IsLeast (signed ∘ round.1 '' Set.Iio round.2) m)
    (hsize : round.2 = 1) : signed (round.1 0) = m := by
  obtain ⟨⟨i, hi, hm⟩, -⟩ := hround
  obtain rfl : i = 0 := by
    rw [Set.mem_Iio, hsize] at hi
    omega
  exact hm

theorem kept_start (hn : 0 < n) (hkeys : Set.InjOn keys (Set.Iio n)) : Kept keys n (keys, n) :=
  ⟨hn, hkeys, fun i hi => ⟨i, hi, rfl⟩⟩

theorem lt_iff_of_ne (x y : ℤ) (hne : x ≠ y) : (decide (x ≤ y) = true ↔ x < y) := by
  rw [decide_eq_true_iff, lt_iff_le_and_ne, and_iff_left hne]

def Divides (arity n : ℕ) : Prop := arity ≤ 2 ∨ (∃ j, arity = 2 ^ j) ∨ n ≤ arity

theorem Divides.exact (h : Divides arity (2 ^ k))
    (hleast : IsLeast (signed ∘ keys '' Set.Iio (2 ^ k)) m) :
    Exact signed (max 2 arity) m (keys, 2 ^ k) := by
  refine ⟨hleast, ⟨k, rfl⟩, ?_⟩
  rcases le_or_gt arity 2 with hsmall | hlarge
  · exact .inl ⟨1, max_eq_left hsmall⟩
  · rw [max_eq_right hlarge.le]
    exact h.resolve_left (by omega)

variable [CommRing R]

theorem sum_chosen {chosen : ℕ → R} {value : ℕ → R} (hp : p < size)
    (hchosen : ∀ q < size, chosen q = bit (q = p)) :
    ∑ q ∈ range size, chosen q * value q = value p := by
  rw [sum_eq_single_of_mem p (mem_range.mpr hp), hchosen p hp, bit, if_pos rfl, one_mul]
  intro q hq hne
  rw [hchosen q (mem_range.mp hq), bit, if_neg hne, zero_mul]

theorem binaryFill_eq {round : Round R} (limit : R)
    (hround : IsLeast (signed ∘ round.1 '' Set.Iio round.2) m) (hsize : round.2 ≤ 2) :
    ∃ x, signed x = m ∧ binaryFill signed limit round = (x, bit (signed x ≤ signed limit)) := by
  unfold binaryFill
  split
  · exact ⟨_, least_cell hround ‹_›, rfl⟩
  · obtain ⟨⟨i, hi, rfl⟩, hleast⟩ := hround
    rw [Set.mem_Iio] at hi
    have hzero := hleast ⟨0, by rw [Set.mem_Iio]; omega, rfl⟩
    have hone := hleast ⟨1, by rw [Set.mem_Iio]; omega, rfl⟩
    simp only [Function.comp_apply] at hzero hone ⊢
    obtain rfl | rfl : i = 0 ∨ i = 1 := by omega
    · exact ⟨_, rfl, by rw [if_pos hone, if_pos hone]⟩
    · split
      · exact ⟨_, le_antisymm ‹_› hzero, rfl⟩
      · exact ⟨_, rfl, rfl⟩

section

variable (hsigned : Function.Injective signed)

include hsigned

theorem karyLevel_picks (ha : 0 < min arity size)
    (hcur : Set.InjOn cur (Set.Iio (min arity size * (size / min arity size)))) :
    Picks signed (min arity size) (size / min arity size) cur
      (karyLevel signed arity (cur, size)).1 := by
  intro g hg
  have hgroup : Set.InjOn (fun p => cur (p * (size / min arity size) + g))
      (Set.Iio (min arity size)) := by
    intro p hp p' hp' heq
    have hindex := hcur (group_index_lt hp hg) (group_index_lt hp' hg) heq
    exact eq_of_mul_eq_mul_right (zero_lt_of_lt hg) (add_right_cancel hindex)
  obtain ⟨p, hp, hleast, hrank⟩ := exists_rank_zero hsigned (fun x y => decide (x < y))
    (fun _ _ _ => decide_eq_true_iff) ha hgroup
  refine ⟨p, hp, ?_⟩
  have hwinner : (karyLevel signed arity (cur, size)).1 g =
      cur (p * (size / min arity size) + g) := by
    simp only [karyLevel, assign, if_pos hg, getVector]
    refine sum_chosen hp fun q hq => ?_
    simp only [bit, hrank q hq]
  exact ⟨hwinner, fun q hq => hwinner ▸ hleast q hq⟩

theorem karyLevel_plays (harity : 0 < arity) : Plays signed arity (karyLevel signed arity) where
  size := fun _ _ => rfl
  picks := fun round hsize hinj => by
    refine karyLevel_picks hsigned (lt_min harity (zero_lt_of_lt hsize)) (hinj.mono ?_)
    exact Set.Iio_subset_Iio (mul_div_le _ _)

variable (signed) in
theorem argmin_loop (arity n : ℕ) (keys : ℕ → R) :
    ∃ level, Plays signed (max 2 arity) level ∧
      argmin signed arity keys n = (whileAbove 1 level n (keys, n)).1 0 := by
  by_cases h : arity ≤ 2
  · rw [argmin, if_pos h, minTree, max_eq_left h]
    exact ⟨_, binaryLevel_plays _ fun _ _ _ => decide_eq_true_iff, rfl⟩
  · rw [argmin, if_neg h, minKary, max_eq_right (not_le.mp h).le]
    exact ⟨_, karyLevel_plays hsigned (by omega), rfl⟩

/-- Whatever the arity, a key of the first cell that is smaller than all others is the result. -/
theorem argmin_first (arity : ℕ) (hn : 0 < n) (hkeys : Set.InjOn keys (Set.Iio n))
    (hfirst : ∀ j < n, j ≠ 0 → signed (keys 0) < signed (keys j)) :
    argmin signed arity keys n = keys 0 := by
  obtain ⟨level, hplays, hresult⟩ := argmin_loop signed hsigned arity n keys
  rw [hresult]
  refine (whileAbove_keeps (fun round => Kept keys n round ∧ round.1 0 = keys 0)
    (fun round habove hround => ?_) n ⟨kept_start hn hkeys, rfl⟩).2
  have hkept : Kept keys n (level round) := hplays.kept (le_max_left _ _) (by omega)
    hround.1.injOn fun i hi => hround.1.held i (lt_of_lt_of_le hi (mul_div_le _ _))
  refine ⟨hkept, ?_⟩
  obtain ⟨j, hj, hcell⟩ := hkept.held 0 hkept.pos
  by_cases hzero : j = 0
  · rw [hcell, hzero]
  · -- the first group has the first cell among its candidates
    have hpicks := hplays.picks round (by omega) hround.1.injOn
    have hpos := hkept.pos
    rw [hplays.size round (by omega)] at hpos
    obtain ⟨p, hp, -, hleast⟩ := hpicks 0 hpos
    have hle := hleast 0 (zero_lt_of_lt hp)
    rw [zero_mul, add_zero, hround.2, hcell] at hle
    exact absurd hle (not_le.mpr (hfirst j hj hzero))

theorem karyFill_eq {round : Round R} (limit : R)
    (hround : IsLeast (signed ∘ round.1 '' Set.Iio round.2) m) (hpos : 0 < round.2)
    (hinj : Set.InjOn round.1 (Set.Iio round.2)) :
    ∃ x, signed x = m ∧ karyFill signed limit round = (x, bit (signed x ≤ signed limit)) := by
  unfold karyFill
  split
  · exact ⟨_, least_cell hround ‹_›, rfl⟩
  · obtain ⟨p, hp, hleast, hrank⟩ := exists_rank_zero hsigned (fun x y => decide (x ≤ y))
      lt_iff_of_ne hpos hinj
    have hm : signed (round.1 p) = m := by
      obtain ⟨⟨i, hi, hm⟩, hlower⟩ := hround
      exact le_antisymm (hm ▸ hleast i hi) (hlower ⟨p, hp, rfl⟩)
    have hchosen : ∀ q < round.2,
        (bit (rank signed (fun x y => decide (x ≤ y)) round.1 round.2 q = 0) : R) =
          bit (q = p) := by
      intro q hq
      simp only [bit, hrank q hq]
    have hall : getVector round.1 0 = round.1 := funext fun i => congrArg round.1 (zero_add i)
    rw [hall]
    refine ⟨_, hm, Prod.ext ?_ ?_⟩
    · exact sum_chosen hp hchosen
    · exact sum_chosen hp hchosen

theorem least_key_found (harity : Divides arity (2 ^ k))
    (hkeys : Set.InjOn keys (Set.Iio (2 ^ k))) (limit : R)
    (hleast : IsLeast (signed ∘ keys '' Set.Iio (2 ^ k)) m) :
    ∃ x, signed x = m ∧ argmin signed arity keys (2 ^ k) = x ∧
      argminFill signed arity keys (2 ^ k) limit = (x, bit (signed x ≤ signed limit)) := by
  have hexact := harity.exact hleast
  have hstart := kept_start (Nat.two_pow_pos k) hkeys
  have hkeeps : ∀ {bound level}, 0 < bound → Plays signed (max 2 arity) level →
      Exact signed (max 2 arity) m (whileAbove bound level (2 ^ k) (keys, 2 ^ k)) ∧
      Kept keys (2 ^ k) (whileAbove bound level (2 ^ k) (keys, 2 ^ k)) ∧
      (whileAbove bound level (2 ^ k) (keys, 2 ^ k)).2 ≤ bound := by
    intro bound level hbound hplays
    refine ⟨whileAbove_exact hplays (le_max_left _ _) hbound _ hstart hexact,
      whileAbove_kept hplays (le_max_left _ _) hbound _ hstart,
      whileAbove_le hbound (fun round habove => ?_) le_rfl⟩
    exact (hplays.shrinks (le_max_left _ _) (by omega)).2
  obtain ⟨x, hx, hfill⟩ : ∃ x, signed x = m ∧
      argminFill signed arity keys (2 ^ k) limit = (x, bit (signed x ≤ signed limit)) := by
    unfold argminFill
    split
    · rename_i hsmall
      have hplays : Plays signed (max 2 arity) (binaryLevel signed fun x y => decide (x ≤ y)) := by
        rw [max_eq_left hsmall]
        exact binaryLevel_plays _ lt_iff_of_ne
      obtain ⟨hexact, -, hsize⟩ := hkeeps two_pos hplays
      exact binaryFill_eq limit hexact.least hsize
    · rename_i hlarge
      have hplays : Plays signed (max 2 arity) (karyLevel signed arity) := by
        rw [max_eq_right (not_le.mp hlarge).le]
        exact karyLevel_plays hsigned (by omega)
      obtain ⟨hexact, hkept, -⟩ := hkeeps (zero_lt_of_lt (not_le.mp hlarge)) hplays
      exact karyFill_eq hsigned limit hexact.least hkept.pos hkept.injOn
  obtain ⟨_, hplays, hresult⟩ := argmin_loop signed hsigned arity (2 ^ k) keys
  obtain ⟨hexact, hkept, hsize⟩ := hkeeps one_pos hplays
  have hone := least_cell hexact.least (le_antisymm hsize hkept.pos)
  exact ⟨x, hx, by rw [hresult]; exact hsigned (hone.trans hx.symm), hfill⟩

/-- With any other arity the first level drops the last key, so a least key there is not found. -/
theorem last_key_dropped (harity : ¬ Divides arity (2 ^ k))
    (hkeys : Set.InjOn keys (Set.Iio (2 ^ k))) :
    argmin signed arity keys (2 ^ k) ≠ keys (2 ^ k - 1) := by
  simp only [Divides, not_or, not_le] at harity
  obtain ⟨hlarge, hpower, hmore⟩ := harity
  obtain ⟨level, hplays, hresult⟩ := argmin_loop signed hsigned arity (2 ^ k) keys
  rw [max_eq_right hlarge.le] at hplays
  have hmin : min arity (2 ^ k) = arity := min_eq_left hmore.le
  have hcover : arity * (2 ^ k / arity) ≤ 2 ^ k - 1 := by
    refine le_sub_one_of_lt (lt_of_le_of_ne (mul_div_le _ _) fun hall => hpower ?_)
    obtain ⟨j, -, hj⟩ := (dvd_prime_pow prime_two).mp ⟨_, hall.symm⟩
    exact ⟨j, hj⟩
  obtain ⟨fuel, hfuel⟩ := Nat.exists_eq_succ_of_ne_zero (Nat.two_pow_pos k).ne'
  have hkept : Kept keys (2 ^ k - 1) (whileAbove 1 level fuel (level (keys, 2 ^ k))) := by
    refine whileAbove_kept hplays (by omega) one_pos fuel ?_
    refine hplays.kept (by omega) (by omega) hkeys fun i hi => ⟨i, ?_, rfl⟩
    rw [hmin] at hi
    exact lt_of_lt_of_le hi hcover
  obtain ⟨j, hj, hcell⟩ := hkept.held 0 hkept.pos
  have hrun : argmin signed arity keys (2 ^ k) = keys j := by
    have hloop : whileAbove 1 level (2 ^ k) (keys, 2 ^ k) =
        whileAbove 1 level fuel (level (keys, 2 ^ k)) := by
      nth_rewrite 1 [hfuel]
      rw [whileAbove, if_pos (by omega)]
    rw [hresult, hloop, hcell]
  rw [hrun]
  intro heq
  exact hj.ne (hkeys (by rw [Set.mem_Iio]; omega) (by rw [Set.mem_Iio]; omega) heq)

end

theorem exists_isLeast {f : ℕ → ℤ} (hn : 0 < n) : ∃ m, IsLeast (f '' Set.Iio n) m := by
  obtain ⟨i, hi, hleast⟩ := exists_min_image (range n) f ⟨0, mem_range.mpr hn⟩
  refine ⟨f i, ⟨i, mem_range.mp hi, rfl⟩, ?_⟩
  rintro _ ⟨j, hj, rfl⟩
  exact hleast j (mem_range.mpr hj)

theorem packKey_div (cost : ℕ → ℤ) (hi : i < makers) :
    packKey makers cost i / makers = cost i ∧ packKey makers cost i % makers = i := by
  have hpos : (0 : ℤ) < makers := by omega
  have hdigit : (i : ℤ) / makers = 0 ∧ (i : ℤ) % makers = i :=
    ⟨Int.ediv_eq_zero_of_lt (by omega) (by omega), Int.emod_eq_of_lt (by omega) (by omega)⟩
  rw [packKey, add_comm, Int.add_mul_ediv_right _ _ hpos.ne', Int.add_mul_emod_self_right,
    hdigit.1, hdigit.2, zero_add]
  exact ⟨rfl, rfl⟩

theorem packKey_injOn (cost : ℕ → ℤ) (makers : ℕ) :
    Set.InjOn (packKey makers cost) (Set.Iio makers) := by
  intro i hi j hj heq
  have hdigit := (packKey_div cost hi).2
  rw [heq, (packKey_div cost hj).2] at hdigit
  exact_mod_cast hdigit.symm

/-- For a power of two of makers the circuit's tournaments are correct exactly if the arity is at
most two, a power of two or at least the number of makers: then, for different keys, the result is
the least key, the fill bit says whether it is within the limit, and for packed keys it says whether
the winning cost, which is the least one, is within the limit. -/
theorem tournament_exact_iff (k arity : ℕ) :
    ((∀ (keys : ℕ → ℤ) (limit : ℤ), Set.InjOn keys (Set.Iio (2 ^ k)) →
        IsLeast (keys '' Set.Iio (2 ^ k)) (argmin id arity keys (2 ^ k)) ∧
        argminFill id arity keys (2 ^ k) limit = (argmin id arity keys (2 ^ k),
          if argmin id arity keys (2 ^ k) ≤ limit then 1 else 0)) ∧
      ∀ (cost : ℕ → ℤ) (limit : ℤ),
        let result := argminFill id arity (packKey (2 ^ k) cost) (2 ^ k) (limitKey (2 ^ k) limit)
        IsLeast (cost '' Set.Iio (2 ^ k)) (result.1 / 2 ^ k) ∧
          (result.2 = 1 ↔ result.1 / 2 ^ k ≤ limit)) ↔
    arity ≤ 2 ∨ (∃ j, arity = 2 ^ j) ∨ 2 ^ k ≤ arity := by
  constructor
  · rintro ⟨h, -⟩
    by_contra hdrops
    -- decreasing keys have their least one in the last cell
    have hkeys : Set.InjOn (fun i : ℕ => -(i : ℤ)) (Set.Iio (2 ^ k)) := by
      intro i _ j _ heq
      exact_mod_cast neg_injective heq
    obtain ⟨⟨⟨i, hi, hresult⟩, hleast⟩, -⟩ := h _ 0 hkeys
    have hpos := Nat.two_pow_pos k
    have hlast : (2 ^ k - 1 : ℕ) ∈ Set.Iio (2 ^ k) := by rw [Set.mem_Iio]; omega
    have hle := hleast ⟨_, hlast, rfl⟩
    refine last_key_dropped Function.injective_id hdrops hkeys ?_
    rw [Set.mem_Iio] at hi
    simp only [← hresult] at hle ⊢
    omega
  · intro harity
    have hfound : ∀ (keys : ℕ → ℤ) (limit : ℤ), Set.InjOn keys (Set.Iio (2 ^ k)) →
        IsLeast (keys '' Set.Iio (2 ^ k)) (argmin id arity keys (2 ^ k)) ∧
        argminFill id arity keys (2 ^ k) limit = (argmin id arity keys (2 ^ k),
          if argmin id arity keys (2 ^ k) ≤ limit then 1 else 0) := by
      intro keys limit hkeys
      obtain ⟨m, hleast⟩ := exists_isLeast (Nat.two_pow_pos k)
      obtain ⟨x, rfl, hargmin, hfill⟩ :=
        least_key_found Function.injective_id harity hkeys limit hleast
      rw [hargmin]
      exact ⟨hleast, hfill⟩
    refine ⟨hfound, fun cost limit => ?_⟩
    have hpos : (0 : ℤ) < 2 ^ k := by positivity
    obtain ⟨⟨⟨i, hi, hkey⟩, hlower⟩, hfill⟩ :=
      hfound _ (limitKey (2 ^ k) limit) (packKey_injOn cost (2 ^ k))
    have hdiv : ∀ j < 2 ^ k, packKey (2 ^ k) cost j / 2 ^ k = cost j := fun j hj => by
      exact_mod_cast (packKey_div cost hj).1
    simp only [hfill, ← hkey, hdiv i hi] at hlower ⊢
    refine ⟨⟨⟨i, hi, rfl⟩, ?_⟩, ?_⟩
    · rintro _ ⟨j, hj, rfl⟩
      rw [← hdiv i hi, ← hdiv j hj]
      exact Int.ediv_le_ediv hpos (hlower ⟨j, hj, rfl⟩)
    · -- a key is within the limit's largest key exactly if its cost is within the limit
      have hcost : packKey (2 ^ k) cost i ≤ limitKey (2 ^ k) limit ↔ cost i ≤ limit := by
        rw [← hdiv i hi, ← Int.lt_add_one_iff, ← Int.lt_add_one_iff, Int.ediv_lt_iff_lt_mul hpos,
          limitKey, add_mul, one_mul]
        push_cast
        rw [add_assoc, sub_add_cancel]
      rw [← hcost]
      split
      · exact iff_of_true rfl ‹_›
      · exact iff_of_false (by omega) ‹_›

theorem arity_three_drops_least :
    argmin id 3 (fun i => 3 - (i : ℤ)) 4 = 1 ∧ 3 - ((3 : ℕ) : ℤ) = 0 := by
  decide

end Zkpi.TournamentCircuit
