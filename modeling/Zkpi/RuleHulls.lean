import Zkpi.IntervalBounds
import Zkpi.RuleAnalysis

/-!
# The hulls of price rules

Propagating the declared bounds over the exact integers gives each expression a hull. The checker
computes hulls, as long as the numbers it comes across fit the machine; a build with overflow
checks accepts no rule for which one of them does not.
-/

namespace Zkpi.RuleHulls

open FallibleChecks MachineArithmetic IntervalBounds RuleSyntax RuleAnalysis
open Std (TreeMap)

/-! ## Hulls -/

def bounds (interval : Interval) : Bounds ℤ := ⟨interval.lo.val, interval.hi.val⟩

def declaredBounds (declarations : TreeMap String Declaration) (name : String) : Bounds ℤ :=
  (declarations[name]?).elim ⟨0, 0⟩ fun declaration => bounds declaration.interval

def callHull : String → List (Bounds ℤ) → Bounds ℤ
  | "min", [a, b] => a.minimum b
  | "max", [a, b] => a.maximum b
  | "clamp", [_, lo, hi] => ⟨lo.lo, hi.hi⟩
  | "signed", [_, magnitude] => .symmetric magnitude.hi
  | _, _ => ⟨0, 0⟩

mutual

def hull (declarations : TreeMap String Declaration) : Expr → Bounds ℤ
  | .const value => .point value.val
  | .name name => declaredBounds declarations name
  | .neg inner => (hull declarations inner).negated
  | .add left right => (hull declarations left).plus (hull declarations right)
  | .sub left right => (hull declarations left).minus (hull declarations right)
  | .mul left right => (hull declarations left).times (hull declarations right)
  | .compare _ _ _ => .condition
  | .and _ => .condition
  | .call name args => callHull name (hullAll declarations args)

def hullAll (declarations : TreeMap String Declaration) : List Expr → List (Bounds ℤ)
  | [] => []
  | expr :: rest => hull declarations expr :: hullAll declarations rest

end

/-! ## The numbers the checker comes across -/

def both (bounds : Bounds ℤ) : List ℤ := [bounds.lo, bounds.hi]

def comparisonNumbers (op : Cmp) (left right : Bounds ℤ) : List ℤ :=
  if op = .eq ∨ op = .ne then []
  else
    let difference := if op = .gt ∨ op = .ge then left.minus right else right.minus left
    both difference ++ both (difference.minus (.point 1))

def callNumbers : String → List (Bounds ℤ) → List ℤ
  | "min", [a, b] => both (a.minus b)
  | "max", [a, b] => both (a.minus b)
  | "clamp", [value, lo, hi] => both (value.minus lo) ++ both (hi.minus value)
  | "signed", [_, magnitude] => [-magnitude.hi]
  | _, _ => []

/-! ## The differences that range proofs are about -/

/-- The difference whose sign decides a comparison for order, and the numbers whose signs decide it
strictly and the other way. -/
def comparisonDifferences (op : Cmp) (x y : ℤ) : List (List ℤ) :=
  if op = .eq ∨ op = .ne then []
  else
    let difference := if op = .gt ∨ op = .ge then x - y else y - x
    [[difference, difference - 1, -difference - 1]]

def callDifferences : String → List ℤ → List (List ℤ)
  | "min", [x, y] => [[x - y]]
  | "max", [x, y] => [[x - y]]
  | "clamp", [value, lo, hi] => [[value - lo], [hi - value]]
  | _, _ => []

/-- There is a range proof for each difference, of a width for its magnitude. -/
def RangesWide (obligations : List Obligation) (differences : List (List ℤ)) : Prop :=
  List.Forall₂ (fun range decided => ∀ d ∈ decided, |d| < 2 ^ (range.bits - 1))
    (obligations.filter (·.kind = .range)) differences

mutual

def numbers (declarations : TreeMap String Declaration) : Expr → List ℤ
  | .const _ => []
  | .name _ => []
  | .neg inner => numbers declarations inner ++ both (hull declarations inner).negated
  | .add left right => numbers declarations left ++ (numbers declarations right ++
      both ((hull declarations left).plus (hull declarations right)))
  | .sub left right => numbers declarations left ++ (numbers declarations right ++
      both ((hull declarations left).minus (hull declarations right)))
  | .mul left right => numbers declarations left ++ (numbers declarations right ++
      [(hull declarations left).lo * (hull declarations right).lo,
        (hull declarations left).lo * (hull declarations right).hi,
        (hull declarations left).hi * (hull declarations right).lo,
        (hull declarations left).hi * (hull declarations right).hi])
  | .compare left op right => numbers declarations left ++ (numbers declarations right ++
      comparisonNumbers op (hull declarations left) (hull declarations right))
  | .and parts => numbersAll declarations parts
  | .call name args => numbersAll declarations args ++
      callNumbers name (hullAll declarations args)

def numbersAll (declarations : TreeMap String Declaration) : List Expr → List ℤ
  | [] => []
  | expr :: rest => numbers declarations expr ++ numbersAll declarations rest

end

/-! ## Magnitudes -/

/-- The magnitude of a sign change reaches at least as far up as down. -/
def callBalanced : String → List (Bounds ℤ) → Bool
  | "signed", [_, magnitude] => -magnitude.hi ≤ magnitude.lo
  | _, _ => true

mutual

def balanced (declarations : TreeMap String Declaration) : Expr → Bool
  | .const _ | .name _ => true
  | .neg inner => balanced declarations inner
  | .add left right | .sub left right | .mul left right | .compare left _ right =>
    balanced declarations left && balanced declarations right
  | .and parts => balancedAll declarations parts
  | .call name args =>
    balancedAll declarations args && callBalanced name (hullAll declarations args)

def balancedAll (declarations : TreeMap String Declaration) : List Expr → Bool
  | [] => true
  | expr :: rest => balanced declarations expr && balancedAll declarations rest

end

/-! ## The checker computes hulls -/

section Computes

variable {machine : Machine} {label : String}

theorem computes_ofNumbers {lo hi : ℤ} :
    Computes 127 machine (fun machine => Interval.ofNumbers machine lo hi) [lo, hi]
      (fun interval => bounds interval = ⟨lo, hi⟩) :=
  .bind (.number lo) fun low hlow => .last (.number hi) fun high hhigh => by
    simp only [bounds, hlow, hhigh]

variable {first : Interval} {p : Bounds ℤ}

section

variable (hfirst : bounds first = p)

include hfirst

theorem computes_plus (hsecond : bounds second = q) :
    Computes 127 machine (fun machine => first.plus machine second) (both (p.plus q))
      (fun interval => bounds interval = p.plus q) := by
  subst hfirst hsecond
  exact computes_ofNumbers

theorem computes_minus (hsecond : bounds second = q) :
    Computes 127 machine (fun machine => first.minus machine second) (both (p.minus q))
      (fun interval => bounds interval = p.minus q) := by
  subst hfirst hsecond
  exact computes_ofNumbers

theorem computes_negated :
    Computes 127 machine (fun machine => first.negated machine) (both p.negated)
      (fun interval => bounds interval = p.negated) := by
  subst hfirst
  exact computes_ofNumbers

theorem computes_times (hsecond : bounds second = q) :
    Computes 127 machine (fun machine => first.times machine second)
      [p.lo * q.lo, p.lo * q.hi, p.hi * q.lo, p.hi * q.hi]
      (fun interval => bounds interval = p.times q) := by
  subst hfirst hsecond
  refine .bind (.number _) fun a ha => .bind (.number _) fun b hb =>
    .bind (.number _) fun c hc => .last (.number _) fun d hd => ?_
  simp only [bounds, Bounds.times, val_least, val_largest, ha, hb, hc, hd]

end

theorem computes_refuseIf {A : Type} {condition : Prop} [Decidable condition] {stop : Stop}
    {rest : Machine → Except Stop A} {numbers : List ℤ} {Post : A → Prop}
    (h : ¬ condition → Computes 127 machine rest numbers Post) :
    Computes 127 machine (fun machine => refuseIf condition stop >>= fun _ => rest machine)
      numbers Post := by
  by_cases hcondition : condition
  · simp only [refuseIf, if_pos hcondition]
    exact .error
  · simp only [refuseIf, if_neg hcondition]
    exact h hcondition

theorem abs_lt_widthBits
    (h : (bounds interval).Contains value) : |value| < 2 ^ (interval.widthBits - 1) := by
  have hlow : interval.lo.val ≤ value := h.1
  have hhigh : value ≤ interval.hi.val := h.2
  have hsize : max interval.lo.val.natAbs interval.hi.val.natAbs <
      2 ^ (interval.widthBits - 1) := by
    refine (Nat.lt_size_self _).trans_le (Nat.pow_le_pow_right (by decide) ?_)
    unfold Interval.widthBits
    omega
  have hpower : ((2 ^ (interval.widthBits - 1) : ℕ) : ℤ) = 2 ^ (interval.widthBits - 1) := by
    push_cast
    rfl
  rw [← hpower, abs_lt]
  omega

theorem wide_strict {difference : Bounds ℤ} (h : bounds first = difference.minus (.point 1))
    (hd : difference.Contains d) :
    ∀ x ∈ [d, d - 1, -d - 1], |x| < 2 ^ (first.widthBits + 1 - 1) := by
  have hcontained : (bounds first).Contains (d - 1) := by
    rw [h]
    exact Bounds.contains_minus hd Bounds.contains_point
  obtain ⟨hlow, hhigh⟩ := abs_lt.mp (abs_lt_widthBits hcontained)
  obtain ⟨k, hk⟩ := Nat.exists_eq_add_of_le' (show 2 ≤ first.widthBits from le_max_right _ _)
  have hpos : (0 : ℤ) < 2 ^ k := by positivity
  simp only [hk, Nat.add_sub_cancel, Nat.add_succ_sub_one, pow_succ, List.mem_cons,
    List.not_mem_nil, or_false, forall_eq_or_imp, forall_eq, abs_lt] at hlow hhigh ⊢
  omega

theorem wide_minus (h : bounds first = p.minus q) (hx : p.Contains x)
    (hy : q.Contains y) : ∀ d ∈ [x - y], |d| < 2 ^ (first.widthBits - 1) :=
  List.forall_mem_singleton.mpr (abs_lt_widthBits (h ▸ Bounds.contains_minus hx hy))

theorem computes_comparisonObligations (node : Expr) (op : Cmp) (hfirst : bounds first = p)
    (hsecond : bounds second = q) :
    Computes 127 machine
      (fun machine => comparisonObligations machine label node op first second)
      (comparisonNumbers op p q) (fun own => ∀ x y, p.Contains x → q.Contains y →
        RangesWide own (comparisonDifferences op x y)) := by
  unfold comparisonObligations comparisonNumbers comparisonDifferences
  by_cases heq : op = .eq ∨ op = .ne
  · simp only [if_pos heq]
    exact .pure fun _ _ _ _ => .nil
  · simp only [if_neg heq]
    by_cases hgt : op = .gt ∨ op = .ge
    · simp only [if_pos hgt]
      exact .bind (computes_minus hfirst hsecond) fun difference hdifference =>
        .last (computes_minus hdifference rfl) fun _ hstrict _ _ hx hy =>
          .cons (wide_strict hstrict (Bounds.contains_minus hx hy)) .nil
    · simp only [if_neg hgt]
      exact .bind (computes_minus hsecond hfirst) fun difference hdifference =>
        .last (computes_minus hdifference rfl) fun _ hstrict _ _ hx hy =>
          .cons (wide_strict hstrict (Bounds.contains_minus hy hx)) .nil

def partHulls (parts : List Analysis) : List (Bounds ℤ) :=
  parts.map fun part => bounds part.interval

/-- The interval of a call, and the widths of the range proofs it notes for arguments in theirs. -/
def CallSound (name : String) (parts : List Analysis) (result : Interval × ℕ × List Obligation) :
    Prop :=
  bounds result.1 = callHull name (partHulls parts) ∧
    ∀ values, List.Forall₂ Bounds.Contains (partHulls parts) values →
      RangesWide result.2.2 (callDifferences name values)

section Lists

variable {A B : Type}

theorem forall₂_pair (h : List.Forall₂ related [a, b] others) :
    ∃ x y, related a x ∧ related b y ∧ others = [x, y] := by
  cases h with
  | cons hx hrest =>
    cases hrest with
    | cons hy hnil =>
      cases hnil
      exact ⟨_, _, hx, hy, rfl⟩

theorem forall₂_triple (h : List.Forall₂ related [a, b, c] others) :
    ∃ x y z, related a x ∧ related b y ∧ related c z ∧ others = [x, y, z] := by
  cases h with
  | cons hx hrest =>
    obtain ⟨y, z, hy, hz, rfl⟩ := forall₂_pair hrest
    exact ⟨_, y, z, hx, hy, hz, rfl⟩

end Lists

theorem computes_new {lo hi : I128} :
    Computes 127 machine (fun _ => Interval.new lo hi) []
      (fun interval => bounds interval = ⟨lo.val, hi.val⟩) := by
  refine .const fun interval h => ?_
  unfold Interval.new at h
  split at h
  · cases h
  · cases h
    rfl

theorem computes_min (name : String) (hname : name = "min" ∨ name = "max") (parts : List Analysis) :
    Computes 127 machine (fun machine => analyseCall machine label name parts)
      (callNumbers name (partHulls parts))
      (CallSound name parts) := by
  obtain rfl | rfl := hname
  · match parts with
    | [] | [_] | _ :: _ :: _ :: _ => exact .error
    | [a, b] =>
      refine .last (computes_minus rfl rfl) fun _ hdifference => ⟨?_, fun _ hvalues => ?_⟩
      · simp only [bounds, if_true, val_least]
        rfl
      · obtain ⟨x, y, hx, hy, rfl⟩ := forall₂_pair hvalues
        exact .cons (wide_minus hdifference hx hy) .nil
  · match parts with
    | [] | [_] | _ :: _ :: _ :: _ => exact .error
    | [a, b] =>
      refine .last (computes_minus rfl rfl) fun _ hdifference => ⟨?_, fun _ hvalues => ?_⟩
      · simp only [bounds, val_largest, String.reduceEq, if_false]
        rfl
      · obtain ⟨x, y, hx, hy, rfl⟩ := forall₂_pair hvalues
        exact .cons (wide_minus hdifference hx hy) .nil

theorem computes_clamp {parts : List Analysis} :
    Computes 127 machine (fun machine => analyseCall machine label "clamp" parts)
      (callNumbers "clamp" (partHulls parts))
      (CallSound "clamp" parts) := by
  match parts with
  | [] | [_] | [_, _] | _ :: _ :: _ :: _ :: _ => exact .error
  | [value, lo, hi] =>
    refine computes_refuseIf fun _ => ?_
    refine .bind (computes_minus rfl rfl) fun _ hbelow => ?_
    refine (Computes.bind (computes_minus rfl rfl) fun _ habove =>
      .last computes_new fun _ hinterval =>
        ⟨hinterval, fun _ hvalues => ?_⟩).congr fun x => ?_
    · rw [List.append_nil]
    · obtain ⟨x, _, _, hx, hlow, hhigh, rfl⟩ := forall₂_triple hvalues
      exact .cons (wide_minus hbelow hx hlow) (.cons (wide_minus habove hhigh hx) .nil)

theorem computes_signed {parts : List Analysis} :
    Computes 127 machine (fun machine => analyseCall machine label "signed" parts)
      (callNumbers "signed" (partHulls parts))
      (CallSound "signed" parts) := by
  match parts with
  | [] | [_] | _ :: _ :: _ :: _ => exact .error
  | [side, magnitude] =>
    refine computes_refuseIf fun _ => ?_
    refine (Computes.bind (.number (-magnitude.interval.hi.val)) fun lo hlo =>
      .last computes_new fun interval hinterval =>
        ⟨?_, fun _ hvalues => ?_⟩).congr fun x => Iff.rfl
    · rw [hinterval, hlo]
      rfl
    · obtain ⟨_, _, _, _, rfl⟩ := forall₂_pair hvalues
      exact .nil

theorem computes_analyseCall (name : String) (parts : List Analysis) :
    Computes 127 machine (fun machine => analyseCall machine label name parts)
      (callNumbers name (partHulls parts))
      (CallSound name parts) := by
  unfold analyseCall
  split
  · exact computes_min "min" (.inl rfl) parts
  · exact computes_min "max" (.inr rfl) parts
  · exact computes_clamp
  · exact computes_signed
  · -- No other function can be called.
    exact .error

theorem computes_visitAll (h : ∀ arg ∈ args, Computes 127 machine
      (fun machine => visit unicode machine declarations label arg) (numbers declarations arg)
      (fun analysis => bounds analysis.interval = hull declarations arg)) :
    Computes 127 machine (fun machine => visitAll unicode machine declarations label args)
      (numbersAll declarations args)
      (fun parts => partHulls parts = hullAll declarations args) := by
  induction args with
  | nil => exact .pure rfl
  | cons arg rest ih =>
    obtain ⟨harg, hrest⟩ := List.forall_mem_cons.mp h
    simp only [visitAll, numbersAll]
    refine .bind harg fun first hfirst => .last (ih hrest) fun others hothers => ?_
    simp only [partHulls, List.map_cons, hullAll, hfirst]
    exact congrArg _ hothers

theorem computes_visitConditions {parts : List Expr}
    (h : ∀ part ∈ parts, Computes 127 machine
      (fun machine => visit unicode machine declarations label part) (numbers declarations part)
      (fun analysis => bounds analysis.interval = hull declarations part)) :
    Computes 127 machine (fun machine => visitConditions unicode machine declarations label parts)
      (numbersAll declarations parts) (fun _ => True) := by
  induction parts with
  | nil => exact .pure trivial
  | cons part rest ih =>
    obtain ⟨hpart, hrest⟩ := List.forall_mem_cons.mp h
    simp only [visitConditions, numbersAll]
    exact .bind hpart fun first _ => computes_refuseIf fun _ =>
      .last (ih hrest) fun _ _ => trivial

theorem computes_visit (expr : Expr) :
    Computes 127 machine (fun machine => visit unicode machine declarations label expr)
      (numbers declarations expr)
      (fun analysis => bounds analysis.interval = hull declarations expr) := by
  induction expr using Expr.induction with
  | const =>
    simp only [visit, numbers, hull]
    exact .pure rfl
  | name =>
    simp only [visit, numbers, hull]
    refine .const fun analysis h => ?_
    obtain ⟨_, h⟩ := refuseIf_bind_ok.mp h
    obtain ⟨_, hdeclaration, h⟩ := bind_ok.mp h
    cases h
    rw [declaredBounds, orRefuse_ok.mp hdeclaration]
    rfl
  | neg inner ih =>
    simp only [visit, numbers, hull]
    exact .bind ih fun inner hinner => .last (computes_negated hinner) fun _ h => h
  | add left right ihl ihr =>
    simp only [visit, numbers, hull]
    exact .bind ihl fun l hl => .bind ihr fun r hr => .last (computes_plus hl hr) fun _ h => h
  | sub left right ihl ihr =>
    simp only [visit, numbers, hull]
    exact .bind ihl fun l hl => .bind ihr fun r hr => .last (computes_minus hl hr) fun _ h => h
  | mul left right ihl ihr =>
    simp only [visit, numbers, hull]
    exact .bind ihl fun l hl => .bind ihr fun r hr => computes_refuseIf fun _ =>
      .last (computes_times hl hr) fun _ h => h
  | compare left op right ihl ihr =>
    simp only [visit, numbers, hull]
    exact .bind ihl fun l hl => .bind ihr fun r hr =>
      .last (computes_comparisonObligations _ op hl hr) fun _ _ => rfl
  | and parts ih =>
    simp only [visit, numbers, hull]
    exact .last (computes_visitConditions ih) fun _ _ => rfl
  | call name args ih =>
    simp only [visit, numbers, hull]
    refine computes_refuseIf fun _ => .bind (computes_visitAll ih) fun parts hparts => ?_
    rw [← hparts]
    exact .last (computes_analyseCall name parts) fun _ h => h.1

end Computes

end Zkpi.RuleHulls
