import Zkpi.RuleHulls

/-!
# The widths a price rule needs

A value of an expression lies in its hull, with one exception: the checker takes the opposite of a
magnitude to lie between minus its upper bound and its upper bound, which is so only if its lower
bound is not below minus the upper one. So, for rules without such magnitudes whose bounds fit the
machine, every output fits the width that the checker derives.
-/

namespace Zkpi.RuleWidths

open FallibleChecks MachineArithmetic IntervalBounds RuleSyntax RuleAnalysis RuleHulls List Bounds
open Std (TreeMap)

/-! ## Values lie in hulls -/

def Binds (declarations : TreeMap String Declaration) (bindings : TreeMap String I128) : Prop :=
  ∀ (name : String) (declaration : Declaration), declarations[name]? = some declaration →
    ∃ value : I128, bindings[name]? = some value ∧ (bounds declaration.interval).Contains value.val

def AllFit (numbers : List ℤ) : Prop := ∀ x ∈ numbers, Fits 127 x

theorem allFit_append : AllFit (first ++ second) ↔ AllFit first ∧ AllFit second :=
  forall_mem_append

theorem allFit_both {range : Bounds ℤ} :
    AllFit (both range) ↔ Fits 127 range.lo ∧ Fits 127 range.hi := by
  simp [AllFit, both]

theorem fits_min (ha : Fits 127 a) (hb : Fits 127 b) : Fits 127 (min a b) := by
  obtain h | h := min_choice a b <;> rw [h] <;> assumption

theorem fits_max (ha : Fits 127 a) (hb : Fits 127 b) : Fits 127 (max a b) := by
  obtain h | h := max_choice a b <;> rw [h] <;> assumption

/-- An expression has a value between bounds, the same on every build and over the exact
integers. -/
structure Has (bindings : TreeMap String I128) (expr : Expr) (range : Bounds ℤ) (value : I128) :
    Prop where
  machine : ∀ machine, eval (machineArithmetic machine) bindings expr = .ok value
  exact : eval exactArithmetic bindings expr = .ok value.val
  contained : range.Contains value.val

section Values

variable {bindings : TreeMap String I128} {expr : Expr} {range : Bounds ℤ}

theorem has_number
    (hmachine : ∀ machine, eval (machineArithmetic machine) bindings expr = machine.number x)
    (hexact : eval exactArithmetic bindings expr = .ok x) (hcontained : range.Contains x)
    (hfits : AllFit (both range)) : ∃ value, Has bindings expr range value := by
  obtain ⟨hlo, hhi⟩ := allFit_both.mp hfits
  have hx : Fits 127 x := hlo.between hhi hcontained
  refine ⟨⟨x, hx⟩, fun machine => ?_, hexact, hcontained⟩
  rw [hmachine, machine.number_of_fits hx]

theorem has_neg (h : Has bindings expr p l) (hfits : AllFit (both p.negated)) :
    ∃ value, Has bindings (.neg expr) p.negated value := by
  refine has_number (x := -l.val) (fun machine => ?_) ?_
    (contains_negated h.contained) hfits
  · rw [eval, h.machine]
    rfl
  · rw [eval, h.exact]
    rfl

theorem has_add (hl : Has bindings left p l) (hr : Has bindings right q r)
    (hfits : AllFit (both (p.plus q))) :
    ∃ value, Has bindings (.add left right) (p.plus q) value := by
  refine has_number (x := l.val + r.val) (fun machine => ?_) ?_
    (contains_plus hl.contained hr.contained) hfits
  · rw [eval, hl.machine, hr.machine]
    rfl
  · rw [eval, hl.exact, hr.exact]
    rfl

theorem has_sub (hl : Has bindings left p l) (hr : Has bindings right q r)
    (hfits : AllFit (both (p.minus q))) :
    ∃ value, Has bindings (.sub left right) (p.minus q) value := by
  refine has_number (x := l.val - r.val) (fun machine => ?_) ?_
    (contains_minus hl.contained hr.contained) hfits
  · rw [eval, hl.machine, hr.machine]
    rfl
  · rw [eval, hl.exact, hr.exact]
    rfl

theorem has_mul (hl : Has bindings left p l) (hr : Has bindings right q r)
    (hfits : AllFit [p.lo * q.lo, p.lo * q.hi, p.hi * q.lo, p.hi * q.hi]) :
    ∃ value, Has bindings (.mul left right) (p.times q) value := by
  simp only [AllFit, mem_cons, not_mem_nil, or_false, forall_eq_or_imp, forall_eq] at hfits
  obtain ⟨ha, hb, hc, hd⟩ := hfits
  refine has_number (x := l.val * r.val) (fun machine => ?_) ?_
    (contains_times hl.contained hr.contained) (allFit_both.mpr ⟨?_, ?_⟩)
  · rw [eval, hl.machine, hr.machine]
    rfl
  · rw [eval, hl.exact, hr.exact]
    rfl
  · exact fits_min (fits_min (fits_min ha hb) hc) hd
  · exact fits_max (fits_max (fits_max ha hb) hc) hd

theorem contains_bit (flag : Bool) :
    (condition : Bounds ℤ).Contains (if flag then one else zero : I128).val := by
  cases flag <;> decide

theorem has_compare {op : Cmp} (hl : Has bindings left p l) (hr : Has bindings right q r) :
    ∃ value, Has bindings (.compare left op right) .condition value := by
  refine ⟨if Cmp.holds op l.val r.val then one else zero, fun machine => ?_, ?_, contains_bit _⟩
  · rw [eval, hl.machine, hr.machine]
    rfl
  · rw [eval, hl.exact, hr.exact]
    rfl

variable {value : I128}

theorem bit_of_contains (h : (condition : Bounds ℤ).Contains value.val) :
    value = zero ∨ value = one := by
  obtain ⟨hlow, hhigh⟩ := h
  change (0 : ℤ) ≤ value.val at hlow
  change value.val ≤ 1 at hhigh
  obtain h | h : value.val = 0 ∨ value.val = 1 := by omega
  · exact .inl (Subtype.ext h)
  · exact .inr (Subtype.ext h)

theorem has_conditions
    (h : ∀ part ∈ parts, ∃ value, Has bindings part .condition value) (all : I128)
    (hall : (condition : Bounds ℤ).Contains all.val) :
    ∃ value : I128, (∀ machine, evalConditions (machineArithmetic machine) bindings all parts =
        .ok value) ∧
      evalConditions exactArithmetic bindings all.val parts = .ok value.val ∧
      (condition : Bounds ℤ).Contains value.val := by
  induction parts generalizing all with
  | nil => exact ⟨all, fun _ => rfl, rfl, hall⟩
  | cons part rest ih =>
    obtain ⟨⟨v, hv⟩, hrest⟩ := forall_mem_cons.mp h
    have hand : (bitAnd all v).val = Int.land all.val v.val ∧
        (condition : Bounds ℤ).Contains (bitAnd all v).val := by
      obtain rfl | rfl := bit_of_contains hall <;>
        obtain rfl | rfl := bit_of_contains hv.contained <;> decide
    obtain ⟨value, hmachine, hexact, hcontained⟩ := ih hrest (bitAnd all v) hand.2
    refine ⟨value, fun machine => ?_, ?_, hcontained⟩
    · rw [evalConditions, hv.machine]
      exact hmachine machine
    · rw [evalConditions, hv.exact]
      rw [hand.1] at hexact
      exact hexact

structure HasAll (bindings : TreeMap String I128) (args : List Expr) (ranges : List (Bounds ℤ))
    (values : List I128) : Prop where
  machine : ∀ machine, evalAll (machineArithmetic machine) bindings args = .ok values
  exact : evalAll exactArithmetic bindings args = .ok (values.map (·.val))
  contained : List.Forall₂ (fun (range : Bounds ℤ) (value : I128) => range.Contains value.val)
    ranges values

variable {args : List Expr}

theorem hasAll {declarations : TreeMap String Declaration}
    (h : ∀ arg ∈ args, ∃ value, Has bindings arg (hull declarations arg) value) :
    ∃ values, HasAll bindings args (hullAll declarations args) values := by
  induction args with
  | nil => exact ⟨[], fun _ => rfl, rfl, .nil⟩
  | cons arg rest ih =>
    obtain ⟨⟨value, hvalue⟩, hrest⟩ := forall_mem_cons.mp h
    obtain ⟨values, hvalues⟩ := ih hrest
    refine ⟨value :: values, fun machine => ?_, ?_, .cons hvalue.contained hvalues.contained⟩
    · rw [evalAll, hvalue.machine, hvalues.machine]
      rfl
    · rw [evalAll, hvalue.exact, hvalues.exact]
      rfl

variable {name : String}

theorem has_evalCall {ranges : List (Bounds ℤ)} {values : List I128}
    (h : HasAll bindings args ranges values)
    (hmachine : ∀ machine, evalCall (machineArithmetic machine) name values = .ok value)
    (hexact : evalCall exactArithmetic name (values.map (·.val)) = .ok value.val)
    (hcontained : range.Contains value.val) : Has bindings (.call name args) range value := by
  refine ⟨fun machine => ?_, ?_, hcontained⟩
  · rw [eval, h.machine]
    exact hmachine machine
  · rw [eval, h.exact]
    exact hexact

variable {machine : Machine} {label : String} {args : List Expr} {parts : List Analysis}
  {values : List I128}

theorem constant_of_contains {interval : Interval} (hconstant : interval.lo = interval.hi)
    (h : (bounds interval).Contains value.val) :
    value = interval.lo := by
  apply Subtype.ext
  apply le_antisymm
  · rw [hconstant]
    exact h.2
  · exact h.1

section

variable (h : HasAll bindings args (partHulls parts) values)

include h

theorem has_min (hcall : analyseCall machine label "min" parts = .ok result) :
    ∃ value, Has bindings (.call "min" args) (callHull "min" (partHulls parts)) value := by
  match parts with
  | [] | [_] | _ :: _ :: _ :: _ => cases hcall
  | [a, b] =>
    obtain ⟨x, y, hx, hy, rfl⟩ := forall₂_pair h.contained
    have hvalue : (if y.val < x.val then y else x).val = min x.val y.val := by
      split <;> omega
    refine ⟨if y.val < x.val then y else x, has_evalCall h (fun _ => rfl)
      (congrArg Except.ok (apply_ite Subtype.val _ _ _).symm) ?_⟩
    rw [hvalue]
    exact contains_minimum hx hy

theorem has_max (hcall : analyseCall machine label "max" parts = .ok result) :
    ∃ value, Has bindings (.call "max" args) (callHull "max" (partHulls parts)) value := by
  match parts with
  | [] | [_] | _ :: _ :: _ :: _ => cases hcall
  | [a, b] =>
    obtain ⟨x, y, hx, hy, rfl⟩ := forall₂_pair h.contained
    have hvalue : (if y.val < x.val then x else y).val = max x.val y.val := by
      split <;> omega
    refine ⟨if y.val < x.val then x else y, has_evalCall h (fun _ => rfl)
      (congrArg Except.ok (apply_ite Subtype.val _ _ _).symm) ?_⟩
    rw [hvalue]
    exact contains_maximum hx hy

theorem has_clamp (hcall : analyseCall machine label "clamp" parts = .ok result) :
    ∃ value, Has bindings (.call "clamp" args) (callHull "clamp" (partHulls parts)) value := by
  match parts with
  | [] | [_] | [_, _] | _ :: _ :: _ :: _ :: _ => cases hcall
  | [value, lo, hi] =>
    obtain ⟨x, low, high, hx, hlow, hhigh, rfl⟩ := forall₂_triple h.contained
    obtain ⟨hconstant, hcall⟩ := refuseIf_bind_ok.mp hcall
    obtain ⟨hlo, hhi⟩ := not_or.mp hconstant
    obtain rfl := constant_of_contains (not_not.mp hlo) hlow
    have hhighest : high = hi.interval.hi := by
      rw [constant_of_contains (not_not.mp hhi) hhigh]
      exact not_not.mp hhi
    subst hhighest
    obtain ⟨_, _, hcall⟩ := bind_ok.mp hcall
    obtain ⟨_, _, hcall⟩ := bind_ok.mp hcall
    obtain ⟨interval, hnew, _⟩ := bind_ok.mp hcall
    have horder : ¬ hi.interval.hi.val < lo.interval.lo.val := by
      unfold Interval.new at hnew
      split at hnew
      · cases hnew
      · rename_i horder
        exact horder
    by_cases hbelow : x.val < lo.interval.lo.val
    · refine ⟨lo.interval.lo, has_evalCall h (fun _ => ?_) ?_ ⟨le_refl _, not_lt.mp horder⟩⟩ <;>
        exact (if_neg horder).trans (if_pos hbelow)
    · by_cases habove : hi.interval.hi.val < x.val
      · refine ⟨hi.interval.hi, has_evalCall h (fun _ => ?_) ?_ ⟨not_lt.mp horder, le_refl _⟩⟩ <;>
          exact (if_neg horder).trans ((if_neg hbelow).trans (if_pos habove))
      · refine ⟨x, has_evalCall h (fun _ => ?_) ?_ ⟨not_lt.mp hbelow, not_lt.mp habove⟩⟩ <;>
          exact (if_neg horder).trans ((if_neg hbelow).trans (if_neg habove))

theorem has_signed (hcall : analyseCall machine label "signed" parts = .ok result)
    (hfits : AllFit (callNumbers "signed" (partHulls parts)))
    (hbalanced : callBalanced "signed" (partHulls parts)) :
    ∃ value, Has bindings (.call "signed" args) (callHull "signed" (partHulls parts)) value := by
  match parts with
  | [] | [_] | _ :: _ :: _ :: _ => cases hcall
  | [side, magnitude] =>
    obtain ⟨s, x, _, hx, rfl⟩ := forall₂_pair h.contained
    obtain ⟨hsame, hopposite⟩ := contains_symmetric hx (of_decide_eq_true hbalanced)
    by_cases hside : s.val = 1
    · refine ⟨x, has_evalCall h (fun _ => ?_) ?_ hsame⟩ <;> exact if_pos hside
    · have hlow : Fits 127 (-magnitude.interval.hi.val) := hfits _ (mem_singleton_self _)
      have hneg : Fits 127 (-x.val) := hlow.between magnitude.interval.hi.property hopposite
      refine ⟨⟨-x.val, hneg⟩, has_evalCall h (fun machine => ?_) ?_ hopposite⟩
      · exact (if_neg hside).trans (machine.number_of_fits hneg)
      · exact if_neg hside

theorem has_call (hcall : analyseCall machine label name parts = .ok result)
    (hfits : AllFit (callNumbers name (partHulls parts)))
    (hbalanced : callBalanced name (partHulls parts)) :
    ∃ value, Has bindings (.call name args) (callHull name (partHulls parts)) value := by
  have hname := hcall
  unfold analyseCall at hname
  split at hname
  · exact has_min h hcall
  · exact has_max h hcall
  · exact has_clamp h hcall
  · exact has_signed h hcall hfits hbalanced
  · cases hname

end

end Values

/-! ## Operands -/

def operands : Expr → List Expr
  | .const _ | .name _ => []
  | .neg inner => [inner]
  | .add left right | .sub left right | .mul left right | .compare left _ right => [left, right]
  | .and parts => parts
  | .call _ args => args

/-- What an expression has proved besides its operands. -/
def noted (machine : Machine) (label : String) :
    Expr → List Analysis → Except Stop (List Obligation)
  | .mul a b, [left, right] => .ok
      (if left.degree + right.degree = 2 then
        [note label .product s!"{a.render} * {b.render}" 0] else [])
  | .compare a op b, [left, right] =>
    comparisonObligations machine label (.compare a op b) op left.interval right.interval
  | .and parts, _ => .ok
      (replicate (parts.length - 1) (note label .product "conjunction of two conditions" 0))
  | .call name _, parts => (analyseCall machine label name parts).map (·.2.2)
  | _, _ => .ok []

/-- What the range proofs of an expression are about, for values of its operands. -/
def differences : Expr → List ℤ → List (List ℤ)
  | .compare _ op _, [x, y] => comparisonDifferences op x y
  | .call name _, values => callDifferences name values
  | _, _ => []

section Accepted

variable {unicode : Unicode} {machine : Machine} {declarations : TreeMap String Declaration}
  {label : String} {bindings : TreeMap String I128} {expr : Expr} {args : List Expr}

theorem forall_mem_pair {A : Type} {first second : A} {holds : A → Prop} :
    (∀ x ∈ [first, second], holds x) ↔ holds first ∧ holds second := by
  rw [forall_mem_cons, forall_mem_singleton]

theorem operands_induction {P : Expr → Prop}
    (step : ∀ expr, (∀ operand ∈ operands expr, P operand) → P expr) (expr : Expr) : P expr := by
  induction expr using Expr.induction with
  | const => exact step _ nofun
  | name => exact step _ nofun
  | neg inner ih => exact step _ (forall_mem_singleton.mpr ih)
  | add left right ihl ihr | sub left right ihl ihr | mul left right ihl ihr
  | compare left op right ihl ihr => exact step _ (forall_mem_pair.mpr ⟨ihl, ihr⟩)
  | and parts ih => exact step _ ih
  | call name args ih => exact step _ ih

theorem allFit_numbersAll :
    AllFit (numbersAll declarations args) ↔ ∀ arg ∈ args, AllFit (numbers declarations arg) := by
  induction args with
  | nil => simp only [numbersAll, AllFit, not_mem_nil, false_imp_iff, implies_true]
  | cons arg rest ih => rw [numbersAll, allFit_append, ih, forall_mem_cons]

theorem allFit_last (h : AllFit (first ++ (second ++ third))) : AllFit third :=
  (allFit_append.mp (allFit_append.mp h).2).2

theorem allFit_operand (h : AllFit (numbers declarations expr)) (hmem : operand ∈ operands expr) :
    AllFit (numbers declarations operand) := by
  cases expr <;>
    simp only [operands, numbers, allFit_append, allFit_numbersAll, mem_cons,
      not_mem_nil, or_false] at h hmem <;>
    grind

theorem balancedAll_iff :
    balancedAll declarations args ↔ ∀ arg ∈ args, balanced declarations arg := by
  induction args with
  | nil => simp only [balancedAll, not_mem_nil, false_imp_iff, implies_true]
  | cons arg rest ih => rw [balancedAll, Bool.and_eq_true, ih, forall_mem_cons]

theorem balanced_operand (h : balanced declarations expr) (hmem : operand ∈ operands expr) :
    balanced declarations operand := by
  cases expr <;>
    simp only [operands, balanced, Bool.and_eq_true, balancedAll_iff, mem_cons,
      not_mem_nil, or_false] at h hmem <;>
    grind

variable (unicode machine declarations label) in
/-- The expressions are accepted with the given analyses. -/
abbrev Visits : List Expr → List Analysis → Prop :=
  List.Forall₂ fun arg part => visit unicode machine declarations label arg = .ok part

theorem visitAll_ok : visitAll unicode machine declarations label args = .ok parts ↔
      Visits unicode machine declarations label args parts := by
  constructor
  · intro h
    induction args generalizing parts with
    | nil =>
      cases h
      exact .nil
    | cons arg rest ih =>
      rw [visitAll] at h
      obtain ⟨_, hfirst, h⟩ := bind_ok.mp h
      obtain ⟨_, hothers, h⟩ := bind_ok.mp h
      cases h
      exact .cons hfirst (ih hothers)
  · intro h
    induction h with
    | nil => rfl
    | cons hhead _ ih =>
      rw [visitAll, hhead, ih]
      rfl

theorem visitConditions_ok
    (h : visitConditions unicode machine declarations label args = .ok obligations) :
    ∃ parts, Visits unicode machine declarations label args parts ∧
      (∀ part ∈ parts, part.interval.isCondition) ∧
      obligations = parts.flatMap (·.obligations) := by
  induction args generalizing obligations with
  | nil =>
    cases h
    exact ⟨[], .nil, forall_mem_nil _, rfl⟩
  | cons arg rest ih =>
    rw [visitConditions] at h
    obtain ⟨first, hfirst, h⟩ := bind_ok.mp h
    obtain ⟨hcondition, h⟩ := refuseIf_bind_ok.mp h
    obtain ⟨_, hothers, h⟩ := bind_ok.mp h
    cases h
    obtain ⟨parts, hparts, hconditions, rfl⟩ := ih hothers
    exact ⟨first :: parts, .cons hfirst hparts,
      forall_mem_cons.mpr ⟨not_not.mp hcondition, hconditions⟩, rfl⟩

theorem exists_of_forall₂ {A B : Type} {relation : A → B → Prop} {items : List A}
    {others : List B} (h : List.Forall₂ relation items others) {item : A} (hmem : item ∈ items) :
    ∃ other ∈ others, relation item other := by
  induction h with
  | nil => cases hmem
  | cons hhead _ ih =>
    obtain rfl | hmem := mem_cons.mp hmem
    · exact ⟨_, mem_cons_self, hhead⟩
    · obtain ⟨other, hother, hrelated⟩ := ih hmem
      exact ⟨other, mem_cons_of_mem _ hother, hrelated⟩

/-- What an accepted expression has proved is what its operands have and what it notes itself. -/
theorem visit_operands (h : visit unicode machine declarations label expr = .ok analysis) :
    ∃ parts own, Visits unicode machine declarations label (operands expr) parts ∧
      analysis.obligations = parts.flatMap (·.obligations) ++ own ∧
      noted machine label expr parts = .ok own := by
  cases expr with
  | const =>
    cases h
    exact ⟨[], [], .nil, rfl, rfl⟩
  | name =>
    rw [visit] at h
    obtain ⟨_, h⟩ := refuseIf_bind_ok.mp h
    obtain ⟨_, _, h⟩ := bind_ok.mp h
    cases h
    exact ⟨[], [], .nil, rfl, rfl⟩
  | neg =>
    rw [visit] at h
    obtain ⟨a, ha, h⟩ := bind_ok.mp h
    obtain ⟨_, _, h⟩ := bind_ok.mp h
    cases h
    exact ⟨[a], [], .cons ha .nil, by simp, rfl⟩
  | add left right | sub left right =>
    rw [visit] at h
    obtain ⟨a, ha, h⟩ := bind_ok.mp h
    obtain ⟨b, hb, h⟩ := bind_ok.mp h
    obtain ⟨_, _, h⟩ := bind_ok.mp h
    cases h
    exact ⟨[a, b], [], .cons ha (.cons hb .nil), by simp, rfl⟩
  | mul =>
    rw [visit] at h
    obtain ⟨a, ha, h⟩ := bind_ok.mp h
    obtain ⟨b, hb, h⟩ := bind_ok.mp h
    obtain ⟨_, h⟩ := refuseIf_bind_ok.mp h
    obtain ⟨_, _, h⟩ := bind_ok.mp h
    cases h
    exact ⟨[a, b], _, .cons ha (.cons hb .nil), by simp, rfl⟩
  | compare =>
    rw [visit] at h
    obtain ⟨a, ha, h⟩ := bind_ok.mp h
    obtain ⟨b, hb, h⟩ := bind_ok.mp h
    obtain ⟨own, hown, h⟩ := bind_ok.mp h
    cases h
    exact ⟨[a, b], own, .cons ha (.cons hb .nil), by simp, hown⟩
  | and =>
    rw [visit] at h
    obtain ⟨_, hobligations, h⟩ := bind_ok.mp h
    cases h
    obtain ⟨analyses, hall, _, rfl⟩ := visitConditions_ok hobligations
    exact ⟨analyses, _, hall, rfl, rfl⟩
  | call =>
    rw [visit] at h
    obtain ⟨_, h⟩ := refuseIf_bind_ok.mp h
    obtain ⟨parts, hparts, h⟩ := bind_ok.mp h
    obtain ⟨result, hresult, h⟩ := bind_ok.mp h
    cases h
    exact ⟨parts, result.2.2, visitAll_ok.mp hparts, rfl, by rw [noted, hresult]; rfl⟩

theorem hulls_of_visits (h : Visits unicode machine declarations label args parts)
    (hfits : AllFit (numbersAll declarations args)) :
    partHulls parts = hullAll declarations args :=
  ((computes_visitAll fun arg _ => computes_visit arg).exact parts (visitAll_ok.mpr h) hfits).2

theorem ranges_noted (hparts : Visits unicode machine declarations label (operands expr) parts)
    (h : noted machine label expr parts = .ok own) (hfits : AllFit (numbers declarations expr))
    (hvalues : List.Forall₂ Contains (partHulls parts) values) :
    RangesWide own (differences expr values) := by
  cases expr with
  | mul =>
    obtain ⟨a, b, _, _, rfl⟩ := forall₂_pair hparts
    cases h
    unfold RangesWide
    split <;> exact .nil
  | compare left op right =>
    obtain ⟨a, b, ha, hb, rfl⟩ := forall₂_pair hparts
    obtain ⟨x, y, hx, hy, rfl⟩ := forall₂_pair hvalues
    obtain ⟨hleft, hright⟩ := allFit_append.mp hfits
    have hfirst := ((computes_visit left).exact a ha hleft).2
    have hsecond := ((computes_visit right).exact b hb (allFit_append.mp hright).1).2
    exact ((computes_comparisonObligations _ op hfirst hsecond).exact own h
      (allFit_last hfits)).2 x y (hfirst ▸ hx) (hsecond ▸ hy)
  | and =>
    cases h
    rw [RangesWide, filter_replicate_of_neg (by simp [note])]
    exact .nil
  | call name args =>
    obtain ⟨hargs, hcall⟩ := allFit_append.mp hfits
    have hhulls : partHulls parts = hullAll declarations args := hulls_of_visits hparts hargs
    rw [← hhulls] at hcall
    rw [noted] at h
    cases hresult : analyseCall machine label name parts with
    | error =>
      rw [hresult] at h
      cases h
    | ok result =>
      rw [hresult] at h
      cases h
      exact ((computes_analyseCall name parts).exact result hresult hcall).2.2 values hvalues
  | _ =>
    cases h
    exact .nil

theorem visit_operand {analysis : Analysis}
    (h : visit unicode machine declarations label expr = .ok analysis)
    (hmem : operand ∈ operands expr) :
    ∃ part, visit unicode machine declarations label operand = .ok part := by
  obtain ⟨_, _, hparts, _⟩ := visit_operands h
  obtain ⟨part, _, hpart⟩ := exists_of_forall₂ hparts hmem
  exact ⟨part, hpart⟩

/-! ## Accepted expressions -/

/-- An expression that is accepted, over numbers that fit and with balanced magnitudes, has a value
in its hull. -/
def Sound (machine : Machine) (unicode : Unicode) (declarations : TreeMap String Declaration)
    (label : String) (bindings : TreeMap String I128) (expr : Expr) : Prop :=
  ∀ analysis, visit unicode machine declarations label expr = .ok analysis →
    AllFit (numbers declarations expr) → balanced declarations expr →
    ∃ value, Has bindings expr (hull declarations expr) value

theorem sound_operands
    (ih : ∀ operand ∈ operands expr, Sound machine unicode declarations label bindings operand)
    (hvisit : visit unicode machine declarations label expr = .ok analysis)
    (hfits : AllFit (numbers declarations expr)) (hbalanced : balanced declarations expr) :
    ∀ operand ∈ operands expr, ∃ value, Has bindings operand (hull declarations operand) value := by
  intro operand hmem
  obtain ⟨part, hpart⟩ := visit_operand hvisit hmem
  exact ih operand hmem part hpart (allFit_operand hfits hmem) (balanced_operand hbalanced hmem)

theorem has_conditions_of_visit {parts : List Expr} {obligations : List Obligation}
    (hvisit : visitConditions unicode machine declarations label parts = .ok obligations)
    (hfits : AllFit (numbersAll declarations parts))
    (h : ∀ part ∈ parts, ∃ value, Has bindings part (hull declarations part) value) :
    ∀ part ∈ parts, ∃ value, Has bindings part .condition value := by
  intro part hmem
  obtain ⟨_, hall, hconditions, _⟩ := visitConditions_ok hvisit
  obtain ⟨analysis, hanalysis, hpart⟩ := exists_of_forall₂ hall hmem
  have hhull : hull declarations part = .condition := by
    rw [← ((computes_visit part).exact analysis hpart (allFit_numbersAll.mp hfits part hmem)).2]
    obtain ⟨hlo, hhi⟩ := Bool.and_eq_true_iff.mp (hconditions analysis hanalysis)
    rw [bounds, of_decide_eq_true hlo, of_decide_eq_true hhi]
    rfl
  rw [← hhull]
  exact h part hmem

theorem sound_visit (hbinds : Binds declarations bindings) (expr : Expr) :
    Sound machine unicode declarations label bindings expr := by
  induction expr using operands_induction with | step expr ih
  intro _ hvisit hfits hbalanced
  have hparts := sound_operands ih hvisit hfits hbalanced
  cases expr with
  | const value => exact ⟨value, fun _ => rfl, rfl, contains_point⟩
  | name name =>
    rw [visit] at hvisit
    obtain ⟨_, hvisit⟩ := refuseIf_bind_ok.mp hvisit
    obtain ⟨declaration, hdeclaration, _⟩ := bind_ok.mp hvisit
    rw [orRefuse_ok] at hdeclaration
    obtain ⟨value, hvalue, hcontained⟩ := hbinds name declaration hdeclaration
    refine ⟨value, fun machine => ?_, ?_, ?_⟩
    · rw [eval, hvalue]
      rfl
    · rw [eval, hvalue]
      rfl
    · rw [hull, declaredBounds, hdeclaration]
      exact hcontained
  | neg =>
    obtain ⟨v, hv⟩ := forall_mem_singleton.mp hparts
    exact has_neg hv (allFit_append.mp hfits).2
  | add =>
    obtain ⟨⟨l, hl⟩, r, hr⟩ := forall_mem_pair.mp hparts
    exact has_add hl hr (allFit_last hfits)
  | sub =>
    obtain ⟨⟨l, hl⟩, r, hr⟩ := forall_mem_pair.mp hparts
    exact has_sub hl hr (allFit_last hfits)
  | mul =>
    obtain ⟨⟨l, hl⟩, r, hr⟩ := forall_mem_pair.mp hparts
    exact has_mul hl hr (allFit_last hfits)
  | compare left op =>
    obtain ⟨⟨l, hl⟩, r, hr⟩ := forall_mem_pair.mp hparts
    exact has_compare hl hr
  | and =>
    rw [visit] at hvisit
    obtain ⟨_, hobligations, _⟩ := bind_ok.mp hvisit
    obtain ⟨value, hmachine, hexact, hcontained⟩ := has_conditions
      (has_conditions_of_visit hobligations hfits hparts) one (contains_bit true)
    exact ⟨value, hmachine, hexact, hcontained⟩
  | call name args =>
    rw [visit] at hvisit
    obtain ⟨_, hvisit⟩ := refuseIf_bind_ok.mp hvisit
    obtain ⟨_, hvisited, hvisit⟩ := bind_ok.mp hvisit
    obtain ⟨_, hresult, _⟩ := bind_ok.mp hvisit
    rw [numbers, allFit_append] at hfits
    rw [balanced, Bool.and_eq_true] at hbalanced
    obtain ⟨values, hvalues⟩ : ∃ values, HasAll bindings args _ values := hasAll hparts
    have hhulls := hulls_of_visits (visitAll_ok.mp hvisited) hfits.1
    rw [← hhulls] at hvalues hfits hbalanced
    rw [hull, ← hhulls]
    exact has_call hvalues hresult hfits.2 hbalanced.2

/-! ## Accepted rules -/

def ruleNumbers (rule : Rule) : List ℤ :=
  rule.outputs.flatMap (fun output => numbers rule.declarations output.2) ++
    ((rule.declarations.toList.map Prod.snd).filter (·.role.isSecret)).map fun declaration =>
      declaration.interval.hi.val - declaration.interval.lo.val

theorem computes_checkOutputs (outputs : List (String × Expr)) (facts : Facts) :
    Computes 127 machine (fun machine => checkOutputs unicode machine declarations facts outputs)
      (outputs.flatMap fun output => numbers declarations output.2) (fun _ => True) := by
  induction outputs generalizing facts with
  | nil => exact .pure trivial
  | cons output rest ih =>
    simp only [checkOutputs, flatMap_cons]
    exact .bind (computes_visit output.2) fun _ _ => ih _

theorem computes_declaredObligations (declared : List Declaration) :
    Computes 127 machine (fun machine => declaredObligations machine declared)
      ((declared.filter (·.role.isSecret)).map fun declaration =>
        declaration.interval.hi.val - declaration.interval.lo.val) (fun _ => True) := by
  induction declared with
  | nil => exact .pure trivial
  | cons declaration rest ih =>
    simp only [declaredObligations]
    by_cases hsecret : declaration.role.isSecret
    · simp only [hsecret, if_true, filter_cons_of_pos, map_cons]
      exact .bind (.number _) fun _ _ => .last ih fun _ _ => trivial
    · simp only [hsecret, Bool.false_eq_true, if_false, not_false_eq_true, filter_cons_of_neg]
      exact ih

theorem computes_check {rule : Rule} :
    Computes 127 machine (fun machine => check unicode machine rule) (ruleNumbers rule)
      (fun _ => True) := by
  unfold check ruleNumbers
  refine .bind (computes_checkOutputs rule.outputs _) fun facts _ => ?_
  refine (Computes.bind (computes_declaredObligations _) fun declared _ =>
    computes_refuseIf fun _ => .pure trivial).congr fun x => ?_
  rw [append_nil]

variable {source name : String} {rule : Rule}

/-- A rule that was accepted came across numbers that fit exactly if a build with overflow checks
accepts it too. -/
theorem checked_iff (hparse : parse unicode source name = .ok parsed)
    (haccepted : compileRule unicode machine source name = .ok rule) :
    compileRule unicode .checked source name = .ok rule ↔ AllFit (ruleNumbers parsed) := by
  unfold compileRule at haccepted ⊢
  rw [hparse] at haccepted ⊢
  have hcomputes : Computes 127 machine (fun machine => check unicode machine parsed)
      (ruleNumbers parsed) fun _ => True := computes_check
  constructor
  · exact hcomputes.fits rule
  · exact fun hfits => (hcomputes.exact rule haccepted hfits).1

/-! ### Values and intervals of the outputs -/

/-- The intervals and the values of the outputs so far: the same names have them, and every value
lies in the interval of its output. -/
def Tallies (intervals : TreeMap String Interval) (values : TreeMap String I128)
    (exact : TreeMap String ℤ) : Prop :=
  ∀ name : String, (intervals[name]? = none ∧ values[name]? = none ∧ exact[name]? = none) ∨
    ∃ interval value, intervals[name]? = some interval ∧ values[name]? = some value ∧
      exact[name]? = some value.val ∧ (bounds interval).Contains value.val

theorem tallies_empty : Tallies ∅ ∅ ∅ :=
  fun _ => .inl ⟨TreeMap.getElem?_emptyc, TreeMap.getElem?_emptyc, TreeMap.getElem?_emptyc⟩

variable {values : TreeMap String I128} {exact : TreeMap String ℤ}

theorem Tallies.insert (h : Tallies intervals values exact) (label : String) {value : I128}
    (hvalue : (bounds interval).Contains value.val) :
    Tallies (intervals.insert label interval) (values.insert label value)
      (exact.insert label value.val) := by
  intro name
  simp only [TreeMap.getElem?_insert]
  by_cases hname : compare label name = .eq
  · simp only [hname, if_true]
    exact .inr ⟨interval, value, rfl, rfl, rfl, hvalue⟩
  · simp only [hname, if_false]
    exact h name

theorem evaluateOutputs_sound (hbinds : Binds declarations bindings)
    (outputs : List (String × Expr)) (htallies : Tallies facts.intervals values exact)
    (hcheck : checkOutputs unicode machine declarations facts outputs = .ok result)
    (hfits : AllFit (outputs.flatMap fun output => numbers declarations output.2))
    (hbalanced : ∀ output ∈ outputs, balanced declarations output.2) :
    ∃ values' exact',
      (∀ machine, evaluateOutputs (machineArithmetic machine) bindings values outputs =
        .ok values') ∧
      evaluateOutputs exactArithmetic bindings exact outputs = .ok exact' ∧
      Tallies result.intervals values' exact' := by
  induction outputs generalizing facts values exact with
  | nil =>
    cases hcheck
    exact ⟨values, exact, fun _ => rfl, rfl, htallies⟩
  | cons output rest ih =>
    obtain ⟨label, tree⟩ := output
    rw [checkOutputs] at hcheck
    obtain ⟨analysis, hvisit, hcheck⟩ := bind_ok.mp hcheck
    rw [flatMap_cons, allFit_append] at hfits
    obtain ⟨htree, hrest⟩ := forall_mem_cons.mp hbalanced
    obtain ⟨_, hvalue⟩ := sound_visit hbinds tree analysis hvisit hfits.1 htree
    have hinterval := ((computes_visit tree).exact analysis hvisit hfits.1).2
    have hcontained := hvalue.contained
    rw [← hinterval] at hcontained
    obtain ⟨values', exact', hmachine, hexact, htallies'⟩ :=
      ih (htallies.insert label hcontained) hcheck hfits.2 hrest
    refine ⟨values', exact', fun machine => ?_, ?_, htallies'⟩
    · rw [evaluateOutputs, hvalue.machine]
      exact hmachine machine
    · rw [evaluateOutputs, hvalue.exact]
      exact hexact

theorem intervals_of_checkOutputs {outputs : List (String × Expr)}
    (hcheck : checkOutputs unicode machine declarations facts outputs = .ok result) (name : String)
    (h : facts.intervals[name]?.isSome ∨ ∃ output ∈ outputs, output.1 = name) :
    result.intervals[name]?.isSome := by
  induction outputs generalizing facts with
  | nil =>
    cases hcheck
    obtain h | ⟨_, hmem, _⟩ := h
    · exact h
    · cases hmem
  | cons output rest ih =>
    obtain ⟨label, _⟩ := output
    rw [checkOutputs] at hcheck
    obtain ⟨_, _, hcheck⟩ := bind_ok.mp hcheck
    refine ih hcheck ?_
    simp only [TreeMap.getElem?_insert]
    by_cases hname : compare label name = .eq
    · simp only [hname, if_true]
      exact .inl rfl
    · simp only [hname, if_false]
      obtain h | ⟨output, hmem, hlabel⟩ := h
      · exact .inl h
      · obtain rfl | hmem := mem_cons.mp hmem
        · rw [Std.compare_eq_iff_eq] at hname
          exact absurd hlabel hname
        · exact .inr ⟨output, hmem, hlabel⟩

/-! ### The width -/

def Within (inner outer : Interval) : Prop :=
  outer.lo.val ≤ inner.lo.val ∧ inner.hi.val ≤ outer.hi.val

theorem Within.trans (h : Within first second) (h' : Within second third) : Within first third :=
  ⟨h'.1.trans h.1, h.2.trans h'.2⟩

theorem within_union {first second : Interval} :
    Within first (first.union second) ∧ Within second (first.union second) := by
  unfold Within Interval.union
  rw [val_least, val_largest]
  exact ⟨⟨min_le_left _ _, le_max_left _ _⟩, min_le_right _ _, le_max_right _ _⟩

theorem unionOf_within {intervals : TreeMap String Interval} {outputs : List (String × Expr)}
    (hall : ∀ output ∈ outputs, intervals[output.1]?.isSome) (start : Option Interval)
    (hsome : start.isSome ∨ outputs ≠ []) :
    ∃ union, unionOf intervals start outputs = .ok (some union) ∧
      (∀ interval ∈ start, Within interval union) ∧
      ∀ output ∈ outputs, ∀ interval, intervals[output.1]? = some interval →
        Within interval union := by
  induction outputs generalizing start with
  | nil =>
    obtain ⟨interval, rfl⟩ := Option.isSome_iff_exists.mp (hsome.resolve_right fun h => h rfl)
    refine ⟨interval, rfl, ?_, nofun⟩
    rintro _ ⟨rfl⟩
    exact ⟨le_refl _, le_refl _⟩
  | cons output rest ih =>
    obtain ⟨hfirst, hrest⟩ := forall_mem_cons.mp hall
    obtain ⟨interval, hinterval⟩ := Option.isSome_iff_exists.mp hfirst
    obtain ⟨union, hunion, hstart, hothers⟩ :=
      ih hrest (some (start.elim interval (·.union interval))) (.inl rfl)
    have hcombined := hstart _ rfl
    refine ⟨union, ?_, ?_, forall_mem_cons.mpr ⟨fun i hi => ?_, hothers⟩⟩
    · rw [unionOf, hinterval]
      exact hunion
    · rintro first ⟨rfl⟩
      exact (within_union).1.trans hcombined
    · rw [hinterval] at hi
      cases hi
      cases start with
      | none => exact hcombined
      | some first => exact (within_union).2.trans hcombined

theorem outputInterval_within {rule : Rule} (hnonempty : rule.outputs ≠ [])
    (hall : ∀ output ∈ rule.outputs, rule.intervals[output.1]?.isSome) :
    ∃ union, rule.outputInterval = .ok union ∧
      ∀ output ∈ rule.outputs, ∀ interval, rule.intervals[output.1]? = some interval →
        Within interval union := by
  obtain ⟨union, hunion, _, hothers⟩ :=
    unionOf_within hall none (.inr hnonempty)
  refine ⟨union, ?_, hothers⟩
  rw [Rule.outputInterval, hunion]
  rfl

theorem fits_widthBits {inner outer : Interval} (hwithin : Within inner outer) {value : ℤ}
    (hvalue : (bounds inner).Contains value) :
    -2 ^ (outer.widthBits - 1) ≤ value ∧ value < 2 ^ (outer.widthBits - 1) := by
  have hcontained : (bounds outer).Contains value :=
    ⟨hwithin.1.trans hvalue.1, hvalue.2.trans hwithin.2⟩
  obtain ⟨hlow, hhigh⟩ := abs_lt.mp (abs_lt_widthBits hcontained)
  exact ⟨hlow.le, hhigh⟩

theorem check_ok {result : Rule} (h : check unicode machine rule = .ok result) :
    ∃ facts, checkOutputs unicode machine rule.declarations ⟨∅, ∅, []⟩ rule.outputs = .ok facts ∧
      result.outputs = rule.outputs ∧ result.intervals = facts.intervals := by
  obtain ⟨facts, hfacts, h⟩ := bind_ok.mp h
  obtain ⟨_, _, h⟩ := bind_ok.mp h
  obtain ⟨_, h⟩ := refuseIf_bind_ok.mp h
  cases h
  exact ⟨facts, hfacts, rfl, rfl⟩

theorem outputs_of_parse (h : parse unicode source name = .ok rule) : rule.outputs ≠ [] := by
  obtain ⟨_, _, h⟩ := bind_ok.mp h
  obtain ⟨_, h⟩ := refuseIf_bind_ok.mp h
  obtain ⟨hnonempty, h⟩ := refuseIf_bind_ok.mp h
  cases h
  exact hnonempty

end Accepted

/-- For every rule that a build accepts: the analysis came across no number that does not fit the
machine exactly if all the bounds it forms over the exact integers fit. If they do, and every
magnitude reaches at least as far up as down, then for every binding within the declared bounds
each output has a value over the exact integers, which a build with or without overflow checks
computes too, which lies in the interval of that output and fits the required width. The interval
of a sign change holds the magnitudes and their opposites exactly if the magnitude reaches at least
as far up as down. -/
theorem accepted_rule_widths (unicode : Unicode) (machine : Machine) (source name : String)
    (parsed rule : Rule) (hparse : parse unicode source name = .ok parsed)
    (haccepted : compileRule unicode machine source name = .ok rule) :
    (compileRule unicode .checked source name = .ok rule ↔ AllFit (ruleNumbers parsed)) ∧
    (AllFit (ruleNumbers parsed) →
      (∀ output ∈ parsed.outputs, balanced parsed.declarations output.2) →
      ∀ bindings, Binds parsed.declarations bindings →
        ∃ bits values exact, rule.requiredBits = .ok bits ∧
          (∀ machine, evaluate (machineArithmetic machine) bindings rule = .ok values) ∧
          evaluate exactArithmetic bindings rule = .ok exact ∧
          ∀ output ∈ rule.outputs, ∃ interval value,
            rule.intervals[output.1]? = some interval ∧ values[output.1]? = some value ∧
            exact[output.1]? = some value.val ∧
            (interval.lo.val ≤ value.val ∧ value.val ≤ interval.hi.val) ∧
            (-2 ^ (bits - 1) ≤ value.val ∧ value.val < 2 ^ (bits - 1))) ∧
    ∀ side magnitude : Bounds ℤ, magnitude.lo ≤ magnitude.hi →
      (callBalanced "signed" [side, magnitude] ↔ ∀ x, magnitude.Contains x →
        (callHull "signed" [side, magnitude]).Contains x ∧
          (callHull "signed" [side, magnitude]).Contains (-x)) := by
  refine ⟨checked_iff hparse haccepted, fun hfits hbalanced bindings hbinds => ?_,
    fun side magnitude hnonempty => ⟨fun h x hx => ?_, fun h => decide_eq_true ?_⟩⟩
  · unfold compileRule at haccepted
    rw [hparse] at haccepted
    obtain ⟨_, hcheck, houtputs, hintervals⟩ := check_ok haccepted
    obtain ⟨hnumbers, _⟩ := allFit_append.mp hfits
    obtain ⟨values, exact, hmachine, hexact, htallies⟩ := evaluateOutputs_sound hbinds
      parsed.outputs tallies_empty hcheck hnumbers hbalanced
    have hall : ∀ output ∈ rule.outputs, rule.intervals[output.1]?.isSome := by
      intro output houtput
      rw [houtputs] at houtput
      rw [hintervals]
      exact intervals_of_checkOutputs hcheck output.1 (.inr ⟨output, houtput, rfl⟩)
    obtain ⟨union, hunion, hwithin⟩ := outputInterval_within
      (houtputs ▸ outputs_of_parse hparse) hall
    refine ⟨union.widthBits, values, exact, ?_, fun machine => ?_, ?_, fun output houtput => ?_⟩
    · rw [Rule.requiredBits, hunion]
      rfl
    · rw [evaluate, houtputs]
      exact hmachine machine
    · rw [evaluate, houtputs]
      exact hexact
    · obtain ⟨hnone, _⟩ | ⟨interval, value, hinterval, hvalue, hexactValue, hcontained⟩ :=
        htallies output.1
      · have hsome := hall output houtput
        rw [hintervals, hnone] at hsome
        cases hsome
      · rw [← hintervals] at hinterval
        exact ⟨interval, value, hinterval, hvalue, hexactValue, hcontained,
          fits_widthBits (hwithin output houtput interval hinterval) hcontained⟩
  · exact contains_symmetric hx (of_decide_eq_true h)
  · exact balanced_of_contains_symmetric hnonempty fun x hx => (h x hx).1

/-- For every accepted expression whose analysis comes across numbers that fit the machine, and
every binding under which its operands have values in the intervals computed for them: the range
proofs that it notes, besides those of its operands, are for the differences that decide it, each
of a width for the magnitude of the difference. -/
theorem ranges_wide (unicode : Unicode) (machine : Machine)
    (declarations : TreeMap String Declaration) (label : String) (expr : Expr) (analysis : Analysis)
    (hvisit : visit unicode machine declarations label expr = .ok analysis)
    (hfits : AllFit (numbers declarations expr)) :
    ∃ parts own, visitAll unicode machine declarations label (operands expr) = .ok parts ∧
      analysis.obligations = parts.flatMap (·.obligations) ++ own ∧
      ∀ bindings values, evalAll exactArithmetic bindings (operands expr) = .ok values →
        List.Forall₂ Contains (partHulls parts) values →
        RangesWide own (differences expr values) := by
  obtain ⟨parts, own, hparts, hobligations, hnoted⟩ := visit_operands hvisit
  exact ⟨parts, own, visitAll_ok.mpr hparts, hobligations,
    fun _ _ _ hvalues => ranges_noted hparts hnoted hfits hvalues⟩

/-! ## Two rules -/

def plainText : Unicode :=
  ⟨Char.isAlpha, Char.isAlphanum, Char.isWhitespace, fun text => "\"" ++ text ++ "\""⟩

def bound (bindings : TreeMap String I128) (declared : String × Declaration) : Bool :=
  (bindings[declared.1]?).any fun value =>
    (bounds declared.2.interval).lo ≤ value.val && value.val ≤ (bounds declared.2.interval).hi

theorem binds_of_bound {declarations : TreeMap String Declaration}
    (h : declarations.toList.all (bound bindings)) : Binds declarations bindings := by
  intro _ _ hdeclaration
  have hmem := TreeMap.mem_toList_iff_getElem?_eq_some.mpr hdeclaration
  obtain ⟨value, hvalue, hbound⟩ := (Option.any_eq_true _ _).mp (all_eq_true.mp h _ hmem)
  rw [Bool.and_eq_true, decide_eq_true_eq, decide_eq_true_eq] at hbound
  exact ⟨value, hvalue, hbound⟩

/-- A rule with a magnitude that reaches further down than up. -/
def signSource : String := "param m[-10,5]\ninput c[0,1]\nout = signed(c, m)\n"

/-- The magnitude at its lower bound. -/
def signBindings : TreeMap String I128 := .ofList [("m", ⟨-10, by decide⟩), ("c", one)]

/-- The rule is accepted with an interval from minus five to five and a width of four bits; with
the magnitude at its declared lower bound the output is minus ten. -/
theorem unbalanced_magnitude_escapes :
    ∃ rule exact, compileRule plainText .checked signSource "sign" = .ok rule ∧
      Binds rule.declarations signBindings ∧
      (rule.intervals["out"]?).map (fun interval => (interval.lo.val, interval.hi.val)) =
        some (-5, 5) ∧
      rule.requiredBits = .ok 4 ∧ evaluate exactArithmetic signBindings rule = .ok exact ∧
      exact["out"]? = some (-10) ∧ ¬ (-2 ^ (4 - 1) ≤ (-10 : ℤ) ∧ (-10 : ℤ) < 2 ^ (4 - 1)) := by
  have hrun : passes (compileRule plainText .checked signSource "sign") (fun rule =>
      rule.declarations.toList.all (bound signBindings) &&
        (rule.intervals["out"]?).map (fun interval => (interval.lo.val, interval.hi.val)) =
          some (-5, 5) &&
        rule.requiredBits = .ok 4 &&
        passes (evaluate exactArithmetic signBindings rule) fun exact =>
          exact["out"]? = some (-10)) = true := by
    decide +kernel
  obtain ⟨rule, hrule, hrun⟩ := passes_iff.mp hrun
  simp only [Bool.and_eq_true, decide_eq_true_eq] at hrun
  obtain ⟨⟨⟨hbound, hinterval⟩, hbits⟩, hexact⟩ := hrun
  obtain ⟨exact, hvalues, hexact⟩ := passes_iff.mp hexact
  exact ⟨rule, exact, hrule, binds_of_bound hbound, hinterval, hbits, hvalues,
    of_decide_eq_true hexact, by decide⟩

/-- Without overflow checks a sum beyond the largest number is accepted with bounds in the wrong
order. -/
example : (match compileRule plainText .wrapping
    "param a[0,10]\nout = a + 170141183460469231731687303715884105727\n" "wide" with
    | .error _ => none
    | .ok rule => (rule.intervals["out"]?).map fun interval =>
      (interval.lo.val, interval.hi.val)) =
    some (170141183460469231731687303715884105727, -170141183460469231731687303715884105719) := by
  decide +kernel

def clampSource : String :=
  "param a[0,100] m[-3,5]\ninput q[1,10]\nout = clamp(a, 5, 50) * 2 - signed(q < 4, m)\n"

/-- A number of at most two digits. -/
def small (value : Fin 100) : I128 := ⟨(value.val : ℤ), by
  have := value.isLt
  constructor <;> omega⟩

def clampBindings : TreeMap String I128 :=
  .ofList [("a", small 70), ("m", small 4), ("q", small 2)]

/-- The sample is accepted, its bounds fit, and its magnitude is balanced. -/
theorem clampSample :
    ∃ parsed rule, parse plainText clampSource "clamped" = .ok parsed ∧
      compileRule plainText .wrapping clampSource "clamped" = .ok rule ∧
      Binds parsed.declarations clampBindings ∧ AllFit (ruleNumbers parsed) ∧
      ∀ output ∈ parsed.outputs, balanced parsed.declarations output.2 := by
  have hrun : passes (parse plainText clampSource "clamped") (fun parsed =>
      parsed.declarations.toList.all (bound clampBindings) &&
        decide (∀ x ∈ ruleNumbers parsed, Fits 127 x) &&
        parsed.outputs.all fun output => balanced parsed.declarations output.2) = true := by
    decide +kernel
  have haccepted : (compileRule plainText .wrapping clampSource "clamped").isOk = true := by
    decide +kernel
  obtain ⟨parsed, hparse, hrun⟩ := passes_iff.mp hrun
  obtain ⟨rule, hrule⟩ := isOk_iff.mp haccepted
  simp only [Bool.and_eq_true, decide_eq_true_eq] at hrun
  obtain ⟨⟨hbound, hfits⟩, hbalanced⟩ := hrun
  exact ⟨parsed, rule, hparse, hrule, binds_of_bound hbound, hfits, all_eq_true.mp hbalanced⟩

/-- The value of the output is within the width of eight bits that was derived. -/
theorem clamped_rule_width :
    ∃ rule bits, compileRule plainText .wrapping clampSource "clamped" = .ok rule ∧
      rule.requiredBits = .ok bits ∧
      ∃ exact, evaluate exactArithmetic clampBindings rule = .ok exact ∧
        ∀ output ∈ rule.outputs, ∃ value, exact[output.1]? = some value ∧
          -2 ^ (bits - 1) ≤ value ∧ value < 2 ^ (bits - 1) := by
  obtain ⟨parsed, rule, hparse, hrule, hbinds, hfits, hbalanced⟩ := clampSample
  obtain ⟨bits, _, exact, hbits, _, hexact, houtputs⟩ :=
    (accepted_rule_widths plainText .wrapping clampSource "clamped" parsed rule hparse hrule).2.1
      hfits hbalanced clampBindings hbinds
  refine ⟨rule, bits, hrule, hbits, exact, hexact, fun output houtput => ?_⟩
  obtain ⟨_, value, _, _, hvalue, _, hwidth⟩ := houtputs output houtput
  exact ⟨value.val, hvalue, hwidth⟩

def orderDeclarations : TreeMap String Declaration :=
  (∅ : TreeMap String Declaration).insert "a" ⟨"a", ⟨zero, small 9⟩, .param⟩

def orderExpr : Expr := .compare (.name "a") .lt (.const (small 5))

/-- The difference is from minus four to five, and the proof noted for it is of five bits. -/
theorem order_range_wide :
    ∃ analysis, visit plainText .checked orderDeclarations "out" orderExpr = .ok analysis ∧
      (analysis.obligations.filter (·.kind = .range)).map (·.bits) = [5] ∧
      ∃ parts own, visitAll plainText .checked orderDeclarations "out" (operands orderExpr) =
          .ok parts ∧
        analysis.obligations = parts.flatMap (·.obligations) ++ own ∧
        ∀ bindings values, evalAll exactArithmetic bindings (operands orderExpr) = .ok values →
          List.Forall₂ Contains (partHulls parts) values →
          RangesWide own (differences orderExpr values) := by
  have hrun : passes (visit plainText .checked orderDeclarations "out" orderExpr) (fun analysis =>
      (analysis.obligations.filter (·.kind = .range)).map (·.bits) = [5]) = true := by
    decide +kernel
  have hfits : ∀ x ∈ numbers orderDeclarations orderExpr, Fits 127 x := by decide +kernel
  obtain ⟨analysis, hvisit, hbits⟩ := passes_iff.mp hrun
  exact ⟨analysis, hvisit, of_decide_eq_true hbits,
    ranges_wide plainText .checked orderDeclarations "out" orderExpr analysis hvisit hfits⟩

end Zkpi.RuleWidths
