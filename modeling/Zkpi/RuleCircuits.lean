import Zkpi.PythonExpressions
import Zkpi.RuleWidths

/-!
# The circuit of a price rule

A checked rule is emitted as one text for each output, an expression of Python over columns of
secrets, and evaluated in the clear from the same tree. The text is in parentheses throughout, so
reading it follows the tree up to the constructs that a circuit has no operation for: a conjunction
is a product of bits, an inequality the complement of an equality, and a choice a selection by a
bit. The two agree at a binding where no number leaves the machine and every condition is a bit,
which is what the checker derives from the bounds of its parts.
-/

namespace Zkpi.RuleCircuits

open FallibleChecks MachineArithmetic RuleSyntax RuleAnalysis RuleHulls RuleWidths List
open PythonExpressions
open Std (TreeMap)
open String (toList_append toList_inj)

/-! ## Emission -/

def called (receiver method args : String) : String :=
  "(" ++ receiver ++ ")." ++ method ++ "(" ++ args ++ ")"

def mpcCompare (left : String) (op : Cmp) (right : String) : String :=
  match op with
  | .lt => called left "__lt__" right
  | .le => called left "__le__" right
  | .gt => called left "__gt__" right
  | .ge => called left "__ge__" right
  | .eq => called left "__eq__" right
  | .ne => "(1 - " ++ called left "__eq__" right ++ ")"

def mpcCall (name : String) (args : List String) : String :=
  match name, args with
  | "min", [a, b] => "(" ++ called a "__lt__" b ++ ".if_else(" ++ a ++ ", " ++ b ++ "))"
  | "max", [a, b] => "(" ++ called a "__lt__" b ++ ".if_else(" ++ b ++ ", " ++ a ++ "))"
  | "clamp", [v, lo, hi] => "(" ++ called (called v "__lt__" lo) "if_else"
      (lo ++ ", " ++ called (called hi "__lt__" v) "if_else" (hi ++ ", " ++ v)) ++ ")"
  | "signed", [side, magnitude] => "(" ++ called side "if_else"
      (magnitude ++ ", -(" ++ magnitude ++ ")") ++ ")"
  | name, _ => "/* unreachable: " ++ name ++ " */"

mutual

def mpc : Expr → String
  | .const value => "sint(" ++ toString value.val ++ ")"
  | .name name => "col_" ++ name
  | .neg inner => "(-" ++ mpc inner ++ ")"
  | .add left right => "(" ++ mpc left ++ " + " ++ mpc right ++ ")"
  | .sub left right => "(" ++ mpc left ++ " - " ++ mpc right ++ ")"
  | .mul left right => "(" ++ mpc left ++ " * " ++ mpc right ++ ")"
  | .compare left op right => mpcCompare (mpc left) op (mpc right)
  | .and parts => "(" ++ " * ".intercalate (mpcAll parts) ++ ")"
  | .call name args => mpcCall name (mpcAll args)

def mpcAll : List Expr → List String
  | [] => []
  | expr :: rest => mpc expr :: mpcAll rest

end

/-- One expression for each output; a later output of the same name replaces an earlier one. -/
def toMpc (rule : Rule) : TreeMap String String :=
  rule.outputs.foldl (fun texts output => texts.insert output.1 (mpc output.2)) ∅

/-! ## What a circuit computes -/

def columns (bindings : TreeMap String I128) (text : String) : Option ℤ :=
  match text.toList with
  | 'c' :: 'o' :: 'l' :: '_' :: name => (bindings[String.ofList name]?).map (·.val)
  | _ => none

/-- Secrets are made of integers. -/
def functions : String → List ℤ → Option ℤ
  | "sint", [n] => some n
  | _, _ => none

def bit (flag : Bool) : ℤ := if flag then 1 else 0

/-- Secrets are compared, and a bit chooses between two. -/
def methods : String → ℤ → List ℤ → Option ℤ
  | "__lt__", x, [y] => some (bit (x < y))
  | "__le__", x, [y] => some (bit (x ≤ y))
  | "__gt__", x, [y] => some (bit (y < x))
  | "__ge__", x, [y] => some (bit (y ≤ x))
  | "__eq__", x, [y] => some (bit (x = y))
  | "if_else", x, [yes, no] => some (if x = 1 then yes else no)
  | _, _, _ => none

def circuit (letters : Char → Bool) (bindings : TreeMap String I128) : Language :=
  ⟨letters, columns bindings, functions, methods⟩

/-! ## Texts put together -/

section Emitted

variable {letters : Char → Bool} {bindings : TreeMap String I128}

def Shows (letters : Char → Bool) (bindings : TreeMap String I128) (text : String) (x : ℤ) :
    Prop :=
  IsOperand (circuit letters bindings) text.toList x

variable {c : Char}

theorem isName_word {word : String} (hword : word.toList = c :: more)
    (h : (starts c && !c.isDigit) = true) (hall : ∀ d ∈ c :: more, continues letters d = true) :
    IsName letters word := by
  simp only [Bool.and_eq_true, Bool.not_eq_true'] at h
  obtain ⟨hstarts, hdigit⟩ := h
  refine ⟨⟨c, more, hword, hstarts, hdigit, ?_⟩, hword ▸ hall⟩
  refine ⟨?_, ?_, ?_⟩ <;> rintro rfl <;> cases hstarts

theorem continues_all {word : List Char} (h : word.all plain = true) :
    ∀ d ∈ word, continues letters d = true :=
  fun d hd => continues_plain (all_eq_true.mp h d hd)

variable {text : String}

theorem shows_paren (h : IsSum (circuit letters bindings) text.toList x) :
    Shows letters bindings ("(" ++ text ++ ")") x := by
  rw [Shows, toList_append, toList_append]
  exact h.paren.operand

variable {y : ℤ} {values : List ℤ}

theorem closed_called {receiver method args : String}
    (hreceiver : Shows letters bindings receiver x)
    (hargs : AreArguments (circuit letters bindings) args.toList values)
    (hmethod : method.toList = c :: more)
    (hword : (starts c && !c.isDigit) = true) (hplain : (c :: more).all plain = true)
    (hresult : methods method x values = some y) :
    IsClosed (circuit letters bindings) (called receiver method args).toList y := by
  have hclosed := hargs.method hreceiver.isSum.paren
    (isName_word hmethod hword (continues_all hplain)) hresult
  have htext : (called receiver method args).toList = ['('] ++ receiver.toList ++ [')'] ++ ['.'] ++
      method.toList ++ ['('] ++ args.toList ++ [')'] := by
    simp only [called, toList_append, append_assoc]
    rfl
  rw [htext]
  exact hclosed

theorem shows_literal (value : ℤ) :
    Shows letters bindings ("sint(" ++ toString value ++ ")") value := by
  have hnumber : IsSum (circuit letters bindings) (toString value).toList value := by
    cases value with
    | ofNat n =>
      have hdigits : (toString (Int.ofNat n)).toList = Nat.toDigits 10 n := by
        change n.repr.toList = _
        rw [Nat.repr_eq_ofList_toDigits, String.toList_ofList]
      rw [hdigits]
      exact (isOperand_number n).isSum
    | negSucc n =>
      have hdigits : (toString (Int.negSucc n)).toList = ['-'] ++ Nat.toDigits 10 (n + 1) := by
        change ("-" ++ (n + 1).repr).toList = _
        rw [toList_append, Nat.repr_eq_ofList_toDigits]
        exact congrArg ('-' :: ·) String.toList_ofList
      rw [hdigits]
      exact (isOperand_number (n + 1)).neg
  have hname : IsName letters "sint" := isName_word rfl (by decide) (continues_all (by decide))
  have hcall := hnumber.arguments.call (x := value) hname rfl
  have htext : ("sint(" ++ toString value ++ ")").toList =
      "sint".toList ++ ['('] ++ (toString value).toList ++ [')'] := by
    simp only [toList_append, append_assoc]
    rfl
  rw [Shows, htext]
  exact hcall.operand

theorem shows_column {name : String} (hname : ∀ c ∈ name.toList, continues letters c = true)
    (hvalue : bindings[name]? = some value) :
    Shows letters bindings ("col_" ++ name) value.val := by
  have htext : ("col_" ++ name).toList = 'c' :: 'o' :: 'l' :: '_' :: name.toList := by
    rw [toList_append]
    rfl
  refine isOperand_name (isName_word htext (by decide) ?_) ?_
  · have hcolumn : ∀ d ∈ ['c', 'o', 'l', '_'], continues letters d = true :=
      continues_all (by decide)
    exact forall_mem_append.mpr ⟨hcolumn, hname⟩
  · change columns bindings ("col_" ++ name) = _
    rw [columns, htext]
    simp [hvalue]

theorem shows_operation (operator : String)
    (hc : c = '+' ∧ z = x + y ∨ c = '-' ∧ z = x - y ∨ c = '*' ∧ z = x * y)
    (hleft : Shows letters bindings left x) (hright : Shows letters bindings right y)
    (hoperator : operator.toList = [' ', c, ' '])
    (htext : text = "(" ++ left ++ operator ++ right ++ ")") :
    Shows letters bindings text z := by
  have hparen : text = "(" ++ (left ++ operator ++ right) ++ ")" := by
    simp only [htext, String.append_assoc]
  rw [hparen]
  refine shows_paren ?_
  rw [toList_append, toList_append, hoperator]
  obtain hc | hc | ⟨rfl, rfl⟩ := hc
  · exact Operand.plus hleft hright (.inl hc)
  · exact Operand.plus hleft hright (.inr hc)
  · have hproduct := (AreFactors.cons hright areFactors_nil).isSum hleft
    rw [append_nil, ← append_assoc] at hproduct
    exact hproduct

theorem shows_compare (op : Cmp) (hleft : Shows letters bindings left x)
    (hright : Shows letters bindings right y) :
    Shows letters bindings (mpcCompare left op right) (bit (Cmp.holds op x y)) := by
  have hargs := hright.isSum.arguments
  cases op with
  | lt | le | gt | ge | eq =>
    exact (closed_called hleft hargs rfl (by decide) (by decide) rfl).operand
  | ne =>
    have hone : Shows letters bindings "1" 1 := isOperand_number 1
    have hequal : Shows letters bindings (called left "__eq__" right) (bit (x = y)) :=
      (closed_called hleft hargs rfl (by decide) (by decide) rfl).operand
    have hbit : bit (Cmp.holds .ne x y) = 1 - bit (x = y) := by
      by_cases h : x = y <;> simp [bit, Cmp.holds, h]
    have htext : mpcCompare left .ne right =
        "(" ++ "1" ++ " - " ++ called left "__eq__" right ++ ")" := by
      simp only [mpcCompare, ← toList_inj, toList_append]
      rfl
    rw [hbit]
    exact shows_operation " - " (.inr (.inl ⟨rfl, rfl⟩)) hone hequal rfl htext

theorem arguments_pair {first second : String}
    (hfirst : IsSum (circuit letters bindings) first.toList x)
    (hsecond : IsSum (circuit letters bindings) second.toList y) :
    AreArguments (circuit letters bindings) (first ++ ", " ++ second).toList [x, y] := by
  have hargs := hfirst.cons hsecond.arguments
  rw [toList_append, toList_append]
  exact hargs

theorem shows_smaller (ha : Shows letters bindings a x)
    (hb : Shows letters bindings b y) (hyes : Shows letters bindings yes p)
    (hno : Shows letters bindings no q) :
    Shows letters bindings
      ("(" ++ called a "__lt__" b ++ ".if_else(" ++ yes ++ ", " ++ no ++ "))")
      (if x < y then p else q) := by
  have hbit : IsClosed (circuit letters bindings) (called a "__lt__" b).toList
      (bit (x < y)) := closed_called ha hb.isSum.arguments rfl (by decide) (by decide) rfl
  have hname : IsName letters "if_else" := isName_word rfl (by decide) (continues_all (by decide))
  have hresult : methods "if_else" (bit (x < y)) [p, q] = some (if x < y then p else q) := by
    by_cases h : x < y <;> simp [methods, bit, h]
  have hchoice := (arguments_pair hyes.isSum hno.isSum).method hbit hname hresult
  have htext : ("(" ++ called a "__lt__" b ++ ".if_else(" ++ yes ++ ", " ++ no ++ "))").toList =
      ['('] ++ ((called a "__lt__" b).toList ++ ['.'] ++ "if_else".toList ++ ['('] ++
        (yes ++ ", " ++ no).toList ++ [')']) ++ [')'] := by
    simp only [toList_append, append_assoc]
    rfl
  rw [Shows, htext]
  exact hchoice.operand.isSum.paren.operand

theorem shows_choice {bit yes no : String} (hbit : Shows letters bindings bit b)
    (hyes : IsSum (circuit letters bindings) yes.toList p)
    (hno : IsSum (circuit letters bindings) no.toList q) :
    Shows letters bindings (called bit "if_else" (yes ++ ", " ++ no))
      (if b = 1 then p else q) :=
  (closed_called hbit (arguments_pair hyes hno) rfl (by decide) (by decide) rfl).operand

theorem shows_clamp (hv : Shows letters bindings v x)
    (hlo : Shows letters bindings lo low) (hhi : Shows letters bindings hi high) :
    Shows letters bindings (mpcCall "clamp" [v, lo, hi])
      (if x < low then low else if high < x then high else x) := by
  have hless : ∀ {a b : String} {y z : ℤ}, Shows letters bindings a y →
      Shows letters bindings b z →
      Shows letters bindings (called a "__lt__" b) (bit (y < z)) := fun ha hb =>
    (closed_called ha hb.isSum.arguments rfl (by decide) (by decide) rfl).operand
  have hinner := shows_choice (hless hhi hv) hhi.isSum hv.isSum
  have houter := shows_choice (hless hv hlo) hlo.isSum hinner.isSum
  have hvalue : (if bit (x < low) = 1 then low else if bit (high < x) = 1 then high else x) =
      if x < low then low else if high < x then high else x := by
    by_cases h : x < low <;> by_cases h' : high < x <;> simp [bit, h, h']
  rw [hvalue] at houter
  exact shows_paren houter.isSum

theorem shows_signed (hside : Shows letters bindings side b)
    (hmagnitude : Shows letters bindings magnitude x) :
    Shows letters bindings (mpcCall "signed" [side, magnitude])
      (if b = 1 then x else -x) := by
  have hopposite : IsSum (circuit letters bindings) ("-(" ++ magnitude ++ ")").toList
      (-x) := by
    have htext : ("-(" ++ magnitude ++ ")").toList =
        ['-'] ++ (['('] ++ magnitude.toList ++ [')']) := by
      simp only [toList_append]
      rfl
    rw [htext]
    exact hmagnitude.isSum.paren.operand.neg
  have htext : mpcCall "signed" [side, magnitude] = "(" ++ called side "if_else"
      (magnitude ++ ", " ++ ("-(" ++ magnitude ++ ")")) ++ ")" := by
    simp only [mpcCall, called, ← toList_inj, toList_append, append_assoc]
    rfl
  rw [htext]
  exact shows_paren (shows_choice hside hmagnitude.isSum hopposite).isSum

theorem toList_conjunction :
    (" * ".intercalate (mpcAll (first :: rest))).toList = (mpc first).toList ++
      rest.flatMap fun part => [' ', '*', ' '] ++ (mpc part).toList := by
  induction rest generalizing first with
  | nil => rw [mpcAll, mpcAll, String.intercalate_singleton, flatMap_nil, append_nil]
  | cons part parts ih =>
    rw [mpcAll, mpcAll, String.intercalate_cons_cons, ← mpcAll, toList_append,
      toList_append, ih, flatMap_cons, append_assoc, append_assoc]
    rfl

theorem shows_and (hfirst : Shows letters bindings (mpc first) x)
    (hrest : List.Forall₂ (fun part y => Shows letters bindings (mpc part) y) rest values) :
    Shows letters bindings (mpc (.and (first :: rest))) (values.foldl (· * ·) x) := by
  have hfactors : AreFactors (circuit letters bindings)
      (rest.flatMap fun part => [' ', '*', ' '] ++ (mpc part).toList) values := by
    induction hrest with
    | nil => exact areFactors_nil
    | cons hpart _ ih => exact AreFactors.cons hpart ih
  rw [mpc]
  refine shows_paren ?_
  rw [toList_conjunction]
  exact hfactors.isSum hfirst

end Emitted

/-! ## Conjunctions have parts -/

section Joined

variable {unicode : Unicode} {lineno : ℕ}

theorem parseLine_joined (h : parseLine unicode draft raw lineno = .ok result)
    (hdraft : ∀ output ∈ draft.outputs, joined output.2 = true) :
    ∀ output ∈ result.outputs, joined output.2 = true := by
  unfold parseLine at h
  simp only at h
  split at h
  · cases h
    exact hdraft
  · split at h
    · obtain ⟨_, _, h⟩ := bind_ok.mp h
      cases h
      exact hdraft
    · obtain ⟨_, _, h⟩ := bind_ok.mp h
      obtain ⟨_, h⟩ := refuseIf_bind_ok.mp h
      obtain ⟨_, h⟩ := refuseIf_bind_ok.mp h
      obtain ⟨_, hexpr, h⟩ := bind_ok.mp h
      cases h
      refine forall_mem_append.mpr ⟨hdraft, forall_mem_singleton.mpr ?_⟩
      exact joined_parseExpression hexpr

theorem parseLines_joined (h : parseLines unicode draft lineno raws = .ok result)
    (hdraft : ∀ output ∈ draft.outputs, joined output.2 = true) :
    ∀ output ∈ result.outputs, joined output.2 = true := by
  induction raws generalizing draft lineno with
  | nil =>
    cases h
    exact hdraft
  | cons raw rest ih =>
    obtain ⟨_, hnext, h⟩ := bind_ok.mp h
    exact ih h (parseLine_joined hnext hdraft)

theorem parse_joined (h : parse unicode source name = .ok rule) :
    ∀ output ∈ rule.outputs, joined output.2 = true := by
  obtain ⟨_, hdraft, h⟩ := bind_ok.mp h
  obtain ⟨_, h⟩ := refuseIf_bind_ok.mp h
  obtain ⟨_, h⟩ := refuseIf_bind_ok.mp h
  cases h
  exact parseLines_joined hdraft nofun

end Joined

/-! ## The text agrees with the evaluator -/

theorem foldl_land {values : List ℤ} (hvalues : ∀ v ∈ values, v = 0 ∨ v = 1) {x : ℤ}
    (hx : x = 0 ∨ x = 1) : values.foldl Int.land x = values.foldl (· * ·) x := by
  induction values generalizing x with
  | nil => rfl
  | cons v rest ih =>
    obtain ⟨hv, hrest⟩ := forall_mem_cons.mp hvalues
    have hstep : Int.land x v = x * v ∧ (x * v = 0 ∨ x * v = 1) := by
      obtain rfl | rfl := hx <;> obtain rfl | rfl := hv <;> decide
    rw [foldl_cons, foldl_cons, hstep.1]
    exact ih hrest hstep.2

mutual

/-- The expressions in an expression, itself included. -/
def subterms : Expr → List Expr
  | .const value => [.const value]
  | .name name => [.name name]
  | .neg inner => .neg inner :: subterms inner
  | .add left right => .add left right :: (subterms left ++ subterms right)
  | .sub left right => .sub left right :: (subterms left ++ subterms right)
  | .mul left right => .mul left right :: (subterms left ++ subterms right)
  | .compare left op right => .compare left op right :: (subterms left ++ subterms right)
  | .and parts => .and parts :: subtermsAll parts
  | .call name args => .call name args :: subtermsAll args

def subtermsAll : List Expr → List Expr
  | [] => []
  | expr :: rest => subterms expr ++ subtermsAll rest

end

/-- Whether an expression has a value over the exact integers that fits the machine and, for a
conjunction, whether all of its parts are zero or one. -/
def proper (bindings : TreeMap String I128) (expr : Expr) : Bool :=
  passes (eval exactArithmetic bindings expr) (fun x => decide (Fits 127 x)) &&
    match expr with
    | .and parts => parts.all fun part =>
      passes (eval exactArithmetic bindings part) fun x => x = 0 || x = 1
    | _ => true

def Proper (bindings : TreeMap String I128) (expr : Expr) : Prop :=
  ∀ sub ∈ subterms expr, proper bindings sub

section Agreement

variable {letters : Char → Bool} {bindings : TreeMap String I128} {build : Machine}

theorem mem_subtermsAll : sub ∈ subtermsAll args ↔ ∃ arg ∈ args, sub ∈ subterms arg := by
  induction args with
  | nil => simp only [subtermsAll, not_mem_nil, false_and, exists_false]
  | cons arg rest ih => rw [subtermsAll, mem_append, ih, exists_mem_cons_iff]

theorem mem_subterms :
    sub ∈ subterms expr ↔ sub = expr ∨ ∃ operand ∈ operands expr, sub ∈ subterms operand := by
  cases expr <;>
    simp only [subterms, operands, mem_subtermsAll, mem_append, mem_cons, not_mem_nil, or_false,
      false_and, exists_false, exists_eq_or_imp, exists_eq_left]

theorem Proper.inner (h : Proper bindings expr) (hmem : operand ∈ operands expr) :
    Proper bindings operand :=
  fun sub hsub => h sub (mem_subterms.mpr (.inr ⟨operand, hmem, hsub⟩))

theorem Proper.value (h : Proper bindings expr) :
    ∃ value : I128, eval exactArithmetic bindings expr = .ok value.val := by
  obtain ⟨hvalue, _⟩ := Bool.and_eq_true_iff.mp (h expr (mem_subterms.mpr (.inl rfl)))
  obtain ⟨x, hx, hfits⟩ := passes_iff.mp hvalue
  exact ⟨⟨x, of_decide_eq_true hfits⟩, hx⟩

theorem Proper.zero_or_one (h : Proper bindings (.and parts)) (hmem : part ∈ parts)
    (hx : eval exactArithmetic bindings part = .ok x) : x = 0 ∨ x = 1 := by
  obtain ⟨_, hparts⟩ := Bool.and_eq_true_iff.mp (h _ (mem_subterms.mpr (.inl rfl)))
  have hpart := all_eq_true.mp hparts part hmem
  rw [hx] at hpart
  simpa [passes] using hpart

/-! ### One value -/

/-- An expression has one value: on every build, over the exact integers, and in its text. -/
structure Agrees (letters : Char → Bool) (bindings : TreeMap String I128) (expr : Expr)
    (value : I128) : Prop where
  exact : eval exactArithmetic bindings expr = .ok value.val
  machine : ∀ build, eval (machineArithmetic build) bindings expr = .ok value
  text : Shows letters bindings (mpc expr) value.val

variable {value : I128}

theorem number_eq (h : x = value.val) : build.number x = .ok value := by
  rw [h, build.number_of_fits value.2]

theorem ok_eq {v : I128} (h : (.ok v.val : Except Stop ℤ) = .ok value.val) :
    (.ok v : Except Stop I128) = .ok value :=
  congrArg _ (Subtype.ext (Except.ok.inj h))

theorem agrees_binary (op : ℤ → ℤ → ℤ) (hl : Agrees letters bindings left l)
    (hr : Agrees letters bindings right r)
    (heval : ∀ {N : Type} (arithmetic : Arithmetic N), eval arithmetic bindings expr =
      eval arithmetic bindings left >>= fun x => eval arithmetic bindings right >>= fun y =>
        arithmetic.number (op (arithmetic.value x) (arithmetic.value y)))
    (hexact : eval exactArithmetic bindings expr = .ok value.val)
    (htext : Shows letters bindings (mpc expr) (op l.val r.val)) :
    Agrees letters bindings expr value := by
  have hvalue : op l.val r.val = value.val := by
    rw [heval, hl.exact, hr.exact] at hexact
    exact Except.ok.inj hexact
  refine ⟨hexact, fun build => ?_, hvalue ▸ htext⟩
  rw [heval, hl.machine, hr.machine]
  exact number_eq hvalue

theorem agrees_compare (op : Cmp) (hl : Agrees letters bindings left l)
    (hr : Agrees letters bindings right r) :
    Agrees letters bindings (.compare left op right)
      (if Cmp.holds op l.val r.val then one else zero) := by
  refine ⟨?_, fun build => ?_, ?_⟩
  · rw [eval, hl.exact, hr.exact]
    rfl
  · rw [eval, hl.machine, hr.machine]
    rfl
  · have hbit : bit (Cmp.holds op l.val r.val) =
        (if Cmp.holds op l.val r.val then one else zero : I128).val := by
      rw [bit]
      split <;> rfl
    rw [← hbit]
    exact shows_compare op hl.text hr.text

theorem agrees_arguments (h : ∀ arg ∈ args, ∃ value, Agrees letters bindings arg value) :
    ∃ values : List I128, evalAll exactArithmetic bindings args = .ok (values.map (·.val)) ∧
      (∀ build, evalAll (machineArithmetic build) bindings args = .ok values) ∧
      List.Forall₂ (fun arg x => Shows letters bindings (mpc arg) x) args
        (values.map (·.val)) := by
  induction args with
  | nil => exact ⟨[], rfl, fun _ => rfl, .nil⟩
  | cons arg rest ih =>
    obtain ⟨⟨value, hvalue⟩, hrest⟩ := forall_mem_cons.mp h
    obtain ⟨values, hexacts, hmachines, hshows⟩ := ih hrest
    refine ⟨value :: values, ?_, fun build => ?_, .cons hvalue.text hshows⟩
    · rw [evalAll, hvalue.exact, hexacts]
      rfl
    · rw [evalAll, hvalue.machine, hmachines]
      rfl

theorem machine_call {values : List I128}
    (h : evalCall exactArithmetic name (values.map (·.val)) = .ok value.val) :
    evalCall (machineArithmetic build) name values = .ok value := by
  have hsame : List.Forall₂ (fun x (v : I128) => x = v.val) (values.map (·.val)) values :=
    forall₂_map_left_iff.mpr (forall₂_same.mpr fun _ _ => rfl)
  unfold evalCall at h
  split at h
  · rename_i heq
    rw [heq] at hsame
    obtain ⟨a, c, rfl, rfl, rfl⟩ := forall₂_pair hsame
    exact ok_eq ((congrArg _ (apply_ite Subtype.val _ _ _)).trans h)
  · rename_i heq
    rw [heq] at hsame
    obtain ⟨a, c, rfl, rfl, rfl⟩ := forall₂_pair hsame
    exact ok_eq ((congrArg _ (apply_ite Subtype.val _ _ _)).trans h)
  · rename_i heq
    rw [heq] at hsame
    obtain ⟨v, lo, hi, rfl, rfl, rfl, rfl⟩ := forall₂_triple hsame
    change (if hi.val < lo.val then _ else if v.val < lo.val then _ else if hi.val < v.val then _
      else _) = _ at h ⊢
    split_ifs at h ⊢ <;> exact ok_eq h
  · rename_i heq
    rw [heq] at hsame
    obtain ⟨side, magnitude, rfl, rfl, rfl⟩ := forall₂_pair hsame
    change (if side.val = 1 then _ else _) = _ at h ⊢
    split_ifs at h ⊢
    · exact ok_eq h
    · exact number_eq (Except.ok.inj h)
  · cases h

variable {values : List ℤ}

theorem agrees_conditions {parts : List Expr} {all : ℤ}
    (h : ∀ part ∈ parts, ∀ x, eval exactArithmetic bindings part = .ok x →
      Shows letters bindings (mpc part) x ∧ (x = 0 ∨ x = 1))
    (heval : evalConditions exactArithmetic bindings all parts = .ok x) :
    ∃ values, List.Forall₂ (fun part y => Shows letters bindings (mpc part) y) parts
      values ∧ (∀ v ∈ values, v = 0 ∨ v = 1) ∧ x = values.foldl Int.land all := by
  induction parts generalizing all with
  | nil =>
    cases heval
    exact ⟨[], .nil, nofun, rfl⟩
  | cons part rest ih =>
    obtain ⟨hpart, hrest⟩ := forall_mem_cons.mp h
    rw [evalConditions] at heval
    obtain ⟨value, hvalue, heval⟩ := bind_ok.mp heval
    obtain ⟨hshows, hbit⟩ := hpart value hvalue
    obtain ⟨values, hothers, hbits, hx⟩ := ih hrest heval
    exact ⟨value :: values, .cons hshows hothers, forall_mem_cons.mpr ⟨hbit, hbits⟩, hx⟩

theorem shows_call (h : List.Forall₂ (fun arg y => Shows letters bindings (mpc arg) y) args values)
    (heval : evalCall exactArithmetic name values = .ok x) :
    Shows letters bindings (mpc (.call name args)) x := by
  unfold evalCall at heval
  split at heval
  · rename_i x y
    obtain ⟨a, c, ha, hc, rfl⟩ := forall₂_pair h.flip
    have hvalue : (if x < y then x else y) = if y < x then y else x := by
      split <;> split <;> omega
    have hmin := shows_smaller ha hc ha hc
    rw [hvalue] at hmin
    cases heval
    exact hmin
  · rename_i x y
    obtain ⟨a, c, ha, hc, rfl⟩ := forall₂_pair h.flip
    have hvalue : (if x < y then y else x) = if y < x then x else y := by
      split <;> split <;> omega
    have hmax := shows_smaller ha hc hc ha
    rw [hvalue] at hmax
    cases heval
    exact hmax
  · rename_i z low high
    obtain ⟨v, lo, hi, hv, hlo, hhi, rfl⟩ := forall₂_triple h.flip
    have hvalue : (if z < low then low else if high < z then high else z) = x := by
      change (if high < low then _ else if z < low then _ else if high < z then _ else _) = _
        at heval
      split at heval
      · cases heval
      · split at heval
        · rw [if_pos ‹_›]
          exact Except.ok.inj heval
        · rw [if_neg ‹_›]
          split at heval
          · rw [if_pos ‹_›]
            exact Except.ok.inj heval
          · rw [if_neg ‹_›]
            exact Except.ok.inj heval
    rw [← hvalue]
    exact shows_clamp hv hlo hhi
  · rename_i b z
    obtain ⟨side, magnitude, hside, hmagnitude, rfl⟩ := forall₂_pair h.flip
    have hvalue : (if b = 1 then z else -z) = x := by
      change (if b = 1 then _ else _) = _ at heval
      split at heval
      · rw [if_pos ‹_›]
        exact Except.ok.inj heval
      · rw [if_neg ‹_›]
        exact Except.ok.inj heval
    rw [← hvalue]
    exact shows_signed hside hmagnitude
  · cases heval

theorem joinedAll_iff : joinedAll args ↔ ∀ arg ∈ args, joined arg := by
  induction args with
  | nil => simp only [joinedAll, not_mem_nil, false_imp_iff, implies_true]
  | cons arg rest ih => rw [joinedAll, Bool.and_eq_true, ih, forall_mem_cons]

theorem joined_operand (h : joined expr) (hmem : operand ∈ operands expr) : joined operand := by
  cases expr <;>
    simp only [operands, joined, Bool.and_eq_true, joinedAll_iff, mem_cons,
      not_mem_nil, or_false] at h hmem <;>
    grind

/-- A conjunction is a product where its parts are bits. -/
theorem shows_conjunction {parts : List Expr} (hjoined : joined (.and parts))
    (h : ∀ part ∈ parts, ∀ x, eval exactArithmetic bindings part = .ok x →
      Shows letters bindings (mpc part) x ∧ (x = 0 ∨ x = 1))
    (heval : evalConditions exactArithmetic bindings 1 parts = .ok x) :
    Shows letters bindings (mpc (.and parts)) x := by
  rw [joined, Bool.and_eq_true] at hjoined
  obtain ⟨values, hshows, hbits, hx⟩ := agrees_conditions h heval
  cases hshows with
  | nil => cases hjoined.1
  | @cons first y rest values hfirst hrest =>
    obtain ⟨hy, hvalues⟩ := forall_mem_cons.mp hbits
    have hstart : Int.land 1 y = y := by
      obtain rfl | rfl := hy <;> decide
    have hvalue : x = values.foldl (· * ·) y := by
      rw [hx, foldl_cons, ← foldl_land hvalues hy]
      exact congrArg (values.foldl Int.land) hstart
    rw [hvalue]
    exact shows_and hfirst hrest

theorem shows_neg {inner : Expr} (h : Shows letters bindings (mpc inner) y) :
    Shows letters bindings (mpc (.neg inner)) (-y) := by
  have htext : mpc (.neg inner) = "(" ++ ("-" ++ mpc inner) ++ ")" := by
    simp only [mpc, ← toList_inj, toList_append, append_assoc]
    rfl
  rw [htext]
  refine shows_paren ?_
  rw [toList_append]
  exact Operand.neg h

theorem mem_namesAll : name ∈ namesAll args ↔ ∃ arg ∈ args, name ∈ arg.names := by
  induction args with
  | nil => simp only [namesAll, not_mem_nil, false_and, exists_false]
  | cons arg rest ih => rw [namesAll, mem_append, ih, exists_mem_cons_iff]

theorem names_operand (hmem : operand ∈ operands expr) : operand.names ⊆ expr.names := by
  intro name hname
  cases expr <;>
    simp only [operands, Expr.names, mem_namesAll, mem_append, mem_cons, not_mem_nil,
      or_false] at hmem ⊢ <;>
    grind

theorem agrees_and {parts : List Expr} (hjoined : joined (.and parts))
    (h : ∀ part ∈ parts, ∃ value, Agrees letters bindings part value)
    (hproper : Proper bindings (.and parts)) :
    ∃ value, Agrees letters bindings (.and parts) value := by
  have hbits : ∀ part ∈ parts, ∃ value, Has bindings part .condition value := by
    intro part hmem
    obtain ⟨v, hv⟩ := h part hmem
    obtain hbit | hbit := hproper.zero_or_one hmem hv.exact
    · exact ⟨v, hv.machine, hv.exact, by rw [hbit]; exact contains_bit false⟩
    · exact ⟨v, hv.machine, hv.exact, by rw [hbit]; exact contains_bit true⟩
  obtain ⟨value, hmachine, hexact, _⟩ := has_conditions hbits one (contains_bit true)
  refine ⟨value, hexact, hmachine, shows_conjunction hjoined (fun part hmem x hx => ?_) hexact⟩
  obtain ⟨v, hv⟩ := h part hmem
  obtain rfl := Except.ok.inj (hv.exact.symm.trans hx)
  exact ⟨hv.text, hproper.zero_or_one hmem hx⟩

/-- Where all values fit and conditions are bits, an expression has one value. -/
theorem Proper.agrees (h : Proper bindings expr) (hjoined : joined expr)
    (hnames : ∀ name ∈ expr.names, ∀ c ∈ name.toList, continues letters c = true) :
    ∃ value, Agrees letters bindings expr value := by
  induction expr using operands_induction with | step expr ih
  have hparts : ∀ operand ∈ operands expr, ∃ value, Agrees letters bindings operand value :=
    fun operand hmem => ih operand hmem (h.inner hmem) (joined_operand hjoined hmem)
      fun name hname => hnames name (names_operand hmem hname)
  obtain ⟨value, hexact⟩ := h.value
  cases expr with
  | const number => exact ⟨number, rfl, fun _ => rfl, shows_literal number.val⟩
  | name name =>
    rw [eval] at hexact
    obtain ⟨bound, hbound, _⟩ := bind_ok.mp hexact
    rw [orRefuse_ok] at hbound
    refine ⟨bound, ?_, fun _ => ?_, shows_column (hnames name mem_cons_self) hbound⟩ <;>
    · rw [eval, hbound]
      rfl
  | neg =>
    obtain ⟨inner, hinner⟩ := forall_mem_singleton.mp hparts
    have hvalue : -inner.val = value.val := by
      rw [eval, hinner.exact] at hexact
      exact Except.ok.inj hexact
    refine ⟨value, hexact, fun _ => ?_, hvalue ▸ shows_neg hinner.text⟩
    rw [eval, hinner.machine]
    exact number_eq hvalue
  | add =>
    obtain ⟨⟨_, hl⟩, _, hr⟩ := forall_mem_pair.mp hparts
    exact ⟨value, agrees_binary (· + ·) hl hr (fun _ => rfl) hexact
      (shows_operation " + " (.inl ⟨rfl, rfl⟩) hl.text hr.text rfl rfl)⟩
  | sub =>
    obtain ⟨⟨_, hl⟩, _, hr⟩ := forall_mem_pair.mp hparts
    exact ⟨value, agrees_binary (· - ·) hl hr (fun _ => rfl) hexact
      (shows_operation " - " (.inr (.inl ⟨rfl, rfl⟩)) hl.text hr.text rfl rfl)⟩
  | mul =>
    obtain ⟨⟨_, hl⟩, _, hr⟩ := forall_mem_pair.mp hparts
    exact ⟨value, agrees_binary (· * ·) hl hr (fun _ => rfl) hexact
      (shows_operation " * " (.inr (.inr ⟨rfl, rfl⟩)) hl.text hr.text rfl rfl)⟩
  | compare left op =>
    obtain ⟨⟨_, hl⟩, _, hr⟩ := forall_mem_pair.mp hparts
    exact ⟨_, agrees_compare op hl hr⟩
  | and => exact agrees_and hjoined hparts h
  | call name args =>
    have hargs : ∀ arg ∈ args, ∃ value, Agrees letters bindings arg value := hparts
    obtain ⟨values, hexacts, hmachines, hshows⟩ := agrees_arguments hargs
    have hcall : evalCall exactArithmetic name (values.map (·.val)) = .ok value.val := by
      rw [eval, hexacts] at hexact
      exact hexact
    refine ⟨value, hexact, fun _ => ?_, shows_call hshows hcall⟩
    rw [eval, hmachines]
    exact machine_call hcall

/-! ### What the checker ensures -/

variable {unicode : Unicode} {machine : Machine} {declarations : TreeMap String Declaration}

theorem checkOutputs_ok (h : checkOutputs unicode machine declarations facts outputs = .ok result)
    (hmem : output ∈ outputs) :
    ∃ analysis, visit unicode machine declarations output.1 output.2 = .ok analysis := by
  induction outputs generalizing facts with
  | nil => cases hmem
  | cons first rest ih =>
    obtain ⟨_, _⟩ := first
    rw [checkOutputs] at h
    obtain ⟨analysis, hvisit, h⟩ := bind_ok.mp h
    obtain rfl | hmem := mem_cons.mp hmem
    · exact ⟨analysis, hvisit⟩
    · exact ih h hmem

theorem proper_of_visit (hbinds : Binds declarations bindings)
    (hvisit : visit unicode machine declarations label expr = .ok analysis)
    (hfits : AllFit (numbers declarations expr)) (hbalanced : balanced declarations expr) :
    Proper bindings expr := by
  induction expr using operands_induction generalizing analysis with | step expr ih
  intro sub hsub
  obtain rfl | ⟨operand, hmem, hsub⟩ := mem_subterms.mp hsub
  · obtain ⟨value, hvalue⟩ := sound_visit hbinds sub analysis hvisit hfits hbalanced
    refine Bool.and_eq_true_iff.mpr ⟨passes_iff.mpr ⟨_, hvalue.exact, decide_eq_true value.2⟩, ?_⟩
    cases sub with
    | and parts =>
      have hvalues := sound_operands (fun part _ => sound_visit hbinds part) hvisit hfits hbalanced
      rw [visit] at hvisit
      obtain ⟨_, hobligations, _⟩ := bind_ok.mp hvisit
      refine all_eq_true.mpr fun part hmem => ?_
      obtain ⟨v, hv⟩ := has_conditions_of_visit hobligations hfits hvalues part hmem
      refine passes_iff.mpr ⟨_, hv.exact, ?_⟩
      obtain rfl | rfl := bit_of_contains hv.contained <;> rfl
    | _ => rfl
  · obtain ⟨part, hpart⟩ := visit_operand hvisit hmem
    exact ih operand hmem hpart (allFit_operand hfits hmem) (balanced_operand hbalanced hmem) sub
      hsub

def Matches (language : Language) (texts : TreeMap String String) (values : TreeMap String I128) :
    Prop :=
  ∀ label : String, (texts[label]? = none ∧ values[label]? = none) ∨
    ∃ text value, texts[label]? = some text ∧ values[label]? = some value ∧
      denote language text = some value.val

variable {values : TreeMap String I128}

theorem Matches.insert (h : Matches language texts values) (label : String)
    {value : I128} (hdenote : denote language text = some value.val) :
    Matches language (texts.insert label text) (values.insert label value) := by
  intro other
  simp only [TreeMap.getElem?_insert]
  by_cases hlabel : compare label other = .eq
  · simp only [hlabel, if_true]
    exact .inr ⟨text, value, rfl, rfl, hdenote⟩
  · simp only [hlabel, if_false]
    exact h other

theorem matches_outputs (outputs : List (String × Expr))
    (hmatches : Matches (circuit letters bindings) texts values)
    (hproper : ∀ output ∈ outputs, Proper bindings output.2)
    (hjoined : ∀ output ∈ outputs, joined output.2 = true)
    (hnames : ∀ output ∈ outputs, ∀ name ∈ output.2.names, ∀ c ∈ name.toList,
      continues letters c = true) :
    ∃ values', (∀ build, evaluateOutputs (machineArithmetic build) bindings values outputs =
        .ok values') ∧
      Matches (circuit letters bindings)
        (outputs.foldl (fun texts output => texts.insert output.1 (mpc output.2)) texts)
        values' := by
  induction outputs generalizing texts values with
  | nil => exact ⟨values, fun _ => rfl, hmatches⟩
  | cons output rest ih =>
    obtain ⟨label, tree⟩ := output
    obtain ⟨htree, hrest⟩ := forall_mem_cons.mp hproper
    obtain ⟨hconjunctions, hothers⟩ := forall_mem_cons.mp hjoined
    obtain ⟨hread, hreads⟩ := forall_mem_cons.mp hnames
    obtain ⟨value, hvalue⟩ := htree.agrees hconjunctions hread
    obtain ⟨values', heval, hmatches'⟩ := ih
      (hmatches.insert label (Operand.isSum hvalue.text).denote) hrest hothers hreads
    refine ⟨values', fun build => ?_, hmatches'⟩
    rw [evaluateOutputs, hvalue.machine]
    exact heval build

end Agreement

/-! ## Rules -/

/-- For every rule that a build accepts whose outputs read names of characters that a name goes on
with: at every binding where over the exact integers all values of the outputs fit the machine and
all parts of conjunctions are zero or one, the evaluator returns values, the circuit has a text for
the same outputs, and each text, read with Python's grammar over columns that stand for the bound
integers, stands for the value of its output. All bindings within the declared bounds are such if
the bounds that the analysis forms fit the machine and every magnitude reaches at least as far up as
down. -/
theorem circuit_texts_denote_values (unicode : Unicode) (machine : Machine)
    (source name : String) (parsed rule : Rule)
    (hparse : parse unicode source name = .ok parsed)
    (haccepted : compileRule unicode machine source name = .ok rule) (letters : Char → Bool)
    (hnames : ∀ output ∈ rule.outputs, ∀ read ∈ output.2.names, ∀ c ∈ read.toList,
      continues letters c = true) (bindings : TreeMap String I128) :
    ((∀ output ∈ rule.outputs, Proper bindings output.2) →
      ∃ values, (∀ build, evaluate (machineArithmetic build) bindings rule = .ok values) ∧
        ∀ label : String, ((toMpc rule)[label]? = none ∧ values[label]? = none) ∨
          ∃ text value, (toMpc rule)[label]? = some text ∧ values[label]? = some value ∧
            denote (circuit letters bindings) text = some value.val) ∧
    (AllFit (ruleNumbers parsed) →
      (∀ output ∈ parsed.outputs, balanced parsed.declarations output.2) →
      Binds parsed.declarations bindings → ∀ output ∈ rule.outputs, Proper bindings output.2) := by
  unfold compileRule at haccepted
  rw [hparse] at haccepted
  obtain ⟨_, hcheck, houtputs, _⟩ := check_ok haccepted
  rw [houtputs] at hnames ⊢
  refine ⟨fun hproper => ?_, fun hfits hbalanced hbinds output houtput => ?_⟩
  · have hempty : Matches (circuit letters bindings) ∅ ∅ :=
      fun _ => .inl ⟨TreeMap.getElem?_emptyc, TreeMap.getElem?_emptyc⟩
    simp only [evaluate, toMpc, houtputs]
    exact matches_outputs parsed.outputs hempty hproper (parse_joined hparse) hnames
  · obtain ⟨_, hvisit⟩ := checkOutputs_ok hcheck houtput
    refine proper_of_visit hbinds hvisit (fun x hx => hfits x ?_) (hbalanced output houtput)
    exact mem_append_left _ (mem_flatMap.mpr ⟨output, houtput, hx⟩)

/-! ### Samples -/

/-- What the text of an output stands for. -/
def denoted (bindings : TreeMap String I128) (rule : Rule) (label : String) : Option ℤ :=
  ((toMpc rule)[label]?).bind (denote (circuit (fun _ => false) bindings))

/-- A conjunction of two conditions over a magnitude that reaches further down than up. -/
def powerSource : String :=
  "param m[-5,1]\ninput c[0,1]\nout = max(signed(c, m), 0) and max(signed(c, m), 0)\n"

def powerBindings : TreeMap String I128 := .ofList [("m", ⟨-5, by decide⟩), ("c", zero)]

/-- The text stands for twenty-five where the evaluator returns one. -/
theorem conjunction_multiplied :
    ∃ rule values, compileRule plainText .checked powerSource "power" = .ok rule ∧
      Binds rule.declarations powerBindings ∧
      evaluate (machineArithmetic .checked) powerBindings rule = .ok values ∧
      values["out"]? = some one ∧ denoted powerBindings rule "out" = some 25 := by
  have hrun : passes (compileRule plainText .checked powerSource "power") (fun rule =>
      rule.declarations.toList.all (bound powerBindings) &&
        denoted powerBindings rule "out" = some 25 &&
        passes (evaluate (machineArithmetic .checked) powerBindings rule) fun values =>
          values["out"]? = some one) = true := by
    decide +kernel
  obtain ⟨rule, hrule, hrun⟩ := passes_iff.mp hrun
  simp only [Bool.and_eq_true, decide_eq_true_eq] at hrun
  obtain ⟨⟨hbound, htext⟩, hvalue⟩ := hrun
  obtain ⟨values, hvalues, hvalue⟩ := passes_iff.mp hvalue
  exact ⟨rule, values, hrule, binds_of_bound hbound, hvalues, of_decide_eq_true hvalue, htext⟩

/-- The circuit of a rule with a magnitude that reaches further down than up. -/
theorem unbalanced_circuit_agrees :
    ∃ rule values, compileRule plainText .checked signSource "sign" = .ok rule ∧
      evaluate (machineArithmetic .checked) signBindings rule = .ok values ∧
      ∀ label : String, denoted signBindings rule label = (values[label]?).map (·.val) := by
  have hrun : (parse plainText signSource "sign").isOk = true ∧
      passes (compileRule plainText .checked signSource "sign") (fun rule =>
        rule.outputs.all fun output =>
          output.2.names.all (fun read => read.toList.all (continues fun _ => false)) &&
            (subterms output.2).all (proper signBindings)) = true := by
    decide +kernel
  obtain ⟨parsed, hparse⟩ := isOk_iff.mp hrun.1
  obtain ⟨rule, hrule, houtputs⟩ := passes_iff.mp hrun.2
  simp only [all_eq_true, Bool.and_eq_true] at houtputs
  obtain ⟨values, heval, htexts⟩ := (circuit_texts_denote_values plainText .checked signSource
    "sign" parsed rule hparse hrule _ (fun output hmem => (houtputs output hmem).1)
    signBindings).1 fun output hmem => (houtputs output hmem).2
  refine ⟨rule, values, hrule, heval .checked, fun label => ?_⟩
  obtain ⟨htext, hvalue⟩ | ⟨_, _, htext, hvalue, hdenote⟩ := htexts label
  · rw [denoted, htext, hvalue]
    rfl
  · rw [denoted, htext, hvalue]
    exact hdenote

end Zkpi.RuleCircuits
