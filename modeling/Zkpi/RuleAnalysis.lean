import Zkpi.RuleSyntax
import Zkpi.ByteText
import Mathlib.Data.Int.Bitwise

/-!
# Checking a price rule

A rule declares names with bounds and assigns expressions to outputs. Checking it propagates the
bounds through the expressions and derives the interval of each output, its degree in the declared
names, and what an audit has to prove. The same rule is evaluated in the clear.

Both are programs over machine integers, for a build with or without overflow checks. The evaluator
is also read over the exact integers.
-/

namespace Zkpi.RuleAnalysis

open FallibleChecks MachineArithmetic RuleSyntax
open Std (TreeMap)

/-! ## Intervals -/

/-- The values an expression may take. -/
structure Interval where
  lo : I128
  hi : I128
  deriving DecidableEq

namespace Interval

def new (lo hi : I128) : Except Stop Interval :=
  if hi.val < lo.val then .error (.refused s!"empty interval [{lo.val}, {hi.val}]")
  else .ok ⟨lo, hi⟩

def point (value : I128) : Interval := ⟨value, value⟩

def isCondition (interval : Interval) : Bool := interval.lo.val = 0 && interval.hi.val = 1

variable (machine : Machine)

/-- Two bounds computed one after the other. -/
def ofNumbers (lo hi : ℤ) : Except Stop Interval := do
  let lo ← machine.number lo
  let hi ← machine.number hi
  .ok ⟨lo, hi⟩

variable (first second : Interval)

def plus : Except Stop Interval :=
  ofNumbers machine (first.lo.val + second.lo.val) (first.hi.val + second.hi.val)

def minus : Except Stop Interval :=
  ofNumbers machine (first.lo.val - second.hi.val) (first.hi.val - second.lo.val)

variable (interval : Interval)

def negated : Except Stop Interval :=
  ofNumbers machine (-interval.hi.val) (-interval.lo.val)

/-- The least and the largest of the four corners. -/
def times : Except Stop Interval := do
  let lowLow ← machine.number (first.lo.val * second.lo.val)
  let lowHigh ← machine.number (first.lo.val * second.hi.val)
  let highLow ← machine.number (first.hi.val * second.lo.val)
  let highHigh ← machine.number (first.hi.val * second.hi.val)
  .ok ⟨((lowLow.least lowHigh).least highLow).least highHigh,
    ((lowLow.largest lowHigh).largest highLow).largest highHigh⟩

def union : Interval :=
  ⟨first.lo.least second.lo, first.hi.largest second.hi⟩

def widthBits : ℕ :=
  max (Nat.size (max interval.lo.val.natAbs interval.hi.val.natAbs) + 1) 2

def display : String := s!"[{interval.lo.val}, {interval.hi.val}]"

end Interval

/-! ## Rules -/

inductive Role where
  | param
  | state
  | input
  deriving DecidableEq

def Role.isSecret : Role → Bool
  | param | state => true
  | input => false

def Role.parse (word : String) : Option Role :=
  if word = "param" then some param
  else if word = "state" then some state
  else if word = "input" then some input
  else none

structure Declaration where
  name : String
  interval : Interval
  role : Role

inductive ObligationKind where
  | product
  | range
  | bit
  deriving DecidableEq

/-- One proof the audit has to carry. -/
structure Obligation where
  kind : ObligationKind
  target : String
  detail : String
  bits : ℕ
  deriving DecidableEq

structure Rule where
  name : String
  declarations : TreeMap String Declaration
  outputs : List (String × Expr)
  source : String
  intervals : TreeMap String Interval
  degrees : TreeMap String ℕ
  obligations : List Obligation

def unionOf (intervals : TreeMap String Interval) :
    Option Interval → List (String × Expr) → Except Stop (Option Interval)
  | combined, [] => .ok combined
  | combined, (name, _) :: rest => do
    let interval ← orRefuse intervals[name]? .panicked
    unionOf intervals (some (combined.elim interval (·.union interval))) rest

def Rule.outputInterval (rule : Rule) : Except Stop Interval := do
  let combined ← unionOf rule.intervals none rule.outputs
  orRefuse combined .panicked

/-- The width the circuit has to carry. -/
def Rule.requiredBits (rule : Rule) : Except Stop ℕ := do
  let interval ← rule.outputInterval
  .ok interval.widthBits

/-! ## Reading a rule -/

section Parse

variable (unicode : Unicode)

def parseBounds (lineno : ℕ) (name : String) (bounds : List Char) : Except Stop Interval := do
  let parts ← orRefuse (splitOnce ',' bounds)
    (refusedAt lineno s!"bad range on '{name}': expected two bounds")
  let lo ← orRefuse (parseI128 (unicode.trim parts.1)) (refusedAt lineno
    s!"bad range on '{name}': '{String.ofList (unicode.trim parts.1)}' is not an integer")
  let hi ← orRefuse (parseI128 (unicode.trim parts.2)) (refusedAt lineno
    s!"bad range on '{name}': '{String.ofList (unicode.trim parts.2)}' is not an integer")
  if hi.val < lo.val then
    .error (refusedAt lineno
      s!"bad range on '{name}': empty interval [{lo.val}, {hi.val}]")
  else .ok ⟨lo, hi⟩

/-- Read declarations from a text whose first characters are to be skipped; what is neither a name
nor a range is passed over. -/
def declarationsFrom (role : Role) (lineno : ℕ) : ℕ → List Char → Except Stop (List Declaration)
  | _, [] => .ok []
  | skip + 1, _ :: rest => declarationsFrom role lineno skip rest
  | 0, c :: rest =>
    if unicode.startsName c then do
      let more := rest.takeWhile unicode.isNameChar
      let name := String.ofList (c :: more)
      let blanks := (rest.drop more.length).takeWhile unicode.isWhitespace
      match rest.drop (more.length + blanks.length) with
      | '[' :: inner => do
        let bounds := inner.takeWhile (· ≠ ']')
        refuseIf (bounds.length = inner.length)
          (refusedAt lineno s!"'{name}' has no closing bracket")
        let interval ← parseBounds unicode lineno name bounds
        refuseIf (name ∈ forbidden) (refusedAt lineno
          s!"'{name}' may not be a pricing input; a quote must not depend on who is asking")
        let others ← declarationsFrom role lineno
          (more.length + blanks.length + 1 + bounds.length + 1) rest
        .ok (⟨name, interval, role⟩ :: others)
      | _ => .error (refusedAt lineno s!"'{name}' needs a range, e.g. spread[2,400]")
    else declarationsFrom role lineno 0 rest

def parseDeclarations (role : Role) (rest : List Char) (lineno : ℕ) :
    Except Stop (List Declaration) := do
  let declarations ← declarationsFrom unicode role lineno 0 rest
  refuseIf (declarations.length = 0) (refusedAt lineno "no declarations found")
  .ok declarations

def linesFrom : List Char → List Char → List (List Char)
  | [], [] => []
  | line, [] => [line.reverse]
  | '\r' :: line, '\n' :: rest => line.reverse :: linesFrom [] rest
  | line, '\n' :: rest => line.reverse :: linesFrom [] rest
  | line, c :: rest => linesFrom (c :: line) rest

def lines (source : String) : List (List Char) := linesFrom [] source.toList

/-- What the lines read so far declare and assign. -/
structure Draft where
  declarations : TreeMap String Declaration
  outputs : List (String × Expr)

def Draft.declare (draft : Draft) (added : List Declaration) : Draft where
  declarations := added.foldl (fun map declaration => map.insert declaration.name declaration)
    draft.declarations
  outputs := draft.outputs

def parseAssignment (draft : Draft) (line : List Char) (lineno : ℕ) : Except Stop Draft := do
  let parts ← orRefuse (splitOnce '=' line)
    (refusedAt lineno "expected a declaration or an assignment")
  let target := unicode.trim parts.1
  refuseIf (¬ unicode.isIdentifier target)
    (refusedAt lineno s!"'{String.ofList target}' is not a valid output name")
  refuseIf (draft.declarations.contains (String.ofList target))
    (refusedAt lineno s!"'{String.ofList target}' is already declared")
  let expr ← parseExpression unicode lineno (unicode.trim parts.2)
  .ok { draft with outputs := draft.outputs ++ [(String.ofList target, expr)] }

def parseLine (draft : Draft) (raw : List Char) (lineno : ℕ) : Except Stop Draft := do
  let line := unicode.trim (raw.takeWhile (· ≠ '#'))
  if line = [] then .ok draft
  else
    let parts := (splitOnce ' ' line).getD (line, [])
    match Role.parse (String.ofList parts.1) with
    | some role => do
      let declarations ← parseDeclarations unicode role parts.2 lineno
      .ok (draft.declare declarations)
    | none => parseAssignment unicode draft line lineno

def parseLines : Draft → ℕ → List (List Char) → Except Stop Draft
  | draft, _, [] => .ok draft
  | draft, lineno, raw :: rest => do
    let draft ← parseLine unicode draft raw lineno
    parseLines draft (lineno + 1) rest

def parse (source name : String) : Except Stop Rule := do
  let draft ← parseLines unicode ⟨∅, []⟩ 1 (lines source)
  refuseIf (draft.declarations.isEmpty) (.refused "a rule must declare at least one parameter")
  refuseIf (draft.outputs = []) (.refused "a rule must produce at least one output")
  .ok ⟨name, draft.declarations, draft.outputs, source, ∅, ∅, []⟩

end Parse

/-! ## Analysis -/

/-- What checking an expression derives. -/
structure Analysis where
  interval : Interval
  degree : ℕ
  /-- What an audit has to prove, in the order in which it was found. -/
  obligations : List Obligation

def zero : I128 := ⟨0, by decide⟩

/-- One. -/
def one : I128 := ⟨1, by decide⟩

def condition : Interval := ⟨zero, one⟩

section Analysis

variable (unicode : Unicode) (machine : Machine) (declarations : TreeMap String Declaration)
  (label : String)

def note (label : String) (kind : ObligationKind) (detail : String) (bits : ℕ) : Obligation :=
  ⟨kind, label, detail, bits⟩

def analyseName (name : String) : Except Stop Analysis := do
  refuseIf (name ∈ forbidden) (.refused s!"'{name}' may not be used in a price rule")
  let declaration ← orRefuse declarations[name]? (.refused
    (s!"'{name}' is not declared; a rule may only read its own " ++
      "declared parameters, state and inputs"))
  .ok ⟨declaration.interval, 1, []⟩

def comparisonObligations (node : Expr) (op : Cmp) (left right : Interval) :
    Except Stop (List Obligation) := do
  let bit := note label .bit s!"result of {node.render}" 0
  if op = .eq ∨ op = .ne then
    .ok [bit, note label .product s!"{node.render}: the bit sends the difference to zero" 0,
      note label .product s!"{node.render}: the difference is invertible when the bit is 0" 0]
  else do
    let difference ← if op = .gt ∨ op = .ge then left.minus machine right
      else right.minus machine left
    let strict ← difference.minus machine (.point one)
    .ok [bit, note label .product s!"{node.render}: the bit against the difference" 0,
      note label .range node.render (strict.widthBits + 1)]

def analyseCall (name : String) (parts : List Analysis) :
    Except Stop (Interval × ℕ × List Obligation) :=
  match name with
  | "min" | "max" =>
    match parts with
    | [a, b] => do
      let difference ← a.interval.minus machine b.interval
      let merged : Interval := if name = "min" then
        ⟨a.interval.lo.least b.interval.lo, a.interval.hi.least b.interval.hi⟩
      else ⟨a.interval.lo.largest b.interval.lo, a.interval.hi.largest b.interval.hi⟩
      .ok (merged, max a.degree b.degree,
        [note label .range s!"{name} comparison" difference.widthBits,
          note label .product s!"{name} selection" 0])
    | _ => .error (.refused s!"{name} takes exactly two arguments")
  | "clamp" =>
    match parts with
    | [value, lo, hi] => do
      refuseIf (lo.interval.lo ≠ lo.interval.hi ∨ hi.interval.lo ≠ hi.interval.hi)
        (.refused "clamp bounds must be constants so the range is static")
      let below ← value.interval.minus machine lo.interval
      let above ← hi.interval.minus machine value.interval
      let interval ← Interval.new lo.interval.lo hi.interval.hi
      .ok (interval, value.degree,
        [note label .range "clamp lower bound" below.widthBits,
          note label .range "clamp upper bound" above.widthBits,
          note label .product "clamp selection" 0])
    | _ => .error (.refused "clamp takes a value and two bounds")
  | "signed" =>
    match parts with
    | [side, magnitude] => do
      refuseIf (¬ side.interval.isCondition)
        (.refused "the first argument of signed must be a condition")
      let lo ← machine.number (-magnitude.interval.hi.val)
      let interval ← Interval.new lo magnitude.interval.hi
      .ok (interval, magnitude.degree, [note label .product "signed selection" 0])
    | _ => .error (.refused "signed takes a side bit and a magnitude")
  | _ => .error (.refused s!"unknown intrinsic {name}")

mutual

/-- Interval arithmetic, degree tracking and obligation extraction in one pass. -/
def visit : Expr → Except Stop Analysis
  | .const value => .ok ⟨.point value, 0, []⟩
  | .name name => analyseName declarations name
  | .neg inner => do
    let inner ← visit inner
    let interval ← inner.interval.negated machine
    .ok ⟨interval, inner.degree, inner.obligations⟩
  | .add left right => do
    let left ← visit left
    let right ← visit right
    let interval ← left.interval.plus machine right.interval
    .ok ⟨interval, max left.degree right.degree, left.obligations ++ right.obligations⟩
  | .sub left right => do
    let left ← visit left
    let right ← visit right
    let interval ← left.interval.minus machine right.interval
    .ok ⟨interval, max left.degree right.degree, left.obligations ++ right.obligations⟩
  | .mul a b => do
    let left ← visit a
    let right ← visit b
    refuseIf (2 < left.degree + right.degree) (.refused
      ("a price rule may not exceed degree two in its secrets; higher " ++
        "degree would need a proof per intermediate product"))
    let interval ← left.interval.times machine right.interval
    .ok ⟨interval, left.degree + right.degree, left.obligations ++ right.obligations ++
      if left.degree + right.degree = 2 then
        [note label .product s!"{a.render} * {b.render}" 0] else []⟩
  | .compare a op b => do
    let left ← visit a
    let right ← visit b
    let obligations ← comparisonObligations machine label (.compare a op b) op left.interval
      right.interval
    .ok ⟨condition, 0, left.obligations ++ right.obligations ++ obligations⟩
  | .and parts => do
    let obligations ← visitConditions parts
    .ok ⟨condition, 0, obligations ++
      List.replicate (parts.length - 1) (note label .product "conjunction of two conditions" 0)⟩
  | .call name args => do
    refuseIf (name ∉ intrinsics)
      (.refused s!"only {unicode.debugList intrinsics} may be called")
    let parts ← visitAll args
    let result ← analyseCall machine label name parts
    .ok ⟨result.1, result.2.1, parts.flatMap (·.obligations) ++ result.2.2⟩

/-- The arguments of a call. -/
def visitAll : List Expr → Except Stop (List Analysis)
  | [] => .ok []
  | expr :: rest => do
    let first ← visit expr
    let others ← visitAll rest
    .ok (first :: others)

def visitConditions : List Expr → Except Stop (List Obligation)
  | [] => .ok []
  | expr :: rest => do
    let first ← visit expr
    refuseIf (¬ first.interval.isCondition) (.refused "'and' may only combine conditions")
    let others ← visitConditions rest
    .ok (first.obligations ++ others)

end

end Analysis

/-! ## Checking a rule -/

section Check

variable (unicode : Unicode) (machine : Machine)

/-- What the outputs analysed so far derive. -/
structure Facts where
  intervals : TreeMap String Interval
  degrees : TreeMap String ℕ
  obligations : List Obligation

def checkOutputs (declarations : TreeMap String Declaration) :
    Facts → List (String × Expr) → Except Stop Facts
  | facts, [] => .ok facts
  | facts, (label, tree) :: rest => do
    let analysis ← visit unicode machine declarations label tree
    checkOutputs declarations
      ⟨facts.intervals.insert label analysis.interval, facts.degrees.insert label analysis.degree,
        facts.obligations ++ analysis.obligations⟩ rest

def declaredObligations : List Declaration → Except Stop (List Obligation)
  | [] => .ok []
  | declaration :: rest =>
    if declaration.role.isSecret then do
      let span ← machine.number (n := 127)
        (declaration.interval.hi.val - declaration.interval.lo.val)
      let others ← declaredObligations rest
      .ok (⟨.range, declaration.name, s!"{declaration.name} in {declaration.interval.display}",
        max (Nat.size span.val.natAbs) 1⟩ :: others)
    else declaredObligations rest

def check (rule : Rule) : Except Stop Rule := do
  let facts ← checkOutputs unicode machine rule.declarations ⟨∅, ∅, []⟩ rule.outputs
  let declared ← declaredObligations machine (rule.declarations.toList.map Prod.snd)
  let read := rule.outputs.flatMap fun output => output.2.names
  let unused := rule.declarations.keys.filter (· ∉ read)
  refuseIf (unused ≠ []) (.refused
    (s!"declared but never used: {unicode.debugList unused}; a rule may not register values " ++
      "it does not price with"))
  .ok { rule with
    intervals := facts.intervals
    degrees := facts.degrees
    obligations := declared ++ facts.obligations }

def compileRule (source name : String) : Except Stop Rule := do
  let rule ← parse unicode source name
  check unicode machine rule

end Check

/-! ## Evaluation -/

/-- The numbers an evaluation computes with. -/
structure Arithmetic (N : Type) where
  value : N → ℤ
  ofI128 : I128 → N
  /-- What an operation with an exact result gives. -/
  number : ℤ → Except Stop N
  /-- Bitwise conjunction. -/
  land : N → N → N

/-- The bitwise conjunction of machine integers. -/
def bitAnd (a b : I128) : I128 :=
  ⟨(BitVec.ofInt 128 a.val &&& BitVec.ofInt 128 b.val).toInt, by
    have hlow := BitVec.le_two_mul_toInt (x := BitVec.ofInt 128 a.val &&& BitVec.ofInt 128 b.val)
    have hhigh := BitVec.two_mul_toInt_lt (x := BitVec.ofInt 128 a.val &&& BitVec.ofInt 128 b.val)
    constructor <;> omega⟩

def machineArithmetic (machine : Machine) : Arithmetic I128 :=
  ⟨Subtype.val, id, machine.number, bitAnd⟩

def exactArithmetic : Arithmetic ℤ := ⟨id, Subtype.val, .ok, Int.land⟩

def Cmp.holds : Cmp → ℤ → ℤ → Bool
  | .lt, l, r => l < r
  | .le, l, r => l ≤ r
  | .gt, l, r => r < l
  | .ge, l, r => r ≤ l
  | .eq, l, r => l = r
  | .ne, l, r => l ≠ r

section Eval

variable {N : Type} (arithmetic : Arithmetic N) (bindings : TreeMap String I128)

def evalCall (name : String) (values : List N) : Except Stop N :=
  match name, values with
  | "min", [a, c] => .ok (if arithmetic.value c < arithmetic.value a then c else a)
  | "max", [a, c] => .ok (if arithmetic.value c < arithmetic.value a then a else c)
  | "clamp", [value, lo, hi] =>
    if arithmetic.value hi < arithmetic.value lo then .error .panicked
    else if arithmetic.value value < arithmetic.value lo then .ok lo
    else if arithmetic.value hi < arithmetic.value value then .ok hi
    else .ok value
  | "signed", [side, magnitude] =>
    if arithmetic.value side = 1 then .ok magnitude
    else arithmetic.number (-arithmetic.value magnitude)
  | name, _ => .error (.refused s!"cannot evaluate {name}")

mutual

def eval : Expr → Except Stop N
  | .const value => .ok (arithmetic.ofI128 value)
  | .name name => do
    let value ← orRefuse bindings[name]? (.refused s!"'{name}' has no value")
    .ok (arithmetic.ofI128 value)
  | .neg inner => do
    let value ← eval inner
    arithmetic.number (-arithmetic.value value)
  | .add left right => do
    let l ← eval left
    let r ← eval right
    arithmetic.number (arithmetic.value l + arithmetic.value r)
  | .sub left right => do
    let l ← eval left
    let r ← eval right
    arithmetic.number (arithmetic.value l - arithmetic.value r)
  | .mul left right => do
    let l ← eval left
    let r ← eval right
    arithmetic.number (arithmetic.value l * arithmetic.value r)
  | .compare left op right => do
    let l ← eval left
    let r ← eval right
    .ok (arithmetic.ofI128
      (if Cmp.holds op (arithmetic.value l) (arithmetic.value r) then one else zero))
  | .and parts => evalConditions (arithmetic.ofI128 one) parts
  | .call name args => do
    let values ← evalAll args
    evalCall arithmetic name values

def evalAll : List Expr → Except Stop (List N)
  | [] => .ok []
  | expr :: rest => do
    let first ← eval expr
    let others ← evalAll rest
    .ok (first :: others)

/-- The bitwise conjunction of what came before and the parts that follow. -/
def evalConditions : N → List Expr → Except Stop N
  | all, [] => .ok all
  | all, expr :: rest => do
    let value ← eval expr
    evalConditions (arithmetic.land all value) rest

end

def evaluateOutputs : TreeMap String N → List (String × Expr) → Except Stop (TreeMap String N)
  | values, [] => .ok values
  | values, (name, tree) :: rest => do
    let value ← eval arithmetic bindings tree
    evaluateOutputs (values.insert name value) rest

def evaluate (rule : Rule) : Except Stop (TreeMap String N) :=
  evaluateOutputs arithmetic bindings ∅ rule.outputs

end Eval

end Zkpi.RuleAnalysis
