import Zkpi.FallibleChecks
import Zkpi.MachineArithmetic

/-!
# The syntax of price rules

The expressions of a price rule are sums, products, comparisons, conjunctions and calls of four
named functions. They are read by recursive descent over a list of tokens. What the standard
library knows about characters and how it shows a text is given as a parameter.

The descent is given a number of steps; every success uses up a token, so a few steps for each
token are always enough.
-/

namespace Zkpi.RuleSyntax

open FallibleChecks MachineArithmetic List

/-- Signed integers of 128 bits. -/
abbrev I128 := Word 127

/-- What the standard library knows about characters and texts. -/
structure Unicode where
  isAlphabetic : Char → Bool
  isAlphanumeric : Char → Bool
  isWhitespace : Char → Bool
  /-- A text in quotes, with escapes. -/
  debug : String → String

variable (unicode : Unicode)

def Unicode.debugList (texts : List String) : String :=
  "[" ++ ", ".intercalate (texts.map unicode.debug) ++ "]"

def refusedAt (lineno : ℕ) (message : String) : Stop := .refused s!"line {lineno}: {message}"

/-! ## Texts -/

def digitsValue (digits : List Char) : ℕ :=
  digits.foldl (fun value digit => 10 * value + (digit.toNat - '0'.toNat)) 0

/-- An integer that fits. -/
def toI128 (value : ℤ) : Option I128 :=
  if h : Fits 127 value then some ⟨value, h⟩ else none

/-- A decimal integer without a sign. -/
def parseDigits (text : List Char) : Option ℤ :=
  if text ≠ [] ∧ text.all Char.isDigit then some (digitsValue text) else none

def parseI128 : List Char → Option I128
  | '-' :: digits => parseDigits digits >>= fun value => toI128 (-value)
  | '+' :: digits => parseDigits digits >>= toI128
  | digits => parseDigits digits >>= toI128

/-- Drop the blanks at both ends. -/
def Unicode.trim (text : List Char) : List Char :=
  ((text.dropWhile unicode.isWhitespace).reverse.dropWhile unicode.isWhitespace).reverse

def splitOnce (separator : Char) (text : List Char) : Option (List Char × List Char) :=
  match text.dropWhile (· ≠ separator) with
  | [] => none
  | _ :: rest => some (text.takeWhile (· ≠ separator), rest)

def Unicode.startsName (c : Char) : Bool := unicode.isAlphabetic c || c = '_'

def Unicode.isNameChar (c : Char) : Bool :=
  unicode.isAlphanumeric c || c = '_'

def Unicode.isIdentifier (unicode : Unicode) : List Char → Bool
  | [] => false
  | c :: rest => unicode.startsName c && rest.all unicode.isNameChar

/-! ## Expressions -/

/-- Identifiers a price rule may never read. -/
def forbidden : List String :=
  ["wallet", "address", "entity", "entity_id", "user", "user_id", "client", "counterparty", "name",
    "kyc_id", "nullifier", "ip"]

/-- The functions that may be called. -/
def intrinsics : List String := ["min", "max", "clamp", "signed"]

inductive Cmp where
  | lt
  | le
  | gt
  | ge
  | eq
  | ne
  deriving DecidableEq

def Cmp.asStr : Cmp → String
  | lt => "<"
  | le => "<="
  | gt => ">"
  | ge => ">="
  | eq => "=="
  | ne => "!="

inductive Expr where
  | const (value : I128)
  | name (name : String)
  | neg (inner : Expr)
  | add (left right : Expr)
  | sub (left right : Expr)
  | mul (left right : Expr)
  | compare (left : Expr) (op : Cmp) (right : Expr)
  /-- There is no disjunction. -/
  | and (parts : List Expr)
  | call (name : String) (args : List Expr)

@[elab_as_elim]
theorem Expr.induction {P : Expr → Prop} (const : ∀ value, P (.const value))
    (name : ∀ name, P (.name name)) (neg : ∀ inner, P inner → P (.neg inner))
    (add : ∀ left right, P left → P right → P (.add left right))
    (sub : ∀ left right, P left → P right → P (.sub left right))
    (mul : ∀ left right, P left → P right → P (.mul left right))
    (compare : ∀ left op right, P left → P right → P (.compare left op right))
    (and : ∀ parts, (∀ part ∈ parts, P part) → P (.and parts))
    (call : ∀ name args, (∀ arg ∈ args, P arg) → P (.call name args)) (expr : Expr) : P expr :=
  @Expr.rec P (fun exprs => ∀ expr ∈ exprs, P expr) const name neg add sub mul compare and call
    nofun (fun _ _ hhead htail => forall_mem_cons.mpr ⟨hhead, htail⟩) expr

mutual

def Expr.render : Expr → String
  | .const value => toString value.val
  | .name name => name
  | .neg inner => "-" ++ inner.render
  | .add left right => left.render ++ " + " ++ right.render
  | .sub left right => left.render ++ " - " ++ right.render
  | .mul left right => left.render ++ " * " ++ right.render
  | .compare left op right => left.render ++ " " ++ op.asStr ++ " " ++ right.render
  | .and parts => " and ".intercalate (renderAll parts)
  | .call name args => name ++ "(" ++ ", ".intercalate (renderAll args) ++ ")"

def renderAll : List Expr → List String
  | [] => []
  | expr :: rest => expr.render :: renderAll rest

end

mutual

def Expr.names : Expr → List String
  | .const _ => []
  | .name name => [name]
  | .neg inner => inner.names
  | .add left right | .sub left right | .mul left right | .compare left _ right =>
    left.names ++ right.names
  | .and parts => namesAll parts
  | .call _ args => namesAll args

def namesAll : List Expr → List String
  | [] => []
  | expr :: rest => expr.names ++ namesAll rest

end

/-! ## Tokens -/

inductive Token where
  | int (value : I128)
  | ident (name : String)
  | plus
  | minus
  | star
  | lParen
  | rParen
  | comma
  | cmp (op : Cmp)
  | and
  deriving DecidableEq

def twoCharacters : List Char → Option Cmp
  | '<' :: '=' :: _ => some .le
  | '>' :: '=' :: _ => some .ge
  | '=' :: '=' :: _ => some .eq
  | '!' :: '=' :: _ => some .ne
  | _ => none

def oneCharacter (lineno : ℕ) : Char → Except Stop Token
  | '+' => .ok .plus
  | '-' => .ok .minus
  | '*' => .ok .star
  | '(' => .ok .lParen
  | ')' => .ok .rParen
  | ',' => .ok .comma
  | '<' => .ok (.cmp .lt)
  | '>' => .ok (.cmp .gt)
  | '/' => .error (refusedAt lineno "there is no division in this language")
  | other => .error (refusedAt lineno s!"'{other}' is not part of this language")

def tokenizeFrom (unicode : Unicode) (lineno : ℕ) : ℕ → List Char → Except Stop (List Token)
  | _, [] => .ok []
  | skip + 1, _ :: rest => tokenizeFrom unicode lineno skip rest
  | 0, c :: rest =>
    if unicode.isWhitespace c then tokenizeFrom unicode lineno 0 rest
    else if c.isDigit then do
      let more := rest.takeWhile Char.isDigit
      let value ← orRefuse (toI128 (digitsValue (c :: more)))
        (refusedAt lineno s!"integer '{String.ofList (c :: more)}' does not fit")
      let tokens ← tokenizeFrom unicode lineno more.length rest
      .ok (.int value :: tokens)
    else if unicode.startsName c then do
      let more := rest.takeWhile unicode.isNameChar
      let word := String.ofList (c :: more)
      let tokens ← tokenizeFrom unicode lineno more.length rest
      .ok ((if word = "and" then .and else .ident word) :: tokens)
    else
      match twoCharacters (c :: rest) with
      | some op => do
        let tokens ← tokenizeFrom unicode lineno 1 rest
        .ok (.cmp op :: tokens)
      | none => do
        let token ← oneCharacter lineno c
        let tokens ← tokenizeFrom unicode lineno 0 rest
        .ok (token :: tokens)

def tokenize (text : List Char) (lineno : ℕ) : Except Stop (List Token) :=
  tokenizeFrom unicode lineno 0 text

/-! ## Recursive descent -/

variable (unicode : Unicode) (lineno : ℕ)

def expected {A : Type} (lineno : ℕ) (what : String) : Except Stop A :=
  .error (refusedAt lineno s!"expected {what}")

mutual

def conjunction : ℕ → List Token → Except Stop (Expr × List Token)
  | 0, _ => .error .unfinished
  | fuel + 1, tokens => do
    let first ← comparison fuel tokens
    match first.2 with
    | .and :: _ => do
      let parts ← conjuncts fuel first.2
      .ok (.and (first.1 :: parts.1), parts.2)
    | _ => .ok first

def conjuncts : ℕ → List Token → Except Stop (List Expr × List Token)
  | 0, _ => .error .unfinished
  | fuel + 1, tokens =>
    match tokens with
    | .and :: tokens => do
      let part ← comparison fuel tokens
      let parts ← conjuncts fuel part.2
      .ok (part.1 :: parts.1, parts.2)
    | _ => .ok ([], tokens)

def comparison : ℕ → List Token → Except Stop (Expr × List Token)
  | 0, _ => .error .unfinished
  | fuel + 1, tokens => do
    let left ← sum fuel tokens
    match left.2 with
    | .cmp op :: tokens => do
      let right ← sum fuel tokens
      match right.2 with
      | .cmp _ :: _ => .error (refusedAt lineno "chained comparisons are not allowed")
      | _ => .ok (.compare left.1 op right.1, right.2)
    | _ => .ok left

def sum : ℕ → List Token → Except Stop (Expr × List Token)
  | 0, _ => .error .unfinished
  | fuel + 1, tokens => do
    let left ← product fuel tokens
    sumRest fuel left.1 left.2

def sumRest : ℕ → Expr → List Token → Except Stop (Expr × List Token)
  | 0, _, _ => .error .unfinished
  | fuel + 1, left, tokens =>
    match tokens with
    | .plus :: tokens => do
      let right ← product fuel tokens
      sumRest fuel (.add left right.1) right.2
    | .minus :: tokens => do
      let right ← product fuel tokens
      sumRest fuel (.sub left right.1) right.2
    | _ => .ok (left, tokens)

def product : ℕ → List Token → Except Stop (Expr × List Token)
  | 0, _ => .error .unfinished
  | fuel + 1, tokens => do
    let left ← unary fuel tokens
    productRest fuel left.1 left.2

def productRest : ℕ → Expr → List Token → Except Stop (Expr × List Token)
  | 0, _, _ => .error .unfinished
  | fuel + 1, left, tokens =>
    match tokens with
    | .star :: tokens => do
      let right ← unary fuel tokens
      productRest fuel (.mul left right.1) right.2
    | _ => .ok (left, tokens)

/-- A value with any number of signs. -/
def unary : ℕ → List Token → Except Stop (Expr × List Token)
  | 0, _ => .error .unfinished
  | fuel + 1, tokens =>
    match tokens with
    | .minus :: tokens => do
      let inner ← unary fuel tokens
      .ok (.neg inner.1, inner.2)
    | .plus :: tokens => unary fuel tokens
    | _ => atom fuel tokens

def atom : ℕ → List Token → Except Stop (Expr × List Token)
  | 0, _ => .error .unfinished
  | fuel + 1, tokens =>
    match tokens with
    | .int value :: tokens => .ok (.const value, tokens)
    | .lParen :: tokens => do
      let inner ← conjunction fuel tokens
      match inner.2 with
      | .rParen :: rest => .ok (inner.1, rest)
      | _ => expected lineno "a closing parenthesis"
    | .ident name :: .lParen :: tokens =>
      if name ∉ intrinsics then
        .error (refusedAt lineno s!"only {unicode.debugList intrinsics} may be called")
      else
        match tokens with
        | .rParen :: rest => .ok (.call name [], rest)
        | _ => do
          let args ← arguments fuel tokens
          .ok (.call name args.1, args.2)
    | .ident name :: tokens => .ok (.name name, tokens)
    | _ => expected lineno "a value"

def arguments : ℕ → List Token → Except Stop (List Expr × List Token)
  | 0, _ => .error .unfinished
  | fuel + 1, tokens => do
    let arg ← conjunction fuel tokens
    match arg.2 with
    | .rParen :: rest => .ok ([arg.1], rest)
    | .comma :: rest => do
      let args ← arguments fuel rest
      .ok (arg.1 :: args.1, args.2)
    | _ => expected lineno "',' or ')'"

end

def steps (tokens : List Token) : ℕ := 10 * tokens.length + 10

def parseExpression (text : List Char) : Except Stop Expr := do
  let tokens ← tokenize unicode text lineno
  refuseIf (tokens = []) (refusedAt lineno "empty expression")
  let expr ← conjunction unicode lineno (steps tokens) tokens
  refuseIf (expr.2 ≠ []) (refusedAt lineno "trailing input after the expression")
  .ok expr.1

/-! ## The descent ends -/

/-- A computation stops only with a refusal of its own. -/
def Finishes {A : Type} (result : Except Stop A) : Prop :=
  ∀ stop, result = .error stop → ∃ message, stop = .refused message

mutual

/-- Whether every conjunction has parts. -/
def joined : Expr → Bool
  | .const _ | .name _ => true
  | .neg inner => joined inner
  | .add left right | .sub left right | .mul left right | .compare left _ right =>
    joined left && joined right
  | .and parts => !parts.isEmpty && joinedAll parts
  | .call _ args => joinedAll args

def joinedAll : List Expr → Bool
  | [] => true
  | expr :: rest => joined expr && joinedAll rest

end

theorem joined_pair {left right : Bool} (hleft : left = true) (hright : right = true) :
    (left && right) = true := by
  rw [hleft, hright]
  rfl

/-- A result is a refusal, or it leaves fewer tokens and its value is as wanted. -/
structure Reads {A : Type} (p : A → Bool) (n : ℕ) (result : Except Stop (A × List Token)) :
    Prop where
  finished : Finishes result
  read : ∀ out, result = .ok out → out.2.length < n ∧ p out.1 = true

section Reads

variable {A B : Type} {p : A → Bool} {q : B → Bool}

theorem reads_ok {value : A} {rest : List Token} (h : rest.length < n) (hvalue : p value = true) :
    Reads p n (.ok (value, rest)) := by
  refine ⟨nofun, fun out hout => ?_⟩
  cases hout
  exact ⟨h, hvalue⟩

theorem reads_error {stop : Stop} (h : ∃ message, stop = .refused message) :
    Reads p n (.error stop : Except Stop (A × List Token)) := by
  refine ⟨fun _ heq => ?_, nofun⟩
  cases heq
  exact h

theorem reads_refusedAt {lineno : ℕ} {message : String} :
    Reads p n (.error (refusedAt lineno message) : Except Stop (A × List Token)) :=
  reads_error ⟨_, rfl⟩

theorem reads_bind {first : Except Stop (A × List Token)}
    {rest : A × List Token → Except Stop (B × List Token)} (hfirst : Reads p n first)
    (hrest : ∀ out : A × List Token, out.2.length < n → p out.1 = true → Reads q k (rest out)) :
    Reads q k (first >>= rest) := by
  cases first with
  | error stop => exact reads_error (hfirst.finished stop rfl)
  | ok out =>
    obtain ⟨hlength, hvalue⟩ := hfirst.read out rfl
    exact hrest out hlength hvalue

end Reads

structure Adequate (fuel : ℕ) : Prop where
  conjunction : ∀ tokens : List Token, 10 * tokens.length + 6 ≤ fuel →
    Reads joined tokens.length (conjunction unicode lineno fuel tokens)
  conjuncts : ∀ tokens : List Token, 10 * tokens.length + 7 ≤ fuel →
    Reads joinedAll (tokens.length + 1) (conjuncts unicode lineno fuel tokens)
  comparison : ∀ tokens : List Token, 10 * tokens.length + 5 ≤ fuel →
    Reads joined tokens.length (comparison unicode lineno fuel tokens)
  sum : ∀ tokens : List Token, 10 * tokens.length + 4 ≤ fuel →
    Reads joined tokens.length (sum unicode lineno fuel tokens)
  sumRest : ∀ (left : Expr) (tokens : List Token), 10 * tokens.length + 8 ≤ fuel → joined left →
    Reads joined (tokens.length + 1) (sumRest unicode lineno fuel left tokens)
  product : ∀ tokens : List Token, 10 * tokens.length + 3 ≤ fuel →
    Reads joined tokens.length (product unicode lineno fuel tokens)
  productRest : ∀ (left : Expr) (tokens : List Token), 10 * tokens.length + 7 ≤ fuel → joined left →
    Reads joined (tokens.length + 1) (productRest unicode lineno fuel left tokens)
  unary : ∀ tokens : List Token, 10 * tokens.length + 2 ≤ fuel →
    Reads joined tokens.length (unary unicode lineno fuel tokens)
  atom : ∀ tokens : List Token, 10 * tokens.length + 1 ≤ fuel →
    Reads joined tokens.length (atom unicode lineno fuel tokens)
  arguments : ∀ tokens : List Token, 10 * tokens.length + 7 ≤ fuel →
    Reads joinedAll tokens.length (arguments unicode lineno fuel tokens)

variable {unicode lineno}

theorem Reads.mono {A : Type} {p : A → Bool} {n k : ℕ} {result : Except Stop (A × List Token)}
    (h : Reads p n result) (hle : n ≤ k) : Reads p k result :=
  ⟨h.finished, fun out hout => (h.read out hout).imp_left fun hlt => hlt.trans_le hle⟩

variable {fuel : ℕ}

section

variable (h : Adequate unicode lineno fuel)

include h

variable (tokens : List Token)

theorem adequate_conjunction (hfuel : 10 * tokens.length + 6 ≤ fuel + 1) :
    Reads joined tokens.length (conjunction unicode lineno (fuel + 1) tokens) := by
  rw [conjunction]
  refine reads_bind (h.comparison tokens (by omega)) fun first hfirst hjoined => ?_
  split
  · rename_i rest hrest
    refine reads_bind (h.conjuncts _ (by omega)) fun parts hparts hothers => reads_ok (by omega) ?_
    exact joined_pair rfl (joined_pair hjoined hothers)
  · exact reads_ok hfirst hjoined

theorem adequate_conjuncts (hfuel : 10 * tokens.length + 7 ≤ fuel + 1) :
    Reads joinedAll (tokens.length + 1) (conjuncts unicode lineno (fuel + 1) tokens) := by
  unfold conjuncts
  split
  · rename_i rest
    rw [length_cons] at hfuel ⊢
    refine reads_bind (h.comparison rest (by omega)) fun part hpart hjoined => ?_
    refine reads_bind (h.conjuncts _ (by omega)) fun parts hparts hothers => ?_
    exact reads_ok (by omega) (joined_pair hjoined hothers)
  · exact reads_ok (Nat.lt_succ_self _) rfl

theorem adequate_comparison (hfuel : 10 * tokens.length + 5 ≤ fuel + 1) :
    Reads joined tokens.length (comparison unicode lineno (fuel + 1) tokens) := by
  rw [comparison]
  refine reads_bind (h.sum tokens (by omega)) fun left hleft hjoined => ?_
  split
  · rename_i op rest hrest
    rw [hrest, length_cons] at hleft
    refine reads_bind (h.sum rest (by omega)) fun right hright hother => ?_
    split
    · exact reads_refusedAt
    · exact reads_ok (by omega) (joined_pair hjoined hother)
  · exact reads_ok hleft hjoined

theorem adequate_sum (hfuel : 10 * tokens.length + 4 ≤ fuel + 1) :
    Reads joined tokens.length (sum unicode lineno (fuel + 1) tokens) := by
  rw [sum]
  refine reads_bind (h.product tokens (by omega)) fun left hleft hjoined => ?_
  exact (h.sumRest left.1 left.2 (by omega) hjoined).mono hleft

theorem adequate_sumRest (left : Expr) (tokens : List Token)
    (hfuel : 10 * tokens.length + 8 ≤ fuel + 1) (hjoined : joined left) :
    Reads joined (tokens.length + 1) (sumRest unicode lineno (fuel + 1) left tokens) := by
  unfold sumRest
  split
  rotate_right
  · exact reads_ok (Nat.lt_succ_self _) hjoined
  -- A plus and a minus are followed by the same.
  all_goals
    rename_i rest
    rw [length_cons] at hfuel ⊢
    refine reads_bind (h.product rest (by omega)) fun right hright hother => ?_
    refine (h.sumRest _ right.2 (by omega) ?_).mono (by omega)
    exact joined_pair hjoined hother

theorem adequate_product (hfuel : 10 * tokens.length + 3 ≤ fuel + 1) :
    Reads joined tokens.length (product unicode lineno (fuel + 1) tokens) := by
  rw [product]
  refine reads_bind (h.unary tokens (by omega)) fun left hleft hjoined => ?_
  exact (h.productRest left.1 left.2 (by omega) hjoined).mono hleft

theorem adequate_productRest (left : Expr) (tokens : List Token)
    (hfuel : 10 * tokens.length + 7 ≤ fuel + 1) (hjoined : joined left) :
    Reads joined (tokens.length + 1) (productRest unicode lineno (fuel + 1) left tokens) := by
  unfold productRest
  split
  · rename_i rest
    rw [length_cons] at hfuel ⊢
    refine reads_bind (h.unary rest (by omega)) fun right hright hother => ?_
    refine (h.productRest _ right.2 (by omega) ?_).mono (by omega)
    exact joined_pair hjoined hother
  · exact reads_ok (Nat.lt_succ_self _) hjoined

theorem adequate_unary (hfuel : 10 * tokens.length + 2 ≤ fuel + 1) :
    Reads joined tokens.length (unary unicode lineno (fuel + 1) tokens) := by
  unfold unary
  split
  · rename_i rest
    rw [length_cons] at hfuel ⊢
    refine reads_bind (h.unary rest (by omega)) fun inner hinner hjoined => ?_
    exact reads_ok (by omega) hjoined
  · rename_i rest
    rw [length_cons] at hfuel ⊢
    exact (h.unary rest (by omega)).mono (Nat.le_succ _)
  · exact h.atom _ (by omega)

theorem adequate_atom (hfuel : 10 * tokens.length + 1 ≤ fuel + 1) :
    Reads joined tokens.length (atom unicode lineno (fuel + 1) tokens) := by
  unfold atom
  split
  · exact reads_ok (Nat.lt_succ_self _) rfl
  · rename_i rest
    rw [length_cons] at hfuel ⊢
    refine reads_bind (h.conjunction rest (by omega)) fun inner hinner hjoined => ?_
    split
    · rename_i after hafter
      rw [hafter, length_cons] at hinner
      exact reads_ok (by omega) hjoined
    · exact reads_refusedAt
  · rename_i name rest
    rw [length_cons, length_cons] at hfuel ⊢
    split
    · exact reads_refusedAt
    · split
      · rename_i after
        rw [length_cons]
        exact reads_ok (by omega) rfl
      · refine reads_bind (h.arguments _ (by omega)) fun args hargs hjoined => ?_
        exact reads_ok (by omega) hjoined
  · exact reads_ok (Nat.lt_succ_self _) rfl
  · exact reads_refusedAt

theorem adequate_arguments (hfuel : 10 * tokens.length + 7 ≤ fuel + 1) :
    Reads joinedAll tokens.length (arguments unicode lineno (fuel + 1) tokens) := by
  rw [arguments]
  refine reads_bind (h.conjunction tokens (by omega)) fun arg harg hjoined => ?_
  split
  · rename_i rest hrest
    rw [hrest, length_cons] at harg
    exact reads_ok (by omega) (joined_pair hjoined rfl)
  · rename_i rest hrest
    rw [hrest, length_cons] at harg
    refine reads_bind (h.arguments rest (by omega)) fun args hargs hothers => ?_
    exact reads_ok (by omega) (joined_pair hjoined hothers)
  · exact reads_refusedAt

end

theorem adequate (fuel : ℕ) : Adequate unicode lineno fuel := by
  induction fuel with
  | zero => constructor <;> omega
  | succ fuel ih =>
    exact ⟨adequate_conjunction ih, adequate_conjuncts ih, adequate_comparison ih, adequate_sum ih,
      adequate_sumRest ih, adequate_product ih, adequate_productRest ih, adequate_unary ih,
      adequate_atom ih, adequate_arguments ih⟩

theorem finishes_tokenizeFrom (skip : ℕ) (text : List Char) :
    Finishes (tokenizeFrom unicode lineno skip text) := by
  induction text generalizing skip with
  | nil => cases skip <;> nofun
  | cons c rest ih =>
    -- reading on after one token
    have hread : ∀ skip (tokens : List Token → List Token),
        Finishes (tokenizeFrom unicode lineno skip rest >>= fun read => .ok (tokens read)) := by
      intro skip tokens stop h
      obtain htokens | ⟨_, _, h⟩ := bind_error.mp h
      · exact ih _ stop htokens
      · cases h
    intro stop h
    cases skip with
    | succ skip => exact ih skip stop h
    | zero =>
      rw [tokenizeFrom] at h
      split at h
      · exact ih 0 stop h
      · split at h
        · obtain hvalue | ⟨_, _, h⟩ := bind_error.mp h
          · cases hdigits : toI128 (digitsValue (c :: rest.takeWhile Char.isDigit)) <;>
              rw [hdigits] at hvalue <;> cases hvalue
            exact ⟨_, rfl⟩
          · exact hread _ _ stop h
        · split at h
          · exact hread _ _ stop h
          · split at h
            · exact hread _ _ stop h
            · obtain htoken | ⟨_, _, h⟩ := bind_error.mp h
              · unfold oneCharacter at htoken
                split at htoken <;> cases htoken <;> exact ⟨_, rfl⟩
              · exact hread _ _ stop h

theorem joined_parseExpression (h : parseExpression unicode lineno text = .ok expr) :
    joined expr := by
  obtain ⟨tokens, _, h⟩ := bind_ok.mp h
  obtain ⟨_, h⟩ := refuseIf_bind_ok.mp h
  obtain ⟨read, hread, h⟩ := bind_ok.mp h
  obtain ⟨_, h⟩ := refuseIf_bind_ok.mp h
  cases h
  refine (((adequate (steps tokens)).conjunction tokens ?_).read read hread).2
  unfold steps
  omega

/-- Every text is read as an expression or refused by the parser with a message. -/
theorem parseExpression_finished (text : List Char) :
    (∃ expr, parseExpression unicode lineno text = .ok expr) ∨
      ∃ message, parseExpression unicode lineno text = .error (.refused message) := by
  cases h : parseExpression unicode lineno text with
  | ok expr => exact .inl ⟨expr, rfl⟩
  | error stop =>
    suffices ∃ message, stop = .refused message by
      obtain ⟨message, rfl⟩ := this
      exact .inr ⟨message, rfl⟩
    obtain htokens | ⟨tokens, _, h⟩ := bind_error.mp h
    · exact finishes_tokenizeFrom 0 text stop htokens
    · obtain hempty | ⟨_, _, h⟩ := bind_error.mp h
      · exact ⟨_, (refuseIf_error.mp hempty).2.symm⟩
      · obtain hexpr | ⟨expr, _, h⟩ := bind_error.mp h
        · refine ((adequate (steps tokens)).conjunction tokens ?_).finished stop hexpr
          unfold steps
          omega
        · obtain htrailing | ⟨_, _, h⟩ := bind_error.mp h
          · exact ⟨_, (refuseIf_error.mp htrailing).2.symm⟩
          · cases h

end Zkpi.RuleSyntax
