import Mathlib.Data.List.TakeWhile

/-!
# Integer expressions of Python

The integer that a text stands for, as far as the expressions of Python over integers go: sums,
products, signs, calls of functions and of methods. The text is read by recursive descent, one
function for each level of the grammar: operators of one level associate to the left, a sign binds
tighter than a product, and a method call tighter than a sign.

The rules at the end say what a text that is put together from parts stands for.
-/

namespace Zkpi.PythonExpressions

open List Option PythonExpressions

def starts (c : Char) : Bool := c.isAlpha || c = '_'

/-- The characters of ASCII that a name goes on with. -/
def plain (c : Char) : Bool := c.isAlphanum || c = '_'

def continues (letters : Char → Bool) (c : Char) : Bool :=
  plain c || (128 ≤ c.toNat && letters c)

/-- What names, functions and methods stand for. -/
structure Language where
  /-- The characters beyond ASCII that a name goes on with, as they are. -/
  letters : Char → Bool
  value : String → Option ℤ
  function : String → List ℤ → Option ℤ
  method : String → ℤ → List ℤ → Option ℤ

def skipped (text : List Char) : List Char := text.dropWhile (· = ' ')

def number (letters : Char → Bool) (text : List Char) : Option (ℤ × List Char) :=
  let rest := text.dropWhile Char.isDigit
  if (rest.head?).any fun next => next = '.' || continues letters next then none
  else some (Nat.ofDigitChars 10 (text.takeWhile Char.isDigit) 0, rest)

section Reading

variable (language : Language)

mutual

def sum : ℕ → List Char → Option (ℤ × List Char)
  | 0, _ => none
  | fuel + 1, text => (product fuel text).bind fun left => sumRest fuel left.1 left.2

def sumRest : ℕ → ℤ → List Char → Option (ℤ × List Char)
  | 0, _, _ => none
  | fuel + 1, left, text =>
    match skipped text with
    | '+' :: rest => (product fuel rest).bind fun right => sumRest fuel (left + right.1) right.2
    | '-' :: rest => (product fuel rest).bind fun right => sumRest fuel (left - right.1) right.2
    | _ => some (left, text)

def product : ℕ → List Char → Option (ℤ × List Char)
  | 0, _ => none
  | fuel + 1, text => (factor fuel text).bind fun left => productRest fuel left.1 left.2

def productRest : ℕ → ℤ → List Char → Option (ℤ × List Char)
  | 0, _, _ => none
  | fuel + 1, left, text =>
    match skipped text with
    | '*' :: rest => (factor fuel rest).bind fun right => productRest fuel (left * right.1) right.2
    | _ => some (left, text)

/-- A value with any number of signs. -/
def factor : ℕ → List Char → Option (ℤ × List Char)
  | 0, _ => none
  | fuel + 1, text =>
    match skipped text with
    | '-' :: rest => (factor fuel rest).map fun inner => (-inner.1, inner.2)
    | text => primary fuel text

/-- An atom with any number of method calls. -/
def primary : ℕ → List Char → Option (ℤ × List Char)
  | 0, _ => none
  | fuel + 1, text => (atom fuel text).bind fun first => trailers fuel first.1 first.2

/-- The method calls that follow. -/
def trailers : ℕ → ℤ → List Char → Option (ℤ × List Char)
  | 0, _, _ => none
  | fuel + 1, receiver, text =>
    match skipped text with
    | '.' :: rest =>
      match rest.dropWhile (continues language.letters) with
      | '(' :: inner => (arguments fuel inner).bind fun args =>
        (language.method (String.ofList (rest.takeWhile (continues language.letters))) receiver
          args.1).bind fun result => trailers fuel result args.2
      | _ => none
    | _ => some (receiver, text)

/-- A number, a name, a call or an expression in parentheses. -/
def atom : ℕ → List Char → Option (ℤ × List Char)
  | 0, _ => none
  | _ + 1, [] => none
  | fuel + 1, c :: text =>
    if c = '(' then (sum fuel text).bind fun inner =>
      match skipped inner.2 with
      | ')' :: rest => some (inner.1, rest)
      | _ => none
    else if c.isDigit then number language.letters (c :: text)
    else if starts c then
      let word := String.ofList (c :: text.takeWhile (continues language.letters))
      let after := text.dropWhile (continues language.letters)
      match skipped after with
      | '(' :: inner => (arguments fuel inner).bind fun args =>
        (language.function word args.1).map fun result => (result, args.2)
      | _ => (language.value word).map fun result => (result, after)
    else none

def arguments : ℕ → List Char → Option (List ℤ × List Char)
  | 0, _ => none
  | fuel + 1, text => (sum fuel text).bind fun first =>
    match skipped first.2 with
    | ')' :: rest => some ([first.1], rest)
    | ',' :: rest => (arguments fuel rest).map fun others => (first.1 :: others.1, others.2)
    | _ => none

end

def denote (text : String) : Option ℤ :=
  (sum language (8 * text.toList.length + 8) text.toList).bind fun result =>
    if result.2 = [] then some result.1 else none

end Reading

/-! ## What follows an expression -/

def Ends (rest : List Char) : Prop := rest = [] ∨ ∃ c more, rest = c :: more ∧ (c = ')' ∨ c = ',')

/-- The end of a sum, or an operator after a blank. -/
def Follows (rest : List Char) : Prop :=
  Ends rest ∨ ∃ c more, rest = ' ' :: c :: more ∧ (c = '+' ∨ c = '-' ∨ c = '*')

variable {c : Char} {letters : Char → Bool}

theorem continues_ascii (hc : c.toNat < 128) : continues letters c = plain c := by
  rw [continues, decide_eq_false (not_le.mpr hc), Bool.false_and, Bool.or_false]

theorem continues_plain (hc : plain c = true) : continues letters c = true := by
  rw [continues, hc, Bool.true_or]

theorem skipped_cons (hc : c ≠ ' ') (text : List Char) :
    skipped (c :: text) = c :: text := dropWhile_cons_of_neg (by simpa using hc)

theorem skipped_operator (hc : c ≠ ' ') (text : List Char) :
    skipped (' ' :: c :: text) = c :: text := skipped_cons hc text

variable {rest : List Char}

theorem Ends.skipped (h : Ends rest) :
    skipped rest = [] ∨
      ∃ c more, skipped rest = c :: more ∧ (c = ')' ∨ c = ',') := by
  obtain rfl | ⟨c, more, rfl, rfl | rfl⟩ := h
  · exact .inl rfl
  · exact .inr ⟨_, more, rfl, .inl rfl⟩
  · exact .inr ⟨_, more, rfl, .inr rfl⟩

theorem Follows.skipped (h : Follows rest) :
    skipped rest = [] ∨ ∃ c more, skipped rest = c :: more ∧
      c ≠ '.' ∧ c ≠ '(' := by
  obtain h | ⟨c, more, rfl, hc⟩ := h
  · obtain h | ⟨c, more, h, rfl | rfl⟩ := h.skipped
    · exact .inl h
    · exact .inr ⟨_, more, h, by decide⟩
    · exact .inr ⟨_, more, h, by decide⟩
  · obtain rfl | rfl | rfl := hc <;> exact .inr ⟨_, more, rfl, by decide⟩

theorem Follows.stops (h : Follows rest) (letters : Char → Bool) (hc : rest.head? = some c) :
    continues letters c = false ∧ c.isDigit = false ∧ c ≠ '.' := by
  obtain (rfl | ⟨d, _, rfl, rfl | rfl⟩) | ⟨d, _, rfl, _⟩ := h
  · cases hc
  all_goals
    cases hc
    exact ⟨continues_ascii (by decide), by decide⟩

theorem takeWhile_stops {p : Char → Bool} (hmore : ∀ c ∈ more, p c = true)
    (hrest : ∀ c, rest.head? = some c → p c = false) :
    (more ++ rest).takeWhile p = more ∧ (more ++ rest).dropWhile p = rest := by
  rw [takeWhile_append_of_pos hmore, dropWhile_append_of_pos hmore]
  cases rest with
  | nil => exact ⟨append_nil _, rfl⟩
  | cons c =>
    have hc : ¬ p c = true := by
      rw [hrest c rfl]
      decide
    rw [takeWhile_cons_of_neg hc, dropWhile_cons_of_neg hc, append_nil]
    exact ⟨rfl, rfl⟩

/-! ## Texts that are expressions -/

def Takes {A : Type} (parse : ℕ → List Char → Option (A × List Char)) (fuel : ℕ)
    (text : List Char) (value : A) (rest : List Char) : Prop :=
  ∀ n, fuel ≤ n → parse n text = some (value, rest)

section Rules

variable {language : Language} {text rest : List Char} {x y : ℤ} {values : List ℤ} {k : ℕ}

variable {A : Type}

theorem Takes.mono {parse : ℕ → List Char → Option (A × List Char)}
    (h : Takes parse k text value rest) (hle : k ≤ j) : Takes parse j text value rest :=
  fun n hn => h n (hle.trans hn)

theorem takes_succ {parse : ℕ → List Char → Option (A × List Char)}
    (h : ∀ n, k ≤ n → parse (n + 1) text = some (value, rest)) :
    Takes parse (k + 1) text value rest := by
  intro n hn
  obtain ⟨n, rfl⟩ : ∃ m, n = m + 1 := ⟨n - 1, by omega⟩
  exact h n (by omega)

theorem takes_sum (hfirst : Takes (product language) k text x mid)
    (hmore : Takes (fun fuel => sumRest language fuel x) j mid y rest) :
    Takes (sum language) (max k j + 1) text y rest :=
  takes_succ fun n hn => by
    rw [sum, hfirst n (by omega), bind_some]
    exact hmore n (by omega)

theorem takes_sumRest_end (hends : Ends rest) :
    Takes (fun fuel => sumRest language fuel x) 1 rest x rest :=
  takes_succ fun n _ => by
    obtain h | ⟨c, _, h, rfl | rfl⟩ := hends.skipped <;>
      simp only [sumRest, h] <;> rfl

theorem takes_product (hfirst : Takes (factor language) k text x mid)
    (hmore : Takes (fun fuel => productRest language fuel x) j mid y rest) :
    Takes (product language) (max k j + 1) text y rest :=
  takes_succ fun n hn => by
    rw [product, hfirst n (by omega), bind_some]
    exact hmore n (by omega)

theorem takes_primary (hfirst : Takes (atom language) k text x mid)
    (hmore : Takes (fun fuel => trailers language fuel x) j mid y rest) :
    Takes (primary language) (max k j + 1) text y rest :=
  takes_succ fun n hn => by
    rw [primary, hfirst n (by omega), bind_some]
    exact hmore n (by omega)

theorem takes_trailers_end (hfollows : Follows rest) :
    Takes (fun fuel => trailers language fuel x) 1 rest x rest :=
  takes_succ fun n _ => by
    obtain h | ⟨c, more, h, hdot, _⟩ := hfollows.skipped
    · simp only [trailers, h]
    · simp only [trailers, h]
      split
      · rename_i heq
        exact absurd (List.cons.inj heq).1 hdot
      · rfl

variable (language)

structure Operand (follows : List Char → Prop) (text : List Char) (x : ℤ) : Prop where
  head : ∃ c more, text = c :: more ∧ c ≠ ' ' ∧ c ≠ '-'
  takes : ∀ (rest last : List Char) (y : ℤ) (k : ℕ), follows rest →
    Takes (fun fuel => trailers language fuel x) k rest y last →
    Takes (primary language) (8 * text.length + k) (text ++ rest) y last

/-- A text is a name, a number, or an expression that ends with a parenthesis. -/
abbrev IsOperand : List Char → ℤ → Prop := Operand language Follows

/-- A text is an expression that ends with a parenthesis. -/
abbrev IsClosed : List Char → ℤ → Prop := Operand language fun _ => True

def IsSum (text : List Char) (x : ℤ) : Prop :=
  ∀ rest, Ends rest → Takes (sum language) (8 * text.length + 6) (text ++ rest) x rest

def AreArguments (text : List Char) (values : List ℤ) : Prop :=
  ∀ rest, Takes (arguments language) (8 * text.length + 8) (text ++ ')' :: rest) values rest

def AreFactors (text : List Char) (values : List ℤ) : Prop :=
  (∀ rest, Ends rest → Follows (text ++ rest)) ∧ ∀ left rest, Ends rest →
    Takes (fun fuel => productRest language fuel left) (8 * text.length + 1) (text ++ rest)
      (values.foldl (· * ·) left) rest

variable {language}

theorem Operand.operand (h : IsClosed language text x) : IsOperand language text x :=
  ⟨h.head, fun rest last y k _ => h.takes rest last y k trivial⟩

theorem Operand.factor (h : IsOperand language text x) (hfollows : Follows rest) :
    Takes (factor language) (8 * text.length + 2) (text ++ rest) x rest :=
  takes_succ fun n hn => by
    have hprimary := h.takes rest rest x 1 hfollows (takes_trailers_end hfollows) n hn
    obtain ⟨c, more, rfl, hblank, hminus⟩ := h.head
    rw [cons_append] at hprimary ⊢
    simp only [factor, skipped_cons hblank]
    split
    · rename_i heq
      exact absurd (List.cons.inj heq).1 hminus
    · exact hprimary

theorem factor_blank (n : ℕ) : factor language n (' ' :: text) =
    factor language n text := by
  cases n with
  | zero => simp only [factor]
  | succ =>
    simp only [factor]
    rfl

theorem product_blank (n : ℕ) : product language n (' ' :: text) = product language n text := by
  cases n with
  | zero => simp only [product]
  | succ => rw [product, product, factor_blank]

theorem sum_blank (n : ℕ) : sum language n (' ' :: text) = sum language n text := by
  cases n with
  | zero => simp only [sum]
  | succ => rw [sum, sum, product_blank]

theorem areFactors_nil : AreFactors language [] [] := by
  refine ⟨fun rest hends => .inl hends, fun left rest hends => takes_succ fun n _ => ?_⟩
  rw [nil_append]
  obtain h | ⟨c, _, h, rfl | rfl⟩ := hends.skipped <;>
    simp only [productRest, h, foldl_nil] <;> rfl

theorem AreFactors.cons (h : IsOperand language text x) (hmore : AreFactors language other values) :
    AreFactors language ([' ', '*', ' '] ++ text ++ other) (x :: values) := by
  refine ⟨fun rest _ => .inr ⟨'*', _, rfl, .inr (.inr rfl)⟩, fun left rest hends => ?_⟩
  obtain ⟨hnext, htakes⟩ := hmore
  have hrow : Takes (fun fuel => productRest language fuel left)
      (max (8 * text.length + 2) (8 * other.length + 1) + 1)
      (' ' :: '*' :: ' ' :: (text ++ (other ++ rest))) (values.foldl (· * ·) (left * x)) rest :=
    takes_succ fun n hn => by
      simp only [productRest, skipped_operator (show '*' ≠ ' ' by decide)]
      rw [factor_blank, h.factor (hnext rest hends) n (by omega), bind_some]
      exact htakes (left * x) rest hends n (by omega)
  simp only [cons_append, nil_append, append_assoc, length_cons, length_append, foldl_cons]
  exact hrow.mono (by omega)

theorem AreFactors.product (hmore : AreFactors language other values)
    (h : IsOperand language text x) (hends : Ends rest) :
    Takes (product language) (8 * (text ++ other).length + 4) (text ++ other ++ rest)
      (values.foldl (· * ·) x) rest := by
  have hproduct := takes_product (h.factor (hmore.1 rest hends)) (hmore.2 x rest hends)
  rw [append_assoc, length_append]
  exact hproduct.mono (by omega)

theorem AreFactors.isSum (hmore : AreFactors language other values)
    (h : IsOperand language text x) :
    IsSum language (text ++ other) (values.foldl (· * ·) x) := fun _ hends =>
  (takes_sum (hmore.product h hends) (takes_sumRest_end hends)).mono (by omega)

theorem Operand.isSum (h : IsOperand language text x) : IsSum language text x := by
  have hsum := areFactors_nil.isSum h
  rw [append_nil] at hsum
  exact hsum

theorem Operand.plus (h : IsOperand language text x)
    (hother : IsOperand language other y) (hc : c = '+' ∧ z = x + y ∨ c = '-' ∧ z = x - y) :
    IsSum language (text ++ [' ', c, ' '] ++ other) z := by
  intro rest hends
  have hfollows : Follows (' ' :: c :: ' ' :: (other ++ rest)) :=
    .inr ⟨c, _, rfl, hc.elim (fun h => .inl h.1) fun h => .inr (.inl h.1)⟩
  have hend : Takes (fun fuel => productRest language fuel x) 1 (' ' :: c :: ' ' :: (other ++ rest))
      x (' ' :: c :: ' ' :: (other ++ rest)) := takes_succ fun n _ => by
    obtain ⟨rfl, _⟩ | ⟨rfl, _⟩ := hc <;> rw [productRest] <;> rfl
  have hright : Takes (product language) (8 * other.length + 4) (other ++ rest) y rest := by
    have hproduct := areFactors_nil.product hother hends
    rw [append_nil] at hproduct
    exact hproduct
  have hmore : Takes (fun fuel => sumRest language fuel x) (8 * other.length + 5)
      (' ' :: c :: ' ' :: (other ++ rest)) z rest := takes_succ fun n hn => by
    have hlast : sumRest language n z rest = some (z, rest) := takes_sumRest_end hends n (by omega)
    obtain ⟨rfl, rfl⟩ | ⟨rfl, rfl⟩ := hc
    all_goals
      simp only [sumRest, skipped_operator (show '+' ≠ ' ' by decide),
        skipped_operator (show '-' ≠ ' ' by decide)]
      rw [product_blank, hright n hn, bind_some]
      exact hlast
  have hsum := takes_sum (takes_product (h.factor hfollows) hend) hmore
  simp only [cons_append, nil_append, append_assoc, length_cons, length_append]
  exact hsum.mono (by omega)

theorem Operand.neg (h : IsOperand language text x) : IsSum language (['-'] ++ text) (-x) := by
  intro rest hends
  have hfactor : Takes (PythonExpressions.factor language) (8 * text.length + 3)
      ('-' :: (text ++ rest)) (-x) rest := takes_succ fun n hn => by
    simp only [PythonExpressions.factor, skipped_cons (show '-' ≠ ' ' by decide)]
    rw [h.factor (.inl hends) n hn, map_some]
  have hsum := takes_sum (takes_product hfactor (areFactors_nil.2 (-x) rest hends))
    (takes_sumRest_end hends)
  exact hsum.mono (by simp only [length_append, length_cons, length_nil]; omega)

theorem IsSum.paren (h : IsSum language text x) : IsClosed language (['('] ++ text ++ [')']) x := by
  refine ⟨⟨'(', _, rfl, by decide⟩, fun rest last y k _ hmore => ?_⟩
  have hatom : Takes (atom language) (8 * text.length + 7) ('(' :: (text ++ ')' :: rest)) x rest :=
    takes_succ fun n hn => by
      rw [atom, if_pos rfl, h (')' :: rest) (.inr ⟨_, _, rfl, .inl rfl⟩) n hn, bind_some]
      rfl
  have hprimary := takes_primary hatom hmore
  simp only [cons_append, nil_append, append_assoc, length_cons, length_append, length_nil]
  exact hprimary.mono (by omega)

theorem IsSum.arguments (h : IsSum language text x) : AreArguments language text [x] := fun rest =>
  takes_succ (k := 8 * text.length + 7) fun n hn => by
    rw [PythonExpressions.arguments, h (')' :: rest) (.inr ⟨_, _, rfl, .inl rfl⟩) n (by omega),
      bind_some]
    rfl

theorem IsSum.cons (h : IsSum language text x) (hmore : AreArguments language other values) :
    AreArguments language (text ++ [',', ' '] ++ other) (x :: values) := by
  intro rest
  have hargs : Takes (PythonExpressions.arguments language)
      (max (8 * text.length + 6) (8 * other.length + 9) + 1)
      (text ++ ',' :: ' ' :: (other ++ ')' :: rest)) (x :: values) rest := takes_succ fun n hn => by
    obtain ⟨n, rfl⟩ : ∃ m, n = m + 1 := ⟨n - 1, by omega⟩
    have hothers := hmore rest (n + 1) (by omega)
    rw [PythonExpressions.arguments] at hothers ⊢
    rw [h (',' :: ' ' :: (other ++ ')' :: rest)) (.inr ⟨_, _, rfl, .inr rfl⟩) (n + 1) (by omega),
      bind_some]
    simp only [skipped_cons (show ',' ≠ ' ' by decide)]
    rw [PythonExpressions.arguments, sum_blank, hothers, map_some]
  simp only [cons_append, nil_append, append_assoc, length_cons, length_append]
  exact hargs.mono (by omega)

structure IsName (letters : Char → Bool) (word : String) : Prop where
  starts : ∃ c more, word.toList = c :: more ∧ starts c = true ∧ c.isDigit = false ∧ c ≠ '(' ∧
    c ≠ ' ' ∧ c ≠ '-'
  continues : ∀ c ∈ word.toList, continues letters c = true

theorem isOperand_name (hname : IsName language.letters word)
    (hvalue : language.value word = some x) :
    IsOperand language word.toList x := by
  obtain ⟨c, more, hword, hstarts, hdigit, hparen, hblank, hminus⟩ := hname.starts
  refine ⟨⟨c, more, hword, hblank, hminus⟩, fun rest last y k hfollows hmore => ?_⟩
  obtain ⟨htake, hdrop⟩ := takeWhile_stops
    (fun d hd => hname.continues d (hword ▸ mem_cons_of_mem c hd))
    fun d hd => (hfollows.stops language.letters hd).1
  have hatom : Takes (atom language) 1 (c :: (more ++ rest)) x rest := takes_succ fun n _ => by
    rw [atom, if_neg hparen, if_neg (by rw [hdigit]; decide), if_pos hstarts, htake, hdrop, ← hword,
      String.ofList_toList]
    obtain h | ⟨d, others, h, _, hd⟩ := hfollows.skipped
    · simp [h, hvalue]
    · simp only [h, hvalue, map_some]
      split
      · rename_i heq
        exact absurd (List.cons.inj heq).1 hd
      · rfl
  have hprimary := takes_primary hatom hmore
  rw [hword, cons_append]
  exact hprimary.mono (by rw [length_cons]; omega)

theorem isOperand_number (n : ℕ) : IsOperand language (Nat.toDigits 10 n) n := by
  have hall : ∀ d ∈ Nat.toDigits 10 n, d.isDigit = true := fun d hd =>
    Nat.isDigit_of_mem_toDigits (by decide) (by decide) hd
  obtain ⟨c, more, hdigits⟩ := exists_cons_of_ne_nil (Nat.toDigits_ne_nil (b := 10) (n := n))
  have hdigit : c.isDigit = true := hall c (hdigits ▸ mem_cons_self)
  have hother : ∀ d : Char, d.isDigit = false → c ≠ d := by
    rintro d hd rfl
    rw [hd] at hdigit
    cases hdigit
  refine ⟨⟨c, more, hdigits, hother ' ' rfl, hother '-' rfl⟩,
    fun rest last y k hfollows hmore => ?_⟩
  obtain ⟨htake, hdrop⟩ := takeWhile_stops hall fun d hd => (hfollows.stops language.letters hd).2.1
  have hnext : (rest.head?).any (fun next =>
      decide (next = '.') || continues language.letters next) = false := by
    cases hhead : rest.head? with
    | none => rfl
    | some =>
      obtain ⟨hcontinues, _, hdot⟩ := hfollows.stops language.letters hhead
      rw [any_some, hcontinues, decide_eq_false hdot]
      rfl
  have hatom : Takes (atom language) 1 (Nat.toDigits 10 n ++ rest) n rest :=
    takes_succ fun m _ => by
      rw [hdigits, cons_append, atom, if_neg (hother '(' rfl), if_pos hdigit,
        ← cons_append, ← hdigits, number, hdrop, htake, hnext, Nat.ofDigitChars_ten_toDigits]
      rfl
  have hprimary := takes_primary hatom hmore
  exact hprimary.mono (by rw [hdigits, length_cons]; omega)

theorem AreArguments.call (h : AreArguments language text values)
    (hname : IsName language.letters word)
    (hresult : language.function word values = some x) :
    IsClosed language (word.toList ++ ['('] ++ text ++ [')']) x := by
  obtain ⟨c, more, hword, hstarts, hdigit, hparen, hblank, hminus⟩ := hname.starts
  refine ⟨⟨c, _, by rw [hword]; rfl, hblank, hminus⟩, fun rest last y k _ hmore => ?_⟩
  have hopen : ∀ d, ('(' :: (text ++ ')' :: rest)).head? = some d →
      continues language.letters d = false := by
    rintro d ⟨⟩
    exact continues_ascii (by decide)
  obtain ⟨htake, hdrop⟩ := takeWhile_stops
    (fun d hd => hname.continues d (hword ▸ mem_cons_of_mem c hd)) hopen
  have hatom : Takes (atom language) (8 * text.length + 9)
      (c :: (more ++ '(' :: (text ++ ')' :: rest))) x rest := takes_succ fun n hn => by
    rw [atom, if_neg hparen, if_neg (by rw [hdigit]; decide), if_pos hstarts, htake, hdrop, ← hword,
      String.ofList_toList]
    simp only [skipped_cons (show '(' ≠ ' ' by decide)]
    rw [h rest n hn, bind_some, hresult, map_some]
  have hprimary := takes_primary hatom hmore
  simp only [hword, cons_append, nil_append, append_assoc, length_cons, length_append, length_nil]
  exact hprimary.mono (by omega)

theorem AreArguments.method (h : AreArguments language other values)
    (hreceiver : IsClosed language text x) (hname : IsName language.letters word)
    (hresult : language.method word x values = some y) :
    IsClosed language (text ++ ['.'] ++ word.toList ++ ['('] ++ other ++ [')']) y := by
  obtain ⟨c, more, htext, hc⟩ := hreceiver.head
  refine ⟨⟨c, _, by rw [htext]; rfl, hc⟩, fun rest last z k _ hmore => ?_⟩
  have hopen : ∀ d, ('(' :: (other ++ ')' :: rest)).head? = some d →
      continues language.letters d = false := by
    rintro d ⟨⟩
    exact continues_ascii (by decide)
  obtain ⟨htake, hdrop⟩ := takeWhile_stops hname.continues hopen
  have htrailers : Takes (fun fuel => trailers language fuel x) (max (8 * other.length + 8) k + 1)
      ('.' :: (word.toList ++ '(' :: (other ++ ')' :: rest))) z last := takes_succ fun n hn => by
    simp only [trailers, skipped_cons (show '.' ≠ ' ' by decide), htake, hdrop,
      String.ofList_toList]
    rw [h rest n (by omega), bind_some, hresult, bind_some]
    exact hmore n (by omega)
  have hprimary := hreceiver.takes _ last z _ trivial htrailers
  simp only [cons_append, nil_append, append_assoc, length_cons, length_append, length_nil]
  exact hprimary.mono (by omega)

theorem IsSum.denote {whole : String} (h : IsSum language whole.toList x) :
    denote language whole = some x := by
  have hsum := h [] (.inl rfl) (8 * whole.toList.length + 8) (by omega)
  rw [append_nil] at hsum
  rw [PythonExpressions.denote, hsum, bind_some, if_pos rfl]

end Rules

end Zkpi.PythonExpressions
