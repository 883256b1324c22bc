import Quill.Expr.Parse

/-!
The grammar of expressions.

`Spells level lexemes e nesting` says that a list of lexemes is an expression `e` whose
operators outside of parentheses bind at least as tightly as `level`, and that `nesting` is
the greatest number of parentheses and negations that enclose one another in it.  The levels
below `Operator.levels` are those of the binary operators, and `Operator.levels` is that of
the operands.  The main theorem is `Spells.unique`: a list of lexemes spells at most one
expression, even when something follows it.
-/

namespace Quill

abbrev Lexeme.Is (l : Lexeme) (kind : Lexeme.Kind) (text : String) : Prop :=
  l.kind = kind ∧ l.text = text

def Literal.ofNumeral (negative : Bool) (numeral : String) : Literal :=
  if numeral.toList.contains '.' then
    let x := (Binary64.readDecimal? numeral.toList).getD .nan
    .float (if negative then x.neg else x)
  else
    let n := Int.ofNat (Text.natOfDigits numeral.toList)
    .int (if negative then -n else n)

namespace Expr

/-! ## Spelling -/

/-- The steps of a path: a point and a name, or a whole number in brackets, any number of
times. -/
inductive SpellsSteps : List Lexeme → List Segment → Prop where
  | nil : SpellsSteps [] []
  | field {point name : Lexeme} {rest : List Lexeme} {steps : List Segment} :
      point.Is .punct "." → name.kind = .name → SpellsSteps rest steps →
      SpellsSteps (point :: name :: rest) (.field name.text :: steps)
  | index {opening number closing : Lexeme} {rest : List Lexeme} {steps : List Segment} :
      opening.Is .punct "[" → number.kind = .number → '.' ∉ number.text.toList →
      closing.Is .punct "]" → SpellsSteps rest steps →
      SpellsSteps (opening :: number :: closing :: rest)
        (.index (Int.ofNat (Text.natOfDigits number.text.toList)) :: steps)

structure Term where
  sign : Lexeme
  op : Operator
  lexemes : List Lexeme
  operand : Expr
  nesting : Nat

def Term.spelling (t : Term) : List Lexeme := t.sign :: t.lexemes

/-- The tree of a chain: each term takes all that is to the left of it as its left operand. -/
def chain (first : Expr) (terms : List Term) : Expr :=
  terms.foldl (fun left t => .binary t.op left t.operand) first

def chainNesting (first : Nat) (terms : List Term) : Nat :=
  terms.foldl (fun n t => max n t.nesting) first

inductive Spells : Nat → List Lexeme → Expr → Nat → Prop where
  | number {l : Lexeme} : l.kind = .number →
      Spells Operator.levels [l] (.literal (.ofNumeral false l.text)) 0
  | negative {minus l : Lexeme} : minus.Is .operator "-" → l.kind = .number →
      Spells Operator.levels [minus, l] (.literal (.ofNumeral true l.text)) 0
  | string {l : Lexeme} : l.kind = .string →
      Spells Operator.levels [l]
        (.literal (.text (String.ofList (Text.literalText l.text.toList)))) 0
  | word {l : Lexeme} {value : Literal} : l.kind = .name → Literal.ofWord? l.text = some value →
      Spells Operator.levels [l] (.literal value) 0
  | path {root : Lexeme} {rest : List Lexeme} {steps : List Segment} : root.kind = .name →
      Literal.ofWord? root.text = none → SpellsSteps rest steps →
      Spells Operator.levels (root :: rest) (.path ⟨root.text, steps⟩) 0
  | group {opening closing : Lexeme} {inner : List Lexeme} {e : Expr} {n : Nat} :
      opening.Is .punct "(" → Spells 0 inner e n → closing.Is .punct ")" →
      Spells Operator.levels (opening :: (inner ++ [closing])) e (n + 1)
  | not {sign : Lexeme} {operand : List Lexeme} {e : Expr} {n : Nat} : sign.Is .operator "!" →
      Spells Operator.levels operand e n →
      Spells Operator.levels (sign :: operand) (.not e) (n + 1)
  | chain {level : Nat} {first : List Lexeme} {left : Expr} {n : Nat} {terms : List Term} :
      level < Operator.levels → Spells (level + 1) first left n →
      (∀ t ∈ terms, t.sign.Is .operator t.op.symbol ∧ t.op.level = level) →
      (∀ t ∈ terms, Spells (level + 1) t.lexemes t.operand t.nesting) →
      Spells level (first ++ terms.flatMap Term.spelling) (chain left terms)
        (chainNesting n terms)

theorem Spells.ne_nil {level n : Nat} {ls : List Lexeme} {e : Expr}
    (h : Spells level ls e n) : ls ≠ [] := by
  induction h with
  | chain _ _ _ _ ih _ => simp [ih]
  | _ => simp

/-- An operand is an expression of every level. -/
theorem Spells.of_operand {ls : List Lexeme} {e : Expr} {n : Nat}
    (h : Spells Operator.levels ls e n) : Spells 0 ls e n := by
  have lower : ∀ level, level < Operator.levels → Spells (level + 1) ls e n →
      Spells level ls e n := by
    intro level hlevel hnext
    have hchain := @Spells.chain level ls e n [] hlevel hnext (by simp) (by simp)
    rwa [List.flatMap_nil, List.append_nil] at hchain
  have hall : ∀ k, k ≤ Operator.levels → Spells (Operator.levels - k) ls e n := by
    intro k hk
    induction k with
    | zero => exact h
    | succ k ih =>
      refine lower _ (by omega) ?_
      rw [show Operator.levels - (k + 1) + 1 = Operator.levels - k by omega]
      exact ih (by omega)
  exact hall Operator.levels (Nat.le_refl _)

/-! ## What may follow -/

/-- Whether an expression of a level may end before `rest`: no operator that binds as
tightly follows, and no step of a path. -/
def Ends (level : Nat) (rest : List Lexeme) : Prop :=
  ∀ l ∈ rest.head?, ¬ l.Is .punct "." ∧ ¬ l.Is .punct "[" ∧
    ∀ op : Operator, l.Is .operator op.symbol → op.level < level

theorem Ends.mono {level level' : Nat} {rest : List Lexeme} (h : Ends level rest)
    (hle : level ≤ level') : Ends level' rest := by
  intro l hl
  obtain ⟨hpoint, hbracket, hop⟩ := h l hl
  exact ⟨hpoint, hbracket, fun op hsign => Nat.lt_of_lt_of_le (hop op hsign) hle⟩

theorem ends_nil (level : Nat) : Ends level [] := by
  intro l hl
  cases hl

theorem ends_cons {level : Nat} {l : Lexeme} {rest : List Lexeme} {text : String}
    (h : l.Is .punct text) (hpoint : text ≠ ".") (hbracket : text ≠ "[") :
    Ends level (l :: rest) := by
  intro m hm
  obtain rfl : l = m := by simpa using hm
  refine ⟨fun hl => hpoint (h.2.symm.trans hl.2), fun hl => hbracket (h.2.symm.trans hl.2), ?_⟩
  intro op hl
  exact absurd (h.1.symm.trans hl.1) (by decide)

theorem symbol_injective {op op' : Operator} (h : op.symbol = op'.symbol) : op = op' := by
  have hop := Operator.ofSymbol?_symbol op
  rw [h, Operator.ofSymbol?_symbol] at hop
  exact (Option.some.inj hop).symm

/-- Before an operator of `level`, an expression that binds more tightly may end. -/
theorem ends_of_operator {level : Nat} {l : Lexeme} {op : Operator} {rest : List Lexeme}
    (h : l.Is .operator op.symbol) (hlevel : op.level < level) : Ends level (l :: rest) := by
  intro m hm
  obtain rfl : l = m := by simpa using hm
  refine ⟨fun hl => ?_, fun hl => ?_, fun op' hl => ?_⟩
  · exact absurd (h.1.symm.trans hl.1) (by decide)
  · exact absurd (h.1.symm.trans hl.1) (by decide)
  · obtain rfl := symbol_injective (h.2.symm.trans hl.2)
    exact hlevel

/-- The first operand of a chain ends where its terms begin, or with the chain itself. -/
theorem ends_terms {level : Nat} {terms : List Term} {rest : List Lexeme}
    (hterms : ∀ t ∈ terms, t.sign.Is .operator t.op.symbol ∧ t.op.level = level)
    (hrest : Ends level rest) : Ends (level + 1) (terms.flatMap Term.spelling ++ rest) := by
  cases terms with
  | nil => exact hrest.mono (Nat.le_succ level)
  | cons t terms =>
    obtain ⟨hsign, hlevel⟩ := hterms t List.mem_cons_self
    exact ends_of_operator hsign (by omega)

/-! ## Unambiguity -/

/-- Steps that are followed by no further step are determined by what they begin. -/
theorem SpellsSteps.unique {level : Nat} {ls ls' rest rest' : List Lexeme}
    {steps steps' : List Segment} (h : SpellsSteps ls steps) (h' : SpellsSteps ls' steps')
    (heq : ls ++ rest = ls' ++ rest') (hrest : Ends level rest) (hrest' : Ends level rest') :
    ls = ls' ∧ steps = steps' := by
  induction h generalizing ls' steps' with
  | nil =>
    cases h' with
    | nil => exact ⟨rfl, rfl⟩
    | field hpoint _ _ =>
      obtain rfl : rest = _ := heq
      exact absurd hpoint (hrest _ rfl).1
    | index hopening _ _ _ _ =>
      obtain rfl : rest = _ := heq
      exact absurd hopening (hrest _ rfl).2.1
  | field hpoint hname _ ih =>
    cases h' with
    | nil =>
      obtain rfl : _ = rest' := heq
      exact absurd hpoint (hrest' _ rfl).1
    | field _ _ htail =>
      simp only [List.cons_append, List.cons.injEq] at heq
      obtain ⟨rfl, rfl, heq⟩ := heq
      obtain ⟨rfl, rfl⟩ := ih htail heq
      exact ⟨rfl, rfl⟩
    | index hopening _ _ _ _ =>
      simp only [List.cons_append, List.cons.injEq] at heq
      obtain ⟨rfl, -⟩ := heq
      exact absurd (hpoint.2.symm.trans hopening.2) (by decide)
  | index hopening hnumber _ hclosing _ ih =>
    cases h' with
    | nil =>
      obtain rfl : _ = rest' := heq
      exact absurd hopening (hrest' _ rfl).2.1
    | field hpoint _ _ =>
      simp only [List.cons_append, List.cons.injEq] at heq
      obtain ⟨rfl, -⟩ := heq
      exact absurd (hopening.2.symm.trans hpoint.2) (by decide)
    | index _ _ _ _ htail =>
      simp only [List.cons_append, List.cons.injEq] at heq
      obtain ⟨rfl, rfl, rfl, heq⟩ := heq
      obtain ⟨rfl, rfl⟩ := ih htail heq
      exact ⟨rfl, rfl⟩

def Determined (level : Nat) (ls : List Lexeme) (e : Expr) (n : Nat) : Prop :=
  ∀ (ls' rest rest' : List Lexeme) (e' : Expr) (n' : Nat), Spells level ls' e' n' →
    ls ++ rest = ls' ++ rest' → Ends level rest → Ends level rest' →
    ls = ls' ∧ e = e' ∧ n = n'

/-- The terms of a chain are determined when each operand is. -/
theorem terms_unique {level : Nat} {rest rest' : List Lexeme} {terms terms' : List Term}
    (hterms : ∀ t ∈ terms, t.sign.Is .operator t.op.symbol ∧ t.op.level = level)
    (hterms' : ∀ t ∈ terms', t.sign.Is .operator t.op.symbol ∧ t.op.level = level)
    (hdetermined : ∀ t ∈ terms, Determined (level + 1) t.lexemes t.operand t.nesting)
    (hspells' : ∀ t ∈ terms', Spells (level + 1) t.lexemes t.operand t.nesting)
    (heq : terms.flatMap Term.spelling ++ rest = terms'.flatMap Term.spelling ++ rest')
    (hrest : Ends level rest) (hrest' : Ends level rest') : terms = terms' := by
  induction terms generalizing terms' with
  | nil =>
    cases terms' with
    | nil => rfl
    | cons t' _ =>
      obtain ⟨hsign, hlevel⟩ := hterms' t' List.mem_cons_self
      obtain rfl : rest = _ := heq
      exact absurd ((hrest _ rfl).2.2 _ hsign) (by omega)
  | cons t terms ih =>
    obtain ⟨hsign, hlevel⟩ := hterms t List.mem_cons_self
    cases terms' with
    | nil =>
      obtain rfl : _ = rest' := heq
      exact absurd ((hrest' _ rfl).2.2 _ hsign) (by omega)
    | cons t' terms' =>
      obtain ⟨hsign', -⟩ := hterms' t' List.mem_cons_self
      obtain ⟨sign, op, lexemes, operand, nesting⟩ := t
      obtain ⟨sign', op', lexemes', operand', nesting'⟩ := t'
      simp only [List.flatMap_cons, Term.spelling, List.cons_append, List.append_assoc,
        List.cons.injEq] at heq
      obtain ⟨rfl, heq⟩ := heq
      obtain rfl := symbol_injective (hsign.2.symm.trans hsign'.2)
      have hrestTerms : ∀ t ∈ terms, t.sign.Is .operator t.op.symbol ∧ t.op.level = level :=
        fun t ht => hterms t (List.mem_cons_of_mem _ ht)
      have hrestTerms' : ∀ t ∈ terms', t.sign.Is .operator t.op.symbol ∧ t.op.level = level :=
        fun t ht => hterms' t (List.mem_cons_of_mem _ ht)
      obtain ⟨rfl, rfl, rfl⟩ := hdetermined _ List.mem_cons_self _ _ _ _ _
        (hspells' _ List.mem_cons_self) heq (ends_terms hrestTerms hrest)
        (ends_terms hrestTerms' hrest')
      obtain rfl := ih hrestTerms hrestTerms'
        (fun t ht => hdetermined t (List.mem_cons_of_mem _ ht))
        (fun t ht => hspells' t (List.mem_cons_of_mem _ ht)) (List.append_cancel_left heq)
      rfl

/-- The first lexeme tells the rules for operands apart, and the induction is on the first of
the two derivations. -/
theorem Spells.determined {level n : Nat} {ls : List Lexeme} {e : Expr}
    (h : Spells level ls e n) : Determined level ls e n := by
  -- A chain begins a list of the same level as another chain only; the others begin with
  -- lexemes that tell them apart.
  induction h with
  | number hnumber =>
    intro ls' rest rest' e' n' h' heq hrest hrest'
    cases h' with
    | chain hlevel _ _ _ => exact absurd hlevel (Nat.lt_irrefl _)
    | _ => grind
  | negative hminus hnumber =>
    intro ls' rest rest' e' n' h' heq hrest hrest'
    cases h' with
    | chain hlevel _ _ _ => exact absurd hlevel (Nat.lt_irrefl _)
    | _ => grind
  | string hstring =>
    intro ls' rest rest' e' n' h' heq hrest hrest'
    cases h' with
    | chain hlevel _ _ _ => exact absurd hlevel (Nat.lt_irrefl _)
    | _ => grind
  | word hname hword =>
    intro ls' rest rest' e' n' h' heq hrest hrest'
    cases h' with
    | chain hlevel _ _ _ => exact absurd hlevel (Nat.lt_irrefl _)
    | _ => grind
  | path hname hword hsteps =>
    intro ls' rest rest' e' n' h' heq hrest hrest'
    cases h' with
    | chain hlevel _ _ _ => exact absurd hlevel (Nat.lt_irrefl _)
    | path _ _ hsteps' =>
      simp only [List.cons_append, List.cons.injEq] at heq
      obtain ⟨rfl, heq⟩ := heq
      obtain ⟨rfl, rfl⟩ := hsteps.unique hsteps' heq hrest hrest'
      exact ⟨rfl, rfl, rfl⟩
    | _ => grind
  | group hopening _ hclosing ih =>
    intro ls' rest rest' e' n' h' heq hrest hrest'
    cases h' with
    | chain hlevel _ _ _ => exact absurd hlevel (Nat.lt_irrefl _)
    | group _ hinner' hclosing' =>
      simp only [List.cons_append, List.append_assoc, List.nil_append, List.cons.injEq] at heq
      obtain ⟨rfl, heq⟩ := heq
      obtain ⟨rfl, rfl, rfl⟩ := ih _ _ _ _ _ hinner' heq
        (ends_cons hclosing (by decide) (by decide)) (ends_cons hclosing' (by decide) (by decide))
      simp only [List.append_cancel_left_eq, List.cons.injEq] at heq
      obtain ⟨rfl, -⟩ := heq
      exact ⟨rfl, rfl, rfl⟩
    | _ => grind
  | not hsign _ ih =>
    intro ls' rest rest' e' n' h' heq hrest hrest'
    cases h' with
    | chain hlevel _ _ _ => exact absurd hlevel (Nat.lt_irrefl _)
    | not _ hoperand' =>
      simp only [List.cons_append, List.cons.injEq] at heq
      obtain ⟨rfl, heq⟩ := heq
      obtain ⟨rfl, rfl, rfl⟩ := ih _ _ _ _ _ hoperand' heq hrest hrest'
      exact ⟨rfl, rfl, rfl⟩
    | _ => grind
  | chain hlevel _ hterms _ ihFirst ihTerms =>
    intro ls' rest rest' e' n' h' heq hrest hrest'
    cases h' with
    | chain _ hfirst' hterms' hspells' =>
      rw [List.append_assoc, List.append_assoc] at heq
      obtain ⟨rfl, rfl, rfl⟩ := ihFirst _ _ _ _ _ hfirst' heq (ends_terms hterms hrest)
        (ends_terms hterms' hrest')
      obtain rfl := terms_unique hterms hterms' ihTerms hspells'
        (List.append_cancel_left heq) hrest hrest'
      exact ⟨rfl, rfl, rfl⟩
    | _ => exact absurd hlevel (Nat.lt_irrefl _)

/-- A list of lexemes spells at most one expression. -/
theorem Spells.unique {level n n' : Nat} {ls : List Lexeme} {e e' : Expr}
    (h : Spells level ls e n) (h' : Spells level ls e' n') : e = e' ∧ n = n' :=
  (h.determined ls [] [] e' n' h' rfl (ends_nil level) (ends_nil level)).2

end Expr
end Quill
