import Quill.Proofs.Expr.Reading

/-!
The parser of expressions accepts what its grammar spells, as long as the nesting stays within
the limit, and refuses everything else with a problem in the text
(`parse_eq_ok_iff_spells`).

The fuel that a list of lexemes needs is ten for each lexeme and one for each level of binding
that is still to be passed.
-/

namespace Quill
namespace Expr

/-! ## What is spelled is accepted -/

/-- Whether the parser reads exactly `ls` as `e` wherever an expression of the level may end
behind it. -/
def Accepts (level : Nat) (ls : List Lexeme) (e : Expr) (n : Nat) : Prop :=
  ∀ (text : String) (rest : List Lexeme) (depth fuel : Nat), (∀ l ∈ ls, l.Short) →
    Ends level rest → depth + n ≤ maxNesting →
    10 * ls.length + (Operator.levels - level) ≤ fuel →
    parseBinary text fuel level ⟨ls ++ rest, depth⟩ = .ok (e, ⟨rest, depth⟩)

/-- The operands are read below all levels of binding. -/
theorem parseBinary_levels (text : String) (fuel : Nat) (c : Cursor) :
    parseBinary text (fuel + 1) Operator.levels c = parseUnary text fuel c := by
  rw [parseBinary, if_pos rfl]

theorem parseBinary_operand {text : String} {fuel : Nat} {c : Cursor}
    (h : c.isAt .operator "!" = false) :
    parseBinary text (fuel + 2) Operator.levels c = parsePrimary text fuel c := by
  rw [parseBinary_levels, parseUnary, h]
  rfl

theorem isAt_eq_false {l : Lexeme} {rest : List Lexeme} {depth : Nat} {kind : Lexeme.Kind}
    {text : String} (h : ¬ l.Is kind text) :
    (Cursor.mk (l :: rest) depth).isAt kind text = false :=
  Bool.eq_false_iff.2 fun hat => h (Cursor.isAt_cons.1 hat)

theorem not_is_of_kind {l : Lexeme} {kind kind' : Lexeme.Kind} (h : l.kind = kind)
    (hne : kind ≠ kind') (text : String) : ¬ l.Is kind' text :=
  fun hl => hne (h.symm.trans hl.1)

/-- A primary operand is one that does not begin with a negation. -/
theorem accepts_of_primary {l : Lexeme} {ls : List Lexeme} {e : Expr} {n : Nat}
    (hl : ¬ l.Is .operator "!")
    (h : ∀ (text : String) (rest : List Lexeme) (depth fuel : Nat), (∀ m ∈ l :: ls, m.Short) →
      Ends Operator.levels rest → depth + n ≤ maxNesting → 10 * ls.length + 7 ≤ fuel →
      parsePrimary text (fuel + 1) ⟨l :: ls ++ rest, depth⟩ = .ok (e, ⟨rest, depth⟩)) :
    Accepts Operator.levels (l :: ls) e n := by
  intro text rest depth fuel hshort hrest hdepth hfuel
  rw [List.length_cons] at hfuel
  obtain ⟨fuel, rfl⟩ : ∃ k, fuel = k + 1 + 2 := ⟨fuel - 3, by omega⟩
  rw [List.cons_append, parseBinary_operand (isAt_eq_false hl)]
  exact h text rest depth fuel hshort hrest hdepth (by omega)

theorem accepts_number {l : Lexeme} (h : l.kind = .number) :
    Accepts Operator.levels [l] (.literal (.ofNumeral false l.text)) 0 := by
  refine accepts_of_primary (not_is_of_kind h (by decide) _) ?_
  intro text rest depth fuel hshort _ _ _
  dsimp only [parsePrimary, List.cons_append, List.nil_append]
  rw [if_pos (show (Cursor.mk (l :: rest) depth).current.kind = .number from h),
    Cursor.current_cons, readNumber_of_short h (hshort l (by simp)), Outcome.ok_bind,
    Cursor.advance_cons (by rw [h]; decide)]
  rfl

theorem accepts_negative {minus l : Lexeme} (hminus : minus.Is .operator "-")
    (h : l.kind = .number) :
    Accepts Operator.levels [minus, l] (.literal (.ofNumeral true l.text)) 0 := by
  refine accepts_of_primary (fun hl => absurd (hminus.2.symm.trans hl.2) (by decide)) ?_
  intro text rest depth fuel hshort _ _ _
  dsimp only [parsePrimary, List.cons_append, List.nil_append]
  have hkind : (Cursor.mk (minus :: l :: rest) depth).current.kind ≠ .number :=
    fun hl => absurd (hminus.1.symm.trans hl) (by decide)
  have hsign : ((Cursor.mk (minus :: l :: rest) depth).isAt .operator "-" &&
      (Cursor.mk (minus :: l :: rest) depth).next.kind == .number) = true :=
    Bool.and_eq_true_iff.2 ⟨Cursor.isAt_cons.2 hminus, beq_iff_eq.2 h⟩
  rw [if_neg hkind, if_pos hsign, Cursor.next_cons_cons,
    readNumber_of_short h (hshort l (by simp)), Outcome.ok_bind,
    Cursor.advance_cons (hminus.kind_ne_eof (by decide)),
    Cursor.advance_cons (by rw [h]; decide)]
  rfl

/-- Any other operand is reached when the current lexeme is no numeral and no sign of one. -/
theorem parsePrimary_skip {text : String} {fuel : Nat} {l : Lexeme} {rest : List Lexeme}
    {depth : Nat} (hnumber : l.kind ≠ .number) (hminus : ¬ l.Is .operator "-") :
    parsePrimary text (fuel + 1) ⟨l :: rest, depth⟩ =
      (if l.kind = .string then
        .ok (.literal (.text (String.ofList (Text.literalText l.text.toList))),
          (Cursor.mk (l :: rest) depth).advance)
      else if l.kind = .name then
        match Literal.ofWord? l.text with
        | some word => .ok (.literal word, (Cursor.mk (l :: rest) depth).advance)
        | none => do
          let (p, c) ← parsePathAt text ⟨l :: rest, depth⟩
          return (.path p, c)
      else if (Cursor.mk (l :: rest) depth).isAt .punct "(" then do
        let inner ← enter text l (Cursor.mk (l :: rest) depth).advance
        let (e, c) ← parseBinary text fuel 0 inner
        if c.isAt .punct ")" then return (e, leave c.advance)
        else problemAt text .closingParenthesisMissing c.current
      else if l.kind = .eof then problemAt text .unexpectedEnd l
      else problemAt text (.unexpected l.text) l) := by
  dsimp only [parsePrimary]
  have hsign : ¬ ((Cursor.mk (l :: rest) depth).isAt .operator "-" &&
      (Cursor.mk (l :: rest) depth).next.kind == .number) = true := by
    rw [isAt_eq_false hminus, Bool.false_and]
    decide
  rw [if_neg (show (Cursor.mk (l :: rest) depth).current.kind ≠ .number from hnumber),
    if_neg hsign]
  rfl

theorem accepts_string {l : Lexeme} (h : l.kind = .string) :
    Accepts Operator.levels [l]
      (.literal (.text (String.ofList (Text.literalText l.text.toList)))) 0 := by
  refine accepts_of_primary (not_is_of_kind h (by decide) _) ?_
  intro text rest depth fuel _ _ _ _
  rw [List.cons_append, parsePrimary_skip (by rw [h]; decide) (not_is_of_kind h (by decide) _),
    if_pos h, Cursor.advance_cons (by rw [h]; decide)]
  rfl

theorem accepts_word {l : Lexeme} {value : Literal} (h : l.kind = .name)
    (hword : Literal.ofWord? l.text = some value) :
    Accepts Operator.levels [l] (.literal value) 0 := by
  refine accepts_of_primary (not_is_of_kind h (by decide) _) ?_
  intro text rest depth fuel _ _ _ _
  rw [List.cons_append, parsePrimary_skip (by rw [h]; decide) (not_is_of_kind h (by decide) _),
    if_neg (by rw [h]; decide), if_pos h, hword, Cursor.advance_cons (by rw [h]; decide)]
  rfl

theorem accepts_path {root : Lexeme} {ls : List Lexeme} {steps : List Segment}
    (h : root.kind = .name) (hword : Literal.ofWord? root.text = none)
    (hsteps : SpellsSteps ls steps) :
    Accepts Operator.levels (root :: ls) (.path ⟨root.text, steps⟩) 0 := by
  refine accepts_of_primary (not_is_of_kind h (by decide) _) ?_
  intro text rest depth fuel hshort hrest _ _
  have hread := hsteps.accepted text (fun l hl => hshort l (List.mem_cons_of_mem _ hl)) hrest []
  rw [List.cons_append, parsePrimary_skip (by rw [h]; decide) (not_is_of_kind h (by decide) _),
    if_neg (by rw [h]; decide), if_pos h, hword]
  dsimp only
  rw [parsePathAt,
    if_pos (show (Cursor.mk (root :: (ls ++ rest)) depth).current.kind = .name from h),
    Cursor.advance_cons (by rw [h]; decide), hread]
  rfl

theorem Accepts.group {opening closing : Lexeme} {inner : List Lexeme} {e : Expr} {n : Nat}
    (hopening : opening.Is .punct "(") (ih : Accepts 0 inner e n)
    (hclosing : closing.Is .punct ")") :
    Accepts Operator.levels (opening :: (inner ++ [closing])) e (n + 1) := by
  refine accepts_of_primary (not_is_of_kind hopening.1 (by decide) _) ?_
  intro text rest depth fuel hshort _ hdepth hfuel
  have hends : Ends 0 (closing :: rest) := ends_cons hclosing (by decide) (by decide)
  rw [List.length_append, List.length_singleton] at hfuel
  have hread := ih text (closing :: rest) (depth + 1) fuel
    (fun l hl => hshort l (by simp [hl])) hends (by omega)
    (by simp only [Operator.levels]; omega)
  rw [List.cons_append, List.append_assoc, List.singleton_append,
    parsePrimary_skip (by rw [hopening.1]; decide) (not_is_of_kind hopening.1 (by decide) _),
    if_neg (by rw [hopening.1]; decide), if_neg (by rw [hopening.1]; decide),
    if_pos (Cursor.isAt_cons.2 hopening), Cursor.advance_cons (hopening.kind_ne_eof (by decide)),
    enter_of_le text opening (show depth + 1 ≤ maxNesting by omega), Outcome.ok_bind, hread,
    Outcome.ok_bind]
  dsimp only
  rw [if_pos (Cursor.isAt_cons.2 hclosing), Cursor.advance_cons (hclosing.kind_ne_eof (by decide))]
  rfl

theorem Accepts.not {sign : Lexeme} {operand : List Lexeme} {e : Expr} {n : Nat}
    (hsign : sign.Is .operator "!") (ih : Accepts Operator.levels operand e n) :
    Accepts Operator.levels (sign :: operand) (.not e) (n + 1) := by
  intro text rest depth fuel hshort hrest hdepth hfuel
  rw [List.length_cons] at hfuel
  obtain ⟨fuel, rfl⟩ : ∃ k, fuel = k + 2 := ⟨fuel - 2, by omega⟩
  have hread := ih text rest (depth + 1) (fuel + 1)
    (fun l hl => hshort l (List.mem_cons_of_mem _ hl)) hrest (by omega) (by omega)
  rw [parseBinary_levels] at hread
  rw [parseBinary_levels, parseUnary, List.cons_append, if_pos (Cursor.isAt_cons.2 hsign),
    Cursor.advance_cons (hsign.kind_ne_eof (by decide)), Cursor.current_cons,
    enter_of_le text sign (show depth + 1 ≤ maxNesting by omega), Outcome.ok_bind, hread]
  rfl

/-- The terms of a chain are read one after another. -/
theorem parseChain_terms {level : Nat} {terms : List Term} {rest : List Lexeme} {depth : Nat}
    {text : String} (hlevel : level < Operator.levels)
    (hsigns : ∀ t ∈ terms, t.sign.Is .operator t.op.symbol ∧ t.op.level = level)
    (ih : ∀ t ∈ terms, Accepts (level + 1) t.lexemes t.operand t.nesting)
    (hshort : ∀ t ∈ terms, ∀ l ∈ t.lexemes, l.Short)
    (hrest : Ends level rest) (hdepth : ∀ t ∈ terms, depth + t.nesting ≤ maxNesting)
    (left : Expr) {fuel : Nat}
    (hfuel : 10 * (terms.flatMap Term.spelling).length + 1 ≤ fuel) :
    parseChain text fuel level left ⟨terms.flatMap Term.spelling ++ rest, depth⟩ =
      .ok (chain left terms, ⟨rest, depth⟩) := by
  induction terms generalizing left fuel with
  | nil =>
    obtain ⟨fuel, rfl⟩ : ∃ k, fuel = k + 1 := ⟨fuel - 1, by omega⟩
    rw [parseChain, List.flatMap_nil, List.nil_append, operatorAt?_of_ends hrest]
    rfl
  | cons t terms ihTerms =>
    rw [List.flatMap_cons, Term.spelling, List.cons_append, List.length_cons,
      List.length_append] at hfuel
    obtain ⟨fuel, rfl⟩ : ∃ k, fuel = k + 1 := ⟨fuel - 1, by omega⟩
    have hsign := hsigns t List.mem_cons_self
    have hsigns' : ∀ t ∈ terms, t.sign.Is .operator t.op.symbol ∧ t.op.level = level :=
      fun t ht => hsigns t (List.mem_cons_of_mem _ ht)
    have hoperand := ih t List.mem_cons_self text (terms.flatMap Term.spelling ++ rest) depth fuel
      (hshort t List.mem_cons_self) (ends_terms hsigns' hrest) (hdepth t List.mem_cons_self)
      (by simp only [Operator.levels] at hlevel ⊢; omega)
    rw [parseChain, List.flatMap_cons, Term.spelling, List.cons_append, List.cons_append,
      List.append_assoc, operatorAt?_cons.2 hsign,
      Cursor.advance_cons (hsign.1.kind_ne_eof (by decide))]
    dsimp only
    rw [hoperand, Outcome.ok_bind]
    exact ihTerms hsigns' (fun t ht => ih t (List.mem_cons_of_mem _ ht))
      (fun t ht => hshort t (List.mem_cons_of_mem _ ht))
      (fun t ht => hdepth t (List.mem_cons_of_mem _ ht)) _ (by omega)

theorem Accepts.chain {level : Nat} {first : List Lexeme} {left : Expr} {n : Nat}
    {terms : List Term} (hlevel : level < Operator.levels) (hne : first ≠ [])
    (hsigns : ∀ t ∈ terms, t.sign.Is .operator t.op.symbol ∧ t.op.level = level)
    (ihFirst : Accepts (level + 1) first left n)
    (ihTerms : ∀ t ∈ terms, Accepts (level + 1) t.lexemes t.operand t.nesting) :
    Accepts level (first ++ terms.flatMap Term.spelling) (chain left terms)
      (chainNesting n terms) := by
  intro text rest depth fuel hshort hrest hdepth hfuel
  have hlength : 0 < first.length := List.length_pos_iff.2 hne
  obtain ⟨hn, hnesting⟩ := @le_chainNesting n terms
  rw [List.length_append] at hfuel
  obtain ⟨fuel, rfl⟩ : ∃ k, fuel = k + 1 := ⟨fuel - 1, by omega⟩
  have hread := ihFirst text (terms.flatMap Term.spelling ++ rest) depth fuel
    (fun l hl => hshort l (List.mem_append_left _ hl)) (ends_terms hsigns hrest) (by omega)
    (by omega)
  rw [parseBinary, if_neg (by omega), List.append_assoc, hread, Outcome.ok_bind]
  refine parseChain_terms hlevel hsigns ihTerms (fun t ht l hl => hshort l ?_) hrest
    (fun t ht => ?_) left (by omega)
  · exact List.mem_append_right _
      (List.mem_flatMap.2 ⟨t, ht, List.mem_cons_of_mem _ hl⟩)
  · have ht := hnesting t ht
    omega

theorem Spells.accepted {level n : Nat} {ls : List Lexeme} {e : Expr}
    (h : Spells level ls e n) : Accepts level ls e n := by
  induction h with
  | number hnumber => exact accepts_number hnumber
  | negative hminus hnumber => exact accepts_negative hminus hnumber
  | string hstring => exact accepts_string hstring
  | word hname hword => exact accepts_word hname hword
  | path hname hword hsteps => exact accepts_path hname hword hsteps
  | group hopening _ hclosing ih => exact ih.group hopening hclosing
  | not hsign _ ih => exact ih.not hsign
  | chain hlevel hfirst hsigns _ ihFirst ihTerms =>
    exact .chain hlevel hfirst.ne_nil hsigns ihFirst ihTerms

/-! ## Whole texts -/

theorem SpellsSteps.kind_ne_eof {ls : List Lexeme} {steps : List Segment}
    (h : SpellsSteps ls steps) : ∀ l ∈ ls, l.kind ≠ .eof := by
  induction h with
  | nil => simp
  | field hpoint hname _ ih =>
    refine List.forall_mem_cons.2 ⟨hpoint.kind_ne_eof (by decide), ?_⟩
    exact List.forall_mem_cons.2 ⟨by rw [hname]; decide, ih⟩
  | index hopening hnumber _ hclosing _ ih =>
    refine List.forall_mem_cons.2 ⟨hopening.kind_ne_eof (by decide), ?_⟩
    refine List.forall_mem_cons.2 ⟨by rw [hnumber]; decide, ?_⟩
    exact List.forall_mem_cons.2 ⟨hclosing.kind_ne_eof (by decide), ih⟩

/-- No end mark is part of an expression. -/
theorem Spells.kind_ne_eof {level n : Nat} {ls : List Lexeme} {e : Expr}
    (h : Spells level ls e n) : ∀ l ∈ ls, l.kind ≠ .eof := by
  induction h with
  | number hnumber => simp [hnumber]
  | negative hminus hnumber => simp [hminus.1, hnumber]
  | string hstring => simp [hstring]
  | word hname _ => simp [hname]
  | path hname _ hsteps =>
    exact List.forall_mem_cons.2 ⟨by rw [hname]; decide, hsteps.kind_ne_eof⟩
  | group hopening _ hclosing ih =>
    refine List.forall_mem_cons.2 ⟨hopening.kind_ne_eof (by decide), fun l hl => ?_⟩
    rcases List.mem_append.1 hl with hl | hl
    · exact ih l hl
    · obtain rfl := List.mem_singleton.1 hl
      exact hclosing.kind_ne_eof (by decide)
  | not hsign _ ih => exact List.forall_mem_cons.2 ⟨hsign.kind_ne_eof (by decide), ih⟩
  | chain _ _ hsigns _ ihFirst ihTerms =>
    intro l hl
    rcases List.mem_append.1 hl with hl | hl
    · exact ihFirst l hl
    · obtain ⟨t, ht, hl⟩ := List.mem_flatMap.1 hl
      rcases List.mem_cons.1 hl with rfl | hl
      · exact (hsigns t ht).1.kind_ne_eof (by decide)
      · exact ihTerms t ht l hl

/-- Where lexemes without an end mark stop before one, it is the end mark of the list. -/
theorem eq_of_append_stop {body ls rest : List Lexeme} {stop : Lexeme}
    (hbody : ∀ l ∈ body, l.kind ≠ .eof) (hstop : stop.kind = .eof)
    (hls : ∀ l ∈ ls, l.kind ≠ .eof) (hrest : ∀ l ∈ rest.head?, l.kind = .eof)
    (heq : body ++ [stop] = ls ++ rest) : body = ls := by
  rcases List.append_eq_append_iff.1 heq with ⟨middle, rfl, hmiddle⟩ | ⟨middle, rfl, hmiddle⟩
  · cases middle with
    | nil => exact (List.append_nil body).symm
    | cons l middle =>
      obtain ⟨rfl, -⟩ := List.cons.inj hmiddle
      exact absurd hstop (hls stop (by simp))
  · cases middle with
    | nil => exact List.append_nil ls
    | cons l middle =>
      rw [hmiddle] at hrest
      exact absurd (hrest l rfl) (hbody l (by simp))

/-- The end mark is no numeral. -/
theorem short_concat {body : List Lexeme} {stop : Lexeme} (hstop : stop.kind = .eof)
    (hshort : ∀ l ∈ body, l.Short) : ∀ l ∈ body ++ [stop], l.Short := by
  intro l hl
  rcases List.mem_append.1 hl with hl | hl
  · exact hshort l hl
  · obtain rfl := List.mem_singleton.1 hl
    intro hnumber
    exact absurd (hstop.symm.trans hnumber) (by decide)

theorem Cursor.kind_of_mem_head? {c : Cursor} (h : c.current.kind = .eof) :
    ∀ l ∈ c.rest.head?, l.kind = .eof := by
  obtain ⟨rest, depth⟩ := c
  intro l hl
  cases rest with
  | nil => cases hl
  | cons m rest =>
    obtain rfl : m = l := by simpa using hl
    exact h

theorem parseLexemes_yields (text : String) {body : List Lexeme} {stop : Lexeme}
    (hstop : stop.kind = .eof) (hbody : ∀ l ∈ body, l.kind ≠ .eof)
    (hshort : ∀ l ∈ body, l.Short) :
    Yields (fun e => ∃ n, Spells 0 body e n ∧ n ≤ maxNesting)
      (parseLexemes text (body ++ [stop])) := by
  have hready : Ready ⟨body ++ [stop], 0⟩ := ⟨Nat.zero_le _, short_concat hstop hshort⟩
  dsimp only [parseLexemes]
  split
  · exact yields_problemAt _ _ _ _
  · refine ((readsAt text _).binary 0 _ (Nat.zero_le _) hready).bind ?_
    rintro ⟨e, c⟩ ⟨ls, n, hrest, -, hspells, hn⟩
    dsimp only
    split
    · next hend =>
      have hrest : body ++ [stop] = ls ++ c.rest := hrest
      obtain rfl := eq_of_append_stop hbody hstop hspells.kind_ne_eof (Cursor.kind_of_mem_head? hend)
        hrest
      exact ⟨n, hspells, by omega⟩
    · exact yields_problemAt _ _ _ _

/-- Before the end mark everything may end. -/
theorem ends_stop {level : Nat} {stop : Lexeme} (h : stop.kind = .eof) : Ends level [stop] := by
  intro l hl
  obtain rfl : stop = l := by simpa using hl
  have hkind : ∀ kind s, kind ≠ .eof → ¬ stop.Is kind s :=
    fun kind s hkind hl => hkind (hl.1.symm.trans h)
  exact ⟨hkind _ _ (by decide), hkind _ _ (by decide),
    fun op hl => absurd hl (hkind _ _ (by decide))⟩

theorem parseLexemes_of_spells (text : String) {body : List Lexeme} {stop : Lexeme} {e : Expr}
    {n : Nat} (hstop : stop.kind = .eof) (hshort : ∀ l ∈ body, l.Short)
    (h : Spells 0 body e n) (hn : n ≤ maxNesting) :
    parseLexemes text (body ++ [stop]) = .ok e := by
  have hread := h.accepted text [stop] 0 (fuelFor (body ++ [stop])) hshort (ends_stop hstop)
    (by omega)
    (by simp only [fuelFor, List.length_append, List.length_singleton, Operator.levels]; omega)
  have hstart : (Cursor.mk (body ++ [stop]) 0).current.kind ≠ .eof := by
    have heof := h.kind_ne_eof
    cases body with
    | nil => exact absurd rfl h.ne_nil
    | cons l body => exact heof l List.mem_cons_self
  dsimp only [parseLexemes]
  rw [if_neg hstart, hread, Outcome.ok_bind]
  exact if_pos hstop

/-- A text of one lexeme is the operand that the lexeme spells. -/
theorem parse_of_lexeme {text : String} {l stop : Lexeme} {e : Expr}
    (hlexemes : lexemesOf text = .ok [l, stop]) (hstop : stop.kind = .eof) (hshort : l.Short)
    (h : Spells Operator.levels [l] e 0) : parse text = .ok e := by
  rw [parse, hlexemes]
  exact @parseLexemes_of_spells text [l] stop e 0 hstop
    (fun m hm => List.mem_singleton.mp hm ▸ hshort) h.of_operand (Nat.zero_le _)

/-- A text whose numerals can be read is an expression exactly when its lexemes spell one that
nests no deeper than the limit, and otherwise there is a problem in it.  What they spell is
determined. -/
theorem parse_eq_ok_iff_spells {text : String}
    (h : Text.DigitRunsWithin Text.numeralLimit text.toList) :
    (∀ e, parse text = .ok e ↔ ∃ lexemes stop n,
      Lexeme.scan text = .ok (lexemes ++ [stop]) ∧ Spells 0 lexemes e n ∧ n ≤ maxNesting) ∧
    (∀ lexemes e e' n n', Spells 0 lexemes e n → Spells 0 lexemes e' n' → e = e' ∧ n = n') ∧
    (∀ f, parse text = .error f → ∃ m, f = .malformed m) := by
  refine ⟨?_, fun _ _ _ _ _ hspells hspells' => hspells.unique hspells', ?_⟩
  · intro e
    cases hscan : Lexeme.scan text with
    | error m => simp [parse, lexemesOf, hscan, Outcome.error_bind]
    | ok lexemes =>
      obtain ⟨body, stop, rfl, hstop, hfound⟩ := Lexeme.scan_eq_ok hscan
      have hparse : parse text = parseLexemes text (body ++ [stop]) := by
        rw [parse, lexemesOf, hscan]
        rfl
      have hshort : ∀ l ∈ body, l.Short := fun l hl => (hfound l hl).short h
      have hyields := parseLexemes_yields text hstop (fun l hl => (hfound l hl).kind_ne_eof) hshort
      rw [hparse]
      constructor
      · intro he
        obtain ⟨n, hspells, hn⟩ := hyields.of_eq_ok he
        exact ⟨body, stop, n, rfl, hspells, hn⟩
      · rintro ⟨body', stop', n, heq, hspells, hn⟩
        obtain ⟨rfl, -⟩ := List.append_inj' (Except.ok.inj heq) rfl
        exact parseLexemes_of_spells text hstop hshort hspells hn
  · intro f hf
    cases hscan : Lexeme.scan text with
    | error m =>
      rw [parse, lexemesOf, hscan] at hf
      cases hf
      exact ⟨m, rfl⟩
    | ok lexemes =>
      obtain ⟨body, stop, rfl, hstop, hfound⟩ := Lexeme.scan_eq_ok hscan
      rw [parse, lexemesOf, hscan] at hf
      exact (parseLexemes_yields text hstop (fun l hl => (hfound l hl).kind_ne_eof)
        fun l hl => (hfound l hl).short h).malformed hf

theorem parse_negated_difference :
    Text.DigitRunsWithin Text.numeralLimit "!(a - -3)".toList ∧
      ∃ lexemes stop n, Lexeme.scan "!(a - -3)" = .ok (lexemes ++ [stop]) ∧
        Spells 0 lexemes (.not (.binary (.compute .sub) (.path ⟨"a", []⟩) (.literal (.int (-3)))))
          n ∧ n ≤ maxNesting := by
  have hscan : Lexeme.scan "!(a - -3)" =
      .ok [⟨.operator, "!", 0⟩, ⟨.punct, "(", 1⟩, ⟨.name, "a", 2⟩, ⟨.operator, "-", 4⟩,
        ⟨.operator, "-", 6⟩, ⟨.number, "3", 7⟩, ⟨.punct, ")", 8⟩, ⟨.eof, "", 9⟩] := rfl
  have hparse : parse "!(a - -3)" =
      .ok (.not (.binary (.compute .sub) (.path ⟨"a", []⟩) (.literal (.int (-3))))) := by
    rw [parse, lexemesOf, hscan]
    rfl
  exact ⟨.of_length (by decide),
    ((parse_eq_ok_iff_spells (.of_length (by decide))).1 _).1 hparse⟩

end Expr
end Quill
