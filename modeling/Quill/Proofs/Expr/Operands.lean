import Quill.Proofs.Expr.Shapes
import Quill.Proofs.Template.Numerals

/-!
Expressions that are one literal or one path.

Where no parenthesis stands in a text, its expression is a literal or a path exactly when the lexemes
are those of a single operand, and a path is read alone as it is read as an expression.  In a text
without white space the lexemes are all there is.
-/

namespace Quill

open Text

/-! ## Operands -/

namespace Expr

theorem exists_binary_of_chain (first : Expr) {terms : List Term} (h : terms ≠ []) :
    ∃ op left right, chain first terms = .binary op left right := by
  rw [← List.dropLast_concat_getLast h, chain, List.foldl_append]
  exact ⟨_, _, _, rfl⟩

/-- What is not an operation is spelled as an operand. -/
theorem Spells.operand {level n : Nat} {ls : List Lexeme} {e : Expr} (h : Spells level ls e n)
    (he : ∀ op left right, e ≠ .binary op left right) : Spells Operator.levels ls e n := by
  induction h with
  | number hnumber => exact .number hnumber
  | negative hminus hnumber => exact .negative hminus hnumber
  | string hstring => exact .string hstring
  | word hname hword => exact .word hname hword
  | path hname hword hsteps => exact .path hname hword hsteps
  | group hopening hinner hclosing => exact .group hopening hinner hclosing
  | not hsign hoperand => exact .not hsign hoperand
  | @chain _ first left n terms _ _ _ _ ih _ =>
    by_cases hterms : terms = []
    · subst hterms
      rw [List.flatMap_nil, List.append_nil]
      exact ih he
    · obtain ⟨op, l, r, hchain⟩ := exists_binary_of_chain left hterms
      exact absurd hchain (he op l r)

inductive SpellsPath : List Lexeme → Path → Prop
  | intro {root : Lexeme} {rest : List Lexeme} {steps : List Segment} : root.kind = .name →
      Literal.ofWord? root.text = none → SpellsSteps rest steps →
      SpellsPath (root :: rest) ⟨root.text, steps⟩

theorem SpellsPath.spells {ls : List Lexeme} {p : Path} (h : SpellsPath ls p) :
    Spells Operator.levels ls (.path p) 0 := by
  cases h with
  | intro hname hword hsteps => exact .path hname hword hsteps

theorem Spells.path_of_operand {ls : List Lexeme} {p : Path} {n : Nat}
    (h : Spells Operator.levels ls (.path p) n) (hopen : ∀ l ∈ ls, ¬ l.Is .punct "(") :
    SpellsPath ls p := by
  generalize he : Expr.path p = e at h
  cases h with
  | path hname hword hsteps =>
    cases he
    exact .intro hname hword hsteps
  | group hopening _ _ => exact absurd hopening (hopen _ List.mem_cons_self)
  | chain hlevel _ _ _ => exact absurd hlevel (Nat.lt_irrefl _)
  | _ => cases he

inductive SpellsLiteral : List Lexeme → Literal → Prop
  | number {l : Lexeme} : l.kind = .number → SpellsLiteral [l] (.ofNumeral false l.text)
  | negative {minus l : Lexeme} : minus.Is .operator "-" → l.kind = .number →
      SpellsLiteral [minus, l] (.ofNumeral true l.text)
  | string {l : Lexeme} : l.kind = .string →
      SpellsLiteral [l] (.text (String.ofList (literalText l.text.toList)))
  | word {l : Lexeme} {value : Literal} : l.kind = .name → Literal.ofWord? l.text = some value →
      SpellsLiteral [l] value

theorem Spells.literal_of_operand {ls : List Lexeme} {value : Literal} {n : Nat}
    (h : Spells Operator.levels ls (.literal value) n) (hopen : ∀ l ∈ ls, ¬ l.Is .punct "(") :
    SpellsLiteral ls value := by
  generalize he : Expr.literal value = e at h
  cases h with
  | number hnumber =>
    cases he
    exact .number hnumber
  | negative hminus hnumber =>
    cases he
    exact .negative hminus hnumber
  | string hstring =>
    cases he
    exact .string hstring
  | word hname hword =>
    cases he
    exact .word hname hword
  | group hopening _ _ => exact absurd hopening (hopen _ List.mem_cons_self)
  | chain hlevel _ _ _ => exact absurd hlevel (Nat.lt_irrefl _)
  | _ => cases he

/-! ## Texts -/

section Texts

variable {text : String}

theorem text_isInfix_of_mem {lexemes : List Lexeme} {l : Lexeme}
    (h : lexemesOf text = .ok lexemes) (hl : l ∈ lexemes) : l.text.toList <:+: text.toList := by
  obtain ⟨place, -, hstands⟩ := Lexeme.standsAt_of_mem_scanFrom (lexemesOf_eq_ok_iff.mp h) hl
  exact hstands.isPrefix.isInfix.trans (List.drop_suffix place text.toList).isInfix

/-- A lexeme is no parenthesis where the text holds none. -/
theorem not_is_open_of_mem {lexemes : List Lexeme} {l : Lexeme} (hopen : '(' ∉ text.toList)
    (h : lexemesOf text = .ok lexemes) (hl : l ∈ lexemes) : ¬ l.Is .punct "(" := by
  rintro ⟨-, htext⟩
  have hpart := text_isInfix_of_mem h hl
  rw [htext] at hpart
  exact hopen (hpart.subset (by decide))

theorem shape_of_mem {lexemes : List Lexeme} {l : Lexeme} (h : lexemesOf text = .ok lexemes)
    (hl : l ∈ lexemes) (hkind : l.kind ≠ .eof) : Lexeme.Shape l.kind l.text.toList := by
  obtain ⟨place, -, hstands⟩ := Lexeme.standsAt_of_mem_scanFrom (lexemesOf_eq_ok_iff.mp h) hl
  exact (hstands.longest hkind).shape

/-- The last lexeme is the end mark. -/
theorem stop_of_lexemesOf {body : List Lexeme} {stop : Lexeme}
    (hlexemes : lexemesOf text = .ok (body ++ [stop])) :
    stop.kind = .eof ∧ ∀ l ∈ body, l.kind ≠ .eof := by
  have hscan := lexemesOf_eq_ok_iff.mp hlexemes
  obtain ⟨body', stop', heq, hstop, hbody⟩ := Lexeme.scanFrom_eq_ok hscan
  obtain ⟨rfl, hlast⟩ := List.append_inj' heq rfl
  obtain rfl := List.singleton_inj.mp hlast
  exact ⟨hstop, fun l hl => (hbody l hl).kind_ne_eof⟩

theorem short_of_mem (h : DigitRunsWithin numeralLimit text.toList) {body : List Lexeme}
    {stop : Lexeme} (hlexemes : lexemesOf text = .ok (body ++ [stop])) : ∀ l ∈ body, l.Short := by
  obtain ⟨body', stop', heq, -, -, hshort⟩ := short_of_lexemesOf h hlexemes
  obtain ⟨rfl, -⟩ := List.append_inj' heq rfl
  exact hshort

theorem spells_of_parse (h : DigitRunsWithin numeralLimit text.toList) {e : Expr}
    (he : parse text = .ok e) :
    ∃ body stop n, lexemesOf text = .ok (body ++ [stop]) ∧ Spells 0 body e n := by
  obtain ⟨lexemes, hlexemes, he⟩ := Outcome.bind_eq_ok.mp he
  obtain ⟨body, stop, rfl, hstop, hbody, hshort⟩ := short_of_lexemesOf h hlexemes
  obtain ⟨n, hspells, -⟩ := (parseLexemes_yields text hstop hbody hshort).of_eq_ok he
  exact ⟨body, stop, n, hlexemes, hspells⟩

theorem parse_of_spells {body : List Lexeme} {stop : Lexeme} {e : Expr}
    (hlexemes : lexemesOf text = .ok (body ++ [stop])) (hshort : ∀ l ∈ body, l.Short)
    (hspells : Spells Operator.levels body e 0) : parse text = .ok e := by
  obtain ⟨hstop, -⟩ := stop_of_lexemesOf hlexemes
  rw [parse, hlexemes]
  exact parseLexemes_of_spells text hstop hshort hspells.of_operand (Nat.zero_le _)

/-- The lexemes of a text that is a literal and holds no parenthesis. -/
theorem spellsLiteral_of_parse (h : DigitRunsWithin numeralLimit text.toList)
    (hopen : '(' ∉ text.toList) {value : Literal} (he : parse text = .ok (.literal value)) :
    ∃ body stop, lexemesOf text = .ok (body ++ [stop]) ∧ SpellsLiteral body value := by
  obtain ⟨body, stop, n, hlexemes, hspells⟩ := spells_of_parse h he
  refine ⟨body, stop, hlexemes, (hspells.operand (by simp)).literal_of_operand fun l hl => ?_⟩
  exact not_is_open_of_mem hopen hlexemes (List.mem_append_left _ hl)

/-! ## Paths alone -/

theorem parsePathAt_name {root : Lexeme} (ls : List Lexeme) (hname : root.kind = .name) :
    parsePathAt text ⟨root :: ls, 0⟩ =
      (parseSteps text [] ls).map fun r => (⟨root.text, r.1⟩, ⟨r.2, 0⟩) := by
  rw [parsePathAt, if_pos (show (Cursor.mk (root :: ls) 0).current.kind = .name from hname),
    Cursor.advance_cons (by rw [hname]; decide)]
  cases parseSteps text [] ls <;> rfl

theorem pathParse_of_spells {body : List Lexeme} {stop : Lexeme} {p : Path}
    (hlexemes : lexemesOf text = .ok (body ++ [stop])) (hshort : ∀ l ∈ body, l.Short)
    (hspells : SpellsPath body p) : Path.parse text = .ok p := by
  obtain ⟨hstop, -⟩ := stop_of_lexemesOf hlexemes
  cases hspells with
  | @intro root rest steps hname hword hsteps =>
    have hroot : ¬ (root.kind ≠ .name ∨ (Literal.ofWord? root.text).isSome) := by
      simp [hname, hword]
    have hread := hsteps.accepted text (fun l hl => hshort l (List.mem_cons_of_mem _ hl))
      (ends_stop hstop : Ends 0 [stop]) []
    rw [Path.parse, hlexemes, Outcome.ok_bind, List.cons_append]
    dsimp only
    rw [Cursor.current_cons, if_neg hroot, parsePathAt_name _ hname, hread]
    exact if_pos hstop

/-- The steps that are read are spelled by the lexemes that they take, and their indexes are short
enough to be read. -/
theorem parseSteps_eq_ok {before steps : List Segment} {ls rest : List Lexeme}
    (h : parseSteps text before ls = .ok (steps, rest)) :
    ∃ consumed more, ls = consumed ++ rest ∧ steps = before ++ more ∧
      SpellsSteps consumed more ∧ ∀ l ∈ consumed, l.Short := by
  have of_kind : ∀ {l : Lexeme}, l.kind ≠ .number → l.Short := fun hl hnumber => absurd hnumber hl
  fun_induction parseSteps text before ls with
  | case1 before =>
    cases h
    exact ⟨[], [], rfl, by simp, .nil, by simp⟩
  | case3 before l hpoint name rest' hname ih =>
    obtain ⟨consumed, more, rfl, rfl, hspells, hshort⟩ := ih h
    refine ⟨l :: name :: consumed, _, rfl, by simp, .field hpoint hname hspells, ?_⟩
    simp only [List.forall_mem_cons]
    exact ⟨of_kind (by simp [hpoint.1]), of_kind (by simp [hname]), hshort⟩
  | case9 before l _ hopening number hnumber hpoint closing rest' hclosing ih =>
    have hpoint : '.' ∉ number.text.toList := by simpa using hpoint
    have hnumber : number.kind = .number := by simpa using hnumber
    obtain ⟨i, hi, h⟩ := Outcome.bind_eq_ok.mp h
    rw [readWhole] at hi
    split at hi
    · cases hi
    next hle =>
    cases hi
    obtain ⟨consumed, more, rfl, rfl, hspells, hshort⟩ := ih _ h
    refine ⟨l :: number :: closing :: consumed, _, rfl, by simp,
      .index hopening hnumber hpoint hclosing hspells, ?_⟩
    simp only [List.forall_mem_cons]
    exact ⟨of_kind (by simp [hopening.1]), fun _ _ => Nat.not_lt.mp hle,
      of_kind (by simp [hclosing.1]), hshort⟩
  | case11 before l rest' _ _ =>
    cases h
    exact ⟨[], [], rfl, by simp, .nil, by simp⟩
  | _ => cases h

/-- The lexemes of a path.  Whatever else the text holds, the indexes are short enough to be read. -/
theorem spellsPath_of_pathParse {p : Path} (hp : Path.parse text = .ok p) :
    ∃ body stop, lexemesOf text = .ok (body ++ [stop]) ∧ SpellsPath body p ∧
      ∀ l ∈ body, l.Short := by
  obtain ⟨lexemes, hlexemes, hp⟩ := Outcome.bind_eq_ok.mp hp
  obtain ⟨body, stop, rfl, hstop, hbody⟩ :=
    Lexeme.scanFrom_eq_ok (lexemesOf_eq_ok_iff.mp hlexemes)
  refine ⟨body, stop, hlexemes, ?_⟩
  dsimp only at hp
  split at hp
  · cases hp
  next hroot =>
  obtain ⟨hname, hword⟩ := not_or.mp hroot
  cases body with
  | nil => exact absurd (hstop.symm.trans (not_not.mp hname)) (by decide)
  | cons root rest =>
    have hname : root.kind = .name := not_not.mp hname
    have hword : Literal.ofWord? root.text = none := Option.not_isSome_iff_eq_none.mp hword
    rw [List.cons_append, parsePathAt_name _ hname] at hp
    cases hsteps : parseSteps text [] (rest ++ [stop]) with
    | error f =>
      rw [hsteps] at hp
      cases hp
    | ok r =>
      obtain ⟨steps, behind⟩ := r
      obtain ⟨consumed, steps', hsplit, rfl, hspells, hshort⟩ := parseSteps_eq_ok hsteps
      rw [hsteps] at hp
      change (if (Cursor.mk behind 0).current.kind = .eof then _ else _) = _ at hp
      split at hp
      next hend =>
        cases hp
        have hrest : ∀ l ∈ rest, l.kind ≠ .eof :=
          fun l hl => (hbody l (List.mem_cons_of_mem root hl)).kind_ne_eof
        obtain rfl := eq_of_append_stop hrest hstop hspells.kind_ne_eof
          (Cursor.kind_of_mem_head? hend) hsplit
        refine ⟨.intro hname hword hspells, List.forall_mem_cons.mpr ⟨?_, hshort⟩⟩
        intro hnumber
        cases hname.symm.trans hnumber
      · cases hp

/-- A path that is read alone is the expression of the text. -/
theorem parse_of_pathParse {p : Path} (hp : Path.parse text = .ok p) :
    parse text = .ok (.path p) := by
  obtain ⟨body, stop, hlexemes, hspells, hshort⟩ := spellsPath_of_pathParse hp
  exact parse_of_spells hlexemes hshort hspells.spells

/-- Where no parenthesis stands, a path is read alone as it is read as an expression. -/
theorem pathParse_iff_parse (h : DigitRunsWithin numeralLimit text.toList)
    (hopen : '(' ∉ text.toList) {p : Path} :
    Path.parse text = .ok p ↔ parse text = .ok (.path p) := by
  refine ⟨parse_of_pathParse, fun he => ?_⟩
  obtain ⟨body, stop, n, hlexemes, hspells⟩ := spells_of_parse h he
  refine pathParse_of_spells hlexemes (short_of_mem h hlexemes)
    ((hspells.operand (by simp)).path_of_operand fun l hl => ?_)
  exact not_is_open_of_mem hopen hlexemes (List.mem_append_left _ hl)

end Texts

end Expr

/-! ## Numerals -/

namespace Lexeme

variable {digits : List Char}

theorem short_of_shape (h : Shape .number digits) (hwithin : DigitRunsWithin numeralLimit digits)
    (position : Nat) : (Lexeme.mk .number (String.ofList digits) position).Short := by
  intro _ hpoint
  rw [String.toList_ofList] at hpoint
  rw [String.length_ofList]
  cases h with
  | whole _ hdigits => exact hwithin digits (List.infix_refl _) (List.all_eq_true.mpr hdigits)
  | fraction _ _ _ _ => exact absurd (by simp) hpoint

/-- A minus sign before a numeral is a lexeme of its own. -/
theorem scan_negative (h : Shape .number digits) :
    scanFrom 0 0 ('-' :: digits) =
      .ok ([⟨.operator, "-", 0⟩, ⟨.number, String.ofList digits, 1⟩] ++
        [⟨.eof, "", 1 + digits.length⟩]) := by
  have hoperator : operatorLength? ('-' :: digits) = some 1 := by
    rw [operatorLength_cons]
    rfl
  rw [scanFrom, leading_of_sign (by decide), hoperator]
  show (scanFrom 0 1 digits >>= _) = _
  rw [h.scan 1]
  rfl

end Lexeme

/-! ## Texts without white space -/

theorem Lexeme.isBlank_of_leading {c : Char} {rest : List Char} {n : Nat}
    (h : leading? (c :: rest) = some (none, n)) : isBlank c = true := by
  cases begins_of_leading h with
  | blank hc => exact hc

/-- The lexemes of a text without white space make it up. -/
theorem Lexeme.flatMap_text_of_scanFrom {skip position : Nat} {cs : List Char}
    {lexemes : List Lexeme} (h : scanFrom skip position cs = .ok lexemes)
    (hblank : ∀ c ∈ cs, isBlank c = false) (hskip : skip ≤ cs.length) :
    lexemes.flatMap (fun l => l.text.toList) = cs.drop skip := by
  induction cs generalizing skip position lexemes with
  | nil =>
    have hstop : lexemes = [⟨.eof, "", position⟩] := by
      cases skip <;> simpa [scanFrom, eq_comm] using h
    rw [hstop, List.drop_nil]
    rfl
  | cons c rest ih =>
    have hrest : ∀ d ∈ rest, isBlank d = false := fun d hd => hblank d (List.mem_cons_of_mem c hd)
    cases skip with
    | succ skip => exact ih h hrest (Nat.le_of_succ_le_succ hskip)
    | zero =>
      rw [scanFrom] at h
      split at h
      · next n hleading =>
        have hc := isBlank_of_leading hleading
        exact absurd (hc.symm.trans (hblank c List.mem_cons_self)) (by decide)
      · next kind n hleading =>
        obtain ⟨others, hothers, heq⟩ := Outcome.bind_eq_ok.mp h
        cases heq
        have hmore := ih hothers hrest (Nat.le_of_succ_le_succ (leading_le hleading))
        rw [List.flatMap_cons, hmore, String.toList_ofList, List.take_succ_cons, List.cons_append,
          List.take_append_drop, List.drop_zero]
      · cases h

theorem Lexeme.StandsAt.text_of_eof {cs : List Char} {place : Nat} {l : Lexeme}
    (h : StandsAt cs place l) (hkind : l.kind = .eof) : l.text = "" := by
  cases h with
  | word hleading _ => exact absurd hkind (kind_ne_eof_of_leading hleading)
  | stop _ htext _ => exact htext

theorem Expr.flatMap_text_of_lexemesOf {text : String} {body : List Lexeme} {stop : Lexeme}
    (h : lexemesOf text = .ok (body ++ [stop])) (hstop : stop.kind = .eof)
    (hblank : ∀ c ∈ text.toList, isBlank c = false) :
    body.flatMap (fun l => l.text.toList) = text.toList := by
  have hscan := lexemesOf_eq_ok_iff.mp h
  have hwhole := Lexeme.flatMap_text_of_scanFrom hscan hblank (Nat.zero_le _)
  obtain ⟨place, -, hstands⟩ :=
    Lexeme.standsAt_of_mem_scanFrom hscan (List.mem_append_right body List.mem_cons_self)
  rwa [List.flatMap_append, List.flatMap_singleton, hstands.text_of_eof hstop, String.toList_empty,
    List.append_nil, List.drop_zero] at hwhole

end Quill
