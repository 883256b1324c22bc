import Quill.Proofs.Expr.Grammar
import Quill.Proofs.Expr.Lexemes

/-!
The parser of expressions against the grammar.

`readsAt` says that what the parser accepts is spelled by the lexemes that it consumes, within
the limit of nesting that is left, and that it fails with a problem in the text otherwise.
`Spells.accepted` says that it accepts whatever lexemes spell within that limit.  Both leave
the count of open groups and negations as it was.
-/

namespace Quill

theorem Lexeme.Is.kind_ne_eof {l : Lexeme} {kind : Lexeme.Kind} {text : String}
    (h : l.Is kind text) (hkind : kind ≠ .eof) : l.kind ≠ .eof :=
  h.1 ▸ hkind

theorem Operator.symbol_of_ofSymbol? {s : String} {op : Operator}
    (h : Operator.ofSymbol? s = some op) : op.symbol = s := by
  have hfound := List.find?_some h
  simpa using hfound

namespace Expr

/-! ## The cursor -/

namespace Cursor

theorem current_cons (l : Lexeme) (rest : List Lexeme) (depth : Nat) :
    (Cursor.mk (l :: rest) depth).current = l := rfl

theorem next_cons_cons (l m : Lexeme) (rest : List Lexeme) (depth : Nat) :
    (Cursor.mk (l :: m :: rest) depth).next = m := rfl

theorem advance_cons {l : Lexeme} {rest : List Lexeme} {depth : Nat} (h : l.kind ≠ .eof) :
    (Cursor.mk (l :: rest) depth).advance = ⟨rest, depth⟩ := by
  simp [advance, h]

theorem isAt_cons {l : Lexeme} {rest : List Lexeme} {depth : Nat} {kind : Lexeme.Kind}
    {text : String} : (Cursor.mk (l :: rest) depth).isAt kind text = true ↔ l.Is kind text := by
  simp [isAt, current_cons, Lexeme.Is]

theorem isAt_nil {depth : Nat} {kind : Lexeme.Kind} {text : String} (h : kind ≠ .eof) :
    (Cursor.mk [] depth).isAt kind text = false := by
  have hkind : (Lexeme.Kind.eof == kind) = false := by simpa using h.symm
  show (Lexeme.Kind.eof == kind && _) = false
  rw [hkind, Bool.false_and]

end Cursor

/-- An operator of the level stands at the cursor when its sign is the current lexeme. -/
theorem operatorAt?_cons {level : Nat} {l : Lexeme} {rest : List Lexeme} {depth : Nat}
    {op : Operator} :
    operatorAt? level ⟨l :: rest, depth⟩ = some op ↔
      l.Is .operator op.symbol ∧ op.level = level := by
  simp only [operatorAt?, Cursor.current_cons, Lexeme.Is]
  by_cases hkind : l.kind = .operator
  · simp only [hkind, if_true, true_and, Option.filter_eq_some_iff, beq_iff_eq]
    refine and_congr_left fun _ => ⟨fun h => (Operator.symbol_of_ofSymbol? h).symm, fun h => ?_⟩
    rw [h, Operator.ofSymbol?_symbol]
  · simp [hkind]

theorem operatorAt?_nil (level depth : Nat) : operatorAt? level ⟨[], depth⟩ = none := rfl

theorem operatorAt?_of_ends {level depth : Nat} {rest : List Lexeme} (h : Ends level rest) :
    operatorAt? level ⟨rest, depth⟩ = none := by
  cases rest with
  | nil => rfl
  | cons l rest =>
    cases hop : operatorAt? level ⟨l :: rest, depth⟩ with
    | none => rfl
    | some op =>
      obtain ⟨hsign, hlevel⟩ := operatorAt?_cons.1 hop
      exact absurd ((h l rfl).2.2 op hsign) (by omega)

/-! ## Results and problems -/

/-- Whether a computation gives a result with a property, or else a problem in the text: the
one failure that is left out is that of a numeral too long to be read. -/
def Yields {α : Type} (P : α → Prop) : Except Failure α → Prop
  | .ok a => P a
  | .error (.malformed _) => True
  | .error (.longNumeral _) => False

theorem Yields.bind {α β : Type} {P : α → Prop} {Q : β → Prop} {x : Except Failure α}
    {f : α → Except Failure β} (hx : Yields P x) (hf : ∀ a, P a → Yields Q (f a)) :
    Yields Q (x >>= f) := by
  cases x with
  | ok a => exact hf a hx
  | error e => cases e <;> exact hx

theorem Yields.mono {α : Type} {P Q : α → Prop} {x : Except Failure α} (hx : Yields P x)
    (h : ∀ a, P a → Q a) : Yields Q x := by
  cases x with
  | ok a => exact h a hx
  | error e => cases e <;> exact hx

theorem Yields.of_eq_ok {α : Type} {P : α → Prop} {x : Except Failure α} {a : α}
    (hx : Yields P x) (h : x = .ok a) : P a := by
  rw [h] at hx
  exact hx

theorem Yields.malformed {α : Type} {P : α → Prop} {x : Except Failure α} {e : Failure}
    (hx : Yields P x) (h : x = .error e) : ∃ m, e = .malformed m := by
  rw [h] at hx
  cases e with
  | malformed m => exact ⟨m, rfl⟩
  | longNumeral _ => exact hx.elim

theorem yields_problemAt {α : Type} (P : α → Prop) (text : String) (problem : Problem)
    (l : Lexeme) : Yields P (problemAt text problem l : Except Failure α) := True.intro

/-! ## Numerals, nesting and paths -/

theorem readNumber_of_short {l : Lexeme} (hnumber : l.kind = .number) (hshort : l.Short)
    (negative : Bool) : readNumber negative l.text = .ok (Literal.ofNumeral negative l.text) := by
  unfold readNumber Literal.ofNumeral
  by_cases hpoint : '.' ∈ l.text.toList
  · simp [hpoint]
  · have hlength := hshort hnumber hpoint
    have hwhole : readWhole l.text = .ok (Text.natOfDigits l.text.toList) := by
      rw [readWhole, if_neg (by omega)]
    simp only [List.contains_eq_mem, hpoint, decide_false, Bool.false_eq_true, if_false, hwhole]
    rfl

theorem readWhole_of_short {l : Lexeme} (hnumber : l.kind = .number) (hshort : l.Short)
    (hpoint : '.' ∉ l.text.toList) :
    readWhole l.text = .ok (Text.natOfDigits l.text.toList) := by
  have hlength := hshort hnumber hpoint
  rw [readWhole, if_neg (by omega)]

theorem enter_yields (text : String) (l : Lexeme) (c : Cursor) :
    Yields (fun inner => inner = ⟨c.rest, c.depth + 1⟩ ∧ c.depth + 1 ≤ maxNesting)
      (enter text l c) := by
  unfold enter
  split
  · exact yields_problemAt _ _ _ _
  · exact ⟨rfl, by omega⟩

theorem enter_of_le {c : Cursor} (text : String) (l : Lexeme) (h : c.depth + 1 ≤ maxNesting) :
    enter text l c = .ok ⟨c.rest, c.depth + 1⟩ := by
  rw [enter, if_neg (by omega)]

/-- Steps are read as far as they go. -/
theorem parseSteps_yields (text : String) {ls : List Lexeme} (hshort : ∀ l ∈ ls, l.Short)
    (before : List Segment) :
    Yields (fun r => ∃ consumed steps, ls = consumed ++ r.2 ∧ r.1 = before ++ steps ∧
      SpellsSteps consumed steps) (parseSteps text before ls) := by
  fun_induction parseSteps text before ls with
  | case1 before => exact ⟨[], [], rfl, by simp, .nil⟩
  | case2 => exact yields_problemAt _ _ _ _
  | case3 before l hpoint name rest hname ih =>
    refine (ih fun l hl => hshort l (by simp [hl])).mono ?_
    rintro ⟨steps', rest'⟩ ⟨consumed, steps, rfl, hsteps, hspells⟩
    exact ⟨_, _, rfl, by simpa using hsteps, .field hpoint hname hspells⟩
  | case4 => exact yields_problemAt _ _ _ _
  | case5 => exact yields_problemAt _ _ _ _
  | case6 => exact yields_problemAt _ _ _ _
  | case7 => exact yields_problemAt _ _ _ _
  | case8 => exact yields_problemAt _ _ _ _
  | case9 before l _ hopening number hnumber hpoint closing rest hclosing ih =>
    have hpoint : '.' ∉ number.text.toList := by simpa using hpoint
    have hnumber : number.kind = .number := by simpa using hnumber
    rw [readWhole_of_short hnumber (hshort number (by simp)) hpoint, Outcome.ok_bind]
    refine (ih _ fun l hl => hshort l (by simp [hl])).mono ?_
    rintro ⟨steps', rest'⟩ ⟨consumed, steps, rfl, hsteps, hspells⟩
    exact ⟨_, _, rfl, by simpa using hsteps, .index hopening hnumber hpoint hclosing hspells⟩
  | case10 => exact yields_problemAt _ _ _ _
  | case11 before l rest _ _ => exact ⟨[], [], rfl, by simp, .nil⟩

/-- Steps that are followed by no further step are read. -/
theorem SpellsSteps.accepted {ls : List Lexeme} {steps : List Segment} (h : SpellsSteps ls steps)
    (text : String) (hshort : ∀ l ∈ ls, l.Short) {level : Nat} {rest : List Lexeme}
    (hrest : Ends level rest) (before : List Segment) :
    parseSteps text before (ls ++ rest) = .ok (before ++ steps, rest) := by
  induction h generalizing before with
  | nil =>
    cases rest with
    | nil => simp [parseSteps]
    | cons l rest =>
      obtain ⟨hpoint, hbracket, -⟩ := hrest l rfl
      unfold parseSteps
      simp only [List.nil_append]
      rw [if_neg hpoint, if_neg hbracket, List.append_nil]
  | field hpoint hname _ ih =>
    unfold parseSteps
    simp only [List.cons_append]
    rw [if_pos hpoint, if_pos hname, ih (fun l hl => hshort l (by simp [hl])), List.append_assoc]
    rfl
  | @index opening number closing rest steps hopening hnumber hpoint hclosing _ ih =>
    have hbracket : ¬ opening.Is .punct "." :=
      fun h => absurd (hopening.2.symm.trans h.2) (by decide)
    unfold parseSteps
    simp only [List.cons_append]
    rw [if_neg hbracket, if_pos hopening, if_neg (fun h => h hnumber),
      if_neg (by simpa using hpoint), if_pos hclosing,
      readWhole_of_short hnumber (hshort _ (by simp)) hpoint, Outcome.ok_bind,
      ih (fun l hl => hshort l (by simp [hl])), List.append_assoc]
    rfl

/-! ## What is accepted is spelled -/

/-- Whether the parser may start at a cursor: the limit of nesting is kept so far, and no
numeral is too long to be read. -/
structure Ready (c : Cursor) : Prop where
  depth_le : c.depth ≤ maxNesting
  short : ∀ l ∈ c.rest, l.Short

theorem Ready.of_append {c c' : Cursor} {ls : List Lexeme} (h : Ready c)
    (hrest : c.rest = ls ++ c'.rest) (hdepth : c'.depth = c.depth) : Ready c' :=
  ⟨hdepth ▸ h.depth_le, fun l hl => h.short l (by rw [hrest]; exact List.mem_append_right ls hl)⟩

def Reads (level : Nat) (c : Cursor) (r : Expr × Cursor) : Prop :=
  ∃ ls n, c.rest = ls ++ r.2.rest ∧ r.2.depth = c.depth ∧ Spells level ls r.1 n ∧
    c.depth + n ≤ maxNesting

def Continues (level : Nat) (left : Expr) (c : Cursor) (r : Expr × Cursor) : Prop :=
  ∃ terms : List Term, c.rest = terms.flatMap Term.spelling ++ r.2.rest ∧
    r.2.depth = c.depth ∧ r.1 = chain left terms ∧
    (∀ t ∈ terms, t.sign.Is .operator t.op.symbol ∧ t.op.level = level) ∧
    (∀ t ∈ terms, Spells (level + 1) t.lexemes t.operand t.nesting) ∧
    ∀ t ∈ terms, c.depth + t.nesting ≤ maxNesting

theorem chainNesting_le {first bound : Nat} {terms : List Term} (hfirst : first ≤ bound)
    (hterms : ∀ t ∈ terms, t.nesting ≤ bound) : chainNesting first terms ≤ bound := by
  induction terms generalizing first with
  | nil => exact hfirst
  | cons t terms ih =>
    refine ih ?_ fun t' ht' => hterms t' (List.mem_cons_of_mem _ ht')
    exact Nat.max_le.2 ⟨hfirst, hterms t List.mem_cons_self⟩

theorem le_chainNesting {first : Nat} {terms : List Term} :
    first ≤ chainNesting first terms ∧ ∀ t ∈ terms, t.nesting ≤ chainNesting first terms := by
  induction terms generalizing first with
  | nil => exact ⟨Nat.le_refl _, by simp⟩
  | cons t terms ih =>
    obtain ⟨hfirst, hterms⟩ := @ih (max first t.nesting)
    have hmax : max first t.nesting ≤ chainNesting first (t :: terms) := hfirst
    refine ⟨by omega, fun t' ht' => ?_⟩
    rcases List.mem_cons.1 ht' with rfl | ht'
    · omega
    · exact hterms t' ht'

/-- A chain is what its first operand and its terms make. -/
theorem Reads.chain {level : Nat} {c c' : Cursor} {left : Expr} {r : Expr × Cursor}
    (hlevel : level < Operator.levels) (hleft : Reads (level + 1) c (left, c'))
    (hterms : Continues level left c' r) : Reads level c r := by
  obtain ⟨first, n, hfirst, hdepth, hspells, hn⟩ := hleft
  obtain ⟨terms, hrest, hdepth', hchain, hsigns, hoperands, hnesting⟩ := hterms
  refine ⟨first ++ terms.flatMap Term.spelling, chainNesting n terms, ?_, ?_, ?_, ?_⟩
  · rw [hfirst, hrest, List.append_assoc]
  · rw [hdepth', hdepth]
  · rw [hchain]
    exact .chain hlevel hspells hsigns hoperands
  · have hbound : chainNesting n terms ≤ maxNesting - c.depth :=
      chainNesting_le (by omega) fun t ht => by
        have ht := hnesting t ht
        have hsame : c'.depth = c.depth := hdepth
        omega
    omega

structure ReadsAt (text : String) (fuel : Nat) : Prop where
  binary : ∀ level c, level ≤ Operator.levels → Ready c →
    Yields (Reads level c) (parseBinary text fuel level c)
  chain : ∀ level left c, level < Operator.levels → Ready c →
    Yields (Continues level left c) (parseChain text fuel level left c)
  unary : ∀ c, Ready c → Yields (Reads Operator.levels c) (parseUnary text fuel c)
  primary : ∀ c, Ready c → Yields (Reads Operator.levels c) (parsePrimary text fuel c)

theorem parseBinary_reads {text : String} {fuel level : Nat} {c : Cursor}
    (ih : ReadsAt text fuel) (hlevel : level ≤ Operator.levels) (hc : Ready c) :
    Yields (Reads level c) (parseBinary text (fuel + 1) level c) := by
  rw [parseBinary]
  split
  · next h =>
    subst h
    exact ih.unary c hc
  · next h =>
    have hlt : level < Operator.levels := by omega
    refine (ih.binary (level + 1) c hlt hc).bind ?_
    rintro ⟨left, c'⟩ hleft
    have hleft' := hleft
    obtain ⟨ls, n, hrest, hdepth, -, -⟩ := hleft'
    exact (ih.chain level left c' hlt (hc.of_append hrest hdepth)).mono fun r hr =>
      Reads.chain hlt hleft hr

theorem parseChain_reads {text : String} {fuel level : Nat} {left : Expr} {c : Cursor}
    (ih : ReadsAt text fuel) (hlevel : level < Operator.levels) (hc : Ready c) :
    Yields (Continues level left c) (parseChain text (fuel + 1) level left c) := by
  rw [parseChain]
  split
  · exact ⟨[], rfl, rfl, rfl, by simp, by simp, by simp⟩
  · next op hop =>
    obtain ⟨rest, depth⟩ := c
    cases rest with
    | nil => rw [operatorAt?_nil] at hop; cases hop
    | cons sign rest =>
      obtain ⟨hsign, hopLevel⟩ := operatorAt?_cons.1 hop
      rw [Cursor.advance_cons (hsign.kind_ne_eof (by decide))]
      have happend : (⟨sign :: rest, depth⟩ : Cursor).rest =
          [sign] ++ (⟨rest, depth⟩ : Cursor).rest := rfl
      have hready : Ready ⟨rest, depth⟩ := hc.of_append happend rfl
      refine (ih.binary (level + 1) _ hlevel hready).bind ?_
      rintro ⟨right, c'⟩ ⟨ls, n, hrest, hdepth, hspells, hn⟩
      refine (ih.chain level _ c' hlevel (hready.of_append hrest hdepth)).mono ?_
      rintro r ⟨terms, hrest', hdepth', hchain, hsigns, hoperands, hnesting⟩
      have hrest : rest = ls ++ c'.rest := hrest
      have hdepth : c'.depth = depth := hdepth
      refine ⟨⟨sign, op, ls, right, n⟩ :: terms, ?_, ?_, hchain, ?_, ?_, ?_⟩
      · simp only [hrest, hrest', List.flatMap_cons, Term.spelling, List.cons_append,
          List.append_assoc]
      · rw [hdepth', hdepth]
      · exact List.forall_mem_cons.2 ⟨⟨hsign, hopLevel⟩, hsigns⟩
      · exact List.forall_mem_cons.2 ⟨hspells, hoperands⟩
      · rw [hdepth] at hnesting
        exact List.forall_mem_cons.2 ⟨hn, hnesting⟩

theorem parseUnary_reads {text : String} {fuel : Nat} {c : Cursor} (ih : ReadsAt text fuel)
    (hc : Ready c) : Yields (Reads Operator.levels c) (parseUnary text (fuel + 1) c) := by
  rw [parseUnary]
  obtain ⟨rest, depth⟩ := c
  split
  · next hat =>
    cases rest with
    | nil => rw [Cursor.isAt_nil (by decide)] at hat; cases hat
    | cons sign rest =>
      have hsign := Cursor.isAt_cons.1 hat
      rw [Cursor.advance_cons (hsign.kind_ne_eof (by decide))]
      refine (enter_yields text _ _).bind ?_
      rintro inner ⟨rfl, hdepth⟩
      have hready : Ready ⟨rest, depth + 1⟩ := ⟨hdepth, fun l hl => hc.short l (by simp [hl])⟩
      refine (ih.unary _ hready).bind ?_
      rintro ⟨operand, c'⟩ ⟨ls, n, hrest, hdepth', hspells, hn⟩
      have hrest : rest = ls ++ c'.rest := hrest
      have hdepth' : c'.depth = depth + 1 := hdepth'
      have hn : depth + 1 + n ≤ maxNesting := hn
      refine ⟨sign :: ls, n + 1, ?_, ?_, .not hsign hspells, ?_⟩
      · show sign :: rest = _
        rw [hrest]
        rfl
      · show c'.depth - 1 = depth
        omega
      · show depth + (n + 1) ≤ maxNesting
        omega
  · exact ih.primary _ hc

/-- An operand of one lexeme. -/
theorem reads_single {l : Lexeme} {rest : List Lexeme} {depth : Nat} {e : Expr}
    (hc : Ready ⟨l :: rest, depth⟩) (hl : l.kind ≠ .eof)
    (h : Spells Operator.levels [l] e 0) :
    Reads Operator.levels ⟨l :: rest, depth⟩ (e, (Cursor.mk (l :: rest) depth).advance) := by
  rw [Cursor.advance_cons hl]
  exact ⟨[l], 0, rfl, rfl, h, hc.depth_le⟩

/-- A name is a literal or begins a path. -/
theorem parseName_reads {text : String} {l : Lexeme} {rest : List Lexeme} {depth : Nat}
    (hc : Ready ⟨l :: rest, depth⟩) (hname : l.kind = .name) :
    Yields (Reads Operator.levels ⟨l :: rest, depth⟩)
      (match Literal.ofWord? l.text with
       | some word => .ok (.literal word, (Cursor.mk (l :: rest) depth).advance)
       | none => do
         let (p, c) ← parsePathAt text ⟨l :: rest, depth⟩
         return (.path p, c)) := by
  have hl : l.kind ≠ .eof := by rw [hname]; decide
  split
  · next value hword => exact reads_single hc hl (.word hname hword)
  · next hword =>
    rw [parsePathAt, if_pos (show (Cursor.mk (l :: rest) depth).current.kind = .name from hname),
      Cursor.advance_cons hl]
    have hshort : ∀ m ∈ rest, m.Short := fun m hm => hc.short m (by simp [hm])
    refine Yields.bind (P := fun r : Path × Cursor => Reads Operator.levels ⟨l :: rest, depth⟩
      (.path r.1, r.2)) ((parseSteps_yields text hshort []).bind ?_) fun (_, _) hr => hr
    rintro ⟨steps', rest'⟩ ⟨consumed, steps, hrest, hsteps, hspells⟩
    obtain rfl : steps' = steps := hsteps
    have hrest : rest = consumed ++ rest' := hrest
    refine ⟨l :: consumed, 0, ?_, rfl, .path hname hword hspells, hc.depth_le⟩
    show l :: rest = l :: consumed ++ rest'
    rw [hrest]
    rfl

/-- What stands between parentheses is an expression of its own. -/
theorem parseGroup_reads {text : String} {fuel : Nat} {l : Lexeme} {rest : List Lexeme}
    {depth : Nat} (ih : ReadsAt text fuel) (hc : Ready ⟨l :: rest, depth⟩)
    (hopening : l.Is .punct "(") :
    Yields (Reads Operator.levels ⟨l :: rest, depth⟩) (do
      let inner ← enter text l ⟨rest, depth⟩
      let (e, c) ← parseBinary text fuel 0 inner
      if c.isAt .punct ")" then return (e, leave c.advance)
      else problemAt text .closingParenthesisMissing c.current) := by
  refine (enter_yields text _ _).bind ?_
  rintro inner ⟨rfl, hdepth⟩
  have hready : Ready ⟨rest, depth + 1⟩ := ⟨hdepth, fun l hl => hc.short l (by simp [hl])⟩
  refine (ih.binary 0 _ (Nat.zero_le _) hready).bind ?_
  rintro ⟨e, ⟨rest', depth'⟩⟩ ⟨ls, n, hrest, hdepth', hspells, hn⟩
  have hrest : rest = ls ++ rest' := hrest
  have hdepth' : depth' = depth + 1 := hdepth'
  have hn : depth + 1 + n ≤ maxNesting := hn
  dsimp only
  split
  · next hat =>
    cases rest' with
    | nil => rw [Cursor.isAt_nil (by decide)] at hat; cases hat
    | cons closing rest' =>
      have hclosing := Cursor.isAt_cons.1 hat
      rw [Cursor.advance_cons (hclosing.kind_ne_eof (by decide))]
      refine ⟨l :: (ls ++ [closing]), n + 1, ?_, ?_, .group hopening hspells hclosing, ?_⟩
      · show l :: rest = l :: (ls ++ [closing]) ++ rest'
        rw [hrest]
        simp
      · show depth' - 1 = depth
        omega
      · show depth + (n + 1) ≤ maxNesting
        omega
  · exact yields_problemAt _ _ _ _

theorem parsePrimary_reads {text : String} {fuel : Nat} {c : Cursor} (ih : ReadsAt text fuel)
    (hc : Ready c) : Yields (Reads Operator.levels c) (parsePrimary text (fuel + 1) c) := by
  obtain ⟨rest, depth⟩ := c
  cases rest with
  | nil => exact yields_problemAt _ _ _ _
  | cons l rest =>
    dsimp only [parsePrimary]
    by_cases hnumber : (Cursor.mk (l :: rest) depth).current.kind = .number
    · rw [if_pos hnumber]
      have hnumber : l.kind = .number := hnumber
      rw [Cursor.current_cons, readNumber_of_short hnumber (hc.short l (by simp)),
        Outcome.ok_bind]
      exact reads_single hc (by rw [hnumber]; decide) (.number hnumber)
    rw [if_neg hnumber]
    by_cases hnegative : ((Cursor.mk (l :: rest) depth).isAt .operator "-" &&
        (Cursor.mk (l :: rest) depth).next.kind == .number) = true
    · rw [if_pos hnegative]
      obtain ⟨hat, hnext⟩ := Bool.and_eq_true_iff.1 hnegative
      have hminus := Cursor.isAt_cons.1 hat
      cases rest with
      | nil => exact absurd (hminus.1.symm.trans (beq_iff_eq.1 hnext)) (by decide)
      | cons m rest =>
        rw [Cursor.next_cons_cons] at hnext ⊢
        have hnumber : m.kind = .number := beq_iff_eq.1 hnext
        rw [readNumber_of_short hnumber (hc.short m (by simp)), Outcome.ok_bind,
          Cursor.advance_cons (hminus.kind_ne_eof (by decide)),
          Cursor.advance_cons (by rw [hnumber]; decide)]
        exact ⟨[l, m], 0, rfl, rfl, .negative hminus hnumber, hc.depth_le⟩
    rw [if_neg hnegative]
    by_cases hstring : (Cursor.mk (l :: rest) depth).current.kind = .string
    · rw [if_pos hstring]
      have hstring : l.kind = .string := hstring
      exact reads_single hc (by rw [hstring]; decide) (.string hstring)
    rw [if_neg hstring]
    by_cases hname : (Cursor.mk (l :: rest) depth).current.kind = .name
    · rw [if_pos hname]
      exact parseName_reads hc hname
    rw [if_neg hname]
    by_cases hat : (Cursor.mk (l :: rest) depth).isAt .punct "(" = true
    · rw [if_pos hat]
      have hopening := Cursor.isAt_cons.1 hat
      rw [Cursor.advance_cons (hopening.kind_ne_eof (by decide))]
      exact parseGroup_reads ih hc hopening
    rw [if_neg hat]
    split
    · exact yields_problemAt _ _ _ _
    · exact yields_problemAt _ _ _ _

theorem readsAt (text : String) (fuel : Nat) : ReadsAt text fuel := by
  induction fuel with
  | zero =>
    exact ⟨fun _ _ _ _ => yields_problemAt _ _ _ _, fun _ _ _ _ _ => yields_problemAt _ _ _ _,
      fun _ _ => yields_problemAt _ _ _ _, fun _ _ => yields_problemAt _ _ _ _⟩
  | succ fuel ih =>
    exact ⟨fun _ _ hlevel hc => parseBinary_reads ih hlevel hc,
      fun _ _ _ hlevel hc => parseChain_reads ih hlevel hc,
      fun _ hc => parseUnary_reads ih hc, fun _ hc => parsePrimary_reads ih hc⟩

end Expr
end Quill
