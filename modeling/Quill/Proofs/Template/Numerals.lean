import Quill.Proofs.Expr.Accepting
import Quill.Proofs.Text.Spans
import Quill.Proofs.Text.Words
import Quill.Template.Parse

/-!
Templates without long numerals.  If no run of digits in a template is longer than the limit for
numerals, then no expression, argument or tag of the template is refused because of a numeral:
whatever is wrong with the template is a problem at one of its tokens.
-/

namespace Quill

open Outcome

/-! ## Stretches of a text -/

namespace Text

theorem DigitRunsWithin.of_infix {limit : Nat} {cs part : List Char}
    (h : DigitRunsWithin limit cs) (hpart : part <:+: cs) : DigitRunsWithin limit part :=
  fun run hrun hdigits => h run (hrun.trans hpart) hdigits

end Text

open Text

/-! ## Expressions and paths -/

namespace Expr

def Failure.IsMalformed : Failure → Prop
  | .malformed _ => True
  | .longNumeral _ => False

theorem Yields.failsWith {α : Type} {P : α → Prop} {x : Except Failure α} (h : Yields P x) :
    FailsWith Failure.IsMalformed x := by
  intro e he
  obtain ⟨m, rfl⟩ := h.malformed he
  exact True.intro

variable {text : String}

theorem short_of_lexemesOf (h : DigitRunsWithin numeralLimit text.toList) {lexemes : List Lexeme}
    (hlexemes : lexemesOf text = .ok lexemes) : ∃ body stop, lexemes = body ++ [stop] ∧
      stop.kind = .eof ∧ (∀ l ∈ body, l.kind ≠ .eof) ∧ (∀ l ∈ body, l.Short) := by
  rw [lexemesOf] at hlexemes
  cases hscan : Lexeme.scan text with
  | error e =>
    rw [hscan] at hlexemes
    cases hlexemes
  | ok found =>
    rw [hscan] at hlexemes
    cases hlexemes
    obtain ⟨body, stop, heq, hstop, hfound⟩ := Lexeme.scan_eq_ok hscan
    exact ⟨body, stop, heq, hstop, fun l hl => (hfound l hl).kind_ne_eof,
      fun l hl => (hfound l hl).short h⟩

theorem lexemesOf_failsWith (text : String) : FailsWith Failure.IsMalformed (lexemesOf text) := by
  rw [lexemesOf]
  cases Lexeme.scan text with
  | ok lexemes => exact failsWith_ok _
  | error e => exact failsWith_error True.intro

theorem parse_failsWith (h : DigitRunsWithin numeralLimit text.toList) :
    FailsWith Failure.IsMalformed (parse text) := by
  rw [parse]
  refine (lexemesOf_failsWith text).bind fun lexemes hlexemes => ?_
  obtain ⟨body, stop, rfl, hstop, hbody, hshort⟩ := short_of_lexemesOf h hlexemes
  exact (parseLexemes_yields text hstop hbody hshort).failsWith

theorem mem_rest_advance {c : Cursor} {l : Lexeme} (h : l ∈ c.advance.rest) : l ∈ c.rest := by
  obtain ⟨rest, depth⟩ := c
  cases rest with
  | nil => exact h
  | cons m rest =>
    rw [Cursor.advance] at h
    dsimp only at h
    split at h
    · exact h
    · exact List.mem_cons_of_mem m h

theorem pathParse_failsWith (h : DigitRunsWithin numeralLimit text.toList) :
    FailsWith Failure.IsMalformed (Path.parse text) := by
  rw [Path.parse]
  refine (lexemesOf_failsWith text).bind fun lexemes hlexemes => ?_
  obtain ⟨body, stop, rfl, hstop, hbody, hshort⟩ := short_of_lexemesOf h hlexemes
  have problem : ∀ {α : Type} (p : Problem) (l : Lexeme),
      FailsWith Failure.IsMalformed (problemAt text p l : Except Failure α) :=
    fun p l => (yields_problemAt (fun _ => True) text p l).failsWith
  have hpath : FailsWith Failure.IsMalformed (parsePathAt text ⟨body ++ [stop], 0⟩) := by
    rw [parsePathAt]
    split
    · have hrest : ∀ l ∈ (Cursor.mk (body ++ [stop]) 0).advance.rest, l.Short :=
        fun l hl => short_concat hstop hshort l (mem_rest_advance hl)
      have hsteps := parseSteps_yields text hrest []
      exact hsteps.failsWith.bind fun _ _ => failsWith_ok _
    · exact problem _ _
  dsimp only
  split
  · exact problem _ _
  · refine hpath.bind ?_
    rintro ⟨p, c⟩ -
    dsimp only
    split
    · exact failsWith_ok _
    · exact problem _ _

end Expr

/-! ## Pipelines -/

namespace Pipeline

def Failure.IsMalformed : Failure → Prop
  | .expression f => f.IsMalformed
  | .subjectMissing _ => True
  | .invalidStage _ => True

theorem liftExpr_failsWith {α : Type} {x : Except Expr.Failure α}
    (h : FailsWith Expr.Failure.IsMalformed x) : FailsWith Failure.IsMalformed (liftExpr x) := by
  cases x with
  | ok a => exact failsWith_ok a
  | error e => exact failsWith_error (h e rfl)

/-- The parts between bars are stretches of the text. -/
theorem infix_of_mem_partsFrom {quote : Option Char} {depth : Nat} {part cs piece : List Char}
    (h : piece ∈ partsFrom quote depth part cs) : piece <:+: part.reverse ++ cs := by
  fun_induction partsFrom quote depth part cs with
  | case9 depth part c hquote hopen hclose hbar =>
    -- A bar at the end of the text leaves an empty part behind it.
    rcases List.mem_cons.mp h with rfl | h
    · exact (List.prefix_append _ _).isInfix
    · obtain rfl := List.mem_singleton.mp h
      exact List.nil_infix
  | case11 depth part c hquote hopen hclose hbar d others hdouble ih =>
    rcases List.mem_cons.mp h with rfl | h
    · exact (List.prefix_append _ _).isInfix
    · have hlater : piece <:+: d :: others := by simpa using ih h
      have hsuffix : d :: others <:+ part.reverse ++ c :: d :: others :=
        (List.suffix_cons c _).trans (List.suffix_append _ _)
      exact hlater.trans hsuffix.isInfix
  | _ => simp_all

theorem split_isInfix {text part : String} (h : part ∈ split text) :
    part.toList <:+: text.toList := by
  obtain ⟨piece, hpiece, rfl⟩ := List.mem_map.mp h
  have hpart := infix_of_mem_partsFrom hpiece
  rw [String.toList_ofList]
  exact (trim_isInfix piece).trans hpart

theorem mem_argumentPieces_isInfix {text : String} {piece : List Char}
    (h : piece ∈ argumentPieces text) : piece <:+: text.toList := by
  obtain ⟨s, -, rfl⟩ := List.mem_map.mp h
  exact slice_isInfix text.toList s

/-- A numeral without its sign is a numeral of an expression and nothing else. -/
theorem isNumeral_digits {piece : List Char} (h : isNumeral piece = true) :
    Lexeme.numberLength (if piece.head? = some '-' then piece.drop 1 else piece) =
      (if piece.head? = some '-' then piece.drop 1 else piece).length := by
  unfold isNumeral at h
  split at h
  · simpa using (Bool.and_eq_true_iff.mp h).2
  · next hsign =>
    have hhead : piece.head? ≠ some '-' := by
      intro hhead
      cases piece with
      | nil => cases hhead
      | cons c rest =>
        cases hhead
        exact hsign rest rfl
    rw [if_neg hhead]
    simpa using (Bool.and_eq_true_iff.mp h).2

theorem readNumber_failsWith {numeral : List Char} (negative : Bool)
    (h : DigitRunsWithin numeralLimit numeral)
    (hlength : Lexeme.numberLength numeral = numeral.length) :
    FailsWith Expr.Failure.IsMalformed (Expr.readNumber negative (String.ofList numeral)) := by
  rw [Expr.readNumber, String.toList_ofList]
  split
  · exact failsWith_ok _
  · next hpoint =>
    have hdigits : numeral.all isDigit = true := by
      have hall := @Lexeme.all_isDigit_of_numeral numeral
      rw [hlength, List.take_length] at hall
      exact hall (by simpa using hpoint)
    have hle : (String.ofList numeral).length ≤ numeralLimit := by
      rw [String.length_ofList]
      exact h numeral (List.infix_refl _) hdigits
    rw [Expr.readWhole, if_neg (by omega)]
    exact failsWith_ok _

theorem readArgument_failsWith {piece : List Char} (h : DigitRunsWithin numeralLimit piece) :
    FailsWith Expr.Failure.IsMalformed (readArgument piece) := by
  have hpath : FailsWith Expr.Failure.IsMalformed (Path.parse (String.ofList piece)) :=
    Expr.pathParse_failsWith (by rwa [String.toList_ofList])
  rw [readArgument]
  split
  · exact failsWith_ok _
  dsimp only
  split
  · exact failsWith_ok _
  split
  · exact failsWith_ok _
  split
  · next hnumeral =>
    have hlength := isNumeral_digits hnumeral
    have hwithin : DigitRunsWithin numeralLimit
        (if piece.head? = some '-' then piece.drop 1 else piece) := by
      split
      · exact h.of_infix (List.drop_suffix _ _).isInfix
      · exact h
    have hread := readNumber_failsWith (piece.head? == some '-') hwithin hlength
    refine FailsWith.bind ?_ fun n _ => failsWith_ok _
    simpa only [beq_iff_eq] using hread
  · cases hparse : Path.parse (String.ofList piece) with
    | ok p => exact failsWith_ok _
    | error e =>
      cases e with
      | malformed m => exact failsWith_ok _
      | longNumeral digits => exact absurd (hpath _ hparse) id

theorem readStage_failsWith {text : String} (h : DigitRunsWithin numeralLimit text.toList) :
    FailsWith Failure.IsMalformed (readStage text) := by
  rw [readStage]
  split
  · exact failsWith_error True.intro
  split
  · exact failsWith_ok _
  · exact failsWith_ok _
  · next arguments hrest =>
    have harguments : arguments <:+: text.toList := by
      have hsuffix := List.dropWhile_suffix (l := text.toList) isWord
      rw [hrest] at hsuffix
      exact ((List.suffix_cons ':' arguments).trans hsuffix).isInfix
    refine (liftExpr_failsWith (failsWith_mapM fun piece hpiece => ?_)).bind
      fun _ _ => failsWith_ok _
    have hpiece := mem_argumentPieces_isInfix hpiece
    rw [String.toList_ofList] at hpiece
    exact readArgument_failsWith (h.of_infix (hpiece.trans harguments))
  · exact failsWith_error True.intro

theorem read_failsWith {source : String} (h : DigitRunsWithin numeralLimit source.toList) :
    FailsWith Failure.IsMalformed (read source) := by
  have within : ∀ part ∈ split source, DigitRunsWithin numeralLimit part.toList :=
    fun part hpart => h.of_infix (split_isInfix hpart)
  rw [read]
  split
  · exact failsWith_error True.intro
  · next subject stages hsplit =>
    rw [hsplit] at within
    split
    · exact failsWith_error True.intro
    · have hsubject := Expr.parse_failsWith (within subject List.mem_cons_self)
      refine (liftExpr_failsWith hsubject).bind fun _ _ => ?_
      refine (failsWith_mapM fun stage hstage => ?_).bind fun _ _ => failsWith_ok _
      exact readStage_failsWith (within stage (List.mem_cons_of_mem subject hstage))

end Pipeline

/-! ## Tags -/

namespace Template

def Refusal.IsProblem : Refusal → Prop
  | .problem _ => True
  | .longNumeral _ => False

theorem readExpr_failsWith {text : List Char} (h : DigitRunsWithin numeralLimit text) :
    FailsWith Refusal.IsProblem (readExpr text) := by
  have hparse : FailsWith Expr.Failure.IsMalformed (Expr.parse (String.ofList text)) :=
    Expr.parse_failsWith (by rwa [String.toList_ofList])
  rw [readExpr]
  cases hresult : Expr.parse (String.ofList text) with
  | ok e => exact failsWith_ok e
  | error f =>
    cases f with
    | malformed m => exact failsWith_error True.intro
    | longNumeral digits => exact absurd (hparse _ hresult) id

theorem refuseArguments_failsWith (t : Token) :
    FailsWith Refusal.IsProblem (refuseArguments t) := by
  rw [refuseArguments]
  split
  · exact failsWith_ok ()
  · exact failsWith_error True.intro

section

variable {t : Token}

theorem readCondition_failsWith (h : DigitRunsWithin numeralLimit t.contents.toList) :
    FailsWith Refusal.IsProblem (readCondition t) := by
  rw [readCondition]
  split
  · exact failsWith_error True.intro
  · exact readExpr_failsWith (h.of_infix (afterFirstWord_isInfix _))

theorem afterWord_isInfix {word cs rest : List Char} (h : afterWord? word cs = some rest) :
    rest <:+: cs := by
  rw [afterWord?] at h
  split at h
  · dsimp only at h
    split at h
    · cases h
    · cases h
      exact ((List.dropWhile_suffix _).trans (List.drop_suffix _ _)).isInfix
  · cases h

theorem loopParts_isInfix {cs text : List Char} {name : String}
    (h : loopParts? cs = some (name, text)) : text <:+: cs := by
  rw [loopParts?] at h
  obtain ⟨afterFor, hfor, h⟩ := Option.bind_eq_some_iff.mp h
  dsimp only at h
  split at h
  · obtain ⟨sequence, hin, h⟩ := Option.bind_eq_some_iff.mp h
    split at h
    · cases h
    · cases h
      have hword := List.dropWhile_suffix (l := afterFor) isWord
      have hrest := (List.dropWhile_suffix isBlank).trans hword
      have hsequence := (afterWord_isInfix hin).trans hrest.isInfix
      exact ((trim_isInfix sequence).trans hsequence).trans (afterWord_isInfix hfor)
  · cases h

theorem readLoop_failsWith (h : DigitRunsWithin numeralLimit t.contents.toList) :
    FailsWith Refusal.IsProblem (readLoop t) := by
  rw [readLoop]
  split
  · exact failsWith_error True.intro
  · next name sequence hparts =>
    have hsequence := h.of_infix (loopParts_isInfix hparts)
    exact (readExpr_failsWith hsequence).bind fun _ _ => failsWith_ok _

namespace Builder

variable {b : Builder}

theorem close_failsWith (command : String) : FailsWith Refusal.IsProblem (b.close command t) := by
  rw [close]
  refine (refuseArguments_failsWith t).bind fun _ _ => ?_
  split
  · split
    · exact failsWith_ok _
    · exact failsWith_error True.intro
  · exact failsWith_error True.intro

theorem choiceToExtend_failsWith : FailsWith Refusal.IsProblem (b.choiceToExtend t) := by
  rw [choiceToExtend]
  split
  · split
    · exact failsWith_error True.intro
    · exact failsWith_ok _
  · exact failsWith_error True.intro

theorem block_failsWith (h : DigitRunsWithin numeralLimit t.contents.toList) :
    FailsWith Refusal.IsProblem (b.block t) := by
  rw [block]
  dsimp only
  split
  · exact (readLoop_failsWith h).bind fun _ _ => failsWith_ok _
  split
  · exact close_failsWith _
  split
  · exact (readCondition_failsWith h).bind fun _ _ => failsWith_ok _
  split
  · refine choiceToExtend_failsWith.bind fun _ _ => ?_
    exact (readCondition_failsWith h).bind fun _ _ => failsWith_ok _
  split
  · refine (refuseArguments_failsWith t).bind fun _ _ => ?_
    exact choiceToExtend_failsWith.bind fun _ _ => failsWith_ok _
  split
  · exact close_failsWith _
  split
  · exact failsWith_error True.intro
  · exact failsWith_error True.intro

theorem output_failsWith (h : DigitRunsWithin numeralLimit t.contents.toList) :
    FailsWith Refusal.IsProblem (b.output t) := by
  rw [output]
  split
  · exact failsWith_error True.intro
  · have hread := Pipeline.read_failsWith h
    cases hresult : Pipeline.read t.contents with
    | ok p => exact failsWith_ok _
    | error f =>
      have hf := hread f hresult
      cases f with
      | expression e =>
        cases e with
        | malformed m => exact failsWith_error True.intro
        | longNumeral digits => exact absurd hf id
      | subjectMissing source => exact failsWith_error True.intro
      | invalidStage text => exact failsWith_error True.intro

/-- Where no numeral of a token is too long, a step fails with a problem at the token. -/
theorem step_failsWith (h : DigitRunsWithin numeralLimit t.contents.toList) :
    FailsWith (fun f => ∃ problem, f = .malformed problem t) (b.step t) := by
  have attached : ∀ {x : Except Refusal Builder}, FailsWith Refusal.IsProblem x →
      FailsWith (fun f => ∃ problem, f = .malformed problem t) (attach t x) := by
    intro x hx
    cases x with
    | ok b' => exact failsWith_ok b'
    | error r =>
      cases r with
      | problem p => exact failsWith_error ⟨p, rfl⟩
      | longNumeral digits => exact absurd (hx _ rfl) id
  rw [step]
  split
  · exact failsWith_ok _
  · exact attached (output_failsWith h)
  · exact attached (block_failsWith h)

end Builder

end

end Template

end Quill
