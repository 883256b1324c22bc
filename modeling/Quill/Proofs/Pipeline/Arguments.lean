import Quill.Proofs.Expr.Operands
import Quill.Proofs.Pipeline.Literals

/-!
The arguments of a filter against expressions.

A list of arguments is cut into string literals and runs of other characters, with commas and white
space between them (`Divided`).  The pieces are read by rules of their own, which look at a piece as a
whole and know neither lexemes nor operators.  Still they give what the piece is as an expression,
where that is a literal or a path (`ReadAlike`): both kinds of numerals have one shape, a text without
white space is a literal or a path only through its own lexemes, and paths are read by the same
parser.  The one word on which they differ is `null`.
-/

namespace Quill

open Text

namespace Pipeline

/-! ## Pieces -/

def Separates (c : Char) : Prop := isBlank c = true ∨ c = ','

def Quoted (cs : List Char) : Prop :=
  ∃ quote body, (quote = '"' ∨ quote = '\'') ∧ Enclosed quote body ∧ cs = quote :: (body ++ [quote])

/-- A text and its pieces in order.  Between them lies nothing but separators, and a piece is a
string literal or, where none begins, everything up to the next separator. -/
inductive Divided : List Char → List (List Char) → Prop
  | nil : Divided [] []
  | separator {c : Char} {rest : List Char} {pieces : List (List Char)} : Separates c →
      Divided rest pieces → Divided (c :: rest) pieces
  | literal {lit rest : List Char} {pieces : List (List Char)} : Quoted lit →
      Divided rest pieces → Divided (lit ++ rest) (lit :: pieces)
  | bare {piece rest : List Char} {pieces : List (List Char)} : piece ≠ [] →
      (∀ c ∈ piece, ¬ Separates c) → (∀ c ∈ rest.head?, Separates c) →
      (∀ lit, Quoted lit → ¬ lit <+: piece ++ rest) → Divided rest pieces →
      Divided (piece ++ rest) (piece :: pieces)

theorem Quoted.ne_nil {lit : List Char} (h : Quoted lit) : lit ≠ [] := by
  obtain ⟨quote, body, -, -, rfl⟩ := h
  exact List.cons_ne_nil _ _

theorem Quoted.literalLength {lit : List Char} (h : Quoted lit) (rest : List Char) :
    literalLength? (lit ++ rest) = some lit.length := by
  obtain ⟨quote, body, hquote, hbody, rfl⟩ := h
  exact literalLength_eq_some_iff.mpr ⟨quote, body, rest, hquote, hbody, by simp, by simp⟩

theorem exists_quoted_of_literalLength {cs : List Char} {n : Nat} (h : literalLength? cs = some n) :
    ∃ lit rest, Quoted lit ∧ cs = lit ++ rest ∧ n = lit.length := by
  obtain ⟨quote, body, rest, hquote, hbody, rfl, rfl⟩ := literalLength_eq_some_iff.mp h
  exact ⟨quote :: (body ++ [quote]), rest, ⟨quote, body, hquote, hbody, rfl⟩, by simp, by simp⟩

theorem literalLength_eq_length_iff {cs : List Char} :
    literalLength? cs = some cs.length ↔ Quoted cs := by
  constructor
  · intro h
    obtain ⟨lit, rest, hlit, rfl, hlength⟩ := exists_quoted_of_literalLength h
    obtain rfl : rest = [] := by
      rw [List.length_append] at hlength
      exact List.eq_nil_of_length_eq_zero (by omega)
    rwa [List.append_nil]
  · intro h
    have hlength := h.literalLength []
    rwa [List.append_nil] at hlength

def isBare (c : Char) : Bool := !isBlank c && c != ','

theorem isBare_iff {c : Char} : isBare c = true ↔ ¬ Separates c := by
  simp [isBare, Separates]

/-- A text that begins with no separator begins with a piece. -/
theorem exists_bare {c : Char} (hc : ¬ Separates c) (rest : List Char) :
    ∃ piece behind, c :: rest = piece ++ behind ∧ piece ≠ [] ∧ (∀ d ∈ piece, ¬ Separates d) ∧
      ∀ d ∈ behind.head?, Separates d := by
  refine ⟨(c :: rest).takeWhile isBare, (c :: rest).dropWhile isBare,
    List.takeWhile_append_dropWhile.symm, ?_, fun d hd => isBare_iff.mp (of_mem_takeWhile hd), ?_⟩
  · rw [List.takeWhile_cons_of_pos (isBare_iff.mpr hc)]
    exact List.cons_ne_nil _ _
  · intro d hd
    rw [← not_not (a := Separates d), ← isBare_iff, head?_dropWhile hd]
    exact Bool.false_ne_true

/-- The induction is on the length of the text: each piece is followed by a shorter one. -/
theorem divided_matchedParts (cs : List Char) : Divided cs (matchedParts argumentLength? cs) := by
  induction hlength : cs.length using Nat.strongRecOn generalizing cs with
  | ind length ih =>
    subst hlength
    cases hliteral : literalLength? cs with
    | some n =>
      obtain ⟨lit, rest, hlit, rfl, rfl⟩ := exists_quoted_of_literalLength hliteral
      have hmatch : argumentLength? (lit ++ rest) = some lit.length := by
        rw [argumentLength?, hliteral]
      have hpos := List.length_pos_iff.mpr hlit.ne_nil
      rw [matchedParts_append hlit.ne_nil hmatch]
      exact .literal hlit (ih _ (by rw [List.length_append]; omega) rest rfl)
    | none =>
      have hmatch : argumentLength? cs = some (run isBare cs) := by
        rw [argumentLength?, hliteral]
        rfl
      cases cs with
      | nil => exact .nil
      | cons c rest =>
        by_cases hc : Separates c
        · have hnone : ∀ n, argumentLength? (c :: rest) ≠ some (n + 1) := by
            have hbare : ¬ isBare c = true := fun hbare => isBare_iff.mp hbare hc
            rw [hmatch, run, List.takeWhile_cons_of_neg hbare]
            rintro n ⟨⟩
          rw [matchedParts_cons hnone]
          exact .separator hc (ih _ (Nat.lt_succ_self _) rest rfl)
        · obtain ⟨piece, behind, hsplit, hne, hbare, hend⟩ := exists_bare hc rest
          have hstop : ∀ d, behind.head? = some d → isBare d = false := fun d hd =>
            Bool.eq_false_iff.mpr fun hd' => isBare_iff.mp hd' (hend d hd)
          rw [hsplit] at hliteral hmatch ih ⊢
          rw [run, takeWhile_append_of_all (fun d hd => isBare_iff.mpr (hbare d hd)) hstop] at hmatch
          have hnot : ∀ lit, Quoted lit → ¬ lit <+: piece ++ behind := by
            rintro lit hlit ⟨more, hmore⟩
            rw [← hmore, hlit.literalLength more] at hliteral
            cases hliteral
          have hpos := List.length_pos_iff.mpr hne
          rw [matchedParts_append hne hmatch]
          exact .bare hne hbare hend hnot (ih _ (by rw [List.length_append]; omega) behind rfl)

theorem divided_argumentPieces (text : String) : Divided text.toList (argumentPieces text) :=
  divided_matchedParts text.toList

theorem Divided.quoted_or_bare {cs : List Char} {pieces : List (List Char)}
    (h : Divided cs pieces) {piece : List Char} (hpiece : piece ∈ pieces) :
    Quoted piece ∨ ∀ c ∈ piece, ¬ Separates c := by
  induction h with
  | nil => cases hpiece
  | separator _ _ ih => exact ih hpiece
  | literal hlit _ ih =>
    rcases List.mem_cons.mp hpiece with rfl | hpiece
    · exact .inl hlit
    · exact ih hpiece
  | bare _ hbare _ _ _ ih =>
    rcases List.mem_cons.mp hpiece with rfl | hpiece
    · exact .inr hbare
    · exact ih hpiece

/-! ## Literals -/

/-- The texts of the literals that arguments and expressions have in common. -/
inductive LiteralText : List Char → Literal → Prop
  | string {lit : List Char} : Quoted lit →
      LiteralText lit (.text (String.ofList (literalText lit)))
  | true : LiteralText ['t', 'r', 'u', 'e'] (.bool true)
  | false : LiteralText ['f', 'a', 'l', 's', 'e'] (.bool false)
  | number {digits : List Char} : Lexeme.Shape .number digits →
      LiteralText digits (.ofNumeral false (String.ofList digits))
  | negative {digits : List Char} : Lexeme.Shape .number digits →
      LiteralText ('-' :: digits) (.ofNumeral true (String.ofList digits))

theorem Quoted.shape {lit : List Char} (h : Quoted lit) : Lexeme.Shape .string lit := by
  obtain ⟨quote, body, hquote, hbody, rfl⟩ := h
  exact .string hquote hbody

section Piece

variable {piece : List Char}

theorem isNumeral_iff : isNumeral piece = true ↔
    ∃ digits, Lexeme.Shape .number digits ∧ (piece = '-' :: digits ∨ piece = digits) := by
  unfold isNumeral
  split
  · next rest =>
    rw [← Lexeme.shape_number_iff]
    constructor
    · exact fun h => ⟨rest, h, .inl rfl⟩
    · rintro ⟨digits, h, heq | rfl⟩
      · cases heq
        exact h
      · have hminus : isDigit '-' = true := h.head_isDigit
        exact absurd hminus (by decide)
  · next hsign =>
    rw [← Lexeme.shape_number_iff]
    constructor
    · exact fun h => ⟨piece, h, .inr rfl⟩
    · rintro ⟨digits, h, heq | rfl⟩
      · exact absurd heq (hsign digits)
      · exact h

/-- A numeral begins neither like a string literal nor like a word. -/
theorem kind_of_isNumeral (h : isNumeral piece = true) {kind : Lexeme.Kind} {word : List Char}
    (hshape : Lexeme.Shape kind word) (hword : word <+: piece) : kind ≠ .string ∧ kind ≠ .name := by
  obtain ⟨digits, hdigits, rfl | rfl⟩ := isNumeral_iff.mp h
  · have hminus : Lexeme.Shape .operator ['-'] := .operator (by decide)
    rw [hshape.kind_eq hminus hword ⟨digits, rfl⟩]
    decide
  · rw [hshape.kind_eq hdigits hword (List.prefix_refl _)]
    decide

theorem readArgument_of_isNumeral (h : isNumeral piece = true) :
    readArgument piece = (do
      let negative := piece.head? == some '-'
      let n ← Expr.readNumber negative (String.ofList (if negative then piece.drop 1 else piece))
      return .literal n) := by
  have hquoted : ¬ literalLength? piece = some piece.length := by
    rw [literalLength_eq_length_iff]
    exact fun hlit => (kind_of_isNumeral h hlit.shape (List.prefix_refl _)).1 rfl
  have hword : ∀ {c : Char} {rest : List Char}, isNameStart c = true →
      (∀ d ∈ rest, isWord d = true) → String.ofList piece ≠ String.ofList (c :: rest) := by
    intro c rest hc hrest heq
    have hpiece := String.ofList_injective heq
    exact (kind_of_isNumeral h (.name hc hrest) (hpiece ▸ List.prefix_refl _)).2 rfl
  rw [readArgument, if_neg hquoted, if_neg, if_neg, if_pos h]
  · exact hword (by decide) (List.all_eq_true.mp (by decide))
  · exact hword (by decide) (List.all_eq_true.mp (by decide))

theorem readNumber_of_shape {digits : List Char} (h : Lexeme.Shape .number digits)
    (hwithin : DigitRunsWithin numeralLimit digits) (negative : Bool) :
    Expr.readNumber negative (String.ofList digits) =
      .ok (.ofNumeral negative (String.ofList digits)) :=
  Expr.readNumber_of_short rfl (Lexeme.short_of_shape h hwithin 0) negative

theorem readArgument_of_literalText (h : DigitRunsWithin numeralLimit piece) {l : Literal}
    (hl : LiteralText piece l) : readArgument piece = .ok (.literal l) := by
  cases hl with
  | string hlit => exact if_pos (literalLength_eq_length_iff.mpr hlit)
  | true => rfl
  | false => rfl
  | number hdigits =>
    have hhead : (piece.head? == some '-') = false := by
      have hdigit := hdigits.head_isDigit
      rw [beq_eq_false_iff_ne]
      intro hminus
      rw [hminus] at hdigit
      exact absurd hdigit (by decide)
    rw [readArgument_of_isNumeral (isNumeral_iff.mpr ⟨_, hdigits, .inr rfl⟩), hhead]
    show (Expr.readNumber false (String.ofList piece) >>= _) = _
    rw [readNumber_of_shape hdigits h]
    rfl
  | @negative digits hdigits =>
    have hwithin := h.of_infix (List.suffix_cons '-' digits).isInfix
    rw [readArgument_of_isNumeral (isNumeral_iff.mpr ⟨_, hdigits, .inl rfl⟩)]
    show (Expr.readNumber true (String.ofList digits) >>= _) = _
    rw [readNumber_of_shape hdigits hwithin]
    rfl

/-- What is no literal is looked up. -/
theorem readArgument_of_not_literalText (h : ∀ l, ¬ LiteralText piece l) {a : Argument}
    (ha : readArgument piece = .ok a) :
    (∃ p, Path.parse (String.ofList piece) = .ok p ∧ a = .lookup p (String.ofList piece)) ∨
    (∀ p, Path.parse (String.ofList piece) ≠ .ok p) ∧
      a = .lookup (.single (String.ofList piece)) (String.ofList piece) := by
  have hquoted : ¬ literalLength? piece = some piece.length := by
    rw [literalLength_eq_length_iff]
    exact fun hlit => h _ (.string hlit)
  have hword : ∀ {word : List Char} {l : Literal}, LiteralText word l →
      String.ofList piece ≠ String.ofList word := by
    intro word l hl heq
    exact h l (String.ofList_injective heq ▸ hl)
  have hnumeral : ¬ isNumeral piece = true := by
    intro hnumeral
    obtain ⟨digits, hdigits, rfl | rfl⟩ := isNumeral_iff.mp hnumeral
    · exact h _ (.negative hdigits)
    · exact h _ (.number hdigits)
  rw [readArgument, if_neg hquoted, if_neg (hword .true), if_neg (hword .false),
    if_neg hnumeral] at ha
  cases hpath : Path.parse (String.ofList piece) with
  | ok p =>
    rw [hpath] at ha
    cases ha
    exact .inl ⟨p, rfl, rfl⟩
  | error e =>
    rw [hpath] at ha
    cases e with
    | malformed m =>
      cases ha
      refine .inr ⟨?_, rfl⟩
      intro p hp
      cases hp
    | longNumeral digits => cases ha

theorem parse_of_literalText (h : DigitRunsWithin numeralLimit piece) {l : Literal}
    (hl : LiteralText piece l) : Expr.parse (String.ofList piece) = .ok (.literal l) := by
  cases hl with
  | string hlit =>
    obtain ⟨quote, body, hquote, hbody, rfl⟩ := hlit
    rw [literalText_enclosed hquote hbody]
    exact (readsAs_of_enclosed hquote hbody).parse
  | true => rfl
  | false => rfl
  | number hdigits =>
    have hlexemes : Expr.lexemesOf (String.ofList piece) = _ := Expr.lexemesOf_of_shape hdigits
    exact Expr.parse_of_lexeme hlexemes rfl (Lexeme.short_of_shape hdigits h 0) (.number rfl)
  | @negative digits hdigits =>
    have hlexemes : Expr.lexemesOf (String.ofList ('-' :: digits)) = _ :=
      Expr.lexemesOf_eq_ok_iff.mpr (by rw [String.toList_ofList, Lexeme.scan_negative hdigits])
    exact Expr.parse_of_spells hlexemes
      (Expr.short_of_mem (by rwa [String.toList_ofList]) hlexemes)
      (@Expr.Spells.negative ⟨.operator, "-", 0⟩ ⟨.number, String.ofList digits, 1⟩ ⟨rfl, rfl⟩ rfl)

/-- Of the literals without white space and parentheses only `null` is not one of them. -/
theorem literalText_of_parse (h : DigitRunsWithin numeralLimit piece)
    (hblank : ∀ c ∈ piece, isBlank c = false) (hopen : '(' ∉ piece)
    (hnull : String.ofList piece ≠ "null") {l : Literal}
    (hl : Expr.parse (String.ofList piece) = .ok (.literal l)) : LiteralText piece l := by
  obtain ⟨text, rfl⟩ : ∃ text : String, piece = text.toList :=
    ⟨String.ofList piece, String.toList_ofList.symm⟩
  rw [String.ofList_toList] at hnull hl
  obtain ⟨body, stop, hlexemes, hspells⟩ := Expr.spellsLiteral_of_parse h hopen hl
  obtain ⟨hstop, -⟩ := Expr.stop_of_lexemesOf hlexemes
  have htext := Expr.flatMap_text_of_lexemesOf hlexemes hstop hblank
  have hshape : ∀ m ∈ body, m.kind ≠ .eof → Lexeme.Shape m.kind m.text.toList :=
    fun m hm => Expr.shape_of_mem hlexemes (List.mem_append_left _ hm)
  cases hspells with
  | @number numeral hnumber =>
    obtain rfl : numeral.text = text := String.toList_inj.mp (by simpa using htext)
    have hdigits := hshape numeral List.mem_cons_self (by rw [hnumber]; decide)
    rw [hnumber] at hdigits
    simpa using LiteralText.number hdigits
  | @negative minus numeral hminus hnumber =>
    have hdigits := hshape numeral (.tail _ (.head _)) (by rw [hnumber]; decide)
    rw [hnumber] at hdigits
    rw [← htext]
    simpa [hminus.2] using LiteralText.negative hdigits
  | @string lit hstring =>
    obtain rfl : lit.text = text := String.toList_inj.mp (by simpa using htext)
    have hlit := hshape lit List.mem_cons_self (by rw [hstring]; decide)
    rw [hstring] at hlit
    generalize lit.text.toList = cs at hlit ⊢
    cases hlit with
    | string hquote hbody => exact .string ⟨_, _, hquote, hbody, rfl⟩
  | @word word _ hname hword =>
    obtain rfl : word.text = text := String.toList_inj.mp (by simpa using htext)
    rw [Literal.ofWord?, if_neg hnull] at hword
    split at hword
    · next htrue =>
      cases hword
      rw [htrue]
      exact .true
    split at hword
    · next hfalse =>
      cases hword
      rw [hfalse]
      exact .false
    · cases hword

/-! ## Arguments -/

/-- Whether an argument is what its piece is as an expression, where that is a literal or a path.
What is neither is the name of a variable. -/
structure ReadAlike (piece : List Char) (a : Argument) : Prop where
  literal : ∀ l, a = .literal l → Expr.parse (String.ofList piece) = .ok (.literal l)
  path : ∀ p, Path.parse (String.ofList piece) = .ok p →
    a = .lookup p (String.ofList piece) ∧ Expr.parse (String.ofList piece) = .ok (.path p)
  literal_of_parse : String.ofList piece ≠ "null" → '(' ∉ piece →
    ∀ l, Expr.parse (String.ofList piece) = .ok (.literal l) → a = .literal l
  path_of_parse : '(' ∉ piece →
    ∀ p, Expr.parse (String.ofList piece) = .ok (.path p) → a = .lookup p (String.ofList piece)
  name : (∀ l, a ≠ .literal l) → (∀ p, Path.parse (String.ofList piece) ≠ .ok p) →
    a = .lookup (.single (String.ofList piece)) (String.ofList piece)

/-- Literals of arguments are those of expressions. -/
theorem readAlike_of_literalText (h : DigitRunsWithin numeralLimit piece) {l : Literal}
    (hl : LiteralText piece l) : ReadAlike piece (.literal l) := by
  have hparse := parse_of_literalText h hl
  have hnot : ∀ p, Path.parse (String.ofList piece) ≠ .ok p := by
    intro p hp
    have hpath := Expr.parse_of_pathParse hp
    cases hparse.symm.trans hpath
  constructor
  case literal =>
    rintro _ ⟨⟩
    exact hparse
  case path => exact fun p hp => absurd hp (hnot p)
  case literal_of_parse =>
    intro _ _ l' hl'
    cases hparse.symm.trans hl'
    rfl
  case path_of_parse =>
    intro _ p hp
    cases hparse.symm.trans hp
  case name => exact fun hnone _ => absurd rfl (hnone l)

theorem readAlike_of_readArgument (h : DigitRunsWithin numeralLimit piece)
    (hpiece : Quoted piece ∨ ∀ c ∈ piece, ¬ Separates c) {a : Argument}
    (ha : readArgument piece = .ok a) : ReadAlike piece a := by
  by_cases hliteral : ∃ l, LiteralText piece l
  · obtain ⟨l, hl⟩ := hliteral
    obtain rfl := Except.ok.inj ((readArgument_of_literalText h hl).symm.trans ha)
    exact readAlike_of_literalText h hl
  have hnone : ∀ l, ¬ LiteralText piece l := fun l hl => hliteral ⟨l, hl⟩
  have hblank : ∀ c ∈ piece, isBlank c = false := by
    rcases hpiece with hquoted | hbare
    · exact absurd (.string hquoted) (hnone _)
    · exact fun c hc => Bool.eq_false_iff.mpr fun hblank => hbare c hc (.inl hblank)
  have hwithin : DigitRunsWithin numeralLimit (String.ofList piece).toList := by
    rwa [String.toList_ofList]
  have hlookup := readArgument_of_not_literalText hnone ha
  constructor
  case literal =>
    rintro l rfl
    rcases hlookup with ⟨p, -, ⟨⟩⟩ | ⟨-, ⟨⟩⟩
  case path =>
    intro p hp
    rcases hlookup with ⟨p', hp', rfl⟩ | ⟨hnot, -⟩
    · cases hp.symm.trans hp'
      exact ⟨rfl, Expr.parse_of_pathParse hp⟩
    · exact absurd hp (hnot p)
  case literal_of_parse =>
    exact fun hnull hopen l hl => absurd (literalText_of_parse h hblank hopen hnull hl) (hnone l)
  case path_of_parse =>
    intro hopen p hp
    have hpath := (Expr.pathParse_iff_parse hwithin (by rwa [String.toList_ofList])).mpr hp
    rcases hlookup with ⟨p', hp', rfl⟩ | ⟨hnot, -⟩
    · cases hpath.symm.trans hp'
      rfl
    · exact absurd hpath (hnot p)
  case name =>
    intro _ hnot
    rcases hlookup with ⟨p, hp, -⟩ | ⟨-, ha⟩
    · exact absurd hp (hnot p)
    · exact ha

end Piece

/-- A text of arguments is divided into its pieces, and it is refused only because of a numeral that
is too long.  Where there is none, each piece is read as what it is as an expression. -/
theorem readArguments_alike (text : String) :
    Divided text.toList (argumentPieces text) ∧
    (∀ e, readArguments text = .error e → ∃ digits, e = .longNumeral digits) ∧
    (DigitRunsWithin numeralLimit text.toList → ∃ arguments, readArguments text = .ok arguments ∧
      List.Forall₂ ReadAlike (argumentPieces text) arguments) := by
  refine ⟨divided_argumentPieces text, ?_, ?_⟩
  · exact Outcome.failsWith_mapM fun piece _ => readArgument_failsWith_long piece
  · intro h
    refine Outcome.exists_mapM_forall₂ fun piece hpiece => ?_
    have hwithin := h.of_infix (mem_argumentPieces_isInfix hpiece)
    have hkind := (divided_argumentPieces text).quoted_or_bare hpiece
    cases hread : readArgument piece with
    | ok a => exact ⟨a, rfl, readAlike_of_readArgument hwithin hkind hread⟩
    | error e =>
      -- Only a long numeral is refused, and there is none.
      obtain ⟨digits, rfl⟩ := readArgument_failsWith_long piece e hread
      exact absurd (readArgument_failsWith hwithin _ hread) id

/-- A numeral with a sign, a string literal with a path right behind it, a numeral with a point, a
text that is a difference as an expression, a quote that nothing closes, and `null`. -/
theorem readArguments_alike_mixed :
    DigitRunsWithin numeralLimit "-8, 'a, b'x.y[0] 1.5,en-GB \"c null".toList ∧
    readArguments "-8, 'a, b'x.y[0] 1.5,en-GB \"c null" = .ok
      [.literal (.int (-8)), .literal (.text "a, b"), .lookup ⟨"x", [.field "y", .index 0]⟩ "x.y[0]",
        .literal (.ofNumeral false "1.5"), .lookup ⟨"en-GB", []⟩ "en-GB", .lookup ⟨"\"c", []⟩ "\"c",
        .lookup ⟨"null", []⟩ "null"] ∧
    Divided "-8, 'a, b'x.y[0] 1.5,en-GB \"c null".toList
      (argumentPieces "-8, 'a, b'x.y[0] 1.5,en-GB \"c null") ∧
    ∃ arguments, readArguments "-8, 'a, b'x.y[0] 1.5,en-GB \"c null" = .ok arguments ∧
      List.Forall₂ ReadAlike (argumentPieces "-8, 'a, b'x.y[0] 1.5,en-GB \"c null") arguments := by
  have hwithin : DigitRunsWithin numeralLimit "-8, 'a, b'x.y[0] 1.5,en-GB \"c null".toList :=
    .of_length (by decide)
  obtain ⟨hdivided, -, halike⟩ := readArguments_alike "-8, 'a, b'x.y[0] 1.5,en-GB \"c null"
  exact ⟨hwithin, by decide +kernel, hdivided, halike hwithin⟩

end Pipeline
end Quill
