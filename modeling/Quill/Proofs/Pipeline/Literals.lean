import Quill.Proofs.Expr.Accepting
import Quill.Proofs.Expr.Shapes
import Quill.Proofs.Pipeline.Stages

/-!
String literals in expressions, arguments and pipelines.

Three scanners look for the end of a literal: that of expressions, that of arguments, and the
splitter of pipelines.  All of them find the same quote, and what stands before it is decoded in one
way, so a text that was written as a literal is read back wherever a literal can stand.
-/

namespace Quill

open Text

/-- Whether a text is a single string literal for everything that reads it, and which text it stands
for. -/
structure ReadsAs (lit value : String) : Prop where
  scan : Lexeme.scan lit = .ok [⟨.string, lit, 0⟩, ⟨.eof, "", lit.length⟩]
  parse : Expr.parse lit = .ok (.literal (.text value))
  readArguments : Pipeline.readArguments lit = .ok [.literal (.text value)]
  split : Pipeline.split lit = [lit]

namespace Pipeline

theorem argumentPieces_single {cs : List Char} (hne : cs ≠ [])
    (h : argumentLength? cs = some cs.length) : argumentPieces (String.ofList cs) = [cs] := by
  obtain ⟨c, rest, rfl⟩ := List.exists_cons_of_ne_nil hne
  have hspans : matchSpans argumentLength? (c :: rest) = [⟨0, rest.length + 1⟩] := by
    rw [matchSpans, matchesFrom_of_match h, Nat.zero_add, matchesFrom_length]
  rw [argumentPieces, String.toList_ofList, hspans, List.map_singleton, slice]
  exact congrArg (fun cs => [cs]) (List.take_of_length_le (Nat.le_refl _))

/-- A text that is passed as a whole is a pipeline without stages. -/
theorem split_of_passes {cs : List Char} (h : Passes cs 0 0) (htrim : trim cs = cs) :
    split (String.ofList cs) = [String.ofList cs] := by
  have hparts := h [] []
  rw [List.append_nil, List.append_nil] at hparts
  rw [split, String.toList_ofList, hparts, partsFrom, List.reverse_reverse, List.map_singleton,
    htrim]

end Pipeline

section Literal

variable {quote : Char} {body : List Char}

/-- A text between quotes. -/
theorem literalLength_enclosed (hquote : quote = '"' ∨ quote = '\'') (hbody : Enclosed quote body) :
    literalLength? (quote :: (body ++ [quote])) = some (quote :: (body ++ [quote])).length :=
  literalLength_eq_some_iff.mpr ⟨quote, body, [], hquote, hbody, rfl, by simp⟩

theorem literalText_enclosed (hquote : quote = '"' ∨ quote = '\'') (hbody : Enclosed quote body) :
    literalText (quote :: (body ++ [quote])) = unescape quote body :=
  literalText_of_enclosed hbody (by rcases hquote with rfl | rfl <;> decide)

theorem trim_enclosed (hquote : quote = '"' ∨ quote = '\'') :
    trim (quote :: (body ++ [quote])) = quote :: (body ++ [quote]) := by
  have hblank : isBlank quote = false := by rcases hquote with rfl | rfl <;> rfl
  have hstart : Flush (quote :: (body ++ [quote])) := by
    intro c hc
    obtain rfl := Option.some.inj hc
    exact hblank
  rw [trim, hstart.trimLeft, trimRight_eq_self_iff, List.reverse_cons, List.reverse_append]
  intro c hc
  obtain rfl := Option.some.inj hc
  exact hblank

/-- What stands between quotes is a literal for all who read it. -/
theorem readsAs_of_enclosed (hquote : quote = '"' ∨ quote = '\'') (hbody : Enclosed quote body) :
    ReadsAs (String.ofList (quote :: (body ++ [quote])))
      (String.ofList (unescape quote body)) := by
  have hlength := literalLength_enclosed hquote hbody
  have htext := literalText_enclosed hquote hbody
  have hscan := (Lexeme.Shape.string hquote hbody).scan 0
  have hlexemes := Expr.lexemesOf_of_shape (Lexeme.Shape.string hquote hbody)
  have hne : quote :: (body ++ [quote]) ≠ [] := List.cons_ne_nil _ _
  have htrim : trim (quote :: (body ++ [quote])) = _ := trim_enclosed hquote
  generalize quote :: (body ++ [quote]) = lit at hlength htext hscan hlexemes hne htrim
  refine ⟨?_, ?_, ?_, ?_⟩
  · rw [Lexeme.scan, String.toList_ofList, hscan, Nat.zero_add, String.length_ofList]
  · refine Expr.parse_of_lexeme hlexemes rfl (by intro hnumber; cases hnumber) ?_
    have hspells := @Expr.Spells.string ⟨.string, String.ofList lit, 0⟩ rfl
    rwa [String.toList_ofList, htext] at hspells
  · have hread : Pipeline.readArgument lit = .ok (.literal (.text (String.ofList (literalText lit)))) :=
      if_pos hlength
    have hargument : Pipeline.argumentLength? lit = some lit.length := by
      rw [Pipeline.argumentLength?, hlength]
    rw [Pipeline.readArguments, Pipeline.argumentPieces_single hne hargument, List.mapM_cons, hread,
      htext]
    rfl
  · have hpasses := Pipeline.passes_literal hlength 0
    rw [List.take_length] at hpasses
    exact Pipeline.split_of_passes hpasses htrim

theorem literalOf_eq (quote : Char) (cs : List Char) :
    literalOf quote cs = quote :: (cs.flatMap (literalChar quote) ++ [quote]) := rfl

/-- Reading undoes writing. -/
theorem readsAs_literalOf (hquote : quote = '"' ∨ quote = '\'') (s : String) :
    ReadsAs (String.ofList (literalOf quote s.toList)) s := by
  have hne : quote ≠ '\\' := by rcases hquote with rfl | rfl <;> decide
  have hbody : Enclosed quote (s.toList.flatMap (literalChar quote)) := enclosed_literalChar s.toList
  have htext := literalText_literalOf hne s.toList
  rw [literalOf_eq, literalText_of_enclosed hbody hne] at htext
  have hreads := readsAs_of_enclosed hquote hbody
  rwa [htext, String.ofList_toList] at hreads

end Literal

/-- A text written as a literal, each quote and each backslash behind a backslash, is one literal for
every reader and stands for that text.  And whatever the scanner takes for a literal, it stands for
what is left between the quotes when the backslashes before quotes and before backslashes are left
out in one pass, alone and wherever an expression holds it. -/
theorem literals_read_back :
    (∀ (s : String) (quote : Char), quote = '"' ∨ quote = '\'' →
      ReadsAs (String.ofList (literalOf quote s.toList)) s) ∧
    (∀ (text : String) (lexemes : List Lexeme) (l : Lexeme), Lexeme.scan text = .ok lexemes →
      l ∈ lexemes → l.kind = .string →
      ∃ quote body, (quote = '"' ∨ quote = '\'') ∧
        l.text = String.ofList (quote :: (body ++ [quote])) ∧
        ReadsAs l.text (String.ofList (unescape quote body)) ∧
        ∀ fuel c, c.current = l → Expr.parsePrimary text (fuel + 1) c =
          .ok (.literal (.text (String.ofList (unescape quote body))), c.advance)) := by
  refine ⟨fun s quote hquote => readsAs_literalOf hquote s, ?_⟩
  intro text lexemes l hscan hl hkind
  have hlexemes : Expr.lexemesOf text = .ok lexemes := by rw [Expr.lexemesOf, hscan]
  have hfrom := Expr.lexemesOf_eq_ok_iff.mp hlexemes
  obtain ⟨place, -, hstands⟩ := Lexeme.standsAt_of_mem_scanFrom hfrom hl
  have hshape := (hstands.longest (by rw [hkind]; decide)).shape
  rw [hkind] at hshape
  generalize hword : l.text.toList = word at hshape
  cases hshape with
  | @string quote body hquote hbody =>
    have htext : l.text = String.ofList (quote :: (body ++ [quote])) := by
      rw [← hword, String.ofList_toList]
    refine ⟨quote, body, hquote, htext, htext ▸ readsAs_of_enclosed hquote hbody, ?_⟩
    intro fuel c hc
    have hnumber : c.current.kind ≠ .number := by
      rw [hc, hkind]
      decide
    have hminus : c.isAt .operator "-" = false := by
      rw [Expr.Cursor.isAt, hc, hkind]
      rfl
    rw [Expr.parsePrimary]
    dsimp only
    rw [if_neg hnumber, if_neg (by rw [hminus]; exact Bool.false_ne_true), if_pos (hc ▸ hkind), hc,
      hword, literalText_enclosed hquote hbody]

/-- Both quotes, a bar, a comma and backslashes written as one literal, and a literal in an expression
that holds an escaped quote, a doubled backslash and a backslash that escapes nothing. -/
theorem literals_read_back_mixed :
    ReadsAs "\"\\\\\\\"'|,\"" "\\\"'|," ∧
    Lexeme.scan "a + 'it\\'s \\\\\\d'" = .ok [⟨.name, "a", 0⟩, ⟨.operator, "+", 2⟩,
      ⟨.string, "'it\\'s \\\\\\d'", 4⟩, ⟨.eof, "", 16⟩] ∧
    ∃ quote body, (quote = '"' ∨ quote = '\'') ∧
      "'it\\'s \\\\\\d'" = String.ofList (quote :: (body ++ [quote])) ∧
      ReadsAs "'it\\'s \\\\\\d'" (String.ofList (unescape quote body)) ∧
      ∀ fuel c, c.current = ⟨.string, "'it\\'s \\\\\\d'", 4⟩ →
        Expr.parsePrimary "a + 'it\\'s \\\\\\d'" (fuel + 1) c =
          .ok (.literal (.text (String.ofList (unescape quote body))), c.advance) := by
  have hscan : Lexeme.scan "a + 'it\\'s \\\\\\d'" = .ok [⟨.name, "a", 0⟩, ⟨.operator, "+", 2⟩,
      ⟨.string, "'it\\'s \\\\\\d'", 4⟩, ⟨.eof, "", 16⟩] := rfl
  exact ⟨literals_read_back.1 "\\\"'|," '"' (.inl rfl), hscan,
    literals_read_back.2 _ _ _ hscan (.tail _ (.tail _ (.head _))) rfl⟩

end Quill
