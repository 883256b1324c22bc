import Quill.Proofs.Expr.Positions
import Quill.Proofs.Pipeline.Stages
import Quill.Proofs.Template.Carried
import Quill.Proofs.Template.Prefixes

/-!
Where in a tag the position of a problem points.

Only problems of expressions have a position, and it is counted from the beginning of the expression
that the tag carries.  In an output tag that is the beginning of the tag as well, so the position is
the place in the tag of the character or the lexeme that the problem is about.  In a block tag that
place is further on, by the length of the heading.
-/

namespace Quill

open Text Outcome

/-! ## Stages -/

namespace Pipeline

/-- An argument list is refused only for a numeral that is too long to be read. -/
theorem readStage_failsWith_placeless (text : String) :
    FailsWith (fun f => ∀ e, f ≠ .expression (.malformed e)) (readStage text) := by
  rw [readStage]
  split
  · exact failsWith_error fun e h => by cases h
  split
  · exact failsWith_ok _
  · exact failsWith_ok _
  · next arguments _ =>
    refine FailsWith.bind (fun f hf => ?_) fun _ _ => failsWith_ok _
    have hlong := failsWith_mapM (l := argumentPieces (String.ofList arguments))
      fun piece _ => readArgument_failsWith_long piece
    cases hread : readArguments (String.ofList arguments) with
    | ok parsed =>
      rw [hread] at hf
      cases hf
    | error g =>
      rw [hread] at hf
      cases hf
      obtain ⟨digits, rfl⟩ := hlong g hread
      exact fun e h => by cases h
  · exact failsWith_error fun e h => by cases h

/-- A malformed expression in a pipeline is its subject. -/
theorem parse_of_read {source : String} {e : Expr.Malformed}
    (h : read source = .error (.expression (.malformed e))) :
    ∃ subject, (split source).head? = some subject ∧ subject ≠ "" ∧
      Expr.parse subject = .error (.malformed e) := by
  rcases read_cases source with hmissing | ⟨subject, stages, hsplit, hne, hread⟩
  · cases hmissing.symm.trans h
  · refine ⟨subject, by rw [hsplit]; rfl, hne, ?_⟩
    rcases bind_eq_error.mp (hread.symm.trans h) with hsubject | ⟨parsed, -, hstages⟩
    · obtain ⟨f, hf, heq⟩ := liftExpr_eq_error.mp hsubject
      cases heq
      exact hf
    · have hplaceless : FailsWith (fun f => ∀ e, f ≠ .expression (.malformed e)) (do
          let stages ← stages.mapM readStage
          return (⟨source, parsed, stages⟩ : Pipeline)) :=
        (failsWith_mapM fun stage _ => readStage_failsWith_placeless stage).bind
          fun _ _ => failsWith_ok _
      exact absurd rfl (hplaceless _ hstages e)

end Pipeline

namespace Template

/-! ## Refusals with a place -/

def Refuses (t : Token) (r : Refusal) : Prop :=
  ∀ p position, r = .problem p → p.position = some position →
    ∃ e heading, p = .expression e ∧ t.Carries heading e.text.toList ∧
      Expr.parse e.text = .error (.malformed e)

theorem refuses_of_position {t : Token} {p : Problem} (h : p.position = none) :
    Refuses t (.problem p) := by
  intro p' position hp hposition
  cases hp
  rw [h] at hposition
  cases hposition

variable {t : Token}

theorem readExpr_refuses {heading text : List Char} (h : t.Carries heading text) :
    FailsWith (Refuses t) (readExpr text) := by
  intro r hr p position hp hposition
  rw [readExpr] at hr
  cases hparse : Expr.parse (String.ofList text) with
  | ok e =>
    rw [hparse] at hr
    cases hr
  | error f =>
    rw [hparse] at hr
    cases hr
    cases f with
    | longNumeral digits => cases hp
    | malformed e =>
      cases hp
      obtain ⟨htext, -⟩ := Expr.reports_of_parse hparse
      rw [← htext] at hparse
      refine ⟨e, heading, rfl, ?_, hparse⟩
      rw [htext, String.toList_ofList]
      exact h

theorem refuseArguments_refuses (t : Token) : FailsWith (Refuses t) (refuseArguments t) := by
  rw [refuseArguments]
  split
  · exact failsWith_ok _
  · exact failsWith_error (refuses_of_position rfl)

theorem readCondition_refuses (ht : t.Tidy) (hkind : t.kind = .block)
    (hword : t.command = "if" ∨ t.command = "elif") :
    FailsWith (Refuses t) (readCondition t) := by
  rw [readCondition]
  split
  · exact failsWith_error (refuses_of_position rfl)
  · next hcondition =>
    have hflush : Flush t.contents.toList := flush_of_trim (ht.trim_block hkind)
    have hwords := Token.words_command hflush fun hnil => hcondition (List.isEmpty_iff.mpr hnil)
    obtain ⟨heading, hcarries⟩ := Token.carries_condition hkind hword hwords
    exact readExpr_refuses hcarries

theorem readLoop_refuses (ht : t.Tidy) (hkind : t.kind = .block) :
    FailsWith (Refuses t) (readLoop t) := by
  rw [readLoop]
  split
  · exact failsWith_error (refuses_of_position rfl)
  · next name sequence hparts =>
    obtain ⟨afterFor, afterName, hfor, hname, hwords, hin, -⟩ :=
      (Token.loopParts_eq_some_iff (ht.trim_block hkind)).mp hparts
    obtain ⟨heading, hcarries⟩ := Token.carries_loop hkind hfor hname hwords hin
    exact (readExpr_refuses hcarries).bind fun _ _ => failsWith_ok _

namespace Builder

variable (b : Builder)

theorem close_refuses (command : String) (t : Token) :
    FailsWith (Refuses t) (b.close command t) := by
  rw [close]
  refine (refuseArguments_refuses t).bind fun _ _ => ?_
  split
  · split
    · exact failsWith_ok _
    · exact failsWith_error (refuses_of_position rfl)
  · exact failsWith_error (refuses_of_position rfl)

theorem choiceToExtend_refuses (t : Token) : FailsWith (Refuses t) (b.choiceToExtend t) := by
  rw [choiceToExtend]
  split
  · split
    · exact failsWith_error (refuses_of_position rfl)
    · exact failsWith_ok _
  · exact failsWith_error (refuses_of_position rfl)

theorem block_refuses (ht : t.Tidy) (hkind : t.kind = .block) :
    FailsWith (Refuses t) (b.block t) := by
  by_cases hfor : t.command = "for"
  · rw [block_for hfor]
    exact (readLoop_refuses ht hkind).bind fun _ _ => failsWith_ok _
  by_cases hendfor : t.command = "endfor"
  · rw [block_endfor hendfor]
    exact b.close_refuses "for" t
  by_cases hif : t.command = "if"
  · rw [block_if hif]
    exact (readCondition_refuses ht hkind (.inl hif)).bind fun _ _ => failsWith_ok _
  by_cases helif : t.command = "elif"
  · rw [block_elif helif]
    refine (b.choiceToExtend_refuses t).bind fun _ _ => ?_
    exact (readCondition_refuses ht hkind (.inr helif)).bind fun _ _ => failsWith_ok _
  by_cases helse : t.command = "else"
  · rw [block_else helse]
    refine (refuseArguments_refuses t).bind fun _ _ => ?_
    exact (b.choiceToExtend_refuses t).bind fun _ _ => failsWith_ok _
  by_cases hendif : t.command = "endif"
  · rw [block_endif hendif]
    exact b.close_refuses "if" t
  simp only [block, hfor, hendfor, hif, helif, helse, hendif, if_false]
  split
  · exact failsWith_error (refuses_of_position rfl)
  · exact failsWith_error (refuses_of_position rfl)

theorem output_refuses (ht : t.Tidy) (hkind : t.kind = .output) :
    FailsWith (Refuses t) (b.output t) := by
  rw [output]
  split
  · exact failsWith_error (refuses_of_position rfl)
  · split
    · exact failsWith_ok _
    · next f hread =>
      refine failsWith_error ?_
      cases f with
      | subjectMissing source => exact refuses_of_position rfl
      | invalidStage text => exact refuses_of_position rfl
      | expression f =>
        intro p position hp hposition
        cases f with
        | longNumeral digits => cases hp
        | malformed e =>
          cases hp
          obtain ⟨subject, hsubject, hne, hparse⟩ := Pipeline.parse_of_read hread
          obtain ⟨rfl, -⟩ := Expr.reports_of_parse hparse
          exact ⟨e, [], rfl, Token.carries_output ht hkind hsubject hne, hparse⟩

/-- A step that fails with a problem is refused by its token. -/
theorem refuses_of_step (ht : t.Tidy) {p : Problem} {token : Token}
    (h : b.step t = .error (.malformed p token)) : token = t ∧ Refuses t (.problem p) := by
  have attached : ∀ {x : Except Refusal Builder}, FailsWith (Refuses t) x →
      attach t x = .error (.malformed p token) → Refuses t (.problem p) := by
    intro x hx hattach
    cases x with
    | ok b' => cases hattach
    | error r =>
      have hr := hx r rfl
      cases r with
      | longNumeral digits => cases hattach
      | problem p' =>
        cases hattach
        exact hr
  refine ⟨token_of_step_eq_error h, ?_⟩
  rw [step] at h
  split at h
  · cases h
  · next hkind => exact attached (b.output_refuses ht hkind) h
  · next hkind => exact attached (b.block_refuses ht hkind) h

end Builder

theorem refuses_of_parseTokens {tokens : List Token} (ht : ∀ t ∈ tokens, t.Tidy) {p : Problem}
    (h : parseTokens tokens = .error (.malformed p t)) : Refuses t (.problem p) := by
  rw [parseTokens] at h
  rcases bind_eq_error.mp h with hfold | ⟨b, -, hfinish⟩
  · obtain ⟨before, t', after, b, rfl, -, hstep⟩ := foldlM_eq_error hfold
    obtain ⟨rfl, hrefuses⟩ := b.refuses_of_step (ht t' (by simp)) hstep
    exact hrefuses
  · rw [Builder.finish] at hfinish
    split at hfinish
    · cases hfinish
    · cases hfinish
      exact refuses_of_position rfl

/-! ## Templates -/

/-- When a template is refused for a problem with a position, the tag carries a malformed
expression, and the character or the lexeme that the problem is about stands in the tag at that
position behind the heading of the expression.  An output tag has no heading, so there the position
is the place in the tag; every block tag has one of three characters or more.  Only the end of the
expression is reported without a character. -/
theorem compile_positions {g : Setting} {located : Bool} {name : Option String} {source : String}
    {p : Problem} {excerpt : Option Excerpt} {position : Nat}
    (h : compile g located name source = .error ⟨.malformed p t, excerpt⟩)
    (hposition : p.position = some position) :
    ∃ e heading reported, p = .expression e ∧ e.position = position ∧
      t.Carries heading e.text.toList ∧ e.Reports reported ∧
      (t.kind = .output → heading = []) ∧ (t.kind = .block → 3 ≤ heading.length) ∧
      reported <+: t.contents.toList.drop (heading.length + position) ∧
      (reported = [] → position = e.text.toList.length) := by
  have hparse : parseTokens (Token.tokens located source) = .error (.malformed p t) := by
    rw [compile] at h
    cases hparse : parseTokens (Token.tokens located source) with
    | ok nodes =>
      rw [hparse] at h
      cases h
    | error f =>
      rw [hparse] at h
      have hf : (reportCompile located name source f).failure = .malformed p t :=
        congrArg Report.failure (Except.error.inj h)
      cases f with
      | malformed p' t' => exact congrArg Except.error hf
      | longNumeral digits => cases hf
  obtain ⟨e, heading, rfl, hcarries, hmalformed⟩ :=
    refuses_of_parseTokens (fun _ => Token.tidy_of_mem_tokens) hparse p position rfl hposition
  obtain rfl : e.position = position := Option.some.inj hposition
  obtain ⟨-, reported, hreports⟩ := Expr.reports_of_parse hmalformed
  obtain ⟨houtput, hblock⟩ := hcarries.length_heading
  refine ⟨e, heading, reported, rfl, rfl, hcarries, hreports, houtput, hblock, ?_, ?_⟩
  · obtain ⟨behind, hcontents⟩ := hcarries.isPrefix
    have hexpr : e.text.toList.drop e.position <+:
        t.contents.toList.drop (heading.length + e.position) := by
      rw [← hcontents, List.append_assoc, ← List.drop_drop, List.drop_left, List.drop_append]
      exact List.prefix_append _ _
    exact hreports.isPrefix.trans hexpr
  · rintro rfl
    exact hreports.eq_length_of_empty

/-- The operand that is not expected stands five places behind the beginning of the tag, and two
behind that of the condition. -/
theorem compile_positions_if :
    ∃ p t, compile ⟨[], true, 1, 9⟩ false none "{% if a b %}x{% endif %}" =
        .error ⟨.malformed p t, none⟩ ∧ p.position = some 2 ∧ t.contents = "if a b" ∧
      ∃ e heading, p = .expression e ∧ t.Carries heading e.text.toList ∧ e.Reports ['b'] ∧
        heading.length = 3 ∧ ['b'] <+: t.contents.toList.drop (heading.length + 2) := by
  have htokens : Token.tokens false "{% if a b %}x{% endif %}" =
      [⟨.block, "if a b", 1, none⟩, ⟨.text, "x", 1, none⟩, ⟨.block, "endif", 1, none⟩] := rfl
  have hcompile : compile ⟨[], true, 1, 9⟩ false none "{% if a b %}x{% endif %}" =
      .error ⟨.malformed (.expression ⟨"a b", .unexpected "b", 2⟩) ⟨.block, "if a b", 1, none⟩,
        none⟩ := by
    rw [compile, htokens]
    rfl
  obtain ⟨e, heading, reported, he, -, hcarries, hreports, -, hblock, hplace, -⟩ :=
    compile_positions hcompile rfl
  cases he
  have hthree : heading.length = 3 := by
    have hlower := hblock rfl
    have hupper := hcarries.isPrefix.length_le
    have hexpr : "a b".toList.length = 3 := rfl
    have htag : "if a b".toList.length = 6 := rfl
    rw [List.length_append] at hupper
    dsimp only at hupper
    omega
  have hreported : reported = ['b'] := by
    cases hreports with
    | character hproblem => cases hproblem
    | lexeme _ _ _ hconcerns =>
      rw [hconcerns.2]
      rfl
  subst hreported
  exact ⟨_, _, hcompile, rfl, rfl, _, heading, rfl, hcarries, hreports, hthree, hplace⟩

end Template
end Quill
