import Quill.Proofs.Template.Lexing
import Quill.Proofs.Template.Moves
import Quill.Proofs.Template.Numerals
import Quill.Template

/-!
The token that is blamed for a template that does not compile.

Tokens can be extended if some further tokens make a template of them.  The parser keeps to tokens
that can be extended: whatever is open can be closed, and where it stops nothing that follows could
help.  So a template is refused at the first token that cannot be extended together with the
tokens before it, or, if there is none, at the tag of the innermost block that is left open.
-/

namespace Quill

/-! ## Blocks that are open -/

namespace Token

def track (opened : List Token) (t : Token) : List Token :=
  if t.kind ≠ .block then opened
  else if t.command = "for" ∨ t.command = "if" then t :: opened
  else if t.command = "endfor" ∨ t.command = "endif" then opened.tail
  else opened

/-- The tags of the blocks that are open behind a list of tokens, innermost first. -/
def openTags (tokens : List Token) : List Token := tokens.foldl track []

theorem mem_of_mem_foldl_track {tokens opened : List Token} {t : Token}
    (h : t ∈ tokens.foldl track opened) : t ∈ opened ∨ t ∈ tokens ∧ t.kind = .block := by
  induction tokens generalizing opened with
  | nil => exact .inl h
  | cons u rest ih =>
    rcases ih h with hopened | hrest
    · rw [track] at hopened
      split at hopened
      · exact .inl hopened
      next hblock =>
      split at hopened
      · rcases List.mem_cons.mp hopened with rfl | hopened
        · exact .inr ⟨List.mem_cons_self, Decidable.not_not.mp hblock⟩
        · exact .inl hopened
      split at hopened
      · exact .inl (List.mem_of_mem_tail hopened)
      · exact .inl hopened
    · exact .inr ⟨List.mem_cons_of_mem u hrest.1, hrest.2⟩

theorem mem_of_openTags_eq_cons {tokens outer : List Token} {t : Token}
    (h : openTags tokens = t :: outer) : t ∈ tokens ∧ t.kind = .block := by
  have hmem : t ∈ openTags tokens := by
    rw [h]
    exact List.mem_cons_self
  exact (mem_of_mem_foldl_track hmem).resolve_left List.not_mem_nil

section Track

variable {t : Token} {opened : List Token}

theorem track_of_kind (h : t.kind ≠ .block) : track opened t = opened := by
  rw [track, if_pos h]

theorem track_open (hkind : t.kind = .block) (h : t.command = "for" ∨ t.command = "if") :
    track opened t = t :: opened := by
  rw [track, if_neg (not_not_intro hkind), if_pos h]

theorem track_close (hkind : t.kind = .block) (h : t.command = "endfor" ∨ t.command = "endif") :
    track opened t = opened.tail := by
  have hopen : ¬ (t.command = "for" ∨ t.command = "if") := by
    rcases h with h | h <;> simp [h]
  rw [track, if_neg (not_not_intro hkind), if_neg hopen, if_pos h]

theorem track_branch (h : t.command = "elif" ∨ t.command = "else") :
    track opened t = opened := by
  have hopen : ¬ (t.command = "for" ∨ t.command = "if") := by
    rcases h with h | h <;> simp [h]
  have hclose : ¬ (t.command = "endfor" ∨ t.command = "endif") := by
    rcases h with h | h <;> simp [h]
  rw [track, if_neg hopen, if_neg hclose, ite_self]

end Track

end Token

namespace Template

namespace Builder

variable {b b' : Builder} {t : Token}

def openers (b : Builder) : List Token := b.frames.map fun f => f.block.token

theorem Moves.openers (ht : t.Tidy) (h : Moves b t b') :
    b'.openers = Token.track b.openers t := by
  cases h with
  | text hkind => exact (Token.track_of_kind (by simp [hkind])).symm
  | output hout => exact (Token.track_of_kind (by simp [hout.1])).symm
  | openLoop hloop =>
    have hcommand := ((Token.isLoop_iff ht hloop.1).mp ⟨_, _, rfl, hloop⟩).1
    exact (Token.track_open hloop.1 (.inl hcommand)).symm
  | openChoice hcondition =>
    have hcommand := ((Token.isCondition_iff ht hcondition.1 (by decide)).mp hcondition).1
    exact (Token.track_open hcondition.1 (.inr hcommand)).symm
  | closeLoop hbare =>
    have hcommand := ((Token.isBare_iff hbare.1 (by decide)).mp hbare).1
    rw [Token.track_close hbare.1 (.inl hcommand)]
    rfl
  | closeChoice hbare =>
    have hcommand := ((Token.isBare_iff hbare.1 (by decide)).mp hbare).1
    rw [Token.track_close hbare.1 (.inr hcommand)]
    rfl
  | condition hcondition =>
    have hcommand := ((Token.isCondition_iff ht hcondition.1 (by decide)).mp hcondition).1
    exact (Token.track_branch (.inl hcommand)).symm
  | default hbare =>
    have hcommand := ((Token.isBare_iff hbare.1 (by decide)).mp hbare).1
    exact (Token.track_branch (.inr hcommand)).symm

theorem Run.openers {tokens : List Token} (ht : ∀ t ∈ tokens, t.Tidy) (h : Run b tokens b') :
    b'.openers = tokens.foldl Token.track b.openers := by
  induction h with
  | nil => rfl
  | cons hmove _ ih =>
    rw [ih fun u hu => ht u (List.mem_cons_of_mem _ hu), List.foldl_cons,
      hmove.openers (ht _ List.mem_cons_self)]

/-- Whatever is open can be closed. -/
theorem exists_closing_run (nodes : List Node) (frames : List Frame) :
    ∃ closers closed, (∀ t ∈ closers, t.Tidy) ∧ Run ⟨nodes, frames⟩ closers ⟨closed, []⟩ := by
  have tidy : ∀ {t : Token} {closers : List Token}, t.Tidy → (∀ u ∈ closers, u.Tidy) →
      ∀ u ∈ t :: closers, u.Tidy := fun ht h => List.forall_mem_cons.mpr ⟨ht, h⟩
  induction frames generalizing nodes with
  | nil => exact ⟨[], nodes, by simp, .nil⟩
  | cons f rest ih =>
    obtain ⟨block, before⟩ := f
    cases block with
    | loop opener name items =>
      obtain ⟨closers, closed, hclosers, hrun⟩ :=
        ih (.loop opener name items nodes.reverse :: before)
      have hstop : (⟨.block, "endfor", 0, none⟩ : Token).IsBare "endfor" := ⟨rfl, rfl⟩
      exact ⟨_, closed, tidy (fun _ => rfl) hclosers, .cons (.closeLoop hstop) hrun⟩
    | choice opener finished condition =>
      obtain ⟨closers, closed, hclosers, hrun⟩ :=
        ih (.choice opener (finished ++ [.mk condition nodes.reverse]) :: before)
      have hstop : (⟨.block, "endif", 0, none⟩ : Token).IsBare "endif" := ⟨rfl, rfl⟩
      exact ⟨_, closed, tidy (fun _ => rfl) hclosers, .cons (.closeChoice hstop) hrun⟩

/-- A step that fails with a problem fails at its token. -/
theorem token_of_step_eq_error {problem : Problem} {token : Token}
    (h : b.step t = .error (.malformed problem token)) : token = t := by
  have attached : ∀ {x : Except Refusal Builder}, attach t x = .error (.malformed problem token) →
      token = t := by
    intro x hx
    cases x with
    | ok b' => cases hx
    | error r =>
      cases r with
      | problem p =>
        cases hx
        rfl
      | longNumeral digits => cases hx
  rw [step] at h
  split at h
  · cases h
  · exact attached h
  · exact attached h

end Builder

/-! ## Tokens that can be extended -/

/-- Whether some further tokens make a template of a list of tokens. -/
def Extendable (tokens : List Token) : Prop :=
  ∃ more nodes, parseTokens (tokens ++ more) = .ok nodes

theorem extendable_iff {tokens : List Token} :
    Extendable tokens ↔ ∃ b, tokens.foldlM Builder.step Builder.start = .ok b := by
  constructor
  · rintro ⟨more, nodes, h⟩
    rw [parseTokens, List.foldlM_append] at h
    obtain ⟨b, hb, -⟩ := Outcome.bind_eq_ok.mp h
    obtain ⟨c, hc, -⟩ := Outcome.bind_eq_ok.mp hb
    exact ⟨c, hc⟩
  · rintro ⟨b, hb⟩
    obtain ⟨closers, closed, htidy, hrun⟩ := Builder.exists_closing_run b.nodes b.frames
    refine ⟨closers, closed.reverse, ?_⟩
    rw [parseTokens, List.foldlM_append, hb, Outcome.ok_bind,
      (Builder.foldlM_eq_ok_iff htidy).mpr hrun]
    rfl

theorem Extendable.of_prefix {front tokens : List Token} (h : Extendable tokens)
    (hfront : front <+: tokens) : Extendable front := by
  obtain ⟨back, rfl⟩ := hfront
  obtain ⟨more, nodes, h⟩ := h
  exact ⟨back ++ more, nodes, by rwa [← List.append_assoc]⟩

/-- Whether a token is to blame for tokens that make no template: it is the first that cannot be
extended together with those before it, or there is none and it opened the innermost of the blocks
that are left open. -/
inductive Blames (tokens : List Token) (token : Token) : Prop
  | hopeless {before after : List Token} :
      tokens = before ++ token :: after → (∀ front, front <+: before → Extendable front) →
      ¬ Extendable (before ++ [token]) → Blames tokens token
  | unclosed {outer : List Token} :
      (∀ front, front <+: tokens → Extendable front) → Token.openTags tokens = token :: outer →
      Blames tokens token

theorem Blames.mem {tokens : List Token} {token : Token} (h : Blames tokens token) :
    token ∈ tokens := by
  cases h with
  | hopeless htokens _ _ =>
    rw [htokens]
    simp
  | unclosed _ hopen => exact (Token.mem_of_openTags_eq_cons hopen).1

/-- Literal text is never to blame. -/
theorem Blames.kind_ne_text {tokens : List Token} {token : Token} (h : Blames tokens token) :
    token.kind ≠ .text := by
  intro hkind
  cases h with
  | @hopeless before _ _ hbefore hhopeless =>
    obtain ⟨b, hb⟩ := extendable_iff.mp (hbefore before (List.prefix_refl before))
    refine hhopeless (extendable_iff.mpr ⟨b.add (.text token), ?_⟩)
    rw [List.foldlM_append, hb, Outcome.ok_bind, List.foldlM_cons, Builder.step, hkind]
    rfl
  | unclosed _ hopen =>
    have hblock := (Token.mem_of_openTags_eq_cons hopen).2
    rw [hkind] at hblock
    cases hblock

theorem parseTokens_blames {tokens : List Token} (ht : ∀ t ∈ tokens, t.Tidy) {problem : Problem}
    {token : Token} (h : parseTokens tokens = .error (.malformed problem token)) :
    Blames tokens token := by
  rw [parseTokens] at h
  rcases Outcome.bind_eq_error.mp h with hfold | ⟨b, hfold, hfinish⟩
  · obtain ⟨before, t, after, c, rfl, hbefore, hstep⟩ := Outcome.foldlM_eq_error hfold
    obtain rfl := Builder.token_of_step_eq_error hstep
    have hextend : Extendable before := extendable_iff.mpr ⟨c, hbefore⟩
    refine .hopeless rfl (fun front hfront => hextend.of_prefix hfront) ?_
    rw [extendable_iff]
    rintro ⟨b, hb⟩
    rw [List.foldlM_append, hbefore, Outcome.ok_bind, List.foldlM_cons, hstep] at hb
    cases hb
  · have hextend : Extendable tokens := extendable_iff.mpr ⟨b, hfold⟩
    have hopeners := ((Builder.foldlM_eq_ok_iff ht).mp hfold).openers ht
    rw [Builder.finish] at hfinish
    cases hframes : b.frames with
    | nil =>
      rw [hframes] at hfinish
      cases hfinish
    | cons f rest =>
      rw [hframes] at hfinish
      cases hfinish
      have hopen : Token.openTags tokens = f.block.token :: rest.map fun f => f.block.token := by
        rw [Builder.openers, hframes] at hopeners
        exact hopeners.symm
      exact .unclosed (fun front hfront => hextend.of_prefix hfront) hopen

theorem parseTokens_failsWith {tokens : List Token}
    (h : ∀ t ∈ tokens, Text.DigitRunsWithin Text.numeralLimit t.contents.toList) :
    Outcome.FailsWith (fun f => ∃ problem token, f = .malformed problem token)
      (parseTokens tokens) := by
  intro f hf
  rw [parseTokens] at hf
  rcases Outcome.bind_eq_error.mp hf with hfold | ⟨b, -, hfinish⟩
  · obtain ⟨before, t, after, c, rfl, -, hstep⟩ := Outcome.foldlM_eq_error hfold
    obtain ⟨problem, rfl⟩ := Builder.step_failsWith (h t (by simp)) f hstep
    exact ⟨problem, t, rfl⟩
  · rw [Builder.finish] at hfinish
    split at hfinish
    · cases hfinish
    · cases hfinish
      exact ⟨_, _, rfl⟩

/-- A template without long numerals compiles, or it is refused with a problem at one of its
tokens, which is the one to blame. -/
theorem compile_blames (setting : Setting) (located : Bool) (name : Option String)
    (source : String) (h : Text.DigitRunsWithin Text.numeralLimit source.toList) :
    (∃ t, compile setting located name source = .ok t) ∨
    ∃ problem token excerpt,
      compile setting located name source = .error ⟨.malformed problem token, excerpt⟩ ∧
      token ∈ Token.tokens located source ∧ Blames (Token.tokens located source) token := by
  rw [compile]
  cases hparse : parseTokens (Token.tokens located source) with
  | ok nodes => exact .inl ⟨_, rfl⟩
  | error f =>
    have hwithin : ∀ t ∈ Token.tokens located source,
        Text.DigitRunsWithin Text.numeralLimit t.contents.toList :=
      fun t ht => h.of_infix (Token.contents_isInfix ht)
    obtain ⟨problem, token, rfl⟩ := parseTokens_failsWith hwithin f hparse
    have hblames := parseTokens_blames (fun t => Token.tidy_of_mem_tokens) hparse
    exact .inr ⟨problem, token, _, rfl, hblames.mem, hblames⟩

/-- The second branch of the choice is hopeless because of what stands behind its word; that the
loop and the choice stay open no longer matters. -/
theorem compile_blames_else :
    Text.DigitRunsWithin Text.numeralLimit "{% for x in y %}{% if x %}{% else b %}{{ c }}".toList ∧
      ∃ problem token excerpt,
        compile ⟨[], true, 1, 9⟩ false none "{% for x in y %}{% if x %}{% else b %}{{ c }}" =
          .error ⟨.malformed problem token, excerpt⟩ ∧
        token.contents = "else b" ∧
        Blames (Token.tokens false "{% for x in y %}{% if x %}{% else b %}{{ c }}") token := by
  have hwithin : Text.DigitRunsWithin Text.numeralLimit
      "{% for x in y %}{% if x %}{% else b %}{{ c }}".toList := .of_length (by decide)
  have htokens : Token.tokens false "{% for x in y %}{% if x %}{% else b %}{{ c }}" =
      [⟨.block, "for x in y", 1, none⟩, ⟨.block, "if x", 1, none⟩,
        ⟨.block, "else b", 1, none⟩, ⟨.output, "c", 1, none⟩] := rfl
  have hcompile : compile ⟨[], true, 1, 9⟩ false none "{% for x in y %}{% if x %}{% else b %}{{ c }}" =
      .error ⟨.malformed (.argumentsGiven "else" 1) ⟨.block, "else b", 1, none⟩, none⟩ := by
    rw [compile, htokens]
    rfl
  refine ⟨hwithin, ?_⟩
  rcases compile_blames ⟨[], true, 1, 9⟩ false none _ hwithin with
    ⟨t, ht⟩ | ⟨problem, token, excerpt, herror, hmem, hblames⟩
  · rw [hcompile] at ht
    cases ht
  · have hsame := hcompile.symm.trans herror
    cases hsame
    exact ⟨_, _, _, hcompile, rfl, hblames⟩

end Template
end Quill
