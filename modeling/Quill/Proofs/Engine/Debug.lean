import Quill.Engine
import Quill.Proofs.Template.Building
import Quill.Proofs.Template.Depth
import Quill.Proofs.Template.Prefixes
import Quill.Proofs.Template.Unplaced

/-!
What the debug option of an engine changes.

With the option templates know where their tokens stand, and an error that has a token shows an
excerpt of the template at that place.  Without it both are missing, and nothing else is different:
the same templates compile, and they give the same texts and the same errors.
-/

namespace Quill

open Node

/-! ## The tokens of a tree -/

namespace Template

/-- Each branch of a choice is spelled by some of the tokens of the choice. -/
theorem SpellsArms.spells_of_mem {tokens : List Token} {arms : List Arm}
    (h : SpellsArms tokens arms) {condition : Option Expr} {body : List Node}
    (hmem : .mk condition body ∈ arms) : ∃ inner, inner ⊆ tokens ∧ Spells inner body := by
  match h with
  | .close _ => cases hmem
  | @SpellsArms.condition t _ inner more _ _ _ hbody harms =>
    rcases List.mem_cons.mp hmem with heq | hmem
    · cases heq
      exact ⟨inner, by simp, hbody⟩
    · obtain ⟨other, hother, hspells⟩ := harms.spells_of_mem hmem
      exact ⟨other, fun u hu => by simp [hother hu], hspells⟩
  | @SpellsArms.default t _ inner _ _ hbody _ =>
    cases List.mem_singleton.mp hmem
    exact ⟨inner, by simp, hbody⟩

def ComesFrom (tokens : List Token) (n : Node) : Prop :=
  n.token ∈ tokens ∧ ∀ body, n.Holds body → ∃ inner, inner ⊆ tokens ∧ Spells inner body

theorem ComesFrom.mono {tokens more : List Token} {n : Node} (h : ComesFrom tokens n)
    (hmore : tokens ⊆ more) : ComesFrom more n := by
  refine ⟨hmore h.1, fun body hbody => ?_⟩
  obtain ⟨inner, hinner, hspells⟩ := h.2 body hbody
  exact ⟨inner, List.Subset.trans hinner hmore, hspells⟩

theorem Spells.comesFrom {tokens : List Token} {nodes : List Node} (h : Spells tokens nodes) :
    ∀ n ∈ nodes, ComesFrom tokens n := by
  induction nodes generalizing tokens with
  | nil => simp
  | cons first rest ih =>
    -- The rest is spelled by the tokens behind those of the first node.
    have later : ∀ {behind : List Token}, Spells behind rest → behind ⊆ tokens →
        ∀ n ∈ rest, ComesFrom tokens n := fun hrest hbehind n hn => (ih hrest n hn).mono hbehind
    refine List.forall_mem_cons.mpr ?_
    cases h with
    | text _ hrest =>
      exact ⟨⟨List.mem_cons_self, fun body hbody => hbody.elim⟩,
        later hrest fun t ht => by simp [ht]⟩
    | output _ hrest =>
      exact ⟨⟨List.mem_cons_self, fun body hbody => hbody.elim⟩,
        later hrest fun t ht => by simp [ht]⟩
    | loop _ hinner _ hrest =>
      refine ⟨⟨List.mem_cons_self, fun body hbody => ?_⟩, later hrest fun t ht => by simp [ht]⟩
      subst hbody
      exact ⟨_, fun t ht => by simp [ht], hinner⟩
    | choice _ hinner harms hrest =>
      refine ⟨⟨List.mem_cons_self, fun body hbody => ?_⟩, later hrest fun t ht => by simp [ht]⟩
      obtain ⟨condition, hmem⟩ := hbody
      rcases List.mem_cons.mp hmem with heq | hmem
      · cases heq
        exact ⟨_, fun t ht => by simp [ht], hinner⟩
      · obtain ⟨inner, hsub, hspells⟩ := harms.spells_of_mem hmem
        exact ⟨inner, fun t ht => by simp [hsub ht], hspells⟩

/-- A node that stands in a tree is in a list of nodes that some of the tokens spell. -/
theorem Spells.exists_of_stands {tokens : List Token} {nodes blocks : List Node} {n : Node}
    (h : Spells tokens nodes) (hn : Stands nodes blocks n) :
    ∃ inner body, inner ⊆ tokens ∧ Spells inner body ∧ n ∈ body := by
  induction hn generalizing tokens with
  | here hmem => exact ⟨tokens, _, List.Subset.refl tokens, h, hmem⟩
  | inside hmem hholds _ ih =>
    obtain ⟨inner, hinner, hspells⟩ := (h.comesFrom _ hmem).2 _ hholds
    obtain ⟨others, body, hothers, hbody, hn⟩ := ih hspells
    exact ⟨others, body, List.Subset.trans hothers hinner, hbody, hn⟩

theorem Spells.token_of_stands {tokens : List Token} {nodes blocks : List Node} {n : Node}
    (h : Spells tokens nodes) (hn : Stands nodes blocks n) : n.token ∈ tokens := by
  obtain ⟨inner, body, hinner, hbody, hmem⟩ := h.exists_of_stands hn
  exact hinner (hbody.comesFrom n hmem).1

/-! ## Excerpts -/

theorem span_of_mem_locate {source : String} {token : Token} (h : token ∈ Token.locate source) :
    ∃ span, token.span = some span := by
  obtain ⟨span, hshows⟩ := Token.shows_of_mem_tile (Token.tile_locate source) h
  exact ⟨span, hshows.span⟩

/-- A template with places that is refused with a problem shows an excerpt at the token. -/
theorem excerpt_of_compile {g : Setting} {name : Option String} {source : String}
    {problem : Problem} {token : Token} {excerpt : Option Excerpt}
    (h : compile g true name source = .error ⟨.malformed problem token, excerpt⟩) :
    ∃ span, token.span = some span ∧
      excerpt = some (Excerpt.make problem.message (originName name) source span) := by
  rw [compile] at h
  cases hparse : parseTokens (Token.tokens true source) with
  | ok nodes =>
    rw [hparse] at h
    cases h
  | error f =>
    rw [hparse] at h
    cases f with
    | longNumeral digits => cases h
    | malformed other place =>
      cases h
      have hblames := parseTokens_blames (fun _ => Token.tidy_of_mem_tokens) hparse
      obtain ⟨span, hspan⟩ := span_of_mem_locate hblames.mem
      refine ⟨span, hspan, ?_⟩
      rw [if_pos rfl, excerptAt, hspan]
      rfl

/-- A template with places that fails does so because of a fault outside of any filter, or it shows
an excerpt at the token of the failure. -/
theorem excerpt_of_render {g : Setting} {name : Option String} {source : String} {t : Template}
    (ht : compile g true name source = .ok t) {context : Value} {report : Report RenderFailure}
    (h : (t.render context).result = .error (.failed report)) :
    (∃ f, report = ⟨.fault f, none⟩) ∨ ∃ token span, report.failure.token = some token ∧
      token.span = some span ∧
      report.excerpt =
        some (Excerpt.make report.failure.message (originName name) source span) := by
  obtain ⟨nodes, hnodes, rfl⟩ := compile_eq_ok_iff.mp ht
  obtain ⟨s, f, hs, hf, rfl⟩ := (render_eq_failed_iff _ _ _).mp h
  obtain ⟨blocks, s', depth, n, hvisits, hstops⟩ := renderAll_eq_error_iff.mp hf
  rcases hstops.fault_or_token with ⟨c, rfl⟩ | htoken
  · exact .inl ⟨c, rfl⟩
  · obtain ⟨span, hspan⟩ := span_of_mem_locate (hnodes.token_of_stands hvisits.stands)
    refine .inr ⟨n.token, span, ?_, hspan, ?_⟩
    · rw [failure_reportRender, htoken]
    · rw [failure_reportRender, reportRender, htoken]
      dsimp only
      rw [if_pos rfl, excerptAt, hspan]
      rfl

end Template

/-! ## The debug option -/

namespace Engine

def withDebug (e : Engine) (on : Bool) : Engine := { e with debug := on }

/-- The debug option decides nothing else about the engine that is built. -/
theorem make_debug (c : Catalogue) (o : Options) (v : Value) :
    make c { o with debug := v } = (make c o).map fun e => e.withDebug v.isOn := by
  show (parts c o >>= _) = Except.map _ (parts c o >>= _)
  refine Outcome.bind_map (fun p => ?_) (parts c o)
  rfl

/-- The debug option decides whether tokens have places, and nothing else.  Without it a template is
compiled or refused, and rendered to the same text or the same error, as it is with it; only the
place of a token and the excerpt are missing.  With it every error that has a token shows the
excerpt there. -/
theorem debug_places (c : Catalogue) (o : Options) (v : Value) :
    make c { o with debug := v } = ((make c o).map fun e => e.withDebug v.isOn) ∧
    ∀ (e : Engine) (name : Option String) (source : String),
      (e.withDebug false).compile name source =
        Outcome.image (Report.unplaced Template.Failure.unplaced) Template.unplaced
          ((e.withDebug true).compile name source) ∧
      (∀ problem token excerpt,
        (e.withDebug true).compile name source = .error ⟨.malformed problem token, excerpt⟩ →
          ∃ span, token.span = some span ∧ excerpt =
            some (Excerpt.make problem.message (Template.originName name) source span)) ∧
      ∀ t, (e.withDebug true).compile name source = .ok t → ∀ context,
        t.unplaced.render context = ⟨(t.render context).events,
          (t.render context).result.mapError RenderError.unplaced⟩ ∧
        ∀ report, (t.render context).result = .error (.failed report) →
          report.failure.unplaced.message = report.failure.message ∧
          ((∃ f, report = ⟨.fault f, none⟩) ∨
            ∃ token span, report.failure.token = some token ∧ token.span = some span ∧
              report.excerpt = some (Excerpt.make report.failure.message
                (Template.originName name) source span)) := by
  refine ⟨make_debug c o v, fun e name source => ⟨?_, fun problem token excerpt h => ?_, ?_⟩⟩
  · exact Template.compile_unplaced e.setting name source
  · exact Template.excerpt_of_compile h
  · intro t ht context
    refine ⟨t.render_unplaced context, fun report h => ⟨?_, ?_⟩⟩
    · exact report.failure.message_unplaced
    · exact Template.excerpt_of_render ht h

/-- A block that is left open on the second line is refused in the same way, with an excerpt and
without. -/
theorem debug_places_unclosed :
    ∃ report, (withDebug ⟨.bool true, 1, false, []⟩ true).compile none "a\n{% if x %}" =
        .error report ∧
      report.excerpt.isSome ∧
      (withDebug ⟨.bool true, 1, false, []⟩ false).compile none "a\n{% if x %}" =
        .error (report.unplaced Template.Failure.unplaced) := by
  have htokens : Token.tokens true "a\n{% if x %}" =
      [⟨.text, "a\n", 1, some ⟨0, 2⟩⟩, ⟨.block, "if x", 2, some ⟨2, 12⟩⟩] := rfl
  obtain ⟨excerpt, hcompile⟩ : ∃ excerpt,
      (withDebug ⟨.bool true, 1, false, []⟩ true).compile none "a\n{% if x %}" =
        .error ⟨.malformed (.unclosed 2 "if" ["elif", "else", "endif"])
          ⟨.block, "if x", 2, some ⟨2, 12⟩⟩, excerpt⟩ := by
    show ∃ excerpt, Template.compile _ true none _ = _
    rw [Template.compile, htokens]
    exact ⟨_, rfl⟩
  obtain ⟨hforget, hexcerpt, -⟩ := (debug_places [] Options.default .null).2
    ⟨.bool true, 1, false, []⟩ none "a\n{% if x %}"
  obtain ⟨span, -, hsome⟩ := hexcerpt _ _ _ hcompile
  refine ⟨_, hcompile, ?_, ?_⟩
  · rw [hsome]
    rfl
  · rw [hforget, hcompile]
    rfl

end Engine
end Quill
