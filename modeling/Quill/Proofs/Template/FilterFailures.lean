import Quill.Proofs.Engine.Debug
import Quill.Proofs.Template.Levels

/-!
Failures of filters, and the tags that they are reported at.

A value passes through the stages of a pipeline until a filter refuses it.  The failure gets the
token of the output tag that the pipeline stands in, and with it the excerpt there.  Every block
around the tag sees the failure on its way out (`Template.annotate`), and finds both in place.
-/

namespace Quill

open Render

/-! ## Stages -/

namespace Pipeline

variable {filters : Registry} {s : Scope} {v w : Value} {stage : Stage} {stages : List Stage}
  {depth : Nat}

/-- What a stage does to a value.  One whose filter is not registered leaves it as it is; any other
applies its filter to it, with the values of the arguments. -/
inductive Sends (filters : Registry) (s : Scope) (v : Value) (stage : Stage) : Value → Prop
  | skipped : filters.get? stage.name = none → Sends filters s v stage v
  | applied {f : Filter} {arguments : List Value} {u : Value} :
      filters.get? stage.name = some f →
      (evalArguments s stage.arguments).result = .ok arguments → f.apply v arguments = .ok u →
      Sends filters s v stage u

inductive SendsAlong (filters : Registry) (s : Scope) : Value → List Stage → Value → Prop
  | nil {v : Value} : SendsAlong filters s v [] v
  | cons {v u w : Value} {stage : Stage} {rest : List Stage} : Sends filters s v stage u →
      SendsAlong filters s u rest w → SendsAlong filters s v (stage :: rest) w

def Refuses (filters : Registry) (s : Scope) (v : Value) (stage : Stage) (cause : Fault) : Prop :=
  ∃ f arguments, filters.get? stage.name = some f ∧
    (evalArguments s stage.arguments).result = .ok arguments ∧ f.apply v arguments = .error cause

/-- Whether a pipeline comes to a stage and the filter of that stage fails. -/
def FailsAt (filters : Registry) (s : Scope) (p : Pipeline) (stage : Stage) (cause : Fault) :
    Prop :=
  ∃ before after v w, p.stages = before ++ stage :: after ∧ p.subject.outcome s = .ok v ∧
    SendsAlong filters s v before w ∧ Refuses filters s w stage cause

theorem result_applyStage_eq_ok_iff :
    (applyStage filters s v stage depth).2.result = .ok w ↔ Sends filters s v stage w := by
  rw [applyStage]
  constructor
  · intro h
    cases hfilter : filters.get? stage.name with
    | none =>
      rw [hfilter] at h
      cases h
      exact .skipped hfilter
    | some f =>
      rw [hfilter] at h
      obtain ⟨arguments, harguments, h⟩ := result_bind_eq_ok.mp h
      have harguments := Outcome.mapError_eq_ok.mp harguments
      cases happly : f.apply v arguments with
      | ok u =>
        rw [happly] at h
        cases h
        exact .applied hfilter harguments happly
      | error cause =>
        rw [happly] at h
        cases h
  · rintro (hfilter | ⟨hfilter, harguments, happly⟩)
    · rw [hfilter]
      rfl
    · rw [hfilter]
      refine result_bind_eq_ok.mpr ⟨_, Outcome.mapError_eq_ok.mpr harguments, ?_⟩
      rw [happly]
      rfl

theorem result_applyStage_eq_filter_iff {name : String} {cause : Fault} {token : Option Token} :
    (applyStage filters s v stage depth).2.result = .error (.filter name cause token) ↔
      name = stage.name ∧ token = none ∧ Refuses filters s v stage cause := by
  rw [applyStage]
  constructor
  · intro h
    cases hfilter : filters.get? stage.name with
    | none =>
      rw [hfilter] at h
      cases h
    | some f =>
      rw [hfilter] at h
      rcases result_bind_eq_error.mp h with h | ⟨arguments, harguments, h⟩
      · obtain ⟨fault, -, hfault⟩ := Outcome.mapError_eq_error.mp h
        cases hfault
      · have harguments := Outcome.mapError_eq_ok.mp harguments
        cases happly : f.apply v arguments with
        | ok u =>
          rw [happly] at h
          cases h
        | error fault =>
          rw [happly] at h
          cases h
          exact ⟨rfl, rfl, f, arguments, hfilter, harguments, happly⟩
  · rintro ⟨rfl, rfl, f, arguments, hfilter, harguments, happly⟩
    rw [hfilter]
    refine result_bind_eq_error.mpr (.inr ⟨_, Outcome.mapError_eq_ok.mpr harguments, ?_⟩)
    rw [happly]
    rfl

theorem result_foldlM_eq_filter_iff {name : String} {cause : Fault} {token : Option Token} :
    (stages.foldlM (applyStage filters s) v depth).2.result =
        .error (.filter name cause token) ↔
      ∃ before stage after w, stages = before ++ stage :: after ∧ SendsAlong filters s v before w ∧
        Refuses filters s w stage cause ∧ name = stage.name ∧ token = none := by
  induction stages generalizing v with
  | nil =>
    constructor
    · intro h
      cases h
    · rintro ⟨before, stage, after, w, hstages, -⟩
      simp at hstages
  | cons first rest ih =>
    rw [List.foldlM_cons, result_bind_eq_error, (steady_applyStage filters s v first).level]
    simp only [result_applyStage_eq_filter_iff, result_applyStage_eq_ok_iff, ih]
    constructor
    · rintro (⟨hname, htoken, hrefuses⟩ | ⟨u, hsends, before, stage, after, w, rfl, hpasses, hlast⟩)
      · exact ⟨[], first, rest, v, rfl, .nil, hrefuses, hname, htoken⟩
      · exact ⟨first :: before, stage, after, w, rfl, .cons hsends hpasses, hlast⟩
    · rintro ⟨before, stage, after, w, hstages, hpasses, hrefuses, hname, htoken⟩
      cases hpasses with
      | nil =>
        cases hstages
        exact .inl ⟨hname, htoken, hrefuses⟩
      | cons hsends hpasses =>
        cases hstages
        exact .inr ⟨_, hsends, _, _, _, _, rfl, hpasses, hrefuses, hname, htoken⟩

/-- A pipeline fails in a filter when it comes to a stage whose filter fails. -/
theorem result_run_eq_filter_iff {p : Pipeline} {name : String} {cause : Fault}
    {token : Option Token} :
    (p.run filters s depth).2.result = .error (.filter name cause token) ↔
      token = none ∧ ∃ stage, name = stage.name ∧ p.FailsAt filters s stage cause := by
  rw [run, result_bind_eq_error]
  constructor
  · rintro (h | ⟨v, hv, h⟩)
    · obtain ⟨fault, -, hfault⟩ := Outcome.mapError_eq_error.mp h
      cases hfault
    · have hv := Outcome.mapError_eq_ok.mp hv
      obtain ⟨before, stage, after, w, hstages, hpasses, hrefuses, hname, htoken⟩ :=
        result_foldlM_eq_filter_iff.mp h
      exact ⟨htoken, stage, hname, before, after, v, w, hstages, hv, hpasses, hrefuses⟩
  · rintro ⟨htoken, stage, hname, before, after, v, w, hstages, hv, hpasses, hrefuses⟩
    refine .inr ⟨v, Outcome.mapError_eq_ok.mpr hv, ?_⟩
    exact result_foldlM_eq_filter_iff.mpr
      ⟨before, stage, after, w, hstages, hpasses, hrefuses, hname, htoken⟩

end Pipeline

/-! ## Output tags -/

namespace Node

variable {g : Setting} {s : Scope} {depth : Nat} {n : Node} {name : String} {cause : Fault}
  {token : Option Token}

/-- Writing a value fails in no filter. -/
theorem result_plain_output_eq_filter_iff {tag : Token} {p : Pipeline} :
    (plain g s (.output tag p) depth).2.result = .error (.filter name cause token) ↔
      (p.run g.filters s depth).2.result = .error (.filter name cause token) := by
  rw [plain, result_bind_eq_error]
  refine ⟨fun h => ?_, .inl⟩
  rcases h with h | ⟨v, -, h⟩
  · exact h
  · rw [Value.write, result_bind_eq_error] at h
    rcases h with h | ⟨out, -, h⟩
    · obtain ⟨fault, -, hfault⟩ := Outcome.mapError_eq_error.mp h
      cases hfault
    · cases h

/-- A filter stops a rendering at an output tag, and nowhere else. -/
theorem stops_filter_iff : Stops g s depth n (.filter name cause token) ↔
    ∃ tag p stage, n = .output tag p ∧ token = some tag ∧ name = stage.name ∧
      p.FailsAt g.filters s stage cause := by
  constructor
  · intro h
    generalize he : RenderFailure.filter name cause token = e at h
    cases h with
    | fault => cases he
    | beyond => cases hblock : n.quoted? g.room <;> rw [hblock] at he <;> cases he
    | @plain c _ hplain =>
      cases c with
      | fault f => cases he
      | tooDeep => cases he
      | filter other fault old =>
        cases he
        cases n with
        | text t => cases hplain
        | loop t item items body => cases hplain
        | choice t arms => cases hplain
        | output tag p =>
          obtain ⟨rfl, stage, hname, hfails⟩ :=
            Pipeline.result_run_eq_filter_iff.mp (result_plain_output_eq_filter_iff.mp hplain)
          exact ⟨tag, p, stage, rfl, rfl, hname, hfails⟩
  · rintro ⟨tag, p, stage, rfl, rfl, hname, hfails⟩
    have hrun : (p.run g.filters s depth).2.result = .error (.filter name cause none) :=
      Pipeline.result_run_eq_filter_iff.mpr ⟨rfl, stage, hname, hfails⟩
    exact .plain (n := .output tag p) rfl (result_plain_output_eq_filter_iff.mpr hrun)

end Node

/-! ## Reports -/

namespace Template

open Node

/-- What a node does to a report that passes through it on its way out: it adds its token, and then
the excerpt at the token of the report, where they are missing. -/
def annotate (t : Template) (tag : Token) (r : Report RenderFailure) : Report RenderFailure :=
  let failure := r.failure.tag tag
  ⟨failure, r.excerpt.or <| failure.token.bind fun token =>
    if t.located then excerptAt t.name t.source failure.message token else none⟩

/-- A failure that is reported when it has left all nodes has the report that they would make. -/
theorem annotate_reportRender (t : Template) (tag : Token) (f : RenderFailure) :
    t.annotate tag (t.reportRender f) = t.reportRender (f.tag tag) := by
  cases f with
  | fault f => rfl
  | filter name cause token =>
    cases token with
    | none => rfl
    | some token => exact congrArg (Report.mk _) Option.or_self
  | tooDeep limit block token =>
    cases token with
    | none => rfl
    | some token => exact congrArg (Report.mk _) Option.or_self

/-- Nodes further out leave the report of the innermost one as it is. -/
theorem foldr_annotate (t : Template) (outer : List Token) {f : RenderFailure} {token : Token}
    (h : f.token = some token) :
    outer.foldr t.annotate (t.reportRender f) = t.reportRender f := by
  have htag : ∀ tag, f.tag tag = f := by
    intro tag
    cases f <;> cases h <;> rfl
  induction outer with
  | nil => rfl
  | cons tag rest ih => rw [List.foldr_cons, ih, annotate_reportRender, htag]

theorem Spells.isOutput_of_mem {tokens : List Token} {nodes : List Node} (h : Spells tokens nodes)
    {tag : Token} {p : Pipeline} (hmem : .output tag p ∈ nodes) : tag.IsOutput p := by
  induction nodes generalizing tokens with
  | nil => cases hmem
  | cons first rest ih =>
    cases h with
    | output hout hrest =>
      rcases List.mem_cons.mp hmem with heq | hmem
      · cases heq
        exact hout
      · exact ih hrest hmem
    | text _ hrest | loop _ _ _ hrest | choice _ _ _ hrest =>
      rcases List.mem_cons.mp hmem with heq | hmem
      · cases heq
      · exact ih hrest hmem

/-- A template fails in a filter exactly when it comes to an output tag, inside of whatever blocks,
whose pipeline comes to a stage that fails.  The filter of that stage is in the registry that the
template has kept, and each stage before it has been passed.  The failure names the filter, and it
has the token of the tag and, in a template with places, the excerpt there.  That report is made at
the tag, and no node around it changes the report.  In a compiled template the tag is one of the
tokens of the source, the pipeline is the one that it contains, and the registry is that of the
engine. -/
theorem render_eq_filter_iff (t : Template) (context : Value) :
    (∀ name cause token excerpt,
      (t.render context).result = .error (.failed ⟨.filter name cause token, excerpt⟩) ↔
        ∃ s blocks s' depth tag p stage, Scope.ofValue context = .ok s ∧
          Visits t.setting s 0 t.nodes blocks s' depth (.output tag p) ∧
          p.FailsAt t.setting.filters s' stage cause ∧ name = stage.name ∧ token = some tag ∧
          excerpt = if t.located then
            excerptAt t.name t.source (RenderFailure.filter name cause token).message tag
          else none) ∧
    (∀ name cause tag (outer : List Token),
      outer.foldr t.annotate (t.annotate tag ⟨.filter name cause none, none⟩) =
        ⟨.filter name cause (some tag), if t.located then
          excerptAt t.name t.source (RenderFailure.filter name cause (some tag)).message tag
        else none⟩) ∧
    (∀ (e : Engine) name source, e.compile name source = .ok t →
      t.setting.filters = e.filters ∧ t.located = e.debug ∧
      ∀ s blocks s' depth tag p, Visits t.setting s 0 t.nodes blocks s' depth (.output tag p) →
        tag ∈ Token.tokens e.debug source ∧ tag.IsOutput p ∧
          (e.debug = true → ∃ span, tag.span = some span)) := by
  refine ⟨fun name cause token excerpt => ?_, fun name cause tag outer => ?_,
    fun e name source ht => ?_⟩
  · rw [render_eq_failed_iff]
    constructor
    · rintro ⟨s, f, hs, hf, hreport⟩
      have hfailure := congrArg Report.failure hreport
      rw [failure_reportRender] at hfailure
      subst hfailure
      obtain ⟨blocks, s', depth, n, hvisits, hstops⟩ := renderAll_eq_error_iff.mp hf
      obtain ⟨tag, p, stage, rfl, rfl, hname, hfails⟩ := stops_filter_iff.mp hstops
      exact ⟨s, blocks, s', depth, tag, p, stage, hs, hvisits, hfails, hname, rfl,
        (congrArg Report.excerpt hreport).symm⟩
    · rintro ⟨s, blocks, s', depth, tag, p, stage, hs, hvisits, hfails, hname, rfl, rfl⟩
      have hstops : Stops t.setting s' depth (.output tag p) (.filter name cause (some tag)) :=
        stops_filter_iff.mpr ⟨tag, p, stage, rfl, rfl, hname, hfails⟩
      exact ⟨s, _, hs, hvisits.result_renderAll hstops, rfl⟩
  · exact foldr_annotate t outer (f := .filter name cause (some tag)) rfl
  · obtain ⟨nodes, hnodes, rfl⟩ := compile_eq_ok_iff.mp ht
    refine ⟨rfl, rfl, fun s blocks s' depth tag p hvisits => ?_⟩
    have hstands := hvisits.stands
    obtain ⟨inner, body, -, hbody, hmem⟩ := hnodes.exists_of_stands hstands
    have htag : tag ∈ Token.tokens e.debug source := hnodes.token_of_stands hstands
    refine ⟨htag, hbody.isOutput_of_mem hmem, fun hdebug => ?_⟩
    rw [hdebug] at htag
    exact span_of_mem_locate htag

/-- In the second turn of a loop inside of a choice a filter fails, behind a stage that is not
registered and one that is passed. -/
theorem render_eq_filter_iff_nested :
    let pass := Filter.unary "pass" .ok
    let fail := Filter.unary "fail" fun v =>
      if v.truth? = some true then .error (.badValue "b") else .ok v
    let e : Engine := ⟨.bool true, 5, true, [("pass", pass), ("fail", fail)]⟩
    let tag : Token := ⟨.output, "x|none|pass|fail", 1, some ⟨26, 48⟩⟩
    ∃ t excerpt s blocks s' depth p stage,
      e.compile none "{% if a %}{% for x in a %}{{ x|none|pass|fail }}{% endfor %}{% endif %}" =
        .ok t ∧
      (t.render (.map [("a", .list [.ofInt 0, .ofInt 1])])).result =
        .error (.failed ⟨.filter "fail" (.badValue "b") (some tag), some excerpt⟩) ∧
      Visits t.setting s 0 t.nodes blocks s' depth (.output tag p) ∧
      p.FailsAt t.setting.filters s' stage (.badValue "b") ∧ stage.name = "fail" := by
  intro pass fail e tag
  have hfailure :
      (e.compile none
        "{% if a %}{% for x in a %}{{ x|none|pass|fail }}{% endfor %}{% endif %}").toOption.bind
          (fun t => match (t.render (.map [("a", .list [.ofInt 0, .ofInt 1])])).result with
            | .error (.failed report) => some (report.failure, report.excerpt.isSome)
            | _ => none) = some (.filter "fail" (.badValue "b") (some tag), true) := by
    decide +kernel
  cases ht : e.compile none
      "{% if a %}{% for x in a %}{{ x|none|pass|fail }}{% endfor %}{% endif %}" with
  | error report =>
    rw [ht] at hfailure
    cases hfailure
  | ok t =>
    rw [ht] at hfailure
    change Option.bind (some t) _ = _ at hfailure
    rw [Option.bind_some] at hfailure
    split at hfailure
    · next report hrender =>
      obtain ⟨failure, excerpt⟩ := report
      obtain ⟨rfl, hexcerpt⟩ := Prod.mk.inj (Option.some.inj hfailure)
      obtain ⟨x, rfl⟩ := Option.isSome_iff_exists.mp hexcerpt
      obtain ⟨s, blocks, s', depth, _, p, stage, -, hvisits, hfails, hname, ⟨⟩, -⟩ :=
        ((render_eq_filter_iff t _).1 _ _ _ _).mp hrender
      exact ⟨t, x, s, blocks, s', depth, p, stage, rfl, hrender, hvisits, hfails, hname.symm⟩
    · cases hfailure

end Template
end Quill
