import Quill.Filter.Standard
import Quill.Template

/-!
What a rendering depends on.  The free names of a template are the names that it looks up in the
scope it is given; a name that a loop binds is not free in the body of the loop.  Two renderings
of a template come to the same if their scopes agree on its free names and their registries on the
filters that it names.
-/

namespace Quill

/-! ## Names -/

def Agree {α : Type} (names : List String) (f g : String → Option α) : Prop :=
  ∀ name ∈ names, f name = g name

theorem Agree.of_subset {α : Type} {names more : List String} {f g : String → Option α}
    (h : Agree more f g) (hsub : names ⊆ more) : Agree names f g :=
  fun name hname => h name (hsub hname)

theorem agree_append {α : Type} {names more : List String} {f g : String → Option α} :
    Agree (names ++ more) f g ↔ Agree names f g ∧ Agree more f g := by
  simp only [Agree, List.mem_append, or_imp, forall_and]

def Expr.names : Expr → List String
  | .literal _ => []
  | .path p => [p.root]
  | .not operand => operand.names
  | .binary _ left right => left.names ++ right.names

/-- The name that an argument looks up; a source that is no path is one name. -/
def Argument.names : Argument → List String
  | .literal _ => []
  | .lookup path _ => [path.root]

def Stage.names (stage : Stage) : List String := stage.arguments.flatMap Argument.names

def Pipeline.names (p : Pipeline) : List String := p.subject.names ++ p.stages.flatMap Stage.names

namespace Node

mutual

/-- The names that a node looks up in the scope it is rendered in. -/
def freeNames : Node → List String
  | .text _ => []
  | .output _ p => p.names
  | .loop _ name items body => items.names ++ (freeNamesOf body).filter (· ≠ name)
  | .choice _ arms => freeNamesOfArms arms

def freeNamesOf : List Node → List String
  | [] => []
  | n :: rest => freeNames n ++ freeNamesOf rest

def freeNamesOfArms : List Arm → List String
  | [] => []
  | .mk none body :: rest => freeNamesOf body ++ freeNamesOfArms rest
  | .mk (some condition) body :: rest =>
    condition.names ++ (freeNamesOf body ++ freeNamesOfArms rest)

end

mutual

def filterNames : Node → List String
  | .text _ => []
  | .output _ p => p.stages.map Stage.name
  | .loop _ _ _ body => filterNamesOf body
  | .choice _ arms => filterNamesOfArms arms

def filterNamesOf : List Node → List String
  | [] => []
  | n :: rest => filterNames n ++ filterNamesOf rest

def filterNamesOfArms : List Arm → List String
  | [] => []
  | .mk _ body :: rest => filterNamesOf body ++ filterNamesOfArms rest

end

end Node

/-! ## Expressions and pipelines -/

section Scopes

variable {s s' : Scope}

/-- Under a binding, scopes agree on a name more. -/
theorem Scope.agree_push {names : List String} {name : String}
    (h : Agree (names.filter (· ≠ name)) s.get? s'.get?) (v : Value) :
    Agree names (s.push name v).get? (s'.push name v).get? := by
  intro other hother
  rw [Scope.get?_push, Scope.get?_push]
  by_cases heq : other = name
  · rw [if_pos heq, if_pos heq]
  · rw [if_neg heq, if_neg heq]
    exact h other (List.mem_filter.mpr ⟨hother, by simpa using heq⟩)

theorem Path.find_congr {p : Path} (h : s.get? p.root = s'.get? p.root) :
    p.find s = p.find s' := by
  have hresolve : s.resolve? p = s'.resolve? p := by rw [Scope.resolve?, Scope.resolve?, h]
  rw [Path.find, Path.find, hresolve]

theorem Expr.eval_congr {e : Expr} (h : Agree e.names s.get? s'.get?) : eval s e = eval s' e := by
  induction e with
  | literal l => rfl
  | path p =>
    have hroot := h p.root (List.mem_singleton_self _)
    rw [eval_path, eval_path, Path.find_congr hroot]
  | not operand ih => rw [eval_not, eval_not, ih h]
  | binary op left right ihLeft ihRight =>
    obtain ⟨hleft, hright⟩ := agree_append.mp h
    rw [eval_binary, eval_binary, ihLeft hleft, ihRight hright]

theorem Argument.eval_congr {a : Argument} (h : Agree a.names s.get? s'.get?) :
    a.eval s = a.eval s' := by
  cases a with
  | literal l => rfl
  | lookup path source =>
    have hroot := h path.root (List.mem_singleton_self _)
    rw [Argument.eval, Argument.eval, Path.find_congr hroot]

namespace Pipeline

theorem evalArguments_congr {arguments : List Argument}
    (h : Agree (arguments.flatMap Argument.names) s.get? s'.get?) :
    evalArguments s arguments = evalArguments s' arguments := by
  induction arguments with
  | nil => rfl
  | cons a rest ih =>
    rw [List.flatMap_cons] at h
    obtain ⟨hfirst, hrest⟩ := agree_append.mp h
    rw [evalArguments, evalArguments, Argument.eval_congr hfirst, ih hrest]

variable {filters filters' : Registry}

theorem applyStage_congr {stage : Stage} (hs : Agree stage.names s.get? s'.get?)
    (hfilter : filters.get? stage.name = filters'.get? stage.name) (v : Value) :
    applyStage filters s v stage = applyStage filters' s' v stage := by
  rw [applyStage, applyStage, hfilter, evalArguments_congr hs]

theorem run_congr {p : Pipeline} (hs : Agree p.names s.get? s'.get?)
    (hfilters : Agree (p.stages.map Stage.name) (Assoc.get? · filters) (Assoc.get? · filters')) :
    p.run filters s = p.run filters' s' := by
  have stages : ∀ (stages : List Stage) (v : Value),
      Agree (stages.flatMap Stage.names) s.get? s'.get? →
      Agree (stages.map Stage.name) (Assoc.get? · filters) (Assoc.get? · filters') →
      stages.foldlM (applyStage filters s) v = stages.foldlM (applyStage filters' s') v := by
    intro stages
    induction stages with
    | nil =>
      intro v _ _
      rfl
    | cons stage rest ih =>
      intro v hnames hfilters
      rw [List.flatMap_cons] at hnames
      obtain ⟨hstage, hrest⟩ := agree_append.mp hnames
      have hfilter := hfilters stage.name List.mem_cons_self
      have hothers := hfilters.of_subset (List.subset_cons_self stage.name (rest.map Stage.name))
      rw [List.foldlM_cons, List.foldlM_cons, applyStage_congr hstage hfilter]
      exact congrArg _ (funext fun w => ih w hrest hothers)
  obtain ⟨hsubject, hstages⟩ := agree_append.mp hs
  rw [run, run, Expr.eval_congr hsubject]
  exact congrArg _ (funext fun v => stages p.stages v hstages hfilters)

end Pipeline

end Scopes

/-! ## Nodes -/

def Setting.withFilters (g : Setting) (filters : Registry) : Setting :=
  { g with filters := filters }

namespace Node

section

variable {g : Setting} {filters : Registry}

mutual

/-- The text of a node is the same in scopes that agree on its free names, with filters that agree
on those it applies. -/
theorem render_congr {s s' : Scope} (n : Node) (hs : Agree (freeNames n) s.get? s'.get?)
    (hfilters : Agree (filterNames n) (Assoc.get? · g.filters) (Assoc.get? · filters)) :
    render g s n = render (g.withFilters filters) s' n := by
  match n with
  | .text t => rw [render, render]
  | .output t p =>
    rw [freeNames] at hs
    rw [filterNames] at hfilters
    rw [render, render, Pipeline.run_congr hs hfilters]
    rfl
  | .loop t name items body =>
    rw [freeNames] at hs
    rw [filterNames] at hfilters
    obtain ⟨hitems, hbody⟩ := agree_append.mp hs
    have hrender : ∀ item, renderAll g (s.push name item) body =
        renderAll (g.withFilters filters) (s'.push name item) body :=
      fun item => renderAll_congr body (Scope.agree_push hbody item) hfilters
    simp only [render, Expr.eval_congr hitems, hrender]
    rfl
  | .choice t arms =>
    rw [freeNames] at hs
    rw [filterNames] at hfilters
    rw [render, render, renderArms_congr _ arms hs hfilters]
    rfl

theorem renderAll_congr {s s' : Scope} (nodes : List Node)
    (hs : Agree (freeNamesOf nodes) s.get? s'.get?)
    (hfilters : Agree (filterNamesOf nodes) (Assoc.get? · g.filters) (Assoc.get? · filters)) :
    renderAll g s nodes = renderAll (g.withFilters filters) s' nodes := by
  match nodes with
  | [] => rw [renderAll, renderAll]
  | n :: rest =>
    rw [freeNamesOf, agree_append] at hs
    rw [filterNamesOf, agree_append] at hfilters
    rw [renderAll, renderAll, render_congr n hs.1 hfilters.1, renderAll_congr rest hs.2 hfilters.2]

theorem renderArms_congr {s s' : Scope} (block : Option String) (arms : List Arm)
    (hs : Agree (freeNamesOfArms arms) s.get? s'.get?)
    (hfilters : Agree (filterNamesOfArms arms) (Assoc.get? · g.filters) (Assoc.get? · filters)) :
    renderArms g s block arms = renderArms (g.withFilters filters) s' block arms := by
  match arms with
  | [] => rw [renderArms, renderArms]
  | .mk none body :: rest =>
    rw [freeNamesOfArms, agree_append] at hs
    rw [filterNamesOfArms, agree_append] at hfilters
    rw [renderArms, renderArms, renderAll_congr body hs.1 hfilters.1]
    rfl
  | .mk (some condition) body :: rest =>
    rw [freeNamesOfArms, agree_append, agree_append] at hs
    rw [filterNamesOfArms, agree_append] at hfilters
    rw [renderArms, renderArms, Expr.eval_congr hs.1, renderAll_congr body hs.2.1 hfilters.1,
      renderArms_congr block rest hs.2.2 hfilters.2]
    rfl

end

end

end Node

/-! ## Templates -/

namespace Template

def withFilters (t : Template) (filters : Registry) : Template :=
  { t with setting := t.setting.withFilters filters }

/-- A template gives the same text or the same failure, and leaves the same events, for contexts
that agree on its free names and registries that agree on the filters it applies. -/
theorem render_eq_of_agree (t : Template) (filters : Registry) {context other : Value}
    {s s' : Scope} (hs : Scope.ofValue context = .ok s) (hs' : Scope.ofValue other = .ok s')
    (hnames : Agree (Node.freeNamesOf t.nodes) s.get? s'.get?)
    (hfilters : Agree (Node.filterNamesOf t.nodes) (Assoc.get? · t.setting.filters)
      (Assoc.get? · filters)) :
    t.render context = (t.withFilters filters).render other := by
  have hrender : t.renderIn s = (t.withFilters filters).renderIn s' :=
    Node.renderAll_congr t.nodes hnames hfilters
  rw [render, render, hs, hs']
  dsimp only
  rw [hrender]
  rfl

/-- The name of the loop may mean anything outside, and filters that are not applied may be
missing. -/
theorem render_eq_of_agree_outside :
    let tag : Token := ⟨.block, "", 1, none⟩
    let item : Expr := .path (.single "x")
    let loop := Node.loop tag "x" (.path (.single "items"))
      [.output tag ⟨"x|upper", item, [⟨"upper", []⟩]⟩]
    let t : Template := ⟨none, "", [loop], ⟨Filter.standard, true, 32, 9⟩, false⟩
    let context : Value := .map [("x", .ofString "outer"), ("items", .list [.ofString "a"])]
    let other : Value := .map [("items", .list [.ofString "a"])]
    let filters : Registry := Filter.standard.erase "truncate"
    t.render context = (t.withFilters filters).render other ∧
      (t.render context).result = .ok "A" := by
  intro tag item loop t context other filters
  have hnames : Node.freeNamesOf t.nodes = ["items"] := rfl
  have hfilters : Node.filterNamesOf t.nodes = ["upper"] := rfl
  refine ⟨render_eq_of_agree t filters rfl rfl ?_ ?_, rfl⟩
  · intro name hname
    rw [hnames, List.mem_singleton] at hname
    subst hname
    rfl
  · intro name hname
    rw [hfilters, List.mem_singleton] at hname
    subst hname
    rfl

end Template
end Quill
