import Quill.Proofs.Template.Renderings
import Quill.Proofs.Text.Markup
import Quill.Proofs.Value.Unmarked
import Quill.Template

/-!
What a rendering is made of.  `Node.pieces` goes through a tree as rendering does, but keeps the
literal text of the template apart from the outputs of values.  Without text that is marked as
safe, a rendering is the pieces written one after another, and making output safe escapes each
output once and leaves the literal text alone.
-/

namespace Quill

/-- A part of the output of a template: its own text, or the output of a value. -/
inductive Piece where
  | literal (s : String)
  | data (s : String)
  deriving DecidableEq, Repr

namespace Piece

/-- A piece as it is written; only outputs of values are made safe. -/
def written (autoescape : Bool) : Piece → String
  | .literal s => s
  | .data s => if autoescape then Html.escape s else s

def joined (autoescape : Bool) : List Piece → String
  | [] => ""
  | p :: rest => p.written autoescape ++ joined autoescape rest

theorem joined_append (autoescape : Bool) (a b : List Piece) :
    joined autoescape (a ++ b) = joined autoescape a ++ joined autoescape b := by
  induction a with
  | nil => exact (String.empty_append).symm
  | cons p rest ih => rw [List.cons_append, joined, joined, ih, String.append_assoc]

theorem joined_singleton (autoescape : Bool) (p : Piece) :
    joined autoescape [p] = p.written autoescape := by
  rw [joined, joined, String.append_empty]

end Piece

namespace Render

def gather (body : Value → Render (List Piece)) : List Value → Render (List Piece)
  | [] => pure []
  | v :: rest => do
    let first ← body v
    (first ++ ·) <$> gather body rest

variable {autoescape : Bool}

/-- One rendering after another, joined. -/
theorem image_append {q p : Render (List Piece)} {r t : Render String}
    (hr : Image (Piece.joined autoescape) q r) (ht : Image (Piece.joined autoescape) p t) :
    Image (Piece.joined autoescape) (q >>= fun first => (first ++ ·) <$> p)
      (r >>= fun first => (first ++ ·) <$> t) := by
  funext depth
  rw [map_apply]
  cases hq : (q depth).2.result with
  | error e =>
    have hfirst : (r depth).2.result = .error e := by
      rw [hr, map_apply, Trace.result_map, hq]
      rfl
    rw [bind_apply_of_error hq, bind_apply_of_error hfirst, hr]
    rfl
  | ok first =>
    have hfirst : (r depth).2.result = .ok (Piece.joined autoescape first) := by
      rw [hr, map_apply, Trace.result_map, hq]
      rfl
    rw [bind_apply_of_ok hq, bind_apply_of_ok hfirst, hr, ht]
    simp only [map_apply, Trace.events_map, Trace.result_map]
    cases (p (q depth).1).2.result with
    | error e => rfl
    | ok others =>
      show (_, (⟨_, .ok (_ ++ _)⟩ : Trace RenderFailure String)) =
        (_, ⟨_, .ok (Piece.joined autoescape (first ++ others))⟩)
      rw [Piece.joined_append]

theorem image_gather {body : Value → Render (List Piece)} {write : Value → Render String}
    {items : List Value}
    (h : ∀ v ∈ items, Image (Piece.joined autoescape) (body v) (write v)) :
    Image (Piece.joined autoescape) (gather body items) (forEach write items) := by
  induction items with
  | nil => exact image_pure rfl
  | cons v rest ih =>
    exact image_append (h v (List.mem_cons_self ..))
      (ih fun u hu => h u (List.mem_cons_of_mem v hu))

end Render

/-! ## Pieces of a tree -/

namespace Node

mutual

def pieces (filters : Registry) (limit : Int) (room : Nat) (s : Scope) : Node → Render (List Piece)
  | .text t => pure [.literal t.contents]
  | .output t p => Render.tagged t do
    let v ← p.run filters s
    let written ← Render.ofValueTrace (Trace.ofExcept v.output)
    return [.data written.text]
  | .loop t name items body => Render.tagged t do
    let v ← Render.ofValueTrace (items.eval s)
    match v.elements? with
    | none => return []
    | some elements =>
      Render.nested limit ((Node.loop t name items body).quoted? room)
        (Render.gather (fun item => piecesOf filters limit room (s.push name item) body) elements)
  | .choice t arms =>
    Render.tagged t (piecesOfArms filters limit room s ((Node.choice t arms).quoted? room) arms)

def piecesOf (filters : Registry) (limit : Int) (room : Nat) (s : Scope) :
    List Node → Render (List Piece)
  | [] => pure []
  | n :: rest => do
    let first ← pieces filters limit room s n
    (first ++ ·) <$> piecesOf filters limit room s rest

def piecesOfArms (filters : Registry) (limit : Int) (room : Nat) (s : Scope)
    (block : Option String) : List Arm → Render (List Piece)
  | [] => pure []
  | .mk none body :: _ => Render.nested limit block (piecesOf filters limit room s body)
  | .mk (some condition) body :: rest => do
    let taken ← Render.ofValueTrace do (← condition.eval s).truth
    if taken then Render.nested limit block (piecesOf filters limit room s body)
    else piecesOfArms filters limit room s block rest

end

end Node

/-! ## Values that pipelines end with -/

namespace Pipeline

variable {safe : String} {filters : Registry} {s : Scope}

theorem applyStage_everywhere (hfilters : Filter.UnmarkingBut safe filters) {stage : Stage}
    (hstage : stage.name ≠ safe) {v result : Value} (hv : v.Everywhere Value.Unmarked)
    (h : (applyStage filters s v stage).Gives result) : result.Everywhere Value.Unmarked := by
  rw [applyStage] at h
  cases hf : filters.get? stage.name with
  | none =>
    rw [hf] at h
    obtain ⟨_, -, h⟩ := h.of_bind
    rw [← h.of_pure]
    exact hv
  | some f =>
    rw [hf] at h
    obtain ⟨arguments, -, h⟩ := h.of_bind
    cases hresult : f.apply v arguments with
    | error cause =>
      rw [hresult] at h
      obtain ⟨depth, h⟩ := h
      cases h
    | ok w =>
      rw [hresult] at h
      rw [← h.of_pure]
      exact (hfilters stage.name f hf hstage).apply hv hresult

/-- A pipeline without the filter that marks text as safe ends with an unmarked value. -/
theorem run_everywhere (hfilters : Filter.UnmarkingBut safe filters)
    (hs : s.Everywhere Value.Unmarked) {p : Pipeline} (hp : ∀ stage ∈ p.stages, stage.name ≠ safe)
    {result : Value} (h : (p.run filters s).Gives result) :
    result.Everywhere Value.Unmarked := by
  have stages : ∀ (stages : List Stage) (v : Value), (∀ stage ∈ stages, stage.name ≠ safe) →
      v.Everywhere Value.Unmarked → (stages.foldlM (applyStage filters s) v).Gives result →
      result.Everywhere Value.Unmarked := by
    intro stages
    induction stages with
    | nil =>
      intro v _ hv h
      rw [← h.of_pure]
      exact hv
    | cons stage rest ih =>
      intro v hnames hv h
      obtain ⟨w, hw, h⟩ := h.of_bind
      exact ih w (fun other hother => hnames other (List.mem_cons_of_mem stage hother))
        (applyStage_everywhere hfilters (hnames stage (List.mem_cons_self ..)) hv hw) h
  obtain ⟨v, hv, h⟩ := h.of_bind
  have hsubject : Expr.outcome s p.subject = .ok v := hv.of_ofValueTrace
  exact stages p.stages v hp (Expr.outcome_everywhere Expr.kept_unmarked hs hsubject) h

end Pipeline

/-! ## Rendering from pieces -/

/-- The output of an unmarked value is its piece. -/
theorem Value.write_image {v : Value} (autoescape : Bool) (hv : v.Unmarked) :
    Render.Image (Piece.joined autoescape)
      (Render.ofValueTrace (Trace.ofExcept v.output) >>= fun t => pure [.data t.text])
      (v.write autoescape) := by
  refine Render.image_bind fun t ht => Render.image_pure ?_
  have hsafe : t.safe = false := hv.output ht.of_ofValueTrace
  rw [Piece.joined_singleton, Piece.written, Marked.escaped, hsafe]
  rfl

namespace Node

def Avoid (name : String) (nodes : List Node) : Prop :=
  ∀ t p, .output t p ∈ nodes → ∀ stage ∈ p.stages, stage.name ≠ name

theorem Avoid.of_subset {name : String} {a b : List Node} (h : Avoid name b) (hab : a ⊆ b) :
    Avoid name a :=
  fun t p hmem => h t p (hab hmem)

section

variable {safe : String} {g : Setting}

mutual

/-- The text of a node is that of its pieces. -/
theorem render_image (hfilters : Filter.UnmarkingBut safe g.filters) {s : Scope}
    (hs : s.Everywhere Value.Unmarked) (n : Node) (hn : Avoid safe (all n)) :
    Render.Image (Piece.joined g.autoescape) (pieces g.filters g.maxDepth g.room s n)
      (render g s n) := by
  match n with
  | .text t =>
    rw [pieces, render]
    exact Render.image_pure (Piece.joined_singleton g.autoescape (.literal t.contents)).symm
  | .output t p =>
    rw [pieces, render]
    refine Render.image_tagged t (Render.image_bind fun v hv => ?_)
    have hp := hn t p (by rw [all]; exact List.mem_singleton_self _)
    exact Value.write_image _ (Pipeline.run_everywhere hfilters hs hp hv).self
  | .loop t name items body =>
    rw [pieces, render]
    refine Render.image_tagged t (Render.image_bind fun v hv => ?_)
    have houtcome : Expr.outcome s items = .ok v := hv.of_ofValueTrace
    -- The items lie in a value of the scope, so the scope of the body is unmarked as well.
    have heverywhere := Expr.outcome_everywhere Expr.kept_unmarked hs houtcome
    have hbody : Avoid safe (allOf body) :=
      hn.of_subset (by rw [all]; exact List.subset_cons_self ..)
    cases helements : v.elements? with
    | none => exact Render.image_pure rfl
    | some elements =>
      refine Render.image_nested _ _ (Render.image_gather fun item hitem => ?_)
      have hpush : (s.push name item).Everywhere Value.Unmarked :=
        hs.push (heverywhere.of_mem_elements helements hitem)
      exact renderAll_image hfilters hpush body hbody
  | .choice t arms =>
    rw [pieces, render]
    have harms : Avoid safe (allOfArms arms) :=
      hn.of_subset (by rw [all]; exact List.subset_cons_self ..)
    exact Render.image_tagged t (renderArms_image hfilters hs _ arms harms)

theorem renderAll_image (hfilters : Filter.UnmarkingBut safe g.filters) {s : Scope}
    (hs : s.Everywhere Value.Unmarked) (nodes : List Node) (hnodes : Avoid safe (allOf nodes)) :
    Render.Image (Piece.joined g.autoescape) (piecesOf g.filters g.maxDepth g.room s nodes)
      (renderAll g s nodes) := by
  match nodes with
  | [] =>
    rw [piecesOf, renderAll]
    exact Render.image_pure rfl
  | n :: rest =>
    rw [piecesOf, renderAll]
    rw [allOf] at hnodes
    exact Render.image_append
      (render_image hfilters hs n (hnodes.of_subset (List.subset_append_left ..)))
      (renderAll_image hfilters hs rest (hnodes.of_subset (List.subset_append_right ..)))

theorem renderArms_image (hfilters : Filter.UnmarkingBut safe g.filters) {s : Scope}
    (hs : s.Everywhere Value.Unmarked) (block : Option String) (arms : List Arm)
    (harms : Avoid safe (allOfArms arms)) :
    Render.Image (Piece.joined g.autoescape) (piecesOfArms g.filters g.maxDepth g.room s block arms)
      (renderArms g s block arms) := by
  match arms with
  | [] =>
    rw [piecesOfArms, renderArms]
    exact Render.image_pure rfl
  | .mk none body :: rest =>
    rw [piecesOfArms, renderArms]
    rw [allOfArms] at harms
    exact Render.image_nested _ _
      (renderAll_image hfilters hs body (harms.of_subset (List.subset_append_left ..)))
  | .mk (some condition) body :: rest =>
    rw [piecesOfArms, renderArms]
    rw [allOfArms] at harms
    refine Render.image_bind fun taken _ => ?_
    cases taken with
    | true =>
      exact Render.image_nested _ _
        (renderAll_image hfilters hs body (harms.of_subset (List.subset_append_left ..)))
    | false =>
      exact renderArms_image hfilters hs block rest
        (harms.of_subset (List.subset_append_right ..))

end

end

end Node

namespace Template

def withAutoescape (t : Template) (on : Bool) : Template :=
  { t with setting := { t.setting with autoescape := on } }

def pieces (t : Template) (context : Value) : Trace RenderError (List Piece) :=
  match Scope.ofValue context with
  | .error e => .fail (.notAMap e)
  | .ok s =>
    let (_, r) := Node.piecesOf t.setting.filters t.setting.maxDepth t.setting.room s t.nodes 0
    ⟨r.events, r.result.mapError fun f => .failed (t.reportRender f)⟩

theorem render_eq_joined {t : Template} {context : Value} {safe : String}
    (hfilters : Filter.UnmarkingBut safe t.setting.filters)
    (hcontext : context.Everywhere Value.Unmarked)
    (hnodes : Node.Avoid safe (Node.allOf t.nodes)) :
    t.render context = Piece.joined t.setting.autoescape <$> t.pieces context := by
  rw [render, pieces]
  cases hs : Scope.ofValue context with
  | error e => rfl
  | ok s =>
    have himage := Node.renderAll_image hfilters (Scope.everywhere_ofValue hcontext hs) t.nodes
      hnodes
    dsimp only
    rw [renderIn, himage, Render.map_apply]
    rcases Node.piecesOf t.setting.filters t.setting.maxDepth t.setting.room s t.nodes 0 with
      ⟨after, events, _ | parts⟩
    · rfl
    · rfl

/-- With the standard filters, where no stage marks text as safe and no text of the context is
marked, rendering writes the pieces of a template one after another.  If output is made safe,
each output of a value is escaped once, and the escaped text holds no markup; otherwise it is
written as it is.  The text of the template is the same both times. -/
theorem render_escapes_data (t : Template) (context : Value)
    (hfilters : t.setting.filters = Filter.standard)
    (hcontext : context.Everywhere Value.Unmarked)
    (hnodes : ∀ token p, .output token p ∈ Node.allOf t.nodes →
      ∀ stage ∈ p.stages, stage.name ≠ "safe") :
    (t.withAutoescape true).render context = Piece.joined true <$> t.pieces context ∧
    (t.withAutoescape false).render context = Piece.joined false <$> t.pieces context ∧
    ∀ s : String, Html.Inert (Html.escape s).toList := by
  have hunmarking : Filter.UnmarkingBut "safe" t.setting.filters := by
    rw [hfilters]
    exact Filter.unmarkingBut_standard
  have hrender : ∀ on, (t.withAutoescape on).render context =
      Piece.joined on <$> (t.withAutoescape on).pieces context :=
    fun on => render_eq_joined (t := t.withAutoescape on) hunmarking hcontext hnodes
  exact ⟨hrender true, hrender false, Html.inert_escape⟩

/-- Two texts written from inside a loop and a choice. -/
theorem render_escapes_items :
    let tag : Token := ⟨.block, "", 1, none⟩
    let item : Expr := .path (.single "item")
    let body := [Node.choice tag [.mk (some item) [.output tag ⟨"item", item, []⟩]]]
    let loop := Node.loop tag "item" (.path (.single "items")) body
    let t : Template := ⟨none, "", [loop], ⟨Filter.standard, true, 32, 9⟩, false⟩
    let context : Value := .map [("items", .list [.ofString "<b>", .ofString "&lt;"])]
    ((t.withAutoescape true).render context).result = .ok "&lt;b&gt;&amp;lt;" := by
  intro tag item body loop t context
  have hcontext : context.Everywhere Value.Unmarked := by
    refine Value.everywhere_map (by rintro _ ⟨⟩) ?_
    intro row hrow
    obtain rfl := List.mem_singleton.mp hrow
    refine Value.everywhere_list (by rintro _ ⟨⟩) ?_
    intro v hv
    simp only [List.mem_cons, List.not_mem_nil, or_false] at hv
    rcases hv with rfl | rfl
    · exact Value.everywhere_text (Value.unmarked_ofString _)
    · exact Value.everywhere_text (Value.unmarked_ofString _)
  have hnodes : ∀ token p, .output token p ∈ Node.allOf t.nodes →
      ∀ stage ∈ p.stages, stage.name ≠ "safe" := by
    intro token p hmem
    simp [t, loop, body, Node.allOf, Node.all, Node.allOfArms] at hmem
    simp [hmem]
  rw [(render_escapes_data t context rfl hcontext hnodes).1]
  rfl

end Template
end Quill
