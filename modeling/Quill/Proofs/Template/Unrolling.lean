import Mathlib.Data.List.Forall2
import Quill.Proofs.Expr.Spacing
import Quill.Proofs.Template.Building
import Quill.Proofs.Template.FreeNames
import Quill.Proofs.Template.Renderings
import Quill.Proofs.Template.Seams

/-!
Loops, unrolled.

A template between the tags of a loop is a template, if no block tag is opened in its literal text.
What the loop gives is what the template gives on its own, once for each item, with the item
written into the map under the name of the loop.
-/

namespace Quill

open Text

/-! ## The tags of a loop -/

namespace Token

def loopInside (name items : List Char) : List Char :=
  ' ' :: ("for ".toList ++ name ++ " in ".toList) ++ (items ++ [' '])

def loopTag (name items : List Char) : List Char :=
  '{' :: '%' :: (loopInside name items ++ ['%', '}'])

/-- A block tag with no close in it ends where it is closed. -/
theorem tagLength_block {inner : List Char} (h : closing? '%' inner = none) (c : Char) :
    tagLength? ('{' :: '%' :: (c :: inner ++ ['%', '}'])) =
      some ('{' :: '%' :: (c :: inner ++ ['%', '}'])).length := by
  have hclose := closing_append_close h (by decide)
  show (closing? '%' (inner ++ ['%', '}'])).map (· + 3) = _
  rw [hclose]
  simp

theorem tagLength_loopTag {name items : List Char} (hname : Identifier name)
    (hitems : ¬ ['%', '}'] <:+: items) :
    tagLength? (loopTag name items) = some (loopTag name items).length := by
  have hfront : '%' ∉ "for ".toList ++ name ++ " in ".toList := by
    intro hmem
    rw [List.mem_append, List.mem_append] at hmem
    rcases hmem with (hmem | hmem) | hmem
    · exact absurd hmem (by decide)
    · exact absurd (hname.2 '%' hmem) (by decide)
    · exact absurd hmem (by decide)
  have hfront' : closing? '%' ("for ".toList ++ name ++ " in ".toList) = none :=
    closing_of_not_isInfix fun hpart => hfront (hpart.subset List.mem_cons_self)
  have hback : closing? '%' (items ++ [' ']) = none :=
    closing_append_eq_none (closing_of_not_isInfix hitems) rfl fun _ => by decide
  refine tagLength_block (closing_append_eq_none hfront' hback fun hlast => ?_) ' '
  exact absurd (List.mem_of_getLast? hlast) hfront

theorem isBlank_of_mem_singleton : ∀ c ∈ [' '], isBlank c = true :=
  List.forall_mem_singleton.mpr rfl

theorem inside_block (inner : List Char) :
    inside ('{' :: '%' :: (inner ++ ['%', '}'])) = trim inner := by
  show trim ((inner ++ ['%', '}']).take ((inner ++ ['%', '}']).length + 2 - 4)) = trim inner
  rw [List.length_append, List.take_append_of_le_length (by simp), List.take_of_length_le (by simp)]

/-- Inside the tag that opens a loop stand its words, when the white space at both ends is left
out. -/
theorem trim_loopInside (name : List Char) {items : List Char} (hitems : trim items ≠ []) :
    ∃ lead, (∀ c ∈ lead, isBlank c = true) ∧ trim (loopInside name items) =
      "for ".toList ++ (name ++ (" in ".toList ++ (lead ++ trim items))) := by
  obtain ⟨lead, trail, htext, hlead, htrail, -⟩ := exists_trim items
  refine ⟨lead, hlead, ?_⟩
  have hinside : loopInside name items = [' '] ++
      (("for ".toList ++ (name ++ (" in ".toList ++ (lead ++ trim items)))) ++ (trail ++ [' '])) :=
    calc loopInside name items
        = loopInside name (lead ++ (trim items ++ trail)) := congrArg (loopInside name) htext
      _ = _ := by simp [loopInside]
  have htrail' : ∀ c ∈ trail ++ [' '], isBlank c = true := by
    intro c hc
    rcases List.mem_append.mp hc with hc | hc
    · exact htrail c hc
    · exact isBlank_of_mem_singleton c hc
  rw [hinside]
  refine trim_between isBlank_of_mem_singleton htrail' ?_ ?_
  · intro c hc
    obtain rfl : 'f' = c := Option.some.inj hc
    rfl
  · intro c hc
    simp only [List.reverse_append, List.append_assoc, List.head?_append] at hc
    refine flush_reverse_trim items c ?_
    cases hlast : (trim items).reverse.head? with
    | none => exact absurd (List.head?_eq_none_iff.mp hlast) (by simpa using hitems)
    | some d => simpa [hlast] using hc

/-- The tag that opens a loop holds a name and an expression, white space around it passed over. -/
theorem isLoop_loopTag {name items : String} {e : Expr} (hname : Identifier name.toList)
    (hitems : Expr.parse items = .ok e) (line : Nat) (span : Option Span) :
    (ofTag (loopTag name.toList items.toList) line span).IsLoop name e := by
  have hparse : Expr.parse (String.ofList (trim items.toList)) = .ok e := Expr.parse_trimmed hitems
  have hne : trim items.toList ≠ [] := by
    intro h
    rw [h] at hparse
    exact parse_empty_ne_ok e hparse
  have hflush : Flush (trim items.toList) := flush_of_trim (trim_trim _)
  obtain ⟨lead, hlead, htrim⟩ := trim_loopInside name.toList hne
  have hcontents : (ofTag (loopTag name.toList items.toList) line span).contents.toList =
      "for ".toList ++ (name.toList ++ (" in ".toList ++ (lead ++ trim items.toList))) := by
    show (String.ofList (inside _)).toList = _
    rw [String.toList_ofList, loopTag, inside_block, htrim]
  refine ⟨rfl, name.toList ++ (" in ".toList ++ (lead ++ trim items.toList)),
    "in ".toList ++ (lead ++ trim items.toList), trim items.toList, ?_, hname, ?_, ?_, hparse⟩
  · rw [hcontents]
    exact ⟨[' '], by simp, isBlank_of_mem_singleton, hname.flush_append _, rfl⟩
  · refine ⟨[' '], by simp, isBlank_of_mem_singleton, ?_, rfl⟩
    intro c hc
    obtain rfl : 'i' = c := Option.some.inj hc
    rfl
  · exact ⟨' ' :: lead, by simp, List.forall_mem_cons.mpr ⟨rfl, hlead⟩, hflush, rfl⟩

theorem isBare_endTag (line : Nat) (span : Option Span) :
    (ofTag endTag line span).IsBare "endfor" := by
  refine ⟨rfl, ?_⟩
  show String.ofList (inside endTag) = "endfor"
  have h : inside endTag = "endfor".toList := by decide
  rw [h, String.ofList_toList]

end Token

/-! ## What a loop gives -/

namespace Render

/-- A loop has a result when its body has one for each item, and joins them. -/
theorem forEach_eq_ok_iff {body : Value → Render String} {depth : Nat}
    (hlevel : ∀ item, (body item depth).1 = depth) {items : List Value} {out : String} :
    (forEach body items depth).2.result = .ok out ↔
      ∃ outs, List.Forall₂ (fun item o => (body item depth).2.result = .ok o) items outs ∧
        out = String.join outs := by
  induction items generalizing out with
  | nil =>
    constructor
    · intro h
      cases h
      exact ⟨[], .nil, rfl⟩
    · rintro ⟨outs, houts, rfl⟩
      cases houts
      rfl
  | cons item rest ih =>
    rw [forEach, result_bind_eq_ok, hlevel]
    constructor
    · rintro ⟨first, hfirst, hrest⟩
      obtain ⟨others, hothers, rfl⟩ := result_map_eq_ok.mp hrest
      obtain ⟨outs, houts, rfl⟩ := ih.mp hothers
      exact ⟨first :: outs, .cons hfirst houts, String.join_cons.symm⟩
    · rintro ⟨outs, houts, rfl⟩
      cases houts with | @cons _ first _ outs hfirst houts =>
      refine ⟨first, hfirst, result_map_eq_ok.mpr ⟨String.join outs, ih.mpr ⟨outs, houts, rfl⟩, ?_⟩⟩
      exact String.join_cons.symm

end Render

namespace Node

open Render

variable {g : Setting} {s : Scope}

theorem result_renderAll_singleton (n : Node) (depth : Nat) (out : String) :
    (renderAll g s [n] depth).2.result = .ok out ↔ (render g s n depth).2.result = .ok out := by
  rw [renderAll_singleton]

/-- A loop that may be entered gives what its body gives for each element. -/
theorem result_render_loop {t : Token} {name : String} {items : Expr} {body : List Node}
    {v : Value} {elements : List Value} (hitems : (items.eval s).result = .ok v)
    (helements : v.elements? = some elements) {depth : Nat} (hdepth : (depth : Int) < g.maxDepth)
    (out : String) :
    (render g s (.loop t name items body) depth).2.result = .ok out ↔
      (forEach (fun item => renderAll g (s.push name item) body) elements (depth + 1)).2.result =
        .ok out := by
  have hvalue : (ofValueTrace (items.eval s) depth).2.result = .ok v :=
    Outcome.mapError_eq_ok.mpr hitems
  rw [render, result_tagged_eq_ok, bind_apply_of_ok hvalue, helements]
  dsimp only
  rw [← result_nested_of_lt hdepth]
  rfl

end Node

/-! ## Loops as templates -/

namespace Template

def loopSource (name items body : String) : String :=
  "\x7b% for " ++ name ++ " in " ++ items ++ " %\x7d" ++ body ++ "{% endfor %}"

theorem loopSource_eq (name items body : String) :
    loopSource name items body = String.ofList (Token.loopTag name.toList items.toList ++
      (body.toList ++ Token.endTag)) := by
  have hopen : "\x7b% for ".toList = '{' :: '%' :: ' ' :: "for ".toList := rfl
  have hclose : " %\x7d".toList = [' ', '%', '}'] := rfl
  apply String.toList_injective
  unfold loopSource Token.loopTag Token.loopInside Token.endTag
  simp only [String.toList_append, String.toList_ofList, hopen, hclose, List.append_assoc,
    List.cons_append, List.nil_append]

/-- Rendering a template against a map. -/
theorem render_map_eq_ok_iff (t : Template) (c : Assoc Value) (out : String) :
    (t.render (.map c)).result = .ok out ↔
      (Node.renderAll t.setting ⟨[], c⟩ t.nodes 0).2.result = .ok out :=
  Outcome.mapError_eq_ok

/-- A template between the tags of a loop compiles to the loop over it. -/
theorem compile_loopSource {g : Setting} {located : Bool} {nm : Option String} {body : String}
    {t : Template} (ht : compile g located nm body = .ok t)
    (hbody : Token.OpensNoBlock body.toList) {name items : String} {e : Expr}
    (hname : Identifier name.toList) (hitems : Expr.parse items = .ok e)
    (hclose : ¬ ['%', '}'] <:+: items.toList) (g' : Setting) (nm' : Option String) :
    ∃ f first, Token.Keeps f ∧ compile g' located nm' (loopSource name items body) =
      .ok ⟨nm', loopSource name items body, [.loop first name e (Node.mapTokensOf f t.nodes)], g',
        located⟩ := by
  obtain ⟨nodes, hnodes, rfl⟩ := compile_eq_ok_iff.mp ht
  obtain ⟨f, line, span, line', span', hf, htokens⟩ :=
    Token.tokens_loop located (Token.tagLength_loopTag hname hclose) hbody
  rw [String.ofList_toList, ← loopSource_eq] at htokens
  have hhead := Token.isLoop_loopTag hname hitems line span
  have hspells := Spells.loop hhead (hnodes.mapTokens hf) (Token.isBare_endTag line' span') .nil
  rw [List.cons_append, ← htokens] at hspells
  exact ⟨f, _, hf, compile_eq_ok_iff.mpr ⟨_, hspells, rfl⟩⟩

/-- The body of a loop gives for an item what it gives as a template of its own, one block further
out, when the item has been written into the map. -/
theorem result_item {f : Token → Token} (hf : Token.Keeps f) (t : Template) (name : String)
    (c : Assoc Value) (item : Value) (out : String) :
    (Node.renderAll (t.setting.deeper 1) (Scope.push ⟨[], c⟩ name item)
        (Node.mapTokensOf f t.nodes) 1).2.result = .ok out ↔
      (t.render (.map (c.set name item))).result = .ok out := by
  have hagree : Agree (Node.freeNamesOf t.nodes) (Scope.push ⟨[], c⟩ name item).get?
      (Scope.mk [] (c.set name item)).get? := by
    intro other _
    show _ = Assoc.get? other (c.set name item)
    rw [Scope.get?_push, Assoc.get?_set]
    rfl
  have hsame : Node.renderAll t.setting (Scope.push ⟨[], c⟩ name item) t.nodes =
      Node.renderAll t.setting ⟨[], c.set name item⟩ t.nodes :=
    Node.renderAll_congr t.nodes hagree fun _ _ => rfl
  have hmoved : Render.Moved f 1 (Node.renderAll t.setting (Scope.push ⟨[], c⟩ name item) t.nodes)
      (Node.renderAll (t.setting.deeper 1) (Scope.push ⟨[], c⟩ name item)
        (Node.mapTokensOf f t.nodes)) := Node.renderAll_moved hf _ _
  rw [hmoved.result_eq_ok_iff, hsame, render_map_eq_ok_iff]

/-- A template between the tags of a loop, under a limit that lets one more block enclose another,
gives what it gives on its own for each item, joined.  The map that it is given for an item is that
of the loop with the item under the name of the loop.  There is a result exactly when there is one
for every item. -/
theorem render_loopSource_iff {g : Setting} (hdepth : 1 ≤ g.maxDepth) {located : Bool}
    {nm : Option String} {body : String} {t : Template} (ht : compile g located nm body = .ok t)
    (hbody : Token.OpensNoBlock body.toList) {name items : String} {e : Expr}
    (hname : Identifier name.toList) (hitems : Expr.parse items = .ok e)
    (hclose : ¬ ['%', '}'] <:+: items.toList) (nm' : Option String) :
    ∃ u, compile (g.deeper 1) located nm' (loopSource name items body) = .ok u ∧
      ∀ (c : Assoc Value) (v : Value) (elements : List Value),
        (e.eval ⟨[], c⟩).result = .ok v → v.elements? = some elements →
        ∀ out, (u.render (.map c)).result = .ok out ↔
          ∃ outs, List.Forall₂
              (fun item o => (t.render (.map (c.set name item))).result = .ok o) elements outs ∧
            out = String.join outs := by
  obtain ⟨f, first, hf, hu⟩ :=
    compile_loopSource ht hbody hname hitems hclose (g.deeper 1) nm'
  obtain ⟨nodes, -, rfl⟩ := compile_eq_ok_iff.mp ht
  refine ⟨_, hu, fun c v elements hv helements out => ?_⟩
  have henter : ((0 : Nat) : Int) < (g.deeper 1).maxDepth := by
    show (0 : Int) < g.maxDepth + 1
    omega
  rw [render_map_eq_ok_iff, Node.result_renderAll_singleton,
    Node.result_render_loop hv helements henter, Render.forEach_eq_ok_iff]
  · simp only [result_item hf ⟨nm, body, nodes, g, located⟩]
  · intro item
    exact congrArg Prod.fst ((Node.renderAll_moved hf _ nodes).further 0)

/-- A loop over lists whose body goes through each of them under the same name. -/
theorem render_loopSource_nested :
    ∃ u, compile (Setting.deeper ⟨[], false, 1, 9⟩ 1) false none
        (loopSource "x" " x" "{% for x in x %}{{ x }}{% endfor %};") = .ok u ∧
      (u.render (.map [("x", .list [.list [.ofString "a", .ofString "b"], .list []])])).result =
        .ok "ab;;" := by
  have htokens : Token.tokens false "{% for x in x %}{{ x }}{% endfor %};" =
      [⟨.block, "for x in x", 1, none⟩, ⟨.output, "x", 1, none⟩, ⟨.block, "endfor", 1, none⟩,
        ⟨.text, ";", 1, none⟩] := rfl
  have hspans : Token.tagSpans "{% for x in x %}{{ x }}{% endfor %};".toList =
      [⟨0, 16⟩, ⟨16, 23⟩, ⟨23, 35⟩] := rfl
  have ht : compile ⟨[], false, 1, 9⟩ false none "{% for x in x %}{{ x }}{% endfor %};" =
      .ok ⟨none, "{% for x in x %}{{ x }}{% endfor %};", [.loop ⟨.block, "for x in x", 1, none⟩ "x"
        (.path (.single "x")) [.output ⟨.output, "x", 1, none⟩ ⟨"x", .path (.single "x"), []⟩],
        .text ⟨.text, ";", 1, none⟩], ⟨[], false, 1, 9⟩, false⟩ := by
    rw [compile, htokens]
    rfl
  have hbody : Token.OpensNoBlock "{% for x in x %}{{ x }}{% endfor %};".toList := by
    intro place houtside hopen
    have hlength : 2 ≤ 36 - place := by
      have hle := hopen.length_le
      rwa [List.length_drop] at hle
    rw [hspans] at houtside
    simp only [Outside, List.forall_mem_cons] at houtside
    omega
  have hname : Identifier "x".toList := ⟨⟨'x', rfl, rfl⟩, List.forall_mem_singleton.mpr rfl⟩
  have hitems : Expr.parse " x" = .ok (.path (.single "x")) := rfl
  obtain ⟨u, hu, hrender⟩ :=
    render_loopSource_iff (Int.le_refl 1) ht hbody hname hitems (by decide) none
  refine ⟨u, hu, (hrender _ _ _ rfl rfl "ab;;").mpr ⟨["ab;", ";"], ?_, rfl⟩⟩
  exact .cons rfl (.cons rfl .nil)

end Template

end Quill
