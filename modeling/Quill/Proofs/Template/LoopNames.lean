import Quill.Proofs.Expr.Accepting
import Quill.Proofs.Expr.Shapes
import Quill.Proofs.Pipeline.Stages
import Quill.Proofs.Template.Unrolling

/-!
Loops whose body is the name of the loop.

Any name that is read as one in the head of a loop can be written in the body, and there it means
the item that the loop has come to, whatever it means outside.  Three names are words that stand
for literals, though.  The head of a loop takes them as names, but in the body they are literals
still, and the items cannot be reached.
-/

namespace Quill

open Text

/-! ## Names as expressions -/

namespace Lexeme

/-- A name is one lexeme. -/
theorem scanFrom_name {name : List Char} (h : Identifier name) :
    scanFrom 0 0 name = .ok [⟨.name, String.ofList name, 0⟩, ⟨.eof, "", name.length⟩] := by
  obtain ⟨⟨c, hc, hstart⟩, hword⟩ := h
  obtain ⟨rest, rfl⟩ := List.head?_eq_some_iff.mp hc
  have hshape : Shape .name (c :: rest) :=
    .name hstart fun d hd => hword d (List.mem_cons_of_mem c hd)
  rw [hshape.scan, Nat.zero_add]

end Lexeme

namespace Expr

/-- What a name is as an expression: a literal if it is the word of one, and else a path. -/
def ofName (name : String) : Expr :=
  match Literal.ofWord? name with
  | some l => .literal l
  | none => .path (.single name)

theorem parse_name {name : String} (h : Identifier name.toList) :
    parse name = .ok (ofName name) := by
  have hscan := Lexeme.scanFrom_name h
  rw [String.ofList_toList] at hscan
  have hspells : Spells Operator.levels [⟨.name, name, 0⟩] (ofName name) 0 := by
    rw [ofName]
    cases hword : Literal.ofWord? name with
    | some l => exact .word rfl hword
    | none => exact .path rfl hword .nil
  exact parse_of_lexeme (lexemesOf_eq_ok_iff.mpr hscan) rfl (fun hnumber => nomatch hnumber) hspells

/-- The name that was bound last means what it was bound to, unless it is the word of a literal. -/
theorem eval_ofName (s : Scope) (name : String) (item : Value) :
    ((ofName name).eval (s.push name item)).result =
      .ok (((Literal.ofWord? name).map Literal.value).getD item) := by
  rw [ofName]
  cases Literal.ofWord? name with
  | some l => rfl
  | none =>
    have hfound : (s.push name item).resolve? (.single name) = some item := by
      rw [Scope.resolve?, Path.single, List.foldl_nil, Scope.get?_push, if_pos rfl]
    dsimp only
    rw [eval_path, Path.find, hfound]
    rfl

end Expr

/-! ## The output tag of a name -/

namespace Token

theorem closing_of_not_mem {c : Char} {cs : List Char} (h : c ∉ cs) :
    closing? c (cs ++ [c, '}']) = some (cs.length + 2) := by
  induction cs with
  | nil => simp [closing?]
  | cons a rest ih =>
    have hne : a ≠ c := fun heq => h (heq ▸ List.mem_cons_self)
    have hrest := ih fun hmem => h (List.mem_cons_of_mem a hmem)
    cases rest with
    | nil => simp [closing?, hne]
    | cons b rest =>
      rw [List.cons_append, List.cons_append, closing?, ← List.cons_append, hrest]
      simp [hne]

def nameTag (name : List Char) : List Char := '{' :: '{' :: ' ' :: (name ++ [' ']) ++ ['}', '}']

theorem tagLength_nameTag {name : List Char} (h : ∀ c ∈ name, isWord c = true) :
    tagLength? (nameTag name) = some (nameTag name).length := by
  have hclosing : closing? '}' (name ++ [' '] ++ ['}', '}']) =
      some ((name ++ [' ']).length + 2) := by
    refine closing_of_not_mem fun hmem => ?_
    rcases List.mem_append.mp hmem with hmem | hmem
    · exact absurd (h '}' hmem) (by decide)
    · exact absurd hmem (by decide)
  show (closing? '}' (name ++ [' '] ++ ['}', '}'])).map (· + 3) = _
  rw [hclosing]
  simp [nameTag]

theorem contents_nameTag {name : List Char} (h : Identifier name) (line : Nat)
    (span : Option Span) :
    ofTag (nameTag name) line span = ⟨.output, String.ofList name, line, span⟩ := by
  have hinside : inside (nameTag name) = name := by
    have htrim : trim ([' '] ++ (name ++ [' '])) = name := by
      refine trim_between isBlank_of_mem_singleton isBlank_of_mem_singleton (h.flush_append _) ?_
      intro c hc
      exact Pipeline.isBlank_of_isWord (h.2 c (List.mem_reverse.mp (List.mem_of_head? hc)))
    rw [inside, nameTag]
    show trim ((' ' :: (name ++ [' ']) ++ ['}', '}']).take _) = name
    rw [List.take_append_of_le_length (by simp), List.take_of_length_le (by simp)]
    exact htrim
  rw [ofTag, hinside]
  rfl

theorem tokens_nameTag (located : Bool) {name : List Char} (h : Identifier name) :
    ∃ line span, tokens located (String.ofList (nameTag name)) =
      [⟨.output, String.ofList name, line, span⟩] := by
  have hlocate := locate_tag_append (tagLength_nameTag h.2) []
  rw [List.append_nil, contents_nameTag h] at hlocate
  have hnone : locate (String.ofList []) = [] := rfl
  rw [hnone, List.map_nil] at hlocate
  cases located with
  | true => exact ⟨_, _, hlocate⟩
  | false =>
    refine ⟨1, none, ?_⟩
    show lex _ = _
    rw [lex_eq_unplaced, hlocate]
    rfl

theorem opensNoBlock_nameTag {name : List Char} (h : ∀ c ∈ name, isWord c = true) :
    OpensNoBlock (nameTag name) := by
  have hspans : tagSpans (nameTag name) = [⟨0, (nameTag name).length⟩] := by
    have hone := matchesFrom_tag (tagLength_nameTag h) 0
    rwa [Nat.zero_add] at hone
  intro place houtside hopen
  have hinside := houtside ⟨0, (nameTag name).length⟩ (by rw [hspans]; exact List.mem_cons_self)
  have hlength := hopen.length_le
  rw [List.length_drop] at hlength
  simp only [List.length_cons, List.length_nil] at hlength hinside
  omega

end Token

theorem Pipeline.read_name {name : String} (h : Identifier name.toList) :
    Pipeline.read name = .ok ⟨name, Expr.ofName name, []⟩ := by
  have hparts : Pipeline.partsFrom none 0 [] name.toList = [name.toList] := by
    have hpasses := Pipeline.passes_word h.2 0 [] []
    rw [List.append_nil, List.append_nil] at hpasses
    rw [hpasses, Pipeline.partsFrom, List.reverse_reverse]
  have hsplit : Pipeline.split name = [name] := by
    rw [Pipeline.split, hparts, List.map_singleton, Pipeline.trim_name h.2, String.ofList_toList]
  have hfull : ¬ name.isEmpty = true := by
    rw [String.isEmpty_iff]
    rintro rfl
    obtain ⟨⟨c, hc, -⟩, -⟩ := h
    cases hc
  rw [Pipeline.read, hsplit]
  dsimp only
  rw [if_neg hfull, Expr.parse_name h]
  rfl

/-! ## The loop -/

namespace Node

open Render

/-- The output tag of an expression gives the text of its value. -/
theorem result_render_output {g : Setting} {s : Scope} {t : Token} {source : String} {e : Expr}
    {v : Value} (hv : (e.eval s).result = .ok v) (depth : Nat) (out : String) :
    (render g s (.output t ⟨source, e, []⟩) depth).2.result = .ok out ↔
      ∃ m, v.output = .ok m ∧ out = if g.autoescape then m.escaped else m.text := by
  have hrun : (Pipeline.run g.filters s ⟨source, e, []⟩ depth).2.result = .ok v := by
    rw [Pipeline.run, result_bind_eq_ok]
    refine ⟨v, Outcome.mapError_eq_ok.mpr hv, ?_⟩
    rw [List.foldlM_nil]
    rfl
  rw [render, result_tagged_eq_ok, result_bind_eq_ok]
  constructor
  · rintro ⟨v', hv', hwrite⟩
    cases hrun.symm.trans hv'
    rw [Value.write, result_bind_eq_ok] at hwrite
    obtain ⟨m, hm, hout⟩ := hwrite
    cases hout
    exact ⟨m, Outcome.mapError_eq_ok.mp hm, rfl⟩
  · rintro ⟨m, hm, rfl⟩
    refine ⟨v, hrun, ?_⟩
    rw [Value.write, result_bind_eq_ok]
    exact ⟨m, Outcome.mapError_eq_ok.mpr hm, rfl⟩

end Node

namespace Template

def namedLoop (name : String) : String := loopSource name "xs" ("\x7b\x7b " ++ name ++ " \x7d\x7d")

theorem compile_namedLoop {name : String} (hname : Identifier name.toList) (g : Setting)
    (located : Bool) (nm : Option String) :
    ∃ first t, compile g located nm (namedLoop name) = .ok ⟨nm, namedLoop name,
      [.loop first name (.path (.single "xs")) [.output t ⟨name, Expr.ofName name, []⟩]], g,
        located⟩ := by
  have hbody : "\x7b\x7b " ++ name ++ " \x7d\x7d" =
      String.ofList (Token.nameTag name.toList) := by
    have hopen : "\x7b\x7b ".toList = ['{', '{', ' '] := rfl
    have hclose : " \x7d\x7d".toList = [' ', '}', '}'] := rfl
    apply String.toList_injective
    simp [String.toList_append, hopen, hclose, Token.nameTag]
  obtain ⟨line, span, htokens⟩ := Token.tokens_nameTag located hname
  rw [String.ofList_toList] at htokens
  have hcompile : compile g located nm (String.ofList (Token.nameTag name.toList)) =
      .ok ⟨nm, String.ofList (Token.nameTag name.toList),
        [.output ⟨.output, name, line, span⟩ ⟨name, Expr.ofName name, []⟩], g, located⟩ := by
    refine compile_eq_ok_iff.mpr ⟨_, ?_, rfl⟩
    rw [htokens]
    exact .output ⟨rfl, Pipeline.read_name hname⟩ .nil
  have hopens := Token.opensNoBlock_nameTag hname.2
  rw [← String.toList_ofList (l := Token.nameTag name.toList)] at hopens
  have hitems : Expr.parse "xs" = .ok (.path (.single "xs")) := rfl
  obtain ⟨f, first, -, hloop⟩ :=
    compile_loopSource hcompile hopens hname hitems (by decide) g nm
  rw [namedLoop, hbody]
  exact ⟨first, _, hloop⟩

/-- A loop over `xs` with its own name as its body, where output is made safe and one block may
enclose another.  A name that is no word of a literal is the item each time, so that the loop gives
the escaped texts of the items in their order, and it fails exactly when one of them has none.  The
word of a literal is that literal each time, whatever the items are. -/
theorem render_namedLoop {g : Setting} (hescape : g.autoescape = true) (hdepth : 1 ≤ g.maxDepth)
    {name : String} (hname : Identifier name.toList) (located : Bool) (nm : Option String) :
    ∃ t, compile g located nm (namedLoop name) = .ok t ∧
      ∀ (c : Assoc Value) (v : Value) (elements : List Value),
        Assoc.get? "xs" c = some v → v.elements? = some elements →
        (Literal.ofWord? name = none → ∀ out, (t.render (.map c)).result = .ok out ↔
          ∃ outs, List.Forall₂ (fun item o => ∃ m, item.output = .ok m ∧ o = m.escaped)
              elements outs ∧ out = String.join outs) ∧
        (∀ l, Literal.ofWord? name = some l → ∃ m, l.value.output = .ok m ∧
          (t.render (.map c)).result = .ok (String.join (elements.map fun _ => m.escaped))) := by
  obtain ⟨first, t, hcompile⟩ := compile_namedLoop hname g located nm
  refine ⟨_, hcompile, fun c v elements hv helements => ?_⟩
  have hitems : ((Expr.path (.single "xs")).eval ⟨[], c⟩).result = .ok v := by
    have hfound : (Scope.mk [] c).resolve? (.single "xs") = some v := hv
    rw [Expr.eval_path, Path.find, hfound]
    rfl
  -- For each item the body gives the text of what the name means there.
  have hrender : ∀ out, (Template.render ⟨nm, namedLoop name, [.loop first name
      (.path (.single "xs")) [.output t ⟨name, Expr.ofName name, []⟩]], g, located⟩
        (.map c)).result = .ok out ↔
      ∃ outs, List.Forall₂ (fun item o => ∃ m,
          (((Literal.ofWord? name).map Literal.value).getD item).output = .ok m ∧ o = m.escaped)
        elements outs ∧ out = String.join outs := by
    intro out
    have henter : ((0 : Nat) : Int) < g.maxDepth := by
      rw [Int.natCast_zero]
      omega
    rw [render_map_eq_ok_iff, Node.result_renderAll_singleton,
      Node.result_render_loop hitems helements henter, Render.forEach_eq_ok_iff]
    · simp only [Node.result_renderAll_singleton,
        Node.result_render_output (Expr.eval_ofName ⟨[], c⟩ name _), hescape, if_true]
    · exact fun item => Node.level_renderAll _ _ _
  constructor
  · intro hword out
    simpa only [hword, Option.map_none, Option.getD_none] using hrender out
  · intro l hword
    simp only [hword, Option.map_some, Option.getD_some] at hrender
    obtain ⟨m, hm⟩ : ∃ m, l.value.output = .ok m := by
      rw [Literal.ofWord?] at hword
      split at hword
      · cases hword
        exact ⟨_, rfl⟩
      split at hword
      · cases hword
        exact ⟨_, rfl⟩
      split at hword
      · cases hword
        exact ⟨_, rfl⟩
      · cases hword
    refine ⟨m, hm, (hrender _).mpr ⟨elements.map fun _ => m.escaped, ?_, rfl⟩⟩
    rw [List.forall₂_map_right_iff]
    exact List.forall₂_same.mpr fun item _ => ⟨m, hm, rfl⟩

/-- The loop goes through two items and shows neither. -/
theorem render_namedLoop_true :
    ∃ t, compile ⟨[], true, 1, 9⟩ false none "{% for true in xs %}{{ true }}{% endfor %}" = .ok t ∧
      (t.render (.map [("xs", .list [.ofString "a", .ofString "b"])])).result = .ok "truetrue" := by
  have hword : "true".toList.all isWord = true := by decide
  have hname : Identifier "true".toList := ⟨⟨'t', rfl, rfl⟩, List.all_eq_true.mp hword⟩
  obtain ⟨t, ht, hrender⟩ := render_namedLoop (g := ⟨[], true, 1, 9⟩) rfl (by decide) hname false none
  obtain ⟨m, hm, hresult⟩ := (hrender [("xs", .list [.ofString "a", .ofString "b"])] _ _ rfl rfl).2
    (.bool true) rfl
  cases hm
  exact ⟨t, ht, hresult⟩

end Template
end Quill
