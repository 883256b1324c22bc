import Quill.Proofs.Template.Building
import Quill.Proofs.Template.Renderings
import Quill.Proofs.Template.Seams

/-!
Two templates in a row.

If no tag is opened in the literal text of the first template, the tags of the whole are those of
both.  Where the first ends in literal text and the second begins with it, the two texts are one
token of the whole; all other tokens are as they were.  So the whole is a template, and it gives
what the two give, one after the other.
-/

namespace Quill
namespace Token

open Text

/-! ## Tags of two texts -/

/-- Whether no tag is opened in the literal text of `front`, outside of its tags, when `back`
follows it. -/
def OpensNoTag (front back : List Char) : Prop :=
  ∀ place, place < front.length → Outside (tagSpans front) place →
    ¬ ['{', '{'] <+: (front ++ back).drop place ∧ ¬ ['{', '%'] <+: (front ++ back).drop place

theorem shift_tagSpans (k : Nat) (cs : List Char) :
    (tagSpans cs).map (Span.shift k) = matchesFrom tagLength? 0 k cs := by
  rw [tagSpans, matchSpans, ← matchesFrom_shift, Nat.add_zero]

theorem tagSpans_append {front back : List Char} (h : OpensNoTag front back) :
    tagSpans (front ++ back) =
      tagSpans front ++ (tagSpans back).map (Span.shift front.length) := by
  rw [shift_tagSpans, ← Nat.zero_add front.length]
  refine matchesFrom_append tagLength_bounded tagLength_stable (Nat.zero_le _) ?_
  intro place _ hlt houtside
  rw [Nat.zero_add] at houtside
  obtain ⟨houtput, hblock⟩ := h place hlt houtside
  rw [List.drop_append_of_le_length (Nat.le_of_lt hlt)] at houtput hblock
  exact tagLength_of_not_open houtput hblock

/-! ## Tokens of two texts -/

/-- The tokens of two texts in a row, made of those of each.  Literal texts that meet at the seam
become one. -/
inductive Joined : List Token → List Token → List Token → Prop
  | apart (front back : List Token) : Joined front back (front ++ back)
  | met {t u v : Token} (before after : List Token) : t.kind = .text → u.kind = .text →
      v.kind = .text → v.contents = t.contents ++ u.contents →
      Joined (before ++ [t]) (u :: after) (before ++ v :: after)

theorem Joined.append_left {front back whole : List Token} (h : Joined front back whole)
    (more : List Token) : Joined (more ++ front) back (more ++ whole) := by
  cases h with
  | apart =>
    rw [← List.append_assoc]
    exact .apart _ _
  | met before after ht hu hv hcontents =>
    rw [← List.append_assoc, ← List.append_assoc]
    exact .met _ _ ht hu hv hcontents

theorem Joined.append_right {front back whole : List Token} (h : Joined front back whole)
    (more : List Token) : Joined front (back ++ more) (whole ++ more) := by
  cases h with
  | apart =>
    rw [List.append_assoc]
    exact .apart _ _
  | met before after ht hu hv hcontents =>
    rw [List.append_assoc, List.cons_append, List.cons_append]
    exact .met _ _ ht hu hv hcontents

theorem Joined.map {f : Token → Token} (hf : Keeps f) {front back whole : List Token}
    (h : Joined front back whole) : Joined (front.map f) (back.map f) (whole.map f) := by
  cases h with
  | apart =>
    rw [List.map_append]
    exact .apart _ _
  | met before after ht hu hv hcontents =>
    rw [List.map_append, List.map_append, List.map_cons, List.map_cons]
    refine .met _ _ ((hf.kind _).trans ht) ((hf.kind _).trans hu) ((hf.kind _).trans hv) ?_
    rw [hf.contents, hf.contents, hf.contents, hcontents]

def ofGap (cs : List Char) (line : Nat) (s : Span) : List Token :=
  if s.start < s.stop then [ofText (slice cs s) line (some s)] else []

theorem locateFrom_nil {cs : List Char} {upto : Nat} (h : upto ≤ cs.length) (line : Nat) :
    locateFrom cs upto line [] = ofGap cs line ⟨upto, cs.length⟩ := by
  have hslice : slice cs ⟨upto, cs.length⟩ = cs.drop upto := by
    rw [slice, List.take_of_length_le (by simp)]
  have hstop : upto + (cs.drop upto).length = cs.length := by
    rw [List.length_drop]
    omega
  have hempty : (cs.drop upto).isEmpty = true ↔ ¬ upto < cs.length := by
    rw [List.isEmpty_iff_length_eq_zero, List.length_drop]
    omega
  simp only [locateFrom, ofGap, hempty, hslice, hstop, ite_not]

theorem locateFrom_cons (cs : List Char) (upto line : Nat) (s : Span) (rest : List Span) :
    locateFrom cs upto line (s :: rest) = ofGap cs line ⟨upto, s.start⟩ ++
      (ofTag (slice cs s) (line + lineBreaks (slice cs ⟨upto, s.start⟩)) (some s) ::
        locateFrom cs s.stop (line + lineBreaks (slice cs ⟨upto, s.start⟩) +
          lineBreaks (slice cs s)) rest) := by
  rw [locateFrom, ofGap]
  split
  · rfl
  · rfl

theorem lineBreaks_slice {cs : List Char} {start middle stop : Nat} (hstart : start ≤ middle)
    (hstop : middle ≤ stop) : lineBreaks (slice cs ⟨start, stop⟩) =
      lineBreaks (slice cs ⟨start, middle⟩) + lineBreaks (slice cs ⟨middle, stop⟩) := by
  rw [← slice_append_slice hstart hstop, lineBreaks, List.count_append]
  rfl

theorem ofGap_empty (cs : List Char) (line place : Nat) : ofGap cs line ⟨place, place⟩ = [] :=
  if_neg (Nat.lt_irrefl place)

/-- Literal text up to a place and from that place on. -/
theorem ofGap_joined (cs : List Char) {start middle stop : Nat} (hstart : start ≤ middle)
    (hstop : middle ≤ stop) (line : Nat) :
    Joined (ofGap cs line ⟨start, middle⟩)
      (ofGap cs (line + lineBreaks (slice cs ⟨start, middle⟩)) ⟨middle, stop⟩)
      (ofGap cs line ⟨start, stop⟩) := by
  rcases Nat.lt_or_eq_of_le hstart with hfront | rfl
  · rcases Nat.lt_or_eq_of_le hstop with hback | rfl
    · have hcontents : String.ofList (slice cs ⟨start, stop⟩) =
          String.ofList (slice cs ⟨start, middle⟩) ++ String.ofList (slice cs ⟨middle, stop⟩) := by
        rw [← slice_append_slice hstart hstop, String.ofList_append]
      rw [ofGap, ofGap, ofGap, if_pos hfront, if_pos hback, if_pos (Nat.lt_trans hfront hback)]
      exact .met [] [] rfl rfl rfl hcontents
    · have hapart := Joined.apart (ofGap cs line ⟨start, middle⟩) []
      rw [List.append_nil] at hapart
      rwa [ofGap_empty]
  · have hlines : lineBreaks (slice cs ⟨start, start⟩) = 0 := by
      rw [slice, Nat.sub_self, List.take_zero]
      rfl
    rw [ofGap_empty, hlines]
    exact .apart [] _

/-- The tokens from a place on, when the tags stand behind a later place. -/
theorem locateFrom_joined {cs : List Char} {spans : List Span} {upto middle : Nat}
    (hupto : upto ≤ middle) (h : Ordered middle cs.length spans) (line : Nat) :
    Joined (ofGap cs line ⟨upto, middle⟩)
      (locateFrom cs middle (line + lineBreaks (slice cs ⟨upto, middle⟩)) spans)
      (locateFrom cs upto line spans) := by
  cases spans with
  | nil =>
    have hend : middle ≤ cs.length := h
    rw [locateFrom_nil hend, locateFrom_nil (Nat.le_trans hupto hend)]
    exact ofGap_joined cs hupto hend line
  | cons s rest =>
    have hgap := ofGap_joined cs hupto h.1 line
    have hlines := @lineBreaks_slice cs _ _ _ hupto h.1
    rw [locateFrom_cons, locateFrom_cons, Nat.add_assoc line, ← hlines]
    exact hgap.append_right _

/-- The tokens of two texts in a row, from a place in the first one on. -/
theorem locateFrom_append {front : List Char} {spans : List Span} {upto line : Nat}
    (h : Ordered upto front.length spans) (back : List Char) {spans' : List Span}
    (h' : Ordered front.length (front ++ back).length spans') :
    Joined (locateFrom front upto line spans)
      (locateFrom (front ++ back) front.length
        (line + lineBreaks (slice front ⟨upto, front.length⟩)) spans')
      (locateFrom (front ++ back) upto line (spans ++ spans')) := by
  have gap : ∀ {start stop : Nat} (line : Nat), start ≤ stop → stop ≤ front.length →
      ofGap (front ++ back) line ⟨start, stop⟩ = ofGap front line ⟨start, stop⟩ ∧
        slice (front ++ back) ⟨start, stop⟩ = slice front ⟨start, stop⟩ := by
    intro start stop line hle hstop
    have hslice : slice (front ++ back) ⟨start, stop⟩ = slice front ⟨start, stop⟩ :=
      slice_append hle hstop back
    exact ⟨by rw [ofGap, ofGap, hslice], hslice⟩
  induction spans generalizing upto line with
  | nil =>
    have hupto : upto ≤ front.length := h
    obtain ⟨hgap, hslice⟩ := gap line hupto (Nat.le_refl _)
    rw [locateFrom_nil hupto, ← hgap, ← hslice]
    exact locateFrom_joined hupto h' line
  | cons s rest ih =>
    obtain ⟨hstart, hlt, hrest⟩ := h
    have hend := hrest.le
    obtain ⟨hgap, hslice⟩ := gap line hstart (show s.start ≤ front.length by omega)
    have htag : slice (front ++ back) s = slice front s := (gap line (Nat.le_of_lt hlt) hend).2
    have hlines : line + lineBreaks (slice front ⟨upto, front.length⟩) =
        line + lineBreaks (slice front ⟨upto, s.start⟩) + lineBreaks (slice front s) +
          lineBreaks (slice front ⟨s.stop, front.length⟩) := by
      rw [lineBreaks_slice hstart (show s.start ≤ front.length by omega),
        lineBreaks_slice (Nat.le_of_lt hlt) hend, Nat.add_assoc, Nat.add_assoc]
    rw [List.cons_append, locateFrom_cons, locateFrom_cons, hgap, hslice, htag, hlines]
    exact ((ih hrest).append_left [ofTag _ _ _]).append_left _

theorem locate_append {front back : List Char} (h : OpensNoTag front back) :
    Joined (locate (String.ofList front))
      ((locate (String.ofList back)).map (shift (lineBreaks front) front.length))
      (locate (String.ofList (front ++ back))) := by
  have hshift := locateFrom_shift front back 0 (lineBreaks front) 1 (tagSpans back)
  have hspans : Ordered front.length (front ++ back).length
      ((tagSpans back).map (Span.shift front.length)) := by
    rw [shift_tagSpans, List.length_append]
    exact matchesFrom_ordered tagLength_bounded 0 front.length (Nat.zero_le _)
  have hwhole := @locateFrom_append front _ 0 1 (tagSpans_ordered front) back _ hspans
  have hfront : slice front ⟨0, front.length⟩ = front := by simp [slice]
  rw [hfront, Nat.add_comm 1] at hwhole
  rw [locate, locate, locate, String.toList_ofList, String.toList_ofList, String.toList_ofList,
    tagSpans_append h, ← hshift]
  exact hwhole

/-- The tokens of two templates in a row: those of the second stand further on. -/
theorem tokens_append (located : Bool) {front back : List Char} (h : OpensNoTag front back) :
    ∃ f, Keeps f ∧ Joined (tokens located (String.ofList front))
      ((tokens located (String.ofList back)).map f)
      (tokens located (String.ofList (front ++ back))) := by
  have hlocate := locate_append h
  refine ⟨_, keeps_shift (lineBreaks front) front.length, ?_⟩
  cases located with
  | true => exact hlocate
  | false =>
    have hcomm : unplaced ∘ shift (lineBreaks front) front.length =
        shift (lineBreaks front) front.length ∘ unplaced := rfl
    show Joined (lex _) ((lex _).map _) (lex _)
    rw [lex_eq_unplaced, lex_eq_unplaced, lex_eq_unplaced, List.map_map, ← hcomm, ← List.map_map]
    exact hlocate.map keeps_unplaced

end Token

/-! ## Trees of two templates -/

namespace Template

/-- A template that ends in literal text is one before that text. -/
theorem Spells.of_concat_text {front : List Token} {t : Token} {nodes : List Node}
    (h : Spells (front ++ [t]) nodes) (ht : t.kind = .text) :
    ∃ before, Spells front before ∧ nodes = before ++ [.text t] := by
  have hstart : Built Builder.start.frames [] Builder.start.body := Spells.nil
  obtain ⟨c, hfront, hlast⟩ := (h.run .start).of_append
  have hbuilt := hstart.run hfront
  cases hlast with
  | cons hmove hnil =>
    cases hnil
    obtain ⟨hnodes, hframes⟩ := Builder.mk.inj (hmove.eq_of_text ht)
    rw [← hframes] at hbuilt
    refine ⟨c.body, hbuilt, ?_⟩
    have hreverse := congrArg List.reverse hnodes
    simpa [Builder.start, Builder.body] using hreverse

/-- A template that begins with literal text is one behind that text. -/
theorem Spells.of_cons_text {u : Token} {back : List Token} {nodes : List Node}
    (h : Spells (u :: back) nodes) (hu : u.kind = .text) :
    ∃ after, Spells back after ∧ nodes = .text u :: after := by
  have houtput : u.kind ≠ .output := by simp [hu]
  have hblock : u.kind ≠ .block := by simp [hu]
  generalize htokens : u :: back = tokens at h
  cases h with
  | nil => cases htokens
  | text ht hrest =>
    cases htokens
    exact ⟨_, hrest, rfl⟩
  | output hout =>
    cases htokens
    exact absurd hout.1 houtput
  | loop hloop =>
    cases htokens
    exact absurd hloop.1 hblock
  | choice hcondition =>
    cases htokens
    exact absurd hcondition.1 hblock

end Template

/-! ## Two trees in a row -/

namespace Node

open Render

variable {g : Setting} {s : Scope}

theorem result_renderAll_text (t : Token) (rest : List Node) (depth : Nat) (out : String) :
    (renderAll g s (.text t :: rest) depth).2.result = .ok out ↔
      ∃ o, (renderAll g s rest depth).2.result = .ok o ∧ t.contents ++ o = out := by
  rw [renderAll, render, result_bind_eq_ok]
  constructor
  · rintro ⟨first, hfirst, hrest⟩
    obtain rfl : t.contents = first := Except.ok.inj hfirst
    exact result_map_eq_ok.mp hrest
  · intro h
    exact ⟨t.contents, rfl, result_map_eq_ok.mpr h⟩

theorem result_renderAll_append (before after : List Node) (depth : Nat) (out : String) :
    (renderAll g s (before ++ after) depth).2.result = .ok out ↔
      ∃ o o', (renderAll g s before depth).2.result = .ok o ∧
        (renderAll g s after depth).2.result = .ok o' ∧ o ++ o' = out := by
  induction before generalizing out with
  | nil =>
    constructor
    · intro h
      exact ⟨"", out, by rw [renderAll]; rfl, h, String.empty_append⟩
    · rintro ⟨o, o', ho, ho', rfl⟩
      rw [renderAll] at ho
      cases ho
      rwa [String.empty_append]
  | cons n rest ih =>
    rw [List.cons_append, renderAll, renderAll, result_bind_eq_ok, level_render]
    constructor
    · rintro ⟨first, hfirst, hrest⟩
      obtain ⟨others, hothers, rfl⟩ := result_map_eq_ok.mp hrest
      obtain ⟨o, o', ho, ho', rfl⟩ := (ih others).mp hothers
      refine ⟨first ++ o, o', result_bind_eq_ok.mpr ⟨first, hfirst, ?_⟩, ho', String.append_assoc⟩
      rw [level_render]
      exact result_map_eq_ok.mpr ⟨o, ho, rfl⟩
    · rintro ⟨o, o', ho, ho', rfl⟩
      obtain ⟨first, hfirst, hrest⟩ := result_bind_eq_ok.mp ho
      rw [level_render] at hrest
      obtain ⟨others, hothers, rfl⟩ := result_map_eq_ok.mp hrest
      refine ⟨first, hfirst, result_map_eq_ok.mpr ⟨others ++ o', ?_, String.append_assoc.symm⟩⟩
      exact (ih _).mpr ⟨others, o', hothers, ho', rfl⟩

/-- Whether a tree gives what two others give, one after the other. -/
def Concatenates (before after whole : List Node) : Prop :=
  ∀ (g : Setting) (s : Scope) (depth : Nat) (out : String),
    (renderAll g s whole depth).2.result = .ok out ↔
      ∃ o o', (renderAll g s before depth).2.result = .ok o ∧
        (renderAll g s after depth).2.result = .ok o' ∧ o ++ o' = out

/-- Literal text cut in two gives the same as before. -/
theorem concatenates_met {t u v : Token} (h : v.contents = t.contents ++ u.contents)
    (before after : List Node) :
    Concatenates (before ++ [.text t]) (.text u :: after) (before ++ .text v :: after) := by
  intro g s depth out
  have hsplit : ∀ out, (renderAll g s (.text v :: after) depth).2.result = .ok out ↔
      (renderAll g s ([.text t] ++ .text u :: after) depth).2.result = .ok out := by
    intro out
    simp only [List.singleton_append, result_renderAll_text, h]
    constructor
    · rintro ⟨o, ho, rfl⟩
      exact ⟨_, ⟨o, ho, rfl⟩, String.append_assoc.symm⟩
    · rintro ⟨_, ⟨o, ho, rfl⟩, rfl⟩
      exact ⟨o, ho, String.append_assoc⟩
  rw [← result_renderAll_append, List.append_assoc, result_renderAll_append,
    result_renderAll_append]
  simp only [hsplit]

end Node

namespace Template

/-- The tokens of two templates in a row spell a tree that gives what both trees give. -/
theorem spells_joined {front back whole : List Token} {before after : List Node}
    (hfront : Spells front before) (hback : Spells back after)
    (h : Token.Joined front back whole) :
    ∃ nodes, Spells whole nodes ∧ Node.Concatenates before after nodes := by
  cases h with
  | apart =>
    exact ⟨before ++ after, hfront.append hback, fun g s depth out =>
      Node.result_renderAll_append before after depth out⟩
  | met leading trailing ht hu hv hcontents =>
    obtain ⟨before, hbefore, rfl⟩ := hfront.of_concat_text ht
    obtain ⟨after, hafter, rfl⟩ := hback.of_cons_text hu
    exact ⟨before ++ .text _ :: after, hbefore.append (.text hv hafter),
      Node.concatenates_met hcontents before after⟩

/-- If two templates compile and no tag is opened in the literal text of the first one when the
second one follows it, they compile in a row.  For every context the whole then has a result
exactly when both have one, which is what the first gives and then what the second gives. -/
theorem render_append {g : Setting} {located : Bool} {nm nm' : Option String}
    {front back : String} {t u : Template} (ht : compile g located nm front = .ok t)
    (hu : compile g located nm' back = .ok u)
    (hopen : Token.OpensNoTag front.toList back.toList) (nm'' : Option String) :
    ∃ w, compile g located nm'' (front ++ back) = .ok w ∧
      ∀ context out, (w.render context).result = .ok out ↔
        ∃ o o', (t.render context).result = .ok o ∧ (u.render context).result = .ok o' ∧
          o ++ o' = out := by
  obtain ⟨before, hbefore, rfl⟩ := compile_eq_ok_iff.mp ht
  obtain ⟨after, hafter, rfl⟩ := compile_eq_ok_iff.mp hu
  obtain ⟨f, hf, hjoined⟩ := Token.tokens_append located hopen
  have hwhole : String.ofList (front.toList ++ back.toList) = front ++ back := by
    rw [String.ofList_append, String.ofList_toList, String.ofList_toList]
  rw [hwhole, String.ofList_toList, String.ofList_toList] at hjoined
  obtain ⟨nodes, hnodes, hgives⟩ := spells_joined hbefore (hafter.mapTokens hf) hjoined
  refine ⟨_, compile_eq_ok_iff.mpr ⟨nodes, hnodes, rfl⟩, fun context out => ?_⟩
  have hback : ∀ s o, (Node.renderAll g s (Node.mapTokensOf f after) 0).2.result = .ok o ↔
      (Node.renderAll g s after 0).2.result = .ok o := fun s _ =>
    (Node.renderAll_mapTokensOf hf s after).result_eq_ok_iff
  simp only [render_eq_ok_iff, hgives _ _ _ _, hback]
  constructor
  · rintro ⟨s, hs, o, o', ho, ho', rfl⟩
    exact ⟨o, o', ⟨s, hs, ho⟩, ⟨s, hs, ho'⟩, rfl⟩
  · rintro ⟨o, o', ⟨s, hs, ho⟩, ⟨s', hs', ho'⟩, rfl⟩
    obtain rfl : s = s' := Except.ok.inj (hs.symm.trans hs')
    exact ⟨s, hs, o, o', ho, ho', rfl⟩

/-- A brace at the end of the first template, which opens no tag with the brace that follows. -/
theorem render_append_brace :
    ∃ w, compile ⟨[], false, 1, 9⟩ false none ("{{ x }}\x7b" ++ "\x7d {{ x }}") = .ok w ∧
      (w.render (.map [("x", .ofString "a")])).result = .ok "a{} a" := by
  have hfront : Token.tokens false "{{ x }}\x7b" =
      [⟨.output, "x", 1, none⟩, ⟨.text, "\x7b", 1, none⟩] := rfl
  have hback : Token.tokens false "\x7d {{ x }}" =
      [⟨.text, "\x7d ", 1, none⟩, ⟨.output, "x", 1, none⟩] := rfl
  have ht : compile ⟨[], false, 1, 9⟩ false none "{{ x }}\x7b" = .ok ⟨none, "{{ x }}\x7b",
      [.output ⟨.output, "x", 1, none⟩ ⟨"x", .path (.single "x"), []⟩,
        .text ⟨.text, "\x7b", 1, none⟩], ⟨[], false, 1, 9⟩, false⟩ := by
    rw [compile, hfront]
    rfl
  have hu : compile ⟨[], false, 1, 9⟩ false none "\x7d {{ x }}" = .ok ⟨none, "\x7d {{ x }}",
      [.text ⟨.text, "\x7d ", 1, none⟩,
        .output ⟨.output, "x", 1, none⟩ ⟨"x", .path (.single "x"), []⟩],
      ⟨[], false, 1, 9⟩, false⟩ := by
    rw [compile, hback]
    rfl
  have hspans : Token.tagSpans "{{ x }}\x7b".toList = [⟨0, 7⟩] := rfl
  have hopen : Token.OpensNoTag "{{ x }}\x7b".toList "\x7d {{ x }}".toList := by
    intro place hlt houtside
    -- The only place outside of the tag is that of the last brace.
    have hlast : place = 7 := by
      have hbefore : place < 8 := hlt
      rw [hspans, Text.Outside, List.forall_mem_singleton] at houtside
      have hbehind : ¬ (0 ≤ place ∧ place < 7) := houtside
      omega
    subst hlast
    decide
  obtain ⟨w, hw, hrender⟩ := render_append ht hu hopen none
  exact ⟨w, hw, (hrender _ _).mpr ⟨"a\x7b", "\x7d a", rfl, rfl, rfl⟩⟩

end Template
end Quill
