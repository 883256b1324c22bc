import Quill.Proofs.Engine.Debug
import Quill.Proofs.Template.Delimiters
import Quill.Proofs.Text.Lines

/-!
What the excerpt of an error shows.

The token of an error is a tag, and an excerpt splits the line that the tag stands on into what
comes before the tag, the tag and what comes behind it.  A tag may run over several lines.  Such a
tag stands on no line, and its excerpt shows the beginning of the template with no line split.
-/

namespace Quill

open Text

/-! ## Lines of an excerpt -/

namespace Excerpt

theorem zipWith_breaks (cs front : List Char) (start : Nat) :
    List.zipWith Span.mk
        (start :: (breaksFrom (start + front.length) cs ++ [start + front.length + cs.length + 1]))
        (breaksFrom (start + front.length) cs ++ [start + front.length + cs.length + 1]) =
      stretches start ((Text.lines cs).modifyHead (front ++ ·)) := by
  induction cs generalizing start front with
  | nil => simp [breaksFrom, Text.lines, stretches]
  | cons c rest ih =>
    obtain ⟨first, more, hrest⟩ := exists_lines_eq_cons rest
    have hend : start + front.length + (c :: rest).length + 1 =
        start + front.length + 1 + rest.length + 1 := by
      rw [List.length_cons]
      omega
    rw [hend, breaksFrom, Text.lines]
    by_cases hc : c = '\n'
    · have hnext := ih [] (start + front.length + 1)
      rw [List.length_nil, Nat.add_zero, hrest] at hnext
      rw [if_pos (beq_iff_eq.mpr hc), if_pos hc, hrest, List.modifyHead_cons,
        stretches_cons _ _ (by simp), List.length_append, List.length_singleton, ← Nat.add_assoc]
      exact congrArg _ hnext
    · have hnext := ih (front ++ [c]) start
      rw [List.length_append, List.length_singleton, ← Nat.add_assoc, hrest] at hnext
      rw [if_neg (by simpa using hc), if_neg hc, hrest]
      simpa using hnext

/-- The lines of an excerpt are an empty one, so that lines are counted from one, and those of the
template. -/
theorem lineSpans_eq (cs : List Char) : lineSpans cs = ⟨0, 0⟩ :: stretches 0 (Text.lines cs) := by
  obtain ⟨first, more, hcs⟩ := exists_lines_eq_cons cs
  have h := zipWith_breaks cs [] 0
  rw [List.length_nil, Nat.zero_add, Nat.zero_add, hcs] at h
  rw [hcs]
  exact congrArg _ h

def shown (cs : List Char) : String := Html.escape (String.ofList cs)

theorem shown_append (a b : List Char) : shown (a ++ b) = shown a ++ shown b := by
  rw [shown, String.ofList_append, Html.escape_append]
  rfl

def around (cs : List Char) (line : Nat) : List (Nat × String) :=
  (((Text.lines cs).zipIdx 1).filter fun (_, n) =>
    max 1 (line - margin) ≤ n && n ≤ line + margin).map fun (l, n) => (n, shown l)

theorem filter_zipIdx {α : Type} (items : List α) (start first last : Nat) :
    ((items.zipIdx start).filter fun (_, n) => first ≤ n && n ≤ last) =
      ((items.zipIdx start).take (last + 1 - start)).drop (first - start) := by
  induction items generalizing start with
  | nil => simp
  | cons item rest ih =>
    rw [List.zipIdx_cons, List.filter_cons, ih]
    by_cases hfirst : first ≤ start
    · have hdrop : first - start = 0 := by omega
      have hdrop' : first - (start + 1) = 0 := by omega
      rw [hdrop, hdrop', List.drop_zero, List.drop_zero]
      by_cases hlast : start ≤ last
      · rw [show last + 1 - start = last + 1 - (start + 1) + 1 by omega, List.take_succ_cons]
        simp [hfirst, hlast]
      · rw [show last + 1 - start = 0 by omega, show last + 1 - (start + 1) = 0 by omega]
        simp [hlast]
    · rw [show first - start = first - (start + 1) + 1 by omega]
      by_cases hlast : start ≤ last
      · rw [show last + 1 - start = last + 1 - (start + 1) + 1 by omega, List.take_succ_cons,
          List.drop_succ_cons]
        simp [hfirst]
      · rw [show last + 1 - start = 0 by omega, show last + 1 - (start + 1) = 0 by omega]
        simp [hfirst]

theorem map_display (cs : List Char) :
    ((lineSpans cs).zipIdx.map fun (l, n) => (n, display cs l.start l.stop)) =
      (0, "") :: ((Text.lines cs).zipIdx 1).map fun (l, n) => (n, shown l) := by
  have hslices := map_slice_lines cs
  rw [lineSpans_eq]
  generalize stretches 0 (Text.lines cs) = spans at hslices
  rw [← hslices, List.zipIdx_map, List.map_map]
  rfl

/-- The lines of an excerpt are those around its own line. -/
theorem window_eq_around (cs : List Char) (line : Nat) :
    ((((lineSpans cs).zipIdx.map fun (l, n) => (n, display cs l.start l.stop)).take
      (min (lineSpans cs).length (line + 1 + margin))).drop (max 1 (line - margin))) =
        around cs line := by
  have hlength : (lineSpans cs).length = ((Text.lines cs).zipIdx 1).length + 1 := by
    rw [lineSpans_eq, List.length_cons, length_stretches, List.length_zipIdx]
  have htop : max 1 (line - margin) = max 1 (line - margin) - 1 + 1 := by omega
  have hbottom : min (lineSpans cs).length (line + 1 + margin) =
      min (line + margin) ((Text.lines cs).zipIdx 1).length + 1 := by omega
  rw [around, filter_zipIdx, map_display, hbottom, htop, List.take_succ_cons, List.drop_succ_cons,
    ← List.map_take, ← List.map_drop, Nat.add_sub_cancel, Nat.add_sub_cancel,
    ← List.take_eq_take_min]

/-! ## The line of a tag -/

def homes (cs : List Char) (s : Span) : List (Span × Nat) :=
  (lineSpans cs).zipIdx.filter fun (l, _) => l.start ≤ s.start && s.stop ≤ l.stop

/-- An excerpt splits the last of the lines that its stretch fits on, if there is one. -/
theorem make_of_homes_eq_nil {source : String} {s : Span} (h : homes source.toList s = [])
    (message name : String) :
    (make message name source s).line = 0 ∧ (make message name source s).before = "" ∧
      (make message name source s).during = "" ∧ (make message name source s).after = "" := by
  unfold homes at h
  unfold make
  dsimp only
  rw [h]
  exact ⟨rfl, rfl, rfl, rfl⟩

theorem make_of_homes_eq_singleton {source : String} {s l : Span} {n : Nat}
    (h : homes source.toList s = [(l, n)]) (message name : String) :
    (make message name source s).line = n ∧
      (make message name source s).before = shown (slice source.toList ⟨l.start, s.start⟩) ∧
      (make message name source s).during = shown (slice source.toList s) ∧
      (make message name source s).after = shown (slice source.toList ⟨s.stop, l.stop⟩) := by
  unfold homes at h
  unfold make
  dsimp only
  rw [h]
  exact ⟨rfl, rfl, rfl, rfl⟩

theorem lines_make (message name source : String) (s : Span) :
    (make message name source s).lines =
      around source.toList (make message name source s).line := by
  unfold make
  dsimp only
  cases ((lineSpans source.toList).zipIdx.filter fun (l, _) =>
    l.start ≤ s.start && s.stop ≤ l.stop).getLast? with
  | none => exact window_eq_around _ _
  | some home => exact window_eq_around _ _

theorem filter_zipIdx_eq_nil {spans : List Span} {s : Span}
    (h : ∀ l ∈ spans, ¬ (l.start ≤ s.start ∧ s.stop ≤ l.stop)) (n : Nat) :
    ((spans.zipIdx n).filter fun (l, _) => l.start ≤ s.start && s.stop ≤ l.stop) = [] := by
  rw [List.filter_eq_nil_iff]
  intro p hp
  have hmem := h p.1 (List.fst_mem_of_mem_zipIdx hp)
  simpa using hmem

/-- A stretch that begins on a line fits on that line or on none. -/
theorem homes_eq {cs : List Char} {earlier later : List (List Char)} {line : List Char}
    (hlines : Text.lines cs = earlier ++ line :: later) {s : Span}
    (hstart : earlier.flatten.length ≤ s.start)
    (hline : s.start < earlier.flatten.length + line.length) (hlt : s.start < s.stop) :
    ∃ stop, slice cs ⟨earlier.flatten.length, stop⟩ = line ∧
      earlier.flatten.length + line.length ≤ stop ∧
      (later ≠ [] → stop = earlier.flatten.length + line.length) ∧
      homes cs s = if s.stop ≤ stop then [(⟨earlier.flatten.length, stop⟩, earlier.length + 1)]
        else [] := by
  obtain ⟨front, stop, back, hstretches, hlength, hfront, hback, hstop, hexact⟩ :=
    stretches_around 0 earlier line later
  rw [Nat.zero_add] at hstretches hfront hback hstop hexact
  refine ⟨stop, ?_, hstop, hexact, ?_⟩
  · have hslices := map_slice_lines cs
    rw [hlines, hstretches, List.map_append, List.map_cons] at hslices
    have hsplit := List.append_inj hslices (by simp [hlength])
    exact (List.cons.inj hsplit.2).1
  · have hbefore : ∀ l ∈ (⟨0, 0⟩ :: front : List Span),
        ¬ (l.start ≤ s.start ∧ s.stop ≤ l.stop) := by
      refine List.forall_mem_cons.mpr ⟨?_, fun l hl => ?_⟩
      · show ¬ (0 ≤ s.start ∧ s.stop ≤ 0)
        omega
      · have hle := hfront l hl
        omega
    have hbehind : ∀ l ∈ back, ¬ (l.start ≤ s.start ∧ s.stop ≤ l.stop) := fun l hl => by
      have hle := hback l hl
      omega
    have hspans : lineSpans cs =
        (⟨0, 0⟩ :: front) ++ ⟨earlier.flatten.length, stop⟩ :: back := by
      rw [lineSpans_eq, hlines, hstretches]
      rfl
    rw [homes, hspans, List.zipIdx_append, List.filter_append, filter_zipIdx_eq_nil hbefore,
      List.zipIdx_cons, List.filter_cons, filter_zipIdx_eq_nil hbehind, List.length_cons, hlength]
    simp only [hstart, decide_true, Bool.true_and, decide_eq_true_eq, List.nil_append, Nat.zero_add]

/-- Whether an excerpt of a text splits the line of a token at the stretch where the token stands:
the line is the complete one, and what stands on it to the left of the tag, the tag, and what stands
to the right of it are made safe. -/
structure Splits (x : Excerpt) (cs : List Char) (t : Token) (s : Span) (left right : List Char) :
    Prop where
  line : x.line = t.line
  whole : (Text.lines cs)[t.line - 1]? = some (left ++ slice cs s ++ right)
  ahead : ((Text.lines cs).take (t.line - 1)).flatten ++ left = cs.take s.start
  before : x.before = shown left
  during : x.during = shown (slice cs s)
  after : x.after = shown right
  joined : x.before ++ x.during ++ x.after = shown (left ++ slice cs s ++ right)
  listed : (t.line, shown (left ++ slice cs s ++ right)) ∈ x.lines

/-- Whether an excerpt of a text shows the token that stands for a stretch.  It shows the lines
around its own, and its own line is that of the token if the token stands on one line.  A token on
several lines has no line in the excerpt, and nothing is split. -/
structure Locates (x : Excerpt) (cs : List Char) (t : Token) (s : Span) : Prop where
  start : x.start = s.start
  stop : x.stop = s.stop
  lines : x.lines = around cs x.line
  onOne : '\n' ∉ slice cs s → ∃ left right, x.Splits cs t s left right
  onSeveral : '\n' ∈ slice cs s → x.line = 0 ∧ x.before = "" ∧ x.during = "" ∧ x.after = ""

section Locating

variable {cs : List Char} {t : Token} {s : Span}

theorem mem_around {n : Nat} {line : List Char} (hpos : 0 < n)
    (h : (Text.lines cs)[n - 1]? = some line) : (n, shown line) ∈ around cs n := by
  have hmem : (line, n) ∈ (Text.lines cs).zipIdx 1 := by
    rw [List.mem_zipIdx_iff_le_and_getElem?_sub]
    exact ⟨hpos, h⟩
  refine List.mem_map.mpr ⟨(line, n), List.mem_filter.mpr ⟨hmem, ?_⟩, rfl⟩
  simp only [Bool.and_eq_true, decide_eq_true_eq]
  omega

/-- The text is what comes before a stretch, the stretch, and what comes behind it. -/
theorem take_slice_drop (h : s.start ≤ s.stop) :
    cs.take s.start ++ (slice cs s ++ cs.drop s.stop) = cs := by
  rw [← List.append_assoc, take_append_slice h, List.take_append_drop]

/-- A stretch without a break in it fits on the line that it begins on. -/
theorem homes_of_one (hlt : s.start < s.stop) (hstop : s.stop ≤ cs.length)
    (hone : '\n' ∉ slice cs s) : ∃ earlier left right later stop,
      Text.lines cs = earlier ++ (left ++ slice cs s ++ right) :: later ∧
      earlier.length = Token.lineBreaks (cs.take s.start) ∧
      earlier.flatten ++ left = cs.take s.start ∧
      slice cs ⟨earlier.flatten.length, s.start⟩ = left ∧ slice cs ⟨s.stop, stop⟩ = right ∧
      homes cs s = [(⟨earlier.flatten.length, stop⟩, earlier.length + 1)] := by
  obtain ⟨earlier, left, hlength, hflatten, hlines⟩ :=
    lines_at (cs.take s.start) (slice cs s ++ cs.drop s.stop)
  obtain ⟨right, later, hback⟩ := exists_lines_eq_cons (cs.drop s.stop)
  rw [take_slice_drop (by omega), lines_append hone, hback, List.modifyHead_cons,
    List.modifyHead_cons, ← List.append_assoc] at hlines
  have hwidth : (slice cs s).length = s.stop - s.start := length_slice hstop
  have hleft : earlier.flatten.length + left.length = s.start := by
    rw [← List.length_append, hflatten, List.length_take]
    omega
  have hwhole : (left ++ slice cs s ++ right).length =
      left.length + (s.stop - s.start) + right.length := by
    rw [List.length_append, List.length_append, hwidth]
  obtain ⟨stop, hslice, hle, -, hhomes⟩ :=
    homes_eq hlines (s := s) (by omega) (by omega) hlt
  rw [if_pos (by omega)] at hhomes
  refine ⟨earlier, left, right, later, stop, hlines, hlength, hflatten, ?_, ?_, hhomes⟩
  · have hsplit : slice cs ⟨earlier.flatten.length, s.start⟩ ++ slice cs ⟨s.start, stop⟩ =
        left ++ (slice cs s ++ right) := by
      rw [slice_append_slice (by omega) (by omega), hslice, List.append_assoc]
    refine (List.append_inj hsplit ?_).1
    rw [length_slice (show s.start ≤ cs.length by omega)]
    show s.start - earlier.flatten.length = left.length
    omega
  · have hdrop : (slice cs ⟨earlier.flatten.length, stop⟩).drop
        (s.stop - earlier.flatten.length) = slice cs ⟨s.stop, stop⟩ := drop_slice (by omega)
    rw [← hdrop, hslice, List.drop_left']
    rw [List.length_append]
    omega

/-- A stretch with a break in it that does not end it fits on no line. -/
theorem homes_of_several (hstop : s.stop ≤ cs.length)
    (hend : ['}'] <:+ slice cs s) (hseveral : '\n' ∈ slice cs s) : homes cs s = [] := by
  obtain ⟨first, rest, hsplit, hfirst⟩ := List.eq_append_cons_of_mem hseveral
  obtain ⟨earlier, left, -, hflatten, hlines⟩ :=
    lines_at (cs.take s.start) (slice cs s ++ cs.drop s.stop)
  have hrest : 0 < rest.length := by
    cases rest with
    | nil =>
      obtain ⟨front, hfront⟩ := hend
      rw [hsplit] at hfront
      have hlast := (List.append_inj' hfront rfl).2
      simp at hlast
    | cons c more => simp
  have hwidth : first.length + (rest.length + 1) = s.stop - s.start := by
    rw [← length_slice hstop, hsplit, List.length_append, List.length_cons]
  have hleft : earlier.flatten.length + left.length = s.start := by
    rw [← List.length_append, hflatten, List.length_take]
    omega
  have hbreak : Text.lines (slice cs s ++ cs.drop s.stop) =
      (first ++ ['\n']) :: Text.lines (rest ++ cs.drop s.stop) := by
    rw [hsplit, List.append_assoc, List.cons_append, lines_append hfirst, Text.lines, if_pos rfl]
    rfl
  rw [take_slice_drop (by omega), hbreak, List.modifyHead_cons] at hlines
  have hwhole : (left ++ (first ++ ['\n'])).length = left.length + (first.length + 1) := by simp
  obtain ⟨stop, -, -, hexact, hhomes⟩ :=
    homes_eq hlines (s := s) (by omega) (by omega) (by omega)
  have hend := hexact (lines_ne_nil _)
  rwa [if_neg (by omega)] at hhomes

/-- The excerpt at a tag shows the tag. -/
theorem make_locates (message name source : String) (hlt : s.start < s.stop)
    (hstop : s.stop ≤ source.toList.length) (hend : ['}'] <:+ slice source.toList s)
    (hline : t.line = 1 + Token.lineBreaks (source.toList.take s.start)) :
    (make message name source s).Locates source.toList t s := by
  refine ⟨?_, ?_, lines_make message name source s, fun hone => ?_, fun hseveral => ?_⟩
  · rfl
  · rfl
  · obtain ⟨earlier, left, right, later, stop, hlines, hlength, hflatten, hleft, hright, hhomes⟩ :=
      homes_of_one hlt hstop hone
    obtain ⟨hhome, hbefore, hduring, hafter⟩ := make_of_homes_eq_singleton hhomes message name
    have hnumber : earlier.length + 1 = t.line := by omega
    rw [hnumber] at hhome
    have hprevious : t.line - 1 = earlier.length := by omega
    have hwhole : (Text.lines source.toList)[t.line - 1]? =
        some (left ++ slice source.toList s ++ right) := by
      rw [hlines, hprevious, List.getElem?_append_right (Nat.le_refl _), Nat.sub_self]
      rfl
    rw [hleft] at hbefore
    rw [hright] at hafter
    refine ⟨left, right, hhome, hwhole, ?_, hbefore, hduring, hafter, ?_, ?_⟩
    · rw [hlines, hprevious, List.take_left, hflatten]
    · rw [hbefore, hduring, hafter, shown_append, shown_append]
    · rw [lines_make, hhome]
      exact mem_around (by omega) hwhole
  · exact make_of_homes_eq_nil (homes_of_several hstop hend hseveral) message name

end Locating

end Excerpt

/-! ## Tags as the tokens of errors -/

namespace Token

/-- A tag lies within the template and ends with a brace. -/
theorem tag_of_mem_locate {source : String} {t : Token} (ht : t ∈ locate source)
    (hkind : t.kind ≠ .text) : ∃ s, t.span = some s ∧ s.start < s.stop ∧
      s.stop ≤ source.toList.length ∧ ['}'] <:+ slice source.toList s ∧
      t.line = 1 + lineBreaks (source.toList.take s.start) := by
  obtain ⟨start, stop, hspan, hpaired, -⟩ := paired_of_mem_locate ht hkind
  obtain ⟨s, hshows⟩ := shows_of_mem_tile (tile_locate source) ht
  obtain rfl : s = ⟨start, stop + 2⟩ := Option.some.inj (hshows.span.symm.trans hspan)
  obtain ⟨c, hle, hclose⟩ : ∃ c, start + 3 ≤ stop ∧ [c, '}'] <+: source.toList.drop stop := by
    generalize t.kind = kind at hpaired
    cases hpaired with
    | output _ hle hclose => exact ⟨_, hle, hclose⟩
    | block _ hle hclose => exact ⟨_, hle, hclose⟩
  obtain ⟨rest, hrest⟩ := hclose
  have hlength := congrArg List.length hrest
  simp only [List.length_append, List.length_cons, List.length_drop] at hlength
  have hlast : slice source.toList ⟨stop, stop + 2⟩ = [c, '}'] := by
    rw [slice, ← hrest]
    show List.take (stop + 2 - stop) _ = _
    rw [Nat.add_sub_cancel_left]
    rfl
  refine ⟨_, hspan, ?_, ?_, ⟨slice source.toList ⟨start, stop⟩ ++ [c], ?_⟩, hshows.line⟩
  · show start < stop + 2
    omega
  · show stop + 2 ≤ _
    omega
  · rw [← slice_append_slice (show start ≤ stop by omega) (Nat.le_add_right stop 2), hlast]
    simp

end Token

namespace Template

open Node

/-- Nodes other than literal text come from tags. -/
theorem Spells.kind_of_mem {tokens : List Token} {nodes : List Node} (h : Spells tokens nodes)
    {n : Node} (hn : n ∈ nodes) (htext : ∀ t, n ≠ .text t) : n.token.kind ≠ .text := by
  induction nodes generalizing tokens with
  | nil => cases hn
  | cons first rest ih =>
    cases h with
    | text _ hrest =>
      rcases List.mem_cons.mp hn with rfl | hn
      · exact absurd rfl (htext _)
      · exact ih hrest hn
    | output hout hrest =>
      rcases List.mem_cons.mp hn with rfl | hn
      · simp [Node.token, hout.1]
      · exact ih hrest hn
    | loop hloop _ _ hrest =>
      rcases List.mem_cons.mp hn with rfl | hn
      · simp [Node.token, hloop.1]
      · exact ih hrest hn
    | choice hcondition _ _ hrest =>
      rcases List.mem_cons.mp hn with rfl | hn
      · simp [Node.token, hcondition.1]
      · exact ih hrest hn

theorem Spells.kind_of_stands {tokens : List Token} {nodes blocks : List Node} {n : Node}
    (h : Spells tokens nodes) (hn : Stands nodes blocks n) (htext : ∀ t, n ≠ .text t) :
    n.token.kind ≠ .text := by
  obtain ⟨inner, body, -, hbody, hmem⟩ := h.exists_of_stands hn
  exact hbody.kind_of_mem hmem htext

/-- Literal text stops no rendering. -/
theorem ne_text_of_stops {g : Setting} {s : Scope} {depth : Nat} {n : Node} {e : RenderFailure}
    (h : Stops g s depth n e) (t : Token) : n ≠ .text t := by
  rintro rfl
  cases h with
  | fault hturns => cases hturns
  | plain _ hplain => cases hplain
  | beyond hturns => cases hturns

/-- The excerpt of a template at one of its tags shows the tag. -/
theorem locates_of_mem_locate {source : String} {token : Token} (ht : token ∈ Token.locate source)
    (hkind : token.kind ≠ .text) {span : Span} (hspan : token.span = some span)
    (message name : String) :
    (Excerpt.make message name source span).Locates source.toList token span := by
  obtain ⟨s, hs, hlt, hstop, hend, hline⟩ := Token.tag_of_mem_locate ht hkind
  obtain rfl : s = span := Option.some.inj (hs.symm.trans hspan)
  exact Excerpt.make_locates message name source hlt hstop hend hline

/-- A problem is attached to a tag. -/
theorem tag_of_compile {g : Setting} {name : Option String} {source : String} {problem : Problem}
    {token : Token} {excerpt : Option Excerpt}
    (h : compile g true name source = .error ⟨.malformed problem token, excerpt⟩) :
    token ∈ Token.locate source ∧ token.kind ≠ .text := by
  rw [compile] at h
  cases hparse : parseTokens (Token.tokens true source) with
  | ok nodes =>
    rw [hparse] at h
    cases h
  | error f =>
    rw [hparse] at h
    cases f with
    | longNumeral digits => cases h
    | malformed other place =>
      cases h
      have hblames := parseTokens_blames (fun _ => Token.tidy_of_mem_tokens) hparse
      exact ⟨hblames.mem, hblames.kind_ne_text⟩

/-- A failure with a token is that of a tag. -/
theorem tag_of_render {g : Setting} {name : Option String} {source : String} {t : Template}
    (ht : compile g true name source = .ok t) {context : Value} {report : Report RenderFailure}
    (h : (t.render context).result = .error (.failed report)) {token : Token}
    (htoken : report.failure.token = some token) :
    token ∈ Token.locate source ∧ token.kind ≠ .text := by
  obtain ⟨nodes, hnodes, rfl⟩ := compile_eq_ok_iff.mp ht
  obtain ⟨s, f, hs, hf, rfl⟩ := (render_eq_failed_iff _ _ _).mp h
  obtain ⟨blocks, s', depth, n, hvisits, hstops⟩ := renderAll_eq_error_iff.mp hf
  rw [failure_reportRender] at htoken
  rcases hstops.fault_or_token with ⟨c, rfl⟩ | hown
  · cases htoken
  · obtain rfl : n.token = token := Option.some.inj (hown.symm.trans htoken)
    exact ⟨hnodes.token_of_stands hvisits.stands,
      hnodes.kind_of_stands hvisits.stands (ne_text_of_stops hstops)⟩

end Template

namespace Engine

/-- With the debug option an error at a tag shows the tag in its excerpt, whether it is the template
that is malformed, a filter that fails or the limit on blocks that is reached.  A tag on one line
splits that line; one on several lines is not placed. -/
theorem debug_excerpts (e : Engine) (he : e.debug = true) (name : Option String) (source : String) :
    (∀ problem token excerpt, e.compile name source = .error ⟨.malformed problem token, excerpt⟩ →
      ∃ span x, token ∈ Token.locate source ∧ token.span = some span ∧ excerpt = some x ∧
        x.Locates source.toList token span) ∧
    ∀ t, e.compile name source = .ok t → ∀ context report,
      (t.render context).result = .error (.failed report) →
        (∃ f, report = ⟨.fault f, none⟩) ∨
        ∃ token span x, report.failure.token = some token ∧ token ∈ Token.locate source ∧
          token.span = some span ∧ report.excerpt = some x ∧
          x.Locates source.toList token span := by
  simp only [compile, he]
  refine ⟨fun problem token excerpt h => ?_, fun t ht context report h => ?_⟩
  · obtain ⟨hmem, hkind⟩ := Template.tag_of_compile h
    obtain ⟨span, hspan, hexcerpt⟩ := Template.excerpt_of_compile h
    exact ⟨span, _, hmem, hspan, hexcerpt, Template.locates_of_mem_locate hmem hkind hspan _ _⟩
  · rcases Template.excerpt_of_render ht h with hfault | ⟨token, span, htoken, hspan, hexcerpt⟩
    · exact .inl hfault
    · obtain ⟨hmem, hkind⟩ := Template.tag_of_render ht h htoken
      exact .inr ⟨token, span, _, htoken, hmem, hspan, hexcerpt,
        Template.locates_of_mem_locate hmem hkind hspan _ _⟩

/-- A block that is left open is split from its line if its tag stands on one line, and it is not
placed if its tag stands on two. -/
theorem debug_excerpts_unclosed :
    (∃ problem token x, compile ⟨.bool true, 1, true, []⟩ none "a\n{% if x %}b" =
        .error ⟨.malformed problem token, some x⟩ ∧ token.line = 2 ∧ x.line = 2 ∧
        x.during = "{% if x %}") ∧
    ∃ problem token x, compile ⟨.bool true, 1, true, []⟩ none "a\n\x7b% if\nx %\x7db" =
        .error ⟨.malformed problem token, some x⟩ ∧ token.line = 2 ∧ x.line = 0 ∧
        x.during = "" := by
  constructor
  · have htokens : Token.tokens true "a\n{% if x %}b" =
        [⟨.text, "a\n", 1, some ⟨0, 2⟩⟩, ⟨.block, "if x", 2, some ⟨2, 12⟩⟩,
          ⟨.text, "b", 2, some ⟨12, 13⟩⟩] := rfl
    obtain ⟨excerpt, hcompile⟩ : ∃ excerpt,
        compile ⟨.bool true, 1, true, []⟩ none "a\n{% if x %}b" =
          .error ⟨.malformed (.unclosed 2 "if" ["elif", "else", "endif"])
            ⟨.block, "if x", 2, some ⟨2, 12⟩⟩, excerpt⟩ := by
      show ∃ excerpt, Template.compile _ true none _ = _
      rw [Template.compile, htokens]
      exact ⟨_, rfl⟩
    obtain ⟨span, x, -, hspan, rfl, hlocates⟩ :=
      (debug_excerpts ⟨.bool true, 1, true, []⟩ rfl none "a\n{% if x %}b").1 _ _ _ hcompile
    obtain rfl : ⟨2, 12⟩ = span := Option.some.inj hspan
    obtain ⟨left, right, hsplits⟩ := hlocates.onOne (by decide)
    exact ⟨_, _, x, hcompile, rfl, hsplits.line, hsplits.during⟩
  · have htokens : Token.tokens true "a\n\x7b% if\nx %\x7db" =
        [⟨.text, "a\n", 1, some ⟨0, 2⟩⟩, ⟨.block, "if\nx", 2, some ⟨2, 12⟩⟩,
          ⟨.text, "b", 3, some ⟨12, 13⟩⟩] := rfl
    obtain ⟨excerpt, hcompile⟩ : ∃ excerpt,
        compile ⟨.bool true, 1, true, []⟩ none "a\n\x7b% if\nx %\x7db" =
          .error ⟨.malformed (.unclosed 2 "if" ["elif", "else", "endif"])
            ⟨.block, "if\nx", 2, some ⟨2, 12⟩⟩, excerpt⟩ := by
      show ∃ excerpt, Template.compile _ true none _ = _
      rw [Template.compile, htokens]
      exact ⟨_, rfl⟩
    obtain ⟨span, x, -, hspan, rfl, hlocates⟩ :=
      (debug_excerpts ⟨.bool true, 1, true, []⟩ rfl none "a\n\x7b% if\nx %\x7db").1 _ _ _
        hcompile
    obtain rfl : ⟨2, 12⟩ = span := Option.some.inj hspan
    obtain ⟨hline, -, hduring, -⟩ := hlocates.onSeveral (by decide)
    exact ⟨_, _, x, hcompile, rfl, hline, hduring⟩

end Engine
end Quill
