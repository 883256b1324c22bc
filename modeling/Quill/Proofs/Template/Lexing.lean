import Quill.Proofs.Text.Spans
import Quill.Proofs.Text.Words
import Quill.Template.Token

/-!
The tokens of a template and the places where they stand.

The two ways of cutting a template give the same tokens, and those with places tile the template:
each stands for a stretch that is not empty, the next begins where it ends, and no literal text is
followed by more literal text.
-/

namespace Quill
namespace Token

open Text

/-! ## Tags -/

theorem closing_bounds {c : Char} {cs : List Char} {n : Nat} (h : closing? c cs = some n) :
    2 ≤ n ∧ n ≤ cs.length := by
  fun_induction closing? c cs generalizing n with
  | case1 => cases h
  | case2 => cases h
  | case3 a b rest hclose =>
    cases h
    simp
  | case4 a b rest hclose ih =>
    obtain ⟨k, hk, rfl⟩ := Option.map_eq_some_iff.mp h
    have hbounds := ih hk
    simp only [List.length_cons] at hbounds ⊢
    omega

/-- A tag begins with an opening, and what lies between the opening and the close is at least one
character long. -/
theorem tagLength_eq_some {cs : List Char} {n : Nat} (h : tagLength? cs = some n) :
    (['{', '{'] <+: cs ∨ ['{', '%'] <+: cs) ∧ 5 ≤ n ∧ n ≤ cs.length := by
  have bounds : ∀ {c : Char} {rest : List Char}, (closing? c rest).map (· + 3) = some n →
      5 ≤ n ∧ n ≤ rest.length + 3 := by
    intro c rest hclosing
    obtain ⟨k, hk, rfl⟩ := Option.map_eq_some_iff.mp hclosing
    have hk := closing_bounds hk
    omega
  unfold tagLength? at h
  split at h
  · next d rest =>
    exact ⟨.inr (by simp), bounds h⟩
  · next d rest =>
    exact ⟨.inl (by simp), bounds h⟩
  · cases h

theorem tagLength_bounded : Bounded tagLength? := fun _ _ h => (tagLength_eq_some h).2.2

theorem tagSpans_ordered (cs : List Char) : Ordered 0 cs.length (tagSpans cs) :=
  matchSpans_ordered tagLength_bounded cs

/-! ## Both ways of cutting -/

def unplaced (t : Token) : Token := { t with span := none }

theorem ofPieces_cut {cs : List Char} {spans : List Span} {upto line : Nat}
    (h : Ordered upto cs.length spans) :
    ofPieces line (cut upto (cs.drop upto) spans) =
      (locateFrom cs upto line spans).map unplaced := by
  induction spans generalizing upto line with
  | nil =>
    simp only [cut, ofPieces, locateFrom]
    by_cases hempty : (cs.drop upto).isEmpty = true
    · simp [hempty]
    · simp [hempty, ofText, unplaced]
  | cons s rest ih =>
    obtain ⟨hstart, hlt, hrest⟩ := h
    have hstop := hrest.le
    have htext : (cs.drop upto).take (s.start - upto) = slice cs ⟨upto, s.start⟩ := rfl
    have htag : ((cs.drop upto).take (s.stop - upto)).drop (s.start - upto) = slice cs s :=
      drop_slice hstart
    have hdrop : (cs.drop upto).drop (s.stop - upto) = cs.drop s.stop := by
      rw [List.drop_drop, show upto + (s.stop - upto) = s.stop by omega]
    have hfull : ¬ (slice cs s).isEmpty = true := by
      have hlength := length_slice hstop
      rw [List.isEmpty_iff_length_eq_zero]
      omega
    have hgap : (slice cs ⟨upto, s.start⟩).isEmpty = true ↔ ¬ upto < s.start := by
      have hlength : (slice cs ⟨upto, s.start⟩).length = s.start - upto :=
        length_slice (show s.start ≤ cs.length by omega)
      rw [List.isEmpty_iff_length_eq_zero]
      omega
    simp only [cut, ofPieces, locateFrom, htext, htag, hdrop, if_neg hfull, ih hrest]
    by_cases hbefore : upto < s.start
    · rw [if_neg (by rw [hgap]; omega), if_pos hbefore]
      rfl
    · rw [if_pos (hgap.mpr hbefore), if_neg hbefore]
      rfl

theorem lex_eq_unplaced (source : String) : lex source = (locate source).map unplaced := by
  have h : ofPieces 1 (cut 0 (source.toList.drop 0) (tagSpans source.toList)) = _ :=
    ofPieces_cut (tagSpans_ordered source.toList)
  rwa [List.drop_zero] at h

/-! ## Places -/

/-- Whether a token says what stands in a stretch of a text: the line on which the stretch begins,
and literal text as it is, or the trimmed inside of a tag with the kind that its opening tells. -/
structure Shows (cs : List Char) (t : Token) (s : Span) : Prop where
  span : t.span = some s
  line : t.line = 1 + lineBreaks (cs.take s.start)
  text : t.kind = .text → t.contents.toList = slice cs s
  output : t.kind = .output → ['{', '{'] <+: slice cs s ∧
    t.contents.toList = trim (slice cs ⟨s.start + 2, s.stop - 2⟩)
  block : t.kind = .block → ['{', '%'] <+: slice cs s ∧
    t.contents.toList = trim (slice cs ⟨s.start + 2, s.stop - 2⟩)

/-- Whether tokens stand for the whole of a text from `upto` on: each for a stretch that is not
empty, the next from the end of that stretch on. -/
def Tile (cs : List Char) : Nat → List Token → Prop
  | upto, [] => upto = cs.length
  | upto, t :: rest => ∃ s, t.Shows cs s ∧ s.start = upto ∧ s.start < s.stop ∧ Tile cs s.stop rest

def TextsApart (tokens : List Token) : Prop :=
  ∀ t u, [t, u] <:+: tokens → t.kind = .text → u.kind ≠ .text

theorem shows_ofText {cs : List Char} {s : Span} {line : Nat}
    (hline : line = 1 + lineBreaks (cs.take s.start)) :
    (ofText (slice cs s) line (some s)).Shows cs s where
  span := rfl
  line := hline
  text _ := String.toList_ofList
  output h := by cases h
  block h := by cases h

theorem inside_slice {cs : List Char} {s : Span} (hlength : s.start + 5 ≤ s.stop)
    (hstop : s.stop ≤ cs.length) :
    inside (slice cs s) = trim (slice cs ⟨s.start + 2, s.stop - 2⟩) := by
  have hinner : (slice cs s).drop 2 = slice cs ⟨s.start + 2, s.stop⟩ := by
    have hdrop : (slice cs s).drop (s.start + 2 - s.start) = slice cs ⟨s.start + 2, s.stop⟩ :=
      drop_slice (show s.start ≤ s.start + 2 by omega)
    rwa [show s.start + 2 - s.start = 2 by omega] at hdrop
  rw [inside, hinner, length_slice hstop, slice, slice, List.take_take]
  show trim (List.take (min (s.stop - s.start - 4) (s.stop - (s.start + 2))) _) = _
  have hmin : min (s.stop - s.start - 4) (s.stop - (s.start + 2)) =
      s.stop - 2 - (s.start + 2) := by omega
  rw [hmin]

theorem shows_ofTag {cs : List Char} {s : Span} {line : Nat} (hstop : s.stop ≤ cs.length)
    (htag : tagLength? (cs.drop s.start) = some (s.stop - s.start))
    (hline : line = 1 + lineBreaks (cs.take s.start)) :
    (ofTag (slice cs s) line (some s)).Shows cs s := by
  obtain ⟨hopening, hfive, -⟩ := tagLength_eq_some htag
  have hinside : inside (slice cs s) = trim (slice cs ⟨s.start + 2, s.stop - 2⟩) :=
    inside_slice (by omega) hstop
  have hcontents : (ofTag (slice cs s) line (some s)).contents.toList =
      trim (slice cs ⟨s.start + 2, s.stop - 2⟩) := by
    rw [← hinside]
    exact String.toList_ofList
  -- An opening lies within the tag, as the tag is longer.
  have opens : ∀ {start : List Char}, start.length = 2 →
      (start <+: slice cs s ↔ start <+: cs.drop s.start) := by
    intro start hstart
    rw [slice, List.prefix_take_iff]
    have : start.length ≤ s.stop - s.start := by omega
    simp [this]
  have hkind : (ofTag (slice cs s) line (some s)).kind =
      if ['{', '{'].isPrefixOf (slice cs s) then .output else .block := rfl
  refine ⟨rfl, hline, fun h => ?_, fun h => ⟨?_, hcontents⟩, fun h => ⟨?_, hcontents⟩⟩
  · rw [hkind] at h
    split at h
    · cases h
    · cases h
  · rw [hkind] at h
    split at h
    · next houtput => exact List.isPrefixOf_iff_prefix.mp houtput
    · cases h
  · rw [hkind] at h
    split at h
    · cases h
    · next houtput =>
      rw [List.isPrefixOf_iff_prefix, opens rfl] at houtput
      rw [opens rfl]
      exact hopening.resolve_left houtput

theorem lineBreaks_take {cs : List Char} {s : Span} (h : s.start ≤ s.stop) :
    lineBreaks (cs.take s.stop) = lineBreaks (cs.take s.start) + lineBreaks (slice cs s) := by
  rw [← take_append_slice h, lineBreaks, List.count_append]
  rfl

theorem tile_locateFrom {cs : List Char} {spans : List Span} {upto line : Nat}
    (h : Ordered upto cs.length spans)
    (htags : ∀ s ∈ spans, tagLength? (cs.drop s.start) = some (s.stop - s.start))
    (hline : line = 1 + lineBreaks (cs.take upto)) :
    Tile cs upto (locateFrom cs upto line spans) := by
  induction spans generalizing upto line with
  | nil =>
    have hupto : upto ≤ cs.length := h
    have hend : cs.drop upto = slice cs ⟨upto, cs.length⟩ := by
      rw [slice, List.take_of_length_le]
      simp
    rw [locateFrom]
    by_cases hempty : (cs.drop upto).isEmpty = true
    · rw [if_pos hempty]
      rw [List.isEmpty_iff_length_eq_zero, List.length_drop] at hempty
      show upto = cs.length
      omega
    · rw [if_neg hempty]
      rw [List.isEmpty_iff_length_eq_zero, List.length_drop] at hempty
      have hstop : upto + (cs.drop upto).length = cs.length := by
        rw [List.length_drop]
        omega
      rw [hstop, hend]
      refine ⟨⟨upto, cs.length⟩, shows_ofText hline, rfl, ?_, rfl⟩
      show upto < cs.length
      omega
  | cons s rest ih =>
    obtain ⟨hstart, hlt, hrest⟩ := h
    have hstop := hrest.le
    have hgap := @lineBreaks_take cs ⟨upto, s.start⟩ hstart
    have htagLine : line + lineBreaks (slice cs ⟨upto, s.start⟩) =
        1 + lineBreaks (cs.take s.start) := by
      simp only at hgap
      omega
    have htag := @lineBreaks_take cs s (by omega)
    have hothers : Tile cs s.start (ofTag (slice cs s)
        (line + lineBreaks (slice cs ⟨upto, s.start⟩)) (some s) ::
        locateFrom cs s.stop (line + lineBreaks (slice cs ⟨upto, s.start⟩) +
          lineBreaks (slice cs s)) rest) := by
      refine ⟨s, shows_ofTag hstop (htags s List.mem_cons_self) htagLine, rfl, hlt, ?_⟩
      exact ih hrest (fun u hu => htags u (List.mem_cons_of_mem s hu)) (by omega)
    rw [locateFrom]
    by_cases hbefore : upto < s.start
    · rw [if_pos hbefore]
      exact ⟨⟨upto, s.start⟩, shows_ofText hline, rfl, hbefore, hothers⟩
    · obtain rfl : upto = s.start := by omega
      rw [if_neg hbefore]
      exact hothers

theorem textsApart_cons {t : Token} {tokens : List Token} (h : TextsApart tokens)
    (hnext : t.kind = .text → ∀ u ∈ tokens.head?, u.kind ≠ .text) : TextsApart (t :: tokens) := by
  intro a b hpart ha
  rcases List.infix_cons_iff.mp hpart with hfirst | hlater
  · obtain ⟨rfl, hb⟩ := List.cons_prefix_cons.mp hfirst
    cases tokens with
    | nil => simp at hb
    | cons u rest =>
      obtain ⟨rfl, -⟩ := List.cons_prefix_cons.mp hb
      exact hnext ha b rfl
  · exact h a b hlater ha

theorem kind_ofTag_ne_text (tag : List Char) (line : Nat) (span : Option Span) :
    (ofTag tag line span).kind ≠ .text := by
  rw [ofTag]
  split <;> simp

theorem textsApart_locateFrom (cs : List Char) (upto line : Nat) (spans : List Span) :
    TextsApart (locateFrom cs upto line spans) := by
  induction spans generalizing upto line with
  | nil =>
    rw [locateFrom]
    have hnil : TextsApart [] := fun t u h => by simp at h
    split
    · exact hnil
    · exact textsApart_cons hnil (by simp)
  | cons s rest ih =>
    rw [locateFrom]
    have hothers : ∀ tagLine next, TextsApart (ofTag (slice cs s) tagLine (some s) ::
        locateFrom cs s.stop next rest) := by
      intro tagLine next
      refine textsApart_cons (ih _ _) fun h => ?_
      exact absurd h (kind_ofTag_ne_text _ _ _)
    split
    · refine textsApart_cons (hothers _ _) fun _ u hu => ?_
      obtain rfl : _ = u := Option.some.inj hu
      exact kind_ofTag_ne_text _ _ _
    · exact hothers _ _

theorem tile_locate (source : String) : Tile source.toList 0 (locate source) :=
  tile_locateFrom (tagSpans_ordered source.toList) (fun _ => length_of_mem_matchSpans) rfl

theorem shows_of_mem_tile {cs : List Char} {upto : Nat} {tokens : List Token} {t : Token}
    (h : Tile cs upto tokens) (ht : t ∈ tokens) : ∃ s, t.Shows cs s := by
  induction tokens generalizing upto with
  | nil => cases ht
  | cons u rest ih =>
    obtain ⟨s, hshows, -, -, hrest⟩ := h
    rcases List.mem_cons.mp ht with rfl | ht
    · exact ⟨s, hshows⟩
    · exact ih hrest ht

theorem contents_isInfix_of_tile {cs : List Char} {upto : Nat} {tokens : List Token} {t : Token}
    (h : Tile cs upto tokens) (ht : t ∈ tokens) : t.contents.toList <:+: cs := by
  induction tokens generalizing upto with
  | nil => cases ht
  | cons u rest ih =>
    obtain ⟨s, hshows, -, -, hrest⟩ := h
    rcases List.mem_cons.mp ht with rfl | ht
    · cases hkind : t.kind with
      | text =>
        rw [hshows.text hkind]
        exact slice_isInfix cs s
      | output =>
        rw [(hshows.output hkind).2]
        exact (trim_isInfix _).trans (slice_isInfix cs _)
      | block =>
        rw [(hshows.block hkind).2]
        exact (trim_isInfix _).trans (slice_isInfix cs _)
    · exact ih hrest ht

/-- What a token of a template contains is a stretch of the template. -/
theorem contents_isInfix {located : Bool} {source : String} {t : Token}
    (h : t ∈ tokens located source) : t.contents.toList <:+: source.toList := by
  cases located with
  | true => exact contents_isInfix_of_tile (tile_locate source) h
  | false =>
    have hlex : t ∈ (locate source).map unplaced := by
      rw [← lex_eq_unplaced]
      exact h
    obtain ⟨u, hu, rfl⟩ := List.mem_map.mp hlex
    have hpart := contents_isInfix_of_tile (tile_locate source) hu
    exact hpart

/-- Cutting a template with places and without gives the same tokens, and the places tile the
template.  Each token says what stands in its place, and no two literal texts are adjacent. -/
theorem lex_locate (source : String) :
    lex source = (locate source).map unplaced ∧ Tile source.toList 0 (locate source) ∧
      TextsApart (locate source) :=
  ⟨lex_eq_unplaced source, tile_locate source, textsApart_locateFrom _ _ _ _⟩

end Token
end Quill
