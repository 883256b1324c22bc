import Quill.Proofs.Template.Lexing
import Quill.Proofs.Template.Relocation

/-!
A template between the tags of a loop.

The tags of the body are found in the whole as they are in the body, as long as no block tag is
opened in its literal text.  An output tag may be opened there, and the text may end in a brace:
the closing tag of a loop holds no close of an output tag.
-/

namespace Quill
namespace Token

open Text

/-! ## Tags in longer texts -/

theorem closing_append {c : Char} {cs : List Char} {n : Nat} (h : closing? c cs = some n)
    (more : List Char) : closing? c (cs ++ more) = some n := by
  fun_induction closing? c cs generalizing n with
  | case1 => cases h
  | case2 => cases h
  | case3 a b rest hclose =>
    rw [List.cons_append, List.cons_append, closing?, if_pos hclose]
    exact h
  | case4 a b rest hclose ih =>
    obtain ⟨k, hk, rfl⟩ := Option.map_eq_some_iff.mp h
    have hmore : closing? c (b :: (rest ++ more)) = some k := ih hk
    rw [List.cons_append, List.cons_append, closing?, if_neg hclose, hmore]
    rfl

theorem tagLength_stable : Stable tagLength? := by
  intro cs more n h
  unfold tagLength? at h
  split at h
  · next d rest =>
    obtain ⟨k, hk, rfl⟩ := Option.map_eq_some_iff.mp h
    have hmore := closing_append hk more
    simp [tagLength?, hmore]
  · next d rest =>
    obtain ⟨k, hk, rfl⟩ := Option.map_eq_some_iff.mp h
    have hmore := closing_append hk more
    simp [tagLength?, hmore]
  · cases h

/-- No close is found in a text that holds none. -/
theorem closing_of_not_isInfix {c : Char} {cs : List Char} (h : ¬ [c, '}'] <:+: cs) :
    closing? c cs = none := by
  fun_induction closing? c cs with
  | case1 => rfl
  | case2 => rfl
  | case3 a b rest hclose =>
    simp only [Bool.and_eq_true, beq_iff_eq] at hclose
    obtain ⟨rfl, rfl⟩ := hclose
    exact absurd (List.prefix_append [a, '}'] rest).isInfix h
  | case4 a b rest hclose ih =>
    rw [ih fun hpart => h (hpart.trans (List.suffix_cons a (b :: rest)).isInfix)]
    rfl

/-- Two texts in a row hold no close if neither does and none lies across the seam. -/
theorem closing_append_eq_none {c : Char} {front back : List Char}
    (hfront : closing? c front = none) (hback : closing? c back = none)
    (hseam : front.getLast? = some c → back.head? ≠ some '}') :
    closing? c (front ++ back) = none := by
  fun_induction closing? c front with
  | case1 => exact hback
  | case2 a =>
    cases back with
    | nil => rfl
    | cons b rest =>
      have hb : ¬ (a == c && b == '}') = true := by
        rw [Bool.and_eq_true, beq_iff_eq, beq_iff_eq]
        rintro ⟨rfl, rfl⟩
        exact hseam rfl rfl
      show closing? c (a :: b :: rest) = none
      rw [closing?, if_neg hb, hback]
      rfl
  | case3 a b rest hclose => cases hfront
  | case4 a b rest hclose ih =>
    have hrest : closing? c (b :: (rest ++ back)) = none := by
      refine ih (Option.map_eq_none_iff.mp hfront) fun hlast => hseam ?_
      rwa [List.getLast?_cons_cons]
    rw [List.cons_append, List.cons_append, closing?, if_neg hclose, hrest]
    rfl

/-- The first close of a text without one is that which is put behind it. -/
theorem closing_append_close {c : Char} {cs : List Char} (h : closing? c cs = none) (hc : c ≠ '}') :
    closing? c (cs ++ [c, '}']) = some (cs.length + 2) := by
  fun_induction closing? c cs with
  | case1 => simp [closing?]
  | case2 a => simp [closing?, hc]
  | case3 a b rest hclose => cases h
  | case4 a b rest hclose ih =>
    have hrest : closing? c (b :: (rest ++ [c, '}'])) = some ((b :: rest).length + 2) :=
      ih (Option.map_eq_none_iff.mp h)
    rw [List.cons_append, List.cons_append, closing?, if_neg hclose, hrest]
    rfl

def endTag : List Char := "{% endfor %}".toList

theorem tagLength_of_not_open {cs : List Char} (houtput : ¬ ['{', '{'] <+: cs)
    (hblock : ¬ ['{', '%'] <+: cs) : tagLength? cs = none := by
  cases h : tagLength? cs with
  | none => rfl
  | some n => exact absurd (tagLength_eq_some h).1 (not_or.mpr ⟨houtput, hblock⟩)

/-- The tag that closes a loop makes no tag of what stands before it, unless a block tag is opened
there. -/
theorem tagLength_append_endTag {cs : List Char} (hcs : cs ≠ []) (h : tagLength? cs = none)
    (hopen : ¬ ['{', '%'] <+: cs) : tagLength? (cs ++ endTag) = none := by
  match cs with
  | [] => exact absurd rfl hcs
  | [c] =>
    by_cases hc : c = '{'
    · subst hc
      rfl
    · exact tagLength_of_not_open (by simp [Ne.symm hc]) (by simp [Ne.symm hc])
  | [c, d] =>
    by_cases hc : ['{', '{'] <+: [c, d]
    · obtain ⟨rfl, rfl⟩ : '{' = c ∧ '{' = d := by simpa using hc
      rfl
    · exact tagLength_of_not_open (by simpa using hc) (by simpa using hopen)
  | c :: d :: a :: rest =>
    by_cases hc : ['{', '{'] <+: c :: d :: a :: rest
    · obtain ⟨rfl, rfl⟩ : '{' = c ∧ '{' = d := by simpa using hc
      have hrest : closing? '}' rest = none := Option.map_eq_none_iff.mp h
      have hwhole := closing_append_eq_none hrest (show closing? '}' endTag = none from rfl)
        fun _ => by decide
      show (closing? '}' (rest ++ endTag)).map (· + 3) = none
      rw [hwhole]
      rfl
    · exact tagLength_of_not_open (by simpa using hc) (by simpa using hopen)

theorem matchesFrom_tag {tag : List Char} (h : tagLength? tag = some tag.length) (offset : Nat) :
    matchesFrom tagLength? 0 offset tag = [⟨offset, offset + tag.length⟩] := by
  cases tag with
  | nil => cases h
  | cons c rest =>
    rw [matchesFrom_of_match h, matchesFrom_length]
    rfl

/-- Whether no block tag is opened in the literal text of a template, outside of its tags. -/
def OpensNoBlock (cs : List Char) : Prop :=
  ∀ place, Outside (tagSpans cs) place → ¬ ['{', '%'] <+: cs.drop place

/-- The tags of a template and the tag that closes a loop. -/
theorem tagSpans_append_endTag {body : List Char} (hbody : OpensNoBlock body) :
    tagSpans (body ++ endTag) =
      tagSpans body ++ [⟨body.length, body.length + endTag.length⟩] := by
  have hend : matchesFrom tagLength? 0 (0 + body.length) endTag =
      [⟨body.length, body.length + endTag.length⟩] := by
    rw [Nat.zero_add, matchesFrom_tag rfl]
  rw [tagSpans, matchSpans, ← hend]
  refine matchesFrom_append tagLength_bounded tagLength_stable (Nat.zero_le _) ?_
  intro place _ hlt houtside
  rw [Nat.zero_add] at houtside
  have hne : body.drop place ≠ [] := by
    rw [ne_eq, List.drop_eq_nil_iff]
    omega
  refine tagLength_append_endTag hne ?_ (hbody place houtside)
  cases hnone : tagLength? (body.drop place) with
  | none => rfl
  | some n =>
    have hfive := (tagLength_eq_some hnone).2.1
    have houtside' : Outside (matchesFrom tagLength? 0 0 body) (0 + place) := by
      rwa [Nat.zero_add]
    refine absurd hnone ?_
    rw [show n = n - 1 + 1 by omega]
    exact no_match_of_outside (Nat.zero_le _) houtside' _ hlt

/-- After a tag all tags stand as far on as it is long. -/
theorem tagSpans_tag_append {tag : List Char} (htag : tagLength? tag = some tag.length)
    (rest : List Char) :
    tagSpans (tag ++ rest) = ⟨0, tag.length⟩ :: (tagSpans rest).map (Span.shift tag.length) := by
  have hfirst : matchesFrom tagLength? 0 0 tag = [⟨0, tag.length⟩] := by
    rw [matchesFrom_tag htag, Nat.zero_add]
  have hsplit : tagSpans (tag ++ rest) = matchesFrom tagLength? 0 0 tag ++
      matchesFrom tagLength? 0 (0 + tag.length) rest := by
    refine matchesFrom_append tagLength_bounded tagLength_stable (Nat.zero_le _) ?_
    intro place _ hlt houtside
    rw [hfirst] at houtside
    have hinside := houtside ⟨0, tag.length⟩ List.mem_cons_self
    dsimp only at hinside
    omega
  rw [hsplit, hfirst, Nat.add_comm 0, matchesFrom_shift]
  rfl

/-! ## Tokens in longer texts -/

def shift (lines chars : Nat) (t : Token) : Token :=
  { t with line := lines + t.line, span := t.span.map (Span.shift chars) }

theorem keeps_shift (lines chars : Nat) : Keeps (shift lines chars) :=
  ⟨fun _ => rfl, fun _ => rfl⟩

theorem keeps_unplaced : Keeps unplaced := ⟨fun _ => rfl, fun _ => rfl⟩

theorem locateFrom_shift (front cs : List Char) (upto lines line : Nat) (spans : List Span) :
    locateFrom (front ++ cs) (front.length + upto) (lines + line)
        (spans.map (Span.shift front.length)) =
      (locateFrom cs upto line spans).map (shift lines front.length) := by
  induction spans generalizing upto line with
  | nil =>
    rw [List.map_nil, locateFrom, locateFrom, ← List.drop_drop, List.drop_left]
    split
    · rfl
    · rw [Nat.add_assoc]
      rfl
  | cons s rest ih =>
    have htext : slice (front ++ cs) ⟨front.length + upto, front.length + s.start⟩ =
        slice cs ⟨upto, s.start⟩ := slice_shift front cs ⟨upto, s.start⟩
    have hlt : front.length + upto < front.length + s.start ↔ upto < s.start := by omega
    rw [List.map_cons, locateFrom, locateFrom, slice_shift]
    simp only [Span.shift, htext, hlt, Nat.add_assoc, ih]
    split
    · rfl
    · rfl

theorem locateFrom_append_tag {cs : List Char} {spans : List Span} {upto line : Nat}
    (h : Ordered upto cs.length spans) (tag : List Char) :
    ∃ tagLine, locateFrom (cs ++ tag) upto line
        (spans ++ [⟨cs.length, cs.length + tag.length⟩]) =
      locateFrom cs upto line spans ++
        [ofTag tag tagLine (some ⟨cs.length, cs.length + tag.length⟩)] := by
  induction spans generalizing upto line with
  | nil =>
    have hupto : upto ≤ cs.length := h
    have htext : slice (cs ++ tag) ⟨upto, cs.length⟩ = cs.drop upto := by
      rw [slice_append hupto (Nat.le_refl _), slice, List.take_of_length_le]
      simp
    have htag : slice (cs ++ tag) ⟨cs.length, cs.length + tag.length⟩ = tag := by
      rw [slice, List.drop_left, Nat.add_sub_cancel_left, List.take_length]
    have hlast : (cs ++ tag).drop (cs.length + tag.length) = [] := by simp
    have hempty : (cs.drop upto).isEmpty = true ↔ ¬ upto < cs.length := by
      rw [List.isEmpty_iff_length_eq_zero, List.length_drop]
      omega
    refine ⟨line + lineBreaks (cs.drop upto), ?_⟩
    rw [List.nil_append, locateFrom, locateFrom, locateFrom]
    simp only [htext, htag, hlast, List.isEmpty_nil, if_true]
    by_cases hlt : upto < cs.length
    · have hstop : upto + (cs.drop upto).length = cs.length := by
        rw [List.length_drop]
        omega
      rw [if_pos hlt, if_neg (by rw [hempty]; exact fun hnot => hnot hlt), hstop]
      rfl
    · rw [if_neg hlt, if_pos (hempty.mpr hlt)]
      rfl
  | cons s rest ih =>
    obtain ⟨hstart, hlt, hrest⟩ := h
    have hstop := hrest.le
    have htext : slice (cs ++ tag) ⟨upto, s.start⟩ = slice cs ⟨upto, s.start⟩ :=
      slice_append hstart (show s.start ≤ cs.length by omega) tag
    obtain ⟨tagLine, htagLine⟩ := ih hrest
    refine ⟨tagLine, ?_⟩
    rw [List.cons_append, locateFrom, locateFrom, slice_append (by omega) hstop, htext, htagLine]
    split
    · rfl
    · rfl

theorem locate_tag_append {tag : List Char} (htag : tagLength? tag = some tag.length)
    (rest : List Char) :
    locate (String.ofList (tag ++ rest)) = ofTag tag 1 (some ⟨0, tag.length⟩) ::
      (locate (String.ofList rest)).map (shift (lineBreaks tag) tag.length) := by
  have htake : slice (tag ++ rest) ⟨0, tag.length⟩ = tag := by
    rw [slice_append (Nat.zero_le _) (Nat.le_refl _), slice, List.drop_zero, Nat.sub_zero,
      List.take_length]
  have hrest := locateFrom_shift tag rest 0 (lineBreaks tag) 1 (tagSpans rest)
  rw [locate, locate, String.toList_ofList, String.toList_ofList, tagSpans_tag_append htag,
    locateFrom, if_neg (Nat.lt_irrefl 0), htake, ← hrest, Nat.add_comm (lineBreaks tag)]
  rfl

theorem locate_append_endTag {body : List Char} (hbody : OpensNoBlock body) :
    ∃ line span, locate (String.ofList (body ++ endTag)) =
      locate (String.ofList body) ++ [ofTag endTag line span] := by
  have hspans := tagSpans_ordered body
  obtain ⟨line, hline⟩ : ∃ line, locateFrom (body ++ endTag) 0 1 _ = _ :=
    locateFrom_append_tag hspans endTag
  refine ⟨line, some ⟨body.length, body.length + endTag.length⟩, ?_⟩
  rw [locate, locate, String.toList_ofList, String.toList_ofList, tagSpans_append_endTag hbody]
  exact hline

/-- The tokens of a template between the tags of a loop: that of the head, those of the template,
which stand further on, and that of the end. -/
theorem tokens_loop (located : Bool) {head body : List Char}
    (hhead : tagLength? head = some head.length) (hbody : OpensNoBlock body) :
    ∃ f line span line' span', Keeps f ∧
      tokens located (String.ofList (head ++ (body ++ endTag))) = ofTag head line span ::
        ((tokens located (String.ofList body)).map f ++ [ofTag endTag line' span']) := by
  obtain ⟨line, span, hend⟩ := locate_append_endTag hbody
  have hlocate := locate_tag_append hhead (body ++ endTag)
  rw [hend, List.map_append] at hlocate
  have hkeeps := keeps_shift (lineBreaks head) head.length
  cases located with
  | true => exact ⟨_, _, _, _, _, hkeeps, hlocate⟩
  | false =>
    refine ⟨shift (lineBreaks head) head.length, 1, none, lineBreaks head + line, none, hkeeps, ?_⟩
    have hcomm : unplaced ∘ shift (lineBreaks head) head.length =
        shift (lineBreaks head) head.length ∘ unplaced := rfl
    show lex _ = _ :: ((lex _).map _ ++ _)
    rw [lex_eq_unplaced, lex_eq_unplaced, hlocate, List.map_cons, List.map_append, List.map_map,
      hcomm, ← List.map_map]
    rfl

end Token
end Quill
