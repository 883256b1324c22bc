import Quill.Proofs.Template.Lexing
import Quill.Template

/-!
Where the tags of a template lie.

A tag runs from its opening to the first close that leaves a character between them.  Literal text
holds no opening that such a close follows, however far on.  So a template in which no close
follows an opening is nothing but literal text, and it is rendered as it stands.
-/

namespace Quill
namespace Token

open Text

/-- An opening and a close of one kind, with at least one character between them. -/
inductive Paired (cs : List Char) : Kind → Nat → Nat → Prop
  | output {start stop : Nat} : ['{', '{'] <+: cs.drop start → start + 3 ≤ stop →
      ['}', '}'] <+: cs.drop stop → Paired cs .output start stop
  | block {start stop : Nat} : ['{', '%'] <+: cs.drop start → start + 3 ≤ stop →
      ['%', '}'] <+: cs.drop stop → Paired cs .block start stop

/-- A brace stands where a tag begins. -/
theorem Paired.start {cs : List Char} {kind : Kind} {start stop : Nat}
    (h : Paired cs kind start stop) : cs[start]? = some '{' := by
  have first : ∀ {c : Char}, ['{', c] <+: cs.drop start → cs[start]? = some '{' := by
    rintro c ⟨rest, hrest⟩
    rw [← List.head?_drop, ← hrest]
    rfl
  cases h with
  | output hopen => exact first hopen
  | block hopen => exact first hopen

/-- The last character of a tag closes a brace. -/
theorem Paired.brace {cs : List Char} {kind : Kind} {start stop : Nat}
    (h : Paired cs kind start stop) : cs[stop + 1]? = some '}' := by
  have second : ∀ {c : Char}, [c, '}'] <+: cs.drop stop → cs[stop + 1]? = some '}' := by
    rintro c ⟨rest, hrest⟩
    rw [← List.getElem?_drop, ← hrest]
    rfl
  cases h with
  | output _ _ hclose => exact second hclose
  | block _ _ hclose => exact second hclose

/-! ## Closes -/

theorem close_of_closing {c : Char} {cs : List Char} {n : Nat} (h : closing? c cs = some n) :
    ∃ k, n = k + 2 ∧ [c, '}'] <+: cs.drop k := by
  fun_induction closing? c cs generalizing n with
  | case1 => cases h
  | case2 => cases h
  | case3 a b rest hclose =>
    simp only [Bool.and_eq_true, beq_iff_eq] at hclose
    obtain ⟨rfl, rfl⟩ := hclose
    cases h
    exact ⟨0, rfl, List.prefix_append [a, '}'] rest⟩
  | case4 a b rest hclose ih =>
    obtain ⟨m, hm, rfl⟩ := Option.map_eq_some_iff.mp h
    obtain ⟨k, rfl, hk⟩ := ih hm
    exact ⟨k + 1, rfl, hk⟩

/-- Where there is a close, one is found that begins there or before. -/
theorem closing_of_close {c : Char} {cs : List Char} {k : Nat} (h : [c, '}'] <+: cs.drop k) :
    ∃ n, closing? c cs = some n ∧ n ≤ k + 2 := by
  fun_induction closing? c cs generalizing k with
  | case1 => simp at h
  | case2 a =>
    have hle := h.length_le
    simp only [List.length_drop, List.length_cons, List.length_nil] at hle
    omega
  | case3 a b rest hclose => exact ⟨2, rfl, Nat.le_add_left 2 k⟩
  | case4 a b rest hclose ih =>
    cases k with
    | zero =>
      obtain ⟨rfl, hrest⟩ := List.cons_prefix_cons.mp h
      obtain ⟨rfl, -⟩ := List.cons_prefix_cons.mp hrest
      simp at hclose
    | succ k =>
      obtain ⟨n, hn, hle⟩ := ih h
      refine ⟨n + 1, by rw [hn]; rfl, ?_⟩
      omega

/-! ## Tags -/

theorem tagLength_of_output {cs : List Char} (h : ['{', '{'] <+: cs) :
    tagLength? cs = (closing? '}' (cs.drop 3)).map (· + 3) := by
  obtain ⟨rest, rfl⟩ := h
  cases rest <;> rfl

theorem tagLength_of_block {cs : List Char} (h : ['{', '%'] <+: cs) :
    tagLength? cs = (closing? '%' (cs.drop 3)).map (· + 3) := by
  obtain ⟨rest, rfl⟩ := h
  cases rest <;> rfl

/-- A tag is found wherever a close follows an opening, and it ends with that close or before. -/
theorem tagLength_of_paired {cs : List Char} {kind : Kind} {start stop : Nat}
    (h : Paired cs kind start stop) :
    ∃ n, tagLength? (cs.drop start) = some (n + 3) ∧ start + n + 1 ≤ stop := by
  have found : ∀ {c : Char}, start + 3 ≤ stop → [c, '}'] <+: cs.drop stop →
      ∃ n, closing? c ((cs.drop start).drop 3) = some n ∧ start + n + 1 ≤ stop := by
    intro c hle hclose
    have hdrop : ((cs.drop start).drop 3).drop (stop - (start + 3)) = cs.drop stop := by
      rw [List.drop_drop, List.drop_drop, show start + (3 + (stop - (start + 3))) = stop by omega]
    obtain ⟨n, hn, hbound⟩ := closing_of_close (hdrop ▸ hclose)
    exact ⟨n, hn, by omega⟩
  cases h with
  | output hopen hle hclose =>
    obtain ⟨n, hn, hbound⟩ := found hle hclose
    exact ⟨n, by rw [tagLength_of_output hopen, hn]; rfl, hbound⟩
  | block hopen hle hclose =>
    obtain ⟨n, hn, hbound⟩ := found hle hclose
    exact ⟨n, by rw [tagLength_of_block hopen, hn]; rfl, hbound⟩

/-- The end of a tag that is found is the first close after its opening. -/
theorem first_of_tagLength {cs : List Char} {kind : Kind} {s : Span} {stop : Nat}
    (htag : tagLength? (cs.drop s.start) = some (s.stop - s.start))
    (hother : Paired cs kind s.start stop) : s.stop ≤ stop + 2 := by
  obtain ⟨n, hn, hle⟩ := tagLength_of_paired hother
  have hsame : s.stop - s.start = n + 3 := Option.some.inj (htag.symm.trans hn)
  omega

theorem paired_of_tagLength {cs : List Char} {s : Span}
    (htag : tagLength? (cs.drop s.start) = some (s.stop - s.start)) :
    (['{', '{'] <+: cs.drop s.start → ∃ stop, s.stop = stop + 2 ∧ Paired cs .output s.start stop) ∧
    (['{', '%'] <+: cs.drop s.start →
      ∃ stop, s.stop = stop + 2 ∧ Paired cs .block s.start stop) := by
  have found : ∀ {c : Char}, (closing? c ((cs.drop s.start).drop 3)).map (· + 3) =
      some (s.stop - s.start) →
      ∃ stop, s.stop = stop + 2 ∧ s.start + 3 ≤ stop ∧ [c, '}'] <+: cs.drop stop := by
    intro c hclosing
    obtain ⟨n, hn, hlength⟩ := Option.map_eq_some_iff.mp hclosing
    obtain ⟨k, rfl, hk⟩ := close_of_closing hn
    rw [List.drop_drop, List.drop_drop, ← Nat.add_assoc] at hk
    exact ⟨s.start + 3 + k, by omega, by omega, hk⟩
  constructor
  · intro hopen
    rw [tagLength_of_output hopen] at htag
    obtain ⟨stop, hstop, hle, hclose⟩ := found htag
    exact ⟨stop, hstop, .output hopen hle hclose⟩
  · intro hopen
    rw [tagLength_of_block hopen] at htag
    obtain ⟨stop, hstop, hle, hclose⟩ := found htag
    exact ⟨stop, hstop, .block hopen hle hclose⟩

theorem exists_paired_of_mem_tagSpans {cs : List Char} {s : Span} (hs : s ∈ tagSpans cs) :
    ∃ kind stop, s.stop = stop + 2 ∧ Paired cs kind s.start stop := by
  have htag := length_of_mem_matchSpans hs
  rcases (tagLength_eq_some htag).1 with hopen | hopen
  · obtain ⟨stop, hstop, hpaired⟩ := (paired_of_tagLength htag).1 hopen
    exact ⟨.output, stop, hstop, hpaired⟩
  · obtain ⟨stop, hstop, hpaired⟩ := (paired_of_tagLength htag).2 hopen
    exact ⟨.block, stop, hstop, hpaired⟩

/-! ## Tokens and the tags that are found -/

/-- A tag stands where one was found, and literal text where none was. -/
theorem place_of_mem_locateFrom {cs : List Char} {spans : List Span} {upto line : Nat} {t : Token}
    (h : Ordered upto cs.length spans) (ht : t ∈ locateFrom cs upto line spans) {s : Span}
    (hs : t.span = some s) : upto ≤ s.start ∧ (t.kind ≠ .text → s ∈ spans) ∧
      (t.kind = .text → ∀ place, s.start ≤ place → place < s.stop →
        place < cs.length ∧ Outside spans place) := by
  induction spans generalizing upto line with
  | nil =>
    rw [locateFrom] at ht
    split at ht
    · cases ht
    · obtain rfl := List.mem_singleton.mp ht
      cases hs
      refine ⟨Nat.le_refl _, fun hkind => absurd rfl hkind, fun _ place hstart hstop => ?_⟩
      dsimp only at hstart hstop
      rw [List.length_drop] at hstop
      exact ⟨by omega, fun other hother => by cases hother⟩
  | cons first rest ih =>
    obtain ⟨hstart, hlt, hrest⟩ := h
    have hend := hrest.le
    rw [locateFrom] at ht
    have others : ∀ {tagLine next}, t ∈ ofTag (slice cs first) tagLine (some first) ::
        locateFrom cs first.stop next rest → upto ≤ s.start ∧ (t.kind ≠ .text → s ∈ first :: rest) ∧
          (t.kind = .text → ∀ place, s.start ≤ place → place < s.stop →
            place < cs.length ∧ Outside (first :: rest) place) := by
      intro tagLine next hmem
      rcases List.mem_cons.mp hmem with rfl | hlater
      · cases hs
        exact ⟨hstart, fun _ => List.mem_cons_self,
          fun hkind => absurd hkind (kind_ofTag_ne_text _ _ _)⟩
      · obtain ⟨hle, htag, htext⟩ := ih hrest hlater
        refine ⟨by omega, fun hkind => List.mem_cons_of_mem first (htag hkind), ?_⟩
        intro hkind place hplace hstop
        obtain ⟨hlength, houtside⟩ := htext hkind place hplace hstop
        refine ⟨hlength, List.forall_mem_cons.mpr ⟨?_, houtside⟩⟩
        omega
    split at ht
    · rcases List.mem_cons.mp ht with rfl | hmem
      · cases hs
        refine ⟨Nat.le_refl _, fun hkind => absurd rfl hkind, fun _ place hplace hstop => ?_⟩
        dsimp only at hplace hstop
        refine ⟨by omega, List.forall_mem_cons.mpr ⟨by omega, fun other hother => ?_⟩⟩
        have hlater := hrest.le_start hother
        omega
      · exact others hmem
    · exact others ht

theorem place_of_mem_locate {source : String} {t : Token} (ht : t ∈ locate source) {s : Span}
    (hs : t.span = some s) : (t.kind ≠ .text → s ∈ tagSpans source.toList) ∧
      (t.kind = .text → ∀ place, s.start ≤ place → place < s.stop →
        place < source.toList.length ∧ Outside (tagSpans source.toList) place) :=
  (place_of_mem_locateFrom (tagSpans_ordered source.toList) ht hs).2

theorem exists_mem_locateFrom {cs : List Char} {spans : List Span} {upto line : Nat} {s : Span}
    (hs : s ∈ spans) : ∃ t ∈ locateFrom cs upto line spans, t.kind ≠ .text ∧ t.span = some s := by
  induction spans generalizing upto line with
  | nil => cases hs
  | cons first rest ih =>
    have others : ∀ {tagLine next}, ∃ t ∈ ofTag (slice cs first) tagLine (some first) ::
        locateFrom cs first.stop next rest, t.kind ≠ .text ∧ t.span = some s := by
      intro tagLine next
      rcases List.mem_cons.mp hs with rfl | hs
      · exact ⟨_, List.mem_cons_self, kind_ofTag_ne_text _ _ _, rfl⟩
      · obtain ⟨t, ht, hfound⟩ := ih hs
        exact ⟨t, List.mem_cons_of_mem _ ht, hfound⟩
    rw [locateFrom]
    split
    · obtain ⟨t, ht, hfound⟩ := others
      exact ⟨t, List.mem_cons_of_mem _ ht, hfound⟩
    · exact others

/-- Each tag that is found has a token. -/
theorem exists_mem_locate {source : String} {s : Span} (hs : s ∈ tagSpans source.toList) :
    ∃ t ∈ locate source, t.kind ≠ .text ∧ t.span = some s :=
  exists_mem_locateFrom hs

/-- A tag ends with the first close that leaves a character between itself and the opening. -/
theorem paired_of_mem_locate {source : String} {t : Token} (ht : t ∈ locate source)
    (hkind : t.kind ≠ .text) : ∃ start stop, t.span = some ⟨start, stop + 2⟩ ∧
      Paired source.toList t.kind start stop ∧
      ∀ other, other < stop → ¬ Paired source.toList t.kind start other := by
  obtain ⟨s, hshows⟩ := shows_of_mem_tile (tile_locate source) ht
  have htag := length_of_mem_matchSpans ((place_of_mem_locate ht hshows.span).1 hkind)
  have opens : ∀ {opening : List Char}, opening <+: slice source.toList s →
      opening <+: source.toList.drop s.start := fun h => h.trans (List.take_prefix ..)
  have hpaired : ∃ stop, s.stop = stop + 2 ∧ Paired source.toList t.kind s.start stop := by
    cases h : t.kind with
    | text => exact absurd h hkind
    | output => exact (paired_of_tagLength htag).1 (opens (hshows.output h).1)
    | block => exact (paired_of_tagLength htag).2 (opens (hshows.block h).1)
  obtain ⟨stop, hstop, hpaired⟩ := hpaired
  refine ⟨s.start, stop, by rw [hshows.span, ← hstop], hpaired, fun other hlt hother => ?_⟩
  have hfirst := first_of_tagLength htag hother
  omega

/-- No close follows an opening in literal text. -/
theorem not_paired_of_mem_locate {source : String} {t : Token} (ht : t ∈ locate source)
    (hkind : t.kind = .text) {s : Span} (hs : t.span = some s) {place : Nat}
    (hstart : s.start ≤ place) (hstop : place < s.stop) (kind : Kind) (stop : Nat) :
    ¬ Paired source.toList kind place stop := by
  intro hpaired
  obtain ⟨hlength, houtside⟩ := (place_of_mem_locate ht hs).2 hkind place hstart hstop
  obtain ⟨n, hn, -⟩ := tagLength_of_paired hpaired
  have houtside' : Outside (matchesFrom tagLength? 0 0 source.toList) (0 + place) := by
    rwa [Nat.zero_add]
  exact no_match_of_outside (Nat.zero_le _) houtside' (n + 2) hlength hn

/-- Where no close follows an opening, no tag is found. -/
theorem tagSpans_eq_nil {cs : List Char} (h : ∀ kind start stop, ¬ Paired cs kind start stop) :
    tagSpans cs = [] := by
  refine List.eq_nil_iff_forall_not_mem.mpr fun s hs => ?_
  obtain ⟨kind, stop, -, hpaired⟩ := exists_paired_of_mem_tagSpans hs
  exact h _ _ _ hpaired

/-- Without tags a template is one literal text, unless it is empty. -/
theorem tokens_of_tagSpans_eq_nil {source : String} (h : tagSpans source.toList = [])
    (located : Bool) : tokens located source = [] ∧ source = "" ∨
      ∃ t, tokens located source = [t] ∧ t.kind = .text ∧ t.contents = source := by
  by_cases hempty : source.toList.isEmpty = true
  · refine .inl ⟨?_, ?_⟩
    · cases located <;> simp [tokens, lex, locate, h, cut, ofPieces, locateFrom, hempty]
    · exact String.toList_injective (List.isEmpty_iff.mp hempty)
  · have hcontents : ∀ span, (ofText source.toList 1 span).contents = source :=
      fun span => String.ofList_toList
    cases located with
    | true =>
      refine .inr ⟨ofText source.toList 1 (some ⟨0, 0 + source.toList.length⟩), ?_, rfl,
        hcontents _⟩
      simp [tokens, locate, h, locateFrom, hempty]
    | false =>
      refine .inr ⟨ofText source.toList 1 none, ?_, rfl, hcontents none⟩
      simp [tokens, lex, h, cut, ofPieces, hempty]

/-! ## What lies between the delimiters -/

def Kind.opening : Kind → List Char
  | .output => ['{', '{']
  | _ => ['{', '%']

def Kind.closing : Kind → List Char
  | .output => ['}', '}']
  | _ => ['%', '}']

theorem Kind.length_opening (kind : Kind) : kind.opening.length = 2 := by
  cases kind <;> rfl

theorem Kind.length_delimited (kind : Kind) (inside rest : List Char) :
    (kind.opening ++ (inside ++ (kind.closing ++ rest))).length =
      inside.length + 4 + rest.length := by
  have hclosing : kind.closing.length = 2 := by cases kind <;> rfl
  rw [List.length_append, List.length_append, List.length_append, kind.length_opening, hclosing]
  omega

theorem Kind.not_mem_opening (kind : Kind) : '}' ∉ kind.opening := by
  cases kind <;> decide

/-- A stretch of a text from an opening to a close, what lies between them, and what follows. -/
structure Delimited (cs : List Char) (s : Span) (kind : Kind) (inside rest : List Char) : Prop where
  drop_eq : cs.drop s.start = kind.opening ++ (inside ++ (kind.closing ++ rest))
  stop_eq : s.stop = s.start + inside.length + 4

/-- An opening and a close that follows it delimit what lies between them. -/
theorem Paired.delimited {cs : List Char} {kind : Kind} {start stop : Nat}
    (h : Paired cs kind start stop) :
    ∃ rest, Delimited cs ⟨start, stop + 2⟩ kind (slice cs ⟨start + 2, stop⟩) rest := by
  have found : kind.opening <+: cs.drop start → start + 3 ≤ stop → kind.closing <+: cs.drop stop →
      ∃ rest, Delimited cs ⟨start, stop + 2⟩ kind (slice cs ⟨start + 2, stop⟩) rest := by
    rintro ⟨others, hopen⟩ hle ⟨rest, hclose⟩
    have hlength : stop ≤ cs.length := by
      have hle := congrArg List.length hclose
      rw [List.length_append, List.length_drop] at hle
      have hclosing : kind.closing.length = 2 := by cases kind <;> rfl
      omega
    have hothers : others = cs.drop (start + 2) := by
      rw [← List.drop_drop, ← hopen, ← kind.length_opening, List.drop_left]
    have hinside : cs.drop (start + 2) = slice cs ⟨start + 2, stop⟩ ++ cs.drop stop := by
      have hstop : (cs.drop (start + 2)).drop (stop - (start + 2)) = cs.drop stop := by
        rw [List.drop_drop, show start + 2 + (stop - (start + 2)) = stop by omega]
      rw [slice, ← hstop, List.take_append_drop]
    refine ⟨rest, ?_, ?_⟩
    · rw [← hopen, hothers, hinside, ← hclose]
    · have hslice : (slice cs ⟨start + 2, stop⟩).length = stop - (start + 2) := length_slice hlength
      show stop + 2 = start + _ + 4
      rw [hslice]
      omega
  cases h with
  | output hopen hle hclose => exact found hopen hle hclose
  | block hopen hle hclose => exact found hopen hle hclose

/-- The token of a tag contains what lies between its delimiters, without the white space around. -/
theorem delimited_of_mem_locate {source : String} {t : Token} (ht : t ∈ locate source)
    (hkind : t.kind ≠ .text) : ∃ s inside rest, t.span = some s ∧ s ∈ tagSpans source.toList ∧
      Delimited source.toList s t.kind inside rest ∧ t.contents.toList = trim inside := by
  obtain ⟨start, stop, hspan, hpaired, -⟩ := paired_of_mem_locate ht hkind
  obtain ⟨rest, hdelimited⟩ := hpaired.delimited
  obtain ⟨s, hshows⟩ := shows_of_mem_tile (tile_locate source) ht
  obtain rfl : s = ⟨start, stop + 2⟩ := Option.some.inj (hshows.span.symm.trans hspan)
  refine ⟨_, _, rest, hspan, (place_of_mem_locate ht hspan).1 hkind, hdelimited, ?_⟩
  cases h : t.kind with
  | text => exact absurd h hkind
  | output => exact (hshows.output h).2
  | block => exact (hshows.block h).2

end Token

namespace Template

/-- A template without tags compiles and gives itself. -/
theorem render_of_tagSpans_eq_nil {source : String} (h : Token.tagSpans source.toList = [])
    (g : Setting) (located : Bool) (name : Option String) :
    ∃ t, compile g located name source = .ok t ∧
      ∀ context s, Scope.ofValue context = .ok s → t.render context = pure source := by
  rcases Token.tokens_of_tagSpans_eq_nil h located with ⟨htokens, rfl⟩ | ⟨t, htokens, hkind, ht⟩
  · refine ⟨⟨name, "", [], g, located⟩, by rw [compile, htokens]; rfl, fun context s hs => ?_⟩
    rw [render, hs]
    simp only [renderIn, Node.renderAll]
    rfl
  · have hparse : parseTokens [t] = .ok [.text t] := by
      rw [parseTokens, List.foldlM_cons, Builder.step, hkind]
      rfl
    refine ⟨⟨name, source, [.text t], g, located⟩, ?_, fun context s hs => ?_⟩
    · rw [compile, htokens, hparse]
    · rw [render, hs]
      simp only [renderIn, Node.renderAll, Node.render, ht]
      show (⟨[], .ok (source ++ "")⟩ : Trace RenderError String) = _
      rw [String.append_empty]
      rfl

/-- Each tag runs from its opening to the first close that leaves a character between them, and no
close follows an opening in literal text.  A template in which no close follows an opening compiles,
and it gives itself. -/
theorem locate_paired (source : String) :
    (∀ t ∈ Token.locate source, t.kind ≠ .text →
      ∃ start stop, t.span = some ⟨start, stop + 2⟩ ∧
        Token.Paired source.toList t.kind start stop ∧
        ∀ other, other < stop → ¬ Token.Paired source.toList t.kind start other) ∧
    (∀ t ∈ Token.locate source, t.kind = .text → ∀ s, t.span = some s →
      ∀ place, s.start ≤ place → place < s.stop →
        ∀ kind stop, ¬ Token.Paired source.toList kind place stop) ∧
    ((∀ kind start stop, ¬ Token.Paired source.toList kind start stop) →
      ∀ (g : Setting) (located : Bool) (name : Option String),
        ∃ t, compile g located name source = .ok t ∧
          ∀ context s, Scope.ofValue context = .ok s → t.render context = pure source) := by
  refine ⟨fun t ht hkind => Token.paired_of_mem_locate ht hkind, ?_, fun h => ?_⟩
  · intro t ht hkind s hs place hstart hstop kind stop
    exact Token.not_paired_of_mem_locate ht hkind hs hstart hstop kind stop
  · exact render_of_tagSpans_eq_nil (Token.tagSpans_eq_nil h)

/-- A close right behind its opening leaves nothing between them, so neither is a tag. -/
theorem locate_paired_adjacent :
    ∃ t, compile ⟨[], true, 1, 9⟩ true none "{{}} \x7b%" = .ok t ∧
      t.render .null = pure "{{}} \x7b%" := by
  -- A close of either kind, three places behind an opening or further on, is none of these.
  have hlate : ∀ c : Char, ∀ {start stop : Nat}, start + 3 ≤ stop →
      [c, '}'] <+: "{{}} \x7b%".toList.drop stop → stop ∈ [3, 4, 5] := by
    intro c start stop hle hclose
    have hlength := hclose.length_le
    have hseven : "{{}} \x7b%".toList.length = 7 := rfl
    have htwo : [c, '}'].length = 2 := rfl
    rw [List.length_drop] at hlength
    simp only [List.mem_cons, List.not_mem_nil]
    omega
  have houtput : ∀ stop ∈ [3, 4, 5], ¬ ['}', '}'] <+: "{{}} \x7b%".toList.drop stop := by decide
  have hblock : ∀ stop ∈ [3, 4, 5], ¬ ['%', '}'] <+: "{{}} \x7b%".toList.drop stop := by decide
  have hnone : ∀ kind start stop, ¬ Token.Paired "{{}} \x7b%".toList kind start stop := by
    intro kind start stop h
    cases h with
    | output _ hle hclose => exact houtput stop (hlate _ hle hclose) hclose
    | block _ hle hclose => exact hblock stop (hlate _ hle hclose) hclose
  obtain ⟨t, ht, hrender⟩ := (locate_paired "{{}} \x7b%").2.2 hnone ⟨[], true, 1, 9⟩ true none
  exact ⟨t, ht, hrender .null ⟨[], []⟩ rfl⟩

end Template
end Quill
