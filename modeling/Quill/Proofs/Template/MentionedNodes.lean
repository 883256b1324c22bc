import Quill.Proofs.Expr.Braces
import Quill.Proofs.Template.Building
import Quill.Proofs.Template.Mentions
import Quill.Proofs.Template.TagsAmong

/-!
The nodes that reported paths come from.

In a template that compiles, the path of a tag which the lexer finds too is the whole expression of
an output node or the whole sequence of a loop, unless two bars follow it: the scan takes the first
of them for the one before a filter.  A match that begins inside of a tag begins with a brace, and
an expression holds braces in its string literals only.  So the path stands in a literal then, or
among the filters of an output tag.
-/

namespace Quill

open Text

/-- Whether a text is all of the expression of an output node, its filters apart, or all of the
sequence of a loop. -/
inductive Node.SpelledBy (text : List Char) : Node → Prop
  | output {t : Token} {p : Pipeline} : t.Carries [] text →
      Expr.parse (String.ofList text) = .ok p.subject → SpelledBy text (.output t p)
  | loop {t : Token} {name : String} {items : Expr} {body : List Node} {heading : List Char} :
      t.Carries heading text → Expr.parse (String.ofList text) = .ok items →
      SpelledBy text (.loop t name items body)

/-- Whether a path stands in a text behind the opening of a tag, which is not closed before it. -/
def Template.OpenedIn (path cs : List Char) : Prop :=
  ∃ (kind : Token.Kind) (front : List Char), '}' ∉ front ∧ kind.opening ++ (front ++ path) <:+: cs

/-- Whether a path is a part of what a tag contains that is not written as a path there: the left
operand of a disjunction, or a part of a string literal or of the filters. -/
inductive Token.Hides (t : Token) (path : List Char) : Prop
  | operand {gap more : List Char} : t.kind = .output → (∀ c ∈ gap, isBlank c = true) →
      t.contents.toList = path ++ (gap ++ '|' :: '|' :: more) → Hides t path
  | quoted {heading text : List Char} {lexemes : List Lexeme} {l : Lexeme} :
      t.Carries heading text → Expr.lexemesOf (String.ofList text) = .ok lexemes → l ∈ lexemes →
      l.kind = .string → Template.OpenedIn path l.text.toList → Hides t path
  | filtered {text behind : List Char} : t.Carries [] text → t.contents.toList = text ++ behind →
      Template.OpenedIn path behind → Hides t path

namespace Template

/-! ## Tags with a path that the lexer finds -/

/-- The expression of an output tag that begins with a path is the path, if nothing or one bar
follows. -/
theorem spelled_of_plain {nodes : List Node} {t : Token} {path gap behind : List Char}
    (h : t.TagAmong nodes) (ht : t.Tidy) (hkind : t.kind = .output) (hpath : IsPath path)
    (hgap : ∀ c ∈ gap, isBlank c = true)
    (hcontents : t.contents.toList = (path ++ gap) ++ behind)
    (hbehind : behind = [] ∨ ∃ more, behind = '|' :: more ∧ more.head? ≠ some '|') :
    ∃ n ∈ nodes, n.SpelledBy path := by
  have hplain : ∀ c ∈ path ++ gap, Pipeline.isPlain c = true := by
    intro c hc
    rcases List.mem_append.mp hc with hc | hc
    · exact Pipeline.isPlain_of_class (by decide +kernel) (hpath.chars c hc)
    · exact Pipeline.isPlain_of_isBlank (hgap c hc)
  have htrim : trim (path ++ gap) = path := by
    have hbetween : trim ([] ++ (path ++ gap)) = path :=
      trim_between (by simp) hgap (hpath.flush_append gap) (hpath.flush_reverse [])
    rwa [List.nil_append] at hbetween
  have hsplit := Pipeline.split_head_of_plain hplain hbehind
  rw [← hcontents, String.ofList_toList, htrim] at hsplit
  obtain ⟨p, ⟨-, hread⟩, hmem⟩ := h.exists_output hkind
  obtain ⟨subject, hhead, hne, hparse⟩ := Pipeline.exists_subject_of_read hread
  obtain rfl : String.ofList path = subject := Option.some.inj (hsplit.symm.trans hhead)
  have hcarries := Token.carries_output ht hkind hhead hne
  rw [String.toList_ofList] at hcarries
  exact ⟨_, hmem, .output hcarries hparse⟩

/-- The sequence of a loop whose head ends with a path is the path. -/
theorem spelled_of_loop {nodes : List Node} {t : Token}
    {path before name behind within : List Char} (h : t.TagAmong nodes) (hkind : t.kind = .block)
    (hpath : IsPath path) (hbefore : Gap before) (hne : name ≠ [])
    (hname : ∀ c ∈ name, isWord c = true) (hbehind : Gap behind) (hwithin : Gap within)
    (hcontents : t.contents.toList = ['f', 'o', 'r'] ++ (before ++ (name ++ (behind ++
      (['i', 'n'] ++ (within ++ path)))))) : ∃ n ∈ nodes, n.SpelledBy path := by
  cases h with
  | output houtput _ => exact absurd (hkind.symm.trans houtput.1) (by decide)
  | loop hloop hmem =>
    obtain ⟨-, afterFor, afterName, text, hfor', hname', hwords', hin', hparse⟩ := hloop
    have hflush : Flush path := by
      have hflush := hpath.flush_append []
      rwa [List.append_nil] at hflush
    have hfor : Words ['f', 'o', 'r'] t.contents.toList
        (name ++ (behind ++ (['i', 'n'] ++ (within ++ path)))) :=
      ⟨before, hbefore.ne_nil, hbefore.blank, flush_word hne hname _, hcontents⟩
    have hwords : Words name (name ++ (behind ++ (['i', 'n'] ++ (within ++ path))))
        (['i', 'n'] ++ (within ++ path)) :=
      ⟨behind, hbehind.ne_nil, hbehind.blank, flush_cons rfl _, rfl⟩
    have hin : Words ['i', 'n'] (['i', 'n'] ++ (within ++ path)) path :=
      ⟨within, hwithin.ne_nil, hwithin.blank, hflush, rfl⟩
    obtain ⟨heading, hcarries⟩ := Token.carries_loop hkind hfor' hname' hwords' hin'
    obtain rfl := hfor.unique hfor'
    have hrest := (hwords.run hname fun _ => isWord_of_isBlank).2.2
    have hrest' := (hwords'.run hname'.2 fun _ => isWord_of_isBlank).2.2
    obtain rfl := hrest.symm.trans hrest'
    obtain rfl := hin.unique hin'
    exact ⟨_, hmem, .loop hcarries hparse⟩
  | condition hword hcondition =>
    obtain ⟨-, text, ⟨gap, -, -, -, hcs⟩, -⟩ := hcondition
    rw [hcontents] at hcs
    rcases hword with rfl | rfl
    · exact absurd (List.cons.inj hcs).1 (by decide)
    · exact absurd (List.cons.inj hcs).1 (by decide)
  | @bare word hword hbare =>
    have hhead : word.toList.head? = some 'f' := by
      rw [← hbare.2, hcontents]
      rfl
    have hother : ∀ word ∈ ["endfor", "else", "endif"], word.toList.head? ≠ some 'f' := by decide
    exact absurd hhead (hother word hword)

theorem spelled_or_hidden_of_mentions {nodes : List Node} {t : Token} {path : List Char}
    (h : t.TagAmong nodes) (ht : t.Tidy) (hpath : IsPath path) (hmentions : t.Mentions path) :
    (∃ n ∈ nodes, n.SpelledBy path) ∨ t.Hides path := by
  cases hmentions with
  | alone hkind hcontents =>
    have hblank : ∀ c ∈ ([] : List Char), isBlank c = true := by simp
    refine .inl (spelled_of_plain h ht hkind hpath hblank ?_ (.inl rfl))
    simpa using hcontents
  | @piped gap more hkind hgap _ hcontents =>
    by_cases hmore : more.head? = some '|'
    · obtain ⟨others, rfl⟩ := List.head?_eq_some_iff.mp hmore
      exact .inr (.operand hkind hgap hcontents)
    · refine .inl (spelled_of_plain h ht hkind hpath hgap ?_ (.inr ⟨more, rfl, hmore⟩))
      rw [hcontents, List.append_assoc]
  | loop hkind hbefore hne hname hbehind hwithin hcontents =>
    exact .inl (spelled_of_loop h hkind hpath hbefore hne hname hbehind hwithin hcontents)

/-- Before a close no other close begins unless a brace is closed in between. -/
theorem eq_nil_of_closing {kind : Token.Kind} {cs rest rest' : List Char}
    (h : kind.closing ++ rest = cs ++ (kind.closing ++ rest')) (hcs : '}' ∉ cs) : cs = [] := by
  obtain ⟨c, hc⟩ : ∃ c, kind.closing = [c, '}'] := by cases kind <;> exact ⟨_, rfl⟩
  rw [hc] at h
  match cs with
  | [] => rfl
  | [d] =>
    obtain ⟨rfl, htail⟩ := List.cons.inj h
    obtain ⟨rfl, -⟩ := List.cons.inj htail
    exact absurd List.mem_cons_self hcs
  | _ :: d :: _ =>
    obtain ⟨-, htail⟩ := List.cons.inj h
    obtain ⟨rfl, -⟩ := List.cons.inj htail
    simp at hcs

/-- Where a tag of the lexer and a tag with a path begin together they hold the same. -/
theorem inside_eq {cs : List Char} {w u : Span} {wkind kind : Token.Kind}
    {winside inside wrest rest path : List Char} (hw : Token.Delimited cs w wkind winside wrest)
    (hwkind : wkind ≠ .text) (hmem : w ∈ Token.tagSpans cs)
    (hu : PathTag cs u path kind inside rest) (hstart : w.start = u.start) :
    PathInside path wkind winside := by
  have hfirst : w.stop ≤ u.stop := by
    have hpaired := hu.paired
    rw [← hstart] at hpaired
    have hlt := hu.stop_eq
    have hle := Token.first_of_tagLength (length_of_mem_matchSpans hmem) hpaired
    omega
  have hlength : winside.length ≤ inside.length := by
    have hwstop := hw.stop_eq
    have hustop := hu.stop_eq
    omega
  have hsame := hw.drop_eq.symm.trans (hstart ▸ hu.drop_eq)
  obtain rfl : wkind = kind := by
    have hkind := hu.within.kind_ne_text
    cases wkind <;> cases kind <;> first | rfl | contradiction | cases hsame
  have hinside := List.append_cancel_left hsame
  have hnot := hu.within.not_mem hu.isPath
  have hnil : ∀ d, inside = winside ++ d →
      wkind.closing ++ wrest = d ++ (wkind.closing ++ rest) → winside = inside := by
    rintro d rfl hclose
    have hd : d = [] := eq_nil_of_closing hclose fun hmem => hnot (List.mem_append_right _ hmem)
    rw [hd, List.append_nil]
  rcases List.append_eq_append_iff.mp hinside with ⟨d, hd, hclose⟩ | ⟨d, hd, -⟩
  · rw [hnil d hd hclose]
    exact hu.within
  · have hempty : d = [] := by
      rw [hd, List.length_append] at hlength
      exact List.length_eq_zero_iff.mp (by omega)
    rw [hd, hempty, List.append_nil]
    exact hu.within

/-! ## Tags with a path that begin inside of another tag -/

/-- What begins before an end, holds no closed brace and does not end as the end may is over
before. -/
theorem prefix_of_prefix_append {front cs tail rest : List Char}
    (h : front <+: cs ++ (tail ++ rest)) (htail : '}' ∈ tail) (hfront : '}' ∉ front)
    (hlast : ∀ c, front.getLast? = some c → c ∉ tail) : front <+: cs := by
  rcases List.prefix_or_prefix_of_prefix h (List.prefix_append cs _) with hle | ⟨d, rfl⟩
  · exact hle
  · have hd : d <+: tail ++ rest := (List.prefix_append_right_inj cs).mp h
    rcases List.prefix_or_prefix_of_prefix hd (List.prefix_append tail rest) with hle | hle
    · cases hlastd : d.getLast? with
      | none =>
        obtain rfl := List.getLast?_eq_none_iff.mp hlastd
        exact ⟨[], by simp⟩
      | some c =>
        refine absurd (hle.subset (List.mem_of_getLast? hlastd)) (hlast c ?_)
        rw [List.getLast?_append, hlastd]
        rfl
    · exact absurd (List.mem_append_right cs (hle.subset htail)) hfront

/-- A character that stands neither before nor behind a stretch stands within it. -/
theorem place_between {lead mid tail rest : List Char} {c : Char} {i : Nat}
    (h : (lead ++ (mid ++ (tail ++ rest)))[i]? = some c)
    (hi : i < lead.length + (mid.length + tail.length)) (hlead : c ∉ lead) (htail : c ∉ tail) :
    ∃ place, place < mid.length ∧ i = lead.length + place := by
  by_cases hbefore : i < lead.length
  · rw [List.getElem?_append_left hbefore] at h
    exact absurd (List.mem_of_getElem? h) hlead
  · have hle : lead.length ≤ i := Nat.le_of_not_lt hbefore
    rw [List.getElem?_append_right hle] at h
    refine ⟨i - lead.length, Nat.lt_of_not_le fun hbehind => htail ?_, by omega⟩
    rw [List.getElem?_append_right hbehind, List.getElem?_append_left (by omega)] at h
    exact List.mem_of_getElem? h

theorem getElem_of_opening {kind : Token.Kind} {cs rest : List Char} {place : Nat}
    (h : kind.opening ++ rest <+: cs.drop place) : cs[place]? = some '{' := by
  obtain ⟨more, hmore⟩ := h
  rw [← List.head?_drop, ← hmore]
  cases kind <;> rfl

/-- What a tag holds begins with the second character of an opening, if the opening begins with the
second character of that of the tag. -/
theorem trim_of_second_brace {wkind kind : Token.Kind} {winside front others : List Char}
    (hwkind : wkind ≠ .text)
    (h : kind.opening ++ front <+:
      (wkind.opening ++ (winside ++ (wkind.closing ++ others))).drop 1) :
    wkind = .output ∧ ∃ c ∈ ['{', '%'], ∃ more, trim winside = c :: more := by
  obtain ⟨second, hsecond, hopening⟩ : ∃ c ∈ ['{', '%'], kind.opening = ['{', c] := by
    cases kind <;> exact ⟨_, by decide, rfl⟩
  rw [hopening] at h
  cases wkind with
  | text => exact absurd rfl hwkind
  | block => exact absurd (List.cons_prefix_cons.mp h).1 (by decide)
  | output =>
    have htail := (List.cons_prefix_cons.mp h).2
    cases winside with
    | nil =>
      obtain ⟨rfl, -⟩ := List.cons_prefix_cons.mp htail
      exact absurd hsecond (by decide)
    | cons c inside =>
      obtain ⟨rfl, -⟩ := List.cons_prefix_cons.mp htail
      have hblank : isBlank second = false := by
        rcases List.mem_pair.mp hsecond with rfl | rfl <;> decide
      have hlast : Flush [second].reverse := flush_cons hblank []
      have htrim : trim (second :: inside) = [second] ++ trimRight inside := by
        rw [trim, (flush_cons hblank inside).trimLeft, ← List.singleton_append,
          trimRight_append hlast]
      exact ⟨rfl, second, hsecond, _, htrim⟩

/-- An opening behind that of a tag and before its end stands in what the tag contains, and so does
what follows it up to a path, unless a brace is closed in between. -/
theorem exists_place_in_trim {wkind kind : Token.Kind} {winside front path others : List Char}
    {i : Nat} (hpath : IsPath path) (hfront : '}' ∉ front ++ path)
    (h : kind.opening ++ (front ++ path) <+: (winside ++ (wkind.closing ++ others)).drop i)
    (hi : i < winside.length + 2) :
    ∃ place, kind.opening ++ (front ++ path) <+: (trim winside).drop place := by
  obtain ⟨lead, trail, hinside, hlead, htrail, -⟩ := exists_trim winside
  -- Behind what the tag contains there is no opening brace and no path.
  have hclosing : wkind.closing.all (fun c => c != '{' && !isPathChar c) = true := by
    cases wkind <;> decide +kernel
  have htail : ∀ c ∈ trail ++ wkind.closing, c ≠ '{' ∧ isPathChar c = false := by
    intro c hc
    rcases List.mem_append.mp hc with hc | hc
    · refine ⟨?_, isPathChar_of_isBlank (htrail c hc)⟩
      rintro rfl
      exact absurd (htrail _ hc) (by decide)
    · simpa using List.all_eq_true.mp hclosing c hc
  have hcs : winside ++ (wkind.closing ++ others) =
      lead ++ (trim winside ++ ((trail ++ wkind.closing) ++ others)) := by
    conv => lhs; rw [hinside]
    simp only [List.append_assoc]
  have hbound : i < lead.length + ((trim winside).length + (trail ++ wkind.closing).length) := by
    have hlength := congrArg List.length hinside
    have htwo : wkind.closing.length = 2 := by cases wkind <;> rfl
    simp only [List.length_append] at hlength ⊢
    omega
  rw [hcs] at h
  obtain ⟨place, hplace, rfl⟩ := place_between (getElem_of_opening h) hbound
    (not_mem_of_forall (by decide) hlead) fun hmem => (htail _ hmem).1 rfl
  rw [← List.drop_drop, List.drop_left, List.drop_append_of_le_length (Nat.le_of_lt hplace)] at h
  refine ⟨place, prefix_of_prefix_append h ?_ ?_ ?_⟩
  · refine List.mem_append_right _ ?_
    cases wkind <;> decide
  · rw [List.mem_append, not_or]
    exact ⟨kind.not_mem_opening, hfront⟩
  · intro c hc hmem
    obtain ⟨d, hd⟩ := Option.isSome_iff_exists.mp (List.getLast?_isSome.mpr hpath.ne_nil)
    rw [← List.append_assoc, List.getLast?_append, hd] at hc
    obtain rfl : d = c := Option.some.inj hc
    have hchar := hpath.chars d (List.mem_of_getLast? hd)
    rw [(htail d hmem).2] at hchar
    cases hchar

/-- A tag with a path that begins inside of another tag either begins with the second brace of an
output tag, or it holds its path before that tag is over. -/
theorem opened_in_contents {cs : List Char} {w u : Span} {wkind kind : Token.Kind}
    {winside inside wrest rest path : List Char} (hw : Token.Delimited cs w wkind winside wrest)
    (hwkind : wkind ≠ .text) (hu : PathTag cs u path kind inside rest) (hlt : w.start < u.start)
    (hover : u.start < w.stop) :
    (∃ place front, (∀ c ∈ special, c ∉ front ++ path) ∧
      kind.opening ++ (front ++ path) <+: (trim winside).drop place) ∨
      wkind = .output ∧ ∃ c ∈ ['{', '%'], ∃ more, trim winside = c :: more := by
  obtain ⟨front, back, hinside, hplain, -⟩ := hu.within.exists_front hu.isPath
  obtain ⟨k, hk⟩ : ∃ k, u.start = w.start + (k + 1) := ⟨u.start - w.start - 1, by omega⟩
  have hheld : kind.opening ++ (front ++ path) <+:
      (wkind.opening ++ (winside ++ (wkind.closing ++ wrest))).drop (k + 1) := by
    refine ⟨back ++ (kind.closing ++ rest), ?_⟩
    rw [← hw.drop_eq, List.drop_drop, ← hk, hu.drop_eq, hinside]
    simp
  cases k with
  | zero => exact .inr (trim_of_second_brace hwkind hheld)
  | succ i =>
    have hstop := hw.stop_eq
    rw [show i + 1 + 1 = wkind.opening.length + i by rw [wkind.length_opening]; omega,
      ← List.drop_drop, List.drop_left] at hheld
    obtain ⟨place, hplace⟩ :=
      exists_place_in_trim hu.isPath (hplain _ (by decide)) hheld (by omega)
    exact .inl ⟨place, front, hplain, hplace⟩

/-- A path behind a brace is hidden by a tag whose expression is accepted: the brace stands in a
string literal of the expression, or among the filters. -/
theorem hides_of_carries {t : Token} {heading text path front : List Char} {e : Expr} {place : Nat}
    {kind : Token.Kind} (h : t.Carries heading text)
    (hparse : Expr.parse (String.ofList text) = .ok e)
    (hfront : ∀ c ∈ special, c ∉ front ++ path)
    (hheld : kind.opening ++ (front ++ path) <+: t.contents.toList.drop place) :
    t.Hides path := by
  obtain ⟨behind, hcontents, hheading, hbehind⟩ := h.exists_behind
  have hbrace := getElem_of_opening hheld
  have hopened : ∀ {cs}, kind.opening ++ (front ++ path) <:+: cs → OpenedIn path cs :=
    fun hinfix => ⟨kind, front,
      fun hmem => hfront _ (by decide) (List.mem_append_left path hmem), hinfix⟩
  rw [hcontents] at hbrace hheld
  obtain ⟨k, rfl⟩ : ∃ k, place = heading.length + k := by
    refine ⟨place - heading.length, ?_⟩
    have hle : heading.length ≤ place := Nat.le_of_not_lt fun hlt => by
      rw [List.getElem?_append_left hlt] at hbrace
      exact hheading (List.mem_of_getElem? hbrace)
    omega
  rw [List.getElem?_append_right (Nat.le_add_right _ _), Nat.add_sub_cancel_left] at hbrace
  rw [← List.drop_drop, List.drop_left] at hheld
  by_cases hk : k < text.length
  · rw [List.getElem?_append_left hk] at hbrace
    rw [List.drop_append_of_le_length (Nat.le_of_lt hk)] at hheld
    obtain ⟨lexemes, hlexemes, l, hl, hkind, back, hsuffix, hback, quote, hquote, hmem⟩ :=
      Expr.exists_literal_of_brace hparse hbrace
    -- The literal goes on to a quote, and there is none before the path.
    have hwithin : kind.opening ++ (front ++ path) <+: back := by
      have hlonger := hback.trans (List.prefix_append (text.drop k) behind)
      refine (List.prefix_or_prefix_of_prefix hheld hlonger).resolve_right fun hshorter => ?_
      have hspecial : quote ∈ special ∧ quote ∉ kind.opening := by
        rcases List.mem_pair.mp hquote with rfl | rfl <;> cases kind <;> decide
      obtain ⟨hspecial, hnot⟩ := hspecial
      rcases List.mem_append.mp (hshorter.subset hmem) with hmem | hmem
      · exact hnot hmem
      · exact hfront quote hspecial hmem
    exact .quoted h hlexemes hl hkind (hopened (hwithin.isInfix.trans hsuffix.isInfix))
  · have hle : text.length ≤ k := Nat.le_of_not_lt hk
    rw [List.getElem?_append_right hle] at hbrace
    have hne : behind ≠ [] := by
      rintro rfl
      cases hbrace
    obtain rfl := hbehind.resolve_left hne
    rw [show k = text.length + (k - text.length) by omega, ← List.drop_drop, List.drop_left]
      at hheld
    exact .filtered h hcontents (hopened (hheld.isInfix.trans (List.drop_suffix _ _).isInfix))

/-- A tag whose expression is accepted hides each path that begins inside of it. -/
theorem hides_of_pathTag {nodes : List Node} {t : Token} {cs : List Char} {w u : Span}
    {kind : Token.Kind} {winside inside wrest rest path : List Char} (h : t.TagAmong nodes)
    (ht : t.Tidy) (hw : Token.Delimited cs w t.kind winside wrest) (hkind : t.kind ≠ .text)
    (hcontents : t.contents.toList = trim winside) (hu : PathTag cs u path kind inside rest)
    (hlt : w.start < u.start) (hover : u.start < w.stop) : t.Hides path := by
  rcases opened_in_contents hw hkind hu hlt hover with
    ⟨place, front, hfront, hheld⟩ | ⟨houtput, c, hc, more, hmore⟩
  · rw [← hcontents] at hheld
    rcases h.carries ht with ⟨heading, text, e, hcarries, hparse⟩ | hbare
    · exact hides_of_carries hcarries hparse hfront hheld
    · -- A bare tag holds no brace.
      have hmem : '{' ∈ t.contents.toList := by
        refine List.mem_of_mem_drop (hheld.subset (List.mem_append_left _ ?_))
        cases kind <;> decide
      have hwords : ∀ word ∈ ["endfor", "else", "endif"], '{' ∉ word.toList := by decide
      exact absurd hmem (hwords _ hbare)
  · -- The expression would begin with the second character of the opening.
    obtain ⟨p, ⟨-, hread⟩, -⟩ := h.exists_output houtput
    obtain ⟨subject, hhead, hne, hparse⟩ := Pipeline.exists_subject_of_read hread
    obtain ⟨behind, hsubject, -⟩ := Pipeline.exists_behind_subject (ht hkind) hhead hne
    rw [hcontents, hmore] at hsubject
    rw [← String.ofList_toList (s := subject)] at hparse
    cases hlist : subject.toList with
    | nil => exact absurd (String.toList_eq_nil_iff.mp hlist) hne
    | cons d others =>
      rw [hlist, List.cons_append] at hsubject
      obtain rfl := (List.cons.inj hsubject).1
      rw [hlist] at hparse
      exact absurd hparse (Expr.parse_ne_ok_of_opening hc others _)

/-! ## Reported paths -/

/-- Each path that is reported stands in a tag with a path that is found. -/
theorem exists_pathTag_of_mem_pathsOf {source path : String} (h : path ∈ pathsOf source) :
    ∃ u ∈ matchSpans pathTagLength? source.toList, ∃ kind inside rest,
      PathTag source.toList u path.toList kind inside rest := by
  rw [mem_pathsOf, mentionedPaths] at h
  obtain ⟨chars, hchars, rfl⟩ := List.mem_map.mp h
  obtain ⟨u, hu, hfound⟩ := List.mem_filterMap.mp (List.mem_filter.mp hchars).1
  obtain ⟨path, kind, inside, rest, htag⟩ := exists_pathTag hu
  have hpath : tagPath? (source.toList.drop u.start) = some (path, rest) :=
    tagPath_eq_some_iff.mpr ⟨htag.isPath, kind, inside, htag.within, htag.drop_eq⟩
  rw [hpath] at hfound
  cases hfound
  refine ⟨u, hu, kind, inside, rest, ?_⟩
  rwa [String.toList_ofList]

/-- In a template that compiles each reported path is all of the expression of an output node or all
of the sequence of a loop, or a tag hides it. -/
theorem spelled_or_hidden {g : Setting} {located : Bool} {name : Option String}
    {source path : String} {tree : Template} (h : compile g located name source = .ok tree)
    (hpath : path ∈ pathsOf source) :
    (∃ n ∈ Node.allOf tree.nodes, n.SpelledBy path.toList) ∨
      ∃ t ∈ Token.tokens located source, t.Hides path.toList := by
  obtain ⟨nodes, hspells, rfl⟩ := compile_eq_ok_iff.mp h
  obtain ⟨u, hu, kind, inside, rest, htag⟩ := exists_pathTag_of_mem_pathsOf hpath
  obtain ⟨w, hw, hle, hover⟩ := exists_tagSpan_over hu
  obtain ⟨v, hv, hvkind, hspan⟩ := Token.exists_mem_locate hw
  obtain ⟨s, winside, wrest, hs, -, hdelimited, hcontents⟩ :=
    Token.delimited_of_mem_locate hv hvkind
  obtain rfl : s = w := Option.some.inj (hs.symm.trans hspan)
  obtain ⟨t, ht, hkind, hsame⟩ : ∃ t ∈ Token.tokens located source,
      t.kind = v.kind ∧ t.contents = v.contents := by
    cases located with
    | true => exact ⟨v, hv, rfl, rfl⟩
    | false =>
      refine ⟨v.unplaced, ?_, rfl, rfl⟩
      show v.unplaced ∈ Token.lex source
      rw [Token.lex_eq_unplaced]
      exact List.mem_map_of_mem hv
  rw [← hkind] at hvkind hdelimited
  rw [← hsame] at hcontents
  have htidy := Token.tidy_of_mem_tokens ht
  have hamong := hspells.tagAmong ht hvkind
  rcases Nat.eq_or_lt_of_le hle with hstart | hlt
  · have hwithin := inside_eq hdelimited hvkind hw htag hstart
    have hmentions := mentions_of_pathInside htag.isPath hwithin hcontents
    refine (spelled_or_hidden_of_mentions hamong htidy htag.isPath hmentions).imp_right ?_
    exact fun hhides => ⟨t, ht, hhides⟩
  · exact .inr ⟨t, ht, hides_of_pathTag hamong htidy hdelimited hvkind hcontents htag hlt hover⟩

/-- The left operand of a disjunction is reported and is not all of an expression. -/
theorem spelled_or_hidden_disjunction :
    ∃ tree, compile ⟨[], true, 1, 9⟩ false none "{{ a || b }}" = .ok tree ∧
      "a" ∈ pathsOf "{{ a || b }}" ∧ (¬ ∃ n ∈ Node.allOf tree.nodes, n.SpelledBy ['a']) ∧
      ∃ t ∈ Token.tokens false "{{ a || b }}", t.Hides ['a'] := by
  let t : Token := ⟨.output, "a || b", 1, none⟩
  have htokens : Token.tokens false "{{ a || b }}" = [t] := rfl
  have hread : (Pipeline.read t.contents).isOk = true := by decide +kernel
  obtain ⟨p, hread⟩ : ∃ p, Pipeline.read t.contents = .ok p := by
    cases h : Pipeline.read t.contents with
    | ok p => exact ⟨p, rfl⟩
    | error f =>
      rw [h] at hread
      cases hread
  have hcompile : compile ⟨[], true, 1, 9⟩ false none "{{ a || b }}" =
      .ok ⟨none, "{{ a || b }}", [.output t p], ⟨[], true, 1, 9⟩, false⟩ := by
    rw [compile_eq_ok_iff, htokens]
    exact ⟨_, .output ⟨rfl, hread⟩ .nil, rfl⟩
  have hmentioned : "a" ∈ pathsOf "{{ a || b }}" := by
    rw [mem_pathsOf]
    decide +kernel
  have hnot : ¬ ∃ n ∈ Node.allOf [Node.output t p], n.SpelledBy ['a'] := by
    rintro ⟨n, hn, hspelled⟩
    obtain rfl : n = .output t p := by simpa [Node.allOf, Node.all] using hn
    have hother : (Pipeline.split t.contents).head? ≠ some (String.ofList ['a']) := by
      decide +kernel
    cases hspelled with
    | output hcarries _ =>
      cases hcarries with
      | output _ hsplit _ _ => exact hother hsplit
      | condition hkind _ _ _ _ => cases hkind
      | loop hkind _ _ _ _ _ _ => cases hkind
  have hhidden := (spelled_or_hidden hcompile hmentioned).resolve_left hnot
  exact ⟨_, hcompile, hmentioned, hnot, hhidden⟩

end Template
end Quill
