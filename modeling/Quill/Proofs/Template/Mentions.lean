import Quill.Proofs.Template.PathTags

/-!
The paths that tags mention plainly.

The scan for paths does not know the tags that the lexer finds, and a match of it may begin inside
of one.  No match reaches over the beginning of a later tag, though.  So a tag of the lexer which is
written as the scan expects one is found, whatever stands before it, and its path is reported.
-/

namespace Quill

open Text

/-- Whether a tag mentions a path plainly: it contains the path alone or before a bar, or it is the
head of a loop over the path.  No brace is closed behind the bar. -/
inductive Token.Mentions (t : Token) (path : List Char) : Prop
  | alone : t.kind = .output → t.contents.toList = path → Mentions t path
  | piped {gap more : List Char} : t.kind = .output → (∀ c ∈ gap, isBlank c = true) →
      '}' ∉ more → t.contents.toList = path ++ (gap ++ '|' :: more) → Mentions t path
  | loop {before name behind within : List Char} : t.kind = .block → Gap before → name ≠ [] →
      (∀ c ∈ name, isWord c = true) → Gap behind → Gap within →
      t.contents.toList = ['f', 'o', 'r'] ++ (before ++ (name ++ (behind ++ (['i', 'n'] ++
        (within ++ path))))) → Mentions t path

namespace Template

/-- With white space around, what a tag contains is what stands in a tag with a path. -/
theorem pathInside_of_mentions {t : Token} {path lead trail : List Char} (h : t.Mentions path)
    (hlead : ∀ c ∈ lead, isBlank c = true) (htrail : ∀ c ∈ trail, isBlank c = true) :
    PathInside path t.kind (lead ++ (t.contents.toList ++ trail)) := by
  cases h with
  | alone hkind hcontents =>
    rw [hkind, hcontents]
    exact .alone hlead htrail
  | @piped gap more hkind hgap hmore hcontents =>
    have hstages : '}' ∉ more ++ trail := by
      rw [List.mem_append, not_or]
      exact ⟨hmore, not_mem_of_forall (by decide) htrail⟩
    have hassoc : path ++ (gap ++ '|' :: more) ++ trail =
        path ++ (gap ++ '|' :: (more ++ trail)) := by simp
    rw [hkind, hcontents, hassoc]
    exact .piped hlead hgap hstages
  | @loop before name behind within hkind hbefore hne hname hbehind hwithin hcontents =>
    have hassoc : ['f', 'o', 'r'] ++ (before ++ (name ++ (behind ++ (['i', 'n'] ++
        (within ++ path))))) ++ trail = ['f', 'o', 'r'] ++ (before ++ (name ++ (behind ++
        (['i', 'n'] ++ (within ++ (path ++ trail)))))) := by simp
    rw [hkind, hcontents, hassoc]
    exact .loop hlead hbefore hne hname hbehind hwithin htrail

theorem IsPath.flush_reverse {path : List Char} (h : IsPath path) (front : List Char) :
    Flush (front ++ path).reverse := by
  have hreverse : IsPath path.reverse :=
    ⟨by simpa using h.ne_nil, fun c hc => h.chars c (List.mem_reverse.mp hc)⟩
  rw [List.reverse_append]
  exact hreverse.flush_append _

/-- What stands in a tag with a path mentions the path once the white space around is gone. -/
theorem mentions_of_pathInside {t : Token} {path inside : List Char} (hpath : IsPath path)
    (h : PathInside path t.kind inside) (hcontents : t.contents.toList = trim inside) :
    t.Mentions path := by
  generalize hkind : t.kind = kind at h
  cases h with
  | alone hlead hgap =>
    rw [trim_between hlead hgap (hpath.flush_append _) (hpath.flush_reverse [])] at hcontents
    exact .alone hkind hcontents
  | @piped lead gap stages hlead hgap hstages =>
    have hbar : Flush (path ++ (gap ++ ['|'])).reverse := by
      rw [← List.append_assoc, List.reverse_append]
      exact flush_cons rfl _
    have hassoc : path ++ (gap ++ '|' :: stages) = (path ++ (gap ++ ['|'])) ++ stages := by simp
    rw [trim_blanks_append hlead, trim, (hpath.flush_append _).trimLeft, hassoc,
      trimRight_append hbar] at hcontents
    obtain ⟨trail, htrail, -⟩ := exists_trimRight stages
    have hmore : '}' ∉ trimRight stages := fun hmem => hstages (by
      rw [htrail]
      exact List.mem_append_left _ hmem)
    exact .piped hkind hgap hmore (by simpa using hcontents)
  | @loop lead before name behind within trail hlead hbefore hne hname hbehind hwithin htrail =>
    have hassoc : ['f', 'o', 'r'] ++ (before ++ (name ++ (behind ++ (['i', 'n'] ++
        (within ++ (path ++ trail)))))) = (['f', 'o', 'r'] ++ (before ++ (name ++ (behind ++
          (['i', 'n'] ++ within)))) ++ path) ++ trail := by simp
    rw [hassoc, trim_between hlead htrail (flush_cons rfl _) (hpath.flush_reverse _)] at hcontents
    exact .loop hkind hbefore hne hname hbehind hwithin (by simpa using hcontents)

theorem mentions_unplaced {t : Token} {path : List Char} (h : t.unplaced.Mentions path) :
    t.Mentions path := by
  cases h with
  | alone hkind hcontents => exact .alone hkind hcontents
  | piped hkind hgap hmore hcontents => exact .piped hkind hgap hmore hcontents
  | loop hkind hbefore hne hname hbehind hwithin hcontents =>
    exact .loop hkind hbefore hne hname hbehind hwithin hcontents

/-- A tag with a path is reported if the lexer finds a tag where it begins. -/
theorem mem_pathsOf_of_pathTag {source : String} {s : Span} {path inside rest : List Char}
    {kind : Token.Kind} (hs : s ∈ Token.tagSpans source.toList)
    (h : PathTag source.toList s path kind inside rest) (hreported : isReported path = true) :
    String.ofList path ∈ pathsOf source := by
  have hlength : pathTagLength? (source.toList.drop s.start) = some (inside.length + 3 + 1) :=
    pathTagLength_eq_some_iff.mpr ⟨path, kind, inside, rest, h.isPath, h.within, h.drop_eq, rfl⟩
  have hfound := mem_matchSpans_of_match pathTagLength_bounded hlength
    fun u hu => not_over_tagSpan hu hs
  have hpath : tagPath? (source.toList.drop s.start) = some (path, rest) :=
    tagPath_eq_some_iff.mpr ⟨h.isPath, kind, inside, h.within, h.drop_eq⟩
  rw [mem_pathsOf, mentionedPaths]
  refine List.mem_map_of_mem (List.mem_filter.mpr ⟨?_, hreported⟩)
  refine List.mem_filterMap.mpr ⟨_, hfound, ?_⟩
  rw [hpath, Option.map_some]

/-- Every path that a tag mentions plainly is reported, unless it begins with a digit or is a word
that stands for a literal.  The template need not compile. -/
theorem mem_pathsOf_of_mentions {located : Bool} {source path : String} {t : Token}
    (ht : t ∈ Token.tokens located source) (h : t.Mentions path.toList) (hpath : IsPath path.toList)
    (hdigit : ∀ c, path.toList.head? = some c → isDigitLike c = false)
    (hliteral : path ∉ ["true", "false", "null"]) : path ∈ pathsOf source := by
  -- Both ways of cutting give the tag, and it is the same place that matters.
  obtain ⟨u, hu, hmentions⟩ : ∃ u ∈ Token.locate source, u.Mentions path.toList := by
    cases located with
    | true => exact ⟨t, ht, h⟩
    | false =>
      have hlex : t ∈ Token.lex source := ht
      rw [Token.lex_eq_unplaced] at hlex
      obtain ⟨u, hu, rfl⟩ := List.mem_map.mp hlex
      exact ⟨u, hu, mentions_unplaced h⟩
  have hkind : u.kind ≠ .text := by
    cases hmentions <;> simp_all
  obtain ⟨s, inside, rest, -, hs, hdelimited, hcontents⟩ := Token.delimited_of_mem_locate hu hkind
  obtain ⟨lead, trail, hinside, hlead, htrail, -⟩ := exists_trim inside
  have hwithin : PathInside path.toList u.kind inside := by
    rw [hinside, ← hcontents]
    exact pathInside_of_mentions hmentions hlead htrail
  have hreported : isReported path.toList = true := by
    rw [isReported, String.ofList_toList]
    cases hhead : path.toList.head? with
    | none => simpa [literalWords] using hliteral
    | some c => simpa [literalWords, hdigit c hhead] using hliteral
  have hmem := mem_pathsOf_of_pathTag hs ⟨hdelimited, hpath, hwithin⟩ hreported
  rwa [String.ofList_toList] at hmem

/-- The tag behind a condition that does not parse is found, although a match begins inside of the
condition. -/
theorem mem_pathsOf_of_mentions_piped :
    (⟨.output, "b | f", 1, none⟩ : Token).Mentions "b".toList ∧
      "b" ∈ pathsOf "{% if {{ a }} %}{{ b | f }}" := by
  have htokens : Token.tokens false "{% if {{ a }} %}{{ b | f }}" =
      [⟨.block, "if {{ a }}", 1, none⟩, ⟨.output, "b | f", 1, none⟩] := rfl
  have hmem : ⟨.output, "b | f", 1, none⟩ ∈ Token.tokens false "{% if {{ a }} %}{{ b | f }}" := by
    rw [htokens]
    exact List.mem_cons_of_mem _ List.mem_cons_self
  have hgap : [' '].all isBlank = true := by decide
  have hmentions : (⟨.output, "b | f", 1, none⟩ : Token).Mentions "b".toList :=
    @Token.Mentions.piped _ _ [' '] [' ', 'f'] rfl (List.all_eq_true.mp hgap) (by decide) rfl
  have hchars : "b".toList.all isPathChar = true := by decide +kernel
  have hdigit : ∀ c, "b".toList.head? = some c → isDigitLike c = false := by
    intro c hc
    obtain rfl : 'b' = c := Option.some.inj hc
    decide
  exact ⟨hmentions, mem_pathsOf_of_mentions hmem hmentions
    ⟨by decide, List.all_eq_true.mp hchars⟩ hdigit (by decide)⟩

end Template
end Quill
