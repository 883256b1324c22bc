import Quill.Proofs.Template.Tags

/-!
The expression that a tag carries, and where in the tag it stands.

The expression of an output tag is what comes before its first separating bar, and it begins where
the tag begins.  In a block tag a heading comes first: the word of a condition, or `for`, a name and
`in`, with white space behind each word.
-/

namespace Quill

open Text

namespace Pipeline

/-- The first part of a text goes up to a bar, or it is the whole text. -/
theorem exists_first_part (quote : Option Char) (depth : Nat) (part cs : List Char) :
    ∃ first others behind, partsFrom quote depth part cs = (part.reverse ++ first) :: others ∧
      cs = first ++ behind ∧ (behind = [] ∨ ∃ more, behind = '|' :: more) := by
  fun_induction partsFrom quote depth part cs with
  | case1 quote depth part => exact ⟨[], [], [], by simp, rfl, .inl rfl⟩
  | case2 depth part c quote hc => exact ⟨[c], [], [], by simp, rfl, .inl rfl⟩
  | case3 depth part c quote hc d rest ih =>
    obtain ⟨first, others, behind, hparts, rfl, hbehind⟩ := ih
    exact ⟨c :: d :: first, others, behind, by simp [hparts], rfl, hbehind⟩
  | case9 depth part c _ _ _ hbar =>
    obtain ⟨rfl, -⟩ : c = '|' ∧ depth = 0 := by simpa using hbar
    exact ⟨[], [[]], ['|'], by simp, rfl, .inr ⟨[], rfl⟩⟩
  | case10 depth part c _ _ _ _ d rest _ ih =>
    obtain ⟨first, others, behind, hparts, rfl, hbehind⟩ := ih
    exact ⟨c :: d :: first, others, behind, by simp [hparts], rfl, hbehind⟩
  | case11 depth part c _ _ _ hbar d rest _ ih =>
    obtain ⟨rfl, -⟩ : c = '|' ∧ depth = 0 := by simpa using hbar
    exact ⟨[], partsFrom none depth [] (d :: rest), '|' :: d :: rest, by simp, rfl,
      .inr ⟨d :: rest, rfl⟩⟩
  | _ depth part c =>
    next ih =>
    obtain ⟨first, others, behind, hparts, rfl, hbehind⟩ := ih
    exact ⟨c :: first, others, behind, by simp [hparts], rfl, hbehind⟩

/-- The subject of a pipeline goes up to white space and a bar, or it is the whole text. -/
theorem exists_behind_subject {source subject : String} (htrim : trim source.toList = source.toList)
    (h : (split source).head? = some subject) (hne : subject ≠ "") :
    ∃ behind, source.toList = subject.toList ++ behind ∧ (behind = [] ∨
      ∃ gap more, (∀ c ∈ gap, isBlank c = true) ∧ behind = gap ++ '|' :: more) := by
  obtain ⟨first, others, behind, hparts, hsource, hbehind⟩ :=
    exists_first_part none 0 [] source.toList
  rw [split, hparts, List.map_cons, List.head?_cons, List.reverse_nil, List.nil_append,
    Option.some.injEq] at h
  subst h
  rw [String.toList_ofList]
  rcases hbehind with rfl | ⟨more, rfl⟩
  · rw [List.append_nil] at hsource
    rw [← hsource, htrim]
    exact ⟨[], (List.append_nil _).symm, .inl rfl⟩
  · have hfirst : Flush first := by
      cases first with
      | nil => exact absurd rfl hne
      | cons c rest =>
        intro d hd
        refine flush_of_trim htrim d ?_
        rw [hsource]
        exact hd
    obtain ⟨trail, htrail, hblank⟩ := exists_trimRight first
    rw [trim, hfirst.trimLeft]
    refine ⟨trail ++ '|' :: more, ?_, .inr ⟨trail, more, hblank, rfl⟩⟩
    rw [← List.append_assoc, ← htrail]
    exact hsource

end Pipeline

/-- What stands before the text that follows a word is longer than the word. -/
theorem Text.Words.exists_front {word cs rest : List Char} (h : Words word cs rest) :
    ∃ front, cs = front ++ rest ∧ word.length < front.length := by
  obtain ⟨gap, hgap, -, -, rfl⟩ := h
  refine ⟨word ++ gap, (List.append_assoc _ _ _).symm, ?_⟩
  have hlength := List.length_pos_iff.mpr hgap
  rw [List.length_append]
  omega

namespace Token

/-- Whether the expression of a tag is a certain text, and what the tag contains before it. -/
inductive Carries (t : Token) : List Char → List Char → Prop
  | output {text behind : List Char} : t.kind = .output →
      (Pipeline.split t.contents).head? = some (String.ofList text) →
      t.contents.toList = text ++ behind → (behind = [] ∨
        ∃ gap more, (∀ c ∈ gap, isBlank c = true) ∧ behind = gap ++ '|' :: more) →
      Carries t [] text
  | condition {word : String} {heading text : List Char} : t.kind = .block →
      word = "if" ∨ word = "elif" → Words word.toList t.contents.toList text →
      t.contents.toList = heading ++ text → word.length < heading.length → Carries t heading text
  | loop {name : String} {afterFor afterName heading text : List Char} : t.kind = .block →
      Words ['f', 'o', 'r'] t.contents.toList afterFor → Identifier name.toList →
      Words name.toList afterFor afterName → Words ['i', 'n'] afterName text →
      t.contents.toList = heading ++ text → 3 < heading.length → Carries t heading text

variable {t : Token} {heading text : List Char}

/-- The expression stands behind its heading. -/
theorem Carries.isPrefix (h : t.Carries heading text) :
    heading ++ text <+: t.contents.toList := by
  cases h with
  | output _ _ hcontents _ =>
    rw [hcontents]
    exact List.prefix_append _ _
  | condition _ _ _ hcontents _ => exact hcontents ▸ List.prefix_refl _
  | loop _ _ _ _ _ hcontents _ => exact hcontents ▸ List.prefix_refl _

/-- An output tag has no heading, and every block tag has one. -/
theorem Carries.length_heading (h : t.Carries heading text) :
    (t.kind = .output → heading = []) ∧ (t.kind = .block → 3 ≤ heading.length) := by
  cases h with
  | output hkind => exact ⟨fun _ => rfl, fun hblock => absurd (hkind.symm.trans hblock) (by decide)⟩
  | condition hkind hword _ _ hlength =>
    refine ⟨fun houtput => absurd (hkind.symm.trans houtput) (by decide), fun _ => ?_⟩
    rcases hword with rfl | rfl
    · exact hlength
    · exact Nat.le_of_succ_le (Nat.le_of_succ_le hlength)
  | loop hkind _ _ _ _ _ hlength =>
    exact ⟨fun houtput => absurd (hkind.symm.trans houtput) (by decide),
      fun _ => Nat.le_of_succ_le hlength⟩

theorem carries_output (ht : t.Tidy) (hkind : t.kind = .output) {subject : String}
    (h : (Pipeline.split t.contents).head? = some subject) (hne : subject ≠ "") :
    t.Carries [] subject.toList := by
  have htrim : trim t.contents.toList = t.contents.toList := ht (by rw [hkind]; decide)
  obtain ⟨behind, hcontents, hbehind⟩ := Pipeline.exists_behind_subject htrim h hne
  rw [← String.ofList_toList (s := subject)] at h
  exact .output hkind h hcontents hbehind

theorem carries_condition {word : String} (hkind : t.kind = .block)
    (hword : word = "if" ∨ word = "elif") (h : Words word.toList t.contents.toList text) :
    ∃ heading, t.Carries heading text := by
  obtain ⟨front, hcontents, hlength⟩ := h.exists_front
  exact ⟨front, .condition hkind hword h hcontents hlength⟩

theorem carries_loop {name : String} {afterFor afterName : List Char} (hkind : t.kind = .block)
    (hfor : Words ['f', 'o', 'r'] t.contents.toList afterFor) (hname : Identifier name.toList)
    (hwords : Words name.toList afterFor afterName) (hin : Words ['i', 'n'] afterName text) :
    ∃ heading, t.Carries heading text := by
  obtain ⟨before, hcontents, hlength⟩ := hfor.exists_front
  obtain ⟨middle, hmiddle, -⟩ := hwords.exists_front
  obtain ⟨behind, hbehind, -⟩ := hin.exists_front
  refine ⟨before ++ (middle ++ behind), .loop hkind hfor hname hwords hin ?_ ?_⟩
  · rw [hcontents, hmiddle, hbehind, List.append_assoc, List.append_assoc]
  · have hlength : 3 < before.length := hlength
    rw [List.length_append]
    omega

/-- What a tag contains besides its expression: a heading without braces, and in an output tag its
filters. -/
theorem Carries.exists_behind (h : t.Carries heading text) :
    ∃ behind, t.contents.toList = heading ++ (text ++ behind) ∧ '{' ∉ heading ∧
      (behind = [] ∨ heading = []) := by
  have gap : ∀ {cs : List Char}, (∀ c ∈ cs, isBlank c = true) → '{' ∉ cs :=
    fun hcs => not_mem_of_forall (by decide) hcs
  cases h with
  | @output _ behind hkind hsplit hcontents hbehind => exact ⟨behind, hcontents, by simp, .inr rfl⟩
  | condition hkind hword hwords hcontents _ =>
    obtain ⟨blanks, -, hblanks, -, hcs⟩ := hwords
    rw [← List.append_assoc] at hcs
    obtain rfl := List.append_cancel_right (hcontents.symm.trans hcs)
    refine ⟨[], by rw [hcontents, List.append_nil], ?_, .inl rfl⟩
    rw [List.mem_append, not_or]
    refine ⟨?_, gap hblanks⟩
    rcases hword with rfl | rfl
    · decide
    · decide
  | @loop name afterFor afterName _ _ hkind hfor hname hwords hin hcontents _ =>
    obtain ⟨before, -, hbefore, -, hfor⟩ := hfor
    obtain ⟨middle, -, hmiddle, -, rfl⟩ := hwords
    obtain ⟨blanks, -, hblanks, -, rfl⟩ := hin
    have hcs : t.contents.toList = (['f', 'o', 'r'] ++ (before ++ (name.toList ++ (middle ++
        (['i', 'n'] ++ blanks))))) ++ text := by simp [hfor]
    obtain rfl := List.append_cancel_right (hcontents.symm.trans hcs)
    refine ⟨[], by rw [hcontents, List.append_nil], ?_, .inl rfl⟩
    simp only [List.mem_append, not_or]
    exact ⟨by decide, gap hbefore, not_mem_of_forall (by decide) hname.2, gap hmiddle,
      by decide, gap hblanks⟩

end Token
end Quill
