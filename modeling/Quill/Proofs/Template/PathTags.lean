import Quill.Proofs.Template.Delimiters
import Quill.Template.Paths

/-!
The tags that paths are looked for in.

`PathInside` lists what may stand between the delimiters of such a tag: a path alone, a path before
a bar, or the head of a loop over a path.  The recogniser finds exactly these tags.  The lexer would
find a tag in the same place, but it may be in the middle of another one there.  As no brace is
closed inside of a tag with a path, it does not reach over the beginning of a later tag even then.
-/

namespace Quill

namespace Template

open Text

/-! ## The parts of a tag -/

structure IsPath (path : List Char) : Prop where
  ne_nil : path ≠ []
  chars : ∀ c ∈ path, isPathChar c = true

theorem isPathChar_of_isBlank {c : Char} (h : isBlank c = true) : isPathChar c = false :=
  eq_false_of_isBlank (by decide +kernel) h

theorem IsPath.flush_append {path : List Char} (h : IsPath path) (rest : List Char) :
    Flush (path ++ rest) :=
  flush_of_class (fun _ => isPathChar_of_isBlank) h.ne_nil h.chars rest

section Parts

variable {start cs gap word path rest : List Char}

theorem stripStart_append (start rest : List Char) :
    stripStart? start (start ++ rest) = some rest := by
  rw [stripStart?, startsWith, if_pos (List.isPrefixOf_iff_prefix.mpr (List.prefix_append _ _)),
    List.drop_left]

theorem eq_append_of_stripStart (h : stripStart? start cs = some rest) : cs = start ++ rest := by
  rw [stripStart?, startsWith] at h
  split at h
  · next hstart =>
    obtain ⟨back, rfl⟩ := List.isPrefixOf_iff_prefix.mp hstart
    rw [List.drop_left] at h
    rw [Option.some.inj h]
  · cases h

theorem skipBlanks_append (hgap : Gap gap) (hrest : Flush rest) :
    skipBlanks? (gap ++ rest) = some rest := by
  rw [skipBlanks?, run, takeWhile_append_of_all hgap.blank hrest,
    dropWhile_append_of_all hgap.blank hrest,
    if_neg fun h => hgap.ne_nil (List.length_eq_zero_iff.mp h)]

theorem eq_append_of_skipBlanks (h : skipBlanks? cs = some rest) :
    ∃ gap, Gap gap ∧ cs = gap ++ rest := by
  rw [skipBlanks?] at h
  split at h
  · cases h
  · next hrun =>
    cases h
    refine ⟨cs.takeWhile isBlank, ⟨fun h => hrun (by rw [run, h]; rfl), fun _ => ?_⟩, ?_⟩
    · exact of_mem_takeWhile
    · exact List.takeWhile_append_dropWhile.symm

theorem skipWord_append (hne : word ≠ []) (hword : ∀ c ∈ word, isWord c = true)
    (hrest : ∀ c, rest.head? = some c → isWord c = false) :
    skipWord? (word ++ rest) = some rest := by
  rw [skipWord?, run, takeWhile_append_of_all hword hrest, dropWhile_append_of_all hword hrest,
    if_neg fun h => hne (List.length_eq_zero_iff.mp h)]

theorem eq_append_of_skipWord (h : skipWord? cs = some rest) :
    ∃ word, word ≠ [] ∧ (∀ c ∈ word, isWord c = true) ∧ cs = word ++ rest := by
  rw [skipWord?] at h
  split at h
  · cases h
  · next hrun =>
    cases h
    refine ⟨cs.takeWhile isWord, fun h => hrun (by rw [run, h]; rfl), fun _ => of_mem_takeWhile, ?_⟩
    exact List.takeWhile_append_dropWhile.symm

theorem leadingPath_append (hpath : IsPath path)
    (hrest : ∀ c, rest.head? = some c → isPathChar c = false) :
    leadingPath? (path ++ rest) = some (path, rest) := by
  rw [leadingPath?, takeWhile_append_of_all hpath.chars hrest,
    dropWhile_append_of_all hpath.chars hrest]
  exact if_neg (by simpa using hpath.ne_nil)

theorem eq_append_of_leadingPath (h : leadingPath? cs = some (path, rest)) :
    IsPath path ∧ cs = path ++ rest := by
  rw [leadingPath?] at h
  split at h
  · cases h
  · next hne =>
    cases h
    refine ⟨⟨by simpa using hne, fun _ => of_mem_takeWhile⟩, ?_⟩
    exact List.takeWhile_append_dropWhile.symm

end Parts

/-! ## Tags with a path -/

/-- What may stand between the delimiters of a tag in which a path is looked for. -/
inductive PathInside (path : List Char) : Token.Kind → List Char → Prop
  | alone {lead gap : List Char} : (∀ c ∈ lead, isBlank c = true) → (∀ c ∈ gap, isBlank c = true) →
      PathInside path .output (lead ++ (path ++ gap))
  | piped {lead gap stages : List Char} : (∀ c ∈ lead, isBlank c = true) →
      (∀ c ∈ gap, isBlank c = true) → '}' ∉ stages →
      PathInside path .output (lead ++ (path ++ (gap ++ '|' :: stages)))
  | loop {lead before name behind within trail : List Char} : (∀ c ∈ lead, isBlank c = true) →
      Gap before → name ≠ [] → (∀ c ∈ name, isWord c = true) → Gap behind → Gap within →
      (∀ c ∈ trail, isBlank c = true) →
      PathInside path .block (lead ++ (['f', 'o', 'r'] ++ (before ++ (name ++ (behind ++
        (['i', 'n'] ++ (within ++ (path ++ trail))))))))

section Recogniser

variable {cs path rest : List Char}

theorem outputPath_eq_some (h : outputPath? cs = some (path, rest)) :
    IsPath path ∧ ∃ inside, PathInside path .output inside ∧
      cs = Token.Kind.opening .output ++ (inside ++ (Token.Kind.closing .output ++ rest)) := by
  rw [outputPath?, Option.bind_eq_some_iff] at h
  obtain ⟨first, hopen, h⟩ := h
  obtain ⟨⟨path', second⟩, hpath, h⟩ := Option.bind_eq_some_iff.mp h
  obtain ⟨rest', hclose, heq⟩ := Option.map_eq_some_iff.mp h
  cases heq
  obtain ⟨hpath, hsecond⟩ := eq_append_of_leadingPath hpath
  obtain ⟨lead, hlead, hfirst⟩ := exists_dropWhile_isBlank first
  obtain ⟨gap, hgap, hbehind⟩ := exists_dropWhile_isBlank second
  have hclose := eq_append_of_stripStart hclose
  rw [eq_append_of_stripStart hopen, hfirst, hsecond, hbehind]
  refine ⟨hpath, ?_⟩
  split at hclose
  · next stages hbar =>
    have hstages : '|' :: stages =
        '|' :: (stages.takeWhile (· != '}') ++ (['}', '}'] ++ rest)) := by
      rw [← hclose, List.takeWhile_append_dropWhile]
    have hnot : '}' ∉ stages.takeWhile (· != '}') := fun hmem => by
      simpa using of_mem_takeWhile hmem
    refine ⟨_, .piped hlead hgap hnot, ?_⟩
    rw [hbar, hstages]
    simp only [List.append_assoc, List.cons_append]
    rfl
  · refine ⟨_, .alone hlead hgap, ?_⟩
    rw [hclose]
    simp only [List.append_assoc]
    rfl

theorem loopPath_eq_some (h : loopPath? cs = some (path, rest)) :
    IsPath path ∧ ∃ inside, PathInside path .block inside ∧
      cs = Token.Kind.opening .block ++ (inside ++ (Token.Kind.closing .block ++ rest)) := by
  rw [loopPath?, Option.bind_eq_some_iff] at h
  obtain ⟨first, hopen, h⟩ := h
  obtain ⟨second, hfor, h⟩ := Option.bind_eq_some_iff.mp h
  obtain ⟨third, hbefore, h⟩ := Option.bind_eq_some_iff.mp h
  obtain ⟨fourth, hname, h⟩ := Option.bind_eq_some_iff.mp h
  obtain ⟨fifth, hbehind, h⟩ := Option.bind_eq_some_iff.mp h
  obtain ⟨sixth, hin, h⟩ := Option.bind_eq_some_iff.mp h
  obtain ⟨seventh, hwithin, h⟩ := Option.bind_eq_some_iff.mp h
  obtain ⟨⟨path', eighth⟩, hpath, h⟩ := Option.bind_eq_some_iff.mp h
  obtain ⟨rest', hclose, heq⟩ := Option.map_eq_some_iff.mp h
  cases heq
  obtain ⟨lead, hlead, hfirst⟩ := exists_dropWhile_isBlank first
  obtain ⟨before, hbefore, hsecond⟩ := eq_append_of_skipBlanks hbefore
  obtain ⟨name, hne, hname, hthird⟩ := eq_append_of_skipWord hname
  obtain ⟨behind, hbehind, hfourth⟩ := eq_append_of_skipBlanks hbehind
  obtain ⟨within, hwithin, hsixth⟩ := eq_append_of_skipBlanks hwithin
  obtain ⟨hpath, hseventh⟩ := eq_append_of_leadingPath hpath
  obtain ⟨trail, htrail, heighth⟩ := exists_dropWhile_isBlank eighth
  refine ⟨hpath, _, .loop hlead hbefore hne hname hbehind hwithin htrail, ?_⟩
  rw [eq_append_of_stripStart hopen, hfirst, eq_append_of_stripStart hfor, hsecond, hthird, hfourth,
    eq_append_of_stripStart hin, hsixth, hseventh, heighth, eq_append_of_stripStart hclose]
  simp only [List.append_assoc]
  rfl

/-- Path characters end where white space, a bar or a delimiter begins. -/
theorem not_isPathChar_of_gap {gap : List Char} (hgap : ∀ c ∈ gap, isBlank c = true) {d : Char}
    (hd : isPathChar d = false) (rest : List Char) :
    ∀ c, (gap ++ d :: rest).head? = some c → isPathChar c = false := by
  intro c hc
  cases gap with
  | nil =>
    obtain rfl : d = c := Option.some.inj hc
    exact hd
  | cons e gap =>
    obtain rfl : e = c := Option.some.inj hc
    exact isPathChar_of_isBlank (hgap e List.mem_cons_self)

theorem outputPath_append (hpath : IsPath path) {inside : List Char}
    (h : PathInside path .output inside) (rest : List Char) :
    outputPath? (['{', '{'] ++ (inside ++ (['}', '}'] ++ rest))) = some (path, rest) := by
  cases h with
  | @alone lead gap hlead hgap =>
    have hend := flush_cons (show isBlank '}' = false from rfl) ('}' :: rest)
    have hstop := not_isPathChar_of_gap hgap (show isPathChar '}' = false by decide +kernel)
      ('}' :: rest)
    have hassoc : lead ++ (path ++ gap) ++ (['}', '}'] ++ rest) =
        lead ++ (path ++ (gap ++ ('}' :: '}' :: rest))) := by simp
    rw [outputPath?, stripStart_append, Option.bind_some, hassoc,
      dropWhile_append_of_all hlead (hpath.flush_append _), leadingPath_append hpath hstop,
      Option.bind_some]
    dsimp only
    rw [dropWhile_append_of_all hgap hend]
    show (stripStart? ['}', '}'] (['}', '}'] ++ rest)).map _ = _
    rw [stripStart_append]
    rfl
  | @piped lead gap stages hlead hgap hstages =>
    have hend := flush_cons (show isBlank '|' = false from rfl) (stages ++ ('}' :: '}' :: rest))
    have hstop := not_isPathChar_of_gap hgap (show isPathChar '|' = false by decide +kernel)
      (stages ++ ('}' :: '}' :: rest))
    have hassoc : lead ++ (path ++ (gap ++ '|' :: stages)) ++ (['}', '}'] ++ rest) =
        lead ++ (path ++ (gap ++ '|' :: (stages ++ ('}' :: '}' :: rest)))) := by simp
    have hbrace : (stages ++ ('}' :: '}' :: rest)).dropWhile (· != '}') = ['}', '}'] ++ rest := by
      refine dropWhile_append_of_all (fun c hc => ?_) fun c hc => ?_
      · simpa using fun heq : c = '}' => hstages (heq ▸ hc)
      · obtain rfl : '}' = c := Option.some.inj hc
        rfl
    rw [outputPath?, stripStart_append, Option.bind_some, hassoc,
      dropWhile_append_of_all hlead (hpath.flush_append _), leadingPath_append hpath hstop,
      Option.bind_some]
    dsimp only
    rw [dropWhile_append_of_all hgap hend]
    show (stripStart? ['}', '}'] ((stages ++ ('}' :: '}' :: rest)).dropWhile (· != '}'))).map _ = _
    rw [hbrace, stripStart_append]
    rfl

theorem loopPath_append (hpath : IsPath path) {inside : List Char}
    (h : PathInside path .block inside) (rest : List Char) :
    loopPath? (['{', '%'] ++ (inside ++ (['%', '}'] ++ rest))) = some (path, rest) := by
  cases h with
  | @loop lead before name behind within trail hlead hbefore hne hname hbehind hwithin htrail =>
    have hassoc : lead ++ (['f', 'o', 'r'] ++ (before ++ (name ++ (behind ++ (['i', 'n'] ++
        (within ++ (path ++ trail))))))) ++ (['%', '}'] ++ rest) =
        lead ++ (['f', 'o', 'r'] ++ (before ++ (name ++ (behind ++ (['i', 'n'] ++
        (within ++ (path ++ (trail ++ ('%' :: '}' :: rest))))))))) := by simp
    have hfor : Flush (['f', 'o', 'r'] ++ (before ++ (name ++ (behind ++ (['i', 'n'] ++
        (within ++ (path ++ (trail ++ ('%' :: '}' :: rest))))))))) := flush_cons rfl _
    have hword : ∀ c, (behind ++ (['i', 'n'] ++
        (within ++ (path ++ (trail ++ ('%' :: '}' :: rest)))))).head? = some c →
          isWord c = false := by
      intro c hc
      obtain ⟨d, others, heq⟩ := List.exists_cons_of_ne_nil hbehind.ne_nil
      rw [heq] at hc
      obtain rfl : d = c := Option.some.inj hc
      exact isWord_of_isBlank (hbehind.blank d (heq ▸ List.mem_cons_self))
    have hin : Flush (['i', 'n'] ++ (within ++ (path ++ (trail ++ ('%' :: '}' :: rest))))) :=
      flush_cons rfl _
    have hstop := not_isPathChar_of_gap htrail (show isPathChar '%' = false by decide +kernel)
      ('}' :: rest)
    have hend := flush_cons (show isBlank '%' = false from rfl) ('}' :: rest)
    rw [loopPath?, stripStart_append, Option.bind_some, hassoc, dropWhile_append_of_all hlead hfor,
      stripStart_append, Option.bind_some, skipBlanks_append hbefore (flush_word hne hname _),
      Option.bind_some, skipWord_append hne hname hword, Option.bind_some,
      skipBlanks_append hbehind hin, Option.bind_some, stripStart_append, Option.bind_some,
      skipBlanks_append hwithin (hpath.flush_append _), Option.bind_some,
      leadingPath_append hpath hstop, Option.bind_some]
    dsimp only
    rw [dropWhile_append_of_all htrail hend]
    show (stripStart? ['%', '}'] (['%', '}'] ++ rest)).map _ = _
    rw [stripStart_append]
    rfl

/-- A path is found in a text exactly if the text begins with a tag that it is looked for in. -/
theorem tagPath_eq_some_iff : tagPath? cs = some (path, rest) ↔ IsPath path ∧
    ∃ kind inside, PathInside path kind inside ∧
      cs = kind.opening ++ (inside ++ (kind.closing ++ rest)) := by
  constructor
  · intro h
    rw [tagPath?] at h
    split at h
    · next houtput =>
      cases h
      obtain ⟨hpath, inside, hinside, hcs⟩ := outputPath_eq_some houtput
      exact ⟨hpath, .output, inside, hinside, hcs⟩
    · obtain ⟨hpath, inside, hinside, hcs⟩ := loopPath_eq_some h
      exact ⟨hpath, .block, inside, hinside, hcs⟩
  · rintro ⟨hpath, kind, inside, hinside, rfl⟩
    cases kind with
    | text => cases hinside
    | output =>
      rw [tagPath?, Token.Kind.opening, Token.Kind.closing, outputPath_append hpath hinside]
    | block =>
      have hnone : outputPath? (['{', '%'] ++ (inside ++ (['%', '}'] ++ rest))) = none := rfl
      have hopening : Token.Kind.opening .block = ['{', '%'] := rfl
      have hclosing : Token.Kind.closing .block = ['%', '}'] := rfl
      rw [hopening, hclosing, tagPath?, hnone]
      exact loopPath_append hpath hinside rest

theorem pathTagLength_eq_some_iff {n : Nat} : pathTagLength? cs = some n ↔
    ∃ path kind inside rest, IsPath path ∧ PathInside path kind inside ∧
      cs = kind.opening ++ (inside ++ (kind.closing ++ rest)) ∧ n = inside.length + 4 := by
  have hlength : ∀ (kind : Token.Kind) (inside rest : List Char),
      (kind.opening ++ (inside ++ (kind.closing ++ rest))).length - rest.length =
        inside.length + 4 := by
    intro kind inside rest
    rw [kind.length_delimited, Nat.add_sub_cancel_right]
  rw [pathTagLength?, Option.map_eq_some_iff]
  constructor
  · rintro ⟨⟨path, rest⟩, hfound, rfl⟩
    obtain ⟨hpath, kind, inside, hinside, rfl⟩ := tagPath_eq_some_iff.mp hfound
    exact ⟨path, kind, inside, rest, hpath, hinside, rfl, hlength kind inside rest⟩
  · rintro ⟨path, kind, inside, rest, hpath, hinside, rfl, rfl⟩
    exact ⟨(path, rest), tagPath_eq_some_iff.mpr ⟨hpath, kind, inside, hinside, rfl⟩,
      hlength kind inside rest⟩

end Recogniser

/-! ## What stands inside -/

section Inside

variable {path inside : List Char} {kind : Token.Kind}

def special : List Char := ['{', '%', '}', '"', '\'']

/-- The special characters are no white space and stand in no name. -/
theorem not_of_special {c : Char} (hc : c ∈ special) :
    isBlank c = false ∧ isWord c = false ∧ isPathChar c = false := by
  simp only [special, List.mem_cons, List.not_mem_nil, or_false] at hc
  rcases hc with rfl | rfl | rfl | rfl | rfl <;> decide +kernel

/-- Before the path of a tag nothing is opened, closed or quoted, and behind it no brace is
closed. -/
theorem PathInside.exists_front (hpath : IsPath path) (h : PathInside path kind inside) :
    ∃ front back, inside = front ++ (path ++ back) ∧ (∀ c ∈ special, c ∉ front ++ path) ∧
      '}' ∉ back := by
  have blank : ∀ {cs : List Char}, (∀ d ∈ cs, isBlank d = true) → ∀ c ∈ special, c ∉ cs :=
    fun hcs c hc => not_mem_of_forall (not_of_special hc).1 hcs
  have word : ∀ {cs : List Char}, (∀ d ∈ cs, isWord d = true) → ∀ c ∈ special, c ∉ cs :=
    fun hcs c hc => not_mem_of_forall (not_of_special hc).2.1 hcs
  have within : ∀ c ∈ special, c ∉ path :=
    fun c hc => not_mem_of_forall (not_of_special hc).2.2 hpath.chars
  cases h with
  | alone hlead hgap =>
    refine ⟨_, _, rfl, fun c hc => ?_, blank hgap _ (by decide)⟩
    rw [List.mem_append, not_or]
    exact ⟨blank hlead c hc, within c hc⟩
  | piped hlead hgap hstages =>
    refine ⟨_, _, rfl, fun c hc => ?_, ?_⟩
    · rw [List.mem_append, not_or]
      exact ⟨blank hlead c hc, within c hc⟩
    · rw [List.mem_append, List.mem_cons, not_or, not_or]
      exact ⟨blank hgap _ (by decide), by decide, hstages⟩
  | @loop lead before name behind gap trail hlead hbefore _ hname hbehind hwithin htrail =>
    have hfor : ['f', 'o', 'r'].all isWord = true := by decide
    have hin : ['i', 'n'].all isWord = true := by decide
    refine ⟨lead ++ (['f', 'o', 'r'] ++ (before ++ (name ++ (behind ++ (['i', 'n'] ++ gap))))),
      trail, by simp, fun c hc => ?_, blank htrail _ (by decide)⟩
    simp only [List.mem_append, not_or]
    exact ⟨⟨blank hlead c hc, word (List.all_eq_true.mp hfor) c hc, blank hbefore.blank c hc,
      word hname c hc, blank hbehind.blank c hc, word (List.all_eq_true.mp hin) c hc,
      blank hwithin.blank c hc⟩, within c hc⟩

/-- No brace is closed inside of a tag with a path. -/
theorem PathInside.not_mem (hpath : IsPath path) (h : PathInside path kind inside) :
    '}' ∉ inside := by
  obtain ⟨front, back, rfl, hfront, hback⟩ := h.exists_front hpath
  rw [← List.append_assoc, List.mem_append, not_or]
  exact ⟨hfront _ (by decide), hback⟩

theorem PathInside.ne_nil (hpath : IsPath path) (h : PathInside path kind inside) :
    inside ≠ [] := by
  obtain ⟨front, back, rfl, -, -⟩ := h.exists_front hpath
  simp [hpath.ne_nil]

theorem PathInside.kind_ne_text (h : PathInside path kind inside) : kind ≠ .text := by
  cases h with
  | alone => decide
  | piped => decide
  | loop => decide

end Inside

/-! ## The tags that are found -/

section Found

variable {cs : List Char} {u : Span}

theorem pathTagLength_bounded : Bounded pathTagLength? := by
  intro cs n h
  obtain ⟨path, kind, inside, rest, -, -, rfl, rfl⟩ := pathTagLength_eq_some_iff.mp h
  rw [Token.Kind.length_delimited]
  omega

structure PathTag (cs : List Char) (u : Span) (path : List Char) (kind : Token.Kind)
    (inside rest : List Char) : Prop extends Token.Delimited cs u kind inside rest where
  isPath : IsPath path
  within : PathInside path kind inside

theorem exists_pathTag (hu : u ∈ matchSpans pathTagLength? cs) :
    ∃ path kind inside rest, PathTag cs u path kind inside rest := by
  have hlength := length_of_mem_matchSpans hu
  have hlt := (matchSpans_ordered pathTagLength_bounded cs).within hu
  obtain ⟨path, kind, inside, rest, hpath, hinside, hcs, hn⟩ := pathTagLength_eq_some_iff.mp hlength
  exact ⟨path, kind, inside, rest, ⟨hcs, by omega⟩, hpath, hinside⟩

namespace PathTag

variable {path inside rest : List Char} {kind : Token.Kind}

/-- A close that follows the opening is the one at the end. -/
theorem paired (h : PathTag cs u path kind inside rest) :
    Token.Paired cs kind u.start (u.stop - 2) := by
  have hstop := h.stop_eq
  have hlength := List.length_pos_iff.mpr (h.within.ne_nil h.isPath)
  have hclose : cs.drop (u.stop - 2) = kind.closing ++ rest := by
    have hplace : u.stop - 2 = u.start + (kind.opening ++ inside).length := by
      rw [List.length_append, Token.Kind.length_opening]
      omega
    rw [hplace, ← List.drop_drop, h.drop_eq, ← List.append_assoc, List.drop_left]
  have hopen := h.drop_eq
  cases kind with
  | text => exact absurd rfl h.within.kind_ne_text
  | output => exact .output ⟨_, hopen.symm⟩ (by omega) ⟨_, hclose.symm⟩
  | block => exact .block ⟨_, hopen.symm⟩ (by omega) ⟨_, hclose.symm⟩

/-- A brace is closed only at the end. -/
theorem le_of_brace (h : PathTag cs u path kind inside rest) {place : Nat}
    (hstart : u.start ≤ place) (hplace : cs[place]? = some '}') : u.stop ≤ place + 2 := by
  refine Nat.le_of_not_lt fun hlt => ?_
  have hstop := h.stop_eq
  have hshort : place - u.start < (kind.opening ++ inside).length := by
    rw [List.length_append, Token.Kind.length_opening]
    omega
  have hchar : (kind.opening ++ inside)[place - u.start]? = some '}' := by
    rw [← List.getElem?_append_left hshort, List.append_assoc, ← h.drop_eq, List.getElem?_drop,
      show u.start + (place - u.start) = place by omega]
    exact hplace
  rcases List.mem_append.mp (List.mem_of_getElem? hchar) with hmem | hmem
  · exact absurd hmem kind.not_mem_opening
  · exact h.within.not_mem h.isPath hmem

theorem last (h : PathTag cs u path kind inside rest) : cs[u.stop - 1]? = some '}' := by
  have hplace : u.stop - 1 = u.start + ((kind.opening ++ inside).length + 1) := by
    have hstop := h.stop_eq
    rw [List.length_append, Token.Kind.length_opening]
    omega
  rw [hplace, ← List.getElem?_drop, h.drop_eq, ← List.append_assoc,
    List.getElem?_append_right (Nat.le_add_right _ 1), Nat.add_sub_cancel_left]
  cases kind <;> rfl

end PathTag

/-- The tag that is found around the beginning of a tag with a path. -/
theorem exists_tagSpan_over (hu : u ∈ matchSpans pathTagLength? cs) :
    ∃ w ∈ Token.tagSpans cs, w.start ≤ u.start ∧ u.start < w.stop := by
  obtain ⟨path, kind, inside, rest, htag⟩ := exists_pathTag hu
  obtain ⟨n, hn, -⟩ := Token.tagLength_of_paired htag.paired
  have hlt := (matchSpans_ordered pathTagLength_bounded cs).within hu
  exact exists_match_over hn (Nat.lt_of_lt_of_le hlt.1 hlt.2)

/-- A tag with a path does not reach over the beginning of a later tag.  A tag around its beginning
would end before that, and with it a brace is closed, but then the tag with a path is over. -/
theorem not_over_tagSpan (hu : u ∈ matchSpans pathTagLength? cs) {s : Span}
    (hs : s ∈ Token.tagSpans cs) : ¬ (u.start < s.start ∧ s.start < u.stop) := by
  rintro ⟨hstart, hover⟩
  obtain ⟨path, kind, inside, rest, htag⟩ := exists_pathTag hu
  obtain ⟨w, hw, hle, hlt⟩ := exists_tagSpan_over hu
  have hbefore := (Token.tagSpans_ordered cs).stop_le_start hw hs (Nat.lt_of_le_of_lt hle hstart)
  obtain ⟨wkind, stop, hwstop, hpaired⟩ := Token.exists_paired_of_mem_tagSpans hw
  have hend := htag.le_of_brace (by omega) hpaired.brace
  obtain ⟨skind, _, -, hopening⟩ := Token.exists_paired_of_mem_tagSpans hs
  have hlast := htag.last
  have heq : u.stop - 1 = s.start := by omega
  rw [heq, hopening.start] at hlast
  exact absurd hlast (by decide)

end Found

end Template
end Quill
