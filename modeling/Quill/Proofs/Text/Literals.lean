import Quill.Text.Quoted

/-!
String literals and what they stand for.

A literal goes from its quote to the next one that no backslash takes along.  Its text is decoded in
two passes, the first over the escaped quotes and the second over the doubled backslashes.
`unescape` reads the same text once, from left to right, and `literalText_of_enclosed` says that the
two passes give nothing else: since every quote inside a literal has its own backslash before it, the
first pass never takes the second half of a doubled one.
-/

namespace Quill
namespace Text

/-! ## Between quotes -/

/-- A text that can stand between two quotes: it has no quote and no backslash of its own, but
pairs of a backslash and any character. -/
inductive Enclosed (quote : Char) : List Char → Prop
  | nil : Enclosed quote []
  | plain {c : Char} {rest : List Char} : c ≠ quote → c ≠ '\\' → Enclosed quote rest →
      Enclosed quote (c :: rest)
  | pair {c : Char} {rest : List Char} : Enclosed quote rest → Enclosed quote ('\\' :: c :: rest)

/-- A text without its escapes, read once from left to right: a backslash is left out before the
quote and before another backslash, and everything else is kept. -/
def unescape (quote : Char) : List Char → List Char
  | [] => []
  | a :: [] => [a]
  | a :: b :: rest =>
    if a = '\\' ∧ (b = quote ∨ b = '\\') then b :: unescape quote rest
    else a :: unescape quote (b :: rest)

variable {quote : Char} {body : List Char}

/-! ## Where a literal ends -/

theorem closingLength_of_not_mem {cs : List Char} (h : quote ∉ cs) :
    closingLength? quote cs = none := by
  fun_induction closingLength? quote cs with
  | case1 => rfl
  | case2 => rfl
  | case3 c rest ih => simp_all
  | case4 c rest => simp_all
  | case5 c rest => simp_all

theorem closingLength_cons {c : Char} (hc : c ≠ '\\') (rest : List Char) :
    closingLength? quote (c :: rest) =
      if c == quote then some 1 else (closingLength? quote rest).map (· + 1) := by
  rw [closingLength?.eq_def]
  split
  · simp_all
  · simp_all
  · simp_all
  · simp_all

/-- A character after which the recursion over a literal takes no pair is no backslash. -/
theorem ne_backslash {c : Char} {rest : List Char} (hlast : c = '\\' → rest = [] → False)
    (hpair : ∀ d others, c = '\\' → rest = d :: others → False) : c ≠ '\\' := by
  intro hc
  cases rest with
  | nil => exact hlast hc rfl
  | cons d others => exact hpair d others hc rfl

theorem closingLength_append {gap : List Char} (hquote : quote ∉ gap) (cs : List Char) :
    closingLength? quote (cs ++ gap) = closingLength? quote cs := by
  fun_induction closingLength? quote cs with
  | case1 => exact closingLength_of_not_mem hquote
  | case2 =>
    cases gap with
    | nil => rfl
    | cons c rest =>
      have hrest := closingLength_of_not_mem (List.not_mem_of_not_mem_cons hquote)
      show (closingLength? quote rest).map (· + 2) = none
      rw [hrest]
      rfl
  | case3 c rest ih =>
    show (closingLength? quote (rest ++ gap)).map (· + 2) = _
    rw [ih]
  | case4 c rest hlast hpair hc =>
    rw [List.cons_append, closingLength_cons (ne_backslash hlast hpair), if_pos hc]
  | case5 c rest hlast hpair hc ih =>
    rw [List.cons_append, closingLength_cons (ne_backslash hlast hpair), if_neg hc, ih]

theorem Enclosed.closingLength (h : Enclosed quote body) (hquote : quote ≠ '\\')
    (rest : List Char) :
    closingLength? quote (body ++ quote :: rest) = some (body.length + 1) := by
  induction h with
  | nil => rw [List.nil_append, closingLength_cons hquote, if_pos (beq_self_eq_true _)]; rfl
  | @plain c more hc hbackslash _ ih =>
    rw [List.cons_append, closingLength_cons hbackslash, if_neg (by simpa using hc), ih]
    rfl
  | @pair c more _ ih =>
    show (closingLength? quote (more ++ quote :: rest)).map (· + 2) = _
    rw [ih]
    rfl

theorem exists_enclosed {cs : List Char} {n : Nat} (h : closingLength? quote cs = some n) :
    ∃ body rest, Enclosed quote body ∧ cs = body ++ quote :: rest ∧ n = body.length + 1 := by
  fun_induction closingLength? quote cs generalizing n with
  | case1 => cases h
  | case2 => cases h
  | case3 c rest ih =>
    obtain ⟨k, hk, rfl⟩ := Option.map_eq_some_iff.mp h
    obtain ⟨body, more, hbody, rfl, rfl⟩ := ih hk
    exact ⟨'\\' :: c :: body, more, .pair hbody, rfl, rfl⟩
  | case4 c rest hlast hpair hc =>
    cases h
    exact ⟨[], rest, .nil, by rw [beq_iff_eq.mp hc]; rfl, rfl⟩
  | case5 c rest hlast hpair hc ih =>
    obtain ⟨k, hk, rfl⟩ := Option.map_eq_some_iff.mp h
    obtain ⟨body, more, hbody, rfl, rfl⟩ := ih hk
    exact ⟨c :: body, more, .plain (by simpa using hc) (ne_backslash hlast hpair) hbody, rfl, rfl⟩

/-- A literal at the beginning of a text is a text between two quotes. -/
theorem literalLength_eq_some_iff {cs : List Char} {n : Nat} :
    literalLength? cs = some n ↔ ∃ quote body rest, (quote = '"' ∨ quote = '\'') ∧
      Enclosed quote body ∧ cs = quote :: (body ++ quote :: rest) ∧ n = body.length + 2 := by
  constructor
  · intro h
    cases cs with
    | nil => cases h
    | cons c more =>
      rw [literalLength?] at h
      split at h
      · next hquote =>
        obtain ⟨k, hk, rfl⟩ := Option.map_eq_some_iff.mp h
        obtain ⟨body, rest, hbody, rfl, rfl⟩ := exists_enclosed hk
        exact ⟨c, body, rest, by simpa using hquote, hbody, rfl, rfl⟩
      · cases h
  · rintro ⟨quote, body, rest, hquote, hbody, rfl, rfl⟩
    have hne : quote ≠ '\\' := by rcases hquote with rfl | rfl <;> decide
    rw [literalLength?, if_pos (by simpa using hquote), hbody.closingLength hne]
    rfl

/-! ## What a literal stands for -/

theorem Enclosed.head? (h : Enclosed quote body) (hquote : quote ≠ '\\') :
    body.head? ≠ some quote := by
  cases h with
  | nil => exact fun h => nomatch h
  | plain hc _ _ => exact fun h => hc (Option.some.inj h)
  | pair _ => exact fun h => hquote (Option.some.inj h).symm

theorem unescape_cons {a : Char} (ha : a ≠ '\\') (cs : List Char) :
    unescape quote (a :: cs) = a :: unescape quote cs := by
  cases cs with
  | nil => rfl
  | cons b rest => rw [unescape, if_neg fun h => ha h.1]

/-- Two passes are as good as one. -/
theorem unescapeOne_unescapeOne (h : Enclosed quote body) (hquote : quote ≠ '\\') :
    unescapeOne '\\' (unescapeOne quote body) = unescape quote body := by
  have plain : ∀ {c : Char} {cs : List Char}, c ≠ '\\' →
      unescapeOne '\\' (unescapeOne quote (c :: cs)) =
        c :: unescapeOne '\\' (unescapeOne quote cs) := fun hc => by
    rw [unescapeOne_cons fun h => absurd h hc, unescapeOne_cons fun h => absurd h hc]
  induction h with
  | nil => rfl
  | @plain c rest _ hc _ ih => rw [plain hc, ih, unescape_cons hc]
  | @pair c rest hrest ih =>
    by_cases hcquote : c = quote
    · -- The first pass takes the backslash off, and the second one meets a quote.
      subst hcquote
      have hfirst : unescapeOne c ('\\' :: c :: rest) = c :: unescapeOne c rest := by
        simp [unescapeOne]
      rw [hfirst, unescapeOne_cons fun h => absurd h hquote, ih]
      simp [unescape]
    · have hfirst : unescapeOne quote ('\\' :: c :: rest) =
          '\\' :: unescapeOne quote (c :: rest) :=
        unescapeOne_cons fun _ h => hcquote (Option.some.inj h)
      by_cases hc : c = '\\'
      · -- The first pass leaves both, as the second one has no quote behind it.
        subst hc
        rw [hfirst, unescapeOne_cons fun _ => hrest.head? hquote]
        simp [unescape, unescapeOne, ih]
      · have hkept : unescapeOne quote (c :: rest) = c :: unescapeOne quote rest :=
          unescapeOne_cons fun h => absurd h hc
        rw [hfirst, unescapeOne_cons (by rw [hkept]; exact fun _ h => hc (Option.some.inj h)),
          plain hc, ih, unescape, if_neg fun h => h.2.elim hcquote hc, unescape_cons hc]

theorem literalText_of_enclosed (h : Enclosed quote body) (hquote : quote ≠ '\\') :
    literalText (quote :: (body ++ [quote])) = unescape quote body := by
  rw [literalText, List.dropLast_concat, unescapeOne_unescapeOne h hquote]

/-- What an encoded text has between its quotes. -/
theorem enclosed_literalChar (cs : List Char) : Enclosed quote (cs.flatMap (literalChar quote)) := by
  induction cs with
  | nil => exact .nil
  | cons c rest ih =>
    rw [List.flatMap_cons, literalChar]
    split
    · exact .pair ih
    · next hc =>
      rw [Bool.or_eq_true, beq_iff_eq, beq_iff_eq, not_or] at hc
      exact .plain hc.1 hc.2 ih

end Text
end Quill
