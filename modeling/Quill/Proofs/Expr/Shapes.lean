import Quill.Proofs.Expr.Places

/-!
What lexemes look like.

`Shape kind word` says which words are of which kind, without a scanner.  The first character of a
word tells its kind, and `leading_eq_some_iff` says that the scanner takes the longest word that a
text begins with.  So cutting the text off behind the word, or writing white space there, changes
nothing.
-/

namespace Quill
namespace Lexeme

open Text

/-! ## Words -/

def operators : List (List Char) :=
  [['&', '&'], ['|', '|'], ['=', '='], ['!', '='], ['<', '='], ['>', '='], ['-'], ['+'], ['*'],
    ['/'], ['%'], ['<'], ['>'], ['!']]

def signs : List Char := ['&', '|', '=', '!', '<', '>', '-', '+', '*', '/', '%']

def marks : List Char := ['(', ')', '[', ']', '.']

inductive Shape : Kind → List Char → Prop
  | whole {digits : List Char} : digits ≠ [] → (∀ c ∈ digits, isDigit c = true) →
      Shape .number digits
  | fraction {digits places : List Char} : digits ≠ [] → (∀ c ∈ digits, isDigit c = true) →
      places ≠ [] → (∀ c ∈ places, isDigit c = true) → Shape .number (digits ++ '.' :: places)
  | string {quote : Char} {body : List Char} : quote = '"' ∨ quote = '\'' → Enclosed quote body →
      Shape .string (quote :: (body ++ [quote]))
  | name {c : Char} {rest : List Char} : isNameStart c = true → (∀ d ∈ rest, isWord d = true) →
      Shape .name (c :: rest)
  | operator {word : List Char} : word ∈ operators → Shape .operator word
  | punct {c : Char} : c ∈ marks → Shape .punct [c]

def kindOf? (c : Char) : Option Kind :=
  if isDigit c then some .number
  else if c == '"' || c == '\'' then some .string
  else if isNameStart c then some .name
  else if signs.contains c then some .operator
  else if marks.contains c then some .punct
  else none

variable {kind kind' : Kind} {word word' cs : List Char} {c : Char} {n : Nat}

theorem Shape.ne_nil (h : Shape kind word) : word ≠ [] := by
  cases h with
  | whole hne _ => exact hne
  | fraction hne _ _ _ => simp
  | operator hword =>
    rintro rfl
    exact absurd hword (by decide)
  | _ => simp

theorem isWord_of_isNameStart (h : isNameStart c = true) : isWord c = true ∧ isDigit c = false := by
  rwa [isNameStart, Bool.and_eq_true, Bool.not_eq_true'] at h

theorem Shape.kindOf? {rest : List Char} (h : Shape kind (c :: rest)) : kindOf? c = some kind := by
  have digit : isDigit c = true → Lexeme.kindOf? c = some .number := fun hc => if_pos hc
  generalize hword : c :: rest = word at h
  cases h with
  | whole _ hdigits => exact digit (hdigits c (hword ▸ List.mem_cons_self))
  | @fraction digits _ hne hdigits _ _ =>
    obtain ⟨d, more, rfl⟩ := List.exists_cons_of_ne_nil hne
    obtain ⟨rfl, -⟩ := List.cons.inj hword
    exact digit (hdigits c List.mem_cons_self)
  | string hquote _ =>
    obtain ⟨rfl, -⟩ := List.cons.inj hword
    rcases hquote with rfl | rfl <;> rfl
  | name hstart _ =>
    obtain ⟨rfl, -⟩ := List.cons.inj hword
    obtain ⟨hc, hdigit⟩ := isWord_of_isNameStart hstart
    have hquote : ¬ (c == '"' || c == '\'') = true := by
      rw [Bool.or_eq_true, beq_iff_eq, beq_iff_eq]
      rintro (rfl | rfl) <;> exact absurd hc (by decide)
    rw [Lexeme.kindOf?, if_neg (by simp [hdigit]), if_neg hquote, if_pos hstart]
  | operator hop =>
    have hall : operators.all (fun word => word.head?.all fun c => Lexeme.kindOf? c == some .operator)
        = true := by decide +kernel
    have hhead := List.all_eq_true.mp hall word hop
    rw [← hword] at hhead
    exact beq_iff_eq.mp hhead
  | punct hc =>
    obtain ⟨rfl, -⟩ := List.cons.inj hword
    have hall : marks.all (fun c => Lexeme.kindOf? c == some .punct) = true := by decide +kernel
    exact beq_iff_eq.mp (List.all_eq_true.mp hall c hc)

/-- No word but a string literal holds white space. -/
theorem Shape.isBlank_eq_false (h : Shape kind word) (hkind : kind ≠ .string) (hc : c ∈ word) :
    isBlank c = false := by
  have digit : isDigit c = true → isBlank c = false := fun hdigit => by
    rw [← Bool.not_eq_true]
    exact fun hblank => Bool.noConfusion (hdigit.symm.trans (isDigit_of_isBlank hblank))
  have letter : isWord c = true → isBlank c = false := fun hword => by
    rw [← Bool.not_eq_true]
    exact fun hblank => Bool.noConfusion (hword.symm.trans (isWord_of_isBlank hblank))
  cases h with
  | whole _ hdigits => exact digit (hdigits c hc)
  | fraction _ hdigits _ hplaces =>
    rcases List.mem_append.mp hc with hc | hc
    · exact digit (hdigits c hc)
    rcases List.mem_cons.mp hc with rfl | hc
    · rfl
    · exact digit (hplaces c hc)
  | string _ _ => exact absurd rfl hkind
  | name hstart hrest =>
    rcases List.mem_cons.mp hc with rfl | hc
    · exact letter (isWord_of_isNameStart hstart).1
    · exact letter (hrest c hc)
  | operator hop =>
    have hall : operators.all (fun word => word.all fun c => !isBlank c) = true := by decide
    exact isBlank_of_all (List.all_eq_true.mp hall word hop) c hc
  | punct hpunct =>
    obtain rfl := List.mem_singleton.mp hc
    exact isBlank_of_all (by decide) c hpunct

/-! ## The scanner -/

theorem take_mem_operators (h : operatorLength? cs = some n) : cs.take n ∈ operators := by
  unfold operatorLength? at h
  split at h
  case h_7 c rest _ _ _ _ _ _ =>
    split at h
    · next hc =>
      cases h
      have hall : ['-', '+', '*', '/', '%', '<', '>', '!'].all (fun c => operators.contains [c]) =
          true := by decide
      exact List.contains_iff_mem.mp (List.all_eq_true.mp hall c (by simpa using hc))
    · cases h
  case h_8 => cases h
  all_goals
    cases h
    simp [operators]

/-- What the scanner finds first is a word. -/
theorem shape_of_leading (h : leading? cs = some (some kind, n)) : Shape kind (cs.take n) := by
  obtain ⟨c, rest, rfl, hbegins⟩ := exists_begins_of_leading h
  cases hbegins with
  | number hdigit =>
    have hne : (c :: rest).takeWhile isDigit ≠ [] := by simp [hdigit]
    have hwhole : Shape .number ((c :: rest).take (run isDigit (c :: rest))) := by
      rw [take_run]
      exact .whole hne fun d hd => of_mem_takeWhile hd
    rw [numberLength]
    dsimp only
    split
    · next places hdrop =>
      split
      · exact hwhole
      · next hplaces =>
        rw [Nat.add_assoc, List.take_add, hdrop, Nat.add_comm 1, List.take_succ_cons, take_run,
          take_run]
        refine .fraction hne (fun d hd => of_mem_takeWhile hd) ?_ fun d hd => of_mem_takeWhile hd
        exact fun hnil => hplaces (congrArg List.length hnil)
    · exact hwhole
  | string hliteral =>
    obtain ⟨quote, body, more, hquote, hbody, hcs, rfl⟩ := literalLength_eq_some_iff.mp hliteral
    have hword : c :: rest = (quote :: (body ++ [quote])) ++ more := by simp [hcs]
    rw [hword, List.take_left' (by simp)]
    exact .string hquote hbody
  | name hstart =>
    have hword := (isWord_of_isNameStart hstart).1
    rw [take_run, List.takeWhile_cons_of_pos hword]
    exact .name hstart fun d hd => of_mem_takeWhile hd
  | operator hoperator => exact .operator (take_mem_operators hoperator)
  | punct hpunct => exact .punct hpunct

theorem Shape.head_isDigit (h : Shape .number word) : (word.head?).any isDigit = true := by
  cases h with
  | whole hne hdigits =>
    obtain ⟨c, rest, rfl⟩ := List.exists_cons_of_ne_nil hne
    exact hdigits c List.mem_cons_self
  | @fraction digits _ hne hdigits _ _ =>
    obtain ⟨c, rest, rfl⟩ := List.exists_cons_of_ne_nil hne
    exact hdigits c List.mem_cons_self

theorem length_le_run {p : Char → Bool} (hword : word <+: cs) (h : ∀ c ∈ word, p c = true) :
    word.length ≤ run p cs := by
  obtain ⟨more, rfl⟩ := hword
  rw [run, List.takeWhile_append_of_pos h, List.length_append]
  exact Nat.le_add_right _ _

theorem run_le_numberLength (cs : List Char) : run isDigit cs ≤ numberLength cs := by
  rw [numberLength]
  dsimp only
  split
  · split <;> omega
  · exact Nat.le_refl _

/-- A numeral goes on behind its point if digits follow there. -/
theorem le_numberLength {digits places : List Char} (hdigits : ∀ c ∈ digits, isDigit c = true)
    (hne : places ≠ []) (hplaces : ∀ c ∈ places, isDigit c = true)
    (hword : digits ++ '.' :: places <+: cs) :
    (digits ++ '.' :: places).length ≤ numberLength cs := by
  obtain ⟨more, rfl⟩ := hword
  have hrun : run isDigit (digits ++ '.' :: places ++ more) = digits.length := by
    rw [List.append_assoc, run, takeWhile_append_of_all hdigits]
    simp only [List.cons_append, List.head?_cons, Option.some.injEq, forall_eq']
    decide
  have hdrop : (digits ++ '.' :: places ++ more).drop digits.length = '.' :: (places ++ more) := by
    rw [List.append_assoc, List.drop_left, List.cons_append]
  have hle : places.length ≤ run isDigit (places ++ more) :=
    length_le_run (List.prefix_append places more) hplaces
  have hpos := List.length_pos_iff.mpr hne
  rw [numberLength, hrun, hdrop, List.length_append, List.length_cons]
  show _ ≤ if run isDigit (places ++ more) = 0 then _ else _
  rw [if_neg (by omega)]
  omega

theorem operatorLength_of_mem (hmem : word ∈ operators) (hword : word <+: cs) :
    ∃ n, operatorLength? cs = some n ∧ word.length ≤ n := by
  obtain ⟨more, rfl⟩ := hword
  have single : ∀ c ∈ ['-', '+', '*', '/', '%', '<', '>', '!'],
      ∃ n, operatorLength? ([c] ++ more) = some n ∧ [c].length ≤ n := by
    intro c hc
    rw [List.singleton_append, operatorLength_cons]
    split
    · exact ⟨2, rfl, by simp⟩
    · exact ⟨1, if_pos (by simpa using hc), by simp⟩
  simp only [operators, List.mem_cons, List.not_mem_nil, or_false] at hmem
  rcases hmem with rfl | rfl | rfl | rfl | rfl | rfl | rfl | rfl | rfl | rfl | rfl | rfl | rfl | rfl
  iterate 6 exact ⟨2, rfl, by simp⟩
  all_goals exact single _ (by decide)

/-- What begins with a sign is an operator if there is one, and else punctuation. -/
theorem leading_of_sign (hc : c ∈ signs ++ marks) (rest : List Char) :
    leading? (c :: rest) = match operatorLength? (c :: rest) with
      | some n => some (some .operator, n)
      | none => if marks.contains c then some (some .punct, 1) else none := by
  have hall : (signs ++ marks).all (fun c => isBlank c == false && (isDigit c == false &&
      ((c == '"' || c == '\'') == false && isNameStart c == false))) = true := by decide +kernel
  have hsign := List.all_eq_true.mp hall c hc
  simp only [Bool.and_eq_true, beq_iff_eq] at hsign
  obtain ⟨hblank, hdigit, hquote, hname⟩ := hsign
  rw [leading?, hblank, hdigit, literalLength?, hquote, hname]
  rfl

theorem literalLength_of_isWord {c : Char} (h : isWord c = true) (rest : List Char) :
    literalLength? (c :: rest) = none := by
  have hquote : ¬ (c == '"' || c == '\'') = true := by
    rw [Bool.or_eq_true, beq_iff_eq, beq_iff_eq]
    rintro (rfl | rfl)
    · exact absurd h (by decide)
    · exact absurd h (by decide)
  rw [literalLength?, if_neg hquote]

/-- A text that begins with a word is scanned for a word of that kind. -/
theorem exists_leading_of_shape (h : Shape kind word) (hword : word <+: cs) :
    ∃ n, leading? cs = some (some kind, n) := by
  obtain ⟨c, rest, rfl⟩ := List.exists_cons_of_ne_nil h.ne_nil
  obtain ⟨more, rfl⟩ := id hword
  rw [List.cons_append] at hword ⊢
  have hblank : kind ≠ .string → isBlank c = false := fun hkind =>
    h.isBlank_eq_false hkind List.mem_cons_self
  have number : kind = .number → isDigit c = true →
      ∃ n, leading? (c :: (rest ++ more)) = some (some kind, n) := by
    rintro rfl hdigit
    exact ⟨_, by rw [leading?, hblank (by decide), hdigit]; rfl⟩
  generalize hcons : c :: rest = word at h
  cases h with
  | whole _ hdigits => exact number rfl (hdigits c (hcons ▸ List.mem_cons_self))
  | @fraction digits _ hne hdigits _ _ =>
    obtain ⟨d, others, rfl⟩ := List.exists_cons_of_ne_nil hne
    obtain ⟨rfl, -⟩ := List.cons.inj hcons
    exact number rfl (hdigits c List.mem_cons_self)
  | @string quote body hquote hbody =>
    obtain ⟨rfl, rfl⟩ := List.cons.inj hcons
    have hliteral : literalLength? (c :: (body ++ [c] ++ more)) = some (body.length + 2) :=
      literalLength_eq_some_iff.mpr ⟨c, body, more, hquote, hbody, by simp, rfl⟩
    refine ⟨body.length + 2, ?_⟩
    rw [leading?, hliteral]
    rcases hquote with rfl | rfl <;> rfl
  | name hstart _ =>
    obtain ⟨rfl, rfl⟩ := List.cons.inj hcons
    obtain ⟨hc, hdigit⟩ := isWord_of_isNameStart hstart
    exact ⟨_, by rw [leading?, hblank (by decide), hdigit, literalLength_of_isWord hc, hstart]; rfl⟩
  | operator hmem =>
    have hall : operators.all (fun word => word.head?.all (signs ++ marks).contains) = true := by
      decide
    have hsign := List.all_eq_true.mp hall word hmem
    rw [← hcons] at hsign
    obtain ⟨n, hn, -⟩ := operatorLength_of_mem (hcons ▸ hmem) hword
    exact ⟨n, by rw [leading_of_sign (List.contains_iff_mem.mp hsign), hn]⟩
  | punct hc =>
    obtain ⟨rfl, rfl⟩ := List.cons.inj hcons
    have hall : marks.all (fun c => !signs.contains c) = true := by decide
    have hnot := List.all_eq_true.mp hall c hc
    simp only [signs, Bool.not_eq_true', List.contains_eq_mem, decide_eq_false_iff_not,
      List.mem_cons, List.not_mem_nil, or_false, not_or] at hnot
    have hnone : operatorLength? (c :: ([] ++ more)) = none := by
      rw [operatorLength_cons]
      simp [hnot]
    have hsign : c ∈ signs ++ marks := List.mem_append_right signs hc
    exact ⟨1, by rw [leading_of_sign hsign, hnone]; exact if_pos (by simpa using hc)⟩

/-! ## The longest word -/

structure Longest (kind : Kind) (word cs : List Char) : Prop where
  shape : Shape kind word
  isPrefix : word <+: cs
  longest : ∀ {kind' : Kind} {word' : List Char}, Shape kind' word' → word' <+: cs →
    word'.length ≤ word.length

theorem Shape.kind_eq (h : Shape kind word) (h' : Shape kind' word') (hword : word <+: cs)
    (hword' : word' <+: cs) : kind = kind' := by
  obtain ⟨c, rest, rfl⟩ := List.exists_cons_of_ne_nil h.ne_nil
  obtain ⟨c', rest', rfl⟩ := List.exists_cons_of_ne_nil h'.ne_nil
  obtain ⟨more, rfl⟩ := hword
  obtain ⟨more', heq⟩ := hword'
  obtain ⟨rfl, -⟩ := List.cons.inj heq
  exact Option.some.inj (h.kindOf?.symm.trans h'.kindOf?)

theorem length_le_of_leading (h : leading? cs = some (some kind, n)) (hshape : Shape kind' word)
    (hword : word <+: cs) : word.length ≤ n := by
  obtain rfl := hshape.kind_eq (shape_of_leading h) hword (List.take_prefix n cs)
  obtain ⟨c, rest, rfl, hbegins⟩ := exists_begins_of_leading h
  cases hshape with
  | whole _ hdigits =>
    cases hbegins
    exact Nat.le_trans (length_le_run hword hdigits) (run_le_numberLength _)
  | fraction _ hdigits hne hplaces =>
    cases hbegins
    exact le_numberLength hdigits hne hplaces hword
  | @string quote body hquote hbody =>
    obtain ⟨more, hmore⟩ := hword
    have hliteral : literalLength? (c :: rest) = some (body.length + 2) :=
      literalLength_eq_some_iff.mpr ⟨quote, body, more, hquote, hbody, by simp [← hmore], rfl⟩
    cases hbegins with
    | string hn =>
      obtain rfl := Option.some.inj (hn.symm.trans hliteral)
      simp
  | name hstart hrest =>
    cases hbegins
    refine length_le_run hword fun d hd => ?_
    rcases List.mem_cons.mp hd with rfl | hd
    · exact (isWord_of_isNameStart hstart).1
    · exact hrest d hd
  | operator hmem =>
    obtain ⟨m, hm, hle⟩ := operatorLength_of_mem hmem hword
    cases hbegins with
    | operator hn =>
      obtain rfl := Option.some.inj (hn.symm.trans hm)
      exact hle
  | punct _ =>
    cases hbegins
    exact Nat.le_refl 1

/-- The scanner finds the longest word that a text begins with. -/
theorem leading_eq_some_iff :
    leading? cs = some (some kind, n) ↔ Longest kind (cs.take n) cs ∧ n ≤ cs.length := by
  constructor
  · intro h
    have hle := leading_le h
    refine ⟨⟨shape_of_leading h, List.take_prefix n cs, fun hshape hword => ?_⟩, hle⟩
    rw [List.length_take_of_le hle]
    exact length_le_of_leading h hshape hword
  · rintro ⟨⟨hshape, hword, hlongest⟩, hle⟩
    obtain ⟨m, hm⟩ := exists_leading_of_shape hshape hword
    have hge := length_le_of_leading hm hshape hword
    have hle' := hlongest (shape_of_leading hm) (List.take_prefix m cs)
    rw [List.length_take_of_le hle] at hge hle'
    rw [List.length_take_of_le (leading_le hm)] at hle'
    rw [hm, show m = n by omega]

/-! ## What stands behind a word -/

theorem run_take {p : Char → Bool} {k : Nat} (h : run p cs ≤ k) :
    run p (cs.take k) = run p cs := by
  rw [run, ← List.take_takeWhile, List.take_of_length_le h, run]

/-- Cutting a text off behind what it begins with changes nothing. -/
theorem leading_take {found : Option Kind} {k : Nat} (h : leading? cs = some (found, n))
    (hle : n ≤ k) : leading? (cs.take k) = some (found, n) := by
  cases found with
  | none =>
    obtain ⟨c, rest, rfl, hbegins⟩ := exists_begins_of_leading h
    cases hbegins with
    | blank hblank =>
      have hrun := run_take hle
      cases k with
      | zero => simp [run, hblank] at hle
      | succ k =>
        rw [List.take_succ_cons] at hrun ⊢
        rw [leading?, if_pos hblank, hrun]
  | some kind =>
    obtain ⟨⟨hshape, hword, hlongest⟩, hn⟩ := leading_eq_some_iff.mp h
    have htake : (cs.take k).take n = cs.take n := by rw [List.take_take, Nat.min_eq_left hle]
    rw [leading_eq_some_iff, htake, List.length_take]
    refine ⟨⟨hshape, List.take_prefix_take_left hle, fun hshape' hword' => ?_⟩, by omega⟩
    exact hlongest hshape' (hword'.trans (List.take_prefix k cs))

/-- A word goes no further when no word of its kind holds the character behind it. -/
theorem Shape.longest_of_not_mem (h : Shape kind word) {back : List Char}
    (hback : ∀ c ∈ back.head?, ∀ word', Shape kind word' → c ∉ word') :
    Longest kind word (word ++ back) := by
  refine ⟨h, List.prefix_append _ _, fun {kind' word'} h' hword' => ?_⟩
  rw [← Nat.not_lt]
  intro hlt
  obtain rfl := h.kind_eq h' (List.prefix_append word back) hword'
  obtain ⟨more, rfl⟩ := List.prefix_of_prefix_length_le (List.prefix_append word back) hword'
    (Nat.le_of_lt hlt)
  obtain ⟨c, others, rfl⟩ := List.exists_cons_of_ne_nil (l := more) (by rintro rfl; simp at hlt)
  obtain ⟨tail, htail⟩ := hword'
  rw [List.append_assoc, List.append_cancel_left_eq] at htail
  exact hback c (by rw [← htail]; rfl) _ h' (by simp)

/-- A string literal ends at its closing quote, whatever follows. -/
theorem Shape.longest_string (h : Shape .string word) (back : List Char) :
    Longest .string word (word ++ back) := by
  refine ⟨h, List.prefix_append _ _, fun {kind' word'} h' hword' => ?_⟩
  obtain rfl := h.kind_eq h' (List.prefix_append word back) hword'
  obtain ⟨tail, htail⟩ := hword'
  cases h with
  | @string quote body hquote hbody =>
    cases h' with
    | @string quote' body' hquote' hbody' =>
      have hfirst : literalLength? (quote :: (body ++ [quote]) ++ back) = some (body.length + 2) :=
        literalLength_eq_some_iff.mpr ⟨quote, body, back, hquote, hbody, by simp, rfl⟩
      have hsecond : literalLength? (quote :: (body ++ [quote]) ++ back) =
          some (body'.length + 2) :=
        literalLength_eq_some_iff.mpr ⟨quote', body', tail, hquote', hbody', by simp [← htail], rfl⟩
      have heq := Option.some.inj (hfirst.symm.trans hsecond)
      simp only [List.length_cons, List.length_append, List.length_nil]
      omega

/-- A word goes no further when white space follows it, or nothing at all. -/
theorem Shape.longest (h : Shape kind word) {back : List Char}
    (hback : ∀ c ∈ back.head?, isBlank c = true) : Longest kind word (word ++ back) := by
  by_cases hkind : kind = .string
  · subst hkind
    exact h.longest_string back
  · refine h.longest_of_not_mem fun c hc word' h' hmem => ?_
    have hnot := h'.isBlank_eq_false hkind hmem
    exact Bool.noConfusion ((hback c hc).symm.trans hnot)

/-- Marks stand alone. -/
theorem longest_mark (hc : c ∈ marks) (back : List Char) :
    Longest .punct [c] ([c] ++ back) := by
  have h : Shape .punct [c] := .punct hc
  refine ⟨h, List.prefix_append _ _, fun {kind' word'} h' hword' => ?_⟩
  obtain rfl := h.kind_eq h' (List.prefix_append [c] back) hword'
  cases h' with
  | punct _ => exact Nat.le_refl 1

theorem Longest.leading {back : List Char} (h : Longest kind word (word ++ back)) :
    leading? (word ++ back) = some (some kind, word.length) := by
  rw [leading_eq_some_iff, List.take_left]
  exact ⟨h, by simp⟩

/-- Numerals are the texts that are a numeral from the first character to the last. -/
theorem shape_number_iff :
    Shape .number cs ↔ ((cs.head?).any isDigit && numberLength cs == cs.length) = true := by
  rw [Bool.and_eq_true, beq_iff_eq]
  constructor
  · intro h
    have hleading : leading? (cs ++ []) = some (some .number, cs.length) :=
      (h.longest (by simp)).leading
    rw [List.append_nil] at hleading
    exact ⟨h.head_isDigit, (length_of_leading_number hleading).symm⟩
  · rintro ⟨hhead, hlength⟩
    cases cs with
    | nil => cases hhead
    | cons c rest =>
      have hdigit : isDigit c = true := hhead
      have hblank : ¬ isBlank c = true := fun hblank =>
        Bool.noConfusion (hdigit.symm.trans (isDigit_of_isBlank hblank))
      have hleading : leading? (c :: rest) = some (some .number, (c :: rest).length) := by
        rw [leading?, if_neg hblank, if_pos hdigit, hlength]
      have hshape := shape_of_leading hleading
      rwa [List.take_length] at hshape

/-- The longest word is scanned as one lexeme, before what follows it. -/
theorem Longest.scan_append {back : List Char} (h : Longest kind word (word ++ back))
    (position : Nat) :
    scanFrom 0 position (word ++ back) = (do
      let others ← scanFrom 0 (position + word.length) back
      return ⟨kind, String.ofList word, position⟩ :: others) := by
  have hleading := h.leading
  obtain ⟨c, rest, rfl⟩ := List.exists_cons_of_ne_nil h.shape.ne_nil
  have htake : (c :: (rest ++ back)).take (rest.length + 1) = c :: rest := by
    rw [List.take_succ_cons, List.take_left]
  rw [List.cons_append, List.length_cons] at hleading
  rw [List.cons_append, scanFrom, hleading]
  show (scanFrom rest.length (position + 1) (rest ++ back) >>= _) = _
  rw [scanFrom_length, htake, List.length_cons, Nat.add_assoc, Nat.add_comm 1]

/-- A word is scanned as one lexeme. -/
theorem Shape.scan (h : Shape kind word) (position : Nat) :
    scanFrom 0 position word =
      .ok [⟨kind, String.ofList word, position⟩, ⟨.eof, "", position + word.length⟩] := by
  have hlongest : Longest kind word (word ++ []) := h.longest (by simp)
  have hscan := hlongest.scan_append position
  rw [List.append_nil] at hscan
  rw [hscan]
  rfl

/-- Where a lexeme stands, it is the longest word. -/
theorem StandsAt.longest {l : Lexeme} {place : Nat} (h : StandsAt cs place l)
    (hkind : l.kind ≠ .eof) : Longest l.kind l.text.toList (cs.drop place) := by
  cases h with
  | word hleading htext =>
    rw [htext]
    exact (leading_eq_some_iff.mp hleading).1
  | stop heof _ _ => exact absurd heof hkind

end Lexeme

theorem Expr.lexemesOf_of_shape {kind : Lexeme.Kind} {word : List Char}
    (h : Lexeme.Shape kind word) : lexemesOf (String.ofList word) =
      .ok [⟨kind, String.ofList word, 0⟩, ⟨.eof, "", 0 + word.length⟩] := by
  rw [lexemesOf_eq_ok_iff, String.toList_ofList]
  exact h.scan 0

end Quill
