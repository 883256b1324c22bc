import Quill.Pipeline
import Quill.Proofs.Expr.Balance
import Quill.Proofs.Expr.Shapes

/-!
Splitting a pipeline into its stages.

The splitter goes through the characters of a text and knows no lexemes, only quotes, parentheses
and bars.  It passes a lexeme of an expression as a whole: a string literal to its last quote, the
operator `||` in one step, and a parenthesis with the count of those that are open.  So what is
accepted as an expression is never cut, and the stages that are joined to it by bars are found
again.
-/

namespace Quill

open Text

namespace Pipeline

/-! ## Passing a stretch of a text -/

/-- Whether the splitter adds a stretch of a text to the part that it is in, and comes from one
count of open parentheses to another. -/
def Passes (cs : List Char) (depth depth' : Nat) : Prop := ∀ part more,
  partsFrom none depth part (cs ++ more) = partsFrom none depth' (cs.reverse ++ part) more

theorem passes_nil (depth : Nat) : Passes [] depth depth := fun _ _ => rfl

theorem Passes.append {front back : List Char} {depth depth' depth'' : Nat}
    (hfront : Passes front depth depth') (hback : Passes back depth' depth'') :
    Passes (front ++ back) depth depth'' := fun part more => by
  rw [List.append_assoc, hfront, hback, List.reverse_append, List.append_assoc]

def isPlain (c : Char) : Bool := !(['"', '\'', '(', ')', '|'].contains c)

theorem passes_plain {cs : List Char} (h : ∀ c ∈ cs, isPlain c = true) (depth : Nat) :
    Passes cs depth depth := by
  induction cs with
  | nil => exact passes_nil depth
  | cons c rest ih =>
    have hc := h c List.mem_cons_self
    have hstep : Passes [c] depth depth := fun part more => by
      simp only [isPlain, List.contains_eq_mem, List.mem_cons, List.not_mem_nil, or_false,
        not_or, Bool.not_eq_true', decide_eq_false_iff_not] at hc
      obtain ⟨hdouble, hsingle, hopening, hclosing, hbar⟩ := hc
      rw [List.singleton_append, partsFrom.eq_def]
      simp [hdouble, hsingle, hopening, hclosing, hbar]
    exact hstep.append (ih fun d hd => h d (List.mem_cons_of_mem c hd))

theorem passes_opening (depth : Nat) : Passes ['('] depth (depth + 1) := fun part more => by
  rw [List.singleton_append, partsFrom.eq_def]
  rfl

theorem passes_closing (depth : Nat) : Passes [')'] depth (depth - 1) := fun part more => by
  rw [List.singleton_append, partsFrom.eq_def]
  rfl

theorem passes_bars (depth : Nat) : Passes ['|', '|'] depth depth := fun part more => by
  rw [List.cons_append, List.singleton_append, partsFrom.eq_def]
  cases depth with
  | zero => rfl
  | succ depth =>
    show partsFrom none (depth + 1) ('|' :: part) ('|' :: more) = _
    rw [partsFrom.eq_def]
    rfl

/-- Inside of a literal a character other than a backslash goes to the part, and the quote ends the
literal. -/
theorem partsFrom_quoted {quote c : Char} (hc : c ≠ '\\') (depth : Nat) (part more : List Char) :
    partsFrom (some quote) depth part (c :: more) =
      partsFrom (if c == quote then none else some quote) depth (c :: part) more := by
  rw [partsFrom.eq_def]
  dsimp only
  rw [if_neg (by simpa using hc)]
  split <;> rfl

/-- A literal is passed up to its last quote. -/
theorem partsFrom_literal {quote : Char} {cs : List Char} {n : Nat}
    (h : closingLength? quote cs = some n) (depth : Nat) (part more : List Char) :
    partsFrom (some quote) depth part (cs.take n ++ more) =
      partsFrom none depth ((cs.take n).reverse ++ part) more := by
  fun_induction closingLength? quote cs generalizing n part with
  | case1 => cases h
  | case2 => cases h
  | case3 c rest ih =>
    obtain ⟨k, hk, rfl⟩ := Option.map_eq_some_iff.mp h
    have hrest := ih hk (c :: '\\' :: part)
    rw [List.take_succ_cons, List.take_succ_cons, List.cons_append, List.cons_append,
      partsFrom.eq_def]
    dsimp only
    rw [if_pos (by rfl), hrest]
    simp
  | case4 c rest hlast hpair hc =>
    cases h
    rw [List.take_succ_cons, List.take_zero, List.singleton_append,
      partsFrom_quoted (ne_backslash hlast hpair), if_pos hc]
    rfl
  | case5 c rest hlast hpair hc ih =>
    obtain ⟨k, hk, rfl⟩ := Option.map_eq_some_iff.mp h
    rw [List.take_succ_cons, List.cons_append, partsFrom_quoted (ne_backslash hlast hpair),
      if_neg hc, ih hk]
    simp

theorem passes_literal {cs : List Char} {n : Nat} (h : literalLength? cs = some n) (depth : Nat) :
    Passes (cs.take n) depth depth := fun part more => by
  cases cs with
  | nil => cases h
  | cons quote rest =>
    rw [literalLength?] at h
    split at h
    · next hquote =>
      obtain ⟨k, hk, rfl⟩ := Option.map_eq_some_iff.mp h
      rw [List.take_succ_cons, List.cons_append, partsFrom.eq_def]
      dsimp only
      rw [if_pos hquote, partsFrom_literal hk]
      simp
    · cases h

/-! ## Passing an expression -/

theorem isPlain_of_isBlank {c : Char} (h : isBlank c = true) : isPlain c = true := by
  have hnot : (!isPlain c) = false :=
    eq_false_of_isBlank (p := fun c => !isPlain c) (by decide +kernel) h
  simpa using hnot

/-- What belongs to a class that none of the special characters belongs to is plain. -/
theorem isPlain_of_class {p : Char → Bool} (check : ['"', '\'', '(', ')', '|'].any p = false)
    {c : Char} (h : p c = true) : isPlain c = true := by
  rw [List.any_eq_false] at check
  rw [isPlain, Bool.not_eq_true', List.contains_eq_mem, decide_eq_false_iff_not]
  intro hmem
  exact check c hmem h

theorem passes_run {p : Char → Bool} (check : ['"', '\'', '(', ')', '|'].any p = false)
    (cs : List Char) (depth : Nat) : Passes (cs.take (run p cs)) depth depth := by
  rw [take_run]
  exact passes_plain (fun c hc => isPlain_of_class check (of_mem_takeWhile hc)) depth

theorem passes_number (cs : List Char) (depth : Nat) :
    Passes (cs.take (Lexeme.numberLength cs)) depth depth := by
  have hdigits : ∀ cs : List Char, Passes (cs.take (run isDigit cs)) depth depth :=
    fun cs => passes_run (by decide +kernel) cs depth
  rw [Lexeme.numberLength]
  dsimp only
  split
  · next rest hdrop =>
    split
    · exact hdigits cs
    · have hpoint : Passes ['.'] depth depth := passes_plain (by simp [isPlain]) depth
      rw [Nat.add_assoc, List.take_add, hdrop, Nat.add_comm 1, List.take_succ_cons]
      exact (hdigits cs).append (hpoint.append (hdigits rest))
  · exact hdigits cs

theorem passes_operator {cs : List Char} {n : Nat} (h : Lexeme.operatorLength? cs = some n)
    (depth : Nat) : Passes (cs.take n) depth depth := by
  have hall : Lexeme.operators.all (fun word => word == ['|', '|'] || word.all isPlain) = true := by
    decide
  have hword := List.all_eq_true.mp hall _ (Lexeme.take_mem_operators h)
  rcases (Bool.or_eq_true _ _).mp hword with hbars | hplain
  · rw [eq_of_beq hbars]
    exact passes_bars depth
  · exact passes_plain (List.all_eq_true.mp hplain) depth

/-- What a text begins with is passed as a whole: white space without a change, and a lexeme with
the count of open parentheses behind it. -/
theorem passes_leading {cs : List Char} {found : Option Lexeme.Kind} {n : Nat}
    (h : Lexeme.leading? cs = some (found, n)) (depth position : Nat) :
    Passes (cs.take n) depth (match found with
      | none => depth
      | some kind => Lexeme.depthAfter depth ⟨kind, String.ofList (cs.take n), position⟩) := by
  -- Only punctuation opens or closes.
  have other : ∀ {kind : Lexeme.Kind}, kind ≠ .punct → Passes (cs.take n) depth depth →
      Passes (cs.take n) depth
        (Lexeme.depthAfter depth ⟨kind, String.ofList (cs.take n), position⟩) := by
    intro kind hkind hpasses
    rw [Lexeme.depthAfter, if_neg fun hl => hkind hl.1, if_neg fun hl => hkind hl.1]
    exact hpasses
  obtain ⟨c, rest, rfl, hbegins⟩ := Lexeme.exists_begins_of_leading h
  cases hbegins with
  | blank _ => exact passes_run (by decide +kernel) _ depth
  | number _ => exact other (by decide) (passes_number _ depth)
  | string hliteral => exact other (by decide) (passes_literal hliteral depth)
  | name _ => exact other (by decide) (passes_run (by decide +kernel) _ depth)
  | operator hoperator => exact other (by decide) (passes_operator hoperator depth)
  | punct hpunct =>
    simp only [List.mem_cons, List.not_mem_nil, or_false] at hpunct
    rcases hpunct with rfl | rfl | rfl | rfl | rfl
    · exact passes_opening depth
    · exact passes_closing depth
    · exact passes_plain (by simp [isPlain]) depth
    · exact passes_plain (by simp [isPlain]) depth
    · exact passes_plain (by simp [isPlain]) depth

/-- A text is passed with the count of open parentheses that its lexemes lead to.  The induction is
on the length of the text, as a lexeme is passed in one step. -/
theorem passes_of_scanFrom {cs : List Char} {position : Nat} {lexemes : List Lexeme}
    (h : Lexeme.scanFrom 0 position cs = .ok lexemes) (depth : Nat) :
    Passes cs depth (lexemes.foldl Lexeme.depthAfter depth) := by
  induction hlength : cs.length using Nat.strongRecOn generalizing cs position lexemes depth with
  | ind length ih =>
    cases cs with
    | nil =>
      rw [Lexeme.scanFrom] at h
      cases h
      exact passes_nil depth
    | cons c rest =>
      have later : ∀ {n : Nat} {others : List Lexeme}, n ≤ rest.length →
          Lexeme.scanFrom n (position + 1) rest = .ok others → ∀ depth,
          Passes (rest.drop n) depth (others.foldl Lexeme.depthAfter depth) := by
        intro n others hn hscan depth
        rw [Lexeme.scanFrom_skip hn] at hscan
        refine ih (rest.drop n).length ?_ hscan depth rfl
        rw [List.length_drop, ← hlength, List.length_cons]
        omega
      rw [Lexeme.scanFrom] at h
      split at h
      · next n hleading =>
        have hle := Nat.le_of_succ_le_succ (Lexeme.leading_le hleading)
        have hfirst := passes_leading hleading depth position
        have happend := hfirst.append (later hle h depth)
        rwa [List.take_succ_cons, List.cons_append, List.take_append_drop] at happend
      · next kind n hleading =>
        obtain ⟨others, hothers, heq⟩ := Outcome.bind_eq_ok.mp h
        cases heq
        have hle := Nat.le_of_succ_le_succ (Lexeme.leading_le hleading)
        have hfirst := passes_leading hleading depth position
        have happend := hfirst.append (later hle hothers _)
        rwa [List.take_succ_cons, List.cons_append, List.take_append_drop] at happend
      · cases h

theorem passes_of_parse {text : String} {e : Expr} (h : Expr.parse text = .ok e) :
    Passes text.toList 0 0 := by
  obtain ⟨lexemes, hscan, hbalanced⟩ := Expr.balanced_of_parse h
  have hpasses := passes_of_scanFrom hscan 0
  rwa [hbalanced] at hpasses

/-! ## Stages -/

inductive ArgumentText : List Char → Prop
  | nil : ArgumentText []
  | literal {lit rest : List Char} : literalLength? lit = some lit.length → ArgumentText rest →
      ArgumentText (lit ++ rest)
  | plain {c : Char} {rest : List Char} : isPlain c = true → ArgumentText rest →
      ArgumentText (c :: rest)

/-- The text of a stage: the name of a filter, and after a colon its arguments. -/
inductive StageText : List Char → Prop
  | name {name : List Char} : name ≠ [] → (∀ c ∈ name, isWord c = true) → StageText name
  | arguments {name args : List Char} : name ≠ [] → (∀ c ∈ name, isWord c = true) →
      ArgumentText args → StageText (name ++ ':' :: args)

theorem ArgumentText.passes {cs : List Char} (h : ArgumentText cs) (depth : Nat) :
    Passes cs depth depth := by
  induction h with
  | nil => exact passes_nil depth
  | @literal lit rest hlit _ ih =>
    have hpasses := passes_literal hlit depth
    rw [List.take_length] at hpasses
    exact hpasses.append ih
  | @plain c rest hc _ ih =>
    have hpasses : Passes [c] depth depth := passes_plain (by simpa using hc) depth
    exact hpasses.append ih

theorem passes_word {name : List Char} (h : ∀ c ∈ name, isWord c = true) (depth : Nat) :
    Passes name depth depth :=
  passes_plain (fun c hc => isPlain_of_class (by decide +kernel) (h c hc)) depth

theorem StageText.passes {cs : List Char} (h : StageText cs) (depth : Nat) :
    Passes cs depth depth := by
  cases h with
  | name _ hname => exact passes_word hname depth
  | arguments _ hname hargs =>
    have hcolon : Passes [':'] depth depth := passes_plain (by simp [isPlain]) depth
    exact (passes_word hname depth).append (hcolon.append (hargs.passes depth))

/-- A stage begins with a character of its name. -/
theorem StageText.head {cs : List Char} (h : StageText cs) :
    ∃ c rest, cs = c :: rest ∧ isWord c = true := by
  cases h with
  | name hne hname =>
    obtain ⟨c, rest, rfl⟩ := List.exists_cons_of_ne_nil hne
    exact ⟨c, rest, rfl, hname c List.mem_cons_self⟩
  | arguments hne hname _ =>
    obtain ⟨c, rest, rfl⟩ := List.exists_cons_of_ne_nil hne
    exact ⟨c, _, rfl, hname c List.mem_cons_self⟩

/-! ## Joined texts -/

structure Joint where
  before : String
  behind : String
  stage : String
  blank_before : ∀ c ∈ before.toList, isBlank c = true
  blank_behind : ∀ c ∈ behind.toList, isBlank c = true
  isStage : StageText stage.toList

def Joint.text (j : Joint) : List Char :=
  j.before.toList ++ '|' :: (j.behind.toList ++ j.stage.toList)

def joined (subject : String) (joints : List Joint) : String :=
  String.ofList (subject.toList ++ joints.flatMap Joint.text)

theorem passes_blank {gap : List Char} (h : ∀ c ∈ gap, isBlank c = true) (depth : Nat) :
    Passes gap depth depth := passes_plain (fun c hc => isPlain_of_isBlank (h c hc)) depth

/-- Outside of parentheses a bar that no other bar follows ends the part. -/
theorem partsFrom_bar {more : List Char} {d : Char} (hd : more.head? = some d) (hbar : d ≠ '|')
    (part : List Char) :
    partsFrom none 0 part ('|' :: more) = part.reverse :: partsFrom none 0 [] more := by
  cases more with
  | nil => cases hd
  | cons c rest =>
    obtain rfl : c = d := by simpa using hd
    rw [partsFrom.eq_def]
    show (if c == '|' then _ else _) = _
    rw [if_neg (by simpa using hbar)]

/-- What stands behind a bar does not begin with one. -/
theorem Joint.head_behind (j : Joint) (more : List Char) :
    ∃ d, (j.behind.toList ++ j.stage.toList ++ more).head? = some d ∧ d ≠ '|' := by
  have hbehind := j.blank_behind
  cases hgap : j.behind.toList with
  | nil =>
    obtain ⟨c, rest, hstage, hc⟩ := j.isStage.head
    rw [hstage]
    refine ⟨c, rfl, ?_⟩
    rintro rfl
    exact absurd hc (by decide +kernel)
  | cons c rest =>
    rw [hgap] at hbehind
    have hc := hbehind c List.mem_cons_self
    refine ⟨c, rfl, ?_⟩
    rintro rfl
    exact absurd hc (by decide)

/-- Each joint ends the part before it and begins one with its stage. -/
theorem map_trim_partsFrom (part : List Char) (joints : List Joint) :
    (partsFrom none 0 part (joints.flatMap Joint.text)).map trim =
      trim part.reverse :: joints.map fun j => trim j.stage.toList := by
  induction joints generalizing part with
  | nil => rw [List.flatMap_nil, partsFrom]; rfl
  | cons j rest ih =>
    obtain ⟨d, hd, hbar⟩ := j.head_behind (rest.flatMap Joint.text)
    have hpasses := (passes_blank j.blank_behind 0).append (j.isStage.passes 0)
    rw [List.flatMap_cons, Joint.text, List.append_assoc, List.cons_append,
      passes_blank j.blank_before 0, partsFrom_bar hd hbar, hpasses, List.append_nil,
      List.map_cons, ih, List.reverse_append, List.reverse_reverse, List.reverse_reverse,
      trim_append_blanks j.blank_before, trim_blanks_append j.blank_behind]
    rfl

/-! ## The subject -/

/-- A text without quotes, parentheses and bars is the expression if the text ends with it, or if
one bar follows. -/
theorem split_head_of_plain {front behind : List Char} (h : ∀ c ∈ front, isPlain c = true)
    (hbehind : behind = [] ∨ ∃ more, behind = '|' :: more ∧ more.head? ≠ some '|') :
    (split (String.ofList (front ++ behind))).head? = some (String.ofList (trim front)) := by
  rw [split, String.toList_ofList, passes_plain h 0 [] behind, List.append_nil]
  rcases hbehind with rfl | ⟨more, rfl, hmore⟩
  · rw [partsFrom, List.reverse_reverse]
    rfl
  · cases more with
    | nil =>
      rw [partsFrom.eq_def, List.reverse_reverse]
      rfl
    | cons d others =>
      have hbar : d ≠ '|' := fun heq => hmore (congrArg some heq)
      rw [partsFrom_bar rfl hbar, List.reverse_reverse]
      rfl

theorem liftExpr_eq_ok {α : Type} {x : Except Expr.Failure α} {a : α} :
    liftExpr x = .ok a ↔ x = .ok a := by
  cases x <;> simp [liftExpr]

theorem liftExpr_eq_error {α : Type} {x : Except Expr.Failure α} {f : Failure} :
    liftExpr x = .error f ↔ ∃ g, x = .error g ∧ f = .expression g := by
  cases x <;> simp [liftExpr, eq_comm]

/-- A pipeline needs a subject, and the subject is read before the stages. -/
theorem read_cases (source : String) : read source = .error (.subjectMissing source) ∨
    ∃ subject stages, split source = subject :: stages ∧ subject ≠ "" ∧ read source = (do
      let subject ← liftExpr (Expr.parse subject)
      let stages ← stages.mapM readStage
      return ⟨source, subject, stages⟩) := by
  rw [read]
  split
  · exact .inl rfl
  · next subject stages hsplit =>
    by_cases hempty : subject.isEmpty = true
    · exact .inl (if_pos hempty)
    · refine .inr ⟨subject, stages, hsplit, ?_, if_neg hempty⟩
      rintro rfl
      exact hempty rfl

/-- The text of the expression of a pipeline that is read. -/
theorem exists_subject_of_read {source : String} {p : Pipeline} (h : read source = .ok p) :
    ∃ subject, (split source).head? = some subject ∧ subject ≠ "" ∧
      Expr.parse subject = .ok p.subject := by
  rcases read_cases source with hmissing | ⟨subject, stages, hsplit, hne, hread⟩
  · cases hmissing.symm.trans h
  · refine ⟨subject, by rw [hsplit]; rfl, hne, ?_⟩
    obtain ⟨e, hsubject, h⟩ := Outcome.bind_eq_ok.mp (hread.symm.trans h)
    obtain ⟨parsed, -, h⟩ := Outcome.bind_eq_ok.mp h
    cases h
    exact liftExpr_eq_ok.mp hsubject

end Pipeline
end Quill
