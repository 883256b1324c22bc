import Quill.Proofs.Outcome
import Quill.Proofs.Text.Words
import Quill.Template.Parse

/-!
The forms of tags.  A tag is bare, or a word with a condition, or the head of a loop, or an
output tag with a pipeline.  The tokens of a template are trimmed, and for a trimmed token each
way of reading a tag succeeds exactly on the tags of its form.
-/

namespace Quill

def Text.Identifier (cs : List Char) : Prop :=
  (∃ c, cs.head? = some c ∧ isNameStart c = true) ∧ ∀ c ∈ cs, isWord c = true

open Text in
/-- A name does not begin with white space. -/
theorem Text.Identifier.flush_append {name : List Char} (h : Identifier name) (rest : List Char) :
    Flush (name ++ rest) := by
  obtain ⟨⟨c, hc, -⟩, hword⟩ := h
  refine flush_word ?_ hword rest
  rintro rfl
  cases hc

namespace Token

open Text

/-! ## Forms -/

def IsBare (t : Token) (word : String) : Prop := t.kind = .block ∧ t.contents = word

def IsCondition (t : Token) (word : String) (e : Expr) : Prop :=
  t.kind = .block ∧ ∃ text, Words word.toList t.contents.toList text ∧
    Expr.parse (String.ofList text) = .ok e

def IsLoop (t : Token) (name : String) (items : Expr) : Prop :=
  t.kind = .block ∧ ∃ afterFor afterName text,
    Words ['f', 'o', 'r'] t.contents.toList afterFor ∧
    Identifier name.toList ∧ Words name.toList afterFor afterName ∧
    Words ['i', 'n'] afterName text ∧ Expr.parse (String.ofList text) = .ok items

def IsOutput (t : Token) (p : Pipeline) : Prop :=
  t.kind = .output ∧ Pipeline.read t.contents = .ok p

/-! ## Tokens of a template -/

def Tidy (t : Token) : Prop := t.kind ≠ .text → trim t.contents.toList = t.contents.toList

theorem tidy_ofText (text : List Char) (line : Nat) (span : Option Span) :
    (ofText text line span).Tidy :=
  fun h => absurd rfl h

theorem tidy_ofTag (tag : List Char) (line : Nat) (span : Option Span) :
    (ofTag tag line span).Tidy := by
  intro _
  show trim (String.ofList (inside tag)).toList = (String.ofList (inside tag)).toList
  rw [String.toList_ofList, inside, trim_trim]

theorem tidy_of_mem_ofPieces {pieces : List (Bool × List Char)} {line : Nat} {t : Token}
    (h : t ∈ ofPieces line pieces) : t.Tidy := by
  induction pieces generalizing line with
  | nil => cases h
  | cons piece rest ih =>
    obtain ⟨isTag, cs⟩ := piece
    rw [ofPieces] at h
    by_cases hempty : cs.isEmpty = true
    · rw [if_pos hempty] at h
      exact ih h
    · rw [if_neg hempty] at h
      cases isTag with
      | true =>
        rcases List.mem_cons.mp h with rfl | h
        · exact tidy_ofTag _ _ _
        · exact ih h
      | false =>
        rcases List.mem_cons.mp h with rfl | h
        · exact tidy_ofText _ _ _
        · exact ih h

theorem tidy_of_mem_locateFrom {cs : List Char} {spans : List Span} {upto line : Nat} {t : Token}
    (h : t ∈ locateFrom cs upto line spans) : t.Tidy := by
  induction spans generalizing upto line with
  | nil =>
    rw [locateFrom] at h
    by_cases hlast : (cs.drop upto).isEmpty = true
    · rw [if_pos hlast] at h
      cases h
    · rw [if_neg hlast] at h
      obtain rfl := List.mem_singleton.mp h
      exact tidy_ofText _ _ _
  | cons s rest ih =>
    have others : ∀ {tagLine next}, t ∈ ofTag (slice cs s) tagLine (some s) ::
        locateFrom cs s.stop next rest → t.Tidy := by
      intro _ _ h
      rcases List.mem_cons.mp h with rfl | h
      · exact tidy_ofTag _ _ _
      · exact ih h
    rw [locateFrom] at h
    by_cases hstart : upto < s.start
    · rw [if_pos hstart] at h
      rcases List.mem_cons.mp h with rfl | h
      · exact tidy_ofText _ _ _
      · exact others h
    · rw [if_neg hstart] at h
      exact others h

theorem tidy_of_mem_tokens {located : Bool} {source : String} {t : Token}
    (h : t ∈ tokens located source) : t.Tidy := by
  cases located with
  | true => exact tidy_of_mem_locateFrom h
  | false => exact tidy_of_mem_ofPieces h

theorem Tidy.trim_block {t : Token} (h : t.Tidy) (hkind : t.kind = .block) :
    trim t.contents.toList = t.contents.toList :=
  h (by rw [hkind]; decide)

/-! ## The command of a tag -/

section Reading

variable {t : Token} {word : String}

theorem command_toList (t : Token) : t.command.toList = firstWord t.contents.toList :=
  String.toList_ofList

theorem command_eq_of_words {rest : List Char} (h : Words word.toList t.contents.toList rest)
    (ht : Flush t.contents.toList) (hword : Solid word.toList) :
    t.command = word ∧ afterFirstWord t.contents.toList = rest := by
  obtain ⟨hfirst, hrest⟩ := h.firstWord ht hword
  exact ⟨String.toList_injective ((command_toList t).trans hfirst), hrest⟩

theorem words_command (ht : Flush t.contents.toList)
    (h : afterFirstWord t.contents.toList ≠ []) :
    Words t.command.toList t.contents.toList (afterFirstWord t.contents.toList) := by
  rw [command_toList]
  exact words_firstWord ht h

/-! ## Reading tags -/

open Template

theorem isBare_iff (hkind : t.kind = .block) (hword : Solid word.toList) :
    t.IsBare word ↔ t.command = word ∧ refuseArguments t = .ok () := by
  constructor
  · rintro ⟨-, rfl⟩
    have hcommand : t.command = t.contents :=
      String.toList_injective ((command_toList t).trans (firstWord_of_solid hword))
    exact ⟨hcommand, by rw [refuseArguments, if_pos hcommand.symm]⟩
  · rintro ⟨rfl, h⟩
    refine ⟨hkind, ?_⟩
    by_cases hcontents : t.contents = t.command
    · exact hcontents
    · rw [refuseArguments, if_neg hcontents] at h
      cases h

theorem readExpr_eq_ok_iff {text : List Char} {e : Expr} :
    readExpr text = .ok e ↔ Expr.parse (String.ofList text) = .ok e := by
  rw [readExpr]
  cases Expr.parse (String.ofList text) <;> simp

/-- Nothing is not an expression. -/
theorem parse_empty_ne_ok (e : Expr) : Expr.parse (String.ofList []) ≠ .ok e := by
  have h : (Expr.parse (String.ofList [])).toOption = none := rfl
  intro he
  rw [he] at h
  cases h

theorem isCondition_iff {e : Expr} (ht : t.Tidy) (hkind : t.kind = .block)
    (hword : Solid word.toList) :
    t.IsCondition word e ↔ t.command = word ∧ readCondition t = .ok e := by
  have hflush : Flush t.contents.toList := flush_of_trim (ht.trim_block hkind)
  constructor
  · rintro ⟨-, text, hwords, hparse⟩
    obtain ⟨hcommand, hrest⟩ := command_eq_of_words hwords hflush hword
    refine ⟨hcommand, ?_⟩
    have htext : ¬ text.isEmpty = true := by
      intro h
      rw [List.isEmpty_iff.mp h] at hparse
      exact parse_empty_ne_ok e hparse
    rw [readCondition, hrest]
    rw [if_neg htext, readExpr_eq_ok_iff]
    exact hparse
  · rintro ⟨rfl, h⟩
    rw [readCondition] at h
    by_cases hrest : (afterFirstWord t.contents.toList).isEmpty = true
    · rw [if_pos hrest] at h
      cases h
    · rw [if_neg hrest, readExpr_eq_ok_iff] at h
      refine ⟨hkind, _, words_command hflush ?_, h⟩
      exact fun hnil => hrest (List.isEmpty_iff.mpr hnil)

/-! ## Reading loops -/

/-- Looking for a word finds it exactly where white space follows it. -/
theorem afterWord_eq_some_iff {word cs rest : List Char} :
    afterWord? word cs = some rest ↔ Words word cs rest := by
  rw [afterWord?, startsWith]
  by_cases hpre : word.isPrefixOf cs = true
  · obtain ⟨back, rfl⟩ := List.isPrefixOf_iff_prefix.mp hpre
    rw [if_pos hpre, List.drop_left, words_append_iff]
    dsimp only
    by_cases hrun : run isBlank back = 0
    · simp [hrun]
    · simp [hrun]
  · rw [if_neg hpre]
    constructor
    · intro h
      cases h
    · rintro ⟨gap, -, -, -, rfl⟩
      exact absurd (List.isPrefixOf_iff_prefix.mpr (List.prefix_append ..)) hpre

theorem identifier_iff {cs : List Char} (h : ∀ c ∈ cs, isWord c = true) :
    Identifier cs ↔ (cs.head?.all isNameStart && !cs.isEmpty) = true := by
  cases cs with
  | nil => simp [Identifier]
  | cons c rest => simpa [Identifier] using fun _ => h

/-- The parts of a loop head are found exactly where it has the form of one. -/
theorem loopParts_eq_some_iff {cs text : List Char} {name : String} (hcs : trim cs = cs) :
    loopParts? cs = some (name, text) ↔ ∃ afterFor afterName,
      Words ['f', 'o', 'r'] cs afterFor ∧ Identifier name.toList ∧
      Words name.toList afterFor afterName ∧ Words ['i', 'n'] afterName text ∧ text ≠ [] := by
  rw [loopParts?, Option.bind_eq_some_iff]
  constructor
  · rintro ⟨afterFor, hfor, h⟩
    rw [afterWord_eq_some_iff] at hfor
    by_cases hname : ((afterFor.takeWhile isWord).head?.all isNameStart &&
        !(afterFor.takeWhile isWord).isEmpty &&
        decide (run isBlank (afterFor.dropWhile isWord) ≠ 0)) = true
    · dsimp only at h
      rw [if_pos hname, Option.bind_eq_some_iff] at h
      obtain ⟨sequence, hin, h⟩ := h
      rw [afterWord_eq_some_iff] at hin
      rw [Bool.and_eq_true, decide_eq_true_eq] at hname
      have hwords := words_of_run hname.2
      have htrim : trim sequence = sequence :=
        hin.trim_rest (hwords.trim_rest (hfor.trim_rest hcs))
      by_cases hempty : sequence.isEmpty = true
      · rw [if_pos hempty] at h
        cases h
      · rw [if_neg hempty, htrim] at h
        cases h
        refine ⟨afterFor, _, hfor, ?_, ?_, hin, fun hnil => hempty (List.isEmpty_iff.mpr hnil)⟩
        · rw [String.toList_ofList, identifier_iff fun _ => of_mem_takeWhile]
          exact hname.1
        · rwa [String.toList_ofList]
    · dsimp only at h
      rw [if_neg hname] at h
      cases h
  · rintro ⟨afterFor, afterName, hfor, hname, hwords, hin, htext⟩
    refine ⟨afterFor, afterWord_eq_some_iff.mpr hfor, ?_⟩
    obtain ⟨htake, hrun, hrest⟩ := hwords.run hname.2 fun _ => isWord_of_isBlank
    have hcheck : (name.toList.head?.all isNameStart && !name.toList.isEmpty &&
        decide (run isBlank (afterFor.dropWhile isWord) ≠ 0)) = true := by
      rw [Bool.and_eq_true, decide_eq_true_eq]
      exact ⟨(identifier_iff hname.2).mp hname, hrun⟩
    have htrim : trim text = text := hin.trim_rest (hwords.trim_rest (hfor.trim_rest hcs))
    dsimp only
    rw [htake, hrest, if_pos hcheck, afterWord_eq_some_iff.mpr hin, Option.bind_some,
      if_neg fun h => htext (List.isEmpty_iff.mp h), htrim, String.ofList_toList]

theorem isLoop_iff {block : Block} (ht : t.Tidy) (hkind : t.kind = .block) :
    (∃ name items, block = .loop t name items ∧ t.IsLoop name items) ↔
      t.command = "for" ∧ readLoop t = .ok block := by
  have htrim := ht.trim_block hkind
  constructor
  · rintro ⟨name, items, rfl, -, afterFor, afterName, text, hfor, hname, hwords, hin, hparse⟩
    have htext : text ≠ [] := by
      rintro rfl
      exact parse_empty_ne_ok items hparse
    have hwords' : Words "for".toList t.contents.toList afterFor := hfor
    have hcommand : t.command = "for" :=
      (command_eq_of_words hwords' (flush_of_trim htrim) (by decide)).1
    refine ⟨hcommand, ?_⟩
    rw [readLoop, (loopParts_eq_some_iff htrim).mpr
      ⟨afterFor, afterName, hfor, hname, hwords, hin, htext⟩]
    dsimp only
    rw [readExpr_eq_ok_iff.mpr hparse]
    rfl
  · rintro ⟨-, h⟩
    rw [readLoop] at h
    cases hparts : loopParts? t.contents.toList with
    | none =>
      rw [hparts] at h
      cases h
    | some parts =>
      obtain ⟨name, text⟩ := parts
      rw [hparts] at h
      obtain ⟨items, hitems, h⟩ := Outcome.bind_eq_ok.mp h
      cases h
      obtain ⟨afterFor, afterName, hfor, hname, hwords, hin, -⟩ :=
        (loopParts_eq_some_iff htrim).mp hparts
      exact ⟨name, items, rfl, hkind, afterFor, afterName, text, hfor, hname, hwords, hin,
        readExpr_eq_ok_iff.mp hitems⟩

end Reading

end Token
end Quill
