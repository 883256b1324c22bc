import Quill.Proofs.Pipeline.Splitting
import Quill.Proofs.Template.Numerals
import Quill.Proofs.Template.Tags

/-!
Reading the stages of a pipeline that was joined from them.

White space behind a stage belongs to none of its arguments, so a stage is read from its trimmed
text as from its own.  Nothing can go wrong in it except that a numeral is too long to be read.
-/

namespace Quill

open Text Outcome

namespace Pipeline

/-! ## Arguments before white space -/

variable {gap : List Char}

theorem argumentLength_append (hgap : ∀ c ∈ gap, isBlank c = true) {cs : List Char}
    (hne : cs ≠ []) : argumentLength? (cs ++ gap) = argumentLength? cs := by
  have hrun := run_append_blanks hgap (p := fun c => !isBlank c && c != ',')
    (fun c hc => by simp [hc]) cs
  rw [argumentLength?, argumentLength?, literalLength_append hgap hne, hrun]

theorem argumentLength_bounded : Bounded argumentLength? := by
  intro cs n h
  rw [argumentLength?] at h
  split at h
  · next hliteral =>
    cases h
    exact Lexeme.literalLength_le hliteral
  · cases h
    exact run_le_length _ cs

/-- White space is no argument. -/
theorem argumentLength_blank {c : Char} (hc : isBlank c = true) (rest : List Char) :
    argumentLength? (c :: rest) = some 0 := by
  have hquote : (c == '"' || c == '\'') = false :=
    eq_false_of_isBlank (p := fun c => c == '"' || c == '\'') (by decide +kernel) hc
  rw [argumentLength?, literalLength?, hquote]
  simp [run, hc]

theorem matchesFrom_blanks (hgap : ∀ c ∈ gap, isBlank c = true) (offset : Nat) :
    matchesFrom argumentLength? 0 offset gap = [] := by
  induction gap generalizing offset with
  | nil => rfl
  | cons c rest ih =>
    have hc := argumentLength_blank (hgap c List.mem_cons_self) rest
    rw [matchesFrom_of_no_match (by simp [hc])]
    exact ih (fun d hd => hgap d (List.mem_cons_of_mem c hd)) _

theorem matchesFrom_append_blanks (hgap : ∀ c ∈ gap, isBlank c = true) {cs : List Char}
    {skip : Nat} (hskip : skip ≤ cs.length) (offset : Nat) :
    matchesFrom argumentLength? skip offset (cs ++ gap) =
      matchesFrom argumentLength? skip offset cs := by
  induction cs generalizing skip offset with
  | nil =>
    obtain rfl : skip = 0 := Nat.le_zero.mp hskip
    exact matchesFrom_blanks hgap offset
  | cons c rest ih =>
    cases skip with
    | succ skip => exact ih (Nat.le_of_succ_le_succ hskip) (offset + 1)
    | zero =>
      have hlength : argumentLength? (c :: (rest ++ gap)) = argumentLength? (c :: rest) :=
        argumentLength_append hgap (List.cons_ne_nil c rest)
      rw [List.cons_append, matchesFrom, matchesFrom, hlength]
      split
      · next n hn =>
        have hle := argumentLength_bounded _ _ hn
        rw [ih (Nat.le_of_succ_le_succ hle)]
      · exact ih (Nat.zero_le _) (offset + 1)

theorem argumentPieces_append_blanks (hgap : ∀ c ∈ gap, isBlank c = true) (args : List Char) :
    argumentPieces (String.ofList (args ++ gap)) = argumentPieces (String.ofList args) := by
  have hspans : matchSpans argumentLength? (args ++ gap) = matchSpans argumentLength? args :=
    matchesFrom_append_blanks hgap (Nat.zero_le _) 0
  rw [argumentPieces, argumentPieces, String.toList_ofList, String.toList_ofList, hspans]
  refine List.map_congr_left fun s hs => ?_
  obtain ⟨hlt, hstop⟩ := (matchSpans_ordered argumentLength_bounded args).within hs
  exact slice_append (Nat.le_of_lt hlt) hstop gap

/-! ## Stages before white space -/

theorem readStage_name {name : List Char} (hne : name ≠ []) (h : ∀ c ∈ name, isWord c = true) :
    readStage (String.ofList name) = .ok ⟨String.ofList name, []⟩ := by
  have hname : (name ++ []).takeWhile isWord = name := takeWhile_append_of_all h (by simp)
  have hrest : (name ++ []).dropWhile isWord = [] := dropWhile_append_of_all h (by simp)
  rw [List.append_nil] at hname hrest
  rw [readStage, String.toList_ofList, hname, hrest]
  exact if_neg (by simpa using hne)

theorem readStage_arguments {name : List Char} (hne : name ≠ []) (h : ∀ c ∈ name, isWord c = true)
    (args : List Char) : readStage (String.ofList (name ++ ':' :: args)) = (do
      let arguments ← liftExpr (readArguments (String.ofList args))
      return ⟨String.ofList name, arguments⟩) := by
  have hcolon : ∀ c, (':' :: args).head? = some c → isWord c = false := by
    intro c hc
    obtain rfl : ':' = c := Option.some.inj hc
    decide +kernel
  have hname : (name ++ ':' :: args).takeWhile isWord = name := takeWhile_append_of_all h hcolon
  have hrest : (name ++ ':' :: args).dropWhile isWord = ':' :: args :=
    dropWhile_append_of_all h hcolon
  rw [readStage, String.toList_ofList, hname, hrest]
  exact if_neg (by simpa using hne)

theorem isBlank_of_isWord {c : Char} (h : isWord c = true) : isBlank c = false := by
  rw [← Bool.not_eq_true]
  intro hblank
  rw [isWord_of_isBlank hblank] at h
  cases h

theorem trim_name {name : List Char} (h : ∀ c ∈ name, isWord c = true) : trim name = name :=
  trim_of_forall fun c hc => isBlank_of_isWord (h c hc)

theorem trim_arguments {name : List Char} (hne : name ≠ []) (h : ∀ c ∈ name, isWord c = true)
    (args : List Char) : trim (name ++ ':' :: args) = name ++ ':' :: trimRight args := by
  have hstart : Flush (name ++ ':' :: args) := by
    obtain ⟨c, rest, rfl⟩ := List.exists_cons_of_ne_nil hne
    intro d hd
    obtain rfl : c = d := Option.some.inj hd
    exact isBlank_of_isWord (h c List.mem_cons_self)
  obtain ⟨trail, hargs, hblank⟩ := exists_trimRight args
  have hsplit : name ++ ':' :: args = (name ++ ':' :: trimRight args) ++ trail := by
    nth_rewrite 1 [hargs]
    simp
  rw [trim, hstart.trimLeft, hsplit, trimRight_append_blanks hblank, trimRight_eq_self_iff]
  have hend : Flush (trimRight args).reverse := trimRight_eq_self_iff.mp (trimRight_trimRight args)
  intro c hc
  rw [List.reverse_append, List.reverse_cons, List.append_assoc] at hc
  cases hback : (trimRight args).reverse with
  | nil =>
    rw [hback] at hc
    obtain rfl : ':' = c := Option.some.inj hc
    decide
  | cons d rest =>
    rw [hback] at hc hend
    exact hend c hc

/-- A stage is read from its trimmed text as from its own. -/
theorem readStage_trim {cs : List Char} (h : StageText cs) :
    readStage (String.ofList (trim cs)) = readStage (String.ofList cs) := by
  cases h with
  | name hne hname => rw [trim_name hname]
  | @arguments name args hne hname _ =>
    obtain ⟨trail, hargs, hblank⟩ := exists_trimRight args
    have hpieces := argumentPieces_append_blanks hblank (trimRight args)
    rw [← hargs] at hpieces
    rw [trim_arguments hne hname, readStage_arguments hne hname, readStage_arguments hne hname,
      readArguments, readArguments, hpieces]

/-! ## What can go wrong in a stage -/

theorem readNumber_failsWith_long (negative : Bool) (numeral : String) :
    FailsWith (fun e => ∃ digits, e = .longNumeral digits) (Expr.readNumber negative numeral) := by
  have hwhole : FailsWith (fun e => ∃ digits, e = .longNumeral digits)
      (Expr.readWhole numeral) := by
    rw [Expr.readWhole]
    split
    · exact failsWith_error ⟨_, rfl⟩
    · exact failsWith_ok _
  rw [Expr.readNumber]
  split
  · exact failsWith_ok _
  · exact hwhole.bind fun _ _ => failsWith_ok _

/-- Whatever is no literal and no numeral is an argument as a path or as its own text. -/
theorem readArgument_failsWith_long (piece : List Char) :
    FailsWith (fun e => ∃ digits, e = .longNumeral digits) (readArgument piece) := by
  rw [readArgument]
  split
  · exact failsWith_ok _
  dsimp only
  split
  · exact failsWith_ok _
  split
  · exact failsWith_ok _
  split
  · exact (readNumber_failsWith_long _ _).bind fun _ _ => failsWith_ok _
  · split
    · exact failsWith_ok _
    · exact failsWith_error ⟨_, rfl⟩
    · exact failsWith_ok _

theorem readStage_failsWith_long {cs : List Char} (h : StageText cs) :
    FailsWith (fun f => ∃ digits, f = .expression (.longNumeral digits))
      (readStage (String.ofList cs)) := by
  cases h with
  | name hne hname =>
    rw [readStage_name hne hname]
    exact failsWith_ok _
  | arguments hne hname _ =>
    rw [readStage_arguments hne hname]
    refine FailsWith.bind (fun f hf => ?_) fun _ _ => failsWith_ok _
    cases hread : readArguments (String.ofList _) with
    | ok arguments =>
      rw [hread] at hf
      cases hf
    | error e =>
      rw [hread] at hf
      cases hf
      obtain ⟨digits, rfl⟩ :=
        failsWith_mapM (fun piece _ => readArgument_failsWith_long piece) e hread
      exact ⟨digits, rfl⟩

/-- A stage without long numerals can be read. -/
theorem exists_readStage {stage : String} (h : StageText stage.toList)
    (hwithin : DigitRunsWithin numeralLimit stage.toList) :
    ∃ parsed, readStage stage = .ok parsed := by
  cases hread : readStage stage with
  | ok parsed => exact ⟨parsed, rfl⟩
  | error f =>
    have hlong := readStage_failsWith_long h
    rw [String.ofList_toList] at hlong
    obtain ⟨digits, rfl⟩ := hlong f hread
    exact absurd (readStage_failsWith hwithin _ hread) id

/-! ## Whole pipelines -/

theorem split_eq {subject : String} {e : Expr} (h : Expr.parse subject = .ok e)
    (joints : List Joint) : split (joined subject joints) =
      trimmed subject :: joints.map fun j => trimmed j.stage := by
  have hparts := passes_of_parse h [] (joints.flatMap Joint.text)
  rw [List.append_nil] at hparts
  have htrim := congrArg (List.map String.ofList) (map_trim_partsFrom subject.toList.reverse joints)
  rw [← hparts, List.map_map, List.reverse_reverse, List.map_cons, List.map_map] at htrim
  rw [split, joined, String.toList_ofList]
  exact htrim

/-- An expression and stages that are joined by bars, with any white space around these, are split
into the same expression and stages, trimmed.  The pipeline that is read has the expression as it is
read alone and the stages as each of them is read alone, and every stage without a long numeral can
be read. -/
theorem read_joined {subject : String} {e : Expr} (h : Expr.parse subject = .ok e)
    (joints : List Joint) :
    split (joined subject joints) = trimmed subject :: (joints.map fun j => trimmed j.stage) ∧
    read (joined subject joints) = ((joints.mapM fun j => readStage j.stage).map fun stages =>
      ⟨joined subject joints, e, stages⟩) ∧
    ((∀ j ∈ joints, DigitRunsWithin numeralLimit j.stage.toList) →
      ∃ stages, (joints.mapM fun j => readStage j.stage) = .ok stages) := by
  have hstage : ∀ j : Joint, readStage (trimmed j.stage) = readStage j.stage := fun j => by
    rw [trimmed, readStage_trim j.isStage, String.ofList_toList]
  refine ⟨split_eq h joints, ?_, fun hwithin => exists_mapM_eq_ok fun j hj => ?_⟩
  · have hsubject := Expr.parse_trimmed h
    have hfull : trim subject.toList ≠ [] := by
      intro hempty
      rw [trimmed, hempty] at hsubject
      exact Token.parse_empty_ne_ok e hsubject
    have hne : (trimmed subject).isEmpty = false := by
      rw [← Bool.not_eq_true, String.isEmpty_iff, trimmed]
      intro hempty
      exact hfull (String.ofList_eq_empty_iff.mp hempty)
    rw [read, split_eq h]
    dsimp only
    rw [hne, hsubject, List.mapM_map]
    simp only [Function.comp_def, hstage]
    cases joints.mapM fun j => readStage j.stage with
    | ok stages => rfl
    | error f => rfl
  · exact exists_readStage j.isStage (hwithin j hj)

/-- Neither the operator nor the bars inside of the literals are cut at. -/
theorem read_joined_quoted_bars :
    Expr.parse "x || \")|\"" = .ok (.binary .or (.path ⟨"x", []⟩) (.literal (.text ")|"))) ∧
    split "x || \")|\" | upper|default:\"|\", y" =
      ["x || \")|\"", "upper", "default:\"|\", y"] ∧
    ∃ stages, read "x || \")|\" | upper|default:\"|\", y" =
      .ok ⟨"x || \")|\" | upper|default:\"|\", y",
        .binary .or (.path ⟨"x", []⟩) (.literal (.text ")|")), stages⟩ := by
  have hscan : Lexeme.scan "x || \")|\"" = .ok [⟨.name, "x", 0⟩, ⟨.operator, "||", 2⟩,
      ⟨.string, "\")|\"", 5⟩, ⟨.eof, "", 9⟩] := rfl
  have hparse : Expr.parse "x || \")|\"" =
      .ok (.binary .or (.path ⟨"x", []⟩) (.literal (.text ")|"))) := by
    rw [Expr.parse, Expr.lexemesOf, hscan]
    rfl
  have hspace : ∀ c ∈ " ".toList, isBlank c = true := List.all_eq_true.mp (by decide +kernel)
  have hnone : ∀ c ∈ "".toList, isBlank c = true := List.all_eq_true.mp rfl
  have hupper : StageText "upper".toList :=
    .name (by decide) (List.all_eq_true.mp (by decide +kernel))
  have hdefault : StageText ("default".toList ++ ':' :: (['"', '|', '"'] ++ [',', ' ', 'y'])) :=
    .arguments (by decide) (List.all_eq_true.mp (by decide +kernel))
      (.literal rfl (.plain rfl (.plain rfl (.plain rfl .nil))))
  have hjoined : joined "x || \")|\"" [⟨" ", " ", "upper", hspace, hspace, hupper⟩,
      ⟨"", "", "default:\"|\", y", hnone, hnone, hdefault⟩] =
        "x || \")|\" | upper|default:\"|\", y" := by
    show String.ofList ("x || \")|\"".toList ++
      (" ".toList ++ '|' :: (" ".toList ++ "upper".toList) ++
        ("".toList ++ '|' :: ("".toList ++ "default:\"|\", y".toList) ++ []))) = _
    decide +kernel
  have htrimmed : [trimmed "x || \")|\"", trimmed "upper", trimmed "default:\"|\", y"] =
      ["x || \")|\"", "upper", "default:\"|\", y"] := by decide +kernel
  have hjoints := read_joined hparse [⟨" ", " ", "upper", hspace, hspace, hupper⟩,
    ⟨"", "", "default:\"|\", y", hnone, hnone, hdefault⟩]
  rw [hjoined] at hjoints
  obtain ⟨hsplit, hread, hstages⟩ := hjoints
  obtain ⟨stages, hstages⟩ := hstages (by
    simp only [List.forall_mem_cons]
    exact ⟨.of_length (by decide), .of_length (by decide), by simp⟩)
  rw [hstages] at hread
  exact ⟨hparse, hsplit.trans htrimmed, stages, hread⟩

end Pipeline
end Quill
