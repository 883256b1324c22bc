import Quill.Proofs.Expr.Shapes

/-!
Scanning a text and scanning its words written anew.

The lexemes of a text stand in it one behind the other, each the longest word of its place, with
nothing but white space around them, and a text is refused where neither a word nor white space
begins.  Since a word goes no further when white space follows it, words that are written with white
space between them are found again, and the expression is the same.
-/

namespace Quill
namespace Lexeme

open Text

/-! ## Places in order -/

def Before (l l' : Lexeme) : Prop :=
  l.position < l'.position ∧ l.position + l.text.length ≤ l'.position

variable {skip position : Nat} {cs : List Char}

/-- Lexemes follow one another.  The characters that are skipped belong to the lexeme before. -/
theorem before_of_scanFrom {lexemes : List Lexeme} (h : scanFrom skip position cs = .ok lexemes)
    (hskip : skip ≤ cs.length) :
    (∀ l ∈ lexemes, position + skip ≤ l.position) ∧ lexemes.Pairwise Before := by
  induction cs generalizing skip position lexemes with
  | nil =>
    obtain rfl : skip = 0 := Nat.le_zero.mp hskip
    rw [scanFrom] at h
    cases h
    simp
  | cons c rest ih =>
    cases skip with
    | succ skip =>
      obtain ⟨hle, hpairs⟩ := ih h (Nat.le_of_succ_le_succ hskip)
      refine ⟨fun l hl => ?_, hpairs⟩
      have hl := hle l hl
      omega
    | zero =>
      rw [scanFrom] at h
      split at h
      · next n hleading =>
        have hn : n ≤ rest.length := Nat.le_of_succ_le_succ (leading_le hleading)
        obtain ⟨hle, hpairs⟩ := ih h hn
        refine ⟨fun l hl => ?_, hpairs⟩
        have hl := hle l hl
        omega
      · next kind n hleading =>
        obtain ⟨others, hothers, heq⟩ := Outcome.bind_eq_ok.mp h
        cases heq
        have hn : n ≤ rest.length := Nat.le_of_succ_le_succ (leading_le hleading)
        obtain ⟨hle, hpairs⟩ := ih hothers hn
        have hlength : (String.ofList ((c :: rest).take (n + 1))).length = n + 1 := by
          rw [String.length_ofList, List.length_take, List.length_cons]
          omega
        refine ⟨?_, .cons (fun l hl => ?_) hpairs⟩
        · intro l hl
          rcases List.mem_cons.mp hl with rfl | hl
          · exact Nat.le_refl _
          · have hl := hle l hl
            omega
        · have hl := hle l hl
          refine ⟨?_, ?_⟩
          · show position < l.position
            omega
          · show position + (String.ofList ((c :: rest).take (n + 1))).length ≤ l.position
            omega
      · cases h

/-! ## Where scanning stops -/

theorem skip_le_of_error {c : Char} {p : Nat} (h : scanFrom skip position cs = .error (c, p)) :
    position + skip ≤ p := by
  induction cs generalizing skip position with
  | nil => cases skip <;> cases h
  | cons d rest ih =>
    cases skip with
    | succ skip =>
      have hle := ih h
      omega
    | zero =>
      obtain ⟨place, rfl, -⟩ := scanFrom_eq_error h
      omega

/-- What stands before the place of a problem can be scanned. -/
theorem exists_scanFrom_take {c : Char} {place : Nat}
    (h : scanFrom skip position cs = .error (c, position + place)) :
    ∃ lexemes, scanFrom skip position (cs.take place) = .ok lexemes := by
  induction cs generalizing skip position place with
  | nil => cases skip <;> cases h
  | cons d rest ih =>
    have later : ∀ {skip}, scanFrom skip (position + 1) rest = .error (c, position + place) →
        ∃ k, place = k + 1 ∧ skip ≤ k ∧
          ∃ lexemes, scanFrom skip (position + 1) (rest.take k) = .ok lexemes := by
      intro skip hrest
      have hle := skip_le_of_error hrest
      obtain ⟨k, rfl⟩ : ∃ k, place = k + 1 := ⟨place - 1, by omega⟩
      rw [show position + (k + 1) = position + 1 + k by omega] at hrest
      exact ⟨k, rfl, by omega, ih hrest⟩
    cases skip with
    | succ skip =>
      obtain ⟨k, rfl, -, hk⟩ := later h
      exact hk
    | zero =>
      rw [scanFrom] at h
      split at h
      · next n hleading =>
        obtain ⟨k, rfl, hle, hk⟩ := later h
        have hcut := leading_take hleading (Nat.succ_le_succ hle)
        rw [List.take_succ_cons] at hcut ⊢
        rw [scanFrom, hcut]
        exact hk
      · next kind n hleading =>
        rcases Outcome.bind_eq_error.mp h with h | ⟨others, -, h⟩
        · obtain ⟨k, rfl, hle, lexemes, hk⟩ := later h
          have hcut := leading_take hleading (Nat.succ_le_succ hle)
          rw [List.take_succ_cons] at hcut ⊢
          rw [scanFrom, hcut]
          exact ⟨_, Outcome.bind_eq_ok.mpr ⟨lexemes, hk, rfl⟩⟩
        · cases h
      · simp only [Except.error.injEq, Prod.mk.injEq] at h
        obtain rfl : place = 0 := by omega
        exact ⟨_, rfl⟩

/-! ## Words written anew -/

/-- Words in order with white space behind each of them, which may be missing only where nothing
else follows. -/
inductive Spread : List Lexeme → List Char → Prop
  | nil : Spread [] []
  | cons {l : Lexeme} {rest : List Lexeme} {gap cs : List Char} :
      (∀ c ∈ gap, isBlank c = true) → (gap = [] → cs = []) → Spread rest cs →
      Spread (l :: rest) (l.text.toList ++ (gap ++ cs))

/-- White space before a text is passed over, also when the text begins with white space. -/
theorem scanFrom_gap_append {gap : List Char} (hgap : ∀ c ∈ gap, isBlank c = true)
    (cs : List Char) (position : Nat) :
    scanFrom 0 position (gap ++ cs) = scanFrom 0 (position + gap.length) cs := by
  have hlead : ∀ c ∈ cs.takeWhile isBlank, isBlank c = true := fun c hc => of_mem_takeWhile hc
  have hrest : Flush (cs.dropWhile isBlank) := flush_trimLeft cs
  have hcs := scanFrom_blanks_append hlead hrest (position + gap.length)
  have hall : ∀ c ∈ gap ++ cs.takeWhile isBlank, isBlank c = true := by
    intro c hc
    rcases List.mem_append.mp hc with hc | hc
    · exact hgap c hc
    · exact hlead c hc
  have hboth := scanFrom_blanks_append hall hrest position
  rw [List.append_assoc, List.takeWhile_append_dropWhile, List.length_append,
    ← Nat.add_assoc] at hboth
  rw [List.takeWhile_append_dropWhile] at hcs
  rw [hboth, hcs]

/-- Words that are written with white space between them are found again. -/
theorem scanFrom_spread {words : List Lexeme} {stop : Lexeme} (hstop : stop.kind = .eof)
    (hempty : stop.text = "") (hwords : ∀ l ∈ words, Shape l.kind l.text.toList)
    (h : Spread (words ++ [stop]) cs) (position : Nat) :
    ∃ lexemes, scanFrom 0 position cs = .ok lexemes ∧
      List.Forall₂ SameWord (words ++ [stop]) lexemes := by
  induction words generalizing cs position with
  | nil =>
    cases h with
    | cons hgap _ hrest =>
      cases hrest
      rw [hempty, List.append_nil]
      obtain ⟨place, hscan⟩ := scanFrom_blanks hgap 0 position
      exact ⟨_, hscan, .cons ⟨hstop, hempty⟩ .nil⟩
  | cons l rest ih =>
    cases h with
    | @cons _ _ gap cs hgap hend hrest =>
      have hshape := hwords l List.mem_cons_self
      have hback : ∀ c ∈ (gap ++ cs).head?, isBlank c = true := by
        intro c hc
        cases gap with
        | nil =>
          rw [hend rfl] at hc
          cases hc
        | cons d gap =>
          obtain rfl := Option.some.inj hc
          exact hgap d List.mem_cons_self
      obtain ⟨lexemes, hscan, hsame⟩ := ih (fun m hm => hwords m (List.mem_cons_of_mem l hm)) hrest
        (position + l.text.toList.length + gap.length)
      refine ⟨⟨l.kind, l.text, position⟩ :: lexemes, ?_, .cons ⟨rfl, rfl⟩ hsame⟩
      rw [(hshape.longest hback).scan_append, scanFrom_gap_append hgap, hscan,
        String.ofList_toList]
      rfl

theorem spread_intercalate {gap : List Char} (hne : gap ≠ [])
    (hgap : ∀ c ∈ gap, isBlank c = true) (words : List Lexeme) :
    Spread words (gap.intercalate (words.map fun l => l.text.toList)) := by
  induction words with
  | nil => exact .nil
  | cons l rest ih =>
    cases rest with
    | nil =>
      have hlast := @Spread.cons l [] [] [] (by simp) (fun _ => rfl) .nil
      simpa using hlast
    | cons m rest =>
      rw [List.map_cons, List.map_cons, List.intercalate_cons_cons, List.append_assoc]
      exact .cons hgap (fun h => absurd h hne) ih

/-- The end mark is an empty word. -/
theorem Spread.concat {words : List Lexeme} {stop : Lexeme} (h : Spread words cs)
    (hempty : stop.text = "") : Spread (words ++ [stop]) cs := by
  induction h with
  | nil =>
    have hlast := @Spread.cons stop [] [] [] (by simp) (fun _ => rfl) .nil
    rwa [hempty] at hlast
  | cons hgap hend _ ih => exact .cons hgap hend ih

/-! ## Texts and their lexemes -/

/-- Whether lexemes are those of a text: an end mark behind all others, each of the others the longest
word of its place, one behind the other, and only white space outside of them. -/
structure Covers (text : String) (lexemes : List Lexeme) : Prop where
  stop : ∃ words, lexemes = words ++ [⟨.eof, "", text.length⟩] ∧ ∀ l ∈ words, l.kind ≠ .eof
  before : lexemes.Pairwise Before
  slice : ∀ l ∈ lexemes,
    slice text.toList ⟨l.position, l.position + l.text.length⟩ = l.text.toList
  longest : ∀ l ∈ lexemes, l.kind ≠ .eof →
    Longest l.kind l.text.toList (text.toList.drop l.position)
  blank : ∀ (place : Nat) (c : Char), text.toList[place]? = some c →
    (∀ l ∈ lexemes, ¬ (l.position ≤ place ∧ place < l.position + l.text.length)) →
    isBlank c = true

/-- Whether a text is refused at a place: what stands before it can be scanned, and neither white
space nor a word begins there. -/
structure RefusedAt (text : String) (c : Char) (place : Nat) : Prop where
  char : text.toList[place]? = some c
  before : ∃ lexemes, scan (String.ofList (text.toList.take place)) = .ok lexemes
  blank : isBlank c = false
  word : ∀ kind word, Shape kind word → ¬ word <+: text.toList.drop place

theorem scan_eq_ok_iff {text : String} {lexemes : List Lexeme} :
    scan text = .ok lexemes ↔ scanFrom 0 0 text.toList = .ok lexemes := by
  rw [scan]
  cases scanFrom 0 0 text.toList <;> simp

theorem covers_of_scan {text : String} {lexemes : List Lexeme} (h : scan text = .ok lexemes) :
    Covers text lexemes := by
  have hscan := scan_eq_ok_iff.mp h
  have stands : ∀ l ∈ lexemes, StandsAt text.toList l.position l := by
    intro l hl
    obtain ⟨place, hposition, hstands⟩ := standsAt_of_mem_scanFrom hscan hl
    rwa [hposition, Nat.zero_add]
  refine ⟨?_, (before_of_scanFrom hscan (Nat.zero_le _)).2, fun l hl => ?_,
    fun l hl hkind => (stands l hl).longest hkind, fun place c hc hfree => ?_⟩
  · obtain ⟨words, stop, rfl, hstop, hwords⟩ := scan_eq_ok h
    refine ⟨words, ?_, fun l hl => (hwords l hl).kind_ne_eof⟩
    cases stands stop (by simp) with
    | word hleading _ => exact absurd hstop (kind_ne_eof_of_leading hleading)
    | stop _ htext hplace =>
      obtain ⟨kind, stopText, position⟩ := stop
      rw [String.length_toList] at hplace
      rw [show kind = .eof from hstop, show stopText = "" from htext,
        show position = text.length from hplace]
  · have hprefix := List.prefix_iff_eq_take.mp (stands l hl).isPrefix
    rw [Text.slice, Nat.add_sub_cancel_left, ← String.length_toList]
    exact hprefix.symm
  · rw [← Bool.not_eq_false]
    intro hblank
    obtain ⟨l, hl, hle, hget⟩ := exists_mem_scanFrom hscan (Nat.zero_le place) hc hblank
    have hlt := (List.getElem?_eq_some_iff.mp hget).1
    rw [String.length_toList] at hlt
    exact hfree l hl ⟨by omega, by omega⟩

theorem refusedAt_of_scan {text : String} {e : Expr.Malformed} (h : scan text = .error e) :
    ∃ c, e = ⟨text, .unexpectedCharacter c, e.position⟩ ∧ RefusedAt text c e.position := by
  rw [scan] at h
  split at h
  · cases h
  · next c position hscan =>
    cases h
    obtain ⟨place, rfl, hchar, hnothing⟩ := scanFrom_eq_error hscan
    obtain ⟨lexemes, htake⟩ := exists_scanFrom_take hscan
    rw [Nat.zero_add]
    have hhead : (text.toList.drop place).head? = some c := by
      obtain ⟨more, hmore⟩ := hchar
      rw [← hmore]
      rfl
    refine ⟨c, rfl, by rw [← hhead, List.head?_drop], ?_, ?_, fun kind word hshape hword => ?_⟩
    · exact ⟨lexemes, by rw [scan_eq_ok_iff, String.toList_ofList]; exact htake⟩
    · rw [← Bool.not_eq_true]
      intro hblank
      obtain ⟨rest, hrest⟩ := List.head?_eq_some_iff.mp hhead
      refine hnothing none (run isBlank rest) ?_
      rw [hrest, leading?, if_pos hblank, run, List.takeWhile_cons_of_pos hblank]
      rfl
    · obtain ⟨n, hn⟩ := exists_leading_of_shape hshape hword
      have hle := length_le_of_leading hn hshape hword
      have hpos := List.length_pos_iff.mpr hshape.ne_nil
      obtain ⟨k, rfl⟩ : ∃ k, n = k + 1 := ⟨n - 1, by omega⟩
      exact hnothing (some kind) k hn

/-- The lexemes of a text are its longest words in order, with the white space left out, or it is
refused at the first place where no word begins.  Its words, written with any white space between
them, are scanned as the same words, and spell the same expression or none. -/
theorem scan_words (text : String) :
    (∀ e, scan text = .error e →
      ∃ c, e = ⟨text, .unexpectedCharacter c, e.position⟩ ∧ RefusedAt text c e.position) ∧
    ∀ lexemes, scan text = .ok lexemes → Covers text lexemes ∧
      (∀ text' : String, Spread lexemes text'.toList →
        (∃ lexemes', scan text' = .ok lexemes' ∧ List.Forall₂ SameWord lexemes lexemes') ∧
        ∀ e, Expr.parse text = .ok e ↔ Expr.parse text' = .ok e) ∧
      ∀ gap : String, gap ≠ "" → (∀ c ∈ gap.toList, isBlank c = true) →
        Spread lexemes (gap.intercalate (lexemes.map Lexeme.text)).toList ∧
        Spread lexemes (gap.intercalate (lexemes.dropLast.map Lexeme.text)).toList := by
  refine ⟨fun e => refusedAt_of_scan, fun lexemes h => ?_⟩
  have hcovers := covers_of_scan h
  obtain ⟨words, hwords, hkinds⟩ := hcovers.stop
  refine ⟨hcovers, fun text' hspread => ?_, fun gap hne hgap => ?_⟩
  · have hshapes : ∀ l ∈ words, Shape l.kind l.text.toList := fun l hl =>
      (hcovers.longest l (by rw [hwords]; simp [hl]) (hkinds l hl)).shape
    obtain ⟨lexemes', hscan', hsame⟩ := scanFrom_spread rfl rfl hshapes (hwords ▸ hspread) 0
    rw [← hwords] at hsame
    refine ⟨⟨lexemes', scan_eq_ok_iff.mpr hscan', hsame⟩, fun e => ?_⟩
    have hback : List.Forall₂ SameWord lexemes' lexemes :=
      hsame.flip.imp fun l l' h => ⟨h.1.symm, h.2.symm⟩
    rw [Expr.parse, Expr.parse, Expr.lexemesOf_eq_ok_iff.mpr (scan_eq_ok_iff.mp h),
      Expr.lexemesOf_eq_ok_iff.mpr hscan', Outcome.ok_bind, Outcome.ok_bind]
    exact ⟨Expr.parseLexemes_of_sameWords hsame, Expr.parseLexemes_of_sameWords hback⟩
  · have hne' : gap.toList ≠ [] := fun hnil => hne (String.toList_eq_nil_iff.mp hnil)
    have hspread : ∀ ls : List Lexeme, Spread ls (gap.intercalate (ls.map Lexeme.text)).toList := by
      intro ls
      rw [String.toList_intercalate, List.map_map]
      exact spread_intercalate hne' hgap ls
    refine ⟨hspread lexemes, ?_⟩
    rw [hwords, List.dropLast_concat]
    exact (hspread words).concat rfl

/-- A comparison without white space, whose words are also written far apart, and a text that is
refused. -/
theorem scan_words_compared :
    scan "!a.5<='it'" = .ok [⟨.operator, "!", 0⟩, ⟨.name, "a", 1⟩, ⟨.punct, ".", 2⟩,
      ⟨.number, "5", 3⟩, ⟨.operator, "<=", 4⟩, ⟨.string, "'it'", 6⟩, ⟨.eof, "", 10⟩] ∧
    (∃ lexemes, scan "! \ta \t. \t5 \t<= \t'it'" = .ok lexemes ∧ List.Forall₂ SameWord
      [⟨.operator, "!", 0⟩, ⟨.name, "a", 1⟩, ⟨.punct, ".", 2⟩, ⟨.number, "5", 3⟩,
        ⟨.operator, "<=", 4⟩, ⟨.string, "'it'", 6⟩, ⟨.eof, "", 10⟩] lexemes) ∧
    scan "a & b" = .error ⟨"a & b", .unexpectedCharacter '&', 2⟩ ∧ RefusedAt "a & b" '&' 2 := by
  have hscan : scan "!a.5<='it'" = .ok [⟨.operator, "!", 0⟩, ⟨.name, "a", 1⟩, ⟨.punct, ".", 2⟩,
      ⟨.number, "5", 3⟩, ⟨.operator, "<=", 4⟩, ⟨.string, "'it'", 6⟩, ⟨.eof, "", 10⟩] := rfl
  have herror : scan "a & b" = .error ⟨"a & b", .unexpectedCharacter '&', 2⟩ := rfl
  obtain ⟨-, hsame, hspread⟩ := (scan_words "!a.5<='it'").2 _ hscan
  obtain ⟨c, hc, hrefused⟩ := (scan_words "a & b").1 _ herror
  refine ⟨hscan, (hsame _ (hspread " \t" (by decide) (List.all_eq_true.mp (by decide))).2).1, herror, ?_⟩
  simp only [Expr.Malformed.mk.injEq, Expr.Problem.unexpectedCharacter.injEq] at hc
  obtain ⟨-, rfl, -⟩ := hc
  exact hrefused

end Lexeme
end Quill
