import Quill.Proofs.Expr.Lexemes
import Quill.Proofs.Expr.Spacing

/-!
Where the lexemes of a text stand.

A lexeme has the position of the place where it begins, and the end mark that of the end of the
text.  Whatever is not white space belongs to a lexeme, and a text is refused at a place where
nothing begins.
-/

namespace Quill
namespace Lexeme

open Text

/-- Whether a lexeme is what a text holds from a place on: the lexeme that begins there, or the end
mark at the end. -/
inductive StandsAt (cs : List Char) (place : Nat) (l : Lexeme) : Prop
  | word {n : Nat} : leading? (cs.drop place) = some (some l.kind, n + 1) →
      l.text.toList = (cs.drop place).take (n + 1) → StandsAt cs place l
  | stop : l.kind = .eof → l.text = "" → place = cs.length → StandsAt cs place l

namespace StandsAt

variable {cs : List Char} {place : Nat} {l : Lexeme}

theorem cons (h : StandsAt cs place l) (c : Char) : StandsAt (c :: cs) (place + 1) l := by
  cases h with
  | word hleading htext => exact .word hleading htext
  | stop hkind htext hplace => exact .stop hkind htext (congrArg (· + 1) hplace)

theorem isPrefix (h : StandsAt cs place l) : l.text.toList <+: cs.drop place := by
  cases h with
  | word _ htext =>
    rw [htext]
    exact List.take_prefix _ _
  | stop _ htext _ =>
    rw [htext]
    exact List.nil_prefix

/-- Only the end mark is empty. -/
theorem eq_length_of_empty (h : StandsAt cs place l) (hempty : l.text.toList = []) :
    place = cs.length := by
  cases h with
  | word hleading htext =>
    rw [htext, List.take_eq_nil_iff] at hempty
    rcases hempty with hzero | hnil
    · cases hzero
    · rw [hnil] at hleading
      cases hleading
  | stop _ _ hplace => exact hplace

end StandsAt

/-! ## Scanning -/

variable {skip position : Nat} {cs : List Char}

/-- The induction is on the text; a place moves on with every character. -/
theorem standsAt_of_mem_scanFrom {lexemes : List Lexeme} {l : Lexeme}
    (h : scanFrom skip position cs = .ok lexemes) (hl : l ∈ lexemes) :
    ∃ place, l.position = position + place ∧ StandsAt cs place l := by
  induction cs generalizing skip position lexemes with
  | nil =>
    have hstop : lexemes = [⟨.eof, "", position⟩] := by
      cases skip <;> simpa [scanFrom, eq_comm] using h
    rw [hstop] at hl
    obtain rfl := List.mem_singleton.mp hl
    exact ⟨0, rfl, .stop rfl rfl rfl⟩
  | cons c rest ih =>
    have later : ∀ {skip others}, scanFrom skip (position + 1) rest = .ok others → l ∈ others →
        ∃ place, l.position = position + place ∧ StandsAt (c :: rest) place l := by
      intro skip others hothers hmem
      obtain ⟨place, hposition, hstands⟩ := ih hothers hmem
      exact ⟨place + 1, by omega, hstands.cons c⟩
    cases skip with
    | succ skip => exact later h hl
    | zero =>
      rw [scanFrom] at h
      split at h
      · exact later h hl
      · next kind n hleading =>
        obtain ⟨others, hothers, h⟩ := Outcome.bind_eq_ok.mp h
        cases h
        rcases List.mem_cons.mp hl with rfl | hl
        · exact ⟨0, rfl, .word hleading String.toList_ofList⟩
        · exact later hothers hl
      · cases h

/-- A text is refused where neither a lexeme nor white space begins. -/
theorem scanFrom_eq_error {c : Char} {p : Nat} (h : scanFrom skip position cs = .error (c, p)) :
    ∃ place, p = position + place ∧ [c] <+: cs.drop place ∧
      ∀ found n, leading? (cs.drop place) ≠ some (found, n + 1) := by
  induction cs generalizing skip position with
  | nil => cases skip <;> cases h
  | cons d rest ih =>
    have later : ∀ {skip}, scanFrom skip (position + 1) rest = .error (c, p) →
        ∃ place, p = position + place ∧ [c] <+: (d :: rest).drop place ∧
          ∀ found n, leading? ((d :: rest).drop place) ≠ some (found, n + 1) := by
      intro skip hrest
      obtain ⟨place, hposition, hstands⟩ := ih hrest
      exact ⟨place + 1, by omega, hstands⟩
    cases skip with
    | succ skip => exact later h
    | zero =>
      rw [scanFrom] at h
      split at h
      · exact later h
      · rcases Outcome.bind_eq_error.mp h with h | ⟨others, -, h⟩
        · exact later h
        · cases h
      · next hblank hword =>
        cases h
        refine ⟨0, rfl, List.prefix_append [c] rest, ?_⟩
        rintro (_ | kind) n hleading
        · exact hblank n hleading
        · exact hword kind n hleading

theorem isBlank_of_mem_take_run {c : Char} (h : c ∈ cs.take (run isBlank cs)) :
    isBlank c = true := by
  rw [take_run] at h
  exact of_mem_takeWhile h

theorem length_of_leading_blank {n : Nat} (h : leading? cs = some (none, n)) :
    n = run isBlank cs := by
  obtain ⟨c, rest, rfl, hbegins⟩ := exists_begins_of_leading h
  cases hbegins
  rfl

/-- What is not white space belongs to a lexeme. -/
theorem exists_mem_scanFrom {lexemes : List Lexeme} {place : Nat} {c : Char}
    (h : scanFrom skip position cs = .ok lexemes) (hskip : skip ≤ place) (hc : cs[place]? = some c)
    (hblank : isBlank c = false) :
    ∃ l ∈ lexemes, l.position ≤ position + place ∧
      l.text.toList[position + place - l.position]? = some c := by
  induction cs generalizing skip position place lexemes with
  | nil => cases hc
  | cons d rest ih =>
    have later : ∀ {skip others}, scanFrom skip (position + 1) rest = .ok others →
        skip + 1 ≤ place → ∃ l ∈ others, l.position ≤ position + place ∧
          l.text.toList[position + place - l.position]? = some c := by
      intro skip others hothers hle
      obtain ⟨place, rfl⟩ : ∃ k, place = k + 1 := ⟨place - 1, by omega⟩
      rw [List.getElem?_cons_succ] at hc
      have hfound := ih hothers (Nat.le_of_succ_le_succ hle) hc
      rwa [show position + 1 + place = position + (place + 1) by omega] at hfound
    cases skip with
    | succ skip => exact later h hskip
    | zero =>
      rw [scanFrom] at h
      split at h
      · next n hleading =>
        refine later h (Nat.lt_of_not_le fun hle => ?_)
        have hmem : c ∈ (d :: rest).take (n + 1) :=
          List.mem_of_getElem? (by rwa [List.getElem?_take_of_lt (Nat.lt_succ_of_le hle)])
        have hrun : n + 1 = run isBlank (d :: rest) := length_of_leading_blank hleading
        rw [hrun] at hmem
        rw [isBlank_of_mem_take_run hmem] at hblank
        cases hblank
      · next kind n hleading =>
        obtain ⟨others, hothers, h⟩ := Outcome.bind_eq_ok.mp h
        cases h
        by_cases hle : place ≤ n
        · refine ⟨_, List.mem_cons_self, Nat.le_add_right position place, ?_⟩
          rw [String.toList_ofList, Nat.add_sub_cancel_left,
            List.getElem?_take_of_lt (Nat.lt_succ_of_le hle)]
          exact hc
        · obtain ⟨l, hl, hfound⟩ := later hothers (Nat.lt_of_not_le hle)
          exact ⟨l, List.mem_cons_of_mem _ hl, hfound⟩
      · cases h

end Lexeme
end Quill
