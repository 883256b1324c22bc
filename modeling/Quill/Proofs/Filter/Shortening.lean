import Quill.Filter.Letters
import Quill.Proofs.Number.Truncation
import Quill.Proofs.Text.Words

/-!
Shortened texts.

A text is cut to a length, and an ellipsis stands for what is cut off.  The length is a number
without its fraction, or what a text spells as a whole number; zero and whatever is no number ask
for the usual length.  A truth value asks for one character if it is true, and a negative number for
the text without so many characters at its end, with an ellipsis in any case.
-/

namespace Quill
namespace Filter

open Text

/-! ## Digits in groups -/

structure DigitGroups (groups : List (List Char)) : Prop where
  ne_nil : ∀ group ∈ groups, group ≠ []
  isDigit : ∀ group ∈ groups, ∀ c ∈ group, isDigit c = true

theorem digitGroups_cons {group : List Char} {groups : List (List Char)} :
    DigitGroups (group :: groups) ↔
      group ≠ [] ∧ (∀ c ∈ group, isDigit c = true) ∧ DigitGroups groups := by
  constructor
  · rintro ⟨hne, hdigit⟩
    obtain ⟨hgroup, hne⟩ := List.forall_mem_cons.mp hne
    obtain ⟨hdigits, hdigit⟩ := List.forall_mem_cons.mp hdigit
    exact ⟨hgroup, hdigits, hne, hdigit⟩
  · rintro ⟨hgroup, hdigits, hne, hdigit⟩
    exact ⟨List.forall_mem_cons.mpr ⟨hgroup, hne⟩, List.forall_mem_cons.mpr ⟨hdigits, hdigit⟩⟩

theorem groupedDigits?_underscore {c : Char} (hc : isDigit c = true) (rest : List Char) :
    groupedDigits? (c :: '_' :: rest) = (groupedDigits? rest).map (c :: ·) := by
  rw [groupedDigits?, if_pos hc]

theorem groupedDigits?_digit {c d : Char} (hc : isDigit c = true) (hd : isDigit d = true)
    (rest : List Char) :
    groupedDigits? (c :: d :: rest) = (groupedDigits? (d :: rest)).map (c :: ·) := by
  have hunderscore : d ≠ '_' := by
    rintro rfl
    exact absurd hd (by decide)
  rw [groupedDigits?, if_pos hc]
  · simp
  · simpa using hunderscore

/-- A group is read together with what an underscore leads to. -/
theorem groupedDigits?_group {group more digits : List Char} (hne : group ≠ [])
    (hdigit : ∀ c ∈ group, isDigit c = true) (hmore : groupedDigits? more = some digits) :
    groupedDigits? (group ++ '_' :: more) = some (group ++ digits) := by
  induction group with
  | nil => exact absurd rfl hne
  | cons c rest ih =>
    obtain ⟨hc, hrest⟩ := List.forall_mem_cons.mp hdigit
    cases rest with
    | nil =>
      rw [List.singleton_append, groupedDigits?_underscore hc, hmore]
      rfl
    | cons d rest =>
      obtain ⟨hd, -⟩ := List.forall_mem_cons.mp hrest
      have hread := ih (List.cons_ne_nil d rest) hrest
      rw [List.cons_append] at hread
      rw [List.cons_append, List.cons_append, groupedDigits?_digit hc hd, hread]
      rfl

theorem groupedDigits?_self {group : List Char} (hne : group ≠ [])
    (hdigit : ∀ c ∈ group, isDigit c = true) : groupedDigits? group = some group := by
  induction group with
  | nil => exact absurd rfl hne
  | cons c rest ih =>
    obtain ⟨hc, hrest⟩ := List.forall_mem_cons.mp hdigit
    cases rest with
    | nil => rw [groupedDigits?, if_pos hc]
    | cons d rest =>
      obtain ⟨hd, -⟩ := List.forall_mem_cons.mp hrest
      rw [groupedDigits?_digit hc hd, ih (List.cons_ne_nil d rest) hrest]
      rfl

/-- Digits are read exactly from groups of them with underscores between. -/
theorem groupedDigits?_eq_some_iff {cs digits : List Char} : groupedDigits? cs = some digits ↔
    ∃ first others, DigitGroups (first :: others) ∧
      cs = first ++ others.flatMap ('_' :: ·) ∧ digits = first ++ others.flatten := by
  constructor
  · intro h
    fun_induction groupedDigits? cs generalizing digits with
    | case1 => cases h
    | case2 c hc =>
      cases h
      exact ⟨[c], [], ⟨by simp, by simpa using hc⟩, rfl, rfl⟩
    | case3 => cases h
    | case4 c rest hc ih =>
      obtain ⟨others, hothers, rfl⟩ := Option.map_eq_some_iff.mp h
      obtain ⟨first, groups, hgroups, rfl, rfl⟩ := ih hothers
      exact ⟨[c], first :: groups, digitGroups_cons.mpr ⟨by simp, by simpa using hc, hgroups⟩,
        rfl, rfl⟩
    | case5 => cases h
    | case6 c rest _ _ hc ih =>
      obtain ⟨others, hothers, rfl⟩ := Option.map_eq_some_iff.mp h
      obtain ⟨first, groups, hgroups, rfl, rfl⟩ := ih hothers
      obtain ⟨-, hfirst, hgroups⟩ := digitGroups_cons.mp hgroups
      exact ⟨c :: first, groups, digitGroups_cons.mpr
        ⟨by simp, List.forall_mem_cons.mpr ⟨hc, hfirst⟩, hgroups⟩, rfl, rfl⟩
    | case7 => cases h
  · rintro ⟨first, others, hgroups, rfl, rfl⟩
    induction others generalizing first with
    | nil =>
      obtain ⟨hne, hdigit, -⟩ := digitGroups_cons.mp hgroups
      rw [List.flatMap_nil, List.flatten_nil, List.append_nil, groupedDigits?_self hne hdigit]
    | cons next others ih =>
      obtain ⟨hne, hdigit, hothers⟩ := digitGroups_cons.mp hgroups
      rw [List.flatMap_cons, List.cons_append, groupedDigits?_group hne hdigit (ih next hothers),
        List.flatten_cons]

/-! ## Whole numbers in texts -/

/-- White space without the information separators. -/
theorem isBlank_of_isPadding {c : Char} (h : isPadding c = true) : isBlank c = true := by
  rw [isPadding] at h
  split at h
  · simp only [Bool.or_eq_true, beq_iff_eq, Bool.and_eq_true, decide_eq_true_eq] at h
    rcases h with rfl | ⟨hlow, hhigh⟩
    · rfl
    · rw [isBlank, blankRanges, inRanges, if_neg (by omega), if_pos hhigh]
  · exact h

inductive IsSign : List Char → Bool → Prop
  | none : IsSign [] false
  | plus : IsSign ['+'] false
  | minus : IsSign ['-'] true

/-- Whether a text is a whole number: white space, a sign or none, groups of digits with an
underscore between two of them, not too many digits in all, and white space. -/
def SpellsWhole (cs : List Char) (n : ℤ) : Prop :=
  ∃ lead sign negative first others trail,
    cs = lead ++ (sign ++ (first ++ others.flatMap ('_' :: ·)) ++ trail) ∧
    (∀ c ∈ lead, isPadding c = true) ∧ (∀ c ∈ trail, isPadding c = true) ∧
    IsSign sign negative ∧ DigitGroups (first :: others) ∧
    (first ++ others.flatten).length ≤ numeralLimit ∧
    n = if negative then -(natOfDigits (first ++ others.flatten) : ℤ)
      else natOfDigits (first ++ others.flatten)

def unpadded (cs : List Char) : List Char :=
  ((cs.dropWhile isPadding).reverse.dropWhile isPadding).reverse

theorem exists_padding (cs : List Char) : ∃ lead trail, cs = lead ++ (unpadded cs ++ trail) ∧
    (∀ c ∈ lead, isPadding c = true) ∧ ∀ c ∈ trail, isPadding c = true := by
  refine ⟨cs.takeWhile isPadding, ((cs.dropWhile isPadding).reverse.takeWhile isPadding).reverse,
    ?_, fun _ => of_mem_takeWhile, fun c hc => of_mem_takeWhile (List.mem_reverse.mp hc)⟩
  rw [unpadded, ← List.reverse_append, List.takeWhile_append_dropWhile, List.reverse_reverse,
    List.takeWhile_append_dropWhile]

/-- What neither begins nor ends with white space is left. -/
theorem unpadded_eq {lead mid trail : List Char} (hlead : ∀ c ∈ lead, isPadding c = true)
    (htrail : ∀ c ∈ trail, isPadding c = true) (hne : mid ≠ [])
    (hmid : ∀ c ∈ mid, isPadding c = false) : unpadded (lead ++ (mid ++ trail)) = mid := by
  have hstart : ∀ c, (mid ++ trail).head? = some c → isPadding c = false := by
    intro c hc
    rw [List.head?_append_of_ne_nil _ hne] at hc
    exact hmid c (List.mem_of_head? hc)
  have hend : ∀ c, mid.reverse.head? = some c → isPadding c = false :=
    fun c hc => hmid c (List.mem_reverse.mp (List.mem_of_head? hc))
  rw [unpadded, dropWhile_append_of_all hlead hstart, List.reverse_append,
    dropWhile_append_of_all (fun c hc => htrail c (List.mem_reverse.mp hc)) hend,
    List.reverse_reverse]

def signedWhole? (negative : Bool) (digits : List Char) : Option Int :=
  if numeralLimit < digits.length then none
  else some (if negative then -(natOfDigits digits : ℤ) else natOfDigits digits)

theorem exists_digit_of_groupedDigits? {cs digits : List Char}
    (h : groupedDigits? cs = some digits) :
    ∃ c rest, cs = c :: rest ∧ isDigit c = true := by
  obtain ⟨first, others, hgroups, rfl, -⟩ := groupedDigits?_eq_some_iff.mp h
  obtain ⟨hne, hdigit, -⟩ := digitGroups_cons.mp hgroups
  obtain ⟨c, rest, rfl⟩ := List.exists_cons_of_ne_nil hne
  exact ⟨c, rest ++ others.flatMap ('_' :: ·), rfl, hdigit c List.mem_cons_self⟩

/-- A text is read without the white space around it, behind a sign if there is one. -/
theorem readInt?_eq (s : String) : readInt? s =
    match unpadded s.toList with
    | '-' :: body => (groupedDigits? body).bind (signedWhole? true)
    | '+' :: body => (groupedDigits? body).bind (signedWhole? false)
    | body => (groupedDigits? body).bind (signedWhole? false) := by
  unfold readInt?
  rw [← unpadded]
  generalize unpadded s.toList = cs
  split
  · rfl
  · rfl
  · next hminus hplus =>
    dsimp only
    split
    · exact (hminus _ rfl).elim
    · exact (hplus _ rfl).elim
    · rfl

theorem readInt?_eq_some_iff {s : String} {n : ℤ} : readInt? s = some n ↔
    ∃ sign negative body digits, unpadded s.toList = sign ++ body ∧ IsSign sign negative ∧
      groupedDigits? body = some digits ∧ signedWhole? negative digits = some n := by
  rw [readInt?_eq]
  constructor
  · intro h
    split at h
    · next body hbody =>
      obtain ⟨digits, hdigits, hn⟩ := Option.bind_eq_some_iff.mp h
      exact ⟨['-'], true, body, digits, hbody, .minus, hdigits, hn⟩
    · next body hbody =>
      obtain ⟨digits, hdigits, hn⟩ := Option.bind_eq_some_iff.mp h
      exact ⟨['+'], false, body, digits, hbody, .plus, hdigits, hn⟩
    · obtain ⟨digits, hdigits, hn⟩ := Option.bind_eq_some_iff.mp h
      exact ⟨[], false, _, digits, rfl, .none, hdigits, hn⟩
  · rintro ⟨sign, negative, body, digits, hcs, hsign, hdigits, hn⟩
    rw [hcs]
    cases hsign with
    | minus => exact Option.bind_eq_some_iff.mpr ⟨digits, hdigits, hn⟩
    | plus => exact Option.bind_eq_some_iff.mpr ⟨digits, hdigits, hn⟩
    | none =>
      -- digits are no sign
      obtain ⟨c, rest, rfl, hc⟩ := exists_digit_of_groupedDigits? hdigits
      rw [List.nil_append]
      split
      · next heq =>
        cases heq
        exact absurd hc (by decide)
      · next heq =>
        cases heq
        exact absurd hc (by decide)
      · exact Option.bind_eq_some_iff.mpr ⟨digits, hdigits, hn⟩

theorem signedWhole?_eq_some_iff {negative : Bool} {digits : List Char} {n : ℤ} :
    signedWhole? negative digits = some n ↔ digits.length ≤ numeralLimit ∧
      n = if negative then -(natOfDigits digits : ℤ) else natOfDigits digits := by
  rw [signedWhole?]
  split
  · next hlong => simp [Nat.not_le.mpr hlong]
  · next hshort => simp [Nat.not_lt.mp hshort, eq_comm]

/-- No sign and no digit is white space, and neither is an underscore. -/
theorem isPadding_of_mem {sign first : List Char} {negative : Bool} {others : List (List Char)}
    (hsign : IsSign sign negative) (hgroups : DigitGroups (first :: others)) :
    ∀ c ∈ sign ++ (first ++ others.flatMap ('_' :: ·)), isPadding c = false := by
  have digit : ∀ {c}, isDigit c = true → isPadding c = false := by
    intro c hc
    rw [← Bool.not_eq_true]
    intro hpadding
    have hblank : isDigit c = false :=
      eq_false_of_isBlank (by decide +kernel) (isBlank_of_isPadding hpadding)
    rw [hc] at hblank
    cases hblank
  obtain ⟨-, hfirst, hothers⟩ := digitGroups_cons.mp hgroups
  intro c hc
  rcases List.mem_append.mp hc with hc | hc
  · cases hsign with
    | none => cases hc
    | plus =>
      obtain rfl := List.mem_singleton.mp hc
      rfl
    | minus =>
      obtain rfl := List.mem_singleton.mp hc
      rfl
  rcases List.mem_append.mp hc with hc | hc
  · exact digit (hfirst c hc)
  · obtain ⟨group, hgroup, hc⟩ := List.mem_flatMap.mp hc
    rcases List.mem_cons.mp hc with rfl | hc
    · rfl
    · exact digit (hothers.isDigit group hgroup c hc)

/-- A text is read as a whole number exactly when it spells it. -/
theorem readInt?_iff_spells {s : String} {n : ℤ} :
    readInt? s = some n ↔ SpellsWhole s.toList n := by
  rw [readInt?_eq_some_iff]
  constructor
  · rintro ⟨sign, negative, body, digits, hbody, hsign, hdigits, hn⟩
    obtain ⟨first, others, hgroups, rfl, rfl⟩ := groupedDigits?_eq_some_iff.mp hdigits
    obtain ⟨lead, trail, hcs, hlead, htrail⟩ := exists_padding s.toList
    obtain ⟨hlength, hvalue⟩ := signedWhole?_eq_some_iff.mp hn
    rw [hbody] at hcs
    exact ⟨lead, sign, negative, first, others, trail, hcs, hlead, htrail, hsign, hgroups,
      hlength, hvalue⟩
  · rintro ⟨lead, sign, negative, first, others, trail, hcs, hlead, htrail, hsign, hgroups,
      hlength, hvalue⟩
    have hne : sign ++ (first ++ others.flatMap ('_' :: ·)) ≠ [] := by
      simp [hgroups.ne_nil first List.mem_cons_self]
    rw [hcs, unpadded_eq hlead htrail hne (isPadding_of_mem hsign hgroups)]
    exact ⟨sign, negative, _, _, rfl, hsign,
      groupedDigits?_eq_some_iff.mpr ⟨first, others, hgroups, rfl, rfl⟩,
      signedWhole?_eq_some_iff.mpr ⟨hlength, hvalue⟩⟩

/-! ## Lengths -/

/-- The whole numbers that arguments stand for: a number without its fraction, or what a text
spells. -/
inductive StandsFor : Value → ℤ → Prop
  | number {n : Number} {q : ℚ} : n.worth? = some (.rational q) →
      StandsFor (.number n) (withoutFraction q)
  | text {t : Marked} {n : ℤ} : SpellsWhole t.text.toList n → StandsFor (.text t) n

theorem wholeNumber?_number (n : Number) : wholeNumber? (.number n) = n.truncate? := by
  cases n <;> rfl

theorem StandsFor.wholeNumber? {v : Value} {n : ℤ} (h : StandsFor v n) :
    Filter.wholeNumber? v = some n := by
  cases h with
  | number hworth => rw [wholeNumber?_number, Number.truncate?_of_rational hworth]
  | text hspells => exact readInt?_iff_spells.mpr hspells

/-- But for truth values, nothing else has a whole number. -/
theorem standsFor_of_wholeNumber? {v : Value} {n : ℤ} (hv : ∀ b, v ≠ .bool b)
    (h : wholeNumber? v = some n) : StandsFor v n := by
  cases v with
  | bool b => exact absurd rfl (hv b)
  | number m =>
    rw [wholeNumber?_number] at h
    obtain ⟨q, hq⟩ := Number.exists_rational_of_truncate? h
    obtain rfl := Option.some.inj (h.symm.trans (Number.truncate?_of_rational hq))
    exact .number hq
  | text t => exact .text (readInt?_iff_spells.mp h)
  | _ => cases h

/-- The lengths that arguments ask for.  Without a number other than zero it is the usual one, and a
true truth value asks for one character. -/
inductive AsksFor : List Value → ℤ → Prop
  | number {v : Value} {n : ℤ} : StandsFor v n → n ≠ 0 → AsksFor [v] n
  | truth : AsksFor [.bool true] 1
  | usual {arguments : List Value} :
      (∀ v ∈ arguments, v ≠ .bool true ∧ ∀ n, StandsFor v n → n = 0) → AsksFor arguments 50

theorem AsksFor.ne_zero {arguments : List Value} {n : ℤ} (h : AsksFor arguments n) : n ≠ 0 := by
  cases h with
  | number _ hne => exact hne
  | truth => decide
  | usual _ => decide

/-- The filter uses the length that is asked for. -/
theorem asksFor_iff {arguments : List Value} (h : arguments.length ≤ 1) {n : ℤ} :
    AsksFor arguments n ↔ lengthOf (arguments.headD (.ofInt defaultLength)) = n := by
  match arguments with
  | [] =>
    have husual : AsksFor [] 50 := .usual (by simp)
    constructor
    · intro hn
      cases hn
      rfl
    · rintro rfl
      exact husual
  | [v] =>
    rw [List.headD_cons]
    by_cases htrue : v = .bool true
    · subst htrue
      constructor
      · intro hn
        cases hn with
        | number hstands => cases hstands
        | truth => rfl
        | usual hnone => exact absurd rfl (hnone _ List.mem_cons_self).1
      · rintro rfl
        exact .truth
    -- A false truth value is read as zero, which is no length.
    have hwhole : ∀ {k}, wholeNumber? v = some k → k ≠ 0 → StandsFor v k := by
      intro k hk hne
      refine standsFor_of_wholeNumber? ?_ hk
      rintro b rfl
      cases b with
      | true => exact htrue rfl
      | false =>
        cases hk
        exact hne rfl
    rw [lengthOf]
    constructor
    · intro hn
      cases hn with
      | number hstands hne =>
        rw [hstands.wholeNumber?]
        exact if_neg hne
      | truth => exact absurd rfl htrue
      | usual hnone =>
        cases hread : wholeNumber? v with
        | none => rfl
        | some k =>
          dsimp only
          split
          · rfl
          · next hne => exact absurd ((hnone v List.mem_cons_self).2 k (hwhole hread hne)) hne
    · rintro rfl
      have husual : (∀ k, StandsFor v k → k = 0) → AsksFor [v] 50 := by
        intro hzero
        refine .usual fun u hu => ?_
        obtain rfl := List.mem_singleton.mp hu
        exact ⟨htrue, hzero⟩
      cases hread : wholeNumber? v with
      | none =>
        refine husual fun k hk => ?_
        rw [hk.wholeNumber?] at hread
        cases hread
      | some k =>
        dsimp only
        split
        · next hzero =>
          refine husual fun m hm => ?_
          rw [hm.wholeNumber?] at hread
          rw [Option.some.inj hread, hzero]
        · next hne => exact .number (hwhole hread hne) hne
  | _ :: _ :: _ => simp at h

/-! ## Shortening -/

/-- Whether a text is what another becomes when it is cut to a length: the same if that is long
enough for it, and otherwise its first characters and an ellipsis for what is dropped. -/
structure IsCut (length : Nat) (t r : Marked) : Prop where
  whole : t.text.toList.length ≤ length → r = t
  cut : length < t.text.toList.length → ∃ first dropped, t.text.toList = first ++ dropped ∧
    first.length = length ∧ dropped ≠ [] ∧ r = .plain (String.ofList (first ++ [ellipsis]))

/-- A cut text is at most one character longer than the length. -/
theorem IsCut.length_le {length : Nat} {t r : Marked} (h : IsCut length t r) :
    r.text.toList.length ≤ length + 1 := by
  by_cases hfits : t.text.toList.length ≤ length
  · rw [h.whole hfits]
    omega
  · obtain ⟨first, dropped, -, hfirst, -, rfl⟩ := h.cut (by omega)
    rw [Marked.plain, String.toList_ofList, List.length_append, hfirst]
    rfl

theorem shorten_eq (n : ℤ) (t : Marked) : shorten n t =
    if n < t.text.toList.length then
      .plain (String.ofList (firstChars n t.text.toList ++ [ellipsis]))
    else t := rfl

theorem isCut_shorten (length : Nat) (t : Marked) : IsCut length t (shorten length t) := by
  constructor
  · intro hfits
    rw [shorten_eq, if_neg (by omega)]
  · intro hlong
    have hfirst : firstChars length t.text.toList = t.text.toList.take length := by
      rw [firstChars, if_neg (by omega), Int.toNat_natCast]
    have hdropped : t.text.toList.drop length ≠ [] := by
      rw [← List.length_pos_iff, List.length_drop]
      omega
    rw [shorten_eq, if_pos (by omega), hfirst]
    exact ⟨_, _, (List.take_append_drop _ _).symm, List.length_take_of_le (by omega), hdropped, rfl⟩

/-- A negative number drops so many characters at the end, and there is an ellipsis even if there
were none to drop. -/
theorem shorten_neg {k : Nat} (hk : 0 < k) (t : Marked) : shorten (-k) t =
    .plain (String.ofList (t.text.toList.take (t.text.toList.length - k) ++ [ellipsis])) := by
  rw [shorten_eq, if_pos (by omega), firstChars, if_pos (by omega), Int.natAbs_neg,
    Int.natAbs_natCast]

theorem apply_truncate {v : Value} (hv : v ≠ .null) {arguments : List Value}
    (h : arguments.length ≤ 1) {n : ℤ} (hn : AsksFor arguments n) :
    truncate.apply v arguments = v.output.map fun t => .text (shorten n t) := by
  have hcall : truncate.callProblem? arguments.length = none := by
    match arguments with
    | [] => rfl
    | [_] => rfl
    | _ :: _ :: _ => simp at h
  have hbody : truncate.body v arguments = v.output >>= fun t =>
      .ok (.text (shorten (lengthOf (arguments.headD (.ofInt defaultLength))) t)) := by
    cases v with
    | null => exact absurd rfl hv
    | _ => rfl
  rw [Filter.apply, hcall]
  dsimp only
  rw [hbody, (asksFor_iff h).mp hn]
  cases v.output <;> rfl

/-- A text is cut to the length that is asked for: to that many characters with an ellipsis behind
them if it is longer, and not at all otherwise.  With a negative number it loses so many characters
at its end and always gets the ellipsis.  Every argument asks for one length, and a value without an
output gives the fault of its output. -/
theorem truncate_cuts {v : Value} (hv : v ≠ .null) {arguments : List Value}
    (h : arguments.length ≤ 1) :
    (∃ n, AsksFor arguments n ∧ ∀ m, AsksFor arguments m → m = n) ∧
    (∀ f, v.output = .error f → truncate.apply v arguments = .error f) ∧
    ∀ t, v.output = .ok t → ∃ r, truncate.apply v arguments = .ok (.text r) ∧
      (∀ length : Nat, AsksFor arguments length →
        IsCut length t r ∧ r.text.toList.length ≤ length + 1) ∧
      ∀ k : Nat, AsksFor arguments (-k) →
        r = .plain (String.ofList (t.text.toList.take (t.text.toList.length - k) ++
          [ellipsis])) := by
  obtain ⟨n, hn, hunique⟩ : ∃ n, AsksFor arguments n ∧ ∀ m, AsksFor arguments m → m = n :=
    ⟨_, (asksFor_iff h).mpr rfl, fun m hm => ((asksFor_iff h).mp hm).symm⟩
  refine ⟨⟨n, hn, hunique⟩, ?_, ?_⟩
  · intro f hf
    rw [apply_truncate hv h hn, hf]
    rfl
  · intro t ht
    refine ⟨shorten n t, ?_, ?_, ?_⟩
    · rw [apply_truncate hv h hn, ht]
      rfl
    · intro length hlength
      obtain rfl := hunique length hlength
      exact ⟨isCut_shorten length t, (isCut_shorten length t).length_le⟩
    · intro k hk
      obtain rfl := hunique (-k) hk
      refine shorten_neg (Nat.pos_of_ne_zero ?_) t
      rintro rfl
      exact hk.ne_zero rfl

/-- A list is cut by its output, to a length that is spelled with a sign and an underscore; a
negative length puts an ellipsis behind an empty text. -/
theorem truncate_cuts_spelled :
    (∃ r, truncate.apply (.list [.ofString "ab", .bool true]) [.ofString " +0_4\n"] =
        .ok (.text r) ∧ IsCut 4 (.plain "ab,true") r ∧ r.text.toList.length ≤ 5) ∧
      truncate.apply (.ofString "") [.ofInt (-1)] = .ok (.ofString "…") := by
  constructor
  · have hspells : SpellsWhole " +0_4\n".toList 4 :=
      ⟨[' '], ['+'], false, ['0'], [['4']], ['\n'], rfl, List.forall_mem_singleton.mpr rfl,
        List.forall_mem_singleton.mpr rfl, .plus, ⟨by simp, by simp; decide⟩, by decide, rfl⟩
    obtain ⟨-, -, hcut⟩ := @truncate_cuts (.list [.ofString "ab", .bool true])
      (fun hnull => by cases hnull) [.ofString " +0_4\n"] (by decide)
    obtain ⟨r, hr, hlength, -⟩ := hcut (.plain "ab,true") rfl
    exact ⟨r, hr, hlength 4 (.number (.text hspells) (by decide))⟩
  · obtain ⟨-, -, hcut⟩ := @truncate_cuts (.ofString "") (fun hnull => by cases hnull)
      [.ofInt (-1)] (by decide)
    obtain ⟨r, hr, -, hdrop⟩ := hcut (.plain "") rfl
    have hone : withoutFraction (-1 : ℤ) = -1 := withoutFraction_intCast (-1)
    have hasks : AsksFor [.ofInt (-1)] (-(1 : Nat)) := by
      have hstands : StandsFor (.ofInt (-1)) _ := .number rfl
      rw [hone] at hstands
      exact .number hstands (by decide)
    rw [hr, hdrop 1 hasks]
    rfl

end Filter
end Quill
