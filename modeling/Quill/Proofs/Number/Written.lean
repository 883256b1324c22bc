import Quill.Number.Decimal
import Quill.Proofs.Text.Numerals
import Quill.Proofs.Text.Words

/-!
Decimals written and read.

A finite number is written as its coefficient with a point, an exponent or both, from which the
coefficient and the exponent can be taken again (`Decimal.Writes`).  So every number that can be
written at all is read back as it was.
-/

namespace Quill
namespace Decimal

open Text

/-! ## The forms of finite numbers -/

inductive Ending : List Char → Int → Prop
  | bare : Ending [] 0
  | marked (k : Int) :
      Ending ('E' :: (if k < 0 then '-' else '+') :: Nat.toDigits 10 k.natAbs) k

/-- The texts of a coefficient and an exponent: digits, which may have a point among them, and an
ending. -/
inductive Writes : List Char → Nat → Int → Prop
  | whole {whole tail : List Char} {k : Int} : whole ≠ [] → (∀ d ∈ whole, d.isDigit = true) →
      Ending tail k → Writes (whole ++ tail) (natOfDigits whole) k
  | point {whole fraction tail : List Char} {k : Int} : whole ≠ [] →
      (∀ d ∈ whole, d.isDigit = true) → (∀ d ∈ fraction, d.isDigit = true) → Ending tail k →
      Writes (whole ++ '.' :: (fraction ++ tail)) (natOfDigits (whole ++ fraction))
        (k - fraction.length)

variable {s : Bool} {cs : List Char} {c : Nat} {e : Int}

theorem writes_withPoint {digits : List Char} (hdigits : ∀ d ∈ digits, d.isDigit = true)
    (places : Nat) : Writes (withPoint digits places) (natOfDigits digits) (-places) := by
  have hlength : (List.replicate (places + 1 - digits.length) '0' ++ digits).length =
      places + 1 - digits.length + digits.length := by simp
  have hfilled : ∀ d ∈ List.replicate (places + 1 - digits.length) '0' ++ digits,
      d.isDigit = true := by
    intro d hd
    rcases List.mem_append.mp hd with hd | hd
    · rw [List.eq_of_mem_replicate hd]
      rfl
    · exact hdigits d hd
  rw [withPoint, ← natOfDigits_replicate_append (places + 1 - digits.length) digits]
  generalize List.replicate (places + 1 - digits.length) '0' ++ digits = filled at *
  have hne : filled.take (filled.length - places) ≠ [] := by
    rw [← List.length_pos_iff, List.length_take]
    omega
  have hwhole : ∀ d ∈ filled.take (filled.length - places), d.isDigit = true :=
    fun d hd => hfilled d (List.mem_of_mem_take hd)
  have hfraction : ∀ d ∈ filled.drop (filled.length - places), d.isDigit = true :=
    fun d hd => hfilled d (List.mem_of_mem_drop hd)
  have hplaces : (filled.drop (filled.length - places)).length = places := by
    rw [List.length_drop]
    omega
  have hwrites := Writes.point hne hwhole hfraction .bare
  rwa [List.append_nil, List.take_append_drop, hplaces, Int.zero_sub] at hwrites

/-- A finite number is written in one of the forms. -/
theorem writes_finiteText (c : Nat) (e : Int) : Writes (finiteText c e) c e := by
  have hdigits : ∀ d ∈ Nat.toDigits 10 c, d.isDigit = true := fun _ => isDigit_of_mem_toDigits
  have hne : Nat.toDigits 10 c ≠ [] := Nat.toDigits_ne_nil
  have hnumber := natOfDigits_toDigits c
  rw [finiteText]
  split
  case isTrue he =>
    subst he
    have hwrites := Writes.whole hne hdigits .bare
    rwa [List.append_nil, hnumber] at hwrites
  case isFalse =>
    split
    case isTrue hpoint =>
      have hplaces : -(((-e).toNat : Nat) : Int) = e := by omega
      have hwrites := writes_withPoint hdigits (-e).toNat
      rwa [hnumber, hplaces] at hwrites
    case isFalse =>
      -- The exponent that is written is that of the first digit.
      have hfirst : adjusted c e = e + (Nat.toDigits 10 c).length - 1 := rfl
      generalize adjusted c e = first at *
      have hending := Ending.marked first
      generalize Nat.toDigits 10 c = digits at *
      cases digits with
      | nil => exact absurd rfl hne
      | cons d rest =>
        obtain ⟨hd, hrest⟩ := List.forall_mem_cons.mp hdigits
        have hone : ∀ x ∈ [d], x.isDigit = true := List.forall_mem_singleton.mpr hd
        cases rest with
        | nil =>
          obtain rfl : first = e := by simpa using hfirst
          have hwrites := Writes.whole (by simp) hone hending
          rw [hnumber] at hwrites
          exact hwrites
        | cons d' rest =>
          have hall : natOfDigits ([d] ++ d' :: rest) = c := hnumber
          have hplaces : first - (d' :: rest).length = e := by
            simp only [List.length_cons] at hfirst ⊢
            omega
          have hwrites := Writes.point (by simp) hone hrest hending
          rw [hall, hplaces] at hwrites
          exact hwrites

/-! ## Reading finite numbers -/

theorem readNat?_toDigits (n : Nat) : readNat? (Nat.toDigits 10 n) = some n := by
  have hdigits : (Nat.toDigits 10 n).all isDigit = true :=
    List.all_eq_true.mpr fun _ hc => isDigit_of_plain (isDigit_of_mem_toDigits hc)
  have hne : (Nat.toDigits 10 n).isEmpty = false := by
    rw [List.isEmpty_eq_false_iff]
    exact Nat.toDigits_ne_nil
  rw [readNat?, hne, hdigits, natOfDigits_toDigits]
  rfl

theorem readExponent?_toDigits (k : Int) :
    readExponent? ((if k < 0 then '-' else '+') :: Nat.toDigits 10 k.natAbs) = some k := by
  split
  · next hneg =>
    rw [readExponent?, readNat?_toDigits, Option.map_some, Int.ofNat_eq_natCast]
    exact congrArg some (by omega)
  · next hpos =>
    rw [readExponent?, readNat?_toDigits, Option.map_some, Int.ofNat_eq_natCast]
    exact congrArg some (by omega)

theorem Ending.head {tail : List Char} (h : Ending tail e) :
    ∀ d, tail.head? = some d → isDigit d = false := by
  intro d hd
  cases h with
  | bare => cases hd
  | marked =>
    cases hd
    decide +kernel

/-- The digits that a text begins with are told from what follows. -/
theorem takeWhile_plain {digits behind : List Char} (hdigits : ∀ d ∈ digits, d.isDigit = true)
    (hbehind : ∀ d, behind.head? = some d → isDigit d = false) :
    (digits ++ behind).takeWhile isDigit = digits ∧
      (digits ++ behind).dropWhile isDigit = behind :=
  ⟨takeWhile_append_of_all (fun d hd => isDigit_of_plain (hdigits d hd)) hbehind,
    dropWhile_append_of_all (fun d hd => isDigit_of_plain (hdigits d hd)) hbehind⟩

/-- What is written in one of the forms is read as it is meant, if the number is in range. -/
theorem Writes.readFinite? (h : Writes cs c e) : readFinite? s cs = ofWritten? s c e := by
  cases h with
  | whole hne hwhole htail =>
    obtain ⟨htake, hdrop⟩ := takeWhile_plain hwhole htail.head
    rw [Decimal.readFinite?, htake, hdrop]
    cases htail with
    | bare => simp [hne]
    | marked => simp [hne, readExponent?_toDigits]
  | @point whole fraction tail k hne hwhole hfraction htail =>
    have hpoint : ∀ d, ('.' :: (fraction ++ tail)).head? = some d → isDigit d = false := by
      intro d hd
      obtain rfl : '.' = d := Option.some.inj hd
      decide +kernel
    obtain ⟨htake, hdrop⟩ := takeWhile_plain hwhole hpoint
    obtain ⟨htake', hdrop'⟩ := takeWhile_plain hfraction htail.head
    rw [Decimal.readFinite?, htake, hdrop]
    cases htail with
    | bare =>
      rw [List.append_nil] at htake' hdrop'
      simp [hne, htake', hdrop']
    | marked => simp [hne, htake', hdrop', readExponent?_toDigits]

/-! ## Characters -/

theorem ne_of_isDigit {d x : Char} (hd : d.isDigit = true) (hx : x.isDigit = false) : d ≠ x := by
  rintro rfl
  rw [hd] at hx
  cases hx

theorem toLower_of_isDigit {d : Char} (h : d.isDigit = true) : d.toLower = d := by
  obtain ⟨hlow, hhigh⟩ : 48 ≤ d.toNat ∧ d.toNat ≤ 57 := by
    simpa [Char.isDigit, UInt32.le_iff_toNat_le] using h
  have hupper : ¬ (65 ≤ d.val ∧ d.val ≤ 90) := by
    rw [UInt32.le_iff_toNat_le, UInt32.le_iff_toNat_le]
    intro hletter
    have hle : 65 ≤ d.toNat := hletter.1
    omega
  exact dif_neg hupper

theorem Writes.head (h : Writes cs c e) : ∃ d rest, cs = d :: rest ∧ d.isDigit = true := by
  have hhead : ∀ {whole : List Char}, whole ≠ [] → (∀ d ∈ whole, d.isDigit = true) →
      ∀ behind, ∃ d rest, whole ++ behind = d :: rest ∧ d.isDigit = true := by
    intro whole hne hwhole behind
    obtain ⟨d, rest, rfl⟩ := List.exists_cons_of_ne_nil hne
    exact ⟨d, rest ++ behind, rfl, hwhole d List.mem_cons_self⟩
  cases h with
  | whole hne hwhole => exact hhead hne hwhole _
  | point hne hwhole => exact hhead hne hwhole _

theorem Ending.mem {tail : List Char} (h : Ending tail e) :
    ∀ x ∈ tail, x.isDigit = true ∨ x ∈ ['.', 'E', '+', '-'] := by
  intro x hx
  cases h with
  | bare => cases hx
  | marked k =>
    rcases List.mem_cons.mp hx with rfl | hx
    · exact .inr (by decide)
    rcases List.mem_cons.mp hx with rfl | hx
    · split
      · exact .inr (by decide)
      · exact .inr (by decide)
    · exact .inl (isDigit_of_mem_toDigits hx)

/-- Finite numbers are written with digits and four marks. -/
theorem Writes.mem (h : Writes cs c e) :
    ∀ x ∈ cs, x.isDigit = true ∨ x ∈ ['.', 'E', '+', '-'] := by
  intro x hx
  cases h with
  | whole hne hwhole htail =>
    rcases List.mem_append.mp hx with hx | hx
    · exact .inl (hwhole x hx)
    · exact htail.mem x hx
  | point hne hwhole hfraction htail =>
    rcases List.mem_append.mp hx with hx | hx
    · exact .inl (hwhole x hx)
    rcases List.mem_cons.mp hx with rfl | hx
    · exact .inr (by decide)
    rcases List.mem_append.mp hx with hx | hx
    · exact .inl (hfraction x hx)
    · exact htail.mem x hx

theorem Writes.ne_underscore (h : Writes cs c e) : ∀ x ∈ cs, x ≠ '_' := by
  intro x hx
  rcases h.mem x hx with hdigit | hmark
  · exact ne_of_isDigit hdigit rfl
  · rintro rfl
    exact absurd hmark (by decide)

/-! ## Reading with a sign -/

/-- A number in one of the forms is read behind a sign. -/
theorem Writes.read? (h : Writes cs c e) : read? (signText s cs) = ofWritten? s c e := by
  rw [← h.readFinite?]
  have hkept := h.ne_underscore
  obtain ⟨d, rest, rfl, hd⟩ := h.head
  have hfilter : (signText s (d :: rest)).filter (fun x => x != '_') = signText s (d :: rest) := by
    refine List.filter_eq_self.mpr fun x hx => bne_iff_ne.mpr ?_
    cases s with
    | false => exact hkept x hx
    | true =>
      rcases List.mem_cons.mp hx with rfl | hx
      · decide
      · exact hkept x hx
  have hi : d ≠ 'i' := ne_of_isDigit hd rfl
  have hs : 's' ≠ d := (ne_of_isDigit hd rfl).symm
  have hn : 'n' ≠ d := (ne_of_isDigit hd rfl).symm
  rw [Decimal.read?, hfilter]
  cases s with
  | true => simp [signText, toLower_of_isDigit hd, hi, hs, hn]
  | false =>
    have hminus : d ≠ '-' := ne_of_isDigit hd rfl
    have hplus : d ≠ '+' := ne_of_isDigit hd rfl
    simp [signText, toLower_of_isDigit hd, hminus, hplus, hi, hs, hn]

/-- What is no number is read with its digits. -/
theorem read?_nan (s signaling : Bool) (payload : Nat) :
    read? (toText (.nan s signaling payload)).toList = some (.nan s signaling payload) := by
  have hdigits : ∀ d ∈ (if payload = 0 then [] else Nat.toDigits 10 payload),
      d.isDigit = true := by
    intro d hd
    split at hd
    · cases hd
    · exact isDigit_of_mem_toDigits hd
  have hpayload : readPayload? (if payload = 0 then [] else Nat.toDigits 10 payload) =
      some payload := by
    split
    · next hzero =>
      subst hzero
      rfl
    · rw [readPayload?, if_neg (by simp [Nat.toDigits_ne_nil]), readNat?_toDigits]
  rw [toText, String.toList_ofList]
  generalize (if payload = 0 then [] else Nat.toDigits 10 payload) = digits at *
  have hfilter : digits.filter (fun x => x != '_') = digits :=
    List.filter_eq_self.mpr fun d hd => bne_iff_ne.mpr (ne_of_isDigit (hdigits d hd) rfl)
  have hlow : digits.map Char.toLower = digits :=
    (List.map_congr_left fun d hd => toLower_of_isDigit (hdigits d hd)).trans (List.map_id _)
  cases s <;> cases signaling <;> simp [Decimal.read?, signText, hfilter, hlow, hpayload]

/-! ## Numbers in range -/

def InRange : Decimal → Prop
  | .finite _ c e => adjusted c e ≤ writtenLimit ∧ -writtenLimit - writtenLimit + 1 ≤ e
  | .infinity _ => True
  | .nan .. => True

theorem ofWritten?_of_inRange (h : (finite s c e).InRange) :
    ofWritten? s c e = some (.finite s c e) := by
  have hlimits : ¬ (writtenLimit < adjusted c e ∨ e < -writtenLimit - writtenLimit + 1) := by
    rintro (hlt | hlt)
    · exact absurd h.1 (by omega)
    · exact absurd h.2 (by omega)
  exact if_neg hlimits

/-- A number in range is read as it is written. -/
theorem ofText?_toText {d : Decimal} (h : d.InRange) : ofText? d.toText = some d := by
  cases d with
  | nan s signaling payload => exact read?_nan s signaling payload
  | infinity s => cases s <;> rfl
  | finite s c e =>
    rw [ofText?, toText, String.toList_ofList, (writes_finiteText c e).read?,
      ofWritten?_of_inRange h]

theorem inRange_of_ofWritten? {d : Decimal} (h : ofWritten? s c e = some d) : d.InRange := by
  rw [ofWritten?] at h
  split at h
  · cases h
  · next hlimits =>
    cases h
    exact ⟨by omega, by omega⟩

theorem inRange_of_readFinite? {d : Decimal} (h : Decimal.readFinite? s cs = some d) :
    d.InRange := by
  rw [Decimal.readFinite?] at h
  dsimp only at h
  split at h
  all_goals
    split at h
    · cases h
    · obtain ⟨k, -, hwritten⟩ := Option.bind_eq_some_iff.mp h
      exact inRange_of_ofWritten? hwritten

/-- The numbers in range are those that some text spells. -/
theorem inRange_iff {d : Decimal} : d.InRange ↔ ∃ text, ofText? text = some d := by
  constructor
  · exact fun h => ⟨d.toText, ofText?_toText h⟩
  · rintro ⟨text, h⟩
    rw [ofText?, Decimal.read?] at h
    dsimp only at h
    -- The sign decides nothing about the range.
    split at h
    all_goals
      split at h
      · cases h
        trivial
      split at h
      · obtain ⟨payload, -, rfl⟩ := Option.map_eq_some_iff.mp h
        trivial
      split at h
      · obtain ⟨payload, -, rfl⟩ := Option.map_eq_some_iff.mp h
        trivial
      · exact inRange_of_readFinite? h

/-! ## White space -/

theorem isBlank_of_isDigit {d : Char} (h : d.isDigit = true) : isBlank d = false := by
  rw [← Bool.not_eq_true]
  intro hblank
  have hdigit : d.isDigit = false := eq_false_of_isBlank (by decide +kernel) hblank
  rw [h] at hdigit
  cases hdigit

/-- The text of a number has no white space. -/
theorem isBlank_of_mem_toText {d : Decimal} : ∀ x ∈ d.toText.toList, isBlank x = false := by
  have hsign : ∀ {s : Bool} {cs : List Char}, (∀ x ∈ cs, isBlank x = false) →
      ∀ x ∈ signText s cs, isBlank x = false := by
    intro s cs hcs
    cases s with
    | false => exact hcs
    | true => exact List.forall_mem_cons.mpr ⟨by decide +kernel, hcs⟩
  cases d with
  | infinity s =>
    rw [toText, String.toList_ofList]
    exact hsign (isBlank_of_all rfl)
  | nan s signaling payload =>
    have hname : ∀ x ∈ (if signaling then "sNaN".toList else "NaN".toList),
        isBlank x = false := by
      cases signaling <;> exact isBlank_of_all rfl
    rw [toText, String.toList_ofList]
    refine hsign fun x hx => ?_
    rcases List.mem_append.mp hx with hx | hx
    · exact hname x hx
    · split at hx
      · cases hx
      · exact isBlank_of_isDigit (isDigit_of_mem_toDigits hx)
  | finite s c e =>
    have hmarks : ∀ x ∈ ['.', 'E', '+', '-'], isBlank x = false := isBlank_of_all rfl
    rw [toText, String.toList_ofList]
    refine hsign fun x hx => ?_
    rcases (writes_finiteText c e).mem x hx with hdigit | hmark
    · exact isBlank_of_isDigit hdigit
    · exact hmarks x hmark

theorem trimmed_toText (d : Decimal) : trimmed d.toText = d.toText := by
  rw [trimmed, trim_of_forall isBlank_of_mem_toText, String.ofList_toList]

/-! ## Whole numbers -/

/-- A whole number is written as its decimal is. -/
theorem toText_ofInt (n : Int) : (ofInt n).toText = intText n := by
  have hfinite : finiteText n.natAbs 0 = Nat.toDigits 10 n.natAbs := by
    rw [finiteText]
    exact if_pos rfl
  rw [ofInt, toText, hfinite, intText]
  split
  · next hneg =>
    rw [decide_eq_true hneg, ← String.toList_inj]
    simp [signText, natText]
  · next hpos =>
    rw [decide_eq_false hpos]
    rfl

theorem inRange_ofInt {n : Int} (h : n.natAbs < Nat.pow 10 numeralLimit) : (ofInt n).InRange := by
  have hdigits := (length_toDigits_le_iff (by decide)).mpr h
  have hadjusted : adjusted n.natAbs 0 = (Nat.toDigits 10 n.natAbs).length - 1 := by
    rw [adjusted, Int.zero_add]
    rfl
  have hlimit : numeralLimit = 4300 := rfl
  have hwritten : writtenLimit = 999999999999999999 := rfl
  exact ⟨by rw [hadjusted]; omega, by omega⟩

end Decimal
end Quill
