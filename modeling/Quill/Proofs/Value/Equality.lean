import Quill.Proofs.Number.Worth
import Quill.Proofs.Value.Inside
import Quill.Value.Operator

/-!
Equality of values.

`Value.Same` says what equality is: values of one kind with the same content, items in one place and
entries under one key being the same in turn.  The comparison decides it for values whose maps have
distinct keys.  It is symmetric and transitive, and a value is equal to itself exactly when nothing
that is not a number lies in it.  Whether items stand in a list or in a tuple, and in which order a
map has its keys, makes no difference at any depth (`Value.Recast`).
-/

namespace Quill

namespace Value

def KeysDistinct (v : Value) : Prop :=
  v.Everywhere fun w => ∀ entries, w = .map entries → (Assoc.keys entries).Nodup

variable {u v w : Value}

theorem keysDistinct_of_single (h : v.elements? = none) : v.KeysDistinct := by
  refine everywhere_iff.mpr ⟨fun entries hv => ?_, by simp [parts, h]⟩
  rw [hv] at h
  cases h

theorem keysDistinct_of_items {items : List Value} (h : v.items? = some items)
    (hitems : ∀ w ∈ items, w.KeysDistinct) : v.KeysDistinct := by
  refine everywhere_iff.mpr ⟨fun entries hv => ?_, by rwa [parts_of_items h]⟩
  rw [hv] at h
  cases h

/-- A map that is written entry by entry has distinct keys. -/
theorem keysDistinct_ofEntries {entries : List (String × Value)}
    (h : ∀ row ∈ entries, row.2.KeysDistinct) : (ofEntries entries).KeysDistinct := by
  refine everywhere_map ?_ fun row hrow => ?_
  · intro rows hrows
    cases hrows
    exact @Assoc.nodup_keys_setAll _ [] List.nodup_nil entries
  · exact h row ((Assoc.mem_of_mem_setAll hrow).resolve_left List.not_mem_nil)

theorem KeysDistinct.nodup {entries : Assoc Value} (h : (Value.map entries).KeysDistinct) :
    (Assoc.keys entries).Nodup := h.self entries rfl

/-! ## Comparing parts -/

theorem equalItems_iff {as bs : List Value} :
    equalItems as bs = true ↔
      as.length = bs.length ∧
        ∀ (i : Nat) (a b : Value), as[i]? = some a → bs[i]? = some b → a.equal b = true := by
  induction as generalizing bs with
  | nil =>
    cases bs with
    | nil => simp [equalItems]
    | cons b bs => simp [equalItems]
  | cons a as ih =>
    cases bs with
    | nil => simp [equalItems]
    | cons b bs =>
      rw [equalItems, Bool.and_eq_true, ih, List.length_cons, List.length_cons]
      constructor
      · rintro ⟨hhead, hlen, htail⟩
        refine ⟨congrArg _ hlen, fun i => ?_⟩
        cases i with
        | zero => simpa using hhead
        | succ i => simpa using htail i
      · rintro ⟨hlen, hall⟩
        exact ⟨hall 0 a b rfl rfl, Nat.succ.inj hlen, fun i => by simpa using hall (i + 1)⟩

theorem equalEntries_iff {as bs : Assoc Value} :
    equalEntries as bs = true ↔
      ∀ row ∈ as, ∃ b, Assoc.get? row.1 bs = some b ∧ row.2.equal b = true := by
  induction as with
  | nil => simp [equalEntries]
  | cons row rest ih =>
    obtain ⟨key, a⟩ := row
    rw [equalEntries, Bool.and_eq_true, ih, List.forall_mem_cons]
    cases Assoc.get? key bs with
    | none => simp
    | some b => simp

theorem kind_of_items {as : List Value} (h : v.items? = some as) : v.kind = .list := by
  cases v with
  | list _ => rfl
  | tuple _ => rfl
  | _ => cases h

theorem truth_of_items {as : List Value} (h : v.items? = some as) : v.truth? = some true := by
  cases v with
  | list _ => rfl
  | tuple _ => rfl
  | _ => cases h

theorem isNaN_of_items {as : List Value} (h : v.items? = some as) : v.isNaN = false := by
  cases v with
  | number n => cases h
  | _ => rfl

theorem exists_getElem?_of_length_eq {α β : Type} {as : List α} {bs : List β} {i : Nat} {a : α}
    (h : as.length = bs.length) (ha : as[i]? = some a) : ∃ b, bs[i]? = some b :=
  ⟨_, List.getElem?_eq_getElem (h ▸ (List.getElem?_eq_some_iff.mp ha).1)⟩

theorem equal_of_items {as bs : List Value} (hv : v.items? = some as) (hw : w.items? = some bs) :
    v.equal w = equalItems as bs := by
  cases v with
  | list _ =>
    cases hv
    cases w with
    | list _ =>
      cases hw
      rw [equal]
    | tuple _ =>
      cases hw
      rw [equal]
    | _ => cases hw
  | tuple _ =>
    cases hv
    cases w with
    | list _ =>
      cases hw
      rw [equal]
    | tuple _ =>
      cases hw
      rw [equal]
    | _ => cases hw
  | _ => cases hv

/-- Maps with distinct keys are equal when they have the same keys and equal values under them. -/
theorem equal_map_iff {as bs : Assoc Value} (has : (Assoc.keys as).Nodup)
    (hbs : (Assoc.keys bs).Nodup) :
    (Value.map as).equal (.map bs) = true ↔
      (∀ key, key ∈ Assoc.keys as ↔ key ∈ Assoc.keys bs) ∧
        ∀ (key : String) (a b : Value), (key, a) ∈ as → (key, b) ∈ bs → a.equal b = true := by
  rw [equal, Bool.and_eq_true, equalEntries_iff, beq_iff_eq]
  constructor
  · rintro ⟨hlen, hall⟩
    have hsub : Assoc.keys as ⊆ Assoc.keys bs := by
      intro key hkey
      obtain ⟨a, ha⟩ := Assoc.exists_of_mem_keys hkey
      obtain ⟨b, hb, -⟩ := hall (key, a) ha
      exact Assoc.mem_keys (Assoc.mem_of_get? hb)
    have hperm : (Assoc.keys as).Perm (Assoc.keys bs) :=
      (has.subperm hsub).perm_of_length_le (by simp [Assoc.keys, hlen])
    refine ⟨fun key => hperm.mem_iff, fun key a b ha hb => ?_⟩
    obtain ⟨b', hb', hequal⟩ := hall (key, a) ha
    rwa [Assoc.value_unique hbs hb (Assoc.mem_of_get? hb')]
  · rintro ⟨hkeys, hall⟩
    have hperm := (List.perm_ext_iff_of_nodup has hbs).mpr hkeys
    refine ⟨by simpa [Assoc.keys] using hperm.length_eq, fun row hrow => ?_⟩
    obtain ⟨b, hb⟩ := Assoc.exists_of_mem_keys ((hkeys row.1).mp (Assoc.mem_keys hrow))
    exact ⟨b, (Assoc.get?_eq_some_iff hbs).mpr hb, hall row.1 row.2 b hrow hb⟩

/-! ## What equality is -/

/-- Equality by kind and content: numbers are the same when they stand for the same, texts when
their characters are, times when they are one instant, and what has parts when its parts are. -/
inductive Same : Value → Value → Prop
  | null : Same .null .null
  | bool (b : Bool) : Same (.bool b) (.bool b)
  | number {a b : Number} {x : Worth} :
      a.worth? = some x → b.worth? = some x → Same (.number a) (.number b)
  | text {s t : Marked} : s.text = t.text → Same (.text s) (.text t)
  | items {v w : Value} {as bs : List Value} :
      v.items? = some as → w.items? = some bs → as.length = bs.length →
      (∀ (i : Nat) (a b : Value), as[i]? = some a → bs[i]? = some b → Same a b) → Same v w
  | map {as bs : Assoc Value} :
      (∀ key, key ∈ Assoc.keys as ↔ key ∈ Assoc.keys bs) →
      (∀ (key : String) (a b : Value), (key, a) ∈ as → (key, b) ∈ bs → Same a b) →
      Same (.map as) (.map bs)
  | date (d : Date) : Same (.date d) (.date d)
  | dateTime {s t : DateTime} : s.instant = t.instant → Same (.dateTime s) (.dateTime t)

theorem equal_of_same (h : Same v w) (hv : v.KeysDistinct) (hw : w.KeysDistinct) :
    v.equal w = true := by
  induction h with
  | null => rfl
  | bool b => simp [equal]
  | number ha hb =>
    rw [equal, Number.equal?_iff.mpr ⟨_, ha, hb⟩]
    rfl
  | text hst => simp [equal, hst]
  | items hvs hws hlen _ ih =>
    rw [equal_of_items hvs hws, equalItems_iff]
    exact ⟨hlen, fun i a b ha hb => ih i a b ha hb
      (hv.of_mem_items hvs (List.mem_of_getElem? ha))
      (hw.of_mem_items hws (List.mem_of_getElem? hb))⟩
  | map hkeys _ ih =>
    rw [equal_map_iff hv.nodup hw.nodup]
    exact ⟨hkeys, fun key a b ha hb => ih key a b ha hb (hv.of_mem_entries ha)
      (hw.of_mem_entries hb)⟩
  | date d => simp [equal]
  | dateTime hst => simp [equal, hst]

theorem same_of_equal (h : v.equal w = true) (hv : v.KeysDistinct) (hw : w.KeysDistinct) :
    Same v w := by
  induction v using induction_on_parts generalizing w with
  | step v ih =>
    have items : ∀ {as bs : List Value}, v.items? = some as → w.items? = some bs → Same v w := by
      intro as bs hvs hws
      rw [equal_of_items hvs hws, equalItems_iff] at h
      refine .items hvs hws h.1 fun i a b ha hb => ?_
      have hmem := List.mem_of_getElem? ha
      exact ih a (by rwa [parts_of_items hvs]) (h.2 i a b ha hb) (hv.of_mem_items hvs hmem)
        (hw.of_mem_items hws (List.mem_of_getElem? hb))
    revert h
    fun_cases equal v w <;> intro h
    case case1 => exact .null
    case case2 a b =>
      obtain rfl := beq_iff_eq.mp h
      exact .bool a
    case case3 a b =>
      -- A comparison that is refused does not say that the numbers are equal.
      cases hab : a.equal? b with
      | none => simp [hab] at h
      | some same =>
        obtain rfl : same = true := by simpa [hab] using h
        obtain ⟨x, ha, hb⟩ := Number.equal?_iff.mp hab
        exact .number ha hb
    case case4 => exact .text (beq_iff_eq.mp h)
    case case5 | case6 | case7 | case8 => exact items rfl rfl
    case case9 as bs =>
      obtain ⟨hkeys, hall⟩ := (equal_map_iff hv.nodup hw.nodup).mp h
      exact .map hkeys fun key a b ha hb => ih a (mem_parts_of_mem_entries ha) (hall key a b ha hb)
        (hv.of_mem_entries ha) (hw.of_mem_entries hb)
    case case10 a b =>
      obtain rfl := beq_iff_eq.mp h
      exact .date a
    case case11 => exact .dateTime (beq_iff_eq.mp h)
    case case12 => cases h

theorem equal_iff_same (hv : v.KeysDistinct) (hw : w.KeysDistinct) :
    v.equal w = true ↔ Same v w :=
  ⟨fun h => same_of_equal h hv hw, fun h => equal_of_same h hv hw⟩

namespace Same

theorem of_items {as : List Value} (h : Same v w) (hv : v.items? = some as) :
    ∃ bs, w.items? = some bs ∧ as.length = bs.length ∧
      ∀ (i : Nat) (a b : Value), as[i]? = some a → bs[i]? = some b → Same a b := by
  cases h with
  | items hv' hw hlen hparts =>
    cases hv.symm.trans hv'
    exact ⟨_, hw, hlen, hparts⟩
  | _ => cases hv

theorem symm (h : Same v w) : Same w v := by
  induction h with
  | null => exact .null
  | bool b => exact .bool b
  | number ha hb => exact .number hb ha
  | text hst => exact .text hst.symm
  | items hv hw hlen _ ih => exact .items hw hv hlen.symm fun i b a hb ha => ih i a b ha hb
  | map hkeys _ ih => exact .map (fun key => (hkeys key).symm) fun key b a hb ha => ih key a b ha hb
  | date d => exact .date d
  | dateTime hst => exact .dateTime hst.symm

theorem trans (h : Same u v) (h' : Same v w) : Same u w := by
  induction h generalizing w with
  | null => exact h'
  | bool b => exact h'
  | number ha hb =>
    cases h' with
    | number hb' hc =>
      cases hb.symm.trans hb'
      exact .number ha hc
    | items hv => cases hv
  | text hst =>
    cases h' with
    | text htr => exact .text (hst.trans htr)
    | items hv => cases hv
  | @items u v as bs hu hv hlen _ ih =>
    obtain ⟨cs, hw, hlen', hparts⟩ := h'.of_items hv
    refine .items hu hw (hlen.trans hlen') fun i a c ha hc => ?_
    obtain ⟨b, hb⟩ := exists_getElem?_of_length_eq hlen ha
    exact ih i a b ha hb (hparts i b c hb hc)
  | map hkeys _ ih =>
    cases h' with
    | map hkeys' hparts =>
      refine .map (fun key => (hkeys key).trans (hkeys' key)) fun key a c ha hc => ?_
      obtain ⟨b, hb⟩ := Assoc.exists_of_mem_keys ((hkeys key).mp (Assoc.mem_keys ha))
      exact ih key a b ha hb (hparts key b c hb hc)
    | items hv => cases hv
  | date d => exact h'
  | dateTime hst =>
    cases h' with
    | dateTime htr => exact .dateTime (hst.trans htr)
    | items hv => cases hv

theorem kind_eq (h : Same v w) : v.kind = w.kind := by
  cases h with
  | items hv hw _ _ => rw [kind_of_items hv, kind_of_items hw]
  | _ => rfl

/-- What is the same counts as true or not alike, and never refuses the question. -/
theorem truth (h : Same v w) : ∃ b, v.truth? = some b ∧ w.truth? = some b := by
  cases h with
  | number ha hb => exact ⟨_, Number.truth?_of_worth ha, Number.truth?_of_worth hb⟩
  | text hst => exact ⟨_, rfl, by rw [truth?, hst]⟩
  | items hv hw _ _ => exact ⟨true, truth_of_items hv, truth_of_items hw⟩
  | _ => exact ⟨_, rfl, rfl⟩

/-- Nothing that is not a number lies in a value that is the same as another. -/
theorem numbers (h : Same v w) (hv : v.KeysDistinct) :
    v.Everywhere fun x => x.isNaN = false := by
  induction h with
  | @number a b x ha hb =>
    refine everywhere_of_single ?_ rfl nofun
    rw [isNaN, ← Bool.not_eq_true, ← Number.worth?_eq_none_iff, ha]
    simp
  | @items v w as bs hvs hws hlen _ ih =>
    refine everywhere_iff.mpr ⟨isNaN_of_items hvs, fun a ha => ?_⟩
    rw [parts_of_items hvs] at ha
    obtain ⟨i, ha'⟩ := List.mem_iff_getElem?.mp ha
    obtain ⟨b, hb⟩ := exists_getElem?_of_length_eq hlen ha'
    exact ih i a b ha' hb (hv.of_mem_items hvs ha)
  | @map as bs hkeys _ ih =>
    refine everywhere_map rfl fun row hrow => ?_
    obtain ⟨b, hb⟩ := Assoc.exists_of_mem_keys ((hkeys row.1).mp (Assoc.mem_keys hrow))
    exact ih row.1 row.2 b hrow hb (hv.of_mem_entries hrow)
  | _ => exact everywhere_of_single rfl rfl nofun

end Same

/-- A value in which everything that should be a number is one is the same as itself. -/
theorem same_self (h : v.Everywhere fun x => x.isNaN = false) (hv : v.KeysDistinct) :
    Same v v := by
  induction v using induction_on_parts with
  | step v ih =>
    have parts : ∀ w ∈ v.parts, Same w w := fun w hw =>
      ih w hw ((everywhere_iff.mp h).2 w hw) ((everywhere_iff.mp hv).2 w hw)
    have items : ∀ {as : List Value}, v.items? = some as → Same v v := by
      intro as has
      refine .items has has rfl fun i a b ha hb => ?_
      obtain rfl := Option.some.inj (ha.symm.trans hb)
      exact parts a (by rw [parts_of_items has]; exact List.mem_of_getElem? ha)
    cases v with
    | null => exact .null
    | bool b => exact .bool b
    | number n =>
      cases hn : n.worth? with
      | none =>
        have hnan : n.isNaN = false := h.self
        rw [Number.worth?_eq_none_iff.mp hn] at hnan
        cases hnan
      | some x => exact .number hn hn
    | text t => exact .text rfl
    | list as => exact items rfl
    | tuple as => exact items rfl
    | map entries =>
      refine .map (fun key => Iff.rfl) fun key a b ha hb => ?_
      obtain rfl := Assoc.value_unique hv.nodup ha hb
      exact parts a (mem_parts_of_mem_entries ha)
    | date d => exact .date d
    | dateTime t => exact .dateTime rfl

/-! ## What equality does not see -/

/-- One value with lists in place of tuples or tuples in place of lists, and with the keys of maps
in other orders, at any depth. -/
inductive Recast : Value → Value → Prop
  | refl (v : Value) : Recast v v
  | items {v w : Value} {as bs : List Value} :
      v.items? = some as → w.items? = some bs → as.length = bs.length →
      (∀ (i : Nat) (a b : Value), as[i]? = some a → bs[i]? = some b → Recast a b) → Recast v w
  | map {as bs : Assoc Value} :
      (Assoc.keys as).Perm (Assoc.keys bs) →
      (∀ (key : String) (a b : Value), (key, a) ∈ as → (key, b) ∈ bs → Recast a b) →
      Recast (.map as) (.map bs)

namespace Recast

theorem symm (h : Recast v w) : Recast w v := by
  induction h with
  | refl v => exact .refl v
  | items hv hw hlen _ ih => exact .items hw hv hlen.symm fun i b a hb ha => ih i a b ha hb
  | map hkeys _ ih => exact .map hkeys.symm fun key b a hb ha => ih key a b ha hb

/-- A map with its entries in another order. -/
theorem of_perm {as bs : Assoc Value} (h : as.Perm bs) (has : (Assoc.keys as).Nodup) :
    Recast (.map as) (.map bs) := by
  refine .map (h.map Prod.fst) fun key a b ha hb => ?_
  obtain rfl := Assoc.value_unique has ha (h.mem_iff.mpr hb)
  exact .refl a

theorem same (h : Recast u v) (h' : Same u w) : Same v w := by
  induction h generalizing w with
  | refl v => exact h'
  | @items u v as bs hu hv hlen _ ih =>
    obtain ⟨cs, hw, hlen', hparts⟩ := h'.of_items hu
    refine .items hv hw (hlen.symm.trans hlen') fun i b c hb hc => ?_
    obtain ⟨a, ha⟩ := exists_getElem?_of_length_eq hlen.symm hb
    exact ih i a b ha hb (hparts i a c ha hc)
  | map hkeys _ ih =>
    cases h' with
    | map hkeys' hparts =>
      refine .map (fun key => hkeys.mem_iff.symm.trans (hkeys' key)) fun key b c hb hc => ?_
      obtain ⟨a, ha⟩ := Assoc.exists_of_mem_keys (hkeys.mem_iff.mpr (Assoc.mem_keys hb))
      exact ih key a b ha hb (hparts key a c ha hc)
    | items hu => cases hu

theorem equal_eq (h : Recast u v) (hu : u.KeysDistinct) (hv : v.KeysDistinct)
    (hw : w.KeysDistinct) : u.equal w = v.equal w := by
  rw [Bool.eq_iff_iff, equal_iff_same hu hw, equal_iff_same hv hw]
  exact ⟨h.same, h.symm.same⟩

end Recast

/-- Equality raises no fault and says whether two values are the same.  It is symmetric and
transitive, and holds only between values of one kind that count as true or not alike.  A value is
equal to itself exactly when nothing that is not a number lies in it.  Lists in place of tuples and
other orders of keys make no difference. -/
theorem equal_partial_equivalence (hu : u.KeysDistinct) (hv : v.KeysDistinct)
    (hw : w.KeysDistinct) :
    (BinaryOperator.eq.apply u v = .ok (.bool (u.equal v)) ∧
      BinaryOperator.ne.apply u v = .ok (.bool !u.equal v)) ∧
    (u.equal v = true ↔ Same u v) ∧
    u.equal v = v.equal u ∧
    (u.equal v = true → v.equal w = true → u.equal w = true) ∧
    (u.equal v = true → u.kind = v.kind ∧ ∃ b, u.truth? = some b ∧ v.truth? = some b) ∧
    (u.equal u = true ↔ u.Everywhere fun x => x.isNaN = false) ∧
    (Recast u v → u.equal w = v.equal w ∧ w.equal u = w.equal v) := by
  have comm : ∀ {a b : Value}, a.KeysDistinct → b.KeysDistinct → a.equal b = b.equal a := by
    intro a b ha hb
    rw [Bool.eq_iff_iff, equal_iff_same ha hb, equal_iff_same hb ha]
    exact ⟨Same.symm, Same.symm⟩
  refine ⟨⟨rfl, rfl⟩, equal_iff_same hu hv, comm hu hv, fun huv hvw => ?_, fun h => ?_, ?_,
    fun h => ?_⟩
  · rw [equal_iff_same hu hw]
    exact (same_of_equal huv hu hv).trans (same_of_equal hvw hv hw)
  · have hsame := same_of_equal h hu hv
    exact ⟨hsame.kind_eq, hsame.truth⟩
  · rw [equal_iff_same hu hu]
    exact ⟨fun h => h.numbers hu, fun h => same_self h hu⟩
  · have hleft := h.equal_eq hu hv hw
    exact ⟨hleft, by rw [comm hw hu, comm hw hv, hleft]⟩

/-- A tuple with a map in it, the same as a list with the keys the other way round, and with a double
in place of the whole number; and a list with a signaling decimal in it. -/
theorem equal_partial_equivalence_nested :
    ∃ u v w : Value,
      u = .tuple [ofInt 1, ofEntries [("a", .null), ("b", ofString "x")]] ∧
      v = .list [ofInt 1, ofEntries [("b", ofString "x"), ("a", .null)]] ∧
      w = .list [.number (.float (.finite false 4503599627370496 (-52))),
        ofEntries [("b", ofString "x"), ("a", .null)]] ∧
      Recast u v ∧ v.equal w = true ∧ u.equal w = true ∧ w.equal u = true ∧ u.kind = w.kind ∧
      (Value.list [u, .number (.decimal (.nan false true 0))]).equal
        (.list [v, .number (.decimal (.nan false true 0))]) = false := by
  have hnull : Value.null.KeysDistinct := keysDistinct_of_single rfl
  have htext : (ofString "x").KeysDistinct := keysDistinct_of_single rfl
  have hnumber : ∀ n, (Value.number n).KeysDistinct := fun n => keysDistinct_of_single rfl
  have hmap : (ofEntries [("a", .null), ("b", ofString "x")]).KeysDistinct :=
    keysDistinct_ofEntries (by simp [hnull, htext])
  have hturned : (ofEntries [("b", ofString "x"), ("a", .null)]).KeysDistinct :=
    keysDistinct_ofEntries (by simp [hnull, htext])
  obtain ⟨u, hu⟩ : ∃ u, u = Value.tuple [ofInt 1, ofEntries [("a", .null), ("b", ofString "x")]] :=
    ⟨_, rfl⟩
  obtain ⟨v, hv⟩ : ∃ v, v = Value.list [ofInt 1, ofEntries [("b", ofString "x"), ("a", .null)]] :=
    ⟨_, rfl⟩
  obtain ⟨w, hw⟩ : ∃ w, w = Value.list [.number (.float (.finite false 4503599627370496 (-52))),
      ofEntries [("b", ofString "x"), ("a", .null)]] := ⟨_, rfl⟩
  have hudistinct : u.KeysDistinct := by
    rw [hu]
    exact keysDistinct_of_items rfl (by simp [ofInt, hnumber, hmap])
  have hvdistinct : v.KeysDistinct := by
    rw [hv]
    exact keysDistinct_of_items rfl (by simp [ofInt, hnumber, hturned])
  have hwdistinct : w.KeysDistinct := by
    rw [hw]
    exact keysDistinct_of_items rfl (by simp [hnumber, hturned])
  have hrecast : Recast u v := by
    rw [hu, hv]
    refine .items rfl rfl rfl fun i a b ha hb => ?_
    match i with
    | 0 =>
      cases ha
      cases hb
      exact .refl _
    | 1 =>
      cases ha
      cases hb
      exact .of_perm (.swap _ _ []) (by decide)
    | _ + 2 => cases ha
  have hvw : v.equal w = true := by
    rw [hv, hw]
    rfl
  obtain ⟨-, -, -, -, -, -, hturn⟩ := equal_partial_equivalence hudistinct hvdistinct hwdistinct
  obtain ⟨-, -, hcomm, -, hkind, -, -⟩ := equal_partial_equivalence hudistinct hwdistinct hvdistinct
  have huw : u.equal w = true := (hturn hrecast).1.trans hvw
  refine ⟨u, v, w, hu, hv, hw, hrecast, hvw, huw, hcomm ▸ huw, (hkind huw).1, ?_⟩
  rw [hu, hv]
  rfl

end Value
end Quill
