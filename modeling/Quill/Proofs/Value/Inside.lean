import Quill.Path
import Quill.Proofs.Tables

/-!
Properties of all that a value holds.  `Value.Inside` relates a value to itself and to what lies
in it at any depth, and `Value.Everywhere` says that a property holds of all of these.  Taking
values apart and looking them up in a scope keeps such a property.
-/

namespace Quill
namespace Value

/-! ## Inside a value -/

inductive Inside : Value → Value → Prop
  | self {v : Value} : Inside v v
  | list {items : List Value} {v w : Value} : v ∈ items → Inside w v → Inside w (.list items)
  | tuple {items : List Value} {v w : Value} : v ∈ items → Inside w v → Inside w (.tuple items)
  | map {entries : List (String × Value)} {key : String} {v w : Value} :
      (key, v) ∈ entries → Inside w v → Inside w (.map entries)

def Everywhere (p : Value → Prop) (v : Value) : Prop := ∀ w, Inside w v → p w

variable {p : Value → Prop} {v w : Value}

theorem Everywhere.self (h : v.Everywhere p) : p v := h v .self

def parts (v : Value) : List Value := v.elements?.getD []

theorem mem_parts (hw : w ∈ v.parts) : ∃ elements, v.elements? = some elements ∧ w ∈ elements := by
  rw [parts] at hw
  cases helements : v.elements? with
  | none => simp [helements] at hw
  | some elements => exact ⟨elements, rfl, by simpa [helements] using hw⟩

theorem parts_of_items {items : List Value} (h : v.items? = some items) : v.parts = items := by
  cases v with
  | list _ => exact Option.some.inj h
  | tuple _ => exact Option.some.inj h
  | _ => cases h

theorem mem_parts_of_mem_entries {entries : List (String × Value)} {key : String}
    (h : (key, w) ∈ entries) : w ∈ (Value.map entries).parts :=
  List.mem_map.mpr ⟨(key, w), h, rfl⟩

/-- A property holds throughout a value if it holds of the value and throughout its parts. -/
theorem everywhere_iff : v.Everywhere p ↔ p v ∧ ∀ w ∈ v.parts, w.Everywhere p := by
  constructor
  · refine fun h => ⟨h.self, fun w hw u hu => h u ?_⟩
    obtain ⟨elements, helements, hw⟩ := mem_parts hw
    cases v with
    | list _ =>
      cases helements
      exact .list hw hu
    | tuple _ =>
      cases helements
      exact .tuple hw hu
    | map entries =>
      cases helements
      obtain ⟨⟨key, _⟩, hmem, rfl⟩ := List.mem_map.mp hw
      exact .map hmem hu
    | _ => cases helements
  · rintro ⟨h, hparts⟩ u hu
    cases hu with
    | self => exact h
    | list hw hu => exact hparts _ hw u hu
    | tuple hw hu => exact hparts _ hw u hu
    | map hw hu => exact hparts _ (mem_parts_of_mem_entries hw) u hu

theorem sizeOf_lt_of_mem_parts (h : w ∈ v.parts) : sizeOf w < sizeOf v := by
  obtain ⟨elements, helements, hmem⟩ := mem_parts h
  cases v with
  | list items =>
    cases helements
    have hlt := List.sizeOf_lt_of_mem hmem
    rw [Value.list.sizeOf_spec]
    omega
  | tuple items =>
    cases helements
    have hlt := List.sizeOf_lt_of_mem hmem
    rw [Value.tuple.sizeOf_spec]
    omega
  | map entries =>
    cases helements
    obtain ⟨⟨key, u⟩, hrow, rfl⟩ := List.mem_map.mp hmem
    have hlt := List.sizeOf_lt_of_mem hrow
    rw [Prod.mk.sizeOf_spec] at hlt
    rw [Value.map.sizeOf_spec]
    show sizeOf u < _
    omega
  | _ => cases helements

/-- What holds of a value when it holds of its parts holds of every value. -/
theorem induction_on_parts {motive : Value → Prop}
    (step : ∀ v, (∀ w ∈ v.parts, motive w) → motive v) (v : Value) : motive v := by
  induction hsize : sizeOf v using Nat.strongRecOn generalizing v with
  | ind size ih =>
    refine step v fun w hw => ih (sizeOf w) ?_ w rfl
    rw [← hsize]
    exact sizeOf_lt_of_mem_parts hw

/-- In a value without parts there is nothing but itself. -/
theorem everywhere_of_single (h : p v) (hitems : v.items? = none)
    (hmap : ∀ entries, v ≠ .map entries) : v.Everywhere p := by
  refine everywhere_iff.mpr ⟨h, fun w hw => ?_⟩
  obtain ⟨elements, helements, -⟩ := mem_parts hw
  cases v with
  | list _ => cases hitems
  | tuple _ => cases hitems
  | map entries => exact absurd rfl (hmap entries)
  | _ => cases helements

theorem everywhere_list {items : List Value} (h : p (.list items))
    (hitems : ∀ v ∈ items, v.Everywhere p) : (Value.list items).Everywhere p :=
  everywhere_iff.mpr ⟨h, hitems⟩

theorem everywhere_map {entries : List (String × Value)} (h : p (.map entries))
    (hentries : ∀ row ∈ entries, row.2.Everywhere p) : (Value.map entries).Everywhere p := by
  refine everywhere_iff.mpr ⟨h, fun w hw => ?_⟩
  obtain ⟨row, hrow, rfl⟩ := List.mem_map.mp hw
  exact hentries row hrow

theorem Everywhere.of_mem_items {items : List Value} (h : v.Everywhere p)
    (hitems : v.items? = some items) (hw : w ∈ items) : w.Everywhere p :=
  (everywhere_iff.mp h).2 w (by rwa [parts_of_items hitems])

theorem Everywhere.of_mem_entries {entries : List (String × Value)} {key : String}
    (h : (Value.map entries).Everywhere p) (hw : (key, w) ∈ entries) : w.Everywhere p :=
  (everywhere_iff.mp h).2 w (mem_parts_of_mem_entries hw)

/-- The elements that a loop goes through have what the whole has. -/
theorem Everywhere.of_mem_elements {elements : List Value} (h : v.Everywhere p)
    (helements : v.elements? = some elements) (hw : w ∈ elements) : w.Everywhere p :=
  (everywhere_iff.mp h).2 w (by simpa [parts, helements] using hw)

end Value

/-! ## Looking values up -/

variable {p : Value → Prop}

theorem Value.Everywhere.step {v w : Value} {segment : Segment} (h : v.Everywhere p)
    (hstep : v.step? segment = some w) : w.Everywhere p := by
  cases segment with
  | field name =>
    cases v with
    | map entries => exact h.of_mem_entries (Assoc.mem_of_get? hstep)
    | _ => cases hstep
  | index i =>
    rw [Value.step?] at hstep
    cases hitems : v.items? with
    | none =>
      rw [hitems] at hstep
      cases hstep
    | some items =>
      rw [hitems] at hstep
      by_cases hi : 0 ≤ i
      · dsimp only at hstep
        rw [if_pos hi] at hstep
        exact h.of_mem_items hitems (List.mem_of_getElem? hstep)
      · dsimp only at hstep
        rw [if_neg hi] at hstep
        cases hstep

def Scope.Everywhere (p : Value → Prop) (s : Scope) : Prop :=
  ∀ name v, s.get? name = some v → v.Everywhere p

theorem Scope.Everywhere.push {s : Scope} {name : String} {v : Value} (h : s.Everywhere p)
    (hv : v.Everywhere p) : (s.push name v).Everywhere p := by
  intro other w hw
  rw [get?_push] at hw
  by_cases hname : other = name
  · rw [if_pos hname] at hw
    cases hw
    exact hv
  · rw [if_neg hname] at hw
    exact h other w hw

theorem Scope.everywhere_ofValue {v : Value} {s : Scope} (h : v.Everywhere p)
    (hs : Scope.ofValue v = .ok s) : s.Everywhere p := by
  intro name w hw
  cases v with
  | null =>
    cases hs
    cases hw
  | map entries =>
    cases hs
    exact h.of_mem_entries (Assoc.mem_of_get? hw)
  | _ => cases hs

theorem Scope.Everywhere.resolve {s : Scope} {path : Path} {v : Value} (h : s.Everywhere p)
    (hv : s.resolve? path = some v) : v.Everywhere p := by
  have steps : ∀ (steps : List Segment) (start : Option Value),
      (∀ u, start = some u → u.Everywhere p) →
      steps.foldl (fun v segment => v.bind fun v => v.step? segment) start = some v →
      v.Everywhere p := by
    intro steps
    induction steps with
    | nil => exact fun start hstart hv => hstart v hv
    | cons segment rest ih =>
      intro start hstart hv
      refine ih _ ?_ hv
      intro u hu
      obtain ⟨before, hbefore, hstep⟩ := Option.bind_eq_some_iff.mp hu
      exact (hstart before hbefore).step hstep
  exact steps path.steps _ (fun u hu => h path.root u hu) hv

end Quill
