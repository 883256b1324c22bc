import Quill.Value.Text

/-!
Scopes: the names that a template sees while it is rendered.  A scope is a map given by
the caller with bindings on top of it, innermost first, and a name means its innermost
binding.  `get?_flatten` says that a scope answers like the plain map it flattens to.
-/

namespace Quill

structure Scope where
  bindings : List (String × Value)
  base : Assoc Value

structure NotAMap where
  typeName : String
  deriving DecidableEq, Repr

def NotAMap.message (e : NotAMap) : String :=
  "context must be a mapping rather than " ++ e.typeName ++ "."

namespace Scope

/-- The scope over a map without any bindings; null stands for the empty map. -/
def ofValue : Value → Except NotAMap Scope
  | .null => .ok ⟨[], []⟩
  | .map entries => .ok ⟨[], entries⟩
  | v => .error ⟨v.typeName⟩

/-- A scope with one more binding, which hides earlier ones of its name. -/
def push (s : Scope) (name : String) (value : Value) : Scope :=
  { s with bindings := (name, value) :: s.bindings }

def depth (s : Scope) : Nat := s.bindings.length

/-- What a name means: its innermost binding, or else its value in the base. -/
def get? (s : Scope) (name : String) : Option Value :=
  match Assoc.get? name s.bindings with
  | some v => some v
  | none => Assoc.get? name s.base

/-- What a name means, or a default for one that is not visible. -/
def getD (s : Scope) (name : String) (default : Value) : Value := (s.get? name).getD default

def contains (s : Scope) (name : String) : Bool := (s.get? name).isSome

def freshNames (seen : List String) : List String → List String
  | [] => []
  | k :: rest => if k ∈ seen then freshNames seen rest else k :: freshNames (k :: seen) rest

/-- The visible names: bound names innermost first, then the others of the base in its own
order. -/
def names (s : Scope) : List String :=
  freshNames [] (s.bindings.map Prod.fst ++ s.base.map Prod.fst)

def size (s : Scope) : Nat := s.names.length

def flatten (s : Scope) : Assoc Value :=
  s.names.filterMap fun name => (s.get? name).map fun v => (name, v)

def quoted (s : Scope) : Except Fault String :=
  (Value.map s.flatten).quoted.map fun t => "<Context: " ++ t ++ ">"

/-! ## Laws -/

theorem get?_push (s : Scope) (name other : String) (v : Value) :
    (s.push name v).get? other = if other = name then some v else s.get? other := by
  by_cases h : name = other
  · simp [get?, push, Assoc.get?, h]
  · simp [get?, push, Assoc.get?, h, Ne.symm h]

theorem mem_freshNames {seen keys : List String} {k : String} :
    k ∈ freshNames seen keys ↔ k ∈ keys ∧ k ∉ seen := by
  induction keys generalizing seen with
  | nil => simp [freshNames]
  | cons x rest ih => grind [freshNames]

theorem nodup_freshNames (seen keys : List String) : (freshNames seen keys).Nodup := by
  induction keys generalizing seen with
  | nil => simp [freshNames]
  | cons x rest ih =>
    simp only [freshNames]
    split
    · exact ih seen
    · exact List.nodup_cons.2 ⟨by simp [mem_freshNames], ih _⟩

/-- Each visible name is listed once. -/
theorem nodup_names (s : Scope) : s.names.Nodup := nodup_freshNames _ _

theorem mem_names {s : Scope} {name : String} : name ∈ s.names ↔ s.contains name = true := by
  have hb := @Assoc.contains_iff Value name s.bindings
  have hr := @Assoc.contains_iff Value name s.base
  simp only [Assoc.contains, Assoc.keys] at hb hr
  simp only [names, mem_freshNames, List.mem_append, List.not_mem_nil, not_false_eq_true,
    and_true, ← hb, ← hr, contains, get?]
  cases h : Assoc.get? name s.bindings <;> simp

theorem get?_filterMap {f : String → Option Value} {names : List String} {name : String} :
    Assoc.get? name (names.filterMap fun n => (f n).map fun v => (n, v)) =
      if name ∈ names then f name else none := by
  induction names with
  | nil => simp [Assoc.get?]
  | cons n rest ih => cases hn : f n <;> grind [Assoc.get?]

/-- Flattening a scope keeps what every name means. -/
theorem get?_flatten (s : Scope) (name : String) : Assoc.get? name s.flatten = s.get? name := by
  rw [flatten, get?_filterMap]
  split
  · rfl
  · next h =>
    rw [mem_names, contains] at h
    simp only [Bool.not_eq_true, Option.isSome_eq_false_iff, Option.isNone_iff_eq_none] at h
    exact h.symm

end Scope
end Quill
