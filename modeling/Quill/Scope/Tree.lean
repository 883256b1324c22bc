import Quill.Scope

/-!
Trees of scopes over one base.  Every scope but the first is made by pushing a binding on
an earlier one, so a scope is known by its number and is never changed; the base belongs
to the caller, who may write to it.
-/

namespace Quill

structure ScopeTree where
  base : Assoc Value
  /-- The bindings of each scope, innermost first. -/
  chains : List (List (String × Value))

namespace ScopeTree

def ofValue (v : Value) : Except NotAMap ScopeTree :=
  (Scope.ofValue v).map fun s => ⟨s.base, [s.bindings]⟩

def scope? (t : ScopeTree) (n : Nat) : Option Scope := t.chains[n]?.map fun chain => ⟨chain, t.base⟩

/-- Pushes a binding on a scope, which makes a new scope with the next number. -/
def push? (t : ScopeTree) (n : Nat) (name : String) (value : Value) : Option (ScopeTree × Nat) :=
  (t.scope? n).map fun s =>
    ({ t with chains := t.chains ++ [(s.push name value).bindings] }, t.chains.length)

/-- Writes to the base that all scopes share. -/
def setBase (t : ScopeTree) (key : String) (value : Value) : ScopeTree :=
  { t with base := t.base.set key value }

/-- A push leaves every scope there was as it was. -/
theorem scope?_push {t u : ScopeTree} {n k m : Nat} {name : String} {v : Value}
    (h : t.push? n name v = some (u, k)) (hm : m < t.chains.length) :
    u.scope? m = t.scope? m := by
  simp only [push?, Option.map_eq_some_iff] at h
  obtain ⟨s, _, hs⟩ := h
  injection hs with hu hk
  subst hu
  simp [scope?, List.getElem?_append_left hm]

/-- The new scope is the old one with the binding pushed. -/
theorem scope?_push_self {t u : ScopeTree} {n k : Nat} {name : String} {v : Value}
    (h : t.push? n name v = some (u, k)) :
    u.scope? k = (t.scope? n).map fun s => s.push name v := by
  simp only [push?, Option.map_eq_some_iff] at h
  obtain ⟨s, hs, hu⟩ := h
  injection hu with hu hk
  subst hu hk
  simp only [scope?, Option.map_eq_some_iff] at hs
  obtain ⟨chain, hc, rfl⟩ := hs
  simp [scope?, hc, Scope.push]

end ScopeTree
end Quill
