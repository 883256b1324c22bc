import Quill.Proofs.Tables
import Quill.Scope

/-!
Scopes as tables.

A scope keeps its bindings apart from the base and finds a name by going through them.  What it
answers is what the table answers in which every binding has been written over the base, the
outermost first; `Scope.Models` says so of any scope and any table, and pushing a binding on the one
is writing it to the other.  The names come in another order: those that were bound stand before
those of the base.
-/

namespace Quill
namespace Scope

def ofTable (entries : Assoc Value) : Scope := ⟨[], entries⟩

/-- The scope with bindings pushed on it, the first of the list first. -/
def pushAll (s : Scope) (chain : List (String × Value)) : Scope :=
  chain.foldl (fun s binding => s.push binding.1 binding.2) s

theorem pushAll_eq (s : Scope) (chain : List (String × Value)) :
    s.pushAll chain = ⟨chain.reverse ++ s.bindings, s.base⟩ := by
  induction chain generalizing s with
  | nil => rfl
  | cons binding rest ih =>
    rw [pushAll, List.foldl_cons]
    show pushAll (s.push binding.1 binding.2) rest = _
    rw [ih, List.reverse_cons, List.append_assoc]
    rfl

theorem pushAll_concat (s : Scope) (chain : List (String × Value)) (name : String) (v : Value) :
    s.pushAll (chain ++ [(name, v)]) = (s.pushAll chain).push name v := by
  rw [pushAll, List.foldl_append]
  rfl

/-! ## What names mean -/

def Models (s : Scope) (entries : Assoc Value) : Prop :=
  ∀ name, s.get? name = Assoc.get? name entries

variable {s : Scope} {entries : Assoc Value}

theorem models_ofTable (entries : Assoc Value) : (ofTable entries).Models entries := fun _ => rfl

theorem models_flatten (s : Scope) : s.Models s.flatten := fun name => (get?_flatten s name).symm

/-- Pushing a binding on a scope is writing it to the table. -/
theorem Models.push (h : s.Models entries) (name : String) (v : Value) :
    (s.push name v).Models (entries.set name v) := by
  intro other
  rw [get?_push, Assoc.get?_set, h other]

theorem Models.pushAll (h : s.Models entries) (chain : List (String × Value)) :
    (s.pushAll chain).Models (entries.setAll chain) := by
  induction chain generalizing s entries with
  | nil => exact h
  | cons binding rest ih => exact ih (h.push binding.1 binding.2)

theorem Models.contains (h : s.Models entries) (name : String) :
    s.contains name = entries.contains name := by
  rw [Scope.contains, Assoc.contains, h name]

/-! ## The order of names -/

theorem freshNames_eq (seen keys : List String) :
    freshNames seen keys = (keys.filter (· ∉ seen)).eraseDups := by
  induction keys generalizing seen with
  | nil => rfl
  | cons key rest ih =>
    rw [freshNames]
    by_cases hkey : key ∈ seen
    · rw [if_pos hkey, ih, List.filter_cons_of_neg (by simpa using hkey)]
    · rw [if_neg hkey, ih, List.filter_cons_of_pos (by simpa using hkey), List.eraseDups_cons,
        List.filter_filter]
      congr 2
      refine List.filter_congr fun name _ => ?_
      by_cases hname : name = key <;> simp [hname]

theorem eraseDups_of_nodup {names : List String} (h : names.Nodup) : names.eraseDups = names := by
  induction names with
  | nil => rfl
  | cons name rest ih =>
    obtain ⟨hname, hrest⟩ := List.nodup_cons.mp h
    have hothers : rest.filter (fun other => !other == name) = rest := by
      refine List.filter_eq_self.mpr fun other hother => ?_
      simp [ne_of_mem_of_not_mem hother hname]
    rw [List.eraseDups_cons, hothers, ih hrest]

/-- The bound names stand first, the innermost before the others, and behind them the names of the
base that are not bound. -/
theorem names_eq (s : Scope) (hkeys : (Assoc.keys s.base).Nodup) :
    s.names = (Assoc.keys s.bindings).eraseDups ++
      (Assoc.keys s.base).filter (· ∉ Assoc.keys s.bindings) := by
  have hbase : (Assoc.keys s.base).removeAll (Assoc.keys s.bindings) =
      (Assoc.keys s.base).filter (· ∉ Assoc.keys s.bindings) := by
    simp [List.removeAll]
  rw [names, freshNames_eq, List.filter_eq_self.mpr (by simp)]
  show (Assoc.keys s.bindings ++ Assoc.keys s.base).eraseDups = _
  rw [List.eraseDups_append, hbase, eraseDups_of_nodup (hkeys.filter _)]

/-! ## Flattening -/

theorem keys_filterMap {f : String → Option Value} {names : List String}
    (h : ∀ name ∈ names, (f name).isSome) :
    Assoc.keys (names.filterMap fun name => (f name).map fun v => (name, v)) = names := by
  induction names with
  | nil => rfl
  | cons name rest ih =>
    obtain ⟨v, hv⟩ := Option.isSome_iff_exists.mp (h name List.mem_cons_self)
    have hrest := ih fun other hother => h other (List.mem_cons_of_mem name hother)
    simpa [Assoc.keys, hv] using hrest

theorem keys_flatten (s : Scope) : Assoc.keys s.flatten = s.names :=
  keys_filterMap fun _ hname => mem_names.mp hname

/-- A scope flattens to the rows of the table that it answers like, in its own order. -/
theorem Models.flatten_perm (h : s.Models entries) (hkeys : (Assoc.keys entries).Nodup) :
    s.flatten.Perm entries := by
  have hnames : (Assoc.keys s.flatten).Nodup := by
    rw [keys_flatten]
    exact nodup_names s
  refine Assoc.perm_of_get?_eq hnames hkeys fun name => ?_
  rw [get?_flatten, h name]

end Scope
end Quill
