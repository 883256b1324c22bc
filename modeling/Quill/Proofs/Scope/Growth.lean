import Mathlib.Data.List.Induction
import Quill.Proofs.Scope.Overlays
import Quill.Scope.Tree

/-!
Trees of scopes that grow by pushes.

Any scope that is there may be pushed on, so a tree has many chains that share their outer parts.
`Leads` gives the pushes on the way from the base to one scope.  What that scope answers is
determined by them and the base alone (`Scope.Answers`), and it answers the same however the tree
goes on to grow.
-/

namespace Quill

/-! ## Answers of a scope -/

/-- A scope answers like the table that a chain of bindings makes of a base when they are written
over it one after another, the outermost first. -/
structure Scope.Answers (s : Scope) (base : Assoc Value) (chain : List (String × Value)) :
    Prop where
  get : ∀ name, s.get? name = Assoc.get? name (base.setAll chain)
  getD : ∀ name default,
    s.getD name default = (Assoc.get? name (base.setAll chain)).getD default
  contains : ∀ name, s.contains name = (base.setAll chain).contains name
  size : s.size = (base.setAll chain).length
  /-- The names in order: those that were bound, innermost first, and then those of the base that
  were not. -/
  names : s.names = (chain.map Prod.fst).reverse.eraseDups ++
    (Assoc.keys base).filter (· ∉ chain.map Prod.fst)
  nodup : s.names.Nodup
  names_perm : s.names.Perm (Assoc.keys (base.setAll chain))
  flatten_keys : Assoc.keys s.flatten = s.names
  flatten_perm : s.flatten.Perm (base.setAll chain)
  depth : s.depth = chain.length

/-- A base with distinct keys and the chain pushed on it answer so. -/
theorem Scope.answers_pushAll {base : Assoc Value} (hkeys : (Assoc.keys base).Nodup)
    (chain : List (String × Value)) : ((ofTable base).pushAll chain).Answers base chain := by
  have hmodels := (models_ofTable base).pushAll chain
  have htable := Assoc.nodup_keys_setAll hkeys chain
  have hflat := hmodels.flatten_perm htable
  have hperm : ((ofTable base).pushAll chain).names.Perm (Assoc.keys (base.setAll chain)) := by
    rw [← keys_flatten]
    exact hflat.map Prod.fst
  refine ⟨hmodels, fun name default => ?_, hmodels.contains, ?_, ?_, nodup_names _, hperm,
    keys_flatten _, hflat, ?_⟩
  · rw [getD, hmodels name]
  · rw [size, hperm.length_eq, Assoc.keys, List.length_map]
  · have hbound : Assoc.keys ((ofTable base).pushAll chain).bindings =
        (chain.map Prod.fst).reverse := by
      rw [pushAll_eq, Assoc.keys]
      simp [ofTable]
    rw [names_eq _ (by rwa [pushAll_eq]), hbound, pushAll_eq]
    simp only [List.mem_reverse]
    rfl
  · rw [depth, pushAll_eq]
    simp [ofTable]

/-! ## Growing -/

namespace ScopeTree

structure Push where
  parent : Nat
  name : String
  value : Value

/-- The tree after some pushes; fails where one of them names no scope. -/
def grow (t : ScopeTree) (pushes : List Push) : Option ScopeTree :=
  pushes.foldlM (fun t p => (t.push? p.parent p.name p.value).map Prod.fst) t

/-- The bindings on the way from the base to a scope, the outermost first.  The scope that a push
makes has the next number. -/
inductive Leads (pushes : List Push) : Nat → List (String × Value) → Prop
  | root : Leads pushes 0 []
  | push {n : Nat} {p : Push} {chain : List (String × Value)} : pushes[n]? = some p →
      Leads pushes p.parent chain → Leads pushes (n + 1) (chain ++ [(p.name, p.value)])

variable {root t u : ScopeTree} {pushes more : List Push} {n : Nat}
  {chain : List (String × Value)}

/-- Later pushes lie on no way to an earlier scope. -/
theorem Leads.append (h : Leads pushes n chain) (more : List Push) :
    Leads (pushes ++ more) n chain := by
  induction h with
  | root => exact .root
  | push hp _ ih =>
    refine .push ?_ ih
    rw [List.getElem?_append_left (List.getElem?_eq_some_iff.mp hp).1, hp]

/-- There is one way to each scope. -/
theorem Leads.unique {others : List (String × Value)} (h : Leads pushes n chain)
    (ho : Leads pushes n others) : chain = others := by
  induction h generalizing others with
  | root =>
    cases ho
    rfl
  | push hp _ ih =>
    cases ho with
    | push hq hrest =>
      rw [hp] at hq
      cases hq
      rw [ih hrest]

theorem chains_of_ofValue {base : Value} (h : ofValue base = .ok root) :
    root.chains = [[]] := by
  cases base with
  | null | map _ =>
    cases h
    rfl
  | _ => cases h

/-- What there is can be pushed on. -/
theorem exists_push {s : Scope} (h : t.scope? n = some s) (name : String) (v : Value) :
    ∃ u, t.push? n name v = some (u, t.chains.length) := by
  rw [push?, h]
  exact ⟨_, rfl⟩

theorem length_push {name : String} {v : Value} {k : Nat}
    (h : t.push? n name v = some (u, k)) : u.chains.length = t.chains.length + 1 := by
  simp only [push?, Option.map_eq_some_iff, Prod.mk.injEq] at h
  obtain ⟨s, -, rfl, -⟩ := h
  simp

/-- Growth leaves every scope there was as it was. -/
theorem scope?_grow (h : t.grow more = some u) (hn : n < t.chains.length) :
    u.scope? n = t.scope? n := by
  induction more generalizing t with
  | nil =>
    cases h
    rfl
  | cons p rest ih =>
    rw [grow, List.foldlM_cons] at h
    obtain ⟨next, hnext, hrest⟩ := Option.bind_eq_some_iff.mp h
    obtain ⟨⟨t', k⟩, hpush, rfl⟩ := Option.map_eq_some_iff.mp hnext
    have hlt : n < t'.chains.length := by
      rw [length_push hpush]
      omega
    rw [ih hrest hlt, scope?_push hpush hn]

theorem grow_concat (t : ScopeTree) (pushes : List Push) (p : Push) :
    t.grow (pushes ++ [p]) =
      (t.grow pushes).bind fun u => (u.push? p.parent p.name p.value).map Prod.fst := by
  simp [grow, List.foldlM_append]

/-- Where every push is on a scope that is there, a tree grows a scope for each of them, and each
scope is the base with the bindings on its way pushed. -/
theorem grow_leads (hroot : root.chains = [[]])
    (hparents : ∀ (n : Nat) (p : Push), pushes[n]? = some p → p.parent ≤ n) :
    ∃ t, root.grow pushes = some t ∧ t.chains.length = pushes.length + 1 ∧
      ∀ n ≤ pushes.length, ∃ chain, Leads pushes n chain ∧
        t.scope? n = some ((Scope.ofTable root.base).pushAll chain) := by
  induction pushes using List.reverseRecOn with
  | nil =>
    refine ⟨root, rfl, by rw [hroot]; rfl, fun n hn => ?_⟩
    obtain rfl : n = 0 := by simpa using hn
    exact ⟨[], .root, by simp [scope?, hroot, Scope.pushAll, Scope.ofTable]⟩
  | append_singleton before p ih =>
    have hbefore : ∀ (n : Nat) (q : Push), before[n]? = some q → q.parent ≤ n := by
      intro n q hq
      refine hparents n q ?_
      rw [List.getElem?_append_left (List.getElem?_eq_some_iff.mp hq).1, hq]
    have hlast : p.parent ≤ before.length := hparents _ p List.getElem?_concat_length
    obtain ⟨t, hgrow, hlength, hscopes⟩ := ih hbefore
    obtain ⟨chain, hleads, hscope⟩ := hscopes p.parent hlast
    obtain ⟨u, hpush⟩ := exists_push hscope p.name p.value
    refine ⟨u, by rw [grow_concat, hgrow, Option.bind_some, hpush]; rfl, ?_, fun n hn => ?_⟩
    · rw [length_push hpush, hlength, List.length_append, List.length_singleton]
    · rw [List.length_append, List.length_singleton] at hn
      by_cases hnew : n = before.length + 1
      · subst hnew
        refine ⟨chain ++ [(p.name, p.value)],
          .push List.getElem?_concat_length (hleads.append [p]), ?_⟩
        rw [← hlength, scope?_push_self hpush, hscope, Scope.pushAll_concat]
        rfl
      · obtain ⟨others, hothers, hold⟩ := hscopes n (by omega)
        refine ⟨others, hothers.append [p], ?_⟩
        rw [scope?_push hpush (by omega), hold]

/-- Every scope of a tree over a base with distinct keys answers like the base with the bindings on
its way written over it, and goes on to do so however the tree grows.  There is a scope for each
push, if each is on a scope that was there before. -/
theorem grow_answers {base : Value} (hroot : ofValue base = .ok root)
    (hkeys : (Assoc.keys root.base).Nodup)
    (hparents : ∀ (n : Nat) (p : Push), pushes[n]? = some p → p.parent ≤ n) :
    ∃ t, root.grow pushes = some t ∧
      ∀ n ≤ pushes.length, ∃ chain s, Leads pushes n chain ∧ t.scope? n = some s ∧
        s.Answers root.base chain ∧
        ∀ more u, t.grow more = some u → u.scope? n = some s := by
  have hchains := chains_of_ofValue hroot
  obtain ⟨t, hgrow, hlength, hscopes⟩ := grow_leads hchains hparents
  refine ⟨t, hgrow, fun n hn => ?_⟩
  obtain ⟨chain, hleads, hscope⟩ := hscopes n hn
  refine ⟨chain, _, hleads, hscope, Scope.answers_pushAll hkeys chain, fun more u hmore => ?_⟩
  rw [scope?_grow hmore (by omega), hscope]

/-- The second and the third scope share a parent, and the fourth one binds a name of the base once
more. -/
theorem grow_answers_siblings :
    let base : Value := .map [("a", .bool true), ("b", .null)]
    let pushes : List Push :=
      [⟨0, "b", .bool false⟩, ⟨1, "c", .null⟩, ⟨1, "a", .null⟩, ⟨2, "b", .bool true⟩]
    ∃ root t s, ofValue base = .ok root ∧ root.grow pushes = some t ∧ t.scope? 4 = some s ∧
      s.Answers root.base [("b", .bool false), ("c", .null), ("b", .bool true)] ∧
      s.names = ["b", "c", "a"] := by
  intro base pushes
  have hparents : ∀ (n : Nat) (p : Push), pushes[n]? = some p → p.parent ≤ n := by
    intro n p hp
    match n with
    | 0 | 1 | 2 | 3 =>
      cases hp
      decide
    | n + 4 => cases hp
  have hroot : ofValue base = .ok ⟨[("a", .bool true), ("b", .null)], [[]]⟩ := rfl
  obtain ⟨t, hgrow, hscopes⟩ := grow_answers hroot (by decide) hparents
  obtain ⟨chain, s, hleads, hscope, hanswers, -⟩ := hscopes 4 (by decide)
  obtain rfl := hleads.unique (.push rfl (.push rfl (.push rfl .root)))
  exact ⟨_, t, s, hroot, hgrow, hscope, hanswers, hanswers.names⟩

end ScopeTree
end Quill
