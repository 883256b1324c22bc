import Mathlib.Data.List.Forall2
import Mathlib.Data.List.Induction

/-!
Computations that can fail, taken apart: how a sequence of steps succeeds or fails in terms of
its parts.
-/

namespace Quill
namespace Outcome

variable {ε α β : Type}

theorem ok_bind (a : α) (f : α → Except ε β) : (Except.ok a >>= f) = f a := rfl

theorem error_bind (e : ε) (f : α → Except ε β) : (Except.error e >>= f) = .error e := rfl

/-- A sequence succeeds when its first step does and what follows does. -/
theorem bind_eq_ok {x : Except ε α} {f : α → Except ε β} {b : β} :
    (x >>= f) = .ok b ↔ ∃ a, x = .ok a ∧ f a = .ok b := by
  cases x with
  | ok a => simp [ok_bind]
  | error e => simp [error_bind]

/-- A sequence fails when its first step does or what follows does. -/
theorem bind_eq_error {x : Except ε α} {f : α → Except ε β} {e : ε} :
    (x >>= f) = .error e ↔ x = .error e ∨ ∃ a, x = .ok a ∧ f a = .error e := by
  cases x with
  | ok a => simp [ok_bind]
  | error e => simp [error_bind]

/-- A change of errors changes no result. -/
theorem mapError_eq_ok {ε' : Type} {x : Except ε α} {f : ε → ε'} {a : α} :
    x.mapError f = .ok a ↔ x = .ok a := by
  cases x with
  | ok b =>
    constructor
    · intro h
      exact congrArg Except.ok (Except.ok.inj h)
    · intro h
      exact congrArg Except.ok (Except.ok.inj h)
  | error e =>
    constructor
    · intro h
      cases h
    · intro h
      cases h

/-- A change of errors makes a failure out of each failure, and only of those. -/
theorem mapError_eq_error {ε' : Type} {x : Except ε α} {f : ε → ε'} {e : ε'} :
    x.mapError f = .error e ↔ ∃ c, x = .error c ∧ f c = e := by
  cases x with
  | ok b =>
    constructor
    · intro h
      cases h
    · rintro ⟨c, h, -⟩
      cases h
  | error c =>
    constructor
    · intro h
      exact ⟨c, rfl, Except.error.inj h⟩
    · rintro ⟨d, h, rfl⟩
      cases h
      rfl

theorem map_eq_error {x : Except ε α} {f : α → β} {e : ε} :
    x.map f = .error e ↔ x = .error e := by
  cases x with
  | ok b => simp [Except.map]
  | error c => simp [Except.map]

/-- A sequence ends in an image when what follows its first step does. -/
theorem bind_map {γ : Type} {f : α → Except ε β} {f' : α → Except ε γ} {φ : β → γ}
    (h : ∀ a, f' a = (f a).map φ) (x : Except ε α) : x >>= f' = (x >>= f).map φ := by
  cases x with
  | ok a => exact h a
  | error e => rfl

def image {ε' : Type} (onError : ε → ε') (onOk : α → β) : Except ε α → Except ε' β
  | .ok a => .ok (onOk a)
  | .error e => .error (onError e)

/-- The image of a sequence is a sequence of images. -/
theorem image_bind {ε' α' β' : Type} {onError : ε → ε'} {onOk : α → α'} {onLast : β → β'}
    {f : α → Except ε β} {f' : α' → Except ε' β'}
    (h : ∀ a, f' (onOk a) = image onError onLast (f a)) (x : Except ε α) :
    image onError onOk x >>= f' = image onError onLast (x >>= f) := by
  cases x with
  | ok a => exact h a
  | error e => rfl

def FailsWith (p : ε → Prop) (x : Except ε α) : Prop := ∀ e, x = .error e → p e

section FailsWith

variable {p : ε → Prop}

theorem failsWith_ok (a : α) : FailsWith p (.ok a) := fun _ h => by cases h

theorem failsWith_error {e : ε} (h : p e) : FailsWith p (.error e : Except ε α) := by
  intro e' he
  cases he
  exact h

theorem FailsWith.bind {x : Except ε α} {f : α → Except ε β} (hx : FailsWith p x)
    (hf : ∀ a, x = .ok a → FailsWith p (f a)) : FailsWith p (x >>= f) := by
  intro e h
  rcases bind_eq_error.mp h with h | ⟨a, ha, h⟩
  · exact hx e h
  · exact hf a ha e h

theorem failsWith_mapM {f : α → Except ε β} {l : List α} (h : ∀ a ∈ l, FailsWith p (f a)) :
    FailsWith p (l.mapM f) := by
  induction l with
  | nil =>
    rw [List.mapM_nil]
    exact failsWith_ok []
  | cons a rest ih =>
    rw [List.mapM_cons]
    refine (h a List.mem_cons_self).bind fun b _ => ?_
    exact (ih fun c hc => h c (List.mem_cons_of_mem a hc)).bind fun others _ => failsWith_ok _

end FailsWith

def Meets (P : α → Prop) (Q : ε → Prop) : Except ε α → Prop
  | .ok a => P a
  | .error e => Q e

section Meets

variable {P : α → Prop} {Q : ε → Prop}

theorem Meets.bind {P' : β → Prop} {x : Except ε α} {f : α → Except ε β} (hx : Meets P Q x)
    (hf : ∀ a, P a → Meets P' Q (f a)) : Meets P' Q (x >>= f) := by
  cases x with
  | ok a => exact hf a hx
  | error e => exact hx

theorem Meets.mono {P' : α → Prop} {Q' : ε → Prop} {x : Except ε α} (hx : Meets P Q x)
    (hP : ∀ a, P a → P' a) (hQ : ∀ e, Q e → Q' e) : Meets P' Q' x := by
  cases x with
  | ok a => exact hP a hx
  | error e => exact hQ e hx

theorem Meets.of_eq_error {x : Except ε α} {e : ε} (hx : Meets P Q x) (h : x = .error e) :
    Q e := by
  rw [h] at hx
  exact hx

end Meets

/-- Items that each give a result related to them give a list of such results. -/
theorem exists_mapM_forall₂ {R : α → β → Prop} {f : α → Except ε β} {l : List α}
    (h : ∀ a ∈ l, ∃ b, f a = .ok b ∧ R a b) : ∃ bs, l.mapM f = .ok bs ∧ List.Forall₂ R l bs := by
  induction l with
  | nil => exact ⟨[], rfl, .nil⟩
  | cons a rest ih =>
    obtain ⟨b, hb, hR⟩ := h a List.mem_cons_self
    obtain ⟨bs, hbs, hall⟩ := ih fun c hc => h c (List.mem_cons_of_mem a hc)
    refine ⟨b :: bs, ?_, .cons hR hall⟩
    rw [List.mapM_cons, hb, hbs]
    rfl

theorem exists_mapM_eq_ok {f : α → Except ε β} {l : List α} (h : ∀ a ∈ l, ∃ b, f a = .ok b) :
    ∃ bs, l.mapM f = .ok bs := by
  obtain ⟨bs, hbs, -⟩ := exists_mapM_forall₂ (R := fun a b => f a = .ok b) fun a ha => by
    obtain ⟨b, hb⟩ := h a ha
    exact ⟨b, hb, hb⟩
  exact ⟨bs, hbs⟩

/-- Steps one after another fail at the first step that fails. -/
theorem foldlM_eq_error {f : β → α → Except ε β} {l : List α} {b : β} {e : ε}
    (h : l.foldlM f b = .error e) :
    ∃ front a back c, l = front ++ a :: back ∧ front.foldlM f b = .ok c ∧ f c a = .error e := by
  induction l generalizing b with
  | nil =>
    rw [List.foldlM_nil] at h
    cases h
  | cons a rest ih =>
    rw [List.foldlM_cons] at h
    rcases bind_eq_error.mp h with hfirst | ⟨c, hc, hrest⟩
    · exact ⟨[], a, rest, b, rfl, rfl, hfirst⟩
    · obtain ⟨front, a', back, d, rfl, hfront, hstep⟩ := ih hrest
      refine ⟨a :: front, a', back, d, rfl, ?_, hstep⟩
      rw [List.foldlM_cons, hc]
      exact hfront

def Agrees (R : α → β → Prop) : Except ε α → Except ε β → Prop
  | .ok a, .ok b => R a b
  | .error e, .error e' => e = e'
  | .ok _, .error _ => False
  | .error _, .ok _ => False

section Agrees

variable {α' β' : Type} {R : α → β → Prop} {S : α' → β' → Prop}

theorem Agrees.bind {x : Except ε α} {y : Except ε β} {f : α → Except ε α'} {g : β → Except ε β'}
    (h : Agrees R x y) (hf : ∀ a b, R a b → Agrees S (f a) (g b)) :
    Agrees S (x >>= f) (y >>= g) := by
  cases x with
  | ok a =>
    cases y with
    | ok b => exact hf a b h
    | error e => exact h.elim
  | error e =>
    cases y with
    | ok b => exact h.elim
    | error e' => exact h

/-- Computations that begin alike agree when what follows does. -/
theorem Agrees.bind_self {x : Except ε α} {f : α → Except ε α'} {g : α → Except ε β'}
    (hf : ∀ a, x = .ok a → Agrees S (f a) (g a)) : Agrees S (x >>= f) (x >>= g) := by
  cases x with
  | ok a => exact hf a rfl
  | error e => exact rfl

theorem Agrees.ite {p : Prop} [Decidable p] {x x' : Except ε α} {y y' : Except ε β}
    (h : p → Agrees R x y) (h' : ¬ p → Agrees R x' y') :
    Agrees R (if p then x else x') (if p then y else y') := by
  by_cases hp : p
  · rw [if_pos hp, if_pos hp]
    exact h hp
  · rw [if_neg hp, if_neg hp]
    exact h' hp

theorem Agrees.imp {x : Except ε α} {y : Except ε β} {R' : α → β → Prop} (h : Agrees R x y)
    (himp : ∀ a b, x = .ok a → y = .ok b → R a b → R' a b) : Agrees R' x y := by
  cases x with
  | ok a =>
    cases y with
    | ok b => exact himp a b rfl rfl h
    | error e => exact h
  | error e =>
    cases y with
    | ok b => exact h
    | error e' => exact h

theorem Agrees.exists_of_ok {x : Except ε α} {b : β} (h : Agrees R x (.ok b)) :
    ∃ a, x = .ok a ∧ R a b := by
  cases x with
  | ok a => exact ⟨a, rfl, h⟩
  | error e => exact h.elim

/-- Steps that agree give runs that agree; the relation may depend on what has been consumed. -/
theorem Agrees.foldlM {γ : Type} {R : List γ → α → β → Prop} {f : α → γ → Except ε α}
    {g : β → γ → Except ε β} {a : α} {b : β} (h : R [] a b)
    (hstep : ∀ l c a b, R l a b → Agrees (R (l ++ [c])) (f a c) (g b c)) (l : List γ) :
    Agrees (R l) (l.foldlM f a) (l.foldlM g b) := by
  induction l using List.reverseRecOn with
  | nil => exact h
  | append_singleton l c ih =>
    rw [List.foldlM_append, List.foldlM_append]
    refine ih.bind fun a b hab => ?_
    rw [List.foldlM_cons, List.foldlM_cons]
    simpa only [List.foldlM_nil, bind_pure] using hstep l c a b hab

end Agrees

end Outcome
end Quill
