import Quill.Proofs.Expr.Reading
import Quill.Proofs.Expr.Walk

/-!
What is noted on a walk through a list of lexemes, in order.

Every call and every turn of a loop has a time: the place counts most, and at one place the loops
that go on behind an operand come before the calls that begin one.  Times only grow along a walk, so
a loop never comes around at a place where a call has begun.
The rules for `Tracks` run a walk and the parser side by side: both give the same, or they fail
alike.
-/

namespace Quill
namespace Expr

/-! ## Times -/

def Task.rank : Task → Nat
  | .steps => 0
  | .chain level => Operator.levels - level
  | .binary level => Operator.levels + 1 + level
  | .unary => 2 * Operator.levels + 2
  | .primary => 2 * Operator.levels + 3

theorem Task.rank_steps : Task.steps.rank = 0 := rfl

theorem Task.rank_chain (level : Nat) : (Task.chain level).rank = Operator.levels - level := rfl

theorem Task.rank_binary (level : Nat) :
    (Task.binary level).rank = Operator.levels + 1 + level := rfl

theorem Task.rank_unary : Task.unary.rank = 2 * Operator.levels + 2 := rfl

theorem Task.rank_primary : Task.primary.rank = 2 * Operator.levels + 3 := rfl

def ranks : Nat := 2 * Operator.levels + 4

def Spot.time (s : Spot) (rank : Nat) : Nat := ranks * s.place + rank

def Moment.time? (m : Moment) : Option Nat :=
  match m.action with
  | .turn task => some (m.spot.time task.rank)
  | _ => none

/-- Whether a moment lies inside a list, at most one step beyond the limit on nesting. -/
structure Moment.Inside (ls : List Lexeme) (m : Moment) : Prop where
  place_lt : m.spot.place < ls.length
  depth_le : m.spot.depth ≤ maxNesting + 1
  read_lt : ∀ place, m.action = .read place → place < ls.length
  rank_lt : ∀ task, m.action = .turn task → task.rank < ranks

def Moment.Before (m m' : Moment) : Prop :=
  m.spot.place ≤ m'.spot.place ∧ ∀ t ∈ m.time?, ∀ t' ∈ m'.time?, t < t'

variable {ls : List Lexeme} {s s' s'' : Spot} {rank rank' rank'' : Nat} {ms ms' : List Moment}

structure Orderly (ls : List Lexeme) (s : Spot) (rank : Nat) (ms : List Moment) : Prop where
  inside : ∀ m ∈ ms, m.Inside ls
  rising : ms.Pairwise Moment.Before
  from_le : ∀ m ∈ ms, s.place ≤ m.spot.place ∧ ∀ t ∈ m.time?, s.time rank ≤ t

/-- Whether moments are over when a walk comes to a spot and a rank. -/
def Over (s : Spot) (rank : Nat) (ms : List Moment) : Prop :=
  ∀ m ∈ ms, m.spot.place ≤ s.place ∧ ∀ t ∈ m.time?, t < s.time rank

def Onward (s : Spot) (rank : Nat) (s' : Spot) (rank' : Nat) : Prop :=
  s.place ≤ s'.place ∧ s.time rank ≤ s'.time rank'

theorem Onward.trans (h : Onward s rank s' rank') (h' : Onward s' rank' s'' rank'') :
    Onward s rank s'' rank'' :=
  ⟨Nat.le_trans h.1 h'.1, Nat.le_trans h.2 h'.2⟩

theorem Onward.of_le (h : rank ≤ rank') (s : Spot) : Onward s rank s rank' :=
  ⟨Nat.le_refl _, Nat.add_le_add_left h _⟩

/-- All times at a later place are later. -/
theorem Onward.of_lt (h : s.place < s'.place) (hrank : rank ≤ rank' + ranks) :
    Onward s rank s' rank' := by
  refine ⟨Nat.le_of_lt h, ?_⟩
  have hmul : ranks * (s.place + 1) ≤ ranks * s'.place := Nat.mul_le_mul_left ranks h
  rw [Nat.mul_add, Nat.mul_one] at hmul
  rw [Spot.time, Spot.time]
  omega

theorem Orderly.append (h : Orderly ls s rank ms) (hover : Over s' rank' ms)
    (honward : Onward s rank s' rank') (h' : Orderly ls s' rank' ms') :
    Orderly ls s rank (ms ++ ms') := by
  refine ⟨List.forall_mem_append.mpr ⟨h.inside, h'.inside⟩,
    List.pairwise_append.mpr ⟨h.rising, h'.rising, fun m hm m' hm' => ?_⟩,
    List.forall_mem_append.mpr ⟨h.from_le, fun m hm => ?_⟩⟩
  · obtain ⟨hle, hlt⟩ := hover m hm
    obtain ⟨hle', hlt'⟩ := h'.from_le m' hm'
    exact ⟨Nat.le_trans hle hle', fun t ht t' ht' => Nat.lt_of_lt_of_le (hlt t ht) (hlt' t' ht')⟩
  · obtain ⟨hle, hlt⟩ := h'.from_le m hm
    exact ⟨Nat.le_trans honward.1 hle, fun t ht => Nat.le_trans honward.2 (hlt t ht)⟩

theorem Over.append (h : Over s rank ms) (honward : Onward s rank s' rank')
    (h' : Over s' rank' ms') : Over s' rank' (ms ++ ms') := by
  refine List.forall_mem_append.mpr ⟨fun m hm => ?_, h'⟩
  obtain ⟨hle, hlt⟩ := h m hm
  exact ⟨Nat.le_trans hle honward.1, fun t ht => Nat.lt_of_lt_of_le (hlt t ht) honward.2⟩

structure Still (ls : List Lexeme) (s s' : Spot) (ms : List Moment) : Prop where
  inside : ∀ m ∈ ms, m.Inside ls
  rising : ms.Pairwise Moment.Before
  between : ∀ m ∈ ms, m.time? = none ∧ s.place ≤ m.spot.place ∧ m.spot.place ≤ s'.place
  place_le : s.place ≤ s'.place

theorem Still.orderly (h : Still ls s s' ms) (rank : Nat) : Orderly ls s rank ms := by
  refine ⟨h.inside, h.rising, fun m hm => ?_⟩
  obtain ⟨hnone, hle, -⟩ := h.between m hm
  rw [hnone]
  exact ⟨hle, by simp⟩

theorem Still.over (h : Still ls s s' ms) (rank : Nat) : Over s' rank ms := by
  intro m hm
  obtain ⟨hnone, -, hle⟩ := h.between m hm
  rw [hnone]
  exact ⟨hle, by simp⟩

theorem Still.append (h : Still ls s s' ms) (h' : Still ls s' s'' ms') :
    Still ls s s'' (ms ++ ms') := by
  refine ⟨List.forall_mem_append.mpr ⟨h.inside, h'.inside⟩,
    List.pairwise_append.mpr ⟨h.rising, h'.rising, fun m hm m' hm' => ?_⟩,
    List.forall_mem_append.mpr ⟨fun m hm => ?_, fun m hm => ?_⟩,
    Nat.le_trans h.place_le h'.place_le⟩
  · obtain ⟨hnone, -, hle⟩ := h.between m hm
    refine ⟨Nat.le_trans hle (h'.between m' hm').2.1, ?_⟩
    rw [hnone]
    simp
  · obtain ⟨hnone, hle, hle'⟩ := h.between m hm
    exact ⟨hnone, hle, Nat.le_trans hle' h'.place_le⟩
  · obtain ⟨hnone, hle, hle'⟩ := h'.between m hm
    exact ⟨hnone, Nat.le_trans h.place_le hle, hle'⟩

/-! ## Walks in which no task begins -/

namespace Walk

variable {α β γ : Type} {w : Walk α} {f : α → Walk β} {a : α} {b : β}

theorem bind_of_ok (h : (w ls s).result = .ok (a, s')) :
    (w >>= f) ls s = ⟨(w ls s).moments ++ (f a ls s').moments, (f a ls s').result⟩ := by
  show andThen w f ls s = _
  rw [andThen, h]

theorem bind_of_error {e : Stop} (h : (w ls s).result = .error e) :
    (w >>= f) ls s = ⟨(w ls s).moments, .error e⟩ := by
  show andThen w f ls s = _
  rw [andThen, h]

structure Quiet (ls : List Lexeme) (w : Walk α) (s : Spot) (a : α) (s' : Spot) : Prop where
  result : (w ls s).result = .ok (a, s')
  still : Still ls s s' (w ls s).moments

structure Halts (ls : List Lexeme) (w : Walk α) (s : Spot) (e : Failure) : Prop where
  result : (w ls s).result = .error (.failed e)
  still : ∃ s', Still ls s s' (w ls s).moments

theorem Quiet.bind (h : Quiet ls w s a s') (h' : Quiet ls (f a) s' b s'') :
    Quiet ls (w >>= f) s b s'' := by
  constructor
  · rw [bind_of_ok h.result]
    exact h'.result
  · rw [bind_of_ok h.result]
    exact h.still.append h'.still

theorem Quiet.bind_halts {e : Failure} (h : Quiet ls w s a s') (h' : Halts ls (f a) s' e) :
    Halts ls (w >>= f) s e := by
  obtain ⟨last, hstill⟩ := h'.still
  constructor
  · rw [bind_of_ok h.result]
    exact h'.result
  · rw [bind_of_ok h.result]
    exact ⟨last, h.still.append hstill⟩

theorem quiet_pure (a : α) (s : Spot) : Quiet ls (pure a) s a s :=
  ⟨rfl, ⟨List.forall_mem_nil _, .nil, List.forall_mem_nil _, Nat.le_refl _⟩⟩

theorem quiet_ofExcept {x : Except Failure α} (h : x = .ok a) (s : Spot) :
    Quiet ls (ofExcept x) s a s := by
  rw [h]
  exact quiet_pure a s

theorem halts_ofExcept {x : Except Failure α} {e : Failure} (h : x = .error e) (s : Spot) :
    Halts ls (ofExcept x) s e := by
  rw [h]
  exact ⟨rfl, s, ⟨List.forall_mem_nil _, .nil, List.forall_mem_nil _, Nat.le_refl _⟩⟩

theorem quiet_move {f : Spot → Spot} (h : s.place ≤ (f s).place) :
    Quiet ls (move f) s () (f s) :=
  ⟨rfl, ⟨List.forall_mem_nil _, .nil, List.forall_mem_nil _, h⟩⟩

theorem quiet_note {action : Action} (hinside : Moment.Inside ls ⟨action, s⟩)
    (hnone : Moment.time? ⟨action, s⟩ = none) : Quiet ls (note action) s () s :=
  ⟨rfl, ⟨List.forall_mem_singleton.mpr hinside, List.pairwise_singleton _ _,
    List.forall_mem_singleton.mpr ⟨hnone, Nat.le_refl _, Nat.le_refl _⟩, Nat.le_refl _⟩⟩

theorem quiet_spot (s : Spot) : Quiet ls spot s s s :=
  ⟨rfl, ⟨List.forall_mem_nil _, .nil, List.forall_mem_nil _, Nat.le_refl _⟩⟩

theorem quiet_lookup {place : Nat} {l : Lexeme} (h : ls[place]? = some l) (s : Spot) :
    Quiet ls (lookup place) s l s := by
  refine ⟨?_, ⟨List.forall_mem_nil _, .nil, List.forall_mem_nil _, Nat.le_refl _⟩⟩
  rw [lookup, h]

end Walk

/-! ## The cursor -/

/-- A list whose only end mark is its last lexeme. -/
def Sealed (ls : List Lexeme) : Prop :=
  ∃ body stop, ls = body ++ [stop] ∧ stop.kind = .eof ∧ ∀ l ∈ body, l.kind ≠ .eof

structure At (ls : List Lexeme) (s : Spot) (l : Lexeme) : Prop where
  found : ls[s.place]? = some l
  depth_le : s.depth ≤ maxNesting

def Spot.cursor (ls : List Lexeme) (s : Spot) : Cursor := ⟨ls.drop s.place, s.depth⟩

variable {l : Lexeme}

theorem At.place_lt (h : At ls s l) : s.place < ls.length :=
  (List.getElem?_eq_some_iff.mp h.found).1

theorem At.cursor_eq (h : At ls s l) : s.cursor ls = ⟨l :: ls.drop (s.place + 1), s.depth⟩ := by
  obtain ⟨hlt, hl⟩ := List.getElem?_eq_some_iff.mp h.found
  rw [Spot.cursor, List.drop_eq_getElem_cons hlt, hl]

theorem At.current_eq (h : At ls s l) : (s.cursor ls).current = l := by
  rw [h.cursor_eq]
  rfl

theorem At.isAt_iff (h : At ls s l) {kind : Lexeme.Kind} {text : String} :
    (s.cursor ls).isAt kind text = true ↔ l.Is kind text := by
  rw [h.cursor_eq, Cursor.isAt_cons]

/-- Behind a lexeme that is not the end mark there is another one. -/
theorem Sealed.lt (hls : Sealed ls) {place : Nat} (h : ls[place]? = some l) (hl : l.kind ≠ .eof) :
    place + 1 < ls.length := by
  obtain ⟨body, stop, rfl, hstop, -⟩ := hls
  obtain ⟨hlt, rfl⟩ := List.getElem?_eq_some_iff.mp h
  rw [List.length_append, List.length_singleton] at hlt ⊢
  by_contra hlast
  obtain rfl : place = body.length := by omega
  rw [List.getElem_concat_length rfl] at hl
  exact hl hstop

theorem At.next (h : At ls s l) (hls : Sealed ls) (hl : l.kind ≠ .eof) : ∃ m, At ls s.next m := by
  have hlt := hls.lt h.found hl
  exact ⟨_, List.getElem?_eq_getElem hlt, h.depth_le⟩

theorem At.advance_eq (h : At ls s l) (hl : l.kind ≠ .eof) :
    (s.cursor ls).advance = s.next.cursor ls := by
  rw [h.cursor_eq, Cursor.advance_cons hl]
  rfl

theorem At.next_eq {m : Lexeme} (h : At ls s l) (hm : At ls s.next m) :
    (s.cursor ls).next = m := by
  have hrest : ls.drop (s.place + 1) = m :: ls.drop (s.place + 1 + 1) :=
    congrArg Cursor.rest hm.cursor_eq
  rw [h.cursor_eq, hrest]
  rfl

namespace Walk

variable {kind : Lexeme.Kind} {text : String} {problem : Problem}

theorem quiet_read (h : At ls s l) {place : Nat} {m : Lexeme} (hm : ls[place]? = some m) :
    Quiet ls (read place) s m s := by
  refine (quiet_note ⟨h.place_lt, Nat.le_succ_of_le h.depth_le, fun place' hread => ?_, by simp⟩
    rfl).bind (quiet_lookup hm s)
  cases hread
  exact (List.getElem?_eq_some_iff.mp hm).1

theorem quiet_current (h : At ls s l) : Quiet ls current s l s :=
  ⟨(quiet_read h h.found).result, (quiet_read h h.found).still⟩

theorem quiet_peek {m : Lexeme} (h : At ls s l) (hm : At ls s.next m) : Quiet ls peek s m s := by
  have hlt : s.place + 1 < ls.length := hm.place_lt
  have hplace : min (s.place + 1) (ls.length - 1) = s.place + 1 := by omega
  have hread : Quiet ls (read (min (s.place + 1) (ls.length - 1))) s m s := by
    rw [hplace]
    exact quiet_read h hm.found
  exact ⟨hread.result, hread.still⟩

theorem quiet_moved (h : At ls s l) : Quiet ls (note .advance) s () s :=
  quiet_note ⟨h.place_lt, Nat.le_succ_of_le h.depth_le, by simp, by simp⟩ rfl

theorem quiet_advance {m : Lexeme} (h : At ls s l) (hm : At ls s.next m) (hl : l.kind ≠ .eof) :
    Quiet ls advance s l s.next := by
  refine (quiet_current h).bind ?_
  rw [if_pos hl]
  exact (quiet_move (Nat.le_succ s.place)).bind ((quiet_moved hm).bind (quiet_pure l s.next))

theorem quiet_take {m : Lexeme} (h : At ls s l) (hm : At ls s.next m) (hl : l.Is kind text)
    (hkind : kind ≠ .eof) : Quiet ls (take kind text) s true s.next := by
  refine (quiet_current h).bind ?_
  rw [if_pos hl]
  exact (quiet_advance h hm (hl.kind_ne_eof hkind)).bind (quiet_pure true s.next)

theorem quiet_take_of_not (h : At ls s l) (hl : ¬ l.Is kind text) :
    Quiet ls (take kind text) s false s := by
  refine (quiet_current h).bind ?_
  rw [if_neg hl]
  exact quiet_pure false s

theorem quiet_expect {m : Lexeme} (h : At ls s l) (hm : At ls s.next m) (hl : l.kind = kind)
    (hkind : kind ≠ .eof) : Quiet ls (expect text kind problem) s l s.next := by
  refine (quiet_current h).bind ?_
  rw [if_pos hl]
  exact quiet_advance h hm (hl ▸ hkind)

theorem halts_expect (h : At ls s l) (hl : l.kind ≠ kind) :
    Halts ls (expect text kind problem) s (.malformed ⟨text, problem, l.position⟩) := by
  refine (quiet_current h).bind_halts ?_
  rw [if_neg hl]
  exact halts_ofExcept rfl s

/-- The count is raised even where it goes beyond the limit. -/
theorem quiet_raise (h : At ls s l) : Quiet ls (note .enter) s.deeper () s.deeper :=
  quiet_note ⟨h.place_lt, Nat.succ_le_succ h.depth_le, by simp, by simp⟩ rfl

theorem quiet_enter {m : Lexeme} (h : At ls s m) (hdepth : s.depth + 1 ≤ maxNesting) :
    Quiet ls (enter text l) s () s.deeper := by
  refine (quiet_move (Nat.le_refl s.place)).bind ((quiet_raise h).bind ((quiet_spot _).bind ?_))
  have hwithin : ¬ maxNesting < s.deeper.depth := Nat.not_lt.mpr hdepth
  rw [if_neg hwithin]
  exact quiet_pure () s.deeper

theorem halts_enter {m : Lexeme} (h : At ls s m) (hdepth : maxNesting < s.depth + 1) :
    Halts ls (enter text l) s (.malformed ⟨text, .tooDeep, l.position⟩) := by
  refine (quiet_move (Nat.le_refl s.place)).bind_halts ((quiet_raise h).bind_halts
    ((quiet_spot _).bind_halts ?_))
  have hbeyond : maxNesting < s.deeper.depth := hdepth
  rw [if_pos hbeyond]
  exact halts_ofExcept rfl s.deeper

theorem quiet_leave (s : Spot) : Quiet ls leave s () s.shallower := quiet_move (Nat.le_refl _)

theorem quiet_signs {m : Lexeme} (h : At ls s l) (hm : At ls s.next m) (hl : l.Is .operator "-") :
    Quiet ls (signs l) s (m.kind == .number) s := by
  rw [signs, if_pos hl]
  exact (quiet_peek h hm).bind (quiet_pure _ s)

theorem quiet_signs_of_not (hl : ¬ l.Is .operator "-") (s : Spot) :
    Quiet ls (signs l) s false s := by
  rw [signs, if_neg hl]
  exact quiet_pure false s

end Walk

/-! ## A walk beside the parser -/

section Tracks

variable {α β γ δ : Type}

/-- Whether what comes of a walk is related to what comes of a computation: the results, with the
spot where the walk ends, or else the failures, which are the same. -/
inductive Matches (P : α → Spot → β → Prop) : Except Stop (α × Spot) → Except Failure β → Prop
  | ok {a : α} {s : Spot} {b : β} : P a s b → Matches P (.ok (a, s)) (.ok b)
  | failed (e : Failure) : Matches P (.error (.failed e)) (.error e)

theorem Matches.mono {P P' : α → Spot → β → Prop} {r : Except Stop (α × Spot)}
    {x : Except Failure β} (h : Matches P r x) (himp : ∀ a s b, P a s b → P' a s b) :
    Matches P' r x := by
  cases h with
  | ok hP => exact .ok (himp _ _ _ hP)
  | failed e => exact .failed e

theorem Matches.exists_of_ok {P : α → Spot → β → Prop} {r : Except Stop (α × Spot)} {b : β}
    (h : Matches P r (.ok b)) : ∃ a s, r = .ok (a, s) ∧ P a s b := by
  cases h with
  | ok hP => exact ⟨_, _, rfl, hP⟩

/-- Whether a walk from one spot and rank on fails like a computation, or gives a related result and
is then at another rank. -/
structure Tracks (ls : List Lexeme) (s : Spot) (rank rank' : Nat) (Q : α → Spot → β → Prop)
    (w : Walk α) (x : Except Failure β) : Prop where
  orderly : Orderly ls s rank (w ls s).moments
  result : Matches
    (fun a s' b => Q a s' b ∧ Over s' rank' (w ls s).moments ∧ Onward s rank s' rank')
    (w ls s).result x

variable {Q : α → Spot → β → Prop} {Q' : γ → Spot → δ → Prop} {w : Walk α} {f : α → Walk γ}
  {x : Except Failure β} {y : Except Failure δ} {g : β → Except Failure δ} {a : α} {b : β}

theorem Tracks.of_quiet (h : Walk.Quiet ls w s a s') (hQ : Q a s' b)
    (honward : Onward s rank s' rank') : Tracks ls s rank rank' Q w (.ok b) := by
  refine ⟨h.still.orderly rank, ?_⟩
  rw [h.result]
  exact .ok ⟨hQ, h.still.over rank', honward⟩

theorem Tracks.of_halts {e : Failure} (h : Walk.Halts ls w s e) :
    Tracks ls s rank rank' Q w (.error e) := by
  obtain ⟨_, hstill⟩ := h.still
  refine ⟨hstill.orderly rank, ?_⟩
  rw [h.result]
  exact .failed e

/-- A walk goes on where an earlier one has ended. -/
theorem Tracks.of_ok (hresult : (w ls s).result = .ok (a, s'))
    (horderly : Orderly ls s rank (w ls s).moments) (hover : Over s' rank' (w ls s).moments)
    (honward : Onward s rank s' rank') (hf : Tracks ls s' rank' rank'' Q' (f a) y) :
    Tracks ls s rank rank'' Q' (w >>= f) y := by
  constructor
  · rw [Walk.bind_of_ok hresult]
    exact horderly.append hover honward hf.orderly
  · rw [Walk.bind_of_ok hresult]
    refine hf.result.mono fun _ _ _ h => ?_
    exact ⟨h.1, hover.append h.2.2 h.2.1, honward.trans h.2.2⟩

theorem Tracks.bind (h : Tracks ls s rank rank' Q w x)
    (hf : ∀ a s' b, Q a s' b → Tracks ls s' rank' rank'' Q' (f a) (g b)) :
    Tracks ls s rank rank'' Q' (w >>= f) (x >>= g) := by
  obtain ⟨horderly, hmatch⟩ := h
  generalize hresult : (w ls s).result = result at hmatch
  cases hmatch with
  | ok h => exact .of_ok hresult horderly h.2.1 h.2.2 (hf _ _ _ h.1)
  | failed e =>
    constructor
    · rw [Walk.bind_of_error hresult]
      exact horderly
    · rw [Walk.bind_of_error hresult]
      exact .failed e

theorem Tracks.bind_quiet (h : Walk.Quiet ls w s a s') (honward : Onward s rank s' rank')
    (hf : Tracks ls s' rank' rank'' Q' (f a) y) : Tracks ls s rank rank'' Q' (w >>= f) y :=
  .of_ok h.result (h.still.orderly rank) (h.still.over rank') honward hf

theorem Tracks.bind_halts {e : Failure} (h : Walk.Halts ls w s e) :
    Tracks ls s rank rank'' Q' (w >>= f) (.error e) := by
  obtain ⟨_, hstill⟩ := h.still
  constructor
  · rw [Walk.bind_of_error h.result]
    exact hstill.orderly rank
  · rw [Walk.bind_of_error h.result]
    exact .failed e

theorem Tracks.mono {P : α → Spot → β → Prop} {first last : Nat}
    (h : Tracks ls s rank rank' Q w x) (himp : ∀ a s' b, Q a s' b → P a s' b)
    (hfirst : first ≤ rank) (hlast : rank' ≤ last) : Tracks ls s first last P w x := by
  refine ⟨⟨h.orderly.inside, h.orderly.rising, fun m hm => ?_⟩, h.result.mono fun _ s' _ h => ?_⟩
  · obtain ⟨hplace, htime⟩ := h.orderly.from_le m hm
    exact ⟨hplace, fun t ht => Nat.le_trans (Onward.of_le hfirst s).2 (htime t ht)⟩
  · obtain ⟨hQ, hover, honward⟩ := h
    refine ⟨himp _ _ _ hQ, fun m hm => ?_,
      ((Onward.of_le hfirst s).trans honward).trans (.of_le hlast s')⟩
    obtain ⟨hplace, htime⟩ := hover m hm
    exact ⟨hplace, fun t ht => Nat.lt_of_lt_of_le (htime t ht) (Onward.of_le hlast s').2⟩

theorem Tracks.imp {P : α → Spot → β → Prop} (h : Tracks ls s rank rank' Q w x)
    (himp : ∀ a s' b, Q a s' b → P a s' b) : Tracks ls s rank rank' P w x :=
  h.mono himp (Nat.le_refl _) (Nat.le_refl _)

/-! ## Rules -/

theorem Tracks.of_pure (hQ : Q a s b) (hle : rank ≤ rank') :
    Tracks ls s rank rank' Q (pure a) (.ok b) :=
  .of_quiet (Walk.quiet_pure a s) hQ (.of_le hle s)

theorem Tracks.fails {text : String} (problem : Problem) (l : Lexeme) :
    Tracks ls s rank rank' Q (Walk.ofExcept (problemAt text problem l))
      (problemAt text problem l) :=
  .of_halts (Walk.halts_ofExcept rfl s)

/-- What a computation gives is gone on with, and what it fails with stops the walk. -/
theorem Tracks.ofExcept {ε : Type} {z : Except Failure ε} {f : ε → Walk γ}
    {g : ε → Except Failure δ} (hf : ∀ r, Tracks ls s rank rank' Q' (f r) (g r)) :
    Tracks ls s rank rank' Q' (Walk.ofExcept z >>= f) (z >>= g) := by
  cases z with
  | ok r => exact .bind_quiet (Walk.quiet_ofExcept rfl s) (.of_le (Nat.le_refl _) s) (hf r)
  | error e => exact .bind_halts (Walk.halts_ofExcept rfl s)

/-- A task begins. -/
theorem Tracks.turn (h : At ls s l) {task : Task} (htask : task.rank = rank)
    (hlt : rank < ranks) {f : Unit → Walk γ} (hf : Tracks ls s (rank + 1) rank' Q' (f ()) y) :
    Tracks ls s rank rank' Q' (Walk.note (.turn task) >>= f) y := by
  subst htask
  have hresult : (Walk.note (.turn task) ls s).result = .ok ((), s) := rfl
  refine .of_ok hresult ⟨?_, List.pairwise_singleton _ _, ?_⟩ ?_ (.of_le (Nat.le_succ _) s) hf
  · refine List.forall_mem_singleton.mpr
      ⟨h.place_lt, Nat.le_succ_of_le h.depth_le, by simp, fun task' htask => ?_⟩
    cases htask
    exact hlt
  · refine List.forall_mem_singleton.mpr ⟨Nat.le_refl _, fun t ht => ?_⟩
    cases ht
    exact Nat.le_refl _
  · refine List.forall_mem_singleton.mpr ⟨Nat.le_refl _, fun t ht => ?_⟩
    cases ht
    exact Nat.lt_succ_self _

section Cursor

variable {f : Lexeme → Walk γ} {text word : String} {kind : Lexeme.Kind}

theorem Tracks.current (h : At ls s l) (hf : Tracks ls s rank rank' Q' (f l) y) :
    Tracks ls s rank rank' Q' (Walk.current >>= f) y :=
  .bind_quiet (Walk.quiet_current h) (.of_le (Nat.le_refl _) s) hf

/-- Behind a consumed lexeme a walk may go on with any rank. -/
theorem Tracks.advance (hls : Sealed ls) (h : At ls s l) (hl : l.kind ≠ .eof)
    (rest : Nat) (hrank : rank ≤ rest + ranks)
    (hf : ∀ m, At ls s.next m → Tracks ls s.next rest rank' Q' (f l) y) :
    Tracks ls s rank rank' Q' (Walk.advance >>= f) y := by
  obtain ⟨m, hm⟩ := h.next hls hl
  exact .bind_quiet (Walk.quiet_advance h hm hl) (.of_lt (Nat.lt_succ_self _) hrank) (hf m hm)

/-- A lexeme of a kind that must stand here. -/
theorem Tracks.expect (hls : Sealed ls) (h : At ls s l) (hkind : kind ≠ .eof)
    (rest : Nat) (hrank : rank ≤ rest + ranks) {problem : Problem}
    (hf : l.kind = kind → ∀ m, At ls s.next m → Tracks ls s.next rest rank' Q' (f l) y) :
    Tracks ls s rank rank' Q' (Walk.expect text kind problem >>= f)
      (if l.kind = kind then y else problemAt text problem l) := by
  by_cases hl : l.kind = kind
  · rw [if_pos hl]
    obtain ⟨m, hm⟩ := h.next hls (hl ▸ hkind)
    exact .bind_quiet (Walk.quiet_expect h hm hl hkind) (.of_lt (Nat.lt_succ_self _) hrank)
      (hf hl m hm)
  · rw [if_neg hl]
    exact .bind_halts (Walk.halts_expect h hl)

/-- A lexeme that may stand here. -/
theorem Tracks.take {w' : Walk γ} {v : Walk γ} {y' : Except Failure δ} {c : Prop} [Decidable c]
    (hls : Sealed ls) (h : At ls s l) (hkind : kind ≠ .eof) (rest : Nat)
    (hrank : rank ≤ rest + ranks) (hc : c ↔ l.Is kind word)
    (hyes : l.Is kind word → ∀ m, At ls s.next m → Tracks ls s.next rest rank' Q' v y)
    (hno : ¬ l.Is kind word → Tracks ls s rank rank' Q' w' y') :
    Tracks ls s rank rank' Q' (Walk.take kind word >>= fun taken => if taken = true then v else w')
      (if c then y else y') := by
  by_cases hl : l.Is kind word
  · rw [if_pos (hc.mpr hl)]
    obtain ⟨m, hm⟩ := h.next hls (hl.kind_ne_eof hkind)
    refine .bind_quiet (Walk.quiet_take h hm hl hkind) (.of_lt (Nat.lt_succ_self _) hrank) ?_
    rw [if_pos rfl]
    exact hyes hl m hm
  · rw [if_neg (fun h => hl (hc.mp h))]
    refine .bind_quiet (Walk.quiet_take_of_not h hl) (.of_le (Nat.le_refl _) s) ?_
    rw [if_neg Bool.false_ne_true]
    exact hno hl

/-- One more parenthesis or negation is open, unless there are too many. -/
theorem Tracks.enter (h : At ls s l) (opener : Lexeme) {f : Unit → Walk γ}
    {g : Cursor → Except Failure δ}
    (hf : At ls s.deeper l → Tracks ls s.deeper rank rank' Q' (f ()) (g (s.deeper.cursor ls))) :
    Tracks ls s rank rank' Q' (Walk.enter text opener >>= f)
      (Expr.enter text opener (s.cursor ls) >>= g) := by
  by_cases hdepth : s.depth + 1 ≤ maxNesting
  · rw [enter_of_le text opener hdepth, Outcome.ok_bind]
    exact .bind_quiet (Walk.quiet_enter h hdepth) (.of_le (Nat.le_refl _) s) (hf ⟨h.found, hdepth⟩)
  · have hbeyond : maxNesting < s.depth + 1 := Nat.lt_of_not_le hdepth
    have hfails : Expr.enter text opener (s.cursor ls) =
        .error (.malformed ⟨text, .tooDeep, opener.position⟩) := if_pos hbeyond
    rw [hfails, Outcome.error_bind]
    exact .bind_halts (Walk.halts_enter h hbeyond)

end Cursor

end Tracks

end Expr
end Quill
