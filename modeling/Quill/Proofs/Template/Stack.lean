import Quill.Proofs.Outcome
import Quill.Proofs.Template.Mirroring

/-!
The stack of the parser of templates after any tokens.

At every point the root is at the bottom, with the list that is returned in the end; the node of
each level ends the list of the level below, as it did when its block was opened; and each level
fills the list of its node, which for a choice is the list of the latest branch.  Choices are in
order, and there are as many levels above the root as there are blocks that were opened and not
closed.
-/

namespace Quill

namespace Token

def opens (t : Token) : Bool := t.kind == .block && ["for", "if"].contains t.command

def closes (t : Token) : Bool := t.kind == .block && ["endfor", "endif"].contains t.command

end Token

namespace Template

open Outcome

namespace Level

variable {s : Store} {v : View} {level : Level} {node : Nat} {block : Block}

def EndsListOf (s : Store) (level below : Level) : Prop :=
  ∃ node outer, level.node? = some node ∧ s.lists[below.list]? = some (outer ++ [node])

/-- Whether the list of a level is the list of its node: the body of a loop, or the body of the
latest branch of a choice. -/
def Fills (s : Store) : Level → Prop
  | .root _ => True
  | .loop list node t => ∃ name items, s.cells[node]? = some (.loop t name items list)
  | .choice list node t =>
    ∃ earlier condition, s.cells[node]? = some (.choice t (earlier ++ [(condition, list)]))

theorem Opens.fills (h : level.Opens s v node block) : level.Fills s := by
  cases h with
  | loop hcell => exact ⟨_, _, hcell⟩
  | choice hcell _ => exact ⟨_, _, hcell⟩

theorem eq_loop (h : level.command = "for") : ∃ list node t, level = .loop list node t := by
  cases level with
  | loop list node t => exact ⟨list, node, t, rfl⟩
  | root _ => simp [command] at h
  | choice _ _ _ => simp [command] at h

end Level

namespace Assembly

/-! ## One token -/

/-- What a token does to a stack.  A tag that begins a branch turns the innermost level to another
list of the same node. -/
inductive Turns : List Level → Token → List Level → Prop
  | stay {stack : List Level} {t : Token} :
      t.opens = false → t.closes = false → Turns stack t stack
  | push {level : Level} {stack : List Level} {t : Token} :
      t.opens = true → t.closes = false → Turns stack t (level :: stack)
  | pop {level : Level} {stack : List Level} {t : Token} :
      t.opens = false → t.closes = true → Turns (level :: stack) t stack
  | turn {level level' : Level} {stack : List Level} {t : Token} :
      t.opens = false → t.closes = false → level'.node? = level.node? →
      Turns (level :: stack) t (level' :: stack)

variable {a a' : Assembly} {b : Builder} {t : Token}

def Follow (a : Assembly) (t : Token) (a' : Assembly) (b' : Builder) : Prop :=
  a'.Mirrors b' ∧ Turns a.stack t a'.stack

theorem agrees_attach {R : Assembly → Builder → Prop} {x : Except Refusal Assembly}
    {y : Except Refusal Builder} (h : Agrees R x y) : Agrees R (attach t x) (attach t y) := by
  cases x with
  | ok a =>
    cases y with
    | ok b => exact h
    | error e => exact h
  | error e =>
    cases y with
    | ok b => exact h
    | error e' => exact congrArg (Refusal.at t) h

theorem fresh_of_readLoop {block : Block} (h : readLoop t = .ok block) : Fresh block := by
  rw [readLoop] at h
  split at h
  · cases h
  · obtain ⟨items, -, ⟨⟩⟩ := bind_eq_ok.mp h
    exact .loop

theorem choiceToExtend_agrees (h : a.Mirrors b) (t : Token) :
    Agrees (fun ours theirs => ∃ list node opener finished c before frames,
      ours = (node, opener) ∧ a.top = .choice list node opener ∧
      theirs = (opener, finished ++ [.mk (some c) b.body], before, frames) ∧
      b.frames = ⟨.choice opener finished (some c), before⟩ :: frames)
      (a.choiceToExtend t) (b.choiceToExtend t) := by
  rcases h.top with ⟨hframes, htop, -⟩ | ⟨⟨block, before⟩, frames, _, _, hframes, -, hcommand, -⟩
  · rw [choiceToExtend, Builder.choiceToExtend, htop, hframes]
    exact h.unexpected_eq t
  · cases block with
    | loop _ _ _ =>
      obtain ⟨list, node, opener, htop⟩ := Level.eq_loop hcommand
      rw [choiceToExtend, Builder.choiceToExtend, htop, hframes]
      exact h.unexpected_eq t
    | choice opener finished condition =>
      obtain ⟨list, node, htop, hdefault⟩ := h.top_eq hframes
      rw [choiceToExtend, Builder.choiceToExtend, htop, hframes]
      dsimp only
      rw [hdefault]
      cases condition with
      | none => rfl
      | some c => exact ⟨list, node, opener, finished, c, before, frames, rfl, rfl, rfl, rfl⟩

theorem close_agrees (h : a.Mirrors b) (hopens : t.opens = false) (hcloses : t.closes = true)
    (command : String) : Agrees (a.Follow t) (a.close command t) (b.close command t) := by
  refine Agrees.bind_self fun _ _ => ?_
  rcases h.top with ⟨hframes, htop, hbelow⟩ | ⟨f, frames, next, rest, hframes, hbelow, hcommand, -⟩
  · rw [hbelow, hframes]
    exact h.unexpected_eq t
  · rw [hbelow, hframes]
    dsimp only
    rw [hcommand]
    refine .ite (fun _ => ?_) fun _ => h.unexpected_eq t
    obtain ⟨_, _, hbelow', hclose⟩ := h.close hframes
    cases hbelow.symm.trans hbelow'
    refine ⟨hclose, ?_⟩
    rw [stack, hbelow]
    exact .pop hopens hcloses

theorem Mirrors.follow_openBlock (h : a.Mirrors b) {block : Block} (hblock : Fresh block)
    (hopens : t.opens = true) (hcloses : t.closes = false) :
    a.Follow t (a.openBlock block) (b.openBlock block) :=
  ⟨h.openBlock hblock, .push hopens hcloses⟩

/-- A tag that begins a branch, behind what it reads. -/
theorem branch_agrees (h : a.Mirrors b) (hopens : t.opens = false) (hcloses : t.closes = false)
    {α : Type} (read : Except Refusal α) (condition : α → Option Expr) :
    Agrees (a.Follow t)
      (a.choiceToExtend t >>= fun ours => read >>= fun r =>
        pure (a.branch ours.1 ours.2 (condition r)))
      (b.choiceToExtend t >>= fun theirs => read >>= fun r =>
        pure ⟨[], ⟨.choice theirs.1 theirs.2.1 (condition r), theirs.2.2.1⟩ :: theirs.2.2.2⟩) := by
  refine (choiceToExtend_agrees h t).bind ?_
  rintro _ _ ⟨list, node, opener, finished, c, before, frames, rfl, htop, rfl, hframes⟩
  refine .bind_self fun r _ => ⟨h.branch hframes htop (condition r), ?_⟩
  rw [stack, htop]
  exact .turn hopens hcloses rfl

theorem block_agrees (h : a.Mirrors b) (hkind : t.kind = .block) :
    Agrees (a.Follow t) (a.block t) (b.block t) := by
  have hopens : t.opens = ["for", "if"].contains t.command := by simp [Token.opens, hkind]
  have hcloses : t.closes = ["endfor", "endif"].contains t.command := by
    simp [Token.closes, hkind]
  refine .ite (fun hfor => .bind_self fun block hblock => ?_) fun _ => .ite (fun hendfor => ?_)
    fun _ => .ite (fun hif => .bind_self fun condition _ => ?_) fun _ => .ite (fun helif => ?_)
    fun _ => .ite (fun helse => .bind_self fun _ _ => ?_) fun _ => .ite (fun hendif => ?_)
    fun _ => .ite (fun _ => rfl) fun _ => ?_
  · rw [hfor] at hopens hcloses
    exact h.follow_openBlock (fresh_of_readLoop hblock) hopens hcloses
  · rw [hendfor] at hopens hcloses
    exact close_agrees h hopens hcloses "for"
  · rw [hif] at hopens hcloses
    exact h.follow_openBlock .choice hopens hcloses
  · rw [helif] at hopens hcloses
    exact branch_agrees h hopens hcloses (readCondition t) some
  · rw [helse] at hopens hcloses
    exact branch_agrees h hopens hcloses (.ok ()) fun _ => none
  · rw [hendif] at hopens hcloses
    exact close_agrees h hopens hcloses "if"
  · exact congrArg (fun expected => Refusal.problem (.unknownBlock t.line t.command expected))
      h.expected_eq

theorem output_agrees (h : a.Mirrors b) (hkind : t.kind = .output) :
    Agrees (a.Follow t) (a.output t) (b.output t) := by
  have hopens : t.opens = false := by simp [Token.opens, hkind]
  have hcloses : t.closes = false := by simp [Token.closes, hkind]
  refine .ite (fun _ => rfl) fun _ => ?_
  cases Pipeline.read t.contents with
  | ok p => exact ⟨h.extend trivial .output, .stay hopens hcloses⟩
  | error f => rfl

/-- A token is accepted by both or refused by both with the same error. -/
theorem step_agrees (h : a.Mirrors b) (t : Token) :
    Agrees (a.Follow t) (a.step t) (b.step t) := by
  rw [step, Builder.step]
  cases hkind : t.kind with
  | text =>
    have hopens : t.opens = false := by simp [Token.opens, hkind]
    have hcloses : t.closes = false := by simp [Token.closes, hkind]
    exact ⟨h.extend trivial .text, .stay hopens hcloses⟩
  | output => exact agrees_attach (output_agrees h hkind)
  | block => exact agrees_attach (block_agrees h hkind)

def Returns (result : Store × Nat) (nodes : List Node) : Prop :=
  result.2 = rootPlace ∧
    ∃ refs, result.1.lists[rootPlace]? = some refs ∧ result.1.view.Reads refs nodes

theorem finish_agrees (h : a.Mirrors b) : Agrees Returns a.finish b.finish := by
  rw [finish, Builder.finish]
  rcases h.top with ⟨hframes, htop, hbelow⟩ |
    ⟨f, frames, next, rest, hframes, hbelow, hcommand, htoken, hexpected⟩
  · obtain ⟨⟨refs, hfollows, hreads⟩, -⟩ := h
    have hlist := hfollows.lists_eq
    rw [htop] at hlist
    rw [hframes, hbelow]
    exact ⟨rfl, refs, hlist, hreads.mono Store.without_le_view⟩
  · rw [hframes, hbelow, htoken]
    dsimp only
    rw [hcommand, hexpected]
    rfl

/-! ## What holds of the stack -/

/-- What the parser relies on in its stack and its store. -/
structure Sound (a : Assembly) : Prop where
  /-- The root is at the bottom, and its list is the one that is returned. -/
  bottom : a.stack.getLast? = some (.root rootPlace)
  /-- The node of each level above the root ends the list of the level below. -/
  chained : a.stack.IsChain (Level.EndsListOf a.store)
  /-- Each level fills the list of its node. -/
  fills : ∀ level ∈ a.stack, level.Fills a.store
  inOrder : ∀ c ∈ a.store.cells, c.InOrder

theorem Follows.chained {s : Store} {v : View} {stack : List Level} {refs : List Nat}
    {frames : List Frame} (h : Follows s v stack refs frames) :
    stack.IsChain (Level.EndsListOf s) := by
  induction h with
  | root _ => exact .singleton _
  | @block level below node _ _ outer _ _ _ hopens _ hrest ih =>
    obtain ⟨next, rest, rfl⟩ := hrest.exists_cons
    exact .cons_cons ⟨node, outer, hopens.node?, hrest.lists_eq⟩ ih

theorem Follows.bottom {s : Store} {v : View} {stack : List Level} {refs : List Nat}
    {frames : List Frame} (h : Follows s v stack refs frames) :
    stack.getLast? = some (.root rootPlace) := by
  induction h with
  | root _ => rfl
  | block _ _ _ hrest ih =>
    obtain ⟨next, rest, rfl⟩ := hrest.exists_cons
    rwa [List.getLast?_cons_cons]

theorem Follows.fills {s : Store} {v : View} {stack : List Level} {refs : List Nat}
    {frames : List Frame} (h : Follows s v stack refs frames) :
    ∀ level ∈ stack, level.Fills s := by
  induction h with
  | root _ => exact List.forall_mem_singleton.mpr trivial
  | block _ hopens _ _ ih => exact List.forall_mem_cons.mpr ⟨hopens.fills, ih⟩

theorem Mirrors.sound (h : a.Mirrors b) : a.Sound := by
  obtain ⟨⟨_, hfollows, -⟩, -, -, horder⟩ := h
  exact ⟨hfollows.bottom, hfollows.chained, hfollows.fills, horder⟩

/-! ## What is remembered -/

theorem Turns.length {stack stack' : List Level} (h : Turns stack t stack') :
    stack'.length + [t].countP Token.closes = stack.length + [t].countP Token.opens := by
  cases h with
  | stay hopens hcloses => simp [hopens, hcloses]
  | push hopens hcloses => simp [hopens, hcloses]
  | pop hopens hcloses => simp [hopens, hcloses]
  | turn hopens hcloses _ => simp [hopens, hcloses]

/-- A level with others below it was there before, with the same node and above the same levels,
unless it has just been opened. -/
theorem Turns.level {stack stack' upper rest : List Level} {level lower : Level}
    (h : Turns stack t stack') (hsplit : stack' = upper ++ level :: lower :: rest) :
    (∃ upper' level', stack = upper' ++ level' :: lower :: rest ∧ level'.node? = level.node?) ∨
      t.opens = true ∧ stack' = level :: lower :: rest := by
  cases h with
  | stay _ _ => exact .inl ⟨upper, level, hsplit, rfl⟩
  | push hopens _ =>
    cases upper with
    | nil => exact .inr ⟨hopens, hsplit⟩
    | cons _ upper => exact .inl ⟨upper, level, (List.cons.inj hsplit).2, rfl⟩
  | @pop last _ _ _ _ => exact .inl ⟨last :: upper, level, congrArg (last :: ·) hsplit, rfl⟩
  | @turn last _ _ _ _ _ hnode =>
    cases upper with
    | nil =>
      obtain ⟨rfl, rfl⟩ := List.cons.inj hsplit
      exact .inl ⟨[], last, rfl, hnode.symm⟩
    | cons _ upper =>
      exact .inl ⟨last :: upper, level, congrArg (last :: ·) (List.cons.inj hsplit).2, rfl⟩

/-- Whether a level has been on top of the levels below it since a tag among some tokens opened its
block: it then belonged to the same node, and that node ended the same list. -/
def Recalls (consumed : List Token) (level lower : Level) (rest : List Level) : Prop :=
  ∃ front opener earlier first, front ++ [opener] <+: consumed ∧ opener.opens = true ∧
    run (front ++ [opener]) = .ok earlier ∧ earlier.stack = first :: lower :: rest ∧
    first.node? = level.node? ∧ first.EndsListOf earlier.store lower

theorem Recalls.append {consumed : List Token} {level level' lower : Level} {rest : List Level}
    (h : Recalls consumed level lower rest) (hnode : level.node? = level'.node?)
    (more : List Token) : Recalls (consumed ++ more) level' lower rest := by
  obtain ⟨front, opener, earlier, first, hprefix, hopens, hrun, hstack, hfirst, hends⟩ := h
  exact ⟨front, opener, earlier, first, hprefix.trans (List.prefix_append _ _), hopens, hrun,
    hstack, hfirst.trans hnode, hends⟩

structure Recorded (consumed : List Token) (a : Assembly) : Prop where
  run : run consumed = .ok a
  count : a.stack.length + consumed.countP Token.closes = consumed.countP Token.opens + 1
  recalls : ∀ upper level lower rest, a.stack = upper ++ level :: lower :: rest →
    Recalls consumed level lower rest

theorem recorded_start : Recorded [] start := by
  refine ⟨rfl, rfl, fun upper level lower rest hsplit => ?_⟩
  have hlength := congrArg List.length hsplit
  simp only [start, stack, List.length_append, List.length_cons, List.length_nil] at hlength
  omega

theorem Recorded.step {consumed : List Token} (h : Recorded consumed a) (hstep : a.step t = .ok a')
    (hturn : Turns a.stack t a'.stack) (hsound : a'.Sound) : Recorded (consumed ++ [t]) a' := by
  have hrun : Assembly.run (consumed ++ [t]) = .ok a' := by
    rw [Assembly.run, List.foldlM_append]
    exact bind_eq_ok.mpr ⟨a, h.run, bind_eq_ok.mpr ⟨a', hstep, rfl⟩⟩
  refine ⟨hrun, ?_, fun upper level lower rest hsplit => ?_⟩
  · have hcount := h.count
    have hlength := hturn.length
    rw [List.countP_append, List.countP_append]
    omega
  · rcases hturn.level hsplit with ⟨upper', level', hsplit', hnode⟩ | ⟨hopens, hstack⟩
    · exact (h.recalls upper' level' lower rest hsplit').append hnode [t]
    · have hchained := hsound.chained
      rw [hstack] at hchained
      exact ⟨consumed, t, a', level, List.prefix_refl _, hopens, hrun, hstack, rfl,
        (List.isChain_cons_cons.mp hchained).1⟩

/-- What is built in place and what the builder builds agree after any tokens. -/
theorem run_agrees (tokens : List Token) :
    Agrees (fun a b => a.Mirrors b ∧ Recorded tokens a) (run tokens)
      (tokens.foldlM Builder.step Builder.start) := by
  refine Agrees.foldlM (R := fun tokens a b => a.Mirrors b ∧ Recorded tokens a)
    ⟨mirrors_start, recorded_start⟩ (fun consumed t a b h => ?_) tokens
  refine (step_agrees h.1 t).imp fun a' b' hstep _ hfollow => ?_
  exact ⟨hfollow.1, h.2.step hstep hfollow.2 hfollow.1.sound⟩

theorem assemble_agrees (tokens : List Token) :
    Agrees Returns (assemble tokens) (parseTokens tokens) :=
  (run_agrees tokens).bind fun _ _ h => finish_agrees h.1

/-- After any tokens that the parser accepts, the tree that is built in place has a stack that is
sound, with one level above the root for every block that was opened and not closed, and each of
these levels still belongs to the node with which it came on top of the level below.  Whatever
follows is refused with the same error or gives the list of the root, which stands for the same
tree. -/
theorem stack_sound {consumed : List Token} {b : Builder}
    (h : consumed.foldlM Builder.step Builder.start = .ok b) :
    ∃ a, run consumed = .ok a ∧ a.Sound ∧
      (∀ upper level lower rest, a.stack = upper ++ level :: lower :: rest →
        Recalls consumed level lower rest) ∧
      a.below.length + consumed.countP Token.closes = consumed.countP Token.opens ∧
      ∀ more, Agrees Returns (assemble (consumed ++ more)) (parseTokens (consumed ++ more)) := by
  have hagrees := run_agrees consumed
  rw [h] at hagrees
  obtain ⟨a, hrun, hmirrors, hrecorded⟩ := hagrees.exists_of_ok
  refine ⟨a, hrun, hmirrors.sound, hrecorded.recalls, ?_, fun more => assemble_agrees _⟩
  have hcount := hrecorded.count
  rw [stack, List.length_cons] at hcount
  omega

/-- Behind `else` the choice fills the list of its second branch, and its node, at place 1, still
ends the body of the loop, the list at place 1. -/
theorem stack_sound_else : ∃ (tokens : List Token) (b : Builder) (a : Assembly),
    tokens = [⟨.block, "for x in y", 1, none⟩, ⟨.block, "if x", 1, none⟩, ⟨.text, "a", 1, none⟩,
      ⟨.block, "else", 1, none⟩] ∧
    tokens.foldlM Builder.step Builder.start = .ok b ∧ run tokens = .ok a ∧ a.Sound ∧
    a.stack = [.choice 3 1 ⟨.block, "if x", 1, none⟩, .loop 1 0 ⟨.block, "for x in y", 1, none⟩,
      .root rootPlace] ∧
    a.store.lists = [[0], [1], [2], []] := by
  obtain ⟨b, hb⟩ : ∃ b, List.foldlM Builder.step Builder.start
      [⟨.block, "for x in y", 1, none⟩, ⟨.block, "if x", 1, none⟩, ⟨.text, "a", 1, none⟩,
        ⟨.block, "else", 1, none⟩] = .ok b := ⟨_, rfl⟩
  obtain ⟨a, hrun, hsound, -⟩ := stack_sound hb
  have hsame := hrun
  rw [run] at hsame
  cases hsame
  exact ⟨_, b, _, rfl, hb, hrun, hsound, rfl, rfl⟩

end Assembly
end Template
end Quill
