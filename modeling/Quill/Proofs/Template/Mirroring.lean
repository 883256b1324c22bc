import Quill.Proofs.Template.Assembly

/-!
What is built in place mirrors what `Builder` builds.

An open block shares its list with its node, and its node ends the list below.  All other nodes and
lists are already as they will be in the tree, and no step changes them.  So a store is read apart
from what is open (`Assembly.closed`), and each way to change an assembly keeps it in step with a
builder (`Assembly.Mirrors`).
-/

namespace Quill
namespace Template

/-! ## Levels and blocks -/

/-- Whether a node, if it is a choice, has a branch with a condition and at most one without, which
is the last. -/
def Cell.InOrder : Cell → Prop
  | .choice _ branches =>
    (∃ branch ∈ branches, branch.1 ≠ none) ∧ ∀ branch ∈ branches.dropLast, branch.1 ≠ none
  | _ => True

namespace Level

/-- Whether a level stands for an open block: its node holds the finished branches of the block, if
it has branches, and then the list of the level. -/
inductive Opens (s : Store) (v : View) : Level → Nat → Block → Prop
  | loop {list node : Nat} {t : Token} {name : String} {items : Expr} :
      s.cells[node]? = some (.loop t name items list) →
      Opens s v (.loop list node t) node (.loop t name items)
  | choice {list node : Nat} {t : Token} {finished : List (Option Expr × Nat)} {arms : List Arm}
      {condition : Option Expr} :
      s.cells[node]? = some (.choice t (finished ++ [(condition, list)])) →
      v.ReadsArms finished arms → Opens s v (.choice list node t) node (.choice t arms condition)

variable {s s' : Store} {v v' : View} {level : Level} {node : Nat} {block : Block}

theorem Opens.node? (h : level.Opens s v node block) : level.node? = some node := by
  cases h <;> rfl

theorem Opens.token? (h : level.Opens s v node block) : level.token? = some block.token := by
  cases h <;> rfl

theorem Opens.command (h : level.Opens s v node block) : level.command = block.command := by
  cases h <;> rfl

theorem Opens.exists_cell (h : level.Opens s v node block) : ∃ c, s.cells[node]? = some c := by
  cases h with
  | loop hcell => exact ⟨_, hcell⟩
  | choice hcell _ => exact ⟨_, hcell⟩

theorem Opens.eq_choice {t : Token} {arms : List Arm} {condition : Option Expr}
    (h : level.Opens s v node (.choice t arms condition)) :
    ∃ list finished, level = .choice list node t ∧
      s.cells[node]? = some (.choice t (finished ++ [(condition, list)])) ∧
      v.ReadsArms finished arms := by
  cases h with
  | choice hcell harms => exact ⟨_, _, rfl, hcell, harms⟩

theorem Opens.mono (h : level.Opens s v node block) (hv : v.Le v')
    (hcells : ∀ c, s.cells[node]? = some c → s'.cells[node]? = some c) :
    level.Opens s' v' node block := by
  cases h with
  | loop hcell => exact .loop (hcells _ hcell)
  | choice hcell harms => exact .choice (hcells _ hcell) (harms.mono hv)

/-- The node of an open block is the block closed over its list. -/
theorem Opens.readsNode (h : level.Opens s v node block) {refs : List Nat} {body : List Node}
    (hcells : ∀ c, s.cells[node]? = some c → v.cell? node = some c)
    (hlist : v.list? level.list = some refs) (hbody : v.Reads refs body) :
    v.ReadsNode node (block.close body) := by
  cases h with
  | loop hcell => exact .loop (hcells _ hcell) hlist hbody
  | choice hcell harms => exact .choice (hcells _ hcell) (harms.concat hlist hbody)

end Level

/-! ## What a stack mirrors -/

namespace Assembly

/-- Whether a stack over a list with some nodes stands for open blocks: each level above the root
for a block, with the node of the block at the end of the list below. -/
inductive Follows (s : Store) (v : View) : List Level → List Nat → List Frame → Prop
  | root {refs : List Nat} :
      s.lists[rootPlace]? = some refs → Follows s v [.root rootPlace] refs []
  | block {level : Level} {below : List Level} {node : Nat} {block : Block}
      {refs outer : List Nat} {before : List Node} {frames : List Frame} :
      s.lists[level.list]? = some refs → level.Opens s v node block →
      v.Reads outer before.reverse → Follows s v below (outer ++ [node]) frames →
      Follows s v (level :: below) refs (⟨block, before⟩ :: frames)

def openLists (stack : List Level) : List Nat := stack.map Level.list

def openNodes (stack : List Level) : List Nat := stack.filterMap Level.node?

section Follows

variable {s s' : Store} {v v' : View} {level : Level} {stack below : List Level}
  {refs refs' : List Nat} {frames : List Frame}

theorem Follows.lists_eq (h : Follows s v (level :: below) refs frames) :
    s.lists[level.list]? = some refs := by
  cases h with
  | root hlist => exact hlist
  | block hlist _ _ _ => exact hlist

theorem Follows.eq_root (h : Follows s v (level :: below) refs []) :
    level = .root rootPlace ∧ below = [] := by
  cases h with
  | root _ => exact ⟨rfl, rfl⟩

theorem Follows.exists_block {f : Frame} (h : Follows s v stack refs (f :: frames)) :
    ∃ level below node outer, stack = level :: below ∧ level.Opens s v node f.block ∧
      v.Reads outer f.before.reverse ∧ Follows s v below (outer ++ [node]) frames := by
  cases h with
  | block _ hopens houter hrest => exact ⟨_, _, _, _, rfl, hopens, houter, hrest⟩

theorem Follows.lt_of_mem_openLists (h : Follows s v stack refs frames) {list : Nat}
    (hmem : list ∈ openLists stack) : list < s.lists.length := by
  induction h with
  | root hlist =>
    obtain rfl := List.mem_singleton.mp hmem
    exact Store.lt_of_lists_eq_some hlist
  | block hlist _ _ _ ih =>
    rcases List.mem_cons.mp hmem with rfl | hmem
    · exact Store.lt_of_lists_eq_some hlist
    · exact ih hmem

theorem openNodes_cons {node : Nat} (h : level.node? = some node) (below : List Level) :
    openNodes (level :: below) = node :: openNodes below :=
  List.filterMap_cons_some h

theorem Follows.lt_of_mem_openNodes (h : Follows s v stack refs frames) {node : Nat}
    (hmem : node ∈ openNodes stack) : node < s.cells.length := by
  induction h with
  | root _ => cases hmem
  | block _ hopens _ _ ih =>
    rw [openNodes_cons hopens.node?] at hmem
    rcases List.mem_cons.mp hmem with rfl | hmem
    · obtain ⟨c, hc⟩ := hopens.exists_cell
      exact Store.lt_of_cells_eq_some hc
    · exact ih hmem

theorem Follows.not_mem_openLists (h : Follows s v stack refs frames) :
    s.lists.length ∉ openLists stack :=
  fun hmem => Nat.lt_irrefl _ (h.lt_of_mem_openLists hmem)

theorem Follows.not_mem_openNodes (h : Follows s v stack refs frames) :
    s.cells.length ∉ openNodes stack :=
  fun hmem => Nat.lt_irrefl _ (h.lt_of_mem_openNodes hmem)

theorem Follows.exists_cons (h : Follows s v stack refs frames) :
    ∃ level below, stack = level :: below := by
  cases h with
  | root _ => exact ⟨_, _, rfl⟩
  | block _ _ _ _ => exact ⟨_, _, rfl⟩

/-- A stack stands for the same blocks while only other lists and nodes change. -/
theorem Follows.mono (h : Follows s v stack refs frames) {lists nodes : List Nat} (hv : v.Le v')
    (hs : (s.without lists nodes).Le s'.view) (hlists : ∀ list ∈ openLists stack, list ∉ lists)
    (hnodes : ∀ node ∈ openNodes stack, node ∉ nodes) : Follows s' v' stack refs frames := by
  induction h with
  | root hlist =>
    have hroot := hlists rootPlace List.mem_cons_self
    exact .root (hs.2 _ _ (Store.list?_without.mpr ⟨hroot, hlist⟩))
  | block hlist hopens houter _ ih =>
    rw [openNodes_cons hopens.node?] at hnodes
    refine .block ?_ (hopens.mono hv ?_) (houter.mono hv) (ih ?_ ?_)
    · exact hs.2 _ _ (Store.list?_without.mpr ⟨hlists _ List.mem_cons_self, hlist⟩)
    · intro c hc
      exact hs.1 _ _ (Store.cell?_without.mpr ⟨hnodes _ List.mem_cons_self, hc⟩)
    · exact fun list hmem => hlists list (List.mem_cons_of_mem _ hmem)
    · exact fun node hmem => hnodes node (List.mem_cons_of_mem _ hmem)

theorem Follows.mono_view (h : Follows s v stack refs frames) (hv : v.Le v') :
    Follows s v' stack refs frames :=
  h.mono hv (@Store.without_le_view s [] []) (fun _ _ => List.not_mem_nil)
    fun _ _ => List.not_mem_nil

/-- A node that is appended to the innermost list. -/
theorem Follows.append (h : Follows s v (level :: below) refs frames) (hv : v.Le v')
    (hnodup : (openLists (level :: below)).Nodup) (c : Cell) :
    Follows (s.append level.list c) v' (level :: below) (refs ++ [s.cells.length]) frames := by
  have hbelow : ∀ list ∈ openLists below, list ∉ [level.list] := by
    intro list hmem hsame
    obtain rfl := List.mem_singleton.mp hsame
    exact (List.nodup_cons.mp hnodup).1 hmem
  cases h with
  | root hlist => exact .root (Store.append_lists hlist c)
  | block hlist hopens houter hrest =>
    refine .block (Store.append_lists hlist c) (hopens.mono hv ?_) (houter.mono hv)
      (hrest.mono hv (s.append_le level.list c) hbelow fun _ _ => List.not_mem_nil)
    intro c' hc'
    exact (s.append_le level.list c).1 _ _ (Store.cell?_without.mpr ⟨List.not_mem_nil, hc'⟩)

end Follows

def closed (a : Assembly) : View := a.store.without (openLists a.stack) (openNodes a.stack)

/-- Whether an assembly and a builder are at the same point of the same tree. -/
structure Mirrors (a : Assembly) (b : Builder) : Prop where
  follows : ∃ refs, Follows a.store a.closed a.stack refs b.frames ∧ a.closed.Reads refs b.body
  lists_nodup : (openLists a.stack).Nodup
  nodes_nodup : (openNodes a.stack).Nodup
  inOrder : ∀ c ∈ a.store.cells, c.InOrder

/-! ## Moves -/

variable {a : Assembly} {b : Builder}

theorem mirrors_start : start.Mirrors Builder.start :=
  ⟨⟨[], .root rfl, .nil⟩, by decide, by decide, by simp [start]⟩

/-- Text and output tags. -/
theorem Mirrors.extend (h : a.Mirrors b) {c : Cell} {n : Node} (hc : c.InOrder)
    (hnode : ∀ {v : View} {ref : Nat}, v.cell? ref = some c → v.ReadsNode ref n) :
    (a.extend c).Mirrors (b.add n) := by
  obtain ⟨⟨refs, hfollows, hreads⟩, hlists, hnodes, horder⟩ := h
  have hclosed : a.closed.Le (a.extend c).closed :=
    Store.without_le_without (a.store.append_le a.top.list c) (by simp [openLists, stack])
      (List.nil_subset _) (fun _ hmem => .inl hmem) fun _ hmem => .inl hmem
  refine ⟨⟨_, hfollows.append hclosed hlists c, ?_⟩, hlists, hnodes, ?_⟩
  · rw [Builder.body, Builder.add, List.reverse_cons]
    exact (hreads.mono hclosed).concat (hnode (Store.cell?_without.mpr
      ⟨hfollows.not_mem_openNodes, a.store.append_cells a.top.list c⟩))
  · exact List.forall_mem_append.mpr ⟨horder, List.forall_mem_singleton.mpr hc⟩

inductive Fresh : Block → Prop
  | loop {t : Token} {name : String} {items : Expr} : Fresh (.loop t name items)
  | choice {t : Token} {condition : Expr} : Fresh (.choice t [] (some condition))

theorem Fresh.inOrder {block : Block} (h : Fresh block) (list : Nat) :
    (opened list block).InOrder := by
  cases h with
  | loop => trivial
  | choice => exact ⟨⟨_, List.mem_singleton.mpr rfl, Option.some_ne_none _⟩, by simp⟩

theorem Fresh.opens {block : Block} (h : Fresh block) {s : Store} {v : View} {list node : Nat}
    (hcell : s.cells[node]? = some (opened list block)) :
    (levelOf list node block).Opens s v node block := by
  cases h with
  | loop => exact .loop hcell
  | choice => exact @Level.Opens.choice s v list node _ [] [] _ hcell .nil

theorem list_levelOf (list node : Nat) (block : Block) : (levelOf list node block).list = list := by
  cases block <;> rfl

theorem openLists_openBlock (a : Assembly) (block : Block) :
    openLists (a.openBlock block).stack = a.store.lists.length :: openLists a.stack := by
  cases block <;> rfl

theorem openNodes_openBlock (a : Assembly) (block : Block) :
    openNodes (a.openBlock block).stack = a.store.cells.length :: openNodes a.stack := by
  cases block <;> rfl

theorem closed_le_openBlock (a : Assembly) (block : Block) :
    a.closed.Le (a.openBlock block).closed := by
  refine Store.without_le_without (a.store.addList_append_le a.top.list _)
    (by simp [openLists, stack]) (List.nil_subset _) ?_ ?_
  · rw [openLists_openBlock]
    rintro list (_ | ⟨_, hmem⟩)
    · exact .inr (Nat.le_refl _)
    · exact .inl hmem
  · rw [openNodes_openBlock]
    rintro node (_ | ⟨_, hmem⟩)
    · exact .inr (Nat.le_refl _)
    · exact .inl hmem

/-- Tags that open a block. -/
theorem Mirrors.openBlock (h : a.Mirrors b) {block : Block} (hblock : Fresh block) :
    (a.openBlock block).Mirrors (b.openBlock block) := by
  obtain ⟨⟨refs, hfollows, hreads⟩, hlists, hnodes, horder⟩ := h
  have hclosed := closed_le_openBlock a block
  have hadded := hfollows.mono (View.Le.refl _) a.store.addList_le
    (fun _ _ => List.not_mem_nil) fun _ _ => List.not_mem_nil
  have hlist : (a.openBlock block).store.lists[(a.openBlock block).top.list]? = some [] := by
    rw [Assembly.openBlock, list_levelOf]
    exact Store.addList_append_lists (hfollows.lt_of_mem_openLists List.mem_cons_self) _
  have hcell := a.store.addList.append_cells a.top.list (opened a.store.lists.length block)
  refine ⟨⟨[], .block hlist (hblock.opens hcell) (hreads.mono hclosed)
    (hadded.append hclosed hlists _), .nil⟩, ?_, ?_, ?_⟩
  · rw [openLists_openBlock]
    exact List.nodup_cons.mpr ⟨hfollows.not_mem_openLists, hlists⟩
  · rw [openNodes_openBlock]
    exact List.nodup_cons.mpr ⟨hfollows.not_mem_openNodes, hnodes⟩
  · exact List.forall_mem_append.mpr ⟨horder, List.forall_mem_singleton.mpr (hblock.inOrder _)⟩

theorem openNodes_subset (level : Level) (stack : List Level) :
    openNodes stack ⊆ openNodes (level :: stack) := by
  intro node hmem
  obtain ⟨other, hother, hnode⟩ := List.mem_filterMap.mp hmem
  exact List.mem_filterMap.mpr ⟨other, List.mem_cons_of_mem _ hother, hnode⟩

/-- Tags that close a block. -/
theorem Mirrors.close (h : a.Mirrors b) {f : Frame} {frames : List Frame}
    (hframes : b.frames = f :: frames) : ∃ next rest, a.below = next :: rest ∧
      Mirrors ⟨a.store, next, rest⟩ ⟨f.block.close b.body :: f.before, frames⟩ := by
  obtain ⟨⟨refs, hfollows, hreads⟩, hlists, hnodes, horder⟩ := h
  rw [hframes] at hfollows
  have hlist := hfollows.lists_eq
  obtain ⟨_, _, node, outer, ⟨⟩, hopens, houter, hrest⟩ := hfollows.exists_block
  obtain ⟨next, rest, hbelow⟩ := hrest.exists_cons
  have hclosed : a.closed.Le (closed ⟨a.store, next, rest⟩) := by
    refine Store.without_le_without (@Store.without_le_view a.store [] []) (List.nil_subset _)
      (List.nil_subset _) (fun _ hmem => .inl ?_) fun _ hmem => .inl ?_
    · rw [stack, hbelow]
      exact List.mem_cons_of_mem _ hmem
    · rw [stack, hbelow]
      exact openNodes_subset a.top _ hmem
  rw [stack, openNodes_cons hopens.node?, hbelow] at hnodes
  rw [stack, hbelow] at hlists
  rw [hbelow] at hrest
  have hnode : (closed ⟨a.store, next, rest⟩).ReadsNode node (f.block.close b.body) :=
    (hopens.mono hclosed fun _ hc => hc).readsNode
      (fun _ hc => Store.cell?_without.mpr ⟨(List.nodup_cons.mp hnodes).1, hc⟩)
      (Store.list?_without.mpr ⟨(List.nodup_cons.mp hlists).1, hlist⟩) (hreads.mono hclosed)
  refine ⟨next, rest, hbelow, ⟨_, hrest.mono_view hclosed, ?_⟩, (List.nodup_cons.mp hlists).2,
    (List.nodup_cons.mp hnodes).2, horder⟩
  rw [Builder.body, List.reverse_cons]
  exact (houter.mono hclosed).concat hnode

/-! ## Choices -/

theorem hasDefault_eq {s : Store} {node : Nat} {t : Token} {branches : List (Option Expr × Nat)}
    (h : s.cells[node]? = some (.choice t branches)) :
    s.hasDefault node = branches.any fun branch => branch.1.isNone := by
  rw [Store.hasDefault, h]

/-- A choice that is in order has a branch without a condition if its last one is such. -/
theorem hasDefault_concat {s : Store} (h : ∀ c ∈ s.cells, c.InOrder) {node list : Nat} {t : Token}
    {finished : List (Option Expr × Nat)} {condition : Option Expr}
    (hcell : s.cells[node]? = some (.choice t (finished ++ [(condition, list)]))) :
    s.hasDefault node = condition.isNone := by
  have horder : ∀ branch ∈ finished, branch.1 ≠ none := by
    simpa only [List.dropLast_concat] using (h _ (List.mem_of_getElem? hcell)).2
  have hfinished : finished.any (fun branch => branch.1.isNone) = false :=
    List.any_eq_false.mpr fun branch hmem hnone =>
      horder branch hmem (Option.isNone_iff_eq_none.mp hnone)
  rw [hasDefault_eq hcell, List.any_append, hfinished]
  simp

theorem inOrder_concat {t : Token} {branches : List (Option Expr × Nat)} (hne : branches ≠ [])
    (h : ∀ branch ∈ branches, branch.1 ≠ none) (last : Option Expr × Nat) :
    Cell.InOrder (.choice t (branches ++ [last])) := by
  obtain ⟨first, hfirst⟩ := List.exists_mem_of_ne_nil branches hne
  refine ⟨⟨first, List.mem_append_left _ hfirst, h first hfirst⟩, ?_⟩
  rwa [List.dropLast_concat]

/-- A choice without a default can take any branch. -/
theorem inOrder_addBranch {s : Store} (h : ∀ c ∈ s.cells, c.InOrder) {node : Nat}
    (hnode : s.hasDefault node = false) (condition : Option Expr) :
    ∀ c ∈ (s.addBranch node condition).cells, c.InOrder := by
  intro c hc
  obtain ⟨i, hi⟩ := List.mem_iff_getElem?.mp hc
  rw [Store.addBranch, List.getElem?_modify] at hi
  obtain ⟨c', hc', rfl⟩ := Option.map_eq_some_iff.mp hi
  have hold := h c' (List.mem_of_getElem? hc')
  by_cases hsame : node = i
  · subst hsame
    rw [if_pos rfl]
    cases c' with
    | choice t branches =>
      rw [hasDefault_eq hc'] at hnode
      obtain ⟨⟨first, hfirst, -⟩, -⟩ := hold
      refine inOrder_concat (List.ne_nil_of_mem hfirst) (fun branch hmem hnone => ?_) _
      exact List.any_eq_false.mp hnode branch hmem (Option.isNone_iff_eq_none.mpr hnone)
    | _ => trivial
  · rwa [if_neg hsame]

theorem Mirrors.top_eq (h : a.Mirrors b) {opener : Token} {finished : List Arm}
    {condition : Option Expr} {before : List Node} {frames : List Frame}
    (hframes : b.frames = ⟨.choice opener finished condition, before⟩ :: frames) :
    ∃ list node, a.top = .choice list node opener ∧
      a.store.hasDefault node = condition.isNone := by
  obtain ⟨⟨refs, hfollows, -⟩, -, -, horder⟩ := h
  rw [hframes] at hfollows
  obtain ⟨_, _, node, _, ⟨⟩, hopens, -⟩ := hfollows.exists_block
  obtain ⟨list, _, htop, hcell, -⟩ := hopens.eq_choice
  exact ⟨list, node, htop, hasDefault_concat horder hcell⟩

section Branch

variable {list node : Nat} {opener : Token}

theorem openLists_of_top (h : a.top = .choice list node opener) :
    openLists a.stack = list :: openLists a.below := by
  rw [stack, h]
  rfl

theorem openNodes_of_top (h : a.top = .choice list node opener) :
    openNodes a.stack = node :: openNodes a.below := by
  rw [stack, h]
  rfl

theorem closed_le_branch (h : a.top = .choice list node opener) (condition : Option Expr) :
    a.closed.Le (a.branch node opener condition).closed := by
  refine Store.without_le_without (a.store.addBranch_le node condition) (List.nil_subset _) ?_ ?_ ?_
  · rw [openNodes_of_top h]
    exact List.cons_subset.mpr ⟨List.mem_cons_self, List.nil_subset _⟩
  · rw [openLists_of_top h]
    rintro other (_ | ⟨_, hmem⟩)
    · exact .inr (Nat.le_refl _)
    · exact .inl (List.mem_cons_of_mem _ hmem)
  · rw [openNodes_of_top h]
    exact fun _ hmem => .inl hmem

/-- Tags that give a choice another branch. -/
theorem Mirrors.branch (h : a.Mirrors b) {finished : List Arm} {before : List Node}
    {frames : List Frame} {c : Expr}
    (hframes : b.frames = ⟨.choice opener finished (some c), before⟩ :: frames)
    (htop : a.top = .choice list node opener) (condition : Option Expr) :
    (a.branch node opener condition).Mirrors
      ⟨[], ⟨.choice opener (finished ++ [.mk (some c) b.body]) condition, before⟩ :: frames⟩ := by
  have hdefault : a.store.hasDefault node = false := by
    obtain ⟨_, _, htop', hdefault⟩ := h.top_eq hframes
    cases htop.symm.trans htop'
    exact hdefault
  obtain ⟨⟨refs, hfollows, hreads⟩, hlists, hnodes, horder⟩ := h
  have hnew := hfollows.not_mem_openLists
  rw [hframes] at hfollows
  have hlist := hfollows.lists_eq
  obtain ⟨_, _, _, outer, ⟨⟩, hopens, houter, hrest⟩ := hfollows.exists_block
  obtain ⟨_, branches, htop', hcell, harms⟩ := hopens.eq_choice
  cases htop.symm.trans htop'
  have hclosed := closed_le_branch htop condition
  rw [openLists_of_top htop] at hlists hnew
  rw [openNodes_of_top htop] at hnodes
  rw [htop] at hlist
  have hlist' : (a.branch node opener condition).closed.list? list = some refs := by
    refine Store.list?_without.mpr ⟨?_, ?_⟩
    · rintro (_ | ⟨_, hmem⟩)
      · exact hnew List.mem_cons_self
      · exact (List.nodup_cons.mp hlists).1 hmem
    · exact a.store.addList_le.2 _ _ (Store.list?_without.mpr ⟨List.not_mem_nil, hlist⟩)
  refine ⟨⟨[], .block a.store.addList_lists (.choice (a.store.addBranch_cells hcell condition)
    ((harms.mono hclosed).concat hlist' (hreads.mono hclosed))) (houter.mono hclosed)
    (hrest.mono hclosed (a.store.addBranch_le node condition) (fun _ _ => List.not_mem_nil) ?_),
    .nil⟩, ?_, hnodes, inOrder_addBranch horder hdefault condition⟩
  · rintro other hmem (_ | ⟨_, hnil⟩)
    · exact (List.nodup_cons.mp hnodes).1 hmem
    · cases hnil
  · exact List.nodup_cons.mpr
      ⟨List.not_mem_of_not_mem_cons hnew, (List.nodup_cons.mp hlists).2⟩

end Branch

/-! ## Tokens -/

theorem expected_of_opens {s : Store} {v : View} {level : Level} {node : Nat} {block : Block}
    (h : level.Opens s v node block) (horder : ∀ c ∈ s.cells, c.InOrder) :
    level.expected s = block.expected := by
  cases h with
  | loop _ => rfl
  | @choice _ _ _ _ _ condition hcell _ =>
    rw [Level.expected, hasDefault_concat horder hcell]
    cases condition <;> rfl

/-- The innermost level is the root, or it is of the kind of the innermost block. -/
theorem Mirrors.top (h : a.Mirrors b) :
    (b.frames = [] ∧ a.top = .root rootPlace ∧ a.below = []) ∨
      ∃ f frames next rest, b.frames = f :: frames ∧ a.below = next :: rest ∧
        a.top.command = f.block.command ∧ a.top.token? = some f.block.token ∧
        a.top.expected a.store = f.block.expected := by
  obtain ⟨⟨_, hfollows, -⟩, -, -, horder⟩ := h
  cases hframes : b.frames with
  | nil =>
    rw [hframes] at hfollows
    exact .inl ⟨rfl, hfollows.eq_root⟩
  | cons f frames =>
    rw [hframes] at hfollows
    obtain ⟨_, _, _, _, ⟨⟩, hopens, -, hrest⟩ := hfollows.exists_block
    obtain ⟨next, rest, hbelow⟩ := hrest.exists_cons
    exact .inr ⟨f, frames, next, rest, rfl, hbelow, hopens.command, hopens.token?,
      expected_of_opens hopens horder⟩

/-- Both look for the same tags. -/
theorem Mirrors.expected_eq (h : a.Mirrors b) : a.top.expected a.store = b.expected := by
  rw [Builder.expected]
  rcases h.top with ⟨hframes, htop, -⟩ | ⟨f, _, _, _, hframes, -, -, -, hexpected⟩
  · rw [hframes, htop]
    rfl
  · rw [hframes, hexpected]

theorem Mirrors.unexpected_eq (h : a.Mirrors b) (t : Token) : a.unexpected t = b.unexpected t := by
  rw [unexpected, Builder.unexpected, h.expected_eq]

end Assembly
end Template
end Quill
