import Quill.Template.Parse

/-!
Building the tree of a template in place.

A node is entered into its list when its block is opened, not when it is closed, and the list of a
block that is open is shared: it is the list that the block fills and a list inside the node.  Here
nodes and lists have places in a store, so that what is shared is one place.  A level of the stack
knows the place of the list that it fills and, above the root, the place of the node that it belongs
to.  The errors are those of `Builder`, in the same order.
-/

namespace Quill
namespace Template

/-! ## The store -/

inductive Cell where
  | text (token : Token)
  | output (token : Token) (pipeline : Pipeline)
  | loop (token : Token) (name : String) (items : Expr) (list : Nat)
  | choice (token : Token) (branches : List (Option Expr × Nat))

def Cell.addBranch (condition : Option Expr) (list : Nat) : Cell → Cell
  | .choice t branches => .choice t (branches ++ [(condition, list)])
  | c => c

/-- Nodes and lists of nodes at places.  A list holds the places of its nodes. -/
structure Store where
  cells : List Cell
  lists : List (List Nat)

namespace Store

def append (s : Store) (list : Nat) (c : Cell) : Store :=
  ⟨s.cells ++ [c], s.lists.modify list (· ++ [s.cells.length])⟩

def addList (s : Store) : Store := { s with lists := s.lists ++ [[]] }

def addBranch (s : Store) (node : Nat) (condition : Option Expr) : Store :=
  { s.addList with cells := s.cells.modify node (Cell.addBranch condition s.lists.length) }

def hasDefault (s : Store) (node : Nat) : Bool :=
  match s.cells[node]? with
  | some (.choice _ branches) => branches.any fun branch => branch.1.isNone
  | _ => false

end Store

/-! ## The stack -/

/-- A level of the stack: the root, or a block that is open with the place of its node and its
opening tag.  New nodes go to the list of the innermost level. -/
inductive Level where
  | root (list : Nat)
  | loop (list node : Nat) (token : Token)
  | choice (list node : Nat) (token : Token)

namespace Level

def list : Level → Nat
  | .root list | .loop list _ _ | .choice list _ _ => list

def node? : Level → Option Nat
  | .root _ => none
  | .loop _ node _ | .choice _ node _ => some node

def token? : Level → Option Token
  | .root _ => none
  | .loop _ _ t | .choice _ _ t => some t

def command : Level → String
  | .root _ => "root"
  | .loop .. => "for"
  | .choice .. => "if"

def expected (s : Store) : Level → List String
  | .root _ => []
  | .loop .. => ["endfor"]
  | .choice _ node _ => if s.hasDefault node then ["endif"] else ["elif", "else", "endif"]

end Level

/-- A template in the making: the store and the stack, which is never empty. -/
structure Assembly where
  store : Store
  top : Level
  below : List Level

namespace Assembly

def rootPlace : Nat := 0

def start : Assembly := ⟨⟨[], [[]]⟩, .root rootPlace, []⟩

def stack (a : Assembly) : List Level := a.top :: a.below

def unexpected (a : Assembly) (t : Token) : Refusal :=
  .problem (.unexpectedBlock t.command t.line (a.top.expected a.store))

def extend (a : Assembly) (c : Cell) : Assembly :=
  { a with store := a.store.append a.top.list c }

def opened (list : Nat) : Block → Cell
  | .loop t name items => .loop t name items list
  | .choice t _ condition => .choice t [(condition, list)]

def levelOf (list node : Nat) : Block → Level
  | .loop t _ _ => .loop list node t
  | .choice t _ _ => .choice list node t

def openBlock (a : Assembly) (block : Block) : Assembly :=
  let list := a.store.lists.length
  let node := a.store.cells.length
  ⟨a.store.addList.append a.top.list (opened list block), levelOf list node block, a.stack⟩

def close (a : Assembly) (command : String) (t : Token) : Except Refusal Assembly := do
  refuseArguments t
  match a.below with
  | next :: rest =>
    if a.top.command = command then return ⟨a.store, next, rest⟩ else throw (a.unexpected t)
  | [] => throw (a.unexpected t)

def choiceToExtend (a : Assembly) (t : Token) : Except Refusal (Nat × Token) :=
  match a.top with
  | .choice _ node opener =>
    if a.store.hasDefault node then .error (.problem (.afterDefault t.command t.line))
    else .ok (node, opener)
  | _ => .error (a.unexpected t)

def branch (a : Assembly) (node : Nat) (opener : Token) (condition : Option Expr) : Assembly :=
  { a with
    store := a.store.addBranch node condition
    top := .choice a.store.lists.length node opener }

def block (a : Assembly) (t : Token) : Except Refusal Assembly :=
  let command := t.command
  if command = "for" then do return a.openBlock (← readLoop t)
  else if command = "endfor" then a.close "for" t
  else if command = "if" then do return a.openBlock (.choice t [] (some (← readCondition t)))
  else if command = "elif" then do
    let (node, opener) ← a.choiceToExtend t
    let condition ← readCondition t
    return a.branch node opener (some condition)
  else if command = "else" then do
    refuseArguments t
    let (node, opener) ← a.choiceToExtend t
    return a.branch node opener none
  else if command = "endif" then a.close "if" t
  else if command = "" then .error (.problem (.emptyBlock t.line))
  else .error (.problem (.unknownBlock t.line command (a.top.expected a.store)))

def output (a : Assembly) (t : Token) : Except Refusal Assembly :=
  if t.contents = "" then .error (.problem (.emptyOutput t.line))
  else
    match Pipeline.read t.contents with
    | .ok p => .ok (a.extend (.output t p))
    | .error f => .error (.ofPipeline f)

def step (a : Assembly) (t : Token) : Except Failure Assembly :=
  match t.kind with
  | .text => .ok (a.extend (.text t))
  | .output => attach t (a.output t)
  | .block => attach t (a.block t)

def finish (a : Assembly) : Except Failure (Store × Nat) :=
  match a.below, a.top.token? with
  | _ :: _, some t =>
    .error (.malformed (.unclosed t.line a.top.command (a.top.expected a.store)) t)
  | _, _ => .ok (a.store, rootPlace)

def run (tokens : List Token) : Except Failure Assembly := tokens.foldlM step start

end Assembly

def assemble (tokens : List Token) : Except Failure (Store × Nat) := do
  (← Assembly.run tokens).finish

/-! ## Trees in a store -/

/-- A part of a store: the nodes and lists at some of its places. -/
structure View where
  cell? : Nat → Option Cell
  list? : Nat → Option (List Nat)

namespace View

/-- Whether all that one view shows is shown by another. -/
protected def Le (v v' : View) : Prop :=
  (∀ node c, v.cell? node = some c → v'.cell? node = some c) ∧
    ∀ list refs, v.list? list = some refs → v'.list? list = some refs

mutual

inductive Reads (v : View) : List Nat → List Node → Prop
  | nil : Reads v [] []
  | cons {ref : Nat} {refs : List Nat} {n : Node} {nodes : List Node} :
      ReadsNode v ref n → Reads v refs nodes → Reads v (ref :: refs) (n :: nodes)

inductive ReadsNode (v : View) : Nat → Node → Prop
  | text {ref : Nat} {t : Token} : v.cell? ref = some (.text t) → ReadsNode v ref (.text t)
  | output {ref : Nat} {t : Token} {p : Pipeline} :
      v.cell? ref = some (.output t p) → ReadsNode v ref (.output t p)
  | loop {ref list : Nat} {refs : List Nat} {t : Token} {name : String} {items : Expr}
      {body : List Node} :
      v.cell? ref = some (.loop t name items list) → v.list? list = some refs →
      Reads v refs body → ReadsNode v ref (.loop t name items body)
  | choice {ref : Nat} {t : Token} {branches : List (Option Expr × Nat)} {arms : List Arm} :
      v.cell? ref = some (.choice t branches) → ReadsArms v branches arms →
      ReadsNode v ref (.choice t arms)

inductive ReadsArms (v : View) : List (Option Expr × Nat) → List Arm → Prop
  | nil : ReadsArms v [] []
  | cons {condition : Option Expr} {list : Nat} {refs : List Nat} {body : List Node}
      {branches : List (Option Expr × Nat)} {arms : List Arm} :
      v.list? list = some refs → Reads v refs body → ReadsArms v branches arms →
      ReadsArms v ((condition, list) :: branches) (.mk condition body :: arms)

end

variable {v v' : View}

protected theorem Le.refl (v : View) : v.Le v := ⟨fun _ _ h => h, fun _ _ h => h⟩

protected theorem Le.trans {v'' : View} (h : v.Le v') (h' : v'.Le v'') : v.Le v'' :=
  ⟨fun node c hc => h'.1 node c (h.1 node c hc),
    fun list refs hrefs => h'.2 list refs (h.2 list refs hrefs)⟩

mutual

theorem Reads.mono (hle : v.Le v') {refs : List Nat} {nodes : List Node} (h : v.Reads refs nodes) :
    v'.Reads refs nodes := by
  match h with
  | .nil => exact .nil
  | .cons hnode h => exact .cons (hnode.mono hle) (h.mono hle)

theorem ReadsNode.mono (hle : v.Le v') {ref : Nat} {n : Node} (h : v.ReadsNode ref n) :
    v'.ReadsNode ref n := by
  match h with
  | .text hcell => exact .text (hle.1 _ _ hcell)
  | .output hcell => exact .output (hle.1 _ _ hcell)
  | .loop hcell hlist hbody => exact .loop (hle.1 _ _ hcell) (hle.2 _ _ hlist) (hbody.mono hle)
  | .choice hcell harms => exact .choice (hle.1 _ _ hcell) (harms.mono hle)

theorem ReadsArms.mono (hle : v.Le v') {branches : List (Option Expr × Nat)} {arms : List Arm}
    (h : v.ReadsArms branches arms) : v'.ReadsArms branches arms := by
  match h with
  | .nil => exact .nil
  | .cons hlist hbody h => exact .cons (hle.2 _ _ hlist) (hbody.mono hle) (h.mono hle)

end

theorem Reads.append {refs more : List Nat} {nodes after : List Node} (h : v.Reads refs nodes)
    (hmore : v.Reads more after) : v.Reads (refs ++ more) (nodes ++ after) := by
  match h with
  | .nil => exact hmore
  | .cons hnode h => exact .cons hnode (h.append hmore)

theorem Reads.concat {refs : List Nat} {nodes : List Node} {ref : Nat} {n : Node}
    (h : v.Reads refs nodes) (hnode : v.ReadsNode ref n) :
    v.Reads (refs ++ [ref]) (nodes ++ [n]) :=
  h.append (.cons hnode .nil)

theorem ReadsArms.concat {branches : List (Option Expr × Nat)} {arms : List Arm}
    {condition : Option Expr} {list : Nat} {refs : List Nat} {body : List Node}
    (h : v.ReadsArms branches arms) (hlist : v.list? list = some refs) (hbody : v.Reads refs body) :
    v.ReadsArms (branches ++ [(condition, list)]) (arms ++ [.mk condition body]) := by
  match h with
  | .nil => exact .cons hlist hbody .nil
  | .cons hfirst hbranch h => exact .cons hfirst hbranch (h.concat hlist hbody)

end View

namespace Store

def view (s : Store) : View := ⟨fun node => s.cells[node]?, fun list => s.lists[list]?⟩

def without (s : Store) (lists nodes : List Nat) : View :=
  ⟨fun node => if node ∈ nodes then none else s.cells[node]?,
    fun list => if list ∈ lists then none else s.lists[list]?⟩

variable {s s' : Store} {lists lists' nodes nodes' : List Nat}

theorem cell?_without {node : Nat} {c : Cell} :
    (s.without lists nodes).cell? node = some c ↔ node ∉ nodes ∧ s.cells[node]? = some c := by
  rw [without]
  by_cases h : node ∈ nodes <;> simp [h]

theorem list?_without {list : Nat} {refs : List Nat} :
    (s.without lists nodes).list? list = some refs ↔
      list ∉ lists ∧ s.lists[list]? = some refs := by
  rw [without]
  by_cases h : list ∈ lists <;> simp [h]

theorem without_le_view : (s.without lists nodes).Le s.view :=
  ⟨fun _ _ h => (cell?_without.mp h).2, fun _ _ h => (list?_without.mp h).2⟩

theorem lt_of_cells_eq_some {node : Nat} {c : Cell} (h : s.cells[node]? = some c) :
    node < s.cells.length :=
  (List.getElem?_eq_some_iff.mp h).1

theorem lt_of_lists_eq_some {list : Nat} {refs : List Nat} (h : s.lists[list]? = some refs) :
    list < s.lists.length :=
  (List.getElem?_eq_some_iff.mp h).1

/-- What lies apart from some lists and nodes stays apart when only those change and others are
added only at new places. -/
theorem without_le_without {changedLists changedNodes : List Nat}
    (h : (s.without changedLists changedNodes).Le s'.view) (hlists : changedLists ⊆ lists)
    (hnodes : changedNodes ⊆ nodes)
    (hlists' : ∀ list ∈ lists', list ∈ lists ∨ s.lists.length ≤ list)
    (hnodes' : ∀ node ∈ nodes', node ∈ nodes ∨ s.cells.length ≤ node) :
    (s.without lists nodes).Le (s'.without lists' nodes') := by
  constructor
  · intro node c hshown
    obtain ⟨hnode, hc⟩ := cell?_without.mp hshown
    refine cell?_without.mpr ⟨fun hmem => ?_, ?_⟩
    · have hlt := lt_of_cells_eq_some hc
      exact (hnodes' node hmem).elim hnode fun hle => by omega
    · exact h.1 node c (cell?_without.mpr ⟨fun hmem => hnode (hnodes hmem), hc⟩)
  · intro list refs hshown
    obtain ⟨hlist, hrefs⟩ := list?_without.mp hshown
    refine list?_without.mpr ⟨fun hmem => ?_, ?_⟩
    · have hlt := lt_of_lists_eq_some hrefs
      exact (hlists' list hmem).elim hlist fun hle => by omega
    · exact h.2 list refs (list?_without.mpr ⟨fun hmem => hlist (hlists hmem), hrefs⟩)

/-! ## What changes and what stays -/

theorem append_cells (s : Store) (list : Nat) (c : Cell) :
    (s.append list c).cells[s.cells.length]? = some c :=
  List.getElem?_concat_length

theorem append_lists {list : Nat} {refs : List Nat} (h : s.lists[list]? = some refs) (c : Cell) :
    (s.append list c).lists[list]? = some (refs ++ [s.cells.length]) := by
  rw [append, List.getElem?_modify_eq, h]
  rfl

/-- Only the list that a node is appended to changes. -/
theorem append_le (s : Store) (list : Nat) (c : Cell) :
    (s.without [list] []).Le (s.append list c).view := by
  constructor
  · intro node c' h
    have hc := (cell?_without.mp h).2
    exact (List.getElem?_append_left (lt_of_cells_eq_some hc)).trans hc
  · intro other refs h
    obtain ⟨hne, hrefs⟩ := list?_without.mp h
    exact (List.getElem?_modify_ne _ _ (Ne.symm (List.ne_of_not_mem_cons hne))).trans hrefs

theorem addList_lists (s : Store) : s.addList.lists[s.lists.length]? = some [] :=
  List.getElem?_concat_length

theorem addList_le (s : Store) : (s.without [] []).Le s.addList.view := by
  constructor
  · intro node c h
    exact (cell?_without.mp h).2
  · intro list refs h
    have hrefs := (list?_without.mp h).2
    exact (List.getElem?_append_left (lt_of_lists_eq_some hrefs)).trans hrefs

/-- A node over a new list, appended to an older one. -/
theorem addList_append_le (s : Store) (list : Nat) (c : Cell) :
    (s.without [list] []).Le (s.addList.append list c).view :=
  (without_le_without s.addList_le (List.nil_subset _) (List.nil_subset _) (fun _ h => .inl h)
    fun _ h => .inl h).trans (s.addList.append_le list c)

theorem addList_append_lists {list : Nat} (h : list < s.lists.length) (c : Cell) :
    (s.addList.append list c).lists[s.lists.length]? = some [] :=
  (List.getElem?_modify_ne _ _ (Nat.ne_of_lt h)).trans s.addList_lists

theorem addBranch_cells {node : Nat} {t : Token} {branches : List (Option Expr × Nat)}
    (h : s.cells[node]? = some (.choice t branches)) (condition : Option Expr) :
    (s.addBranch node condition).cells[node]? =
      some (.choice t (branches ++ [(condition, s.lists.length)])) := by
  rw [addBranch, List.getElem?_modify_eq, h]
  rfl

/-- Only the choice that gets the branch changes. -/
theorem addBranch_le (s : Store) (node : Nat) (condition : Option Expr) :
    (s.without [] [node]).Le (s.addBranch node condition).view := by
  constructor
  · intro other c h
    obtain ⟨hne, hc⟩ := cell?_without.mp h
    exact (List.getElem?_modify_ne _ _ (Ne.symm (List.ne_of_not_mem_cons hne))).trans hc
  · intro list refs h
    exact s.addList_le.2 list refs (list?_without.mpr ⟨List.not_mem_nil, (list?_without.mp h).2⟩)

end Store

end Template
end Quill
