import Mathlib.Data.List.Find
import ChatFlow.Proofs.Flow.Addresses
import ChatFlow.Proofs.Results

/-! Graphs that are changed in place, with their trees listed and their names indexed beside the nodes.
List, indexes and nodes agree however many insertions are made and fail, and an insertion that fails has
changed nothing. -/
namespace ChatFlow.Flow
variable {ω η : Type}

namespace Graph
variable {g g' : Graph ω η} {n : Node ω η} {parent : Option NodeId} {isDefault : Bool}

/-! What an insertion adds to the trees and to the names. -/

section
variable (hp : ∀ p, parent = some p → p < g.size) (h : g.insert n parent isDefault = .ok g')
include hp h

theorem ids_insert : g'.ids = g.ids ++ [g.size] := by
  rw [ids, (inserted_insert hp h).size_eq, List.range_succ]
  rfl

theorem trees_insert : g'.trees = if parent.isNone then g.trees ++ [g.size] else g.trees := by
  have hins := inserted_insert hp h
  have hold : (g.ids.filter fun id => (g'.parent id).isNone) = g.trees := by
    refine List.filter_congr fun id hid => ?_
    rw [(hins.old (Nat.ne_of_lt (List.mem_range.1 hid))).1]
  rw [trees, ids_insert hp h, List.filter_append, hold]
  cases parent <;> simp [hins.parent_eq]

theorem treeNamed?_insert (name : String) :
    g'.treeNamed? name =
      if parent.isNone ∧ name = n.name then some g.size else g.treeNamed? name := by
  have hins := inserted_insert hp h
  have hold : (g.trees.find? fun id => (g'.node id).name == name) = g.treeNamed? name := by
    refine List.find?_congr fun id hid => ?_
    rw [(hins.old (Nat.ne_of_lt (mem_trees.1 hid).1)).2.2]
  rw [treeNamed?, trees_insert hp h]
  cases parent with
  | some p => simpa using hold
  | none =>
    simp only [Option.isNone_none, if_true, true_and, List.find?_append, hold]
    by_cases hname : name = n.name
    · simp [hname, hins.fresh_tree rfl, hins.name_eq]
    · simp [hname, hins.name_eq, Ne.symm hname]

theorem branchNamed?_insert (t : NodeId) (name : String) :
    g'.branchNamed? t name =
      if parent.map g.tree = some t ∧ name = n.name then some g.size else g.branchNamed? t name := by
  have hins := inserted_insert hp h
  have hold : (g.ids.find? fun id => (g'.parent id).isSome && g'.tree id == t &&
      (g'.node id).name == name) = g.branchNamed? t name := by
    refine List.find?_congr fun id hid => ?_
    obtain ⟨hparent, htree, hname⟩ := hins.old (Nat.ne_of_lt (List.mem_range.1 hid))
    rw [hparent, htree, hname]
  rw [branchNamed?, ids_insert hp h, List.find?_append, hold]
  cases parent with
  | none => simp [hins.parent_eq]
  | some p =>
    obtain ⟨htree, hfresh⟩ := hins.fresh_branch p rfl
    by_cases hnew : g.tree p = t ∧ name = n.name
    · obtain ⟨rfl, rfl⟩ := hnew
      simp [hfresh, hins.parent_eq, htree, hins.name_eq]
    · have hskip : ¬ (g.tree p = t ∧ n.name = name) := fun hsame => hnew ⟨hsame.1, hsame.2.symm⟩
      simp [hnew, hins.parent_eq, htree, hins.name_eq, hskip]

end

end Graph

/-- A graph with what is kept beside its nodes. -/
structure Indexed (ω η : Type) where
  graph : Graph ω η
  /-- The trees in order. -/
  trees : List NodeId
  /-- Trees by their names. -/
  treeIndex : Table String NodeId
  /-- Branches by their trees and their names. -/
  branchIndex : Table (NodeId × String) NodeId

namespace Indexed

def empty : Indexed ω η := ⟨.empty, [], ∅, ∅⟩

/-- Steps that change a graph in place. What they change before they fail stays changed. -/
abbrev Building (ω η α : Type) := ExceptT ConfigError (StateM (Indexed ω η)) α

/-- Whether there is another node under the name of a node that has its place. -/
def taken (x : Indexed ω η) (n : Node ω η) : Option NodeId → Bool
  | none => x.treeIndex.contains n.name
  | some _ => x.branchIndex.contains (n.tree, n.name) || (x.graph.node n.tree).name == n.name

/-- With a node entered under its name. -/
def enlisted (x : Indexed ω η) (n : Node ω η) : Option NodeId → Indexed ω η
  | none => { x with
      treeIndex := x.treeIndex.insert n.name x.graph.size, trees := x.trees ++ [x.graph.size] }
  | some _ => { x with branchIndex := x.branchIndex.insert (n.tree, n.name) x.graph.size }

/-- Enters a node under its name, which must be free. -/
def enlist (n : Node ω η) (parent : Option NodeId) : Building ω η Unit := do
  let x ← get
  if x.taken n parent then throw (.duplicateName n.path n.name)
  set (x.enlisted n parent)

/-- Enters a node under its name, puts it behind the others and links it below its parent. -/
def attach (n : Node ω η) (parent : Option NodeId) (isDefault : Bool) : Building ω η NodeId := do
  let x ← get
  let id := x.graph.size
  let n := x.graph.placed n parent
  enlist n parent
  modify fun x => { x with graph := x.graph.push n }
  if let some p := parent then
    modify fun x => { x with graph := x.graph.modify p (Graph.link id isDefault) }
  return id

/-- Inserts a node below a parent, or as a tree. -/
def insert (n : Node ω η) (parent : Option NodeId) : Building ω η NodeId := attach n parent false

/-- Inserts a node as the default branch of a parent that has none. -/
def insertDefault (n : Node ω η) (parent : NodeId) : Building ω η NodeId := do
  let above := (← get).graph.node parent
  if above.fallback.isSome then throw (.invalidAttribute above.path "default" .secondDefault)
  attach n (some parent) true

/-- Finds a node by its name as `Graph.lookup?` does, in the indexes. -/
def lookup? (x : Indexed ω η) (scope : Option NodeId) (name : String) : Option NodeId :=
  match Graph.segments name with
  | first :: second :: rest => do
    (second :: rest).foldlM x.graph.branchBelow? (← x.treeIndex.get? first)
  | _ => (scope.bind fun id => x.branchIndex.get? (x.graph.tree id, name)) <|> x.treeIndex.get? name

end Indexed

/-- An insertion that is asked for. -/
inductive Call (ω η : Type) where
  | insert (n : Node ω η) (parent : Option NodeId)
  | insertDefault (n : Node ω η) (parent : NodeId)

namespace Call

def node : Call ω η → Node ω η
  | insert n _ => n
  | insertDefault n _ => n

def parent : Call ω η → Option NodeId
  | insert _ parent => parent
  | insertDefault _ parent => some parent

def isDefault : Call ω η → Bool
  | insert .. => false
  | insertDefault .. => true

/-- The graph with the node inserted. -/
def on (c : Call ω η) (g : Graph ω η) : Except ConfigError (Graph ω η) :=
  g.insert c.node c.parent c.isDefault

/-- What becomes of a graph on which an insertion is carried out in place. -/
def run (c : Call ω η) (x : Indexed ω η) : Except ConfigError NodeId × Indexed ω η :=
  match c with
  | insert n parent => (Indexed.insert n parent).run x
  | insertDefault n parent => (Indexed.insertDefault n parent).run x

end Call

namespace Indexed
variable {x x' : Indexed ω η} {c : Call ω η} {n : Node ω η} {p : NodeId} {parent : Option NodeId}
  {isDefault : Bool}

theorem enlist_eq (n : Node ω η) (parent : Option NodeId) (x : Indexed ω η) :
    enlist n parent x = if x.taken n parent then (.error (.duplicateName n.path n.name), x)
      else (.ok (), x.enlisted n parent) := by
  rw [enlist, bind_of_ok (m := get) (s := x) rfl]
  split <;> rfl

theorem attach_of_taken (h : x.taken (x.graph.placed n parent) parent = true) :
    attach n parent isDefault x =
      (.error (.duplicateName (x.graph.placed n parent).path (x.graph.placed n parent).name), x) := by
  have henlist := enlist_eq (x.graph.placed n parent) parent x
  rw [if_pos h] at henlist
  rw [attach, bind_of_ok (m := get) (s := x) rfl]
  exact bind_of_error henlist

theorem attach_of_free (h : x.taken (x.graph.placed n parent) parent = false) :
    attach n parent isDefault x =
      (.ok x.graph.size, { x.enlisted (x.graph.placed n parent) parent with
        graph := match parent with
          | none => x.graph.push (x.graph.placed n none)
          | some p =>
            (x.graph.push (x.graph.placed n (some p))).modify p (Graph.link x.graph.size isDefault) }) := by
  have henlist := enlist_eq (x.graph.placed n parent) parent x
  rw [if_neg (Bool.eq_false_iff.1 h)] at henlist
  rw [attach, bind_of_ok (m := get) (s := x) rfl]
  dsimp only
  rw [bind_of_ok henlist]
  cases parent <;> rfl

/-- Whether the list and the indexes say what the nodes say. -/
structure Agrees (x : Indexed ω η) : Prop where
  trees_eq : x.trees = x.graph.trees
  treeIndex_eq : ∀ name, x.treeIndex.get? name = x.graph.treeNamed? name
  branchIndex_eq : ∀ t name, x.branchIndex.get? (t, name) = x.graph.branchNamed? t name

theorem agrees_empty : (empty : Indexed ω η).Agrees := ⟨rfl, fun _ => rfl, fun _ _ => rfl⟩

theorem Agrees.attach_eq (hx : x.Agrees) (n : Node ω η) (parent : Option NodeId)
    (h : isDefault = true → ∀ p, parent = some p → (x.graph.node p).fallback = none) :
    attach n parent isDefault x = match x.graph.insert n parent isDefault with
      | .ok g => (.ok x.graph.size, { x.enlisted (x.graph.placed n parent) parent with graph := g })
      | .error e => (.error e, x) := by
  cases parent with
  | none =>
    have htaken : x.taken (x.graph.placed n none) none = (x.graph.treeNamed? n.name).isSome :=
      congrArg Option.isSome (hx.treeIndex_eq n.name)
    rw [Graph.insert, Graph.insertTree, ← htaken]
    cases hname : x.taken (x.graph.placed n none) none with
    | true => exact attach_of_taken hname
    | false => exact attach_of_free hname
  | some p =>
    have hplace : (isDefault && (x.graph.node p).fallback.isSome) = false := by
      cases isDefault with
      | false => rfl
      | true => rw [h rfl p rfl, Option.isSome_none, Bool.and_false]
    have htaken : x.taken (x.graph.placed n (some p)) (some p) =
        ((x.graph.branchNamed? (x.graph.tree p) n.name).isSome ||
          (x.graph.node (x.graph.tree p)).name == n.name) :=
      congrArg (· || _) (congrArg Option.isSome (hx.branchIndex_eq ..))
    rw [Graph.insert, Graph.insertBranch_eq, hplace, ← htaken]
    cases hname : x.taken (x.graph.placed n (some p)) (some p) with
    | true => exact attach_of_taken hname
    | false => exact attach_of_free hname

/-- In place, insertions do what they do to the nodes alone, and what fails changes nothing. -/
theorem Agrees.run_eq (hx : x.Agrees) (c : Call ω η) : c.run x = match c.on x.graph with
    | .ok g =>
      (.ok x.graph.size, { x.enlisted (x.graph.placed c.node c.parent) c.parent with graph := g })
    | .error e => (.error e, x) := by
  cases c with
  | insert n parent => exact hx.attach_eq n parent fun h => by cases h
  | insertDefault n p =>
    change insertDefault n p x = _
    rw [insertDefault, bind_of_ok (m := get) (s := x) rfl]
    dsimp only
    cases hfree : (x.graph.node p).fallback with
    | none =>
      refine hx.attach_eq n (some p) fun _ q hq => ?_
      cases hq
      exact hfree
    | some d =>
      have hfail : (Call.insertDefault n p).on x.graph =
          .error (.invalidAttribute (x.graph.path p) "default" .secondDefault) := by
        rw [Call.on]
        change x.graph.insertBranch n p true = _
        rw [Graph.insertBranch_eq, hfree]
        rfl
      rw [hfail]
      rfl

theorem Agrees.insert {g : Graph ω η} (hx : x.Agrees) (hp : ∀ p, parent = some p → p < x.graph.size)
    (h : x.graph.insert n parent isDefault = .ok g) :
    Agrees { x.enlisted (x.graph.placed n parent) parent with graph := g } := by
  have htrees := Graph.trees_insert hp h
  have htree := Graph.treeNamed?_insert hp h
  have hbranch := Graph.branchNamed?_insert hp h
  cases parent with
  | none =>
    refine ⟨?_, fun name => ?_, fun t name => ?_⟩
    · rw [htrees]
      exact congrArg (· ++ [x.graph.size]) hx.trees_eq
    · rw [htree, ← hx.treeIndex_eq]
      simp [enlisted, Table.get?_insert, Graph.placed]
    · rw [hbranch, ← hx.branchIndex_eq]
      simp [enlisted]
  | some p =>
    refine ⟨?_, fun name => ?_, fun t name => ?_⟩
    · rw [htrees]
      exact hx.trees_eq
    · rw [htree, ← hx.treeIndex_eq]
      simp [enlisted]
    · rw [hbranch, ← hx.branchIndex_eq]
      simp [enlisted, Table.get?_insert, Graph.placed, Graph.hung, eq_comm]

/-- What is built from nothing by insertions, of which any may fail. -/
inductive Built : Indexed ω η → Prop where
  | empty : Built empty
  | call {x : Indexed ω η} {c : Call ω η} (hx : Built x) (hc : x.graph.Admits c.node c.parent) :
    Built (c.run x).2

theorem Built.agrees (hx : x.Built) : x.Agrees ∧ x.graph.Built := by
  induction hx with
  | empty => exact ⟨agrees_empty, .empty⟩
  | @call x c _ hc ih =>
    obtain ⟨hagrees, hbuilt⟩ := ih
    rw [hagrees.run_eq c]
    cases h : c.on x.graph with
    | error e => exact ⟨hagrees, hbuilt⟩
    | ok g => exact ⟨hagrees.insert hc.parent_lt h, hbuilt.insert hc h⟩

theorem Agrees.lookup?_eq (hx : x.Agrees) (scope : Option NodeId) (name : String) :
    x.lookup? scope name = x.graph.lookup? scope name := by
  have htree : x.treeIndex.get? = x.graph.treeNamed? := funext hx.treeIndex_eq
  have hbranch : (fun id => x.branchIndex.get? (x.graph.tree id, name)) =
      fun id => x.graph.branchNamed? (x.graph.tree id) name :=
    funext fun id => hx.branchIndex_eq ..
  rw [lookup?, htree, hbranch]
  rfl

/-- What the nodes, the list and the indexes of a graph say together. -/
structure Represents (x : Indexed ω η) : Prop where
  agrees : x.Agrees
  parent_lt : ∀ {id p}, x.graph.parent id = some p → p < id ∧ id < x.graph.size
  root : ∀ {id}, id < x.graph.size → x.graph.parent id = none →
    x.graph.tree id = id ∧ (x.graph.node id).depth = 0 ∧ x.graph.path id = (x.graph.node id).name
  below : ∀ {id p}, x.graph.parent id = some p → x.graph.tree id = x.graph.tree p ∧
    (x.graph.node id).depth = (x.graph.node p).depth + 1 ∧
    x.graph.path id = x.graph.path p ++ "/" ++ (x.graph.node id).name
  /-- The way from a tree down to a node starts at the tree of the node, is as long as the node is deep, and
  its names make the path. -/
  chain : ∀ id < x.graph.size, (x.graph.pathTo id).head? = some (x.graph.tree id) ∧
    (x.graph.pathTo id).length = (x.graph.node id).depth + 1 ∧
    x.graph.path id = "/".intercalate (x.graph.names id)
  branch_once : ∀ {id p}, x.graph.parent id = some p → (x.graph.node p).branches.count id = 1 ∧
    ∀ q ≠ p, id ∉ (x.graph.node q).branches
  names_apart : ∀ {a b}, a < x.graph.size → b < x.graph.size → x.graph.tree a = x.graph.tree b →
    (x.graph.node a).name = (x.graph.node b).name → a = b
  tree_names_apart : ∀ {a b}, a ∈ x.trees → b ∈ x.trees →
    (x.graph.node a).name = (x.graph.node b).name → a = b
  /-- A branch of the same tree is found first. -/
  finds_branch : ∀ {s b name}, '/' ∉ name.toList → (x.graph.parent b).isSome →
    x.graph.tree b = x.graph.tree s → (x.graph.node b).name = name → x.lookup? (some s) name = some b
  /-- Where no branch is found, a tree is if there is one. -/
  finds_tree : ∀ {s name}, '/' ∉ name.toList →
    (∀ b, (x.graph.parent b).isSome → x.graph.tree b = x.graph.tree s → (x.graph.node b).name ≠ name) →
    (∀ t ∈ x.trees, (x.graph.node t).name = name → x.lookup? (some s) name = some t) ∧
    ((∀ t ∈ x.trees, (x.graph.node t).name ≠ name) → x.lookup? (some s) name = none)

theorem Agrees.represents (hx : x.Agrees) (hg : x.graph.Arranged) : x.Represents := by
  obtain ⟨hw, hd, hl⟩ := id hg
  have hbranch {s : NodeId} {name : String} (hslash : '/' ∉ name.toList)
      (hother : ∀ b, (x.graph.parent b).isSome → x.graph.tree b = x.graph.tree s →
        (x.graph.node b).name ≠ name) :
      x.lookup? (some s) name = x.graph.treeNamed? name := by
    rw [hx.lookup?_eq, Graph.lookup?_some s hslash, Graph.branchNamed?_eq_none hother]
    rfl
  constructor
  · exact hx
  · intro id p h
    exact ⟨hw.parent_lt h, Graph.lt_size_of_parent h⟩
  · intro id h hroot
    exact ⟨hw.tree_root h hroot, hl.root h hroot⟩
  · intro id p h
    exact ⟨hw.tree_parent h, (hl.below h).1, (hl.below h).2.1⟩
  · intro id h
    exact ⟨hw.head?_pathTo h, hl.length_pathTo hw h, hl.path_eq hw h⟩
  · intro id p h
    exact hl.count_branches hw h
  · intro a b ha hb htree hname
    exact hl.eq_of_name hw hd ha hb htree hname
  · intro a b ha hb hname
    rw [hx.trees_eq] at ha hb
    exact hd.trees ha hb hname
  · intro s b name hslash hb htree hname
    subst hname
    rw [hx.lookup?_eq, Graph.lookup?_some s hslash, ← htree, Graph.branchNamed?_self hd hb]
    rfl
  · intro s name hslash hother
    rw [hbranch hslash hother, hx.trees_eq]
    refine ⟨fun t ht hname => ?_, Graph.treeNamed?_eq_none.2⟩
    rw [← hname]
    exact Graph.treeNamed?_self hd ht

/-- Whatever has been inserted and has failed to be, the nodes, the list and the indexes fit together. The
next insertion gives the next graph with the identifier of its new node, or fails and leaves everything as it
was. -/
theorem built_represents (hx : x.Built) : x.Represents ∧
    (∀ scope name, x.lookup? scope name = x.graph.lookup? scope name) ∧
    ∀ c : Call ω η,
      (∀ id, (c.run x).1 = .ok id → id = x.graph.size ∧ c.on x.graph = .ok (c.run x).2.graph) ∧
      ∀ e, (c.run x).1 = .error e → (c.run x).2 = x ∧ c.on x.graph = .error e := by
  obtain ⟨hagrees, hbuilt⟩ := hx.agrees
  refine ⟨hagrees.represents hbuilt.arranged, hagrees.lookup?_eq, fun c => ?_⟩
  have hrun := hagrees.run_eq c
  cases hon : c.on x.graph with
  | ok g =>
    rw [hon] at hrun
    rw [hrun]
    refine ⟨fun id h => ?_, nofun⟩
    cases h
    exact ⟨rfl, rfl⟩
  | error e =>
    rw [hon] at hrun
    rw [hrun]
    refine ⟨nofun, fun e' h => ?_⟩
    cases h
    exact ⟨rfl, rfl⟩

/-- A tree with a branch and a default branch; then a second branch with the name of the first one and a
second default branch, both of which are refused. -/
def menu : Indexed Unit Unit :=
  [.insert (.fresh "Menu" (.tree ⟨.none, none, none, none⟩)) none,
    .insert (.fresh "Items" (.branch ⟨.none, none⟩)) (some 0),
    .insertDefault (.fresh "Other" (.branch ⟨.none, none⟩)) 0,
    .insert (.fresh "Items" (.branch ⟨.none, none⟩)) (some 2),
    .insertDefault (.fresh "Last" (.branch ⟨.none, none⟩)) 0].foldl
    (fun x (c : Call Unit Unit) => (c.run x).2) empty

/-- Three nodes are left, and the default branch is known to its parent as such only. -/
theorem menu_represents :
    (menu.Represents ∧ (∀ scope name, menu.lookup? scope name = menu.graph.lookup? scope name) ∧
      ∀ c : Call Unit Unit,
        (∀ id, (c.run menu).1 = .ok id →
          id = menu.graph.size ∧ c.on menu.graph = .ok (c.run menu).2.graph) ∧
        ∀ e, (c.run menu).1 = .error e → (c.run menu).2 = menu ∧ c.on menu.graph = .error e) ∧
    menu.graph.size = 3 ∧ (menu.graph.node 0).children = [1] ∧ (menu.graph.node 0).fallback = some 2 ∧
      menu.lookup? (some 1) "Other" = some 2 ∧ menu.lookup? (some 1) "Menu" = some 0 := by
  refine ⟨built_represents (.call (.call (.call (.call (.call .empty ?_) ?_) ?_) ?_) ?_), ?_⟩
  · exact ⟨rfl, rfl, nofun⟩
  · exact ⟨rfl, rfl, by rintro _ ⟨⟩; decide +kernel⟩
  · exact ⟨rfl, rfl, by rintro _ ⟨⟩; decide +kernel⟩
  · exact ⟨rfl, rfl, by rintro _ ⟨⟩; decide +kernel⟩
  · exact ⟨rfl, rfl, by rintro _ ⟨⟩; decide +kernel⟩
  · decide +kernel

end Indexed
end ChatFlow.Flow
