import ChatFlow.Proofs.Document.Loaded
import ChatFlow.Proofs.Flow.Callers

/-! What a document must have declared for its loading to succeed: transitions that can be carried out,
branches that can be selected, and roles that grant something. -/
namespace ChatFlow.Flow
variable {ω η : Type} {g g' : Graph ω η} {id origin tree : NodeId}

/-- Whether a transition that is fired from a node can be carried out as declared: going back needs an
ancestor to go to. -/
structure Transition.FiresFrom (g : Graph ω η) (origin : NodeId) (t : Transition ω η) : Prop where
  back_target : t.move = .back → ∀ target, t.target = some target → target ∈ g.ancestors origin
  back_parent : t.move = .back → t.target = none → ∃ p, g.parent origin = some p
  edit_of_source : t.options.editSource.isSome → t.options.edit.isSome

/-- Whether a transition jumps out of a tree. -/
def Transition.Leaves (g : Graph ω η) (tree : NodeId) (t : Transition ω η) : Prop :=
  t.move = .jump ∧ ∃ target, t.target = some target ∧ g.tree target ≠ tree

/-- A transition that is fired from a node, and its follow-ups, each of which waits until the jump
before it has come back to the tree. -/
def Graph.Chained (g : Graph ω η) (tree origin : NodeId) : List (Transition ω η) → Prop
  | [] => True
  | t :: followUps =>
    t.FiresFrom g origin ∧ (followUps ≠ [] → t.Leaves g tree) ∧ g.Chained tree tree followUps

namespace Graph

theorem ancestors_congr (h : ∀ id, g'.parent id = g.parent id) (id : NodeId) :
    g'.ancestors id = g.ancestors id := by
  induction id using Nat.strong_induction_on with
  | _ id ih =>
    rw [ancestors_eq, ancestors_eq, h]
    cases g.parent id with
    | none => rfl
    | some p =>
      dsimp only
      split
      · rename_i hlt
        rw [ih p hlt]
      · rfl

theorem Chained.congr (hparent : ∀ id, g'.parent id = g.parent id)
    (htree : ∀ id, g'.tree id = g.tree id) {ts : List (Transition ω η)}
    (h : g.Chained tree origin ts) : g'.Chained tree origin ts := by
  induction ts generalizing origin with
  | nil => trivial
  | cons t followUps ih =>
    obtain ⟨ht, hleaves, hrest⟩ := h
    refine ⟨⟨?_, ?_, ht.edit_of_source⟩, ?_, ih hrest⟩
    · rw [ancestors_congr hparent]
      exact ht.back_target
    · rw [hparent]
      exact ht.back_parent
    · simp only [Transition.Leaves, htree]
      exact hleaves

/-- The node that a declared transition is fired from: its own node, or, when it is a follow-up, the
tree of that node. -/
def firedFrom (g : Graph ω η) (site : Site) : NodeId :=
  if site.depth = 0 then site.node else g.tree site.node

theorem Chained.at_depth {ts : List (Transition ω η)} (h : g.Chained tree origin ts) {k : Nat}
    {t : Transition ω η} (ht : ts[k]? = some t) :
    t.FiresFrom g (if k = 0 then origin else tree) ∧ (ts[k + 1]?.isSome → t.Leaves g tree) := by
  induction ts generalizing origin k with
  | nil => cases ht
  | cons t₀ followUps ih =>
    obtain ⟨h₀, hleaves, hrest⟩ := h
    cases k with
    | zero =>
      cases ht
      refine ⟨h₀, fun hnext => hleaves ?_⟩
      rintro rfl
      cases hnext
    | succ k =>
      obtain ⟨hfires, hnext⟩ := ih hrest ht
      refine ⟨?_, hnext⟩
      simpa using hfires

/-- What every declared transition of a loaded graph is like. -/
structure ValidAt (g : Graph ω η) (site : Site) (t : Transition ω η) : Prop where
  site_eq : t.site = some site
  found : g.transitionAt? site = some t
  jump_target : t.move = .jump → ∃ target, t.target = some target ∧ target < g.size
  caller_target : t.move = .caller → t.target = none
  fires : t.FiresFrom g (g.firedFrom site)
  followed : ∀ t', g.transitionAt? ⟨site.node, site.depth + 1⟩ = some t' →
    t.Leaves g (g.tree site.node)
  actions_of : ∀ a ∈ t.actions, a.node = site.node ∧ a.tree = g.tree site.node

theorem node_modify_of_ne (f : Node ω η → Node ω η) {p : NodeId} (h : id ≠ p) :
    (g.modify p f).node id = g.node id := by
  simp [node, modify, List.getElem?_modify_ne _ _ (Ne.symm h)]

theorem transitionAt_eq (g : Graph ω η) (site : Site) :
    g.transitionAt? site = (g.node site.node).transitions[site.depth]? := by
  rw [transitionAt?, transitionsFrom, node]
  cases h : g.nodes[site.node]? with
  | none => simp [List.getD, h, default, Node.fresh]
  | some n => simp [List.getD, h, List.head?_drop]

end Graph

/-- Whether a grant gives something, and speaks of trees of a graph only. -/
structure Grant.ValidIn (g : Graph ω η) (grant : Grant) : Prop where
  grants : grant.level.isSome ∨ grant.trees.isSome
  trees_mem : ∀ trees, grant.trees = some trees → ∀ tree ∈ trees, tree ∈ g.trees
  onDenied_mem : ∀ tree, grant.onDenied = some tree → tree ∈ g.trees

end ChatFlow.Flow

namespace ChatFlow.Document
open Flow Expr
variable {ω η : Type}

namespace Subject
variable {s : Subject ω η} {origin : NodeId} {depth : Nat}

theorem fires_of_transitionTarget {t : Itinerary ω η} {target : Option NodeId}
    (h : s.transitionTarget origin t = .ok target) :
    (t.move = .back → ∀ id, target = some id → id ∈ s.graph.ancestors origin) ∧
      (t.move = .back → target = none → ∃ p, s.graph.parent origin = some p) := by
  rcases transitionTarget_eq_ok.1 h with
    ⟨hmove, _, _⟩ | ⟨_, _, rfl, hparent⟩ | ⟨_, id, _, rfl, _, _, hback⟩
  · exact ⟨fun h => (nomatch hmove.symm.trans h), fun h => (nomatch hmove.symm.trans h)⟩
  · exact ⟨nofun, fun _ _ => hparent⟩
  · refine ⟨fun hmove _ hid => ?_, nofun⟩
    cases hid
    exact hback hmove

theorem transitionHead_fires (s : Subject ω η) (origin : NodeId) (depth : Nat) (items : List Form) :
    Yields (s.transitionHead origin depth items) (Transition.FiresFrom s.graph origin) := by
  unfold transitionHead
  refine yields_bind (yields_trivial _) fun parts _ => ?_
  refine yields_bind (yields_trivial _) fun t _ => ?_
  refine yields_unless (fun _ h => nomatch h) fun hedit => ?_
  refine yields_bind (yields_lift fun _ h => fires_of_transitionTarget h) fun target htarget => ?_
  refine yields_pure ⟨htarget.1, htarget.2, fun hsource => ?_⟩
  by_contra hnone
  exact hedit ⟨hsource, by simpa using hnone⟩

theorem leaves_of_leavesTree {t : Transition ω η} (h : s.leavesTree t = true) :
    t.Leaves s.graph s.tree := by
  simpa [leavesTree, Transition.Leaves, Option.any_eq_true] using h

/-- What has been read of a transition is followed up only if the transition leaves its tree, and then the
follow-ups are fired from there. -/
theorem readers_chained (s : Subject ω η) :
    s.ReadersKeep (fun origin _ => Transition.FiresFrom s.graph origin)
      (fun leaves _ _ ts => (ts ≠ [] → leaves = true) ∧ s.graph.Chained s.tree s.tree ts)
      fun origin _ => s.graph.Chained s.tree origin where
  nil := fun _ _ => trivial
  head := s.transitionHead_fires
  start := fun _ _ => ⟨fun h => (h rfl).elim, trivial⟩
  cons := fun ht hb => ⟨⟨ht.back_target, ht.back_parent, ht.edit_of_source⟩,
    fun hne => leaves_of_leavesTree (hb.1 hne), hb.2⟩
  actions := fun _ hb => fun _ _ _ _ => hb
  followUp := fun _ hleaves hts => ⟨fun _ => hleaves, hts⟩

/-- A transition is read with follow-ups only if it leaves its tree, and they are fired from there. -/
theorem transitions_chained (s : Subject ω η) (origin : NodeId) (depth : Nat) (f : Form) :
    Yields (s.transitions origin depth f) (s.graph.Chained s.tree origin) :=
  s.readers_chained.transitions origin depth f

/-- Content that a node may have: its transitions can be carried out, a branch above other branches has
none, and one that is not the default branch has something that selects it. -/
structure Content.ValidFor (s : Subject ω η) (c : Content ω η) : Prop where
  chained : s.graph.Chained s.tree s.id c.transitions
  transitions_eq : s.node.isTree = false → s.node.children ≠ [] → c.transitions = []
  selectable : s.node.isTree = false → s.isDefault = false →
    c.guard.isSome = true ∨ c.triggers.isEmpty = false

theorem nodeAttribute_transitions (s : Subject ω η) (c : Content ω η) (key : String) (value : Form) :
    Yields (s.nodeAttribute c key value) fun c' => c'.transitions = c.transitions := by
  unfold nodeAttribute
  split
  case h_1 => exact yields_pure rfl
  case h_9 => exact yields_lift fun _ h => nomatch h
  all_goals exact yields_bind (yields_trivial _) fun _ _ => yields_pure rfl

theorem nodeForm_chained {c : Content ω η} (hc : s.graph.Chained s.tree s.id c.transitions)
    (items : List Form) :
    Yields (s.nodeForm c items) fun c => s.graph.Chained s.tree s.id c.transitions := by
  unfold nodeForm
  split
  · split
    case h_1 | h_2 => exact yields_pure hc
    case h_3 | h_4 | h_5 => exact yields_bind (yields_trivial _) fun _ _ => yields_pure hc
    case h_6 =>
      refine yields_check ?_
      exact yields_bind (s.transitions_chained s.id 0 _) fun ts hts => yields_pure hts
    case h_7 => exact yields_lift fun _ h => nomatch h
  · exact yields_lift fun _ h => nomatch h

/-- What is refused in the end is content that the node may not have. -/
theorem content_validFor (s : Subject ω η) (parts : Parts) :
    Yields (s.content parts) (Content.ValidFor s) := by
  unfold content
  refine yields_bind (P := fun c => c.transitions = []) ?_ fun c hc => ?_
  · refine yields_foldlM rfl fun c a _ hc => ?_
    intro n c' n' hr
    exact (s.nodeAttribute_transitions c a.1 a.2 n c' n' hr).trans hc
  · refine yields_bind (yields_foldlM (Q := fun c => s.graph.Chained s.tree s.id c.transitions) ?_
      fun c items _ hc => nodeForm_chained hc items) fun c hc => ?_
    · rw [hc]
      trivial
    · refine yields_unless (fun _ h => nomatch h) fun hbranches => ?_
      split
      · exact fun _ _ _ hr => nomatch hr
      · rename_i hreach
        refine yields_pure ⟨hc, fun htree hchildren => ?_, fun htree hdefault => ?_⟩
        · simpa [htree, hchildren] using hbranches
        · simp only [htree, hdefault, Bool.not_false, true_and, not_and, Bool.not_eq_true] at hreach
          cases hguard : c.guard with
          | none => exact Or.inr (hreach (by rw [hguard]; rfl))
          | some e => exact Or.inl rfl

end Subject

variable {ω η : Type} {ns : Namespace ω η} {l : Library ω η} {bare g g' : Flow.Graph ω η}
  {d d₁ d' : Draft ω η} {id : NodeId}

/-- Whether the nodes that a graph has got meanwhile, and no others, have been put after those that were
still to be read before. -/
def Draft.Queues (d d' : Draft ω η) : Prop :=
  ∃ more, d'.pending = d.pending ++ more ∧ d'.graph.size = d.graph.size + more.length ∧
    (more.map Prod.fst).Perm (List.range' d.graph.size more.length)

namespace Draft

theorem Queues.refl (d : Draft ω η) : d.Queues d := ⟨[], (List.append_nil _).symm, rfl, .refl _⟩

theorem Queues.trans (h : d.Queues d₁) (h' : d₁.Queues d') : d.Queues d' := by
  obtain ⟨more, hpending, hsize, hperm⟩ := h
  obtain ⟨more', hpending', hsize', hperm'⟩ := h'
  refine ⟨more ++ more', by rw [hpending', hpending, List.append_assoc], ?_, ?_⟩
  · rw [hsize', hsize, List.length_append, Nat.add_assoc]
  · rw [List.map_append, List.length_append, ← List.range'_append_1]
    exact hperm.append (hsize ▸ hperm')

end Draft

/-- Each declared node is put among those that are still to be read, after its branches. -/
theorem declare_queues (ns : Namespace ω η) {place : Place} {f : Form}
    (hp : ∀ p, place.parent? = some p → p < d.graph.size) (h : declare ns d place f = .ok d') :
    d.Queues d' := by
  refine ((declare_relates ns Draft.Queues.refl Draft.Queues.trans ?_).1 d place f hp d' h).2
  rintro d d' place items node parts g - - hinsert ⟨more, hpending, hsize, hperm⟩
  have hgrown : g.size = d.graph.size + 1 := size_insert hinsert
  refine ⟨more ++ [(d.graph.size, parts)], ?_, ?_, ?_⟩
  · simp only [hpending, List.append_assoc]
  · rw [List.length_append, List.length_singleton, hsize, hgrown]
    omega
  · have hnew : (more.map Prod.fst).Perm (List.range' (d.graph.size + 1) more.length) := hgrown ▸ hperm
    rw [List.map_append, List.length_append, List.length_singleton, List.range'_succ]
    exact (List.perm_append_singleton _ _).trans (hnew.cons _)

theorem declareForm_queues {d d' : Declarations ω η} {f : Form} (h : declareForm ns d f = .ok d') :
    d.draft.Queues d'.draft := by
  rcases declareForm_ok h with ⟨_, _, _, _, rfl⟩ | ⟨_, draft, _, hdraft, rfl⟩
  · exact .refl d.draft
  · exact declare_queues ns (fun _ hp => by cases hp) hdraft

/-- Every declared node, and nothing else, is read once. -/
theorem pending_perm {forms : List Form} {d : Declarations ω η}
    (h : forms.foldlM (declareForm ns) .empty = .ok d) :
    (d.draft.pending.map Prod.fst).Perm d.draft.graph.ids := by
  obtain ⟨more, hpending, hsize, hperm⟩ : (Draft.mk Graph.empty []).Queues d.draft :=
    foldlM_ok (P := fun d => (Draft.mk Graph.empty []).Queues d.draft) (.refl _)
      (fun _ _ _ hd h => hd.trans (declareForm_queues h)) h
  have hsize : d.draft.graph.size = more.length := hsize.trans (Nat.zero_add _)
  rw [hpending, List.nil_append, Graph.ids, hsize, List.range_eq_range']
  exact hperm

/-- What the second pass makes of a node of the bare graph. -/
structure Filled (bare : Flow.Graph ω η) (id : NodeId) (n : Node ω η) : Prop where
  chained : bare.Chained (bare.tree id) id n.transitions
  transitions_eq : n.isTree = false → n.children ≠ [] → n.transitions = []
  selectable : ∀ spec, n.branch? = some spec →
    (∀ p, bare.parent id = some p → (bare.node p).fallback ≠ some id) → spec.isReachable = true

theorem filled_fill {c : Subject.Content ω η} (hc : c.ValidFor ⟨l, bare, id⟩)
    {n : Node ω η} (hn : n.bare = (bare.node id).bare) : Filled bare id (c.fill n) := by
  have hkind : (c.fill n).isTree = (bare.node id).isTree := by
    rw [← Node.bare_isTree, Subject.Content.bare_fill, hn, Node.bare_isTree]
  refine ⟨hc.chained, ?_, ?_⟩
  · intro htree hchildren
    have hsame : (c.fill n).children = (bare.node id).children :=
      (congrArg Node.children hn : n.bare.children = (bare.node id).bare.children)
    exact hc.transitions_eq (hkind ▸ htree) (hsame ▸ hchildren)
  · intro spec hspec hdefault
    cases hs : n.spec with
    | tree tree => simp [Subject.Content.fill, Node.branch?, hs] at hspec
    | branch branch =>
      have hspec : (⟨c.triggers, c.guard⟩ : BranchSpec ω η) = spec := by
        simpa [Subject.Content.fill, Node.branch?, hs] using hspec
      subst hspec
      have htree : (bare.node id).isTree = false := by
        rw [← hkind]
        simp [Subject.Content.fill, Node.isTree, hs]
      have hother : Subject.isDefault (⟨l, bare, id⟩ : Subject ω η) = false := by
        rw [Subject.isDefault, Option.any_eq_false]
        intro p hp
        simpa using hdefault p hp
      simpa [BranchSpec.isReachable] using hc.selectable htree hother

theorem populate_filled (hg : Populated bare g) (id : NodeId) (parts : Parts) :
    Yields (populate l bare g id parts) fun g' =>
      (id < bare.size → Filled bare id (g'.node id)) ∧ ∀ id' ≠ id, g'.node id' = g.node id' := by
  unfold populate
  refine yields_bind (Subject.content_validFor ⟨l, bare, id⟩ parts) fun c hc => yields_pure ?_
  refine ⟨fun hid => ?_, fun id' hne => Graph.node_modify_of_ne c.fill hne⟩
  rw [Graph.node_modify c.fill (hg.size_eq ▸ hid), if_pos rfl]
  exact filled_fill hc (hg.bare_eq id)

/-- Once all that is pending has been read, its nodes have content that they may have. -/
theorem populateAll_filled (hb : bare.Bare l.members) {pending : List (NodeId × Parts)}
    (hg : Populated bare g) :
    Yields (pending.foldlM (fun g (id, parts) => populate l bare g id parts) g) fun g' =>
      Populated bare g' ∧ ∀ id < bare.size,
        (id ∈ pending.map Prod.fst ∨ Filled bare id (g.node id)) → Filled bare id (g'.node id) := by
  induction pending generalizing g with
  | nil =>
    rw [List.foldlM_nil]
    exact yields_pure ⟨hg, fun id _ h => h.resolve_left List.not_mem_nil⟩
  | cons p rest ih =>
    rw [List.foldlM_cons]
    refine yields_bind (P := fun g₁ => Populated bare g₁ ∧
      (p.1 < bare.size → Filled bare p.1 (g₁.node p.1)) ∧ ∀ id ≠ p.1, g₁.node id = g.node id) ?_ ?_
    · intro n g₁ n₁ hr
      exact ⟨populate_populated hb hg p.2 n g₁ n₁ hr, populate_filled hg p.1 p.2 n g₁ n₁ hr⟩
    · intro g₁ ⟨hg₁, hfilled, hold⟩ n g' n' hr
      obtain ⟨hg', hrest⟩ := ih hg₁ n g' n' hr
      refine ⟨hg', fun id hid h => hrest id hid ?_⟩
      by_cases heq : id = p.1
      · subst heq
        exact Or.inr (hfilled hid)
      · rw [hold id heq]
        exact h.imp_left fun hmem => (List.mem_cons.1 hmem).resolve_left heq

/-! Roles are resolved once all contents have been read. -/

theorem grant_validIn {role : Role} {grant : Grant} (h : role.resolve g = .ok grant) :
    grant.ValidIn g := by
  obtain ⟨hgrants, trees, onDenied, htrees, _, rfl⟩ := resolve_eq_ok.1 h
  refine ⟨?_, ?_, fun tree => onDenied_mem_of_resolve h⟩
  · rcases option_mapM_ok.1 htrees with ⟨hnone, rfl⟩ | ⟨names, ids, _, _, rfl⟩
    · exact Or.inl (hgrants.resolve_right (by simp [hnone]))
    · exact Or.inr rfl
  · rintro ids hids tree htree
    have hids : trees = some ids := hids
    rcases option_mapM_ok.1 htrees with ⟨_, rfl⟩ | ⟨names, ids', _, hnames, rfl⟩
    · cases hids
    · cases hids
      obtain ⟨name, _, hname⟩ := exists_of_mem_mapM hnames tree htree
      exact Graph.mem_trees_of_treeNamed (resolveTree_eq_ok.1 hname)

/-- A graph that differs from another one in its roles only, all of which are valid. -/
structure Enrolled (filled g : Flow.Graph ω η) : Prop where
  nodes_eq : g.nodes = filled.nodes
  grants : ∀ name grant, g.grant? name = some grant → grant.ValidIn filled

theorem enrolled_insertGrant {filled : Flow.Graph ω η} {role : Role} {grant : Grant}
    (hg : Enrolled filled g) (hr : role.resolve g = .ok grant) (h : g.insertGrant grant = .ok g') :
    Enrolled filled g' := by
  have htrees : g.trees = filled.trees := by
    simp only [Graph.trees, Graph.ids, Graph.size, Graph.parent, Graph.node, hg.nodes_eq]
  obtain ⟨hgrants, hmem, hdenied⟩ := grant_validIn hr
  obtain rfl := insertGrant_eq_ok h
  refine ⟨hg.nodes_eq, fun name grant' h => ?_⟩
  rw [Graph.grant?, Table.get?_insert] at h
  split at h
  · cases h
    exact ⟨hgrants, htrees ▸ hmem, htrees ▸ hdenied⟩
  · exact hg.grants name grant' h

/-- What loading against a library guarantees about a graph. -/
structure Library.Validates (l : Library ω η) (g : Flow.Graph ω η) : Prop where
  /-- Every declared transition, follow-ups included, can be carried out. -/
  transitions : ∀ id k t, (g.node id).transitions[k]? = some t → g.ValidAt ⟨id, k⟩ t
  /-- A branch above other branches, its default one aside, is no place to move on from at once. -/
  branches : ∀ id, (g.node id).isTree = false → (g.node id).children ≠ [] →
    (g.node id).transitions = []
  /-- A branch that is not the default one of its parent can be selected. -/
  selectable : ∀ id p spec, g.parent id = some p → (g.node p).fallback ≠ some id →
    (g.node id).branch? = some spec → spec.isReachable = true
  hosted : g.Hosted l.members
  grants : ∀ name grant, g.grant? name = some grant → grant.ValidIn g

/-- A graph all of whose nodes have been filled with content that they may have. -/
structure Complete (bare g : Flow.Graph ω η) : Prop where
  size_eq : g.size = bare.size
  bare_eq : ∀ id, (g.node id).bare = (bare.node id).bare
  filled : ∀ id < bare.size, Filled bare id (g.node id)

namespace Complete

theorem parent_eq (hg : Complete bare g) (id : NodeId) : g.parent id = bare.parent id :=
  (congrArg Node.parent (hg.bare_eq id) : (g.node id).bare.parent = _)

theorem tree_eq (hg : Complete bare g) (id : NodeId) : g.tree id = bare.tree id :=
  (congrArg Node.tree (hg.bare_eq id) : (g.node id).bare.tree = _)

theorem fallback_eq (hg : Complete bare g) (id : NodeId) :
    (g.node id).fallback = (bare.node id).fallback :=
  (congrArg Node.fallback (hg.bare_eq id) : (g.node id).bare.fallback = _)

theorem lt_size (hg : Complete bare g) (hid : g.node id ≠ default) : id < bare.size := by
  by_contra hge
  exact hid (Graph.node_of_size_le (hg.size_eq ▸ Nat.le_of_not_lt hge))

theorem validAt (hg : Complete bare g) (hs : g.Sound) {k : Nat} {t : Transition ω η}
    (ht : (g.node id).transitions[k]? = some t) : g.ValidAt ⟨id, k⟩ t := by
  have hid : id < bare.size := hg.lt_size fun hdefault => by
    rw [hdefault] at ht
    cases ht
  have hat := (hs.owns id).declared k t ht
  have hchain : g.Chained (g.tree id) id (g.node id).transitions :=
    hg.tree_eq id ▸ (hg.filled id hid).chained.congr hg.parent_eq hg.tree_eq
  obtain ⟨hfires, hnext⟩ := hchain.at_depth ht
  refine ⟨hat.site_eq, (g.transitionAt_eq _).trans ht, ?_, hat.target_of_caller, hfires, ?_, ?_⟩
  · intro hmove
    obtain ⟨target, htarget⟩ := hat.target_of_jump hmove
    exact ⟨target, htarget, hat.target_lt target htarget⟩
  · intro t' ht'
    rw [Graph.transitionAt_eq] at ht'
    exact hnext (by rw [ht']; rfl)
  · intro a ha
    exact ⟨(hat.actions_of a ha).node_eq, (hat.actions_of a ha).tree_eq⟩

theorem transitions_eq (hg : Complete bare g) (htree : (g.node id).isTree = false)
    (hchildren : (g.node id).children ≠ []) : (g.node id).transitions = [] := by
  have hid : id < bare.size := hg.lt_size fun hdefault => hchildren (by rw [hdefault]; rfl)
  exact (hg.filled id hid).transitions_eq htree hchildren

theorem selectable (hg : Complete bare g) {p : NodeId} {spec : BranchSpec ω η}
    (hp : g.parent id = some p) (hother : (g.node p).fallback ≠ some id)
    (hspec : (g.node id).branch? = some spec) : spec.isReachable = true := by
  refine (hg.filled id (hg.size_eq ▸ Graph.lt_size_of_parent hp)).selectable spec hspec fun q hq => ?_
  rw [← hg.parent_eq, hp] at hq
  cases hq
  rw [← hg.fallback_eq]
  exact hother

end Complete

/-- Every node has been read when the second pass is over. -/
theorem complete_of_populateAll {forms : List Form} {d : Declarations ω η} {slots : Nat}
    (hd : forms.foldlM (declareForm l.members) .empty = .ok d)
    (hg : (d.draft.pending.foldlM (fun g (id, parts) => populate l d.draft.graph g id parts)
      d.draft.graph).run 0 = .ok (g, slots)) :
    Complete d.draft.graph g := by
  have hb := bare_of_declareForms hd
  obtain ⟨hp, hall⟩ := populateAll_filled hb (Populated.refl hb) 0 g slots hg
  refine ⟨hp.size_eq, hp.bare_eq, fun id hid => hall id hid (Or.inl ?_)⟩
  exact (pending_perm hd).mem_iff.2 (List.mem_range.2 hid)

theorem enrolled_of_roles {filled : Flow.Graph ω η} {roles : List Role}
    (hfilled : filled.roles = ∅) (h : roles.foldlM
      (fun g role => liftConfig do g.insertGrant (← role.resolve g)) filled = .ok g) :
    Enrolled filled g := by
  refine foldlM_ok (P := Enrolled filled) ⟨rfl, fun name grant h => ?_⟩ ?_ h
  · rw [Graph.grant?, hfilled] at h
    cases h
  · intro g role g' hg h
    obtain ⟨grant, hgrant, h⟩ := bind_eq_ok.1 (mapError_eq_ok.1 h)
    exact enrolled_insertGrant hg hgrant h

/-- Loading refuses every document whose transitions, branches, handlers or roles are not as they should
be. -/
theorem load_validates {text : String} (h : load l text = .ok g) : l.Validates g := by
  have hloads := load_loads h
  obtain ⟨forms, h⟩ := forms_of_load h
  obtain ⟨d, filled, slots, hd, _, hfilled, hroles, _⟩ := loadForms_eq_ok.1 h
  have hb := bare_of_declareForms hd
  have hcomplete := complete_of_populateAll hd hfilled
  have hnone : filled.roles = ∅ := by
    obtain ⟨hp, _⟩ := populateAll_filled hb (Populated.refl hb) 0 filled slots hfilled
    rw [hp.roles_eq, hb.roles_eq]
  obtain ⟨hnodes, hgrants⟩ := enrolled_of_roles hnone hroles
  -- From here on only roles have been added, so that what holds of the nodes still does.
  have hg : Complete d.draft.graph g := by
    obtain ⟨nodes, roles⟩ := g
    cases hnodes
    exact ⟨hcomplete.size_eq, hcomplete.bare_eq, hcomplete.filled⟩
  refine ⟨fun id k t => hg.validAt hloads.sound, fun id => hg.transitions_eq,
    fun id p spec => hg.selectable, hloads.hosted, ?_⟩
  intro name grant hgrant
  obtain ⟨nodes, roles⟩ := g
  cases hnodes
  obtain ⟨hgives, hmem, hdenied⟩ := hgrants name grant hgrant
  exact ⟨hgives, hmem, hdenied⟩

/-- A branch whose jump carries two follow-ups, the last of which goes back to the tree. -/
def archiveText : String :=
  "(tree A (branch C :keys (c)
    (transition :target B (transition :target B (transition :type back :target A))))) (tree B)"

def archiveLibrary : Library Unit Unit := ⟨.empty, ∅, .default⟩

/-- The last follow-up is fired from the tree and not from the branch, which has no ancestor but it. -/
theorem archive_validates : ∃ archive, load archiveLibrary archiveText = .ok archive ∧
    ((archive.node 1).transitions.map Transition.move = [.jump, .jump, .back] ∧
      archive.firedFrom ⟨1, 2⟩ = 0) ∧ archiveLibrary.Validates archive := by
  have hload : (load archiveLibrary archiveText).toOption.any (fun archive =>
      decide ((archive.node 1).transitions.map Transition.move = [.jump, .jump, .back] ∧
        archive.firedFrom ⟨1, 2⟩ = 0)) = true := by
    decide +kernel
  obtain ⟨archive, harchive, hmoves⟩ := ok_of_any hload
  exact ⟨archive, harchive, of_decide_eq_true hmoves, load_validates harchive⟩

end ChatFlow.Document
