import ChatFlow.Proofs.Document.Validated
import ChatFlow.Proofs.Flow.Naming
import ChatFlow.Proofs.Flow.Rearranged

/-! What a top-level form declares does not depend on the forms around it, except that its name must be new
among them. -/
namespace ChatFlow.Document
open Flow Expr
variable {ω η : Type} {ns : Namespace ω η} {g c : Flow.Graph ω η} {p : NodeId}

/-- The first draft with what the second one declares after its own. -/
def Draft.append (b c : Draft ω η) : Draft ω η where
  graph := b.graph.append c.graph
  pending := b.pending ++ c.pending.map (Prod.map (b.graph.size + ·) id)

theorem declaredNode_append (p : NodeId) (kind : BranchKind) (items : List Form) :
    declaredNode ns (g.append c) (.below (g.size + p) kind) items =
      declaredNode ns c (.below p kind) items := by
  have hname : declaredName (g.append c) (.below (g.size + p) kind) items.head? =
      declaredName c (.below p kind) items.head? := by
    unfold declaredName
    cases items.head?.bind nameOf? <;> cases kind <;>
      simp [Graph.name_append_add, Graph.path_append_add]
  unfold declaredNode
  rw [hname]
  simp only [Place.parent?, Graph.path_append_add]

theorem insert_append (hg : g.WellFormed) (hp : p < c.size) {kind : BranchKind} {items : List Form}
    {node : Node ω η} {parts : Parts} (h : declaredNode ns c (.below p kind) items = .ok (node, parts)) :
    (g.append c).insert node (Place.below (g.size + p) kind).parent?
        (Place.below (g.size + p) kind).isDefault =
      (c.insert node (Place.below p kind).parent? (Place.below p kind).isDefault).map g.append := by
  rcases declaredNode_eq_ok h with ⟨hnone, -⟩ | ⟨-, name, rfl⟩
  · cases hnone
  · cases kind with
    | child => exact Graph.insertBranch_append hg hp name false
    | fallback => exact Graph.insertBranch_append hg hp name true

/-- A node after others is declared as it would be without these, when that holds of all that is below it. -/
theorem declare_list_append {b c : Draft ω η} {kind : BranchKind} {head : Form} {items : List Form}
    (hb : b.graph.WellFormed) (hc : c.graph.Bare ns) (hp : p < c.graph.size)
    (hbelow : ∀ g : Flow.Graph ω η, g.Bare ns → c.graph.size < g.size →
      declareBelow ns (b.append { c with graph := g }) (b.graph.size + c.graph.size) items =
        (declareBelow ns { c with graph := g } c.graph.size items).map b.append) :
    declare ns (b.append c) (.below (b.graph.size + p) kind) (.list (head :: items)) =
      (declare ns c (.below p kind) (.list (head :: items))).map b.append := by
  rw [declare, declare]
  have hnode : declaredNode ns (b.append c).graph (.below (b.graph.size + p) kind) items =
      declaredNode ns c.graph (.below p kind) items := declaredNode_append p kind items
  rw [hnode]
  cases hdeclared : declaredNode ns c.graph (.below p kind) items with
  | error e => rfl
  | ok r =>
    obtain ⟨node, parts⟩ := r
    have hinsert : (b.append c).graph.insert node (Place.below (b.graph.size + p) kind).parent?
        (Place.below (b.graph.size + p) kind).isDefault = _ := insert_append hb hp hdeclared
    dsimp only [bind, Except.bind]
    rw [hinsert]
    cases hg : c.graph.insert node (Place.below p kind).parent? (Place.below p kind).isDefault with
    | error e => rfl
    | ok g =>
      obtain ⟨hbare, hsize⟩ := insert_declaredNode hc (parent?_lt hp) hdeclared hg
      have hstart : (b.append c).graph.size = b.graph.size + c.graph.size := Graph.size_append ..
      have happend : Draft.mk (b.graph.append g) (b.append c).pending = b.append { c with graph := g } := rfl
      dsimp only [liftConfig, Except.map, Except.mapError]
      rw [hstart, happend, hbelow g hbare (hsize ▸ Nat.lt_succ_self _)]
      cases declareBelow ns { c with graph := g } c.graph.size items with
      | error e => rfl
      | ok d =>
        simp only [Except.map, pure, Except.pure, Draft.append, List.map_append, List.append_assoc]
        rfl

/-- What is below a node after others is declared as it would be without these. The induction follows the
two functions, which call each other. -/
theorem declare_append (ns : Namespace ω η) {b : Draft ω η} (hb : b.graph.WellFormed) :
    (∀ c place f, c.graph.Bare ns → ∀ p kind, place = .below p kind → p < c.graph.size →
      declare ns (b.append c) (.below (b.graph.size + p) kind) f =
        (declare ns c place f).map b.append) ∧
    ∀ c p items, c.graph.Bare ns → p < c.graph.size →
      declareBelow ns (b.append c) (b.graph.size + p) items =
        (declareBelow ns c p items).map b.append := by
  apply declare.mutual_induct
    (fun c place f => c.graph.Bare ns → ∀ p kind, place = .below p kind → p < c.graph.size →
      declare ns (b.append c) (.below (b.graph.size + p) kind) f =
        (declare ns c place f).map b.append)
    (fun c p items => c.graph.Bare ns → p < c.graph.size →
      declareBelow ns (b.append c) (b.graph.size + p) items =
        (declareBelow ns c p items).map b.append)
  case case1 =>
    rintro c place head items id ih hc p kind rfl hp
    exact declare_list_append hb hc hp fun g hg hlt => ih g hg hlt
  case case2 =>
    intro f c place hf _ p kind _ _
    rw [declare.eq_2 ns c place f hf, declare.eq_2 ns _ _ f hf]
    rfl
  case case3 =>
    intro c p _ _
    rw [declareBelow, declareBelow]
    rfl
  case case4 =>
    intro c p key value rest ih hc hp
    rw [declareBelow, declareBelow]
    exact ih hc hp
  case case5 =>
    intro c p items rest kind hkind ih ihrest hc hp
    rw [declareBelow, declareBelow, hkind]
    dsimp only
    rw [ih hc p kind rfl hp]
    cases hd : declare ns c (.below p kind) (.list items) with
    | error e => rfl
    | ok d =>
      obtain ⟨hbare, hsize⟩ := declare_grows hc (parent?_lt hp) hd
      exact ihrest d hbare (Nat.lt_of_lt_of_le hp hsize)
  case case6 =>
    intro c p items rest hkind ih hc hp
    rw [declareBelow, declareBelow, hkind]
    exact ih hc hp
  case case7 =>
    intro c p f rest hkey hlist ih hc hp
    rw [declareBelow.eq_4 ns c p f rest hkey hlist, declareBelow.eq_4 ns _ _ f rest hkey hlist]
    exact ih hc hp

/-- A graph of one tree. -/
def planted (n : Node ω η) : Flow.Graph ω η :=
  Graph.empty.push { n with parent := none, tree := 0, depth := 0, path := n.name }

theorem planted_declaredNode {place : Place} {items : List Form} {node : Node ω η} {parts : Parts}
    (hplace : place.parent? = none) (h : declaredNode ns g place items = .ok (node, parts))
    (g : Flow.Graph ω η) :
    (planted node).Bare ns ∧
      g.push { node with parent := none, tree := g.size, depth := 0, path := node.name } =
      g.append (planted node) := by
  rcases declaredNode_eq_ok h with ⟨-, name, handler, rfl, hhosted⟩ | ⟨⟨p, hp⟩, -⟩
  · refine ⟨((Graph.bare_empty ns).insertTree hhosted rfl).1, ?_⟩
    simp [Graph.push, Graph.append, planted, Graph.empty, Node.rename, NodeSpec.rename, Node.fresh,
      Renaming.after]
  · rw [hplace] at hp
    cases hp

theorem declaredNode_top (g : Flow.Graph ω η) (items : List Form) :
    declaredNode ns g .top items = declaredNode ns .empty .top items := by
  have hname : declaredName g .top items.head? = declaredName (.empty : Flow.Graph ω η) .top items.head? := by
    unfold declaredName
    cases items.head?.bind nameOf? <;> rfl
  unfold declaredNode
  rw [hname]
  rfl

/-- What a top-level form declares comes after what is there already, in which no tree may have its name. -/
theorem declare_top_eq_ok {d d' : Draft ω η} (hd : d.graph.WellFormed) (head : Form) (items : List Form) :
    declare ns d .top (.list (head :: items)) = .ok d' ↔
      ∃ node parts c, declaredNode ns .empty .top items = .ok (node, parts) ∧
        d.graph.treeNamed? node.name = none ∧
        declareBelow ns ⟨planted node, []⟩ 0 items = .ok c ∧
        d' = d.append { c with pending := c.pending ++ [(0, parts)] } := by
  have hbelow {node : Node ω η} (hbare : (planted node).Bare ns) :
      declareBelow ns ⟨d.graph.append (planted node), d.pending⟩ d.graph.size items =
        d.append <$> declareBelow ns ⟨planted node, []⟩ 0 items := by
    have h := (declare_append ns hd).2 ⟨planted node, []⟩ 0 items hbare Nat.one_pos
    rwa [Draft.append, List.map_nil, List.append_nil] at h
  have hpending (c : Draft ω η) (parts : Parts) :
      { d.append c with pending := (d.append c).pending ++ [(d.graph.size, parts)] } =
        d.append { c with pending := c.pending ++ [(0, parts)] } := by
    simp [Draft.append]
  rw [declare, declaredNode_top]
  constructor
  · intro h
    obtain ⟨⟨node, parts⟩, hdeclared, h⟩ := bind_eq_ok.1 h
    obtain ⟨g, hg, h⟩ := bind_eq_ok.1 h
    obtain ⟨d₁, hd₁, h⟩ := bind_eq_ok.1 h
    obtain ⟨hbare, hpush⟩ := planted_declaredNode rfl hdeclared d.graph
    obtain ⟨hfresh, hg⟩ := Graph.insertTree_eq_ok_iff.1 (mapError_eq_ok.1 hg)
    rw [hg, hpush] at hd₁
    obtain ⟨c, hc, rfl⟩ := map_eq_ok.1 ((hbelow hbare).symm.trans hd₁)
    exact ⟨node, parts, c, hdeclared, hfresh, hc, (pure_eq_ok.1 h).symm.trans (hpending c parts)⟩
  · rintro ⟨node, parts, c, hdeclared, hfresh, hc, rfl⟩
    obtain ⟨hbare, hpush⟩ := planted_declaredNode rfl hdeclared d.graph
    have hg := Graph.insertTree_eq_ok_iff.2 ⟨hfresh, hpush.symm⟩
    refine bind_eq_ok.2 ⟨(node, parts), hdeclared, bind_eq_ok.2 ⟨_, mapError_eq_ok.2 hg, ?_⟩⟩
    refine bind_eq_ok.2 ⟨d.append c, (hbelow hbare).trans (map_eq_ok.2 ⟨c, hc, rfl⟩), ?_⟩
    exact pure_eq_ok.2 (hpending c parts)

theorem declare_distinct {d d' : Draft ω η} {f : Form} (hd : d.graph.Bare ns ∧ d.graph.Distinct)
    (h : declare ns d .top f = .ok d') : d'.graph.Bare ns ∧ d'.graph.Distinct :=
  (declare_keeps ns (P := Graph.Distinct) fun hp _ hinsert hdistinct =>
    hdistinct.insert (Graph.inserted_insert hp hinsert)).1 d .top f (fun _ hp => by cases hp) d' h hd

/-- The first node of a tree stays its root. -/
theorem root_of_declareBelow {c : Draft ω η} {node : Node ω η} {items : List Form}
    (hbare : (planted node).Bare ns) (h : declareBelow ns ⟨planted node, []⟩ 0 items = .ok c) :
    c.graph.Bare ns ∧ 0 < c.graph.size ∧ c.graph.parent 0 = none ∧ (c.graph.node 0).name = node.name := by
  refine (declare_keeps ns
    (P := fun g => 0 < g.size ∧ g.parent 0 = none ∧ (g.node 0).name = node.name) ?_).2
    ⟨planted node, []⟩ 0 items Nat.one_pos c h ⟨hbare, Nat.one_pos, rfl, rfl⟩
  intro g g' place items n parts hp _ hinsert ⟨hpos, hparent, hname⟩
  have hinserted := Graph.inserted_insert hp hinsert
  obtain ⟨hparent', -, hname'⟩ := hinserted.old (Nat.ne_of_lt hpos)
  exact ⟨hinserted.size_eq ▸ Nat.succ_pos _, hparent'.trans hparent, hname'.trans hname⟩

theorem Draft.empty_append (c : Draft ω η) (hc : c.graph.Bare ns) :
    (Draft.mk .empty []).append c = c := by
  have hsame : (Prod.map ((Graph.empty : Flow.Graph ω η).size + ·) id : NodeId × Parts → NodeId × Parts) =
      id :=
    funext fun p => Prod.ext (Nat.zero_add p.1) rfl
  rw [append, Graph.empty_append hc, hsame, List.map_id, List.nil_append]

/-- A tree is declared as it would be alone when its name is new. -/
theorem declare_top_iff {d d' : Draft ω η} (hd : d.graph.Bare ns ∧ d.graph.Distinct) (head : Form)
    (items : List Form) :
    declare ns d .top (.list (head :: items)) = .ok d' ↔
      ∃ c, declare ns ⟨.empty, []⟩ .top (.list (head :: items)) = .ok c ∧ d' = d.append c ∧
        d'.graph.Distinct := by
  have halone (c : Draft ω η) : declare ns ⟨.empty, []⟩ .top (.list (head :: items)) = .ok c ↔ _ :=
    declare_top_eq_ok Graph.wellFormed_empty head items
  constructor
  · intro h
    have hdistinct := (declare_distinct hd h).2
    obtain ⟨node, parts, c, hdeclared, -, hc, rfl⟩ := (declare_top_eq_ok hd.1.wellFormed head items).1 h
    have hbare := (root_of_declareBelow (planted_declaredNode rfl hdeclared .empty).1 hc).1
    refine ⟨_, (halone _).2 ⟨node, parts, c, hdeclared, rfl, hc, ?_⟩, rfl, hdistinct⟩
    exact (Draft.empty_append { c with pending := c.pending ++ [(0, parts)] } hbare).symm
  · rintro ⟨c', hc', rfl, hdistinct⟩
    obtain ⟨node, parts, c, hdeclared, -, hc, rfl⟩ := (halone _).1 hc'
    obtain ⟨hbare, hpos, hparent, hname⟩ :=
      root_of_declareBelow (planted_declaredNode rfl hdeclared .empty).1 hc
    rw [Draft.empty_append { c with pending := c.pending ++ [(0, parts)] } hbare] at hdistinct ⊢
    refine (declare_top_eq_ok hd.1.wellFormed head items).2 ⟨node, parts, c, hdeclared, ?_, hc, rfl⟩
    have hroot := Graph.mem_trees.2 ⟨hpos, hparent⟩
    refine Graph.treeNamed?_eq_none.2 fun t ht hsame => ?_
    exact Graph.Distinct.name_ne_of_append hdistinct ht hroot (hsame.trans hname.symm)

namespace Declarations

/-- The first declarations with the second ones after them. -/
def append (d c : Declarations ω η) : Declarations ω η := ⟨d.draft.append c.draft, d.roles ++ c.roles⟩

theorem append_empty (d : Declarations ω η) : d.append .empty = d := by
  simp [append, Draft.append, empty, Graph.append_empty]

theorem append_append (d c e : Declarations ω η) : (d.append c).append e = d.append (c.append e) := by
  simp [append, Draft.append, Graph.append_append, Prod.map, Function.comp_def, Nat.add_assoc]

end Declarations

variable {d d' c e : Declarations ω η} {f : Form} {forms forms' : List Form}

/-- A top-level form declares the same wherever it stands, if it may stand there at all. -/
theorem declareForm_iff (hd : d.draft.graph.Bare ns ∧ d.draft.graph.Distinct) :
    declareForm ns d f = .ok d' ↔
      ∃ c, declareForm ns .empty f = .ok c ∧ d' = d.append c ∧ d'.draft.graph.Distinct := by
  unfold declareForm
  split
  · rename_i items
    have happend (roles : List Role) :
        d.append ⟨⟨.empty, []⟩, roles⟩ = ⟨d.draft, d.roles ++ roles⟩ := by
      simp [Declarations.append, Draft.append, Graph.append_empty]
    constructor
    · intro h
      obtain ⟨roles, hroles, h⟩ := bind_eq_ok.1 h
      obtain rfl := pure_eq_ok.1 h
      exact ⟨_, bind_eq_ok.2 ⟨roles, hroles, rfl⟩, (happend roles).symm, hd.2⟩
    · rintro ⟨c, hc, rfl, -⟩
      obtain ⟨roles, hroles, hc⟩ := bind_eq_ok.1 hc
      obtain rfl := pure_eq_ok.1 hc
      exact bind_eq_ok.2 ⟨roles, hroles, congrArg Except.ok (happend roles).symm⟩
  · rename_i items
    constructor
    · intro h
      obtain ⟨draft, hdraft, h⟩ := bind_eq_ok.1 h
      obtain rfl := pure_eq_ok.1 h
      obtain ⟨c, hc, rfl, hdistinct⟩ := (declare_top_iff hd _ items).1 hdraft
      refine ⟨_, bind_eq_ok.2 ⟨c, hc, rfl⟩, ?_, hdistinct⟩
      simp [Declarations.append, Declarations.empty]
    · rintro ⟨c', hc', rfl, hdistinct⟩
      obtain ⟨c, hc, hc'⟩ := bind_eq_ok.1 hc'
      obtain rfl := pure_eq_ok.1 hc'
      refine bind_eq_ok.2 ⟨_, (declare_top_iff hd _ items).2 ⟨c, hc, rfl, hdistinct⟩, ?_⟩
      simp [Declarations.append, Declarations.empty, pure, Except.pure]
  · simp

/-- What top-level forms declare, each of them alone, one after the other. -/
inductive Assembles (ns : Namespace ω η) : List Form → Declarations ω η → Prop where
  | nil : Assembles ns [] .empty
  | cons {f c fs e} (first : declareForm ns .empty f = .ok c) (rest : Assembles ns fs e) :
    Assembles ns (f :: fs) (c.append e)

theorem assembles_cons : Assembles ns (f :: forms) d ↔
    ∃ c e, declareForm ns .empty f = .ok c ∧ Assembles ns forms e ∧ d = c.append e := by
  constructor
  · rintro ⟨⟩
    exact ⟨_, _, ‹_›, ‹_›, rfl⟩
  · rintro ⟨c, e, hc, he, rfl⟩
    exact .cons hc he

/-- Forms are declared one after the other when no two of their trees have the same name. -/
theorem foldlM_declareForm_iff (hd : d.draft.graph.Bare ns ∧ d.draft.graph.Distinct) :
    forms.foldlM (declareForm ns) d = .ok d' ↔
      ∃ e, Assembles ns forms e ∧ d' = d.append e ∧ d'.draft.graph.Distinct := by
  induction forms generalizing d with
  | nil =>
    rw [List.foldlM_nil, pure_eq_ok]
    constructor
    · rintro rfl
      exact ⟨.empty, .nil, (Declarations.append_empty d).symm, hd.2⟩
    · rintro ⟨e, ⟨⟩, rfl, -⟩
      exact (Declarations.append_empty d).symm
  | cons f rest ih =>
    rw [List.foldlM_cons]
    constructor
    · intro h
      obtain ⟨d₁, hd₁, h⟩ := bind_eq_ok.1 h
      have hbare := declareForm_bare hd.1 hd₁
      obtain ⟨c, hc, rfl, hdistinct⟩ := (declareForm_iff hd).1 hd₁
      obtain ⟨e, he, rfl, hdistinct'⟩ := (ih ⟨hbare, hdistinct⟩).1 h
      exact ⟨c.append e, .cons hc he, Declarations.append_append .., hdistinct'⟩
    · rintro ⟨e', he', hd', hdistinct⟩
      obtain ⟨c, e, hc, he, rfl⟩ := assembles_cons.1 he'
      rw [← Declarations.append_append] at hd'
      have hfirst : (d.append c).draft.graph.Distinct := by
        subst hd'
        exact Graph.Distinct.of_append hdistinct
      have hd₁ := (declareForm_iff hd).2 ⟨c, hc, rfl, hfirst⟩
      exact bind_eq_ok.2 ⟨d.append c, hd₁,
        (ih ⟨declareForm_bare hd.1 hd₁, hfirst⟩).2 ⟨e, he, hd', hdistinct⟩⟩

/-- Whether two documents declare the same up to the identifiers of nodes and the order of roles. -/
structure Declarations.Alike (ids : Equiv.Perm NodeId) (d d' : Declarations ω η) : Prop where
  graph : d.draft.graph.Matches (.ofIds ids) d'.draft.graph
  pending : (d.draft.pending.map (Prod.map ids id)).Perm d'.draft.pending
  roles : d.roles.Perm d'.roles

/-- Declarations that mention their own nodes only. -/
structure Declarations.Closed (ns : Namespace ω η) (d : Declarations ω η) : Prop where
  bare : d.draft.graph.Bare ns
  pending_lt : ∀ p ∈ d.draft.pending, p.1 < d.draft.graph.size

theorem closed_of_declareForm (h : declareForm ns .empty f = .ok c) : c.Closed ns := by
  refine ⟨declareForm_bare (Graph.bare_empty ns) h, fun p hp => ?_⟩
  obtain ⟨more, hpending, hsize, hperm⟩ := declareForm_queues h
  rw [hpending, show (Declarations.empty : Declarations ω η).draft.pending = [] from rfl,
    List.nil_append] at hp
  rw [hsize]
  have hmem := hperm.mem_iff.1 (List.mem_map_of_mem hp)
  exact (List.mem_range'_1.1 hmem).2

namespace Declarations.Alike
variable {ids ids' : Equiv.Perm NodeId} {d'' : Declarations ω η}

theorem empty : (Declarations.empty : Declarations ω η).Alike (.refl NodeId) .empty :=
  ⟨⟨(Equiv.refl NodeId).bijective, rfl, Iff.rfl, fun h => absurd h (Nat.not_lt_zero _)⟩, .refl _,
    .refl _⟩

theorem trans (h : d.Alike ids d') (h' : d'.Alike ids' d'') : d.Alike (ids.trans ids') d'' := by
  refine ⟨h.graph.trans h'.graph, ?_, h.roles.trans h'.roles⟩
  have hmap := (h.pending.map (Prod.map ids' id)).trans h'.pending
  rwa [List.map_map, Prod.map_comp_map] at hmap

theorem append (hc : c.Closed ns) (h : d.Alike ids d') :
    (c.append d).Alike (above c.draft.graph.size ids) (c.append d') := by
  refine ⟨h.graph.append hc.bare, ?_, h.roles.append_left _⟩
  have hfirst : c.draft.pending.map (Prod.map (above c.draft.graph.size ids) id) = c.draft.pending := by
    refine (List.map_congr_left fun p hp => ?_).trans (List.map_id _)
    exact Prod.ext (above_of_lt ids (hc.pending_lt p hp)) rfl
  have hrest : (d.draft.pending.map (Prod.map (c.draft.graph.size + ·) id)).map
      (Prod.map (above c.draft.graph.size ids) id) =
      (d.draft.pending.map (Prod.map ids id)).map (Prod.map (c.draft.graph.size + ·) id) := by
    rw [List.map_map, List.map_map]
    exact List.map_congr_left fun p _ => Prod.ext (above_add ..) rfl
  show ((c.draft.pending ++ d.draft.pending.map _).map _).Perm (c.draft.pending ++ d'.draft.pending.map _)
  rw [List.map_append, hfirst, hrest]
  exact (h.pending.map _).append_left _

theorem swap (hc : c.Closed ns) (hd : d.Closed ns) (e : Declarations ω η) :
    (c.append (d.append e)).Alike (exchange c.draft.graph.size d.draft.graph.size)
      (d.append (c.append e)) := by
  refine ⟨Graph.matches_exchange hc.bare hd.bare e.draft.graph, ?_, ?_⟩
  · have hfirst : c.draft.pending.map (Prod.map (exchange c.draft.graph.size d.draft.graph.size) id) =
        c.draft.pending.map (Prod.map (d.draft.graph.size + ·) id) :=
      List.map_congr_left fun p hp => Prod.ext (exchange_of_lt (hc.pending_lt p hp)) rfl
    have hsecond : (d.draft.pending.map (Prod.map (c.draft.graph.size + ·) id)).map
        (Prod.map (exchange c.draft.graph.size d.draft.graph.size) id) = d.draft.pending := by
      rw [List.map_map]
      refine (List.map_congr_left fun p hp => ?_).trans (List.map_id _)
      exact Prod.ext (exchange_add_of_lt (hd.pending_lt p hp)) rfl
    have hrest : ((e.draft.pending.map (Prod.map (d.draft.graph.size + ·) id)).map
        (Prod.map (c.draft.graph.size + ·) id)).map
          (Prod.map (exchange c.draft.graph.size d.draft.graph.size) id) =
        (e.draft.pending.map (Prod.map (c.draft.graph.size + ·) id)).map
          (Prod.map (d.draft.graph.size + ·) id) := by
      rw [List.map_map, List.map_map, List.map_map]
      refine List.map_congr_left fun p _ => Prod.ext ?_ rfl
      exact (exchange_add ..).trans (Nat.add_left_comm ..)
    simp only [Declarations.append, Draft.append, List.map_append, hfirst, hsecond, hrest]
    rw [← List.append_assoc, ← List.append_assoc]
    exact List.perm_append_comm.append_right _
  · show (c.roles ++ (d.roles ++ e.roles)).Perm (d.roles ++ (c.roles ++ e.roles))
    rw [← List.append_assoc, ← List.append_assoc]
    exact List.perm_append_comm.append_right _

end Declarations.Alike

/-- Another order of the forms gives the nodes other identifiers. -/
theorem assembles_of_perm (h : forms.Perm forms') (hd : Assembles ns forms d) :
    ∃ ids d', Assembles ns forms' d' ∧ d.Alike ids d' := by
  induction h generalizing d with
  | nil =>
    cases hd
    exact ⟨.refl NodeId, .empty, .nil, .empty⟩
  | cons f _ ih =>
    obtain ⟨c, e, hc, he, rfl⟩ := assembles_cons.1 hd
    obtain ⟨ids, e', he', halike⟩ := ih he
    exact ⟨_, _, .cons hc he', halike.append (closed_of_declareForm hc)⟩
  | swap f f' fs =>
    obtain ⟨c', e', hc', he', rfl⟩ := assembles_cons.1 hd
    obtain ⟨c, e, hc, he, rfl⟩ := assembles_cons.1 he'
    exact ⟨_, _, .cons hc (.cons hc' he),
      .swap (closed_of_declareForm hc') (closed_of_declareForm hc) e⟩
  | trans _ _ ih ih' =>
    obtain ⟨ids, d₁, hd₁, halike⟩ := ih hd
    obtain ⟨ids', d₂, hd₂, halike'⟩ := ih' hd₁
    exact ⟨_, d₂, hd₂, halike.trans halike'⟩

/-- Forms in another order declare the same up to the identifiers of nodes. -/
theorem alike_of_perm (h : forms.Perm forms') (hd : forms.foldlM (declareForm ns) .empty = .ok d) :
    ∃ ids d', forms'.foldlM (declareForm ns) .empty = .ok d' ∧ d.Alike ids d' ∧
      d.draft.graph.Distinct := by
  have hstart : (Declarations.empty : Declarations ω η).draft.graph.Bare ns ∧
      (Declarations.empty : Declarations ω η).draft.graph.Distinct :=
    ⟨Graph.bare_empty ns, Graph.distinct_empty⟩
  obtain ⟨e, he, rfl, hdistinct⟩ := (foldlM_declareForm_iff hstart).1 hd
  obtain ⟨ids, e', he', halike⟩ := assembles_of_perm h he
  have hempty : (Declarations.empty : Declarations ω η).Closed ns :=
    ⟨Graph.bare_empty ns, fun p hp => by cases hp⟩
  have halike := halike.append hempty
  exact ⟨_, _, (foldlM_declareForm_iff hstart).2 ⟨e', he', rfl, hdistinct.of_matches halike.graph⟩, halike,
    hdistinct⟩

end ChatFlow.Document
