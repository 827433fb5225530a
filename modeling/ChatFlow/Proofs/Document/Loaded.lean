import ChatFlow.Document.Load
import ChatFlow.Proofs.Document.Contents
import ChatFlow.Proofs.Document.Declared
import ChatFlow.Proofs.Flow.Cycles

/-! What loading a document guarantees about its graph. -/
namespace ChatFlow.Document
open Flow Expr
variable {ω η : Type} {l : Library ω η} {bare g g' : Flow.Graph ω η} {id : NodeId} {parts : Parts}

theorem Subject.Content.bare_fill (c : Subject.Content ω η) (n : Node ω η) :
    (c.fill n).bare = n.bare := by
  cases h : n.spec <;> simp [fill, Node.bare, Node.fresh, h]

theorem Subject.Content.Of.condition_scoped {s : Subject ω η} {c : Subject.Content ω η} (hc : c.Of s)
    (n : Node ω η) (e : Expression ω η) (he : (c.fill n).condition? = some e) :
    e.ScopedTo (if (c.fill n).isTree then none else s.scope) := by
  cases hs : n.spec with
  | tree spec =>
    simp only [fill, Node.condition?, Node.isTree, hs] at he ⊢
    exact hc.predicate_scoped e he
  | branch spec =>
    simp only [fill, Node.condition?, Node.isTree, hs] at he ⊢
    exact hc.guard_scoped e he

/-- A graph that the second pass has made of a bare one so far. -/
structure Populated (bare g : Flow.Graph ω η) : Prop where
  size_eq : g.size = bare.size
  roles_eq : g.roles = bare.roles
  bare_eq : ∀ id, (g.node id).bare = (bare.node id).bare
  owns : ∀ id, (g.node id).Owns bare.size (bare.scope id) id

theorem Populated.refl (hb : bare.Bare l.members) : Populated bare bare :=
  ⟨rfl, rfl, fun _ => rfl, fun id => Node.owns_of_bare (hb.bare_eq id) _ _ id⟩

theorem Populated.scope_eq (hg : Populated bare g) (id : NodeId) : g.scope id = bare.scope id := by
  have htree : g.tree id = bare.tree id := by
    simpa [Graph.tree] using congrArg Node.tree (hg.bare_eq id)
  have hhandler := congrArg Node.handler (hg.bare_eq (bare.tree id))
  rw [Node.bare_handler, Node.bare_handler] at hhandler
  rw [Graph.scope, Graph.scope, htree, hhandler]

theorem populate_populated (hb : bare.Bare l.members) (hg : Populated bare g) (parts : Parts) :
    Yields (populate l bare g id parts) (Populated bare) := by
  unfold populate
  refine yields_bind (Subject.content_of ⟨l, bare, id⟩ hb.wellFormed parts) fun c hc => yields_pure ?_
  rcases Nat.lt_or_ge id g.size with hlt | hge
  · have hnode := Graph.node_modify c.fill hlt
    refine ⟨(Graph.size_modify ..).trans hg.size_eq, hg.roles_eq, ?_, ?_⟩
    · intro id'
      rw [hnode]
      split
      · rw [Subject.Content.bare_fill, hg.bare_eq]
      · exact hg.bare_eq id'
    · intro id'
      rw [hnode]
      split
      · rename_i hid
        subst hid
        have htree : (g.node id').tree = (bare.node id').tree := by
          simpa using congrArg Node.tree (hg.bare_eq id')
        refine ⟨?_, ?_, ?_, ?_, ?_⟩
        · exact htree ▸ hc.actions_of
        · exact htree ▸ hc.exitActions_of
        · exact htree ▸ hc.reentryActions_of
        · intro k t hk
          have hat := hc.declared k t hk
          rw [Nat.zero_add] at hat
          exact htree ▸ hat
        · exact hc.condition_scoped (g.node id')
      · exact hg.owns id'
  · have hsame : g.modify id c.fill = g := by
      have hnodes : g.nodes.modify id c.fill = g.nodes := List.modify_eq_self hge
      simp [Graph.modify, hnodes]
    rw [hsame]
    exact hg

theorem Populated.wellFormed (hb : bare.Bare l.members) (hg : Populated bare g) : g.WellFormed :=
  hb.wellFormed.of_bare hg.size_eq hg.bare_eq

theorem Populated.hosted (hb : bare.Bare l.members) (hg : Populated bare g) : g.Hosted l.members := by
  intro id owner ho
  rw [← Node.bare_handler, hg.bare_eq, Node.bare_handler] at ho
  exact hb.hosted id owner ho

theorem Populated.sound (hb : bare.Bare l.members) (ht : bare.trees ≠ []) (hg : Populated bare g) :
    g.Sound := by
  refine ⟨hg.wellFormed hb, fun id => hg.size_eq ▸ hg.scope_eq id ▸ hg.owns id, ?_, ?_⟩
  · intro role grant tree h _
    rw [Graph.grant?, hg.roles_eq, hb.roles_eq] at h
    cases h
  · obtain ⟨id, hid⟩ := List.exists_mem_of_ne_nil _ ht
    obtain ⟨hlt, hroot⟩ := Graph.mem_trees.1 hid
    have hparent : g.parent id = none := by
      have h := congrArg Node.parent (hg.bare_eq id)
      simp only [Node.bare_parent] at h
      exact h.trans hroot
    exact List.ne_nil_of_mem (Graph.mem_trees.2 ⟨hg.size_eq ▸ hlt, hparent⟩)

theorem resolveTree_eq_ok {role : Role} {name : String} {tree : NodeId} :
    role.resolveTree g name = .ok tree ↔ g.treeNamed? name = some tree := by
  unfold Role.resolveTree
  cases g.treeNamed? name <;> simp

/-- A role is resolved when it grants something and all names in it are those of trees. -/
theorem resolve_eq_ok {role : Role} {grant : Grant} : role.resolve g = .ok grant ↔
    (role.level.isSome ∨ role.trees.isSome) ∧ ∃ trees onDenied,
      role.trees.mapM (fun names => names.mapM (role.resolveTree g)) = .ok trees ∧
      role.onDenied.mapM (role.resolveTree g) = .ok onDenied ∧
      grant = ⟨role.name, role.level, trees, onDenied⟩ := by
  have hcheck : role.check = .ok () ↔ role.level.isSome ∨ role.trees.isSome := by
    unfold Role.check
    cases role.level <;> cases role.trees <;> simp
  unfold Role.resolve
  simp only [bind_eq_ok, pure_eq_ok, hcheck, exists_const, eq_comm (a := grant), exists_and_left]

/-- The fallback of a resolved role is a tree. -/
theorem onDenied_mem_of_resolve {role : Role} {grant : Grant} {tree : NodeId}
    (h : role.resolve g = .ok grant) (ht : grant.onDenied = some tree) : tree ∈ g.trees := by
  obtain ⟨_, _, onDenied, _, hd, rfl⟩ := resolve_eq_ok.1 h
  have ht : onDenied = some tree := ht
  rcases option_mapM_ok.1 hd with ⟨_, rfl⟩ | ⟨name, id, _, hid, rfl⟩
  · cases ht
  · cases ht
    exact Graph.mem_trees_of_treeNamed (resolveTree_eq_ok.1 hid)

theorem insertGrant_eq_ok {grant : Grant} (h : g.insertGrant grant = .ok g') :
    g' = { g with roles := g.roles.insert grant.name grant } := by
  unfold Graph.insertGrant at h
  split at h
  · cases h
  · cases h
    rfl

theorem sound_insertGrant {role : Role} {grant : Grant} (hg : g.Sound)
    (hr : role.resolve g = .ok grant) (h : g.insertGrant grant = .ok g') : g'.Sound := by
  obtain rfl := insertGrant_eq_ok h
  have hwf := hg.wellFormed
  refine ⟨hwf.of_bare rfl fun _ => rfl, hg.owns, ?_, hg.trees_ne_nil⟩
  intro name grant' tree h ht
  rw [Graph.grant?, Table.get?_insert] at h
  split at h
  · cases h
    exact onDenied_mem_of_resolve hr ht
  · exact hg.onDenied_mem h ht

/-- A top-level form declares roles, or a tree with all that is below it. -/
theorem declareForm_ok {ns : Namespace ω η} {d d' : Declarations ω η} {f : Form}
    (h : declareForm ns d f = .ok d') :
    (∃ items roles, f = .list (.symbol "roles" :: items) ∧ items.mapM readRole = .ok roles ∧
      d' = { d with roles := d.roles ++ roles }) ∨
    ∃ items draft, f = .list (.symbol "tree" :: items) ∧ declare ns d.draft .top f = .ok draft ∧
      d' = { d with draft } := by
  unfold declareForm at h
  split at h
  · obtain ⟨roles, hroles, h⟩ := bind_eq_ok.1 h
    exact Or.inl ⟨_, roles, rfl, hroles, (pure_eq_ok.1 h).symm⟩
  · obtain ⟨draft, hdraft, h⟩ := bind_eq_ok.1 h
    exact Or.inr ⟨_, draft, rfl, hdraft, (pure_eq_ok.1 h).symm⟩
  · cases h

theorem declareForm_bare {ns : Namespace ω η} {d d' : Declarations ω η} {f : Form}
    (hd : d.draft.graph.Bare ns) (h : declareForm ns d f = .ok d') : d'.draft.graph.Bare ns := by
  rcases declareForm_ok h with ⟨_, _, _, _, rfl⟩ | ⟨_, draft, _, hdraft, rfl⟩
  · exact hd
  · exact (declare_grows hd (fun _ hp => by cases hp) hdraft).1

/-- What a graph is when it has been loaded against a library. -/
structure Library.Loads (l : Library ω η) (g : Flow.Graph ω η) : Prop where
  sound : g.Sound
  hosted : g.Hosted l.members
  acyclic : Acyclic g.Leaps

/-- A document is loaded when each step of loading succeeds. -/
theorem loadForms_eq_ok {forms : List Form} : loadForms l forms = .ok g ↔
    ∃ (d : Declarations ω η) (filled : Flow.Graph ω η) (slots : Nat),
      forms.foldlM (declareForm l.members) .empty = .ok d ∧
      d.draft.graph.trees ≠ [] ∧
      (d.draft.pending.foldlM (fun g (id, parts) => populate l d.draft.graph g id parts)
        d.draft.graph).run 0 = .ok (filled, slots) ∧
      d.roles.foldlM (fun g role => liftConfig do g.insertGrant (← role.resolve g)) filled = .ok g ∧
      g.checkCycles = .ok () := by
  have hthrow {e : LoadError} {k : Unit → Except LoadError (Flow.Graph ω η)} :
      (throw e >>= k : Except LoadError (Flow.Graph ω η)) = .error e := rfl
  unfold loadForms
  constructor
  · intro h
    obtain ⟨d, hd, h⟩ := bind_eq_ok.1 h
    dsimp only at h
    split at h
    · rw [hthrow] at h
      cases h
    · rename_i hempty
      obtain ⟨⟨filled, slots⟩, hfilled, h⟩ := bind_eq_ok.1 h
      obtain ⟨g', hg', h⟩ := bind_eq_ok.1 h
      obtain ⟨⟨⟩, hcycles, h⟩ := bind_eq_ok.1 h
      cases pure_eq_ok.1 h
      exact ⟨d, filled, slots, hd, by simpa using hempty, hfilled, hg', mapError_eq_ok.1 hcycles⟩
  · rintro ⟨d, filled, slots, hd, htrees, hfilled, hg, hcycles⟩
    refine bind_eq_ok.2 ⟨d, hd, ?_⟩
    dsimp only
    rw [if_neg (by simpa using htrees)]
    refine bind_eq_ok.2 ⟨(filled, slots), hfilled, bind_eq_ok.2 ⟨g, hg, ?_⟩⟩
    exact bind_eq_ok.2 ⟨(), mapError_eq_ok.2 hcycles, rfl⟩

theorem bare_of_declareForms {ns : Namespace ω η} {forms : List Form} {d : Declarations ω η}
    (h : forms.foldlM (declareForm ns) .empty = .ok d) : d.draft.graph.Bare ns :=
  foldlM_ok (P := fun d => d.draft.graph.Bare ns) (Graph.bare_empty ns)
    (fun _ _ _ hd h => declareForm_bare hd h) h

theorem loadForms_loads {forms : List Form} (h : loadForms l forms = .ok g) : l.Loads g := by
  obtain ⟨d, g₁, slots, hd, ht, hg₁, hg₂, hcycles⟩ := loadForms_eq_ok.1 h
  have hb : d.draft.graph.Bare l.members := bare_of_declareForms hd
  have hp : Populated d.draft.graph g₁ :=
    yields_foldlM (Populated.refl hb)
      (fun _ a _ hg => populate_populated hb hg a.2) 0 g₁ slots hg₁
  have hroles : g.Sound ∧ g.Hosted l.members := by
    refine foldlM_ok (P := fun g => g.Sound ∧ g.Hosted l.members) ⟨hp.sound hb ht, hp.hosted hb⟩ ?_ hg₂
    intro g role g' ⟨hg, hhosted⟩ h
    obtain ⟨grant, hgrant, h⟩ := bind_eq_ok.1 (mapError_eq_ok.1 h)
    refine ⟨sound_insertGrant hg hgrant h, ?_⟩
    obtain rfl := insertGrant_eq_ok h
    exact hhosted
  exact ⟨hroles.1, hroles.2, Graph.acyclic_of_checkCycles hcycles⟩

theorem forms_of_load {text : String} (h : load l text = .ok g) :
    ∃ forms, loadForms l forms = .ok g := by
  unfold load at h
  split at h
  · exact ⟨_, h⟩
  · cases h

theorem load_loads {text : String} (h : load l text = .ok g) : l.Loads g := by
  obtain ⟨forms, h⟩ := forms_of_load h
  exact loadForms_loads h

theorem load_sound {text : String} (h : load l text = .ok g) : g.Sound := (load_loads h).sound

end ChatFlow.Document
