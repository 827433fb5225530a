import ChatFlow.Proofs.Document.Filling

/-!
Loading does not depend on the order of the top-level forms. The first pass declares the same nodes
under other identifiers, the second one fills them in with other slots, and roles are resolved when
every name is known.
-/
namespace ChatFlow.Document
open Flow Expr
variable {ω η : Type} {l : Library ω η} {g g' : Flow.Graph ω η} {ρ : Renaming} {forms forms' : List Form}

/-! Roles are resolved by the names of trees. -/

theorem resolve_rename (h : g.Matches ρ g') (hd : g.Distinct) {role : Role} {grant : Grant}
    (hr : role.resolve g = .ok grant) : role.resolve g' = .ok (grant.rename ρ) := by
  have htree (name : String) (id : NodeId) (hid : role.resolveTree g name = .ok id) :
      role.resolveTree g' name = .ok (ρ.ids id) := by
    rw [resolveTree_eq_ok, h.treeNamed?_eq hd, resolveTree_eq_ok.1 hid]
    rfl
  obtain ⟨hgrants, trees, onDenied, htrees, hdenied, rfl⟩ := resolve_eq_ok.1 hr
  refine resolve_eq_ok.2 ⟨hgrants, trees.map (List.map ρ.ids), onDenied.map ρ.ids, ?_, ?_, rfl⟩
  · exact option_mapM_ok_imp (fun _ _ => mapM_ok_imp htree) htrees
  · exact option_mapM_ok_imp htree hdenied

/-- The graph with grants put into its roles. -/
def grantAll (g : Flow.Graph ω η) (grants : List Grant) : Flow.Graph ω η :=
  grants.foldl (fun g grant => { g with roles := g.roles.insert grant.name grant }) g

theorem nodes_grantAll (g : Flow.Graph ω η) (grants : List Grant) :
    (grantAll g grants).nodes = g.nodes := by
  induction grants generalizing g with
  | nil => rfl
  | cons grant rest ih => exact ih _

theorem insertGrant_eq_ok_iff {grant : Grant} : g.insertGrant grant = .ok g' ↔
    g.grant? grant.name = none ∧ g' = { g with roles := g.roles.insert grant.name grant } := by
  constructor
  · intro h
    refine ⟨?_, insertGrant_eq_ok h⟩
    by_contra hsome
    have hcontains : g.roles.contains grant.name = true := Option.isSome_iff_ne_none.2 hsome
    rw [Graph.insertGrant, if_pos hcontains] at h
    cases h
  · rintro ⟨hnone, rfl⟩
    exact if_neg fun hsome => absurd hnone (Option.isSome_iff_ne_none.1 hsome)

theorem grant?_insert (g : Flow.Graph ω η) (grant : Grant) (name : String) :
    Graph.grant? { g with roles := g.roles.insert grant.name grant } name =
      if name = grant.name then some grant else g.grant? name :=
  Table.get?_insert

/-- Roles are enrolled when all of them are resolved and no two of them have the same name. -/
theorem enrollAll_eq_ok {roles : List Role} :
    roles.foldlM (fun g role => liftConfig do g.insertGrant (← role.resolve g)) g = .ok g' ↔
      ∃ grants, roles.mapM (Role.resolve · g) = .ok grants ∧ (grants.map Grant.name).Nodup ∧
        (∀ grant ∈ grants, g.grant? grant.name = none) ∧ g' = grantAll g grants := by
  induction roles generalizing g with
  | nil =>
    constructor
    · intro h
      cases h
      exact ⟨[], rfl, .nil, by simp, rfl⟩
    · rintro ⟨grants, h, -, -, rfl⟩
      cases h
      rfl
  | cons role rest ih =>
    rw [List.foldlM_cons, bind_eq_ok]
    constructor
    · rintro ⟨g₁, hg₁, h⟩
      obtain ⟨grant, hgrant, hg₁⟩ := bind_eq_ok.1 (mapError_eq_ok.1 hg₁)
      obtain ⟨hfresh, rfl⟩ := insertGrant_eq_ok_iff.1 hg₁
      obtain ⟨grants, hgrants, hnodup, hfresh', rfl⟩ := ih.1 h
      have hother {other : Grant} (hother : other ∈ grants) :
          other.name ≠ grant.name ∧ g.grant? other.name = none := by
        have hnone := hfresh' other hother
        rw [grant?_insert] at hnone
        split at hnone
        · cases hnone
        · exact ⟨‹_›, hnone⟩
      refine ⟨grant :: grants, mapM_cons_ok.2 ⟨grant, grants, hgrant, hgrants, rfl⟩, ?_, ?_, rfl⟩
      · rw [List.map_cons, List.nodup_cons]
        refine ⟨fun hmem => ?_, hnodup⟩
        obtain ⟨other, hmem, hname⟩ := List.mem_map.1 hmem
        exact (hother hmem).1 hname
      · exact List.forall_mem_cons.2 ⟨hfresh, fun other hmem => (hother hmem).2⟩
    · rintro ⟨grants, h, hnodup, hfresh, rfl⟩
      obtain ⟨grant, grants, hgrant, hgrants, rfl⟩ := mapM_cons_ok.1 h
      rw [List.map_cons, List.nodup_cons] at hnodup
      obtain ⟨hfirst, hrest⟩ := List.forall_mem_cons.1 hfresh
      have hinsert := bind_eq_ok.2 ⟨grant, hgrant, insertGrant_eq_ok_iff.2 ⟨hfirst, rfl⟩⟩
      refine ⟨_, mapError_eq_ok.2 hinsert, ih.2 ⟨grants, hgrants, hnodup.2, fun other hmem => ?_, rfl⟩⟩
      have hne : other.name ≠ grant.name := fun hname => hnodup.1 (hname ▸ List.mem_map_of_mem hmem)
      rw [grant?_insert, if_neg hne]
      exact hrest other hmem

theorem grant?_grantAll {grants : List Grant} (hnodup : (grants.map Grant.name).Nodup)
    (hfresh : ∀ grant ∈ grants, g.grant? grant.name = none) {name : String} {grant : Grant} :
    (grantAll g grants).grant? name = some grant ↔
      (grant ∈ grants ∧ grant.name = name) ∨ g.grant? name = some grant := by
  induction grants generalizing g with
  | nil => simp [grantAll]
  | cons first rest ih =>
    rw [List.map_cons, List.nodup_cons] at hnodup
    obtain ⟨hfirst, hrest⟩ := List.forall_mem_cons.1 hfresh
    have hother {other : Grant} (hmem : other ∈ rest) : other.name ≠ first.name := fun hname =>
      hnodup.1 (hname ▸ List.mem_map_of_mem hmem)
    have hstep := ih (g := { g with roles := g.roles.insert first.name first }) hnodup.2 fun other hmem => by
      rw [grant?_insert, if_neg (hother hmem)]
      exact hrest other hmem
    refine hstep.trans ?_
    rw [grant?_insert, List.mem_cons]
    by_cases hname : name = first.name
    · subst hname
      rw [if_pos rfl, hfirst]
      grind
    · rw [if_neg hname]
      grind

theorem grant?_eq_none (h : g.roles = ∅) (name : String) : g.grant? name = none := by
  rw [Graph.grant?, h]
  rfl

/-- The same grants, up to a renaming and in another order, are found under the same names. -/
theorem grant?_grantAll_rename (hg : g.roles = ∅) (hg' : g'.roles = ∅) {grants grants' : List Grant}
    (hnodup : (grants.map Grant.name).Nodup) (hperm : (grants.map (Grant.rename ρ)).Perm grants')
    (hnodup' : (grants'.map Grant.name).Nodup) (name : String) :
    (grantAll g' grants').grant? name = ((grantAll g grants).grant? name).map (Grant.rename ρ) := by
  have hmem (grant : Grant) :
      (grantAll g grants).grant? name = some grant ↔ grant ∈ grants ∧ grant.name = name := by
    simp [grant?_grantAll hnodup fun _ _ => grant?_eq_none hg _, grant?_eq_none hg]
  have hmem' (grant : Grant) :
      (grantAll g' grants').grant? name = some grant ↔ grant ∈ grants' ∧ grant.name = name := by
    simp [grant?_grantAll hnodup' fun _ _ => grant?_eq_none hg' _, grant?_eq_none hg']
  refine Option.ext fun grant' => ?_
  rw [hmem', Option.map_eq_some_iff, ← hperm.mem_iff, List.mem_map]
  constructor
  · rintro ⟨⟨grant, hgrant, rfl⟩, hname⟩
    exact ⟨grant, (hmem grant).2 ⟨hgrant, hname⟩, rfl⟩
  · rintro ⟨grant, hgrant, rfl⟩
    obtain ⟨hgrant, hname⟩ := (hmem grant).1 hgrant
    exact ⟨⟨grant, hgrant, rfl⟩, hname⟩

/-- Roles that are enrolled in one graph are enrolled in the other one, in any order. -/
theorem exists_enrolled {filled filled' : Flow.Graph ω η} {roles roles' : List Role}
    (h : filled.Matches ρ filled') (hd : filled.Distinct) (hnone : filled.roles = ∅)
    (hnone' : filled'.roles = ∅) (hroles : roles.Perm roles')
    (hg : roles.foldlM (fun g role => liftConfig do g.insertGrant (← role.resolve g)) filled = .ok g) :
    ∃ g', roles'.foldlM (fun g role => liftConfig do g.insertGrant (← role.resolve g)) filled' =
      .ok g' ∧ g.Matches ρ g' ∧ ∀ name, g'.grant? name = (g.grant? name).map (Grant.rename ρ) := by
  obtain ⟨grants, hgrants, hnodup, -, rfl⟩ := enrollAll_eq_ok.1 hg
  have hrenamed : roles.mapM (Role.resolve · filled') = .ok (grants.map (Grant.rename ρ)) :=
    mapM_ok_imp (fun _ _ => resolve_rename h hd) hgrants
  obtain ⟨grants', hgrants', hperm⟩ := mapM_perm hroles hrenamed
  have hnames : ((grants.map (Grant.rename ρ)).map Grant.name).Perm (grants'.map Grant.name) :=
    hperm.map Grant.name
  rw [List.map_map] at hnames
  have hnodup' : (grants'.map Grant.name).Nodup := hnames.nodup_iff.1 hnodup
  exact ⟨grantAll filled' grants', enrollAll_eq_ok.2 ⟨grants', hgrants', hnodup', fun _ _ =>
    grant?_eq_none hnone' _, rfl⟩, h.of_nodes_eq (nodes_grantAll ..) (nodes_grantAll ..),
    grant?_grantAll_rename hnone hnone' hnodup hperm hnodup'⟩

/-- Whether two graphs are the same up to the identifiers of nodes, the slots of calls and the order of
the trees. -/
structure Corresponds (ρ : Renaming) (g g' : Flow.Graph ω η) : Prop extends
    g.Matches ρ g' where
  slots_bijective : Function.Bijective ρ.slots
  trees_perm : (g.trees.map ρ.ids).Perm g'.trees
  grant?_eq : ∀ name, g'.grant? name = (g.grant? name).map (Grant.rename ρ)

/-- Whether two documents are both refused, or are loaded to graphs that are the same up to a
renaming. -/
inductive SameOutcome : Except LoadError (Flow.Graph ω η) → Except LoadError (Flow.Graph ω η) → Prop
  | loaded {ρ : Renaming} {g g' : Flow.Graph ω η} (h : Corresponds ρ g g') : SameOutcome (.ok g) (.ok g')
  | refused {e e' : LoadError} : SameOutcome (.error e) (.error e')

/-- A document that is accepted is accepted with its forms in any order. -/
theorem exists_loaded (h : forms.Perm forms') (hg : loadForms l forms = .ok g) :
    ∃ ρ g', loadForms l forms' = .ok g' ∧ Corresponds ρ g g' := by
  obtain ⟨d, filled, n, hd, htrees, hfilled, hroles, hcycles⟩ := loadForms_eq_ok.1 hg
  obtain ⟨ids, d', hd', halike, hdistinct⟩ := alike_of_perm h hd
  have hb := bare_of_declareForms hd
  have hb' := bare_of_declareForms hd'
  obtain ⟨slots, filled', hfilled', hmatches⟩ :=
    exists_filled halike hb hb' hdistinct (pending_perm hd) hfilled
  obtain ⟨hp, -⟩ := populateAll_filled hb (Populated.refl hb) 0 filled n hfilled
  obtain ⟨hp', -⟩ := populateAll_filled hb' (Populated.refl hb') 0 filled' n hfilled'
  obtain ⟨g', hroles', hg', hgrants⟩ := exists_enrolled hmatches (hdistinct.of_bare hp.size_eq hp.bare_eq)
    (hp.roles_eq.trans hb.roles_eq) (hp'.roles_eq.trans hb'.roles_eq) halike.roles hroles
  have htrees' : d'.draft.graph.trees ≠ [] := by
    obtain ⟨t, ht⟩ := List.exists_mem_of_ne_nil _ htrees
    exact List.ne_nil_of_mem (halike.graph.mem_trees_iff.2 ht)
  refine ⟨⟨ids, slots⟩, g', loadForms_eq_ok.2 ⟨d', filled', n, hd', htrees', hfilled', hroles',
    hg'.checkCycles_ok hcycles⟩, hg', slots.bijective, hg'.trees_perm, hgrants⟩

/-- The order of the top-level forms of a document matters neither for whether it is accepted nor for
the graph it is loaded to. -/
theorem loadForms_perm (h : forms.Perm forms') : SameOutcome (loadForms l forms) (loadForms l forms') := by
  cases hg : loadForms l forms with
  | ok g =>
    obtain ⟨ρ, g', hg', hcorresponds⟩ := exists_loaded h hg
    exact hg' ▸ .loaded hcorresponds
  | error e =>
    cases hg' : loadForms l forms' with
    | ok g' =>
      obtain ⟨_, g, hg₂, -⟩ := exists_loaded h.symm hg'
      cases hg.symm.trans hg₂
    | error e' => exact .refused

/-- Two trees with guards of their own, the first of which jumps to the second, and a role for the
second. -/
def wardText : String :=
  "(tree A :predicate \"#open()\" (branch C :keys (c) (transition :target B)))
(roles (role guest :trees (B) :on-denied B))
(tree B :predicate \"#open()\")"

def wardLibrary : Library Unit Unit :=
  let guard := Member.function builtinOwner "open" [] .bool fun _ _ => pure (.bool true)
  ⟨.register .empty { guard with caching := .perEvent }, ∅, .default⟩

/-- The jump to a tree that is declared later, and the role for it, are what they are when everything
comes the other way round. -/
theorem ward_either_way : ∃ forms ρ ward ward', Form.readAll wardText = .ok forms ∧
    (loadForms wardLibrary forms = .ok ward ∧ ward.trees.map ward.path = ["A", "B"]) ∧
    (loadForms wardLibrary forms.reverse = .ok ward' ∧ ward'.trees.map ward'.path = ["B", "A"]) ∧
    Corresponds ρ ward ward' := by
  have hread : (Form.readAll wardText).toOption.any (fun forms =>
      (loadForms wardLibrary forms).toOption.any (fun ward =>
        decide (ward.trees.map ward.path = ["A", "B"])) &&
      (loadForms wardLibrary forms.reverse).toOption.any (fun ward =>
        decide (ward.trees.map ward.path = ["B", "A"]))) = true := by
    decide +kernel
  obtain ⟨forms, hforms, hloads⟩ := ok_of_any hread
  obtain ⟨hload, hload'⟩ := Bool.and_eq_true_iff.1 hloads
  obtain ⟨ward, hward, htrees⟩ := ok_of_any hload
  obtain ⟨ward', hward', htrees'⟩ := ok_of_any hload'
  have hsame := loadForms_perm (l := wardLibrary) (List.reverse_perm forms).symm
  rw [hward, hward'] at hsame
  cases hsame with
  | loaded hcorresponds =>
    exact ⟨forms, _, ward, ward', hforms, ⟨hward, of_decide_eq_true htrees⟩,
      ⟨hward', of_decide_eq_true htrees'⟩, hcorresponds⟩

end ChatFlow.Document
