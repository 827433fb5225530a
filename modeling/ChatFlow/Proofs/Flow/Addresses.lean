import ChatFlow.Proofs.Flow.Insertions

/-! Finding nodes under their paths. Names are joined with slashes into a path and a path is cut at its
slashes, so a node is found under its path as long as no name on the way to it holds a slash. -/
namespace ChatFlow

namespace Text
variable {c : Char} {l m part : List Char}

theorem split_ne_nil (c : Char) (l : List Char) : split c l ≠ [] := by
  cases l with
  | nil => exact List.cons_ne_nil _ _
  | cons d ds =>
    intro h
    rw [split] at h
    split at h
    · cases h
    · split at h <;> cases h

theorem split_of_notMem (h : c ∉ l) : split c l = [l] := by
  induction l with
  | nil => rfl
  | cons d ds ih =>
    obtain ⟨hd, hds⟩ := not_or.1 (mt List.mem_cons.2 h)
    rw [split, if_neg (Ne.symm hd), ih hds]

theorem split_append (c : Char) (l m : List Char) :
    split c (l ++ c :: m) = split c l ++ split c m := by
  induction l with
  | nil => simp [split]
  | cons d ds ih =>
    by_cases hd : d = c
    · simp only [List.cons_append, split, if_pos hd, ih]
    · obtain ⟨part, parts, hparts⟩ := List.exists_cons_of_ne_nil (split_ne_nil c ds)
      simp only [List.cons_append, split, if_neg hd, ih, hparts]

theorem notMem_of_mem_split (h : part ∈ split c l) : c ∉ part := by
  induction l generalizing part with
  | nil =>
    cases List.mem_singleton.1 h
    exact List.not_mem_nil
  | cons d ds ih =>
    obtain ⟨first, parts, hparts⟩ := List.exists_cons_of_ne_nil (split_ne_nil c ds)
    rw [hparts] at ih
    by_cases hd : d = c
    · rw [split, if_pos hd, hparts] at h
      rcases List.mem_cons.1 h with rfl | h
      · exact List.not_mem_nil
      · exact ih h
    · simp only [split, if_neg hd, hparts] at h
      rcases List.mem_cons.1 h with rfl | h
      · exact mt List.mem_cons.1 (not_or.2 ⟨Ne.symm hd, ih List.mem_cons_self⟩)
      · exact ih (List.mem_cons_of_mem _ h)

/-- A text is its own only part if the separator is not in it. -/
theorem split_eq_singleton_iff : split c l = [part] ↔ part = l ∧ c ∉ l := by
  constructor
  · intro h
    have hmem : c ∉ l := by
      intro hmem
      obtain ⟨a, b, rfl⟩ := List.append_of_mem hmem
      rw [split_append] at h
      have hlength := congrArg List.length h
      have ha := List.length_pos_of_ne_nil (split_ne_nil c a)
      have hb := List.length_pos_of_ne_nil (split_ne_nil c b)
      rw [List.length_append, List.length_singleton] at hlength
      omega
    rw [split_of_notMem hmem] at h
    exact ⟨(List.cons.inj h).1.symm, hmem⟩
  · rintro ⟨rfl, h⟩
    exact split_of_notMem h

end Text

/-- The only element that passes a test is the one that is found. -/
theorem find?_of_unique {α : Type} {f : α → Bool} {l : List α} {a : α} (ha : a ∈ l) (hf : f a = true)
    (hu : ∀ b ∈ l, f b = true → b = a) : l.find? f = some a := by
  obtain ⟨b, hb⟩ := Option.isSome_iff_exists.1 (List.find?_isSome.2 ⟨a, ha, hf⟩)
  rw [hb, hu b (List.mem_of_find?_eq_some hb) (List.find?_some hb)]

namespace Flow
variable {ω η : Type}

namespace Graph
variable {g : Graph ω η} {id a b c p t : NodeId} {name path : String} {names : List String}

theorem segments_of_notMem (h : '/' ∉ name.toList) : segments name = [name] := by
  rw [segments, Text.split_of_notMem h, List.map_singleton, String.ofList_toList]

theorem segments_append (path name : String) :
    segments (path ++ "/" ++ name) = segments path ++ segments name := by
  simp only [segments, String.toList_append, ← List.map_append, ← Text.split_append]
  simp

theorem notMem_of_mem_segments (h : name ∈ segments path) : '/' ∉ name.toList := by
  obtain ⟨part, hpart, rfl⟩ := List.mem_map.1 h
  rw [String.toList_ofList]
  exact Text.notMem_of_mem_split hpart

theorem eq_of_segments (h : segments path = [name]) : name = path := by
  obtain ⟨part, hpart, rfl⟩ := List.map_eq_singleton_iff.1 h
  rw [(Text.split_eq_singleton_iff.1 hpart).1, String.ofList_toList]

/-- Goes down by names from the top. -/
def descend? (g : Graph ω η) : List String → Option NodeId
  | [] => none
  | first :: rest => g.treeNamed? first >>= fun t => rest.foldlM g.branchBelow? t

/-- Without a scope, names are followed from the top. -/
theorem lookup?_none (g : Graph ω η) (path : String) :
    g.lookup? none path = g.descend? (segments path) := by
  rw [lookup?]
  split
  · rename_i heq
    rw [heq]
    rfl
  · rename_i hshort
    have hne : segments path ≠ [] := by
      rw [segments, Ne, List.map_eq_nil_iff]
      exact Text.split_ne_nil _ _
    match hsegments : segments path with
    | [] => exact absurd hsegments hne
    | [name] =>
      rw [eq_of_segments hsegments, descend?]
      cases g.treeNamed? path <;> rfl
    | first :: second :: rest => exact absurd hsegments (hshort first second rest)

theorem treeNamed?_eq_some (h : g.treeNamed? name = some t) :
    t ∈ g.trees ∧ (g.node t).name = name :=
  ⟨List.mem_of_find?_eq_some h, by simpa using List.find?_some h⟩

theorem branchBelow?_eq_some (h : g.branchBelow? p name = some id) :
    id ∈ (g.node p).branches ∧ (g.node id).name = name :=
  ⟨List.mem_of_find?_eq_some h, by simpa using List.find?_some h⟩

/-- Following names leads to a node whose names they are. -/
theorem WellFormed.names_of_foldlM (hw : g.WellFormed)
    (h : names.foldlM g.branchBelow? t = some id) : g.names id = g.names t ++ names := by
  induction names generalizing t with
  | nil =>
    cases h
    rw [List.append_nil]
  | cons name rest ih =>
    rw [List.foldlM_cons] at h
    obtain ⟨child, hchild, hrest⟩ := Option.bind_eq_some_iff.1 h
    obtain ⟨hmem, hname⟩ := branchBelow?_eq_some hchild
    rw [ih hrest, hw.names_below (hw.parent_branch hmem), hname, List.append_assoc]
    rfl

theorem WellFormed.names_of_descend? (hw : g.WellFormed) (h : g.descend? names = some id) :
    g.names id = names := by
  cases names with
  | nil => cases h
  | cons first rest =>
    obtain ⟨t, ht, hrest⟩ := Option.bind_eq_some_iff.1 h
    obtain ⟨hmem, hname⟩ := treeNamed?_eq_some ht
    rw [hw.names_of_foldlM hrest, names_root (mem_trees.1 hmem).2, hname]
    rfl

theorem treeNamed?_self (hd : g.Distinct) (h : id ∈ g.trees) :
    g.treeNamed? (g.node id).name = some id := by
  refine find?_of_unique h (beq_self_eq_true _) fun b hb hname => ?_
  exact hd.trees hb h (eq_of_beq hname)

theorem branchNamed?_self (hd : g.Distinct) (h : (g.parent id).isSome) :
    g.branchNamed? (g.tree id) (g.node id).name = some id := by
  obtain ⟨p, hp⟩ := Option.isSome_iff_exists.1 h
  refine find?_of_unique (List.mem_range.2 (lt_size_of_parent hp)) (by simp [h]) fun b _ hb => ?_
  simp only [Bool.and_eq_true, beq_iff_eq] at hb
  exact hd.branches hb.1.1 h hb.1.2 hb.2

theorem Arranged.branchBelow?_self (hg : g.Arranged) (h : g.parent id = some p) :
    g.branchBelow? p (g.node id).name = some id := by
  obtain ⟨hw, hd, hl⟩ := hg
  refine find?_of_unique (hl.mem_branches h) (beq_self_eq_true _) fun b hb hname => ?_
  have hp := hw.parent_branch hb
  have htree : g.tree b = g.tree id := by rw [hw.tree_parent hp, hw.tree_parent h]
  exact hd.branches (by rw [hp]; rfl) (by rw [h]; rfl) htree (eq_of_beq hname)

theorem descend?_concat (g : Graph ω η) (hnames : names ≠ []) (name : String) :
    g.descend? (names ++ [name]) = g.descend? names >>= fun p => g.branchBelow? p name := by
  obtain ⟨first, rest, rfl⟩ := List.exists_cons_of_ne_nil hnames
  simp only [List.cons_append, descend?, List.foldlM_append, List.foldlM_cons, List.foldlM_nil, bind_pure,
    bind_assoc]

/-- Following the names of a node leads to it. -/
theorem Arranged.descend?_names (hg : g.Arranged) (h : id < g.size) :
    g.descend? (g.names id) = some id := by
  refine hg.wellFormed.descend (P := fun id => g.descend? (g.names id) = some id)
    (fun id hlt hp => ?_) (fun id p hp ih => ?_) h
  · rw [names_root hp, descend?, treeNamed?_self hg.distinct (mem_trees.2 ⟨hlt, hp⟩)]
    rfl
  · rw [hg.wellFormed.names_below hp, descend?_concat g (names_ne_nil g p), ih]
    exact hg.branchBelow?_self hp

/-- A path is cut where it has been joined, unless a name on the way holds a slash itself. -/
theorem Arranged.segments_path (hg : g.Arranged) (h : id < g.size) :
    (∀ name ∈ g.names id, '/' ∉ name.toList) → segments (g.path id) = g.names id := by
  obtain ⟨hw, -, hl⟩ := hg
  refine hw.descend (P := fun id => (∀ name ∈ g.names id, '/' ∉ name.toList) →
    segments (g.path id) = g.names id) (fun id hlt hp hnames => ?_) (fun id p hp ih hnames => ?_) h
  · rw [names_root hp] at hnames ⊢
    rw [(hl.root hlt hp).2]
    exact segments_of_notMem (hnames _ List.mem_cons_self)
  · rw [hw.names_below hp] at hnames ⊢
    have habove := ih fun name hmem => hnames name (List.mem_append_left _ hmem)
    have hlast := segments_of_notMem (hnames _ (List.mem_append_right _ List.mem_cons_self))
    rw [(hl.below hp).2.1, segments_append, habove, hlast]

/-- A node is found under its path exactly if no name on the way to it holds a slash. -/
theorem Arranged.lookup?_path_iff (hg : g.Arranged) (h : id < g.size) :
    g.lookup? none (g.path id) = some id ↔ ∀ name ∈ g.names id, '/' ∉ name.toList := by
  rw [lookup?_none]
  constructor
  · intro hfound name hname
    rw [hg.wellFormed.names_of_descend? hfound] at hname
    exact notMem_of_mem_segments hname
  · intro hnames
    rw [hg.segments_path h hnames]
    exact hg.descend?_names h

/-- Two nodes have one path only if a name on the way to one of them holds a slash. -/
theorem Arranged.slash_of_path_eq (hg : g.Arranged) (ha : a < g.size) (hb : b < g.size) (hne : a ≠ b)
    (h : g.path a = g.path b) : ∃ name ∈ g.names a ++ g.names b, '/' ∈ name.toList := by
  by_contra hnone
  push Not at hnone
  have hfound := (hg.lookup?_path_iff ha).2 fun name hmem => hnone name (List.mem_append_left _ hmem)
  have hfound' := (hg.lookup?_path_iff hb).2 fun name hmem => hnone name (List.mem_append_right _ hmem)
  rw [h, hfound'] at hfound
  exact hne (Option.some.inj hfound).symm

/-- A name without a slash is looked for in the tree of the scope before it is looked for among the
trees. -/
theorem lookup?_some (s : NodeId) (h : '/' ∉ name.toList) :
    g.lookup? (some s) name = (g.branchNamed? (g.tree s) name <|> g.treeNamed? name) := by
  rw [lookup?, segments_of_notMem h]
  rfl

theorem branchNamed?_eq_none
    (h : ∀ b, (g.parent b).isSome → g.tree b = t → (g.node b).name ≠ name) :
    g.branchNamed? t name = none := by
  rw [branchNamed?, List.find?_eq_none]
  intro b _ hb
  simp only [Bool.and_eq_true, beq_iff_eq] at hb
  exact h b hb.1.1 hb.1.2 hb.2

end Graph
end Flow
end ChatFlow
