import Foton.Brigadier.Arena.Graft

/-!
# What the checks of a registration say

The checks walk the tree before anything is pushed. They speak of the same paths
as the merge that follows.
-/

namespace Foton.Brigadier.Arena

variable {S : Type} {R : CommandRuntime S} {tree : UnregisteredCommandNode R} {children : List (UnregisteredCommandNode R)}
  {path : List Text} {node : CommandNode R}

theorem entriesChildren_eq_some (h : entriesChildren children path = some node) :
    ∃ child ∈ children, ∃ rest, path = child.name :: rest ∧ entries child rest = some node := by
  induction children with
  | nil =>
    rw [entriesChildren_nil] at h
    cases h
  | cons child children ih =>
    rw [entriesChildren_cons] at h
    rcases (Option.orElse_eq_some _ _ _).mp h with hchild | ⟨-, hrest⟩
    · obtain ⟨rest, rfl, heq⟩ := under_isSome (Option.isSome_of_eq_some hchild)
      exact ⟨child, List.mem_cons_self, rest, rfl, heq.symm.trans hchild⟩
    · obtain ⟨found, hmem, rest, hpath, hentries⟩ := ih hrest
      exact ⟨found, List.mem_cons_of_mem _ hmem, rest, hpath, hentries⟩

theorem entriesChildren_of_mem (hnames : (children.map CommandTree.name).Nodup) {child : UnregisteredCommandNode R}
    (hmem : child ∈ children) (rest : List Text) : entriesChildren children (child.name :: rest) = entries child rest := by
  induction children with
  | nil => cases hmem
  | cons first children ih =>
    rw [List.map_cons, List.nodup_cons] at hnames
    rw [entriesChildren_cons, under_singleton]
    rcases List.mem_cons.mp hmem with rfl | hmem
    · rw [if_pos rfl, entriesChildren_of_notMem hnames.1]
      simp
    · have hne : first.name ≠ child.name := by
        intro heq
        exact hnames.1 (heq ▸ List.mem_map_of_mem hmem)
      rw [if_neg hne, ih hnames.2 hmem]
      simp

theorem entries_cons_eq_some {name : Text} (h : entries tree (name :: path) = some node) :
    ∃ child ∈ tree.children, child.name = name ∧ entries child path = some node := by
  rw [entries_eq, if_neg (List.cons_ne_nil name path)] at h
  obtain ⟨child, hmem, rest, hpath, hentries⟩ := entriesChildren_eq_some h
  cases hpath
  exact ⟨child, hmem, rfl, hentries⟩

theorem entries_cons_of_mem (hnames : (tree.children.map CommandTree.name).Nodup) {child : UnregisteredCommandNode R}
    (hmem : child ∈ tree.children) (rest : List Text) : entries tree (child.name :: rest) = entries child rest := by
  rw [entries_eq, if_neg (List.cons_ne_nil _ _), entriesChildren_of_mem hnames hmem]

theorem entries_concat_eq_none (hdistinct : tree.Distinct) (h : entries tree path = none) (name : Text) : entries tree (path ++ [name]) = none := by
  induction hdistinct generalizing path with
  | node hnames _ ih =>
    cases path with
    | nil =>
      rw [entries_nil] at h
      cases h
    | cons first path =>
      rw [Option.eq_none_iff_forall_ne_some]
      intro node hnode
      obtain ⟨child, hmem, rfl, hchild⟩ := entries_cons_eq_some hnode
      rw [entries_cons_of_mem hnames hmem] at h
      exact Option.some_ne_none node (hchild.symm.trans (ih child hmem h))

/-! ## Redirects of a tree -/

/-- No node of the tree has both a redirect and children. -/
inductive Straight : UnregisteredCommandNode R → Prop
  | node {tree : UnregisteredCommandNode R} (leaf : tree.redirect.isSome → tree.children = [])
    (children : ∀ child ∈ tree.children, Straight child) : Straight tree

theorem straight_mergeInto (incoming : UnregisteredCommandNode R) : ∀ existing merged : UnregisteredCommandNode R,
    Straight incoming → Straight existing → incoming.mergeInto existing = .ok merged → Straight merged := by
  induction incoming using CommandTree.induct with
  | node incoming ih =>
    intro existing merged hincoming hexisting h
    have hmerged := CommandTree.mergeInto_eq_ok h
    cases hincoming with
    | node hleafIncoming hincoming =>
      cases hexisting with
      | node hleaf hexisting =>
        refine .node ?_ ?_
        · intro hredirect
          have hsame : merged.redirect = existing.redirect := by rw [hmerged.result]
          have hchildren := hmerged.children
          rw [hsame] at hredirect
          rw [hleaf hredirect, hleafIncoming (CommandTree.redirect_mergeInto h ▸ hredirect), CommandTree.mergeChildren] at hchildren
          exact (Except.ok.inj hchildren).symm
        · exact CommandTree.forall_mergeChildren hincoming hexisting
            (fun child hmem node merged hchild hnode => ih child hmem node merged hchild hnode) hmerged.children

theorem straight_normalize (tree : UnregisteredCommandNode R) : ∀ result, tree.normalize = .ok result → Straight result := by
  induction tree using CommandTree.induct with
  | node tree ih =>
    intro result h
    obtain ⟨hchildren, hresult⟩ := CommandTree.normalize_eq_ok h
    refine .node ?_ (CommandTree.forall_normalizeChildren ih (by simp) straight_mergeInto hchildren)
    intro hredirect
    exact CommandTree.leaf_normalize h hredirect

theorem Straight.entries_leaf (h : Straight tree) (hdistinct : tree.Distinct) {path : List Text} {node : CommandNode R}
    (hentries : entries tree path = some node) (hredirect : node.redirect.isSome) (name : Text) :
    entries tree (path ++ [name]) = none := by
  induction h generalizing path with
  | node leaf _ ih =>
    cases path with
    | nil =>
      rw [entries_nil] at hentries
      cases hentries
      rw [entries_eq, if_neg (List.append_ne_nil_of_right_ne_nil _ (List.cons_ne_nil _ _)), leaf hredirect, entriesChildren_nil]
    | cons first path =>
      cases hdistinct with
      | node hnames hchildren =>
        obtain ⟨child, hmem, rfl, hchild⟩ := entries_cons_eq_some hentries
        rw [List.cons_append, entries_cons_of_mem hnames hmem]
        exact ih child hmem (hchildren child hmem) hchild

/-! ## The root of the command -/

def CommandNode.resolve (commandRoot : NodeId) (node : CommandNode R) : CommandNode R :=
  { node with redirect := node.redirect.map fun redirect => { redirect with target := redirect.target.resolveCommandRoot commandRoot } }

section
variable (commandRoot : NodeId)

theorem resolveCommandRootChildren_eq (children : List (UnregisteredCommandNode R)) :
    resolveCommandRootChildren commandRoot children = children.map (resolveCommandRoot commandRoot) := by
  induction children with
  | nil => rw [resolveCommandRootChildren, List.map_nil]
  | cons child children ih => rw [resolveCommandRootChildren, List.map_cons, ih]

theorem resolveCommandRoot_eq (tree : UnregisteredCommandNode R) :
    resolveCommandRoot commandRoot tree = { tree with
      children := tree.children.map (resolveCommandRoot commandRoot)
      redirect := tree.redirect.map fun redirect => { redirect with target := redirect.target.resolveCommandRoot commandRoot } } := by
  obtain ⟨data, children, executor, requirement, executionRequirement, redirect⟩ := tree
  rw [resolveCommandRoot, resolveCommandRootChildren_eq]

@[simp]
theorem name_resolveCommandRoot (tree : UnregisteredCommandNode R) : (resolveCommandRoot commandRoot tree).name = tree.name := by
  rw [resolveCommandRoot_eq]
  rfl

theorem bareNode_resolveCommandRoot (tree : UnregisteredCommandNode R) :
    bareNode (resolveCommandRoot commandRoot tree) = (bareNode tree).resolve commandRoot := by
  rw [resolveCommandRoot_eq]
  rfl

theorem map_name_resolveCommandRoot (children : List (UnregisteredCommandNode R)) :
    (children.map (resolveCommandRoot commandRoot)).map CommandTree.name = children.map CommandTree.name := by
  rw [List.map_map]
  exact List.map_congr_left fun child _ => name_resolveCommandRoot commandRoot child

theorem distinct_resolveCommandRoot (h : tree.Distinct) : (resolveCommandRoot commandRoot tree).Distinct := by
  induction h with
  | node names _ ih =>
    rw [resolveCommandRoot_eq]
    refine .node ?_ ?_
    · dsimp only
      rw [map_name_resolveCommandRoot]
      exact names
    · intro child hmem
      obtain ⟨old, hold, rfl⟩ := List.mem_map.mp hmem
      exact ih old hold

theorem entries_resolveCommandRoot (tree : UnregisteredCommandNode R) (path : List Text) :
    entries (resolveCommandRoot commandRoot tree) path = (entries tree path).map (CommandNode.resolve commandRoot) := by
  induction tree using CommandTree.induct generalizing path with
  | node tree ih =>
    rw [entries_eq, entries_eq, bareNode_resolveCommandRoot]
    split
    · rfl
    · rw [resolveCommandRoot_eq]
      dsimp only
      generalize tree.children = children at ih
      induction children with
      | nil => rfl
      | cons child children ihc =>
        rw [List.forall_mem_cons] at ih
        rw [List.map_cons, entriesChildren_cons, entriesChildren_cons, ihc ih.2, name_resolveCommandRoot]
        have hchild : under [child.name] (entries (resolveCommandRoot commandRoot child)) path =
            (under [child.name] (entries child) path).map (CommandNode.resolve commandRoot) := by
          rw [under_congr _ ih.1]
          unfold under
          split <;> rfl
        rw [hchild]
        cases under [child.name] (entries child) path with
        | none => simp
        | some node => simp

end

/-! ## The redirect check -/

namespace CommandDispatcher

variable {d : CommandDispatcher R} {parent : NodeId}

theorem validateRedirectsChildren_eq_ok (h : d.validateRedirectsChildren children = .ok ()) :
    ∀ child ∈ children, d.validateRedirects child = .ok () := by
  induction children with
  | nil => exact fun child hmem => nomatch hmem
  | cons child children ih =>
    rw [validateRedirectsChildren] at h
    split at h
    · cases h
    · rename_i hchild
      exact List.forall_mem_cons.mpr ⟨hchild, ih h⟩

theorem validateRedirects_eq_ok (h : d.validateRedirects tree = .ok ()) :
    (∀ redirect id, tree.redirect = some redirect → redirect.target = .node id → (d.node id).isSome) ∧
      ∀ child ∈ tree.children, d.validateRedirects child = .ok () := by
  obtain ⟨data, children, executor, requirement, executionRequirement, redirect⟩ := tree
  unfold validateRedirects at h
  split at h
  · rename_i target modifier forks
    split at h
    · cases h
    · rename_i hsome
      refine ⟨?_, validateRedirectsChildren_eq_ok h⟩
      intro redirect id hredirect htarget
      cases hredirect
      cases htarget
      simpa [Option.isSome_iff_ne_none] using hsome
  · rename_i hother
    refine ⟨?_, validateRedirectsChildren_eq_ok h⟩
    rintro ⟨target, modifier, forks⟩ id hredirect htarget
    cases htarget
    exact absurd hredirect (hother id modifier forks)

theorem validateRedirects_entries (h : d.validateRedirects tree = .ok ()) (hentries : entries tree path = some node)
    {redirect : CommandRedirect R.Modifier RedirectTarget} {id : NodeId} (hredirect : node.redirect = some redirect)
    (htarget : redirect.target = .node id) : (d.node id).isSome := by
  induction tree using CommandTree.induct generalizing path with
  | node tree ih =>
    obtain ⟨hown, hchildren⟩ := validateRedirects_eq_ok h
    cases path with
    | nil =>
      rw [entries_nil] at hentries
      cases hentries
      exact hown redirect id hredirect htarget
    | cons name path =>
      obtain ⟨child, hmem, -, hchild⟩ := entries_cons_eq_some hentries
      exact ih child hmem (hchildren child hmem) hchild

/-! ## The merge check -/

/-- The nodes agree on everything but children and executors. -/
structure Agree (old new : CommandNode R) : Prop where
  data : old.data = new.data
  requirement : old.requirement = new.requirement
  executionRequirement : old.executionRequirement = new.executionRequirement
  redirect : old.redirect = new.redirect

theorem validateCompatible_agree (h : node.validateCompatible tree = .ok ()) : Agree node.bare (bareNode tree) := by
  unfold CommandNode.validateCompatible at h
  split at h
  · simp at h
  · rename_i hcollision
    have hdata : node.data = some tree.data := by
      unfold CommandNode.collisionWith at hcollision
      split at hcollision
      · cases hcollision
      · rename_i data hdata
        rw [hdata, CommandNodeData.eq_of_collisionWith hcollision]
    have heq : ∀ {a b : CommandRequirement}, a.isCompatibleWith b = true → a = b := by
      intro a b hab
      cases a
      cases b
      simp_all [CommandRequirement.isCompatibleWith]
    split at h
    · simp at h
    · rename_i hrequirement
      split at h
      · simp at h
      · rename_i hexecution
        split at h
        · simp at h
        · rename_i hredirect
          exact ⟨hdata, heq (not_not.mp hrequirement), heq (not_not.mp hexecution), not_not.mp hredirect⟩

theorem validateMergeChildren_eq_ok (h : d.validateMergeChildren parent children = .ok ()) :
    ∀ child ∈ children, d.validateMerge parent child = .ok () := by
  induction children with
  | nil => exact fun child hmem => nomatch hmem
  | cons child children ih =>
    rw [validateMergeChildren] at h
    split at h
    · cases h
    · rename_i hchild
      exact List.forall_mem_cons.mpr ⟨hchild, ih h⟩

theorem validateMerge_eq_ok (h : d.validateMerge parent tree = .ok ()) {existing : NodeId} {node : CommandNode R}
    (hexisting : d.findChild parent tree.name = some existing) (hnode : d.node existing = some node) :
    Agree node.bare (bareNode tree) ∧ ∀ child ∈ tree.children, d.validateMerge existing child = .ok () := by
  obtain ⟨data, children, executor, requirement, executionRequirement, redirect⟩ := tree
  have hexisting : d.findChild parent data.name = some existing := hexisting
  rw [validateMerge, hexisting] at h
  dsimp only at h
  rw [(node_eq_some.mp hnode).2] at h
  dsimp only at h
  split at h
  · cases h
  · rename_i hvalid
    exact ⟨validateCompatible_agree hvalid, validateMergeChildren_eq_ok h⟩

theorem find_append_eq_none {path : List Text} (h : d.find path = none) (rest : List Text) : d.find (path ++ rest) = none := by
  induction rest using List.reverseRecOn with
  | nil => rwa [List.append_nil]
  | append_singleton rest name ih =>
    rw [← List.append_assoc, find_concat, ih]
    rfl

theorem Shaped.validateMerge_agree (h : d.Shaped) (hvalid : d.validateMerge parent tree = .ok ()) {up : List Text}
    (hparent : d.find up = some parent) {old new : CommandNode R} (hold : d.look (up ++ tree.name :: path) = some old)
    (hnew : entries tree path = some new) : Agree old new := by
  induction tree using CommandTree.induct generalizing path parent up with
  | node tree ih =>
    cases hexisting : d.findChild parent tree.name with
    | none =>
      have hnone := find_append_eq_none ((findChild_of_find hparent tree.name).trans hexisting) path
      rw [List.append_assoc, List.singleton_append] at hnone
      rw [look_eq_none_of_find hnone] at hold
      cases hold
    | some existing =>
      have hfind := (findChild_of_find hparent tree.name).trans hexisting
      obtain ⟨node, hnode⟩ := h.node_of_find hfind
      obtain ⟨hagree, hchildren⟩ := validateMerge_eq_ok hvalid hexisting hnode
      cases path with
      | nil =>
        rw [look_eq_some_of_find hfind hnode] at hold
        rw [entries_nil] at hnew
        cases hold
        cases hnew
        exact hagree
      | cons name path =>
        obtain ⟨child, hmem, rfl, hchild⟩ := entries_cons_eq_some hnew
        refine ih child hmem (hchildren child hmem) hfind ?_ hchild
        rwa [List.append_assoc]

end CommandDispatcher

end Foton.Brigadier.Arena
