import Foton.Brigadier.Merge
import Foton.Brigadier.Dispatcher

/-!
# Registering a normalized tree

A tree whose name is new to the dispatcher becomes another child of its root, as
it is. Its redirects lead to the dispatcher's root or to its own root.
-/

namespace Foton.Brigadier

namespace CommandTree

variable {S : Type} {R : CommandRuntime S}

/-! ## Resolved trees -/

theorem resolveCommandRootChildren_eq (root : NodeId) (children : List (UnregisteredCommandNode R)) :
    resolveCommandRootChildren root children = children.map (resolveCommandRoot root) := by
  induction children with
  | nil => simp [resolveCommandRootChildren]
  | cons child children ih => simp [resolveCommandRootChildren, ih]

theorem resolveCommandRoot_eq (root : NodeId) (tree : UnregisteredCommandNode R) : tree.resolveCommandRoot root =
    ⟨tree.data, tree.children.map (resolveCommandRoot root), tree.executor, tree.requirement, tree.executionRequirement,
      tree.redirect.map fun redirect => ⟨resolveTarget root redirect.target, redirect.modifier, redirect.forks⟩⟩ := by
  cases tree
  simp only [resolveCommandRoot, resolveCommandRootChildren_eq]

@[simp] theorem resolveCommandRoot_data (root : NodeId) (tree : UnregisteredCommandNode R) :
    (tree.resolveCommandRoot root).data = tree.data := by
  rw [resolveCommandRoot_eq]

@[simp] theorem resolveCommandRoot_name (root : NodeId) (tree : UnregisteredCommandNode R) :
    (tree.resolveCommandRoot root).name = tree.name := by
  simp [name]

theorem distinct_resolveCommandRoot (root : NodeId) (tree : UnregisteredCommandNode R) : Distinct tree →
    Distinct (tree.resolveCommandRoot root) := by
  induction tree using induct with
  | node tree ih =>
    rintro ⟨hnames, hchildren⟩
    rw [resolveCommandRoot_eq]
    refine .node ?_ ?_
    · have h : (name ∘ resolveCommandRoot root : UnregisteredCommandNode R → Text) = name := by
        funext child
        simp
      simpa [h] using hnames
    · simp only [List.forall_mem_map]
      exact fun child hchild => ih child hchild (hchildren child hchild)

theorem covers_resolveCommandRoot (root : NodeId) (tree : UnregisteredCommandNode R) :
    Covers tree (tree.resolveCommandRoot root) := by
  induction tree using induct with
  | node tree ih =>
    rw [resolveCommandRoot_eq]
    refine .node rfl fun child hchild => ?_
    exact ⟨child.resolveCommandRoot root, List.mem_map_of_mem hchild, by simp, ih child hchild⟩

theorem secure_resolveCommandRoot [CommandPermissionSource S] {granted : List Text → S → Prop} (root : NodeId)
    (tree : UnregisteredCommandNode R) : ∀ (route : List Text) (reached : S → Prop), Secure granted route reached tree →
      Secure granted route reached (tree.resolveCommandRoot root) := by
  induction tree using induct with
  | node tree ih =>
    rintro route reached ⟨hown, hchildren⟩
    rw [resolveCommandRoot_eq]
    refine .node hown ?_
    simp only [List.forall_mem_map, resolveCommandRoot_data]
    exact fun child hchild => ih child hchild _ _ (hchildren child hchild)

/-- Every redirect in the tree leads to one of `targets`. -/
inductive RedirectsTo (targets : NodeId → Prop) : CommandNode R → Prop
  | node {tree : CommandNode R} (redirect : ∀ redirect, tree.redirect = some redirect → targets redirect.target)
    (children : ∀ child ∈ tree.children, RedirectsTo targets child) : RedirectsTo targets tree

theorem redirectsTo_resolveCommandRoot (root : NodeId) (tree : UnregisteredCommandNode R) :
    RedirectsTo (fun target => target = [] ∨ target = root) (tree.resolveCommandRoot root) := by
  induction tree using induct with
  | node tree ih =>
    rw [resolveCommandRoot_eq]
    refine .node ?_ (by simpa only [List.forall_mem_map] using ih)
    intro redirect h
    obtain ⟨⟨target, _, _⟩, -, rfl⟩ := Option.map_eq_some_iff.mp h
    cases target
    · exact .inl rfl
    · exact .inl rfl
    · exact .inr rfl

/-! ## Trees with a new name -/

theorem updateOrPush_of_new {name : Text} {update : CommandNode R → CommandNode R} {fresh : CommandNode R}
    {nodes : List (CommandNode R)} (h : name ∉ nodes.map CommandTree.name) :
    updateOrPush name update fresh nodes = nodes ++ [fresh] := by
  induction nodes with
  | nil => rfl
  | cons node nodes ih =>
    simp only [List.map_cons, List.mem_cons, not_or] at h
    simp [updateOrPush, Ne.symm h.1, ih h.2]

theorem applyMerge_of_new (incoming : CommandNode R) : ∀ siblings : List (CommandNode R), Distinct incoming →
    incoming.name ∉ siblings.map name → incoming.applyMerge siblings = siblings ++ [incoming] := by
  induction incoming using induct with
  | node incoming ih =>
    rintro siblings ⟨hnames, hchildren⟩ hnew
    have hall : ∀ (children nodes : List (CommandNode R)), (∀ child ∈ children, child ∈ incoming.children) →
        ((nodes ++ children).map name).Nodup → applyMergeChildren children nodes = nodes ++ children := by
      intro children
      induction children with
      | nil => simp [applyMergeChildren]
      | cons child children ihc =>
        intro nodes hmem hnodup
        obtain ⟨hchild, hrest⟩ := List.forall_mem_cons.mp hmem
        have hnew : child.name ∉ nodes.map name := by
          intro h
          simp only [List.map_append, List.map_cons, List.nodup_append] at hnodup
          exact hnodup.2.2 _ h _ List.mem_cons_self rfl
        simp only [applyMergeChildren]
        rw [ih child hchild nodes (hchildren child hchild) hnew, ihc _ hrest (by simpa using hnodup)]
        simp
    have hfresh := hall incoming.children [] (fun _ h => h) (by simpa using hnames)
    obtain ⟨data, children, executor, requirement, executionRequirement, redirect⟩ := incoming
    have hnew : data.name ∉ siblings.map name := hnew
    simp only [List.nil_append] at hfresh
    simp only [applyMerge, updateOrPush_of_new hnew, hfresh]

end CommandTree

variable {S : Type} {R : CommandRuntime S}

theorem CommandDispatcher.register_of_new {dispatcher result : CommandDispatcher R} {builder : CommandNodeBuilder R}
    (hnew : builder.name ∉ dispatcher.roots.map CommandTree.name) (h : dispatcher.register builder = .ok result) :
    ∃ node, builder.normalize = .ok node ∧
      result.roots = dispatcher.roots ++ [node.resolveCommandRoot [builder.name]] := by
  obtain ⟨node, hnode, h⟩ := bind_eq_ok.mp h
  have hname : node.name = builder.name := by
    rw [(CommandTree.normalize_eq_ok hnode).2]
    rfl
  split at h
  · simp at h
  · simp only [bind_eq_ok] at h
    obtain ⟨-, -, -, -, h⟩ := h
    cases h
    refine ⟨node, hnode, ?_⟩
    dsimp only
    rw [hname]
    apply CommandTree.applyMerge_of_new
    · exact CommandTree.distinct_resolveCommandRoot _ _ (CommandTree.distinct_normalize builder node hnode)
    · simpa [hname] using hnew

end Foton.Brigadier
