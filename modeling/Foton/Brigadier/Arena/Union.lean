import Foton.Brigadier.Arena.Check
import Foton.Lib.Run
import Mathlib.Data.List.Nodup

/-!
# Registration as a union of trees

Every dispatcher made by registering is a tree with distinct siblings whose
redirects lead somewhere. A further registration joins its tree to this one or
changes nothing.
-/

namespace Foton.Brigadier.Arena

variable {S : Type} {R : CommandRuntime S}

/-! ## Paths -/

/-- A path of names leads from the root of a command to `node`. -/
def Within (tree : UnregisteredCommandNode R) (path : List Text) (node : UnregisteredCommandNode R) : Prop :=
  ∃ chain, tree.Descends chain ∧ path = tree.name :: chain.map CommandTree.name ∧ node = chain.getLastD tree

theorem descends_of_entries (tree : UnregisteredCommandNode R) {path : List Text} {bare : CommandNode R} (h : entries tree path = some bare) :
    ∃ chain, tree.Descends chain ∧ path = chain.map CommandTree.name ∧ bare = bareNode (chain.getLastD tree) := by
  induction tree using CommandTree.induct generalizing path with
  | node tree ih =>
    cases path with
    | nil =>
      rw [entries_nil] at h
      cases h
      exact ⟨[], trivial, rfl, rfl⟩
    | cons name path =>
      obtain ⟨child, hmem, rfl, hchild⟩ := entries_cons_eq_some h
      obtain ⟨chain, hchain, rfl, rfl⟩ := ih child hmem hchild
      refine ⟨child :: chain, ⟨hmem, hchain⟩, rfl, ?_⟩
      rw [List.getLastD_cons]

theorem entries_of_descends {tree : UnregisteredCommandNode R} (hdistinct : tree.Distinct) {chain : List (UnregisteredCommandNode R)}
    (h : tree.Descends chain) : entries tree (chain.map CommandTree.name) = some (bareNode (chain.getLastD tree)) := by
  induction chain generalizing tree with
  | nil => exact entries_nil tree
  | cons child chain ih =>
    cases hdistinct with
    | node hnames hchildren =>
      obtain ⟨hmem, hchain⟩ := h
      rw [List.map_cons, entries_cons_of_mem hnames hmem, List.getLastD_cons]
      exact ih (hchildren child hmem) hchain

namespace CommandDispatcher

variable {d d' : CommandDispatcher R} {id root : NodeId} {path : List Text} {node : CommandNode R}
  {tree builder : UnregisteredCommandNode R}

/-- A path of names leads from the root to the node `id`, from child to child. -/
inductive Leads (d : CommandDispatcher R) : List Text → NodeId → Prop
  | root : Leads d [] d.root
  | child {path : List Text} {name : Text} {parent child : NodeId} {node : CommandNode R} (up : Leads d path parent)
    (here : d.node parent = some node) (mem : child ∈ node.children) (named : d.nameAt child = some name) : Leads d (path ++ [name]) child

theorem Shaped.findChild_of_mem (h : d.Shaped) {parent child : NodeId} {name : Text} (hnode : d.node parent = some node)
    (hmem : child ∈ node.children) (hname : d.nameAt child = some name) : d.findChild parent name = some child := by
  unfold findChild
  rw [hnode, Option.bind_some]
  cases hfind : node.children.find? (d.hasName name) with
  | none => exact absurd (hasName_iff.mpr hname) (List.find?_eq_none.mp hfind child hmem)
  | some found =>
    have hsame : d.nameAt found = d.nameAt child := (hasName_iff.mp (List.find?_some hfind)).trans hname.symm
    rw [List.inj_on_of_nodup_map (h.names (node_eq_some.mp hnode).2) (List.mem_of_find?_eq_some hfind) hmem hsame]

theorem Shaped.leads_iff (h : d.Shaped) : d.Leads path id ↔ d.find path = some id := by
  constructor
  · intro hleads
    induction hleads with
    | root => rfl
    | child _ hnode hmem hname ih =>
      rw [findChild_of_find ih]
      exact h.findChild_of_mem hnode hmem hname
  · intro hfind
    induction path using List.reverseRecOn generalizing id with
    | nil =>
      cases hfind
      exact .root
    | append_singleton path name ih =>
      rw [find_concat] at hfind
      obtain ⟨parent, hparent, hchild⟩ := Option.bind_eq_some_iff.mp hfind
      obtain ⟨node, hnode, hmem, hname⟩ := findChild_eq_some hchild
      exact .child (ih hparent) hnode hmem hname

/-! ## What registering keeps -/

/-- A tree whose redirects lead to its nodes, from nodes without children. -/
structure Sound (d : CommandDispatcher R) : Prop where
  shaped : d.Shaped
  root : d.look [] = some .root
  linked : ∀ {path : List Text} {node : CommandNode R} {redirect : CommandRedirect R.Modifier RedirectTarget}, d.look path = some node →
    node.redirect = some redirect → ∃ id, redirect.target = .node id ∧ (d.node id).isSome
  leaf : ∀ {path : List Text} {node : CommandNode R}, d.look path = some node → node.redirect.isSome →
    ∀ name, d.look (path ++ [name]) = none

theorem sound_new (id : Nat) : (new id : CommandDispatcher R).Sound := by
  have hnodes : ∀ {i : Nat} {node : CommandNode R}, (new id : CommandDispatcher R).nodes[i]? = some node → i = 0 ∧ node = .root := by
    intro i node hnode
    obtain ⟨hi, hnode⟩ := List.getElem?_eq_some_iff.mp hnode
    have hi : i = 0 := Nat.lt_one_iff.mp hi
    subst hi
    exact ⟨rfl, hnode.symm⟩
  have hshaped : (new id : CommandDispatcher R).Shaped := by
    constructor
    · exact List.cons_ne_nil _ _
    · intro i node child hnode hmem
      rw [(hnodes hnode).2] at hmem
      cases hmem
    · intro i j node node' child hnode hnode' hmem hmem'
      rw [(hnodes hnode).1, (hnodes hnode').1]
    · intro i node hnode
      rw [(hnodes hnode).2]
      exact List.nodup_nil
    · intro i hi
      rw [Nat.lt_one_iff.mp hi]
      exact ⟨[], rfl⟩
  have hlook : ∀ {path : List Text} {node : CommandNode R}, (new id : CommandDispatcher R).look path = some node → node.redirect = none := by
    intro path node hlook
    obtain ⟨found, hfound, rfl⟩ := Option.map_eq_some_iff.mp hlook
    obtain ⟨id', -, hnode⟩ := Option.bind_eq_some_iff.mp hfound
    rw [(hnodes (node_eq_some.mp hnode).2).2]
    rfl
  refine ⟨hshaped, ?_, ?_, ?_⟩
  · have hroot : (new id : CommandDispatcher R).node (new id : CommandDispatcher R).root = some .root := node_eq_some.mpr ⟨rfl, rfl⟩
    exact look_eq_some_of_find rfl hroot
  · intro path node redirect hnode hredirect
    rw [hlook hnode] at hredirect
    cases hredirect
  · intro path node hnode hredirect
    rw [hlook hnode] at hredirect
    cases hredirect

/-! ## One registration -/

theorem register_error {kind : RegistrationErrorKind} (h : (d.register builder).1 = .error kind) : (d.register builder).2 = d := by
  unfold register at h ⊢
  split
  · rfl
  · split
    · rfl
    · split
      · rfl
      · dsimp only at h ⊢
        split
        · rfl
        · simp_all

/-- What a registration that succeeds has checked and done. -/
structure Registered (d : CommandDispatcher R) (builder tree : UnregisteredCommandNode R) (root : NodeId) (d' : CommandDispatcher R) : Prop where
  normal : builder.normalize = .ok tree
  literal : tree.data.kind = .literal
  redirects : d.validateRedirects tree = .ok ()
  compatible : d.validateMerge d.root (resolveCommandRoot root tree) = .ok ()
  merged : applyMerge (resolveCommandRoot root tree) d d.root = (root, d')

theorem applyMerge_fst (tree : UnregisteredCommandNode R) (d : CommandDispatcher R) (parent : NodeId) :
    (applyMerge tree d parent).1 = (d.findChild parent tree.name).getD d.next := by
  rw [applyMerge_eq]
  cases d.findChild parent tree.name <;> rfl

theorem register_eq_ok (h : (d.register builder).1 = .ok root) : ∃ tree, Registered d builder tree root (d.register builder).2 := by
  unfold register at h ⊢
  cases hnormal : builder.normalize with
  | error kind =>
    rw [hnormal] at h
    cases h
  | ok tree =>
    rw [hnormal] at h
    dsimp only at h ⊢
    by_cases hkind : tree.data.kind ≠ .literal
    · rw [if_pos hkind] at h
      cases h
    · rw [if_neg hkind] at h ⊢
      cases hredirects : d.validateRedirects tree with
      | error kind =>
        rw [hredirects] at h
        cases h
      | ok _ =>
        rw [hredirects] at h
        dsimp only at h ⊢
        have hpredicted := applyMerge_fst (resolveCommandRoot ((d.findChild d.root tree.name).getD ⟨d.id, d.nodes.length⟩) tree) d d.root
        rw [name_resolveCommandRoot] at hpredicted
        generalize hcommand : (d.findChild d.root tree.name).getD ⟨d.id, d.nodes.length⟩ = commandRoot at h hpredicted ⊢
        cases hmerge : d.validateMerge d.root (resolveCommandRoot commandRoot tree) with
        | error kind =>
          rw [hmerge] at h
          cases h
        | ok _ =>
          rw [hmerge] at h
          dsimp only at h ⊢
          have hroot : commandRoot = root := by
            rw [← hcommand]
            exact hpredicted.symm.trans (Except.ok.inj h)
          subst hroot
          refine ⟨tree, hnormal, not_not.mp hkind, hredirects, hmerge, ?_⟩
          exact Prod.ext (Except.ok.inj h) rfl

namespace Registered

variable (h : Registered d builder tree root d')
include h

theorem distinct : tree.Distinct := CommandTree.distinct_normalize builder tree h.normal

theorem grafted (hd : d.Shaped) : Grafted d (under [tree.name] (entries (resolveCommandRoot root tree))) d' := by
  have hgrows := grows _ (distinct_resolveCommandRoot root h.distinct) hd (find_nil d)
  have hgrafted := hgrows.grafted
  rw [h.merged, name_resolveCommandRoot] at hgrafted
  exact hgrafted

theorem find_root (hd : d.Shaped) : d'.find [tree.name] = some root := by
  have hgrows := grows _ (distinct_resolveCommandRoot root h.distinct) hd (find_nil d)
  have hroot := hgrows.root
  rw [h.merged, name_resolveCommandRoot] at hroot
  exact hroot

omit h in
theorem new_eq_some {bare : CommandNode R} (hnew : under [tree.name] (entries (resolveCommandRoot root tree)) path = some bare) :
    ∃ rest old, path = tree.name :: rest ∧ entries tree rest = some old ∧ bare = old.resolve root := by
  obtain ⟨rest, rfl, heq⟩ := under_isSome (Option.isSome_of_eq_some hnew)
  rw [heq, entries_resolveCommandRoot, Option.map_eq_some_iff] at hnew
  obtain ⟨old, hold, rfl⟩ := hnew
  exact ⟨rest, old, rfl, hold, rfl⟩

theorem agree (hd : d.Shaped) {old new : CommandNode R} (hold : d.look path = some old)
    (hnew : under [tree.name] (entries (resolveCommandRoot root tree)) path = some new) : Agree old new := by
  obtain ⟨rest, rfl, heq⟩ := under_isSome (Option.isSome_of_eq_some hnew)
  refine hd.validateMerge_agree h.compatible (find_nil d) ?_ (heq.symm.trans hnew)
  rw [name_resolveCommandRoot]
  exact hold

theorem look_cases (hd : d.Shaped) (hnode : d'.look path = some node) :
    (d.look path = none ∧ under [tree.name] (entries (resolveCommandRoot root tree)) path = some node) ∨
      (d.look path = some node ∧ under [tree.name] (entries (resolveCommandRoot root tree)) path = none) ∨
      ∃ old new, d.look path = some old ∧ under [tree.name] (entries (resolveCommandRoot root tree)) path = some new ∧ Agree old new ∧
        node = old.overlay new := by
  rw [(h.grafted hd).look] at hnode
  cases hold : d.look path with
  | none =>
    rw [hold, Option.merge_none_left] at hnode
    exact Or.inl ⟨rfl, hnode⟩
  | some old =>
    cases hnew : under [tree.name] (entries (resolveCommandRoot root tree)) path with
    | none =>
      rw [hold, hnew, Option.merge_none_right] at hnode
      exact Or.inr (Or.inl ⟨hnode, rfl⟩)
    | some new =>
      rw [hold, hnew, Option.merge_some_some] at hnode
      exact Or.inr (Or.inr ⟨old, new, rfl, rfl, h.agree hd hold hnew, (Option.some.inj hnode).symm⟩)

theorem node_isSome (hd : d.Shaped) (hid : (d.node id).isSome) : (d'.node id).isSome := by
  obtain ⟨node, hnode⟩ := Option.isSome_iff_exists.mp hid
  obtain ⟨hdispatcher, hindex⟩ := node_eq_some.mp hnode
  obtain ⟨path, hpath⟩ := hd.reach id.index (List.getElem?_eq_some_iff.mp hindex).1
  rw [← hdispatcher] at hpath
  obtain ⟨node', hnode'⟩ := (h.grafted hd).shaped.node_of_find ((h.grafted hd).kept hpath)
  rw [hnode']
  rfl

/-- A redirect of the new tree leads to the root of the command or to a node of before. -/
theorem new_linked (hd : d.Shaped) {new : CommandNode R} (hnew : under [tree.name] (entries (resolveCommandRoot root tree)) path = some new)
    {redirect : CommandRedirect R.Modifier RedirectTarget} (hredirect : new.redirect = some redirect) :
    ∃ id, redirect.target = .node id ∧ (d'.node id).isSome := by
  obtain ⟨rest, old, -, hold, rfl⟩ := new_eq_some hnew
  obtain ⟨⟨target, modifier, forks⟩, hgiven, rfl⟩ := Option.map_eq_some_iff.mp hredirect
  cases target with
  | node id => exact ⟨id, rfl, h.node_isSome hd (validateRedirects_entries h.redirects hold hgiven rfl)⟩
  | commandRoot =>
    obtain ⟨node, hnode⟩ := (h.grafted hd).shaped.node_of_find (h.find_root hd)
    exact ⟨root, rfl, Option.isSome_of_eq_some hnode⟩

theorem new_leaf {new : CommandNode R} (hnew : under [tree.name] (entries (resolveCommandRoot root tree)) path = some new)
    (hredirect : new.redirect.isSome) (name : Text) : under [tree.name] (entries (resolveCommandRoot root tree)) (path ++ [name]) = none := by
  obtain ⟨rest, old, rfl, hold, rfl⟩ := new_eq_some hnew
  have hgiven : old.redirect.isSome := (Option.isSome_map ..).symm.trans hredirect
  have hleaf := (straight_normalize builder tree h.normal).entries_leaf h.distinct hold hgiven name
  rw [List.cons_append, under_singleton, if_pos rfl, entries_resolveCommandRoot, hleaf]
  rfl

theorem new_concat_eq_none (hnone : under [tree.name] (entries (resolveCommandRoot root tree)) path = none) (hpath : path ≠ []) (name : Text) :
    under [tree.name] (entries (resolveCommandRoot root tree)) (path ++ [name]) = none := by
  cases path with
  | nil => exact absurd rfl hpath
  | cons first path =>
    rw [under_singleton] at hnone
    rw [List.cons_append, under_singleton]
    split
    · rename_i heq
      rw [if_pos heq] at hnone
      exact entries_concat_eq_none (distinct_resolveCommandRoot root h.distinct) hnone name
    · rfl

theorem sound (hd : d.Sound) : d'.Sound := by
  have hgrafted := h.grafted hd.shaped
  refine ⟨hgrafted.shaped, ?_, ?_, ?_⟩
  · rw [hgrafted.look, hd.root, under_cons, Option.merge_none_right]
  · intro path node redirect hnode hredirect
    have hkept : ∀ {id : NodeId}, (d.node id).isSome → (d'.node id).isSome := h.node_isSome hd.shaped
    rcases h.look_cases hd.shaped hnode with ⟨-, hnew⟩ | ⟨hold, -⟩ | ⟨old, new, hold, -, -, rfl⟩
    · exact h.new_linked hd.shaped hnew hredirect
    · obtain ⟨id, htarget, hid⟩ := hd.linked hold hredirect
      exact ⟨id, htarget, hkept hid⟩
    · obtain ⟨id, htarget, hid⟩ := hd.linked hold hredirect
      exact ⟨id, htarget, hkept hid⟩
  · intro path node hnode hredirect name
    rw [hgrafted.look]
    rcases h.look_cases hd.shaped hnode with ⟨hold, hnew⟩ | ⟨hold, hnew⟩ | ⟨old, new, hold, hnew, hagree, rfl⟩
    · have hnone : d.find path = none := by
        rw [← Option.not_isSome_iff_eq_none, ← hd.shaped.look_isSome, hold]
        exact Bool.false_ne_true
      rw [look_eq_none_of_find (look_concat_eq_none hnone name), h.new_leaf hnew hredirect]
      rfl
    · have hpath : path ≠ [] := by
        rintro rfl
        rw [hd.root] at hold
        cases hold
        cases hredirect
      rw [hd.leaf hold hredirect, h.new_concat_eq_none hnew hpath]
      rfl
    · have hnewRedirect : new.redirect.isSome := hagree.redirect ▸ hredirect
      rw [hd.leaf hold hredirect, h.new_leaf hnew hnewRedirect]
      rfl

end Registered

theorem sound_of_run {id : Nat} {builders : List (UnregisteredCommandNode R)} (h : Run Registers (new id) builders d) : d.Sound := by
  refine h.invariant (sound_new id) ?_
  intro d builder d' hd hregister
  subst hregister
  cases hresult : (d.register builder).1 with
  | error kind =>
    rw [register_error hresult]
    exact hd
  | ok root =>
    obtain ⟨tree, htree⟩ := register_eq_ok hresult
    exact htree.sound hd

/-! ## The union -/

/-- `d'` is the union of `d` and the tree of a command, whose root became the node `root`. -/
structure Joined (d : CommandDispatcher R) (tree : UnregisteredCommandNode R) (root : NodeId) (d' : CommandDispatcher R) : Prop where
  literal : tree.data.kind = .literal
  top : d'.Leads [tree.name] root
  paths : ∀ path, (∃ id, d'.Leads path id) ↔ (∃ id, d.Leads path id) ∨ ∃ new, Within tree path new
  kept : ∀ path id old, d.Leads path id → d.node id = some old → d'.Leads path id ∧
    ∃ node, d'.node id = some node ∧ node = { old with executor := node.executor, children := node.children }
  given : ∀ path new, Within tree path new → ∃ id node, d'.Leads path id ∧ d'.node id = some node ∧
    node.data = some new.data ∧ node.requirement = new.requirement ∧ node.executionRequirement = new.executionRequirement
  names : ∀ node ∈ d'.nodes, (node.children.map d'.nameAt).Nodup
  replaced : ∀ path new executor, Within tree path new → new.executor = some executor →
    ∃ id node, d'.Leads path id ∧ d'.node id = some node ∧ node.executor = some executor
  others : ∀ path id old, d.Leads path id → d.node id = some old → (∀ new, Within tree path new → new.executor = none) →
    ∃ node, d'.node id = some node ∧ node.executor = old.executor
  without : ∀ path new, Within tree path new → new.executor = none → (∀ id, ¬d.Leads path id) →
    ∃ id node, d'.Leads path id ∧ d'.node id = some node ∧ node.executor = none
  commandRoots : ∀ path new redirect, Within tree path new → new.redirect = some redirect → redirect.target = .commandRoot →
    ∃ id node, d'.Leads path id ∧ d'.node id = some node ∧ node.redirect = some { redirect with target := .node root }
  redirects : ∀ node ∈ d'.nodes, ∀ redirect, node.redirect = some redirect → ∃ id, redirect.target = .node id ∧ (d'.node id).isSome
  leaves : ∀ node ∈ d'.nodes, node.redirect.isSome → node.children = []

theorem Shaped.find_of_mem (h : d.Shaped) (hmem : node ∈ d.nodes) : ∃ path id, d.find path = some id ∧ d.node id = some node := by
  obtain ⟨i, hi, hnode⟩ := List.mem_iff_getElem.mp hmem
  obtain ⟨path, hpath⟩ := h.reach i hi
  exact ⟨path, ⟨d.id, i⟩, hpath, node_eq_some.mpr ⟨rfl, List.getElem?_eq_some_iff.mpr ⟨hi, hnode⟩⟩⟩

theorem find_of_look {bare : CommandNode R} (hlook : d.look path = some bare) :
    ∃ id node, d.find path = some id ∧ d.node id = some node ∧ bare = node.bare := by
  obtain ⟨node, hnode, rfl⟩ := Option.map_eq_some_iff.mp hlook
  obtain ⟨id, hid, hnode⟩ := Option.bind_eq_some_iff.mp hnode
  exact ⟨id, node, hid, hnode, rfl⟩

theorem Sound.redirects (h : d.Sound) (hmem : node ∈ d.nodes) {redirect : CommandRedirect R.Modifier RedirectTarget}
    (hredirect : node.redirect = some redirect) : ∃ id, redirect.target = .node id ∧ (d.node id).isSome := by
  obtain ⟨path, id, hpath, hnode⟩ := h.shaped.find_of_mem hmem
  exact h.linked (look_eq_some_of_find hpath hnode) hredirect

theorem Sound.leaves (h : d.Sound) (hmem : node ∈ d.nodes) (hredirect : node.redirect.isSome) : node.children = [] := by
  obtain ⟨path, id, hpath, hnode⟩ := h.shaped.find_of_mem hmem
  rw [List.eq_nil_iff_forall_not_mem]
  intro child hchild
  have hvalid := h.shaped.child (node_eq_some.mp hnode).2 hchild
  obtain ⟨found, hfound⟩ : ∃ found, d.nodes[child.index]? = some found := ⟨_, List.getElem?_eq_getElem hvalid.2.1⟩
  have hname : d.nameAt child = some found.name := by
    unfold nameAt
    rw [hfound]
    rfl
  have hdown := (findChild_of_find hpath found.name).trans (h.shaped.findChild_of_mem hnode hchild hname)
  have hnone := h.leaf (look_eq_some_of_find hpath hnode) hredirect found.name
  have hsome := (h.shaped.look_isSome _).mpr (Option.isSome_of_eq_some hdown)
  rw [hnone] at hsome
  cases hsome

namespace Registered

variable (h : Registered d builder tree root d')
include h

theorem within_iff (bare : CommandNode R) : under [tree.name] (entries (resolveCommandRoot root tree)) path = some bare ↔
    ∃ new, Within tree path new ∧ bare = (bareNode new).resolve root := by
  constructor
  · intro hnew
    obtain ⟨rest, old, rfl, hold, rfl⟩ := new_eq_some hnew
    obtain ⟨chain, hchain, rfl, rfl⟩ := descends_of_entries tree hold
    exact ⟨chain.getLastD tree, ⟨chain, hchain, rfl, rfl⟩, rfl⟩
  · rintro ⟨new, ⟨chain, hchain, rfl, rfl⟩, rfl⟩
    rw [under_singleton, if_pos rfl, entries_resolveCommandRoot, entries_of_descends h.distinct hchain]
    rfl

theorem new_isSome : (under [tree.name] (entries (resolveCommandRoot root tree)) path).isSome ↔ ∃ new, Within tree path new := by
  rw [Option.isSome_iff_exists]
  constructor
  · rintro ⟨bare, hbare⟩
    obtain ⟨new, hnew, -⟩ := (h.within_iff bare).mp hbare
    exact ⟨new, hnew⟩
  · rintro ⟨new, hnew⟩
    exact ⟨_, (h.within_iff _).mpr ⟨new, hnew, rfl⟩⟩

/-- At a path of the new tree is its node, with the redirect resolved; an old executor stays if it has none. -/
theorem find_within (hd : d.Shaped) {new : UnregisteredCommandNode R} (hnew : Within tree path new) :
    ∃ id node, d'.Leads path id ∧ d'.node id = some node ∧ Agree node ((bareNode new).resolve root) ∧
      node.executor = (new.executor <|> (d.look path).bind CommandNode.executor) := by
  have hgrafted := h.grafted hd
  have hbare := (h.within_iff _).mpr ⟨new, hnew, rfl⟩
  have hlook := hgrafted.look path
  rw [hbare] at hlook
  cases hold : d.look path with
  | none =>
    rw [hold, Option.merge_none_left] at hlook
    obtain ⟨id, node, hid, hnode, heq⟩ := find_of_look hlook
    refine ⟨id, node, hgrafted.shaped.leads_iff.mpr hid, hnode, ?_, ?_⟩
    · rw [heq]
      exact ⟨rfl, rfl, rfl, rfl⟩
    · have hexecutor := congrArg CommandNode.executor heq
      simpa [CommandNode.resolve, bareNode, CommandNode.bare] using hexecutor.symm
  | some old =>
    rw [hold, Option.merge_some_some] at hlook
    obtain ⟨id, node, hid, hnode, heq⟩ := find_of_look hlook
    have hagree := h.agree hd hold hbare
    refine ⟨id, node, hgrafted.shaped.leads_iff.mpr hid, hnode, ?_, ?_⟩
    · have hsame : Agree node (old.overlay ((bareNode new).resolve root)) := by
        rw [heq]
        exact ⟨rfl, rfl, rfl, rfl⟩
      exact ⟨hsame.data.trans hagree.data, hsame.requirement.trans hagree.requirement,
        hsame.executionRequirement.trans hagree.executionRequirement, hsame.redirect.trans hagree.redirect⟩
    · have hexecutor := congrArg CommandNode.executor heq
      exact hexecutor.symm

theorem find_kept (hd : d.Shaped) {old : CommandNode R} (hpath : d.find path = some id) (hold : d.node id = some old) :
    d'.find path = some id ∧ ∃ node, d'.node id = some node ∧ node = { old with executor := node.executor, children := node.children } ∧
      ((∀ new, Within tree path new → new.executor = none) → node.executor = old.executor) := by
  have hgrafted := h.grafted hd
  have hkept := hgrafted.kept hpath
  obtain ⟨node, hnode⟩ := hgrafted.shaped.node_of_find hkept
  refine ⟨hkept, node, hnode, ?_⟩
  have hlook := hgrafted.look path
  rw [look_eq_some_of_find hkept hnode, look_eq_some_of_find hpath hold] at hlook
  cases hnew : under [tree.name] (entries (resolveCommandRoot root tree)) path with
  | none =>
    rw [hnew, Option.merge_none_right] at hlook
    have hbare : node.bare = old.bare := Option.some.inj hlook
    have hexecutor : node.bare.executor = old.bare.executor := congrArg CommandNode.executor hbare
    refine ⟨?_, fun _ => hexecutor⟩
    cases node
    cases old
    cases hbare
    rfl
  | some bare =>
    rw [hnew, Option.merge_some_some] at hlook
    have hbare := Option.some.inj hlook
    have hexecutor : node.executor = (bare.executor <|> old.executor) := congrArg CommandNode.executor hbare
    obtain ⟨new, hwithin, rfl⟩ := (h.within_iff bare).mp hnew
    constructor
    · cases node
      cases old
      cases hbare
      rfl
    · intro hnone
      have hempty : ((bareNode new).resolve root).executor = none := hnone new hwithin
      rw [hexecutor, hempty]
      rfl

theorem joined (hd : d.Sound) : Joined d tree root d' := by
  have hshape := hd.shaped
  have hgrafted := h.grafted hshape
  have hsound := h.sound hd
  constructor
  · exact h.literal
  · exact hsound.shaped.leads_iff.mpr (h.find_root hshape)
  · intro path
    simp only [hsound.shaped.leads_iff, hshape.leads_iff, ← Option.isSome_iff_exists]
    rw [← hsound.shaped.look_isSome, ← hshape.look_isSome, hgrafted.look, merge_isSome, h.new_isSome]
  · intro path id old hpath hold
    obtain ⟨hkept, node, hnode, heq, -⟩ := h.find_kept hshape (hshape.leads_iff.mp hpath) hold
    exact ⟨hsound.shaped.leads_iff.mpr hkept, node, hnode, heq⟩
  · intro path new hnew
    obtain ⟨id, node, hpath, hnode, hagree, -⟩ := h.find_within hshape hnew
    exact ⟨id, node, hpath, hnode, hagree.data, hagree.requirement, hagree.executionRequirement⟩
  · intro node hmem
    obtain ⟨i, hi, rfl⟩ := List.mem_iff_getElem.mp hmem
    exact hsound.shaped.names (List.getElem?_eq_getElem hi)
  · intro path new executor hnew hexecutor
    obtain ⟨id, node, hpath, hnode, -, heq⟩ := h.find_within hshape hnew
    refine ⟨id, node, hpath, hnode, ?_⟩
    rw [heq, hexecutor]
    rfl
  · intro path id old hpath hold hnone
    obtain ⟨-, node, hnode, -, hsame⟩ := h.find_kept hshape (hshape.leads_iff.mp hpath) hold
    exact ⟨node, hnode, hsame hnone⟩
  · intro path new hnew hexecutor hfresh
    obtain ⟨id, node, hpath, hnode, -, heq⟩ := h.find_within hshape hnew
    refine ⟨id, node, hpath, hnode, ?_⟩
    have hnone : d.find path = none := by
      rw [Option.eq_none_iff_forall_ne_some]
      exact fun id hid => hfresh id (hshape.leads_iff.mpr hid)
    rw [heq, hexecutor, look_eq_none_of_find hnone]
    rfl
  · intro path new redirect hnew hredirect htarget
    obtain ⟨id, node, hpath, hnode, hagree, -⟩ := h.find_within hshape hnew
    refine ⟨id, node, hpath, hnode, ?_⟩
    rw [hagree.redirect]
    simp [CommandNode.resolve, bareNode, hredirect, htarget, RedirectTarget.resolveCommandRoot]
  · intro node hmem redirect hredirect
    exact hsound.redirects hmem hredirect
  · intro node hmem hredirect
    exact hsound.leaves hmem hredirect

end Registered

/-- In every dispatcher made by registering, a registration fails and changes
nothing, or joins the normalized tree to what is there. -/
theorem register_union {id : Nat} {builders : List (UnregisteredCommandNode R)} (hrun : Run Registers (new id) builders d)
    (builder : UnregisteredCommandNode R) :
    (∃ kind, (d.register builder).1 = .error kind ∧ (d.register builder).2 = d) ∨
      ∃ root tree, (d.register builder).1 = .ok root ∧ builder.normalize = .ok tree ∧ Joined d tree root (d.register builder).2 := by
  cases hresult : (d.register builder).1 with
  | error kind => exact Or.inl ⟨kind, rfl, register_error hresult⟩
  | ok root =>
    obtain ⟨tree, htree⟩ := register_eq_ok hresult
    exact Or.inr ⟨root, tree, rfl, htree.normal, htree.joined (sound_of_run hrun)⟩

def tagRuntime : CommandRuntime Unit where
  Argument := Unit
  Executor := Nat
  Modifier := Unit
  ArgumentValue := Unit
  parse _ _ _ := .error []

/-- `execute run`, which leads back to `execute`. -/
def executeRun : UnregisteredCommandNode tagRuntime :=
  ⟨.literal ['e', 'x', 'e', 'c', 'u', 't', 'e'], [⟨.literal ['r', 'u', 'n'], [], none, .allowAll, .allowAll, some ⟨.commandRoot, none, false⟩⟩],
    none, .allowAll, .allowAll, none⟩

def executeAlone : UnregisteredCommandNode tagRuntime :=
  ⟨.literal ['e', 'x', 'e', 'c', 'u', 't', 'e'], [], some (1 : Nat), .allowAll, .allowAll, none⟩

/-- The second registration of `execute` joins the first one's node. -/
theorem execute_joined : ∃ tree, executeAlone.normalize = .ok tree ∧
    Joined ((new 0).register executeRun).2 tree ⟨0, 1⟩ (((new 0).register executeRun).2.register executeAlone).2 := by
  have hresult : (((new 0).register executeRun).2.register executeAlone).1 = .ok ⟨0, 1⟩ := rfl
  rcases register_union (Run.single (rfl : Registers (new 0) executeRun _)) executeAlone with ⟨kind, herror, -⟩ | ⟨root, tree, hok, hnormal, hjoined⟩
  · rw [hresult] at herror
    cases herror
  · rw [hresult] at hok
    cases hok
    exact ⟨tree, hnormal, hjoined⟩

end CommandDispatcher

end Foton.Brigadier.Arena
