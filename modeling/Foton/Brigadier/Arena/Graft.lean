import Foton.Brigadier.Arena.Shape
import Foton.Brigadier.Merge
import Foton.Lib.PathMap

/-!
# Merging a tree into the arena

Arena and tree are both read as maps from paths to nodes without their children.
Merging a tree below a node hangs its map there; where both have a node, the
old one stays and takes the executor of the new one.
-/

namespace Foton.Brigadier.Arena

variable {S : Type} {R : CommandRuntime S}

namespace CommandNode

/-- The node without its children. -/
def bare (node : CommandNode R) : CommandNode R := { node with children := [] }

/-- The node `old` after merging `new` into it. -/
def overlay (old new : CommandNode R) : CommandNode R := { old with executor := new.executor <|> old.executor }

end CommandNode

/-! ## Trees as maps -/

/-- What a node without children looks like in the arena. -/
def bareNode (tree : UnregisteredCommandNode R) : CommandNode R where
  data := some tree.data
  children := []
  executor := tree.executor
  requirement := tree.requirement
  executionRequirement := tree.executionRequirement
  redirect := tree.redirect

mutual

/-- The node at a path from the tree's own node. -/
def entries : UnregisteredCommandNode R → List Text → Option (CommandNode R)
  | ⟨data, children, executor, requirement, executionRequirement, redirect⟩, path =>
    if path = [] then some (bareNode ⟨data, children, executor, requirement, executionRequirement, redirect⟩)
    else entriesChildren children path

/-- The node at a path from the parent of the trees. -/
def entriesChildren : List (UnregisteredCommandNode R) → List Text → Option (CommandNode R)
  | [], _ => none
  | child :: children, path => under [child.name] (entries child) path <|> entriesChildren children path

end

section
variable {tree : UnregisteredCommandNode R} {children : List (UnregisteredCommandNode R)} {name : Text} {path : List Text}

theorem entries_eq (tree : UnregisteredCommandNode R) (path : List Text) :
    entries tree path = if path = [] then some (bareNode tree) else entriesChildren tree.children path := by
  obtain ⟨data, children, executor, requirement, executionRequirement, redirect⟩ := tree
  rw [entries]

@[simp]
theorem entries_nil (tree : UnregisteredCommandNode R) : entries tree [] = some (bareNode tree) := by
  rw [entries_eq, if_pos rfl]

@[simp]
theorem entriesChildren_nil (path : List Text) : entriesChildren ([] : List (UnregisteredCommandNode R)) path = none := by
  rw [entriesChildren]

theorem entriesChildren_cons (child : UnregisteredCommandNode R) (children : List (UnregisteredCommandNode R)) (path : List Text) :
    entriesChildren (child :: children) path = (under [child.name] (entries child) path <|> entriesChildren children path) := by
  rw [entriesChildren]

@[simp]
theorem entriesChildren_self (children : List (UnregisteredCommandNode R)) : entriesChildren children [] = none := by
  induction children with
  | nil => exact entriesChildren_nil []
  | cons child children ih =>
    rw [entriesChildren_cons, under_cons, ih]
    rfl

theorem entriesChildren_of_notMem (hname : name ∉ children.map CommandTree.name) : entriesChildren children (name :: path) = none := by
  induction children with
  | nil => exact entriesChildren_nil _
  | cons child children ih =>
    rw [List.map_cons, List.mem_cons, not_or] at hname
    rw [entriesChildren_cons, under_singleton, if_neg (Ne.symm hname.1), ih hname.2]
    rfl

theorem entriesChildren_exclusive {child : UnregisteredCommandNode R} (hname : child.name ∉ children.map CommandTree.name) (path : List Text) :
    under [child.name] (entries child) path = none ∨ entriesChildren children path = none := by
  cases path with
  | nil => exact Or.inr (entriesChildren_self children)
  | cons name path =>
    by_cases heq : child.name = name
    · subst heq
      exact Or.inr (entriesChildren_of_notMem hname)
    · refine Or.inl ?_
      rw [under_singleton, if_neg heq]

end

namespace CommandDispatcher

variable {d d' d'' : CommandDispatcher R} {id parent : NodeId} {path q : List Text} {node : CommandNode R}

/-! ## The arena as a map -/

def look (d : CommandDispatcher R) (path : List Text) : Option (CommandNode R) :=
  ((d.find path).bind d.node).map CommandNode.bare

theorem look_eq_some_of_find (hfind : d.find path = some id) (hnode : d.node id = some node) : d.look path = some node.bare := by
  unfold look
  rw [hfind, Option.bind_some, hnode]
  rfl

theorem Shaped.node_of_find (h : d.Shaped) (hfind : d.find path = some id) : ∃ node, d.node id = some node := by
  obtain ⟨hdispatcher, hindex⟩ := h.find_valid hfind
  exact ⟨_, node_eq_some.mpr ⟨hdispatcher, List.getElem?_eq_getElem hindex⟩⟩

theorem Shaped.look_isSome (h : d.Shaped) (path : List Text) : (d.look path).isSome ↔ (d.find path).isSome := by
  unfold look
  cases hfind : d.find path with
  | none => simp
  | some id =>
    obtain ⟨node, hnode⟩ := h.node_of_find hfind
    simp [hnode]

theorem look_eq_none_of_find (hfind : d.find path = none) : d.look path = none := by
  unfold look
  rw [hfind]
  rfl

theorem look_concat_eq_none (hlook : d.find path = none) (name : Text) : d.find (path ++ [name]) = none := by
  rw [find_concat, hlook]
  rfl

theorem Shaped.look_modifyNode (h : d.Shaped) (hpath : d.find path = some id) {f g : CommandNode R → CommandNode R}
    (hname : ∀ node, (f node).name = node.name) (hchildren : ∀ node, (f node).children = node.children)
    (hbare : ∀ node, (f node).bare = g node.bare) (q : List Text) :
    (d.modifyNode id f).look q = if q = path then (d.look q).map g else d.look q := by
  unfold look
  rw [find_modifyNode hname hchildren]
  cases hfind : d.find q with
  | none => simp
  | some found =>
    rw [Option.bind_some, Option.bind_some, node_modifyNode]
    by_cases heq : q = path
    · subst heq
      rw [hfind] at hpath
      rw [Option.some.inj hpath, if_pos rfl, if_pos rfl, Option.map_map, Option.map_map]
      exact congrArg (Option.map · _) (funext hbare)
    · have hne : id.index ≠ found.index := by
        intro hindex
        have hid : id = found := NodeId.ext ((h.find_valid hpath).1.trans (h.find_valid hfind).1.symm) hindex
        exact heq (h.find_injective hfind (hid ▸ hpath))
      rw [if_neg hne, if_neg heq]

theorem Shaped.look_push (h : d.Shaped) (hpath : d.find path = some parent) (hleaf : node.children = [])
    (hfresh : d.findChild parent node.name = none) (q : List Text) :
    (d.push parent node).look q = if q = path ++ [node.name] then some node else d.look q := by
  have hparent := (h.find_valid hpath).2
  unfold look
  rw [h.find_push hpath hleaf hfresh]
  split
  · have hnode : (d.push parent node).node d.next = some node := node_eq_some.mpr ⟨rfl, nodes_push_next hparent⟩
    rw [Option.bind_some, hnode]
    cases node
    cases hleaf
    rfl
  · cases hfind : d.find q with
    | none => rfl
    | some found =>
      obtain ⟨old, hold⟩ := h.node_of_find hfind
      obtain ⟨hdispatcher, hindex⟩ := node_eq_some.mp hold
      rw [Option.bind_some, Option.bind_some, hold]
      by_cases heq : parent.index = found.index
      · have hnew : (d.push parent node).node found = some { old with children := old.children ++ [d.next] } := by
          refine node_eq_some.mpr ⟨hdispatcher, ?_⟩
          rw [← heq] at hindex ⊢
          exact nodes_push_parent hindex
        rw [hnew]
        rfl
      · have hsame : (d.push parent node).node found = some old :=
          node_eq_some.mpr ⟨hdispatcher, (nodes_push_other (h.find_valid hfind).2 heq).trans hindex⟩
        rw [hsame]

/-! ## Grafting -/

/-- `d'` is `d` with the map `m` merged into it. -/
structure Grafted (d : CommandDispatcher R) (m : List Text → Option (CommandNode R)) (d' : CommandDispatcher R) : Prop where
  id : d'.id = d.id
  shaped : d'.Shaped
  kept : ∀ {q : List Text} {id : NodeId}, d.find q = some id → d'.find q = some id
  look : ∀ q, d'.look q = (d.look q).merge CommandNode.overlay (m q)

theorem Grafted.refl (h : d.Shaped) : Grafted d (fun _ => none) d where
  id := rfl
  shaped := h
  kept := fun hfind => hfind
  look := fun _ => Option.merge_none_right.symm

theorem Grafted.trans {m m' : List Text → Option (CommandNode R)} (h : Grafted d m d') (h' : Grafted d' m' d'')
    (hexclusive : ∀ q, m q = none ∨ m' q = none) : Grafted d (fun q => m q <|> m' q) d'' where
  id := h'.id.trans h.id
  shaped := h'.shaped
  kept := fun hfind => h'.kept (h.kept hfind)
  look := fun q => by rw [h'.look, h.look, merge_merge_of_or (hexclusive q)]

theorem Grafted.congr {m m' : List Text → Option (CommandNode R)} (h : Grafted d m d') (heq : ∀ q, m q = m' q) : Grafted d m' d' :=
  funext heq ▸ h

theorem findChild_of_find (hpath : d.find path = some parent) (name : Text) : d.find (path ++ [name]) = d.findChild parent name := by
  rw [find_concat, hpath]
  rfl

theorem Shaped.grafted_setExecutor (h : d.Shaped) (tree : UnregisteredCommandNode R) (hpath : d.find path = some id) :
    Grafted d (fun q => if q = path then some (bareNode tree) else none) (d.setExecutor id tree.executor) := by
  obtain ⟨node, hnode⟩ := h.node_of_find hpath
  have hlook := look_eq_some_of_find hpath hnode
  unfold setExecutor
  split
  · rename_i hexecutor
    have hname : ∀ node : CommandNode R, ({ node with executor := tree.executor } : CommandNode R).name = node.name := fun _ => rfl
    have hchildren : ∀ node : CommandNode R, ({ node with executor := tree.executor } : CommandNode R).children = node.children := fun _ => rfl
    refine ⟨rfl, h.modifyNode hname hchildren id, ?_, ?_⟩
    · intro q id' hfind
      rw [find_modifyNode hname hchildren]
      exact hfind
    · intro q
      have hbare : ∀ node : CommandNode R, ({ node with executor := tree.executor } : CommandNode R).bare =
          node.bare.overlay (bareNode tree) := by
        intro node
        obtain ⟨executor, heq⟩ := Option.isSome_iff_exists.mp hexecutor
        simp [CommandNode.bare, CommandNode.overlay, bareNode, heq]
      rw [h.look_modifyNode hpath hname hchildren (g := fun node => node.overlay (bareNode tree)) hbare]
      split
      · rename_i heq
        rw [heq, hlook]
        rfl
      · exact Option.merge_none_right.symm
  · rename_i hexecutor
    refine ⟨rfl, h, fun hfind => hfind, ?_⟩
    intro q
    split
    · rename_i heq
      have hnone : tree.executor = none := by simpa using hexecutor
      rw [heq, hlook]
      simp [CommandNode.overlay, bareNode, hnone, CommandNode.bare]
    · exact Option.merge_none_right.symm

theorem Shaped.grafted_push (h : d.Shaped) {tree : UnregisteredCommandNode R} (hpath : d.find path = some parent)
    (hfresh : d.findChild parent tree.name = none) :
    Grafted d (fun q => if q = path ++ [tree.name] then some (bareNode tree) else none) (d.push parent (bareNode tree)) where
  id := rfl
  shaped := h.push hpath rfl hfresh
  kept := h.find_push_old hpath rfl
  look := by
    intro q
    have hlook : (d.push parent (bareNode tree)).look q = if q = path ++ [tree.name] then some (bareNode tree) else d.look q :=
      h.look_push hpath (rfl : (bareNode tree).children = []) hfresh q
    rw [hlook]
    split
    · rename_i heq
      have hnone : d.find q = none := by
        rw [heq, findChild_of_find hpath]
        exact hfresh
      rw [look_eq_none_of_find hnone]
      rfl
    · rename_i hne
      exact Option.merge_none_right.symm

/-! ## A whole tree -/

section
variable {tree : UnregisteredCommandNode R} {children : List (UnregisteredCommandNode R)}

/-- Merging a tree below a node hangs its map there, and gives the node of the tree's root. -/
structure Grows (tree : UnregisteredCommandNode R) (d : CommandDispatcher R) (path : List Text) (parent : NodeId) : Prop where
  grafted : Grafted d (under (path ++ [tree.name]) (entries tree)) (applyMerge tree d parent).2
  root : (applyMerge tree d parent).2.find (path ++ [tree.name]) = some (applyMerge tree d parent).1

theorem grafted_applyMergeChildren (hgrows : ∀ child ∈ children, ∀ {d : CommandDispatcher R}, d.Shaped → d.find path = some parent →
      Grows child d path parent) (hnames : (children.map CommandTree.name).Nodup) {d : CommandDispatcher R} (h : d.Shaped)
    (hpath : d.find path = some parent) :
    Grafted d (under path (entriesChildren children)) (applyMergeChildren children d parent) := by
  induction children generalizing d with
  | nil =>
    rw [applyMergeChildren]
    refine (Grafted.refl h).congr fun q => ?_
    simp [under]
  | cons child children ih =>
    rw [List.map_cons, List.nodup_cons] at hnames
    rw [List.forall_mem_cons] at hgrows
    have hfirst := (hgrows.1 h hpath).grafted
    have hrest := ih hgrows.2 hnames.2 hfirst.shaped (hfirst.kept hpath)
    rw [applyMergeChildren]
    rw [← under_under] at hfirst
    refine (hfirst.trans hrest ?_).congr ?_
    · intro q
      by_cases hprefix : path <+: q
      · obtain ⟨r, rfl⟩ := hprefix
        rw [under_append, under_append]
        exact entriesChildren_exclusive hnames.1 r
      · exact Or.inl (under_eq_none hprefix)
    · intro q
      by_cases hprefix : path <+: q
      · obtain ⟨r, rfl⟩ := hprefix
        rw [under_append, under_append, under_append, entriesChildren_cons]
      · rw [under_eq_none hprefix, under_eq_none hprefix, under_eq_none hprefix]
        rfl

theorem under_entries (path q : List Text) : (if q = path then some (bareNode tree) else none) = none ∨ under path (entriesChildren tree.children) q = none := by
  split
  · rename_i heq
    rw [heq, under_self, entriesChildren_self]
    exact Or.inr rfl
  · exact Or.inl rfl

theorem orElse_under_entries (path q : List Text) :
    ((if q = path then some (bareNode tree) else none) <|> under path (entriesChildren tree.children) q) = under path (entries tree) q := by
  split
  · rename_i heq
    rw [heq, under_self, under_self, entries_nil]
    rfl
  · rename_i hne
    by_cases hprefix : path <+: q
    · obtain ⟨r, rfl⟩ := hprefix
      have hr : r ≠ [] := by
        rintro rfl
        exact hne (List.append_nil path)
      rw [under_append, under_append, entries_eq, if_neg hr]
      rfl
    · rw [under_eq_none hprefix, under_eq_none hprefix]
      rfl

theorem applyMerge_eq (tree : UnregisteredCommandNode R) (d : CommandDispatcher R) (parent : NodeId) :
    applyMerge tree d parent = match d.findChild parent tree.name with
      | some existing => (existing, applyMergeChildren tree.children (d.setExecutor existing tree.executor) existing)
      | none => (d.next, applyMergeChildren tree.children (d.push parent (bareNode tree)) d.next) := by
  obtain ⟨data, children, executor, requirement, executionRequirement, redirect⟩ := tree
  rw [applyMerge]
  rfl

theorem grows (tree : UnregisteredCommandNode R) : CommandTree.Distinct tree → ∀ {d : CommandDispatcher R} {path : List Text} {parent : NodeId},
    d.Shaped → d.find path = some parent → Grows tree d path parent := by
  induction tree using CommandTree.induct with
  | node tree ih =>
    intro hdistinct d path parent h hpath
    cases hdistinct with
    | node hnames hchildren =>
      -- both cases add one node and then the children below it
      have hstep : ∀ {d' : CommandDispatcher R} {id : NodeId},
          Grafted d (fun q => if q = path ++ [tree.name] then some (bareNode tree) else none) d' →
          d'.find (path ++ [tree.name]) = some id → applyMerge tree d parent = (id, applyMergeChildren tree.children d' id) →
          Grows tree d path parent := by
        intro d' id hgrafted hid heq
        have hrest := grafted_applyMergeChildren (fun child hmem _ => ih child hmem (hchildren child hmem)) hnames hgrafted.shaped hid
        constructor
        · rw [heq]
          exact (hgrafted.trans hrest (under_entries _)).congr (orElse_under_entries _)
        · rw [heq]
          exact hrest.kept hid
      cases hexisting : d.findChild parent tree.name with
      | some existing =>
        have hfind := (findChild_of_find hpath tree.name).trans hexisting
        have hgrafted := h.grafted_setExecutor tree hfind
        refine hstep hgrafted (hgrafted.kept hfind) ?_
        rw [applyMerge_eq, hexisting]
      | none =>
        have hgrafted := h.grafted_push hpath hexisting
        have hnext : (d.push parent (bareNode tree)).find (path ++ [tree.name]) = some d.next := by
          have hpush := h.find_push hpath (rfl : (bareNode tree).children = []) hexisting (path ++ [tree.name])
          exact hpush.trans (if_pos rfl)
        refine hstep hgrafted hnext ?_
        rw [applyMerge_eq, hexisting]

end

end CommandDispatcher

end Foton.Brigadier.Arena
