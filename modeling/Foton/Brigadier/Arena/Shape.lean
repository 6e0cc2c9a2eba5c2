import Foton.Brigadier.Arena.Dispatcher
import Mathlib.Data.List.Induction

/-!
# The tree in the arena

A path of names leads from the root to at most one node, and every node has one
such path. Giving a node an executor or a new child keeps it so.
-/

namespace Foton.Brigadier.Arena.CommandDispatcher

variable {S : Type} {R : CommandRuntime S} {d : CommandDispatcher R} {id parent child : NodeId} {name : Text} {path path' : List Text}
  {node : CommandNode R}

/-- The node that a path of names leads to from the root. -/
def find (d : CommandDispatcher R) (path : List Text) : Option NodeId := path.foldlM d.findChild d.root

def nameAt (d : CommandDispatcher R) (id : NodeId) : Option Text := d.nodes[id.index]?.map CommandNode.name

/-- Children are nodes of the arena with one parent and their own names, and every node can be reached. -/
structure Shaped (d : CommandDispatcher R) : Prop where
  nonempty : d.nodes ≠ []
  child : ∀ {i : Nat} {node : CommandNode R} {child : NodeId}, d.nodes[i]? = some node → child ∈ node.children →
    child.dispatcher = d.id ∧ child.index < d.nodes.length ∧ child.index ≠ 0
  parent : ∀ {i j : Nat} {node node' : CommandNode R} {child : NodeId}, d.nodes[i]? = some node → d.nodes[j]? = some node' → child ∈ node.children →
    child ∈ node'.children → i = j
  names : ∀ {i : Nat} {node : CommandNode R}, d.nodes[i]? = some node → (node.children.map d.nameAt).Nodup
  reach : ∀ i, i < d.nodes.length → ∃ path, d.find path = some ⟨d.id, i⟩

/-! ## Paths -/

@[simp]
theorem find_nil (d : CommandDispatcher R) : d.find [] = some d.root := rfl

theorem find_concat (d : CommandDispatcher R) (path : List Text) (name : Text) :
    d.find (path ++ [name]) = (d.find path).bind fun id => d.findChild id name := by
  unfold find
  rw [List.foldlM_append]
  refine congrArg (Option.bind _) (funext fun id => ?_)
  simp

theorem node_eq_some : d.node id = some node ↔ id.dispatcher = d.id ∧ d.nodes[id.index]? = some node := by
  unfold CommandDispatcher.node
  split
  · rename_i h
    exact iff_of_false (fun hnone => nomatch hnone) fun hsome => h hsome.1
  · rename_i h
    rw [not_not] at h
    exact ⟨fun hsome => ⟨h, hsome⟩, fun hsome => hsome.2⟩

theorem hasName_iff : d.hasName name child = true ↔ d.nameAt child = some name := by
  unfold hasName nameAt
  cases d.nodes[child.index]? with
  | none => simp
  | some node => simp

theorem findChild_eq_some (h : d.findChild parent name = some child) :
    ∃ node, d.node parent = some node ∧ child ∈ node.children ∧ d.nameAt child = some name := by
  obtain ⟨node, hnode, hfind⟩ := Option.bind_eq_some_iff.mp h
  exact ⟨node, hnode, List.mem_of_find?_eq_some hfind, hasName_iff.mp (List.find?_some hfind)⟩

theorem Shaped.find_valid (h : d.Shaped) (hfind : d.find path = some id) : id.dispatcher = d.id ∧ id.index < d.nodes.length := by
  cases path using List.reverseRecOn with
  | nil =>
    cases hfind
    exact ⟨rfl, List.length_pos_iff.mpr h.nonempty⟩
  | append_singleton path name =>
    rw [find_concat] at hfind
    obtain ⟨parent, -, hchild⟩ := Option.bind_eq_some_iff.mp hfind
    obtain ⟨node, hnode, hmem, -⟩ := findChild_eq_some hchild
    have hvalid := h.child (node_eq_some.mp hnode).2 hmem
    exact ⟨hvalid.1, hvalid.2.1⟩

theorem Shaped.find_ne_root (h : d.Shaped) (hfind : d.find (path ++ [name]) = some id) : id.index ≠ 0 := by
  rw [find_concat] at hfind
  obtain ⟨parent, -, hchild⟩ := Option.bind_eq_some_iff.mp hfind
  obtain ⟨node, hnode, hmem, -⟩ := findChild_eq_some hchild
  exact (h.child (node_eq_some.mp hnode).2 hmem).2.2

theorem Shaped.find_injective (h : d.Shaped) (hfind : d.find path = some id) (hfind' : d.find path' = some id) : path = path' := by
  induction path using List.reverseRecOn generalizing path' id with
  | nil =>
    cases hfind
    cases path' using List.reverseRecOn with
    | nil => rfl
    | append_singleton path' name' => exact absurd rfl (h.find_ne_root hfind')
  | append_singleton path name ih =>
    cases path' using List.reverseRecOn with
    | nil =>
      cases hfind'
      exact absurd rfl (h.find_ne_root hfind)
    | append_singleton path' name' =>
      rw [find_concat] at hfind hfind'
      obtain ⟨parent, hparent, hchild⟩ := Option.bind_eq_some_iff.mp hfind
      obtain ⟨parent', hparent', hchild'⟩ := Option.bind_eq_some_iff.mp hfind'
      obtain ⟨node, hnode, hmem, hname⟩ := findChild_eq_some hchild
      obtain ⟨node', hnode', hmem', hname'⟩ := findChild_eq_some hchild'
      have hindex := h.parent (node_eq_some.mp hnode).2 (node_eq_some.mp hnode').2 hmem hmem'
      have heq : parent = parent' := NodeId.ext ((node_eq_some.mp hnode).1.trans (node_eq_some.mp hnode').1.symm) hindex
      rw [← heq] at hparent'
      rw [ih hparent hparent', Option.some.inj (hname.symm.trans hname')]

/-! ## A new executor -/

section
variable {f : CommandNode R → CommandNode R}

theorem nodes_modifyNode (d : CommandDispatcher R) (id : NodeId) (f : CommandNode R → CommandNode R) (i : Nat) :
    (d.modifyNode id f).nodes[i]? = if id.index = i then d.nodes[i]?.map f else d.nodes[i]? := by
  unfold modifyNode
  rw [List.getElem?_modify]
  split
  · rfl
  · simp

theorem node_modifyNode (d : CommandDispatcher R) (id : NodeId) (f : CommandNode R → CommandNode R) (id' : NodeId) :
    (d.modifyNode id f).node id' = if id.index = id'.index then (d.node id').map f else d.node id' := by
  have hid : (d.modifyNode id f).id = d.id := rfl
  unfold CommandDispatcher.node
  rw [nodes_modifyNode, hid]
  split
  · simp
  · rfl

theorem nameAt_modifyNode (hname : ∀ node, (f node).name = node.name) (d : CommandDispatcher R) (id : NodeId) :
    (d.modifyNode id f).nameAt = d.nameAt := by
  funext id'
  unfold nameAt
  rw [nodes_modifyNode]
  split
  · cases d.nodes[id'.index]? with
    | none => rfl
    | some node => exact congrArg some (hname node)
  · rfl

theorem findChild_congr {d d' : CommandDispatcher R} (hnames : d'.nameAt = d.nameAt)
    (hchildren : (d'.node parent).map CommandNode.children = (d.node parent).map CommandNode.children) (name : Text) :
    d'.findChild parent name = d.findChild parent name := by
  have hhas : d'.hasName name = d.hasName name := by
    funext child
    rw [Bool.eq_iff_iff, hasName_iff, hasName_iff, hnames]
  unfold findChild
  rw [hhas]
  cases hnode : d.node parent with
  | none =>
    rw [hnode] at hchildren
    rw [Option.map_eq_none_iff.mp hchildren]
  | some node =>
    rw [hnode] at hchildren
    obtain ⟨node', hnode', heq⟩ := Option.map_eq_some_iff.mp hchildren
    rw [hnode', Option.bind_some, Option.bind_some, heq]

theorem find_modifyNode (hname : ∀ node, (f node).name = node.name) (hchildren : ∀ node, (f node).children = node.children)
    (d : CommandDispatcher R) (id : NodeId) : (d.modifyNode id f).find = d.find := by
  have hfind : (d.modifyNode id f).findChild = d.findChild := by
    funext parent name
    refine findChild_congr (nameAt_modifyNode hname d id) ?_ name
    rw [node_modifyNode]
    split
    · cases d.node parent with
      | none => rfl
      | some node => exact congrArg some (hchildren node)
    · rfl
  funext path
  unfold find
  rw [hfind]
  rfl

theorem Shaped.modifyNode (h : d.Shaped) (hname : ∀ node, (f node).name = node.name)
    (hchildren : ∀ node, (f node).children = node.children) (id : NodeId) : (d.modifyNode id f).Shaped := by
  have hold : ∀ {i : Nat} {node : CommandNode R}, (d.modifyNode id f).nodes[i]? = some node → ∃ old, d.nodes[i]? = some old ∧ node.children = old.children := by
    intro i node hnode
    rw [nodes_modifyNode] at hnode
    split at hnode
    · obtain ⟨old, hold, rfl⟩ := Option.map_eq_some_iff.mp hnode
      exact ⟨old, hold, hchildren old⟩
    · exact ⟨node, hnode, rfl⟩
  have hlength : (d.modifyNode id f).nodes.length = d.nodes.length := List.length_modify ..
  constructor
  · rw [← List.length_pos_iff, hlength, List.length_pos_iff]
    exact h.nonempty
  · intro i node child hnode hmem
    obtain ⟨old, hold, heq⟩ := hold hnode
    rw [hlength]
    exact h.child hold (heq ▸ hmem)
  · intro i j node node' child hnode hnode' hmem hmem'
    obtain ⟨old, hold₁, heq⟩ := hold hnode
    obtain ⟨old', hold₂, heq'⟩ := hold hnode'
    exact h.parent hold₁ hold₂ (heq ▸ hmem) (heq' ▸ hmem')
  · intro i node hnode
    obtain ⟨old, hold, heq⟩ := hold hnode
    rw [nameAt_modifyNode hname, heq]
    exact h.names hold
  · intro i hi
    rw [find_modifyNode hname hchildren]
    exact h.reach i (hlength ▸ hi)

end

/-! ## A new child -/

section
variable {i : Nat} {node' : CommandNode R}

/-- The id that the next node gets. -/
def next (d : CommandDispatcher R) : NodeId := ⟨d.id, d.nodes.length⟩

theorem length_push (d : CommandDispatcher R) (parent : NodeId) (node : CommandNode R) :
    (d.push parent node).nodes.length = d.nodes.length + 1 := by
  unfold push modifyNode
  rw [List.length_modify, List.length_append, List.length_singleton]

theorem nodes_push (d : CommandDispatcher R) (parent : NodeId) (node : CommandNode R) (i : Nat) :
    (d.push parent node).nodes[i]? = if parent.index = i then
      (d.nodes ++ [node])[i]?.map fun p => { p with children := p.children ++ [d.next] } else (d.nodes ++ [node])[i]? := by
  unfold push
  rw [nodes_modifyNode]
  rfl

theorem nodes_push_next (hparent : parent.index < d.nodes.length) : (d.push parent node).nodes[d.nodes.length]? = some node := by
  rw [nodes_push, if_neg (Nat.ne_of_lt hparent), List.getElem?_concat_length]

theorem nodes_push_parent (hparent : d.nodes[parent.index]? = some node') :
    (d.push parent node).nodes[parent.index]? = some { node' with children := node'.children ++ [d.next] } := by
  have hlt := (List.getElem?_eq_some_iff.mp hparent).1
  rw [nodes_push, if_pos rfl, List.getElem?_append_left hlt, hparent]
  rfl

theorem nodes_push_other (hi : i < d.nodes.length) (hne : parent.index ≠ i) : (d.push parent node).nodes[i]? = d.nodes[i]? := by
  rw [nodes_push, if_neg hne, List.getElem?_append_left hi]

/-- A node of the arena is the new one, the parent with one more child, or as it was. -/
theorem nodes_push_cases (hparent : parent.index < d.nodes.length) (h : (d.push parent node).nodes[i]? = some node') :
    i = d.nodes.length ∧ node' = node ∨
      (∃ old, i = parent.index ∧ d.nodes[i]? = some old ∧ node' = { old with children := old.children ++ [d.next] }) ∨
      i < d.nodes.length ∧ d.nodes[i]? = some node' := by
  have hi : i < d.nodes.length + 1 := by
    rw [← length_push d parent node]
    exact (List.getElem?_eq_some_iff.mp h).1
  rcases Nat.lt_or_ge i d.nodes.length with hlt | hge
  · by_cases heq : parent.index = i
    · subst heq
      have hold := List.getElem?_eq_getElem hlt
      rw [nodes_push_parent hold] at h
      exact Or.inr (Or.inl ⟨_, rfl, hold, (Option.some.inj h).symm⟩)
    · rw [nodes_push_other hlt heq] at h
      exact Or.inr (Or.inr ⟨hlt, h⟩)
  · obtain rfl : i = d.nodes.length := by omega
    rw [nodes_push_next hparent] at h
    exact Or.inl ⟨rfl, (Option.some.inj h).symm⟩

theorem nameAt_push (hchild : child.index < d.nodes.length) :
    (d.push parent node).nameAt child = d.nameAt child := by
  unfold nameAt
  by_cases heq : parent.index = child.index
  · obtain ⟨old, hold⟩ : ∃ old, d.nodes[child.index]? = some old := ⟨_, List.getElem?_eq_getElem hchild⟩
    rw [← heq] at hold ⊢
    rw [nodes_push_parent hold, hold]
    rfl
  · rw [nodes_push_other hchild heq]

theorem nameAt_push_next (hparent : parent.index < d.nodes.length) : (d.push parent node).nameAt d.next = some node.name := by
  unfold nameAt
  have hnext : d.next.index = d.nodes.length := rfl
  rw [hnext, nodes_push_next hparent]
  rfl

theorem find?_push {children : List NodeId}
    (hchildren : ∀ child ∈ children, child.index < d.nodes.length) (name : Text) :
    children.find? ((d.push parent node).hasName name) = children.find? (d.hasName name) := by
  induction children with
  | nil => rfl
  | cons child rest ih =>
    rw [List.forall_mem_cons] at hchildren
    have hhas : (d.push parent node).hasName name child = d.hasName name child := by
      rw [Bool.eq_iff_iff, hasName_iff, hasName_iff, nameAt_push hchildren.1]
    rw [List.find?_cons, List.find?_cons, hhas, ih hchildren.2]

variable (h : d.Shaped) (hpath : d.find path = some parent) (hleaf : node.children = [])
include h hpath hleaf

theorem Shaped.findChild_push (id : NodeId) (name : Text) : (d.push parent node).findChild id name =
    if id = d.next then none
    else if id = parent then (d.findChild parent name).or (if node.name = name then some d.next else none)
    else d.findChild id name := by
  have hparent := (h.find_valid hpath).2
  have hdispatcher := (h.find_valid hpath).1
  have hid : (d.push parent node).id = d.id := rfl
  split
  · rename_i hnext
    subst hnext
    have hnode : (d.push parent node).node d.next = some node := node_eq_some.mpr ⟨rfl, nodes_push_next hparent⟩
    unfold findChild
    rw [hnode, Option.bind_some, hleaf]
    rfl
  · rename_i hnext
    split
    · rename_i heq
      subst heq
      have hold := List.getElem?_eq_getElem hparent
      have hnode := node_eq_some.mpr ⟨hdispatcher, hold⟩
      have hnode' : (d.push id node).node id = some _ := node_eq_some.mpr ⟨hdispatcher, nodes_push_parent hold⟩
      unfold findChild
      rw [hnode', hnode, Option.bind_some, Option.bind_some, List.find?_append,
        find?_push fun child hmem => (h.child hold hmem).2.1]
      refine congrArg _ ?_
      have hhas : (d.push id node).hasName name d.next = decide (node.name = name) := by
        rw [Bool.eq_iff_iff, hasName_iff, nameAt_push_next hparent, decide_eq_true_eq, Option.some.injEq]
      rw [List.find?_singleton, hhas]
      simp only [decide_eq_true_eq]
    · rename_i hne
      unfold findChild
      cases hnode : d.node id with
      | none =>
        have hnone : (d.push parent node).node id = none := by
          rw [Option.eq_none_iff_forall_ne_some]
          intro found hfound
          obtain ⟨hdis, hfound⟩ := node_eq_some.mp hfound
          rcases nodes_push_cases hparent hfound with ⟨hindex, -⟩ | ⟨old, hindex, -, -⟩ | ⟨-, hold⟩
          · exact hnext (NodeId.ext hdis hindex)
          · exact hne (NodeId.ext (hdis.trans hdispatcher.symm) hindex)
          · have hsome : d.node id = some found := node_eq_some.mpr ⟨hdis, hold⟩
            rw [hsome] at hnode
            cases hnode
        rw [hnone]
        rfl
      | some found =>
        obtain ⟨hdis, hfound⟩ := node_eq_some.mp hnode
        have hindex : parent.index ≠ id.index := by
          exact fun heq => hne (NodeId.ext (hdis.trans hdispatcher.symm) heq.symm)
        have hlt := (List.getElem?_eq_some_iff.mp hfound).1
        have hsame : (d.push parent node).node id = some found :=
          node_eq_some.mpr ⟨hdis, (nodes_push_other hlt hindex).trans hfound⟩
        rw [hsame, Option.bind_some, Option.bind_some, find?_push fun child hmem => (h.child hfound hmem).2.1]

theorem Shaped.find_push_old {q : List Text} {id : NodeId} (hfind : d.find q = some id) : (d.push parent node).find q = some id := by
  induction q using List.reverseRecOn generalizing id with
  | nil => exact hfind
  | append_singleton q name ih =>
    rw [find_concat] at hfind ⊢
    obtain ⟨up, hup, hchild⟩ := Option.bind_eq_some_iff.mp hfind
    have hne : up ≠ d.next := by
      intro heq
      exact absurd (congrArg NodeId.index heq) (Nat.ne_of_lt (h.find_valid hup).2)
    rw [ih hup, Option.bind_some, h.findChild_push hpath hleaf, if_neg hne]
    split
    · rename_i heq
      rw [← heq, hchild]
      rfl
    · exact hchild

theorem Shaped.find_push_cases {q : List Text} {id : NodeId} (hfind : (d.push parent node).find q = some id) :
    d.find q = some id ∨ q = path ++ [node.name] ∧ id = d.next := by
  induction q using List.reverseRecOn generalizing id with
  | nil => exact Or.inl hfind
  | append_singleton q name ih =>
    rw [find_concat] at hfind ⊢
    obtain ⟨up, hup, hchild⟩ := Option.bind_eq_some_iff.mp hfind
    rw [h.findChild_push hpath hleaf] at hchild
    rcases ih hup with hold | ⟨-, rfl⟩
    · rw [hold, Option.bind_some]
      split at hchild
      · cases hchild
      · split at hchild
        · rename_i heq
          subst heq
          rcases Option.or_eq_some_iff.mp hchild with hchild | ⟨-, hnew⟩
          · exact Or.inl hchild
          · obtain ⟨hname, hid⟩ := Option.ite_none_right_eq_some.mp hnew
            rw [h.find_injective hold hpath, hname]
            exact Or.inr ⟨rfl, (Option.some.inj hid).symm⟩
        · exact Or.inl hchild
    · rw [if_pos rfl] at hchild
      cases hchild

variable (hfresh : d.findChild parent node.name = none)
include hfresh

theorem Shaped.find_push (q : List Text) :
    (d.push parent node).find q = if q = path ++ [node.name] then some d.next else d.find q := by
  split
  · rename_i heq
    have hne : parent ≠ d.next := by
      intro heq
      exact absurd (congrArg NodeId.index heq) (Nat.ne_of_lt (h.find_valid hpath).2)
    rw [heq, find_concat, h.find_push_old hpath hleaf hpath, Option.bind_some, h.findChild_push hpath hleaf, if_neg hne,
      if_pos rfl, hfresh, if_pos rfl]
    rfl
  · rename_i hne
    apply Option.ext
    intro id
    constructor
    · intro hfind
      rcases h.find_push_cases hpath hleaf hfind with hold | ⟨heq, -⟩
      · exact hold
      · exact absurd heq hne
    · exact h.find_push_old hpath hleaf

theorem Shaped.push : (d.push parent node).Shaped := by
  have hparent := (h.find_valid hpath).2
  have hid : (d.push parent node).id = d.id := rfl
  have hlt : ∀ {i : Nat} {old : CommandNode R} {child : NodeId}, d.nodes[i]? = some old → child ∈ old.children → child.index < d.nodes.length :=
    fun hold hmem => (h.child hold hmem).2.1
  have hnext : ∀ {i : Nat} {old : CommandNode R}, d.nodes[i]? = some old → d.next ∉ old.children :=
    fun hold hmem => absurd (hlt hold hmem) (Nat.lt_irrefl _)
  -- a child is the new node or one of before
  have hback : ∀ {i : Nat} {found : CommandNode R} {child : NodeId}, (d.push parent node).nodes[i]? = some found → child ∈ found.children →
      (∃ old, d.nodes[i]? = some old ∧ child ∈ old.children) ∨ i = parent.index ∧ child = d.next := by
    intro i found child hfound hmem
    rcases nodes_push_cases hparent hfound with ⟨-, rfl⟩ | ⟨old, hindex, hold, rfl⟩ | ⟨-, hold⟩
    · rw [hleaf] at hmem
      cases hmem
    · rcases List.mem_append.mp hmem with hmem | hmem
      · exact Or.inl ⟨old, hold, hmem⟩
      · exact Or.inr ⟨hindex, List.mem_singleton.mp hmem⟩
    · exact Or.inl ⟨found, hold, hmem⟩
  constructor
  · rw [← List.length_pos_iff, length_push]
    exact Nat.succ_pos _
  · intro i found child hfound hmem
    rw [length_push, hid]
    rcases hback hfound hmem with ⟨old, hold, hmem⟩ | ⟨-, rfl⟩
    · obtain ⟨hdis, hindex, hne⟩ := h.child hold hmem
      exact ⟨hdis, Nat.lt_succ_of_lt hindex, hne⟩
    · exact ⟨rfl, Nat.lt_succ_self _, Nat.ne_of_gt (List.length_pos_iff.mpr h.nonempty)⟩
  · intro i j found found' child hfound hfound' hmem hmem'
    rcases hback hfound hmem with ⟨old, hold, hmem⟩ | ⟨hi, rfl⟩
    · rcases hback hfound' hmem' with ⟨old', hold', hmem'⟩ | ⟨-, rfl⟩
      · exact h.parent hold hold' hmem hmem'
      · exact absurd hmem (hnext hold)
    · rcases hback hfound' hmem' with ⟨old', hold', hmem'⟩ | ⟨hj, -⟩
      · exact absurd hmem' (hnext hold')
      · rw [hi, hj]
  · intro i found hfound
    have hsame : ∀ {i : Nat} {old : CommandNode R}, d.nodes[i]? = some old →
        old.children.map (d.push parent node).nameAt = old.children.map d.nameAt :=
      fun hold => List.map_congr_left fun child hmem => nameAt_push (hlt hold hmem)
    rcases nodes_push_cases hparent hfound with ⟨-, rfl⟩ | ⟨old, hindex, hold, rfl⟩ | ⟨-, hold⟩
    · rw [hleaf]
      exact List.nodup_nil
    · rw [List.map_append, hsame hold, List.map_singleton, nameAt_push_next hparent]
      refine List.nodup_append.mpr ⟨h.names hold, List.pairwise_singleton _ _, ?_⟩
      rintro a ha b hb rfl
      obtain ⟨child, hmem, hname⟩ := List.mem_map.mp ha
      rw [List.mem_singleton.mp hb] at hname
      rw [hindex] at hold
      have hnode := node_eq_some.mpr ⟨(h.find_valid hpath).1, hold⟩
      unfold findChild at hfresh
      rw [hnode, Option.bind_some, List.find?_eq_none] at hfresh
      exact hfresh child hmem (hasName_iff.mpr hname)
    · rw [hsame hold]
      exact h.names hold
  · intro i hi
    rw [length_push] at hi
    rcases Nat.lt_succ_iff_lt_or_eq.mp hi with hi | rfl
    · obtain ⟨q, hq⟩ := h.reach i hi
      exact ⟨q, h.find_push_old hpath hleaf hq⟩
    · refine ⟨path ++ [node.name], ?_⟩
      rw [h.find_push hpath hleaf hfresh, if_pos rfl]
      rfl

end

end Foton.Brigadier.Arena.CommandDispatcher
