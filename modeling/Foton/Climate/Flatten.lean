import Foton.Climate.Build

/-!
# The flat tree

The array holds every node once, and each subtree node records the range at
which its children stand. A batch of siblings that is still queued knows the
index of its parent, whose range is filled in when the batch is laid out.
-/

namespace Foton.Climate

mutual

/-- The node stands at the index, and its children at the range that it records. -/
def Laid (nodes : List FlatNode) (idx : Nat) : RTreeNode → Prop
  | .leaf ps valueIndex => nodes[idx]? = some (flatNode (.leaf ps valueIndex))
  | .subTree ps children =>
    ∃ start, nodes[idx]? = some (setChildrenStart start (flatNode (.subTree ps children))) ∧ LaidAll nodes start children

def LaidAll (nodes : List FlatNode) (start : Nat) : List RTreeNode → Prop
  | [] => True
  | node :: rest => Laid nodes start node ∧ LaidAll nodes (start + 1) rest

end

theorem laidAll_iff (nodes : List FlatNode) (batch : List RTreeNode) :
    ∀ start, LaidAll nodes start batch ↔ ∀ k node, batch[k]? = some node → Laid nodes (start + k) node := by
  induction batch with
  | nil => simp [LaidAll]
  | cons node rest ih =>
    intro start
    rw [LaidAll, ih]
    constructor
    · intro ⟨hfirst, hrest⟩ k node' hk
      cases k with
      | zero =>
        cases hk
        exact hfirst
      | succ k =>
        rw [← Nat.add_assoc, Nat.add_right_comm]
        exact hrest k node' hk
    · intro h
      refine ⟨h 0 node rfl, fun k node' hk => ?_⟩
      rw [Nat.add_right_comm, Nat.add_assoc]
      exact h (k + 1) node' hk

theorem asU32_of_lt {n : Nat} (h : n < 2 ^ 32) : asU32 n = n := Nat.mod_eq_of_lt h

/-! ## One batch -/

/-- The batches that the children of a batch make. -/
def pendings (base : Nat) : List RTreeNode → List Batch
  | [] => []
  | .leaf _ _ :: batch => pendings (base + 1) batch
  | .subTree _ children :: batch => (children, some (asU32 base)) :: pendings (base + 1) batch

theorem pushBatch_eq (batch : List RTreeNode) : ∀ (nodes : List FlatNode) (queue : List Batch),
    pushBatch batch nodes queue = (nodes ++ batch.map flatNode, queue ++ pendings nodes.length batch) := by
  induction batch with
  | nil =>
    intro nodes queue
    simp [pushBatch, pendings]
  | cons node rest ih =>
    intro nodes queue
    cases node with
    | leaf ps valueIndex =>
      rw [pushBatch, ih]
      simp [pendings]
    | subTree ps children =>
      rw [pushBatch, ih]
      simp [pendings]

theorem exists_of_mem_pendings {batch : List RTreeNode} : ∀ {base : Nat} {b : Batch}, b ∈ pendings base batch →
    ∃ k ps, batch[k]? = some (.subTree ps b.1) ∧ b.2 = some (asU32 (base + k)) := by
  induction batch with
  | nil =>
    intro base b hb
    cases hb
  | cons node rest ih =>
    intro base b hb
    have hrest : b ∈ pendings (base + 1) rest → ∃ k ps, (node :: rest)[k]? = some (.subTree ps b.1) ∧
        b.2 = some (asU32 (base + k)) := by
      intro hmem
      obtain ⟨k, ps, hk, hidx⟩ := ih hmem
      refine ⟨k + 1, ps, hk, ?_⟩
      rw [hidx, Nat.add_right_comm, Nat.add_assoc]
    cases node with
    | leaf ps valueIndex => exact hrest hb
    | subTree ps children =>
      rcases List.mem_cons.mp hb with heq | hmem
      · subst heq
        exact ⟨0, ps, rfl, rfl⟩
      · exact hrest hmem

theorem mem_pendings {batch : List RTreeNode} {ps : ParameterSpace} {children : List RTreeNode} : ∀ {base k : Nat},
    batch[k]? = some (.subTree ps children) → (children, some (asU32 (base + k))) ∈ pendings base batch := by
  induction batch with
  | nil =>
    intro base k hk
    cases hk
  | cons node rest ih =>
    intro base k hk
    cases k with
    | zero =>
      cases hk
      exact List.mem_cons_self
    | succ k =>
      have hrest : (children, some (asU32 (base + (k + 1)))) ∈ pendings (base + 1) rest := by
        rw [← Nat.add_assoc, Nat.add_right_comm]
        exact ih hk
      cases node with
      | leaf ps valueIndex => exact hrest
      | subTree ps' children' => exact List.mem_cons_of_mem _ hrest

/-- The parents that wait for their children. -/
def parents (queue : List Batch) : List Nat := queue.filterMap Prod.snd

theorem mem_parents {queue : List Batch} {p : Nat} : p ∈ parents queue ↔ ∃ batch, (batch, some p) ∈ queue := by
  simp [parents]

theorem parents_pendings {base : Nat} {batch : List RTreeNode} (hfit : base + batch.length ≤ 2 ^ 32) {p : Nat}
    (hp : p ∈ parents (pendings base batch)) : base ≤ p ∧ p < base + batch.length := by
  obtain ⟨children, hmem⟩ := mem_parents.mp hp
  obtain ⟨k, ps, hk, hidx⟩ := exists_of_mem_pendings hmem
  have hlt : k < batch.length := (List.getElem?_eq_some_iff.mp hk).1
  rw [asU32_of_lt (by omega)] at hidx
  cases hidx
  omega

theorem parents_pendings_nodup {batch : List RTreeNode} : ∀ {base : Nat}, base + batch.length ≤ 2 ^ 32 →
    (parents (pendings base batch)).Nodup := by
  induction batch with
  | nil => exact fun _ => List.nodup_nil
  | cons node rest ih =>
    intro base hfit
    rw [List.length_cons] at hfit
    have hnext : base + 1 + rest.length ≤ 2 ^ 32 := by omega
    have hrest := ih hnext
    cases node with
    | leaf ps valueIndex => exact hrest
    | subTree ps children =>
      have hcons : parents (pendings base (.subTree ps children :: rest)) = asU32 base :: parents (pendings (base + 1) rest) := rfl
      rw [hcons, asU32_of_lt (by omega), List.nodup_cons]
      refine ⟨fun hmem => ?_, hrest⟩
      have hrange := parents_pendings (by omega) hmem
      omega

/-! ## Measures of the queue -/

/-- The nodes that are still queued. -/
def weight (queue : List Batch) : Nat := (queue.map fun b => sizes b.1).sum

theorem weight_append (queue queue' : List Batch) : weight (queue ++ queue') = weight queue + weight queue' := by
  simp [weight]

theorem weight_pendings (batch : List RTreeNode) : ∀ base, weight (pendings base batch) + batch.length = sizes batch := by
  induction batch with
  | nil => simp [weight, pendings, sizes]
  | cons node rest ih =>
    intro base
    have hrest := ih (base + 1)
    cases node with
    | leaf ps valueIndex =>
      simp only [pendings, sizes, RTreeNode.size, List.length_cons]
      omega
    | subTree ps children =>
      simp only [pendings, sizes, RTreeNode.size, List.length_cons, weight, List.map_cons, List.sum_cons] at hrest ⊢
      omega

/-- The box and the value index of a node. -/
def FlatNode.leaf (node : FlatNode) : ParameterSpace × Nat :=
  (fun d => { min := node.mins d, max := node.maxs d }, node.valueIndex)

def leafNodes (nodes : List FlatNode) : List (ParameterSpace × Nat) := (nodes.filter FlatNode.isLeaf).map FlatNode.leaf

def flatLeaf (leaf : ParameterSpace × Nat) : ParameterSpace × Nat := (leaf.1, asU32 leaf.2)

def queueLeaves (queue : List Batch) : List (ParameterSpace × Nat) := queue.flatMap fun b => (leavesOf b.1).map flatLeaf

theorem leafNodes_append (nodes nodes' : List FlatNode) : leafNodes (nodes ++ nodes') = leafNodes nodes ++ leafNodes nodes' := by
  simp [leafNodes]

theorem queueLeaves_append (queue queue' : List Batch) :
    queueLeaves (queue ++ queue') = queueLeaves queue ++ queueLeaves queue' := by
  simp [queueLeaves]

theorem leafNodes_modify (nodes : List FlatNode) : ∀ (p start : Nat),
    leafNodes (nodes.modify p (setChildrenStart start)) = leafNodes nodes := by
  induction nodes with
  | nil =>
    intro p start
    cases p <;> rfl
  | cons node rest ih =>
    intro p start
    cases p with
    | zero =>
      have hleaf : (setChildrenStart start node).isLeaf = node.isLeaf := rfl
      rw [List.modify_zero_cons, leafNodes, leafNodes, List.filter_cons, List.filter_cons, hleaf]
      by_cases h : node.isLeaf = true
      · simp [h, FlatNode.leaf, setChildrenStart]
      · simp [h]
    | succ p =>
      have hcons : ∀ rest, leafNodes (node :: rest) = leafNodes [node] ++ leafNodes rest := leafNodes_append [node]
      rw [List.modify_succ_cons, hcons, ih, ← hcons]

theorem isLeaf_flatNode_subTree {ps : ParameterSpace} {children : List RTreeNode} (h : Boxed (.subTree ps children)) :
    (flatNode (.subTree ps children)).isLeaf = false := by
  cases h with
  | subTree htwo hfew _ _ =>
    have hne : asU8 children.length ≠ 0 := by
      unfold asU8
      omega
    simp [flatNode, FlatNode.isLeaf, hne]

theorem leaves_batch {batch : List RTreeNode} : ∀ base, (∀ node ∈ batch, Boxed node) →
    ((leavesOf batch).map flatLeaf).Perm (leafNodes (batch.map flatNode) ++ queueLeaves (pendings base batch)) := by
  induction batch with
  | nil => exact fun _ _ => List.Perm.refl _
  | cons node rest ih =>
    intro base hboxed
    rw [List.forall_mem_cons] at hboxed
    have hrest := ih (base + 1) hboxed.2
    cases node with
    | leaf ps valueIndex => exact hrest.cons _
    | subTree ps children =>
      have hnodes : leafNodes ((RTreeNode.subTree ps children :: rest).map flatNode) = leafNodes (rest.map flatNode) := by
        rw [List.map_cons, leafNodes, List.filter_cons_of_neg (by simp [isLeaf_flatNode_subTree hboxed.1])]
        rfl
      have hqueue : queueLeaves (pendings base (.subTree ps children :: rest)) =
          (leavesOf children).map flatLeaf ++ queueLeaves (pendings (base + 1) rest) := rfl
      rw [hnodes, hqueue, leavesOf, RTreeNode.leaves, List.map_append]
      exact (hrest.append_left _).trans (List.perm_append_comm_assoc _ _ _)

/-! ## The queue -/

/-- What holds of the queue between two batches. -/
structure Queued (queue : List Batch) (nodes : List FlatNode) : Prop where
  nonempty : ∀ b ∈ queue, b.1 ≠ []
  boxed : ∀ b ∈ queue, ∀ node ∈ b.1, Boxed node
  fit : nodes.length + weight queue ≤ 2 ^ 32
  parents_lt : ∀ p ∈ parents queue, p < nodes.length
  nodup : (parents queue).Nodup

/-- What the rest of the loop makes of the queue. -/
structure LaidOut (queue : List Batch) (nodes final : List FlatNode) : Prop where
  length_eq : final.length = nodes.length + weight queue
  kept : ∀ i < nodes.length, i ∉ parents queue → final[i]? = nodes[i]?
  batches : ∀ batch parent, (batch, parent) ∈ queue → ∃ start, LaidAll final start batch ∧
    ∀ p, parent = some p → final[p]? = (nodes[p]?).map (setChildrenStart start)
  next : ∀ batch parent queue', queue = (batch, parent) :: queue' → LaidAll final nodes.length batch
  leaves : (leafNodes final).Perm (leafNodes nodes ++ queueLeaves queue)

section
variable {batch : List RTreeNode} {parent : Option Nat} {queue : List Batch} {nodes : List FlatNode}

/-- The parent of the batch gets the index of its first child. -/
def patched (parent : Option Nat) (nodes : List FlatNode) : List FlatNode :=
  match parent with
  | some p => nodes.modify p (setChildrenStart (asU32 nodes.length))
  | none => nodes

@[simp]
theorem patched_length (parent : Option Nat) (nodes : List FlatNode) : (patched parent nodes).length = nodes.length := by
  cases parent <;> simp [patched]

theorem leafNodes_patched (parent : Option Nat) (nodes : List FlatNode) : leafNodes (patched parent nodes) = leafNodes nodes := by
  cases parent with
  | none => rfl
  | some p => exact leafNodes_modify nodes p _

theorem getElem?_patched_ne {i : Nat} (h : parent ≠ some i) : (patched parent nodes)[i]? = nodes[i]? := by
  cases parent with
  | none => rfl
  | some p =>
    have hne : p ≠ i := fun heq => h (heq ▸ rfl)
    simp [patched, hne]

theorem getElem?_patched_self {p : Nat} :
    (patched (some p) nodes)[p]? = (nodes[p]?).map (setChildrenStart (asU32 nodes.length)) := by
  simp [patched]

theorem flattenQueue_succ (fuel : Nat) :
    flattenQueue (fuel + 1) ((batch, parent) :: queue) nodes =
      flattenQueue fuel (queue ++ pendings nodes.length batch) (patched parent nodes ++ batch.map flatNode) := by
  have hpushed := pushBatch_eq batch (patched parent nodes) queue
  rw [patched_length] at hpushed
  cases parent with
  | none =>
    rw [flattenQueue]
    exact congrArg (fun pushed => flattenQueue fuel pushed.2 pushed.1) hpushed
  | some p =>
    rw [flattenQueue]
    exact congrArg (fun pushed => flattenQueue fuel pushed.2 pushed.1) hpushed

theorem weight_cons : weight ((batch, parent) :: queue) = sizes batch + weight queue := rfl

theorem parents_append (queue queue' : List Batch) : parents (queue ++ queue') = parents queue ++ parents queue' :=
  List.filterMap_append

theorem parents_tail_subset {p : Nat} (h : p ∈ parents queue) : p ∈ parents ((batch, parent) :: queue) := by
  obtain ⟨children, hmem⟩ := mem_parents.mp h
  exact mem_parents.mpr ⟨children, List.mem_cons_of_mem _ hmem⟩

theorem Queued.step (h : Queued ((batch, parent) :: queue) nodes) :
    Queued (queue ++ pendings nodes.length batch) (patched parent nodes ++ batch.map flatNode) := by
  have hweight := weight_pendings batch nodes.length
  have hfit := h.fit
  rw [weight_cons] at hfit
  have hbatch : nodes.length + batch.length ≤ 2 ^ 32 := by omega
  have hboxed := h.boxed _ List.mem_cons_self
  have hchildren : ∀ b ∈ pendings nodes.length batch, 2 ≤ b.1.length ∧ ∀ node ∈ b.1, Boxed node := by
    intro b hb
    obtain ⟨k, ps, hk, _⟩ := exists_of_mem_pendings hb
    cases hboxed _ (List.mem_of_getElem? hk) with
    | subTree htwo _ _ hall => exact ⟨htwo, hall⟩
  refine ⟨?_, ?_, ?_, ?_, ?_⟩
  · intro b hb
    rcases List.mem_append.mp hb with hb | hb
    · exact h.nonempty b (List.mem_cons_of_mem _ hb)
    · intro hnil
      have htwo := (hchildren b hb).1
      rw [hnil] at htwo
      simp at htwo
  · intro b hb
    rcases List.mem_append.mp hb with hb | hb
    · exact h.boxed b (List.mem_cons_of_mem _ hb)
    · exact (hchildren b hb).2
  · rw [weight_append, List.length_append, patched_length, List.length_map]
    omega
  · intro p hp
    rw [parents_append] at hp
    rw [List.length_append, patched_length, List.length_map]
    rcases List.mem_append.mp hp with hp | hp
    · have hlt := h.parents_lt p (parents_tail_subset hp)
      omega
    · exact (parents_pendings hbatch hp).2
  · rw [parents_append, List.nodup_append]
    have htail : (parents queue).Nodup := h.nodup.sublist ((List.sublist_cons_self _ _).filterMap _)
    refine ⟨htail, parents_pendings_nodup hbatch, ?_⟩
    intro p hp q hq heq
    have hlt := h.parents_lt p (parents_tail_subset hp)
    have hge := parents_pendings hbatch hq
    omega

/-- The nodes of the batch stand side by side once their own children are laid out. -/
theorem laidAll_batch {final : List FlatNode} (h : Queued ((batch, parent) :: queue) nodes)
    (hout : LaidOut (queue ++ pendings nodes.length batch) (patched parent nodes ++ batch.map flatNode) final) :
    LaidAll final nodes.length batch := by
  have hweight := weight_pendings batch nodes.length
  have hfit := h.fit
  rw [weight_cons] at hfit
  rw [laidAll_iff]
  intro k node hk
  have hlt : k < batch.length := (List.getElem?_eq_some_iff.mp hk).1
  have hpushed : (patched parent nodes ++ batch.map flatNode)[nodes.length + k]? = some (flatNode node) := by
    rw [List.getElem?_append_right (by simp), patched_length, Nat.add_sub_cancel_left, List.getElem?_map, hk]
    rfl
  have hidx : asU32 (nodes.length + k) = nodes.length + k := asU32_of_lt (by omega)
  cases node with
  | leaf ps valueIndex =>
    rw [Laid, ← hpushed]
    apply hout.kept
    · simp
      omega
    · intro hmem
      rw [parents_append] at hmem
      rcases List.mem_append.mp hmem with hmem | hmem
      · have hold := h.parents_lt _ (parents_tail_subset hmem)
        omega
      · obtain ⟨children, hmem⟩ := mem_parents.mp hmem
        obtain ⟨k', ps', hk', hparent⟩ := exists_of_mem_pendings hmem
        have hlt' : k' < batch.length := (List.getElem?_eq_some_iff.mp hk').1
        rw [asU32_of_lt (by omega)] at hparent
        have heq : k = k' := Nat.add_left_cancel (Option.some.inj hparent)
        rw [← heq, hk] at hk'
        cases hk'
  | subTree ps children =>
    have hmem : (children, some (asU32 (nodes.length + k))) ∈ pendings nodes.length batch := mem_pendings hk
    rw [hidx] at hmem
    obtain ⟨start, hall, hparent⟩ := hout.batches _ _ (List.mem_append_right queue hmem)
    rw [Laid]
    refine ⟨start, ?_, hall⟩
    rw [hparent _ rfl, hpushed]
    rfl

theorem LaidOut.step {final : List FlatNode} (h : Queued ((batch, parent) :: queue) nodes)
    (hout : LaidOut (queue ++ pendings nodes.length batch) (patched parent nodes ++ batch.map flatNode) final) :
    LaidOut ((batch, parent) :: queue) nodes final := by
  have hweight := weight_pendings batch nodes.length
  have hfit := h.fit
  rw [weight_cons] at hfit
  have hbatch : nodes.length + batch.length ≤ 2 ^ 32 := by omega
  have hfirst := laidAll_batch h hout
  -- nodes before the batch wait only where they waited before it
  have hold : ∀ i < nodes.length, i ∉ parents queue → final[i]? = (patched parent nodes)[i]? := by
    intro i hi hnot
    rw [hout.kept i (by simp; omega), List.getElem?_append_left (by simpa using hi)]
    rw [parents_append]
    intro hmem
    rcases List.mem_append.mp hmem with hmem | hmem
    · exact hnot hmem
    · have hge := parents_pendings hbatch hmem
      omega
  refine ⟨?_, ?_, ?_, ?_, ?_⟩
  · rw [hout.length_eq, weight_append, List.length_append, patched_length, List.length_map, weight_cons]
    omega
  · intro i hi hnot
    rw [hold i hi fun hmem => hnot (parents_tail_subset hmem)]
    apply getElem?_patched_ne
    intro heq
    exact hnot (mem_parents.mpr ⟨batch, heq ▸ List.mem_cons_self⟩)
  · intro batch' parent' hmem
    rcases List.mem_cons.mp hmem with heq | hmem
    · cases heq
      refine ⟨nodes.length, hfirst, ?_⟩
      intro p hp
      subst hp
      have hlt := h.parents_lt p (mem_parents.mpr ⟨batch, List.mem_cons_self⟩)
      have hnot : p ∉ parents queue := (List.nodup_cons.mp h.nodup).1
      rw [hold p hlt hnot, getElem?_patched_self, asU32_of_lt]
      have hsome : 0 < batch.length := List.length_pos_iff.mpr (h.nonempty _ List.mem_cons_self)
      omega
    · obtain ⟨start, hall, hparent⟩ := hout.batches batch' parent' (List.mem_append_left _ hmem)
      refine ⟨start, hall, ?_⟩
      intro p hp
      subst hp
      have hwaits : p ∈ parents queue := mem_parents.mpr ⟨batch', hmem⟩
      have hlt := h.parents_lt p (parents_tail_subset hwaits)
      have hne : parent ≠ some p := by
        intro heq
        subst heq
        exact (List.nodup_cons.mp h.nodup).1 hwaits
      rw [hparent p rfl, List.getElem?_append_left (by simpa using hlt), getElem?_patched_ne hne]
  · intro batch' parent' queue' heq
    cases heq
    exact hfirst
  · have hleaves := leaves_batch nodes.length (h.boxed _ List.mem_cons_self)
    have hcons : queueLeaves ((batch, parent) :: queue) = (leavesOf batch).map flatLeaf ++ queueLeaves queue := rfl
    apply hout.leaves.trans
    rw [leafNodes_append, leafNodes_patched, queueLeaves_append, hcons, List.append_assoc]
    apply List.Perm.append_left
    have hswap : (leafNodes (batch.map flatNode) ++ (queueLeaves queue ++ queueLeaves (pendings nodes.length batch))).Perm
        (leafNodes (batch.map flatNode) ++ queueLeaves (pendings nodes.length batch) ++ queueLeaves queue) := by
      rw [List.append_assoc]
      exact List.perm_append_comm.append_left _
    exact hswap.trans (hleaves.symm.append_right _)

end

theorem laidOut_nil (nodes : List FlatNode) : LaidOut [] nodes nodes where
  length_eq := rfl
  kept := fun _ _ _ => rfl
  batches := by
    intro batch parent hmem
    cases hmem
  next := by
    intro batch parent queue' heq
    cases heq
  leaves := by simp [queueLeaves]

theorem sizes_pos {batch : List RTreeNode} (h : batch ≠ []) : 0 < sizes batch := by
  cases batch with
  | nil => exact absurd rfl h
  | cons node rest =>
    rw [sizes]
    cases node with
    | leaf ps valueIndex =>
      rw [RTreeNode.size]
      omega
    | subTree ps children =>
      rw [RTreeNode.size]
      omega

theorem flattenQueue_laidOut : ∀ {fuel : Nat} {queue : List Batch} {nodes : List FlatNode}, Queued queue nodes →
    weight queue ≤ fuel → LaidOut queue nodes (flattenQueue fuel queue nodes) := by
  intro fuel
  induction fuel with
  | zero =>
    intro queue nodes h hfuel
    cases queue with
    | nil => exact laidOut_nil nodes
    | cons b queue =>
      have hpos := sizes_pos (h.nonempty b List.mem_cons_self)
      have hcons : weight (b :: queue) = sizes b.1 + weight queue := rfl
      omega
  | succ fuel ih =>
    intro queue nodes h hfuel
    cases queue with
    | nil => exact laidOut_nil nodes
    | cons b queue =>
      obtain ⟨batch, parent⟩ := b
      rw [flattenQueue_succ]
      have hweight := weight_pendings batch nodes.length
      have hsome : 0 < batch.length := List.length_pos_iff.mpr (h.nonempty _ List.mem_cons_self)
      rw [weight_cons] at hfuel
      apply LaidOut.step h
      apply ih h.step
      rw [weight_append]
      omega

/-! ## The whole tree -/

mutual

theorem size_le : ∀ {root : RTreeNode}, Boxed root → root.size + 1 ≤ 2 * root.leaves.length
  | .leaf _ _, _ => by simp [RTreeNode.size, RTreeNode.leaves]
  | .subTree _ children, .subTree htwo _ _ hchildren => by
    have hle := sizes_le hchildren
    rw [RTreeNode.size, RTreeNode.leaves]
    omega

theorem sizes_le : ∀ {children : List RTreeNode}, (∀ child ∈ children, Boxed child) →
    sizes children + children.length ≤ 2 * (leavesOf children).length
  | [], _ => by simp [sizes]
  | child :: rest, h => by
    have hchild := size_le (h child List.mem_cons_self)
    have hrest := sizes_le fun c hc => h c (List.mem_cons_of_mem _ hc)
    rw [sizes, leavesOf, List.length_cons, List.length_append]
    omega

end

mutual

theorem leaves_length_le : ∀ root : RTreeNode, root.leaves.length ≤ root.size
  | .leaf _ _ => le_rfl
  | .subTree _ children => by
    have hle := leavesOf_length_le children
    rw [RTreeNode.size, RTreeNode.leaves]
    omega

theorem leavesOf_length_le : ∀ children : List RTreeNode, (leavesOf children).length ≤ sizes children
  | [] => le_rfl
  | child :: rest => by
    have hchild := leaves_length_le child
    have hrest := leavesOf_length_le rest
    rw [sizes, leavesOf, List.length_append]
    omega

end

theorem flattenTree_spec {root : RTreeNode} (hboxed : Boxed root) (hfit : root.size ≤ 2 ^ 32) :
    Laid (flattenTree root) 0 root ∧ (flattenTree root).length = root.size ∧
      (leafNodes (flattenTree root)).Perm (root.leaves.map flatLeaf) := by
  have hweight : weight [([root], (none : Option Nat))] = root.size := by simp [weight, sizes]
  have hqueued : Queued [([root], none)] [] := by
    refine ⟨by simp, by simpa using hboxed, ?_, by simp [parents], by simp [parents]⟩
    rw [hweight]
    simpa using hfit
  have hout := flattenQueue_laidOut hqueued hweight.le
  refine ⟨?_, ?_, ?_⟩
  · have hroot := hout.next _ _ _ rfl
    rw [LaidAll] at hroot
    exact hroot.1
  · have hlength := hout.length_eq
    rw [hweight] at hlength
    simpa [flattenTree] using hlength
  · have hleaves := hout.leaves
    simpa [flattenTree, queueLeaves, leavesOf, leafNodes] using hleaves

end Foton.Climate
