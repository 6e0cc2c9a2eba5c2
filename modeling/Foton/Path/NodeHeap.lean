import Foton.Lib.AssocList
import Foton.Lib.Run
import Foton.Lib.SiftHeap
import Mathlib.Algebra.Ring.Nat
import Mathlib.Order.WithBot

/-!
# The open set of the path search

A binary heap of node hashes beside the store of the nodes; each node in the heap
knows its index there. Insertion, removal of the cheapest node and a change of a
node's cost each sift one hash to its place.
-/

namespace Foton.Path

/-- A node, by what the search keeps in it. `K` is the type of hashes and `F` that of costs. -/
structure Node (K F : Type) where
  x : Int
  y : Int
  z : Int
  hash : K
  heapIdx : Int
  g : F
  h : F
  f : F
  cameFrom : Option K
  closed : Bool
  walkedDistance : F
  costMalus : F

def Node.inOpenSet {K F : Type} (node : Node K F) : Bool := 0 ≤ node.heapIdx

abbrev NodeStore (K F : Type) : Type := AssocList K (Node K F)

/-- The heap and the store that its methods are given. -/
structure OpenSet (K F : Type) where
  heap : List K
  nodes : NodeStore K F

namespace OpenSet

variable {K F : Type} [DecidableEq K]

/-- `set_heap_idx`. The index must be an `i32`. -/
def setHeapIdx (nodes : NodeStore K F) (hash : K) (index : Nat) : Bool × NodeStore K F :=
  if index < 2 ^ 31 then
    match nodes.lookup hash with
    | some node => (true, nodes.insert hash { node with heapIdx := index })
    | none => (false, nodes)
  else (false, nodes)

def setHeapIdxToRemoved (nodes : NodeStore K F) (hash : K) : NodeStore K F :=
  match nodes.lookup hash with
  | some node => nodes.insert hash { node with heapIdx := -1 }
  | none => nodes

/-- `heap[index] = hash`, and the node is told. -/
def place (s : OpenSet K F) (index : Nat) (hash : K) : Bool × OpenSet K F :=
  let (ok, nodes) := setHeapIdx s.nodes hash index
  (ok, ⟨s.heap.set index hash, nodes⟩)

theorem place_length (s : OpenSet K F) (index : Nat) (hash : K) : (s.place index hash).2.heap.length = s.heap.length :=
  List.length_set

def clear (s : OpenSet K F) : OpenSet K F := ⟨[], s.heap.foldl setHeapIdxToRemoved s.nodes⟩

variable [LinearOrder F]

/-- The loop of `up_heap`: `hash` rises from the hole at `index`. -/
def upHeapFrom (s : OpenSet K F) (hash : K) (cost : F) (index : Nat) : Bool × OpenSet K F :=
  if _ : 0 < index then
    let parentIndex := (index - 1) / 2
    match s.heap[parentIndex]? with
    | none => (false, s)
    | some parentHash =>
      match s.nodes.lookup parentHash with
      | none => (false, s)
      | some parent =>
        if parent.f ≤ cost then s.place index hash
        else
          match s.place index parentHash with
          | (false, s) => (false, s)
          | (true, s) => upHeapFrom s hash cost parentIndex
  else s.place index hash
termination_by index
decreasing_by omega

def upHeap (s : OpenSet K F) (index : Nat) : Bool × OpenSet K F :=
  match s.heap[index]? with
  | none => (false, s)
  | some hash =>
    match s.nodes.lookup hash with
    | none => (false, s)
    | some node => s.upHeapFrom hash node.f index

/-- The child that may take the place of its parent: the right one when it does not cost more. -/
def cheaperChild (s : OpenSet K F) (leftIndex : Nat) (left : K) (leftCost : F) : Nat × K × F :=
  match (s.heap[leftIndex + 1]?).bind fun hash => (s.nodes.lookup hash).map fun node => (hash, node.f) with
  | some (right, rightCost) => if rightCost ≤ leftCost then (leftIndex + 1, right, rightCost) else (leftIndex, left, leftCost)
  | none => (leftIndex, left, leftCost)

theorem cheaperChild_index (s : OpenSet K F) (leftIndex : Nat) (left : K) (leftCost : F) :
    leftIndex ≤ (s.cheaperChild leftIndex left leftCost).1 := by
  unfold cheaperChild
  split
  · split
    · exact Nat.le_succ _
    · exact Nat.le_refl _
  · exact Nat.le_refl _

/-- The loop of `down_heap`: `hash` sinks from the hole at `index`. -/
def downHeapFrom (s : OpenSet K F) (hash : K) (cost : F) (index : Nat) : Bool × OpenSet K F :=
  let leftIndex := 1 + 2 * index
  if _ : leftIndex < s.heap.length then
    match s.heap[leftIndex]? with
    | none => (false, s)
    | some leftHash =>
      match s.nodes.lookup leftHash with
      | none => (false, s)
      | some left =>
        let child := s.cheaperChild leftIndex leftHash left.f
        if cost ≤ child.2.2 then s.place index hash
        else if (s.place index child.2.1).1 then downHeapFrom (s.place index child.2.1).2 hash cost child.1
        else (false, (s.place index child.2.1).2)
  else s.place index hash
termination_by s.heap.length - index
decreasing_by
  have hindex := s.cheaperChild_index (1 + 2 * index) leftHash left.f
  have hlength := s.place_length index (s.cheaperChild (1 + 2 * index) leftHash left.f).2.1
  omega

def downHeap (s : OpenSet K F) (index : Nat) : Bool × OpenSet K F :=
  match s.heap[index]? with
  | none => (false, s)
  | some hash =>
    match s.nodes.lookup hash with
    | none => (false, s)
    | some node => s.downHeapFrom hash node.f index

def insert (s : OpenSet K F) (hash : K) : Bool × OpenSet K F :=
  match s.nodes.lookup hash with
  | none => (false, s)
  | some node =>
    if node.inOpenSet then (false, s)
    else
      let index := s.heap.length
      match setHeapIdx s.nodes hash index with
      | (false, nodes) => (false, ⟨s.heap ++ [hash], nodes⟩)
      | (true, nodes) => upHeap ⟨s.heap ++ [hash], nodes⟩ index

def pop (s : OpenSet K F) : Option K × OpenSet K F :=
  match s.heap with
  | [] => (none, s)
  | popped :: rest =>
    let last := (popped :: rest).getLast (List.cons_ne_nil _ _)
    match (popped :: rest).dropLast with
    | [] => (some popped, ⟨[], setHeapIdxToRemoved s.nodes popped⟩)
    | _ :: kept =>
      match setHeapIdx s.nodes last 0 with
      | (false, nodes) => (none, ⟨last :: kept, nodes⟩)
      | (true, nodes) =>
        match downHeap ⟨last :: kept, nodes⟩ 0 with
        | (false, s) => (none, s)
        | (true, s) => (some popped, { s with nodes := setHeapIdxToRemoved s.nodes popped })

def changeCost (s : OpenSet K F) (hash : K) (newCost : F) : Bool × OpenSet K F :=
  match s.nodes.lookup hash with
  | none => (false, s)
  | some node =>
    let changed : OpenSet K F := { s with nodes := s.nodes.insert hash { node with f := newCost } }
    if node.heapIdx < 0 then (false, changed)
    else if s.heap[node.heapIdx.toNat]? ≠ some hash then (false, changed)
    else if newCost < node.f then changed.upHeap node.heapIdx.toNat
    else changed.downHeap node.heapIdx.toNat

end OpenSet

/-! ## Back pointers -/

/-- The node without its index. -/
def Node.forget {K F : Type} (node : Node K F) : Node K F := { node with heapIdx := 0 }

/-- What the heap needs of a node. -/
def Node.place {K F : Type} (node : Node K F) : Int × F := (node.heapIdx, node.f)

/-- The stores differ in indices alone. -/
def Reindexed {K F : Type} [DecidableEq K] (nodes nodes' : NodeStore K F) : Prop :=
  ∀ k, (nodes'.lookup k).map Node.forget = (nodes.lookup k).map Node.forget

namespace Reindexed

variable {K F : Type} [DecidableEq K] {nodes nodes' nodes'' : NodeStore K F} {k : K}

theorem refl : Reindexed nodes nodes := fun _ => rfl

theorem trans (h : Reindexed nodes nodes') (h' : Reindexed nodes' nodes'') : Reindexed nodes nodes'' :=
  fun k => (h' k).trans (h k)

theorem insert {node : Node K F} (hnode : nodes.lookup k = some node) (index : Int) :
    Reindexed nodes (nodes.insert k { node with heapIdx := index }) := by
  intro q
  rw [AssocList.lookup_insert]
  split
  · rename_i heq
    rw [heq, hnode]
    rfl
  · rfl

theorem isSome (h : Reindexed nodes nodes') : (nodes'.lookup k).isSome = (nodes.lookup k).isSome := by
  have hk := congrArg Option.isSome (h k)
  rw [Option.isSome_map, Option.isSome_map] at hk
  exact hk

/-- Everything but the index can be read from either store. -/
theorem read {α : Type} (h : Reindexed nodes nodes') (f : Node K F → α) (hf : ∀ node, f node.forget = f node) :
    (nodes'.lookup k).map f = (nodes.lookup k).map f := by
  have hk := congrArg (Option.map f) (h k)
  rw [Option.map_map, Option.map_map] at hk
  have hcomp : f ∘ Node.forget = f := funext hf
  rw [hcomp] at hk
  exact hk

theorem lookup (h : Reindexed nodes nodes') {node : Node K F} (hnode : nodes.lookup k = some node) :
    ∃ index, nodes'.lookup k = some { node with heapIdx := index } := by
  have hk := h k
  rw [hnode, Option.map_some] at hk
  obtain ⟨node', hnode', heq⟩ := Option.map_eq_some_iff.mp hk
  refine ⟨node'.heapIdx, hnode'.trans (congrArg some ?_)⟩
  have hsame := congrArg (fun n : Node K F => { n with heapIdx := node'.heapIdx }) heq
  exact hsame

end Reindexed

/-- Nodes out of the heap keep their index as well. -/
def Untouched {K F : Type} [DecidableEq K] (heap : List K) (nodes nodes' : NodeStore K F) : Prop :=
  ∀ k, k ∉ heap → nodes'.lookup k = nodes.lookup k

theorem Untouched.insert {K F : Type} [DecidableEq K] {heap : List K} {nodes : NodeStore K F} {k : K} {node : Node K F}
    (hmem : k ∈ heap) : Untouched heap nodes (nodes.insert k node) := by
  intro q hq
  rw [AssocList.lookup_insert, if_neg]
  rintro rfl
  exact hq hmem

namespace OpenSet

variable {K F : Type} [DecidableEq K] {s s' : OpenSet K F} {i j : Nat} {k q : K}

/-- The cost of a hash; one without a node costs more than any. -/
def costOf (nodes : NodeStore K F) (k : K) : WithTop F := ((nodes.lookup k).map Node.f).elim ⊤ WithTop.some

/-- The costs of the entries of a heap. -/
def costs (nodes : NodeStore K F) (heap : List K) (j : Nat) : WithTop F := (heap[j]?).elim ⊤ (costOf nodes)

theorem costOf_reindexed {nodes nodes' : NodeStore K F} (h : Reindexed nodes nodes') : costOf nodes' k = costOf nodes k := by
  unfold costOf
  rw [h.read Node.f fun _ => rfl]

theorem costs_reindexed {nodes nodes' : NodeStore K F} (h : Reindexed nodes nodes') (heap : List K) :
    costs nodes' heap = costs nodes heap := by
  funext j
  unfold costs
  cases heap[j]? with
  | none => rfl
  | some k => exact costOf_reindexed h

/-- Each entry's node has the index of the entry. -/
structure Indexed (s : OpenSet K F) : Prop where
  small : s.heap.length ≤ 2 ^ 31
  nodup : s.heap.Nodup
  known : ∀ q ∈ s.heap, (s.nodes.lookup q).isSome = true
  index : ∀ {j : Nat} {q n}, s.heap[j]? = some q → s.nodes.lookup q = some n → n.heapIdx = j

/-- The entry `k` is out of the heap, which has a hole at `i` for it. -/
structure Sifting (s : OpenSet K F) (i : Nat) (k : K) : Prop where
  lt : i < s.heap.length
  small : s.heap.length ≤ 2 ^ 31
  nodup : (s.heap.set i k).Nodup
  known : ∀ q ∈ s.heap.set i k, (s.nodes.lookup q).isSome = true
  index : ∀ {j : Nat} {q node}, j ≠ i → s.heap[j]? = some q → s.nodes.lookup q = some node → node.heapIdx = j

theorem setHeapIdx_ok {nodes : NodeStore K F} {node : Node K F} (hi : i < 2 ^ 31) (hnode : nodes.lookup k = some node) :
    setHeapIdx nodes k i = (true, nodes.insert k { node with heapIdx := i }) := by
  unfold setHeapIdx
  rw [if_pos hi, hnode]

theorem place_ok {node : Node K F} (hi : i < 2 ^ 31) (hnode : s.nodes.lookup k = some node) :
    s.place i k = (true, ⟨s.heap.set i k, s.nodes.insert k { node with heapIdx := i }⟩) := by
  unfold place
  rw [setHeapIdx_ok hi hnode]

/-- The entry is at no other place. -/
theorem Sifting.ne (h : Sifting s i k) (hji : j ≠ i) (hj : s.heap[j]? = some q) : q ≠ k := by
  intro heq
  have hself : (s.heap.set i k)[i]? = some k := List.getElem?_set_self h.lt
  have hother : (s.heap.set i k)[j]? = some q := by rw [List.getElem?_set_ne (Ne.symm hji), hj]
  have hlength : i < (s.heap.set i k).length := by rw [List.length_set]; exact h.lt
  exact hji ((List.getElem?_inj hlength h.nodup).mp (by rw [hself, hother, heq])).symm

/-- The entry takes the hole. -/
theorem Sifting.fill (h : Sifting s i k) : ∃ s', s.place i k = (true, s') ∧ Indexed s' ∧ s'.heap = s.heap.set i k ∧
    Reindexed s.nodes s'.nodes ∧ Untouched (s.heap.set i k) s.nodes s'.nodes := by
  have hlt := h.lt
  have hsmall := h.small
  obtain ⟨node, hnode⟩ := Option.isSome_iff_exists.mp (h.known k (List.mem_set h.lt k))
  refine ⟨_, place_ok (by omega) hnode, ⟨?_, h.nodup, fun q hq => ?_, fun {j q node'} hj hq => ?_⟩,
    rfl, .insert hnode _, .insert (List.mem_set h.lt k)⟩
  · rw [List.length_set]
    exact h.small
  · rw [(Reindexed.insert hnode _).isSome]
    exact h.known q hq
  · dsimp only at hj hq
    rw [AssocList.lookup_insert] at hq
    by_cases hji : j = i
    · subst hji
      rw [List.getElem?_set_self h.lt] at hj
      rw [if_pos (Option.some.inj hj).symm] at hq
      rw [← Option.some.inj hq]
    · rw [List.getElem?_set_ne (Ne.symm hji)] at hj
      rw [if_neg (h.ne hji hj)] at hq
      exact h.index hji hj hq

/-- Another entry takes the hole, and leaves its own place as the hole. -/
theorem Sifting.move (h : Sifting s i k) (hji : j ≠ i) (hj : s.heap[j]? = some q) :
    ∃ s', s.place i q = (true, s') ∧ Sifting s' j k ∧ Reindexed s.nodes s'.nodes ∧
      Untouched (s.heap.set i k) s.nodes s'.nodes ∧
      (s'.heap.set j k).Perm (s.heap.set i k) ∧ s'.heap.length = s.heap.length ∧
      costs s'.nodes (s'.heap.set j k) = SiftHeap.exchange (costs s.nodes (s.heap.set i k)) i j := by
  have hlt := h.lt
  have hsmall := h.small
  have hjlt : j < s.heap.length := (List.getElem?_eq_some_iff.mp hj).1
  have hset : (s.heap.set i k)[j]? = some q := by rw [List.getElem?_set_ne (Ne.symm hji), hj]
  have hqmem : q ∈ s.heap.set i k := List.mem_of_getElem? hset
  obtain ⟨node, hnode⟩ := Option.isSome_iff_exists.mp (h.known q hqmem)
  have hperm : ((s.heap.set i q).set j k).Perm (s.heap.set i k) := by
    have hi' : i < (s.heap.set i k).length := by rw [List.length_set]; exact hlt
    have hj' : j < (s.heap.set i k).length := by rw [List.length_set]; exact hjlt
    have hswap := List.set_set_perm hi' hj'
    rw [List.getElem_set_self, (List.getElem?_eq_some_iff.mp hset).2, List.set_set] at hswap
    exact hswap
  have hcosts : costs s.nodes ((s.heap.set i q).set j k) = SiftHeap.exchange (costs s.nodes (s.heap.set i k)) i j := by
    funext l
    unfold SiftHeap.exchange costs
    by_cases hli : l = i
    · subst hli
      rw [if_pos rfl, List.getElem?_set_ne hji, List.getElem?_set_self hlt, hset]
    · rw [if_neg hli]
      by_cases hlj : l = j
      · subst hlj
        rw [if_pos rfl, List.getElem?_set_self (by rw [List.length_set]; exact hjlt), List.getElem?_set_self hlt]
      · rw [if_neg hlj, List.getElem?_set_ne (Ne.symm hlj), List.getElem?_set_ne (Ne.symm hli),
          List.getElem?_set_ne (Ne.symm hli)]
  refine ⟨_, place_ok (by omega) hnode, ⟨?_, ?_, hperm.nodup_iff.mpr h.nodup, fun q' hq' => ?_,
    fun {l q' node'} hl hq' hnode' => ?_⟩, .insert hnode _, .insert hqmem, hperm, List.length_set, ?_⟩
  · rw [List.length_set]
    exact hjlt
  · rw [List.length_set]
    exact hsmall
  · rw [(Reindexed.insert hnode _).isSome]
    exact h.known q' (hperm.mem_iff.mp hq')
  · dsimp only at hq' hnode'
    rw [AssocList.lookup_insert] at hnode'
    by_cases hli : l = i
    · subst hli
      rw [List.getElem?_set_self hlt] at hq'
      rw [if_pos (Option.some.inj hq').symm] at hnode'
      rw [← Option.some.inj hnode']
    · rw [List.getElem?_set_ne (Ne.symm hli)] at hq'
      have hne : q' ≠ q := by
        intro heq
        have hget : (s.heap.set i k)[l]? = some q' := by rw [List.getElem?_set_ne (Ne.symm hli), hq']
        exact hl ((List.getElem?_inj (List.getElem?_eq_some_iff.mp hget).1 h.nodup).mp (by rw [hget, hset, heq]))
      rw [if_neg hne] at hnode'
      exact h.index hli hq' hnode'
  · dsimp only
    rw [costs_reindexed (.insert hnode _), hcosts]

variable [LinearOrder F]

structure Valid (s : OpenSet K F) : Prop extends Indexed s where
  heaped : SiftHeap.Heaped (costs s.nodes s.heap)
  absent : ∀ {q n}, s.nodes.lookup q = some n → q ∉ s.heap → n.heapIdx = -1

/-! ## Sifting -/

/-- What a sift leaves. -/
structure Sifted (s : OpenSet K F) (heap : List K) (s' : OpenSet K F) : Prop where
  indexed : Indexed s'
  heaped : SiftHeap.Heaped (costs s'.nodes s'.heap)
  perm : s'.heap.Perm heap
  reindexed : Reindexed s.nodes s'.nodes
  untouched : Untouched heap s.nodes s'.nodes

theorem Sifted.after {heap heap' : List K} {s₁ : OpenSet K F} (h : Sifted s₁ heap' s') (hreindexed : Reindexed s.nodes s₁.nodes)
    (huntouched : Untouched heap s.nodes s₁.nodes) (hperm : heap'.Perm heap) : Sifted s heap s' where
  indexed := h.indexed
  heaped := h.heaped
  perm := h.perm.trans hperm
  reindexed := hreindexed.trans h.reindexed
  untouched q hq := (h.untouched q fun hmem => hq (hperm.mem_iff.mp hmem)).trans (huntouched q hq)

theorem Sifting.settle (h : Sifting s i k) (hheaped : SiftHeap.Heaped (costs s.nodes (s.heap.set i k))) :
    ∃ s', s.place i k = (true, s') ∧ Sifted s (s.heap.set i k) s' := by
  obtain ⟨s', hplace, hindexed, hheap, hreindexed, huntouched⟩ := h.fill
  refine ⟨s', hplace, hindexed, ?_, by rw [hheap], hreindexed, huntouched⟩
  rw [costs_reindexed hreindexed, hheap]
  exact hheaped

omit [LinearOrder F] in
theorem costs_of_lookup {nodes : NodeStore K F} {heap : List K} {node : Node K F} (hj : heap[j]? = some q)
    (hnode : nodes.lookup q = some node) : costs nodes heap j = node.f := by
  unfold costs costOf
  rw [hj, Option.elim_some, hnode]
  rfl

omit [LinearOrder F] in
theorem costs_end {nodes : NodeStore K F} {l : List K} (hj : l.length ≤ j) : costs nodes l j = ⊤ := by
  unfold costs
  rw [List.getElem?_eq_none hj]
  rfl

theorem upHeapFrom_spec (i : Nat) {s : OpenSet K F} (h : Sifting s i k) {node : Node K F}
    (hnode : s.nodes.lookup k = some node) (hup : SiftHeap.UpTo (costs s.nodes (s.heap.set i k)) i) :
    ∃ s', s.upHeapFrom k node.f i = (true, s') ∧ Sifted s (s.heap.set i k) s' := by
  induction i using Nat.strongRecOn generalizing s node with
  | ind i ih =>
    have hself : costs s.nodes (s.heap.set i k) i = node.f := costs_of_lookup (List.getElem?_set_self h.lt) hnode
    unfold upHeapFrom
    by_cases hpos : 0 < i
    · rw [dif_pos hpos]
      have hp : (i - 1) / 2 < i := SiftHeap.parent_lt hpos
      have hlt := h.lt
      have hget : s.heap[(i - 1) / 2]? = some s.heap[(i - 1) / 2] := List.getElem?_eq_getElem (by omega)
      generalize s.heap[(i - 1) / 2] = q at hget
      have hset : (s.heap.set i k)[(i - 1) / 2]? = some q := by rw [List.getElem?_set_ne (by omega), hget]
      obtain ⟨parent, hparent⟩ := Option.isSome_iff_exists.mp (h.known q (List.mem_of_getElem? hset))
      have hcost : costs s.nodes (s.heap.set i k) ((i - 1) / 2) = parent.f := costs_of_lookup hset hparent
      dsimp only
      rw [hget]
      dsimp only
      rw [hparent]
      dsimp only
      by_cases hle : parent.f ≤ node.f
      · rw [if_pos hle]
        apply h.settle
        apply hup.heaped
        intro _
        rw [hself]
        exact hcost.le.trans (WithTop.coe_le_coe.mpr hle)
      · rw [if_neg hle]
        obtain ⟨s₁, hplace, hsifting, hreindexed, huntouched, hperm, hlength, hcosts⟩ := h.move (by omega) hget
        rw [hplace]
        dsimp only
        obtain ⟨index, hnode₁⟩ := hreindexed.lookup hnode
        have hstep := hup.step hpos (by
          rw [hself]
          exact (WithTop.coe_le_coe.mpr (le_of_not_ge hle)).trans hcost.ge)
        obtain ⟨s', hrun, hsifted⟩ := ih ((i - 1) / 2) hp hsifting hnode₁ (by rw [hcosts]; exact hstep)
        exact ⟨s', hrun, hsifted.after hreindexed huntouched hperm⟩
    · rw [dif_neg hpos]
      exact h.settle (hup.heaped fun hpos' => absurd hpos' hpos)

/-- The child that `down_heap` compares with is an entry, and the cheapest child. -/
theorem cheaperChild_spec {s : OpenSet K F} {l : Nat} {left : K} {leftNode : Node K F} (hget : s.heap[l]? = some left)
    (hleft : s.nodes.lookup left = some leftNode) :
    ∃ c q node, s.cheaperChild l left leftNode.f = (c, q, node.f) ∧ (c = l ∨ c = l + 1) ∧ s.heap[c]? = some q ∧
      s.nodes.lookup q = some node ∧ costs s.nodes s.heap c ≤ costs s.nodes s.heap l ∧
      costs s.nodes s.heap c ≤ costs s.nodes s.heap (l + 1) := by
  have hcost := costs_of_lookup hget hleft
  unfold cheaperChild
  cases hright : s.heap[l + 1]? with
  | none =>
    have htop : costs s.nodes s.heap (l + 1) = ⊤ := costs_end (List.getElem?_eq_none_iff.mp hright)
    exact ⟨l, left, leftNode, rfl, .inl rfl, hget, hleft, le_refl _, by rw [htop]; exact le_top⟩
  | some right =>
    rw [Option.bind_some]
    cases hnode : s.nodes.lookup right with
    | none =>
      have htop : costs s.nodes s.heap (l + 1) = ⊤ := by
        unfold costs costOf
        rw [hright, Option.elim_some, hnode]
        rfl
      exact ⟨l, left, leftNode, rfl, .inl rfl, hget, hleft, le_refl _, by rw [htop]; exact le_top⟩
    | some rightNode =>
      have hcost' := costs_of_lookup hright hnode
      rw [Option.map_some]
      dsimp only
      by_cases hle : rightNode.f ≤ leftNode.f
      · rw [if_pos hle]
        refine ⟨l + 1, right, rightNode, rfl, .inr rfl, hright, hnode, ?_, le_refl _⟩
        rw [hcost, hcost']
        exact WithTop.coe_le_coe.mpr hle
      · rw [if_neg hle]
        refine ⟨l, left, leftNode, rfl, .inl rfl, hget, hleft, le_refl _, ?_⟩
        rw [hcost, hcost']
        exact WithTop.coe_le_coe.mpr (le_of_not_ge hle)

omit [LinearOrder F] in
theorem costs_set_ne {nodes : NodeStore K F} {heap : List K} (hne : j ≠ i) :
    costs nodes (heap.set i k) j = costs nodes heap j := by
  unfold costs
  rw [List.getElem?_set_ne (Ne.symm hne)]

theorem downHeapFrom_spec (n : Nat) {s : OpenSet K F} {i : Nat} (hn : s.heap.length - i = n) (h : Sifting s i k)
    {node : Node K F} (hnode : s.nodes.lookup k = some node)
    (hdown : SiftHeap.DownFrom (costs s.nodes (s.heap.set i k)) i) :
    ∃ s', s.downHeapFrom k node.f i = (true, s') ∧ Sifted s (s.heap.set i k) s' := by
  induction n using Nat.strongRecOn generalizing s i node with
  | ind n ih =>
    have hlt := h.lt
    have hself : costs s.nodes (s.heap.set i k) i = node.f := costs_of_lookup (List.getElem?_set_self hlt) hnode
    have hchildren : ∀ j, 0 < j → SiftHeap.parent j = i → j = 1 + 2 * i ∨ j = 1 + 2 * i + 1 := by
      intro j hj hp
      have := (SiftHeap.parent_eq_iff hj).mp hp
      omega
    unfold downHeapFrom
    dsimp only
    by_cases hleft : 1 + 2 * i < s.heap.length
    · rw [dif_pos hleft]
      have hget : s.heap[1 + 2 * i]? = some s.heap[1 + 2 * i] := List.getElem?_eq_getElem hleft
      generalize s.heap[1 + 2 * i] = left at hget
      have hset : (s.heap.set i k)[1 + 2 * i]? = some left := by rw [List.getElem?_set_ne (by omega), hget]
      obtain ⟨leftNode, hleftNode⟩ := Option.isSome_iff_exists.mp (h.known left (List.mem_of_getElem? hset))
      obtain ⟨c, q, child, hchild, hc, hgetc, hnodec, hlel, hler⟩ := cheaperChild_spec hget hleftNode
      have hci : c ≠ i := by omega
      have hcost : costs s.nodes (s.heap.set i k) c = child.f := by
        rw [costs_set_ne hci]
        exact costs_of_lookup hgetc hnodec
      have hleast : ∀ j, 0 < j → SiftHeap.parent j = i →
          costs s.nodes (s.heap.set i k) c ≤ costs s.nodes (s.heap.set i k) j := by
        intro j hj hp
        obtain rfl | rfl := hchildren j hj hp
        · rw [costs_set_ne hci, costs_set_ne (by omega)]
          exact hlel
        · rw [costs_set_ne hci, costs_set_ne (by omega)]
          exact hler
      rw [hget]
      dsimp only
      rw [hleftNode]
      dsimp only
      rw [hchild]
      dsimp only
      by_cases hle : node.f ≤ child.f
      · rw [if_pos hle]
        apply h.settle
        apply hdown.heaped
        intro j hj hp
        refine le_trans ?_ (hleast j hj hp)
        rw [hself, hcost]
        exact WithTop.coe_le_coe.mpr hle
      · rw [if_neg hle]
        obtain ⟨s₁, hplace, hsifting, hreindexed, huntouched, hperm, hlength, hcosts⟩ := h.move hci hgetc
        rw [hplace, if_pos rfl]
        obtain ⟨index, hnode₁⟩ := hreindexed.lookup hnode
        have hpc : SiftHeap.parent c = i := (SiftHeap.parent_eq_iff (by omega)).mpr (by omega)
        have hstep := hdown.step (by omega) hpc (by
          rw [hself, hcost]
          exact WithTop.coe_le_coe.mpr (le_of_not_ge hle)) hleast
        obtain ⟨s', hrun, hsifted⟩ := ih (s₁.heap.length - c) (by omega) rfl hsifting hnode₁ (by rw [hcosts]; exact hstep)
        exact ⟨s', hrun, hsifted.after hreindexed huntouched hperm⟩
    · rw [dif_neg hleft]
      apply h.settle
      apply hdown.heaped
      intro j hj hp
      have htop : costs s.nodes (s.heap.set i k) j = ⊤ := by
        apply costs_end
        rw [List.length_set]
        have := hchildren j hj hp
        omega
      rw [htop]
      exact le_top

/-! ## The operations -/

omit [LinearOrder F] in
theorem Indexed.sifting (h : Indexed s) (hi : s.heap[i]? = some k) : s.heap.set i k = s.heap ∧ Sifting s i k := by
  obtain ⟨hlt, hk⟩ := List.getElem?_eq_some_iff.mp hi
  have hset : s.heap.set i k = s.heap := by
    rw [← hk]
    exact List.set_getElem_self hlt
  refine ⟨hset, hlt, h.small, ?_, ?_, fun _ hj hnode => h.index hj hnode⟩
  · rw [hset]
    exact h.nodup
  · rw [hset]
    exact h.known

theorem upHeap_spec (h : Indexed s) (hi : s.heap[i]? = some k) (hup : SiftHeap.UpTo (costs s.nodes s.heap) i) :
    ∃ s', s.upHeap i = (true, s') ∧ Sifted s s.heap s' := by
  obtain ⟨hset, hsifting⟩ := h.sifting hi
  obtain ⟨node, hnode⟩ := Option.isSome_iff_exists.mp (h.known k (List.mem_of_getElem? hi))
  obtain ⟨s', hrun, hsifted⟩ := upHeapFrom_spec i hsifting hnode (by rw [hset]; exact hup)
  refine ⟨s', ?_, by rw [hset] at hsifted; exact hsifted⟩
  unfold upHeap
  rw [hi]
  dsimp only
  rw [hnode]
  exact hrun

theorem downHeap_spec (h : Indexed s) (hi : s.heap[i]? = some k) (hdown : SiftHeap.DownFrom (costs s.nodes s.heap) i) :
    ∃ s', s.downHeap i = (true, s') ∧ Sifted s s.heap s' := by
  obtain ⟨hset, hsifting⟩ := h.sifting hi
  obtain ⟨node, hnode⟩ := Option.isSome_iff_exists.mp (h.known k (List.mem_of_getElem? hi))
  obtain ⟨s', hrun, hsifted⟩ := downHeapFrom_spec _ rfl hsifting hnode (by rw [hset]; exact hdown)
  refine ⟨s', ?_, by rw [hset] at hsifted; exact hsifted⟩
  unfold downHeap
  rw [hi]
  dsimp only
  rw [hnode]
  exact hrun

omit [DecidableEq K] [LinearOrder F] in
theorem costOf_eq_elim (o : Option (Node K F)) :
    (o.map Node.f).elim ⊤ WithTop.some = (o.map Node.place).elim (⊤ : WithTop F) fun p => WithTop.some p.2 := by
  cases o with
  | none => rfl
  | some node => rfl

omit [LinearOrder F] in
theorem Indexed.store {nodes : NodeStore K F} (h : Indexed s)
    (hmembers : ∀ q ∈ s.heap, (nodes.lookup q).map Node.place = (s.nodes.lookup q).map Node.place) : Indexed ⟨s.heap, nodes⟩ where
  small := h.small
  nodup := h.nodup
  known q hq := by
    have hsome := congrArg Option.isSome (hmembers q hq)
    rw [Option.isSome_map, Option.isSome_map] at hsome
    exact hsome.trans (h.known q hq)
  index {j q node} hj hnode := by
    have hmem := hmembers q (List.mem_of_getElem? hj)
    rw [hnode, Option.map_some] at hmem
    obtain ⟨old, hold, heq⟩ := Option.map_eq_some_iff.mp hmem.symm
    exact (congrArg Prod.fst heq).symm.trans (h.index hj hold)

omit [LinearOrder F] in
theorem costs_store {nodes nodes' : NodeStore K F} {heap : List K}
    (hmembers : ∀ q ∈ heap, (nodes'.lookup q).map Node.place = (nodes.lookup q).map Node.place) :
    costs nodes' heap = costs nodes heap := by
  funext j
  unfold costs
  cases hj : heap[j]? with
  | none => rfl
  | some q =>
    rw [Option.elim_some, Option.elim_some]
    unfold costOf
    rw [costOf_eq_elim, costOf_eq_elim, hmembers q (List.mem_of_getElem? hj)]

/-- The nodes may change in all but the indices and the costs in the heap. -/
theorem Valid.store {nodes : NodeStore K F} (h : Valid s)
    (hmembers : ∀ q ∈ s.heap, (nodes.lookup q).map Node.place = (s.nodes.lookup q).map Node.place)
    (hothers : ∀ q node, q ∉ s.heap → nodes.lookup q = some node → node.heapIdx = -1) : Valid ⟨s.heap, nodes⟩ where
  toIndexed := h.toIndexed.store hmembers
  heaped := by
    rw [costs_store hmembers]
    exact h.heaped
  absent hnode hmem := hothers _ _ hmem hnode

theorem Valid.inOpenSet_iff {node : Node K F} (h : Valid s) (hnode : s.nodes.lookup k = some node) :
    node.inOpenSet = true ↔ k ∈ s.heap := by
  unfold Node.inOpenSet
  rw [decide_eq_true_iff]
  constructor
  · intro hpos
    by_contra hmem
    have habsent := h.absent hnode hmem
    omega
  · intro hmem
    obtain ⟨j, hj⟩ := List.mem_iff_getElem?.mp hmem
    have hidx := h.index hj hnode
    omega

theorem Sifted.toValid {heap : List K} (h : Sifted s heap s')
    (habsent : ∀ q node, q ∉ heap → s.nodes.lookup q = some node → node.heapIdx = -1) : Valid s' where
  toIndexed := h.indexed
  heaped := h.heaped
  absent hnode hmem := by
    have hmem' := fun hq => hmem (h.perm.mem_iff.mpr hq)
    exact habsent _ _ hmem' ((h.untouched _ hmem').symm.trans hnode)

theorem insert_spec {node : Node K F} (h : Valid s) (hlt : s.heap.length < 2 ^ 31) (hnode : s.nodes.lookup k = some node)
    (hmem : k ∉ s.heap) :
    ∃ s', s.insert k = (true, s') ∧ Valid s' ∧ s'.heap.Perm (k :: s.heap) ∧ Reindexed s.nodes s'.nodes := by
  have hreindexed : Reindexed s.nodes (s.nodes.insert k { node with heapIdx := s.heap.length }) := .insert hnode _
  have hperm : (s.heap ++ [k]).Perm (k :: s.heap) := List.perm_append_singleton k s.heap
  have hindexed : Indexed (⟨s.heap ++ [k], s.nodes.insert k { node with heapIdx := s.heap.length }⟩ : OpenSet K F) := by
    refine ⟨?_, ?_, fun q hq => ?_, fun {j q node'} hj hq => ?_⟩
    · rw [List.length_append, List.length_singleton]
      exact hlt
    · exact hperm.nodup_iff.mpr (List.nodup_cons.mpr ⟨hmem, h.nodup⟩)
    · rw [hreindexed.isSome]
      cases List.mem_cons.mp (hperm.mem_iff.mp hq) with
      | inl heq => rw [heq, hnode]; rfl
      | inr hold => exact h.known q hold
    · dsimp only at hj hq
      rw [AssocList.lookup_insert] at hq
      by_cases hjlt : j < s.heap.length
      · rw [List.getElem?_append_left hjlt] at hj
        rw [if_neg (by rintro rfl; exact hmem (List.mem_of_getElem? hj))] at hq
        exact h.index hj hq
      · rw [List.getElem?_append_right (Nat.le_of_not_lt hjlt)] at hj
        obtain ⟨hzero, heq⟩ := List.getElem?_eq_some_iff.mp hj
        rw [List.length_singleton] at hzero
        rw [if_pos (by rw [← heq, List.getElem_singleton])] at hq
        rw [← Option.some.inj hq]
        dsimp only
        omega
  have hup : SiftHeap.UpTo (costs (s.nodes.insert k { node with heapIdx := s.heap.length }) (s.heap ++ [k])) s.heap.length := by
    rw [costs_reindexed hreindexed]
    refine h.heaped.upTo (fun j hj => ?_) ?_
    · unfold costs
      by_cases hjlt : j < s.heap.length
      · rw [List.getElem?_append_left hjlt]
      · rw [List.getElem?_eq_none (by rw [List.length_append, List.length_singleton]; omega),
          List.getElem?_eq_none (Nat.le_of_not_lt hjlt)]
    · rw [costs_end (le_refl s.heap.length)]
      exact le_top
  obtain ⟨s', hrun, hsifted⟩ := upHeap_spec hindexed (List.getElem?_concat_length) hup
  refine ⟨s', ?_, hsifted.toValid fun q node' hq hnode' => ?_, hsifted.perm.trans hperm, hreindexed.trans hsifted.reindexed⟩
  · have hclosed : node.inOpenSet = false := by
      unfold Node.inOpenSet
      rw [h.absent hnode hmem]
      rfl
    unfold insert
    rw [hnode]
    dsimp only
    rw [hclosed, if_neg Bool.false_ne_true, setHeapIdx_ok hlt hnode]
    exact hrun
  · have hmem' := fun hq' => hq (hperm.mem_iff.mpr hq')
    dsimp only at hnode'
    rw [AssocList.lookup_insert, if_neg (by rintro rfl; exact hmem' List.mem_cons_self)] at hnode'
    exact h.absent hnode' fun hq' => hmem' (List.mem_cons_of_mem k hq')

omit [LinearOrder F] in
theorem setHeapIdxToRemoved_reindexed (nodes : NodeStore K F) (k : K) : Reindexed nodes (setHeapIdxToRemoved nodes k) := by
  unfold setHeapIdxToRemoved
  cases hnode : nodes.lookup k with
  | none => exact .refl
  | some node => exact .insert hnode _

omit [LinearOrder F] in
theorem lookup_setHeapIdxToRemoved (nodes : NodeStore K F) (k : K) :
    (setHeapIdxToRemoved nodes k).lookup q = (nodes.lookup q).map fun node => if q = k then { node with heapIdx := -1 } else node := by
  unfold setHeapIdxToRemoved
  cases hnode : nodes.lookup k with
  | none =>
    dsimp only
    by_cases hq : q = k
    · rw [hq, hnode]
      rfl
    · cases nodes.lookup q with
      | none => rfl
      | some other => rw [Option.map_some, if_neg hq]
  | some node =>
    dsimp only
    rw [AssocList.lookup_insert]
    by_cases hq : q = k
    · rw [if_pos hq, hq, hnode, Option.map_some, if_pos rfl]
    · rw [if_neg hq]
      cases nodes.lookup q with
      | none => rfl
      | some other => rw [Option.map_some, if_neg hq]

/-- An entry that left the heap is told so. -/
theorem Sifted.removed {heap : List K} (h : Sifted s heap s') (hk : k ∉ heap)
    (habsent : ∀ q node, q ∉ heap → q ≠ k → s.nodes.lookup q = some node → node.heapIdx = -1) :
    Valid { s' with nodes := setHeapIdxToRemoved s'.nodes k } := by
  have hmembers : ∀ q ∈ s'.heap,
      ((setHeapIdxToRemoved s'.nodes k).lookup q).map Node.place = (s'.nodes.lookup q).map Node.place := by
    intro q hq
    rw [lookup_setHeapIdxToRemoved, Option.map_map]
    congr 1
    funext node
    rw [Function.comp_apply, if_neg]
    rintro rfl
    exact hk (h.perm.mem_iff.mp hq)
  refine ⟨h.indexed.store hmembers, ?_, fun {q node} hnode hmem => ?_⟩
  · rw [costs_store hmembers]
    exact h.heaped
  · dsimp only at hnode hmem
    rw [lookup_setHeapIdxToRemoved] at hnode
    obtain ⟨old, hold, heq⟩ := Option.map_eq_some_iff.mp hnode
    by_cases hqk : q = k
    · rw [if_pos hqk] at heq
      rw [← heq]
    · rw [if_neg hqk] at heq
      have hmem' := fun hq => hmem (h.perm.mem_iff.mpr hq)
      rw [← heq]
      exact habsent q old hmem' hqk ((h.untouched q hmem').symm.trans hold)

theorem pop_nil (h : s.heap = []) : s.pop = (none, s) := by
  unfold pop
  rw [h]

theorem Valid.root_le {popped : K} {rest : List K} (h : Valid s) (hheap : s.heap = popped :: rest) (hq : q ∈ s.heap) :
    costOf s.nodes popped ≤ costOf s.nodes q := by
  obtain ⟨j, hj⟩ := List.mem_iff_getElem?.mp hq
  have hle := SiftHeap.root_le h.heaped j
  unfold costs at hle
  rw [hj, hheap] at hle
  exact hle

theorem pop_spec {popped : K} {rest : List K} (h : Valid s) (hheap : s.heap = popped :: rest) :
    ∃ s', s.pop = (some popped, s') ∧ Valid s' ∧ s'.heap.Perm rest ∧ Reindexed s.nodes s'.nodes := by
  have hnodup := h.nodup
  rw [hheap] at hnodup
  obtain ⟨hfresh, hrest⟩ := List.nodup_cons.mp hnodup
  have habsent : ∀ q node, q ∉ rest → q ≠ popped → s.nodes.lookup q = some node → node.heapIdx = -1 := by
    intro q node hq hqp hnode
    apply h.absent hnode
    rw [hheap]
    exact List.not_mem_cons_of_ne_of_not_mem hqp hq
  cases rest with
  | nil =>
    refine ⟨⟨[], setHeapIdxToRemoved s.nodes popped⟩, ?_, ?_, List.Perm.refl _, setHeapIdxToRemoved_reindexed _ _⟩
    · unfold pop
      rw [hheap]
      rfl
    · have hsifted : Sifted s [] ⟨[], s.nodes⟩ := by
        refine ⟨⟨Nat.zero_le _, List.nodup_nil, by simp, by simp⟩, fun j _ => ?_, List.Perm.refl _, .refl, fun _ _ => rfl⟩
        rw [costs_end (l := []) (Nat.zero_le _), costs_end (l := []) (Nat.zero_le _)]
      exact hsifted.removed List.not_mem_nil habsent
  | cons x xs =>
    obtain ⟨kept, last, hsplit⟩ : ∃ kept last, x :: xs = kept ++ [last] :=
      ⟨_, _, (List.dropLast_append_getLast (List.cons_ne_nil x xs)).symm⟩
    rw [hsplit] at hheap hfresh hrest habsent ⊢
    have hperm : (last :: kept).Perm (kept ++ [last]) := (List.perm_append_singleton last kept).symm
    have hnth : ∀ j, s.heap[j + 1]? = (kept ++ [last])[j]? := fun j => by rw [hheap, List.getElem?_cons_succ]
    have hkept : ∀ {j q}, kept[j]? = some q → s.heap[j + 1]? = some q := fun {j q} hj => by
      rw [hnth, List.getElem?_append_left (List.getElem?_eq_some_iff.mp hj).1, hj]
    have hlastmem : last ∈ s.heap := by
      rw [hheap]
      exact List.mem_cons_of_mem _ (hperm.mem_iff.mp List.mem_cons_self)
    have hlength : s.heap.length = kept.length + 2 := by
      rw [hheap, List.length_cons, List.length_append, List.length_singleton]
    have hsmall := h.small
    obtain ⟨node, hnode⟩ := Option.isSome_iff_exists.mp (h.known last hlastmem)
    have hreindexed : Reindexed s.nodes (s.nodes.insert last { node with heapIdx := (0 : Nat) }) := .insert hnode _
    have hindexed : Indexed (⟨last :: kept, s.nodes.insert last { node with heapIdx := (0 : Nat) }⟩ : OpenSet K F) := by
      refine ⟨?_, hperm.nodup_iff.mpr hrest, fun q hq => ?_, fun {j q node'} hj hq => ?_⟩
      · rw [List.length_cons]
        omega
      · rw [hreindexed.isSome]
        apply h.known
        rw [hheap]
        exact List.mem_cons_of_mem _ (hperm.mem_iff.mp hq)
      · cases j with
        | zero =>
          dsimp only at hj hq
          rw [AssocList.lookup_insert, if_pos (Option.some.inj hj).symm] at hq
          rw [← Option.some.inj hq]
        | succ j =>
          dsimp only at hj hq
          rw [List.getElem?_cons_succ] at hj
          have hne : q ≠ last := by
            rintro rfl
            exact (List.nodup_cons.mp (hperm.nodup_iff.mpr hrest)).1 (List.mem_of_getElem? hj)
          rw [AssocList.lookup_insert, if_neg hne] at hq
          exact h.index (hkept hj) hq
    have hdown : SiftHeap.DownFrom (costs (s.nodes.insert last { node with heapIdx := (0 : Nat) }) (last :: kept)) 0 := by
      rw [costs_reindexed hreindexed]
      refine h.heaped.replaceRoot (n := kept.length + 1) (fun j hj hn => ?_) fun j l hj => ?_
      · obtain ⟨j, rfl⟩ := Nat.exists_eq_add_of_lt hj
        unfold costs
        rw [Nat.zero_add, List.getElem?_cons_succ, hnth, List.getElem?_append_left (by omega)]
      · rw [costs_end (j := j) (by rw [List.length_cons]; exact hj)]
        exact le_top
    obtain ⟨s', hrun, hsifted⟩ := downHeap_spec hindexed rfl hdown
    refine ⟨{ s' with nodes := setHeapIdxToRemoved s'.nodes popped }, ?_, hsifted.removed ?_ ?_,
      hsifted.perm.trans hperm, hreindexed.trans (hsifted.reindexed.trans (setHeapIdxToRemoved_reindexed _ _))⟩
    · have hdrop : (popped :: (kept ++ [last])).dropLast = popped :: kept := by
        rw [← List.cons_append, List.dropLast_concat]
      have hlast : ∀ hne, (popped :: (kept ++ [last])).getLast hne = last := fun hne => by
        rw [List.getLast_cons (by simp), List.getLast_concat]
      unfold pop
      rw [hheap]
      dsimp only
      rw [hdrop, hlast, setHeapIdx_ok (Nat.two_pow_pos 31) hnode]
      dsimp only
      rw [hrun]
    · exact fun hq => hfresh (hperm.mem_iff.mp hq)
    · intro q node' hq hqp hnode'
      have hq' := fun hold => hq (hperm.mem_iff.mpr hold)
      dsimp only at hnode'
      rw [AssocList.lookup_insert, if_neg (by rintro rfl; exact hq List.mem_cons_self)] at hnode'
      exact habsent q node' hq' hqp hnode'

omit [LinearOrder F] in
theorem costs_insert_ne {nodes : NodeStore K F} {heap : List K} {n : Node K F} (hnodup : heap.Nodup)
    (hi : heap[i]? = some k) (hj : j ≠ i) : costs (nodes.insert k n) heap j = costs nodes heap j := by
  unfold costs
  cases hq : heap[j]? with
  | none => rfl
  | some q =>
    have hne : q ≠ k := by
      rintro rfl
      exact hj ((List.getElem?_inj (List.getElem?_eq_some_iff.mp hq).1 hnodup).mp (hq.trans hi.symm))
    rw [Option.elim_some, Option.elim_some]
    unfold costOf
    rw [AssocList.lookup_insert, if_neg hne]

theorem changeCost_spec {node : Node K F} (h : Valid s) (hnode : s.nodes.lookup k = some node) (hmem : k ∈ s.heap) (cost : F) :
    ∃ s', s.changeCost k cost = (true, s') ∧ Valid s' ∧ s'.heap.Perm s.heap ∧
      Reindexed (s.nodes.insert k { node with f := cost }) s'.nodes := by
  obtain ⟨i, hi⟩ := List.mem_iff_getElem?.mp hmem
  have hidx := h.index hi hnode
  have hindexed : Indexed (⟨s.heap, s.nodes.insert k { node with f := cost }⟩ : OpenSet K F) := by
    refine ⟨h.small, h.nodup, fun q hq => ?_, fun {j q node'} hj hq => ?_⟩
    · rw [AssocList.lookup_insert]
      split
      · rfl
      · exact h.known q hq
    · dsimp only at hj hq
      rw [AssocList.lookup_insert] at hq
      split at hq
      · rename_i heq
        rw [heq] at hj
        rw [← Option.some.inj hq]
        exact h.index (n := node) hj hnode
      · exact h.index hj hq
  have hself : costs (s.nodes.insert k { node with f := cost }) s.heap i = cost := by
    apply costs_of_lookup hi (AssocList.lookup_insert.trans (if_pos rfl))
  have hold : costs s.nodes s.heap i = node.f := costs_of_lookup hi hnode
  have habsent : ∀ q node', q ∉ s.heap → (s.nodes.insert k { node with f := cost }).lookup q = some node' →
      node'.heapIdx = -1 := by
    intro q node' hq hnode'
    rw [AssocList.lookup_insert, if_neg (by rintro rfl; exact hq hmem)] at hnode'
    exact h.absent hnode' hq
  unfold changeCost
  rw [hnode]
  dsimp only
  have hnat : node.heapIdx.toNat = i := by omega
  rw [if_neg (by omega), hnat, if_neg (by rw [hi]; exact fun hne => hne rfl)]
  by_cases hlt : cost < node.f
  · rw [if_pos hlt]
    have hup := h.heaped.upTo (fun j hj => costs_insert_ne (n := { node with f := cost }) h.nodup hi hj)
      (by rw [hself, hold]; exact WithTop.coe_le_coe.mpr hlt.le)
    obtain ⟨s', hrun, hsifted⟩ := upHeap_spec hindexed hi hup
    exact ⟨s', hrun, hsifted.toValid habsent, hsifted.perm, hsifted.reindexed⟩
  · rw [if_neg hlt]
    have hdown := h.heaped.downFrom (fun j hj => costs_insert_ne (n := { node with f := cost }) h.nodup hi hj)
      (by rw [hself, hold]; exact WithTop.coe_le_coe.mpr (le_of_not_gt hlt))
    obtain ⟨s', hrun, hsifted⟩ := downHeap_spec hindexed hi hdown
    exact ⟨s', hrun, hsifted.toValid habsent, hsifted.perm, hsifted.reindexed⟩

/-- A node out of the heap takes the cost, and the answer is no. -/
theorem changeCost_absent {node : Node K F} (h : Valid s) (hnode : s.nodes.lookup k = some node) (hmem : k ∉ s.heap) (cost : F) :
    s.changeCost k cost = (false, ⟨s.heap, s.nodes.insert k { node with f := cost }⟩) ∧
      Valid ⟨s.heap, s.nodes.insert k { node with f := cost }⟩ := by
  have hidx := h.absent hnode hmem
  refine ⟨?_, h.store (fun q hq => ?_) fun q node' hq hnode' => ?_⟩
  · unfold changeCost
    rw [hnode]
    dsimp only
    rw [hidx, if_pos (by omega)]
  · rw [AssocList.lookup_insert, if_neg (by rintro rfl; exact hmem hq)]
  · rw [AssocList.lookup_insert] at hnode'
    split at hnode'
    · rw [← Option.some.inj hnode']
      exact hidx
    · exact h.absent hnode' hq

omit [LinearOrder F] in
theorem lookup_removeAll (heap : List K) (nodes : NodeStore K F) :
    (heap.foldl setHeapIdxToRemoved nodes).lookup q =
      (nodes.lookup q).map fun node => if q ∈ heap then { node with heapIdx := -1 } else node := by
  induction heap generalizing nodes with
  | nil => simp
  | cons k heap ih =>
    rw [List.foldl_cons, ih, lookup_setHeapIdxToRemoved, Option.map_map]
    congr 1
    funext node
    rw [Function.comp_apply]
    by_cases hq : q = k
    · simp [hq]
    · simp [hq]

/-- The old entries may be of another search. -/
theorem clear_spec (habsent : ∀ q node, q ∉ s.heap → s.nodes.lookup q = some node → node.heapIdx = -1) :
    Valid s.clear ∧ s.clear.heap = [] ∧ Reindexed s.nodes s.clear.nodes := by
  refine ⟨⟨⟨Nat.zero_le _, List.nodup_nil, ?_, ?_⟩, ?_, fun {q node} hnode _ => ?_⟩, rfl, fun q => ?_⟩
  · intro q hq
    cases hq
  · intro j q node hj
    cases hj
  · intro j _
    exact (costs_end (l := ([] : List K)) (Nat.zero_le _)).ge.trans' le_top
  · unfold clear at hnode
    dsimp only at hnode
    rw [lookup_removeAll] at hnode
    obtain ⟨old, hold, heq⟩ := Option.map_eq_some_iff.mp hnode
    by_cases hmem : q ∈ s.heap
    · rw [if_pos hmem] at heq
      rw [← heq]
    · rw [if_neg hmem] at heq
      rw [← heq]
      exact habsent q old hmem hold
  · unfold clear
    dsimp only
    rw [lookup_removeAll, Option.map_map]
    congr 1
    funext node
    rw [Function.comp_apply]
    split <;> rfl

end OpenSet

end Foton.Path
