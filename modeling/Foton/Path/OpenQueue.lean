import Foton.Path.NodeHeap
import Mathlib.Algebra.Ring.Nat
import Mathlib.Data.Set.Insert

/-!
# The open set is a priority queue

The heap and the indices in the nodes stand for a set of nodes from which the
cheapest is taken. Everything the open set answers in a run is what that queue
would answer.
-/

namespace Foton.Path

/-- Nodes by their hash, and those among them that are open. -/
structure Queue (K F : Type) where
  members : Set K
  node : K → Option (Node K F)

/-- A call with its answer, or a change of a node by the search. -/
inductive Event (K F : Type)
  | insert (hash : K) (done : Bool)
  | pop (result : Option K)
  | changeCost (hash : K) (newCost : F) (done : Bool)
  | clear
  | write (hash : K) (node : Node K F)

namespace Queue

variable {K F : Type} [DecidableEq K]

def setNode (q : Queue K F) (k : K) (node : Node K F) : Queue K F :=
  { q with node := fun j => if j = k then some node else q.node j }

variable [LinearOrder F]

/-- The cheapest node comes first. -/
def First (q : Queue K F) (k : K) : Prop :=
  k ∈ q.members ∧ ∀ j ∈ q.members, ∀ first other, q.node k = some first → q.node j = some other → first.f ≤ other.f

inductive Step (q : Queue K F) : Event K F → Queue K F → Prop
  | insert {k : K} (hknown : (q.node k).isSome = true) (hmem : k ∉ q.members) :
    Step q (.insert k true) { q with members := Insert.insert k q.members }
  | refuse {k : K} (h : q.node k = none ∨ k ∈ q.members) : Step q (.insert k false) q
  | pop {k : K} (h : q.First k) : Step q (.pop (some k)) { q with members := q.members \ {k} }
  | empty (h : q.members = ∅) : Step q (.pop none) q
  | changeCost {k : K} {node : Node K F} {cost : F} {done : Bool} (hnode : q.node k = some node) (hdone : done = true ↔ k ∈ q.members) :
    Step q (.changeCost k cost done) (q.setNode k { node with f := cost })
  | unknown {k : K} {cost : F} (hnode : q.node k = none) : Step q (.changeCost k cost false) q
  | clear : Step q .clear { q with members := ∅ }
  | write {k : K} {node : Node K F} (hcost : k ∈ q.members → (q.node k).map Node.f = some node.f) :
    Step q (.write k node) (q.setNode k node.forget)

end Queue

namespace OpenSet

variable {K F : Type} [DecidableEq K] {s t : OpenSet K F} {k : K}

def queue (s : OpenSet K F) : Queue K F := ⟨{k | k ∈ s.heap}, fun k => (s.nodes.lookup k).map Node.forget⟩

theorem queue_eq (members : Set K) (hmembers : ∀ k, k ∈ s.heap ↔ k ∈ members) (h : Reindexed t.nodes s.nodes) :
    s.queue = { t.queue with members := members } := by
  unfold queue
  congr 1
  · exact Set.ext hmembers
  · exact funext h

variable [LinearOrder F]

/-- The search leaves the indices to the open set, and the costs of open nodes. -/
inductive Step (s : OpenSet K F) : Event K F → OpenSet K F → Prop
  | insert {k : K} {b : Bool} {t : OpenSet K F} (hlt : s.heap.length < 2 ^ 31) (h : s.insert k = (b, t)) : Step s (.insert k b) t
  | pop {r : Option K} {t : OpenSet K F} (h : s.pop = (r, t)) : Step s (.pop r) t
  | changeCost {k : K} {f : F} {b : Bool} {t : OpenSet K F} (h : s.changeCost k f = (b, t)) : Step s (.changeCost k f b) t
  | clear : Step s .clear s.clear
  | write {k : K} {node : Node K F} (hidx : ((s.nodes.lookup k).elim (-1) Node.heapIdx) = node.heapIdx)
    (hcost : node.inOpenSet = true → (s.nodes.lookup k).map Node.f = some node.f) :
    Step s (.write k node) { s with nodes := s.nodes.insert k node }

theorem insert_refines {done : Bool} (h : Valid s) (hlt : s.heap.length < 2 ^ 31) (hrun : s.insert k = (done, t)) :
    s.queue.Step (.insert k done) t.queue ∧ Valid t := by
  cases hnode : s.nodes.lookup k with
  | none =>
    unfold insert at hrun
    rw [hnode] at hrun
    cases hrun
    exact ⟨.refuse (.inl (by unfold queue; dsimp only; rw [hnode]; rfl)), h⟩
  | some node =>
    by_cases hmem : k ∈ s.heap
    · unfold insert at hrun
      rw [hnode] at hrun
      dsimp only at hrun
      rw [if_pos ((h.inOpenSet_iff hnode).mpr hmem)] at hrun
      cases hrun
      exact ⟨.refuse (.inr hmem), h⟩
    · obtain ⟨s', hrun', hvalid, hperm, hreindexed⟩ := insert_spec h hlt hnode hmem
      rw [hrun'] at hrun
      cases hrun
      refine ⟨?_, hvalid⟩
      rw [queue_eq (Insert.insert k s.queue.members) (fun j => ?_) hreindexed]
      · exact .insert (by unfold queue; dsimp only; rw [hnode]; rfl) hmem
      · rw [hperm.mem_iff, List.mem_cons]
        rfl

theorem pop_refines {result : Option K} (h : Valid s) (hrun : s.pop = (result, t)) :
    s.queue.Step (.pop result) t.queue ∧ Valid t := by
  cases hheap : s.heap with
  | nil =>
    rw [pop_nil hheap] at hrun
    cases hrun
    refine ⟨.empty (Set.eq_empty_of_forall_notMem fun k hk => ?_), h⟩
    unfold queue at hk
    rw [hheap] at hk
    cases hk
  | cons popped rest =>
    obtain ⟨s', hrun', hvalid, hperm, hreindexed⟩ := pop_spec h hheap
    rw [hrun'] at hrun
    cases hrun
    refine ⟨?_, hvalid⟩
    have hnodup := h.nodup
    rw [hheap] at hnodup
    have hfresh := (List.nodup_cons.mp hnodup).1
    rw [queue_eq (s.queue.members \ {popped}) (fun j => ?_) hreindexed]
    · refine .pop ⟨?_, fun j hj first other hfirst hother => ?_⟩
      · show popped ∈ s.heap
        rw [hheap]
        exact List.mem_cons_self
      · have hle := h.root_le hheap hj
        obtain ⟨node, hnode, rfl⟩ := Option.map_eq_some_iff.mp hfirst
        obtain ⟨node', hnode', rfl⟩ := Option.map_eq_some_iff.mp hother
        unfold costOf at hle
        rw [hnode, hnode'] at hle
        exact WithTop.coe_le_coe.mp hle
    · rw [hperm.mem_iff]
      show j ∈ rest ↔ j ∈ s.heap ∧ j ≠ popped
      rw [hheap, List.mem_cons]
      constructor
      · intro hj
        refine ⟨.inr hj, ?_⟩
        rintro rfl
        exact hfresh hj
      · rintro ⟨hj, hne⟩
        exact hj.resolve_left hne

omit [LinearOrder F] in
theorem queue_setNode {nodes : NodeStore K F} {node : Node K F} (h : Reindexed (s.nodes.insert k node) nodes) {heap : List K}
    (hheap : ∀ j, j ∈ heap ↔ j ∈ s.heap) : queue ⟨heap, nodes⟩ = s.queue.setNode k node.forget := by
  unfold queue Queue.setNode
  congr 1
  · exact Set.ext hheap
  · funext j
    dsimp only
    rw [h j, AssocList.lookup_insert]
    split <;> rfl

theorem changeCost_refines {cost : F} {done : Bool} (h : Valid s) (hrun : s.changeCost k cost = (done, t)) :
    s.queue.Step (.changeCost k cost done) t.queue ∧ Valid t := by
  cases hnode : s.nodes.lookup k with
  | none =>
    unfold changeCost at hrun
    rw [hnode] at hrun
    cases hrun
    exact ⟨.unknown (by unfold queue; dsimp only; rw [hnode]; rfl), h⟩
  | some node =>
    have hqueue : s.queue.node k = some node.forget := by
      unfold queue
      dsimp only
      rw [hnode]
      rfl
    by_cases hmem : k ∈ s.heap
    · obtain ⟨s', hrun', hvalid, hperm, hreindexed⟩ := changeCost_spec h hnode hmem cost
      rw [hrun'] at hrun
      cases hrun
      refine ⟨?_, hvalid⟩
      have hset : t.queue = _ := queue_setNode hreindexed fun j => hperm.mem_iff
      rw [hset]
      exact .changeCost hqueue (iff_of_true rfl hmem)
    · obtain ⟨hrun', hvalid⟩ := changeCost_absent h hnode hmem cost
      rw [hrun'] at hrun
      cases hrun
      refine ⟨?_, hvalid⟩
      rw [queue_setNode .refl fun j => Iff.rfl]
      exact .changeCost hqueue (iff_of_false Bool.false_ne_true hmem)

theorem write_refines {node : Node K F} (h : Valid s) (hidx : (s.nodes.lookup k).elim (-1) Node.heapIdx = node.heapIdx)
    (hcost : node.inOpenSet = true → (s.nodes.lookup k).map Node.f = some node.f) :
    s.queue.Step (.write k node) (queue { s with nodes := s.nodes.insert k node }) ∧
      Valid { s with nodes := s.nodes.insert k node } := by
  have hold : k ∈ s.heap → ∃ old, s.nodes.lookup k = some old ∧ old.place = node.place := by
    intro hmem
    obtain ⟨old, hnode⟩ := Option.isSome_iff_exists.mp (h.known k hmem)
    rw [hnode] at hidx hcost
    have hopen := (h.inOpenSet_iff hnode).mpr hmem
    unfold Node.inOpenSet at hopen hcost
    have hf := hcost (by rw [← hidx]; exact hopen)
    exact ⟨old, hnode, Prod.ext hidx (Option.some.inj hf)⟩
  constructor
  · rw [queue_setNode .refl fun j => Iff.rfl]
    refine .write fun hmem => ?_
    obtain ⟨old, hnode, hplace⟩ := hold hmem
    unfold queue
    dsimp only
    rw [hnode]
    exact congrArg some (congrArg Prod.snd hplace)
  · refine h.store (fun q hq => ?_) fun q node' hq hnode' => ?_
    · rw [AssocList.lookup_insert]
      split
      · rename_i heq
        obtain ⟨old, hnode, hplace⟩ := hold (heq ▸ hq)
        rw [heq, hnode, Option.map_some, Option.map_some, hplace]
      · rfl
    · rw [AssocList.lookup_insert] at hnode'
      split at hnode'
      · rename_i heq
        cases hnode'
        cases hnode : s.nodes.lookup k with
        | none =>
          rw [hnode] at hidx
          exact hidx.symm
        | some old =>
          rw [hnode] at hidx
          exact hidx.symm.trans (h.absent hnode (heq ▸ hq))
      · exact h.absent hnode' hq

theorem step_refines {e : Event K F} (h : Valid s) (hstep : Step s e t) : s.queue.Step e t.queue ∧ Valid t := by
  cases hstep with
  | insert hlt hrun => exact insert_refines h hlt hrun
  | pop hrun => exact pop_refines h hrun
  | changeCost hrun => exact changeCost_refines h hrun
  | write hidx hcost => exact write_refines h hidx hcost
  | clear =>
    obtain ⟨hvalid, hheap, hreindexed⟩ := clear_spec (s := s) fun q node hq hnode => h.absent hnode hq
    refine ⟨?_, hvalid⟩
    rw [queue_eq ∅ (fun j => ?_) hreindexed]
    · exact .clear
    · rw [hheap]
      exact iff_of_false List.not_mem_nil (Set.notMem_empty j)

/-- Every run is one of the queue, with the same answers. -/
theorem run_refines {nodes : NodeStore K F} {es : List (Event K F)} (hout : ∀ k node, nodes.lookup k = some node → node.heapIdx = -1)
    (h : Run Step ⟨[], nodes⟩ es t) : Run Queue.Step (queue ⟨[], nodes⟩) es t.queue := by
  have hstart : Valid (⟨[], nodes⟩ : OpenSet K F) :=
    (clear_spec (s := ⟨[], nodes⟩) fun q node _ hnode => hout q node hnode).1
  suffices hboth : Run Queue.Step (queue ⟨[], nodes⟩) es t.queue ∧ Valid t from hboth.1
  induction h with
  | nil => exact ⟨.nil, hstart⟩
  | snoc _ hstep ih =>
    obtain ⟨hrun, hvalid⟩ := ih
    obtain ⟨hqueue, hvalid'⟩ := step_refines hvalid hstep
    exact ⟨.snoc hrun hqueue, hvalid'⟩

def openNode (hash cost : Nat) : Node Nat Nat := ⟨0, 0, 0, hash, -1, 0, 0, cost, none, false, 0, 0⟩

def twoNodes : NodeStore Nat Nat := ((∅ : NodeStore Nat Nat).insert 5 (openNode 5 2)).insert 6 (openNode 6 1)

theorem twoNodes_out (k : Nat) (node : Node Nat Nat) (h : twoNodes.lookup k = some node) : node.heapIdx = -1 := by
  unfold twoNodes at h
  rw [AssocList.lookup_insert] at h
  split at h
  · cases h
    rfl
  · rw [AssocList.lookup_insert] at h
    split at h
    · cases h
      rfl
    · cases h

/-- The dearer node comes first once it is the cheaper one. -/
theorem run_refines_two : ∃ t : OpenSet Nat Nat, Run Queue.Step (queue ⟨[], twoNodes⟩)
    [.insert 5 true, .insert 6 true, .changeCost 5 0 true, .pop (some 5)] t.queue := by
  have hinsert : Run Step ⟨[], twoNodes⟩ [.insert 5 true] (insert ⟨[], twoNodes⟩ 5).2 :=
    .single (.insert (by decide +kernel) (Prod.ext (by decide +kernel) rfl))
  have hboth := Run.snoc hinsert (.insert (k := 6) (b := true) (by decide +kernel) (Prod.ext (by decide +kernel) rfl))
  have hchange := Run.snoc hboth (.changeCost (k := 5) (f := 0) (b := true) (Prod.ext (by decide +kernel) rfl))
  have hpop := Run.snoc hchange (.pop (r := some 5) (Prod.ext (by decide +kernel) rfl))
  exact ⟨_, run_refines twoNodes_out hpop⟩

end OpenSet

end Foton.Path
