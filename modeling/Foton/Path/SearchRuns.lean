import Foton.Path.PathFinder
import Mathlib.Data.List.Chain

/-!
# Back pointers make routes

The back pointers of closed nodes lead to the start, since each was set when its
target was closed and none is set again. An open node points to a closed one.
-/

namespace Foton.Path

/-- What a route needs of a node. -/
structure Track (K F : Type) where
  hash : K
  cameFrom : Option K
  walkedDistance : F
  point : NodePoint

def Node.track {K F : Type} (node : Node K F) : Track K F := ⟨node.hash, node.cameFrom, node.walkedDistance, node.point⟩

namespace PathFinder

variable {K F : Type} [DecidableEq K] [LinearOrder F] (metric : Metric F) (maxPathLength : F) (Move : K → K → Prop) (start : K)

/-- The back pointer of `k` is to `c`. -/
structure Linked (nodes : NodeStore K F) (c k : K) (a b : Node K F) : Prop where
  previous : nodes.lookup c = some a
  node : nodes.lookup k = some b
  cameFrom : b.cameFrom = some c
  walked : b.walkedDistance = metric.add a.walkedDistance (metric.distance a.point b.point)
  short : b.walkedDistance < maxPathLength
  move : Move c k

structure Root (nodes : NodeStore K F) (node : Node K F) : Prop where
  lookup : nodes.lookup start = some node
  cameFrom : node.cameFrom = none
  walked : node.walkedDistance = metric.zero

inductive Route (nodes : NodeStore K F) : K → List K → Prop
  | start {node : Node K F} (h : Root metric start nodes node) : Route nodes start [start]
  | step {c k : K} {path : List K} {a b : Node K F} (h : Route nodes c path) (hlink : Linked metric maxPathLength Move nodes c k a b) :
    Route nodes k (path ++ [k])

variable {metric maxPathLength Move start} {nodes nodes' : NodeStore K F} {c k : K} {path : List K}

theorem Linked.frame {a b : Node K F} (h : Linked metric maxPathLength Move nodes c k a b)
    (ha : ∃ node, nodes'.lookup c = some node ∧ node.track = a.track)
    (hb : ∃ node, nodes'.lookup k = some node ∧ node.track = b.track) : ∃ a b, Linked metric maxPathLength Move nodes' c k a b := by
  obtain ⟨a', hprevious, hta⟩ := ha
  obtain ⟨b', hnode, htb⟩ := hb
  have hfrom : b'.cameFrom = b.cameFrom := congrArg Track.cameFrom htb
  have hpoint : b'.point = b.point := congrArg Track.point htb
  have hwalked : b'.walkedDistance = b.walkedDistance := congrArg Track.walkedDistance htb
  have hpoint' : a'.point = a.point := congrArg Track.point hta
  have hwalked' : a'.walkedDistance = a.walkedDistance := congrArg Track.walkedDistance hta
  refine ⟨a', b', hprevious, hnode, hfrom.trans h.cameFrom, ?_, hwalked ▸ h.short, h.move⟩
  rw [hwalked, hwalked', hpoint, hpoint']
  exact h.walked

omit [LinearOrder F] in
theorem Root.frame {node : Node K F} (h : Root metric start nodes node)
    (hnode : ∃ node', nodes'.lookup start = some node' ∧ node'.track = node.track) : ∃ node', Root metric start nodes' node' := by
  obtain ⟨node', hlookup, htrack⟩ := hnode
  exact ⟨node', hlookup, (congrArg Track.cameFrom htrack).trans h.cameFrom, (congrArg Track.walkedDistance htrack).trans h.walked⟩

theorem Route.mem (h : Route metric maxPathLength Move start nodes k path) : k ∈ path := by
  cases h with
  | start => exact List.mem_singleton_self _
  | step => exact List.mem_append_right _ (List.mem_singleton_self k)

theorem Route.known (h : Route metric maxPathLength Move start nodes k path) : ∀ q ∈ path, (nodes.lookup q).isSome = true := by
  induction h with
  | start hroot =>
    intro q hq
    rw [List.mem_singleton.mp hq, hroot.lookup]
    rfl
  | step _ hlink ih =>
    intro q hq
    cases List.mem_append.mp hq with
    | inl hold => exact ih q hold
    | inr hlast =>
      rw [List.mem_singleton.mp hlast, hlink.node]
      rfl

/-- A route stays as long as its nodes do. -/
theorem Route.frame (h : Route metric maxPathLength Move start nodes k path)
    (hkept : ∀ q ∈ path, ∀ node, nodes.lookup q = some node → ∃ node', nodes'.lookup q = some node' ∧ node'.track = node.track) :
    Route metric maxPathLength Move start nodes' k path := by
  induction h with
  | start hroot =>
    obtain ⟨node', hroot'⟩ := hroot.frame (hkept start (List.mem_singleton_self start) _ hroot.lookup)
    exact .start hroot'
  | step hroute hlink ih =>
    have hprevious := hkept _ (List.mem_append_left _ hroute.mem) _ hlink.previous
    have hnode := hkept _ (List.mem_append_right _ (List.mem_singleton_self _)) _ hlink.node
    obtain ⟨a, b, hlink'⟩ := hlink.frame hprevious hnode
    exact .step (ih fun q hq => hkept q (List.mem_append_left _ hq)) hlink'

/-! ## Reading the path -/

omit [LinearOrder F] in
theorem traceBack_start {node : Node K F} (hnode : nodes.lookup k = some node) (hfrom : node.cameFrom = none) (n : Nat) (acc : List K) :
    traceBack nodes (n + 1) k acc = some (k :: acc) := by
  unfold traceBack
  rw [hnode]
  dsimp only
  rw [hfrom]

omit [LinearOrder F] in
theorem traceBack_step {node : Node K F} (hnode : nodes.lookup k = some node) (hfrom : node.cameFrom = some c) (n : Nat)
    (acc : List K) : traceBack nodes (n + 1) k acc = traceBack nodes n c (k :: acc) := by
  rw [traceBack, hnode]
  dsimp only
  rw [hfrom]

theorem Route.traceBack (h : Route metric maxPathLength Move start nodes k path) (n : Nat) (hn : path.length ≤ n) (acc : List K) :
    PathFinder.traceBack nodes n k acc = some (path ++ acc) := by
  induction h generalizing n acc with
  | start hroot =>
    rw [← Nat.sub_add_cancel hn]
    exact traceBack_start hroot.lookup hroot.cameFrom _ acc
  | step hroute hlink ih =>
    rw [List.length_append, List.length_singleton] at hn
    rw [← Nat.sub_add_cancel (show 1 ≤ n by omega), traceBack_step hlink.node hlink.cameFrom, ih _ (by omega), List.append_assoc,
      List.singleton_append]

/-- The nodes of a path, as the mob walks them. -/
structure Walk (metric : Metric F) (maxPathLength : F) (Move : K → K → Prop) (start : K) (path : List (Node K F)) : Prop where
  first : ∃ node, path.head? = some node ∧ node.hash = start ∧ node.walkedDistance = metric.zero
  steps : path.IsChain fun a b => Move a.hash b.hash ∧ b.cameFrom = some a.hash ∧
    b.walkedDistance = metric.add a.walkedDistance (metric.distance a.point b.point) ∧ b.walkedDistance < maxPathLength
  nodup : (path.map Node.hash).Nodup

/-- Each node is under its own hash. -/
def Keyed (createHash : NodePoint → K) (nodes : NodeStore K F) : Prop :=
  ∀ {k node}, nodes.lookup k = some node → node.hash = k ∧ createHash node.point = k

variable {createHash : NodePoint → K}

/-- The copies of the nodes of a route. -/
theorem Route.walk (h : Route metric maxPathLength Move start nodes k path) (hkeyed : Keyed createHash nodes) (hnodup : path.Nodup) :
    ∃ ns, path.mapM (fun hash => (nodes.lookup hash).map (pathNodeFrom createHash)) = some ns ∧
      Walk metric maxPathLength Move start ns ∧ ns.map Node.hash = path ∧
      ∃ last node, ns.getLast? = some last ∧ nodes.lookup k = some node ∧ last.track = node.track := by
  have hcopy : ∀ {q node}, nodes.lookup q = some node → (pathNodeFrom createHash node).track = node.track := by
    intro q node hq
    obtain ⟨hhash, hcreate⟩ := hkeyed hq
    unfold Node.track pathNodeFrom
    rw [hhash, hcreate]
    rfl
  induction h with
  | @start node hroot =>
    have htrack := hcopy hroot.lookup
    have hhash := (congrArg Track.hash htrack).trans (hkeyed hroot.lookup).1
    refine ⟨[pathNodeFrom createHash node], ?_, ⟨⟨_, rfl, hhash, hroot.walked⟩, .singleton _, ?_⟩, ?_, _, node, rfl, hroot.lookup, htrack⟩
    · rw [List.mapM_cons, hroot.lookup]
      rfl
    · exact List.nodup_singleton _
    · rw [List.map_singleton]
      exact congrArg (fun q => [q]) hhash
  | @step c k path a b hroute hlink ih =>
    obtain ⟨ns, hns, hwalk, hhashes, last, node, hlast, hnode, htrack⟩ := ih (List.nodup_append.mp hnodup).1
    have hb := hcopy hlink.node
    have hhash := (congrArg Track.hash hb).trans (hkeyed hlink.node).1
    have ha : node = a := Option.some.inj (hnode.symm.trans hlink.previous)
    have hlasthash : last.hash = c := (congrArg Track.hash htrack).trans (hkeyed hnode).1
    have hmap : (ns ++ [pathNodeFrom createHash b]).map Node.hash = path ++ [k] := by
      rw [List.map_append, hhashes, List.map_singleton]
      exact congrArg (fun q => path ++ [q]) hhash
    refine ⟨ns ++ [pathNodeFrom createHash b], ?_, ⟨?_, ?_, ?_⟩, hmap, _, b, List.getLast?_concat, hlink.node, hb⟩
    · rw [List.mapM_append, hns, List.mapM_cons, hlink.node]
      rfl
    · obtain ⟨first, hfirst, hrest⟩ := hwalk.first
      refine ⟨first, ?_, hrest⟩
      rw [List.head?_append, hfirst]
      rfl
    · refine List.isChain_append.mpr ⟨hwalk.steps, .singleton _, fun x hx y hy => ?_⟩
      rw [hlast] at hx
      cases hx
      cases hy
      subst ha
      have hwalked : last.walkedDistance = node.walkedDistance := congrArg Track.walkedDistance htrack
      have hpoint : last.point = node.point := congrArg Track.point htrack
      rw [hlasthash, hwalked, hpoint]
      refine ⟨?_, hlink.cameFrom, hlink.walked, hlink.short⟩
      rw [show (pathNodeFrom createHash b).hash = k from hhash]
      exact hlink.move
    · rw [hmap]
      exact hnodup

omit [LinearOrder F] in
theorem length_le_keys (hnodup : path.Nodup) (hknown : ∀ q ∈ path, (nodes.lookup q).isSome = true) : path.length ≤ nodes.keys.length := by
  have hsub : path ⊆ nodes.keys := fun q hq => AList.lookup_isSome.mp (hknown q hq)
  exact (List.subperm_of_subset hnodup hsub).length_le

end PathFinder

/-!
## Every search finds a path
The nodes a search has scored are the closed ones, which have routes, and the open
ones, which point to them. Closing a node, asking for its neighbours and scoring
them keep this, and the targets know the nearest node scored so far.
-/

/-- The evaluator may close a node and change its malus. -/
structure Node.Touched {K F : Type} (node node' : Node K F) : Prop where
  same : node' = { node with closed := node'.closed, costMalus := node'.costMalus }
  closed : node.closed = true → node'.closed = true

/-- What the search relies on in an evaluator: `Move` holds of the steps that it offers. -/
structure NodeEvaluator.Lawful {E K F : Type} [DecidableEq K] (evaluator : NodeEvaluator E K F) (createHash : NodePoint → K)
    (Move : K → K → Prop) : Prop where
  start : ∀ e nodes, PathFinder.Keyed createHash nodes →
    ((evaluator.getStart e nodes).2.2.lookup (evaluator.getStart e nodes).1).isSome = true ∧
      PathFinder.Keyed createHash (evaluator.getStart e nodes).2.2
  kept : ∀ e nodes c {k node}, nodes.lookup k = some node →
    ∃ node', (evaluator.getNeighbors e nodes c).2.2.lookup k = some node' ∧ node.Touched node'
  fresh : ∀ e nodes c {k node}, nodes.lookup k = none → (evaluator.getNeighbors e nodes c).2.2.lookup k = some node →
    node.hash = k ∧ createHash node.point = k ∧ node.cameFrom = none ∧ node.heapIdx = -1
  few : ∀ e nodes c, (evaluator.getNeighbors e nodes c).1.length ≤ 26
  unclosed : ∀ e nodes c {k node}, k ∈ (evaluator.getNeighbors e nodes c).1 → nodes.lookup k = some node → node.closed = false
  moves : ∀ e nodes c {k}, k ∈ (evaluator.getNeighbors e nodes c).1 → Move c k

namespace PathFinder

variable {E K F : Type} [DecidableEq K] {createHash : NodePoint → K} {nodes nodes' nodes'' : NodeStore K F}

/-- No node loses its track, none is reopened, and new ones have no back pointer. -/
structure Kept (createHash : NodePoint → K) (nodes nodes' : NodeStore K F) : Prop where
  old : ∀ {q node}, nodes.lookup q = some node →
    ∃ node', nodes'.lookup q = some node' ∧ node'.track = node.track ∧ (node.closed = true → node'.closed = true)
  new : ∀ {q node}, nodes.lookup q = none → nodes'.lookup q = some node →
    node.hash = q ∧ createHash node.point = q ∧ node.cameFrom = none

theorem Kept.trans (h : Kept createHash nodes nodes') (h' : Kept createHash nodes' nodes'') : Kept createHash nodes nodes'' where
  old hq := by
    obtain ⟨node', hq', htrack, hclosed⟩ := h.old hq
    obtain ⟨node'', hq'', htrack', hclosed'⟩ := h'.old hq'
    exact ⟨node'', hq'', htrack'.trans htrack, fun hc => hclosed' (hclosed hc)⟩
  new {q node} hq hq'' := by
    cases hq' : nodes'.lookup q with
    | none => exact h'.new hq' hq''
    | some node' =>
      obtain ⟨hhash, hcreate, hfrom⟩ := h.new hq hq'
      obtain ⟨other, hother, htrack, _⟩ := h'.old hq'
      have hsame : other.track = node.track := by rw [Option.some.inj (hother.symm.trans hq'')]
      have hpoint : node.point = node'.point := congrArg Track.point (hsame.symm.trans htrack)
      exact ⟨(congrArg Track.hash (hsame.symm.trans htrack)).trans hhash, hpoint ▸ hcreate,
        (congrArg Track.cameFrom (hsame.symm.trans htrack)).trans hfrom⟩

theorem Kept.of_reindexed (h : Reindexed nodes nodes') : Kept createHash nodes nodes' where
  old hq := by
    obtain ⟨index, hq'⟩ := h.lookup hq
    exact ⟨_, hq', rfl, id⟩
  new {q node} hq hq' := by
    have hsome := h.isSome (k := q)
    rw [hq, hq'] at hsome
    cases hsome

/-- A change of other data. -/
theorem Kept.insert {q : K} {node n : Node K F} (hq : nodes.lookup q = some node) (htrack : n.track = node.track)
    (hclosed : node.closed = true → n.closed = true) : Kept createHash nodes (nodes.insert q n) where
  old {p other} hp := by
    rw [AssocList.lookup_insert]
    by_cases hpq : p = q
    · rw [if_pos hpq]
      rw [hpq, hq] at hp
      cases hp
      exact ⟨n, rfl, htrack, hclosed⟩
    · rw [if_neg hpq]
      exact ⟨other, hp, rfl, id⟩
  new {p other} hp hp' := by
    rw [AssocList.lookup_insert] at hp'
    by_cases hpq : p = q
    · rw [hpq, hq] at hp
      cases hp
    · rw [if_neg hpq, hp] at hp'
      cases hp'

theorem Kept.keyed (h : Kept createHash nodes nodes') (hkeyed : Keyed createHash nodes) : Keyed createHash nodes' := by
  intro k node hk
  cases hold : nodes.lookup k with
  | none =>
    obtain ⟨hhash, hcreate, _⟩ := h.new hold hk
    exact ⟨hhash, hcreate⟩
  | some old =>
    obtain ⟨node', hk', htrack, _⟩ := h.old hold
    rw [hk] at hk'
    cases hk'
    obtain ⟨hhash, hcreate⟩ := hkeyed hold
    have hpoint : node.point = old.point := congrArg Track.point htrack
    exact ⟨(congrArg Track.hash htrack).trans hhash, by rw [hpoint]; exact hcreate⟩

theorem Kept.of_lawful {evaluator : NodeEvaluator E K F} {Move : K → K → Prop} (h : evaluator.Lawful createHash Move) (e : E)
    (nodes : NodeStore K F) (c : K) : Kept createHash nodes (evaluator.getNeighbors e nodes c).2.2 where
  old hq := by
    obtain ⟨node', hq', htouched⟩ := h.kept e nodes c hq
    refine ⟨node', hq', ?_, htouched.closed⟩
    rw [htouched.same]
    rfl
  new hq hq' := by
    obtain ⟨hhash, hcreate, hfrom, _⟩ := h.fresh e nodes c hq hq'
    exact ⟨hhash, hcreate, hfrom⟩

variable [LinearOrder F] (metric : Metric F) (maxPathLength : F) (Move : K → K → Prop) (start : K)

/-- The nodes scored so far: those in `done` were closed by the search, in that order. -/
structure Explored (createHash : NodePoint → K) (nodes : NodeStore K F) (done heap : List K) : Prop where
  keyed : Keyed createHash nodes
  routes : ∀ k ∈ done, ∃ path, Route metric maxPathLength Move start nodes k path ∧ path.Nodup ∧ path ⊆ done
  closed : ∀ k ∈ done, ∃ node, nodes.lookup k = some node ∧ node.closed = true
  disjoint : ∀ k ∈ done, k ∉ heap
  opened : ∀ k ∈ heap, (k = start ∧ ∃ node, Root metric start nodes node) ∨
    ∃ c ∈ done, ∃ a b, Linked metric maxPathLength Move nodes c k a b
  first : done = [] ∨ start ∈ done
  scored : ∀ {q node}, nodes.lookup q = some node → node.cameFrom ≠ none → q ∈ done ∨ q ∈ heap

variable {metric maxPathLength Move start} {done heap : List K} {c k : K}

theorem Explored.kept (h : Explored metric maxPathLength Move start createHash nodes done heap) (hkept : Kept createHash nodes nodes') :
    Explored metric maxPathLength Move start createHash nodes' done heap where
  keyed := hkept.keyed h.keyed
  routes k hk := by
    obtain ⟨path, hroute, hrest⟩ := h.routes k hk
    refine ⟨path, hroute.frame fun q _ node hq => ?_, hrest⟩
    obtain ⟨node', hq', htrack, _⟩ := hkept.old hq
    exact ⟨node', hq', htrack⟩
  closed k hk := by
    obtain ⟨node, hnode, hclosed⟩ := h.closed k hk
    obtain ⟨node', hnode', _, hclosed'⟩ := hkept.old hnode
    exact ⟨node', hnode', hclosed' hclosed⟩
  disjoint := h.disjoint
  opened k hk := by
    have hold : ∀ {q node}, nodes.lookup q = some node → ∃ node', nodes'.lookup q = some node' ∧ node'.track = node.track := by
      intro q node hq
      obtain ⟨node', hq', htrack, _⟩ := hkept.old hq
      exact ⟨node', hq', htrack⟩
    obtain ⟨hstart, node, hroot⟩ | ⟨c, hc, a, b, hlink⟩ := h.opened k hk
    · exact .inl ⟨hstart, hroot.frame (hold hroot.lookup)⟩
    · exact .inr ⟨c, hc, hlink.frame (hold hlink.previous) (hold hlink.node)⟩
  first := h.first
  scored {q node} hq hfrom := by
    cases hold : nodes.lookup q with
    | none => exact absurd (hkept.new hold hq).2.2 hfrom
    | some old =>
      obtain ⟨node', hq', htrack, _⟩ := hkept.old hold
      rw [hq] at hq'
      cases hq'
      have hsame : node.cameFrom = old.cameFrom := congrArg Track.cameFrom htrack
      exact h.scored hold (hsame ▸ hfrom)

/-- A route to every scored node. -/
theorem Explored.route (h : Explored metric maxPathLength Move start createHash nodes done heap) (hk : k ∈ done ∨ k ∈ heap) :
    ∃ path, Route metric maxPathLength Move start nodes k path ∧ path.Nodup ∧ path ⊆ done ++ [k] := by
  cases hk with
  | inl hdone =>
    obtain ⟨path, hroute, hnodup, hsub⟩ := h.routes k hdone
    exact ⟨path, hroute, hnodup, fun q hq => List.mem_append_left _ (hsub hq)⟩
  | inr hopen =>
    obtain ⟨hstart, node, hroot⟩ | ⟨c, hc, a, b, hlink⟩ := h.opened k hopen
    · subst hstart
      exact ⟨[k], .start hroot, List.nodup_singleton k, fun q hq => List.mem_append_right _ hq⟩
    · obtain ⟨path, hroute, hnodup, hsub⟩ := h.routes c hc
      have hfresh : k ∉ path := fun hmem => h.disjoint k (hsub hmem) hopen
      refine ⟨path ++ [k], .step hroute hlink, ?_, fun q hq => ?_⟩
      · exact List.nodup_append.mpr ⟨hnodup, List.nodup_singleton k, fun a ha b hb => by
          rw [List.mem_singleton.mp hb]
          rintro rfl
          exact hfresh ha⟩
      · cases List.mem_append.mp hq with
        | inl hold => exact List.mem_append_left _ (hsub hold)
        | inr hlast => exact List.mem_append_right _ hlast

/-- The cheapest open node is closed. -/
theorem Explored.pop {rest : List K} (h : Explored metric maxPathLength Move start createHash nodes done heap)
    (hperm : heap.Perm (k :: rest)) (hnodup : heap.Nodup) (hclosed : ∃ node, nodes.lookup k = some node ∧ node.closed = true) :
    Explored metric maxPathLength Move start createHash nodes (done ++ [k]) rest where
  keyed := h.keyed
  routes q hq := by
    cases List.mem_append.mp hq with
    | inl hold =>
      obtain ⟨path, hroute, hpath, hsub⟩ := h.routes q hold
      exact ⟨path, hroute, hpath, fun p hp => List.mem_append_left _ (hsub hp)⟩
    | inr hlast =>
      rw [List.mem_singleton.mp hlast]
      exact h.route (.inr (hperm.mem_iff.mpr List.mem_cons_self))
  closed q hq := by
    cases List.mem_append.mp hq with
    | inl hold => exact h.closed q hold
    | inr hlast =>
      rw [List.mem_singleton.mp hlast]
      exact hclosed
  disjoint q hq hrest := by
    cases List.mem_append.mp hq with
    | inl hold => exact h.disjoint q hold (hperm.mem_iff.mpr (List.mem_cons_of_mem k hrest))
    | inr hlast =>
      rw [List.mem_singleton.mp hlast] at hrest
      exact (List.nodup_cons.mp (hperm.nodup_iff.mp hnodup)).1 hrest
  opened q hq := by
    cases h.opened q (hperm.mem_iff.mpr (List.mem_cons_of_mem k hq)) with
    | inl hstart => exact .inl hstart
    | inr hlink =>
      obtain ⟨c, hc, hrest⟩ := hlink
      exact .inr ⟨c, List.mem_append_left _ hc, hrest⟩
  first := by
    right
    cases h.first with
    | inr hold => exact List.mem_append_left _ hold
    | inl hnil =>
      obtain ⟨hstart, _⟩ | ⟨c, hc, _⟩ := h.opened k (hperm.mem_iff.mpr List.mem_cons_self)
      · rw [hstart]
        exact List.mem_append_right _ (List.mem_singleton_self start)
      · rw [hnil] at hc
        cases hc
  scored hq hfrom := by
    cases h.scored hq hfrom with
    | inl hold => exact .inl (List.mem_append_left _ hold)
    | inr hopen =>
      cases List.mem_cons.mp (hperm.mem_iff.mp hopen) with
      | inl heq => exact .inl (List.mem_append_right _ (List.mem_singleton.mpr heq))
      | inr hrest => exact .inr hrest

/-- A node that is not closed gets a pointer to a closed one, and is open. -/
theorem Explored.score {heap' : List K} {a b old : Node K F} (h : Explored metric maxPathLength Move start createHash nodes done heap)
    (hold : nodes.lookup k = some old) (hhash : b.hash = old.hash) (hpoint : b.point = old.point) (hc : c ∈ done) (hk : k ∉ done)
    (hlink : Linked metric maxPathLength Move (nodes.insert k b) c k a b)
    (hheap : ∀ q, q ∈ heap' ↔ q = k ∨ q ∈ heap) :
    Explored metric maxPathLength Move start createHash (nodes.insert k b) done heap' where
  keyed {q node} hq := by
    rw [AssocList.lookup_insert] at hq
    split at hq
    · rename_i heq
      cases hq
      obtain ⟨hash, hcreate⟩ := h.keyed hold
      exact ⟨(hhash.trans hash).trans heq.symm, by rw [hpoint, heq]; exact hcreate⟩
    · exact h.keyed hq
  routes q hq := by
    obtain ⟨path, hroute, hnodup, hsub⟩ := h.routes q hq
    refine ⟨path, hroute.frame fun p hp node hnode => ⟨node, ?_, rfl⟩, hnodup, hsub⟩
    rw [AssocList.lookup_insert, if_neg]
    · exact hnode
    · rintro rfl
      exact hk (hsub hp)
  closed q hq := by
    obtain ⟨node, hnode, hclosed⟩ := h.closed q hq
    refine ⟨node, ?_, hclosed⟩
    rw [AssocList.lookup_insert, if_neg]
    · exact hnode
    · rintro rfl
      exact hk hq
  disjoint q hq hmem := by
    cases (hheap q).mp hmem with
    | inl heq => exact hk (heq ▸ hq)
    | inr hopen => exact h.disjoint q hq hopen
  opened q hq := by
    by_cases hqk : q = k
    · subst hqk
      exact .inr ⟨c, hc, a, b, hlink⟩
    · have hopen := ((hheap q).mp hq).resolve_left hqk
      obtain ⟨hstart, node, hroot⟩ | ⟨d, hd, a', b', hlink'⟩ := h.opened q hopen
      · refine .inl ⟨hstart, hroot.frame ⟨node, ?_, rfl⟩⟩
        rw [AssocList.lookup_insert, if_neg]
        · exact hroot.lookup
        · rintro rfl
          exact hk (h.first.resolve_left (List.ne_nil_of_mem hc))
      · have hdk : d ≠ k := by
          rintro rfl
          exact hk hd
        refine .inr ⟨d, hd, hlink'.frame ⟨a', ?_, rfl⟩ ⟨b', ?_, rfl⟩⟩
        · rw [AssocList.lookup_insert, if_neg hdk]
          exact hlink'.previous
        · rw [AssocList.lookup_insert, if_neg hqk]
          exact hlink'.node
  first := h.first
  scored {q node} hq hfrom := by
    by_cases hqk : q = k
    · exact .inr ((hheap q).mpr (.inl hqk))
    · rw [AssocList.lookup_insert, if_neg hqk] at hq
      cases h.scored hq hfrom with
      | inl hdone => exact .inl hdone
      | inr hopen => exact .inr ((hheap q).mpr (.inr hopen))

theorem Explored.known (h : Explored metric maxPathLength Move start createHash nodes done heap) {q : K} (hq : q ∈ done ∨ q ∈ heap) :
    (nodes.lookup q).isSome = true := by
  obtain ⟨path, hroute, _⟩ := h.route hq
  exact hroute.known q hroute.mem

/-! ## The targets -/

/-- The target knows the nearest scored node. -/
structure Aimed (metric : Metric F) (nodes : NodeStore K F) (S : K → Prop) (t : PathTarget K F) : Prop where
  node : t.target.node = t.pos
  best : ∃ k node, t.target.bestNode = some k ∧ S k ∧ nodes.lookup k = some node ∧
    t.target.bestHeuristic = metric.distance node.point t.pos
  least : ∀ {q node}, S q → nodes.lookup q = some node → t.target.bestHeuristic ≤ metric.distance node.point t.pos

variable {S T : K → Prop} {t : PathTarget K F}

theorem Aimed.kept (h : Aimed metric nodes S t) (hkept : Kept createHash nodes nodes')
    (hknown : ∀ q, S q → (nodes.lookup q).isSome = true) (hseen : ∀ q, T q ↔ S q) : Aimed metric nodes' T t where
  node := h.node
  best := by
    obtain ⟨k, node, hbest, hk, hnode, hdistance⟩ := h.best
    obtain ⟨node', hnode', htrack, _⟩ := hkept.old hnode
    have hpoint : node'.point = node.point := congrArg Track.point htrack
    exact ⟨k, node', hbest, (hseen k).mpr hk, hnode', by rw [hpoint]; exact hdistance⟩
  least {q node'} hq hnode' := by
    obtain ⟨node, hnode⟩ := Option.isSome_iff_exists.mp (hknown q ((hseen q).mp hq))
    obtain ⟨other, hother, htrack, _⟩ := hkept.old hnode
    rw [hnode'] at hother
    cases hother
    have hpoint : node'.point = node.point := congrArg Track.point htrack
    rw [hpoint]
    exact h.least ((hseen q).mp hq) hnode

/-- The target as `get_best_h` leaves it. -/
def hear (metric : Metric F) (node : Node K F) (t : PathTarget K F) : PathTarget K F :=
  { t with target := t.target.updateBest (metric.distance node.point t.target.node) node.hash }

theorem Aimed.hear {b old : Node K F} (h : Aimed metric nodes S t) (hold : nodes.lookup k = some old) (hhash : old.hash = k)
    (hpoint : b.point = old.point) (hseen : ∀ q, T q ↔ q = k ∨ S q) :
    Aimed metric (nodes.insert k b) T (PathFinder.hear metric old t) := by
  have hdistance : ∀ {q node}, (nodes.insert k b).lookup q = some node → ∃ node', nodes.lookup q = some node' ∧ node.point = node'.point := by
    intro q node hq
    rw [AssocList.lookup_insert] at hq
    by_cases hqk : q = k
    · rw [if_pos hqk] at hq
      cases hq
      exact ⟨old, hqk ▸ hold, hpoint⟩
    · rw [if_neg hqk] at hq
      exact ⟨node, hq, rfl⟩
  have hlookup : ∀ {q node}, nodes.lookup q = some node → ∃ node', (nodes.insert k b).lookup q = some node' ∧ node'.point = node.point := by
    intro q node hq
    rw [AssocList.lookup_insert]
    by_cases hqk : q = k
    · rw [hqk, hold] at hq
      cases hq
      exact ⟨b, if_pos hqk, hpoint⟩
    · exact ⟨node, by rw [if_neg hqk]; exact hq, rfl⟩
  unfold PathFinder.hear Target.updateBest
  rw [h.node]
  by_cases hlt : metric.distance old.point t.pos < t.target.bestHeuristic
  · rw [if_pos hlt]
    refine ⟨rfl, ?_, fun {q node} hq hnode => ?_⟩
    · obtain ⟨node', hnode', hpoint'⟩ := hlookup hold
      exact ⟨k, node', congrArg some hhash, (hseen k).mpr (.inl rfl), hnode', by rw [hpoint']⟩
    · obtain ⟨node', hnode', hpoint'⟩ := hdistance hnode
      rw [hpoint']
      cases (hseen q).mp hq with
      | inl heq =>
        rw [heq, hold] at hnode'
        cases hnode'
        exact le_refl _
      | inr hq' => exact hlt.le.trans (h.least hq' hnode')
  · rw [if_neg hlt]
    obtain ⟨q, node, hbest, hq, hnode, heq⟩ := h.best
    obtain ⟨node', hnode', hpoint'⟩ := hlookup hnode
    refine ⟨h.node, ⟨q, node', hbest, (hseen q).mpr (.inr hq), hnode', by rw [hpoint']; exact heq⟩, fun {p other} hp hother => ?_⟩
    obtain ⟨other', hother', hpoint''⟩ := hdistance hother
    rw [hpoint'']
    cases (hseen p).mp hp with
    | inl hpk =>
      rw [hpk, hold] at hother'
      cases hother'
      exact le_of_not_gt hlt
    | inr hp' => exact h.least hp' hother'

/-- A new target, that heard of the start alone. -/
theorem Aimed.first {b old : Node K F} {pos : NodePoint} (hhash : old.hash = k) (hpoint : b.point = old.point)
    (hfar : metric.distance old.point pos < metric.maxValue) (hseen : ∀ q, T q ↔ q = k) :
    Aimed metric (nodes.insert k b) T (PathFinder.hear metric old (PathTarget.new metric pos)) := by
  have hb : (nodes.insert k b).lookup k = some b := by rw [AssocList.lookup_insert, if_pos rfl]
  unfold PathFinder.hear Target.updateBest PathTarget.new
  dsimp only
  rw [if_pos hfar]
  refine ⟨rfl, ⟨k, b, congrArg some hhash, (hseen k).mpr rfl, hb, by rw [hpoint]⟩, fun {q node} hq hnode => ?_⟩
  rw [(hseen q).mp hq, hb] at hnode
  cases hnode
  rw [hpoint]

end PathFinder

end Foton.Path
