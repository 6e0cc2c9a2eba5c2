import Foton.Path.SearchRuns
import Mathlib.Algebra.Ring.Int.Defs

/-!
# What a search returns

From a start node that the evaluator knows, and with fewer visits than would
overflow an index, the search returns a path from the start along steps that the
evaluator offered, to the node nearest to its target among those scored.
-/

namespace Foton.Path.PathFinder

variable {E K F : Type} [DecidableEq K] [LinearOrder F] {metric : Metric F} {createHash : NodePoint → K} {Move : K → K → Prop}
  {request : PathRequest F} {start c k : K} {done : List K} {s : Search E K F}

/-- A target that was reached has a closed node in reach. -/
def InReach (metric : Metric F) (range : F) (s : Search E K F) (i : Nat) : Prop :=
  ∃ t, s.targets[i]? = some t ∧ ∃ q node, s.openSet.nodes.lookup q = some node ∧ node.closed = true ∧
    metric.manhattan node.point t.pos ≤ range

structure Searching (metric : Metric F) (createHash : NodePoint → K) (Move : K → K → Prop) (request : PathRequest F) (start : K)
    (done : List K) (s : Search E K F) : Prop where
  valid : s.openSet.Valid
  explored : Explored metric request.maxPathLength Move start createHash s.openSet.nodes done s.openSet.heap
  aimed : ∀ t ∈ s.targets, Aimed metric s.openSet.nodes (fun q => q ∈ done ∨ q ∈ s.openSet.heap) t
  positions : s.targets.map PathTarget.pos = request.targets

/-! ## One neighbour -/

omit [DecidableEq K] in
theorem hear_positions (node : Node K F) (targets : List (PathTarget K F)) :
    (targets.map (hear metric node)).map PathTarget.pos = targets.map PathTarget.pos :=
  List.map_map

/-- What scoring a neighbour leaves. -/
structure Scored (metric : Metric F) (createHash : NodePoint → K) (Move : K → K → Prop) (request : PathRequest F) (start : K)
    (done : List K) (s s' : Search E K F) : Prop where
  searching : Searching metric createHash Move request start done s'
  length : s'.openSet.heap.length ≤ s.openSet.heap.length + 1
  reachedTargets : s'.reachedTargets = s.reachedTargets
  tracks : ∀ q ∈ done, ∀ node, s.openSet.nodes.lookup q = some node →
    ∃ node', s'.openSet.nodes.lookup q = some node' ∧ node'.track = node.track

/-- The scored node, once the open set took it. -/
theorem Searching.scored {nodes : NodeStore K F} {o : OpenSet K F} {a b neighbor current : Node K F}
    (h : Searching metric createHash Move request start done s) (hneighbor : s.openSet.nodes.lookup k = some neighbor)
    (hhash : b.hash = neighbor.hash) (hpoint : b.point = neighbor.point) (hc : c ∈ done) (hk : k ∉ done)
    (hcurrent : s.openSet.nodes.lookup c = some a) (htrack : a.track = current.track) (hfrom : b.cameFrom = some c)
    (hwalked : b.walkedDistance = metric.add current.walkedDistance (metric.distance current.point b.point))
    (hshort : b.walkedDistance < request.maxPathLength) (hmove : Move c k)
    (hnodes : nodes = s.openSet.nodes.insert k b) (hvalid : o.Valid) (hkept : Kept createHash nodes o.nodes)
    (hlength : o.heap.length ≤ s.openSet.heap.length + 1) (hheap : ∀ q, q ∈ o.heap ↔ q = k ∨ q ∈ s.openSet.heap) :
    Scored metric createHash Move request start done s
      { s with openSet := o, targets := s.targets.map (hear metric neighbor) } := by
  subst hnodes
  have hck : c ≠ k := by
    rintro rfl
    exact hk hc
  have hpoint' : a.point = current.point := congrArg Track.point htrack
  have hwalked' : a.walkedDistance = current.walkedDistance := congrArg Track.walkedDistance htrack
  have hlink : Linked metric request.maxPathLength Move (s.openSet.nodes.insert k b) c k a b := by
    refine ⟨?_, ?_, hfrom, ?_, hshort, hmove⟩
    · rw [AssocList.lookup_insert, if_neg hck]
      exact hcurrent
    · rw [AssocList.lookup_insert, if_pos rfl]
    · rw [hpoint', hwalked']
      exact hwalked
  have hexplored := h.explored.score hneighbor hhash hpoint hc hk hlink hheap
  refine ⟨⟨hvalid, hexplored.kept hkept, fun t ht => ?_, ?_⟩, hlength, rfl, fun q hq node hnode => ?_⟩
  · obtain ⟨t, ht', rfl⟩ := List.mem_map.mp ht
    refine ((h.aimed t ht').hear (T := fun q => q ∈ done ∨ q ∈ o.heap) hneighbor (h.explored.keyed hneighbor).1 hpoint fun q => ?_).kept
      hkept (fun q hq => hexplored.known hq) fun q => Iff.rfl
    rw [hheap]
    tauto
  · exact (hear_positions neighbor s.targets).trans h.positions
  · have hqk : q ≠ k := by
      rintro rfl
      exact hk hq
    have hinsert : (s.openSet.nodes.insert k b).lookup q = some node := by
      rw [AssocList.lookup_insert, if_neg hqk]
      exact hnode
    obtain ⟨node', hnode', htrack', _⟩ := hkept.old hinsert
    exact ⟨node', hnode', htrack'⟩

theorem Searching.skipped (h : Searching metric createHash Move request start done s) :
    Scored metric createHash Move request start done s s :=
  ⟨h, Nat.le_succ _, rfl, fun _ _ node hnode => ⟨node, hnode, rfl⟩⟩

theorem scoreNeighbor_spec {a current : Node K F} (h : Searching metric createHash Move request start done s) (hc : c ∈ done)
    (hk : k ∉ done) (hcurrent : s.openSet.nodes.lookup c = some a) (htrack : a.track = current.track) (hmove : Move c k)
    (hroom : s.openSet.heap.length < 2 ^ 31) :
    ∃ s', scoreNeighbor metric request c current s k = .ok s' ∧ Scored metric createHash Move request start done s s' := by
  unfold scoreNeighbor
  cases hneighbor : s.openSet.nodes.lookup k with
  | none => exact ⟨s, rfl, h.skipped⟩
  | some neighbor =>
    dsimp only
    by_cases hlong : request.maxPathLength ≤ metric.add current.walkedDistance (metric.distance current.point neighbor.point)
    · rw [if_pos hlong]
      exact ⟨s, rfl, h.skipped⟩
    rw [if_neg hlong]
    by_cases hworse : (neighbor.inOpenSet && decide (neighbor.g ≤
        metric.add (metric.add current.g (metric.distance current.point neighbor.point)) neighbor.costMalus)) = true
    · rw [if_pos hworse]
      exact ⟨s, rfl, h.skipped⟩
    rw [if_neg hworse]
    have hshort := lt_of_not_ge hlong
    have hopen := h.valid.inOpenSet_iff hneighbor
    by_cases hin : neighbor.inOpenSet = true
    · rw [if_pos hin]
      have hmem := hopen.mp hin
      generalize hb : ({ neighbor with
          cameFrom := some c
          g := metric.add (metric.add current.g (metric.distance current.point neighbor.point)) neighbor.costMalus
          h := metric.fudge (getBestH metric neighbor s.targets).1
          walkedDistance := metric.add current.walkedDistance (metric.distance current.point neighbor.point) } : Node K F) = b
      have hlookup : (s.openSet.nodes.insert k b).lookup k = some b := by rw [AssocList.lookup_insert, if_pos rfl]
      have hvalid : OpenSet.Valid ⟨s.openSet.heap, s.openSet.nodes.insert k b⟩ := by
        refine h.valid.store (fun q _ => ?_) fun q node hq hnode => ?_
        · rw [AssocList.lookup_insert]
          split
          · rename_i heq
            rw [heq, hneighbor, ← hb]
            rfl
          · rfl
        · rw [AssocList.lookup_insert, if_neg (by rintro rfl; exact hq hmem)] at hnode
          exact h.valid.absent hnode hq
      obtain ⟨o, hrun, hvalid', hperm, hreindexed⟩ := OpenSet.changeCost_spec hvalid hlookup hmem
        (metric.add b.g b.h)
      have hkept : Kept createHash (s.openSet.nodes.insert k b) o.nodes :=
        (Kept.insert (n := { b with f := metric.add b.g b.h }) hlookup rfl id).trans (Kept.of_reindexed hreindexed)
      rw [show metric.add (metric.add (metric.add current.g (metric.distance current.point neighbor.point)) neighbor.costMalus)
        (metric.fudge (getBestH metric neighbor s.targets).1) = metric.add b.g b.h by rw [← hb], hrun]
      refine ⟨_, rfl, h.scored hneighbor ?_ ?_ hc hk hcurrent htrack ?_ ?_ ?_ hmove rfl
        hvalid' hkept ?_ fun q => ?_⟩
      · rw [← hb]
      · rw [← hb]
        rfl
      · rw [← hb]
      · rw [← hb]
        rfl
      · rw [← hb]
        exact hshort
      · exact hperm.length_eq.le.trans (Nat.le_succ _)
      · rw [hperm.mem_iff]
        constructor
        · exact .inr
        · rintro (rfl | hq)
          · exact hmem
          · exact hq
    · rw [if_neg hin]
      have hmem : k ∉ s.openSet.heap := fun hq => hin (hopen.mpr hq)
      generalize hb : ({ neighbor with
          cameFrom := some c
          g := metric.add (metric.add current.g (metric.distance current.point neighbor.point)) neighbor.costMalus
          h := metric.fudge (getBestH metric neighbor s.targets).1
          f := metric.add (metric.add (metric.add current.g (metric.distance current.point neighbor.point)) neighbor.costMalus)
            (metric.fudge (getBestH metric neighbor s.targets).1)
          walkedDistance := metric.add current.walkedDistance (metric.distance current.point neighbor.point) } : Node K F) = b
      have hlookup : (s.openSet.nodes.insert k b).lookup k = some b := by rw [AssocList.lookup_insert, if_pos rfl]
      have hvalid : OpenSet.Valid ⟨s.openSet.heap, s.openSet.nodes.insert k b⟩ := by
        refine h.valid.store (fun q hq => ?_) fun q node hq hnode => ?_
        · rw [AssocList.lookup_insert, if_neg (by rintro rfl; exact hmem hq)]
        · rw [AssocList.lookup_insert] at hnode
          split at hnode
          · rename_i heq
            cases hnode
            rw [← hb]
            exact h.valid.absent (n := neighbor) hneighbor (heq ▸ hq)
          · exact h.valid.absent hnode hq
      obtain ⟨o, hrun, hvalid', hperm, hreindexed⟩ := OpenSet.insert_spec hvalid hroom hlookup hmem
      rw [hrun]
      refine ⟨_, rfl, h.scored hneighbor ?_ ?_ hc hk hcurrent htrack ?_ ?_ ?_ hmove rfl
        hvalid' (Kept.of_reindexed hreindexed) ?_ fun q => ?_⟩
      · rw [← hb]
      · rw [← hb]
        rfl
      · rw [← hb]
      · rw [← hb]
        rfl
      · rw [← hb]
        exact hshort
      · rw [hperm.length_eq, List.length_cons]
      · rw [hperm.mem_iff, List.mem_cons]

theorem Searching.frame (h : Searching metric createHash Move request start done s) {e : E} {nodes : NodeStore K F}
    (hvalid : OpenSet.Valid ⟨s.openSet.heap, nodes⟩) (hkept : Kept createHash s.openSet.nodes nodes) :
    Searching metric createHash Move request start done { s with evaluator := e, openSet := ⟨s.openSet.heap, nodes⟩ } where
  valid := hvalid
  explored := h.explored.kept hkept
  aimed t ht := (h.aimed t ht).kept hkept (fun _ hq => h.explored.known hq) fun _ => Iff.rfl
  positions := h.positions

/-- The neighbours are scored one after the other. -/
theorem scoreAll_spec {current : Node K F} (hc : c ∈ done) {ks : List K} (hks : ∀ k ∈ ks, k ∉ done ∧ Move c k)
    {s : Search E K F} {a : Node K F} (h : Searching metric createHash Move request start done s)
    (hcurrent : s.openSet.nodes.lookup c = some a) (htrack : a.track = current.track)
    (hroom : s.openSet.heap.length + ks.length ≤ 2 ^ 31) :
    ∃ s', ks.foldlM (scoreNeighbor metric request c current) s = .ok s' ∧ Searching metric createHash Move request start done s' ∧
      s'.openSet.heap.length ≤ s.openSet.heap.length + ks.length ∧ s'.reachedTargets = s.reachedTargets := by
  induction ks generalizing s a with
  | nil => exact ⟨s, rfl, h, Nat.le_refl _, rfl⟩
  | cons k ks ih =>
    rw [List.length_cons] at hroom
    obtain ⟨hk, hmove⟩ := hks k List.mem_cons_self
    obtain ⟨s₁, hrun, hscored⟩ := scoreNeighbor_spec h hc hk hcurrent htrack hmove (by omega)
    obtain ⟨a', hcurrent', htrack'⟩ := hscored.tracks c hc a hcurrent
    have hlength := hscored.length
    obtain ⟨s', hrun', hsearching, hlength', hreached⟩ :=
      ih (fun q hq => hks q (List.mem_cons_of_mem k hq)) hscored.searching hcurrent' (htrack'.trans htrack) (by omega)
    refine ⟨s', ?_, hsearching, ?_, hreached.trans hscored.reachedTargets⟩
    · rw [List.foldlM_cons, hrun]
      exact hrun'
    · rw [List.length_cons]
      omega

theorem expand_spec {evaluator : NodeEvaluator E K F} {a : Node K F} (current : Node K F) (hlawful : evaluator.Lawful createHash Move)
    (h : Searching metric createHash Move request start done s) (hc : c ∈ done) (hcurrent : s.openSet.nodes.lookup c = some a)
    (htrack : a.track = current.track) (hroom : s.openSet.heap.length + 26 ≤ 2 ^ 31) :
    ∃ s', expand metric evaluator request c current s = .ok s' ∧ Searching metric createHash Move request start done s' ∧
      s'.openSet.heap.length ≤ s.openSet.heap.length + 26 ∧ s'.reachedTargets = s.reachedTargets := by
  have hkept := Kept.of_lawful hlawful s.evaluator s.openSet.nodes c
  have hvalid : OpenSet.Valid ⟨s.openSet.heap, (evaluator.getNeighbors s.evaluator s.openSet.nodes c).2.2⟩ := by
    refine h.valid.store (fun q hq => ?_) fun q node hq hnode => ?_
    · obtain ⟨node, hnode⟩ := Option.isSome_iff_exists.mp (h.valid.known q hq)
      obtain ⟨node', hnode', htouched⟩ := hlawful.kept s.evaluator s.openSet.nodes c hnode
      rw [hnode, hnode', htouched.same]
      rfl
    · cases hold : s.openSet.nodes.lookup q with
      | none => exact (hlawful.fresh _ _ _ hold hnode).2.2.2
      | some old =>
        obtain ⟨node', hnode', htouched⟩ := hlawful.kept s.evaluator s.openSet.nodes c hold
        rw [hnode] at hnode'
        cases hnode'
        rw [htouched.same]
        exact h.valid.absent (n := old) hold hq
  have hneighbors : ∀ k ∈ (evaluator.getNeighbors s.evaluator s.openSet.nodes c).1, k ∉ done ∧ Move c k := by
    intro k hk
    refine ⟨fun hdone => ?_, hlawful.moves _ _ _ hk⟩
    obtain ⟨node, hnode, hclosed⟩ := h.explored.closed k hdone
    rw [hlawful.unclosed _ _ _ hk hnode] at hclosed
    exact Bool.false_ne_true hclosed
  obtain ⟨a', hcurrent', htrack', _⟩ := hkept.old hcurrent
  have hfew := hlawful.few s.evaluator s.openSet.nodes c
  obtain ⟨s', hrun, hsearching, hlength, hreached⟩ := scoreAll_spec hc hneighbors
    (h.frame (e := (evaluator.getNeighbors s.evaluator s.openSet.nodes c).2.1) hvalid hkept) hcurrent' (htrack'.trans htrack)
    (by dsimp only; omega)
  dsimp only at hlength
  exact ⟨s', hrun, hsearching, by omega, hreached⟩

/-! ## One visit -/

omit [DecidableEq K] in
theorem markReached_targets (range : F) (point : NodePoint) (targets : List (PathTarget K F)) (i : Nat) (reached : List Nat) :
    (markReached metric range point i targets reached).1 = targets.map fun t =>
      if metric.manhattan point t.target.node ≤ range then { t with target := { t.target with reached := true } } else t := by
  induction targets generalizing i reached with
  | nil => rfl
  | cons t targets ih =>
    unfold markReached
    rw [List.map_cons]
    split
    · dsimp only
      rw [ih]
    · dsimp only
      rw [ih]

omit [DecidableEq K] in
/-- A new index is that of a target in reach. -/
theorem markReached_reached (range : F) (point : NodePoint) (targets : List (PathTarget K F)) (i : Nat) (reached : List Nat) {j : Nat}
    (hj : j ∈ (markReached metric range point i targets reached).2) :
    j ∈ reached ∨ ∃ l t, j = i + l ∧ targets[l]? = some t ∧ metric.manhattan point t.target.node ≤ range := by
  induction targets generalizing i reached with
  | nil => exact .inl hj
  | cons t targets ih =>
    have hlater : ∀ {rs : List Nat}, j ∈ (markReached metric range point (i + 1) targets rs).2 →
        j ∈ rs ∨ ∃ l t', j = i + l ∧ (t :: targets)[l]? = some t' ∧ metric.manhattan point t'.target.node ≤ range := by
      intro rs hrs
      refine (ih (i + 1) rs hrs).imp_right fun hnew => ?_
      obtain ⟨l, t', hl, ht', hle⟩ := hnew
      exact ⟨l + 1, t', by omega, by rw [List.getElem?_cons_succ]; exact ht', hle⟩
    unfold markReached at hj
    split at hj
    · rename_i hle
      cases hlater hj with
      | inr hnew => exact .inr hnew
      | inl hold =>
        split at hold
        · exact .inl hold
        · cases List.mem_append.mp hold with
          | inl hold => exact .inl hold
          | inr hlast => exact .inr ⟨0, t, List.mem_singleton.mp hlast, rfl, hle⟩
    · exact hlater hj

/-- The popped node is closed. -/
theorem Searching.close {o : OpenSet K F} {rest : List K} {current : Node K F}
    (h : Searching metric createHash Move request start done s) (hheap : s.openSet.heap = c :: rest) (hvalid : o.Valid)
    (hperm : o.heap.Perm rest) (hreindexed : Reindexed s.openSet.nodes o.nodes) (hcurrent : o.nodes.lookup c = some current) :
    Searching metric createHash Move request start (done ++ [c]) (close metric request c current { s with openSet := o }) := by
  have hnodup := h.valid.nodup
  rw [hheap] at hnodup
  have hfresh : c ∉ o.heap := fun hq => (List.nodup_cons.mp hnodup).1 (hperm.mem_iff.mp hq)
  have hkept : Kept createHash s.openSet.nodes (o.nodes.insert c { current with closed := true }) :=
    (Kept.of_reindexed hreindexed).trans (Kept.insert hcurrent rfl fun _ => rfl)
  have hlookup : (o.nodes.insert c { current with closed := true }).lookup c = some { current with closed := true } := by
    rw [AssocList.lookup_insert, if_pos rfl]
  have hperm' : s.openSet.heap.Perm (c :: o.heap) := by
    rw [hheap]
    exact List.Perm.cons c hperm.symm
  have hexplored := (h.explored.kept hkept).pop hperm' h.valid.nodup ⟨_, hlookup, rfl⟩
  refine ⟨?_, hexplored, fun t ht => ?_, ?_⟩
  · refine hvalid.store (fun q hq => ?_) fun q node hq hnode => ?_
    · rw [AssocList.lookup_insert, if_neg (by rintro rfl; exact hfresh hq)]
    · rw [AssocList.lookup_insert] at hnode
      split at hnode
      · cases hnode
        exact hvalid.absent (n := current) hcurrent hfresh
      · exact hvalid.absent hnode hq
  · unfold PathFinder.close at ht
    dsimp only at ht
    rw [markReached_targets] at ht
    obtain ⟨t, ht', rfl⟩ := List.mem_map.mp ht
    have haimed := (h.aimed t ht').kept (T := fun q => q ∈ done ++ [c] ∨ q ∈ o.heap) hkept (fun q hq => h.explored.known hq) fun q => by
      rw [hperm'.mem_iff, List.mem_cons, List.mem_append, List.mem_singleton]
      tauto
    split
    · exact ⟨haimed.node, haimed.best, haimed.least⟩
    · exact haimed
  · unfold PathFinder.close
    dsimp only
    rw [markReached_targets, List.map_map]
    refine Eq.trans (List.map_congr_left fun t _ => ?_) h.positions
    rw [Function.comp_apply]
    split <;> rfl

theorem close_reached (metric : Metric F) (request : PathRequest F) (c : K) (o : OpenSet K F) (current : Node K F) (hnone : s.reachedTargets = [])
    (haimed : ∀ t ∈ s.targets, t.target.node = t.pos) :
    ∀ i ∈ (close metric request c current { s with openSet := o }).reachedTargets,
      InReach metric request.reachRange (close metric request c current { s with openSet := o }) i := by
  intro i hi
  unfold close at hi
  dsimp only at hi
  rw [hnone] at hi
  obtain hi | ⟨l, t, hl, ht, hle⟩ := markReached_reached _ _ _ _ _ hi
  · cases hi
  · rw [Nat.zero_add] at hl
    subst hl
    unfold close
    refine ⟨{ t with target := { t.target with reached := true } }, ?_, c, { current with closed := true }, ?_, rfl, ?_⟩
    · dsimp only
      rw [markReached_targets, List.getElem?_map, ht, Option.map_some, if_pos hle]
    · dsimp only
      rw [AssocList.lookup_insert, if_pos rfl]
    · rw [haimed t (List.mem_of_getElem? ht)] at hle
      exact hle

/-! ## Whole searches -/

theorem searchLoop_spec {evaluator : NodeEvaluator E K F} (hlawful : evaluator.Lawful createHash Move) (fromPoint : NodePoint)
    (visits : Nat) {s : Search E K F} {done : List K} (h : Searching metric createHash Move request start done s)
    (hnone : s.reachedTargets = []) (hroom : s.openSet.heap.length + 26 * visits ≤ 2 ^ 31) :
    ∃ s' done', searchLoop metric evaluator request fromPoint visits s = .ok s' ∧
      Searching metric createHash Move request start done' s' ∧ ∀ i ∈ s'.reachedTargets, InReach metric request.reachRange s' i := by
  have hfinal : ∀ {s : Search E K F} {i : Nat}, s.reachedTargets = [] → i ∈ s.reachedTargets → InReach metric request.reachRange s i := by
    intro s i hnil hi
    rw [hnil] at hi
    cases hi
  induction visits generalizing s done with
  | zero => exact ⟨s, done, rfl, h, fun i => hfinal hnone⟩
  | succ visits ih =>
    unfold searchLoop
    cases hheap : s.openSet.heap with
    | nil =>
      rw [OpenSet.pop_nil hheap]
      exact ⟨s, done, rfl, h, fun i => hfinal hnone⟩
    | cons c rest =>
      obtain ⟨o, hrun, hvalid, hperm, hreindexed⟩ := OpenSet.pop_spec h.valid hheap
      have hknown := h.valid.known c (by rw [hheap]; exact List.mem_cons_self)
      rw [← hreindexed.isSome] at hknown
      obtain ⟨current, hcurrent⟩ := Option.isSome_iff_exists.mp hknown
      rw [hrun]
      dsimp only
      rw [hcurrent]
      dsimp only
      have hclosed := h.close hheap hvalid hperm hreindexed hcurrent
      have hreached := close_reached metric request c o current hnone fun t ht => (h.aimed t ht).node
      have hlength : o.heap.length + 1 = s.openSet.heap.length := by
        rw [hperm.length_eq, hheap, List.length_cons]
      have hcloselength : (close metric request c current { s with openSet := o }).openSet.heap.length = o.heap.length := rfl
      have hlookup : (close metric request c current { s with openSet := o }).openSet.nodes.lookup c = some { current with closed := true } := by
        unfold close
        dsimp only
        rw [AssocList.lookup_insert, if_pos rfl]
      by_cases hany : (close metric request c current { s with openSet := o }).reachedTargets ≠ []
      · rw [if_pos hany]
        exact ⟨_, _, rfl, hclosed, hreached⟩
      · rw [if_neg hany]
        have hnil := Classical.not_not.mp hany
        by_cases hfar : request.maxPathLength ≤ metric.distance current.point fromPoint
        · rw [if_pos hfar]
          exact ih hclosed hnil (by omega)
        · rw [if_neg hfar]
          obtain ⟨s', hrun', hsearching, hlength', hreached'⟩ :=
            expand_spec current hlawful hclosed (List.mem_append_right _ (List.mem_singleton_self c)) hlookup rfl (by omega)
          obtain ⟨s'', done'', hloop, hrest⟩ := ih hsearching (hreached'.trans hnil) (by omega)
          refine ⟨s'', done'', ?_, hrest⟩
          rw [hrun']
          exact hloop

omit [LinearOrder F] in
theorem lookup_resetSearchState (nodes : NodeStore K F) (q : K) :
    (resetSearchState metric nodes).lookup q = (nodes.lookup q).map fun node => { node with
      heapIdx := -1, g := metric.zero, h := metric.zero, f := metric.zero, cameFrom := none, closed := false
      walkedDistance := metric.zero } := by
  unfold resetSearchState
  rw [AssocList.lookup_retainMap]
  cases nodes.lookup q <;> rfl

/-- The start is the one node scored. -/
theorem prepareSearch_spec (Move : K → K → Prop) (e : E) (openSet : OpenSet K F) (hkeyed : Keyed createHash openSet.nodes)
    (hstart : (openSet.nodes.lookup start).isSome = true) (htargets : request.targets ≠ [])
    (hfar : ∀ node, openSet.nodes.lookup start = some node → ∀ pos ∈ request.targets, metric.distance node.point pos < metric.maxValue) :
    ∃ fromPoint s, prepareSearch metric request start e openSet = .ok (fromPoint, s) ∧
      Searching metric createHash Move request start [] s ∧ s.reachedTargets = [] ∧ s.openSet.heap.length = 1 := by
  have hreset := OpenSet.clear_spec (s := ⟨openSet.heap, resetSearchState metric openSet.nodes⟩) fun q node _ hnode => by
    rw [lookup_resetSearchState] at hnode
    obtain ⟨old, _, rfl⟩ := Option.map_eq_some_iff.mp hnode
    rfl
  unfold prepareSearch
  rw [if_neg htargets]
  dsimp only
  generalize OpenSet.clear ⟨openSet.heap, resetSearchState metric openSet.nodes⟩ = o at hreset
  obtain ⟨hvalid, hempty, hreindexed⟩ := hreset
  have hblank : ∀ {q node}, o.nodes.lookup q = some node → ((node.hash = q ∧ createHash node.point = q) ∧ node.cameFrom = none) ∧
      ∃ old, openSet.nodes.lookup q = some old ∧ old.point = node.point := by
    intro q node hq
    have hread := hreindexed.read (k := q) Node.track fun _ => rfl
    rw [hq, lookup_resetSearchState, Option.map_map, Option.map_some] at hread
    obtain ⟨old, hold, heq⟩ := Option.map_eq_some_iff.mp hread.symm
    obtain ⟨hhash, hcreate⟩ := hkeyed hold
    have hpoint : old.point = node.point := congrArg Track.point heq
    exact ⟨⟨⟨(congrArg Track.hash heq).symm.trans hhash, by rw [← hpoint]; exact hcreate⟩, (congrArg Track.cameFrom heq).symm⟩,
      old, hold, hpoint⟩
  have hknown : (o.nodes.lookup start).isSome = true := by
    rw [hreindexed.isSome, lookup_resetSearchState, Option.isSome_map]
    exact hstart
  obtain ⟨fromNode, hfrom⟩ := Option.isSome_iff_exists.mp hknown
  rw [hfrom]
  dsimp only
  generalize hb : ({ fromNode with
      g := metric.zero
      h := (getBestH metric fromNode (request.targets.map (PathTarget.new metric))).1
      f := (getBestH metric fromNode (request.targets.map (PathTarget.new metric))).1
      walkedDistance := metric.zero
      cameFrom := none
      closed := false } : Node K F) = b
  have hpoint : b.point = fromNode.point := by rw [← hb]; rfl
  have hmem : start ∉ o.heap := by
    rw [hempty]
    exact List.not_mem_nil
  have hlookup : (o.nodes.insert start b).lookup start = some b := by rw [AssocList.lookup_insert, if_pos rfl]
  have hvalid' : OpenSet.Valid ⟨o.heap, o.nodes.insert start b⟩ := by
    refine hvalid.store (fun q hq => absurd hq (by rw [hempty]; exact List.not_mem_nil)) fun q node hq hnode => ?_
    rw [AssocList.lookup_insert] at hnode
    split at hnode
    · cases hnode
      rw [← hb]
      exact hvalid.absent (n := fromNode) hfrom hmem
    · exact hvalid.absent hnode hq
  obtain ⟨o', hrun, hvalid'', hperm, hreindexed'⟩ := OpenSet.insert_spec hvalid' (by rw [hempty]; exact Nat.two_pow_pos 31) hlookup hmem
  have hheap : ∀ q, q ∈ o'.heap ↔ q = start := by
    intro q
    rw [hperm.mem_iff, List.mem_cons]
    dsimp only
    rw [hempty]
    simp
  have hexplored : Explored metric request.maxPathLength Move start createHash (o.nodes.insert start b) [] o'.heap := by
    refine ⟨fun {q node} hq => ?_, by simp, by simp, by simp, fun q hq => ?_, .inl rfl, fun {q node} hq hsome => ?_⟩
    · rw [AssocList.lookup_insert] at hq
      split at hq
      · rename_i heq
        cases hq
        obtain ⟨⟨⟨hhash, hcreate⟩, _⟩, _⟩ := hblank hfrom
        rw [hpoint, heq]
        exact ⟨by rw [← hb]; exact hhash, hcreate⟩
      · exact (hblank hq).1.1
    · exact .inl ⟨(hheap q).mp hq, b, hlookup, by rw [← hb], by rw [← hb]⟩
    · by_cases heq : q = start
      · exact .inr ((hheap q).mpr heq)
      · rw [AssocList.lookup_insert, if_neg heq] at hq
        exact absurd (hblank hq).1.2 hsome
  have hkept : Kept createHash (o.nodes.insert start b) o'.nodes := Kept.of_reindexed hreindexed'
  rw [hrun]
  refine ⟨_, _, rfl, ⟨hvalid'', hexplored.kept hkept, fun t ht => ?_, ?_⟩, rfl, ?_⟩
  · obtain ⟨fresh, hfresh, rfl⟩ := List.mem_map.mp ht
    obtain ⟨pos, hpos, rfl⟩ := List.mem_map.mp hfresh
    obtain ⟨old, hold, holdpoint⟩ := (hblank hfrom).2
    have hnear : metric.distance fromNode.point pos < metric.maxValue := holdpoint ▸ hfar old hold pos hpos
    refine (Aimed.first (T := fun q => q ∈ [] ∨ q ∈ o'.heap) (hblank hfrom).1.1.1 hpoint hnear fun q => ?_).kept hkept
      (fun q hq => hexplored.known hq) fun _ => Iff.rfl
    rw [hheap]
    simp
  · refine (hear_positions _ _).trans ?_
    rw [List.map_map]
    exact List.map_id _
  · dsimp only
    rw [hperm.length_eq, List.length_cons, hempty]
    rfl

/-- The path ends nearest to its target. -/
structure Finds (metric : Metric F) (Move : K → K → Prop) (request : PathRequest F) (start : K) (s : Search E K F) (path : NodePath K F) : Prop where
  target : path.target ∈ request.targets
  walk : Walk metric request.maxPathLength Move start path.nodes
  nearest : ∃ last, path.nodes.getLast? = some last ∧ ∀ q node, s.openSet.nodes.lookup q = some node →
    (q = start ∨ node.cameFrom ≠ none) → metric.distance last.point path.target ≤ metric.distance node.point path.target
  inReach : path.reached = true → ∃ q node, s.openSet.nodes.lookup q = some node ∧ node.closed = true ∧
    metric.manhattan node.point path.target ≤ request.reachRange

theorem Explored.start_mem {nodes : NodeStore K F} {heap : List K} {m : F} (h : Explored metric m Move start createHash nodes done heap)
    (hk : k ∈ done ∨ k ∈ heap) : start ∈ done ∨ start ∈ heap := by
  cases h.first with
  | inr hdone => exact .inl hdone
  | inl hnil =>
    rw [hnil] at hk ⊢
    have hopen := hk.resolve_left List.not_mem_nil
    obtain ⟨rfl, _⟩ | ⟨c, hc, _⟩ := h.opened k hopen
    · exact .inr hopen
    · rw [hnil] at hc
      cases hc

theorem reconstructPath_spec (h : Searching metric createHash Move request start done s) {t : PathTarget K F} (ht : t ∈ s.targets)
    {reached : Bool} (hreached : reached = true → ∃ q node, s.openSet.nodes.lookup q = some node ∧ node.closed = true ∧
      metric.manhattan node.point t.pos ≤ request.reachRange) :
    ∃ path, reconstructPath metric createHash s.openSet.nodes t.target.bestNode t.pos reached = some path ∧
      Finds metric Move request start s path := by
  have haimed := h.aimed t ht
  obtain ⟨k, node, hbest, hseen, hnode, hdistance⟩ := haimed.best
  obtain ⟨path, hroute, hnodup, _⟩ := h.explored.route hseen
  obtain ⟨ns, hcopies, hwalk, _, last, node', hlast, hnode', htrack⟩ := hroute.walk h.explored.keyed hnodup
  rw [hnode] at hnode'
  cases hnode'
  have hpoint : last.point = node.point := congrArg Track.point htrack
  refine ⟨NodePath.new metric ns t.pos reached, ?_, ?_, hwalk, ⟨last, hlast, fun q other hq hscored => ?_⟩, hreached⟩
  · unfold reconstructPath
    rw [hbest, Option.bind_eq_bind, Option.bind_some, hroute.traceBack _ (length_le_keys hnodup hroute.known), List.append_nil]
    rw [Option.bind_eq_bind, Option.bind_some, hcopies]
    rfl
  · rw [← h.positions]
    exact List.mem_map_of_mem ht
  · show metric.distance last.point t.pos ≤ metric.distance other.point t.pos
    rw [hpoint, ← hdistance]
    refine haimed.least ?_ hq
    cases hscored with
    | inl heq =>
      rw [heq]
      exact h.explored.start_mem hseen
    | inr hsome => exact h.explored.scored hq hsome

omit [LinearOrder F] [DecidableEq K] in
theorem takeBetter_mem (better : NodePath K F → NodePath K F → Bool) {P : NodePath K F → Prop} {paths : List (Option (NodePath K F))}
    {best : NodePath K F} (hP : ∀ p ∈ paths, ∃ path, p = some path ∧ P path) (hbest : P best) :
    ∃ path, paths.foldl (takeBetter better) (some best) = some path ∧ P path := by
  induction paths generalizing best with
  | nil => exact ⟨best, rfl, hbest⟩
  | cons p paths ih =>
    obtain ⟨path, rfl, hpath⟩ := hP p List.mem_cons_self
    have hrest := fun q hq => hP q (List.mem_cons_of_mem _ hq)
    rw [List.foldl_cons]
    unfold takeBetter
    dsimp only
    by_cases hbetter : better path best = true
    · rw [if_pos hbetter]
      exact ih hrest hpath
    · rw [if_neg hbetter]
      exact ih hrest hbest

omit [LinearOrder F] [DecidableEq K] in
/-- One of the paths is taken when there is one. -/
theorem bestOf_mem (better : NodePath K F → NodePath K F → Bool) {P : NodePath K F → Prop} (paths : List (Option (NodePath K F)))
    (hP : ∀ p ∈ paths, ∃ path, p = some path ∧ P path) (hne : paths ≠ []) : ∃ path, bestOf better paths = some path ∧ P path := by
  obtain ⟨p, rest, rfl⟩ := List.exists_cons_of_ne_nil hne
  obtain ⟨path, rfl, hpath⟩ := hP p List.mem_cons_self
  exact takeBetter_mem better (fun q hq => hP q (List.mem_cons_of_mem _ hq)) hpath

def corridorNode (x : Int) : Node Int Nat := ⟨x, 0, 0, x, -1, 0, 0, 0, none, false, 0, 0⟩

def corridorGet (nodes : NodeStore Int Nat) (x : Int) : NodeStore Int Nat :=
  match nodes.lookup x with
  | some _ => nodes
  | none => nodes.insert x (corridorNode x)

def corridor : NodeEvaluator Unit Int Nat where
  getStart e nodes := (0, e, corridorGet nodes 0)
  getNeighbors e nodes c :=
    if c < 3 then
      (if ((corridorGet nodes (c + 1)).lookup (c + 1)).any (fun node => !node.closed) then [c + 1] else [], e, corridorGet nodes (c + 1))
    else ([], e, nodes)

def lineMetric : Metric Nat where
  zero := 0
  maxValue := 1000
  add := (· + ·)
  fudge h := h + h / 2
  distance p q := (p.x - q.x).natAbs
  manhattan p q := (p.x - q.x).natAbs

theorem lookup_corridorGet (nodes : NodeStore Int Nat) (x q : Int) :
    (corridorGet nodes x).lookup q = if q = x ∧ nodes.lookup q = none then some (corridorNode x) else nodes.lookup q := by
  unfold corridorGet
  cases hx : nodes.lookup x with
  | some node =>
    rw [if_neg]
    rintro ⟨rfl, hnone⟩
    rw [hx] at hnone
    cases hnone
  | none =>
    dsimp only
    rw [AssocList.lookup_insert]
    by_cases hq : q = x
    · rw [if_pos hq, if_pos ⟨hq, hq ▸ hx⟩]
    · rw [if_neg hq, if_neg fun h => hq h.1]

theorem corridorGet_old {nodes : NodeStore Int Nat} {x q : Int} {node : Node Int Nat} (h : nodes.lookup q = some node) :
    (corridorGet nodes x).lookup q = some node := by
  rw [lookup_corridorGet, if_neg]
  · exact h
  · rintro ⟨_, hnone⟩
    rw [h] at hnone
    cases hnone

theorem corridorGet_new {nodes : NodeStore Int Nat} {x q : Int} {node : Node Int Nat} (h : nodes.lookup q = none)
    (h' : (corridorGet nodes x).lookup q = some node) : q = x ∧ node = corridorNode x := by
  rw [lookup_corridorGet] at h'
  split at h'
  · rename_i hx
    cases h'
    exact ⟨hx.1, rfl⟩
  · rw [h] at h'
    cases h'

theorem corridor_lawful : corridor.Lawful NodePoint.x fun c k => k = c + 1 ∧ c < 3 where
  start _ nodes hkeyed := by
    refine ⟨?_, fun {k node} hk => ?_⟩
    · show ((corridorGet nodes 0).lookup 0).isSome = true
      rw [lookup_corridorGet]
      split
      · rfl
      · rename_i h
        exact Option.isSome_iff_ne_none.mpr fun hnone => h ⟨rfl, hnone⟩
    · cases hold : nodes.lookup k with
      | none =>
        obtain ⟨rfl, rfl⟩ := corridorGet_new hold hk
        exact ⟨rfl, rfl⟩
      | some old =>
        rw [show (corridor.getStart _ nodes).2.2 = corridorGet nodes 0 from rfl, corridorGet_old hold] at hk
        exact hkeyed (hold.trans hk)
  kept _ nodes c k node hk := by
    refine ⟨node, ?_, rfl, id⟩
    unfold corridor
    dsimp only
    split
    · exact corridorGet_old hk
    · exact hk
  fresh _ nodes c k node hk hk' := by
    unfold corridor at hk'
    dsimp only at hk'
    split at hk'
    · obtain ⟨rfl, rfl⟩ := corridorGet_new hk hk'
      exact ⟨rfl, rfl, rfl, rfl⟩
    · rw [hk] at hk'
      cases hk'
  few _ nodes c := by
    unfold corridor
    dsimp only
    split
    · split <;> simp
    · simp
  unclosed _ nodes c k node hk hnode := by
    unfold corridor at hk
    dsimp only at hk
    split at hk
    · split at hk
      · rename_i hopen
        rw [List.mem_singleton.mp hk] at hnode
        rw [corridorGet_old hnode] at hopen
        exact Bool.not_eq_true' _ ▸ hopen
      · cases hk
    · cases hk
  moves _ nodes c k hk := by
    unfold corridor at hk
    dsimp only at hk
    split at hk
    · rename_i hlt
      split at hk
      · exact ⟨List.mem_singleton.mp hk, hlt⟩
      · cases hk
    · cases hk

end Foton.Path.PathFinder
