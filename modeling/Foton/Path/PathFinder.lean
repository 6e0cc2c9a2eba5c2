import Foton.Path.NodeHeap

/-!
# The path search

`find_path` takes the cheapest open node, closes it and scores its neighbours,
until a target is in reach or the visits are spent. The path is then read off the
back pointers. What decides where a mob may go is a parameter, and so is the
arithmetic of costs and distances.
-/

namespace Foton.Path

structure NodePoint where
  x : Int
  y : Int
  z : Int
  deriving DecidableEq

def Node.point {K F : Type} (node : Node K F) : NodePoint := ⟨node.x, node.y, node.z⟩

/-- Arithmetic of costs. `fudge` multiplies by `FUDGING`, and `maxValue` is `f32::MAX`. -/
structure Metric (F : Type) where
  zero : F
  maxValue : F
  add : F → F → F
  fudge : F → F
  distance : NodePoint → NodePoint → F
  manhattan : NodePoint → NodePoint → F

/-- `NodeEvaluator`, over the store of its nodes. -/
structure NodeEvaluator (E K F : Type) where
  getStart : E → NodeStore K F → K × E × NodeStore K F
  getNeighbors : E → NodeStore K F → K → List K × E × NodeStore K F

structure Target (K F : Type) where
  node : NodePoint
  bestHeuristic : F
  bestNode : Option K
  reached : Bool

structure PathTarget (K F : Type) where
  target : Target K F
  pos : NodePoint

structure PathRequest (F : Type) where
  targets : List NodePoint
  maxPathLength : F
  reachRange : F
  /-- The bound on visits, with the multiplier of the request. -/
  maxVisitedNodes : Int

structure NodePath (K F : Type) where
  nodes : List (Node K F)
  target : NodePoint
  distToTarget : F
  reached : Bool

/-- The state of one search. -/
structure Search (E K F : Type) where
  evaluator : E
  openSet : OpenSet K F
  targets : List (PathTarget K F)
  reachedTargets : List Nat

namespace Target

variable {K F : Type} [LinearOrder F]

def updateBest (target : Target K F) (heuristic : F) (hash : K) : Target K F :=
  if heuristic < target.bestHeuristic then { target with bestHeuristic := heuristic, bestNode := some hash } else target

end Target

def PathTarget.new {K F : Type} (metric : Metric F) (pos : NodePoint) : PathTarget K F := ⟨⟨pos, metric.maxValue, none, false⟩, pos⟩

def NodePath.new {K F : Type} (metric : Metric F) (nodes : List (Node K F)) (target : NodePoint) (reached : Bool) : NodePath K F where
  nodes := nodes
  target := target
  distToTarget := (nodes.getLast?).elim metric.maxValue fun node => metric.manhattan node.point target
  reached := reached

namespace PathFinder

variable {E K F : Type} [LinearOrder F] (metric : Metric F)

/-- Every target hears of the node, and the least heuristic is returned. -/
def getBestH (node : Node K F) (targets : List (PathTarget K F)) : F × List (PathTarget K F) :=
  (targets.foldl (fun best t => min best (metric.distance node.point t.target.node)) metric.maxValue,
    targets.map fun t => { t with target := t.target.updateBest (metric.distance node.point t.target.node) node.hash })

/-- The targets in reach of a node; `index` is the place of the first of them. -/
def markReached (range : F) (point : NodePoint) (index : Nat) :
    List (PathTarget K F) → List Nat → List (PathTarget K F) × List Nat
  | [], reached => ([], reached)
  | t :: targets, reached =>
    if metric.manhattan point t.target.node ≤ range then
      let (targets, reached) := markReached range point (index + 1) targets (if index ∈ reached then reached else reached ++ [index])
      ({ t with target := { t.target with reached := true } } :: targets, reached)
    else
      let (targets, reached) := markReached range point (index + 1) targets reached
      (t :: targets, reached)

variable [DecidableEq K]

/-- A neighbour of the closed node `current`. An error ends the search without a path. -/
def scoreNeighbor (request : PathRequest F) (currentHash : K) (current : Node K F) (s : Search E K F) (neighborHash : K) :
    Except (Search E K F) (Search E K F) :=
  match s.openSet.nodes.lookup neighborHash with
  | none => .ok s
  | some neighbor =>
    let distance := metric.distance current.point neighbor.point
    let walkedDistance := metric.add current.walkedDistance distance
    let tentativeGScore := metric.add (metric.add current.g distance) neighbor.costMalus
    if request.maxPathLength ≤ walkedDistance then .ok s
    else if neighbor.inOpenSet && decide (neighbor.g ≤ tentativeGScore) then .ok s
    else
      let (bestH, targets) := getBestH metric neighbor s.targets
      let h := metric.fudge bestH
      let f := metric.add tentativeGScore h
      let scored := { neighbor with cameFrom := some currentHash, g := tentativeGScore, h := h, walkedDistance := walkedDistance }
      if neighbor.inOpenSet then
        match OpenSet.changeCost ⟨s.openSet.heap, s.openSet.nodes.insert neighborHash scored⟩ neighborHash f with
        | (true, openSet) => .ok { s with openSet := openSet, targets := targets }
        | (false, openSet) => .error { s with openSet := openSet, targets := targets }
      else
        match OpenSet.insert ⟨s.openSet.heap, s.openSet.nodes.insert neighborHash { scored with f := f }⟩ neighborHash with
        | (true, openSet) => .ok { s with openSet := openSet, targets := targets }
        | (false, openSet) => .error { s with openSet := openSet, targets := targets }

variable (evaluator : NodeEvaluator E K F)

def expand (request : PathRequest F) (currentHash : K) (current : Node K F) (s : Search E K F) :
    Except (Search E K F) (Search E K F) :=
  let (neighbors, e, nodes) := evaluator.getNeighbors s.evaluator s.openSet.nodes currentHash
  neighbors.foldlM (scoreNeighbor metric request currentHash current) { s with evaluator := e, openSet := ⟨s.openSet.heap, nodes⟩ }

/-- The node is closed, and the targets in its reach are marked. -/
def close (request : PathRequest F) (currentHash : K) (current : Node K F) (s : Search E K F) : Search E K F :=
  let (targets, reachedTargets) := markReached metric request.reachRange current.point 0 s.targets s.reachedTargets
  { s with
    openSet := ⟨s.openSet.heap, s.openSet.nodes.insert currentHash { current with closed := true }⟩
    targets := targets, reachedTargets := reachedTargets }

/-- The loop of `find_path`, with the visits that are left. -/
def searchLoop (request : PathRequest F) (fromPoint : NodePoint) : Nat → Search E K F → Except (Search E K F) (Search E K F)
  | 0, s => .ok s
  | visits + 1, s =>
    match s.openSet.pop with
    | (none, openSet) => .ok { s with openSet := openSet }
    | (some currentHash, openSet) =>
      match openSet.nodes.lookup currentHash with
      | none => searchLoop request fromPoint visits { s with openSet := openSet }
      | some current =>
        let s := close metric request currentHash current { s with openSet := openSet }
        if s.reachedTargets ≠ [] then .ok s
        else if request.maxPathLength ≤ metric.distance current.point fromPoint then searchLoop request fromPoint visits s
        else do
          let s ← expand metric evaluator request currentHash current s
          searchLoop request fromPoint visits s

def resetSearchState (nodes : NodeStore K F) : NodeStore K F :=
  nodes.retainMap fun node => some { node with
    heapIdx := -1, g := metric.zero, h := metric.zero, f := metric.zero, cameFrom := none, closed := false
    walkedDistance := metric.zero }

/-- `prepare_search`, from the start node `start`. -/
def prepareSearch (request : PathRequest F) (start : K) (e : E) (openSet : OpenSet K F) :
    Except (Search E K F) (NodePoint × Search E K F) :=
  if request.targets = [] then .error ⟨e, openSet, [], []⟩
  else
    let openSet := OpenSet.clear ⟨openSet.heap, resetSearchState metric openSet.nodes⟩
    let targets : List (PathTarget K F) := request.targets.map (PathTarget.new metric)
    match openSet.nodes.lookup start with
    | none => .error ⟨e, openSet, targets, []⟩
    | some fromNode =>
      let (fromH, targets) := getBestH metric fromNode targets
      let scored := { fromNode with
        g := metric.zero, h := fromH, f := fromH, walkedDistance := metric.zero, cameFrom := none, closed := false }
      match OpenSet.insert ⟨openSet.heap, openSet.nodes.insert start scored⟩ start with
      | (true, openSet) => .ok (fromNode.point, ⟨e, openSet, targets, []⟩)
      | (false, openSet) => .error ⟨e, openSet, targets, []⟩

/-- The hashes back from `current`, first the start. `left` bounds the steps. -/
def traceBack (nodes : NodeStore K F) : Nat → K → List K → Option (List K)
  | 0, _, _ => none
  | left + 1, current, hashes =>
    match nodes.lookup current with
    | none => none
    | some node =>
      match node.cameFrom with
      | none => some (current :: hashes)
      | some previous => traceBack nodes left previous (current :: hashes)

variable (createHash : NodePoint → K)

def pathNodeFrom (node : Node K F) : Node K F := { node with hash := createHash node.point, heapIdx := -1 }

/-- A back pointer is followed once for each node at most. -/
def reconstructPath (nodes : NodeStore K F) (closest : Option K) (target : NodePoint) (reached : Bool) : Option (NodePath K F) := do
  let hashes ← traceBack nodes (nodes.keys.length) (← closest) []
  let path ← hashes.mapM fun hash => (nodes.lookup hash).map (pathNodeFrom createHash)
  some (NodePath.new metric path target reached)

/-- A path that could not be read is passed over. -/
def takeBetter (better : NodePath K F → NodePath K F → Bool) (best : Option (NodePath K F)) : Option (NodePath K F) → Option (NodePath K F)
  | none => best
  | some path =>
    match best with
    | none => some path
    | some other => if better path other then some path else some other

/-- The best of the paths; of two alike the first. -/
def bestOf (better : NodePath K F → NodePath K F → Bool) (paths : List (Option (NodePath K F))) : Option (NodePath K F) :=
  paths.foldl (takeBetter better) none

def bestReachedPath (nodes : NodeStore K F) (targets : List (PathTarget K F)) (reachedTargets : List Nat) : Option (NodePath K F) :=
  bestOf (fun path best => path.nodes.length < best.nodes.length)
    (reachedTargets.map fun index => do
      let target ← targets[index]?
      reconstructPath metric createHash nodes target.target.bestNode target.pos true)

/-- `compare_unreached_paths` is less. -/
def unreachedBefore (path best : NodePath K F) : Bool :=
  path.distToTarget < best.distToTarget || (path.distToTarget == best.distToTarget && path.nodes.length < best.nodes.length)

def bestUnreachedPath (nodes : NodeStore K F) (targets : List (PathTarget K F)) : Option (NodePath K F) :=
  bestOf unreachedBefore
    (targets.map fun target => reconstructPath metric createHash nodes target.target.bestNode target.pos false)

/-- The path, and what is left for the next search. -/
def findPath (request : PathRequest F) (e : E) (openSet : OpenSet K F) : Option (NodePath K F) × Search E K F :=
  let (start, e, nodes) := evaluator.getStart e openSet.nodes
  match prepareSearch metric request start e ⟨openSet.heap, nodes⟩ with
  | .error s => (none, s)
  | .ok (fromPoint, s) =>
    -- the count is raised before it is compared
    match searchLoop metric evaluator request fromPoint (request.maxVisitedNodes - 1).toNat s with
    | .error s => (none, s)
    | .ok s =>
      if s.reachedTargets = [] then (bestUnreachedPath metric createHash s.openSet.nodes s.targets, s)
      else (bestReachedPath metric createHash s.openSet.nodes s.targets s.reachedTargets, s)

end PathFinder

end Foton.Path
