import Foton.Lib.Candidate
import Mathlib.Data.List.FinRange
import Mathlib.Data.List.Sort
import Mathlib.Data.Nat.Log
import Mathlib.Algebra.Ring.Nat
import Mathlib.Algebra.Ring.Int.Defs

/-!
# The biome R-tree

Parameter points are gathered in a tree of bounding boxes, which is laid out
level by level in one array. A search goes down into the boxes that are closer
than the best leaf so far.
-/

namespace Foton.Climate

def childrenPerNode : Nat := 6

def i64Max : Int := 2 ^ 63 - 1

def u32Max : Nat := 2 ^ 32 - 1

def asU32 (n : Nat) : Nat := n % 2 ^ 32

def asU8 (n : Nat) : Nat := n % 2 ^ 8

/-! ## Parameters -/

abbrev Dimension := Fin 7

def dimensions : List Dimension := List.finRange 7

abbrev Coordinates := Dimension → Int

structure TargetPoint where
  temperature : Int
  humidity : Int
  continentalness : Int
  erosion : Int
  depth : Int
  weirdness : Int

/-- The offset of a target is always 0. -/
def TargetPoint.toParameterArray (target : TargetPoint) : Coordinates
  | 0 => target.temperature
  | 1 => target.humidity
  | 2 => target.continentalness
  | 3 => target.erosion
  | 4 => target.depth
  | 5 => target.weirdness
  | 6 => 0

structure Parameter where
  min : Int
  max : Int

namespace Parameter

def distance (p : Parameter) (target : Int) : Int :=
  let above := target - p.max
  let below := p.min - target
  if above > 0 then above else if below > 0 then below else 0

def spanWith (p : Parameter) : (other : Option Parameter) → Parameter
  | some o => { min := Min.min p.min o.min, max := Max.max p.max o.max }
  | none => p

/-- The division truncates toward zero. -/
def center (p : Parameter) : Int := (p.min + p.max).tdiv 2

end Parameter

abbrev ParameterSpace := Dimension → Parameter

structure ParameterPoint where
  temperature : Parameter
  humidity : Parameter
  continentalness : Parameter
  erosion : Parameter
  depth : Parameter
  weirdness : Parameter
  offset : Int

namespace ParameterPoint

def fitness (point : ParameterPoint) (target : TargetPoint) : Int :=
  let t := point.temperature.distance target.temperature
  let h := point.humidity.distance target.humidity
  let c := point.continentalness.distance target.continentalness
  let e := point.erosion.distance target.erosion
  let d := point.depth.distance target.depth
  let w := point.weirdness.distance target.weirdness
  t * t + h * h + c * c + e * e + d * d + w * w + point.offset * point.offset

def parameterSpace (point : ParameterPoint) : ParameterSpace
  | 0 => point.temperature
  | 1 => point.humidity
  | 2 => point.continentalness
  | 3 => point.erosion
  | 4 => point.depth
  | 5 => point.weirdness
  | 6 => { min := point.offset, max := point.offset }

end ParameterPoint

/-! ## Building -/

inductive RTreeNode where
  | leaf (parameterSpace : ParameterSpace) (valueIndex : Nat)
  | subTree (parameterSpace : ParameterSpace) (children : List RTreeNode)

def RTreeNode.parameterSpace : RTreeNode → ParameterSpace
  | .leaf parameterSpace _ => parameterSpace
  | .subTree parameterSpace _ => parameterSpace

structure BuildEntry where
  parameterSpace : ParameterSpace
  index : Nat

/-- The bounds of the spaces; without any space there are none, and the source panics. -/
def boundsOf (spaces : List ParameterSpace) : Option ParameterSpace :=
  spaces.foldl (fun bounds ps => some fun d => (ps d).spanWith (bounds.map fun b => b d)) none

def cost (parameterSpace : ParameterSpace) : Int :=
  (dimensions.map fun d => (((parameterSpace d).max - (parameterSpace d).min).natAbs : Int)).sum

def sortBy {α : Type} (cmp : α → α → Ordering) (xs : List α) : List α := xs.insertionSort fun a b => cmp a b ≠ .gt

/-- The keys are compared from one dimension on, around to the one before it. -/
def compareFrom (dimension : Dimension) (key : Parameter → Int) (a b : ParameterSpace) : Ordering :=
  (dimensions.map fun offset => compare (key (a (dimension + offset))) (key (b (dimension + offset)))).foldr
    Ordering.then .eq

def sortEntries (entries : List BuildEntry) (dimension : Dimension) : List BuildEntry :=
  sortBy (fun a b => compareFrom dimension Parameter.center a.parameterSpace b.parameterSpace) entries

def sortBucketSubtrees (subtrees : List (ParameterSpace × List BuildEntry)) (dimension : Dimension) :
    List (ParameterSpace × List BuildEntry) :=
  sortBy (fun a b => compareFrom dimension (fun p => p.center.natAbs) a.1 b.1) subtrees

/-- The total magnitude of the centers. -/
def magnitude (e : BuildEntry) : Int := (dimensions.map fun d => ((e.parameterSpace d).center.natAbs : Int)).sum

/-- The number of bucket elements for a total, in exact arithmetic: `total - 0.01` has the logarithm's floor
of `total - 1`. -/
def expectedChildrenCount (total : Nat) : Nat := childrenPerNode ^ Nat.log childrenPerNode (total - 1)

/-- Buckets of the expected size, and the cost of their bounds; `fuel` bounds the turns of the loop. -/
def bucketsFrom (expected : Nat) : (fuel : Nat) → List BuildEntry → Option (Int × List (List BuildEntry))
  | _, [] => some (0, [])
  | 0, _ :: _ => none
  | fuel + 1, entries => do
    let bucket := entries.take expected
    let ps ← boundsOf (bucket.map BuildEntry.parameterSpace)
    let (totalCost, buckets) ← bucketsFrom expected fuel (entries.drop expected)
    some (cost ps + totalCost, bucket :: buckets)

def snapshotBuckets (expected : Nat → Nat) (entries : List BuildEntry) : Option (Int × List (List BuildEntry)) :=
  bucketsFrom (expected entries.length) entries.length entries

structure Split where
  entries : List BuildEntry
  minCost : Int
  bestDim : Dimension
  bestBuckets : Option (List (List BuildEntry))

def tryDimension (expected : Nat → Nat) (s : Split) (d : Dimension) : Option Split := do
  let entries := sortEntries s.entries d
  let (bucketCost, buckets) ← snapshotBuckets expected entries
  if s.minCost > bucketCost then
    some { entries, minCost := bucketCost, bestDim := d, bestBuckets := some buckets }
  else some { s with entries }

/-- A bucket with its bounds. -/
def boundBucket (bucketEntries : List BuildEntry) : Option (ParameterSpace × List BuildEntry) := do
  let ps ← boundsOf (bucketEntries.map BuildEntry.parameterSpace)
  some (ps, bucketEntries)

def leafOf (e : BuildEntry) : RTreeNode := .leaf e.parameterSpace e.index

def buildParameterSpace (children : List RTreeNode) : Option ParameterSpace :=
  boundsOf (children.map RTreeNode.parameterSpace)

/-- `none` is a panic, or a recursion deeper than `fuel`. -/
def buildTree (expected : Nat → Nat) : (fuel : Nat) → List BuildEntry → Option RTreeNode
  | 0, _ => none
  | _, [] => none
  | _, [e] => some (leafOf e)
  | fuel + 1, entries =>
    if entries.length ≤ childrenPerNode then do
      let children := (sortBy (fun a b => compare (magnitude a) (magnitude b)) entries).map leafOf
      let ps ← buildParameterSpace children
      some (.subTree ps children)
    else do
      let split ← dimensions.foldlM (tryDimension expected)
        { entries, minCost := i64Max, bestDim := 0, bestBuckets := none }
      let buckets ← split.bestBuckets
      let bucketSubtrees ← buckets.mapM boundBucket
      let children ← (sortBucketSubtrees bucketSubtrees split.bestDim).mapM fun subtree =>
        buildTree expected fuel subtree.2
      let ps ← buildParameterSpace children
      some (.subTree ps children)

/-! ## Flattening -/

structure FlatNode where
  mins : Coordinates
  maxs : Coordinates
  valueIndex : Nat
  childrenStart : Nat
  childrenCount : Nat

namespace FlatNode

def distance (node : FlatNode) (target : Coordinates) : Int :=
  (dimensions.map fun i =>
    let di := Max.max (Max.max (target i - node.maxs i) (node.mins i - target i)) 0
    di * di).sum

def isLeaf (node : FlatNode) : Bool := node.childrenCount = 0

end FlatNode

/-- The node before its children have a place. -/
def flatNode : RTreeNode → FlatNode
  | .leaf ps valueIndex =>
    { mins := fun d => (ps d).min, maxs := fun d => (ps d).max, valueIndex := asU32 valueIndex, childrenStart := 0,
      childrenCount := 0 }
  | .subTree ps children =>
    { mins := fun d => (ps d).min, maxs := fun d => (ps d).max, valueIndex := u32Max, childrenStart := 0,
      childrenCount := asU8 children.length }

/-- Siblings that are to be laid out side by side, and the index of their parent. -/
abbrev Batch := List RTreeNode × Option Nat

def pushBatch : List RTreeNode → List FlatNode → List Batch → List FlatNode × List Batch
  | [], nodes, queue => (nodes, queue)
  | .leaf ps valueIndex :: batch, nodes, queue => pushBatch batch (nodes ++ [flatNode (.leaf ps valueIndex)]) queue
  | .subTree ps children :: batch, nodes, queue =>
    pushBatch batch (nodes ++ [flatNode (.subTree ps children)]) (queue ++ [(children, some (asU32 nodes.length))])

def setChildrenStart (start : Nat) (node : FlatNode) : FlatNode := { node with childrenStart := start }

/-- `fuel` bounds the number of batches. -/
def flattenQueue : (fuel : Nat) → List Batch → List FlatNode → List FlatNode
  | 0, _, nodes => nodes
  | _, [], nodes => nodes
  | fuel + 1, (batch, parentIdx) :: queue, nodes =>
    let nodes := match parentIdx with
      | some pidx => nodes.modify pidx (setChildrenStart (asU32 nodes.length))
      | none => nodes
    let pushed := pushBatch batch nodes queue
    flattenQueue fuel pushed.2 pushed.1

mutual

def RTreeNode.size : RTreeNode → Nat
  | .leaf _ _ => 1
  | .subTree _ children => 1 + sizes children

def sizes : List RTreeNode → Nat
  | [] => 0
  | node :: rest => node.size + sizes rest

end

def flattenTree (root : RTreeNode) : List FlatNode := flattenQueue root.size [([root], none)] []

/-! ## Search -/

def childrenOf (nodes : List FlatNode) (node : FlatNode) : Option (List FlatNode) :=
  if node.childrenStart + node.childrenCount ≤ nodes.length then
    some ((nodes.drop node.childrenStart).take node.childrenCount)
  else none

/-- The best distance so far and the index of its value. -/
abbrev BestLeaf := Candidate Int Nat

/-- `none` is a range outside the nodes, or a recursion deeper than `fuel`. -/
def searchNearest (nodes : List FlatNode) (target : Coordinates) : (fuel : Nat) → FlatNode → BestLeaf → Option BestLeaf
  | 0, _, _ => none
  | fuel + 1, node, best => do
    let children ← childrenOf nodes node
    children.foldlM
      (fun best child =>
        let childDist := child.distance target
        if best.cost > childDist then
          if child.isLeaf then some ⟨childDist, some child.valueIndex⟩
          else searchNearest nodes target fuel child best
        else some best)
      best

structure ParameterList (T : Type) where
  values : List (ParameterPoint × T)
  paramSpaces : List ParameterSpace
  nodes : List FlatNode

def buildEntries {T : Type} (values : List (ParameterPoint × T)) : List BuildEntry :=
  values.zipIdx.map fun x => { parameterSpace := x.1.1.parameterSpace, index := x.2 }

namespace ParameterList

variable {T : Type}

/-- `expected` stands for the floating-point formula of the bucket size. -/
def new (expected : Nat → Nat) (values : List (ParameterPoint × T)) : Option (ParameterList T) := do
  let entries := buildEntries values
  let root ← buildTree expected entries.length entries
  some { values, paramSpaces := values.map fun x => x.1.parameterSpace, nodes := flattenTree root }

/-- `none` is a panic. -/
def findValue (list : ParameterList T) (target : TargetPoint) : Option T := do
  let root ← list.nodes[0]?
  if root.isLeaf then (list.values[root.valueIndex]?).map Prod.snd
  else
    let best ← searchNearest list.nodes target.toParameterArray list.nodes.length root ⟨i64Max, none⟩
    let idx ← best.found
    (list.values[idx]?).map Prod.snd

/-- The squared distance of a cached entry, dimension by dimension. -/
def cachedDistance (ps : ParameterSpace) (target : Coordinates) : Int :=
  (dimensions.map fun i => (ps i).distance (target i) * (ps i).distance (target i)).sum

/-- The value and the cache after the lookup. -/
def findValueCached (list : ParameterList T) (target : TargetPoint) (cache : Option Nat) : Option (T × Option Nat) := do
  let root ← list.nodes[0]?
  if root.isLeaf then (list.values[root.valueIndex]?).map fun x => (x.2, some root.valueIndex)
  else
    let initial ← match cache with
      | some idx => (list.paramSpaces[idx]?).map fun ps =>
        ({ cost := cachedDistance ps target.toParameterArray, found := some (asU32 idx) } : BestLeaf)
      | none => some ⟨i64Max, none⟩
    let best ← searchNearest list.nodes target.toParameterArray list.nodes.length root initial
    let resultIdx ← best.found
    (list.values[resultIdx]?).map fun x => (x.2, some resultIdx)

/-- A sequence of lookups that hand on the cache, each with the value and the cache after it. -/
def lookups (list : ParameterList T) : List TargetPoint → Option Nat → Option (List (T × Option Nat))
  | [], _ => some []
  | target :: targets, cache => do
    let result ← list.findValueCached target cache
    let results ← lookups list targets result.2
    some (result :: results)

end ParameterList

end Foton.Climate
