import Foton.Climate.ParameterList
import Foton.Lib.Fallible

/-!
# The tree that is built

Building ends with a tree whose boxes contain those of their children and whose
leaves are the entries, if the formula makes between 2 and 255 buckets.
-/

namespace Foton.Climate

/-- What the bucket sizes for the totals above six have to be. -/
structure BucketSizes (expected : Nat → Nat) : Prop where
  pos : ∀ n, childrenPerNode < n → 1 ≤ expected n
  lt : ∀ n, childrenPerNode < n → expected n < n
  fit : ∀ n, childrenPerNode < n → n ≤ 255 * expected n

/-! ## Bounds -/

def Within (inner outer : ParameterSpace) : Prop := ∀ d, (outer d).min ≤ (inner d).min ∧ (inner d).max ≤ (outer d).max

theorem Within.refl (ps : ParameterSpace) : Within ps ps := fun _ => ⟨le_rfl, le_rfl⟩

theorem Within.trans {a b c : ParameterSpace} (h : Within a b) (h' : Within b c) : Within a c := fun d =>
  ⟨(h' d).1.trans (h d).1, (h d).2.trans (h' d).2⟩

/-- All bounds are at most this far from zero. -/
def InRange (bound : Int) (ps : ParameterSpace) : Prop :=
  ∀ d, -bound ≤ (ps d).min ∧ (ps d).min ≤ bound ∧ -bound ≤ (ps d).max ∧ (ps d).max ≤ bound

/-- The bounds `b` contain the spaces, and are in any range that the spaces are in. -/
structure Bounds (b : ParameterSpace) (spaces : List ParameterSpace) : Prop where
  within : ∀ ps ∈ spaces, Within ps b
  inRange : ∀ {bound : Int}, (∀ ps ∈ spaces, InRange bound ps) → InRange bound b

theorem foldl_bounds (spaces : List ParameterSpace) : ∀ {b : ParameterSpace} {seen : List ParameterSpace},
    Bounds b seen →
      ∃ b', spaces.foldl (fun bounds ps => some fun d => (ps d).spanWith (bounds.map fun b => b d)) (some b) = some b' ∧
        Bounds b' (seen ++ spaces) := by
  induction spaces with
  | nil =>
    intro b seen h
    exact ⟨b, rfl, by simpa using h⟩
  | cons ps spaces ih =>
    intro b seen h
    have hnext : Bounds (fun d => (ps d).spanWith (some (b d))) (seen ++ [ps]) := by
      constructor
      · intro ps' hps' d
        simp only [Parameter.spanWith]
        rcases List.mem_append.mp hps' with hseen | hlast
        · have hwithin := h.within ps' hseen d
          omega
        · rw [List.mem_singleton.mp hlast]
          omega
      · intro bound hall d
        have hb := h.inRange (fun ps' hps' => hall ps' (List.mem_append_left _ hps')) d
        have hps := hall ps (by simp) d
        simp only [Parameter.spanWith]
        omega
    obtain ⟨b', hfold, hbounds⟩ := ih hnext
    refine ⟨b', hfold, ?_⟩
    simpa using hbounds

theorem boundsOf_spec {spaces : List ParameterSpace} (hne : spaces ≠ []) : ∃ b, boundsOf spaces = some b ∧ Bounds b spaces := by
  cases spaces with
  | nil => exact absurd rfl hne
  | cons ps spaces =>
    have hfirst : Bounds ps [ps] :=
      ⟨fun ps' hps' => List.mem_singleton.mp hps' ▸ Within.refl ps, fun hall => hall ps (List.mem_singleton_self ps)⟩
    exact foldl_bounds spaces hfirst

theorem sum_dimensions (f : Dimension → Int) :
    (dimensions.map f).sum = f 0 + (f 1 + (f 2 + (f 3 + (f 4 + (f 5 + (f 6 + 0)))))) := rfl

theorem sum_dimensions_le {f g : Dimension → Int} (h : ∀ d, f d ≤ g d) :
    (dimensions.map f).sum ≤ (dimensions.map g).sum := by
  rw [sum_dimensions, sum_dimensions]
  have h0 := h 0
  have h1 := h 1
  have h2 := h 2
  have h3 := h 3
  have h4 := h 4
  have h5 := h 5
  have h6 := h 6
  omega

theorem cost_le {bound : Int} {ps : ParameterSpace} (h : InRange bound ps) : cost ps ≤ 14 * bound := by
  have hwidth : ∀ d, (((ps d).max - (ps d).min).natAbs : Int) ≤ 2 * bound := by
    intro d
    have hd := h d
    omega
  have hle := sum_dimensions_le hwidth
  rw [sum_dimensions (fun _ => 2 * bound)] at hle
  unfold cost
  omega

/-! ## Buckets -/

theorem sortBy_perm {α : Type} (cmp : α → α → Ordering) (xs : List α) : (sortBy cmp xs).Perm xs :=
  List.perm_insertionSort _ xs

def EntriesInRange (bound : Int) (entries : List BuildEntry) : Prop := ∀ e ∈ entries, InRange bound e.parameterSpace

/-- The buckets split the entries into pieces of a size. -/
structure Buckets (expected : Nat) (entries : List BuildEntry) (buckets : List (List BuildEntry)) : Prop where
  flatten : buckets.flatten = entries
  nonempty : ∀ bucket ∈ buckets, bucket ≠ []
  length_le : ∀ bucket ∈ buckets, bucket.length ≤ expected
  count_le : ∀ m, entries.length ≤ m * expected → buckets.length ≤ m

theorem boundsOf_entries {entries : List BuildEntry} (hne : entries ≠ []) :
    ∃ ps, boundsOf (entries.map BuildEntry.parameterSpace) = some ps ∧
      ∀ bound, EntriesInRange bound entries → InRange bound ps := by
  have hspaces : entries.map BuildEntry.parameterSpace ≠ [] := by simpa using hne
  obtain ⟨ps, hps, hbounds⟩ := boundsOf_spec hspaces
  exact ⟨ps, hps, fun bound hrange => hbounds.inRange (List.forall_mem_map.mpr hrange)⟩

theorem bucketsFrom_spec {expected : Nat} (hexpected : 1 ≤ expected) {bound : Int} :
    ∀ {fuel : Nat} {entries : List BuildEntry}, entries.length ≤ fuel → EntriesInRange bound entries →
      ∃ total buckets, bucketsFrom expected fuel entries = some (total, buckets) ∧ Buckets expected entries buckets ∧
        total ≤ buckets.length * (14 * bound) := by
  intro fuel
  induction fuel with
  | zero =>
    intro entries hfuel _
    have hnil : entries = [] := List.length_eq_zero_iff.mp (by omega)
    subst hnil
    exact ⟨0, [], rfl, ⟨rfl, by simp, by simp, by simp⟩, by simp⟩
  | succ fuel ih =>
    intro entries hfuel hrange
    cases entries with
    | nil => exact ⟨0, [], by rw [bucketsFrom], ⟨rfl, by simp, by simp, by simp⟩, by simp⟩
    | cons e rest =>
      have hdrop : ((e :: rest).drop expected).length ≤ fuel := by
        rw [List.length_drop]
        omega
      have hrest : EntriesInRange bound ((e :: rest).drop expected) := fun e' he => hrange e' (List.mem_of_mem_drop he)
      obtain ⟨total, buckets, heq, hbuckets, htotal⟩ := ih hdrop hrest
      have hbucket : (e :: rest).take expected ≠ [] := by
        rw [Ne, List.take_eq_nil_iff]
        simp
        omega
      obtain ⟨ps, hps, hin⟩ := boundsOf_entries hbucket
      have hcost := cost_le (hin bound fun e' he => hrange e' (List.mem_of_mem_take he))
      refine ⟨cost ps + total, (e :: rest).take expected :: buckets, ?_, ⟨?_, ?_, ?_, ?_⟩, ?_⟩
      · simp only [bucketsFrom, hps, heq, Option.bind_eq_bind, Option.bind_some]
      · rw [List.flatten_cons, hbuckets.flatten, List.take_append_drop]
      · exact List.forall_mem_cons.mpr ⟨hbucket, hbuckets.nonempty⟩
      · exact List.forall_mem_cons.mpr ⟨List.length_take_le _ _, hbuckets.length_le⟩
      · intro m hm
        cases m with
        | zero => simp at hm
        | succ m =>
          have hle : ((e :: rest).drop expected).length ≤ m * expected := by
            rw [List.length_drop]
            rw [Nat.succ_mul] at hm
            omega
          exact Nat.succ_le_succ (hbuckets.count_le m hle)
      · rw [List.length_cons, Int.natCast_succ, Int.add_mul]
        omega

theorem Buckets.two_le {expected : Nat} {entries : List BuildEntry} {buckets : List (List BuildEntry)}
    (h : Buckets expected entries buckets) (hlt : expected < entries.length) : 2 ≤ buckets.length := by
  by_contra hfew
  have hlength : buckets.flatten.length = entries.length := by rw [h.flatten]
  match hbuckets : buckets with
  | [] =>
    simp at hlength
    omega
  | [bucket] =>
    have hle := h.length_le bucket (by simp)
    simp at hlength
    omega
  | _ :: _ :: _ => simp at hfew

/-! ## The best split -/

section
variable {expected : Nat → Nat} {bound : Int} {entries : List BuildEntry}

/-- The best buckets so far are buckets of the entries in some order. -/
structure SplitOk (expected : Nat → Nat) (entries : List BuildEntry) (s : Split) : Prop where
  perm : s.entries.Perm entries
  best : ∀ buckets, s.bestBuckets = some buckets →
    ∃ sorted : List BuildEntry, sorted.Perm entries ∧ Buckets (expected entries.length) sorted buckets
  first : s.bestBuckets = none → s.minCost = i64Max

theorem EntriesInRange.perm {entries' : List BuildEntry} (h : EntriesInRange bound entries) (hperm : entries'.Perm entries) :
    EntriesInRange bound entries' := fun e he => h e (hperm.mem_iff.mp he)

theorem bound_lt (hbound : 28 * bound * bound < 2 ^ 63) : bound < 2 ^ 30 := by
  by_contra hge
  have hsquare : 2 ^ 30 * 2 ^ 30 ≤ bound * bound := Int.mul_le_mul (by omega) (by omega) (by decide) (by omega)
  rw [Int.mul_assoc] at hbound
  omega

theorem bucketCost_lt (hbound : 28 * bound * bound < 2 ^ 63) {count : Nat} (hcount : count ≤ 255) :
    (count : Int) * (14 * bound) < i64Max := by
  have hlt := bound_lt hbound
  have hle : (count : Int) * (14 * bound) ≤ count * (14 * 2 ^ 30) := Int.mul_le_mul_of_nonneg_left (by omega) (by omega)
  unfold i64Max
  omega

theorem tryDimension_spec (hsizes : BucketSizes expected) (hmany : childrenPerNode < entries.length)
    (hbound : 28 * bound * bound < 2 ^ 63) (hrange : EntriesInRange bound entries) {s : Split}
    (h : SplitOk expected entries s) (d : Dimension) :
    ∃ s', tryDimension expected s d = some s' ∧ SplitOk expected entries s' ∧ s'.bestBuckets.isSome := by
  have hperm : (sortEntries s.entries d).Perm entries := (sortBy_perm _ _).trans h.perm
  have hlength := hperm.length_eq
  obtain ⟨total, buckets, heq, hbuckets, htotal⟩ := bucketsFrom_spec (hsizes.pos _ hmany) hlength.le (hrange.perm hperm)
  have hcount : buckets.length ≤ 255 := by
    apply hbuckets.count_le
    rw [hlength]
    exact hsizes.fit _ hmany
  have hcost : total < i64Max := htotal.trans_lt (bucketCost_lt hbound hcount)
  have hsnapshot : snapshotBuckets expected (sortEntries s.entries d) = some (total, buckets) := by
    unfold snapshotBuckets
    rw [hlength]
    exact heq
  unfold tryDimension
  simp only [hsnapshot, Option.bind_eq_bind, Option.bind_some]
  by_cases hbetter : s.minCost > total
  · rw [if_pos hbetter]
    refine ⟨_, rfl, ⟨hperm, ?_, fun hnone => absurd hnone (by simp)⟩, rfl⟩
    intro buckets' hbest
    cases hbest
    exact ⟨_, hperm, hbuckets⟩
  · rw [if_neg hbetter]
    refine ⟨_, rfl, ⟨hperm, h.best, h.first⟩, ?_⟩
    by_contra hnone
    rw [Bool.not_eq_true, Option.isSome_eq_false_iff, Option.isNone_iff_eq_none] at hnone
    rw [h.first hnone] at hbetter
    exact hbetter hcost

end

/-! ## Trees -/

/-- Every box contains the boxes of its children, between 2 and 255. -/
inductive Boxed : RTreeNode → Prop where
  | leaf (ps : ParameterSpace) (valueIndex : Nat) : Boxed (.leaf ps valueIndex)
  | subTree {ps : ParameterSpace} {children : List RTreeNode} (htwo : 2 ≤ children.length) (hfew : children.length ≤ 255)
      (hwithin : ∀ child ∈ children, Within child.parameterSpace ps) (hchildren : ∀ child ∈ children, Boxed child) :
      Boxed (.subTree ps children)

theorem Boxed.of_children {ps : ParameterSpace} {children : List RTreeNode} (h : Boxed (.subTree ps children)) :
    ∀ child ∈ children, Boxed child := by
  cases h with
  | subTree _ _ _ hchildren => exact hchildren

mutual

def RTreeNode.leaves : RTreeNode → List (ParameterSpace × Nat)
  | .leaf ps valueIndex => [(ps, valueIndex)]
  | .subTree _ children => leavesOf children

def leavesOf : List RTreeNode → List (ParameterSpace × Nat)
  | [] => []
  | node :: rest => node.leaves ++ leavesOf rest

end

def BuildEntry.leaf (e : BuildEntry) : ParameterSpace × Nat := (e.parameterSpace, e.index)

/-- A tree of the entries. -/
structure Built (entries : List BuildEntry) (root : RTreeNode) : Prop where
  boxed : Boxed root
  leaves : root.leaves.Perm (entries.map BuildEntry.leaf)

theorem buildParameterSpace_spec {children : List RTreeNode} (htwo : 2 ≤ children.length) (hfew : children.length ≤ 255)
    (hchildren : ∀ child ∈ children, Boxed child) :
    ∃ ps, buildParameterSpace children = some ps ∧ Boxed (.subTree ps children) := by
  have hne : children.map RTreeNode.parameterSpace ≠ [] := by
    intro hnil
    have hlength := congrArg List.length hnil
    simp at hlength
    simp [hlength] at htwo
  obtain ⟨ps, hps, hbounds⟩ := boundsOf_spec hne
  exact ⟨ps, hps, .subTree htwo hfew (fun child hc => hbounds.within _ (List.mem_map_of_mem hc)) hchildren⟩

theorem leavesOf_leafOf (entries : List BuildEntry) : leavesOf (entries.map leafOf) = entries.map BuildEntry.leaf := by
  induction entries with
  | nil => rfl
  | cons e rest ih =>
    rw [List.map_cons, List.map_cons, leavesOf, ih]
    rfl

section
variable {expected : Nat → Nat} {bound : Int}

theorem bestSplit_spec (hsizes : BucketSizes expected) (hbound : 28 * bound * bound < 2 ^ 63) {entries : List BuildEntry}
    (hmany : childrenPerNode < entries.length) (hrange : EntriesInRange bound entries) :
    ∃ split buckets sorted, dimensions.foldlM (tryDimension expected)
        { entries, minCost := i64Max, bestDim := 0, bestBuckets := none } = some split ∧
      split.bestBuckets = some buckets ∧ sorted.Perm entries ∧ Buckets (expected entries.length) sorted buckets := by
  have hstart : SplitOk expected entries { entries, minCost := i64Max, bestDim := 0, bestBuckets := none } :=
    ⟨List.Perm.refl _, fun _ h => absurd h (by simp), fun _ => rfl⟩
  have hdims : dimensions = 0 :: dimensions.tail := rfl
  obtain ⟨s, hfirst, hs⟩ := tryDimension_spec hsizes hmany hbound hrange hstart 0
  have hstep : ∀ s, (SplitOk expected entries s ∧ s.bestBuckets.isSome) → ∀ d ∈ dimensions.tail,
      ∃ s', tryDimension expected s d = some s' ∧ (SplitOk expected entries s' ∧ s'.bestBuckets.isSome) :=
    fun s hs d _ => tryDimension_spec hsizes hmany hbound hrange hs.1 d
  obtain ⟨split, hsplit, hok, hsome⟩ := foldlM_some hstep hs
  obtain ⟨buckets, hbest⟩ := Option.isSome_iff_exists.mp hsome
  obtain ⟨sorted, hperm, hbuckets⟩ := hok.best buckets hbest
  refine ⟨split, buckets, sorted, ?_, hbest, hperm, hbuckets⟩
  rw [hdims, List.foldlM_cons, hfirst]
  exact hsplit

theorem bucketSubtrees_spec {buckets : List (List BuildEntry)} (hne : ∀ bucket ∈ buckets, bucket ≠ []) :
    ∃ subtrees, buckets.mapM boundBucket = some subtrees ∧ subtrees.map Prod.snd = buckets := by
  have hbucket : ∀ bucket ∈ buckets, ∃ subtree, boundBucket bucket = some subtree ∧ bucket = subtree.2 := by
    intro bucket hb
    obtain ⟨ps, hps, _⟩ := boundsOf_entries (hne bucket hb)
    exact ⟨(ps, bucket), by rw [boundBucket, hps]; rfl, rfl⟩
  obtain ⟨subtrees, hmap, hall⟩ := forall₂_mapM hbucket
  refine ⟨subtrees, hmap, ?_⟩
  clear hmap hbucket hne
  induction hall with
  | nil => rfl
  | cons heq _ ih => rw [List.map_cons, ih, heq]

theorem leavesOf_perm {subtrees : List (ParameterSpace × List BuildEntry)} {children : List RTreeNode}
    (h : List.Forall₂ (fun subtree child => Built subtree.2 child) subtrees children) :
    (leavesOf children).Perm ((subtrees.flatMap Prod.snd).map BuildEntry.leaf) := by
  induction h with
  | nil => exact List.Perm.refl _
  | cons hbuilt _ ih =>
    rw [leavesOf, List.flatMap_cons, List.map_append]
    exact hbuilt.leaves.append ih

theorem smallNode_spec {entries : List BuildEntry} (htwo : 2 ≤ entries.length) (hfew : entries.length ≤ childrenPerNode) :
    ∃ root, (do
      let children := (sortBy (fun a b => compare (magnitude a) (magnitude b)) entries).map leafOf
      let ps ← buildParameterSpace children
      some (.subTree ps children)) = some root ∧ Built entries root := by
  have hperm := sortBy_perm (fun a b => compare (magnitude a) (magnitude b)) entries
  have hlength := hperm.length_eq
  have hsix : childrenPerNode = 6 := rfl
  have hboxed : ∀ child ∈ (sortBy (fun a b => compare (magnitude a) (magnitude b)) entries).map leafOf, Boxed child :=
    List.forall_mem_map.mpr fun e _ => .leaf _ _
  obtain ⟨ps, hps, htree⟩ := buildParameterSpace_spec (by rw [List.length_map]; omega) (by rw [List.length_map]; omega)
    hboxed
  refine ⟨_, ?_, htree, ?_⟩
  · simp only [hps, Option.bind_eq_bind, Option.bind_some]
  · rw [RTreeNode.leaves, leavesOf_leafOf]
    exact hperm.map _

theorem buildTree_spec (hsizes : BucketSizes expected) (hbound : 28 * bound * bound < 2 ^ 63) :
    ∀ {fuel : Nat} {entries : List BuildEntry}, entries ≠ [] → entries.length ≤ fuel → EntriesInRange bound entries →
      ∃ root, buildTree expected fuel entries = some root ∧ Built entries root := by
  intro fuel
  induction fuel with
  | zero =>
    intro entries hne hfuel _
    exact absurd (List.length_eq_zero_iff.mp (by omega)) hne
  | succ fuel ih =>
    intro entries hne hfuel hrange
    match entries with
    | [] => exact absurd rfl hne
    | [e] => exact ⟨leafOf e, rfl, .leaf _ _, List.Perm.refl _⟩
    | e :: e' :: rest =>
      have htwo : 2 ≤ (e :: e' :: rest).length := by simp
      rw [buildTree]
      · by_cases hmany : (e :: e' :: rest).length ≤ childrenPerNode
        · rw [if_pos hmany]
          exact smallNode_spec htwo hmany
        · rw [if_neg hmany]
          rw [Nat.not_le] at hmany
          obtain ⟨split, buckets, sorted, hsplit, hbest, hperm, hbuckets⟩ := bestSplit_spec hsizes hbound hmany hrange
          have hlt := hsizes.lt _ hmany
          have hlength := hperm.length_eq
          obtain ⟨subtrees, hsubtrees, hsnd⟩ := bucketSubtrees_spec hbuckets.nonempty
          have hsorted : (sortBucketSubtrees subtrees split.bestDim).Perm subtrees := sortBy_perm _ _
          have hbuild : ∀ subtree ∈ sortBucketSubtrees subtrees split.bestDim,
              ∃ child, buildTree expected fuel subtree.2 = some child ∧ Built subtree.2 child := by
            intro subtree hmem
            have hbucket : subtree.2 ∈ buckets := hsnd ▸ List.mem_map_of_mem (hsorted.mem_iff.mp hmem)
            have hle := hbuckets.length_le _ hbucket
            have hentries : ∀ x ∈ subtree.2, x ∈ sorted := by
              intro x hx
              rw [← hbuckets.flatten]
              exact List.mem_flatten.mpr ⟨_, hbucket, hx⟩
            exact ih (hbuckets.nonempty _ hbucket) (by omega) fun x hx => hrange x (hperm.mem_iff.mp (hentries x hx))
          obtain ⟨children, hchildren, hall⟩ := forall₂_mapM hbuild
          have hcount : children.length = buckets.length := by
            rw [← hall.length_eq, hsorted.length_eq, ← hsnd, List.length_map]
          have hfew := hbuckets.count_le 255 (by rw [hlength]; exact hsizes.fit _ hmany)
          have hmore := hbuckets.two_le (by omega)
          have hboxed : ∀ child ∈ children, Boxed child := by
            intro child hchild
            obtain ⟨_, _, hbuilt⟩ := exists_of_mem_forall₂ hall hchild
            exact hbuilt.boxed
          obtain ⟨ps, hps, htree⟩ := buildParameterSpace_spec (by omega) (by omega) hboxed
          refine ⟨.subTree ps children, ?_, htree, ?_⟩
          · simp only [hsplit, hbest, hsubtrees, hchildren, hps, Option.bind_eq_bind, Option.bind_some]
          · have hflat : subtrees.flatMap Prod.snd = sorted := by rw [List.flatMap_def, hsnd, hbuckets.flatten]
            have hentries : ((sortBucketSubtrees subtrees split.bestDim).flatMap Prod.snd).Perm (e :: e' :: rest) :=
              (hsorted.flatMap_right _).trans (hflat ▸ hperm)
            rw [RTreeNode.leaves]
            exact (leavesOf_perm hall).trans (hentries.map _)
      all_goals simp

end

end Foton.Climate
