import Foton.Lib.Coverage
import Foton.Lib.Run
import Foton.Ticket.Spread

/-!
# Full neighbourhoods

The index counts, for each chunk position, the Full chunks in the squares of
radius 1 and 2 around it. A contributor that comes or goes changes the counts of
the positions around it, and these positions are dirty until the counts are taken.
Positions outside the `i32` range have no counts.
-/

namespace Foton

def blockTickingFullCount : Nat := 9
def entityTickingFullCount : Nat := 25

structure FullNeighborhoodCounts where
  blockTicking : Nat
  entityTicking : Nat
  deriving DecidableEq, Repr

namespace FullNeighborhoodCounts

def zero : FullNeighborhoodCounts := ⟨0, 0⟩

def blockTickingReady (counts : FullNeighborhoodCounts) : Bool := counts.blockTicking == blockTickingFullCount

def entityTickingReady (counts : FullNeighborhoodCounts) : Bool := counts.entityTicking == entityTickingFullCount

/-- The count of a radius: the source compares with 1 and takes the other count for any other radius. -/
def count (radius : Nat) (counts : FullNeighborhoodCounts) : Nat :=
  if radius = 1 then counts.blockTicking else counts.entityTicking

def mapCount (radius : Nat) (f : Nat → Nat) (counts : FullNeighborhoodCounts) : FullNeighborhoodCounts :=
  if radius = 1 then { counts with blockTicking := f counts.blockTicking }
  else { counts with entityTicking := f counts.entityTicking }

end FullNeighborhoodCounts

inductive FullNeighborhoodError where
  | counterOverflow (center : ChunkPos) (radius count : Nat)
  | counterUnderflow (center : ChunkPos) (radius : Nat)
  | contributorIdentityMismatch (pos : ChunkPos)
  deriving DecidableEq

/-! ## Centers -/

/-- `i32::checked_add`. -/
def ChunkPos.checkedAdd (a : Int32) (d : Int) : Option Int32 :=
  if -2 ^ 31 ≤ a.toInt + d ∧ a.toInt + d < 2 ^ 31 then some (a + Int32.ofInt d) else none

/-- The position at an offset, when its coordinates do not overflow. -/
def ChunkPos.centerAt (pos : ChunkPos) (offset : Int × Int) : Option ChunkPos :=
  (ChunkPos.checkedAdd pos.x offset.1).bind fun x => (ChunkPos.checkedAdd pos.z offset.2).map fun z => ⟨x, z⟩

/-- The positions that `for_each_center` visits, row by row. -/
def ChunkPos.centers (pos : ChunkPos) (radius : Nat) : List ChunkPos := (offsets radius).filterMap pos.centerAt

theorem ChunkPos.chebyshev_comm (p q : ChunkPos) : p.chebyshev q = q.chebyshev p := by
  unfold chebyshev
  omega

theorem ChunkPos.checkedAdd_eq_some {a b : Int32} {d : Int} :
    ChunkPos.checkedAdd a d = some b ↔ b.toInt = a.toInt + d := by
  unfold ChunkPos.checkedAdd
  have hlow := b.le_toInt
  have hhigh := b.toInt_lt
  have hsize : (Int32.size : Int) = 2 ^ 32 := rfl
  by_cases hrange : -2 ^ 31 ≤ a.toInt + d ∧ a.toInt + d < 2 ^ 31
  · have hsum : (a + Int32.ofInt d).toInt = a.toInt + d := by
      rw [Int32.toInt_add, Int32.toInt_ofInt, Int.add_bmod_bmod]
      exact Int.bmod_eq_of_le (by rw [hsize]; omega) (by rw [hsize]; omega)
    rw [if_pos hrange, Option.some.injEq, ← Int32.toInt_inj, hsum]
    exact eq_comm
  · rw [if_neg hrange]
    refine ⟨fun h => (by cases h), fun h => absurd ⟨?_, ?_⟩ hrange⟩ <;> omega

theorem ChunkPos.checkedAdd_isSome {a : Int32} {d : Int} :
    (ChunkPos.checkedAdd a d).isSome = true ↔ -2 ^ 31 ≤ a.toInt + d ∧ a.toInt + d < 2 ^ 31 := by
  unfold ChunkPos.checkedAdd
  by_cases hrange : -2 ^ 31 ≤ a.toInt + d ∧ a.toInt + d < 2 ^ 31
  · rw [if_pos hrange]
    exact iff_of_true rfl hrange
  · rw [if_neg hrange]
    exact iff_of_false Bool.false_ne_true hrange

theorem offsets_nodup (radius : Nat) : (offsets radius).Nodup := by
  unfold offsets
  rw [List.nodup_flatMap]
  refine ⟨fun i _ => ?_, ?_⟩
  · apply List.Nodup.map _ List.nodup_range
    intro j j' h
    have := (Prod.mk.inj h).1
    simp only [Int.ofNat_eq_natCast] at this
    omega
  · apply List.nodup_range.imp
    intro i i' hne
    apply List.disjoint_left.mpr
    intro o ho ho'
    obtain ⟨j, -, rfl⟩ := List.mem_map.mp ho
    obtain ⟨j', -, h⟩ := List.mem_map.mp ho'
    have := (Prod.mk.inj h).2
    simp only [Int.ofNat_eq_natCast] at this
    omega

theorem length_offsets (radius : Nat) : (offsets radius).length = (2 * radius + 1) * (2 * radius + 1) := by
  unfold offsets
  simp only [List.length_flatMap, List.length_map, List.length_range, List.map_const', List.sum_replicate_nat]

namespace ChunkPos

variable {pos center : ChunkPos} {radius : Nat}

theorem centerAt_eq_some {offset : Int × Int} :
    pos.centerAt offset = some center ↔
      center.x.toInt = pos.x.toInt + offset.1 ∧ center.z.toInt = pos.z.toInt + offset.2 := by
  unfold centerAt
  rw [Option.bind_eq_some_iff]
  constructor
  · intro ⟨x, hcx, h⟩
    obtain ⟨z, hcz, rfl⟩ := Option.map_eq_some_iff.mp h
    exact ⟨ChunkPos.checkedAdd_eq_some.mp hcx, ChunkPos.checkedAdd_eq_some.mp hcz⟩
  · intro ⟨hcx, hcz⟩
    exact ⟨center.x, ChunkPos.checkedAdd_eq_some.mpr hcx,
      Option.map_eq_some_iff.mpr ⟨center.z, ChunkPos.checkedAdd_eq_some.mpr hcz, rfl⟩⟩

theorem centerAt_isSome {offset : Int × Int} :
    (pos.centerAt offset).isSome = true ↔
      (-2 ^ 31 ≤ pos.x.toInt + offset.1 ∧ pos.x.toInt + offset.1 < 2 ^ 31) ∧
        (-2 ^ 31 ≤ pos.z.toInt + offset.2 ∧ pos.z.toInt + offset.2 < 2 ^ 31) := by
  rw [← ChunkPos.checkedAdd_isSome, ← ChunkPos.checkedAdd_isSome]
  unfold centerAt
  cases ChunkPos.checkedAdd pos.x offset.1 <;> simp

theorem mem_centers : center ∈ pos.centers radius ↔ center.chebyshev pos ≤ radius := by
  unfold centers
  rw [List.mem_filterMap]
  constructor
  · intro ⟨offset, ho, h⟩
    obtain ⟨hx, hz⟩ := mem_offsets.mp ho
    obtain ⟨hcx, hcz⟩ := centerAt_eq_some.mp h
    unfold chebyshev
    omega
  · intro h
    unfold chebyshev at h
    refine ⟨(center.x.toInt - pos.x.toInt, center.z.toInt - pos.z.toInt), mem_offsets.mpr ⟨by omega, by omega⟩, ?_⟩
    exact centerAt_eq_some.mpr ⟨by dsimp only; omega, by dsimp only; omega⟩

theorem mem_centers_comm : center ∈ pos.centers radius ↔ pos ∈ center.centers radius := by
  rw [mem_centers, mem_centers, chebyshev_comm]

theorem nodup_centers : (pos.centers radius).Nodup := by
  unfold centers
  refine (offsets_nodup radius).filterMap fun o o' center ho ho' => ?_
  obtain ⟨hx, hz⟩ := centerAt_eq_some.mp ho
  obtain ⟨hx', hz'⟩ := centerAt_eq_some.mp ho'
  exact Prod.ext (by omega) (by omega)

theorem length_centers_le : (pos.centers radius).length ≤ (2 * radius + 1) * (2 * radius + 1) := by
  rw [← length_offsets]
  exact List.length_filterMap_le _ _

/-- The square is whole exactly where none of its coordinates overflow. -/
theorem length_centers_eq : (pos.centers radius).length = (2 * radius + 1) * (2 * radius + 1) ↔ pos.Fits radius := by
  rw [← length_offsets]
  unfold centers
  rw [List.length_filterMap_eq_countP, List.countP_eq_length]
  simp only [centerAt_isSome]
  constructor
  · intro h
    have hlow := h (-radius, -radius) (mem_offsets.mpr ⟨by simp, by simp⟩)
    have hhigh := h (radius, radius) (mem_offsets.mpr ⟨by simp, by simp⟩)
    dsimp only at hlow hhigh
    exact ⟨by omega, by omega, by omega, by omega⟩
  · intro ⟨h1, h2, h3, h4⟩ o ho
    obtain ⟨hx, hz⟩ := mem_offsets.mp ho
    omega

end ChunkPos

/-! ## The index -/

/-- Contributors are holders, compared by identity. -/
structure FullNeighborhoodIndex (H : Type) where
  contributors : AssocList ChunkPos H
  counts : AssocList ChunkPos FullNeighborhoodCounts
  dirtyCenters : List ChunkPos
  pendingReadiness : AssocList ChunkPos H

namespace FullNeighborhoodIndex

variable {H : Type}

def default : FullNeighborhoodIndex H := ⟨∅, ∅, [], ∅⟩

def countsAt (index : FullNeighborhoodIndex H) (center : ChunkPos) : FullNeighborhoodCounts :=
  (index.counts.lookup center).getD .zero

def validateIncrement (index : FullNeighborhoodIndex H) (pos : ChunkPos) (radius maximum : Nat) :
    Except FullNeighborhoodError Unit :=
  match (pos.centers radius).find? fun center => maximum ≤ (index.countsAt center).count radius with
  | some center => .error (.counterOverflow center radius ((index.countsAt center).count radius))
  | none => .ok ()

def validateDecrement (index : FullNeighborhoodIndex H) (pos : ChunkPos) (radius : Nat) :
    Except FullNeighborhoodError Unit :=
  match (pos.centers radius).find? fun center => (index.countsAt center).count radius = 0 with
  | some center => .error (.counterUnderflow center radius)
  | none => .ok ()

def markDirty (index : FullNeighborhoodIndex H) (pos : ChunkPos) : FullNeighborhoodIndex H :=
  { index with dirtyCenters := index.dirtyCenters.insert pos }

def adjustCounts (index : FullNeighborhoodIndex H) (pos : ChunkPos) (radius : Nat) (increment : Bool) :
    FullNeighborhoodIndex H :=
  { index with
    counts := index.counts.changeAll .zero
      (FullNeighborhoodCounts.mapCount radius fun n => if increment then n + 1 else n - 1) (pos.centers radius)
    dirtyCenters := (pos.centers radius).foldl (fun dirty center => dirty.insert center) index.dirtyCenters }

/-- `&mut self` methods that fail return the index as they leave it. -/
abbrev Outcome (H : Type) := Except FullNeighborhoodError Unit × FullNeighborhoodIndex H

def addContributor (index : FullNeighborhoodIndex H) (pos : ChunkPos) (holder : H) : Outcome H :=
  match index.validateIncrement pos 1 blockTickingFullCount with
  | .error e => (.error e, index)
  | .ok () =>
    match index.validateIncrement pos 2 entityTickingFullCount with
    | .error e => (.error e, index)
    | .ok () =>
      let index := { index with contributors := index.contributors.insert pos holder }
      (.ok (), (index.adjustCounts pos 1 true).adjustCounts pos 2 true)

/-- The entries around `pos` with both counts zero are removed. -/
def dropEmptyCounts (index : FullNeighborhoodIndex H) (pos : ChunkPos) : FullNeighborhoodIndex H :=
  { index with
    counts := index.counts.eraseAll (fun counts => counts.blockTicking == 0 && counts.entityTicking == 0) (pos.centers 2) }

def removeContributor (index : FullNeighborhoodIndex H) (pos : ChunkPos) : Outcome H :=
  match index.validateDecrement pos 1 with
  | .error e => (.error e, index)
  | .ok () =>
    match index.validateDecrement pos 2 with
    | .error e => (.error e, index)
    | .ok () =>
      let index := { index with contributors := index.contributors.erase pos }
      (.ok (), ((index.adjustCounts pos 1 false).adjustCounts pos 2 false).dropEmptyCounts pos)

variable [DecidableEq H]

def reconcileContributor (index : FullNeighborhoodIndex H) (pos : ChunkPos) (holder : Option H) : Outcome H :=
  if index.contributors.lookup pos = holder then (.ok (), index)
  else
    let removed := if (index.contributors.lookup pos).isSome then index.removeContributor pos else (.ok (), index)
    match removed with
    | (.error e, index) => (.error e, index)
    | (.ok (), index) =>
      match holder with
      | some holder => index.addContributor pos holder
      | none => (.ok (), index)

def removeContributorIfMatches (index : FullNeighborhoodIndex H) (pos : ChunkPos) (holder : H) : Outcome H :=
  match index.contributors.lookup pos with
  | none => (.ok (), index)
  | some current =>
    if current = holder then index.removeContributor pos else (.error (.contributorIdentityMismatch pos), index)

def dirtyCountsSnapshot (index : FullNeighborhoodIndex H) : List (ChunkPos × FullNeighborhoodCounts) :=
  index.dirtyCenters.map fun pos => (pos, index.countsAt pos)

def takeDirtyCounts (index : FullNeighborhoodIndex H) :
    List (ChunkPos × FullNeighborhoodCounts) × FullNeighborhoodIndex H :=
  (index.dirtyCountsSnapshot, { index with dirtyCenters := [] })

def ensurePendingReadiness (index : FullNeighborhoodIndex H) (pos : ChunkPos) (holder : H) : FullNeighborhoodIndex H :=
  if index.pendingReadiness.lookup pos = some holder then index
  else { index with pendingReadiness := index.pendingReadiness.insert pos holder }

def clearPendingReadiness (index : FullNeighborhoodIndex H) (pos : ChunkPos) : FullNeighborhoodIndex H :=
  { index with pendingReadiness := index.pendingReadiness.erase pos }

/-! ## The counts are exact -/

omit [DecidableEq H]

def contributes (index : FullNeighborhoodIndex H) (pos : ChunkPos) : Bool := (index.contributors.lookup pos).isSome

/-- The counts are those of the contributors, and no entry of the table is empty. -/
structure Exact (index : FullNeighborhoodIndex H) : Prop where
  counts : ∀ radius, radius = 1 ∨ radius = 2 → ∀ center,
    (index.countsAt center).count radius = covering index.contributes (center.centers radius)
  stored : ∀ center counts, index.counts.lookup center = some counts → counts.entityTicking ≠ 0

theorem exact_default : Exact (default : FullNeighborhoodIndex H) where
  counts radius hradius center := by
    have hnone : covering (default : FullNeighborhoodIndex H).contributes (center.centers radius) = 0 :=
      List.countP_eq_zero.mpr fun _ _ => Bool.false_ne_true
    rw [hnone]
    obtain rfl | rfl := hradius <;> rfl
  stored center counts h := by cases h

variable {index : FullNeighborhoodIndex H} {pos center : ChunkPos} {radius : Nat} {increment : Bool}

theorem countsAt_adjustCounts :
    (index.adjustCounts pos radius increment).countsAt center =
      if center ∈ pos.centers radius then
        (index.countsAt center).mapCount radius fun n => if increment then n + 1 else n - 1
      else index.countsAt center := by
  unfold countsAt adjustCounts
  rw [AssocList.lookup_changeAll ChunkPos.nodup_centers]
  split <;> rfl

theorem count_mapCount {counts : FullNeighborhoodCounts} {f : Nat → Nat} {radius' : Nat} (h : radius = 1 ∨ radius = 2)
    (h' : radius' = 1 ∨ radius' = 2) :
    (counts.mapCount radius f).count radius' = if radius' = radius then f (counts.count radius) else counts.count radius' := by
  obtain rfl | rfl := h <;> obtain rfl | rfl := h' <;> rfl

/-- Both radii are adjusted. -/
theorem count_adjust_both {radius' : Nat} (h' : radius' = 1 ∨ radius' = 2) :
    (((index.adjustCounts pos 1 increment).adjustCounts pos 2 increment).countsAt center).count radius' =
      if center ∈ pos.centers radius' then
        (if increment then (index.countsAt center).count radius' + 1 else (index.countsAt center).count radius' - 1)
      else (index.countsAt center).count radius' := by
  rw [countsAt_adjustCounts, countsAt_adjustCounts]
  obtain rfl | rfl := h'
  · by_cases h1 : center ∈ pos.centers 1 <;> by_cases h2 : center ∈ pos.centers 2 <;>
      simp [h1, h2, count_mapCount]
  · by_cases h1 : center ∈ pos.centers 1 <;> by_cases h2 : center ∈ pos.centers 2 <;>
      simp [h1, h2, count_mapCount]

theorem mem_dirty_adjustCounts :
    center ∈ (index.adjustCounts pos radius increment).dirtyCenters ↔
      center ∈ pos.centers radius ∨ center ∈ index.dirtyCenters := by
  unfold adjustCounts
  dsimp only
  generalize pos.centers radius = centers
  generalize index.dirtyCenters = dirty
  induction centers generalizing dirty with
  | nil => simp
  | cons c rest ih =>
    rw [List.foldl_cons, ih, List.mem_insert_iff, List.mem_cons]
    tauto

theorem centers_mono (h : center ∈ pos.centers 1) : center ∈ pos.centers 2 := by
  rw [ChunkPos.mem_centers] at h ⊢
  omega

theorem validateIncrement_ok (h : Exact index) (hradius : radius = 1 ∨ radius = 2) (maximum : Nat)
    (hmax : (2 * radius + 1) * (2 * radius + 1) = maximum) (hnew : index.contributors.lookup pos = none) :
    index.validateIncrement pos radius maximum = .ok () := by
  have hnone : ((pos.centers radius).find? fun center => decide (maximum ≤ (index.countsAt center).count radius)) = none := by
    rw [List.find?_eq_none]
    intro center hcenter
    rw [decide_eq_true_eq, h.counts radius hradius center, Nat.not_le]
    have hmem : pos ∈ center.centers radius := ChunkPos.mem_centers_comm.mp hcenter
    have hne : covering index.contributes (center.centers radius) ≠ (center.centers radius).length := by
      intro heq
      have hpos := covering_eq_length.mp heq pos hmem
      unfold contributes at hpos
      rw [hnew] at hpos
      cases hpos
    have hle := covering_le (S := index.contributes) (l := center.centers radius)
    have hlength : (center.centers radius).length ≤ (2 * radius + 1) * (2 * radius + 1) := ChunkPos.length_centers_le
    omega
  unfold validateIncrement
  rw [hnone]

theorem validateDecrement_ok (h : Exact index) (hradius : radius = 1 ∨ radius = 2)
    (hold : index.contributes pos = true) : index.validateDecrement pos radius = .ok () := by
  have hnone : ((pos.centers radius).find? fun center => decide ((index.countsAt center).count radius = 0)) = none := by
    rw [List.find?_eq_none]
    intro center hcenter
    rw [decide_eq_true_eq, h.counts radius hradius center]
    have hpos := covering_pos.mpr ⟨pos, ChunkPos.mem_centers_comm.mp hcenter, hold⟩
    omega
  unfold validateDecrement
  rw [hnone]

/-- A count is full where the square is whole and each of its chunks contributes. -/
theorem Exact.full_iff (h : Exact index) (hradius : radius = 1 ∨ radius = 2) :
    (index.countsAt center).count radius = (2 * radius + 1) * (2 * radius + 1) ↔
      center.Fits radius ∧ ∀ p, p.chebyshev center ≤ radius → index.contributes p = true := by
  rw [h.counts radius hradius, ← ChunkPos.length_centers_eq]
  have hle := covering_le (S := index.contributes) (l := center.centers radius)
  have hlength : (center.centers radius).length ≤ (2 * radius + 1) * (2 * radius + 1) := ChunkPos.length_centers_le
  have hall : covering index.contributes (center.centers radius) = (center.centers radius).length ↔
      ∀ p, p.chebyshev center ≤ radius → index.contributes p = true := by
    rw [covering_eq_length]
    refine forall_congr' fun p => ?_
    rw [ChunkPos.mem_centers]
  rw [← hall]
  omega

/-- What a change of the contributors at `pos` leaves: exact counts, the other fields, and dirty centers. -/
structure Changed (index index' : FullNeighborhoodIndex H) (pos : ChunkPos) (holder : Option H) : Prop where
  exact : Exact index'
  contributors : ∀ p, index'.contributors.lookup p = if p = pos then holder else index.contributors.lookup p
  dirty : ∀ p, p ∈ index'.dirtyCenters ↔ p ∈ pos.centers 2 ∨ p ∈ index.dirtyCenters
  pending : index'.pendingReadiness = index.pendingReadiness

theorem mem_dirty_adjust_both :
    center ∈ ((index.adjustCounts pos 1 increment).adjustCounts pos 2 increment).dirtyCenters ↔
      center ∈ pos.centers 2 ∨ center ∈ index.dirtyCenters := by
  rw [mem_dirty_adjustCounts, mem_dirty_adjustCounts]
  have hmono : center ∈ pos.centers 1 → center ∈ pos.centers 2 := centers_mono
  tauto

theorem stored_iff : (∀ center counts, index.counts.lookup center = some counts → counts.entityTicking ≠ 0) ↔
    ∀ center, (index.counts.lookup center).isSome = true → (index.countsAt center).count 2 ≠ 0 := by
  unfold countsAt
  constructor
  · intro h center hsome
    obtain ⟨counts, hcounts⟩ := Option.isSome_iff_exists.mp hsome
    rw [hcounts]
    exact h center counts hcounts
  · intro h center counts hcounts
    have := h center (by rw [hcounts]; rfl)
    rw [hcounts] at this
    exact this

theorem stored_adjustCounts :
    ((index.adjustCounts pos radius increment).counts.lookup center).isSome = true ↔
      center ∈ pos.centers radius ∨ (index.counts.lookup center).isSome = true := by
  unfold adjustCounts
  rw [AssocList.lookup_changeAll ChunkPos.nodup_centers]
  by_cases hmem : center ∈ pos.centers radius <;> simp [hmem]

theorem addContributor_spec (h : Exact index) (holder : H) (hnew : index.contributors.lookup pos = none) :
    ∃ index', index.addContributor pos holder = (.ok (), index') ∧ Changed index index' pos (some holder) := by
  unfold addContributor
  rw [validateIncrement_ok h (.inl rfl) blockTickingFullCount rfl hnew,
    validateIncrement_ok h (.inr rfl) entityTickingFullCount rfl hnew]
  have hcounts : ∀ radius, radius = 1 ∨ radius = 2 → ∀ center,
      (((({ index with contributors := index.contributors.insert pos holder }).adjustCounts pos 1 true).adjustCounts
        pos 2 true).countsAt center).count radius =
      covering (fun p => ((index.contributors.insert pos holder).lookup p).isSome) (center.centers radius) := by
    intro radius hradius center
    rw [count_adjust_both hradius]
    have hadd : covering (fun p => ((index.contributors.insert pos holder).lookup p).isSome) (center.centers radius) =
        covering index.contributes (center.centers radius) + if pos ∈ center.centers radius then 1 else 0 := by
      apply covering_add ChunkPos.nodup_centers
      · exact Option.isSome_eq_false_iff.mpr (by rw [hnew]; rfl)
      · rw [AssocList.lookup_insert, if_pos rfl]
        rfl
      · intro q hq
        rw [AssocList.lookup_insert, if_neg hq]
        rfl
    rw [hadd, ← h.counts radius hradius center]
    by_cases hmem : pos ∈ center.centers radius
    · rw [if_pos (ChunkPos.mem_centers_comm.mpr hmem), if_pos hmem]
      rfl
    · rw [if_neg (fun hc => hmem (ChunkPos.mem_centers_comm.mp hc)), if_neg hmem]
      rfl
  refine ⟨_, rfl, ⟨hcounts, stored_iff.mpr fun center hstored => ?_⟩, fun p => AssocList.lookup_insert,
    fun p => mem_dirty_adjust_both, rfl⟩
  rw [count_adjust_both (.inr rfl)]
  rw [stored_adjustCounts, stored_adjustCounts] at hstored
  split
  · exact Nat.succ_ne_zero _
  · rename_i hcenter
    obtain hmem | hmem | hold := hstored
    · exact absurd hmem hcenter
    · exact absurd (centers_mono hmem) hcenter
    · exact stored_iff.mp h.stored center hold

/-- A chunk in the small square is in the large one. -/
theorem entity_count_ne_zero
    (h : ∀ radius, radius = 1 ∨ radius = 2 → ∀ center,
      (index.countsAt center).count radius = covering index.contributes (center.centers radius))
    (hblock : (index.countsAt center).count 1 ≠ 0) : (index.countsAt center).count 2 ≠ 0 := by
  rw [h 1 (.inl rfl)] at hblock
  rw [h 2 (.inr rfl)]
  obtain ⟨q, hq, hcontributes⟩ := covering_pos.mp (Nat.pos_of_ne_zero hblock)
  exact Nat.ne_of_gt (covering_pos.mpr ⟨q, centers_mono hq, hcontributes⟩)

theorem bothZero_iff {counts : FullNeighborhoodCounts} :
    (counts.blockTicking == 0 && counts.entityTicking == 0) = true ↔ counts = .zero := by
  cases counts
  simp [FullNeighborhoodCounts.zero]

theorem countsAt_dropEmptyCounts : (index.dropEmptyCounts pos).countsAt center = index.countsAt center := by
  unfold dropEmptyCounts countsAt
  rw [AssocList.lookup_eraseAll]
  split
  · rename_i herased
    cases hlookup : index.counts.lookup center with
    | none => rfl
    | some counts =>
      rw [hlookup, Option.any_some, bothZero_iff] at herased
      rw [herased.2]
      rfl
  · rfl

theorem lookup_dropEmptyCounts {counts : FullNeighborhoodCounts}
    (h : (index.dropEmptyCounts pos).counts.lookup center = some counts) :
    index.counts.lookup center = some counts ∧ (center ∈ pos.centers 2 → counts ≠ .zero) := by
  unfold dropEmptyCounts at h
  rw [AssocList.lookup_eraseAll] at h
  split at h
  · cases h
  · rename_i hkept
    refine ⟨h, fun hcenter hzero => hkept ⟨hcenter, ?_⟩⟩
    rw [h, Option.any_some]
    exact bothZero_iff.mpr hzero

theorem removeContributor_spec (h : Exact index) (hold : index.contributes pos = true) :
    ∃ index', index.removeContributor pos = (.ok (), index') ∧ Changed index index' pos none := by
  unfold removeContributor
  rw [validateDecrement_ok h (.inl rfl) hold, validateDecrement_ok h (.inr rfl) hold]
  refine ⟨_, rfl, ?_⟩
  generalize hadjusted : (({ index with contributors := index.contributors.erase pos }).adjustCounts pos 1
    false).adjustCounts pos 2 false = adjusted
  have hcontributors : adjusted.contributors = index.contributors.erase pos := by rw [← hadjusted]; rfl
  have hcount : ∀ radius, radius = 1 ∨ radius = 2 → ∀ center, (adjusted.countsAt center).count radius =
      if center ∈ pos.centers radius then (index.countsAt center).count radius - 1
      else (index.countsAt center).count radius := by
    intro radius hradius center
    rw [← hadjusted, count_adjust_both hradius]
    rfl
  have hcounts : ∀ radius, radius = 1 ∨ radius = 2 → ∀ center,
      (adjusted.countsAt center).count radius = covering adjusted.contributes (center.centers radius) := by
    intro radius hradius center
    have hadd : covering index.contributes (center.centers radius) =
        covering adjusted.contributes (center.centers radius) + if pos ∈ center.centers radius then 1 else 0 := by
      apply covering_add ChunkPos.nodup_centers
      · unfold contributes
        rw [hcontributors, AssocList.lookup_erase, if_pos rfl]
        rfl
      · exact hold
      · intro q hq
        unfold contributes
        rw [hcontributors, AssocList.lookup_erase, if_neg hq]
    rw [hcount radius hradius, h.counts radius hradius center, hadd]
    by_cases hmem : pos ∈ center.centers radius
    · rw [if_pos (ChunkPos.mem_centers_comm.mpr hmem), if_pos hmem]
      rfl
    · rw [if_neg (fun hc => hmem (ChunkPos.mem_centers_comm.mp hc)), if_neg hmem]
      rfl
  refine ⟨⟨fun radius hradius center => ?_, fun center counts hlookup => ?_⟩, fun p => ?_, fun p => ?_, ?_⟩
  · rw [countsAt_dropEmptyCounts]
    exact hcounts radius hradius center
  · obtain ⟨hlookup, hnonzero⟩ := lookup_dropEmptyCounts hlookup
    have hat : adjusted.countsAt center = counts := by
      unfold countsAt
      rw [hlookup]
      rfl
    by_cases hcenter : center ∈ pos.centers 2
    · have hzero := hnonzero hcenter
      by_contra hentity
      have hblock : (adjusted.countsAt center).count 1 = 0 := by
        by_contra hblock
        exact entity_count_ne_zero hcounts hblock (by rw [hat]; exact hentity)
      rw [hat] at hblock
      exact hzero (bothZero_iff.mp (by rw [Bool.and_eq_true, beq_iff_eq, beq_iff_eq]; exact ⟨hblock, hentity⟩))
    · have hsame := hcount 2 (.inr rfl) center
      rw [if_neg hcenter, hat] at hsame
      have hstored : (adjusted.counts.lookup center).isSome = true := by rw [hlookup]; rfl
      rw [← hadjusted, stored_adjustCounts, stored_adjustCounts] at hstored
      change counts.count 2 ≠ 0
      rw [hsame]
      obtain hmem | hmem | hold := hstored
      · exact absurd hmem hcenter
      · exact absurd (centers_mono hmem) hcenter
      · exact stored_iff.mp h.stored center hold
  · change adjusted.contributors.lookup p = _
    rw [hcontributors, AssocList.lookup_erase]
  · change p ∈ adjusted.dirtyCenters ↔ _
    rw [← hadjusted, mem_dirty_adjust_both]
  · change adjusted.pendingReadiness = _
    rw [← hadjusted]
    rfl

/-- What `reconcile_contributor` leaves: a center that is not dirty afterwards was not before, and kept its counts. -/
structure Reconciled (index index' : FullNeighborhoodIndex H) (pos : ChunkPos) (holder : Option H) : Prop where
  exact : Exact index'
  contributors : ∀ p, index'.contributors.lookup p = if p = pos then holder else index.contributors.lookup p
  kept : ∀ p, p ∉ index'.dirtyCenters → p ∉ index.dirtyCenters ∧ index'.countsAt p = index.countsAt p
  pending : index'.pendingReadiness = index.pendingReadiness

theorem countsAt_ext {index' : FullNeighborhoodIndex H} {c : ChunkPos}
    (h : ∀ radius, radius = 1 ∨ radius = 2 → (index.countsAt c).count radius = (index'.countsAt c).count radius) :
    index.countsAt c = index'.countsAt c := by
  have hblock := h 1 (.inl rfl)
  have hentity := h 2 (.inr rfl)
  revert hblock hentity
  generalize index.countsAt c = counts
  generalize index'.countsAt c = counts'
  intro hblock hentity
  cases counts
  cases counts'
  exact congrArg₂ FullNeighborhoodCounts.mk hblock hentity

theorem Changed.reconciled {index' : FullNeighborhoodIndex H} {holder : Option H} (h : Exact index)
    (hchanged : Changed index index' pos holder) : Reconciled index index' pos holder where
  exact := hchanged.exact
  contributors := hchanged.contributors
  pending := hchanged.pending
  kept p hp := by
    rw [hchanged.dirty p, not_or] at hp
    refine ⟨hp.2, countsAt_ext fun radius hradius => ?_⟩
    rw [hchanged.exact.counts radius hradius, h.counts radius hradius]
    apply covering_congr
    intro q hq
    have hne : q ≠ pos := by
      intro heq
      rw [heq, ChunkPos.mem_centers] at hq
      apply hp.1
      rw [ChunkPos.mem_centers, ChunkPos.chebyshev_comm]
      omega
    unfold contributes
    rw [hchanged.contributors q, if_neg hne]

theorem Reconciled.trans {index₁ index₂ : FullNeighborhoodIndex H} {holder₁ holder₂ : Option H}
    (h₁ : Reconciled index index₁ pos holder₁) (h₂ : Reconciled index₁ index₂ pos holder₂) :
    Reconciled index index₂ pos holder₂ where
  exact := h₂.exact
  contributors p := by
    rw [h₂.contributors p, h₁.contributors p]
    split <;> rfl
  kept p hp := by
    obtain ⟨hdirty, hcounts⟩ := h₂.kept p hp
    obtain ⟨hdirty', hcounts'⟩ := h₁.kept p hdirty
    exact ⟨hdirty', hcounts.trans hcounts'⟩
  pending := h₂.pending.trans h₁.pending

theorem Reconciled.refl (h : Exact index) {holder : Option H} (hsame : index.contributors.lookup pos = holder) :
    Reconciled index index pos holder where
  exact := h
  contributors p := by
    split
    · rename_i heq
      rw [heq, hsame]
    · rfl
  kept p hp := ⟨hp, rfl⟩
  pending := rfl

variable [DecidableEq H]

theorem reconcileContributor_spec (h : Exact index) (holder : Option H) :
    ∃ index', index.reconcileContributor pos holder = (.ok (), index') ∧ Reconciled index index' pos holder := by
  unfold reconcileContributor
  by_cases hsame : index.contributors.lookup pos = holder
  · rw [if_pos hsame]
    exact ⟨index, rfl, .refl h hsame⟩
  · rw [if_neg hsame]
    have hremoved : ∃ index₁, (if (index.contributors.lookup pos).isSome then index.removeContributor pos
        else (.ok (), index)) = (.ok (), index₁) ∧ Reconciled index index₁ pos none := by
      by_cases hsome : (index.contributors.lookup pos).isSome = true
      · rw [if_pos hsome]
        obtain ⟨index₁, hremove, hchanged⟩ := removeContributor_spec h hsome
        exact ⟨index₁, hremove, hchanged.reconciled h⟩
      · rw [if_neg hsome]
        exact ⟨index, rfl, .refl h (Option.not_isSome_iff_eq_none.mp hsome)⟩
    obtain ⟨index₁, hremove, hreconciled⟩ := hremoved
    dsimp only
    rw [hremove]
    cases holder with
    | none => exact ⟨index₁, rfl, hreconciled⟩
    | some holder =>
      have hnone : index₁.contributors.lookup pos = none := by rw [hreconciled.contributors pos, if_pos rfl]
      obtain ⟨index₂, hadd, hchanged⟩ := addContributor_spec hreconciled.exact holder hnone
      exact ⟨index₂, hadd, hreconciled.trans (hchanged.reconciled hreconciled.exact)⟩

theorem removeContributorIfMatches_spec (h : Exact index) (holder : H) :
    (index.contributors.lookup pos = none ∨ index.contributors.lookup pos = some holder) ∧
      (∃ index', index.removeContributorIfMatches pos holder = (.ok (), index') ∧ Reconciled index index' pos none) ∨
    (∃ other, index.contributors.lookup pos = some other ∧ other ≠ holder) ∧
      index.removeContributorIfMatches pos holder = (.error (.contributorIdentityMismatch pos), index) := by
  unfold removeContributorIfMatches
  cases hlookup : index.contributors.lookup pos with
  | none => exact .inl ⟨.inl rfl, index, rfl, .refl h hlookup⟩
  | some current =>
    by_cases heq : current = holder
    · subst heq
      have hold : index.contributes pos = true := by
        unfold contributes
        rw [hlookup]
        rfl
      obtain ⟨index', hremove, hchanged⟩ := removeContributor_spec h hold
      refine .inl ⟨.inr rfl, index', ?_, hchanged.reconciled h⟩
      dsimp only
      rw [if_pos rfl, hremove]
    · refine .inr ⟨⟨current, rfl, heq⟩, ?_⟩
      dsimp only
      rw [if_neg heq]

end FullNeighborhoodIndex

/-! ## Runs -/

inductive NeighborhoodOp (H : Type) where
  | reconcileContributor (pos : ChunkPos) (holder : Option H)
  | removeContributorIfMatches (pos : ChunkPos) (holder : H)
  | markDirty (pos : ChunkPos)
  | takeDirtyCounts
  | ensurePendingReadiness (pos : ChunkPos) (holder : H)
  | clearPendingReadiness (pos : ChunkPos)

/-- The index, the counts that were last taken for each position, and the errors of the operations so far. -/
structure NeighborhoodReader (H : Type) where
  index : FullNeighborhoodIndex H
  seen : ChunkPos → FullNeighborhoodCounts
  errors : List FullNeighborhoodError

namespace NeighborhoodReader

variable {H : Type}

def start : NeighborhoodReader H := ⟨.default, fun _ => .zero, []⟩

def outcome (s : NeighborhoodReader H) : FullNeighborhoodIndex.Outcome H → NeighborhoodReader H
  | (.ok (), index) => { s with index }
  | (.error e, index) => { s with index, errors := s.errors ++ [e] }

variable [DecidableEq H]

def exec (s : NeighborhoodReader H) : NeighborhoodOp H → NeighborhoodReader H
  | .reconcileContributor pos holder => s.outcome (s.index.reconcileContributor pos holder)
  | .removeContributorIfMatches pos holder => s.outcome (s.index.removeContributorIfMatches pos holder)
  | .markDirty pos => { s with index := s.index.markDirty pos }
  | .takeDirtyCounts =>
    { s with index := s.index.takeDirtyCounts.2, seen := fun p => (s.index.takeDirtyCounts.1.lookup p).getD (s.seen p) }
  | .ensurePendingReadiness pos holder => { s with index := s.index.ensurePendingReadiness pos holder }
  | .clearPendingReadiness pos => { s with index := s.index.clearPendingReadiness pos }

def run (ops : List (NeighborhoodOp H)) : NeighborhoodReader H := ops.foldl exec start

/-- The contributors after an operation, as a map: the last reconciled holder of each position. -/
def register (registered : ChunkPos → Option H) : NeighborhoodOp H → ChunkPos → Option H
  | .reconcileContributor pos holder => fun p => if p = pos then holder else registered p
  | .removeContributorIfMatches pos holder =>
    fun p => if p = pos ∧ registered pos = some holder then none else registered p
  | _ => registered

def registered (ops : List (NeighborhoodOp H)) : ChunkPos → Option H := ops.foldl register fun _ => none

structure Tracks (registered : ChunkPos → Option H) (s : NeighborhoodReader H) : Prop where
  exact : s.index.Exact
  contributors : ∀ p, s.index.contributors.lookup p = registered p
  seen : ∀ p, p ∉ s.index.dirtyCenters → s.seen p = s.index.countsAt p
  errors : ∀ e ∈ s.errors, ∃ pos, e = .contributorIdentityMismatch pos

omit [DecidableEq H] in
theorem tracks_start : Tracks (fun _ => none) (start : NeighborhoodReader H) where
  exact := FullNeighborhoodIndex.exact_default
  contributors _ := rfl
  seen _ _ := rfl
  errors e he := by cases he

variable {r : ChunkPos → Option H} {s : NeighborhoodReader H}

omit [DecidableEq H] in
theorem Tracks.reconciled (h : Tracks r s) {index : FullNeighborhoodIndex H} {pos : ChunkPos} {holder : Option H}
    (hreconciled : s.index.Reconciled index pos holder) :
    Tracks (fun p => if p = pos then holder else r p) { s with index } where
  exact := hreconciled.exact
  contributors p := by rw [hreconciled.contributors p, h.contributors p]
  seen p hp := by
    obtain ⟨hdirty, hcounts⟩ := hreconciled.kept p hp
    exact (h.seen p hdirty).trans hcounts.symm
  errors := h.errors

theorem Tracks.exec (h : Tracks r s) (op : NeighborhoodOp H) : Tracks (register r op) (s.exec op) := by
  cases op with
  | reconcileContributor pos holder =>
    obtain ⟨index, hrun, hreconciled⟩ := FullNeighborhoodIndex.reconcileContributor_spec h.exact holder
    unfold NeighborhoodReader.exec
    dsimp only
    rw [hrun]
    exact h.reconciled hreconciled
  | removeContributorIfMatches pos holder =>
    unfold NeighborhoodReader.exec register
    dsimp only
    rcases FullNeighborhoodIndex.removeContributorIfMatches_spec h.exact holder with
      ⟨hold, index, hrun, hreconciled⟩ | ⟨⟨other, hother, hne⟩, hrun⟩
    · rw [hrun]
      rw [h.contributors] at hold
      have hmap : (fun p => if p = pos ∧ r pos = some holder then none else r p) =
          fun p => if p = pos then none else r p := by
        funext p
        by_cases hp : p = pos
        · obtain hnone | hsome := hold
          · simp [hp, hnone]
          · simp [hp, hsome]
        · simp [hp]
      rw [hmap]
      exact h.reconciled hreconciled
    · rw [hrun]
      rw [h.contributors] at hother
      have hkept : (fun p => if p = pos ∧ r pos = some holder then none else r p) = r := by
        funext p
        rw [if_neg]
        intro hp
        rw [hother] at hp
        exact hne (Option.some.inj hp.2)
      rw [hkept]
      exact ⟨h.exact, h.contributors, h.seen, fun e he => by
        obtain hold | hnew := List.mem_append.mp he
        · exact h.errors e hold
        · exact ⟨pos, List.mem_singleton.mp hnew⟩⟩
  | markDirty pos =>
    refine ⟨⟨h.exact.counts, h.exact.stored⟩, h.contributors, fun p hp => h.seen p fun hmem => hp ?_, h.errors⟩
    exact List.mem_insert_of_mem hmem
  | takeDirtyCounts =>
    refine ⟨⟨h.exact.counts, h.exact.stored⟩, h.contributors, fun p _ => ?_, h.errors⟩
    change (List.lookup p (s.index.dirtyCenters.map fun p => (p, s.index.countsAt p))).getD (s.seen p) =
      s.index.countsAt p
    by_cases hmem : p ∈ s.index.dirtyCenters
    · rw [List.lookup_graph _ hmem]
      rfl
    · have hnone : List.lookup p (s.index.dirtyCenters.map fun p => (p, s.index.countsAt p)) = none := by
        rw [List.lookup_eq_none_iff]
        intro q hq
        obtain ⟨q', hq', rfl⟩ := List.mem_map.mp hq
        simpa using fun heq : p = q' => hmem (heq ▸ hq')
      rw [hnone]
      exact h.seen p hmem
  | ensurePendingReadiness pos holder =>
    unfold NeighborhoodReader.exec FullNeighborhoodIndex.ensurePendingReadiness
    dsimp only
    split
    · exact h
    · exact ⟨⟨h.exact.counts, h.exact.stored⟩, h.contributors, h.seen, h.errors⟩
  | clearPendingReadiness pos => exact ⟨⟨h.exact.counts, h.exact.stored⟩, h.contributors, h.seen, h.errors⟩

theorem tracks_run (ops : List (NeighborhoodOp H)) : Tracks (registered ops) (run ops) := by
  unfold run registered
  have hstart := tracks_start (H := H)
  revert hstart
  generalize (start : NeighborhoodReader H) = s
  generalize (fun _ => none : ChunkPos → Option H) = r
  intro hstart
  induction ops generalizing s r with
  | nil => exact hstart
  | cons op rest ih => exact ih _ _ (hstart.exec op)

/-! ## What the counts mean -/

/-- How many contributors are within `radius` of `center`. -/
def nearbyContributors (index : FullNeighborhoodIndex H) (center : ChunkPos) (radius : Nat) : Nat :=
  (index.contributors.keys.filter fun p => p.chebyshev center ≤ radius).length

omit [DecidableEq H] in
theorem covering_eq_nearby {index : FullNeighborhoodIndex H} {center : ChunkPos} {radius : Nat} :
    covering index.contributes (center.centers radius) = nearbyContributors index center radius := by
  unfold covering nearbyContributors
  rw [List.countP_eq_length_filter]
  apply List.Perm.length_eq
  rw [List.perm_ext_iff_of_nodup (ChunkPos.nodup_centers.filter _) (index.contributors.keys_nodup.filter _)]
  intro p
  rw [List.mem_filter, List.mem_filter, ChunkPos.mem_centers, decide_eq_true_eq]
  unfold FullNeighborhoodIndex.contributes
  rw [AList.lookup_isSome, AList.mem_keys]
  exact and_comm

/-- After any operations: the counts are the numbers of contributors around, exactly the positions with a contributor
around have an entry, the reader's counts are stale only where dirty, and no counter ever overflowed or underflowed. -/
theorem run_exact (ops : List (NeighborhoodOp H)) :
    (∀ p, (run ops).index.contributors.lookup p = registered ops p) ∧
    (∀ center, (run ops).index.countsAt center =
      ⟨nearbyContributors (run ops).index center 1, nearbyContributors (run ops).index center 2⟩) ∧
    (∀ center, center ∈ (run ops).index.counts ↔ nearbyContributors (run ops).index center 2 ≠ 0) ∧
    (∀ center, center ∉ (run ops).index.dirtyCenters → (run ops).seen center = (run ops).index.countsAt center) ∧
    (∀ e ∈ (run ops).errors, ∃ pos, e = .contributorIdentityMismatch pos) := by
  have h := tracks_run ops
  have hcount : ∀ radius, radius = 1 ∨ radius = 2 → ∀ center, ((run ops).index.countsAt center).count radius =
      nearbyContributors (run ops).index center radius := by
    intro radius hradius center
    rw [h.exact.counts radius hradius, covering_eq_nearby]
  refine ⟨h.contributors, fun center => ?_, fun center => ?_, h.seen, h.errors⟩
  · exact congrArg₂ FullNeighborhoodCounts.mk (hcount 1 (.inl rfl) center) (hcount 2 (.inr rfl) center)
  · rw [← hcount 2 (.inr rfl), ← AList.lookup_isSome]
    constructor
    · exact FullNeighborhoodIndex.stored_iff.mp h.exact.stored center
    · intro hcount
      by_contra hnone
      apply hcount
      unfold FullNeighborhoodIndex.countsAt
      rw [Option.not_isSome_iff_eq_none.mp hnone]
      rfl

omit [DecidableEq H] in
theorem Tracks.full_iff (h : Tracks r s) {radius : Nat} (hradius : radius = 1 ∨ radius = 2) {center : ChunkPos} :
    (s.index.countsAt center).count radius = (2 * radius + 1) * (2 * radius + 1) ↔
      center.Fits radius ∧ ∀ p, p.chebyshev center ≤ radius → (r p).isSome = true := by
  rw [h.exact.full_iff hradius]
  refine and_congr_right fun _ => forall_congr' fun p => ?_
  rw [← h.contributors p]
  rfl

/-- A position is ready when it is at no edge of the coordinates and each chunk of the square contributes. -/
theorem ready_iff (ops : List (NeighborhoodOp H)) (center : ChunkPos) :
    (((run ops).index.countsAt center).blockTickingReady = true ↔
      center.Fits 1 ∧ ∀ p, p.chebyshev center ≤ 1 → (registered ops p).isSome = true) ∧
    (((run ops).index.countsAt center).entityTickingReady = true ↔
      center.Fits 2 ∧ ∀ p, p.chebyshev center ≤ 2 → (registered ops p).isSome = true) := by
  have h := tracks_run ops
  rw [← h.full_iff (.inl rfl), ← h.full_iff (.inr rfl)]
  exact ⟨beq_iff_eq, beq_iff_eq⟩

end NeighborhoodReader

end Foton
