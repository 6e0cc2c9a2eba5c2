import Foton.Lib.Candidate
import Foton.Lib.RangeWalk
import Foton.Poi.Storage
import Mathlib.Data.Prod.Lex
import Mathlib.Data.List.Perm.Basic
import Mathlib.Tactic.Linarith
import Mathlib.Tactic.Positivity

/-!
# Queries for points of interest

A query walks the chunks around its center row by row, each column from its
lowest section up. All queries answer from the one list this walk finds.
-/

namespace Foton.Poi

open Light (blockToSectionCoord)

/-- `BlockPos.distSqr` -/
def distanceSq (a b : BlockPos) : Int := (a.x - b.x) * (a.x - b.x) + (a.y - b.y) * (a.y - b.y) + (a.z - b.z) * (a.z - b.z)

/-- The largest `i64`. -/
def maxDistance : Int := 2 ^ 63 - 1

theorem radius_lt_maxDistance (radius : Int32) : radius.toInt * radius.toInt < maxDistance := by
  have hlo : -2 ^ 31 ≤ radius.toInt := Int32.le_toInt radius
  have hhi : radius.toInt < 2 ^ 31 := Int32.toInt_lt radius
  have hsq : radius.toInt * radius.toInt ≤ 2 ^ 31 * 2 ^ 31 := by nlinarith
  unfold maxDistance
  omega

namespace PointOfInterestStorage

variable (storage : PointOfInterestStorage) (types : PoiTypeRegistry) (typePredicate : Nat → Bool) (posFilter : BlockPos → Bool)
  (center : BlockPos) (radius : Int32) (status : OccupationStatus)

/-- What a query for a type and a status accepts. -/
def accepts (poi : PointOfInterest) : Bool :=
  typePredicate poi.poiTypeId && status.matches poi (types.maxTicketsFor poi.poiTypeId)

/-! ## Walks -/

def visitSection (column : PoiColumn) (sectionY : Int) : List PointOfInterest :=
  match column.lookup sectionY with
  | none => []
  | some set => set.getMatching typePredicate status types.maxTicketsFor

/-- The points of interest a walk of one column visits, in order. -/
def visitChunk (chunk : ChunkPos) : List PointOfInterest :=
  match storage.columns.lookup chunk with
  | none => []
  | some column =>
    (column.keys.insertionSort (· ≤ ·)).flatMap (visitSection types typePredicate status column)

def visitInSquare : List PointOfInterest :=
  let centerX := blockToSectionCoord center.x
  let centerZ := blockToSectionCoord center.z
  let chunkRadius := radius.toInt / 16 + 1
  (rangeClosed (centerZ - chunkRadius) (centerZ + chunkRadius)).flatMap fun cz =>
    (rangeClosed (centerX - chunkRadius) (centerX + chunkRadius)).flatMap fun cx =>
      (storage.visitChunk types typePredicate status ⟨cx, cz⟩).filter fun poi =>
        decide (|poi.pos.x - center.x| ≤ radius.toInt ∧ |poi.pos.z - center.z| ≤ radius.toInt)

def visitInRange : List PointOfInterest :=
  (storage.visitInSquare types typePredicate center radius status).filter fun poi =>
    decide (distanceSq poi.pos center ≤ radius.toInt * radius.toInt)

/-! ## Queries -/

def getInRange : List (BlockPos × Nat) :=
  (storage.visitInRange types typePredicate center radius status).map fun poi => (poi.pos, poi.poiTypeId)

def count : Nat := (storage.visitInRange types typePredicate center radius status).foldl (fun n _ => n + 1) 0

def findAll : List BlockPos :=
  (storage.visitInRange types typePredicate center radius status).filterMap fun poi =>
    if posFilter poi.pos then some poi.pos else none

def findAllClosestFirstWithType : List (BlockPos × Nat) :=
  ((storage.visitInRange types typePredicate center radius status).filterMap fun poi =>
    if posFilter poi.pos then some (poi.pos, poi.poiTypeId) else none).insertionSort
      fun a b => distanceSq a.1 center ≤ distanceSq b.1 center

def find : Option BlockPos :=
  (storage.visitInRange types typePredicate center radius status).foldl
    (fun found poi => if found.isNone && posFilter poi.pos then some poi.pos else found) none

/-- The best one so far stands with its distance; at first that is the largest `i64`. -/
def findClosestWithType : Option (BlockPos × Nat) :=
  ((storage.visitInRange types typePredicate center radius status).foldl
    (fun (best : Candidate Int (BlockPos × Nat)) poi =>
      if posFilter poi.pos = false then best
      else if distanceSq poi.pos center < best.cost then ⟨distanceSq poi.pos center, some (poi.pos, poi.poiTypeId)⟩
      else best)
    ⟨maxDistance, none⟩).found

def findClosest : Option BlockPos :=
  (storage.findClosestWithType types typePredicate posFilter center radius status).map Prod.fst

def take (filter : Nat → BlockPos → Bool) : PointOfInterestStorage × Option BlockPos :=
  let found := (storage.visitInRange types typePredicate center radius .free).foldl
    (fun found poi => if found.isNone && filter poi.poiTypeId poi.pos then some poi.pos else found) none
  match found with
  | none => (storage, none)
  | some pos => ((storage.reserveTicket pos).1, some pos)

/-- The downward Fisher-Yates shuffle; `pick i` is the random number from `0..=i`. -/
def vanillaShuffle {α : Type} (pick : (i : Nat) → Fin (i + 1)) (items : List α) : List α :=
  (List.range' 1 (items.length - 1)).reverse.foldl (fun items i => items.swap i (pick i)) items

def getRandom (pick : (i : Nat) → Fin (i + 1)) : Option BlockPos :=
  ((vanillaShuffle pick (storage.getInRange types typePredicate center radius status)).map Prod.fst).find? posFilter

/-! ## What a walk visits -/

variable {storage} {types} {typePredicate} {posFilter} {center} {radius} {status} {poi : PointOfInterest}

theorem mem_visitSection {column : PoiColumn} {y : Int} : poi ∈ visitSection types typePredicate status column y ↔
    ∃ set, column.lookup y = some set ∧ (∃ p, set.get p = some poi) ∧ accepts types typePredicate status poi := by
  unfold visitSection accepts
  rw [Bool.and_eq_true]
  cases hset : column.lookup y with
  | none => simp
  | some set =>
    simp only [Option.some.injEq, exists_eq_left']
    exact PointOfInterestSet.mem_getMatching set poi

theorem mem_visitChunk {chunk : ChunkPos} : poi ∈ storage.visitChunk types typePredicate status chunk ↔
    storage.get? poi.pos = some poi ∧ (SectionPos.fromBlockPos poi.pos).chunk = chunk ∧
      accepts types typePredicate status poi := by
  unfold visitChunk
  cases hcolumn : storage.columns.lookup chunk with
  | none =>
    refine iff_of_false List.not_mem_nil ?_
    intro h
    obtain ⟨set, hset, _⟩ := Option.bind_eq_some_iff.mp h.1
    unfold sectionAt at hset
    rw [h.2.1, hcolumn] at hset
    cases hset
  | some column =>
    dsimp only
    rw [List.mem_flatMap]
    constructor
    · intro h
      obtain ⟨y, _, hmem⟩ := h
      obtain ⟨set, hset, ⟨p, hget⟩, haccepts⟩ := mem_visitSection.mp hmem
      have hsection : sectionAt storage.columns ⟨chunk.x, y, chunk.z⟩ = some set :=
        Option.bind_eq_some_iff.mpr ⟨column, hcolumn, hset⟩
      refine ⟨get?_of_get hsection hget, ?_, haccepts⟩
      rw [(storage.placed _ _ _ _ hsection hget).1]
      rfl
    · intro h
      obtain ⟨hget, rfl, haccepts⟩ := h
      obtain ⟨set, hset, hget⟩ := Option.bind_eq_some_iff.mp hget
      unfold sectionAt at hset
      rw [hcolumn, Option.bind_some] at hset
      refine ⟨(SectionPos.fromBlockPos poi.pos).y, ?_, ?_⟩
      · exact (List.mem_insertionSort _).mpr (AList.mem_keys.mp (AList.lookup_isSome.mp (by rw [hset]; rfl)))
      · exact mem_visitSection.mpr ⟨set, hset, ⟨_, hget⟩, haccepts⟩

/-- The walk reaches far enough: a position in the square lies in a visited chunk. -/
theorem mem_visitInSquare : poi ∈ storage.visitInSquare types typePredicate center radius status ↔
    storage.get? poi.pos = some poi ∧ accepts types typePredicate status poi ∧
      |poi.pos.x - center.x| ≤ radius.toInt ∧ |poi.pos.z - center.z| ≤ radius.toInt := by
  unfold visitInSquare
  simp only [List.mem_flatMap, List.mem_filter, mem_visitChunk, mem_rangeClosed, decide_eq_true_eq]
  constructor
  · intro h
    obtain ⟨cz, _, cx, _, ⟨hget, _, haccepts⟩, hnear⟩ := h
    exact ⟨hget, haccepts, hnear⟩
  · intro h
    obtain ⟨hget, haccepts, hx, hz⟩ := h
    have hx' := abs_le.mp hx
    have hz' := abs_le.mp hz
    refine ⟨blockToSectionCoord poi.pos.z, ?_, blockToSectionCoord poi.pos.x, ?_, ⟨hget, rfl, haccepts⟩, hx, hz⟩
    · unfold blockToSectionCoord
      omega
    · unfold blockToSectionCoord
      omega

theorem mem_visitInRange : poi ∈ storage.visitInRange types typePredicate center radius status ↔
    storage.get? poi.pos = some poi ∧ accepts types typePredicate status poi ∧ 0 ≤ radius.toInt ∧
      distanceSq poi.pos center ≤ radius.toInt * radius.toInt := by
  unfold visitInRange
  rw [List.mem_filter, mem_visitInSquare, decide_eq_true_eq]
  constructor
  · intro h
    obtain ⟨⟨hget, haccepts, hx, _⟩, hdistance⟩ := h
    exact ⟨hget, haccepts, (abs_nonneg _).trans hx, hdistance⟩
  · intro h
    obtain ⟨hget, haccepts, hradius, hdistance⟩ := h
    refine ⟨⟨hget, haccepts, ?_, ?_⟩, hdistance⟩
    · apply abs_le_of_sq_le_sq _ hradius
      unfold distanceSq at hdistance
      nlinarith [mul_self_nonneg (poi.pos.y - center.y), mul_self_nonneg (poi.pos.z - center.z)]
    · apply abs_le_of_sq_le_sq _ hradius
      unfold distanceSq at hdistance
      nlinarith [mul_self_nonneg (poi.pos.y - center.y), mul_self_nonneg (poi.pos.x - center.x)]

/-! ## The order of a walk -/

/-- Chunks row by row, then sections upwards, then packed positions. -/
def visitKey (pos : BlockPos) : Int ×ₗ Int ×ₗ Int ×ₗ PackedSectionBlockPos :=
  toLex (blockToSectionCoord pos.z, toLex (blockToSectionCoord pos.x,
    toLex (blockToSectionCoord pos.y, PackedSectionBlockPos.fromBlockPos pos)))

theorem visitKey_lt_iff {a b : BlockPos} : visitKey a < visitKey b ↔
    blockToSectionCoord a.z < blockToSectionCoord b.z ∨ blockToSectionCoord a.z = blockToSectionCoord b.z ∧
      (blockToSectionCoord a.x < blockToSectionCoord b.x ∨ blockToSectionCoord a.x = blockToSectionCoord b.x ∧
        (blockToSectionCoord a.y < blockToSectionCoord b.y ∨ blockToSectionCoord a.y = blockToSectionCoord b.y ∧
          PackedSectionBlockPos.fromBlockPos a < PackedSectionBlockPos.fromBlockPos b)) := by
  unfold visitKey
  simp only [Prod.Lex.toLex_lt_toLex]

theorem pairwise_getMatching {s : SectionPos} {set : PointOfInterestSet} (hset : PlacedSet s set) :
    (set.getMatching typePredicate status types.maxTicketsFor).Pairwise fun a b => visitKey a.pos < visitKey b.pos := by
  rw [PointOfInterestSet.getMatching_eq]
  apply List.Pairwise.filter
  apply List.Pairwise.filterMap set.get _ (List.sortedLT_finRange 4096).pairwise
  intro p q hlt a ha b hb
  obtain ⟨hsa, hpa⟩ := hset p a ha
  obtain ⟨hsb, hpb⟩ := hset q b hb
  obtain ⟨hx, hy, hz⟩ := SectionPos.mk.inj (hsa.trans hsb.symm)
  rw [visitKey_lt_iff, hpa, hpb]
  exact Or.inr ⟨hz, Or.inr ⟨hx, Or.inr ⟨hy, hlt⟩⟩⟩

theorem pairwise_visitChunk (chunk : ChunkPos) :
    (storage.visitChunk types typePredicate status chunk).Pairwise fun a b => visitKey a.pos < visitKey b.pos := by
  unfold visitChunk
  cases hcolumn : storage.columns.lookup chunk with
  | none => exact List.Pairwise.nil
  | some column =>
    have hplaced : ∀ {y set}, column.lookup y = some set → PlacedSet ⟨chunk.x, y, chunk.z⟩ set := by
      intro y set hset p poi hget
      exact storage.placed ⟨chunk.x, y, chunk.z⟩ set p poi (Option.bind_eq_some_iff.mpr ⟨column, hcolumn, hset⟩) hget
    -- what is visited under a section coordinate lies in that section
    have hsection : ∀ {y poi}, poi ∈ visitSection types typePredicate status column y →
        SectionPos.fromBlockPos poi.pos = ⟨chunk.x, y, chunk.z⟩ := by
      intro y poi hmem
      obtain ⟨set, hset, ⟨p, hget⟩, _⟩ := mem_visitSection.mp hmem
      exact (hplaced hset p poi hget).1
    dsimp only
    rw [List.pairwise_flatMap]
    constructor
    · intro y _
      unfold visitSection
      cases hset : column.lookup y with
      | none => exact List.Pairwise.nil
      | some set => exact pairwise_getMatching (hplaced hset)
    · have hsorted : (column.keys.insertionSort (· ≤ ·)).Pairwise (· ≤ ·) := List.pairwise_insertionSort _ _
      have hnodup : (column.keys.insertionSort (· ≤ ·)).Nodup := (List.perm_insertionSort _ _).nodup_iff.mpr column.keys_nodup
      apply (hsorted.and hnodup).imp
      intro y y' hlt a ha b hb
      obtain ⟨hxa, hya, hza⟩ := SectionPos.mk.inj (hsection ha)
      obtain ⟨hxb, hyb, hzb⟩ := SectionPos.mk.inj (hsection hb)
      rw [visitKey_lt_iff, hxa, hya, hza, hxb, hyb, hzb]
      exact Or.inr ⟨rfl, Or.inr ⟨rfl, Or.inl (lt_of_le_of_ne hlt.1 hlt.2)⟩⟩

theorem pairwise_visitInSquare :
    (storage.visitInSquare types typePredicate center radius status).Pairwise fun a b => visitKey a.pos < visitKey b.pos := by
  have hchunk : ∀ {cx cz poi}, poi ∈ (storage.visitChunk types typePredicate status ⟨cx, cz⟩).filter (fun poi =>
      decide (|poi.pos.x - center.x| ≤ radius.toInt ∧ |poi.pos.z - center.z| ≤ radius.toInt)) →
      blockToSectionCoord poi.pos.x = cx ∧ blockToSectionCoord poi.pos.z = cz := by
    intro cx cz poi hmem
    have hin := (mem_visitChunk.mp (List.mem_filter.mp hmem).1).2.1
    exact Light.ChunkPos.mk.inj hin
  unfold visitInSquare
  dsimp only
  rw [List.pairwise_flatMap]
  constructor
  · intro cz _
    rw [List.pairwise_flatMap]
    constructor
    · intro cx _
      exact (pairwise_visitChunk _).filter _
    · apply (pairwise_rangeClosed _ _).imp
      intro cx cx' hlt a ha b hb
      obtain ⟨hxa, hza⟩ := hchunk ha
      obtain ⟨hxb, hzb⟩ := hchunk hb
      rw [visitKey_lt_iff, hxa, hza, hxb, hzb]
      exact Or.inr ⟨rfl, Or.inl hlt⟩
  · apply (pairwise_rangeClosed _ _).imp
    intro cz cz' hlt a ha b hb
    obtain ⟨cx, _, ha⟩ := List.mem_flatMap.mp ha
    obtain ⟨cx', _, hb⟩ := List.mem_flatMap.mp hb
    rw [visitKey_lt_iff, (hchunk ha).2, (hchunk hb).2]
    exact Or.inl hlt

/-- A walk visits what matches, each once and in its order, and nothing else. -/
theorem visitInRange_exact (storage : PointOfInterestStorage) (types : PoiTypeRegistry) (typePredicate : Nat → Bool)
    (center : BlockPos) (radius : Int32) (status : OccupationStatus) :
    (∀ poi, poi ∈ storage.visitInRange types typePredicate center radius status ↔
      storage.get? poi.pos = some poi ∧ accepts types typePredicate status poi ∧ 0 ≤ radius.toInt ∧
        distanceSq poi.pos center ≤ radius.toInt * radius.toInt) ∧
    (storage.visitInRange types typePredicate center radius status).Pairwise fun a b => visitKey a.pos < visitKey b.pos :=
  ⟨fun _ => mem_visitInRange, pairwise_visitInSquare.filter _⟩

/-! ## The queries agree -/

theorem find_eq_head (filter : Nat → BlockPos → Bool) (pois : List PointOfInterest) (found : Option BlockPos) :
    pois.foldl (fun found poi => if found.isNone && filter poi.poiTypeId poi.pos then some poi.pos else found) found =
      found.or ((pois.find? fun poi => filter poi.poiTypeId poi.pos).map PointOfInterest.pos) := by
  induction pois generalizing found with
  | nil => simp
  | cons poi rest ih =>
    rw [List.foldl_cons, ih]
    cases found with
    | some pos => simp
    | none => by_cases h : filter poi.poiTypeId poi.pos <;> simp [h]

theorem findClosestWithType_eq_head : storage.findClosestWithType types typePredicate posFilter center radius status =
    (storage.findAllClosestFirstWithType types typePredicate posFilter center radius status).head? := by
  let offer? := fun poi : PointOfInterest => if posFilter poi.pos then some (poi.pos, poi.poiTypeId) else none
  let cost := fun entry : BlockPos × Nat => distanceSq entry.1 center
  have hscan : storage.findClosestWithType types typePredicate posFilter center radius status =
      (Candidate.scan cost ⟨maxDistance, none⟩
        ((storage.visitInRange types typePredicate center radius status).filterMap offer?)).found := by
    unfold findClosestWithType Candidate.scan
    rw [List.foldl_filterMap]
    congr 2
    funext best poi
    by_cases h : posFilter poi.pos <;> simp [offer?, cost, h]
  have hcost : ∀ entry ∈ (storage.visitInRange types typePredicate center radius status).filterMap offer?, cost entry < maxDistance := by
    intro entry hentry
    obtain ⟨poi, hpoi, hoffer⟩ := List.mem_filterMap.mp hentry
    by_cases h : posFilter poi.pos
    · simp only [offer?, if_pos h, Option.some.injEq] at hoffer
      subst hoffer
      exact lt_of_le_of_lt (mem_visitInRange.mp hpoi).2.2.2 (radius_lt_maxDistance radius)
    · simp [offer?, h] at hoffer
  rw [hscan, Candidate.scan_eq_offer]
  unfold findAllClosestFirstWithType
  change (Candidate.offer cost ⟨maxDistance, none⟩ (List.insertionSort (fun a b => cost a ≤ cost b)
    ((storage.visitInRange types typePredicate center radius status).filterMap offer?)).head?).found = _
  cases hhead : (List.insertionSort (fun a b => cost a ≤ cost b)
    ((storage.visitInRange types typePredicate center radius status).filterMap offer?)).head? with
  | none => rfl
  | some entry =>
    have hmem := (List.mem_insertionSort _).mp (List.mem_of_head? hhead)
    rw [Candidate.offer, if_pos (hcost entry hmem)]

theorem vanillaShuffle_perm {α : Type} (pick : (i : Nat) → Fin (i + 1)) (items : List α) :
    (vanillaShuffle pick items).Perm items := by
  unfold vanillaShuffle
  generalize (List.range' 1 (items.length - 1)).reverse = order
  induction order generalizing items with
  | nil => exact List.Perm.refl items
  | cons i order ih => exact (ih _).trans (List.swap_perm items i (pick i))

/-- Any item may come out in front. -/
theorem exists_vanillaShuffle_head {α : Type} {items : List α} {a : α} (h : a ∈ items) :
    ∃ pick, (vanillaShuffle pick items).head? = some a := by
  obtain ⟨k, hk, rfl⟩ := List.mem_iff_getElem.mp h
  -- every item stays, but for the chosen one, which changes places with the first
  let pick : (i : Nat) → Fin (i + 1) := fun i => if i = k then 0 else Fin.last i
  have hstay : ∀ (order : List Nat) (items : List α), k ∉ order →
      order.foldl (fun items i => items.swap i (pick i)) items = items := by
    intro order
    induction order with
    | nil => exact fun _ _ => rfl
    | cons i order ih =>
      intro items hnot
      rw [List.mem_cons, not_or] at hnot
      have hpick : (pick i : Nat) = i := by simp [pick, Ne.symm hnot.1]
      rw [List.foldl_cons, hpick, List.swap_self]
      exact ih items hnot.2
  refine ⟨pick, ?_⟩
  unfold vanillaShuffle
  by_cases hzero : k = 0
  · subst hzero
    rw [hstay _ _ (by simp)]
    exact List.head?_eq_getElem? ▸ List.getElem?_eq_getElem hk
  · obtain ⟨before, after, horder⟩ := List.append_of_mem
      (show k ∈ (List.range' 1 (items.length - 1)).reverse by rw [List.mem_reverse, List.mem_range'_1]; omega)
    have hnodup : (before ++ k :: after).Nodup := horder ▸ List.nodup_reverse.mpr List.nodup_range'
    rw [List.nodup_middle, List.nodup_cons, List.mem_append, not_or] at hnodup
    have hpick : (pick k : Nat) = 0 := by simp [pick]
    rw [horder, List.foldl_append, hstay before items hnodup.1.1, List.foldl_cons, hpick, hstay _ _ hnodup.1.2,
      List.swap_eq_of_lt hk (Nat.zero_lt_of_lt hk)]
    rw [List.head?_eq_getElem?, List.getElem?_set_self (by rw [List.length_set]; exact Nat.zero_lt_of_lt hk)]

theorem mem_findAll {pos : BlockPos} : pos ∈ storage.findAll types typePredicate posFilter center radius status ↔
    ∃ poi ∈ storage.visitInRange types typePredicate center radius status, poi.pos = pos ∧ posFilter pos := by
  unfold findAll
  rw [List.mem_filterMap]
  constructor
  · intro h
    obtain ⟨poi, hpoi, hpos⟩ := h
    by_cases hfilter : posFilter poi.pos
    · rw [if_pos hfilter] at hpos
      cases hpos
      exact ⟨poi, hpoi, rfl, hfilter⟩
    · rw [if_neg hfilter] at hpos
      cases hpos
  · intro h
    obtain ⟨poi, hpoi, rfl, hfilter⟩ := h
    exact ⟨poi, hpoi, if_pos hfilter⟩

theorem exists_getRandom_iff {pos : BlockPos} :
    (∃ pick, storage.getRandom types typePredicate posFilter center radius status pick = some pos) ↔
      pos ∈ storage.findAll types typePredicate posFilter center radius status := by
  unfold getRandom getInRange
  rw [mem_findAll]
  constructor
  · intro h
    obtain ⟨pick, hpick⟩ := h
    have hmem := List.mem_of_find?_eq_some hpick
    obtain ⟨entry, hentry, rfl⟩ := List.mem_map.mp hmem
    obtain ⟨poi, hpoi, rfl⟩ := List.mem_map.mp ((vanillaShuffle_perm pick _).mem_iff.mp hentry)
    exact ⟨poi, hpoi, rfl, List.find?_some hpick⟩
  · intro h
    obtain ⟨poi, hpoi, rfl, hfilter⟩ := h
    obtain ⟨pick, hpick⟩ := exists_vanillaShuffle_head (List.mem_map_of_mem (f := fun poi => (poi.pos, poi.poiTypeId)) hpoi)
    refine ⟨pick, ?_⟩
    obtain ⟨rest, hrest⟩ := List.head?_eq_some_iff.mp hpick
    rw [hrest, List.map_cons, List.find?_cons_of_pos hfilter]

/-- The queries are readings of one list: its first, its closest, any of it. -/
theorem queries_agree (storage : PointOfInterestStorage) (types : PoiTypeRegistry) (typePredicate : Nat → Bool)
    (posFilter : BlockPos → Bool) (center : BlockPos) (radius : Int32) (status : OccupationStatus) :
    storage.find types typePredicate posFilter center radius status =
      (storage.findAll types typePredicate posFilter center radius status).head? ∧
    storage.findClosest types typePredicate posFilter center radius status =
      ((storage.findAllClosestFirstWithType types typePredicate posFilter center radius status).map Prod.fst).head? ∧
    ((storage.findAllClosestFirstWithType types typePredicate posFilter center radius status).map Prod.fst).Perm
      (storage.findAll types typePredicate posFilter center radius status) ∧
    ∀ pos, (∃ pick, storage.getRandom types typePredicate posFilter center radius status pick = some pos) ↔
      pos ∈ storage.findAll types typePredicate posFilter center radius status := by
  refine ⟨?_, ?_, ?_, fun pos => exists_getRandom_iff⟩
  · unfold find findAll
    rw [find_eq_head (fun _ => posFilter), Option.none_or]
    induction storage.visitInRange types typePredicate center radius status with
    | nil => rfl
    | cons poi rest ih => by_cases h : posFilter poi.pos <;> simp [h, ih]
  · unfold findClosest
    rw [findClosestWithType_eq_head, List.head?_map]
  · apply ((List.perm_insertionSort _ _).map Prod.fst).trans
    apply List.Perm.of_eq
    rw [List.map_filterMap]
    apply List.filterMap_congr
    intro poi _
    by_cases h : posFilter poi.pos <;> simp [h]

/-! ## Villages -/

def maxVillageDistance : Int := 6

def noVillageDistance : Int := maxVillageDistance + 1

variable (storage types)

def isVillageCenter (villageTag : List String) (set : PointOfInterestSet) : Bool :=
  !(set.getMatching (types.isVillageType villageTag) .occupied types.maxTicketsFor).isEmpty

def horizontalDistance (s : SectionPos) (cx cz : Int) : Int := max |cx - s.x| |cz - s.z|

/-- The walk of one column; a section that is no closer is not looked into. -/
def columnToVillage (villageTag : List String) (s : SectionPos) (cx cz best : Int) : Int :=
  if best ≤ horizontalDistance s cx cz then best
  else
    match storage.columns.lookup ⟨cx, cz⟩ with
    | none => best
    | some column =>
      column.pairs.foldl
        (fun best entry =>
          let distance := max (horizontalDistance s cx cz) |entry.1 - s.y|
          if best ≤ distance then best
          else if isVillageCenter types villageTag entry.2 then distance else best)
        best

def sectionsToVillage (villageTag : List String) (s : SectionPos) : Int :=
  (rangeClosed (s.x - maxVillageDistance) (s.x + maxVillageDistance)).foldl
    (fun best cx =>
      (rangeClosed (s.z - maxVillageDistance) (s.z + maxVillageDistance)).foldl
        (fun best cz => columnToVillage storage types villageTag s cx cz best) best)
    noVillageDistance

/-- `World::is_close_to_village` -/
def isCloseToVillage (villageTag : List String) (pos : BlockPos) (sectionDistance : Int) : Bool :=
  if sectionDistance > maxVillageDistance then false
  else storage.sectionsToVillage types villageTag (SectionPos.fromBlockPos pos) ≤ sectionDistance

/-- The number of steps between two sections when a step may go to any of the 26 neighbours. -/
def sectionDistance (a b : SectionPos) : Int := max (horizontalDistance a b.x b.z) |b.y - a.y|

/-- The section holds a claimed point of interest of a village. -/
def VillageCenter (villageTag : List String) (s : SectionPos) : Prop :=
  ∃ pos poi, storage.get? pos = some poi ∧ SectionPos.fromBlockPos pos = s ∧
    types.isVillageType villageTag poi.poiTypeId ∧ storage.isOccupied types pos

variable {storage types} {villageTag : List String} {s : SectionPos}

/-- A fold that lowers a bound to what each item offers lowers it to the least offer. -/
theorem foldl_le_iff {α : Type} {step : Int → α → Int} (offers : α → Int → Prop) {items : List α}
    (hstep : ∀ a ∈ items, ∀ best n, step best a ≤ n ↔ best ≤ n ∨ offers a n) (best n : Int) :
    items.foldl step best ≤ n ↔ best ≤ n ∨ ∃ a ∈ items, offers a n := by
  induction items generalizing best with
  | nil => simp
  | cons a rest ih =>
    rw [List.foldl_cons, ih (fun b hb => hstep b (List.mem_cons_of_mem a hb)), hstep a List.mem_cons_self, or_assoc]
    simp

theorem villageCenter_iff {set : PointOfInterestSet} (hset : sectionAt storage.columns s = some set) :
    isVillageCenter types villageTag set = true ↔ storage.VillageCenter types villageTag s := by
  unfold isVillageCenter VillageCenter
  rw [Bool.not_eq_true', List.isEmpty_eq_false_iff_exists_mem]
  constructor
  · intro h
    obtain ⟨poi, hpoi⟩ := h
    obtain ⟨⟨p, hget⟩, hvillage, hoccupied⟩ := (PointOfInterestSet.mem_getMatching set poi).mp hpoi
    have hat := get?_of_get hset hget
    refine ⟨poi.pos, poi, hat, (storage.placed s set p poi hset hget).1, hvillage, ?_⟩
    rw [isOccupied, hat]
    exact hoccupied
  · intro h
    obtain ⟨pos, poi, hat, rfl, hvillage, hoccupied⟩ := h
    refine ⟨poi, (PointOfInterestSet.mem_getMatching set poi).mpr ⟨⟨PackedSectionBlockPos.fromBlockPos pos, ?_⟩, hvillage, ?_⟩⟩
    · unfold get? at hat
      rw [hset, Option.bind_some] at hat
      exact hat
    · rw [isOccupied, hat] at hoccupied
      exact hoccupied

theorem VillageCenter.section (h : storage.VillageCenter types villageTag s) : ∃ set, sectionAt storage.columns s = some set := by
  obtain ⟨pos, poi, hat, rfl, _⟩ := h
  obtain ⟨set, hset, _⟩ := Option.bind_eq_some_iff.mp hat
  exact ⟨set, hset⟩

theorem columnToVillage_le_iff (cx cz best n : Int) : storage.columnToVillage types villageTag s cx cz best ≤ n ↔
    best ≤ n ∨ ∃ y, storage.VillageCenter types villageTag ⟨cx, y, cz⟩ ∧ sectionDistance s ⟨cx, y, cz⟩ ≤ n := by
  unfold columnToVillage
  by_cases hfar : best ≤ horizontalDistance s cx cz
  · -- every section of the column is at least as far
    rw [if_pos hfar]
    constructor
    · exact Or.inl
    · intro h
      rcases h with h | ⟨y, _, hle⟩
      · exact h
      · exact hfar.trans ((le_max_left _ _).trans hle)
  · rw [if_neg hfar]
    cases hcolumn : storage.columns.lookup ⟨cx, cz⟩ with
    | none =>
      dsimp only
      constructor
      · exact Or.inl
      · intro h
        rcases h with h | ⟨y, hcenter, _⟩
        · exact h
        · obtain ⟨set, hset⟩ := hcenter.section
          unfold sectionAt at hset
          rw [show SectionPos.chunk ⟨cx, y, cz⟩ = ⟨cx, cz⟩ from rfl, hcolumn] at hset
          cases hset
    | some column =>
      have hat : ∀ {y set}, column.lookup y = some set → sectionAt storage.columns ⟨cx, y, cz⟩ = some set := fun hset =>
        Option.bind_eq_some_iff.mpr ⟨column, hcolumn, hset⟩
      dsimp only
      rw [foldl_le_iff fun entry n =>
        isVillageCenter types villageTag entry.2 = true ∧ sectionDistance s ⟨cx, entry.1, cz⟩ ≤ n]
      · apply or_congr_right
        constructor
        · intro h
          obtain ⟨⟨y, set⟩, hentry, hcenter, hle⟩ := h
          exact ⟨y, (villageCenter_iff (hat (AssocList.mem_pairs.mp hentry))).mp hcenter, hle⟩
        · intro h
          obtain ⟨y, hcenter, hle⟩ := h
          obtain ⟨set, hset⟩ := hcenter.section
          have hlookup : column.lookup y = some set := by
            unfold sectionAt at hset
            rw [show SectionPos.chunk ⟨cx, y, cz⟩ = ⟨cx, cz⟩ from rfl, hcolumn] at hset
            exact hset
          exact ⟨(y, set), AssocList.mem_pairs.mpr hlookup, (villageCenter_iff hset).mpr hcenter, hle⟩
      · intro entry _ best n
        have hdistance : sectionDistance s ⟨cx, entry.1, cz⟩ = max (horizontalDistance s cx cz) |entry.1 - s.y| := rfl
        rw [hdistance]
        by_cases hpruned : best ≤ max (horizontalDistance s cx cz) |entry.1 - s.y|
        · rw [if_pos hpruned]
          exact ⟨Or.inl, fun h => h.elim id fun h => hpruned.trans h.2⟩
        · rw [if_neg hpruned]
          by_cases hcenter : isVillageCenter types villageTag entry.2
          · rw [if_pos hcenter]
            exact ⟨fun h => Or.inr ⟨hcenter, h⟩, fun h => h.elim (fun h => (le_of_not_ge hpruned).trans h) And.right⟩
          · rw [if_neg hcenter]
            exact ⟨Or.inl, fun h => h.elim id fun h => absurd h.1 hcenter⟩

/-- The pruned search finds the distance to the nearest village center, capped where villages end. -/
theorem sectionsToVillage_le_iff (storage : PointOfInterestStorage) (types : PoiTypeRegistry) (villageTag : List String)
    (s : SectionPos) (n : Int) : storage.sectionsToVillage types villageTag s ≤ n ↔
      noVillageDistance ≤ n ∨ ∃ s', storage.VillageCenter types villageTag s' ∧ sectionDistance s s' ≤ n := by
  unfold sectionsToVillage
  rw [foldl_le_iff _ fun cx _ best n => foldl_le_iff _ (fun cz _ best n => columnToVillage_le_iff cx cz best n) best n]
  by_cases hcap : noVillageDistance ≤ n
  · exact ⟨fun _ => Or.inl hcap, fun _ => Or.inl hcap⟩
  · apply or_congr_right
    constructor
    · intro h
      obtain ⟨cx, _, cz, _, y, hcenter, hle⟩ := h
      exact ⟨⟨cx, y, cz⟩, hcenter, hle⟩
    · intro h
      obtain ⟨⟨cx, y, cz⟩, hcenter, hle⟩ := h
      -- below the cap the center lies in the searched window
      have hhorizontal : horizontalDistance s cx cz ≤ n := (le_max_left _ _).trans hle
      have hx := abs_le.mp ((le_max_left _ _).trans hhorizontal)
      have hz := abs_le.mp ((le_max_right _ _).trans hhorizontal)
      unfold noVillageDistance at hcap
      exact ⟨cx, mem_rangeClosed.mpr (by omega), cz, mem_rangeClosed.mpr (by omega), y, hcenter, hle⟩

end PointOfInterestStorage
end Foton.Poi
