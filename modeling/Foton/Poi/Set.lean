import Foton.Lib.AssocList
import Foton.Lib.KeyedSort
import Foton.Light.Layout
import Mathlib.Data.Finset.Sort

/-!
# The points of interest of a section

A section keeps its points of interest by position, with an index by type. A
query answers in the order of the packed positions, whatever order the maps
are walked in.
-/

namespace Foton.Poi

export Light (BlockPos ChunkPos)
open Light (blockToSectionCoord)
open KeyedSort

structure PointOfInterest where
  pos : BlockPos
  poiTypeId : Nat
  freeTickets : Nat
  deriving DecidableEq

namespace PointOfInterest

def new (pos : BlockPos) (poiTypeId maxTickets : Nat) : PointOfInterest := ⟨pos, poiTypeId, maxTickets⟩

def reserveTicket (poi : PointOfInterest) : PointOfInterest × Bool :=
  if 0 < poi.freeTickets then ({ poi with freeTickets := poi.freeTickets - 1 }, true) else (poi, false)

def releaseTicket (poi : PointOfInterest) (maxTickets : Nat) : PointOfInterest × Bool :=
  if poi.freeTickets < maxTickets then ({ poi with freeTickets := poi.freeTickets + 1 }, true) else (poi, false)

def hasSpace (poi : PointOfInterest) : Bool := 0 < poi.freeTickets

def isOccupied (poi : PointOfInterest) (maxTickets : Nat) : Bool := poi.freeTickets ≠ maxTickets

end PointOfInterest

inductive OccupationStatus where
  | free
  | occupied
  | any
  deriving DecidableEq

def OccupationStatus.matches (status : OccupationStatus) (poi : PointOfInterest) (maxTickets : Nat) : Bool :=
  match status with
  | any => true
  | free => poi.hasSpace
  | occupied => poi.isOccupied maxTickets

/-! ## Packed positions -/

/-- A position packed relative to its section, as `x << 8 | z << 4 | y`. -/
abbrev PackedSectionBlockPos : Type := Fin 4096

def PackedSectionBlockPos.fromBlockPos (pos : BlockPos) : PackedSectionBlockPos :=
  Fin.ofNat 4096 ((pos.x % 16).toNat * 256 + (pos.z % 16).toNat * 16 + (pos.y % 16).toNat)

structure SectionPos where
  x : Int
  y : Int
  z : Int
  deriving DecidableEq

def SectionPos.fromBlockPos (pos : BlockPos) : SectionPos :=
  ⟨blockToSectionCoord pos.x, blockToSectionCoord pos.y, blockToSectionCoord pos.z⟩

def SectionPos.chunk (s : SectionPos) : ChunkPos := ⟨s.x, s.z⟩

theorem pos_ext {a b : BlockPos} (hsection : SectionPos.fromBlockPos a = SectionPos.fromBlockPos b)
    (hpacked : PackedSectionBlockPos.fromBlockPos a = PackedSectionBlockPos.fromBlockPos b) : a = b := by
  obtain ⟨hx, hy, hz⟩ := SectionPos.mk.inj hsection
  have hval := congrArg Fin.val hpacked
  simp only [PackedSectionBlockPos.fromBlockPos, Fin.val_ofNat] at hval
  simp only [blockToSectionCoord] at hx hy hz
  ext <;> omega

/-! ## The set -/

/-- The index by type lists the positions of each type, and no type without one. -/
structure Indexes (byType : AssocList Nat (Finset PackedSectionBlockPos))
    (byPos : AssocList PackedSectionBlockPos PointOfInterest) : Prop where
  exact : ∀ t p, p ∈ (byType.lookup t).getD ∅ ↔ ∃ poi, byPos.lookup p = some poi ∧ poi.poiTypeId = t
  used : ∀ t, byType.lookup t ≠ some ∅

structure PointOfInterestSet where
  poisByPos : AssocList PackedSectionBlockPos PointOfInterest
  poisByType : AssocList Nat (Finset PackedSectionBlockPos)
  dirty : Bool
  indexed : Indexes poisByType poisByPos

section

variable {byType : AssocList Nat (Finset PackedSectionBlockPos)} {byPos : AssocList PackedSectionBlockPos PointOfInterest}
  {p : PackedSectionBlockPos} {poi : PointOfInterest}

def indexAdd (byType : AssocList Nat (Finset PackedSectionBlockPos)) (t : Nat) (p : PackedSectionBlockPos) :
    AssocList Nat (Finset PackedSectionBlockPos) :=
  byType.insert t (insert p ((byType.lookup t).getD ∅))

def indexRemove (byType : AssocList Nat (Finset PackedSectionBlockPos)) (t : Nat) (p : PackedSectionBlockPos) :
    AssocList Nat (Finset PackedSectionBlockPos) :=
  match byType.lookup t with
  | none => byType
  | some positions => if positions.erase p = ∅ then byType.erase t else byType.insert t (positions.erase p)

theorem Indexes.add (h : Indexes byType byPos) (hnew : byPos.lookup p = none) :
    Indexes (indexAdd byType poi.poiTypeId p) (byPos.insert p poi) where
  exact := by
    intro t q
    unfold indexAdd
    rw [AssocList.lookup_insert, AssocList.lookup_insert]
    by_cases ht : t = poi.poiTypeId
    · rw [if_pos ht, Option.getD_some, Finset.mem_insert, h.exact]
      by_cases hq : q = p
      · simp [hq, ht]
      · simp [hq, ht]
    · rw [if_neg ht, h.exact]
      by_cases hq : q = p
      · subst hq
        simp [hnew, Ne.symm ht]
      · simp [hq]
  used := by
    intro t
    unfold indexAdd
    rw [AssocList.lookup_insert]
    by_cases ht : t = poi.poiTypeId
    · rw [if_pos ht]
      intro heq
      exact Finset.insert_ne_empty _ _ (Option.some.inj heq)
    · rw [if_neg ht]
      exact h.used t

theorem lookup_indexRemove (byType : AssocList Nat (Finset PackedSectionBlockPos)) (t t' : Nat) (p : PackedSectionBlockPos) :
    ((indexRemove byType t p).lookup t').getD ∅ =
      if t' = t then ((byType.lookup t).getD ∅).erase p else (byType.lookup t').getD ∅ := by
  unfold indexRemove
  cases hlookup : byType.lookup t with
  | none =>
    by_cases ht : t' = t
    · subst ht
      simp [hlookup]
    · simp [ht]
  | some positions =>
    dsimp only
    by_cases hempty : positions.erase p = ∅
    · rw [if_pos hempty, AssocList.lookup_erase]
      by_cases ht : t' = t
      · simp [ht, hempty]
      · simp [ht]
    · rw [if_neg hempty, AssocList.lookup_insert]
      by_cases ht : t' = t
      · simp [ht]
      · simp [ht]

theorem Indexes.remove (h : Indexes byType byPos) (hold : byPos.lookup p = some poi) :
    Indexes (indexRemove byType poi.poiTypeId p) (byPos.erase p) where
  exact := by
    intro t q
    rw [lookup_indexRemove, AssocList.lookup_erase]
    by_cases ht : t = poi.poiTypeId
    · rw [if_pos ht, Finset.mem_erase, h.exact]
      by_cases hq : q = p
      · simp [hq]
      · simp [hq, ht]
    · rw [if_neg ht, h.exact]
      by_cases hq : q = p
      · subst hq
        simp [hold, Ne.symm ht]
      · simp [hq]
  used := by
    intro t
    unfold indexRemove
    cases hlookup : byType.lookup poi.poiTypeId with
    | none => exact h.used t
    | some positions =>
      dsimp only
      by_cases hempty : positions.erase p = ∅
      · rw [if_pos hempty, AssocList.lookup_erase]
        by_cases ht : t = poi.poiTypeId
        · simp [ht]
        · rw [if_neg ht]
          exact h.used t
      · rw [if_neg hempty, AssocList.lookup_insert]
        by_cases ht : t = poi.poiTypeId
        · rw [if_pos ht]
          intro heq
          exact hempty (Option.some.inj heq)
        · rw [if_neg ht]
          exact h.used t

/-- A point of interest may be written over by one of the same type. -/
theorem Indexes.replace (h : Indexes byType byPos) (hold : byPos.lookup p = some poi) (n : Nat) :
    Indexes byType (byPos.insert p { poi with freeTickets := n }) where
  exact := by
    intro t q
    rw [h.exact, AssocList.lookup_insert]
    by_cases hq : q = p
    · subst hq
      simp [hold]
    · simp [hq]
  used := h.used

end

namespace PointOfInterestSet

def new : PointOfInterestSet where
  poisByPos := ∅
  poisByType := ∅
  dirty := false
  indexed := ⟨by simp, by simp⟩

def get (set : PointOfInterestSet) (p : PackedSectionBlockPos) : Option PointOfInterest := set.poisByPos.lookup p

def isEmpty (set : PointOfInterestSet) : Bool := set.poisByPos.entries.isEmpty

/-- A position that is taken keeps what it has. -/
def add (set : PointOfInterestSet) (p : PackedSectionBlockPos) (poi : PointOfInterest) : PointOfInterestSet :=
  if h : set.poisByPos.lookup p = none then
    { poisByPos := set.poisByPos.insert p poi
      poisByType := indexAdd set.poisByType poi.poiTypeId p
      dirty := true
      indexed := set.indexed.add h }
  else set

def remove (set : PointOfInterestSet) (p : PackedSectionBlockPos) : PointOfInterestSet :=
  match h : set.poisByPos.lookup p with
  | none => set
  | some poi =>
    { poisByPos := set.poisByPos.erase p
      poisByType := indexRemove set.poisByType poi.poiTypeId p
      dirty := true
      indexed := set.indexed.remove h }

/-- A write through `get_mut`: what callers write is the number of free tickets. -/
def setFreeTickets (set : PointOfInterestSet) (p : PackedSectionBlockPos) (n : Nat) : PointOfInterestSet :=
  match h : set.poisByPos.lookup p with
  | none => set
  | some poi =>
    { set with
      poisByPos := set.poisByPos.insert p { poi with freeTickets := n }
      indexed := set.indexed.replace h n }

variable (set : PointOfInterestSet) (p q : PackedSectionBlockPos) (poi : PointOfInterest)

@[simp]
theorem get_new : new.get p = none := rfl

theorem get_add : (set.add p poi).get q = if q = p then some ((set.get p).getD poi) else set.get q := by
  unfold add get
  by_cases h : set.poisByPos.lookup p = none
  · rw [dif_pos h, AssocList.lookup_insert, h, Option.getD_none]
  · rw [dif_neg h]
    obtain ⟨old, hold⟩ := Option.ne_none_iff_exists'.mp h
    by_cases hq : q = p
    · subst hq
      simp [hold]
    · simp [hq]

theorem get_remove : (set.remove p).get q = if q = p then none else set.get q := by
  unfold remove get
  split
  · rename_i h
    by_cases hq : q = p
    · subst hq
      simp [h]
    · simp [hq]
  · exact AssocList.lookup_erase

theorem get_setFreeTickets (n : Nat) :
    (set.setFreeTickets p n).get q = if q = p then (set.get p).map fun poi => { poi with freeTickets := n } else set.get q := by
  unfold setFreeTickets get
  split
  · rename_i h
    by_cases hq : q = p
    · subst hq
      simp [h]
    · simp [hq]
  · rename_i poi h
    dsimp only
    rw [AssocList.lookup_insert, h, Option.map_some]

theorem isEmpty_iff : set.isEmpty = true ↔ ∀ q, set.get q = none := by
  unfold isEmpty get
  rw [List.isEmpty_iff]
  constructor
  · intro h q
    apply AList.lookup_eq_none.mpr
    simp [AList.mem_keys, AList.keys, h]
  · intro h
    rw [List.eq_nil_iff_forall_not_mem]
    intro e he
    have hlookup := AList.mem_lookup_iff.mpr (show Sigma.mk e.1 e.2 ∈ set.poisByPos.entries from he)
    rw [Option.mem_def, h e.1] at hlookup
    cases hlookup

/-! ## Queries of a section -/

def getMatching (typePredicate : Nat → Bool) (status : OccupationStatus) (maxTickets : Nat → Nat) : List PointOfInterest :=
  (sortByKey id (set.poisByPos.pairs.filter fun e =>
    typePredicate e.2.poiTypeId && status.matches e.2 (maxTickets e.2.poiTypeId))).map Prod.snd

def getByType (typeId : Nat) (status : OccupationStatus) (maxTickets : Nat) : List PointOfInterest :=
  match set.poisByType.lookup typeId with
  | none => []
  | some positions =>
    ((positions.sort (· ≤ ·)).filterMap set.get).filter fun poi => status.matches poi maxTickets

/-- A query reads the positions in order and keeps what matches. -/
theorem getMatching_eq (typePredicate : Nat → Bool) (status : OccupationStatus) (maxTickets : Nat → Nat) :
    set.getMatching typePredicate status maxTickets = ((List.finRange 4096).filterMap set.get).filter fun poi =>
      typePredicate poi.poiTypeId && status.matches poi (maxTickets poi.poiTypeId) := by
  let keep := fun poi : PointOfInterest => typePredicate poi.poiTypeId && status.matches poi (maxTickets poi.poiTypeId)
  let at? := fun p : PackedSectionBlockPos => ((set.get p).filter keep).map fun poi => (p, poi)
  have hat : ∀ {p : PackedSectionBlockPos} {e : PackedSectionBlockPos × PointOfInterest}, at? p = some e → e.1 = p := by
    intro p e he
    obtain ⟨poi, _, rfl⟩ := Option.map_eq_some_iff.mp he
    rfl
  have hsorted : ((List.finRange 4096).filterMap at?).Pairwise fun a b => id a.1 < id b.1 := by
    apply List.Pairwise.filterMap at? _ (List.sortedLT_finRange 4096).pairwise
    intro p q hlt a ha b hb
    rw [id, id, hat ha, hat hb]
    exact hlt
  have hperm : (set.poisByPos.pairs.filter fun e => keep e.2).Perm ((List.finRange 4096).filterMap at?) := by
    rw [List.perm_ext_iff_of_nodup (set.poisByPos.nodup_pairs.filter _) (hsorted.imp fun hlt heq => hlt.ne (congrArg Prod.fst heq))]
    rintro ⟨p, poi⟩
    rw [List.mem_filter, AssocList.mem_pairs, List.mem_filterMap]
    constructor
    · intro h
      exact ⟨p, List.mem_finRange p, by simp [at?, get, h.1, Option.filter, h.2]⟩
    · intro h
      obtain ⟨q, _, hq⟩ := h
      obtain rfl := hat hq
      simpa [at?, get, Option.filter_eq_some_iff] using hq
  unfold getMatching
  rw [sortByKey_eq_of_sorted hperm hsorted, List.map_filterMap, List.filter_filterMap]
  apply List.filterMap_congr
  intro p _
  show (((set.get p).filter keep).map fun poi => (p, poi)).map Prod.snd = (set.get p).filter keep
  cases (set.get p).filter keep <;> rfl

theorem mem_getMatching {typePredicate : Nat → Bool} {status : OccupationStatus} {maxTickets : Nat → Nat} :
    poi ∈ set.getMatching typePredicate status maxTickets ↔
      (∃ p, set.get p = some poi) ∧ typePredicate poi.poiTypeId ∧ status.matches poi (maxTickets poi.poiTypeId) := by
  rw [getMatching_eq, List.mem_filter, List.mem_filterMap, Bool.and_eq_true]
  simp

/-- The index by type answers like the scan of all positions. -/
theorem getByType_eq_getMatching (typeId : Nat) (status : OccupationStatus) (maxTickets : Nat → Nat) :
    set.getByType typeId status (maxTickets typeId) = set.getMatching (· = typeId) status maxTickets := by
  let positions := (set.poisByType.lookup typeId).getD ∅
  have hgetByType : set.getByType typeId status (maxTickets typeId) =
      ((positions.sort (· ≤ ·)).filterMap set.get).filter fun poi => status.matches poi (maxTickets typeId) := by
    unfold getByType positions
    cases set.poisByType.lookup typeId with
    | none => simp
    | some positions => rfl
  have hsort : positions.sort (· ≤ ·) = (List.finRange 4096).filter (· ∈ positions) := by
    apply List.Perm.eq_of_pairwise (fun a b _ _ => le_antisymm) (positions.pairwise_sort _)
      ((List.sortedLT_finRange 4096).pairwise.imp le_of_lt |>.filter _)
    rw [List.perm_ext_iff_of_nodup (positions.sort_nodup _) ((List.nodup_finRange 4096).filter _)]
    intro p
    simp
  rw [hgetByType, getMatching_eq, hsort, List.filterMap_filter, List.filter_filterMap, List.filter_filterMap]
  apply List.filterMap_congr
  intro p _
  have hmem : p ∈ positions ↔ ∃ poi, set.get p = some poi ∧ poi.poiTypeId = typeId := set.indexed.exact typeId p
  cases hget : set.get p with
  | none =>
    simp
  | some poi =>
    rw [hget] at hmem
    by_cases htype : poi.poiTypeId = typeId
    · simp [hmem, htype, Option.filter]
    · simp [hmem, htype, Option.filter]

end PointOfInterestSet
end Foton.Poi
