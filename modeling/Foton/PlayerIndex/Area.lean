import Foton.Lib.Buckets
import Foton.Lib.Run
import Foton.PlayerIndex.View
import Mathlib.Data.Finset.Basic
import Mathlib.Data.Finset.Lattice.Lemmas

/-!
# The player area index

Two maps: from a chunk to the players whose view contains it, and from a player
to the chunks of the player's view. They are edited chunk by chunk. The order
in which a hash set is walked comes with the step.
-/

namespace Foton
namespace PlayerIndex

structure PlayerAreaMap where
  chunks : ChunkPos → Option (Finset Int)
  playerChunks : Int → Option (Finset ChunkPos)

namespace PlayerAreaMap

def new : PlayerAreaMap where
  chunks _ := none
  playerChunks _ := none

def addToChunk (m : PlayerAreaMap) (chunk : ChunkPos) (entityId : Int) : PlayerAreaMap :=
  match m.chunks chunk with
  | some set => { m with chunks := Function.update m.chunks chunk (some (insert entityId set)) }
  | none => { m with chunks := Function.update m.chunks chunk (some {entityId}) }

def removeFromChunk (m : PlayerAreaMap) (chunk : ChunkPos) (entityId : Int) : PlayerAreaMap :=
  match m.chunks chunk with
  | some set =>
    let set := set.erase entityId
    if set = ∅ then { m with chunks := Function.update m.chunks chunk none }
    else { m with chunks := Function.update m.chunks chunk (some set) }
  | none => m

/-- `insert_sync` leaves a player that is registered as it is. -/
def insertPlayer (m : PlayerAreaMap) (entityId : Int) (playerSet : Finset ChunkPos) : PlayerAreaMap :=
  match m.playerChunks entityId with
  | some _ => m
  | none => { m with playerChunks := Function.update m.playerChunks entityId (some playerSet) }

def onPlayerJoin (m : PlayerAreaMap) (entityId : Int) (view : PlayerChunkView) : PlayerAreaMap :=
  let (m, playerSet) := view.forEach.foldl
    (fun (m, playerSet) chunk => (m.addToChunk chunk entityId, insert chunk playerSet)) (m, (∅ : Finset ChunkPos))
  m.insertPlayer entityId playerSet

/-- `chunks` is the player's set in the order in which it is walked. -/
def removeByEntityId (m : PlayerAreaMap) (entityId : Int) (chunks : List ChunkPos) : PlayerAreaMap :=
  match m.playerChunks entityId with
  | some _ =>
    chunks.foldl (fun m chunk => m.removeFromChunk chunk entityId)
      { m with playerChunks := Function.update m.playerChunks entityId none }
  | none => m

def onPlayerViewChange (m : PlayerAreaMap) (entityId : Int) (added removed : List ChunkPos) : PlayerAreaMap :=
  if added = [] ∧ removed = [] then
    m
  else
    let m := removed.foldl (fun m chunk => m.removeFromChunk chunk entityId) m
    let m := added.foldl (fun m chunk => m.addToChunk chunk entityId) m
    match m.playerChunks entityId with
    | some set =>
      let set := removed.foldl (fun set chunk => set.erase chunk) set
      let set := added.foldl (fun set chunk => insert chunk set) set
      { m with playerChunks := Function.update m.playerChunks entityId (some set) }
    | none => m

def getTrackingPlayers (m : PlayerAreaMap) (chunk : ChunkPos) : Finset Int :=
  (m.chunks chunk).getD ∅

end PlayerAreaMap

/-! ## The players' views -/

/-- The index with the views its players have. -/
structure Tracking where
  map : PlayerAreaMap
  views : Int → Option PlayerChunkView

inductive Move
  | join (entityId : Int) (view : PlayerChunkView)
  | change (entityId : Int) (view : PlayerChunkView)
  | leave (entityId : Int) (order : List ChunkPos)

namespace Tracking

def start : Tracking where
  map := .new
  views _ := none

/-- A player joins once, and a set is walked whole. -/
def exec (s : Tracking) : Move → Option Tracking
  | .join entityId view =>
    match s.views entityId with
    | some _ => none
    | none =>
      some { map := s.map.onPlayerJoin entityId view, views := Function.update s.views entityId (some view) }
  | .change entityId view =>
    match s.views entityId with
    | some old =>
      let changes := PlayerChunkView.difference old view
      some {
        map := s.map.onPlayerViewChange entityId (PlayerChunkView.addedChunks changes)
          (PlayerChunkView.removedChunks changes)
        views := Function.update s.views entityId (some view) }
    | none => none
  | .leave entityId order =>
    if order.toFinset = (s.map.playerChunks entityId).getD ∅ then
      some { map := s.map.removeByEntityId entityId order, views := Function.update s.views entityId none }
    else none

def Step (s : Tracking) (move : Move) (t : Tracking) : Prop := s.exec move = some t

def Sees (views : Int → Option PlayerChunkView) (chunk : ChunkPos) (entityId : Int) : Prop :=
  ∃ view, views entityId = some view ∧ view.contains chunk = true

/-- The index is the inverse of the views. -/
structure Exact (s : Tracking) : Prop where
  tracking : ∀ chunk entityId, entityId ∈ s.map.getTrackingPlayers chunk ↔ Sees s.views chunk entityId
  registered : ∀ entityId view, s.views entityId = some view →
    ∃ set, s.map.playerChunks entityId = some set ∧ ∀ chunk, chunk ∈ set ↔ view.contains chunk = true
  unregistered : ∀ entityId, s.views entityId = none → s.map.playerChunks entityId = none
  nonempty : ∀ chunk, s.map.chunks chunk ≠ some ∅
  emptied : (∀ entityId, s.views entityId = none) →
    (∀ chunk, s.map.chunks chunk = none) ∧ ∀ entityId, s.map.playerChunks entityId = none

end Tracking

/-! ## One chunk at a time -/

namespace PlayerAreaMap

theorem addToChunk_eq (m : PlayerAreaMap) (chunk : ChunkPos) (entityId : Int) :
    m.addToChunk chunk entityId = { m with chunks := Buckets.add m.chunks chunk entityId } := by
  unfold addToChunk Buckets.add Buckets.get
  cases m.chunks chunk with
  | none => rfl
  | some set => rfl

theorem removeFromChunk_eq (m : PlayerAreaMap) (chunk : ChunkPos) (entityId : Int) :
    m.removeFromChunk chunk entityId = { m with chunks := Buckets.remove m.chunks chunk entityId } := by
  unfold removeFromChunk Buckets.remove Buckets.get
  cases h : m.chunks chunk with
  | none =>
    have hsame : Function.update m.chunks chunk none = m.chunks := Function.update_eq_self_iff.mpr h.symm
    simp [hsame]
  | some set =>
    dsimp only [Option.getD_some]
    split <;> rfl

theorem foldl_addToChunk (m : PlayerAreaMap) (entityId : Int) (chunks : List ChunkPos) :
    chunks.foldl (fun m chunk => m.addToChunk chunk entityId) m =
      { m with chunks := chunks.foldl (fun b chunk => Buckets.add b chunk entityId) m.chunks } := by
  induction chunks generalizing m with
  | nil => rfl
  | cons chunk chunks ih => rw [List.foldl_cons, ih, addToChunk_eq, List.foldl_cons]

theorem foldl_removeFromChunk (m : PlayerAreaMap) (entityId : Int) (chunks : List ChunkPos) :
    chunks.foldl (fun m chunk => m.removeFromChunk chunk entityId) m =
      { m with chunks := chunks.foldl (fun b chunk => Buckets.remove b chunk entityId) m.chunks } := by
  induction chunks generalizing m with
  | nil => rfl
  | cons chunk chunks ih => rw [List.foldl_cons, ih, removeFromChunk_eq, List.foldl_cons]

theorem foldl_insert (set : Finset ChunkPos) (chunks : List ChunkPos) :
    chunks.foldl (fun set chunk => insert chunk set) set = set ∪ chunks.toFinset := by
  induction chunks generalizing set with
  | nil => simp
  | cons chunk chunks ih =>
    rw [List.foldl_cons, ih]
    simp

theorem foldl_erase (set : Finset ChunkPos) (chunks : List ChunkPos) :
    chunks.foldl (fun set chunk => set.erase chunk) set = set \ chunks.toFinset := by
  induction chunks generalizing set with
  | nil => simp
  | cons chunk chunks ih =>
    rw [List.foldl_cons, ih]
    ext c
    simp
    tauto

theorem onPlayerJoin_eq (m : PlayerAreaMap) (entityId : Int) (view : PlayerChunkView) :
    m.onPlayerJoin entityId view =
      insertPlayer { m with chunks := view.forEach.foldl (fun b chunk => Buckets.add b chunk entityId) m.chunks }
        entityId view.forEach.toFinset := by
  have hpair : ∀ (chunks : List ChunkPos) (m : PlayerAreaMap) (set : Finset ChunkPos),
      chunks.foldl (fun (p : PlayerAreaMap × Finset ChunkPos) chunk => (p.1.addToChunk chunk entityId, insert chunk p.2))
        (m, set) = (chunks.foldl (fun m chunk => m.addToChunk chunk entityId) m,
          chunks.foldl (fun set chunk => insert chunk set) set) := by
    intro chunks
    induction chunks with
    | nil => intro m set; rfl
    | cons chunk chunks ih => intro m set; simp only [List.foldl_cons, ih]
  unfold onPlayerJoin
  rw [hpair, foldl_addToChunk, foldl_insert, Finset.empty_union]

end PlayerAreaMap

/-! ## The invariant -/

namespace Tracking

structure Indexed (s : Tracking) : Prop where
  chunks : Buckets.Represents s.map.chunks (Sees s.views)
  playerChunks : ∀ entityId, s.map.playerChunks entityId = (s.views entityId).map fun view => view.forEach.toFinset

theorem Indexed.exact {s : Tracking} (h : s.Indexed) : s.Exact where
  tracking chunk entityId := h.chunks.mem chunk entityId
  registered entityId view hview := by
    refine ⟨view.forEach.toFinset, by simp [h.playerChunks, hview], ?_⟩
    intro chunk
    rw [List.mem_toFinset, PlayerChunkView.mem_forEach]
  unregistered entityId hview := by simp [h.playerChunks, hview]
  nonempty := h.chunks.nonempty
  emptied hviews := by
    constructor
    · intro chunk
      apply h.chunks.eq_none
      intro entityId ⟨view, hview, _⟩
      rw [hviews] at hview
      cases hview
    · intro entityId
      simp [h.playerChunks, hviews]

theorem indexed_start : start.Indexed where
  chunks := by
    apply Buckets.represents_empty.congr
    intro chunk entityId
    simp [Sees, start]
  playerChunks _ := rfl

theorem sees_update (views : Int → Option PlayerChunkView) (chunk : ChunkPos) (entityId : Int)
    (view : Option PlayerChunkView) (id : Int) : Sees (Function.update views entityId view) chunk id ↔
      (id ≠ entityId ∧ Sees views chunk id) ∨ (id = entityId ∧ ∃ v, view = some v ∧ v.contains chunk = true) := by
  by_cases hid : id = entityId
  · subst hid
    simp [Sees]
  · simp [Sees, hid]

theorem Indexed.join {s : Tracking} (h : s.Indexed) {entityId : Int} (hnew : s.views entityId = none)
    (view : PlayerChunkView) : Indexed
      { map := s.map.onPlayerJoin entityId view, views := Function.update s.views entityId (some view) } := by
  have hchunks := h.playerChunks entityId
  rw [hnew] at hchunks
  simp only [PlayerAreaMap.onPlayerJoin_eq, PlayerAreaMap.insertPlayer, hchunks, Option.map_none]
  constructor
  · apply (h.chunks.foldl_add entityId view.forEach).congr
    intro chunk id
    rw [sees_update, PlayerChunkView.mem_forEach]
    by_cases hid : id = entityId
    · subst hid
      simp [Sees, hnew]
    · simp [hid]
  · intro id
    by_cases hid : id = entityId
    · subst hid
      simp
    · simp [Function.update_of_ne hid, h.playerChunks]

theorem Indexed.leave {s : Tracking} (h : s.Indexed) {entityId : Int} {order : List ChunkPos}
    (horder : order.toFinset = (s.map.playerChunks entityId).getD ∅) : Indexed
      { map := s.map.removeByEntityId entityId order, views := Function.update s.views entityId none } := by
  have hchunks := h.playerChunks entityId
  cases hview : s.views entityId with
  | none =>
    rw [hview] at hchunks
    have hsame : Function.update s.views entityId none = s.views := Function.update_eq_self_iff.mpr hview.symm
    simp only [PlayerAreaMap.removeByEntityId, hchunks, Option.map_none, hsame]
    exact h
  | some view =>
    rw [hview] at hchunks
    simp only [PlayerAreaMap.removeByEntityId, hchunks, Option.map_some, PlayerAreaMap.foldl_removeFromChunk]
    have hmem : ∀ chunk, chunk ∈ order ↔ view.contains chunk = true := by
      intro chunk
      rw [← List.mem_toFinset, horder, hchunks]
      simp [PlayerChunkView.mem_forEach]
    constructor
    · apply (h.chunks.foldl_remove entityId order).congr
      intro chunk id
      rw [sees_update, hmem]
      by_cases hid : id = entityId
      · subst hid
        simp [Sees, hview]
      · simp [hid]
    · intro id
      by_cases hid : id = entityId
      · subst hid
        simp
      · simp [Function.update_of_ne hid, h.playerChunks]

theorem onPlayerViewChange_eq {m : PlayerAreaMap} {entityId : Int} {set : Finset ChunkPos}
    (hset : m.playerChunks entityId = some set) (added removed : List ChunkPos) :
    m.onPlayerViewChange entityId added removed =
      { chunks := added.foldl (fun b chunk => Buckets.add b chunk entityId)
          (removed.foldl (fun b chunk => Buckets.remove b chunk entityId) m.chunks)
        playerChunks := Function.update m.playerChunks entityId (some (set \ removed.toFinset ∪ added.toFinset)) } := by
  unfold PlayerAreaMap.onPlayerViewChange
  by_cases hnil : added = [] ∧ removed = []
  · obtain ⟨hadded, hremoved⟩ := hnil
    subst hadded hremoved
    have hsame : Function.update m.playerChunks entityId (some set) = m.playerChunks :=
      Function.update_eq_self_iff.mpr hset.symm
    simp [hsame]
  · rw [if_neg hnil]
    simp only [PlayerAreaMap.foldl_removeFromChunk, PlayerAreaMap.foldl_addToChunk, PlayerAreaMap.foldl_erase,
      PlayerAreaMap.foldl_insert, hset]

theorem Indexed.change {s : Tracking} (h : s.Indexed) {entityId : Int} {old : PlayerChunkView}
    (hold : s.views entityId = some old) (view : PlayerChunkView) : Indexed
      { map := s.map.onPlayerViewChange entityId (PlayerChunkView.addedChunks (PlayerChunkView.difference old view))
          (PlayerChunkView.removedChunks (PlayerChunkView.difference old view))
        views := Function.update s.views entityId (some view) } := by
  have hchunks := h.playerChunks entityId
  rw [hold, Option.map_some] at hchunks
  rw [onPlayerViewChange_eq hchunks]
  constructor
  · apply ((h.chunks.foldl_remove entityId _).foldl_add entityId _).congr
    intro chunk id
    rw [sees_update, PlayerChunkView.mem_addedChunks_difference, PlayerChunkView.mem_removedChunks_difference]
    by_cases hid : id = entityId
    · subst hid
      cases hsaw : old.contains chunk <;> cases hsees : view.contains chunk <;> simp [Sees, hold, hsaw, hsees]
    · simp [hid]
  · intro id
    by_cases hid : id = entityId
    · subst hid
      simp only [Function.update_self, Option.map_some, Option.some.injEq]
      ext chunk
      simp only [Finset.mem_union, Finset.mem_sdiff, List.mem_toFinset, PlayerChunkView.mem_forEach,
        PlayerChunkView.mem_addedChunks_difference, PlayerChunkView.mem_removedChunks_difference]
      cases old.contains chunk <;> cases view.contains chunk <;> simp
    · simp [Function.update_of_ne hid, h.playerChunks]

theorem Indexed.step {s t : Tracking} {move : Move} (h : s.Indexed) (hstep : Step s move t) : t.Indexed := by
  cases move with
  | join entityId view =>
    simp only [Step, exec] at hstep
    split at hstep
    · cases hstep
    · rename_i hnew
      cases hstep
      exact h.join hnew view
  | change entityId view =>
    simp only [Step, exec] at hstep
    split at hstep
    · rename_i old hold
      cases hstep
      exact h.change hold view
    · cases hstep
  | leave entityId order =>
    simp only [Step, exec] at hstep
    split at hstep
    · rename_i horder
      cases hstep
      exact h.leave horder
    · cases hstep

/-- After any joins, view changes and leaves the index is the inverse of the views. -/
theorem exact_of_run {moves : List Move} {s : Tracking} (h : Run Step start moves s) : s.Exact := by
  have hindexed : s.Indexed := h.invariant indexed_start fun _ _ _ hs hstep => hs.step hstep
  exact hindexed.exact

def nearView : PlayerChunkView := ⟨⟨0, 0⟩, 1⟩

def joined : Tracking where
  map := PlayerAreaMap.new.onPlayerJoin 7 nearView
  views := Function.update (fun _ => none) 7 (some nearView)

def left : Tracking where
  map := joined.map.removeByEntityId 7 nearView.forEach
  views := Function.update joined.views 7 none

theorem exact_join_leave : Exact left := by
  have hjoin : Step start (.join 7 nearView) joined := rfl
  have hleave : Step joined (.leave 7 nearView.forEach) left := by
    have horder : nearView.forEach.toFinset = (joined.map.playerChunks 7).getD ∅ := by
      simp [joined, PlayerAreaMap.onPlayerJoin_eq, PlayerAreaMap.insertPlayer, PlayerAreaMap.new]
    simp only [Step, exec, if_pos horder]
    rfl
  exact exact_of_run (.snoc (.single hjoin) hleave)

end Tracking
end PlayerIndex
end Foton
