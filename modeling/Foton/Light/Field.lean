import Foton.Light.Propagation
import Foton.Lib.LevelField

/-!
# The light field of a window

A window is a medium: blocks emit, and light passes the faces that are not
blocked. The equation of the levels says that they solve the medium.
-/

namespace Foton.Light

@[simp] theorem LightEdit.enqueueIncrease_levels (layout : LightCacheLayout) (e : LightEdit) (entry : LightQueueEntry) :
    (e.enqueueIncrease layout entry).levels = e.levels := by
  unfold enqueueIncrease
  split <;> rfl

@[simp] theorem LightEdit.enqueueDecrease_levels (layout : LightCacheLayout) (e : LightEdit) (entry : LightQueueEntry) :
    (e.enqueueDecrease layout entry).levels = e.levels := by
  unfold enqueueDecrease
  split <;> rfl

namespace LightWindow

variable (w : LightWindow)

def medium : Medium BlockPos where
  emission := w.emission
  cost := w.opacity
  carries n p := ∃ d, p = n.step d ∧ BlockStates.Opens (w.getBlockState n) (w.getBlockState p) d
  cost_pos _ := BlockStates.lightOpacity_pos _

@[simp] theorem medium_emission (p : BlockPos) : w.medium.emission p = w.emission p := rfl

@[simp] theorem medium_cost (p : BlockPos) : w.medium.cost p = w.opacity p := rfl

/-- What the neighbour in a direction gives to the position, if it lies in the region. -/
def contribution (region : BlockPos → Bool) (levels : BlockPos → Nat) (p : BlockPos) (d : LightAxisDirection) : Nat :=
  let n := p.step d
  if region n ∧ BlockStates.Opens (w.getBlockState n) (w.getBlockState p) d.opposite then
    levels n - w.opacity p
  else 0

/-- The level of every position is the largest of its emission and what its neighbours give. -/
def LightEquation (region : BlockPos → Bool) (levels : BlockPos → Nat) : Prop :=
  ∀ p, region p →
    levels p = (LightAxisDirection.all.map (w.contribution region levels p)).foldr max (w.emission p)

variable {w}

theorem emission_le (p : BlockPos) : w.emission p ≤ maxLightLevel := Nat.and_le_right

theorem foldr_max_le {b a : Nat} {l : List Nat} : l.foldr max a ≤ b ↔ a ≤ b ∧ ∀ x ∈ l, x ≤ b := by
  induction l with
  | nil => simp
  | cons x l ih => simp [ih, and_left_comm]

theorem foldr_max_mem (a : Nat) (l : List Nat) : l.foldr max a = a ∨ l.foldr max a ∈ l := by
  induction l with
  | nil => exact Or.inl rfl
  | cons x l ih =>
    rw [List.foldr_cons]
    rcases Nat.le_total x (l.foldr max a) with h | h
    · rw [Nat.max_eq_right h]
      exact ih.imp id fun hmem => List.mem_cons_of_mem x hmem
    · rw [Nat.max_eq_left h]
      exact Or.inr (List.mem_cons_self)

theorem carries_iff {n p : BlockPos} : w.medium.carries n p ↔
    ∃ d, n = p.step d ∧ BlockStates.Opens (w.getBlockState n) (w.getBlockState p) d.opposite := by
  constructor
  · rintro ⟨d, rfl, hopen⟩
    exact ⟨d.opposite, (n.step_step d).symm, by simpa using hopen⟩
  · rintro ⟨d, rfl, hopen⟩
    exact ⟨d.opposite, (p.step_step d).symm, hopen⟩

theorem contribution_eq {region : BlockPos → Bool} {levels : BlockPos → Nat} {p n : BlockPos} (hn : region n) {d : LightAxisDirection}
    (hstep : n = p.step d) (hopen : BlockStates.Opens (w.getBlockState n) (w.getBlockState p) d.opposite) :
    w.contribution region levels p d = levels n - w.opacity p := by
  subst hstep
  exact if_pos ⟨hn, hopen⟩

theorem lightEquation_iff {region : BlockPos → Bool} {levels : BlockPos → Nat} :
    w.LightEquation region levels ↔ w.medium.Solves {p | region p} levels := by
  constructor
  · intro h
    refine ⟨fun p hp => ?_, fun n hn p hp hcarries => ?_, fun p hp => ?_⟩
    · exact (foldr_max_le.mp (Nat.le_of_eq (h p hp).symm)).1
    · obtain ⟨d, hstep, hopen⟩ := carries_iff.mp hcarries
      have hle := (foldr_max_le.mp (Nat.le_of_eq (h p hp).symm)).2 _ (List.mem_map.mpr ⟨d, by simp, rfl⟩)
      rw [contribution_eq hn hstep hopen] at hle
      exact Nat.sub_le_iff_le_add.mp hle
    · rcases foldr_max_mem (w.emission p) (LightAxisDirection.all.map (w.contribution region levels p)) with hemits | hmem
      · exact Or.inl (Nat.le_of_eq ((h p hp).trans hemits))
      · rw [← h p hp] at hmem
        obtain ⟨d, -, hd⟩ := List.mem_map.mp hmem
        unfold contribution at hd
        dsimp only at hd
        split at hd
        next hopen =>
          rcases Nat.eq_zero_or_pos (levels p) with hzero | hpos
          · exact Or.inl (hzero ▸ Nat.zero_le _)
          · refine Or.inr ⟨p.step d, hopen.1, carries_iff.mpr ⟨d, rfl, hopen.2⟩, ?_⟩
            change levels p + w.opacity p ≤ _
            omega
        next => exact Or.inl (hd ▸ Nat.zero_le _)
  · intro h p hp
    refine Nat.le_antisymm ?_ (foldr_max_le.mpr ⟨h.emits p hp, fun x hx => ?_⟩)
    · rcases h.supported p hp with hemits | ⟨n, hn, hcarries, hpass⟩
      · exact hemits.trans (foldr_max_le.mp (Nat.le_refl _)).1
      · obtain ⟨d, hstep, hopen⟩ := carries_iff.mp hcarries
        have hle := (foldr_max_le.mp (Nat.le_refl ((LightAxisDirection.all.map (w.contribution region levels p)).foldr max
          (w.emission p)))).2 _ (List.mem_map.mpr ⟨d, by simp, rfl⟩)
        rw [contribution_eq hn hstep hopen] at hle
        change levels p + w.opacity p ≤ _ at hpass
        omega
    · obtain ⟨d, -, rfl⟩ := List.mem_map.mp hx
      unfold contribution
      dsimp only
      split
      next hopen =>
        have hspread := h.spreads _ hopen.1 p hp (carries_iff.mpr ⟨d, rfl, hopen.2⟩)
        exact Nat.sub_le_iff_le_add.mpr hspread
      next => exact Nat.zero_le _

theorem LightEquation.unique {levels levels' : BlockPos → Nat} (h : w.LightEquation w.layout.inside levels)
    (h' : w.LightEquation w.layout.inside levels') : ∀ p, w.layout.inside p → levels p = levels' p :=
  (lightEquation_iff.mp h).unique (lightEquation_iff.mp h') w.layout.inside_finite

/-! ## Entries -/

/-- The entry knows the shape of its position. -/
def Informed (w : LightWindow) (entry : LightQueueEntry) : Prop :=
  entry.flags.hasSidedTransparentBlocks = false → (w.blocks.lightOcclusionShape (w.getBlockState entry.blockPos)).isEmpty

theorem Informed.opens_iff {entry : LightQueueEntry} (h : w.Informed entry) (state : w.blocks.State)
    (d : LightAxisDirection) :
    BlockStates.Opens (w.sourceState entry) state d ↔ BlockStates.Opens (w.getBlockState entry.blockPos) state d := by
  unfold sourceState
  split
  · exact Iff.rfl
  next hflag =>
    have hempty := h (by simpa using hflag)
    exact ⟨fun hopen => hopen.of_empty hempty, fun hopen => hopen.of_empty BlockStates.air_isEmpty⟩

theorem opens_sourceState {entry : LightQueueEntry} {state : w.blocks.State} {d : LightAxisDirection}
    (h : BlockStates.Opens (w.getBlockState entry.blockPos) state d) :
    BlockStates.Opens (w.sourceState entry) state d := by
  unfold sourceState
  split
  · exact h
  · exact h.of_empty BlockStates.air_isEmpty

theorem shapeFlags_informed (p : BlockPos) (level : Nat) (directions : LightDirectionSet) (write recheck : Bool) :
    w.Informed ⟨p, level, directions, { w.shapeFlags p with writeLevel := write, recheckLevel := recheck }⟩ := by
  intro h
  simpa [shapeFlags] using h

theorem targetLevel_decrease {level : Nat} {source : w.blocks.State} {target : BlockPos} {d : LightAxisDirection} :
    w.targetLevel level source target d true =
      if BlockStates.Opens source (w.getBlockState target) d then some (level - w.opacity target, w.shapeFlags target)
      else none := by
  unfold targetLevel
  dsimp only
  split
  next hblocked => rw [if_neg (fun hopen => hopen hblocked)]
  next hopen =>
    have hvalue := BlockStates.lightBlockInto_eq hopen
    unfold opacity
    rw [hvalue]
    simp [show BlockStates.Opens source (w.getBlockState target) d from hopen]

theorem targetLevel_increase {level : Nat} {source : w.blocks.State} {target : BlockPos} {d : LightAxisDirection} :
    w.targetLevel level source target d false =
      if BlockStates.Opens source (w.getBlockState target) d ∧ w.opacity target < level then
        some (level - w.opacity target, w.shapeFlags target)
      else none := by
  unfold targetLevel
  dsimp only
  split
  next hblocked => rw [if_neg (fun hopen => hopen.1 hblocked)]
  next hopen =>
    have hvalue := BlockStates.lightBlockInto_eq hopen
    unfold opacity
    rw [hvalue]
    by_cases hlevel : w.blocks.lightOpacity (w.getBlockState target) < level
    · simp [hlevel, show BlockStates.Opens source (w.getBlockState target) d from hopen]
    · simp [hlevel, Nat.not_lt.mp hlevel]

end LightWindow

end Foton.Light
