import Foton.Light.Wave
import Mathlib.Algebra.BigOperators.Group.Finset.Basic
import Mathlib.Algebra.Order.BigOperators.Group.Finset

/-!
# Changes of blocks

The two passes end, and they leave the levels of the new block states, provided
that no source is written below a level that it has already been given.
-/

namespace Foton.Light

namespace LightWindow

variable {w : LightWindow} {levels : BlockPos → Nat}

/-! ## The passes end -/

/-- The sum over the window of a quantity of the levels. -/
noncomputable def amount (w : LightWindow) (f : Nat → Nat) (levels : BlockPos → Nat) : Nat :=
  ∑ p ∈ w.layout.inside_finite.toFinset, f (levels p)

theorem amount_update (f : Nat → Nat) (levels : BlockPos → Nat) {p : BlockPos} (hp : w.layout.inside p) (level : Nat) :
    w.amount f (Function.update levels p level) + f (levels p) = w.amount f levels + f level := by
  have hmem : p ∈ w.layout.inside_finite.toFinset := w.layout.inside_finite.mem_toFinset.mpr hp
  unfold amount
  rw [← Finset.add_sum_erase _ _ hmem, ← Finset.add_sum_erase _ (fun q => f (levels q)) hmem, Function.update_self]
  have hrest : ∑ q ∈ w.layout.inside_finite.toFinset.erase p, f (Function.update levels p level q) =
      ∑ q ∈ w.layout.inside_finite.toFinset.erase p, f (levels q) :=
    Finset.sum_congr rfl fun q hq => by rw [Function.update_of_ne (Finset.ne_of_mem_erase hq)]
  rw [hrest]
  omega

/-- A neighbour that the wave looks at is left alone, or it was lit and is cleared. -/
theorem decreaseNeighbor_cases (entry : LightQueueEntry) (e : LightEdit) (d : LightAxisDirection) :
    ((w.decreaseNeighbor entry e d).levels = e.levels ∧ (w.decreaseNeighbor entry e d).decrease = e.decrease) ∨
      ∃ p, w.layout.inside p ∧ 0 < e.levels p ∧ (w.decreaseNeighbor entry e d).levels = Function.update e.levels p 0 ∧
        (w.decreaseNeighbor entry e d).decrease.length ≤ e.decrease.length + 1 := by
  unfold decreaseNeighbor
  dsimp only
  split
  · exact Or.inl ⟨rfl, rfl⟩
  next hinside =>
    have hinside : w.layout.inside (entry.blockPos.step d) := by
      by_contra hno
      simp [hno] at hinside
    have hget : e.get w.layout (entry.blockPos.step d) = e.levels (entry.blockPos.step d) := if_pos hinside
    have hencodes := LightCacheLayout.encodes_of_inside hinside
    rw [hget]
    split
    · exact Or.inl ⟨rfl, rfl⟩
    next hlit =>
      split
      · exact Or.inl ⟨rfl, rfl⟩
      · split
        · exact Or.inl (by simp [LightEdit.enqueueIncrease, hencodes])
        · refine Or.inr ⟨_, hinside, Nat.pos_of_ne_zero hlit, ?_⟩
          simp only [LightEdit.set, LightEdit.enqueueIncrease, LightEdit.enqueueDecrease, hencodes, hinside, if_true]
          split <;> split <;> simp

noncomputable def decreaseWork (w : LightWindow) (e : LightEdit) : Nat := e.decrease.length + w.amount id e.levels

theorem foldl_decreaseNeighbor_work (entry : LightQueueEntry) (ds : LightDirectionSet) (e : LightEdit) :
    w.decreaseWork (ds.foldl (w.decreaseNeighbor entry) e) ≤ w.decreaseWork e := by
  induction ds generalizing e with
  | nil => exact Nat.le_refl _
  | cons d ds ih =>
    refine (ih _).trans ?_
    unfold decreaseWork
    rcases decreaseNeighbor_cases (w := w) entry e d with ⟨hlevels, hdecrease⟩ | ⟨p, hp, hpos, hlevels, hdecrease⟩
    · rw [hlevels, hdecrease]
    · have hamount := amount_update id e.levels hp 0
      rw [hlevels]
      simp only [id] at hamount
      omega

theorem decreaseStep_work {e e' : LightEdit} (hstep : w.decreaseStep e = some e') :
    w.decreaseWork e' < w.decreaseWork e := by
  unfold decreaseStep at hstep
  split at hstep
  next => cases hstep
  next entry queue hqueue =>
    have hless : w.decreaseWork { e with decrease := queue } < w.decreaseWork e := by
      simp [decreaseWork, hqueue]
    dsimp only at hstep
    split at hstep
    · cases hstep
      exact Nat.lt_of_le_of_lt (foldl_decreaseNeighbor_work entry _ _) hless
    · cases hstep
      exact hless

theorem increaseNeighbor_cases (entry : LightQueueEntry) (e : LightEdit) (d : LightAxisDirection) :
    ((w.increaseNeighbor entry e d).levels = e.levels ∧ (w.increaseNeighbor entry e d).increase = e.increase) ∨
      ∃ p level, ∃ new : List LightQueueEntry, w.layout.inside p ∧ e.levels p < level ∧ level ≤ entry.level ∧
        (w.increaseNeighbor entry e d).levels = Function.update e.levels p level ∧
          (w.increaseNeighbor entry e d).increase = e.increase ++ new ∧ new.length ≤ 1 ∧
            ∀ next ∈ new, next.level = level ∧ next.flags.writeLevel = false := by
  unfold increaseNeighbor
  dsimp only
  split
  · exact Or.inl ⟨rfl, rfl⟩
  next hinside =>
    have hinside : w.layout.inside (entry.blockPos.step d) := by
      by_contra hno
      simp [hno] at hinside
    have hget : e.get w.layout (entry.blockPos.step d) = e.levels (entry.blockPos.step d) := if_pos hinside
    have hencodes := LightCacheLayout.encodes_of_inside hinside
    rw [hget, targetLevel_increase]
    split
    · exact Or.inl ⟨rfl, rfl⟩
    · by_cases htarget : BlockStates.Opens (w.sourceState entry) (w.getBlockState (entry.blockPos.step d)) d ∧
          w.opacity (entry.blockPos.step d) < entry.level
      · rw [if_pos htarget]
        dsimp only
        split
        · exact Or.inl ⟨rfl, rfl⟩
        next hraised =>
          simp only [LightEdit.set, LightEdit.enqueueIncrease, hencodes, hinside, if_true]
          split
          · exact Or.inr ⟨_, _, [_], hinside, Nat.not_le.mp hraised, Nat.sub_le _ _, rfl, rfl, by simp,
              by simp [shapeFlags]⟩
          · exact Or.inr ⟨_, _, [], hinside, Nat.not_le.mp hraised, Nat.sub_le _ _, rfl, by simp, by simp, by simp⟩
      · rw [if_neg htarget]
        exact Or.inl ⟨rfl, rfl⟩

def writes (queue : List LightQueueEntry) : Nat := queue.countP fun entry => entry.flags.writeLevel

/-- What is dark may still be lit, and each restoring entry may darken one position. -/
noncomputable def increaseWork (w : LightWindow) (e : LightEdit) : Nat :=
  e.increase.length + w.amount (maxLightLevel - ·) e.levels + maxLightLevel * writes e.increase

def EntriesBounded (e : LightEdit) : Prop := ∀ entry ∈ e.increase, entry.level ≤ maxLightLevel

theorem foldl_increaseNeighbor_work {entry : LightQueueEntry} (hlevel : entry.level ≤ maxLightLevel)
    (ds : LightDirectionSet) {e : LightEdit} (hbounded : EntriesBounded e) :
    EntriesBounded (ds.foldl (w.increaseNeighbor entry) e) ∧
      w.increaseWork (ds.foldl (w.increaseNeighbor entry) e) ≤ w.increaseWork e := by
  induction ds generalizing e with
  | nil => exact ⟨hbounded, Nat.le_refl _⟩
  | cons d ds ih =>
    have hnext : EntriesBounded (w.increaseNeighbor entry e d) ∧
        w.increaseWork (w.increaseNeighbor entry e d) ≤ w.increaseWork e := by
      unfold increaseWork EntriesBounded
      rcases increaseNeighbor_cases (w := w) entry e d with ⟨hlevels, hincrease⟩ |
        ⟨p, level, new, hp, hraised, hle, hlevels, hincrease, hlength, hnew⟩
      · rw [hlevels, hincrease]
        exact ⟨hbounded, Nat.le_refl _⟩
      · rw [hlevels, hincrease]
        refine ⟨fun next hnext => ?_, ?_⟩
        · rcases List.mem_append.mp hnext with hold | hlast
          · exact hbounded next hold
          · rw [(hnew next hlast).1]
            exact hle.trans hlevel
        · have hamount := amount_update (maxLightLevel - ·) e.levels hp level
          have hwrites : writes (e.increase ++ new) = writes e.increase := by
            have hnone : writes new = 0 := List.countP_eq_zero.mpr fun next hlast => by simp [(hnew next hlast).2]
            unfold writes at hnone ⊢
            rw [List.countP_append, hnone, Nat.add_zero]
          rw [hwrites, List.length_append]
          omega
    obtain ⟨hrest, hwork⟩ := ih hnext.1
    exact ⟨hrest, hwork.trans hnext.2⟩

theorem increaseStep_work {e e' : LightEdit} (hbounded : EntriesBounded e) (hstep : w.increaseStep e = some e') :
    EntriesBounded e' ∧ w.increaseWork e' < w.increaseWork e := by
  unfold increaseStep at hstep
  split at hstep
  next => cases hstep
  next entry queue hqueue =>
    have hentry : entry.level ≤ maxLightLevel := hbounded entry (by simp [hqueue])
    have hrest : EntriesBounded { e with increase := queue } := fun next hnext => hbounded next (by
      rw [hqueue]
      exact List.mem_cons_of_mem _ hnext)
    have hwrites : writes (entry :: queue) = writes queue + if entry.flags.writeLevel then 1 else 0 := by
      simp [writes, List.countP_cons]
    have hless : w.increaseWork { e with increase := queue } < w.increaseWork e := by
      simp only [increaseWork, hwrites, hqueue, List.length_cons, Nat.mul_add]
      omega
    dsimp only at hstep
    split at hstep
    · cases hstep
      exact ⟨hrest, hless⟩
    · split at hstep
      · cases hstep
        exact ⟨hrest, hless⟩
      · cases hstep
        split
        next hwrite =>
          -- the entry that restores a source darkens its own position at most
          have hwrite : entry.flags.writeLevel = true := by
            simp only [Bool.and_eq_true] at hwrite
            exact hwrite.2
          have hset : EntriesBounded (({ e with increase := queue } : LightEdit).set w.layout entry.blockPos entry.level) ∧
              w.increaseWork (({ e with increase := queue } : LightEdit).set w.layout entry.blockPos entry.level) <
                w.increaseWork e := by
            unfold LightEdit.set
            split
            next hinside =>
              refine ⟨hrest, ?_⟩
              have hamount := amount_update (maxLightLevel - ·) e.levels hinside entry.level
              simp only [increaseWork, hwrites, hwrite, hqueue, List.length_cons, Nat.mul_add, if_true] at hamount ⊢
              omega
            · exact ⟨hrest, hless⟩
          obtain ⟨hlast, hwork⟩ := foldl_increaseNeighbor_work hentry entry.directions hset.1
          exact ⟨hlast, Nat.lt_of_le_of_lt hwork hset.2⟩
        next =>
          obtain ⟨hlast, hwork⟩ := foldl_increaseNeighbor_work (w := w) hentry entry.directions hrest
          exact ⟨hlast, Nat.lt_of_le_of_lt hwork hless⟩

theorem performLightIncrease_terminates {e : LightEdit} (hbounded : EntriesBounded e) :
    ∃ fuel e', w.performLightIncrease fuel e = some e' :=
  drain_terminates w.increaseWork hbounded (fun _ _ hu hstep => (increaseStep_work hu hstep).1)
    fun _ _ hu hstep => (increaseStep_work hu hstep).2

theorem performLightDecrease_add {e e' : LightEdit} {fuel : Nat} (h : w.performLightDecrease fuel e = some e')
    (more : Nat) : w.performLightDecrease (fuel + more) e = some e' := by
  obtain ⟨u, hu, hrun⟩ := Option.bind_eq_some_iff.mp h
  exact Option.bind_eq_some_iff.mpr ⟨u, drain_add hu more, drain_add hrun more⟩

theorem performLightDecrease_terminates {pending : BlockPos → BlockPos → Prop} {e : LightEdit}
    (h : w.Waves pending e.levels e.increase e.decrease) : ∃ fuel e', w.performLightDecrease fuel e = some e' := by
  obtain ⟨decreases, u, hu⟩ : ∃ fuel u, drain w.decreaseStep fuel e = some u :=
    drain_terminates (I := fun _ => True) w.decreaseWork trivial (fun _ _ _ _ => trivial)
      fun _ _ _ hstep => decreaseStep_work hstep
  have hwaves := Reaches.waves h (drain_reaches hu).1
  obtain ⟨increases, e', he'⟩ := performLightIncrease_terminates (w := w) (e := u)
    fun entry hentry => (hwaves.valid entry hentry).level_le
  refine ⟨decreases + increases, e', ?_⟩
  unfold performLightDecrease
  rw [drain_add hu increases, Option.bind_some]
  rw [Nat.add_comm]
  exact drain_add he' decreases

/-! ## Sources that are not written -/

def WritesNothing (e : LightEdit) : Prop := ∀ entry ∈ e.increase, entry.flags.writeLevel = false

theorem WritesNothing.upward {e : LightEdit} (h : WritesNothing e) : Upward e := by
  intro entry rest hqueue hwrite
  simp [h entry (by simp [hqueue])] at hwrite

theorem foldl_increaseNeighbor_writesNothing (entry : LightQueueEntry) (ds : LightDirectionSet) {e : LightEdit}
    (h : WritesNothing e) : WritesNothing (ds.foldl (w.increaseNeighbor entry) e) := by
  induction ds generalizing e with
  | nil => exact h
  | cons d ds ih =>
    refine ih ?_
    intro next hnext
    rcases increaseNeighbor_cases (w := w) entry e d with ⟨-, hincrease⟩ | ⟨p, level, new, -, -, -, -, hincrease, -, hnew⟩
    · exact h next (by rwa [hincrease] at hnext)
    · rw [hincrease] at hnext
      rcases List.mem_append.mp hnext with hold | hlast
      · exact h next hold
      · exact (hnew next hlast).2

theorem increaseStep_writesNothing {e e' : LightEdit} (h : WritesNothing e) (hstep : w.increaseStep e = some e') :
    WritesNothing e' := by
  unfold increaseStep at hstep
  split at hstep
  next => cases hstep
  next entry queue hqueue =>
    have hwrite : entry.flags.writeLevel = false := h entry (by simp [hqueue])
    have hrest : WritesNothing { e with increase := queue } := fun next hnext => h next (by
      rw [hqueue]
      exact List.mem_cons_of_mem _ hnext)
    dsimp only at hstep
    split at hstep
    · cases hstep
      exact hrest
    · split at hstep
      · cases hstep
        exact hrest
      · rw [if_neg (by simp [hwrite])] at hstep
        cases hstep
        exact foldl_increaseNeighbor_writesNothing _ _ hrest

theorem WritesNothing.reaches {e e' : LightEdit} (h : WritesNothing e) (hreaches : Reaches w.increaseStep e e') :
    WritesNothing e' :=
  hreaches.invariant (C := fun _ => True) h (fun _ _ => trivial) fun _ _ hu _ hstep => increaseStep_writesNothing hu hstep

/-- The increase pass that follows the waves never writes a source below what its position has. -/
def SourcesKept (w : LightWindow) (e : LightEdit) : Prop :=
  ∀ u v, Reaches w.decreaseStep e u → w.decreaseStep u = none → Reaches w.increaseStep u v → Upward v

theorem SourcesKept.of_drain {e e' : LightEdit} {fuel : Nat} (hrun : drain w.decreaseStep fuel e = some e')
    (h : WritesNothing e') : w.SourcesKept e := by
  intro u v hu hlast hv
  have hsame : u = e' := drain_unique hu hlast hrun
  subst hsame
  exact (h.reaches hv).upward

/-! ## Blocks in stone -/

inductive StoneState where
  | stone
  | glowstone
  | torch
  | enchantingTable
  | candles
  | brewingStand
  | air
  deriving DecidableEq

/-- An enchanting table fills its lower face and no other. -/
def enchantingTableShape : VoxelShape where
  boxes := [⟨fun face => if face = .negativeY then Finset.univ else ∅⟩]
  isFullBlock := false
  full_nonempty := by simp

def stoneStates : BlockStates where
  State := StoneState
  lightEmission
    | .glowstone => 15
    | .torch => 14
    | .enchantingTable => 7
    | .candles => 6
    | .brewingStand => 1
    | _ => 0
  lightDampening
    | .stone => 15
    | .glowstone => 15
    | _ => 0
  dampening_le state := by cases state <;> decide
  canOcclude
    | .stone => true
    | .glowstone => true
    | .enchantingTable => true
    | _ => false
  useShapeForLightOcclusion state := decide (state = .enchantingTable)
  occlusionShape _ := enchantingTableShape
  air := .air
  air_shape := rfl

def stoneLayout : LightCacheLayout := ⟨⟨0, 0⟩, 0, 1⟩

/-- Everything but the listed blocks is stone. -/
def stoneWindow (places : List (BlockPos × StoneState)) : LightWindow where
  blocks := stoneStates
  layout := stoneLayout
  states p := (places.lookup p).getD StoneState.stone

def herePos : BlockPos := ⟨7, 7, 7⟩

def besidePos : BlockPos := ⟨8, 7, 7⟩

def stoneLevels (levels : List (BlockPos × Nat)) (p : BlockPos) : Nat := (levels.lookup p).getD 0

theorem stoneWindow_states {p q : BlockPos} (h : p ≠ q) (state : StoneState) (places : List (BlockPos × StoneState)) :
    (stoneWindow ((q, state) :: places)).states p = (stoneWindow places).states p := by
  have hkey : (p == q) = false := by simpa using h
  simp only [stoneWindow, List.lookup_cons, hkey]
  rfl

theorem lookup_unlisted {α : Type} {l : List (BlockPos × α)} {p : BlockPos} (h : p ∉ l.map Prod.fst) :
    l.lookup p = none :=
  List.lookup_eq_none_iff.mpr fun q hq => by
    have hne : p ≠ q.1 := fun heq => h (List.mem_map.mpr ⟨q, hq, heq.symm⟩)
    simpa using hne

theorem stoneWindow_getBlockState {places : List (BlockPos × StoneState)} {p : BlockPos} (hp : stoneLayout.inside p)
    (h : p ∉ places.map Prod.fst) : (stoneWindow places).getBlockState p = StoneState.stone := by
  refine (if_pos hp).trans ?_
  simp only [stoneWindow, lookup_unlisted h]
  rfl

theorem stoneWindow_emission {places : List (BlockPos × StoneState)} {p : BlockPos} (hp : stoneLayout.inside p)
    (h : p ∉ places.map Prod.fst) : (stoneWindow places).emission p = 0 := by
  simp only [emission, stoneWindow_getBlockState hp h]
  exact Nat.zero_and _

/-- Stone takes no light in, so the equation has to hold at the listed places only. -/
theorem stoneLevels_right {region : BlockPos → Bool} (hregion : ∀ p, region p → stoneLayout.inside p)
    {places : List (BlockPos × StoneState)} {levels : List (BlockPos × Nat)} (hle : ∀ q ∈ levels, q.2 ≤ 15)
    (hkeys : levels.map Prod.fst = places.map Prod.fst)
    (hplaces : ∀ p ∈ places.map Prod.fst, region p → stoneLevels levels p =
      (LightAxisDirection.all.map ((stoneWindow places).contribution region (stoneLevels levels) p)).foldr max
        ((stoneWindow places).emission p)) :
    (stoneWindow places).LightEquation region (stoneLevels levels) := by
  intro p hp
  by_cases hlisted : p ∈ places.map Prod.fst
  · exact hplaces p hlisted hp
  · have hstate := stoneWindow_getBlockState (hregion p hp) hlisted
    have hopacity : (stoneWindow places).opacity p = 15 := by
      simp only [opacity, hstate]
      rfl
    have hbound : ∀ q, stoneLevels levels q ≤ 15 := fun q => by
      unfold stoneLevels
      cases hlookup : levels.lookup q with
      | none => exact Nat.zero_le _
      | some level =>
        obtain ⟨before, after, rfl, -⟩ := List.lookup_eq_some_iff.mp hlookup
        exact hle (q, level) (by simp)
    have hzero : ∀ d, (stoneWindow places).contribution region (stoneLevels levels) p d = 0 := fun d => by
      unfold contribution
      dsimp only
      split
      · rw [hopacity]
        exact Nat.sub_eq_zero_of_le (hbound _)
      · rfl
    have hemission := stoneWindow_emission (hregion p hp) hlisted
    have hlevel : stoneLevels levels p = 0 := by
      simp [stoneLevels, lookup_unlisted (hkeys ▸ hlisted)]
    simp [LightAxisDirection.all, hzero, hemission, hlevel]

/-! ## The levels are right -/

theorem performLightDecrease_solves {e e' : LightEdit} {fuel : Nat}
    (h : w.Waves (fun _ _ => False) e.levels e.increase e.decrease) (hkept : w.SourcesKept e)
    (hrun : w.performLightDecrease fuel e = some e') : w.LightEquation w.layout.inside e'.levels := by
  obtain ⟨u, hu, hrun⟩ := Option.bind_eq_some_iff.mp hrun
  obtain ⟨hreaches, hlast⟩ := drain_reaches hu
  have hwaves := Reaches.waves h hreaches
  rw [decreaseStep_none hlast] at hwaves
  exact (performLightIncrease_rising hwaves.rising (hkept u · hreaches hlast) hrun).1.solves

/-- The levels of the old states, where the changed positions are still to be checked. -/
theorem LightEquation.waning {old : BlockPos → w.blocks.State} {positions : List BlockPos}
    (hold : ({ w with states := old } : LightWindow).LightEquation w.layout.inside levels)
    (hstates : ∀ p, w.layout.inside p → p ∉ positions → w.states p = old p) :
    w.Waning (· ∈ positions) (fun _ _ => False) levels [] [] := by
  have hsolves := lightEquation_iff.mp hold
  have hstate : ∀ {p}, w.layout.inside p → p ∉ positions →
      ({ w with states := old } : LightWindow).getBlockState p = w.getBlockState p := fun hp hno => by
    simp [getBlockState, hp, hstates _ hp hno]
  have hemission : ∀ {p}, w.layout.inside p → p ∉ positions →
      ({ w with states := old } : LightWindow).emission p = w.emission p := fun hp hno => by
    simp only [emission, hstate hp hno]
  have hopacity : ∀ {p}, w.layout.inside p → p ∉ positions →
      ({ w with states := old } : LightWindow).opacity p = w.opacity p := fun hp hno => by
    simp only [opacity, hstate hp hno]
  refine ⟨?_, by simp, fun p hp hno _ => ?_, fun p hp hno => ?_, fun n p hn hp hnn hno hcarries _ => ?_, by simp⟩
  · exact hsolves.le_of_emission w.layout.inside_finite fun p _ => emission_le p
  · rcases hsolves.supported p hp with hemits | ⟨n, hn, ⟨d, hstep, hopen⟩, hlevel⟩
    · exact Or.inl (hemits.trans (Nat.le_of_eq (hemission hp hno)))
    · rw [hstate hp hno] at hopen
      rw [medium_cost, hopacity hp hno] at hlevel
      by_cases hchanged : n ∈ positions
      · -- the wave that starts at `n` takes back what its old state gave
        exact Or.inr (Or.inr (Or.inr ⟨n, hn, hchanged, d, by simp [checkEntry], hstep,
          hopen.of_empty BlockStates.air_isEmpty, hlevel⟩))
      · rw [hstate hn hchanged] at hopen
        exact Or.inr (Or.inl ⟨n, hn, hchanged, ⟨d, hstep, hopen⟩, hlevel.trans (Nat.le_max_left _ _)⟩)
  · exact Or.inl ((Nat.le_of_eq (hemission hp hno).symm).trans (hsolves.emits p hp))
  · obtain ⟨d, hstep, hopen⟩ := hcarries
    have hspread := hsolves.spreads n hn p hp ⟨d, hstep, by rwa [hstate hn hnn, hstate hp hno]⟩
    rw [medium_cost, hopacity hp hno] at hspread
    exact Or.inl hspread

theorem foldl_checkBlock_waning {unchecked : BlockPos → Prop} {pending : BlockPos → BlockPos → Prop}
    (positions : List BlockPos) (hpositions : ∀ p ∈ positions, w.layout.inside p) {e : LightEdit}
    (h : w.Waning unchecked pending e.levels e.increase e.decrease) :
    w.Waning (fun q => unchecked q ∧ q ∉ positions) (fun n q => pending n q ∧ q ∉ positions)
      (positions.foldl w.checkBlock e).levels (positions.foldl w.checkBlock e).increase
      (positions.foldl w.checkBlock e).decrease := by
  induction positions generalizing unchecked pending e with
  | nil => simpa using h
  | cons p positions ih =>
    have hp := hpositions p List.mem_cons_self
    have hnext : w.Waning (fun q => unchecked q ∧ q ≠ p) (fun n q => pending n q ∧ q ≠ p) (w.checkBlock e p).levels
        (w.checkBlock e p).increase (w.checkBlock e p).decrease := by
      rw [checkBlock_eq hp]
      exact h.check hp
    have hrest := ih (fun q hq => hpositions q (List.mem_cons_of_mem _ hq)) hnext
    simpa only [List.mem_cons, not_or, and_assoc, ne_eq, List.foldl_cons] using hrest

end LightWindow

end Foton.Light
