import Foton.Light.Rising

/-!
# Checks and the decrease pass

A check sets a position to its emission and starts a decrease wave. While waves
run, every level is supported, or a wave is on its way to it; and what a wave
may have taken too much of waits for an increase entry, or for the wave to look
at the neighbour that can give it back.
-/

namespace Foton.Light

namespace LightWindow

variable {w : LightWindow} {unchecked : BlockPos → Prop} {pending : BlockPos → BlockPos → Prop}
  {levels : BlockPos → Nat} {increase decrease : List LightQueueEntry} {entry : LightQueueEntry}

/-- The wave of the entry will reach the neighbour `p` with its level or more. -/
def Takes (w : LightWindow) (entry : LightQueueEntry) (p : BlockPos) (level : Nat) : Prop :=
  ∃ d ∈ entry.directions, p = entry.blockPos.step d ∧
    BlockStates.Opens (w.sourceState entry) (w.getBlockState p) d ∧ level + w.opacity p ≤ entry.level

/-- The entry will look at the neighbour `n` of `p`. -/
def Recalls (entry : LightQueueEntry) (p n : BlockPos) : Prop :=
  entry.blockPos = p ∧ ∃ d ∈ entry.directions, n = p.step d

/-- The entry of a check. -/
def checkEntry (p : BlockPos) (level : Nat) : LightQueueEntry := ⟨p, level, LightAxisDirection.all, {}⟩

/-- The position of a wave keeps no more than its emission, and spreads it again. -/
structure Source (w : LightWindow) (levels : BlockPos → Nat) (increase : List LightQueueEntry)
    (entry : LightQueueEntry) : Prop where
  inside : w.layout.inside entry.blockPos
  level_le : entry.level ≤ maxLightLevel
  emission : levels entry.blockPos ≤ w.emission entry.blockPos
  spreads : 0 < levels entry.blockPos → ∃ next ∈ increase, next.blockPos = entry.blockPos ∧
    (∀ d, d ∈ next.directions) ∧ next.flags.recheckLevel = false ∧ levels entry.blockPos ≤ next.level

/-- The invariant, where some positions are still to be checked. -/
structure Waning (w : LightWindow) (unchecked : BlockPos → Prop) (pending : BlockPos → BlockPos → Prop)
    (levels : BlockPos → Nat) (increase decrease : List LightQueueEntry) : Prop where
  bounded : ∀ p, w.layout.inside p → levels p ≤ maxLightLevel
  valid : ∀ entry ∈ increase, w.Valid (fun _ => 0) entry
  supported : ∀ p, w.layout.inside p → ¬ unchecked p → 0 < levels p →
    levels p ≤ w.emission p ∨
      (∃ n, w.layout.inside n ∧ ¬ unchecked n ∧ w.medium.carries n p ∧
        levels p + w.opacity p ≤ max (levels n) (w.emission n)) ∨
      (∃ entry ∈ decrease, w.Takes entry p (levels p)) ∨
      ∃ n, w.layout.inside n ∧ unchecked n ∧ w.Takes (checkEntry n (levels n)) p (levels p)
  emits : ∀ p, w.layout.inside p → ¬ unchecked p → w.emission p ≤ levels p ∨ ∃ entry ∈ increase, entry.Restores p
  spreads : ∀ n p, w.layout.inside n → w.layout.inside p → ¬ unchecked n → ¬ unchecked p → w.medium.carries n p →
    ¬ pending n p → levels n ≤ levels p + w.opacity p ∨ (∃ entry ∈ increase, entry.Covers levels n p) ∨
      ∃ entry ∈ decrease, Recalls entry p n
  sources : ∀ entry ∈ decrease, w.Source levels increase entry ∧ ¬ unchecked entry.blockPos

theorem Valid.mono {levels' : BlockPos → Nat} (h : w.Valid levels entry) (hle : ∀ p, levels p ≤ levels' p) :
    w.Valid levels' entry :=
  { h with plain := fun hplain => (h.plain hplain).trans (max_le_max_right _ (hle _)) }

theorem Waning.rising (h : w.Waning (fun _ => False) pending levels increase []) : w.Rising pending levels increase where
  bounded := h.bounded
  valid entry hentry := (h.valid entry hentry).mono fun _ => Nat.zero_le _
  supported p hp hpos := (h.supported p hp (by simp) hpos).imp id fun hrest => by
    rcases hrest with ⟨n, hn, -, hcarries, hlevel⟩ | htakes | hunchecked
    · exact ⟨n, hn, hcarries, hlevel⟩
    · simp at htakes
    · simp at hunchecked
  emits p hp := h.emits p hp (by simp)
  spreads n p hn hp hcarries hpending := by
    rcases h.spreads n p hn hp (by simp) (by simp) hcarries hpending with hdone | hcovers | hrecalls
    · exact Or.inl hdone
    · exact Or.inr (Or.inl hcovers)
    · simp at hrecalls

theorem Rising.waning (h : w.Rising pending levels []) : w.Waning (fun _ => False) pending levels [] [] where
  bounded := h.bounded
  valid := by simp
  supported p hp _ hpos := (h.supported p hp hpos).imp id fun ⟨n, hn, hcarries, hlevel⟩ =>
    Or.inl ⟨n, hn, by simp, hcarries, hlevel⟩
  emits p hp _ := h.emits p hp
  spreads n p hn hp _ _ hcarries hpending := by
    rcases h.spreads n p hn hp hcarries hpending with hdone | hcovers | ⟨hrestores, -⟩
    · exact Or.inl hdone
    · exact Or.inr (Or.inl hcovers)
    · simp at hrestores
  sources := by simp

theorem Waning.narrow (h : w.Waning unchecked pending levels increase decrease) {pending' : BlockPos → BlockPos → Prop}
    (hsettled : ∀ n p, w.layout.inside n → w.layout.inside p → w.medium.carries n p → pending n p → ¬ pending' n p →
      levels n ≤ levels p + w.opacity p) : w.Waning unchecked pending' levels increase decrease :=
  { h with
    spreads := fun n p hn hp hun hup hcarries hno => by
      by_cases hwait : pending n p
      · exact Or.inl (hsettled n p hn hp hcarries hwait hno)
      · exact h.spreads n p hn hp hun hup hcarries hwait }

/-! ## A check -/

/-- The increase entry of a check. -/
def sourceEntry (w : LightWindow) (p : BlockPos) : List LightQueueEntry :=
  if w.emission p ≠ 0 then [⟨p, w.emission p, LightAxisDirection.all, w.shapeFlags p⟩] else []

theorem checkBlock_eq {e : LightEdit} {p : BlockPos} (hp : w.layout.inside p) : w.checkBlock e p =
    ⟨Function.update e.levels p (w.emission p), e.increase ++ w.sourceEntry p,
      e.decrease ++ [checkEntry p (e.levels p)]⟩ := by
  by_cases hemission : w.emission p = 0 <;>
    simp [checkBlock, sourceEntry, checkEntry, LightEdit.set, LightEdit.get, LightEdit.enqueueIncrease,
      LightEdit.enqueueDecrease, LightCacheLayout.cached_of_inside hp, LightCacheLayout.encodes_of_inside hp, hp,
      hemission]

theorem sourceEntry_valid {p : BlockPos} (hp : w.layout.inside p) :
    ∀ entry ∈ w.sourceEntry p, w.Valid (fun _ => 0) entry := by
  intro entry hentry
  unfold sourceEntry at hentry
  split at hentry
  · obtain rfl := List.mem_singleton.mp hentry
    refine ⟨hp, shapeFlags_informed p _ _ _ _, emission_le p, fun _ => Nat.le_max_right _ _, fun hwrite => ?_⟩
    simp [shapeFlags] at hwrite
  · simp at hentry

theorem sourceEntry_of_pos {p : BlockPos} (h : 0 < w.emission p) :
    ∃ next ∈ w.sourceEntry p, next.blockPos = p ∧ (∀ d, d ∈ next.directions) ∧ next.flags.recheckLevel = false ∧
      next.level = w.emission p := by
  rw [sourceEntry, if_pos (Nat.ne_of_gt h)]
  exact ⟨_, List.mem_singleton.mpr rfl, rfl, by simp, rfl, rfl⟩

theorem Waning.check (h : w.Waning unchecked pending levels increase decrease) {p : BlockPos} (hp : w.layout.inside p) :
    w.Waning (fun q => unchecked q ∧ q ≠ p) (fun n q => pending n q ∧ q ≠ p) (Function.update levels p (w.emission p))
      (increase ++ w.sourceEntry p) (decrease ++ [checkEntry p (levels p)]) := by
  have hother : ∀ {q}, q ≠ p → Function.update levels p (w.emission p) q = levels q := fun hq => by simp [hq]
  have hself : Function.update levels p (w.emission p) p = w.emission p := by simp
  have hchecked : ∀ {q}, q ≠ p → ¬ (unchecked q ∧ q ≠ p) → ¬ unchecked q := fun hq hno hu => hno ⟨hu, hq⟩
  have hnew : checkEntry p (levels p) ∈ decrease ++ [checkEntry p (levels p)] := by simp
  refine ⟨fun q hq => ?_, fun entry hentry => ?_, fun q hq huq hpos => ?_, fun q hq huq => ?_,
    fun n q hn hq hun huq hcarries hpending => ?_, fun entry hentry => ?_⟩
  · by_cases hqp : q = p
    · subst hqp
      rw [hself]
      exact emission_le q
    · rw [hother hqp]
      exact h.bounded q hq
  · rcases List.mem_append.mp hentry with hold | hsource
    · exact h.valid entry hold
    · exact sourceEntry_valid hp entry hsource
  · by_cases hqp : q = p
    · subst hqp
      exact Or.inl (Nat.le_of_eq hself)
    · rw [hother hqp] at hpos ⊢
      rcases h.supported q hq (hchecked hqp huq) hpos with hemits | ⟨n, hn, hun, hcarries, hlevel⟩ |
          ⟨entry, hentry, htakes⟩ | ⟨n, hn, hun, htakes⟩
      · exact Or.inl hemits
      · by_cases hnp : n = p
        · -- what `p` supported is taken by the wave, unless its emission is enough
          subst hnp
          rcases Nat.lt_or_ge (w.emission n) (levels q + w.opacity q) with hemission | hemission
          · obtain ⟨d, hstep, hopen⟩ := hcarries
            refine Or.inr (Or.inr (Or.inl ⟨_, hnew, d, by simp [checkEntry], hstep, opens_sourceState hopen, ?_⟩))
            change levels q + w.opacity q ≤ levels n
            omega
          · exact Or.inr (Or.inl ⟨n, hn, by simp, hcarries, hemission.trans (Nat.le_max_right _ _)⟩)
        · exact Or.inr (Or.inl ⟨n, hn, fun hu => hun hu.1, hcarries, by rwa [hother hnp]⟩)
      · exact Or.inr (Or.inr (Or.inl ⟨entry, List.mem_append_left _ hentry, htakes⟩))
      · by_cases hnp : n = p
        · subst hnp
          exact Or.inr (Or.inr (Or.inl ⟨_, hnew, htakes⟩))
        · exact Or.inr (Or.inr (Or.inr ⟨n, hn, ⟨hun, hnp⟩, by rwa [hother hnp]⟩))
  · by_cases hqp : q = p
    · subst hqp
      exact Or.inl (Nat.le_of_eq hself.symm)
    · rw [hother hqp]
      exact (h.emits q hq (hchecked hqp huq)).imp id fun ⟨entry, hentry, hrestores⟩ =>
        ⟨entry, List.mem_append_left _ hentry, hrestores⟩
  · by_cases hqp : q = p
    · -- the wave looks at every neighbour of `p`
      subst hqp
      obtain ⟨d, hstep, -⟩ := carries_iff.mp hcarries
      exact Or.inr (Or.inr ⟨_, hnew, rfl, d, by simp [checkEntry], hstep⟩)
    · rw [hother hqp]
      by_cases hnp : n = p
      · subst hnp
        rw [hself]
        rcases Nat.eq_zero_or_pos (w.emission n) with hzero | hpos
        · exact Or.inl (hzero ▸ Nat.zero_le _)
        · obtain ⟨next, hnext, hat, hall, hplain, hlevel⟩ := sourceEntry_of_pos hpos
          obtain ⟨d, hstep, -⟩ := hcarries
          refine Or.inr (Or.inl ⟨next, List.mem_append_right _ hnext, hat, ⟨d, hall d, hstep⟩, ?_, ?_⟩)
          · rw [hself, hlevel]
          · simp [hplain]
      · rw [hother hnp]
        rcases h.spreads n q hn hq (hchecked hnp hun) (hchecked hqp huq) hcarries fun hwait => hpending ⟨hwait, hqp⟩ with
          hdone | ⟨entry, hentry, hcovers⟩ | ⟨entry, hentry, hrecalls⟩
        · exact Or.inl hdone
        · refine Or.inr (Or.inl ⟨entry, List.mem_append_left _ hentry, hcovers.pos, hcovers.directed, ?_, ?_⟩)
          · rw [hother hnp]
            exact hcovers.level
          · rw [hother hnp]
            exact hcovers.recheck
        · exact Or.inr (Or.inr ⟨entry, List.mem_append_left _ hentry, hrecalls⟩)
  · -- a wave that starts at `p` has the new source entry
    have hsource : ∀ level, level ≤ maxLightLevel → ∀ entry : LightQueueEntry, entry.blockPos = p → entry.level = level →
        w.Source (Function.update levels p (w.emission p)) (increase ++ w.sourceEntry p) entry := by
      rintro level hlevel entry rfl rfl
      refine ⟨hp, hlevel, Nat.le_of_eq hself, fun hpos => ?_⟩
      rw [hself] at hpos ⊢
      obtain ⟨next, hnext, hat, hall, hplain, hnextLevel⟩ := sourceEntry_of_pos hpos
      exact ⟨next, List.mem_append_right _ hnext, hat, hall, hplain, Nat.le_of_eq hnextLevel.symm⟩
    rcases List.mem_append.mp hentry with hold | hlast
    · obtain ⟨hs, hu⟩ := h.sources entry hold
      by_cases hat : entry.blockPos = p
      · exact ⟨hsource _ hs.level_le entry hat rfl, fun hno => hno.2 hat⟩
      · refine ⟨⟨hs.inside, hs.level_le, ?_, fun hpos => ?_⟩, fun hno => hu hno.1⟩
        · rw [hother hat]
          exact hs.emission
        · rw [hother hat] at hpos ⊢
          obtain ⟨next, hnext, hrest⟩ := hs.spreads hpos
          exact ⟨next, List.mem_append_left _ hnext, hrest⟩
    · obtain rfl := List.mem_singleton.mp hlast
      exact ⟨hsource _ (h.bounded p hp) _ rfl rfl, fun hno => hno.2 rfl⟩

end LightWindow

end Foton.Light
