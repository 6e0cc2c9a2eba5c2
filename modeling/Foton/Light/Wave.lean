import Foton.Light.Waning

/-!
# The decrease pass

A wave clears what it may have lit, and leaves what is brighter for the
increase pass.
-/

namespace Foton.Light

namespace LightWindow

variable {w : LightWindow} {pending : BlockPos → BlockPos → Prop} {levels : BlockPos → Nat}
  {increase decrease : List LightQueueEntry} {entry : LightQueueEntry}

/-- The invariant of the decrease pass, where every check has been made. -/
abbrev Waves (w : LightWindow) (pending : BlockPos → BlockPos → Prop) (levels : BlockPos → Nat)
    (increase decrease : List LightQueueEntry) : Prop :=
  w.Waning (fun _ => False) pending levels increase decrease

theorem Waves.source (h : w.Waves pending levels increase (entry :: decrease)) : w.Source levels increase entry :=
  (h.sources entry List.mem_cons_self).1

theorem Waves.requeue (h : w.Waves pending levels increase decrease) {decrease' : List LightQueueEntry}
    (hsources : ∀ entry ∈ decrease', w.Source levels increase entry)
    (htakes : ∀ entry ∈ decrease, ∀ p, w.layout.inside p → 0 < levels p → w.Takes entry p (levels p) →
      ∃ entry ∈ decrease', w.Takes entry p (levels p))
    (hrecalls : ∀ entry ∈ decrease, ∀ n p, w.layout.inside n → w.medium.carries n p → Recalls entry p n →
      levels n ≤ levels p + w.opacity p ∨ (∃ entry ∈ increase, entry.Covers levels n p) ∨
        ∃ entry ∈ decrease', Recalls entry p n) :
    w.Waves pending levels increase decrease' where
  bounded := h.bounded
  valid := h.valid
  supported p hp hu hpos := by
    rcases h.supported p hp hu hpos with hemits | hneighbor | ⟨entry, hentry, htake⟩ | hunchecked
    · exact Or.inl hemits
    · exact Or.inr (Or.inl hneighbor)
    · exact Or.inr (Or.inr (Or.inl (htakes entry hentry p hp hpos htake)))
    · exact Or.inr (Or.inr (Or.inr hunchecked))
  emits := h.emits
  spreads n p hn hp hun hup hcarries hpending := by
    rcases h.spreads n p hn hp hun hup hcarries hpending with hdone | hcovers | ⟨entry, hentry, hrecall⟩
    · exact Or.inl hdone
    · exact Or.inr (Or.inl hcovers)
    · exact hrecalls entry hentry n p hn hcarries hrecall
  sources entry hentry := ⟨hsources entry hentry, id⟩

theorem Waves.advance {d : LightAxisDirection} {ds : LightDirectionSet}
    (h : w.Waves pending levels increase (rest entry (d :: ds) :: decrease))
    (htaken : w.layout.inside (entry.blockPos.step d) → 0 < levels (entry.blockPos.step d) →
      BlockStates.Opens (w.sourceState entry) (w.getBlockState (entry.blockPos.step d)) d →
        entry.level < levels (entry.blockPos.step d) + w.opacity (entry.blockPos.step d))
    (hrecalled : w.layout.inside (entry.blockPos.step d) → w.medium.carries (entry.blockPos.step d) entry.blockPos →
      levels (entry.blockPos.step d) ≤ levels entry.blockPos + w.opacity entry.blockPos ∨
        ∃ next ∈ increase, next.Covers levels (entry.blockPos.step d) entry.blockPos) :
    w.Waves pending levels increase (rest entry ds :: decrease) := by
  refine h.requeue ?_ ?_ ?_
  · rintro next (_ | ⟨_, hnext⟩)
    · exact ⟨h.source.inside, h.source.level_le, h.source.emission, h.source.spreads⟩
    · exact (h.sources next (List.mem_cons_of_mem _ hnext)).1
  · rintro next (_ | ⟨_, hnext⟩) p hp hpos htakes
    · obtain ⟨d', hd', hstep, hopen, hlevel⟩ := htakes
      have hstep : p = entry.blockPos.step d' := hstep
      subst hstep
      rcases List.mem_cons.mp hd' with rfl | hd'
      · exact absurd hlevel (Nat.not_le.mpr (htaken hp hpos hopen))
      · exact ⟨_, List.mem_cons_self, d', hd', rfl, hopen, hlevel⟩
    · exact ⟨next, List.mem_cons_of_mem _ hnext, htakes⟩
  · rintro next (_ | ⟨_, hnext⟩) n p hn hcarries hrecalls
    · obtain ⟨hpos, d', hd', hstep⟩ := hrecalls
      have hpos : entry.blockPos = p := hpos
      subst hpos hstep
      rcases List.mem_cons.mp hd' with rfl | hd'
      · exact (hrecalled hn hcarries).imp id Or.inl
      · exact Or.inr (Or.inr ⟨_, List.mem_cons_self, rfl, d', hd', rfl⟩)
    · exact Or.inr (Or.inr ⟨next, List.mem_cons_of_mem _ hnext, hrecalls⟩)

theorem Waves.finish (h : w.Waves pending levels increase (rest entry [] :: decrease)) :
    w.Waves pending levels increase decrease := by
  refine h.requeue (fun next hnext => (h.sources next (List.mem_cons_of_mem _ hnext)).1) ?_ ?_
  · rintro next (_ | ⟨_, hnext⟩) p - - htakes
    · obtain ⟨d, hd, -⟩ := htakes
      simp [rest] at hd
    · exact ⟨next, hnext, htakes⟩
  · rintro next (_ | ⟨_, hnext⟩) n p - - hrecalls
    · obtain ⟨-, d, hd, -⟩ := hrecalls
      simp [rest] at hd
    · exact Or.inr (Or.inr ⟨next, hnext, hrecalls⟩)

theorem Waves.start (h : w.Waves pending levels increase (entry :: decrease)) :
    w.Waves pending levels increase (rest entry entry.directions :: decrease) := by
  refine h.requeue ?_ ?_ ?_
  · rintro next (_ | ⟨_, hnext⟩)
    · exact ⟨h.source.inside, h.source.level_le, h.source.emission, h.source.spreads⟩
    · exact (h.sources next (List.mem_cons_of_mem _ hnext)).1
  · rintro next (_ | ⟨_, hnext⟩) p - - htakes
    · exact ⟨_, List.mem_cons_self, htakes⟩
    · exact ⟨next, List.mem_cons_of_mem _ hnext, htakes⟩
  · rintro next (_ | ⟨_, hnext⟩) n p - - hrecalls
    · exact Or.inr (Or.inr ⟨_, List.mem_cons_self, hrecalls⟩)
    · exact Or.inr (Or.inr ⟨next, List.mem_cons_of_mem _ hnext, hrecalls⟩)

theorem Waves.enqueue (h : w.Waves pending levels increase decrease) {new : List LightQueueEntry}
    (hvalid : ∀ entry ∈ new, w.Valid (fun _ => 0) entry) : w.Waves pending levels (increase ++ new) decrease where
  bounded := h.bounded
  valid entry hentry := (List.mem_append.mp hentry).elim (h.valid entry) (hvalid entry)
  supported := h.supported
  emits p hp hu := (h.emits p hp hu).imp id fun ⟨entry, hentry, hrestores⟩ =>
    ⟨entry, List.mem_append_left _ hentry, hrestores⟩
  spreads n p hn hp hun hup hcarries hpending :=
    (h.spreads n p hn hp hun hup hcarries hpending).imp id (Or.imp (fun ⟨entry, hentry, hcovers⟩ =>
      ⟨entry, List.mem_append_left _ hentry, hcovers⟩) id)
  sources entry hentry := by
    obtain ⟨hs, hu⟩ := h.sources entry hentry
    refine ⟨{ hs with spreads := fun hpos => ?_ }, hu⟩
    obtain ⟨next, hnext, hrest⟩ := hs.spreads hpos
    exact ⟨next, List.mem_append_left _ hnext, hrest⟩

/-- A position that a wave may have lit is cleared, and the wave goes on from it. -/
theorem Waves.clear (h : w.Waves pending levels increase decrease) (hentry : entry ∈ decrease) {d : LightAxisDirection}
    {p : BlockPos} (hp : w.layout.inside p) (hstep : p = entry.blockPos.step d) {level : Nat} (hle : levels p ≤ level)
    (hbound : level ≤ maxLightLevel)
    (hrestored : w.emission p ≠ 0 → ∃ next ∈ increase, next.Restores p) :
    w.Waves pending (Function.update levels p 0) increase
      (decrease ++ [⟨p, level, LightDirectionSet.allExceptOpposite d, w.shapeFlags p⟩]) := by
  have hother : ∀ {q}, q ≠ p → Function.update levels p 0 q = levels q := fun hq => by simp [hq]
  have hself : Function.update levels p 0 p = 0 := by simp
  set wave : LightQueueEntry := ⟨p, level, LightDirectionSet.allExceptOpposite d, w.shapeFlags p⟩
  have hwave : wave ∈ decrease ++ [wave] := by simp
  have hinformed : w.Informed wave := shapeFlags_informed p level _ _ _
  have hsource := (h.sources entry hentry).1
  have hback : p.step d.opposite = entry.blockPos := by simp [hstep]
  refine ⟨fun q hq => ?_, h.valid, fun q hq _ hpos => ?_, fun q hq _ => ?_, fun n q hn hq _ _ hcarries hpending => ?_,
    fun next hnext => ?_⟩
  · by_cases hqp : q = p
    · subst hqp
      simp
    · rw [hother hqp]
      exact h.bounded q hq
  · have hqp : q ≠ p := fun heq => by simp [heq] at hpos
    rw [hother hqp] at hpos ⊢
    rcases h.supported q hq id hpos with hemits | ⟨n, hn, -, hcarries, hlevel⟩ | ⟨next, hnext, htakes⟩ | ⟨_, _, hno, _⟩
    · exact Or.inl hemits
    · by_cases hnp : n = p
      · subst hnp
        rcases Nat.lt_or_ge (w.emission n) (levels q + w.opacity q) with hemission | hemission
        · obtain ⟨d', hstep', hopen⟩ := hcarries
          by_cases hd' : d' = d.opposite
          · -- the wave came from there, where no more is left than is emitted
            rw [hd', hback] at hstep'
            rw [hstep']
            exact Or.inl hsource.emission
          · refine Or.inr (Or.inr (Or.inl ⟨wave, hwave, d', allExceptOpposite_mem hd', hstep',
              (hinformed.opens_iff _ _).mpr hopen, ?_⟩))
            change levels q + w.opacity q ≤ level
            omega
        · exact Or.inr (Or.inl ⟨n, hn, id, hcarries, hemission.trans (Nat.le_max_right _ _)⟩)
      · exact Or.inr (Or.inl ⟨n, hn, id, hcarries, by rwa [hother hnp]⟩)
    · exact Or.inr (Or.inr (Or.inl ⟨next, List.mem_append_left _ hnext, htakes⟩))
    · exact hno.elim
  · by_cases hqp : q = p
    · subst hqp
      rcases Nat.eq_zero_or_pos (w.emission q) with hzero | hpos
      · exact Or.inl (by simp [hzero])
      · exact Or.inr (hrestored (Nat.ne_of_gt hpos))
    · rw [hother hqp]
      exact h.emits q hq id
  · by_cases hnp : n = p
    · subst hnp
      exact Or.inl (by simp)
    · rw [hother hnp]
      by_cases hqp : q = p
      · subst hqp
        obtain ⟨d', hstep', -⟩ := carries_iff.mp hcarries
        by_cases hd' : d' = d.opposite
        · -- the source of the wave spreads what it kept
          have hat : n = entry.blockPos := by rw [hstep', hd', hback]
          subst hat
          rcases Nat.eq_zero_or_pos (levels entry.blockPos) with hzero | hpos
          · exact Or.inl (by simp [hzero])
          · obtain ⟨next, hnext, hnextAt, hall, hplain, hlevel⟩ := hsource.spreads hpos
            refine Or.inr (Or.inl ⟨next, hnext, hnextAt, ⟨d, hall d, hstep⟩, ?_, by simp [hplain]⟩)
            rwa [hother hnp]
        · exact Or.inr (Or.inr ⟨wave, hwave, rfl, d', allExceptOpposite_mem hd', hstep'⟩)
      · rw [hother hqp]
        rcases h.spreads n q hn hq id id hcarries hpending with hdone | ⟨next, hnext, hcovers⟩ | ⟨next, hnext, hrecalls⟩
        · exact Or.inl hdone
        · refine Or.inr (Or.inl ⟨next, hnext, hcovers.pos, hcovers.directed, ?_, ?_⟩)
          · rw [hother hnp]
            exact hcovers.level
          · rw [hother hnp]
            exact hcovers.recheck
        · exact Or.inr (Or.inr ⟨next, List.mem_append_left _ hnext, hrecalls⟩)
  · rcases List.mem_append.mp hnext with hold | hnew
    · have hs := (h.sources next hold).1
      refine ⟨⟨hs.inside, hs.level_le, ?_, fun hpos => ?_⟩, id⟩
      · by_cases hat : next.blockPos = p
        · rw [hat, hself]
          exact Nat.zero_le _
        · rw [hother hat]
          exact hs.emission
      · have hat : next.blockPos ≠ p := fun hat => by simp [hat] at hpos
        rw [hother hat] at hpos ⊢
        exact hs.spreads hpos
    · obtain rfl := List.mem_singleton.mp hnew
      exact ⟨⟨hp, hbound, by simp [wave], fun hpos => by simp [wave] at hpos⟩, id⟩

/-! ## The pass -/

theorem decreaseNeighbor_waves {e : LightEdit} {d : LightAxisDirection} {ds : LightDirectionSet}
    (h : w.Waves pending e.levels e.increase (rest entry (d :: ds) :: e.decrease)) :
    w.Waves pending (w.decreaseNeighbor entry e d).levels (w.decreaseNeighbor entry e d).increase
      (rest entry ds :: (w.decreaseNeighbor entry e d).decrease) := by
  unfold decreaseNeighbor
  dsimp only
  set p := entry.blockPos.step d with hp
  split
  next houtside =>
    have hno : ¬ w.layout.inside p := fun hinside => by
      simp [hinside, LightCacheLayout.cached_of_inside hinside] at houtside
    exact h.advance (fun hinside => absurd hinside hno) fun hinside => absurd hinside hno
  next hinside =>
    have hinside : w.layout.inside p := by
      by_contra hno
      simp [hno] at hinside
    have hget : e.get w.layout p = e.levels p := if_pos hinside
    rw [hget]
    split
    next hzero =>
      refine h.advance (fun _ hpos => ?_) fun _ _ => Or.inl ?_
      · rw [← hp, hzero] at hpos
        exact absurd hpos (Nat.lt_irrefl 0)
      · rw [← hp, hzero]
        exact Nat.zero_le _
    next hlit =>
      rw [targetLevel_decrease]
      by_cases hopen : BlockStates.Opens (w.sourceState entry) (w.getBlockState p) d
      · rw [if_pos hopen]
        dsimp only
        split
        next hbrighter =>
          -- the neighbour is brighter than the wave: it will spread again
          rw [LightEdit.enqueueIncrease, if_pos (LightCacheLayout.encodes_of_inside hinside)]
          have hvalid : w.Valid (fun _ => 0)
              ⟨p, e.levels p, LightAxisDirection.all, { w.shapeFlags p with recheckLevel := true }⟩ :=
            ⟨hinside, shapeFlags_informed p _ _ _ _, h.bounded p hinside, by simp, by simp⟩
          refine Waves.advance (d := d) (h.enqueue (by simpa using hvalid)) (fun _ _ _ => ?_) fun _ hcarries => ?_
          · rw [← hp]
            change entry.level < e.levels p + w.opacity p
            omega
          · obtain ⟨d', hstep, -⟩ := hcarries
            exact Or.inr ⟨_, List.mem_append_right _ (List.mem_singleton.mpr rfl), rfl, ⟨d', by simp, hstep⟩,
              Nat.le_refl _, fun _ => rfl⟩
        next hdimmer =>
          have hlevel : e.levels p ≤ entry.level - w.opacity p := Nat.not_lt.mp hdimmer
          have hbound : entry.level - w.opacity p ≤ maxLightLevel := (Nat.sub_le _ _).trans h.source.level_le
          -- the queue with the entry that restores an emission
          obtain ⟨increase', hqueue, hwaves, hrestored⟩ : ∃ increase',
              (if w.emission p ≠ 0 then e.enqueueIncrease w.layout
                ⟨p, w.emission p, LightAxisDirection.all, { w.shapeFlags p with writeLevel := true }⟩ else e) =
                  ⟨e.levels, increase', e.decrease⟩ ∧
                w.Waves pending e.levels increase' (rest entry (d :: ds) :: e.decrease) ∧
                  (w.emission p ≠ 0 → ∃ next ∈ increase', next.Restores p) := by
            by_cases hemission : w.emission p = 0
            · exact ⟨e.increase, by simp [hemission], h, fun hno => absurd hemission hno⟩
            · rw [if_pos hemission, LightEdit.enqueueIncrease, if_pos (LightCacheLayout.encodes_of_inside hinside)]
              refine ⟨_, rfl, h.enqueue ?_, fun _ => ⟨_, List.mem_append_right _ (List.mem_singleton.mpr rfl), ?_⟩⟩
              · rintro next hnext
                obtain rfl := List.mem_singleton.mp hnext
                exact ⟨hinside, shapeFlags_informed p _ _ _ _, emission_le p, fun _ => Nat.le_max_right _ _,
                  fun _ _ => ⟨rfl, by simp⟩⟩
              · exact ⟨rfl, rfl, rfl⟩
          rw [hqueue]
          have hset : (⟨e.levels, increase', e.decrease⟩ : LightEdit).set w.layout p 0 =
              ⟨Function.update e.levels p 0, increase', e.decrease⟩ := if_pos hinside
          have htarget : entry.level - w.opacity p > 0 := by omega
          rw [hset, if_pos htarget, LightEdit.enqueueDecrease, if_pos (LightCacheLayout.encodes_of_inside hinside)]
          have hcleared := hwaves.clear List.mem_cons_self hinside hp hlevel hbound hrestored
          refine Waves.advance (d := d) hcleared (fun _ hpos => ?_) fun _ _ => Or.inl ?_
          · rw [← hp] at hpos
            simp at hpos
          · rw [← hp]
            simp
      · rw [if_neg hopen]
        refine h.advance (fun _ _ hopen' => absurd hopen' hopen) fun _ hcarries => ?_
        -- a face that stops the wave stops the light that comes back
        obtain ⟨d', hstep, hopen'⟩ := carries_iff.mp hcarries
        obtain rfl := BlockPos.step_inj (hp.symm.trans (hp.trans hstep))
        exact absurd (opens_sourceState (BlockStates.opens_symm.mpr hopen')) hopen

theorem foldl_decreaseNeighbor_waves (ds : LightDirectionSet) {e : LightEdit}
    (h : w.Waves pending e.levels e.increase (rest entry ds :: e.decrease)) :
    w.Waves pending (ds.foldl (w.decreaseNeighbor entry) e).levels (ds.foldl (w.decreaseNeighbor entry) e).increase
      (ds.foldl (w.decreaseNeighbor entry) e).decrease := by
  induction ds generalizing e with
  | nil => exact h.finish
  | cons d ds ih => exact ih (decreaseNeighbor_waves h)

theorem decreaseStep_waves {e e' : LightEdit} (h : w.Waves pending e.levels e.increase e.decrease)
    (hstep : w.decreaseStep e = some e') : w.Waves pending e'.levels e'.increase e'.decrease := by
  unfold decreaseStep at hstep
  split at hstep
  next => cases hstep
  next entry queue hqueue =>
    rw [hqueue] at h
    simp only [LightCacheLayout.cached_of_inside h.source.inside, if_true] at hstep
    cases hstep
    exact foldl_decreaseNeighbor_waves _ h.start

theorem decreaseStep_none {e : LightEdit} (h : w.decreaseStep e = none) : e.decrease = [] := by
  unfold decreaseStep at h
  split at h
  next hnil => exact hnil
  next =>
    dsimp only at h
    split at h <;> simp at h

theorem Reaches.waves {e e' : LightEdit} (h : w.Waves pending e.levels e.increase e.decrease)
    (hreaches : Reaches w.decreaseStep e e') : w.Waves pending e'.levels e'.increase e'.decrease :=
  hreaches.invariant (C := fun _ => True) (I := fun u => w.Waves pending u.levels u.increase u.decrease) h
    (fun _ _ => trivial) fun _ _ hu _ hstep => decreaseStep_waves hu hstep

end LightWindow

end Foton.Light
