import Foton.Light.Field

/-!
# The increase pass

While the increase queue is drained, every level is supported by an emission or
by a neighbour, and what is still too low waits for an entry: one at the
neighbour that would raise it, or one that writes the emission of the position
itself.
-/

namespace Foton.Light

/-- The entry will take the level of `n` to its neighbour `p`. -/
structure LightQueueEntry.Covers (entry : LightQueueEntry) (levels : BlockPos → Nat) (n p : BlockPos) : Prop where
  pos : entry.blockPos = n
  directed : ∃ d ∈ entry.directions, p = n.step d
  level : levels n ≤ entry.level
  recheck : entry.flags.recheckLevel → entry.level = levels n

/-- The entry will write the emission of `p`. -/
structure LightQueueEntry.Restores (entry : LightQueueEntry) (p : BlockPos) : Prop where
  pos : entry.blockPos = p
  write : entry.flags.writeLevel
  plain : entry.flags.recheckLevel = false

namespace LightWindow

variable {w : LightWindow} {pending : BlockPos → BlockPos → Prop} {levels : BlockPos → Nat}
  {queue : List LightQueueEntry} {entry : LightQueueEntry}

structure Valid (w : LightWindow) (levels : BlockPos → Nat) (entry : LightQueueEntry) : Prop where
  inside : w.layout.inside entry.blockPos
  informed : w.Informed entry
  level_le : entry.level ≤ maxLightLevel
  plain : entry.flags.recheckLevel = false → entry.level ≤ max (levels entry.blockPos) (w.emission entry.blockPos)
  write : entry.flags.writeLevel → entry.flags.recheckLevel = false → entry.level = w.emission entry.blockPos ∧
    ∀ d, d ∈ entry.directions

/-- Some emission or some neighbour accounts for the level. -/
def Supported (w : LightWindow) (levels : BlockPos → Nat) (p : BlockPos) (level : Nat) : Prop :=
  level ≤ w.emission p ∨
    ∃ n, w.layout.inside n ∧ w.medium.carries n p ∧ level + w.opacity p ≤ max (levels n) (w.emission n)

/-- The invariant, except for the pairs that are yet to be looked at. -/
structure Rising (w : LightWindow) (pending : BlockPos → BlockPos → Prop) (levels : BlockPos → Nat)
    (queue : List LightQueueEntry) : Prop where
  bounded : ∀ p, w.layout.inside p → levels p ≤ maxLightLevel
  valid : ∀ entry ∈ queue, w.Valid levels entry
  supported : ∀ p, w.layout.inside p → 0 < levels p → w.Supported levels p (levels p)
  emits : ∀ p, w.layout.inside p → w.emission p ≤ levels p ∨ ∃ entry ∈ queue, entry.Restores p
  spreads : ∀ n p, w.layout.inside n → w.layout.inside p → w.medium.carries n p → ¬ pending n p →
    levels n ≤ levels p + w.opacity p ∨ (∃ entry ∈ queue, entry.Covers levels n p) ∨
      ((∃ entry ∈ queue, entry.Restores p) ∧ levels n ≤ w.emission p + w.opacity p)

theorem Rising.solves (h : w.Rising (fun _ _ => False) levels []) : w.LightEquation w.layout.inside levels := by
  have hemits : ∀ p, w.layout.inside p → w.emission p ≤ levels p := fun p hp => by simpa using h.emits p hp
  refine lightEquation_iff.mpr ⟨hemits, fun n hn p hp hcarries => ?_, fun p hp => ?_⟩
  · simpa using h.spreads n p hn hp hcarries (by simp)
  · rcases Nat.eq_zero_or_pos (levels p) with hzero | hpos
    · exact Or.inl (hzero ▸ Nat.zero_le _)
    · rcases h.supported p hp hpos with hemission | ⟨n, hn, hcarries, hlevel⟩
      · exact Or.inl hemission
      · rw [Nat.max_eq_left (hemits n hn)] at hlevel
        exact Or.inr ⟨n, hn, hcarries, hlevel⟩

theorem Supported.mono {levels' : BlockPos → Nat} {p : BlockPos} {level : Nat} (h : w.Supported levels p level)
    (hle : ∀ n, levels n ≤ levels' n) : w.Supported levels' p level :=
  h.imp id fun ⟨n, hn, hcarries, hlevel⟩ => ⟨n, hn, hcarries, hlevel.trans (max_le_max_right _ (hle n))⟩

theorem le_update {p : BlockPos} {level : Nat} (h : levels p ≤ level) (q : BlockPos) :
    levels q ≤ Function.update levels p level q := by
  by_cases hq : q = p
  · subst hq
    simpa using h
  · simp [hq]

theorem Rising.raise (h : w.Rising pending levels queue) {p : BlockPos} {level : Nat} (hle : levels p ≤ level)
    (hbound : level ≤ maxLightLevel) (hsupported : w.Supported levels p level) (new : List LightQueueEntry)
    (hvalid : ∀ entry ∈ new, w.Valid (Function.update levels p level) entry)
    (hcovered : ∀ q, w.layout.inside q → w.medium.carries p q →
      level ≤ levels q + w.opacity q ∨ (∃ entry ∈ queue ++ new, entry.Covers (Function.update levels p level) p q) ∨
        ((∃ entry ∈ queue, entry.Restores q) ∧ level ≤ w.emission q + w.opacity q)) :
    w.Rising pending (Function.update levels p level) (queue ++ new) := by
  have hmono := le_update (p := p) hle
  refine ⟨fun q hq => ?_, fun entry hentry => ?_, fun q hq hpos => ?_, fun q hq => ?_,
    fun n q hn hq hcarries hpending => ?_⟩
  · by_cases hqp : q = p
    · simpa [hqp] using hbound
    · simpa [hqp] using h.bounded q hq
  · rcases List.mem_append.mp hentry with hold | hnew
    · have hv := h.valid entry hold
      exact { hv with plain := fun hplain => (hv.plain hplain).trans (max_le_max_right _ (hmono _)) }
    · exact hvalid entry hnew
  · by_cases hqp : q = p
    · subst hqp
      simpa using hsupported.mono hmono
    · simp only [Function.update_of_ne hqp] at hpos ⊢
      exact (h.supported q hq hpos).mono hmono
  · rcases h.emits q hq with hemits | ⟨entry, hentry, hrestores⟩
    · exact Or.inl (hemits.trans (hmono q))
    · exact Or.inr ⟨entry, List.mem_append_left _ hentry, hrestores⟩
  · by_cases hnp : n = p
    · subst hnp
      have hqn : q ≠ n := by
        obtain ⟨d, rfl, -⟩ := hcarries
        exact n.step_ne d
      rw [Function.update_self, Function.update_of_ne hqn]
      refine (hcovered q hq hcarries).imp id (Or.imp id ?_)
      rintro ⟨⟨entry, hentry, hrestores⟩, hlevel⟩
      exact ⟨⟨entry, List.mem_append_left _ hentry, hrestores⟩, hlevel⟩
    · rw [Function.update_of_ne hnp]
      rcases h.spreads n q hn hq hcarries hpending with hdone | ⟨entry, hentry, hcovers⟩ | ⟨⟨entry, hentry, hrestores⟩, hlevel⟩
      · exact Or.inl (hdone.trans (Nat.add_le_add_right (hmono q) _))
      · refine Or.inr (Or.inl ⟨entry, List.mem_append_left _ hentry, hcovers.pos, hcovers.directed, ?_, ?_⟩)
        · simpa [Function.update_of_ne hnp] using hcovers.level
        · simpa [Function.update_of_ne hnp] using hcovers.recheck
      · exact Or.inr (Or.inr ⟨⟨entry, List.mem_append_left _ hentry, hrestores⟩, hlevel⟩)

/-! ## One entry -/

/-- What is left of an entry that is being spread. -/
def rest (entry : LightQueueEntry) (directions : LightDirectionSet) : LightQueueEntry :=
  ⟨entry.blockPos, entry.level, directions, { entry.flags with writeLevel := false, recheckLevel := false }⟩

theorem not_restores_rest {directions : LightDirectionSet} {p : BlockPos} : ¬ (rest entry directions).Restores p :=
  fun h => by simpa [rest] using h.write

theorem Rising.requeue (h : w.Rising pending levels queue) {queue' : List LightQueueEntry}
    (hvalid : ∀ entry ∈ queue', w.Valid levels entry)
    (hrestores : ∀ entry ∈ queue, ∀ p, entry.Restores p → w.emission p ≤ levels p ∨ ∃ entry ∈ queue', entry.Restores p)
    (hcovers : ∀ entry ∈ queue, ∀ n p, w.layout.inside p → w.medium.carries n p → entry.Covers levels n p →
      levels n ≤ levels p + w.opacity p ∨ ∃ entry ∈ queue', entry.Covers levels n p) :
    w.Rising pending levels queue' := by
  refine ⟨h.bounded, hvalid, h.supported, fun p hp => ?_, fun n p hn hp hcarries hpending => ?_⟩
  · rcases h.emits p hp with hemits | ⟨entry, hentry, hrestore⟩
    · exact Or.inl hemits
    · exact hrestores entry hentry p hrestore
  · rcases h.spreads n p hn hp hcarries hpending with hdone | ⟨entry, hentry, hcover⟩ | ⟨⟨entry, hentry, hrestore⟩, hlevel⟩
    · exact Or.inl hdone
    · exact (hcovers entry hentry n p hp hcarries hcover).imp id Or.inl
    · rcases hrestores entry hentry p hrestore with hemits | hkept
      · exact Or.inl (hlevel.trans (Nat.add_le_add_right hemits _))
      · exact Or.inr (Or.inr ⟨hkept, hlevel⟩)

theorem Rising.advance {d : LightAxisDirection} {ds : LightDirectionSet}
    (h : w.Rising pending levels (rest entry (d :: ds) :: queue))
    (hdone : w.layout.inside (entry.blockPos.step d) → w.medium.carries entry.blockPos (entry.blockPos.step d) →
      levels entry.blockPos ≤ entry.level →
      levels entry.blockPos ≤ levels (entry.blockPos.step d) + w.opacity (entry.blockPos.step d)) :
    w.Rising pending levels (rest entry ds :: queue) := by
  refine h.requeue ?_ ?_ ?_
  · rintro next (_ | ⟨_, hnext⟩)
    · have hv := h.valid _ List.mem_cons_self
      exact { hv with write := fun hwrite => by simp [rest] at hwrite }
    · exact h.valid next (List.mem_cons_of_mem _ hnext)
  · rintro next (_ | ⟨_, hnext⟩) p hrestores
    · exact absurd hrestores not_restores_rest
    · exact Or.inr ⟨next, List.mem_cons_of_mem _ hnext, hrestores⟩
  · rintro next (_ | ⟨_, hnext⟩) n p hp hcarries hcovers
    · obtain ⟨d', hd', hstep⟩ := hcovers.directed
      have hpos : entry.blockPos = n := hcovers.pos
      subst hpos hstep
      rcases List.mem_cons.mp hd' with rfl | hd'
      · exact Or.inl (hdone hp hcarries hcovers.level)
      · exact Or.inr ⟨_, List.mem_cons_self, rfl, ⟨d', hd', rfl⟩, hcovers.level, by simp [rest]⟩
    · exact Or.inr ⟨next, List.mem_cons_of_mem _ hnext, hcovers⟩

theorem Rising.finish (h : w.Rising pending levels (rest entry [] :: queue)) : w.Rising pending levels queue := by
  refine h.requeue (fun next hnext => h.valid next (List.mem_cons_of_mem _ hnext)) ?_ ?_
  · rintro next (_ | ⟨_, hnext⟩) p hrestores
    · exact absurd hrestores not_restores_rest
    · exact Or.inr ⟨next, hnext, hrestores⟩
  · rintro next (_ | ⟨_, hnext⟩) n p - - hcovers
    · obtain ⟨d, hd, -⟩ := hcovers.directed
      simp [rest] at hd
    · exact Or.inr ⟨next, hnext, hcovers⟩

theorem Rising.drop (h : w.Rising pending levels (entry :: queue)) (hrecheck : entry.flags.recheckLevel = true)
    (hlevel : levels entry.blockPos ≠ entry.level) : w.Rising pending levels queue := by
  refine h.requeue (fun next hnext => h.valid next (List.mem_cons_of_mem _ hnext)) ?_ ?_
  · rintro next (_ | ⟨_, hnext⟩) p hrestores
    · exact absurd hrestores.plain (by simp [hrecheck])
    · exact Or.inr ⟨next, hnext, hrestores⟩
  · rintro next (_ | ⟨_, hnext⟩) n p - - hcovers
    · refine absurd ?_ hlevel
      rw [hcovers.pos, hcovers.recheck hrecheck]
    · exact Or.inr ⟨next, hnext, hcovers⟩

theorem Rising.start (h : w.Rising pending levels (entry :: queue))
    (hlevel : entry.flags.recheckLevel = true → levels entry.blockPos = entry.level)
    (hwrite : entry.flags.recheckLevel = true ∨ entry.flags.writeLevel = false) :
    w.Rising pending levels (rest entry entry.directions :: queue) := by
  have hv := h.valid entry List.mem_cons_self
  refine h.requeue ?_ ?_ ?_
  · rintro next (_ | ⟨_, hnext⟩)
    · refine ⟨hv.inside, hv.informed, hv.level_le, fun _ => ?_, fun hwrite => by simp [rest] at hwrite⟩
      cases hrecheck : entry.flags.recheckLevel with
      | false => exact hv.plain hrecheck
      | true => exact (Nat.le_of_eq (hlevel hrecheck).symm).trans (Nat.le_max_left _ _)
    · exact h.valid next (List.mem_cons_of_mem _ hnext)
  · rintro next (_ | ⟨_, hnext⟩) p hrestores
    · have hplain := hrestores.plain
      have hwrites := hrestores.write
      simp_all
    · exact Or.inr ⟨next, List.mem_cons_of_mem _ hnext, hrestores⟩
  · rintro next (_ | ⟨_, hnext⟩) n p - - hcovers
    · exact Or.inr ⟨_, List.mem_cons_self, hcovers.pos, hcovers.directed, hcovers.level, by simp [rest]⟩
    · exact Or.inr ⟨next, List.mem_cons_of_mem _ hnext, hcovers⟩

/-- A source is restored, where its position is not above it, and begins to spread. -/
theorem Rising.restore (h : w.Rising pending levels (entry :: queue)) (hrecheck : entry.flags.recheckLevel = false)
    (hwrite : entry.flags.writeLevel) (hupward : levels entry.blockPos ≤ entry.level) :
    w.Rising pending (Function.update levels entry.blockPos entry.level) (rest entry entry.directions :: queue) := by
  have hv := h.valid entry List.mem_cons_self
  obtain ⟨hemission, hall⟩ := hv.write hwrite hrecheck
  have hraised : w.Rising pending (Function.update levels entry.blockPos entry.level) ((entry :: queue) ++ []) := by
    refine h.raise hupward hv.level_le (Or.inl (Nat.le_of_eq hemission)) [] (by simp) fun q hq hcarries => ?_
    obtain ⟨d, rfl, -⟩ := hcarries
    refine Or.inr (Or.inl ⟨entry, by simp, rfl, ⟨d, hall d, rfl⟩, by simp, by simp [hrecheck]⟩)
  rw [List.append_nil] at hraised
  refine hraised.requeue ?_ ?_ ?_
  · rintro next (_ | ⟨_, hnext⟩)
    · have hv' := hraised.valid entry List.mem_cons_self
      exact ⟨hv'.inside, hv'.informed, hv'.level_le, fun _ => hv'.plain hrecheck, fun hwrite => by simp [rest] at hwrite⟩
    · exact hraised.valid next (List.mem_cons_of_mem _ hnext)
  · rintro next (_ | ⟨_, hnext⟩) p hrestores
    · rw [← hrestores.pos]
      simp [hemission]
    · exact Or.inr ⟨next, List.mem_cons_of_mem _ hnext, hrestores⟩
  · rintro next (_ | ⟨_, hnext⟩) n p - - hcovers
    · exact Or.inr ⟨_, List.mem_cons_self, hcovers.pos, hcovers.directed, hcovers.level, by simp [rest]⟩
    · exact Or.inr ⟨next, List.mem_cons_of_mem _ hnext, hcovers⟩

/-! ## The pass -/

theorem allExceptOpposite_mem {d d' : LightAxisDirection} (h : d' ≠ d.opposite) :
    d' ∈ LightDirectionSet.allExceptOpposite d := by
  simp [LightDirectionSet.allExceptOpposite, h]

theorem opacity_pos (p : BlockPos) : 0 < w.opacity p := BlockStates.lightOpacity_pos _

theorem increaseNeighbor_rising (hinformed : w.Informed entry) {e : LightEdit} {d : LightAxisDirection}
    {ds : LightDirectionSet} (h : w.Rising pending e.levels (rest entry (d :: ds) :: e.increase)) :
    w.Rising pending (w.increaseNeighbor entry e d).levels (rest entry ds :: (w.increaseNeighbor entry e d).increase) ∧
      (w.increaseNeighbor entry e d).decrease = e.decrease := by
  unfold increaseNeighbor
  dsimp only
  set p := entry.blockPos.step d with hp
  split
  next houtside =>
    refine ⟨h.advance fun hinside _ _ => ?_, rfl⟩
    rw [← hp] at hinside
    simp [hinside, LightCacheLayout.cached_of_inside hinside] at houtside
  next hinside =>
    have hinside : w.layout.inside p := by
      by_contra hno
      simp [hno] at hinside
    have hget : e.get w.layout p = e.levels p := if_pos hinside
    rw [hget]
    have hopacity := opacity_pos (w := w) p
    split
    next hhigh =>
      refine ⟨h.advance fun _ _ hlevel => ?_, rfl⟩
      rw [← hp]
      omega
    next hlow =>
      rw [targetLevel_increase]
      by_cases htarget : BlockStates.Opens (w.sourceState entry) (w.getBlockState p) d ∧ w.opacity p < entry.level
      · rw [if_pos htarget]
        dsimp only
        split
        next hkept =>
          refine ⟨h.advance fun _ _ hlevel => ?_, rfl⟩
          rw [← hp]
          omega
        next hraised =>
          -- the neighbour is raised, and an entry takes its new level on
          have hcarries : w.medium.carries entry.blockPos p := ⟨d, hp, (hinformed.opens_iff _ _).mp htarget.1⟩
          have hactive := h.valid _ List.mem_cons_self
          have hsource : entry.level ≤ max (e.levels entry.blockPos) (w.emission entry.blockPos) := hactive.plain rfl
          have hset : e.set w.layout p (entry.level - w.opacity p) =
              { e with levels := Function.update e.levels p (entry.level - w.opacity p) } := if_pos hinside
          rw [hset]
          have hback : p.step d.opposite = entry.blockPos := by simp [hp]
          have hsupported : w.Supported e.levels p (entry.level - w.opacity p) :=
            Or.inr ⟨entry.blockPos, hactive.inside, hcarries, by omega⟩
          have hbound : entry.level - w.opacity p ≤ maxLightLevel := (Nat.sub_le _ _).trans hactive.level_le
          have hreturn : entry.level - w.opacity p ≤ e.levels entry.blockPos + w.opacity entry.blockPos ∨
              ((∃ next ∈ rest entry (d :: ds) :: e.increase, next.Restores entry.blockPos) ∧
                entry.level - w.opacity p ≤ w.emission entry.blockPos + w.opacity entry.blockPos) := by
            rcases h.emits entry.blockPos hactive.inside with hemits | hrestores
            · left
              omega
            · rcases Nat.lt_or_ge (e.levels entry.blockPos) entry.level with hlt | hge
              · exact Or.inr ⟨hrestores, by omega⟩
              · left
                omega
          have hne : entry.blockPos ≠ p := fun heq => entry.blockPos.step_ne d (hp ▸ heq.symm)
          split
          next hspread =>
            rw [LightEdit.enqueueIncrease, if_pos (LightCacheLayout.encodes_of_inside hinside)]
            refine ⟨Rising.advance (d := d) ?_ fun _ _ hlevel => ?_, rfl⟩
            · refine h.raise (by omega) hbound hsupported [_] (fun next hnext => ?_) fun q hq hpq => ?_
              · obtain rfl := List.mem_singleton.mp hnext
                refine ⟨hinside, shapeFlags_informed p _ _ _ _, hbound, fun _ => ?_, fun hwrite => ?_⟩
                · simp
                · simp [shapeFlags] at hwrite
              · obtain ⟨d', rfl, -⟩ := hpq
                by_cases hd' : d' = d.opposite
                · subst hd'
                  rw [hback]
                  exact hreturn.imp id Or.inr
                · refine Or.inr (Or.inl ⟨_, List.mem_append_right _ (List.mem_singleton.mpr rfl), rfl,
                    ⟨d', allExceptOpposite_mem hd', rfl⟩, by simp, by simp [shapeFlags]⟩)
            · rw [← hp]
              simp only [Function.update_of_ne hne] at hlevel ⊢
              rw [Function.update_self]
              omega
          next hsmall =>
            refine ⟨Rising.advance (d := d) ?_ fun _ _ hlevel => ?_, rfl⟩
            · have hraised := h.raise (by omega) hbound hsupported [] (by simp) fun q _ _ => Or.inl (by
                have := opacity_pos (w := w) q
                omega)
              simpa using hraised
            · rw [← hp]
              simp only [Function.update_of_ne hne] at hlevel ⊢
              rw [Function.update_self]
              omega
      · rw [if_neg htarget]
        refine ⟨h.advance fun _ hcarries hlevel => ?_, rfl⟩
        rw [← hp] at hcarries ⊢
        obtain ⟨d', hstep, hopen⟩ := hcarries
        obtain rfl := BlockPos.step_inj (hp.symm.trans hstep)
        have hlow : ¬ w.opacity p < entry.level := fun hlt => htarget ⟨(hinformed.opens_iff _ _).mpr hopen, hlt⟩
        omega

theorem foldl_increaseNeighbor_rising (hinformed : w.Informed entry) (ds : LightDirectionSet) {e : LightEdit}
    (h : w.Rising pending e.levels (rest entry ds :: e.increase)) :
    w.Rising pending (ds.foldl (w.increaseNeighbor entry) e).levels (ds.foldl (w.increaseNeighbor entry) e).increase ∧
      (ds.foldl (w.increaseNeighbor entry) e).decrease = e.decrease := by
  induction ds generalizing e with
  | nil => exact ⟨h.finish, rfl⟩
  | cons d ds ih =>
    obtain ⟨hnext, hdecrease⟩ := increaseNeighbor_rising hinformed h
    obtain ⟨hlast, hrest⟩ := ih hnext
    exact ⟨hlast, hrest.trans hdecrease⟩

/-- A source that is restored is not above its emission. -/
def Upward (e : LightEdit) : Prop :=
  ∀ entry rest, e.increase = entry :: rest → entry.flags.writeLevel → e.levels entry.blockPos ≤ entry.level

theorem increaseStep_rising {e e' : LightEdit} (h : w.Rising pending e.levels e.increase) (hupward : Upward e)
    (hstep : w.increaseStep e = some e') : w.Rising pending e'.levels e'.increase ∧ e'.decrease = e.decrease := by
  unfold increaseStep at hstep
  split at hstep
  next => cases hstep
  next entry queue hqueue =>
    rw [hqueue] at h
    have hv := h.valid entry List.mem_cons_self
    have hget : ({ e with increase := queue } : LightEdit).get w.layout entry.blockPos = e.levels entry.blockPos :=
      if_pos hv.inside
    simp only [LightCacheLayout.cached_of_inside hv.inside, Bool.not_true, Bool.false_eq_true, if_false, hget] at hstep
    split at hstep
    next hstale =>
      cases hstep
      have hstale : entry.flags.recheckLevel = true ∧ e.levels entry.blockPos ≠ entry.level := by simpa using hstale
      exact ⟨h.drop hstale.1 hstale.2, rfl⟩
    next hfresh =>
      have hlevel : entry.flags.recheckLevel = true → e.levels entry.blockPos = entry.level := by simpa using hfresh
      have hset : ({ e with increase := queue } : LightEdit).set w.layout entry.blockPos entry.level =
          ⟨Function.update e.levels entry.blockPos entry.level, queue, e.decrease⟩ := if_pos hv.inside
      cases hstep
      split
      next hwrite =>
        rw [hset]
        have hwrite : entry.flags.recheckLevel = false ∧ entry.flags.writeLevel = true := by simpa using hwrite
        exact foldl_increaseNeighbor_rising hv.informed _
          (h.restore hwrite.1 hwrite.2 (hupward entry queue hqueue hwrite.2))
      next hplain =>
        refine foldl_increaseNeighbor_rising hv.informed _ (h.start hlevel ?_)
        cases hrecheck : entry.flags.recheckLevel with
        | true => exact Or.inl rfl
        | false => exact Or.inr (by simpa [hrecheck] using hplain)

theorem increaseStep_none {e : LightEdit} (h : w.increaseStep e = none) : e.increase = [] := by
  unfold increaseStep at h
  split at h
  next hnil => exact hnil
  next =>
    dsimp only at h
    split at h
    · simp at h
    · split at h <;> simp at h

theorem performLightIncrease_rising {e e' : LightEdit} {fuel : Nat} (h : w.Rising pending e.levels e.increase)
    (hupward : ∀ u, Reaches w.increaseStep e u → Upward u) (hrun : w.performLightIncrease fuel e = some e') :
    w.Rising pending e'.levels [] ∧ e'.increase = [] ∧ e'.decrease = e.decrease := by
  obtain ⟨hreaches, hlast⟩ := drain_reaches hrun
  have hinvariant : w.Rising pending e'.levels e'.increase ∧ e'.decrease = e.decrease := by
    refine hreaches.invariant (I := fun u => w.Rising pending u.levels u.increase ∧ u.decrease = e.decrease)
      ⟨h, rfl⟩ hupward fun u v hu hup hstep => ?_
    obtain ⟨hv, hdecrease⟩ := increaseStep_rising hu.1 hup hstep
    exact ⟨hv, hdecrease.trans hu.2⟩
  have hempty : e'.increase = [] := increaseStep_none hlast
  exact ⟨hempty ▸ hinvariant.1, hempty, hinvariant.2⟩

end LightWindow

end Foton.Light
