import Foton.Chunk.Readiness

/-!
# The phases of a commit

A contributor of the neighbourhood index is a loaded holder with a Full chunk, and
no holder is readier than its level and its neighbourhood allow. The phases keep
this between them because the contributors that a commit takes away, and the
holders that depend on them, go before the levels change.
-/

namespace Foton.Readiness

/-! ## The order of readiness -/

namespace TickingReadiness

theorem toNat_inj {r r' : TickingReadiness} (h : r.toNat = r'.toNat) : r = r' := by
  cases r <;> cases r' <;> first | rfl | cases h

theorem eq_unready_of_le {r : TickingReadiness} (h : r.toNat ≤ TickingReadiness.unready.toNat) : r = .unready :=
  toNat_inj (Nat.le_zero.mp h)

end TickingReadiness

/-- What the neighbourhood of a position allows. -/
def readyFor (counts : FullNeighborhoodCounts) : TickingReadiness :=
  if counts.entityTickingReady then .entityTicking
  else if counts.blockTickingReady then .blockTicking
  else .unready

section
variable {level : Option ChunkTicketLevel} {counts : FullNeighborhoodCounts} {r r' : TickingReadiness}

theorem blockTicking_of_entityTicking (h : level.any (·.isEntityTicking) = true) :
    level.any (·.isBlockTicking) = true := by
  cases level with
  | none => cases h
  | some l =>
    have hraw : l.raw ≤ maxSupportedViewDistance := decide_eq_true_iff.mp h
    exact decide_eq_true_iff.mpr (Nat.le_succ_of_le hraw)

/-- The target is the lesser of what the level and the neighbourhood allow. -/
theorem targetTickingReadiness_toNat {holder : Holder} (hfull : holder.hasFullChunk = true)
    (hmono : counts.entityTickingReady = true → counts.blockTickingReady = true) :
    (targetTickingReadiness holder level counts).toNat =
      min (desiredTickingReadiness level).toNat (readyFor counts).toNat := by
  unfold targetTickingReadiness desiredTickingReadiness readyFor
  have hlevel := @blockTicking_of_entityTicking level
  rw [hfull]
  by_cases he : level.any (·.isEntityTicking) = true <;> by_cases hb : level.any (·.isBlockTicking) = true <;>
    by_cases hce : counts.entityTickingReady = true <;> by_cases hcb : counts.blockTickingReady = true <;>
    simp_all [TickingReadiness.toNat]

theorem targetTickingReadiness_le {holder : Holder}
    (hmono : counts.entityTickingReady = true → counts.blockTickingReady = true) :
    (targetTickingReadiness holder level counts).toNat ≤ (desiredTickingReadiness level).toNat ∧
    (targetTickingReadiness holder level counts).toNat ≤ (readyFor counts).toNat := by
  by_cases hfull : holder.hasFullChunk = true
  · rw [targetTickingReadiness_toNat hfull hmono]
    exact ⟨Nat.min_le_left _ _, Nat.min_le_right _ _⟩
  · have hunready : targetTickingReadiness holder level counts = .unready := by
      unfold targetTickingReadiness
      rw [Bool.not_eq_true] at hfull
      rw [hfull]
      rfl
    rw [hunready]
    exact ⟨Nat.zero_le _, Nat.zero_le _⟩

end

/-! ## Transitions of candidates -/

namespace ChunkMap

def withReadiness (m : ChunkMap) (f : Nat → TickingReadiness) : ChunkMap :=
  { m with holders := fun id => { m.holders id with readiness := f id } }

def readinessOf (m : ChunkMap) (id : Nat) : TickingReadiness := (m.holders id).readiness

def membershipOf (m : ChunkMap) (id : Nat) : Bool × Bool × Bool :=
  tickingSnapshotMembership (m.holders id).readiness (m.holders id).simulationLevel

theorem transitionTickingReadiness_eq (m : ChunkMap) (id : Nat) (target : TickingReadiness) :
    m.transitionTickingReadiness id target =
      m.withReadiness fun other => if other = id then target else m.readinessOf other := by
  unfold transitionTickingReadiness setHolder withReadiness readinessOf
  congr 1
  funext other
  by_cases heq : other = id
  · simp [heq]
  · simp [heq]

/-- Transitions that went to targets of candidates, and what the flag says of them. -/
structure Moved (candidates : List TickingReadinessCandidate) (s s' : ChunkMap × Bool) : Prop where
  frame : s'.1 = s.1.withReadiness s'.1.readinessOf
  moved : ∀ id, s'.1.readinessOf id = s.1.readinessOf id ∨
    ∃ c ∈ candidates, c.holder = id ∧ s'.1.readinessOf id = c.target
  flag : s'.2 = false → s.2 = false ∧ ∀ id, s'.1.membershipOf id = s.1.membershipOf id

namespace Moved

variable {candidates : List TickingReadinessCandidate} {s s' s'' : ChunkMap × Bool} {c : TickingReadinessCandidate}

theorem refl : Moved candidates s s where
  frame := rfl
  moved _ := .inl rfl
  flag h := ⟨h, fun _ => rfl⟩

theorem holders (h : Moved candidates s s') (id : Nat) :
    s'.1.holders id = { s.1.holders id with readiness := s'.1.readinessOf id } := by
  have hframe := congrArg (fun m => m.holders id) h.frame
  exact hframe

theorem cons (h : Moved [c] s s') (h' : Moved candidates s' s'') : Moved (c :: candidates) s s'' where
  frame := by
    rw [h'.frame, h.frame]
    rfl
  moved id := by
    obtain hsame | ⟨c', hc', hid, htarget⟩ := h'.moved id
    · obtain hsame' | ⟨c', hc', hid, htarget⟩ := h.moved id
      · exact .inl (hsame.trans hsame')
      · refine .inr ⟨c', ?_, hid, hsame.trans htarget⟩
        rw [List.mem_singleton.mp hc']
        exact List.mem_cons_self
    · exact .inr ⟨c', List.mem_cons_of_mem _ hc', hid, htarget⟩
  flag hflag := by
    obtain ⟨hflag', hsame'⟩ := h'.flag hflag
    obtain ⟨hflag'', hsame''⟩ := h.flag hflag'
    exact ⟨hflag'', fun id => (hsame' id).trans (hsame'' id)⟩

theorem transition : Moved [c] s (s.1.transitionTickingReadiness c.holder c.target,
    s.2 || s.1.transitionChangesSnapshot c.holder c.target) where
  frame := by
    rw [transitionTickingReadiness_eq]
    rfl
  moved id := by
    rw [transitionTickingReadiness_eq]
    by_cases hid : id = c.holder
    · refine .inr ⟨c, List.mem_singleton_self c, hid.symm, ?_⟩
      simp [readinessOf, withReadiness, hid]
    · exact .inl (by simp [readinessOf, withReadiness, hid])
  flag hflag := by
    obtain ⟨hflag', hsame⟩ := Bool.or_eq_false_iff.mp hflag
    refine ⟨hflag', fun id => ?_⟩
    rw [transitionTickingReadiness_eq]
    unfold transitionChangesSnapshot at hsame
    rw [bne_eq_false_iff_eq] at hsame
    by_cases hid : id = c.holder
    · subst hid
      simp [membershipOf, withReadiness, hsame]
    · simp [membershipOf, withReadiness, readinessOf, hid]

end Moved

theorem applyDemotion_spec (s : ChunkMap × Bool) (c : TickingReadinessCandidate) :
    Moved [c] s (applyDemotion s c) ∧ (∀ id, ((applyDemotion s c).1.readinessOf id).toNat ≤ (s.1.readinessOf id).toNat) ∧
      ((applyDemotion s c).1.readinessOf c.holder).toNat ≤ c.target.toNat := by
  unfold applyDemotion
  split
  · rename_i hle
    exact ⟨.refl, fun _ => Nat.le_refl _, hle⟩
  · rename_i hlt
    refine ⟨.transition, fun id => ?_, ?_⟩
    · rw [transitionTickingReadiness_eq]
      by_cases hid : id = c.holder
      · subst hid
        simp only [readinessOf, withReadiness, if_true]
        omega
      · simp [readinessOf, withReadiness, hid]
    · rw [transitionTickingReadiness_eq]
      simp [readinessOf, withReadiness]

theorem foldl_applyDemotion (candidates : List TickingReadinessCandidate) (s : ChunkMap × Bool) :
    Moved candidates s (candidates.foldl applyDemotion s) ∧
      (∀ id, ((candidates.foldl applyDemotion s).1.readinessOf id).toNat ≤ (s.1.readinessOf id).toNat) ∧
      ∀ c ∈ candidates, ((candidates.foldl applyDemotion s).1.readinessOf c.holder).toNat ≤ c.target.toNat := by
  induction candidates generalizing s with
  | nil => exact ⟨.refl, fun _ => Nat.le_refl _, fun c hc => by cases hc⟩
  | cons c rest ih =>
    obtain ⟨hmoved, hle, htarget⟩ := applyDemotion_spec s c
    obtain ⟨hmoved', hle', htarget'⟩ := ih (applyDemotion s c)
    refine ⟨hmoved.cons hmoved', fun id => Nat.le_trans (hle' id) (hle id), fun c' hc' => ?_⟩
    obtain rfl | hc' := List.mem_cons.mp hc'
    · exact Nat.le_trans (hle' _) htarget
    · exact htarget' c' hc'

theorem applyPromotion_spec (fails : ChunkPos → Bool) (s : ChunkMap × Bool) (c : TickingReadinessCandidate) :
    Moved [c] s (applyPromotion fails s c) ∧
      (∀ id, (s.1.readinessOf id).toNat ≤ ((applyPromotion fails s c).1.readinessOf id).toNat) ∧
      (fails c.pos = false → c.target.toNat ≤ ((applyPromotion fails s c).1.readinessOf c.holder).toNat) := by
  unfold applyPromotion
  split
  · rename_i hle
    exact ⟨.refl, fun _ => Nat.le_refl _, fun _ => hle⟩
  · rename_i hlt
    split
    · rename_i hfails
      refine ⟨.refl, fun _ => Nat.le_refl _, fun hc => ?_⟩
      rw [hc, Bool.and_false] at hfails
      cases hfails
    · refine ⟨.transition, fun id => ?_, fun _ => ?_⟩
      · rw [transitionTickingReadiness_eq]
        by_cases hid : id = c.holder
        · subst hid
          simp only [readinessOf, withReadiness, if_true]
          omega
        · simp [readinessOf, withReadiness, hid]
      · rw [transitionTickingReadiness_eq]
        simp [readinessOf, withReadiness]

theorem foldl_applyPromotion (fails : ChunkPos → Bool) (candidates : List TickingReadinessCandidate)
    (s : ChunkMap × Bool) :
    Moved candidates s (candidates.foldl (applyPromotion fails) s) ∧
      (∀ id, (s.1.readinessOf id).toNat ≤ ((candidates.foldl (applyPromotion fails) s).1.readinessOf id).toNat) ∧
      ∀ c ∈ candidates, fails c.pos = false →
        c.target.toNat ≤ ((candidates.foldl (applyPromotion fails) s).1.readinessOf c.holder).toNat := by
  induction candidates generalizing s with
  | nil => exact ⟨.refl, fun _ => Nat.le_refl _, fun c hc => by cases hc⟩
  | cons c rest ih =>
    obtain ⟨hmoved, hle, htarget⟩ := applyPromotion_spec fails s c
    obtain ⟨hmoved', hle', htarget'⟩ := ih (applyPromotion fails s c)
    refine ⟨hmoved.cons hmoved', fun id => Nat.le_trans (hle id) (hle' id), fun c' hc' hfails => ?_⟩
    obtain rfl | hc' := List.mem_cons.mp hc'
    · exact Nat.le_trans (htarget hfails) (hle' _)
    · exact htarget' c' hc' hfails

end ChunkMap

/-! ## The invariant -/

namespace ChunkMap

structure Sound (m : ChunkMap) : Prop where
  loaded : ∀ {pos id}, m.chunks.lookup pos = some id →
    id < m.nextHolder ∧ (m.holders id).pos = pos ∧ (m.holders id).lifecycle = .active
  unloading : ∀ {pos id}, m.unloadingChunks.lookup pos = some id →
    id < m.nextHolder ∧ (m.holders id).pos = pos ∧ (m.holders id).lifecycle ≠ .active ∧ m.readinessOf id = .unready
  exact : m.fullNeighborhood.Exact
  contributors : ∀ {pos id}, m.fullNeighborhood.contributors.lookup pos = some id →
    m.chunks.lookup pos = some id ∧ (m.holders id).isFullContributor = true
  allowed : ∀ {pos id}, m.chunks.lookup pos = some id →
    (m.readinessOf id).toNat ≤ (desiredTickingReadiness (m.holders id).loadLevel).toNat ∧
    (m.readinessOf id).toNat ≤ (readyFor (m.fullNeighborhood.countsAt pos)).toNat

theorem sound_start : Sound start where
  loaded h := by cases h
  unloading h := by cases h
  exact := FullNeighborhoodIndex.exact_default
  contributors h := by cases h
  allowed h := by cases h

variable {m m' : ChunkMap}

theorem blockReady_of_entityReady {index : FullNeighborhoodIndex Nat} (h : index.Exact) {pos : ChunkPos}
    (hready : (index.countsAt pos).entityTickingReady = true) : (index.countsAt pos).blockTickingReady = true := by
  obtain ⟨hfits, hall⟩ := (h.full_iff (.inr rfl)).mp (beq_iff_eq.mp hready)
  exact beq_iff_eq.mpr ((h.full_iff (.inl rfl)).mpr ⟨hfits.mono (by omega), fun p hp => hall p (by omega)⟩)

theorem contributes_of_blockReady {index : FullNeighborhoodIndex Nat} (h : index.Exact) {pos p : ChunkPos}
    (hready : (index.countsAt pos).blockTickingReady = true) (hp : p.chebyshev pos ≤ 1) : index.contributes p = true :=
  ((h.full_iff (.inl rfl)).mp (beq_iff_eq.mp hready)).2 p hp

theorem readyFor_cases {counts : FullNeighborhoodCounts} {r : TickingReadiness} (h : r.toNat ≤ (readyFor counts).toNat) :
    r = .unready ∨ (r = .blockTicking ∧ (counts.entityTickingReady = true ∨ counts.blockTickingReady = true)) ∨
      (r = .entityTicking ∧ counts.entityTickingReady = true) := by
  unfold readyFor at h
  by_cases he : counts.entityTickingReady = true <;> by_cases hb : counts.blockTickingReady = true <;>
    cases r <;> simp_all [TickingReadiness.toNat]

/-- A holder that is not unready has itself as a contributor. -/
theorem Sound.contributor (h : Sound m) {pos : ChunkPos} {id : Nat} (hchunk : m.chunks.lookup pos = some id)
    (hready : readyFor (m.fullNeighborhood.countsAt pos) ≠ .unready) :
    m.fullNeighborhood.contributors.lookup pos = some id ∧ (m.holders id).isFullContributor = true := by
  have hblock : (m.fullNeighborhood.countsAt pos).blockTickingReady = true := by
    obtain hu | ⟨-, he | hb⟩ | ⟨-, he⟩ := readyFor_cases (Nat.le_refl (readyFor (m.fullNeighborhood.countsAt pos)).toNat)
    · exact absurd hu hready
    · exact blockReady_of_entityReady h.exact he
    · exact hb
    · exact blockReady_of_entityReady h.exact he
  have hcontributes := contributes_of_blockReady h.exact hblock
    (p := pos) (by rw [ChunkPos.chebyshev_self]; exact Nat.zero_le _)
  obtain ⟨id', hid'⟩ := Option.isSome_iff_exists.mp hcontributes
  obtain ⟨hchunk', hfull⟩ := h.contributors hid'
  rw [hchunk] at hchunk'
  obtain rfl := Option.some.inj hchunk'
  exact ⟨hid', hfull⟩

/-! ## The other threads -/

/-- A holder as generation and saving may leave it. -/
structure Later (holder holder' : Holder) : Prop where
  pos : holder'.pos = holder.pos
  loadLevel : holder'.loadLevel = holder.loadLevel
  simulationLevel : holder'.simulationLevel = holder.simulationLevel
  readiness : holder'.readiness = holder.readiness
  active : holder'.lifecycle = .active ↔ holder.lifecycle = .active
  full : holder.hasFullChunk = true → holder'.hasFullChunk = true

theorem Later.refl (holder : Holder) : Later holder holder :=
  ⟨rfl, rfl, rfl, rfl, Iff.rfl, fun h => h⟩

theorem Sound.later (h : Sound m) (hholders : ∀ id, Later (m.holders id) (m'.holders id))
    (hnext : m'.nextHolder = m.nextHolder) (hchunks : m'.chunks = m.chunks)
    (hunloading : ∀ pos id, m'.unloadingChunks.lookup pos = some id → m.unloadingChunks.lookup pos = some id)
    (hneighborhood : m'.fullNeighborhood = m.fullNeighborhood) : Sound m' where
  loaded hpos := by
    rw [hchunks] at hpos
    obtain ⟨hlt, hp, hactive⟩ := h.loaded hpos
    exact ⟨by omega, (hholders _).pos.trans hp, (hholders _).active.mpr hactive⟩
  unloading hpos := by
    obtain ⟨hlt, hp, hactive, hready⟩ := h.unloading (hunloading _ _ hpos)
    exact ⟨by omega, (hholders _).pos.trans hp, fun hc => hactive ((hholders _).active.mp hc),
      (hholders _).readiness.trans hready⟩
  exact := by rw [hneighborhood]; exact h.exact
  contributors hpos := by
    rw [hneighborhood] at hpos
    obtain ⟨hchunk, hfull⟩ := h.contributors hpos
    refine ⟨by rw [hchunks]; exact hchunk, ?_⟩
    unfold Holder.isFullContributor at hfull ⊢
    rw [Bool.and_eq_true] at hfull ⊢
    rw [(hholders _).loadLevel]
    exact ⟨hfull.1, (hholders _).full hfull.2⟩
  allowed hpos := by
    rw [hchunks] at hpos
    unfold readinessOf
    rw [hneighborhood, (hholders _).loadLevel, (hholders _).readiness]
    exact h.allowed hpos

theorem later_setHolder {id : Nat} {holder : Holder} (h : Later (m.holders id) holder) (other : Nat) :
    Later (m.holders other) ((m.setHolder id holder).holders other) := by
  by_cases heq : other = id
  · subst heq
    simpa [setHolder] using h
  · simpa [setHolder, heq] using Later.refl (m.holders other)

theorem later_publishStatus (id other : Nat) : Later (m.holders other) ((m.publishStatus id).holders other) := by
  apply later_setHolder
  refine ⟨rfl, rfl, rfl, rfl, Iff.rfl, fun h => ?_⟩
  exact Bool.and_eq_true_iff.mpr ⟨(Bool.and_eq_true_iff.mp h).1, rfl⟩

theorem later_publishFull (id other : Nat) : Later (m.holders other) ((m.publishFull id).holders other) := by
  unfold publishFull
  split
  · rename_i hpublished
    apply later_setHolder
    exact ⟨rfl, rfl, rfl, rfl, Iff.rfl, fun _ => Bool.and_eq_true_iff.mpr ⟨rfl, hpublished⟩⟩
  · exact .refl _

theorem later_beginSavePreparation (id other : Nat) :
    Later (m.holders other) ((m.beginSavePreparation id).holders other) := by
  unfold beginSavePreparation
  split
  · rename_i hunloading
    apply later_setHolder
    exact ⟨rfl, rfl, rfl, rfl, by rw [hunloading]; exact ⟨nofun, nofun⟩, fun h => h⟩
  · exact .refl _

theorem later_endSavePreparation (id other : Nat) :
    Later (m.holders other) ((m.endSavePreparation id).holders other) := by
  unfold endSavePreparation
  split
  · rename_i hpreparing
    apply later_setHolder
    exact ⟨rfl, rfl, rfl, rfl, by rw [hpreparing]; exact ⟨nofun, nofun⟩, fun h => h⟩
  · exact .refl _

/-! ## Demotions -/

/-- What the index is after the contributors of `changes` are removed. -/
structure Removed (m : ChunkMap) (index index' : FullNeighborhoodIndex Nat) (changes : List LevelChange) : Prop where
  exact : index'.Exact
  subset : ∀ {pos id}, index'.contributors.lookup pos = some id → index.contributors.lookup pos = some id
  gone : ∀ change ∈ changes, change.newLevel.any (·.isFull) = false → index'.contributors.lookup change.pos = none
  others : ∀ {pos}, pos ∉ changes.map LevelChange.pos → index'.contributors.lookup pos = index.contributors.lookup pos
  kept : ∀ p, p ∉ index'.dirtyCenters → p ∉ index.dirtyCenters ∧ index'.countsAt p = index.countsAt p

theorem removeDemotedContributor_spec (change : LevelChange) {index : FullNeighborhoodIndex Nat}
    (hexact : index.Exact)
    (hsub : ∀ {pos id}, index.contributors.lookup pos = some id → m.chunks.lookup pos = some id) :
    ∃ index', m.removeDemotedContributor index change = some index' ∧ Removed m index index' [change] := by
  unfold removeDemotedContributor
  have hpos : ∀ {pos}, pos ∉ [change].map LevelChange.pos → pos ≠ change.pos :=
    fun h heq => h (List.mem_singleton.mpr heq)
  cases hchunk : m.chunks.lookup change.pos with
  | none =>
    refine ⟨index, rfl, hexact, fun h => h, fun c hc _ => ?_, fun _ => rfl, fun p hp => ⟨hp, rfl⟩⟩
    rw [List.mem_singleton.mp hc]
    cases hlookup : index.contributors.lookup change.pos with
    | none => rfl
    | some id =>
      have hchunk' := hsub hlookup
      rw [hchunk] at hchunk'
      cases hchunk'
  | some id =>
    dsimp only
    by_cases hfull : change.newLevel.any (·.isFull) = true
    · rw [if_pos hfull]
      refine ⟨index, rfl, hexact, fun h => h, fun c hc hnot => ?_, fun _ => rfl, fun p hp => ⟨hp, rfl⟩⟩
      rw [List.mem_singleton.mp hc, hfull] at hnot
      cases hnot
    · rw [if_neg hfull]
      rcases FullNeighborhoodIndex.removeContributorIfMatches_spec hexact id with
        ⟨-, index₁, hrun, hreconciled⟩ | ⟨⟨other, hother, hne⟩, -⟩
      · rw [hrun]
        refine ⟨index₁, rfl, hreconciled.exact, fun {pos id'} h => ?_, fun c hc _ => ?_, fun {pos} hp => ?_,
          hreconciled.kept⟩
        · rw [hreconciled.contributors] at h
          split at h
          · cases h
          · exact h
        · rw [List.mem_singleton.mp hc, hreconciled.contributors, if_pos rfl]
        · rw [hreconciled.contributors, if_neg (hpos hp)]
      · have hchunk' := hsub hother
        rw [hchunk] at hchunk'
        exact absurd (Option.some.inj hchunk').symm hne

theorem removeDemotedContributors_spec (changes : List LevelChange) {index : FullNeighborhoodIndex Nat}
    (hexact : index.Exact)
    (hsub : ∀ {pos id}, index.contributors.lookup pos = some id → m.chunks.lookup pos = some id) :
    ∃ index', changes.foldlM m.removeDemotedContributor index = some index' ∧ Removed m index index' changes := by
  induction changes generalizing index with
  | nil => exact ⟨index, rfl, hexact, fun h => h, fun c hc => (by cases hc), fun _ => rfl, fun p hp => ⟨hp, rfl⟩⟩
  | cons change rest ih =>
    obtain ⟨index₁, hrun, h₁⟩ := removeDemotedContributor_spec change hexact hsub
    obtain ⟨index', hrun', h'⟩ := ih h₁.exact fun h => hsub (h₁.subset h)
    refine ⟨index', by rw [List.foldlM_cons, hrun]; exact hrun', h'.exact, fun h => h₁.subset (h'.subset h),
      fun c hc hfull => ?_, fun {pos} hpos => ?_, fun p hp => ?_⟩
    · obtain rfl | hc := List.mem_cons.mp hc
      · cases hlookup : index'.contributors.lookup c.pos with
        | none => rfl
        | some id =>
          have hold := h'.subset hlookup
          rw [h₁.gone c List.mem_cons_self hfull] at hold
          cases hold
      · exact h'.gone c hc hfull
    · rw [List.map_cons, List.mem_cons, not_or] at hpos
      rw [h'.others hpos.2, h₁.others fun h => hpos.1 (List.mem_singleton.mp h)]
    · obtain ⟨hdirty, hcounts⟩ := h'.kept p hp
      obtain ⟨hdirty', hcounts'⟩ := h₁.kept p hdirty
      exact ⟨hdirty', hcounts.trans hcounts'⟩

theorem foldl_markDirty (positions : List ChunkPos) (index : FullNeighborhoodIndex Nat) :
    ∃ dirty, (positions.foldl (fun index pos => index.markDirty pos) index) = { index with dirtyCenters := dirty } ∧
      ∀ p, p ∈ dirty ↔ p ∈ positions ∨ p ∈ index.dirtyCenters := by
  induction positions generalizing index with
  | nil => exact ⟨index.dirtyCenters, rfl, fun p => by simp⟩
  | cons pos rest ih =>
    obtain ⟨dirty, hrun, hmem⟩ := ih (index.markDirty pos)
    refine ⟨dirty, hrun, fun p => ?_⟩
    rw [hmem, List.mem_cons]
    unfold FullNeighborhoodIndex.markDirty
    rw [List.mem_insert_iff]
    tauto

theorem mem_readinessCandidates {dirty : List (ChunkPos × FullNeighborhoodCounts)}
    {levels : ChunkPos → Option (Option ChunkTicketLevel)} {c : TickingReadinessCandidate} :
    c ∈ m.readinessCandidates dirty levels ↔ ∃ pos counts id, (pos, counts) ∈ dirty ∧ m.chunks.lookup pos = some id ∧
      c = ⟨pos, id, desiredTickingReadiness ((levels pos).getD (m.holders id).loadLevel),
        targetTickingReadiness (m.holders id) ((levels pos).getD (m.holders id).loadLevel) counts⟩ := by
  unfold readinessCandidates
  rw [List.mem_filterMap]
  constructor
  · intro ⟨e, he, hmap⟩
    obtain ⟨id, hid, rfl⟩ := Option.map_eq_some_iff.mp hmap
    exact ⟨e.1, e.2, id, he, hid, rfl⟩
  · intro ⟨pos, counts, id, he, hid, hc⟩
    exact ⟨(pos, counts), he, Option.map_eq_some_iff.mpr ⟨id, hid, hc.symm⟩⟩

theorem updatePendingReadiness_index (m : ChunkMap) (candidates : List TickingReadinessCandidate) :
    ∃ pending, m.updatePendingReadiness candidates =
      { m with fullNeighborhood := { m.fullNeighborhood with pendingReadiness := pending } } := by
  unfold updatePendingReadiness
  suffices h : ∀ index : FullNeighborhoodIndex Nat, ∃ pending, candidates.foldl (fun neighborhood candidate =>
      if (m.holders candidate.holder).readiness.toNat < candidate.desired.toNat then
        neighborhood.ensurePendingReadiness candidate.pos candidate.holder
      else neighborhood.clearPendingReadiness candidate.pos) index = { index with pendingReadiness := pending } by
    obtain ⟨pending, hpending⟩ := h m.fullNeighborhood
    exact ⟨pending, by rw [hpending]⟩
  intro index
  induction candidates generalizing index with
  | nil => exact ⟨index.pendingReadiness, rfl⟩
  | cons c rest ih =>
    rw [List.foldl_cons]
    split
    · unfold FullNeighborhoodIndex.ensurePendingReadiness
      split
      · exact ih index
      · obtain ⟨pending, hpending⟩ := ih { index with pendingReadiness := index.pendingReadiness.insert c.pos c.holder }
        exact ⟨pending, hpending⟩
    · obtain ⟨pending, hpending⟩ := ih (index.clearPendingReadiness c.pos)
      exact ⟨pending, hpending⟩

theorem newLevels_of_mem {changes : List LevelChange} (hnodup : (changes.map LevelChange.pos).Nodup) {change : LevelChange}
    (h : change ∈ changes) : newLevels changes change.pos = some change.newLevel := by
  unfold newLevels
  cases hfind : changes.reverse.find? fun c => decide (c.pos = change.pos) with
  | none =>
    have hnone := List.find?_eq_none.mp hfind change (List.mem_reverse.mpr h)
    exact absurd (decide_eq_true rfl) hnone
  | some found =>
    have hpos : found.pos = change.pos := of_decide_eq_true (List.find?_some (p := fun c : LevelChange => decide (c.pos = change.pos)) hfind)
    have hmem : found ∈ changes := List.mem_reverse.mp (List.mem_of_find?_eq_some hfind)
    rw [List.inj_on_of_nodup_map hnodup hmem h hpos]
    rfl

/-- A chunk map with other readinesses and another index. -/
structure SameMaps (m m' : ChunkMap) : Prop where
  holders : ∀ id, m'.holders id = { m.holders id with readiness := m'.readinessOf id }
  nextHolder : m'.nextHolder = m.nextHolder
  chunks : m'.chunks = m.chunks
  unloadingChunks : m'.unloadingChunks = m.unloadingChunks
  fullPublications : m'.fullPublications = m.fullPublications
  tickingChunks : m'.tickingChunks = m.tickingChunks

/-- What `prepare_ticking_readiness_demotions` leaves. -/
structure Prepared (m m' : ChunkMap) (changes : List LevelChange) (changed : Bool) : Prop where
  same : SameMaps m m'
  removed : Removed m m.fullNeighborhood m'.fullNeighborhood changes
  le : ∀ id, (m'.readinessOf id).toNat ≤ (m.readinessOf id).toNat
  dirty : ∀ change ∈ changes, change.pos ∈ m'.fullNeighborhood.dirtyCenters
  bounded : changes ≠ [] → ∀ {pos id}, pos ∈ m'.fullNeighborhood.dirtyCenters → m.chunks.lookup pos = some id →
    (m'.readinessOf id).toNat ≤ (targetTickingReadiness (m.holders id)
      ((newLevels changes pos).getD (m.holders id).loadLevel) (m'.fullNeighborhood.countsAt pos)).toNat
  moved : ∀ id, m'.readinessOf id = m.readinessOf id ∨
    ∃ pos ∈ m'.fullNeighborhood.dirtyCenters, m.chunks.lookup pos = some id
  flag : changed = false → ∀ id, m'.membershipOf id = m.membershipOf id
  none : changes = [] → m' = m

theorem Removed.refl {index : FullNeighborhoodIndex Nat} (h : index.Exact) : Removed m index index [] :=
  ⟨h, fun h => h, fun c hc => (by cases hc), fun _ => rfl, fun p hp => ⟨hp, rfl⟩⟩

theorem SameMaps.index (m : ChunkMap) (index : FullNeighborhoodIndex Nat) :
    SameMaps m { m with fullNeighborhood := index } := ⟨fun _ => rfl, rfl, rfl, rfl, rfl, rfl⟩

theorem SameMaps.trans {m'' : ChunkMap} (h : SameMaps m m') (h' : SameMaps m' m'') : SameMaps m m'' where
  holders id := by rw [h'.holders, h.holders]
  nextHolder := h'.nextHolder.trans h.nextHolder
  chunks := h'.chunks.trans h.chunks
  unloadingChunks := h'.unloadingChunks.trans h.unloadingChunks
  fullPublications := h'.fullPublications.trans h.fullPublications
  tickingChunks := h'.tickingChunks.trans h.tickingChunks

theorem Moved.same {candidates : List TickingReadinessCandidate} {s s' : ChunkMap × Bool} (h : Moved candidates s s') :
    SameMaps s.1 s'.1 := by
  have hframe := h.frame
  refine ⟨h.holders, ?_, ?_, ?_, ?_, ?_⟩
  · rw [hframe]
    rfl
  · rw [hframe]
    rfl
  · rw [hframe]
    rfl
  · rw [hframe]
    rfl
  · rw [hframe]
    rfl

theorem Moved.index {candidates : List TickingReadinessCandidate} {s s' : ChunkMap × Bool} (h : Moved candidates s s') :
    s'.1.fullNeighborhood = s.1.fullNeighborhood := by
  rw [h.frame]
  rfl

theorem mem_dirtyCountsSnapshot {index : FullNeighborhoodIndex Nat} {pos : ChunkPos} {counts : FullNeighborhoodCounts} :
    (pos, counts) ∈ index.dirtyCountsSnapshot ↔ pos ∈ index.dirtyCenters ∧ counts = index.countsAt pos := by
  unfold FullNeighborhoodIndex.dirtyCountsSnapshot
  rw [List.mem_map]
  constructor
  · intro ⟨p, hp, heq⟩
    cases heq
    exact ⟨hp, rfl⟩
  · intro ⟨hp, hcounts⟩
    exact ⟨pos, hp, by rw [hcounts]⟩

theorem prepare_spec (h : Sound m) (changes : List LevelChange) :
    ∃ m' changed, m.prepareTickingReadinessDemotions changes = some (m', changed) ∧ Prepared m m' changes changed := by
  by_cases hempty : changes = []
  · subst hempty
    exact ⟨m, false, rfl, ⟨fun _ => rfl, rfl, rfl, rfl, rfl, rfl⟩, .refl h.exact, fun _ => Nat.le_refl _,
      fun c hc => (by cases hc), fun hne => absurd rfl hne, fun _ => .inl rfl, fun _ _ => rfl, fun _ => rfl⟩
  unfold prepareTickingReadinessDemotions
  rw [if_neg (by rw [List.isEmpty_iff]; exact hempty)]
  obtain ⟨index₁, hrun, hremoved⟩ := removeDemotedContributors_spec (m := m) changes h.exact
    fun hlookup => (h.contributors hlookup).1
  obtain ⟨dirty, hmark, hdirty⟩ := foldl_markDirty (changes.map LevelChange.pos) index₁
  rw [hrun, Option.bind_eq_bind, Option.bind_some]
  rw [hmark]
  generalize hindex : ({ index₁ with dirtyCenters := dirty } : FullNeighborhoodIndex Nat) = index
  have hremoved' : Removed m m.fullNeighborhood index changes := by
    rw [← hindex]
    refine ⟨⟨hremoved.exact.counts, hremoved.exact.stored⟩, hremoved.subset, hremoved.gone, hremoved.others, fun p hp => ?_⟩
    exact hremoved.kept p fun hp' => hp ((hdirty p).mpr (.inr hp'))
  have hchanges : ∀ change ∈ changes, change.pos ∈ index.dirtyCenters := by
    intro change hchange
    rw [← hindex]
    exact (hdirty _).mpr (.inl (List.mem_map_of_mem hchange))
  dsimp only
  generalize hcandidates : ({ m with fullNeighborhood := index } : ChunkMap).readinessCandidates index.dirtyCountsSnapshot
    (newLevels changes) = candidates
  have hmem : ∀ c, c ∈ candidates ↔ ∃ pos id, pos ∈ index.dirtyCenters ∧ m.chunks.lookup pos = some id ∧
      c = ⟨pos, id, desiredTickingReadiness ((newLevels changes pos).getD (m.holders id).loadLevel),
        targetTickingReadiness (m.holders id) ((newLevels changes pos).getD (m.holders id).loadLevel)
          (index.countsAt pos)⟩ := by
    intro c
    rw [← hcandidates, mem_readinessCandidates]
    constructor
    · intro ⟨pos, counts, id, hd, hid, hc⟩
      obtain ⟨hpos, hcounts⟩ := mem_dirtyCountsSnapshot.mp hd
      exact ⟨pos, id, hpos, hid, by rw [hc, hcounts]⟩
    · intro ⟨pos, id, hpos, hid, hc⟩
      exact ⟨pos, _, id, mem_dirtyCountsSnapshot.mpr ⟨hpos, rfl⟩, hid, hc⟩
  unfold applyReadinessDemotions
  obtain ⟨hmoved, hle, htarget⟩ := foldl_applyDemotion candidates ({ m with fullNeighborhood := index }, false)
  generalize candidates.foldl applyDemotion ({ m with fullNeighborhood := index }, false) = s at hmoved hle htarget
  obtain ⟨pending, hpending⟩ := updatePendingReadiness_index s.1 candidates
  refine ⟨_, _, rfl, ?_⟩
  rw [hpending]
  have hindex' : s.1.fullNeighborhood = index := hmoved.index
  refine ⟨((SameMaps.index m index).trans hmoved.same).trans (.index _ _), ?_, hle, ?_, fun _ => ?_, fun id => ?_,
    fun hflag => ?_, fun hnil => absurd hnil hempty⟩
  · dsimp only
    rw [hindex']
    exact ⟨⟨hremoved'.exact.counts, hremoved'.exact.stored⟩, hremoved'.subset, hremoved'.gone, hremoved'.others,
      hremoved'.kept⟩
  · dsimp only
    rw [hindex']
    exact hchanges
  · intro pos id hpos hid
    dsimp only at hpos ⊢
    rw [hindex'] at hpos ⊢
    exact htarget _ ((hmem _).mpr ⟨pos, id, hpos, hid, rfl⟩)
  · obtain hsame | ⟨c, hc, hid, -⟩ := hmoved.moved id
    · exact .inl hsame
    · obtain ⟨pos, id', hpos, hid', rfl⟩ := (hmem c).mp hc
      refine .inr ⟨pos, ?_, ?_⟩
      · dsimp only
        rw [hindex']
        exact hpos
      · rw [← hid]
        exact hid'
  · exact (hmoved.flag hflag).2

theorem SameMaps.loaded (h : SameMaps m m') (hsound : Sound m) {pos : ChunkPos} {id : Nat}
    (hchunk : m'.chunks.lookup pos = some id) :
    id < m'.nextHolder ∧ (m'.holders id).pos = pos ∧ (m'.holders id).lifecycle = .active := by
  rw [h.chunks] at hchunk
  rw [h.nextHolder, h.holders]
  exact hsound.loaded hchunk

/-- An unloading holder is no loaded holder. -/
theorem Sound.unloading_ne (h : Sound m) {pos pos' : ChunkPos} {id : Nat}
    (hunloading : m.unloadingChunks.lookup pos = some id) : m.chunks.lookup pos' ≠ some id :=
  fun hchunk => (h.unloading hunloading).2.2.1 (h.loaded hchunk).2.2

theorem Sound.inj (h : Sound m) {pos pos' : ChunkPos} {id : Nat} (hpos : m.chunks.lookup pos = some id)
    (hpos' : m.chunks.lookup pos' = some id) : pos = pos' :=
  (h.loaded hpos).2.1.symm.trans (h.loaded hpos').2.1

theorem Prepared.sound {changes : List LevelChange} {changed : Bool} (h : Sound m)
    (hprepared : Prepared m m' changes changed) : Sound m' where
  loaded hchunk := hprepared.same.loaded h hchunk
  unloading {pos id} hunloading := by
    rw [hprepared.same.unloadingChunks] at hunloading
    obtain ⟨hlt, hpos, hactive, hready⟩ := h.unloading hunloading
    rw [hprepared.same.nextHolder, hprepared.same.holders]
    refine ⟨hlt, hpos, hactive, ?_⟩
    apply TickingReadiness.eq_unready_of_le
    exact Nat.le_trans (hprepared.le id) (by rw [hready])
  exact := hprepared.removed.exact
  contributors hlookup := by
    obtain ⟨hchunk, hfull⟩ := h.contributors (hprepared.removed.subset hlookup)
    rw [hprepared.same.chunks, hprepared.same.holders]
    exact ⟨hchunk, hfull⟩
  allowed {pos id} hchunk := by
    rw [hprepared.same.chunks] at hchunk
    obtain ⟨hdesired, hready⟩ := h.allowed hchunk
    have hle := hprepared.le id
    rw [hprepared.same.holders]
    refine ⟨Nat.le_trans hle hdesired, ?_⟩
    by_cases hdirty : pos ∈ m'.fullNeighborhood.dirtyCenters
    · by_cases hempty : changes = []
      · rw [hprepared.none hempty]
        exact hready
      · exact Nat.le_trans (hprepared.bounded hempty hdirty hchunk)
          (targetTickingReadiness_le (blockReady_of_entityReady hprepared.removed.exact)).2
    · rw [(hprepared.removed.kept pos hdirty).2]
      exact Nat.le_trans hle hready

/-! ## The level changes -/

/-- The changes that are still to be applied take no contributor's level and no readier holder's. -/
structure Awaits (m : ChunkMap) (remaining : List LevelChange) : Prop where
  nodup : (remaining.map LevelChange.pos).Nodup
  contributors : ∀ change ∈ remaining, change.newLevel.any (·.isFull) = false →
    m.fullNeighborhood.contributors.lookup change.pos = none
  desired : ∀ change ∈ remaining, ∀ {id}, m.chunks.lookup change.pos = some id →
    (m.readinessOf id).toNat ≤ (desiredTickingReadiness change.newLevel).toNat

theorem Prepared.awaits {changes : List LevelChange} {changed : Bool} (hprepared : Prepared m m' changes changed)
    (hnodup : (changes.map LevelChange.pos).Nodup) : Awaits m' changes where
  nodup := hnodup
  contributors := hprepared.removed.gone
  desired change hchange {id} hchunk := by
    rw [hprepared.same.chunks] at hchunk
    have hbounded := hprepared.bounded (List.ne_nil_of_mem hchange) (hprepared.dirty change hchange) hchunk
    rw [newLevels_of_mem hnodup hchange] at hbounded
    exact Nat.le_trans hbounded (targetTickingReadiness_le (blockReady_of_entityReady hprepared.removed.exact)).1

/-- A change of the level at `pos` leaves the other positions and the index alone. -/
structure Elsewhere (pos : ChunkPos) (m m' : ChunkMap) : Prop where
  chunks : ∀ {p}, p ≠ pos → m'.chunks.lookup p = m.chunks.lookup p
  holders : ∀ {p id}, p ≠ pos → m.chunks.lookup p = some id → m'.holders id = m.holders id
  index : m'.fullNeighborhood = m.fullNeighborhood
  publications : ∀ x ∈ m.fullPublications, x ∈ m'.fullPublications
  tickingChunks : m'.tickingChunks = m.tickingChunks

/-- What `update_chunk_level` leaves at the position of the change. -/
structure Updated (change : LevelChange) (m m' : ChunkMap) : Prop where
  elsewhere : Elsewhere change.pos m m'
  sound : Sound m'
  /-- The holder of the position had the same readiness, or it was not loaded and is unready. -/
  readiness : ∀ {id}, m'.chunks.lookup change.pos = some id →
    (m'.holders id).simulationLevel = change.newSimulationLevel ∧
    (m.chunks.lookup change.pos = some id ∧ m'.readinessOf id = m.readinessOf id ∨
      m.chunks.lookup change.pos = none ∧ m'.readinessOf id = .unready)
  unloaded : ∀ {id}, m.chunks.lookup change.pos = some id → m'.chunks.lookup change.pos = none → m.readinessOf id = .unready
  initialized : (∀ id, (m.holders id).fullStatusInitialized = true → (m.holders id).publishedFull = true) →
    ∀ id, (m'.holders id).fullStatusInitialized = true → (m'.holders id).publishedFull = true

section
variable {change : LevelChange} {level : ChunkTicketLevel} {simulationLevel : Option ChunkTicketLevel} {pos : ChunkPos}
  {id : Nat}

theorem raise_cases (m : ChunkMap) (pos : ChunkPos) (id : Nat) (level : ChunkTicketLevel)
    (simulationLevel : Option ChunkTicketLevel) :
    ∃ publications, (∀ x ∈ m.fullPublications, x ∈ publications) ∧ m.raise pos id level simulationLevel =
      { m.setHolder id { m.holders id with loadLevel := some level, simulationLevel } with
        fullPublications := publications } := by
  unfold raise
  dsimp only
  split
  · exact ⟨_, fun x hx => List.mem_append_left _ hx, rfl⟩
  · exact ⟨m.fullPublications, fun x hx => hx, rfl⟩

/-- The holder of `pos` takes a level that its readiness and its contribution allow. -/
theorem Sound.raise (h : Sound m) (hchunk : m.chunks.lookup pos = some id)
    (hcontributor : level.isFull = false → m.fullNeighborhood.contributors.lookup pos = none)
    (hdesired : (m.readinessOf id).toNat ≤ (desiredTickingReadiness (some level)).toNat) :
    Sound (m.raise pos id level simulationLevel) := by
  obtain ⟨publications, -, hraise⟩ := raise_cases m pos id level simulationLevel
  rw [hraise]
  have hother : ∀ other, other ≠ id → ({ m.setHolder id { m.holders id with loadLevel := some level, simulationLevel }
      with fullPublications := publications } : ChunkMap).holders other = m.holders other :=
    fun other hne => if_neg hne
  have hself : ({ m.setHolder id { m.holders id with loadLevel := some level, simulationLevel }
      with fullPublications := publications } : ChunkMap).holders id =
      { m.holders id with loadLevel := some level, simulationLevel } := if_pos rfl
  refine ⟨fun {p i} hp => ?_, fun {p i} hp => ?_, h.exact, fun {p i} hp => ?_, fun {p i} hp => ?_⟩
  · by_cases hi : i = id
    · subst hi
      rw [hself]
      exact h.loaded hp
    · rw [hother i hi]
      exact h.loaded hp
  · have hi : i ≠ id := by
      intro heq
      subst heq
      exact h.unloading_ne hp hchunk
    unfold readinessOf
    rw [hother i hi]
    exact h.unloading hp
  · obtain ⟨hchunk', hfull⟩ := h.contributors hp
    refine ⟨hchunk', ?_⟩
    by_cases hi : i = id
    · subst hi
      obtain rfl := h.inj hchunk hchunk'
      rw [hself]
      unfold Holder.isFullContributor at hfull ⊢
      rw [Bool.and_eq_true] at hfull ⊢
      refine ⟨?_, hfull.2⟩
      cases hlevel : level.isFull with
      | true => exact hlevel
      | false =>
        have hnone := hcontributor hlevel
        change m.fullNeighborhood.contributors.lookup pos = some i at hp
        rw [hnone] at hp
        cases hp
    · rw [hother i hi]
      exact hfull
  · unfold readinessOf
    by_cases hi : i = id
    · subst hi
      rw [hself]
      exact ⟨hdesired, (h.allowed hp).2⟩
    · rw [hother i hi]
      exact h.allowed hp

theorem Sound.unload (h : Sound m) (hchunk : m.chunks.lookup pos = some id)
    (hcontributor : m.fullNeighborhood.contributors.lookup pos = none) (hunready : m.readinessOf id = .unready) :
    Sound (m.unload pos id) := by
  have hother : ∀ other, other ≠ id → (m.unload pos id).holders other = m.holders other := fun other hne => if_neg hne
  have hself : (m.unload pos id).holders id =
      { m.holders id with lifecycle := .unloading, loadLevel := none, simulationLevel := none } := if_pos rfl
  have hchunks : ∀ {p i}, (m.unload pos id).chunks.lookup p = some i → i ≠ id ∧ m.chunks.lookup p = some i := by
    intro p i hp
    change (m.chunks.erase pos).lookup p = some i at hp
    rw [AssocList.lookup_erase] at hp
    split at hp
    · cases hp
    · rename_i hne
      refine ⟨fun heq => hne ?_, hp⟩
      subst heq
      exact h.inj hp hchunk
  refine ⟨fun {p i} hp => ?_, fun {p i} hp => ?_, h.exact, fun {p i} hp => ?_, fun {p i} hp => ?_⟩
  · obtain ⟨hi, hp⟩ := hchunks hp
    rw [hother i hi]
    exact h.loaded hp
  · have hcases : i = id ∧ p = pos ∨ i ≠ id ∧ m.unloadingChunks.lookup p = some i := by
      change (if (m.unloadingChunks.lookup pos).isSome then m.unloadingChunks
        else m.unloadingChunks.insert pos id).lookup p = some i at hp
      split at hp
      · exact .inr ⟨fun heq => h.unloading_ne (heq ▸ hp) hchunk, hp⟩
      · rw [AssocList.lookup_insert] at hp
        split at hp
        · rename_i heq
          exact .inl ⟨(Option.some.inj hp).symm, heq⟩
        · exact .inr ⟨fun heq => h.unloading_ne (heq ▸ hp) hchunk, hp⟩
    unfold readinessOf
    obtain ⟨rfl, rfl⟩ | ⟨hi, hp⟩ := hcases
    · rw [hself]
      obtain ⟨hlt, hpos, -⟩ := h.loaded hchunk
      exact ⟨hlt, hpos, nofun, hunready⟩
    · rw [hother i hi]
      exact h.unloading hp
  · change m.fullNeighborhood.contributors.lookup p = some i at hp
    obtain ⟨hchunk', hfull⟩ := h.contributors hp
    have hne : p ≠ pos := by
      intro heq
      rw [heq, hcontributor] at hp
      cases hp
    have hi : i ≠ id := by
      intro heq
      subst heq
      exact hne (h.inj hchunk' hchunk)
    rw [hother i hi]
    refine ⟨?_, hfull⟩
    change (m.chunks.erase pos).lookup p = some i
    rw [AssocList.lookup_erase, if_neg hne]
    exact hchunk'
  · obtain ⟨hi, hp⟩ := hchunks hp
    unfold readinessOf
    rw [hother i hi]
    exact h.allowed hp

/-- A new holder at `pos` that is unready and not among the others. -/
theorem Sound.load (h : Sound m) (holder : Holder) (hchunk : m.chunks.lookup pos = none)
    (hid : ∀ p, m.chunks.lookup p ≠ some id) (hid' : ∀ p, m'.unloadingChunks.lookup p ≠ some id)
    (hpos : holder.pos = pos) (hactive : holder.lifecycle = .active) (hunready : holder.readiness = .unready)
    (hlt : id < m'.nextHolder) (hnext : m.nextHolder ≤ m'.nextHolder)
    (hself : m'.holders id = holder) (hother : ∀ other, other ≠ id → m'.holders other = m.holders other)
    (hchunks : m'.chunks = m.chunks.insert pos id)
    (hunloading : ∀ {p i}, m'.unloadingChunks.lookup p = some i → m.unloadingChunks.lookup p = some i)
    (hindex : m'.fullNeighborhood = m.fullNeighborhood) : Sound m' := by
  have hcases : ∀ {p i}, m'.chunks.lookup p = some i → p = pos ∧ i = id ∨ i ≠ id ∧ m.chunks.lookup p = some i := by
    intro p i hp
    rw [hchunks, AssocList.lookup_insert] at hp
    split at hp
    · rename_i heq
      exact .inl ⟨heq, (Option.some.inj hp).symm⟩
    · exact .inr ⟨fun heq => hid p (heq ▸ hp), hp⟩
  refine ⟨fun {p i} hp => ?_, fun {p i} hp => ?_, hindex ▸ h.exact, fun {p i} hp => ?_, fun {p i} hp => ?_⟩
  · obtain ⟨rfl, rfl⟩ | ⟨hi, hp⟩ := hcases hp
    · rw [hself]
      exact ⟨hlt, hpos, hactive⟩
    · rw [hother i hi]
      obtain ⟨hlt', hrest⟩ := h.loaded hp
      exact ⟨by omega, hrest⟩
  · have hi : i ≠ id := fun heq => hid' p (heq ▸ hp)
    unfold readinessOf
    rw [hother i hi]
    obtain ⟨hlt', hrest⟩ := h.unloading (hunloading hp)
    exact ⟨by omega, hrest⟩
  · rw [hindex] at hp
    obtain ⟨hchunk', hfull⟩ := h.contributors hp
    have hne : p ≠ pos := by
      intro heq
      rw [heq, hchunk] at hchunk'
      cases hchunk'
    rw [hother i fun heq => hid p (heq ▸ hchunk'), hchunks, AssocList.lookup_insert, if_neg hne]
    exact ⟨hchunk', hfull⟩
  · unfold readinessOf
    obtain ⟨rfl, rfl⟩ | ⟨hi, hp⟩ := hcases hp
    · rw [hself, hunready]
      exact ⟨Nat.zero_le _, Nat.zero_le _⟩
    · rw [hother i hi, hindex]
      exact h.allowed hp

/-- What activating a position that is not loaded leaves: an unready holder, or a revival that is put off. -/
structure Activated (pos : ChunkPos) (m m₁ : ChunkMap) (id? : Option Nat) : Prop where
  sound : Sound m₁
  elsewhere : Elsewhere pos m m₁
  chunk : m₁.chunks.lookup pos = id?
  unready : ∀ id, id? = some id → m₁.readinessOf id = .unready
  initialized : (∀ id, (m.holders id).fullStatusInitialized = true → (m.holders id).publishedFull = true) →
    ∀ id, (m₁.holders id).fullStatusInitialized = true → (m₁.holders id).publishedFull = true

theorem activate_spec (h : Sound m) (hchunk : m.chunks.lookup pos = none) (level : ChunkTicketLevel)
    (simulationLevel : Option ChunkTicketLevel) :
    Activated pos m (m.activate pos level simulationLevel).2 (m.activate pos level simulationLevel).1 := by
  unfold activate
  cases hunloading : m.unloadingChunks.lookup pos with
  | some id =>
    obtain ⟨hlt, hpos, -, hunready⟩ := h.unloading hunloading
    dsimp only
    by_cases hlifecycle : (m.holders id).lifecycle = .unloading
    · rw [if_pos hlifecycle]
      have hother : ∀ other, other ≠ id → (m.setHolder id { m.holders id with lifecycle := .active }).holders other =
          m.holders other := fun other hne => if_neg hne
      have hself : (m.setHolder id { m.holders id with lifecycle := .active }).holders id =
          { m.holders id with lifecycle := .active } := if_pos rfl
      have hne : ∀ p, m.chunks.lookup p ≠ some id := fun p => h.unloading_ne hunloading
      refine ⟨?_, ⟨fun hp => ?_, fun hp hp' => ?_, rfl, fun x hx => hx, rfl⟩, ?_, fun id' hid' => ?_,
        fun hinitialized id' => ?_⟩
      · refine h.load { m.holders id with lifecycle := .active } hchunk hne (fun p hp => ?_) hpos rfl hunready hlt (Nat.le_refl _) hself hother rfl
          (fun {p i} hp => ?_) rfl
        · change (m.unloadingChunks.erase pos).lookup p = some id at hp
          rw [AssocList.lookup_erase] at hp
          split at hp
          · cases hp
          · rename_i hp'
            exact hp' ((h.unloading hp).2.1.symm.trans hpos)
        · change (m.unloadingChunks.erase pos).lookup p = some i at hp
          rw [AssocList.lookup_erase] at hp
          split at hp
          · cases hp
          · exact hp
      · exact (AssocList.lookup_insert).trans (if_neg hp)
      · exact hother _ fun heq => hne _ (heq ▸ hp')
      · exact (AssocList.lookup_insert).trans (if_pos rfl)
      · obtain rfl := Option.some.inj hid'
        unfold readinessOf
        rw [hself]
        exact hunready
      · by_cases heq : id' = id
        · subst heq
          dsimp only
          rw [hself]
          exact hinitialized id'
        · dsimp only
          rw [hother id' heq]
          exact hinitialized id'
    · rw [if_neg hlifecycle]
      exact ⟨h.later (fun id => .refl _) rfl rfl (fun _ _ hp => hp) rfl, ⟨fun _ => rfl, fun _ _ => rfl, rfl, fun x hx => hx, rfl⟩,
        hchunk, nofun, fun hinitialized => hinitialized⟩
  | none =>
    dsimp only
    have hother : ∀ other, other ≠ m.nextHolder →
        (m.setHolder m.nextHolder (.new pos level simulationLevel)).holders other = m.holders other :=
      fun other hne => if_neg hne
    have hself : (m.setHolder m.nextHolder (.new pos level simulationLevel)).holders m.nextHolder =
        .new pos level simulationLevel := if_pos rfl
    have hne : ∀ p, m.chunks.lookup p ≠ some m.nextHolder := fun p hp => Nat.lt_irrefl _ (h.loaded hp).1
    refine ⟨?_, ⟨fun hp => ?_, fun hp hp' => ?_, rfl, fun x hx => hx, rfl⟩, ?_, fun id' hid' => ?_,
      fun hinitialized id' => ?_⟩
    · exact h.load (.new pos level simulationLevel) hchunk hne (fun p hp => Nat.lt_irrefl _ (h.unloading hp).1) rfl rfl rfl (Nat.lt_succ_self _)
        (Nat.le_succ _) hself hother rfl (fun hp => hp) rfl
    · exact (AssocList.lookup_insert).trans (if_neg hp)
    · exact hother _ fun heq => hne _ (heq ▸ hp')
    · exact (AssocList.lookup_insert).trans (if_pos rfl)
    · obtain rfl := Option.some.inj hid'
      unfold readinessOf
      rw [hself]
      rfl
    · by_cases heq : id' = m.nextHolder
      · subst heq
        dsimp only
        rw [hself]
        exact nofun
      · dsimp only
        rw [hother id' heq]
        exact hinitialized id'

theorem Elsewhere.trans {m'' : ChunkMap} (h : Elsewhere pos m m') (h' : Elsewhere pos m' m'') : Elsewhere pos m m'' where
  chunks hp := (h'.chunks hp).trans (h.chunks hp)
  holders hp hchunk := (h'.holders hp ((h.chunks hp).trans hchunk)).trans (h.holders hp hchunk)
  index := h'.index.trans h.index
  publications x hx := h'.publications x (h.publications x hx)
  tickingChunks := h'.tickingChunks.trans h.tickingChunks

theorem Elsewhere.raise (h : Sound m) (hchunk : m.chunks.lookup pos = some id) :
    Elsewhere pos m (m.raise pos id level simulationLevel) := by
  obtain ⟨publications, hpublications, hraise⟩ := raise_cases m pos id level simulationLevel
  rw [hraise]
  exact ⟨fun _ => rfl, fun hp hchunk' => if_neg fun heq => hp (h.inj (heq ▸ hchunk') hchunk), rfl, hpublications, rfl⟩

theorem raise_holder : (m.raise pos id level simulationLevel).holders id =
    { m.holders id with loadLevel := some level, simulationLevel } := by
  obtain ⟨publications, -, hraise⟩ := raise_cases m pos id level simulationLevel
  rw [hraise]
  exact if_pos rfl

theorem raise_chunks : (m.raise pos id level simulationLevel).chunks = m.chunks := by
  obtain ⟨publications, -, hraise⟩ := raise_cases m pos id level simulationLevel
  rw [hraise]
  rfl

theorem raise_initialized (h : ∀ id, (m.holders id).fullStatusInitialized = true → (m.holders id).publishedFull = true)
    (other : Nat) : ((m.raise pos id level simulationLevel).holders other).fullStatusInitialized = true →
      ((m.raise pos id level simulationLevel).holders other).publishedFull = true := by
  obtain ⟨publications, -, hraise⟩ := raise_cases m pos id level simulationLevel
  rw [hraise]
  by_cases heq : other = id
  · subst heq
    simpa [setHolder] using h other
  · simpa [setHolder, heq] using h other

/-- One step of the lifecycle commit. -/
theorem updateChunkLevel_spec (h : Sound m) {rest : List LevelChange} (hawaits : Awaits m (change :: rest)) :
    Updated change m (m.updateChunkLevel change) := by
  have hcontributor := hawaits.contributors change List.mem_cons_self
  have hdesired := fun id (hid : m.chunks.lookup change.pos = some id) => hawaits.desired change List.mem_cons_self hid
  unfold updateChunkLevel
  cases hlevel : change.newLevel with
  | none =>
    rw [hlevel] at hcontributor hdesired
    dsimp only
    have hsound : Sound { m with deferredRevivals := m.deferredRevivals.erase change.pos } :=
      h.later (fun id => .refl _) rfl rfl (fun _ _ hp => hp) rfl
    cases hchunk : m.chunks.lookup change.pos with
    | none =>
      exact ⟨⟨fun _ => rfl, fun _ _ => rfl, rfl, fun x hx => hx, rfl⟩, hsound,
        fun hp => (by rw [hchunk] at hp; cases hp), fun hp => (by rw [hchunk] at hp; cases hp), fun hi => hi⟩
    | some id =>
      have hunready : m.readinessOf id = .unready := TickingReadiness.eq_unready_of_le (hdesired id hchunk)
      refine ⟨⟨fun hp => ?_, fun hp hchunk' => ?_, rfl, fun x hx => hx, rfl⟩, ?_, fun {id'} hp => ?_, fun {id'} hp _ => ?_,
        fun hinitialized id' => ?_⟩
      · exact AssocList.lookup_erase.trans (if_neg hp)
      · exact if_neg fun heq => hp (h.inj (heq ▸ hchunk') hchunk)
      · exact hsound.unload hchunk (hcontributor rfl) hunready
      · change (m.chunks.erase change.pos).lookup change.pos = some id' at hp
        rw [AssocList.lookup_erase, if_pos rfl] at hp
        cases hp
      · rw [hchunk] at hp
        rw [← Option.some.inj hp]
        exact hunready
      · by_cases heq : id' = id
        · subst heq
          simpa [unload, setHolder] using hinitialized id'
        · simpa [unload, setHolder, heq] using hinitialized id'
  | some level =>
    rw [hlevel] at hcontributor hdesired
    dsimp only
    have hnotfull : level.isFull = false → m.fullNeighborhood.contributors.lookup change.pos = none := hcontributor
    cases hchunk : m.chunks.lookup change.pos with
    | some id =>
      dsimp only
      refine ⟨.raise h hchunk, h.raise hchunk hnotfull (hdesired id hchunk), fun {id'} hp => ?_, fun {id'} hp hnone => ?_,
        fun hinitialized => raise_initialized hinitialized⟩
      · rw [raise_chunks, hchunk] at hp
        obtain rfl := Option.some.inj hp
        unfold readinessOf
        rw [raise_holder]
        exact ⟨rfl, .inl ⟨hchunk, rfl⟩⟩
      · rw [raise_chunks, hchunk] at hnone
        cases hnone
    | none =>
      have hactivated := activate_spec h hchunk level change.newSimulationLevel
      dsimp only
      generalize m.activate change.pos level change.newSimulationLevel = result at hactivated
      obtain ⟨id?, m₁⟩ := result
      dsimp only at hactivated
      cases id? with
      | none =>
        exact ⟨hactivated.elsewhere, hactivated.sound, fun hp => (by rw [hactivated.chunk] at hp; cases hp),
          fun hp => (by rw [hchunk] at hp; cases hp), hactivated.initialized⟩
      | some id =>
        dsimp only
        have hunready := hactivated.unready id rfl
        refine ⟨hactivated.elsewhere.trans (.raise hactivated.sound hactivated.chunk),
          hactivated.sound.raise hactivated.chunk (fun hfull => ?_) ?_, fun {id'} hp => ?_, fun hp => ?_,
          fun hinitialized => raise_initialized (hactivated.initialized hinitialized)⟩
        · rw [hactivated.elsewhere.index]
          exact hnotfull hfull
        · rw [hunready]
          exact Nat.zero_le _
        · rw [raise_chunks, hactivated.chunk] at hp
          obtain rfl := Option.some.inj hp
          unfold readinessOf at hunready ⊢
          rw [raise_holder]
          exact ⟨rfl, .inr ⟨hchunk, hunready⟩⟩
        · rw [hchunk] at hp
          cases hp

theorem Awaits.tail {rest : List LevelChange} (hawaits : Awaits m (change :: rest))
    (hupdated : Updated change m m') : Awaits m' rest := by
  obtain ⟨hnot, hnodup⟩ := List.nodup_cons.mp hawaits.nodup
  have hne : ∀ c ∈ rest, c.pos ≠ change.pos := fun c hc heq => hnot (heq ▸ List.mem_map_of_mem hc)
  refine ⟨hnodup, fun c hc => ?_, fun c hc {id} hchunk => ?_⟩
  · rw [hupdated.elsewhere.index]
    exact hawaits.contributors c (List.mem_cons_of_mem _ hc)
  · rw [hupdated.elsewhere.chunks (hne c hc)] at hchunk
    unfold readinessOf
    rw [hupdated.elsewhere.holders (hne c hc) hchunk]
    exact hawaits.desired c (List.mem_cons_of_mem _ hc) hchunk

end

/-! ## New contributors -/

theorem currentFullContributor_eq_some {pos : ChunkPos} {id : Nat} :
    m.currentFullContributor pos = some id ↔ m.chunks.lookup pos = some id ∧ (m.holders id).isFullContributor = true := by
  unfold currentFullContributor
  rw [Option.filter_eq_some_iff]

theorem validateFullPublication_eq_some {publication : ChunkPos × Nat} {id : Nat} :
    m.validateFullPublication publication = some id ↔
      publication.2 = id ∧ m.currentFullContributor publication.1 = some id := by
  unfold validateFullPublication
  rw [Option.filter_eq_some_iff, currentFullContributor_eq_some, Bool.and_eq_true, beq_iff_eq]
  tauto

/-- The updates are current, and name the positions that changed and those with a valid publication. -/
theorem lookup_contributorUpdates (changed : List ChunkPos) (pos : ChunkPos) :
    (∀ holder, (m.contributorUpdates changed).lookup pos = some holder → holder = m.currentFullContributor pos) ∧
    (pos ∈ changed → ((m.contributorUpdates changed).lookup pos).isSome = true) ∧
    (∀ id, (pos, id) ∈ m.fullPublications → m.currentFullContributor pos = some id →
      ((m.contributorUpdates changed).lookup pos).isSome = true) := by
  unfold contributorUpdates
  generalize hentries : (changed.map (fun pos => (pos, m.currentFullContributor pos)) ++
    m.fullPublications.filterMap fun publication =>
      (m.validateFullPublication publication).map fun id => (publication.1, some id)) = entries
  have hcurrent : ∀ holder, (pos, holder) ∈ entries → holder = m.currentFullContributor pos := by
    intro holder hmem
    rw [← hentries] at hmem
    obtain hmem | hmem := List.mem_append.mp hmem
    · obtain ⟨p, -, heq⟩ := List.mem_map.mp hmem
      cases heq
      rfl
    · obtain ⟨publication, -, hmap⟩ := List.mem_filterMap.mp hmem
      obtain ⟨id, hvalid, heq⟩ := Option.map_eq_some_iff.mp hmap
      cases heq
      exact (validateFullPublication_eq_some.mp hvalid).2.symm
  have hsome : ∀ holder, (pos, holder) ∈ entries → ((AssocList.insertAll entries ∅).lookup pos).isSome = true := by
    intro holder hmem
    obtain ⟨-, hnot⟩ | ⟨v, -, hlookup⟩ := AssocList.lookup_insertAll entries ∅ pos
    · exact absurd (List.mem_map_of_mem hmem) hnot
    · rw [hlookup]
      rfl
  refine ⟨fun holder hlookup => ?_, fun hmem => ?_, fun id hmem hid => ?_⟩
  · obtain ⟨hsame, -⟩ | ⟨v, hv, hlookup'⟩ := AssocList.lookup_insertAll entries ∅ pos
    · rw [hsame] at hlookup
      cases hlookup
    · rw [hlookup] at hlookup'
      rw [Option.some.inj hlookup']
      exact hcurrent v hv
  · apply hsome (m.currentFullContributor pos)
    rw [← hentries]
    exact List.mem_append_left _ (List.mem_map_of_mem hmem)
  · apply hsome (some id)
    rw [← hentries]
    refine List.mem_append_right _ (List.mem_filterMap.mpr ⟨(pos, id), hmem, ?_⟩)
    rw [validateFullPublication_eq_some.mpr ⟨rfl, hid⟩]
    rfl

/-- The index after the updates of a list of positions, each reconciled with its current contributor. -/
theorem reconcileContributors_spec {entries : List (Sigma fun _ : ChunkPos => Option Nat)}
    {index : FullNeighborhoodIndex Nat} (hexact : index.Exact) {current : ChunkPos → Option Nat}
    (hentries : ∀ e ∈ entries, e.2 = current e.1) :
    ∃ index', entries.foldlM (fun index update => succeeded (index.reconcileContributor update.1 update.2)) index =
        some index' ∧ index'.Exact ∧
      (∀ p, index'.contributors.lookup p =
        if p ∈ entries.map Sigma.fst then current p else index.contributors.lookup p) ∧
      ∀ p, p ∉ index'.dirtyCenters → p ∉ index.dirtyCenters ∧ index'.countsAt p = index.countsAt p := by
  induction entries generalizing index with
  | nil => exact ⟨index, rfl, hexact, fun p => rfl, fun p hp => ⟨hp, rfl⟩⟩
  | cons e rest ih =>
    obtain ⟨index₁, hrun, hreconciled⟩ :=
      FullNeighborhoodIndex.reconcileContributor_spec hexact e.2
    obtain ⟨index', hrun', hexact', hlookup', hkept'⟩ :=
      ih hreconciled.exact fun e' he' => hentries e' (List.mem_cons_of_mem _ he')
    refine ⟨index', ?_, hexact', fun p => ?_, fun p hp => ?_⟩
    · rw [List.foldlM_cons, hrun]
      exact hrun'
    · rw [hlookup', hreconciled.contributors, List.map_cons]
      by_cases hp : p = e.1
      · subst hp
        rw [if_pos rfl, hentries e List.mem_cons_self, if_pos List.mem_cons_self, ite_self]
      · simp only [List.mem_cons, hp, false_or, if_false]
    · obtain ⟨hdirty, hcounts⟩ := hkept' p hp
      obtain ⟨hdirty', hcounts'⟩ := hreconciled.kept p hdirty
      exact ⟨hdirty', hcounts.trans hcounts'⟩

/-- What the reconciling phase leaves: the index, and the dirty counts that it reports. -/
structure Reconciled (m : ChunkMap) (changed : List ChunkPos) (dirty : List (ChunkPos × FullNeighborhoodCounts))
    (index : FullNeighborhoodIndex Nat) : Prop where
  exact : index.Exact
  contributors : ∀ pos, index.contributors.lookup pos = m.fullNeighborhood.contributors.lookup pos ∨
    index.contributors.lookup pos = m.currentFullContributor pos
  updated : ∀ pos, pos ∈ changed ∨ (∃ id, (pos, id) ∈ m.fullPublications ∧ m.currentFullContributor pos = some id) →
    index.contributors.lookup pos = m.currentFullContributor pos
  counts : ∀ pos counts, (pos, counts) ∈ dirty → counts = index.countsAt pos
  kept : (m.fullPublications = [] ∧ changed = [] ∧ dirty = [] ∧ index = m.fullNeighborhood) ∨
    index.dirtyCenters = [] ∧ ∀ p, p ∉ dirty.map Prod.fst →
      p ∉ m.fullNeighborhood.dirtyCenters ∧ index.countsAt p = m.fullNeighborhood.countsAt p

theorem reconcile_spec (h : Sound m) (changed : List ChunkPos) :
    ∃ dirty index, m.reconcileTickingReadiness changed =
      some (dirty, { m with fullPublications := [], fullNeighborhood := index }) ∧ Reconciled m changed dirty index := by
  unfold reconcileTickingReadiness
  by_cases hempty : (m.fullPublications.isEmpty && changed.isEmpty) = true
  · rw [if_pos hempty]
    obtain ⟨hpublications, hchanged⟩ := Bool.and_eq_true_iff.mp hempty
    rw [List.isEmpty_iff] at hpublications hchanged
    subst hchanged
    refine ⟨[], m.fullNeighborhood, ?_, h.exact, fun _ => .inl rfl, fun pos hpos => ?_, fun _ _ hd => (by cases hd),
      .inl ⟨hpublications, rfl, rfl, rfl⟩⟩
    · rw [← hpublications]
    · obtain hpos | ⟨id, hpos, -⟩ := hpos
      · cases hpos
      · rw [hpublications] at hpos
        cases hpos
  · rw [if_neg hempty]
    obtain ⟨marked, hmark, hmarked⟩ := foldl_markDirty changed m.fullNeighborhood
    have hexact : ({ m.fullNeighborhood with dirtyCenters := marked } : FullNeighborhoodIndex Nat).Exact :=
      ⟨h.exact.counts, h.exact.stored⟩
    have hentries : ∀ e ∈ (m.contributorUpdates changed).entries, e.2 = m.currentFullContributor e.1 :=
      fun e he => (lookup_contributorUpdates changed e.1).1 e.2 (AList.mem_lookup_iff.mpr he)
    obtain ⟨index, hrun, hexact', hlookup, hkept⟩ := reconcileContributors_spec hexact hentries
    dsimp only
    rw [hmark, hrun, Option.bind_eq_bind, Option.bind_some]
    have hkeys : ∀ p, p ∈ (m.contributorUpdates changed).entries.map Sigma.fst ↔
        ((m.contributorUpdates changed).lookup p).isSome = true := fun p => AList.lookup_isSome.symm
    refine ⟨index.dirtyCountsSnapshot, { index with dirtyCenters := [] }, rfl, ⟨hexact'.counts, hexact'.stored⟩,
      fun pos => ?_, fun pos hpos => ?_, fun pos counts hmem => (mem_dirtyCountsSnapshot.mp hmem).2,
      .inr ⟨rfl, fun p hp => ?_⟩⟩
    · dsimp only
      rw [hlookup]
      split
      · exact .inr rfl
      · exact .inl rfl
    · dsimp only
      rw [hlookup, if_pos]
      rw [hkeys]
      obtain hpos | ⟨id, hpos, hid⟩ := hpos
      · exact (lookup_contributorUpdates changed pos).2.1 hpos
      · exact (lookup_contributorUpdates changed pos).2.2 id hpos hid
    · have hclean : p ∉ index.dirtyCenters := by
        intro hmem
        exact hp (List.mem_map.mpr ⟨(p, index.countsAt p), mem_dirtyCountsSnapshot.mpr ⟨hmem, rfl⟩, rfl⟩)
      obtain ⟨hdirty, hcounts⟩ := hkept p hclean
      exact ⟨fun hmem => hdirty ((hmarked p).mpr (.inr hmem)), hcounts⟩

section
variable {changed : List ChunkPos} {dirty : List (ChunkPos × FullNeighborhoodCounts)} {index : FullNeighborhoodIndex Nat}

/-- No contributor is lost: the current one is the one that the index has. -/
theorem Reconciled.grows (hreconciled : Reconciled m changed dirty index) (h : Sound m) {pos : ChunkPos} {id : Nat}
    (hlookup : m.fullNeighborhood.contributors.lookup pos = some id) : index.contributors.lookup pos = some id := by
  obtain hsame | hcurrent := hreconciled.contributors pos
  · rw [hsame, hlookup]
  · rw [hcurrent]
    exact currentFullContributor_eq_some.mpr (h.contributors hlookup)

theorem readyFor_mono {index' : FullNeighborhoodIndex Nat} (h : index.Exact) (h' : index'.Exact)
    (hgrows : ∀ p, index.contributes p = true → index'.contributes p = true) (pos : ChunkPos) :
    (readyFor (index.countsAt pos)).toNat ≤ (readyFor (index'.countsAt pos)).toNat := by
  have hblock : (index.countsAt pos).blockTickingReady = true → (index'.countsAt pos).blockTickingReady = true := by
    intro hready
    obtain ⟨hfits, hall⟩ := (h.full_iff (.inl rfl)).mp (beq_iff_eq.mp hready)
    exact beq_iff_eq.mpr ((h'.full_iff (.inl rfl)).mpr ⟨hfits, fun p hp => hgrows p (hall p hp)⟩)
  have hentity : (index.countsAt pos).entityTickingReady = true → (index'.countsAt pos).entityTickingReady = true := by
    intro hready
    obtain ⟨hfits, hall⟩ := (h.full_iff (.inr rfl)).mp (beq_iff_eq.mp hready)
    exact beq_iff_eq.mpr ((h'.full_iff (.inr rfl)).mpr ⟨hfits, fun p hp => hgrows p (hall p hp)⟩)
  unfold readyFor
  by_cases he : (index.countsAt pos).entityTickingReady = true
  · rw [if_pos he, if_pos (hentity he)]
  · rw [if_neg he]
    by_cases hb : (index.countsAt pos).blockTickingReady = true
    · rw [if_pos hb, if_pos (hblock hb)]
      split <;> decide
    · rw [if_neg hb]
      exact Nat.zero_le _

theorem Reconciled.sound (hreconciled : Reconciled m changed dirty index) (h : Sound m) :
    Sound { m with fullPublications := [], fullNeighborhood := index } where
  loaded := h.loaded
  unloading := h.unloading
  exact := hreconciled.exact
  contributors {pos id} hlookup := by
    dsimp only at hlookup
    obtain hsame | hcurrent := hreconciled.contributors pos
    · rw [hsame] at hlookup
      exact h.contributors hlookup
    · rw [hcurrent] at hlookup
      exact currentFullContributor_eq_some.mp hlookup
  allowed {pos id} hchunk := by
    obtain ⟨hdesired, hready⟩ := h.allowed hchunk
    refine ⟨hdesired, Nat.le_trans hready (readyFor_mono h.exact hreconciled.exact (fun p hp => ?_) pos)⟩
    obtain ⟨id', hid'⟩ := Option.isSome_iff_exists.mp hp
    exact Option.isSome_iff_exists.mpr ⟨id', hreconciled.grows h hid'⟩

end

/-! ## Final readiness -/

/-- What the last phase leaves. -/
structure Finished (m m' : ChunkMap) (fails : ChunkPos → Bool) (dirty : List (ChunkPos × FullNeighborhoodCounts))
    (changed : Bool) : Prop where
  same : SameMaps m m'
  index : ∃ pending, m'.fullNeighborhood = { m.fullNeighborhood with pendingReadiness := pending }
  moved : ∀ id, m'.readinessOf id = m.readinessOf id ∨ ∃ pos counts, (pos, counts) ∈ dirty ∧
    m.chunks.lookup pos = some id ∧
    m'.readinessOf id = targetTickingReadiness (m.holders id) (m.holders id).loadLevel counts
  reached : ∀ {pos counts id}, (pos, counts) ∈ dirty → m.chunks.lookup pos = some id → fails pos = false →
    (targetTickingReadiness (m.holders id) (m.holders id).loadLevel counts).toNat ≤ (m'.readinessOf id).toNat
  flag : changed = false → ∀ id, m'.membershipOf id = m.membershipOf id

theorem applyFinalReadiness_spec (m : ChunkMap) (fails : ChunkPos → Bool)
    (dirty : List (ChunkPos × FullNeighborhoodCounts)) :
    Finished m (m.applyFinalReadiness fails dirty).1 fails dirty (m.applyFinalReadiness fails dirty).2 := by
  unfold applyFinalReadiness applyReadinessDemotions
  generalize hcandidates : m.readinessCandidates dirty (fun _ => none) = candidates
  have hmem : ∀ c, c ∈ candidates ↔ ∃ pos counts id, (pos, counts) ∈ dirty ∧ m.chunks.lookup pos = some id ∧
      c = ⟨pos, id, desiredTickingReadiness (m.holders id).loadLevel,
        targetTickingReadiness (m.holders id) (m.holders id).loadLevel counts⟩ := by
    intro c
    rw [← hcandidates, mem_readinessCandidates]
    rfl
  obtain ⟨hmoved, -, -⟩ := foldl_applyDemotion candidates (m, false)
  dsimp only
  generalize candidates.foldl applyDemotion (m, false) = s at hmoved
  obtain ⟨pending, hpending⟩ := updatePendingReadiness_index s.1 candidates
  rw [hpending]
  obtain ⟨hmoved', hle', hreached⟩ := foldl_applyPromotion fails candidates
    ({ s.1 with fullNeighborhood := { s.1.fullNeighborhood with pendingReadiness := pending } }, s.2)
  generalize candidates.foldl (applyPromotion fails)
    ({ s.1 with fullNeighborhood := { s.1.fullNeighborhood with pendingReadiness := pending } }, s.2) = s' at hmoved' hle' hreached
  obtain ⟨pending', hpending'⟩ := updatePendingReadiness_index s'.1 candidates
  rw [hpending']
  have htarget : ∀ id, (∃ c ∈ candidates, c.holder = id ∧ s'.1.readinessOf id = c.target) → ∃ pos counts,
      (pos, counts) ∈ dirty ∧ m.chunks.lookup pos = some id ∧
      s'.1.readinessOf id = targetTickingReadiness (m.holders id) (m.holders id).loadLevel counts := by
    intro id ⟨c, hc, hid, hreadiness⟩
    obtain ⟨pos, counts, id', hd, hid', rfl⟩ := (hmem c).mp hc
    dsimp only at hid hreadiness
    subst hid
    exact ⟨pos, counts, hd, hid', hreadiness⟩
  refine ⟨((hmoved.same.trans (.index s.1 _)).trans hmoved'.same).trans (.index _ _), ⟨pending', ?_⟩, fun id => ?_,
    fun {pos counts id} hd hid hfails => ?_, fun hflag id => ?_⟩
  · dsimp only
    rw [hmoved'.index]
    dsimp only
    rw [hmoved.index]
  · obtain hsame' | hcandidate := hmoved'.moved id
    · obtain hsame | ⟨c, hc, hid, hreadiness⟩ := hmoved.moved id
      · exact .inl (hsame'.trans hsame)
      · exact .inr (htarget id ⟨c, hc, hid, hsame'.trans hreadiness⟩)
    · exact .inr (htarget id hcandidate)
  · exact hreached _ ((hmem _).mpr ⟨pos, counts, id, hd, hid, rfl⟩) hfails
  · obtain ⟨hflag', hsame'⟩ := hmoved'.flag hflag
    obtain ⟨-, hsame⟩ := hmoved.flag hflag'
    exact (hsame' id).trans (hsame id)

theorem Finished.sound {fails : ChunkPos → Bool} {dirty : List (ChunkPos × FullNeighborhoodCounts)} {changed : Bool}
    (hfinished : Finished m m' fails dirty changed) (h : Sound m)
    (hcounts : ∀ pos counts, (pos, counts) ∈ dirty → counts = m.fullNeighborhood.countsAt pos) : Sound m' := by
  obtain ⟨pending, hindex⟩ := hfinished.index
  refine ⟨hfinished.same.loaded h, fun {pos id} hunloading => ?_, ?_, fun {pos id} hlookup => ?_, fun {pos id} hchunk => ?_⟩
  · rw [hfinished.same.unloadingChunks] at hunloading
    obtain ⟨hlt, hpos, hactive, hready⟩ := h.unloading hunloading
    rw [hfinished.same.nextHolder, hfinished.same.holders]
    refine ⟨hlt, hpos, hactive, ?_⟩
    obtain hsame | ⟨pos', -, -, hchunk, -⟩ := hfinished.moved id
    · exact hsame.trans hready
    · exact absurd hchunk (h.unloading_ne hunloading)
  · rw [hindex]
    exact ⟨h.exact.counts, h.exact.stored⟩
  · rw [hindex] at hlookup
    rw [hfinished.same.chunks, hfinished.same.holders]
    exact h.contributors hlookup
  · rw [hfinished.same.chunks] at hchunk
    have hcountsAt : m'.fullNeighborhood.countsAt pos = m.fullNeighborhood.countsAt pos := by
      rw [hindex]
      rfl
    rw [hcountsAt, hfinished.same.holders]
    obtain hsame | ⟨pos', counts, hd, hchunk', hreadiness⟩ := hfinished.moved id
    · rw [hsame]
      exact h.allowed hchunk
    · obtain rfl := h.inj hchunk' hchunk
      rw [hreadiness, hcounts _ _ hd]
      exact targetTickingReadiness_le (blockReady_of_entityReady h.exact)

end ChunkMap

end Foton.Readiness
