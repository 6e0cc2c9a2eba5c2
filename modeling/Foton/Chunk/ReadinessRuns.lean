import Foton.Chunk.ReadinessPhases

/-!
# Readiness over runs of commits

Every state of a run, in the middle of a commit or not, has only ready holders
whose neighbourhood is loaded and Full. Between commits the readiness is exactly
what levels and neighbourhoods allow, and the snapshot of the ticking chunks is
the one that a rebuild would make.
-/

namespace Foton.Readiness

open ChunkMap

/-- The changes of a commit are at different positions. -/
def Step.WellFormed : Step → Prop
  | .beginCommit changes => (changes.map LevelChange.pos).Nodup
  | _ => True

/-- Post-processing fails nowhere. -/
def Step.PostProcesses : Step → Prop
  | .finish postProcessFails => ∀ pos, postProcessFails pos = false
  | _ => True

def System.run (steps : List Step) : Option System := steps.foldlM System.step .start

/-! ## Soundness -/

def Phase.Sound (m : ChunkMap) : Phase → Prop
  | .committing remaining _ _ => Awaits m remaining
  | .finishing dirty _ => ∀ pos counts, (pos, counts) ∈ dirty → counts = m.fullNeighborhood.countsAt pos
  | _ => True

structure System.Sound (s : System) : Prop where
  map : s.map.Sound
  phase : s.phase.Sound s.map

theorem Phase.Sound.later {phase : Phase} {m m' : ChunkMap} (h : phase.Sound m)
    (hholders : ∀ id, Later (m.holders id) (m'.holders id)) (hchunks : m'.chunks = m.chunks)
    (hneighborhood : m'.fullNeighborhood = m.fullNeighborhood) : phase.Sound m' := by
  cases phase with
  | committing remaining changed rebuild =>
    refine ⟨h.nodup, fun c hc => ?_, fun c hc {id} hchunk => ?_⟩
    · rw [hneighborhood]
      exact h.contributors c hc
    · rw [hchunks] at hchunk
      unfold readinessOf
      rw [(hholders id).readiness]
      exact h.desired c hc hchunk
  | finishing dirty rebuild =>
    intro pos counts hmem
    rw [hneighborhood]
    exact h pos counts hmem
  | idle => trivial
  | reconciling changed rebuild => trivial

theorem nodup_mergeDeferredRevivals {m : ChunkMap} {changes : List LevelChange}
    (h : (changes.map LevelChange.pos).Nodup) : ((m.mergeDeferredRevivals changes).1.map LevelChange.pos).Nodup := by
  unfold mergeDeferredRevivals
  dsimp only
  rw [List.map_append, List.map_map]
  refine List.nodup_append.mpr ⟨h, ?_, ?_⟩
  · have hkeys : (m.deferredRevivals.entries.map Sigma.fst).Nodup := m.deferredRevivals.keys_nodup
    exact (hkeys.sublist (List.filter_sublist.map Sigma.fst) :)
  · intro p hp q hq heq
    obtain ⟨e, he, rfl⟩ := List.mem_map.mp hq
    have hnot := (List.mem_filter.mp he).2
    have hin : (changes.map LevelChange.pos).contains e.1 = true := 
      List.contains_iff_mem.mpr (show e.1 ∈ _ from (show p = e.1 from heq) ▸ hp)
    rw [hin] at hnot
    cases hnot

theorem sound_mergeDeferredRevivals {m : ChunkMap} (h : m.Sound) (changes : List LevelChange) :
    (m.mergeDeferredRevivals changes).2.Sound :=
  h.later (fun _ => .refl _) rfl rfl (fun _ _ hp => hp) rfl

/-- The step of a thread other than the commit's. -/
structure Aside (s s' : System) : Prop where
  phase : s'.phase = s.phase
  holders : ∀ id, Later (s.map.holders id) (s'.map.holders id)
  nextHolder : s'.map.nextHolder = s.map.nextHolder
  chunks : s'.map.chunks = s.map.chunks
  unloading : ∀ pos id, s'.map.unloadingChunks.lookup pos = some id → s.map.unloadingChunks.lookup pos = some id
  index : s'.map.fullNeighborhood = s.map.fullNeighborhood
  publications : ∀ x ∈ s.map.fullPublications, x ∈ s'.map.fullPublications
  tickingChunks : s'.map.tickingChunks = s.map.tickingChunks
  initialized : (∀ id, (s.map.holders id).fullStatusInitialized = true → (s.map.holders id).publishedFull = true) →
    ∀ id, (s'.map.holders id).fullStatusInitialized = true → (s'.map.holders id).publishedFull = true
  /-- A chunk that becomes Full is queued. -/
  queued : (∀ id, (s.map.holders id).fullStatusInitialized = true → (s.map.holders id).publishedFull = true) →
    ∀ id, (s'.map.holders id).hasFullChunk = true → (s.map.holders id).hasFullChunk = true ∨
      ((s.map.holders id).pos, id) ∈ s'.map.fullPublications

/-- The steps of a run: those of other threads, and the phases with what each of them leaves. -/
inductive Case (s s' : System) : Step → Prop
  | aside {step : Step} (h : Aside s s') (hstep : ∀ changes, step ≠ .beginCommit changes) : Case s s' step
  | beginCommit {changes : List LevelChange} {m : ChunkMap} {changed : Bool} (hphase : s.phase = .idle)
      (hprepared : Prepared (s.map.mergeDeferredRevivals changes).2 m (s.map.mergeDeferredRevivals changes).1 changed)
      (hs' : s' = ⟨m, .committing (s.map.mergeDeferredRevivals changes).1
        ((s.map.mergeDeferredRevivals changes).1.map LevelChange.pos)
        ((s.map.mergeDeferredRevivals changes).2.simulationChangesTickingSnapshot
          (s.map.mergeDeferredRevivals changes).1 || changed)⟩) : Case s s' (.beginCommit changes)
  | committed {changed : List ChunkPos} {rebuild : Bool} (hphase : s.phase = .committing [] changed rebuild)
      (hs' : s' = ⟨s.map, .reconciling changed rebuild⟩) : Case s s' .commitChange
  | commitChange {change : LevelChange} {rest : List LevelChange} {changed : List ChunkPos} {rebuild : Bool}
      (hphase : s.phase = .committing (change :: rest) changed rebuild)
      (hupdated : Updated change s.map (s.map.updateChunkLevel change))
      (hs' : s' = ⟨s.map.updateChunkLevel change, .committing rest changed rebuild⟩) : Case s s' .commitChange
  | reconcile {changed : List ChunkPos} {rebuild : Bool} {dirty : List (ChunkPos × FullNeighborhoodCounts)}
      {index : FullNeighborhoodIndex Nat} (hphase : s.phase = .reconciling changed rebuild)
      (hreconciled : Reconciled s.map changed dirty index)
      (hs' : s' = ⟨{ s.map with fullPublications := [], fullNeighborhood := index }, .finishing dirty rebuild⟩) :
      Case s s' .reconcile
  | finish {fails : ChunkPos → Bool} {dirty : List (ChunkPos × FullNeighborhoodCounts)} {rebuild changed : Bool}
      {m : ChunkMap} (hphase : s.phase = .finishing dirty rebuild) (hfinished : Finished s.map m fails dirty changed)
      (hs' : s' = ⟨if rebuild || changed then m.rebuildTickingChunkSnapshot else m, .idle⟩) : Case s s' (.finish fails)

theorem aside_publishStatus (s : System) (id : Nat) : Aside s { s with map := s.map.publishStatus id } := by
  refine ⟨rfl, later_publishStatus id, rfl, rfl, fun _ _ hp => hp, rfl, fun _ hx => hx, rfl, fun hall other => ?_,
    fun hall other => ?_⟩
  · by_cases heq : other = id
    · simp [publishStatus, setHolder, heq]
    · simpa [publishStatus, setHolder, heq] using hall other
  · by_cases heq : other = id
    · subst heq
      simpa [publishStatus, setHolder, Holder.hasFullChunk] using fun hinit => .inl ⟨hinit, hall other hinit⟩
    · simpa [publishStatus, setHolder, heq] using .inl

theorem aside_publishFull (s : System) (id : Nat) : Aside s { s with map := s.map.publishFull id } := by
  have hlater := later_publishFull (m := s.map) id
  revert hlater
  unfold publishFull
  split
  · rename_i hpublished
    intro hlater
    refine ⟨rfl, hlater, rfl, rfl, fun _ _ hp => hp, rfl, fun _ hx => List.mem_append_left _ hx, rfl, fun hall other => ?_,
      fun hall other => ?_⟩
    · by_cases heq : other = id
      · simp [setHolder, heq, hpublished]
      · simpa [setHolder, heq] using hall other
    · by_cases heq : other = id
      · subst heq
        exact fun _ => .inr (List.mem_append_right _ List.mem_cons_self)
      · simpa [setHolder, heq] using .inl
  · exact fun _ => ⟨rfl, fun _ => .refl _, rfl, rfl, fun _ _ hp => hp, rfl, fun _ hx => hx, rfl, fun hall => hall,
      fun _ _ => .inl⟩

/-- Saving only changes the lifecycle of unloading holders. -/
theorem aside_lifecycle {s : System} {f : Nat → SaveLifecycle}
    (hlater : ∀ id, Later (s.map.holders id) { s.map.holders id with lifecycle := f id }) :
    Aside s { s with map := { s.map with holders := fun id => { s.map.holders id with lifecycle := f id } } } :=
  ⟨rfl, hlater, rfl, rfl, fun _ _ hp => hp, rfl, fun _ hx => hx, rfl, fun hall => hall, fun _ _ => .inl⟩

theorem aside_beginSavePreparation (s : System) (id : Nat) :
    Aside s { s with map := s.map.beginSavePreparation id } := by
  have hlater := later_beginSavePreparation (m := s.map) id
  have heq : s.map.beginSavePreparation id = { s.map with holders := fun other =>
      { s.map.holders other with lifecycle := ((s.map.beginSavePreparation id).holders other).lifecycle } } := by
    unfold beginSavePreparation
    split
    · unfold setHolder
      congr 1
      funext other
      by_cases heq : other = id <;> simp [heq]
    · rfl
  rw [heq]
  apply aside_lifecycle
  intro other
  have hother := hlater other
  rw [heq] at hother
  exact hother

theorem aside_endSavePreparation (s : System) (id : Nat) :
    Aside s { s with map := s.map.endSavePreparation id } := by
  have hlater := later_endSavePreparation (m := s.map) id
  have heq : s.map.endSavePreparation id = { s.map with holders := fun other =>
      { s.map.holders other with lifecycle := ((s.map.endSavePreparation id).holders other).lifecycle } } := by
    unfold endSavePreparation
    split
    · unfold setHolder
      congr 1
      funext other
      by_cases heq : other = id <;> simp [heq]
    · rfl
  rw [heq]
  apply aside_lifecycle
  intro other
  have hother := hlater other
  rw [heq] at hother
  exact hother

theorem aside_finishUnload (s : System) (pos : ChunkPos) :
    Aside s { s with map := { s.map with unloadingChunks := s.map.unloadingChunks.erase pos } } := by
  refine ⟨rfl, fun _ => .refl _, rfl, rfl, fun p id hp => ?_, rfl, fun _ hx => hx, rfl, fun hall => hall, fun _ _ => .inl⟩
  change (s.map.unloadingChunks.erase pos).lookup p = some id at hp
  rw [AssocList.lookup_erase] at hp
  split at hp
  · cases hp
  · exact hp

theorem System.step_cases {s s' : System} {step : Step} (h : s.Sound) (hs : s.step step = some s') : Case s s' step := by
  cases step with
  | publishStatus id => exact .aside (Option.some.inj hs ▸ aside_publishStatus s id) nofun
  | publishFull id => exact .aside (Option.some.inj hs ▸ aside_publishFull s id) nofun
  | beginSavePreparation id => exact .aside (Option.some.inj hs ▸ aside_beginSavePreparation s id) nofun
  | endSavePreparation id => exact .aside (Option.some.inj hs ▸ aside_endSavePreparation s id) nofun
  | finishUnload pos => exact .aside (Option.some.inj hs ▸ aside_finishUnload s pos) nofun
  | beginCommit changes =>
    unfold System.step at hs
    dsimp only at hs
    split at hs
    · rename_i hphase
      obtain ⟨m, changed, hrun, hprepared⟩ := prepare_spec (sound_mergeDeferredRevivals h.map changes) (s.map.mergeDeferredRevivals changes).1
      rw [hrun] at hs
      exact .beginCommit hphase hprepared (Option.some.inj hs).symm
    · cases hs
  | commitChange =>
    unfold System.step at hs
    dsimp only at hs
    split at hs
    · rename_i changed rebuild hphase
      exact .committed hphase (Option.some.inj hs).symm
    · rename_i change rest changed rebuild hphase
      have hawaits : Awaits s.map (change :: rest) := by
        have hp := h.phase
        rw [hphase] at hp
        exact hp
      exact .commitChange hphase (updateChunkLevel_spec h.map hawaits) (Option.some.inj hs).symm
    · cases hs
  | reconcile =>
    unfold System.step at hs
    dsimp only at hs
    split at hs
    · rename_i changed rebuild hphase
      obtain ⟨dirty, index, hrun, hreconciled⟩ := reconcile_spec h.map changed
      rw [hrun] at hs
      exact .reconcile hphase hreconciled (Option.some.inj hs).symm
    · cases hs
  | finish fails =>
    unfold System.step at hs
    dsimp only at hs
    split at hs
    · rename_i dirty rebuild hphase
      exact .finish hphase (applyFinalReadiness_spec s.map fails dirty) (Option.some.inj hs).symm
    · cases hs

theorem System.Sound.step {s s' : System} {step : Step} (h : s.Sound) (hstep : step.WellFormed)
    (hs : s.step step = some s') : s'.Sound := by
  cases System.step_cases h hs with
  | aside haside _ =>
    refine ⟨h.map.later haside.holders haside.nextHolder haside.chunks haside.unloading haside.index, ?_⟩
    rw [haside.phase]
    exact h.phase.later haside.holders haside.chunks haside.index
  | beginCommit hphase hprepared hs' =>
    rw [hs']
    exact ⟨hprepared.sound (sound_mergeDeferredRevivals h.map _), hprepared.awaits (nodup_mergeDeferredRevivals hstep)⟩
  | committed hphase hs' =>
    rw [hs']
    exact ⟨h.map, trivial⟩
  | commitChange hphase hupdated hs' =>
    have hawaits := h.phase
    rw [hphase] at hawaits
    rw [hs']
    exact ⟨hupdated.sound, Awaits.tail hawaits hupdated⟩
  | reconcile hphase hreconciled hs' =>
    rw [hs']
    exact ⟨hreconciled.sound h.map, hreconciled.counts⟩
  | finish hphase hfinished hs' =>
    have hcounts := h.phase
    rw [hphase] at hcounts
    have hsound := hfinished.sound h.map hcounts
    rw [hs']
    refine ⟨?_, trivial⟩
    dsimp only
    split
    · exact ⟨hsound.loaded, hsound.unloading, hsound.exact, hsound.contributors, hsound.allowed⟩
    · exact hsound

theorem System.sound_start : System.start.Sound := ⟨ChunkMap.sound_start, trivial⟩

/-- The invariant rule for runs from the start. -/
theorem System.run_invariant {I : System → Prop} {C : Step → Prop} (hstart : I System.start)
    (hstep : ∀ s step s', s.Sound → I s → step.WellFormed → C step → s.step step = some s' → I s') {steps : List Step}
    (hwf : ∀ step ∈ steps, step.WellFormed) (hC : ∀ step ∈ steps, C step) {s : System} (hs : System.run steps = some s) :
    s.Sound ∧ I s := by
  unfold System.run at hs
  have hsound := System.sound_start
  revert hsound hstart hs
  generalize System.start = s₀
  intro hstart hs hsound
  induction steps generalizing s₀ with
  | nil =>
    cases hs
    exact ⟨hsound, hstart⟩
  | cons step rest ih =>
    rw [List.foldlM_cons] at hs
    obtain ⟨s₁, hs₁, hs⟩ := Option.bind_eq_some_iff.mp hs
    have hstep₁ := hwf step List.mem_cons_self
    exact ih (fun t ht => hwf t (List.mem_cons_of_mem _ ht)) (fun t ht => hC t (List.mem_cons_of_mem _ ht)) s₁
      (hstep s₀ step s₁ hsound hstart hstep₁ (hC step List.mem_cons_self) hs₁) hs (hsound.step hstep₁ hs₁)

/-! ## Safety -/

/-- Each position within `radius` of `pos` is a loaded Full chunk with a Full level. -/
def FullAround (m : ChunkMap) (pos : ChunkPos) (radius : Nat) : Prop :=
  pos.Fits radius ∧ ∀ p, p.chebyshev pos ≤ radius → ∃ holder, m.holderAt p = some holder ∧ holder.isFullContributor = true

theorem holderAt_eq_some {m : ChunkMap} {pos : ChunkPos} {holder : Holder} :
    m.holderAt pos = some holder ↔ ∃ id, m.chunks.lookup pos = some id ∧ m.holders id = holder := Option.map_eq_some_iff

theorem fullAround_of_contributes {m : ChunkMap} (h : m.Sound) {pos : ChunkPos} {radius : Nat} (hfits : pos.Fits radius)
    (hall : ∀ p, p.chebyshev pos ≤ radius → m.fullNeighborhood.contributes p = true) : FullAround m pos radius := by
  refine ⟨hfits, fun p hp => ?_⟩
  obtain ⟨id, hid⟩ := Option.isSome_iff_exists.mp (hall p hp)
  obtain ⟨hchunk, hfull⟩ := h.contributors hid
  exact ⟨m.holders id, holderAt_eq_some.mpr ⟨id, hchunk, rfl⟩, hfull⟩

theorem block_of_desired {level : Option ChunkTicketLevel} {r : TickingReadiness} (hr : r ≠ .unready)
    (h : r.toNat ≤ (desiredTickingReadiness level).toNat) : level.any (·.isBlockTicking) = true := by
  unfold desiredTickingReadiness at h
  by_cases he : level.any (·.isEntityTicking) = true
  · exact blockTicking_of_entityTicking he
  · rw [if_neg he] at h
    by_cases hb : level.any (·.isBlockTicking) = true
    · exact hb
    · rw [if_neg hb] at h
      exact absurd (TickingReadiness.eq_unready_of_le h) hr

theorem entity_of_desired {level : Option ChunkTicketLevel}
    (h : TickingReadiness.entityTicking.toNat ≤ (desiredTickingReadiness level).toNat) :
    level.any (·.isEntityTicking) = true := by
  unfold desiredTickingReadiness at h
  by_cases he : level.any (·.isEntityTicking) = true
  · exact he
  · rw [if_neg he] at h
    split at h <;> exact absurd h (by decide)

theorem Sound.safe {m : ChunkMap} (h : m.Sound) {pos : ChunkPos} {holder : Holder} (hholder : m.holderAt pos = some holder) :
    (holder.readiness ≠ .unready → holder.loadLevel.any (·.isBlockTicking) = true ∧ FullAround m pos 1) ∧
    (holder.readiness = .entityTicking → holder.loadLevel.any (·.isEntityTicking) = true ∧ FullAround m pos 2) := by
  obtain ⟨id, hchunk, rfl⟩ := holderAt_eq_some.mp hholder
  obtain ⟨hdesired, hready⟩ := h.allowed hchunk
  have hblock : (m.fullNeighborhood.countsAt pos).blockTickingReady = true → FullAround m pos 1 := by
    intro hcount
    obtain ⟨hfits, hall⟩ := (h.exact.full_iff (.inl rfl)).mp (beq_iff_eq.mp hcount)
    exact fullAround_of_contributes h hfits hall
  constructor
  · intro hne
    refine ⟨block_of_desired hne hdesired, hblock ?_⟩
    obtain hu | ⟨-, he | hb⟩ | ⟨-, he⟩ := readyFor_cases hready
    · exact absurd hu hne
    · exact blockReady_of_entityReady h.exact he
    · exact hb
    · exact blockReady_of_entityReady h.exact he
  · intro heq
    unfold readinessOf at hdesired hready
    rw [heq] at hdesired hready
    refine ⟨entity_of_desired hdesired, ?_⟩
    obtain hu | ⟨hu, -⟩ | ⟨-, he⟩ := readyFor_cases hready
    · cases hu
    · cases hu
    · obtain ⟨hfits, hall⟩ := (h.exact.full_iff (.inr rfl)).mp (beq_iff_eq.mp he)
      exact fullAround_of_contributes h hfits hall

/-- In every state of a run, also in the middle of a commit, a chunk that ticks has a level that lets it tick and is
surrounded by loaded Full chunks; and no phase of a commit meets an error of the neighbourhood index. -/
theorem ticking_safe {steps : List Step} (hwf : ∀ step ∈ steps, step.WellFormed) {s : System}
    (hs : System.run steps = some s) :
    (∀ pos holder, s.map.holderAt pos = some holder →
      (holder.readiness ≠ .unready → holder.loadLevel.any (·.isBlockTicking) = true ∧ FullAround s.map pos 1) ∧
      (holder.readiness = .entityTicking → holder.loadLevel.any (·.isEntityTicking) = true ∧ FullAround s.map pos 2)) ∧
    (s.phase = .idle → ∀ changes, (s.step (.beginCommit changes)).isSome = true) ∧
    (∀ changed rebuild, s.phase = .reconciling changed rebuild → (s.step .reconcile).isSome = true) := by
  obtain ⟨hsound, -⟩ := System.run_invariant (I := fun _ => True) (C := fun _ => True) trivial
    (fun _ _ _ _ _ _ _ _ => trivial) hwf (fun _ _ => trivial) hs
  refine ⟨fun pos holder => Sound.safe hsound.map, fun hidle changes => ?_, fun changed rebuild hphase => ?_⟩
  · obtain ⟨m, changed, hrun, -⟩ := prepare_spec (sound_mergeDeferredRevivals hsound.map changes) (s.map.mergeDeferredRevivals changes).1
    unfold System.step
    rw [hidle]
    dsimp only
    rw [hrun]
    rfl
  · obtain ⟨dirty, index, hrun, -⟩ := reconcile_spec hsound.map changed
    unfold System.step
    rw [hphase]
    dsimp only
    rw [hrun]
    rfl

/-- Nine chunks around the origin with Full levels; the one in the middle may tick. -/
def square : List LevelChange :=
  (offsets 1).map fun offset =>
    ⟨(⟨0, 0⟩ : ChunkPos).shift offset.1 offset.2, some (if offset = (0, 0) then .blockTickingChunk else .fullChunk),
      some (if offset = (0, 0) then .blockTickingChunk else .fullChunk)⟩

/-- The square is loaded, its chunks become Full, and the commit ends. -/
def squareSteps : List Step :=
  .beginCommit square :: (List.replicate 10 .commitChange ++
    ((List.range 9).flatMap fun id => [.publishStatus id, .publishFull id]) ++ [.reconcile, .finish fun _ => false])

theorem squareSteps_wellFormed : ∀ step ∈ squareSteps, step.WellFormed := by
  intro step hstep
  obtain rfl | hrest := List.mem_cons.mp hstep
  · change (square.map LevelChange.pos).Nodup
    decide
  · cases step with
    | beginCommit changes => simp at hrest
    | _ => trivial

theorem squareSteps_postProcesses : ∀ step ∈ squareSteps, step.PostProcesses := by
  intro step hstep
  cases step with
  | finish fails =>
    have hfails : fails = fun _ => false := by simpa [squareSteps] using hstep
    intro pos
    rw [hfails]
  | _ => trivial

theorem square_run : ∃ s holder, System.run squareSteps = some s ∧ s.phase.isIdle = true ∧ s.map.fullPublications = [] ∧
    s.map.holderAt ⟨0, 0⟩ = some holder ∧ holder.readiness = .blockTicking := by
  have hrun : ((System.run squareSteps).any fun s => s.phase.isIdle && s.map.fullPublications.isEmpty &&
      (s.map.holderAt ⟨0, 0⟩).any fun holder => holder.readiness == .blockTicking) = true := by
    decide +kernel
  rw [Option.any_eq_true] at hrun
  obtain ⟨s, hs, hall⟩ := hrun
  rw [Bool.and_eq_true, Bool.and_eq_true, List.isEmpty_iff, Option.any_eq_true] at hall
  obtain ⟨⟨hidle, hdrained⟩, holder, hholder, hready⟩ := hall
  exact ⟨s, holder, hs, hidle, hdrained, hholder, beq_iff_eq.mp hready⟩

theorem ticking_safe_square : ∃ s holder, System.run squareSteps = some s ∧ s.map.holderAt ⟨0, 0⟩ = some holder ∧
    holder.readiness = .blockTicking ∧ FullAround s.map ⟨0, 0⟩ 1 := by
  obtain ⟨s, holder, hs, -, -, hholder, hready⟩ := square_run
  have hsafe := (ticking_safe squareSteps_wellFormed hs).1 _ _ hholder
  exact ⟨s, holder, hs, hholder, hready, (hsafe.1 (by rw [hready]; exact nofun)).2⟩

/-! ## Exactness -/

/-- Away from `dirty` the readiness is what level and neighbourhood allow; away from `changed` a Full chunk
contributes or its publication is queued. -/
structure Settled (m : ChunkMap) (changed dirty : List ChunkPos) : Prop where
  ready : ∀ {pos id}, m.chunks.lookup pos = some id → pos ∉ dirty →
    (m.readinessOf id).toNat = min (desiredTickingReadiness (m.holders id).loadLevel).toNat
      (readyFor (m.fullNeighborhood.countsAt pos)).toNat
  complete : ∀ {pos id}, m.chunks.lookup pos = some id → (m.holders id).isFullContributor = true → pos ∉ changed →
    m.fullNeighborhood.contributors.lookup pos = some id ∨ (pos, id) ∈ m.fullPublications
  initialized : ∀ id, (m.holders id).fullStatusInitialized = true → (m.holders id).publishedFull = true

def System.Steady (s : System) : Prop :=
  match s.phase with
  | .idle => s.map.fullNeighborhood.dirtyCenters = [] ∧ Settled s.map [] []
  | .committing remaining changed _ =>
    (∀ c ∈ remaining, c.pos ∈ changed) ∧ (∀ p ∈ changed, p ∈ s.map.fullNeighborhood.dirtyCenters) ∧
      (changed = [] → s.map.fullNeighborhood.dirtyCenters = []) ∧
      Settled s.map changed s.map.fullNeighborhood.dirtyCenters
  | .reconciling changed _ =>
    (changed = [] → s.map.fullNeighborhood.dirtyCenters = []) ∧
      Settled s.map changed s.map.fullNeighborhood.dirtyCenters
  | .finishing dirty _ =>
    s.map.fullNeighborhood.dirtyCenters = [] ∧ Settled s.map [] (dirty.map Prod.fst)

theorem Settled.aside {s s' : System} {changed dirty : List ChunkPos} (h : Settled s.map changed dirty)
    (hsound : s.map.Sound) (haside : Aside s s') : Settled s'.map changed dirty where
  ready {pos id} hchunk hpos := by
    rw [haside.chunks] at hchunk
    unfold readinessOf
    rw [haside.index, (haside.holders id).readiness, (haside.holders id).loadLevel]
    exact h.ready hchunk hpos
  complete {pos id} hchunk hfull hpos := by
    rw [haside.chunks] at hchunk
    rw [haside.index]
    unfold Holder.isFullContributor at hfull
    rw [Bool.and_eq_true, (haside.holders id).loadLevel] at hfull
    obtain hold | hqueued := haside.queued h.initialized id hfull.2
    · obtain hcontributor | hpublication := h.complete hchunk (Bool.and_eq_true_iff.mpr ⟨hfull.1, hold⟩) hpos
      · exact .inl hcontributor
      · exact .inr (haside.publications _ hpublication)
    · rw [(hsound.loaded hchunk).2.1] at hqueued
      exact .inr hqueued
  initialized := haside.initialized h.initialized

theorem Settled.prepared {m m' : ChunkMap} {changes : List LevelChange} {changed : Bool} (h : Settled m [] [])
    (hsound : m.Sound) (hprepared : Prepared m m' changes changed) :
    Settled m' (changes.map LevelChange.pos) m'.fullNeighborhood.dirtyCenters where
  ready {pos id} hchunk hpos := by
    rw [hprepared.same.chunks] at hchunk
    rw [(hprepared.removed.kept pos hpos).2, hprepared.same.holders]
    have hsame : m'.readinessOf id = m.readinessOf id := by
      obtain hsame | ⟨p, hp, hchunk'⟩ := hprepared.moved id
      · exact hsame
      · rw [hsound.inj hchunk hchunk'] at hpos
        exact absurd hp hpos
    rw [hsame]
    exact h.ready hchunk List.not_mem_nil
  complete {pos id} hchunk hfull hpos := by
    rw [hprepared.same.chunks] at hchunk
    rw [hprepared.same.holders] at hfull
    rw [hprepared.removed.others hpos, hprepared.same.fullPublications]
    exact h.complete hchunk hfull List.not_mem_nil
  initialized id := by
    rw [hprepared.same.holders]
    exact h.initialized id

theorem Settled.updated {m m' : ChunkMap} {change : LevelChange} {changed dirty : List ChunkPos}
    (h : Settled m changed dirty) (hupdated : Updated change m m') (hchanged : change.pos ∈ changed)
    (hdirty : change.pos ∈ dirty) : Settled m' changed dirty where
  ready {pos id} hchunk hpos := by
    have hne : pos ≠ change.pos := fun heq => hpos (heq ▸ hdirty)
    rw [hupdated.elsewhere.chunks hne] at hchunk
    unfold readinessOf
    rw [hupdated.elsewhere.holders hne hchunk, hupdated.elsewhere.index]
    exact h.ready hchunk hpos
  complete {pos id} hchunk hfull hpos := by
    have hne : pos ≠ change.pos := fun heq => hpos (heq ▸ hchanged)
    rw [hupdated.elsewhere.chunks hne] at hchunk
    rw [hupdated.elsewhere.holders hne hchunk] at hfull
    rw [hupdated.elsewhere.index]
    exact (h.complete hchunk hfull hpos).imp_right (hupdated.elsewhere.publications _)
  initialized := hupdated.initialized h.initialized

theorem Settled.reconciled {m : ChunkMap} {changed : List ChunkPos} {dirty : List (ChunkPos × FullNeighborhoodCounts)}
    {index : FullNeighborhoodIndex Nat} (h : Settled m changed m.fullNeighborhood.dirtyCenters) (hsound : m.Sound)
    (hnone : changed = [] → m.fullNeighborhood.dirtyCenters = []) (hreconciled : Reconciled m changed dirty index) :
    index.dirtyCenters = [] ∧
      Settled { m with fullPublications := [], fullNeighborhood := index } [] (dirty.map Prod.fst) := by
  have hkept : index.dirtyCenters = [] ∧ ∀ p, p ∉ dirty.map Prod.fst →
      p ∉ m.fullNeighborhood.dirtyCenters ∧ index.countsAt p = m.fullNeighborhood.countsAt p := by
    obtain ⟨-, hchanged, -, rfl⟩ | hkept := hreconciled.kept
    · refine ⟨hnone hchanged, fun p _ => ⟨?_, rfl⟩⟩
      rw [hnone hchanged]
      exact List.not_mem_nil
    · exact hkept
  refine ⟨hkept.1, fun {pos id} hchunk hpos => ?_, fun {pos id} hchunk hfull _ => ?_, h.initialized⟩
  · obtain ⟨hdirty, hcounts⟩ := hkept.2 pos hpos
    have hready := h.ready hchunk hdirty
    dsimp only
    rw [hcounts]
    exact hready
  · have hcurrent : m.currentFullContributor pos = some id := currentFullContributor_eq_some.mpr ⟨hchunk, hfull⟩
    refine .inl ?_
    dsimp only
    by_cases hmem : pos ∈ changed
    · rw [hreconciled.updated pos (.inl hmem), hcurrent]
    · obtain hcontributor | hpublication := h.complete hchunk hfull hmem
      · exact hreconciled.grows hsound hcontributor
      · rw [hreconciled.updated pos (.inr ⟨id, hpublication, hcurrent⟩), hcurrent]

/-- The target of a loaded holder, its own flags aside: an unpublished chunk has no full neighbourhood. -/
theorem target_eq_min {m : ChunkMap} (h : m.Sound) {pos : ChunkPos} {id : Nat} (hchunk : m.chunks.lookup pos = some id) :
    (targetTickingReadiness (m.holders id) (m.holders id).loadLevel (m.fullNeighborhood.countsAt pos)).toNat =
      min (desiredTickingReadiness (m.holders id).loadLevel).toNat (readyFor (m.fullNeighborhood.countsAt pos)).toNat := by
  by_cases hready : readyFor (m.fullNeighborhood.countsAt pos) = .unready
  · rw [hready]
    have hle : (targetTickingReadiness (m.holders id) (m.holders id).loadLevel
        (m.fullNeighborhood.countsAt pos)).toNat ≤ (readyFor (m.fullNeighborhood.countsAt pos)).toNat :=
      (targetTickingReadiness_le (blockReady_of_entityReady h.exact)).2
    rw [hready] at hle
    exact (Nat.le_zero.mp hle).trans (Nat.min_zero _).symm
  · have hfull := (h.contributor hchunk hready).2
    unfold Holder.isFullContributor at hfull
    exact targetTickingReadiness_toNat (Bool.and_eq_true_iff.mp hfull).2 (blockReady_of_entityReady h.exact)

theorem Settled.finished {m m' : ChunkMap} {fails : ChunkPos → Bool} {changed : Bool}
    {dirty : List (ChunkPos × FullNeighborhoodCounts)} (h : Settled m [] (dirty.map Prod.fst)) (hsound : m.Sound)
    (hcounts : ∀ pos counts, (pos, counts) ∈ dirty → counts = m.fullNeighborhood.countsAt pos)
    (hfinished : Finished m m' fails dirty changed) (hfails : ∀ pos, fails pos = false) : Settled m' [] [] where
  ready {pos id} hchunk _ := by
    obtain ⟨pending, hindex⟩ := hfinished.index
    have hcountsAt : m'.fullNeighborhood.countsAt pos = m.fullNeighborhood.countsAt pos := by
      rw [hindex]
      rfl
    rw [hfinished.same.chunks] at hchunk
    rw [hcountsAt, hfinished.same.holders]
    dsimp only
    by_cases hmem : pos ∈ dirty.map Prod.fst
    · obtain ⟨⟨p, counts⟩, hd, rfl⟩ := List.mem_map.mp hmem
      dsimp only at hchunk ⊢
      have hreached := hfinished.reached hd hchunk (hfails p)
      rw [hcounts _ _ hd, target_eq_min hsound hchunk] at hreached
      obtain hsame | ⟨p', counts', hd', hchunk', hreadiness⟩ := hfinished.moved id
      · have hallowed := hsound.allowed hchunk
        rw [hsame] at hreached ⊢
        exact Nat.le_antisymm (Nat.le_min.mpr hallowed) hreached
      · obtain rfl := hsound.inj hchunk' hchunk
        rw [hreadiness, hcounts _ _ hd', target_eq_min hsound hchunk]
    · obtain hsame | ⟨p', counts', hd', hchunk', -⟩ := hfinished.moved id
      · rw [hsame]
        exact h.ready hchunk hmem
      · obtain rfl := hsound.inj hchunk' hchunk
        exact absurd (List.mem_map_of_mem hd') hmem
  complete {pos id} hchunk hfull _ := by
    obtain ⟨pending, hindex⟩ := hfinished.index
    rw [hfinished.same.chunks] at hchunk
    rw [hfinished.same.holders] at hfull
    rw [hindex, hfinished.same.fullPublications]
    exact h.complete hchunk hfull List.not_mem_nil
  initialized id := by
    rw [hfinished.same.holders]
    exact h.initialized id

theorem System.steady_start : System.start.Steady := by
  refine ⟨rfl, fun hchunk => ?_, fun hchunk => ?_, fun id hinit => ?_⟩
  · cases hchunk
  · cases hchunk
  · cases hinit

theorem System.Steady.step {s s' : System} {step : Step} (h : s.Steady) (hsound : s.Sound)
    (hpost : step.PostProcesses) (hs : s.step step = some s') : s'.Steady := by
  unfold System.Steady at h
  cases System.step_cases hsound hs with
  | aside haside _ =>
    unfold System.Steady
    rw [haside.phase]
    cases hphase : s.phase with
    | idle =>
      rw [hphase] at h
      exact ⟨by rw [haside.index]; exact h.1, h.2.aside hsound.map haside⟩
    | committing remaining changed rebuild =>
      rw [hphase] at h
      dsimp only
      rw [haside.index]
      exact ⟨h.1, h.2.1, h.2.2.1, h.2.2.2.aside hsound.map haside⟩
    | reconciling changed rebuild =>
      rw [hphase] at h
      dsimp only
      rw [haside.index]
      exact ⟨h.1, h.2.aside hsound.map haside⟩
    | finishing dirty rebuild =>
      rw [hphase] at h
      exact ⟨by rw [haside.index]; exact h.1, h.2.aside hsound.map haside⟩
  | @beginCommit changes m changed hphase hprepared hs' =>
    rw [hphase] at h
    obtain ⟨hdirty, hsettled⟩ := h
    have hmerged : Settled (s.map.mergeDeferredRevivals changes).2 [] [] :=
      ⟨hsettled.ready, hsettled.complete, hsettled.initialized⟩
    rw [hs']
    refine ⟨fun c hc => List.mem_map_of_mem hc, fun p hp => ?_, fun hnil => ?_,
      hmerged.prepared (sound_mergeDeferredRevivals hsound.map changes) hprepared⟩
    · obtain ⟨c, hc, rfl⟩ := List.mem_map.mp hp
      exact hprepared.dirty c hc
    · rw [hprepared.none (List.map_eq_nil_iff.mp hnil)]
      exact hdirty
  | committed hphase hs' =>
    rw [hphase] at h
    rw [hs']
    exact ⟨h.2.2.1, h.2.2.2⟩
  | @commitChange change rest changed rebuild hphase hupdated hs' =>
    rw [hphase] at h
    obtain ⟨hremaining, hchanged, hnone, hsettled⟩ := h
    have hmem := hremaining change List.mem_cons_self
    rw [hs']
    refine ⟨fun c hc => hremaining c (List.mem_cons_of_mem _ hc), ?_, ?_, ?_⟩
    · dsimp only
      rw [hupdated.elsewhere.index]
      exact hchanged
    · dsimp only
      rw [hupdated.elsewhere.index]
      exact hnone
    · dsimp only
      rw [hupdated.elsewhere.index]
      exact hsettled.updated hupdated hmem (hchanged _ hmem)
  | reconcile hphase hreconciled hs' =>
    rw [hphase] at h
    rw [hs']
    exact h.2.reconciled hsound.map h.1 hreconciled
  | @finish fails dirty rebuild changed m hphase hfinished hs' =>
    rw [hphase] at h
    have hcounts := hsound.phase
    rw [hphase] at hcounts
    have hsettled := h.2.finished hsound.map hcounts hfinished hpost
    obtain ⟨pending, hindex⟩ := hfinished.index
    have hdirty : m.fullNeighborhood.dirtyCenters = [] := by
      rw [hindex]
      exact h.1
    rw [hs']
    unfold System.Steady
    dsimp only
    split
    · exact ⟨hdirty, hsettled.ready, hsettled.complete, hsettled.initialized⟩
    · exact ⟨hdirty, hsettled⟩

theorem contributes_iff {m : ChunkMap} (h : m.Sound) (hsettled : Settled m [] []) (hdrained : m.fullPublications = [])
    {pos : ChunkPos} : m.fullNeighborhood.contributes pos = true ↔
      ∃ holder, m.holderAt pos = some holder ∧ holder.isFullContributor = true := by
  constructor
  · intro hcontributes
    obtain ⟨id, hid⟩ := Option.isSome_iff_exists.mp hcontributes
    obtain ⟨hchunk, hfull⟩ := h.contributors hid
    exact ⟨m.holders id, holderAt_eq_some.mpr ⟨id, hchunk, rfl⟩, hfull⟩
  · intro ⟨holder, hholder, hfull⟩
    obtain ⟨id, hchunk, rfl⟩ := holderAt_eq_some.mp hholder
    obtain hcontributor | hpublication := hsettled.complete hchunk hfull List.not_mem_nil
    · exact Option.isSome_iff_exists.mpr ⟨id, hcontributor⟩
    · rw [hdrained] at hpublication
      cases hpublication

theorem ready_iff_fullAround {m : ChunkMap} (h : m.Sound) (hsettled : Settled m [] []) (hdrained : m.fullPublications = [])
    (pos : ChunkPos) :
    ((m.fullNeighborhood.countsAt pos).blockTickingReady = true ↔ FullAround m pos 1) ∧
    ((m.fullNeighborhood.countsAt pos).entityTickingReady = true ↔ FullAround m pos 2) := by
  have hradius : ∀ radius, radius = 1 ∨ radius = 2 →
      ((m.fullNeighborhood.countsAt pos).count radius = (2 * radius + 1) * (2 * radius + 1) ↔ FullAround m pos radius) := by
    intro radius hradius
    rw [h.exact.full_iff hradius]
    refine and_congr_right fun _ => forall_congr' fun p => ?_
    rw [contributes_iff h hsettled hdrained]
  rw [← hradius 1 (.inl rfl), ← hradius 2 (.inr rfl)]
  exact ⟨beq_iff_eq, beq_iff_eq⟩

/-- Between commits, when each publication is taken and post-processing never failed, a loaded chunk ticks exactly as
far as its level and the Full chunks around it allow. -/
theorem ticking_exact {steps : List Step} (hwf : ∀ step ∈ steps, step.WellFormed)
    (hpost : ∀ step ∈ steps, step.PostProcesses) {s : System} (hs : System.run steps = some s) (hidle : s.phase = .idle)
    (hdrained : s.map.fullPublications = []) (pos : ChunkPos) (holder : Holder)
    (hholder : s.map.holderAt pos = some holder) :
    (holder.readiness = .entityTicking ↔ holder.loadLevel.any (·.isEntityTicking) = true ∧ FullAround s.map pos 2) ∧
    (holder.readiness ≠ .unready ↔ holder.loadLevel.any (·.isBlockTicking) = true ∧ FullAround s.map pos 1) := by
  obtain ⟨hsound, hsteady⟩ := System.run_invariant (I := System.Steady) (C := Step.PostProcesses) System.steady_start
    (fun s step s' hsound hsteady _ hpost hs => hsteady.step hsound hpost hs) hwf hpost hs
  unfold System.Steady at hsteady
  rw [hidle] at hsteady
  obtain ⟨id, hchunk, rfl⟩ := holderAt_eq_some.mp hholder
  have hready := hsteady.2.ready hchunk List.not_mem_nil
  obtain ⟨hblock, hentity⟩ := ready_iff_fullAround hsound.map hsteady.2 hdrained pos
  rw [← hblock, ← hentity]
  have hlevel := @blockTicking_of_entityTicking (s.map.holders id).loadLevel
  have hcounts := @blockReady_of_entityReady s.map.fullNeighborhood hsound.map.exact pos
  unfold readinessOf desiredTickingReadiness readyFor at hready
  revert hready hlevel hcounts
  generalize (s.map.holders id).readiness = r
  generalize (s.map.fullNeighborhood.countsAt pos).entityTickingReady = ce
  generalize (s.map.fullNeighborhood.countsAt pos).blockTickingReady = cb
  generalize (s.map.holders id).loadLevel.any (·.isEntityTicking) = le
  generalize (s.map.holders id).loadLevel.any (·.isBlockTicking) = lb
  intro hready hlevel hcounts
  cases le <;> cases lb <;> cases ce <;> cases cb <;> cases r <;>
    simp_all [TickingReadiness.toNat]

theorem ticking_exact_square : ∃ s holder, System.run squareSteps = some s ∧ s.map.holderAt ⟨0, 0⟩ = some holder ∧
    ¬ (holder.loadLevel.any (·.isEntityTicking) = true ∧ FullAround s.map ⟨0, 0⟩ 2) := by
  obtain ⟨s, holder, hs, hidle, hdrained, hholder, hready⟩ := square_run
  have hphase := Phase.isIdle_iff.mp hidle
  have hexact := ticking_exact squareSteps_wellFormed squareSteps_postProcesses hs hphase hdrained _ _ hholder
  refine ⟨s, holder, hs, hholder, fun h => ?_⟩
  have hentity := hexact.1.mpr h
  rw [hready] at hentity
  cases hentity

end Foton.Readiness
