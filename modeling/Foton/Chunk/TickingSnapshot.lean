import Foton.Chunk.ReadinessRuns

/-!
# The snapshot of the ticking chunks

A commit rebuilds the snapshot only when some phase noticed that a membership
changed. The phases compare memberships one at a time, each with the rest of the
holder as it was; a snapshot that is not rebuilt is nevertheless the one that a
rebuild would make.
-/

namespace Foton.Readiness

open ChunkMap

/-! ## Rebuilding -/

/-- The snapshot has each chunk of the block part once, and its indices are those of the other parts: of the chunks in
`loaded`, with these memberships. -/
structure Mirrors (snapshot : TickingChunkSnapshot) (loaded : ChunkPos × Nat → Prop)
    (membership : Nat → Bool × Bool × Bool) : Prop where
  nodup : snapshot.block.Nodup
  block : ∀ x, x ∈ snapshot.block ↔ loaded x ∧ (membership x.2).1 = true
  random : ∀ x, (∃ i ∈ snapshot.randomChunkIndices, snapshot.block[i]? = some x) ↔
    loaded x ∧ (membership x.2).2.1 = true
  entity : ∀ x, (∃ i ∈ snapshot.entityIndices, snapshot.block[i]? = some x) ↔ loaded x ∧ (membership x.2).2.2 = true

/-- The snapshot is that of the loaded chunks. -/
def Mirrored (m : ChunkMap) : Prop :=
  Mirrors m.tickingChunks (fun x => m.chunks.lookup x.1 = some x.2) m.membershipOf

section
variable {m : ChunkMap} {snapshot : TickingChunkSnapshot} {pos : ChunkPos} {id : Nat}

theorem membership_random (h : (m.membershipOf id).2.1 = true) : (m.membershipOf id).1 = true := by
  unfold membershipOf tickingSnapshotMembership at h ⊢
  exact (Bool.and_eq_true_iff.mp h).1

theorem membership_entity (h : (m.membershipOf id).2.2 = true) : (m.membershipOf id).1 = true := by
  unfold membershipOf tickingSnapshotMembership at h ⊢
  exact (Bool.and_eq_true_iff.mp (Bool.and_eq_true_iff.mp h).1).1

theorem snapshotStep_eq (hpublished : (m.membershipOf id).1 = true → (m.holders id).publishedFull = true) :
    m.snapshotStep snapshot pos id =
      if (m.membershipOf id).1 then
        { block := snapshot.block ++ [(pos, id)]
          randomChunkIndices := if (m.membershipOf id).2.1 then snapshot.randomChunkIndices ++ [snapshot.block.length]
            else snapshot.randomChunkIndices
          entityIndices := if (m.membershipOf id).2.2 then snapshot.entityIndices ++ [snapshot.block.length]
            else snapshot.entityIndices }
      else snapshot := by
  revert hpublished
  unfold snapshotStep membershipOf tickingSnapshotMembership
  dsimp only
  generalize (m.holders id).readiness = r
  generalize (m.holders id).publishedFull = published
  cases (m.holders id).simulationLevel with
  | none =>
    intro _
    rfl
  | some level =>
    simp only [Option.any_some]
    by_cases hblock : level.isBlockTicking = true <;> by_cases hentity : level.isEntityTicking = true <;>
      cases r <;> cases published <;> simp [hblock, hentity]

/-- The snapshot of some of the chunks. -/
structure Built (m : ChunkMap) (snapshot : TickingChunkSnapshot) (seen : List (ChunkPos × Nat)) : Prop where
  random : ∀ i ∈ snapshot.randomChunkIndices, i < snapshot.block.length
  entity : ∀ i ∈ snapshot.entityIndices, i < snapshot.block.length
  mirrors : Mirrors snapshot (· ∈ seen) m.membershipOf

theorem indices_append {block : List (ChunkPos × Nat)} {indices : List Nat} (hlt : ∀ i ∈ indices, i < block.length)
    (new : ChunkPos × Nat) (flag : Bool) (x : ChunkPos × Nat) :
    (∃ i ∈ (if flag then indices ++ [block.length] else indices), (block ++ [new])[i]? = some x) ↔
      (∃ i ∈ indices, block[i]? = some x) ∨ flag = true ∧ x = new := by
  have hold : ∀ i, i ∈ indices → (block ++ [new])[i]? = block[i]? := fun i hi => List.getElem?_append_left (hlt i hi)
  have hnew : (block ++ [new])[block.length]? = some new := by simp
  cases flag with
  | false =>
    simp only [Bool.false_eq_true, if_false, false_and, or_false]
    exact exists_congr fun i => and_congr_right fun hi => by rw [hold i hi]
  | true =>
    simp only [if_true, true_and]
    constructor
    · intro ⟨i, hi, hget⟩
      obtain hi | hi := List.mem_append.mp hi
      · exact .inl ⟨i, hi, by rw [← hold i hi]; exact hget⟩
      · rw [List.mem_singleton.mp hi, hnew] at hget
        exact .inr (Option.some.inj hget).symm
    · intro h
      obtain ⟨i, hi, hget⟩ | heq := h
      · exact ⟨i, List.mem_append_left _ hi, by rw [hold i hi]; exact hget⟩
      · exact ⟨block.length, List.mem_append_right _ (List.mem_singleton_self _), by rw [hnew, heq]⟩

theorem Built.step {seen : List (ChunkPos × Nat)} (h : Built m snapshot seen) (hnew : (pos, id) ∉ seen)
    (hpublished : (m.membershipOf id).1 = true → (m.holders id).publishedFull = true) :
    Built m (m.snapshotStep snapshot pos id) (seen ++ [(pos, id)]) := by
  rw [snapshotStep_eq hpublished]
  have hmem : ∀ x, x ∈ seen ++ [(pos, id)] ↔ x ∈ seen ∨ x = (pos, id) := fun x => by
    rw [List.mem_append, List.mem_singleton]
  have hsplit : ∀ (p : Bool × Bool × Bool → Bool) (x : ChunkPos × Nat),
      x ∈ seen ++ [(pos, id)] ∧ p (m.membershipOf x.2) = true ↔
        x ∈ seen ∧ p (m.membershipOf x.2) = true ∨ p (m.membershipOf id) = true ∧ x = (pos, id) := by
    intro p x
    rw [hmem]
    constructor
    · intro ⟨hx, hp⟩
      obtain hx | rfl := hx
      · exact .inl ⟨hx, hp⟩
      · exact .inr ⟨hp, rfl⟩
    · intro hx
      obtain ⟨hx, hp⟩ | ⟨hp, rfl⟩ := hx
      · exact ⟨.inl hx, hp⟩
      · exact ⟨.inr rfl, hp⟩
  by_cases hmember : (m.membershipOf id).1 = true
  · rw [if_pos hmember]
    have hbound : ∀ (indices : List Nat) (flag : Bool), (∀ i ∈ indices, i < snapshot.block.length) →
        ∀ i ∈ (if flag then indices ++ [snapshot.block.length] else indices),
          i < (snapshot.block ++ [(pos, id)]).length := by
      intro indices flag hlt i hi
      rw [List.length_append, List.length_singleton]
      split at hi
      · obtain hi | hi := List.mem_append.mp hi
        · exact Nat.lt_succ_of_lt (hlt i hi)
        · rw [List.mem_singleton.mp hi]
          exact Nat.lt_succ_self _
      · exact Nat.lt_succ_of_lt (hlt i hi)
    refine ⟨hbound _ _ h.random, hbound _ _ h.entity, ?_, fun x => ?_, fun x => ?_, fun x => ?_⟩
    · refine List.nodup_append.mpr ⟨h.mirrors.nodup, List.nodup_singleton _, fun x hx y hy heq => hnew ?_⟩
      rw [← List.mem_singleton.mp hy, ← heq]
      exact ((h.mirrors.block x).mp hx).1
    · rw [hsplit (fun b => b.1), List.mem_append, List.mem_singleton, h.mirrors.block x, hmember]
      simp
    · rw [hsplit (fun b => b.2.1), indices_append h.random, h.mirrors.random x]
    · rw [hsplit (fun b => b.2.2), indices_append h.entity, h.mirrors.entity x]
  · rw [if_neg hmember]
    refine ⟨h.random, h.entity, h.mirrors.nodup, fun x => ?_, fun x => ?_, fun x => ?_⟩
    · rw [hsplit (fun b => b.1), h.mirrors.block x]
      simp [hmember]
    · rw [hsplit (fun b => b.2.1), h.mirrors.random x, or_iff_left fun hx => hmember (membership_random hx.1)]
    · rw [hsplit (fun b => b.2.2), h.mirrors.entity x, or_iff_left fun hx => hmember (membership_entity hx.1)]

theorem Sound.publishedFull (h : m.Sound) (hchunk : m.chunks.lookup pos = some id)
    (hmember : (m.membershipOf id).1 = true) : (m.holders id).publishedFull = true := by
  have hready : readyFor (m.fullNeighborhood.countsAt pos) ≠ .unready := by
    intro hunready
    have hallowed := (h.allowed hchunk).2
    rw [hunready] at hallowed
    have hzero := TickingReadiness.eq_unready_of_le hallowed
    unfold membershipOf tickingSnapshotMembership at hmember
    unfold readinessOf at hzero
    rw [hzero] at hmember
    simp at hmember
  have hfull := (h.contributor hchunk hready).2
  unfold Holder.isFullContributor Holder.hasFullChunk at hfull
  rw [Bool.and_eq_true, Bool.and_eq_true] at hfull
  exact hfull.2.2

theorem mirrored_rebuild (h : m.Sound) : Mirrored m.rebuildTickingChunkSnapshot := by
  have hbuilt : ∀ (entries : List (Sigma fun _ : ChunkPos => Nat)) (snapshot : TickingChunkSnapshot)
      (seen : List (ChunkPos × Nat)), (entries.map Sigma.fst).Nodup →
      (∀ e ∈ entries, m.chunks.lookup e.1 = some e.2) → (∀ e ∈ entries, (e.1, e.2) ∉ seen) →
      Built m snapshot seen →
      Built m (entries.foldl (fun snapshot e => m.snapshotStep snapshot e.1 e.2) snapshot)
        (seen ++ entries.map fun e => (e.1, e.2)) := by
    intro entries
    induction entries with
    | nil =>
      intro snapshot seen _ _ _ hbuilt
      simpa using hbuilt
    | cons e rest ih =>
      intro snapshot seen hnodup hlookup hnew hbuilt
      obtain ⟨hnot, hnodup'⟩ := List.nodup_cons.mp hnodup
      have hstep := hbuilt.step (hnew e List.mem_cons_self) (Sound.publishedFull h (hlookup e List.mem_cons_self))
      have hrest := ih _ _ hnodup' (fun e' he' => hlookup e' (List.mem_cons_of_mem _ he')) (fun e' he' hmem => ?_) hstep
      · rw [List.append_assoc] at hrest
        exact hrest
      · obtain hmem | hmem := List.mem_append.mp hmem
        · exact hnew e' (List.mem_cons_of_mem _ he') hmem
        · have heq := congrArg Prod.fst (List.mem_singleton.mp hmem)
          exact hnot (List.mem_map.mpr ⟨e', he', heq⟩)
  have hempty : Built m ⟨[], [], []⟩ [] :=
    ⟨nofun, nofun, List.nodup_nil, fun x => by simp, fun x => by simp, fun x => by simp⟩
  have hall := hbuilt m.chunks.entries ⟨[], [], []⟩ [] m.chunks.keys_nodup
    (fun e he => AList.mem_lookup_iff.mpr he) (fun _ _ => List.not_mem_nil) hempty
  have hloaded : ∀ x : ChunkPos × Nat, x ∈ [] ++ m.chunks.entries.map (fun e => (e.1, e.2)) ↔
      m.chunks.lookup x.1 = some x.2 := by
    intro x
    rw [List.nil_append, List.mem_map, ← Option.mem_def, AList.mem_lookup_iff]
    constructor
    · intro ⟨e, he, heq⟩
      rw [← heq]
      exact he
    · intro hx
      exact ⟨⟨x.1, x.2⟩, hx, rfl⟩
  exact ⟨hall.mirrors.nodup, fun x => (hall.mirrors.block x).trans (and_congr_left fun _ => hloaded x),
    fun x => (hall.mirrors.random x).trans (and_congr_left fun _ => hloaded x),
    fun x => (hall.mirrors.entity x).trans (and_congr_left fun _ => hloaded x)⟩

end

/-! ## Memberships that no flag noticed -/

theorem membership_unready (level : Option ChunkTicketLevel) :
    tickingSnapshotMembership .unready level = (false, false, false) := by
  unfold tickingSnapshotMembership
  simp

/-- Neither the new simulation level under the old readiness nor the demotion under the old level changes the
membership: then both together do not. -/
theorem membership_demoted {r r' : TickingReadiness} {level level' : Option ChunkTicketLevel}
    (hle : r'.toNat ≤ r.toNat)
    (hlevel : tickingSnapshotMembership r level = tickingSnapshotMembership r level')
    (hdemoted : tickingSnapshotMembership r' level = tickingSnapshotMembership r level) :
    tickingSnapshotMembership r' level = tickingSnapshotMembership r' level' := by
  revert hle hlevel hdemoted
  unfold tickingSnapshotMembership
  dsimp only
  generalize level.any (·.isBlockTicking) = block
  generalize level.any (·.isEntityTicking) = entity
  generalize level'.any (·.isBlockTicking) = block'
  generalize level'.any (·.isEntityTicking) = entity'
  revert block entity block' entity'
  cases r <;> cases r' <;> decide

theorem Mirrored.congr {m m' : ChunkMap} (h : Mirrored m) (hticking : m'.tickingChunks = m.tickingChunks)
    (hold : ∀ {pos id}, m.chunks.lookup pos = some id →
      m'.chunks.lookup pos = some id ∧ m'.membershipOf id = m.membershipOf id ∨
      m'.chunks.lookup pos ≠ some id ∧ m.membershipOf id = (false, false, false))
    (hnew : ∀ {pos id}, m'.chunks.lookup pos = some id →
      m.chunks.lookup pos = some id ∨ m'.membershipOf id = (false, false, false)) : Mirrored m' := by
  have hmember : ∀ (p : Bool × Bool × Bool → Bool), p (false, false, false) = false → ∀ x : ChunkPos × Nat,
      (m.chunks.lookup x.1 = some x.2 ∧ p (m.membershipOf x.2) = true ↔
        m'.chunks.lookup x.1 = some x.2 ∧ p (m'.membershipOf x.2) = true) := by
    intro p hp x
    constructor
    · intro ⟨hchunk, hx⟩
      obtain ⟨hchunk', hsame⟩ | ⟨-, hnone⟩ := hold hchunk
      · exact ⟨hchunk', by rw [hsame]; exact hx⟩
      · rw [hnone, hp] at hx
        cases hx
    · intro ⟨hchunk', hx⟩
      obtain hchunk | hnone := hnew hchunk'
      · obtain ⟨-, hsame⟩ | ⟨hne, -⟩ := hold hchunk
        · exact ⟨hchunk, by rw [← hsame]; exact hx⟩
        · exact absurd hchunk' hne
      · rw [hnone, hp] at hx
        cases hx
  unfold Mirrored
  rw [hticking]
  exact ⟨h.nodup, fun x => (h.block x).trans (hmember (fun b => b.1) rfl x),
    fun x => (h.random x).trans (hmember (fun b => b.2.1) rfl x),
    fun x => (h.entity x).trans (hmember (fun b => b.2.2) rfl x)⟩

/-- The memberships, and the loaded chunks, are the same. -/
theorem Mirrored.same {m m' : ChunkMap} (h : Mirrored m) (hticking : m'.tickingChunks = m.tickingChunks)
    (hchunks : m'.chunks = m.chunks) (hmember : ∀ id, m'.membershipOf id = m.membershipOf id) : Mirrored m' :=
  h.congr hticking (fun hchunk => .inl ⟨by rw [hchunks]; exact hchunk, hmember _⟩)
    fun hchunk => .inl (by rw [← hchunks]; exact hchunk)

/-- The simulation levels of the remaining changes keep the memberships of their holders. -/
def Unnoticed (m : ChunkMap) (remaining : List LevelChange) : Prop :=
  ∀ c ∈ remaining, ∀ id, m.chunks.lookup c.pos = some id →
    m.membershipOf id = tickingSnapshotMembership (m.readinessOf id) c.newSimulationLevel

theorem Unnoticed.prepared {m m' : ChunkMap} {changes : List LevelChange} {changed : Bool}
    (hprepared : Prepared m m' changes changed) (hflag : changed = false)
    (hsimulation : m.simulationChangesTickingSnapshot changes = false) : Unnoticed m' changes := by
  intro c hc id hchunk
  rw [hprepared.same.chunks] at hchunk
  have hmember := hprepared.flag hflag id
  unfold simulationChangesTickingSnapshot at hsimulation
  rw [List.any_eq_false] at hsimulation
  have hlevel := hsimulation c hc
  rw [show m.holderAt c.pos = some (m.holders id) from holderAt_eq_some.mpr ⟨id, hchunk, rfl⟩, Option.any_some,
    bne_iff_ne, not_not] at hlevel
  have hlevel' : (m'.holders id).simulationLevel = (m.holders id).simulationLevel := by rw [hprepared.same.holders]
  unfold membershipOf at hmember ⊢
  rw [hlevel'] at hmember ⊢
  exact membership_demoted (hprepared.le id) hlevel hmember

theorem Mirrored.updated {m m' : ChunkMap} {change : LevelChange} {rest : List LevelChange} (h : Mirrored m)
    (hunnoticed : Unnoticed m (change :: rest)) (hupdated : Updated change m m') : Mirrored m' := by
  have hsame : ∀ {pos id}, pos ≠ change.pos → m.chunks.lookup pos = some id → m'.membershipOf id = m.membershipOf id := by
    intro pos id hne hchunk
    unfold membershipOf
    rw [hupdated.elsewhere.holders hne hchunk]
  have hmember : ∀ {id}, m'.chunks.lookup change.pos = some id →
      m.chunks.lookup change.pos = some id ∧ m'.membershipOf id = m.membershipOf id ∨
      m.chunks.lookup change.pos = none ∧ m'.membershipOf id = (false, false, false) := by
    intro id hchunk'
    obtain ⟨hsimulation, ⟨hchunk, hready⟩ | ⟨hnone, hunready⟩⟩ := hupdated.readiness hchunk'
    · refine .inl ⟨hchunk, ?_⟩
      rw [hunnoticed change List.mem_cons_self id hchunk, ← hready]
      unfold membershipOf readinessOf
      rw [hsimulation]
    · refine .inr ⟨hnone, ?_⟩
      unfold readinessOf at hunready
      unfold membershipOf
      rw [hunready]
      exact membership_unready _
  refine h.congr hupdated.elsewhere.tickingChunks (fun {pos id} hchunk => ?_) (fun {pos id} hchunk' => ?_)
  · by_cases hne : pos = change.pos
    · subst hne
      cases hchunk' : m'.chunks.lookup change.pos with
      | none =>
        refine .inr ⟨nofun, ?_⟩
        have hunready := hupdated.unloaded hchunk hchunk'
        unfold readinessOf at hunready
        unfold membershipOf
        rw [hunready]
        exact membership_unready _
      | some id' =>
        obtain ⟨hchunk'', hsame'⟩ | ⟨hnone, -⟩ := hmember hchunk'
        · rw [hchunk] at hchunk''
          obtain rfl := Option.some.inj hchunk''
          exact .inl ⟨rfl, hsame'⟩
        · rw [hchunk] at hnone
          cases hnone
    · exact .inl ⟨(hupdated.elsewhere.chunks hne).trans hchunk, hsame hne hchunk⟩
  · by_cases hne : pos = change.pos
    · subst hne
      exact (hmember hchunk').imp And.left And.right
    · exact .inl ((hupdated.elsewhere.chunks hne).symm.trans hchunk')

def System.Mirroring (s : System) : Prop :=
  match s.phase with
  | .idle => Mirrored s.map
  | .committing remaining _ rebuild => rebuild = false → Mirrored s.map ∧ Unnoticed s.map remaining
  | .reconciling _ rebuild => rebuild = false → Mirrored s.map
  | .finishing _ rebuild => rebuild = false → Mirrored s.map

theorem System.Mirroring.aside {s s' : System} (h : s.Mirroring) (haside : Aside s s') : s'.Mirroring := by
  have hmember : ∀ id, s'.map.membershipOf id = s.map.membershipOf id := by
    intro id
    unfold membershipOf
    rw [(haside.holders id).readiness, (haside.holders id).simulationLevel]
  have hmirrored : Mirrored s.map → Mirrored s'.map :=
    fun hmirrored => hmirrored.same haside.tickingChunks haside.chunks hmember
  unfold System.Mirroring at h ⊢
  rw [haside.phase]
  cases hphase : s.phase with
  | idle =>
    rw [hphase] at h
    exact hmirrored h
  | committing remaining changed rebuild =>
    rw [hphase] at h
    intro hrebuild
    refine ⟨hmirrored (h hrebuild).1, fun c hc id hchunk => ?_⟩
    rw [haside.chunks] at hchunk
    rw [hmember id]
    unfold readinessOf
    rw [(haside.holders id).readiness]
    exact (h hrebuild).2 c hc id hchunk
  | reconciling changed rebuild =>
    rw [hphase] at h
    exact fun hrebuild => hmirrored (h hrebuild)
  | finishing dirty rebuild =>
    rw [hphase] at h
    exact fun hrebuild => hmirrored (h hrebuild)

theorem System.Mirroring.step {s s' : System} {step : Step} (h : s.Mirroring) (hsound : s.Sound)
    (hs : s.step step = some s') : s'.Mirroring := by
  cases System.step_cases hsound hs with
  | aside haside _ => exact h.aside haside
  | @beginCommit changes m changed hphase hprepared hs' =>
    unfold System.Mirroring at h
    rw [hphase] at h
    rw [hs']
    intro hrebuild
    obtain ⟨hsimulation, hflag⟩ := Bool.or_eq_false_iff.mp hrebuild
    have hmerged : Mirrored (s.map.mergeDeferredRevivals changes).2 := ⟨h.nodup, h.block, h.random, h.entity⟩
    exact ⟨hmerged.same hprepared.same.tickingChunks hprepared.same.chunks (hprepared.flag hflag),
      .prepared hprepared hflag hsimulation⟩
  | committed hphase hs' =>
    unfold System.Mirroring at h
    rw [hphase] at h
    rw [hs']
    exact fun hrebuild => (h hrebuild).1
  | @commitChange change rest changed rebuild hphase hupdated hs' =>
    unfold System.Mirroring at h
    rw [hphase] at h
    have hawaits := hsound.phase
    rw [hphase] at hawaits
    obtain ⟨hnot, -⟩ := List.nodup_cons.mp hawaits.nodup
    rw [hs']
    intro hrebuild
    obtain ⟨hmirrored, hunnoticed⟩ := h hrebuild
    refine ⟨hmirrored.updated hunnoticed hupdated, fun c hc id hchunk => ?_⟩
    have hne : c.pos ≠ change.pos := fun heq => hnot (heq ▸ List.mem_map_of_mem hc)
    dsimp only at hchunk ⊢
    rw [hupdated.elsewhere.chunks hne] at hchunk
    have hold := hunnoticed c (List.mem_cons_of_mem _ hc) id hchunk
    unfold membershipOf readinessOf at hold ⊢
    rw [hupdated.elsewhere.holders hne hchunk]
    exact hold
  | reconcile hphase hreconciled hs' =>
    unfold System.Mirroring at h
    rw [hphase] at h
    rw [hs']
    intro hrebuild
    have hmirrored := h hrebuild
    exact ⟨hmirrored.nodup, hmirrored.block, hmirrored.random, hmirrored.entity⟩
  | @finish fails dirty rebuild changed m hphase hfinished hs' =>
    unfold System.Mirroring at h
    rw [hphase] at h
    have hcounts := hsound.phase
    rw [hphase] at hcounts
    rw [hs']
    unfold System.Mirroring
    dsimp only
    split
    · exact mirrored_rebuild (hfinished.sound hsound.map hcounts)
    · rename_i hnot
      obtain ⟨hrebuild, hflag⟩ := Bool.or_eq_false_iff.mp (Bool.not_eq_true _ ▸ hnot)
      exact (h hrebuild).same hfinished.same.tickingChunks hfinished.same.chunks (hfinished.flag hflag)

theorem System.mirroring_start : System.start.Mirroring :=
  ⟨List.nodup_nil, fun x => by simp [System.start, ChunkMap.start], fun x => by simp [System.start, ChunkMap.start],
    fun x => by simp [System.start, ChunkMap.start]⟩

/-- Between commits the snapshot has exactly the loaded chunks whose simulation level and readiness let them tick, each
once, with the right random and entity parts, though a commit rebuilds it only when it noticed a change. -/
theorem snapshot_current {steps : List Step} (hwf : ∀ step ∈ steps, step.WellFormed) {s : System}
    (hs : System.run steps = some s) (hidle : s.phase = .idle) :
    s.map.tickingChunks.block.Nodup ∧
    (∀ pos id, (pos, id) ∈ s.map.tickingChunks.block ↔
      s.map.chunks.lookup pos = some id ∧ (s.map.membershipOf id).1 = true) ∧
    (∀ pos id, (∃ i ∈ s.map.tickingChunks.randomChunkIndices, s.map.tickingChunks.block[i]? = some (pos, id)) ↔
      s.map.chunks.lookup pos = some id ∧ (s.map.membershipOf id).2.1 = true) ∧
    (∀ pos id, (∃ i ∈ s.map.tickingChunks.entityIndices, s.map.tickingChunks.block[i]? = some (pos, id)) ↔
      s.map.chunks.lookup pos = some id ∧ (s.map.membershipOf id).2.2 = true) := by
  obtain ⟨-, hmirroring⟩ := System.run_invariant (I := System.Mirroring) (C := fun _ => True) System.mirroring_start
    (fun s step s' hsound hmirroring _ _ hs => hmirroring.step hsound hs) hwf (fun _ _ => trivial) hs
  unfold System.Mirroring at hmirroring
  rw [hidle] at hmirroring
  exact ⟨hmirroring.nodup, fun pos id => hmirroring.block (pos, id), fun pos id => hmirroring.random (pos, id),
    fun pos id => hmirroring.entity (pos, id)⟩

theorem snapshot_current_square : ∃ s holder id, System.run squareSteps = some s ∧ s.map.chunks.lookup ⟨0, 0⟩ = some id ∧
    s.map.holders id = holder ∧ ((⟨0, 0⟩, id) ∈ s.map.tickingChunks.block ↔ (s.map.membershipOf id).1 = true) := by
  obtain ⟨s, holder, hs, hidle, -, hholder, -⟩ := square_run
  obtain ⟨id, hchunk, hid⟩ := holderAt_eq_some.mp hholder
  have hcurrent := (snapshot_current squareSteps_wellFormed hs (Phase.isIdle_iff.mp hidle)).2.1 ⟨0, 0⟩ id
  exact ⟨s, holder, id, hs, hchunk, hid, hcurrent.trans (and_iff_right hchunk)⟩

end Foton.Readiness
