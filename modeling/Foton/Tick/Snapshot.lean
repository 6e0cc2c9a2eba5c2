import Foton.Lib.Run
import Foton.Tick.Owed

/-!
# The ticks a save records

The pack and the two reads of a save see the tick thread at different moments.
They agree with one moment when the tick thread stays out of the way between the
pack and the reads; a batch collected in between is recorded twice.
-/

namespace Foton

/-- What happened since the pack: the kinds collected, and the kinds of which the chunk got a new tick. -/
structure SaveHistory where
  collected : TickKind → Bool
  scheduled : TickKind → Bool

namespace SaveHistory

def none : SaveHistory := ⟨fun _ => false, fun _ => false⟩

variable {T : TickKind → Type} [∀ kind, TickKey (T kind)]

def record (history : SaveHistory) (chunk : Nat) (w : TickWorld T) : TickAction T → SaveHistory
  | .pack _ => none
  | .collect kind _ _ => { history with collected := Function.update history.collected kind true }
  | .schedule kind container tickType pos _ _ _ =>
    if w.Adds chunk kind container tickType pos then
      { history with scheduled := Function.update history.scheduled kind true }
    else history
  | _ => history

end SaveHistory

structure Saving (T : TickKind → Type) where
  world : TickWorld T
  history : SaveHistory

namespace Saving

variable {T : TickKind → Type}

/-- Between two ticks, before the save. -/
structure Start (s : Saving T) (chunk : Nat) : Prop where
  indexed : s.world.scheduler.Indexed
  registered : (s.world.scheduler.containers chunk).lifecycle = .registered
  homed : s.world.scheduler.Homed
  phase : s.world.phase = .waiting .block
  ready : ∀ kind, s.world.readyTicks kind = []
  batch : ∀ kind, s.world.scheduledTicksThisTick kind = none
  stage : s.world.stage = .idle

/-- The next tick to start is in the chunk. -/
def StartsIn (s : Saving T) (chunk : Nat) (kind : TickKind) : Prop :=
  ∃ tick, (s.world.unstarted kind).head? = some tick ∧ ChunkPos.fromBlockPos tick.pos = s.world.chunkPos chunk

/-- The tick thread does not get between the pack and the read of the batch. -/
def Allowed (chunk : Nat) (S : Set TickKind) (s : Saving T) : TickAction T → Prop
  | .start kind => kind ∈ S → s.world.stage.unread kind = true → s.history.collected kind = false →
    s.StartsIn chunk kind → ∀ k ∈ S, s.history.scheduled k = false
  | .readBatch kind => kind ∈ S →
    if s.history.collected kind then s.world.pendingTicksInChunk kind (s.world.chunkPos chunk) = []
    else ∀ tick ∈ s.world.readyTicks kind, ChunkPos.fromBlockPos tick.pos ≠ s.world.chunkPos chunk
  | _ => True

/-- After the pack, `v` is the moment that the save has recorded so far. -/
structure Recorded (chunk : Nat) (S : Set TickKind) (v s : Saving T) : Prop where
  unread : ∀ k ∈ S, s.world.stage.unread k = true → savedSites (s.world.snapshot k) = v.world.queued chunk k ∧
    v.world.selected chunk k = if s.history.collected k then 0 else s.world.selected chunk k
  read : ∀ k ∈ S, s.world.stage.unread k = false → savedSites (s.world.snapshot k) = v.world.owed chunk k
  calm : ∀ k ∈ S, s.history.collected k = false → s.history.scheduled k = false →
    s.world.queued chunk k = v.world.queued chunk k
  alone : ∀ k, s.world.Handles k → s.history.collected k = false → ∀ k' ∈ S, k' ≠ k → v.world.selected chunk k' = 0
  order : ∀ k, s.world.Handles k → s.history.collected k = false → ∀ k', s.history.collected k' = false

structure Moment (chunk : Nat) (S : Set TickKind) (v s : Saving T) : Prop where
  sound : s.world.Sound chunk
  recorded : s.world.stage ≠ .idle → Recorded chunk S v s

/-! ## One step -/

section
variable {chunk : Nat} {S : Set TickKind} {v s s' : Saving T} {kind : TickKind}

theorem Start.moment (h : s.Start chunk) : Moment chunk S s s where
  sound :=
    { indexed := h.indexed
      registered := h.registered
      homed := h.homed
      ready := fun kind _ => h.ready kind
      batch := fun kind _ => h.batch kind
      cursor := fun kind index hphase => by rw [h.phase] at hphase; cases hphase }
  recorded hstage := absurd h.stage hstage

theorem Moment.carry (h : Moment chunk S v s) (hsound : s'.world.Sound chunk) (hstage : s'.world.stage = s.world.stage)
    (hsnapshot : s'.world.snapshot = s.world.snapshot)
    (hselected : ∀ k ∈ S, s.world.stage.unread k = true →
      (if s.history.collected k then 0 else s.world.selected chunk k) =
        if s'.history.collected k then 0 else s'.world.selected chunk k)
    (hcalm : ∀ k, s'.history.collected k = false → s'.history.scheduled k = false →
      s.history.collected k = false ∧ s.history.scheduled k = false ∧ s'.world.queued chunk k = s.world.queued chunk k)
    (hhandles : ∀ k, s'.world.Handles k → s'.history.collected k = false →
      s.world.Handles k ∧ s'.history.collected = s.history.collected) : Moment chunk S v s' := by
  refine ⟨hsound, fun hpacked => ?_⟩
  rw [hstage] at hpacked
  have hold := h.recorded hpacked
  refine ⟨fun k hk hunread => ?_, fun k hk hread => ?_, fun k hk hkc hks => ?_, fun k hk hkc => ?_, fun k hk hkc => ?_⟩
  · rw [hstage] at hunread
    obtain ⟨hqueued, hold⟩ := hold.unread k hk hunread
    rw [hsnapshot]
    exact ⟨hqueued, hold.trans (hselected k hk hunread)⟩
  · rw [hstage] at hread
    rw [hsnapshot]
    exact hold.read k hk hread
  · obtain ⟨hkc, hks, hqueued⟩ := hcalm k hkc hks
    rw [hqueued]
    exact hold.calm k hk hkc hks
  · obtain ⟨hk, hcollected⟩ := hhandles k hk hkc
    rw [hcollected] at hkc
    exact hold.alone k hk hkc
  · obtain ⟨hk, hcollected⟩ := hhandles k hk hkc
    rw [hcollected] at hkc ⊢
    exact hold.order k hk hkc

theorem Moment.collect (h : Moment chunk S v s) (hstep : s.world.Collects s'.world chunk kind)
    (hhistory : s'.history = { s.history with collected := Function.update s.history.collected kind true }) :
    Moment chunk S v s' := by
  have hnew : s'.world.Handles kind := Or.inl hstep.after
  have hcollected : s'.history.collected kind = true := by
    rw [hhistory]
    exact Function.update_self _ _ _
  have hother : ∀ k, k ≠ kind → s'.history.collected k = s.history.collected k := fun k hk => by
    rw [hhistory]
    exact Function.update_of_ne hk _ _
  refine h.carry hstep.sound hstep.stage hstep.snapshot (fun k _ _ => ?_) (fun k hkc hks => ?_) fun k hk hkc => ?_
  · have hidle : ¬ s.world.Handles k := by
      rintro (hphase | ⟨index, hphase⟩) <;> rw [hstep.before] at hphase <;> cases hphase
    rw [h.sound.selected_zero hidle, ite_self]
    by_cases hkind : k = kind
    · rw [hkind, hcollected, if_pos rfl]
    · rw [hstep.sound.selected_zero fun hhandles => hkind (hnew.unique hhandles), ite_self]
  · have hkind : k ≠ kind := by
      rintro rfl
      rw [hcollected] at hkc
      cases hkc
    rw [hhistory] at hks
    exact ⟨(hother k hkind).symm.trans hkc, hks, hstep.queued k hkind⟩
  · rw [hnew.unique hk, hcollected] at hkc
    cases hkc

theorem Moment.keep (h : Moment chunk S v s) (hstep : s.world.Keeps s'.world chunk) (hhistory : s'.history = s.history) :
    Moment chunk S v s' := by
  refine h.carry hstep.sound hstep.stage hstep.snapshot (fun k _ _ => ?_) (fun k hkc hks => ?_) fun k hk _ => ?_
  · rw [hhistory, hstep.selected]
  · rw [hhistory] at hkc hks
    exact ⟨hkc, hks, hstep.queued k⟩
  · exact ⟨hstep.handles k hk, congrArg SaveHistory.collected hhistory⟩

/-- A start leaves the moment where it is unless it starts a tick that the save has seen selected. -/
theorem Moment.start (h : Moment chunk S v s) {tick : ScheduledTick (T kind)}
    (hstep : s.world.Starts s'.world chunk kind tick) (hhistory : s'.history = s.history)
    (hsame : ∀ k ∈ S, s.world.stage.unread k = true → s.history.collected k = false →
      s'.world.selected chunk k = s.world.selected chunk k) : Moment chunk S v s' := by
  refine h.carry hstep.sound hstep.stage hstep.snapshot (fun k hk hunread => ?_) (fun k hkc hks => ?_) fun k hk _ => ?_
  · rw [hhistory]
    cases hcollected : s.history.collected k with
    | true => rfl
    | false => rw [hsame k hk hunread hcollected]
  · rw [hhistory] at hkc hks
    exact ⟨hkc, hks, hstep.queued k⟩
  · rw [hstep.after k hk]
    exact ⟨hstep.handles, congrArg SaveHistory.collected hhistory⟩

/-- The moment moves to the start of a tick that was selected before the pack. -/
theorem Moment.start_now (h : Moment chunk S v s) {tick : ScheduledTick (T kind)}
    (hstep : s.world.Starts s'.world chunk kind tick) (hhistory : s'.history = s.history) (hkind : kind ∈ S)
    (hunread : s.world.stage.unread kind = true) (hcollected : s.history.collected kind = false)
    (hscheduled : ∀ k ∈ S, s.history.scheduled k = false) : Moment chunk S s' s' := by
  refine ⟨hstep.sound, fun hstage => ?_⟩
  rw [hstep.stage] at hstage
  have hold := h.recorded hstage
  have hnone := hold.order kind hstep.handles hcollected
  have hqueued : ∀ k ∈ S, s'.world.queued chunk k = v.world.queued chunk k := fun k hk => by
    rw [hstep.queued]
    exact hold.calm k hk (hnone k) (hscheduled k hk)
  have halone : ∀ k, k ≠ kind → s'.world.selected chunk k = 0 := fun k hk => by
    rw [hstep.selected k hk]
    exact h.sound.selected_zero fun hhandles => hk (hstep.handles.unique hhandles)
  refine ⟨fun k hk hku => ?_, fun k hk hkr => ?_, fun k _ _ _ => rfl, fun k hk _ k' _ hne => ?_, fun k _ _ k' => ?_⟩
  · rw [hstep.stage] at hku
    rw [hstep.snapshot, hhistory, hnone k, hqueued k hk]
    exact ⟨(hold.unread k hk hku).1, rfl⟩
  · rw [hstep.stage] at hkr
    have hne : k ≠ kind := by
      rintro rfl
      rw [hunread] at hkr
      cases hkr
    rw [hstep.snapshot, hold.read k hk hkr]
    unfold TickWorld.owed
    rw [hqueued k hk, halone k hne, hold.alone kind hstep.handles hcollected k hk hne]
  · rw [hstep.after k hk] at hne
    exact halone k' hne
  · rw [hhistory]
    exact hnone k'

theorem Moment.schedule (h : Moment chunk S v s) {site : T kind × BlockPos} {adds : Prop}
    (hstep : s.world.Schedules s'.world chunk kind site adds) (hcollected : s'.history.collected = s.history.collected)
    (hscheduled : ∀ k, s'.history.scheduled k = false → s.history.scheduled k = false ∧ (k ≠ kind ∨ ¬ adds)) :
    Moment chunk S v s' := by
  refine h.carry hstep.sound hstep.stage hstep.snapshot (fun k _ _ => ?_) (fun k hkc hks => ?_) fun k hk _ => ?_
  · rw [hcollected, hstep.selected]
  · rw [hcollected] at hkc
    obtain ⟨hks, hnot⟩ := hscheduled k hks
    exact ⟨hkc, hks, hstep.queued k hnot⟩
  · unfold TickWorld.Handles at hk ⊢
    rw [hstep.phase] at hk
    exact ⟨hk, hcollected⟩

theorem Moment.pack (h : Moment chunk S v s) {currentTick : Int} (hstep : s.world.pack chunk currentTick = some s'.world)
    (hhistory : s'.history = .none) : Moment chunk S s' s' := by
  obtain ⟨hsound, hqueued, -, -, hstage, hsnapshot⟩ := h.sound.pack hstep
  refine ⟨hsound, fun _ => ⟨fun k _ _ => ?_, fun k _ hread => ?_, fun k _ _ _ => rfl, fun k hk _ k' _ hne => ?_,
    fun k _ _ k' => ?_⟩⟩
  · rw [hsnapshot, hqueued, hhistory]
    exact ⟨rfl, rfl⟩
  · rw [hstage] at hread
    cases hread
  · exact hsound.selected_zero fun hhandles => hne (hk.unique hhandles)
  · rw [hhistory]
    rfl

theorem Moment.readBatch (h : Moment chunk S v s) (hstep : s.world.Reads s'.world chunk kind)
    (hhistory : s'.history = s.history) (hallowed : kind ∈ S →
      if s.history.collected kind then s.world.pendingTicksInChunk kind (s.world.chunkPos chunk) = []
      else ∀ tick ∈ s.world.readyTicks kind, ChunkPos.fromBlockPos tick.pos ≠ s.world.chunkPos chunk) :
    Moment chunk S v s' := by
  refine ⟨hstep.sound, fun _ => ?_⟩
  have hunread : s.world.stage.unread kind = true := SaveStage.unread_of_read hstep.stage
  have hold := h.recorded fun hidle => by
    rw [hidle] at hunread
    cases hunread
  have hother : ∀ k, k ≠ kind → s'.world.stage.unread k = s.world.stage.unread k := fun k hk =>
    SaveStage.unread_read hstep.stage hk
  have hhandles : ∀ k, s'.world.Handles k → s.world.Handles k := fun k hk => by
    unfold TickWorld.Handles at hk ⊢
    rwa [hstep.phase] at hk
  refine ⟨fun k hk hku => ?_, fun k hk hkr => ?_, fun k hk hkc hks => ?_, fun k hk hkc => ?_, fun k hk hkc => ?_⟩
  · have hne : k ≠ kind := by
      rintro rfl
      rw [SaveStage.read_read hstep.stage] at hku
      cases hku
    rw [hother k hne] at hku
    rw [hstep.snapshot k hne, hhistory, hstep.selected]
    exact hold.unread k hk hku
  · by_cases hkind : k = kind
    · subst hkind
      obtain ⟨hqueued, hselected⟩ := hold.unread k hk hunread
      have hallowed := hallowed hk
      rw [hstep.read, hqueued]
      refine congrArg _ (Eq.trans ?_ hselected.symm)
      by_cases hcollected : s.history.collected k = true
      · rw [if_pos hcollected] at hallowed ⊢
        rw [hallowed, sites_nil]
      · rw [if_neg hcollected] at hallowed ⊢
        rw [TickWorld.selected_split, List.filter_eq_nil_iff.mpr fun tick htick => by simpa using hallowed tick htick,
          sites_nil, zero_add]
    · rw [hother k hkind] at hkr
      rw [hstep.snapshot k hkind]
      exact hold.read k hk hkr
  · rw [hhistory] at hkc hks
    rw [hstep.queued]
    exact hold.calm k hk hkc hks
  · rw [hhistory] at hkc
    exact hold.alone k (hhandles k hk) hkc
  · rw [hhistory] at hkc ⊢
    exact hold.order k (hhandles k hk) hkc

end

/-! ## Runs -/

variable [∀ kind, TickKey (T kind)]

def Step (chunk : Nat) (s : Saving T) (x : TickAction T) (s' : Saving T) : Prop :=
  s.world.exec chunk x = some s'.world ∧ s'.history = s.history.record chunk s.world x

variable {chunk : Nat} {S : Set TickKind}

theorem Moment.step {v s s' : Saving T} {x : TickAction T} (h : Moment chunk S v s) (hallowed : s.Allowed chunk S x)
    (hstep : s.Step chunk x s') : Moment chunk S v s' ∨ Moment chunk S s' s' := by
  obtain ⟨hexec, hhistory⟩ := hstep
  cases x with
  | collect kind currentTick maxTicks => exact Or.inl (h.collect (h.sound.collect hexec) hhistory)
  | publish kind => exact Or.inl (h.keep (h.sound.publish hexec) hhistory)
  | finish kind => exact Or.inl (h.keep (h.sound.finish hexec) hhistory)
  | start kind =>
    obtain ⟨tick, hstarts⟩ := h.sound.start hexec
    by_cases hpos : ChunkPos.fromBlockPos tick.pos = s.world.chunkPos chunk
    · by_cases hseen : kind ∈ S ∧ s.world.stage.unread kind = true ∧ s.history.collected kind = false
      · obtain ⟨hkind, hunread, hcollected⟩ := hseen
        have hin : s.StartsIn chunk kind := ⟨tick, by rw [hstarts.first]; rfl, hpos⟩
        exact Or.inr (h.start_now hstarts hhistory hkind hunread hcollected (hallowed hkind hunread hcollected hin))
      · refine Or.inl (h.start hstarts hhistory fun k hk hunread hcollected => hstarts.selected k ?_)
        rintro rfl
        exact hseen ⟨hk, hunread, hcollected⟩
    · exact Or.inl (h.start hstarts hhistory fun k _ _ _ => hstarts.elsewhere hpos k)
  | schedule kind container tickType pos triggerTick priority subTickOrder =>
    refine Or.inl (h.schedule (h.sound.schedule hexec) ?_ fun k hk => ?_)
    · rw [hhistory]
      unfold SaveHistory.record
      dsimp only
      split <;> rfl
    · rw [hhistory] at hk
      unfold SaveHistory.record at hk
      dsimp only at hk
      split at hk
      · dsimp only at hk
        have hne : k ≠ kind := by
          rintro rfl
          rw [Function.update_self] at hk
          cases hk
        rw [Function.update_of_ne hne] at hk
        exact ⟨hk, Or.inl hne⟩
      · rename_i hnot
        exact ⟨hk, Or.inr hnot⟩
  | pack currentTick => exact Or.inr (h.pack hexec hhistory)
  | readBatch kind => exact Or.inl (h.readBatch (h.sound.readBatch hexec) hhistory hallowed)

/-- **A save** whose steps are allowed records, for the kinds in `S`, the ticks owed at one moment of the run. -/
theorem snapshot_owed {s u : Saving T} {xs : List (TickAction T)} (hstart : s.Start chunk)
    (hrun : Run (Guarded (Allowed chunk S) (Step chunk)) s xs u) (hdone : u.world.stage = .done) :
    ∃ t, Visits (Step chunk) s xs u t ∧
      ∀ kind ∈ S, savedSites (u.world.snapshot kind) = t.world.owed chunk kind := by
  obtain ⟨t, hvisits, hmoment⟩ := hrun.moment hstart.moment fun v t x u h hallowed hstep => h.step hallowed hstep
  refine ⟨t, hvisits, fun kind hkind => (hmoment.recorded ?_).read kind hkind ?_⟩
  · rw [hdone]
    exact fun h => by cases h
  · rw [hdone]
    rfl

/-! ## A tick that is recorded twice -/

theorem Step.owed_le {s s' : Saving T} {x : TickAction T} (h : s.world.Sound chunk) (hstep : s.Step chunk x s')
    (hx : ¬ x.IsSchedule) : s'.world.Sound chunk ∧ ∀ kind, s'.world.owed chunk kind ≤ s.world.owed chunk kind := by
  have hsame : ∀ {w : TickWorld T}, (∀ k, w.queued chunk k = s.world.queued chunk k) →
      (∀ k, w.selected chunk k = s.world.selected chunk k) → ∀ k, w.owed chunk k ≤ s.world.owed chunk k :=
    fun hqueued hselected k => by
      unfold TickWorld.owed
      rw [hqueued, hselected]
  obtain ⟨hexec, -⟩ := hstep
  cases x with
  | collect kind currentTick maxTicks =>
    have hcollects := h.collect hexec
    refine ⟨hcollects.sound, fun k => le_of_eq ?_⟩
    have hidle : ¬ s.world.Handles k := by
      rintro (hphase | ⟨index, hphase⟩) <;> rw [hcollects.before] at hphase <;> cases hphase
    have hnew : s'.world.Handles kind := Or.inl hcollects.after
    unfold TickWorld.owed
    rw [h.selected_zero hidle, add_zero]
    by_cases hk : k = kind
    · rw [hk, hcollects.moved, add_comm]
    · rw [hcollects.sound.selected_zero fun hhandles => hk (hnew.unique hhandles), add_zero, hcollects.queued k hk]
  | publish kind =>
    have hkeeps := h.publish hexec
    exact ⟨hkeeps.sound, hsame hkeeps.queued hkeeps.selected⟩
  | finish kind =>
    have hkeeps := h.finish hexec
    exact ⟨hkeeps.sound, hsame hkeeps.queued hkeeps.selected⟩
  | start kind =>
    obtain ⟨tick, hstarts⟩ := h.start hexec
    refine ⟨hstarts.sound, fun k => ?_⟩
    by_cases hpos : ChunkPos.fromBlockPos tick.pos = s.world.chunkPos chunk
    · unfold TickWorld.owed
      rw [hstarts.queued]
      refine add_le_add_right ?_ _
      by_cases hk : k = kind
      · subst hk
        rw [hstarts.in_chunk hpos]
        exact Multiset.le_cons_self _ _
      · rw [hstarts.selected k hk]
    · exact hsame hstarts.queued (hstarts.elsewhere hpos) k
  | schedule => exact absurd trivial hx
  | pack currentTick =>
    obtain ⟨hsound, hqueued, hselected, -⟩ := h.pack hexec
    exact ⟨hsound, hsame hqueued hselected⟩
  | readBatch kind =>
    have hreads := h.readBatch hexec
    exact ⟨hreads.sound, hsame hreads.queued hreads.selected⟩

theorem owed_le {s t u : Saving T} {xs : List (TickAction T)} (h : s.world.Sound chunk)
    (hvisits : Visits (Step chunk) s xs u t) (hxs : ∀ x ∈ xs, ¬ x.IsSchedule) (kind : TickKind) :
    t.world.owed chunk kind ≤ s.world.owed chunk kind := by
  obtain ⟨ys, hys, hrun⟩ := hvisits.run
  have hinvariant := (hrun.guard fun y hy => hxs y (hys y hy)).invariant_of_guarded
    (I := fun t : Saving T => t.world.Sound chunk ∧ t.world.owed chunk kind ≤ s.world.owed chunk kind) ⟨h, le_refl _⟩
    fun t x t' hi hx hstep => by
      obtain ⟨hsound, hle⟩ := hstep.owed_le hi.1 hx
      exact ⟨hsound, (hle kind).trans hi.2⟩
  exact hinvariant.2

theorem read_both {s : Saving T} (hstage : s.world.stage = .packed) : ∃ mid u : Saving T,
    s.Step chunk (.readBatch .block) mid ∧ mid.Step chunk (.readBatch .fluid) u ∧ u.world.stage = .done ∧
      mid.world.readyTicks = s.world.readyTicks ∧ mid.history = s.history ∧
      u.world.snapshot .block = s.world.snapshot .block ++
        (s.world.pendingTicksInChunk .block (s.world.chunkPos chunk)).map fun tick =>
          ⟨tick.tickType, tick.pos, 0, tick.priority⟩ := by
  let read (w : TickWorld T) (kind : TickKind) (stage : SaveStage) : TickWorld T :=
    { w with
      snapshot := Function.update w.snapshot kind
        (w.snapshot kind ++ (w.pendingTicksInChunk kind (w.chunkPos chunk)).map fun tick =>
          ⟨tick.tickType, tick.pos, 0, tick.priority⟩)
      stage := stage }
  have hread : ∀ (w : TickWorld T) (kind : TickKind) (stage : SaveStage), w.stage.read kind = some stage →
      w.exec chunk (.readBatch kind) = some (read w kind stage) := by
    intro w kind stage hw
    show w.readBatch chunk kind = _
    unfold TickWorld.readBatch
    rw [hw]
    rfl
  refine ⟨⟨read s.world .block .blockRead, s.history⟩, ⟨read (read s.world .block .blockRead) .fluid .done, s.history⟩,
    ⟨hread _ _ _ (by rw [hstage]; rfl), rfl⟩, ⟨hread _ _ _ rfl, rfl⟩, rfl, rfl, rfl, rfl⟩

def sampleTick : ScheduledTick Unit := ⟨(), ⟨0, 0, 0⟩, 3, .normal, 0⟩

/-- Before the tick that runs the one block tick of chunk 0. -/
def sampleSaving : Saving fun _ => Unit :=
  ⟨⟨WorldTickScheduler.sampleScheduler, .waiting .block, fun _ => [], fun _ => none, .idle, fun _ => []⟩, .none⟩

theorem sampleSaving_start : sampleSaving.Start 0 where
  indexed := WorldTickScheduler.sampleScheduler_indexed
  registered := rfl
  homed := by
    refine WorldTickScheduler.Homed.schedule (T := fun _ => Unit) (fun id k tick htick => ?_) rfl () 3 .normal 0
    have hnew : ∀ f : Nat → ChunkTickContainer fun _ => Unit, (f id).lists k = .new → tick ∉ ((f id).lists k).queue := by
      intro f hf hmem
      rw [hf] at hmem
      cases hmem
    refine absurd htick (hnew _ ?_)
    by_cases hid : id = 0
    · subst hid
      rfl
    · have hother : ∀ (f : Nat → ChunkTickContainer fun _ => Unit) c, Function.update f 0 c id = f id := fun f c =>
        Function.update_of_ne hid c f
      exact congrArg (fun c : ChunkTickContainer fun _ => Unit => c.lists k) (hother _ _)
  phase := rfl
  ready := fun _ => rfl
  batch := fun _ => rfl
  stage := rfl

theorem sample_collect : ∃ (changed : List Nat) (scheduler : WorldTickScheduler fun _ => Unit),
    sampleSaving.world.scheduler.collectTicks .block 5 10 = (.ok ⟨[sampleTick], changed⟩, scheduler) ∧
      (scheduler.containers 0).pos = ⟨0, 0⟩ ∧ (scheduler.containers 0).lifecycle = .registered := by
  obtain ⟨⟨ticks, changed⟩, scheduler, tagged, hcollect, -, hspec⟩ := sampleSaving_start.indexed.batch .block 5 10
  suffices hticks : ticks = [sampleTick] by
    subst hticks
    exact ⟨changed, scheduler, hcollect, hspec.pos 0, hspec.lifecycle 0⟩
  have hlength : ticks.length = 1 := hspec.length
  have hchunk : ∀ e ∈ tagged, e.1 = ⟨0, 0⟩ := by
    intro e he
    have hrank := (hspec.active e he).1
    unfold WorldTickSchedulerState.rankAt at hrank
    have hkeys : e.1 ∈ WorldTickScheduler.sampleScheduler.state.chunks := by
      rw [← AList.lookup_isSome]
      exact Option.isSome_of_isSome_bind hrank
    exact List.mem_singleton.mp (AList.mem_keys.mp hkeys)
  have hall : ticks = takenFrom tagged ⟨0, 0⟩ := by
    have hfilter : tagged.filter (fun e => e.1 = ⟨0, 0⟩) = tagged :=
      List.filter_eq_self.mpr fun e he => decide_eq_true (hchunk e he)
    unfold takenFrom
    rw [hfilter]
    exact hspec.ticks
  have hsplit : ticks ++ scheduler.queueAt .block ⟨0, 0⟩ = [sampleTick] := by
    rw [hall]
    exact hspec.split ⟨0, 0⟩
  match ticks, hsplit with
  | [], _ => cases hlength
  | tick :: rest, hsplit =>
    obtain ⟨rfl, hnil⟩ := List.cons_eq_cons.mp hsplit
    rw [(List.append_eq_nil_iff.mp hnil).1]

/-- The world once the sample tick has been collected and published. -/
def samplePublished (w : TickWorld fun _ => Unit) (scheduler : WorldTickScheduler fun _ => Unit) :
    TickWorld fun _ => Unit :=
  { w with
    scheduler := scheduler
    phase := .running .block 0
    readyTicks := Function.update (Function.update w.readyTicks .block [sampleTick]) .block []
    scheduledTicksThisTick := Function.update w.scheduledTicksThisTick .block (some (.new [sampleTick])) }

theorem sample_publish {changed : List Nat} {scheduler : WorldTickScheduler fun _ => Unit} {s : Saving fun _ => Unit}
    (hcollect : s.world.scheduler.collectTicks .block 5 10 = (.ok ⟨[sampleTick], changed⟩, scheduler))
    (hphase : s.world.phase = .waiting .block) (hnone : s.world.scheduledTicksThisTick .block = none) :
    Run (Guarded (Allowed 0 Set.univ) (Step 0)) s [.collect .block 5 10, .publish .block]
      ⟨samplePublished s.world scheduler,
        { s.history with collected := Function.update s.history.collected .block true }⟩ := by
  let collected : TickWorld fun _ => Unit :=
    { s.world with
      scheduler := scheduler
      readyTicks := Function.update s.world.readyTicks .block [sampleTick]
      phase := .collected .block }
  have hcollected : s.world.collect .block 5 10 = some collected := by
    unfold TickWorld.collect
    rw [if_pos hphase, hcollect]
  have hpublished : collected.publish .block = some (samplePublished s.world scheduler) := by
    have hnone' : collected.scheduledTicksThisTick .block = none := hnone
    have hready : collected.readyTicks .block = [sampleTick] := rfl
    unfold TickWorld.publish
    rw [if_pos rfl, hnone', hready, if_neg (List.cons_ne_nil _ _), Option.isSome_none, if_neg Bool.false_ne_true]
    rfl
  let middle : Saving fun _ => Unit :=
    ⟨collected, { s.history with collected := Function.update s.history.collected .block true }⟩
  have hfirst : Step 0 s (.collect .block 5 10) middle := ⟨hcollected, rfl⟩
  have hsecond : Step 0 middle (.publish .block) ⟨samplePublished s.world scheduler, middle.history⟩ := ⟨hpublished, rfl⟩
  exact (Run.single (t := middle) ⟨trivial, hfirst⟩).append (.single ⟨trivial, hsecond⟩)

theorem sample_pending (w : TickWorld fun _ => Unit) {scheduler : WorldTickScheduler fun _ => Unit}
    (hpos : (scheduler.containers 0).pos = ⟨0, 0⟩) :
    (samplePublished w scheduler).pendingTicksInChunk .block ((samplePublished w scheduler).chunkPos 0) = [sampleTick] := by
  have hchunk : (samplePublished w scheduler).chunkPos 0 = ⟨0, 0⟩ := hpos
  rw [hchunk]
  rfl

/-- The tick is in the container at the pack and in the published batch at the read. -/
theorem snapshot_twice : sampleSaving.Start 0 ∧ ∃ u,
    Run (Step 0) sampleSaving [.pack 0, .collect .block 5 10, .publish .block, .readBatch .block, .readBatch .fluid] u ∧
      u.world.stage = .done ∧
      ¬ ∃ t, Visits (Step 0) sampleSaving
          [.pack 0, .collect .block 5 10, .publish .block, .readBatch .block, .readBatch .fluid] u t ∧
        savedSites (u.world.snapshot .block) = t.world.owed 0 .block := by
  obtain ⟨changed, scheduler, hcollect, hpos, -⟩ := sample_collect
  let packed : Saving fun _ => Unit :=
    ⟨{ sampleSaving.world with
        snapshot := fun kind => ((sampleSaving.world.scheduler.containers 0).lists kind).pack 0
        stage := .packed }, .none⟩
  have hpack : Step 0 sampleSaving (.pack 0) packed := ⟨rfl, rfl⟩
  have hpublish := (sample_publish (s := packed) hcollect rfl rfl).mono fun _ _ _ hstep => hstep.2
  obtain ⟨mid, u, hblock, hfluid, hdone, -, -, hsnapshot⟩ := read_both 
    (s := ⟨samplePublished packed.world scheduler, ⟨Function.update (fun _ => false) .block true, fun _ => false⟩⟩) rfl
  have hrun := ((Run.single hpack).append hpublish).append ((Run.single hblock).append (.single hfluid))
  refine ⟨sampleSaving_start, u, hrun, hdone, ?_⟩
  rintro ⟨t, hvisits, hsites⟩
  have hle := owed_le (sampleSaving_start.moment (S := ∅)).sound hvisits (by simp [TickAction.IsSchedule]) .block
  have hcard := Multiset.card_le_card hle
  dsimp only at hsnapshot
  rw [sample_pending packed.world hpos] at hsnapshot
  have hpacked : savedSites ((samplePublished packed.world scheduler).snapshot .block) = sites [sampleTick] :=
    TickList.pack_sites _ 0
  rw [← hsites, hsnapshot, savedSites_append, hpacked] at hcard
  exact Nat.not_succ_le_self 1 hcard

theorem sample_snapshot_owed : ∃ u, u.world.stage = .done ∧ ∃ t,
    Visits (Step 0) sampleSaving [.collect .block 5 10, .publish .block, .pack 0, .readBatch .block, .readBatch .fluid] u
      t ∧ ∀ kind ∈ Set.univ, savedSites (u.world.snapshot kind) = t.world.owed 0 kind := by
  obtain ⟨changed, scheduler, hcollect, -, hregistered⟩ := sample_collect
  have hpublish := sample_publish (s := sampleSaving) hcollect rfl rfl
  let published := samplePublished sampleSaving.world scheduler
  let packed : Saving fun _ => Unit :=
    ⟨{ published with
        snapshot := fun kind => ((scheduler.containers 0).lists kind).pack 0
        stage := .packed }, .none⟩
  have hpack : Run (Guarded (Allowed 0 Set.univ) (Step 0))
      ⟨published, ⟨Function.update (fun _ => false) .block true, fun _ => false⟩⟩ [.pack 0] packed := by
    refine .single ⟨trivial, ?_, rfl⟩
    show published.pack 0 0 = _
    unfold TickWorld.pack
    dsimp only
    rw [if_pos ⟨rfl, fun h => by rw [show published.scheduler = scheduler from rfl, hregistered] at h; cases h⟩]
    rfl
  obtain ⟨mid, u, hblock, hfluid, hdone, hready, hhistory, -⟩ := read_both  (s := packed) rfl
  have hunread : ∀ s : Saving fun _ => Unit, s.history = .none → s.world.readyTicks = published.readyTicks →
      ∀ kind, s.Allowed 0 Set.univ (.readBatch kind) := by
    intro s hnone hready kind _
    rw [hnone, hready]
    show ∀ tick ∈ published.readyTicks kind, _
    intro tick htick
    cases kind <;> cases htick
  have hrun := (hpublish.append hpack).append
    ((Run.single ⟨hunread packed rfl rfl .block, hblock⟩).append (.single ⟨hunread mid hhistory hready .fluid, hfluid⟩))
  exact ⟨u, hdone, snapshot_owed sampleSaving_start hrun hdone⟩

end Saving

end Foton
