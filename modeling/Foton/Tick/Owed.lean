import Foton.Tick.Save
import Mathlib.Algebra.Order.Group.Multiset

/-!
# Owed ticks

The ticks of a chunk that are owed at some moment: queued in its container, or
selected and not started. Each step of the tick thread moves them or starts one.
-/

namespace Foton

def sites {α : Type} (ticks : List (ScheduledTick α)) : Multiset (α × BlockPos) :=
  ticks.map fun tick => (tick.tickType, tick.pos)

def savedSites {α : Type} (ticks : List (SavedTick α)) : Multiset (α × BlockPos) :=
  ticks.map fun tick => (tick.tickType, tick.pos)

section
variable {α : Type}

@[simp]
theorem sites_nil : sites ([] : List (ScheduledTick α)) = 0 := rfl

theorem sites_cons (tick : ScheduledTick α) (ticks : List (ScheduledTick α)) :
    sites (tick :: ticks) = (tick.tickType, tick.pos) ::ₘ sites ticks := rfl

theorem sites_append (a b : List (ScheduledTick α)) : sites (a ++ b) = sites a + sites b := by
  unfold sites
  rw [List.map_append, Multiset.coe_add]

theorem sites_perm {a b : List (ScheduledTick α)} (h : a.Perm b) : sites a = sites b :=
  Multiset.coe_eq_coe.mpr (h.map _)

theorem savedSites_append (a b : List (SavedTick α)) : savedSites (a ++ b) = savedSites a + savedSites b := by
  unfold savedSites
  rw [List.map_append, Multiset.coe_add]

theorem savedSites_map {ticks : List (ScheduledTick α)} {save : ScheduledTick α → SavedTick α}
    (htype : ∀ tick, (save tick).tickType = tick.tickType) (hpos : ∀ tick, (save tick).pos = tick.pos) :
    savedSites (ticks.map save) = sites ticks := by
  unfold savedSites sites
  rw [List.map_map]
  exact congrArg _ (List.map_congr_left fun tick _ => by rw [Function.comp_apply, htype, hpos])

end

namespace TickList

variable {α : Type}

/-- The ticks in the container, saved or live. -/
def sites (l : TickList α) : Multiset (α × BlockPos) := savedSites (l.pendingTicks.getD []) + Foton.sites l.queue

theorem pack_sites (l : TickList α) (currentTick : Int) : savedSites (l.pack currentTick) = l.sites := by
  unfold pack TickList.sites queue
  dsimp only
  rw [savedSites_append]
  refine congrArg _ ?_
  have hsave : ∀ live : List (QueuedTick α), savedSites (live.map fun queued =>
      (⟨queued.tick.tickType, queued.tick.pos, wrappingDelay queued.tick.triggerTick currentTick,
        queued.tick.priority⟩ : SavedTick α)) = Foton.sites (live.map QueuedTick.tick) := by
    intro live
    unfold savedSites Foton.sites
    rw [List.map_map, List.map_map]
    rfl
  rw [hsave]
  exact sites_perm ((List.mergeSort_perm _ _).map _)

theorem schedule_refused [TickKey α] {l : TickList α} {tickType : α} {pos : BlockPos} {triggerTick : Int}
    {priority : TickPriority} {subTickOrder : Int} (h : (pos, TickKey.key tickType) ∈ l.scheduled) :
    l.schedule tickType pos triggerTick priority subTickOrder = (l, false) := if_pos h

theorem schedule_queue [TickKey α] {l : TickList α} {tickType : α} {pos : BlockPos} {triggerTick : Int}
    {priority : TickPriority} {subTickOrder : Int} (h : (pos, TickKey.key tickType) ∉ l.scheduled) :
    let l' := (l.schedule tickType pos triggerTick priority subTickOrder).1
    l'.pendingTicks = l.pendingTicks ∧
      l'.queue.Perm (⟨tickType, pos, triggerTick, priority, subTickOrder⟩ :: l.queue) := by
  unfold schedule
  dsimp only
  rw [if_neg h]
  refine ⟨rfl, ?_⟩
  unfold queue pushUnchecked
  exact (PriorityQueue.push_perm _ _).map QueuedTick.tick

end TickList

/-! ## The scheduler's steps -/

namespace WorldTickScheduler

variable {T : TickKind → Type} {w w' : WorldTickScheduler T}

theorem Indexed.queueAt_registered (h : w.Indexed) {chunk : Nat}
    (hregistered : (w.containers chunk).lifecycle = .registered) (kind : TickKind) :
    w.queueAt kind (w.containers chunk).pos = ((w.containers chunk).lists kind).queue := by
  obtain ⟨r, hr, hchunk⟩ := h.registered chunk hregistered
  unfold queueAt
  rw [hr]
  dsimp only
  rw [hchunk]

/-- Every live tick is in the container of its chunk. -/
def Homed (w : WorldTickScheduler T) : Prop :=
  ∀ chunk kind, ∀ tick ∈ ((w.containers chunk).lists kind).queue,
    ChunkPos.fromBlockPos tick.pos = (w.containers chunk).pos

namespace BatchSpec

variable {kind : TickKind} {currentTick : Int} {maxTicks : Nat} {batch : ScheduledTickBatch (T kind)}
  {tagged : List (ChunkPos × ScheduledTick (T kind))}

theorem queue_split (hspec : BatchSpec w w' kind currentTick maxTicks batch tagged) (h : w.Indexed) (h' : w'.Indexed)
    {chunk : Nat} (hregistered : (w.containers chunk).lifecycle = .registered) :
    takenFrom tagged (w.containers chunk).pos ++ ((w'.containers chunk).lists kind).queue =
      ((w.containers chunk).lists kind).queue := by
  have hregistered' : (w'.containers chunk).lifecycle = .registered := by rw [hspec.lifecycle, hregistered]
  rw [← h.queueAt_registered hregistered, ← h'.queueAt_registered hregistered', hspec.pos]
  exact hspec.split _

theorem homed (hspec : BatchSpec w w' kind currentTick maxTicks batch tagged) (h : w.Indexed) (h' : w'.Indexed)
    (hhomed : w.Homed) : w'.Homed := by
  intro chunk k tick htick
  rw [hspec.pos]
  refine hhomed chunk k tick ?_
  by_cases hk : k = kind
  · subst hk
    by_cases hregistered : (w.containers chunk).lifecycle = .registered
    · rw [← hspec.queue_split h h' hregistered]
      exact List.mem_append_right _ htick
    · have hsame := hspec.inactive chunk fun pos r hr hchunk =>
        absurd (hchunk ▸ (h.registration pos r hr).lifecycle) hregistered
      rw [← hsame]
      exact htick
  · rw [← hspec.otherKind chunk k hk]
    exact htick

theorem ticks_in (hspec : BatchSpec w w' kind currentTick maxTicks batch tagged) (h : w.Indexed) (hhomed : w.Homed)
    (pos : ChunkPos) :
    batch.ticks.filter (fun tick => ChunkPos.fromBlockPos tick.pos = pos) = takenFrom tagged pos := by
  rw [hspec.ticks, List.filter_map]
  refine congrArg (List.map Prod.snd) (List.filter_congr fun e he => ?_)
  have hmem : e.2 ∈ takenFrom tagged e.1 :=
    List.mem_map_of_mem (List.mem_filter.mpr ⟨he, decide_eq_true rfl⟩)
  have hqueue : e.2 ∈ w.queueAt kind e.1 := by
    rw [← hspec.split e.1]
    exact List.mem_append_left _ hmem
  unfold queueAt at hqueue
  cases hr : w.state.chunks.lookup e.1 with
  | none =>
    rw [hr] at hqueue
    cases hqueue
  | some r =>
    rw [hr] at hqueue
    have hhome := hhomed r.container kind e.2 hqueue
    rw [(h.registration e.1 r hr).pos] at hhome
    rw [Function.comp_apply, hhome]

end BatchSpec

theorem schedule_containers [∀ kind, TickKey (T kind)] (w : WorldTickScheduler T) (kind : TickKind) (chunk : Nat)
    (tickType : T kind) (pos : BlockPos) (triggerTick : Int) (priority : TickPriority) (subTickOrder : Int) :
    let result := w.schedule kind chunk tickType pos triggerTick priority subTickOrder
    let list := ((w.containers chunk).lists kind).schedule tickType pos triggerTick priority subTickOrder
    ((pos, TickKey.key tickType) ∈ ((w.containers chunk).lists kind).scheduled ∨
        (w.containers chunk).lifecycle = .finalized) ∧ result.2.containers = w.containers ∨
      (pos, TickKey.key tickType) ∉ ((w.containers chunk).lists kind).scheduled ∧ result.2.containers =
        (w.setLists chunk (Function.update (w.containers chunk).lists kind list.1)).containers := by
  intro result list
  have hresult : result = w.schedule kind chunk tickType pos triggerTick priority subTickOrder := rfl
  clear_value result
  unfold WorldTickScheduler.schedule at hresult
  dsimp only at hresult
  by_cases hkey : (pos, TickKey.key tickType) ∈ ((w.containers chunk).lists kind).scheduled
  · refine Or.inl ⟨Or.inl hkey, ?_⟩
    rw [TickList.schedule_refused hkey, Function.update_eq_self] at hresult
    have hsame : (w.setLists chunk (w.containers chunk).lists).containers = w.containers :=
      Function.update_eq_self chunk w.containers
    cases hlifecycle : (w.containers chunk).lifecycle <;> rw [hlifecycle] at hresult <;> subst hresult
    · rfl
    · exact hsame
    · rfl
    · rfl
  · by_cases hfinalized : (w.containers chunk).lifecycle = .finalized
    · refine Or.inl ⟨Or.inr hfinalized, ?_⟩
      rw [hfinalized] at hresult
      subst hresult
      rfl
    · refine Or.inr ⟨hkey, ?_⟩
      subst hresult
      split
      · rfl
      · rename_i heq
        exact absurd heq hfinalized
      · have hadded : (((w.containers chunk).lists kind).schedule tickType pos triggerTick priority subTickOrder).2 =
            true := by
          unfold TickList.schedule
          dsimp only
          rw [if_neg hkey]
        rw [hadded, if_neg (by decide)]
        split
        · rfl
        · split
          · rfl
          · split
            · rfl
            · unfold withState
              split <;> rfl

theorem Homed.schedule [∀ kind, TickKey (T kind)] (h : w.Homed) {kind : TickKind} {chunk : Nat} {pos : BlockPos}
    (hpos : ChunkPos.fromBlockPos pos = (w.containers chunk).pos) (tickType : T kind) (triggerTick : Int)
    (priority : TickPriority) (subTickOrder : Int) :
    (w.schedule kind chunk tickType pos triggerTick priority subTickOrder).2.Homed := by
  intro id k tick htick
  rcases w.schedule_containers kind chunk tickType pos triggerTick priority subTickOrder with ⟨-, hsame⟩ | ⟨hfresh, hset⟩
  · rw [hsame] at htick ⊢
    exact h id k tick htick
  · rw [hset] at htick ⊢
    rw [setLists_pos]
    by_cases hid : id = chunk
    · subst hid
      rw [setLists_self] at htick
      dsimp only at htick
      by_cases hk : k = kind
      · subst hk
        rw [Function.update_self, (TickList.schedule_queue hfresh).2.mem_iff, List.mem_cons] at htick
        rcases htick with rfl | htick
        · exact hpos
        · exact h id k tick htick
      · rw [Function.update_of_ne hk] at htick
        exact h id k tick htick
    · rw [setLists_other _ hid] at htick
      exact h id k tick htick

end WorldTickScheduler

/-! ## The ticks of a chunk -/

namespace TickWorld

variable {T : TickKind → Type} {w w' : TickWorld T} {chunk : Nat}

/-- The selected ticks that have not started, published or not. -/
def unstarted (w : TickWorld T) (kind : TickKind) : List (ScheduledTick (T kind)) :=
  w.readyTicks kind ++ ((w.scheduledTicksThisTick kind).map ScheduledTickRunBatch.notYetStarted).getD []

def chunkPos (w : TickWorld T) (chunk : Nat) : ChunkPos := (w.scheduler.containers chunk).pos

def queued (w : TickWorld T) (chunk : Nat) (kind : TickKind) : Multiset (T kind × BlockPos) :=
  ((w.scheduler.containers chunk).lists kind).sites

def selected (w : TickWorld T) (chunk : Nat) (kind : TickKind) : Multiset (T kind × BlockPos) :=
  sites ((w.unstarted kind).filter fun tick => ChunkPos.fromBlockPos tick.pos = w.chunkPos chunk)

/-- The ticks of the chunk that are queued, or selected but not started. -/
def owed (w : TickWorld T) (chunk : Nat) (kind : TickKind) : Multiset (T kind × BlockPos) :=
  w.queued chunk kind + w.selected chunk kind

/-- What holds between the steps. -/
structure Sound (w : TickWorld T) (chunk : Nat) : Prop where
  indexed : w.scheduler.Indexed
  registered : (w.scheduler.containers chunk).lifecycle = .registered
  homed : w.scheduler.Homed
  ready : ∀ kind, w.phase ≠ .collected kind → w.readyTicks kind = []
  batch : ∀ kind, (∀ index, w.phase ≠ .running kind index) → w.scheduledTicksThisTick kind = none
  cursor : ∀ kind index, w.phase = .running kind index →
    ∃ batch, w.scheduledTicksThisTick kind = some batch ∧ batch.nextIndex = index

/-- The tick thread is at work on ticks of `kind`. -/
def Handles (w : TickWorld T) (kind : TickKind) : Prop :=
  w.phase = .collected kind ∨ ∃ index, w.phase = .running kind index

theorem Handles.unique {kind k : TickKind} (h : w.Handles kind) (h' : w.Handles k) : k = kind := by
  rcases h with h | ⟨index, h⟩ <;> rcases h' with h' | ⟨index', h'⟩ <;> rw [h] at h' <;> cases h' <;> rfl

theorem Sound.selected_zero (h : w.Sound chunk) {kind : TickKind} (hnot : ¬ w.Handles kind) :
    w.selected chunk kind = 0 := by
  unfold selected unstarted
  rw [h.ready kind fun hphase => hnot (Or.inl hphase),
    h.batch kind fun index hphase => hnot (Or.inr ⟨index, hphase⟩)]
  rfl

theorem selected_congr {kind : TickKind} (hpos : w'.chunkPos chunk = w.chunkPos chunk)
    (hunstarted : w'.unstarted kind = w.unstarted kind) : w'.selected chunk kind = w.selected chunk kind := by
  unfold selected
  rw [hpos, hunstarted]

theorem selected_split (w : TickWorld T) (chunk : Nat) (kind : TickKind) : w.selected chunk kind =
    sites ((w.readyTicks kind).filter fun tick => ChunkPos.fromBlockPos tick.pos = w.chunkPos chunk) +
      sites (w.pendingTicksInChunk kind (w.chunkPos chunk)) := by
  unfold selected unstarted pendingTicksInChunk
  rw [List.filter_append, sites_append]
  cases w.scheduledTicksThisTick kind <;> rfl

variable {kind : TickKind}

/-! ## What a step does -/

/-- A step that leaves every owed tick where it is counted, and the save alone. -/
structure Keeps (w w' : TickWorld T) (chunk : Nat) : Prop where
  sound : w'.Sound chunk
  queued : ∀ k, w'.queued chunk k = w.queued chunk k
  selected : ∀ k, w'.selected chunk k = w.selected chunk k
  handles : ∀ k, w'.Handles k → w.Handles k
  stage : w'.stage = w.stage
  snapshot : w'.snapshot = w.snapshot

theorem Sound.publish (h : w.Sound chunk) (hstep : w.publish kind = some w') : w.Keeps w' chunk := by
  unfold TickWorld.publish at hstep
  by_cases hphase : w.phase = .collected kind
  · rw [if_pos hphase] at hstep
    have hnone : ∀ k, w.scheduledTicksThisTick k = none := fun k =>
      h.batch k fun index => by rw [hphase]; exact fun h => by cases h
    by_cases hempty : w.readyTicks kind = []
    · rw [if_pos hempty] at hstep
      cases hstep
      refine ⟨⟨h.indexed, h.registered, h.homed, fun k _ => ?_, fun k _ => hnone k, fun k index hk => (by cases hk)⟩,
        fun k => rfl, fun k => rfl, fun k hk => ?_, rfl, rfl⟩
      · by_cases hk : k = kind
        · rw [hk]
          exact hempty
        · exact h.ready k fun heq => hk (by rw [hphase] at heq; cases heq; rfl)
      · rcases hk with hk | ⟨index, hk⟩ <;> cases hk
    · rw [if_neg hempty, hnone kind, Option.isSome_none, if_neg Bool.false_ne_true] at hstep
      cases hstep
      have hother : ∀ k, k ≠ kind → w.readyTicks k = [] := fun k hk =>
        h.ready k fun heq => hk (by rw [hphase] at heq; cases heq; rfl)
      refine ⟨⟨h.indexed, h.registered, h.homed, fun k _ => ?_, fun k hk => ?_, fun k index hk => ?_⟩,
        fun k => rfl, fun k => selected_congr rfl ?_, fun k hk => ?_, rfl, rfl⟩
      · by_cases hk : k = kind
        · subst hk
          exact Function.update_self _ _ _
        · exact (Function.update_of_ne hk _ _).trans (hother k hk)
      · have hne : k ≠ kind := fun heq => hk 0 (by rw [heq])
        exact (Function.update_of_ne hne _ _).trans (hnone k)
      · cases hk
        exact ⟨_, Function.update_self _ _ _, rfl⟩
      · unfold unstarted
        dsimp only
        by_cases hk : k = kind
        · subst hk
          rw [Function.update_self, Function.update_self, hnone]
          exact (List.append_nil _).symm
        · rw [Function.update_of_ne hk, Function.update_of_ne hk]
      · rcases hk with hk | ⟨index, hk⟩
        · cases hk
        · cases hk
          exact Or.inl hphase
  · rw [if_neg hphase] at hstep
    cases hstep

theorem Sound.finish (h : w.Sound chunk) (hstep : w.finish kind = some w') : w.Keeps w' chunk := by
  unfold TickWorld.finish at hstep
  split at hstep
  · rename_i k index batch hphase hbatch
    split at hstep
    · rename_i hdone
      obtain ⟨rfl, hindex⟩ := hdone
      cases hstep
      obtain ⟨batch', hbatch', hcursor⟩ := h.cursor k index hphase
      rw [hbatch] at hbatch'
      cases hbatch'
      have hready : ∀ k', w.readyTicks k' = [] := fun k' => h.ready k' (by rw [hphase]; exact fun h => by cases h)
      refine ⟨⟨h.indexed, h.registered, h.homed, fun k' _ => hready k', fun k' _ => ?_, fun k' index' hk => (by cases hk)⟩,
        fun k' => rfl, fun k' => selected_congr rfl ?_, fun k' hk => ?_, rfl, rfl⟩
      · by_cases hk : k' = k
        · subst hk
          exact Function.update_self _ _ _
        · exact (Function.update_of_ne hk _ _).trans
            (h.batch k' fun index' heq => hk (by rw [hphase] at heq; cases heq; rfl))
      · unfold unstarted
        dsimp only
        by_cases hk : k' = k
        · subst hk
          rw [Function.update_self, hbatch]
          have hnil : batch.notYetStarted = [] := by
            unfold ScheduledTickRunBatch.notYetStarted
            rw [hcursor, hindex, List.drop_length]
          exact congrArg _ hnil.symm
        · rw [Function.update_of_ne hk]
      · rcases hk with hk | ⟨index', hk⟩ <;> cases hk
    · cases hstep
  · cases hstep

/-- `start` takes the first tick of the batch off what is owed. -/
structure Starts (w w' : TickWorld T) (chunk : Nat) (kind : TickKind) (tick : ScheduledTick (T kind)) : Prop where
  sound : w'.Sound chunk
  handles : w.Handles kind
  first : w.unstarted kind = tick :: w'.unstarted kind
  chunkPos : w'.chunkPos chunk = w.chunkPos chunk
  queued : ∀ k, w'.queued chunk k = w.queued chunk k
  selected : ∀ k, k ≠ kind → w'.selected chunk k = w.selected chunk k
  after : ∀ k, w'.Handles k → k = kind
  stage : w'.stage = w.stage
  snapshot : w'.snapshot = w.snapshot

theorem Starts.in_chunk {tick : ScheduledTick (T kind)} (h : w.Starts w' chunk kind tick)
    (hpos : ChunkPos.fromBlockPos tick.pos = w.chunkPos chunk) :
    w.selected chunk kind = (tick.tickType, tick.pos) ::ₘ w'.selected chunk kind := by
  unfold TickWorld.selected
  rw [h.first, List.filter_cons, if_pos (decide_eq_true hpos), sites_cons, h.chunkPos]

theorem Starts.elsewhere {tick : ScheduledTick (T kind)} (h : w.Starts w' chunk kind tick)
    (hpos : ChunkPos.fromBlockPos tick.pos ≠ w.chunkPos chunk) (k : TickKind) :
    w'.selected chunk k = w.selected chunk k := by
  by_cases hk : k = kind
  · subst hk
    unfold TickWorld.selected
    rw [h.first, List.filter_cons, if_neg (by rwa [decide_eq_true_eq]), h.chunkPos]
  · exact h.selected k hk

theorem Sound.start (h : w.Sound chunk) (hstep : w.start kind = some w') : ∃ tick, w.Starts w' chunk kind tick := by
  unfold TickWorld.start at hstep
  split at hstep
  · rename_i k index batch hphase hbatch
    split at hstep
    · rename_i hk
      subst hk
      obtain ⟨batch₂, hstart, rfl⟩ := Option.map_eq_some_iff.mp hstep
      obtain ⟨batch', hbatch', hcursor⟩ := h.cursor k index hphase
      rw [hbatch] at hbatch'
      cases hbatch'
      unfold ScheduledTickRunBatch.start at hstart
      split at hstart
      · rename_i hlt
        cases hstart
        have hready : ∀ k', w.readyTicks k' = [] := fun k' => h.ready k' (by rw [hphase]; exact fun h => by cases h)
        refine ⟨batch.ticks[index],
          { sound := ⟨h.indexed, h.registered, h.homed, fun k' _ => hready k', fun k' hk => ?_, fun k' index' hk => ?_⟩
            handles := Or.inr ⟨index, hphase⟩
            first := ?_
            chunkPos := rfl
            queued := fun _ => rfl
            selected := fun k' hk => selected_congr rfl ?_
            after := fun k' hk => ?_
            stage := rfl
            snapshot := rfl }⟩
        · have hne : k' ≠ k := fun heq => hk (index + 1) (by rw [heq])
          exact (Function.update_of_ne hne _ _).trans
            (h.batch k' fun index' heq => hne (by rw [hphase] at heq; cases heq; rfl))
        · cases hk
          exact ⟨_, Function.update_self _ _ _, rfl⟩
        · unfold unstarted ScheduledTickRunBatch.notYetStarted
          dsimp only
          rw [hready, hbatch, Function.update_self, List.nil_append, List.nil_append, Option.map_some, Option.map_some,
            Option.getD_some, Option.getD_some, hcursor, List.drop_eq_getElem_cons hlt]
        · unfold unstarted
          dsimp only
          rw [Function.update_of_ne hk]
        · rcases hk with hk | ⟨index', hk⟩
          · cases hk
          · cases hk
            rfl
      · cases hstart
    · cases hstep
  · cases hstep

theorem Sound.pack (h : w.Sound chunk) {currentTick : Int} (hstep : w.pack chunk currentTick = some w') :
    w'.Sound chunk ∧ (∀ k, w'.queued chunk k = w.queued chunk k) ∧ (∀ k, w'.selected chunk k = w.selected chunk k) ∧
      w.stage = .idle ∧ w'.stage = .packed ∧ ∀ k, savedSites (w'.snapshot k) = w.queued chunk k := by
  unfold TickWorld.pack at hstep
  dsimp only at hstep
  split at hstep
  · rename_i hidle
    cases hstep
    exact ⟨⟨h.indexed, h.registered, h.homed, h.ready, h.batch, h.cursor⟩, fun _ => rfl, fun _ => rfl, hidle.1, rfl,
      fun k => TickList.pack_sites _ _⟩
  · cases hstep

/-- `readBatch` adds the published ticks to the snapshot. -/
structure Reads (w w' : TickWorld T) (chunk : Nat) (kind : TickKind) : Prop where
  sound : w'.Sound chunk
  queued : ∀ k, w'.queued chunk k = w.queued chunk k
  selected : ∀ k, w'.selected chunk k = w.selected chunk k
  phase : w'.phase = w.phase
  stage : w.stage.read kind = some w'.stage
  read : savedSites (w'.snapshot kind) =
    savedSites (w.snapshot kind) + sites (w.pendingTicksInChunk kind (w.chunkPos chunk))
  snapshot : ∀ k, k ≠ kind → w'.snapshot k = w.snapshot k

theorem Sound.readBatch (h : w.Sound chunk) (hstep : w.readBatch chunk kind = some w') : w.Reads w' chunk kind := by
  unfold TickWorld.readBatch at hstep
  obtain ⟨stage, hstage, rfl⟩ := Option.map_eq_some_iff.mp hstep
  refine ⟨⟨h.indexed, h.registered, h.homed, h.ready, h.batch, h.cursor⟩, fun _ => rfl, fun _ => rfl, rfl, hstage, ?_,
    fun k hk => Function.update_of_ne hk _ _⟩
  dsimp only
  rw [Function.update_self, savedSites_append, savedSites_map (fun _ => rfl) fun _ => rfl]
  rfl

section
variable [∀ kind, TickKey (T kind)]

/-- `collect` moves ticks of its kind out of the queue. -/
structure Collects (w w' : TickWorld T) (chunk : Nat) (kind : TickKind) : Prop where
  sound : w'.Sound chunk
  before : w.phase = .waiting kind
  after : w'.phase = .collected kind
  moved : w.queued chunk kind = w'.selected chunk kind + w'.queued chunk kind
  queued : ∀ k, k ≠ kind → w'.queued chunk k = w.queued chunk k
  stage : w'.stage = w.stage
  snapshot : w'.snapshot = w.snapshot

theorem Sound.collect (h : w.Sound chunk) {currentTick : Int} {maxTicks : Nat}
    (hstep : w.collect kind currentTick maxTicks = some w') : w.Collects w' chunk kind := by
  unfold TickWorld.collect at hstep
  by_cases hphase : w.phase = .waiting kind
  · rw [if_pos hphase] at hstep
    obtain ⟨batch, scheduler, tagged, hcollect, hindexed, hspec⟩ := h.indexed.batch kind currentTick maxTicks
    rw [hcollect] at hstep
    cases hstep
    have hidle : ∀ k, w.readyTicks k = [] := fun k => h.ready k (by rw [hphase]; exact fun h => by cases h)
    have hnone : ∀ k, w.scheduledTicksThisTick k = none := fun k =>
      h.batch k fun index => by rw [hphase]; exact fun h => by cases h
    refine
      { sound :=
          { indexed := hindexed
            registered := (hspec.lifecycle chunk).trans h.registered
            homed := hspec.homed h.indexed hindexed h.homed
            ready := fun k hk => ?_
            batch := fun k _ => hnone k
            cursor := fun k index hk => by cases hk }
        before := hphase
        after := rfl
        moved := ?_
        queued := fun k hk => congrArg TickList.sites (hspec.otherKind chunk k hk)
        stage := rfl
        snapshot := rfl }
    · have hne : k ≠ kind := fun heq => hk (by rw [heq])
      exact (Function.update_of_ne hne _ _).trans (hidle k)
    · have hselected : TickWorld.unstarted
          { w with scheduler := scheduler, readyTicks := Function.update w.readyTicks kind batch.ticks,
                   phase := .collected kind } kind = batch.ticks := by
        unfold unstarted
        dsimp only
        rw [Function.update_self, hnone kind]
        exact List.append_nil _
      unfold TickWorld.queued TickWorld.selected chunkPos TickList.sites
      rw [hselected]
      dsimp only
      rw [hspec.pos chunk, hspec.ticks_in h.indexed h.homed, hspec.pending chunk,
        ← hspec.queue_split h.indexed hindexed h.registered, sites_append, add_left_comm]
  · rw [if_neg hphase] at hstep
    cases hstep

/-- The key of a tick that is added to the chunk's own queue. -/
def Adds (w : TickWorld T) (chunk : Nat) (kind : TickKind) (container : Nat) (tickType : T kind) (pos : BlockPos) : Prop :=
  container = chunk ∧ (pos, TickKey.key tickType) ∉ ((w.scheduler.containers container).lists kind).scheduled

instance (kind : TickKind) (container : Nat) (tickType : T kind) (pos : BlockPos) :
    Decidable (w.Adds chunk kind container tickType pos) := instDecidableAnd

/-- `schedule` adds at most one tick, to one queue. -/
structure Schedules (w w' : TickWorld T) (chunk : Nat) (kind : TickKind) (site : T kind × BlockPos)
    (adds : Prop) : Prop where
  sound : w'.Sound chunk
  added : adds → w'.queued chunk kind = site ::ₘ w.queued chunk kind
  queued : ∀ k, k ≠ kind ∨ ¬ adds → w'.queued chunk k = w.queued chunk k
  selected : ∀ k, w'.selected chunk k = w.selected chunk k
  phase : w'.phase = w.phase
  stage : w'.stage = w.stage
  snapshot : w'.snapshot = w.snapshot

theorem Sound.schedule (h : w.Sound chunk) {container : Nat} {tickType : T kind} {pos : BlockPos} {triggerTick : Int}
    {priority : TickPriority} {subTickOrder : Int}
    (hstep : w.schedule kind container tickType pos triggerTick priority subTickOrder = some w') :
    w.Schedules w' chunk kind (tickType, pos) (w.Adds chunk kind container tickType pos) := by
  unfold TickWorld.schedule at hstep
  split at hstep
  · rename_i hhome
    cases hstep
    have hcontainers := w.scheduler.schedule_containers kind container tickType pos triggerTick priority subTickOrder
    have hindexed := (h.indexed.schedule kind container tickType pos triggerTick priority subTickOrder).1
    have hhomed := WorldTickScheduler.Homed.schedule h.homed hhome tickType triggerTick priority subTickOrder
    dsimp only at hcontainers hindexed
    generalize (w.scheduler.schedule kind container tickType pos triggerTick priority subTickOrder).2 = scheduler at *
    rcases hcontainers with ⟨hrefused, hsame⟩ | ⟨hfresh, hset⟩
    · have hnot : ¬ w.Adds chunk kind container tickType pos := by
        rintro ⟨rfl, hfresh⟩
        rcases hrefused with hkey | hfinalized
        · exact hfresh hkey
        · rw [h.registered] at hfinalized
          cases hfinalized
      refine ⟨⟨hindexed, ?_, hhomed, h.ready, h.batch, h.cursor⟩, fun hadds => absurd hadds hnot, fun k _ => ?_,
        fun k => ?_, rfl, rfl, rfl⟩
      · rw [hsame]
        exact h.registered
      · unfold TickWorld.queued
        rw [hsame]
      · exact selected_congr (congrArg (fun containers => (containers chunk).pos) hsame) rfl
    · let list := (((w.scheduler.containers container).lists kind).schedule tickType pos triggerTick priority
        subTickOrder).1
      have hlist : list.pendingTicks = ((w.scheduler.containers container).lists kind).pendingTicks ∧
          list.queue.Perm (⟨tickType, pos, triggerTick, priority, subTickOrder⟩ ::
            ((w.scheduler.containers container).lists kind).queue) := TickList.schedule_queue hfresh
      have hself : ∀ k, (scheduler.containers container).lists k =
          Function.update (w.scheduler.containers container).lists kind list k := fun k => by
        rw [hset, WorldTickScheduler.setLists_self]
      have hother : ∀ id, id ≠ container → scheduler.containers id = w.scheduler.containers id := fun id hid => by
        rw [hset, WorldTickScheduler.setLists_other _ hid]
      have hpos : (scheduler.containers chunk).pos = (w.scheduler.containers chunk).pos := by
        rw [hset, WorldTickScheduler.setLists_pos]
      refine ⟨⟨hindexed, ?_, hhomed, h.ready, h.batch, h.cursor⟩, fun hadds => ?_, fun k hk => ?_,
        fun k => selected_congr hpos rfl, rfl, rfl, rfl⟩
      · rw [hset, WorldTickScheduler.setLists_lifecycle]
        exact h.registered
      · obtain ⟨rfl, -⟩ := hadds
        unfold TickWorld.queued TickList.sites
        dsimp only
        rw [hself, Function.update_self, hlist.1, sites_perm hlist.2, sites_cons, Multiset.add_cons]
      · unfold TickWorld.queued
        dsimp only
        by_cases hid : chunk = container
        · subst hid
          have hne : k ≠ kind := hk.resolve_right fun hnot => hnot ⟨rfl, hfresh⟩
          rw [hself, Function.update_of_ne hne]
        · rw [hother chunk hid]
  · cases hstep

end

end TickWorld

end Foton
