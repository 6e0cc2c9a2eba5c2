import Foton.Tick.Invariant
import Mathlib.Algebra.BigOperators.Group.List.Basic
import Mathlib.Algebra.Order.BigOperators.Group.List
import Mathlib.Algebra.Ring.Nat

/-!
# The batch of a tick

`begin_tick` and `collect_fluid_ticks` take, from the active chunks, as many due
ticks as the cap allows.
-/

namespace Foton

namespace WorldTickScheduler

variable {T : TickKind → Type} {w : WorldTickScheduler T} {kind : TickKind} {currentTick : Int} {maxTicks : Nat}
  {due : List ActiveTickContainer} {tagged : List (ChunkPos × ScheduledTick (T kind))} {c : Collection T kind}

/-- The collection `c` was made from the chunks `due` of `w`, and it is complete. -/
structure CollectedFrom (w : WorldTickScheduler T) (currentTick : Int) (maxTicks : Nat) (due : List ActiveTickContainer)
    (tagged : List (ChunkPos × ScheduledTick (T kind))) (c : Collection T kind) : Prop where
  selects : Selects currentTick maxTicks w.containers due [] tagged c
  dueContainers : DueContainers w.containers due
  active : ∀ a ∈ due, ∃ r, w.state.chunks.lookup a.pos = some r ∧
    r.activeRank w.state.activeGeneration = some a.rank ∧ a.container = r.container
  done : maxTicks ≤ c.ticks.length ∨ c.ready.toList = [] ∧ ∀ pos d, w.state.activeHead kind pos = some d →
    d ≤ currentTick → pos ∈ due.map ActiveTickContainer.pos

namespace Indexed

theorem collected (h : w.Indexed) (hfrom : w.CollectedFrom currentTick maxTicks due tagged c)
    {s : WorldTickSchedulerState} (hs : s.Sound)
    (hdue : ∀ a ∈ due, s.chunks.lookup a.pos =
      (w.state.chunks.lookup a.pos).map fun r => r.setHead kind (c.list a.container).head)
    (hother : ∀ p, p ∉ due.map ActiveTickContainer.pos → s.chunks.lookup p = w.state.chunks.lookup p) :
    (⟨c.containers, s⟩ : WorldTickScheduler T).Indexed where
  sound := hs
  registration p q hq := by
    dsimp only at hq
    by_cases hp : p ∈ due.map ActiveTickContainer.pos
    · obtain ⟨a, ha, rfl⟩ := List.mem_map.mp hp
      obtain ⟨r, hr, -, hcontainer⟩ := hfrom.active a ha
      rw [hdue a ha, hr, Option.map_some, Option.some.injEq] at hq
      subst hq
      have hold := h.registration a.pos r hr
      refine ⟨(hfrom.selects.pos _).trans hold.pos, (hfrom.selects.lifecycle _).trans hold.lifecycle, fun k => ?_⟩
      by_cases hk : k = kind
      · subst hk
        rw [RegisteredChunkTicks.setHead_self, hcontainer]
        rfl
      · rw [RegisteredChunkTicks.setHead_other hk, hold.heads]
        exact congrArg TickList.head (hfrom.selects.otherKind r.container k hk).symm
    · rw [hother p hp] at hq
      have hold := h.registration p q hq
      have hsame : c.containers q.container = w.containers q.container := by
        refine hfrom.selects.frame _ fun a ha heq => hp ?_
        rw [← hold.pos, ← heq, hfrom.dueContainers.pos a ha]
        exact List.mem_map_of_mem ha
      exact hold.transfer hsame rfl
  registered chunk hlifecycle := by
    dsimp only at hlifecycle ⊢
    rw [hfrom.selects.lifecycle] at hlifecycle
    rw [hfrom.selects.pos]
    obtain ⟨q, hq, hchunk⟩ := h.registered chunk hlifecycle
    by_cases hp : (w.containers chunk).pos ∈ due.map ActiveTickContainer.pos
    · obtain ⟨a, ha, hpos⟩ := List.mem_map.mp hp
      rw [← hpos] at hq ⊢
      rw [hdue a ha, hq]
      exact ⟨_, rfl, hchunk⟩
    · rw [hother _ hp]
      exact ⟨q, hq, hchunk⟩

theorem due_containers (h : w.Indexed) {s : WorldTickSchedulerState}
    (htakes : w.state.TakesDue s kind currentTick due) : DueContainers w.containers due := by
  refine ⟨htakes.nodup, fun a ha => ?_, fun a ha => ?_, fun a ha b hb hrank => ?_⟩
  · obtain ⟨r, hr, -, hcontainer, -⟩ := htakes.registered a ha
    rw [hcontainer]
    exact (h.registration a.pos r hr).pos
  · obtain ⟨r, hr, -, hcontainer, -⟩ := htakes.registered a ha
    rw [hcontainer]
    exact (h.registration a.pos r hr).lifecycle
  · obtain ⟨ra, hra, hranka, -⟩ := htakes.registered a ha
    obtain ⟨rb, hrb, hrankb, -⟩ := htakes.registered b hb
    refine h.sound.ranks a.pos b.pos a.rank ?_ ?_
    · unfold WorldTickSchedulerState.rankAt
      rw [hra]
      exact hranka
    · unfold WorldTickSchedulerState.rankAt
      rw [hrb, hrank]
      exact hrankb

/-- `collect_ticks` never fails, and it keeps the index. -/
theorem collectTicks [∀ kind, TickKey (T kind)] (h : w.Indexed) (kind : TickKind) (currentTick : Int) (maxTicks : Nat) :
    ∃ due tagged, ∃ c : Collection T kind, w.CollectedFrom currentTick maxTicks due tagged c ∧
      ∃ w', w.collectTicks kind currentTick maxTicks = (.ok ⟨c.ticks, c.changedContainers⟩, w') ∧ w'.Indexed ∧
        w'.containers = c.containers := by
  let start : Collection T kind := ⟨w.containers, .empty, [], [], []⟩
  have hstart : Selects currentTick maxTicks w.containers [] [] [] start :=
    Selects.Prepared.selects ⟨rfl, rfl, rfl, .rfl, fun r hr => (by cases hr), fun u hu => (by cases hu)⟩
  have hnone : DueContainers w.containers [] :=
    ⟨List.nodup_nil, fun a ha => (by cases ha), fun a ha => (by cases ha), fun a ha => (by cases ha)⟩
  unfold WorldTickScheduler.collectTicks
  by_cases hzero : maxTicks = 0
  · rw [if_pos hzero]
    refine ⟨[], [], start, ⟨hstart, hnone, fun a ha => (by cases ha), Or.inl ?_⟩, w, rfl, h, rfl⟩
    rw [hzero]
    exact Nat.zero_le _
  · rw [if_neg hzero]
    obtain ⟨due, s, htake, hs, htakes⟩ := WorldTickSchedulerState.takeDue_ok h.sound kind currentTick
    rw [htake]
    dsimp only
    by_cases hempty : due = []
    · rw [if_pos hempty]
      subst hempty
      have hfrom : w.CollectedFrom currentTick maxTicks [] [] start :=
        ⟨hstart, hnone, fun a ha => (by cases ha), Or.inr ⟨rfl, htakes.complete⟩⟩
      refine ⟨[], [], start, hfrom, _, rfl, h.collected hfrom hs (fun a ha => by cases ha) fun p hp => ?_, rfl⟩
      rw [htakes.lookup]
      cases w.state.chunks.lookup p with
      | none => rfl
      | some r => rw [Option.map_some, if_neg hp]
    · rw [if_neg hempty]
      have hdue := h.due_containers htakes
      obtain ⟨c, tagged, hcollect, hselects, hdone⟩ := collectRegisteredTicks_ok kind hdue currentTick maxTicks
      rw [hcollect]
      dsimp only
      obtain ⟨hperm, hupdates⟩ := hselects.finish
      have hregistered : ∀ u ∈ c.finish, (s.chunks.lookup u.pos).isSome := by
        intro u hu
        obtain ⟨a, ha, hpos, -⟩ := hupdates u hu
        obtain ⟨r, hr, -⟩ := htakes.registered a ha
        rw [hpos, htakes.lookup, hr]
        rfl
      obtain ⟨s', hset, hs', -, hupdated, hother⟩ := WorldTickSchedulerState.setHeads_ok kind c.finish hs hregistered
        (hperm.nodup_iff.mpr hdue.nodup)
      rw [hset]
      have hfrom : w.CollectedFrom currentTick maxTicks due tagged c := by
        refine ⟨hselects, hdue, fun a ha => ?_, hdone.imp_right fun hready => ⟨hready, htakes.complete⟩⟩
        obtain ⟨r, hr, hrank, hcontainer, -⟩ := htakes.registered a ha
        exact ⟨r, hr, hrank, hcontainer⟩
      refine ⟨due, tagged, c, hfrom, _, rfl, h.collected hfrom hs' (fun a ha => ?_) fun p hp => ?_, rfl⟩
      · have hmem : a.pos ∈ c.finish.map TickHeadUpdate.pos := hperm.mem_iff.mpr (List.mem_map_of_mem ha)
        obtain ⟨u, hu, hpos⟩ := List.mem_map.mp hmem
        obtain ⟨b, hb, hpos', hhead⟩ := hupdates u hu
        have hab : b = a := hdue.eq_of_pos hb ha (hpos'.symm.trans hpos)
        subst hab
        obtain ⟨r, hr, -⟩ := htakes.registered b hb
        rw [← hpos', hupdated u hu, hpos', htakes.lookup, hr, hhead, Option.map_some, Option.map_some, Option.map_some,
          if_pos (List.mem_map_of_mem ha)]
        unfold RegisteredChunkTicks.setHead
        rw [Function.update_idem]
      · rw [hother p fun hmem => hp (hperm.mem_iff.mp hmem), htakes.lookup]
        cases w.state.chunks.lookup p with
        | none => rfl
        | some r => rw [Option.map_some, if_neg hp]

end Indexed

/-! ## What a batch is -/

/-- The live ticks of the chunk registered at `pos`, in drain order. -/
def queueAt (w : WorldTickScheduler T) (kind : TickKind) (pos : ChunkPos) : List (ScheduledTick (T kind)) :=
  match w.state.chunks.lookup pos with
  | some r => ((w.containers r.container).lists kind).queue
  | none => []

def activePositions (w : WorldTickScheduler T) : List ChunkPos :=
  w.state.chunks.keys.filter fun pos => (w.state.rankAt pos).isSome

/-- The due ticks of the chunk registered at `pos`. -/
def dueAt (w : WorldTickScheduler T) (kind : TickKind) (currentTick : Int) (pos : ChunkPos) :
    List (ScheduledTick (T kind)) :=
  (w.queueAt kind pos).filter fun tick => tick.triggerTick ≤ currentTick

/-- The number of due ticks in active chunks. -/
def dueCount (w : WorldTickScheduler T) (kind : TickKind) (currentTick : Int) : Nat :=
  (w.activePositions.map fun pos => (w.dueAt kind currentTick pos).length).sum

/-- `batch`, whose ticks come from the chunks that `tagged` names, is taken from `w` and leaves `w'`. -/
structure BatchSpec (w w' : WorldTickScheduler T) (kind : TickKind) (currentTick : Int) (maxTicks : Nat)
    (batch : ScheduledTickBatch (T kind)) (tagged : List (ChunkPos × ScheduledTick (T kind))) : Prop where
  ticks : batch.ticks = tagged.map Prod.snd
  active : ∀ e ∈ tagged, (w.state.rankAt e.1).isSome ∧ e.2.triggerTick ≤ currentTick
  split : ∀ pos, takenFrom tagged pos ++ w'.queueAt kind pos = w.queueAt kind pos
  conserved : (batch.ticks ++ w.state.chunks.keys.flatMap (w'.queueAt kind)).Perm
    (w.state.chunks.keys.flatMap (w.queueAt kind))
  inactive : ∀ chunk, (∀ pos r, w.state.chunks.lookup pos = some r → r.container = chunk → w.state.rankAt pos = none) →
    w'.containers chunk = w.containers chunk
  otherKind : ∀ chunk k, k ≠ kind → (w'.containers chunk).lists k = (w.containers chunk).lists k
  pending : ∀ chunk, ((w'.containers chunk).lists kind).pendingTicks = ((w.containers chunk).lists kind).pendingTicks
  pos : ∀ chunk, (w'.containers chunk).pos = (w.containers chunk).pos
  lifecycle : ∀ chunk, (w'.containers chunk).lifecycle = (w.containers chunk).lifecycle
  length : batch.ticks.length = min maxTicks (w.dueCount kind currentTick)
  changedNodup : batch.changedContainers.Nodup
  changed : ∀ rank, rank ∈ batch.changedContainers ↔ ∃ pos, w.state.rankAt pos = some rank ∧ takenFrom tagged pos ≠ []

theorem takenFrom_perm {α : Type} {positions : List ChunkPos} (hnodup : positions.Nodup)
    {tagged : List (ChunkPos × ScheduledTick α)} (hall : ∀ e ∈ tagged, e.1 ∈ positions) :
    (positions.flatMap (takenFrom tagged)).Perm (tagged.map Prod.snd) := by
  induction positions generalizing tagged with
  | nil =>
    cases tagged with
    | nil => exact .rfl
    | cons e _ => cases hall e List.mem_cons_self
  | cons p rest ih =>
    rw [List.nodup_cons] at hnodup
    have hall' : ∀ e ∈ tagged.filter fun e => !decide (e.1 = p), e.1 ∈ rest := by
      intro e he
      obtain ⟨he, hne⟩ := List.mem_filter.mp he
      rw [Bool.not_eq_true', decide_eq_false_iff_not] at hne
      exact (List.mem_cons.mp (hall e he)).resolve_left hne
    have hrest := ih hnodup.2 hall'
    have hsame : rest.flatMap (takenFrom (tagged.filter fun e => !decide (e.1 = p))) = rest.flatMap (takenFrom tagged) := by
      refine List.flatMap_congr fun q hq => ?_
      unfold takenFrom
      rw [List.filter_filter]
      refine congrArg (List.map Prod.snd) (List.filter_congr fun e _ => ?_)
      by_cases hq' : e.1 = q
      · have hne : q ≠ p := fun heq => hnodup.1 (heq ▸ hq)
        simp [hq', hne]
      · simp [hq']
    rw [List.flatMap_cons, ← hsame]
    refine (hrest.append_left _).trans ?_
    unfold takenFrom
    rw [← List.map_append]
    exact (List.filter_append_perm _ tagged).map Prod.snd

/-- What was taken from a chunk was due, so its due ticks are those and the ones that are left. -/
theorem due_split {α : Type} {taken queue queue' : List (ScheduledTick α)} (hsplit : taken ++ queue' = queue)
    (htimely : ∀ t ∈ taken, t.triggerTick ≤ currentTick) :
    (queue.filter fun t => t.triggerTick ≤ currentTick).length =
      taken.length + (queue'.filter fun t => t.triggerTick ≤ currentTick).length := by
  rw [← hsplit, List.filter_append, List.length_append,
    List.filter_eq_self.mpr fun t ht => decide_eq_true (htimely t ht)]

theorem container_at {w' : WorldTickScheduler T} (h : w.Indexed) (h' : w'.Indexed)
    (hpos : ∀ id, (w'.containers id).pos = (w.containers id).pos)
    (hlifecycle : ∀ id, (w'.containers id).lifecycle = (w.containers id).lifecycle) (p : ChunkPos) :
    (w'.state.chunks.lookup p).map RegisteredChunkTicks.container =
      (w.state.chunks.lookup p).map RegisteredChunkTicks.container := by
  have hforward : ∀ {v v' : WorldTickScheduler T}, v.Indexed → v'.Indexed →
      (∀ id, (v'.containers id).pos = (v.containers id).pos) →
      (∀ id, (v'.containers id).lifecycle = (v.containers id).lifecycle) → ∀ r, v.state.chunks.lookup p = some r →
      (v'.state.chunks.lookup p).map RegisteredChunkTicks.container = some r.container := by
    intro v v' hv hv' hp hl r hr
    have hold := hv.registration p r hr
    obtain ⟨r', hr', hcontainer⟩ := hv'.registered r.container (by rw [hl, hold.lifecycle])
    rw [hp, hold.pos] at hr'
    rw [hr', Option.map_some, hcontainer]
  cases hr : w.state.chunks.lookup p with
  | some r => exact hforward h h' hpos hlifecycle r hr
  | none =>
    cases hr' : w'.state.chunks.lookup p with
    | none => rfl
    | some r' =>
      have hback := hforward h' h (fun id => (hpos id).symm) (fun id => (hlifecycle id).symm) r' hr'
      rw [hr] at hback
      cases hback

namespace CollectedFrom

variable {w' : WorldTickScheduler T}

theorem taken_nil (hfrom : w.CollectedFrom currentTick maxTicks due tagged c) {pos : ChunkPos}
    (hpos : pos ∉ due.map ActiveTickContainer.pos) : takenFrom tagged pos = [] := by
  unfold takenFrom
  rw [List.filter_eq_nil_iff.mpr, List.map_nil]
  intro e he heq
  exact hpos (of_decide_eq_true heq ▸ hfrom.selects.tags e he)

theorem queueAt_eq (hfrom : w.CollectedFrom currentTick maxTicks due tagged c) (h : w.Indexed) (h' : w'.Indexed)
    (hcontainers : w'.containers = c.containers) {pos : ChunkPos} {r : RegisteredChunkTicks}
    (hr : w.state.chunks.lookup pos = some r) : w'.queueAt kind pos = (c.list r.container).queue := by
  have hsame := container_at h h' (fun id => by rw [hcontainers, hfrom.selects.pos])
    (fun id => by rw [hcontainers, hfrom.selects.lifecycle]) pos
  rw [hr, Option.map_some] at hsame
  obtain ⟨r', hr', hcontainer⟩ := Option.map_eq_some_iff.mp hsame
  unfold queueAt
  rw [hr']
  dsimp only
  rw [hcontainer, hcontainers]
  rfl

theorem split (hfrom : w.CollectedFrom currentTick maxTicks due tagged c) (h : w.Indexed) (h' : w'.Indexed)
    (hcontainers : w'.containers = c.containers) (pos : ChunkPos) :
    takenFrom tagged pos ++ w'.queueAt kind pos = w.queueAt kind pos := by
  cases hr : w.state.chunks.lookup pos with
  | none =>
    have hnot : pos ∉ due.map ActiveTickContainer.pos := by
      intro hmem
      obtain ⟨a, ha, rfl⟩ := List.mem_map.mp hmem
      obtain ⟨r, hr', -⟩ := hfrom.active a ha
      rw [hr] at hr'
      cases hr'
    have hsame := container_at h h' (fun id => by rw [hcontainers, hfrom.selects.pos])
      (fun id => by rw [hcontainers, hfrom.selects.lifecycle]) pos
    rw [hr, Option.map_none, Option.map_eq_none_iff] at hsame
    unfold queueAt
    rw [hfrom.taken_nil hnot, hr, hsame]
    rfl
  | some r =>
    rw [hfrom.queueAt_eq h h' hcontainers hr]
    unfold queueAt
    rw [hr]
    dsimp only
    by_cases hpos : pos ∈ due.map ActiveTickContainer.pos
    · obtain ⟨a, ha, rfl⟩ := List.mem_map.mp hpos
      obtain ⟨r', hr', -, hcontainer⟩ := hfrom.active a ha
      rw [hr] at hr'
      cases hr'
      rw [← hcontainer]
      exact hfrom.selects.split a ha
    · rw [hfrom.taken_nil hpos, List.nil_append]
      have hsame := hfrom.selects.frame r.container fun a ha heq => hpos ?_
      · unfold Collection.list
        rw [hsame]
      · rw [← (h.registration pos r hr).pos, ← heq, hfrom.dueContainers.pos a ha]
        exact List.mem_map_of_mem ha

theorem drained (hfrom : w.CollectedFrom currentTick maxTicks due tagged c) (h : w.Indexed) (h' : w'.Indexed)
    (hcontainers : w'.containers = c.containers) {pos : ChunkPos} (hactive : (w.state.rankAt pos).isSome) :
    maxTicks ≤ c.ticks.length ∨ w'.dueAt kind currentTick pos = [] := by
  rcases hfrom.done with hmax | ⟨hready, hcomplete⟩
  · exact Or.inl hmax
  · cases hr : w.state.chunks.lookup pos with
    | none =>
      unfold WorldTickSchedulerState.rankAt at hactive
      rw [hr] at hactive
      cases hactive
    | some r =>
      have hqueue := hfrom.queueAt_eq h h' hcontainers hr
      have hnil : (c.list r.container).peekReady currentTick = none → w'.dueAt kind currentTick pos = [] := by
        intro hnone
        unfold dueAt
        rw [hqueue]
        exact TickList.due_eq_nil hnone
      by_cases hpos : pos ∈ due.map ActiveTickContainer.pos
      · obtain ⟨a, ha, rfl⟩ := List.mem_map.mp hpos
        obtain ⟨r', hr', -, hcontainer⟩ := hfrom.active a ha
        rw [hr] at hr'
        cases hr'
        have hmem := hfrom.selects.partition.mem_iff.mpr hpos
        rw [hready, List.nil_append, List.map_nil, List.nil_append] at hmem
        obtain ⟨u, hu, hupos⟩ := List.mem_map.mp hmem
        obtain ⟨b, hb, hbpos, -, hdone⟩ := hfrom.selects.updates u hu
        have hab : b = a := hfrom.dueContainers.eq_of_pos hb ha (hbpos.symm.trans hupos)
        rw [hab, hcontainer] at hdone
        exact hdone.symm.imp_right hnil
      · refine Or.inr ?_
        have hsplit := hfrom.split h h' hcontainers pos
        rw [hfrom.taken_nil hpos, List.nil_append] at hsplit
        cases hready : (c.list r.container).peekReady currentTick with
        | none => exact hnil hready
        | some tick =>
          obtain ⟨hhead, htick⟩ := TickList.peekReady_eq_some.mp hready
          rw [← hqueue, hsplit] at hhead
          refine absurd (hcomplete pos tick.triggerTick ?_ htick) hpos
          unfold WorldTickSchedulerState.rankAt at hactive
          rw [hr, Option.bind_some] at hactive
          rw [WorldTickSchedulerState.activeHead_of_lookup kind hr, if_pos hactive, (h.registration pos r hr).heads]
          unfold queueAt at hhead
          rw [hr] at hhead
          exact TickList.head_eq_some.mpr ⟨tick, hhead, rfl⟩

theorem spec (hfrom : w.CollectedFrom currentTick maxTicks due tagged c) (h : w.Indexed) (h' : w'.Indexed)
    (hcontainers : w'.containers = c.containers) :
    BatchSpec w w' kind currentTick maxTicks ⟨c.ticks, c.changedContainers⟩ tagged := by
  have hrank : ∀ a ∈ due, w.state.rankAt a.pos = some a.rank := by
    intro a ha
    obtain ⟨r, hr, hrank, -⟩ := hfrom.active a ha
    unfold WorldTickSchedulerState.rankAt
    rw [hr]
    exact hrank
  have hactive : ∀ e ∈ tagged, (w.state.rankAt e.1).isSome := by
    intro e he
    obtain ⟨a, ha, hpos⟩ := List.mem_map.mp (hfrom.selects.tags e he)
    rw [← hpos, hrank a ha]
    rfl
  have hkeys : ∀ pos, (w.state.rankAt pos).isSome → pos ∈ w.state.chunks.keys := by
    intro pos hpos
    unfold WorldTickSchedulerState.rankAt at hpos
    cases hr : w.state.chunks.lookup pos with
    | none => rw [hr] at hpos; cases hpos
    | some r =>
      rw [← AList.mem_keys, ← AList.lookup_isSome, hr]
      rfl
  have hpositions : ∀ e ∈ tagged, e.1 ∈ w.activePositions := fun e he =>
    List.mem_filter.mpr ⟨hkeys _ (hactive e he), hactive e he⟩
  have hnodup : w.activePositions.Nodup := w.state.chunks.keys_nodup.filter _
  have htaken : ∀ pos, takenFrom tagged pos ≠ [] ↔ pos ∈ tagged.map Prod.fst := by
    intro pos
    unfold takenFrom
    rw [ne_eq, List.map_eq_nil_iff, List.filter_eq_nil_iff, List.mem_map]
    push Not
    simp only [decide_eq_true_eq]
  have hcount : c.ticks.length + (w.activePositions.map fun pos => (w'.dueAt kind currentTick pos).length).sum =
      w.dueCount kind currentTick := by
    have hdue : ∀ pos, (w.dueAt kind currentTick pos).length =
        (takenFrom tagged pos).length + (w'.dueAt kind currentTick pos).length := by
      intro pos
      refine due_split (hfrom.split h h' hcontainers pos) fun t ht => ?_
      obtain ⟨e, he, rfl⟩ := List.mem_map.mp ht
      exact hfrom.selects.timely e (List.mem_of_mem_filter he)
    have htotal := (takenFrom_perm hnodup hpositions).length_eq
    rw [List.length_flatMap, List.length_map] at htotal
    unfold dueCount
    rw [List.map_congr_left fun pos _ => hdue pos, List.sum_map_add, htotal, hfrom.selects.ticks, List.length_map]
  refine
    { ticks := hfrom.selects.ticks
      active := fun e he => ⟨hactive e he, hfrom.selects.timely e he⟩
      split := hfrom.split h h' hcontainers
      conserved := ?_
      inactive := fun chunk hchunk => ?_
      otherKind := fun chunk k hk => ?_
      pending := fun chunk => by rw [hcontainers]; exact hfrom.selects.pending chunk
      pos := fun chunk => by rw [hcontainers, hfrom.selects.pos]
      lifecycle := fun chunk => by rw [hcontainers, hfrom.selects.lifecycle]
      length := ?_
      changedNodup := hfrom.selects.changedNodup
      changed := fun rank => ?_ }
  · have hall := takenFrom_perm w.state.chunks.keys_nodup fun e he => hkeys _ (hactive e he)
    rw [hfrom.selects.ticks]
    refine (hall.symm.append_right _).trans ((List.flatMap_append_perm _ _ _).trans ?_)
    rw [List.flatMap_congr fun pos _ => hfrom.split h h' hcontainers pos]
  · rw [hcontainers]
    refine hfrom.selects.frame chunk fun a ha heq => ?_
    obtain ⟨r, hr, -, hcontainer⟩ := hfrom.active a ha
    have hnone := hchunk a.pos r hr (hcontainer.symm.trans heq)
    rw [hrank a ha] at hnone
    cases hnone
  · rw [hcontainers]
    exact hfrom.selects.otherKind chunk k hk
  · show c.ticks.length = _
    have hcap := hfrom.selects.cap
    by_cases hmax : maxTicks ≤ c.ticks.length
    · omega
    · have hzero : (w.activePositions.map fun pos => (w'.dueAt kind currentTick pos).length).sum = 0 := by
        rw [List.sum_eq_zero]
        intro n hn
        obtain ⟨pos, hpos, rfl⟩ := List.mem_map.mp hn
        rw [(hfrom.drained h h' hcontainers (List.mem_filter.mp hpos).2).resolve_left hmax]
        rfl
      omega
  · rw [hfrom.selects.changed]
    constructor
    · intro ⟨a, ha, har, htag⟩
      exact ⟨a.pos, by rw [hrank a ha, har], (htaken a.pos).mpr htag⟩
    · intro ⟨pos, hpos, htag⟩
      rw [htaken] at htag
      obtain ⟨e, he, rfl⟩ := List.mem_map.mp htag
      obtain ⟨a, ha, heq⟩ := List.mem_map.mp (hfrom.selects.tags e he)
      rw [← heq, hrank a ha, Option.some.injEq] at hpos
      exact ⟨a, ha, hpos, heq ▸ htag⟩

end CollectedFrom

theorem Indexed.batch [∀ kind, TickKey (T kind)] (h : w.Indexed) (kind : TickKind) (currentTick : Int)
    (maxTicks : Nat) : ∃ batch w' tagged, w.collectTicks kind currentTick maxTicks = (.ok batch, w') ∧ w'.Indexed ∧
      BatchSpec w w' kind currentTick maxTicks batch tagged := by
  obtain ⟨due, tagged, c, hfrom, w', hcollect, h', hcontainers⟩ := h.collectTicks kind currentTick maxTicks
  exact ⟨_, w', tagged, hcollect, h', hfrom.spec h h' hcontainers⟩

/-- **A tick's selection** loses nothing, doubles nothing and reorders nothing within a chunk. -/
theorem collected_batch [∀ kind, TickKey (T kind)] (h : w.Indexed) (currentTick : Int) (maxTicks : Nat) :
    (∃ batch w' tagged, w.beginTick currentTick maxTicks = (.ok batch, w') ∧
        BatchSpec w w' .block currentTick maxTicks batch tagged) ∧
      ∃ batch w' tagged, w.collectFluidTicks currentTick maxTicks = (.ok batch, w') ∧
        BatchSpec w w' .fluid currentTick maxTicks batch tagged := by
  obtain ⟨block, w₁, tagged₁, hblock, -, hspec₁⟩ := h.batch .block currentTick maxTicks
  obtain ⟨fluid, w₂, tagged₂, hfluid, -, hspec₂⟩ := h.batch .fluid currentTick maxTicks
  exact ⟨⟨block, w₁, tagged₁, hblock, hspec₁⟩, ⟨fluid, w₂, tagged₂, hfluid, hspec₂⟩⟩

instance : TickKey Unit := ⟨fun _ => 0⟩

/-- One active chunk with one block tick. -/
def sampleScheduler : WorldTickScheduler fun _ => Unit :=
  let fresh : WorldTickScheduler fun _ => Unit := ⟨fun _ => ⟨⟨0, 0⟩, .prePublication, fun _ => .new⟩, .new⟩
  let active := ((fresh.registerChunk 0).2.reconcileActiveChunks [⟨0, 0⟩]).2
  (active.scheduleBlock 0 () ⟨0, 0, 0⟩ 3 .normal 0).2

theorem sampleScheduler_indexed : sampleScheduler.Indexed := by
  have hfresh := Indexed.fresh (w := ⟨fun _ => ⟨⟨0, 0⟩, .prePublication, fun _ => .new⟩, .new⟩) (T := fun _ => Unit) rfl
    fun _ h => by cases h
  have hactive := (hfresh.registerChunk 0).1.reconcileActiveChunks (List.nodup_singleton ⟨0, 0⟩)
  exact (hactive.1.schedule .block 0 () ⟨0, 0, 0⟩ 3 .normal 0).1

theorem sample_batch : ∃ batch w' tagged, sampleScheduler.beginTick 5 10 = (.ok batch, w') ∧
    BatchSpec sampleScheduler w' .block 5 10 batch tagged := (collected_batch sampleScheduler_indexed 5 10).1

end WorldTickScheduler

/-!
## Every sequence of scheduler operations

-/

variable {T : TickKind → Type} {w : WorldTickScheduler T}

namespace SchedulerOp

/-- A reconciliation names each chunk once. -/
def Distinct : SchedulerOp T → Prop
  | reconcileActiveChunks activeChunks => activeChunks.Nodup
  | _ => True

/-- The chunks that the operation is about are registered, or can be where it registers one. -/
def Registered (w : WorldTickScheduler T) : SchedulerOp T → Prop
  | registerChunk chunk =>
    (w.containers chunk).lifecycle = .prePublication ∧ w.state.chunks.lookup (w.containers chunk).pos = none
  | unpackChunk pos _ => (w.state.chunks.lookup pos).isSome
  | reconcileActiveChunks activeChunks => ∀ pos ∈ activeChunks, (w.state.chunks.lookup pos).isSome
  | scheduleBlock chunk .. => (w.containers chunk).lifecycle = .registered
  | scheduleFluid chunk .. => (w.containers chunk).lifecycle = .registered
  | unregisterChunk _ => True
  | beginTick .. => True
  | collectFluidTicks .. => True

end SchedulerOp

namespace WorldTickScheduler

/-- What holds of the failure of an operation on a sound index. -/
def Harmless (registered : Prop) (failure : Option SchedulerFailure) : Prop :=
  (∀ message, failure ≠ some (.panicked message)) ∧ (registered → failure = none)

theorem Harmless.of_none {registered : Prop} {failure : Option SchedulerFailure} (h : failure = none) :
    Harmless registered failure := by
  refine ⟨fun message hmessage => ?_, fun _ => h⟩
  rw [h] at hmessage
  cases hmessage

theorem Harmless.of_error {registered : Prop} {failure : Option SchedulerFailure} {e : TickSchedulerError}
    (h : failure = some (.error e)) (hnot : ¬ registered) : Harmless registered failure := by
  refine ⟨fun message hmessage => ?_, fun hyes => absurd hyes hnot⟩
  rw [h] at hmessage
  cases hmessage

variable [∀ kind, TickKey (T kind)]

theorem Indexed.exec_schedule (h : w.Indexed) (kind : TickKind) (chunk : Nat) (tickType : T kind) (pos : BlockPos)
    (triggerTick : Int) (priority : TickPriority) (subTickOrder : Int) :
    let result := w.schedule kind chunk tickType pos triggerTick priority subTickOrder
    result.2.Indexed ∧ Harmless ((w.containers chunk).lifecycle = .registered) (outcome result.1) := by
  obtain ⟨hindexed, hpanic, hok⟩ := h.schedule kind chunk tickType pos triggerTick priority subTickOrder
  refine ⟨hindexed, fun message hmessage => ?_, fun hregistered => ?_⟩
  · cases hfailure : (w.schedule kind chunk tickType pos triggerTick priority subTickOrder).1 with
    | ok added => rw [hfailure] at hmessage; cases hmessage
    | error e =>
      rw [hfailure] at hmessage
      cases hmessage
      exact hpanic message hfailure
  · obtain ⟨added, hadded⟩ := hok hregistered
    rw [hadded]
    rfl

theorem Indexed.exec_collect (h : w.Indexed) (kind : TickKind) (currentTick : Int) (maxTicks : Nat) :
    let result := w.collectTicks kind currentTick maxTicks
    result.2.Indexed ∧ outcome result.1 = none := by
  obtain ⟨_, _, _, _, w', hcollect, h', _⟩ := h.collectTicks kind currentTick maxTicks
  rw [hcollect]
  exact ⟨h', rfl⟩

theorem Indexed.exec (h : w.Indexed) {op : SchedulerOp T} (hdistinct : op.Distinct) :
    (w.exec op).2.Indexed ∧ Harmless (op.Registered w) (w.exec op).1 := by
  cases op with
  | registerChunk chunk =>
    obtain ⟨hindexed, hresult, hfree⟩ := h.registerChunk chunk
    refine ⟨hindexed, ?_⟩
    rcases hresult with herror | hok
    · refine .of_error (congrArg outcome herror) fun ⟨hlifecycle, hnone⟩ => ?_
      rw [hfree hlifecycle hnone] at herror
      cases herror
    · exact .of_none (congrArg outcome hok)
  | unpackChunk pos currentTick =>
    obtain ⟨hindexed, hok | ⟨hnone, herror⟩⟩ := h.unpackChunk pos currentTick
    · exact ⟨hindexed, .of_none (congrArg outcome hok)⟩
    · refine ⟨hindexed, .of_error (congrArg outcome herror) fun hsome => ?_⟩
      have hsome' : (w.state.chunks.lookup pos).isSome = true := hsome
      rw [hnone] at hsome'
      cases hsome'
  | unregisterChunk pos =>
    obtain ⟨hindexed, hok⟩ := h.unregisterChunk pos
    exact ⟨hindexed, .of_none (congrArg outcome hok)⟩
  | reconcileActiveChunks activeChunks =>
    obtain ⟨hindexed, hok | ⟨pos, hpos, hnone, herror⟩⟩ := h.reconcileActiveChunks hdistinct
    · exact ⟨hindexed, .of_none (congrArg outcome hok)⟩
    · refine ⟨hindexed, .of_error (congrArg outcome herror) fun hall => ?_⟩
      have hsome : (w.state.chunks.lookup pos).isSome = true := hall pos hpos
      rw [hnone] at hsome
      cases hsome
  | scheduleBlock chunk block pos triggerTick priority subTickOrder =>
    exact h.exec_schedule .block chunk block pos triggerTick priority subTickOrder
  | scheduleFluid chunk fluid pos triggerTick priority subTickOrder =>
    exact h.exec_schedule .fluid chunk fluid pos triggerTick priority subTickOrder
  | beginTick currentTick maxTicks =>
    obtain ⟨hindexed, hok⟩ := h.exec_collect .block currentTick maxTicks
    exact ⟨hindexed, .of_none hok⟩
  | collectFluidTicks currentTick maxTicks =>
    obtain ⟨hindexed, hok⟩ := h.exec_collect .fluid currentTick maxTicks
    exact ⟨hindexed, .of_none hok⟩

theorem Indexed.run {ops : List (SchedulerOp T)} (h : w.Indexed) (hdistinct : ∀ op ∈ ops, op.Distinct) :
    (ops.foldl (fun w op => (w.exec op).2) w).Indexed := by
  induction ops generalizing w with
  | nil => exact h
  | cons op rest ih =>
    exact ih (h.exec (hdistinct op List.mem_cons_self)).1 fun op' hop' => hdistinct op' (List.mem_cons_of_mem _ hop')

/-- **The deadline index** agrees with the queues after every sequence of operations, and then no
operation panics or misses the container of a registered chunk. -/
theorem index_exact {w₀ : WorldTickScheduler T} (hstate : w₀.state = .new)
    (hnone : ∀ chunk, (w₀.containers chunk).lifecycle ≠ .registered) {ops : List (SchedulerOp T)}
    (hdistinct : ∀ op ∈ ops, op.Distinct) :
    let w := ops.foldl (fun w op => (w.exec op).2) w₀
    (∀ pos r, w.state.chunks.lookup pos = some r → w.Registration pos r) ∧
      (∀ kind, Indexes (w.state.activeDeadlines kind) (w.state.activeHead kind)) ∧
      ∀ op : SchedulerOp T, op.Distinct → Harmless (op.Registered w) (w.exec op).1 := by
  intro w
  have h : w.Indexed := (Indexed.fresh hstate hnone).run hdistinct
  exact ⟨h.registration, h.sound.indexes, fun op hop => (h.exec hop).2⟩

theorem sample_index_exact :
    let fresh : WorldTickScheduler fun _ => Unit := ⟨fun _ => ⟨⟨0, 0⟩, .prePublication, fun _ => .new⟩, .new⟩
    let ops : List (SchedulerOp fun _ => Unit) :=
      [.registerChunk 0, .reconcileActiveChunks [⟨0, 0⟩], .scheduleBlock 0 () ⟨0, 0, 0⟩ 3 .normal 0, .beginTick 5 10]
    let w := ops.foldl (fun w op => (w.exec op).2) fresh
    (∀ pos r, w.state.chunks.lookup pos = some r → w.Registration pos r) ∧
      (∀ kind, Indexes (w.state.activeDeadlines kind) (w.state.activeHead kind)) ∧
      ∀ op : SchedulerOp fun _ => Unit, op.Distinct → Harmless (op.Registered w) (w.exec op).1 := by
  refine index_exact rfl (fun _ h => by cases h) fun op hop => ?_
  simp only [List.mem_cons, List.not_mem_nil, or_false] at hop
  rcases hop with rfl | rfl | rfl | rfl
  · trivial
  · exact List.nodup_singleton _
  · trivial
  · trivial

end WorldTickScheduler

end Foton
