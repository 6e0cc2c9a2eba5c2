import Foton.Tick.Index

/-!
# What the selection loop takes

Each chunk gives up a prefix of its queue. The batch is an interleaving of these
prefixes, given here by the ticks taken together with the chunk of each.
-/

namespace Foton

variable {T : TickKind → Type} {kind : TickKind}

/-- The ticks of `tagged` from the chunk at `pos`. -/
def takenFrom {α : Type} (tagged : List (ChunkPos × ScheduledTick α)) (pos : ChunkPos) : List (ScheduledTick α) :=
  (tagged.filter fun e => e.1 = pos).map Prod.snd

section
variable {α : Type}

theorem takenFrom_append (tagged : List (ChunkPos × ScheduledTick α)) (pos pos' : ChunkPos)
    (ticks : List (ScheduledTick α)) :
    takenFrom (tagged ++ ticks.map fun t => (pos, t)) pos' = takenFrom tagged pos' ++ if pos = pos' then ticks else [] := by
  unfold takenFrom
  by_cases h : pos = pos'
  · simp [List.filter_map, Function.comp_def, h]
  · simp [List.filter_map, Function.comp_def, h]

end

/-- `ticks`, taken off the front of the queue of `list`, leave `list'`. -/
structure Drains (currentTick : Int) (room : Nat) (list list' : TickList (T kind)) (ticks : List (ScheduledTick (T kind))) :
    Prop where
  queue : list.queue = ticks ++ list'.queue
  timely : ∀ t ∈ ticks, t.triggerTick ≤ currentTick
  room : ticks.length ≤ room
  pending : list'.pendingTicks = list.pendingTicks

theorem Drains.nothing (currentTick : Int) (room : Nat) (list : TickList (T kind)) : Drains currentTick room list list [] :=
  ⟨rfl, fun t ht => (by cases ht), Nat.zero_le _, rfl⟩

theorem drain_spec [∀ kind, TickKey (T kind)] (competitor : Option (TickPriority ×ₗ Int)) (currentTick : Int) (room : Nat) (list : TickList (T kind)) :
    Drains currentTick room list (Collection.drain competitor currentTick room list).2
      (Collection.drain competitor currentTick room list).1 := by
  induction room generalizing list with
  | zero => exact .nothing currentTick 0 list
  | succ room ih =>
    unfold Collection.drain
    cases hready : list.peekReady currentTick with
    | none => exact .nothing currentTick _ list
    | some nextTick =>
      dsimp only
      by_cases hlate : (competitor.any fun order => order < nextTick.intraOrder) = true
      · rw [if_pos hlate]
        exact .nothing currentTick _ list
      · rw [if_neg hlate]
        obtain ⟨list', hpop⟩ := TickList.popReady_isSome hready
        rw [hpop]
        obtain ⟨hqueue, hdue, hpending⟩ := TickList.popReady_eq_some hpop
        obtain ⟨hrest, htimely, hroom, hpending'⟩ := ih list'
        refine ⟨?_, fun t ht => ?_, Nat.succ_le_succ hroom, hpending'.trans hpending⟩
        · rw [hqueue, hrest]
          rfl
        · rcases List.mem_cons.mp ht with rfl | ht
          · exact hdue
          · exact htimely t ht

/-- The containers of the due chunks. -/
structure DueContainers (containers : Nat → ChunkTickContainer T) (due : List ActiveTickContainer) : Prop where
  nodup : (due.map ActiveTickContainer.pos).Nodup
  pos : ∀ a ∈ due, (containers a.container).pos = a.pos
  lifecycle : ∀ a ∈ due, (containers a.container).lifecycle = .registered
  ranks : ∀ a ∈ due, ∀ b ∈ due, a.rank = b.rank → a.pos = b.pos

namespace DueContainers

variable {containers : Nat → ChunkTickContainer T} {due : List ActiveTickContainer}

theorem eq_of_pos (h : DueContainers containers due) {a b : ActiveTickContainer} (ha : a ∈ due) (hb : b ∈ due)
    (hpos : a.pos = b.pos) : a = b :=
  List.inj_on_of_nodup_map h.nodup ha hb hpos

theorem eq_of_container (h : DueContainers containers due) {a b : ActiveTickContainer} (ha : a ∈ due) (hb : b ∈ due)
    (hcontainer : a.container = b.container) : a = b :=
  h.eq_of_pos ha hb (by rw [← h.pos a ha, hcontainer, h.pos b hb])

end DueContainers

/-- The loop invariant. `current` has the chunk that is being drained, if any. -/
structure Selects (currentTick : Int) (maxTicks : Nat) (containers : Nat → ChunkTickContainer T)
    (due : List ActiveTickContainer) (current : List ChunkPos) (tagged : List (ChunkPos × ScheduledTick (T kind)))
    (c : Collection T kind) : Prop where
  frame : ∀ id, (∀ a ∈ due, a.container ≠ id) → c.containers id = containers id
  pos : ∀ id, (c.containers id).pos = (containers id).pos
  lifecycle : ∀ id, (c.containers id).lifecycle = (containers id).lifecycle
  otherKind : ∀ id k, k ≠ kind → (c.containers id).lists k = (containers id).lists k
  pending : ∀ id, (c.list id).pendingTicks = ((containers id).lists kind).pendingTicks
  ticks : c.ticks = tagged.map Prod.snd
  tags : ∀ e ∈ tagged, e.1 ∈ due.map ActiveTickContainer.pos
  split : ∀ a ∈ due, takenFrom tagged a.pos ++ (c.list a.container).queue = ((containers a.container).lists kind).queue
  timely : ∀ e ∈ tagged, e.2.triggerTick ≤ currentTick
  cap : c.ticks.length ≤ maxTicks
  partition : (current ++ (c.ready.toList.map ReadyContainer.pos ++ c.headUpdates.map TickHeadUpdate.pos)).Perm
    (due.map ActiveTickContainer.pos)
  ready : ∀ r ∈ c.ready.toList, ∃ a ∈ due, r.pos = a.pos ∧ r.rank = a.rank ∧ r.container = a.container ∧
    (r.dirtyReported = true ↔ a.pos ∈ tagged.map Prod.fst)
  updates : ∀ u ∈ c.headUpdates, ∃ a ∈ due, u.pos = a.pos ∧ u.triggerTick = (c.list a.container).head ∧
    ((c.list a.container).peekReady currentTick = none ∨ maxTicks ≤ c.ticks.length)
  changedNodup : c.changedContainers.Nodup
  changed : ∀ rank, rank ∈ c.changedContainers ↔ ∃ a ∈ due, a.rank = rank ∧ a.pos ∈ tagged.map Prod.fst

namespace Selects

variable {currentTick : Int} {maxTicks : Nat} {containers : Nat → ChunkTickContainer T}
  {due : List ActiveTickContainer} {current : List ChunkPos} {tagged : List (ChunkPos × ScheduledTick (T kind))}
  {c : Collection T kind}

/-! ## Preparation -/

/-- The containers that have been seen are ready, or their heads are to be given back. -/
structure Prepared (currentTick : Int) (containers : Nat → ChunkTickContainer T) (due : List ActiveTickContainer)
    (c : Collection T kind) : Prop where
  same : c.containers = containers
  ticks : c.ticks = []
  changed : c.changedContainers = []
  partition : (c.ready.toList.map ReadyContainer.pos ++ c.headUpdates.map TickHeadUpdate.pos).Perm
    (due.map ActiveTickContainer.pos)
  ready : ∀ r ∈ c.ready.toList, ∃ a ∈ due, r.pos = a.pos ∧ r.rank = a.rank ∧ r.container = a.container ∧
    r.dirtyReported = false
  updates : ∀ u ∈ c.headUpdates, ∃ a ∈ due, u.pos = a.pos ∧ u.triggerTick = ((containers a.container).lists kind).head ∧
    ((containers a.container).lists kind).peekReady currentTick = none

theorem Prepared.step (h : Prepared currentTick containers due c) (a : ActiveTickContainer)
    (hlifecycle : (containers a.container).lifecycle = .registered) :
    ∃ c', c.prepare currentTick a = .ok c' ∧ Prepared currentTick containers (due ++ [a]) c' := by
  unfold Collection.prepare
  rw [h.same, if_neg (not_not.mpr hlifecycle)]
  have hlist : c.list a.container = (containers a.container).lists kind := by rw [Collection.list, h.same]
  have hkeep : ∀ b ∈ due, b ∈ due ++ [a] := fun b hb => List.mem_append_left _ hb
  have hlast : a ∈ due ++ [a] := List.mem_append_right _ List.mem_cons_self
  cases hready : (c.list a.container).peekReady currentTick with
  | some tick =>
    refine ⟨_, rfl, rfl, h.ticks, h.changed, ?_, fun r hr => ?_, fun u hu => ?_⟩
    · have hpush := (c.ready.push_perm (ReadyContainer.new a tick false)).map ReadyContainer.pos
      rw [List.map_append]
      refine (hpush.append_right _).trans ?_
      rw [List.map_cons, List.cons_append]
      exact (h.partition.cons _).trans (List.perm_append_singleton _ _).symm
    · rcases PriorityQueue.mem_push.mp hr with rfl | hr
      · exact ⟨a, hlast, rfl, rfl, rfl, rfl⟩
      · obtain ⟨b, hb, hrest⟩ := h.ready r hr
        exact ⟨b, hkeep b hb, hrest⟩
    · obtain ⟨b, hb, hrest⟩ := h.updates u hu
      exact ⟨b, hkeep b hb, hrest⟩
  | none =>
    refine ⟨_, rfl, h.same, h.ticks, h.changed, ?_, fun r hr => ?_, fun u hu => ?_⟩
    · unfold Collection.updateHead
      rw [List.map_append, List.map_append, ← List.append_assoc]
      exact h.partition.append_right _
    · obtain ⟨b, hb, hrest⟩ := h.ready r hr
      exact ⟨b, hkeep b hb, hrest⟩
    · rcases List.mem_append.mp hu with hu | hu
      · obtain ⟨b, hb, hrest⟩ := h.updates u hu
        exact ⟨b, hkeep b hb, hrest⟩
      · rw [List.mem_singleton.mp hu]
        exact ⟨a, hlast, rfl, by rw [hlist], by rw [← hlist, hready]⟩

theorem Prepared.all (rest : List ActiveTickContainer) (h : Prepared currentTick containers due c)
    (hlifecycle : ∀ a ∈ rest, (containers a.container).lifecycle = .registered) :
    ∃ c', rest.foldlM (Collection.prepare currentTick) c = .ok c' ∧ Prepared currentTick containers (due ++ rest) c' := by
  induction rest generalizing due c with
  | nil => exact ⟨c, rfl, by rw [List.append_nil]; exact h⟩
  | cons a rest ih =>
    obtain ⟨c₁, hstep, h₁⟩ := h.step a (hlifecycle a List.mem_cons_self)
    obtain ⟨c', hrest, h'⟩ := ih h₁ fun b hb => hlifecycle b (List.mem_cons_of_mem _ hb)
    refine ⟨c', ?_, ?_⟩
    · rw [List.foldlM_cons, hstep]
      exact hrest
    · rw [List.append_assoc] at h'
      exact h'

theorem Prepared.selects (h : Prepared currentTick containers due c) :
    Selects currentTick maxTicks containers due [] [] c where
  frame _ _ := by rw [h.same]
  pos _ := by rw [h.same]
  lifecycle _ := by rw [h.same]
  otherKind _ _ _ := by rw [h.same]
  pending _ := by
    unfold Collection.list
    rw [h.same]
  ticks := h.ticks
  tags _ he := by cases he
  split a _ := by
    unfold Collection.list
    rw [h.same]
    rfl
  timely _ he := by cases he
  cap := by rw [h.ticks]; exact Nat.zero_le _
  partition := h.partition
  ready r hr := by
    obtain ⟨a, ha, hpos, hrank, hcontainer, hdirty⟩ := h.ready r hr
    refine ⟨a, ha, hpos, hrank, hcontainer, ?_⟩
    rw [hdirty]
    simp
  updates u hu := by
    obtain ⟨a, ha, hpos, hhead, hready⟩ := h.updates u hu
    unfold Collection.list
    rw [h.same]
    exact ⟨a, ha, hpos, hhead, Or.inl hready⟩
  changedNodup := by rw [h.changed]; exact List.nodup_nil
  changed rank := by rw [h.changed]; simp

/-! ## One turn -/

theorem mem_map_pos {a : ActiveTickContainer} (ha : a ∈ due) : a.pos ∈ due.map ActiveTickContainer.pos :=
  List.mem_map_of_mem ha

theorem pop (h : Selects currentTick maxTicks containers due [] tagged c) {r : ReadyContainer}
    {ready : PriorityQueue ReadyContainer.order} (hpop : c.ready.pop = some (r, ready)) :
    Selects currentTick maxTicks containers due [r.pos] tagged { c with ready := ready } :=
  { h with
    partition := by
      have hpartition := h.partition
      rw [PriorityQueue.pop_eq_some.mp hpop] at hpartition
      exact hpartition
    ready := fun other hother => h.ready other (by
      rw [PriorityQueue.pop_eq_some.mp hpop]
      exact List.mem_cons_of_mem _ hother) }

theorem updateHead {a : ActiveTickContainer} (h : Selects currentTick maxTicks containers due [a.pos] tagged c)
    (ha : a ∈ due)
    (hdone : (c.list a.container).peekReady currentTick = none ∨ maxTicks ≤ c.ticks.length) :
    Selects currentTick maxTicks containers due [] tagged (c.updateHead a.pos (c.list a.container).head) :=
  { h with
    partition := by
      refine List.Perm.trans ?_ h.partition
      unfold Collection.updateHead
      rw [List.map_append, ← List.append_assoc, List.nil_append, ← List.append_assoc]
      exact List.perm_append_singleton _ _
    updates := fun u hu => by
      rcases List.mem_append.mp hu with hu | hu
      · exact h.updates u hu
      · rw [List.mem_singleton.mp hu]
        exact ⟨a, ha, rfl, rfl, hdone⟩ }

theorem push {a : ActiveTickContainer} (h : Selects currentTick maxTicks containers due [a.pos] tagged c) (ha : a ∈ due)
    {r : ReadyContainer} (hpos : r.pos = a.pos) (hrank : r.rank = a.rank) (hcontainer : r.container = a.container)
    (hdirty : r.dirtyReported = true ↔ a.pos ∈ tagged.map Prod.fst) :
    Selects currentTick maxTicks containers due [] tagged { c with ready := c.ready.push r } :=
  { h with
    partition := by
      refine List.Perm.trans ?_ h.partition
      rw [← hpos]
      exact ((c.ready.push_perm r).map ReadyContainer.pos).append_right _
    ready := fun other hother => by
      rcases PriorityQueue.mem_push.mp hother with rfl | hother
      · exact ⟨a, ha, hpos, hrank, hcontainer, hdirty⟩
      · exact h.ready other hother }

theorem current_fresh {a : ActiveTickContainer} (h : Selects currentTick maxTicks containers due [a.pos] tagged c)
    (hdue : DueContainers containers due) :
    (∀ r ∈ c.ready.toList, r.pos ≠ a.pos) ∧ ∀ u ∈ c.headUpdates, u.pos ≠ a.pos := by
  have hnodup := h.partition.nodup_iff.mpr hdue.nodup
  rw [List.singleton_append, List.nodup_cons, List.mem_append, not_or] at hnodup
  refine ⟨fun r hr heq => hnodup.1.1 ?_, fun u hu heq => hnodup.1.2 ?_⟩
  · rw [← heq]
    exact List.mem_map_of_mem hr
  · rw [← heq]
    exact List.mem_map_of_mem hu

theorem take {a : ActiveTickContainer} (h : Selects currentTick maxTicks containers due [a.pos] tagged c)
    (hdue : DueContainers containers due) (ha : a ∈ due) {dirtyReported : Bool}
    (hdirty : dirtyReported = true ↔ a.pos ∈ tagged.map Prod.fst) {ticks : List (ScheduledTick (T kind))}
    (hne : ticks ≠ []) {list : TickList (T kind)}
    (hdrains : Drains currentTick (maxTicks - c.ticks.length) (c.list a.container) list ticks) :
    let changedContainers := if dirtyReported then c.changedContainers else c.changedContainers ++ [a.rank]
    Selects currentTick maxTicks containers due [a.pos] (tagged ++ ticks.map fun t => (a.pos, t))
      ({ c with ticks := c.ticks ++ ticks, changedContainers := changedContainers }.setList a.container list) := by
  intro changedContainers
  obtain ⟨hready, hupdates⟩ := h.current_fresh hdue
  let c' : Collection T kind := { c with ticks := c.ticks ++ ticks, changedContainers := changedContainers }
  have hlist : ∀ b ∈ due, b.pos ≠ a.pos → (c'.setList a.container list).list b.container = c.list b.container :=
    fun b hb hpos => c'.setList_other fun heq => hpos (congrArg _ (hdue.eq_of_container hb ha heq))
  have hself : (c'.setList a.container list).list a.container = list := c'.setList_self _ _
  have htags : (tagged ++ ticks.map fun t => (a.pos, t)).map Prod.fst = tagged.map Prod.fst ++ ticks.map fun _ => a.pos := by
    rw [List.map_append, List.map_map]
    rfl
  have hmem : ∀ p, p ∈ (tagged ++ ticks.map fun t => (a.pos, t)).map Prod.fst ↔ p ∈ tagged.map Prod.fst ∨ p = a.pos := by
    intro p
    rw [htags, List.mem_append]
    refine or_congr_right ⟨fun hp => ?_, fun hp => ?_⟩
    · obtain ⟨t, -, rfl⟩ := List.mem_map.mp hp
      rfl
    · obtain ⟨t, ht⟩ := List.exists_mem_of_ne_nil ticks hne
      exact List.mem_map.mpr ⟨t, ht, hp.symm⟩
  have hcases : ∀ b ∈ due, b.pos = a.pos → b = a := fun b hb hpos => hdue.eq_of_pos hb ha hpos
  exact
    { frame := fun id hid => by
        unfold Collection.setList
        dsimp only
        rw [Function.update_of_ne (hid a ha).symm]
        exact h.frame id hid
      pos := fun id => by
        unfold Collection.setList
        dsimp only
        by_cases hid : id = a.container
        · rw [hid, Function.update_self]
          exact h.pos _
        · rw [Function.update_of_ne hid]
          exact h.pos id
      lifecycle := fun id => by
        unfold Collection.setList
        dsimp only
        by_cases hid : id = a.container
        · rw [hid, Function.update_self]
          exact h.lifecycle _
        · rw [Function.update_of_ne hid]
          exact h.lifecycle id
      otherKind := fun id k hk => by
        unfold Collection.setList
        dsimp only
        by_cases hid : id = a.container
        · rw [hid, Function.update_self]
          dsimp only
          rw [Function.update_of_ne hk]
          exact h.otherKind _ k hk
        · rw [Function.update_of_ne hid]
          exact h.otherKind id k hk
      pending := fun id => by
        by_cases hid : id = a.container
        · rw [hid, hself, hdrains.pending]
          exact h.pending _
        · rw [c'.setList_other hid]
          exact h.pending id
      ticks := by
        rw [List.map_append, List.map_map, ← h.ticks]
        exact congrArg _ (List.map_id ticks).symm
      tags := fun e he => by
        rcases List.mem_append.mp he with he | he
        · exact h.tags e he
        · obtain ⟨t, -, rfl⟩ := List.mem_map.mp he
          exact mem_map_pos ha
      split := fun b hb => by
        rw [takenFrom_append]
        by_cases hpos : b.pos = a.pos
        · rw [hcases b hb hpos, if_pos rfl, hself, List.append_assoc, ← hdrains.queue]
          exact h.split a ha
        · rw [if_neg (Ne.symm hpos), List.append_nil, hlist b hb hpos]
          exact h.split b hb
      timely := fun e he => by
        rcases List.mem_append.mp he with he | he
        · exact h.timely e he
        · obtain ⟨t, ht, rfl⟩ := List.mem_map.mp he
          exact hdrains.timely t ht
      cap := by
        have hcap := h.cap
        have hroom := hdrains.room
        show (c.ticks ++ ticks).length ≤ maxTicks
        rw [List.length_append]
        omega
      partition := h.partition
      ready := fun r hr => by
        obtain ⟨b, hb, hpos, hrank, hcontainer, hreported⟩ := h.ready r hr
        refine ⟨b, hb, hpos, hrank, hcontainer, hreported.trans ?_⟩
        rw [hmem, or_iff_left (by rw [← hpos]; exact hready r hr)]
      updates := fun u hu => by
        obtain ⟨b, hb, hpos, hhead, hdone⟩ := h.updates u hu
        refine ⟨b, hb, hpos, ?_⟩
        rw [hlist b hb (by rw [← hpos]; exact hupdates u hu)]
        refine ⟨hhead, hdone.imp_right fun hmax => ?_⟩
        show maxTicks ≤ (c.ticks ++ ticks).length
        rw [List.length_append]
        omega
      changedNodup := by
        show changedContainers.Nodup
        unfold changedContainers
        split
        · exact h.changedNodup
        · rename_i hclean
          rw [List.nodup_append']
          refine ⟨h.changedNodup, List.nodup_singleton _, fun rank hrank hrank' => hclean (hdirty.mpr ?_)⟩
          obtain ⟨b, hb, hbrank, hbtag⟩ := (h.changed rank).mp hrank
          rw [hdue.ranks a ha b hb (by rw [hbrank, List.mem_singleton.mp hrank'])]
          exact hbtag
      changed := fun rank => by
        have hmemChanged : rank ∈ changedContainers ↔ rank ∈ c.changedContainers ∨ rank = a.rank := by
          unfold changedContainers
          split
          · rename_i hreported
            refine ⟨Or.inl, fun hr => hr.elim id fun hr => ?_⟩
            exact (h.changed rank).mpr ⟨a, ha, hr.symm, hdirty.mp hreported⟩
          · rw [List.mem_append, List.mem_singleton]
        refine hmemChanged.trans ?_
        rw [h.changed]
        constructor
        · rintro (⟨b, hb, hrank, htag⟩ | rfl)
          · exact ⟨b, hb, hrank, (hmem _).mpr (Or.inl htag)⟩
          · exact ⟨a, ha, rfl, (hmem _).mpr (Or.inr rfl)⟩
        · intro ⟨b, hb, hrank, htag⟩
          rcases (hmem _).mp htag with htag | hpos
          · exact Or.inl ⟨b, hb, hrank, htag⟩
          · rw [hcases b hb hpos] at hrank
            exact Or.inr hrank.symm }

theorem peekReady_of_popReady [∀ kind, TickKey (T kind)] {list : TickList (T kind)} (h : list.popReady currentTick = none) :
    list.peekReady currentTick = none := by
  cases hready : list.peekReady currentTick with
  | none => rfl
  | some tick =>
    obtain ⟨list', hpop⟩ := TickList.popReady_isSome hready
    rw [h] at hpop
    cases hpop

theorem turn [∀ kind, TickKey (T kind)] (h : Selects currentTick maxTicks containers due [] tagged c) (hdue : DueContainers containers due) :
    (c.turn currentTick maxTicks = .ok none ∧ (maxTicks ≤ c.ticks.length ∨ c.ready.toList = [])) ∨
      ∃ c' tagged', c.turn currentTick maxTicks = .ok (some c') ∧
        Selects currentTick maxTicks containers due [] tagged' c' := by
  unfold Collection.turn
  by_cases hfull : maxTicks ≤ c.ticks.length
  · rw [if_pos hfull]
    exact Or.inl ⟨rfl, Or.inl hfull⟩
  · rw [if_neg hfull]
    cases hpop : c.ready.pop with
    | none => exact Or.inl ⟨rfl, Or.inr (PriorityQueue.pop_eq_none.mp hpop)⟩
    | some pair =>
      obtain ⟨r, ready⟩ := pair
      obtain ⟨a, ha, hpos, hrank, hcontainer, hdirty⟩ := h.ready r (by
        rw [PriorityQueue.pop_eq_some.mp hpop]
        exact List.mem_cons_self)
      have hcurrent := h.pop hpop
      rw [hpos] at hcurrent
      refine Or.inr ?_
      dsimp only
      rw [hcontainer, if_neg (not_not.mpr (by rw [h.lifecycle, hdue.lifecycle a ha])), hpos, hrank]
      cases hready : (c.list a.container).popReady currentTick with
      | none => exact ⟨_, _, rfl, hcurrent.updateHead ha (Or.inl (peekReady_of_popReady hready))⟩
      | some popped =>
        obtain ⟨tick, list⟩ := popped
        obtain ⟨hqueue, htimely, hpending⟩ := TickList.popReady_eq_some hready
        dsimp only
        generalize (ready.peek.map fun other => intraTickDrainOrder other.priority other.subTickOrder) = competitor
        have hmore := drain_spec competitor currentTick (maxTicks - (c.ticks.length + 1)) list
        generalize Collection.drain competitor currentTick (maxTicks - (c.ticks.length + 1)) list = drained at hmore ⊢
        obtain ⟨more, list'⟩ := drained
        have hdrains : Drains currentTick (maxTicks - c.ticks.length) (c.list a.container) list' (tick :: more) := by
          refine ⟨?_, fun t ht => ?_, ?_, hmore.pending.trans hpending⟩
          · rw [hqueue, hmore.queue]
            rfl
          · rcases List.mem_cons.mp ht with rfl | ht
            · exact htimely
            · exact hmore.timely t ht
          · have hroom : more.length ≤ maxTicks - (c.ticks.length + 1) := hmore.room
            rw [List.length_cons]
            omega
        have htaken := hcurrent.take hdue ha hdirty (List.cons_ne_nil _ _) hdrains
        have hself := Collection.setList_self { c with
          ready := ready
          ticks := c.ticks ++ tick :: more
          changedContainers := if r.dirtyReported then c.changedContainers else c.changedContainers ++ [a.rank] }
          a.container list'
        dsimp only
        cases hpeek : list'.peek with
        | none =>
          have hnone : list'.head = none := by rw [TickList.head, hpeek]; rfl
          have hdone : list'.peekReady currentTick = none := by rw [TickList.peekReady, hpeek]; rfl
          have hupdated := htaken.updateHead ha (Or.inl (by rw [hself]; exact hdone))
          rw [hself, hnone] at hupdated
          exact ⟨_, _, rfl, hupdated⟩
        | some nextTick =>
          dsimp only
          by_cases hroom : (c.ticks ++ tick :: more).length < maxTicks ∧ nextTick.triggerTick ≤ currentTick
          · rw [if_pos hroom]
            refine ⟨_, _, rfl, htaken.push ha rfl rfl rfl ⟨fun _ => ?_, fun _ => rfl⟩⟩
            rw [List.map_append, List.map_map]
            exact List.mem_append_right _ List.mem_cons_self
          · rw [if_neg hroom]
            have hsome : list'.head = some nextTick.triggerTick := by rw [TickList.head, hpeek]; rfl
            have hdone : list'.peekReady currentTick = none ∨ maxTicks ≤ (c.ticks ++ tick :: more).length := by
              by_cases hlate : nextTick.triggerTick ≤ currentTick
              · exact Or.inr (not_lt.mp fun hlt => hroom ⟨hlt, hlate⟩)
              · refine Or.inl ?_
                rw [TickList.peekReady, hpeek, Option.filter_some, if_neg]
                rw [decide_eq_true_iff]
                exact hlate
            have hupdated := htaken.updateHead ha (by rw [hself]; exact hdone)
            rw [hself, hsome] at hupdated
            exact ⟨_, _, rfl, hupdated⟩

theorem run [∀ kind, TickKey (T kind)] {c : Collection T kind} {tagged : List (ChunkPos × ScheduledTick (T kind))}
    (h : Selects currentTick maxTicks containers due [] tagged c)
    (hdue : DueContainers containers due) :
    ∃ c' tagged', c.run currentTick maxTicks = .ok c' ∧ Selects currentTick maxTicks containers due [] tagged' c' ∧
      (maxTicks ≤ c'.ticks.length ∨ c'.ready.toList = []) := by
  rcases h.turn hdue with ⟨hstop, hdone⟩ | ⟨c', tagged', hgo, h'⟩
  · refine ⟨c, tagged, ?_, h, hdone⟩
    rw [Collection.run, hstop]
  · obtain ⟨c'', tagged'', hrun, hrest⟩ := run h' hdue
    refine ⟨c'', tagged'', ?_, hrest⟩
    rw [Collection.run, hgo]
    exact hrun
termination_by (maxTicks - c.ticks.length, c.ready.toList.length)
decreasing_by exact Collection.turn_decreases hgo

theorem finish (h : Selects currentTick maxTicks containers due [] tagged c) :
    (c.finish.map TickHeadUpdate.pos).Perm (due.map ActiveTickContainer.pos) ∧
      ∀ u ∈ c.finish, ∃ a ∈ due, u.pos = a.pos ∧ u.triggerTick = (c.list a.container).head := by
  unfold Collection.finish
  refine ⟨?_, fun u hu => ?_⟩
  · rw [List.map_append, List.map_map]
    exact List.perm_append_comm.trans h.partition
  · rcases List.mem_append.mp hu with hu | hu
    · obtain ⟨a, ha, hpos, hhead, -⟩ := h.updates u hu
      exact ⟨a, ha, hpos, hhead⟩
    · obtain ⟨r, hr, rfl⟩ := List.mem_map.mp hu
      obtain ⟨a, ha, hpos, -, hcontainer, -⟩ := h.ready r hr
      exact ⟨a, ha, hpos, by rw [hcontainer]⟩

end Selects

/-- What `collect_registered_ticks` does. -/
theorem collectRegisteredTicks_ok [∀ kind, TickKey (T kind)] (kind : TickKind) {containers : Nat → ChunkTickContainer T}
    {due : List ActiveTickContainer} (hdue : DueContainers containers due) (currentTick : Int) (maxTicks : Nat) :
    ∃ c tagged, collectRegisteredTicks kind containers due currentTick maxTicks = .ok c ∧
      Selects currentTick maxTicks containers due [] tagged c ∧ (maxTicks ≤ c.ticks.length ∨ c.ready.toList = []) := by
  have hempty : Selects.Prepared currentTick containers [] (⟨containers, .empty, [], [], []⟩ : Collection T kind) :=
    ⟨rfl, rfl, rfl, .rfl, fun r hr => (by cases hr), fun u hu => (by cases hu)⟩
  obtain ⟨c₀, hprepare, hprepared⟩ := hempty.all due hdue.lifecycle
  rw [List.nil_append] at hprepared
  obtain ⟨c, tagged, hrun, hselects, hdone⟩ := hprepared.selects.run hdue
  refine ⟨c, tagged, ?_, hselects, hdone⟩
  unfold collectRegisteredTicks
  rw [hprepare]
  exact hrun

end Foton
