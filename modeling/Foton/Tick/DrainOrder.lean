import Foton.Lib.HeadMerge
import Foton.Tick.Batch

/-!
# The cross-chunk drain order

The selection loop takes the ticks in the order of the plain merge of the due
queues, which looks at every head again for every tick.
-/

namespace Foton

variable {T : TickKind → Type} {kind : TickKind}

/-- Heads by priority and sub-tick order, then by the rank of the chunk. -/
def crossChunkMerge (kind : TickKind) (due : List ActiveTickContainer) (currentTick : Int) :
    HeadMerge ActiveTickContainer (ScheduledTick (T kind)) (TickPriority ×ₗ Int) Nat where
  sources := due
  ready tick := tick.triggerTick ≤ currentTick
  order := ScheduledTick.intraOrder
  rank := ActiveTickContainer.rank

namespace Collection

variable {currentTick : Int} {maxTicks : Nat} {containers : Nat → ChunkTickContainer T} {due : List ActiveTickContainer}
  {last : Option ActiveTickContainer} {queues : ActiveTickContainer → List (ScheduledTick (T kind))}
  {tagged : List (ChunkPos × ScheduledTick (T kind))} {c c' : Collection T kind}

/-- The cached keys of the heap are those of the heads, and the loop does not go back to `last`. -/
structure Follows (currentTick : Int) (maxTicks : Nat) (due : List ActiveTickContainer) (last : Option ActiveTickContainer)
    (queues : ActiveTickContainer → List (ScheduledTick (T kind))) (c : Collection T kind) : Prop where
  same : ∀ a ∈ due, queues a = (c.list a.container).queue
  keys : ∀ r ∈ c.ready.toList, ∃ tick, (c.list r.container).peekReady currentTick = some tick ∧
    intraTickDrainOrder r.priority r.subTickOrder = tick.intraOrder
  left : c.ticks.length < maxTicks → (crossChunkMerge kind due currentTick).stay queues last = none

theorem readyHead_eq {a : ActiveTickContainer} {list : TickList (T kind)} (h : queues a = list.queue) :
    (crossChunkMerge kind due currentTick).readyHead queues a = list.peekReady currentTick := by
  rw [HeadMerge.readyHead, h, TickList.peekReady, TickList.peek_eq]
  rfl

/-! ## The heap and the heads -/

namespace Follows

theorem mem_heads (h : Follows currentTick maxTicks due last queues c) {a : ActiveTickContainer}
    {tick : ScheduledTick (T kind)} : (a, tick) ∈ (crossChunkMerge kind due currentTick).heads queues ↔
      a ∈ due ∧ (c.list a.container).peekReady currentTick = some tick := by
  rw [HeadMerge.mem_heads]
  refine and_congr_right fun ha => ?_
  rw [readyHead_eq (h.same a ha)]

theorem entry_of_head (h : Follows currentTick maxTicks due last queues c)
    (hselects : Selects currentTick maxTicks containers due [] tagged c) (hdue : DueContainers containers due)
    (hroom : c.ticks.length < maxTicks) {a : ActiveTickContainer} {tick : ScheduledTick (T kind)}
    (he : (a, tick) ∈ (crossChunkMerge kind due currentTick).heads queues) :
    ∃ r ∈ c.ready.toList, r.pos = a.pos ∧ r.container = a.container ∧
      r.order = (crossChunkMerge kind due currentTick).key (a, tick) := by
  obtain ⟨ha, hhead⟩ := h.mem_heads.mp he
  have hmem : a.pos ∈ c.ready.toList.map ReadyContainer.pos ++ c.headUpdates.map TickHeadUpdate.pos :=
    hselects.partition.mem_iff.mpr (Selects.mem_map_pos ha)
  rcases List.mem_append.mp hmem with hready | hupdate
  · obtain ⟨r, hr, hpos⟩ := List.mem_map.mp hready
    obtain ⟨b, hb, hpos', hrank, hcontainer, -⟩ := hselects.ready r hr
    have hba : b = a := hdue.eq_of_pos hb ha (hpos'.symm.trans hpos)
    subst hba
    obtain ⟨tick', hhead', horder⟩ := h.keys r hr
    rw [hcontainer, hhead, Option.some.injEq] at hhead'
    subst hhead'
    refine ⟨r, hr, hpos, hcontainer, ?_⟩
    unfold ReadyContainer.order HeadMerge.key
    rw [horder, hrank]
    rfl
  · obtain ⟨u, hu, hpos⟩ := List.mem_map.mp hupdate
    obtain ⟨b, hb, hpos', -, hnone⟩ := hselects.updates u hu
    have hba : b = a := hdue.eq_of_pos hb ha (hpos'.symm.trans hpos)
    subst hba
    rcases hnone with hnone | hfull
    · rw [hnone] at hhead
      cases hhead
    · exact absurd hroom (not_lt_of_ge hfull)

theorem head_of_entry (h : Follows currentTick maxTicks due last queues c)
    (hselects : Selects currentTick maxTicks containers due [] tagged c) {r : ReadyContainer} (hr : r ∈ c.ready.toList) :
    ∃ a tick, (a, tick) ∈ (crossChunkMerge kind due currentTick).heads queues ∧ r.pos = a.pos ∧
      r.container = a.container ∧ r.order = (crossChunkMerge kind due currentTick).key (a, tick) := by
  obtain ⟨a, ha, hpos, hrank, hcontainer, -⟩ := hselects.ready r hr
  obtain ⟨tick, hhead, horder⟩ := h.keys r hr
  rw [hcontainer] at hhead
  refine ⟨a, tick, h.mem_heads.mpr ⟨ha, hhead⟩, hpos, hcontainer, ?_⟩
  unfold ReadyContainer.order HeadMerge.key
  rw [horder, hrank]
  rfl

theorem switch_eq (h : Follows currentTick maxTicks due last queues c)
    (hselects : Selects currentTick maxTicks containers due [] tagged c) (hdue : DueContainers containers due)
    (hroom : c.ticks.length < maxTicks) {r : ReadyContainer} (hpeek : c.ready.peek = some r) {a : ActiveTickContainer}
    {tick : ScheduledTick (T kind)} (he : (a, tick) ∈ (crossChunkMerge kind due currentTick).heads queues)
    (horder : r.order = (crossChunkMerge kind due currentTick).key (a, tick)) :
    (crossChunkMerge kind due currentTick).switch queues = some (a, tick) := by
  refine HeadMerge.switch_eq_some he (fun e' he' => ?_) (fun e' he' hkey => ?_)
  · obtain ⟨r', hr', -, -, horder'⟩ := h.entry_of_head hselects hdue hroom he'
    rw [← horder, ← horder']
    exact PriorityQueue.le_of_peek hpeek hr'
  · obtain ⟨b, tick'⟩ := e'
    obtain ⟨ha, hhead⟩ := h.mem_heads.mp he
    obtain ⟨hb, hhead'⟩ := h.mem_heads.mp he'
    have hrank : b.rank = a.rank := congrArg (fun k => (ofLex k).2) hkey
    have hba : b = a := hdue.eq_of_pos hb ha (hdue.ranks b hb a ha hrank)
    subst hba
    rw [hhead, Option.some.injEq] at hhead'
    rw [hhead']

theorem competes (h : Follows currentTick maxTicks due last queues c)
    (hselects : Selects currentTick maxTicks containers due [] tagged c) (hdue : DueContainers containers due)
    (hroom : c.ticks.length < maxTicks) {r : ReadyContainer} {ready : PriorityQueue ReadyContainer.order}
    (hpop : c.ready.pop = some (r, ready)) {a : ActiveTickContainer} (ha : a ∈ due) (hpos : r.pos = a.pos) :
    (crossChunkMerge kind due currentTick).Competes a
      (ready.peek.map fun other => intraTickDrainOrder other.priority other.subTickOrder) queues := by
  have hentries : c.ready.toList = r :: ready.toList := PriorityQueue.pop_eq_some.mp hpop
  constructor
  · rintro ⟨b, tick⟩ he hne
    obtain ⟨r', hr', hpos', -, horder⟩ := h.entry_of_head hselects hdue hroom he
    rw [hentries] at hr'
    rcases List.mem_cons.mp hr' with rfl | hr'
    · exact absurd (hdue.eq_of_pos (h.mem_heads.mp he).1 ha (hpos'.symm.trans hpos)) hne
    · obtain ⟨top, htop⟩ := PriorityQueue.exists_peek hr'
      refine ⟨_, by rw [htop, Option.map_some], ?_⟩
      have hle : top.order ≤ (crossChunkMerge kind due currentTick).key (b, tick) := by
        rw [← horder]
        exact PriorityQueue.le_of_peek htop hr'
      exact (Prod.Lex.toLex_le_toLex.mp hle).elim le_of_lt fun h => le_of_eq h.1
  · intro k hk
    obtain ⟨top, htop, rfl⟩ := Option.map_eq_some_iff.mp hk
    obtain ⟨rest, -, hrest⟩ := PriorityQueue.pop_of_peek htop
    have hmem : top ∈ ready.toList := by
      rw [hrest]
      exact List.mem_cons_self
    obtain ⟨b, tick, he, hpos', -, horder⟩ := h.head_of_entry hselects (by
      rw [hentries]
      exact List.mem_cons_of_mem _ hmem)
    refine ⟨(b, tick), he, fun hba => ?_, (congrArg (fun k => (ofLex k).1) horder).symm⟩
    have hcurrent := hselects.pop hpop
    rw [hpos] at hcurrent
    refine (hcurrent.current_fresh hdue).1 top hmem ?_
    rw [hpos']
    exact congrArg ActiveTickContainer.pos hba

theorem taken (h : Follows currentTick maxTicks due last queues c)
    (hselects : Selects currentTick maxTicks containers due [] tagged c) (hdue : DueContainers containers due)
    {r : ReadyContainer} {ready : PriorityQueue ReadyContainer.order} (hpop : c.ready.pop = some (r, ready))
    {a : ActiveTickContainer} (ha : a ∈ due) (hpos : r.pos = a.pos) (list : TickList (T kind))
    (ticks : List (ScheduledTick (T kind))) (changedContainers : List Nat)
    (hleft : ticks.length < maxTicks →
      (crossChunkMerge kind due currentTick).stay (Function.update queues a list.queue) (some a) = none) :
    Follows currentTick maxTicks due (some a) (Function.update queues a list.queue)
      ({ c with ready := ready, ticks := ticks, changedContainers := changedContainers }.setList a.container list) where
  same b hb := by
    by_cases hba : b = a
    · rw [hba, Function.update_self, Collection.setList_self]
    · rw [Function.update_of_ne hba, Collection.setList_other _ fun heq => hba (hdue.eq_of_container hb ha heq)]
      exact h.same b hb
  keys r' hr' := by
    have hmem : r' ∈ c.ready.toList := by
      rw [PriorityQueue.pop_eq_some.mp hpop]
      exact List.mem_cons_of_mem _ hr'
    obtain ⟨b, hb, hpos', -, hcontainer, -⟩ := hselects.ready r' hmem
    have hcurrent := hselects.pop hpop
    rw [hpos] at hcurrent
    have hne : r'.pos ≠ a.pos := (hcurrent.current_fresh hdue).1 r' hr'
    have hother : r'.container ≠ a.container := by
      intro heq
      have hba : b = a := hdue.eq_of_container hb ha (hcontainer.symm.trans heq)
      exact hne (by rw [hpos', hba])
    rw [Collection.setList_other _ hother]
    exact h.keys r' hmem
  left := hleft

theorem push (h : Follows currentTick maxTicks due last queues c) {r : ReadyContainer} {tick : ScheduledTick (T kind)}
    (hhead : (c.list r.container).peekReady currentTick = some tick)
    (horder : intraTickDrainOrder r.priority r.subTickOrder = tick.intraOrder) :
    Follows currentTick maxTicks due last queues { c with ready := c.ready.push r } where
  same := h.same
  keys r' hr' := by
    rcases PriorityQueue.mem_push.mp hr' with rfl | hr'
    · exact ⟨tick, hhead, horder⟩
    · exact h.keys r' hr'
  left := h.left

theorem updateHead (h : Follows currentTick maxTicks due last queues c) (pos : ChunkPos) (triggerTick : Option Int) :
    Follows currentTick maxTicks due last queues (c.updateHead pos triggerTick) := ⟨h.same, h.keys, h.left⟩

end Follows

/-! ## Preparation -/

namespace Follows

theorem start (containers : Nat → ChunkTickContainer T) : Follows currentTick maxTicks due none
    (fun a => ((containers a.container).lists kind).queue) (⟨containers, .empty, [], [], []⟩ : Collection T kind) :=
  ⟨fun _ _ => rfl, fun _ hr => (by cases hr), fun _ => rfl⟩

theorem prepare (h : Follows currentTick maxTicks due last queues c) {a : ActiveTickContainer}
    (hgo : c.prepare currentTick a = .ok c') : Follows currentTick maxTicks due last queues c' := by
  unfold Collection.prepare at hgo
  split at hgo
  · cases hgo
  · split at hgo
    · rename_i tick hhead
      cases hgo
      exact h.push hhead rfl
    · cases hgo
      exact h.updateHead _ _

theorem prepareAll (rest : List ActiveTickContainer) (h : Follows currentTick maxTicks due last queues c)
    (hgo : rest.foldlM (Collection.prepare currentTick) c = .ok c') : Follows currentTick maxTicks due last queues c' := by
  induction rest generalizing c with
  | nil =>
    cases hgo
    exact h
  | cons a rest ih =>
    rw [List.foldlM_cons] at hgo
    cases hstep : c.prepare currentTick a with
    | error e =>
      rw [hstep] at hgo
      cases hgo
    | ok c₁ =>
      rw [hstep] at hgo
      exact ih (h.prepare hstep) hgo

end Follows

/-! ## The loops -/

variable [∀ kind, TickKey (T kind)]

theorem drain_follows {a : ActiveTickContainer} {competitor : Option (TickPriority ×ₗ Int)} (room : Nat)
    (list : TickList (T kind)) (h : (crossChunkMerge kind due currentTick).Competes a competitor queues)
    (hsame : queues a = list.queue) :
    let m : HeadMerge ActiveTickContainer (ScheduledTick (T kind)) (TickPriority ×ₗ Int) Nat := crossChunkMerge kind due currentTick
    let drained := drain competitor currentTick room list
    let queues' := Function.update queues a drained.2.queue
    m.run room (some a) queues = drained.1.map (Prod.mk a) ++ m.run (room - drained.1.length) (some a) queues' ∧
      (room ≤ drained.1.length ∨ m.stay queues' (some a) = none) := by
  intro m
  have hstop : Function.update queues a list.queue = queues := by rw [← hsame, Function.update_eq_self]
  induction room generalizing list queues with
  | zero => exact ⟨rfl, Or.inl (Nat.zero_le _)⟩
  | succ room ih =>
    unfold drain
    have hhead : m.readyHead queues a = list.peekReady currentTick := readyHead_eq hsame
    cases hready : list.peekReady currentTick with
    | none =>
      rw [hready] at hhead
      dsimp only
      rw [hstop]
      exact ⟨rfl, Or.inr (HeadMerge.stay_eq_none_of_head hhead)⟩
    | some nextTick =>
      rw [hready] at hhead
      dsimp only
      by_cases hlate : (competitor.any fun order => order < nextTick.intraOrder) = true
      · rw [if_pos hlate]
        dsimp only
        rw [hstop]
        exact ⟨rfl, Or.inr (h.stay_none hhead hlate)⟩
      · rw [if_neg hlate]
        obtain ⟨list', hpop⟩ := TickList.popReady_isSome hready
        rw [hpop]
        obtain ⟨hqueue, -, -⟩ := TickList.popReady_eq_some hpop
        have hstep := HeadMerge.run_stay room hhead (h.le_heads hhead hlate)
        rw [hsame, hqueue, List.tail_cons] at hstep
        have hself : Function.update queues a list'.queue a = list'.queue := Function.update_self _ _ _
        obtain ⟨hrun, hend⟩ := ih list' (h.update list'.queue) hself (by rw [Function.update_idem])
        rw [Function.update_idem] at hrun hend
        dsimp only
        rw [List.length_cons, Nat.add_sub_add_right, hstep, hrun]
        exact ⟨rfl, hend.imp_left Nat.succ_le_succ⟩

namespace Follows

/-- One turn of the outer loop is one switch of the merge and the stay that follows it. -/
theorem turn (h : Follows currentTick maxTicks due last queues c)
    (hselects : Selects currentTick maxTicks containers due [] tagged c) (hdue : DueContainers containers due)
    (hgo : c.turn currentTick maxTicks = .ok (some c')) :
    let m : HeadMerge ActiveTickContainer (ScheduledTick (T kind)) (TickPriority ×ₗ Int) Nat := crossChunkMerge kind due currentTick
    ∃ more last' queues', c'.ticks = c.ticks ++ more.map Prod.snd ∧
      m.run (maxTicks - c.ticks.length) last queues = more ++ m.run (maxTicks - c'.ticks.length) last' queues' ∧
      Follows currentTick maxTicks due last' queues' c' := by
  intro m
  unfold Collection.turn at hgo
  by_cases hfull : maxTicks ≤ c.ticks.length
  · rw [if_pos hfull] at hgo
    cases hgo
  · rw [if_neg hfull] at hgo
    have hroom : c.ticks.length < maxTicks := not_le.mp hfull
    cases hpop : c.ready.pop with
    | none =>
      rw [hpop] at hgo
      cases hgo
    | some pair =>
      obtain ⟨r, ready⟩ := pair
      have hmem : r ∈ c.ready.toList := by
        rw [PriorityQueue.pop_eq_some.mp hpop]
        exact List.mem_cons_self
      obtain ⟨a, tick, he, hpos, hcontainer, horder⟩ := h.head_of_entry hselects hmem
      obtain ⟨ha, hhead⟩ := h.mem_heads.mp he
      obtain ⟨list, hready⟩ := TickList.popReady_isSome hhead
      obtain ⟨hqueue, -, -⟩ := TickList.popReady_eq_some hready
      rw [hpop] at hgo
      dsimp only at hgo
      rw [hcontainer, if_neg (not_not.mpr (by rw [hselects.lifecycle, hdue.lifecycle a ha])), hready] at hgo
      have hswitch := h.switch_eq hselects hdue hroom (PriorityQueue.peek_of_pop hpop) he horder
      have hcompetes := h.competes hselects hdue hroom hpop ha hpos
      generalize (ready.peek.map fun other => intraTickDrainOrder other.priority other.subTickOrder) = competitor
        at hgo hcompetes
      have hself : Function.update queues a list.queue a = list.queue := Function.update_self _ _ _
      obtain ⟨hrun, hend⟩ := drain_follows (maxTicks - (c.ticks.length + 1)) list (hcompetes.update list.queue) hself
      have hfirst := HeadMerge.run_switch (maxTicks - (c.ticks.length + 1)) (h.left hroom) hswitch
      dsimp only at hgo hfirst
      rw [h.same a ha, hqueue, List.tail_cons, hrun] at hfirst
      generalize drain competitor currentTick (maxTicks - (c.ticks.length + 1)) list = drained at hgo hfirst hend
      obtain ⟨more, list'⟩ := drained
      rw [Function.update_idem] at hfirst hend
      dsimp only at hgo hfirst hend
      have hlength : (c.ticks ++ tick :: more).length = c.ticks.length + 1 + more.length := by
        rw [List.length_append, List.length_cons]
        omega
      have htaken := h.taken hselects hdue hpop ha hpos list' (c.ticks ++ tick :: more)
        (if r.dirtyReported then c.changedContainers else c.changedContainers ++ [r.rank]) (by
          intro hlt
          rw [hlength] at hlt
          exact hend.resolve_left (by omega))
      have hdone : ∀ c', c'.ticks = c.ticks ++ tick :: more →
          Follows currentTick maxTicks due (some a) (Function.update queues a list'.queue) c' →
          ∃ more last' queues', c'.ticks = c.ticks ++ more.map Prod.snd ∧
            m.run (maxTicks - c.ticks.length) last queues = more ++ m.run (maxTicks - c'.ticks.length) last' queues' ∧
            Follows currentTick maxTicks due last' queues' c' := by
        intro c' hticks hfollows
        refine ⟨(a, tick) :: more.map (Prod.mk a), some a, _, ?_, ?_, hfollows⟩
        · rw [hticks, List.map_cons, List.map_map]
          simp [Function.comp_def]
        · have hsucc : maxTicks - c.ticks.length = maxTicks - (c.ticks.length + 1) + 1 := by omega
          have hrest : maxTicks - (c.ticks ++ tick :: more).length = maxTicks - (c.ticks.length + 1) - more.length := by
            rw [hlength]
            omega
          rw [hsucc, hfirst, hticks, hrest]
          rfl
      cases hpeek : list'.peek with
      | none =>
        rw [hpeek] at hgo
        cases hgo
        exact hdone _ rfl (htaken.updateHead _ _)
      | some nextTick =>
        rw [hpeek] at hgo
        dsimp only at hgo
        by_cases hagain : (c.ticks ++ tick :: more).length < maxTicks ∧ nextTick.triggerTick ≤ currentTick
        · rw [if_pos hagain] at hgo
          cases hgo
          refine hdone _ rfl (htaken.push ?_ rfl)
          dsimp only [ReadyContainer.refresh]
          rw [Collection.setList_self]
          unfold TickList.peekReady
          rw [hpeek, Option.filter_some, if_pos]
          rw [decide_eq_true_iff]
          exact hagain.2
        · rw [if_neg hagain] at hgo
          cases hgo
          exact hdone _ rfl (htaken.updateHead _ _)

theorem run {c : Collection T kind} {tagged : List (ChunkPos × ScheduledTick (T kind))}
    {last : Option ActiveTickContainer} {queues : ActiveTickContainer → List (ScheduledTick (T kind))}
    (h : Follows currentTick maxTicks due last queues c)
    (hselects : Selects currentTick maxTicks containers due [] tagged c) (hdue : DueContainers containers due) :
    ∃ c', c.run currentTick maxTicks = .ok c' ∧ c'.ticks = c.ticks ++
      ((crossChunkMerge kind due currentTick).run (maxTicks - c.ticks.length) last queues).map Prod.snd := by
  rcases hselects.turn hdue with ⟨hstop, hdone⟩ | ⟨c₁, tagged₁, hgo, hselects₁⟩
  · refine ⟨c, by rw [Collection.run, hstop], ?_⟩
    by_cases hfull : maxTicks ≤ c.ticks.length
    · rw [Nat.sub_eq_zero_of_le hfull, HeadMerge.run, List.map_nil, List.append_nil]
    · have hnone : (crossChunkMerge kind due currentTick).heads queues = [] := by
        refine List.eq_nil_iff_forall_not_mem.mpr fun e he => ?_
        obtain ⟨r, hr, -⟩ := h.entry_of_head hselects hdue (not_le.mp hfull) he
        rw [hdone.resolve_left hfull] at hr
        cases hr
      rw [HeadMerge.run_done _ (h.left (not_le.mp hfull)) hnone, List.map_nil, List.append_nil]
  · obtain ⟨more, last', queues', hticks, hmerge, h₁⟩ := h.turn hselects hdue hgo
    obtain ⟨c', hrun, hrest⟩ := h₁.run hselects₁ hdue
    refine ⟨c', ?_, ?_⟩
    · rw [Collection.run, hgo]
      exact hrun
    · rw [hrest, hmerge, hticks, List.map_append, List.append_assoc]
termination_by (maxTicks - c.ticks.length, c.ready.toList.length)
decreasing_by exact Collection.turn_decreases hgo

end Follows

end Collection

variable [∀ kind, TickKey (T kind)]

/-- **The batch of a tick** is the merge of the due queues, cut off at `maxTicks`. -/
theorem collectRegisteredTicks_eq_merge (kind : TickKind) {containers : Nat → ChunkTickContainer T}
    {due : List ActiveTickContainer} (hdue : DueContainers containers due) (currentTick : Int) (maxTicks : Nat) :
    ∃ c, collectRegisteredTicks kind containers due currentTick maxTicks = .ok c ∧
      c.ticks = ((crossChunkMerge kind due currentTick).run maxTicks none fun a =>
        ((containers a.container).lists kind).queue).map Prod.snd := by
  have hempty : Selects.Prepared currentTick containers [] (⟨containers, .empty, [], [], []⟩ : Collection T kind) :=
    ⟨rfl, rfl, rfl, .rfl, fun r hr => (by cases hr), fun u hu => (by cases hu)⟩
  obtain ⟨c₀, hprepare, hprepared⟩ := hempty.all due hdue.lifecycle
  rw [List.nil_append] at hprepared
  have hstart : Collection.Follows currentTick maxTicks due none _ (⟨containers, .empty, [], [], []⟩ : Collection T kind) :=
    .start containers
  have hfollows := hstart.prepareAll due hprepare
  obtain ⟨c, hrun, hticks⟩ := hfollows.run hprepared.selects hdue
  refine ⟨c, ?_, ?_⟩
  · unfold collectRegisteredTicks
    rw [hprepare]
    exact hrun
  · rw [hticks, hprepared.ticks]
    rfl

/-- A chunk with a high and a normal tick, and one of lower rank with a normal tick. -/
def tiedContainers (id : Nat) : ChunkTickContainer fun _ => Unit :=
  let current : TickList Unit := (TickList.new.schedule () ⟨16, 0, 0⟩ 1 .high 0).1
  let lists := if id = 0 then (TickList.new.schedule () ⟨0, 0, 0⟩ 1 .normal 1).1 else
    (current.schedule () ⟨17, 0, 0⟩ 1 .normal 1).1
  ⟨⟨.ofNat id, 0⟩, .registered, fun _ => lists⟩

theorem tied_chunk_stays : ∃ c, collectRegisteredTicks .block tiedContainers [⟨⟨0, 0⟩, 0, 0⟩, ⟨⟨1, 0⟩, 1, 1⟩] 1 3 = .ok c ∧
    c.ticks.map ScheduledTick.pos = [⟨16, 0, 0⟩, ⟨17, 0, 0⟩, ⟨0, 0, 0⟩] := by
  obtain ⟨c, hc, hticks⟩ := collectRegisteredTicks_eq_merge .block
    (⟨by decide, by decide, by decide, by decide⟩ :
      DueContainers tiedContainers [⟨⟨0, 0⟩, 0, 0⟩, ⟨⟨1, 0⟩, 1, 1⟩]) 1 3
  refine ⟨c, hc, ?_⟩
  rw [hticks]
  decide +kernel

end Foton
