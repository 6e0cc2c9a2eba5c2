import Foton.Tick.Selection

/-!
# The index never diverges

Every registered chunk's record has the heads of its queues, and the index has
the heads of the active chunks. Each operation keeps this, so none of the
scheduler's assertions fails.
-/

namespace Foton

namespace WorldTickScheduler

variable {T : TickKind → Type} {w : WorldTickScheduler T}

/-- The record `r` describes the container that is registered at `pos`. -/
structure Registration (w : WorldTickScheduler T) (pos : ChunkPos) (r : RegisteredChunkTicks) : Prop where
  pos : (w.containers r.container).pos = pos
  lifecycle : (w.containers r.container).lifecycle = .registered
  heads : ∀ kind, r.head kind = ((w.containers r.container).lists kind).head

theorem Registration.transfer {w' : WorldTickScheduler T} {pos : ChunkPos} {r q : RegisteredChunkTicks}
    (h : w.Registration pos r) (hsame : w'.containers q.container = w.containers r.container) (hhead : q.head = r.head) :
    w'.Registration pos q := by
  refine ⟨?_, ?_, fun kind => ?_⟩
  · rw [hsame, h.pos]
  · rw [hsame, h.lifecycle]
  · rw [hsame, hhead, h.heads]

structure Indexed (w : WorldTickScheduler T) : Prop where
  sound : w.state.Sound
  registration : ∀ pos r, w.state.chunks.lookup pos = some r → w.Registration pos r
  registered : ∀ chunk, (w.containers chunk).lifecycle = .registered →
    ∃ r, w.state.chunks.lookup (w.containers chunk).pos = some r ∧ r.container = chunk

/-! ## Containers -/

theorem setLists_self (chunk : Nat) (lists : ∀ kind, TickList (T kind)) :
    (w.setLists chunk lists).containers chunk = { w.containers chunk with lists := lists } := Function.update_self _ _ _

theorem setLists_other {chunk other : Nat} (lists : ∀ kind, TickList (T kind)) (h : other ≠ chunk) :
    (w.setLists chunk lists).containers other = w.containers other := Function.update_of_ne h _ _

theorem setLists_pos (chunk other : Nat) (lists : ∀ kind, TickList (T kind)) :
    ((w.setLists chunk lists).containers other).pos = (w.containers other).pos := by
  by_cases h : other = chunk
  · rw [h, setLists_self]
  · rw [setLists_other lists h]

theorem setLists_lifecycle (chunk other : Nat) (lists : ∀ kind, TickList (T kind)) :
    ((w.setLists chunk lists).containers other).lifecycle = (w.containers other).lifecycle := by
  by_cases h : other = chunk
  · rw [h, setLists_self]
  · rw [setLists_other lists h]

theorem setLifecycle_self (chunk : Nat) (lifecycle : ChunkTickContainerLifecycle) :
    (w.setLifecycle chunk lifecycle).containers chunk = { w.containers chunk with lifecycle := lifecycle } :=
  Function.update_self _ _ _

theorem setLifecycle_other {chunk other : Nat} (lifecycle : ChunkTickContainerLifecycle) (h : other ≠ chunk) :
    (w.setLifecycle chunk lifecycle).containers other = w.containers other := Function.update_of_ne h _ _

namespace Indexed

theorem pos_unique (h : w.Indexed) {pos pos' : ChunkPos} {r r' : RegisteredChunkTicks}
    (hr : w.state.chunks.lookup pos = some r) (hr' : w.state.chunks.lookup pos' = some r')
    (hcontainer : r.container = r'.container) : pos = pos' := by
  rw [← (h.registration pos r hr).pos, hcontainer, (h.registration pos' r' hr').pos]

theorem relist (h : w.Indexed) {pos : ChunkPos} {r r' : RegisteredChunkTicks} (hr : w.state.chunks.lookup pos = some r)
    (lists : ∀ kind, TickList (T kind)) {s' : WorldTickSchedulerState} (hs' : s'.Sound)
    (hreplaces : w.state.Replaces s' pos (some r')) (hcontainer : r'.container = r.container)
    (hheads : ∀ kind, r'.head kind = (lists kind).head) : { w.setLists r.container lists with state := s' }.Indexed where
  sound := hs'
  registration p q hq := by
    dsimp only at hq
    rw [hreplaces.lookup] at hq
    by_cases hp : p = pos
    · rw [if_pos hp, Option.some.injEq] at hq
      subst hq
      have hold := h.registration pos r hr
      refine ⟨?_, ?_, fun kind => ?_⟩
      · rw [hcontainer, hp]
        exact (setLists_pos _ _ lists).trans hold.pos
      · rw [hcontainer]
        exact (setLists_lifecycle _ _ lists).trans hold.lifecycle
      · rw [hheads, hcontainer, setLists_self]
    · rw [if_neg hp] at hq
      have hne : q.container ≠ r.container := fun heq => hp (h.pos_unique hq hr heq)
      exact (h.registration p q hq).transfer (setLists_other lists hne) rfl
  registered chunk hlifecycle := by
    dsimp only at hlifecycle ⊢
    rw [setLists_lifecycle] at hlifecycle
    obtain ⟨q, hq, hchunk⟩ := h.registered chunk hlifecycle
    rw [setLists_pos, hreplaces.lookup]
    by_cases hp : (w.containers chunk).pos = pos
    · rw [if_pos hp]
      rw [hp, hr] at hq
      cases hq
      exact ⟨r', rfl, hcontainer.trans hchunk⟩
    · rw [if_neg hp]
      exact ⟨q, hq, hchunk⟩

theorem relist_unregistered (h : w.Indexed) {chunk : Nat} (hlifecycle : (w.containers chunk).lifecycle ≠ .registered)
    (lists : ∀ kind, TickList (T kind)) : (w.setLists chunk lists).Indexed where
  sound := h.sound
  registration p q hq := by
    have hold := h.registration p q hq
    have hne : q.container ≠ chunk := fun heq => hlifecycle (heq ▸ hold.lifecycle)
    exact hold.transfer (setLists_other lists hne) rfl
  registered other hother := by
    rw [setLists_lifecycle] at hother
    rw [setLists_pos]
    exact h.registered other hother

/-! ## The operations -/

theorem fresh (hstate : w.state = .new) (hnone : ∀ chunk, (w.containers chunk).lifecycle ≠ .registered) : w.Indexed where
  sound := by
    rw [hstate]
    refine ⟨fun pos r a hr => ?_, fun kind => ?_, fun pos pos' rank hpos => ?_⟩
    · cases hr
    · exact .empty
    · cases hpos
  registration pos r hr := by
    rw [hstate] at hr
    cases hr
  registered chunk hlifecycle := absurd hlifecycle (hnone chunk)

theorem registerChunk (h : w.Indexed) (chunk : Nat) :
    (w.registerChunk chunk).2.Indexed ∧
      ((w.registerChunk chunk).1 = .error (.error (.alreadyRegistered (w.containers chunk).pos)) ∨
        (w.registerChunk chunk).1 = .ok ()) ∧
      ((w.containers chunk).lifecycle = .prePublication → w.state.chunks.lookup (w.containers chunk).pos = none →
        (w.registerChunk chunk).1 = .ok ()) := by
  unfold WorldTickScheduler.registerChunk
  dsimp only
  by_cases hrefused : (w.containers chunk).lifecycle ≠ .prePublication ∨
      (w.state.chunks.lookup (w.containers chunk).pos).isSome = true
  · rw [if_pos hrefused]
    refine ⟨h, Or.inl rfl, fun hlifecycle hnone => ?_⟩
    rcases hrefused with hne | hsome
    · exact absurd hlifecycle hne
    · rw [hnone] at hsome
      cases hsome
  · rw [if_neg hrefused]
    rw [not_or, not_not, Option.not_isSome_iff_eq_none] at hrefused
    obtain ⟨hlifecycle, hnone⟩ := hrefused
    let r : RegisteredChunkTicks := ⟨chunk, fun kind => ((w.containers chunk).lists kind).head, none⟩
    have hreplaces := WorldTickSchedulerState.Replaces.insert w.state w.state.activeDeadlines (w.containers chunk).pos r
    refine ⟨⟨hreplaces.sound_of_inactive h.sound rfl hnone rfl, fun p q hq => ?_, fun other hother => ?_⟩, Or.inr rfl,
      fun _ _ => rfl⟩
    · have hq' : (w.state.chunks.insert (w.containers chunk).pos r).lookup p = some q := hq
      rw [WorldTickSchedulerState.lookup_insert_if] at hq'
      by_cases hp : p = (w.containers chunk).pos
      · rw [if_pos hp, Option.some.injEq] at hq'
        subst hq'
        refine ⟨?_, ?_, fun kind => ?_⟩
        · rw [setLifecycle_self, hp]
        · rw [setLifecycle_self]
        · rw [setLifecycle_self]
      · rw [if_neg hp] at hq'
        have hold := h.registration p q hq'
        have hne : q.container ≠ chunk := fun heq => hp (by rw [← hold.pos, heq])
        exact hold.transfer (setLifecycle_other _ hne) rfl
    · by_cases hchunk : other = chunk
      · subst hchunk
        refine ⟨r, ?_, rfl⟩
        rw [setLifecycle_self]
        exact AList.lookup_insert _
      · rw [setLifecycle_other _ hchunk] at hother ⊢
        obtain ⟨q, hq, hcontainer⟩ := h.registered other hother
        refine ⟨q, (WorldTickSchedulerState.lookup_insert_if _ _ _ _).trans ?_, hcontainer⟩
        rw [if_neg]
        · exact hq
        · intro hp
          rw [hp, hnone] at hq
          cases hq

theorem unpackChunk (h : w.Indexed) (pos : ChunkPos) (currentTick : Int) :
    (w.unpackChunk pos currentTick).2.Indexed ∧
      ((w.unpackChunk pos currentTick).1 = .ok () ∨
        w.state.chunks.lookup pos = none ∧ (w.unpackChunk pos currentTick).1 = .error (.error (.missingContainer pos))) := by
  unfold WorldTickScheduler.unpackChunk
  cases hr : w.state.chunks.lookup pos with
  | none => exact ⟨h, Or.inr ⟨rfl, rfl⟩⟩
  | some r =>
    dsimp only
    rw [if_neg (not_not.mpr (h.registration pos r hr).lifecycle)]
    let lists := fun kind => ((w.containers r.container).lists kind).unpack currentTick
    obtain ⟨s₁, hblock, hs₁, hreplaces₁⟩ := WorldTickSchedulerState.setHead_ok h.sound hr .block (lists .block).head
    have hr₁ : s₁.chunks.lookup pos = some (r.setHead .block (lists .block).head) := by
      rw [hreplaces₁.lookup, if_pos rfl]
    obtain ⟨s₂, hfluid, hs₂, hreplaces₂⟩ := WorldTickSchedulerState.setHead_ok hs₁ hr₁ .fluid (lists .fluid).head
    have hset : (do
        let s ← w.state.setHead pos .block (lists .block).head
        s.setHead pos .fluid (lists .fluid).head) = .ok s₂ := by
      rw [hblock]
      exact hfluid
    rw [hset]
    have hreplaces : w.state.Replaces s₂ pos
        (some ((r.setHead .block (lists .block).head).setHead .fluid (lists .fluid).head)) := by
      refine ⟨hreplaces₂.generation.trans hreplaces₁.generation, fun p => ?_⟩
      rw [hreplaces₂.lookup, hreplaces₁.lookup]
      split <;> rfl
    refine ⟨h.relist hr lists hs₂ hreplaces rfl fun kind => ?_, Or.inl rfl⟩
    cases kind with
    | block => rw [RegisteredChunkTicks.setHead_other (by decide), RegisteredChunkTicks.setHead_self]
    | fluid => rw [RegisteredChunkTicks.setHead_self]

theorem unregisterChunk (h : w.Indexed) (pos : ChunkPos) :
    (w.unregisterChunk pos).2.Indexed ∧ (w.unregisterChunk pos).1 = .ok () := by
  unfold WorldTickScheduler.unregisterChunk
  cases hr : w.state.chunks.lookup pos with
  | none => exact ⟨h, rfl⟩
  | some r =>
    obtain ⟨s', hremove, hs', hreplaces⟩ := WorldTickSchedulerState.removeChunk_ok h.sound hr
    dsimp only
    rw [hremove]
    refine ⟨⟨hs', fun p q hq => ?_, fun chunk hchunk => ?_⟩, rfl⟩
    · have hq' : s'.chunks.lookup p = some q := hq
      rw [hreplaces.lookup] at hq'
      by_cases hp : p = pos
      · rw [if_pos hp] at hq'
        cases hq'
      · rw [if_neg hp] at hq'
        have hne : q.container ≠ r.container := fun heq => hp (h.pos_unique hq' hr heq)
        exact (h.registration p q hq').transfer (setLifecycle_other (w := w) .finalized hne) rfl
    · have hchunk' : ((w.setLifecycle r.container .finalized).containers chunk).lifecycle = .registered := hchunk
      by_cases hne : chunk = r.container
      · rw [hne, setLifecycle_self] at hchunk'
        cases hchunk'
      · rw [setLifecycle_other _ hne] at hchunk'
        obtain ⟨q, hq, hcontainer⟩ := h.registered chunk hchunk'
        refine ⟨q, ?_, hcontainer⟩
        show s'.chunks.lookup ((w.setLifecycle r.container .finalized).containers chunk).pos = some q
        rw [setLifecycle_other _ hne, hreplaces.lookup, if_neg]
        · exact hq
        · intro hp
          rw [hp, hr] at hq
          cases hq
          exact hne hcontainer.symm

theorem reconcileActiveChunks (h : w.Indexed) {activeChunks : List ChunkPos} (hnodup : activeChunks.Nodup) :
    (w.reconcileActiveChunks activeChunks).2.Indexed ∧
      ((w.reconcileActiveChunks activeChunks).1 = .ok () ∨
        ∃ pos ∈ activeChunks, w.state.chunks.lookup pos = none ∧
          (w.reconcileActiveChunks activeChunks).1 = .error (.error (.missingContainer pos))) := by
  unfold WorldTickScheduler.reconcileActiveChunks
  cases hfind : activeChunks.find? fun pos => (w.state.chunks.lookup pos).isNone with
  | some pos =>
    have hnone := List.find?_some hfind
    exact ⟨h, Or.inr ⟨pos, List.mem_of_find?_eq_some hfind, Option.isNone_iff_eq_none.mp hnone, rfl⟩⟩
  | none =>
    rw [List.find?_eq_none] at hfind
    dsimp only
    obtain ⟨hs₁, hranks, hcontents₁⟩ := WorldTickSchedulerState.advance_ok h.sound rfl
    have hregistered : ∀ pos ∈ activeChunks, (({ w.state with activeDeadlines := fun _ => .empty } :
        WorldTickSchedulerState).advanceActiveGeneration.chunks.lookup pos).isSome := by
      intro pos hpos
      have hsome := hfind pos hpos
      rw [Option.isNone_iff_eq_none, ← Option.not_isSome_iff_eq_none, not_not] at hsome
      have hp := congrArg Option.isSome (hcontents₁ pos)
      rw [Option.isSome_map, Option.isSome_map] at hp
      rw [hp]
      exact hsome
    obtain ⟨s', hfold, hs', hcontents⟩ := WorldTickSchedulerState.activateAll_ok activeChunks hs₁ 0 hregistered hnodup
      (fun pos _ => hranks pos) fun p rank hp => by rw [hranks] at hp; cases hp
    rw [hfold]
    have hsame : ∀ p, (s'.chunks.lookup p).map WorldTickSchedulerState.contents =
        (w.state.chunks.lookup p).map WorldTickSchedulerState.contents := fun p => (hcontents p).trans (hcontents₁ p)
    refine ⟨⟨hs', fun p q hq => ?_, fun chunk hchunk => ?_⟩, Or.inl rfl⟩
    · have hp := hsame p
      rw [show s'.chunks.lookup p = some q from hq, Option.map_some] at hp
      obtain ⟨q₀, hq₀, heq⟩ := Option.map_eq_some_iff.mp hp.symm
      have hcontainer : q₀.container = q.container := congrArg Prod.fst heq
      exact (h.registration p q₀ hq₀).transfer (congrArg w.containers hcontainer.symm) (congrArg Prod.snd heq).symm
    · obtain ⟨q₀, hq₀, hcontainer⟩ := h.registered chunk hchunk
      have hp := hsame (w.containers chunk).pos
      rw [hq₀, Option.map_some] at hp
      obtain ⟨q, hq, heq⟩ := Option.map_eq_some_iff.mp hp
      exact ⟨q, hq, (congrArg Prod.fst heq).trans hcontainer⟩

/-! ## Scheduling -/

variable [∀ kind, TickKey (T kind)]

/-- No other failure of `schedule` is possible for a registered chunk, and none is a panic. -/
theorem schedule (h : w.Indexed) (kind : TickKind) (chunk : Nat) (tickType : T kind) (pos : BlockPos) (triggerTick : Int)
    (priority : TickPriority) (subTickOrder : Int) :
    let result := w.schedule kind chunk tickType pos triggerTick priority subTickOrder
    result.2.Indexed ∧ (∀ message, result.1 ≠ .error (.panicked message)) ∧
      ((w.containers chunk).lifecycle = .registered → ∃ added, result.1 = .ok added) := by
  intro result
  have hresult : result = w.schedule kind chunk tickType pos triggerTick priority subTickOrder := rfl
  clear_value result
  unfold WorldTickScheduler.schedule at hresult
  dsimp only at hresult
  cases hlist : ((w.containers chunk).lists kind).schedule tickType pos triggerTick priority subTickOrder with
  | mk list added =>
  rw [hlist] at hresult
  dsimp only at hresult
  let lists := Function.update (w.containers chunk).lists kind list
  by_cases hregistered : (w.containers chunk).lifecycle = .registered
  · obtain ⟨r, hr, hcontainer⟩ := h.registered chunk hregistered
    have hold := h.registration _ r hr
    have hheads : ∀ k, k ≠ kind → (lists k).head = r.head k := fun k hk => by
      rw [hold.heads, hcontainer]
      exact congrArg TickList.head (Function.update_of_ne hk _ _)
    have hself : (lists kind).head = list.head := congrArg TickList.head (Function.update_self _ _ _)
    rw [hregistered] at hresult
    dsimp only at hresult
    by_cases hadded : added = true
    · rw [hadded, if_neg (by decide)] at hresult
      have hkind : r.head kind = ((w.containers chunk).lists kind).head := by rw [hold.heads, hcontainer]
      by_cases hsame : list.head = ((w.containers chunk).lists kind).head
      · rw [if_pos hsame] at hresult
        subst hresult
        refine ⟨?_, fun message hmessage => (by cases hmessage), fun _ => ⟨true, rfl⟩⟩
        have hreplaces : w.state.Replaces w.state (w.containers chunk).pos (some r) :=
          ⟨rfl, fun p => by
            split
            · rename_i hp
              rw [hp, hr]
            · rfl⟩
        have hrelist := h.relist hr lists h.sound hreplaces rfl fun k => ?_
        · rw [hcontainer] at hrelist
          exact hrelist
        · by_cases hk : k = kind
          · subst hk
            rw [hself, hkind, hsame]
          · exact (hheads k hk).symm
      · rw [if_neg hsame, hr] at hresult
        dsimp only at hresult
        rw [if_neg (not_not.mpr hcontainer)] at hresult
        obtain ⟨s', hset, hs', hreplaces⟩ := WorldTickSchedulerState.setHead_ok h.sound hr kind list.head
        rw [hset] at hresult
        subst hresult
        refine ⟨?_, fun message hmessage => (by cases hmessage), fun _ => ⟨true, rfl⟩⟩
        have hrelist := h.relist hr lists hs' hreplaces rfl fun k => ?_
        · rw [hcontainer] at hrelist
          exact hrelist
        · by_cases hk : k = kind
          · subst hk
            rw [hself, RegisteredChunkTicks.setHead_self]
          · rw [hheads k hk, RegisteredChunkTicks.setHead_other hk]
    · rw [Bool.not_eq_true] at hadded
      rw [hadded, if_pos (by decide)] at hresult
      subst hresult
      exact ⟨h, fun message hmessage => (by cases hmessage), fun _ => ⟨false, rfl⟩⟩
  · have hrelist := h.relist_unregistered hregistered lists
    have hdone : result.2.Indexed ∧ ∀ message, result.1 ≠ .error (.panicked message) := by
      cases hlifecycle : (w.containers chunk).lifecycle with
      | registered => exact absurd hlifecycle hregistered
      | prePublication =>
        rw [hlifecycle] at hresult
        subst hresult
        exact ⟨hrelist, fun message hmessage => by cases hmessage⟩
      | finalized =>
        rw [hlifecycle] at hresult
        subst hresult
        exact ⟨h, fun message hmessage => by cases hmessage⟩
      | proto =>
        rw [hlifecycle] at hresult
        dsimp only at hresult
        split at hresult
        · subst hresult
          exact ⟨h, fun message hmessage => by cases hmessage⟩
        · split at hresult
          · subst hresult
            exact ⟨hrelist, fun message hmessage => by cases hmessage⟩
          · split at hresult
            · subst hresult
              exact ⟨hrelist, fun message hmessage => by cases hmessage⟩
            · rename_i r hr
              -- the container registered here is another one
              have hne : r.container ≠ chunk := by
                intro heq
                have hyes := (h.registration _ r hr).lifecycle
                rw [heq] at hyes
                exact hregistered hyes
              rw [if_pos hne] at hresult
              subst hresult
              exact ⟨hrelist, fun message hmessage => by cases hmessage⟩
    exact ⟨hdone.1, hdone.2, fun hyes => absurd hyes hregistered⟩

end Indexed

end WorldTickScheduler

end Foton
