import Foton.Tick.Collect

/-!
# The deadline index

The index of a kind holds the heads of the active chunks. Every update of the
index is an update of this map of heads at one position.
-/

namespace Foton

/-- The index `deadlines` holds the heads `heads`. -/
structure Indexes (deadlines : OrderedSet Deadline) (heads : ChunkPos → Option Int) : Prop where
  mem : ∀ d pos, toLex (d, PackedChunkPos.fromChunkPos pos) ∈ deadlines ↔ heads pos = some d
  packed : ∀ e, e ∈ deadlines → ∃ d pos, e = toLex (d, PackedChunkPos.fromChunkPos pos)

theorem deadline_inj {d d' : Int} {pos pos' : ChunkPos} :
    (toLex (d, PackedChunkPos.fromChunkPos pos) : Deadline) = toLex (d', PackedChunkPos.fromChunkPos pos') ↔
      d = d' ∧ pos = pos' := by
  rw [toLex_inj, Prod.mk.injEq, PackedChunkPos.fromChunkPos_inj]

namespace Indexes

variable {deadlines : OrderedSet Deadline} {heads : ChunkPos → Option Int}

theorem empty : Indexes .empty fun _ => none :=
  ⟨fun _ _ => ⟨fun h => absurd h OrderedSet.not_mem_empty, fun h => by cases h⟩,
    fun _ h => absurd h OrderedSet.not_mem_empty⟩

theorem remove (h : Indexes deadlines heads) {d : Int} {pos : ChunkPos} (hd : heads pos = some d) :
    Indexes (deadlines.remove (toLex (d, .fromChunkPos pos))).1 (Function.update heads pos none) where
  mem d' pos' := by
    rw [OrderedSet.mem_remove, h.mem, ne_eq, deadline_inj]
    by_cases hpos : pos' = pos
    · subst hpos
      rw [Function.update_self, hd, Option.some.injEq]
      refine ⟨fun ⟨hne, heq⟩ => absurd ⟨heq.symm, rfl⟩ hne, fun hnone => by cases hnone⟩
    · rw [Function.update_of_ne hpos]
      exact ⟨fun hmem => hmem.2, fun hmem => ⟨fun heq => hpos heq.2, hmem⟩⟩
  packed e he := h.packed e (OrderedSet.mem_remove.mp he).2

theorem insert (h : Indexes deadlines heads) {d : Int} {pos : ChunkPos} (hnone : heads pos = none) :
    Indexes (deadlines.insert (toLex (d, .fromChunkPos pos))).1 (Function.update heads pos (some d)) where
  mem d' pos' := by
    rw [OrderedSet.mem_insert, h.mem, deadline_inj]
    by_cases hpos : pos' = pos
    · subst hpos
      rw [Function.update_self, hnone, Option.some.injEq]
      exact ⟨fun hmem => hmem.elim (fun heq => heq.1.symm) fun hfalse => (by cases hfalse), fun heq => Or.inl ⟨heq.symm, rfl⟩⟩
    · rw [Function.update_of_ne hpos]
      exact ⟨fun hmem => hmem.elim (fun heq => absurd heq.2 hpos) id, Or.inr⟩
  packed e he := by
    rcases OrderedSet.mem_insert.mp he with rfl | he
    · exact ⟨d, pos, rfl⟩
    · exact h.packed e he

end Indexes

namespace WorldTickSchedulerState

variable {s : WorldTickSchedulerState} {kind : TickKind}

/-- The rank of an active chunk. -/
def rankAt (s : WorldTickSchedulerState) (pos : ChunkPos) : Option Nat :=
  (s.chunks.lookup pos).bind fun r => r.activeRank s.activeGeneration

/-- The head that the index holds for a record. -/
def indexedHead (generation : Nat) (kind : TickKind) (r : Option RegisteredChunkTicks) : Option Int :=
  r.bind fun r => if (r.activeRank generation).isSome then r.head kind else none

/-- The head of an active chunk. -/
def activeHead (s : WorldTickSchedulerState) (kind : TickKind) (pos : ChunkPos) : Option Int :=
  indexedHead s.activeGeneration kind (s.chunks.lookup pos)

structure Sound (s : WorldTickSchedulerState) : Prop where
  generation : ∀ pos r a, s.chunks.lookup pos = some r → r.active = some a → a.generation ≤ s.activeGeneration
  indexes : ∀ kind, Indexes (s.activeDeadlines kind) (s.activeHead kind)
  ranks : ∀ pos pos' rank, s.rankAt pos = some rank → s.rankAt pos' = some rank → pos = pos'

theorem removeDeadline_ok (s : WorldTickSchedulerState) (kind : TickKind) {heads : ChunkPos → Option Int}
    (h : Indexes (s.activeDeadlines kind) heads) (pos : ChunkPos) (message : String) : ∃ deadlines, s.removeDeadline kind (heads pos) pos message =
        .ok { s with activeDeadlines := Function.update s.activeDeadlines kind deadlines } ∧
      Indexes deadlines (Function.update heads pos none) := by
  unfold removeDeadline
  cases hd : heads pos with
  | none =>
    refine ⟨s.activeDeadlines kind, ?_, ?_⟩
    · rw [Function.update_eq_self]
    · rw [← hd, Function.update_eq_self]
      exact h
  | some d =>
    refine ⟨_, ?_, h.remove hd⟩
    dsimp only
    rw [if_pos (OrderedSet.remove_present ((h.mem d pos).mpr hd))]

theorem insertDeadline_ok (s : WorldTickSchedulerState) (kind : TickKind) {heads : ChunkPos → Option Int}
    (h : Indexes (s.activeDeadlines kind) heads) (head : Option Int) {pos : ChunkPos} (hnone : heads pos = none) (message : String) :
    ∃ deadlines, s.insertDeadline kind head pos message =
        .ok { s with activeDeadlines := Function.update s.activeDeadlines kind deadlines } ∧
      Indexes deadlines (Function.update heads pos head) := by
  unfold insertDeadline
  cases head with
  | none =>
    refine ⟨s.activeDeadlines kind, ?_, ?_⟩
    · rw [Function.update_eq_self]
    · rw [← hnone, Function.update_eq_self]
      exact h
  | some d =>
    refine ⟨_, ?_, h.insert hnone⟩
    dsimp only
    rw [if_pos (OrderedSet.insert_new fun hmem => by
      rw [h.mem, hnone] at hmem
      cases hmem)]

/-! ## One chunk changes -/

/-- `s'` is `s` with the record `r`, or none, at `pos`. -/
structure Replaces (s s' : WorldTickSchedulerState) (pos : ChunkPos) (r : Option RegisteredChunkTicks) : Prop where
  generation : s'.activeGeneration = s.activeGeneration
  lookup : ∀ p, s'.chunks.lookup p = if p = pos then r else s.chunks.lookup p

theorem lookup_insert_if (chunks : AList fun _ : ChunkPos => RegisteredChunkTicks) (pos p : ChunkPos)
    (r : RegisteredChunkTicks) : (chunks.insert pos r).lookup p = if p = pos then some r else chunks.lookup p := by
  by_cases h : p = pos
  · rw [if_pos h, h, AList.lookup_insert]
  · rw [if_neg h, AList.lookup_insert_ne h]

namespace Replaces

variable {s' : WorldTickSchedulerState} {pos : ChunkPos} {r : Option RegisteredChunkTicks}

theorem insert (s : WorldTickSchedulerState) (deadlines : TickKind → OrderedSet Deadline) (pos : ChunkPos)
    (r : RegisteredChunkTicks) :
    Replaces s { s with chunks := s.chunks.insert pos r, activeDeadlines := deadlines } pos (some r) :=
  ⟨rfl, fun p => lookup_insert_if s.chunks pos p r⟩

theorem activeHead (h : Replaces s s' pos r) (kind : TickKind) :
    s'.activeHead kind = Function.update (s.activeHead kind) pos (indexedHead s.activeGeneration kind r) := by
  funext p
  unfold WorldTickSchedulerState.activeHead
  rw [h.lookup, h.generation]
  by_cases hp : p = pos
  · subst hp
    rw [if_pos rfl, Function.update_self]
  · rw [if_neg hp, Function.update_of_ne hp]

theorem rankAt (h : Replaces s s' pos r) (p : ChunkPos) :
    s'.rankAt p = if p = pos then r.bind fun r => r.activeRank s.activeGeneration else s.rankAt p := by
  unfold WorldTickSchedulerState.rankAt
  rw [h.lookup, h.generation]
  split <;> rfl

theorem sound (h : Replaces s s' pos r) (hs : s.Sound)
    (hgeneration : ∀ r' a, r = some r' → r'.active = some a → a.generation ≤ s.activeGeneration)
    (hranks : ∀ r' rank, r = some r' → r'.activeRank s.activeGeneration = some rank →
      ∀ p, s.rankAt p = some rank → p = pos)
    (hindexes : ∀ kind, Indexes (s'.activeDeadlines kind)
      (Function.update (s.activeHead kind) pos (indexedHead s.activeGeneration kind r))) : s'.Sound where
  generation p r' a hp ha := by
    rw [h.lookup] at hp
    rw [h.generation]
    by_cases hpos : p = pos
    · rw [if_pos hpos] at hp
      exact hgeneration r' a hp ha
    · rw [if_neg hpos] at hp
      exact hs.generation p r' a hp ha
  indexes kind := by
    rw [h.activeHead]
    exact hindexes kind
  ranks p p' rank hp hp' := by
    rw [h.rankAt] at hp hp'
    have hnew : ∀ q, (r.bind fun r => r.activeRank s.activeGeneration) = some rank → s.rankAt q = some rank → q = pos := by
      intro q hr hq
      obtain ⟨r', hr', hrank⟩ := Option.bind_eq_some_iff.mp hr
      exact hranks r' rank hr' hrank q hq
    by_cases hpos : p = pos
    · by_cases hpos' : p' = pos
      · rw [hpos, hpos']
      · rw [if_pos hpos] at hp
        rw [if_neg hpos'] at hp'
        rw [hpos, hnew p' hp hp']
    · rw [if_neg hpos] at hp
      by_cases hpos' : p' = pos
      · rw [if_pos hpos'] at hp'
        rw [hpos', hnew p hp' hp]
      · rw [if_neg hpos'] at hp'
        exact hs.ranks p p' rank hp hp'

theorem sound_of_active {r₀ r₁ : RegisteredChunkTicks} (h : Replaces s s' pos (some r₁)) (hs : s.Sound)
    (hr₀ : s.chunks.lookup pos = some r₀) (hactive : r₁.active = r₀.active)
    (hindexes : ∀ kind, Indexes (s'.activeDeadlines kind)
      (Function.update (s.activeHead kind) pos (indexedHead s.activeGeneration kind (some r₁)))) : s'.Sound := by
  refine h.sound hs (fun r' a hr' ha => ?_) (fun r' rank hr' hrank p hp => ?_) hindexes
  · cases hr'
    rw [hactive] at ha
    exact hs.generation pos r₀ a hr₀ ha
  · cases hr'
    refine hs.ranks p pos rank hp ?_
    unfold WorldTickSchedulerState.rankAt
    rw [hr₀, Option.bind_some, ← hrank]
    unfold RegisteredChunkTicks.activeRank
    rw [hactive]

end Replaces

theorem activeHead_of_lookup (kind : TickKind) {pos : ChunkPos} {r : RegisteredChunkTicks} (hr : s.chunks.lookup pos = some r) :
    s.activeHead kind pos = if (r.activeRank s.activeGeneration).isSome then r.head kind else none := by
  unfold activeHead
  rw [hr]
  rfl

theorem indexedHead_some {generation : Nat} {r : RegisteredChunkTicks} :
    indexedHead generation kind (some r) = if (r.activeRank generation).isSome then r.head kind else none := rfl

/-- `set_head` succeeds on a registered chunk and changes nothing but its head. -/
theorem setHead_ok (hs : s.Sound) {pos : ChunkPos} {r : RegisteredChunkTicks} (hr : s.chunks.lookup pos = some r)
    (kind : TickKind) (triggerTick : Option Int) :
    ∃ s', s.setHead pos kind triggerTick = .ok s' ∧ s'.Sound ∧ Replaces s s' pos (some (r.setHead kind triggerTick)) := by
  unfold setHead
  rw [hr]
  dsimp only
  by_cases hsame : r.head kind = triggerTick
  · rw [if_pos hsame]
    refine ⟨s, rfl, hs, rfl, fun p => ?_⟩
    rw [← hsame, RegisteredChunkTicks.setHead_head]
    split
    · rename_i hp
      rw [hp, hr]
    · rfl
  · rw [if_neg hsame]
    have hhead := activeHead_of_lookup kind hr
    by_cases hactive : (r.activeRank s.activeGeneration).isSome = true
    · rw [if_pos hactive] at hhead ⊢
      obtain ⟨removed, hremove, hindexes⟩ := removeDeadline_ok s kind (hs.indexes kind) pos
        "active scheduled-tick head was absent from its deadline index"
      rw [hhead] at hremove
      rw [hremove]
      dsimp only [bind, Except.bind]
      let s₁ : WorldTickSchedulerState := { s with
        activeDeadlines := Function.update s.activeDeadlines kind removed
        chunks := s.chunks.insert pos (r.setHead kind triggerTick) }
      have hremoved : Indexes (s₁.activeDeadlines kind) (Function.update (s.activeHead kind) pos none) := by
        rw [show s₁.activeDeadlines kind = removed from Function.update_self _ _ _]
        exact hindexes
      obtain ⟨inserted, hinsert, hindexes⟩ := insertDeadline_ok s₁ kind hremoved triggerTick
        (Function.update_self pos _ _) "active scheduled-tick deadline was already indexed"
      rw [hinsert]
      rw [Function.update_idem] at hindexes
      have hreplaces := Replaces.insert s (Function.update (Function.update s.activeDeadlines kind removed) kind inserted)
        pos (r.setHead kind triggerTick)
      refine ⟨_, rfl, hreplaces.sound_of_active hs hr rfl fun k => ?_, hreplaces⟩
      rw [indexedHead_some, RegisteredChunkTicks.setHead_activeRank, if_pos hactive]
      by_cases hk : k = kind
      · subst hk
        dsimp only
        rw [Function.update_self, RegisteredChunkTicks.setHead_self]
        exact hindexes
      · dsimp only
        rw [Function.update_of_ne hk, Function.update_of_ne hk, RegisteredChunkTicks.setHead_other hk]
        have hk' := activeHead_of_lookup k hr
        rw [if_pos hactive] at hk'
        rw [← hk', Function.update_eq_self]
        exact hs.indexes k
    · rw [if_neg hactive] at hhead ⊢
      have hreplaces := Replaces.insert s s.activeDeadlines pos (r.setHead kind triggerTick)
      refine ⟨_, rfl, hreplaces.sound_of_active hs hr rfl fun k => ?_, hreplaces⟩
      have hk := activeHead_of_lookup k hr
      rw [indexedHead_some, RegisteredChunkTicks.setHead_activeRank, if_neg hactive]
      rw [if_neg hactive] at hk
      rw [← hk, Function.update_eq_self]
      exact hs.indexes k

/-! ## Taking the due chunks -/

/-- What a turn of `take_due` finds when a head is due. -/
structure Taken (s s' : WorldTickSchedulerState) (kind : TickKind) (currentTick : Int) (a : ActiveTickContainer)
    (r : RegisteredChunkTicks) : Prop where
  lookup : s.chunks.lookup a.pos = some r
  rank : r.activeRank s.activeGeneration = some a.rank
  container : a.container = r.container
  due : ∃ d, r.head kind = some d ∧ d ≤ currentTick
  replaces : Replaces s s' a.pos (some (r.setHead kind none))

theorem head_of_activeHead {pos : ChunkPos} {d : Int} (h : s.activeHead kind pos = some d) :
    ∃ r rank, s.chunks.lookup pos = some r ∧ r.activeRank s.activeGeneration = some rank ∧ r.head kind = some d := by
  unfold activeHead at h
  cases hr : s.chunks.lookup pos with
  | none => rw [hr] at h; cases h
  | some r =>
    rw [hr, indexedHead_some] at h
    cases hrank : r.activeRank s.activeGeneration with
    | none => rw [hrank] at h; cases h
    | some rank =>
      rw [hrank, Option.isSome_some, if_pos rfl] at h
      exact ⟨r, rank, rfl, hrank, h⟩

theorem takeNext_ok (hs : s.Sound) (kind : TickKind) (currentTick : Int) :
    s.takeNext kind currentTick = .ok none ∧ (∀ pos d, s.activeHead kind pos = some d → currentTick < d) ∨
      ∃ a s' r, s.takeNext kind currentTick = .ok (some (a, s')) ∧ s'.Sound ∧ Taken s s' kind currentTick a r := by
  unfold takeNext
  cases hfirst : (s.activeDeadlines kind).first with
  | none =>
    rw [OrderedSet.popFirst_eq_none hfirst]
    refine Or.inl ⟨rfl, fun pos d hd => ?_⟩
    exact absurd (((hs.indexes kind).mem d pos).mpr hd) (OrderedSet.first_eq_none hfirst)
  | some e =>
    obtain ⟨d, pos, he⟩ := (hs.indexes kind).packed e (OrderedSet.first_mem hfirst)
    have htrigger : (ofLex e).1 = d := by rw [he]; rfl
    have hpacked : (ofLex e).2 = .fromChunkPos pos := by rw [he]; rfl
    rw [OrderedSet.popFirst_eq hfirst]
    dsimp only
    rw [htrigger, hpacked]
    rw [he] at hfirst ⊢
    by_cases hd : d > currentTick
    · rw [if_pos hd]
      refine Or.inl ⟨rfl, fun pos' d' hd' => lt_of_lt_of_le hd ?_⟩
      have hle := OrderedSet.first_le hfirst (((hs.indexes kind).mem d' pos').mpr hd')
      rw [Prod.Lex.toLex_le_toLex] at hle
      exact hle.elim le_of_lt fun h => le_of_eq h.1
    · rw [if_neg hd]
      have hhead := ((hs.indexes kind).mem d pos).mp (OrderedSet.first_mem hfirst)
      obtain ⟨r, rank, hr, hrank, hrhead⟩ := head_of_activeHead hhead
      rw [PackedChunkPos.toChunkPos_fromChunkPos, hr]
      dsimp only
      rw [if_neg (not_not.mpr hrhead), hrank]
      have hreplaces := Replaces.insert s (Function.update s.activeDeadlines kind
        ((s.activeDeadlines kind).remove (toLex (d, .fromChunkPos pos))).1) pos (r.setHead kind none)
      refine Or.inr ⟨⟨pos, rank, r.container⟩, _, r, rfl, hreplaces.sound_of_active hs hr rfl fun k => ?_,
        ⟨hr, hrank, rfl, ⟨d, hrhead, not_lt.mp hd⟩, hreplaces⟩⟩
      rw [indexedHead_some, RegisteredChunkTicks.setHead_activeRank, hrank, Option.isSome_some, if_pos rfl]
      by_cases hk : k = kind
      · subst hk
        dsimp only
        rw [Function.update_self, RegisteredChunkTicks.setHead_self]
        exact (hs.indexes k).remove hhead
      · dsimp only
        rw [Function.update_of_ne hk, RegisteredChunkTicks.setHead_other hk]
        have hk' := activeHead_of_lookup k hr
        rw [hrank, Option.isSome_some, if_pos rfl] at hk'
        rw [← hk', Function.update_eq_self]
        exact hs.indexes k

/-- What `take_due` takes, and what it leaves. -/
structure TakesDue (s s' : WorldTickSchedulerState) (kind : TickKind) (currentTick : Int) (due : List ActiveTickContainer) :
    Prop where
  generation : s'.activeGeneration = s.activeGeneration
  lookup : ∀ p, s'.chunks.lookup p =
    (s.chunks.lookup p).map fun r => if p ∈ due.map ActiveTickContainer.pos then r.setHead kind none else r
  nodup : (due.map ActiveTickContainer.pos).Nodup
  registered : ∀ a ∈ due, ∃ r, s.chunks.lookup a.pos = some r ∧ r.activeRank s.activeGeneration = some a.rank ∧
    a.container = r.container ∧ ∃ d, r.head kind = some d ∧ d ≤ currentTick
  complete : ∀ pos d, s.activeHead kind pos = some d → d ≤ currentTick → pos ∈ due.map ActiveTickContainer.pos

theorem takeDue_ok (hs : s.Sound) (kind : TickKind) (currentTick : Int) :
    ∃ due s', s.takeDue kind currentTick = .ok (due, s') ∧ s'.Sound ∧ TakesDue s s' kind currentTick due := by
  induction hn : (s.activeDeadlines kind).toList.length using Nat.strong_induction_on generalizing s with
  | _ n ih =>
    rcases takeNext_ok hs kind currentTick with ⟨hnext, hnone⟩ | ⟨a, s₁, r, hnext, hs₁, htaken⟩
    · rw [takeDue, hnext]
      refine ⟨[], s, rfl, hs, rfl, fun p => ?_, List.nodup_nil, fun a ha => (by cases ha), fun pos d hd hle => ?_⟩
      · cases s.chunks.lookup p <;> rfl
      · exact absurd hle (not_le.mpr (hnone pos d hd))
    · have hlt := takeNext_shrinks hnext
      rw [hn] at hlt
      obtain ⟨due, s', hdue, hs', htakes⟩ := ih _ hlt hs₁ rfl
      rw [takeDue, hnext]
      dsimp only
      rw [hdue]
      have hfresh : a.pos ∉ due.map ActiveTickContainer.pos := by
        intro hmem
        obtain ⟨b, hb, hpos⟩ := List.mem_map.mp hmem
        obtain ⟨rb, hrb, -, -, d, hd, -⟩ := htakes.registered b hb
        rw [htaken.replaces.lookup, if_pos hpos, Option.some.injEq] at hrb
        rw [← hrb, RegisteredChunkTicks.setHead_self] at hd
        cases hd
      refine ⟨a :: due, s', rfl, hs', ?_, fun p => ?_, ?_, fun b hb => ?_, fun pos d hd hle => ?_⟩
      · rw [htakes.generation, htaken.replaces.generation]
      · rw [htakes.lookup, htaken.replaces.lookup, List.map_cons]
        by_cases hp : p = a.pos
        · rw [if_pos hp, hp, htaken.lookup, Option.map_some, Option.map_some, if_neg hfresh,
            if_pos List.mem_cons_self]
        · rw [if_neg hp]
          refine congrArg (fun f => (s.chunks.lookup p).map f) (funext fun r' => ?_)
          refine if_congr ?_ rfl rfl
          rw [List.mem_cons, or_iff_right hp]
      · rw [List.map_cons, List.nodup_cons]
        exact ⟨hfresh, htakes.nodup⟩
      · rcases List.mem_cons.mp hb with rfl | hb
        · exact ⟨r, htaken.lookup, htaken.rank, htaken.container, htaken.due⟩
        · obtain ⟨rb, hrb, hrank, hcontainer, hd⟩ := htakes.registered b hb
          have hne : b.pos ≠ a.pos := fun heq => hfresh (List.mem_map.mpr ⟨b, hb, heq⟩)
          rw [htaken.replaces.lookup, if_neg hne] at hrb
          rw [htaken.replaces.generation] at hrank
          exact ⟨rb, hrb, hrank, hcontainer, hd⟩
      · rw [List.map_cons, List.mem_cons]
        by_cases hp : pos = a.pos
        · exact Or.inl hp
        · refine Or.inr (htakes.complete pos d ?_ hle)
          rw [htaken.replaces.activeHead, Function.update_of_ne hp]
          exact hd

/-! ## Giving the heads back -/

theorem setHeads_ok (kind : TickKind) (updates : List TickHeadUpdate) (hs : s.Sound)
    (hregistered : ∀ u ∈ updates, (s.chunks.lookup u.pos).isSome) (hnodup : (updates.map TickHeadUpdate.pos).Nodup) :
    ∃ s', updates.foldlM (fun s (u : TickHeadUpdate) => s.setHead u.pos kind u.triggerTick) s = .ok s' ∧ s'.Sound ∧
      s'.activeGeneration = s.activeGeneration ∧
      (∀ u ∈ updates, s'.chunks.lookup u.pos = (s.chunks.lookup u.pos).map fun r => r.setHead kind u.triggerTick) ∧
      ∀ p, p ∉ updates.map TickHeadUpdate.pos → s'.chunks.lookup p = s.chunks.lookup p := by
  induction updates generalizing s with
  | nil => exact ⟨s, rfl, hs, rfl, fun u hu => (by cases hu), fun _ _ => rfl⟩
  | cons u rest ih =>
    obtain ⟨r, hr⟩ := Option.isSome_iff_exists.mp (hregistered u List.mem_cons_self)
    obtain ⟨s₁, hset, hs₁, hreplaces⟩ := setHead_ok hs hr kind u.triggerTick
    rw [List.map_cons, List.nodup_cons] at hnodup
    have hne : ∀ v ∈ rest, v.pos ≠ u.pos := fun v hv heq => hnodup.1 (List.mem_map.mpr ⟨v, hv, heq⟩)
    have hregistered₁ : ∀ v ∈ rest, (s₁.chunks.lookup v.pos).isSome := by
      intro v hv
      rw [hreplaces.lookup, if_neg (hne v hv)]
      exact hregistered v (List.mem_cons_of_mem _ hv)
    obtain ⟨s', hrest, hs', hgen, hupdated, hother⟩ := ih hs₁ hregistered₁ hnodup.2
    refine ⟨s', ?_, hs', hgen.trans hreplaces.generation, fun v hv => ?_, fun p hp => ?_⟩
    · rw [List.foldlM_cons, hset]
      exact hrest
    · rcases List.mem_cons.mp hv with rfl | hv
      · rw [hother v.pos hnodup.1, hreplaces.lookup, if_pos rfl, hr]
        rfl
      · rw [hupdated v hv, hreplaces.lookup, if_neg (hne v hv)]
    · rw [List.map_cons, List.mem_cons, not_or] at hp
      rw [hother p hp.2, hreplaces.lookup, if_neg hp.1]

/-! ## Registration -/

theorem activeHead_of_rank {pos : ChunkPos} (h : s.rankAt pos = none) : s.activeHead kind pos = none := by
  unfold rankAt at h
  unfold activeHead
  cases hr : s.chunks.lookup pos with
  | none => rfl
  | some r =>
    rw [hr, Option.bind_some] at h
    rw [indexedHead_some, h]
    rfl

theorem Replaces.sound_of_inactive {s' : WorldTickSchedulerState} {pos : ChunkPos} {r : RegisteredChunkTicks}
    (h : Replaces s s' pos (some r)) (hs : s.Sound) (hactive : r.active = none) (hnone : s.chunks.lookup pos = none)
    (hsame : s'.activeDeadlines = s.activeDeadlines) : s'.Sound := by
  have hrank : r.activeRank s.activeGeneration = none := by rw [RegisteredChunkTicks.activeRank, hactive]
  refine h.sound hs (fun r' a hr' ha => ?_) (fun r' rank hr' ha => ?_) fun kind => ?_
  · cases hr'
    rw [hactive] at ha
    cases ha
  · cases hr'
    rw [hrank] at ha
    cases ha
  · have hhead : s.activeHead kind pos = none := by
      unfold WorldTickSchedulerState.activeHead
      rw [hnone]
      rfl
    rw [indexedHead_some, hrank, hsame, Option.isSome_none, if_neg Bool.false_ne_true, ← hhead, Function.update_eq_self]
    exact hs.indexes kind

theorem removeChunk_ok (hs : s.Sound) {pos : ChunkPos} {r : RegisteredChunkTicks} (hr : s.chunks.lookup pos = some r) :
    ∃ s', s.removeChunk pos r = .ok s' ∧ s'.Sound ∧ Replaces s s' pos none := by
  have hlookup : ∀ p, (s.chunks.erase pos).lookup p = if p = pos then none else s.chunks.lookup p := by
    intro p
    by_cases hp : p = pos
    · rw [if_pos hp, hp, AList.lookup_erase]
    · rw [if_neg hp, AList.lookup_erase_ne hp]
  have hsound : ∀ s' : WorldTickSchedulerState, Replaces s s' pos none →
      (∀ kind, Indexes (s'.activeDeadlines kind) (Function.update (s.activeHead kind) pos none)) → s'.Sound :=
    fun s' hreplaces hindexes => hreplaces.sound hs (fun r' a hr' => by cases hr') (fun r' rank hr' => by cases hr') hindexes
  unfold removeChunk
  by_cases hactive : (r.activeRank s.activeGeneration).isSome = true
  · have hhead : ∀ kind, s.activeHead kind pos = r.head kind := fun kind => by
      rw [activeHead_of_lookup kind hr, if_pos hactive]
    let removed : WorldTickSchedulerState := { s with chunks := s.chunks.erase pos }
    obtain ⟨block, hblock, hblocks⟩ := removeDeadline_ok removed .block (hs.indexes .block) pos
      "unloaded active block-tick head was absent from its deadline index"
    have hother : Indexes (Function.update s.activeDeadlines .block block .fluid) (s.activeHead .fluid) := by
      rw [Function.update_of_ne (by decide)]
      exact hs.indexes .fluid
    obtain ⟨fluid, hfluid, hfluids⟩ := removeDeadline_ok
      { removed with activeDeadlines := Function.update s.activeDeadlines .block block } .fluid hother pos
      "unloaded active fluid-tick head was absent from its deadline index"
    rw [hhead] at hblock hfluid
    dsimp only
    rw [if_pos hactive, hblock]
    refine ⟨_, hfluid, hsound _ ⟨rfl, hlookup⟩ fun kind => ?_, rfl, hlookup⟩
    dsimp only
    cases kind with
    | block =>
      rw [Function.update_of_ne (by decide), Function.update_self]
      exact hblocks
    | fluid =>
      rw [Function.update_self]
      exact hfluids
  · dsimp only
    rw [if_neg hactive]
    refine ⟨_, rfl, hsound _ ⟨rfl, hlookup⟩ fun kind => ?_, rfl, hlookup⟩
    have hhead : s.activeHead kind pos = none := by rw [activeHead_of_lookup kind hr, if_neg hactive]
    rw [← hhead, Function.update_eq_self]
    exact hs.indexes kind

/-! ## Reconciliation -/

theorem activate_ok (hs : s.Sound) {pos : ChunkPos} {rank : Nat} {r : RegisteredChunkTicks}
    (hr : s.chunks.lookup pos = some r) (hinactive : s.rankAt pos = none) (hfresh : ∀ p, s.rankAt p ≠ some rank) :
    ∃ s', s.activate (pos, rank) = .ok s' ∧ s'.Sound ∧
      Replaces s s' pos (some { r with active := some ⟨s.activeGeneration, rank⟩ }) := by
  let r' : RegisteredChunkTicks := { r with active := some ⟨s.activeGeneration, rank⟩ }
  have hrank : r'.activeRank s.activeGeneration = some rank := if_pos rfl
  have hnone : r.activeRank s.activeGeneration = none := by
    unfold rankAt at hinactive
    rw [hr] at hinactive
    exact hinactive
  let inserted : WorldTickSchedulerState := { s with chunks := s.chunks.insert pos r' }
  obtain ⟨block, hblock, hblocks⟩ := insertDeadline_ok inserted .block (hs.indexes .block) (r.head .block)
    (activeHead_of_rank hinactive) "active block-tick chunk appeared twice during reconciliation"
  have hother : Indexes (Function.update s.activeDeadlines .block block .fluid) (s.activeHead .fluid) := by
    rw [Function.update_of_ne (by decide)]
    exact hs.indexes .fluid
  obtain ⟨fluid, hfluid, hfluids⟩ := insertDeadline_ok
    { inserted with activeDeadlines := Function.update s.activeDeadlines .block block } .fluid hother (r.head .fluid)
    (activeHead_of_rank hinactive) "active fluid-tick chunk appeared twice during reconciliation"
  have hreplaces := Replaces.insert s (Function.update (Function.update s.activeDeadlines .block block) .fluid fluid) pos r'
  unfold activate
  dsimp only
  rw [hr]
  dsimp only
  rw [hnone, if_neg (by decide), hblock]
  refine ⟨_, hfluid, hreplaces.sound hs (fun r₁ a hr₁ ha => ?_) (fun r₁ rank' hr₁ ha p hp => ?_) fun kind => ?_, hreplaces⟩
  · cases hr₁
    cases ha
    exact Nat.le_refl _
  · cases hr₁
    rw [hrank, Option.some.injEq] at ha
    rw [← ha] at hp
    exact absurd hp (hfresh p)
  · rw [indexedHead_some, hrank, Option.isSome_some, if_pos rfl]
    dsimp only
    cases kind with
    | block =>
      rw [Function.update_of_ne (by decide), Function.update_self]
      exact hblocks
    | fluid =>
      rw [Function.update_self]
      exact hfluids

/-- The parts of a record that reconciliation leaves alone. -/
def contents (r : RegisteredChunkTicks) : Nat × (TickKind → Option Int) := (r.container, r.head)

theorem lookup_deactivate (chunks : AList fun _ : ChunkPos => RegisteredChunkTicks) (pos p : ChunkPos) :
    (deactivate chunks pos).lookup p = (chunks.lookup p).map fun r => if p = pos then { r with active := none } else r := by
  unfold deactivate
  by_cases hp : p = pos
  · subst hp
    cases hr : chunks.lookup p with
    | none => exact hr
    | some r =>
      dsimp only
      rw [AList.lookup_insert, Option.map_some, if_pos rfl]
  · have hsame : (chunks.lookup p).map (fun r => if p = pos then { r with active := none } else r) = chunks.lookup p := by
      cases chunks.lookup p with
      | none => rfl
      | some r => rw [Option.map_some, if_neg hp]
    rw [hsame]
    split
    · exact AList.lookup_insert_ne hp
    · rfl

theorem lookup_deactivate_all (chunks : AList fun _ : ChunkPos => RegisteredChunkTicks) (keys : List ChunkPos) (p : ChunkPos) :
    (keys.foldl deactivate chunks).lookup p =
      (chunks.lookup p).map fun r => if p ∈ keys then { r with active := none } else r := by
  induction keys generalizing chunks with
  | nil =>
    cases h : chunks.lookup p with
    | none => exact h
    | some r => exact h
  | cons pos rest ih =>
    rw [List.foldl_cons, ih, lookup_deactivate, Option.map_map]
    refine congrArg (fun f => (chunks.lookup p).map f) (funext fun r => ?_)
    dsimp only [Function.comp_apply]
    by_cases hp : p = pos
    · rw [if_pos hp, if_pos (List.mem_cons.mpr (Or.inl hp))]
      split <;> rfl
    · rw [if_neg hp]
      exact if_congr (by rw [List.mem_cons, or_iff_right hp]) rfl rfl

theorem advance_ok (hs : s.Sound) {s' : WorldTickSchedulerState}
    (hs' : s' = ({ s with activeDeadlines := fun _ => .empty } : WorldTickSchedulerState).advanceActiveGeneration) :
    s'.Sound ∧ (∀ p, s'.rankAt p = none) ∧ ∀ p, (s'.chunks.lookup p).map contents = (s.chunks.lookup p).map contents := by
  have hsound : s'.activeDeadlines = (fun _ => .empty) → (∀ p, s'.rankAt p = none) →
      (∀ pos r a, s'.chunks.lookup pos = some r → r.active = some a → a.generation ≤ s'.activeGeneration) → s'.Sound := by
    intro hempty hranks hgeneration
    refine ⟨hgeneration, fun kind => ?_, fun pos pos' rank hpos => ?_⟩
    · rw [hempty, show s'.activeHead kind = fun _ => none from funext fun p => activeHead_of_rank (hranks p)]
      exact .empty
    · rw [hranks] at hpos
      cases hpos
  unfold advanceActiveGeneration at hs'
  dsimp only at hs'
  by_cases hlt : s.activeGeneration + 1 < 2 ^ 64
  · rw [if_pos hlt] at hs'
    subst hs'
    have hold : ∀ pos r a, s.chunks.lookup pos = some r → r.active = some a → a.generation < s.activeGeneration + 1 :=
      fun pos r a hr ha => Nat.lt_succ_of_le (hs.generation pos r a hr ha)
    have hranks : ∀ p, rankAt ⟨s.chunks, fun _ => .empty, s.activeGeneration + 1⟩ p = none := by
      intro p
      unfold rankAt
      cases hr : s.chunks.lookup p with
      | none => rfl
      | some r =>
        dsimp only [Option.bind_some]
        unfold RegisteredChunkTicks.activeRank
        cases ha : r.active with
        | none => rfl
        | some a =>
          dsimp only
          rw [if_neg (Nat.ne_of_lt (hold p r a hr ha))]
    exact ⟨hsound rfl hranks fun pos r a hr ha => Nat.le_of_lt (hold pos r a hr ha), hranks, fun _ => rfl⟩
  · rw [if_neg hlt] at hs'
    subst hs'
    have hlookup : ∀ p, (s.chunks.keys.foldl deactivate s.chunks).lookup p =
        (s.chunks.lookup p).map fun r => { r with active := none } := by
      intro p
      rw [lookup_deactivate_all]
      cases hr : s.chunks.lookup p with
      | none => rfl
      | some r =>
        have hmem : p ∈ s.chunks.keys := by
          rw [← AList.mem_keys, ← AList.lookup_isSome, hr]
          rfl
        rw [Option.map_some, Option.map_some, if_pos hmem]
    have hactive : ∀ p r, (s.chunks.keys.foldl deactivate s.chunks).lookup p = some r → r.active = none := by
      intro p r hr
      rw [hlookup] at hr
      obtain ⟨r₀, -, rfl⟩ := Option.map_eq_some_iff.mp hr
      rfl
    have hranks : ∀ p, rankAt ⟨s.chunks.keys.foldl deactivate s.chunks, fun _ => .empty, 1⟩ p = none := by
      intro p
      unfold rankAt
      cases hr : (s.chunks.keys.foldl deactivate s.chunks).lookup p with
      | none => rfl
      | some r =>
        dsimp only [Option.bind_some]
        rw [RegisteredChunkTicks.activeRank, hactive p r hr]
    refine ⟨hsound rfl hranks fun pos r a hr ha => ?_, hranks, fun p => ?_⟩
    · rw [hactive pos r hr] at ha
      cases ha
    · rw [hlookup, Option.map_map]
      rfl

theorem activateAll_ok (positions : List ChunkPos) (hs : s.Sound) (base : Nat)
    (hregistered : ∀ pos ∈ positions, (s.chunks.lookup pos).isSome) (hnodup : positions.Nodup)
    (hinactive : ∀ pos ∈ positions, s.rankAt pos = none) (hbase : ∀ p rank, s.rankAt p = some rank → rank < base) :
    ∃ s', (positions.zipIdx base).foldlM activate s = .ok s' ∧ s'.Sound ∧
      ∀ p, (s'.chunks.lookup p).map contents = (s.chunks.lookup p).map contents := by
  induction positions generalizing s base with
  | nil => exact ⟨s, rfl, hs, fun _ => rfl⟩
  | cons pos rest ih =>
    obtain ⟨r, hr⟩ := Option.isSome_iff_exists.mp (hregistered pos List.mem_cons_self)
    rw [List.nodup_cons] at hnodup
    have hfresh : ∀ p, s.rankAt p ≠ some base := fun p hp => Nat.lt_irrefl _ (hbase p base hp)
    obtain ⟨s₁, hactivate, hs₁, hreplaces⟩ := activate_ok hs hr (hinactive pos List.mem_cons_self) hfresh
    have hne : ∀ p ∈ rest, p ≠ pos := fun p hp heq => hnodup.1 (heq ▸ hp)
    have hrest := ih hs₁ (base + 1) (fun p hp => ?_) hnodup.2 (fun p hp => ?_) fun p rank hp => ?_
    · obtain ⟨s', hfold, hs', hcontents⟩ := hrest
      refine ⟨s', ?_, hs', fun p => ?_⟩
      · rw [List.zipIdx_cons, List.foldlM_cons, hactivate]
        exact hfold
      · rw [hcontents, hreplaces.lookup]
        split
        · rename_i hp
          rw [hp, hr]
          rfl
        · rfl
    · rw [hreplaces.lookup, if_neg (hne p hp)]
      exact hregistered p (List.mem_cons_of_mem _ hp)
    · rw [hreplaces.rankAt, if_neg (hne p hp)]
      exact hinactive p (List.mem_cons_of_mem _ hp)
    · rw [hreplaces.rankAt] at hp
      split at hp
      · rw [Option.bind_some, RegisteredChunkTicks.activeRank] at hp
        dsimp only at hp
        rw [if_pos rfl, Option.some.injEq] at hp
        rw [← hp]
        exact Nat.lt_succ_self _
      · exact Nat.lt_succ_of_lt (hbase p rank hp)

end WorldTickSchedulerState

end Foton
