import Foton.Light.Chunk
import Foton.Light.Incremental

/-!
# A chunk that trusts its neighbors

The sources of the reset chunk are seeded, and the levels of the neighbors'
edges are pulled in. Then what the neighbors give to the chunk has an entry,
and the increase pass leaves the right levels.
-/

namespace Foton.Light

namespace LightWindow

variable {w : LightWindow} {base levels : BlockPos → Nat} {seen : BlockPos → Prop} {e : LightEdit} {p : BlockPos}

/-- The sources that have been seeded stand at their emission, and have an entry. -/
structure Seeded (w : LightWindow) (base : BlockPos → Nat) (seen : BlockPos → Prop) (e : LightEdit) : Prop where
  lit : ∀ p, seen p → e.levels p = w.emission p
  kept : ∀ p, ¬ seen p → e.levels p = base p
  entries : ∀ entry ∈ e.increase, ∃ p, w.layout.inside p ∧ entry ∈ w.sourceEntry p
  sources : ∀ p, seen p → ∀ entry ∈ w.sourceEntry p, entry ∈ e.increase
  decrease : e.decrease = []

theorem seedBlockLightSource_seeded (h : w.Seeded base seen e) (hp : w.layout.inside p) (hbase : base p = 0) :
    w.Seeded base (fun q => seen q ∨ q = p) (w.seedBlockLightSource e p) := by
  have hget : e.get w.layout p = e.levels p := if_pos hp
  unfold seedBlockLightSource
  rw [if_neg (by simp [LightCacheLayout.cached_of_inside hp])]
  dsimp only
  rw [hget]
  split
  next hlit =>
    -- the source was seeded before, or it emits nothing
    have hlevel : e.levels p = w.emission p ∧ (¬ seen p → w.emission p = 0) := by
      by_cases hseen : seen p
      · exact ⟨h.lit p hseen, fun hno => absurd hseen hno⟩
      · rw [h.kept p hseen, hbase] at hlit ⊢
        exact ⟨by omega, fun _ => by omega⟩
    refine ⟨?_, fun q hq => h.kept q fun hseen => hq (Or.inl hseen), h.entries, ?_, h.decrease⟩
    · rintro q (hseen | rfl)
      · exact h.lit q hseen
      · exact hlevel.1
    · rintro q (hseen | rfl) entry hentry
      · exact h.sources q hseen entry hentry
      · by_cases hseen : seen q
        · exact h.sources q hseen entry hentry
        · simp [sourceEntry, hlevel.2 hseen] at hentry
  next hdark =>
    have hemission : w.emission p ≠ 0 := by omega
    have hentry : w.sourceEntry p = [⟨p, w.emission p, LightAxisDirection.all, w.shapeFlags p⟩] := if_pos hemission
    rw [LightEdit.enqueueIncrease, if_pos (LightCacheLayout.encodes_of_inside hp), LightEdit.set, if_pos hp, ← hentry]
    refine ⟨?_, fun q hq => ?_, fun entry hin => ?_, ?_, h.decrease⟩
    · rintro q hq
      by_cases hqp : q = p
      · simp [hqp]
      · simpa [hqp] using h.lit q (hq.resolve_right hqp)
    · have hqp : q ≠ p := fun heq => hq (Or.inr heq)
      simpa [hqp] using h.kept q fun hseen => hq (Or.inl hseen)
    · rcases List.mem_append.mp hin with hold | hnew
      · exact h.entries entry hold
      · exact ⟨p, hp, hnew⟩
    · rintro q (hseen | rfl) entry hin
      · exact List.mem_append_left _ (h.sources q hseen entry hin)
      · exact List.mem_append_right _ hin

theorem foldl_seedBlockLightSource_seeded (sources : List BlockPos) (hsources : ∀ p ∈ sources, w.layout.inside p)
    (hbase : ∀ p ∈ sources, base p = 0) (h : w.Seeded base seen e) :
    w.Seeded base (fun q => seen q ∨ q ∈ sources) (sources.foldl w.seedBlockLightSource e) := by
  induction sources generalizing seen e with
  | nil => simpa using h
  | cons p sources ih =>
    have hnext := seedBlockLightSource_seeded h (hsources p List.mem_cons_self) (hbase p List.mem_cons_self)
    have hrest := ih (fun q hq => hsources q (List.mem_cons_of_mem _ hq)) (fun q hq => hbase q (List.mem_cons_of_mem _ hq))
      hnext
    simpa only [List.mem_cons, or_assoc, List.foldl_cons] using hrest

/-- The sources of the center chunk. -/
def ListsSources (w : LightWindow) (sources : List BlockPos) : Prop :=
  ∀ p, p ∈ sources ↔ w.layout.inside p ∧ w.layout.inCenter p ∧ 0 < w.emission p

def seeded (w : LightWindow) (levels : BlockPos → Nat) (sources : List BlockPos) : LightEdit :=
  sources.foldl w.seedBlockLightSource ⟨w.resetChunkSections levels, [], []⟩

variable {sources : List BlockPos}

theorem seeded_seeded (levels : BlockPos → Nat) (hsources : w.ListsSources sources) :
    w.Seeded (w.resetChunkSections levels) (· ∈ sources) (w.seeded levels sources) := by
  have hstart : w.Seeded (w.resetChunkSections levels) (fun _ => False) ⟨w.resetChunkSections levels, [], []⟩ :=
    ⟨by simp, by simp, by simp, by simp, rfl⟩
  have hdark : ∀ p ∈ sources, w.resetChunkSections levels p = 0 := fun p hp => if_pos ((hsources p).mp hp).2.1
  have hall := foldl_seedBlockLightSource_seeded sources (fun p hp => ((hsources p).mp hp).1) hdark hstart
  simp only [false_or] at hall
  exact hall

/-- What the neighbors give to the center chunk. -/
def Inward (w : LightWindow) (n p : BlockPos) : Prop := w.layout.outside n ∧ w.layout.inCenter p

/-- The center chunk is dark but for its sources, and around it the levels are right. -/
theorem seeded_rising (houtside : w.LightEquation w.layout.outside levels) (hsources : w.ListsSources sources) :
    w.Rising w.Inward (w.seeded levels sources).levels (w.seeded levels sources).increase := by
  have hseeded := seeded_seeded levels hsources
  have hsolves := lightEquation_iff.mp houtside
  set e := w.seeded levels sources
  have hcenter : ∀ {p}, w.layout.inside p → w.layout.inCenter p → e.levels p = w.emission p := fun {p} hp hc => by
    by_cases hmem : p ∈ sources
    · exact hseeded.lit p hmem
    · have hzero : w.emission p = 0 := by
        by_contra hpos
        exact hmem ((hsources p).mpr ⟨hp, hc, Nat.pos_of_ne_zero hpos⟩)
      rw [hseeded.kept p hmem, hzero]
      exact if_pos hc
  have haround : ∀ {p}, w.layout.outside p → e.levels p = levels p := fun {p} hp => by
    have hno := (LightCacheLayout.outside_iff.mp hp).2
    rw [hseeded.kept p fun hmem => hno ((hsources p).mp hmem).2.1]
    exact if_neg hno
  have hcases : ∀ {p}, w.layout.inside p → w.layout.inCenter p ∨ w.layout.outside p := fun {p} hp => by
    by_cases hc : w.layout.inCenter p
    · exact Or.inl hc
    · exact Or.inr (LightCacheLayout.outside_iff.mpr ⟨hp, hc⟩)
  have hfinite : {p | (w.layout.outside p : Prop)}.Finite :=
    w.layout.inside_finite.subset fun p hp => (LightCacheLayout.outside_iff.mp hp).1
  refine ⟨fun p hp => ?_, fun entry hentry => ?_, fun p hp hpos => ?_, fun p hp => ?_, fun n p hn hp hcarries hpending => ?_⟩
  · rcases hcases hp with hc | ho
    · rw [hcenter hp hc]
      exact emission_le p
    · rw [haround ho]
      exact hsolves.le_of_emission hfinite (fun q _ => emission_le q) p ho
  · obtain ⟨p, hp, hsource⟩ := hseeded.entries entry hentry
    exact (sourceEntry_valid hp entry hsource).mono fun _ => Nat.zero_le _
  · rcases hcases hp with hc | ho
    · exact Or.inl (Nat.le_of_eq (hcenter hp hc))
    · rw [haround ho]
      refine (hsolves.supported p ho).imp id ?_
      rintro ⟨n, hn, hcarries, hlevel⟩
      refine ⟨n, (LightCacheLayout.outside_iff.mp hn).1, hcarries, ?_⟩
      rw [haround hn]
      exact hlevel.trans (Nat.le_max_left _ _)
  · rcases hcases hp with hc | ho
    · exact Or.inl (Nat.le_of_eq (hcenter hp hc).symm)
    · rw [haround ho]
      exact Or.inl (hsolves.emits p ho)
  · rcases hcases hn with hc | ho
    · rcases Nat.eq_zero_or_pos (w.emission n) with hzero | hpos
      · left
        rw [hcenter hn hc, hzero]
        exact Nat.zero_le _
      · obtain ⟨entry, hentry, hat, hall, hplain, hlevel⟩ := sourceEntry_of_pos hpos
        have hqueue := hseeded.sources n ((hsources n).mpr ⟨hn, hc, hpos⟩) entry hentry
        obtain ⟨d, hstep, -⟩ := hcarries
        refine Or.inr (Or.inl ⟨entry, hqueue, hat, ⟨d, hall d, hstep⟩, ?_, by simp [hplain]⟩)
        rw [hcenter hn hc, hlevel]
    · have hop : w.layout.outside p := (hcases hp).resolve_left fun hc => hpending ⟨ho, hc⟩
      rw [haround ho, haround hop]
      exact Or.inl (hsolves.spreads n ho p hop hcarries)

theorem seeded_writesNothing (hsources : w.ListsSources sources) : WritesNothing (w.seeded levels sources) := by
  intro entry hentry
  obtain ⟨p, -, hsource⟩ := (seeded_seeded levels hsources).entries entry hentry
  unfold sourceEntry at hsource
  split at hsource
  · obtain rfl := List.mem_singleton.mp hsource
    rfl
  · simp at hsource

/-! ## The neighbors' levels -/

theorem foldl_enqueues {α : Type} {turn : LightEdit → α → LightEdit} (added : (BlockPos → Nat) → α → List LightQueueEntry)
    {l : List α} (hturn : ∀ a ∈ l, ∀ e, turn e a = { e with increase := e.increase ++ added e.levels a }) (e : LightEdit) :
    l.foldl turn e = { e with increase := e.increase ++ l.flatMap (added e.levels) } := by
  induction l generalizing e with
  | nil => simp
  | cons a l ih =>
    rw [List.foldl_cons, hturn a List.mem_cons_self, ih fun b hb => hturn b (List.mem_cons_of_mem _ hb)]
    simp

/-- The entry that pulls the level of `p` towards the center chunk. -/
def pulled (d : LightAxisDirection) (levels : BlockPos → Nat) (p : BlockPos) : List LightQueueEntry :=
  if levels p > 1 then [⟨p, levels p, [d.opposite], { hasSidedTransparentBlocks := true }⟩] else []

def pulledAll (w : LightWindow) (levels : BlockPos → Nat) : List LightQueueEntry :=
  w.layout.sectionsDown.flatMap fun sectionY => LightAxisDirection.horizontal.flatMap fun d =>
    ((neighborEdgeScan w.layout.centerChunk d).positions sectionY).flatMap (pulled d levels)

theorem propagateNeighborLevels_eq (e : LightEdit) : w.propagateNeighborLevels e w.layout.centerChunk =
    { e with increase := e.increase ++ w.pulledAll e.levels } := by
  refine foldl_enqueues (fun levels sectionY => LightAxisDirection.horizontal.flatMap fun d =>
    ((neighborEdgeScan w.layout.centerChunk d).positions sectionY).flatMap (pulled d levels)) (fun sectionY hy e => ?_) e
  refine foldl_enqueues (fun levels d =>
    ((neighborEdgeScan w.layout.centerChunk d).positions sectionY).flatMap (pulled d levels)) (fun d hd e => ?_) e
  refine foldl_enqueues (pulled d) (fun p hp e => ?_) e
  have hinside := LightCacheLayout.neighborEdgeScan_inside hd hy hp
  have hget : e.get w.layout p = e.levels p := if_pos hinside
  unfold pullNeighborLevel pulled
  rw [if_neg (by simp [LightCacheLayout.cached_of_inside hinside])]
  dsimp only
  rw [hget]
  split
  · exact if_pos (LightCacheLayout.encodes_of_inside hinside)
  · simp

theorem mem_pulledAll {entry : LightQueueEntry} : entry ∈ w.pulledAll levels ↔
    ∃ sectionY ∈ w.layout.sectionsDown, ∃ d ∈ LightAxisDirection.horizontal,
      ∃ p ∈ (neighborEdgeScan w.layout.centerChunk d).positions sectionY, entry ∈ pulled d levels p := by
  simp only [pulledAll, List.mem_flatMap]

theorem of_mem_pulledAll {entry : LightQueueEntry} (h : entry ∈ w.pulledAll levels) :
    ∃ p d, w.layout.inside p ∧ entry = ⟨p, levels p, [d], { hasSidedTransparentBlocks := true }⟩ := by
  obtain ⟨sectionY, hy, d, hd, p, hp, hentry⟩ := mem_pulledAll.mp h
  unfold pulled at hentry
  split at hentry
  · exact ⟨p, d.opposite, LightCacheLayout.neighborEdgeScan_inside hd hy hp, List.mem_singleton.mp hentry⟩
  · simp at hentry

theorem Rising.pull {queue : List LightQueueEntry} (h : w.Rising w.Inward levels queue) :
    w.Rising (fun _ _ => False) levels (queue ++ w.pulledAll levels) where
  bounded := h.bounded
  valid entry hentry := by
    rcases List.mem_append.mp hentry with hold | hnew
    · exact h.valid entry hold
    · obtain ⟨p, d, hp, rfl⟩ := of_mem_pulledAll hnew
      exact ⟨hp, by simp [Informed], h.bounded p hp, fun _ => Nat.le_max_left _ _, by simp⟩
  supported := h.supported
  emits p hp := (h.emits p hp).imp id fun ⟨entry, hentry, hrestores⟩ => ⟨entry, List.mem_append_left _ hentry, hrestores⟩
  spreads n p hn hp hcarries _ := by
    by_cases hinward : w.Inward n p
    · rcases Nat.lt_or_ge 1 (levels n) with hlit | hdark
      · obtain ⟨d, hstep, -⟩ := hcarries
        obtain ⟨hd, sectionY, hy, -, hscan⟩ := LightCacheLayout.scanned_of_step hinward.1 hp hinward.2 hstep
        have hmem : ⟨n, levels n, [d.opposite.opposite], { hasSidedTransparentBlocks := true }⟩ ∈ w.pulledAll levels := by
          refine mem_pulledAll.mpr ⟨sectionY, hy, _, hd, n, hscan, ?_⟩
          rw [pulled, if_pos hlit]
          exact List.mem_singleton.mpr rfl
        exact Or.inr (Or.inl ⟨_, List.mem_append_right _ hmem, rfl, ⟨d, by simp, hstep⟩, Nat.le_refl _, by simp⟩)
      · have := opacity_pos (w := w) p
        omega
    · rcases h.spreads n p hn hp hcarries hinward with hdone | ⟨entry, hentry, hcovers⟩ |
          ⟨⟨entry, hentry, hrestores⟩, hlevel⟩
      · exact Or.inl hdone
      · exact Or.inr (Or.inl ⟨entry, List.mem_append_left _ hentry, hcovers⟩)
      · exact Or.inr (Or.inr ⟨⟨entry, List.mem_append_left _ hentry, hrestores⟩, hlevel⟩)

theorem Rising.entriesBounded {pending : BlockPos → BlockPos → Prop} (h : w.Rising pending e.levels e.increase) :
    EntriesBounded e := fun entry hentry => (h.valid entry hentry).level_le

theorem Rising.performLightIncrease {pending : BlockPos → BlockPos → Prop} (h : w.Rising pending e.levels e.increase)
    (hwrites : WritesNothing e) :
    (∃ fuel e', w.performLightIncrease fuel e = some e') ∧ ∀ fuel e', w.performLightIncrease fuel e = some e' →
      w.Rising pending e'.levels [] ∧ e'.increase = [] ∧ e'.decrease = e.decrease :=
  ⟨performLightIncrease_terminates h.entriesBounded, fun _ _ hrun =>
    performLightIncrease_rising h (fun _ hreaches => (hwrites.reaches hreaches).upward) hrun⟩

theorem skipped_solves (houtside : w.LightEquation w.layout.outside levels) (hsources : w.ListsSources sources) :
    (∃ fuel e, w.propagateBlockLightChunk fuel levels sources .skipped = some e) ∧
      ∀ fuel e, w.propagateBlockLightChunk fuel levels sources .skipped = some e →
        w.LightEquation w.layout.inside e.levels := by
  have hrising := (seeded_rising houtside hsources).pull
  have hwrites : WritesNothing (w.propagateNeighborLevels (w.seeded levels sources) w.layout.centerChunk) := by
    rw [propagateNeighborLevels_eq]
    intro entry hentry
    rcases List.mem_append.mp hentry with hold | hnew
    · exact seeded_writesNothing hsources entry hold
    · obtain ⟨p, d, -, rfl⟩ := of_mem_pulledAll hnew
      rfl
  have hpass := Rising.performLightIncrease (e := w.propagateNeighborLevels (w.seeded levels sources) w.layout.centerChunk)
    (by rw [propagateNeighborLevels_eq]; exact hrising) hwrites
  exact ⟨hpass.1, fun fuel e hrun => (hpass.2 fuel e hrun).1.solves⟩

end LightWindow

end Foton.Light
