import Foton.Light.Seeding

/-!
# A chunk that checks its edges

The chunk is lit by its own sources first. A position of its edges that a
neighbor would raise is calculated to differ, and is checked; so after the scans
a wave is on its way wherever the two sides do not agree.
-/

namespace Foton.Light

namespace LightWindow

variable {w : LightWindow} {pending : BlockPos → BlockPos → Prop} {levels : BlockPos → Nat} {sources : List BlockPos}
  {e : LightEdit} {p : BlockPos}

theorem gatherLight_expect {expect : Nat} (ds : List LightAxisDirection) {level : Nat}
    (h : w.gatherLight e p expect ds level = expect) :
    level ≤ expect ∧ ∀ d ∈ ds, w.layout.inside (p.step d) →
      BlockStates.Opens (w.getBlockState (p.step d)) (w.getBlockState p) d.opposite →
        e.levels (p.step d) ≤ expect + w.opacity p := by
  induction ds generalizing level with
  | nil => exact ⟨Nat.le_of_eq h, by simp⟩
  | cons d ds ih =>
    have hopacity := opacity_pos (w := w) p
    unfold gatherLight at h
    dsimp only at h
    split at h
    next houtside =>
      obtain ⟨hle, hrest⟩ := ih h
      refine ⟨hle, fun d' hd' hinside => ?_⟩
      rcases List.mem_cons.mp hd' with rfl | hd'
      · simp [LightCacheLayout.cached_of_inside hinside] at houtside
      · exact hrest d' hd' hinside
    next =>
      split at h
      next hdim =>
        obtain ⟨hle, hrest⟩ := ih h
        refine ⟨hle, fun d' hd' hinside => ?_⟩
        rcases List.mem_cons.mp hd' with rfl | hd'
        · intro _
          rw [LightEdit.get, if_pos hinside] at hdim
          omega
        · exact hrest d' hd' hinside
      next =>
        split at h
        next hblocked =>
          obtain ⟨hle, hrest⟩ := ih h
          refine ⟨hle, fun d' hd' hinside => ?_⟩
          rcases List.mem_cons.mp hd' with rfl | hd'
          · intro hopen
            exact absurd hblocked hopen
          · exact hrest d' hd' hinside
        next =>
          split at h
          next habove => omega
          next =>
            obtain ⟨hle, hrest⟩ := ih h
            refine ⟨by omega, fun d' hd' hinside => ?_⟩
            rcases List.mem_cons.mp hd' with rfl | hd'
            · intro _
              rw [LightEdit.get, if_pos hinside] at hle
              omega
            · exact hrest d' hd' hinside

/-- A position whose calculated level is the stored one is not raised by any neighbor. -/
theorem settled_of_not_differs (hbounded : ∀ q, w.layout.inside q → e.levels q ≤ maxLightLevel) (hp : w.layout.inside p)
    (h : w.differs e p = false) {n : BlockPos} (hn : w.layout.inside n) (hcarries : w.medium.carries n p) :
    e.levels n ≤ e.levels p + w.opacity p := by
  have hget : e.get w.layout p = e.levels p := if_pos hp
  have hopacity := opacity_pos (w := w) p
  have hle := hbounded n hn
  rw [differs, hget, calculateLightValue, if_neg (by simp [LightCacheLayout.cached_of_inside hp])] at h
  dsimp only at h
  split at h
  next hearly =>
    have hsame : w.emission p = e.levels p := by simpa using h
    simp only [maxLightLevel] at hearly hle
    omega
  next =>
    split at h
    next hopaque => omega
    next =>
      have hsame : w.gatherLight e p (e.levels p) LightAxisDirection.all (w.emission p) = e.levels p := by simpa using h
      obtain ⟨d, rfl, hopen⟩ := carries_iff.mp hcarries
      exact (gatherLight_expect _ hsame).2 d (by simp) hn hopen

/-! ## The scans -/

/-- The position lies on the edge of a section that is scanned in the direction. -/
def OnEdge (w : LightWindow) (sectionY : Int) (d : LightAxisDirection) (p : BlockPos) : Prop :=
  p ∈ (currentEdgeScan w.layout.centerChunk d).positions sectionY

variable {sectionY : Int} {d : LightAxisDirection}

theorem mem_delayedChecks (hd : d ∈ LightAxisDirection.horizontal) (hy : sectionY ∈ w.layout.sectionsDown) :
    p ∈ w.delayedChecks e w.layout.centerChunk sectionY d ↔
      (w.OnEdge sectionY d p ∧ w.differs e p) ∨ ∃ q, w.OnEdge sectionY d q ∧ p = q.step d ∧ w.differs e p := by
  have hscan : ∀ {q}, w.OnEdge sectionY d q → _ := fun hq => LightCacheLayout.currentEdgeScan_inside hd hy hq
  have hcached : ∀ {q}, w.OnEdge sectionY d q → w.layout.cached q ∧ w.layout.cached (q.step d) := fun hq =>
    ⟨LightCacheLayout.cached_of_inside (hscan hq).1, LightCacheLayout.cached_of_inside (hscan hq).2.1⟩
  unfold delayedChecks
  dsimp only
  rw [mem_alternate]
  simp only [List.mem_map, List.mem_filter, Bool.and_eq_true, exists_exists_and_eq_and]
  refine or_congr ⟨?_, ?_⟩ ⟨?_, ?_⟩
  · rintro ⟨q, ⟨⟨hq, -⟩, hdiffers⟩, rfl⟩
    rw [(hscan hq).2.2.1]
    exact ⟨hq, hdiffers⟩
  · rintro ⟨hp, hdiffers⟩
    exact ⟨p, ⟨⟨hp, hcached hp⟩, hdiffers⟩, (hscan hp).2.2.1⟩
  · rintro ⟨_, ⟨⟨q, ⟨hq, -⟩, rfl⟩, hdiffers⟩, rfl⟩
    rw [(hscan hq).2.2.2]
    exact ⟨q, hq, rfl, hdiffers⟩
  · rintro ⟨q, hq, rfl, hdiffers⟩
    exact ⟨_, ⟨⟨q, ⟨hq, hcached hq⟩, rfl⟩, hdiffers⟩, (hscan hq).2.2.2⟩

theorem checkChunkEdgeDirection_waves (hd : d ∈ LightAxisDirection.horizontal) (hy : sectionY ∈ w.layout.sectionsDown)
    (h : w.Waves pending e.levels e.increase e.decrease) :
    w.Waves (fun n p => pending n p ∧ ¬ w.OnEdge sectionY d p)
      (w.checkChunkEdgeDirection w.layout.centerChunk sectionY e d).levels
      (w.checkChunkEdgeDirection w.layout.centerChunk sectionY e d).increase
      (w.checkChunkEdgeDirection w.layout.centerChunk sectionY e d).decrease := by
  have hinside : ∀ p ∈ w.delayedChecks e w.layout.centerChunk sectionY d, w.layout.inside p := fun p hp => by
    rcases (mem_delayedChecks hd hy).mp hp with ⟨hedge, -⟩ | ⟨q, hedge, rfl, -⟩
    · exact (LightCacheLayout.currentEdgeScan_inside hd hy hedge).1
    · exact (LightCacheLayout.currentEdgeScan_inside hd hy hedge).2.1
  have hsettled : w.Waves (fun n p => pending n p ∧ (w.OnEdge sectionY d p → w.differs e p)) e.levels e.increase
      e.decrease := h.narrow fun n p hn hp hcarries hwait hno => by
    have hsame : ¬ w.differs e p := fun hdiffers => hno ⟨hwait, fun _ => hdiffers⟩
    exact settled_of_not_differs h.bounded hp (by simpa using hsame) hn hcarries
  have hchecked := foldl_checkBlock_waning _ hinside hsettled
  simp only [false_and] at hchecked
  refine hchecked.narrow fun n p _ _ _ hwait hno => ?_
  have hedge : w.OnEdge sectionY d p := by
    by_contra hoff
    exact hno ⟨hwait.1.1, hoff⟩
  exact absurd ((mem_delayedChecks hd hy).mpr (Or.inl ⟨hedge, hwait.1.2 hedge⟩)) hwait.2

theorem foldl_waves {α : Type} {turn : LightEdit → α → LightEdit} (settled : α → BlockPos → Prop) {l : List α}
    (hturn : ∀ a ∈ l, ∀ {pending e}, w.Waves pending e.levels e.increase e.decrease →
      w.Waves (fun n p => pending n p ∧ ¬ settled a p) (turn e a).levels (turn e a).increase (turn e a).decrease)
    (h : w.Waves pending e.levels e.increase e.decrease) :
    w.Waves (fun n p => pending n p ∧ ∀ a ∈ l, ¬ settled a p) (l.foldl turn e).levels (l.foldl turn e).increase
      (l.foldl turn e).decrease := by
  induction l generalizing pending e with
  | nil => simpa using h
  | cons a l ih =>
    have hrest := ih (fun b hb => hturn b (List.mem_cons_of_mem _ hb)) (hturn a List.mem_cons_self h)
    simpa only [List.forall_mem_cons, and_assoc, List.foldl_cons] using hrest

def scanned (w : LightWindow) (e : LightEdit) : LightEdit :=
  w.layout.sectionsDown.foldl (w.checkChunkEdge w.layout.centerChunk) e

/-- After all scans, nothing that the neighbors give to the chunk is pending. -/
theorem scanned_waves (h : w.Waves w.Inward e.levels e.increase e.decrease) :
    w.Waves (fun _ _ => False) (w.scanned e).levels (w.scanned e).increase (w.scanned e).decrease := by
  have hsection : ∀ sectionY ∈ w.layout.sectionsDown, ∀ {pending e}, w.Waves pending e.levels e.increase e.decrease →
      w.Waves (fun n p => pending n p ∧ ¬ ∃ d ∈ LightAxisDirection.horizontal, w.OnEdge sectionY d p)
        (w.checkChunkEdge w.layout.centerChunk e sectionY).levels
        (w.checkChunkEdge w.layout.centerChunk e sectionY).increase
        (w.checkChunkEdge w.layout.centerChunk e sectionY).decrease := fun sectionY hy _ _ h => by
    simp only [not_exists, not_and]
    exact foldl_waves (w.OnEdge sectionY) (fun d hd _ _ h => checkChunkEdgeDirection_waves hd hy h) h
  have hall := foldl_waves (fun sectionY p => ∃ d ∈ LightAxisDirection.horizontal, w.OnEdge sectionY d p) hsection h
  refine hall.narrow fun n p hn hp hcarries hwait _ => ?_
  obtain ⟨hinward, hoff⟩ := hwait
  obtain ⟨d, hstep, -⟩ := hcarries
  obtain ⟨hd, sectionY, hy, hedge, -⟩ := LightCacheLayout.scanned_of_step hinward.1 hp hinward.2 hstep
  exact absurd ⟨_, hd, hedge⟩ (hoff sectionY hy)

theorem stoneWindow_listsSources {places : List (BlockPos × StoneState)} {sources : List BlockPos}
    (hlisted : ∀ p ∈ sources, stoneLayout.inside p ∧ stoneLayout.inCenter p ∧ 0 < (stoneWindow places).emission p)
    (hall : ∀ p ∈ places.map Prod.fst, stoneLayout.inCenter p → 0 < (stoneWindow places).emission p → p ∈ sources) :
    (stoneWindow places).ListsSources sources := by
  refine fun p => ⟨hlisted p, fun ⟨hp, hcenter, hpos⟩ => ?_⟩
  by_cases hplace : p ∈ places.map Prod.fst
  · exact hall p hplace hcenter hpos
  · rw [stoneWindow_emission hp hplace] at hpos
    exact absurd hpos (Nat.lt_irrefl 0)

theorem inside_of_outside {layout : LightCacheLayout} (p : BlockPos) (h : layout.outside p) : layout.inside p :=
  (LightCacheLayout.outside_iff.mp h).1

/-! ## The chunk -/

/-- What the edge checks leave to the decrease and increase pass never writes a
source below what its position has. -/
def EdgeSourcesKept (w : LightWindow) (levels : BlockPos → Nat) (sources : List BlockPos) : Prop :=
  ∀ fuel e, w.performLightIncrease fuel (w.seeded levels sources) = some e → w.SourcesKept (w.scanned e)

def edgePlaces : List (BlockPos × StoneState) :=
  [(⟨15, 7, 7⟩, .enchantingTable), (⟨16, 7, 7⟩, .glowstone), (⟨15, 6, 7⟩, .candles), (⟨14, 6, 7⟩, .brewingStand)]

end LightWindow

end Foton.Light
