import Foton.Ticket.Manager
import Mathlib.Algebra.Ring.Int.Defs

/-!
# What propagation computes

The loops offer, to each position in the square of a source, the level of the
source plus the distance; the maps hold the least offers.
-/

namespace Foton

/-! ## Distance -/

namespace ChunkPos

def chebyshev (p q : ChunkPos) : Nat := max (p.x.toInt - q.x.toInt).natAbs (p.z.toInt - q.z.toInt).natAbs

/-- The positions within `radius` are chunk positions. -/
structure Fits (p : ChunkPos) (radius : Nat) : Prop where
  x_low : -2 ^ 31 ≤ p.x.toInt - radius
  x_high : p.x.toInt + radius < 2 ^ 31
  z_low : -2 ^ 31 ≤ p.z.toInt - radius
  z_high : p.z.toInt + radius < 2 ^ 31

theorem Fits.mono {p : ChunkPos} {a b : Nat} (h : p.Fits b) (hab : a ≤ b) : p.Fits a := by
  obtain ⟨h1, h2, h3, h4⟩ := h
  refine ⟨?_, ?_, ?_, ?_⟩ <;> omega

theorem toInt_inj {p q : ChunkPos} (hx : p.x.toInt = q.x.toInt) (hz : p.z.toInt = q.z.toInt) : p = q := by
  cases p
  cases q
  rw [Int32.toInt_inj] at hx hz
  simp only at hx hz
  rw [hx, hz]

theorem chebyshev_self (p : ChunkPos) : p.chebyshev p = 0 := by simp [chebyshev]

theorem eq_of_chebyshev {p q : ChunkPos} (h : p.chebyshev q = 0) : p = q := by
  unfold chebyshev at h
  exact toInt_inj (by omega) (by omega)

theorem add_ofInt_toInt {a : Int32} {d : Int} (hlow : -2 ^ 31 ≤ a.toInt + d) (hhigh : a.toInt + d < 2 ^ 31)
    (hd : -2 ^ 31 ≤ d) (hd' : d < 2 ^ 31) : (a + Int32.ofInt d).toInt = a.toInt + d := by
  rw [Int32.toInt_add, Int32.toInt_ofInt_of_le hd hd']
  exact Int.bmod_eq_of_le (by omega) (by omega)

theorem Fits.toInt_shift {p : ChunkPos} {radius : Nat} (h : p.Fits radius) {dx dz : Int} (hx : dx.natAbs ≤ radius)
    (hz : dz.natAbs ≤ radius) :
    (p.shift dx dz).x.toInt = p.x.toInt + dx ∧ (p.shift dx dz).z.toInt = p.z.toInt + dz := by
  obtain ⟨h1, h2, h3, h4⟩ := h
  have := p.x.toInt_lt
  have := p.x.le_toInt
  have := p.z.toInt_lt
  have := p.z.le_toInt
  exact ⟨add_ofInt_toInt (by omega) (by omega) (by omega) (by omega),
    add_ofInt_toInt (by omega) (by omega) (by omega) (by omega)⟩

end ChunkPos

theorem mem_offsets {radius : Nat} {dx dz : Int} :
    (dx, dz) ∈ offsets radius ↔ dx.natAbs ≤ radius ∧ dz.natAbs ≤ radius := by
  simp only [offsets, List.mem_flatMap, List.mem_map, List.mem_range, Prod.mk.injEq, Int.ofNat_eq_natCast]
  refine ⟨fun ⟨i, hi, j, hj, hx, hz⟩ => by omega, fun ⟨hx, hz⟩ => ?_⟩
  exact ⟨(dz + radius).toNat, by omega, (dx + radius).toNat, by omega, by omega, by omega⟩

theorem levelAt_offer {level l : ChunkTicketLevel} {radius : Nat} {source p : ChunkPos} (hfits : source.Fits radius) :
    (∃ o ∈ offsets radius, levelAt level source o = some (p, l)) ↔
      p.chebyshev source ≤ radius ∧ l.raw = level.raw + p.chebyshev source := by
  constructor
  · intro ⟨(dx, dz), ho, hl⟩
    rw [mem_offsets] at ho
    obtain ⟨hx, hz⟩ := hfits.toInt_shift ho.1 ho.2
    obtain ⟨l', hl', heq⟩ := Option.map_eq_some_iff.mp hl
    rw [Prod.mk.injEq] at heq
    obtain ⟨hp, hll⟩ := heq
    rw [ChunkTicketLevel.withDistance_eq_some, hll] at hl'
    have hdist : p.chebyshev source = max dx.natAbs dz.natAbs := by
      unfold ChunkPos.chebyshev
      rw [← hp, hx, hz, show source.x.toInt + dx - source.x.toInt = dx by omega,
        show source.z.toInt + dz - source.z.toInt = dz by omega]
    rw [hdist]
    exact ⟨Nat.max_le.mpr ho, hl'⟩
  · intro ⟨hdist, hl⟩
    have hx : (p.x.toInt - source.x.toInt).natAbs ≤ radius := Nat.le_trans (Nat.le_max_left _ _) hdist
    have hz : (p.z.toInt - source.z.toInt).natAbs ≤ radius := Nat.le_trans (Nat.le_max_right _ _) hdist
    refine ⟨(p.x.toInt - source.x.toInt, p.z.toInt - source.z.toInt), mem_offsets.mpr ⟨hx, hz⟩, ?_⟩
    obtain ⟨hsx, hsz⟩ := hfits.toInt_shift hx hz
    have hp : source.shift (p.x.toInt - source.x.toInt) (p.z.toInt - source.z.toInt) = p :=
      ChunkPos.toInt_inj (by omega) (by omega)
    have hl' := ChunkTicketLevel.withDistance_eq_some.mpr hl
    unfold ChunkPos.chebyshev at hl'
    unfold levelAt
    dsimp only
    rw [hp, hl']
    rfl

theorem Offers.spread {S : ChunkPos → Set ChunkTicketLevel} {m : LevelMap} (h : Offers S m) (level : ChunkTicketLevel)
    {radius : Nat} {source : ChunkPos} (hfits : source.Fits radius) :
    Offers (fun p => {l | l ∈ S p ∨ p.chebyshev source ≤ radius ∧ l.raw = level.raw + p.chebyshev source})
      (Foton.spread level radius source m) := by
  apply (h.relaxAll (levelAt level source) (offsets radius)).congr
  intro p l
  rw [Set.mem_ofPred_eq, Set.mem_ofPred_eq, levelAt_offer hfits]

/-! ## Strongest levels -/

theorem strongestLoad_eq_some {tickets : List ChunkTicket} {l : ChunkTicketLevel} :
    strongestLoad tickets = some l ↔
      (∃ t ∈ tickets, t.loadLevel = l) ∧ ∀ t ∈ tickets, l ≤ t.loadLevel := by
  unfold strongestLoad
  rw [List.min?_eq_some_iff, List.mem_map]
  refine and_congr_right fun _ => ?_
  simp only [List.mem_map, forall_exists_index, and_imp, forall_apply_eq_imp_iff₂]

theorem strongestSimulation_eq_some {tickets : List ChunkTicket} {l : ChunkTicketLevel} :
    strongestSimulation tickets = some l ↔
      (∃ t ∈ tickets, t.simulationLevel = some l) ∧ ∀ t ∈ tickets, ∀ s, t.simulationLevel = some s → l ≤ s := by
  unfold strongestSimulation
  rw [List.min?_eq_some_iff, List.mem_filterMap]
  refine and_congr_right fun _ => ?_
  simp only [List.mem_filterMap, forall_exists_index, and_imp]
  exact ⟨fun h t ht s hs => h s t ht hs, fun h s t ht hs => h t ht s hs⟩

theorem strongestLoad_isSome {tickets : List ChunkTicket} {t : ChunkTicket} (ht : t ∈ tickets) :
    ∃ l, strongestLoad tickets = some l := by
  cases h : strongestLoad tickets with
  | some l => exact ⟨l, rfl⟩
  | none =>
    unfold strongestLoad at h
    rw [List.min?_eq_none_iff, List.map_eq_nil_iff] at h
    rw [h] at ht
    cases ht

/-! ## All sources -/

/-- What the sources offer to `p` as load level. -/
def loadOffers (at' : ChunkPos → List ChunkTicket) (sources : List ChunkPos) (p : ChunkPos) : Set ChunkTicketLevel :=
  {l | ∃ q ∈ sources, ∃ s, strongestLoad (at' q) = some s ∧ p.chebyshev q ≤ s.distanceToMax ∧
    l.raw = s.raw + p.chebyshev q}

/-- What the sources offer to `p` as simulation level. -/
def simulationOffers (at' : ChunkPos → List ChunkTicket) (sources : List ChunkPos) (p : ChunkPos) :
    Set ChunkTicketLevel :=
  {l | ∃ q ∈ sources, ∃ s, strongestSimulation (at' q) = some s ∧ p.chebyshev q ≤ s.distanceToBlockTicking ∧
    l.raw = s.raw + p.chebyshev q}

/-- Every source's square is made of chunk positions. -/
def SourcesFit (at' : ChunkPos → List ChunkTicket) : Prop :=
  ∀ q, ∀ t ∈ at' q, q.Fits t.loadLevel.distanceToMax

section
variable {at' : ChunkPos → List ChunkTicket} (hfit : SourcesFit at')
include hfit

theorem fits_load {q : ChunkPos} {s : ChunkTicketLevel} (hs : strongestLoad (at' q) = some s) :
    q.Fits s.distanceToMax := by
  obtain ⟨⟨t, ht, hts⟩, -⟩ := strongestLoad_eq_some.mp hs
  rw [← hts]
  exact hfit q t ht

theorem fits_simulation {q : ChunkPos} {s : ChunkTicketLevel} (hs : strongestSimulation (at' q) = some s) :
    q.Fits s.distanceToBlockTicking := by
  obtain ⟨⟨t, ht, hts⟩, -⟩ := strongestSimulation_eq_some.mp hs
  exact (hfit q t ht).mono (t.distanceToBlockTicking_le hts)

omit hfit in
theorem strongestLoad_of_simulation {q : ChunkPos} {s : ChunkTicketLevel} (hs : strongestSimulation (at' q) = some s) :
    ∃ l, strongestLoad (at' q) = some l ∧ s.distanceToBlockTicking ≤ l.distanceToMax := by
  obtain ⟨⟨t, ht, hts⟩, -⟩ := strongestSimulation_eq_some.mp hs
  obtain ⟨l, hl⟩ := strongestLoad_isSome ht
  refine ⟨l, hl, Nat.le_trans (t.distanceToBlockTicking_le hts) ?_⟩
  have hle := (strongestLoad_eq_some.mp hl).2 t ht
  rw [ChunkTicketLevel.le_iff] at hle
  unfold ChunkTicketLevel.distanceToMax
  omega

theorem propagateSource_offers {S T : ChunkPos → Set ChunkTicketLevel} {maps : LevelMap × LevelMap}
    (hS : Offers S maps.1) (hT : Offers T maps.2) (q : ChunkPos) :
    Offers (fun p => {l | l ∈ S p ∨ ∃ s, strongestLoad (at' q) = some s ∧ p.chebyshev q ≤ s.distanceToMax ∧
        l.raw = s.raw + p.chebyshev q}) (propagateSource (at' q) q maps).1 ∧
      Offers (fun p => {l | l ∈ T p ∨ ∃ s, strongestSimulation (at' q) = some s ∧
        p.chebyshev q ≤ s.distanceToBlockTicking ∧ l.raw = s.raw + p.chebyshev q})
        (propagateSource (at' q) q maps).2 := by
  unfold propagateSource
  cases hload : strongestLoad (at' q) with
  | none =>
    have hsim : strongestSimulation (at' q) = none := by
      cases hsim : strongestSimulation (at' q) with
      | none => rfl
      | some s =>
        obtain ⟨l, hl, -⟩ := strongestLoad_of_simulation hsim
        rw [hload] at hl
        cases hl
    rw [hsim]
    exact ⟨hS.congr fun _ _ => by simp, hT.congr fun _ _ => by simp⟩
  | some s =>
    have hS' := (hS.spread s (fits_load hfit hload)).congr (T := fun p => {l | l ∈ S p ∨ ∃ s', some s = some s' ∧
      p.chebyshev q ≤ s'.distanceToMax ∧ l.raw = s'.raw + p.chebyshev q}) fun _ _ => by simp
    cases hsim : strongestSimulation (at' q) with
    | none => exact ⟨hS', hT.congr fun _ _ => by simp⟩
    | some s' =>
      exact ⟨hS', (hT.spread s' (fits_simulation hfit hsim)).congr fun _ _ => by simp⟩

theorem propagate_offers : ∀ (sources : List ChunkPos) {S T : ChunkPos → Set ChunkTicketLevel}
    {maps : LevelMap × LevelMap}, Offers S maps.1 → Offers T maps.2 →
    let maps' := sources.foldl (fun maps q => propagateSource (at' q) q maps) maps
    Offers (fun p => S p ∪ loadOffers at' sources p) maps'.1 ∧
      Offers (fun p => T p ∪ simulationOffers at' sources p) maps'.2
  | [], _, _, _, hS, hT => by
    refine ⟨hS.congr fun p l => ?_, hT.congr fun p l => ?_⟩
    · simp [loadOffers]
    · simp [simulationOffers]
  | q :: rest, _, _, _, hS, hT => by
    obtain ⟨hS', hT'⟩ := propagateSource_offers hfit hS hT q
    obtain ⟨h1, h2⟩ := propagate_offers rest hS' hT'
    refine ⟨h1.congr fun p l => ?_, h2.congr fun p l => ?_⟩
    · simp only [loadOffers, Set.mem_union, Set.mem_ofPred_eq, List.mem_cons, exists_eq_or_imp, or_assoc]
    · simp only [simulationOffers, Set.mem_union, Set.mem_ofPred_eq, List.mem_cons, exists_eq_or_imp, or_assoc]

end

/-!
## The change list

Four passes write the change list. Each position belongs to at most one of them,
and to one exactly when one of its levels has changed.
-/

/-- A change list that has each position of `P` once, with its new levels. -/
structure Reports (P : ChunkPos → Prop) (levels simulation : LevelMap) (changes : List LevelChange) : Prop where
  nodup : (changes.map LevelChange.pos).Nodup
  mem : ∀ p, p ∈ changes.map LevelChange.pos ↔ P p
  values : ∀ c ∈ changes, c.newLevel = levels.lookup c.pos ∧ c.newSimulationLevel = simulation.lookup c.pos

namespace Reports

variable {P Q : ChunkPos → Prop} {levels simulation : LevelMap} {changes changes' : List LevelChange}

theorem congr (h : Reports P levels simulation changes) (hPQ : ∀ p, P p ↔ Q p) : Reports Q levels simulation changes :=
  { h with mem := fun p => (h.mem p).trans (hPQ p) }

theorem append (h : Reports P levels simulation changes) (h' : Reports Q levels simulation changes')
    (hd : ∀ p, P p → ¬ Q p) : Reports (fun p => P p ∨ Q p) levels simulation (changes ++ changes') where
  nodup := by
    rw [List.map_append, List.nodup_append']
    exact ⟨h.nodup, h'.nodup, fun p hp hp' => hd p ((h.mem p).mp hp) ((h'.mem p).mp hp')⟩
  mem p := by rw [List.map_append, List.mem_append, h.mem, h'.mem]
  values c hc := (List.mem_append.mp hc).elim (h.values c) (h'.values c)

theorem walk (order : IterOrder) (keys : List ChunkPos) (hkeys : keys.Nodup) (change : ChunkPos → Option LevelChange)
    (hvalue : ∀ p c, change p = some c → c = ⟨p, levels.lookup p, simulation.lookup p⟩) :
    Reports (fun p => p ∈ keys ∧ (change p).isSome) levels simulation ((order.walk keys).filterMap change) := by
  have hpos : ((order.walk keys).filterMap change).map LevelChange.pos =
      (order.walk keys).filter fun p => (change p).isSome := by
    induction order.walk keys with
    | nil => rfl
    | cons p rest ih =>
      cases hp : change p with
      | none => simp [hp, ih]
      | some c => simp [hp, ih, hvalue p c hp]
  refine ⟨?_, fun p => ?_, fun c hc => ?_⟩
  · rw [hpos]
    exact ((order.perm keys).nodup_iff.mpr hkeys).filter _
  · rw [hpos, List.mem_filter, (order.perm keys).mem_iff]
  · obtain ⟨p, _, hp⟩ := List.mem_filterMap.mp hc
    rw [hvalue p c hp]
    exact ⟨rfl, rfl⟩

end Reports

/-- The change list names the positions with a new level, each once. -/
def ExactChanges (before after : ChunkTicketManager) : Prop :=
  Reports (fun p => before.getLevel p ≠ after.getLevel p ∨ before.getSimulationLevel p ≠ after.getSimulationLevel p)
    after.levels after.simulationLevels after.changes

theorem mem_keys_iff {m : LevelMap} {p : ChunkPos} : p ∈ m.keys ↔ (m.lookup p).isSome := by
  rw [AList.lookup_isSome, AList.mem_keys]

section
variable {old new oldSimulation simulation : LevelMap} (order : IterOrder)

theorem changedLevels_reports :
    Reports (fun p => (new.lookup p).isSome ∧ old.lookup p ≠ new.lookup p) new simulation
      (changedLevels order old new simulation) := by
  refine (Reports.walk order _ new.keys_nodup _ fun p c hc => ?_).congr fun p => ?_
  · cases hp : new.lookup p with
    | none => rw [hp] at hc; cases hc
    | some l =>
      rw [hp] at hc
      dsimp only at hc
      split at hc
      · cases hc
      · cases hc
        rfl
  · rw [mem_keys_iff]
    refine and_congr_right fun _ => ?_
    cases hp : new.lookup p with
    | none => simp_all
    | some l =>
      dsimp only
      split <;> simp_all

theorem removedLevels_reports (hsim : ∀ p, new.lookup p = none → simulation.lookup p = none) :
    Reports (fun p => (old.lookup p).isSome ∧ new.lookup p = none) new simulation (removedLevels order old new) := by
  refine (Reports.walk order _ old.keys_nodup _ fun p c hc => ?_).congr fun p => ?_
  · split at hc
    · cases hc
    · rename_i hnone
      rw [Option.not_isSome_iff_eq_none] at hnone
      cases hc
      rw [hnone, hsim p hnone]
  · rw [mem_keys_iff]
    refine and_congr_right fun _ => ?_
    cases new.lookup p <;> simp

theorem changedSimulation_reports :
    Reports (fun p => (simulation.lookup p).isSome ∧ old.lookup p = new.lookup p ∧
      oldSimulation.lookup p ≠ simulation.lookup p) new simulation
      (changedSimulation order old new oldSimulation simulation) := by
  refine (Reports.walk order _ simulation.keys_nodup _ fun p c hc => ?_).congr fun p => ?_
  · split at hc
    · cases hc
    · cases hp : simulation.lookup p with
      | none => rw [hp] at hc; cases hc
      | some l =>
        rw [hp] at hc
        dsimp only at hc
        split at hc
        · cases hc
        · cases hc
          rfl
  · rw [mem_keys_iff]
    refine and_congr_right fun _ => ?_
    split
    · simp_all
    · cases hp : simulation.lookup p with
      | none => simp_all
      | some l =>
        dsimp only
        split <;> simp_all

theorem removedSimulation_reports :
    Reports (fun p => (oldSimulation.lookup p).isSome ∧ old.lookup p = new.lookup p ∧ simulation.lookup p = none)
      new simulation (removedSimulation order old new oldSimulation simulation) := by
  refine (Reports.walk order _ oldSimulation.keys_nodup _ fun p c hc => ?_).congr fun p => ?_
  · split at hc
    · cases hc
    · rename_i hno
      rw [not_or, Option.not_isSome_iff_eq_none] at hno
      cases hc
      rw [hno.2]
  · rw [mem_keys_iff]
    refine and_congr_right fun _ => ?_
    by_cases hsame : old.lookup p = new.lookup p
    · cases simulation.lookup p <;> simp [hsame]
    · simp [hsame]

end

theorem level_changes {α : Type*} (old new oldSimulation simulation : Option α) :
    (new.isSome ∧ old ≠ new ∨ old.isSome ∧ new = none) ∨
        (simulation.isSome ∧ old = new ∧ oldSimulation ≠ simulation ∨ oldSimulation.isSome ∧ old = new ∧ simulation = none) ↔
      old ≠ new ∨ oldSimulation ≠ simulation := by
  by_cases hsame : old = new
  · subst hsame
    cases old <;> cases oldSimulation <;> cases simulation <;> simp
  · cases new <;> cases old <;> simp_all

theorem passes_report {old new oldSimulation simulation : LevelMap} (o : UpdateOrders)
    (hsim : ∀ p, new.lookup p = none → simulation.lookup p = none) :
    Reports (fun p => old.lookup p ≠ new.lookup p ∨ oldSimulation.lookup p ≠ simulation.lookup p) new simulation
      (changedLevels o.levels old new simulation ++ removedLevels o.oldLevels old new ++
        (changedSimulation o.simulationLevels old new oldSimulation simulation ++
          removedSimulation o.oldSimulationLevels old new oldSimulation simulation)) := by
  have hload : Reports (fun p => (new.lookup p).isSome ∧ old.lookup p ≠ new.lookup p ∨
      (old.lookup p).isSome ∧ new.lookup p = none) new simulation _ :=
    (changedLevels_reports o.levels).append (removedLevels_reports o.oldLevels hsim) fun p h h' => by
      rw [h'.2] at h
      exact absurd h.1 (by simp)
  have hsimulation : Reports (fun p => (simulation.lookup p).isSome ∧ old.lookup p = new.lookup p ∧
        oldSimulation.lookup p ≠ simulation.lookup p ∨
      (oldSimulation.lookup p).isSome ∧ old.lookup p = new.lookup p ∧ simulation.lookup p = none) new simulation _ :=
    (changedSimulation_reports o.simulationLevels).append (removedSimulation_reports o.oldSimulationLevels)
      fun p h h' => by
        rw [h'.2.2] at h
        exact absurd h.1 (by simp)
  refine (hload.append hsimulation fun p h h' => ?_).congr fun p => ?_
  · have hsame : old.lookup p = new.lookup p := h'.elim (fun h => h.2.1) (fun h => h.2.1)
    rcases h with ⟨_, hne⟩ | ⟨hsome, hnone⟩
    · exact hne hsame
    · rw [hsame, hnone] at hsome
      cases hsome
  · exact level_changes _ _ _ _

end Foton
