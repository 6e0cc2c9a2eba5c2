import Foton.Ticket.Spread
import Mathlib.Order.Bounds.Basic

/-!
# Propagation over the held tickets

The specification speaks of the tickets that a sequence of operations has left,
not of the maps. A level weaker than `blockTickingChunk` spreads over a square
of radius zero, so a source of such a simulation level keeps its own level.
-/

namespace Foton

namespace HeldTickets

variable (h : HeldTickets)

/-- What the held tickets offer to `p`, without a cut-off. -/
def loads (p : ChunkPos) : Set Nat := {n | ∃ q, ∃ t ∈ h q, n = t.loadLevel.raw + p.chebyshev q}

/-- `s` is the strongest simulation level held at `q`. -/
def Strongest (q : ChunkPos) (s : ChunkTicketLevel) : Prop :=
  (∃ t ∈ h q, t.simulationLevel = some s) ∧ ∀ t ∈ h q, ∀ s', t.simulationLevel = some s' → s ≤ s'

def simulations (p : ChunkPos) : Set Nat := {n | ∃ q s, h.Strongest q s ∧ n = s.raw + p.chebyshev q}

def LoadSpec (p : ChunkPos) : Option ChunkTicketLevel → Prop
  | some l => IsLeast (h.loads p) l.raw
  | none => ∀ n ∈ h.loads p, maxLevelRaw < n

def SimulationSpec (p : ChunkPos) : Option ChunkTicketLevel → Prop
  | some l => IsLeast (h.simulations p) l.raw ∧ l.raw ≤ ChunkTicketLevel.blockTickingChunk.raw
  | none => ∀ n ∈ h.simulations p, ChunkTicketLevel.blockTickingChunk.raw < n

/-- A simulation level too weak to tick blocks is covered by another source. -/
def WeakCovered : Prop :=
  ∀ p s, h.Strongest p s → ChunkTicketLevel.blockTickingChunk.raw < s.raw →
    ∃ n ∈ h.simulations p, n ≤ ChunkTicketLevel.blockTickingChunk.raw

/-- What the loop offers to `p` as simulation level. -/
def simulationReach (p : ChunkPos) : Set ChunkTicketLevel :=
  {l | ∃ q s, h.Strongest q s ∧ p.chebyshev q ≤ s.distanceToBlockTicking ∧ l.raw = s.raw + p.chebyshev q}

variable {h}

theorem simulationReach_sub {p : ChunkPos} {l : ChunkTicketLevel} (hl : l ∈ h.simulationReach p) :
    l.raw ∈ h.simulations p :=
  let ⟨q, s, hs, _, heq⟩ := hl
  ⟨q, s, hs, heq⟩

theorem simulationReach_of_le {p : ChunkPos} {n : Nat} (hn : n ∈ h.simulations p)
    (hle : n ≤ ChunkTicketLevel.blockTickingChunk.raw) : ∃ l ∈ h.simulationReach p, l.raw = n := by
  obtain ⟨q, s, hs, heq⟩ := hn
  refine ⟨⟨n, Nat.le_trans hle ChunkTicketLevel.blockTickingChunk.le_max⟩, ⟨q, s, hs, ?_, heq⟩, rfl⟩
  unfold ChunkTicketLevel.distanceToBlockTicking
  omega

/-- Past `blockTickingChunk`, a position is offered its own level and no other. -/
theorem own_of_simulationReach {p : ChunkPos} {l : ChunkTicketLevel} (hl : l ∈ h.simulationReach p)
    (hweak : ChunkTicketLevel.blockTickingChunk.raw < l.raw) : h.Strongest p l := by
  obtain ⟨q, s, hs, hdist, heq⟩ := hl
  unfold ChunkTicketLevel.distanceToBlockTicking at hdist
  have hzero : p.chebyshev q = 0 := by omega
  have hpq : p = q := ChunkPos.eq_of_chebyshev hzero
  have hls : l = s := ChunkTicketLevel.raw_inj (by omega)
  rw [hpq, hls]
  exact hs

theorem own_mem_simulationReach {p : ChunkPos} {s : ChunkTicketLevel} (hs : h.Strongest p s) :
    s ∈ h.simulationReach p :=
  ⟨p, s, hs, by rw [ChunkPos.chebyshev_self]; exact Nat.zero_le _, by rw [ChunkPos.chebyshev_self]; rfl⟩

/-- The simulation levels meet their specification when no weak level is left alone. -/
theorem simulationSpec_iff {simulation : LevelMap} (hoffers : Offers h.simulationReach simulation) :
    (∀ p, h.SimulationSpec p (simulation.lookup p)) ↔ h.WeakCovered := by
  constructor
  · intro hspec p s hs hweak
    have hp := hspec p
    cases hl : simulation.lookup p with
    | none =>
      have hmem := own_mem_simulationReach hs
      rw [hoffers.absent p hl] at hmem
      exact hmem.elim
    | some l =>
      rw [hl] at hp
      exact ⟨l.raw, hp.1.1, hp.2⟩
  · intro hcovered p
    cases hl : simulation.lookup p with
    | none =>
      intro n hn
      apply Nat.lt_of_not_le
      intro hle
      obtain ⟨l, hmem, -⟩ := simulationReach_of_le hn hle
      rw [hoffers.absent p hl] at hmem
      exact hmem
    | some l =>
      obtain ⟨hmem, hleast⟩ := hoffers.least p l hl
      have hbound : l.raw ≤ ChunkTicketLevel.blockTickingChunk.raw := by
        apply Nat.le_of_not_lt
        intro hweak
        obtain ⟨n, hn, hle⟩ := hcovered p l (own_of_simulationReach hmem hweak) hweak
        obtain ⟨l', hl', heq⟩ := simulationReach_of_le hn hle
        have := ChunkTicketLevel.le_iff.mp (hleast hl')
        omega
      refine ⟨⟨simulationReach_sub hmem, fun n hn => ?_⟩, hbound⟩
      by_cases hle : n ≤ ChunkTicketLevel.blockTickingChunk.raw
      · obtain ⟨l', hl', heq⟩ := simulationReach_of_le hn hle
        rw [← heq]
        exact ChunkTicketLevel.le_iff.mp (hleast hl')
      · omega

end HeldTickets

open HeldTickets

/-! ## The maps of a clean manager -/

structure Computed (h : HeldTickets) (levels simulation : LevelMap) : Prop where
  load : ∀ p, h.LoadSpec p (levels.lookup p)
  simulation : Offers h.simulationReach simulation

theorem Computed.load_covers {h : HeldTickets} {levels simulation : LevelMap} (hc : Computed h levels simulation)
    (p : ChunkPos) (hnone : levels.lookup p = none) : simulation.lookup p = none := by
  cases hl : simulation.lookup p with
  | none => rfl
  | some l =>
    obtain ⟨q, s, ⟨⟨t, ht, hts⟩, -⟩, hdist, -⟩ := (hc.simulation.least p l hl).1
    have hreach := t.distanceToBlockTicking_le hts
    have hload := hc.load p
    rw [hnone] at hload
    have hfar := hload _ ⟨q, t, ht, rfl⟩
    have hle := t.loadLevel.le_max
    unfold ChunkTicketLevel.distanceToMax at hreach
    omega

structure Tracks (h : HeldTickets) (m : ChunkTicketManager) : Prop where
  held : ∀ p, (m.ticketsAt p : Multiset ChunkTicket) = h p
  computed : m.dirty = false → Computed h m.levels m.simulationLevels

namespace Tracks

variable {h : HeldTickets} {m : ChunkTicketManager}

theorem mem (ht : Tracks h m) {p : ChunkPos} {t : ChunkTicket} : t ∈ m.ticketsAt p ↔ t ∈ h p := by
  rw [← ht.held p, Multiset.mem_coe]

theorem mem_keys {p : ChunkPos} {t : ChunkTicket} (h : t ∈ m.ticketsAt p) : p ∈ m.tickets.keys := by
  unfold ChunkTicketManager.ticketsAt at h
  cases hp : m.tickets.lookup p with
  | none => rw [hp] at h; cases h
  | some l =>
    rw [← AList.mem_keys, ← AList.lookup_isSome, hp]
    rfl

theorem strongest (ht : Tracks h m) {q : ChunkPos} {s : ChunkTicketLevel} :
    strongestSimulation (m.ticketsAt q) = some s ↔ h.Strongest q s := by
  rw [strongestSimulation_eq_some]
  simp only [HeldTickets.Strongest, ht.mem]

/-- The load levels, from the strongest level of each source to all held tickets. -/
theorem loadSpec (ht : Tracks h m) {sources : List ChunkPos} (hall : ∀ p, p ∈ m.tickets.keys → p ∈ sources)
    {levels : LevelMap} (hoffers : Offers (loadOffers m.ticketsAt sources) levels) (p : ChunkPos) :
    h.LoadSpec p (levels.lookup p) := by
  have hreach : ∀ n ∈ h.loads p, n ≤ maxLevelRaw → ∃ l ∈ loadOffers m.ticketsAt sources p, l.raw ≤ n := by
    intro n ⟨q, t, htq, heq⟩ hle
    rw [← ht.mem] at htq
    obtain ⟨s, hs⟩ := strongestLoad_isSome htq
    have hst := ChunkTicketLevel.le_iff.mp ((strongestLoad_eq_some.mp hs).2 t htq)
    refine ⟨⟨s.raw + p.chebyshev q, by omega⟩, ⟨q, hall q (mem_keys htq), s, hs, ?_, rfl⟩, ?_⟩
    · unfold ChunkTicketLevel.distanceToMax
      omega
    · show s.raw + p.chebyshev q ≤ n
      omega
  cases hl : levels.lookup p with
  | none =>
    intro n hn
    apply Nat.lt_of_not_le
    intro hle
    obtain ⟨l, hmem, -⟩ := hreach n hn hle
    rw [hoffers.absent p hl] at hmem
    exact hmem
  | some l =>
    obtain ⟨⟨q, _, s, hs, _, heq⟩, hleast⟩ := hoffers.least p l hl
    refine ⟨?_, fun n hn => ?_⟩
    · obtain ⟨⟨t, htq, hts⟩, -⟩ := strongestLoad_eq_some.mp hs
      exact ⟨q, t, ht.mem.mp htq, by rw [heq, hts]⟩
    · by_cases hle : n ≤ maxLevelRaw
      · obtain ⟨l', hl', hn'⟩ := hreach n hn hle
        exact Nat.le_trans (ChunkTicketLevel.le_iff.mp (hleast hl')) hn'
      · have := l.le_max
        omega

theorem propagate (ht : Tracks h m) (hfit : ∀ p, ∀ t ∈ h p, p.Fits t.loadLevel.distanceToMax) (order : IterOrder) :
    Computed h (m.propagate order).1 (m.propagate order).2 := by
  have hsources : SourcesFit m.ticketsAt := fun q t htq => hfit q t (ht.mem.mp htq)
  have hall : ∀ p, p ∈ m.tickets.keys → p ∈ order.walk m.tickets.keys := fun p hp => (order.perm _).mem_iff.mpr hp
  have hempty : Offers (fun _ => ∅) ((∅, ∅) : LevelMap × LevelMap).1 ∧ Offers (fun _ => ∅) ((∅, ∅) : LevelMap × LevelMap).2 :=
    ⟨Offers.empty, Offers.empty⟩
  obtain ⟨hload, hsim⟩ := propagate_offers hsources (order.walk m.tickets.keys) hempty.1 hempty.2
  refine ⟨ht.loadSpec hall (hload.congr fun p l => by rw [Set.empty_union]), hsim.congr fun p l => ?_⟩
  rw [Set.empty_union]
  constructor
  · intro ⟨q, _, s, hs, hrest⟩
    exact ⟨q, s, ht.strongest.mp hs, hrest⟩
  · intro ⟨q, s, hs, hrest⟩
    have ⟨⟨t, htq, _⟩, _⟩ := hs
    exact ⟨q, hall q (mem_keys (ht.mem.mpr htq)), s, ht.strongest.mpr hs, hrest⟩

/-! ## One operation -/

theorem update (ht : Tracks h m) {m' : ChunkTicketManager} {pos : ChunkPos} {held : Multiset ChunkTicket}
    (hpos : (m'.ticketsAt pos : Multiset ChunkTicket) = held)
    (hother : ∀ p, p ≠ pos → m'.tickets.lookup p = m.tickets.lookup p) (hd : m'.dirty = true) :
    Tracks (Function.update h pos held) m' where
  held p := by
    by_cases hp : p = pos
    · subst hp
      rw [Function.update_self, hpos]
    · rw [Function.update_of_ne hp, ← ht.held p]
      unfold ChunkTicketManager.ticketsAt
      rw [hother p hp]
  computed hclean := by
    rw [hd] at hclean
    cases hclean

theorem unchanged (ht : Tracks h m) {pos : ChunkPos} {held : Multiset ChunkTicket} (hsame : held = h pos) :
    Tracks (Function.update h pos held) m := by
  rw [hsame, Function.update_eq_self]
  exact ht

theorem addTicket (ht : Tracks h m) (pos : ChunkPos) (ticket : ChunkTicket) :
    Tracks (h.step (.addTicket pos ticket)) (m.addTicket pos ticket) := by
  refine ht.update ?_ (fun p hp => AList.lookup_insert_ne hp) rfl
  rw [← ht.held pos]
  unfold ChunkTicketManager.addTicket
  rw [ChunkTicketManager.ticketsAt, AList.lookup_insert]
  exact Multiset.coe_eq_coe.mpr (List.perm_append_singleton _ _)

theorem removeTicket (ht : Tracks h m) (pos : ChunkPos) (ticket : ChunkTicket) :
    Tracks (h.step (.removeTicket pos ticket)) (m.removeTicket pos ticket).1 := by
  show Tracks (Function.update h pos ((h pos).erase ticket)) _
  have hpos := ht.held pos
  unfold ChunkTicketManager.ticketsAt at hpos
  unfold ChunkTicketManager.removeTicket
  cases hl : m.tickets.lookup pos with
  | none =>
    rw [hl] at hpos
    apply ht.unchanged
    rw [← hpos]
    rfl
  | some tickets =>
    rw [hl, Option.getD_some] at hpos
    dsimp only
    cases hidx : tickets.findIdx? fun stored => stored = ticket with
    | none =>
      apply ht.unchanged
      apply Multiset.erase_of_notMem
      intro hmem
      rw [← hpos] at hmem
      exact absurd (List.findIdx?_eq_none_iff.mp hidx ticket hmem) (by simp)
    | some idx =>
      obtain ⟨hlt, hget, -⟩ := List.findIdx?_eq_some_iff_getElem.mp hidx
      have hrest : (swapRemove tickets idx : Multiset ChunkTicket) = (h pos).erase ticket := by
        have hperm := swapRemove_perm hlt
        rw [of_decide_eq_true hget] at hperm
        rw [← hpos, ← Multiset.coe_eq_coe.mpr hperm, ← Multiset.cons_coe, Multiset.erase_cons_head]
      refine ht.update ?_ (fun p hp => ?_) rfl
      · rw [← hrest, ChunkTicketManager.ticketsAt]
        dsimp only
        by_cases hnil : swapRemove tickets idx = []
        · rw [if_pos hnil, AList.lookup_erase, hnil]
          rfl
        · rw [if_neg hnil, AList.lookup_insert]
          rfl
      · dsimp only
        split
        · exact AList.lookup_erase_ne hp
        · exact AList.lookup_insert_ne hp

theorem removeAllTicketsAt (ht : Tracks h m) (pos : ChunkPos) :
    Tracks (h.step (.removeAllTicketsAt pos)) (m.removeAllTicketsAt pos).1 := by
  show Tracks (Function.update h pos 0) _
  have hpos := ht.held pos
  unfold ChunkTicketManager.ticketsAt at hpos
  unfold ChunkTicketManager.removeAllTicketsAt
  cases hl : m.tickets.lookup pos with
  | none =>
    rw [hl] at hpos
    exact ht.unchanged hpos
  | some tickets =>
    refine ht.update ?_ (fun p hp => AList.lookup_erase_ne hp) rfl
    rw [ChunkTicketManager.ticketsAt, AList.lookup_erase]
    rfl

theorem runAllUpdates (ht : Tracks h m) (hfit : ∀ p, ∀ t ∈ h p, p.Fits t.loadLevel.distanceToMax) (o : UpdateOrders) :
    Tracks h (m.runAllUpdates o) ∧ (m.runAllUpdates o).dirty = false ∧ ExactChanges m (m.runAllUpdates o) := by
  unfold ChunkTicketManager.runAllUpdates
  cases hd : m.dirty with
  | false =>
    rw [if_neg Bool.false_ne_true]
    refine ⟨⟨ht.held, fun _ => ht.computed hd⟩, rfl, List.nodup_nil, fun p => ?_, fun c hc => by cases hc⟩
    simp [ChunkTicketManager.getLevel, ChunkTicketManager.getSimulationLevel]
  | true =>
    rw [if_pos rfl]
    have hc := ht.propagate hfit o.tickets
    exact ⟨⟨ht.held, fun _ => hc⟩, rfl, passes_report o hc.load_covers⟩

end Tracks

/-! ## Every sequence of operations -/

/-- The squares of the tickets that are added are made of chunk positions. -/
def TicketsFit (ops : List TicketOp) : Prop :=
  ∀ pos ticket, TicketOp.addTicket pos ticket ∈ ops → pos.Fits ticket.loadLevel.distanceToMax

theorem HeldTickets.mem_update {h : HeldTickets} {pos p : ChunkPos} {held : Multiset ChunkTicket} {t : ChunkTicket}
    (ht : t ∈ Function.update h pos held p) : p = pos ∧ t ∈ held ∨ t ∈ h p := by
  by_cases hp : p = pos
  · subst hp
    rw [Function.update_self] at ht
    exact Or.inl ⟨rfl, ht⟩
  · rw [Function.update_of_ne hp] at ht
    exact Or.inr ht

theorem HeldTickets.mem_step {h : HeldTickets} {op : TicketOp} {p : ChunkPos} {t : ChunkTicket} (ht : t ∈ h.step op p) :
    t ∈ h p ∨ op = .addTicket p t := by
  cases op with
  | addTicket pos ticket =>
    rcases mem_update ht with ⟨rfl, hmem⟩ | hold
    · rw [Multiset.mem_cons] at hmem
      exact hmem.elim (fun heq => Or.inr (by rw [heq])) Or.inl
    · exact Or.inl hold
  | removeTicket pos ticket =>
    rcases mem_update ht with ⟨rfl, hmem⟩ | hold
    · exact Or.inl (Multiset.mem_of_mem_erase hmem)
    · exact Or.inl hold
  | removeAllTicketsAt pos =>
    rcases mem_update ht with ⟨rfl, hmem⟩ | hold
    · cases Multiset.notMem_zero t hmem
    · exact Or.inl hold
  | runAllUpdates o => exact Or.inl ht

theorem Tracks.exec {h : HeldTickets} {m : ChunkTicketManager} (ht : Tracks h m)
    (hfit : ∀ p, ∀ t ∈ h p, p.Fits t.loadLevel.distanceToMax) (op : TicketOp) : Tracks (h.step op) (m.exec op) := by
  cases op with
  | addTicket pos ticket => exact ht.addTicket pos ticket
  | removeTicket pos ticket => exact ht.removeTicket pos ticket
  | removeAllTicketsAt pos => exact ht.removeAllTicketsAt pos
  | runAllUpdates o => exact (ht.runAllUpdates hfit o).1

theorem Tracks.run {ops : List TicketOp} {h : HeldTickets} {m : ChunkTicketManager} (ht : Tracks h m)
    (hfit : ∀ p, ∀ t ∈ h p, p.Fits t.loadLevel.distanceToMax) (hops : TicketsFit ops) :
    Tracks (ops.foldl HeldTickets.step h) (ops.foldl ChunkTicketManager.exec m) ∧
      ∀ p, ∀ t ∈ ops.foldl HeldTickets.step h p, p.Fits t.loadLevel.distanceToMax := by
  induction ops generalizing h m with
  | nil => exact ⟨ht, hfit⟩
  | cons op rest ih =>
    refine ih (ht.exec hfit op) (fun p t htp => ?_) fun pos ticket hmem => hops pos ticket (List.mem_cons_of_mem _ hmem)
    rcases mem_step htp with hold | hadd
    · exact hfit p t hold
    · exact hops p t (by rw [hadd]; exact List.mem_cons_self ..)

theorem Tracks.new : Tracks (fun _ => 0) ChunkTicketManager.new where
  held p := by
    unfold ChunkTicketManager.ticketsAt ChunkTicketManager.new
    rw [AList.lookup_empty]
    rfl
  computed _ :=
    { load := fun p => by
        unfold ChunkTicketManager.new
        rw [AList.lookup_empty]
        intro n ⟨q, t, ht, _⟩
        cases Multiset.notMem_zero t ht
      simulation := Offers.empty.congr fun p l => by
        refine ⟨fun hl => hl.elim, fun ⟨q, s, hs, _⟩ => ?_⟩
        obtain ⟨⟨t, ht, _⟩, _⟩ := hs
        cases Multiset.notMem_zero t ht }

/-- What `run_all_updates` has to do. -/
structure PropagationSpec (h : HeldTickets) (before after : ChunkTicketManager) : Prop where
  load : ∀ p, h.LoadSpec p (after.getLevel p)
  simulation : ∀ p, h.SimulationSpec p (after.getSimulationLevel p)
  changes : ExactChanges before after

/-- What a call of `run_all_updates` after the operations leaves. -/
theorem Tracks.after_update {ops : List TicketOp} (hfit : TicketsFit ops) (o : UpdateOrders) :
    let before := ops.foldl ChunkTicketManager.exec .new
    Computed (.after ops) (before.runAllUpdates o).levels (before.runAllUpdates o).simulationLevels ∧
      ExactChanges before (before.runAllUpdates o) := by
  intro before
  obtain ⟨ht, hheld⟩ := Tracks.new.run (fun p t htp => by cases Multiset.notMem_zero t htp) hfit
  obtain ⟨ht', hclean, hexact⟩ := ht.runAllUpdates hheld o
  exact ⟨ht'.computed hclean, hexact⟩

/-- **Propagation** meets its specification exactly when every simulation level too weak to
tick blocks is covered; its load levels and its change list are right in any case. -/
theorem propagation_spec {ops : List TicketOp} (hfit : TicketsFit ops) (o : UpdateOrders) :
    let before := ops.foldl ChunkTicketManager.exec .new
    let after := before.runAllUpdates o
    (PropagationSpec (.after ops) before after ↔ (HeldTickets.after ops).WeakCovered) ∧
      (∀ p, (HeldTickets.after ops).LoadSpec p (after.getLevel p)) ∧ ExactChanges before after := by
  intro before after
  obtain ⟨⟨hload, hsim⟩, hexact⟩ := Tracks.after_update hfit o
  refine ⟨⟨fun hspec => (simulationSpec_iff hsim).mp hspec.simulation, fun hweak => ?_⟩, hload, hexact⟩
  exact ⟨hload, (simulationSpec_iff hsim).mpr hweak, hexact⟩

section
variable {ticket : ChunkTicket}

theorem single_fit : TicketsFit [.addTicket ⟨0, 0⟩ ticket] := by
  intro pos t hmem
  cases List.mem_singleton.mp hmem
  have hle : ticket.loadLevel.distanceToMax ≤ maxLevelRaw := Nat.sub_le _ _
  exact ChunkPos.Fits.mono (b := maxLevelRaw) ⟨by decide, by decide, by decide, by decide⟩ hle

theorem single_held {p : ChunkPos} {t : ChunkTicket} (ht : t ∈ HeldTickets.after [.addTicket ⟨0, 0⟩ ticket] p) :
    p = ⟨0, 0⟩ ∧ t = ticket := by
  rcases mem_step (show t ∈ HeldTickets.step (fun _ => 0) (.addTicket ⟨0, 0⟩ ticket) p from ht) with hold | hadd
  · cases Multiset.notMem_zero t hold
  · cases hadd
    exact ⟨rfl, rfl⟩

end

theorem loading_ticket_propagates :
    PropagationSpec (.after [.addTicket ⟨0, 0⟩ (.fullChunks 2)]) (ChunkTicketManager.new.addTicket ⟨0, 0⟩ (.fullChunks 2))
      ((ChunkTicketManager.new.addTicket ⟨0, 0⟩ (.fullChunks 2)).runAllUpdates .inserted) := by
  refine (propagation_spec single_fit .inserted).1.mpr ?_
  intro p s ⟨⟨t, ht, hs⟩, _⟩ _
  obtain ⟨-, rfl⟩ := single_held ht
  cases hs

/-- A ticket whose simulation level is `fullChunk` gives its position a simulation level. -/
theorem weak_simulation_kept :
    ¬ ∀ (ops : List TicketOp) (o : UpdateOrders), TicketsFit ops →
      PropagationSpec (.after ops) (ops.foldl ChunkTicketManager.exec .new)
        ((ops.foldl ChunkTicketManager.exec .new).runAllUpdates o) := by
  intro hall
  let ops : List TicketOp := [.addTicket ⟨0, 0⟩ (.simulatedFullChunks 0)]
  have hheld : ChunkTicket.simulatedFullChunks 0 ∈ HeldTickets.after ops ⟨0, 0⟩ := Multiset.mem_singleton_self _
  have hstrongest : (HeldTickets.after ops).Strongest ⟨0, 0⟩ .fullChunk := by
    refine ⟨⟨_, hheld, rfl⟩, fun t ht s hs => ?_⟩
    obtain ⟨-, rfl⟩ := single_held ht
    cases hs
    exact Nat.le_refl _
  have hspec := (hall ops .inserted single_fit).simulation
  obtain ⟨n, ⟨q, s, ⟨⟨t, ht, hs⟩, -⟩, heq⟩, hle⟩ :=
    (simulationSpec_iff (Tracks.after_update single_fit .inserted).1.simulation).mp hspec ⟨0, 0⟩ .fullChunk hstrongest (by decide)
  obtain ⟨-, rfl⟩ := single_held ht
  cases hs
  exact absurd (Nat.le_trans (Nat.le_add_right _ _) (heq ▸ hle)) (by decide)

end Foton
