import Foton.PacketQueue.State
import Foton.PacketQueue.System

/-!
# The selected packet

`select_next` gives the least of the packets that may start.
-/

namespace Foton

section

section
variable {K : Type}

/-- What is selected so far is the least of the candidates. -/
structure Best (C : Nat × K × ScheduledPacketExecution → Prop) (selected : Option (Nat × K × ScheduledPacketExecution)) :
    Prop where
  candidate : ∀ c, selected = some c → C c
  least : ∀ c, C c → ∃ b, selected = some b ∧ b.1 ≤ c.1

/-- The entry may start as far as the cutoff and the next exclusive packet go. -/
structure Offered (beforeSequence nextExclusive : Option Nat) (entry : Option (Nat × K)) (c : Nat × K) : Prop where
  entry : entry = some c
  cutoff : ∀ b, beforeSequence = some b → c.1 < b
  barrier : ∀ e, nextExclusive = some e → c.1 ≤ e

theorem Best.consider {C : Nat × K × ScheduledPacketExecution → Prop}
    {selected : Option (Nat × K × ScheduledPacketExecution)} (h : Best C selected)
    (beforeSequence nextExclusive : Option Nat) (entry : Option (Nat × K)) (execution : ScheduledPacketExecution) :
    Best (fun c => C c ∨ c.2.2 = execution ∧ Offered beforeSequence nextExclusive entry (c.1, c.2.1))
      (PacketQueueState.consider beforeSequence nextExclusive entry execution selected) := by
  have hskip : (∀ c, ¬ Offered beforeSequence nextExclusive entry c) →
      Best (fun c => C c ∨ c.2.2 = execution ∧ Offered beforeSequence nextExclusive entry (c.1, c.2.1)) selected :=
    fun hnone => ⟨fun c hc => Or.inl (h.candidate c hc), fun c hc => h.least c (hc.resolve_right fun hc => hnone _ hc.2)⟩
  unfold PacketQueueState.consider
  cases entry with
  | none => exact hskip fun c hc => by cases hc.entry
  | some e =>
    obtain ⟨sequence, key⟩ := e
    dsimp only
    split
    · rename_i hblocked
      refine hskip fun c hc => ?_
      cases hc.entry
      rw [Bool.or_eq_true, Option.any_eq_true, Option.any_eq_true] at hblocked
      rcases hblocked with ⟨b, hb, hle⟩ | ⟨e, he, hlt⟩
      · exact absurd (hc.cutoff b hb) (by simpa using hle)
      · exact absurd (hc.barrier e he) (by simpa using hlt)
    · rename_i hfree
      have hoffered : Offered beforeSequence nextExclusive (some (sequence, key)) (sequence, key) := by
        refine ⟨rfl, fun b hb => ?_, fun e he => ?_⟩
        · simp_all
        · simp_all
      split
      · rename_i hbetter
        refine ⟨fun c hc => ?_, fun c hc => ⟨_, rfl, ?_⟩⟩
        · cases hc
          exact Or.inr ⟨rfl, hoffered⟩
        · rcases hc with hc | ⟨-, hc⟩
          · obtain ⟨b, rfl, hle⟩ := h.least c hc
            exact le_trans (by simpa using (of_decide_eq_true hbetter).le) hle
          · cases hc.entry
            exact le_refl _
      · rename_i hworse
        refine ⟨fun c hc => Or.inl (h.candidate c hc), fun c hc => ?_⟩
        rcases hc with hc | ⟨-, hc⟩
        · exact h.least c hc
        · cases selected with
          | none => exact absurd rfl hworse
          | some b =>
            have hentry := hc.entry
            refine ⟨b, rfl, ?_⟩
            simp_all

theorem Best.congr {C C' : Nat × K × ScheduledPacketExecution → Prop}
    {selected : Option (Nat × K × ScheduledPacketExecution)} (h : Best C selected) (hC : ∀ c, C c ↔ C' c) :
    Best C' selected :=
  ⟨fun c hc => (hC c).mp (h.candidate c hc), fun c hc => h.least c ((hC c).mpr hc)⟩

theorem Best.considerIf {C : Nat × K × ScheduledPacketExecution → Prop}
    {selected : Option (Nat × K × ScheduledPacketExecution)} (h : Best C selected) (condition : Bool)
    (beforeSequence nextExclusive : Option Nat) (entry : Option (Nat × K)) (execution : ScheduledPacketExecution) :
    Best (fun c => C c ∨ condition = true ∧ c.2.2 = execution ∧ Offered beforeSequence nextExclusive entry (c.1, c.2.1))
      (if condition then PacketQueueState.consider beforeSequence nextExclusive entry execution selected else selected) := by
  cases condition with
  | false => simpa using h
  | true => simpa using h.consider beforeSequence nextExclusive entry execution

end

variable {K T : Type} [LinearOrder K]

/-- A packet that may start, with the heaps it leaves then. -/
structure Selectable (s : PacketQueueState K T) (beforeSequence : Option Nat) (c : Nat × K × ScheduledPacketExecution) :
    Prop where
  idle : s.exclusiveActive = false
  offered : Offered beforeSequence s.exclusive.peek (s.readyHeap c.2.2).peek (c.1, c.2.1)
  serialized : c.2.2 = .serialized → s.serializedActive = false ∧ s.serialized.peek = some c.1
  exclusive : c.2.2 = .exclusive → s.active = 0 ∧ s.exclusive.peek = some c.1

theorem selectNext_best (s : PacketQueueState K T) (beforeSequence : Option Nat) :
    Best (Selectable s beforeSequence) (s.selectNext beforeSequence) := by
  unfold PacketQueueState.selectNext
  cases hidle : s.exclusiveActive with
  | true => exact ⟨fun c hc => (by cases hc), fun c hc => absurd hc.idle (by simp [hidle])⟩
  | false =>
    have hnone : Best (fun _ => False) (none : Option (Nat × K × ScheduledPacketExecution)) :=
      ⟨fun c hc => (by cases hc), fun c hc => hc.elim⟩
    have hbest := ((hnone.consider beforeSequence s.exclusive.peek s.playerLocalReady.peek .playerLocal).considerIf
      (!s.serializedActive && s.serializedReady.peek.any (some ·.1 = s.serialized.peek)) beforeSequence
      s.exclusive.peek s.serializedReady.peek .serialized).considerIf
      (s.active = 0 && s.exclusiveReady.peek.any (some ·.1 = s.exclusive.peek)) beforeSequence s.exclusive.peek
      s.exclusiveReady.peek .exclusive
    refine hbest.congr fun c => ?_
    obtain ⟨n, key, execution⟩ := c
    constructor
    · rintro (((hc | ⟨rfl, hoffered⟩) | ⟨hclass, rfl, hoffered⟩) | ⟨hclass, rfl, hoffered⟩)
      · exact hc.elim
      · exact ⟨hidle, hoffered, by simp, by simp⟩
      · have hentry := hoffered.entry
        refine ⟨hidle, hoffered, fun _ => ?_, by simp⟩
        simp_all
      · have hentry := hoffered.entry
        refine ⟨hidle, hoffered, by simp, fun _ => ?_⟩
        simp_all
    · intro h
      have hentry := h.offered.entry
      cases execution with
      | playerLocal => exact Or.inl (Or.inl (Or.inr ⟨rfl, h.offered⟩))
      | serialized =>
        obtain ⟨hactive, hpeek⟩ := h.serialized rfl
        refine Or.inl (Or.inr ⟨?_, rfl, h.offered⟩)
        simp_all [PacketQueueState.readyHeap]
      | exclusive =>
        obtain ⟨hactive, hpeek⟩ := h.exclusive rfl
        refine Or.inr ⟨?_, rfl, h.offered⟩
        simp_all [PacketQueueState.readyHeap]

end

/-!
## The operations keep the queue exact

Each operation succeeds on an exact queue and changes one lane, so that what it
does to the queued packets, the fronts and the held packets says it all.
-/

section

variable {K T : Type} [LinearOrder K] {s s' : PacketQueueState K T} {works works' : List (PacketWork K T)} {key : K}

@[simp]
theorem assertThat_true {condition : Bool} (h : condition = true) (message : String) :
    assertThat condition message = .ok () := by simp [assertThat, h]

@[simp]
theorem expectSome_some {α : Type} (a : α) (message : String) : expectSome (some a) message = .ok a := rfl

/-! ## Changing one lane -/

/-- Only the lane of `key` differs. -/
def LaneChanged (s s' : PacketQueueState K T) (key : K) (new : Option (PacketLane T)) : Prop :=
  ∀ a, s'.lanes.lookup a = if a = key then new else s.lanes.lookup a

theorem LaneChanged.queuedIn {new : Option (PacketLane T)} (h : LaneChanged s s' key new) (a : K) :
    s'.queuedIn a = if a = key then (new.map PacketLane.queued).getD [] else s.queuedIn a := by
  unfold PacketQueueState.queuedIn
  rw [h a]
  split <;> rfl

theorem LaneChanged.frontOf {new : Option (PacketLane T)} (h : LaneChanged s s' key new) (a : K) :
    s'.frontOf a = if a = key then new.bind PacketLane.front else s.frontOf a := by
  unfold PacketQueueState.frontOf
  rw [h a]
  split <;> rfl

theorem LaneChanged.kept {new : Option (PacketLane T)} (h : LaneChanged s s' key new)
    (hlanes : ∀ a, LaneKept (heldIn works a) (s.lanes.lookup a)) (hworks : ∀ a, a ≠ key → heldIn works' a = heldIn works a)
    (hnew : LaneKept (heldIn works' key) new) (a : K) : LaneKept (heldIn works' a) (s'.lanes.lookup a) := by
  rw [h a]
  split
  · rename_i heq
    rw [heq]
    exact hnew
  · rename_i hne
    rw [hworks a hne]
    exact hlanes a

theorem QueuesOrdered.sublist (h : QueuesOrdered s) (hsub : ∀ a, (s'.queuedIn a).Sublist (s.queuedIn a))
    (hnext : s'.nextSequence = s.nextSequence) : QueuesOrdered s' where
  sorted a := (h.sorted a).sublist (hsub a)
  below a p hp := hnext ▸ h.below a p ((hsub a).subset hp)
  distinct a a' p hp p' hp' heq := h.distinct a a' p ((hsub a).subset hp) p' ((hsub a').subset hp') heq

theorem QueuesOrdered.eq_of_sequence (h : QueuesOrdered s) {a a' : K} {p p' : SequencedPacket T} (hp : p ∈ s.queuedIn a)
    (hp' : p' ∈ s.queuedIn a') (heq : p.sequence = p'.sequence) : a = a' ∧ p = p' := by
  obtain rfl := h.distinct a a' p hp p' hp' heq
  have hnodup : ((s.queuedIn a).map SequencedPacket.sequence).Nodup :=
    (List.pairwise_map.mpr (h.sorted a)).imp fun hlt => Nat.ne_of_lt hlt
  exact ⟨rfl, List.inj_on_of_nodup_map hnodup hp hp' heq⟩

theorem ReadyExact.update {execution : ScheduledPacketExecution} {heap heap' : ReadyHeap K}
    (h : ReadyExact s execution heap) {new : Option (SequencedPacket T)}
    (hfront : ∀ a, s'.frontOf a = if a = key then new else s.frontOf a) (hnodup : heap'.toList.Nodup)
    (hmem : ∀ n a, (n, a) ∈ heap'.toList ↔ a ≠ key ∧ (n, a) ∈ heap.toList ∨
      a = key ∧ ∃ p, new = some p ∧ p.sequence = n ∧ p.execution = execution) : ReadyExact s' execution heap' := by
  refine ⟨hnodup, fun n a => ?_⟩
  rw [hmem, h.mem, hfront]
  by_cases ha : a = key
  · simp [ha]
  · simp [ha]

theorem SequencesExact.remove {execution : ScheduledPacketExecution} {heap heap' : SequenceHeap} (h : SequencesExact s execution heap) (gone : Nat → Prop)
    (hqueued : ∀ a q, q ∈ s'.queuedIn a ↔ q ∈ s.queuedIn a ∧ ¬ gone q.sequence) (hnodup : heap'.toList.Nodup)
    (hheap : ∀ m, m ∈ heap'.toList ↔ m ∈ heap.toList ∧ ¬ gone m) : SequencesExact s' execution heap' := by
  refine ⟨hnodup, fun m => ?_⟩
  rw [hheap, h.mem]
  constructor
  · rintro ⟨⟨a, q, hq, rfl, hexec⟩, hkept⟩
    exact ⟨a, q, (hqueued a q).mpr ⟨hq, hkept⟩, rfl, hexec⟩
  · rintro ⟨a, q, hq, rfl, hexec⟩
    obtain ⟨hq, hkept⟩ := (hqueued a q).mp hq
    exact ⟨⟨a, q, hq, rfl, hexec⟩, hkept⟩

theorem queued_of_front {p : SequencedPacket T} (h : s.frontOf key = some p) : p ∈ s.queuedIn key := by
  unfold PacketQueueState.frontOf at h
  unfold PacketQueueState.queuedIn
  obtain ⟨lane, hlane, hfront⟩ := Option.bind_eq_some_iff.mp h
  rw [hlane]
  unfold PacketLane.front at hfront
  split at hfront
  · cases hfront
  · exact List.mem_of_head? hfront

theorem heldIn_append (works : List (PacketWork K T)) (w : PacketWork K T) (a : K) :
    heldIn (works ++ [w]) a = heldIn works a ++ if w.key = a then [w] else [] := by
  unfold heldIn
  rw [List.filter_append]
  by_cases ha : w.key = a <;> simp [ha]

/-! ## Submitting -/

/-- The lane of `key`, or a new one. -/
def laneAt (s : PacketQueueState K T) (key : K) : PacketLane T := (s.lanes.lookup key).getD .new

theorem queuedIn_eq : s.queuedIn key = (laneAt s key).queued := by
  unfold PacketQueueState.queuedIn laneAt
  cases s.lanes.lookup key <;> rfl

theorem frontOf_eq : s.frontOf key = (laneAt s key).front := by
  unfold PacketQueueState.frontOf laneAt
  cases s.lanes.lookup key <;> rfl

theorem laneAt_exact (h : LaneKept (heldIn works key) (s.lanes.lookup key)) : (laneAt s key).Exact (heldIn works key) := by
  unfold laneAt
  cases hlane : s.lanes.lookup key with
  | none =>
    rw [hlane] at h
    rw [show heldIn works key = [] from h]
    exact ⟨rfl, rfl, rfl⟩
  | some lane =>
    rw [hlane] at h
    exact h.1

section
variable {p : SequencedPacket T}

omit [LinearOrder K] in
theorem PacketLane.Exact.pushBack {held : List (PacketWork K T)} {lane : PacketLane T} (h : lane.Exact held) :
    (lane.pushBack p).Exact held where
  active := h.active
  packets := by simp [PacketLane.pushBack, h.packets, Nat.add_right_comm]
  bytes := by simp [PacketLane.pushBack, h.bytes, Nat.add_right_comm]

theorem front_pushBack (lane : PacketLane T) :
    (lane.pushBack p).front = if lane.becomesReady then some p else lane.front := by
  unfold PacketLane.front PacketLane.becomesReady PacketLane.pushBack
  cases lane.active <;> cases lane.queued <;> simp

theorem enqueue_changed : LaneChanged s (s.enqueue key p) key (some ((laneAt s key).pushBack p)) := by
  intro a
  rw [← AssocList.lookup_insert]
  cases hready : (laneAt s key).becomesReady <;> unfold laneAt at hready <;>
    simp [PacketQueueState.enqueue, laneAt, hready]

theorem enqueue_readyHeap (execution : ScheduledPacketExecution) : (s.enqueue key p).readyHeap execution =
    if (laneAt s key).becomesReady = true ∧ execution = p.execution then (s.readyHeap execution).push (p.sequence, key)
    else s.readyHeap execution := by
  cases hready : (laneAt s key).becomesReady <;> unfold laneAt at hready <;> simp [PacketQueueState.enqueue, hready]

theorem enqueue_queuedIn (a : K) :
    (s.enqueue key p).queuedIn a = if a = key then s.queuedIn key ++ [p] else s.queuedIn a := by
  rw [enqueue_changed.queuedIn, @queuedIn_eq K T _ s key]
  rfl

theorem mem_enqueue {a : K} {q : SequencedPacket T} :
    q ∈ (s.enqueue key p).queuedIn a ↔ q ∈ s.queuedIn a ∨ a = key ∧ q = p := by
  rw [enqueue_queuedIn]
  by_cases ha : a = key
  · simp [ha]
  · simp [ha]

theorem enqueue_ordered (h : QueuesOrdered s) (hp : p.sequence = s.nextSequence) : QueuesOrdered (s.enqueue key p) where
  sorted a := by
    rw [enqueue_queuedIn]
    split
    · refine List.pairwise_append.mpr ⟨h.sorted key, List.pairwise_singleton _ _, fun q hq r hr => ?_⟩
      rw [List.mem_singleton.mp hr, hp]
      exact h.below key q hq
    · exact h.sorted a
  below a q hq := by
    rw [PacketQueueState.enqueue_nextSequence, hp]
    rcases mem_enqueue.mp hq with hq | ⟨-, rfl⟩
    · exact Nat.lt_succ_of_lt (h.below a q hq)
    · omega
  distinct a a' q hq q' hq' heq := by
    rcases mem_enqueue.mp hq with hq | ⟨ha, hqp⟩ <;> rcases mem_enqueue.mp hq' with hq' | ⟨ha', hqp'⟩
    · exact h.distinct a a' q hq q' hq' heq
    · exact absurd (h.below a q hq) (by rw [heq, hqp', hp]; exact Nat.lt_irrefl _)
    · exact absurd (h.below a' q' hq') (by rw [← heq, hqp, hp]; exact Nat.lt_irrefl _)
    · rw [ha, ha']

theorem front_of_becomesReady {lane : PacketLane T} (h : lane.becomesReady = true) : lane.front = none := by
  unfold PacketLane.becomesReady at h
  unfold PacketLane.front
  simp_all

theorem enqueue_ready (h : s.Exact works) (hp : p.sequence = s.nextSequence) (execution : ScheduledPacketExecution) :
    ReadyExact (s.enqueue key p) execution ((s.enqueue key p).readyHeap execution) := by
  have hfront : ∀ a, (s.enqueue key p).frontOf a =
      if a = key then (if (laneAt s key).becomesReady then some p else (laneAt s key).front) else s.frontOf a := fun a => by
    rw [enqueue_changed.frontOf, Option.bind_some, front_pushBack]
  have hnew : (p.sequence, key) ∉ (s.readyHeap execution).toList := fun hmem => by
    obtain ⟨q, hq, hsequence, -⟩ := ((h.ready execution).mem _ _).mp hmem
    have hbelow := h.ordered.below key q (queued_of_front hq)
    omega
  have hself : ∀ n, (n, key) ∈ (s.readyHeap execution).toList ↔
      ∃ q, (laneAt s key).front = some q ∧ q.sequence = n ∧ q.execution = execution := fun n => by
    rw [(h.ready execution).mem, frontOf_eq]
  rw [enqueue_readyHeap]
  refine (h.ready execution).update hfront ?_ fun n a => ?_
  · split
    · exact PriorityQueue.nodup_push (h.ready execution).nodup hnew
    · exact (h.ready execution).nodup
  · by_cases ha : a = key
    · subst ha
      cases hready : (laneAt s a).becomesReady with
      | false => simp [hself]
      | true =>
        have hnone : ∀ n, (n, a) ∉ (s.readyHeap execution).toList := fun n => by
          simp [hself, front_of_becomesReady hready]
        by_cases hexec : execution = p.execution
        · simp [hexec, PriorityQueue.mem_push, hexec ▸ hnone n, eq_comm]
        · simp [hexec, hnone, Ne.symm hexec]
    · split
      · simp [PriorityQueue.mem_push, ha]
      · simp [ha]

theorem enqueue_sequences {execution : ScheduledPacketExecution} {heap : SequenceHeap}
    (h : SequencesExact s execution heap) (hordered : QueuesOrdered s) (hp : p.sequence = s.nextSequence) :
    SequencesExact (s.enqueue key p) execution (if p.execution = execution then heap.push p.sequence else heap) := by
  have hnew : p.sequence ∉ heap.toList := fun hmem => by
    obtain ⟨a, q, hq, hsequence, -⟩ := (h.mem _).mp hmem
    have hbelow := hordered.below a q hq
    omega
  refine ⟨?_, fun n => ?_⟩
  · split
    · exact PriorityQueue.nodup_push h.nodup hnew
    · exact h.nodup
  · have hmem : n ∈ (if p.execution = execution then heap.push p.sequence else heap).toList ↔
        n ∈ heap.toList ∨ p.sequence = n ∧ p.execution = execution := by
      split
      · rename_i hexec
        simp [PriorityQueue.mem_push, hexec, or_comm, eq_comm]
      · rename_i hexec
        simp [hexec]
    rw [hmem, h.mem]
    constructor
    · rintro (⟨a, q, hq, hsequence⟩ | hsequence)
      · exact ⟨a, q, mem_enqueue.mpr (Or.inl hq), hsequence⟩
      · exact ⟨key, p, mem_enqueue.mpr (Or.inr ⟨rfl, rfl⟩), hsequence⟩
    · rintro ⟨a, q, hq, hsequence⟩
      rcases mem_enqueue.mp hq with hq | ⟨-, rfl⟩
      · exact Or.inl ⟨a, q, hq, hsequence⟩
      · exact Or.inr hsequence

theorem enqueue_exact (h : s.Exact works) (hphase : s.phase ≠ .stopped) (hp : p.sequence = s.nextSequence) :
    (s.enqueue key p).Exact works where
  lanes := enqueue_changed.kept h.lanes (fun _ _ => rfl)
    ⟨(laneAt_exact (h.lanes key)).pushBack, Or.inr (by simp [PacketLane.pushBack])⟩
  ordered := enqueue_ordered h.ordered hp
  ready := enqueue_ready h hp
  serialized := by simpa using enqueue_sequences h.serialized h.ordered hp
  exclusive := by simpa using enqueue_sequences h.exclusive h.ordered hp
  running := ⟨by simpa using h.running.active, by simpa using h.running.serializedActive,
    by simpa using h.running.exclusiveActive, by simpa using h.running.alone⟩
  stopped hstopped := absurd (by simpa using hstopped) hphase

end

end

end Foton
