import Foton.PacketQueue.Exact

/-!
# Starting a packet

A selected packet is the front of an inactive lane and the least of its heaps,
so no assertion of `start_next` fails.
-/

namespace Foton

variable {K T : Type} [LinearOrder K] {s s' : PacketQueueState K T} {works : List (PacketWork K T)} {key : K}
  {beforeSequence : Option Nat} {n : Nat} {execution : ScheduledPacketExecution}

theorem mem_of_peek {α κ : Type} [LinearOrder κ] {key : α → κ} {q : PriorityQueue key} {a : α} (h : q.peek = some a) :
    a ∈ q.toList :=
  List.mem_of_head? h

/-! ## The selected packet -/

theorem Selectable.front (h : Selectable s beforeSequence (n, key, execution)) (hs : s.Exact works) :
    ∃ p, s.frontOf key = some p ∧ p.sequence = n ∧ p.execution = execution :=
  ((hs.ready execution).mem n key).mp (mem_of_peek h.offered.entry)

theorem lane_of_front {p : SequencedPacket T} (h : s.frontOf key = some p) :
    ∃ lane rest, s.lanes.lookup key = some lane ∧ lane.active = false ∧ lane.queued = p :: rest := by
  obtain ⟨lane, hlane, hfront⟩ := Option.bind_eq_some_iff.mp h
  unfold PacketLane.front at hfront
  split at hfront
  · cases hfront
  · rename_i hactive
    cases hqueued : lane.queued with
    | nil => simp [hqueued] at hfront
    | cons q rest =>
      rw [hqueued] at hfront
      cases hfront
      exact ⟨lane, rest, hlane, by simpa using hactive, hqueued⟩

/-- The heaps without the entry that was taken. -/
structure Taken (s s' : PacketQueueState K T) (n : Nat) (key : K) (execution : ScheduledPacketExecution) : Prop where
  lanes : s'.lanes = s.lanes
  phase : s'.phase = s.phase
  nextSequence : s'.nextSequence = s.nextSequence
  active : s'.active = s.active
  ready : ∀ e, (s.readyHeap e).toList = (if e = execution then [(n, key)] else []) ++ (s'.readyHeap e).toList
  serialized : s.serialized.toList = (if execution = .serialized then [n] else []) ++ s'.serialized.toList
  exclusive : s.exclusive.toList = (if execution = .exclusive then [n] else []) ++ s'.exclusive.toList
  serializedActive : s'.serializedActive = (s.serializedActive || execution = .serialized)
  exclusiveActive : s'.exclusiveActive = (s.exclusiveActive || execution = .exclusive)

theorem popEntry_ok {α κ : Type} [LinearOrder κ] [DecidableEq α] {key : α → κ} {q : PriorityQueue key} {a : α}
    (h : q.peek = some a) (message : String) :
    ∃ q', popEntry q a message = .ok q' ∧ q.toList = a :: q'.toList := by
  obtain ⟨q', hpop, hlist⟩ := PriorityQueue.pop_of_peek h
  exact ⟨q', by simp [popEntry, hpop], hlist⟩

theorem takeReady_ok (h : Selectable s beforeSequence (n, key, execution)) :
    ∃ s', s.takeReady n key execution = .ok s' ∧ Taken s s' n key execution := by
  have hpeek := h.offered.entry
  have hidle := h.idle
  cases execution with
  | playerLocal =>
    obtain ⟨ready, hready, hlist⟩ := popEntry_ok hpeek "player-local ready queue changed while the queue lock was held"
    refine ⟨{ s with playerLocalReady := ready }, ?_, ⟨rfl, rfl, rfl, rfl, fun e => ?_, rfl, rfl, by simp, by simp⟩⟩
    · simp only [PacketQueueState.readyHeap] at hready
      simp [PacketQueueState.takeReady, hready, bind, Except.bind]
    · cases e
      · exact hlist
      · rfl
      · rfl
  | serialized =>
    obtain ⟨hactive, hsequence⟩ := h.serialized rfl
    obtain ⟨ready, hready, hlist⟩ := popEntry_ok hpeek "serialized ready queue changed while the queue lock was held"
    obtain ⟨serialized, hserialized, hlist'⟩ := popEntry_ok hsequence
      "serialized packet order changed while the queue lock was held"
    refine ⟨{ s with serializedReady := ready, serialized := serialized, serializedActive := true }, ?_,
      ⟨rfl, rfl, rfl, rfl, fun e => ?_, hlist', rfl, by simp, by simp⟩⟩
    · simp only [PacketQueueState.readyHeap] at hready
      simp [PacketQueueState.takeReady, hready, hserialized, hactive, bind, Except.bind]
    · cases e
      · rfl
      · exact hlist
      · rfl
  | exclusive =>
    obtain ⟨-, hsequence⟩ := h.exclusive rfl
    obtain ⟨ready, hready, hlist⟩ := popEntry_ok hpeek "exclusive ready queue changed while the queue lock was held"
    obtain ⟨exclusive, hexclusive, hlist'⟩ := popEntry_ok hsequence
      "exclusive packet barrier changed while the queue lock was held"
    refine ⟨{ s with exclusiveReady := ready, exclusive := exclusive, exclusiveActive := true }, ?_,
      ⟨rfl, rfl, rfl, rfl, fun e => ?_, rfl, hlist', by simp, by simp⟩⟩
    · simp only [PacketQueueState.readyHeap] at hready
      simp [PacketQueueState.takeReady, hready, hexclusive, bind, Except.bind]
    · cases e
      · rfl
      · rfl
      · exact hlist

omit [LinearOrder K] in
theorem classCount_append (works : List (PacketWork K T)) (w : PacketWork K T) (e : ScheduledPacketExecution)
    {count : Bool} (h : (works.filter (·.packet.execution = e)).length = count.toNat)
    (hfree : w.packet.execution = e → count = false) :
    ((works ++ [w]).filter (·.packet.execution = e)).length = (count || w.packet.execution = e).toNat := by
  by_cases he : w.packet.execution = e
  · simp [he, h, hfree he]
  · simp [he, h]

/-! ## The state afterwards -/

/-- A packet has left the front of its lane and is held. -/
def started (s s₁ : PacketQueueState K T) (key : K) (lane : PacketLane T) (rest : List (SequencedPacket T)) :
    PacketQueueState K T :=
  { s₁ with lanes := s₁.lanes.insert key { lane with queued := rest, active := true }, active := s.active + 1 }

section
variable {lane : PacketLane T} {p : SequencedPacket T} {rest : List (SequencedPacket T)} {s₁ : PacketQueueState K T}

theorem started_changed (htaken : Taken s s₁ n key execution) :
    LaneChanged s (started s s₁ key lane rest) key (some { lane with queued := rest, active := true }) := by
  intro a
  rw [← AssocList.lookup_insert]
  simp [started, htaken.lanes]

theorem readyHeap_started (e : ScheduledPacketExecution) :
    (started s s₁ key lane rest).readyHeap e = s₁.readyHeap e := by
  cases e <;> rfl

variable (hs : s.Exact works) (hlane : s.lanes.lookup key = some lane) (hactive : lane.active = false)
  (hqueued : lane.queued = p :: rest)
include hlane hqueued

theorem queuedIn_front : s.queuedIn key = p :: rest := by
  simp [PacketQueueState.queuedIn, hlane, hqueued]

include hs

theorem mem_started (htaken : Taken s s₁ p.sequence key p.execution) (a : K) (q : SequencedPacket T) :
    q ∈ (started s s₁ key lane rest).queuedIn a ↔ q ∈ s.queuedIn a ∧ ¬ q.sequence = p.sequence := by
  have hfront := queuedIn_front hlane hqueued
  have hp : p ∈ s.queuedIn key := by simp [hfront]
  rw [(started_changed htaken).queuedIn]
  by_cases ha : a = key
  · subst ha
    have hsorted := hs.ordered.sorted a
    rw [hfront, List.pairwise_cons] at hsorted
    simp only [Option.map_some, Option.getD_some, if_true, hfront, List.mem_cons]
    constructor
    · intro hq
      exact ⟨Or.inr hq, (hsorted.1 q hq).ne'⟩
    · rintro ⟨rfl | hq, hne⟩
      · exact absurd rfl hne
      · exact hq
  · rw [if_neg ha]
    refine ⟨fun hq => ⟨hq, fun heq => ha ?_⟩, fun hq => hq.1⟩
    exact (hs.ordered.eq_of_sequence hq hp heq).1

theorem started_sequences (htaken : Taken s s₁ p.sequence key p.execution) {class_ : ScheduledPacketExecution}
    {heap heap' : SequenceHeap} (h : SequencesExact s class_ heap)
    (hheap : heap.toList = (if p.execution = class_ then [p.sequence] else []) ++ heap'.toList) :
    SequencesExact (started s s₁ key lane rest) class_ heap' := by
  have hp : p ∈ s.queuedIn key := by simp [queuedIn_front hlane hqueued]
  have hnodup := h.nodup
  rw [hheap] at hnodup
  refine h.remove (· = p.sequence) (mem_started hs hlane hqueued htaken) (List.nodup_append.mp hnodup).2.1 fun m => ?_
  by_cases hclass : p.execution = class_
  · rw [if_pos hclass] at hheap hnodup
    rw [hheap]
    have hne : ∀ m ∈ heap'.toList, m ≠ p.sequence := fun m hm heq =>
      (List.nodup_cons.mp hnodup).1 (heq ▸ hm)
    simp only [List.singleton_append, List.mem_cons]
    constructor
    · exact fun hm => ⟨Or.inr hm, hne m hm⟩
    · rintro ⟨rfl | hm, hkept⟩
      · exact absurd rfl hkept
      · exact hm
  · rw [if_neg hclass, List.nil_append] at hheap
    rw [hheap]
    refine ⟨fun hm => ⟨hm, fun heq => hclass ?_⟩, fun hm => hm.1⟩
    obtain ⟨a, q, hq, hsequence, hexec⟩ := (h.mem m).mp (hheap ▸ hm)
    obtain ⟨-, rfl⟩ := hs.ordered.eq_of_sequence hq hp (hsequence.trans heq)
    exact hexec

include hactive

theorem started_ready (htaken : Taken s s₁ p.sequence key p.execution) (e : ScheduledPacketExecution) :
    ReadyExact (started s s₁ key lane rest) e ((started s s₁ key lane rest).readyHeap e) := by
  have hfront : s.frontOf key = some p := by
    simp [PacketQueueState.frontOf, PacketLane.front, hlane, hactive, hqueued]
  have hheap := htaken.ready e
  have hnodup := (hs.ready e).nodup
  rw [hheap] at hnodup
  rw [readyHeap_started]
  have hchanged : ∀ a, (started s s₁ key lane rest).frontOf a = if a = key then none else s.frontOf a := fun a => by
    rw [(started_changed htaken).frontOf]
    rfl
  refine (hs.ready e).update hchanged (List.nodup_append.mp hnodup).2.1 fun m a => ?_
  have hself : ∀ m, (m, key) ∈ (s.readyHeap e).toList ↔ m = p.sequence ∧ e = p.execution := fun m => by
    simp [(hs.ready e).mem, hfront, eq_comm]
  have hmem : (m, a) ∈ (s.readyHeap e).toList ↔
      (e = p.execution ∧ m = p.sequence ∧ a = key) ∨ (m, a) ∈ (s₁.readyHeap e).toList := by
    rw [hheap]
    by_cases he : e = p.execution <;> simp [he]
  have hnew : (m, key) ∉ (s₁.readyHeap e).toList := fun hm => by
    have hold : (m, key) ∈ (s.readyHeap e).toList := by rw [hheap]; exact List.mem_append_right _ hm
    obtain ⟨rfl, he⟩ := (hself m).mp hold
    rw [if_pos he, List.singleton_append] at hnodup
    exact (List.nodup_cons.mp hnodup).1 hm
  by_cases ha : a = key
  · subst ha
    simp [hnew]
  · simp [hmem, ha]

omit hlane hactive hqueued in
theorem started_running (h : Selectable s beforeSequence (p.sequence, key, p.execution))
    (htaken : Taken s s₁ p.sequence key p.execution) :
    ActiveExact (started s s₁ key lane rest) (works ++ [⟨key, p⟩]) where
  active := by simp [started, hs.running.active]
  serializedActive := by
    refine (classCount_append works ⟨key, p⟩ .serialized hs.running.serializedActive fun he => ?_).trans ?_
    · exact (h.serialized he).1
    · exact congrArg Bool.toNat htaken.serializedActive.symm
  exclusiveActive := by
    refine (classCount_append works ⟨key, p⟩ .exclusive hs.running.exclusiveActive fun _ => h.idle).trans ?_
    exact congrArg Bool.toNat htaken.exclusiveActive.symm
  alone hexclusive := by
    have hflag : (s.exclusiveActive || p.execution = .exclusive) = true := htaken.exclusiveActive ▸ hexclusive
    have hexec : p.execution = .exclusive := by simpa [h.idle] using hflag
    have hnone : works.length = 0 := hs.running.active ▸ (h.exclusive hexec).1
    simp [hnone]

theorem started_exact (h : Selectable s beforeSequence (p.sequence, key, p.execution))
    (htaken : Taken s s₁ p.sequence key p.execution) :
    (started s s₁ key lane rest).Exact (works ++ [⟨key, p⟩]) := by
  have hfront := queuedIn_front hlane hqueued
  have hkept := hs.lanes key
  rw [hlane] at hkept
  obtain ⟨⟨hheld, hpackets, hbytes⟩, -⟩ := hkept
  rw [hactive, Bool.toNat_false, List.length_eq_zero_iff] at hheld
  rw [hheld, hqueued] at hpackets hbytes
  refine ⟨?_, ?_, started_ready hs hlane hactive hqueued htaken, ?_, ?_, ?_, ?_⟩
  · refine (started_changed htaken).kept hs.lanes (fun a ha => ?_) ⟨?_, Or.inl rfl⟩
    · rw [heldIn_append, if_neg (Ne.symm ha), List.append_nil]
    · rw [heldIn_append, hheld, if_pos rfl]
      exact ⟨rfl, by simpa using hpackets, by simp_all [Nat.add_comm]⟩
  · refine hs.ordered.sublist (fun a => ?_) htaken.nextSequence
    rw [(started_changed htaken).queuedIn]
    split
    · rename_i heq
      rw [heq, hfront]
      exact List.sublist_cons_self p rest
    · exact List.Sublist.refl _
  · exact started_sequences hs hlane hqueued htaken hs.serialized htaken.serialized
  · exact started_sequences hs hlane hqueued htaken hs.exclusive htaken.exclusive
  · exact started_running hs h htaken
  · intro hstopped
    have hempty := hs.stopped (htaken.phase ▸ hstopped) key
    rw [hfront] at hempty
    cases hempty

end

/-! ## The least packet -/

theorem exists_least {p : SequencedPacket T} (hp : p ∈ s.queuedIn key) :
    ∃ a, ∃ m ∈ s.queuedIn a, ∀ b, ∀ q ∈ s.queuedIn b, m.sequence ≤ q.sequence := by
  classical
  have hsome : ∃ n a, ∃ m ∈ s.queuedIn a, m.sequence = n := ⟨_, key, p, hp, rfl⟩
  obtain ⟨a, m, hm, heq⟩ := Nat.find_spec hsome
  exact ⟨a, m, hm, fun b q hq => heq ▸ Nat.find_min' hsome ⟨b, q, hq, rfl⟩⟩

theorem sequence_le_of_peek {heap : SequenceHeap} {m m' : Nat} (h : heap.peek = some m) (hm : m' ∈ heap.toList) :
    m ≤ m' := by
  have hle : id m ≤ id m' := PriorityQueue.le_of_peek h hm
  exact hle

theorem peek_sequences {heap : SequenceHeap} (h : SequencesExact s execution heap) {p : SequencedPacket T}
    (hp : p ∈ s.queuedIn key) (hexec : p.execution = execution)
    (hleast : ∀ a, ∀ q ∈ s.queuedIn a, p.sequence ≤ q.sequence) : heap.peek = some p.sequence := by
  have hmem : p.sequence ∈ heap.toList := (h.mem _).mpr ⟨key, p, hp, rfl, hexec⟩
  obtain ⟨b, hb⟩ := PriorityQueue.exists_peek hmem
  obtain ⟨a, q, hq, rfl, -⟩ := (h.mem b).mp (mem_of_peek hb)
  rw [hb, le_antisymm (sequence_le_of_peek hb hmem) (hleast a q hq)]

theorem peek_ready (hs : s.Exact works) {p : SequencedPacket T} (hp : s.frontOf key = some p)
    (hleast : ∀ a, ∀ q ∈ s.queuedIn a, p.sequence ≤ q.sequence) :
    (s.readyHeap p.execution).peek = some (p.sequence, key) := by
  have hmem : (p.sequence, key) ∈ (s.readyHeap p.execution).toList := ((hs.ready _).mem _ _).mpr ⟨p, hp, rfl, rfl⟩
  obtain ⟨⟨m, a⟩, hb⟩ := PriorityQueue.exists_peek hmem
  obtain ⟨q, hq, rfl, -⟩ := ((hs.ready _).mem m a).mp (mem_of_peek hb)
  have hle : q.sequence ≤ p.sequence := by
    rcases Prod.Lex.le_iff.mp (PriorityQueue.le_of_peek hb hmem) with hlt | ⟨heq, -⟩
    · exact le_of_lt hlt
    · exact le_of_eq heq
  obtain ⟨rfl, rfl⟩ := hs.ordered.eq_of_sequence (queued_of_front hq) (queued_of_front hp)
    (le_antisymm hle (hleast a q (queued_of_front hq)))
  exact hb

theorem front_of_least (hs : s.Exact works) (hidle : s.active = 0) {p : SequencedPacket T} (hp : p ∈ s.queuedIn key)
    (hleast : ∀ a, ∀ q ∈ s.queuedIn a, p.sequence ≤ q.sequence) : s.frontOf key = some p := by
  have hnone : works = [] := List.length_eq_zero_iff.mp (hs.running.active ▸ hidle)
  have hkept := hs.lanes key
  unfold PacketQueueState.queuedIn at hp
  cases hlane : s.lanes.lookup key with
  | none => simp [hlane] at hp
  | some lane =>
    rw [hlane] at hkept hp
    have hactive : lane.active = false := by
      have hlength := hkept.1.active
      cases hcase : lane.active with
      | false => rfl
      | true => simp [hnone, heldIn, hcase] at hlength
    cases hqueued : lane.queued with
    | nil => simp [hqueued] at hp
    | cons q rest =>
      have hself : s.queuedIn key = q :: rest := queuedIn_front hlane hqueued
      have hq : q ∈ s.queuedIn key := by simp [hself]
      have hp' : p ∈ s.queuedIn key := by simpa [hself, hqueued] using hp
      have hle : q.sequence ≤ p.sequence := by
        have hsorted := hs.ordered.sorted key
        rw [hself] at hsorted hp'
        rcases List.mem_cons.mp hp' with rfl | hrest
        · exact le_refl _
        · exact le_of_lt ((List.pairwise_cons.mp hsorted).1 p hrest)
      obtain ⟨-, rfl⟩ := hs.ordered.eq_of_sequence hp' hq (le_antisymm (hleast key q hq) hle)
      simp [PacketQueueState.frontOf, PacketLane.front, hlane, hactive, hqueued]

/-- **Nothing holds back** the least queued packet while nothing runs. -/
theorem selectable_of_least (hs : s.Exact works) (hidle : s.active = 0) {p : SequencedPacket T}
    (hp : p ∈ s.queuedIn key) (hleast : ∀ a, ∀ q ∈ s.queuedIn a, p.sequence ≤ q.sequence)
    (hcutoff : ∀ c, beforeSequence = some c → p.sequence < c) :
    Selectable s beforeSequence (p.sequence, key, p.execution) := by
  have hnone : works = [] := List.length_eq_zero_iff.mp (hs.running.active ▸ hidle)
  refine ⟨?_, ⟨peek_ready hs (front_of_least hs hidle hp hleast) hleast, hcutoff, fun e he => ?_⟩,
    fun hexec => ⟨?_, peek_sequences hs.serialized hp hexec hleast⟩,
    fun hexec => ⟨hidle, peek_sequences hs.exclusive hp hexec hleast⟩⟩
  · cases hflag : s.exclusiveActive with
    | false => rfl
    | true => simpa [hnone] using hs.running.alone hflag
  · obtain ⟨a, q, hq, rfl, -⟩ := (hs.exclusive.mem e).mp (mem_of_peek he)
    exact hleast a q hq
  · cases hflag : s.serializedActive with
    | false => rfl
    | true => simpa [hnone, hflag] using hs.running.serializedActive

/-! ## `start_next` -/

/-- What starting the packet of `w` does. -/
structure Started (s s' : PacketQueueState K T) (works : List (PacketWork K T)) (w : PacketWork K T)
    (beforeSequence : Option Nat) : Prop where
  selected : Selectable s beforeSequence (w.packet.sequence, w.key, w.packet.execution)
  least : ∀ c, Selectable s beforeSequence c → w.packet.sequence ≤ c.1
  front : s.frontOf w.key = some w.packet
  queued : ∀ a q, q ∈ s'.queuedIn a ↔ q ∈ s.queuedIn a ∧ ¬ q.sequence = w.packet.sequence
  nextSequence : s'.nextSequence = s.nextSequence
  phase : s'.phase = s.phase
  exact : s'.Exact (works ++ [w])

/-- `start_next` starts the selected packet; no assertion of it fails. -/
theorem startNext_ok (hs : s.Exact works) (beforeSequence : Option Nat) : s.startNext beforeSequence = .ok none ∨
    ∃ w s', s.startNext beforeSequence = .ok (some (w, s')) ∧
      Started s { s' with active := s'.active + 1 } works w beforeSequence := by
  unfold PacketQueueState.startNext
  cases hselect : s.selectNext beforeSequence with
  | none => exact Or.inl rfl
  | some c =>
    obtain ⟨n, key, execution⟩ := c
    have h := (selectNext_best s beforeSequence).candidate _ hselect
    obtain ⟨p, hfront, rfl, rfl⟩ := h.front hs
    obtain ⟨lane, rest, hlane, hactive, hqueued⟩ := lane_of_front hfront
    obtain ⟨s₁, htake, htaken⟩ := takeReady_ok h
    refine Or.inr ⟨⟨key, p⟩, { s₁ with lanes := s₁.lanes.insert key { lane with queued := rest, active := true } }, ?_,
      h, fun c hc => ?_, hfront, mem_started hs hlane hqueued htaken, htaken.nextSequence, htaken.phase, ?_⟩
    · simp [hlane, hactive, hqueued, htake, htaken.lanes, bind, Except.bind]
    · obtain ⟨b, hb, hle⟩ := (selectNext_best s beforeSequence).least c hc
      rw [hselect] at hb
      cases hb
      exact hle
    · rw [htaken.active]
      exact started_exact hs hlane hactive hqueued h htaken

theorem next_ok (hs : s.Exact works) : s.next = .ok none ∨ ∃ w s' beforeSequence, s.next = .ok (some (w, s')) ∧
    PacketQueueState.startCutoff s.phase = some beforeSequence ∧ Started s s' works w beforeSequence := by
  unfold PacketQueueState.next
  cases hcutoff : PacketQueueState.startCutoff s.phase with
  | none => exact Or.inl rfl
  | some beforeSequence =>
    rcases startNext_ok hs beforeSequence with hnone | ⟨w, s', hstart, hstarted⟩
    · exact Or.inl (by simp [hnone, Except.map])
    · exact Or.inr ⟨w, _, beforeSequence, by simp [hstart, Except.map], rfl, hstarted⟩

end Foton
