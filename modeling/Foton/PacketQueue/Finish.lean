import Foton.PacketQueue.Exact

/-!
# Finishing and discarding

A held packet has its lane and its class active, and the counts of its lane
include it, so no assertion of `finish_one`, `discard_lane` or `stop` fails.
-/

namespace Foton

variable {K T : Type} [LinearOrder K] {s s' : PacketQueueState K T} {works works' : List (PacketWork K T)} {key : K}
  {w : PacketWork K T}

theorem SequencesExact.congr {e : ScheduledPacketExecution} {heap : SequenceHeap} (h : SequencesExact s e heap)
    (hqueued : ∀ a, s'.queuedIn a = s.queuedIn a) : SequencesExact s' e heap :=
  ⟨h.nodup, fun n => by simp only [h.mem, hqueued]⟩

/-! ## Discarding -/

omit [LinearOrder K] in
theorem clearQueued_ok {held : List (PacketWork K T)} {lane : PacketLane T} (h : lane.Exact held) (while_ : String) :
    ∃ cleared, lane.clearQueued while_ = .ok cleared ∧ cleared.Exact held ∧ cleared.queued = [] ∧
      cleared.active = lane.active := by
  refine ⟨⟨[], lane.active, held.length, (held.map fun w => w.packet.admissionBytes).sum⟩, ?_, ⟨h.active, ?_, ?_⟩, rfl, rfl⟩
  · simp [PacketLane.clearQueued, h.packets, h.bytes, bind, Except.bind]
  · simp
  · simp

/-- The queue without the queued packets of `key`, whose lane is now `new`. -/
theorem discarded_exact (hs : s.Exact works) {lane : PacketLane T} (hlane : s.lanes.lookup key = some lane)
    {new : Option (PacketLane T)} (hchanged : LaneChanged s s' key new) (hnew : LaneKept (heldIn works key) new)
    (hempty : ∀ lane ∈ new, lane.queued = [])
    (hready : ∀ e, s'.readyHeap e = (s.readyHeap e).retain (·.2 ≠ key))
    (hserialized : s'.serialized = s.serialized.retain (· ∉ lane.queued.map SequencedPacket.sequence))
    (hexclusive : s'.exclusive = s.exclusive.retain (· ∉ lane.queued.map SequencedPacket.sequence))
    (hrunning : ActiveExact s' works) (hnext : s'.nextSequence = s.nextSequence) (hphase : s'.phase = s.phase) :
    (∀ a, s'.queuedIn a = if a = key then [] else s.queuedIn a) ∧ s'.Exact works := by
  have hqueued : ∀ a, s'.queuedIn a = if a = key then [] else s.queuedIn a := fun a => by
    rw [hchanged.queuedIn]
    cases new with
    | none => rfl
    | some lane' => simp [hempty lane' rfl]
  have hself : s.queuedIn key = lane.queued := by simp [PacketQueueState.queuedIn, hlane]
  have hfront : ∀ a, s'.frontOf a = if a = key then none else s.frontOf a := fun a => by
    rw [hchanged.frontOf]
    cases new with
    | none => rfl
    | some lane' => simp [PacketLane.front, hempty lane' rfl]
  have hmem : ∀ a q, q ∈ s'.queuedIn a ↔ q ∈ s.queuedIn a ∧ ¬ q.sequence ∈ lane.queued.map SequencedPacket.sequence := by
    intro a q
    rw [hqueued a]
    by_cases ha : a = key
    · subst ha
      simp only [if_true, List.not_mem_nil, false_iff, not_and, not_not]
      exact fun hq => List.mem_map_of_mem (hself ▸ hq)
    · rw [if_neg ha]
      refine ⟨fun hq => ⟨hq, fun hsequence => ha ?_⟩, fun hq => hq.1⟩
      obtain ⟨q', hq', heq⟩ := List.mem_map.mp hsequence
      exact (hs.ordered.eq_of_sequence hq (hself ▸ hq') heq.symm).1
  refine ⟨hqueued, ?_, ?_, fun e => ?_, ?_, ?_, hrunning, fun hstopped a => ?_⟩
  · exact hchanged.kept hs.lanes (fun _ _ => rfl) hnew
  · refine hs.ordered.sublist (fun a => ?_) hnext
    rw [hqueued a]
    split
    · exact List.nil_sublist _
    · exact List.Sublist.refl _
  · rw [hready e]
    refine (hs.ready e).update hfront (PriorityQueue.nodup_retain (hs.ready e).nodup _) fun n a => ?_
    simp [PriorityQueue.mem_retain, and_comm]
  · rw [hserialized]
    exact hs.serialized.remove _ hmem (PriorityQueue.nodup_retain hs.serialized.nodup _) fun m => by
      simp [PriorityQueue.mem_retain]
  · rw [hexclusive]
    exact hs.exclusive.remove _ hmem (PriorityQueue.nodup_retain hs.exclusive.nodup _) fun m => by
      simp [PriorityQueue.mem_retain]
  · rw [hqueued a, hs.stopped (hphase ▸ hstopped) a, ite_self]

theorem discardLane_ok (hs : s.Exact works) (key : K) : ∃ s', s.discardLane key = .ok (s', s.queuedIn key) ∧
    (∀ a, s'.queuedIn a = if a = key then [] else s.queuedIn a) ∧ s'.nextSequence = s.nextSequence ∧
      s'.phase = s.phase ∧ s'.Exact works := by
  have hkept := hs.lanes key
  unfold PacketQueueState.discardLane
  cases hlane : s.lanes.lookup key with
  | none =>
    have hself : s.queuedIn key = [] := by simp [PacketQueueState.queuedIn, hlane]
    refine ⟨s, by simp [hself], fun a => ?_, rfl, rfl, hs⟩
    split <;> simp_all
  | some lane =>
    have hself : s.queuedIn key = lane.queued := by simp [PacketQueueState.queuedIn, hlane]
    rw [hlane] at hkept
    dsimp only
    split
    · rename_i hempty
      refine ⟨s, by simp [hself, hempty], fun a => ?_, rfl, rfl, hs⟩
      split <;> simp_all
    · obtain ⟨cleared, hcleared, hexact, hqueued, hactive⟩ := clearQueued_ok hkept.1 "discarding"
      have hchanged : LaneChanged s (s.dropQueued key lane cleared) key (if lane.active then some cleared else none) := by
        intro a
        unfold PacketQueueState.dropQueued
        cases lane.active
        · simp [AssocList.lookup_erase]
        · simp [AssocList.lookup_insert]
      have hnew : LaneKept (heldIn works key) (if lane.active then some cleared else none) := by
        have hheld := hkept.1.active
        cases hlaneActive : lane.active with
        | false =>
          rw [hlaneActive] at hheld
          exact List.length_eq_zero_iff.mp hheld
        | true => exact ⟨hexact, Or.inl (hactive.trans hlaneActive)⟩
      have hempty : ∀ lane' ∈ (if lane.active then some cleared else none), lane'.queued = [] := by
        intro lane' hlane'
        split at hlane'
        · cases hlane'
          exact hqueued
        · cases hlane'
      obtain ⟨hqueuedIn, hexact'⟩ := discarded_exact hs hlane hchanged hnew hempty (fun e => by cases e <;> rfl) rfl rfl
        ⟨hs.running.active, hs.running.serializedActive, hs.running.exclusiveActive, hs.running.alone⟩ rfl rfl
      exact ⟨s.dropQueued key lane cleared, by simp [hcleared, hself, Except.map], hqueuedIn, rfl, rfl, hexact'⟩

/-! ## Stopping -/

theorem mapM_ok {α β ε : Type} {f : α → Except ε β} {l : List α} (h : ∀ a ∈ l, ∃ b, f a = .ok b) :
    ∃ bs, l.mapM f = .ok bs := by
  induction l with
  | nil => exact ⟨[], rfl⟩
  | cons a l ih =>
    obtain ⟨b, hb⟩ := h a (by simp)
    obtain ⟨bs, hbs⟩ := ih fun a ha => h a (by simp [ha])
    exact ⟨b :: bs, by simp [List.mapM_cons, hb, hbs, bind, Except.bind, pure, Except.pure]⟩

omit [LinearOrder K] in
theorem stopLane_kept {held : List (PacketWork K T)} {lane : PacketLane T} (h : lane.Exact held) :
    LaneKept held (PacketLane.stopLane lane) ∧ ∀ lane' ∈ PacketLane.stopLane lane, lane'.queued = [] := by
  obtain ⟨cleared, hcleared, hexact, hqueued, hactive⟩ := clearQueued_ok h "stopping"
  have hheld := h.active
  unfold PacketLane.stopLane
  rw [hcleared]
  dsimp only
  cases hlane : lane.active with
  | false =>
    rw [hlane] at hheld hactive
    rw [hactive, if_neg (by simp)]
    exact ⟨List.length_eq_zero_iff.mp hheld, fun _ hnone => by cases hnone⟩
  | true =>
    rw [hactive, hlane, if_pos rfl]
    exact ⟨⟨hexact, Or.inl (hactive.trans hlane)⟩, fun lane' hlane' => by cases hlane'; exact hqueued⟩

theorem mem_stopped {w : PacketWork K T} : (w ∈ s.lanes.entries.flatMap fun entry =>
    entry.2.queued.map (PacketWork.mk entry.1)) ↔ w.packet ∈ s.queuedIn w.key := by
  rw [List.mem_flatMap]
  constructor
  · rintro ⟨⟨key, lane⟩, hentry, hmem⟩
    obtain ⟨packet, hpacket, rfl⟩ := List.mem_map.mp hmem
    have hlane : s.lanes.lookup key = some lane := AList.mem_lookup_iff.mpr hentry
    simpa [PacketQueueState.queuedIn, hlane] using hpacket
  · intro hpacket
    unfold PacketQueueState.queuedIn at hpacket
    cases hlane : s.lanes.lookup w.key with
    | none => simp [hlane] at hpacket
    | some lane =>
      rw [hlane] at hpacket
      exact ⟨⟨w.key, lane⟩, AList.mem_lookup_iff.mp hlane, List.mem_map.mpr ⟨w.packet, hpacket, rfl⟩⟩

theorem stop_ok (hs : s.Exact works) : ∃ s' packets, s.stop = .ok (s', packets) ∧
    (∀ w, w ∈ packets ↔ w.packet ∈ s.queuedIn w.key) ∧ (∀ a, s'.queuedIn a = []) ∧
      s'.nextSequence = s.nextSequence ∧ s'.phase = .stopped ∧ s'.Exact works := by
  have hentry : ∀ entry ∈ s.lanes.entries, entry.2.Exact (heldIn works entry.1) := fun entry hentry => by
    have hkept := hs.lanes entry.1
    rw [(AList.mem_lookup_iff.mpr hentry : s.lanes.lookup entry.1 = some entry.2)] at hkept
    exact hkept.1
  obtain ⟨_, hclear⟩ := mapM_ok fun entry hmem =>
    have ⟨cleared, hcleared, _⟩ := clearQueued_ok (hentry entry hmem) "stopping"
    ⟨cleared, hcleared⟩
  let s' : PacketQueueState K T := { s with
    phase := .stopped
    playerLocalReady := .empty
    serializedReady := .empty
    exclusiveReady := .empty
    serialized := .empty
    exclusive := .empty
    lanes := s.lanes.retainMap PacketLane.stopLane }
  have hlookup : ∀ a, s'.lanes.lookup a = (s.lanes.lookup a).bind PacketLane.stopLane := fun a => AssocList.lookup_retainMap PacketLane.stopLane
  have hlane : ∀ a, LaneKept (heldIn works a) (s'.lanes.lookup a) ∧ ∀ lane ∈ s'.lanes.lookup a, lane.queued = [] := by
    intro a
    have hkept := hs.lanes a
    rw [hlookup a]
    cases hcase : s.lanes.lookup a with
    | none =>
      rw [hcase] at hkept
      exact ⟨hkept, fun _ hnone => by cases hnone⟩
    | some lane =>
      rw [hcase] at hkept
      exact stopLane_kept hkept.1
  have hqueued : ∀ a, s'.queuedIn a = [] := fun a => by
    unfold PacketQueueState.queuedIn
    cases hcase : s'.lanes.lookup a with
    | none => rfl
    | some lane => exact (hlane a).2 lane hcase
  have hfront : ∀ a, s'.frontOf a = none := fun a => by
    cases hcase : s'.frontOf a with
    | none => rfl
    | some p =>
      have hmem := queued_of_front hcase
      rw [hqueued a] at hmem
      cases hmem
  refine ⟨s', _, by simp only [PacketQueueState.stop, hclear]; rfl, fun w => mem_stopped, hqueued, rfl, rfl,
    fun a => (hlane a).1, ⟨fun a => by simp [hqueued], fun a => by simp [hqueued], fun a a' => by simp [hqueued]⟩,
    fun e => ⟨by cases e <;> exact List.nodup_nil, fun n a => ?_⟩, ⟨List.nodup_nil, fun n => ?_⟩,
    ⟨List.nodup_nil, fun n => ?_⟩, ⟨hs.running.active, hs.running.serializedActive, hs.running.exclusiveActive,
    hs.running.alone⟩, fun _ => hqueued⟩
  · simp [(by cases e <;> rfl : (s'.readyHeap e).toList = []), hfront]
  · exact iff_of_false List.not_mem_nil (by simp [hqueued])
  · exact iff_of_false List.not_mem_nil (by simp [hqueued])

/-! ## Finishing -/

/-- The class of a packet is released. -/
structure Released (s s' : PacketQueueState K T) (e : ScheduledPacketExecution) : Prop where
  lanes : s'.lanes = s.lanes
  phase : s'.phase = s.phase
  nextSequence : s'.nextSequence = s.nextSequence
  active : s'.active = s.active
  ready : ∀ e', s'.readyHeap e' = s.readyHeap e'
  serialized : s'.serialized = s.serialized
  exclusive : s'.exclusive = s.exclusive
  serializedActive : s'.serializedActive = (s.serializedActive && e ≠ .serialized)
  exclusiveActive : s'.exclusiveActive = (s.exclusiveActive && e ≠ .exclusive)

theorem releaseClass_ok {e : ScheduledPacketExecution} (hserialized : e = .serialized → s.serializedActive = true)
    (hexclusive : e = .exclusive → s.exclusiveActive = true) : ∃ s', s.releaseClass e = .ok s' ∧ Released s s' e := by
  cases e with
  | playerLocal => exact ⟨s, rfl, rfl, rfl, rfl, rfl, fun _ => rfl, rfl, rfl, by simp, by simp⟩
  | serialized =>
    refine ⟨{ s with serializedActive := false }, ?_, rfl, rfl, rfl, rfl, fun e' => ?_, rfl, rfl, by simp, by simp⟩
    · simp [PacketQueueState.releaseClass, hserialized, bind, Except.bind]
    · cases e' <;> rfl
  | exclusive =>
    refine ⟨{ s with exclusiveActive := false }, ?_, rfl, rfl, rfl, rfl, fun e' => ?_, rfl, rfl, by simp, by simp⟩
    · simp [PacketQueueState.releaseClass, hexclusive, bind, Except.bind]
    · cases e' <;> rfl

variable [DecidableEq T]

theorem heldIn_erase (works : List (PacketWork K T)) (w : PacketWork K T) (a : K) :
    heldIn (works.erase w) a = (heldIn works a).erase w :=
  List.erase_filter.symm

omit [DecidableEq T] in
theorem lane_of_held (hs : s.Exact works) (hw : w ∈ works) : ∃ lane, s.lanes.lookup w.key = some lane ∧
    lane.active = true ∧ heldIn works w.key = [w] ∧ lane.Exact [w] := by
  have hmem : w ∈ heldIn works w.key := List.mem_filter.mpr ⟨hw, by simp⟩
  have hkept := hs.lanes w.key
  cases hlane : s.lanes.lookup w.key with
  | none =>
    rw [hlane] at hkept
    rw [show heldIn works w.key = [] from hkept] at hmem
    cases hmem
  | some lane =>
    rw [hlane] at hkept
    have hlength := hkept.1.active
    cases hactive : lane.active with
    | false =>
      rw [hactive] at hlength
      rw [List.length_eq_zero_iff.mp hlength] at hmem
      cases hmem
    | true =>
      rw [hactive] at hlength
      obtain ⟨w', hw'⟩ := List.length_eq_one_iff.mp hlength
      rw [hw', List.mem_singleton] at hmem
      subst hmem
      exact ⟨lane, rfl, hactive, hw', hw' ▸ hkept.1⟩

theorem classCount_erase (hw : w ∈ works) (e : ScheduledPacketExecution) {count : Bool}
    (h : (works.filter (·.packet.execution = e)).length = count.toNat) :
    ((works.erase w).filter (·.packet.execution = e)).length = (count && w.packet.execution ≠ e).toNat := by
  rw [← List.erase_filter]
  by_cases he : w.packet.execution = e
  · have hmem : w ∈ works.filter (·.packet.execution = e) := List.mem_filter.mpr ⟨hw, by simp [he]⟩
    rw [List.length_erase_of_mem hmem, h]
    cases count <;> simp [he]
  · have hnot : w ∉ works.filter (·.packet.execution = e) := fun hmem => he (by simpa using (List.mem_filter.mp hmem).2)
    rw [List.erase_of_not_mem hnot, h]
    simp [he]

theorem finished_running (hs : s.Exact works) (hw : w ∈ works) (hactive : s'.active = s.active - 1)
    (hserialized : s'.serializedActive = (s.serializedActive && w.packet.execution ≠ .serialized))
    (hexclusive : s'.exclusiveActive = (s.exclusiveActive && w.packet.execution ≠ .exclusive)) :
    ActiveExact s' (works.erase w) where
  active := by rw [hactive, hs.running.active, List.length_erase_of_mem hw]
  serializedActive := by rw [hserialized, classCount_erase hw .serialized hs.running.serializedActive]
  exclusiveActive := by rw [hexclusive, classCount_erase hw .exclusive hs.running.exclusiveActive]
  alone hflag := by
    rw [hexclusive, Bool.and_eq_true, decide_eq_true_eq] at hflag
    obtain ⟨w', rfl⟩ := List.length_eq_one_iff.mp (hs.running.alone hflag.1)
    cases List.mem_singleton.mp hw
    have hcount := hs.running.exclusiveActive
    simp [hflag.1, hflag.2] at hcount

/-- The queue after the packet of an active lane: the lane is removed when it is empty, and ready otherwise. -/
theorem finished_exact (hs : s.Exact works) {lane lane' : PacketLane T}
    (hlane : s.lanes.lookup w.key = some lane) (hactive : lane.active = true) (hexact : lane'.Exact ([] : List (PacketWork K T)))
    (hqueued : lane'.queued = lane.queued) (hheld : heldIn works w.key = [w])
    (hchanged : LaneChanged s s' w.key (if lane.queued = [] then none else some lane'))
    (hready : ∀ e, s'.readyHeap e = match lane.queued.head? with
      | none => s.readyHeap e
      | some q => if e = q.execution then (s.readyHeap e).push (q.sequence, w.key) else s.readyHeap e)
    (hserialized : s'.serialized = s.serialized) (hexclusive : s'.exclusive = s.exclusive)
    (hrunning : ActiveExact s' (works.erase w)) (hnext : s'.nextSequence = s.nextSequence) (hphase : s'.phase = s.phase) :
    (∀ a, s'.queuedIn a = s.queuedIn a) ∧ s'.Exact (works.erase w) := by
  have hinactive : lane'.active = false := by
    have hlength := hexact.active
    cases hcase : lane'.active with
    | false => rfl
    | true => rw [hcase] at hlength; cases hlength
  have hsame : ∀ a, s'.queuedIn a = s.queuedIn a := fun a => by
    rw [hchanged.queuedIn]
    split
    · rename_i ha
      rw [ha, PacketQueueState.queuedIn, hlane]
      split
      · rename_i hempty
        simp [hempty]
      · simp [hqueued]
    · rfl
  have hfront : ∀ a, s'.frontOf a = if a = w.key then lane.queued.head? else s.frontOf a := fun a => by
    rw [hchanged.frontOf]
    cases hcase : lane.queued <;> simp [PacketLane.front, hinactive, hqueued, hcase]
  have hnone : s.frontOf w.key = none := by simp [PacketQueueState.frontOf, PacketLane.front, hlane, hactive]
  refine ⟨hsame, ?_, ?_, fun e => ?_, ?_, ?_, hrunning, fun hstopped a => ?_⟩
  · refine hchanged.kept hs.lanes (fun a ha => ?_) ?_
    · rw [heldIn_erase, List.erase_of_not_mem]
      exact fun hmem => ha (by simpa using (List.mem_filter.mp hmem).2 : w.key = a).symm
    · rw [heldIn_erase, hheld, List.erase_cons_head]
      split
      · rfl
      · rename_i hnonempty
        exact ⟨hexact, Or.inr (by rwa [hqueued])⟩
  · exact hs.ordered.sublist (fun a => by rw [hsame a]) hnext
  · have hself : ∀ n, (n, w.key) ∉ (s.readyHeap e).toList := fun n => by simp [(hs.ready e).mem, hnone]
    rw [hready e]
    cases hhead : lane.queued.head? with
    | none =>
      rw [hhead] at hfront
      refine (hs.ready e).update hfront (hs.ready e).nodup fun n a => ?_
      by_cases ha : a = w.key <;> simp [ha, hself]
    | some q =>
      rw [hhead] at hfront
      dsimp only
      by_cases he : e = q.execution
      · subst he
        rw [if_pos rfl]
        refine (hs.ready _).update hfront (PriorityQueue.nodup_push (hs.ready _).nodup (hself _)) fun n a => ?_
        by_cases ha : a = w.key
        · simp [PriorityQueue.mem_push, ha, hself, eq_comm]
        · simp [PriorityQueue.mem_push, ha]
      · rw [if_neg he]
        refine (hs.ready e).update hfront (hs.ready e).nodup fun n a => ?_
        by_cases ha : a = w.key <;> simp [ha, hself, Ne.symm he]
  · exact hserialized ▸ hs.serialized.congr hsame
  · exact hexclusive ▸ hs.exclusive.congr hsame
  · rw [hsame a]
    exact hs.stopped (hphase ▸ hstopped) a

theorem finishOne_ok (hs : s.Exact works) (hw : w ∈ works) :
    ∃ s', s.finishOne w.key w.packet.execution w.packet.admissionBytes = .ok s' ∧
      (∀ a, s'.queuedIn a = s.queuedIn a) ∧ s'.nextSequence = s.nextSequence ∧ s'.phase = s.phase ∧
        s'.Exact (works.erase w) := by
  obtain ⟨lane, hlane, hactive, hheld, hexact⟩ := lane_of_held hs hw
  have hpositive : 0 < s.active := hs.running.active ▸ List.length_pos_of_mem hw
  have hclass : ∀ e count, (works.filter (·.packet.execution = e)).length = Bool.toNat count → w.packet.execution = e →
      count = true := fun e count hcount he => by
    have hmem : w ∈ works.filter (·.packet.execution = e) := List.mem_filter.mpr ⟨hw, by simp [he]⟩
    have hlength := List.length_pos_of_mem hmem
    cases count
    · rw [hcount] at hlength
      cases hlength
    · rfl
  obtain ⟨s₁, hrelease, hreleased⟩ := releaseClass_ok
    (s := { s with active := s.active - 1, completed := (s.completed + 1) % 2 ^ 64 })
    (hclass .serialized _ hs.running.serializedActive) (hclass .exclusive _ hs.running.exclusiveActive)
  let lane' : PacketLane T := ⟨lane.queued, false, lane.outstandingPackets - 1,
    lane.outstandingBytes - w.packet.admissionBytes⟩
  have hexact' : lane'.Exact ([] : List (PacketWork K T)) := by
    refine ⟨rfl, ?_, ?_⟩
    · simp [lane', hexact.packets]
    · simp [lane', hexact.bytes]
  have hpackets : 0 < lane.outstandingPackets := by simp [hexact.packets]
  have hbytes : w.packet.admissionBytes ≤ lane.outstandingBytes := by simp [hexact.bytes]
  have hlane₁ : s₁.lanes.lookup w.key = some lane := by rw [hreleased.lanes]; exact hlane
  have hfinish : s.finishOne w.key w.packet.execution w.packet.admissionBytes =
      PacketQueueState.reviveLane { s₁ with lanes := s₁.lanes.insert w.key lane' } w.key
        (lane.queued.head?.map SequencedPacket.sequence) := by
    unfold PacketQueueState.finishOne
    rw [hrelease]
    simp [assertThat, hpositive, hlane₁, hactive, hpackets, hbytes, lane', bind, Except.bind]
  have hready₁ : ∀ e, s₁.readyHeap e = s.readyHeap e := fun e => by
    rw [hreleased.ready]
    cases e <;> rfl
  have hrunning : ∀ s' : PacketQueueState K T, s'.active = s₁.active → s'.serializedActive = s₁.serializedActive →
      s'.exclusiveActive = s₁.exclusiveActive → ActiveExact s' (works.erase w) := fun s' hactive' hserial hexcl =>
    finished_running hs hw (hactive'.trans hreleased.active) (hserial.trans hreleased.serializedActive)
      (hexcl.trans hreleased.exclusiveActive)
  rw [hfinish]
  cases hqueued : lane.queued with
  | nil =>
    let s' : PacketQueueState K T := { s₁ with lanes := (s₁.lanes.insert w.key lane').erase w.key }
    have hchanged : LaneChanged s s' w.key (if lane.queued = [] then none else some lane') := fun a => by
      rw [if_pos hqueued, AssocList.lookup_erase, AssocList.lookup_insert, hreleased.lanes]
      split <;> rfl
    obtain ⟨hsame, hexact''⟩ := finished_exact hs hlane hactive hexact' rfl hheld hchanged
      (fun e => by rw [hqueued]; exact (by cases e <;> rfl : s'.readyHeap e = s₁.readyHeap e).trans (hready₁ e))
      hreleased.serialized hreleased.exclusive (hrunning s' rfl rfl rfl) hreleased.nextSequence hreleased.phase
    refine ⟨s', ?_, hsame, hreleased.nextSequence, hreleased.phase, hexact''⟩
    have hnone : lane'.outstandingPackets = 0 ∧ lane'.outstandingBytes = 0 := by
      simp [hexact'.packets, hexact'.bytes, show lane'.queued = [] from hqueued]
    simp [PacketQueueState.reviveLane, assertThat, hnone, s', bind, Except.bind]
  | cons q rest =>
    let s' : PacketQueueState K T :=
      PacketQueueState.markReady { s₁ with lanes := s₁.lanes.insert w.key lane' } q.sequence w.key q.execution
    have hchanged : LaneChanged s s' w.key (if lane.queued = [] then none else some lane') := fun a => by
      simp [s', hqueued, AssocList.lookup_insert, hreleased.lanes]
    have hready : ∀ e, s'.readyHeap e =
        if e = q.execution then (s.readyHeap e).push (q.sequence, w.key) else s.readyHeap e := fun e => by
      rw [PacketQueueState.readyHeap_markReady,
        (by cases e <;> rfl : PacketQueueState.readyHeap { s₁ with lanes := _ } e = s₁.readyHeap e), hready₁]
    obtain ⟨hsame, hexact''⟩ := finished_exact hs hlane hactive hexact' rfl hheld hchanged
      (fun e => by rw [hqueued]; exact hready e) (by simp [s', hreleased.serialized]) (by simp [s', hreleased.exclusive])
      (hrunning s' (by simp [s']) (by simp [s']) (by simp [s'])) (by simp [s', hreleased.nextSequence])
      (by simp [s', hreleased.phase])
    refine ⟨s', ?_, hsame, by simp [s', hreleased.nextSequence], by simp [s', hreleased.phase], hexact''⟩
    simp [PacketQueueState.reviveLane, hqueued, s', lane', bind, Except.bind]

end Foton
