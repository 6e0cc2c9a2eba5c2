import Foton.PacketQueue.Finish
import Foton.PacketQueue.Start

/-!
# The order of packets

The log of a run is compared with the queue: a submitted packet is queued, held,
finished or discarded, and what has started comes before what is queued behind it.
-/

namespace Foton

section

variable {K T : Type} [LinearOrder K]

/-- The order in which a packet may start after `log`. -/
structure StartsInOrder (log : List (PacketEvent K T)) (phase : PacketPhase) (w : PacketWork K T) : Prop where
  phase : phase = .opened ∨ ∃ beforeSequence, phase = .draining beforeSequence ∧ w.packet.sequence < beforeSequence
  submitted : .submit w ∈ log
  once : ∀ phase, .start phase w ∉ log
  kept : .discard w ∉ log
  /-- Packets of one lane. -/
  lane : ∀ phase v, .start phase v ∈ log → v.key = w.key →
    v.packet.sequence < w.packet.sequence ∧ .finish v ∈ log
  /-- Serialized packets of all lanes. -/
  serialized : ∀ phase v, .start phase v ∈ log → v.packet.execution = .serialized →
    w.packet.execution = .serialized → v.packet.sequence < w.packet.sequence ∧ .finish v ∈ log
  /-- Nothing runs beside an exclusive packet. -/
  alone : w.packet.execution = .exclusive → ∀ phase v, .start phase v ∈ log → .finish v ∈ log
  /-- An exclusive packet waits for what was submitted earlier. -/
  waits : w.packet.execution = .exclusive → ∀ v, .submit v ∈ log → v.packet.sequence < w.packet.sequence →
    .finish v ∈ log ∨ .discard v ∈ log
  /-- What was submitted later waits for an exclusive packet. -/
  barrier : ∀ v, .submit v ∈ log → v.packet.execution = .exclusive → v.packet.sequence < w.packet.sequence →
    .finish v ∈ log ∨ .discard v ∈ log

/-- Every start in the log is in order. -/
def StartsOrdered (log : List (PacketEvent K T)) : Prop :=
  ∀ before phase w after, log = before ++ .start phase w :: after → StartsInOrder before phase w

/-- The sequences in the order of submission. -/
def submissions (log : List (PacketEvent K T)) : List Nat :=
  log.filterMap fun
    | .submit w => some w.packet.sequence
    | _ => none

/-- A start, which is the only event that has an order to keep. -/
def PacketEvent.IsStart : PacketEvent K T → Prop
  | .start _ _ => True
  | _ => False

omit [LinearOrder K] in
theorem StartsOrdered.append {log events : List (PacketEvent K T)} (h : StartsOrdered log)
    (hevents : ∀ e ∈ events, ¬ e.IsStart) : StartsOrdered (log ++ events) := by
  intro before phase w after heq
  rcases List.append_eq_append_iff.mp heq with ⟨rest, rfl, hrest⟩ | ⟨rest, rfl, hrest⟩
  · have hmem : PacketEvent.start phase w ∈ events := by rw [hrest]; simp
    exact absurd trivial (hevents _ hmem)
  · cases rest with
    | nil =>
      have hmem : PacketEvent.start phase w ∈ events := by rw [← List.nil_append events, ← hrest]; simp
      exact absurd trivial (hevents _ hmem)
    | cons e rest =>
      obtain ⟨rfl, -⟩ := List.cons.inj hrest
      exact h before phase w rest rfl

omit [LinearOrder K] in
theorem StartsOrdered.start {log : List (PacketEvent K T)} (h : StartsOrdered log) {phase : PacketPhase}
    {w : PacketWork K T} (hw : StartsInOrder log phase w) : StartsOrdered (log ++ [.start phase w]) := by
  intro before phase' w' after heq
  rcases List.append_eq_append_iff.mp heq with ⟨rest, rfl, hrest⟩ | ⟨rest, rfl, hrest⟩
  · cases rest with
    | nil =>
      obtain ⟨heq, -⟩ := List.cons.inj hrest
      cases heq
      simpa using hw
    | cons e rest => simp at hrest
  · cases rest with
    | nil =>
      obtain ⟨heq, -⟩ := List.cons.inj hrest
      cases heq
      simpa using hw
    | cons e rest =>
      obtain ⟨rfl, -⟩ := List.cons.inj hrest
      exact h before phase' w' rest rfl

/-- The log and the queue agree about every packet. -/
structure PacketsRecorded (s : PacketSystem K T) : Prop where
  exact : s.queue.Exact s.works
  fate : ∀ w, .submit w ∈ s.log →
    w.packet ∈ s.queue.queuedIn w.key ∨ w ∈ s.works ∨ .finish w ∈ s.log ∨ .discard w ∈ s.log
  queued : ∀ w, w.packet ∈ s.queue.queuedIn w.key →
    .submit w ∈ s.log ∧ (∀ phase, .start phase w ∉ s.log) ∧ .discard w ∉ s.log
  started : ∀ phase w, .start phase w ∈ s.log →
    .submit w ∈ s.log ∧ (w ∈ s.works ∨ .finish w ∈ s.log) ∧ .discard w ∉ s.log
  discarded : ∀ w, .discard w ∈ s.log → .submit w ∈ s.log
  below : ∀ w, .submit w ∈ s.log → w.packet.sequence < s.queue.nextSequence
  lane : ∀ phase v, .start phase v ∈ s.log → ∀ p ∈ s.queue.queuedIn v.key, v.packet.sequence < p.sequence
  serialized : ∀ phase v, .start phase v ∈ s.log → v.packet.execution = .serialized →
    ∀ key, ∀ p ∈ s.queue.queuedIn key, p.execution = .serialized → v.packet.sequence < p.sequence
  ordered : StartsOrdered s.log
  submissions : (submissions s.log).Pairwise (· < ·)

section
variable {s : PacketSystem K T} {q : PacketQueueState K T} {w : PacketWork K T}

/-! ## Starting -/

theorem heldIn_of_front {works : List (PacketWork K T)} (hs : s.queue.Exact works) {key : K} {p : SequencedPacket T}
    (h : s.queue.frontOf key = some p) : heldIn works key = [] := by
  obtain ⟨lane, rest, hlane, hactive, -⟩ := lane_of_front h
  have hkept := hs.lanes key
  rw [hlane] at hkept
  exact List.length_eq_zero_iff.mp (by simpa [hactive] using hkept.1.active)

theorem lt_of_front {works : List (PacketWork K T)} (hs : s.queue.Exact works) {key : K} {p p' : SequencedPacket T}
    (h : s.queue.frontOf key = some p) (hp' : p' ∈ s.queue.queuedIn key) (hne : ¬ p'.sequence = p.sequence) :
    p.sequence < p'.sequence := by
  obtain ⟨lane, rest, hlane, -, hqueued⟩ := lane_of_front h
  have hsorted := hs.ordered.sorted key
  rw [queuedIn_front hlane hqueued] at hsorted hp'
  rcases List.mem_cons.mp hp' with rfl | hrest
  · exact absurd rfl hne
  · exact (List.pairwise_cons.mp hsorted).1 p' hrest

omit [LinearOrder K] in
theorem classActive_of_mem {works : List (PacketWork K T)} {v : PacketWork K T} (hv : v ∈ works)
    {e : ScheduledPacketExecution} {count : Bool} (h : (works.filter (·.packet.execution = e)).length = count.toNat)
    (he : v.packet.execution = e) : count = true := by
  have hmem : v ∈ works.filter (·.packet.execution = e) := List.mem_filter.mpr ⟨hv, by simpa using he⟩
  have hlength := List.length_pos_of_mem hmem
  rw [h] at hlength
  cases count
  · cases hlength
  · rfl

variable {beforeSequence : Option Nat}

theorem PacketsRecorded.startsInOrder (h : PacketsRecorded s) (hw : Started s.queue q s.works w beforeSequence)
    (hcutoff : PacketQueueState.startCutoff s.queue.phase = some beforeSequence) :
    StartsInOrder s.log s.queue.phase w := by
  have hmem := queued_of_front hw.front
  obtain ⟨hsubmit, honce, hkept⟩ := h.queued w hmem
  have hnone : s.queue.active = 0 → s.works = [] := fun hidle =>
    List.length_eq_zero_iff.mp (h.exact.running.active ▸ hidle)
  refine ⟨?_, hsubmit, honce, hkept, fun phase v hv hkey => ?_, fun phase v hv hexec hexec' => ?_,
    fun hexec phase v hv => ?_, fun hexec v hv hlt => ?_, fun v hv hexec hlt => ?_⟩
  · cases hphase : s.queue.phase with
    | opened => exact Or.inl rfl
    | draining c =>
      rw [hphase] at hcutoff
      cases hcutoff
      exact Or.inr ⟨c, rfl, hw.selected.offered.cutoff c rfl⟩
    | closed => rw [hphase] at hcutoff; cases hcutoff
    | stopped => rw [hphase] at hcutoff; cases hcutoff
  · refine ⟨h.lane phase v hv w.packet (hkey ▸ hmem), (h.started phase v hv).2.1.resolve_left fun hheld => ?_⟩
    have hin : v ∈ heldIn s.works w.key := List.mem_filter.mpr ⟨hheld, by simpa using hkey⟩
    rw [heldIn_of_front h.exact hw.front] at hin
    cases hin
  · refine ⟨h.serialized phase v hv hexec w.key w.packet hmem hexec', (h.started phase v hv).2.1.resolve_left ?_⟩
    intro hheld
    have hactive := classActive_of_mem hheld h.exact.running.serializedActive hexec
    rw [(hw.selected.serialized hexec').1] at hactive
    cases hactive
  · refine (h.started phase v hv).2.1.resolve_left fun hheld => ?_
    rw [hnone (hw.selected.exclusive hexec).1] at hheld
    cases hheld
  · have hidle := (hw.selected.exclusive hexec).1
    rcases h.fate v hv with hqueued | hheld | hdone
    · obtain ⟨a, m, hm, hleast⟩ := exists_least hqueued
      have hlt' : m.sequence < w.packet.sequence := lt_of_le_of_lt (hleast v.key v.packet hqueued) hlt
      have hselectable := selectable_of_least h.exact hidle hm hleast fun c hc =>
        hlt'.trans (hw.selected.offered.cutoff c hc)
      exact absurd (hw.least _ hselectable) (Nat.not_le.mpr hlt')
    · rw [hnone hidle] at hheld
      cases hheld
    · exact hdone
  · rcases h.fate v hv with hqueued | hheld | hdone
    · have hin := (h.exact.exclusive.mem _).mpr ⟨v.key, v.packet, hqueued, rfl, hexec⟩
      obtain ⟨e, he⟩ := PriorityQueue.exists_peek hin
      exact absurd (le_trans (hw.selected.offered.barrier e he) (sequence_le_of_peek he hin)) (Nat.not_le.mpr hlt)
    · have hactive := classActive_of_mem hheld h.exact.running.exclusiveActive hexec
      rw [hw.selected.idle] at hactive
      cases hactive
    · exact hdone

/-! ## What a step does to the log -/

theorem recorded_start (h : PacketsRecorded s) (hw : Started s.queue q s.works w beforeSequence)
    (hcutoff : PacketQueueState.startCutoff s.queue.phase = some beforeSequence) :
    PacketsRecorded ⟨q, s.works ++ [w], s.log ++ [.start s.queue.phase w]⟩ := by
  have horder := h.startsInOrder hw hcutoff
  have hfront := queued_of_front hw.front
  refine ⟨hw.exact, fun v hv => ?_, fun v hv => ?_, fun phase v hv => ?_,
    fun v hv => by simpa using h.discarded v (by simpa using hv), fun v hv => ?_, fun phase v hv p hp => ?_,
    fun phase v hv hexec key p hp hexec' => ?_, h.ordered.start horder, by simpa [submissions] using h.submissions⟩
  · rcases h.fate v (by simpa using hv) with hqueued | hheld | hfinish | hdiscard
    · by_cases heq : v.packet.sequence = w.packet.sequence
      · obtain ⟨hkey, hpacket⟩ := h.exact.ordered.eq_of_sequence hqueued hfront heq
        have hvw : v = w := by cases v; cases w; simp_all
        simp [hvw]
      · exact Or.inl ((hw.queued v.key v.packet).mpr ⟨hqueued, heq⟩)
    · simp [hheld]
    · simp [hfinish]
    · simp [hdiscard]
  · obtain ⟨hqueued, hne⟩ := (hw.queued v.key v.packet).mp hv
    obtain ⟨hsubmit, honce, hkept⟩ := h.queued v hqueued
    refine ⟨by simp [hsubmit], fun phase => ?_, by simpa using hkept⟩
    simp only [List.mem_append, List.mem_singleton, PacketEvent.start.injEq, not_or, not_and]
    exact ⟨honce phase, fun _ heq => hne (by rw [heq])⟩
  · rcases List.mem_append.mp hv with hv | hv
    · obtain ⟨hsubmit, hfate, hkept⟩ := h.started phase v hv
      exact ⟨by simp [hsubmit], by simpa [or_assoc, or_comm, or_left_comm] using Or.inl hfate, by simpa using hkept⟩
    · cases List.mem_singleton.mp hv
      exact ⟨by simp [horder.submitted], by simp, by simpa using horder.kept⟩
  · rw [hw.nextSequence]
    exact h.below v (by simpa using hv)
  · have hp' := (hw.queued v.key p).mp hp
    rcases List.mem_append.mp hv with hv | hv
    · exact h.lane phase v hv p hp'.1
    · cases List.mem_singleton.mp hv
      exact lt_of_front h.exact hw.front hp'.1 hp'.2
  · have hp' := (hw.queued key p).mp hp
    rcases List.mem_append.mp hv with hv | hv
    · exact h.serialized phase v hv hexec key p hp'.1 hexec'
    · cases List.mem_singleton.mp hv
      have hin := (h.exact.serialized.mem _).mpr ⟨key, p, hp'.1, rfl, hexec'⟩
      exact lt_of_le_of_ne (sequence_le_of_peek (hw.selected.serialized hexec).2 hin) (Ne.symm hp'.2)

theorem recorded_submit (h : PacketsRecorded s) {key : K} {p : SequencedPacket T} (hphase : s.queue.phase ≠ .stopped)
    (hp : p.sequence = s.queue.nextSequence) :
    PacketsRecorded ⟨s.queue.enqueue key p, s.works, s.log ++ [.submit ⟨key, p⟩]⟩ := by
  have hnew : PacketEvent.submit ⟨key, p⟩ ∉ s.log := fun hmem => absurd (h.below _ hmem) (by simp [hp])
  refine ⟨enqueue_exact h.exact hphase hp, fun v hv => ?_, fun v hv => ?_, fun phase v hv => ?_,
    fun v hv => by simpa using Or.inl (h.discarded v (by simpa using hv)), fun v hv => ?_, fun phase v hv q hq => ?_, fun phase v hv hexec a q hq hexec' => ?_,
    h.ordered.append (by simp [PacketEvent.IsStart]), ?_⟩
  · rcases List.mem_append.mp hv with hv | hv
    · rcases h.fate v hv with hin | hin | hfinish | hdiscard
      · exact Or.inl (mem_enqueue.mpr (Or.inl hin))
      · exact Or.inr (Or.inl hin)
      · simp [hfinish]
      · simp [hdiscard]
    · cases List.mem_singleton.mp hv
      exact Or.inl (mem_enqueue.mpr (Or.inr ⟨rfl, rfl⟩))
  · rcases mem_enqueue.mp hv with hin | ⟨hkey, hpacket⟩
    · simpa using (h.queued v hin).imp_left Or.inl
    · obtain rfl : v = ⟨key, p⟩ := by cases v; simp_all
      refine ⟨by simp, fun phase hstart => hnew ?_, fun hdiscard => hnew ?_⟩
      · exact (h.started phase _ (by simpa using hstart)).1
      · exact h.discarded _ (by simpa using hdiscard)
  · simpa using (h.started phase v (by simpa using hv)).imp_left Or.inl
  · rw [PacketQueueState.enqueue_nextSequence, hp]
    rcases List.mem_append.mp hv with hv | hv
    · exact Nat.lt_succ_of_lt (h.below v hv)
    · cases List.mem_singleton.mp hv
      exact hp ▸ Nat.lt_succ_self _
  · have hstart : .start phase v ∈ s.log := by simpa using hv
    rcases mem_enqueue.mp hq with hq | ⟨-, rfl⟩
    · exact h.lane phase v hstart q hq
    · exact hp ▸ h.below v (h.started phase v hstart).1
  · have hstart : .start phase v ∈ s.log := by simpa using hv
    rcases mem_enqueue.mp hq with hq | ⟨-, rfl⟩
    · exact h.serialized phase v hstart hexec a q hq hexec'
    · exact hp ▸ h.below v (h.started phase v hstart).1
  · have happend : submissions (s.log ++ [.submit ⟨key, p⟩]) = submissions s.log ++ [p.sequence] := by
      simp [submissions]
    rw [happend]
    refine List.pairwise_append.mpr ⟨h.submissions, List.pairwise_singleton _ _, fun m hm n hn => ?_⟩
    rw [List.mem_singleton.mp hn, hp]
    obtain ⟨e, he, hsome⟩ := List.mem_filterMap.mp hm
    cases e <;> cases hsome
    exact h.below _ he

theorem recorded_finish [DecidableEq T] (h : PacketsRecorded s) (hw : w ∈ s.works) (hexact : q.Exact (s.works.erase w))
    (hqueued : ∀ a, q.queuedIn a = s.queue.queuedIn a) (hnext : q.nextSequence = s.queue.nextSequence) :
    PacketsRecorded ⟨q, s.works.erase w, s.log ++ [.finish w]⟩ := by
  have hheld : ∀ v, v ∈ s.works → v ∈ s.works.erase w ∨ v = w := fun v hv => by
    by_cases heq : v = w
    · exact Or.inr heq
    · exact Or.inl ((List.mem_erase_of_ne heq).mpr hv)
  refine ⟨hexact, fun v hv => ?_, fun v hv => ?_, fun phase v hv => ?_,
    fun v hv => by simpa using h.discarded v (by simpa using hv), fun v hv => ?_, fun phase v hv p hp => ?_,
    fun phase v hv hexec key p hp hexec' => ?_, h.ordered.append (by simp [PacketEvent.IsStart]),
    by simpa [submissions] using h.submissions⟩
  · rcases h.fate v (by simpa using hv) with hin | hin | hfinish | hdiscard
    · exact Or.inl (by rw [hqueued]; exact hin)
    · rcases hheld v hin with hin | rfl
      · exact Or.inr (Or.inl hin)
      · simp
    · simp [hfinish]
    · simp [hdiscard]
  · rw [hqueued] at hv
    simpa using h.queued v hv
  · obtain ⟨hsubmit, hfate, hkept⟩ := h.started phase v (by simpa using hv)
    refine ⟨by simp [hsubmit], ?_, by simpa using hkept⟩
    rcases hfate with hin | hfinish
    · rcases hheld v hin with hin | rfl
      · exact Or.inl hin
      · simp
    · simp [hfinish]
  · rw [hnext]
    exact h.below v (by simpa using hv)
  · rw [hqueued] at hp
    exact h.lane phase v (by simpa using hv) p hp
  · rw [hqueued] at hp
    exact h.serialized phase v (by simpa using hv) hexec key p hp hexec'

/-- The queued packets of `packets` are discarded. -/
theorem recorded_discard (h : PacketsRecorded s) {packets : List (PacketWork K T)} (hexact : q.Exact s.works)
    (hpackets : ∀ v ∈ packets, v.packet ∈ s.queue.queuedIn v.key)
    (hqueued : ∀ v : PacketWork K T, v.packet ∈ q.queuedIn v.key ↔ v.packet ∈ s.queue.queuedIn v.key ∧ v ∉ packets)
    (hnext : q.nextSequence = s.queue.nextSequence) : PacketsRecorded ⟨q, s.works, s.log ++ packets.map .discard⟩ := by
  have hsub : ∀ key, ∀ p ∈ q.queuedIn key, p ∈ s.queue.queuedIn key := fun key p hp => ((hqueued ⟨key, p⟩).mp hp).1
  refine ⟨hexact, fun v hv => ?_, fun v hv => ?_, fun phase v hv => ?_, fun v hv => ?_, fun v hv => ?_,
    fun phase v hv p hp => ?_, fun phase v hv hexec key p hp hexec' => ?_, h.ordered.append fun e he => ?_, ?_⟩
  · rcases h.fate v (by simpa using hv) with hin | hin | hfinish | hdiscard
    · by_cases hmem : v ∈ packets
      · simp [hmem]
      · exact Or.inl ((hqueued v).mpr ⟨hin, hmem⟩)
    · exact Or.inr (Or.inl hin)
    · simp [hfinish]
    · simp [hdiscard]
  · obtain ⟨hin, hmem⟩ := (hqueued v).mp hv
    simpa [hmem] using h.queued v hin
  · have hstart : .start phase v ∈ s.log := by simpa using hv
    obtain ⟨hsubmit, hfate, hkept⟩ := h.started phase v hstart
    refine ⟨by simp [hsubmit], by simpa using hfate, ?_⟩
    have hnot : v ∉ packets := fun hmem => (h.queued v (hpackets v hmem)).2.1 phase hstart
    simp [hkept, hnot]
  · have hold : .discard v ∈ s.log ∨ v ∈ packets := by simpa using hv
    have hsubmit := hold.elim (h.discarded v) fun hmem => (h.queued v (hpackets v hmem)).1
    simp [hsubmit]
  · rw [hnext]
    exact h.below v (by simpa using hv)
  · exact h.lane phase v (by simpa using hv) p (hsub _ p hp)
  · exact h.serialized phase v (by simpa using hv) hexec key p (hsub key p hp) hexec'
  · obtain ⟨v, -, rfl⟩ := List.mem_map.mp he
    exact not_false
  · have hnone : submissions (packets.map PacketEvent.discard) = [] := by
      unfold submissions
      rw [List.filterMap_map]
      exact List.filterMap_eq_nil_iff.mpr fun _ _ => rfl
    have happend : submissions (s.log ++ packets.map PacketEvent.discard) = submissions s.log := by
      unfold submissions at hnone ⊢
      rw [List.filterMap_append, hnone, List.append_nil]
    rw [happend]
    exact h.submissions

/-! ## Runs -/

theorem recorded_phase (h : PacketsRecorded s) {phase : PacketPhase} (hstopped : phase = .stopped → s.queue.phase = .stopped) :
    PacketsRecorded { s with queue := { s.queue with phase := phase } } := by
  have hexact : PacketQueueState.Exact { s.queue with phase := phase } s.works :=
    { lanes := h.exact.lanes
      ordered := ⟨h.exact.ordered.sorted, h.exact.ordered.below, h.exact.ordered.distinct⟩
      ready := fun e => by
        have hready := h.exact.ready e
        cases e <;> exact ⟨hready.nodup, hready.mem⟩
      serialized := ⟨h.exact.serialized.nodup, h.exact.serialized.mem⟩
      exclusive := ⟨h.exact.exclusive.nodup, h.exact.exclusive.mem⟩
      running := ⟨h.exact.running.active, h.exact.running.serializedActive, h.exact.running.exclusiveActive,
        h.exact.running.alone⟩
      stopped := fun hphase => h.exact.stopped (hstopped hphase) }
  exact ⟨hexact, h.fate, h.queued, h.started, h.discarded, h.below, h.lane, h.serialized, h.ordered, h.submissions⟩

end

theorem recorded_new : PacketsRecorded (PacketSystem.new : PacketSystem K T) := by
  have hqueued : ∀ key, (PacketQueueState.new : PacketQueueState K T).queuedIn key = [] := fun _ => rfl
  have hexact : (PacketQueueState.new : PacketQueueState K T).Exact [] :=
    { lanes := fun key => rfl
      ordered := ⟨fun key => by simp [hqueued], fun key => by simp [hqueued], fun key => by simp [hqueued]⟩
      ready := fun e => by
        cases e <;> exact ⟨List.nodup_nil, fun n key => iff_of_false List.not_mem_nil (by rintro ⟨p, hp, -⟩; cases hp)⟩
      serialized := ⟨List.nodup_nil, fun n => iff_of_false List.not_mem_nil (by simp [hqueued])⟩
      exclusive := ⟨List.nodup_nil, fun n => iff_of_false List.not_mem_nil (by simp [hqueued])⟩
      running := ⟨rfl, rfl, rfl, fun hflag => by cases hflag⟩
      stopped := fun hphase => by cases hphase }
  have hordered : StartsOrdered ([] : List (PacketEvent K T)) := fun before phase w after heq => by
    cases before <;> cases heq
  have hnone : ∀ w : PacketWork K T, w.packet ∉ (PacketQueueState.new : PacketQueueState K T).queuedIn w.key := fun w => by
    simp [hqueued]
  exact ⟨hexact, by simp [PacketSystem.new], fun w hw => absurd hw (hnone w), by simp [PacketSystem.new],
    by simp [PacketSystem.new], by simp [PacketSystem.new], by simp [PacketSystem.new], by simp [PacketSystem.new],
    hordered, List.Pairwise.nil⟩

variable [DecidableEq T] {limits : PacketAdmissionLimits} {s s' : PacketSystem K T}

omit [DecidableEq T] in
/-- A packet is submitted with the next sequence, or the queue stays as it is. -/
theorem trySubmit_cases {key : K} {execution : ScheduledPacketExecution} {admissionBytes : Nat} {value : T}
    {q : PacketQueueState K T} {result : Except PacketAdmissionError (PacketQueueState K T)}
    (h : q.trySubmit limits key execution admissionBytes value = .ok result) : (∃ e, result = .error e) ∨
      q.phase ≠ .stopped ∧ result = .ok (q.enqueue key ⟨q.nextSequence, execution, admissionBytes, value⟩) := by
  unfold PacketQueueState.trySubmit at h
  split at h
  · cases h
    exact Or.inl ⟨_, rfl⟩
  · rename_i hphase
    dsimp only at h
    split at h
    · cases h
      exact Or.inl ⟨_, rfl⟩
    · split at h
      · cases h
        exact Or.inl ⟨_, rfl⟩
      · split at h
        · cases h
        · cases h
          exact Or.inr ⟨hphase, rfl⟩

theorem recorded_step {op : PacketOp K T} (h : PacketsRecorded s) (hstep : PacketSystem.Step limits s op s') : PacketsRecorded s' := by
  obtain ⟨henabled, hexec⟩ := hstep
  cases op with
  | trySubmit key execution admissionBytes value =>
    unfold PacketSystem.exec at hexec
    cases hsubmit : s.queue.trySubmit limits key execution admissionBytes value with
    | error message => simp [hsubmit, Except.map] at hexec
    | ok result =>
      rcases trySubmit_cases hsubmit with ⟨e, rfl⟩ | ⟨hphase, rfl⟩
      · simp only [hsubmit, Except.map, Except.ok.injEq] at hexec
        exact hexec ▸ h
      · simp only [hsubmit, Except.map, Except.ok.injEq] at hexec
        exact hexec ▸ recorded_submit h hphase rfl
  | openQueue =>
    cases hexec
    unfold PacketQueueState.openQueue
    split
    · exact h
    · exact recorded_phase h (fun hphase => by cases hphase)
  | beginTickDrain =>
    cases hexec
    unfold PacketQueueState.beginTickDrain
    split
    · exact h
    · exact h
    all_goals exact recorded_phase h (fun hphase => by cases hphase)
  | finishTickDrain beforeSequence =>
    cases hexec
    unfold PacketQueueState.finishTickDrain
    split
    · exact recorded_phase h (fun hphase => by cases hphase)
    · exact h
  | discardLane key =>
    obtain ⟨q, hdiscard, hqueued, hnext, -, hexact⟩ := discardLane_ok h.exact key
    simp only [PacketSystem.exec, hdiscard, Except.map] at hexec
    cases hexec
    have hmem : ∀ v : PacketWork K T, v ∈ (s.queue.queuedIn key).map (PacketWork.mk key) ↔
        v.key = key ∧ v.packet ∈ s.queue.queuedIn key := fun v => by
      rw [List.mem_map]
      constructor
      · rintro ⟨p, hp, rfl⟩
        exact ⟨rfl, hp⟩
      · rintro ⟨rfl, hp⟩
        exact ⟨v.packet, hp, rfl⟩
    have hdiscarded : PacketsRecorded ⟨q, s.works, s.log ++ ((s.queue.queuedIn key).map (PacketWork.mk key)).map .discard⟩ := by
      refine recorded_discard h hexact (fun v hv => ?_) (fun v => ?_) hnext
      · obtain ⟨hkey, hp⟩ := (hmem v).mp hv
        rwa [hkey]
      · rw [hqueued, hmem]
        by_cases hkey : v.key = key <;> simp [hkey]
    simpa [List.map_map, Function.comp_def] using hdiscarded
  | stop =>
    obtain ⟨q, packets, hstop, hpackets, hempty, hnext, -, hexact⟩ := stop_ok h.exact
    simp only [PacketSystem.exec, hstop, Except.map] at hexec
    cases hexec
    exact recorded_discard h hexact (fun v hv => (hpackets v).mp hv) (fun v => by simp [hempty, hpackets]) hnext
  | next =>
    rcases next_ok h.exact with hnone | ⟨w, q, beforeSequence, hnext, hcutoff, hstarted⟩
    · simp only [PacketSystem.exec, hnone, Except.map] at hexec
      cases hexec
      exact h
    · simp only [PacketSystem.exec, hnext, Except.map] at hexec
      cases hexec
      exact recorded_start h hstarted hcutoff
  | finishOne w =>
    obtain ⟨q, hfinish, hqueued, hnext, -, hexact⟩ := finishOne_ok h.exact henabled
    simp only [PacketSystem.exec, hfinish, Except.map] at hexec
    cases hexec
    exact recorded_finish h henabled hexact hqueued hnext

theorem recorded_of_reachable (h : PacketSystem.Reachable limits s) : PacketsRecorded s := by
  obtain ⟨ops, hrun⟩ := h
  exact hrun.invariant recorded_new fun s op s' hs hstep => recorded_step hs hstep

/-- **The packet order**: in every run each start is in order, submissions get growing sequences, and no packet is both
discarded and started. -/
theorem packets_in_order (h : PacketSystem.Reachable limits s) : StartsOrdered s.log ∧
    (submissions s.log).Pairwise (· < ·) ∧ ∀ w, .discard w ∈ s.log → ∀ phase, .start phase w ∉ s.log := by
  have hrecorded := recorded_of_reachable h
  exact ⟨hrecorded.ordered, hrecorded.submissions, fun w hdiscard phase hstart =>
    (hrecorded.started phase w hstart).2.2 hdiscard⟩

/-- An exclusive packet that is submitted, started and finished. -/
theorem exclusive_packet_in_order : ∃ s : PacketSystem Nat Unit,
    s.log.length = 3 ∧ StartsOrdered s.log ∧ (submissions s.log).Pairwise (· < ·) ∧
      ∀ w, .discard w ∈ s.log → ∀ phase, .start phase w ∉ s.log := by
  let limits : PacketAdmissionLimits := ⟨8192, 33554432⟩
  have hsubmit := Run.single
    (show PacketSystem.Step limits (.new : PacketSystem Nat Unit) (.trySubmit 0 .exclusive 1 ()) _ from ⟨trivial, rfl⟩)
  have hopen := hsubmit.snoc (show PacketSystem.Step limits _ .openQueue _ from ⟨trivial, rfl⟩)
  have hstart := hopen.snoc (show PacketSystem.Step limits _ .next _ from ⟨trivial, rfl⟩)
  have hfinish := hstart.snoc
    (show PacketSystem.Step limits _ (.finishOne ⟨0, 0, .exclusive, 1, ()⟩) _ from ⟨List.mem_singleton_self _, rfl⟩)
  exact ⟨_, rfl, packets_in_order ⟨_, hfinish⟩⟩

end

/-!
## Progress of the packet queue
No operation fails an assertion, an idle queue starts its least packet, and a
drain that reports completion leaves nothing unfinished behind.
-/

section

variable {K T : Type} [LinearOrder K] {s : PacketSystem K T} {q : PacketQueueState K T}
  {works : List (PacketWork K T)} {key : K} {beforeSequence : Option Nat}

theorem selectNext_of_idle (hq : q.Exact works) (hidle : q.active = 0) {p : SequencedPacket T}
    (hp : p ∈ q.queuedIn key) (hcutoff : ∀ c, beforeSequence = some c → p.sequence < c) :
    ∃ selected, q.selectNext beforeSequence = some selected := by
  obtain ⟨a, m, hm, hleast⟩ := exists_least hp
  have hselectable : Selectable q beforeSequence (m.sequence, a, m.execution) :=
    selectable_of_least hq hidle hm hleast fun c hc => lt_of_le_of_lt (hleast key p hp) (hcutoff c hc)
  obtain ⟨b, hb, -⟩ := (selectNext_best q beforeSequence).least _ hselectable
  exact ⟨b, hb⟩

theorem nextReadySequence_le {e : ScheduledPacketExecution} {m : Nat} (h : (q.readyHeap e).peek = some (m, key)) :
    ∃ n, q.nextReadySequence = some n ∧ n ≤ m := by
  have hmem : m ∈ [q.playerLocalReady.peek, q.serializedReady.peek, q.exclusiveReady.peek].filterMap
      fun entry => entry.map Prod.fst := by
    rw [List.mem_filterMap]
    refine ⟨some (m, key), ?_, rfl⟩
    cases e <;> simp [← h, PacketQueueState.readyHeap]
  cases hmin : q.nextReadySequence with
  | none => simp [List.min?_eq_none_iff.mp hmin] at hmem
  | some n => exact ⟨n, rfl, (List.min?_eq_some_iff.mp hmin).2 m hmem⟩

theorem drained (hq : q.Exact works) (hphase : q.phase ≠ .stopped) {c : Nat} (hcomplete : q.tickDrainComplete c = true) :
    works = [] ∧ ∀ key, ∀ p ∈ q.queuedIn key, c ≤ p.sequence := by
  unfold PacketQueueState.tickDrainComplete at hcomplete
  rw [if_neg hphase] at hcomplete
  have hidle : q.active = 0 := by
    by_contra hactive
    simp [hactive] at hcomplete
  refine ⟨List.length_eq_zero_iff.mp (hq.running.active ▸ hidle), fun key p hp => ?_⟩
  obtain ⟨a, m, hm, hleast⟩ := exists_least hp
  have hpeek := peek_ready hq (front_of_least hq hidle hm hleast) hleast
  obtain ⟨n, hn, hle⟩ := nextReadySequence_le hpeek
  have hbound : c ≤ n := by simpa [hidle, hn] using hcomplete
  exact hbound.trans (hle.trans (hleast key p hp))

/-- What holds of the queue at any time. -/
structure PacketSystem.Sound (s : PacketSystem K T) : Prop where
  exact : s.queue.Exact s.works
  starts : ∀ beforeSequence, ∃ r, s.queue.startNext beforeSequence = .ok r
  discards : ∀ key, ∃ r, s.queue.discardLane key = .ok r
  stops : ∃ r, s.queue.stop = .ok r
  finishes : ∀ w ∈ s.works, ∃ r, s.queue.finishOne w.key w.packet.execution w.packet.admissionBytes = .ok r
  /-- An idle queue gets on. -/
  selects : s.queue.active = 0 → ∀ beforeSequence, PacketQueueState.startCutoff s.queue.phase = some beforeSequence →
    ∀ key, ∀ p ∈ s.queue.queuedIn key, (∀ c, beforeSequence = some c → p.sequence < c) →
    ∃ selected, s.queue.selectNext beforeSequence = some selected
  /-- A completed drain has dealt with all that was submitted before its cutoff. -/
  drained : s.queue.phase ≠ .stopped → ∀ c, s.queue.tickDrainComplete c = true →
    ∀ w, .submit w ∈ s.log → w.packet.sequence < c → .finish w ∈ s.log ∨ .discard w ∈ s.log

variable [DecidableEq T] {limits : PacketAdmissionLimits}

theorem PacketsRecorded.sound (h : PacketsRecorded s) : s.Sound where
  exact := h.exact
  starts beforeSequence := by
    rcases startNext_ok h.exact beforeSequence with hnone | ⟨w, q, hstart, -⟩
    · exact ⟨_, hnone⟩
    · exact ⟨_, hstart⟩
  discards key := by
    obtain ⟨q, hdiscard, -⟩ := discardLane_ok h.exact key
    exact ⟨_, hdiscard⟩
  stops := by
    obtain ⟨q, packets, hstop, -⟩ := stop_ok h.exact
    exact ⟨_, hstop⟩
  finishes w hw := by
    obtain ⟨q, hfinish, -⟩ := finishOne_ok h.exact hw
    exact ⟨q, hfinish⟩
  selects hidle _ _ key p hp hcutoff := selectNext_of_idle h.exact hidle hp hcutoff
  drained hphase c hcomplete w hsubmit hbelow := by
    obtain ⟨hworks, hqueued⟩ := Foton.drained h.exact hphase hcomplete
    rcases h.fate w hsubmit with hw | hw | hdone
    · exact absurd (hqueued w.key w.packet hw) (not_le.mpr hbelow)
    · simp [hworks] at hw
    · exact hdone

/-- **The packet queue keeps exact books and never gets stuck.** -/
theorem packet_queue_sound (h : PacketSystem.Reachable limits s) : s.Sound := (recorded_of_reachable h).sound

/-- A queue with one waiting packet. -/
theorem waiting_packet_sound : ∃ s : PacketSystem Nat Unit,
    (s.queue.queuedIn 0).length = 1 ∧ s.queue.phase = .opened ∧ s.Sound := by
  let limits : PacketAdmissionLimits := ⟨8192, 33554432⟩
  have hsubmit := Run.single
    (show PacketSystem.Step limits (.new : PacketSystem Nat Unit) (.trySubmit 0 .serialized 1 ()) _ from ⟨trivial, rfl⟩)
  have hopen := hsubmit.snoc (show PacketSystem.Step limits _ .openQueue _ from ⟨trivial, rfl⟩)
  exact ⟨_, rfl, rfl, packet_queue_sound ⟨_, hopen⟩⟩

end

end Foton
