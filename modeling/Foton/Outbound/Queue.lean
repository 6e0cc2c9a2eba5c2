import Foton.Outbound.Owners

/-!
# The outbound queue over whole runs

Any number of senders, receivers and droppers take their steps in any order.
-/

namespace Foton.Outbound

def QueuedOutboundEnvelope.contents (envelope : QueuedOutboundEnvelope) : List OutboundPacket :=
  envelope.packets.map QueuedOutboundPacket.packet

@[simp]
theorem Request.contents_envelope (request : Request) (budget : Nat) :
    (request.envelope budget).contents = (request.envelope 0).contents := by
  cases request with
  | trySend packet => rfl
  | trySendControl packet => rfl
  | trySendPacketBatch packets lane =>
    simp [Request.envelope, QueuedOutboundEnvelope.contents, QueuedOutboundEnvelope.packets]

namespace State

variable {s s' : State} {capacity : Budget → Nat}

/-- A refused request comes back as it was. -/
def Returned (s : State) : Prop := ∀ e ∈ s.results, e.2.2 = .ok ∨ e.2.2 = .full e.2.1

/-- The packets of the accepted requests, request by request. -/
def accepted (s : State) (id : Nat) (channel : Channel) : List (List OutboundPacket) :=
  s.results.filterMap fun e =>
    if e.1 = id ∧ e.2.1.channel = channel ∧ e.2.1.packets ≠ [] ∧ e.2.2 = .ok then some (e.2.1.envelope 0).contents else none

/-- The channels are sent what was accepted. -/
def Recorded (s : State) : Prop :=
  ∀ id channel, ((s.connections id).sent channel).map QueuedOutboundEnvelope.contents = s.accepted id channel

structure Sound (capacity : Budget → Nat) (s : State) : Prop where
  balanced : s.Balanced capacity
  owned : s.Owned
  ordered : ∀ id, (s.connections id).Ordered
  returned : s.Returned
  recorded : s.Recorded

theorem Sound.new (capacity : Budget → Nat) : (State.new capacity).Sound capacity :=
  ⟨.new capacity, .new capacity, fun _ => .new, fun _ h => (by cases h), fun _ _ => rfl⟩

theorem Returned.finish (h : s.Returned) (connection : Nat) {request : Request} {result : SendResult}
    (hresult : result = .ok ∨ result = .full request) : (s.finish connection request result).Returned := by
  intro e he
  rcases List.mem_append.mp he with he | he
  · exact h e he
  · rw [List.mem_singleton.mp he]
    exact hresult

theorem ordered_setConnection (h : ∀ id, (s.connections id).Ordered) (id : Nat) {connection : Connection}
    (hconnection : connection.Ordered) : ∀ id', ((s.setConnection id connection).connections id').Ordered := by
  intro id'
  unfold setConnection
  dsimp only
  by_cases heq : id' = id
  · rw [heq, Function.update_self]
    exact hconnection
  · rw [Function.update_of_ne heq]
    exact h id'

theorem Recorded.finish (h : s.Recorded) (connection : Nat) {request : Request} {result : SendResult}
    (hresult : request.packets = [] ∨ result ≠ .ok) : (s.finish connection request result).Recorded := by
  intro id channel
  have hskip : ¬(connection = id ∧ request.channel = channel ∧ request.packets ≠ [] ∧ result = .ok) := by
    rintro ⟨-, -, hne, hok⟩
    rcases hresult with hempty | hfull
    · exact hne hempty
    · exact hfull hok
  unfold accepted State.finish
  rw [List.filterMap_append, List.filterMap_cons_none (by simp only [if_neg hskip]), List.filterMap_nil, List.append_nil]
  exact h id channel

theorem Recorded.send (h : s.Recorded) (i : Nat) {call : Call} (hne : call.request.packets ≠ []) : (s.send i call).Recorded := by
  intro id channel
  have hid := h id channel
  unfold accepted at hid ⊢
  unfold State.send State.finish State.setConnection
  dsimp only
  rw [List.filterMap_append, ← hid]
  by_cases hconnection : id = call.connection
  · subst hconnection
    rw [Function.update_self]
    by_cases hchannel : channel = call.request.channel
    · subst hchannel
      dsimp only
      rw [Function.update_self]
      simp [hne]
    · dsimp only
      rw [Function.update_of_ne hchannel]
      simp [Ne.symm hchannel]
  · rw [Function.update_of_ne hconnection]
    simp [Ne.symm hconnection]

theorem Sound.start (h : s.Sound capacity) (connection : Nat) (request : Request) :
    (s.start connection request).Sound capacity := by
  refine ⟨h.balanced.start connection request, h.owned.start connection request, ?_, ?_, ?_⟩
  · unfold State.start
    split
    · exact h.ordered
    · split
      · exact h.ordered
      · exact h.ordered
  · unfold State.start
    split
    · exact h.returned.finish connection (Or.inl rfl)
    · split
      · exact h.returned.finish connection (Or.inr rfl)
      · exact h.returned
  · unfold State.start
    split
    · rename_i hempty
      exact h.recorded.finish connection (Or.inl hempty)
    · split
      · exact h.recorded.finish connection (Or.inr (by simp))
      · exact h.recorded

theorem Recorded.setConnection (h : s.Recorded) {id : Nat} {connection : Connection}
    (hsent : connection.sent = (s.connections id).sent) : (s.setConnection id connection).Recorded := by
  intro id' channel
  have hid := h id' channel
  unfold accepted at hid ⊢
  unfold State.setConnection
  dsimp only
  rw [← hid]
  by_cases heq : id' = id
  · rw [heq, Function.update_self, hsent]
  · rw [Function.update_of_ne heq]

theorem advance_cases {i : Nat} (hgo : s.advance i = some s') : ∃ call, s.calls[i]? = some call ∧
    ((s'.results = s.results ∧ ∀ id, ∃ slots, s'.connections id = { s.connections id with slots := slots }) ∨
      call.phase = .reserved ∧ s' = s.send i call ∨
      s' = { s with calls := s.calls.eraseIdx i }.finish call.connection call.request (.full call.request)) := by
  unfold State.advance at hgo
  obtain ⟨call, hi, hgo⟩ := Option.bind_eq_some_iff.mp hgo
  have hgo := Option.some.inj hgo
  subst hgo
  refine ⟨call, hi, ?_⟩
  split
  · split
    · exact Or.inl ⟨rfl, fun id => ⟨_, rfl⟩⟩
    · exact Or.inl ⟨rfl, fun id => ⟨_, rfl⟩⟩
  · unfold State.reserve
    dsimp only
    split
    · exact Or.inl ⟨rfl, fun id => ⟨_, rfl⟩⟩
    · refine Or.inl ⟨rfl, fun id => ?_⟩
      unfold setConnection
      dsimp only
      by_cases hid : id = call.connection
      · rw [hid, Function.update_self]
        exact ⟨_, rfl⟩
      · rw [Function.update_of_ne hid]
        exact ⟨_, rfl⟩
  · rename_i hphase
    exact Or.inr (Or.inl ⟨hphase, rfl⟩)
  · split
    · exact Or.inl ⟨rfl, fun id => ⟨_, rfl⟩⟩
    · exact Or.inr (Or.inr rfl)

theorem Sound.advance (h : s.Sound capacity) {i : Nat} (hgo : s.advance i = some s') : s'.Sound capacity := by
  have hcalls : ∀ call ∈ s.calls, call.request.packets ≠ [] := fun call hcall => (h.balanced.calls call hcall).1
  have hbalanced := h.balanced.advance hgo
  have howned := h.owned.advance hcalls hgo
  obtain ⟨call, hi, ⟨hresults, hconnections⟩ | ⟨-, rfl⟩ | rfl⟩ := advance_cases hgo
  · refine ⟨hbalanced, howned, fun id => ?_, ?_, fun id channel => ?_⟩
    · obtain ⟨slots, hslots⟩ := hconnections id
      obtain ⟨hlanes, hwhole, hfair, hnext⟩ := h.ordered id
      rw [hslots]
      exact ⟨hlanes, hwhole, hfair, hnext⟩
    · unfold Returned
      rw [hresults]
      exact h.returned
    · obtain ⟨slots, hslots⟩ := hconnections id
      unfold accepted
      rw [hresults, hslots]
      exact h.recorded id channel
  · exact ⟨hbalanced, howned, ordered_setConnection (s := { s with
        calls := s.calls.eraseIdx i
        permitSets := s.permitSets ++ [⟨s.nextPermitSet, call.connection, call.request, call.held,
          (call.request.envelope s.nextPermitSet).packets.length⟩]
        nextPermitSet := s.nextPermitSet + 1 }) h.ordered _ ((h.ordered call.connection).send _ _),
      Returned.finish h.returned call.connection (Or.inl rfl), h.recorded.send i (hcalls call (List.mem_of_getElem? hi))⟩
  · exact ⟨hbalanced, howned, h.ordered, Returned.finish h.returned call.connection (Or.inr rfl),
      Recorded.finish h.recorded call.connection (Or.inr (by simp))⟩

theorem Sound.returnPermit (h : s.Sound capacity) {i : Nat} {b : Budget} {n : Nat} (hi : s.returning[i]? = some (b, n)) :
    { s with available := giveBack s.available b n, returning := s.returning.eraseIdx i }.Sound capacity := by
  refine ⟨⟨fun b' => ?_, h.balanced.calls, h.balanced.shares⟩, h.owned.of_perm rfl rfl fun _ => .rfl, h.ordered, h.returned,
    h.recorded⟩
  have hbefore := h.balanced.conserved b'
  have herase := sum_eraseIdx (fun e : Budget × Nat => if e.1 = b' then e.2 else 0) hi
  unfold heldByCalls heldByPackets Permits.amount at hbefore ⊢
  dsimp only at herase ⊢
  rw [giveBack_eq]
  omega

theorem Sound.drop (h : s.Sound capacity) {id i : Nat} (hgo : s.drop id i = some s') : s'.Sound capacity := by
  have hbalanced := h.balanced.drop h.owned hgo
  have howned := h.owned.drop hgo
  obtain ⟨packet, set, before, after, -, -, -, -, rfl⟩ := drop_spec h.owned hgo
  obtain ⟨hlanes, hwhole, hfair, hnext⟩ := h.ordered id
  exact ⟨hbalanced, howned, ordered_setConnection (s := { s with
        permitSets := if set.owners ≤ 1 then before ++ after else before ++ { set with owners := set.owners - 1 } :: after
        returning := s.returning ++ if set.owners ≤ 1 then set.permits else [] }) h.ordered id
      ⟨hlanes, hwhole, hfair, hnext⟩, h.returned, Recorded.setConnection (s := { s with
        permitSets := if set.owners ≤ 1 then before ++ after else before ++ { set with owners := set.owners - 1 } :: after
        returning := s.returning ++ if set.owners ≤ 1 then set.permits else [] }) h.recorded rfl⟩

theorem Sound.exec (h : s.Sound capacity) {op : Op} (hgo : s.exec op = some s') : s'.Sound capacity := by
  cases op with
  | start connection request =>
    cases hgo
    exact h.start connection request
  | advance call => exact h.advance hgo
  | poll connection =>
    cases hgo
    exact ⟨h.balanced.setConnection _ _, h.owned.setConnection (s.connections connection).undropped_poll,
      ordered_setConnection h.ordered _ (h.ordered connection).poll, h.returned,
      h.recorded.setConnection (s.connections connection).sent_poll⟩
  | drop connection i => exact h.drop hgo
  | returnPermit i =>
    obtain ⟨⟨b, n⟩, hi, hgo⟩ := Option.bind_eq_some_iff.mp hgo
    cases hgo
    exact h.returnPermit hi

theorem Sound.run (h : s.Sound capacity) {ops : List Op} (hrun : Run Step s ops s') : s'.Sound capacity :=
  hrun.invariant h fun _ _ _ hs hstep => hs.exec hstep

/-! ## The budgets -/

/-- What a budget has given to the admitted requests. -/
def admitted (s : State) (b : Budget) : Nat := (s.permitSets.map fun set => share b set.connection set.request).sum

theorem Balanced.heldByPackets_eq (h : s.Balanced capacity) (b : Budget) : s.heldByPackets b = s.admitted b := by
  unfold heldByPackets admitted
  exact congrArg List.sum (List.map_congr_left fun set hset => h.shares set hset b)

theorem Balanced.available_eq (h : s.Balanced capacity) (h' : s'.Balanced capacity) (hcalls : s'.calls = s.calls)
    (hsets : s'.permitSets = s.permitSets) (hreturning : s'.returning = s.returning) : s'.available = s.available := by
  funext b
  have hs := h.conserved b
  have hs' := h'.conserved b
  unfold heldByCalls heldByPackets at hs hs'
  rw [hcalls, hsets, hreturning] at hs'
  omega

theorem Owned.alive (h : s.Owned) {set : PermitSet} (hset : set ∈ s.permitSets) :
    ∃ packet ∈ (s.connections set.connection).undropped, packet.budget = set.id := by
  obtain ⟨howners, hpos⟩ := h.owners set hset
  rw [howners] at hpos
  exact Connection.owners_pos.mp hpos

theorem Sound.all_returned (h : s.Sound capacity) (hcalls : s.calls = []) (hreturning : s.returning = [])
    (hdropped : ∀ id, (s.connections id).undropped = []) : s.available = capacity := by
  funext b
  have hsets : s.permitSets = [] := by
    refine List.eq_nil_iff_forall_not_mem.mpr fun set hset => ?_
    obtain ⟨packet, hpacket, -⟩ := h.owned.alive hset
    rw [hdropped] at hpacket
    cases hpacket
  have hconserved := h.balanced.conserved b
  unfold heldByCalls heldByPackets at hconserved
  rw [hcalls, hsets, hreturning] at hconserved
  simpa using hconserved

/-- What the undropped packets of a connection cost a budget, each packet for itself. -/
def undroppedCost (s : State) (id : Nat) (b : Budget) : Nat :=
  ((s.connections id).undropped.map fun packet =>
    match s.permitSets.find? fun set => set.id = packet.budget with
    | some set => if b.covers id set.request.lane then b.unit packet.packet.encodedPacket else 0
    | none => 0).sum

end State

/-- However senders, receivers and droppers take turns: each channel yields what was accepted, in this order and batches
whole; one control packet overtakes queued data at a time; every refused request comes back; and permits that are not
available are held by a call, by the undropped packets of an admitted request, or on their way back. -/
theorem outbound_queue (capacity : Budget → Nat) {ops : List State.Op} {s : State}
    (hrun : Run State.Step (State.new capacity) ops s) :
    (∀ id, let c := s.connections id
      (∀ channel, (c.takenFrom channel ++ c.queue channel).map QueuedOutboundEnvelope.contents = s.accepted id channel) ∧
      c.delivered ++ c.activeBatch = (c.received.flatMap fun r => r.envelope.packets) ∧
      ∀ before between after, c.received = before ++ (between ++ after) → (∀ r ∈ between, r.channel = .control) →
        (between.filter fun r => r.dataQueued).length ≤ 1) ∧
    (∀ e ∈ s.results, e.2.2 = .ok ∨ e.2.2 = .full e.2.1) ∧
    (∀ b, s.available b + s.heldByCalls b + s.admitted b + Permits.amount s.returning b = capacity b) ∧
    (∀ set ∈ s.permitSets, ∃ packet ∈ (s.connections set.connection).undropped, packet.budget = set.id) ∧
    (∀ id, ∀ packet ∈ (s.connections id).undropped, ∃ set ∈ s.permitSets, set.id = packet.budget ∧ set.connection = id) ∧
    (∀ ops' s', Run State.Step s ops' s' → s'.calls = s.calls → s'.permitSets = s.permitSets →
      s'.returning = s.returning → s'.available = s.available) ∧
    (s.calls = [] → s.returning = [] → (∀ id, (s.connections id).undropped = []) → s.available = capacity) := by
  have hsound := (State.Sound.new capacity).run hrun
  refine ⟨fun id => ⟨fun channel => ?_, (hsound.ordered id).whole, fun before between after hsplit hcontrol =>
    (hsound.ordered id).overtakes_once hsplit hcontrol⟩, hsound.returned, fun b => ?_, fun set hset => hsound.owned.alive hset,
    hsound.owned.owned, fun ops' s' hrun' hcalls hsets hreturning => ?_, hsound.all_returned⟩
  · rw [(hsound.ordered id).lanes channel]
    exact hsound.recorded id channel
  · rw [← hsound.balanced.heldByPackets_eq]
    exact hsound.balanced.conserved b
  · exact hsound.balanced.available_eq (hsound.run hrun').balanced hcalls hsets hreturning

/-- Two packets of a batch wait, and a control packet overtakes them. -/
theorem control_overtakes : ∃ ops s, Run State.Step (State.new fun _ => 8) ops s ∧
    (s.connections 0).delivered.map (fun packet => packet.packet.encodedPacket.encodedData) = [[9], [1], [2]] ∧
    ∀ b, s.available b + s.heldByCalls b + s.admitted b + Permits.amount s.returning b = 8 := by
  let ops : List State.Op := .start 0 (.trySendPacketBatch [⟨[1]⟩, ⟨[2]⟩] .reliable) :: List.replicate 9 (.advance 0) ++
    .start 0 (.trySendControl (.packet ⟨[9]⟩)) :: List.replicate 6 (.advance 0) ++ [.poll 0, .poll 0, .poll 0, .drop 0 0]
  have hrun : (ops.foldlM State.exec (State.new fun _ => 8)).map (fun s => (s.connections 0).delivered.map
      fun packet => packet.packet.encodedPacket.encodedData) = some [[9], [1], [2]] := by decide +kernel
  obtain ⟨s, hs, hdelivered⟩ := Option.map_eq_some_iff.mp hrun
  have hrun : Run State.Step (State.new fun _ => 8) ops s := .of_foldlM (fun _ _ _ hgo => hgo) hs
  exact ⟨ops, s, hrun, hdelivered, (outbound_queue (fun _ => 8) hrun).2.2.1⟩

/-- A dropped packet of a batch still takes part in the batch's permits: with nobody at work, the undropped packets
alone do not account for what is missing. -/
theorem batch_keeps_its_permits : ¬∀ (capacity : Budget → Nat) (ops : List State.Op) (s : State),
    Run State.Step (State.new capacity) ops s → s.calls = [] → s.returning = [] →
      s.available (.reliableEntry 0) + s.undroppedCost 0 (.reliableEntry 0) = capacity (.reliableEntry 0) := by
  intro hclaim
  let ops : List State.Op := .start 0 (.trySendPacketBatch [⟨[1]⟩, ⟨[2]⟩] .reliable) :: List.replicate 9 (.advance 0) ++
    [.poll 0, .poll 0, .drop 0 0]
  have hrun : (ops.foldlM State.exec (State.new fun _ => 8)).map (fun s => (s.calls.isEmpty, s.returning.isEmpty,
      s.available (.reliableEntry 0) + s.undroppedCost 0 (.reliableEntry 0))) = some (true, true, 7) := by decide +kernel
  obtain ⟨s, hs, hend⟩ := Option.map_eq_some_iff.mp hrun
  simp only [Prod.mk.injEq, List.isEmpty_iff] at hend
  obtain ⟨hcalls, hreturning, hseven⟩ := hend
  have height := hclaim (fun _ => 8) ops s (.of_foldlM (fun _ _ _ hgo => hgo) hs) hcalls hreturning
  omega

end Foton.Outbound
