import Foton.Lib.Run
import Foton.Outbound.Ledger
import Mathlib.Data.List.Nodup

/-!
# Permits and the packets that own them

A permit set lives as long as a packet of its request: in a channel, in the
active batch or in the receiver's hands.
-/

namespace Foton.Outbound

namespace Connection

variable {c : Connection}

/-- The packets that are admitted and not dropped. -/
def undropped (c : Connection) : List QueuedOutboundPacket :=
  (c.queue .control).flatMap QueuedOutboundEnvelope.packets ++ (c.queue .data).flatMap QueuedOutboundEnvelope.packets ++
    c.activeBatch ++ c.inHand

def owners (c : Connection) (budget : Nat) : Nat := c.undropped.countP fun packet => packet.budget = budget

theorem owners_perm {c' : Connection} (h : c'.undropped.Perm c.undropped) (budget : Nat) : c'.owners budget = c.owners budget :=
  h.countP_eq _

theorem owners_pos {budget : Nat} : 0 < c.owners budget ↔ ∃ packet ∈ c.undropped, packet.budget = budget := by
  unfold owners
  rw [List.countP_pos_iff]
  simp only [decide_eq_true_eq]

theorem undropped_send (c : Connection) (channel : Channel) (envelope : QueuedOutboundEnvelope)
    (sent : Channel → List QueuedOutboundEnvelope) :
    ({ c with queue := Function.update c.queue channel (c.queue channel ++ [envelope]), sent := sent }.undropped).Perm
      (c.undropped ++ envelope.packets) := by
  refine List.perm_iff_count.mpr fun packet => ?_
  cases channel with
  | data =>
    simp [undropped, List.count_append]
    omega
  | control =>
    simp [undropped, List.count_append]
    omega

theorem undropped_poll (c : Connection) : c.poll.undropped.Perm c.undropped := by
  refine List.perm_iff_count.mpr fun packet => ?_
  unfold poll
  split
  · rename_i first rest hactive
    simp only [undropped, deliver, hactive, List.count_append, List.count_cons, List.count_nil]
    omega
  · rename_i hactive
    split
    · rfl
    · rename_i envelope rest hqueue
      have htaken : (c.queue c.turn).flatMap QueuedOutboundEnvelope.packets =
          envelope.packets ++ rest.flatMap QueuedOutboundEnvelope.packets := by rw [hqueue, List.flatMap_cons]
      have hcount : ((c.take c.turn envelope rest).activeBatch ++ (c.take c.turn envelope rest).inHand).count packet =
          c.inHand.count packet + envelope.packets.count packet := by
        unfold take openEnvelope
        cases envelope with
        | single first =>
          simp only [deliver, hactive, QueuedOutboundEnvelope.packets, List.count_append, List.nil_append]
        | batch packets =>
          cases packets with
          | nil => simp [QueuedOutboundEnvelope.packets]
          | cons first packets =>
            simp only [deliver, QueuedOutboundEnvelope.packets, List.count_append, List.count_cons, List.count_nil]
            omega
      have hqueues : (c.take c.turn envelope rest).queue = Function.update c.queue c.turn rest := by
        cases envelope with
        | single first => rfl
        | batch packets => cases packets <;> rfl
      unfold undropped
      rw [hqueues, hactive, List.append_assoc, List.append_nil]
      rw [List.count_append, hcount]
      cases hturn : c.turn with
      | data =>
        rw [hturn] at htaken
        rw [Function.update_self, Function.update_of_ne (by decide), htaken]
        simp only [List.count_append]
        omega
      | control =>
        rw [hturn] at htaken
        rw [Function.update_self, Function.update_of_ne (by decide), htaken]
        simp only [List.count_append]
        omega

end Connection

namespace State

variable {s s' : State} {capacity : Budget → Nat}

structure Owned (s : State) : Prop where
  owners : ∀ set ∈ s.permitSets, set.owners = (s.connections set.connection).owners set.id ∧ 0 < set.owners
  owned : ∀ id, ∀ packet ∈ (s.connections id).undropped, ∃ set ∈ s.permitSets, set.id = packet.budget ∧ set.connection = id
  fresh : ∀ set ∈ s.permitSets, set.id < s.nextPermitSet
  nodup : (s.permitSets.map PermitSet.id).Nodup

theorem Owned.new (capacity : Budget → Nat) : (State.new capacity).Owned :=
  ⟨fun _ h => (by cases h), fun _ _ h => (by cases h), fun _ h => (by cases h), List.nodup_nil⟩

theorem Owned.of_perm (h : s.Owned) (hsets : s'.permitSets = s.permitSets) (hnext : s'.nextPermitSet = s.nextPermitSet)
    (hperm : ∀ id, (s'.connections id).undropped.Perm (s.connections id).undropped) : s'.Owned where
  owners set hset := by
    rw [hsets] at hset
    rw [Connection.owners_perm (hperm _)]
    exact h.owners set hset
  owned id packet hpacket := by
    rw [hsets]
    exact h.owned id packet ((hperm id).mem_iff.mp hpacket)
  fresh := by rw [hsets, hnext]; exact h.fresh
  nodup := by rw [hsets]; exact h.nodup

theorem Owned.setConnection (h : s.Owned) {id : Nat} {connection : Connection}
    (hperm : connection.undropped.Perm (s.connections id).undropped) : (s.setConnection id connection).Owned := by
  refine h.of_perm rfl rfl fun id' => ?_
  unfold State.setConnection
  dsimp only
  by_cases heq : id' = id
  · rw [heq, Function.update_self]
    exact hperm
  · rw [Function.update_of_ne heq]

theorem Request.envelope_budget (request : Request) (budget : Nat) : ∀ packet ∈ (request.envelope budget).packets,
    packet.budget = budget := by
  intro packet hpacket
  cases request with
  | trySend p => rw [List.mem_singleton.mp hpacket]
  | trySendControl p => rw [List.mem_singleton.mp hpacket]
  | trySendPacketBatch packets lane =>
    obtain ⟨p, -, rfl⟩ := List.mem_map.mp hpacket
    rfl

theorem Request.envelope_length (request : Request) (budget : Nat) :
    (request.envelope budget).packets.length = request.packets.length := by
  cases request with
  | trySend p => rfl
  | trySendControl p => rfl
  | trySendPacketBatch packets lane => exact List.length_map _

theorem Owned.start (h : s.Owned) (connection : Nat) (request : Request) : (s.start connection request).Owned := by
  unfold State.start
  split
  · exact h.of_perm rfl rfl fun _ => .rfl
  · split
    · exact h.of_perm rfl rfl fun _ => .rfl
    · exact h.of_perm rfl rfl fun _ => .rfl

theorem Owned.owners_next (h : s.Owned) (id : Nat) : (s.connections id).owners s.nextPermitSet = 0 := by
  refine Nat.eq_zero_of_not_pos fun hpos => ?_
  obtain ⟨packet, hpacket, hbudget⟩ := Connection.owners_pos.mp hpos
  obtain ⟨set, hset, hid, -⟩ := h.owned id packet hpacket
  exact absurd (h.fresh set hset) (by rw [hid, hbudget]; exact Nat.lt_irrefl _)

theorem Owned.send (h : s.Owned) (i : Nat) {call : Call} (hne : call.request.packets ≠ []) : (s.send i call).Owned := by
  have hbudget := Request.envelope_budget call.request s.nextPermitSet
  have hlength := Request.envelope_length call.request s.nextPermitSet
  have hundropped := (s.connections call.connection).undropped_send call.request.channel
    (call.request.envelope s.nextPermitSet) (Function.update (s.connections call.connection).sent call.request.channel
      ((s.connections call.connection).sent call.request.channel ++ [call.request.envelope s.nextPermitSet]))
  have hconnection : ((s.send i call).connections call.connection).undropped.Perm
      ((s.connections call.connection).undropped ++ (call.request.envelope s.nextPermitSet).packets) := by
    unfold State.send State.finish State.setConnection
    dsimp only
    rw [Function.update_self]
    exact hundropped
  have hother : ∀ id, id ≠ call.connection → (s.send i call).connections id = s.connections id := by
    intro id hid
    exact Function.update_of_ne hid _ _
  have hnew : (call.request.envelope s.nextPermitSet).packets.countP (fun packet => packet.budget = s.nextPermitSet) =
      (call.request.envelope s.nextPermitSet).packets.length :=
    List.countP_eq_length.mpr fun packet hpacket => decide_eq_true (hbudget packet hpacket)
  constructor
  · intro set hset
    rcases List.mem_append.mp hset with hset | hset
    · obtain ⟨howners, hpos⟩ := h.owners set hset
      refine ⟨?_, hpos⟩
      rw [howners]
      by_cases hid : set.connection = call.connection
      · have hnone : (call.request.envelope s.nextPermitSet).packets.countP (fun packet => packet.budget = set.id) = 0 := by
          rw [List.countP_eq_zero]
          intro packet hpacket heq
          have hfresh := h.fresh set hset
          rw [← of_decide_eq_true heq, hbudget packet hpacket] at hfresh
          exact Nat.lt_irrefl _ hfresh
        rw [hid]
        unfold Connection.owners
        rw [hconnection.countP_eq, List.countP_append, hnone, Nat.add_zero]
      · rw [hother _ hid]
    · rw [List.mem_singleton.mp hset]
      dsimp only
      unfold Connection.owners
      rw [hconnection.countP_eq, List.countP_append, hnew]
      have hnone := h.owners_next call.connection
      unfold Connection.owners at hnone
      rw [hnone, Nat.zero_add, hlength]
      exact ⟨rfl, List.length_pos_of_ne_nil hne⟩
  · intro id packet hpacket
    have hkeep : ∀ set ∈ s.permitSets, set ∈ (s.send i call).permitSets := fun set hset => List.mem_append_left _ hset
    by_cases hid : id = call.connection
    · subst hid
      rcases List.mem_append.mp (hconnection.mem_iff.mp hpacket) with hold | hnew
      · obtain ⟨set, hset, hrest⟩ := h.owned _ packet hold
        exact ⟨set, hkeep set hset, hrest⟩
      · exact ⟨_, List.mem_append_right _ List.mem_cons_self, (hbudget packet hnew).symm, rfl⟩
    · rw [hother id hid] at hpacket
      obtain ⟨set, hset, hrest⟩ := h.owned _ packet hpacket
      exact ⟨set, hkeep set hset, hrest⟩
  · intro set hset
    rcases List.mem_append.mp hset with hset | hset
    · exact Nat.lt_succ_of_lt (h.fresh set hset)
    · rw [List.mem_singleton.mp hset]
      exact Nat.lt_succ_self _
  · have hids : (s.send i call).permitSets.map PermitSet.id = s.permitSets.map PermitSet.id ++ [s.nextPermitSet] :=
      List.map_append
    rw [hids]
    refine List.nodup_append.mpr ⟨h.nodup, List.pairwise_singleton _ _, fun id hid id' hid' heq => ?_⟩
    obtain ⟨set, hset, rfl⟩ := List.mem_map.mp hid
    have hfresh := h.fresh set hset
    rw [heq, List.mem_singleton.mp hid'] at hfresh
    exact Nat.lt_irrefl _ hfresh

theorem Owned.advance (h : s.Owned) (hcalls : ∀ call ∈ s.calls, call.request.packets ≠ []) {i : Nat}
    (hgo : s.advance i = some s') : s'.Owned := by
  unfold State.advance at hgo
  obtain ⟨call, hi, hgo⟩ := Option.bind_eq_some_iff.mp hgo
  have hgo := Option.some.inj hgo
  subst hgo
  split
  · split
    · exact h.of_perm rfl rfl fun _ => .rfl
    · exact h.of_perm rfl rfl fun _ => .rfl
  · unfold State.reserve
    dsimp only
    split
    · exact h.of_perm rfl rfl fun _ => .rfl
    · have hcalls : { s with calls := s.calls.set i { call with phase := .reserved } }.Owned :=
        h.of_perm rfl rfl fun _ => .rfl
      exact hcalls.setConnection .rfl
  · exact h.send i (hcalls call (List.mem_of_getElem? hi))
  · split
    · exact h.of_perm rfl rfl fun _ => .rfl
    · exact h.of_perm rfl rfl fun _ => .rfl

/-! ## Dropping -/

/-- The permit set of a packet in hand, and what `drop` does to it. -/
theorem drop_spec (h : s.Owned) {id i : Nat} (hgo : s.drop id i = some s') :
    ∃ packet set before after, (s.connections id).inHand[i]? = some packet ∧ set.id = packet.budget ∧ set.connection = id ∧
      s.permitSets = before ++ set :: after ∧
      s' = { s with
        permitSets := if set.owners ≤ 1 then before ++ after else before ++ { set with owners := set.owners - 1 } :: after
        returning := s.returning ++ if set.owners ≤ 1 then set.permits else [] }.setConnection id
          { s.connections id with inHand := (s.connections id).inHand.eraseIdx i } := by
  unfold State.drop at hgo
  obtain ⟨packet, hi, hgo⟩ := Option.bind_eq_some_iff.mp hgo
  have hgo := Option.some.inj hgo
  have hundropped : packet ∈ (s.connections id).undropped := List.mem_append_right _ (List.mem_of_getElem? hi)
  obtain ⟨set, hset, hid, hconnection⟩ := h.owned id packet hundropped
  obtain ⟨before, after, hsplit, hdisown⟩ := disown_eq packet.budget hset hid h.nodup
  refine ⟨packet, set, before, after, hi, hid, hconnection, hsplit, ?_⟩
  rw [← hgo, hdisown]
  split
  · rfl
  · rfl

theorem Balanced.drop (h : s.Balanced capacity) (howned : s.Owned) {id i : Nat} (hgo : s.drop id i = some s') :
    s'.Balanced capacity := by
  obtain ⟨packet, set, before, after, -, -, -, hsplit, rfl⟩ := drop_spec howned hgo
  refine Balanced.setConnection (s := { s with
    permitSets := if set.owners ≤ 1 then before ++ after else before ++ { set with owners := set.owners - 1 } :: after
    returning := s.returning ++ if set.owners ≤ 1 then set.permits else [] })
    ⟨fun b => ?_, h.calls, fun set' hset' b => ?_⟩ _ _
  · have hbefore := h.conserved b
    unfold heldByCalls heldByPackets at hbefore ⊢
    rw [hsplit] at hbefore
    dsimp only
    by_cases hlast : set.owners ≤ 1
    · rw [if_pos hlast, if_pos hlast, Permits.amount_append]
      rw [List.map_append, List.sum_append] at hbefore ⊢
      rw [List.map_cons, List.sum_cons] at hbefore
      omega
    · rw [if_neg hlast, if_neg hlast, List.append_nil]
      rw [List.map_append, List.sum_append] at hbefore ⊢
      exact hbefore
  · have hshares := h.shares
    rw [hsplit] at hshares
    dsimp only at hset'
    have hset := hshares set (List.mem_append_right _ List.mem_cons_self)
    split at hset'
    · rcases List.mem_append.mp hset' with hset' | hset'
      · exact hshares set' (List.mem_append_left _ hset') b
      · exact hshares set' (List.mem_append_right _ (List.mem_cons_of_mem _ hset')) b
    · rcases List.mem_append.mp hset' with hset' | hset'
      · exact hshares set' (List.mem_append_left _ hset') b
      · rcases List.mem_cons.mp hset' with rfl | hset'
        · exact hset b
        · exact hshares set' (List.mem_append_right _ (List.mem_cons_of_mem _ hset')) b

theorem Owned.drop (h : s.Owned) {id i : Nat} (hgo : s.drop id i = some s') : s'.Owned := by
  obtain ⟨packet, set, before, after, hi, hid, hconnection, hsplit, rfl⟩ := drop_spec h hgo
  let c' : Connection := { s.connections id with inHand := (s.connections id).inHand.eraseIdx i }
  -- One packet is gone, and nothing else changes.
  have hperm : (s.connections id).undropped.Perm (packet :: c'.undropped) := by
    obtain ⟨hlt, rfl⟩ := List.getElem?_eq_some_iff.mp hi
    have hhand := List.getElem_cons_eraseIdx_perm hlt
    exact (hhand.symm.append_left _).trans List.perm_middle
  have hcount : ∀ budget, (s.connections id).owners budget = c'.owners budget + if packet.budget = budget then 1 else 0 := by
    intro budget
    unfold Connection.owners
    rw [hperm.countP_eq, List.countP_cons]
    simp only [decide_eq_true_eq]
  have hset : set ∈ s.permitSets := by rw [hsplit]; exact List.mem_append_right _ List.mem_cons_self
  obtain ⟨howners, -⟩ := h.owners set hset
  have hnodup := h.nodup
  rw [hsplit, List.map_append, List.map_cons] at hnodup
  have hrest : ∀ set' ∈ before ++ after, set' ∈ s.permitSets ∧ set'.id ≠ set.id := by
    intro set' hset'
    refine ⟨?_, fun heq => ?_⟩
    · rw [hsplit]
      rcases List.mem_append.mp hset' with hset' | hset'
      · exact List.mem_append_left _ hset'
      · exact List.mem_append_right _ (List.mem_cons_of_mem _ hset')
    · have hcons := List.perm_middle.nodup_iff.mp hnodup
      rw [List.nodup_cons, ← List.map_append] at hcons
      exact hcons.1 (List.mem_map.mpr ⟨set', hset', heq⟩)
  have hothers : ∀ set' ∈ before ++ after,
      set'.owners = (Function.update s.connections id c' set'.connection).owners set'.id ∧ 0 < set'.owners := by
    intro set' hset'
    obtain ⟨hmem, hne⟩ := hrest set' hset'
    obtain ⟨hcounts, hpos⟩ := h.owners set' hmem
    refine ⟨?_, hpos⟩
    rw [hcounts]
    by_cases hhere : set'.connection = id
    · rw [hhere, Function.update_self, hcount, if_neg (by rw [← hid]; exact Ne.symm hne), Nat.add_zero]
    · rw [Function.update_of_ne hhere]
  -- A packet of another permit set finds it again.
  have hfind : ∀ id' packet', packet' ∈ (Function.update s.connections id c' id').undropped →
      packet'.budget ≠ set.id ∨ id' = id ∧ packet'.budget = set.id ∧ 0 < c'.owners set.id := by
    intro id' packet' hpacket'
    by_cases hbudget : packet'.budget = set.id
    · by_cases hhere : id' = id
      · rw [hhere, Function.update_self] at hpacket'
        exact Or.inr ⟨hhere, hbudget, Connection.owners_pos.mpr ⟨packet', hpacket', hbudget⟩⟩
      · rw [Function.update_of_ne hhere] at hpacket'
        obtain ⟨set', hset', hid', hconnection'⟩ := h.owned id' packet' hpacket'
        have hsame : set' = set := List.inj_on_of_nodup_map h.nodup hset' hset (hid'.trans hbudget)
        rw [hsame, hconnection] at hconnection'
        exact absurd hconnection'.symm hhere
    · exact Or.inl hbudget
  have hold : ∀ id' packet', packet' ∈ (Function.update s.connections id c' id').undropped →
      packet' ∈ (s.connections id').undropped := by
    intro id' packet' hpacket'
    by_cases hhere : id' = id
    · rw [hhere, Function.update_self] at hpacket'
      rw [hhere]
      exact hperm.mem_iff.mpr (List.mem_cons_of_mem _ hpacket')
    · rw [Function.update_of_ne hhere] at hpacket'
      exact hpacket'
  have hreowned : ∀ id' packet', packet' ∈ (Function.update s.connections id c' id').undropped → packet'.budget ≠ set.id →
      ∃ set' ∈ before ++ after, set'.id = packet'.budget ∧ set'.connection = id' := by
    intro id' packet' hpacket' hbudget
    obtain ⟨set', hset', hid', hconnection'⟩ := h.owned id' packet' (hold id' packet' hpacket')
    rw [hsplit] at hset'
    refine ⟨set', ?_, hid', hconnection'⟩
    rcases List.mem_append.mp hset' with hset' | hset'
    · exact List.mem_append_left _ hset'
    · rcases List.mem_cons.mp hset' with rfl | hset'
      · exact absurd hid'.symm hbudget
      · exact List.mem_append_right _ hset'
  have hself := hcount set.id
  rw [if_pos hid.symm, ← hconnection, ← howners] at hself
  by_cases hlast : set.owners ≤ 1
  · constructor
    · intro set' hset'
      dsimp only [State.setConnection] at hset' ⊢
      rw [if_pos hlast] at hset'
      exact hothers set' hset'
    · intro id' packet' hpacket'
      dsimp only [State.setConnection] at hpacket' ⊢
      rw [if_pos hlast]
      rcases hfind id' packet' hpacket' with hbudget | ⟨-, -, hpos⟩
      · exact hreowned id' packet' hpacket' hbudget
      · omega
    · intro set' hset'
      dsimp only [State.setConnection] at hset' ⊢
      rw [if_pos hlast] at hset'
      exact h.fresh set' (hrest set' hset').1
    · dsimp only [State.setConnection]
      rw [if_pos hlast, List.map_append]
      exact (List.nodup_cons.mp (List.perm_middle.nodup_iff.mp hnodup)).2
  · constructor
    · intro set' hset'
      dsimp only [State.setConnection] at hset' ⊢
      rw [if_neg hlast] at hset'
      rcases List.mem_cons.mp (List.perm_middle.mem_iff.mp hset') with rfl | hset'
      · dsimp only
        rw [hconnection, Function.update_self]
        have hleft : set.owners - 1 = c'.owners set.id := by omega
        exact ⟨hleft, by omega⟩
      · exact hothers set' hset'
    · intro id' packet' hpacket'
      dsimp only [State.setConnection] at hpacket' ⊢
      rw [if_neg hlast]
      rcases hfind id' packet' hpacket' with hbudget | ⟨rfl, hbudget, -⟩
      · obtain ⟨set', hset', hrest'⟩ := hreowned id' packet' hpacket' hbudget
        exact ⟨set', List.perm_middle.mem_iff.mpr (List.mem_cons_of_mem _ hset'), hrest'⟩
      · exact ⟨_, List.mem_append_right _ List.mem_cons_self, hbudget.symm, hconnection⟩
    · intro set' hset'
      dsimp only [State.setConnection] at hset' ⊢
      rw [if_neg hlast] at hset'
      rcases List.mem_cons.mp (List.perm_middle.mem_iff.mp hset') with rfl | hset'
      · exact h.fresh set hset
      · exact h.fresh set' (hrest set' hset').1
    · dsimp only [State.setConnection]
      rw [if_neg hlast, List.map_append]
      exact hnodup

end State

end Foton.Outbound
