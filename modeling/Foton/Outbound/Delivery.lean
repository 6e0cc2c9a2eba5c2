import Foton.Outbound.State
import Mathlib.Data.List.Chain

/-!
# The order of delivery

Envelopes leave a channel in the order in which they entered it, and a batch is
delivered whole. After a control envelope has overtaken data, data is next.
-/

namespace Foton.Outbound

/-- A control envelope that was taken while data was queued. -/
def Reception.overtakes (r : Reception) : Prop := r.channel = .control ∧ r.dataQueued = true

namespace Connection

variable {c : Connection}

/-- The envelopes taken from a channel. -/
def takenFrom (c : Connection) (channel : Channel) : List QueuedOutboundEnvelope :=
  (c.received.filter fun r => r.channel = channel).map Reception.envelope

structure Ordered (c : Connection) : Prop where
  lanes : ∀ channel, c.takenFrom channel ++ c.queue channel = c.sent channel
  whole : c.delivered ++ c.activeBatch = c.received.flatMap fun r => r.envelope.packets
  fair : c.received.IsChain fun r r' => r.overtakes → r'.channel = .data
  next : ∀ r ∈ c.received.getLast?, r.overtakes → c.controlWasSelected = true ∧ c.queue .data ≠ [] ∧ c.polled = false

namespace Ordered

theorem new : Connection.new.Ordered := ⟨fun _ => rfl, rfl, List.IsChain.nil, fun _ h => by cases h⟩

theorem send (h : c.Ordered) (channel : Channel) (envelope : QueuedOutboundEnvelope) :
    { c with
      queue := Function.update c.queue channel (c.queue channel ++ [envelope])
      sent := Function.update c.sent channel (c.sent channel ++ [envelope]) }.Ordered where
  lanes channel' := by
    by_cases heq : channel' = channel
    · subst heq
      dsimp only
      rw [Function.update_self, Function.update_self, ← h.lanes, List.append_assoc]
      rfl
    · dsimp only
      rw [Function.update_of_ne heq, Function.update_of_ne heq]
      exact h.lanes channel'
  whole := h.whole
  fair := h.fair
  next r hr hovertakes := by
    obtain ⟨hselected, hqueue, hpolled⟩ := h.next r hr hovertakes
    refine ⟨hselected, ?_, hpolled⟩
    by_cases heq : channel = .data
    · subst heq
      dsimp only
      rw [Function.update_self]
      exact List.append_ne_nil_of_right_ne_nil _ (List.cons_ne_nil _ _)
    · dsimp only
      rw [Function.update_of_ne (Ne.symm heq)]
      exact hqueue

theorem openEnvelope_spec (c : Connection) (envelope : QueuedOutboundEnvelope) (hactive : c.activeBatch = []) :
    (c.openEnvelope envelope).queue = c.queue ∧ (c.openEnvelope envelope).sent = c.sent ∧
      (c.openEnvelope envelope).received = c.received ∧
      (c.openEnvelope envelope).controlWasSelected = c.controlWasSelected ∧
      (c.openEnvelope envelope).polled = c.polled ∧
      (c.openEnvelope envelope).delivered ++ (c.openEnvelope envelope).activeBatch = c.delivered ++ envelope.packets := by
  cases envelope with
  | single packet =>
    refine ⟨rfl, rfl, rfl, rfl, rfl, ?_⟩
    unfold openEnvelope deliver
    rw [hactive, List.append_nil]
    rfl
  | batch packets =>
    cases packets with
    | nil => exact ⟨rfl, rfl, rfl, rfl, rfl, rfl⟩
    | cons packet rest => exact ⟨rfl, rfl, rfl, rfl, rfl, List.append_assoc _ _ _⟩

/-- Data waits behind a control envelope only when the receiver looks at data next. -/
theorem turn_of_overtaken (h : c.Ordered) {r : Reception} (hlast : r ∈ c.received.getLast?) (hovertakes : r.overtakes) :
    c.turn = .data := by
  obtain ⟨hselected, -, hpolled⟩ := h.next r hlast hovertakes
  unfold turn
  rw [hselected, hpolled]
  rfl

theorem take (h : c.Ordered) (hactive : c.activeBatch = []) {envelope : QueuedOutboundEnvelope}
    {rest : List QueuedOutboundEnvelope} (hqueue : c.queue c.turn = envelope :: rest) :
    (c.take c.turn envelope rest).Ordered := by
  obtain ⟨hq, hs, hr, hselected, hpolled, hdelivered⟩ := openEnvelope_spec
    { c with
      queue := Function.update c.queue c.turn rest
      slots := Function.update c.slots c.turn (c.slots c.turn + 1)
      polled := false
      controlWasSelected := c.turn = .control
      received := c.received ++ [⟨c.turn, envelope, !(c.queue .data).isEmpty⟩] } envelope hactive
  constructor
  · intro channel
    unfold Connection.take takenFrom
    rw [hq, hs, hr, List.filter_append, List.map_append]
    have hbefore := h.lanes channel
    unfold takenFrom at hbefore
    dsimp only
    by_cases heq : channel = c.turn
    · subst heq
      rw [Function.update_self, ← hbefore, hqueue]
      simp
    · rw [Function.update_of_ne heq, ← hbefore]
      simp [Ne.symm heq]
  · unfold Connection.take
    rw [hdelivered, hr, List.flatMap_append, ← h.whole, hactive]
    simp
  · unfold Connection.take
    rw [hr]
    refine h.fair.append (List.isChain_singleton _) fun r hlast r' hr' hovertakes => ?_
    rw [List.head?_cons, Option.mem_some_iff] at hr'
    rw [← hr']
    exact h.turn_of_overtaken hlast hovertakes
  · intro r hlast hovertakes
    unfold Connection.take at hlast ⊢
    rw [hr, List.getLast?_concat, Option.mem_some_iff] at hlast
    subst hlast
    obtain ⟨hcontrol, hwaiting⟩ := hovertakes
    dsimp only at hcontrol hwaiting
    rw [hselected, hq, hpolled]
    refine ⟨decide_eq_true hcontrol, ?_, rfl⟩
    dsimp only
    rw [Function.update_of_ne (by rw [hcontrol]; decide)]
    intro hempty
    rw [hempty] at hwaiting
    cases hwaiting

theorem poll (h : c.Ordered) : c.poll.Ordered := by
  unfold Connection.poll
  split
  · rename_i packet rest hactive
    refine ⟨h.lanes, ?_, h.fair, h.next⟩
    unfold deliver
    dsimp only
    rw [List.append_assoc, ← h.whole, hactive]
    rfl
  · rename_i hactive
    split
    · rename_i hempty
      refine ⟨h.lanes, h.whole, h.fair, fun r hlast hovertakes => ?_⟩
      -- Data is queued after an overtaking, so this turn finds it.
      rw [h.turn_of_overtaken hlast hovertakes] at hempty
      exact absurd hempty (h.next r hlast hovertakes).2.1
    · rename_i envelope rest hqueue
      exact h.take hactive hqueue

theorem overtakes_once (h : c.Ordered) {before between after : List Reception} (hsplit : c.received = before ++ (between ++ after))
    (hcontrol : ∀ r ∈ between, r.channel = .control) : (between.filter fun r => r.dataQueued).length ≤ 1 := by
  have hchain : between.IsChain fun r r' => r.overtakes → r'.channel = .data := by
    have hfair := h.fair
    rw [hsplit] at hfair
    exact hfair.right_of_append.left_of_append
  clear hsplit
  induction between with
  | nil => exact Nat.zero_le _
  | cons r rest ih =>
    have hrest := ih (fun r' hr' => hcontrol r' (List.mem_cons_of_mem _ hr')) hchain.of_cons
    by_cases hwaiting : r.dataQueued = true
    · cases rest with
      | nil =>
        rw [List.filter_cons_of_pos hwaiting]
        exact Nat.le_refl _
      | cons r' rest =>
        have hdata : r'.channel = .data :=
          (List.isChain_cons_cons.mp hchain).1 ⟨hcontrol r List.mem_cons_self, hwaiting⟩
        rw [hcontrol r' (List.mem_cons_of_mem _ List.mem_cons_self)] at hdata
        cases hdata
    · rw [List.filter_cons_of_neg hwaiting]
      exact hrest

end Ordered

theorem sent_poll (c : Connection) : c.poll.sent = c.sent := by
  unfold poll
  split
  · rfl
  · split
    · rfl
    · unfold take
      dsimp only
      unfold openEnvelope
      split <;> rfl

end Connection

end Foton.Outbound
