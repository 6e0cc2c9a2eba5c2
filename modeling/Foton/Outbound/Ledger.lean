import Foton.Outbound.Delivery
import Mathlib.Algebra.Order.Ring.Nat

/-!
# The budgets are conserved

Permits are in a semaphore, with a call in progress, with packets that are not
dropped, or on their way back.
-/

namespace Foton.Outbound

/-! ## What a request costs -/

/-- The lane of a request; control traffic has none. -/
def Request.lane : Request → Option OutboundBatchLane
  | trySend _ => some .reliable
  | trySendControl _ => none
  | trySendPacketBatch _ lane => some lane

namespace Budget

/-- The requests whose packets count against a budget. -/
def covers (connection : Nat) (lane : Option OutboundBatchLane) : Budget → Bool
  | reliableEntry c => connection = c ∧ lane = some .reliable
  | chunkEntry c => connection = c ∧ lane = some .chunk
  | controlEntry c => connection = c ∧ lane = none
  | byte c => connection = c
  | nonControlByte c => connection = c ∧ lane ≠ none
  | chunkByte c => connection = c ∧ lane = some .chunk
  | globalEntry => true
  | globalNonControlEntry => lane ≠ none
  | globalByte => true
  | globalNonControlByte => lane ≠ none
  | globalChunkByte => lane = some .chunk

/-- What one packet counts for: an entry, or its encoded bytes. -/
def unit (packet : EncodedPacket) : Budget → Nat
  | reliableEntry _ | chunkEntry _ | controlEntry _ | globalEntry | globalNonControlEntry => 1
  | byte _ | nonControlByte _ | chunkByte _ | globalByte | globalNonControlByte | globalChunkByte => encodedBytes packet

end Budget

/-- The entries or bytes of a request's packets, for a budget that covers it. -/
def share (b : Budget) (connection : Nat) (request : Request) : Nat :=
  if b.covers connection request.lane then (request.packets.map fun packet => b.unit packet).sum else 0

theorem tryU32_some {n m : Nat} (h : tryU32 n = some m) : n = m := by
  unfold tryU32 at h
  split at h
  · cases h
    rfl
  · cases h

theorem foldlM_checkedAdd {packets : List EncodedPacket} {start total : Nat}
    (h : packets.foldlM (fun total packet => checkedAdd total (encodedBytes packet)) start = some total) :
    start + (packets.map encodedBytes).sum = total := by
  induction packets generalizing start with
  | nil =>
    cases h
    rfl
  | cons packet rest ih =>
    rw [List.foldlM_cons] at h
    obtain ⟨next, hnext, hrest⟩ := Option.bind_eq_some_iff.mp h
    unfold checkedAdd at hnext
    split at hnext
    · cases hnext
      rw [List.map_cons, List.sum_cons, ← ih hrest, Nat.add_assoc]
    · cases hnext

theorem amount_permits {connection : Nat} {request : Request} {permits : Permits Budget}
    (h : request.permits connection = some permits) (b : Budget) : Permits.amount permits b = share b connection request := by
  cases request with
  | trySend packet =>
    obtain ⟨n, hn, hpermits⟩ := Option.bind_eq_some_iff.mp h
    cases tryU32_some hn
    cases hpermits
    cases b <;> simp [share, Budget.covers, Budget.unit, Request.packets, Request.lane]
  | trySendControl packet =>
    obtain ⟨n, hn, hpermits⟩ := Option.bind_eq_some_iff.mp h
    cases tryU32_some hn
    cases hpermits
    cases b <;> simp [share, Budget.covers, Budget.unit, Request.packets, Request.lane]
  | trySendPacketBatch packets lane =>
    obtain ⟨count, hcount, h⟩ := Option.bind_eq_some_iff.mp h
    obtain ⟨total, htotal, h⟩ := Option.bind_eq_some_iff.mp h
    obtain ⟨n, hn, hpermits⟩ := Option.bind_eq_some_iff.mp h
    cases tryU32_some hcount
    cases tryU32_some hn
    have hbytes := foldlM_checkedAdd htotal
    rw [Nat.zero_add] at hbytes
    cases hpermits
    cases lane <;> cases b <;>
      simp [share, Budget.covers, Budget.unit, Request.packets, Request.lane, ← hbytes]

/-! ## Conservation -/

namespace State

variable {s s' : State} {capacity : Budget → Nat}

def heldByCalls (s : State) (b : Budget) : Nat := (s.calls.map fun call => Permits.amount call.held b).sum

def heldByPackets (s : State) (b : Budget) : Nat := (s.permitSets.map fun set => Permits.amount set.permits b).sum

/-- What a call has and what it still needs are its request's permits, unless it is rejected. -/
def Call.Sound (call : Call) : Prop :=
  call.request.packets ≠ [] ∧ ∃ permits, call.request.permits call.connection = some permits ∧ match call.phase with
    | .acquiring missing => call.held.reverse ++ missing = permits
    | .reserved => call.held.reverse = permits
    | .rejecting => True

structure Balanced (capacity : Budget → Nat) (s : State) : Prop where
  conserved : ∀ b, s.available b + s.heldByCalls b + s.heldByPackets b + Permits.amount s.returning b = capacity b
  calls : ∀ call ∈ s.calls, Call.Sound call
  shares : ∀ set ∈ s.permitSets, ∀ b, Permits.amount set.permits b = share b set.connection set.request

theorem Balanced.replace (h : s.Balanced capacity) {i : Nat} {call : Call} (hi : s.calls[i]? = some call) (call' : Call)
    (hsound : Call.Sound call') (available : Budget → Nat)
    (hsum : ∀ b, available b + Permits.amount call'.held b = s.available b + Permits.amount call.held b) :
    { s with available := available, calls := s.calls.set i call' }.Balanced capacity where
  conserved b := by
    have hbefore := h.conserved b
    have hset := sum_set (fun call => Permits.amount call.held b) hi call'
    have hb := hsum b
    unfold heldByCalls heldByPackets at hbefore ⊢
    dsimp only at hset ⊢
    omega
  calls other hother := by
    rcases List.mem_or_eq_of_mem_set hother with hother | rfl
    · exact h.calls other hother
    · exact hsound
  shares := h.shares

theorem Balanced.setConnection (h : s.Balanced capacity) (id : Nat) (connection : Connection) :
    (s.setConnection id connection).Balanced capacity := ⟨h.conserved, h.calls, h.shares⟩

theorem Balanced.finish (h : s.Balanced capacity) (connection : Nat) (request : Request) (result : SendResult) :
    (s.finish connection request result).Balanced capacity := ⟨h.conserved, h.calls, h.shares⟩

theorem Balanced.new (capacity : Budget → Nat) : (State.new capacity).Balanced capacity :=
  ⟨fun _ => rfl, fun _ hcall => (by cases hcall), fun _ hset => (by cases hset)⟩

theorem Balanced.start (h : s.Balanced capacity) (connection : Nat) (request : Request) :
    (s.start connection request).Balanced capacity := by
  unfold State.start
  split
  · exact h.finish _ _ _
  · split
    · exact h.finish _ _ _
    · rename_i hne _ permits hpermits
      refine ⟨fun b => ?_, fun call hcall => ?_, h.shares⟩
      · have hbefore := h.conserved b
        unfold heldByCalls heldByPackets at hbefore ⊢
        rw [List.map_append, List.sum_append]
        exact hbefore
      · rcases List.mem_append.mp hcall with hcall | hcall
        · exact h.calls call hcall
        · rw [List.mem_singleton.mp hcall]
          exact ⟨hne, permits, hpermits, rfl⟩

theorem Balanced.send (h : s.Balanced capacity) {i : Nat} {call : Call} (hi : s.calls[i]? = some call)
    (hphase : call.phase = .reserved) : (s.send i call).Balanced capacity := by
  obtain ⟨-, permits, hpermits, hheld⟩ := h.calls call (List.mem_of_getElem? hi)
  rw [hphase] at hheld
  dsimp only at hheld
  refine ⟨fun b => ?_, fun other hother => h.calls other (List.mem_of_mem_eraseIdx hother), fun set hset b => ?_⟩
  · have hbefore := h.conserved b
    have herase := sum_eraseIdx (fun call => Permits.amount call.held b) hi
    unfold heldByCalls heldByPackets at hbefore ⊢
    unfold State.send State.finish State.setConnection
    dsimp only at herase ⊢
    rw [List.map_append, List.sum_append, List.map_singleton, List.sum_singleton]
    dsimp only
    omega
  · rcases List.mem_append.mp hset with hset | hset
    · exact h.shares set hset b
    · rw [List.mem_singleton.mp hset]
      dsimp only
      rw [← amount_permits hpermits, ← hheld, Permits.amount_reverse]

theorem Balanced.advance (h : s.Balanced capacity) {i : Nat} (hgo : s.advance i = some s') : s'.Balanced capacity := by
  unfold State.advance at hgo
  obtain ⟨call, hi, hgo⟩ := Option.bind_eq_some_iff.mp hgo
  have hmem := List.mem_of_getElem? hi
  obtain ⟨hne, permits, hpermits, hphase⟩ := h.calls call hmem
  have hgo := Option.some.inj hgo
  subst hgo
  split
  · rename_i b n missing hacquiring
    rw [hacquiring] at hphase
    split
    · rename_i available hacquire
      refine h.replace hi { call with held := (b, n) :: call.held, phase := .acquiring missing } ⟨hne, permits, hpermits, ?_⟩
        available fun b' => ?_
      · dsimp only at hphase ⊢
        rw [List.reverse_cons, List.append_assoc]
        exact hphase
      · have htaken := tryAcquire_some hacquire b'
        rw [Permits.amount_cons]
        dsimp only
        omega
    · exact h.replace hi { call with phase := .rejecting } ⟨hne, permits, hpermits, trivial⟩ s.available fun _ => rfl
  · rename_i hacquiring
    rw [hacquiring] at hphase
    unfold State.reserve
    dsimp only
    split
    · exact h.replace hi { call with phase := .rejecting } ⟨hne, permits, hpermits, trivial⟩ s.available fun _ => rfl
    · refine (h.replace hi { call with phase := .reserved } ⟨hne, permits, hpermits, ?_⟩ s.available fun _ => rfl).setConnection _ _
      dsimp only at hphase ⊢
      rw [← hphase, List.append_nil]
  · rename_i hreserved
    exact h.send hi hreserved
  · rename_i hrejecting
    split
    · rename_i b n held hheld
      refine h.replace hi { call with held := held } ⟨hne, permits, hpermits, ?_⟩ _ fun b' => ?_
      · dsimp only
        rw [hrejecting]
        trivial
      · rw [giveBack_eq, hheld, Permits.amount_cons]
        dsimp only
        omega
    · rename_i hheld
      have herased : { s with calls := s.calls.eraseIdx i }.Balanced capacity := by
        refine ⟨fun b => ?_, fun other hother => h.calls other (List.mem_of_mem_eraseIdx hother), h.shares⟩
        have hbefore := h.conserved b
        have herase := sum_eraseIdx (fun call => Permits.amount call.held b) hi
        unfold heldByCalls heldByPackets at hbefore ⊢
        dsimp only at herase ⊢
        rw [hheld, Permits.amount_nil, Nat.add_zero] at herase
        rw [herase]
        exact hbefore
      exact herased.finish _ _ _

theorem disown_eq (budget : Nat) {sets : List PermitSet} {set : PermitSet} (hset : set ∈ sets) (hid : set.id = budget)
    (hnodup : (sets.map PermitSet.id).Nodup) : ∃ before after, sets = before ++ set :: after ∧
      disown budget sets = if set.owners ≤ 1 then (before ++ after, set.permits)
        else (before ++ { set with owners := set.owners - 1 } :: after, []) := by
  induction sets with
  | nil => cases hset
  | cons first rest ih =>
    rw [List.map_cons, List.nodup_cons] at hnodup
    unfold disown
    rcases List.mem_cons.mp hset with rfl | hset
    · refine ⟨[], rest, rfl, ?_⟩
      rw [if_pos hid]
      rfl
    · have hne : first.id ≠ budget := fun heq => hnodup.1 (List.mem_map.mpr ⟨set, hset, hid.trans heq.symm⟩)
      obtain ⟨before, after, hsplit, hdisown⟩ := ih hset hnodup.2
      refine ⟨first :: before, after, by rw [hsplit]; rfl, ?_⟩
      rw [if_neg hne, hdisown]
      by_cases howners : set.owners ≤ 1
      · rw [if_pos howners, if_pos howners]
        rfl
      · rw [if_neg howners, if_neg howners]
        rfl

end State

end Foton.Outbound
