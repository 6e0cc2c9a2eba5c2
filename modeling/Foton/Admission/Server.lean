import Foton.Admission.State
import Mathlib.Logic.Function.Basic

/-!
# What each admission step does

The admissions are seen as a table from UUIDs, the online players as a set of
sessions.
-/

namespace Foton.PlayerAdmissions

open PlayerMap

variable {U : Type} [DecidableEq U] {maxPlayers : Nat} {s s' : PlayerAdmissions U} {player : Player U} {u : U}
  {state : PlayerAdmissionState}

def table (s : PlayerAdmissions U) (uuid : U) : Option PlayerAdmissionState := s.admissions.lookup uuid

structure Sound (maxPlayers : Nat) (s : PlayerAdmissions U) : Prop where
  indexed : s.onlinePlayers.Indexed
  offline : ∀ u, s.table u = some .joining → s.onlinePlayers.getByUuid u = none
  capacity : s.playerCount + s.joining ≤ maxPlayers

theorem new_sound : (new : PlayerAdmissions U).Sound maxPlayers :=
  ⟨new_indexed, fun u h => by simp [new, table] at h, Nat.zero_le _⟩

theorem table_insert (admissions : AssocList U PlayerAdmissionState) (online : PlayerMap U) (u : U)
    (state : PlayerAdmissionState) :
    (⟨admissions.insert u state, online⟩ : PlayerAdmissions U).table =
      Function.update (fun a => admissions.lookup a) u (some state) := by
  funext a
  by_cases ha : a = u <;> simp [table, AssocList.lookup_insert, ha]

theorem table_erase (admissions : AssocList U PlayerAdmissionState) (online : PlayerMap U) (u : U) :
    (⟨admissions.erase u, online⟩ : PlayerAdmissions U).table =
      Function.update (fun a => admissions.lookup a) u none := by
  funext a
  by_cases ha : a = u <;> simp [table, AssocList.lookup_erase, ha]

theorem joining_erase (h : s.table u = some state) (online : PlayerMap U) :
    (⟨s.admissions.erase u, online⟩ : PlayerAdmissions U).joining + [state].countP (· = .joining) = s.joining := by
  have hcount := AssocList.count_erase (k := u) (m := s.admissions) (· = .joining)
  rw [show s.admissions.lookup u = some state from h] at hcount
  exact hcount

/-! ## Reservations -/

/-- An entry that was absent or of another kind than `joining` is set. -/
theorem joining_insert (h : s.table u ≠ some .joining) (online : PlayerMap U) (state : PlayerAdmissionState) :
    (⟨s.admissions.insert u state, online⟩ : PlayerAdmissions U).joining = s.joining + [state].countP (· = .joining) := by
  have herase := AssocList.count_erase (k := u) (m := s.admissions) (· = .joining)
  have hnone : (s.admissions.lookup u).toList.countP (· = .joining) = 0 := by
    have hne : s.admissions.lookup u ≠ some .joining := h
    cases hlook : s.admissions.lookup u with
    | none => rfl
    | some st => simpa [List.countP_cons, hlook] using hne
  have hinsert := AssocList.count_insert (k := u) (v := state) (m := s.admissions) (· = .joining)
  simp only [joining, hinsert]
  omega

/-- A reserved session is neither admitted nor online, and there is room for it. -/
structure Reserved (s s' : PlayerAdmissions U) (player : Player U) : Prop where
  free : s.table player.uuid = none
  table : s'.table = Function.update s.table player.uuid (some .joining)
  onlinePlayers : s'.onlinePlayers = s.onlinePlayers

theorem tryReservePlayerJoin_spec (hs : s.Sound maxPlayers) {reservation : PlayerJoinReservation}
    (h : s.tryReservePlayerJoin maxPlayers player = (reservation, s')) : s'.Sound maxPlayers ∧
      if reservation = .reserved then Reserved s s' player else s' = s := by
  unfold tryReservePlayerJoin at h
  split at h
  · cases h
    exact ⟨hs, rfl⟩
  · rename_i hfree
    split at h
    · cases h
      exact ⟨hs, rfl⟩
    · rename_i honline
      split at h
      · cases h
        exact ⟨hs, rfl⟩
      · rename_i hroom
        cases h
        have hfree : s.table player.uuid = none := by simpa [PlayerAdmissions.table] using hfree
        have htable := table_insert s.admissions s.onlinePlayers player.uuid .joining
        refine ⟨⟨hs.indexed, fun a ha => ?_, ?_⟩, hfree, htable, rfl⟩
        · by_cases heq : a = player.uuid
          · subst heq
            simpa using honline
          · have hold : s.table a = some .joining := by
              simpa [PlayerAdmissions.table, AssocList.lookup_insert, heq] using ha
            exact hs.offline a hold
        · have hjoining := joining_insert (by simp [hfree] : s.table player.uuid ≠ some .joining) s.onlinePlayers .joining
          have hcount : [PlayerAdmissionState.joining].countP (· = .joining) = 1 := rfl
          have hsame : (⟨s.admissions.insert player.uuid .joining, s.onlinePlayers⟩ : PlayerAdmissions U).playerCount =
            s.playerCount := rfl
          omega

theorem releasePlayerAdmission_sound (hs : s.Sound maxPlayers) (uuid : U) (state : PlayerAdmissionState) :
    (s.releasePlayerAdmission uuid state).Sound maxPlayers := by
  unfold releasePlayerAdmission
  split
  · rename_i hheld
    refine ⟨hs.indexed, fun a ha => ?_, ?_⟩
    · refine hs.offline a ?_
      by_cases heq : a = uuid
      · simp [table, heq, AssocList.lookup_erase] at ha
      · simpa [table, heq, AssocList.lookup_erase] using ha
    · have hjoining := joining_erase hheld s.onlinePlayers
      have hcapacity := hs.capacity
      have hsame : (⟨s.admissions.erase uuid, s.onlinePlayers⟩ : PlayerAdmissions U).playerCount = s.playerCount := rfl
      omega
  · exact hs

@[simp]
theorem releasePlayerAdmission_onlinePlayers (uuid : U) :
    (s.releasePlayerAdmission uuid state).onlinePlayers = s.onlinePlayers := by
  unfold releasePlayerAdmission
  split <;> rfl

theorem releasePlayerAdmission_table (uuid : U) : (s.releasePlayerAdmission uuid state).table =
    if s.table uuid = some state then Function.update s.table uuid none else s.table := by
  unfold releasePlayerAdmission
  by_cases hheld : s.admissions.lookup uuid = some state
  · simp only [table, hheld, if_true]
    exact table_erase _ _ _
  · simp only [table, hheld, if_false]

/-! ## Joining -/

/-- The session of a `joining` entry is online in its place. -/
structure Joined (s s' : PlayerAdmissions U) (player : Player U) : Prop where
  offline : ¬ s.onlinePlayers.Online player
  table : s'.table = Function.update s.table player.uuid none
  online : ∀ p, s'.onlinePlayers.Online p ↔ p = player ∨ s.onlinePlayers.Online p

theorem admitReservedPlayer_spec (hs : s.Sound maxPlayers) (hheld : s.table player.uuid = some .joining)
    {r : Bool × PlayerAdmissions U} (h : s.admitReservedPlayer player = .ok r) :
    r.1 = true ∧ r.2.Sound maxPlayers ∧ Joined s r.2 player := by
  have hoffline := hs.offline _ hheld
  have hlookup : s.admissions.lookup player.uuid = some .joining := hheld
  simp only [admitReservedPlayer, hlookup, ne_eq, not_true_eq_false, if_false] at h
  cases hinsert : s.onlinePlayers.insert player with
  | error message => simp [hinsert, Except.map] at h
  | ok inserted =>
    simp only [hinsert, Except.map] at h
    cases h
    cases insert_spec hinsert with
    | taken htaken => simp [hoffline] at htaken
    | new m' _ hget hlen hindexed =>
      have htable := table_erase s.admissions m' player.uuid
      refine ⟨rfl, ⟨hindexed hs.indexed, fun a ha => ?_, ?_⟩, ⟨by simp [Online, hoffline], htable, fun p => ?_⟩⟩
      · by_cases heq : a = player.uuid
        · simp [table, heq, AssocList.lookup_erase] at ha
        · have hold : s.table a = some .joining := by simpa [table, heq, AssocList.lookup_erase] using ha
          simpa [hget, heq] using hs.offline a hold
      · have hjoining := joining_erase hheld m'
        have hcount : [PlayerAdmissionState.joining].countP (· = .joining) = 1 := rfl
        have hcapacity := hs.capacity
        simp only [playerCount, hlen] at hcapacity ⊢
        omega
      · simp only [Online, hget]
        by_cases hp : p.uuid = player.uuid
        · simp only [hp, if_true, Option.some.injEq, hoffline, reduceCtorEq, or_false]
          exact eq_comm
        · have hne : p ≠ player := fun heq => hp (heq ▸ rfl)
          simp [hp, hne]

/-! ## Leaving -/

theorem removeOnlinePlayerSync_online (p : Player U) :
    (s.removeOnlinePlayerSync player).onlinePlayers.Online p ↔ s.onlinePlayers.Online p ∧ p ≠ player := by
  have hremoved := removePlayerSync_spec s.onlinePlayers player
  unfold removeOnlinePlayerSync
  generalize s.onlinePlayers.removePlayerSync player = r at hremoved ⊢
  cases hremoved with
  | stale hstale =>
    exact ⟨fun hp => ⟨hp, fun heq => hstale (heq ▸ hp)⟩, fun hp => hp.1⟩
  | gone m' honline hget _ _ =>
    simp only [Online, hget]
    by_cases hp : p.uuid = player.uuid
    · simp only [hp, if_true, reduceCtorEq, false_iff, not_and, not_not]
      intro hlook
      exact Online.unique (by rwa [Online, hp]) honline hp
    · have hne : p ≠ player := fun heq => hp (heq ▸ rfl)
      simp [hp, hne]

theorem removeOnlinePlayerSync_sound (hs : s.Sound maxPlayers) : (s.removeOnlinePlayerSync player).Sound maxPlayers := by
  have hremoved := removePlayerSync_spec s.onlinePlayers player
  unfold removeOnlinePlayerSync
  generalize s.onlinePlayers.removePlayerSync player = r at hremoved ⊢
  cases hremoved with
  | stale hstale => exact hs
  | gone m' honline hget hlen hindexed =>
    refine ⟨hindexed hs.indexed, fun a ha => ?_, ?_⟩
    · by_cases heq : a = player.uuid
      · simp [hget, heq]
      · simpa [hget, heq] using hs.offline a ha
    · have hcapacity := hs.capacity
      simp only [playerCount, joining] at hcapacity ⊢
      omega

theorem finishAdmittedJoin_cases (s : PlayerAdmissions U) (player : Player U) (restored spawned : Bool) :
    s.finishAdmittedJoin player restored spawned = s ∨
      s.finishAdmittedJoin player restored spawned = s.removeOnlinePlayerSync player := by
  unfold finishAdmittedJoin
  cases restored <;> cases spawned <;> simp

/-- A session that is online gets an entry that nobody owns. -/
structure Kept (s s' : PlayerAdmissions U) (player : Player U) (state : PlayerAdmissionState) : Prop where
  free : s.table player.uuid = none ∨ s.table player.uuid = some .relocating
  online : s.onlinePlayers.Online player
  table : s'.table = Function.update s.table player.uuid (some state)
  onlinePlayers : s'.onlinePlayers = s.onlinePlayers

theorem kept_insert (hs : s.Sound maxPlayers) (hstate : state ≠ .joining)
    (hfree : s.table player.uuid = none ∨ s.table player.uuid = some .relocating)
    (honline : s.onlinePlayers.Online player) :
    PlayerAdmissions.Sound maxPlayers { s with admissions := s.admissions.insert player.uuid state } ∧
      Kept s { s with admissions := s.admissions.insert player.uuid state } player state := by
  have htable := table_insert s.admissions s.onlinePlayers player.uuid state
  refine ⟨⟨hs.indexed, fun a ha => ?_, ?_⟩, hfree, honline, htable, rfl⟩
  · by_cases heq : a = player.uuid
    · simp [PlayerAdmissions.table, AssocList.lookup_insert, heq, hstate] at ha
    · have hold : s.table a = some .joining := by
        simpa [PlayerAdmissions.table, AssocList.lookup_insert, heq] using ha
      exact hs.offline a hold
  · have hne : s.table player.uuid ≠ some .joining := by rcases hfree with h | h <;> simp [h]
    have hjoining := joining_insert hne s.onlinePlayers state
    have hcount : [state].countP (· = .joining) = 0 := by simp [hstate]
    have hcapacity := hs.capacity
    have hsame : (⟨s.admissions.insert player.uuid state, s.onlinePlayers⟩ : PlayerAdmissions U).playerCount =
      s.playerCount := rfl
    omega

theorem reserveOnline_spec (hs : s.Sound maxPlayers) (hstate : state ≠ .joining)
    (h : s.reserveOnline player state = some s') : s'.Sound maxPlayers ∧ Kept s s' player state := by
  unfold reserveOnline at h
  split at h
  · cases h
  · rename_i hfree
    split at h
    · cases h
    · rename_i honline
      cases h
      exact kept_insert hs hstate (Or.inl (by simpa [table] using hfree)) (not_not.mp honline)

theorem transition_spec (hs : s.Sound maxPlayers) (h : s.transitionPlayerRelocationToDisconnect player = some s') :
    s'.Sound maxPlayers ∧ Kept s s' player .disconnecting := by
  unfold transitionPlayerRelocationToDisconnect at h
  split at h
  · cases h
  · rename_i hheld
    split at h
    · cases h
    · rename_i honline
      cases h
      exact kept_insert hs (by decide) (Or.inr (not_not.mp hheld)) (not_not.mp honline)

/-- A session that was online is handed to a disconnect save. -/
structure HandedOver (s s' : PlayerAdmissions U) (player : Player U) : Prop where
  free : s.table player.uuid = none ∨ s.table player.uuid = some .relocating
  wasOnline : s.onlinePlayers.Online player
  table : s'.table = Function.update s.table player.uuid (some .disconnecting)
  online : ∀ p, s'.onlinePlayers.Online p ↔ s.onlinePlayers.Online p ∧ p ≠ player

theorem Kept.handOver (h : Kept s s' player .disconnecting) : HandedOver s (s'.removeOnlinePlayerSync player) player where
  free := h.free
  wasOnline := h.online
  table := h.table
  online p := by rw [removeOnlinePlayerSync_online, h.onlinePlayers]

theorem queueDetachedPlayerDisconnect_spec (hs : s.Sound maxPlayers)
    (h : s.queueDetachedPlayerDisconnect player = some s') : s'.Sound maxPlayers ∧ HandedOver s s' player := by
  obtain ⟨reserved, hreserve, rfl⟩ := Option.map_eq_some_iff.mp h
  obtain ⟨hsound, hkept⟩ := reserveOnline_spec hs (by decide) hreserve
  exact ⟨removeOnlinePlayerSync_sound hsound, hkept.handOver⟩

theorem queueRelocatingPlayerDisconnect_spec (hs : s.Sound maxPlayers)
    (h : s.queueRelocatingPlayerDisconnect player = some s') : s'.Sound maxPlayers ∧ HandedOver s s' player := by
  obtain ⟨reserved, hreserve, rfl⟩ := Option.map_eq_some_iff.mp h
  obtain ⟨hsound, hkept⟩ := transition_spec hs hreserve
  exact ⟨removeOnlinePlayerSync_sound hsound, hkept.handOver⟩

/-- The player is still online after its reservation, so the pass that finds it gone is not taken. -/
theorem processPlayerDisconnect_spec (hs : s.Sound maxPlayers) {handed : Bool}
    (h : s.processPlayerDisconnect player = (handed, s')) : s'.Sound maxPlayers ∧
      if handed then HandedOver s s' player else s' = s := by
  unfold processPlayerDisconnect at h
  cases hreserve : s.reservePlayerDisconnect player with
  | none =>
    rw [hreserve] at h
    cases h
    exact ⟨hs, rfl⟩
  | some reserved =>
    obtain ⟨hsound, hkept⟩ := reserveOnline_spec hs (by decide) hreserve
    have hremoved := removePlayerSync_spec reserved.onlinePlayers player
    have hremove : reserved.removeOnlinePlayerSync player =
      { reserved with onlinePlayers := (reserved.onlinePlayers.removePlayerSync player).2 } := rfl
    have hhanded := hkept.handOver
    have hsound' : (reserved.removeOnlinePlayerSync player).Sound maxPlayers := removeOnlinePlayerSync_sound hsound
    rw [hremove] at hhanded hsound'
    simp only [hreserve] at h
    generalize reserved.onlinePlayers.removePlayerSync player = r at h hhanded hsound' hremoved
    cases hremoved with
    | stale hstale => exact absurd (hkept.onlinePlayers ▸ hkept.online) hstale
    | gone m' _ _ _ _ =>
      cases h
      exact ⟨hsound', hhanded⟩

end Foton.PlayerAdmissions
