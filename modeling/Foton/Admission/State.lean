import Foton.Lib.AssocList

/-!
# The map of online players

Players are found by UUID and by entity id, and iterated in the order of their
insertion. A player is a handle: two sessions of one account are two players.
-/

namespace Foton

section

variable {U : Type} [DecidableEq U]

structure Player (U : Type) where
  handle : Nat
  uuid : U
  entityId : Int
  deriving DecidableEq

structure PlayerMap (U : Type) [DecidableEq U] where
  byUuid : AssocList U (Player U)
  byEntityId : AssocList Int (Player U)
  order : List U

namespace PlayerMap

def new : PlayerMap U := ⟨∅, ∅, []⟩

def getByUuid (m : PlayerMap U) (uuid : U) : Option (Player U) := m.byUuid.lookup uuid

def getByEntityId (m : PlayerMap U) (entityId : Int) : Option (Player U) := m.byEntityId.lookup entityId

def len (m : PlayerMap U) : Nat := AssocList.count (fun _ => true) m.byUuid

/-- `false` when the UUID is taken; a taken entity id panics. -/
def insert (m : PlayerMap U) (player : Player U) : Except String (Bool × PlayerMap U) :=
  if (m.byUuid.lookup player.uuid).isSome then .ok (false, m)
  else if (m.byEntityId.lookup player.entityId).isSome then
    .error s!"player entity id {player.entityId} is already registered"
  else .ok (true, ⟨m.byUuid.insert player.uuid player, m.byEntityId.insert player.entityId player,
    m.order ++ [player.uuid]⟩)

/-- Only this very player is removed, not another session of its account. -/
def removePlayerSync (m : PlayerMap U) (player : Player U) : Option (Player U) × PlayerMap U :=
  if m.byUuid.lookup player.uuid = some player then
    (some player, {
      byUuid := m.byUuid.erase player.uuid
      byEntityId :=
        if m.byEntityId.lookup player.entityId = some player then m.byEntityId.erase player.entityId
        else m.byEntityId
      order := m.order.filter (· ≠ player.uuid) })
  else (none, m)

/-- The indices agree. -/
structure Indexed (m : PlayerMap U) : Prop where
  uuid : ∀ u p, m.getByUuid u = some p → p.uuid = u
  entityId : ∀ e p, m.getByEntityId e = some p ↔ p.entityId = e ∧ m.getByUuid p.uuid = some p
  nodup : m.order.Nodup
  order : ∀ u, u ∈ m.order ↔ (m.getByUuid u).isSome

/-- The session is online. -/
def Online (m : PlayerMap U) (player : Player U) : Prop := m.getByUuid player.uuid = some player

instance (m : PlayerMap U) (player : Player U) : Decidable (m.Online player) :=
  inferInstanceAs (Decidable (_ = _))

variable {m m' : PlayerMap U} {player : Player U} {u : U}

theorem new_indexed : (new : PlayerMap U).Indexed := ⟨by simp [new, getByUuid], by simp [new, getByUuid, getByEntityId],
  List.nodup_nil, by simp [new, getByUuid]⟩

theorem Online.unique {player' : Player U} (h : m.Online player) (h' : m.Online player')
    (huuid : player.uuid = player'.uuid) : player = player' := by
  unfold Online at h h'
  rw [huuid, h'] at h
  exact (Option.some.inj h).symm

/-! ## Insertion -/

/-- What inserting a player gives unless it panics. -/
inductive Inserted (m : PlayerMap U) (player : Player U) : Bool × PlayerMap U → Prop
  | taken : (m.getByUuid player.uuid).isSome = true → Inserted m player (false, m)
  | new (m' : PlayerMap U) : m.getByUuid player.uuid = none →
    (∀ u, m'.getByUuid u = if u = player.uuid then some player else m.getByUuid u) → m'.len = m.len + 1 →
    (m.Indexed → m'.Indexed) → Inserted m player (true, m')

theorem insert_spec {r : Bool × PlayerMap U} (h : m.insert player = .ok r) : Inserted m player r := by
  unfold insert at h
  split at h
  · rename_i htaken
    cases h
    exact .taken htaken
  · rename_i hfree
    have huuid : m.getByUuid player.uuid = none := by simpa [getByUuid] using hfree
    split at h
    · cases h
    · rename_i hentity
      have hentity : m.byEntityId.lookup player.entityId = none := by simpa using hentity
      cases h
      have hlookup : ∀ u, (m.byUuid.insert player.uuid player).lookup u =
          if u = player.uuid then some player else m.getByUuid u := fun u => AssocList.lookup_insert
      refine .new _ huuid hlookup ?_ fun hindexed => ⟨?_, ?_, ?_, ?_⟩
      · rw [len, AssocList.count_insert_new _ huuid, Nat.add_comm]
        rfl
      · intro u p hp
        simp only [getByUuid, hlookup] at hp
        split at hp
        · rename_i heq
          cases hp
          exact heq.symm
        · exact hindexed.uuid u p hp
      · intro e p
        have hold := hindexed.entityId e p
        simp only [getByEntityId, getByUuid, hlookup, AssocList.lookup_insert] at hold ⊢
        by_cases hp : p = player
        · subst hp
          by_cases he : e = p.entityId
          · simp [he]
          · simp [he, Ne.symm he, hold]
        · have hne : p.uuid = player.uuid → ¬ m.byUuid.lookup p.uuid = some p := fun heq hlook => by
            rw [heq] at hlook
            simp [getByUuid, hlook] at huuid
          by_cases he : e = player.entityId
          · subst he
            simp only [if_true, Option.some.injEq, Ne.symm hp, false_iff, not_and]
            intro heq
            by_cases hu : p.uuid = player.uuid
            · simp [hu, Ne.symm hp]
            · rw [if_neg hu]
              intro hlook
              rw [hold.mpr ⟨heq, hlook⟩] at hentity
              cases hentity
          · by_cases hu : p.uuid = player.uuid
            · simp only [if_neg he, hold, if_pos hu, Option.some.injEq, Ne.symm hp, and_false, iff_false, not_and]
              exact fun _ => hne hu
            · simp [he, hu, hold]
      · refine List.nodup_append.mpr ⟨hindexed.nodup, List.nodup_singleton _, fun a ha b hb heq => ?_⟩
        rw [List.mem_singleton.mp hb] at heq
        subst heq
        have hsome := (hindexed.order _).mp ha
        rw [huuid] at hsome
        cases hsome
      · intro u
        simp only [getByUuid, hlookup, List.mem_append, List.mem_singleton]
        by_cases hu : u = player.uuid
        · simp [hu]
        · simp [hu, hindexed.order, getByUuid]

/-! ## Removal -/

/-- What removing a player gives. -/
inductive Removed (m : PlayerMap U) (player : Player U) : Option (Player U) × PlayerMap U → Prop
  | stale : ¬ m.Online player → Removed m player (none, m)
  | gone (m' : PlayerMap U) : m.Online player →
    (∀ u, m'.getByUuid u = if u = player.uuid then none else m.getByUuid u) → m'.len + 1 = m.len →
    (m.Indexed → m'.Indexed) → Removed m player (some player, m')

theorem removePlayerSync_spec (m : PlayerMap U) (player : Player U) : Removed m player (m.removePlayerSync player) := by
  unfold removePlayerSync
  split
  · rename_i honline
    have hlookup : ∀ u, (m.byUuid.erase player.uuid).lookup u = if u = player.uuid then none else m.getByUuid u :=
      fun u => AssocList.lookup_erase
    refine .gone _ honline hlookup ?_ fun hindexed => ?_
    · have hcount := AssocList.count_erase (k := player.uuid) (m := m.byUuid) fun _ => true
      rw [honline] at hcount
      exact hcount
    · have hentity : m.byEntityId.lookup player.entityId = some player :=
        (hindexed.entityId _ _).mpr ⟨rfl, honline⟩
      rw [if_pos hentity]
      refine ⟨fun u p hp => ?_, fun e p => ?_, hindexed.nodup.filter _, fun u => ?_⟩
      · simp only [getByUuid, hlookup] at hp
        split at hp
        · cases hp
        · exact hindexed.uuid u p hp
      · have hold := hindexed.entityId e p
        simp only [getByEntityId, getByUuid, hlookup, AssocList.lookup_erase] at hold ⊢
        by_cases hp : p = player
        · subst hp
          by_cases he : e = p.entityId
          · simp [he]
          · simp [he, hold, Ne.symm he]
        · by_cases he : e = player.entityId
          · subst he
            simp only [if_true, reduceCtorEq, false_iff, not_and]
            intro heq
            by_cases hu : p.uuid = player.uuid
            · simp [hu]
            · rw [if_neg hu]
              intro hlook
              have hsame := hold.mpr ⟨heq, hlook⟩
              rw [hentity] at hsame
              exact hp (Option.some.inj hsame).symm
          · by_cases hu : p.uuid = player.uuid
            · simp only [if_neg he, hold, if_pos hu, reduceCtorEq, and_false, iff_false, not_and]
              intro _ hlook
              rw [hu] at hlook
              exact hp (Option.some.inj (hlook.symm.trans honline))
            · simp [he, hu, hold]
      · simp only [getByUuid, hlookup, List.mem_filter, hindexed.order]
        by_cases hu : u = player.uuid
        · simp [hu]
        · simp [hu]
  · rename_i hstale
    exact .stale hstale

end PlayerMap

end

/-!
## Player admission
An admission reserves a UUID while a session joins, changes its domain or is
saved. Each function is one section under the admission lock or one pass of the
tick.
-/

section

instance decidableEqExcept {E A : Type} [DecidableEq E] [DecidableEq A] : DecidableEq (Except E A)
  | .error e, .error e' => decidable_of_iff (e = e') (by simp)
  | .ok a, .ok a' => decidable_of_iff (a = a') (by simp)
  | .error _, .ok _ => isFalse (by simp)
  | .ok _, .error _ => isFalse (by simp)

inductive PlayerAdmissionState where
  | joining
  | relocating
  | disconnecting
  deriving DecidableEq

inductive PlayerJoinReservation where
  | reserved
  | duplicate
  | full
  deriving DecidableEq

/-- A loaded join; the domain state itself is left out. -/
structure PendingPlayerJoin (U : Type) where
  player : Player U
  state : Except String Unit
  deriving DecidableEq

/-- A join is refused with a message for the client, if it is still there. -/
inductive JoinCheck where
  | proceed
  | refuse (disconnect : Option String)
  deriving DecidableEq

structure PlayerAdmissions (U : Type) [DecidableEq U] where
  admissions : AssocList U PlayerAdmissionState
  onlinePlayers : PlayerMap U

namespace PlayerAdmissions

variable {U : Type} [DecidableEq U]

def new : PlayerAdmissions U := ⟨∅, .new⟩

def playerCount (s : PlayerAdmissions U) : Nat := s.onlinePlayers.len

/-- The number of reservations for players that are not online yet. -/
def joining (s : PlayerAdmissions U) : Nat := AssocList.count (· = .joining) s.admissions

def tryReservePlayerJoin (maxPlayers : Nat) (s : PlayerAdmissions U) (player : Player U) :
    PlayerJoinReservation × PlayerAdmissions U :=
  if (s.admissions.lookup player.uuid).isSome then (.duplicate, s)
  else if (s.onlinePlayers.getByUuid player.uuid).isSome then (.duplicate, s)
  else if maxPlayers ≤ s.playerCount + s.joining then (.full, s)
  else (.reserved, { s with admissions := s.admissions.insert player.uuid .joining })

def releasePlayerAdmission (s : PlayerAdmissions U) (uuid : U) (state : PlayerAdmissionState) : PlayerAdmissions U :=
  if s.admissions.lookup uuid = some state then { s with admissions := s.admissions.erase uuid } else s

/-- The part of `finish_prepared_player_join` before the admission. -/
def checkPreparedJoin (maxPlayers : Nat) (s : PlayerAdmissions U) (join : PendingPlayerJoin U)
    (closed whitelisted : Bool) : JoinCheck :=
  if closed then .refuse none
  else if !whitelisted then .refuse (some "You are not whitelisted")
  else if maxPlayers ≤ s.playerCount then .refuse (some "The server is full")
  else
    match join.state with
    | .error _ => .refuse (some "Failed to load player data")
    | .ok _ => .proceed

/-- A panic of the map is an error. -/
def admitReservedPlayer (s : PlayerAdmissions U) (player : Player U) : Except String (Bool × PlayerAdmissions U) :=
  if s.admissions.lookup player.uuid ≠ some .joining then .ok (false, s)
  else (s.onlinePlayers.insert player).map fun (admitted, onlinePlayers) =>
    (admitted, ⟨s.admissions.erase player.uuid, onlinePlayers⟩)

def removeOnlinePlayerSync (s : PlayerAdmissions U) (player : Player U) : PlayerAdmissions U :=
  { s with onlinePlayers := (s.onlinePlayers.removePlayerSync player).2 }

/-- The part of `finish_prepared_player_join` after the admission. -/
def finishAdmittedJoin (s : PlayerAdmissions U) (player : Player U) (restored spawned : Bool) : PlayerAdmissions U :=
  if !restored then s.removeOnlinePlayerSync player
  else if !spawned then s.removeOnlinePlayerSync player
  else s

/-- An online player that has no admission gets one. -/
def reserveOnline (s : PlayerAdmissions U) (player : Player U) (state : PlayerAdmissionState) :
    Option (PlayerAdmissions U) :=
  if (s.admissions.lookup player.uuid).isSome then none
  else if ¬ s.onlinePlayers.Online player then none
  else some { s with admissions := s.admissions.insert player.uuid state }

def reservePlayerDisconnect (s : PlayerAdmissions U) (player : Player U) : Option (PlayerAdmissions U) :=
  s.reserveOnline player .disconnecting

def reservePlayerRelocation (s : PlayerAdmissions U) (player : Player U) : Option (PlayerAdmissions U) :=
  s.reserveOnline player .relocating

def transitionPlayerRelocationToDisconnect (s : PlayerAdmissions U) (player : Player U) :
    Option (PlayerAdmissions U) :=
  if s.admissions.lookup player.uuid ≠ some .relocating then none
  else if ¬ s.onlinePlayers.Online player then none
  else some { s with admissions := s.admissions.insert player.uuid .disconnecting }

/-- The state in which the disconnect save of the player is prepared. -/
def queueDetachedPlayerDisconnect (s : PlayerAdmissions U) (player : Player U) : Option (PlayerAdmissions U) :=
  (s.reservePlayerDisconnect player).map (removeOnlinePlayerSync · player)

/-- The state in which the disconnect save of the player is prepared. -/
def queueRelocatingPlayerDisconnect (s : PlayerAdmissions U) (player : Player U) : Option (PlayerAdmissions U) :=
  (s.transitionPlayerRelocationToDisconnect player).map (removeOnlinePlayerSync · player)

/-- Whether a disconnect save is prepared, and the state after. -/
def processPlayerDisconnect (s : PlayerAdmissions U) (player : Player U) : Bool × PlayerAdmissions U :=
  match s.reservePlayerDisconnect player with
  | none => (false, s)
  | some reserved =>
    match reserved.onlinePlayers.removePlayerSync player with
    | (none, onlinePlayers) =>
      (false, { reserved with onlinePlayers := onlinePlayers }.releasePlayerAdmission player.uuid .disconnecting)
    | (some _, onlinePlayers) => (true, { reserved with onlinePlayers := onlinePlayers })

end PlayerAdmissions

end

end Foton
