import Foton.Admission.Server
import Foton.Admission.System
import Foton.Lib.Ownership

/-!
# Sessions do not overlap

Every `joining` and every `disconnecting` entry is owned by one task, and a
session goes once through joining, being online and being saved.
-/

namespace Foton

open AdmissionTask PlayerAdmissions

variable {U : Type} [DecidableEq U] {maxPlayers : Nat}

/-- The entry that a task owns. -/
def AdmissionTask.holds : AdmissionTask U → Option (U × PlayerAdmissionState)
  | .loading player | .admitting player => some (player.uuid, .joining)
  | .prepared join => some (join.player.uuid, .joining)
  | .disconnect player | .saving player => some (player.uuid, .disconnecting)
  | .login _ | .admitted _ | .relocating _ | .relocated _ => none

/-- The session that a task brings online. -/
def AdmissionTask.entering : AdmissionTask U → Option (Player U)
  | .login player | .loading player | .admitting player => some player
  | .prepared join => some join.player
  | .admitted _ | .relocating _ | .relocated _ | .disconnect _ | .saving _ => none

/-- A load comes after the end of every save of its account that was prepared before. -/
def LoadsSaved (before : List (AdmissionEvent U)) : AdmissionEvent U → Prop
  | .load player => ∀ q, q.uuid = player.uuid → .prepare q ∈ before → .saved q ∈ before
  | .prepare _ | .saved _ => True

namespace AdmissionSystem

/-- The disconnect save of the player has not ended. -/
def Saving (tasks : List (AdmissionTask U)) (player : Player U) : Prop :=
  .disconnect player ∈ tasks ∨ .saving player ∈ tasks

/-- How often the session is about to join, online or handed to a save. -/
def stages (s : AdmissionSystem U) (player : Player U) : Nat :=
  holders entering player s.tasks + (if s.server.onlinePlayers.Online player then 1 else 0) +
    s.log.count (.prepare player)

structure Invariant (maxPlayers : Nat) (s : AdmissionSystem U) : Prop where
  server : s.server.Sound maxPlayers
  owned : Owned holds (· ≠ .relocating) s.server.table s.tasks
  once : ∀ p, s.stages p ≤ if p ∈ s.sessions then 1 else 0
  unsaved : ∀ p, .prepare p ∈ s.log → .saved p ∈ s.log ∨ Saving s.tasks p
  loads : Throughout LoadsSaved s.log

variable {s s' : AdmissionSystem U} {server : PlayerAdmissions U} {tasks : List (AdmissionTask U)} {player : Player U}

theorem new_invariant : (new : AdmissionSystem U).Invariant maxPlayers where
  server := new_sound
  owned := Owned.nil
  once p := by simp [stages, new, PlayerAdmissions.new, PlayerMap.new, PlayerMap.Online, PlayerMap.getByUuid]
  unsaved p h := by simp [new] at h
  loads := Throughout.nil

/-! ## Steps that the log does not see -/

theorem Invariant.move (h : s.Invariant maxPlayers) (hserver : server.Sound maxPlayers)
    (howned : Owned holds (· ≠ .relocating) server.table tasks)
    (hstages : ∀ p, holders entering p tasks + (if server.onlinePlayers.Online p then 1 else 0) ≤
      holders entering p s.tasks + if s.server.onlinePlayers.Online p then 1 else 0)
    (hsaving : ∀ p, Saving s.tasks p → Saving tasks p) :
    Invariant maxPlayers { s with server := server, tasks := tasks } where
  server := hserver
  owned := howned
  once p := by
    have honce := h.once p
    have hp := hstages p
    simp only [stages] at honce ⊢
    omega
  unsaved p hp := (h.unsaved p hp).imp_right (hsaving p)
  loads := h.loads

theorem Saving.erase (h : Saving s.tasks player) {t : AdmissionTask U} (ht : t ≠ .disconnect player)
    (ht' : t ≠ .saving player) : Saving (s.tasks.erase t) player :=
  h.imp (List.mem_erase_of_ne ht.symm).mpr (List.mem_erase_of_ne ht'.symm).mpr

omit [DecidableEq U] in
theorem Saving.cons (h : Saving tasks player) (t : AdmissionTask U) : Saving (t :: tasks) player :=
  h.imp (List.mem_cons_of_mem t) (List.mem_cons_of_mem t)

theorem entering_pass {t t' : AdmissionTask U} (ht : t ∈ tasks) (hsame : t'.entering = t.entering) (p : Player U)
    (n : Nat) : holders entering p (t' :: tasks.erase t) + n ≤ holders entering p tasks + n := by
  rw [holders_pass ht hsame]

theorem entering_drop (tasks : List (AdmissionTask U)) (t : AdmissionTask U) (p : Player U) (n : Nat) :
    holders entering p (tasks.erase t) + n ≤ holders entering p tasks + n :=
  Nat.add_le_add_right (holders_erase_le _ _) _

section
variable (h : s.Invariant maxPlayers)
include h

theorem invariant_tryReservePlayerJoin (ht : .login player ∈ s.tasks)
    (hexec : s.exec maxPlayers (.tryReservePlayerJoin player) = .ok s') : s'.Invariant maxPlayers := by
  simp only [exec] at hexec
  cases hreserve : s.server.tryReservePlayerJoin maxPlayers player with
  | mk reservation server =>
    obtain ⟨hserver, hcase⟩ := tryReservePlayerJoin_spec h.server hreserve
    rw [hreserve] at hexec
    cases reservation with
    | reserved =>
      cases hexec
      have hreserved : Reserved s.server server player := hcase
      refine h.move hserver ?_ (fun p => ?_) fun p hp => (hp.erase (by simp) (by simp)).cons _
      · rw [hreserved.table]
        exact h.owned.take ht rfl rfl fun st _ => by simp [hreserved.free]
      · rw [hreserved.onlinePlayers]
        exact entering_pass ht rfl _ _
    | full =>
      cases hexec
      obtain rfl : server = s.server := hcase
      exact h.move hserver (h.owned.drop ht rfl) (fun p => entering_drop _ _ p _)
        fun p hp => hp.erase (by simp) (by simp)
    | duplicate =>
      cases hexec
      obtain rfl : server = s.server := hcase
      exact h

theorem invariant_finishPreparedPlayerJoin {join : PendingPlayerJoin U} {closed whitelisted : Bool}
    (ht : .prepared join ∈ s.tasks)
    (hexec : s.exec maxPlayers (.finishPreparedPlayerJoin join closed whitelisted) = .ok s') :
    s'.Invariant maxPlayers := by
  simp only [exec] at hexec
  cases hcheck : s.server.checkPreparedJoin maxPlayers join closed whitelisted with
  | proceed =>
    rw [hcheck] at hexec
    cases hexec
    exact h.move h.server (h.owned.pass ht rfl) (fun p => entering_pass ht rfl p _)
      fun p hp => (hp.erase (by simp) (by simp)).cons _
  | refuse message =>
    rw [hcheck] at hexec
    cases hexec
    refine h.move (releasePlayerAdmission_sound h.server _ _) ?_ (fun p => ?_)
      fun p hp => hp.erase (by simp) (by simp)
    · have hheld := h.owned.lookup ht rfl (by decide)
      rw [releasePlayerAdmission_table, if_pos hheld]
      exact h.owned.release ht rfl (by decide)
    · rw [releasePlayerAdmission_onlinePlayers]
      exact entering_drop _ _ p _

theorem invariant_admitReservedPlayer (ht : .admitting player ∈ s.tasks)
    (hexec : s.exec maxPlayers (.admitReservedPlayer player) = .ok s') : s'.Invariant maxPlayers := by
  simp only [exec] at hexec
  have hheld := h.owned.lookup ht rfl (by decide)
  cases hadmitted : s.server.admitReservedPlayer player with
  | error message => simp [hadmitted, Except.map] at hexec
  | ok r =>
    obtain ⟨admitted, server⟩ := r
    obtain ⟨rfl, hserver, hjoined⟩ := admitReservedPlayer_spec h.server hheld hadmitted
    simp only [hadmitted, Except.map] at hexec
    cases hexec
    refine h.move hserver ?_ (fun p => ?_) fun p hp => (hp.erase (by simp) (by simp)).cons _
    · rw [hjoined.table]
      exact (h.owned.release ht rfl (by decide)).spawn rfl
    · have hp : holders entering p (s.tasks.erase (.admitting player)) + _ = _ := holders_erase ht
      rw [holders_spawn rfl]
      simp only [hjoined.online]
      by_cases heq : p = player
      · subst heq
        simp [hjoined.offline, entering] at hp ⊢
        omega
      · simp [heq, Ne.symm heq, entering] at hp ⊢
        omega

theorem invariant_finishAdmittedJoin {restored spawned : Bool} (ht : .admitted player ∈ s.tasks)
    (hexec : s.exec maxPlayers (.finishAdmittedJoin player restored spawned) = .ok s') : s'.Invariant maxPlayers := by
  cases hexec
  have howned := h.owned.drop ht rfl
  have hsaving : ∀ p, Saving s.tasks p → Saving (s.tasks.erase (.admitted player)) p :=
    fun p hp => hp.erase (by simp) (by simp)
  rcases finishAdmittedJoin_cases s.server player restored spawned with heq | heq
  · refine h.move (by rw [heq]; exact h.server) (by rw [heq]; exact howned) (fun p => ?_) hsaving
    rw [heq]
    exact entering_drop _ _ p _
  · refine h.move (by rw [heq]; exact removeOnlinePlayerSync_sound h.server) (by rw [heq]; exact howned) (fun p => ?_)
      hsaving
    have hgone : (if (s.server.removeOnlinePlayerSync player).onlinePlayers.Online p then 1 else 0) ≤
        if s.server.onlinePlayers.Online p then 1 else 0 := by
      by_cases honline : s.server.onlinePlayers.Online p
      · rw [if_pos honline]
        split <;> omega
      · simp [removeOnlinePlayerSync_online, honline]
    rw [heq]
    exact Nat.add_le_add (holders_erase_le _ _) hgone

/-! ## Relocations -/

theorem owned_relocating {uuid : U} {entry : Option PlayerAdmissionState} (hentry : entry = none ∨ entry = some .relocating)
    (hold : s.server.table uuid = none ∨ s.server.table uuid = some .relocating) :
    Owned holds (· ≠ .relocating) (Function.update s.server.table uuid entry) s.tasks := by
  refine h.owned.congr fun k st hst => ?_
  by_cases hk : k = uuid
  · subst hk
    rcases hentry with rfl | rfl <;> rcases hold with hold | hold <;> simp [hold, Ne.symm hst]
  · simp [hk]

theorem release_relocating_owned (uuid : U) : Owned holds (· ≠ .relocating)
    (s.server.releasePlayerAdmission uuid .relocating).table s.tasks := by
  rw [releasePlayerAdmission_table]
  split
  · rename_i hheld
    exact owned_relocating h (Or.inl rfl) (Or.inr hheld)
  · exact h.owned

theorem invariant_reservePlayerRelocation
    (hexec : s.exec maxPlayers (.reservePlayerRelocation player) = .ok s') : s'.Invariant maxPlayers := by
  simp only [exec] at hexec
  cases hreserve : s.server.reservePlayerRelocation player with
  | none =>
    rw [hreserve] at hexec
    cases hexec
    exact h
  | some server =>
    rw [hreserve] at hexec
    cases hexec
    obtain ⟨hserver, hkept⟩ := reserveOnline_spec h.server (by decide) hreserve
    refine h.move hserver (Owned.spawn ?_ rfl) (fun p => ?_) fun p hp => hp.cons _
    · rw [hkept.table]
      exact owned_relocating h (Or.inr rfl) hkept.free
    · rw [hkept.onlinePlayers, holders_spawn rfl]

theorem invariant_finishRelocation (ht : .relocating player ∈ s.tasks)
    (hexec : s.exec maxPlayers (.finishRelocation player) = .ok s') : s'.Invariant maxPlayers := by
  cases hexec
  refine h.move (releasePlayerAdmission_sound h.server _ _) ((release_relocating_owned h _).pass ht rfl) (fun p => ?_)
    fun p hp => (hp.erase (by simp) (by simp)).cons _
  rw [releasePlayerAdmission_onlinePlayers]
  exact entering_pass ht rfl _ _

theorem invariant_cancelRelocated (ht : .relocated player ∈ s.tasks)
    (hexec : s.exec maxPlayers (.cancelRelocated player) = .ok s') : s'.Invariant maxPlayers := by
  cases hexec
  refine h.move (releasePlayerAdmission_sound h.server _ _) ((release_relocating_owned h _).drop ht rfl) (fun p => ?_)
    fun p hp => hp.erase (by simp) (by simp)
  rw [releasePlayerAdmission_onlinePlayers]
  exact entering_drop _ _ p _

/-! ## Disconnect saves -/

omit h in
theorem count_prepare (log : List (AdmissionEvent U)) (p q : Player U) :
    (log ++ [AdmissionEvent.prepare q]).count (.prepare p) = log.count (.prepare p) + if p = q then 1 else 0 := by
  rw [List.count_append, List.count_singleton]
  by_cases hp : p = q
  · subst hp
    simp
  · simp [hp, Ne.symm hp]

/-- **A session is handed over once**: it leaves the online players for its only disconnect save. -/
theorem invariant_prepare (hserver : server.Sound maxPlayers) (hhanded : HandedOver s.server server player) :
    (s.prepare server player).Invariant maxPlayers where
  server := hserver
  owned := by
    change Owned holds (· ≠ .relocating) server.table (.disconnect player :: s.tasks)
    rw [hhanded.table]
    exact h.owned.acquire rfl fun st hst => by
      rcases hhanded.free with hfree | hfree <;> simp [hfree, Ne.symm hst]
  once p := by
    have hp := h.once p
    have hhold : holders entering p (.disconnect player :: s.tasks) = holders entering p s.tasks := holders_spawn rfl
    have hone : (if server.onlinePlayers.Online p then 1 else 0) + (if p = player then 1 else 0) =
        if s.server.onlinePlayers.Online p then 1 else 0 := by
      by_cases heq : p = player
      · subst heq
        simp [hhanded.online, hhanded.wasOnline]
      · simp [hhanded.online, heq]
    change holders entering p (.disconnect player :: s.tasks) + (if server.onlinePlayers.Online p then 1 else 0) +
      (s.log ++ [AdmissionEvent.prepare player]).count (.prepare p) ≤ if p ∈ s.sessions then 1 else 0
    rw [count_prepare, hhold]
    simp only [stages] at hp
    omega
  unsaved p hp := by
    rcases List.mem_append.mp hp with hp | hp
    · rcases h.unsaved p hp with hsaved | hsaving
      · exact Or.inl (List.mem_append_left _ hsaved)
      · exact Or.inr (hsaving.cons _)
    · have heq : p = player := by simpa using hp
      subst heq
      exact Or.inr (Or.inl List.mem_cons_self)
  loads := h.loads.snoc trivial

theorem invariant_queueDetachedPlayerDisconnect
    (hexec : s.exec maxPlayers (.queueDetachedPlayerDisconnect player) = .ok s') : s'.Invariant maxPlayers := by
  simp only [exec] at hexec
  cases hqueue : s.server.queueDetachedPlayerDisconnect player with
  | none =>
    rw [hqueue] at hexec
    cases hexec
    exact h
  | some server =>
    rw [hqueue] at hexec
    cases hexec
    obtain ⟨hserver, hhanded⟩ := queueDetachedPlayerDisconnect_spec h.server hqueue
    exact invariant_prepare h hserver hhanded

theorem invariant_processPlayerDisconnect
    (hexec : s.exec maxPlayers (.processPlayerDisconnect player) = .ok s') : s'.Invariant maxPlayers := by
  simp only [exec] at hexec
  cases hprocess : s.server.processPlayerDisconnect player with
  | mk handed server =>
    obtain ⟨hserver, hcase⟩ := processPlayerDisconnect_spec h.server hprocess
    rw [hprocess] at hexec
    cases handed with
    | false =>
      cases hexec
      obtain rfl : server = s.server := hcase
      exact h
    | true =>
      cases hexec
      exact invariant_prepare h hserver hcase

theorem invariant_queueRelocatingPlayerDisconnect (ht : .relocating player ∈ s.tasks)
    (hexec : s.exec maxPlayers (.queueRelocatingPlayerDisconnect player) = .ok s') : s'.Invariant maxPlayers := by
  simp only [exec] at hexec
  have hended : Invariant maxPlayers { s with tasks := s.tasks.erase (.relocating player) } := by
    exact h.move h.server (h.owned.drop ht rfl) (fun p => entering_drop _ _ p _)
      fun p hp => hp.erase (by simp) (by simp)
  cases hqueue : s.server.queueRelocatingPlayerDisconnect player with
  | none =>
    rw [hqueue] at hexec
    cases hexec
    exact hended
  | some server =>
    rw [hqueue] at hexec
    cases hexec
    obtain ⟨hserver, hhanded⟩ := queueRelocatingPlayerDisconnect_spec h.server hqueue
    exact invariant_prepare hended hserver hhanded

theorem invariant_startSave (ht : .disconnect player ∈ s.tasks)
    (hexec : s.exec maxPlayers (.startSave player) = .ok s') : s'.Invariant maxPlayers := by
  cases hexec
  refine h.move h.server (h.owned.pass ht rfl) (fun p => ?_) fun p hp => ?_
  · exact entering_pass ht rfl _ _
  · by_cases heq : p = player
    · subst heq
      exact Or.inr List.mem_cons_self
    · exact (hp.erase (by simp [Ne.symm heq]) (by simp)).cons _

theorem invariant_endSave (ht : .saving player ∈ s.tasks)
    (hexec : s.exec maxPlayers (.endSave player) = .ok s') : s'.Invariant maxPlayers := by
  cases hexec
  refine ⟨releasePlayerAdmission_sound h.server _ _, ?_, fun p => ?_, fun p hp => ?_, h.loads.snoc trivial⟩
  · have hheld := h.owned.lookup ht rfl (by decide)
    dsimp only
    rw [releasePlayerAdmission_table, if_pos hheld]
    exact h.owned.release ht rfl (by decide)
  · have honce := h.once p
    have hp : holders entering p (s.tasks.erase (.saving player)) ≤ _ := holders_erase_le _ _
    simp only [stages, releasePlayerAdmission_onlinePlayers, List.count_append] at honce ⊢
    have hcount : [AdmissionEvent.saved player].count (.prepare p) = 0 := by simp
    omega
  · have hold : .prepare p ∈ s.log := by simpa using hp
    by_cases heq : p = player
    · exact Or.inl (by simp [heq])
    · rcases h.unsaved p hold with hsaved | hsaving
      · exact Or.inl (List.mem_append_left _ hsaved)
      · exact Or.inr (hsaving.erase (by simp) (by simp [Ne.symm heq]))

/-! ## Logins -/

theorem invariant_queuePlayerJoin (hnew : player ∉ s.sessions)
    (hexec : s.exec maxPlayers (.queuePlayerJoin player) = .ok s') : s'.Invariant maxPlayers := by
  cases hexec
  refine ⟨h.server, h.owned.spawn rfl, fun p => ?_, fun p hp => (h.unsaved p hp).imp_right fun hp => hp.cons _, h.loads⟩
  have honce := h.once p
  simp only [stages, holders_cons, entering, Option.some.injEq] at honce ⊢
  by_cases heq : p = player
  · subst heq
    simp only [hnew, if_false] at honce
    simp only [List.mem_cons, true_or, if_true]
    omega
  · simpa [heq, Ne.symm heq] using honce

theorem invariant_giveUpLogin (ht : .login player ∈ s.tasks)
    (hexec : s.exec maxPlayers (.giveUpLogin player) = .ok s') : s'.Invariant maxPlayers := by
  cases hexec
  exact h.move h.server (h.owned.drop ht rfl) (fun p => entering_drop _ _ p _)
    fun p hp => hp.erase (by simp) (by simp)

/-- The entry of an account whose save has not ended is `disconnecting`. -/
theorem saving_disconnecting (hsaving : Saving s.tasks player) : s.server.table player.uuid = some .disconnecting := by
  rcases hsaving with ht | ht
  · exact h.owned.lookup ht rfl (by decide)
  · exact h.owned.lookup ht rfl (by decide)

theorem invariant_loadPlayerData {state : Except String Unit} (ht : .loading player ∈ s.tasks)
    (hexec : s.exec maxPlayers (.loadPlayerData player state) = .ok s') : s'.Invariant maxPlayers := by
  cases hexec
  have hmoved : Invariant maxPlayers { s with tasks := .prepared ⟨player, state⟩ :: s.tasks.erase (.loading player) } := by
    exact h.move h.server (h.owned.pass ht rfl) (fun p => entering_pass ht rfl p _)
      fun p hp => (hp.erase (by simp) (by simp)).cons _
  refine ⟨h.server, hmoved.owned, fun p => ?_, fun p hp => ?_, h.loads.snoc fun q huuid hq => ?_⟩
  · have honce := hmoved.once p
    have hcount : [AdmissionEvent.load player].count (.prepare p) = 0 := by simp
    simp only [stages, List.count_append] at honce ⊢
    omega
  · have hold : .prepare p ∈ s.log := by simpa using hp
    exact (hmoved.unsaved p hold).imp_left (List.mem_append_left _)
  · -- the account of a save that has not ended is not joining
    rcases h.unsaved q hq with hsaved | hsaving
    · exact hsaved
    · have hjoining := h.owned.lookup ht rfl (by decide)
      have hdisconnecting := saving_disconnecting h hsaving
      rw [huuid, hjoining] at hdisconnecting
      cases hdisconnecting

end

theorem invariant_step {op : AdmissionOp U} (h : s.Invariant maxPlayers) (hstep : s.Step maxPlayers op s') :
    s'.Invariant maxPlayers := by
  obtain ⟨henabled, hexec⟩ := hstep
  cases op with
  | queuePlayerJoin player => exact invariant_queuePlayerJoin h henabled hexec
  | tryReservePlayerJoin player => exact invariant_tryReservePlayerJoin h henabled hexec
  | giveUpLogin player => exact invariant_giveUpLogin h henabled hexec
  | loadPlayerData player state => exact invariant_loadPlayerData h henabled hexec
  | finishPreparedPlayerJoin join closed whitelisted => exact invariant_finishPreparedPlayerJoin h henabled hexec
  | admitReservedPlayer player => exact invariant_admitReservedPlayer h henabled hexec
  | finishAdmittedJoin player restored spawned => exact invariant_finishAdmittedJoin h henabled hexec
  | reservePlayerRelocation player => exact invariant_reservePlayerRelocation h hexec
  | finishRelocation player => exact invariant_finishRelocation h henabled hexec
  | cancelRelocated player => exact invariant_cancelRelocated h henabled hexec
  | queueRelocatingPlayerDisconnect player => exact invariant_queueRelocatingPlayerDisconnect h henabled hexec
  | queueDetachedPlayerDisconnect player => exact invariant_queueDetachedPlayerDisconnect h hexec
  | processPlayerDisconnect player => exact invariant_processPlayerDisconnect h hexec
  | startSave player => exact invariant_startSave h henabled hexec
  | endSave player => exact invariant_endSave h henabled hexec

theorem invariant_of_reachable (h : Reachable maxPlayers s) : s.Invariant maxPlayers := by
  obtain ⟨ops, hrun⟩ := h
  exact hrun.invariant new_invariant fun s op s' hs hstep => invariant_step hs hstep

/-! ## What an account can rely on -/

/-- Sessions of one account do not overlap. -/
structure SessionsApart (maxPlayers : Nat) (s : AdmissionSystem U) : Prop where
  joining : ∀ uuid, s.server.table uuid = some .joining → s.server.onlinePlayers.getByUuid uuid = none
  online : ∀ p q, s.server.onlinePlayers.Online p → s.server.onlinePlayers.Online q → p.uuid = q.uuid → p = q
  indexed : s.server.onlinePlayers.Indexed
  capacity : s.server.playerCount + s.server.joining ≤ maxPlayers
  /-- A reserved player is not turned away for lack of room. -/
  room : ∀ join, .prepared join ∈ s.tasks → ∀ closed whitelisted,
    s.server.checkPreparedJoin maxPlayers join closed whitelisted ≠ .refuse (some "The server is full")
  /-- Nor for a session that is already connected. -/
  admitted : ∀ p, .admitting p ∈ s.tasks → ∀ r, s.server.admitReservedPlayer p = .ok r → r.1 = true
  saving : ∀ p, Saving s.tasks p → s.server.table p.uuid = some .disconnecting
  waits : ∀ p, .loading p ∈ s.tasks → ∀ q, q.uuid = p.uuid → ¬ Saving s.tasks q
  loads : Throughout LoadsSaved s.log
  handedOnce : ∀ p, s.log.count (.prepare p) ≤ 1

theorem Invariant.room (h : s.Invariant maxPlayers) {join : PendingPlayerJoin U} (ht : .prepared join ∈ s.tasks) :
    s.server.playerCount < maxPlayers := by
  have hheld := h.owned.lookup ht rfl (by decide)
  have hjoining := joining_erase hheld s.server.onlinePlayers
  have hcount : [PlayerAdmissionState.joining].countP (· = .joining) = 1 := rfl
  have hcapacity := h.server.capacity
  omega

theorem checkPreparedJoin_full {server : PlayerAdmissions U} {join : PendingPlayerJoin U}
    {closed whitelisted : Bool} (hroom : server.playerCount < maxPlayers) :
    server.checkPreparedJoin maxPlayers join closed whitelisted ≠ .refuse (some "The server is full") := by
  unfold checkPreparedJoin
  rw [if_neg (Nat.not_le.mpr hroom)]
  cases closed <;> cases whitelisted <;> cases join.state <;> simp

theorem Invariant.apart (h : s.Invariant maxPlayers) : s.SessionsApart maxPlayers where
  joining := h.server.offline
  online p q hp hq huuid := hp.unique hq huuid
  indexed := h.server.indexed
  capacity := h.server.capacity
  room join ht closed whitelisted := checkPreparedJoin_full (h.room ht)
  admitted p ht r hr := (admitReservedPlayer_spec h.server (h.owned.lookup ht rfl (by decide)) hr).1
  saving p hp := saving_disconnecting h hp
  waits p ht q huuid hq := by
    have hjoining := h.owned.lookup ht rfl (by decide)
    have hdisconnecting := saving_disconnecting h hq
    rw [huuid, hjoining] at hdisconnecting
    cases hdisconnecting
  loads := h.loads
  handedOnce p := by
    have honce := h.once p
    have hle : (if p ∈ s.sessions then 1 else 0) ≤ 1 := by split <;> omega
    simp only [stages] at honce
    omega

/-- **Player admission never overlaps two sessions of one account.** -/
theorem sessions_never_overlap (h : Reachable maxPlayers s) : s.SessionsApart maxPlayers :=
  (invariant_of_reachable h).apart

/-- A player that joins, leaves and is saved. -/
theorem saved_session_apart : ∃ s : AdmissionSystem Nat,
    s.log = [.load ⟨0, 7, 1⟩, .prepare ⟨0, 7, 1⟩, .saved ⟨0, 7, 1⟩] ∧ s.SessionsApart 1 := by
  let player : Player Nat := ⟨0, 7, 1⟩
  have hlogin := Run.single (show Step 1 (new : AdmissionSystem Nat) (.queuePlayerJoin player) _ from
    ⟨List.not_mem_nil, rfl⟩)
  have hreserve := hlogin.snoc (show Step 1 _ (.tryReservePlayerJoin player) _ from ⟨List.mem_cons_self, rfl⟩)
  have hload := hreserve.snoc (show Step 1 _ (.loadPlayerData player (.ok ())) _ from ⟨List.mem_cons_self, rfl⟩)
  have hcheck := hload.snoc (show Step 1 _ (.finishPreparedPlayerJoin ⟨player, .ok ()⟩ false true) _ from
    ⟨List.mem_cons_self, rfl⟩)
  have hadmitted := hcheck.snoc (show Step 1 _ (.admitReservedPlayer player) _ from ⟨List.mem_cons_self, rfl⟩)
  have hfinish := hadmitted.snoc (show Step 1 _ (.finishAdmittedJoin player true true) _ from ⟨List.mem_cons_self, rfl⟩)
  have hleave := hfinish.snoc (show Step 1 _ (.processPlayerDisconnect player) _ from ⟨trivial, rfl⟩)
  have hstart := hleave.snoc (show Step 1 _ (.startSave player) _ from ⟨List.mem_cons_self, rfl⟩)
  have hend := hstart.snoc (show Step 1 _ (.endSave player) _ from ⟨List.mem_cons_self, rfl⟩)
  exact ⟨_, rfl, sessions_never_overlap ⟨_, hend⟩⟩

end AdmissionSystem

end Foton
